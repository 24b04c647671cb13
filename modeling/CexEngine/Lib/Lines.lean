import Mathlib.Data.List.Infix

/-!
# Lines

Lists cut into lines at a separator.

* `Lines.split`: the terminated lines, and what follows the last of them.
* `split_join`: splitting undoes joining.
* `prefix_flatMap`: **a prefix of joined pieces is some of the pieces, and a prefix of the next.**
-/

namespace Lines

variable {α β : Type*}

/-- **A prefix of joined pieces**, if it is not empty, ends in one of them. -/
theorem prefix_flatMap {f : β → List α} {pieces : List β} {text : List α} (h : text <+: pieces.flatMap f)
    (hne : text ≠ []) : ∃ before piece after tail, pieces = before ++ piece :: after ∧
      text = before.flatMap f ++ tail ∧ tail <+: f piece ∧ tail ≠ [] := by
  induction pieces generalizing text with
  | nil => exact absurd (List.prefix_nil.1 h) hne
  | cons piece pieces ih =>
    rw [List.flatMap_cons] at h
    rcases Nat.lt_or_ge (f piece).length text.length with hlt | hle
    swap
    · exact ⟨[], piece, pieces, text, rfl, rfl, List.prefix_of_prefix_length_le h (List.prefix_append _ _) hle, hne⟩
    -- all of the piece, and more
    obtain ⟨rest, rfl⟩ := List.prefix_of_prefix_length_le (List.prefix_append _ _) h hlt.le
    have hrest : rest ≠ [] := by
      rintro rfl
      simp at hlt
    obtain ⟨before, next, after, tail, rfl, rfl, htail, hnil⟩ := ih ((List.prefix_append_right_inj _).1 h) hrest
    exact ⟨piece :: before, next, after, tail, rfl, by rw [List.flatMap_cons, List.append_assoc], htail, hnil⟩

/-- Every line, and the separator after it. -/
def join (sep : α) (lines : List (List α)) : List α := lines.flatMap fun line => line ++ [sep]

section Join

variable {sep : α}

@[simp]
theorem join_nil (sep : α) : join sep [] = [] := rfl

@[simp]
theorem join_cons (sep : α) (line : List α) (lines : List (List α)) :
    join sep (line :: lines) = line ++ sep :: join sep lines := by
  unfold join
  rw [List.flatMap_cons, List.append_assoc]
  rfl

theorem join_append (sep : α) (lines lines' : List (List α)) :
    join sep (lines ++ lines') = join sep lines ++ join sep lines' := List.flatMap_append

theorem join_concat (sep : α) (lines : List (List α)) (line : List α) :
    join sep (lines ++ [line]) = join sep lines ++ (line ++ [sep]) := by
  rw [join_append, join_cons, join_nil]

end Join

variable [DecidableEq α]

/-- The terminated lines, and what is left. -/
def split (sep : α) : List α → List (List α) × List α
  | [] => ([], [])
  | a :: text =>
    let r := split sep text
    if a = sep then ([] :: r.1, r.2)
    else
      match r.1 with
      | [] => ([], a :: r.2)
      | line :: lines => ((a :: line) :: lines, r.2)

section Split

variable {sep : α} {lines : List (List α)} {line text tail : List α}

theorem split_of_not_mem (h : sep ∉ text) : split sep text = ([], text) := by
  induction text with
  | nil => rfl
  | cons a text ih =>
    obtain ⟨ha, htext⟩ := List.ne_and_not_mem_of_not_mem_cons h
    rw [split, ih htext, if_neg (Ne.symm ha)]

theorem split_line (h : sep ∉ line) (text : List α) :
    split sep (line ++ sep :: text) = (line :: (split sep text).1, (split sep text).2) := by
  induction line with
  | nil => rw [List.nil_append, split, if_pos rfl]
  | cons a line ih =>
    obtain ⟨ha, hline⟩ := List.ne_and_not_mem_of_not_mem_cons h
    rw [List.cons_append, split, ih hline, if_neg (Ne.symm ha)]

/-- **Splitting undoes joining.** -/
theorem split_join (h : ∀ line ∈ lines, sep ∉ line) (htail : sep ∉ tail) :
    split sep (join sep lines ++ tail) = (lines, tail) := by
  induction lines with
  | nil => exact split_of_not_mem htail
  | cons line lines ih =>
    obtain ⟨hline, hlines⟩ := List.forall_mem_cons.1 h
    rw [join_cons, List.append_assoc, List.cons_append, split_line hline, ih hlines]

end Split

end Lines
