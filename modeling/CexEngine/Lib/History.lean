import Mathlib.Data.List.Nodup

/-!
# Histories

A history is a list, the oldest entry first.

* `History.Each`: what holds of every entry, given the ones before it.
* `History.Precedes`: an entry is followed by another.
-/

namespace History

variable {α : Type*}

/-- `P` holds of every entry and what was there before it. -/
def Each (P : List α → α → Prop) (l : List α) : Prop := ∀ past a future, l = past ++ a :: future → P past a

section Each

variable {P : List α → α → Prop} {a : α} {l l' : List α}

theorem each_nil : Each P [] := fun past a future h => by simp at h

theorem each_cons : Each P (a :: l) ↔ P [] a ∧ Each (fun past => P (a :: past)) l := by
  constructor
  · intro h
    exact ⟨h [] a l rfl, fun past b future he => h (a :: past) b future (by rw [he]; rfl)⟩
  · rintro ⟨ha, hl⟩ past b future he
    cases past with
    | nil =>
      obtain ⟨rfl, -⟩ := List.cons.inj he
      exact ha
    | cons c past =>
      obtain ⟨rfl, htail⟩ := List.cons.inj he
      exact hl past b future htail

theorem each_append : Each P (l ++ l') ↔ Each P l ∧ Each (fun past => P (l ++ past)) l' := by
  induction l generalizing P with
  | nil => exact (and_iff_right each_nil).symm
  | cons a l ih => rw [List.cons_append, each_cons, each_cons, ih, and_assoc]; rfl

end Each

/-- `a` stands before `b`. -/
def Precedes (l : List α) (a b : α) : Prop := [a, b].Sublist l

section Precedes

variable {a b : α} {l l' : List α}

theorem Precedes.append (h : Precedes l a b) (l' : List α) : Precedes (l ++ l') a b :=
  h.trans (List.sublist_append_left l l')

/-- What comes last comes after all. -/
theorem precedes_concat (h : a ∈ l) (b : α) : Precedes (l ++ [b]) a b :=
  List.Sublist.append (List.singleton_sublist.2 h) (List.Sublist.refl [b])

theorem precedes_of_mem (h : a ∈ l) (l' : List α) : Precedes (l ++ b :: l') a b := by
  rw [← List.singleton_append, ← List.append_assoc]
  exact (precedes_concat h b).append l'

/-- What was there comes before what is there now only. -/
theorem precedes_of_extends (hl : l <+: l') (ha : a ∈ l) (hb : b ∈ l') (hnew : b ∉ l) : Precedes l' a b := by
  obtain ⟨more, rfl⟩ := hl
  obtain ⟨front, back, rfl⟩ := List.append_of_mem ((List.mem_append.1 hb).resolve_left hnew)
  rw [← List.append_assoc]
  exact precedes_of_mem (List.mem_append_left _ ha) back

/-- Where nothing occurs twice, two entries do not precede each other. -/
theorem Precedes.asymm (h : Precedes l a b) (hl : l.Nodup) : ¬ Precedes l b a := by
  induction l with
  | nil => exact absurd h (by simp [Precedes])
  | cons c l ih =>
    obtain ⟨hc, hl⟩ := List.nodup_cons.1 hl
    intro h'
    have hmem : ∀ {x y : α}, [x, y].Sublist l → y ∈ l := fun hxy => hxy.subset (by simp)
    rcases List.cons_sublist_cons'.1 h with hab | ⟨rfl, hb⟩
    · rcases List.cons_sublist_cons'.1 h' with hba | ⟨rfl, -⟩
      · exact ih hab hl hba
      · exact hc (hmem hab)
    · rcases List.cons_sublist_cons'.1 h' with hba | ⟨rfl, -⟩
      · exact hc (hmem hba)
      · exact hc (List.singleton_sublist.1 hb)

end Precedes

end History
