import Mathlib.Data.List.Sort

/-!
# Sorting and removing

* Insertion sort leaves elements that the order does not tell apart in the order they came in.
* Removing the indices below `k`, the highest first, drops the first `k` elements.
-/

namespace List

variable {α : Type*} (r : α → α → Prop) [DecidableRel r] {p : α → Bool}

/-- **Sorting is stable** on elements that are all related. -/
theorem filter_insertionSort (hp : ∀ a b, p a = true → p b = true → r a b) (l : List α) :
    (l.insertionSort r).filter p = l.filter p := by
  have hrel : (l.filter p).Pairwise r :=
    pairwise_of_forall_mem_list fun a ha b hb => hp a b (mem_filter.1 ha).2 (mem_filter.1 hb).2
  -- they stay in this order, and sorting loses none
  have hsub : l.filter p <+ (l.insertionSort r).filter p := by
    simpa using (sublist_insertionSort hrel filter_sublist).filter p
  have hlength := ((perm_insertionSort r l).filter p).length_eq
  exact (hsub.eq_of_length hlength.symm).symm

section Key

variable {K : Type*} [LinearOrder K] {key : α → K} {l l' : List α}

omit r [DecidableRel r] in
/-- **Sorted lists are determined by what they have at each key**, in its order. -/
theorem eq_of_filter_key (h : l.Pairwise fun a b => key a ≤ key b) (h' : l'.Pairwise fun a b => key a ≤ key b)
    (hkeys : ∀ k, (l.filter fun a => key a = k) = l'.filter fun a => key a = k) : l = l' := by
  have hmem : ∀ {m m' : List α} {a : α}, (∀ k, (m.filter fun a => key a = k) = m'.filter fun a => key a = k) →
      a ∈ m → a ∈ m' := by
    intro m m' a hkeys ha
    have hat : a ∈ m.filter fun b => key b = key a := mem_filter.2 ⟨ha, by simp⟩
    rw [hkeys] at hat
    exact (mem_filter.1 hat).1
  induction l generalizing l' with
  | nil =>
    cases l' with
    | nil => rfl
    | cons b l' => exact absurd (hmem (fun k => (hkeys k).symm) mem_cons_self) not_mem_nil
  | cons a l ih =>
    cases l' with
    | nil => exact absurd (hmem hkeys mem_cons_self) not_mem_nil
    | cons b l' =>
      obtain ⟨ha, hl⟩ := pairwise_cons.1 h
      obtain ⟨hb, hl'⟩ := pairwise_cons.1 h'
      -- each of the two heads is the least
      have hkey : key a = key b := by
        apply le_antisymm
        · rcases mem_cons.1 (hmem (fun k => (hkeys k).symm) (mem_cons_self (a := b) (l := l'))) with he | hb'
          · rw [he]
          · exact ha b hb'
        · rcases mem_cons.1 (hmem hkeys (mem_cons_self (a := a) (l := l))) with he | ha'
          · rw [he]
          · exact hb a ha'
      have hhead := hkeys (key a)
      rw [filter_cons_of_pos (by simp), filter_cons_of_pos (by simp [hkey])] at hhead
      obtain ⟨rfl, -⟩ := cons.inj hhead
      congr 1
      refine ih hl hl' fun k => ?_
      have hk := hkeys k
      by_cases he : key a = k
      · rw [filter_cons_of_pos (by simpa using he), filter_cons_of_pos (by simpa using he)] at hk
        exact (cons.inj hk).2
      · rwa [filter_cons_of_neg (by simpa using he), filter_cons_of_neg (by simpa using he)] at hk

omit r [DecidableRel r] in
/-- A sorted list with the same elements at each key is the stable sort. -/
theorem eq_insertionSort_of_filter_key (h : l.Pairwise fun a b => key a ≤ key b)
    (hkeys : ∀ k, (l.filter fun a => key a = k) = l'.filter fun a => key a = k) :
    l = l'.insertionSort fun a b => key a ≤ key b := by
  have : Std.Total fun a b : α => key a ≤ key b := ⟨fun a b => le_total _ _⟩
  have : IsTrans α fun a b => key a ≤ key b := ⟨fun _ _ _ => le_trans⟩
  refine eq_of_filter_key h (pairwise_insertionSort _ _) fun k => ?_
  rw [hkeys, filter_insertionSort]
  intro a b ha hb
  simp only [decide_eq_true_eq] at ha hb
  rw [ha, hb]

end Key

/-- Sorting what is sorted the other way round reverses it. -/
theorem insertionSort_range_ge (k : ℕ) : (range k).insertionSort (· ≥ ·) = (range k).reverse := by
  have hdown : ((range k).reverse).Pairwise (· ≥ ·) := by
    rw [pairwise_reverse]
    exact pairwise_le_range
  exact Perm.eq_of_pairwise' (pairwise_insertionSort _ _) hdown
    ((perm_insertionSort _ _).trans (reverse_perm _).symm)

omit r [DecidableRel r] in
theorem drop_eraseIdx_self (l : List α) (k : ℕ) : (l.eraseIdx k).drop k = l.drop (k + 1) := by
  induction l generalizing k with
  | nil => simp
  | cons a l ih =>
    cases k with
    | zero => rfl
    | succ k => simpa using ih k

omit r [DecidableRel r] in
/-- Removing from the highest index down. -/
theorem foldl_eraseIdx_range (l : List α) (k : ℕ) : (range k).reverse.foldl eraseIdx l = l.drop k := by
  induction k generalizing l with
  | zero => rfl
  | succ k ih =>
    rw [range_succ, reverse_append, foldl_append, reverse_singleton, foldl_cons, foldl_nil, ih,
      drop_eraseIdx_self]

end List
