import Mathlib.Order.Lattice
import Mathlib.Data.List.Basic
import Mathlib.Data.List.Nodup
import Mathlib.Algebra.BigOperators.Group.List.Basic

/-!
# Sorted maps

A `BTreeMap` as its list of entries, keys strictly increasing. The order of the
entries is a field, so every map the operations build is sorted.

* `mem_insert`, `mem_erase`: which entries an update leaves.
* `get?_eq_some`: lookup is membership; `get?_insert`, `get?_erase`: under updates.
* `bestFirst`: the entries from one end (largest key first, or smallest), and what
  updating the first of them does.
* `sumBy_insert`, `sumBy_erase`: a sum over the entries, under updates.
-/

/-- Entries with strictly increasing keys. -/
structure BTreeMap (K V : Type*) [LinearOrder K] where
  entries : List (K × V)
  sorted : entries.Pairwise fun a b => a.1 < b.1

namespace BTreeMap

variable {K V : Type*} [LinearOrder K]

@[ext]
theorem ext {m m' : BTreeMap K V} (h : m.entries = m'.entries) : m = m' := by
  cases m; cases m'; simp_all

/-- The empty map. -/
def empty : BTreeMap K V := ⟨[], List.Pairwise.nil⟩

@[simp] theorem empty_entries : (empty : BTreeMap K V).entries = [] := rfl

/-- The value at a key. -/
def get? (m : BTreeMap K V) (k : K) : Option V := (m.entries.find? fun e => e.1 = k).map Prod.snd

/-- Sorted insertion, replacing the entry of an equal key. -/
def insertList (k : K) (v : V) : List (K × V) → List (K × V)
  | [] => [(k, v)]
  | e :: l => if k < e.1 then (k, v) :: e :: l else if k = e.1 then (k, v) :: l else e :: insertList k v l

theorem mem_insertList {k : K} {v : V} {e : K × V} {l : List (K × V)} (h : e ∈ insertList k v l) :
    e = (k, v) ∨ e ∈ l := by
  induction l with
  | nil => simpa [insertList] using h
  | cons a l ih =>
    unfold insertList at h
    split_ifs at h
    · simpa using h
    · rcases List.mem_cons.1 h with h | h
      · exact Or.inl h
      · exact Or.inr (List.mem_cons_of_mem _ h)
    · rcases List.mem_cons.1 h with h | h
      · exact Or.inr (h ▸ List.mem_cons_self)
      · exact (ih h).imp_right (List.mem_cons_of_mem _)

theorem sorted_insertList (k : K) (v : V) {l : List (K × V)} (h : l.Pairwise fun a b => a.1 < b.1) :
    (insertList k v l).Pairwise fun a b => a.1 < b.1 := by
  induction l with
  | nil => simp [insertList]
  | cons a l ih =>
    obtain ⟨ha, hl⟩ := List.pairwise_cons.1 h
    unfold insertList
    split_ifs with h1 h2
    · exact List.pairwise_cons.2 ⟨by
        intro e he
        rcases List.mem_cons.1 he with rfl | he
        · exact h1
        · exact h1.trans (ha e he), h⟩
    · subst h2; exact List.pairwise_cons.2 ⟨ha, hl⟩
    · refine List.pairwise_cons.2 ⟨?_, ih hl⟩
      intro e he
      rcases mem_insertList he with rfl | he
      · exact lt_of_le_of_ne (not_lt.1 h1) (Ne.symm h2)
      · exact ha e he

/-- Inserts or replaces an entry. -/
def insert (m : BTreeMap K V) (k : K) (v : V) : BTreeMap K V :=
  ⟨insertList k v m.entries, sorted_insertList k v m.sorted⟩

/-- Removes an entry. -/
def erase (m : BTreeMap K V) (k : K) : BTreeMap K V :=
  ⟨m.entries.filter fun e => e.1 ≠ k, m.sorted.filter _⟩

/-! ## Membership -/

theorem key_unique {m : BTreeMap K V} {a b : K × V} (ha : a ∈ m.entries) (hb : b ∈ m.entries)
    (h : a.1 = b.1) : a = b := by
  have hn : (m.entries.map Prod.fst).Nodup := List.pairwise_map.2 (m.sorted.imp fun h => ne_of_lt h)
  exact List.inj_on_of_nodup_map hn ha hb h

theorem get?_eq_some {m : BTreeMap K V} {k : K} {v : V} : m.get? k = some v ↔ (k, v) ∈ m.entries := by
  constructor
  · intro h
    obtain ⟨e, he, rfl⟩ := Option.map_eq_some_iff.1 h
    have hk := List.find?_some he
    simp only [decide_eq_true_eq] at hk
    exact hk ▸ List.mem_of_find?_eq_some he
  · intro h
    cases hf : m.entries.find? (fun e => e.1 = k) with
    | none =>
      have := List.find?_eq_none.1 hf _ h
      simp at this
    | some e =>
      have hk := List.find?_some hf
      simp only [decide_eq_true_eq] at hk
      have := key_unique (List.mem_of_find?_eq_some hf) h hk
      simp [get?, hf, this]

theorem mem_insert {m : BTreeMap K V} {k : K} {v : V} {e : K × V} :
    e ∈ (m.insert k v).entries ↔ e = (k, v) ∨ (e ∈ m.entries ∧ e.1 ≠ k) := by
  have key : ∀ l : List (K × V), (l.Pairwise fun a b => a.1 < b.1) →
      (e ∈ insertList k v l ↔ e = (k, v) ∨ (e ∈ l ∧ e.1 ≠ k)) := by
    intro l
    induction l with
    | nil => intro _; simp [insertList]
    | cons a l ih =>
      intro h
      obtain ⟨ha, hl⟩ := List.pairwise_cons.1 h
      unfold insertList
      split_ifs with h1 h2
      · -- every old key is larger than `k`
        have : ∀ b ∈ a :: l, b.1 ≠ k := by
          intro b hb
          rcases List.mem_cons.1 hb with rfl | hb
          · exact ne_of_gt h1
          · exact ne_of_gt (h1.trans (ha b hb))
        rw [List.mem_cons]
        exact or_congr_right ⟨fun hb => ⟨hb, this e hb⟩, fun hb => hb.1⟩
      · subst h2
        rw [List.mem_cons, List.mem_cons]
        constructor
        · rintro (h | h)
          · exact Or.inl h
          · exact Or.inr ⟨Or.inr h, ne_of_gt (ha e h)⟩
        · rintro (h | ⟨h | h, hne⟩)
          · exact Or.inl h
          · exact absurd (h ▸ rfl) hne
          · exact Or.inr h
      · rw [List.mem_cons, ih hl, List.mem_cons]
        constructor
        · rintro (rfl | h | ⟨h, hne⟩)
          · exact Or.inr ⟨Or.inl rfl, fun he => h2 he.symm⟩
          · exact Or.inl h
          · exact Or.inr ⟨Or.inr h, hne⟩
        · rintro (h | ⟨h | h, hne⟩)
          · exact Or.inr (Or.inl h)
          · exact Or.inl h
          · exact Or.inr (Or.inr ⟨h, hne⟩)
  exact key m.entries m.sorted

theorem mem_erase {m : BTreeMap K V} {k : K} {e : K × V} :
    e ∈ (m.erase k).entries ↔ e ∈ m.entries ∧ e.1 ≠ k := by
  simp [erase]

theorem get?_insert (m : BTreeMap K V) (k k' : K) (v : V) :
    (m.insert k v).get? k' = if k' = k then some v else m.get? k' := by
  refine Option.ext fun w => ?_
  split_ifs with h
  · subst h
    rw [get?_eq_some, mem_insert]
    simp [eq_comm]
  · rw [get?_eq_some, mem_insert, get?_eq_some]
    simp [h]

theorem get?_erase (m : BTreeMap K V) (k k' : K) :
    (m.erase k).get? k' = if k' = k then none else m.get? k' := by
  refine Option.ext fun w => ?_
  split_ifs with h
  · subst h
    rw [get?_eq_some, mem_erase]
    simp
  · rw [get?_eq_some, mem_erase, get?_eq_some]
    simp [h]

/-! ## From one end -/

/-- The entries from the top (`true`: largest key first) or from the bottom. -/
def bestFirst (m : BTreeMap K V) (top : Bool) : List (K × V) := if top then m.entries.reverse else m.entries

theorem mem_bestFirst {m : BTreeMap K V} {top : Bool} {e : K × V} : e ∈ m.bestFirst top ↔ e ∈ m.entries := by
  cases top <;> simp [bestFirst]

/-- `a` comes before `b` when seen from that end. -/
def Before (top : Bool) (a b : K) : Prop := if top then b < a else a < b

theorem Before.not_before {top : Bool} {a b : K} (h : Before top a b) : ¬ (b = a ∨ Before top b a) := by
  rintro (rfl | h')
  · cases top <;> exact lt_irrefl _ h
  · cases top <;> exact lt_asymm (show _ < _ from h) h'

theorem bestFirst_sorted (m : BTreeMap K V) (top : Bool) :
    (m.bestFirst top).Pairwise fun a b => Before top a.1 b.1 := by
  cases top
  · simpa [bestFirst, Before] using m.sorted
  · simpa [bestFirst, Before, List.pairwise_reverse] using m.sorted

theorem insertList_last {k : K} (v v' : V) {l : List (K × V)} (h : ∀ e ∈ l, e.1 < k) :
    insertList k v (l ++ [(k, v')]) = l ++ [(k, v)] := by
  induction l with
  | nil => simp [insertList]
  | cons a l ih =>
    have ha := h a List.mem_cons_self
    rw [List.cons_append, insertList, if_neg (not_lt.2 ha.le), if_neg (ne_of_gt ha),
      ih fun e he => h e (List.mem_cons_of_mem _ he), List.cons_append]

section First

variable {m : BTreeMap K V} {top : Bool} {k : K} {v : V} {rest : List (K × V)}

theorem get?_first (h : m.bestFirst top = (k, v) :: rest) : m.get? k = some v :=
  get?_eq_some.2 (mem_bestFirst.1 (h ▸ List.mem_cons_self))

/-- Replacing the first entry's value. -/
theorem bestFirst_insert_first (h : m.bestFirst top = (k, v) :: rest) (w : V) :
    (m.insert k w).bestFirst top = (k, w) :: rest := by
  cases top with
  | false =>
    simp only [bestFirst, Bool.false_eq_true, if_false] at h ⊢
    simp [insert, h, insertList]
  | true =>
    simp only [bestFirst, if_true] at h ⊢
    have he : m.entries = rest.reverse ++ [(k, v)] := by
      rw [← List.reverse_reverse m.entries, h, List.reverse_cons]
    have hlt : ∀ e ∈ rest.reverse, e.1 < k := by
      have hs := m.sorted
      rw [he, List.pairwise_append] at hs
      exact fun e hm => hs.2.2 e hm _ (List.mem_singleton_self _)
    rw [show (m.insert k w).entries = insertList k w m.entries from rfl, he, insertList_last w v hlt]
    simp

/-- Removing the first entry. -/
theorem bestFirst_erase_first (h : m.bestFirst top = (k, v) :: rest) : (m.erase k).bestFirst top = rest := by
  have hne : ∀ e ∈ rest, e.1 ≠ k := by
    intro e he
    have hs := bestFirst_sorted m top
    rw [h] at hs
    have := (List.pairwise_cons.1 hs).1 e he
    cases top
    · exact ne_of_gt this
    · exact ne_of_lt this
  have hf : (m.bestFirst top).filter (fun e => e.1 ≠ k) = rest := by
    rw [h, List.filter_cons_of_neg (by simp), List.filter_eq_self]
    intro e he; simpa using hne e he
  cases top with
  | false => simpa [bestFirst, erase] using hf
  | true => simpa [bestFirst, erase, List.filter_reverse] using hf

end First

/-! ## Sums over the entries -/

section Sum

variable {M : Type*} [AddCommMonoid M]

/-- The sum of `f` over the entries. -/
def sumBy (m : BTreeMap K V) (f : K × V → M) : M := (m.entries.map f).sum

theorem sumBy_bestFirst (m : BTreeMap K V) (f : K × V → M) (top : Bool) :
    ((m.bestFirst top).map f).sum = m.sumBy f := by
  cases top
  · rfl
  · simp [bestFirst, sumBy, List.sum_reverse]

/-- What `f` counts at a key, `0` where the key is absent. -/
def at? (m : BTreeMap K V) (f : K × V → M) (k : K) : M := (m.get? k).elim 0 fun v => f (k, v)

theorem sumBy_insert (m : BTreeMap K V) (f : K × V → M) (k : K) (v : V) :
    (m.insert k v).sumBy f + m.at? f k = m.sumBy f + f (k, v) := by
  have key : ∀ l : List (K × V), (l.Pairwise fun a b => a.1 < b.1) →
      ((insertList k v l).map f).sum + ((l.find? fun e => e.1 = k).map Prod.snd).elim 0 (fun v => f (k, v)) =
        (l.map f).sum + f (k, v) := by
    intro l
    induction l with
    | nil => intro _; simp [insertList]
    | cons a l ih =>
      intro h
      obtain ⟨ha, hl⟩ := List.pairwise_cons.1 h
      unfold insertList
      split_ifs with h1 h2
      · have hn : (a :: l).find? (fun e => decide (e.1 = k)) = none := by
          rw [List.find?_eq_none]
          intro b hb
          rcases List.mem_cons.1 hb with rfl | hb
          · simpa using ne_of_gt h1
          · simpa using ne_of_gt (h1.trans (ha b hb))
        rw [hn]
        simp [add_comm]
      · subst h2
        have : ((a :: l).find? fun e => decide (e.1 = a.1)) = some a := by simp
        rw [this]
        simp only [List.map_cons, List.sum_cons, Option.map_some, Option.elim_some]
        rw [show f (a.1, a.2) = f a from rfl, add_comm (f a), add_comm (f (a.1, v)), add_right_comm]
      · rw [List.find?_cons_of_neg (by simpa using fun he => h2 he.symm)]
        have := ih hl
        simp only [List.map_cons, List.sum_cons, add_assoc] at this ⊢
        rw [this]
  exact key m.entries m.sorted

theorem sumBy_erase (m : BTreeMap K V) (f : K × V → M) (k : K) :
    (m.erase k).sumBy f + m.at? f k = m.sumBy f := by
  have key : ∀ l : List (K × V), (l.Pairwise fun a b => a.1 < b.1) →
      ((l.filter fun e => e.1 ≠ k).map f).sum +
        ((l.find? fun e => e.1 = k).map Prod.snd).elim 0 (fun v => f (k, v)) = (l.map f).sum := by
    intro l
    induction l with
    | nil => intro _; simp
    | cons a l ih =>
      intro h
      obtain ⟨ha, hl⟩ := List.pairwise_cons.1 h
      by_cases hk : a.1 = k
      · subst hk
        have hf : l.filter (fun e => e.1 ≠ a.1) = l := by
          rw [List.filter_eq_self]
          intro b hb; simpa using ne_of_gt (ha b hb)
        rw [List.filter_cons_of_neg (by simp), hf, List.find?_cons_of_pos (by simp), List.map_cons,
          List.sum_cons, add_comm]
        rfl
      · have := ih hl
        rw [List.filter_cons_of_pos (by simpa using hk), List.find?_cons_of_neg (by simpa using hk)]
        simp only [List.map_cons, List.sum_cons, add_assoc] at this ⊢
        rw [this]
  exact key m.entries m.sorted

end Sum

end BTreeMap
