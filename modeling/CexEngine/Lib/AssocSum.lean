import Mathlib.Data.List.AList
import Mathlib.Algebra.BigOperators.Group.List.Basic

/-!
# Sums over an association list

`AList.sumBy f m` adds `f` over the entries of a hash map. `AList.sumBy_insert`
says what an insertion does to it: the new entry counts, the replaced one no longer.
-/

namespace AList

variable {α : Type*} {β : α → Type*} [DecidableEq α] {M : Type*} [AddCommMonoid M]

/-- The sum of `f` over the entries. -/
def sumBy (m : AList β) (f : Sigma β → M) : M := (m.entries.map f).sum

/-- What `f` counts at a key, `0` where the key is absent. -/
def countAt (m : AList β) (f : Sigma β → M) (a : α) : M := (m.lookup a).elim 0 fun b => f ⟨a, b⟩

theorem sum_kerase (f : Sigma β → M) (a : α) : ∀ l : List (Sigma β), l.NodupKeys →
    ((l.kerase a).map f).sum + (l.dlookup a).elim 0 (fun b => f ⟨a, b⟩) = (l.map f).sum := by
  intro l
  induction l with
  | nil => intro _; simp
  | cons s l ih =>
    intro h
    obtain ⟨hs, hl⟩ := List.nodupKeys_cons.1 h
    by_cases ha : a = s.1
    · obtain ⟨s1, s2⟩ := s
      simp only at ha; subst ha
      have hk : (⟨a, s2⟩ :: l : List (Sigma β)).kerase a = l := List.kerase_cons_eq rfl
      rw [hk, List.dlookup_cons_eq, List.map_cons, List.sum_cons, add_comm]
      rfl
    · rw [List.kerase_cons_ne ha, List.dlookup_cons_ne _ _ ha, List.map_cons, List.sum_cons, add_assoc, ih hl,
        List.map_cons, List.sum_cons]

theorem sumBy_insert (m : AList β) (f : Sigma β → M) (a : α) (b : β a) :
    (m.insert a b).sumBy f + m.countAt f a = m.sumBy f + f ⟨a, b⟩ := by
  unfold sumBy countAt lookup
  rw [entries_insert, List.map_cons, List.sum_cons, add_assoc, sum_kerase f a _ m.nodupKeys, add_comm]

theorem mem_entries {m : AList β} {a : α} {b : β a} : ⟨a, b⟩ ∈ m.entries ↔ m.lookup a = some b := by
  rw [← Option.mem_def, mem_lookup_iff]

end AList
