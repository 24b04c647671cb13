import Mathlib.Algebra.Order.BigOperators.Group.List
import Mathlib.Algebra.Order.Group.Defs
import Mathlib.Algebra.Order.Monoid.Unbundled.MinMax

/-!
# Greedy allocation

A need is met from a queue of supplies, each with a size: the first supply is used up
before the second is touched, until the need is met or the queue is.

* `allocate`: what is taken, supply by supply; `leftover`: what is left of the queue.
* `sum_allocate`: what is taken adds up to the need or to everything there is.
* `remains`: what takings by id leave of the supplies, in their order (`Cuts.remains_append`).
-/

namespace Greedy

variable {α K : Type*} [AddCommGroup K]

/-- What there is. -/
def total (size : α → K) (as : List α) : K := (as.map size).sum

@[simp] theorem total_nil (size : α → K) : total size [] = 0 := rfl

@[simp] theorem total_cons (size : α → K) (a : α) (as : List α) : total size (a :: as) = size a + total size as := by
  simp [total]

variable [LinearOrder K] (size : α → K) (cut : α → K → α)

/-- The amounts that a need takes, with the supplies they are taken from. -/
def allocate : K → List α → List (α × K)
  | _, [] => []
  | need, a :: as => if need ≤ 0 then [] else (a, min need (size a)) :: allocate (need - min need (size a)) as

/-- The supplies that are left; `cut a k` is what is left of `a` when `k` of it is taken. -/
def leftover : K → List α → List α
  | _, [] => []
  | need, a :: as =>
    if need ≤ 0 then a :: as else if need < size a then cut a need :: as else leftover (need - size a) as

variable {size cut} {need : K} {a : α} {as : List α}

@[simp] theorem allocate_nil (need : K) : allocate size need [] = [] := rfl

@[simp] theorem leftover_nil (need : K) : leftover size cut need [] = [] := rfl

theorem allocate_of_nonpos (h : need ≤ 0) (as : List α) : allocate size need as = [] := by
  cases as with
  | nil => rfl
  | cons a as => rw [allocate, if_pos h]

theorem leftover_of_nonpos (h : need ≤ 0) (as : List α) : leftover size cut need as = as := by
  cases as with
  | nil => rfl
  | cons a as => rw [leftover, if_pos h]

theorem allocate_cons_of_pos (h : 0 < need) (a : α) (as : List α) :
    allocate size need (a :: as) = (a, min need (size a)) :: allocate size (need - min need (size a)) as := by
  rw [allocate, if_neg (not_le.2 h)]

/-- A supply that is too large is cut, and nothing after it is touched. -/
theorem leftover_cons_of_lt (h : 0 < need) (ha : need < size a) (as : List α) :
    leftover size cut need (a :: as) = cut a need :: as := by
  rw [leftover, if_neg (not_le.2 h), if_pos ha]

/-- A supply that is not goes. -/
theorem leftover_cons_of_ge (h : 0 < need) (ha : size a ≤ need) (as : List α) :
    leftover size cut need (a :: as) = leftover size cut (need - size a) as := by
  rw [leftover, if_neg (not_le.2 h), if_neg (not_lt.2 ha)]

/-- What is taken is taken from the supplies there are. -/
theorem mem_of_mem_allocate {d : α × K} : ∀ (as : List α) (need : K), d ∈ allocate size need as → d.1 ∈ as := by
  intro as
  induction as with
  | nil => intro need h; exact absurd h List.not_mem_nil
  | cons a as ih =>
    intro need h
    rw [allocate] at h
    split_ifs at h
    · exact absurd h List.not_mem_nil
    · rcases List.mem_cons.1 h with rfl | h
      · exact List.mem_cons_self
      · exact List.mem_cons_of_mem _ (ih _ h)

variable [IsOrderedAddMonoid K]

theorem total_nonneg (h : ∀ a ∈ as, 0 ≤ size a) : 0 ≤ total size as :=
  List.sum_nonneg fun k hk => by
    obtain ⟨a, ha, rfl⟩ := List.mem_map.1 hk
    exact h a ha

/-- **What is taken** adds up to the need, or to all there is if that is less. -/
theorem sum_allocate : ∀ (as : List α) (need : K), 0 ≤ need → (∀ a ∈ as, 0 ≤ size a) →
    ((allocate size need as).map Prod.snd).sum = min need (total size as) := by
  intro as
  induction as with
  | nil => intro need hn _; simp [min_eq_right hn]
  | cons a as ih =>
    intro need hn hs
    obtain ⟨ha, has⟩ := List.forall_mem_cons.1 hs
    have htotal := total_nonneg has
    rcases hn.eq_or_lt with rfl | hpos
    · rw [allocate_of_nonpos le_rfl, List.map_nil, List.sum_nil, total_cons, min_eq_left (add_nonneg ha htotal)]
    · rw [allocate_cons_of_pos hpos, List.map_cons, List.sum_cons, total_cons]
      rcases le_total need (size a) with hle | hle
      · have hmin : need ≤ size a + total size as := hle.trans (le_add_of_nonneg_right htotal)
        rw [min_eq_left hle, sub_self, allocate_of_nonpos le_rfl, min_eq_left hmin]
        simp
      · rw [min_eq_right hle, ih _ (sub_nonneg.2 hle) has, ← min_add_add_left, add_sub_cancel]

/-! ## Supplies with ids -/

section Ids

variable {ι : Type*} [DecidableEq ι]

/-- What a list of takings takes from the supply with an id. -/
def taken (x : ι) (ds : List (ι × K)) : K := ((ds.filter fun d => d.1 = x).map Prod.snd).sum

/-- A supply that has something left. -/
def kept (size : α → K) (a : α) : Option α := if 0 < size a then some a else none

/-- What some takings leave of the supplies. -/
def remains (size : α → K) (cut : α → K → α) (id : α → ι) (ds : List (ι × K)) (as : List α) : List α :=
  as.filterMap fun a => kept size (cut a (taken (id a) ds))

/-- Cutting a supply takes from its size, bit by bit or at once, and leaves its id. -/
structure Cuts (size : α → K) (cut : α → K → α) (id : α → ι) : Prop where
  size : ∀ a k, size (cut a k) = size a - k
  id : ∀ a k, id (cut a k) = id a
  zero : ∀ a, cut a 0 = a
  add : ∀ a k l, cut (cut a k) l = cut a (k + l)

omit [LinearOrder K] [IsOrderedAddMonoid K] in
theorem taken_append (x : ι) (ds ds' : List (ι × K)) : taken x (ds ++ ds') = taken x ds + taken x ds' := by
  rw [taken, List.filter_append, List.map_append, List.sum_append]
  rfl

omit [LinearOrder K] [IsOrderedAddMonoid K] in
theorem taken_eq_zero {x : ι} {ds : List (ι × K)} (h : ∀ d ∈ ds, d.1 ≠ x) : taken x ds = 0 := by
  rw [taken, List.filter_eq_nil_iff.2 fun d hd => by simpa using h d hd]
  rfl

omit [LinearOrder K] [IsOrderedAddMonoid K] in
theorem taken_singleton (x : ι) (k : K) : taken x [(x, k)] = k := by simp [taken]

theorem taken_nonneg {ds : List (ι × K)} (h : ∀ d ∈ ds, 0 ≤ d.2) (x : ι) : 0 ≤ taken x ds :=
  List.sum_nonneg fun k hk => by
    obtain ⟨d, hd, rfl⟩ := List.mem_map.1 hk
    exact h d (List.mem_of_mem_filter hd)

namespace Cuts

variable {id : α → ι} (h : Cuts size cut id)

include h

omit [IsOrderedAddMonoid K] in
/-- A supply of which nothing is taken stays. -/
theorem kept_of_taken_eq_zero {ds : List (ι × K)} {a : α} (ha : 0 < size a) (hnone : taken (id a) ds = 0) :
    kept size (cut a (taken (id a) ds)) = some a := by
  rw [hnone, h.zero, kept, if_pos ha]

omit [IsOrderedAddMonoid K] in
theorem remains_eq_self {ds : List (ι × K)} {as : List α} (hpos : ∀ a ∈ as, 0 < size a)
    (hnone : ∀ a ∈ as, taken (id a) ds = 0) : remains size cut id ds as = as :=
  (List.filterMap_congr fun a ha => h.kept_of_taken_eq_zero (hpos a ha) (hnone a ha)).trans List.filterMap_some

/-- **What two lists of takings leave**, one after the other. -/
theorem remains_append (ds : List (ι × K)) {ds' : List (ι × K)} (hds : ∀ d ∈ ds', 0 ≤ d.2) (as : List α) :
    remains size cut id (ds ++ ds') as = remains size cut id ds' (remains size cut id ds as) := by
  rw [remains, remains, remains, List.filterMap_filterMap]
  refine List.filterMap_congr fun a _ => ?_
  have hmore := taken_nonneg hds (id a)
  rw [taken_append]
  by_cases hleft : 0 < size (cut a (taken (id a) ds))
  · rw [kept, kept, if_pos hleft, Option.bind_some, kept, h.id, h.add]
  · -- what is gone stays gone
    have hgone : ¬ 0 < size (cut a (taken (id a) ds + taken (id a) ds')) := by
      rw [h.size, not_lt] at hleft ⊢
      rw [← sub_sub]
      exact (sub_le_self _ hmore).trans hleft
    rw [kept, kept, if_neg hleft, if_neg hgone, Option.bind_none]

omit [IsOrderedAddMonoid K] in
/-- Taking from the first supply, if the ids tell the supplies apart. -/
theorem remains_cons {a : α} {as : List α} (hpos : ∀ b ∈ as, 0 < size b) (hids : ∀ b ∈ as, id b ≠ id a) (k : K) :
    remains size cut id [(id a, k)] (a :: as) = if 0 < size (cut a k) then cut a k :: as else as := by
  have hrest : remains size cut id [(id a, k)] as = as := by
    refine h.remains_eq_self hpos fun b hb => taken_eq_zero fun d hd => ?_
    rw [List.mem_singleton.1 hd]
    exact (hids b hb).symm
  rw [remains] at hrest ⊢
  rw [List.filterMap_cons, taken_singleton, hrest, kept]
  split_ifs <;> rfl

end Cuts

end Ids

end Greedy
