import Mathlib.Algebra.BigOperators.Group.Finset.Piecewise
import Mathlib.Algebra.Order.BigOperators.Group.Finset
import Mathlib.Algebra.Order.Field.Rat
import Mathlib.Data.FinEnum
import Mathlib.Tactic.Linarith
import Mathlib.Tactic.Ring
import CexEngine.Spec.Executor

/-!
# What the balance operations move

Every operation of the balance cache either leaves all balances as they are or moves a
checked amount. `posting user mint x` is the entry `x` in the account of `user` and `mint`.

* `lockBalance_cases`, `unlockBalance_cases`, `transfer_cases`: one case for a refusal, one
  for a success, with the postings of the success.
* `executeTrade_cases`: the three outcomes of a trade, the half-done one among them.
* `supply`: the total of a mint over all users; `Sound`: no balance is negative. The
  operations keep both (`Holds`).
-/

namespace CexEngine

/-- The entry of `x` in the account of `user` and `mint`. -/
def posting (user : UserId) (mint : Mint) (x : Decimal) (u : UserId) (m : Mint) : Decimal :=
  if u = user ∧ m = mint then x else 0

section Posting

variable {user u : UserId} {mint m : Mint} {x : Decimal}

@[simp] theorem posting_self : posting user mint x user mint = x := by simp [posting]

theorem posting_user : posting user mint x user m = if m = mint then x else 0 := by simp [posting]

theorem posting_of_ne (h : u ≠ user) : posting user mint x u m = 0 := if_neg fun hu => h hu.1

theorem posting_nonneg (h : 0 ≤ x) : 0 ≤ posting user mint x u m := by
  unfold posting
  split_ifs
  · exact h
  · exact le_rfl

theorem sum_posting (user : UserId) (mint : Mint) (x : Decimal) (m : Mint) :
    ∑ u : UserId, posting user mint x u m = if m = mint then x else 0 := by
  unfold posting
  by_cases hm : m = mint <;> simp [hm]

end Posting

namespace BalanceCache

variable {c c' : BalanceCache} {user user' u : UserId} {mint m : Mint} {amount : Decimal}

theorem entry_put (b : Balance) : (c.put user mint b).entry u m = if u = user ∧ m = mint then b else c.entry u m := by
  unfold entry getBalance put
  by_cases h : u = user ∧ m = mint
  · obtain ⟨rfl, rfl⟩ := h
    simp
  · rw [if_neg h, AList.lookup_insert_ne (by simpa [Prod.ext_iff] using h)]

/-- The same balances, a missing entry counting as zero. -/
def SameBalances (c c' : BalanceCache) : Prop := ∀ u m, c'.entry u m = c.entry u m

/-- Writing back the entry that was read. -/
theorem sameBalances_put (c : BalanceCache) (user : UserId) (mint : Mint) :
    SameBalances c (c.put user mint (c.entry user mint)) := by
  intro u m
  rw [entry_put]
  split_ifs with h
  · rw [h.1, h.2]
  · rfl

theorem SameBalances.available (h : SameBalances c c') (u : UserId) (m : Mint) : c'.available u m = c.available u m :=
  congrArg Balance.available (h u m)

theorem SameBalances.locked (h : SameBalances c c') (u : UserId) (m : Mint) : c'.locked u m = c.locked u m :=
  congrArg Balance.locked (h u m)

theorem entry_ext (ha : c'.available u m = c.available u m) (hl : c'.locked u m = c.locked u m) :
    c'.entry u m = c.entry u m :=
  calc c'.entry u m = ⟨c'.available u m, c'.locked u m⟩ := rfl
    _ = ⟨c.available u m, c.locked u m⟩ := by rw [ha, hl]
    _ = c.entry u m := rfl

/-- `c'` has `da` more available and `dl` more locked than `c`, account by account. -/
structure Moves (c c' : BalanceCache) (da dl : UserId → Mint → Decimal) : Prop where
  available : ∀ u m, c'.available u m = c.available u m + da u m
  locked : ∀ u m, c'.locked u m = c.locked u m + dl u m

theorem SameBalances.moves (h : SameBalances c c') : Moves c c' (fun _ _ => 0) (fun _ _ => 0) :=
  ⟨fun u m => by rw [h.available, add_zero], fun u m => by rw [h.locked, add_zero]⟩

/-- A write to one account. -/
theorem moves_put {a l : Decimal} :
    Moves c (c.put user mint ⟨a, l⟩) (posting user mint (a - c.available user mint))
      (posting user mint (l - c.locked user mint)) := by
  constructor <;> intro u m <;> simp only [available, locked, entry_put, posting]
  · split_ifs with h
    · rw [h.1, h.2]; ring
    · rw [add_zero]
  · split_ifs with h
    · rw [h.1, h.2]; ring
    · rw [add_zero]

theorem Moves.trans {c'' : BalanceCache} {da dl da' dl' : UserId → Mint → Decimal} (h : Moves c c' da dl)
    (h' : Moves c' c'' da' dl') :
    Moves c c'' (fun u m => da u m + da' u m) (fun u m => dl u m + dl' u m) :=
  ⟨fun u m => by rw [h'.available, h.available, add_assoc], fun u m => by rw [h'.locked, h.locked, add_assoc]⟩

theorem Moves.congr {da dl da' dl' : UserId → Mint → Decimal} (h : Moves c c' da dl) (ha : ∀ u m, da' u m = da u m)
    (hl : ∀ u m, dl' u m = dl u m) : Moves c c' da' dl' :=
  ⟨fun u m => by rw [h.available, ha], fun u m => by rw [h.locked, hl]⟩

/-! ## The operations -/

variable [Arithmetic]

/-- A lock of more than there is changes nothing. -/
theorem lockBalance_refused {c : BalanceCache} {user : UserId} {mint : Mint} {amount : Decimal}
    (h : c.available user mint < amount) :
    (c.lockBalance user mint amount).2.isOk = false ∧ SameBalances c (c.lockBalance user mint amount).1 := by
  unfold lockBalance
  dsimp only
  rw [if_pos (show (c.entry user mint).available < amount from h)]
  exact ⟨rfl, sameBalances_put c user mint⟩

/-- A lock of what there is is granted. -/
theorem lockBalance_granted {c : BalanceCache} {user : UserId} {mint : Mint} {amount : Decimal}
    (h : amount ≤ c.available user mint) : (c.lockBalance user mint amount).2 = .ok () := by
  unfold lockBalance
  dsimp only
  rw [if_neg (show ¬ (c.entry user mint).available < amount from not_lt.2 h)]

/-- An unlock of more than is locked changes nothing. -/
theorem unlockBalance_refused {c : BalanceCache} {user : UserId} {mint : Mint} {amount : Decimal}
    (h : c.locked user mint < amount) :
    (c.unlockBalance user mint amount).2.isOk = false ∧ SameBalances c (c.unlockBalance user mint amount).1 := by
  unfold unlockBalance
  dsimp only
  rw [if_pos (show (c.entry user mint).locked < amount from h)]
  exact ⟨rfl, sameBalances_put c user mint⟩

theorem unlockBalance_granted {c : BalanceCache} {user : UserId} {mint : Mint} {amount : Decimal}
    (h : amount ≤ c.locked user mint) : (c.unlockBalance user mint amount).2 = .ok () := by
  unfold unlockBalance
  dsimp only
  rw [if_neg (show ¬ (c.entry user mint).locked < amount from not_lt.2 h)]

/-- What `user` has locked goes to `user'`, who may be the same, as the entries have it. -/
structure Transferred (c c' : BalanceCache) (user user' : UserId) (mint : Mint) (amount : Decimal) : Prop where
  available : ∀ u m, c'.available u m =
    if u = user' ∧ m = mint then Arithmetic.add (c.available user' mint) amount else c.available u m
  locked : ∀ u m, c'.locked u m =
    if u = user ∧ m = mint then Arithmetic.sub (c.locked user mint) amount else c.locked u m

/-- A transfer of more than is locked changes nothing. -/
theorem transfer_refused {c : BalanceCache} {user : UserId} (user' : UserId) {mint : Mint} {amount : Decimal}
    (h : c.locked user mint < amount) :
    (c.transfer user user' mint amount true).2.isOk = false ∧
      SameBalances c (c.transfer user user' mint amount true).1 := by
  unfold transfer
  dsimp only
  rw [if_pos rfl, if_pos (show (c.entry user mint).locked < amount from h)]
  exact ⟨rfl, sameBalances_put c user mint⟩

theorem transfer_granted {c : BalanceCache} {user : UserId} (user' : UserId) {mint : Mint} {amount : Decimal}
    (h : amount ≤ c.locked user mint) :
    (c.transfer user user' mint amount true).2 = .ok () ∧
      Transferred c (c.transfer user user' mint amount true).1 user user' mint amount := by
  unfold transfer
  dsimp only
  rw [if_pos rfl, if_neg (show ¬ (c.entry user mint).locked < amount from not_lt.2 h)]
  refine ⟨rfl, fun u m => ?_, fun u m => ?_⟩
  · simp only [available, entry_put]
    split_ifs with h₁ h₂ h₃ <;> simp_all
  · simp only [locked, entry_put]
    split_ifs with h₁ h₂ h₃ <;> simp_all

/-- An unlock is a transfer to oneself. -/
theorem unlockBalance_transferred {c : BalanceCache} {user : UserId} {mint : Mint} {amount : Decimal}
    (h : amount ≤ c.locked user mint) : Transferred c (c.unlockBalance user mint amount).1 user user mint amount := by
  unfold unlockBalance
  dsimp only
  rw [if_neg (show ¬ (c.entry user mint).locked < amount from not_lt.2 h)]
  refine ⟨fun u m => ?_, fun u m => ?_⟩
  · simp only [available, entry_put]
    split_ifs <;> rfl
  · simp only [locked, entry_put]
    split_ifs <;> rfl

theorem lockBalanceForOrder_eq (c : BalanceCache) (user : UserId) (mint : Mint) (amount : Decimal) :
    (c.lockBalanceForOrder user mint amount).1 = (c.lockBalance user mint amount).1 ∧
      (c.lockBalanceForOrder user mint amount).2.isOk = (c.lockBalance user mint amount).2.isOk := by
  unfold lockBalanceForOrder
  dsimp only
  cases (c.lockBalance user mint amount).2 <;> exact ⟨rfl, rfl⟩

/-- The lock of an order that the user can pay for is granted. -/
theorem lockBalanceForOrder_ok {c : BalanceCache} {user : UserId} {mint : Mint} {amount : Decimal}
    (h : amount ≤ c.available user mint) : (c.lockBalanceForOrder user mint amount).2 = .ok () := by
  unfold lockBalanceForOrder
  simp only [lockBalance_granted h]

/-- The lock of an order that the user cannot pay for is refused, with nothing changed. -/
theorem lockBalanceForOrder_refused {c : BalanceCache} {user : UserId} {mint : Mint} {amount : Decimal}
    (h : c.available user mint < amount) :
    (∃ e, (c.lockBalanceForOrder user mint amount).2 = .error e) ∧
      SameBalances c (c.lockBalanceForOrder user mint amount).1 := by
  obtain ⟨hfst, hsnd⟩ := lockBalanceForOrder_eq c user mint amount
  obtain ⟨herr, hsame⟩ := lockBalance_refused h
  refine ⟨?_, by rw [hfst]; exact hsame⟩
  rw [herr] at hsnd
  cases hr : (c.lockBalanceForOrder user mint amount).2 with
  | error e => exact ⟨e, rfl⟩
  | ok _ => rw [hr] at hsnd; cases hsnd

theorem unlockBalanceForCancel_eq (c : BalanceCache) (user : UserId) (mint : Mint) (amount : Decimal) :
    (c.unlockBalanceForCancel user mint amount).1 = (c.unlockBalance user mint amount).1 ∧
      (c.unlockBalanceForCancel user mint amount).2.isOk = (c.unlockBalance user mint amount).2.isOk := by
  unfold unlockBalanceForCancel
  dsimp only
  cases (c.unlockBalance user mint amount).2 <;> exact ⟨rfl, rfl⟩

variable [ExactSums]

theorem lockBalance_cases (c : BalanceCache) (user : UserId) (mint : Mint) (amount : Decimal) :
    (c.available user mint < amount ∧ (c.lockBalance user mint amount).2.isOk = false ∧
        SameBalances c (c.lockBalance user mint amount).1) ∨
      (amount ≤ c.available user mint ∧ (c.lockBalance user mint amount).2 = .ok () ∧
        Moves c (c.lockBalance user mint amount).1 (posting user mint (-amount)) (posting user mint amount)) := by
  by_cases h : c.available user mint < amount
  · exact Or.inl ⟨h, lockBalance_refused h⟩
  refine Or.inr ⟨not_lt.1 h, lockBalance_granted (not_lt.1 h), ?_⟩
  unfold lockBalance
  dsimp only
  rw [if_neg (show ¬ (c.entry user mint).available < amount from h)]
  refine moves_put.congr ?_ ?_
  · intro u m; congr 1; simp only [available, ExactSums.sub_eq]; ring
  · intro u m; congr 1; simp only [locked, ExactSums.add_eq]; ring

/-- What the lock of an order moves. -/
theorem lockBalanceForOrder_moves {c : BalanceCache} {user : UserId} {mint : Mint} {amount : Decimal}
    (h : amount ≤ c.available user mint) :
    Moves c (c.lockBalanceForOrder user mint amount).1 (posting user mint (-amount)) (posting user mint amount) := by
  rw [(lockBalanceForOrder_eq c user mint amount).1]
  rcases lockBalance_cases c user mint amount with ⟨hlt, -, -⟩ | ⟨-, -, hmoves⟩
  · exact absurd hlt (not_lt.2 h)
  · exact hmoves

theorem unlockBalance_cases (c : BalanceCache) (user : UserId) (mint : Mint) (amount : Decimal) :
    (c.locked user mint < amount ∧ (c.unlockBalance user mint amount).2.isOk = false ∧
        SameBalances c (c.unlockBalance user mint amount).1) ∨
      (amount ≤ c.locked user mint ∧ (c.unlockBalance user mint amount).2 = .ok () ∧
        Moves c (c.unlockBalance user mint amount).1 (posting user mint amount) (posting user mint (-amount))) := by
  by_cases h : c.locked user mint < amount
  · exact Or.inl ⟨h, unlockBalance_refused h⟩
  refine Or.inr ⟨not_lt.1 h, unlockBalance_granted (not_lt.1 h), ?_⟩
  unfold unlockBalance
  dsimp only
  rw [if_neg (show ¬ (c.entry user mint).locked < amount from h)]
  refine moves_put.congr ?_ ?_
  · intro u m; congr 1; simp only [available, ExactSums.add_eq]; ring
  · intro u m; congr 1; simp only [locked, ExactSums.sub_eq]; ring

theorem transfer_cases (c : BalanceCache) (user user' : UserId) (mint : Mint) (amount : Decimal) :
    (c.locked user mint < amount ∧ (c.transfer user user' mint amount true).2.isOk = false ∧
        SameBalances c (c.transfer user user' mint amount true).1) ∨
      (amount ≤ c.locked user mint ∧ (c.transfer user user' mint amount true).2 = .ok () ∧
        Moves c (c.transfer user user' mint amount true).1 (posting user' mint amount)
          (posting user mint (-amount))) := by
  by_cases h : c.locked user mint < amount
  · exact Or.inl ⟨h, transfer_refused user' h⟩
  obtain ⟨hok, hmoved⟩ := transfer_granted user' (not_lt.1 h)
  refine Or.inr ⟨not_lt.1 h, hok, fun u m => ?_, fun u m => ?_⟩
  · rw [hmoved.available, posting, ExactSums.add_eq]
    split_ifs with hu
    · rw [hu.1, hu.2]
    · rw [add_zero]
  · rw [hmoved.locked, posting, ExactSums.sub_eq]
    split_ifs with hu
    · rw [hu.1, hu.2, sub_eq_add_neg]
    · rw [add_zero]

/-- An unlock of what is locked is granted. -/
theorem unlockBalanceForCancel_granted {c : BalanceCache} {user : UserId} {mint : Mint} {amount : Decimal}
    (h : amount ≤ c.locked user mint) :
    (c.unlockBalanceForCancel user mint amount).2 = .ok () ∧
      Moves c (c.unlockBalanceForCancel user mint amount).1 (posting user mint amount)
        (posting user mint (-amount)) := by
  obtain ⟨hfst, -⟩ := unlockBalanceForCancel_eq c user mint amount
  rcases unlockBalance_cases c user mint amount with ⟨hlt, -, -⟩ | ⟨-, hok, hmoves⟩
  · exact absurd hlt (not_lt.2 h)
  refine ⟨?_, by rw [hfst]; exact hmoves⟩
  unfold unlockBalanceForCancel
  simp only [hok]

end BalanceCache

/-! ## Trades -/

namespace MatchResult

variable [Arithmetic]

/-- What a trade takes from the buyer's locked balance. -/
def buyerDebit (t : MatchResult) (u : UserId) (m : Mint) : Decimal :=
  posting t.buyerId t.quoteMint t.totalValue u m

/-- What a trade takes from the seller's locked balance. -/
def sellerDebit (t : MatchResult) (u : UserId) (m : Mint) : Decimal := posting t.sellerId t.baseMint t.amount u m

/-- What a trade takes from locked balances. -/
def debit (t : MatchResult) (u : UserId) (m : Mint) : Decimal := t.buyerDebit u m + t.sellerDebit u m

/-- What a trade adds to available balances. -/
def credit (t : MatchResult) (u : UserId) (m : Mint) : Decimal :=
  posting t.sellerId t.quoteMint t.totalValue u m + posting t.buyerId t.baseMint t.amount u m

/-- The net of a trade in an account. -/
def net (t : MatchResult) (u : UserId) (m : Mint) : Decimal := t.credit u m - t.debit u m

variable {t : MatchResult} {u : UserId} {m : Mint}

/-- The accounts that a trade debits. -/
def Debits (t : MatchResult) (u : UserId) (m : Mint) : Prop :=
  (u = t.buyerId ∧ m = t.quoteMint) ∨ (u = t.sellerId ∧ m = t.baseMint)

theorem debit_eq_zero (h : ¬ t.Debits u m) : t.debit u m = 0 := by
  rw [Debits, not_or] at h
  simp [debit, buyerDebit, sellerDebit, posting, h.1, h.2]

theorem debit_nonneg (hp : 0 ≤ t.price) (ha : 0 ≤ t.amount) : 0 ≤ t.debit u m :=
  add_nonneg (posting_nonneg (Arithmetic.mul_nonneg hp ha)) (posting_nonneg ha)

end MatchResult

namespace BalanceCache

variable {c c' : BalanceCache}

/-- **The outcomes of a trade**: refused at the first transfer, refused at the second with the
quote already moved, or done. -/
theorem executeTrade_cases [Arithmetic] [ExactSums] (c : BalanceCache) (t : MatchResult) (skip : Bool) :
    (c.locked t.buyerId t.quoteMint < t.totalValue ∧ (c.executeTrade t skip).2.isOk = false ∧
        SameBalances c (c.executeTrade t skip).1) ∨
      (t.totalValue ≤ c.locked t.buyerId t.quoteMint ∧
        c.locked t.sellerId t.baseMint +
          posting t.buyerId t.quoteMint (-t.totalValue) t.sellerId t.baseMint < t.amount ∧
        (c.executeTrade t skip).2.isOk = false ∧
        Moves c (c.executeTrade t skip).1 (posting t.sellerId t.quoteMint t.totalValue)
          (posting t.buyerId t.quoteMint (-t.totalValue))) ∨
      (t.totalValue ≤ c.locked t.buyerId t.quoteMint ∧
        t.amount ≤ c.locked t.sellerId t.baseMint +
          posting t.buyerId t.quoteMint (-t.totalValue) t.sellerId t.baseMint ∧
        (c.executeTrade t skip).2 = .ok (if skip then [] else [.insertTrade t]) ∧
        Moves c (c.executeTrade t skip).1 t.credit fun u m => -t.debit u m) := by
  unfold executeTrade
  dsimp only
  rcases transfer_cases c t.buyerId t.sellerId t.quoteMint t.totalValue with
    ⟨hlt, herr, hsame⟩ | ⟨hle, hok, hmoves⟩
  · refine Or.inl ⟨hlt, ?_⟩
    cases hr : (c.transfer t.buyerId t.sellerId t.quoteMint t.totalValue true).2 with
    | error e => exact ⟨rfl, hsame⟩
    | ok _ => rw [hr] at herr; cases herr
  rw [hok]
  dsimp only
  -- the buyer has paid; the seller delivers from what that leaves
  set c₁ := (c.transfer t.buyerId t.sellerId t.quoteMint t.totalValue true).1
  rcases transfer_cases c₁ t.sellerId t.buyerId t.baseMint t.amount with ⟨hlt', herr, hsame⟩ | ⟨hle', hok', hmoves'⟩
  · refine Or.inr (Or.inl ⟨hle, by rw [← hmoves.locked]; exact hlt', ?_⟩)
    cases hr : (c₁.transfer t.sellerId t.buyerId t.baseMint t.amount true).2 with
    | ok _ => rw [hr] at herr; cases herr
    | error e => exact ⟨rfl, (hmoves.trans hsame.moves).congr (fun _ _ => (add_zero _).symm) fun _ _ => (add_zero _).symm⟩
  · refine Or.inr (Or.inr ⟨hle, by rw [← hmoves.locked]; exact hle', ?_⟩)
    rw [hok']
    refine ⟨rfl, (hmoves.trans hmoves').congr (fun u m => rfl) fun u m => ?_⟩
    simp only [MatchResult.debit, MatchResult.buyerDebit, MatchResult.sellerDebit, posting]
    split_ifs <;> ring

/-! ## Supply -/

/-- No balance is negative. -/
def Sound (c : BalanceCache) : Prop := ∀ u m, 0 ≤ c.available u m ∧ 0 ≤ c.locked u m

theorem sound_new : new.Sound := by
  intro u m
  exact ⟨le_rfl, le_rfl⟩

theorem Sound.setBalance {c : BalanceCache} (h : c.Sound) (user : UserId) (mint : Mint) {a l : Decimal} (ha : 0 ≤ a)
    (hl : 0 ≤ l) : (c.setBalance user mint a l).Sound := by
  intro u m
  simp only [BalanceCache.setBalance, available, locked, entry_put]
  split_ifs
  · exact ⟨ha, hl⟩
  · exact h u m

/-- A withdrawal of more than there is leaves nothing. -/
theorem Sound.addAvailable [Arithmetic] {c : BalanceCache} (h : c.Sound) (user : UserId) (mint : Mint) (delta : Decimal) :
    (c.addAvailable user mint delta).Sound := by
  have hl := (h user mint).2
  unfold BalanceCache.addAvailable
  dsimp only
  split_ifs with hneg
  · exact h.setBalance user mint le_rfl hl
  · exact h.setBalance user mint (not_lt.1 hneg) hl

section Sound

variable [Arithmetic] {user user' : UserId} {mint : Mint} {amount : Decimal} (h : c.Sound) (ha : 0 ≤ amount)

include h ha

theorem Sound.lockBalance : (c.lockBalanceForOrder user mint amount).1.Sound := by
  rw [(lockBalanceForOrder_eq c user mint amount).1, BalanceCache.lockBalance]
  split_ifs with hlt
  · exact h.setBalance user mint (h user mint).1 (h user mint).2
  · exact h.setBalance user mint (Arithmetic.sub_nonneg (not_lt.1 hlt))
      (Arithmetic.add_nonneg (add_nonneg (h user mint).2 ha))

theorem Sound.unlockBalance : (c.unlockBalanceForCancel user mint amount).1.Sound := by
  rw [(unlockBalanceForCancel_eq c user mint amount).1, BalanceCache.unlockBalance]
  split_ifs with hlt
  · exact h.setBalance user mint (h user mint).1 (h user mint).2
  · exact h.setBalance user mint (Arithmetic.add_nonneg (add_nonneg (h user mint).1 ha))
      (Arithmetic.sub_nonneg (not_lt.1 hlt))

theorem Sound.transfer : (c.transfer user user' mint amount true).1.Sound := by
  unfold BalanceCache.transfer
  dsimp only
  rw [if_pos rfl]
  split_ifs with hlt
  · exact h.setBalance user mint (h user mint).1 (h user mint).2
  · have hpaid := h.setBalance user mint (h user mint).1 (Arithmetic.sub_nonneg (not_lt.1 hlt))
    exact hpaid.setBalance user' mint (Arithmetic.add_nonneg (add_nonneg (hpaid user' mint).1 ha)) (hpaid user' mint).2

end Sound

/-- A trade drives no balance negative, also when it is left half done. -/
theorem Sound.executeTrade [Arithmetic] {t : MatchResult} (h : c.Sound) (skip : Bool) (hp : 0 ≤ t.price)
    (ha : 0 ≤ t.amount) : (c.executeTrade t skip).1.Sound := by
  have h₁ : (c.transfer t.buyerId t.sellerId t.quoteMint t.totalValue true).1.Sound :=
    h.transfer (Arithmetic.mul_nonneg hp ha)
  have h₂ : ((c.transfer t.buyerId t.sellerId t.quoteMint t.totalValue true).1.transfer t.sellerId t.buyerId
      t.baseMint t.amount true).1.Sound := h₁.transfer ha
  unfold BalanceCache.executeTrade
  dsimp only
  split
  · exact h₁
  · split
    · exact h₂
    · exact h₂

theorem Sound.executeTrades [Arithmetic] (skip : Bool) : ∀ {ts : List MatchResult} {c : BalanceCache}, c.Sound →
    (∀ t ∈ ts, 0 ≤ t.price ∧ 0 ≤ t.amount) → (c.executeTrades skip ts).1.Sound := by
  intro ts
  induction ts with
  | nil => intro c hc _; exact hc
  | cons t ts ih =>
    intro c hc h
    obtain ⟨hp, ha⟩ := h t List.mem_cons_self
    exact ih (hc.executeTrade skip hp ha) fun t' ht' => h t' (List.mem_cons_of_mem _ ht')

/-- All of a mint, available or locked, over all users. -/
def supply (c : BalanceCache) (m : Mint) : Decimal := ∑ u : UserId, (c.available u m + c.locked u m)

/-- Nothing made, nothing lost, nothing negative. -/
structure Holds (c c' : BalanceCache) : Prop where
  sound : c.Sound → c'.Sound
  supply : ∀ m, c'.supply m = c.supply m

theorem Holds.refl (c : BalanceCache) : Holds c c := ⟨id, fun _ => rfl⟩

theorem Holds.trans {c'' : BalanceCache} (h : Holds c c') (h' : Holds c' c'') : Holds c c'' :=
  ⟨fun hc => h'.sound (h.sound hc), fun m => (h'.supply m).trans (h.supply m)⟩

theorem SameBalances.holds (h : SameBalances c c') : Holds c c' where
  sound hc u m := by rw [h.available, h.locked]; exact hc u m
  supply m := by simp only [BalanceCache.supply, h.available, h.locked]

theorem Moves.supply {da dl : UserId → Mint → Decimal} (h : Moves c c' da dl) (m : Mint) :
    c'.supply m = c.supply m + (∑ u : UserId, da u m + ∑ u : UserId, dl u m) := by
  simp only [BalanceCache.supply, h.available, h.locked, ← Finset.sum_add_distrib]
  exact Finset.sum_congr rfl fun u _ => by ring

theorem supply_new (m : Mint) : new.supply m = 0 := Finset.sum_eq_zero fun _ _ => add_zero 0

theorem supply_setBalance (c : BalanceCache) (user : UserId) (mint : Mint) (a l : Decimal) (m : Mint) :
    (c.setBalance user mint a l).supply m =
      c.supply m + if m = mint then a + l - (c.available user mint + c.locked user mint) else 0 := by
  rw [setBalance, moves_put.supply, sum_posting, sum_posting]
  split_ifs <;> ring

/-! No operation but a deposit or withdrawal changes the supply, whatever its amount. -/

variable [Arithmetic] [ExactSums]

theorem supply_lockBalance (c : BalanceCache) (user : UserId) (mint : Mint) (amount : Decimal) (m : Mint) :
    (c.lockBalanceForOrder user mint amount).1.supply m = c.supply m := by
  rw [(lockBalanceForOrder_eq c user mint amount).1]
  rcases lockBalance_cases c user mint amount with ⟨-, -, hs⟩ | ⟨-, -, hm⟩
  · exact hs.holds.supply m
  · rw [hm.supply, sum_posting, sum_posting]
    split_ifs <;> ring

theorem supply_unlockBalance (c : BalanceCache) (user : UserId) (mint : Mint) (amount : Decimal) (m : Mint) :
    (c.unlockBalanceForCancel user mint amount).1.supply m = c.supply m := by
  rw [(unlockBalanceForCancel_eq c user mint amount).1]
  rcases unlockBalance_cases c user mint amount with ⟨-, -, hs⟩ | ⟨-, -, hm⟩
  · exact hs.holds.supply m
  · rw [hm.supply, sum_posting, sum_posting]
    split_ifs <;> ring

theorem supply_transfer (c : BalanceCache) (user user' : UserId) (mint : Mint) (amount : Decimal) (m : Mint) :
    (c.transfer user user' mint amount true).1.supply m = c.supply m := by
  rcases transfer_cases c user user' mint amount with ⟨-, -, hs⟩ | ⟨-, -, hm⟩
  · exact hs.holds.supply m
  · rw [hm.supply, sum_posting, sum_posting]
    split_ifs <;> ring

theorem supply_executeTrade (c : BalanceCache) (t : MatchResult) (skip : Bool) (m : Mint) :
    (c.executeTrade t skip).1.supply m = c.supply m := by
  have h₁ := supply_transfer c t.buyerId t.sellerId t.quoteMint t.totalValue m
  have h₂ := supply_transfer (c.transfer t.buyerId t.sellerId t.quoteMint t.totalValue true).1
    t.sellerId t.buyerId t.baseMint t.amount m
  unfold executeTrade
  dsimp only
  split
  · exact h₁
  · split
    · exact h₂.trans h₁
    · exact h₂.trans h₁

theorem supply_executeTrades (skip : Bool) (m : Mint) : ∀ (ts : List MatchResult) (c : BalanceCache),
    (c.executeTrades skip ts).1.supply m = c.supply m := by
  intro ts
  induction ts with
  | nil => intro c; rfl
  | cons t ts ih => intro c; exact (ih _).trans (supply_executeTrade c t skip m)

theorem holds_lockBalance (c : BalanceCache) (user : UserId) (mint : Mint) {amount : Decimal} (h : 0 ≤ amount) :
    Holds c (c.lockBalanceForOrder user mint amount).1 :=
  ⟨fun hc => hc.lockBalance h, supply_lockBalance c user mint amount⟩

theorem holds_unlockBalance (c : BalanceCache) (user : UserId) (mint : Mint) {amount : Decimal} (h : 0 ≤ amount) :
    Holds c (c.unlockBalanceForCancel user mint amount).1 :=
  ⟨fun hc => hc.unlockBalance h, supply_unlockBalance c user mint amount⟩

theorem holds_transfer (c : BalanceCache) (user user' : UserId) (mint : Mint) {amount : Decimal} (h : 0 ≤ amount) :
    Holds c (c.transfer user user' mint amount true).1 :=
  ⟨fun hc => hc.transfer h, supply_transfer c user user' mint amount⟩

/-- A trade moves assets, also when it is left half done. -/
theorem holds_executeTrade (c : BalanceCache) {t : MatchResult} (skip : Bool) (hp : 0 ≤ t.price) (ha : 0 ≤ t.amount) :
    Holds c (c.executeTrade t skip).1 :=
  ⟨fun hc => hc.executeTrade skip hp ha, supply_executeTrade c t skip⟩

theorem holds_executeTrades (skip : Bool) (ts : List MatchResult) (c : BalanceCache)
    (h : ∀ t ∈ ts, 0 ≤ t.price ∧ 0 ≤ t.amount) : Holds c (c.executeTrades skip ts).1 :=
  ⟨fun hc => hc.executeTrades skip h, fun m => supply_executeTrades skip m ts c⟩

end BalanceCache

end CexEngine
