import CexEngine.Proof.Returns

/-!
# All or nothing

What a trade enters into the balances, against what it answers, with every operation rounded
and checked as `Decimal` does.

* `executeTrade_lacks`, `executeTrade_delivers`: what happens once the buyer has paid.
* `executeTrade_allOrNothing_iff`: a refused trade leaves every balance as it was, unless the
  quote has been paid when the base turns out to be missing; an executed one enters exactly
  what it says, unless a sum is rounded.
-/

namespace CexEngine

open Arithmetic (add sub)

namespace Checked

/-- The value is one that a `Decimal` can have. -/
def Fits (x : Decimal) : Prop := |x| ≤ maxValue

theorem value_of_fits {x : Decimal} (h : Fits x) : value x = some x := if_pos h

theorem value_of_not_fits {x : Decimal} (h : ¬ Fits x) : value x = none := if_neg h

section Transfer

variable [Arithmetic] {c : BalanceCache} {user user' : UserId} {mint : Mint} {amount : Decimal}

theorem transfer_refused (h : c.locked user mint < amount) :
    transfer c user user' mint amount = some (c.transfer user user' mint amount true) := by
  unfold transfer BalanceCache.transfer
  dsimp only
  rw [if_pos (show (c.entry user mint).locked < amount from h), if_pos rfl,
    if_pos (show (c.entry user mint).locked < amount from h)]

/-- A transfer that is granted panics if and only if one of its two results does not fit. -/
theorem transfer_of_le (h : amount ≤ c.locked user mint) :
    transfer c user user' mint amount =
      (value (sub (c.locked user mint) amount)).bind fun _ =>
        (value (add (c.available user' mint) amount)).map fun _ => c.transfer user user' mint amount true := by
  have hnot : ¬ (c.entry user mint).locked < amount := not_lt.2 h
  unfold transfer BalanceCache.transfer
  dsimp only
  rw [if_neg hnot, if_pos rfl, if_neg hnot]
  cases hl : value (sub (c.entry user mint).locked amount) with
  | none => rw [show value (sub (c.locked user mint) amount) = none from hl]; rfl
  | some l =>
    obtain rfl := value_some hl
    rw [show value (sub (c.locked user mint) amount) = some _ from hl]
    dsimp only [Option.bind_eq_bind, Option.bind_some]
    have hread : ((c.put user mint ⟨(c.entry user mint).available, sub (c.entry user mint).locked amount⟩).entry
        user' mint).available = c.available user' mint := by
      rw [BalanceCache.entry_put, BalanceCache.available]
      split_ifs with hu
      · rw [hu.1]
      · rfl
    rw [hread]
    cases ha : value (add (c.available user' mint) amount) with
    | none => rfl
    | some a =>
      obtain rfl := value_some ha
      rfl

end Transfer

end Checked

namespace BalanceCache

section Trades

variable [Arithmetic] {c : BalanceCache} {t : MatchResult} {skip : Bool}

/-! ## Trades -/

/-- What a trade that ended with `r` must have done: nothing if it was refused, and otherwise
paid the seller and delivered to the buyer, and nothing else. -/
structure Entered (c : BalanceCache) (t : MatchResult) (r : BalanceCache × Except EngineError (List DbCommand)) :
    Prop where
  err : r.2.isOk = false → SameBalances c r.1
  ok : r.2.isOk = true → Moves c r.1 t.credit fun u m => -t.debit u m

/-- A trade that does not panic enters all or nothing. -/
def AllOrNothing (c : BalanceCache) (t : MatchResult) (skip : Bool) : Prop :=
  ∀ r, Checked.executeTrade c t skip = some r → c.Entered t r

/-- Both transfers of the trade are between the same two accounts of one user. -/
def OneAccount (t : MatchResult) : Prop := t.sellerId = t.buyerId ∧ t.baseMint = t.quoteMint

instance (t : MatchResult) : Decidable (OneAccount t) := inferInstanceAs (Decidable (_ ∧ _))

/-- What the buyer has locked of the quote when he has paid. -/
def paidLocked (c : BalanceCache) (t : MatchResult) : Decimal := sub (c.locked t.buyerId t.quoteMint) t.totalValue

/-- What the seller has available of the quote then. -/
def paidAvailable (c : BalanceCache) (t : MatchResult) : Decimal :=
  add (c.available t.sellerId t.quoteMint) t.totalValue

/-- What the seller has locked of the base then. -/
def baseLocked (c : BalanceCache) (t : MatchResult) : Decimal :=
  if OneAccount t then c.paidLocked t else c.locked t.sellerId t.baseMint

/-- What the buyer has available of the base then. -/
def baseAvailable (c : BalanceCache) (t : MatchResult) : Decimal :=
  if OneAccount t then c.paidAvailable t else c.available t.buyerId t.baseMint

/-- The buyer can pay, and nothing that this takes is too large. -/
structure Pays (c : BalanceCache) (t : MatchResult) : Prop where
  funds : t.totalValue ≤ c.locked t.buyerId t.quoteMint
  value_fits : Checked.Fits t.totalValue
  locked_fits : Checked.Fits (c.paidLocked t)
  available_fits : Checked.Fits (c.paidAvailable t)

/-- The buyer pays, and the seller has not what it delivers; the payment shows. -/
structure StopsHalfway (c : BalanceCache) (t : MatchResult) : Prop where
  pays : c.Pays t
  lacks : c.baseLocked t < t.amount
  shows : ¬ (c.paidLocked t = c.locked t.buyerId t.quoteMint ∧ c.paidAvailable t = c.available t.sellerId t.quoteMint)

/-- The new balances of a trade that goes through are the exact ones. -/
def SumsExact (c : BalanceCache) (t : MatchResult) : Prop :=
  if OneAccount t then
    sub (c.paidLocked t) t.amount = c.locked t.buyerId t.quoteMint - t.totalValue - t.amount ∧
      add (c.paidAvailable t) t.amount = c.available t.sellerId t.quoteMint + t.totalValue + t.amount
  else
    (c.paidLocked t = c.locked t.buyerId t.quoteMint - t.totalValue ∧
        c.paidAvailable t = c.available t.sellerId t.quoteMint + t.totalValue) ∧
      sub (c.locked t.sellerId t.baseMint) t.amount = c.locked t.sellerId t.baseMint - t.amount ∧
        add (c.available t.buyerId t.baseMint) t.amount = c.available t.buyerId t.baseMint + t.amount

/-- The trade goes through, and one of them is not. -/
structure RoundsOff (c : BalanceCache) (t : MatchResult) : Prop where
  pays : c.Pays t
  delivers : t.amount ≤ c.baseLocked t
  locked_fits : Checked.Fits (sub (c.baseLocked t) t.amount)
  available_fits : Checked.Fits (add (c.baseAvailable t) t.amount)
  inexact : ¬ c.SumsExact t

/-- The cache when the buyer has paid. -/
theorem transferred_quote (h : t.totalValue ≤ c.locked t.buyerId t.quoteMint) :
    let c' := (c.transfer t.buyerId t.sellerId t.quoteMint t.totalValue true).1
    Transferred c c' t.buyerId t.sellerId t.quoteMint t.totalValue ∧
      c'.locked t.sellerId t.baseMint = c.baseLocked t ∧ c'.available t.buyerId t.baseMint = c.baseAvailable t := by
  have hmoved := (transfer_granted t.sellerId h).2
  refine ⟨hmoved, ?_, ?_⟩
  · rw [hmoved.locked]
    rfl
  · rw [hmoved.available]
    exact if_congr (and_congr_left' eq_comm) rfl rfl

/-- A trade the buyer cannot pay for, or whose payment does not fit, moves nothing. -/
theorem executeTrade_unpaid (h : ¬ c.Pays t) {r : BalanceCache × Except EngineError (List DbCommand)}
    (hr : Checked.executeTrade c t skip = some r) : r.2.isOk = false ∧ SameBalances c r.1 := by
  unfold Checked.executeTrade at hr
  by_cases hv : Checked.Fits t.totalValue
  swap
  · rw [show Checked.value (Arithmetic.mul t.price t.amount) = none from Checked.value_of_not_fits hv] at hr
    cases hr
  rw [show Checked.value (Arithmetic.mul t.price t.amount) = some t.totalValue from Checked.value_of_fits hv] at hr
  dsimp only [Option.bind_eq_bind, Option.bind_some] at hr
  rcases lt_or_ge (c.locked t.buyerId t.quoteMint) t.totalValue with hlt | hge
  · obtain ⟨herr, hsame⟩ := transfer_refused t.sellerId hlt
    rw [Checked.transfer_refused hlt] at hr
    dsimp only [Option.bind_some] at hr
    cases hq : (c.transfer t.buyerId t.sellerId t.quoteMint t.totalValue true).2 with
    | ok _ => rw [hq] at herr; cases herr
    | error e =>
      rw [hq] at hr
      obtain rfl := Option.some.inj hr
      exact ⟨rfl, hsame⟩
  · rw [Checked.transfer_of_le hge] at hr
    by_cases hl : Checked.Fits (c.paidLocked t)
    swap
    · rw [show Checked.value (sub (c.locked t.buyerId t.quoteMint) t.totalValue) = none from
        Checked.value_of_not_fits hl] at hr
      cases hr
    by_cases ha : Checked.Fits (c.paidAvailable t)
    · exact absurd ⟨hge, hv, hl, ha⟩ h
    · rw [show Checked.value (add (c.available t.sellerId t.quoteMint) t.totalValue) = none from
        Checked.value_of_not_fits ha] at hr
      cases hvalue : Checked.value (sub (c.locked t.buyerId t.quoteMint) t.totalValue) <;> rw [hvalue] at hr <;> cases hr

/-- Once the buyer has paid, the second transfer decides. -/
theorem executeTrade_paid (h : c.Pays t) :
    Checked.executeTrade c t skip =
      (Checked.transfer (c.transfer t.buyerId t.sellerId t.quoteMint t.totalValue true).1 t.sellerId t.buyerId
        t.baseMint t.amount).bind fun base =>
          match base.2 with
          | .error e => some (base.1, .error (.context "Failed to transfer base asset from seller to buyer" e))
          | .ok () => some (base.1, .ok (if skip then [] else [.insertTrade t])) := by
  unfold Checked.executeTrade
  rw [show Checked.value (Arithmetic.mul t.price t.amount) = some t.totalValue from Checked.value_of_fits h.value_fits]
  dsimp only [Option.bind_eq_bind, Option.bind_some]
  rw [Checked.transfer_of_le h.funds,
    show Checked.value (sub (c.locked t.buyerId t.quoteMint) t.totalValue) = some _ from
      Checked.value_of_fits h.locked_fits,
    show Checked.value (add (c.available t.sellerId t.quoteMint) t.totalValue) = some _ from
      Checked.value_of_fits h.available_fits]
  dsimp only [Option.map_some, Option.bind_some]
  rewrite [(transfer_granted t.sellerId h.funds).1]
  rfl

/-- A seller who has not what it delivers is paid all the same. -/
theorem executeTrade_lacks (skip : Bool) (h : c.Pays t) (hlacks : c.baseLocked t < t.amount) :
    ∃ r, Checked.executeTrade c t skip = some r ∧ r.2.isOk = false ∧
      Transferred c r.1 t.buyerId t.sellerId t.quoteMint t.totalValue := by
  obtain ⟨hmoved, hlocked, -⟩ := transferred_quote h.funds
  rw [executeTrade_paid h]
  have hlt := hlacks
  rw [← hlocked] at hlt
  obtain ⟨herr, hsame⟩ := transfer_refused t.buyerId hlt
  rw [Checked.transfer_refused hlt]
  dsimp only [Option.bind_some]
  set base := (c.transfer t.buyerId t.sellerId t.quoteMint t.totalValue true).1.transfer t.sellerId t.buyerId
    t.baseMint t.amount true
  cases hb : base.2 with
  | ok _ => rw [hb] at herr; cases herr
  | error e =>
    refine ⟨_, rfl, rfl, fun u m => ?_, fun u m => ?_⟩
    · rw [hsame.available, hmoved.available]
    · rw [hsame.locked, hmoved.locked]

/-- A trade that goes through. -/
theorem executeTrade_delivers (skip : Bool) (h : c.Pays t) (hdelivers : t.amount ≤ c.baseLocked t)
    (hl : Checked.Fits (sub (c.baseLocked t) t.amount)) (ha : Checked.Fits (add (c.baseAvailable t) t.amount)) :
    ∃ c₁ r, Checked.executeTrade c t skip = some r ∧ r.2.isOk = true ∧
      Transferred c c₁ t.buyerId t.sellerId t.quoteMint t.totalValue ∧
      Transferred c₁ r.1 t.sellerId t.buyerId t.baseMint t.amount := by
  obtain ⟨hmoved, hlocked, havailable⟩ := transferred_quote h.funds
  rw [executeTrade_paid h]
  have hle := hdelivers
  rw [← hlocked] at hle hl
  rw [← havailable] at ha
  obtain ⟨hok, hmoved'⟩ := transfer_granted t.buyerId hle
  rw [Checked.transfer_of_le hle, Checked.value_of_fits hl, Checked.value_of_fits ha]
  dsimp only [Option.map_some, Option.bind_some]
  rw [hok]
  exact ⟨_, _, rfl, rfl, hmoved, hmoved'⟩

/-- One whose last sums do not fit panics. -/
theorem executeTrade_panics (h : c.Pays t) (hdelivers : t.amount ≤ c.baseLocked t)
    (hnot : ¬ (Checked.Fits (sub (c.baseLocked t) t.amount) ∧ Checked.Fits (add (c.baseAvailable t) t.amount))) :
    Checked.executeTrade c t skip = none := by
  obtain ⟨-, hlocked, havailable⟩ := transferred_quote h.funds
  rw [executeTrade_paid h]
  have hle := hdelivers
  rw [← hlocked] at hle hnot
  rw [← havailable] at hnot
  rw [Checked.transfer_of_le hle]
  rcases not_and_or.1 hnot with hl | ha
  · rw [Checked.value_of_not_fits hl]
    rfl
  · rw [Checked.value_of_not_fits ha]
    cases Checked.value (sub ((c.transfer t.buyerId t.sellerId t.quoteMint t.totalValue true).1.locked t.sellerId
      t.baseMint) t.amount) <;> rfl

section Delivered

variable {c₁ c₂ : BalanceCache} (h₁ : Transferred c c₁ t.buyerId t.sellerId t.quoteMint t.totalValue)
  (h₂ : Transferred c₁ c₂ t.sellerId t.buyerId t.baseMint t.amount)

include h₁ h₂

/-- What is locked after both transfers. -/
theorem delivered_locked (u : UserId) (m : Mint) :
    c₂.locked u m =
      if u = t.sellerId ∧ m = t.baseMint then sub (c.baseLocked t) t.amount
      else if u = t.buyerId ∧ m = t.quoteMint then c.paidLocked t else c.locked u m := by
  have hread : c₁.locked t.sellerId t.baseMint = c.baseLocked t := h₁.locked _ _
  rw [h₂.locked, h₁.locked u m, hread, paidLocked]

/-- What is available. -/
theorem delivered_available (u : UserId) (m : Mint) :
    c₂.available u m =
      if u = t.buyerId ∧ m = t.baseMint then add (c.baseAvailable t) t.amount
      else if u = t.sellerId ∧ m = t.quoteMint then c.paidAvailable t else c.available u m := by
  have hread : c₁.available t.buyerId t.baseMint = c.baseAvailable t := by
    rw [h₁.available]
    exact if_congr (and_congr_left' eq_comm) rfl rfl
  rw [h₂.available, h₁.available u m, hread, paidAvailable]

/-- If the balances enter what the trade says, none was rounded. -/
theorem sumsExact_of_moves (hm : Moves c c₂ t.credit (fun u m => -t.debit u m)) : c.SumsExact t := by
  unfold SumsExact
  have hl₁ := hm.locked t.sellerId t.baseMint
  have hl₂ := hm.locked t.buyerId t.quoteMint
  have ha₁ := hm.available t.buyerId t.baseMint
  have ha₂ := hm.available t.sellerId t.quoteMint
  simp only [delivered_locked h₁ h₂, delivered_available h₁ h₂, baseLocked, baseAvailable, MatchResult.debit,
    MatchResult.buyerDebit, MatchResult.sellerDebit, MatchResult.credit, posting] at hl₁ hl₂ ha₁ ha₂
  split_ifs with hone
  · obtain ⟨hs, hb⟩ := hone
    simp only [OneAccount, hs, hb, and_self, if_true] at hl₁ ha₁ ⊢
    exact ⟨by linarith, by linarith⟩
  · have hne : ¬ (t.buyerId = t.sellerId ∧ t.quoteMint = t.baseMint) := fun h => hone ⟨h.1.symm, h.2.symm⟩
    have hne' : ¬ (t.sellerId = t.buyerId ∧ t.quoteMint = t.baseMint) := fun h => hone ⟨h.1, h.2.symm⟩
    have hne'' : ¬ (t.buyerId = t.sellerId ∧ t.baseMint = t.quoteMint) := fun h => hone ⟨h.1.symm, h.2⟩
    have hne₀ : ¬ (t.sellerId = t.buyerId ∧ t.baseMint = t.quoteMint) := hone
    simp only [if_neg hone, if_neg hne, if_neg hne', if_neg hne'', if_neg hne₀, and_self, if_true] at hl₁ hl₂ ha₁ ha₂
    exact ⟨⟨by linarith, by linarith⟩, by linarith, by linarith⟩

theorem moves_of_sumsExact (hexact : c.SumsExact t) : Moves c c₂ t.credit (fun u m => -t.debit u m) := by
  unfold SumsExact at hexact
  -- an account that both transfers change is the one account
  refine ⟨fun u m => ?_, fun u m => ?_⟩
  · rw [delivered_available h₁ h₂]
    simp only [baseAvailable, MatchResult.credit, posting]
    by_cases hb : u = t.buyerId ∧ m = t.baseMint <;> by_cases hs : u = t.sellerId ∧ m = t.quoteMint
    · have hone : OneAccount t := ⟨hs.1.symm.trans hb.1, hb.2.symm.trans hs.2⟩
      rw [if_pos hone] at hexact
      rw [if_pos hb, if_pos hs, if_pos hb, if_pos hone, hexact.2, hs.1, hs.2, add_assoc]
    · have hone : ¬ OneAccount t := fun h => hs ⟨hb.1.trans h.1.symm, hb.2.trans h.2⟩
      rw [if_neg hone] at hexact
      rw [if_pos hb, if_neg hs, if_pos hb, if_neg hone, hexact.2.2, hb.1, hb.2, zero_add]
    · have hone : ¬ OneAccount t := fun h => hb ⟨hs.1.trans h.1, hs.2.trans h.2.symm⟩
      rw [if_neg hone] at hexact
      rw [if_neg hb, if_pos hs, if_pos hs, if_neg hb, hexact.1.2, hs.1, hs.2, add_zero]
    · rw [if_neg hb, if_neg hs, if_neg hs, if_neg hb, add_zero, add_zero]
  · rw [delivered_locked h₁ h₂]
    simp only [baseLocked, MatchResult.debit, MatchResult.buyerDebit, MatchResult.sellerDebit, posting]
    by_cases hs : u = t.sellerId ∧ m = t.baseMint <;> by_cases hb : u = t.buyerId ∧ m = t.quoteMint
    · have hone : OneAccount t := ⟨hs.1.symm.trans hb.1, hs.2.symm.trans hb.2⟩
      rw [if_pos hone] at hexact
      rw [if_pos hs, if_pos hb, if_pos hs, if_pos hone, hexact.1, hb.1, hb.2]
      ring
    · have hone : ¬ OneAccount t := fun h => hb ⟨hs.1.trans h.1, hs.2.trans h.2⟩
      rw [if_neg hone] at hexact
      rw [if_pos hs, if_neg hb, if_pos hs, if_neg hone, hexact.2.1, hs.1, hs.2]
      ring
    · have hone : ¬ OneAccount t := fun h => hs ⟨hb.1.trans h.1.symm, hb.2.trans h.2.symm⟩
      rw [if_neg hone] at hexact
      rw [if_neg hs, if_pos hb, if_pos hb, if_neg hs, hexact.1.1, hb.1, hb.2]
      ring
    · rw [if_neg hs, if_neg hb, if_neg hb, if_neg hs, add_zero, neg_zero, add_zero]

/-- What goes through is entered if and only if no new balance is rounded. -/
theorem moves_iff : Moves c c₂ t.credit (fun u m => -t.debit u m) ↔ c.SumsExact t :=
  ⟨sumsExact_of_moves h₁ h₂, moves_of_sumsExact h₁ h₂⟩

end Delivered

/-- **A trade is all or nothing** if and only if it does not stop halfway and no new balance of
it is rounded. -/
theorem executeTrade_allOrNothing_iff (c : BalanceCache) (t : MatchResult) (skip : Bool) :
    AllOrNothing c t skip ↔ ¬ c.StopsHalfway t ∧ ¬ c.RoundsOff t := by
  constructor
  · intro h
    constructor
    · intro hhalf
      obtain ⟨r, hr, herr, hmoved⟩ := executeTrade_lacks skip hhalf.pays hhalf.lacks
      have hsame := (h r hr).err herr
      refine hhalf.shows ⟨?_, ?_⟩
      · rw [← hsame.locked, hmoved.locked, if_pos ⟨rfl, rfl⟩, paidLocked]
      · rw [← hsame.available, hmoved.available, if_pos ⟨rfl, rfl⟩, paidAvailable]
    · intro hround
      obtain ⟨c₁, r, hr, hok, h₁, h₂⟩ := executeTrade_delivers skip hround.pays hround.delivers
        hround.locked_fits hround.available_fits
      exact hround.inexact ((moves_iff h₁ h₂).1 ((h r hr).ok hok))
  · rintro ⟨hhalf, hround⟩ r hr
    by_cases hpays : c.Pays t
    swap
    · obtain ⟨herr, hsame⟩ := executeTrade_unpaid hpays hr
      exact ⟨fun _ => hsame, fun hok => absurd (herr.symm.trans hok) Bool.false_ne_true⟩
    rcases lt_or_ge (c.baseLocked t) t.amount with hlacks | hdelivers
    · -- the payment does not show
      obtain ⟨r', hr', herr, hmoved⟩ := executeTrade_lacks skip hpays hlacks
      obtain rfl := Option.some.inj (hr.symm.trans hr')
      have hshows : c.paidLocked t = c.locked t.buyerId t.quoteMint ∧
          c.paidAvailable t = c.available t.sellerId t.quoteMint := by
        by_contra hne
        exact hhalf ⟨hpays, hlacks, hne⟩
      refine ⟨fun _ u m => entry_ext ?_ ?_, fun hok => absurd (herr.symm.trans hok) Bool.false_ne_true⟩
      · rw [hmoved.available]
        split_ifs with hu
        · rw [hu.1, hu.2]
          exact hshows.2
        · rfl
      · rw [hmoved.locked]
        split_ifs with hu
        · rw [hu.1, hu.2]
          exact hshows.1
        · rfl
    · by_cases hfits : Checked.Fits (sub (c.baseLocked t) t.amount) ∧ Checked.Fits (add (c.baseAvailable t) t.amount)
      swap
      · rw [executeTrade_panics hpays hdelivers hfits] at hr
        cases hr
      obtain ⟨c₁, r', hr', hok, h₁, h₂⟩ := executeTrade_delivers skip hpays hdelivers hfits.1 hfits.2
      obtain rfl := Option.some.inj (hr.symm.trans hr')
      refine ⟨fun herr => absurd (herr.symm.trans hok) Bool.false_ne_true, fun _ => (moves_iff h₁ h₂).2 ?_⟩
      by_contra hne
      exact hround ⟨hpays, hdelivers, hfits.1, hfits.2, hne⟩

end Trades

/-- A seller who delivers three and has one locked: the buyer's thirty are gone. -/
theorem executeTrade_paid_undelivered :
    ¬ ∀ (c : BalanceCache) (t : MatchResult) (skip : Bool), AllOrNothing c t skip := by
  intro h
  have herr : ((Checked.executeTrade ((new.setBalance 1 "USDT" 0 30).setBalance 2 "SOL" 0 1)
      ⟨2, 1, 1, 2, 10, 3, "SOL", "USDT"⟩ false).map fun r => (r.2.isOk, r.1.available 2 "USDT")) =
        some (false, 30) := by decide +kernel
  obtain ⟨r, hr, hpaid⟩ := Option.map_eq_some_iff.1 herr
  have hsame := ((h _ _ _ r hr).err (congrArg Prod.fst hpaid)).available 2 "USDT"
  rw [show r.1.available 2 "USDT" = 30 from congrArg Prod.snd hpaid] at hsame
  exact absurd hsame (by decide +kernel)

end BalanceCache

end CexEngine
