import Mathlib.Algebra.Order.BigOperators.Group.List
import CexEngine.Proof.Balances
import CexEngine.Spec.Threads

/-!
# Settling the matches of a call

The trades of one `SubmitOrder` are executed one after another, each against what the ones
before it left.

* `Covers`: every account that the trades debit has locked what they take in all.
* `executeTrades_ok_iff`: **all trades are executed if and only if the accounts are
  covered**, and then they move exactly what they say (`executeTrades_moves`).
-/

namespace CexEngine

/-- A running total of exact sums is the sum. -/
theorem runningTotal_eq [Arithmetic] [ExactSums] (xs : List Decimal) : runningTotal xs = xs.sum := by
  have hadd : (Arithmetic.add : Decimal → Decimal → Decimal) = (· + ·) :=
    funext fun a => funext fun b => ExactSums.add_eq a b
  rw [runningTotal, hadd, List.sum_eq_foldl]

theorem amountUsed_eq_sum [Arithmetic] [ExactSums] (ms : List MatchResult) :
    amountUsed ms = (ms.map MatchResult.amount).sum := runningTotal_eq _

theorem quoteUsed_eq [Arithmetic] [ExactSums] (ms : List MatchResult) :
    quoteUsed ms = (ms.map MatchResult.totalValue).sum := runningTotal_eq _

theorem quoteUsed_eq_sum (ms : List MatchResult) : quoteUsed ms = (ms.map fun m => m.price * m.amount).sum :=
  runningTotal_eq _

namespace BalanceCache

variable [Arithmetic]

/-- What trades take from an account. -/
def debits (ts : List MatchResult) (u : UserId) (m : Mint) : Decimal := (ts.map fun t => t.debit u m).sum

/-- What trades add to an account. -/
def credits (ts : List MatchResult) (u : UserId) (m : Mint) : Decimal := (ts.map fun t => t.credit u m).sum

@[simp] theorem debits_nil (u : UserId) (m : Mint) : debits [] u m = 0 := rfl

@[simp] theorem credits_nil (u : UserId) (m : Mint) : credits [] u m = 0 := rfl

@[simp] theorem debits_cons (t : MatchResult) (ts : List MatchResult) (u : UserId) (m : Mint) :
    debits (t :: ts) u m = t.debit u m + debits ts u m := by simp [debits]

@[simp] theorem credits_cons (t : MatchResult) (ts : List MatchResult) (u : UserId) (m : Mint) :
    credits (t :: ts) u m = t.credit u m + credits ts u m := by simp [credits]

theorem sum_net (ts : List MatchResult) (u : UserId) (m : Mint) :
    (ts.map fun t => t.net u m).sum = credits ts u m - debits ts u m := by
  induction ts with
  | nil => simp
  | cons t ts ih => rw [List.map_cons, List.sum_cons, ih, credits_cons, debits_cons, MatchResult.net]; ring

/-- No trade has a negative price or amount. -/
def Positive (ts : List MatchResult) : Prop := ∀ t ∈ ts, 0 ≤ t.price ∧ 0 ≤ t.amount

omit [Arithmetic] in
theorem Positive.tail {t : MatchResult} {ts : List MatchResult} (h : Positive (t :: ts)) : Positive ts :=
  fun t' ht' => h t' (List.mem_cons_of_mem _ ht')

theorem debits_nonneg {ts : List MatchResult} (h : Positive ts) (u : UserId) (m : Mint) : 0 ≤ debits ts u m := by
  refine List.sum_nonneg (List.forall_mem_map.2 fun t ht => ?_)
  exact MatchResult.debit_nonneg (h t ht).1 (h t ht).2

theorem debits_eq_zero {ts : List MatchResult} {u : UserId} {m : Mint} (h : ∀ t ∈ ts, ¬ t.Debits u m) :
    debits ts u m = 0 := by
  refine List.sum_eq_zero fun x hx => ?_
  obtain ⟨t, ht, rfl⟩ := List.mem_map.1 hx
  exact MatchResult.debit_eq_zero (h t ht)

/-- Every account that the trades debit has what they take. -/
def Covers (c : BalanceCache) (ts : List MatchResult) : Prop :=
  ∀ u m, (∃ t ∈ ts, t.Debits u m) → debits ts u m ≤ c.locked u m

/-- All trades were executed. -/
def AllOk (trades : List (MatchResult × Except EngineError (List DbCommand))) : Prop :=
  ∀ t ∈ trades, t.2.isOk = true

variable {c : BalanceCache} {t : MatchResult} {ts : List MatchResult} {skip : Bool}

/-- One trade is executed if and only if its two accounts are covered. -/
theorem executeTrade_ok_iff [ExactSums] (skip : Bool) (hp : 0 ≤ t.price) (ha : 0 ≤ t.amount) :
    (c.executeTrade t skip).2.isOk = true ↔ ∀ u m, t.Debits u m → t.debit u m ≤ c.locked u m := by
  have hq : 0 ≤ t.totalValue := Arithmetic.mul_nonneg hp ha
  constructor
  · intro hok u m hd
    rcases executeTrade_cases c t skip with ⟨-, herr, -⟩ | ⟨-, -, herr, -⟩ | ⟨hle, hle', -, -⟩
    · rw [herr] at hok; cases hok
    · rw [herr] at hok; cases hok
    simp only [MatchResult.debit, MatchResult.buyerDebit, MatchResult.sellerDebit, posting] at hle' ⊢
    rcases hd with ⟨rfl, rfl⟩ | ⟨rfl, rfl⟩
    · -- the buyer's account is the seller's too only if they are one user and one mint
      by_cases hs : t.buyerId = t.sellerId ∧ t.quoteMint = t.baseMint
      · rw [if_pos ⟨hs.1.symm, hs.2.symm⟩] at hle'
        rw [if_pos ⟨rfl, rfl⟩, if_pos hs, hs.1, hs.2]
        linarith
      · rw [if_pos ⟨rfl, rfl⟩, if_neg hs]
        linarith
    · rw [if_pos (⟨rfl, rfl⟩ : t.sellerId = t.sellerId ∧ t.baseMint = t.baseMint)]
      split_ifs at hle' ⊢ <;> linarith
  · intro hc
    have hb := hc t.buyerId t.quoteMint (Or.inl ⟨rfl, rfl⟩)
    have hs := hc t.sellerId t.baseMint (Or.inr ⟨rfl, rfl⟩)
    simp only [MatchResult.debit, MatchResult.buyerDebit, MatchResult.sellerDebit, posting_self] at hb hs
    rcases executeTrade_cases c t skip with ⟨hlt, -, -⟩ | ⟨-, hlt, -, -⟩ | ⟨-, -, hok, -⟩
    · have : 0 ≤ posting t.sellerId t.baseMint t.amount t.buyerId t.quoteMint := posting_nonneg ha
      linarith
    · simp only [posting] at hlt hs
      split_ifs at hlt hs <;> linarith
    · rw [hok]; rfl

theorem executeTrade_moves [ExactSums] (h : (c.executeTrade t skip).2.isOk = true) :
    Moves c (c.executeTrade t skip).1 t.credit fun u m => -t.debit u m := by
  rcases executeTrade_cases c t skip with ⟨-, herr, -⟩ | ⟨-, -, herr, -⟩ | ⟨-, -, -, hm⟩
  · rw [herr] at h; cases h
  · rw [herr] at h; cases h
  · exact hm

@[simp] theorem executeTrades_cons :
    c.executeTrades skip (t :: ts) =
      (((c.executeTrade t skip).1.executeTrades skip ts).1,
        (t, (c.executeTrade t skip).2) :: ((c.executeTrade t skip).1.executeTrades skip ts).2) := rfl

omit [Arithmetic] in
theorem allOk_cons {x : MatchResult × Except EngineError (List DbCommand)}
    {trades : List (MatchResult × Except EngineError (List DbCommand))} :
    AllOk (x :: trades) ↔ x.2.isOk = true ∧ AllOk trades := by
  simp [AllOk]

/-- **Executed trades move what they say**, if all are executed. -/
theorem executeTrades_moves [ExactSums] : ∀ (ts : List MatchResult) (c : BalanceCache), AllOk (c.executeTrades skip ts).2 →
    Moves c (c.executeTrades skip ts).1 (credits ts) fun u m => -debits ts u m := by
  intro ts
  induction ts with
  | nil => intro c _; exact ⟨fun u m => by simp [executeTrades], fun u m => by simp [executeTrades]⟩
  | cons t ts ih =>
    intro c h
    rw [executeTrades_cons] at h ⊢
    obtain ⟨ht, hts⟩ := allOk_cons.1 h
    refine ((executeTrade_moves ht).trans (ih _ hts)).congr (fun u m => by rw [credits_cons]) fun u m => ?_
    rw [debits_cons]; ring

/-- **All trades are executed if and only if the accounts are covered.** -/
theorem executeTrades_ok_iff [ExactSums] : ∀ (ts : List MatchResult) (c : BalanceCache), Positive ts →
    (AllOk (c.executeTrades skip ts).2 ↔ c.Covers ts) := by
  intro ts
  induction ts with
  | nil => intro c _; simp [AllOk, Covers, executeTrades]
  | cons t ts ih =>
    intro c h
    obtain ⟨hp, ha⟩ := h t List.mem_cons_self
    rw [executeTrades_cons, allOk_cons]
    dsimp only
    rw [executeTrade_ok_iff skip hp ha]
    constructor
    · rintro ⟨ht, hts⟩ u m hd
      have hm := executeTrade_moves ((executeTrade_ok_iff skip hp ha).2 ht)
      have hcov := (ih _ h.tail).1 hts
      rw [debits_cons]
      by_cases htail : ∃ t' ∈ ts, t'.Debits u m
      · have := hcov u m htail
        rw [hm.locked] at this
        linarith
      · -- only the head debits the account
        obtain ⟨t', ht', hd'⟩ := hd
        rcases List.mem_cons.1 ht' with rfl | ht'
        · rw [debits_eq_zero fun t' ht' hd => htail ⟨t', ht', hd⟩, add_zero]
          exact ht u m hd'
        · exact absurd ⟨t', ht', hd'⟩ htail
    · intro hc
      have ht : ∀ u m, t.Debits u m → t.debit u m ≤ c.locked u m := by
        intro u m hd
        have := hc u m ⟨t, List.mem_cons_self, hd⟩
        rw [debits_cons] at this
        have := debits_nonneg h.tail u m
        linarith
      have hm := executeTrade_moves ((executeTrade_ok_iff skip hp ha).2 ht)
      refine ⟨ht, (ih _ h.tail).2 fun u m hd => ?_⟩
      obtain ⟨t', ht', hd'⟩ := hd
      have := hc u m ⟨t', List.mem_cons_of_mem _ ht', hd'⟩
      rw [debits_cons] at this
      rw [hm.locked]
      linarith

theorem executeTrades_fst (skip : Bool) : ∀ (ts : List MatchResult) (c : BalanceCache),
    (c.executeTrades skip ts).2.map Prod.fst = ts := by
  intro ts
  induction ts with
  | nil => intro c; rfl
  | cons t ts ih => intro c; rw [executeTrades_cons, List.map_cons, ih]

end BalanceCache

/-- A release of an amount that is locked succeeds. -/
theorem release_spec [Arithmetic] [ExactSums] (c : BalanceCache) (user : UserId) (mint : Mint) {amount : Decimal}
    (h₀ : 0 ≤ amount) (h : amount ≤ c.locked user mint) :
    (∀ r, (c.release user mint amount).2 = some r → r = .ok ()) ∧
      BalanceCache.Moves c (c.release user mint amount).1 (posting user mint amount) (posting user mint (-amount)) := by
  unfold BalanceCache.release
  split_ifs with hpos
  · obtain ⟨hok, hmoves⟩ := BalanceCache.unlockBalanceForCancel_granted h
    refine ⟨?_, hmoves⟩
    rintro r hr
    obtain rfl := Option.some.inj hr
    exact hok
  · obtain rfl : amount = 0 := le_antisymm (not_lt.1 hpos) h₀
    refine ⟨by simp, ⟨fun u m => ?_, fun u m => ?_⟩⟩ <;> simp [posting]

/-- If all trades are executed, the executed ones are all. -/
theorem executed_of_allOk {trades : List (MatchResult × Except EngineError (List DbCommand))}
    (h : BalanceCache.AllOk trades) : executed trades = trades.map Prod.fst := by
  unfold executed
  rw [List.filter_eq_self.2 h]

section Executed

variable {t : MatchResult × Except EngineError (List DbCommand)}
  {trades : List (MatchResult × Except EngineError (List DbCommand))}

theorem executed_cons_ok (h : t.2.isOk = true) : executed (t :: trades) = t.1 :: executed trades := by
  unfold executed
  rw [List.filter_cons_of_pos (by exact h), List.map_cons]

theorem executed_cons_err (h : ¬ t.2.isOk = true) : executed (t :: trades) = executed trades := by
  unfold executed
  rw [List.filter_cons_of_neg (by exact h)]

theorem mem_of_executed [Arithmetic] {skip : Bool} {ts : List MatchResult} {c : BalanceCache} {m : MatchResult}
    (h : m ∈ executed (c.executeTrades skip ts).2) : m ∈ ts := by
  obtain ⟨t, ht, rfl⟩ := List.mem_map.1 h
  rw [← BalanceCache.executeTrades_fst skip ts c]
  exact List.mem_map_of_mem (List.mem_of_mem_filter ht)

/-- **What the executed trades move is part of what happened**: a trade that is left half done
only adds to `available` and takes from `locked`. -/
theorem executed_moves [Arithmetic] [ExactSums] (skip : Bool) (u : UserId) (m : Mint) :
    ∀ (ts : List MatchResult) (c : BalanceCache),
    BalanceCache.Positive ts →
      c.available u m + BalanceCache.credits (executed (c.executeTrades skip ts).2) u m ≤
          (c.executeTrades skip ts).1.available u m ∧
        (c.executeTrades skip ts).1.locked u m + BalanceCache.debits (executed (c.executeTrades skip ts).2) u m ≤
          c.locked u m := by
  intro ts
  induction ts with
  | nil => intro c _; simp [BalanceCache.executeTrades, executed]
  | cons t ts ih =>
    intro c h
    obtain ⟨hp, ha⟩ := h t List.mem_cons_self
    obtain ⟨ih₁, ih₂⟩ := ih (c.executeTrade t skip).1 h.tail
    rw [BalanceCache.executeTrades_cons]
    dsimp only
    rcases BalanceCache.executeTrade_cases c t skip with ⟨-, herr, hsame⟩ | ⟨-, -, herr, hmoves⟩ | ⟨-, -, hok, hmoves⟩
    · rw [executed_cons_err (by rw [herr]; simp), ← hsame.available, ← hsame.locked]
      exact ⟨ih₁, ih₂⟩
    · -- only the first transfer was made
      have hvalue : 0 ≤ t.totalValue := Arithmetic.mul_nonneg hp ha
      have h₁ : 0 ≤ posting t.sellerId t.quoteMint t.totalValue u m := posting_nonneg hvalue
      have h₂ : posting t.buyerId t.quoteMint (-t.totalValue) u m ≤ 0 := by
        unfold posting
        split_ifs
        · exact neg_nonpos.2 hvalue
        · exact le_rfl
      rw [hmoves.available] at ih₁
      rw [hmoves.locked] at ih₂
      rw [executed_cons_err (by rw [herr]; simp)]
      exact ⟨by linarith, by linarith⟩
    · rw [hmoves.available] at ih₁
      rw [hmoves.locked] at ih₂
      rw [executed_cons_ok (by rw [hok]; rfl), BalanceCache.credits_cons, BalanceCache.debits_cons]
      exact ⟨by linarith, by linarith⟩

end Executed

end CexEngine
