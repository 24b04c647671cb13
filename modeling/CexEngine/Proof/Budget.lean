import CexEngine.Proof.Offers

/-!
# Market buys

A market buy spends a budget: it buys as much of an ask as the quotient of what is left of the
budget and the price.

* `OrderEntry.IsMarketBuy`, `OrderEntry.funds`: such an order, and what is left of its budget.
* `Spends`: the order on its way through the matcher.
* `Spends.breaks_after`: where it buys nothing, it buys nothing at that price or a later one.
-/

namespace CexEngine

/-- A market buy. -/
structure OrderEntry.IsMarketBuy (o : OrderEntry) : Prop where
  type : o.orderType = .buy
  side : o.orderSide = .market
  budget : o.remainingQuoteAmount.isSome

/-- What is left of the budget. -/
def OrderEntry.funds (o : OrderEntry) : Decimal := o.remainingQuoteAmount.getD 0

/-- A market buy on its way through the matcher. -/
structure Spends (order incoming : OrderEntry) : Prop where
  terms : incoming.terms = order.terms
  budget : incoming.remainingQuoteAmount.isSome

theorem OrderEntry.IsMarketBuy.spends {order : OrderEntry} (h : order.IsMarketBuy) : Spends order order :=
  ⟨rfl, h.budget⟩

section Rule

variable {dv : Decimal → Decimal → Decimal} {order incoming resting : OrderEntry} {price amount : Decimal}

theorem Spends.isFullyFilled (h : Spends order incoming) :
    (buyRule dv).isFullyFilled incoming = decide (incoming.funds ≤ 0) := by
  obtain ⟨r, hr⟩ := Option.isSome_iff_exists.1 h.budget
  simp [buyRule, OrderEntry.funds, hr]

theorem Spends.matchAmount (dv : Decimal → Decimal → Decimal) (h : Spends order incoming) (resting : OrderEntry)
    (price : Decimal) :
    (buyRule dv).matchAmount incoming resting price = min (dv incoming.funds price) resting.remainingAmount := by
  obtain ⟨r, hr⟩ := Option.isSome_iff_exists.1 h.budget
  simp [buyRule, OrderEntry.funds, hr]

theorem Spends.take (dv : Decimal → Decimal → Decimal) (h : Spends order incoming) (amount price : Decimal) :
    Spends order ((buyRule dv).take incoming amount price) ∧
      ((buyRule dv).take incoming amount price).funds = incoming.funds - price * amount := by
  obtain ⟨r, hr⟩ := Option.isSome_iff_exists.1 h.budget
  refine ⟨⟨((buyRule dv).take_terms _ _ _).trans h.terms, ?_⟩, ?_⟩
  · simp [buyRule, hr]
  · simp [buyRule, OrderEntry.funds, hr, mul_comm]

theorem Spends.accepts (h : Spends order incoming) (hm : order.IsMarketBuy) (price : Decimal) :
    (buyRule dv).accepts incoming price = true := by
  have hside := (OrderEntry.terms_eq h.terms).2.2.2.1
  simp [buyRule, hside, hm.side]

end Rule

/-- Where a budget buys nothing, it buys nothing at that price or a later one, if a quotient that
is nothing at one price is nothing above it. -/
theorem Spends.breaks_after {dv : Decimal → Decimal → Decimal} {order incoming resting : OrderEntry} {price : Decimal}
    (h : Spends order incoming) (hm : order.IsMarketBuy)
    (hzero : ∀ {p p' : Decimal}, 0 < p → p ≤ p' → dv incoming.funds p ≤ 0 → dv incoming.funds p' ≤ 0) (hp : 0 < price)
    (hr : 0 < resting.remainingAmount)
    (hb : (buyRule dv).breaksAt ((buyRule dv).matchAmount incoming resting price) = true) {resting' : OrderEntry}
    {price' : Decimal} (hafter : price' = price ∨ BTreeMap.Before (buyRule dv).scansBuys price price') :
    (buyRule dv).accepts incoming price' = true ∧
      (buyRule dv).breaksAt ((buyRule dv).matchAmount incoming resting' price') = true := by
  have hnothing : dv incoming.funds price ≤ 0 := by
    rw [h.matchAmount dv] at hb
    simp only [buyRule, decide_eq_true_eq, min_le_iff] at hb
    exact hb.resolve_right (not_le.2 hr)
  have hle : price ≤ price' := by
    rcases hafter with rfl | hlt
    · exact le_rfl
    · exact (show price < price' by simpa [BTreeMap.Before, buyRule] using hlt).le
  refine ⟨h.accepts hm _, ?_⟩
  rw [h.matchAmount dv]
  simpa [buyRule] using Or.inl (hzero hp hle hnothing)

theorem OrderEntry.IsMarketBuy.rule {dv : Decimal → Decimal → Decimal} {order : OrderEntry} (hm : order.IsMarketBuy) :
    order.rule dv = buyRule dv :=
  OrderEntry.rule_buy hm.type

section MarketBuy

variable {order : OrderEntry} (hk : order.Kind) (ht : order.orderType = .buy) (hs : order.orderSide = .market)

include hk ht hs

theorem OrderEntry.Kind.isMarketBuy : order.IsMarketBuy ∧ order.funds = order.quoteAmount.getD 0 ∧ 0 < order.funds := by
  cases hk with
  | limitBuy _ _ h => rw [h] at hs; cases hs
  | limitSell _ h => rw [h] at ht; cases ht
  | marketSell h => rw [h] at ht; cases ht
  | marketBuy q _ _ _ hpos hq hr =>
    refine ⟨⟨ht, hs, by rw [hr]; rfl⟩, ?_, ?_⟩
    · rw [OrderEntry.funds, hr, hq]
    · rw [OrderEntry.funds, hr]; exact hpos

theorem lock_eq_funds [Arithmetic] : order.lock = (order.quoteMint, order.funds) := by
  rw [OrderEntry.lock, if_pos ht, if_pos hs, (hk.isMarketBuy ht hs).2.1]

end MarketBuy

end CexEngine
