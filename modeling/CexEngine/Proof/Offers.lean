import CexEngine.Proof.BookInvariant
import CexEngine.Proof.PriceTime

/-!
# What a submit meets

* `Engine.opposite`: the quotes that the submit of an order meets.
* `matching_sweeps`, `matching_allocates`: the matching of a submit is the sweep of these
  quotes, and its matches are the ones along the offers among them.
* `quantity_allocates`: for an order for a quantity they are the greedy ones.
-/

namespace CexEngine

open Pass

/-- The quotes that a submit of the order meets. -/
def Engine.opposite (s : Engine) (order : OrderEntry) : List (Decimal × OrderEntry) :=
  ((s.orderbook order.pair).side (!order.isBuy)).quotes (!order.isBuy)

theorem OrderEntry.Kind.forQuantity {order : OrderEntry} (hk : order.Kind)
    (hq : order.remainingQuoteAmount = none) : order.ForQuantity := by
  cases hk with
  | limitBuy _ ht hs hp _ h => exact ⟨Or.inl ⟨hs, by rw [hp]; rfl, Or.inl ht⟩, h.remaining_pos, h.budget⟩
  | limitSell _ ht hs hp _ h => exact ⟨Or.inl ⟨hs, by rw [hp]; rfl, Or.inr ht⟩, h.remaining_pos, h.budget⟩
  | marketSell ht hs _ h => exact ⟨Or.inr ⟨hs, ht⟩, h.remaining_pos, h.budget⟩
  | marketBuy _ _ _ _ _ _ hr => rw [hr] at hq; cases hq

variable {dv : Decimal → Decimal → Decimal} {s : Engine} {order : OrderEntry}

/-- The levels that a submit of the order meets, for the rule it is matched by. -/
def Engine.oppositeLevels (dv : Decimal → Decimal → Decimal) (s : Engine) (order : OrderEntry) :
    List (Decimal × List OrderEntry) :=
  ((s.orderbook order.pair).side (order.rule dv).scansBuys).levels (order.rule dv).scansBuys

theorem quotes_oppositeLevels (dv : Decimal → Decimal → Decimal) (s : Engine) (order : OrderEntry) :
    quotes (s.oppositeLevels dv order) = s.opposite order := by
  rw [Engine.oppositeLevels, rule_scansBuys]
  rfl

theorem mem_opposite {x : Decimal × OrderEntry} :
    x ∈ s.opposite order ↔ x ∈ ((s.orderbook order.pair).side (!order.isBuy)).stock := by
  rw [← OrderBookSide.coe_quotes _ (!order.isBuy)]
  rfl

theorem opposite_rests (hplaced : s.Placed) {x : Decimal × OrderEntry} (hx : x ∈ s.opposite order) :
    Rests (!order.isBuy) order.pair x.1 x.2 :=
  hplaced order.pair _ x (mem_opposite.1 hx)

theorem opposite_walkable (dv : Decimal → Decimal → Decimal) (order : OrderEntry) {priced : Decimal → Prop}
    (hplaced : s.Placed) (hempty : s.NoEmptyLevel) (hpriced : ∀ {p}, 0 < p → priced p) :
    Walkable (order.rule dv).scansBuys priced (s.oppositeLevels dv order) :=
  OrderBookSide.walkable _ (hempty _ _) fun x hx =>
    have hr := hplaced order.pair _ x hx
    ⟨hpriced hr.price_pos, hr.remaining_pos⟩

section Metered

variable {live : OrderEntry → Prop} {priced : Decimal → Prop} (hM : (order.rule dv).Metered live priced)
  (hlive : live order) (hplaced : s.Placed) (hempty : s.NoEmptyLevel) (hpriced : ∀ {p}, 0 < p → priced p)

include hM hlive hplaced hempty hpriced

theorem matching_sweeps : ∃ t, Exits (sweepBody (order.rule dv)) (.start (s.oppositeLevels dv order) order) t ∧
    (Sweep.start (s.oppositeLevels dv order) order).Valid (order.rule dv) live priced ∧
    Agrees (order.rule dv) (order.matching dv (s.orderbook order.pair)) t := by
  have hw := opposite_walkable dv order hplaced hempty hpriced
  obtain ⟨t, hsweep, hagrees⟩ := matchAgainst_sweeps hM.followable hlive hw
  exact ⟨t, hsweep, .start hlive hw, hagrees⟩

theorem matching_allocates : (order.matching dv (s.orderbook order.pair)).results =
    (order.rule dv).allocate order ((order.rule dv).offers order (s.opposite order)) := by
  rw [← quotes_oppositeLevels dv]
  exact matchAgainst_allocates hM hlive (opposite_walkable dv order hplaced hempty hpriced)

end Metered

section Quantity

variable (hk : order.Kind) (hq : order.remainingQuoteAmount = none) (hplaced : s.Placed) (hempty : s.NoEmptyLevel)

include hk hq hplaced hempty

/-- **The matches of a submit for a quantity** are those of the greedy allocation. -/
theorem quantity_allocates (dv : Decimal → Decimal → Decimal) : (order.matching dv (s.orderbook order.pair)).results =
    (Greedy.allocate remaining order.remainingAmount (order.crossing (s.opposite order))).map order.matched := by
  have hQ := hk.forQuantity hq
  have hR := rule_byQuantity dv hQ
  rw [matching_allocates hR.metered hQ.wants hplaced hempty (fun _ => trivial), hR.offers hQ.wants,
    hR.allocate _ _ hQ.wants]
  exact fun x hx => (opposite_rests hplaced (List.mem_of_mem_filter hx)).remaining_pos

/-- What is left of the order: nothing, or what the others' orders are short of. -/
theorem quantity_remaining (dv : Decimal → Decimal → Decimal) :
    (order.matching dv (s.orderbook order.pair)).incoming.remainingAmount =
      order.remainingAmount - min order.remainingAmount (Greedy.total remaining (order.crossing (s.opposite order))) := by
  have hQ := hk.forQuantity hq
  have hin := (rule_byQuantity dv hQ).incoming_eq hQ.wants
    ((s.orderbook order.pair).side (order.rule dv).scansBuys)
  change (order.matching dv (s.orderbook order.pair)).incoming = order.fill _ at hin
  rw [hin]
  change _ - (((order.matching dv (s.orderbook order.pair)).results.map MatchResult.amount).sum) = _
  rw [quantity_allocates hk hq hplaced hempty, List.map_map, ← Greedy.sum_allocate _ _ hQ.remaining_pos.le]
  · rfl
  · exact fun x hx => (opposite_rests hplaced (List.mem_of_mem_filter hx)).remaining_pos.le

end Quantity

end CexEngine
