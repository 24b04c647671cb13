import CexEngine.Proof.Agreement
import CexEngine.Proof.Depth
import CexEngine.Proof.Exchange
import CexEngine.Proof.Ledger
import CexEngine.Proof.Purchase
import CexEngine.Proof.Stranded
import CexEngine.Proof.Within

/-!
# The engine refines the exchange

* `Engine.Refines`: the balances are those of the exchange, and each queue of each book has its
  orders of that pair, side and price in the order in which they came.
* `Engine.MatchesAs`: the matching of an order is that of the exchange. So it is for a quantity, when
  no order of its own user is in the way, and for a budget, when no quotient is rounded either.
* `Engine.Refines.submit`, `Engine.Refines.cancel`, `Engine.Refines.orderbook`: the commands.

**`exchange_run`**: the engine answers every command of a run as the exchange does, if these are
clear. Where an order meets one of its own user, a sweep puts that behind the orders that came later,
or lets go of it; where a quotient is rounded, the rest of a budget may empty the side.
-/

namespace CexEngine

open Pass

variable {dv : Decimal → Decimal → Decimal}

/-- The engine has the balances of the exchange, and in each queue its orders of that pair, side
and price, in the order in which they came. -/
structure Engine.Refines (s : Engine) (x : Exchange) : Prop where
  available : ∀ u m, s.balanceCache.available u m = x.available u m
  locked : ∀ u m, s.balanceCache.locked u m = x.locked u m
  queues : ∀ pair buys p, ((s.orderbook pair).side buys).queueAt p = x.orders.filter (·.queuesAt pair buys p)

section Refines

variable {s : Engine} {x : Exchange} {order : OrderEntry} (h : s.Refines x) (hx : x.Valid) (hplaced : s.Placed)

include h hx hplaced

/-- **A side of a book** is the sorted list of the exchange. -/
theorem Engine.Refines.quotes_eq (pair : TradingPair) (buys : Bool) :
    ((s.orderbook pair).side buys).quotes buys = (x.side pair buys).map OrderEntry.quote := by
  have hpriced : ∀ y ∈ ((s.orderbook pair).side buys).stock, y.2.price = some y.1 := fun y hy =>
    (hplaced pair buys y hy).price
  have horders : (((s.orderbook pair).side buys).quotes buys).map Prod.snd = x.side pair buys := by
    refine List.eq_insertionSort_of_filter_key (OrderBookSide.rank_pairwise hpriced buys) fun k => ?_
    -- a rank is a price
    have hrank : ∀ {o : OrderEntry} {p : Decimal}, o.price = some p →
        (o.rank buys = k ↔ o.price = some (if buys then -k else k)) := by
      intro o p hp
      rw [OrderEntry.rank, hp, Option.getD_some]
      cases buys
      · simp
      · simp [neg_eq_iff_eq_neg]
    have hleft : ∀ o ∈ (((s.orderbook pair).side buys).quotes buys).map Prod.snd,
        decide (o.rank buys = k) = decide (o.price = some (if buys then -k else k)) := by
      intro o ho
      obtain ⟨y, hy, rfl⟩ := List.mem_map.1 ho
      have hstock : y ∈ ((s.orderbook pair).side buys).stock := by
        rw [← OrderBookSide.coe_quotes _ buys]
        exact hy
      exact decide_eq_decide.2 (hrank (hpriced y hstock))
    rw [List.filter_congr hleft, OrderBookSide.filter_price hpriced, h.queues, List.filter_filter]
    refine List.filter_congr fun o ho => ?_
    obtain ⟨p, hrests⟩ := hx.rests o ho
    rw [Bool.eq_iff_iff]
    simp only [OrderEntry.queuesAt, Bool.and_eq_true, decide_eq_true_eq, hrank hrests.price]
    tauto
  rw [← horders, List.map_map]
  refine ((List.map_congr_left fun y hy => ?_).trans (List.map_id _)).symm
  exact (OrderBookSide.eq_quote hpriced hy).symm

/-- What an order meets in the engine. -/
theorem Engine.Refines.opposite_eq : s.opposite order = (x.side order.pair (!order.isBuy)).map OrderEntry.quote :=
  h.quotes_eq hx hplaced order.pair (!order.isBuy)

end Refines

/-! ### Matching -/

/-- The matching of an order in the engine is that of the exchange: the trades, what is left of the
side that is met, and of the order where something of it rests. It pays within the order's lock. -/
structure Engine.MatchesAs (dv : Decimal → Decimal → Decimal) (s : Engine) (x : Exchange) (order : OrderEntry) :
    Prop where
  results : (order.matching dv (s.orderbook order.pair)).results = x.trades order
  scanned : ((order.matching dv (s.orderbook order.pair)).side.quotes (!order.isBuy)).map Prod.snd =
    (x.side order.pair (!order.isBuy)).filterMap (x.leave order)
  rests : (order.matching dv (s.orderbook order.pair)).incoming.rests ↔ (x.rest order).rests
  incoming : (x.rest order).rests → (order.matching dv (s.orderbook order.pair)).incoming = x.rest order
  within : order.used (order.matching dv (s.orderbook order.pair)).results +
    (order.matching dv (s.orderbook order.pair)).incoming.restRequired ≤ order.lock.2

section Matching

variable {s : Engine} {x : Exchange} {order : OrderEntry} (h : s.Refines x) (hx : x.Valid) (htidy : s.Tidy)
  (hclear : x.MeetsNoOwn order)

include h hx htidy hclear

/-- **The side that an order has met** is left as the exchange leaves it, if the trades are the same. -/
theorem Engine.Refines.scanned_eq {live : OrderEntry → Prop} {priced : Decimal → Prop} {unit : Decimal → Decimal}
    {left : OrderEntry → Decimal} {P : Sweep → Prop} (hM : (order.rule dv).Followable live priced)
    (hU : (order.rule dv).Uses order live priced unit left) (hF : Sweep.Flows (order.rule dv) live priced P)
    (hlive : live order) (hpriced : ∀ {p}, 0 < p → priced p) (hP : P (.start (s.oppositeLevels dv order) order))
    (hresults : (order.matching dv (s.orderbook order.pair)).results = x.trades order) :
    ((order.matching dv (s.orderbook order.pair)).side.quotes (!order.isBuy)).map Prod.snd =
      (x.side order.pair (!order.isBuy)).filterMap (x.leave order) := by
  have hw := opposite_walkable dv order htidy.placed htidy.noEmptyLevel hpriced
  obtain ⟨t, hsweep, hagrees⟩ : ∃ t, Exits (sweepBody (order.rule dv)) (.start (s.oppositeLevels dv order) order) t ∧
      Agrees (order.rule dv) (order.matching dv (s.orderbook order.pair)) t := matchAgainst_sweeps hM hlive hw
  have hmet : (Sweep.start (s.oppositeLevels dv order) order).quotes =
      (x.side order.pair (!order.isBuy)).map OrderEntry.quote := by
    rw [← h.opposite_eq hx htidy.placed, ← quotes_oppositeLevels dv]
    rfl
  have hclear' : order.ClearOf ((x.side order.pair (!order.isBuy)).map OrderEntry.quote) := by
    intro y hy
    obtain ⟨r, hr, rfl⟩ := List.mem_map.1 hy
    exact hclear r hr
  have hids : (((x.side order.pair (!order.isBuy)).map OrderEntry.quote).map fun y => y.2.id).Nodup := by
    rw [List.map_map]
    exact hx.side_ids order.pair (!order.isBuy)
  have hleft := sweep_remains hU hF hM (.start hlive hw) hP rfl rfl (hmet ▸ hclear') (hmet ▸ hids) hsweep
  rw [← hagrees.levels, ← hagrees.results, rule_scansBuys, hmet, hresults] at hleft
  rw [← x.remains_side order order.pair (!order.isBuy), ← hleft]
  rfl

variable (hk : order.Kind)

include hk

/-- **Matching for a quantity.** -/
theorem Engine.Refines.matches_quantity (dv : Decimal → Decimal → Decimal) (hq : order.remainingQuoteAmount = none) :
    s.MatchesAs dv x order := by
  have hQ := hk.forQuantity hq
  have hR := rule_byQuantity dv hQ
  have hresults : (order.matching dv (s.orderbook order.pair)).results = x.trades order := by
    rw [quantity_allocates hk hq htidy.placed htidy.noEmptyLevel, h.opposite_eq hx htidy.placed, Exchange.trades,
      Exchange.deals, hq]
    rfl
  have hincoming : (order.matching dv (s.orderbook order.pair)).incoming = x.rest order := by
    have hin := hR.incoming_eq hQ.wants ((s.orderbook order.pair).side (order.rule dv).scansBuys)
    rw [OrderEntry.matching] at hresults ⊢
    rw [hin, hresults, Exchange.rest, amountUsed_eq_sum]
  exact ⟨hresults,
    h.scanned_eq hx htidy hclear hR.metered.followable (hR.uses rule_scansBuys) hR.flows hQ.wants
      (fun _ => trivial) trivial hresults,
    by rw [hincoming], fun _ => hincoming, quantity_within dv hk hq htidy.placed⟩

/-- **Matching for a budget**, where nothing is rounded. -/
theorem Engine.Refines.matches_budget (hdv : RoundsToDecimal dv) (hexact : x.Exact dv order) {budget : Decimal}
    (hq : order.remainingQuoteAmount = some budget) : s.MatchesAs dv x order := by
  obtain ⟨ht, hs⟩ : order.orderType = .buy ∧ order.orderSide = .market := by
    by_contra hne
    rw [hk.no_budget hne] at hq
    cases hq
  obtain ⟨hm, -, hpos⟩ := hk.isMarketBuy ht hs
  have hfunds : order.funds = budget := by rw [OrderEntry.funds, hq, Option.getD_some]
  have hoffers : order.crossing (s.opposite order) = x.offers order := by
    rw [h.opposite_eq hx htidy.placed]
    rfl
  have hdivides : Exchange.dividesExactly dv order.funds (order.crossing (s.opposite order)) = true := by
    rw [hfunds, hoffers]
    exact hexact budget hq
  have hresults : (order.matching dv (s.orderbook order.pair)).results = x.trades order := by
    rw [budget_spends hdv hm htidy.placed htidy.noEmptyLevel hdivides, hfunds, hoffers, Exchange.trades,
      Exchange.deals, hq]
  have hrule : order.rule dv = buyRule dv := hm.rule
  have hscanned := h.scanned_eq hx htidy hclear (by rw [hrule]; exact budget_followable hdv hm)
    (by rw [hrule]; exact hm.uses) (P := Sweep.Pays dv order _) (by rw [hrule]; exact hm.flows _) hm.spends id
    (.start hdivides) hresults
  -- nothing of it rests
  have hnone : ¬ (x.rest order).rests := fun hr => by
    have hlimit : order.orderSide = .limit := hr.1
    rw [hs] at hlimit
    cases hlimit
  refine ⟨hresults, hscanned, iff_of_false (marketBuy_rests hk hs dv htidy) hnone, fun hr => absurd hr hnone,
    marketBuy_within hk ht hs htidy ?_⟩
  rw [budget_spends hdv hm htidy.placed htidy.noEmptyLevel hdivides]
  refine Exchange.quoteUsed_spend order hpos.le fun q hq => ?_
  have hrests := opposite_rests htidy.placed (List.mem_of_mem_filter hq)
  exact ⟨hrests.price_pos, hrests.remaining_pos⟩

/-- **Matching.** -/
theorem Engine.Refines.matches_order (hdv : RoundsToDecimal dv) (hexact : x.Exact dv order) :
    s.MatchesAs dv x order := by
  cases hq : order.remainingQuoteAmount with
  | none => exact h.matches_quantity hx htidy hclear hk dv hq
  | some budget => exact h.matches_budget hx htidy hclear hk hdv hexact hq

end Matching

/-! ### Submitting -/

section Submit

variable {s : Engine} {x : Exchange} {order : OrderEntry} {cache : BalanceCache} {book : OrderBook}
  {settled : BalanceCache × List (MatchResult × Except EngineError (List DbCommand))} {counted : List MatchResult}
  {released : BalanceCache × Option (Except EngineError Unit)} (hmatch : s.MatchesAs dv x order) (htidy : s.Tidy)
  (hk : order.Kind)

include hmatch htidy hk

/-- What is left of the order may rest. -/
theorem Engine.MatchesAs.rest_rests (hrests : (x.rest order).rests) :
    ∃ p, Rests order.isBuy order.pair p (x.rest order) := by
  have hlive : Live order (order.matching dv (s.orderbook order.pair)).incoming :=
    (matching_rests hk (htidy.placed order.pair _)).live
  rw [hmatch.incoming hrests] at hlive
  obtain ⟨p, -, hR⟩ := rests_of_live hk hlive hrests
  exact ⟨p, hR⟩

/-- It rests in one of its own queues. -/
theorem Engine.MatchesAs.filter_rest {pair : TradingPair} {buys : Bool} (p : Decimal)
    (hother : ¬ (pair = order.pair ∧ buys = order.isBuy)) :
    (if (x.rest order).rests then [x.rest order] else []).filter (·.queuesAt pair buys p) = [] := by
  refine List.filter_eq_nil_iff.2 fun o ho => ?_
  split_ifs at ho with hrests
  · obtain ⟨q, hR⟩ := hmatch.rest_rests htidy hk hrests
    rw [List.mem_singleton.1 ho]
    simp only [OrderEntry.queuesAt, decide_eq_true_eq]
    exact fun he => hother ⟨he.1.symm.trans hR.pair, sideType_inj.1 (he.2.1.symm.trans hR.type)⟩
  · exact absurd ho List.not_mem_nil

variable (h : s.Refines x) (hx : x.Valid) (hg : Granted dv s order cache book settled counted released)

include h hg

include hx in
/-- The side that the order has met. -/
theorem Engine.Refines.submit_met (p : Decimal) :
    (((processSubmitOrder dv s order).engine.orderbook order.pair).side (!order.isBuy)).queueAt p =
      (x.orders.filterMap (x.leave order)).filter (·.queuesAt order.pair (!order.isBuy) p) := by
  have hplaced' :=
    (placed_submit hk htidy.placed : (processSubmitOrder dv s order).engine.Placed) order.pair (!order.isBuy)
  have hside : ((processSubmitOrder dv s order).engine.orderbook order.pair).side (!order.isBuy) =
      (order.matching dv (s.orderbook order.pair)).side := by
    have hscans : (order.rule dv).scansBuys = !order.isBuy := rule_scansBuys
    rw [hg.engine, Engine.orderbook_insert, if_pos rfl, ← hscans]
    exact hg.scanned
  rw [hside] at hplaced' ⊢
  have hbefore := OrderBookSide.filter_price (fun y hy => (htidy.placed order.pair (!order.isBuy) y hy).price)
    (!order.isBuy) p
  rw [h.quotes_eq hx htidy.placed, List.map_map] at hbefore
  rw [Exchange.filter_leave OrderEntry.queuesAt_terms, ← OrderBookSide.filter_price
    (fun y hy => (hplaced' y hy).price) (!order.isBuy) p, hmatch.scanned, Exchange.filter_leave
    fun ht => by rw [(OrderEntry.terms_eq ht).2.2.2.2.2], ← h.queues, ← hbefore]
  congr 2
  exact (List.map_id _).symm

/-- Its own side. -/
theorem Engine.Refines.submit_own (p : Decimal) :
    (((processSubmitOrder dv s order).engine.orderbook order.pair).side order.isBuy).queueAt p =
      (x.orders.filter (·.queuesAt order.pair order.isBuy p)) ++
        (if (x.rest order).rests then [x.rest order] else []).filter (·.queuesAt order.pair order.isBuy p) := by
  have hside := hg.joined
  rw [rule_scansBuys, Bool.not_not] at hside
  rw [hg.engine, Engine.orderbook_insert, if_pos rfl, hside, ← h.queues]
  by_cases hrests : (x.rest order).rests
  · obtain ⟨q, hR⟩ := hmatch.rest_rests htidy hk hrests
    rw [if_pos (hmatch.rests.2 hrests), hmatch.incoming hrests, if_pos hrests,
      OrderBookSide.queueAt_addOrder _ hR.price, List.filter_singleton]
    congr 1
    simp only [OrderEntry.queuesAt, hR.pair, hR.type, true_and, Bool.cond_decide]
  · rw [if_neg fun hr => hrests (hmatch.rests.1 hr), if_neg hrests, List.filter_nil, List.append_nil]

include hx in
/-- The queues after a submit. -/
theorem Engine.Refines.submit_queues (pair : TradingPair) (buys : Bool) (p : Decimal) :
    (((processSubmitOrder dv s order).engine.orderbook pair).side buys).queueAt p =
      (x.submit order).orders.filter (·.queuesAt pair buys p) := by
  change _ = (x.orders.filterMap (x.leave order) ++ _).filter _
  rw [List.filter_append]
  by_cases hpair : pair = order.pair
  swap
  · -- another book
    rw [hmatch.filter_rest htidy hk p fun he => hpair he.1, Exchange.filter_leave OrderEntry.queuesAt_terms,
      hx.filter_other fun he => hpair he.1, hg.engine, Engine.orderbook_insert, if_neg hpair, List.append_nil]
    exact h.queues pair buys p
  subst hpair
  by_cases hbuys : buys = !order.isBuy
  · subst hbuys
    rw [hmatch.filter_rest htidy hk p (by simp), List.append_nil]
    exact h.submit_met hmatch htidy hk hx hg p
  · obtain rfl : buys = order.isBuy := by
      cases buys <;> cases hbuy : order.isBuy <;> simp_all
    rw [Exchange.filter_leave OrderEntry.queuesAt_terms, hx.filter_other fun he => hbuys he.2]
    exact h.submit_own hmatch htidy hk hg p

variable (hcov : s.Covered)

include hcov

/-- The balances after a submit. -/
theorem Engine.Refines.submit_balances (u : UserId) (m : Mint) :
    (processSubmitOrder dv s order).engine.balanceCache.available u m = (x.submit order).available u m ∧
      (processSubmitOrder dv s order).engine.balanceCache.locked u m = (x.submit order).locked u m := by
  obtain ⟨hall, htraded⟩ := submit_trades hk htidy.placed hcov hg hmatch.within
  have hreleased := (submit_release hk htidy.placed hcov hg hmatch.within).2 u m
  have htotals := balances_matching hg .exact hall u m
  have hcache : (processSubmitOrder dv s order).engine.balanceCache = released.1 := by rw [hg.engine]
  have hfreed : (if (order.matching dv (s.orderbook order.pair)).incoming.rests then 0
      else order.lock.2 - order.used (order.matching dv (s.orderbook order.pair)).results) = x.freed order := by
    rw [Exchange.freed, hmatch.results]
    exact if_congr hmatch.rests rfl rfl
  rw [hfreed, htraded, hmatch.results] at hreleased
  rw [hmatch.results, BalanceCache.sum_net] at htotals
  have hlocked : (processSubmitOrder dv s order).engine.balanceCache.locked u m = (x.submit order).locked u m := by
    rw [hcache, hreleased, h.locked]
    change _ - posting order.userId order.lock.1 (x.freed order) u m = x.locked u m + posting _ _ _ u m - _
    rw [posting_sub]
    ring
  refine ⟨?_, hlocked⟩
  rw [hlocked, h.available, h.locked] at htotals
  change _ = x.available u m - posting order.userId order.lock.1 (order.lock.2 - x.freed order) u m + _
  change _ + (x.locked u m + posting order.userId order.lock.1 (order.lock.2 - x.freed order) u m - _) - _ = _ at htotals
  linarith

include hx in
/-- **A submit that is granted** does and answers what the exchange does. -/
theorem Engine.Refines.submit : (processSubmitOrder dv s order).engine.Refines (x.submit order) ∧
    (processSubmitOrder dv s order).answer = .ok (x.trades order) := by
  have hbalances := h.submit_balances hmatch htidy hk hg hcov
  refine ⟨⟨fun u m => (hbalances u m).1, fun u m => (hbalances u m).2,
    h.submit_queues hmatch htidy hk hx hg⟩, ?_⟩
  rw [hg.answer, counted_eq hk htidy.placed hcov hg hmatch.within, hmatch.results]

end Submit

/-! ### Cancelling -/

section Cancel

variable {s : Engine} {x : Exchange} {orderId : OrderId} {userId : UserId} {pair : TradingPair} {book : OrderBook}
  {buys : Bool} {price : Decimal} {order : OrderEntry} {unlocked : BalanceCache × Except EngineError Unit}
  (h : s.Refines x) (hx : x.Valid) (htidy : s.Tidy)

include h hx

/-- An order of the exchange is in the engine where it belongs. -/
theorem Engine.Refines.mem_stock {o : OrderEntry} (ho : o ∈ x.orders) :
    ∃ p, (p, o) ∈ ((s.orderbook o.pair).side o.isBuy).stock := by
  obtain ⟨p, hrests⟩ := hx.rests o ho
  refine ⟨p, OrderBookSide.mem_queueAt.1 ?_⟩
  rw [h.queues]
  exact List.mem_filter.2 ⟨ho, by simp [OrderEntry.queuesAt, hrests.type, hrests.price]⟩

/-- A user's order that the exchange finds is found by the engine. -/
theorem Engine.Refines.found (hids : s.orderIds.Nodup) (hfind : x.find orderId userId pair = some order) :
    order.userId = userId ∧ ∃ book buys price, s.found pair orderId = some (book, buys, price, order) := by
  have hmem := List.mem_of_find?_eq_some hfind
  have hfields := List.find?_some hfind
  simp only [decide_eq_true_eq] at hfields
  obtain ⟨rfl, huser, rfl⟩ := hfields
  obtain ⟨p, hp⟩ := h.mem_stock hx hmem
  cases hbook : s.orderbooks.lookup order.pair with
  | none =>
    rw [show s.orderbook order.pair = .new order.pair by simp [Engine.orderbook, hbook], OrderBook.side_new] at hp
    simp at hp
  | some book =>
    rw [Engine.orderbook_of_lookup hbook] at hp
    exact ⟨huser, book, order.isBuy, p, found_of_mem hids hbook hp⟩

include htidy

variable (ht : TakenOut s orderId userId pair book buys price order unlocked)

include ht

/-- An order that is taken out is the one that the exchange finds. -/
theorem Engine.Refines.find_eq : order ∈ x.orders ∧ order.queuesAt pair buys price = true ∧
    x.find orderId userId pair = some order := by
  have hbook := Engine.orderbook_of_lookup ht.found
  have hstock : (price, order) ∈ ((s.orderbook pair).side buys).stock := by
    rw [hbook, OrderBookSide.stock_takeOut ht.located]
    exact Multiset.mem_cons_self _ _
  have hqueue := OrderBookSide.mem_queueAt.2 hstock
  rw [h.queues] at hqueue
  obtain ⟨hmem, hat⟩ := List.mem_filter.1 hqueue
  refine ⟨hmem, hat, ?_⟩
  have hid := OrderBookSide.locate_id ht.located
  have hpair := (htidy.placed pair buys _ hstock).pair
  cases hfind : x.find orderId userId pair with
  | none => exact absurd (List.find?_eq_none.1 hfind order hmem) (by simp [hid, ht.owner, hpair])
  | some o =>
    have hfields := List.find?_some hfind
    simp only [decide_eq_true_eq] at hfields
    rw [List.inj_on_of_nodup_map hx.ids (List.mem_of_find?_eq_some hfind) hmem (hfields.1.trans hid.symm)]

/-- The queues after a cancel. -/
theorem Engine.Refines.cancel_queues (pair' : TradingPair) (buys' : Bool) (p : Decimal) :
    (((handleCancelOrder s orderId userId pair).engine.orderbook pair').side buys').queueAt p =
      (x.cancel order).orders.filter (·.queuesAt pair' buys' p) := by
  obtain ⟨hmem, hat, -⟩ := h.find_eq hx htidy ht
  have hid := OrderBookSide.locate_id ht.located
  have hright : (x.cancel order).orders.filter (·.queuesAt pair' buys' p) =
      (((s.orderbook pair').side buys').queueAt p).filter fun o => o.id ≠ orderId := by
    change (x.orders.filter _).filter _ = _
    rw [h.queues, List.filter_filter, List.filter_filter, hid]
    exact List.filter_congr fun o _ => Bool.and_comm _ _
  have hqueueIds : ((((s.orderbook pair').side buys').queueAt p).map OrderEntry.id).Nodup := by
    rw [h.queues]
    exact hx.ids.sublist (List.filter_sublist.map _)
  -- in another queue there is no order with this id
  have hother : ¬ (pair' = pair ∧ buys' = buys ∧ p = price) →
      (((s.orderbook pair').side buys').queueAt p).filter (fun o => o.id ≠ orderId) =
        ((s.orderbook pair').side buys').queueAt p := by
    intro hne
    refine List.filter_eq_self.2 fun o ho => ?_
    rw [h.queues] at ho
    obtain ⟨ho, hat'⟩ := List.mem_filter.1 ho
    simp only [OrderEntry.queuesAt, decide_eq_true_eq] at hat hat' ⊢
    intro he
    obtain rfl := List.inj_on_of_nodup_map hx.ids ho hmem (he.trans hid.symm)
    exact hne ⟨hat'.1.symm.trans hat.1, sideType_inj.1 (hat'.2.1.symm.trans hat.2.1),
      Option.some.inj (hat'.2.2.symm.trans hat.2.2)⟩
  rw [hright]
  rcases ht.after pair' buys' with ⟨rfl, rfl, -, hside⟩ | ⟨hne, hside⟩
  · rw [hside, OrderBookSide.takeOut]
    by_cases hp : p = price
    · subst hp
      rw [← eraseP_eq_filter hqueueIds, OrderBookSide.queueAt, OrderBookSide.get?_setQueue, if_pos rfl]
      split_ifs with hnil
      · exact hnil.symm
      · rfl
    · rw [hother fun he => hp he.2.2, OrderBookSide.queueAt, OrderBookSide.get?_setQueue, if_neg hp]
      rfl
  · rw [hside, hother fun he => hne ⟨he.1, he.2.1⟩]

/-- **A cancel that finds the order** does what the exchange does. -/
theorem Engine.Refines.cancel (hcov : s.Covered) :
    (handleCancelOrder s orderId userId pair).engine.Refines (x.cancel order) := by
  have hle := cancel_unlocks ht htidy.placed hcov
  have hmoves := (BalanceCache.unlockBalanceForCancel_granted hle).2
  have hcache : (handleCancelOrder s orderId userId pair).engine.balanceCache =
      (s.balanceCache.unlockBalanceForCancel userId order.unlock.1 order.unlock.2).1 := by rw [ht.engine, ht.unlock]
  refine ⟨fun u m => ?_, fun u m => ?_, h.cancel_queues hx htidy ht⟩
  · change _ = x.available u m - posting order.userId order.unlock.1 (-order.unlock.2) u m
    rw [hcache, hmoves.available, h.available, ht.owner]
    unfold posting
    split_ifs <;> ring
  · change _ = x.locked u m + posting order.userId order.unlock.1 (-order.unlock.2) u m
    rw [hcache, hmoves.locked, h.locked, ht.owner]

end Cancel

/-! ### Steps and runs -/

/-- The replies of a run. -/
def Engine.replies (dv : Decimal → Decimal → Decimal) : Engine → List Command → List Reply
  | _, [] => []
  | s, c :: cs => (s.handle dv c).2 :: (s.step dv c).replies dv cs

section Step

variable {s : Engine} {x : Exchange} (h : s.Refines x) (hx : x.Valid) (htidy : s.Tidy)

include h

/-- The same books and balances refine the same exchange. -/
theorem Engine.Refines.same {s' : Engine} (hbooks : s'.orderbooks = s.orderbooks)
    (hbalances : BalanceCache.SameBalances s.balanceCache s'.balanceCache) : s'.Refines x where
  available u m := (hbalances.available u m).trans (h.available u m)
  locked u m := (hbalances.locked u m).trans (h.locked u m)
  queues pair buys p := by
    rw [Engine.orderbook, hbooks]
    exact h.queues pair buys p

theorem Engine.Refines.deposit (user : UserId) (mint : Mint) (delta : Decimal) :
    (⟨s.orderbooks, s.balanceCache.addAvailable user mint delta⟩ : Engine).Refines (x.deposit user mint delta) := by
  have hmoves := addAvailable_moves s.balanceCache user mint delta
  refine ⟨fun u m => ?_, fun u m => ?_, fun pair buys p => h.queues pair buys p⟩
  · change (s.balanceCache.addAvailable user mint delta).available u m = x.available u m + _
    rw [hmoves.available, h.available, h.available]
  · change (s.balanceCache.addAvailable user mint delta).locked u m = x.locked u m
    rw [hmoves.locked, h.locked, add_zero]

theorem Engine.Refines.balance (user : UserId) (mint : Mint) :
    handleGetBalance s user mint = (x.available user mint, x.locked user mint) := by
  rw [← h.available, ← h.locked, handleGetBalance, BalanceCache.available, BalanceCache.locked, BalanceCache.entry]
  cases s.balanceCache.getBalance user mint <;> rfl

include hx htidy

theorem Engine.Refines.orderbook (pair : TradingPair) (depth : Option ℕ) :
    handleGetOrderbook s pair depth =
      (Exchange.first depth (x.side pair true), Exchange.first depth (x.side pair false)) := by
  have hside : ∀ buys, collectLevels depth [] (((s.orderbook pair).side buys).levels buys) =
      Exchange.first depth (x.side pair buys) := by
    intro buys
    have horders : (((s.orderbook pair).side buys).levels buys).flatMap Prod.snd = x.side pair buys := by
      have hquotes := congrArg (List.map Prod.snd) (h.quotes_eq hx htidy.placed pair buys)
      rw [OrderBookSide.quotes, quotes, List.map_flatMap, List.map_map] at hquotes
      simpa [Function.comp_def, OrderEntry.quote] using hquotes
    cases depth with
    | none =>
      rw [collectLevels_none, List.nil_append, horders]
      rfl
    | some d =>
      rw [collectLevels_some d _ _ ((htidy.noEmptyLevel pair buys).levels buys), List.nil_append, List.length_nil,
        Nat.sub_zero, horders]
      rfl
  rw [handleGetOrderbook_eq, hside, hside]

variable (hcov : s.Covered)

include hcov

/-- **A submit.** -/
theorem Engine.Refines.submit_step {order : OrderEntry} (hk : order.Kind) (hfresh : order.id ∉ s.orderIds)
    (hmatch : s.MatchesAs dv x order) :
    (processSubmitOrder dv s order).engine.Refines (x.step (.submitOrder order)) ∧
      (x.step (.submitOrder order)).Valid ∧
      (Reply.submitted (processSubmitOrder dv s order).answer).answer = (x.handle (.submitOrder order)).2 := by
  rw [Exchange.step, Exchange.handle]
  rcases processSubmitOrder_cases dv s hk with hr | ⟨cache, book, settled, counted, released, hg⟩
  · have hfunds := hr.funds
    rw [h.available] at hfunds
    rw [if_neg (not_le.2 hfunds)]
    refine ⟨h.same hr.orderbooks hr.balances, hx, ?_⟩
    have hanswer := hr.answer
    cases he : (processSubmitOrder dv s order).answer with
    | ok trades =>
      rw [he] at hanswer
      cases hanswer
    | error e => rfl
  · have hfunds := hg.funds
    rw [h.available] at hfunds
    rw [if_pos hfunds]
    obtain ⟨hrefines, hanswer⟩ := h.submit hmatch htidy hk hx hg hcov
    refine ⟨hrefines, hx.submit (fun hrests => ?_) fun r hr he => hfresh ?_, by rw [hanswer]; rfl⟩
    · obtain ⟨p, hR⟩ := hmatch.rest_rests htidy hk hrests
      exact ⟨p, hR⟩
    · obtain ⟨p, hp⟩ := h.mem_stock hx hr
      exact mem_orderIds.2 ⟨r, mem_engine_restingOrders.2 ⟨_, _, p, hp⟩, he⟩

/-- **A cancel.** -/
theorem Engine.Refines.cancel_step (hids : s.orderIds.Nodup) (orderId : OrderId) (userId : UserId) (pair : TradingPair) :
    (handleCancelOrder s orderId userId pair).engine.Refines (x.step (.cancelOrder orderId userId pair)) ∧
      (x.step (.cancelOrder orderId userId pair)).Valid ∧
      (Reply.cancelled (handleCancelOrder s orderId userId pair).answer).answer =
        (x.handle (.cancelOrder orderId userId pair)).2 := by
  rw [Exchange.step, Exchange.handle]
  rcases handleCancelOrder_cases s orderId userId pair with hn | ⟨book, buys, price, order, unlocked, -, ht⟩
  · have hfind : x.find orderId userId pair = none := by
      cases hfind : x.find orderId userId pair with
      | none => rfl
      | some order =>
        obtain ⟨huser, book, buys, price, hfound⟩ := h.found hx hids hfind
        exact absurd huser (hn.other book buys price order hfound)
    rw [hfind, hn.engine]
    refine ⟨h, hx, ?_⟩
    have hanswer := hn.answer
    cases he : (handleCancelOrder s orderId userId pair).answer with
    | ok order =>
      rw [he] at hanswer
      cases hanswer
    | error e => rfl
  · obtain ⟨-, -, hfind⟩ := h.find_eq hx htidy ht
    rw [hfind, (cancel_ok ht (cancel_unlocks ht htidy.placed hcov)).2]
    exact ⟨h.cancel hx htidy ht hcov, hx.cancel order, rfl⟩

end Step

/-! ### Locks -/

section Locks

variable {s : Engine} {x : Exchange} (h : s.Refines x) (hx : x.Valid)

include h

/-- An amount that is locked or unlocked. -/
theorem Engine.Refines.locks {cache : BalanceCache} {user : UserId} {mint : Mint} {amount : Decimal}
    (hmoves : BalanceCache.Moves s.balanceCache cache (posting user mint (-amount)) (posting user mint amount)) :
    (⟨s.orderbooks, cache⟩ : Engine).Refines (x.lock user mint amount) := by
  refine ⟨fun u m => ?_, fun u m => ?_, fun pair buys p => h.queues pair buys p⟩
  · change cache.available u m = x.available u m - posting user mint amount u m
    rw [hmoves.available, h.available]
    unfold posting
    split_ifs <;> ring
  · change cache.locked u m = x.locked u m + posting user mint amount u m
    rw [hmoves.locked, h.locked]

include hx

/-- **A lock.** -/
theorem Engine.Refines.lock_step (user : UserId) (mint : Mint) (amount : Decimal) :
    (handleLockBalance s user mint amount).1.Refines (x.step (.lockBalance user mint amount)) ∧
      (x.step (.lockBalance user mint amount)).Valid ∧
      (Reply.done (handleLockBalance s user mint amount).2).answer = (x.handle (.lockBalance user mint amount)).2 := by
  rw [Exchange.step, Exchange.handle, handleLockBalance]
  by_cases hfunds : amount ≤ s.balanceCache.available user mint
  · have hok := BalanceCache.lockBalanceForOrder_ok hfunds
    have hmoves := BalanceCache.lockBalanceForOrder_moves hfunds
    rw [h.available] at hfunds
    rw [if_pos hfunds, hok]
    exact ⟨h.locks hmoves, ⟨hx.rests, hx.ids⟩, rfl⟩
  · obtain ⟨⟨e, he⟩, hsame⟩ := BalanceCache.lockBalanceForOrder_refused (not_le.1 hfunds)
    rw [h.available] at hfunds
    rw [if_neg hfunds, he]
    exact ⟨h.same rfl hsame, hx, rfl⟩

/-- **An unlock.** -/
theorem Engine.Refines.unlock_step (user : UserId) (mint : Mint) (amount : Decimal) :
    (handleUnlockBalance s user mint amount).1.Refines (x.step (.unlockBalance user mint amount)) ∧
      (x.step (.unlockBalance user mint amount)).Valid ∧
      (Reply.done (handleUnlockBalance s user mint amount).2).answer =
        (x.handle (.unlockBalance user mint amount)).2 := by
  obtain ⟨hfst, hsnd⟩ := BalanceCache.unlockBalanceForCancel_eq s.balanceCache user mint amount
  have hanswer : (Reply.done (handleUnlockBalance s user mint amount).2).answer =
      .done (s.balanceCache.unlockBalance user mint amount).2.isOk := by
    rw [← hsnd]
    rfl
  rw [hanswer, handleUnlockBalance, Exchange.step, Exchange.handle, hfst, ← h.locked]
  rcases BalanceCache.unlockBalance_cases s.balanceCache user mint amount with ⟨hlt, herr, hsame⟩ | ⟨hle, hok, hmoves⟩
  · rw [if_neg (not_le.2 hlt), herr]
    exact ⟨h.same rfl hsame, hx, rfl⟩
  · rw [if_pos hle, hok]
    refine ⟨h.locks (hmoves.congr (fun u m => ?_) fun u m => rfl), ⟨hx.rests, hx.ids⟩, rfl⟩
    rw [neg_neg]

end Locks

/-! ### Commands -/

section Step

variable {s : Engine} {x : Exchange} {c : Command} {cs : List Command} (hdv : RoundsToDecimal dv) (h : s.Refines x)
  (hx : x.Valid) (hw : s.WellFormed (c :: cs)) (hcov : s.Covered) (hclear : x.Clear dv c)

include h hx

/-- What the orders need is the same. -/
theorem Engine.Refines.required_eq (hids : s.orderIds.Nodup) (u : UserId) (m : Mint) :
    s.required u m = x.needs u m := by
  have hperm : s.restingOrders.Perm x.orders := by
    rw [← coe_restingOrders] at hids
    have hnodup : s.restingOrders.Nodup := (Multiset.coe_nodup.1 hids).of_map
    refine (List.perm_ext_iff_of_nodup hnodup hx.ids.of_map).2 fun o => ⟨fun ho => ?_, fun ho => ?_⟩
    · obtain ⟨pair, buys, p, hp⟩ := mem_engine_restingOrders.1 ho
      have hqueue := OrderBookSide.mem_queueAt.2 hp
      rw [h.queues] at hqueue
      exact List.mem_of_mem_filter hqueue
    · obtain ⟨p, hp⟩ := h.mem_stock hx ho
      exact mem_engine_restingOrders.2 ⟨_, _, p, hp⟩
  rw [Engine.required, total_eq_sum, Exchange.needs]
  exact (hperm.map _).sum_eq

include hdv hw hclear

theorem Engine.Refines.matches_submit {order : OrderEntry} (hc : c = .submitOrder order) :
    s.MatchesAs dv x order := by
  subst hc
  exact h.matches_order hx hw.toTidy hclear.1 (validated_kind (hw.orders _ List.mem_cons_self)) hdv hclear.2

include hcov

/-- **One command.** -/
theorem Engine.Refines.step :
    (s.step dv c).Refines (x.step c) ∧ (x.step c).Valid ∧ (s.handle dv c).2.answer = (x.handle c).2 := by
  have htidy := hw.toTidy
  cases c with
  | submitOrder order =>
    have hk := validated_kind (hw.orders _ List.mem_cons_self)
    have hfresh : order.id ∉ s.orderIds := fun hid => hw.freshIds.fresh _ hid List.mem_cons_self
    exact h.submit_step hx htidy hcov hk hfresh (h.matches_submit hdv hx hw hclear rfl)
  | cancelOrder orderId userId pair => exact h.cancel_step hx htidy hcov hw.freshIds.nodup orderId userId pair
  | getOrderbook pair depth =>
    refine ⟨h, hx, ?_⟩
    change Reply.answer (.orderbook (handleGetOrderbook s pair depth)) = _
    rw [h.orderbook hx htidy]
    rfl
  | getBalance userId mint =>
    refine ⟨h, hx, ?_⟩
    change Reply.answer (.balance (handleGetBalance s userId mint)) = _
    rw [h.balance]
    rfl
  | lockBalance userId mint amount => exact h.lock_step hx userId mint amount
  | unlockBalance userId mint amount => exact h.unlock_step hx userId mint amount
  | updateBalance userId mint delta => exact ⟨h.deposit userId mint delta, ⟨hx.rests, hx.ids⟩, rfl⟩

omit hcov in
/-- It is within the locks. -/
theorem Engine.Refines.within (hc : c.LocksNonneg) : c.Within dv s := by
  cases c with
  | submitOrder order =>
    have hk := validated_kind hc
    intro ht hs _
    have hwithin := (h.matches_submit hdv hx hw hclear rfl).within
    have hrest := restRequired_nonneg hk hw.placed dv
    rw [OrderEntry.used, if_pos ht, lock_eq_funds hk ht hs, (hk.isMarketBuy ht hs).2.1] at hwithin
    rw [(matchOrder_spec dv hk.isBuy_or hk.hasRemaining _).2.1]
    linarith
  | unlockBalance userId mint amount =>
    intro hle
    rw [Engine.slack, h.required_eq hx hw.freshIds.nodup, h.locked]
    rw [h.locked] at hle
    have hneeds := hclear hle
    linarith
  | _ => trivial

end Step

theorem Engine.Refines.start (cache : BalanceCache) : (Engine.start cache).Refines (.start cache) where
  available _ _ := rfl
  locked _ _ := rfl
  queues pair buys p := by
    rw [show (Engine.start cache).orderbook pair = .new pair from rfl, OrderBook.side_new]
    rfl

/-- **A run** of the engine from where it refines the exchange. -/
theorem Engine.Refines.run (hdv : RoundsToDecimal dv) : ∀ (cs : List Command) {s : Engine} {x : Exchange}, s.Refines x →
    x.Valid → s.WellFormed cs → s.Covered → (∀ c ∈ cs, c.LocksNonneg) → x.ClearRun dv cs →
      (s.run dv cs).Refines (x.run cs) ∧ (s.replies dv cs).map Reply.answer = x.answers cs := by
  intro cs
  induction cs with
  | nil => exact fun h _ _ _ _ _ => ⟨h, rfl⟩
  | cons c cs ih =>
    intro s x h hx hw hcov hcs hclear
    obtain ⟨hc, hcs⟩ := List.forall_mem_cons.1 hcs
    obtain ⟨hstep, hx', hanswer⟩ := h.step hdv hx hw hcov hclear.1
    obtain ⟨hrun, hanswers⟩ :=
      ih hstep hx' (wellFormed_step hw)
        (covered_within hc (h.within hdv hx hw hclear.1 hc) hw.toTidy hcov) hcs hclear.2
    refine ⟨hrun, ?_⟩
    rw [Engine.replies, List.map_cons, hanswer, hanswers]
    rfl

end CexEngine
