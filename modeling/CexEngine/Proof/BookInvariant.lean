import CexEngine.Proof.Stock

/-!
# What the order books are at all times

From empty books, along every run of submits and cancels:

* `run_wellFormed`: no level is empty, every order is at its own price and on its own side
  with something left that adds up, and no order id occurs twice in all the books.
* `run_uncrossed`: in no book does a buy price reach a sell price.

The first rests on the submitted ids being distinct only for the last part; the second
needs nothing but admitted orders.
-/

namespace CexEngine

variable {dv : Decimal → Decimal → Decimal} {s : Engine}

/-- Submits of admitted orders, and cancels. -/
def Command.Orders : Command → Prop
  | .submitOrder order => order.Validated
  | .cancelOrder _ _ _ => True
  | _ => False

theorem Command.Orders.validated {c : Command} (h : c.Orders) : c.Validated := by
  cases c with
  | submitOrder order => exact h
  | _ => trivial

/-- The ids that are submitted. -/
def submittedIds (cs : List Command) : List OrderId :=
  cs.filterMap fun c => match c with
    | .submitOrder order => some order.id
    | _ => none

/-- The orders that rest, book by book, the buy side first. -/
def Engine.restingOrders (s : Engine) : List OrderEntry :=
  s.orderbooks.entries.flatMap fun e => e.2.buyOrders.restingOrders ++ e.2.sellOrders.restingOrders

theorem mem_restingOrders {side : OrderBookSide} {o : OrderEntry} :
    o ∈ side.restingOrders ↔ ∃ p, (p, o) ∈ side.stock := by
  unfold OrderBookSide.restingOrders
  constructor
  · intro ho
    obtain ⟨e, he, ho⟩ := List.mem_flatMap.1 ho
    exact ⟨e.1, OrderBookSide.mem_stock.2 ⟨e.2, he, ho⟩⟩
  · rintro ⟨p, ho⟩
    obtain ⟨queue, hq, ho⟩ := OrderBookSide.mem_stock.1 ho
    exact List.mem_flatMap.2 ⟨(p, queue), hq, ho⟩

theorem mem_engine_restingOrders {o : OrderEntry} :
    o ∈ s.restingOrders ↔ ∃ pair buys p, (p, o) ∈ ((s.orderbook pair).side buys).stock := by
  constructor
  · intro h
    obtain ⟨e, he, ho⟩ := List.mem_flatMap.1 h
    have hbook := Engine.orderbook_of_lookup (AList.mem_entries.1 he)
    rcases List.mem_append.1 ho with ho | ho
    · obtain ⟨p, hp⟩ := mem_restingOrders.1 ho
      exact ⟨e.1, true, p, by rw [hbook]; exact hp⟩
    · obtain ⟨p, hp⟩ := mem_restingOrders.1 ho
      exact ⟨e.1, false, p, by rw [hbook]; exact hp⟩
  · rintro ⟨pair, buys, p, hp⟩
    cases hbook : s.orderbooks.lookup pair with
    | none =>
      rw [show s.orderbook pair = .new pair by simp [Engine.orderbook, hbook], OrderBook.side_new] at hp
      simp at hp
    | some book =>
      rw [Engine.orderbook_of_lookup hbook] at hp
      refine List.mem_flatMap.2 ⟨⟨pair, book⟩, AList.mem_entries.2 hbook, List.mem_append.2 ?_⟩
      cases buys
      · exact Or.inr (mem_restingOrders.2 ⟨p, hp⟩)
      · exact Or.inl (mem_restingOrders.2 ⟨p, hp⟩)

section Rounded

variable [Arithmetic]

omit [Arithmetic] in
/-- A weight of all resting orders, order by order. -/
theorem total_eq_sum {M : Type*} [AddCancelCommMonoid M] (s : Engine) (w : OrderEntry → M) :
    s.total w = (s.restingOrders.map w).sum := by
  have hqueue : ∀ (p : Decimal) (queue : List OrderEntry), ((atPrice p queue).map fun x => w x.2).sum =
      (queue.map w).sum := by
    intro p queue
    simp [atPrice, Function.comp_def]
  have hside : ∀ side : OrderBookSide, side.total w = (side.restingOrders.map w).sum := by
    intro side
    unfold OrderBookSide.restingOrders OrderBookSide.total OrderBookSide.stock BTreeMap.sumBy
    induction side.orders.entries with
    | nil => rfl
    | cons e l ih =>
      rw [List.flatMap_cons, List.map_append, List.sum_append, ← ih, List.map_cons, List.sum_cons, Multiset.map_add,
        Multiset.sum_add, hqueue]
  unfold Engine.restingOrders Engine.total AList.sumBy OrderBook.total
  induction s.orderbooks.entries with
  | nil => rfl
  | cons e l ih =>
    rw [List.flatMap_cons, List.map_append, List.sum_append, ← ih, List.map_cons, List.sum_cons, List.map_append,
      List.sum_append, hside, hside]

/-! ## Levels and orders -/

/-- Every resting order is where it belongs. -/
def Engine.Placed (s : Engine) : Prop := s.AllOrders Rests

theorem placed_submit {order : OrderEntry} (hk : order.Kind) (h : s.Placed) :
    (processSubmitOrder dv s order).engine.Placed :=
  allOrders_submit hk (fun _ _ _ _ a hr _ hpos => hr.fill a hpos) (fun _ _ _ hR => hR) h

/-- No side of any book has an empty level. -/
def Engine.NoEmptyLevel (s : Engine) : Prop := ∀ pair buys, ((s.orderbook pair).side buys).NoEmptyLevel

theorem noEmptyLevel_submit {order : OrderEntry} (hk : order.Kind) (h : s.NoEmptyLevel) :
    (processSubmitOrder dv s order).engine.NoEmptyLevel := by
  rcases processSubmitOrder_cases dv s hk with hr | ⟨cache, book, settled, counted, released, hg⟩
  · intro pair buys
    rw [Engine.orderbook, hr.orderbooks]
    exact h pair buys
  intro pair buys
  cases hg.after hk pair buys with
  | scanned _ _ eq =>
    rw [eq]
    exact matchAgainst_noEmptyLevel _ _ (h _ _)
  | joined _ _ _ _ _ eq =>
    rw [eq]
    exact (h _ _).addOrder _
  | kept _ eq =>
    rw [eq]
    exact h pair buys

theorem noEmptyLevel_cancel {orderId : OrderId} {userId : UserId} {pair : TradingPair} (h : s.NoEmptyLevel) :
    (handleCancelOrder s orderId userId pair).engine.NoEmptyLevel := by
  rcases handleCancelOrder_cases s orderId userId pair with hn | ⟨book, buys, price, order, unlocked, -, ht⟩
  · rw [hn.engine]; exact h
  intro pair' buys'
  rcases ht.after pair' buys' with ⟨-, -, -, he⟩ | ⟨-, he⟩
  · rw [he]
    exact (h pair buys).takeOut _ _
  · rw [he]
    exact h pair' buys'

/-! ## Ids -/

/-- The ids of the resting orders. -/
def Engine.orderIds (s : Engine) : Multiset OrderId := s.total fun o => ({o.id} : Multiset OrderId)

omit [Arithmetic] in
theorem coe_restingOrders (s : Engine) : ((s.restingOrders.map OrderEntry.id : List OrderId) : Multiset OrderId) =
    s.orderIds := by
  rw [Engine.orderIds, total_eq_sum, ← Multiset.sum_map_singleton (s.restingOrders.map OrderEntry.id : Multiset OrderId),
    Multiset.map_coe, Multiset.sum_coe, List.map_map]
  rfl

omit [Arithmetic] in
theorem mem_orderIds {id : OrderId} : id ∈ s.orderIds ↔ ∃ o ∈ s.restingOrders, o.id = id := by
  rw [← coe_restingOrders, Multiset.mem_coe, List.mem_map]

/-- A submit adds at most the submitted id. -/
theorem orderIds_submit (dv : Decimal → Decimal → Decimal) (s : Engine) {order : OrderEntry} (hk : order.Kind) :
    (processSubmitOrder dv s order).engine.orderIds ≤ order.id ::ₘ s.orderIds := by
  rcases processSubmitOrder_cases dv s hk with hr | ⟨cache, book, settled, counted, released, hg⟩
  · rw [Engine.orderIds, Engine.total_congr hr.orderbooks]
    exact Multiset.le_cons_self _ _
  have h := total_submit hk hg (P := fun _ _ => True) (fun _ _ _ _ _ _ => trivial) (fun _ _ => trivial)
    (w := fun o => ({o.id} : Multiset OrderId)) (g := fun _ => 0) (fun _ => by simp [OrderEntry.fill])
  have hid : (order.matching dv (s.orderbook order.pair)).incoming.id = order.id :=
    (OrderEntry.terms_eq (matchAgainst_terms _ _ _)).1
  calc (processSubmitOrder dv s order).engine.orderIds
      ≤ s.orderIds + if (order.matching dv (s.orderbook order.pair)).incoming.rests then
          {(order.matching dv (s.orderbook order.pair)).incoming.id} else 0 := by
        rw [Engine.orderIds, Engine.orderIds, ← h, add_assoc]
        exact Multiset.le_add_right _ _
    _ ≤ order.id ::ₘ s.orderIds := by
        rw [hid, ← Multiset.singleton_add, add_comm]
        split_ifs
        · exact le_rfl
        · exact add_le_add_left (Multiset.zero_le _) _

theorem orderIds_cancel {orderId : OrderId} {userId : UserId} {pair : TradingPair} :
    (handleCancelOrder s orderId userId pair).engine.orderIds ≤ s.orderIds := by
  rcases handleCancelOrder_cases s orderId userId pair with hn | ⟨book, buys, price, order, unlocked, -, ht⟩
  · rw [hn.engine]
  · rw [Engine.orderIds, Engine.orderIds, ← total_cancel ht]
    exact Multiset.le_add_right _ _

/-- The ids that rest are distinct, and distinct from the ones still to come. -/
structure Engine.FreshIds (s : Engine) (cs : List Command) : Prop where
  nodup : s.orderIds.Nodup
  fresh : ∀ id ∈ s.orderIds, id ∉ submittedIds cs
  coming : (submittedIds cs).Nodup

theorem freshIds_submit {order : OrderEntry} {cs : List Command} (hk : order.Kind)
    (h : s.FreshIds (.submitOrder order :: cs)) : (processSubmitOrder dv s order).engine.FreshIds cs := by
  have hc : submittedIds (.submitOrder order :: cs) = order.id :: submittedIds cs := rfl
  obtain ⟨hnodup, hfresh, hcoming⟩ := h
  rw [hc] at hfresh hcoming
  have hle := orderIds_submit dv s hk
  refine ⟨Multiset.nodup_of_le hle (Multiset.nodup_cons.2 ⟨?_, hnodup⟩), fun id hid => ?_, hcoming.of_cons⟩
  · intro hid
    exact hfresh _ hid List.mem_cons_self
  · rcases Multiset.mem_cons.1 (Multiset.mem_of_le hle hid) with rfl | hid
    · exact (List.nodup_cons.1 hcoming).1
    · exact fun hm => hfresh _ hid (List.mem_cons_of_mem _ hm)

omit [Arithmetic] in
theorem freshIds_of_le {s' : Engine} {c : Command} {cs : List Command} (hc : submittedIds (c :: cs) = submittedIds cs)
    (hle : s'.orderIds ≤ s.orderIds) (h : s.FreshIds (c :: cs)) : s'.FreshIds cs := by
  obtain ⟨hnodup, hfresh, hcoming⟩ := h
  rw [hc] at hfresh hcoming
  exact ⟨Multiset.nodup_of_le hle hnodup, fun id hid => hfresh id (Multiset.mem_of_le hle hid), hcoming⟩

/-! ## Runs -/

/-- Run rule for an invariant that also speaks of the commands still to come. -/
theorem run_inv_coming (dv : Decimal → Decimal → Decimal) {I : Engine → List Command → Prop}
    (hstep : ∀ s c cs, I s (c :: cs) → I (s.step dv c) cs) (more : List Command) :
    ∀ (cs : List Command) (s : Engine), I s (cs ++ more) → I (s.run dv cs) more := by
  intro cs
  induction cs with
  | nil => intro s h; exact h
  | cons c cs ih => intro s h; exact ih _ (hstep s c (cs ++ more) h)

/-- The orders are where they belong and no level is empty. -/
structure Engine.Tidy (s : Engine) : Prop where
  placed : s.Placed
  noEmptyLevel : s.NoEmptyLevel

theorem tidy_step {c : Command} (hc : c.Validated) (h : s.Tidy) : (s.step dv c).Tidy := by
  cases c with
  | submitOrder order =>
    have hk := validated_kind hc
    exact ⟨placed_submit hk h.placed, noEmptyLevel_submit hk h.noEmptyLevel⟩
  | cancelOrder orderId userId pair => exact ⟨allOrders_cancel _ _ _ h.placed, noEmptyLevel_cancel h.noEmptyLevel⟩
  | _ => exact ⟨h.placed, h.noEmptyLevel⟩

theorem tidy_start (c : BalanceCache) : (Engine.start c).Tidy where
  placed := Engine.allOrders_start _ _
  noEmptyLevel pair buys := by
    have : (Engine.start c).orderbook pair = .new pair := rfl
    rw [this, OrderBook.side_new]
    exact fun e he => absurd he (by simp [OrderBookSide.new])

/-- What every state of a run has, if the orders are admitted and their ids are distinct. -/
structure Engine.WellFormed (s : Engine) (cs : List Command) : Prop extends Engine.Tidy s where
  freshIds : s.FreshIds cs
  orders : ∀ c ∈ cs, c.Validated

theorem freshIds_step {c : Command} {cs : List Command} (hc : c.Validated) (h : s.FreshIds (c :: cs)) :
    (s.step dv c).FreshIds cs := by
  cases c with
  | submitOrder order => exact freshIds_submit (validated_kind hc) h
  | cancelOrder orderId userId pair => exact freshIds_of_le rfl orderIds_cancel h
  | _ => exact freshIds_of_le (s := s) rfl le_rfl h

theorem wellFormed_step {c : Command} {cs : List Command} (h : s.WellFormed (c :: cs)) :
    (s.step dv c).WellFormed cs :=
  have hc := h.orders c List.mem_cons_self
  ⟨tidy_step hc h.toTidy, freshIds_step hc h.freshIds, fun c' hc' => h.orders c' (List.mem_cons_of_mem _ hc')⟩

theorem wellFormed_start (c : BalanceCache) {cs : List Command} (hcs : ∀ c ∈ cs, c.Validated)
    (hids : (submittedIds cs).Nodup) : (Engine.start c).WellFormed cs :=
  ⟨tidy_start c, ⟨by simp [Engine.orderIds], by simp [Engine.orderIds], hids⟩, hcs⟩

end Rounded

/-- **The order book representation invariant**: in every state of a run of admitted orders
with distinct ids and of any cancels, from empty books. -/
theorem run_wellFormed (dv : Decimal → Decimal → Decimal) (cache : BalanceCache) (cs : List Command)
    (hcs : ∀ c ∈ cs, c.Orders) (hids : (submittedIds cs).Nodup) :
    (∀ pair book, ((Engine.start cache).run dv cs).orderbooks.lookup pair = some book →
      ∀ buys, ∀ level ∈ (book.side buys).orders.entries, level.2 ≠ [] ∧
        ∀ o ∈ level.2, o.price = some level.1 ∧ o.orderType = (if buys then .buy else .sell) ∧
          o.orderSide = .limit ∧ o.baseMint = pair.baseMint ∧ o.quoteMint = pair.quoteMint ∧
          0 < o.remainingAmount ∧ o.filledAmount + o.remainingAmount = o.amount) ∧
      (((Engine.start cache).run dv cs).restingOrders.map OrderEntry.id).Nodup := by
  have hvalidated : ∀ c ∈ cs, c.Validated := fun c hc => (hcs c hc).validated
  have h := run_inv_coming dv (I := Engine.WellFormed) (fun s c cs => wellFormed_step) [] cs
    (Engine.start cache) (by rw [List.append_nil]; exact wellFormed_start cache hvalidated hids)
  refine ⟨fun pair book hbook buys level hlevel => ?_, ?_⟩
  · have hempty := h.noEmptyLevel pair buys
    have hplaced := h.placed pair buys
    rw [Engine.orderbook_of_lookup hbook] at hempty hplaced
    refine ⟨hempty level hlevel, fun o ho => ?_⟩
    have hr := hplaced (level.1, o) (OrderBookSide.mem_stock.2 ⟨level.2, hlevel, ho⟩)
    obtain ⟨hb, hq⟩ := TradingPair.mk.inj hr.pair
    exact ⟨hr.price, hr.type, hr.side, hb, hq, hr.remaining_pos, (hr.adds_up inferInstance)⟩
  · rw [← Multiset.coe_nodup, coe_restingOrders]
    exact h.freshIds.nodup

/-- Two orders of two users, a fill of a part, and a cancel by the wrong user. -/
theorem run_wellFormed_partial_fill :
    (((Engine.start ((BalanceCache.new.setBalance 1 "USDT" 100 0).setBalance 2 "SOL" 5 0)).run (· / ·)
      [.submitOrder (limitOrder 1 2 .sell 10 5), .submitOrder (limitOrder 2 1 .buy 10 3),
        .cancelOrder 1 1 solUsdt]).restingOrders.map OrderEntry.id).Nodup :=
  (run_wellFormed (· / ·) ((BalanceCache.new.setBalance 1 "USDT" 100 0).setBalance 2 "SOL" 5 0)
    [.submitOrder (limitOrder 1 2 .sell 10 5), .submitOrder (limitOrder 2 1 .buy 10 3), .cancelOrder 1 1 solUsdt]
    (by
      simp only [List.forall_mem_cons]
      exact ⟨limitOrder_validated 1 2 (Or.inr rfl) (by norm_num) (by norm_num),
        limitOrder_validated 2 1 (Or.inl rfl) (by norm_num) (by norm_num), trivial, by simp⟩)
    (by decide)).2

/-! ## No book is crossed -/

/-- Every buy level is below every sell level. -/
def Engine.Uncrossed (s : Engine) : Prop :=
  ∀ pair, ∀ b ∈ ((s.orderbook pair).side true).stock, ∀ a ∈ ((s.orderbook pair).side false).stock, b.1 < a.1

/-- The best price comes before every other. -/
theorem OrderBookSide.getBestPrice_before {side : OrderBookSide} {isBuy : Bool} {best : Decimal}
    (h : side.getBestPrice isBuy = some best) {x : Decimal × OrderEntry} (hx : x ∈ side.stock) :
    x.1 = best ∨ BTreeMap.Before isBuy best x.1 := by
  obtain ⟨queue, rest, hl, -⟩ := getBestPrice_eq_some h
  obtain ⟨q, hq, -⟩ := mem_stock.1 hx
  have hs := BTreeMap.bestFirst_sorted side.orders isBuy
  rw [show side.orders.bestFirst isBuy = side.levels isBuy from rfl, hl] at hs
  have hm : (x.1, q) ∈ side.levels isBuy := BTreeMap.mem_bestFirst.2 hq
  rw [hl] at hm
  rcases List.mem_cons.1 hm with he | hm
  · exact Or.inl (Prod.mk.inj he).1
  · exact Or.inr ((List.pairwise_cons.1 hs).1 _ hm)

section Rounded

variable [Arithmetic]

/-- What is left of a limit order after matching does not reach the other side. -/
theorem rests_uncrossed {order : OrderEntry} (hk : order.Kind) (book : OrderBook)
    (hl : Live order (order.matching dv book).incoming) (hr : (order.matching dv book).incoming.rests) {p : Decimal}
    (hp : order.price = some p) {x : Decimal × OrderEntry} (hx : x ∈ (order.matching dv book).side.stock) :
    (order.isBuy = true → p < x.1) ∧ (order.isBuy = false → x.1 < p) := by
  obtain ⟨-, -, -, hside, -, hprice⟩ := OrderEntry.terms_eq hl.terms
  obtain ⟨q, hq, hR⟩ := rests_of_live hk hl hr
  have hlimit := hside.symm.trans hR.side
  rcases matchAgainst_done (order.rule dv) order (book.side (order.rule dv).scansBuys) with hf | hn | ⟨best, hb, ha⟩
  · -- used up, so nothing would be left
    change (order.rule dv).isFullyFilled (order.matching dv book).incoming = true at hf
    exfalso
    have hzero : (order.matching dv book).incoming.remainingAmount = 0 := by
      unfold OrderEntry.rule at hf
      split_ifs at hf
      · simpa [buyRule, hR.budget] using hf
      · simpa [sellRule] using hf
    exact absurd hR.remaining_pos (by rw [hzero]; exact lt_irrefl _)
  · change (order.matching dv book).side.getBestPrice _ = none at hn
    rw [OrderBookSide.stock_eq_zero hn] at hx
    simp at hx
  · change (order.matching dv book).side.getBestPrice _ = some best at hb
    change (order.rule dv).accepts (order.matching dv book).incoming best = false at ha
    have hbefore := OrderBookSide.getBestPrice_before hb hx
    rcases hk.isBuy_or with ht | ht
    · simp only [OrderEntry.rule_buy ht, buyRule, hside, hlimit, hprice, hp, if_true] at ha hbefore
      refine ⟨fun _ => ?_, fun hc => by simp [OrderEntry.isBuy, ht] at hc⟩
      have hlt : p < best := by simpa using ha
      rcases hbefore with he | hb
      · rw [he]; exact hlt
      · exact hlt.trans hb
    · simp only [OrderEntry.rule_sell ht, sellRule, hside, hlimit, hprice, hp, if_true] at ha hbefore
      refine ⟨fun hc => by simp [OrderEntry.isBuy, ht] at hc, fun _ => ?_⟩
      have hlt : best < p := by simpa using ha
      rcases hbefore with he | hb
      · rw [he]; exact hlt
      · exact lt_trans hb hlt

theorem uncrossed_submit {order : OrderEntry} (hk : order.Kind) (h : s.Uncrossed) :
    (processSubmitOrder dv s order).engine.Uncrossed := by
  rcases processSubmitOrder_cases dv s hk with hr | ⟨cache, book, settled, counted, released, hg⟩
  · intro pair
    rw [Engine.orderbook, hr.orderbooks]
    exact h pair
  intro pair
  rw [hg.engine, Engine.orderbook_insert]
  split_ifs with hpair
  swap
  · exact h pair
  subst hpair
  -- the scanned side has no new prices
  have hfacts := matching_facts dv hk (s.orderbook order.pair)
    (P := fun p _ => ∃ o, (p, o) ∈ ((s.orderbook order.pair).side (order.rule dv).scansBuys).stock)
    (fun _ _ _ hp _ _ => hp) (fun x hx => ⟨x.2, hx⟩)
  have hjoined : ∀ x ∈ (book.side !(order.rule dv).scansBuys).stock,
      x ∈ ((s.orderbook order.pair).side !(order.rule dv).scansBuys).stock ∨
        ((order.matching dv (s.orderbook order.pair)).incoming.rests ∧ order.price = some x.1) := by
    intro x hx
    rw [hg.joined] at hx
    split_ifs at hx with hr
    · obtain ⟨p, hp, hR⟩ := rests_of_live hk hfacts.live hr
      rw [OrderBookSide.stock_addOrder hR.price] at hx
      rcases Multiset.mem_cons.1 hx with rfl | hx
      · exact Or.inr ⟨hr, hp⟩
      · exact Or.inl hx
    · exact Or.inl hx
  rcases hk.isBuy_or with ht | ht
  · have hb : (order.rule dv).scansBuys = false := by rw [OrderEntry.rule_buy ht]; rfl
    have hscanned := hg.scanned
    rw [hb] at hjoined hscanned hfacts
    intro b hb a ha
    rw [hscanned] at ha
    obtain ⟨o, ho⟩ := hfacts.stock a ha
    rcases hjoined b hb with hb | ⟨hr, hp⟩
    · exact h _ b hb (a.1, o) ho
    · exact (rests_uncrossed hk _ hfacts.live hr hp ha).1 (by simp [OrderEntry.isBuy, ht])
  · have hb : (order.rule dv).scansBuys = true := by rw [OrderEntry.rule_sell ht]; rfl
    have hscanned := hg.scanned
    rw [hb] at hjoined hscanned hfacts
    intro b hb a ha
    rw [hscanned] at hb
    obtain ⟨o, ho⟩ := hfacts.stock b hb
    rcases hjoined a ha with ha | ⟨hr, hp⟩
    · exact h _ (b.1, o) ho a ha
    · exact (rests_uncrossed hk _ hfacts.live hr hp hb).2 (by simp [OrderEntry.isBuy, ht])

theorem uncrossed_cancel {orderId : OrderId} {userId : UserId} {pair : TradingPair} (h : s.Uncrossed) :
    (handleCancelOrder s orderId userId pair).engine.Uncrossed := by
  -- every order that is left was there before
  have hsub := allOrders_cancel orderId userId pair
    (P := fun buys pair p o => (p, o) ∈ ((s.orderbook pair).side buys).stock) (fun _ _ x hx => hx)
  intro pair' b hb a ha
  exact h pair' b (hsub pair' true b hb) a (hsub pair' false a ha)

/-- **The order book never stays crossed**: in every state of a run of admitted orders of all
kinds and of cancels, from empty books, every resting buy order is priced below every
resting sell order of the pair. -/
theorem run_uncrossed (dv : Decimal → Decimal → Decimal) (cache : BalanceCache) (cs : List Command)
    (hcs : ∀ c ∈ cs, c.Orders) (pair : TradingPair) (book : OrderBook)
    (hbook : ((Engine.start cache).run dv cs).orderbooks.lookup pair = some book) :
    ∀ b ∈ book.buyOrders.restingOrders, ∀ a ∈ book.sellOrders.restingOrders,
      ∃ bid ask, b.price = some bid ∧ a.price = some ask ∧ bid < ask := by
  have h := run_inv dv (I := fun s => s.Placed ∧ s.Uncrossed) (by
      rintro s c ⟨hp, hu⟩ hc
      cases c with
      | submitOrder order =>
        exact ⟨placed_submit (validated_kind hc) hp, uncrossed_submit (validated_kind hc) hu⟩
      | cancelOrder orderId userId pair => exact ⟨allOrders_cancel _ _ _ hp, uncrossed_cancel hu⟩
      | _ => exact hc.elim) cs (Engine.start cache)
    ⟨Engine.allOrders_start _ _, fun pair b hb => by
      rw [show (Engine.start cache).orderbook pair = .new pair from rfl, OrderBook.side_new] at hb
      simp at hb⟩ hcs
  obtain ⟨hplaced, huncrossed⟩ := h
  have hbook' := Engine.orderbook_of_lookup hbook
  intro b hb a ha
  obtain ⟨bid, hbid⟩ := mem_restingOrders.1 hb
  obtain ⟨ask, hask⟩ := mem_restingOrders.1 ha
  have hPb := hplaced pair true (bid, b)
  have hPa := hplaced pair false (ask, a)
  have hlt := huncrossed pair (bid, b)
  rw [hbook'] at hPb hPa hlt
  exact ⟨bid, ask, (hPb hbid).price, (hPa hask).price, hlt hbid (ask, a) hask⟩

end Rounded

/-- A bid and an ask of one user. -/
theorem run_uncrossed_spread :
    ∃ book, ((Engine.start ((BalanceCache.new.setBalance 1 "USDT" 100 0).setBalance 1 "SOL" 5 0)).run (· / ·)
        [.submitOrder (limitOrder 1 1 .sell 11 5), .submitOrder (limitOrder 2 1 .buy 10 3)]).orderbooks.lookup
          solUsdt = some book ∧
      ∀ b ∈ book.buyOrders.restingOrders, ∀ a ∈ book.sellOrders.restingOrders,
        ∃ bid ask, b.price = some bid ∧ a.price = some ask ∧ bid < ask := by
  obtain ⟨book, hbook⟩ := Option.isSome_iff_exists.1 (by decide +kernel :
    (((Engine.start ((BalanceCache.new.setBalance 1 "USDT" 100 0).setBalance 1 "SOL" 5 0)).run (· / ·)
      [.submitOrder (limitOrder 1 1 .sell 11 5), .submitOrder (limitOrder 2 1 .buy 10 3)]).orderbooks.lookup
        solUsdt).isSome = true)
  refine ⟨book, hbook, run_uncrossed (· / ·) _ _ ?_ solUsdt book hbook⟩
  simp only [List.forall_mem_cons]
  exact ⟨limitOrder_validated 1 1 (Or.inr rfl) (by norm_num) (by norm_num),
    limitOrder_validated 2 1 (Or.inl rfl) (by norm_num) (by norm_num), by simp⟩

end CexEngine
