import CexEngine.Proof.Agreement
import CexEngine.Proof.Escrow
import CexEngine.Proof.TimePriority

/-!
# The life of an order

An order is matched when it is submitted, and again and again while it rests.

* `Engine.fills`: the matches that a run makes in the books, of all orders.
* `MatchResult.IsBuyOf`, `MatchResult.IsSellOf`: a match has an order as its buy, or as its sell,
  on the terms on which that order was submitted.
* `fills_run`: **every match of a run is between two submitted orders on their terms, no order is
  matched for more than its amount, and a resting order has filled what it was matched for.**
-/

namespace CexEngine

/-! ## Weights of single orders -/

section Weight

variable {w : OrderEntry → Decimal} {os : List OrderEntry} {o : OrderEntry}

theorem weightBy_of_not_mem {id : OrderId} (h : id ∉ os.map OrderEntry.id) : weightBy id w os = 0 := by
  have hnil : os.filter (fun o => o.id = id) = [] :=
    List.filter_eq_nil_iff.2 fun o ho he => h (List.mem_map.2 ⟨o, ho, by simpa using he⟩)
  rw [weightBy, hnil, List.map_nil, List.sum_nil]

/-- Where ids are distinct, an id weighs what its order does. -/
theorem weightBy_of_mem (h : (os.map OrderEntry.id).Nodup) (ho : o ∈ os) : weightBy o.id w os = w o := by
  induction os with
  | nil => exact absurd ho List.not_mem_nil
  | cons a os ih =>
    rw [List.map_cons, List.nodup_cons] at h
    have hcons : weightBy o.id w (a :: os) = (if a.id = o.id then w a else 0) + weightBy o.id w os := by
      rw [weightBy, sum_map_filter, List.map_cons, List.sum_cons, ← sum_map_filter]
      rfl
    rw [hcons]
    rcases List.mem_cons.1 ho with rfl | ho
    · rw [if_pos rfl, weightBy_of_not_mem h.1, add_zero]
    · have hne : a.id ≠ o.id := fun he => h.1 (by rw [he]; exact List.mem_map_of_mem ho)
      rw [if_neg hne, zero_add, ih h.2 ho]

end Weight

variable {dv : Decimal → Decimal → Decimal} {s : Engine}

/-- The matches that a command makes in the books. -/
def Engine.fillsOf (dv : Decimal → Decimal → Decimal) (s : Engine) : Command → List MatchResult
  | .submitOrder order =>
    if (processSubmitOrder dv s order).answer.isOk then (matchAndRest dv order (s.orderbook order.pair)).results else []
  | _ => []

/-- The matches that a run makes. -/
def Engine.fills (dv : Decimal → Decimal → Decimal) : Engine → List Command → List MatchResult
  | _, [] => []
  | s, c :: cs => s.fillsOf dv c ++ (s.step dv c).fills dv cs

/-- The matches that a command is answered with. -/
def Engine.tradesOf (dv : Decimal → Decimal → Decimal) (s : Engine) : Command → List MatchResult
  | .submitOrder order => (processSubmitOrder dv s order).answer.toOption.getD []
  | _ => []

/-- The matches that the submitters of a run are told of. -/
def Engine.trades (dv : Decimal → Decimal → Decimal) : Engine → List Command → List MatchResult
  | _, [] => []
  | s, c :: cs => s.tradesOf dv c ++ (s.step dv c).trades dv cs

section Submission

variable {order : OrderEntry} {cache : BalanceCache} {book : OrderBook}
  {settled : BalanceCache × List (MatchResult × Except EngineError (List DbCommand))} {counted : List MatchResult}
  {released : BalanceCache × Option (Except EngineError Unit)}

theorem Refused.fillsOf (hr : Refused dv s order) : s.fillsOf dv (.submitOrder order) = [] := by
  rw [Engine.fillsOf, hr.answer, if_neg Bool.false_ne_true]

theorem Refused.tradesOf (hr : Refused dv s order) : s.tradesOf dv (.submitOrder order) = [] := by
  rw [Engine.tradesOf]
  cases hanswer : (processSubmitOrder dv s order).answer with
  | ok ms => exact absurd hr.answer (by rw [hanswer]; simp [Except.isOk, Except.toBool])
  | error e => rfl

theorem Granted.fillsOf (hk : order.Kind) (hg : Granted dv s order cache book settled counted released) :
    s.fillsOf dv (.submitOrder order) = (order.matching dv (s.orderbook order.pair)).results := by
  have hok : (processSubmitOrder dv s order).answer.isOk = true := by rw [hg.answer]; rfl
  rw [Engine.fillsOf, hok, if_pos rfl, (matchAndRest_spec dv hk _).2.1]

theorem Granted.tradesOf (hg : Granted dv s order cache book settled counted released) :
    s.tradesOf dv (.submitOrder order) = counted := by
  rw [Engine.tradesOf, hg.answer]
  rfl

end Submission

/-- The orders that are submitted. -/
def submittedOrders (cs : List Command) : List OrderEntry :=
  cs.filterMap fun c => match c with
    | .submitOrder order => some order
    | _ => none

/-- What an order was matched for. -/
def filledFor (id : OrderId) (ms : List MatchResult) : Decimal :=
  (ms.map fun m => if m.buyOrderId = id ∨ m.sellOrderId = id then m.amount else 0).sum

/-- The match buys for `o`: it is that user's, in its mints and within its limit. -/
structure MatchResult.IsBuyOf (m : MatchResult) (o : OrderEntry) : Prop where
  type : o.orderType = .buy
  id : m.buyOrderId = o.id
  user : m.buyerId = o.userId
  pair : o.pair = ⟨m.baseMint, m.quoteMint⟩
  limit : ∀ price, o.price = some price → m.price ≤ price

/-- The match sells for `o`. -/
structure MatchResult.IsSellOf (m : MatchResult) (o : OrderEntry) : Prop where
  type : o.orderType = .sell
  id : m.sellOrderId = o.id
  user : m.sellerId = o.userId
  pair : o.pair = ⟨m.baseMint, m.quoteMint⟩
  limit : ∀ price, o.price = some price → price ≤ m.price

/-- A match of something at a price, between two of the orders, of two users. -/
structure MatchResult.IsBetween (m : MatchResult) (orders : List OrderEntry) : Prop where
  price_pos : 0 < m.price
  amount_pos : 0 < m.amount
  users : m.buyerId ≠ m.sellerId
  buy : ∃ o ∈ orders, m.IsBuyOf o
  sell : ∃ o ∈ orders, m.IsSellOf o

section Filled

variable {id : OrderId} {ms ms' : List MatchResult} {m : MatchResult} {o : OrderEntry}

@[simp] theorem filledFor_append : filledFor id (ms ++ ms') = filledFor id ms + filledFor id ms' := by
  simp [filledFor]

theorem submittedIds_eq (cs : List Command) : submittedIds cs = (submittedOrders cs).map OrderEntry.id := by
  rw [submittedOrders, submittedIds, List.map_filterMap]
  congr 1
  funext c
  cases c <;> rfl

theorem MatchResult.IsBetween.mono {orders orders' : List OrderEntry} (h : m.IsBetween orders)
    (hsub : ∀ o ∈ orders, o ∈ orders') : m.IsBetween orders' where
  price_pos := h.price_pos
  amount_pos := h.amount_pos
  users := h.users
  buy := h.buy.imp fun _ ho => ⟨hsub _ ho.1, ho.2⟩
  sell := h.sell.imp fun _ ho => ⟨hsub _ ho.1, ho.2⟩

/-- Matches between orders are not for an id that none of these has. -/
theorem filledFor_eq_zero {orders : List OrderEntry} (h : ∀ m ∈ ms, m.IsBetween orders)
    (hid : id ∉ orders.map OrderEntry.id) : filledFor id ms = 0 := by
  refine List.sum_eq_zero fun a ha => ?_
  obtain ⟨m, hm, rfl⟩ := List.mem_map.1 ha
  obtain ⟨b, hb, hbuy⟩ := (h m hm).buy
  obtain ⟨o, ho, hsell⟩ := (h m hm).sell
  refine if_neg fun hc => hid ?_
  rcases hc with rfl | rfl
  · rw [hbuy.id]
    exact List.mem_map_of_mem hb
  · rw [hsell.id]
    exact List.mem_map_of_mem ho

/-- The incoming order of a match. -/
def OrderEntry.takerId (o : OrderEntry) (m : MatchResult) : OrderId := if o.isBuy then m.buyOrderId else m.sellOrderId

theorem OrderEntry.names_iff (o : OrderEntry) (m : MatchResult) :
    (m.buyOrderId = id ∨ m.sellOrderId = id) ↔ o.takerId m = id ∨ o.makerId m = id := by
  unfold OrderEntry.takerId OrderEntry.makerId
  split_ifs
  · rfl
  · exact or_comm

/-- The matches of an order, for another one: what they report for it as a resting order. -/
theorem filledFor_maker (h : ∀ m ∈ ms, o.takerId m = o.id) (hid : o.id ≠ id) :
    filledFor id ms = o.reportedFor id ms := by
  rw [filledFor, OrderEntry.reportedFor_eq_sum]
  congr 1
  refine List.map_congr_left fun m hm => ?_
  simp only [o.names_iff, h m hm, hid, false_or]

/-- And for the order itself. -/
theorem filledFor_taker (h : ∀ m ∈ ms, o.takerId m = o.id) : filledFor o.id ms = amountUsed ms := by
  rw [filledFor, amountUsed_eq_sum]
  congr 1
  refine List.map_congr_left fun m hm => ?_
  simp only [o.names_iff, h m hm, true_or, if_true]

end Filled

theorem Engine.fills_append : ∀ (cs cs' : List Command) (s : Engine),
    s.fills dv (cs ++ cs') = s.fills dv cs ++ (s.run dv cs).fills dv cs' := by
  intro cs cs'
  induction cs with
  | nil => intro s; rfl
  | cons c cs ih =>
    intro s
    rw [List.cons_append, Engine.fills, Engine.fills, ih, List.append_assoc]
    rfl

/-! ## The books and the matches -/

/-- The matches so far explain the books: they are between the orders that were submitted, no
order was matched for more than its amount, and every resting order was submitted on its terms
and has filled what it was matched for. -/
structure Engine.Explained (s : Engine) (past : List OrderEntry) (fills : List MatchResult) (cs : List Command) :
    Prop extends s.WellFormed cs where
  ids : ((past ++ submittedOrders cs).map OrderEntry.id).Nodup
  between : ∀ m ∈ fills, m.IsBetween past
  within : ∀ o ∈ past, o.quoteAmount = none → filledFor o.id fills ≤ o.amount
  resting : ∀ o ∈ s.restingOrders, o.filledAmount = filledFor o.id fills ∧
    ∃ r ∈ past, r.terms = o.terms ∧ r.amount = o.amount

theorem OrderEntry.Kind.amount_nonneg {o : OrderEntry} (hk : o.Kind) : 0 ≤ o.amount := by
  cases hk with
  | limitBuy _ _ _ _ _ hq => exact hq.amount ▸ hq.remaining_pos.le
  | limitSell _ _ _ _ _ hq => exact hq.amount ▸ hq.remaining_pos.le
  | marketSell _ _ _ hq => exact hq.amount ▸ hq.remaining_pos.le
  | marketBuy _ _ _ _ _ _ _ hamount => exact hamount.ge

section Submit

variable {order : OrderEntry} {past : List OrderEntry} {fills : List MatchResult} {cs : List Command}
  {cache : BalanceCache} {book : OrderBook}
  {settled : BalanceCache × List (MatchResult × Except EngineError (List DbCommand))}
  {counted : List MatchResult} {released : BalanceCache × Option (Except EngineError Unit)}
  (hk : order.Kind) (h : s.Explained past fills (.submitOrder order :: cs))

include h in
theorem Engine.Explained.fresh : order.id ∉ past.map OrderEntry.id ∧ order.id ∉ s.restingOrders.map OrderEntry.id ∧
    ((past ++ [order] ++ submittedOrders cs).map OrderEntry.id).Nodup := by
  have hids : ((past ++ order :: submittedOrders cs).map OrderEntry.id).Nodup := h.ids
  have hfresh : order.id ∉ past.map OrderEntry.id := by
    rw [List.map_append, List.map_cons] at hids
    exact fun hid => (List.nodup_append.1 hids).2.2 _ hid _ List.mem_cons_self rfl
  refine ⟨hfresh, fun hid => ?_, by rwa [List.append_assoc]⟩
  obtain ⟨o, ho, he⟩ := List.mem_map.1 hid
  obtain ⟨r, hr, hterms, -⟩ := (h.resting o ho).2
  exact hfresh (List.mem_map.2 ⟨r, hr, (OrderEntry.terms_eq hterms).1.trans he⟩)

include hk h

/-- Every match of a submit is between the incoming order and one that was submitted before. -/
theorem Engine.Explained.matching_between :
    ∀ m ∈ (order.matching dv (s.orderbook order.pair)).results,
      m.IsBetween (past ++ [order]) ∧ order.takerId m = order.id ∧ order.makerId m ∈ past.map OrderEntry.id := by
  have hside : ∀ x ∈ ((s.orderbook order.pair).side (order.rule dv).scansBuys).stock,
      Rests (order.rule dv).scansBuys order.pair x.1 x.2 ∧ ∃ r ∈ past, r.terms = x.2.terms := by
    intro x hx
    obtain ⟨-, r, hr, hterms, -⟩ := h.resting x.2 (mem_engine_restingOrders.2 ⟨_, _, _, hx⟩)
    exact ⟨h.placed order.pair _ x hx, r, hr, hterms⟩
  have hfacts := matching_facts dv hk (s.orderbook order.pair)
    (P := fun p o => Rests (order.rule dv).scansBuys order.pair p o ∧ ∃ r ∈ past, r.terms = o.terms)
    (fun p o a ho _ hpos => ⟨ho.1.fill a hpos, ho.2⟩) hside
  intro m hm
  obtain ⟨incoming, price, resting, amount, hf, rfl⟩ := hfacts.results m hm
  obtain ⟨hrests, r, hr, hterms⟩ := hf.rests
  obtain ⟨hid, huser, htype, -, hpair, hprice⟩ := OrderEntry.terms_eq hterms
  have hr' : r ∈ past ++ [order] := List.mem_append_left _ hr
  have ho' : order ∈ past ++ [order] := List.mem_append_right _ (List.mem_singleton_self _)
  have hpos := fill_amount_pos hk hrests.remaining_pos hf
  have hforeign : order.userId ≠ resting.userId := fun he =>
    hf.foreign ((OrderEntry.terms_eq hf.live.terms).2.1.trans he)
  -- a price is there only for a limit order
  have hlimit : ∀ p, order.price = some p → order.orderSide = .limit := by
    intro p hp
    cases hk with
    | limitBuy _ _ hs => exact hs
    | limitSell _ _ hs => exact hs
    | marketSell _ _ hn => rw [hn] at hp; cases hp
    | marketBuy _ _ _ hn => rw [hn] at hp; cases hp
  have hmaker : ∀ p, r.price = some p → p = price := fun p hp =>
    Option.some.inj (hp.symm.trans (hprice.trans hrests.price))
  rcases hk.isBuy_or with ht | ht
  · rw [(fill_report hf.live).1 ht]
    refine ⟨⟨hrests.price_pos, hpos, hforeign, ⟨order, ho', ht, rfl, rfl, rfl, fun p hp => ?_⟩,
      r, hr', ?_, hid.symm, huser.symm, hpair.trans hrests.pair, fun p hp => (hmaker p hp).le⟩, ?_, ?_⟩
    · exact (fill_price hf (hlimit p hp) hp).1 ht
    · rw [htype, hrests.type, OrderEntry.rule_buy ht]
      rfl
    · simp [OrderEntry.takerId, OrderEntry.isBuy, ht]
    · simpa [OrderEntry.makerId, OrderEntry.isBuy, ht, ← hid] using ⟨r, hr, rfl⟩
  · rw [(fill_report hf.live).2 ht]
    refine ⟨⟨hrests.price_pos, hpos, hforeign.symm, ⟨r, hr', ?_, hid.symm, huser.symm, hpair.trans hrests.pair,
      fun p hp => (hmaker p hp).ge⟩, order, ho', ht, rfl, rfl, rfl, fun p hp => ?_⟩, ?_, ?_⟩
    · rw [htype, hrests.type, OrderEntry.rule_sell ht]
      rfl
    · exact (fill_price hf (hlimit p hp) hp).2 ht
    · simp [OrderEntry.takerId, OrderEntry.isBuy, ht]
    · simpa [OrderEntry.makerId, OrderEntry.isBuy, ht, ← hid] using ⟨r, hr, rfl⟩

omit hk in
/-- What an order that rests after a submit has filled before. -/
theorem Engine.Explained.filled_submit (hk : order.Kind)
    (hg : Granted dv s order cache book settled counted released) {o : OrderEntry}
    (ho : o ∈ (processSubmitOrder dv s order).engine.restingOrders) :
    ∃ o₁ ∈ s.restingOrders ++ order.joins dv s, o₁.id = o.id ∧ o.filledAmount =
      o₁.filledAmount + order.reportedFor o.id (order.matching dv (s.orderbook order.pair)).results := by
  obtain ⟨horder, -, hdropped, -⟩ := matchAndRest_spec dv hk (s.orderbook order.pair)
  have hids := submit_ids hk hg
  have ho' := List.mem_append_left (order.matching dv (s.orderbook order.pair)).dropped ho
  obtain ⟨o₁, ho₁, he⟩ := List.mem_map.1 (hids.mem_iff.1 (List.mem_map_of_mem ho'))
  have hnodup : ((s.restingOrders ++ order.joins dv s).map OrderEntry.id).Nodup := by
    rw [List.map_append, List.nodup_append]
    refine ⟨?_, ?_, ?_⟩
    · rw [← Multiset.coe_nodup, coe_restingOrders]
      exact h.freshIds.nodup
    · unfold OrderEntry.joins
      split_ifs <;> simp
    · rintro a ha b hb rfl
      obtain ⟨o', hjoin, rfl⟩ := List.mem_map.1 hb
      rw [joins_id hjoin] at ha
      exact h.fresh.2.1 ha
  have hweights := weights_matching hk hg (w := OrderEntry.filledAmount) (c := -1)
    (tour_weight (fun o a => by rw [OrderEntry.fill, ExactSums.add_eq]; ring) order _) o.id
  rw [horder, hdropped] at hweights
  change _ = weightBy o.id _ (s.restingOrders ++ order.joins dv s) at hweights
  rw [weightBy_of_mem (hids.nodup_iff.2 hnodup) ho', ← he, weightBy_of_mem hnodup ho₁, he] at hweights
  exact ⟨o₁, ho₁, he, by linarith⟩

/-- What matches report for another order is at most what it had left. -/
theorem Engine.Explained.reportedFor_le (hg : Granted dv s order cache book settled counted released) {id : OrderId}
    (hid : order.id ≠ id) : order.reportedFor id (order.matching dv (s.orderbook order.pair)).results ≤
      weightBy id OrderEntry.remainingAmount s.restingOrders := by
  obtain ⟨horder, -, hdropped, -⟩ := matchAndRest_spec dv hk (s.orderbook order.pair)
  have hweights := weights_matching hk hg (w := OrderEntry.remainingAmount) (c := 1)
    (tour_weight (fun o a => by rw [OrderEntry.fill, ExactSums.sub_eq]; ring) order _) id
  rw [horder, hdropped] at hweights
  change _ = weightBy id _ (s.restingOrders ++ order.joins dv s) at hweights
  have hjoins : weightBy id OrderEntry.remainingAmount (order.joins dv s) = 0 := by
    refine weightBy_of_not_mem fun hmem => ?_
    obtain ⟨o, ho, he⟩ := List.mem_map.1 hmem
    exact hid ((joins_id ho).symm.trans he)
  have hsplit : weightBy id OrderEntry.remainingAmount (s.restingOrders ++ order.joins dv s) =
      weightBy id OrderEntry.remainingAmount s.restingOrders := by
    rw [weightBy, List.filter_append, List.map_append, List.sum_append]
    change _ + weightBy id _ (order.joins dv s) = _
    rw [hjoins, add_zero]
    rfl
  -- what is left of an order is not negative, in the books or let go
  have hnonneg : 0 ≤ weightBy id OrderEntry.remainingAmount ((processSubmitOrder dv s order).engine.restingOrders ++
      (order.matching dv (s.orderbook order.pair)).dropped) := by
    refine List.sum_nonneg fun a ha => ?_
    obtain ⟨o, ho, rfl⟩ := List.mem_map.1 ha
    rcases List.mem_append.1 (List.mem_of_mem_filter ho) with ho | ho
    · obtain ⟨pair, buys, p, hp⟩ := mem_engine_restingOrders.1 ho
      exact (placed_submit hk h.placed pair buys _ hp).remaining_pos.le
    · rcases matching_dropped hk (h.placed order.pair _) o ho with ⟨p, hr⟩ | ⟨-, hzero⟩
      · exact hr.remaining_pos.le
      · exact hzero.ge
  rw [hsplit] at hweights
  linarith

omit h in
/-- What an order without a budget was matched for and what is left of it are its amount. -/
theorem matching_amount (hside : ∀ x ∈ ((s.orderbook order.pair).side (order.rule dv).scansBuys).stock,
      Rests (order.rule dv).scansBuys order.pair x.1 x.2) (hq : order.remainingQuoteAmount = none) :
    (order.matching dv (s.orderbook order.pair)).incoming.filledAmount =
        amountUsed (order.matching dv (s.orderbook order.pair)).results ∧
      (order.matching dv (s.orderbook order.pair)).incoming.amount = order.amount ∧
      amountUsed (order.matching dv (s.orderbook order.pair)).results ≤ order.amount := by
  have hlive := (matching_rests hk hside).live
  have hquantity := hk.quantity hq
  obtain ⟨hnonneg, hadds, hamount⟩ := hlive.quantity (hlive.budget_none.2 hq)
  have hcharge := matching_charges dv hk (fun _ _ a hr _ hpos => hr.fill a hpos) hside
    (v := fun o => o.remainingAmount) (g := fun m => m.amount) (fun hf => by
      rw [fill_take hk hq hf, fill_report_amount]
      simp only [ExactSums.sub_eq]
      ring)
  have hadds := hadds inferInstance
  rw [← amountUsed_eq_sum, ← hquantity.amount] at hcharge
  exact ⟨by linarith, hamount, by linarith⟩

/-- What past orders and the new one were matched for. -/
theorem Engine.Explained.within_submit (hg : Granted dv s order cache book settled counted released) :
    ∀ o ∈ past ++ [order], o.quoteAmount = none →
      filledFor o.id (fills ++ (order.matching dv (s.orderbook order.pair)).results) ≤ o.amount := by
  have htaker : ∀ m ∈ (order.matching dv (s.orderbook order.pair)).results, order.takerId m = order.id :=
    fun m hm => (h.matching_between hk m hm).2.1
  obtain ⟨hfresh, -, hids⟩ := h.fresh
  intro o ho hq
  rw [filledFor_append]
  rcases List.mem_append.1 ho with ho | ho
  · have hne : order.id ≠ o.id := fun he => hfresh (he ▸ List.mem_map_of_mem ho)
    rw [filledFor_maker htaker hne]
    have hle := h.reportedFor_le hk hg hne
    by_cases hrest : o.id ∈ s.restingOrders.map OrderEntry.id
    · -- it rests, and had this much left
      obtain ⟨o₁, ho₁, he⟩ := List.mem_map.1 hrest
      obtain ⟨hfilled, r, hr, hterms, hamount⟩ := h.resting o₁ ho₁
      have hpast : (past.map OrderEntry.id).Nodup := hids.sublist
        ((List.sublist_append_left past _).trans (List.sublist_append_left _ _) |>.map _)
      obtain rfl := unique_of_ids hpast hr ho ((OrderEntry.terms_eq hterms).1.trans he)
      obtain ⟨pair, buys, p, hp⟩ := mem_engine_restingOrders.1 ho₁
      have hadds := (h.placed pair buys _ hp).adds_up inferInstance
      have hnodup : (s.restingOrders.map OrderEntry.id).Nodup := by
        rw [← Multiset.coe_nodup, coe_restingOrders]
        exact h.freshIds.nodup
      rw [← he, weightBy_of_mem hnodup ho₁] at hle
      rw [← he, ← hfilled, hamount]
      linarith
    · rw [weightBy_of_not_mem hrest] at hle
      have := h.within o ho hq
      linarith
  · obtain rfl := List.mem_singleton.1 ho
    have hbudget : o.remainingQuoteAmount = none := by
      cases hk with
      | limitBuy _ _ _ _ _ hquantity => exact hquantity.budget
      | limitSell _ _ _ _ _ hquantity => exact hquantity.budget
      | marketSell _ _ _ hquantity => exact hquantity.budget
      | marketBuy _ _ _ _ _ hquote => rw [hquote] at hq; cases hq
    rw [filledFor_eq_zero h.between hfresh, zero_add, filledFor_taker htaker]
    exact (matching_amount hk (h.placed o.pair _) hbudget).2.2

/-- What an order that rests after a submit was matched for. -/
theorem Engine.Explained.filledFor_submit (hg : Granted dv s order cache book settled counted released) {o : OrderEntry}
    (ho : o ∈ (processSubmitOrder dv s order).engine.restingOrders) :
    o.filledAmount = filledFor o.id (fills ++ (order.matching dv (s.orderbook order.pair)).results) := by
  have htaker : ∀ m ∈ (order.matching dv (s.orderbook order.pair)).results, order.takerId m = order.id :=
    fun m hm => (h.matching_between hk m hm).2.1
  obtain ⟨hfresh, hnew, -⟩ := h.fresh
  obtain ⟨o₁, ho₁, he, hfilled⟩ := h.filled_submit hk hg ho
  rw [hfilled, filledFor_append]
  rcases List.mem_append.1 ho₁ with ho₁ | ho₁
  · have hne : order.id ≠ o.id := fun hc => hnew (hc ▸ he ▸ List.mem_map_of_mem ho₁)
    rw [(h.resting o₁ ho₁).1, he, filledFor_maker htaker hne]
  · -- the order itself: nothing was matched for it before, and nothing reports it as a resting one
    have hid : o.id = order.id := he.symm.trans (joins_id ho₁)
    unfold OrderEntry.joins at ho₁
    split_ifs at ho₁ with hrests
    · obtain rfl := List.mem_singleton.1 ho₁
      have hlive : Live order (order.matching dv (s.orderbook order.pair)).incoming :=
        (matching_rests hk (h.placed order.pair _)).live
      obtain ⟨p, -, hR⟩ := rests_of_live hk hlive hrests
      have hbudget := hlive.budget_none.1 hR.budget
      rw [(matching_amount hk (h.placed order.pair _) hbudget).1, hid, filledFor_eq_zero h.between hfresh, zero_add,
        filledFor_taker htaker, OrderEntry.reportedFor_eq_sum]
      refine add_eq_left.2 (List.sum_eq_zero fun a ha => ?_)
      obtain ⟨m, hm, rfl⟩ := List.mem_map.1 ha
      refine if_neg fun hc => hfresh ?_
      rw [← hc]
      exact (h.matching_between hk m hm).2.2
    · exact absurd ho₁ List.not_mem_nil

/-- The terms that the orders have which rest after a submit. -/
theorem Engine.Explained.terms_submit {o : OrderEntry} (ho : o ∈ (processSubmitOrder dv s order).engine.restingOrders) :
    ∃ r ∈ past ++ [order], r.terms = o.terms ∧ r.amount = o.amount := by
  have hlive : Live order (order.matching dv (s.orderbook order.pair)).incoming :=
    (matching_rests hk (h.placed order.pair _)).live
  have hold : s.AllOrders fun _ _ _ o => ∃ r ∈ past ++ [order], r.terms = o.terms ∧ r.amount = o.amount := by
    intro pair buys x hx
    obtain ⟨-, r, hr, hterms⟩ := h.resting x.2 (mem_engine_restingOrders.2 ⟨pair, buys, x.1, hx⟩)
    exact ⟨r, List.mem_append_left _ hr, hterms⟩
  have hscanned := matching_facts dv hk (s.orderbook order.pair)
    (P := fun _ o => ∃ r ∈ past ++ [order], r.terms = o.terms ∧ r.amount = o.amount) (fun _ _ _ ho _ _ => ho)
    (hold order.pair _)
  have hafter := allOrders_submit_of hk hscanned.stock (fun p hR => ?_) hold
  · obtain ⟨pair, buys, p, hp⟩ := mem_engine_restingOrders.1 ho
    exact hafter pair buys _ hp
  · refine ⟨order, List.mem_append_right _ (List.mem_singleton_self _), hlive.terms.symm, ?_⟩
    exact (hlive.quantity hR.budget).2.2.symm

/-- **After a submit** the matches still explain the books. -/
theorem Engine.Explained.submit (hg : Granted dv s order cache book settled counted released) :
    (processSubmitOrder dv s order).engine.Explained (past ++ [order])
      (fills ++ (order.matching dv (s.orderbook order.pair)).results) cs where
  toWellFormed := wellFormed_step (c := .submitOrder order) h.toWellFormed
  ids := h.fresh.2.2
  between := by
    simp only [List.forall_mem_append]
    exact ⟨fun m hm => (h.between m hm).mono fun o ho => List.mem_append_left _ ho,
      fun m hm => (h.matching_between hk m hm).1⟩
  within := h.within_submit hk hg
  resting o ho := ⟨h.filledFor_submit hk hg ho, h.terms_submit hk ho⟩

end Submit

/-! ## Runs -/

section Run

variable {past : List OrderEntry} {fills : List MatchResult} {c : Command} {cs : List Command}

/-- A command without a match, after which no order rests that did not rest before. -/
theorem Engine.Explained.quiet (h : s.Explained past fills (c :: cs))
    (hresting : ∀ o ∈ (s.step dv c).restingOrders, o ∈ s.restingOrders) :
    (s.step dv c).Explained (past ++ submittedOrders [c]) fills cs where
  toWellFormed := wellFormed_step h.toWellFormed
  ids := by
    rw [List.append_assoc, submittedOrders, submittedOrders, ← List.filterMap_append]
    exact h.ids
  between m hm := (h.between m hm).mono fun o ho => List.mem_append_left _ ho
  within o ho hq := by
    rcases List.mem_append.1 ho with ho | ho
    · exact h.within o ho hq
    · -- an order whose lock is refused has not been matched
      cases c with
      | submitOrder order =>
        obtain rfl : o = order := List.mem_singleton.1 ho
        rw [filledFor_eq_zero h.between h.fresh.1]
        exact (validated_kind (h.orders _ List.mem_cons_self)).amount_nonneg
      | _ => exact absurd ho List.not_mem_nil
  resting o ho := by
    obtain ⟨hfilled, r, hr, hterms⟩ := h.resting o (hresting o ho)
    exact ⟨hfilled, r, List.mem_append_left _ hr, hterms⟩

/-- **One command.** -/
theorem Engine.Explained.step (h : s.Explained past fills (c :: cs)) :
    (s.step dv c).Explained (past ++ submittedOrders [c]) (fills ++ s.fillsOf dv c) cs := by
  cases c with
  | submitOrder order =>
    have hk := validated_kind (h.orders _ List.mem_cons_self)
    rcases processSubmitOrder_cases dv s hk with hr | ⟨cache, book, settled, counted, released, hg⟩
    · rw [hr.fillsOf, List.append_nil]
      refine h.quiet fun o ho => ?_
      rwa [Engine.restingOrders, Engine.step, Engine.handle, hr.orderbooks] at ho
    · rw [hg.fillsOf hk]
      exact h.submit hk hg
  | cancelOrder orderId userId pair =>
    rw [show s.fillsOf dv (.cancelOrder orderId userId pair) = [] from rfl, List.append_nil]
    exact h.quiet fun o ho => restingOrders_cancel orderId userId pair o ho
  | _ =>
    exact (List.append_nil fills).symm ▸ h.quiet fun o ho => ho

theorem explained_run (dv : Decimal → Decimal → Decimal) (more : List Command) : ∀ (cs : List Command) (s : Engine)
    (past : List OrderEntry) (fills : List MatchResult), s.Explained past fills (cs ++ more) →
    (s.run dv cs).Explained (past ++ submittedOrders cs) (fills ++ s.fills dv cs) more := by
  intro cs
  induction cs with
  | nil =>
    intro s past fills h
    rw [Engine.fills, submittedOrders, List.filterMap_nil, List.append_nil, List.append_nil]
    exact h
  | cons c cs ih =>
    intro s past fills h
    have := ih _ _ _ (h.step : (s.step dv c).Explained _ _ (cs ++ more))
    rw [List.append_assoc, List.append_assoc, submittedOrders, submittedOrders, ← List.filterMap_append] at this
    exact this

theorem explained_start (cache : BalanceCache) {cs : List Command} (hcs : ∀ c ∈ cs, c.Validated)
    (hids : (submittedIds cs).Nodup) : (Engine.start cache).Explained [] [] cs where
  toWellFormed := wellFormed_start cache hcs hids
  ids := by rwa [List.nil_append, ← submittedIds_eq]
  between m hm := absurd hm List.not_mem_nil
  within o ho := absurd ho List.not_mem_nil
  resting o ho := absurd ho List.not_mem_nil

/-- What is answered was matched; a market order is not told of a match that failed to settle. -/
theorem tradesOf_sublist (hc : c.Validated) : (s.tradesOf dv c).Sublist (s.fillsOf dv c) := by
  cases c with
  | submitOrder order =>
    have hk := validated_kind hc
    rcases processSubmitOrder_cases dv s hk with hr | ⟨cache, book, settled, counted, released, hg⟩
    · rw [hr.tradesOf, hr.fillsOf]
    · rw [hg.tradesOf, hg.fillsOf hk, hg.counts]
      split_ifs
      · have hall : settled.2.map Prod.fst = (order.matching dv (s.orderbook order.pair)).results := by
          rw [hg.trades, BalanceCache.executeTrades_fst]
        rw [executed, ← hall]
        exact List.filter_sublist.map _
      · exact List.Sublist.refl _
  | _ => exact List.Sublist.refl _

theorem trades_sublist : ∀ (cs : List Command) (s : Engine), (∀ c ∈ cs, c.Validated) →
    (s.trades dv cs).Sublist (s.fills dv cs) := by
  intro cs
  induction cs with
  | nil => intro s _; exact List.Sublist.refl _
  | cons c cs ih =>
    intro s hcs
    exact (tradesOf_sublist (hcs c List.mem_cons_self)).append (ih _ fun c' hc' => hcs c' (List.mem_cons_of_mem _ hc'))

end Run

/-- **What becomes of an order**, along every run of admitted orders of all kinds with distinct ids
and of any other commands, from empty books. Every match is between two orders that were
submitted, of two users, in their mints and within their limits, and what the submitters are told
of are such matches. Over its life no order is matched for more than its amount; and an order that
rests does so on the terms on which it was submitted and has filled what it was matched for. -/
theorem fills_run (dv : Decimal → Decimal → Decimal) (cache : BalanceCache) (cs : List Command)
    (hcs : ∀ c ∈ cs, c.Validated) (hids : (submittedIds cs).Nodup) :
    (∀ m ∈ (Engine.start cache).fills dv cs, m.IsBetween (submittedOrders cs)) ∧
      ((Engine.start cache).trades dv cs).Sublist ((Engine.start cache).fills dv cs) ∧
      (∀ o ∈ submittedOrders cs, o.quoteAmount = none → filledFor o.id ((Engine.start cache).fills dv cs) ≤ o.amount) ∧
      ∀ o ∈ ((Engine.start cache).run dv cs).restingOrders,
        o.filledAmount = filledFor o.id ((Engine.start cache).fills dv cs) ∧
          ∃ r ∈ submittedOrders cs, r.terms = o.terms ∧ r.amount = o.amount := by
  have h := explained_run dv [] cs (.start cache) [] [] (by
    rw [List.append_nil]
    exact explained_start cache hcs hids)
  exact ⟨h.between, trades_sublist cs _ hcs, h.within, h.resting⟩

/-- An ask that two buys take in part; what they take of it is what it has filled. -/
theorem fills_run_two_buys :
    let s := Engine.start ((BalanceCache.new.setBalance 1 "USDT" 100 0).setBalance 2 "SOL" 5 0)
    let cs := [.submitOrder (limitOrder 1 2 .sell 10 5), .submitOrder (limitOrder 2 1 .buy 10 3),
      .submitOrder (limitOrder 3 1 .buy 11 1)]
    (s.run (· / ·) cs).restingOrders.map OrderEntry.filledAmount = [4] ∧
      ∀ o ∈ (s.run (· / ·) cs).restingOrders, o.filledAmount = filledFor o.id (s.fills (· / ·) cs) := by
  intro s cs
  refine ⟨by decide +kernel, fun o ho => ?_⟩
  have hcs : ∀ c ∈ cs, c.Validated := by
    simp only [cs, List.forall_mem_cons]
    exact ⟨limitOrder_validated 1 2 (Or.inr rfl) (by norm_num) (by norm_num),
      limitOrder_validated 2 1 (Or.inl rfl) (by norm_num) (by norm_num),
      limitOrder_validated 3 1 (Or.inl rfl) (by norm_num) (by norm_num), by simp⟩
  exact ((fills_run (· / ·) ((BalanceCache.new.setBalance 1 "USDT" 100 0).setBalance 2 "SOL" 5 0) cs hcs
    (by decide)).2.2.2 o ho).1

end CexEngine
