import CexEngine.Proof.QueueOrder
import CexEngine.Proof.Refusals
import CexEngine.Proof.Decimals

/-!
# Time priority along runs

* `BookEvent`, `Engine.trace`: what happens to the books along a run.
* `TimePriority`: when an order is matched, the orders of its level that joined before it have
  been filled or cancelled, unless they are of the incoming order's user.
* `Engine.Recorded`: what ties the books to what happened to them.
* `run_prioritized`: **time priority holds along every run whose submits keep the queues in
  order** and whose cancels lose no order.
-/

namespace CexEngine

/-! ## What happens to the books -/

/-- What happens to the books. -/
inductive BookEvent where
  /-- An order rests, as it is then. -/
  | joined (order : OrderEntry)
  /-- An incoming order is matched. -/
  | matched (taker : OrderEntry) (m : MatchResult)
  /-- A cancel is answered with the order. -/
  | cancelled (orderId : OrderId)
  deriving DecidableEq

/-- What a command does to the books: a submit makes its matches, and may rest what is left. -/
def Engine.eventsOf [Arithmetic] (dv : Decimal → Decimal → Decimal) (s : Engine) : Command → List BookEvent
  | .submitOrder order =>
    let found := matchAndRest dv order (s.orderbook order.pair)
    if (processSubmitOrder dv s order).answer.isOk then
      found.results.map (.matched order) ++ (if found.order.rests then [found.order] else []).map .joined
    else []
  | .cancelOrder orderId userId pair =>
    if (handleCancelOrder s orderId userId pair).answer.isOk then [.cancelled orderId] else []
  | _ => []

/-- What a run does to the books. -/
def Engine.trace [Arithmetic] (dv : Decimal → Decimal → Decimal) : Engine → List Command → List BookEvent
  | _, [] => []
  | s, c :: cs => s.eventsOf dv c ++ (s.step dv c).trace dv cs

/-- The orders that joined a book. -/
def joined (log : List BookEvent) : List OrderEntry :=
  log.filterMap fun e => match e with
    | .joined order => some order
    | _ => none

/-- The amounts that resting orders with an id were matched for. -/
def matchedAmounts (id : OrderId) (log : List BookEvent) : List Decimal :=
  log.flatMap fun e => match e with
    | .matched taker m => taker.amountsFor id [m]
    | _ => []

/-- An order that joined has been filled, its matches have left nothing of it, or cancelled. -/
def OrderEntry.Done [Arithmetic] (o : OrderEntry) (log : List BookEvent) : Prop :=
  o.leftAfter (matchedAmounts o.id log) = 0 ∨ .cancelled o.id ∈ log

/-- On one side of a book, at one price. -/
def OrderEntry.SharesLevel (o o' : OrderEntry) : Prop :=
  o.pair = o'.pair ∧ o.orderType = o'.orderType ∧ o.price = o'.price

/-- A match is with an order that joined, at its price; every order of the same level and of
another user than the incoming one's that joined before it is done. -/
def TimePriority [Arithmetic] (past : List BookEvent) : BookEvent → Prop
  | .matched taker m =>
    (∃ r ∈ joined past, r.id = taker.makerId m ∧ r.price = some m.price) ∧
      ∀ r earlier later, past = earlier ++ .joined r :: later → r.id = taker.makerId m →
        ∀ r' ∈ joined earlier, r'.SharesLevel r → r'.userId ≠ taker.userId → r'.Done past
  | _ => True

/-- Every match has time priority. -/
def Prioritized [Arithmetic] (log : List BookEvent) : Prop := History.Each TimePriority log

section Log

variable {log log' : List BookEvent} {id : OrderId} {r r' : OrderEntry}

@[simp] theorem joined_append : joined (log ++ log') = joined log ++ joined log' := List.filterMap_append

@[simp] theorem joined_matches (taker : OrderEntry) (ms : List MatchResult) : joined (ms.map (.matched taker)) = [] := by
  simp [joined]

@[simp] theorem joined_map (os : List OrderEntry) : joined (os.map .joined) = os := by
  simp [joined]

@[simp] theorem matchedAmounts_append : matchedAmounts id (log ++ log') = matchedAmounts id log ++ matchedAmounts id log' :=
  List.flatMap_append

@[simp] theorem matchedAmounts_matches (taker : OrderEntry) (ms : List MatchResult) :
    matchedAmounts id (ms.map (.matched taker)) = taker.amountsFor id ms := by
  induction ms with
  | nil => rfl
  | cons m ms ih =>
    have hcons : matchedAmounts id ((m :: ms).map (.matched taker)) =
        taker.amountsFor id [m] ++ matchedAmounts id (ms.map (.matched taker)) := rfl
    rw [hcons, ih, ← OrderEntry.amountsFor_append]
    rfl

@[simp] theorem matchedAmounts_map (os : List OrderEntry) : matchedAmounts id (os.map .joined) = [] := by
  refine List.flatMap_eq_nil_iff.2 fun e he => ?_
  obtain ⟨o, -, rfl⟩ := List.mem_map.1 he
  rfl

@[simp] theorem joined_cancelled (id : OrderId) : joined [.cancelled id] = [] := rfl

@[simp] theorem matchedAmounts_cancelled (id' : OrderId) : matchedAmounts id [.cancelled id'] = [] := rfl

theorem unique_of_ids {os : List OrderEntry} (h : (os.map OrderEntry.id).Nodup) (hr : r ∈ os) (hr' : r' ∈ os)
    (he : r.id = r'.id) : r = r' :=
  List.inj_on_of_nodup_map h hr hr' he

end Log

section Recording

variable [Arithmetic] {dv : Decimal → Decimal → Decimal} {s : Engine}

/-! ## The books and what happened to them -/

/-- What happened so far explains the books: every resting order joined, and has left of it what
was not matched since; the queues are in the order in which the orders joined; and an order that
joined and no longer rests is done. -/
structure Engine.Recorded (s : Engine) (log : List BookEvent) (cs : List Command) : Prop extends
    s.WellFormed cs where
  nodup : ((joined log).map OrderEntry.id).Nodup
  coming : ∀ r ∈ joined log, r.id ∉ submittedIds cs
  priority : Prioritized log
  resting : ∀ o ∈ s.restingOrders, ∃ r ∈ joined log, r.terms = o.terms ∧
    r.leftAfter (matchedAmounts o.id log) = o.remainingAmount
  queues : s.QueuedBy (History.Precedes ((joined log).map OrderEntry.id))
  accounted : ∀ r ∈ joined log, r.id ∈ s.orderIds ∨ r.Done log

section Recorded

variable {log : List BookEvent} {cs : List Command}

theorem Engine.Recorded.ids_nodup (h : s.Recorded log cs) : (s.restingOrders.map OrderEntry.id).Nodup := by
  rw [← Multiset.coe_nodup, coe_restingOrders]
  exact h.freshIds.nodup

/-- A resting order's id is the one it joined with. -/
theorem Engine.Recorded.joined_of_resting (h : s.Recorded log cs) {o r : OrderEntry} (ho : o ∈ s.restingOrders)
    (hr : r ∈ joined log) (he : r.id = o.id) :
    r.terms = o.terms ∧ r.leftAfter (matchedAmounts o.id log) = o.remainingAmount := by
  obtain ⟨r', hr', hterms, hleft⟩ := h.resting o ho
  obtain rfl := unique_of_ids h.nodup hr hr' (he.trans (OrderEntry.terms_eq hterms).1.symm)
  exact ⟨hterms, hleft⟩

/-- An order that never joined was matched with none as the resting one. -/
theorem Engine.Recorded.matchedAmounts_eq_nil (h : s.Recorded log cs) {id : OrderId}
    (hid : id ∉ (joined log).map OrderEntry.id) : matchedAmounts id log = [] := by
  refine List.flatMap_eq_nil_iff.2 fun e he => ?_
  cases e with
  | matched taker m =>
    obtain ⟨past, future, hlog⟩ := List.append_of_mem he
    obtain ⟨⟨r, hr, hmaker, -⟩, -⟩ := h.priority past _ future hlog
    have hne : taker.makerId m ≠ id := fun hc => hid (by
      rw [← hc, ← hmaker, hlog, joined_append, List.map_append]
      exact List.mem_append_left _ (List.mem_map_of_mem hr))
    change (([m].filter fun m => taker.makerId m = id).map MatchResult.amount) = []
    rw [List.filter_cons_of_neg (by simpa using hne)]
    rfl
  | joined order => rfl
  | cancelled orderId => rfl

/-- The ids of a side are distinct. -/
theorem Engine.Recorded.side_ids (h : s.Recorded log cs) (pair : TradingPair) (buys : Bool) :
    (((s.orderbook pair).side buys).stock.map fun x => x.2.id).Nodup := by
  have hle : ((s.orderbook pair).side buys).total (fun o => ({o.id} : Multiset OrderId)) ≤ s.orderIds :=
    s.side_total_le (fun _ _ _ _ => Multiset.zero_le _) pair buys
  refine Multiset.nodup_of_le ?_ h.freshIds.nodup
  rw [← Multiset.sum_map_singleton (Multiset.map _ _), Multiset.map_map]
  exact hle

/-- An order elsewhere has another id than those of a side. -/
theorem Engine.Recorded.ids_apart (h : s.Recorded log cs) {pair pair' : TradingPair} {buys buys' : Bool}
    {x y : Decimal × OrderEntry}
    (hx : x ∈ ((s.orderbook pair).side buys).stock) (hy : y ∈ ((s.orderbook pair').side buys').stock)
    (hid : x.2.id = y.2.id) : pair = pair' ∧ buys = buys' := by
  have hsame : x.2 = y.2 := unique_of_ids h.ids_nodup (mem_engine_restingOrders.2 ⟨_, _, _, hx⟩)
    (mem_engine_restingOrders.2 ⟨_, _, _, hy⟩) hid
  have hrx := h.placed pair buys x hx
  have hry := h.placed pair' buys' y hy
  refine ⟨hrx.pair.symm.trans ((congrArg OrderEntry.pair hsame).trans hry.pair), ?_⟩
  have htypes : sideType buys = sideType buys' := hrx.type.symm.trans ((congrArg OrderEntry.orderType hsame).trans hry.type)
  revert htypes
  cases buys <;> cases buys' <;> simp [sideType]

end Recorded

/-! ## Submits -/

/-- What joins the book when an order is submitted. -/
def OrderEntry.joins (dv : Decimal → Decimal → Decimal) (s : Engine) (order : OrderEntry) : List OrderEntry :=
  if (order.matching dv (s.orderbook order.pair)).incoming.rests then
    [(order.matching dv (s.orderbook order.pair)).incoming] else []

section Submit

variable {order : OrderEntry} {log : List BookEvent} {cs : List Command} {cache : BalanceCache} {book : OrderBook}
  {settled : BalanceCache × List (MatchResult × Except EngineError (List DbCommand))}
  {counted : List MatchResult} {released : BalanceCache × Option (Except EngineError Unit)}
  (hk : order.Kind) (h : s.Recorded log (.submitOrder order :: cs))
  (hg : Granted dv s order cache book settled counted released)
  (hkeeps : order.KeepsOrder dv (s.orderbook order.pair))

include hk hg in
theorem eventsOf_granted : s.eventsOf dv (.submitOrder order) =
    (order.matching dv (s.orderbook order.pair)).results.map (.matched order) ++ (order.joins dv s).map .joined := by
  obtain ⟨horder, hresults, -⟩ := matchAndRest_spec dv hk (s.orderbook order.pair)
  have hok : (processSubmitOrder dv s order).answer.isOk = true := by rw [hg.answer]; rfl
  simp only [Engine.eventsOf, hok, if_true, horder, hresults, OrderEntry.joins]

theorem joins_id {o : OrderEntry} (ho : o ∈ order.joins dv s) : o.id = order.id := by
  unfold OrderEntry.joins at ho
  split_ifs at ho
  · rw [List.mem_singleton.1 ho]
    exact (OrderEntry.terms_eq (matchAgainst_terms _ _ _)).1
  · exact absurd ho List.not_mem_nil

include hk hg in
/-- The ids after a submit are the ones before it, and the order's if it rests. -/
theorem submit_ids : (((processSubmitOrder dv s order).engine.restingOrders ++
      (order.matching dv (s.orderbook order.pair)).dropped).map OrderEntry.id).Perm
    ((s.restingOrders ++ order.joins dv s).map OrderEntry.id) := by
  have htotal := total_submit hk hg (P := fun _ _ => True) (fun _ _ _ _ _ _ => trivial) (fun _ _ => trivial)
    (w := fun o => ({o.id} : Multiset OrderId)) (g := fun _ => 0) (fun _ => by simp [OrderEntry.fill])
  have hcoe : ∀ os : List OrderEntry, (os.map fun o => ({o.id} : Multiset OrderId)).sum =
      (os.map OrderEntry.id : List OrderId) := by
    intro os
    rw [← Multiset.sum_map_singleton (os.map OrderEntry.id : Multiset OrderId), Multiset.map_coe, Multiset.sum_coe,
      List.map_map]
    rfl
  have hzero : ((order.matching dv (s.orderbook order.pair)).results.map fun _ => (0 : Multiset OrderId)).sum = 0 :=
    List.sum_eq_zero fun x hx => by
      obtain ⟨m, -, rfl⟩ := List.mem_map.1 hx
      rfl
  rw [total_eq_sum, total_eq_sum, hzero, add_zero, hcoe, hcoe, hcoe] at htotal
  rw [← Multiset.coe_eq_coe, List.map_append, List.map_append, ← Multiset.coe_add, ← Multiset.coe_add, htotal]
  unfold OrderEntry.joins
  split_ifs <;> rfl

include h

/-- The submitted id has not been seen. -/
theorem submit_fresh : order.id ∉ (joined log).map OrderEntry.id ∧ order.id ∉ s.restingOrders.map OrderEntry.id ∧
    order.id ∉ submittedIds cs := by
  have hcoming : submittedIds (.submitOrder order :: cs) = order.id :: submittedIds cs := rfl
  have hnodup := h.freshIds.coming
  rw [hcoming] at hnodup
  refine ⟨fun hid => ?_, fun hid => ?_, (List.nodup_cons.1 hnodup).1⟩
  · obtain ⟨r, hr, he⟩ := List.mem_map.1 hid
    exact h.coming r hr (by rw [hcoming, he]; exact List.mem_cons_self)
  · obtain ⟨o, ho, he⟩ := List.mem_map.1 hid
    refine h.freshIds.fresh order.id (mem_orderIds.2 ⟨o, ho, he⟩) ?_
    rw [hcoming]
    exact List.mem_cons_self

variable (dv) in
omit h in
/-- A submit matches nothing for an id that does not rest. -/
theorem submit_amountsFor {id : OrderId} (hid : id ∉ s.restingOrders.map OrderEntry.id) :
    order.amountsFor id (order.matching dv (s.orderbook order.pair)).results = [] := by
  obtain ⟨others, hmeets⟩ := matching_meets dv order (s.orderbook order.pair)
  refine hmeets.amountsFor_other fun x hx he => hid ?_
  rw [← he]
  exact List.mem_map_of_mem (mem_engine_restingOrders.2 ⟨_, _, _, hx⟩)

include hk hg in
/-- What a submit leaves of an order that rested, or joins, is what its matches leave of it. -/
theorem submit_left {o : OrderEntry} (ho : o ∈ (processSubmitOrder dv s order).engine.restingOrders ++
      (order.matching dv (s.orderbook order.pair)).dropped) :
    ∃ o₁ ∈ s.restingOrders ++ order.joins dv s, o₁.terms = o.terms ∧
      o₁.leftAfter (order.amountsFor o.id (order.matching dv (s.orderbook order.pair)).results) = o.remainingAmount := by
  obtain ⟨others, hmeets⟩ := matching_meets dv order (s.orderbook order.pair)
  have hscanned : (∃ x ∈ (order.matching dv (s.orderbook order.pair)).side.stock, x.2 = o) ∨
      o ∈ (order.matching dv (s.orderbook order.pair)).dropped → _ := fun hin =>
    have ⟨x, hx, hterms, hleft⟩ := hmeets.left (h.side_ids _ _) hin
    (⟨x.2, List.mem_append_left _ (mem_engine_restingOrders.2 ⟨_, _, _, hx⟩), hterms, hleft⟩ :
      ∃ o₁ ∈ s.restingOrders ++ order.joins dv s, o₁.terms = o.terms ∧
        o₁.leftAfter (order.amountsFor o.id (order.matching dv (s.orderbook order.pair)).results) = o.remainingAmount)
  rcases List.mem_append.1 ho with ho | ho
  swap
  · exact hscanned (Or.inr ho)
  obtain ⟨pair, buys, price, hx⟩ := mem_engine_restingOrders.1 ho
  -- an order of another side is not matched
  have hkept : (price, o) ∈ ((s.orderbook pair).side buys).stock →
      ¬ (pair = order.pair ∧ buys = (order.rule dv).scansBuys) →
      ∃ o₁ ∈ s.restingOrders ++ order.joins dv s, o₁.terms = o.terms ∧
        o₁.leftAfter (order.amountsFor o.id (order.matching dv (s.orderbook order.pair)).results) = o.remainingAmount := by
    intro hx hother
    refine ⟨o, List.mem_append_left _ (mem_engine_restingOrders.2 ⟨_, _, _, hx⟩), rfl, ?_⟩
    rw [hmeets.amountsFor_other fun y hy hid => hother (h.ids_apart hx hy hid.symm)]
    rfl
  cases hg.after hk pair buys with
  | scanned _ _ eq =>
    rw [eq] at hx
    exact hscanned (Or.inl ⟨_, hx, rfl⟩)
  | joined p hpair hbuys left rests eq =>
    rw [eq, OrderBookSide.stock_addOrder rests.price] at hx
    rcases Multiset.mem_cons.1 hx with hjoin | hx
    · obtain ⟨-, rfl⟩ := Prod.mk.inj hjoin
      have hid : (order.matching dv (s.orderbook order.pair)).incoming.id = order.id :=
        (OrderEntry.terms_eq (matchAgainst_terms _ _ _)).1
      refine ⟨_, List.mem_append_right _ ?_, rfl, ?_⟩
      · rw [OrderEntry.joins, if_pos left]
        exact List.mem_singleton_self _
      · rw [hid, submit_amountsFor dv (submit_fresh h).2.1]
        rfl
    · subst hpair hbuys
      refine hkept hx fun hsame => ?_
      rw [rule_scansBuys] at hsame
      exact absurd hsame.2 (by cases order.isBuy <;> simp)
  | kept other eq =>
    rw [eq] at hx
    exact hkept hx other

variable (dv) in
/-- The order that rests joined as it is. -/
theorem submit_joined : ((joined log ++ order.joins dv s).map OrderEntry.id).Nodup ∧
    (∀ r ∈ joined log ++ order.joins dv s, r.id ∉ submittedIds cs) ∧
    ∀ o ∈ s.restingOrders ++ order.joins dv s, ∃ r ∈ joined log ++ order.joins dv s,
      r.terms = o.terms ∧ r.leftAfter (matchedAmounts o.id log) = o.remainingAmount := by
  obtain ⟨hfresh, -, hcoming⟩ := submit_fresh h
  refine ⟨?_, fun r hr => ?_, fun o ho => ?_⟩
  · rw [List.map_append, List.nodup_append]
    refine ⟨h.nodup, ?_, ?_⟩
    · unfold OrderEntry.joins
      split_ifs <;> simp
    · rintro a ha b hb rfl
      obtain ⟨o', ho', rfl⟩ := List.mem_map.1 hb
      rw [joins_id ho'] at ha
      exact hfresh ha
  · rcases List.mem_append.1 hr with hr | hr
    · exact fun hid => h.coming r hr (List.mem_cons_of_mem _ hid)
    · rwa [joins_id hr]
  · rcases List.mem_append.1 ho with ho | ho
    · obtain ⟨r, hr, hterms, hleft⟩ := h.resting o ho
      exact ⟨r, List.mem_append_left _ hr, hterms, hleft⟩
    · refine ⟨o, List.mem_append_right _ ho, rfl, ?_⟩
      rw [joins_id ho, h.matchedAmounts_eq_nil hfresh]
      rfl

include hkeeps in
/-- **The matches of a submit have time priority**, if the queues are in the order in which their
orders joined. -/
theorem submit_match_priority {ms ms' : List MatchResult} {m : MatchResult}
    (hms : (order.matching dv (s.orderbook order.pair)).results = ms ++ m :: ms') :
    TimePriority (log ++ ms.map (.matched order)) (.matched order m) := by
  obtain ⟨others, hmeets⟩ := matching_meets dv order (s.orderbook order.pair)
  have hremaining : ∀ x ∈ ((s.orderbook order.pair).side (order.rule dv).scansBuys).stock, 0 ≤ x.2.remainingAmount :=
    fun x hx => (h.placed _ _ x hx).remaining_pos.le
  obtain ⟨before, x, after, hforeign, hmaker, hprice, hused⟩ :=
    hmeets.priority hremaining hkeeps (h.side_ids _ _) hms
  set buys := (order.rule dv).scansBuys
  have hxmem : x ∈ (((s.orderbook order.pair).side buys).quotes buys).filter fun x => order.userId ≠ x.2.userId := by
    rw [hforeign]
    exact List.mem_append_right _ List.mem_cons_self
  have hxstock : x ∈ ((s.orderbook order.pair).side buys).stock := by
    rw [← OrderBookSide.coe_quotes _ buys]
    exact Multiset.mem_coe.2 (List.mem_of_mem_filter hxmem)
  have hxrests := h.placed _ _ x hxstock
  obtain ⟨rx, hrx, hterms, -⟩ := h.resting x.2 (mem_engine_restingOrders.2 ⟨_, _, _, hxstock⟩)
  obtain ⟨hid, -, htype, -, hpair, hxprice⟩ := OrderEntry.terms_eq hterms
  refine ⟨⟨rx, by simpa using hrx, hid.trans hmaker.symm, hxprice.trans (hxrests.price.trans (by rw [hprice]))⟩, ?_⟩
  intro r earlier later hsplit hr r' hr' hlevel huser
  have hjoined : joined log = joined earlier ++ r :: joined later := by
    have := congrArg joined hsplit
    rwa [joined_append, joined_matches, List.append_nil, joined_append] at this
  obtain rfl : r = rx := unique_of_ids h.nodup (by rw [hjoined]; simp) hrx (hr.trans (hmaker.trans hid.symm))
  have hr'log : r' ∈ joined log := by
    rw [hjoined]
    exact List.mem_append_left _ hr'
  have hbefore : History.Precedes ((joined log).map OrderEntry.id) r'.id r.id := by
    rw [hjoined, List.map_append, List.map_cons]
    exact History.precedes_of_mem (List.mem_map_of_mem hr') _
  rw [OrderEntry.Done, matchedAmounts_append, matchedAmounts_matches]
  by_cases hrest : r'.id ∈ s.restingOrders.map OrderEntry.id
  swap
  · -- it does not rest, and was done before
    have hnone : order.amountsFor r'.id (order.matching dv (s.orderbook order.pair)).results = [] :=
      submit_amountsFor dv hrest
    rw [hms, OrderEntry.amountsFor_append, List.append_eq_nil_iff] at hnone
    rw [hnone.1, List.append_nil]
    rcases h.accounted r' hr'log with hid' | hdone | hcancelled
    · obtain ⟨o, ho, he⟩ := mem_orderIds.1 hid'
      exact absurd (List.mem_map.2 ⟨o, ho, he⟩) hrest
    · exact Or.inl hdone
    · exact Or.inr (List.mem_append_left _ hcancelled)
  obtain ⟨o, ho, he⟩ := List.mem_map.1 hrest
  obtain ⟨hterms', hleft⟩ := h.joined_of_resting ho hr'log he.symm
  obtain ⟨-, huser', htype', -, hpair', hoprice⟩ := OrderEntry.terms_eq hterms'
  -- it is one of the other users' orders, at the price of the match
  have hoffer : (x.1, o) ∈ before ++ x :: after := by
    obtain ⟨pair, buys', p, hp⟩ := mem_engine_restingOrders.1 ho
    have hR := h.placed pair buys' _ hp
    obtain rfl : p = x.1 := Option.some.inj (hR.price.symm.trans
      (hoprice.symm.trans (hlevel.2.2.trans (hxprice.trans hxrests.price))))
    obtain rfl : pair = order.pair := hR.pair.symm.trans (hpair'.symm.trans (hlevel.1.trans (hpair.trans hxrests.pair)))
    obtain rfl : buys' = buys := by
      have hsides : sideType buys' = sideType buys :=
        hR.type.symm.trans (htype'.symm.trans (hlevel.2.1.trans (htype.trans hxrests.type)))
      revert hsides
      cases buys' <;> cases buys <;> simp [sideType]
    rw [← hforeign]
    refine List.mem_filter.2 ⟨?_, decide_eq_true fun hu => huser (huser'.trans hu.symm)⟩
    rw [← OrderBookSide.coe_quotes _ buys] at hp
    exact Multiset.mem_coe.1 hp
  have hqueue := ((h.queues order.pair buys).quotes buys).sublist
    (List.filter_sublist (p := fun x => decide (order.userId ≠ x.2.userId)))
  rw [hforeign, List.pairwise_append, List.pairwise_cons] at hqueue
  rcases List.mem_append.1 hoffer with hin | hin
  · left
    rw [OrderEntry.leftAfter_append, ← he, hleft]
    exact hused _ hin
  · refine absurd ?_ (hbefore.asymm h.nodup)
    rcases List.mem_cons.1 hin with hsame | hafter
    · have hsame' : r'.id = r.id := he.symm.trans ((congrArg (fun y => y.2.id) hsame).trans hid.symm)
      rwa [hsame'] at hbefore ⊢
    · rw [hid, ← he]
      exact hqueue.2.1.1 (x.1, o) hafter rfl

include hk hg hkeeps in
theorem submit_prioritized : Prioritized (log ++ s.eventsOf dv (.submitOrder order)) := by
  rw [eventsOf_granted hk hg, Prioritized, History.each_append, History.each_append]
  refine ⟨h.priority, fun past e future hsplit => ?_, fun past e future hsplit => ?_⟩
  · obtain ⟨ms, rest, hms, rfl, hrest⟩ := List.map_eq_append_iff.1 hsplit
    obtain ⟨m, ms', rfl, rfl, -⟩ := List.map_eq_cons_iff.1 hrest
    exact submit_match_priority h hkeeps hms
  · have he : e ∈ (order.joins dv s).map .joined := by
      rw [hsplit]
      simp
    obtain ⟨o, -, rfl⟩ := List.mem_map.1 he
    trivial

omit h in
include hk hg in
/-- What a submit adds to what joined. -/
theorem joined_submit : joined (log ++ s.eventsOf dv (.submitOrder order)) = joined log ++ order.joins dv s := by
  rw [eventsOf_granted hk hg]
  simp

omit h in
include hk hg in
theorem matchedAmounts_submit (id : OrderId) : matchedAmounts id (log ++ s.eventsOf dv (.submitOrder order)) =
    matchedAmounts id log ++ order.amountsFor id (order.matching dv (s.orderbook order.pair)).results := by
  rw [eventsOf_granted hk hg]
  simp

include hk hg

/-- What is left of an order after a submit, of what it joined with. -/
theorem submit_rejoined {o : OrderEntry} (ho : o ∈ (processSubmitOrder dv s order).engine.restingOrders ++
      (order.matching dv (s.orderbook order.pair)).dropped) :
    ∃ r ∈ joined log ++ order.joins dv s, r.terms = o.terms ∧
      r.leftAfter (matchedAmounts o.id (log ++ s.eventsOf dv (.submitOrder order))) = o.remainingAmount := by
  obtain ⟨o₁, ho₁, hterms, hleft⟩ := submit_left hk h hg ho
  obtain ⟨r, hr, hterms', hleft'⟩ := (submit_joined dv h).2.2 o₁ ho₁
  refine ⟨r, hr, hterms'.trans hterms, ?_⟩
  rw [(OrderEntry.terms_eq hterms).1] at hleft'
  rw [matchedAmounts_submit hk hg, OrderEntry.leftAfter_append, hleft']
  exact hleft

include hkeeps

/-- An order that joined and does not rest after a submit is done. -/
theorem submit_accounted {r : OrderEntry} (hr : r ∈ joined log ++ order.joins dv s) :
    r.id ∈ (processSubmitOrder dv s order).engine.orderIds ∨
      r.Done (log ++ s.eventsOf dv (.submitOrder order)) := by
  obtain ⟨others, hmeets⟩ := matching_meets dv order (s.orderbook order.pair)
  have hnodup := (submit_joined dv h).1
  by_cases hold : r.id ∈ (s.restingOrders ++ order.joins dv s).map OrderEntry.id
  · obtain ⟨o, ho, he⟩ := List.mem_map.1 ((submit_ids hk hg).mem_iff.2 hold)
    rcases List.mem_append.1 ho with hnew | hdropped
    · exact Or.inl (mem_orderIds.2 ⟨o, hnew, he⟩)
    · -- an order that is taken off is filled
      obtain ⟨r', hr', hterms, hleft⟩ := submit_rejoined hk h hg ho
      obtain rfl := unique_of_ids hnodup hr hr' (he.symm.trans (OrderEntry.terms_eq hterms).1.symm)
      have hzero := hmeets.dropped_filled (fun x hx => (h.placed _ _ x hx).remaining_pos.le) hkeeps hdropped
      rw [he, hzero] at hleft
      exact Or.inr (Or.inl hleft)
  · -- it did not rest before either, and was done then
    rw [List.map_append, List.mem_append, not_or] at hold
    rw [OrderEntry.Done, matchedAmounts_submit hk hg, submit_amountsFor dv hold.1, List.append_nil]
    rcases List.mem_append.1 hr with hr | hr
    · rcases h.accounted r hr with hid | hdone | hcancelled
      · obtain ⟨o, ho, he⟩ := mem_orderIds.1 hid
        exact absurd (List.mem_map.2 ⟨o, ho, he⟩) hold.1
      · exact Or.inr (Or.inl hdone)
      · exact Or.inr (Or.inr (List.mem_append_left _ hcancelled))
    · exact absurd (List.mem_map_of_mem hr) hold.2

/-- **After a submit that keeps the order**, what happened still explains the books, and
every match has had time priority. -/
theorem recorded_submit :
    (processSubmitOrder dv s order).engine.Recorded (log ++ s.eventsOf dv (.submitOrder order)) cs := by
  have hjoined : joined (log ++ s.eventsOf dv (.submitOrder order)) = joined log ++ order.joins dv s :=
    joined_submit hk hg
  obtain ⟨hnodup, hcoming, -⟩ := submit_joined dv h
  have hwellFormed : (s.step dv (.submitOrder order)).WellFormed cs := wellFormed_step h.toWellFormed
  refine ⟨hwellFormed, ?_, ?_, submit_prioritized hk h hg hkeeps, ?_, ?_, ?_⟩
  · rwa [hjoined]
  · rwa [hjoined]
  · rw [hjoined]
    exact fun o ho => submit_rejoined hk h hg (List.mem_append_left _ ho)
  · rw [hjoined, List.map_append]
    refine queuedBy_submit hk hg hkeeps (h.queues.mono fun he => he.append _) fun hr o ho => ?_
    -- the order that joins comes after all that rest
    obtain ⟨r, hr', hterms, -⟩ := h.resting o ho
    have hid : (order.matching dv (s.orderbook order.pair)).incoming.id = order.id :=
      (OrderEntry.terms_eq (matchAgainst_terms _ _ _)).1
    rw [OrderEntry.joins, if_pos hr, List.map_singleton, hid, ← (OrderEntry.terms_eq hterms).1]
    exact History.precedes_concat (List.mem_map_of_mem hr') _
  · rw [hjoined]
    exact fun r hr => submit_accounted hk h hg hkeeps hr

end Submit

/-! ## Runs -/

omit [Arithmetic] in
theorem not_mem_submittedIds {id : OrderId} {c : Command} {cs : List Command} (h : id ∉ submittedIds (c :: cs)) :
    id ∉ submittedIds cs := by
  intro hid
  obtain ⟨c', hc', he⟩ := List.mem_filterMap.1 hid
  exact h (List.mem_filterMap.2 ⟨c', List.mem_cons_of_mem _ hc', he⟩)

section Step

variable {log : List BookEvent} {cs : List Command}

/-- A command that touches no book. -/
theorem recorded_quiet {c : Command} (h : s.Recorded log (c :: cs)) (hbooks : (s.step dv c).orderbooks = s.orderbooks)
    (hevents : s.eventsOf dv c = []) : (s.step dv c).Recorded (log ++ s.eventsOf dv c) cs := by
  have hresting : (s.step dv c).restingOrders = s.restingOrders := by
    unfold Engine.restingOrders
    rw [hbooks]
  have hids : (s.step dv c).orderIds = s.orderIds := Engine.total_congr hbooks _
  rw [hevents, List.append_nil]
  refine ⟨wellFormed_step h.toWellFormed, h.nodup, fun r hr => not_mem_submittedIds (h.coming r hr), h.priority, ?_, ?_, ?_⟩
  · rw [hresting]
    exact h.resting
  · intro pair buys
    rw [Engine.orderbook, hbooks]
    exact h.queues pair buys
  · rw [hids]
    exact h.accounted

/-- What rests after a cancel rested before. -/
theorem restingOrders_cancel (orderId : OrderId) (userId : UserId) (pair : TradingPair) :
    ∀ o ∈ (handleCancelOrder s orderId userId pair).engine.restingOrders, o ∈ s.restingOrders := by
  intro o ho
  obtain ⟨pair', buys, p, hp⟩ := mem_engine_restingOrders.1 ho
  exact allOrders_cancel orderId userId pair (P := fun _ _ _ o => o ∈ s.restingOrders)
    (fun pair' buys x hx => mem_engine_restingOrders.2 ⟨pair', buys, x.1, hx⟩) pair' buys _ hp

theorem recorded_cancel {orderId : OrderId} {userId : UserId} {pair : TradingPair}
    (h : s.Recorded log (.cancelOrder orderId userId pair :: cs))
    (hkeeps : ¬ (Command.cancelOrder orderId userId pair).LosesOrder s) :
    (s.step dv (.cancelOrder orderId userId pair)).Recorded
      (log ++ s.eventsOf dv (.cancelOrder orderId userId pair)) cs := by
  rcases handleCancelOrder_cases s orderId userId pair with hn | ⟨book, buys, price, order, unlocked, hfound, ht⟩
  · refine recorded_quiet h ?_ ?_
    · change (handleCancelOrder s orderId userId pair).engine.orderbooks = _
      rw [hn.engine]
    · rw [Engine.eventsOf, hn.answer]
      rfl
  have hok : unlocked.2.isOk = true := by
    by_contra herr
    exact hkeeps ⟨book, buys, price, order, hfound, ht.owner, ht.unlock_err.1 (by simpa using herr)⟩
  have hevents : s.eventsOf dv (.cancelOrder orderId userId pair) = [.cancelled orderId] := by
    rw [Engine.eventsOf, ht.ok hok]
    rfl
  have hjoined : joined (log ++ [.cancelled orderId]) = joined log := by simp
  have hmatched : ∀ id, matchedAmounts id (log ++ [.cancelled orderId]) = matchedAmounts id log := by simp
  have hids := total_cancel ht fun o => ({o.id} : Multiset OrderId)
  rw [hevents]
  refine ⟨wellFormed_step h.toWellFormed, ?_, ?_, ?_, fun o ho => ?_, ?_, fun r hr => ?_⟩
  · rw [hjoined]
    exact h.nodup
  · rw [hjoined]
    exact fun r hr => not_mem_submittedIds (h.coming r hr)
  · rw [Prioritized, History.each_append]
    exact ⟨h.priority, History.each_cons.2 ⟨trivial, History.each_nil⟩⟩
  · rw [hjoined, hmatched]
    exact h.resting o (restingOrders_cancel orderId userId pair o ho)
  · rw [hjoined]
    exact queuedBy_cancel h.queues
  · rw [hjoined] at hr
    rw [OrderEntry.Done, hmatched]
    rcases h.accounted r hr with hid | hdone | hcancelled
    · rw [Engine.orderIds, ← hids, Multiset.mem_add, Multiset.mem_singleton] at hid
      rcases hid with hid | hid
      · exact Or.inl hid
      · rw [OrderBookSide.locate_id ht.located] at hid
        rw [hid]
        exact Or.inr (Or.inr (by simp))
    · exact Or.inr (Or.inl hdone)
    · exact Or.inr (Or.inr (List.mem_append_left _ hcancelled))

end Step

/-- A submit that is granted keeps the order of the queues, and a cancel does not lose its order. -/
def Command.KeepsOrder (dv : Decimal → Decimal → Decimal) (s : Engine) : Command → Prop
  | .submitOrder order =>
    order.lock.2 ≤ s.balanceCache.available order.userId order.lock.1 → order.KeepsOrder dv (s.orderbook order.pair)
  | .cancelOrder orderId userId pair => ¬ (Command.cancelOrder orderId userId pair).LosesOrder s
  | _ => True

/-- **A command that keeps the order** is explained by what it does. -/
theorem recorded_step {c : Command} {log : List BookEvent} {cs : List Command}
    (hkeeps : c.KeepsOrder dv s) (h : s.Recorded log (c :: cs)) : (s.step dv c).Recorded (log ++ s.eventsOf dv c) cs := by
  cases c with
  | submitOrder order =>
    have hk := validated_kind (h.orders _ List.mem_cons_self)
    rcases processSubmitOrder_cases dv s hk with hr | ⟨cache, book, settled, counted, released, hg⟩
    · refine recorded_quiet h hr.orderbooks ?_
      rw [Engine.eventsOf, hr.answer]
      rfl
    · exact recorded_submit hk h hg (hkeeps hg.funds)
  | cancelOrder orderId userId pair => exact recorded_cancel h hkeeps
  | _ => exact recorded_quiet h rfl rfl

theorem recorded_start (cache : BalanceCache) {cs : List Command} (hcs : ∀ c ∈ cs, c.Validated)
    (hids : (submittedIds cs).Nodup) : (Engine.start cache).Recorded [] cs :=
  ⟨wellFormed_start cache hcs hids, List.nodup_nil, fun _ hr => absurd hr List.not_mem_nil, History.each_nil,
    fun _ ho => absurd ho List.not_mem_nil, Engine.queuedBy_start cache, fun _ hr => absurd hr List.not_mem_nil⟩

/-- A run of such commands is explained by what it does. -/
theorem recorded_run : ∀ (cs : List Command) (s : Engine) (log : List BookEvent), s.Recorded log cs →
    (∀ done c more, cs = done ++ c :: more → c.KeepsOrder dv (s.run dv done)) →
    (s.run dv cs).Recorded (log ++ s.trace dv cs) [] := by
  intro cs
  induction cs with
  | nil =>
    intro s log h _
    rw [Engine.trace, List.append_nil]
    exact h
  | cons c cs ih =>
    intro s log h hkeeps
    obtain ⟨hc, hcs⟩ := each_step_cons.1 hkeeps
    rw [Engine.trace, ← List.append_assoc]
    exact ih _ _ (recorded_step hc h) hcs

end Recording

/-- **Time priority holds along every run** whose submits keep the order of the queues and whose
cancels lose no order. -/
theorem run_prioritized [Arithmetic] (dv : Decimal → Decimal → Decimal) (cache : BalanceCache) (cs : List Command)
    (hcs : ∀ c ∈ cs, c.Orders) (hids : (submittedIds cs).Nodup)
    (hkeeps : ∀ done c more, cs = done ++ c :: more → c.KeepsOrder dv ((Engine.start cache).run dv done)) :
    Prioritized ((Engine.start cache).trace dv cs) :=
  (recorded_run cs (Engine.start cache) [] (recorded_start cache (fun c hc => (hcs c hc).validated) hids) hkeeps).priority

/-- Buys of two users from two asks at one price. -/
theorem run_prioritized_buy :
    Prioritized ((Engine.start (((BalanceCache.new.setBalance 1 "SOL" 5 0).setBalance 2 "SOL" 5 0).setBalance 3 "USDT"
      100 0)).trace decimalDiv [.submitOrder (limitOrder 1 1 .sell 10 5), .submitOrder (limitOrder 2 2 .sell 10 5),
        .submitOrder (limitOrder 3 3 .buy 10 7)]) := by
  refine run_prioritized decimalDiv
    (((BalanceCache.new.setBalance 1 "SOL" 5 0).setBalance 2 "SOL" 5 0).setBalance 3 "USDT" 100 0)
    [.submitOrder (limitOrder 1 1 .sell 10 5), .submitOrder (limitOrder 2 2 .sell 10 5),
      .submitOrder (limitOrder 3 3 .buy 10 7)] ?_ (by decide) (each_step_cons.2 ⟨fun _ => ?_,
        each_step_cons.2 ⟨fun _ => ?_, each_step_cons.2 ⟨fun _ => ?_, History.each_nil⟩⟩⟩)
  · simp only [List.forall_mem_cons]
    exact ⟨limitOrder_validated 1 1 (Or.inr rfl) (by norm_num) (by norm_num),
      limitOrder_validated 2 2 (Or.inr rfl) (by norm_num) (by norm_num),
      limitOrder_validated 3 3 (Or.inl rfl) (by norm_num) (by norm_num), by simp⟩
  · decide +kernel
  · decide +kernel
  · decide +kernel

instance (o : OrderEntry) (log : List BookEvent) : Decidable (o.Done log) := inferInstanceAs (Decidable (_ ∨ _))

/-- The owner of the first of two asks at one price buys from the second: its own ask goes to the
end of the queue, and the next buy of another user is matched with the second ask once more. -/
theorem run_not_prioritized :
    ¬ ∀ (dv : Decimal → Decimal → Decimal) (cache : BalanceCache) (cs : List Command), RoundsToDecimal dv →
      (∀ c ∈ cs, c.Orders) → (submittedIds cs).Nodup → Prioritized ((Engine.start cache).trace dv cs) := by
  intro hall
  have h := hall decimalDiv
    ((((BalanceCache.new.setBalance 1 "SOL" 5 0).setBalance 1 "USDT" 100 0).setBalance 2 "SOL" 5 0).setBalance 3 "USDT"
      100 0)
    [.submitOrder (limitOrder 1 1 .sell 10 5), .submitOrder (limitOrder 2 2 .sell 10 5),
      .submitOrder (limitOrder 3 1 .buy 10 2), .submitOrder (limitOrder 4 3 .buy 10 1)] decimalDiv_roundsToDecimal (by
      simp only [List.forall_mem_cons]
      exact ⟨limitOrder_validated 1 1 (Or.inr rfl) (by norm_num) (by norm_num),
        limitOrder_validated 2 2 (Or.inr rfl) (by norm_num) (by norm_num),
        limitOrder_validated 3 1 (Or.inl rfl) (by norm_num) (by norm_num),
        limitOrder_validated 4 3 (Or.inl rfl) (by norm_num) (by norm_num), by simp⟩) (by decide)
  have hdone := (h [.joined (limitOrder 1 1 .sell 10 5), .joined (limitOrder 2 2 .sell 10 5),
      .matched (limitOrder 3 1 .buy 10 2) ⟨3, 2, 1, 2, 10, 2, "SOL", "USDT"⟩]
    (.matched (limitOrder 4 3 .buy 10 1) ⟨4, 2, 3, 2, 10, 1, "SOL", "USDT"⟩) [] (by decide +kernel)).2
    (limitOrder 2 2 .sell 10 5) [.joined (limitOrder 1 1 .sell 10 5)]
    [.matched (limitOrder 3 1 .buy 10 2) ⟨3, 2, 1, 2, 10, 2, "SOL", "USDT"⟩] rfl rfl (limitOrder 1 1 .sell 10 5)
    (by decide +kernel) ⟨rfl, rfl, rfl⟩ (by decide)
  revert hdone
  decide +kernel

end CexEngine
