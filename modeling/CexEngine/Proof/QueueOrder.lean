import CexEngine.Proof.BookInvariant
import CexEngine.Proof.Remains

/-!
# Submits that keep the order of the queues

* `OrderBookSide.QueuedBy`: a relation that holds along every queue.
* `OrderEntry.KeepsOrder`: submitting an order against a book does not disturb its queues.
* `matching_keeps_order`: then only filled orders are taken off, and the queues stay as they were.
* `Meets.priority`: **when a submit makes a match, what is ahead of the order it is with has been
  used up.**
-/

namespace CexEngine

/-! ## Queues -/

/-- `E` holds along the ids of every queue. -/
def OrderBookSide.QueuedBy (side : OrderBookSide) (E : OrderId → OrderId → Prop) : Prop :=
  ∀ l ∈ side.orders.entries, (l.2.map OrderEntry.id).Pairwise E

/-- Along every queue of every book. -/
def Engine.QueuedBy (s : Engine) (E : OrderId → OrderId → Prop) : Prop :=
  ∀ pair buys, ((s.orderbook pair).side buys).QueuedBy E

section Queues

variable {side : OrderBookSide} {E E' : OrderId → OrderId → Prop}

theorem Engine.QueuedBy.mono {s : Engine} (h : s.QueuedBy E) (hE : ∀ {a b}, E a b → E' a b) : s.QueuedBy E' :=
  fun pair buys l hl => (h pair buys l hl).imp hE

theorem Engine.queuedBy_start (c : BalanceCache) : (Engine.start c).QueuedBy E := by
  intro pair buys
  rw [show (Engine.start c).orderbook pair = .new pair from rfl, OrderBook.side_new]
  exact fun l hl => absurd hl List.not_mem_nil

/-- An order that joins a queue comes last. -/
theorem OrderBookSide.QueuedBy.addOrder (h : side.QueuedBy E) {order : OrderEntry}
    (hlast : ∀ x ∈ side.stock, E x.2.id order.id) : (side.addOrder order).QueuedBy E := by
  unfold OrderBookSide.addOrder
  split
  · exact h
  rename_i price hp
  intro l hl
  rcases BTreeMap.mem_insert.1 hl with rfl | ⟨hl, -⟩
  · have hat : ((side.queueAt price).map OrderEntry.id).Pairwise E ∧ ∀ o ∈ side.queueAt price, E o.id order.id := by
      unfold OrderBookSide.queueAt
      cases hq : side.orders.get? price with
      | none => exact ⟨.nil, fun o ho => absurd ho List.not_mem_nil⟩
      | some queue =>
        have hm := BTreeMap.get?_eq_some.1 hq
        exact ⟨h _ hm, fun o ho => hlast (price, o) (OrderBookSide.mem_stock.2 ⟨queue, hm, ho⟩)⟩
    rw [List.map_append, List.pairwise_append]
    refine ⟨hat.1, List.pairwise_singleton _ _, fun a ha b hb => ?_⟩
    obtain ⟨o, ho, rfl⟩ := List.mem_map.1 ha
    rw [List.mem_singleton.1 hb]
    exact hat.2 o ho
  · exact h l hl

/-- The others stay in line when an order is taken out. -/
theorem OrderBookSide.QueuedBy.takeOut (h : side.QueuedBy E) (price : Decimal) (orderId : OrderId) :
    (side.takeOut price orderId).QueuedBy E := by
  intro l hl
  simp only [OrderBookSide.takeOut, OrderBookSide.setQueue] at hl
  split_ifs at hl with hempty
  · exact h l (BTreeMap.mem_erase.1 hl).1
  · rcases BTreeMap.mem_insert.1 hl with rfl | ⟨hl, -⟩
    · unfold OrderBookSide.queueAt
      cases hq : side.orders.get? price with
      | none => exact .nil
      | some queue => exact (h _ (BTreeMap.get?_eq_some.1 hq)).sublist (List.eraseP_sublist.map _)
    · exact h l hl

/-- So it holds along the quotes, between those of one price. -/
theorem OrderBookSide.QueuedBy.quotes (h : side.QueuedBy E) (top : Bool) :
    (side.quotes top).Pairwise fun x y => x.1 = y.1 → E x.2.id y.2.id := by
  have hlevels : ∀ l ∈ side.levels top, (l.2.map OrderEntry.id).Pairwise E := fun l hl => h l (BTreeMap.mem_bestFirst.1 hl)
  have hsorted : (side.levels top).Pairwise fun a b => BTreeMap.Before top a.1 b.1 := BTreeMap.bestFirst_sorted _ _
  unfold OrderBookSide.quotes
  revert hlevels hsorted
  generalize side.levels top = levels
  intro hlevels hsorted
  induction levels with
  | nil => exact .nil
  | cons l levels ih =>
    rw [List.forall_mem_cons] at hlevels
    obtain ⟨hbefore, hsorted⟩ := List.pairwise_cons.1 hsorted
    rw [quotes_cons, List.pairwise_append]
    refine ⟨?_, ih hlevels.2 hsorted, ?_⟩
    · refine List.pairwise_map.2 ((List.pairwise_map.1 hlevels.1).imp ?_)
      exact fun {a b} he _ => he
    · rintro x hx y hy he
      obtain ⟨o, -, rfl⟩ := List.mem_map.1 hx
      obtain ⟨l', hl', hy, -⟩ := mem_quotes.1 hy
      exact absurd (Or.inl (he.trans hy).symm) (hbefore l' hl').not_before

/-- Cancelling an order leaves the others in line. -/
theorem queuedBy_cancel [Arithmetic] {s : Engine} {orderId : OrderId} {userId : UserId} {pair : TradingPair}
    (h : s.QueuedBy E) :
    (handleCancelOrder s orderId userId pair).engine.QueuedBy E := by
  rcases handleCancelOrder_cases s orderId userId pair with hn | ⟨book, buys, price, order, unlocked, -, ht⟩
  · rw [hn.engine]; exact h
  intro pair' buys'
  rcases ht.after pair' buys' with ⟨-, -, -, he⟩ | ⟨-, he⟩
  · rw [he]
    exact (h pair buys).takeOut _ _
  · rw [he]
    exact h pair' buys'

end Queues

/-! ## What matches leave of an order -/

/-- The amounts that matches report for the resting orders with an id. -/
def OrderEntry.amountsFor (o : OrderEntry) (id : OrderId) (ms : List MatchResult) : List Decimal :=
  (ms.filter fun m => o.makerId m = id).map MatchResult.amount

/-- What is left of an order after some fills. -/
def OrderEntry.leftAfter [Arithmetic] (o : OrderEntry) (amounts : List Decimal) : Decimal :=
  amounts.foldl Arithmetic.sub o.remainingAmount

theorem OrderEntry.amountsFor_append (o : OrderEntry) (id : OrderId) (ms ms' : List MatchResult) :
    o.amountsFor id (ms ++ ms') = o.amountsFor id ms ++ o.amountsFor id ms' := by
  rw [amountsFor, List.filter_append, List.map_append]
  rfl

variable [Arithmetic] {dv : Decimal → Decimal → Decimal} {order : OrderEntry} {book : OrderBook}

/-- What fills leave, others leave of. -/
theorem OrderEntry.leftAfter_append (o : OrderEntry) (as bs : List Decimal) :
    o.leftAfter (as ++ bs) = bs.foldl Arithmetic.sub (o.leftAfter as) :=
  List.foldl_append

theorem remaining_of_fills (o : OrderEntry) (ms : List MatchResult) :
    (ms.foldl (fun o m => o.fill m.amount) o).remainingAmount = o.leftAfter (ms.map MatchResult.amount) := by
  induction ms generalizing o with
  | nil => rfl
  | cons m ms ih =>
    rw [List.foldl_cons, ih]
    rfl

theorem Visit.Made.remaining_eq {v : Visit} (h : v.Made (order.rule dv) order) :
    v.left.remainingAmount = v.order.leftAfter (v.results.map MatchResult.amount) := by
  rw [h.left_eq, remaining_of_fills]

/-- The matches of a visit are with its order. -/
theorem Visit.Made.filter_results {v : Visit} (h : v.Made (order.rule dv) order) (id : OrderId) :
    (v.results.filter fun m => order.makerId m = id) = if v.order.id = id then v.results else [] := by
  split_ifs with hid
  · refine List.filter_eq_self.2 fun m hm => ?_
    rw [(h.results_of m hm).1, hid]
    exact decide_eq_true rfl
  · refine List.filter_eq_nil_iff.2 fun m hm hid' => hid ?_
    rw [← (h.results_of m hm).1]
    exact of_decide_eq_true hid'

section Visits

variable {vs : List Visit} (hmade : ∀ v ∈ vs, v.Made (order.rule dv) order)

include hmade

theorem amountsFor_of_not_visited {id : OrderId} (hid : ∀ v ∈ vs, v.order.id ≠ id) :
    order.amountsFor id (vs.flatMap Visit.results) = [] := by
  rw [OrderEntry.amountsFor, List.map_eq_nil_iff]
  refine List.filter_eq_nil_iff.2 fun m hm hm' => ?_
  obtain ⟨v, hv, hm⟩ := List.mem_flatMap.1 hm
  refine hid v hv ?_
  rw [← ((hmade v hv).results_of m hm).1]
  exact of_decide_eq_true hm'

/-- Where the ids are distinct, the matches report for a visited order those of its visit. -/
theorem amountsFor_visited (hids : (vs.map fun v => v.order.id).Nodup) {v : Visit} (hv : v ∈ vs) :
    order.amountsFor v.order.id (vs.flatMap Visit.results) = v.results.map MatchResult.amount := by
  induction vs with
  | nil => exact absurd hv List.not_mem_nil
  | cons v' vs ih =>
    obtain ⟨hv', hvs⟩ := List.forall_mem_cons.1 hmade
    rw [List.map_cons, List.nodup_cons] at hids
    obtain ⟨hnotin, hids⟩ := hids
    rw [List.flatMap_cons, OrderEntry.amountsFor, List.filter_append, hv'.filter_results, List.map_append]
    rcases List.mem_cons.1 hv with rfl | hv
    · have hrest : order.amountsFor v.order.id (vs.flatMap Visit.results) = [] :=
        amountsFor_of_not_visited hvs fun w hw hid =>
          hnotin (by rw [← hid]; exact List.mem_map_of_mem (f := fun v : Visit => v.order.id) hw)
      rw [if_pos rfl]
      exact (congrArg _ hrest).trans (List.append_nil _)
    · have hne : v'.order.id ≠ v.order.id := fun he =>
        hnotin (by rw [he]; exact List.mem_map_of_mem (f := fun v : Visit => v.order.id) hv)
      rw [if_neg hne]
      exact ih hvs hids hv

end Visits

namespace OrderEntry.Meets

variable {others : List (Decimal × OrderEntry)} (h : order.Meets dv book others)

include h

/-- A match is with an order that is visited. -/
theorem amountsFor_other {id : OrderId} (hid : ∀ x ∈ (book.side (order.rule dv).scansBuys).stock, x.2.id ≠ id) :
    order.amountsFor id (order.matching dv book).results = [] := by
  rw [(matching_tours dv order book).2.2.1]
  exact amountsFor_of_not_visited h.made fun v hv => hid v.found (h.mem_before.2 (Or.inl ⟨v, hv, rfl⟩))

variable (hids : ((book.side (order.rule dv).scansBuys).stock.map fun x => x.2.id).Nodup)

include hids

/-- **What a call leaves of an order**: what rests of it, or has been taken off, is what its
matches leave of it. -/
theorem left {o : OrderEntry}
    (ho : (∃ x ∈ (order.matching dv book).side.stock, x.2 = o) ∨ o ∈ (order.matching dv book).dropped) :
    ∃ x ∈ (book.side (order.rule dv).scansBuys).stock, x.2.terms = o.terms ∧
      x.2.leftAfter (order.amountsFor o.id (order.matching dv book).results) = o.remainingAmount := by
  have hvisit : ∀ v ∈ (order.tour dv book).visits, ∃ x ∈ (book.side (order.rule dv).scansBuys).stock,
      x.2.terms = v.left.terms ∧
        x.2.leftAfter (order.amountsFor v.left.id (order.matching dv book).results) = v.left.remainingAmount := by
    intro v hv
    have hterms := (h.made v hv).left_terms
    refine ⟨v.found, h.mem_before.2 (Or.inl ⟨v, hv, rfl⟩), hterms.symm, ?_⟩
    rw [(OrderEntry.terms_eq hterms).1, (matching_tours dv order book).2.2.1, Tour.results,
      amountsFor_visited h.made (h.ids_nodup hids).1 hv]
    exact (h.made v hv).remaining_eq.symm
  rcases ho with ⟨x, hx, rfl⟩ | ho
  · rcases h.mem_after.1 hx with ⟨v, hv, -, rfl⟩ | hx
    · exact hvisit v hv
    · refine ⟨x, h.mem_before.2 (Or.inr hx), rfl, ?_⟩
      rw [(matching_tours dv order book).2.2.1, Tour.results,
        amountsFor_of_not_visited h.made fun v hv => (h.ids_nodup hids).2 v hv x hx]
      rfl
  · obtain ⟨v, hv, rfl⟩ := List.mem_map.1 ((matching_tours dv order book).2.2.2.mem_iff.1 ho)
    exact hvisit v (List.mem_of_mem_filter hv)

end OrderEntry.Meets

/-! ## A submit -/

/-- On its tour of the book an order lets go of no resting order, and where it is used up in a
level it has passed over no order there, or has come to the end of the level. -/
def OrderEntry.KeepsOrder (dv : Decimal → Decimal → Decimal) (o : OrderEntry) (book : OrderBook) : Prop :=
  (∀ v ∈ (o.tour dv book).visits, v.letGo = false) ∧ ((o.tour dv book).ahead = [] ∨ (o.tour dv book).passed = [])

instance (dv : Decimal → Decimal → Decimal) (o : OrderEntry) (book : OrderBook) : Decidable (o.KeepsOrder dv book) :=
  inferInstanceAs (Decidable (_ ∧ _))

/-- **A submit that keeps the order** leaves the queues of the side it meets in order. -/
theorem matching_keeps_order (hkeeps : order.KeepsOrder dv book) {E : OrderId → OrderId → Prop}
    (hE : (book.side (order.rule dv).scansBuys).QueuedBy E) : (order.matching dv book).side.QueuedBy E := by
  intro l hl
  have hleft : l ∈ (order.tour dv book).left := by
    rw [← (matching_tours dv order book).1]
    exact BTreeMap.mem_bestFirst.2 hl
  obtain ⟨l', hl', hsub⟩ := tour_ids _ order hkeeps.2 l hleft
  exact (hE l' (BTreeMap.mem_bestFirst.1 hl')).sublist hsub

omit [Arithmetic] in
/-- A match of some visits is one of a visit. -/
theorem flatMap_eq_append_cons {vs : List Visit} {ms ms' : List MatchResult} {m : MatchResult}
    (h : vs.flatMap Visit.results = ms ++ m :: ms') : ∃ before v after ms₁ ms₂, vs = before ++ v :: after ∧
      v.results = ms₁ ++ m :: ms₂ ∧ ms = before.flatMap Visit.results ++ ms₁ := by
  induction vs generalizing ms with
  | nil => simp at h
  | cons v vs ih =>
    rw [List.flatMap_cons] at h
    rcases List.append_eq_append_iff.1 h with ⟨rest, rfl, hrest⟩ | ⟨rest, hresults, hrest⟩
    · -- the match is of a later visit
      obtain ⟨before, v', after, ms₁, ms₂, rfl, hv', rfl⟩ := ih hrest
      exact ⟨v :: before, v', after, ms₁, ms₂, rfl, hv', by rw [List.flatMap_cons, List.append_assoc]⟩
    · cases rest with
      | nil =>
        rw [List.append_nil] at hresults
        have hlater : vs.flatMap Visit.results = [] ++ m :: ms' := hrest.symm
        obtain ⟨before, v', after, ms₁, ms₂, rfl, hv', hms₁⟩ := ih hlater
        exact ⟨v :: before, v', after, ms₁, ms₂, rfl, hv', by
          rw [List.flatMap_cons, List.append_assoc, ← hms₁, List.append_nil, hresults]⟩
      | cons m' rest =>
        obtain ⟨rfl, -⟩ := List.cons.inj hrest
        exact ⟨[], v, vs, ms, rest, rfl, hresults, rfl⟩

namespace OrderEntry.Meets

variable {others : List (Decimal × OrderEntry)} (h : order.Meets dv book others)
  (hremaining : ∀ x ∈ (book.side (order.rule dv).scansBuys).stock, 0 ≤ x.2.remainingAmount)
  (hkeeps : order.KeepsOrder dv book)

include h hremaining hkeeps

theorem used_up {v : Visit} (hv : v ∈ (order.tour dv book).visits) (hstays : v.stays = false) :
    v.left.remainingAmount = 0 := by
  have hnot : ¬ 0 < v.left.remainingAmount := by simpa [Visit.stays, hkeeps.1 v hv] using hstays
  exact le_antisymm (not_lt.1 hnot) ((h.made v hv).left_nonneg (hremaining v.found (h.mem_before.2 (Or.inl ⟨v, hv, rfl⟩))))

/-- It takes only filled orders off. -/
theorem dropped_filled {o : OrderEntry} (ho : o ∈ (order.matching dv book).dropped) : o.remainingAmount = 0 := by
  obtain ⟨v, hv, rfl⟩ := List.mem_map.1 ((matching_tours dv order book).2.2.2.mem_iff.1 ho)
  obtain ⟨hv, hstays⟩ := List.mem_filter.1 hv
  exact h.used_up hremaining hkeeps hv (by simpa using hstays)

/-- **When a submit makes a match**, the other users' orders that are ahead of the one it is with
are used up, by the matches before it. -/
theorem priority (hids : ((book.side (order.rule dv).scansBuys).stock.map fun x => x.2.id).Nodup)
    {ms ms' : List MatchResult} {m : MatchResult} (hms : (order.matching dv book).results = ms ++ m :: ms') :
    ∃ before x after, ((book.side (order.rule dv).scansBuys).quotes (order.rule dv).scansBuys).filter
        (fun x => order.userId ≠ x.2.userId) = before ++ x :: after ∧ order.makerId m = x.2.id ∧ m.price = x.1 ∧
      ∀ y ∈ before, y.2.leftAfter (order.amountsFor y.2.id ms) = 0 := by
  rw [(matching_tours dv order book).2.2.1, Tour.results] at hms
  obtain ⟨vs, v, vs', ms₁, ms₂, hvs, hv, rfl⟩ := flatMap_eq_append_cons hms
  obtain ⟨rest, hrest⟩ :=
    tour_foreign ((book.side (order.rule dv).scansBuys).levels (order.rule dv).scansBuys) order rfl hkeeps.1
  change (order.tour dv book).visits.map Visit.found ++ rest = _ at hrest
  have hmem : ∀ v' ∈ vs ++ v :: vs', v' ∈ (order.tour dv book).visits := fun v' hv' => by rwa [hvs]
  obtain ⟨hmaker, hprice⟩ := (h.made v (hmem v (by simp))).results_of m (by rw [hv]; simp)
  refine ⟨vs.map Visit.found, v.found, vs'.map Visit.found ++ rest, ?_, hmaker, hprice, ?_⟩
  · rw [OrderBookSide.quotes, ← hrest, hvs, List.map_append, List.map_cons, List.append_assoc]
    rfl
  · intro y hy
    obtain ⟨v', hv', rfl⟩ := List.mem_map.1 hy
    have hmade : ∀ v' ∈ vs, v'.Made (order.rule dv) order := fun v' hv' =>
      h.made v' (hmem v' (List.mem_append_left _ hv'))
    have hnodup := (h.ids_nodup hids).1
    have hlast := tour_last (R := order.rule dv)
      ((book.side (order.rule dv).scansBuys).levels (order.rule dv).scansBuys) order
    change (order.tour dv book).visits.Pairwise _ at hlast
    change v'.order.leftAfter (order.amountsFor v'.order.id _) = 0
    rw [hvs, List.map_append, List.nodup_append] at hnodup
    rw [hvs, List.pairwise_append] at hlast
    have hne : v.order.id ≠ v'.order.id := fun hid =>
      hnodup.2.2 _ (List.mem_map_of_mem (f := fun v : Visit => v.order.id) hv') v.order.id (by simp) hid.symm
    have hmine : ms₁.filter (fun m => order.makerId m = v'.order.id) = [] := by
      refine List.filter_eq_nil_iff.2 fun m' hm' hid => hne ?_
      rw [← ((h.made v (hmem v (by simp))).results_of m' (by rw [hv]; exact List.mem_append_left _ hm')).1]
      exact of_decide_eq_true hid
    have hamounts := amountsFor_visited hmade hnodup.1 hv'
    rw [OrderEntry.amountsFor] at hamounts
    rw [OrderEntry.amountsFor, List.filter_append, hmine, List.append_nil, hamounts]
    refine ((h.made v' (hmem v' (List.mem_append_left _ hv'))).remaining_eq).symm.trans ?_
    exact h.used_up hremaining hkeeps (hmem v' (List.mem_append_left _ hv')) (hlast.2.2 v' hv' v (by simp))

end OrderEntry.Meets

section Submit

variable {s : Engine} {cache : BalanceCache} {taken : OrderBook}
  {settled : BalanceCache × List (MatchResult × Except EngineError (List DbCommand))} {counted : List MatchResult}
  {released : BalanceCache × Option (Except EngineError Unit)}

/-- An order that rests joins its queue last, and the others stay in line. -/
theorem queuedBy_submit (hk : order.Kind) (hg : Granted dv s order cache taken settled counted released)
    (hkeeps : order.KeepsOrder dv (s.orderbook order.pair)) {E : OrderId → OrderId → Prop} (h : s.QueuedBy E)
    (hlast : (order.matching dv (s.orderbook order.pair)).incoming.rests → ∀ o ∈ s.restingOrders, E o.id order.id) :
    (processSubmitOrder dv s order).engine.QueuedBy E := by
  intro pair buys
  cases hg.after hk pair buys with
  | scanned _ _ eq =>
    rw [eq]
    exact matching_keeps_order hkeeps (h _ _)
  | joined _ _ _ left _ eq =>
    rw [eq]
    refine (h _ _).addOrder fun x hx => ?_
    have hid : (order.matching dv (s.orderbook order.pair)).incoming.id = order.id :=
      (OrderEntry.terms_eq (matchAgainst_terms _ _ _)).1
    rw [hid]
    exact hlast left x.2 (mem_engine_restingOrders.2 ⟨_, _, _, hx⟩)
  | kept _ eq =>
    rw [eq]
    exact h pair buys

end Submit

end CexEngine
