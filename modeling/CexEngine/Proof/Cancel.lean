import CexEngine.Proof.Rules

/-!
# Cancelling an order

* `locate_eq_some`: the order that the search finds, and where it stands in its queue.
* `stock_takeOut`: taking it out removes that one order from the stock.
* `handleCancelOrder_cases`: the command is refused and nothing is touched, or the caller's
  order is taken out and the unlock is tried.
* `handleCancelOrder_frame`: what a cancel that succeeds leaves as it was.
-/

namespace CexEngine

namespace OrderBookSide

variable {side : OrderBookSide} {orderId : OrderId} {price : Decimal} {order : OrderEntry}

/-- The first order with an id in a queue, with what stands before and after it. -/
theorem find_split {queue : List OrderEntry} (h : queue.find? (fun o => o.id = orderId) = some order) :
    ∃ front back, queue = front ++ order :: back ∧ order.id = orderId ∧ (∀ o ∈ front, o.id ≠ orderId) ∧
      queue.eraseP (fun o => o.id = orderId) = front ++ back := by
  obtain ⟨hid, front, back, rfl, hfront⟩ := List.find?_eq_some_iff_append.1 h
  have hne : ∀ o ∈ front, o.id ≠ orderId := by simpa using hfront
  refine ⟨front, back, rfl, by simpa using hid, hne, ?_⟩
  rw [List.eraseP_append_right _ (by simpa using hne), List.eraseP_cons_of_pos (by exact hid)]

/-- **Where the search finds an order.** -/
theorem locate_eq_some (h : side.locate orderId = some (price, order)) :
    ∃ queue, side.orders.get? price = some queue ∧ queue.find? (fun o => o.id = orderId) = some order := by
  obtain ⟨e, he, hf⟩ := List.exists_of_findSome?_eq_some h
  obtain ⟨o, ho, heq⟩ := Option.map_eq_some_iff.1 hf
  obtain ⟨rfl, rfl⟩ := Prod.mk.inj heq
  exact ⟨e.2, BTreeMap.get?_eq_some.2 he, ho⟩

theorem locate_eq_none : side.locate orderId = none ↔ ∀ x ∈ side.stock, x.2.id ≠ orderId := by
  unfold locate
  rw [List.findSome?_eq_none_iff]
  constructor
  · intro h x hx
    obtain ⟨queue, hq, ho⟩ := mem_stock.1 hx
    have := h _ hq
    rw [Option.map_eq_none_iff, List.find?_eq_none] at this
    simpa using this _ ho
  · intro h e he
    rw [Option.map_eq_none_iff, List.find?_eq_none]
    intro o ho
    simpa using h (e.1, o) (mem_stock.2 ⟨e.2, he, ho⟩)

theorem locate_id (h : side.locate orderId = some (price, order)) : order.id = orderId := by
  obtain ⟨queue, -, hf⟩ := locate_eq_some h
  simpa using List.find?_some hf

/-- **Taking an order out** of the queue at its price removes it from the stock, and nothing else. -/
theorem stock_takeOut_of {queue : List OrderEntry} (hq : side.orders.get? price = some queue)
    (hf : queue.find? (fun o => o.id = orderId) = some order) :
    side.stock = (price, order) ::ₘ (side.takeOut price orderId).stock := by
  obtain ⟨front, back, rfl, -, -, herase⟩ := find_split hf
  obtain ⟨others, hstock, hset⟩ := stock_setQueue hq
  have hat : side.queueAt price = front ++ order :: back := by simp [queueAt, hq]
  rw [takeOut, hat, herase, hset, hstock]
  simp [Multiset.add_cons, Multiset.cons_add]

theorem stock_takeOut (h : side.locate orderId = some (price, order)) :
    side.stock = (price, order) ::ₘ (side.takeOut price orderId).stock := by
  obtain ⟨queue, hq, hf⟩ := locate_eq_some h
  exact stock_takeOut_of hq hf

theorem NoEmptyLevel.takeOut (h : side.NoEmptyLevel) (price : Decimal) (orderId : OrderId) :
    (side.takeOut price orderId).NoEmptyLevel := h.setQueue _ _

end OrderBookSide

/-- A book with one side replaced. -/
def OrderBook.setSide (book : OrderBook) (buys : Bool) (side : OrderBookSide) : OrderBook :=
  if buys then { book with buyOrders := side } else { book with sellOrders := side }

@[simp] theorem OrderBook.side_setSide (book : OrderBook) (buys : Bool) (side : OrderBookSide) :
    (book.setSide buys side).side buys = side := by
  cases buys <;> rfl

@[simp] theorem OrderBook.side_setSide_not (book : OrderBook) (buys : Bool) (side : OrderBookSide) :
    (book.setSide buys side).side (!buys) = book.side (!buys) := by
  cases buys <;> rfl

section Rounded

variable [Arithmetic]

/-- What happened when the order was found and is the caller's: it is out of the book, and
`unlocked` is what the unlock left and answered. -/
structure TakenOut (s : Engine) (orderId : OrderId) (userId : UserId) (pair : TradingPair) (book : OrderBook)
    (buys : Bool) (price : Decimal) (order : OrderEntry) (unlocked : BalanceCache × Except EngineError Unit) :
    Prop where
  found : s.orderbooks.lookup pair = some book
  located : (book.side buys).locate orderId = some (price, order)
  owner : order.userId = userId
  unlock : unlocked = s.balanceCache.unlockBalanceForCancel userId order.unlock.1 order.unlock.2
  engine : (handleCancelOrder s orderId userId pair).engine =
    ⟨s.orderbooks.insert pair (book.setSide buys ((book.side buys).takeOut price orderId)), unlocked.1⟩
  ok : unlocked.2.isOk = true → (handleCancelOrder s orderId userId pair).answer = .ok order
  err : unlocked.2.isOk = false → (handleCancelOrder s orderId userId pair).answer.isOk = false

theorem cancelFound_eq (s : Engine) (order : OrderEntry) (orderId : OrderId) (userId : UserId) :
    let unlocked := s.balanceCache.unlockBalanceForCancel userId order.unlock.1 order.unlock.2
    (cancelFound s order orderId userId).engine = ⟨s.orderbooks, unlocked.1⟩ ∧
      (unlocked.2.isOk = true → (cancelFound s order orderId userId).answer = .ok order) ∧
      (unlocked.2.isOk = false → (cancelFound s order orderId userId).answer.isOk = false) := by
  unfold cancelFound
  dsimp only
  split
  · rename_i e hr
    refine ⟨rfl, fun h => ?_, fun _ => rfl⟩
    rw [hr] at h; cases h
  · rename_i hr
    refine ⟨rfl, fun _ => rfl, fun h => ?_⟩
    rw [hr] at h; cases h

/-- The order that a cancel finds: a buy order with the id, else a sell order. -/
def Engine.found (s : Engine) (pair : TradingPair) (orderId : OrderId) :
    Option (OrderBook × Bool × Decimal × OrderEntry) :=
  (s.orderbooks.lookup pair).bind fun book =>
    match (book.side true).locate orderId with
    | some (price, order) => some (book, true, price, order)
    | none => ((book.side false).locate orderId).map fun x => (book, false, x.1, x.2)

omit [Arithmetic] in
theorem Engine.found_eq_some {s : Engine} {pair : TradingPair} {orderId : OrderId} {book : OrderBook} {buys : Bool}
    {price : Decimal} {order : OrderEntry} (h : s.found pair orderId = some (book, buys, price, order)) :
    s.orderbooks.lookup pair = some book ∧ (book.side buys).locate orderId = some (price, order) := by
  obtain ⟨book', hbook, h⟩ := Option.bind_eq_some_iff.1 h
  split at h
  · rename_i p o hl
    cases h
    exact ⟨hbook, hl⟩
  · obtain ⟨x, hx, heq⟩ := Option.map_eq_some_iff.1 h
    cases heq
    exact ⟨hbook, hx⟩

/-- The handler, by what the search finds. -/
theorem handleCancelOrder_found {s : Engine} {pair : TradingPair} {orderId : OrderId} {book : OrderBook}
    {buys : Bool} {price : Decimal} {order : OrderEntry} (userId : UserId)
    (h : s.found pair orderId = some (book, buys, price, order)) :
    handleCancelOrder s orderId userId pair =
      if order.userId = userId then
        cancelFound ⟨s.orderbooks.insert pair (book.setSide buys ((book.side buys).takeOut price orderId)),
          s.balanceCache⟩ order orderId userId
      else .refused s "Unauthorized: You don't own this order" := by
  obtain ⟨hbook, hl⟩ := Engine.found_eq_some h
  cases buys with
  | true =>
    simp only [OrderBook.side, if_true] at hl
    simp only [handleCancelOrder, hbook, hl, OrderBook.setSide, OrderBook.side, if_true]
  | false =>
    have hbuy : book.buyOrders.locate orderId = none := by
      cases hbuy : book.buyOrders.locate orderId with
      | none => rfl
      | some x => simp [Engine.found, hbook, OrderBook.side, hbuy] at h
    simp only [OrderBook.side, Bool.false_eq_true, if_false] at hl
    simp only [handleCancelOrder, hbook, hbuy, hl, OrderBook.setSide, OrderBook.side, Bool.false_eq_true, if_false]

theorem handleCancelOrder_not_found {s : Engine} {pair : TradingPair} {orderId : OrderId} (userId : UserId)
    (h : s.found pair orderId = none) : ∃ text, handleCancelOrder s orderId userId pair = .refused s text := by
  cases hbook : s.orderbooks.lookup pair with
  | none => exact ⟨"OrderBook not found for trading pair", by simp only [handleCancelOrder, hbook]⟩
  | some book =>
    cases hbuy : book.buyOrders.locate orderId with
    | some x => simp [Engine.found, hbook, OrderBook.side, hbuy] at h
    | none =>
      cases hsell : book.sellOrders.locate orderId with
      | some x => simp [Engine.found, hbook, OrderBook.side, hbuy, hsell] at h
      | none =>
        exact ⟨"Order not found in OrderBook. It may have been already filled or cancelled.",
          by simp only [handleCancelOrder, hbook, hbuy, hsell]⟩

/-- The caller's order is not there: nothing is touched. -/
structure NotFound (s : Engine) (orderId : OrderId) (userId : UserId) (pair : TradingPair) : Prop where
  other : ∀ book buys price order, s.found pair orderId = some (book, buys, price, order) → order.userId ≠ userId
  engine : (handleCancelOrder s orderId userId pair).engine = s
  answer : (handleCancelOrder s orderId userId pair).answer.isOk = false

/-- **Cancelling**: refused with nothing touched, or the caller's order is taken out. -/
theorem handleCancelOrder_cases (s : Engine) (orderId : OrderId) (userId : UserId) (pair : TradingPair) :
    NotFound s orderId userId pair ∨
      ∃ book buys price order unlocked, s.found pair orderId = some (book, buys, price, order) ∧
        TakenOut s orderId userId pair book buys price order unlocked := by
  cases hf : s.found pair orderId with
  | none =>
    obtain ⟨text, he⟩ := handleCancelOrder_not_found userId hf
    refine Or.inl ⟨?_, by rw [he]; rfl, by rw [he]; rfl⟩
    intro _ _ _ _ h
    rw [hf] at h; cases h
  | some x =>
    obtain ⟨book, buys, price, order⟩ := x
    have he := handleCancelOrder_found userId hf
    obtain ⟨hbook, hl⟩ := Engine.found_eq_some hf
    by_cases hu : order.userId = userId
    · rw [if_pos hu] at he
      obtain ⟨h₁, h₂, h₃⟩ := cancelFound_eq
        ⟨s.orderbooks.insert pair (book.setSide buys ((book.side buys).takeOut price orderId)), s.balanceCache⟩
        order orderId userId
      exact Or.inr ⟨book, buys, price, order, _, rfl, hbook, hl, hu, rfl, by rw [he]; exact h₁,
        fun h => by rw [he]; exact h₂ h, fun h => by rw [he]; exact h₃ h⟩
    · rw [if_neg hu] at he
      refine Or.inl ⟨?_, by rw [he]; rfl, by rw [he]; rfl⟩
      rintro _ _ _ _ h
      rw [hf] at h
      cases h
      exact hu

/-- The unlock of a cancel fails if and only if the caller has less locked than it asks for. -/
theorem TakenOut.unlock_err {s : Engine} {orderId : OrderId} {userId : UserId} {pair : TradingPair}
    {book : OrderBook} {buys : Bool} {price : Decimal} {order : OrderEntry}
    {unlocked : BalanceCache × Except EngineError Unit}
    (h : TakenOut s orderId userId pair book buys price order unlocked) :
    unlocked.2.isOk = false ↔ s.balanceCache.locked userId order.unlock.1 < order.unlock.2 := by
  rw [h.unlock, (BalanceCache.unlockBalanceForCancel_eq _ _ _ _).2]
  by_cases hlt : s.balanceCache.locked userId order.unlock.1 < order.unlock.2
  · exact ⟨fun _ => hlt, fun _ => (BalanceCache.unlockBalance_refused hlt).1⟩
  · rw [BalanceCache.unlockBalance_granted (not_lt.1 hlt)]
    exact ⟨fun hc => (by cases hc), fun h => absurd h hlt⟩

end Rounded

/-! ## The frame of a cancel -/

theorem Engine.orderbook_insert (obs : AList fun _ : TradingPair => OrderBook) (c : BalanceCache)
    (pair pair' : TradingPair) (book : OrderBook) :
    (⟨obs.insert pair book, c⟩ : Engine).orderbook pair' =
      if pair' = pair then book else (⟨obs, c⟩ : Engine).orderbook pair' := by
  unfold Engine.orderbook
  split_ifs with h
  · subst h; simp
  · rw [AList.lookup_insert_ne h]

theorem Engine.orderbook_of_lookup {s : Engine} {pair : TradingPair} {book : OrderBook}
    (h : s.orderbooks.lookup pair = some book) : s.orderbook pair = book := by
  simp [Engine.orderbook, h]

/-- `side'` is `side` without an order of the queue at `price`; the level goes with its only
order. -/
def OrderBookSide.Without (side side' : OrderBookSide) (price : Decimal) (order : OrderEntry) : Prop :=
  ∃ front back, side.orders.get? price = some (front ++ order :: back) ∧
    side'.orders.get? price = (if front ++ back = [] then none else some (front ++ back)) ∧
    ∀ p, p ≠ price → side'.orders.get? p = side.orders.get? p

theorem OrderBookSide.get?_setQueue (side : OrderBookSide) (price p : Decimal) (queue : List OrderEntry) :
    (side.setQueue price queue).orders.get? p =
      if p = price then (if queue = [] then none else some queue) else side.orders.get? p := by
  unfold setQueue
  split_ifs with hq hp hp
  · rw [BTreeMap.get?_erase, if_pos hp]
  · rw [BTreeMap.get?_erase, if_neg hp]
  · rw [BTreeMap.get?_insert, if_pos hp]
  · rw [BTreeMap.get?_insert, if_neg hp]

/-- **Taking an order out** leaves every other queue, and its own but for the order. -/
theorem OrderBookSide.without_takeOut {side : OrderBookSide} {orderId : OrderId} {price : Decimal} {order : OrderEntry}
    (h : side.locate orderId = some (price, order)) : side.Without (side.takeOut price orderId) price order := by
  obtain ⟨queue, hq, hf⟩ := locate_eq_some h
  obtain ⟨front, back, rfl, -, -, herase⟩ := find_split hf
  refine ⟨front, back, hq, ?_, fun p hp => ?_⟩
  · rw [takeOut, get?_setQueue, if_pos rfl, queueAt, hq, Option.getD_some, herase]
  · rw [takeOut, get?_setQueue, if_neg hp]

/-- No two resting orders of the book have the same id. -/
def OrderBook.DistinctIds (book : OrderBook) : Prop :=
  (((book.side true).stock + (book.side false).stock).map fun x => x.2.id).Nodup

theorem OrderBook.DistinctIds.unique {book : OrderBook} (h : book.DistinctIds) {buys buys' : Bool}
    {x y : Decimal × OrderEntry} (hx : x ∈ (book.side buys).stock) (hy : y ∈ (book.side buys').stock)
    (hid : x.2.id = y.2.id) : x = y := by
  have hmem : ∀ {buys : Bool} {x : Decimal × OrderEntry}, x ∈ (book.side buys).stock →
      x ∈ (book.side true).stock + (book.side false).stock := by
    intro buys x hx
    cases buys
    · exact Multiset.mem_add.2 (Or.inr hx)
    · exact Multiset.mem_add.2 (Or.inl hx)
  exact Multiset.inj_on_of_nodup_map h x (hmem hx) y (hmem hy) hid

section Rounded

variable [Arithmetic]

/-- A cancel that answers with an order took it out, and its owner had enough locked. -/
theorem handleCancelOrder_ok {s : Engine} {orderId : OrderId} {userId : UserId} {pair : TradingPair} {order : OrderEntry}
    (hok : (handleCancelOrder s orderId userId pair).answer = .ok order) :
    ∃ book buys price unlocked, TakenOut s orderId userId pair book buys price order unlocked ∧
      order.unlock.2 ≤ s.balanceCache.locked userId order.unlock.1 := by
  rcases handleCancelOrder_cases s orderId userId pair with hn | ⟨book, buys, price, found, unlocked, -, ht⟩
  · have := hn.answer
    rw [hok] at this
    cases this
  have hunlocked : unlocked.2.isOk = true := by
    by_contra hc
    have := ht.err (by simpa using hc)
    rw [hok] at this
    cases this
  obtain rfl : order = found := by
    have := ht.ok hunlocked
    rw [hok] at this
    exact Except.ok.inj this
  refine ⟨book, buys, price, unlocked, ht, ?_⟩
  by_contra hc
  have := ht.unlock_err.2 (not_le.1 hc)
  rw [hunlocked] at this
  cases this

/-- **A cancel that succeeds removes one order and nothing else**: the caller's resting order
with that id leaves its queue, and its level if it was the only one there; what was locked for
its remaining quantity is available again, as `+`, `-` and `*` of the code have it; every other
queue, book and balance stays. -/
theorem handleCancelOrder_frame (s : Engine) (orderId : OrderId) (userId : UserId) (pair : TradingPair)
    (order : OrderEntry) (hids : (s.orderbook pair).DistinctIds)
    (hok : (handleCancelOrder s orderId userId pair).answer = .ok order) :
    (order.id = orderId ∧ order.userId = userId ∧
        ∀ buys, ∀ x ∈ ((s.orderbook pair).side buys).stock, x.2.id = orderId → x.2 = order) ∧
      (∃ buys price,
        ((s.orderbook pair).side buys).Without
            (((handleCancelOrder s orderId userId pair).engine.orderbook pair).side buys) price order ∧
          ((handleCancelOrder s orderId userId pair).engine.orderbook pair).side (!buys) =
            (s.orderbook pair).side (!buys)) ∧
      (∀ pair', pair' ≠ pair →
        (handleCancelOrder s orderId userId pair).engine.orderbook pair' = s.orderbook pair') ∧
      BalanceCache.Transferred s.balanceCache (handleCancelOrder s orderId userId pair).engine.balanceCache
        userId userId order.unlock.1 order.unlock.2 := by
  obtain ⟨book, buys, price, unlocked, ht, hle⟩ := handleCancelOrder_ok hok
  have hbook := Engine.orderbook_of_lookup ht.found
  have hmem : (price, order) ∈ ((s.orderbook pair).side buys).stock := by
    rw [hbook, OrderBookSide.stock_takeOut ht.located]
    exact Multiset.mem_cons_self _ _
  have hid := OrderBookSide.locate_id ht.located
  refine ⟨⟨hid, ht.owner, fun buys' x hx hx' => ?_⟩, ⟨buys, price, ?_, ?_⟩, fun pair' hne => ?_, ?_⟩
  · exact congrArg Prod.snd (hids.unique hx hmem (hx'.trans hid.symm))
  · rw [ht.engine, Engine.orderbook_insert, if_pos rfl, OrderBook.side_setSide, hbook]
    exact OrderBookSide.without_takeOut ht.located
  · rw [ht.engine, Engine.orderbook_insert, if_pos rfl, OrderBook.side_setSide_not, hbook]
  · rw [ht.engine, Engine.orderbook_insert, if_neg hne]
    rfl
  · rw [ht.engine, ht.unlock, (BalanceCache.unlockBalanceForCancel_eq _ _ _ _).1]
    exact BalanceCache.unlockBalance_transferred hle

end Rounded

/-- One of two asks at a price is cancelled. -/
theorem handleCancelOrder_frame_ask :
    let book := ((OrderBook.new solUsdt).addOrder (limitOrder 1 2 .sell 10 5)).addOrder (limitOrder 2 3 .sell 10 3)
    let s : Engine := ⟨(∅ : AList fun _ : TradingPair => OrderBook).insert solUsdt book,
      BalanceCache.new.setBalance 2 "SOL" 0 5⟩
    BalanceCache.Transferred s.balanceCache (handleCancelOrder s 1 2 solUsdt).engine.balanceCache 2 2 "SOL" 5 := by
  intro book s
  exact (handleCancelOrder_frame s 1 2 solUsdt (limitOrder 1 2 .sell 10 5)
    (by unfold OrderBook.DistinctIds; decide +kernel) (by rfl)).2.2.2

end CexEngine
