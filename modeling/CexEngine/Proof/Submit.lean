import CexEngine.Proof.Admission
import CexEngine.Proof.Fills
import CexEngine.Proof.Settle

/-!
# Submitting an order

What `process_submit_order` is made of, for an order that is admitted.

* `OrderEntry.rule`: the matcher's rule for an order, by its type.
* `matchAndRest_spec`: the matching scans one side; the other gets what is left of a limit
  order.
* `processSubmitOrder_cases`: the lock is refused and nothing happens, or the lock is taken,
  the book is matched, the matches are settled and the rest of the lock may be released.
-/

namespace CexEngine

open Arithmetic (sub)

variable [Arithmetic] {dv : Decimal → Decimal → Decimal}

/-- One side of a book. -/
def OrderBook.side (book : OrderBook) (buys : Bool) : OrderBookSide :=
  if buys then book.buyOrders else book.sellOrders

/-- The matcher's rule for an order. -/
def OrderEntry.rule (dv : Decimal → Decimal → Decimal) (o : OrderEntry) : MatchRule :=
  if o.orderType = .buy then buyRule dv else sellRule

/-- The matching of an order against the side it meets. -/
def OrderEntry.matching (dv : Decimal → Decimal → Decimal) (o : OrderEntry) (book : OrderBook) : MatchState :=
  matchAgainst (o.rule dv) o (book.side (o.rule dv).scansBuys)

omit [Arithmetic] in
theorem OrderEntry.Kind.isBuy_or {o : OrderEntry} (h : o.Kind) : o.orderType = .buy ∨ o.orderType = .sell := by
  cases h with
  | limitBuy _ ht => exact Or.inl ht
  | limitSell _ ht => exact Or.inr ht
  | marketSell ht => exact Or.inr ht
  | marketBuy _ ht => exact Or.inl ht

theorem OrderEntry.rule_buy {o : OrderEntry} (h : o.orderType = .buy) : o.rule dv = buyRule dv := by
  rw [rule, if_pos h]

theorem OrderEntry.rule_sell {o : OrderEntry} (h : o.orderType = .sell) : o.rule dv = sellRule := by
  rw [rule, if_neg (by rw [h]; simp)]

/-- A buy is matched with sells, and any other order with buys. -/
theorem rule_scansBuys {o : OrderEntry} : (o.rule dv).scansBuys = !o.isBuy := by
  unfold OrderEntry.rule OrderEntry.isBuy
  split_ifs with h
  · simp [h, buyRule]
  · simp [h, sellRule]

/-- An incoming order keeps its terms through the matching. -/
theorem matchAgainst_terms (R : MatchRule) (order : OrderEntry) (side : OrderBookSide) :
    (matchAgainst R order side).incoming.terms = order.terms := by
  refine matchAgainst_keeps (I := fun incoming _ _ _ => incoming.terms = order.terms) ?_ rfl
  exact ⟨fun h => h, fun h _ _ _ _ _ => (R.take_terms _ _ _).trans h⟩

/-- What a limit order leaves to be rested. -/
def OrderEntry.rests (o : OrderEntry) : Prop := o.orderSide = .limit ∧ o.hasRemaining = true

instance (o : OrderEntry) : Decidable o.rests := inferInstanceAs (Decidable (_ ∧ _))

omit [Arithmetic] in
/-- An order joins the side of its type. -/
theorem OrderBook.side_addOrder {o : OrderEntry} (book : OrderBook) (h : o.orderType = .buy ∨ o.orderType = .sell) :
    (book.addOrder o).side o.isBuy = (book.side o.isBuy).addOrder o ∧
      (book.addOrder o).side (!o.isBuy) = book.side (!o.isBuy) ∧
      (book.addOrder o).tradingPair = book.tradingPair := by
  unfold addOrder OrderEntry.isBuy
  rcases h with h | h <;> rw [h] <;> exact ⟨rfl, rfl, rfl⟩

/-- `match_order` scans the side an order meets and leaves the other. -/
theorem matchOrder_spec (dv : Decimal → Decimal → Decimal) {order : OrderEntry}
    (htype : order.orderType = .buy ∨ order.orderType = .sell) (hrem : order.hasRemaining = true) (book : OrderBook) :
    (matchOrder dv order book).order = (order.matching dv book).incoming ∧
      (matchOrder dv order book).results = (order.matching dv book).results ∧
      (matchOrder dv order book).dropped = (order.matching dv book).dropped ∧
      (matchOrder dv order book).book.side (order.rule dv).scansBuys = (order.matching dv book).side ∧
      (matchOrder dv order book).book.side (!(order.rule dv).scansBuys) = book.side (!(order.rule dv).scansBuys) ∧
      (matchOrder dv order book).book.tradingPair = book.tradingPair := by
  unfold matchOrder OrderEntry.matching
  rw [if_pos hrem]
  rcases htype with ht | ht
  · rw [OrderEntry.rule_buy ht, ht]
    exact ⟨rfl, rfl, rfl, rfl, rfl, rfl⟩
  · rw [OrderEntry.rule_sell ht, ht]
    exact ⟨rfl, rfl, rfl, rfl, rfl, rfl⟩

/-- What is left of a limit order is rested. -/
theorem matchAndRest_eq (dv : Decimal → Decimal → Decimal) (order : OrderEntry) (book : OrderBook) :
    matchAndRest dv order book = if (matchOrder dv order book).order.rests then
      { matchOrder dv order book with book := (matchOrder dv order book).book.addOrder (matchOrder dv order book).order }
    else matchOrder dv order book := by
  unfold matchAndRest
  dsimp only
  by_cases h : (matchOrder dv order book).order.rests
  · rw [if_pos h, if_pos h.1, if_pos h.2]
  · rw [if_neg h]
    split_ifs with hlimit hrem
    · exact absurd ⟨hlimit, hrem⟩ h
    · rfl
    · rfl

/-- **Matching an admitted order** scans the side it meets; what is left of a limit order
joins the other side. -/
theorem matchAndRest_spec (dv : Decimal → Decimal → Decimal) {order : OrderEntry} (hk : order.Kind) (book : OrderBook) :
    (matchAndRest dv order book).order = (order.matching dv book).incoming ∧
      (matchAndRest dv order book).results = (order.matching dv book).results ∧
      (matchAndRest dv order book).dropped = (order.matching dv book).dropped ∧
      (matchAndRest dv order book).book.side (order.rule dv).scansBuys = (order.matching dv book).side ∧
      (matchAndRest dv order book).book.side (!(order.rule dv).scansBuys) =
        (if (order.matching dv book).incoming.rests then
          (book.side (!(order.rule dv).scansBuys)).addOrder (order.matching dv book).incoming
        else book.side (!(order.rule dv).scansBuys)) ∧
      (matchAndRest dv order book).book.tradingPair = book.tradingPair := by
  obtain ⟨horder, hresults, hdropped, hscanned, hother, hpair⟩ := matchOrder_spec dv hk.isBuy_or hk.hasRemaining book
  have htype : (order.matching dv book).incoming.orderType = order.orderType :=
    (OrderEntry.terms_eq (matchAgainst_terms _ _ _)).2.2.1
  have hbuy : (!(order.rule dv).scansBuys) = (order.matching dv book).incoming.isBuy := by
    rw [rule_scansBuys, Bool.not_not, OrderEntry.isBuy, OrderEntry.isBuy, htype]
  obtain ⟨hjoin, hstay, hsame⟩ := OrderBook.side_addOrder (matchOrder dv order book).book (htype ▸ hk.isBuy_or)
  rw [← hbuy] at hjoin hstay
  rw [Bool.not_not] at hstay
  rw [matchAndRest_eq, horder]
  split_ifs
  · exact ⟨horder, hresults, hdropped, hstay.trans hscanned, by rw [hjoin, hother], hsame.trans hpair⟩
  · exact ⟨horder, hresults, hdropped, hscanned, hother, hpair⟩

/-- The part of an order's lock that matches use. -/
def OrderEntry.used (o : OrderEntry) (ms : List MatchResult) : Decimal :=
  if o.orderType = .buy then quoteUsed ms else amountUsed ms

theorem marketLeftover_eq {o : OrderEntry} (h : o.orderSide = .market) (ms : List MatchResult) :
    marketLeftover o ms = (o.lock.1, sub o.lock.2 (o.used ms)) := by
  unfold marketLeftover OrderEntry.lock OrderEntry.used
  split_ifs <;> simp

theorem limitLeftover_eq {o : OrderEntry} (h : o.orderSide ≠ .market) (ms : List MatchResult) :
    limitLeftover o ms = (o.lock.1, sub o.lock.2 (o.used ms)) := by
  unfold limitLeftover OrderEntry.lock OrderEntry.used
  split_ifs <;> simp

/-- What happened when the lock of an order was granted: `cache` is the cache after the lock,
`book` the book after the matching, `settled` what the trades left and answered, `counted`
the matches that are answered, and `released` what the release of the lock's rest left and
answered. -/
structure Granted (dv : Decimal → Decimal → Decimal) (s : Engine) (order : OrderEntry) (cache : BalanceCache)
    (book : OrderBook) (settled : BalanceCache × List (MatchResult × Except EngineError (List DbCommand)))
    (counted : List MatchResult) (released : BalanceCache × Option (Except EngineError Unit)) : Prop where
  funds : order.lock.2 ≤ s.balanceCache.available order.userId order.lock.1
  lock : cache = (s.balanceCache.lockBalanceForOrder order.userId order.lock.1 order.lock.2).1
  scanned : book.side (order.rule dv).scansBuys = (order.matching dv (s.orderbook order.pair)).side
  joined : book.side (!(order.rule dv).scansBuys) =
    if (order.matching dv (s.orderbook order.pair)).incoming.rests then
      ((s.orderbook order.pair).side (!(order.rule dv).scansBuys)).addOrder
        (order.matching dv (s.orderbook order.pair)).incoming
    else (s.orderbook order.pair).side (!(order.rule dv).scansBuys)
  trades : settled = cache.executeTrades (order.orderSide = .market)
    (order.matching dv (s.orderbook order.pair)).results
  counts : counted = if order.orderSide = .market then executed settled.2
    else (order.matching dv (s.orderbook order.pair)).results
  release : released =
    if order.orderSide = .market ∨ (order.matching dv (s.orderbook order.pair)).incoming.remainingAmount = 0 then
      settled.1.release order.userId order.lock.1 (sub order.lock.2 (order.used counted))
    else (settled.1, none)
  engine : (processSubmitOrder dv s order).engine = ⟨s.orderbooks.insert order.pair book, released.1⟩
  answer : (processSubmitOrder dv s order).answer = .ok counted
  outcome : (processSubmitOrder dv s order).trades = settled.2 ∧ (processSubmitOrder dv s order).release = released.2

theorem Granted.locked [ExactSums] {s : Engine} {order : OrderEntry} {cache : BalanceCache} {book : OrderBook}
    {settled : BalanceCache × List (MatchResult × Except EngineError (List DbCommand))} {counted : List MatchResult}
    {released : BalanceCache × Option (Except EngineError Unit)}
    (h : Granted dv s order cache book settled counted released) :
    BalanceCache.Moves s.balanceCache cache (posting order.userId order.lock.1 (-order.lock.2))
      (posting order.userId order.lock.1 order.lock.2) := by
  rw [h.lock]
  exact BalanceCache.lockBalanceForOrder_moves h.funds

/-- What happened when it was not granted. -/
structure Refused (dv : Decimal → Decimal → Decimal) (s : Engine) (order : OrderEntry) : Prop where
  funds : s.balanceCache.available order.userId order.lock.1 < order.lock.2
  orderbooks : (processSubmitOrder dv s order).engine.orderbooks = s.orderbooks
  balances : BalanceCache.SameBalances s.balanceCache (processSubmitOrder dv s order).engine.balanceCache
  answer : (processSubmitOrder dv s order).answer.isOk = false
  outcome : (processSubmitOrder dv s order).trades = [] ∧ (processSubmitOrder dv s order).release = none

/-- The lock of an order is refused, whatever the order is. -/
theorem processSubmitOrder_refused {s : Engine} {order : OrderEntry}
    (h : s.balanceCache.available order.userId order.lock.1 < order.lock.2) : Refused dv s order := by
  obtain ⟨⟨e, he⟩, hsame⟩ := BalanceCache.lockBalanceForOrder_refused h
  have hsubmit : processSubmitOrder dv s order =
      ⟨{ s with balanceCache := (s.balanceCache.lockBalanceForOrder order.userId order.lock.1 order.lock.2).1 },
        .error (.context "Failed to lock balance: " e), [], none, [], []⟩ := by
    unfold processSubmitOrder
    simp only [he]
  refine ⟨h, ?_, ?_, ?_, ?_⟩
  all_goals rw [hsubmit]
  · exact hsame
  · rfl
  · exact ⟨rfl, rfl⟩

/-- **Submitting an admitted order**: its lock is refused, or it is granted and the rest
follows. -/
theorem processSubmitOrder_cases (dv : Decimal → Decimal → Decimal) (s : Engine) {order : OrderEntry} (hk : order.Kind) :
    Refused dv s order ∨
      ∃ cache book settled counted released, Granted dv s order cache book settled counted released := by
  by_cases hfunds : s.balanceCache.available order.userId order.lock.1 < order.lock.2
  · exact Or.inl (processSubmitOrder_refused hfunds)
  right
  have hle := not_lt.1 hfunds
  obtain ⟨horder, hresults, -, hscanned, hjoined, -⟩ := matchAndRest_spec dv hk (s.orderbook order.pair)
  have hlocked := BalanceCache.lockBalanceForOrder_ok hle
  by_cases hside : order.orderSide = .market
  · refine ⟨_, _, _, _, _, hle, rfl, hscanned, hjoined, rfl, rfl, rfl, ?_, ?_, ?_⟩
    all_goals
      simp only [processSubmitOrder, hlocked, hside, if_true, true_or, finishMarketOrder, hresults,
        marketLeftover_eq hside, decide_true, and_self]
  · refine ⟨_, _, _, _, _, hle, rfl, hscanned, hjoined, rfl, rfl, rfl, ?_, ?_, ?_⟩
    all_goals
      simp only [processSubmitOrder, hlocked, hside, if_false, false_or, finishLimitOrder, hresults,
        limitLeftover_eq hside, horder, decide_false, and_self]

end CexEngine
