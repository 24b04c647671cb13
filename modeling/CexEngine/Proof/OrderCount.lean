import CexEngine.Proof.BookInvariant
import CexEngine.Proof.Remains
import CexEngine.Proof.Decimals

/-!
# The cached order counts

`add_order` counts up and `remove_order` counts down; the matcher and the cancel handler edit the
queues, which no count notices.

* `OrderBookSide.Gains`: how much the count of a side gains on its orders.
* `apply_gains`: what a command or a call of `remove_order` lets the counts gain.
* `run_counted_iff`: **the counts are right along a run if and only if no step of it takes an order off
  the book without counting it down**; they are never too low.
-/

namespace CexEngine

variable {dv : Decimal → Decimal → Decimal} {s s' : Engine}

/-! ## One side -/

/-- From the first side to the second, the count gains `n` on the number of orders. -/
def OrderBookSide.Gains (n : ℕ) (side side' : OrderBookSide) : Prop :=
  side'.totalOrders + side.restingOrders.length = side.totalOrders + side'.restingOrders.length + n

namespace OrderBookSide

theorem gains_refl (side : OrderBookSide) : side.Gains 0 side := rfl

theorem gains_addOrder (side : OrderBookSide) {order : OrderEntry} {price : Decimal} (h : order.price = some price) :
    side.Gains 0 (side.addOrder order) := by
  have hcount : (side.addOrder order).totalOrders = side.totalOrders + 1 := by simp [addOrder, h]
  rw [Gains, ← card_stock, ← card_stock, stock_addOrder h, Multiset.card_cons, hcount]
  omega

/-- An order that is taken out of its queue is not counted down. -/
theorem gains_takeOut {side : OrderBookSide} {orderId : OrderId} {price : Decimal} {order : OrderEntry}
    (h : side.locate orderId = some (price, order)) : side.Gains 1 (side.takeOut price orderId) := by
  have hcount : (side.takeOut price orderId).totalOrders = side.totalOrders := rfl
  rw [Gains, ← card_stock, ← card_stock, stock_takeOut h, Multiset.card_cons, hcount]
  omega

/-- `remove_order` finds nothing, or takes the order out as a cancel does and counts it down. -/
theorem removeOrder_cases (side : OrderBookSide) (orderId : OrderId) (price : Decimal) :
    side.removeOrder orderId price = (side, none) ∨
      ∃ order, side.stock = (price, order) ::ₘ (side.takeOut price orderId).stock ∧
        side.removeOrder orderId price = (⟨(side.takeOut price orderId).orders, side.totalOrders - 1⟩, some order) := by
  unfold removeOrder
  cases hq : side.orders.get? price with
  | none => exact Or.inl rfl
  | some queue =>
    dsimp only
    cases hf : queue.find? (fun o => o.id = orderId) with
    | none => exact Or.inl rfl
    | some order =>
      refine Or.inr ⟨order, stock_takeOut_of hq hf, ?_⟩
      rw [takeOut, setQueue, queueAt, hq, Option.getD_some]

/-- A count that is not too low does not underflow. -/
theorem removeOrder_counted {side : OrderBookSide} (h : side.restingOrders.length ≤ side.totalOrders)
    {orderId : OrderId} {price : Decimal} {order : OrderEntry} (hr : (side.removeOrder orderId price).2 = some order) :
    1 ≤ side.totalOrders := by
  rcases side.removeOrder_cases orderId price with he | ⟨order', hstock, -⟩
  · rw [he] at hr; cases hr
  · rw [← card_stock, hstock, Multiset.card_cons] at h
    omega

theorem gains_removeOrder {side : OrderBookSide} (h : side.restingOrders.length ≤ side.totalOrders)
    (orderId : OrderId) (price : Decimal) : side.Gains 0 (side.removeOrder orderId price).1 := by
  rcases side.removeOrder_cases orderId price with he | ⟨order, hstock, he⟩
  · rw [he]; exact side.gains_refl
  · have hcount := removeOrder_counted h (congrArg Prod.snd he)
    have hrest : (side.removeOrder orderId price).1.stock = (side.takeOut price orderId).stock := by rw [he]; rfl
    rw [Gains, ← card_stock, ← card_stock, hrest, hstock, Multiset.card_cons, he]
    dsimp only
    omega

end OrderBookSide

/-! ## The engine -/

/-- The counts are the numbers of orders in the queues. -/
def Engine.Counted (s : Engine) : Prop :=
  ∀ pair, (s.orderbook pair).totalBuyOrders = (s.orderbook pair).buyOrders.restingOrders.length ∧
    (s.orderbook pair).totalSellOrders = (s.orderbook pair).sellOrders.restingOrders.length

/-- No count is too low. -/
def Engine.CountsAll (s : Engine) : Prop :=
  ∀ pair buys, ((s.orderbook pair).side buys).restingOrders.length ≤ ((s.orderbook pair).side buys).totalOrders

theorem Engine.counted_iff : s.Counted ↔
    ∀ pair buys, ((s.orderbook pair).side buys).totalOrders = ((s.orderbook pair).side buys).restingOrders.length := by
  refine forall_congr' fun pair => ?_
  rw [Bool.forall_bool, and_comm]
  rfl

/-- The count of one side gains `n`, and no other count gains anything. -/
def Engine.Gains (pair : TradingPair) (buys : Bool) (n : ℕ) (s s' : Engine) : Prop :=
  ∀ pair' buys', ((s.orderbook pair').side buys').Gains (if pair' = pair ∧ buys' = buys then n else 0)
    ((s'.orderbook pair').side buys')

section Gains

variable {pair : TradingPair} {buys : Bool} {n : ℕ}

theorem Engine.gains_of_books (h : s'.orderbooks = s.orderbooks) : s.Gains pair buys 0 s' := by
  intro pair' buys'
  rw [ite_self, Engine.orderbook, Engine.orderbook, h]
  exact OrderBookSide.gains_refl _

theorem Engine.Gains.countsAll (h : s.Gains pair buys n s') (hs : s.CountsAll) : s'.CountsAll := by
  intro pair' buys'
  have hgains := h pair' buys'
  have hle := hs pair' buys'
  unfold OrderBookSide.Gains at hgains
  omega

theorem Engine.Gains.counted_iff (h : s.Gains pair buys n s') (hs : s.Counted) : s'.Counted ↔ n = 0 := by
  rw [Engine.counted_iff] at hs ⊢
  constructor
  · intro hs'
    have hgains := h pair buys
    rw [if_pos ⟨rfl, rfl⟩, OrderBookSide.Gains, hs, hs'] at hgains
    omega
  · rintro rfl pair' buys'
    have hgains := h pair' buys'
    rw [ite_self, OrderBookSide.Gains, hs] at hgains
    omega

end Gains

/-! ## Steps -/

/-- What changes the order books: the commands of the engine, and `remove_order`. -/
inductive BookAction where
  | command (c : Command)
  | removeOrder (pair : TradingPair) (orderId : OrderId) (orderType : OrderType) (price : Decimal)

/-- `remove_order` of the pair's book, if there is one. -/
def Engine.removeOrder (s : Engine) (pair : TradingPair) (orderId : OrderId) (orderType : OrderType)
    (price : Decimal) : Engine :=
  match s.orderbooks.lookup pair with
  | none => s
  | some book => { s with orderbooks := s.orderbooks.insert pair (book.removeOrder orderId orderType price).1 }

section Rounded

variable [Arithmetic]

def Engine.apply (dv : Decimal → Decimal → Decimal) (s : Engine) : BookAction → Engine
  | .command c => s.step dv c
  | .removeOrder pair orderId orderType price => s.removeOrder pair orderId orderType price

/-- An order that is submitted is admitted. -/
def BookAction.Validated : BookAction → Prop
  | .command c => c.Validated
  | .removeOrder _ _ _ _ => True

/-- The tour of the order does not put back every order that it visits. -/
def OrderEntry.takesOff (dv : Decimal → Decimal → Decimal) (o : OrderEntry) (book : OrderBook) : Bool :=
  (o.tour dv book).visits.any fun v => !v.stays

/-- The step takes an order off the book and counts none down: a submit whose lock is granted and
that takes an order off the other side, or a cancel that finds an order of its caller. -/
def BookAction.TakesUncounted (dv : Decimal → Decimal → Decimal) (s : Engine) : BookAction → Prop
  | .command (.submitOrder order) =>
    order.lock.2 ≤ s.balanceCache.available order.userId order.lock.1 ∧
      order.takesOff dv (s.orderbook order.pair) = true
  | .command (.cancelOrder orderId userId pair) =>
    ∃ book buys price order, s.found pair orderId = some (book, buys, price, order) ∧ order.userId = userId
  | _ => False

/-- Then the matcher lets an order go. -/
theorem matching_takesOff (dv : Decimal → Decimal → Decimal) (order : OrderEntry) (book : OrderBook) :
    (order.matching dv book).dropped.length = 0 ↔ order.takesOff dv book = false := by
  have hperm : (order.matching dv book).dropped.Perm (order.tour dv book).dropped := (matching_tours dv order book).2.2.2
  rw [hperm.length_eq, Tour.dropped, List.length_map, List.length_eq_zero_iff, List.filter_eq_nil_iff,
    OrderEntry.takesOff, List.any_eq_false]

/-- **The orders that the matcher lets go** are not counted down. -/
theorem matching_gains (dv : Decimal → Decimal → Decimal) {order : OrderEntry} (hk : order.Kind) (book : OrderBook) :
    (book.side (order.rule dv).scansBuys).Gains (order.matching dv book).dropped.length
      (order.matching dv book).side := by
  have hcards : ((order.matching dv book).side.stock.map fun _ => 1).sum +
      ((order.matching dv book).dropped.map fun _ => 1).sum + ((order.matching dv book).results.map fun _ => 0).sum =
        ((book.side (order.rule dv).scansBuys).stock.map fun _ => 1).sum :=
    matching_conserves dv hk (P := fun _ _ => True) (w := fun _ => 1) (g := fun _ => 0) (fun _ _ _ _ _ _ => trivial)
      (fun _ _ => trivial) fun _ => rfl
  have hcount : (order.matching dv book).side.totalOrders = (book.side (order.rule dv).scansBuys).totalOrders :=
    matchAgainst_totalOrders _ _ _
  simp only [Multiset.map_const', Multiset.sum_replicate, List.map_const', List.sum_replicate, Nat.nsmul_eq_mul,
    mul_one, mul_zero, add_zero] at hcards
  rw [OrderBookSide.Gains, ← OrderBookSide.card_stock, ← OrderBookSide.card_stock, ← hcards, hcount]
  omega

theorem submit_gains (dv : Decimal → Decimal → Decimal) (s : Engine) {order : OrderEntry} (hk : order.Kind) :
    ∃ n, s.Gains order.pair (order.rule dv).scansBuys n (processSubmitOrder dv s order).engine ∧
      (n = 0 ↔ ¬ BookAction.TakesUncounted dv s (.command (.submitOrder order))) := by
  rcases processSubmitOrder_cases dv s hk with hr | ⟨cache, book, settled, counted, released, hg⟩
  · exact ⟨0, Engine.gains_of_books hr.orderbooks, iff_of_true rfl fun ht => absurd ht.1 (not_le.2 hr.funds)⟩
  refine ⟨(order.matching dv (s.orderbook order.pair)).dropped.length, fun pair buys => ?_, ?_⟩
  · cases hg.after hk pair buys with
    | scanned hpair hbuys eq =>
      subst hpair hbuys
      rw [eq, if_pos ⟨rfl, rfl⟩]
      exact matching_gains dv hk _
    | joined p hpair hbuys left rests eq =>
      subst hpair hbuys
      rw [eq, rule_scansBuys, if_neg fun h => absurd h.2 (by simp)]
      exact OrderBookSide.gains_addOrder _ rests.price
    | kept other eq =>
      rw [eq, if_neg other]
      exact OrderBookSide.gains_refl _
  · rw [matching_takesOff, ← Bool.not_eq_true]
    exact (not_congr (and_iff_right hg.funds)).symm

theorem cancel_gains (dv : Decimal → Decimal → Decimal) (s : Engine) (orderId : OrderId) (userId : UserId)
    (pair : TradingPair) :
    ∃ buys n, s.Gains pair buys n (handleCancelOrder s orderId userId pair).engine ∧
      (n = 0 ↔ ¬ BookAction.TakesUncounted dv s (.command (.cancelOrder orderId userId pair))) := by
  rcases handleCancelOrder_cases s orderId userId pair with hn | ⟨book, buys, price, order, unlocked, hf, ht⟩
  · refine ⟨true, 0, Engine.gains_of_books (by rw [hn.engine]), iff_of_true rfl ?_⟩
    rintro ⟨book, buys, price, order, hf, hu⟩
    exact hn.other book buys price order hf hu
  refine ⟨buys, 1, fun pair' buys' => ?_,
    iff_of_false one_ne_zero fun hnot => hnot ⟨book, buys, price, order, hf, ht.owner⟩⟩
  rcases ht.after pair' buys' with ⟨rfl, rfl, hlocated, he⟩ | ⟨hother, he⟩
  · rw [he, if_pos ⟨rfl, rfl⟩]
    exact OrderBookSide.gains_takeOut hlocated
  · rw [he, if_neg hother]
    exact OrderBookSide.gains_refl _

omit [Arithmetic] in
/-- A side after a call of `remove_order`. -/
theorem removeOrder_side (s : Engine) (pair : TradingPair) (orderId : OrderId) (orderType : OrderType) (price : Decimal)
    (pair' : TradingPair) (buys : Bool) :
    ((s.removeOrder pair orderId orderType price).orderbook pair').side buys = (s.orderbook pair').side buys ∨
      ((s.removeOrder pair orderId orderType price).orderbook pair').side buys =
        (((s.orderbook pair').side buys).removeOrder orderId price).1 := by
  unfold Engine.removeOrder
  cases hbook : s.orderbooks.lookup pair with
  | none => exact Or.inl rfl
  | some book =>
    dsimp only
    rw [Engine.orderbook_insert]
    by_cases hpair : pair' = pair
    swap
    · rw [if_neg hpair]
      exact Or.inl rfl
    subst hpair
    rw [if_pos rfl, Engine.orderbook_of_lookup hbook]
    cases orderType <;> cases buys <;> simp [OrderBook.removeOrder, OrderBook.side]

/-- **What a step lets the counts gain**: something, if and only if it takes an order uncounted. -/
theorem apply_gains (dv : Decimal → Decimal → Decimal) {a : BookAction} (ha : a.Validated) (hs : s.CountsAll) :
    ∃ pair buys n, s.Gains pair buys n (s.apply dv a) ∧ (n = 0 ↔ ¬ a.TakesUncounted dv s) := by
  cases a with
  | removeOrder pair orderId orderType price =>
    refine ⟨pair, true, 0, fun pair' buys => ?_, iff_of_true rfl id⟩
    rw [ite_self, Engine.apply]
    rcases removeOrder_side s pair orderId orderType price pair' buys with he | he
    · rw [he]; exact OrderBookSide.gains_refl _
    · rw [he]; exact OrderBookSide.gains_removeOrder (hs pair' buys) _ _
  | command c =>
    cases c with
    | submitOrder order => exact ⟨_, _, submit_gains dv s (validated_kind ha)⟩
    | cancelOrder orderId userId pair => exact ⟨pair, cancel_gains dv s orderId userId pair⟩
    | _ => exact ⟨⟨"", ""⟩, true, 0, Engine.gains_of_books rfl, iff_of_true rfl id⟩

/-! ## Runs -/

theorem countsAll_apply (dv : Decimal → Decimal → Decimal) {a : BookAction} (ha : a.Validated) (h : s.CountsAll) :
    (s.apply dv a).CountsAll := by
  obtain ⟨pair, buys, n, hgains, -⟩ := apply_gains dv ha h
  exact hgains.countsAll h

omit [Arithmetic] in
theorem countsAll_start (c : BalanceCache) : (Engine.start c).CountsAll := by
  intro pair buys
  have : (Engine.start c).orderbook pair = .new pair := rfl
  rw [this, OrderBook.side_new]
  exact le_rfl

end Rounded

/-- **The cached counts.** Along a run of commands and calls of `remove_order` from empty books,
the counts are the numbers of orders in the queues if and only if no step takes an order off the
book uncounted. In every state, a call of `remove_order` that finds an order finds it counted. -/
theorem run_counted_iff [Arithmetic] (dv : Decimal → Decimal → Decimal) (cache : BalanceCache) (as : List BookAction)
    (has : ∀ a ∈ as, a.Validated) :
    ((∀ done more, as = done ++ more → (done.foldl (Engine.apply dv) (Engine.start cache)).Counted) ↔
        ∀ done a more, as = done ++ a :: more →
          ¬ a.TakesUncounted dv (done.foldl (Engine.apply dv) (Engine.start cache))) ∧
      ∀ pair buys orderId price order,
        (((((as.foldl (Engine.apply dv) (Engine.start cache)).orderbook pair).side buys).removeOrder orderId price).2 =
            some order) →
          1 ≤ (((as.foldl (Engine.apply dv) (Engine.start cache)).orderbook pair).side buys).totalOrders := by
  have hstep : ∀ (s : Engine) (a : BookAction), s.CountsAll → a.Validated → (s.apply dv a).CountsAll :=
    fun s a h ha => countsAll_apply dv ha h
  refine ⟨Runs.states_iff (fun s a => a.TakesUncounted dv s) hstep ?_ as _ (countsAll_start cache) ?_ has, ?_⟩
  · intro s a h hs ha
    obtain ⟨pair, buys, n, hgains, hn⟩ := apply_gains dv ha h
    rw [hgains.counted_iff hs, hn]
  · exact fun pair => ⟨rfl, rfl⟩
  · intro pair buys orderId price order hr
    exact OrderBookSide.removeOrder_counted (Runs.inv hstep as _ (countsAll_start cache) has pair buys) hr

/-- A part of an ask is bought, and then the ask is removed. -/
theorem run_counted_remove :
    (([.command (.submitOrder (limitOrder 1 1 .sell 10 5)), .command (.submitOrder (limitOrder 2 2 .buy 10 3)),
        .removeOrder solUsdt 1 .sell 10] : List BookAction).foldl (Engine.apply decimalDiv)
      (Engine.start ((BalanceCache.new.setBalance 1 "SOL" 5 0).setBalance 2 "USDT" 100 0))).Counted := by
  refine (run_counted_iff decimalDiv _ _ ?_).1.2 ?_ _ [] (List.append_nil _).symm
  · simp only [List.forall_mem_cons]
    exact ⟨limitOrder_validated 1 1 (Or.inr rfl) (by norm_num) (by norm_num),
      limitOrder_validated 2 2 (Or.inl rfl) (by norm_num) (by norm_num), trivial, by simp⟩
  · refine History.each_cons.2 ⟨fun h => absurd h.2 (by decide +kernel), History.each_cons.2 ⟨fun h => ?_, ?_⟩⟩
    · exact absurd h.2 (by decide +kernel)
    · exact History.each_cons.2 ⟨id, History.each_nil⟩

/-- A cancelled ask stays counted. -/
theorem run_not_counted :
    ¬ ∀ (dv : Decimal → Decimal → Decimal) (cache : BalanceCache) (as : List BookAction), RoundsToDecimal dv →
      (∀ a ∈ as, a.Validated) →
        ∀ done more, as = done ++ more → (done.foldl (Engine.apply dv) (Engine.start cache)).Counted := by
  intro h
  have hcounted := h decimalDiv (BalanceCache.new.setBalance 2 "SOL" 5 0)
    [.command (.submitOrder (limitOrder 1 2 .sell 10 5)), .command (.cancelOrder 1 2 solUsdt)]
    decimalDiv_roundsToDecimal (by
      simp only [List.forall_mem_cons]
      exact ⟨limitOrder_validated 1 2 (Or.inr rfl) (by norm_num) (by norm_num), trivial, by simp⟩)
    _ [] (List.append_nil _).symm solUsdt
  exact absurd hcounted.2 (by decide +kernel)

end CexEngine
