import CexEngine.Proof.Books

/-!
# Sums over the resting orders

`Engine.total s w` adds a weight over every order that rests in any book. The handlers
change it by what is matched, let go, rested and taken out:

* `total_submit`: what rests, what was let go and what was matched weigh what rested before
  and the order that joined.
* `total_cancel`: the order that is taken out no longer counts.
-/

namespace CexEngine

variable {M : Type*} [AddCancelCommMonoid M]

/-- The weight of one side. -/
def OrderBookSide.total (side : OrderBookSide) (w : OrderEntry → M) : M := (side.stock.map fun x => w x.2).sum

/-- The weight of a book. -/
def OrderBook.total (book : OrderBook) (w : OrderEntry → M) : M := book.buyOrders.total w + book.sellOrders.total w

/-- The weight of all resting orders. -/
def Engine.total (s : Engine) (w : OrderEntry → M) : M := s.orderbooks.sumBy fun e => e.2.total w

@[simp] theorem OrderBookSide.total_new (w : OrderEntry → M) : OrderBookSide.new.total w = 0 := rfl

theorem OrderBookSide.total_addOrder {side : OrderBookSide} {order : OrderEntry} {p : Decimal}
    (h : order.price = some p) (w : OrderEntry → M) : (side.addOrder order).total w = w order + side.total w := by
  unfold total
  rw [stock_addOrder h, Multiset.map_cons, Multiset.sum_cons]

theorem OrderBook.total_side (book : OrderBook) (w : OrderEntry → M) (buys : Bool) :
    book.total w = (book.side buys).total w + (book.side !buys).total w := by
  cases buys
  · exact add_comm _ _
  · rfl

@[simp] theorem Engine.total_start (c : BalanceCache) (w : OrderEntry → M) : (Engine.start c).total w = 0 := rfl

/-- A book that is replaced. -/
theorem Engine.total_insert (s : Engine) (c : BalanceCache) (pair : TradingPair) (book : OrderBook)
    (w : OrderEntry → M) :
    (⟨s.orderbooks.insert pair book, c⟩ : Engine).total w + (s.orderbook pair).total w =
      s.total w + book.total w := by
  have hat : s.orderbooks.countAt (fun e => e.2.total w) pair = (s.orderbook pair).total w := by
    unfold AList.countAt Engine.orderbook
    cases s.orderbooks.lookup pair with
    | none => simp [OrderBook.total, OrderBook.new]
    | some book => rfl
  have h := AList.sumBy_insert s.orderbooks (fun e => e.2.total w) pair book
  rw [hat] at h
  exact h

variable [Arithmetic] {dv : Decimal → Decimal → Decimal}

section Submit

variable {s : Engine} {order : OrderEntry} {cache : BalanceCache} {book : OrderBook}
  {settled : BalanceCache × List (MatchResult × Except EngineError (List DbCommand))}
  {counted : List MatchResult} {released : BalanceCache × Option (Except EngineError Unit)}

/-- What a submit does to a weight, told by what it does to the side that it meets. -/
theorem total_submit_side (hk : order.Kind) (hg : Granted dv s order cache book settled counted released)
    {w : OrderEntry → M} {gone : M}
    (hmatch : (order.matching dv (s.orderbook order.pair)).side.total w + gone =
      ((s.orderbook order.pair).side (order.rule dv).scansBuys).total w) :
    (processSubmitOrder dv s order).engine.total w + gone =
      s.total w + if (order.matching dv (s.orderbook order.pair)).incoming.rests then
        w (order.matching dv (s.orderbook order.pair)).incoming else 0 := by
  have hins := s.total_insert released.1 order.pair book w
  rw [← hg.engine, (s.orderbook order.pair).total_side w (order.rule dv).scansBuys,
    book.total_side w (order.rule dv).scansBuys, hg.scanned, hg.joined] at hins
  have hl : Live order (order.matching dv (s.orderbook order.pair)).incoming :=
    (matching_facts dv hk _ (P := fun _ _ => True) (fun _ _ _ _ _ _ => trivial) fun _ _ => trivial).live
  -- the weights of the two sides cancel
  have hjoin : (if (order.matching dv (s.orderbook order.pair)).incoming.rests then
        ((s.orderbook order.pair).side !(order.rule dv).scansBuys).addOrder
          (order.matching dv (s.orderbook order.pair)).incoming
      else (s.orderbook order.pair).side !(order.rule dv).scansBuys).total w =
      (if (order.matching dv (s.orderbook order.pair)).incoming.rests then
        w (order.matching dv (s.orderbook order.pair)).incoming else 0) +
        ((s.orderbook order.pair).side !(order.rule dv).scansBuys).total w := by
    split_ifs with hr
    · obtain ⟨p, -, hR⟩ := rests_of_live hk hl hr
      exact OrderBookSide.total_addOrder hR.price w
    · rw [zero_add]
  rw [hjoin, ← hmatch] at hins
  refine add_right_cancel (b := (order.matching dv (s.orderbook order.pair)).side.total w +
    ((s.orderbook order.pair).side !(order.rule dv).scansBuys).total w) ?_
  calc _ = (processSubmitOrder dv s order).engine.total w +
        ((order.matching dv (s.orderbook order.pair)).side.total w + gone +
          ((s.orderbook order.pair).side !(order.rule dv).scansBuys).total w) := by abel
    _ = _ := by rw [hins]; abel

/-- **What a submit does to a weight** that fills turn into matches. -/
theorem total_submit (hk : order.Kind) (hg : Granted dv s order cache book settled counted released)
    {P : Decimal → OrderEntry → Prop}
    (hP : ∀ p o a, P p o → a ≤ o.remainingAmount → 0 < (o.fill a).remainingAmount → P p (o.fill a))
    (hside : ∀ x ∈ ((s.orderbook order.pair).side (order.rule dv).scansBuys).stock, P x.1 x.2)
    {w : OrderEntry → M} {g : MatchResult → M}
    (hw : ∀ {incoming price resting amount},
      (order.rule dv).Fills (Live order) P incoming price resting amount →
        w (resting.fill amount) + g ((order.rule dv).report incoming resting price amount) = w resting) :
    (processSubmitOrder dv s order).engine.total w +
        ((order.matching dv (s.orderbook order.pair)).dropped.map w).sum +
        ((order.matching dv (s.orderbook order.pair)).results.map g).sum =
      s.total w + if (order.matching dv (s.orderbook order.pair)).incoming.rests then
        w (order.matching dv (s.orderbook order.pair)).incoming else 0 := by
  rw [add_assoc]
  refine total_submit_side hk hg ?_
  rw [← add_assoc]
  exact matching_conserves dv hk hP hside hw

end Submit

/-- **A cancel takes the weight of one order away.** -/
theorem total_cancel {s : Engine} {orderId : OrderId} {userId : UserId} {pair : TradingPair} {book : OrderBook}
    {buys : Bool} {price : Decimal} {order : OrderEntry} {unlocked : BalanceCache × Except EngineError Unit}
    (h : TakenOut s orderId userId pair book buys price order unlocked) (w : OrderEntry → M) :
    (handleCancelOrder s orderId userId pair).engine.total w + w order = s.total w := by
  have hins := s.total_insert unlocked.1 pair (book.setSide buys ((book.side buys).takeOut price orderId)) w
  have hside : (book.side buys).total w = w order + ((book.side buys).takeOut price orderId).total w := by
    unfold OrderBookSide.total
    rw [OrderBookSide.stock_takeOut h.located, Multiset.map_cons, Multiset.sum_cons]
  rw [← h.engine, Engine.orderbook_of_lookup h.found, OrderBook.total_side _ w buys, OrderBook.total_side _ w buys,
    OrderBook.side_setSide, OrderBook.side_setSide_not, hside] at hins
  refine add_right_cancel (b := ((book.side buys).takeOut price orderId).total w + (book.side !buys).total w) ?_
  rw [← hins]
  abel

section Order

variable {M : Type*} [AddCancelCommMonoid M] [PartialOrder M] [IsOrderedAddMonoid M] {w : OrderEntry → M} {s : Engine}

omit [Arithmetic] in
theorem OrderBookSide.total_nonneg {side : OrderBookSide} (h : ∀ x ∈ side.stock, 0 ≤ w x.2) : 0 ≤ side.total w := by
  refine Multiset.sum_nonneg (Multiset.forall_mem_map_iff.2 fun x hx => ?_)
  exact h x hx

omit [Arithmetic] in
theorem Engine.total_nonneg (h : s.AllOrders fun _ _ _ o => 0 ≤ w o) : 0 ≤ s.total w := by
  refine List.sum_nonneg fun y hy => ?_
  obtain ⟨⟨pair, book⟩, he, rfl⟩ := List.mem_map.1 hy
  have hbook := Engine.orderbook_of_lookup (AList.mem_entries.1 he)
  have hs := h pair
  rw [hbook] at hs
  exact add_nonneg (OrderBookSide.total_nonneg (hs true)) (OrderBookSide.total_nonneg (hs false))

omit [Arithmetic] in
/-- What rests on one side is part of what rests. -/
theorem Engine.side_total_le (h : s.AllOrders fun _ _ _ o => 0 ≤ w o) (pair : TradingPair) (buys : Bool) :
    ((s.orderbook pair).side buys).total w ≤ s.total w := by
  -- the rest is what is there without the book
  have hins := s.total_insert s.balanceCache pair (.new pair) w
  have hnew : (OrderBook.new pair).total w = 0 := by simp [OrderBook.total, OrderBook.new]
  rw [hnew, add_zero] at hins
  have hrest : (⟨s.orderbooks.insert pair (.new pair), s.balanceCache⟩ : Engine).AllOrders
      fun _ _ _ o => 0 ≤ w o := by
    intro pair' buys' x hx
    rw [Engine.orderbook_insert] at hx
    split_ifs at hx
    · rw [OrderBook.side_new] at hx; simp at hx
    · exact h pair' buys' x hx
  have h₀ := Engine.total_nonneg hrest
  have h₁ := OrderBookSide.total_nonneg (h pair !buys)
  calc ((s.orderbook pair).side buys).total w
      ≤ ((s.orderbook pair).side buys).total w + ((s.orderbook pair).side !buys).total w :=
        le_add_of_nonneg_right h₁
    _ = (s.orderbook pair).total w := (OrderBook.total_side _ w buys).symm
    _ ≤ _ := by rw [← hins]; exact le_add_of_nonneg_left h₀

end Order

omit [Arithmetic] in
/-- Books that are left alone. -/
theorem Engine.total_congr {s s' : Engine} (h : s'.orderbooks = s.orderbooks) (w : OrderEntry → M) :
    s'.total w = s.total w := by
  rw [Engine.total, h, Engine.total]

end CexEngine
