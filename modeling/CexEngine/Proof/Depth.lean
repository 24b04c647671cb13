import Mathlib.Order.Bounds.Basic
import CexEngine.Proof.BookInvariant
import CexEngine.Proof.PriceTime

/-!
# The depth of a query

`GetOrderbook` takes a depth as a number of price levels, and counts orders.

* `run_orderbook_wellFormed`: every book that a run of admitted orders reaches is well formed.
* `collectLevels_some`: what the two loops collect is the first orders, as many as the depth
  says and at least one.
* `take_eq_levels_iff`: these are the orders of the best levels if and only if the levels hold
  no more orders than the depth says.
* `getOrderbook_depth_iff`: the same for the command, with the query of all orders and the best
  prices, which are right.
-/

namespace CexEngine

theorem Engine.Tidy.wellFormed {s : Engine} (h : s.Tidy) (pair : TradingPair) : (s.orderbook pair).WellFormed where
  nonempty := h.noEmptyLevel pair
  priced buys x hx := (h.placed pair buys x hx).price
  remaining_pos buys x hx := (h.placed pair buys x hx).remaining_pos

/-- **Every book of every run is well formed.** -/
theorem run_orderbook_wellFormed (dv : Decimal → Decimal → Decimal) (cache : BalanceCache) (cs : List Command)
    (hcs : ∀ c ∈ cs, c.Validated) (pair : TradingPair) :
    (((Engine.start cache).run dv cs).orderbook pair).WellFormed := by
  have htidy : ((Engine.start cache).run dv cs).Tidy :=
    run_inv dv (fun _ _ h hc => tidy_step hc h) cs _ (tidy_start cache) hcs
  exact htidy.wellFormed pair

/-- The orders of the best `d` levels, best price first and in queue order. -/
def OrderBookSide.bestLevels (side : OrderBookSide) (isBuy : Bool) (d : ℕ) : List OrderEntry :=
  ((side.levels isBuy).take d).flatMap Prod.snd

section Loops

variable {queue : List OrderEntry} {levels : List (Decimal × List OrderEntry)}

/-- The inner loop collects at least one order. -/
theorem collectQueue_some (d : ℕ) : ∀ (queue collected : List OrderEntry),
    collectQueue (some d) collected queue = collected ++ queue.take (max 1 (d - collected.length)) := by
  intro queue
  induction queue with
  | nil => intro collected; simp [collectQueue]
  | cons o queue ih =>
    intro collected
    simp only [collectQueue, Option.any_some, List.length_append, List.length_singleton, decide_eq_true_eq]
    split_ifs with hd
    · rw [max_eq_left (by omega), List.take_succ_cons, List.take_zero]
    · rw [ih, List.length_append, List.length_singleton, List.append_assoc, List.singleton_append,
        ← List.take_succ_cons]
      congr 2
      omega

theorem collectQueue_none : ∀ (queue collected : List OrderEntry),
    collectQueue none collected queue = collected ++ queue := by
  intro queue
  induction queue with
  | nil => intro collected; simp [collectQueue]
  | cons o queue ih => intro collected; simp [collectQueue, ih]

/-- **The outer loop** collects as many orders as the depth says, and at least one. -/
theorem collectLevels_some (d : ℕ) : ∀ (levels : List (Decimal × List OrderEntry)) (collected : List OrderEntry),
    (∀ e ∈ levels, e.2 ≠ []) →
      collectLevels (some d) collected levels =
        collected ++ (levels.flatMap Prod.snd).take (max 1 (d - collected.length)) := by
  intro levels
  induction levels with
  | nil => intro collected _; simp [collectLevels]
  | cons e levels ih =>
    intro collected hne
    have hpos : 0 < e.2.length := List.length_pos_of_ne_nil (hne e List.mem_cons_self)
    simp only [collectLevels, collectQueue_some, Option.any_some, List.length_append, List.length_take,
      decide_eq_true_eq, List.flatMap_cons, List.take_append]
    split_ifs with hd
    · -- the queue reaches the depth
      rw [show max 1 (d - collected.length) - e.2.length = 0 by omega, List.take_zero, List.append_nil]
    · rw [ih _ fun e' he' => hne e' (List.mem_cons_of_mem _ he'), List.length_append, List.length_take,
        List.append_assoc]
      congr 3
      omega

theorem collectLevels_none : ∀ (levels : List (Decimal × List OrderEntry)) (collected : List OrderEntry),
    collectLevels none collected levels = collected ++ levels.flatMap Prod.snd := by
  intro levels
  induction levels with
  | nil => intro collected; simp [collectLevels]
  | cons e levels ih => intro collected; simp [collectLevels, collectQueue_none, ih]

/-- So many levels hold at least as many orders. -/
theorem length_le_flatMap (hne : ∀ e ∈ levels, e.2 ≠ []) : levels.length ≤ (levels.flatMap Prod.snd).length := by
  induction levels with
  | nil => exact le_rfl
  | cons e levels ih =>
    have hpos : 0 < e.2.length := List.length_pos_of_ne_nil (hne e List.mem_cons_self)
    have := ih fun e' he' => hne e' (List.mem_cons_of_mem _ he')
    rw [List.flatMap_cons, List.length_append, List.length_cons]
    omega

/-- **The first `d` orders, at least one, are those of the first `d` levels** if and only if
there are none, or these levels hold no more than `d`. -/
theorem take_eq_levels_iff (hne : ∀ e ∈ levels, e.2 ≠ []) (d : ℕ) :
    (levels.flatMap Prod.snd).take (max 1 d) = (levels.take d).flatMap Prod.snd ↔
      levels = [] ∨ (1 ≤ d ∧ ((levels.take d).flatMap Prod.snd).length ≤ d) := by
  have hsplit : levels.flatMap Prod.snd = (levels.take d).flatMap Prod.snd ++ (levels.drop d).flatMap Prod.snd := by
    rw [← List.flatMap_append, List.take_append_drop]
  have htotal := congrArg List.length hsplit
  rw [List.length_append] at htotal
  have hrest : (levels.drop d).length ≤ ((levels.drop d).flatMap Prod.snd).length :=
    length_le_flatMap fun e he => hne e (List.mem_of_mem_drop he)
  have hfirst : (levels.take d).length ≤ ((levels.take d).flatMap Prod.snd).length :=
    length_le_flatMap fun e he => hne e (List.mem_of_mem_take he)
  rw [List.length_drop] at hrest
  rw [List.length_take] at hfirst
  constructor
  · intro h
    have hlen := congrArg List.length h
    rw [List.length_take] at hlen
    rcases Nat.eq_zero_or_pos levels.length with hzero | hpos
    · exact Or.inl (List.length_eq_zero_iff.1 hzero)
    · right
      rcases Nat.eq_zero_or_pos d with rfl | hd
      · simp only [List.take_zero, List.flatMap_nil, List.length_nil] at hlen
        omega
      · exact ⟨hd, by omega⟩
  · rintro (rfl | ⟨hd, hle⟩)
    · simp
    · rw [hsplit, List.take_append, max_eq_right hd, List.take_of_length_le hle]
      rcases Nat.lt_or_ge d levels.length with hlt | hge
      · rw [show d - ((levels.take d).flatMap Prod.snd).length = 0 by omega, List.take_zero, List.append_nil]
      · rw [List.drop_of_length_le hge, List.flatMap_nil, List.take_nil, List.append_nil]

end Loops

/-! ## The command -/

variable {s : Engine} {pair : TradingPair}

/-- The two sides of a query, for a book that is there or not. -/
theorem handleGetOrderbook_eq (s : Engine) (pair : TradingPair) (depth : Option ℕ) :
    handleGetOrderbook s pair depth =
      (collectLevels depth [] (((s.orderbook pair).side true).levels true),
        collectLevels depth [] (((s.orderbook pair).side false).levels false)) := by
  unfold handleGetOrderbook
  cases hbook : s.orderbooks.lookup pair with
  | some book => rw [Engine.orderbook_of_lookup hbook]; rfl
  | none =>
    have hnew : s.orderbook pair = .new pair := by simp [Engine.orderbook, hbook]
    rw [hnew, OrderBook.side_new, OrderBook.side_new]
    rfl

/-- The best `d` levels hold no more than `d` orders. -/
def OrderBookSide.WithinDepth (side : OrderBookSide) (isBuy : Bool) (d : ℕ) : Prop :=
  side.levels isBuy = [] ∨ (1 ≤ d ∧ (side.bestLevels isBuy d).length ≤ d)

/-- A query with a depth, side by side. -/
theorem getOrderbook_iff (h : (s.orderbook pair).WellFormed) (d : ℕ) :
    handleGetOrderbook s pair (some d) =
        (((s.orderbook pair).side true).bestLevels true d, ((s.orderbook pair).side false).bestLevels false d) ↔
      ∀ buys, ((s.orderbook pair).side buys).WithinDepth buys d := by
  have hside : ∀ buys, collectLevels (some d) [] (((s.orderbook pair).side buys).levels buys) =
      ((s.orderbook pair).side buys).bestLevels buys d ↔ ((s.orderbook pair).side buys).WithinDepth buys d := by
    intro buys
    have hne := (h.nonempty buys).levels buys
    rw [collectLevels_some d _ _ hne, List.nil_append, List.length_nil, Nat.sub_zero]
    exact take_eq_levels_iff hne d
  rw [handleGetOrderbook_eq, Prod.mk.injEq, hside, hside, Bool.forall_bool, and_comm]

/-- The prices of a side. -/
def OrderBookSide.prices (side : OrderBookSide) : Set Decimal := {p | ∃ o, (p, o) ∈ side.stock}

/-- The price of the first order is the best price. -/
theorem firstPrice_eq_some (h : (s.orderbook pair).WellFormed) (buys : Bool) (p : Decimal) :
    (collectLevels (some 1) [] (((s.orderbook pair).side buys).levels buys)).head?.bind OrderEntry.price = some p ↔
      p ∈ ((s.orderbook pair).side buys).prices ∧
        ∀ q ∈ ((s.orderbook pair).side buys).prices, q = p ∨ BTreeMap.Before buys p q := by
  have hne := (h.nonempty buys).levels buys
  rw [collectLevels_some 1 _ _ hne, List.nil_append, List.length_nil, Nat.sub_zero, max_self]
  cases hbest : ((s.orderbook pair).side buys).getBestPrice buys with
  | none =>
    have hstock := OrderBookSide.stock_eq_zero hbest
    rw [OrderBookSide.getBestPrice_eq_none hbest]
    simp [OrderBookSide.prices, hstock]
  | some best =>
    obtain ⟨queue, rest, hl, hq⟩ := OrderBookSide.getBestPrice_eq_some hbest
    rw [hl] at hne ⊢
    obtain ⟨o, queue, rfl⟩ := List.exists_cons_of_ne_nil (hne _ List.mem_cons_self)
    have hmem : (best, o) ∈ ((s.orderbook pair).side buys).stock :=
      OrderBookSide.mem_stock.2 ⟨o :: queue, BTreeMap.get?_eq_some.1 hq, List.mem_cons_self⟩
    have hprice : o.price = some best := h.priced buys _ hmem
    have hfirst : ∀ q ∈ ((s.orderbook pair).side buys).prices, q = best ∨ BTreeMap.Before buys best q := by
      rintro q ⟨o', ho'⟩
      exact OrderBookSide.getBestPrice_before hbest ho'
    simp only [List.flatMap_cons, List.cons_append, List.take_succ_cons, List.head?_cons, Option.bind_some, hprice,
      Option.some.injEq]
    constructor
    · rintro rfl
      exact ⟨⟨o, hmem⟩, hfirst⟩
    · rintro ⟨hp, hall⟩
      rcases hfirst p hp with hp | hp
      · exact hp.symm
      · exact absurd ((hall best ⟨o, hmem⟩).imp_left Eq.symm) hp.not_before

theorem getBestBid_eq (s : Engine) (pair : TradingPair) :
    s.getBestBid pair = (handleGetOrderbook s pair (some 1)).1.head?.bind OrderEntry.price := by
  unfold Engine.getBestBid
  cases (handleGetOrderbook s pair (some 1)).1 <;> rfl

theorem getBestAsk_eq (s : Engine) (pair : TradingPair) :
    s.getBestAsk pair = (handleGetOrderbook s pair (some 1)).2.head?.bind OrderEntry.price := by
  unfold Engine.getBestAsk
  cases (handleGetOrderbook s pair (some 1)).2 <;> rfl

/-- `get_best_bid` is the highest buy price. -/
theorem getBestBid_iff (h : (s.orderbook pair).WellFormed) (p : Decimal) :
    s.getBestBid pair = some p ↔ IsGreatest ((s.orderbook pair).side true).prices p := by
  rw [getBestBid_eq, handleGetOrderbook_eq, firstPrice_eq_some h true]
  refine and_congr_right fun _ => forall₂_congr fun q _ => ?_
  rw [BTreeMap.Before, if_pos rfl, le_iff_eq_or_lt]

/-- `get_best_ask` is the lowest sell price. -/
theorem getBestAsk_iff (h : (s.orderbook pair).WellFormed) (p : Decimal) :
    s.getBestAsk pair = some p ↔ IsLeast ((s.orderbook pair).side false).prices p := by
  rw [getBestAsk_eq, handleGetOrderbook_eq, firstPrice_eq_some h false]
  refine and_congr_right fun _ => forall₂_congr fun q _ => ?_
  rw [BTreeMap.Before, if_neg Bool.false_ne_true, le_iff_eq_or_lt, eq_comm]

/-- **A query returns the best levels** if and only if they hold no more orders than levels were
asked for; without a depth it returns all orders, and the best prices are the best. -/
theorem getOrderbook_depth_iff (s : Engine) (pair : TradingPair) (h : (s.orderbook pair).WellFormed) :
    (∀ d, handleGetOrderbook s pair (some d) =
        (((s.orderbook pair).side true).bestLevels true d, ((s.orderbook pair).side false).bestLevels false d) ↔
      ∀ buys, ((s.orderbook pair).side buys).WithinDepth buys d) ∧
      handleGetOrderbook s pair none =
        (((s.orderbook pair).side true).queued true, ((s.orderbook pair).side false).queued false) ∧
      (∀ p, s.getBestBid pair = some p ↔ IsGreatest ((s.orderbook pair).side true).prices p) ∧
      ∀ p, s.getBestAsk pair = some p ↔ IsLeast ((s.orderbook pair).side false).prices p := by
  refine ⟨getOrderbook_iff h, ?_, getBestBid_iff h, getBestAsk_iff h⟩
  rw [handleGetOrderbook_eq, collectLevels_none, collectLevels_none]
  rfl

/-- An engine with two asks at one price. -/
def twoAsks : Engine where
  orderbooks := (∅ : AList fun _ : TradingPair => OrderBook).insert solUsdt
    (((OrderBook.new solUsdt).addOrder (limitOrder 1 1 .sell 10 5)).addOrder (limitOrder 2 2 .sell 10 3))
  balanceCache := .new

theorem twoAsks_wellFormed : (twoAsks.orderbook solUsdt).WellFormed := by
  have hone : ((OrderBook.new solUsdt).addOrder (limitOrder 1 1 .sell 10 5)).WellFormed :=
    (OrderBook.wellFormed_new solUsdt).addOrder rfl (by decide +kernel)
  have htwo : (((OrderBook.new solUsdt).addOrder (limitOrder 1 1 .sell 10 5)).addOrder
      (limitOrder 2 2 .sell 10 3)).WellFormed := hone.addOrder rfl (by decide +kernel)
  exact htwo

/-- A depth of one level returns one of the two. -/
theorem getOrderbook_cut_level :
    ¬ ∀ (s : Engine) (pair : TradingPair), (s.orderbook pair).WellFormed → ∀ d, handleGetOrderbook s pair (some d) =
      (((s.orderbook pair).side true).bestLevels true d, ((s.orderbook pair).side false).bestLevels false d) := by
  intro h
  exact absurd (h twoAsks solUsdt twoAsks_wellFormed 1) (by decide +kernel)

/-- A depth of two returns both. -/
theorem getOrderbook_both : handleGetOrderbook twoAsks solUsdt (some 2) =
    (((twoAsks.orderbook solUsdt).side true).bestLevels true 2,
      ((twoAsks.orderbook solUsdt).side false).bestLevels false 2) := by
  refine ((getOrderbook_depth_iff twoAsks solUsdt twoAsks_wellFormed).1 2).2 ?_
  rw [Bool.forall_bool]
  exact ⟨Or.inr (by decide +kernel), Or.inl (by decide +kernel)⟩

end CexEngine
