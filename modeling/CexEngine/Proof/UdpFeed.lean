import CexEngine.Proof.Depth
import CexEngine.Spec.UdpFeed

/-!
# The entries of the UDP feed

The feed sends what `GetOrderbook` returns, one entry an order, as if it were price levels.

* `aggregated`: what `get_buy_orders` and `get_sell_orders` return.
* `take_eq_aggregate_iff`: the first orders, as many as the depth says, are the best levels with
  their sums if and only if each of these levels holds one order.
* `sendOrderbook_aggregates_iff`: **the same for a message**.
-/

namespace CexEngine

/-- One entry for each of the best `d` levels, from the best price on, with the sum of what
remains at its price. -/
structure OrderBookSide.Aggregated (side : OrderBookSide) (isBuy : Bool) (d : ℕ) (entries : List (Decimal × Decimal)) :
    Prop where
  sorted : entries.Pairwise fun a b => BTreeMap.Before isBuy a.1 b.1
  length : entries.length = min d side.priceLevels
  amounts : ∀ e ∈ entries, ∃ queue, side.orders.get? e.1 = some queue ∧ e.2 = (queue.map OrderEntry.remainingAmount).sum
  best : ∀ e ∈ entries, ∀ level ∈ side.levels isBuy,
    level.1 ∈ entries.map Prod.fst ∨ BTreeMap.Before isBuy e.1 level.1

/-- **The aggregated view of a side.** -/
theorem OrderBookSide.aggregated (side : OrderBookSide) (isBuy : Bool) (d : ℕ) :
    side.Aggregated isBuy d (side.aggregate isBuy d) := by
  have hsorted : (side.levels isBuy).Pairwise fun a b => BTreeMap.Before isBuy a.1 b.1 :=
    BTreeMap.bestFirst_sorted side.orders isBuy
  have hlevels : (side.levels isBuy).length = side.priceLevels := by
    unfold levels BTreeMap.bestFirst priceLevels
    split_ifs
    · exact List.length_reverse
    · rfl
  have hsplit := hsorted
  rw [← List.take_append_drop d (side.levels isBuy), List.pairwise_append] at hsplit
  refine ⟨?_, ?_, fun e he => ?_, fun e he level hlevel => ?_⟩
  · exact List.pairwise_map.2 hsplit.1
  · rw [aggregate, List.length_map, List.length_take, hlevels]
  · obtain ⟨level, hl, rfl⟩ := List.mem_map.1 he
    exact ⟨level.2, BTreeMap.get?_eq_some.2 (BTreeMap.mem_bestFirst.1 (List.mem_of_mem_take hl)), rfl⟩
  · obtain ⟨first, hf, rfl⟩ := List.mem_map.1 he
    rw [← List.take_append_drop d (side.levels isBuy)] at hlevel
    rcases List.mem_append.1 hlevel with hl | hl
    · left
      rw [aggregate, List.map_map]
      exact List.mem_map.2 ⟨level, hl, rfl⟩
    · exact Or.inr (hsplit.2.2 first hf level hl)

section Levels

/-- An order's own price and quantity, as an entry. -/
def entryOf (o : OrderEntry) : Decimal × Decimal := (o.price.getD 0, o.remainingAmount)

/-- The first orders are the first levels with their sums only if each level holds one order. -/
theorem one_of_take_eq : ∀ (levels : List (Decimal × List OrderEntry)) (d : ℕ),
    (∀ l ∈ levels, l.2 ≠ [] ∧ ∀ o ∈ l.2, 0 < o.remainingAmount) →
      ((levels.flatMap Prod.snd).take d).map entryOf =
        (levels.take d).map (fun l => (l.1, (l.2.map OrderEntry.remainingAmount).sum)) →
      ∀ l ∈ levels.take d, l.2.length = 1 := by
  intro levels
  induction levels with
  | nil => intro d _ _ l hl; simp at hl
  | cons level levels ih =>
    intro d hlevels h
    obtain ⟨price, queue⟩ := level
    obtain ⟨⟨hne, hpos⟩, hrest⟩ := List.forall_mem_cons.1 hlevels
    obtain ⟨o, queue, rfl⟩ := List.exists_cons_of_ne_nil hne
    cases d with
    | zero => intro l hl; simp at hl
    | succ d =>
      simp only [List.flatMap_cons, List.cons_append, List.take_succ_cons, List.map_cons, List.sum_cons] at h
      obtain ⟨hfirst, hmore⟩ := List.cons.inj h
      -- nothing is added to the first quantity, so there is no second order
      have hzero : (queue.map OrderEntry.remainingAmount).sum = 0 := by
        have := congrArg Prod.snd hfirst
        simp only [entryOf] at this
        linarith
      obtain rfl : queue = [] := by
        by_contra hq
        have := List.sum_pos (queue.map OrderEntry.remainingAmount)
          (fun x hx => by
            obtain ⟨o', ho', rfl⟩ := List.mem_map.1 hx
            exact hpos o' (List.mem_cons_of_mem _ ho'))
          (by simpa using hq)
        linarith
      rw [List.nil_append] at hmore
      intro l hl
      rw [List.take_succ_cons] at hl
      rcases List.mem_cons.1 hl with rfl | hl
      · rfl
      · exact ih d hrest hmore l hl

/-- If each level holds one order, these are the same. -/
theorem take_eq_of_one : ∀ (levels : List (Decimal × List OrderEntry)) (d : ℕ),
    (∀ l ∈ levels, ∀ o ∈ l.2, o.price = some l.1) → (∀ l ∈ levels.take d, l.2.length = 1) →
      ((levels.flatMap Prod.snd).take d).map entryOf =
        (levels.take d).map fun l => (l.1, (l.2.map OrderEntry.remainingAmount).sum) := by
  intro levels
  induction levels with
  | nil => intro d _ _; simp
  | cons level levels ih =>
    intro d hpriced hone
    obtain ⟨price, queue⟩ := level
    obtain ⟨hprice, hrest⟩ := List.forall_mem_cons.1 hpriced
    cases d with
    | zero => simp
    | succ d =>
      rw [List.take_succ_cons, List.forall_mem_cons] at hone
      obtain ⟨o, rfl⟩ := List.length_eq_one_iff.1 hone.1
      simp only [List.flatMap_cons, List.singleton_append, List.take_succ_cons, List.map_cons]
      rw [ih d hrest hone.2, entryOf, hprice o List.mem_cons_self]
      simp

/-- **The first `d` orders, at least one, are the best `d` levels with their sums** if and only if
there are none, or each of these levels holds one order. -/
theorem take_eq_aggregate_iff {levels : List (Decimal × List OrderEntry)}
    (hlevels : ∀ l ∈ levels, l.2 ≠ [] ∧ ∀ o ∈ l.2, o.price = some l.1 ∧ 0 < o.remainingAmount) (d : ℕ) :
    ((levels.flatMap Prod.snd).take (max 1 d)).map entryOf =
        (levels.take d).map (fun l => (l.1, (l.2.map OrderEntry.remainingAmount).sum)) ↔
      levels = [] ∨ (1 ≤ d ∧ ∀ l ∈ levels.take d, l.2.length = 1) := by
  rcases Nat.eq_zero_or_pos d with rfl | hd
  · -- one order is returned for no level
    cases levels with
    | nil => simp
    | cons level levels =>
      obtain ⟨o, queue, hq⟩ := List.exists_cons_of_ne_nil (hlevels level List.mem_cons_self).1
      simp [hq]
  · rw [max_eq_right hd]
    constructor
    · intro h
      exact Or.inr ⟨hd, one_of_take_eq levels d
        (fun l hl => ⟨(hlevels l hl).1, fun o ho => ((hlevels l hl).2 o ho).2⟩) h⟩
    · rintro (rfl | ⟨-, hone⟩)
      · simp
      · exact take_eq_of_one levels d (fun l hl o ho => ((hlevels l hl).2 o ho).1) hone

end Levels

/-! ## The message -/

/-- The side is empty, or a level at least is asked for, and each of the best levels holds one
order. -/
def OrderBookSide.OneAtEach (side : OrderBookSide) (isBuy : Bool) (d : ℕ) : Prop :=
  side.levels isBuy = [] ∨ (1 ≤ d ∧ ∀ level ∈ (side.levels isBuy).take d, level.2.length = 1)

instance (side : OrderBookSide) (isBuy : Bool) (d : ℕ) : Decidable (side.OneAtEach isBuy d) :=
  inferInstanceAs (Decidable (_ ∨ _))

/-- What a message lists of a side. -/
def listed (entries : List UdpOrderbookEntry) : List (Decimal × Decimal) := entries.map fun e => (e.price, e.amount)

variable {s : Engine}

/-- One side of a message. -/
theorem listed_iff (depth : ℕ) (h : (s.orderbook feedPair).WellFormed) (buys : Bool) :
    listed ((collectLevels (some depth) [] (((s.orderbook feedPair).side buys).levels buys)).map OrderEntry.udpEntry) =
        ((s.orderbook feedPair).side buys).aggregate buys depth ↔
      ((s.orderbook feedPair).side buys).OneAtEach buys depth := by
  have hne := (h.nonempty buys).levels buys
  have hlevels : ∀ l ∈ ((s.orderbook feedPair).side buys).levels buys,
      l.2 ≠ [] ∧ ∀ o ∈ l.2, o.price = some l.1 ∧ 0 < o.remainingAmount := by
    intro l hl
    refine ⟨hne l hl, fun o ho => ?_⟩
    have hmem : (l.1, o) ∈ ((s.orderbook feedPair).side buys).stock :=
      OrderBookSide.mem_stock.2 ⟨l.2, BTreeMap.mem_bestFirst.1 hl, ho⟩
    exact ⟨h.priced buys _ hmem, h.remaining_pos buys _ hmem⟩
  have hentries : ∀ os : List OrderEntry, listed (os.map OrderEntry.udpEntry) = os.map entryOf := by
    intro os
    rw [listed, List.map_map]
    rfl
  rw [hentries, collectLevels_some depth _ _ hne, List.nil_append, List.length_nil, Nat.sub_zero]
  exact take_eq_aggregate_iff hlevels depth

/-- **A message of the feed lists the price levels** that `get_buy_orders` and `get_sell_orders`
return — one entry a level, from the best price on, with the sum of what remains there — if and
only if each of the best levels holds one order. -/
theorem sendOrderbook_aggregates_iff (s : Engine) (h : (s.orderbook feedPair).WellFormed) (clock : UInt64 × UInt64)
    (depth : ℕ) :
    (∀ message, sendOrderbookForAllPairs s.getOrderbook clock depth = .ok message →
        (listed message.buyOrders = (s.orderbook feedPair).getBuyOrders depth ∧
            listed message.sellOrders = (s.orderbook feedPair).getSellOrders depth ↔
          ∀ buys, ((s.orderbook feedPair).side buys).OneAtEach buys depth)) ∧
      ((s.orderbook feedPair).side true).Aggregated true depth ((s.orderbook feedPair).getBuyOrders depth) ∧
      ((s.orderbook feedPair).side false).Aggregated false depth ((s.orderbook feedPair).getSellOrders depth) := by
  refine ⟨fun message hmessage => ?_, OrderBookSide.aggregated _ _ _, OrderBookSide.aggregated _ _ _⟩
  rw [sendOrderbookForAllPairs, Engine.getOrderbook, handleGetOrderbook_eq] at hmessage
  obtain rfl := Except.ok.inj hmessage
  have hbuy := listed_iff depth h true
  have hsell := listed_iff depth h false
  rw [Bool.forall_bool, and_comm]
  exact and_congr hsell hbuy

/-- Two asks at one price are two entries of a message, and one level. -/
theorem sendOrderbook_not_aggregates :
    ¬ ∀ (s : Engine) (clock : UInt64 × UInt64) (depth : ℕ) (message : UdpOrderbookMessage),
      (s.orderbook feedPair).WellFormed → sendOrderbookForAllPairs s.getOrderbook clock depth = .ok message →
        listed message.buyOrders = (s.orderbook feedPair).getBuyOrders depth ∧
          listed message.sellOrders = (s.orderbook feedPair).getSellOrders depth := by
  intro h
  exact absurd (h twoAsks (0, 0) 20 _ twoAsks_wellFormed rfl).2 (by decide +kernel)

/-- An engine with a bid and an ask. -/
def bidAndAsk : Engine where
  orderbooks := (∅ : AList fun _ : TradingPair => OrderBook).insert feedPair
    (((OrderBook.new feedPair).addOrder (limitOrder 1 1 .buy 9 3)).addOrder (limitOrder 2 2 .sell 10 5))
  balanceCache := .new

theorem bidAndAsk_wellFormed : (bidAndAsk.orderbook feedPair).WellFormed := by
  have hone : ((OrderBook.new feedPair).addOrder (limitOrder 1 1 .buy 9 3)).WellFormed :=
    (OrderBook.wellFormed_new feedPair).addOrder rfl (by decide +kernel)
  have htwo : (((OrderBook.new feedPair).addOrder (limitOrder 1 1 .buy 9 3)).addOrder
      (limitOrder 2 2 .sell 10 5)).WellFormed := hone.addOrder rfl (by decide +kernel)
  exact htwo

/-- One order on each side is one level on each side. -/
theorem sendOrderbook_one_each :
    sendOrderbookForAllPairs bidAndAsk.getOrderbook (7, 8) 20 = .ok ⟨7, 8, "SOL/USDT", [⟨9, 3⟩], [⟨10, 5⟩]⟩ ∧
      (bidAndAsk.orderbook feedPair).getBuyOrders 20 = [(9, 3)] ∧
      (bidAndAsk.orderbook feedPair).getSellOrders 20 = [(10, 5)] := by
  have hmessage : sendOrderbookForAllPairs bidAndAsk.getOrderbook (7, 8) 20 =
      .ok ⟨7, 8, "SOL/USDT", [⟨9, 3⟩], [⟨10, 5⟩]⟩ := by rfl
  obtain ⟨hbuy, hsell⟩ := ((sendOrderbook_aggregates_iff bidAndAsk bidAndAsk_wellFormed (7, 8) 20).1 _ hmessage).2
    (by decide +kernel)
  exact ⟨hmessage, hbuy.symm, hsell.symm⟩

end CexEngine
