import CexEngine.Proof.Agreement
import CexEngine.Proof.Conservation

/-!
# Balances in events

A market order builds its events after the rest of its lock is released, a limit order before.

* `OrderEntry.LastCurrent`: the last event of a submit has the balances that the submit leaves.
* `OrderEntry.Overlocked`: a limit order is filled for less than it has locked.
* `published_iff`: **in every state that the handlers reach, the last event of a submit is current
  if the order is not overlocked**, and not if it is overlocked and no sum is rounded.
-/

namespace CexEngine

variable {dv : Decimal → Decimal → Decimal} {s : Engine} {order : OrderEntry}

section Rounded

variable [A : Arithmetic]

/-- The balances of an event, in the mints of a pair, are those of the cache. -/
structure TradeExecutedEvent.Current (e : TradeExecutedEvent) (pair : TradingPair) (c : BalanceCache) : Prop where
  buyerBase : e.buyerBase = c.entry e.trade.buyerId pair.baseMint
  buyerQuote : e.buyerQuote = c.entry e.trade.buyerId pair.quoteMint
  sellerBase : e.sellerBase = c.entry e.trade.sellerId pair.baseMint
  sellerQuote : e.sellerQuote = c.entry e.trade.sellerId pair.quoteMint

/-- If the submit is answered `Ok`, the last event it builds has the balances it leaves. -/
def OrderEntry.LastCurrent (dv : Decimal → Decimal → Decimal) (s : Engine) (order : OrderEntry) : Prop :=
  (processSubmitOrder dv s order).answer.isOk = true →
    ∀ e ∈ (processSubmitOrder dv s order).events.getLast?,
      e.Current order.pair (processSubmitOrder dv s order).engine.balanceCache

/-- A limit order that its deals fill, and for which they take less than it has locked. -/
structure OrderEntry.Overlocked (dv : Decimal → Decimal → Decimal) (s : Engine) (order : OrderEntry) : Prop where
  limit : order.orderSide ≠ .market
  filled : (order.tour dv (s.orderbook order.pair)).incoming.remainingAmount = 0
  left : 0 < (limitLeftover order (order.deals dv s)).2

instance (dv : Decimal → Decimal → Decimal) (s : Engine) (order : OrderEntry) : Decidable (order.Overlocked dv s) :=
  decidable_of_iff (order.orderSide ≠ .market ∧ (order.tour dv (s.orderbook order.pair)).incoming.remainingAmount = 0 ∧
    0 < (limitLeftover order (order.deals dv s)).2) ⟨fun ⟨h₁, h₂, h₃⟩ => ⟨h₁, h₂, h₃⟩, fun ⟨h₁, h₂, h₃⟩ => ⟨h₁, h₂, h₃⟩⟩

/-- Trades take no more than they say from what is locked, done or not. -/
theorem BalanceCache.locked_executeTrades [ExactSums] (skip : Bool) (u : UserId) (m : Mint) :
    ∀ (ts : List MatchResult) (c : BalanceCache), BalanceCache.Positive ts →
      c.locked u m - BalanceCache.debits ts u m ≤ (c.executeTrades skip ts).1.locked u m := by
  intro ts
  induction ts with
  | nil => intro c _; simp [BalanceCache.executeTrades]
  | cons t ts ih =>
    intro c h
    obtain ⟨hp, ha⟩ := h t List.mem_cons_self
    have hrest := ih (c.executeTrade t skip).1 h.tail
    have hseller : 0 ≤ t.sellerDebit u m := posting_nonneg ha
    have hdebit := MatchResult.debit_nonneg (u := u) (m := m) hp ha
    have hone : c.locked u m - t.debit u m ≤ (c.executeTrade t skip).1.locked u m := by
      rcases executeTrade_cases c t skip with ⟨-, -, hsame⟩ | ⟨-, -, -, hm⟩ | ⟨-, -, -, hm⟩
      · rw [hsame.locked]; linarith
      · -- the quote went, the base did not
        have hbuyer : posting t.buyerId t.quoteMint (-t.totalValue) u m = -t.buyerDebit u m := by
          simp only [MatchResult.buyerDebit, posting]
          split_ifs <;> ring
        rw [hm.locked, hbuyer, MatchResult.debit]
        linarith
      · rw [hm.locked]; linarith
    rw [BalanceCache.executeTrades_cons, BalanceCache.debits_cons]
    dsimp only
    linarith

section Granted

variable {cache : BalanceCache} {book : OrderBook}
  {settled : BalanceCache × List (MatchResult × Except EngineError (List DbCommand))}
  {counted : List MatchResult} {released : BalanceCache × Option (Except EngineError Unit)}
  (hk : order.Kind) (hg : Granted dv s order cache book settled counted released)

include hk hg

/-- The events of a submit: a market order builds them last. -/
theorem Granted.events : (processSubmitOrder dv s order).events =
    counted.map (tradeExecuted (if order.orderSide = .market then released.1 else settled.1)) := by
  have hresults := (matchAndRest_spec dv hk (s.orderbook order.pair)).2.1
  have hanswer := hg.answer
  have htrades := hg.trades
  have hreleased := hg.release
  unfold processSubmitOrder at hanswer ⊢
  rw [hg.lock] at htrades
  dsimp only at hanswer ⊢
  cases hlock : (s.balanceCache.lockBalanceForOrder order.userId order.lock.1 order.lock.2).2 with
  | error e => simp only [hlock] at hanswer; cases hanswer
  | ok _ =>
    by_cases hside : order.orderSide = .market
    · simp only [hside, if_true, true_or, decide_true] at htrades hreleased ⊢
      have hcounted := hg.counts
      rw [if_pos hside] at hcounted
      simp only [finishMarketOrder, hresults, marketLeftover_eq hside]
      rw [← htrades, ← hcounted, ← hreleased]
    · have hcounted := hg.counts
      rw [if_neg hside] at hcounted
      simp only [hside, if_false, decide_false] at htrades ⊢
      simp only [finishLimitOrder, hresults]
      rw [← htrades, ← hcounted]

omit hk in
/-- Every match that counts is one the matcher made. -/
theorem Granted.counted_sub : ∀ t ∈ counted, t ∈ (order.matching dv (s.orderbook order.pair)).results := by
  intro t ht
  rw [hg.counts] at ht
  split_ifs at ht
  · obtain ⟨x, hx, rfl⟩ := List.mem_map.1 ht
    have hx := List.mem_map_of_mem (f := Prod.fst) (List.mem_of_mem_filter hx)
    rwa [hg.trades, BalanceCache.executeTrades_fst] at hx
  · exact ht

/-- If the release left the balances the events were built from, the last event is current. -/
theorem last_current_of_same
    (h : BalanceCache.SameBalances (if order.orderSide = .market then released.1 else settled.1) released.1) :
    order.LastCurrent dv s := by
  intro _ e he
  rw [hg.events hk] at he
  obtain ⟨t, ht, rfl⟩ := List.mem_map.1 (List.mem_of_mem_getLast? he)
  obtain ⟨hb, hq, -⟩ := matching_parties dv hk _ t (hg.counted_sub t ht)
  rw [hg.engine]
  constructor <;> simp only [tradeExecuted, hb, hq] <;> exact (h _ _).symm

omit hk in
/-- A limit order releases something if and only if it is overlocked. -/
theorem overlocked_iff (hside : order.orderSide ≠ .market) :
    order.Overlocked dv s ↔ (processSubmitOrder dv s order).release.isSome = true := by
  have hincoming : (order.matching dv (s.orderbook order.pair)).incoming =
      (order.tour dv (s.orderbook order.pair)).incoming := (matching_tours dv order _).2.1
  have hcounts := hg.counts
  rw [if_neg hside, matching_deals] at hcounts
  have hleft : (limitLeftover order (order.deals dv s)).2 =
      Arithmetic.sub order.lock.2 (order.used (order.deals dv s)) := by
    rw [limitLeftover_eq hside]
  have hrelease := hg.release
  rw [hincoming, hcounts, ← hleft] at hrelease
  simp only [hside, false_or] at hrelease
  rw [hg.outcome.2, hrelease]
  constructor
  · rintro ⟨-, hfilled, hpos⟩
    rw [if_pos hfilled, BalanceCache.release, if_pos hpos]
    rfl
  · intro hsome
    split_ifs at hsome with hfilled
    · rw [BalanceCache.release] at hsome
      split_ifs at hsome with hpos
      · exact ⟨hside, hfilled, hpos⟩
      · cases hsome
    · cases hsome

/-- **Where the order is not overlocked**, the last event is current. -/
theorem last_current_of_not (hnot : ¬ order.Overlocked dv s) : order.LastCurrent dv s := by
  refine last_current_of_same hk hg ?_
  by_cases hside : order.orderSide = .market
  · rw [if_pos hside]
    exact fun _ _ => rfl
  rw [if_neg hside]
  have hnone : released.2.isSome = false := by
    rw [← hg.outcome.2, ← Bool.not_eq_true, ← overlocked_iff hg hside]
    exact hnot
  have hrelease := hg.release
  split_ifs at hrelease with hends
  · rw [hrelease, BalanceCache.release] at hnone ⊢
    split_ifs at hnone ⊢
    · cases hnone
    · exact fun _ _ => rfl
  · rw [hrelease]
    exact fun _ _ => rfl

/-- If something was moved to the order's user, the last event is not current. -/
theorem not_last_current_of_moved (hside : order.orderSide ≠ .market)
    (hne : (order.matching dv (s.orderbook order.pair)).results ≠ [])
    (hmoved : settled.1.available order.userId order.lock.1 < released.1.available order.userId order.lock.1) :
    ¬ order.LastCurrent dv s := by
  intro h
  have hcounted := hg.counts
  rw [if_neg hside] at hcounted
  rw [← hcounted] at hne
  have hlast : (processSubmitOrder dv s order).events.getLast? =
      some (tradeExecuted settled.1 (counted.getLast hne)) := by
    rw [hg.events hk, if_neg hside, List.getLast?_map, List.getLast?_eq_getLast_of_ne_nil hne]
    rfl
  have hcurrent := h (by rw [hg.answer]; rfl) _ hlast
  obtain ⟨hb, hq, hparties⟩ := matching_parties dv hk _ _ (hg.counted_sub _ (List.getLast_mem hne))
  have hentry : settled.1.entry order.userId order.lock.1 = released.1.entry order.userId order.lock.1 := by
    by_cases hbuy : order.orderType = .buy
    · have hquote := hcurrent.buyerQuote
      rw [if_pos hbuy] at hparties
      rw [hg.engine] at hquote
      simp only [tradeExecuted, hparties.1, hq] at hquote
      rw [OrderEntry.lock, if_pos hbuy]
      exact hquote
    · have hbase := hcurrent.sellerBase
      rw [if_neg hbuy] at hparties
      rw [hg.engine] at hbase
      simp only [tradeExecuted, hparties.1, hb] at hbase
      rw [OrderEntry.lock, if_neg hbuy]
      exact hbase
  exact hmoved.ne (congrArg Balance.available hentry)

/-- What the deals leave of the lock is still locked. -/
theorem Granted.left_locked (hpos : s.OrdersPositive) (hexact : order.SpendsExactly dv s) :
    s.balanceCache.locked order.userId order.lock.1 + Arithmetic.sub order.lock.2 (order.used (order.deals dv s)) ≤
      settled.1.locked order.userId order.lock.1 := by
  have hpositive : BalanceCache.Positive (order.deals dv s) := by
    rw [← matching_deals]
    exact fun t ht => have h := deals_pos hk hpos t ht; ⟨h.1.le, h.2.le⟩
  have htrades := @BalanceCache.locked_executeTrades A.exactSums A.exactSums_exact (order.orderSide = .market)
    order.userId order.lock.1 _ cache hpositive
  rw [← hg.settled_exact hexact.toEntersExactly, (hg.locked_exact hexact.toEntersExactly).locked, posting_self] at htrades
  rw [hexact.left_eq hk, ← add_sub_assoc]
  exact htrades

/-- **Where no sum is rounded** and the order is overlocked, it is not. -/
theorem not_last_current_of_overlocked (hpos : s.OrdersPositive)
    (hlocked : 0 ≤ s.balanceCache.locked order.userId order.lock.1) (hexact : order.SpendsExactly dv s)
    (hover : order.Overlocked dv s) : ¬ order.LastCurrent dv s := by
  obtain ⟨hside, hfilled, hleft⟩ := hover
  rw [limitLeftover_eq hside] at hleft
  have hle := hg.left_locked hk hpos hexact
  have hrelease := hg.release_exact hexact.toEntersExactly fun h => absurd h hside
  rw [if_pos (Or.inr hfilled)] at hrelease
  obtain ⟨-, hmoves⟩ := @release_spec A.exactSums A.exactSums_exact settled.1 order.userId order.lock.1 _ hleft.le
    (by linarith)
  rw [← hrelease] at hmoves
  refine not_last_current_of_moved hk hg hside (fun hnil => ?_) ?_
  · -- an order that nothing fills is not filled
    have hincoming := matching_nil hk hnil
    rw [(matching_tours dv order _).2.1] at hincoming
    rw [hincoming] at hfilled
    exact (hk.quantity (hk.no_budget fun h => hside h.2)).remaining_pos.ne' hfilled
  · rw [hmoves.available, posting_self]
    linarith

end Granted

end Rounded

/-! ## Runs -/

/-- **Events are current** if and only if the order is refused or not overlocked: it is enough in any
call, and needed where no sum is rounded. -/
theorem last_current_iff [Arithmetic] (hk : order.Kind) (hpos : s.OrdersPositive)
    (hlocked : 0 ≤ s.balanceCache.locked order.userId order.lock.1) :
    ((order.lock.2 ≤ s.balanceCache.available order.userId order.lock.1 → ¬ order.Overlocked dv s) →
        order.LastCurrent dv s) ∧
      (order.SpendsExactly dv s → order.LastCurrent dv s →
        order.lock.2 ≤ s.balanceCache.available order.userId order.lock.1 → ¬ order.Overlocked dv s) := by
  rcases processSubmitOrder_cases dv s hk with hr | ⟨cache, book, settled, counted, released, hg⟩
  · refine ⟨fun _ hok => ?_, fun _ _ hfunds => absurd hfunds (not_le.2 hr.funds)⟩
    rw [hr.answer] at hok
    cases hok
  · exact ⟨fun h => last_current_of_not hk hg (h hg.funds),
      fun hexact hcurrent _ hover => not_last_current_of_overlocked hk hg hpos hlocked hexact hover hcurrent⟩

/-- **In every state that the handlers reach**, from balances that are not negative and no books,
the last event of the submit of an admitted order has the balances that the submit leaves if the
order is refused or not overlocked. Where no sum is rounded that the order takes, it has them only then. -/
theorem published_iff [Arithmetic] (dv : Decimal → Decimal → Decimal) (cache : BalanceCache) (cs : List Command)
    (hcache : cache.Sound) (hcs : ∀ c ∈ cs, c.LocksNonneg) (order : OrderEntry) (horder : order.Validated) :
    ((order.lock.2 ≤ ((Engine.start cache).run dv cs).balanceCache.available order.userId order.lock.1 →
          ¬ order.Overlocked dv ((Engine.start cache).run dv cs)) →
        order.LastCurrent dv ((Engine.start cache).run dv cs)) ∧
      (order.SpendsExactly dv ((Engine.start cache).run dv cs) → order.LastCurrent dv ((Engine.start cache).run dv cs) →
        order.lock.2 ≤ ((Engine.start cache).run dv cs).balanceCache.available order.userId order.lock.1 →
          ¬ order.Overlocked dv ((Engine.start cache).run dv cs)) := by
  have key := run_inv dv (I := fun s => s.Tidy ∧ s.balanceCache.Sound)
    (fun s c h (hc : c.LocksNonneg) => ⟨tidy_step hc.validated h.1, sound_step hc h.1.placed.ordersNonneg h.2⟩) cs
    (Engine.start cache)
    ⟨tidy_start cache, hcache⟩ hcs
  exact last_current_iff (validated_kind horder) key.1.placed.ordersPositive (key.2 _ _).2

/-- A buy of 3 at the price of the ask. -/
theorem published_iff_buy :
    (limitOrder 2 1 .buy 10 3).LastCurrent (· / ·)
      ((Engine.start ((BalanceCache.new.setBalance 1 "USDT" 100 0).setBalance 2 "SOL" 5 0)).run (· / ·)
        [.submitOrder (limitOrder 1 2 .sell 10 5)]) := by
  refine (published_iff (· / ·) ((BalanceCache.new.setBalance 1 "USDT" 100 0).setBalance 2 "SOL" 5 0)
    [.submitOrder (limitOrder 1 2 .sell 10 5)]
    ((BalanceCache.sound_new.setBalance 1 "USDT" (by norm_num) le_rfl).setBalance 2 "SOL" (by norm_num) le_rfl) ?_
    _ (limitOrder_validated 2 1 (Or.inl rfl) (by norm_num) (by norm_num))).1 fun _ => ?_
  · simp only [List.forall_mem_cons]
    exact ⟨limitOrder_validated 1 2 (Or.inr rfl) (by norm_num) (by norm_num), by simp⟩
  · decide +kernel

/-- The cost of both asks is rounded up and the cost of each is rounded down, so something of the lock
is left. -/
example : @OrderEntry.Overlocked decimalArithmetic decimalDiv
    (@Engine.run decimalArithmetic decimalDiv
      (.start (((BalanceCache.new.setBalance 1 "USDT" 100 0).setBalance 2 "SOL" 5 0).setBalance 3 "SOL" 5 0))
      [.submitOrder (limitOrder 1 2 .sell 0.3 1.0000000000000000000000000008),
        .submitOrder (limitOrder 2 3 .sell 0.3 1.0000000000000000000000000008)])
    (limitOrder 3 1 .buy 0.3 2.0000000000000000000000000016) := by decide +kernel

/-- A buy of 3 at 12 from an ask at 10: the event has 64 available and 6 locked, the engine 70 and
nothing. -/
theorem published_not :
    ¬ ∀ (dv : Decimal → Decimal → Decimal) (cache : BalanceCache) (cs : List Command), cache.Sound →
      (∀ c ∈ cs, c.LocksNonneg) → ∀ order : OrderEntry, order.Validated →
        order.LastCurrent dv ((Engine.start cache).run dv cs) := by
  intro hall
  have h := hall (· / ·) ((BalanceCache.new.setBalance 1 "USDT" 100 0).setBalance 2 "SOL" 5 0)
    [.submitOrder (limitOrder 1 2 .sell 10 5)]
    ((BalanceCache.sound_new.setBalance 1 "USDT" (by norm_num) le_rfl).setBalance 2 "SOL" (by norm_num) le_rfl) (by
      simp only [List.forall_mem_cons]
      exact ⟨limitOrder_validated 1 2 (Or.inr rfl) (by norm_num) (by norm_num), by simp⟩)
    (limitOrder 2 1 .buy 12 3) (limitOrder_validated 2 1 (Or.inl rfl) (by norm_num) (by norm_num)) (by decide +kernel)
    ⟨⟨2, 1, 1, 2, 10, 3, "SOL", "USDT"⟩, ⟨3, 0⟩, ⟨64, 6⟩, ⟨0, 2⟩, ⟨30, 0⟩⟩ (by decide +kernel)
  have hquote := h.buyerQuote
  revert hquote
  decide +kernel

end CexEngine
