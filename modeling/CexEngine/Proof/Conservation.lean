import CexEngine.Proof.BookInvariant

/-!
# Trading moves assets

`run_conserves`: along every run of submits, cancels, locks and unlocks no balance becomes
negative and the total of every mint stays what it was, whichever of the trades, unlocks and
cancels on the way are refused.
-/

namespace CexEngine

variable {dv : Decimal → Decimal → Decimal} {s : Engine}

/-- The commands of trading: an admitted order, a cancel, a lock or unlock of an amount that
is not negative, a query. -/
def Command.Trades : Command → Prop
  | .submitOrder order => order.Validated
  | .cancelOrder _ _ _ => True
  | .lockBalance _ _ amount => 0 ≤ amount
  | .unlockBalance _ _ amount => 0 ≤ amount
  | .getOrderbook _ _ => True
  | .getBalance _ _ => True
  | .updateBalance _ _ _ => False

section Rounded

variable [Arithmetic]

/-- No resting order has a negative price or quantity. -/
def Engine.OrdersNonneg (s : Engine) : Prop :=
  s.AllOrders fun _ _ p o => 0 ≤ p ∧ 0 ≤ o.price.getD 0 ∧ 0 ≤ o.remainingAmount

theorem Engine.Placed.ordersNonneg (h : s.Placed) : s.OrdersNonneg := fun pair buys x hx =>
  have hr := h pair buys x hx
  ⟨hr.price_pos.le, by rw [hr.price]; exact hr.price_pos.le, hr.remaining_pos.le⟩

theorem ordersNonneg_submit {order : OrderEntry} (hk : order.Kind) (h : s.OrdersNonneg) :
    (processSubmitOrder dv s order).engine.OrdersNonneg := by
  refine allOrders_submit hk ?_ ?_ h
  · rintro _ _ p o a ⟨h₁, h₂, -⟩ - hpos
    exact ⟨h₁, h₂, hpos.le⟩
  · intro incoming p _ hR
    exact ⟨hR.price_pos.le, by rw [hR.price]; exact hR.price_pos.le, hR.remaining_pos.le⟩

/-- The matches of a call have no negative price or amount. -/
theorem matching_positive (dv : Decimal → Decimal → Decimal) {order : OrderEntry} (hk : order.Kind) (h : s.OrdersNonneg) :
    BalanceCache.Positive (order.matching dv (s.orderbook order.pair)).results := by
  have hfacts := matching_facts dv hk (s.orderbook order.pair)
    (P := fun p o => 0 ≤ p ∧ 0 ≤ o.price.getD 0 ∧ 0 ≤ o.remainingAmount)
    (fun p o a ⟨h₁, h₂, _⟩ _ hpos => ⟨h₁, h₂, hpos.le⟩) (h order.pair _)
  intro m hm
  obtain ⟨incoming, price, resting, amount, hf, rfl⟩ := hfacts.results m hm
  rw [fill_report_price, fill_report_amount]
  exact ⟨hf.rests.1, fill_amount_nonneg hk hf.rests.2.2 hf⟩

/-- Submits of admitted orders, cancels, locks and unlocks of amounts that are not negative,
deposits and withdrawals, and queries. -/
def Command.LocksNonneg : Command → Prop
  | .submitOrder order => order.Validated
  | .lockBalance _ _ amount => 0 ≤ amount
  | .unlockBalance _ _ amount => 0 ≤ amount
  | _ => True

omit [Arithmetic] in
theorem Command.LocksNonneg.validated {c : Command} (h : c.LocksNonneg) : c.Validated := by
  cases c with
  | submitOrder order => exact h
  | _ => trivial

theorem sound_submit {order : OrderEntry} (hk : order.Kind) (hbooks : s.OrdersNonneg) (h : s.balanceCache.Sound) :
    (processSubmitOrder dv s order).engine.balanceCache.Sound := by
  rcases processSubmitOrder_cases dv s hk with hr | ⟨cache, book, settled, counted, released, hg⟩
  · exact hr.balances.holds.sound h
  have hlock : cache.Sound := by
    rw [hg.lock]
    exact h.lockBalance hk.lock_nonneg
  have htrades : settled.1.Sound := by
    rw [hg.trades]
    exact hlock.executeTrades _ (matching_positive dv hk hbooks)
  rw [hg.engine, hg.release]
  split_ifs
  · unfold BalanceCache.release
    split_ifs with hpos
    · exact htrades.unlockBalance hpos.le
    · exact htrades
  · exact htrades

theorem sound_cancel {orderId : OrderId} {userId : UserId} {pair : TradingPair} (hbooks : s.OrdersNonneg)
    (h : s.balanceCache.Sound) : (handleCancelOrder s orderId userId pair).engine.balanceCache.Sound := by
  rcases handleCancelOrder_cases s orderId userId pair with hn | ⟨book, buys, price, order, unlocked, -, ht⟩
  · rw [hn.engine]; exact h
  rw [ht.engine, ht.unlock]
  refine h.unlockBalance ?_
  have hmem := hbooks pair buys (price, order)
  rw [Engine.orderbook_of_lookup ht.found, OrderBookSide.stock_takeOut ht.located] at hmem
  obtain ⟨-, hp, hr⟩ := hmem (Multiset.mem_cons_self _ _)
  unfold OrderEntry.unlock
  split_ifs
  · exact Arithmetic.mul_nonneg hp hr
  · exact hr

omit [Arithmetic] in
theorem Command.Orders.locksNonneg {c : Command} (h : c.Orders) : c.LocksNonneg := by
  cases c with
  | submitOrder order => exact h
  | cancelOrder _ _ _ => trivial
  | _ => exact h.elim

/-- No command drives a balance negative. -/
theorem sound_step {c : Command} (hc : c.LocksNonneg) (hbooks : s.OrdersNonneg) (h : s.balanceCache.Sound) :
    (s.step dv c).balanceCache.Sound := by
  cases c with
  | updateBalance user mint delta => exact h.addAvailable user mint delta
  | submitOrder order => exact sound_submit (validated_kind hc) hbooks h
  | cancelOrder orderId userId pair => exact sound_cancel hbooks h
  | lockBalance user mint amount => exact h.lockBalance hc
  | unlockBalance user mint amount => exact h.unlockBalance hc
  | getOrderbook _ _ => exact h
  | getBalance _ _ => exact h

end Rounded

/-! ## Supply -/

theorem holds_release (c : BalanceCache) (user : UserId) (mint : Mint) (amount : Decimal) :
    BalanceCache.Holds c (c.release user mint amount).1 := by
  unfold BalanceCache.release
  split_ifs with h
  · exact BalanceCache.holds_unlockBalance c user mint (le_of_lt h)
  · exact BalanceCache.Holds.refl c

/-- Submitting moves assets: the lock, every trade, done or half done, and the release. -/
theorem holds_submit {order : OrderEntry} (hk : order.Kind) (h : s.OrdersNonneg) :
    BalanceCache.Holds s.balanceCache (processSubmitOrder dv s order).engine.balanceCache := by
  refine ⟨sound_submit hk h, fun m => ?_⟩
  rcases processSubmitOrder_cases dv s hk with hr | ⟨cache, book, settled, counted, released, hg⟩
  · exact hr.balances.holds.supply m
  have hrelease : released.1.supply m = settled.1.supply m := by
    rw [hg.release]
    split_ifs
    · exact (holds_release _ _ _ _).supply m
    · rfl
  rw [hg.engine, hrelease, hg.trades, BalanceCache.supply_executeTrades, hg.lock, BalanceCache.supply_lockBalance]

/-- Cancelling moves assets. -/
theorem holds_cancel {orderId : OrderId} {userId : UserId} {pair : TradingPair} (h : s.OrdersNonneg) :
    BalanceCache.Holds s.balanceCache (handleCancelOrder s orderId userId pair).engine.balanceCache := by
  refine ⟨sound_cancel h, fun m => ?_⟩
  rcases handleCancelOrder_cases s orderId userId pair with hn | ⟨book, buys, price, order, unlocked, -, ht⟩
  · rw [hn.engine]
  · rw [ht.engine, ht.unlock, BalanceCache.supply_unlockBalance]

/-- One command of trading. -/
theorem step_conserves (dv : Decimal → Decimal → Decimal) {c : Command} (hc : c.Trades) (h : s.OrdersNonneg) :
    (s.step dv c).OrdersNonneg ∧ BalanceCache.Holds s.balanceCache (s.step dv c).balanceCache := by
  cases c with
  | submitOrder order =>
    have hk := validated_kind hc
    exact ⟨ordersNonneg_submit hk h, holds_submit hk h⟩
  | cancelOrder orderId userId pair => exact ⟨allOrders_cancel _ _ _ h, holds_cancel h⟩
  | lockBalance user mint amount => exact ⟨h, BalanceCache.holds_lockBalance _ _ _ hc⟩
  | unlockBalance user mint amount => exact ⟨h, BalanceCache.holds_unlockBalance _ _ _ hc⟩
  | getOrderbook _ _ => exact ⟨h, BalanceCache.Holds.refl _⟩
  | getBalance _ _ => exact ⟨h, BalanceCache.Holds.refl _⟩
  | updateBalance _ _ _ => exact hc.elim

/-- **Trading neither makes nor destroys assets and drives no balance negative**: from any
balances that are not negative, with any books whose orders have no negative price or
quantity, along any run of trading commands. -/
theorem run_conserves (dv : Decimal → Decimal → Decimal) (s : Engine) (cs : List Command)
    (hbooks : s.OrdersNonneg) (hbalances : s.balanceCache.Sound) (hcs : ∀ c ∈ cs, c.Trades) :
    (∀ u m, 0 ≤ (s.run dv cs).balanceCache.available u m ∧ 0 ≤ (s.run dv cs).balanceCache.locked u m) ∧
      ∀ m, ∑ u : UserId, ((s.run dv cs).balanceCache.available u m + (s.run dv cs).balanceCache.locked u m) =
        ∑ u : UserId, (s.balanceCache.available u m + s.balanceCache.locked u m) := by
  have key := run_inv dv
    (I := fun t => t.OrdersNonneg ∧ BalanceCache.Holds s.balanceCache t.balanceCache)
    (fun t c ⟨hb, hh⟩ hc =>
      have hstep := step_conserves dv hc hb
      ⟨hstep.1, hh.trans hstep.2⟩)
    cs s ⟨hbooks, BalanceCache.Holds.refl _⟩ hcs
  exact ⟨key.2.sound hbalances, key.2.supply⟩

/-- A run with a trade, a lock beside it and a cancel of what is left. -/
theorem run_conserves_trade :
    let s := Engine.start ((BalanceCache.new.setBalance 1 "USDT" 100 0).setBalance 2 "SOL" 5 0)
    let t := s.run (· / ·) [.submitOrder (limitOrder 1 2 .sell 10 5), .lockBalance 1 "USDT" 30,
      .submitOrder (limitOrder 2 1 .buy 10 3), .cancelOrder 1 2 solUsdt]
    t.balanceCache.Sound ∧ t.balanceCache.supply "SOL" = s.balanceCache.supply "SOL" := by
  intro s t
  have hsound : s.balanceCache.Sound := ((BalanceCache.sound_new.setBalance 1 "USDT" (by norm_num) le_rfl).setBalance
    2 "SOL" (by norm_num) le_rfl)
  have h := run_conserves (· / ·) s [.submitOrder (limitOrder 1 2 .sell 10 5), .lockBalance 1 "USDT" 30,
    .submitOrder (limitOrder 2 1 .buy 10 3), .cancelOrder 1 2 solUsdt] (Engine.allOrders_start _ _) hsound (by
      simp only [List.forall_mem_cons]
      refine ⟨limitOrder_validated 1 2 (Or.inr rfl) (by norm_num) (by norm_num), ?_,
        limitOrder_validated 2 1 (Or.inl rfl) (by norm_num) (by norm_num), trivial, by simp⟩
      exact (by norm_num : (0 : ℚ) ≤ 30))
  exact ⟨h.1, h.2 "SOL"⟩

end CexEngine
