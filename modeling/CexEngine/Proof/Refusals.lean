import CexEngine.Proof.Books

/-!
# Refused commands

A command that is answered with an error leaves every book and every balance as it was,
except in one case: a cancel whose unlock fails has taken the order out of the book already
and does not put it back (the ownership check before it does).

* `Command.LosesOrder`: that case, told from the state before.
* `refused_unchanged_iff`: a refused command changes nothing if and only if it is not that.
* `refused_not_unchanged`: a run that gets there.
-/

namespace CexEngine

variable {dv : Decimal → Decimal → Decimal}

/-- The same books and the same balances; a book or a balance that is not there is empty. -/
def Engine.Unchanged (s s' : Engine) : Prop :=
  (∀ pair, s'.orderbook pair = s.orderbook pair) ∧
    ∀ u m, s'.balanceCache.entry u m = s.balanceCache.entry u m

/-- A cancel of the caller's own resting order, which needs more than the caller has locked. -/
def Command.LosesOrder [Arithmetic] (s : Engine) : Command → Prop
  | .cancelOrder orderId userId pair => ∃ book buys price order,
      s.found pair orderId = some (book, buys, price, order) ∧ order.userId = userId ∧
        s.balanceCache.locked userId order.unlock.1 < order.unlock.2
  | _ => False

theorem Engine.Unchanged.refl (s : Engine) : s.Unchanged s := ⟨fun _ => rfl, fun _ _ => rfl⟩

theorem Engine.Unchanged.of_balances {s s' : Engine} (hb : s'.orderbooks = s.orderbooks)
    (hc : BalanceCache.SameBalances s.balanceCache s'.balanceCache) : s.Unchanged s' :=
  ⟨fun pair => by rw [Engine.orderbook, hb, Engine.orderbook], hc⟩

section Rounded

variable [Arithmetic]

/-- A submit that is answered with an error had its lock refused. -/
theorem submit_err {s : Engine} {order : OrderEntry} (h : (processSubmitOrder dv s order).answer.isOk = false) :
    Refused dv s order := by
  by_cases hfunds : s.balanceCache.available order.userId order.lock.1 < order.lock.2
  · exact processSubmitOrder_refused hfunds
  · exfalso
    have hlocked := BalanceCache.lockBalanceForOrder_ok (not_lt.1 hfunds)
    unfold processSubmitOrder at h
    simp only [hlocked] at h
    split_ifs at h <;> cases h

/-- A refused lock changes nothing. -/
theorem lock_err (s : Engine) (user : UserId) (mint : Mint) (amount : Decimal)
    (h : (handleLockBalance s user mint amount).2.isOk = false) :
    s.Unchanged (handleLockBalance s user mint amount).1 := by
  unfold handleLockBalance at h ⊢
  dsimp only at h ⊢
  by_cases hlt : s.balanceCache.available user mint < amount
  · exact .of_balances rfl (BalanceCache.lockBalanceForOrder_refused hlt).2
  · rw [BalanceCache.lockBalanceForOrder_ok (not_lt.1 hlt)] at h
    cases h

/-- A refused unlock changes nothing. -/
theorem unlock_err (s : Engine) (user : UserId) (mint : Mint) (amount : Decimal)
    (h : (handleUnlockBalance s user mint amount).2.isOk = false) :
    s.Unchanged (handleUnlockBalance s user mint amount).1 := by
  unfold handleUnlockBalance at h ⊢
  dsimp only at h ⊢
  obtain ⟨hfst, hsnd⟩ := BalanceCache.unlockBalanceForCancel_eq s.balanceCache user mint amount
  by_cases hlt : s.balanceCache.locked user mint < amount
  · exact .of_balances rfl (hfst ▸ (BalanceCache.unlockBalance_refused hlt).2)
  · rw [hsnd, BalanceCache.unlockBalance_granted (not_lt.1 hlt)] at h
    cases h

/-- An order that was taken out is missing from the book. -/
theorem TakenOut.not_unchanged {s : Engine} {orderId : OrderId} {userId : UserId} {pair : TradingPair}
    {book : OrderBook} {buys : Bool} {price : Decimal} {order : OrderEntry}
    {unlocked : BalanceCache × Except EngineError Unit}
    (h : TakenOut s orderId userId pair book buys price order unlocked) :
    ¬ s.Unchanged (handleCancelOrder s orderId userId pair).engine := by
  rintro ⟨hbooks, -⟩
  have hbook := hbooks pair
  rw [h.engine, Engine.orderbook_insert, if_pos rfl, Engine.orderbook_of_lookup h.found] at hbook
  have hside := congrArg (fun b : OrderBook => (b.side buys).stock.card) hbook
  simp only [OrderBook.side_setSide] at hside
  rw [OrderBookSide.stock_takeOut h.located, Multiset.card_cons] at hside
  omega

/-- **A refused command changes nothing, if and only if** it is not a cancel of the caller's
own resting order that needs more than the caller has locked. -/
theorem refused_unchanged_iff (dv : Decimal → Decimal → Decimal) (s : Engine) (c : Command)
    (h : (s.handle dv c).2.isErr = true) : s.Unchanged (s.step dv c) ↔ ¬ c.LosesOrder s := by
  cases c with
  | submitOrder order =>
    have hr : Refused dv s order := submit_err (by simpa [Engine.handle, Reply.isErr] using h)
    exact ⟨fun _ hc => hc, fun _ => .of_balances hr.orderbooks hr.balances⟩
  | lockBalance user mint amount =>
    have hu := lock_err s user mint amount
      (by simpa [Engine.handle, Reply.isErr] using h)
    exact ⟨fun _ hc => hc, fun _ => hu⟩
  | unlockBalance user mint amount =>
    have hu := unlock_err s user mint amount
      (by simpa [Engine.handle, Reply.isErr] using h)
    exact ⟨fun _ hc => hc, fun _ => hu⟩
  | updateBalance user mint delta => cases h
  | getOrderbook pair depth => cases h
  | getBalance user mint => cases h
  | cancelOrder orderId userId pair =>
    have herr : (handleCancelOrder s orderId userId pair).answer.isOk = false := by
      simpa [Engine.handle, Reply.isErr] using h
    change s.Unchanged (handleCancelOrder s orderId userId pair).engine ↔ _
    rcases handleCancelOrder_cases s orderId userId pair with hn | ⟨book, buys, price, order, unlocked, hf, ht⟩
    · rw [hn.engine]
      refine ⟨?_, fun _ => .refl s⟩
      rintro - ⟨book, buys, price, order, hf, hu, -⟩
      exact hn.other book buys price order hf hu
    · -- the order is out; the answer is an error only if the unlock failed
      have hfail : unlocked.2.isOk = false := by
        by_contra hok
        rw [ht.ok (by simpa using hok)] at herr
        cases herr
      refine ⟨fun hu => absurd hu ht.not_unchanged, fun hc => absurd ?_ hc⟩
      exact ⟨book, buys, price, order, hf, ht.owner, ht.unlock_err.1 hfail⟩

end Rounded

/-- The commands the engine is sent: admitted orders, locks and unlocks of amounts that are
not negative, anything else. -/
def Command.Admitted : Command → Prop
  | .submitOrder order => order.Validated
  | .lockBalance _ _ amount => 0 ≤ amount
  | .unlockBalance _ _ amount => 0 ≤ amount
  | _ => True

/-- An ask of 5 at 10 rests. A buy of 5 at 10 is refused to a user who has 40. -/
theorem refused_unchanged_submit :
    ((Engine.start ((BalanceCache.new.setBalance 1 "USDT" 40 0).setBalance 2 "SOL" 5 0)).run (· / ·)
        [.submitOrder (limitOrder 1 2 .sell 10 5)]).Unchanged
      ((Engine.start ((BalanceCache.new.setBalance 1 "USDT" 40 0).setBalance 2 "SOL" 5 0)).run (· / ·)
        [.submitOrder (limitOrder 1 2 .sell 10 5), .submitOrder (limitOrder 2 1 .buy 10 5)]) :=
  (refused_unchanged_iff (· / ·)
    ((Engine.start ((BalanceCache.new.setBalance 1 "USDT" 40 0).setBalance 2 "SOL" 5 0)).run (· / ·)
      [.submitOrder (limitOrder 1 2 .sell 10 5)]) (.submitOrder (limitOrder 2 1 .buy 10 5)) (by decide +kernel)).2 id

/-- A seller rests an order, has its lock unlocked and cancels: the cancel is answered with an
error and the order is gone. -/
theorem refused_not_unchanged :
    ¬ ∀ (dv : Decimal → Decimal → Decimal) (cache : BalanceCache) (cs : List Command) (c : Command),
      cache.Sound → (∀ c' ∈ cs, c'.Admitted) → c.Admitted →
        (((Engine.start cache).run dv cs).handle dv c).2.isErr = true →
          ((Engine.start cache).run dv cs).Unchanged (((Engine.start cache).run dv cs).step dv c) := by
  intro hall
  have h := hall (· / ·) (BalanceCache.new.setBalance 1 "SOL" 5 0)
    [.submitOrder (limitOrder 1 1 .sell 10 5), .unlockBalance 1 "SOL" 5] (.cancelOrder 1 1 solUsdt)
    (BalanceCache.sound_new.setBalance 1 "SOL" (by norm_num) le_rfl) (by
      simp only [List.forall_mem_cons]
      refine ⟨limitOrder_validated 1 1 (Or.inr rfl) (by norm_num) (by norm_num), ?_, by simp⟩
      exact (by norm_num : (0 : ℚ) ≤ 5)) trivial (by decide +kernel)
  have hask := congrArg OrderBook.getBestAsk (h.1 solUsdt)
  revert hask
  decide +kernel

end CexEngine
