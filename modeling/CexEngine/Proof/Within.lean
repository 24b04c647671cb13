import CexEngine.Proof.Conservation
import CexEngine.Proof.Budget
import CexEngine.Proof.Settlement

/-!
# Within the locks

* `Command.Within`: a market buy costs no more than its budget, and nothing is unlocked that a resting
  order needs. Orders for a quantity are within their locks by themselves (`quantity_within`).
* **`covered_within`**: such a command keeps the books covered.
-/

namespace CexEngine

variable {dv : Decimal → Decimal → Decimal} {s : Engine}

section MarketBuy

variable {order : OrderEntry} (hk : order.Kind) (ht : order.orderType = .buy) (hs : order.orderSide = .market)

include hk ht hs

omit ht in
/-- Nothing of it rests. -/
theorem marketBuy_rests (dv : Decimal → Decimal → Decimal) (htidy : s.Tidy) :
    ¬ (order.matching dv (s.orderbook order.pair)).incoming.rests := fun hr =>
  (rests_iff hk (matching_rests hk (htidy.placed order.pair (order.rule dv).scansBuys)).live).1 hr (Or.inl hs)

/-- So its lock is for its matches. -/
theorem marketBuy_within (htidy : s.Tidy)
    (hcost : quoteUsed (order.matching dv (s.orderbook order.pair)).results ≤ order.funds) :
    order.used (order.matching dv (s.orderbook order.pair)).results +
      (order.matching dv (s.orderbook order.pair)).incoming.restRequired ≤ order.lock.2 := by
  rw [OrderEntry.used, if_pos ht, OrderEntry.restRequired, if_neg (marketBuy_rests hk hs dv htidy), add_zero,
    lock_eq_funds hk ht hs]
  exact hcost

end MarketBuy

/-- A market buy that is granted costs no more than its budget, and nothing is unlocked that a resting
order needs. -/
def Command.Within (dv : Decimal → Decimal → Decimal) (s : Engine) : Command → Prop
  | .submitOrder order =>
    order.orderType = .buy → order.orderSide = .market →
      order.lock.2 ≤ s.balanceCache.available order.userId order.lock.1 →
        quoteUsed (matchOrder dv order (s.orderbook order.pair)).results ≤ order.quoteAmount.getD 0
  | .unlockBalance userId mint amount =>
    amount ≤ s.balanceCache.locked userId mint → amount ≤ s.slack userId mint
  | _ => True

def Engine.WithinRun (dv : Decimal → Decimal → Decimal) : Engine → List Command → Prop
  | _, [] => True
  | s, c :: cs => c.Within dv s ∧ (s.step dv c).WithinRun dv cs

/-- An order that is within its budget, or has none, pays from its lock. -/
theorem Command.Within.submit {order : OrderEntry} (h : (Command.submitOrder order).Within dv s) (hk : order.Kind)
    (htidy : s.Tidy) (hgranted : order.lock.2 ≤ s.balanceCache.available order.userId order.lock.1) :
    order.used (order.matching dv (s.orderbook order.pair)).results +
      (order.matching dv (s.orderbook order.pair)).incoming.restRequired ≤ order.lock.2 := by
  by_cases hbudget : order.orderType = .buy ∧ order.orderSide = .market
  · obtain ⟨ht, hs⟩ := hbudget
    refine marketBuy_within hk ht hs htidy ?_
    rw [(hk.isMarketBuy ht hs).2.1, ← (matchOrder_spec dv hk.isBuy_or hk.hasRemaining _).2.1]
    exact h ht hs hgranted
  · exact quantity_within dv hk (hk.no_budget hbudget) htidy.placed

theorem covered_start {cache : BalanceCache} (hcache : cache.Sound) : (Engine.start cache).Covered := fun u m => by
  rw [Engine.required, Engine.total_start]
  exact (hcache u m).2

/-- **Such a command keeps the books covered.** -/
theorem covered_within {c : Command} (hc : c.LocksNonneg) (h : c.Within dv s) (htidy : s.Tidy) (hcov : s.Covered) :
    (s.step dv c).Covered := by
  cases c with
  | submitOrder order =>
    have hk := validated_kind hc
    exact covered_submit hk htidy.placed hcov (h.submit hk htidy)
  | lockBalance userId mint amount =>
    intro u m
    change s.required u m ≤ (s.balanceCache.lockBalanceForOrder userId mint amount).1.locked u m
    rw [(BalanceCache.lockBalanceForOrder_eq s.balanceCache userId mint amount).1]
    rcases BalanceCache.lockBalance_cases s.balanceCache userId mint amount with ⟨-, -, hsame⟩ | ⟨-, -, hmoves⟩
    · rw [hsame.locked]
      exact hcov u m
    · rw [hmoves.locked]
      exact (hcov u m).trans (le_add_of_nonneg_right (posting_nonneg hc))
  | unlockBalance userId mint amount =>
    intro u m
    change s.required u m ≤ (s.balanceCache.unlockBalanceForCancel userId mint amount).1.locked u m
    rw [(BalanceCache.unlockBalanceForCancel_eq s.balanceCache userId mint amount).1]
    rcases BalanceCache.unlockBalance_cases s.balanceCache userId mint amount with ⟨-, -, hsame⟩ | ⟨hle, -, hmoves⟩
    · rw [hsame.locked]
      exact hcov u m
    rw [hmoves.locked]
    by_cases hentry : u = userId ∧ m = mint
    · obtain ⟨rfl, rfl⟩ := hentry
      have hslack := h hle
      rw [Engine.slack] at hslack
      rw [posting_self]
      linarith
    · rw [posting, if_neg hentry, add_zero]
      exact hcov u m
  | cancelOrder orderId userId pair =>
    exact covered_step (c := .cancelOrder orderId userId pair) trivial htidy.placed hcov
  | updateBalance userId mint delta =>
    exact covered_step (c := .updateBalance userId mint delta) trivial htidy.placed hcov
  | getOrderbook pair depth => exact hcov
  | getBalance userId mint => exact hcov

end CexEngine
