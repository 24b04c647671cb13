import CexEngine.Proof.Refusals
import CexEngine.Proof.Unrounded

/-!
# Exact entries

What a deposit or withdrawal enters into the balances, against what it answers.

* `exactEntry_iff`: it changes `available` by its amount, unless it takes more than there is or
  the sum is too large or rounded.
* `run_accounted_iff`: the runs that never take more are the ones whose supply is accounted for.
-/

namespace CexEngine

/-! ## What a command acknowledges -/

/-- What an answered command adds to a mint by acknowledgement. -/
def Command.acknowledged (c : Command) (r : Reply) (m : Mint) : Decimal :=
  match c, r with
  | .updateBalance _ mint delta, .done (.ok ()) => if m = mint then delta else 0
  | _, _ => 0

/-- A withdrawal of more than is available. -/
def Command.Overdraws (s : Engine) : Command → Prop
  | .updateBalance user mint delta => s.balanceCache.available user mint + delta < 0
  | _ => False

/-- What a withdrawal of more than is available is acknowledged too much. -/
def Command.shortfall (s : Engine) (c : Command) (m : Mint) : Decimal :=
  match c with
  | .updateBalance user mint delta =>
    if m = mint then max delta (-s.balanceCache.available user mint) - delta else 0
  | _ => 0

theorem Command.shortfall_nonneg (s : Engine) (c : Command) (m : Mint) : 0 ≤ c.shortfall s m := by
  cases c with
  | updateBalance user mint delta =>
    unfold shortfall
    dsimp only
    split_ifs
    · exact sub_nonneg.2 (le_max_left _ _)
    · exact le_rfl
  | _ => exact le_rfl

/-- No mint falls short if and only if the command does not overdraw. -/
theorem Command.shortfall_eq_zero (s : Engine) (c : Command) : (∀ m, c.shortfall s m = 0) ↔ ¬ c.Overdraws s := by
  cases c with
  | updateBalance user mint delta =>
    simp only [Overdraws, not_lt]
    constructor
    · intro h
      have hmax := h mint
      simp only [shortfall, if_true] at hmax
      have := le_max_right delta (-s.balanceCache.available user mint)
      linarith
    · intro h m
      rw [shortfall, max_eq_left (by linarith), sub_self, ite_self]
  | _ => exact ⟨fun _ => id, fun _ _ => rfl⟩

section Supply

variable [Arithmetic] [ExactSums]

namespace BalanceCache

theorem supply_release (c : BalanceCache) (user : UserId) (mint : Mint) (amount : Decimal) (m : Mint) :
    (c.release user mint amount).1.supply m = c.supply m := by
  unfold release
  split_ifs
  · exact supply_unlockBalance c user mint amount m
  · rfl

end BalanceCache

/-! ## Deposits and withdrawals -/

variable {dv : Decimal → Decimal → Decimal} {s : Engine}

/-- What `add_available` enters: at least minus what is there. -/
theorem addAvailable_moves (c : BalanceCache) (user : UserId) (mint : Mint) (delta : Decimal) :
    BalanceCache.Moves c (c.addAvailable user mint delta)
      (posting user mint (max delta (-c.available user mint))) fun _ _ => 0 := by
  unfold BalanceCache.addAvailable
  dsimp only
  simp only [ExactSums.add_eq]
  split_ifs with h
  · have hle : delta ≤ -c.available user mint := by simp only [BalanceCache.available]; linarith
    rw [max_eq_right hle]
    refine BalanceCache.moves_put.congr (fun u m => by rw [zero_sub]) fun u m => ?_
    simp [BalanceCache.locked, posting]
  · have hle : -c.available user mint ≤ delta := by simp only [BalanceCache.available]; linarith
    rw [max_eq_left hle]
    refine BalanceCache.moves_put.congr (fun u m => ?_) fun u m => ?_
    · congr 1
      simp only [BalanceCache.available]
      ring
    · simp [BalanceCache.locked, posting]

/-- The sum of the acknowledged deposits and withdrawals of a mint along a run. -/
def Engine.acknowledged (dv : Decimal → Decimal → Decimal) : Engine → List Command → Mint → Decimal
  | _, [], _ => 0
  | s, c :: cs, m => c.acknowledged (s.handle dv c).2 m + (s.step dv c).acknowledged dv cs m

theorem supply_submit (s : Engine) (order : OrderEntry) (m : Mint) :
    (processSubmitOrder dv s order).engine.balanceCache.supply m = s.balanceCache.supply m := by
  have hlock := BalanceCache.supply_lockBalance s.balanceCache order.userId order.lock.1 order.lock.2 m
  unfold processSubmitOrder
  dsimp only
  split
  · exact hlock
  · split_ifs
    · unfold finishMarketOrder
      dsimp only
      rw [BalanceCache.supply_release, BalanceCache.supply_executeTrades, hlock]
    · unfold finishLimitOrder
      dsimp only
      split_ifs
      · rw [BalanceCache.supply_release, BalanceCache.supply_executeTrades, hlock]
      · rw [BalanceCache.supply_executeTrades, hlock]

theorem supply_cancel (s : Engine) (orderId : OrderId) (userId : UserId) (pair : TradingPair) (m : Mint) :
    (handleCancelOrder s orderId userId pair).engine.balanceCache.supply m = s.balanceCache.supply m := by
  rcases handleCancelOrder_cases s orderId userId pair with hn | ⟨book, buys, price, order, unlocked, -, ht⟩
  · rw [hn.engine]
  · rw [ht.engine, ht.unlock]
    exact BalanceCache.supply_unlockBalance _ _ _ _ m

/-- **One command**: the supply moves by what is acknowledged and by what falls short. -/
theorem supply_step (dv : Decimal → Decimal → Decimal) (s : Engine) (c : Command) (m : Mint) :
    (s.step dv c).balanceCache.supply m =
      s.balanceCache.supply m + c.acknowledged (s.handle dv c).2 m + c.shortfall s m := by
  cases c with
  | updateBalance user mint delta =>
    have hsupply := (addAvailable_moves s.balanceCache user mint delta).supply m
    rw [sum_posting, Finset.sum_const_zero, add_zero] at hsupply
    simp only [Engine.step, Engine.handle, handleUpdateBalance, Command.acknowledged, Command.shortfall, hsupply]
    split_ifs <;> ring
  | submitOrder order =>
    simp [Engine.step, Engine.handle, Command.acknowledged, Command.shortfall, supply_submit]
  | cancelOrder orderId userId pair =>
    simp [Engine.step, Engine.handle, Command.acknowledged, Command.shortfall, supply_cancel]
  | getOrderbook pair depth => simp [Engine.step, Engine.handle, Command.acknowledged, Command.shortfall]
  | getBalance user mint => simp [Engine.step, Engine.handle, Command.acknowledged, Command.shortfall]
  | lockBalance user mint amount =>
    simp [Engine.step, Engine.handle, handleLockBalance, Command.acknowledged, Command.shortfall,
      BalanceCache.supply_lockBalance]
  | unlockBalance user mint amount =>
    simp [Engine.step, Engine.handle, handleUnlockBalance, Command.acknowledged, Command.shortfall,
      BalanceCache.supply_unlockBalance]

end Supply

/-! ## Runs -/

section Rounded

variable [A : Arithmetic] {s : Engine}

/-- No command of the run takes a sum that is rounded. -/
def Engine.Unrounded (dv : Decimal → Decimal → Decimal) (s : Engine) (cs : List Command) : Prop :=
  History.Each (fun done c => c.Unrounded dv (s.run dv done)) cs

theorem supply_step_unrounded {dv : Decimal → Decimal → Decimal} {c : Command} (h : c.Unrounded dv s) (m : Mint) :
    (s.step dv c).balanceCache.supply m =
      s.balanceCache.supply m + c.acknowledged (s.handle dv c).2 m + c.shortfall s m := by
  rw [Engine.step, h]
  exact @supply_step A.exactSums A.exactSums_exact dv s c m

/-- What falls short along a run. -/
def Engine.shortfall (dv : Decimal → Decimal → Decimal) : Engine → List Command → Mint → Decimal
  | _, [], _ => 0
  | s, c :: cs, m => c.shortfall s m + (s.step dv c).shortfall dv cs m

theorem supply_run (dv : Decimal → Decimal → Decimal) (m : Mint) : ∀ (cs : List Command) (s : Engine),
    s.Unrounded dv cs → (s.run dv cs).balanceCache.supply m =
        s.balanceCache.supply m + s.acknowledged dv cs m + s.shortfall dv cs m := by
  intro cs
  induction cs with
  | nil => intro s _; simp [Engine.acknowledged, Engine.shortfall]
  | cons c cs ih =>
    intro s h
    obtain ⟨hc, hcs⟩ := History.each_cons.1 h
    rw [run_cons, ih (s.step dv c) hcs, supply_step_unrounded (show c.Unrounded dv s from hc)]
    simp only [Engine.acknowledged, Engine.shortfall]
    ring

theorem shortfall_nonneg (dv : Decimal → Decimal → Decimal) (m : Mint) : ∀ (cs : List Command) (s : Engine),
    0 ≤ s.shortfall dv cs m := by
  intro cs
  induction cs with
  | nil => intro s; exact le_rfl
  | cons c cs ih => intro s; exact add_nonneg (c.shortfall_nonneg s m) (ih (s.step dv c))

/-- No command of the run overdraws. -/
def Engine.NeverOverdrawn (dv : Decimal → Decimal → Decimal) (s : Engine) (cs : List Command) : Prop :=
  History.Each (fun done c => ¬ c.Overdraws (s.run dv done)) cs

theorem shortfall_eq_zero (dv : Decimal → Decimal → Decimal) : ∀ (cs : List Command) (s : Engine),
    (∀ m, s.shortfall dv cs m = 0) ↔ s.NeverOverdrawn dv cs := by
  intro cs
  induction cs with
  | nil => intro s; exact ⟨fun _ => History.each_nil, fun _ _ => rfl⟩
  | cons c cs ih =>
    intro s
    calc (∀ m, s.shortfall dv (c :: cs) m = 0)
        ↔ (∀ m, c.shortfall s m = 0) ∧ ∀ m, (s.step dv c).shortfall dv cs m = 0 := by
          rw [← forall_and]
          exact forall_congr' fun m => add_eq_zero_iff_of_nonneg (c.shortfall_nonneg s m) (shortfall_nonneg dv m cs _)
      _ ↔ ¬ c.Overdraws s ∧ (s.step dv c).NeverOverdrawn dv cs := by rw [ih, Command.shortfall_eq_zero]
      _ ↔ s.NeverOverdrawn dv (c :: cs) :=
          (History.each_cons (P := fun done c => ¬ Command.Overdraws (s.run dv done) c)).symm

/-- A run that takes no rounded sum accounts for every mint if and only if it never overdraws. -/
theorem run_accounted_iff {dv : Decimal → Decimal → Decimal} {cs : List Command} (h : s.Unrounded dv cs) :
    (∀ m, (s.run dv cs).balanceCache.supply m = s.balanceCache.supply m + s.acknowledged dv cs m) ↔
      s.NeverOverdrawn dv cs := by
  rw [← shortfall_eq_zero]
  refine forall_congr' fun m => ?_
  rw [supply_run dv m cs s h]
  exact add_eq_left

/-! ## One deposit or withdrawal -/

/-- The command is answered; with `Ok`, `available` has changed by its amount and nothing else has,
and otherwise nothing has. -/
def Engine.ExactEntry (s : Engine) (user : UserId) (mint : Mint) (delta : Decimal) : Prop :=
  ∃ r, Checked.handleUpdateBalance s user mint delta = some r ∧
    (r.2.isOk = true → BalanceCache.Moves s.balanceCache r.1.balanceCache (posting user mint delta) fun _ _ => 0) ∧
      (r.2.isOk = false → s.Unchanged r.1)

theorem addAvailable_available (c : BalanceCache) (user : UserId) (mint : Mint) (delta : Decimal) :
    (c.addAvailable user mint delta).available user mint = max (Arithmetic.add (c.available user mint) delta) 0 := by
  unfold BalanceCache.addAvailable
  dsimp only
  split_ifs with h
  · rw [BalanceCache.available, BalanceCache.entry_put, if_pos ⟨rfl, rfl⟩]
    exact (max_eq_right h.le).symm
  · rw [BalanceCache.available, BalanceCache.entry_put, if_pos ⟨rfl, rfl⟩]
    exact (max_eq_left (not_lt.1 h)).symm

/-- **A deposit or withdrawal is an exact entry** if and only if it takes no more than there is
and the sum is neither rounded nor too large. -/
theorem exactEntry_iff (s : Engine) (user : UserId) (mint : Mint) (delta : Decimal) :
    s.ExactEntry user mint delta ↔
      0 ≤ s.balanceCache.available user mint + delta ∧ s.balanceCache.available user mint + delta ≤ maxValue ∧
        Arithmetic.add (s.balanceCache.available user mint) delta = s.balanceCache.available user mint + delta := by
  constructor
  · rintro ⟨r, hr, hok, -⟩
    obtain ⟨c, hc, hr⟩ := Option.bind_eq_some_iff.1 hr
    obtain rfl := Option.some.inj hr
    have hentry := (hok rfl).available user mint
    rw [posting_self, Checked.addAvailable_some hc, addAvailable_available] at hentry
    have hnonneg : 0 ≤ s.balanceCache.available user mint + delta := hentry ▸ le_max_right _ _
    rw [max_eq_left (Arithmetic.add_nonneg hnonneg)] at hentry
    obtain ⟨x, hx, -⟩ := Option.bind_eq_some_iff.1 hc
    have hfits : |Arithmetic.add (s.balanceCache.available user mint) delta| ≤ maxValue := by
      by_contra hlarge
      rw [show Checked.value (Arithmetic.add (s.balanceCache.entry user mint).available delta) = none from
        if_neg hlarge] at hx
      cases hx
    rw [hentry, abs_of_nonneg hnonneg] at hfits
    exact ⟨hnonneg, hfits, hentry⟩
  · rintro ⟨hnonneg, hfits, hexact⟩
    have hvalue : Checked.value (Arithmetic.add (s.balanceCache.entry user mint).available delta) =
        some (s.balanceCache.available user mint + delta) := by
      rw [show Arithmetic.add (s.balanceCache.entry user mint).available delta = _ from hexact]
      exact if_pos (by rwa [abs_of_nonneg hnonneg])
    have hadd : Checked.addAvailable s.balanceCache user mint delta = some (s.balanceCache.put user mint
        ⟨s.balanceCache.available user mint + delta, s.balanceCache.locked user mint⟩) := by
      unfold Checked.addAvailable
      dsimp only [Option.bind_eq_bind]
      rw [hvalue, Option.bind_some]
      rw [if_neg (not_lt.2 hnonneg)]
      rfl
    refine ⟨_, by rw [Checked.handleUpdateBalance, hadd]; rfl, fun _ => ?_, fun herr => by cases herr⟩
    refine BalanceCache.moves_put.congr (fun u m => by rw [add_sub_cancel_left]) fun u m => ?_
    rw [sub_self, posting, ite_self]

/-- **Deposits and withdrawals are exact entries** where they take no more than is available
and the sum fits, and the runs in which they never take more are the ones that account for every
mint, if no command of the run panics or takes a sum that is rounded. -/
theorem update_exact_iff (dv : Decimal → Decimal → Decimal) (s : Engine) :
    (∀ user mint delta, s.ExactEntry user mint delta ↔
        0 ≤ s.balanceCache.available user mint + delta ∧ s.balanceCache.available user mint + delta ≤ maxValue ∧
          Arithmetic.add (s.balanceCache.available user mint) delta = s.balanceCache.available user mint + delta) ∧
      ∀ cs s', Checked.run dv s cs = some s' → s.Unrounded dv cs →
        ((∀ m, s'.balanceCache.supply m = s.balanceCache.supply m + s.acknowledged dv cs m) ↔
          s.NeverOverdrawn dv cs) := by
  refine ⟨exactEntry_iff s, fun cs s' hrun hround => ?_⟩
  rw [Checked.run_some cs hrun]
  exact run_accounted_iff hround

end Rounded

/-- A deposit, then a withdrawal of what there is: the total ends two lower. -/
theorem update_exact_iff_run :
    ∃ s', Checked.run (· / ·) (.start (BalanceCache.new.setBalance 1 "USDT" 40 10))
        [.updateBalance 1 "USDT" 5, .updateBalance 1 "USDT" (-7)] = some s' ∧
      ∀ m, s'.balanceCache.supply m = (BalanceCache.new.setBalance 1 "USDT" 40 10).supply m +
        (Engine.start (BalanceCache.new.setBalance 1 "USDT" 40 10)).acknowledged (· / ·)
          [.updateBalance 1 "USDT" 5, .updateBalance 1 "USDT" (-7)] m := by
  have hruns : (Checked.run (· / ·) (.start (BalanceCache.new.setBalance 1 "USDT" 40 10))
      [.updateBalance 1 "USDT" 5, .updateBalance 1 "USDT" (-7)]).isSome = true := by decide +kernel
  obtain ⟨s', hrun⟩ := Option.isSome_iff_exists.1 hruns
  refine ⟨s', hrun, ((update_exact_iff (· / ·) (.start (BalanceCache.new.setBalance 1 "USDT" 40 10))).2 _ s' hrun
    (History.each_cons.2 ⟨rfl, History.each_cons.2 ⟨rfl, History.each_nil⟩⟩)).2 ?_⟩
  refine History.each_cons.2 ⟨?_, History.each_cons.2 ⟨?_, History.each_nil⟩⟩
  · exact not_lt.2 (by decide +kernel)
  · exact not_lt.2 (by decide +kernel)

/-- A withdrawal of fifty, ten of them locked by an order in the meantime: it is answered `Ok`. -/
theorem update_overdrawn :
    ¬ ∀ s : Engine, s.balanceCache.Sound → ∀ user mint delta, s.ExactEntry user mint delta := by
  intro h
  have hsound : (BalanceCache.new.setBalance 1 "USDT" 40 10).Sound :=
    BalanceCache.sound_new.setBalance 1 "USDT" (by norm_num) (by norm_num)
  obtain ⟨r, hr, hok, -⟩ := h (.start (BalanceCache.new.setBalance 1 "USDT" 40 10)) hsound 1 "USDT" (-50)
  have hleft : ((Checked.handleUpdateBalance (.start (BalanceCache.new.setBalance 1 "USDT" 40 10)) 1 "USDT" (-50)).map
      fun r => (r.2.isOk, r.1.balanceCache.available 1 "USDT")) = some (true, 0) := by decide +kernel
  rw [hr] at hleft
  have hzero := Option.some.inj hleft
  have hexact := (hok (congrArg Prod.fst hzero)).available 1 "USDT"
  rw [show r.1.balanceCache.available 1 "USDT" = 0 from congrArg Prod.snd hzero] at hexact
  exact absurd hexact (by decide +kernel)

end CexEngine
