import CexEngine.Proof.Offers
import CexEngine.Proof.OwnOrders
import CexEngine.Proof.Settlement

/-!
# Funds that stay locked

In runs without market buys, what is locked is what the resting orders need, as long as no
submit strands funds.

* `OrderEntry.Strands`: a submit strands funds if it lets go of an order of its own user, or if
  it is a limit buy that rests after it bought below its limit.
* `sweep_drops_own`: when the sweep lets go of such an order.
* `submit_strands`: **a submit strands funds exactly then.**
* `run_locked_iff`: in a run from empty books without locks, what is locked is always what the
  resting orders need if and only if no submit strands funds.
-/

namespace CexEngine

open Pass

/-- What other users offer up to a price, from the best one on. -/
def OrderEntry.supplyUpTo (o : OrderEntry) (xs : List (Decimal × OrderEntry)) (price : Decimal) : Decimal :=
  Greedy.total remaining ((o.foreign xs).filter fun x => if o.isBuy then x.1 ≤ price else price ≤ x.1)

/-- Some order of the order's own user has a price within the limit up to which the other
users' orders are not enough. -/
def OrderEntry.PassesOwn (o : OrderEntry) (xs : List (Decimal × OrderEntry)) : Prop :=
  ∃ x ∈ xs, x.2.userId = o.userId ∧ o.crosses x.1 = true ∧ o.supplyUpTo xs x.1 < o.remainingAmount

/-- The other users' orders within the limit are not enough for a limit buy, and one of them
is below the limit. -/
def OrderEntry.RestsBelow (o : OrderEntry) (xs : List (Decimal × OrderEntry)) : Prop :=
  o.orderType = .buy ∧ Greedy.total remaining (o.crossing xs) < o.remainingAmount ∧
    ∃ x ∈ o.crossing xs, x.1 < o.price.getD 0

/-- Submitting the order against these quotes strands funds. -/
def OrderEntry.Strands (o : OrderEntry) (xs : List (Decimal × OrderEntry)) : Prop := o.PassesOwn xs ∨ o.RestsBelow xs

/-! ## Orders of the same user -/

variable {R : MatchRule} {order : OrderEntry}

/-- The sweep will let go of this order of the incoming order's user. -/
def Sweep.LetsGo (order : OrderEntry) (s : Sweep) (x : Decimal × OrderEntry) : Prop :=
  x.2.userId = order.userId ∧ order.crosses x.1 = true ∧ order.supplyUpTo s.quotes x.1 < s.incoming.remainingAmount

/-- It has let go of an order of that user, or will of one passed over or still ahead. -/
def Sweep.DropsOwn (order : OrderEntry) (s : Sweep) : Prop :=
  (∃ o ∈ s.dropped, o.userId = order.userId) ∨ (∃ x ∈ s.passed.map (fun o => (s.price, o)), s.LetsGo order x) ∨
    ∃ x ∈ s.quotes, s.LetsGo order x

/-- What the sweep uses of an order for a quantity is the quantity. -/
theorem MatchRule.ByQuantity.uses (hR : R.ByQuantity order) (hscans : R.scansBuys = !order.isBuy) :
    R.Uses order (Wants order) (fun _ => True) (fun _ => 1) OrderEntry.remainingAmount where
  terms h := h.terms
  scans := hscans
  accepts := hR.accepts
  le h := by
    rw [hR.amount h]
    exact min_le_right _ _
  take h := by
    rw [hR.take h, one_mul]
    rfl
  filled h := by
    rw [hR.filled h]
    exact ⟨le_of_eq, fun hle => le_antisymm hle h.remaining_nonneg⟩
  unit_nonneg _ := zero_le_one

theorem losesOwn_iff (order : OrderEntry) (s : Sweep) :
    s.LosesOwn order (fun _ => 1) OrderEntry.remainingAmount ↔ s.DropsOwn order := by
  have hused : ∀ p, order.usedUpTo (fun _ => 1) s.quotes p = order.supplyUpTo s.quotes p := by
    intro p
    unfold OrderEntry.usedUpTo OrderEntry.supplyUpTo
    simp only [one_mul]
  simp only [Sweep.LosesOwn, Sweep.GetsPast, hused]
  rfl

/-- The other users' orders that a sweep lets go of are filled. -/
theorem sweep_drops_filled (hR : R.ByQuantity order) (hscans : R.scansBuys = !order.isBuy) {s t : Sweep}
    (h : Exits (sweepBody R) s t) (hv : s.Valid R (Wants order) fun _ => True) (hs : s.dropped = []) :
    OthersFilled order t.dropped := by
  have hU := hR.uses hscans
  have hpassed : ∀ {a : Sweep}, a.Valid R (Wants order) (fun _ => True) → ∀ o ∈ a.passed, o.userId = order.userId :=
    fun ha o ho => (ha.passed o ho).symm.trans (ha.own hU)
  refine sweep_inv hR.metered.followable (I := fun a => OthersFilled order a.dropped)
    (J := fun t => OthersFilled order t.dropped) (fun a b ha hI hab => hab.othersFilled hU ha hI) ?_ h hv
    (by simp [hs, OthersFilled])
  intro a b ha hI hab
  cases hab with
  | filled filled => exact hI
  | empty unfilled ahead levels => exact hI.append_own (hpassed ha)
  | limit unfilled ahead first rejects => exact hI.append_own (hpassed ha)
  | @dust o rest unfilled ahead foreign breaks =>
    have hpos := ha.ahead o (by rw [ahead]; exact List.mem_cons_self)
    rw [hR.goes (hR.amount_pos ha.live hpos unfilled)] at breaks
    cases breaks

/-- **When a sweep lets go of an order of the incoming order's user.** -/
theorem sweep_drops_own (hR : R.ByQuantity order) (hscans : R.scansBuys = !order.isBuy) {s t : Sweep}
    (h : Exits (sweepBody R) s t) (hv : s.Valid R (Wants order) fun _ => True) (hs : s.dropped = []) :
    (∃ o ∈ t.dropped, o.userId = order.userId) ↔ s.DropsOwn order := by
  rw [← losesOwn_iff]
  exact (sweep_loses_own hR.metered.followable (hR.uses hscans) h hv (by simp [hs, OthersFilled])).1
    (sweep_drops_filled hR hscans h hv hs)

/-! ## Submitting -/

/-- A price that satisfies the limit of a buy is not above it. -/
theorem crosses_buy {price : Decimal} (hQ : order.ForQuantity) (ht : order.orderType = .buy)
    (h : order.crosses price = true) : price ≤ order.price.getD 0 := by
  rcases hQ.kind with ⟨hs, hp, -⟩ | ⟨-, hs⟩
  · obtain ⟨limit, hp⟩ := Option.isSome_iff_exists.1 hp
    simpa [OrderEntry.crosses, hs, hp, OrderEntry.isBuy, ht] using h
  · rw [ht] at hs; cases hs

section Submit

variable (dv : Decimal → Decimal → Decimal) {s : Engine} (hk : order.Kind)
  (hq : order.remainingQuoteAmount = none) (hplaced : s.Placed) (hempty : s.NoEmptyLevel)

include hk hq hplaced hempty

/-- A submit lets go of an order of its own user if the others' orders are not enough. -/
theorem matching_drops_own : (∃ o ∈ (order.matching dv (s.orderbook order.pair)).dropped, o.userId = order.userId) ↔
    order.PassesOwn (s.opposite order) := by
  have hQ := hk.forQuantity hq
  have hR := rule_byQuantity dv hQ
  obtain ⟨t, hsweep, hvalid, hagrees⟩ := matching_sweeps hR.metered hQ.wants hplaced hempty fun _ => trivial
  have hquotes : (Sweep.start (s.oppositeLevels dv order) order).quotes = s.opposite order :=
    quotes_oppositeLevels dv s order
  rw [← exists_congr fun o => and_congr_left' hagrees.dropped.mem_iff.symm,
    sweep_drops_own hR rule_scansBuys hsweep hvalid rfl]
  unfold Sweep.DropsOwn Sweep.LetsGo OrderEntry.PassesOwn
  rw [hquotes]
  simp [Sweep.start]

/-- An order that a submit lets go of is of its own user and still rests, or is filled. -/
theorem quantity_dropped : ∀ o ∈ (order.matching dv (s.orderbook order.pair)).dropped,
    (o.userId = order.userId ∧ ∃ p, Rests (!order.isBuy) order.pair p o) ∨ o.remainingAmount = 0 := by
  have hQ := hk.forQuantity hq
  have hR := rule_byQuantity dv hQ
  obtain ⟨t, hsweep, hvalid, hagrees⟩ := matching_sweeps hR.metered hQ.wants hplaced hempty fun _ => trivial
  intro o ho
  by_cases hu : o.userId = order.userId
  swap
  · exact Or.inr (sweep_drops_filled hR rule_scansBuys hsweep hvalid rfl o (hagrees.dropped.mem_iff.1 ho) hu)
  · rcases matching_dropped hk (hplaced order.pair _) o ho with ⟨p, hr⟩ | ⟨hne, -⟩
    · rw [rule_scansBuys] at hr
      exact Or.inl ⟨hu, p, hr⟩
    · exact absurd hu hne

/-- **What the orders that are let go needed** is nothing if none is of the submitting user. -/
theorem dropped_required : (∀ u m, ((order.matching dv (s.orderbook order.pair)).dropped.map
    fun o => o.required u m).sum = 0) ↔ ¬ order.PassesOwn (s.opposite order) := by
  rw [← matching_drops_own dv hk hq hplaced hempty]
  have hcases := quantity_dropped dv hk hq hplaced hempty
  constructor
  · rintro hzero ⟨o, ho, hu⟩
    rcases hcases o ho with ⟨-, p, hr⟩ | h₀
    · have hall : ∀ x ∈ (order.matching dv (s.orderbook order.pair)).dropped.map
          fun o' => o'.required o.userId o.unlock.1, 0 ≤ x := by
        intro x hx
        obtain ⟨o', ho', rfl⟩ := List.mem_map.1 hx
        exact matching_dropped_nonneg hk (hplaced order.pair _) o' ho' _ _
      have hnone := List.all_zero_of_le_zero_le_of_sum_eq_zero hall (hzero _ _) (List.mem_map_of_mem ho)
      rw [OrderEntry.required, posting_self] at hnone
      exact hr.unlock_pos.ne' hnone
    · rcases matching_dropped hk (hplaced order.pair (order.rule dv).scansBuys) o ho with ⟨p, hr⟩ | ⟨hne, -⟩
      · exact hr.remaining_pos.ne' h₀
      · exact hne hu
  · rintro hnone u m
    refine List.sum_eq_zero fun x hx => ?_
    obtain ⟨o, ho, rfl⟩ := List.mem_map.1 hx
    rcases hcases o ho with ⟨hu, -⟩ | h₀
    · exact absurd ⟨o, ho, hu⟩ hnone
    · exact OrderEntry.required_eq_zero h₀ u m

/-- **A limit buy has saved something** if and only if another user asks for less than its limit. -/
theorem saved_pos_iff (ht : order.orderType = .buy) :
    0 < order.saved (order.matching dv (s.orderbook order.pair)).results ↔
      ∃ x ∈ order.crossing (s.opposite order), x.1 < order.price.getD 0 := by
  have hQ := hk.forQuantity hq
  have hresults := quantity_allocates hk hq hplaced hempty dv
  have hterms := saved_term_nonneg hk (hplaced order.pair (order.rule dv).scansBuys) ht hq
  simp only [OrderEntry.saved, ht, if_true]
  rw [hresults] at hterms ⊢
  constructor
  · intro hpos
    -- if no offer is below the limit, every match is at the limit and saves nothing
    by_contra hnone
    refine hpos.ne' (List.sum_eq_zero fun y hy => ?_)
    obtain ⟨m, hm, rfl⟩ := List.mem_map.1 hy
    obtain ⟨d, hd, rfl⟩ := List.mem_map.1 hm
    have hx := Greedy.mem_of_mem_allocate _ _ hd
    have hc := (List.mem_filter.1 hx).2
    simp only [Bool.and_eq_true] at hc
    have heq : d.1.1 = order.price.getD 0 :=
      le_antisymm (crosses_buy hQ ht hc.2) (not_lt.1 fun hlt => hnone ⟨d.1, hx, hlt⟩)
    change (order.price.getD 0 - d.1.1) * d.2 = 0
    rw [heq, sub_self, zero_mul]
  · rintro ⟨x, hx, hlt⟩
    -- the best of the offers is taken, and it is not above `x`
    have hsorted :
        (s.opposite order).Pairwise fun x y => x.1 = y.1 ∨ BTreeMap.Before (order.rule dv).scansBuys x.1 y.1 := by
      rw [← quotes_oppositeLevels dv]
      exact (opposite_walkable dv order hplaced hempty fun _ => True.intro).quotes_pairwise
    have hpos : ∀ y ∈ order.crossing (s.opposite order), 0 < remaining y := fun y hy =>
      (opposite_rests hplaced (List.mem_of_mem_filter hy)).remaining_pos
    have hcross := hsorted.filter fun x => decide (order.userId ≠ x.2.userId) && order.crosses x.1
    change (order.crossing (s.opposite order)).Pairwise _ at hcross
    cases hoffers : order.crossing (s.opposite order) with
    | nil => rw [hoffers] at hx; exact absurd hx List.not_mem_nil
    | cons y ys =>
      rw [hoffers] at hx hpos hcross hterms
      have hy : y.1 < order.price.getD 0 := by
        rcases List.mem_cons.1 hx with rfl | hx
        · exact hlt
        · rcases List.rel_of_pairwise_cons hcross hx with he | hb
          · rwa [he]
          · simp only [rule_scansBuys, OrderEntry.isBuy, ht, decide_true, Bool.not_true, BTreeMap.Before] at hb
            exact lt_trans (by simpa using hb) hlt
      rw [Greedy.allocate_cons_of_pos hQ.remaining_pos] at hterms ⊢
      have hamount : 0 < min order.remainingAmount (remaining y) :=
        lt_min hQ.remaining_pos (hpos y List.mem_cons_self)
      rw [List.map_cons, List.map_cons, List.sum_cons]
      have hrest := List.sum_nonneg (List.forall_mem_map.2 fun m hm => hterms m (List.mem_cons_of_mem _ hm))
      exact add_pos_of_pos_of_nonneg (mul_pos (sub_pos.2 hy) hamount) hrest

/-- What is left of an order is nothing if and only if the others' orders are enough. -/
theorem filled_iff : (order.matching dv (s.orderbook order.pair)).incoming.remainingAmount = 0 ↔
    order.remainingAmount ≤ Greedy.total remaining (order.crossing (s.opposite order)) := by
  rw [quantity_remaining hk hq hplaced hempty, sub_eq_zero, eq_comm, min_eq_left_iff]

/-- What a limit buy that rests has saved is nothing if it bought nothing below its limit. -/
theorem rests_saved : ((order.matching dv (s.orderbook order.pair)).incoming.rests ∧
    order.saved (order.matching dv (s.orderbook order.pair)).results ≠ 0) ↔ order.RestsBelow (s.opposite order) := by
  rcases hk.isBuy_or with ht | ht
  swap
  · simp [OrderEntry.saved, OrderEntry.RestsBelow, ht]
  have hQ := hk.forQuantity hq
  have hlimit : order.orderSide ≠ .market := by
    rcases hQ.kind with ⟨hs, -⟩ | ⟨-, hs⟩
    · rw [hs]; simp
    · rw [ht] at hs; cases hs
  have hsaved := saved_nonneg hk (hplaced order.pair (order.rule dv).scansBuys) hq
  rw [rests_iff hk (matching_rests hk (hplaced order.pair _)).live, or_iff_right hlimit,
    filled_iff dv hk hq hplaced hempty, not_le, OrderEntry.RestsBelow, and_iff_right ht,
    ← saved_pos_iff dv hk hq hplaced hempty ht, hsaved.lt_iff_ne']

/-- **A submit that is granted strands funds exactly if it passes over an order of its own user
or rests below its limit.** -/
theorem submit_strands (hcov : s.Covered) {cache : BalanceCache} {book : OrderBook}
    {settled : BalanceCache × List (MatchResult × Except EngineError (List DbCommand))}
    {counted : List MatchResult} {released : BalanceCache × Option (Except EngineError Unit)}
    (hg : Granted dv s order cache book settled counted released) :
    (∀ u m, (processSubmitOrder dv s order).engine.slack u m = s.slack u m) ↔
      ¬ order.Strands (s.opposite order) := by
  have hused := quantity_within dv hk hq hplaced
  set kept : Decimal := if (order.matching dv (s.orderbook order.pair)).incoming.rests then
    order.lock.2 - order.used (order.matching dv (s.orderbook order.pair)).results -
      (order.matching dv (s.orderbook order.pair)).incoming.restRequired else 0 with hkept
  have hslack := submit_slack hk hplaced hcov hg hused
  rw [← hkept] at hslack
  have hkept₀ : 0 ≤ kept := by
    rw [hkept]
    split_ifs
    · linarith
    · exact le_rfl
  have hdropped₀ := dropped_required_nonneg hk hplaced dv
  -- what is kept beyond the rest's need is what was saved below the limit
  have hsaved : kept = 0 ↔ ¬ order.RestsBelow (s.opposite order) := by
    rw [← rests_saved dv hk hq hplaced hempty, hkept]
    have heq := quantity_used hk (hplaced order.pair (order.rule dv).scansBuys) hq
    unfold OrderEntry.restRequired
    split_ifs with hr
    · rw [and_iff_right hr, not_not, show order.lock.2 - order.used (order.matching dv (s.orderbook order.pair)).results -
        (order.matching dv (s.orderbook order.pair)).incoming.unlock.2 =
          order.saved (order.matching dv (s.orderbook order.pair)).results by linarith]
    · exact iff_of_true rfl fun h => hr h.1
  rw [OrderEntry.Strands, not_or, ← dropped_required dv hk hq hplaced hempty, ← hsaved]
  constructor
  · intro h
    -- both terms are at least 0, so each is 0
    have hboth : ∀ u m, ((order.matching dv (s.orderbook order.pair)).dropped.map fun o => o.required u m).sum = 0 ∧
        posting order.userId order.lock.1 kept u m = 0 := by
      intro u m
      have h₁ := hdropped₀ u m
      have h₂ : 0 ≤ posting order.userId order.lock.1 kept u m := posting_nonneg hkept₀
      have h₃ := hslack u m
      rw [h u m] at h₃
      exact ⟨by linarith, by linarith⟩
    refine ⟨fun u m => (hboth u m).1, ?_⟩
    simpa only [posting_self] using (hboth order.userId order.lock.1).2
  · rintro ⟨hdropped, hzero⟩ u m
    rw [hslack, hdropped, hzero]
    simp [posting]

end Submit

/-! ## Runs -/

variable {dv : Decimal → Decimal → Decimal} {s : Engine}

/-- What a user's resting orders hold in a mint: the price times what is left of the buys that
are quoted in it, and what is left of the sells with it as base. -/
def Engine.held (s : Engine) (u : UserId) (m : Mint) : Decimal :=
  ((s.restingOrders.filter fun o => o.userId = u ∧ o.orderType = .buy ∧ o.quoteMint = m).map fun o =>
      o.price.getD 0 * o.remainingAmount).sum +
    ((s.restingOrders.filter fun o => o.userId = u ∧ o.orderType = .sell ∧ o.baseMint = m).map fun o =>
      o.remainingAmount).sum

/-- What resting orders need is what they hold. -/
theorem required_eq_held (hplaced : s.Placed) (u : UserId) (m : Mint) : s.required u m = s.held u m := by
  have htype : ∀ o ∈ s.restingOrders, o.orderType = .buy ∨ o.orderType = .sell := by
    intro o ho
    obtain ⟨pair, buys, p, hp⟩ := mem_engine_restingOrders.1 ho
    have := (hplaced pair buys _ hp).type
    cases buys
    · exact Or.inr this
    · exact Or.inl this
  rw [Engine.required, total_eq_sum, Engine.held]
  generalize s.restingOrders = l at htype
  induction l with
  | nil => simp
  | cons o l ih =>
    obtain ⟨ho, hl⟩ := List.forall_mem_cons.1 htype
    rw [List.map_cons, List.sum_cons, ih hl, OrderEntry.required, OrderEntry.unlock]
    rcases ho with ho | ho
    · by_cases hu : o.userId = u ∧ o.quoteMint = m
      · obtain ⟨rfl, rfl⟩ := hu
        simp [posting, ho, add_assoc]
      · have hpost : ¬ (u = o.userId ∧ m = o.quoteMint) := fun h => hu ⟨h.1.symm, h.2.symm⟩
        simp [posting, ho, hu, hpost]
    · by_cases hu : o.userId = u ∧ o.baseMint = m
      · obtain ⟨rfl, rfl⟩ := hu
        simp [posting, ho, add_left_comm]
      · have hpost : ¬ (u = o.userId ∧ m = o.baseMint) := fun h => hu ⟨h.1.symm, h.2.symm⟩
        simp [posting, ho, hu, hpost]

/-- What is locked is what the resting orders need. -/
def Engine.Exact (s : Engine) : Prop := ∀ u m, s.slack u m = 0

theorem Engine.Exact.covered (h : s.Exact) : s.Covered :=
  Engine.covered_iff_slack.2 fun u m => (h u m).ge

/-- The command is a submit whose lock is granted and which strands funds. -/
def Command.Strands (s : Engine) : Command → Prop
  | .submitOrder order => order.lock.2 ≤ s.balanceCache.available order.userId order.lock.1 ∧
      order.Strands (s.opposite order)
  | _ => False

/-- A command keeps the locks exact if and only if it strands nothing. -/
theorem exact_step {c : Command} (hc : c.WithoutBudget) (htidy : s.Tidy) (h : s.Exact) :
    (s.step dv c).Exact ↔ ¬ c.Strands s := by
  cases c with
  | submitOrder order =>
    have hk := validated_kind hc.1
    change (processSubmitOrder dv s order).engine.Exact ↔ _
    rcases processSubmitOrder_cases dv s hk with hr | ⟨cache, book, settled, counted, released, hg⟩
    · exact iff_of_true (fun u m => (hr.slack u m).trans (h u m)) fun hs => absurd hs.1 (not_le.2 hr.funds)
    · have key := submit_strands dv hk (hk.no_budget hc.2) htidy.placed htidy.noEmptyLevel h.covered hg
      simp only [h _ _] at key
      rw [Command.Strands, and_iff_right hg.funds]
      exact key
  | cancelOrder orderId userId pair =>
    refine iff_of_true ?_ id
    change (handleCancelOrder s orderId userId pair).engine.Exact
    rcases handleCancelOrder_cases s orderId userId pair with hn | ⟨book, buys, price, order, unlocked, -, ht⟩
    · rw [hn.engine]; exact h
    · intro u m
      rw [cancel_slack ht (cancel_unlocks ht htidy.placed h.covered)]
      exact h u m
  | updateBalance user mint delta =>
    refine iff_of_true (fun u m => ?_) id
    have hu := h u m
    rw [Engine.slack, ← addAvailable_locked s.balanceCache user mint delta] at hu
    exact hu
  | lockBalance _ _ _ => exact hc.elim
  | unlockBalance _ _ _ => exact hc.elim
  | getOrderbook _ _ => exact iff_of_true h id
  | getBalance _ _ => exact iff_of_true h id

/-- **What is locked is what the resting orders hold**, in every state of a run without market
buys from empty books without locks, if and only if no submit of the run strands funds. -/
theorem run_locked_iff (dv : Decimal → Decimal → Decimal) (cache : BalanceCache) (cs : List Command)
    (hcache : ∀ u m, cache.locked u m = 0) (hcs : ∀ c ∈ cs, c.WithoutBudget) :
    (∀ done more, cs = done ++ more → ∀ u m,
        ((Engine.start cache).run dv done).balanceCache.locked u m = ((Engine.start cache).run dv done).held u m) ↔
      ∀ done c more, cs = done ++ c :: more → ¬ c.Strands ((Engine.start cache).run dv done) := by
  have hstart : (Engine.start cache).Exact := by
    intro u m
    rw [Engine.slack, Engine.required, Engine.total_start, sub_zero]
    exact hcache u m
  have key := run_prefix_iff dv (I := Engine.Tidy) (P := Engine.Exact) (fun s c => c.Strands s)
    (fun s (c : Command) hs (hc : c.WithoutBudget) => tidy_step hc.validated hs)
    (fun s c hs h hc => exact_step hc hs h) cs (Engine.start cache) (tidy_start cache) hstart hcs
  rw [← key]
  refine forall_congr' fun done => forall_congr' fun more => forall_congr' fun he => forall₂_congr fun u m => ?_
  have htidy : ((Engine.start cache).run dv done).Tidy :=
    run_inv dv (fun s c hs hc => tidy_step hc hs) done _ (tidy_start cache) fun c hc =>
      (hcs c (by rw [he]; exact List.mem_append_left _ hc)).validated
  rw [← required_eq_held htidy.placed, Engine.slack, sub_eq_zero]

/-- Balances of which nothing is locked. -/
theorem locked_setBalance {c : BalanceCache} (h : ∀ u m, c.locked u m = 0) (user : UserId) (mint : Mint) (a : Decimal) :
    ∀ u m, (c.setBalance user mint a 0).locked u m = 0 := by
  intro u m
  simp only [BalanceCache.setBalance, BalanceCache.locked, BalanceCache.entry_put]
  split_ifs
  · rfl
  · exact h u m

instance (order : OrderEntry) (xs : List (Decimal × OrderEntry)) : Decidable (order.PassesOwn xs) :=
  inferInstanceAs (Decidable (∃ x ∈ xs, _))

instance (order : OrderEntry) (xs : List (Decimal × OrderEntry)) : Decidable (order.RestsBelow xs) :=
  inferInstanceAs (Decidable (_ ∧ _ ∧ ∃ x ∈ _, _))

instance (order : OrderEntry) (xs : List (Decimal × OrderEntry)) : Decidable (order.Strands xs) :=
  inferInstanceAs (Decidable (_ ∨ _))

instance (s : Engine) : (c : Command) → Decidable (c.Strands s)
  | .submitOrder _ => inferInstanceAs (Decidable (_ ∧ _))
  | .cancelOrder _ _ _ => inferInstanceAs (Decidable False)
  | .getOrderbook _ _ => inferInstanceAs (Decidable False)
  | .getBalance _ _ => inferInstanceAs (Decidable False)
  | .lockBalance _ _ _ => inferInstanceAs (Decidable False)
  | .unlockBalance _ _ _ => inferInstanceAs (Decidable False)
  | .updateBalance _ _ _ => inferInstanceAs (Decidable False)

/-- A buy at the price of the ask, which rests after it bought all there is. -/
theorem run_locked_iff_buy :
    ((Engine.start ((BalanceCache.new.setBalance 1 "USDT" 100 0).setBalance 2 "SOL" 5 0)).run (· / ·)
        [.submitOrder (limitOrder 1 2 .sell 10 3), .submitOrder (limitOrder 2 1 .buy 10 5)]).balanceCache.locked 1 "USDT" =
      ((Engine.start ((BalanceCache.new.setBalance 1 "USDT" 100 0).setBalance 2 "SOL" 5 0)).run (· / ·)
        [.submitOrder (limitOrder 1 2 .sell 10 3), .submitOrder (limitOrder 2 1 .buy 10 5)]).held 1 "USDT" := by
  refine (run_locked_iff (· / ·) ((BalanceCache.new.setBalance 1 "USDT" 100 0).setBalance 2 "SOL" 5 0)
    [.submitOrder (limitOrder 1 2 .sell 10 3), .submitOrder (limitOrder 2 1 .buy 10 5)]
    (locked_setBalance (locked_setBalance (fun _ _ => rfl) _ _ _) _ _ _) ?_).2 ?_ _ [] (List.append_nil _).symm 1 "USDT"
  · simp only [List.forall_mem_cons]
    exact ⟨⟨limitOrder_validated 1 2 (Or.inr rfl) (by norm_num) (by norm_num), by simp [limitOrder]⟩,
      ⟨limitOrder_validated 2 1 (Or.inl rfl) (by norm_num) (by norm_num), by simp [limitOrder]⟩, by simp⟩
  · exact History.each_cons.2 ⟨by decide +kernel, History.each_cons.2 ⟨by decide +kernel, History.each_nil⟩⟩

/-- A buy of 5 at 12 that takes 3 at 10 and rests: 24 are needed for the rest, and 30 stay
locked. -/
theorem run_not_locked :
    ¬ ∀ (dv : Decimal → Decimal → Decimal) (cache : BalanceCache) (cs : List Command),
      (∀ u m, cache.locked u m = 0) → (∀ c ∈ cs, c.WithoutBudget) →
        ∀ done more, cs = done ++ more → ∀ u m,
          ((Engine.start cache).run dv done).balanceCache.locked u m = ((Engine.start cache).run dv done).held u m := by
  intro hall
  have h := hall (· / ·) ((BalanceCache.new.setBalance 1 "USDT" 100 0).setBalance 2 "SOL" 5 0)
    [.submitOrder (limitOrder 1 2 .sell 10 3), .submitOrder (limitOrder 2 1 .buy 12 5)]
    (locked_setBalance (locked_setBalance (fun _ _ => rfl) _ _ _) _ _ _) (by
      simp only [List.forall_mem_cons]
      exact ⟨⟨limitOrder_validated 1 2 (Or.inr rfl) (by norm_num) (by norm_num), by simp [limitOrder]⟩,
        ⟨limitOrder_validated 2 1 (Or.inl rfl) (by norm_num) (by norm_num), by simp [limitOrder]⟩, by simp⟩)
    _ [] (List.append_nil _).symm 1 "USDT"
  revert h
  decide +kernel

end CexEngine
