import CexEngine.Proof.Conservation
import CexEngine.Proof.Matchable

/-!
# The totals of a submit

What a submit adds up after its matching, for an order that fits and whose lock is granted.

* `OrderEntry.IsParty`: what the matches move is the order's on one side, and others' on the other.
* `trades_fit`: the settling does not panic.
* `finishLimit_fits`, `finishMarket_fits`: nor does what follows it.
-/

namespace CexEngine

variable {dv : Decimal → Decimal → Decimal} {s : Engine} {order : OrderEntry}

section Parties

/-- It credits its user by what the other one pays. -/
theorem OrderEntry.IsParty.credit_le {t : MatchResult} (h : order.IsParty t) (hp : 0 ≤ t.price) (ha : 0 ≤ t.amount)
    (m : Mint) : ∃ u, u ≠ order.userId ∧ t.credit order.userId m ≤ t.debit u m := by
  obtain ⟨-, -, hparty⟩ := h
  have hvalue := mul_nonneg hp ha
  unfold MatchResult.credit MatchResult.debit MatchResult.buyerDebit MatchResult.sellerDebit
  split_ifs at hparty with ht
  · obtain ⟨hown, hother⟩ := hparty
    refine ⟨t.sellerId, hother, ?_⟩
    rw [posting_of_ne hother.symm, zero_add, hown, posting_user, posting_user]
    exact le_add_of_nonneg_left (posting_nonneg hvalue)
  · obtain ⟨hown, hother⟩ := hparty
    refine ⟨t.buyerId, hother, ?_⟩
    rw [posting_of_ne hother.symm, add_zero, hown, posting_user, posting_user]
    exact le_add_of_nonneg_right (posting_nonneg ha)

variable {ts : List MatchResult} (hts : ∀ t ∈ ts, order.IsParty t)

include hts

/-- What its matches credit its user with comes from others. -/
theorem credits_own_le (hpos : BalanceCache.Positive ts) (m : Mint) :
    BalanceCache.credits ts order.userId m ≤
      ∑ u ∈ Finset.univ.erase order.userId, BalanceCache.debits ts u m := by
  induction ts with
  | nil => simp
  | cons t ts ih =>
    obtain ⟨ht, hrest⟩ := List.forall_mem_cons.1 hts
    obtain ⟨hp, ha⟩ := hpos t List.mem_cons_self
    obtain ⟨u, hu, hle⟩ := ht.credit_le hp ha m
    simp only [BalanceCache.credits_cons, BalanceCache.debits_cons, Finset.sum_add_distrib]
    have hsingle := Finset.single_le_sum (f := fun u => t.debit u m) (fun u _ => MatchResult.debit_nonneg hp ha)
      (Finset.mem_erase.2 ⟨hu, Finset.mem_univ u⟩)
    exact add_le_add (hle.trans hsingle) (ih hrest hpos.tail)

/-- Its matches are in its mints. -/
theorem moves_other {m : Mint} (hb : m ≠ order.baseMint) (hq : m ≠ order.quoteMint) (u : UserId) :
    BalanceCache.credits ts u m = 0 ∧ BalanceCache.debits ts u m = 0 := by
  constructor
  all_goals
    refine List.sum_eq_zero fun x hx => ?_
    obtain ⟨t, ht, rfl⟩ := List.mem_map.1 hx
    obtain ⟨htb, htq, -⟩ := hts t ht
    simp [MatchResult.credit, MatchResult.debit, MatchResult.buyerDebit, MatchResult.sellerDebit, posting, htb, htq,
      hb, hq]

end Parties

theorem quoteUsed_nonneg {ms : List MatchResult} (h : BalanceCache.Positive ms) : 0 ≤ quoteUsed ms := by
  rw [quoteUsed_eq_sum]
  refine List.sum_nonneg (List.forall_mem_map.2 fun m hm => ?_)
  exact mul_nonneg (h m hm).1 (h m hm).2

theorem amountUsed_nonneg {ms : List MatchResult} (h : BalanceCache.Positive ms) : 0 ≤ amountUsed ms := by
  rw [amountUsed_eq_sum]
  refine List.sum_nonneg (List.forall_mem_map.2 fun m hm => ?_)
  exact (h m hm).2

theorem OrderEntry.Quantity.amount_nonneg (h : order.Quantity) : 0 ≤ order.amount := by
  rw [h.amount]
  exact h.remaining_pos.le

section Bounds

variable (hk : order.Kind) (hamount : order.amount ≤ maxValue) (hplaced : s.Placed) (hfits : order.Fits s)

theorem OrderEntry.Fits.lock_supply (hfits : order.Fits s) : s.balanceCache.supply order.lock.1 ≤ maxValue := by
  unfold OrderEntry.lock
  split_ifs
  · exact hfits.quote
  · exact hfits.quote
  · exact hfits.base

/-- A lock that is granted fits. -/
theorem OrderEntry.Fits.lock_le (hfits : order.Fits s) (hc : s.balanceCache.Sound)
    (hfunds : order.lock.2 ≤ s.balanceCache.available order.userId order.lock.1) : order.lock.2 ≤ maxValue := by
  have := Checked.total_le_supply hc order.userId order.lock.1
  have := (hc order.userId order.lock.1).2
  have := hfits.lock_supply
  linarith

include hk in
theorem lock_fits (h : order.lock.2 ≤ maxValue) : Checked.lock order = some order.lock := by
  have hpos := hk.lock_pos
  unfold Checked.lock OrderEntry.lock at *
  split_ifs at h hpos ⊢ with ht hs
  · rfl
  · dsimp only at h hpos
    rw [Checked.value_of_le hpos.le h]
    rfl
  · rfl

include hk hplaced

/-- What a settled cache holds. -/
theorem settled_holds (dv : Decimal → Decimal → Decimal) {c : BalanceCache} (hholds : BalanceCache.Holds s.balanceCache c)
    (skip : Bool) : BalanceCache.Holds s.balanceCache
      (c.executeTrades skip (order.matching dv (s.orderbook order.pair)).results).1 :=
  hholds.trans (BalanceCache.holds_executeTrades skip _ c (matching_positive dv hk hplaced.ordersNonneg))

/-- What an order without a budget uses is part of its lock. -/
theorem used_le (dv : Decimal → Decimal → Decimal) (hq : order.remainingQuoteAmount = none) :
    order.used (order.matching dv (s.orderbook order.pair)).results ≤ order.lock.2 := by
  have := quantity_within dv hk hq hplaced
  have := restRequired_nonneg hk hplaced dv
  linarith

/-- What it trades is part of its quantity. -/
theorem amountUsed_le (dv : Decimal → Decimal → Decimal) (hq : order.remainingQuoteAmount = none) :
    amountUsed (order.matching dv (s.orderbook order.pair)).results ≤ order.amount := by
  have hside := hplaced order.pair (order.rule dv).scansBuys
  have hcharge := matching_charges dv hk (fun _ _ a hr _ hpos => hr.fill a hpos) hside
    (v := fun o => o.remainingAmount) (g := fun m => m.amount) (fun hf => by
      rw [fill_take hk hq hf, fill_report_amount]
      simp only [ExactSums.sub_eq]
      ring)
  have hlive := (matching_rests hk hside).live
  have hleft := (hlive.quantity (hlive.budget_none.2 hq)).1
  rw [(hk.quantity hq).amount, amountUsed_eq_sum]
  linarith

include hfits in
/-- What a sell is paid is part of what is offered for it. -/
theorem quoteUsed_le (dv : Decimal → Decimal → Decimal) (ht : order.orderType = .sell) :
    quoteUsed (order.matching dv (s.orderbook order.pair)).results ≤ maxValue := by
  have hside := hplaced order.pair (order.rule dv).scansBuys
  -- the weight of a resting buy of another user is what it has locked
  set w : OrderEntry → Decimal := fun o => if order.userId = o.userId then 0 else o.unlock.2 with hw
  have hcons := matching_conserves dv hk (fun _ _ a hr _ hpos => hr.fill a hpos) hside (w := w)
    (g := fun t => t.price * t.amount) (fun {incoming price resting amount} hf => by
      have hu : order.userId ≠ resting.userId := fun he =>
        hf.foreign ((OrderEntry.terms_eq hf.live.terms).2.1.trans he)
      have htype := hf.rests.type
      simp only [OrderEntry.rule_sell ht, sellRule, sideType, if_true] at htype
      rw [fill_report_price, fill_report_amount]
      simp only [hw, OrderEntry.fill, if_neg hu, OrderEntry.unlock, htype, if_true, hf.rests.price, Option.getD_some,
        exact_mul, ExactSums.sub_eq]
      ring)
  have hrests : ∀ {p o}, Rests (order.rule dv).scansBuys order.pair p o → 0 ≤ w o := by
    intro p o hr
    simp only [hw]
    split_ifs
    · exact le_rfl
    · exact hr.unlock_pos.le
  -- what stays and what is dropped weigh at least nothing
  have hstock : 0 ≤ ((order.matching dv (s.orderbook order.pair)).side.stock.map fun x => w x.2).sum := by
    refine Multiset.sum_nonneg (Multiset.forall_mem_map_iff.2 fun x hx => ?_)
    exact hrests ((matching_rests hk hside).stock x hx)
  have hdropped : 0 ≤ ((order.matching dv (s.orderbook order.pair)).dropped.map w).sum := by
    refine List.sum_nonneg (List.forall_mem_map.2 fun o ho => ?_)
    rcases matching_dropped hk hside o ho with ⟨p, hr⟩ | ⟨-, h₀⟩
    · exact hrests hr
    · simp only [hw, OrderEntry.unlock, h₀, exact_mul, mul_zero]
      split_ifs <;> exact le_rfl
  have hoffered := hfits.offered
  rw [Engine.offered, ← sum_foreign s order fun o => o.unlock.2] at hoffered
  rw [rule_scansBuys] at hcons
  simp only [hw] at hcons hstock hdropped
  rw [quoteUsed_eq_sum]
  linarith

end Bounds

section Settled

variable (hdv : RoundsInRange dv) (hk : order.Kind) (hamount : order.amount ≤ maxValue) (hplaced : s.Placed)
  (hsized : s.Sized) (hfits : order.Fits s) (hc : s.balanceCache.Sound)
  (hfunds : order.lock.2 ≤ s.balanceCache.available order.userId order.lock.1)

include hk hplaced hfits hc hfunds

section Limit

include hamount

/-- The totals of an order without a budget fit. -/
theorem totals_le (dv : Decimal → Decimal → Decimal) (hq : order.remainingQuoteAmount = none) :
    quoteUsed (order.matching dv (s.orderbook order.pair)).results ≤ maxValue ∧
      amountUsed (order.matching dv (s.orderbook order.pair)).results ≤ maxValue := by
  have hlock := hfits.lock_le hc hfunds
  have hused := used_le hk hplaced dv hq
  have htraded := amountUsed_le hk hplaced dv hq
  rcases hk.isBuy_or with ht | ht
  · rw [OrderEntry.used, if_pos ht] at hused
    exact ⟨hused.trans hlock, htraded.trans hamount⟩
  · exact ⟨quoteUsed_le hk hplaced hfits dv ht, htraded.trans hamount⟩

end Limit

include hdv hamount hsized

/-- The value of every match fits. -/
theorem value_le : ∀ t ∈ (order.matching dv (s.orderbook order.pair)).results, t.price * t.amount ≤ maxValue := by
  intro t ht
  cases hq : order.remainingQuoteAmount with
  | none =>
    exact (Checked.value_le_quoteUsed (matching_positive dv hk hplaced.ordersNonneg) t ht).trans
      (totals_le hk hamount hplaced hfits hc hfunds dv hq).1
  | some q =>
    have hfacts : FitsAt dv order _ _ _ :=
      matchAgainst_keeps (fitsAt_keeps dv hk) (fitsAt_start hk hplaced hsized hfits dv)
    obtain ⟨incoming, price, resting, amount, hf, rfl⟩ := hfacts.1.results t ht
    rw [fill_report_price, fill_report_amount]
    exact fill_cost_le hdv hk hf (by rw [hf.live.budget, hq]; rfl)

/-- **Settling does not panic**, from the cache after the lock or any with the same supplies. -/
theorem trades_fit {c : BalanceCache} (hholds : BalanceCache.Holds s.balanceCache c) (skip : Bool) :
    Checked.executeTrades skip c (order.matching dv (s.orderbook order.pair)).results =
      some (c.executeTrades skip (order.matching dv (s.orderbook order.pair)).results) := by
  refine Checked.executeTrades_eq skip _ c (hholds.sound hc) fun t ht => ?_
  obtain ⟨hb, hq, -⟩ := matching_parties dv hk (s.orderbook order.pair) t ht
  obtain ⟨hp, ha⟩ := matching_positive dv hk hplaced.ordersNonneg t ht
  refine ⟨hp, ha, value_le hdv hk hamount hplaced hsized hfits hc hfunds t ht, ?_, ?_⟩
  · rw [hholds.supply, hq]
    exact hfits.quote
  · rw [hholds.supply, hb]
    exact hfits.base

omit hdv hsized in
theorem limitLeftover_fits (dv : Decimal → Decimal → Decimal) (hq : order.remainingQuoteAmount = none)
    (hs : order.orderSide ≠ .market) :
    Checked.limitLeftover order (order.matching dv (s.orderbook order.pair)).results =
      some (limitLeftover order (order.matching dv (s.orderbook order.pair)).results) := by
  obtain ⟨hquote, htraded⟩ := totals_le hk hamount hplaced hfits hc hfunds dv hq
  have hpos := matching_positive dv hk hplaced.ordersNonneg
  have hlock := hfits.lock_le hc hfunds
  have hlock₀ := hk.lock_pos.le
  unfold OrderEntry.lock at hlock hlock₀
  unfold Checked.limitLeftover limitLeftover
  split_ifs with ht
  · rw [if_pos ht, if_neg hs] at hlock hlock₀
    rw [Checked.quoteUsed_eq hpos hquote]
    dsimp only [Option.bind_eq_bind, Option.bind_some]
    rw [Checked.value_of_le hlock₀ hlock]
    dsimp only [Option.bind_some]
    rw [ExactSums.sub_eq, Checked.value_sub hlock₀ hlock (quoteUsed_nonneg hpos) hquote]
    rfl
  · rw [Checked.amountUsed_eq hpos htraded]
    dsimp only [Option.bind_eq_bind, Option.bind_some]
    rw [ExactSums.sub_eq, Checked.value_sub (hk.quantity hq).amount_nonneg hamount (amountUsed_nonneg hpos) htraded]
    rfl

/-- **Finishing a limit order does not panic.** -/
theorem finishLimit_fits (hs : order.orderSide ≠ .market) (hq : order.remainingQuoteAmount = none) {s' : Engine}
    (hholds : BalanceCache.Holds s.balanceCache s'.balanceCache) (locked : DbCommand) :
    Checked.finishLimitOrder order (matchAndRest dv order (s.orderbook order.pair)) s' locked =
      some (finishLimitOrder order (matchAndRest dv order (s.orderbook order.pair)) s' locked) := by
  have hresults := (matchAndRest_spec dv hk (s.orderbook order.pair)).2.1
  obtain ⟨hquote, htraded⟩ := totals_le hk hamount hplaced hfits hc hfunds dv hq
  have hpos := matching_positive dv hk hplaced.ordersNonneg
  have hsettled := settled_holds hk hplaced dv hholds false
  have htrades := trades_fit hdv hk hamount hplaced hsized hfits hc hfunds hholds false
  have hleftover := limitLeftover_fits hk hamount hplaced hfits hc hfunds dv hq hs
  generalize (order.matching dv (s.orderbook order.pair)).results = results at *
  have hrelease : Checked.release (s'.balanceCache.executeTrades false results).1 order.userId
      (limitLeftover order results).1 (limitLeftover order results).2 = some _ :=
    Checked.release_eq (hsettled.sound hc) (by rw [hsettled.supply, limitLeftover_eq hs]; exact hfits.lock_supply)
  unfold Checked.finishLimitOrder finishLimitOrder
  simp only [hresults, htrades, Checked.quoteUsed_eq hpos hquote, Checked.amountUsed_eq hpos htraded, hleftover,
    Option.bind_eq_bind, Option.bind_some]
  split_ifs <;> simp only [hrelease, Option.bind_some]

omit hdv hamount hsized hfits hfunds in
/-- What the user gets was locked by others, and the lock by the user. -/
theorem credits_lock_le (dv : Decimal → Decimal → Decimal) {c : BalanceCache}
    (hholds : BalanceCache.Holds s.balanceCache c) (hlocked : order.lock.2 ≤ c.locked order.userId order.lock.1)
    {done : List MatchResult}
    (hdone : done = executed (c.executeTrades true (order.matching dv (s.orderbook order.pair)).results).2)
    (hparties : ∀ t ∈ done, order.IsParty t) (hpos : BalanceCache.Positive done) :
    BalanceCache.credits done order.userId order.lock.1 + order.lock.2 ≤ c.supply order.lock.1 := by
  have hsettled := settled_holds hk hplaced dv hholds true
  have hothers : ∑ u ∈ Finset.univ.erase order.userId, BalanceCache.debits done u order.lock.1 ≤
      ∑ u ∈ Finset.univ.erase order.userId, c.locked u order.lock.1 := by
    refine Finset.sum_le_sum fun u _ => ?_
    have hmoved := (executed_moves true u order.lock.1 _ c (matching_positive dv hk hplaced.ordersNonneg)).2
    rw [← hdone] at hmoved
    have := (hsettled.sound hc u order.lock.1).2
    linarith
  have hall : ∑ u, c.locked u order.lock.1 ≤ c.supply order.lock.1 :=
    Finset.sum_le_sum fun u _ => le_add_of_nonneg_left (hholds.sound hc u order.lock.1).1
  rw [← Finset.sum_erase_add _ _ (Finset.mem_univ order.userId)] at hall
  have := credits_own_le hparties hpos order.lock.1
  linarith

omit hdv hamount hsized in
/-- What is executed, and what is left of the lock, fit account by account, from a cache in
which the lock is there. -/
theorem changes_fit (dv : Decimal → Decimal → Decimal) {c : BalanceCache}
    (hholds : BalanceCache.Holds s.balanceCache c) (hlocked : order.lock.2 ≤ c.locked order.userId order.lock.1)
    {done : List MatchResult}
    (hdone : done = executed (c.executeTrades true (order.matching dv (s.orderbook order.pair)).results).2)
    (hparties : ∀ t ∈ done, order.IsParty t) (hpos : BalanceCache.Positive done) (u : UserId) (m : Mint) :
    BalanceCache.credits done u m + posting order.userId order.lock.1 (max (order.lock.2 - order.used done) 0) u m ≤
        maxValue ∧
      BalanceCache.debits done u m + posting order.userId order.lock.1 (max (order.lock.2 - order.used done) 0) u m ≤
        maxValue := by
  have hsound := hholds.sound hc
  have hmoves := fun u m => executed_moves true u m _ c (matching_positive dv hk hplaced.ordersNonneg)
  rw [← hdone] at hmoves
  have hmint : order.lock.1 = order.baseMint ∨ order.lock.1 = order.quoteMint := by
    unfold OrderEntry.lock
    split_ifs <;> simp
  -- the trades move the two mints of the order only
  by_cases hm : m = order.baseMint ∨ m = order.quoteMint
  swap
  · rw [not_or] at hm
    obtain ⟨h₁, h₂⟩ := moves_other hparties hm.1 hm.2 u
    have hne : ¬ (u = order.userId ∧ m = order.lock.1) := by
      rintro ⟨-, rfl⟩
      exact hmint.elim hm.1 hm.2
    rw [h₁, h₂, zero_add, posting, if_neg hne]
    exact ⟨maxValue_nonneg, maxValue_nonneg⟩
  have hsupply : c.supply m ≤ maxValue := by
    rw [hholds.supply]
    rcases hm with rfl | rfl
    · exact hfits.base
    · exact hfits.quote
  obtain ⟨hadded, htaken⟩ := hmoves u m
  have hsettled := settled_holds hk hplaced dv hholds true
  have htotal := Checked.total_le_supply hsound u m
  have htotal' := Checked.total_le_supply (hsettled.sound hc) u m
  rw [hsettled.supply, ← hholds.supply] at htotal'
  obtain ⟨h₁, h₂⟩ := hsound u m
  obtain ⟨h₃, h₄⟩ := hsettled.sound hc u m
  -- the leftover goes back to one account
  by_cases hu : u = order.userId ∧ m = order.lock.1
  swap
  · rw [posting, if_neg hu, add_zero, add_zero]
    exact ⟨by linarith, by linarith⟩
  obtain ⟨rfl, rfl⟩ := hu
  rw [posting_self]
  constructor
  · have hcredits := credits_lock_le hk hplaced hc dv hholds hlocked hdone hparties hpos
    have hused := debits_own hparties
    have hdebits := BalanceCache.debits_nonneg hpos order.userId order.lock.1
    have hmax : max (order.lock.2 - order.used done) 0 ≤ order.lock.2 :=
      max_le (by linarith) hk.lock_pos.le
    linarith
  · rw [debits_own hparties] at htaken ⊢
    have hlock := hfits.lock_le hc hfunds
    rcases le_total 0 (order.lock.2 - order.used done) with h | h
    · rw [max_eq_left h]
      linarith
    · rw [max_eq_right h]
      linarith

omit hdv hamount hplaced hsized in
theorem marketLeftover_fits (hs : order.orderSide = .market) {done : List MatchResult}
    (hpos : BalanceCache.Positive done) (hused : order.used done ≤ maxValue) :
    Checked.marketLeftover order done = some (marketLeftover order done) := by
  have hlock := hfits.lock_le hc hfunds
  have hlock₀ := hk.lock_pos.le
  unfold OrderEntry.used at hused
  unfold OrderEntry.lock at hlock hlock₀
  unfold Checked.marketLeftover marketLeftover
  by_cases ht : order.orderType = .buy
  all_goals simp only [ht, hs, if_true, if_false] at hlock hlock₀ hused ⊢
  · rw [Checked.quoteUsed_eq hpos hused]
    dsimp only [Option.bind_eq_bind, Option.bind_some]
    rw [ExactSums.sub_eq, Checked.value_sub hlock₀ hlock (quoteUsed_nonneg hpos) hused]
    rfl
  · rw [Checked.amountUsed_eq hpos hused]
    dsimp only [Option.bind_eq_bind, Option.bind_some]
    rw [ExactSums.sub_eq, Checked.value_sub hlock₀ hlock (amountUsed_nonneg hpos) hused]
    rfl

/-- **Finishing a market order does not panic**, from a cache in which its lock is there. -/
theorem finishMarket_fits (hs : order.orderSide = .market) {s' : Engine}
    (hholds : BalanceCache.Holds s.balanceCache s'.balanceCache)
    (hlocked : order.lock.2 ≤ s'.balanceCache.locked order.userId order.lock.1) (locked : DbCommand) :
    Checked.finishMarketOrder order (matchAndRest dv order (s.orderbook order.pair)) s' locked =
      some (finishMarketOrder order (matchAndRest dv order (s.orderbook order.pair)) s' locked) := by
  have hresults := (matchAndRest_spec dv hk (s.orderbook order.pair)).2.1
  have hpos := matching_positive dv hk hplaced.ordersNonneg
  have hsettled := settled_holds hk hplaced dv hholds true
  have htrades := trades_fit hdv hk hamount hplaced hsized hfits hc hfunds hholds true
  have hvalues := value_le hdv hk hamount hplaced hsized hfits hc hfunds
  have hparties := matching_parties dv hk (s.orderbook order.pair)
  have hchanges := changes_fit hk hplaced hfits hc hfunds dv hholds hlocked rfl
  generalize (order.matching dv (s.orderbook order.pair)).results = results at *
  set done := executed (s'.balanceCache.executeTrades true results).2 with hdone
  have hmem : ∀ t ∈ done, t ∈ results := fun t ht => mem_of_executed ht
  have hown : ∀ t ∈ done, order.IsParty t := fun t ht => hparties t (hmem t ht)
  have hposdone : BalanceCache.Positive done := fun t ht => hpos t (hmem t ht)
  have hchanges := hchanges hown hposdone
  have hleftover := marketLeftover_eq hs done
  have hused : order.used done ≤ maxValue := by
    have := (hchanges order.userId order.lock.1).2
    rw [debits_own hown, posting_self] at this
    have := le_max_right (order.lock.2 - order.used done) 0
    linarith
  have hchecked := marketLeftover_fits hk hfits hc hfunds hs hposdone hused
  have hrelease : Checked.release (s'.balanceCache.executeTrades true results).1 order.userId
      (marketLeftover order done).1 (marketLeftover order done).2 = some _ :=
    Checked.release_eq (hsettled.sound hc) (by rw [hsettled.supply, hleftover]; exact hfits.lock_supply)
  obtain ⟨changes, hsum⟩ : ∃ r, Checked.balanceChanges done order.userId (marketLeftover order done) = some r :=
    Checked.balanceChanges_some (fun t ht => ⟨(hposdone t ht).1, (hposdone t ht).2, hvalues t (hmem t ht)⟩)
      (fun u m => by rw [hleftover]; exact (hchanges u m).1) fun u m => by rw [hleftover]; exact (hchanges u m).2
  unfold Checked.finishMarketOrder finishMarketOrder
  simp only [hresults, htrades, ← hdone, hchecked, hrelease, hsum, Option.bind_eq_bind, Option.bind_some]

end Settled

end CexEngine
