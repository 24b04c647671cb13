import CexEngine.Proof.Conservation
import CexEngine.Proof.Settle

/-!
# Locks and resting orders

* `Engine.required`: what the resting orders of a user need in a mint. `Engine.Covered`: it
  is locked. `Engine.slack`: what is locked beyond it.
* `quantity_used`: what an order without a budget pays, needs for its rest and saves against
  its limit is what it locked.
* `submit_settles`: from covered books, every trade of a submit is executed and its release
  succeeds.
* `submit_slack`: the slack grows by what the orders that were let go needed and by what a
  limit buy that rests has saved.
* `run_settles`: nothing that a run matches, releases or cancels fails to settle.
-/

namespace CexEngine

variable {dv : Decimal → Decimal → Decimal} {s : Engine}

/-- What a user's resting orders need to have locked in a mint. -/
def Engine.required (s : Engine) (u : UserId) (m : Mint) : Decimal := s.total fun o => o.required u m

/-- Every resting order has what it needs locked. -/
def Engine.Covered (s : Engine) : Prop := ∀ u m, s.required u m ≤ s.balanceCache.locked u m

/-- What is locked beyond what the resting orders need. -/
def Engine.slack (s : Engine) (u : UserId) (m : Mint) : Decimal := s.balanceCache.locked u m - s.required u m

theorem Engine.covered_iff_slack : s.Covered ↔ ∀ u m, 0 ≤ s.slack u m := by
  simp only [Engine.Covered, Engine.slack, sub_nonneg]

section Posting

variable {user u : UserId} {mint m : Mint} {x y : Decimal}

theorem posting_add : posting user mint (x + y) u m = posting user mint x u m + posting user mint y u m := by
  unfold posting
  split_ifs <;> ring

theorem posting_sub : posting user mint (x - y) u m = posting user mint x u m - posting user mint y u m := by
  unfold posting
  split_ifs <;> ring

theorem posting_le (h : x ≤ y) : posting user mint x u m ≤ posting user mint y u m := by
  unfold posting
  split_ifs
  · exact h
  · exact le_rfl

theorem sum_map_posting {ι : Type*} (l : List ι) (f : ι → Decimal) :
    (l.map fun i => posting user mint (f i) u m).sum = posting user mint (l.map f).sum u m := by
  induction l with
  | nil => simp [posting]
  | cons i l ih => rw [List.map_cons, List.sum_cons, ih, List.map_cons, List.sum_cons, posting_add]

end Posting

/-! ## What an order pays -/

/-- What the matches of a limit buy cost less than its limit. -/
def OrderEntry.saved (o : OrderEntry) (ms : List MatchResult) : Decimal :=
  if o.orderType = .buy then (ms.map fun m => (o.price.getD 0 - m.price) * m.amount).sum else 0

section Pays

variable {order : OrderEntry} (hk : order.Kind) {book : OrderBook}
  (hside : ∀ x ∈ (book.side (order.rule dv).scansBuys).stock, Rests (order.rule dv).scansBuys order.pair x.1 x.2)

include hk hside

theorem matching_rests : FactsAt (Live order) (Rests (order.rule dv).scansBuys order.pair)
    ((order.rule dv).IsFill (Live order) (Rests (order.rule dv).scansBuys order.pair))
    (order.matching dv book).incoming (order.matching dv book).side.stock (order.matching dv book).results :=
  matching_facts dv hk book (fun _ _ a hr _ hpos => hr.fill a hpos) hside

/-- The matches of a call with the book's orders have positive prices and amounts. -/
theorem matching_pos : ∀ m ∈ (order.matching dv book).results, 0 < m.price ∧ 0 < m.amount := by
  intro m hm
  obtain ⟨incoming, price, resting, amount, hf, rfl⟩ := (matching_rests hk hside).results m hm
  rw [fill_report_price, fill_report_amount]
  exact ⟨hf.rests.price_pos, fill_amount_pos hk hf.rests.remaining_pos hf⟩

/-- **What an order without a budget pays, needs for its rest and saves** is what it locked. -/
theorem quantity_used (hq : order.remainingQuoteAmount = none) :
    order.used (order.matching dv book).results + (order.matching dv book).incoming.unlock.2 +
      order.saved (order.matching dv book).results = order.lock.2 := by
  have hcharge := matching_charges dv hk (fun _ _ a hr _ hpos => hr.fill a hpos) hside
    (v := fun o => o.remainingAmount) (g := fun m => m.amount) (fun hf => by
      rw [fill_take hk hq hf, fill_report_amount]
      simp only [ExactSums.sub_eq]
      ring)
  obtain ⟨-, -, htype, hside', -, hprice⟩ := OrderEntry.terms_eq (matching_rests hk hside).live.terms
  have hamount := (hk.quantity hq).amount
  rcases hk.isBuy_or with ht | ht
  · have hlimit : order.orderSide ≠ .market := by
      cases hk with
      | limitBuy _ _ hs => rw [hs]; simp
      | limitSell _ _ hs => rw [hs]; simp
      | marketSell hs => rw [hs] at ht; cases ht
      | marketBuy _ _ _ _ _ _ hr => rw [hr] at hq; cases hq
    simp only [OrderEntry.used, OrderEntry.unlock, OrderEntry.saved, OrderEntry.lock, htype, ht, hprice, if_true,
      if_neg hlimit, quoteUsed_eq_sum, exact_mul, hamount, ← hcharge]
    -- at the limit, every match would cost its amount times the limit
    have hsum : ∀ (L : Decimal) (ms : List MatchResult), (ms.map fun m => m.price * m.amount).sum +
        (ms.map fun m => (L - m.price) * m.amount).sum = L * (ms.map fun m => m.amount).sum := by
      intro L ms
      induction ms with
      | nil => simp
      | cons m ms ih => simp only [List.map_cons, List.sum_cons]; linarith
    have := hsum (order.price.getD 0) (order.matching dv book).results
    linarith
  · have hne : ¬ order.orderType = .buy := by rw [ht]; simp
    simp only [OrderEntry.used, OrderEntry.unlock, OrderEntry.saved, OrderEntry.lock, htype, if_neg hne, amountUsed_eq_sum,
      hamount, ← hcharge]
    ring

/-- No match costs more than the limit. -/
theorem saved_term_nonneg (ht : order.orderType = .buy) (hq : order.remainingQuoteAmount = none) :
    ∀ m ∈ (order.matching dv book).results, 0 ≤ (order.price.getD 0 - m.price) * m.amount := by
  intro m hm
  obtain ⟨incoming, price, resting, amount, hf, rfl⟩ := (matching_rests hk hside).results m hm
  rw [fill_report_price, fill_report_amount]
  have hpos := fill_amount_pos hk hf.rests.remaining_pos hf
  cases hk with
  | limitBuy p _ hs hp =>
    have := (fill_price hf hs hp).1 ht
    rw [hp, Option.getD_some]
    exact mul_nonneg (sub_nonneg.2 this) hpos.le
  | limitSell _ hs => rw [hs] at ht; cases ht
  | marketSell hs => rw [hs] at ht; cases ht
  | marketBuy _ _ _ _ _ _ hr => rw [hr] at hq; cases hq

theorem saved_nonneg (hq : order.remainingQuoteAmount = none) :
    0 ≤ order.saved (order.matching dv book).results := by
  unfold OrderEntry.saved
  split_ifs with ht
  swap
  · exact le_rfl
  refine List.sum_nonneg (List.forall_mem_map.2 fun m hm => ?_)
  exact saved_term_nonneg hk hside ht hq m hm

/-- What the trades of a call debit: the makers by match, the taker in one sum. -/
theorem matching_debits (u : UserId) (m : Mint) :
    BalanceCache.debits (order.matching dv book).results u m =
      ((order.matching dv book).results.map fun t => t.makerDebit (order.rule dv).scansBuys u m).sum +
        posting order.userId order.lock.1 (order.used (order.matching dv book).results) u m := by
  have htaker : ∀ t ∈ (order.matching dv book).results, t.takerDebit (order.rule dv).scansBuys u m =
      posting order.userId order.lock.1 (if order.orderType = .buy then t.price * t.amount else t.amount) u m := by
    intro t ht
    obtain ⟨incoming, price, resting, amount, hf, rfl⟩ := (matching_rests hk hside).results t ht
    rcases hk.isBuy_or with hb | hb
    · rw [(fill_report hf.live).1 hb]
      simp [OrderEntry.rule_buy hb, buyRule, MatchResult.takerDebit, MatchResult.buyerDebit, OrderEntry.lock, hb,
        MatchResult.totalValue]
    · rw [(fill_report hf.live).2 hb]
      simp [OrderEntry.rule_sell hb, sellRule, MatchResult.takerDebit, MatchResult.sellerDebit, OrderEntry.lock, hb]
  have hused : order.used (order.matching dv book).results =
      ((order.matching dv book).results.map fun t =>
        if order.orderType = .buy then t.price * t.amount else t.amount).sum := by
    unfold OrderEntry.used
    split_ifs
    · exact quoteUsed_eq_sum _
    · exact amountUsed_eq_sum _
  rw [hused, ← sum_map_posting, ← List.map_congr_left htaker, ← List.sum_map_add]
  unfold BalanceCache.debits
  exact congrArg List.sum (List.map_congr_left fun t _ => (t.maker_add_taker _ u m).symm)

end Pays

/-! ## Submitting -/

theorem rests_iff {order incoming : OrderEntry} (hk : order.Kind) (hl : Live order incoming) :
    incoming.rests ↔ ¬ (order.orderSide = .market ∨ incoming.remainingAmount = 0) := by
  obtain ⟨-, -, -, hside, -, -⟩ := OrderEntry.terms_eq hl.terms
  have hlimit : order.orderSide = .limit → order.Quantity →
      (incoming.rests ↔ ¬ (order.orderSide = .market ∨ incoming.remainingAmount = 0)) := by
    intro hs hq
    have hnone := hl.budget_none.2 hq.budget
    have h₀ := (hl.quantity hnone).1
    simp only [OrderEntry.rests, hside, hs, OrderEntry.hasRemaining, hnone, decide_eq_true_eq, true_and,
      reduceCtorEq, false_or]
    exact ⟨fun h => ne_of_gt h, fun h => lt_of_le_of_ne h₀ (Ne.symm h)⟩
  have hmarket : order.orderSide = .market →
      (incoming.rests ↔ ¬ (order.orderSide = .market ∨ incoming.remainingAmount = 0)) := by
    intro hs
    simp [OrderEntry.rests, hside, hs]
  cases hk with
  | limitBuy _ _ hs _ _ hq => exact hlimit hs hq
  | limitSell _ _ hs _ _ hq => exact hlimit hs hq
  | marketSell _ hs => exact hmarket hs
  | marketBuy _ _ hs => exact hmarket hs

/-- What the resting part of an order needs. -/
def OrderEntry.restRequired (o : OrderEntry) : Decimal := if o.rests then o.unlock.2 else 0

section Submit

variable {order : OrderEntry} (hk : order.Kind) (hplaced : s.Placed)

include hk hplaced

/-- The orders that are let go of need nothing or more. -/
theorem dropped_required_nonneg (dv : Decimal → Decimal → Decimal) (u : UserId) (m : Mint) :
    0 ≤ ((order.matching dv (s.orderbook order.pair)).dropped.map fun o => o.required u m).sum :=
  List.sum_nonneg (List.forall_mem_map.2 fun o ho => matching_dropped_nonneg hk (hplaced order.pair _) o ho u m)

/-- The makers' debits are within what they have locked. -/
theorem makers_covered (dv : Decimal → Decimal → Decimal) (u : UserId) (m : Mint) :
    ((order.matching dv (s.orderbook order.pair)).results.map
      fun t => t.makerDebit (order.rule dv).scansBuys u m).sum ≤ s.required u m := by
  have hside := hplaced order.pair (order.rule dv).scansBuys
  have hcons := matching_conserves dv hk (fun _ _ a hr _ hpos => hr.fill a hpos) hside
    (w := fun o => o.required u m) (g := fun t => t.makerDebit (order.rule dv).scansBuys u m)
    (fun hf => maker_conserves hk hf u m)
  have hfacts := matching_rests hk hside
  have hleft : 0 ≤ (order.matching dv (s.orderbook order.pair)).side.total fun o => o.required u m :=
    OrderBookSide.total_nonneg fun x hx => (hfacts.stock x hx).required_nonneg u m
  have hdropped := dropped_required_nonneg hk hplaced dv u m
  have hle := Engine.side_total_le (w := fun o => o.required u m)
    (fun pair buys x hx => (hplaced pair buys x hx).required_nonneg u m) order.pair (order.rule dv).scansBuys
  unfold OrderBookSide.total at hle hleft
  unfold Engine.required
  linarith

theorem restRequired_nonneg (dv : Decimal → Decimal → Decimal) :
    0 ≤ (order.matching dv (s.orderbook order.pair)).incoming.restRequired := by
  unfold OrderEntry.restRequired
  split_ifs with hr
  · obtain ⟨p, -, hR⟩ := rests_of_live hk (matching_rests hk (hplaced order.pair _)).live hr
    unfold OrderEntry.unlock
    split_ifs
    · simpa [hR.price] using mul_nonneg hR.price_pos.le hR.remaining_pos.le
    · exact hR.remaining_pos.le
  · exact le_rfl

/-- What rests of an order needs `restRequired` of the order's lock. -/
theorem rest_required (u : UserId) (m : Mint) :
    (if (order.matching dv (s.orderbook order.pair)).incoming.rests then
      (order.matching dv (s.orderbook order.pair)).incoming.required u m else 0) =
      posting order.userId order.lock.1 (order.matching dv (s.orderbook order.pair)).incoming.restRequired u m := by
  obtain ⟨-, huser, htype, -, hpair, -⟩ :=
    OrderEntry.terms_eq (matching_rests hk (hplaced order.pair (order.rule dv).scansBuys)).live.terms
  obtain ⟨hb, hq⟩ := TradingPair.mk.inj hpair
  -- the fill changes neither the side nor the pair, so the lock is in the same mint
  have hmint : (order.matching dv (s.orderbook order.pair)).incoming.unlock.1 = order.lock.1 := by
    unfold OrderEntry.unlock OrderEntry.lock
    rw [htype, hb, hq]
    split_ifs <;> rfl
  unfold OrderEntry.restRequired OrderEntry.required
  split_ifs
  · rw [huser, hmint]
  · simp [posting]

end Submit

section Granted

variable {order : OrderEntry} {cache : BalanceCache} {book : OrderBook}
  {settled : BalanceCache × List (MatchResult × Except EngineError (List DbCommand))}
  {counted : List MatchResult} {released : BalanceCache × Option (Except EngineError Unit)}
  (hk : order.Kind) (hplaced : s.Placed) (hcov : s.Covered)
  (hg : Granted dv s order cache book settled counted released)
  (hused : order.used (order.matching dv (s.orderbook order.pair)).results +
    (order.matching dv (s.orderbook order.pair)).incoming.restRequired ≤ order.lock.2)

include hk hplaced hcov hg hused

/-- The cache after the trades of a submit that pays within its lock. -/
theorem submit_trades : BalanceCache.AllOk settled.2 ∧ ∀ u m, settled.1.locked u m =
    s.balanceCache.locked u m + posting order.userId order.lock.1 order.lock.2 u m -
      BalanceCache.debits (order.matching dv (s.orderbook order.pair)).results u m := by
  have hpos := matching_positive dv hk hplaced.ordersNonneg
  have hrest := restRequired_nonneg hk hplaced dv
  have hok : BalanceCache.AllOk settled.2 := by
    rw [hg.trades, BalanceCache.executeTrades_ok_iff _ _ hpos]
    intro u m _
    -- the makers pay from what their orders hold, the taker from this lock
    have h₁ := makers_covered hk hplaced dv u m
    have h₂ := hcov u m
    have h₃ : posting order.userId order.lock.1 (order.used (order.matching dv (s.orderbook order.pair)).results) u m ≤
        posting order.userId order.lock.1 order.lock.2 u m := posting_le (by linarith)
    rw [matching_debits hk (hplaced order.pair _), hg.locked.locked]
    linarith
  refine ⟨hok, fun u m => ?_⟩
  rw [hg.trades] at hok ⊢
  rw [(BalanceCache.executeTrades_moves _ _ hok).locked, hg.locked.locked]
  ring

/-- The matches that count for the release are all of them. -/
theorem counted_eq : counted = (order.matching dv (s.orderbook order.pair)).results := by
  have hok := (submit_trades hk hplaced hcov hg hused).1
  rw [hg.counts]
  split_ifs
  · rw [executed_of_allOk hok, hg.trades, BalanceCache.executeTrades_fst]
  · rfl

/-- **The release of a submit succeeds**, and leaves what the rest needs and has saved. -/
theorem submit_release : (∀ r, released.2 = some r → r = .ok ()) ∧ ∀ u m, released.1.locked u m =
    settled.1.locked u m - posting order.userId order.lock.1
      (if (order.matching dv (s.orderbook order.pair)).incoming.rests then 0
        else order.lock.2 - order.used (order.matching dv (s.orderbook order.pair)).results) u m := by
  have hl := (matching_rests hk (hplaced order.pair (order.rule dv).scansBuys)).live
  have hlocked := (submit_trades hk hplaced hcov hg hused).2
  have hrest := restRequired_nonneg hk hplaced dv
  rw [hg.release, counted_eq hk hplaced hcov hg hused, ExactSums.sub_eq]
  by_cases hr : (order.matching dv (s.orderbook order.pair)).incoming.rests
  -- what rests keeps its lock: nothing is released
  · rw [if_neg ((rests_iff hk hl).1 hr), if_pos hr]
    exact ⟨by simp, fun u m => by simp [posting]⟩
  · rw [if_pos (not_not.1 (mt (rests_iff hk hl).2 hr)), if_neg hr]
    have h₁ := makers_covered hk hplaced dv order.userId order.lock.1
    have h₂ := hcov order.userId order.lock.1
    obtain ⟨hok, hm⟩ := release_spec settled.1 order.userId order.lock.1 (by linarith :
      0 ≤ order.lock.2 - order.used (order.matching dv (s.orderbook order.pair)).results) (by
        rw [hlocked, matching_debits hk (hplaced order.pair _), posting_self, posting_self]
        linarith)
    refine ⟨hok, fun u m => ?_⟩
    rw [hm.locked]
    unfold posting
    split_ifs <;> ring

/-- **The slack after a submit**: what the orders that were let go needed is left locked, and
what a limit buy that rests has saved. -/
theorem submit_slack (u : UserId) (m : Mint) : (processSubmitOrder dv s order).engine.slack u m = s.slack u m +
    ((order.matching dv (s.orderbook order.pair)).dropped.map fun o => o.required u m).sum +
    posting order.userId order.lock.1 (if (order.matching dv (s.orderbook order.pair)).incoming.rests then
      order.lock.2 - order.used (order.matching dv (s.orderbook order.pair)).results -
        (order.matching dv (s.orderbook order.pair)).incoming.restRequired else 0) u m := by
  have htotal := total_submit hk hg (fun _ _ a hr _ hpos => hr.fill a hpos) (hplaced order.pair _)
    (w := fun o => o.required u m) (g := fun t => t.makerDebit (order.rule dv).scansBuys u m)
    (fun hf => maker_conserves hk hf u m)
  rw [rest_required hk hplaced] at htotal
  have hreleased := (submit_release hk hplaced hcov hg hused).2 u m
  have hlocked := (submit_trades hk hplaced hcov hg hused).2 u m
  have hcache : (processSubmitOrder dv s order).engine.balanceCache = released.1 := by rw [hg.engine]
  rw [matching_debits hk (hplaced order.pair _)] at hlocked
  unfold Engine.slack Engine.required
  rw [hcache, hreleased, hlocked]
  unfold OrderEntry.restRequired at htotal ⊢
  split_ifs at htotal ⊢
  · rw [posting_sub, posting_sub]
    have : posting order.userId order.lock.1 0 u m = 0 := by simp [posting]
    linarith
  · rw [posting_sub]
    have : posting order.userId order.lock.1 0 u m = 0 := by simp [posting]
    linarith

end Granted

/-- A submit whose lock is refused leaves the slack as it is. -/
theorem Refused.slack {order : OrderEntry} (hr : Refused dv s order) (u : UserId) (m : Mint) :
    (processSubmitOrder dv s order).engine.slack u m = s.slack u m := by
  rw [Engine.slack, Engine.required, Engine.total_congr hr.orderbooks, hr.balances.locked]
  rfl

/-- **A submit that pays within its lock keeps the books covered.** -/
theorem covered_submit {order : OrderEntry} (hk : order.Kind) (hplaced : s.Placed) (hcov : s.Covered)
    (hused : order.lock.2 ≤ s.balanceCache.available order.userId order.lock.1 →
      order.used (order.matching dv (s.orderbook order.pair)).results +
        (order.matching dv (s.orderbook order.pair)).incoming.restRequired ≤ order.lock.2) :
    (processSubmitOrder dv s order).engine.Covered := by
  rw [Engine.covered_iff_slack] at hcov ⊢
  intro u m
  rcases processSubmitOrder_cases dv s hk with hr | ⟨cache, book, settled, counted, released, hg⟩
  · rw [hr.slack]
    exact hcov u m
  have hused := hused hg.funds
  rw [submit_slack hk hplaced (Engine.covered_iff_slack.2 hcov) hg hused]
  have hdropped := dropped_required_nonneg hk hplaced dv u m
  refine add_nonneg (add_nonneg (hcov u m) hdropped) (posting_nonneg ?_)
  split_ifs
  · linarith
  · exact le_rfl

/-- What an order without a budget pays and its rest needs is within its lock. -/
theorem quantity_within (dv : Decimal → Decimal → Decimal) {order : OrderEntry} (hk : order.Kind)
    (hq : order.remainingQuoteAmount = none)
    (hplaced : s.Placed) : order.used (order.matching dv (s.orderbook order.pair)).results +
      (order.matching dv (s.orderbook order.pair)).incoming.restRequired ≤ order.lock.2 := by
  have hside := hplaced order.pair (order.rule dv).scansBuys
  have hfacts := matching_rests hk hside
  have heq := quantity_used hk hside hq
  have hsaved := saved_nonneg hk hside hq
  have hnone := hfacts.live.budget_none.2 hq
  have hrem := (hfacts.live.quantity hnone).1
  have hprice : 0 ≤ (order.matching dv (s.orderbook order.pair)).incoming.price.getD 0 := by
    rw [(OrderEntry.terms_eq hfacts.live.terms).2.2.2.2.2]
    cases hk with
    | limitBuy p _ _ hp hpos => rw [hp]; exact hpos.le
    | limitSell p _ _ hp hpos => rw [hp]; exact hpos.le
    | marketSell _ _ hp => rw [hp]; exact le_rfl
    | marketBuy _ _ _ hp => rw [hp]; exact le_rfl
  have hunlock : 0 ≤ (order.matching dv (s.orderbook order.pair)).incoming.unlock.2 := by
    unfold OrderEntry.unlock
    split_ifs
    · exact mul_nonneg hprice hrem
    · exact hrem
  unfold OrderEntry.restRequired
  split_ifs <;> linarith

/-! ## Cancelling and changing balances -/

section Cancel

variable {orderId : OrderId} {userId : UserId} {pair : TradingPair} {book : OrderBook} {buys : Bool} {price : Decimal}
  {order : OrderEntry} {unlocked : BalanceCache × Except EngineError Unit}
  (ht : TakenOut s orderId userId pair book buys price order unlocked)

include ht

/-- **From covered books the unlock of a cancel succeeds.** -/
theorem cancel_unlocks (hplaced : s.Placed) (hcov : s.Covered) :
    order.unlock.2 ≤ s.balanceCache.locked userId order.unlock.1 := by
  have hle := Engine.side_total_le (w := fun o => o.required userId order.unlock.1)
    (fun pair buys x hx => (hplaced pair buys x hx).required_nonneg _ _) pair buys
  have hstock := OrderBookSide.stock_takeOut ht.located
  have hbook := Engine.orderbook_of_lookup ht.found
  have hrest : 0 ≤ ((book.side buys).takeOut price orderId).total fun o => o.required userId order.unlock.1 := by
    refine OrderBookSide.total_nonneg fun x hx => ?_
    have hp := hplaced pair buys x
    rw [hbook, hstock] at hp
    exact (hp (Multiset.mem_cons_of_mem hx)).required_nonneg _ _
  rw [hbook, OrderBookSide.total, hstock, Multiset.map_cons, Multiset.sum_cons] at hle
  have hown : order.required userId order.unlock.1 = order.unlock.2 := by
    rw [OrderEntry.required, ht.owner, posting_self]
  have hcov := hcov userId order.unlock.1
  unfold OrderBookSide.total at hrest
  unfold Engine.required at hcov
  rw [hown] at hle
  linarith

/-- A cancel whose unlock succeeds leaves the slack as it is. -/
theorem cancel_slack (h : order.unlock.2 ≤ s.balanceCache.locked userId order.unlock.1) (u : UserId) (m : Mint) :
    (handleCancelOrder s orderId userId pair).engine.slack u m = s.slack u m := by
  have htotal := total_cancel ht fun o => o.required u m
  have hcache : (handleCancelOrder s orderId userId pair).engine.balanceCache = unlocked.1 := by rw [ht.engine]
  have hm := (BalanceCache.unlockBalanceForCancel_granted h).2
  rw [← ht.unlock] at hm
  unfold Engine.slack Engine.required
  rw [hcache, hm.locked, ← htotal, OrderEntry.required, ht.owner]
  unfold posting
  split_ifs <;> ring

/-- And it is answered with the order. -/
theorem cancel_ok (h : order.unlock.2 ≤ s.balanceCache.locked userId order.unlock.1) :
    unlocked.2 = .ok () ∧ (handleCancelOrder s orderId userId pair).answer = .ok order := by
  have hok : unlocked.2 = .ok () := by
    cases hu : unlocked.2 with
    | ok _ => rfl
    | error e => exact absurd h (not_le.2 (ht.unlock_err.1 (by rw [hu]; rfl)))
  exact ⟨hok, ht.ok (by rw [hok]; rfl)⟩

end Cancel

/-- A deposit or a withdrawal touches no lock. -/
theorem addAvailable_locked (c : BalanceCache) (user : UserId) (mint : Mint) (delta : Decimal) (u : UserId)
    (m : Mint) : (c.addAvailable user mint delta).locked u m = c.locked u m := by
  unfold BalanceCache.addAvailable
  dsimp only
  split_ifs <;> simp only [BalanceCache.locked, BalanceCache.entry_put] <;> split_ifs with h
  · rw [h.1, h.2]
  · rfl
  · rw [h.1, h.2]
  · rfl

end CexEngine
