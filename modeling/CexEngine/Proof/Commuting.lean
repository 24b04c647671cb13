import CexEngine.Proof.Settlement

/-!
# Submits that commute

In runs without market buys:

* `submit_moves`: a submit that is granted changes the balances by amounts that depend on the
  order and the book of its pair alone.
* `funds_after`: it leaves the other users no less available.
* `submits_commute`: **two submits of different users on different pairs can be made in either
  order.**
-/

namespace CexEngine

variable {dv : Decimal → Decimal → Decimal} {s : Engine} {order : OrderEntry}

/-- What the submit of an order releases of its lock, with this book of its pair. -/
def OrderEntry.freed (dv : Decimal → Decimal → Decimal) (o : OrderEntry) (book : OrderBook) : Decimal :=
  if (o.matching dv book).incoming.rests then 0 else o.lock.2 - o.used (o.matching dv book).results

/-- What a submit adds to an available balance. -/
def OrderEntry.availableDelta (dv : Decimal → Decimal → Decimal) (o : OrderEntry) (book : OrderBook) (u : UserId)
    (m : Mint) : Decimal :=
  posting o.userId o.lock.1 (o.freed dv book - o.lock.2) u m + BalanceCache.credits (o.matching dv book).results u m

/-- What a submit adds to a locked balance. -/
def OrderEntry.lockedDelta (dv : Decimal → Decimal → Decimal) (o : OrderEntry) (book : OrderBook) (u : UserId)
    (m : Mint) : Decimal :=
  posting o.userId o.lock.1 (o.lock.2 - o.freed dv book) u m - BalanceCache.debits (o.matching dv book).results u m

/-- The orders of runs without market buys. -/
abbrev OrderEntry.WithoutBudget (o : OrderEntry) : Prop := (Command.submitOrder o).WithoutBudget

theorem OrderEntry.WithoutBudget.kind (h : order.WithoutBudget) : order.Kind := validated_kind h.1

theorem OrderEntry.WithoutBudget.budget (h : order.WithoutBudget) : order.remainingQuoteAmount = none :=
  h.kind.no_budget h.2

/-- The order's lock is granted. -/
def Engine.Funds (s : Engine) (order : OrderEntry) : Prop :=
  (s.balanceCache.lockBalanceForOrder order.userId order.lock.1 order.lock.2).2.isOk = true

theorem funds_iff : s.Funds order ↔ order.lock.2 ≤ s.balanceCache.available order.userId order.lock.1 := by
  rw [Engine.Funds, (BalanceCache.lockBalanceForOrder_eq _ _ _ _).2]
  rcases BalanceCache.lockBalance_cases s.balanceCache order.userId order.lock.1 order.lock.2 with
    ⟨hlt, herr, -⟩ | ⟨hle, hok, -⟩
  · rw [herr]
    exact iff_of_false (by simp) (not_le.2 hlt)
  · rw [hok]
    exact iff_of_true rfl hle

/-- The books after a submit that is granted. -/
theorem submit_orderbooks (h : s.Funds order) : (processSubmitOrder dv s order).engine.orderbooks =
    s.orderbooks.insert order.pair (matchAndRest dv order (s.orderbook order.pair)).book := by
  unfold Engine.Funds at h
  unfold processSubmitOrder
  dsimp only
  cases hlock : (s.balanceCache.lockBalanceForOrder order.userId order.lock.1 order.lock.2).2 with
  | error e => rw [hlock] at h; cases h
  | ok _ =>
    dsimp only
    split_ifs <;> rfl

section Submit

variable (horder : order.WithoutBudget) (hplaced : s.Placed) (hcov : s.Covered) (hfunds : s.Funds order)

include horder hplaced hcov hfunds

variable (dv) in
/-- **A submit that is granted answers all its matches and moves what they say**, by amounts
that depend on the order and the book of its pair alone. -/
theorem submit_moves : (processSubmitOrder dv s order).answer = .ok (order.matching dv (s.orderbook order.pair)).results ∧
    BalanceCache.Moves s.balanceCache (processSubmitOrder dv s order).engine.balanceCache
      (order.availableDelta dv (s.orderbook order.pair)) (order.lockedDelta dv (s.orderbook order.pair)) := by
  have hk := horder.kind
  have hused := quantity_within dv hk horder.budget hplaced
  rcases processSubmitOrder_cases dv s hk with hr | ⟨cache, book, settled, counted, released, hg⟩
  · exact absurd (funds_iff.1 hfunds) (not_le.2 hr.funds)
  have hcounted := counted_eq hk hplaced hcov hg hused
  have htrades := (submit_trades hk hplaced hcov hg hused).1
  have hlocked := (submit_trades hk hplaced hcov hg hused).2
  have hrest := restRequired_nonneg hk hplaced dv
  refine ⟨by rw [hg.answer, hcounted], ?_⟩
  rw [hg.trades] at htrades
  have hmoves := BalanceCache.executeTrades_moves _ _ htrades
  rw [← hg.trades] at hmoves
  -- the release moves `freed`
  have hreleased : BalanceCache.Moves settled.1 released.1
      (posting order.userId order.lock.1 (order.freed dv (s.orderbook order.pair)))
      (posting order.userId order.lock.1 (-order.freed dv (s.orderbook order.pair))) := by
    have hl := (matching_rests hk (hplaced order.pair (order.rule dv).scansBuys)).live
    rw [hg.release, hcounted, OrderEntry.freed]
    by_cases hr : (order.matching dv (s.orderbook order.pair)).incoming.rests
    · rw [if_neg ((rests_iff hk hl).1 hr), if_pos hr]
      exact ⟨fun u m => by simp [posting], fun u m => by simp [posting]⟩
    · rw [if_pos (not_not.1 (mt (rests_iff hk hl).2 hr)), if_neg hr]
      rw [ExactSums.sub_eq]
      refine (release_spec settled.1 order.userId order.lock.1 (by linarith) ?_).2
      have h₁ := makers_covered hk hplaced dv order.userId order.lock.1
      have h₂ := hcov order.userId order.lock.1
      rw [hlocked, matching_debits hk (hplaced order.pair _), posting_self, posting_self]
      linarith
  rw [hg.engine]
  refine ((hg.locked.trans hmoves).trans hreleased).congr (fun u m => ?_) fun u m => ?_
  · rw [OrderEntry.availableDelta]
    unfold posting
    split_ifs <;> ring
  · rw [OrderEntry.lockedDelta]
    unfold posting
    split_ifs <;> ring

variable (dv) in
/-- The other users have no less available after it. -/
theorem funds_after {o : OrderEntry} (huser : o.userId ≠ order.userId) (h : s.Funds o) :
    (processSubmitOrder dv s order).engine.Funds o := by
  have hmoves := (submit_moves dv horder hplaced hcov hfunds).2
  have hpos := matching_pos horder.kind (hplaced order.pair (order.rule dv).scansBuys)
  have hcredits : 0 ≤ BalanceCache.credits (order.matching dv (s.orderbook order.pair)).results o.userId o.lock.1 := by
    refine List.sum_nonneg (List.forall_mem_map.2 fun t ht => ?_)
    obtain ⟨hp, ha⟩ := hpos t ht
    exact add_nonneg (posting_nonneg (mul_nonneg hp.le ha.le)) (posting_nonneg ha.le)
  rw [funds_iff] at h ⊢
  rw [hmoves.available, OrderEntry.availableDelta]
  simp only [posting, huser, false_and, if_false, zero_add]
  linarith

end Submit

/-- Submitting two orders in one order and in the other comes to the same. -/
structure Engine.Commutes (dv : Decimal → Decimal → Decimal) (s : Engine) (o₁ o₂ : OrderEntry) : Prop where
  /-- The first order gets the same matches before and after the second one. -/
  first : (processSubmitOrder dv (processSubmitOrder dv s o₂).engine o₁).answer = (processSubmitOrder dv s o₁).answer
  second : (processSubmitOrder dv (processSubmitOrder dv s o₁).engine o₂).answer = (processSubmitOrder dv s o₂).answer
  orderbooks : ∀ pair,
    (processSubmitOrder dv (processSubmitOrder dv s o₁).engine o₂).engine.orderbooks.lookup pair =
      (processSubmitOrder dv (processSubmitOrder dv s o₂).engine o₁).engine.orderbooks.lookup pair
  balances : BalanceCache.SameBalances
    (processSubmitOrder dv (processSubmitOrder dv s o₁).engine o₂).engine.balanceCache
    (processSubmitOrder dv (processSubmitOrder dv s o₂).engine o₁).engine.balanceCache

section Two

variable {o₁ o₂ : OrderEntry} (h₁ : o₁.WithoutBudget) (h₂ : o₂.WithoutBudget) (huser : o₁.userId ≠ o₂.userId)
  (hpair : o₁.pair ≠ o₂.pair) (hplaced : s.Placed) (hcov : s.Covered) (hf₁ : s.Funds o₁) (hf₂ : s.Funds o₂)

variable (dv) in
/-- A submit leaves the books of the other pairs. -/
theorem orderbook_after {o : OrderEntry} (hpair : o.pair ≠ order.pair) (h : s.Funds order) :
    (processSubmitOrder dv s order).engine.orderbook o.pair = s.orderbook o.pair := by
  rw [Engine.orderbook, submit_orderbooks h, AList.lookup_insert_ne hpair]
  rfl

include h₁ h₂ huser hpair hplaced hcov hf₁ hf₂

variable (dv) in
/-- A submit after another one answers and moves what it would have before it. -/
theorem submit_after : (processSubmitOrder dv (processSubmitOrder dv s o₁).engine o₂).answer =
      (processSubmitOrder dv s o₂).answer ∧
    BalanceCache.Moves (processSubmitOrder dv s o₁).engine.balanceCache
      (processSubmitOrder dv (processSubmitOrder dv s o₁).engine o₂).engine.balanceCache
      (o₂.availableDelta dv (s.orderbook o₂.pair)) (o₂.lockedDelta dv (s.orderbook o₂.pair)) ∧
    (processSubmitOrder dv (processSubmitOrder dv s o₁).engine o₂).engine.orderbooks =
      (s.orderbooks.insert o₁.pair (matchAndRest dv o₁ (s.orderbook o₁.pair)).book).insert o₂.pair
        (matchAndRest dv o₂ (s.orderbook o₂.pair)).book := by
  have hplaced' : (processSubmitOrder dv s o₁).engine.Placed := placed_submit h₁.kind hplaced
  have hcov' : (processSubmitOrder dv s o₁).engine.Covered :=
    covered_submit h₁.kind hplaced hcov fun _ => quantity_within dv h₁.kind h₁.budget hplaced
  have hfunds' := funds_after dv h₁ hplaced hcov hf₁ huser.symm hf₂
  have hbook := orderbook_after dv hpair.symm hf₁
  obtain ⟨hanswer, hmoves⟩ := submit_moves dv h₂ hplaced' hcov' hfunds'
  rw [hbook] at hanswer hmoves
  refine ⟨hanswer.trans (submit_moves dv h₂ hplaced hcov hf₂).1.symm, hmoves, ?_⟩
  rw [submit_orderbooks hfunds', hbook, submit_orderbooks hf₁]

/-- **Two submits of different users on different pairs commute**, from covered books. -/
theorem commutes_of_covered : s.Commutes dv o₁ o₂ := by
  obtain ⟨ha₂, hm₂, hb₂⟩ := submit_after dv h₁ h₂ huser hpair hplaced hcov hf₁ hf₂
  obtain ⟨ha₁, hm₁, hb₁⟩ := submit_after dv h₂ h₁ huser.symm hpair.symm hplaced hcov hf₂ hf₁
  have hfirst₁ := (submit_moves dv h₁ hplaced hcov hf₁).2
  have hfirst₂ := (submit_moves dv h₂ hplaced hcov hf₂).2
  refine ⟨ha₁, ha₂, fun pair => ?_, fun u m => ?_⟩
  · rw [hb₁, hb₂]
    by_cases hp₁ : pair = o₁.pair
    · subst hp₁
      rw [AList.lookup_insert_ne hpair, AList.lookup_insert, AList.lookup_insert]
    · rw [AList.lookup_insert_ne hp₁]
      by_cases hp₂ : pair = o₂.pair
      · subst hp₂
        rw [AList.lookup_insert, AList.lookup_insert]
      · rw [AList.lookup_insert_ne hp₂, AList.lookup_insert_ne hp₂, AList.lookup_insert_ne hp₁]
  · have havailable := (hfirst₁.trans hm₂).available u m
    have hlocked := (hfirst₁.trans hm₂).locked u m
    have havailable' := (hfirst₂.trans hm₁).available u m
    have hlocked' := (hfirst₂.trans hm₁).locked u m
    simp only [BalanceCache.available, BalanceCache.locked] at havailable hlocked havailable' hlocked'
    have hext : ∀ b b' : Balance, b.available = b'.available → b.locked = b'.locked → b = b' := by
      rintro ⟨_, _⟩ ⟨_, _⟩ rfl rfl
      rfl
    apply hext
    · linarith
    · linarith

end Two

/-- **Submits on different pairs commute**, in every state that a run without market buys reaches
from empty books and balances that are not negative. -/
theorem submits_commute (dv : Decimal → Decimal → Decimal) (cache : BalanceCache) (cs : List Command)
    (hcache : cache.Sound) (hcs : ∀ c ∈ cs, c.WithoutBudget) (o₁ o₂ : OrderEntry) (h₁ : o₁.WithoutBudget)
    (h₂ : o₂.WithoutBudget) (huser : o₁.userId ≠ o₂.userId) (hpair : o₁.pair ≠ o₂.pair)
    (hf₁ : ((Engine.start cache).run dv cs).Funds o₁) (hf₂ : ((Engine.start cache).run dv cs).Funds o₂) :
    ((Engine.start cache).run dv cs).Commutes dv o₁ o₂ := by
  have key := run_inv dv (I := fun s => s.Tidy ∧ s.Covered)
    (fun s c h (hc : c.WithoutBudget) => ⟨tidy_step hc.validated h.1, covered_step hc h.1.placed h.2⟩) cs
    (Engine.start cache)
    ⟨tidy_start cache, fun u m => by
      rw [Engine.required, Engine.total_start]
      exact (hcache u m).2⟩ hcs
  exact commutes_of_covered h₁ h₂ huser hpair key.1.placed key.2 hf₁ hf₂

/-- A buy of SOL and a buy of BTC from asks of one user, whose USDT both raise. -/
theorem submits_commute_asks :
    ((Engine.start (((BalanceCache.new.setBalance 1 "USDT" 100 0).setBalance 2 "USDT" 100 0).setBalance 3 "SOL" 5 0)).run
      (· / ·) [.updateBalance 3 "BTC" 2, .submitOrder (limitOrder 1 3 .sell 10 5),
        .submitOrder { limitOrder 2 3 .sell 20 2 with baseMint := "BTC" }]).Commutes (· / ·)
      (limitOrder 3 1 .buy 12 3) { limitOrder 4 2 .buy 21 3 with baseMint := "BTC" } := by
  have hbtc : ∀ (id : OrderId) (userId : UserId) {t : OrderType} {price amount : Decimal}, t = .buy ∨ t = .sell →
      0 < price → 0 < amount →
        ({ limitOrder id userId t price amount with baseMint := "BTC" } : OrderEntry).WithoutBudget := by
    rintro id userId t price amount (rfl | rfl) hp ha
    · exact ⟨kind_validated (.limitBuy price rfl rfl rfl hp ⟨ha, rfl, rfl, rfl, rfl⟩), by simp [limitOrder]⟩
    · exact ⟨kind_validated (.limitSell price rfl rfl rfl hp ⟨ha, rfl, rfl, rfl, rfl⟩), by simp [limitOrder]⟩
  refine submits_commute (· / ·)
    (((BalanceCache.new.setBalance 1 "USDT" 100 0).setBalance 2 "USDT" 100 0).setBalance 3 "SOL" 5 0) _
    (((BalanceCache.sound_new.setBalance 1 "USDT" (by norm_num) le_rfl).setBalance 2 "USDT" (by norm_num)
      le_rfl).setBalance 3 "SOL" (by norm_num) le_rfl) ?_ _ _
    ⟨limitOrder_validated 3 1 (Or.inl rfl) (by norm_num) (by norm_num), by simp [limitOrder]⟩
    (hbtc 4 2 (Or.inl rfl) (by norm_num) (by norm_num)) (by decide) (by decide) ?_ ?_
  · simp only [List.forall_mem_cons]
    exact ⟨trivial, ⟨limitOrder_validated 1 3 (Or.inr rfl) (by norm_num) (by norm_num), by simp [limitOrder]⟩,
      hbtc 2 3 (Or.inr rfl) (by norm_num) (by norm_num), by simp⟩
  · rw [Engine.Funds]
    decide +kernel
  · rw [Engine.Funds]
    decide +kernel

end CexEngine
