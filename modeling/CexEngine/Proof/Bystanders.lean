import CexEngine.Proof.Conservation

/-!
# Bystanders

What a submitted order does to the balances of the other users.

* `BalanceCache.Spares`: a user has no less available than before, and the same of everything
  in the mints that are not touched.
* `executeTrades_spares`: trades spare every user, and touch only the accounts they are about.
* `submit_spares`: **an order cannot touch another user's free funds.**
-/

namespace CexEngine

namespace BalanceCache

variable {c c' c'' : BalanceCache} {u : UserId} {touched : Mint → Prop}

/-- `u` has no less available, and the same in every mint that is not touched. -/
structure Spares (c c' : BalanceCache) (u : UserId) (touched : Mint → Prop) : Prop where
  free : ∀ m, c.available u m ≤ c'.available u m
  rest : ∀ m, ¬ touched m → c'.entry u m = c.entry u m

theorem Spares.refl (c : BalanceCache) (u : UserId) (touched : Mint → Prop) : Spares c c u touched :=
  ⟨fun _ => le_rfl, fun _ _ => rfl⟩

theorem Spares.trans (h : Spares c c' u touched) (h' : Spares c' c'' u touched) : Spares c c'' u touched :=
  ⟨fun m => (h.free m).trans (h'.free m), fun m hm => (h'.rest m hm).trans (h.rest m hm)⟩

theorem SameBalances.spares (h : SameBalances c c') (u : UserId) (touched : Mint → Prop) : Spares c c' u touched :=
  ⟨fun m => (h.available u m).ge, fun m _ => h u m⟩

theorem Moves.spares {da dl : UserId → Mint → Decimal} (h : Moves c c' da dl) (hfree : ∀ m, 0 ≤ da u m)
    (hrest : ∀ m, ¬ touched m → da u m = 0 ∧ dl u m = 0) : Spares c c' u touched where
  free m := by
    rw [h.available]
    exact le_add_of_nonneg_right (hfree m)
  rest m hm := by
    obtain ⟨ha, hl⟩ := hrest m hm
    exact entry_ext (by rw [h.available, ha, add_zero]) (by rw [h.locked, hl, add_zero])

/-- A posting to somebody else. -/
theorem Moves.spares_of_ne {user : UserId} {mint : Mint} {a l : Decimal}
    (h : Moves c c' (posting user mint a) (posting user mint l)) (hu : u ≠ user) (touched : Mint → Prop) :
    Spares c c' u touched :=
  h.spares (fun _ => (posting_of_ne hu).ge) fun _ _ => ⟨posting_of_ne hu, posting_of_ne hu⟩

end BalanceCache

/-- The accounts that a trade is about. -/
def MatchResult.Concerns (t : MatchResult) (u : UserId) (m : Mint) : Prop :=
  (u = t.buyerId ∨ u = t.sellerId) ∧ (m = t.baseMint ∨ m = t.quoteMint)

theorem MatchResult.posting_eq_zero {t : MatchResult} {u : UserId} {m : Mint} (h : ¬ t.Concerns u m) (user : UserId)
    (mint : Mint) (x : Decimal) (huser : user = t.buyerId ∨ user = t.sellerId)
    (hmint : mint = t.baseMint ∨ mint = t.quoteMint) : posting user mint x u m = 0 := by
  refine if_neg fun he => h ?_
  rw [he.1, he.2]
  exact ⟨huser, hmint⟩

namespace BalanceCache

variable {c : BalanceCache} {u : UserId} {touched : Mint → Prop}

/-- **A trade spares every user**, also when it is left half done. -/
theorem executeTrade_spares (c : BalanceCache) {t : MatchResult} (skip : Bool) (hp : 0 ≤ t.price) (ha : 0 ≤ t.amount)
    (ht : ∀ m, ¬ touched m → ¬ t.Concerns u m) : Spares c (c.executeTrade t skip).1 u touched := by
  have hvalue : 0 ≤ t.totalValue := mul_nonneg hp ha
  rcases executeTrade_cases c t skip with ⟨-, -, hsame⟩ | ⟨-, -, -, hmoves⟩ | ⟨-, -, -, hmoves⟩
  · exact hsame.spares u touched
  · refine hmoves.spares (fun m => posting_nonneg hvalue) fun m hm => ?_
    have hz := MatchResult.posting_eq_zero (ht m hm)
    exact ⟨hz _ _ _ (Or.inr rfl) (Or.inr rfl), hz _ _ _ (Or.inl rfl) (Or.inr rfl)⟩
  · refine hmoves.spares (fun m => add_nonneg (posting_nonneg hvalue) (posting_nonneg ha)) fun m hm => ?_
    have hz := MatchResult.posting_eq_zero (ht m hm)
    have hpaid := hz t.sellerId t.quoteMint t.totalValue (Or.inr rfl) (Or.inr rfl)
    have hgot := hz t.buyerId t.baseMint t.amount (Or.inl rfl) (Or.inl rfl)
    have hcost := hz t.buyerId t.quoteMint t.totalValue (Or.inl rfl) (Or.inr rfl)
    have hsold := hz t.sellerId t.baseMint t.amount (Or.inr rfl) (Or.inl rfl)
    refine ⟨by rw [MatchResult.credit, hpaid, hgot, add_zero], ?_⟩
    rw [MatchResult.debit, MatchResult.buyerDebit, MatchResult.sellerDebit, hcost, hsold, add_zero, neg_zero]

theorem executeTrades_spares (skip : Bool) : ∀ (ts : List MatchResult) (c : BalanceCache), Positive ts →
    (∀ t ∈ ts, ∀ m, ¬ touched m → ¬ t.Concerns u m) → Spares c (c.executeTrades skip ts).1 u touched := by
  intro ts
  induction ts with
  | nil => intro c _ _; exact Spares.refl c u touched
  | cons t ts ih =>
    intro c hpos hts
    obtain ⟨hp, ha⟩ := hpos t List.mem_cons_self
    refine (executeTrade_spares c skip hp ha (hts t List.mem_cons_self)).trans (ih _ hpos.tail fun t' ht' => ?_)
    exact hts t' (List.mem_cons_of_mem _ ht')

theorem release_spares (c : BalanceCache) {user : UserId} (mint : Mint) (amount : Decimal) (hu : u ≠ user)
    (touched : Mint → Prop) : Spares c (c.release user mint amount).1 u touched := by
  unfold release
  split_ifs
  · dsimp only
    rw [(unlockBalanceForCancel_eq c user mint amount).1]
    rcases unlockBalance_cases c user mint amount with ⟨-, -, hsame⟩ | ⟨-, -, hmoves⟩
    · exact hsame.spares u touched
    · exact hmoves.spares_of_ne hu touched
  · exact Spares.refl c u touched

end BalanceCache

/-! ## A submitted order -/

variable {dv : Decimal → Decimal → Decimal} {s : Engine} {order : OrderEntry} {u : UserId}

/-- The lock, the trades and the release, for a user who is not the order's. -/
theorem submit_spares_of {touched : Mint → Prop} (hk : order.Kind) (h : s.OrdersNonneg) (hu : u ≠ order.userId)
    (hmatches : ∀ t ∈ (order.matching dv (s.orderbook order.pair)).results, ∀ m, ¬ touched m → ¬ t.Concerns u m) :
    BalanceCache.Spares s.balanceCache (processSubmitOrder dv s order).engine.balanceCache u touched := by
  rcases processSubmitOrder_cases dv s hk with hr | ⟨cache, book, settled, counted, released, hg⟩
  · exact hr.balances.spares u touched
  have htrades := BalanceCache.executeTrades_spares (decide (order.orderSide = .market)) _ cache
    (matching_positive dv hk h) hmatches
  rw [← hg.trades] at htrades
  refine (hg.locked.spares_of_ne hu touched).trans (htrades.trans ?_)
  rw [hg.engine, hg.release]
  split_ifs
  · exact BalanceCache.release_spares _ _ _ hu touched
  · exact BalanceCache.Spares.refl _ u touched

/-- A user with no resting order on the side that is scanned is in no match. -/
theorem matching_no_maker (dv : Decimal → Decimal → Decimal) (hk : order.Kind) (book : OrderBook)
    (hu : u ≠ order.userId) (hmakers : ∀ x ∈ (book.side (!order.isBuy)).stock, x.2.userId ≠ u) :
    ∀ t ∈ (order.matching dv book).results, t.buyerId ≠ u ∧ t.sellerId ≠ u := by
  have hscans : (order.rule dv).scansBuys = !order.isBuy := rule_scansBuys
  rw [← hscans] at hmakers
  have hfacts := matching_facts dv hk book (P := fun _ o => o.userId ≠ u) (fun _ _ _ h _ _ => h) hmakers
  intro t ht
  obtain ⟨incoming, price, resting, amount, hf, rfl⟩ := hfacts.results t ht
  rcases hk.isBuy_or with hb | hb
  · rw [(fill_report hf.live).1 hb]
    exact ⟨hu.symm, hf.rests⟩
  · rw [(fill_report hf.live).2 hb]
    exact ⟨hf.rests, hu.symm⟩

/-- Trading from empty books leaves no order with a negative price or quantity. -/
theorem ordersNonneg_run (dv : Decimal → Decimal → Decimal) (cache : BalanceCache) {cs : List Command}
    (hcs : ∀ c ∈ cs, c.Trades) : ((Engine.start cache).run dv cs).OrdersNonneg :=
  run_inv dv (I := fun s => s.OrdersNonneg) (fun _ _ h hc => (step_conserves dv hc h).1) cs (Engine.start cache)
    (Engine.allOrders_start _ _) hcs

/-- **An order cannot touch another user's free funds**: whatever the answer, no other user has
less available; nothing of theirs changes in a mint that is not of the pair; and nothing at
all of a user who has no order on the side that the order meets. -/
theorem submit_spares (dv : Decimal → Decimal → Decimal) (s : Engine) (order : OrderEntry) (hbooks : s.OrdersNonneg)
    (hv : order.Validated) (u : UserId) (hu : u ≠ order.userId) :
    (∀ m, s.balanceCache.available u m ≤ (processSubmitOrder dv s order).engine.balanceCache.available u m) ∧
      (∀ m, m ≠ order.baseMint → m ≠ order.quoteMint →
        (processSubmitOrder dv s order).engine.balanceCache.entry u m = s.balanceCache.entry u m) ∧
      ((∀ x ∈ ((s.orderbook order.pair).side (!order.isBuy)).stock, x.2.userId ≠ u) →
        ∀ m, (processSubmitOrder dv s order).engine.balanceCache.entry u m = s.balanceCache.entry u m) := by
  have hk := validated_kind hv
  have hpair : BalanceCache.Spares s.balanceCache (processSubmitOrder dv s order).engine.balanceCache u
      fun m => m = order.baseMint ∨ m = order.quoteMint := by
    refine submit_spares_of hk hbooks hu fun t ht m hm hc => hm ?_
    obtain ⟨hb, hq, -⟩ := matching_parties dv hk (s.orderbook order.pair) t ht
    rw [← hb, ← hq]
    exact hc.2
  refine ⟨hpair.free, fun m hb hq => hpair.rest m (not_or.2 ⟨hb, hq⟩), fun hmakers m => ?_⟩
  have hall : BalanceCache.Spares s.balanceCache (processSubmitOrder dv s order).engine.balanceCache u
      fun _ => False := by
    refine submit_spares_of hk hbooks hu fun t ht m _ hc => ?_
    obtain ⟨hbuyer, hseller⟩ := matching_no_maker dv hk (s.orderbook order.pair) hu hmakers t ht
    exact hc.1.elim (fun he => hbuyer he.symm) fun he => hseller he.symm
  exact hall.rest m id

/-- A sale to user 2, who bids more than user 3. -/
theorem submit_spares_bid :
    let s := (Engine.start (((BalanceCache.new.setBalance 1 "SOL" 5 0).setBalance 2 "USDT" 60 0).setBalance 3 "USDT"
      40 0)).run (· / ·) [.submitOrder (limitOrder 1 2 .buy 11 5), .submitOrder (limitOrder 2 3 .buy 10 3)]
    ∀ m, s.balanceCache.available 3 m ≤
      (processSubmitOrder (· / ·) s (limitOrder 3 1 .sell 10 5)).engine.balanceCache.available 3 m := by
  intro s
  have hbooks : s.OrdersNonneg := by
    refine ordersNonneg_run (· / ·) _ ?_
    simp only [List.forall_mem_cons]
    exact ⟨limitOrder_validated 1 2 (Or.inl rfl) (by norm_num) (by norm_num),
      limitOrder_validated 2 3 (Or.inl rfl) (by norm_num) (by norm_num), by simp⟩
  exact (submit_spares (· / ·) s (limitOrder 3 1 .sell 10 5) hbooks
    (limitOrder_validated 3 1 (Or.inr rfl) (by norm_num) (by norm_num)) 3 (by decide)).1

end CexEngine
