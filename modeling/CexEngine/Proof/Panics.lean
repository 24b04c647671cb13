import CexEngine.Proof.Settle
import CexEngine.Proof.MatchLoop
import CexEngine.Spec.Checked

/-!
# Operations that fit

Where the values fit, the checked functions are the unchecked ones.

* `Checked.executeTrades_eq`: trades that fit, between accounts of mints whose supply fits.
* `Checked.Rule.Safe`, `Checked.matchAgainst_eq`: a call of the matcher, from what a single
  match needs.
-/

namespace CexEngine

namespace Checked

variable {x : Decimal}

theorem value_of_le (h₀ : 0 ≤ x) (h : x ≤ maxValue) : value x = some x :=
  if_pos (by rwa [abs_of_nonneg h₀])

/-- The difference of two values that fit. -/
theorem value_sub {y : Decimal} (hx₀ : 0 ≤ x) (hx : x ≤ maxValue) (hy₀ : 0 ≤ y) (hy : y ≤ maxValue) :
    value (x - y) = some (x - y) :=
  if_pos (abs_le.2 ⟨by linarith, by linarith⟩)

/-! ## Balances -/

variable {c : BalanceCache} {user user' : UserId} {mint : Mint} {amount : Decimal}

/-- An account has no more than there is. -/
theorem total_le_supply (hc : c.Sound) (u : UserId) (m : Mint) : c.available u m + c.locked u m ≤ c.supply m :=
  Finset.single_le_sum (f := fun u => c.available u m + c.locked u m)
    (fun u _ => add_nonneg (hc u m).1 (hc u m).2) (Finset.mem_univ u)

section Accounts

variable (hc : c.Sound) (hm : c.supply mint ≤ maxValue) (ha : 0 ≤ amount)

include hc hm ha

theorem lockBalance_eq : lockBalance c user mint amount = some (c.lockBalance user mint amount) := by
  have htotal := total_le_supply hc user mint
  obtain ⟨h₁, h₂⟩ := hc user mint
  unfold lockBalance BalanceCache.lockBalance
  dsimp only
  simp only [BalanceCache.available, BalanceCache.locked, ExactSums.add_eq, ExactSums.sub_eq] at htotal h₁ h₂ ⊢
  split_ifs with h
  · rfl
  · rw [value_of_le (by linarith) (by linarith), value_of_le (by linarith) (by linarith)]
    rfl

theorem unlockBalance_eq : unlockBalance c user mint amount = some (c.unlockBalance user mint amount) := by
  have htotal := total_le_supply hc user mint
  obtain ⟨h₁, h₂⟩ := hc user mint
  unfold unlockBalance BalanceCache.unlockBalance
  dsimp only
  simp only [BalanceCache.available, BalanceCache.locked, ExactSums.add_eq, ExactSums.sub_eq] at htotal h₁ h₂ ⊢
  split_ifs with h
  · rfl
  · rw [value_of_le (by linarith) (by linarith), value_of_le (by linarith) (by linarith)]
    rfl

theorem transfer_eq : transfer c user user' mint amount = some (c.transfer user user' mint amount true) := by
  have htotal := total_le_supply hc user mint
  obtain ⟨h₁, h₂⟩ := hc user mint
  -- what the other account has in the end is part of a supply that the transfer keeps
  have hholds := BalanceCache.holds_transfer c user user' mint ha
  have hfinal := total_le_supply (hholds.sound hc) user' mint
  have hlocked := (hholds.sound hc user' mint).2
  have havailable := (hc user' mint).1
  rw [hholds.supply] at hfinal
  rcases BalanceCache.transfer_cases c user user' mint amount with ⟨hlt, -, -⟩ | ⟨hle, -, hmoves⟩
  · unfold transfer BalanceCache.transfer
    rw [BalanceCache.locked] at hlt
    dsimp only
    rw [if_pos hlt, if_pos rfl, if_pos hlt]
  · rw [hmoves.available, posting_self] at hfinal
    rw [BalanceCache.locked] at hle
    simp only [BalanceCache.available, BalanceCache.locked] at htotal h₁ h₂ hfinal hlocked havailable
    unfold transfer BalanceCache.transfer
    simp only [ExactSums.add_eq, ExactSums.sub_eq, if_true]
    rw [if_neg (not_lt.2 hle), if_neg (not_lt.2 hle), value_of_le (by linarith) (by linarith)]
    have hentry : ((c.put user mint ⟨(c.entry user mint).available, (c.entry user mint).locked - amount⟩).entry user'
        mint).available = (c.entry user' mint).available := by
      rw [BalanceCache.entry_put]
      split_ifs with h
      · rw [h.1]
      · rfl
    simp only [Option.bind_eq_bind, Option.bind_some, hentry]
    rw [value_of_le (by linarith) (by linarith)]
    rfl

theorem lockBalanceForOrder_eq :
    lockBalanceForOrder c user mint amount = some (c.lockBalanceForOrder user mint amount) := by
  unfold lockBalanceForOrder BalanceCache.lockBalanceForOrder
  rw [lockBalance_eq hc hm ha]
  dsimp only [Option.bind_eq_bind, Option.bind_some]
  cases (c.lockBalance user mint amount).2 <;> rfl

omit ha in
/-- Only what is positive is released. -/
theorem release_eq : release c user mint amount = some (c.release user mint amount) := by
  unfold release BalanceCache.release
  split_ifs with h
  · unfold unlockBalanceForCancel BalanceCache.unlockBalanceForCancel
    rw [unlockBalance_eq hc hm h.le]
    dsimp only [Option.bind_eq_bind, Option.bind_some]
    cases (c.unlockBalance user mint amount).2 <;> rfl
  · rfl

end Accounts

section Trades

/-- A trade whose value fits, in mints whose supply fits. -/
structure TradeFits (c : BalanceCache) (t : MatchResult) : Prop where
  price_nonneg : 0 ≤ t.price
  amount_nonneg : 0 ≤ t.amount
  value_le : t.price * t.amount ≤ maxValue
  quote_le : c.supply t.quoteMint ≤ maxValue
  base_le : c.supply t.baseMint ≤ maxValue

theorem TradeFits.holds {c' : BalanceCache} {t : MatchResult} (h : TradeFits c t) (hh : BalanceCache.Holds c c') :
    TradeFits c' t :=
  ⟨h.price_nonneg, h.amount_nonneg, h.value_le, by rw [hh.supply]; exact h.quote_le,
    by rw [hh.supply]; exact h.base_le⟩

theorem executeTrade_eq {t : MatchResult} (hc : c.Sound) (h : TradeFits c t) (skip : Bool) :
    executeTrade c t skip = some (c.executeTrade t skip) := by
  have hvalue : 0 ≤ t.totalValue := mul_nonneg h.price_nonneg h.amount_nonneg
  have hholds := BalanceCache.holds_transfer c t.buyerId t.sellerId t.quoteMint hvalue
  have hsecond : transfer _ t.sellerId t.buyerId t.baseMint t.amount = some _ :=
    transfer_eq (hholds.sound hc) (h.holds hholds).base_le h.amount_nonneg
  unfold executeTrade BalanceCache.executeTrade
  rw [show value (Arithmetic.mul t.price t.amount) = some t.totalValue from value_of_le hvalue h.value_le]
  dsimp only [Option.bind_eq_bind, Option.bind_some]
  rw [transfer_eq hc h.quote_le hvalue]
  dsimp only [Option.bind_some]
  cases (c.transfer t.buyerId t.sellerId t.quoteMint t.totalValue true).2 with
  | error e => rfl
  | ok _ =>
    dsimp only
    rw [hsecond]
    dsimp only [Option.bind_some]
    cases ((c.transfer t.buyerId t.sellerId t.quoteMint t.totalValue true).1.transfer t.sellerId t.buyerId
      t.baseMint t.amount true).2 <;> rfl

/-- **Trades that fit** do not panic. -/
theorem executeTrades_eq (skip : Bool) : ∀ (ts : List MatchResult) (c : BalanceCache), c.Sound →
    (∀ t ∈ ts, TradeFits c t) → executeTrades skip c ts = some (c.executeTrades skip ts) := by
  intro ts
  induction ts with
  | nil => intro c _ _; rfl
  | cons t ts ih =>
    intro c hc h
    obtain ⟨ht, hts⟩ := List.forall_mem_cons.1 h
    have hholds := BalanceCache.holds_executeTrade c skip ht.price_nonneg ht.amount_nonneg
    rw [executeTrades, executeTrade_eq hc ht]
    dsimp only [Option.bind_eq_bind, Option.bind_some]
    rw [ih _ (hholds.sound hc) fun t' ht' => (hts t' ht').holds hholds]
    rfl

end Trades

/-! ## Matching -/

/-- Where `I` holds, the operations on an incoming and a resting order do not panic. -/
structure Rule.Safe (C : Rule)
    (I : OrderEntry → Multiset (Decimal × OrderEntry) → List MatchResult → List OrderEntry → Prop) : Prop where
  accepts : ∀ {incoming stock results dropped}, I incoming stock results dropped → ∀ price,
    C.accepts incoming price = some (C.rule.accepts incoming price)
  /-- An order is about to be met. -/
  matchAmount : ∀ {incoming price resting others results dropped},
    I incoming ((price, resting) ::ₘ others) results dropped →
    C.rule.isFullyFilled incoming = false → C.rule.accepts incoming price = true →
    incoming.userId ≠ resting.userId →
    C.matchAmount incoming resting price = some (C.rule.matchAmount incoming resting price)
  /-- It is filled. -/
  fill : ∀ {incoming price resting others results dropped amount},
    I incoming ((price, resting) ::ₘ others) results dropped →
    C.rule.isFullyFilled incoming = false → C.rule.accepts incoming price = true →
    incoming.userId ≠ resting.userId → amount = C.rule.matchAmount incoming resting price →
    C.rule.breaksAt amount = false →
    C.take incoming amount price = some (C.rule.take incoming amount price) ∧
      Checked.fill resting amount = some (resting.fill amount)

section Matching

variable {C : Rule} {I : OrderEntry → Multiset (Decimal × OrderEntry) → List MatchResult → List OrderEntry → Prop}
  {price : Decimal} {others : Multiset (Decimal × OrderEntry)} {results : List MatchResult} {dropped : List OrderEntry}

theorem scanBody_eq (hC : C.Safe I) {s : Scan} (n : ℕ)
    (hs : I s.incoming (atPrice price s.queue + others) (results ++ s.results) (dropped ++ s.dropped))
    (hf : C.rule.isFullyFilled s.incoming = false) (ha : C.rule.accepts s.incoming price = true) :
    scanBody C price n s = some (CexEngine.scanBody C.rule price n s) := by
  unfold scanBody CexEngine.scanBody
  cases hq : s.queue with
  | nil => rfl
  | cons resting rest =>
    rw [hq, atPrice_cons, Multiset.cons_add] at hs
    dsimp only
    split_ifs with hn hu hb hfull
    · rfl
    · rfl
    · rw [hC.matchAmount hs hf ha hu]
      simp [hb]
    all_goals
      have hb' : C.rule.breaksAt (C.rule.matchAmount s.incoming resting price) = false := by simpa using hb
      obtain ⟨htake, hfill⟩ := hC.fill hs hf ha hu rfl hb'
      rw [hC.matchAmount hs hf ha hu]
      simp only [Scan.fill] at hfull
      simp [hb', htake, hfill, hfull, Scan.fill]

theorem scanLevel_eq (hI : C.rule.Keeps I) (hC : C.Safe I) {queue : List OrderEntry} {incoming : OrderEntry}
    (h : I incoming (atPrice price queue + others) results dropped)
    (hf : C.rule.isFullyFilled incoming = false) (ha : C.rule.accepts incoming price = true) :
    scanLevel C price queue incoming = some (CexEngine.scanLevel C.rule price queue incoming) :=
  Pass.tryRun_eq
    (I := fun s => I s.incoming (atPrice price s.queue + others) (results ++ s.results) (dropped ++ s.dropped) ∧
      C.rule.isFullyFilled s.incoming = false ∧ C.rule.accepts s.incoming price = true)
    (fun _ hs => scanBody_eq hC _ hs.1 hs.2.1 hs.2.2)
    (fun _ _ hs hst => hI.scan_next hs.1 hs.2.1 hs.2.2 hst) _ _ ⟨by simpa using h, hf, ha⟩

theorem matchBody_eq (hI : C.rule.Keeps I) (hC : C.Safe I) {s : MatchState}
    (hs : I s.incoming s.side.stock s.results s.dropped) :
    matchBody C s = some (CexEngine.matchBody C.rule s) := by
  unfold matchBody CexEngine.matchBody
  split_ifs with hf
  · rfl
  cases hp : s.side.getBestPrice C.rule.scansBuys with
  | none => rfl
  | some price =>
    dsimp only
    rw [hC.accepts hs]
    dsimp only [Option.bind_eq_bind, Option.bind_some]
    split_ifs with ha
    · cases hq : s.side.getOrdersAtPrice price with
      | none => rfl
      | some queue =>
        obtain ⟨others, hstock, -⟩ := OrderBookSide.stock_setQueue hq
        rw [hstock] at hs
        dsimp only
        rw [scanLevel_eq hI hC hs (by simpa using hf) ha]
        rfl
    · rfl

/-- **A call of the matcher does not panic** if no match does. -/
theorem matchAgainst_eq (hI : C.rule.Keeps I) (hC : C.Safe I) {incoming : OrderEntry} {side : OrderBookSide}
    (h : I incoming side.stock [] []) :
    matchAgainst C incoming side = some (CexEngine.matchAgainst C.rule incoming side) := by
  unfold matchAgainst CexEngine.matchAgainst
  cases side.getBestPrice C.rule.scansBuys with
  | none => rfl
  | some best =>
    dsimp only
    rw [hC.accepts h]
    dsimp only [Option.bind_eq_bind, Option.bind_some]
    split_ifs
    · exact Pass.tryRun_eq (I := fun s => I s.incoming s.side.stock s.results s.dropped)
        (fun _ hs => matchBody_eq hI hC hs) (fun _ _ hs hst => hI.match_next hs hst) _ _ h
    · rfl

end Matching

/-! ## Totals -/

section Totals

theorem foldlM_total {f : MatchResult → Option Decimal} {g : MatchResult → Decimal} : ∀ (ms : List MatchResult)
    (total : Decimal), (∀ m ∈ ms, f m = some (g m) ∧ 0 ≤ g m) → 0 ≤ total → total + (ms.map g).sum ≤ maxValue →
      ms.foldlM (fun total m => do value (Arithmetic.add total (← f m))) total = some (total + (ms.map g).sum) := by
  intro ms
  induction ms with
  | nil => intro total _ _ _; simp
  | cons m ms ih =>
    intro total hf h₀ hle
    obtain ⟨⟨hm, hpos⟩, hms⟩ := List.forall_mem_cons.1 hf
    rw [List.map_cons, List.sum_cons, ← add_assoc] at hle ⊢
    have hrest : 0 ≤ (ms.map g).sum := by
      refine List.sum_nonneg (List.forall_mem_map.2 fun m' hm' => ?_)
      exact (hms m' hm').2
    rw [List.foldlM_cons, hm]
    dsimp only [Option.bind_eq_bind, Option.bind_some]
    rw [ExactSums.add_eq, value_of_le (add_nonneg h₀ hpos) (by linarith)]
    exact ih _ hms (add_nonneg h₀ hpos) hle

variable {ms : List MatchResult} (hms : BalanceCache.Positive ms)

include hms

theorem value_le_quoteUsed : ∀ m ∈ ms, m.price * m.amount ≤ CexEngine.quoteUsed ms := by
  intro m hm
  rw [quoteUsed_eq_sum]
  refine List.single_le_sum (fun x hx => ?_) _ (List.mem_map_of_mem hm)
  obtain ⟨m', hm', rfl⟩ := List.mem_map.1 hx
  exact mul_nonneg (hms m' hm').1 (hms m' hm').2

theorem quoteUsed_eq (hle : CexEngine.quoteUsed ms ≤ maxValue) : quoteUsed ms = some (CexEngine.quoteUsed ms) := by
  rw [quoteUsed_eq_sum] at hle ⊢
  have h := foldlM_total (f := fun m => value (Arithmetic.mul m.price m.amount)) (g := fun m => m.price * m.amount) ms 0
    (fun m hm => ?_) le_rfl (by rw [zero_add]; exact hle)
  · rw [zero_add] at h
    exact h
  · have h₀ := mul_nonneg (hms m hm).1 (hms m hm).2
    exact ⟨value_of_le h₀ ((value_le_quoteUsed hms m hm).trans (by rwa [quoteUsed_eq_sum])), h₀⟩

theorem amountUsed_eq (hle : CexEngine.amountUsed ms ≤ maxValue) :
    amountUsed ms = some (CexEngine.amountUsed ms) := by
  rw [amountUsed_eq_sum] at hle ⊢
  have h := foldlM_total (f := fun m => some m.amount) (g := fun m => m.amount) ms 0
    (fun m hm => ⟨rfl, (hms m hm).2⟩) le_rfl (by rw [zero_add]; exact hle)
  rw [zero_add] at h
  exact h

end Totals

/-! ## Balance changes -/

section Changes

/-- What changes add to the `available` of an account. -/
def addedSum (xs : List BalanceChange) (u : UserId) (m : Mint) : Decimal :=
  (xs.map fun x => posting x.user x.mint x.availableDelta u m).sum

/-- What they take from its `locked`. -/
def takenSum (xs : List BalanceChange) (u : UserId) (m : Mint) : Decimal :=
  (xs.map fun x => posting x.user x.mint (-x.lockedDelta) u m).sum

theorem addedSum_append (xs ys : List BalanceChange) (u : UserId) (m : Mint) :
    addedSum (xs ++ ys) u m = addedSum xs u m + addedSum ys u m := by
  simp [addedSum]

theorem takenSum_append (xs ys : List BalanceChange) (u : UserId) (m : Mint) :
    takenSum (xs ++ ys) u m = takenSum xs u m + takenSum ys u m := by
  simp [takenSum]

/-- The entry of an account. -/
def BalanceChanges.entry (changes : BalanceChanges) (u : UserId) (m : Mint) : Decimal × Decimal :=
  (changes.lookup (u, m)).getD (0, 0)

theorem BalanceChanges.entry_insert (changes : BalanceChanges) (user : UserId) (mint : Mint) (e : Decimal × Decimal)
    (u : UserId) (m : Mint) : BalanceChanges.entry (changes.insert (user, mint) e) u m =
      if u = user ∧ m = mint then e else changes.entry u m := by
  unfold BalanceChanges.entry
  by_cases h : u = user ∧ m = mint
  · obtain ⟨rfl, rfl⟩ := h
    simp
  · rw [if_neg h, AList.lookup_insert_ne (by simpa [Prod.ext_iff] using h)]

/-- What is added to `available` is not negative and what is added to `locked` not positive. -/
def OneWay (xs : List BalanceChange) : Prop := ∀ x ∈ xs, 0 ≤ x.availableDelta ∧ x.lockedDelta ≤ 0

theorem OneWay.sums {xs : List BalanceChange} (h : OneWay xs) (u : UserId) (m : Mint) :
    0 ≤ addedSum xs u m ∧ 0 ≤ takenSum xs u m := by
  constructor
  · refine List.sum_nonneg (List.forall_mem_map.2 fun x hx => ?_)
    exact posting_nonneg (h x hx).1
  · refine List.sum_nonneg (List.forall_mem_map.2 fun x hx => ?_)
    exact posting_nonneg (neg_nonneg.2 (h x hx).2)

/-- An account's entry fits with what is still added and taken. -/
structure EntryFits (e : Decimal × Decimal) (added taken : Decimal) : Prop where
  available_nonneg : 0 ≤ e.1
  available_le : e.1 + added ≤ maxValue
  locked_nonpos : e.2 ≤ 0
  locked_le : -e.2 + taken ≤ maxValue

/-- **Changes that fit in all** do not panic one after another. -/
theorem addChanges_some : ∀ (xs : List BalanceChange) (changes : BalanceChanges), OneWay xs →
    (∀ u m, EntryFits (changes.entry u m) (addedSum xs u m) (takenSum xs u m)) →
    ∃ r, xs.foldlM addChange changes = some r := by
  intro xs
  induction xs with
  | nil => intro changes _ _; exact ⟨changes, rfl⟩
  | cons x xs ih =>
    intro changes hone h
    obtain ⟨⟨hx₁, hx₂⟩, hxs⟩ := List.forall_mem_cons.1 hone
    have hx := h x.user x.mint
    obtain ⟨hs₁, hs₂⟩ := OneWay.sums hxs x.user x.mint
    simp only [addedSum, takenSum, List.map_cons, List.sum_cons] at h hx
    change EntryFits _ (_ + addedSum xs _ _) (_ + takenSum xs _ _) at hx
    change ∀ u m, EntryFits _ (_ + addedSum xs u m) (_ + takenSum xs u m) at h
    rw [posting_self, posting_self] at hx
    obtain ⟨h₁, h₂, h₃, h₄⟩ := hx
    -- the entry of `x` has room for all of its changes, so for this one
    have hadd : addChange changes x = some (changes.insert (x.user, x.mint)
        ((changes.entry x.user x.mint).1 + x.availableDelta, (changes.entry x.user x.mint).2 + x.lockedDelta)) := by
      unfold addChange
      change (value ((changes.entry x.user x.mint).1 + x.availableDelta) >>= fun available =>
        value ((changes.entry x.user x.mint).2 + x.lockedDelta) >>= fun locked => _) = _
      rw [value_of_le (by linarith) (by linarith), value, if_pos (abs_le.2 ⟨by linarith, by linarith⟩)]
      rfl
    rw [List.foldlM_cons, hadd]
    refine ih _ hxs fun u m => ?_
    rw [BalanceChanges.entry_insert]
    split_ifs with hu
    · obtain ⟨rfl, rfl⟩ := hu
      exact ⟨by dsimp only; linarith, by dsimp only; linarith, by dsimp only; linarith, by dsimp only; linarith⟩
    · have hum := h u m
      rwa [posting, posting, if_neg hu, if_neg hu, zero_add, zero_add] at hum

variable {done : List MatchResult} {user : UserId} {leftover : Mint × Decimal}

/-- The changes of matches, one after another. -/
theorem matchChanges_fold : ∀ (ts : List MatchResult) (changes : BalanceChanges),
    (∀ t ∈ ts, 0 ≤ t.price * t.amount ∧ t.price * t.amount ≤ maxValue) →
    ts.foldlM (fun changes m => do
        let totalValue ← value (Arithmetic.mul m.price m.amount)
        (matchChanges m totalValue).foldlM addChange changes) changes =
      (ts.flatMap fun t => matchChanges t (t.price * t.amount)).foldlM addChange changes := by
  intro ts
  induction ts with
  | nil => intro _ _; rfl
  | cons t ts ih =>
    intro changes h
    obtain ⟨⟨h₀, hle⟩, hts⟩ := List.forall_mem_cons.1 h
    rw [List.foldlM_cons, List.flatMap_cons, List.foldlM_append, exact_mul, value_of_le h₀ hle]
    exact congrArg _ (funext fun changes => ih changes hts)

theorem matchChanges_sums (ts : List MatchResult) (u : UserId) (m : Mint) :
    addedSum (ts.flatMap fun t => matchChanges t (t.price * t.amount)) u m = BalanceCache.credits ts u m ∧
      takenSum (ts.flatMap fun t => matchChanges t (t.price * t.amount)) u m = BalanceCache.debits ts u m := by
  induction ts with
  | nil => simp [addedSum, takenSum]
  | cons t ts ih =>
    obtain ⟨ih₁, ih₂⟩ := ih
    unfold addedSum takenSum at *
    rw [List.flatMap_cons, List.map_append, List.map_append, List.sum_append, List.sum_append, ih₁, ih₂,
      BalanceCache.credits_cons, BalanceCache.debits_cons]
    constructor
    · simp only [matchChanges, List.map_cons, List.map_nil, List.sum_cons, List.sum_nil, MatchResult.credit, posting,
        MatchResult.totalValue, exact_mul]
      split_ifs <;> ring
    · simp only [matchChanges, List.map_cons, List.map_nil, List.sum_cons, List.sum_nil, MatchResult.debit,
        MatchResult.buyerDebit, MatchResult.sellerDebit, posting, MatchResult.totalValue, exact_mul]
      split_ifs <;> ring

/-- The change of a leftover, if there is one. -/
def leftoverChanges (user : UserId) (leftover : Mint × Decimal) : List BalanceChange :=
  if leftover.2 > 0 then [⟨user, leftover.1, leftover.2, -leftover.2⟩] else []

theorem leftoverChanges_sums (user : UserId) (leftover : Mint × Decimal) (u : UserId) (m : Mint) :
    addedSum (leftoverChanges user leftover) u m = posting user leftover.1 (max leftover.2 0) u m ∧
      takenSum (leftoverChanges user leftover) u m = posting user leftover.1 (max leftover.2 0) u m := by
  unfold leftoverChanges
  split_ifs with hl
  · simp [addedSum, takenSum, max_eq_left hl.le]
  · simp [addedSum, takenSum, max_eq_right (not_lt.1 hl), posting]

/-- **The changes of a market order do not panic** if they fit in all. -/
theorem balanceChanges_some (hts : ∀ t ∈ done, 0 ≤ t.price ∧ 0 ≤ t.amount ∧ t.price * t.amount ≤ maxValue)
    (hcredits : ∀ u m, BalanceCache.credits done u m + posting user leftover.1 (max leftover.2 0) u m ≤ maxValue)
    (hdebits : ∀ u m, BalanceCache.debits done u m + posting user leftover.1 (max leftover.2 0) u m ≤ maxValue) :
    ∃ r, balanceChanges done user leftover = some r := by
  -- the changes of the matches and the leftover as one list
  have hfold : balanceChanges done user leftover =
      ((done.flatMap fun t => matchChanges t (t.price * t.amount)) ++ leftoverChanges user leftover).foldlM
        addChange ∅ := by
    unfold balanceChanges leftoverChanges
    rw [matchChanges_fold done ∅ fun t ht => ⟨mul_nonneg (hts t ht).1 (hts t ht).2.1, (hts t ht).2.2⟩,
      List.foldlM_append]
    refine congrArg _ (funext fun changes => ?_)
    split_ifs
    · simp [List.foldlM_cons]
    · rfl
  rw [hfold]
  refine addChanges_some _ ∅ (fun x hx => ?_) fun u m => ?_
  · rcases List.mem_append.1 hx with hx | hx
    · obtain ⟨t, ht, hx⟩ := List.mem_flatMap.1 hx
      obtain ⟨h₁, h₂, -⟩ := hts t ht
      have hvalue := mul_nonneg h₁ h₂
      simp only [matchChanges, List.mem_cons, List.not_mem_nil, or_false] at hx
      rcases hx with rfl | rfl | rfl | rfl
      · exact ⟨le_rfl, neg_nonpos.2 hvalue⟩
      · exact ⟨hvalue, le_rfl⟩
      · exact ⟨le_rfl, neg_nonpos.2 h₂⟩
      · exact ⟨h₂, le_rfl⟩
    · unfold leftoverChanges at hx
      split_ifs at hx with hl
      · rw [List.mem_singleton.1 hx]
        exact ⟨hl.le, neg_nonpos.2 hl.le⟩
      · simp at hx
  · obtain ⟨h₁, h₂⟩ := matchChanges_sums done u m
    obtain ⟨h₃, h₄⟩ := leftoverChanges_sums user leftover u m
    have hentry : BalanceChanges.entry ∅ u m = (0, 0) := rfl
    rw [addedSum_append, takenSum_append, h₁, h₂, h₃, h₄, hentry]
    exact ⟨le_rfl, by rw [zero_add]; exact hcredits u m, le_rfl, by rw [neg_zero, zero_add]; exact hdebits u m⟩

end Changes

end Checked

end CexEngine
