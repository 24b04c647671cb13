import Mathlib.Algebra.BigOperators.Ring.List
import CexEngine.Proof.Remains
import CexEngine.Proof.Decimals
import CexEngine.Proof.Stock
import CexEngine.Proof.BookInvariant
import CexEngine.Proof.Unrounded

/-!
# Fills, reports and transfers

* `OrderEntry.Agrees`: the balances, the book, the answer and the events of a submit tell the
  same trades.
* `OrderEntry.deals`: what an order takes of the quotes it meets. `OrderEntry.Backed`: the
  accounts that these deals debit have what they take.
* `OrderEntry.Unrounded`: no sum is rounded that an order enters into the balances, or that its
  deals enter into what the quotes have filled. `OrderEntry.SpendsExactly`: nor what they take of
  its lock and leave of it.
* `submit_agrees_iff`: **in every state that the handlers reach, such a submit agrees if and only
  if it is backed.**
-/

namespace CexEngine

variable {dv : Decimal → Decimal → Decimal} {s : Engine}

section Rounded

variable [A : Arithmetic]

/-- What an order takes of the quotes that it meets on its tour of the book. -/
def OrderEntry.deals (dv : Decimal → Decimal → Decimal) (s : Engine) (order : OrderEntry) : List MatchResult :=
  (order.tour dv (s.orderbook order.pair)).results

theorem matching_deals (dv : Decimal → Decimal → Decimal) (s : Engine) (order : OrderEntry) :
    (order.matching dv (s.orderbook order.pair)).results = order.deals dv s :=
  (matching_tours dv order (s.orderbook order.pair)).2.2.1

/-! ## What a submit tells -/

/-- What the orders with an id weigh. -/
def weightBy (id : OrderId) (w : OrderEntry → Decimal) (os : List OrderEntry) : Decimal :=
  ((os.filter fun o => o.id = id).map w).sum

/-- What the orders with an id have filled. -/
def filledBy (id : OrderId) (os : List OrderEntry) : Decimal :=
  ((os.filter fun o => o.id = id).map OrderEntry.filledAmount).sum

/-- An answer agrees with the balances, the book, the trades and the events: `found` is what the
matching made of the book, and `outcome` what the submit did. -/
structure OrderEntry.AgreesOn (s : Engine) (order : OrderEntry) (found : MatchOutcome) (outcome : SubmitOutcome)
    (ms : List MatchResult) : Prop where
  /-- An account's total changes by the net of the matches. -/
  balances : ∀ u m, (outcome.engine.balanceCache.available u m + outcome.engine.balanceCache.locked u m) -
    (s.balanceCache.available u m + s.balanceCache.locked u m) = (ms.map fun t => t.net u m).sum
  /-- What resting orders have filled grows by what the matches report for them; the order
  itself may have joined them, and some may have left the book. -/
  fills : ∀ id, filledBy id (outcome.engine.restingOrders ++ found.dropped) =
    filledBy id (s.restingOrders ++ if found.order.rests then [found.order] else []) + order.reportedFor id ms
  /-- The matches are the ones that were executed. -/
  settled : ms = executed outcome.trades
  /-- And the ones that were published. -/
  published : outcome.events.map TradeExecutedEvent.trade = ms

/-- Whatever a submit answers, it agrees. -/
def OrderEntry.Agrees (dv : Decimal → Decimal → Decimal) (s : Engine) (order : OrderEntry) : Prop :=
  ∀ ms, (processSubmitOrder dv s order).answer = .ok ms →
    order.AgreesOn s (matchAndRest dv order (s.orderbook order.pair)) (processSubmitOrder dv s order) ms

/-- If the order's lock is granted, every account that its deals debit has locked what they take,
that lock included. -/
def OrderEntry.Backed (dv : Decimal → Decimal → Decimal) (s : Engine) (order : OrderEntry) : Prop :=
  order.lock.2 ≤ s.balanceCache.available order.userId order.lock.1 →
    ∀ u m, (∃ t ∈ order.deals dv s, t.Debits u m) →
      BalanceCache.debits (order.deals dv s) u m ≤
        s.balanceCache.locked u m + posting order.userId order.lock.1 order.lock.2 u m

/-- The balances after the lock. -/
def OrderEntry.lockedCache (s : Engine) (order : OrderEntry) : BalanceCache :=
  (s.balanceCache.lockBalanceForOrder order.userId order.lock.1 order.lock.2).1

/-- And after the deals. -/
def OrderEntry.dealtCache (dv : Decimal → Decimal → Decimal) (s : Engine) (order : OrderEntry) : BalanceCache :=
  ((order.lockedCache s).executeTrades false (order.deals dv s)).1

/-- No sum is rounded that the order enters into a balance: not by its lock, not by its deals and not
by the release of what they leave of the lock. -/
structure OrderEntry.EntersExactly (dv : Decimal → Decimal → Decimal) (s : Engine) (order : OrderEntry) : Prop where
  lock : MovesExactly (s.balanceCache.available order.userId order.lock.1)
    (s.balanceCache.locked order.userId order.lock.1) order.lock.2
  trades : (order.lockedCache s).TradesExact (order.deals dv s)
  release : order.orderSide = .market ∨ (order.tour dv (s.orderbook order.pair)).incoming.remainingAmount = 0 →
    MovesExactly ((order.dealtCache dv s).locked order.userId order.lock.1)
      ((order.dealtCache dv s).available order.userId order.lock.1)
      (Arithmetic.sub order.lock.2 (order.used (order.deals dv s)))

instance (dv : Decimal → Decimal → Decimal) (s : Engine) (order : OrderEntry) : Decidable (order.EntersExactly dv s) :=
  decidable_of_iff (_ ∧ _ ∧ (_ ∨ _ → _)) ⟨fun ⟨h₁, h₂, h₃⟩ => ⟨h₁, h₂, h₃⟩, fun ⟨h₁, h₂, h₃⟩ => ⟨h₁, h₂, h₃⟩⟩

/-- Nor one that its deals enter into what the quotes have filled. -/
structure OrderEntry.Unrounded (dv : Decimal → Decimal → Decimal) (s : Engine) (order : OrderEntry) : Prop extends
    order.EntersExactly dv s where
  fills : ∀ v ∈ (order.tour dv (s.orderbook order.pair)).visits, v.left.filledAmount = v.order.filledAmount + v.bought

instance (dv : Decimal → Decimal → Decimal) (s : Engine) (order : OrderEntry) : Decidable (order.Unrounded dv s) :=
  decidable_of_iff (_ ∧ ∀ v ∈ (order.tour dv (s.orderbook order.pair)).visits, _)
    ⟨fun ⟨h₁, h₂⟩ => ⟨h₁, h₂⟩, fun ⟨h₁, h₂⟩ => ⟨h₁, h₂⟩⟩

/-- No sum is rounded that the order enters into a balance, nor the total of what its deals take, nor
what they leave of its lock. -/
structure OrderEntry.SpendsExactly (dv : Decimal → Decimal → Decimal) (s : Engine) (order : OrderEntry) : Prop extends
    order.EntersExactly dv s where
  total : order.used (order.deals dv s) =
    if order.orderType = .buy then ((order.deals dv s).map MatchResult.totalValue).sum
    else ((order.deals dv s).map MatchResult.amount).sum
  left : Arithmetic.sub order.lock.2 (order.used (order.deals dv s)) = order.lock.2 - order.used (order.deals dv s)

instance (dv : Decimal → Decimal → Decimal) (s : Engine) (order : OrderEntry) : Decidable (order.SpendsExactly dv s) :=
  decidable_of_iff (_ ∧ _ ∧ _) ⟨fun ⟨h₁, h₂, h₃⟩ => ⟨h₁, h₂, h₃⟩, fun ⟨h₁, h₂, h₃⟩ => ⟨h₁, h₂, h₃⟩⟩

/-- What an order's deals take of what it has locked. -/
theorem debits_deals {order : OrderEntry} (hk : order.Kind) (dv : Decimal → Decimal → Decimal) (s : Engine) :
    BalanceCache.debits (order.deals dv s) order.userId order.lock.1 =
      if order.orderType = .buy then ((order.deals dv s).map MatchResult.totalValue).sum
      else ((order.deals dv s).map MatchResult.amount).sum := by
  have hparties : ∀ t ∈ order.deals dv s, order.IsParty t := by
    rw [← matching_deals]
    exact matching_parties dv hk (s.orderbook order.pair)
  refine (@debits_own A.exactSums _ A.exactSums_exact _ hparties).trans ?_
  unfold OrderEntry.used
  split_ifs
  · exact @quoteUsed_eq A.exactSums A.exactSums_exact (order.deals dv s)
  · exact @amountUsed_eq_sum A.exactSums A.exactSums_exact (order.deals dv s)

/-- So that is what they leave of its lock. -/
theorem OrderEntry.SpendsExactly.left_eq {order : OrderEntry} (h : order.SpendsExactly dv s) (hk : order.Kind) :
    Arithmetic.sub order.lock.2 (order.used (order.deals dv s)) =
      order.lock.2 - BalanceCache.debits (order.deals dv s) order.userId order.lock.1 := by
  rw [h.left, h.total, debits_deals hk]

/-! ## When it agrees -/

/-- No resting order has a price or a quantity that is not positive. -/
def Engine.OrdersPositive (s : Engine) : Prop := s.AllOrders fun _ _ p o => 0 < p ∧ 0 < o.remainingAmount

theorem Engine.Placed.ordersPositive (h : s.Placed) : s.OrdersPositive := fun pair buys x hx =>
  ⟨(h pair buys x hx).price_pos, (h pair buys x hx).remaining_pos⟩

/-- Nor do the matches with them. -/
theorem deals_pos {order : OrderEntry} (hk : order.Kind) (hpos : s.OrdersPositive) :
    ∀ t ∈ (order.matching dv (s.orderbook order.pair)).results, 0 < t.price ∧ 0 < t.amount := by
  intro t ht
  obtain ⟨incoming, price, resting, amount, hf, rfl⟩ := (matching_facts dv hk (s.orderbook order.pair)
    (P := fun p o => 0 < p ∧ 0 < o.remainingAmount) (fun p o a h _ hleft => ⟨h.1, hleft⟩) (hpos order.pair _)).results t ht
  rw [fill_report_price, fill_report_amount]
  exact ⟨hf.rests.1, fill_amount_pos hk hf.rests.2 hf⟩

/-- What is published is what is answered. -/
theorem published_trades {order : OrderEntry} {ms : List MatchResult}
    (h : (processSubmitOrder dv s order).answer = .ok ms) :
    (processSubmitOrder dv s order).events.map TradeExecutedEvent.trade = ms := by
  have hmap : ∀ (c : BalanceCache) (ms : List MatchResult),
      (ms.map (tradeExecuted c)).map TradeExecutedEvent.trade = ms := by
    intro c ms
    rw [List.map_map]
    exact List.map_id ms
  unfold processSubmitOrder at h ⊢
  dsimp only at h ⊢
  split at h
  · cases h
  · split_ifs at h ⊢
    · rw [← Except.ok.inj h]
      exact hmap _ _
    · rw [← Except.ok.inj h]
      exact hmap _ _

section Reported

variable {order : OrderEntry} {t : MatchResult × Except EngineError (List DbCommand)}
  {trades : List (MatchResult × Except EngineError (List DbCommand))} {id : OrderId}

omit [Arithmetic] in
/-- The executed trades are part of all. -/
theorem reportedFor_executed_le (h : ∀ t ∈ trades, 0 < t.1.amount) :
    order.reportedFor id (executed trades) ≤ order.reportedFor id (trades.map Prod.fst) := by
  induction trades with
  | nil => exact le_rfl
  | cons t trades ih =>
    obtain ⟨ht, htrades⟩ := List.forall_mem_cons.1 h
    rw [List.map_cons, OrderEntry.reportedFor_cons]
    by_cases hok : t.2.isOk = true
    · rw [executed_cons_ok hok, OrderEntry.reportedFor_cons]
      exact add_le_add_right (ih htrades) _
    · rw [executed_cons_err hok]
      refine (ih htrades).trans (le_add_of_nonneg_left ?_)
      split_ifs
      · exact ht.le
      · exact le_rfl

omit [Arithmetic] in
/-- **If the executed trades report every fill, all were executed.** -/
theorem allOk_of_reported (order : OrderEntry) (h : ∀ t ∈ trades, 0 < t.1.amount)
    (hreported : ∀ id, order.reportedFor id (executed trades) = order.reportedFor id (trades.map Prod.fst)) :
    BalanceCache.AllOk trades := by
  induction trades with
  | nil => exact fun t ht => absurd ht List.not_mem_nil
  | cons t trades ih =>
    obtain ⟨ht, htrades⟩ := List.forall_mem_cons.1 h
    simp only [List.map_cons, OrderEntry.reportedFor_cons] at hreported
    by_cases hok : t.2.isOk = true
    · refine BalanceCache.allOk_cons.2 ⟨hok, ih htrades fun id => ?_⟩
      have := hreported id
      rw [executed_cons_ok hok, OrderEntry.reportedFor_cons] at this
      exact add_left_cancel this
    · -- the fill of its resting order is not reported
      have := hreported (order.makerId t.1)
      rw [executed_cons_err hok, if_pos rfl] at this
      have hle : order.reportedFor (order.makerId t.1) _ ≤ _ := reportedFor_executed_le htrades
      linarith

end Reported

/-- The release of a lock leaves the accounts' totals. -/
theorem release_totals [ExactSums] (c : BalanceCache) (user : UserId) (mint : Mint) (amount : Decimal) (u : UserId)
    (m : Mint) :
    (c.release user mint amount).1.available u m + (c.release user mint amount).1.locked u m =
      c.available u m + c.locked u m := by
  unfold BalanceCache.release
  split_ifs
  swap
  · rfl
  dsimp only
  rw [(BalanceCache.unlockBalanceForCancel_eq c user mint amount).1]
  rcases BalanceCache.unlockBalance_cases c user mint amount with ⟨-, -, hsame⟩ | ⟨-, -, hm⟩
  · rw [hsame.available, hsame.locked]
  · rw [hm.available, hm.locked]
    unfold posting
    split_ifs <;> ring

/-- What a visit does to a weight that fills turn into what is bought. -/
theorem tour_weight {w : OrderEntry → Decimal} {c : Decimal} (hw : ∀ o a, w (o.fill a) + c * a = w o)
    (order : OrderEntry) (book : OrderBook) :
    ∀ v ∈ (order.tour dv book).visits, w v.left + c * v.bought = w v.order := by
  obtain ⟨others, hmeets⟩ := matching_meets dv order book
  intro v hv
  rw [(hmeets.made v hv).left_eq, Visit.bought]
  generalize v.order = o
  induction v.results generalizing o with
  | nil => simp
  | cons m ms ih =>
    have hone := hw o m.amount
    have hrest := ih (o.fill m.amount)
    rw [List.foldl_cons, List.map_cons, List.sum_cons]
    linarith

/-- **What a call of the matcher does to a weight** that visits turn into something else. -/
theorem total_matching {w : OrderEntry → Decimal} {g : Visit → Decimal} {order : OrderEntry} {book : OrderBook}
    (hw : ∀ v ∈ (order.tour dv book).visits, w v.left + g v = w v.order) :
    (order.matching dv book).side.total w +
        (((order.matching dv book).dropped.map w).sum + ((order.tour dv book).visits.map g).sum) =
      (book.side (order.rule dv).scansBuys).total w := by
  obtain ⟨others, hmeets⟩ := matching_meets dv order book
  have hdropped := ((matching_tours dv order book).2.2.2.map w).sum_eq
  rw [Tour.dropped, List.map_map] at hdropped
  -- every visited order stays or is dropped
  have hleft : (((order.tour dv book).visits.filter Visit.stays).map (w ∘ Visit.left)).sum +
      (((order.tour dv book).visits.filter fun v => !v.stays).map (w ∘ Visit.left)).sum =
        ((order.tour dv book).visits.map (w ∘ Visit.left)).sum := by
    rw [← List.sum_append, ← List.map_append]
    exact ((List.filter_append_perm Visit.stays _).map _).sum_eq
  have hvisits : ((order.tour dv book).visits.map (w ∘ Visit.left)).sum + ((order.tour dv book).visits.map g).sum =
      ((order.tour dv book).visits.map fun v => w v.order).sum := by
    rw [← List.sum_map_add]
    exact congrArg List.sum (List.map_congr_left hw)
  rw [OrderBookSide.total, OrderBookSide.total, hmeets.after, hmeets.before, Multiset.map_coe, Multiset.map_coe,
    Multiset.sum_coe, Multiset.sum_coe, List.map_append, List.map_append, List.sum_append, List.sum_append, List.map_map,
    List.map_map, hdropped]
  change (((order.tour dv book).visits.filter Visit.stays).map (w ∘ Visit.left)).sum + _ + _ =
    ((order.tour dv book).visits.map fun v => w v.order).sum + _
  rw [← hvisits, ← hleft]
  ring

section Submit

variable {order : OrderEntry} {cache : BalanceCache} {book : OrderBook}
  {settled : BalanceCache × List (MatchResult × Except EngineError (List DbCommand))}
  {counted : List MatchResult} {released : BalanceCache × Option (Except EngineError Unit)}
  (hk : order.Kind) (hpos : s.OrdersPositive) (hg : Granted dv s order cache book settled counted released)

include hk hg

/-- What the orders with an id weigh, before a submit and after it, when fills turn `c` of their
weight into matches. -/
theorem weights_matching {w : OrderEntry → Decimal} {c : Decimal}
    (hw : ∀ v ∈ (order.tour dv (s.orderbook order.pair)).visits, w v.left + c * v.bought = w v.order)
    (id : OrderId) : weightBy id w ((processSubmitOrder dv s order).engine.restingOrders ++
      (matchAndRest dv order (s.orderbook order.pair)).dropped) +
      c * order.reportedFor id (order.matching dv (s.orderbook order.pair)).results =
    weightBy id w (s.restingOrders ++ if (matchAndRest dv order (s.orderbook order.pair)).order.rests then
      [(matchAndRest dv order (s.orderbook order.pair)).order] else []) := by
  obtain ⟨horder, -, hdropped, -⟩ := matchAndRest_spec dv hk (s.orderbook order.pair)
  have hsum : ∀ os : List OrderEntry, weightBy id w os = (os.map fun o => if o.id = id then w o else 0).sum :=
    fun os => sum_map_filter (fun o : OrderEntry => o.id = id) w os
  obtain ⟨others, hmeets⟩ := matching_meets dv order (s.orderbook order.pair)
  have htotal := total_submit_side hk hg (total_matching (w := fun o => if o.id = id then w o else 0)
    (g := fun v => c * if v.order.id = id then v.bought else 0) fun v hv => by
      rw [(OrderEntry.terms_eq (hmeets.made v hv).left_terms).1]
      split_ifs
      · exact hw v hv
      · ring)
  rw [total_eq_sum, total_eq_sum, ← add_assoc, List.sum_map_mul_left, ← reportedFor_visits hmeets.made] at htotal
  rw [hsum, hsum, horder, hdropped, (matching_tours dv order (s.orderbook order.pair)).2.2.1, Tour.results,
    List.map_append, List.sum_append, List.map_append, List.sum_append]
  by_cases hr : (order.matching dv (s.orderbook order.pair)).incoming.rests
  · rw [if_pos hr] at htotal ⊢
    rw [List.map_singleton, List.sum_singleton]
    exact htotal
  · rw [if_neg hr] at htotal ⊢
    rw [List.map_nil, List.sum_nil]
    exact htotal

/-- What resting orders have filled grows by what all matches report for them. -/
theorem fills_matching (hexact : order.Unrounded dv s) (id : OrderId) :
    filledBy id ((processSubmitOrder dv s order).engine.restingOrders ++
      (matchAndRest dv order (s.orderbook order.pair)).dropped) =
    filledBy id (s.restingOrders ++ if (matchAndRest dv order (s.orderbook order.pair)).order.rests then
      [(matchAndRest dv order (s.orderbook order.pair)).order] else []) +
      order.reportedFor id (order.matching dv (s.orderbook order.pair)).results := by
  have h := weights_matching hk hg (w := OrderEntry.filledAmount) (c := -1)
    (fun v hv => by rw [hexact.fills v hv]; ring) id
  change filledBy id _ + _ = filledBy id _ at h
  linarith

omit hk

/-- The trades end as with exact sums. -/
theorem Granted.settled_exact (hexact : order.EntersExactly dv s) :
    settled = @BalanceCache.executeTrades A.exactSums (order.orderSide = .market) cache (order.deals dv s) := by
  rw [hg.trades, matching_deals, hg.lock]
  exact BalanceCache.executeTrades_exact _ _ _ hexact.trades

/-- The lock moves what it says. -/
theorem Granted.locked_exact (hexact : order.EntersExactly dv s) :
    BalanceCache.Moves s.balanceCache cache (posting order.userId order.lock.1 (-order.lock.2))
      (posting order.userId order.lock.1 order.lock.2) := by
  rw [hg.lock, BalanceCache.lockBalanceForOrder_exact hexact.lock]
  exact @BalanceCache.lockBalanceForOrder_moves A.exactSums A.exactSums_exact _ _ _ _ hg.funds

/-- So do the deals, if all are executed. -/
theorem Granted.settled_moves (hexact : order.EntersExactly dv s) (hok : BalanceCache.AllOk settled.2) :
    BalanceCache.Moves cache settled.1 (BalanceCache.credits (order.deals dv s))
      fun u m => -BalanceCache.debits (order.deals dv s) u m := by
  have hsettled := hg.settled_exact hexact
  rw [hsettled] at hok ⊢
  exact @BalanceCache.executeTrades_moves A.exactSums _ A.exactSums_exact _ _ hok

/-- All matches of a limit order count, and of a market order if all trades are executed. -/
theorem Granted.counted_deals (hok : order.orderSide = .market → BalanceCache.AllOk settled.2) :
    counted = order.deals dv s := by
  rw [hg.counts]
  split_ifs with hside
  · rw [executed_of_allOk (hok hside), hg.trades, BalanceCache.executeTrades_fst, matching_deals]
  · exact matching_deals dv s order

/-- Then what the deals leave of the lock is released as with exact sums. -/
theorem Granted.release_exact (hexact : order.EntersExactly dv s)
    (hok : order.orderSide = .market → BalanceCache.AllOk settled.2) :
    released = if order.orderSide = .market ∨ (order.tour dv (s.orderbook order.pair)).incoming.remainingAmount = 0 then
      @BalanceCache.release A.exactSums settled.1 order.userId order.lock.1
        (Arithmetic.sub order.lock.2 (order.used (order.deals dv s)))
    else (settled.1, none) := by
  have hdealt : settled.1 = order.dealtCache dv s := by
    rw [hg.trades, matching_deals, hg.lock, BalanceCache.executeTrades_skip]
    rfl
  rw [hg.release, (matching_tours dv order (s.orderbook order.pair)).2.1, hg.counted_deals hok]
  split_ifs with hends
  · rw [hdealt]
    exact BalanceCache.release_exact (hexact.release hends)
  · rfl

/-- If all trades are executed, the accounts' totals change by the net of the matches. -/
theorem balances_matching (hexact : order.EntersExactly dv s) (hok : BalanceCache.AllOk settled.2) (u : UserId)
    (m : Mint) :
    ((processSubmitOrder dv s order).engine.balanceCache.available u m +
        (processSubmitOrder dv s order).engine.balanceCache.locked u m) -
      (s.balanceCache.available u m + s.balanceCache.locked u m) =
        ((order.matching dv (s.orderbook order.pair)).results.map fun t => t.net u m).sum := by
  have hreleased : released.1.available u m + released.1.locked u m = settled.1.available u m + settled.1.locked u m := by
    rw [hg.release_exact hexact fun _ => hok]
    split_ifs
    · exact @release_totals A.exactSums A.exactSums_exact _ _ _ _ _ _
    · rfl
  have hmoves := hg.settled_moves hexact hok
  have hlocked := hg.locked_exact hexact
  rw [matching_deals, hg.engine, hreleased, hmoves.available, hmoves.locked, hlocked.available, hlocked.locked,
    BalanceCache.sum_net]
  unfold posting
  split_ifs <;> ring

include hk hpos

/-- **A submit agrees if and only if all its trades are executed.** -/
theorem agrees_iff_allOk (hexact : order.Unrounded dv s) : order.Agrees dv s ↔ BalanceCache.AllOk settled.2 := by
  have hfst : settled.2.map Prod.fst = (order.matching dv (s.orderbook order.pair)).results := by
    rw [hg.trades, BalanceCache.executeTrades_fst]
  constructor
  · intro h
    obtain ⟨-, hfills, hsettled, -⟩ := h counted hg.answer
    rw [hg.outcome.1] at hsettled
    refine allOk_of_reported order (fun t ht => ?_) fun id => ?_
    · have hmem : t.1 ∈ (order.matching dv (s.orderbook order.pair)).results := by
        rw [← hfst]
        exact List.mem_map_of_mem ht
      exact (deals_pos hk hpos _ hmem).2
    · have hall := fills_matching hk hg hexact id
      rw [hfills id] at hall
      rw [hfst, ← hsettled]
      exact add_left_cancel hall
  · intro hok ms hms
    obtain rfl : counted = ms := by
      rw [hg.answer] at hms
      exact Except.ok.inj hms
    have hcounted := (hg.counted_deals fun _ => hok).trans (matching_deals dv s order).symm
    refine ⟨?_, ?_, ?_, published_trades hms⟩
    · rw [hcounted]
      exact balances_matching hg hexact.toEntersExactly hok
    · rw [hcounted]
      exact fills_matching hk hg hexact
    · rw [hg.outcome.1, executed_of_allOk hok, hfst, hcounted]

/-- **All its trades are executed if and only if it is backed.** -/
theorem allOk_iff_backed (hexact : order.EntersExactly dv s) : BalanceCache.AllOk settled.2 ↔ order.Backed dv s := by
  have hmatches : BalanceCache.Positive (order.deals dv s) := by
    rw [← matching_deals]
    exact fun t ht => have h := deals_pos hk hpos t ht; ⟨h.1.le, h.2.le⟩
  rw [hg.settled_exact hexact, OrderEntry.Backed, imp_iff_right hg.funds,
    @BalanceCache.executeTrades_ok_iff A.exactSums _ A.exactSums_exact _ _ hmatches]
  exact forall₂_congr fun u m => imp_congr Iff.rfl (by rw [(hg.locked_exact hexact).locked]; rfl)

end Submit

/-- Nothing is rounded where sums are exact. -/
theorem OrderEntry.EntersExactly.exact [ExactSums] {order : OrderEntry} : order.EntersExactly dv s where
  lock := .exact _ _ _
  trades := .exact _ _
  release _ := .exact _ _ _

/-- **A submit that takes no rounded sum agrees if and only if it is backed.** -/
theorem agrees_iff_backed {order : OrderEntry} (hk : order.Kind) (hpos : s.OrdersPositive)
    (hexact : order.lock.2 ≤ s.balanceCache.available order.userId order.lock.1 → order.Unrounded dv s) :
    order.Agrees dv s ↔ order.Backed dv s := by
  rcases processSubmitOrder_cases dv s hk with hr | ⟨cache, book, settled, counted, released, hg⟩
  · refine iff_of_true (fun ms hms => ?_) fun hle => absurd hle (not_le.2 hr.funds)
    have herr := hr.answer
    rw [hms] at herr
    cases herr
  rw [agrees_iff_allOk hk hpos hg (hexact hg.funds), allOk_iff_backed hk hpos hg (hexact hg.funds).toEntersExactly]

end Rounded

/-- A buy of 1 at 11.1 from two asks: the cost of the first is rounded up, and the lock does not pay
for the second. -/
example : (@processSubmitOrder decimalArithmetic decimalDiv
    (@Engine.run decimalArithmetic decimalDiv
      (.start (((BalanceCache.new.setBalance 1 "USDT" 100 0).setBalance 2 "SOL" 5 0).setBalance 3 "SOL" 50 0))
      [.submitOrder (limitOrder 1 2 .sell 11.1 0.8288288288288288288288288288),
        .submitOrder (limitOrder 2 3 .sell 11.1 10)])
    (limitOrder 3 1 .buy 11.1 1)).trades.map (fun t => t.2.isOk) = [true, false] := by decide +kernel

end CexEngine
