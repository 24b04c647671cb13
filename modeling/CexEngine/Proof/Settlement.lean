import CexEngine.Proof.Escrow

/-!
# Every match can be settled

In runs without market buys, with deposits and withdrawals of any sign:

* `covered_step`: the commands keep every resting order covered by its owner's lock.
* `found_of_mem`: with distinct ids, a cancel finds the order it names.
* `run_settles`: every trade is executed, every release succeeds and no cancel of an owner's
  resting order is refused.
-/

namespace CexEngine

variable {dv : Decimal → Decimal → Decimal} {s : Engine}

/-- Submits of admitted orders that are not market buys, cancels, deposits and withdrawals,
and queries. -/
def Command.WithoutBudget : Command → Prop
  | .submitOrder order => order.Validated ∧ ¬ (order.orderType = .buy ∧ order.orderSide = .market)
  | .lockBalance _ _ _ => False
  | .unlockBalance _ _ _ => False
  | _ => True

theorem Command.WithoutBudget.validated {c : Command} (h : c.WithoutBudget) : c.Validated := by
  cases c with
  | submitOrder order => exact h.1
  | _ => trivial

/-- The commands keep the books covered. -/
theorem covered_step {c : Command} (hc : c.WithoutBudget) (hplaced : s.Placed) (hcov : s.Covered) :
    (s.step dv c).Covered := by
  cases c with
  | submitOrder order =>
    have hk := validated_kind hc.1
    change (processSubmitOrder dv s order).engine.Covered
    exact covered_submit hk hplaced hcov fun _ => quantity_within dv hk (hk.no_budget hc.2) hplaced
  | cancelOrder orderId userId pair =>
    change (handleCancelOrder s orderId userId pair).engine.Covered
    rcases handleCancelOrder_cases s orderId userId pair with hn | ⟨book, buys, price, order, unlocked, -, ht⟩
    · rw [hn.engine]; exact hcov
    · have hle := cancel_unlocks ht hplaced hcov
      rw [Engine.covered_iff_slack] at hcov ⊢
      intro u m
      rw [cancel_slack ht hle]
      exact hcov u m
  | updateBalance user mint delta =>
    intro u m
    have h := hcov u m
    rw [← addAvailable_locked s.balanceCache user mint delta] at h
    exact h
  | lockBalance _ _ _ => exact hc.elim
  | unlockBalance _ _ _ => exact hc.elim
  | getOrderbook _ _ => exact hcov
  | getBalance _ _ => exact hcov

/-! ## Finding an order -/

/-- With distinct ids, an id determines the order and its place. -/
theorem mem_stock_unique {pair : TradingPair} {buys buys' : Bool} {x y : Decimal × OrderEntry}
    (hnodup : s.orderIds.Nodup) (hx : x ∈ ((s.orderbook pair).side buys).stock)
    (hy : y ∈ ((s.orderbook pair).side buys').stock) (hid : x.2.id = y.2.id) : buys = buys' ∧ x = y := by
  -- the orders of the book, with their sides
  let all : Multiset (Bool × Decimal × OrderEntry) :=
    ((s.orderbook pair).side true).stock.map (true, ·) + ((s.orderbook pair).side false).stock.map (false, ·)
  have hall : all.map (fun z => z.2.2.id) = (s.orderbook pair).total fun o => ({o.id} : Multiset OrderId) := by
    simp only [all, Multiset.map_add, Multiset.map_map, Function.comp_def]
    unfold OrderBook.total OrderBookSide.total
    rw [← Multiset.sum_map_singleton (Multiset.map _ ((s.orderbook pair).side true).stock),
      ← Multiset.sum_map_singleton (Multiset.map _ ((s.orderbook pair).side false).stock), Multiset.map_map,
      Multiset.map_map]
    rfl
  have hle : (s.orderbook pair).total (fun o => ({o.id} : Multiset OrderId)) ≤ s.orderIds := by
    have hins := s.total_insert s.balanceCache pair (.new pair) fun o => ({o.id} : Multiset OrderId)
    rw [show (OrderBook.new pair).total (fun o => ({o.id} : Multiset OrderId)) = 0 by
      simp [OrderBook.total, OrderBook.new], add_zero] at hins
    rw [Engine.orderIds, ← hins]
    exact Multiset.le_add_left _ _
  have hmem : ∀ {b : Bool} {z : Decimal × OrderEntry}, z ∈ ((s.orderbook pair).side b).stock → (b, z) ∈ all := by
    intro b z hz
    cases b
    · exact Multiset.mem_add.2 (Or.inr (Multiset.mem_map_of_mem _ hz))
    · exact Multiset.mem_add.2 (Or.inl (Multiset.mem_map_of_mem _ hz))
  have hdistinct : (all.map fun z => z.2.2.id).Nodup := hall ▸ Multiset.nodup_of_le hle hnodup
  have heq := Multiset.inj_on_of_nodup_map hdistinct (buys, x) (hmem hx) (buys', y) (hmem hy) hid
  exact ⟨congrArg Prod.fst heq, congrArg Prod.snd heq⟩

/-- **A cancel finds the order it names.** -/
theorem found_of_mem {pair : TradingPair} {book : OrderBook} {buys : Bool} {x : Decimal × OrderEntry}
    (hnodup : s.orderIds.Nodup) (hbook : s.orderbooks.lookup pair = some book) (hx : x ∈ (book.side buys).stock) :
    s.found pair x.2.id = some (book, buys, x.1, x.2) := by
  -- ids are distinct, so that what is located under the id is `x`
  have hlocated : ∀ {b : Bool} {p : Decimal} {o : OrderEntry}, (book.side b).locate x.2.id = some (p, o) →
      b = buys ∧ (p, o) = x := by
    intro b p o hl
    have hstock := OrderBookSide.stock_takeOut hl
    have hbook' := Engine.orderbook_of_lookup hbook
    have hmem : (p, o) ∈ ((s.orderbook pair).side b).stock := by
      rw [hbook', hstock]; exact Multiset.mem_cons_self _ _
    rw [← hbook'] at hx
    exact mem_stock_unique hnodup hmem hx (OrderBookSide.locate_id hl)
  have hnone : ∀ {b : Bool}, (book.side b).locate x.2.id = none → b ≠ buys := by
    rintro b hl rfl
    exact OrderBookSide.locate_eq_none.1 hl x hx rfl
  unfold Engine.found
  rw [hbook, Option.bind_some]
  cases hbuy : (book.side true).locate x.2.id with
  | some y =>
    obtain ⟨rfl, rfl⟩ := hlocated hbuy
    rfl
  | none =>
    have hb : buys = false := by
      cases buys
      · rfl
      · exact absurd rfl (hnone hbuy)
    subst hb
    cases hsell : (book.side false).locate x.2.id with
    | none => exact absurd rfl (hnone hsell)
    | some y =>
      obtain ⟨-, rfl⟩ := hlocated hsell
      rfl

/-! ## Runs -/

/-- Nothing that the command matches, releases or cancels fails to settle: every match that
`match_order` makes is executed, `execute_trade` is answered `Ok`, and so is the release of the
lock's rest; the unlock of a cancel that found the caller's order is answered `Ok`, and a cancel
by the owner of a resting order is answered with that order. -/
def Command.Settles (dv : Decimal → Decimal → Decimal) (s : Engine) : Command → Prop
  | .submitOrder order =>
    ((processSubmitOrder dv s order).answer.isOk = true →
        (processSubmitOrder dv s order).trades.map Prod.fst = (matchOrder dv order (s.orderbook order.pair)).results) ∧
      (∀ t ∈ (processSubmitOrder dv s order).trades, t.2.isOk = true) ∧
      ∀ r, (processSubmitOrder dv s order).release = some r → r = .ok ()
  | .cancelOrder orderId userId pair =>
    (∀ book buys price order, s.found pair orderId = some (book, buys, price, order) → order.userId = userId →
        (s.balanceCache.unlockBalanceForCancel userId order.unlock.1 order.unlock.2).2 = .ok ()) ∧
      ∀ book, s.orderbooks.lookup pair = some book →
        ∀ order ∈ book.buyOrders.restingOrders ++ book.sellOrders.restingOrders,
          order.id = orderId → order.userId = userId →
            (handleCancelOrder s orderId userId pair).answer = .ok order
  | _ => True

/-- Resting what is left of an order makes no match. -/
theorem matchAndRest_results (dv : Decimal → Decimal → Decimal) (order : OrderEntry) (book : OrderBook) :
    (matchAndRest dv order book).results = (matchOrder dv order book).results := by
  unfold matchAndRest
  dsimp only
  split_ifs <;> rfl

/-- A command settles where the books are covered and the ids distinct. -/
theorem settles_of_covered {c : Command} (hc : c.WithoutBudget) (hplaced : s.Placed) (hcov : s.Covered)
    (hids : s.orderIds.Nodup) : c.Settles dv s := by
  cases c with
  | submitOrder order =>
    have hk := validated_kind hc.1
    rcases processSubmitOrder_cases dv s hk with hr | ⟨cache, book, settled, counted, released, hg⟩
    · simp [Command.Settles, hr.outcome, hr.answer]
    · have hused := quantity_within dv hk (hk.no_budget hc.2) hplaced
      refine ⟨fun _ => ?_, ?_, ?_⟩
      · rw [hg.outcome.1, hg.trades, BalanceCache.executeTrades_fst, ← matchAndRest_results,
          (matchAndRest_spec dv hk _).2.1]
      · rw [hg.outcome.1]
        exact (submit_trades hk hplaced hcov hg hused).1
      · rw [hg.outcome.2]
        exact (submit_release hk hplaced hcov hg hused).1
  | cancelOrder orderId userId pair =>
    have hunlock : ∀ book buys price order, s.found pair orderId = some (book, buys, price, order) →
        order.userId = userId →
        (s.balanceCache.unlockBalanceForCancel userId order.unlock.1 order.unlock.2).2 = .ok () ∧
          (handleCancelOrder s orderId userId pair).answer = .ok order := by
      intro book buys price order hf hu
      rcases handleCancelOrder_cases s orderId userId pair with hn | ⟨book', buys', price', order', unlocked, hf', ht⟩
      · exact absurd hu (hn.other book buys price order hf)
      · rw [hf] at hf'
        cases hf'
        have hok := cancel_ok ht (cancel_unlocks ht hplaced hcov)
        rw [ht.unlock] at hok
        exact hok
    refine ⟨fun book buys price order hf hu => (hunlock book buys price order hf hu).1, ?_⟩
    intro book hbook order ho hid hu
    -- the order rests on one of the two sides, at some price
    have hside : ∃ buys p, (p, order) ∈ (book.side buys).stock := by
      rcases List.mem_append.1 ho with ho | ho
      · obtain ⟨p, hp⟩ := mem_restingOrders.1 ho
        exact ⟨true, p, hp⟩
      · obtain ⟨p, hp⟩ := mem_restingOrders.1 ho
        exact ⟨false, p, hp⟩
    obtain ⟨buys, p, hp⟩ := hside
    have hf := found_of_mem hids hbook hp
    rw [show (p, order).2.id = orderId from hid] at hf
    exact (hunlock book buys p order hf hu).2
  | _ => trivial

/-- **Every match the matcher makes can be settled**: at every command of a run without market
buys and with distinct order ids, from empty books and balances that are not negative. -/
theorem run_settles (dv : Decimal → Decimal → Decimal) (cache : BalanceCache) (cs : List Command)
    (hcache : cache.Sound) (hcs : ∀ c ∈ cs, c.WithoutBudget) (hids : (submittedIds cs).Nodup)
    (done : List Command) (c : Command) (more : List Command) (h : cs = done ++ c :: more) :
    c.Settles dv ((Engine.start cache).run dv done) := by
  subst h
  have key := run_inv_coming dv
    (I := fun s cs => s.WellFormed cs ∧ s.Covered ∧ ∀ c ∈ cs, c.WithoutBudget) (by
      rintro s c cs ⟨hw, hcov, hcs⟩
      exact ⟨wellFormed_step hw, covered_step (hcs c List.mem_cons_self) hw.placed hcov,
        fun c' hc' => hcs c' (List.mem_cons_of_mem _ hc')⟩) (c :: more) done (Engine.start cache)
    ⟨wellFormed_start cache (fun c hc => (hcs c hc).validated) hids, fun u m => by
      rw [Engine.required, Engine.total_start]
      exact (hcache u m).2, hcs⟩
  obtain ⟨hw, hcov, hcs⟩ := key
  exact settles_of_covered (hcs c List.mem_cons_self) hw.placed hcov hw.freshIds.nodup

/-- A buy above an ask that rests, after a withdrawal of what the buyer has left over. -/
theorem run_settles_buy :
    (Command.submitOrder (limitOrder 2 1 .buy 11 3)).Settles (· / ·)
      ((Engine.start ((BalanceCache.new.setBalance 1 "USDT" 40 0).setBalance 2 "SOL" 5 0)).run (· / ·)
        [.submitOrder (limitOrder 1 2 .sell 10 5), .updateBalance 1 "USDT" (-7)]) := by
  refine run_settles (· / ·) ((BalanceCache.new.setBalance 1 "USDT" 40 0).setBalance 2 "SOL" 5 0)
    [.submitOrder (limitOrder 1 2 .sell 10 5), .updateBalance 1 "USDT" (-7), .submitOrder (limitOrder 2 1 .buy 11 3)]
    ((BalanceCache.sound_new.setBalance 1 "USDT" (by norm_num) le_rfl).setBalance 2 "SOL" (by norm_num) le_rfl) ?_
    (by decide) [.submitOrder (limitOrder 1 2 .sell 10 5), .updateBalance 1 "USDT" (-7)] _ [] rfl
  simp only [List.forall_mem_cons]
  exact ⟨⟨limitOrder_validated 1 2 (Or.inr rfl) (by norm_num) (by norm_num), by simp [limitOrder]⟩, trivial,
    ⟨limitOrder_validated 2 1 (Or.inl rfl) (by norm_num) (by norm_num), by simp [limitOrder]⟩, by simp⟩

end CexEngine
