import CexEngine.Lib.Runs
import CexEngine.Proof.Cancel

/-!
# The order books of the engine

* `Granted.after`, `TakenOut.after`: the sides of the books after a submit and after a cancel.
* `Engine.AllOrders`: a fact about every order that rests somewhere, by side, pair and price.
  `allOrders_submit` and `allOrders_cancel`: what fills keep and rested orders have, the
  handlers keep.
* `run_inv`: an invariant of the steps holds along a run. `run_prefix_iff`: when a fact holds in
  every state of a run.
-/

namespace CexEngine

variable [Arithmetic] {dv : Decimal → Decimal → Decimal}

omit [Arithmetic] in
theorem OrderBook.side_new (pair : TradingPair) (buys : Bool) : (OrderBook.new pair).side buys = .new := by
  cases buys <;> rfl

/-- Every resting order has `P`, given its side, its pair and the price of its level. -/
def Engine.AllOrders (P : Bool → TradingPair → Decimal → OrderEntry → Prop) (s : Engine) : Prop :=
  ∀ pair buys, ∀ x ∈ ((s.orderbook pair).side buys).stock, P buys pair x.1 x.2

omit [Arithmetic] in
theorem Engine.allOrders_start (P : Bool → TradingPair → Decimal → OrderEntry → Prop) (c : BalanceCache) :
    (Engine.start c).AllOrders P := by
  intro pair buys x hx
  have : (Engine.start c).orderbook pair = .new pair := rfl
  rw [this, OrderBook.side_new] at hx
  simp at hx

omit [Arithmetic] in
theorem bool_not_of_ne {a b : Bool} (h : a ≠ b) : a = !b := by
  cases a <;> cases b <;> simp_all

/-! ## The sides after a step -/

/-- A side of a book after a granted submit. -/
inductive AfterSubmit (dv : Decimal → Decimal → Decimal) (s : Engine) (order : OrderEntry) (pair : TradingPair)
    (buys : Bool) (side : OrderBookSide) : Prop where
  /-- The side that is scanned. -/
  | scanned (pair_eq : pair = order.pair) (buys_eq : buys = (order.rule dv).scansBuys)
      (eq : side = (order.matching dv (s.orderbook order.pair)).side)
  /-- The side that the rest of the order joins. -/
  | joined (price : Decimal) (pair_eq : pair = order.pair) (buys_eq : buys = order.isBuy)
      (left : (order.matching dv (s.orderbook order.pair)).incoming.rests)
      (rests : Rests order.isBuy order.pair price (order.matching dv (s.orderbook order.pair)).incoming)
      (eq : side = ((s.orderbook order.pair).side order.isBuy).addOrder
        (order.matching dv (s.orderbook order.pair)).incoming)
  | kept (other : ¬ (pair = order.pair ∧ buys = (order.rule dv).scansBuys)) (eq : side = (s.orderbook pair).side buys)

/-- **What a granted submit does to the books**, side by side. -/
theorem Granted.after {s : Engine} {order : OrderEntry} {cache : BalanceCache} {book : OrderBook}
    {settled : BalanceCache × List (MatchResult × Except EngineError (List DbCommand))} {counted : List MatchResult}
    {released : BalanceCache × Option (Except EngineError Unit)} (hk : order.Kind)
    (hg : Granted dv s order cache book settled counted released) (pair : TradingPair) (buys : Bool) :
    AfterSubmit dv s order pair buys (((processSubmitOrder dv s order).engine.orderbook pair).side buys) := by
  have hlive := (matching_facts dv hk (s.orderbook order.pair) (P := fun _ _ => True) (fun _ _ _ _ _ _ => trivial)
    fun _ _ => trivial).live
  rw [hg.engine, Engine.orderbook_insert]
  split_ifs with hpair
  swap
  · exact .kept (fun h => hpair h.1) rfl
  subst hpair
  by_cases hb : buys = (order.rule dv).scansBuys
  · subst hb
    exact .scanned rfl rfl hg.scanned
  · have hown : order.isBuy = !(order.rule dv).scansBuys := by rw [rule_scansBuys, Bool.not_not]
    obtain rfl := bool_not_of_ne hb
    have hjoined := hg.joined
    split_ifs at hjoined with hleft
    · obtain ⟨p, -, hR⟩ := rests_of_live hk hlive hleft
      exact .joined p rfl hown.symm hleft hR (by rw [hown]; exact hjoined)
    · exact .kept (fun h => hb h.2) hjoined

/-- **What a cancel does to the books**, side by side. -/
theorem TakenOut.after {s : Engine} {orderId : OrderId} {userId : UserId} {pair : TradingPair} {book : OrderBook}
    {buys : Bool} {price : Decimal} {order : OrderEntry} {unlocked : BalanceCache × Except EngineError Unit}
    (h : TakenOut s orderId userId pair book buys price order unlocked) (pair' : TradingPair) (buys' : Bool) :
    (pair' = pair ∧ buys' = buys ∧ ((s.orderbook pair).side buys).locate orderId = some (price, order) ∧
        ((handleCancelOrder s orderId userId pair).engine.orderbook pair').side buys' =
          ((s.orderbook pair).side buys).takeOut price orderId) ∨
      (¬ (pair' = pair ∧ buys' = buys) ∧
        ((handleCancelOrder s orderId userId pair).engine.orderbook pair').side buys' =
          (s.orderbook pair').side buys') := by
  rw [h.engine, Engine.orderbook_insert]
  split_ifs with hpair
  swap
  · exact Or.inr ⟨fun he => hpair he.1, rfl⟩
  subst hpair
  rw [Engine.orderbook_of_lookup h.found]
  by_cases hb : buys' = buys
  · subst hb
    exact Or.inl ⟨rfl, rfl, h.located, OrderBook.side_setSide _ _ _⟩
  · obtain rfl := bool_not_of_ne hb
    exact Or.inr ⟨fun he => hb he.2, OrderBook.side_setSide_not _ _ _⟩

section Steps

variable {P : Bool → TradingPair → Decimal → OrderEntry → Prop} {s : Engine}

/-- Submitting keeps `P`, if the side that is scanned and the order that is rested have it. -/
theorem allOrders_submit_of {order : OrderEntry} (hk : order.Kind)
    (hscanned : ∀ x ∈ (order.matching dv (s.orderbook order.pair)).side.stock,
      P (order.rule dv).scansBuys order.pair x.1 x.2)
    (hrest : ∀ p, Rests order.isBuy order.pair p (order.matching dv (s.orderbook order.pair)).incoming →
      P order.isBuy order.pair p (order.matching dv (s.orderbook order.pair)).incoming)
    (h : s.AllOrders P) : (processSubmitOrder dv s order).engine.AllOrders P := by
  rcases processSubmitOrder_cases dv s hk with hr | ⟨cache, book, settled, counted, released, hg⟩
  · intro pair buys x hx
    refine h pair buys x ?_
    rwa [Engine.orderbook, hr.orderbooks] at hx
  intro pair buys x hx
  cases hg.after hk pair buys with
  | scanned hpair hbuys eq =>
    subst hpair hbuys
    rw [eq] at hx
    exact hscanned x hx
  | joined p hpair hbuys left rests eq =>
    subst hpair hbuys
    rw [eq, OrderBookSide.stock_addOrder rests.price] at hx
    rcases Multiset.mem_cons.1 hx with rfl | hx
    · exact hrest p rests
    · exact h _ _ x hx
  | kept _ eq =>
    rw [eq] at hx
    exact h pair buys x hx

/-- Submitting keeps `P`, if fills keep it and an order that is rested has it. -/
theorem allOrders_submit {order : OrderEntry} (hk : order.Kind)
    (hfill : ∀ buys pair p o a, P buys pair p o → a ≤ o.remainingAmount → 0 < (o.fill a).remainingAmount →
      P buys pair p (o.fill a))
    (hrest : ∀ incoming p, Live order incoming → Rests order.isBuy order.pair p incoming →
      P order.isBuy order.pair p incoming)
    (h : s.AllOrders P) : (processSubmitOrder dv s order).engine.AllOrders P := by
  have hfacts := matching_facts dv hk (s.orderbook order.pair) (P := P (order.rule dv).scansBuys order.pair)
    (fun p o a => hfill _ _ p o a) (h order.pair _)
  exact allOrders_submit_of hk hfacts.stock (fun p hR => hrest _ p hfacts.live hR) h

/-- Taking an order out keeps `P`. -/
theorem allOrders_cancel (orderId : OrderId) (userId : UserId) (pair : TradingPair) (h : s.AllOrders P) :
    (handleCancelOrder s orderId userId pair).engine.AllOrders P := by
  rcases handleCancelOrder_cases s orderId userId pair with hn | ⟨book, buys, price, order, unlocked, -, ht⟩
  · rw [hn.engine]; exact h
  intro pair' buys' x hx
  rcases ht.after pair' buys' with ⟨rfl, rfl, hlocated, he⟩ | ⟨-, he⟩
  · rw [he] at hx
    refine h _ _ x ?_
    rw [OrderBookSide.stock_takeOut hlocated]
    exact Multiset.mem_cons_of_mem hx
  · rw [he] at hx
    exact h _ _ x hx

end Steps

/-- An order that is submitted is admitted. -/
def Command.Validated : Command → Prop
  | .submitOrder order => order.Validated
  | _ => True

/-! ## Runs -/

@[simp] theorem run_nil (s : Engine) : s.run dv [] = s := rfl

@[simp] theorem run_cons (s : Engine) (c : Command) (cs : List Command) :
    s.run dv (c :: cs) = (s.step dv c).run dv cs := rfl

/-- **Run rule.** What the admitted commands keep holds along a run of them. -/
theorem run_inv (dv : Decimal → Decimal → Decimal) {I : Engine → Prop} {ok : Command → Prop}
    (hstep : ∀ s c, I s → ok c → I (s.step dv c)) (cs : List Command) (s : Engine) (hs : I s) (hok : ∀ c ∈ cs, ok c) :
    I (s.run dv cs) :=
  Runs.inv hstep cs s hs hok

/-- The steps of a run are the first one and the ones after it. -/
theorem each_step_cons {Q : Engine → Command → Prop} {s : Engine} {c : Command} {cs : List Command} :
    (∀ done c' more, c :: cs = done ++ c' :: more → Q (s.run dv done) c') ↔
      Q s c ∧ ∀ done c' more, cs = done ++ c' :: more → Q ((s.step dv c).run dv done) c' :=
  History.each_cons

/-- **Rule for every state of a run.** If a step keeps `P` exactly when it is not `bad`, then
`P` holds in every state of a run exactly when no step of it is `bad`. -/
theorem run_prefix_iff (dv : Decimal → Decimal → Decimal) {I P : Engine → Prop} {ok : Command → Prop}
    (bad : Engine → Command → Prop) (hI : ∀ s c, I s → ok c → I (s.step dv c))
    (hstep : ∀ s c, I s → P s → ok c → (P (s.step dv c) ↔ ¬ bad s c)) (cs : List Command) (s : Engine)
    (hs : I s) (hP : P s) (hok : ∀ c ∈ cs, ok c) :
    (∀ done more, cs = done ++ more → P (s.run dv done)) ↔
      ∀ done c more, cs = done ++ c :: more → ¬ bad (s.run dv done) c :=
  Runs.states_iff bad hI hstep cs s hs hP hok

end CexEngine
