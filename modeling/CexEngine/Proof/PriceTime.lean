import CexEngine.Lib.Greedy
import CexEngine.Proof.Submit
import CexEngine.Proof.Walk

/-!
# Price and time priority

An order for a quantity is matched as its greedy allocation says: along the other users'
orders within its limit, best price first and in queue order.

* `OrderEntry.crossing`, `OrderEntry.matched`: the orders it can be matched with, and the
  match of one of them.
* `MatchRule.ByQuantity`: what the two rules do to such an order.
* `matchOrder_greedy`: **the matches, the incoming order and the orders left are those of the
  greedy allocation.**
-/

namespace CexEngine

open Pass

/-! ## The greedy matcher -/

/-- An order for a quantity: a limit buy, a limit sell or a market sell. -/
structure OrderEntry.ForQuantity (o : OrderEntry) : Prop where
  kind : (o.orderSide = .limit ∧ o.price.isSome ∧ (o.orderType = .buy ∨ o.orderType = .sell)) ∨
    (o.orderSide = .market ∧ o.orderType = .sell)
  remaining_pos : 0 < o.remainingAmount
  budget : o.remainingQuoteAmount = none

/-- The price satisfies the limit; any does for a market order. -/
def OrderEntry.crosses (o : OrderEntry) (price : Decimal) : Bool :=
  if o.orderSide = .limit then o.price.any fun limit => if o.isBuy then price ≤ limit else limit ≤ price else true

/-- The quotes that an order can be matched with: of other users, within its limit. -/
def OrderEntry.crossing (o : OrderEntry) (xs : List (Decimal × OrderEntry)) : List (Decimal × OrderEntry) :=
  xs.filter fun x => decide (o.userId ≠ x.2.userId) && o.crosses x.1

/-- Those of other users beyond its limit. -/
def OrderEntry.beyond (o : OrderEntry) (xs : List (Decimal × OrderEntry)) : List (Decimal × OrderEntry) :=
  xs.filter fun x => decide (o.userId ≠ x.2.userId) && !o.crosses x.1

/-- Those of other users. -/
def OrderEntry.foreign (o : OrderEntry) (xs : List (Decimal × OrderEntry)) : List (Decimal × OrderEntry) :=
  xs.filter fun x => decide (o.userId ≠ x.2.userId)

/-- What a quote has left. -/
def remaining (x : Decimal × OrderEntry) : Decimal := x.2.remainingAmount

/-- A quote after a fill. -/
def fillQuote (x : Decimal × OrderEntry) (amount : Decimal) : Decimal × OrderEntry := (x.1, x.2.fill amount)

/-- The match of an order with a quote, at the quote's price. -/
def OrderEntry.matched (o : OrderEntry) (x : (Decimal × OrderEntry) × Decimal) : MatchResult where
  buyOrderId := if o.isBuy then o.id else x.1.2.id
  sellOrderId := if o.isBuy then x.1.2.id else o.id
  buyerId := if o.isBuy then o.userId else x.1.2.userId
  sellerId := if o.isBuy then x.1.2.userId else o.userId
  price := x.1.1
  amount := x.2
  baseMint := o.baseMint
  quoteMint := o.quoteMint

/-! ## What the two rules share -/

/-- An order on its way through the matcher, as long as it is for a quantity. -/
structure Wants (order incoming : OrderEntry) : Prop where
  terms : incoming.terms = order.terms
  remaining_nonneg : 0 ≤ incoming.remainingAmount
  budget : incoming.remainingQuoteAmount = none

theorem Wants.fill {order incoming : OrderEntry} (h : Wants order incoming) (x : Decimal) :
    Wants order (incoming.fill (min incoming.remainingAmount x)) :=
  ⟨h.terms, sub_nonneg.2 (min_le_left _ _), h.budget⟩

/-- If anything of the resting order is left, nothing of the incoming one is. -/
theorem fill_min_of_left {incoming resting : OrderEntry}
    (hleft : 0 < (resting.fill (min incoming.remainingAmount resting.remainingAmount)).remainingAmount) :
    (incoming.fill (min incoming.remainingAmount resting.remainingAmount)).remainingAmount = 0 := by
  rw [OrderEntry.fill, ExactSums.sub_eq, sub_pos] at hleft
  have hlt : incoming.remainingAmount < resting.remainingAmount := (min_lt_iff.1 hleft).resolve_right (lt_irrefl _)
  rw [min_eq_left hlt.le]
  exact sub_self _

/-- What a rule does to such an order. -/
structure MatchRule.ByQuantity (R : MatchRule) (order : OrderEntry) : Prop where
  filled : ∀ {incoming}, Wants order incoming → (R.isFullyFilled incoming = true ↔ incoming.remainingAmount = 0)
  amount : ∀ {incoming resting price}, Wants order incoming →
    R.matchAmount incoming resting price = min incoming.remainingAmount resting.remainingAmount
  goes : ∀ {amount}, 0 < amount → R.breaksAt amount = false
  take : ∀ {incoming amount price}, Wants order incoming → R.take incoming amount price = incoming.fill amount
  report : ∀ {incoming resting price amount}, Wants order incoming →
    R.report incoming resting price amount = order.matched ((price, resting), amount)
  accepts : ∀ price, R.accepts order price = order.crosses price
  nearer : ∀ {price price'}, BTreeMap.Before R.scansBuys price price' → order.crosses price' = true →
    order.crosses price = true

theorem OrderEntry.ForQuantity.isBuy_or {o : OrderEntry} (h : o.ForQuantity) :
    o.orderType = .buy ∨ o.orderType = .sell := by
  rcases h.kind with ⟨-, -, ht⟩ | ⟨-, ht⟩
  · exact ht
  · exact Or.inr ht

theorem OrderEntry.ForQuantity.wants {o : OrderEntry} (h : o.ForQuantity) : Wants o o :=
  ⟨rfl, h.remaining_pos.le, h.budget⟩

/-- A nearer price is within the limit too. -/
theorem OrderEntry.crosses_nearer {o : OrderEntry} {price price' : Decimal}
    (hnearer : if o.isBuy then price ≤ price' else price' ≤ price) (h : o.crosses price' = true) :
    o.crosses price = true := by
  by_cases hlimit : o.orderSide = .limit
  · rw [crosses, if_pos hlimit, Option.any_eq_true] at h
    obtain ⟨limit, hp, h⟩ := h
    rw [crosses, if_pos hlimit, hp, Option.any_some]
    cases hbuy : o.isBuy
    · simp only [hbuy, Bool.false_eq_true, if_false, decide_eq_true_eq] at hnearer h ⊢
      exact h.trans hnearer
    · simp only [hbuy, if_true, decide_eq_true_eq] at hnearer h ⊢
      exact hnearer.trans h
  · rw [crosses, if_neg hlimit]

/-- **Both rules treat an order for a quantity alike.** -/
theorem rule_byQuantity (dv : Decimal → Decimal → Decimal) {order : OrderEntry} (h : order.ForQuantity) :
    (order.rule dv).ByQuantity order := by
  have hfields : ∀ {incoming : OrderEntry}, Wants order incoming → incoming.id = order.id ∧
      incoming.userId = order.userId ∧ incoming.baseMint = order.baseMint ∧ incoming.quoteMint = order.quoteMint := by
    intro incoming hw
    obtain ⟨hid, huser, -, -, hpair, -⟩ := OrderEntry.terms_eq hw.terms
    obtain ⟨hb, hq⟩ := TradingPair.mk.inj hpair
    exact ⟨hid, huser, hb, hq⟩
  rcases h.isBuy_or with ht | ht
  · rw [OrderEntry.rule_buy ht]
    have hlimit : order.orderSide = .limit := by
      rcases h.kind with ⟨hs, -, -⟩ | ⟨-, hs⟩
      · exact hs
      · rw [ht] at hs; cases hs
    refine ⟨fun hw => ?_, fun hw => ?_, fun ha => ?_, fun hw => ?_, fun hw => ?_, fun price => ?_, fun hb hc => ?_⟩
    · simp [buyRule, hw.budget]
    · simp [buyRule, hw.budget]
    · simpa [buyRule] using ha
    · simp [buyRule, hw.budget, OrderEntry.fill]
    · obtain ⟨hid, huser, hb, hq⟩ := hfields hw
      simp [buyRule, OrderEntry.matched, OrderEntry.isBuy, ht, hid, huser, hb, hq]
    · rw [Bool.eq_iff_iff]
      cases hp : order.price <;> simp [buyRule, OrderEntry.crosses, OrderEntry.isBuy, ht, hlimit, hp]
    · exact OrderEntry.crosses_nearer (by rw [OrderEntry.isBuy, ht]; exact (show _ < _ from hb).le) hc
  · rw [OrderEntry.rule_sell ht]
    have hbuy : order.isBuy = false := by simp [OrderEntry.isBuy, ht]
    refine ⟨fun hw => ?_, fun hw => ?_, fun ha => ?_, fun hw => ?_, fun hw => ?_, fun price => ?_, fun hb hc => ?_⟩
    · simp [sellRule]
    · simp [sellRule]
    · simp [sellRule]
    · simp [sellRule, OrderEntry.fill]
    · obtain ⟨hid, huser, hb, hq⟩ := hfields hw
      simp [sellRule, OrderEntry.matched, hbuy, hid, huser, hb, hq]
    · rcases h.kind with ⟨hs, -, -⟩ | ⟨hs, -⟩
      · rw [Bool.eq_iff_iff]
        cases hp : order.price <;> simp [sellRule, OrderEntry.crosses, hbuy, hs, hp]
      · simp [sellRule, OrderEntry.crosses, hs]
    · exact OrderEntry.crosses_nearer (by rw [hbuy]; exact (show _ < _ from hb).le) hc

section ByQuantity

variable {R : MatchRule} {order : OrderEntry} (hR : R.ByQuantity order)

include hR

theorem MatchRule.ByQuantity.accepts_of_wants {incoming : OrderEntry} (hw : Wants order incoming) (price : Decimal) :
    R.accepts incoming price = order.crosses price := by
  rw [← R.accepts_terms, hw.terms, R.accepts_terms, hR.accepts]

theorem MatchRule.ByQuantity.offers {incoming : OrderEntry} (hw : Wants order incoming)
    (xs : List (Decimal × OrderEntry)) : R.offers incoming xs = order.crossing xs := by
  unfold MatchRule.offers OrderEntry.crossing
  simp only [hR.accepts_of_wants hw, (OrderEntry.terms_eq hw.terms).2.1]

section Visit

variable {incoming resting : OrderEntry} {price : Decimal} (hw : Wants order incoming)

include hw

theorem MatchRule.ByQuantity.take_eq : R.take incoming (R.matchAmount incoming resting price) price =
    incoming.fill (min incoming.remainingAmount resting.remainingAmount) := by
  rw [hR.take hw, hR.amount hw]

theorem MatchRule.ByQuantity.amount_pos (hr : 0 < resting.remainingAmount) (hf : R.isFullyFilled incoming = false) :
    0 < R.matchAmount incoming resting price := by
  have hne : incoming.remainingAmount ≠ 0 := fun h₀ => by
    rw [(hR.filled hw).2 h₀] at hf; cases hf
  rw [hR.amount hw]
  exact lt_min (lt_of_le_of_ne hw.remaining_nonneg (Ne.symm hne)) hr

end Visit

/-- **Such an order can be followed by the sweep**, at any prices. -/
theorem MatchRule.ByQuantity.metered : R.Metered (Wants order) fun _ => True where
  take hw _ _ _ _ := by
    rw [hR.take_eq hw]
    exact hw.fill _
  twice hw _ _ _ _ hleft := by
    intro after left hf
    rw [hR.amount hw] at hleft
    have hused := (hR.filled (hw.fill _)).2 (fill_min_of_left hleft)
    rw [← hR.take_eq hw] at hused
    exact absurd hused (by rw [Bool.not_eq_true]; exact hf)
  dust hw _ hr hf hb := by
    rw [hR.goes (hR.amount_pos hw hr hf)] at hb; cases hb
  nearer hw hb ha := by
    rw [hR.accepts_of_wants hw] at ha ⊢
    exact hR.nearer hb ha

/-- The matches along some offers are the greedy ones. -/
theorem MatchRule.ByQuantity.allocate : ∀ (xs : List (Decimal × OrderEntry)) (incoming : OrderEntry),
    Wants order incoming → (∀ x ∈ xs, 0 < x.2.remainingAmount) →
    R.allocate incoming xs = (Greedy.allocate remaining incoming.remainingAmount xs).map order.matched := by
  intro xs
  induction xs with
  | nil => intro _ _ _; rfl
  | cons x xs ih =>
    obtain ⟨price, o⟩ := x
    intro incoming hw hxs
    obtain ⟨ho, hxs⟩ := List.forall_mem_cons.1 hxs
    by_cases hzero : incoming.remainingAmount = 0
    · rw [MatchRule.allocate_of_filled ((hR.filled hw).2 hzero), Greedy.allocate_of_nonpos hzero.le, List.map_nil]
    have hneed : 0 < incoming.remainingAmount := lt_of_le_of_ne hw.remaining_nonneg (Ne.symm hzero)
    have hf : R.isFullyFilled incoming = false := by
      rw [← Bool.not_eq_true, hR.filled hw]; exact hzero
    have hb : R.breaksAt (R.matchAmount incoming o price) = false := hR.goes (hR.amount_pos hw ho hf)
    rw [hR.metered.allocate_cons hw trivial ho hf hb, hR.report hw, hR.take_eq hw,
      Greedy.allocate_cons_of_pos hneed, List.map_cons, hR.amount hw]
    congr 1
    split_ifs with hleft
    · -- nothing is left of the incoming order, so nothing more is matched
      have hnone := fill_min_of_left hleft
      rw [MatchRule.allocate_of_filled ((hR.filled (hw.fill _)).2 hnone),
        Greedy.allocate_of_nonpos (show _ - min _ (remaining (price, o)) ≤ 0 from hnone.le), List.map_nil]
    · exact ih _ (hw.fill _) hxs

/-! ## The orders that are left -/

omit hR in
theorem quotes_left (s : Sweep) :
    quotes s.left = (s.ahead ++ s.passed).map (fun o => (s.price, o)) ++ quotes s.levels := by
  unfold Sweep.left
  split_ifs with h
  · rw [h]; rfl
  · rfl

/-- The other users' quotes, those within the limit first. -/
theorem MatchRule.ByQuantity.foreign_eq {xs : List (Decimal × OrderEntry)}
    (hxs : xs.Pairwise fun x y => x.1 = y.1 ∨ BTreeMap.Before R.scansBuys x.1 y.1) :
    order.foreign xs = order.crossing xs ++ order.beyond xs := by
  induction xs with
  | nil => rfl
  | cons x xs ih =>
    obtain ⟨hx, hxs⟩ := List.pairwise_cons.1 hxs
    by_cases hu : order.userId = x.2.userId
    · simpa [OrderEntry.foreign, OrderEntry.crossing, OrderEntry.beyond, hu] using ih hxs
    cases hc : order.crosses x.1 with
    | true =>
      have := ih hxs
      simp only [OrderEntry.foreign, OrderEntry.crossing, OrderEntry.beyond] at this ⊢
      rw [List.filter_cons_of_pos (by simp [hu]), List.filter_cons_of_pos (by simp [hu, hc]),
        List.filter_cons_of_neg (by simp [hc]), this]
      rfl
    | false =>
      -- no later price crosses
      have hnone : order.crossing xs = [] := by
        refine List.filter_eq_nil_iff.2 fun y hy => ?_
        have hcy : order.crosses y.1 = false := by
          rcases hx y hy with he | hb
          · rw [← he]; exact hc
          · by_contra hcy
            rw [hR.nearer hb (by simpa using hcy)] at hc; cases hc
        simp [hcy]
      have := ih hxs
      rw [hnone, List.nil_append] at this
      have hcross : order.crossing (x :: xs) = [] := by
        rw [OrderEntry.crossing, List.filter_cons_of_neg (by simp [hc])]; exact hnone
      rw [hcross, List.nil_append]
      simp only [OrderEntry.foreign, OrderEntry.beyond] at this ⊢
      rw [List.filter_cons_of_pos (by simp [hu]), List.filter_cons_of_pos (by simp [hu, hc]), this]

/-- What the greedy allocation leaves of the other users' quotes that are ahead of a sweep. -/
def OrderEntry.greedyLeft (order : OrderEntry) (s : Sweep) : List (Decimal × OrderEntry) :=
  Greedy.leftover remaining fillQuote s.incoming.remainingAmount (order.crossing s.quotes) ++ order.beyond s.quotes

section Left

variable {s t : Sweep} (hv : s.Valid R (Wants order) fun _ => True)

include hv

omit hR in
theorem Sweep.Valid.userId_eq : s.incoming.userId = order.userId := (OrderEntry.terms_eq hv.live.terms).2.1

/-- A fill takes what the greedy allocation takes. -/
theorem MatchRule.ByQuantity.greedyLeft_fill {o : OrderEntry} {rest : List OrderEntry}
    (unfilled : R.isFullyFilled s.incoming = false) (ahead : s.ahead = o :: rest) (foreign : order.userId ≠ o.userId) :
    order.greedyLeft (s.fill R (R.matchAmount s.incoming o s.price) o rest) = order.greedyLeft s := by
  have haccepts := (hv.level (Or.inl (by simp [ahead]))).2.1
  rw [hR.accepts_of_wants hv.live] at haccepts
  have hneed : 0 < s.incoming.remainingAmount := by
    refine lt_of_le_of_ne hv.live.remaining_nonneg fun h₀ => ?_
    rw [(hR.filled hv.live).2 h₀.symm] at unfilled
    cases unfilled
  have hhead : ∀ (o' : OrderEntry) (xs : List (Decimal × OrderEntry)), order.userId ≠ o'.userId →
      order.crossing ((s.price, o') :: xs) = (s.price, o') :: order.crossing xs ∧
        order.beyond ((s.price, o') :: xs) = order.beyond xs := fun o' xs ho' =>
    ⟨List.filter_cons_of_pos (by simp [ho', haccepts]), List.filter_cons_of_neg (by simp [haccepts])⟩
  set others := rest.map (fun o => (s.price, o)) ++ quotes s.levels with hothers
  obtain ⟨hc, hb⟩ := hhead o others foreign
  have hincoming : (s.fill R (min s.incoming.remainingAmount o.remainingAmount) o rest).incoming =
      s.incoming.fill (min s.incoming.remainingAmount o.remainingAmount) := hR.take hv.live
  simp only [OrderEntry.greedyLeft, Sweep.quotes_of_ahead ahead, Sweep.quotes_fill, ← hothers, hc, hb, hincoming,
    hR.amount hv.live]
  rcases lt_or_ge s.incoming.remainingAmount (remaining (s.price, o)) with hlt | hge
  · -- the order is cut, and the incoming one used up
    have hzero : (s.incoming.fill s.incoming.remainingAmount).remainingAmount = 0 := sub_self _
    have hleft : 0 < (o.fill s.incoming.remainingAmount).remainingAmount := sub_pos.2 hlt
    obtain ⟨hc', hb'⟩ := hhead (o.fill s.incoming.remainingAmount) others foreign
    rw [Greedy.leftover_cons_of_lt hneed hlt, min_eq_left (show _ ≤ o.remainingAmount from hlt.le), if_pos hleft,
      hzero, Greedy.leftover_of_nonpos le_rfl, hc', hb']
    rfl
  · -- the order is used up
    have hleft : ¬ 0 < (o.fill o.remainingAmount).remainingAmount := by
      rw [OrderEntry.fill, ExactSums.sub_eq, sub_self]
      exact lt_irrefl _
    rw [Greedy.leftover_cons_of_ge hneed hge, min_eq_right (show o.remainingAmount ≤ _ from hge), if_neg hleft]
    rfl

/-- A step leaves the greedy allocation the same to leave. -/
theorem MatchRule.ByQuantity.greedyLeft_next (h : SweepNext R s t) : order.greedyLeft t = order.greedyLeft s := by
  cases h with
  | level unfilled ahead first accepts =>
    simp only [OrderEntry.greedyLeft, Sweep.quotes, ahead, first, quotes_cons, List.map_nil, List.nil_append]
  | pass unfilled ahead own =>
    -- an own order is in neither part
    have hown := hv.userId_eq.symm.trans own
    simp only [OrderEntry.greedyLeft, Sweep.quotes_of_ahead ahead, OrderEntry.crossing, OrderEntry.beyond]
    rw [List.filter_cons_of_neg (by simp [hown]), List.filter_cons_of_neg (by simp [hown])]
    rfl
  | fill unfilled ahead foreign goes =>
    rw [hv.userId_eq] at foreign
    exact hR.greedyLeft_fill hv unfilled ahead foreign

omit hR in
/-- The other users' quotes that are left are those still ahead. -/
theorem Sweep.Valid.foreign_left : order.foreign (CexEngine.quotes s.left) = order.foreign s.quotes := by
  have hpassed : order.foreign (s.passed.map fun o => (s.price, o)) = [] := by
    refine List.filter_eq_nil_iff.2 fun x hx => ?_
    obtain ⟨o, ho, rfl⟩ := List.mem_map.1 hx
    simp [← hv.userId_eq, hv.passed o ho]
  have happend : ∀ xs ys, order.foreign (xs ++ ys) = order.foreign xs ++ order.foreign ys :=
    fun xs ys => List.filter_append ..
  rw [quotes_left, Sweep.quotes, List.map_append, happend, happend, happend, hpassed, List.append_nil]

/-- Where the sweep stops, the greedy allocation stops. -/
theorem MatchRule.ByQuantity.foreign_stop (h : SweepStop R s t) :
    order.foreign (quotes t.left) = order.greedyLeft s := by
  have hsplit := hR.foreign_eq hv.quotes_pairwise
  cases h with
  | filled filled =>
    have hneed := ((hR.filled hv.live).1 filled).le
    rw [hv.foreign_left, hsplit]
    simp only [OrderEntry.greedyLeft, Greedy.leftover_of_nonpos hneed]
  | empty unfilled ahead levels =>
    have hnil : s.quotes = [] := by simp [Sweep.quotes, ahead, levels]
    simp [OrderEntry.greedyLeft, hnil, Sweep.left, ahead, levels, OrderEntry.foreign, OrderEntry.crossing,
      OrderEntry.beyond]
  | limit unfilled ahead first rejects =>
    -- nothing ahead is within the limit
    have hnil := MatchRule.offers_eq_nil (hv.rejects hR.metered.followable ahead first rejects)
    rw [hR.offers hv.live] at hnil
    have hlevels : quotes s.levels = s.quotes := by rw [Sweep.quotes, ahead]; rfl
    rw [quotes_left]
    simp only [ahead, List.append_nil, List.map_nil, List.nil_append]
    rw [hlevels, hsplit]
    simp only [OrderEntry.greedyLeft, hnil, Greedy.leftover_nil]
  | @dust o rest unfilled ahead foreign breaks =>
    have hpos := hv.ahead o (by rw [ahead]; exact List.mem_cons_self)
    rw [hR.goes (hR.amount_pos hv.live hpos unfilled)] at breaks
    cases breaks

/-- **The other users' orders that a sweep leaves** are what the greedy allocation leaves. -/
theorem MatchRule.ByQuantity.sweep_left (h : Exits (sweepBody R) s t) :
    order.foreign (quotes t.left) = order.greedyLeft s := by
  refine sweep_inv hR.metered.followable (I := fun a => order.greedyLeft a = order.greedyLeft s)
    (J := fun t => order.foreign (quotes t.left) = order.greedyLeft s) ?_ ?_ h hv rfl
  · exact fun a b ha hI hab => (hR.greedyLeft_next ha hab).trans hI
  · exact fun a b ha hI hab => (hR.foreign_stop ha hab).trans hI

end Left

/-- The incoming order is filled by what is matched. -/
theorem MatchRule.ByQuantity.incoming_eq (hw : Wants order order) (side : OrderBookSide) :
    (matchAgainst R order side).incoming =
      order.fill (((matchAgainst R order side).results.map MatchResult.amount).sum) := by
  have hfacts : R.Facts (Wants order) (fun _ _ => True) (fun _ => True) := by
    refine ⟨fun hf => ?_, fun _ _ => trivial, fun _ => trivial⟩
    rw [hf.amount_eq, hR.take_eq hf.live]
    exact hf.live.fill _
  refine (matchAgainst_keeps (hfacts.keeps
    (J := fun incoming _ results _ => incoming = order.fill ((results.map MatchResult.amount).sum))
    (fun _ h => h) ?_) ⟨⟨hw, fun _ _ => trivial, fun _ _ => trivial⟩, ?_⟩).2
  · intro incoming price resting others results dropped amount h hf
    have hamount : (R.report incoming resting price amount).amount = amount := by rw [hR.report hf.live]; rfl
    rw [hR.take hf.live, List.map_append, List.sum_append, List.map_singleton, List.sum_singleton, hamount, h]
    simp only [OrderEntry.fill, ExactSums.add_eq, ExactSums.sub_eq, sub_sub, add_assoc]
  · simp [OrderEntry.fill]

end ByQuantity

/-! ## Refinement -/

/-- The resting orders are in levels that are not empty, at their own prices, with something
left. -/
structure OrderBook.WellFormed (book : OrderBook) : Prop where
  nonempty : ∀ buys, (book.side buys).NoEmptyLevel
  priced : ∀ buys, ∀ x ∈ (book.side buys).stock, x.2.price = some x.1
  remaining_pos : ∀ buys, ∀ x ∈ (book.side buys).stock, 0 < x.2.remainingAmount

theorem OrderBook.WellFormed.walkable {book : OrderBook} (h : book.WellFormed) {priced : Decimal → Prop} {buys : Bool}
    (hpriced : ∀ x ∈ (book.side buys).stock, priced x.1) : Walkable buys priced ((book.side buys).levels buys) :=
  (book.side buys).walkable _ (h.nonempty _) fun x hx => ⟨hpriced x hx, h.remaining_pos _ x hx⟩

theorem OrderEntry.ForQuantity.hasRemaining {o : OrderEntry} (h : o.ForQuantity) : o.hasRemaining = true := by
  simpa [OrderEntry.hasRemaining, h.budget] using h.remaining_pos

/-- **The matcher refines the greedy one.** An order for a quantity is matched with the other
users' orders within its limit, best price first and in queue order, each at its price for
the smaller of what the two have left; it is reduced by what is matched in all; and the other
users' orders that are left are the rest of these, then the ones beyond the limit. -/
theorem matchOrder_greedy (dv : Decimal → Decimal → Decimal) (order : OrderEntry) (book : OrderBook)
    (horder : order.ForQuantity) (hbook : book.WellFormed) :
    (matchOrder dv order book).results =
        (Greedy.allocate remaining order.remainingAmount
          (order.crossing ((book.side (!order.isBuy)).quotes (!order.isBuy)))).map order.matched ∧
      (matchOrder dv order book).order =
        order.fill (((matchOrder dv order book).results.map MatchResult.amount).sum) ∧
      order.foreign (((matchOrder dv order book).book.side (!order.isBuy)).quotes (!order.isBuy)) =
        Greedy.leftover remaining fillQuote order.remainingAmount
            (order.crossing ((book.side (!order.isBuy)).quotes (!order.isBuy))) ++
          order.beyond ((book.side (!order.isBuy)).quotes (!order.isBuy)) := by
  obtain ⟨horder', hresults, -, hside, -⟩ := matchOrder_spec dv horder.isBuy_or horder.hasRemaining book
  have hR := rule_byQuantity dv horder
  have hscans : (order.rule dv).scansBuys = !order.isBuy := rule_scansBuys
  have hw : Walkable (order.rule dv).scansBuys (fun _ => True)
      ((book.side (order.rule dv).scansBuys).levels (order.rule dv).scansBuys) := hbook.walkable fun _ _ => trivial
  have hoffers := hR.offers horder.wants
  obtain ⟨t, hsweep, hagrees⟩ := matchAgainst_sweeps hR.metered.followable horder.wants hw
  have hstart : (Sweep.start ((book.side (order.rule dv).scansBuys).levels (order.rule dv).scansBuys) order).quotes =
      (book.side (order.rule dv).scansBuys).quotes (order.rule dv).scansBuys := rfl
  rw [horder', hresults, ← hscans, hside]
  refine ⟨?_, hR.incoming_eq horder.wants _, ?_⟩
  · rw [OrderEntry.matching, matchAgainst_allocates hR.metered horder.wants hw, hoffers, hR.allocate _ _ horder.wants]
    intro x hx
    have hx' := (List.mem_filter.1 hx).1
    exact hbook.remaining_pos _ x (by rw [← OrderBookSide.coe_quotes _ (order.rule dv).scansBuys]; exact hx')
  · rw [OrderBookSide.quotes, OrderEntry.matching, hagrees.levels, hR.sweep_left (.start horder.wants hw) hsweep,
      OrderEntry.greedyLeft, hstart]
    rfl

theorem OrderBook.wellFormed_new (pair : TradingPair) : (OrderBook.new pair).WellFormed := by
  refine ⟨fun buys => ?_, fun buys => ?_, fun buys => ?_⟩ <;> cases buys <;>
    simp [OrderBook.side, OrderBook.new, OrderBookSide.NoEmptyLevel, OrderBookSide.new, OrderBookSide.stock,
      BTreeMap.sumBy]

/-- An order that is added rests on one side, or on none. -/
theorem OrderBook.side_addOrder_or (book : OrderBook) (order : OrderEntry) (buys : Bool) :
    (book.addOrder order).side buys = book.side buys ∨
      (book.addOrder order).side buys = (book.side buys).addOrder order := by
  unfold OrderBook.addOrder
  cases order.orderType <;> cases buys <;> simp [OrderBook.side]

theorem OrderBook.mem_stock_addOrder {book : OrderBook} {order : OrderEntry} {price : Decimal}
    (hp : order.price = some price) {buys : Bool} {x : Decimal × OrderEntry}
    (hx : x ∈ ((book.addOrder order).side buys).stock) : x = (price, order) ∨ x ∈ (book.side buys).stock := by
  rcases book.side_addOrder_or order buys with he | he
  · rw [he] at hx; exact Or.inr hx
  · rw [he, OrderBookSide.stock_addOrder hp] at hx
    exact Multiset.mem_cons.1 hx

theorem OrderBook.WellFormed.addOrder {book : OrderBook} (h : book.WellFormed) {order : OrderEntry} {price : Decimal}
    (hp : order.price = some price) (hr : 0 < order.remainingAmount) : (book.addOrder order).WellFormed := by
  refine ⟨fun buys => ?_, fun buys x hx => ?_, fun buys x hx => ?_⟩
  · rcases book.side_addOrder_or order buys with he | he
    · rw [he]; exact h.nonempty buys
    · rw [he]; exact (h.nonempty buys).addOrder _
  · rcases OrderBook.mem_stock_addOrder hp hx with rfl | hx
    · exact hp
    · exact h.priced buys x hx
  · rcases OrderBook.mem_stock_addOrder hp hx with rfl | hx
    · exact hr
    · exact h.remaining_pos buys x hx

/-- Two asks of other users within the limit and, between them, one of the order's own user. -/
theorem matchOrder_greedy_buy :
    (matchOrder (· / ·) (limitOrder 4 1 .buy 12 4)
        ((((OrderBook.new solUsdt).addOrder (limitOrder 1 2 .sell 10 3)).addOrder
          (limitOrder 2 1 .sell 11 5)).addOrder (limitOrder 3 3 .sell 12 2))).results =
      [(limitOrder 4 1 .buy 12 4).matched ((10, limitOrder 1 2 .sell 10 3), 3),
        (limitOrder 4 1 .buy 12 4).matched ((12, limitOrder 3 3 .sell 12 2), 1)] :=
  ((matchOrder_greedy (· / ·) (limitOrder 4 1 .buy 12 4)
    ((((OrderBook.new solUsdt).addOrder (limitOrder 1 2 .sell 10 3)).addOrder
      (limitOrder 2 1 .sell 11 5)).addOrder (limitOrder 3 3 .sell 12 2))
    ⟨Or.inl ⟨rfl, rfl, Or.inl rfl⟩, by norm_num [limitOrder], rfl⟩
    ((((OrderBook.wellFormed_new solUsdt).addOrder rfl (by norm_num [limitOrder])).addOrder rfl
      (by norm_num [limitOrder])).addOrder rfl (by norm_num [limitOrder]))).1).trans (by decide +kernel)

end CexEngine
