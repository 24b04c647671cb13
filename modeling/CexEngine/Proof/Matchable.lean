import CexEngine.Proof.Offers
import CexEngine.Proof.Panics
import CexEngine.Proof.Decimals
import CexEngine.Proof.Settlement

/-!
# Matching values that fit

`process_submit_order` panics when a value does not fit. When do the values of the matching?

* `OrderEntry.Fits`: the condition, on an order and the state it meets.
* `matching_safe`: then no match panics, whatever the order meets on its way.
* `matchAndRest_fits`: **nor does the matching.**
-/

namespace CexEngine

open Grid

variable {dv : Decimal → Decimal → Decimal} {s : Engine} {order : OrderEntry}

theorem maxValue_nonneg : 0 ≤ maxValue := by norm_num [maxValue]

/-! ## The division -/

/-- The division of `rust_decimal` as assumed: a quotient that fits is rounded to a value that
fits, at the 28th fractional or the 28th significant digit. -/
structure RoundsInRange (dv : Decimal → Decimal → Decimal) : Prop where
  nonneg : ∀ {a b : Decimal}, 0 ≤ a → 0 < b → a ≤ b * maxValue → 0 ≤ dv a b
  fits : ∀ {a b : Decimal}, 0 ≤ a → 0 < b → a ≤ b * maxValue → dv a b ≤ maxValue
  near : ∀ {a b : Decimal}, 0 ≤ a → 0 < b → a ≤ b * maxValue → dv a b ≤ a / b + (1 / 2 + 5 * (a / b)) * ulp

theorem decimalDiv_inRange : RoundsInRange decimalDiv where
  nonneg ha hb _ := decimalDiv_roundsToDecimal.nonneg ha hb
  fits ha hb hle := decimalDiv_roundsToDecimal.le ha hb ⟨0, by norm_num, 2 ^ 96 - 1, by norm_num [maxValue], Or.inl rfl⟩ hle
  near ha hb _ := toDecimal_le_add (div_nonneg ha hb.le)

/-- What a quotient costs. -/
theorem RoundsInRange.cost (hdv : RoundsInRange dv) {q p : Decimal} (hq : 0 ≤ q) (hp : 0 < p)
    (hle : q ≤ p * maxValue) : p * dv q p ≤ q + (p / 2 + 5 * q) * ulp := by
  have hnear := mul_le_mul_of_nonneg_left (hdv.near hq hp hle) hp.le
  have hmul : p * (q / p) = q := mul_div_cancel₀ q hp.ne'
  calc p * dv q p ≤ p * (q / p + (1 / 2 + 5 * (q / p)) * ulp) := hnear
    _ = p * (q / p) + (p / 2 + 5 * (p * (q / p))) * ulp := by ring
    _ = q + (p / 2 + 5 * q) * ulp := by rw [hmul]

/-! ## The condition -/

/-- What the other users' orders that an order meets reserve in all. -/
def Engine.offered (s : Engine) (order : OrderEntry) : Decimal :=
  ((order.foreign (s.opposite order)).map fun x => x.2.unlock.2).sum

/-- The budget of a market buy, divided by a price, fits, and so does what the rounded quotient
costs. -/
def OrderEntry.BudgetFits (order : OrderEntry) (price : Decimal) : Prop :=
  ∀ budget, order.quoteAmount = some budget →
    budget ≤ price * maxValue ∧ budget + (price / 2 + 5 * budget) * ulp ≤ maxValue

/-- All there is of the order's mints fits, what it meets fits, and its budget fits at every
price that it meets. -/
structure OrderEntry.Fits (s : Engine) (order : OrderEntry) : Prop where
  base : s.balanceCache.supply order.baseMint ≤ maxValue
  quote : s.balanceCache.supply order.quoteMint ≤ maxValue
  offered : s.offered order ≤ maxValue
  budget : ∀ x ∈ order.foreign (s.opposite order), order.BudgetFits x.1

/-- The quantities of the resting orders fit. -/
def Engine.Sized (s : Engine) : Prop := s.AllOrders fun _ _ _ o => 0 ≤ o.filledAmount ∧ o.amount ≤ maxValue

/-! ## Matches -/

/-- An incoming order whose quantities add up from zero, and whose budget only shrinks. -/
structure SizedLive (order incoming : OrderEntry) : Prop extends Live order incoming where
  filled_nonneg : 0 ≤ incoming.filledAmount
  budget_le : ∀ q, incoming.remainingQuoteAmount = some q → q ≤ order.quoteAmount.getD 0
  bought : incoming.remainingQuoteAmount.isSome → incoming.amount = incoming.filledAmount

/-- A resting order whose quantities fit, at a price with `good` if it is another user's. -/
structure SizedRests (good : Decimal → Prop) (order : OrderEntry) (buys : Bool) (p : Decimal) (o : OrderEntry) :
    Prop extends Rests buys order.pair p o where
  filled_nonneg : 0 ≤ o.filledAmount
  amount_le : o.amount ≤ maxValue
  good : order.userId ≠ o.userId → good p

theorem OrderEntry.Kind.filled_zero (hk : order.Kind) : order.filledAmount = 0 := by
  cases hk with
  | limitBuy _ _ _ _ _ h => exact h.filled
  | limitSell _ _ _ _ _ h => exact h.filled
  | marketSell _ _ _ h => exact h.filled
  | marketBuy _ _ _ _ _ _ _ _ _ h => exact h

theorem OrderEntry.Kind.sizedLive (hk : order.Kind) : SizedLive order order := by
  refine ⟨hk.live, hk.filled_zero.ge, ?_, ?_⟩
  · intro q hq
    cases hk with
    | limitBuy _ _ _ _ _ h => rw [h.budget] at hq; cases hq
    | limitSell _ _ _ _ _ h => rw [h.budget] at hq; cases hq
    | marketSell _ _ _ h => rw [h.budget] at hq; cases hq
    | marketBuy _ _ _ _ _ hquote hr => rw [hquote, ← hr, hq, Option.getD_some]
  · intro hb
    cases hk with
    | limitBuy _ _ _ _ _ h => rw [h.budget] at hb; cases hb
    | limitSell _ _ _ _ _ h => rw [h.budget] at hb; cases hb
    | marketSell _ _ _ h => rw [h.budget] at hb; cases hb
    | marketBuy _ _ _ _ _ _ _ ha _ hf => rw [ha, hf]

section Fills

variable {good : Decimal → Prop} {buys : Bool} {incoming resting : OrderEntry} {price amount : Decimal}

theorem SizedLive.fills (hf : (order.rule dv).Fills (SizedLive order) (SizedRests good order buys) incoming price
    resting amount) : (order.rule dv).Fills (Live order) (Rests buys order.pair) incoming price resting amount :=
  hf.imp (fun _ h => h.toLive) fun _ _ h => h.toRests

/-- What a fill does to the incoming order's quantities. -/
theorem fill_quantities (hk : order.Kind)
    (hf : (order.rule dv).Fills (SizedLive order) (SizedRests good order buys) incoming price resting amount) :
    ((order.rule dv).take incoming amount price).filledAmount = incoming.filledAmount + amount := by
  rcases fill_amount hk (SizedLive.fills hf) with ⟨hn, -⟩ | ⟨ht, -, q, hq, -⟩
  · rw [fill_take hk (hf.live.budget_none.1 hn) (SizedLive.fills hf)]
    exact ExactSums.add_eq _ _
  · simp [OrderEntry.rule_buy ht, buyRule, hq]

theorem sized_facts (dv : Decimal → Decimal → Decimal) (hk : order.Kind) (good : Decimal → Prop) (buys : Bool) :
    (order.rule dv).Facts (SizedLive order) (SizedRests good order buys)
      ((order.rule dv).IsFill (SizedLive order) (SizedRests good order buys)) := by
  have hpos : ∀ {incoming price resting amount},
      (order.rule dv).Fills (SizedLive order) (SizedRests good order buys) incoming price resting amount → 0 < amount :=
    fun hf => fill_amount_pos hk hf.rests.remaining_pos (SizedLive.fills hf)
  refine ⟨fun {incoming price resting amount} hf => ⟨fill_live hk (SizedLive.fills hf), ?_, ?_, ?_⟩,
    fun hf hleft => ⟨hf.rests.fill _ hleft, ?_, hf.rests.amount_le, hf.rests.good⟩, fun hf => ⟨_, _, _, _, hf, rfl⟩⟩
  · rw [fill_quantities hk hf]
    exact add_nonneg hf.live.filled_nonneg (hpos hf).le
  · intro q hq
    rcases fill_amount hk (SizedLive.fills hf) with ⟨hn, -⟩ | ⟨ht, -, r, hr, -⟩
    · rw [(fill_live hk (SizedLive.fills hf)).budget_none.2 (hf.live.budget_none.1 hn)] at hq
      cases hq
    · simp only [OrderEntry.rule_buy ht, buyRule, hr, Option.some.injEq, exact_mul, ExactSums.sub_eq] at hq
      have := mul_pos (hpos hf) hf.rests.price_pos
      have := hf.live.budget_le r hr
      linarith
  · intro hb
    rcases fill_amount hk (SizedLive.fills hf) with ⟨hn, -⟩ | ⟨ht, -, r, hr, -⟩
    · rw [(fill_live hk (SizedLive.fills hf)).budget_none.2 (hf.live.budget_none.1 hn)] at hb
      cases hb
    · have := hf.live.bought (by rw [hr]; rfl)
      simp [OrderEntry.rule_buy ht, buyRule, hr, this]
  · exact add_nonneg hf.rests.filled_nonneg (hpos hf).le

end Fills

/-- The rule of an order with the operations that may panic. -/
def OrderEntry.checkedRule (dv : Decimal → Decimal → Decimal) (o : OrderEntry) : Checked.Rule where
  rule := o.rule dv
  accepts := if o.orderType = .buy then (Checked.buyRule dv).accepts else Checked.sellRule.accepts
  matchAmount := if o.orderType = .buy then (Checked.buyRule dv).matchAmount else Checked.sellRule.matchAmount
  take := if o.orderType = .buy then (Checked.buyRule dv).take else Checked.sellRule.take

/-- What an order of another user has left. -/
def OrderEntry.foreignRemaining (order o : OrderEntry) : Decimal :=
  if order.userId = o.userId then 0 else o.remainingAmount

/-- What a market buy has bought, and what is left to buy, fits. -/
def RoomLeft (order incoming : OrderEntry) (stock : Multiset (Decimal × OrderEntry)) : Prop :=
  order.remainingQuoteAmount.isSome →
    incoming.filledAmount + (stock.map fun x => order.foreignRemaining x.2).sum ≤ maxValue

/-- What holds while an order that fits is matched. -/
def FitsAt (dv : Decimal → Decimal → Decimal) (order incoming : OrderEntry) (stock : Multiset (Decimal × OrderEntry))
    (results : List MatchResult) : Prop :=
  FactsAt (SizedLive order) (SizedRests order.BudgetFits order (order.rule dv).scansBuys)
      ((order.rule dv).IsFill (SizedLive order) (SizedRests order.BudgetFits order (order.rule dv).scansBuys))
      incoming stock results ∧
    RoomLeft order incoming stock

theorem OrderEntry.foreignRemaining_nonneg {good : Decimal → Prop} {buys : Bool} {p : Decimal} {o : OrderEntry}
    (h : SizedRests good order buys p o) : 0 ≤ order.foreignRemaining o := by
  unfold foreignRemaining
  split_ifs
  · exact le_rfl
  · exact h.remaining_pos.le

/-- **Matching keeps it.** -/
theorem fitsAt_keeps (dv : Decimal → Decimal → Decimal) (hk : order.Kind) :
    (order.rule dv).Keeps fun incoming stock results _ => FitsAt dv order incoming stock results := by
  refine (sized_facts dv hk order.BudgetFits (order.rule dv).scansBuys).keeps
    (J := fun incoming stock _ _ => RoomLeft order incoming stock) ?_ ?_
  · intro incoming price resting others results dropped hr h hb
    have := OrderEntry.foreignRemaining_nonneg hr
    have := h hb
    rw [Multiset.map_cons, Multiset.sum_cons] at this
    linarith
  · intro incoming price resting others results dropped amount h hf hb
    have hu : order.userId ≠ resting.userId := fun he =>
      hf.foreign ((OrderEntry.terms_eq hf.live.terms).2.1.trans he)
    have hbefore := h hb
    have hle := fill_amount_le hk (SizedLive.fills hf)
    have hweight : order.foreignRemaining resting = resting.remainingAmount := if_neg hu
    have hfilled : order.foreignRemaining (resting.fill amount) = resting.remainingAmount - amount := if_neg hu
    rw [Multiset.map_cons, Multiset.sum_cons, hweight] at hbefore
    rw [fill_quantities hk hf]
    split_ifs
    · rw [Multiset.map_cons, Multiset.sum_cons, hfilled]
      linarith
    · linarith

theorem OrderEntry.Kind.limit_price (hk : order.Kind) (hs : order.orderSide = .limit) : ∃ p, order.price = some p := by
  cases hk with
  | limitBuy p _ _ hp => exact ⟨p, hp⟩
  | limitSell p _ _ hp => exact ⟨p, hp⟩
  | marketSell _ h => rw [h] at hs; cases hs
  | marketBuy _ _ h => rw [h] at hs; cases hs

/-- The price of a limit order is there when it is read. -/
theorem accepts_eq (dv : Decimal → Decimal → Decimal) (hk : order.Kind) {incoming : OrderEntry}
    (hl : Live order incoming) (price : Decimal) :
    (order.checkedRule dv).accepts incoming price = some ((order.rule dv).accepts incoming price) := by
  obtain ⟨-, -, -, hside, -, hprice⟩ := OrderEntry.terms_eq hl.terms
  have hlimit : incoming.orderSide = .limit → ∃ p, incoming.price = some p := by
    rw [hside, hprice]
    exact hk.limit_price
  rcases hk.isBuy_or with ht | ht
  · simp only [OrderEntry.checkedRule, OrderEntry.rule_buy ht, ht, if_true, Checked.buyRule, buyRule]
    split_ifs with hs
    · obtain ⟨p, hp⟩ := hlimit hs
      simp [hp]
    · rfl
  · simp only [OrderEntry.checkedRule, OrderEntry.rule_sell ht, ht, reduceCtorEq, if_false, Checked.sellRule, sellRule]
    split_ifs with hs
    · obtain ⟨p, hp⟩ := hlimit hs
      simp [hp]
    · rfl

/-- Filling an order whose quantities add up to a value that fits. -/
theorem fill_eq {o : OrderEntry} {amount : Decimal} (h₀ : 0 ≤ amount) (hle : amount ≤ o.remainingAmount)
    (hfilled : 0 ≤ o.filledAmount) (hsum : o.filledAmount + o.remainingAmount = o.amount)
    (hamount : o.amount ≤ maxValue) : Checked.fill o amount = some (o.fill amount) := by
  unfold Checked.fill
  rw [ExactSums.sub_eq, ExactSums.add_eq, Checked.value_of_le (by linarith) (by linarith),
    Checked.value_of_le (by linarith) (by linarith)]
  rfl

/-- The quotient of a budget that fits. -/
theorem quotient_eq (hdv : RoundsInRange dv) {q p : Decimal} (hq : 0 ≤ q) (hp : 0 < p) (hle : q ≤ p * maxValue) :
    Checked.div dv q p = some (dv q p) := by
  unfold Checked.div
  rw [if_neg hp.ne', Checked.value_of_le (hdv.nonneg hq hp hle) (hdv.fits hq hp hle)]

/-- What is left of a budget fits at the prices at which it did. -/
theorem budget_left (hk : order.Kind) {buys : Bool} {incoming resting : OrderEntry} {price q : Decimal}
    (hl : SizedLive order incoming) (hr : SizedRests order.BudgetFits order buys price resting)
    (hu : incoming.userId ≠ resting.userId) (hq : incoming.remainingQuoteAmount = some q) :
    q ≤ price * maxValue ∧ q + (price / 2 + 5 * q) * ulp ≤ maxValue := by
  have huser := (OrderEntry.terms_eq hl.terms).2.1
  obtain ⟨budget, hbudget⟩ : ∃ b, order.quoteAmount = some b := by
    have hb := hl.budget
    rw [hq] at hb
    cases hk with
    | limitBuy _ _ _ _ _ h => rw [h.budget] at hb; cases hb
    | limitSell _ _ _ _ _ h => rw [h.budget] at hb; cases hb
    | marketSell _ _ _ h => rw [h.budget] at hb; cases hb
    | marketBuy b _ _ _ _ hquote => exact ⟨b, hquote⟩
  obtain ⟨h₁, h₂⟩ := hr.good (fun he => hu (huser.trans he)) budget hbudget
  have hle := hl.budget_le q hq
  rw [hbudget, Option.getD_some] at hle
  have := mul_le_mul_of_nonneg_right hle ulp_pos.le
  exact ⟨hle.trans h₁, by linarith⟩

section Safe

variable (hdv : RoundsInRange dv) (hk : order.Kind) {buys : Bool} {incoming resting : OrderEntry} {price amount : Decimal}

include hdv hk

/-- What a fill of a market buy costs fits. -/
theorem fill_cost_le (hf : (order.rule dv).Fills (SizedLive order) (SizedRests order.BudgetFits order buys) incoming
    price resting amount) (hb : incoming.remainingQuoteAmount.isSome) : price * amount ≤ maxValue := by
  rcases fill_amount hk (SizedLive.fills hf) with ⟨hn, -⟩ | ⟨-, -, q, hq, hpos, ha⟩
  · rw [hn] at hb; cases hb
  have hp := hf.rests.price_pos
  have hmost : amount ≤ dv q price := by rw [ha]; exact min_le_left _ _
  obtain ⟨hfits, hleft⟩ := budget_left hk hf.live hf.rests hf.foreign hq
  calc price * amount ≤ price * dv q price := mul_le_mul_of_nonneg_left hmost hp.le
    _ ≤ q + (price / 2 + 5 * q) * ulp := hdv.cost hpos.le hp hfits
    _ ≤ maxValue := hleft

/-- The quotient is computed before it is known to buy anything. -/
theorem matchAmount_eq (hl : SizedLive order incoming) (hr : SizedRests order.BudgetFits order buys price resting)
    (hu : incoming.userId ≠ resting.userId) (hf : (order.rule dv).isFullyFilled incoming = false) :
    (order.checkedRule dv).matchAmount incoming resting price =
      some ((order.rule dv).matchAmount incoming resting price) := by
  rcases hk.isBuy_or with ht | ht
  · simp only [OrderEntry.checkedRule, OrderEntry.rule_buy ht, ht, if_true, Checked.buyRule, buyRule] at hf ⊢
    cases hq : incoming.remainingQuoteAmount with
    | none => rfl
    | some q =>
      have hpos : 0 < q := by simpa [hq] using hf
      dsimp only
      rw [quotient_eq hdv hpos.le hr.price_pos (budget_left hk hl hr hu hq).1]
      rfl
  · simp only [OrderEntry.checkedRule, OrderEntry.rule_sell ht, ht, reduceCtorEq, if_false, Checked.sellRule, sellRule]

/-- What a fill does to the incoming order. -/
theorem take_eq (hamount : order.amount ≤ maxValue)
    (hf : (order.rule dv).Fills (SizedLive order) (SizedRests order.BudgetFits order buys) incoming price resting
      amount)
    (hroom : incoming.remainingQuoteAmount.isSome → incoming.filledAmount + amount ≤ maxValue) :
    (order.checkedRule dv).take incoming amount price = some ((order.rule dv).take incoming amount price) := by
  have hpos := fill_amount_pos hk hf.rests.remaining_pos (SizedLive.fills hf)
  have hfilled := hf.live.filled_nonneg
  rcases fill_amount hk (SizedLive.fills hf) with ⟨hn, -, ha⟩ | ⟨ht, -, q, hq, hqpos, -⟩
  -- by quantity: the fill is within the amount
  · have htake := fill_take hk (hf.live.budget_none.1 hn) (SizedLive.fills hf)
    obtain ⟨-, hsum, htotal⟩ := hf.live.quantity hn
    have hfill := fill_eq (o := incoming) hpos.le (by rw [ha]; exact min_le_left _ _) hfilled (hsum inferInstance)
      (by rw [htotal]; exact hamount)
    rw [htake]
    rcases hk.isBuy_or with ht | ht
    · have hbuy : (Checked.buyRule dv).take incoming amount price = Checked.fill incoming amount := by
        simp only [Checked.buyRule, hn]
      simp only [OrderEntry.checkedRule, ht, if_true, hbuy]
      exact hfill
    · simp only [OrderEntry.checkedRule, ht, reduceCtorEq, if_false, Checked.sellRule]
      exact hfill
  -- by budget: the cost and what is bought are bounded one by one
  · have hsome : incoming.remainingQuoteAmount.isSome := by rw [hq]; rfl
    have hbought := hf.live.bought hsome
    have hsum := hroom hsome
    have hcost := fill_cost_le hdv hk hf hsome
    have hcost₀ := (mul_pos hf.rests.price_pos hpos).le
    have hleft := (budget_left hk hf.live hf.rests hf.foreign hq).2
    have hround : 0 ≤ (price / 2 + 5 * q) * ulp :=
      mul_nonneg (by linarith [hf.rests.price_pos]) ulp_pos.le
    simp only [OrderEntry.checkedRule, OrderEntry.rule_buy ht, ht, if_true, Checked.buyRule, buyRule, hq, exact_mul,
      ExactSums.add_eq, ExactSums.sub_eq]
    rw [mul_comm amount price, Checked.value_of_le hcost₀ hcost]
    dsimp only [Option.bind_eq_bind, Option.bind_some]
    rw [Checked.value_sub hqpos.le (by linarith) hcost₀ hcost]
    dsimp only [Option.bind_some]
    rw [hbought, Checked.value_of_le (by linarith) hsum]
    dsimp only [Option.bind_some]
    rw [Checked.value_sub (by linarith) hsum (by linarith) hsum]
    rfl

/-- **No match panics.** -/
theorem matching_safe (hamount : order.amount ≤ maxValue) :
    (order.checkedRule dv).Safe fun incoming stock results _ => FitsAt dv order incoming stock results := by
  refine ⟨fun h price => accepts_eq dv hk h.1.live.toLive price, ?_, ?_⟩
  · intro incoming price resting others results dropped h hf _ hu
    exact matchAmount_eq hdv hk h.1.live (h.1.stock _ (Multiset.mem_cons_self _ _)) hu hf
  · intro incoming price resting others results dropped amount h hf ha hu he hb
    have hfills := h.1.fills hf ha hu he hb
    have hr := hfills.rests
    have hle := fill_amount_le hk (SizedLive.fills hfills)
    have hpos := fill_amount_pos hk hr.remaining_pos (SizedLive.fills hfills)
    refine ⟨take_eq hdv hk hamount hfills fun hsome => ?_,
      fill_eq hpos.le hle hr.filled_nonneg (hr.adds_up inferInstance) hr.amount_le⟩
    -- what is bought is part of what other users have left
    have hroom := h.2 (by rw [← hfills.live.budget]; exact hsome)
    have hweight : order.foreignRemaining resting = resting.remainingAmount :=
      if_neg fun hu' => hu ((OrderEntry.terms_eq hfills.live.terms).2.1.trans hu')
    have hothers : 0 ≤ (others.map fun x => order.foreignRemaining x.2).sum := by
      refine Multiset.sum_nonneg (Multiset.forall_mem_map_iff.2 fun x hx => ?_)
      exact OrderEntry.foreignRemaining_nonneg (h.1.stock x (Multiset.mem_cons_of_mem hx))
    rw [Multiset.map_cons, Multiset.sum_cons, hweight] at hroom
    linarith

end Safe

/-! ## The matching of a submit -/

theorem checkedRule_buy (ht : order.orderType = .buy) : order.checkedRule dv = Checked.buyRule dv := by
  simp [OrderEntry.checkedRule, OrderEntry.rule_buy ht, ht, Checked.buyRule]

theorem checkedRule_sell (ht : order.orderType = .sell) : order.checkedRule dv = Checked.sellRule := by
  simp [OrderEntry.checkedRule, OrderEntry.rule_sell ht, ht, Checked.sellRule]

/-- What other users' orders weigh. -/
theorem sum_foreign (s : Engine) (order : OrderEntry) (w : OrderEntry → Decimal) :
    (((s.orderbook order.pair).side (!order.isBuy)).stock.map
        fun x => if order.userId = x.2.userId then 0 else w x.2).sum =
      ((order.foreign (s.opposite order)).map fun x => w x.2).sum := by
  have hlist : ∀ xs : List (Decimal × OrderEntry),
      (xs.map fun x => if order.userId = x.2.userId then 0 else w x.2).sum =
        ((order.foreign xs).map fun x => w x.2).sum := by
    intro xs
    unfold OrderEntry.foreign
    induction xs with
    | nil => rfl
    | cons x xs ih =>
      rw [List.map_cons, List.sum_cons, ih]
      by_cases hu : order.userId = x.2.userId
      · rw [if_pos hu, zero_add, List.filter_cons_of_neg (by simpa using hu)]
      · rw [if_neg hu, List.filter_cons_of_pos (by simpa using hu), List.map_cons, List.sum_cons]
  rw [← OrderBookSide.coe_quotes _ (!order.isBuy), Multiset.map_coe, Multiset.sum_coe]
  exact hlist _

section Submit

variable (hdv : RoundsInRange dv) (hk : order.Kind) (hamount : order.amount ≤ maxValue) (hplaced : s.Placed)
  (hsized : s.Sized) (hfits : order.Fits s)

include hk hplaced hsized hfits

/-- It holds when the matching begins. -/
theorem fitsAt_start (dv : Decimal → Decimal → Decimal) :
    FitsAt dv order order ((s.orderbook order.pair).side (order.rule dv).scansBuys).stock [] := by
  refine ⟨⟨hk.sizedLive, fun x hx => ?_, by simp⟩, fun hb => ?_⟩
  · obtain ⟨hfilled, hle⟩ := hsized order.pair _ x hx
    refine ⟨hplaced order.pair _ x hx, hfilled, hle, fun hu => hfits.budget x (List.mem_filter.2 ⟨?_, by simpa using hu⟩)⟩
    rw [rule_scansBuys] at hx
    exact mem_opposite.2 hx
  · have ht : order.orderType = .buy := by
      rcases hk.isBuy_or with ht | ht
      · exact ht
      · rw [hk.sell_budget ht] at hb; cases hb
    have hoffered := hfits.offered
    rw [Engine.offered, ← sum_foreign s order fun o => o.unlock.2] at hoffered
    rw [hk.filled_zero, zero_add, rule_scansBuys]
    refine le_of_eq_of_le (congrArg _ (Multiset.map_congr rfl fun x hx => ?_)) hoffered
    -- a resting sell reserves what it has left
    have htype := (hplaced order.pair _ x hx).type
    simp only [OrderEntry.isBuy, ht, decide_true, Bool.not_true, sideType, Bool.false_eq_true, if_false] at htype
    simp [OrderEntry.foreignRemaining, OrderEntry.unlock, htype]

include hdv hamount

theorem matching_fits : Checked.matchAgainst (order.checkedRule dv) order
    ((s.orderbook order.pair).side (order.rule dv).scansBuys) = some (order.matching dv (s.orderbook order.pair)) :=
  Checked.matchAgainst_eq (fitsAt_keeps dv hk) (matching_safe hdv hk hamount) (fitsAt_start hk hplaced hsized hfits dv)

theorem matchOrder_fits :
    Checked.matchOrder dv order (s.orderbook order.pair) = some (matchOrder dv order (s.orderbook order.pair)) := by
  have hmatching := matching_fits hdv hk hamount hplaced hsized hfits
  unfold Checked.matchOrder matchOrder
  rw [hk.hasRemaining, if_pos rfl, if_pos rfl]
  rcases hk.isBuy_or with ht | ht
  · rw [checkedRule_buy ht, OrderEntry.matching, OrderEntry.rule_buy ht] at hmatching
    change Checked.matchAgainst (Checked.buyRule dv) order (s.orderbook order.pair).sellOrders = _ at hmatching
    rw [ht]
    dsimp only
    rw [Checked.matchBuyOrder, hmatching]
    rfl
  · rw [checkedRule_sell ht, OrderEntry.matching, OrderEntry.rule_sell ht] at hmatching
    change Checked.matchAgainst Checked.sellRule order (s.orderbook order.pair).buyOrders = _ at hmatching
    rw [ht]
    dsimp only
    rw [Checked.matchSellOrder, hmatching]
    rfl

/-- **The matching does not panic.** -/
theorem matchAndRest_fits : Checked.matchAndRest dv order (s.orderbook order.pair) =
    some (matchAndRest dv order (s.orderbook order.pair)) := by
  have hterms := OrderEntry.terms_eq (matchAgainst_terms (order.rule dv) order
    ((s.orderbook order.pair).side (order.rule dv).scansBuys))
  obtain ⟨-, -, htype, hside, -, hprice⟩ := hterms
  have horder := (matchOrder_spec dv hk.isBuy_or hk.hasRemaining (s.orderbook order.pair)).1
  rw [OrderEntry.matching] at horder
  unfold Checked.matchAndRest matchAndRest
  rw [matchOrder_fits hdv hk hamount hplaced hsized hfits]
  dsimp only [Option.bind_eq_bind, Option.bind_some]
  split_ifs with hs hr
  · rw [horder, hside] at hs
    obtain ⟨p, hp⟩ := hk.limit_price hs
    rw [← horder] at hprice htype
    unfold Checked.addOrder
    rcases hk.isBuy_or with ht | ht
    · rw [htype, ht, hprice, hp]
      rfl
    · rw [htype, ht, hprice, hp]
      rfl
  · rfl
  · rfl

end Submit

end CexEngine
