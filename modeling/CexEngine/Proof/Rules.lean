import CexEngine.Proof.Submit

/-!
# Fills under the two rules

A fill of an admitted order, in the words both rules share.

* `Live`: what an incoming order stays while it is matched.
* `fill_amount_nonneg`, `fill_amount_pos`, `fill_amount_le`: the amount of a fill.
* `rule_facts`: the facts of a call, every match being the report of a fill.
* `Rests`: what an order resting in the book of a pair is; fills keep it.
* `makerDebit`, `takerDebit`: a match debits the resting order's owner by what the order's
  requirement drops (`maker_conserves`) and the incoming order's owner within the limit.
-/

namespace CexEngine

section Rounded

variable [Arithmetic] {dv : Decimal → Decimal → Decimal}

/-- What an order that is matched stays: the same but for its quantities, which add up if no sum
is rounded. -/
structure Live (order incoming : OrderEntry) : Prop where
  terms : incoming.terms = order.terms
  budget : incoming.remainingQuoteAmount.isSome = order.remainingQuoteAmount.isSome
  quantity : incoming.remainingQuoteAmount = none → 0 ≤ incoming.remainingAmount ∧
    (ExactSums → incoming.filledAmount + incoming.remainingAmount = incoming.amount) ∧ incoming.amount = order.amount

theorem Live.budget_none {order incoming : OrderEntry} (h : Live order incoming) :
    incoming.remainingQuoteAmount = none ↔ order.remainingQuoteAmount = none := by
  rw [← Option.isNone_iff_eq_none, ← Option.isNone_iff_eq_none, ← Option.not_isSome, ← Option.not_isSome, h.budget]

theorem OrderEntry.Quantity.live {order : OrderEntry} (h : order.Quantity) : Live order order :=
  ⟨rfl, rfl, fun _ => ⟨h.remaining_pos.le, fun _ => by rw [h.filled, h.amount, zero_add], rfl⟩⟩

theorem OrderEntry.Kind.live {order : OrderEntry} (hk : order.Kind) : Live order order := by
  cases hk with
  | limitBuy _ _ _ _ _ hq => exact hq.live
  | limitSell _ _ _ _ _ hq => exact hq.live
  | marketSell _ _ _ hq => exact hq.live
  | marketBuy _ _ _ _ _ _ hr => exact ⟨rfl, rfl, fun hn => by rw [hr] at hn; cases hn⟩

omit [Arithmetic] in
/-- A sell order has no budget. -/
theorem OrderEntry.Kind.sell_budget {order : OrderEntry} (hk : order.Kind) (ht : order.orderType = .sell) :
    order.remainingQuoteAmount = none := by
  cases hk with
  | limitBuy _ _ _ _ _ hq => exact hq.budget
  | limitSell _ _ _ _ _ hq => exact hq.budget
  | marketSell _ _ _ hq => exact hq.budget
  | marketBuy _ hb => rw [hb] at ht; cases ht

section Fills

variable {P : Decimal → OrderEntry → Prop} {order incoming resting : OrderEntry} {price amount : Decimal}

/-- The amount of a fill: of an order without a budget, the smaller of what the two have
left; of one with a budget, at most what the resting one has left. -/
theorem fill_amount (hk : order.Kind) (hf : (order.rule dv).Fills (Live order) P incoming price resting amount) :
    (incoming.remainingQuoteAmount = none ∧ incoming.remainingAmount ≠ 0 ∧
        amount = min incoming.remainingAmount resting.remainingAmount) ∨
      (order.orderType = .buy ∧ 0 < amount ∧ ∃ q, incoming.remainingQuoteAmount = some q ∧ 0 < q ∧
        amount = min (dv q price) resting.remainingAmount) := by
  rcases hk.isBuy_or with ht | ht
  · have ha := hf.amount_eq
    have hg := hf.goes
    have hu := hf.unfilled
    simp only [OrderEntry.rule_buy ht, buyRule] at ha hg hu
    cases hr : incoming.remainingQuoteAmount with
    | none =>
      rw [hr] at ha hu
      exact Or.inl ⟨rfl, by simpa using hu, ha⟩
    | some q =>
      rw [hr] at ha hu
      exact Or.inr ⟨ht, by simpa using hg, q, rfl, by simpa using hu, ha⟩
  · have ha := hf.amount_eq
    have hu := hf.unfilled
    simp only [OrderEntry.rule_sell ht, sellRule] at ha hu
    have hr := hf.live.budget_none.2 (hk.sell_budget ht)
    exact Or.inl ⟨hr, by simpa using hu, ha⟩

theorem fill_amount_le (hk : order.Kind)
    (hf : (order.rule dv).Fills (Live order) P incoming price resting amount) : amount ≤ resting.remainingAmount := by
  rcases fill_amount hk hf with ⟨-, -, rfl⟩ | ⟨-, -, q, -, -, rfl⟩
  · exact min_le_right _ _
  · exact min_le_right _ _

theorem fill_amount_nonneg (hk : order.Kind) (hr : 0 ≤ resting.remainingAmount)
    (hf : (order.rule dv).Fills (Live order) P incoming price resting amount) : 0 ≤ amount := by
  rcases fill_amount hk hf with ⟨hn, -, rfl⟩ | ⟨-, hpos, -⟩
  · exact le_min (hf.live.quantity hn).1 hr
  · exact hpos.le

theorem fill_amount_pos (hk : order.Kind) (hr : 0 < resting.remainingAmount)
    (hf : (order.rule dv).Fills (Live order) P incoming price resting amount) : 0 < amount := by
  rcases fill_amount hk hf with ⟨hn, hne, rfl⟩ | ⟨-, hpos, -⟩
  · exact lt_min (lt_of_le_of_ne (hf.live.quantity hn).1 (Ne.symm hne)) hr
  · exact hpos

/-- The price of a fill is within the limit of a limit order. -/
theorem fill_price (hf : (order.rule dv).Fills (Live order) P incoming price resting amount) {limit : Decimal}
    (hs : order.orderSide = .limit) (hp : order.price = some limit) :
    (order.orderType = .buy → price ≤ limit) ∧ (order.orderType = .sell → limit ≤ price) := by
  obtain ⟨-, -, -, hside, -, hprice⟩ := OrderEntry.terms_eq hf.live.terms
  have ha := hf.accepted
  constructor
  · intro ht
    simpa [OrderEntry.rule_buy ht, buyRule, hside, hs, hprice, hp] using ha
  · intro ht
    simpa [OrderEntry.rule_sell ht, sellRule, hside, hs, hprice, hp] using ha

/-- The report of a fill, for a buy and for a sell. -/
theorem fill_report (hl : Live order incoming) :
    (order.orderType = .buy → (order.rule dv).report incoming resting price amount =
      ⟨order.id, resting.id, order.userId, resting.userId, price, amount, order.baseMint, order.quoteMint⟩) ∧
    (order.orderType = .sell → (order.rule dv).report incoming resting price amount =
      ⟨resting.id, order.id, resting.userId, order.userId, price, amount, order.baseMint, order.quoteMint⟩) := by
  obtain ⟨hid, huser, -, -, hpair, -⟩ := OrderEntry.terms_eq hl.terms
  obtain ⟨hb, hq⟩ := TradingPair.mk.inj hpair
  constructor
  · intro ht
    simp only [OrderEntry.rule_buy ht, buyRule, hid, huser, hb, hq]
  · intro ht
    simp only [OrderEntry.rule_sell ht, sellRule, hid, huser, hb, hq]

theorem fill_report_price : ((order.rule dv).report incoming resting price amount).price = price := by
  unfold OrderEntry.rule
  split_ifs <;> rfl

theorem fill_report_amount : ((order.rule dv).report incoming resting price amount).amount = amount := by
  unfold OrderEntry.rule
  split_ifs <;> rfl

/-- A fill leaves the incoming order live. -/
theorem fill_live (hk : order.Kind) (hf : (order.rule dv).Fills (Live order) P incoming price resting amount) :
    Live order ((order.rule dv).take incoming amount price) := by
  have hl := hf.live
  refine ⟨((order.rule dv).take_terms _ _ _).trans hl.terms, ?_, ?_⟩
  · rw [← hl.budget]
    unfold OrderEntry.rule
    split_ifs
    · cases hr : incoming.remainingQuoteAmount <;> simp [buyRule, hr]
    · rfl
  · intro hn
    rcases fill_amount hk hf with ⟨hnone, -, ha⟩ | ⟨ht, -, q, hq, -⟩
    · obtain ⟨h₁, h₂, h₃⟩ := hl.quantity hnone
      have hle : amount ≤ incoming.remainingAmount := by rw [ha]; exact min_le_left _ _
      unfold OrderEntry.rule
      have hsum : ExactSums → Arithmetic.add incoming.filledAmount amount +
          Arithmetic.sub incoming.remainingAmount amount = incoming.amount := by
        intro hexact
        rw [ExactSums.add_eq, ExactSums.sub_eq]
        linarith [h₂ hexact]
      split_ifs
      · simp only [buyRule, hnone]
        exact ⟨Arithmetic.sub_nonneg hle, hsum, h₃⟩
      · simp only [sellRule]
        exact ⟨Arithmetic.sub_nonneg hle, hsum, h₃⟩
    · simp [OrderEntry.rule_buy ht, buyRule, hq] at hn

/-- A fill of an order without a budget takes its amount off the quantity. -/
theorem fill_take (hk : order.Kind) (hq : order.remainingQuoteAmount = none)
    (hf : (order.rule dv).Fills (Live order) P incoming price resting amount) :
    (order.rule dv).take incoming amount price =
      { incoming with
        remainingAmount := Arithmetic.sub incoming.remainingAmount amount
        filledAmount := Arithmetic.add incoming.filledAmount amount } := by
  have hn := hf.live.budget_none.2 hq
  rcases hk.isBuy_or with ht | ht
  · simp [OrderEntry.rule_buy ht, buyRule, hn]
  · simp [OrderEntry.rule_sell ht, sellRule]

/-- **The facts of a call**: resting orders keep what fills keep, and every match reports a
fill. -/
theorem rule_facts (hk : order.Kind)
    (hP : ∀ p o a, P p o → a ≤ o.remainingAmount → 0 < (o.fill a).remainingAmount → P p (o.fill a)) :
    (order.rule dv).Facts (Live order) P ((order.rule dv).IsFill (Live order) P) where
  take hf := fill_live hk hf
  fill hf hpos := hP _ _ _ hf.rests (fill_amount_le hk hf) hpos
  report hf := ⟨_, _, _, _, hf, rfl⟩

theorem matching_facts (dv : Decimal → Decimal → Decimal) (hk : order.Kind) (book : OrderBook)
    (hP : ∀ p o a, P p o → a ≤ o.remainingAmount → 0 < (o.fill a).remainingAmount → P p (o.fill a))
    (h : ∀ x ∈ (book.side (order.rule dv).scansBuys).stock, P x.1 x.2) :
    FactsAt (Live order) P ((order.rule dv).IsFill (Live order) P) (order.matching dv book).incoming
      (order.matching dv book).side.stock (order.matching dv book).results :=
  matchAgainst_facts (rule_facts hk hP) hk.live h

/-- Every match is in the order's mints, between the order's user and another one. -/
theorem matching_parties (dv : Decimal → Decimal → Decimal) (hk : order.Kind) (book : OrderBook) :
    ∀ t ∈ (order.matching dv book).results, t.baseMint = order.baseMint ∧ t.quoteMint = order.quoteMint ∧
      if order.orderType = .buy then t.buyerId = order.userId ∧ t.sellerId ≠ order.userId
      else t.sellerId = order.userId ∧ t.buyerId ≠ order.userId := by
  have hfacts := matching_facts dv hk book (P := fun _ _ => True) (fun _ _ _ _ _ _ => trivial) fun _ _ => trivial
  intro t ht
  obtain ⟨incoming, price, resting, amount, hf, rfl⟩ := hfacts.results t ht
  have huser := (OrderEntry.terms_eq hf.live.terms).2.1
  have hforeign : resting.userId ≠ order.userId := fun he => hf.foreign (huser.trans he.symm)
  rcases hk.isBuy_or with hb | hb
  · rw [(fill_report hf.live).1 hb, if_pos hb]
    exact ⟨rfl, rfl, rfl, hforeign⟩
  · rw [(fill_report hf.live).2 hb, if_neg (by rw [hb]; simp)]
    exact ⟨rfl, rfl, rfl, hforeign⟩

/-- A match of an order with another user's. -/
def OrderEntry.IsParty (o : OrderEntry) (t : MatchResult) : Prop :=
  t.baseMint = o.baseMint ∧ t.quoteMint = o.quoteMint ∧
    if o.orderType = .buy then t.buyerId = o.userId ∧ t.sellerId ≠ o.userId
    else t.sellerId = o.userId ∧ t.buyerId ≠ o.userId

/-- Its match debits its user by what it uses of the lock. -/
theorem OrderEntry.IsParty.debit [ExactSums] {t : MatchResult} (h : order.IsParty t) :
    t.debit order.userId order.lock.1 = order.used [t] := by
  obtain ⟨hb, hq, hparty⟩ := h
  unfold MatchResult.debit MatchResult.buyerDebit MatchResult.sellerDebit OrderEntry.used OrderEntry.lock
  by_cases ht : order.orderType = .buy
  · simp only [if_pos ht] at hparty ⊢
    rw [hparty.1, hq, posting_self, posting_of_ne hparty.2.symm]
    simp [quoteUsed_eq]
  · simp only [if_neg ht] at hparty ⊢
    rw [hparty.1, hb, posting_self, posting_of_ne hparty.2.symm]
    simp [amountUsed_eq_sum]

/-- So do all its matches. -/
theorem debits_own [ExactSums] {ts : List MatchResult} (hts : ∀ t ∈ ts, order.IsParty t) :
    BalanceCache.debits ts order.userId order.lock.1 = order.used ts := by
  induction ts with
  | nil => simp [OrderEntry.used, quoteUsed_eq, amountUsed_eq_sum]
  | cons t ts ih =>
    obtain ⟨ht, hrest⟩ := List.forall_mem_cons.1 hts
    rw [BalanceCache.debits_cons, ih hrest, ht.debit]
    simp only [OrderEntry.used, quoteUsed_eq, amountUsed_eq_sum]
    split_ifs <;> simp

theorem matching_conserves (dv : Decimal → Decimal → Decimal) {M : Type*} [AddCommMonoid M] (hk : order.Kind)
    {book : OrderBook}
    (hP : ∀ p o a, P p o → a ≤ o.remainingAmount → 0 < (o.fill a).remainingAmount → P p (o.fill a))
    (h : ∀ x ∈ (book.side (order.rule dv).scansBuys).stock, P x.1 x.2) {w : OrderEntry → M} {g : MatchResult → M}
    (hw : ∀ {incoming price resting amount},
      (order.rule dv).Fills (Live order) P incoming price resting amount →
        w (resting.fill amount) + g ((order.rule dv).report incoming resting price amount) = w resting) :
    ((order.matching dv book).side.stock.map fun x => w x.2).sum + ((order.matching dv book).dropped.map w).sum +
        ((order.matching dv book).results.map g).sum =
      ((book.side (order.rule dv).scansBuys).stock.map fun x => w x.2).sum :=
  matchAgainst_conserves (rule_facts hk hP) hk.live h hw

theorem matching_charges (dv : Decimal → Decimal → Decimal) {M : Type*} [AddCommMonoid M] (hk : order.Kind)
    {book : OrderBook}
    (hP : ∀ p o a, P p o → a ≤ o.remainingAmount → 0 < (o.fill a).remainingAmount → P p (o.fill a))
    (h : ∀ x ∈ (book.side (order.rule dv).scansBuys).stock, P x.1 x.2) {v : OrderEntry → M} {g : MatchResult → M}
    (hv : ∀ {incoming price resting amount},
      (order.rule dv).Fills (Live order) P incoming price resting amount →
        v ((order.rule dv).take incoming amount price) +
          g ((order.rule dv).report incoming resting price amount) = v incoming) :
    v (order.matching dv book).incoming + ((order.matching dv book).results.map g).sum = v order :=
  matchAgainst_charges (rule_facts hk hP) hk.live h hv

/-- An order that is matched with nothing stays what it is. -/
theorem matching_nil (hk : order.Kind) {book : OrderBook} (h : (order.matching dv book).results = []) :
    (order.matching dv book).incoming = order := by
  have hfacts : (order.rule dv).Facts (Live order) (fun _ _ => True) _ := rule_facts hk fun _ _ _ _ _ _ => trivial
  refine (matchAgainst_keeps (hfacts.keeps (J := fun incoming _ results _ => results = [] → incoming = order)
    (fun _ h => h) ?_) ⟨⟨hk.live, fun _ _ => trivial, by simp⟩, fun _ => rfl⟩).2 h
  intro incoming price resting others results dropped amount _ _ hnil
  simp at hnil

end Fills

/-! ## Resting orders -/

/-- The type of the orders of a side. -/
def sideType (buys : Bool) : OrderType := if buys then .buy else .sell

/-- `o` may rest at price `p` on a side of the book of `pair`. -/
structure Rests (buys : Bool) (pair : TradingPair) (p : Decimal) (o : OrderEntry) : Prop where
  price : o.price = some p
  price_pos : 0 < p
  type : o.orderType = sideType buys
  side : o.orderSide = .limit
  pair : o.pair = pair
  remaining_pos : 0 < o.remainingAmount
  adds_up : ExactSums → o.filledAmount + o.remainingAmount = o.amount
  budget : o.remainingQuoteAmount = none

theorem Rests.fill {buys : Bool} {pair : TradingPair} {p : Decimal} {o : OrderEntry} (h : Rests buys pair p o)
    (a : Decimal) (hpos : 0 < (o.fill a).remainingAmount) : Rests buys pair p (o.fill a) where
  price := h.price
  price_pos := h.price_pos
  type := h.type
  side := h.side
  pair := h.pair
  remaining_pos := hpos
  adds_up := by
    intro hexact
    simp only [OrderEntry.fill, ExactSums.add_eq, ExactSums.sub_eq]
    linarith [h.adds_up hexact]
  budget := h.budget

/-- **What is left of a limit order may rest** at its price. -/
theorem rests_of_live {order incoming : OrderEntry} (hk : order.Kind) (hl : Live order incoming)
    (hr : incoming.rests) : ∃ p, order.price = some p ∧ Rests order.isBuy order.pair p incoming := by
  obtain ⟨-, -, htype, hside, hpair, hprice⟩ := OrderEntry.terms_eq hl.terms
  have key : ∀ p, order.price = some p → 0 < p → order.Quantity → Rests order.isBuy order.pair p incoming := by
    intro p hp hpos hq
    have hnone := hl.budget_none.2 hq.budget
    refine ⟨hprice.trans hp, hpos, ?_, hr.1, hpair, ?_, (hl.quantity hnone).2.1, hnone⟩
    · rw [htype]
      rcases hk.isBuy_or with ht | ht <;> simp [sideType, OrderEntry.isBuy, ht]
    · simpa [OrderEntry.hasRemaining, hnone] using hr.2
  cases hk with
  | limitBuy p _ _ hp hpos hq => exact ⟨p, hp, key p hp hpos hq⟩
  | limitSell p _ _ hp hpos hq => exact ⟨p, hp, key p hp hpos hq⟩
  | marketSell _ hm => exact absurd (hm.symm.trans (hside.symm.trans hr.1)) (by simp)
  | marketBuy _ _ hm => exact absurd (hm.symm.trans (hside.symm.trans hr.1)) (by simp)

namespace MatchResult

/-- What a match takes from the owner of the resting order. -/
def makerDebit (scansBuys : Bool) (t : MatchResult) (u : UserId) (m : Mint) : Decimal :=
  if scansBuys then t.buyerDebit u m else t.sellerDebit u m

/-- What a match takes from the owner of the incoming order. -/
def takerDebit (scansBuys : Bool) (t : MatchResult) (u : UserId) (m : Mint) : Decimal :=
  if scansBuys then t.sellerDebit u m else t.buyerDebit u m

theorem maker_add_taker (scansBuys : Bool) (t : MatchResult) (u : UserId) (m : Mint) :
    t.makerDebit scansBuys u m + t.takerDebit scansBuys u m = t.debit u m := by
  cases scansBuys
  · exact add_comm _ _
  · rfl

end MatchResult

/-- What an order needs to have locked. -/
def OrderEntry.required (o : OrderEntry) (u : UserId) (m : Mint) : Decimal :=
  posting o.userId o.unlock.1 o.unlock.2 u m

theorem Rests.unlock_nonneg {buys : Bool} {pair : TradingPair} {p : Decimal} {o : OrderEntry}
    (h : Rests buys pair p o) : 0 ≤ o.unlock.2 := by
  unfold OrderEntry.unlock
  split_ifs
  · rw [h.price, Option.getD_some]
    exact Arithmetic.mul_nonneg h.price_pos.le h.remaining_pos.le
  · exact h.remaining_pos.le

theorem Rests.required_nonneg {buys : Bool} {pair : TradingPair} {p : Decimal} {o : OrderEntry}
    (h : Rests buys pair p o) (u : UserId) (m : Mint) : 0 ≤ o.required u m :=
  posting_nonneg h.unlock_nonneg

/-- An order that was let go rested in the book, or is another user's and has been filled. -/
theorem matching_dropped {order : OrderEntry} (hk : order.Kind)
    {book : OrderBook}
    (hside : ∀ x ∈ (book.side (order.rule dv).scansBuys).stock, Rests (order.rule dv).scansBuys order.pair x.1 x.2) :
    ∀ o ∈ (order.matching dv book).dropped,
      (∃ p, Rests (order.rule dv).scansBuys order.pair p o) ∨
        (o.userId ≠ order.userId ∧ o.remainingAmount = 0) := by
  intro o ho
  rcases matchAgainst_dropped (rule_facts hk fun _ _ a hr _ hpos => hr.fill a hpos) hk.live hside o ho with
    hr | ⟨incoming, price, resting, amount, hf, hle, rfl⟩
  · exact Or.inl hr
  · have huser := (OrderEntry.terms_eq hf.live.terms).2.1
    exact Or.inr ⟨fun he => hf.foreign (huser.trans he.symm),
      le_antisymm hle (Arithmetic.sub_nonneg (fill_amount_le hk hf))⟩

end Rounded

/-! ## What resting orders need -/

variable {dv : Decimal → Decimal → Decimal}

theorem Rests.unlock_pos {buys : Bool} {pair : TradingPair} {p : Decimal} {o : OrderEntry}
    (h : Rests buys pair p o) : 0 < o.unlock.2 := by
  unfold OrderEntry.unlock
  split_ifs
  · simpa [h.price] using mul_pos h.price_pos h.remaining_pos
  · exact h.remaining_pos

/-- A filled order needs nothing. -/
theorem OrderEntry.required_eq_zero {o : OrderEntry} (h : o.remainingAmount = 0) (u : UserId) (m : Mint) :
    o.required u m = 0 := by
  unfold OrderEntry.required OrderEntry.unlock posting
  split_ifs <;> simp [h]

/-- So what it needs is not negative. -/
theorem matching_dropped_nonneg {order : OrderEntry} (hk : order.Kind)
    {book : OrderBook}
    (hside : ∀ x ∈ (book.side (order.rule dv).scansBuys).stock, Rests (order.rule dv).scansBuys order.pair x.1 x.2) :
    ∀ o ∈ (order.matching dv book).dropped, ∀ u m, 0 ≤ o.required u m := by
  intro o ho u m
  rcases matching_dropped hk hside o ho with ⟨p, hr⟩ | ⟨-, h₀⟩
  · exact hr.required_nonneg u m
  · rw [OrderEntry.required_eq_zero h₀]

section Maker

variable {order incoming resting : OrderEntry} {price amount : Decimal}

/-- **A fill takes from the resting order's owner what the order then needs less.** -/
theorem maker_conserves (hk : order.Kind)
    (hf : (order.rule dv).Fills (Live order) (Rests (order.rule dv).scansBuys order.pair) incoming price resting
      amount) (u : UserId) (m : Mint) :
    (resting.fill amount).required u m +
        ((order.rule dv).report incoming resting price amount).makerDebit (order.rule dv).scansBuys u m =
      resting.required u m := by
  have hr := hf.rests
  obtain ⟨hb, hq⟩ := TradingPair.mk.inj hr.pair
  have htype := hr.type
  rcases hk.isBuy_or with ht | ht
  · rw [(fill_report hf.live).1 ht]
    simp only [OrderEntry.rule_buy ht, buyRule, sideType] at htype
    simp only [OrderEntry.rule_buy ht, buyRule, MatchResult.makerDebit, MatchResult.sellerDebit,
      OrderEntry.required, OrderEntry.unlock, OrderEntry.fill, htype, ← hb, posting, ExactSums.sub_eq]
    simp only [Bool.false_eq_true, if_false, reduceCtorEq]
    split_ifs <;> ring
  · rw [(fill_report hf.live).2 ht]
    simp only [OrderEntry.rule_sell ht, sellRule, sideType] at htype
    simp only [OrderEntry.rule_sell ht, sellRule, MatchResult.makerDebit, MatchResult.buyerDebit,
      OrderEntry.required, OrderEntry.unlock, OrderEntry.fill, htype, ← hq, posting, hr.price, ExactSums.sub_eq,
      MatchResult.totalValue, exact_mul]
    simp only [if_true, Option.getD_some]
    split_ifs <;> ring

end Maker

end CexEngine
