import Mathlib.Algebra.Order.Field.Rat
import CexEngine.Spec.Threads

/-!
# The orders that are admitted

`validated_kind`: an order that `create_order` submits is of one of four kinds, and each kind
fixes which of the optional fields are there and that the quantities are positive;
`kind_validated`: these are all the orders it can submit.
-/

namespace CexEngine

theorem bailIf_bind {α : Type} {refused : Bool} {text : String} {f : Unit → Except ServiceError α} {a : α}
    (h : (bailIf refused text >>= f) = .ok a) : refused = false ∧ f () = .ok a := by
  cases refused with
  | false => exact ⟨rfl, h⟩
  | true => cases h

theorem bailIf_ok {refused : Bool} {text : String} (h : bailIf refused text = .ok ()) : refused = false := by
  cases refused with
  | false => rfl
  | true => cases h

theorem pos_of_checked {x : Option Decimal} {a : Decimal} (h : x.any (fun b => decide (b ≤ 0)) = false)
    (hx : x = some a) : 0 < a := by
  subst hx
  simpa using h

/-- A field that is checked to be there and to be positive. -/
theorem present_of_checked {x : Option Decimal} (hnone : x.isNone = false)
    (h : x.any (fun b => decide (b ≤ 0)) = false) : ∃ a, x = some a ∧ 0 < a := by
  cases x with
  | none => cases hnone
  | some a => exact ⟨a, rfl, pos_of_checked h rfl⟩

/-- An order for a quantity, none of it filled. -/
structure OrderEntry.Quantity (o : OrderEntry) : Prop where
  remaining_pos : 0 < o.remainingAmount
  amount : o.amount = o.remainingAmount
  filled : o.filledAmount = 0
  budget : o.remainingQuoteAmount = none
  quote : o.quoteAmount = none

/-- The kinds of orders. -/
inductive OrderEntry.Kind (o : OrderEntry) : Prop where
  | limitBuy (price : Decimal) (type : o.orderType = .buy) (side : o.orderSide = .limit)
      (price_eq : o.price = some price) (price_pos : 0 < price) (quantity : o.Quantity)
  | limitSell (price : Decimal) (type : o.orderType = .sell) (side : o.orderSide = .limit)
      (price_eq : o.price = some price) (price_pos : 0 < price) (quantity : o.Quantity)
  | marketSell (type : o.orderType = .sell) (side : o.orderSide = .market) (price_eq : o.price = none)
      (quantity : o.Quantity)
  | marketBuy (budget : Decimal) (type : o.orderType = .buy) (side : o.orderSide = .market)
      (price_eq : o.price = none) (budget_pos : 0 < budget) (quote : o.quoteAmount = some budget)
      (remaining : o.remainingQuoteAmount = some budget) (amount : o.amount = 0)
      (remainingAmount : o.remainingAmount = 0) (filled : o.filledAmount = 0)

/-- The order built for a request, field by field. -/
theorem orderEntry_ok {request : CreateOrderRequest} {userId : UserId} {now : ℕ} {o : OrderEntry}
    (h : request.orderEntry userId now = .ok o) :
    o.orderType = request.orderType ∧ o.orderSide = request.orderSide ∧ o.price = request.price ∧
      o.filledAmount = 0 ∧
      ((request.orderType = .buy ∧ request.orderSide = .market ∧
          ∃ q, request.quoteAmount = some q ∧ o.quoteAmount = some q ∧ o.remainingQuoteAmount = some q ∧
            o.amount = 0 ∧ o.remainingAmount = 0) ∨
        (¬ (request.orderType = .buy ∧ request.orderSide = .market) ∧
          ∃ a, request.amount = some a ∧ o.quoteAmount = none ∧ o.remainingQuoteAmount = none ∧
            o.amount = a ∧ o.remainingAmount = a)) := by
  unfold CreateOrderRequest.orderEntry at h
  cases hid : request.orderId with
  | none =>
    split_ifs at h
    · cases hq : request.quoteAmount <;> simp [hid, hq, unwrap, bind, Except.bind, pure, Except.pure] at h
    · cases ha : request.amount <;> simp [hid, ha, unwrap, bind, Except.bind, pure, Except.pure] at h
  | some orderId =>
    split_ifs at h with hm
    · cases hq : request.quoteAmount with
      | none => simp [hq, unwrap, bind, Except.bind] at h
      | some q =>
        simp only [hid, hq, unwrap, bind, Except.bind, pure, Except.pure, Except.ok.injEq] at h
        subst h
        exact ⟨rfl, rfl, rfl, rfl, Or.inl ⟨hm.1, hm.2, q, rfl, rfl, rfl, rfl, rfl⟩⟩
    · cases ha : request.amount with
      | none => simp [ha, unwrap, bind, Except.bind] at h
      | some a =>
        simp only [hid, ha, unwrap, bind, Except.bind, pure, Except.pure, Except.ok.injEq] at h
        subst h
        exact ⟨rfl, rfl, rfl, rfl, Or.inr ⟨hm, a, rfl, rfl, rfl, rfl, rfl⟩⟩

/-- The order built for a request locks what is required for the request. -/
theorem orderEntry_lock [Arithmetic] {request : CreateOrderRequest} {userId : UserId} {now : ℕ} {o : OrderEntry}
    (h : request.orderEntry userId now = .ok o) {mint : Mint} {required : Decimal}
    (hrequired : request.requiredBalance = .ok (mint, required)) : o.userId = userId ∧ o.lock = (mint, required) := by
  unfold CreateOrderRequest.orderEntry at h
  unfold CreateOrderRequest.requiredBalance at hrequired
  unfold OrderEntry.lock
  cases hid : request.orderId with
  | none =>
    split_ifs at h
    · cases hq : request.quoteAmount <;> simp [hid, hq, unwrap, bind, Except.bind, pure, Except.pure] at h
    · cases ha : request.amount <;> simp [hid, ha, unwrap, bind, Except.bind, pure, Except.pure] at h
  | some orderId =>
    split_ifs at h with hm
    · obtain ⟨hbuy, hmarket⟩ := hm
      cases hq : request.quoteAmount with
      | none => simp [hq, unwrap, bind, Except.bind] at h
      | some q =>
        simp only [hid, hq, hbuy, hmarket, unwrap, bind, Except.bind, pure, Except.pure, Except.ok.injEq] at h hrequired
        subst h
        simpa using hrequired
    · cases ha : request.amount with
      | none => simp [ha, unwrap, bind, Except.bind] at h
      | some a =>
        simp only [hid, ha, unwrap, bind, Except.bind, pure, Except.pure, Except.ok.injEq] at h hrequired
        subst h
        cases htype : request.orderType with
        | buy =>
          have hside : request.orderSide ≠ .market := fun hs => hm ⟨htype, hs⟩
          cases hp : request.price with
          | none => simp [htype, hside, hp] at hrequired
          | some p => simpa [htype, hside, hp] using hrequired
        | sell => simpa [htype] using hrequired
        | other text => simp [htype] at hrequired

/-- What a request that passes has: by type and side, the checks it was put to. -/
theorem validate_ok {request : CreateOrderRequest} (h : request.validate = .ok ()) :
    (request.orderType = .buy ∨ request.orderType = .sell) ∧
      (request.orderSide = .limit ∨ request.orderSide = .market) ∧
      (request.orderSide = .limit → request.price.isSome) ∧
      (request.orderSide = .market → request.price = none) ∧
      (request.orderType = .sell ∨ request.orderSide = .limit → ∃ a, request.amount = some a ∧ 0 < a) ∧
      (request.orderType = .buy → request.orderSide = .market → ∃ q, request.quoteAmount = some q ∧ 0 < q) ∧
      (∀ p, request.price = some p → 0 < p) := by
  unfold CreateOrderRequest.validate at h
  obtain ⟨h1, h⟩ := bailIf_bind h
  obtain ⟨h2, h⟩ := bailIf_bind h
  obtain ⟨h3, h⟩ := bailIf_bind h
  obtain ⟨h4, h⟩ := bailIf_bind h
  have htype : request.orderType = .buy ∨ request.orderType = .sell := by
    by_contra hc
    simp [not_or] at hc
    simp [hc] at h1
  have hside : request.orderSide = .limit ∨ request.orderSide = .market := by
    by_contra hc
    simp [not_or] at hc
    simp [hc] at h2
  have hlimit : request.orderSide = .limit → request.price.isSome := by
    intro hs
    cases hp : request.price <;> simp [hs, hp] at h3 ⊢
  have hmarket : request.orderSide = .market → request.price = none := by
    intro hs
    cases hp : request.price <;> simp [hs, hp] at h4 ⊢
  refine ⟨htype, hside, hlimit, hmarket, ?_⟩
  -- the checks that depend on the type and the side
  rcases htype with ht | ht <;> rcases hside with hs | hs <;>
    simp only [ht, hs, reduceCtorEq, and_true, and_false, if_true, if_false] at h
  all_goals
    obtain ⟨g1, h⟩ := bailIf_bind h
    obtain ⟨g2, h⟩ := bailIf_bind h
    obtain ⟨g3, h⟩ := bailIf_bind h
    have hp : ∀ p, request.price = some p → 0 < p := fun p hp => pos_of_checked (bailIf_ok h) hp
  · exact ⟨fun _ => present_of_checked g1 g2, fun _ hm => absurd (hs.symm.trans hm) (by simp), hp⟩
  · refine ⟨fun hq => ?_, fun _ _ => present_of_checked g1 g3, hp⟩
    rcases hq with hq | hq
    · exact absurd (ht.symm.trans hq) (by simp)
    · exact absurd (hs.symm.trans hq) (by simp)
  · exact ⟨fun _ => present_of_checked g1 g2, fun hb => absurd (ht.symm.trans hb) (by simp), hp⟩
  · exact ⟨fun _ => present_of_checked g1 g2, fun hb => absurd (ht.symm.trans hb) (by simp), hp⟩

/-- **An order that is admitted is of one of the kinds.** -/
theorem validated_kind {o : OrderEntry} (h : o.Validated) : o.Kind := by
  obtain ⟨request, userId, now, hv, ho⟩ := h
  obtain ⟨htype, hside, hlimit, hmarket, hamount, hquote, hprice⟩ := validate_ok hv
  obtain ⟨et, es, ep, hfilled, ⟨hb, hm, q, hq, e1, e2, e3, e4⟩ | ⟨hne, a, ha, e1, e2, e3, e4⟩⟩ := orderEntry_ok ho
  · obtain ⟨q', hq', hpos⟩ := hquote hb hm
    obtain rfl : q' = q := Option.some.inj (hq'.symm.trans hq)
    exact .marketBuy q' (et.trans hb) (es.trans hm) (ep.trans (hmarket hm)) hpos e1 e2 e3 e4 hfilled
  · have hquantity : (∃ a', request.amount = some a' ∧ 0 < a') → o.Quantity := by
      rintro ⟨a', ha', hpos⟩
      obtain rfl : a' = a := Option.some.inj (ha'.symm.trans ha)
      exact ⟨by rw [e4]; exact hpos, e3.trans e4.symm, hfilled, e2, e1⟩
    rcases hside with hs | hs
    · obtain ⟨p, hp⟩ := Option.isSome_iff_exists.1 (hlimit hs)
      have hq := hquantity (hamount (Or.inr hs))
      rcases htype with ht | ht
      · exact .limitBuy p (et.trans ht) (es.trans hs) (ep.trans hp) (hprice p hp) hq
      · exact .limitSell p (et.trans ht) (es.trans hs) (ep.trans hp) (hprice p hp) hq
    · have ht := htype.resolve_left fun hb => hne ⟨hb, hs⟩
      exact .marketSell (et.trans ht) (es.trans hs) (ep.trans (hmarket hs)) (hquantity (hamount (Or.inl ht)))

/-- **And every order of one of the kinds is admitted.** -/
theorem kind_validated {o : OrderEntry} (h : o.Kind) : o.Validated := by
  have hquantity : ∀ {t : OrderType} {d : OrderSide}, o.orderType = t → o.orderSide = d →
      (t = .buy ∨ t = .sell) → (d = .limit ∨ d = .market) → ¬ (t = .buy ∧ d = .market) →
      (d = .limit → ∃ p, o.price = some p ∧ 0 < p) → (d = .market → o.price = none) → o.Quantity → o.Validated := by
    intro t d ht hd htype hside hne hlimit hmarket hq
    obtain ⟨hpos, hamount, hfilled, hbudget, hquote⟩ := hq
    obtain ⟨id, userId, orderType, orderSide, baseMint, quoteMint, price, amount, quoteAmount, filledAmount,
      remainingAmount, remainingQuoteAmount, createdAt⟩ := o
    dsimp only at *
    subst ht hd hamount hfilled hbudget hquote
    refine ⟨⟨some id, orderType, orderSide, baseMint, some quoteMint, price, some amount, none⟩, userId, createdAt,
      ?_, ?_⟩
    · rcases htype with rfl | rfl <;> rcases hside with rfl | rfl
      · obtain ⟨p, rfl, hp⟩ := hlimit rfl
        simp [CreateOrderRequest.validate, bailIf, hpos.not_ge, hp.not_ge, bind, Except.bind]
      · exact absurd ⟨rfl, rfl⟩ hne
      · obtain ⟨p, rfl, hp⟩ := hlimit rfl
        simp [CreateOrderRequest.validate, bailIf, hpos.not_ge, hp.not_ge, bind, Except.bind]
      · simp [CreateOrderRequest.validate, bailIf, hpos.not_ge, hmarket rfl, bind, Except.bind]
    · simp [CreateOrderRequest.orderEntry, hne, unwrap, bind, Except.bind, pure, Except.pure]
  cases h with
  | limitBuy p ht hs hp hpos hq =>
    exact hquantity ht hs (by simp) (by simp) (by simp) (fun _ => ⟨p, hp, hpos⟩) (by simp) hq
  | limitSell p ht hs hp hpos hq =>
    exact hquantity ht hs (by simp) (by simp) (by simp) (fun _ => ⟨p, hp, hpos⟩) (by simp) hq
  | marketSell ht hs hp hq => exact hquantity ht hs (by simp) (by simp) (by simp) (by simp) (fun _ => hp) hq
  | marketBuy q ht hs hp hpos hquote hrem hamount hremaining hfilled =>
    obtain ⟨id, userId, orderType, orderSide, baseMint, quoteMint, price, amount, quoteAmount, filledAmount,
      remainingAmount, remainingQuoteAmount, createdAt⟩ := o
    dsimp only at *
    subst ht hs hp hquote hrem hamount hremaining hfilled
    refine ⟨⟨some id, .buy, .market, baseMint, some quoteMint, none, none, some q⟩, userId, createdAt, ?_, ?_⟩
    · simp [CreateOrderRequest.validate, bailIf, hpos.not_ge, bind, Except.bind]
    · simp [CreateOrderRequest.orderEntry, unwrap, bind, Except.bind, pure, Except.pure]

/-- An order without a budget is for a quantity. -/
theorem OrderEntry.Kind.quantity {o : OrderEntry} (h : o.Kind) (hq : o.remainingQuoteAmount = none) : o.Quantity := by
  cases h with
  | limitBuy _ _ _ _ _ h => exact h
  | limitSell _ _ _ _ _ h => exact h
  | marketSell _ _ _ h => exact h
  | marketBuy _ _ _ _ _ _ hr => rw [hr] at hq; cases hq

/-- An order that is admitted has something left to match. -/
theorem OrderEntry.Kind.hasRemaining {o : OrderEntry} (h : o.Kind) : o.hasRemaining = true := by
  have hquantity : o.Quantity → o.hasRemaining = true := by
    intro hq
    simpa [OrderEntry.hasRemaining, hq.budget] using hq.remaining_pos
  cases h with
  | limitBuy _ _ _ _ _ hq => exact hquantity hq
  | limitSell _ _ _ _ _ hq => exact hquantity hq
  | marketSell _ _ _ hq => exact hquantity hq
  | marketBuy _ _ _ _ hpos _ hr => simpa [OrderEntry.hasRemaining, hr] using hpos

theorem OrderEntry.Kind.no_budget {order : OrderEntry} (hk : order.Kind)
    (h : ¬ (order.orderType = .buy ∧ order.orderSide = .market)) : order.remainingQuoteAmount = none := by
  cases hk with
  | limitBuy _ _ _ _ _ hq => exact hq.budget
  | limitSell _ _ _ _ _ hq => exact hq.budget
  | marketSell _ _ _ hq => exact hq.budget
  | marketBuy _ ht hs => exact absurd ⟨ht, hs⟩ h

/-- The amount that an order of one of the kinds locks is not negative; without rounding it is
positive. -/
theorem OrderEntry.Kind.lock_nonneg [Arithmetic] {o : OrderEntry} (h : o.Kind) : 0 ≤ o.lock.2 := by
  cases h with
  | limitBuy p ht hs hp hpos hq =>
    simpa [OrderEntry.lock, ht, hs, hp, hq.amount] using Arithmetic.mul_nonneg hpos.le hq.remaining_pos.le
  | limitSell _ ht _ _ _ hq => simpa [OrderEntry.lock, ht, hq.amount] using hq.remaining_pos.le
  | marketSell ht _ _ hq => simpa [OrderEntry.lock, ht, hq.amount] using hq.remaining_pos.le
  | marketBuy _ ht hs _ hpos hq => simpa [OrderEntry.lock, ht, hs, hq] using hpos.le

theorem OrderEntry.Kind.lock_pos {o : OrderEntry} (h : o.Kind) : 0 < o.lock.2 := by
  cases h with
  | limitBuy p ht hs hp hpos hq =>
    simpa [OrderEntry.lock, ht, hs, hp, hq.amount] using mul_pos hpos hq.remaining_pos
  | limitSell _ ht _ _ _ hq => simpa [OrderEntry.lock, ht, hq.amount] using hq.remaining_pos
  | marketSell ht _ _ hq => simpa [OrderEntry.lock, ht, hq.amount] using hq.remaining_pos
  | marketBuy _ ht hs _ hpos hq => simpa [OrderEntry.lock, ht, hs, hq] using hpos

/-! ## Orders as they are built -/

/-- A limit order on SOL/USDT. -/
def limitOrder (id : OrderId) (userId : UserId) (orderType : OrderType) (price amount : Decimal) : OrderEntry where
  id
  userId
  orderType
  orderSide := .limit
  baseMint := "SOL"
  quoteMint := "USDT"
  price := some price
  amount
  quoteAmount := none
  filledAmount := 0
  remainingAmount := amount
  remainingQuoteAmount := none
  createdAt := 0

/-- A market buy on SOL/USDT for a budget. -/
def marketBuyOrder (id : OrderId) (userId : UserId) (budget : Decimal) : OrderEntry where
  id
  userId
  orderType := .buy
  orderSide := .market
  baseMint := "SOL"
  quoteMint := "USDT"
  price := none
  amount := 0
  quoteAmount := some budget
  filledAmount := 0
  remainingAmount := 0
  remainingQuoteAmount := some budget
  createdAt := 0

theorem limitOrder_validated (id : OrderId) (userId : UserId) {orderType : OrderType} {price amount : Decimal}
    (ht : orderType = .buy ∨ orderType = .sell) (hp : 0 < price) (ha : 0 < amount) :
    (limitOrder id userId orderType price amount).Validated := by
  have hq : (limitOrder id userId orderType price amount).Quantity := ⟨ha, rfl, rfl, rfl, rfl⟩
  rcases ht with rfl | rfl
  · exact kind_validated (.limitBuy price rfl rfl rfl hp hq)
  · exact kind_validated (.limitSell price rfl rfl rfl hp hq)

theorem marketBuyOrder_validated (id : OrderId) (userId : UserId) {budget : Decimal} (hb : 0 < budget) :
    (marketBuyOrder id userId budget).Validated :=
  kind_validated (.marketBuy budget rfl rfl rfl hb rfl rfl rfl rfl rfl)

/-- The market of the orders above. -/
def solUsdt : TradingPair := ⟨"SOL", "USDT"⟩

end CexEngine
