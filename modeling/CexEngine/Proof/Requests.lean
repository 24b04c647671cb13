import CexEngine.Proof.Admission
import CexEngine.Spec.Service

/-!
# Requests that are admitted

`create_order` classifies a request four times: in the check, in the balance that is required,
in the entry that is built and in the amount that the engine locks for it.

* `validated_builds`: of a request that passes the check, all the optional fields are there
  that the later steps unwrap.
* `createOrder_agrees`: so nothing panics, the entry that is built is of exactly one kind, and what
  was required is what is locked.
* `finishCreate_createOrder`: the task of a call does the same.
-/

namespace CexEngine

variable {request : CreateOrderRequest} {userId : UserId} {now : ℕ}

/-- The kinds of entries. -/
inductive EntryKind where
  | limit
  | marketSell
  | marketBuy
  deriving DecidableEq, Repr

/-- What an entry of a kind is. -/
def OrderEntry.IsOf (o : OrderEntry) : EntryKind → Prop
  | .limit => o.orderSide = .limit ∧ (∃ p, o.price = some p ∧ 0 < p) ∧
      o.amount = o.remainingAmount ∧ 0 < o.remainingAmount ∧ o.quoteAmount = none ∧ o.remainingQuoteAmount = none
  | .marketSell => o.orderSide = .market ∧ o.orderType = .sell ∧ o.price = none ∧
      o.amount = o.remainingAmount ∧ 0 < o.remainingAmount ∧ o.quoteAmount = none ∧ o.remainingQuoteAmount = none
  | .marketBuy => o.orderSide = .market ∧ o.orderType = .buy ∧ o.price = none ∧ o.amount = 0 ∧
      o.remainingAmount = 0 ∧ ∃ q, o.quoteAmount = some q ∧ o.remainingQuoteAmount = some q ∧ 0 < q

/-- No entry is of two kinds. -/
theorem OrderEntry.IsOf.unique {o : OrderEntry} {k k' : EntryKind} (h : o.IsOf k) (h' : o.IsOf k') : k = k' := by
  cases k <;> cases k' <;> simp_all [OrderEntry.IsOf]

theorem OrderEntry.Kind.isOf {o : OrderEntry} (h : o.Kind) : ∃ k, o.IsOf k := by
  cases h with
  | limitBuy p _ hs hp hpos hq =>
    exact ⟨.limit, hs, ⟨p, hp, hpos⟩, hq.amount, hq.remaining_pos, hq.quote, hq.budget⟩
  | limitSell p _ hs hp hpos hq =>
    exact ⟨.limit, hs, ⟨p, hp, hpos⟩, hq.amount, hq.remaining_pos, hq.quote, hq.budget⟩
  | marketSell ht hs hp hq => exact ⟨.marketSell, hs, ht, hp, hq.amount, hq.remaining_pos, hq.quote, hq.budget⟩
  | marketBuy q ht hs hp hpos hquote hrem ha hr => exact ⟨.marketBuy, hs, ht, hp, ha, hr, q, hquote, hrem, hpos⟩

/-- **A request that passes has what the later steps unwrap.** -/
theorem validated_builds [Arithmetic] (hid : request.orderId.isSome) (h : request.validate = .ok ()) (userId : UserId)
    (now : ℕ) :
    (∃ required, request.requiredBalance = .ok required) ∧ (∃ o, request.orderEntry userId now = .ok o) ∧
      ∃ amount, request.orderAmount = .ok amount := by
  obtain ⟨id, hid⟩ := Option.isSome_iff_exists.1 hid
  obtain ⟨htype, hside, hlimit, -, hamount, hquote, -⟩ := validate_ok h
  unfold CreateOrderRequest.requiredBalance CreateOrderRequest.orderEntry CreateOrderRequest.orderAmount
  rcases htype with ht | ht
  · rcases hside with hs | hs
    · -- a limit buy
      obtain ⟨p, hp⟩ := Option.isSome_iff_exists.1 (hlimit hs)
      obtain ⟨a, ha, -⟩ := hamount (Or.inr hs)
      simp [ht, hs, hp, ha, hid, unwrap, bind, Except.bind, pure, Except.pure]
    · -- a market buy
      obtain ⟨q, hq, -⟩ := hquote ht hs
      simp [ht, hs, hq, hid, unwrap, bind, Except.bind, pure, Except.pure]
  · -- a sell
    obtain ⟨a, ha, -⟩ := hamount (Or.inl ht)
    simp [ht, ha, hid, unwrap, bind, Except.bind, pure, Except.pure]

/-- `create_order` on a request that passes: refused for its balance, or the entry is built. -/
theorem createOrder_cases [Arithmetic] (hid : request.orderId.isSome) (h : request.validate = .ok ()) (userId : UserId)
    (balance : Mint → Option Decimal) (now : ℕ) :
    ∃ mint required o amount, request.requiredBalance = .ok (mint, required) ∧
      request.orderEntry userId now = .ok o ∧ request.orderAmount = .ok amount ∧
      request.createOrder userId balance now =
        (checkBalance (balance mint) required).map fun _ => (o, o.pending amount now) := by
  obtain ⟨⟨⟨mint, required⟩, hr⟩, ⟨o, ho⟩, amount, ha⟩ := validated_builds hid h userId now
  refine ⟨mint, required, o, amount, hr, ho, ha, ?_⟩
  unfold CreateOrderRequest.createOrder
  rw [h, hr, ho, ha]
  simp only [refused, Except.mapError, bind, Except.bind, pure, Except.pure]
  cases checkBalance (balance mint) required <;> rfl

theorem checkBalance_not_panic (answer : Option Decimal) (required : Decimal) :
    checkBalance answer required ≠ .error (.refused .panic) := by
  unfold checkBalance
  split
  · simp
  · split_ifs <;> simp

/-- **The check, the service and the engine agree on every request**: one that passes the
check reaches no failing `unwrap`; it is refused for the balance, or one entry is built; this is
of exactly one kind, with nothing filled; and the balance that is compared is the one that the
engine locks for it. -/
theorem createOrder_agrees [Arithmetic] (request : CreateOrderRequest) (userId : UserId) (now : ℕ)
    (hid : request.orderId.isSome) (h : request.validate = .ok ()) :
    ∃ o amount, (∃! kind, o.IsOf kind) ∧ o.filledAmount = 0 ∧ o.userId = userId ∧
      request.requiredBalance = .ok o.lock ∧
      ∀ balance, request.createOrder userId balance now ≠ .error (.refused .panic) ∧
        request.createOrder userId balance now =
          (checkBalance (balance o.lock.1) o.lock.2).map fun _ => (o, o.pending amount now) := by
  obtain ⟨-, ⟨o, ho⟩, amount, hamount⟩ := validated_builds hid h userId now
  obtain ⟨-, -, -, hfilled, -⟩ := orderEntry_ok ho
  obtain ⟨k, hk⟩ := (validated_kind ⟨request, userId, now, h, ho⟩).isOf
  have hbuilds : ∀ balance, request.requiredBalance = .ok o.lock ∧ o.userId = userId ∧
      request.createOrder userId balance now =
        (checkBalance (balance o.lock.1) o.lock.2).map fun _ => (o, o.pending amount now) := by
    intro balance
    obtain ⟨mint, required, o', amount', hr, ho', hamount', hc⟩ := createOrder_cases hid h userId balance now
    obtain rfl : o = o' := Except.ok.inj (ho.symm.trans ho')
    obtain rfl : amount = amount' := Except.ok.inj (hamount.symm.trans hamount')
    obtain ⟨huser, hlock⟩ := orderEntry_lock ho hr
    rw [hlock]
    exact ⟨hr, huser, hc⟩
  refine ⟨o, amount, ⟨k, hk, fun k' hk' => hk'.unique hk⟩, hfilled, (hbuilds fun _ => none).2.1,
    (hbuilds fun _ => none).1, fun balance => ⟨fun hpanic => ?_, (hbuilds balance).2.2⟩⟩
  rw [(hbuilds balance).2.2] at hpanic
  have hne := checkBalance_not_panic (balance o.lock.1) o.lock.2
  cases hcheck : checkBalance (balance o.lock.1) o.lock.2 with
  | error e =>
    rw [hcheck] at hpanic hne
    exact hne (by simpa [Except.map] using hpanic)
  | ok _ => rw [hcheck] at hpanic; cases hpanic

/-- A market buy for fifty. -/
theorem createOrder_agrees_market_buy :
    ∃ o amount, (∃! kind, o.IsOf kind) ∧ o.filledAmount = 0 ∧ o.userId = 1 ∧
      (⟨some 7, .buy, .market, "SOL", none, none, none, some 50⟩ : CreateOrderRequest).requiredBalance = .ok o.lock ∧
      ∀ balance, (⟨some 7, .buy, .market, "SOL", none, none, none, some 50⟩ : CreateOrderRequest).createOrder 1
          balance 0 ≠ .error (.refused .panic) ∧
        (⟨some 7, .buy, .market, "SOL", none, none, none, some 50⟩ : CreateOrderRequest).createOrder 1 balance 0 =
          (checkBalance (balance o.lock.1) o.lock.2).map fun _ => (o, o.pending amount 0) :=
  createOrder_agrees ⟨some 7, .buy, .market, "SOL", none, none, none, some 50⟩ 1 0 rfl (by decide +kernel)

/-- **The task of a call does what `create_order` does**, from the answer of the engine on. -/
theorem finishCreate_createOrder (s : System) (id : ℕ) (hid : request.orderId.isSome) (h : request.validate = .ok ())
    (userId : UserId) (available : Decimal) (now : ℕ) :
    s.finishCreate id userId request available now =
      match request.createOrder userId (fun _ => some available) now with
      | .ok (o, _) => (s.leave id (.returned (.ok ()))).spawn (.submit id o)
      | .error e => s.leave id (.returned (.error e)) := by
  obtain ⟨mint, required, o, amount, hr, ho, -, hc⟩ := createOrder_cases hid h userId (fun _ => some available) now
  rw [hc]
  unfold System.finishCreate checkBalance
  rw [hr, ho]
  dsimp only
  split_ifs <;> rfl

end CexEngine
