import CexEngine.Proof.MatchLoop

/-!
# What fills give a call of the matcher

A call of the matcher is a series of fills. What is checked of one fill here holds of the
call:

* `MatchRule.Facts`, `matchAgainst_facts`: facts about the resting orders, the incoming
  order and the matches.
* `matchAgainst_conserves`: what the resting orders, the orders let go and the matches
  weigh together does not change.
* `matchAgainst_charges`: nor does what the incoming order and the matches weigh together.
-/

namespace CexEngine

variable [Arithmetic] {R : MatchRule} {N : OrderEntry → Prop} {P : Decimal → OrderEntry → Prop} {Q : MatchResult → Prop}

/-- A fill: `incoming`, which has `N` and is not used up, meets another user's order, which
has `P`, at a price within its limit, and they match for `amount`. -/
structure MatchRule.Fills (R : MatchRule) (N : OrderEntry → Prop) (P : Decimal → OrderEntry → Prop)
    (incoming : OrderEntry) (price : Decimal) (resting : OrderEntry) (amount : Decimal) : Prop where
  live : N incoming
  rests : P price resting
  unfilled : R.isFullyFilled incoming = false
  accepted : R.accepts incoming price = true
  foreign : incoming.userId ≠ resting.userId
  amount_eq : amount = R.matchAmount incoming resting price
  goes : R.breaksAt amount = false

omit [Arithmetic] in
theorem MatchRule.Fills.imp {N' : OrderEntry → Prop} {P' : Decimal → OrderEntry → Prop}
    {incoming resting : OrderEntry} {price amount : Decimal} (hN : ∀ o, N o → N' o) (hP : ∀ p o, P p o → P' p o)
    (h : R.Fills N P incoming price resting amount) : R.Fills N' P' incoming price resting amount :=
  ⟨hN _ h.live, hP _ _ h.rests, h.unfilled, h.accepted, h.foreign, h.amount_eq, h.goes⟩

/-- A match reports a fill. -/
def MatchRule.IsFill (R : MatchRule) (N : OrderEntry → Prop) (P : Decimal → OrderEntry → Prop) (m : MatchResult) :
    Prop :=
  ∃ incoming price resting amount, R.Fills N P incoming price resting amount ∧
    m = R.report incoming resting price amount

/-- A fill leaves an incoming order with `N` and, unless it is filled, a resting order with
`P`; its match has `Q`. -/
structure MatchRule.Facts (R : MatchRule) (N : OrderEntry → Prop) (P : Decimal → OrderEntry → Prop)
    (Q : MatchResult → Prop) : Prop where
  take : ∀ {incoming price resting amount}, R.Fills N P incoming price resting amount →
    N (R.take incoming amount price)
  fill : ∀ {incoming price resting amount}, R.Fills N P incoming price resting amount →
    0 < (resting.fill amount).remainingAmount → P price (resting.fill amount)
  report : ∀ {incoming price resting amount}, R.Fills N P incoming price resting amount →
    Q (R.report incoming resting price amount)

/-- The facts at one point of a call. -/
structure FactsAt (N : OrderEntry → Prop) (P : Decimal → OrderEntry → Prop) (Q : MatchResult → Prop)
    (incoming : OrderEntry) (stock : Multiset (Decimal × OrderEntry)) (results : List MatchResult) : Prop where
  live : N incoming
  stock : ∀ x ∈ stock, P x.1 x.2
  results : ∀ m ∈ results, Q m

theorem FactsAt.fill (F : R.Facts N P Q) {incoming resting : OrderEntry} {price amount : Decimal}
    {others : Multiset (Decimal × OrderEntry)} {results : List MatchResult}
    (h : FactsAt N P Q incoming ((price, resting) ::ₘ others) results)
    (hf : R.Fills N P incoming price resting amount) :
    FactsAt N P Q (R.take incoming amount price)
      (if 0 < (resting.fill amount).remainingAmount then (price, resting.fill amount) ::ₘ others else others)
      (results ++ [R.report incoming resting price amount]) where
  live := F.take hf
  stock := by
    have ho : ∀ x ∈ others, P x.1 x.2 := fun x hx => h.stock x (Multiset.mem_cons_of_mem hx)
    split_ifs with hr
    · intro x hx
      rcases Multiset.mem_cons.1 hx with rfl | hx
      · exact F.fill hf hr
      · exact ho x hx
    · exact ho
  results := by
    intro m hm
    rcases List.mem_append.1 hm with hm | hm
    · exact h.results m hm
    · rw [List.mem_singleton.1 hm]
      exact F.report hf

omit [Arithmetic] in
/-- The fill that a step of the matcher makes. -/
theorem FactsAt.fills {incoming resting : OrderEntry} {price amount : Decimal}
    {others : Multiset (Decimal × OrderEntry)} {results : List MatchResult}
    (h : FactsAt N P Q incoming ((price, resting) ::ₘ others) results)
    (hf : R.isFullyFilled incoming = false) (ha : R.accepts incoming price = true)
    (hu : incoming.userId ≠ resting.userId) (he : amount = R.matchAmount incoming resting price)
    (hb : R.breaksAt amount = false) : R.Fills N P incoming price resting amount :=
  ⟨h.live, h.stock _ (Multiset.mem_cons_self _ _), hf, ha, hu, he, hb⟩

omit [Arithmetic] in
theorem FactsAt.drop {incoming resting : OrderEntry} {price : Decimal}
    {others : Multiset (Decimal × OrderEntry)} {results : List MatchResult}
    (h : FactsAt N P Q incoming ((price, resting) ::ₘ others) results) :
    FactsAt N P Q incoming others results :=
  ⟨h.live, fun x hx => h.stock x (Multiset.mem_cons_of_mem hx), h.results⟩

/-- The matcher keeps the facts and, along with them, `J`. -/
theorem MatchRule.Facts.keeps (F : R.Facts N P Q)
    {J : OrderEntry → Multiset (Decimal × OrderEntry) → List MatchResult → List OrderEntry → Prop}
    (hdrop : ∀ {incoming price resting others results dropped}, P price resting →
      J incoming ((price, resting) ::ₘ others) results dropped →
        J incoming others results (dropped ++ [resting]))
    (hfill : ∀ {incoming price resting others results dropped amount},
      J incoming ((price, resting) ::ₘ others) results dropped →
        R.Fills N P incoming price resting amount →
        J (R.take incoming amount price)
          (if 0 < (resting.fill amount).remainingAmount then (price, resting.fill amount) ::ₘ others else others)
          (results ++ [R.report incoming resting price amount])
          (if 0 < (resting.fill amount).remainingAmount then dropped else dropped ++ [resting.fill amount])) :
    R.Keeps fun incoming stock results dropped =>
      FactsAt N P Q incoming stock results ∧ J incoming stock results dropped where
  drop h := ⟨h.1.drop, hdrop (h.1.stock _ (Multiset.mem_cons_self _ _)) h.2⟩
  fill h hf ha hu he hb :=
    have hfills := h.1.fills hf ha hu he hb
    ⟨h.1.fill F hfills, hfill h.2 hfills⟩

section Call

variable (F : R.Facts N P Q) {order : OrderEntry} {side : OrderBookSide} (hN : N order)
  (hP : ∀ x ∈ side.stock, P x.1 x.2)

include F hN hP

/-- **The facts, for a call.** -/
theorem matchAgainst_facts :
    FactsAt N P Q (matchAgainst R order side).incoming (matchAgainst R order side).side.stock
      (matchAgainst R order side).results :=
  (matchAgainst_keeps (F.keeps (J := fun _ _ _ _ => True) (fun _ _ => trivial) (fun _ _ => trivial))
    ⟨⟨hN, hP, by simp⟩, trivial⟩).1

/-- **What rests, what was let go and what was matched** weigh together what rested before. -/
theorem matchAgainst_conserves {M : Type*} [AddCommMonoid M] {w : OrderEntry → M} {g : MatchResult → M}
    (hw : ∀ {incoming price resting amount}, R.Fills N P incoming price resting amount →
      w (resting.fill amount) + g (R.report incoming resting price amount) = w resting) :
    ((matchAgainst R order side).side.stock.map fun x => w x.2).sum +
        ((matchAgainst R order side).dropped.map w).sum + ((matchAgainst R order side).results.map g).sum =
      (side.stock.map fun x => w x.2).sum := by
  refine (matchAgainst_keeps (F.keeps (J := fun _ stock results dropped =>
    (stock.map fun x => w x.2).sum + (dropped.map w).sum + (results.map g).sum =
      (side.stock.map fun x => w x.2).sum) ?_ ?_) ⟨⟨hN, hP, by simp⟩, by simp⟩).2
  · intro incoming price resting others results dropped _ h
    rw [← h, Multiset.map_cons, Multiset.sum_cons, List.map_append, List.sum_append, List.map_singleton,
      List.sum_singleton]
    abel
  · intro incoming price resting others results dropped amount h hf
    rw [← h, Multiset.map_cons, Multiset.sum_cons, ← hw hf, List.map_append, List.sum_append,
      List.map_singleton, List.sum_singleton]
    split_ifs
    · rw [Multiset.map_cons, Multiset.sum_cons]
      abel
    · rw [List.map_append, List.sum_append, List.map_singleton, List.sum_singleton]
      abel

/-- **Which orders are let go**: some as they rested, the others filled. -/
theorem matchAgainst_dropped : ∀ o ∈ (matchAgainst R order side).dropped,
    (∃ p, P p o) ∨ ∃ incoming price resting amount, R.Fills N P incoming price resting amount ∧
      (resting.fill amount).remainingAmount ≤ 0 ∧ o = resting.fill amount := by
  refine (matchAgainst_keeps (F.keeps (J := fun _ _ _ dropped => ∀ o ∈ dropped,
    (∃ p, P p o) ∨ ∃ incoming price resting amount, R.Fills N P incoming price resting amount ∧
      (resting.fill amount).remainingAmount ≤ 0 ∧ o = resting.fill amount) ?_ ?_) ⟨⟨hN, hP, by simp⟩, by simp⟩).2
  · intro incoming price resting others results dropped hp h o ho
    rcases List.mem_append.1 ho with ho | ho
    · exact h o ho
    · rw [List.mem_singleton.1 ho]
      exact Or.inl ⟨price, hp⟩
  · intro incoming price resting others results dropped amount h hf o ho
    split_ifs at ho with hr
    · exact h o ho
    · rcases List.mem_append.1 ho with ho | ho
      · exact h o ho
      · rw [List.mem_singleton.1 ho]
        exact Or.inr ⟨incoming, price, resting, amount, hf, not_lt.1 hr, rfl⟩

/-- **What the incoming order is charged.** -/
theorem matchAgainst_charges {M : Type*} [AddCommMonoid M] {v : OrderEntry → M} {g : MatchResult → M}
    (hv : ∀ {incoming price resting amount}, R.Fills N P incoming price resting amount →
      v (R.take incoming amount price) + g (R.report incoming resting price amount) = v incoming) :
    v (matchAgainst R order side).incoming + ((matchAgainst R order side).results.map g).sum = v order := by
  refine (matchAgainst_keeps (F.keeps (J := fun incoming _ results _ =>
    v incoming + (results.map g).sum = v order) (fun _ h => h) ?_) ⟨⟨hN, hP, by simp⟩, by simp⟩).2
  intro incoming price resting others results dropped amount h hf
  rw [← h, ← hv hf, List.map_append, List.sum_append, List.map_singleton, List.sum_singleton]
  abel

end Call

end CexEngine
