import Mathlib.Algebra.BigOperators.Group.Multiset.Basic
import Mathlib.Data.Multiset.AddSub
import CexEngine.Spec.Matcher

/-!
# The scan of one price

What a pass of the inner loop of the matcher does, and what follows for a whole scan.

* `scanBody_next`, `scanBody_stop`: a pass rotates an own order to the back, fills
  another user's order, or lets an order go.
* `scanLevel_exits`: the scan ends by a `break`, never by running out of passes.
* `MatchRule.Keeps`: a property that survives an order being let go and an order being
  filled. It is about the multiset of the resting orders, so a rotation cannot break it.
* `scanLevel_keeps`: a scan keeps such a property.
-/

namespace CexEngine

open Pass

variable {price : Decimal}

/-- Orders of a queue, with the price they are queued at. -/
def atPrice (price : Decimal) (queue : List OrderEntry) : Multiset (Decimal × OrderEntry) :=
  (queue.map fun o => (price, o) : List (Decimal × OrderEntry))

@[simp] theorem atPrice_nil : atPrice price [] = 0 := rfl

@[simp] theorem atPrice_cons (o : OrderEntry) (queue : List OrderEntry) :
    atPrice price (o :: queue) = (price, o) ::ₘ atPrice price queue := rfl

@[simp] theorem atPrice_append (q₁ q₂ : List OrderEntry) :
    atPrice price (q₁ ++ q₂) = atPrice price q₁ + atPrice price q₂ := by
  simp [atPrice, ← Multiset.coe_add]

theorem mem_atPrice {queue : List OrderEntry} {x : Decimal × OrderEntry} :
    x ∈ atPrice price queue ↔ x.1 = price ∧ x.2 ∈ queue := by
  obtain ⟨p, o⟩ := x
  simp only [atPrice, Multiset.mem_coe, List.mem_map, Prod.mk.injEq]
  constructor
  · rintro ⟨a, ha, rfl, rfl⟩; exact ⟨rfl, ha⟩
  · rintro ⟨rfl, ho⟩; exact ⟨o, ho, rfl, rfl⟩

variable [Arithmetic] {R : MatchRule} {n : ℕ} {s t : Scan}

/-- A pass that goes on rotates an own order, or fills another user's. -/
theorem scanBody_next (h : scanBody R price n s = .next t) :
    ∃ resting rest, s.queue = resting :: rest ∧ s.processedCount + 1 ≤ n * 2 ∧
      ((s.incoming.userId = resting.userId ∧
          t = { s with queue := rest ++ [resting], processedCount := s.processedCount + 1 }) ∨
        (s.incoming.userId ≠ resting.userId ∧ R.breaksAt (R.matchAmount s.incoming resting price) = false ∧
          t = s.fill R price (R.matchAmount s.incoming resting price) resting rest ∧
          R.isFullyFilled t.incoming = false)) := by
  unfold scanBody at h
  split at h
  · cases h
  · rename_i resting rest hq
    refine ⟨resting, rest, hq, ?_⟩
    dsimp only at h
    split_ifs at h with hn hu hb hf
    · cases h
      exact ⟨by omega, Or.inl ⟨hu, rfl⟩⟩
    · cases h
      exact ⟨by omega, Or.inr ⟨hu, by simpa using hb, rfl, by simpa using hf⟩⟩

/-- The last pass finds the queue empty, lets an order go, or uses the incoming order up. -/
theorem scanBody_stop (h : scanBody R price n s = .stop t) :
    (s.queue = [] ∧ t = s) ∨
      ∃ resting rest, s.queue = resting :: rest ∧
        ((t = { s with queue := rest, processedCount := s.processedCount + 1,
                        dropped := s.dropped ++ [resting] } ∧
            (n * 2 < s.processedCount + 1 ∨
              (s.incoming.userId ≠ resting.userId ∧
                R.breaksAt (R.matchAmount s.incoming resting price) = true))) ∨
          (s.incoming.userId ≠ resting.userId ∧ R.breaksAt (R.matchAmount s.incoming resting price) = false ∧
            t = s.fill R price (R.matchAmount s.incoming resting price) resting rest ∧
            R.isFullyFilled t.incoming = true)) := by
  unfold scanBody at h
  split at h
  · rename_i hq
    cases h
    exact Or.inl ⟨hq, rfl⟩
  · rename_i resting rest hq
    refine Or.inr ⟨resting, rest, hq, ?_⟩
    dsimp only at h
    split_ifs at h with hn hu hb hf
    · cases h
      exact Or.inl ⟨rfl, Or.inl (by omega)⟩
    · cases h
      exact Or.inl ⟨rfl, Or.inr ⟨hu, hb⟩⟩
    · cases h
      exact Or.inr ⟨hu, by simpa using hb, rfl, hf⟩

@[simp] theorem Scan.fill_processedCount (amount : Decimal) (resting : OrderEntry) (rest : List OrderEntry) :
    (s.fill R price amount resting rest).processedCount = s.processedCount + 1 := rfl

/-- A scan that goes on has popped one more order, and at most twice the queue's length. -/
theorem scanBody_next_count (h : scanBody R price n s = .next t) :
    t.processedCount = s.processedCount + 1 ∧ s.processedCount + 1 ≤ n * 2 := by
  obtain ⟨resting, rest, -, hn, ⟨-, rfl⟩ | ⟨-, -, rfl, -⟩⟩ := scanBody_next h
  · exact ⟨rfl, hn⟩
  · exact ⟨rfl, hn⟩

/-- **The scan is never cut off**: it ends by one of the `break`s of the source. -/
theorem scanLevel_exits (R : MatchRule) (price : Decimal) (queue : List OrderEntry) (incoming : OrderEntry) :
    Exits (scanBody R price queue.length) ⟨queue, incoming, 0, [], []⟩ (scanLevel R price queue incoming) := by
  refine exits_run (fun s => queue.length * 2 - s.processedCount) ?_ _ _ (by simp)
  intro s t h
  obtain ⟨ht, hs⟩ := scanBody_next_count h
  omega

/-! ## What a scan keeps -/

/-- A property of an incoming order, the orders resting on the other side, the matches and
the orders let go, that one step of the matcher keeps. -/
structure MatchRule.Keeps (R : MatchRule)
    (I : OrderEntry → Multiset (Decimal × OrderEntry) → List MatchResult → List OrderEntry → Prop) : Prop where
  /-- An order is let go. -/
  drop : ∀ {incoming price resting others results dropped},
    I incoming ((price, resting) ::ₘ others) results dropped →
      I incoming others results (dropped ++ [resting])
  /-- Another user's order is filled; it stays while anything remains. -/
  fill : ∀ {incoming price resting others results dropped amount},
    I incoming ((price, resting) ::ₘ others) results dropped →
      R.isFullyFilled incoming = false → R.accepts incoming price = true →
      incoming.userId ≠ resting.userId → amount = R.matchAmount incoming resting price →
      R.breaksAt amount = false →
      I (R.take incoming amount price)
        (if 0 < (resting.fill amount).remainingAmount then (price, resting.fill amount) ::ₘ others else others)
        (results ++ [R.report incoming resting price amount])
        (if 0 < (resting.fill amount).remainingAmount then dropped else dropped ++ [resting.fill amount])

variable {I : OrderEntry → Multiset (Decimal × OrderEntry) → List MatchResult → List OrderEntry → Prop}

omit [Arithmetic] in
/-- The parts of an order that its terms fix. -/
theorem OrderEntry.terms_eq {o o' : OrderEntry} (h : o.terms = o'.terms) :
    o.id = o'.id ∧ o.userId = o'.userId ∧ o.orderType = o'.orderType ∧ o.orderSide = o'.orderSide ∧
      o.pair = o'.pair ∧ o.price = o'.price := by
  cases o; cases o'
  simp_all [terms, pair]

omit [Arithmetic] in
theorem MatchRule.accepts_take (R : MatchRule) (incoming : OrderEntry) (amount price p : Decimal) :
    R.accepts (R.take incoming amount price) p = R.accepts incoming p := by
  rw [← R.accepts_terms, R.take_terms, R.accepts_terms]

omit [Arithmetic] in
theorem MatchRule.take_userId (R : MatchRule) (incoming : OrderEntry) (amount price : Decimal) :
    (R.take incoming amount price).userId = incoming.userId :=
  (OrderEntry.terms_eq (R.take_terms incoming amount price)).2.1

/-- A fill inside a scan, seen from outside. -/
theorem MatchRule.Keeps.scan_fill (hI : R.Keeps I) {others : Multiset (Decimal × OrderEntry)}
    {results : List MatchResult} {dropped : List OrderEntry} {resting : OrderEntry} {rest : List OrderEntry}
    (hs : I s.incoming (atPrice price (resting :: rest) + others) (results ++ s.results) (dropped ++ s.dropped))
    (hf : R.isFullyFilled s.incoming = false) (ha : R.accepts s.incoming price = true)
    (hu : s.incoming.userId ≠ resting.userId)
    (hb : R.breaksAt (R.matchAmount s.incoming resting price) = false)
    (ht : t = s.fill R price (R.matchAmount s.incoming resting price) resting rest) :
    I t.incoming (atPrice price t.queue + others) (results ++ t.results) (dropped ++ t.dropped) := by
  subst ht
  rw [atPrice_cons, Multiset.cons_add] at hs
  have := hI.fill hs hf ha hu rfl hb
  simp only [Scan.fill]
  split_ifs at this ⊢ with hr
  · simpa [Multiset.cons_add, List.append_assoc] using this
  · simpa [List.append_assoc] using this

/-- A pass that goes on keeps it, and the incoming order stays within the limit and unfilled. -/
theorem MatchRule.Keeps.scan_next (hI : R.Keeps I) {others : Multiset (Decimal × OrderEntry)}
    {results : List MatchResult} {dropped : List OrderEntry}
    (hs : I s.incoming (atPrice price s.queue + others) (results ++ s.results) (dropped ++ s.dropped))
    (hf : R.isFullyFilled s.incoming = false) (ha : R.accepts s.incoming price = true)
    (hst : scanBody R price n s = .next t) :
    I t.incoming (atPrice price t.queue + others) (results ++ t.results) (dropped ++ t.dropped) ∧
      R.isFullyFilled t.incoming = false ∧ R.accepts t.incoming price = true := by
  obtain ⟨resting, rest, hq, -, ⟨-, rfl⟩ | ⟨hu, hb, rfl, hft⟩⟩ := scanBody_next hst
  · -- a rotated queue has the same orders
    refine ⟨?_, hf, ha⟩
    rw [hq, atPrice_cons, Multiset.cons_add] at hs
    simpa [add_right_comm, Multiset.add_cons, add_comm _ ({(price, resting)} : Multiset _)] using hs
  · rw [hq] at hs
    refine ⟨hI.scan_fill hs hf ha hu hb rfl, hft, ?_⟩
    simpa only [Scan.fill, R.accepts_take] using ha

/-- **A scan keeps it**, whatever rests at the other prices and happened before. -/
theorem scanLevel_keeps (hI : R.Keeps I) {queue : List OrderEntry} {incoming : OrderEntry}
    {others : Multiset (Decimal × OrderEntry)} {results : List MatchResult} {dropped : List OrderEntry}
    (h : I incoming (atPrice price queue + others) results dropped)
    (hf : R.isFullyFilled incoming = false) (ha : R.accepts incoming price = true) :
    I (scanLevel R price queue incoming).incoming
      (atPrice price (scanLevel R price queue incoming).queue + others)
      (results ++ (scanLevel R price queue incoming).results)
      (dropped ++ (scanLevel R price queue incoming).dropped) := by
  refine (scanLevel_exits R price queue incoming).inv
    (I := fun s => I s.incoming (atPrice price s.queue + others) (results ++ s.results) (dropped ++ s.dropped) ∧
      R.isFullyFilled s.incoming = false ∧ R.accepts s.incoming price = true)
    (J := fun s => I s.incoming (atPrice price s.queue + others) (results ++ s.results) (dropped ++ s.dropped))
    (fun s t hs hst => hI.scan_next hs.1 hs.2.1 hs.2.2 hst) ?_ ⟨by simpa using h, hf, ha⟩
  rintro s t ⟨hs, hf, ha⟩ hst
  rcases scanBody_stop hst with ⟨-, rfl⟩ | ⟨resting, rest, hq, ⟨rfl, -⟩ | ⟨hu, hb, rfl, -⟩⟩
  · exact hs
  · rw [hq, atPrice_cons, Multiset.cons_add] at hs
    simpa [List.append_assoc] using hI.drop hs
  · rw [hq] at hs
    exact hI.scan_fill hs hf ha hu hb rfl

end CexEngine
