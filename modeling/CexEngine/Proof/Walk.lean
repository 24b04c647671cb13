import CexEngine.Proof.Sweep

/-!
# What the sweep matches

* `SweepNext`, `SweepStop`: what a step of the sweep can do.
* `sweep_inv`: the rule for what these steps keep.
* `MatchRule.allocate`: the matches along the offers, the other users' orders within the
  limit, best price first and in queue order.
* `matchAgainst_allocates`: **a call of the matcher makes these matches.**
-/

namespace CexEngine

open Pass

/-- A step of the sweep that goes on. -/
inductive SweepNext (R : MatchRule) (s : Sweep) : Sweep → Prop where
  | level {price : Decimal} {queue : List OrderEntry} {levels : List (Decimal × List OrderEntry)}
      (unfilled : R.isFullyFilled s.incoming = false) (ahead : s.ahead = [])
      (first : s.levels = (price, queue) :: levels) (accepts : R.accepts s.incoming price = true) :
      SweepNext R s { s with price, ahead := queue, passed := [], levels, dropped := s.dropped ++ s.passed }
  | pass {o : OrderEntry} {rest : List OrderEntry} (unfilled : R.isFullyFilled s.incoming = false)
      (ahead : s.ahead = o :: rest) (own : s.incoming.userId = o.userId) :
      SweepNext R s { s with ahead := rest, passed := s.passed ++ [o] }
  | fill {o : OrderEntry} {rest : List OrderEntry} (unfilled : R.isFullyFilled s.incoming = false)
      (ahead : s.ahead = o :: rest) (foreign : s.incoming.userId ≠ o.userId)
      (goes : R.breaksAt (R.matchAmount s.incoming o s.price) = false) :
      SweepNext R s (s.fill R (R.matchAmount s.incoming o s.price) o rest)

/-- The last step of the sweep. -/
inductive SweepStop (R : MatchRule) (s : Sweep) : Sweep → Prop where
  | filled (filled : R.isFullyFilled s.incoming = true) : SweepStop R s s
  | empty (unfilled : R.isFullyFilled s.incoming = false) (ahead : s.ahead = []) (levels : s.levels = []) :
      SweepStop R s { s with passed := [], dropped := s.dropped ++ s.passed }
  | limit {price : Decimal} {queue : List OrderEntry} {levels : List (Decimal × List OrderEntry)}
      (unfilled : R.isFullyFilled s.incoming = false) (ahead : s.ahead = [])
      (first : s.levels = (price, queue) :: levels) (rejects : R.accepts s.incoming price = false) :
      SweepStop R s { s with passed := [], dropped := s.dropped ++ s.passed }
  | dust {o : OrderEntry} {rest : List OrderEntry} (unfilled : R.isFullyFilled s.incoming = false)
      (ahead : s.ahead = o :: rest) (foreign : s.incoming.userId ≠ o.userId)
      (breaks : R.breaksAt (R.matchAmount s.incoming o s.price) = true) :
      SweepStop R s { s with ahead := [], passed := [], levels := [],
                             dropped := s.dropped ++ (s.ahead ++ s.passed) ++ s.levels.flatMap Prod.snd }

variable {R : MatchRule} {live : OrderEntry → Prop} {priced : Decimal → Prop} {s t : Sweep}

theorem sweepBody_next (h : sweepBody R s = .next t) : SweepNext R s t := by
  unfold sweepBody at h
  split_ifs at h with hf
  have hf' : R.isFullyFilled s.incoming = false := by simpa using hf
  split at h
  · rename_i hahead
    split at h
    · cases h
    · rename_i hl
      split_ifs at h with ha
      cases h
      exact .level hf' hahead hl ha
  · rename_i o rest hahead
    split_ifs at h with hu hb
    · cases h
      exact .pass hf' hahead hu
    · cases h
      exact .fill hf' hahead hu (by simpa using hb)

theorem sweepBody_stop (h : sweepBody R s = .stop t) : SweepStop R s t := by
  unfold sweepBody at h
  split_ifs at h with hf
  · cases h
    exact .filled hf
  have hf' : R.isFullyFilled s.incoming = false := by simpa using hf
  split at h
  · rename_i hahead
    split at h
    · rename_i hl
      cases h
      exact .empty hf' hahead hl
    · rename_i hl
      split_ifs at h with ha
      cases h
      exact .limit hf' hahead hl (by simpa using ha)
  · rename_i o rest hahead
    split_ifs at h with hu hb
    cases h
    exact .dust hf' hahead hu hb

/-! ## The rule for invariants -/

/-- What every state of a sweep has. -/
structure Sweep.Valid (R : MatchRule) (live : OrderEntry → Prop) (priced : Decimal → Prop) (s : Sweep) : Prop where
  live : live s.incoming
  ahead : ∀ o ∈ s.ahead, 0 < o.remainingAmount
  passed : ∀ o ∈ s.passed, s.incoming.userId = o.userId
  level : s.ahead ≠ [] ∨ s.passed ≠ [] → priced s.price ∧ R.accepts s.incoming s.price = true ∧
    ∀ l ∈ s.levels, BTreeMap.Before R.scansBuys s.price l.1
  levels : Walkable R.scansBuys priced s.levels

theorem Sweep.Valid.start {order : OrderEntry} {levels : List (Decimal × List OrderEntry)} (hlive : live order)
    (hw : Walkable R.scansBuys priced levels) : (Sweep.start levels order).Valid R live priced :=
  ⟨hlive, by simp [Sweep.start], by simp [Sweep.start], by simp [Sweep.start], hw⟩

theorem SweepNext.valid (hM : R.Followable live priced) (hs : s.Valid R live priced) (h : SweepNext R s t) :
    t.Valid R live priced := by
  cases h with
  | level unfilled ahead first accepts =>
    have hw := hs.levels
    rw [first] at hw
    exact ⟨hs.live, hw.remaining_pos _ List.mem_cons_self, by simp,
      fun _ => ⟨hw.priced _ List.mem_cons_self, accepts, fun l hl => List.rel_of_pairwise_cons hw.sorted hl⟩, hw.tail⟩
  | @pass o rest unfilled ahead own =>
    refine ⟨hs.live, fun o' ho' => hs.ahead o' (by rw [ahead]; exact List.mem_cons_of_mem _ ho'), ?_,
      fun _ => hs.level (Or.inl (by simp [ahead])), hs.levels⟩
    intro o' ho'
    rcases List.mem_append.1 ho' with ho' | ho'
    · exact hs.passed o' ho'
    · rw [List.mem_singleton.1 ho']; exact own
  | @fill o rest unfilled ahead foreign goes =>
    have hahead := hs.ahead
    rw [ahead, List.forall_mem_cons] at hahead
    obtain ⟨hp, ha, hafter⟩ := hs.level (Or.inl (by simp [ahead]))
    refine ⟨hM.take hs.live hp hahead.1 unfilled goes, ?_, ?_, ?_, hs.levels⟩
    · simp only [Sweep.fill]
      split_ifs with hr
      · exact List.forall_mem_cons.2 ⟨hr, hahead.2⟩
      · exact hahead.2
    · simpa only [Sweep.fill, R.take_userId] using hs.passed
    · intro _
      exact ⟨hp, by simpa only [Sweep.fill, R.accepts_take] using ha, hafter⟩

/-- **The rule for the sweep.** -/
theorem sweep_inv (hM : R.Followable live priced) {I J : Sweep → Prop}
    (hnext : ∀ s t, s.Valid R live priced → I s → SweepNext R s t → I t)
    (hstop : ∀ s t, s.Valid R live priced → I s → SweepStop R s t → J t) {s t : Sweep}
    (h : Exits (sweepBody R) s t) (hv : s.Valid R live priced) (hs : I s) : J t := by
  refine h.inv (I := fun s => s.Valid R live priced ∧ I s) (J := J) ?_ ?_ ⟨hv, hs⟩
  · rintro a b ⟨hva, ha⟩ hab
    have hn := sweepBody_next hab
    exact ⟨hn.valid hM hva, hnext a b hva ha hn⟩
  · rintro a b ⟨hva, ha⟩ hab
    exact hstop a b hva ha (sweepBody_stop hab)

/-! ## Offers -/

/-- The orders of some levels, each with its price. -/
def quotes (levels : List (Decimal × List OrderEntry)) : List (Decimal × OrderEntry) :=
  levels.flatMap fun l => l.2.map fun o => (l.1, o)

/-- The orders of a side, each with its price, best price first and in queue order. -/
def OrderBookSide.quotes (side : OrderBookSide) (isBuy : Bool) : List (Decimal × OrderEntry) :=
  CexEngine.quotes (side.levels isBuy)

@[simp] theorem quotes_nil : quotes [] = [] := rfl

@[simp] theorem quotes_cons (l : Decimal × List OrderEntry) (levels : List (Decimal × List OrderEntry)) :
    quotes (l :: levels) = l.2.map (fun o => (l.1, o)) ++ quotes levels := rfl

theorem mem_quotes {levels : List (Decimal × List OrderEntry)} {x : Decimal × OrderEntry} :
    x ∈ quotes levels ↔ ∃ l ∈ levels, x.1 = l.1 ∧ x.2 ∈ l.2 := by
  obtain ⟨p, o⟩ := x
  simp only [quotes, List.mem_flatMap, List.mem_map, Prod.mk.injEq]
  constructor
  · rintro ⟨l, hl, o, ho, rfl, rfl⟩; exact ⟨l, hl, rfl, ho⟩
  · rintro ⟨l, hl, rfl, ho⟩; exact ⟨l, hl, o, ho, rfl, rfl⟩

/-- The quotes of a side are its stock. -/
theorem OrderBookSide.coe_quotes (side : OrderBookSide) (isBuy : Bool) :
    (side.quotes isBuy : Multiset (Decimal × OrderEntry)) = side.stock := by
  rw [← stock_levels side isBuy, quotes]
  induction side.levels isBuy with
  | nil => rfl
  | cons l levels ih =>
    rw [quotes_cons, ← Multiset.coe_add, ih, List.map_cons, List.sum_cons]
    rfl

/-- The quotes an order can be matched with: other users' orders within its limit. -/
def MatchRule.offers (R : MatchRule) (order : OrderEntry) (xs : List (Decimal × OrderEntry)) :
    List (Decimal × OrderEntry) :=
  xs.filter fun x => decide (order.userId ≠ x.2.userId) && R.accepts order x.1

theorem MatchRule.offers_take (R : MatchRule) (order : OrderEntry) (amount price : Decimal) :
    R.offers (R.take order amount price) = R.offers order := by
  funext xs
  unfold MatchRule.offers
  simp only [R.take_userId, R.accepts_take]

theorem MatchRule.offers_cons {order o : OrderEntry} {price : Decimal} (hu : order.userId ≠ o.userId)
    (ha : R.accepts order price = true) (xs : List (Decimal × OrderEntry)) :
    R.offers order ((price, o) :: xs) = (price, o) :: R.offers order xs :=
  List.filter_cons_of_pos (by simp [hu, ha])

theorem MatchRule.offers_cons_own {order o : OrderEntry} {price : Decimal} (hu : order.userId = o.userId)
    (xs : List (Decimal × OrderEntry)) : R.offers order ((price, o) :: xs) = R.offers order xs :=
  List.filter_cons_of_neg (by simp [hu])

/-- The quotes that a sweep has before it. -/
def Sweep.quotes (s : Sweep) : List (Decimal × OrderEntry) :=
  s.ahead.map (fun o => (s.price, o)) ++ CexEngine.quotes s.levels

theorem Sweep.quotes_of_ahead {o : OrderEntry} {rest : List OrderEntry} (h : s.ahead = o :: rest) :
    s.quotes = (s.price, o) :: (rest.map (fun o => (s.price, o)) ++ CexEngine.quotes s.levels) := by
  rw [quotes, h]
  rfl

/-- Entering a level only moves its orders ahead. -/
theorem Sweep.quotes_level {price : Decimal} {queue : List OrderEntry} {levels : List (Decimal × List OrderEntry)}
    (ahead : s.ahead = []) (first : s.levels = (price, queue) :: levels) :
    Sweep.quotes ⟨price, queue, [], levels, s.incoming, s.results, s.dropped ++ s.passed⟩ = s.quotes := by
  simp [Sweep.quotes, ahead, first]

theorem Sweep.quotes_fill (R : MatchRule) (s : Sweep) (amount : Decimal) (o : OrderEntry) (rest : List OrderEntry) :
    (s.fill R amount o rest).quotes =
      if 0 < (o.fill amount).remainingAmount then
        (s.price, o.fill amount) :: (rest.map (fun o => (s.price, o)) ++ CexEngine.quotes s.levels)
      else rest.map (fun o => (s.price, o)) ++ CexEngine.quotes s.levels := by
  simp only [Sweep.quotes, Sweep.fill]
  split_ifs <;> rfl

/-- The quotes of levels come best price first. -/
theorem Walkable.quotes_pairwise {top : Bool} {levels : List (Decimal × List OrderEntry)}
    (h : Walkable top priced levels) :
    (CexEngine.quotes levels).Pairwise fun x y => x.1 = y.1 ∨ BTreeMap.Before top x.1 y.1 := by
  induction levels with
  | nil => exact .nil
  | cons l levels ih =>
    rw [quotes_cons, List.pairwise_append]
    refine ⟨List.pairwise_map.2 (List.pairwise_of_forall fun _ _ => Or.inl rfl), ih h.tail, ?_⟩
    intro x hx y hy
    obtain ⟨o, -, rfl⟩ := List.mem_map.1 hx
    obtain ⟨l', hl', hy, -⟩ := mem_quotes.1 hy
    rw [hy]
    exact Or.inr (List.rel_of_pairwise_cons h.sorted hl')

theorem Sweep.Valid.quotes_pairwise (h : s.Valid R live priced) :
    s.quotes.Pairwise fun x y => x.1 = y.1 ∨ BTreeMap.Before R.scansBuys x.1 y.1 := by
  rw [Sweep.quotes, List.pairwise_append]
  refine ⟨List.pairwise_map.2 (List.pairwise_of_forall fun _ _ => Or.inl rfl), h.levels.quotes_pairwise, ?_⟩
  intro x hx y hy
  obtain ⟨o, ho, rfl⟩ := List.mem_map.1 hx
  obtain ⟨l, hl, hy, -⟩ := mem_quotes.1 hy
  rw [hy]
  exact Or.inr ((h.level (Or.inl (List.ne_nil_of_mem ho))).2.2 l hl)

/-- With the best price all prices are refused. -/
theorem Sweep.Valid.rejects (hM : R.Followable live priced) (h : s.Valid R live priced) (hahead : s.ahead = [])
    {price : Decimal} {queue : List OrderEntry} {levels : List (Decimal × List OrderEntry)}
    (hfirst : s.levels = (price, queue) :: levels) (hrejects : R.accepts s.incoming price = false) :
    ∀ x ∈ s.quotes, R.accepts s.incoming x.1 = false := by
  intro x hx
  rw [Sweep.quotes, hahead, List.map_nil, List.nil_append] at hx
  obtain ⟨l, hl, hxl, -⟩ := mem_quotes.1 hx
  have hs := h.levels.sorted
  rw [hfirst] at hl hs
  rw [hxl]
  rcases List.mem_cons.1 hl with rfl | hl
  · exact hrejects
  · by_contra hc
    have := hM.nearer h.live (List.rel_of_pairwise_cons hs hl) (by simpa using hc)
    rw [hrejects] at this
    cases this

theorem MatchRule.offers_eq_nil {order : OrderEntry} {xs : List (Decimal × OrderEntry)}
    (h : ∀ x ∈ xs, R.accepts order x.1 = false) : R.offers order xs = [] :=
  List.filter_eq_nil_iff.2 fun x hx => by simp [h x hx]

/-- Another order's visit is possible. -/
def MatchRule.meets (R : MatchRule) (incoming o : OrderEntry) (price : Decimal) : Bool :=
  !R.isFullyFilled incoming && !R.breaksAt (R.matchAmount incoming o price)

/-- The matches along some offers. An order that is left with something is met once more. -/
def MatchRule.allocate (R : MatchRule) : OrderEntry → List (Decimal × OrderEntry) → List MatchResult
  | _, [] => []
  | incoming, (price, o) :: offers =>
    if R.meets incoming o price then
      let amount := R.matchAmount incoming o price
      let after := R.take incoming amount price
      let left := o.fill amount
      R.report incoming o price amount ::
        if 0 < left.remainingAmount then
          if R.meets after left price then
            R.report after left price (R.matchAmount after left price) ::
              R.allocate (R.take after (R.matchAmount after left price) price) offers
          else []
        else R.allocate after offers
    else []

theorem MatchRule.allocate_of_filled {incoming : OrderEntry} (h : R.isFullyFilled incoming = true)
    (offers : List (Decimal × OrderEntry)) : R.allocate incoming offers = [] := by
  cases offers with
  | nil => rfl
  | cons x offers => rw [allocate, if_neg (by simp [meets, h])]

/-- A visit, and what follows: the order again, if anything of it is left. -/
theorem MatchRule.Metered.allocate_cons (hM : R.Metered live priced) {incoming o : OrderEntry} {price : Decimal}
    (hlive : live incoming) (hp : priced price) (ho : 0 < o.remainingAmount) (hf : R.isFullyFilled incoming = false)
    (hb : R.breaksAt (R.matchAmount incoming o price) = false) (offers : List (Decimal × OrderEntry)) :
    R.allocate incoming ((price, o) :: offers) =
      R.report incoming o price (R.matchAmount incoming o price) ::
        R.allocate (R.take incoming (R.matchAmount incoming o price) price)
          (if 0 < (o.fill (R.matchAmount incoming o price)).remainingAmount then
            (price, o.fill (R.matchAmount incoming o price)) :: offers else offers) := by
  rw [allocate, if_pos (by simp [meets, hf, hb])]
  dsimp only
  congr 1
  split_ifs with hleft hmeets
  · rw [allocate, if_pos hmeets]
    dsimp only
    congr 1
    have hmeets' := hmeets
    simp only [meets, Bool.and_eq_true, Bool.not_eq_true'] at hmeets'
    -- a third visit never comes: the incoming order is filled, or the resting one gone
    by_cases hf' : R.isFullyFilled (R.take (R.take incoming (R.matchAmount incoming o price) price)
        (R.matchAmount (R.take incoming (R.matchAmount incoming o price) price)
          (o.fill (R.matchAmount incoming o price)) price) price) = true
    · split_ifs with h₁ h₂
      · simp [meets, hf'] at h₂
      · exact allocate_of_filled hf' _
      · rfl
    -- the same order met again: this takes all that is left of it
    · have hgone := hM.twice hlive hp ho hf hb hleft hmeets'.1 hmeets'.2 (by simpa using hf')
      rw [if_neg (not_lt.2 hgone)]
  · rw [allocate, if_neg hmeets]
  · rfl

/-- **A sweep makes the matches along its offers.** -/
theorem sweep_allocates (hM : R.Metered live priced) {s t : Sweep} (h : Exits (sweepBody R) s t)
    (hv : s.Valid R live priced) :
    t.results = s.results ++ R.allocate s.incoming (R.offers s.incoming s.quotes) := by
  refine sweep_inv hM.followable
    (I := fun a => a.results ++ R.allocate a.incoming (R.offers a.incoming a.quotes) =
      s.results ++ R.allocate s.incoming (R.offers s.incoming s.quotes))
    (J := fun t => t.results = s.results ++ R.allocate s.incoming (R.offers s.incoming s.quotes)) ?_ ?_ h hv rfl
  · intro a b ha hI hab
    rw [← hI]
    cases hab with
    | level unfilled ahead first accepts =>
      rw [Sweep.quotes_level ahead first]
    | pass unfilled ahead own =>
      -- an own order is no offer
      rw [Sweep.quotes_of_ahead ahead, MatchRule.offers_cons_own own]
      rfl
    | @fill o rest unfilled ahead foreign goes =>
      have hpos := ha.ahead o (by rw [ahead]; exact List.mem_cons_self)
      obtain ⟨hp, haccepts, -⟩ := ha.level (Or.inl (by simp [ahead]))
      have hfilled : a.incoming.userId ≠ (o.fill (R.matchAmount a.incoming o a.price)).userId := foreign
      rw [Sweep.quotes_of_ahead ahead, MatchRule.offers_cons foreign haccepts,
        hM.allocate_cons ha.live hp hpos unfilled goes, Sweep.quotes_fill]
      simp only [Sweep.fill, R.offers_take, List.append_assoc, List.singleton_append]
      split_ifs
      · rw [MatchRule.offers_cons hfilled haccepts]
      · rfl
  · intro a b ha hI hab
    rw [← hI]
    cases hab with
    | filled filled => rw [MatchRule.allocate_of_filled filled, List.append_nil]
    | empty unfilled ahead levels =>
      have hnil : R.offers a.incoming a.quotes = [] := by simp [Sweep.quotes, ahead, levels, MatchRule.offers]
      rw [hnil, MatchRule.allocate, List.append_nil]
    | limit unfilled ahead first rejects =>
      rw [MatchRule.offers_eq_nil (ha.rejects hM.followable ahead first rejects), MatchRule.allocate, List.append_nil]
    | @dust o rest unfilled ahead foreign breaks =>
      obtain ⟨-, haccepts, -⟩ := ha.level (Or.inl (by simp [ahead]))
      rw [Sweep.quotes_of_ahead ahead, MatchRule.offers_cons foreign haccepts, MatchRule.allocate,
        if_neg (by simp [MatchRule.meets, breaks]), List.append_nil]

/-- **A call of the matcher makes the matches along the offers of the side it meets.** -/
theorem matchAgainst_allocates (hM : R.Metered live priced) {order : OrderEntry} {side : OrderBookSide}
    (hlive : live order) (hw : Walkable R.scansBuys priced (side.levels R.scansBuys)) :
    (matchAgainst R order side).results = R.allocate order (R.offers order (side.quotes R.scansBuys)) := by
  obtain ⟨t, ht, hagrees⟩ := matchAgainst_sweeps hM.followable hlive hw
  rw [hagrees.results, sweep_allocates hM ht (.start hlive hw)]
  rfl

end CexEngine
