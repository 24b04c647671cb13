import CexEngine.Proof.PriceTime

/-!
# Resting orders of the same user

An order passes over the resting orders of its own user, and lets go of them where it leaves a
level, or where its rest is too small to be matched.

* `MatchRule.Uses`: what an order has left, and how much of it a quantity at a price uses: the
  quantity, or its cost.
* `Sweep.LosesOwn`: some own order has a price up to which the others' orders use up less than
  the incoming order has left.
* `sweep_loses_own`: **exactly then a sweep lets go of an own order**, unless it lets go of
  another user's order that is not filled; then it lets go of all own orders.
-/

namespace CexEngine

open Pass

/-- A quantity at a price uses `unit` of what an order has `left`, for each piece. -/
structure MatchRule.Uses (R : MatchRule) (order : OrderEntry) (live : OrderEntry → Prop) (priced : Decimal → Prop)
    (unit : Decimal → Decimal) (left : OrderEntry → Decimal) : Prop where
  terms : ∀ {incoming}, live incoming → incoming.terms = order.terms
  scans : R.scansBuys = !order.isBuy
  accepts : ∀ price, R.accepts order price = order.crosses price
  le : ∀ {incoming o price}, live incoming → R.matchAmount incoming o price ≤ o.remainingAmount
  take : ∀ {incoming amount price}, live incoming →
    left (R.take incoming amount price) = left incoming - unit price * amount
  filled : ∀ {incoming}, live incoming → (R.isFullyFilled incoming = true ↔ left incoming ≤ 0)
  unit_nonneg : ∀ {price}, priced price → 0 ≤ unit price

/-- What all the other users' orders up to a price use. -/
def OrderEntry.usedUpTo (o : OrderEntry) (unit : Decimal → Decimal) (xs : List (Decimal × OrderEntry))
    (price : Decimal) : Decimal :=
  Greedy.total (fun x => unit x.1 * remaining x)
    ((o.foreign xs).filter fun x => if o.isBuy then x.1 ≤ price else price ≤ x.1)

section UsedUpTo

variable {order o : OrderEntry} {unit : Decimal → Decimal} {price p : Decimal} {xs : List (Decimal × OrderEntry)}

theorem OrderEntry.usedUpTo_own (h : order.userId = o.userId) :
    order.usedUpTo unit ((price, o) :: xs) p = order.usedUpTo unit xs p := by
  unfold OrderEntry.usedUpTo OrderEntry.foreign
  rw [List.filter_cons_of_neg (by simp [h])]

theorem OrderEntry.usedUpTo_foreign (h : order.userId ≠ o.userId)
    (hp : if order.isBuy then price ≤ p else p ≤ price) :
    order.usedUpTo unit ((price, o) :: xs) p = unit price * o.remainingAmount + order.usedUpTo unit xs p := by
  unfold OrderEntry.usedUpTo OrderEntry.foreign
  rw [List.filter_cons_of_pos (by simp [h]), List.filter_cons_of_pos (by simpa using hp), Greedy.total_cons]
  rfl

theorem OrderEntry.usedUpTo_nonneg (h : ∀ x ∈ xs, 0 ≤ unit x.1 ∧ 0 ≤ x.2.remainingAmount) :
    0 ≤ order.usedUpTo unit xs p :=
  Greedy.total_nonneg fun x hx =>
    have hx' := h x (List.mem_of_mem_filter (List.mem_of_mem_filter hx))
    mul_nonneg hx'.1 hx'.2

/-- Nothing is used up to a price before all the quotes. -/
theorem OrderEntry.usedUpTo_eq_zero (h : ∀ x ∈ xs, ¬ if order.isBuy then x.1 ≤ p else p ≤ x.1) :
    order.usedUpTo unit xs p = 0 := by
  have hnil : (order.foreign xs).filter (fun x => if order.isBuy then x.1 ≤ p else p ≤ x.1) = [] :=
    List.filter_eq_nil_iff.2 fun x hx => by simpa using h x (List.mem_of_mem_filter hx)
  unfold OrderEntry.usedUpTo
  rw [hnil, Greedy.total_nil]

/-- `if isBuy then a ≤ b else b ≤ a` says that `a` is `b` or comes before it. -/
theorem upTo_iff_before {a b : Decimal} :
    (if order.isBuy then a ≤ b else b ≤ a) ↔ a = b ∨ BTreeMap.Before (!order.isBuy) a b := by
  unfold BTreeMap.Before
  cases order.isBuy
  · simp [le_iff_eq_or_lt, eq_comm]
  · simp [le_iff_eq_or_lt]

end UsedUpTo

/-! ## The sweep -/

variable {R : MatchRule} {order : OrderEntry} {live : OrderEntry → Prop} {priced : Decimal → Prop}
  {unit : Decimal → Decimal} {left : OrderEntry → Decimal}

/-- The sweep will leave this order of the own user behind, with something left. -/
def Sweep.GetsPast (order : OrderEntry) (unit : Decimal → Decimal) (left : OrderEntry → Decimal) (s : Sweep)
    (x : Decimal × OrderEntry) : Prop :=
  x.2.userId = order.userId ∧ order.crosses x.1 = true ∧ order.usedUpTo unit s.quotes x.1 < left s.incoming

/-- It has let go of an own order, or will get past one that it passed over or that is ahead. -/
def Sweep.LosesOwn (order : OrderEntry) (unit : Decimal → Decimal) (left : OrderEntry → Decimal) (s : Sweep) : Prop :=
  (∃ o ∈ s.dropped, o.userId = order.userId) ∨
    (∃ x ∈ s.passed.map (fun o => (s.price, o)), s.GetsPast order unit left x) ∨
    ∃ x ∈ s.quotes, s.GetsPast order unit left x

/-- There is an own order, let go of or not. -/
def Sweep.HasOwn (order : OrderEntry) (s : Sweep) : Prop :=
  (∃ o ∈ s.dropped, o.userId = order.userId) ∨ (∃ o ∈ s.passed, o.userId = order.userId) ∨
    ∃ x ∈ s.quotes, x.2.userId = order.userId

section Step

variable {s t : Sweep} (hU : R.Uses order live priced unit left) (hv : s.Valid R live priced)

include hU hv

theorem Sweep.Valid.own : s.incoming.userId = order.userId := (OrderEntry.terms_eq (hU.terms hv.live)).2.1

theorem Sweep.Valid.crosses (price : Decimal) : R.accepts s.incoming price = order.crosses price := by
  rw [← hU.accepts, ← R.accepts_terms s.incoming, hU.terms hv.live, R.accepts_terms]

theorem left_pos (hf : R.isFullyFilled s.incoming = false) : 0 < left s.incoming := by
  rw [← not_le, ← hU.filled hv.live, hf]
  exact Bool.false_ne_true

/-- A used-up order gets past nothing. -/
theorem not_getsPast_of_filled (hf : R.isFullyFilled s.incoming = true) (x : Decimal × OrderEntry) :
    ¬ s.GetsPast order unit left x := by
  rintro ⟨-, -, hlt⟩
  refine absurd hlt (not_lt.2 (((hU.filled hv.live).1 hf).trans (OrderEntry.usedUpTo_nonneg fun y hy => ?_)))
  rcases List.mem_append.1 hy with hy | hy
  · obtain ⟨o, ho, rfl⟩ := List.mem_map.1 hy
    exact ⟨hU.unit_nonneg (hv.level (Or.inl (List.ne_nil_of_mem ho))).1, (hv.ahead o ho).le⟩
  · obtain ⟨l, hl, hyl, ho⟩ := mem_quotes.1 hy
    rw [hyl]
    exact ⟨hU.unit_nonneg (hv.levels.priced l hl), (hv.levels.remaining_pos l hl _ ho).le⟩

/-- Where a level is done with, the sweep gets past all it passed over there. -/
theorem passed_getsPast (hf : R.isFullyFilled s.incoming = false) (hahead : s.ahead = []) :
    (∃ x ∈ s.passed.map (fun o => (s.price, o)), s.GetsPast order unit left x) ↔
      ∃ o ∈ s.passed, o.userId = order.userId := by
  constructor
  · rintro ⟨x, hx, hu, -, -⟩
    obtain ⟨o, ho, rfl⟩ := List.mem_map.1 hx
    exact ⟨o, ho, hu⟩
  · rintro ⟨o, ho, hu⟩
    obtain ⟨-, haccepts, hafter⟩ := hv.level (Or.inr (List.ne_nil_of_mem ho))
    rw [hv.crosses hU] at haccepts
    refine ⟨_, List.mem_map_of_mem ho, hu, haccepts, ?_⟩
    rw [OrderEntry.usedUpTo_eq_zero]
    · exact left_pos hU hv hf
    · intro x hx
      rw [Sweep.quotes, hahead, List.map_nil, List.nil_append] at hx
      obtain ⟨l, hl, hxl, -⟩ := mem_quotes.1 hx
      rw [upTo_iff_before, hxl, ← hU.scans]
      exact (hafter l hl).not_before

section Fill

variable {o : OrderEntry} {rest : List OrderEntry} (ahead : s.ahead = o :: rest) (foreign : order.userId ≠ o.userId)

include ahead foreign

/-- A fill decides nothing: what is left and what the quotes use drop by the same amount. -/
theorem getsPast_fill {x : Decimal × OrderEntry} (hx : s.price = x.1 ∨ BTreeMap.Before R.scansBuys s.price x.1) :
    (s.fill R (R.matchAmount s.incoming o s.price) o rest).GetsPast order unit left x ↔ s.GetsPast order unit left x := by
  set others := rest.map (fun o => (s.price, o)) ++ quotes s.levels with hothers
  set amount := R.matchAmount s.incoming o s.price with hamount
  have hleft : left (s.fill R amount o rest).incoming = left s.incoming - unit s.price * amount := hU.take hv.live
  have hle : amount ≤ o.remainingAmount := hU.le hv.live
  rw [hU.scans, ← upTo_iff_before] at hx
  have hused : order.usedUpTo unit (s.fill R amount o rest).quotes x.1 =
      order.usedUpTo unit s.quotes x.1 - unit s.price * amount := by
    rw [Sweep.quotes_of_ahead ahead, Sweep.quotes_fill, OrderEntry.usedUpTo_foreign foreign hx]
    split_ifs with hrest
    · have hforeign : order.userId ≠ (o.fill amount).userId := foreign
      rw [OrderEntry.usedUpTo_foreign hforeign hx, OrderEntry.fill, ExactSums.sub_eq]
      ring
    · rw [OrderEntry.fill, ExactSums.sub_eq, sub_pos, not_lt] at hrest
      rw [le_antisymm hle hrest]
      ring
  simp only [Sweep.GetsPast, hused, hleft, sub_lt_sub_iff_right]

omit hU hv ahead in
/-- A fill meets no own order. -/
theorem exists_quotes_fill (amount : Decimal) (P : Decimal × OrderEntry → Prop)
    (hP : ∀ x, P x → x.2.userId = order.userId) :
    (∃ x ∈ (s.fill R amount o rest).quotes, P x) ↔
      ∃ x ∈ rest.map (fun o => (s.price, o)) ++ quotes s.levels, P x := by
  have hfilled : ¬ P (s.price, o.fill amount) := fun hp => foreign (hP _ hp).symm
  rw [Sweep.quotes_fill]
  split_ifs
  · rw [List.exists_mem_cons_iff, or_iff_right hfilled]
  · rfl

omit hU hv ahead in
theorem own_dropped_fill (amount : Decimal) :
    (∃ o' ∈ (s.fill R amount o rest).dropped, o'.userId = order.userId) ↔
      ∃ o' ∈ s.dropped, o'.userId = order.userId := by
  have hforeign : (o.fill amount).userId ≠ order.userId := Ne.symm foreign
  unfold Sweep.fill
  dsimp only
  split_ifs
  · rfl
  · simp only [List.mem_append, List.mem_singleton, or_and_right, exists_or, exists_eq_left, hforeign, or_false]

/-- **A fill** loses no own order. -/
theorem losesOwn_fill : (s.fill R (R.matchAmount s.incoming o s.price) o rest).LosesOwn order unit left ↔
    s.LosesOwn order unit left := by
  have hpair := hv.quotes_pairwise
  rw [Sweep.quotes_of_ahead ahead] at hpair
  have hpassed : ∀ x ∈ s.passed.map (fun o => (s.price, o)),
      (s.fill R (R.matchAmount s.incoming o s.price) o rest).GetsPast order unit left x ↔
        s.GetsPast order unit left x := by
    intro x hx
    obtain ⟨o', -, rfl⟩ := List.mem_map.1 hx
    exact getsPast_fill hU hv ahead foreign (Or.inl rfl)
  have hahead : (∃ x ∈ (s.fill R (R.matchAmount s.incoming o s.price) o rest).quotes,
      (s.fill R (R.matchAmount s.incoming o s.price) o rest).GetsPast order unit left x) ↔
        ∃ x ∈ s.quotes, s.GetsPast order unit left x := by
    have hnot : ¬ s.GetsPast order unit left (s.price, o) := fun hp => foreign hp.1.symm
    rw [exists_quotes_fill foreign _ _ fun x hx => hx.1, Sweep.quotes_of_ahead ahead, List.exists_mem_cons_iff,
      or_iff_right hnot]
    exact exists_congr fun x => and_congr_right fun hx =>
      getsPast_fill hU hv ahead foreign (List.rel_of_pairwise_cons hpair hx)
  unfold Sweep.LosesOwn
  rw [own_dropped_fill foreign, hahead]
  exact or_congr_right (or_congr_left (exists_congr fun x => and_congr_right (hpassed x)))

end Fill

/-- A step that goes on decides nothing. -/
theorem SweepNext.losesOwn (h : SweepNext R s t) : t.LosesOwn order unit left ↔ s.LosesOwn order unit left := by
  have huser := hv.own hU
  cases h with
  | @level price queue levels unfilled ahead first accepts =>
    have hquotes := Sweep.quotes_level ahead first
    unfold Sweep.LosesOwn
    rw [passed_getsPast hU hv unfilled ahead]
    simp only [Sweep.GetsPast, hquotes, List.map_nil, List.not_mem_nil, false_and, exists_false, false_or,
      List.mem_append, or_and_right, exists_or, or_assoc]
  | @pass o rest unfilled ahead own =>
    have hown := huser.symm.trans own
    let next : Sweep := { s with ahead := rest, passed := s.passed ++ [o] }
    have hquotes : s.quotes = (s.price, o) :: next.quotes := Sweep.quotes_of_ahead ahead
    have hpast : ∀ x, next.GetsPast order unit left x ↔ s.GetsPast order unit left x := by
      intro x
      simp only [Sweep.GetsPast, hquotes, OrderEntry.usedUpTo_own hown, next]
    change next.LosesOwn order unit left ↔ _
    simp only [Sweep.LosesOwn, hpast, hquotes, next, List.map_append, List.map_cons, List.map_nil, List.mem_append,
      List.mem_cons, List.not_mem_nil, false_and, exists_false, false_or, or_and_right, exists_or, exists_eq_left,
      or_assoc]
  | fill unfilled ahead foreign goes =>
    rw [huser] at foreign
    exact losesOwn_fill hU hv ahead foreign

/-- The own orders stay. -/
theorem SweepNext.hasOwn (h : SweepNext R s t) : t.HasOwn order ↔ s.HasOwn order := by
  have huser := hv.own hU
  cases h with
  | @level price queue levels unfilled ahead first accepts =>
    have hquotes := Sweep.quotes_level ahead first
    simp only [Sweep.HasOwn, hquotes, List.not_mem_nil, false_and, exists_false, false_or, List.mem_append,
      or_and_right, exists_or, or_assoc]
  | @pass o rest unfilled ahead own =>
    let next : Sweep := { s with ahead := rest, passed := s.passed ++ [o] }
    have hquotes : s.quotes = (s.price, o) :: next.quotes := Sweep.quotes_of_ahead ahead
    change next.HasOwn order ↔ _
    simp only [Sweep.HasOwn, hquotes, next, List.mem_append, List.mem_cons, List.not_mem_nil, or_false, or_and_right,
      exists_or, exists_eq_left, or_assoc]
  | @fill o rest unfilled ahead foreign goes =>
    rw [huser] at foreign
    have hown : ¬ o.userId = order.userId := Ne.symm foreign
    have hquotes : (∃ x ∈ (s.fill R (R.matchAmount s.incoming o s.price) o rest).quotes, x.2.userId = order.userId) ↔
        ∃ x ∈ rest.map (fun o => (s.price, o)) ++ quotes s.levels, x.2.userId = order.userId :=
      exists_quotes_fill foreign _ _ fun _ hx => hx
    unfold Sweep.HasOwn
    rw [own_dropped_fill foreign, hquotes, Sweep.quotes_of_ahead ahead, List.exists_mem_cons_iff, or_iff_right hown]
    rfl

end Step

/-! ## The end -/

/-- The orders that a sweep has before it. -/
theorem Sweep.map_snd_quotes (s : Sweep) : s.quotes.map Prod.snd = s.ahead ++ s.levels.flatMap Prod.snd := by
  unfold Sweep.quotes CexEngine.quotes
  rw [List.map_append, List.map_map, List.map_flatMap]
  congr 1
  · exact List.map_id _
  · simp only [List.map_map]
    exact List.flatMap_congr fun l _ => List.map_id _

/-- Other users' orders that were let go of are filled. -/
def OthersFilled (order : OrderEntry) (dropped : List OrderEntry) : Prop :=
  ∀ o ∈ dropped, o.userId ≠ order.userId → o.remainingAmount = 0

theorem OthersFilled.append_own {dropped passed : List OrderEntry} (h : OthersFilled order dropped)
    (hpassed : ∀ o ∈ passed, o.userId = order.userId) : OthersFilled order (dropped ++ passed) := by
  intro o ho hne
  rcases List.mem_append.1 ho with ho | ho
  · exact h o ho hne
  · exact absurd (hpassed o ho) hne

/-- A fill lets go of the order if it is filled. -/
theorem OthersFilled.fill {s : Sweep} (h : OthersFilled order s.dropped) {o : OrderEntry} {rest : List OrderEntry}
    {amount : Decimal} (hle : amount ≤ o.remainingAmount) : OthersFilled order (s.fill R amount o rest).dropped := by
  unfold Sweep.fill
  dsimp only
  split_ifs with hleft
  · exact h
  · intro o' ho' hne
    rcases List.mem_append.1 ho' with ho' | ho'
    · exact h o' ho' hne
    · rw [List.mem_singleton.1 ho']
      exact le_antisymm (not_lt.1 hleft) (sub_nonneg.2 hle)

theorem SweepNext.othersFilled (hU : R.Uses order live priced unit left) {s t : Sweep}
    (hv : s.Valid R live priced) (hs : OthersFilled order s.dropped) (h : SweepNext R s t) :
    OthersFilled order t.dropped := by
  cases h with
  | level unfilled ahead first accepts => exact hs.append_own fun o ho => (hv.passed o ho).symm.trans (hv.own hU)
  | pass unfilled ahead own => exact hs
  | fill unfilled ahead foreign goes => exact hs.fill (hU.le hv.live)

/-- **When a sweep lets go of an own order**: where it gets past one, or, where it lets go of an
unfilled order of another user, if there is one. -/
theorem sweep_loses_own (hM : R.Followable live priced) (hU : R.Uses order live priced unit left) {s t : Sweep}
    (h : Exits (sweepBody R) s t) (hv : s.Valid R live priced) (hs : OthersFilled order s.dropped) :
    (OthersFilled order t.dropped → ((∃ o ∈ t.dropped, o.userId = order.userId) ↔ s.LosesOwn order unit left)) ∧
      (¬ OthersFilled order t.dropped → ((∃ o ∈ t.dropped, o.userId = order.userId) ↔ s.HasOwn order)) := by
  refine sweep_inv hM
    (I := fun a => (a.LosesOwn order unit left ↔ s.LosesOwn order unit left) ∧ (a.HasOwn order ↔ s.HasOwn order) ∧
      OthersFilled order a.dropped)
    (J := fun t => (OthersFilled order t.dropped →
        ((∃ o ∈ t.dropped, o.userId = order.userId) ↔ s.LosesOwn order unit left)) ∧
      (¬ OthersFilled order t.dropped → ((∃ o ∈ t.dropped, o.userId = order.userId) ↔ s.HasOwn order)))
    ?_ ?_ h hv ⟨Iff.rfl, Iff.rfl, hs⟩
  · rintro a b ha ⟨hloses, hhas, hfilled⟩ hab
    exact ⟨(hab.losesOwn hU ha).trans hloses, (hab.hasOwn hU ha).trans hhas, hab.othersFilled hU ha hfilled⟩
  · rintro a b ha ⟨hloses, hhas, hfilled⟩ hab
    have huser := ha.own hU
    have hpassed : ∀ o ∈ a.passed, o.userId = order.userId := fun o ho => (ha.passed o ho).symm.trans huser
    -- where the sweep stops at a level's end, what was passed over there goes
    have hend : R.isFullyFilled a.incoming = false → a.ahead = [] → (∀ x ∈ a.quotes, ¬ a.GetsPast order unit left x) →
        ((∃ o ∈ a.dropped ++ a.passed, o.userId = order.userId) ↔ s.LosesOwn order unit left) := by
      intro hf hahead hnone
      have hnone' : ¬ ∃ x ∈ a.quotes, a.GetsPast order unit left x := fun ⟨x, hx, hl⟩ => hnone x hx hl
      rw [← hloses, Sweep.LosesOwn, passed_getsPast hU ha hf hahead, or_iff_left hnone']
      simp only [List.mem_append, or_and_right, exists_or]
    cases hab with
    | filled filled =>
      refine ⟨fun _ => ?_, fun hnot => absurd hfilled hnot⟩
      have hnone := not_getsPast_of_filled hU ha filled
      rw [← hloses]
      simp only [Sweep.LosesOwn, hnone, and_false, exists_false, or_false]
    | empty unfilled ahead levels =>
      refine ⟨fun _ => hend unfilled ahead fun x hx => ?_, fun hnot => absurd (hfilled.append_own hpassed) hnot⟩
      rw [Sweep.quotes, ahead, levels] at hx
      cases hx
    | limit unfilled ahead first rejects =>
      refine ⟨fun _ => hend unfilled ahead fun x hx hl => ?_, fun hnot => absurd (hfilled.append_own hpassed) hnot⟩
      have hno := ha.rejects hM ahead first rejects x hx
      rw [ha.crosses hU, hl.2.1] at hno
      cases hno
    | @dust o rest unfilled ahead foreign breaks =>
      refine ⟨fun hall => ?_, fun _ => ?_⟩
      · -- the order that breaks the sweep is not filled
        have hmem : o ∈ a.ahead := by rw [ahead]; exact List.mem_cons_self
        have hzero := hall o (by simp [ahead]) fun he => foreign (huser.trans he.symm)
        exact absurd hzero (ha.ahead o hmem).ne'
      · rw [← hhas]
        have hquotes : (∃ x ∈ a.quotes, x.2.userId = order.userId) ↔
            ∃ o ∈ a.ahead ++ a.levels.flatMap Prod.snd, o.userId = order.userId := by
          rw [← a.map_snd_quotes]
          simp only [List.mem_map, exists_exists_and_eq_and]
        rw [Sweep.HasOwn, hquotes]
        simp only [List.mem_append, or_and_right, exists_or, or_assoc]
        exact or_congr_right or_left_comm

end CexEngine
