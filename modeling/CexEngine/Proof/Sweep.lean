import CexEngine.Proof.MatchLoop

/-!
# The sweep

What the two loops of the matcher do is one walk along the queues: an order of the same user
is passed over, another user's order is filled, and a level that is left takes the orders
that were passed over with it. `sweepBody` is that walk, with no queue that turns, no guard on
the number of pops and no best price that is read again.

* `MatchRule.Walks`: what the walk needs of a rule. An order that is filled in part is filled
  once more at most before it is used up, the incoming order is, or the amount breaks the
  scan; an amount that breaks the scan does so for all that follow; and a price nearer than
  one within the limit is within it.
* `scan_sweeps`: one scan, as far as the level goes.
* `matchAgainst_sweeps`: **the loops do what the sweep does.**
-/

namespace CexEngine

open Pass

variable [Arithmetic]

/-- The variables of the sweep. -/
structure Sweep where
  /-- The price of the level under way. -/
  price : Decimal
  /-- Its orders that have not been met. -/
  ahead : List OrderEntry
  /-- Its orders that were passed over. -/
  passed : List OrderEntry
  /-- The levels after it. -/
  levels : List (Decimal × List OrderEntry)
  incoming : OrderEntry
  results : List MatchResult
  dropped : List OrderEntry

/-- The levels that are left when the sweep ends. -/
def Sweep.left (s : Sweep) : List (Decimal × List OrderEntry) :=
  if s.ahead ++ s.passed = [] then s.levels else (s.price, s.ahead ++ s.passed) :: s.levels

/-- A fill of the order that is met. -/
def Sweep.fill (R : MatchRule) (s : Sweep) (amount : Decimal) (resting : OrderEntry) (rest : List OrderEntry) : Sweep :=
  let filled := resting.fill amount
  { s with
    ahead := if 0 < filled.remainingAmount then filled :: rest else rest
    incoming := R.take s.incoming amount s.price
    results := s.results ++ [R.report s.incoming resting s.price amount]
    dropped := if 0 < filled.remainingAmount then s.dropped else s.dropped ++ [filled] }

/-- One step of the sweep. -/
def sweepBody (R : MatchRule) (s : Sweep) : Pass Sweep :=
  if R.isFullyFilled s.incoming then .stop s
  else
    match s.ahead with
    | [] =>
      match s.levels with
      | [] => .stop { s with passed := [], dropped := s.dropped ++ s.passed }
      | (price, queue) :: levels =>
        if R.accepts s.incoming price then
          .next { s with price, ahead := queue, passed := [], levels, dropped := s.dropped ++ s.passed }
        else .stop { s with passed := [], dropped := s.dropped ++ s.passed }
    | resting :: rest =>
      if s.incoming.userId = resting.userId then .next { s with ahead := rest, passed := s.passed ++ [resting] }
      else if R.breaksAt (R.matchAmount s.incoming resting s.price) then
        -- nothing can be matched any more, and the side is emptied
        .stop { s with ahead := [], passed := [], levels := [],
                       dropped := s.dropped ++ (s.ahead ++ s.passed) ++ s.levels.flatMap Prod.snd }
      else .next (s.fill R (R.matchAmount s.incoming resting s.price) resting rest)

/-- The sweep at its start. -/
def Sweep.start (levels : List (Decimal × List OrderEntry)) (incoming : OrderEntry) : Sweep :=
  ⟨0, [], [], levels, incoming, [], []⟩

/-- What the sweep needs of a rule, for the incoming orders in `live` and the prices in
`priced`. After two fills of one order `ends` holds of what the two have left. -/
structure MatchRule.Walks (R : MatchRule) (live : OrderEntry → Prop) (priced : Decimal → Prop)
    (ends : OrderEntry → OrderEntry → Decimal → Prop) : Prop where
  take : ∀ {incoming resting price}, live incoming → priced price → 0 < resting.remainingAmount →
    R.isFullyFilled incoming = false → R.breaksAt (R.matchAmount incoming resting price) = false →
    live (R.take incoming (R.matchAmount incoming resting price) price)
  twice : ∀ {incoming resting price}, live incoming → priced price → 0 < resting.remainingAmount →
    R.isFullyFilled incoming = false → R.breaksAt (R.matchAmount incoming resting price) = false →
    0 < (resting.fill (R.matchAmount incoming resting price)).remainingAmount →
    let after := R.take incoming (R.matchAmount incoming resting price) price
    let left := resting.fill (R.matchAmount incoming resting price)
    R.isFullyFilled after = false → R.breaksAt (R.matchAmount after left price) = false →
    R.isFullyFilled (R.take after (R.matchAmount after left price) price) = false →
    ends (R.take after (R.matchAmount after left price) price) (left.fill (R.matchAmount after left price)) price
  dust : ∀ {incoming resting price}, live incoming → priced price → 0 < resting.remainingAmount →
    R.isFullyFilled incoming = false → R.breaksAt (R.matchAmount incoming resting price) = true →
    ∀ resting' price', price' = price ∨ BTreeMap.Before R.scansBuys price price' → 0 < resting'.remainingAmount →
      R.accepts incoming price' = true ∧ R.breaksAt (R.matchAmount incoming resting' price') = true
  nearer : ∀ {incoming price price'}, live incoming → BTreeMap.Before R.scansBuys price price' →
    R.accepts incoming price' = true → R.accepts incoming price = true

/-- After two fills the resting order is used up, or the next amount breaks the scan. -/
abbrev MatchRule.Followable (R : MatchRule) (live : OrderEntry → Prop) (priced : Decimal → Prop) : Prop :=
  R.Walks live priced fun after left price =>
    0 < left.remainingAmount → R.breaksAt (R.matchAmount after left price) = true

/-- After two fills the resting order is used up. -/
abbrev MatchRule.Metered (R : MatchRule) (live : OrderEntry → Prop) (priced : Decimal → Prop) : Prop :=
  R.Walks live priced fun _ left _ => left.remainingAmount ≤ 0

theorem MatchRule.Metered.followable {R : MatchRule} {live : OrderEntry → Prop} {priced : Decimal → Prop}
    (hM : R.Metered live priced) : R.Followable live priced where
  take := hM.take
  twice hlive hp ho hf hb hleft := by
    intro after left hf' hb' hf'' hleft'
    exact absurd hleft' (not_lt.2 (hM.twice hlive hp ho hf hb hleft hf' hb' hf''))
  dust := hM.dust
  nearer := hM.nearer

variable {R : MatchRule} {price : Decimal} {n : ℕ}

/-! ## Levels that nothing matches -/

/-- The incoming order passes the order over or breaks at it. -/
def MatchRule.Idle (R : MatchRule) (incoming : OrderEntry) (price : Decimal) (o : OrderEntry) : Prop :=
  incoming.userId = o.userId ∨ R.breaksAt (R.matchAmount incoming o price) = true

/-- A scan of such orders lets one of them go. -/
theorem idle_scan {s t : Scan} (h : Exits (scanBody R price n) s t) (hq : ∀ o ∈ s.queue, R.Idle s.incoming price o) :
    t.incoming = s.incoming ∧ t.results = s.results ∧
      ((s.queue = [] ∧ t.queue = [] ∧ t.dropped = s.dropped) ∨
        ∃ o, (o :: t.queue).Perm s.queue ∧ t.dropped = s.dropped ++ [o]) := by
  refine h.inv
    (I := fun a => a.queue.Perm s.queue ∧ a.incoming = s.incoming ∧ a.results = s.results ∧ a.dropped = s.dropped)
    (J := fun t => t.incoming = s.incoming ∧ t.results = s.results ∧
      ((s.queue = [] ∧ t.queue = [] ∧ t.dropped = s.dropped) ∨
        ∃ o, (o :: t.queue).Perm s.queue ∧ t.dropped = s.dropped ++ [o])) ?_ ?_ ⟨.refl _, rfl, rfl, rfl⟩
  · rintro a b ⟨hp, hi, hr, hd⟩ hab
    obtain ⟨o, rest, hao, -, ⟨-, rfl⟩ | ⟨hu, hb, -, -⟩⟩ := scanBody_next hab
    · rw [hao] at hp
      exact ⟨(List.perm_append_singleton o rest).trans hp, hi, hr, hd⟩
    · -- no order of the queue is filled
      exfalso
      have ho : o ∈ s.queue := hp.subset (hao ▸ List.mem_cons_self)
      rcases hq o ho with hown | hbreak
      · exact hu (hi ▸ hown)
      · rw [hi, hbreak] at hb; cases hb
  · rintro a b ⟨hp, hi, hr, hd⟩ hab
    rcases scanBody_stop hab with ⟨hnil, rfl⟩ | ⟨o, rest, hao, ⟨rfl, -⟩ | ⟨hu, hb, -, -⟩⟩
    · rw [hnil] at hp
      exact ⟨hi, hr, Or.inl ⟨hp.nil_eq.symm, hnil, hd⟩⟩
    · rw [hao] at hp
      exact ⟨hi, hr, Or.inr ⟨o, hp, by rw [hd]⟩⟩
    · exfalso
      have ho : o ∈ s.queue := hp.subset (hao ▸ List.mem_cons_self)
      rcases hq o ho with hown | hbreak
      · exact hu (hi ▸ hown)
      · rw [hi, hbreak] at hb; cases hb

omit [Arithmetic] in
/-- Writing the first level back. -/
theorem levels_setQueue {side : OrderBookSide} {top : Bool} {queue queue' : List OrderEntry}
    {levels : List (Decimal × List OrderEntry)} (h : side.levels top = (price, queue) :: levels) :
    (side.setQueue price queue').levels top = if queue' = [] then levels else (price, queue') :: levels := by
  unfold OrderBookSide.setQueue OrderBookSide.levels
  split_ifs
  · exact BTreeMap.bestFirst_erase_first h
  · exact BTreeMap.bestFirst_insert_first h _

/-- The state after a scan of the queue at a price. -/
def MatchState.scanned (R : MatchRule) (s : MatchState) (price : Decimal) (queue : List OrderEntry) : MatchState where
  side := s.side.setQueue price (scanLevel R price queue s.incoming).queue
  incoming := (scanLevel R price queue s.incoming).incoming
  results := s.results ++ (scanLevel R price queue s.incoming).results
  dropped := s.dropped ++ (scanLevel R price queue s.incoming).dropped

/-- A pass of the outer loop, told by the first level. -/
theorem matchBody_levels {s : MatchState} {queue : List OrderEntry} {levels : List (Decimal × List OrderEntry)}
    (h : s.side.levels R.scansBuys = (price, queue) :: levels) (hf : R.isFullyFilled s.incoming = false) :
    matchBody R s = if R.accepts s.incoming price then .next (s.scanned R price queue) else .stop s := by
  have hbest : s.side.getBestPrice R.scansBuys = some price := by
    unfold OrderBookSide.getBestPrice
    rw [show s.side.orders.bestFirst R.scansBuys = s.side.levels R.scansBuys from rfl, h]
    rfl
  have hget : s.side.getOrdersAtPrice price = some queue := BTreeMap.get?_first h
  unfold matchBody
  rw [if_neg (by simp [hf]), hbest]
  simp only [hget, MatchState.scanned]

theorem exits_scanned {s t : MatchState} {queue : List OrderEntry} {levels : List (Decimal × List OrderEntry)}
    (hl : s.side.levels R.scansBuys = (price, queue) :: levels) (hf : R.isFullyFilled s.incoming = false)
    (ha : R.accepts s.incoming price = true) (h : Exits (matchBody R) s t) :
    Exits (matchBody R) (s.scanned R price queue) t := by
  have hpass := matchBody_levels hl hf
  rw [if_pos ha] at hpass
  rcases exits_cases h with hs | ⟨a, ha', hat⟩
  · rw [hpass] at hs; cases hs
  · rw [hpass] at ha'; cases ha'; exact hat

/-- A level of such orders is emptied, order by order. -/
theorem idle_level {t : MatchState} {levels : List (Decimal × List OrderEntry)} :
    ∀ (k : ℕ) (queue : List OrderEntry) (s : MatchState), queue.length = k →
      s.side.levels R.scansBuys = (price, queue) :: levels → Exits (matchBody R) s t →
      R.isFullyFilled s.incoming = false → R.accepts s.incoming price = true →
      (∀ o ∈ queue, R.Idle s.incoming price o) →
      ∃ a, a.side.levels R.scansBuys = levels ∧ a.incoming = s.incoming ∧ a.results = s.results ∧
        a.dropped.Perm (s.dropped ++ queue) ∧ Exits (matchBody R) a t := by
  intro k
  induction k with
  | zero =>
    intro queue s hk hl h hf ha _
    -- an empty level is written back, and goes
    obtain rfl := List.length_eq_zero_iff.1 hk
    obtain ⟨hi, hr, ⟨-, hq, hd⟩ | ⟨o, hp, -⟩⟩ := idle_scan (scanLevel_exits R price [] s.incoming) (by simp)
    · refine ⟨s.scanned R price [], ?_, hi, ?_, ?_, exits_scanned hl hf ha h⟩
      · rw [MatchState.scanned, levels_setQueue hl, if_pos hq]
      · simp [MatchState.scanned, hr]
      · simp [MatchState.scanned, hd]
    · have := hp.length_eq
      simp at this
  | succ k ih =>
    intro queue s hk hl h hf ha hidle
    obtain ⟨hi, hr, ⟨hnil, -, -⟩ | ⟨o, hp, hd⟩⟩ := idle_scan (scanLevel_exits R price queue s.incoming) hidle
    · rw [show queue = [] from hnil] at hk; cases hk
    have hat := exits_scanned hl hf ha h
    have hlen := hp.length_eq
    dsimp only at hi hr hd hp hlen
    rw [List.length_cons, hk] at hlen
    have hdropped : (s.scanned R price queue).dropped = s.dropped ++ [o] := by simp [MatchState.scanned, hd]
    have hresults : (s.scanned R price queue).results = s.results := by simp [MatchState.scanned, hr]
    -- a scan lets one order go: the level is gone, or shorter by it
    by_cases hempty : (scanLevel R price queue s.incoming).queue = []
    · refine ⟨s.scanned R price queue, ?_, hi, hresults, ?_, hat⟩
      · rw [MatchState.scanned, levels_setQueue hl, if_pos hempty]
      · rw [hempty] at hp
        rw [hdropped]
        exact hp.append_left _
    · obtain ⟨b, hbl, hbi, hbr, hbd, hbt⟩ := ih (scanLevel R price queue s.incoming).queue
        (s.scanned R price queue) (by omega) (by rw [MatchState.scanned, levels_setQueue hl, if_neg hempty]) hat
        (by rw [MatchState.scanned, hi]; exact hf) (by rw [MatchState.scanned, hi]; exact ha)
        (fun o' ho' => by
          rw [MatchState.scanned, hi]
          exact hidle o' (hp.subset (List.mem_cons_of_mem _ ho')))
      refine ⟨b, hbl, hbi.trans hi, hbr.trans hresults, hbd.trans ?_, hbt⟩
      rw [hdropped, List.append_assoc]
      exact hp.append_left _

/-- All levels are, if their prices are accepted. -/
theorem idle_levels {t : MatchState} : ∀ (levels : List (Decimal × List OrderEntry)) (s : MatchState),
    s.side.levels R.scansBuys = levels → Exits (matchBody R) s t → R.isFullyFilled s.incoming = false →
    (∀ l ∈ levels, R.accepts s.incoming l.1 = true ∧ ∀ o ∈ l.2, R.Idle s.incoming l.1 o) →
    t.side.levels R.scansBuys = [] ∧ t.incoming = s.incoming ∧ t.results = s.results ∧
      t.dropped.Perm (s.dropped ++ levels.flatMap Prod.snd) := by
  intro levels
  induction levels with
  | nil =>
    intro s hl h hf _
    -- no price is left: the loop stops
    have hstop : matchBody R s = .stop s := by
      have hbest : s.side.getBestPrice R.scansBuys = none := by
        unfold OrderBookSide.getBestPrice
        rw [show s.side.orders.bestFirst R.scansBuys = s.side.levels R.scansBuys from rfl, hl]
        rfl
      unfold matchBody
      rw [if_neg (by simp [hf]), hbest]
    obtain rfl := h.unique (.of_stop hstop)
    exact ⟨hl, rfl, rfl, by simp⟩
  | cons l levels ih =>
    intro s hl h hf hidle
    obtain ⟨ha, hq⟩ := hidle l List.mem_cons_self
    obtain ⟨a, hal, hai, har, had, hat⟩ := idle_level l.2.length l.2 s rfl hl h hf ha hq
    obtain ⟨h₁, h₂, h₃, h₄⟩ := ih a hal hat (by rw [hai]; exact hf) fun l' hl' => by
      rw [hai]
      exact hidle l' (List.mem_cons_of_mem _ hl')
    refine ⟨h₁, h₂.trans hai, h₃.trans har, h₄.trans ?_⟩
    rw [List.flatMap_cons, ← List.append_assoc]
    exact had.append_right _

/-! ## One scan -/

/-- How a scan that left `t` and the sweep in `f` agree, when the scan began with `results` and
`dropped` made before: the incoming order is used up, the level is done, or the amount is
too small for the order ahead. -/
inductive ScanEnd (R : MatchRule) (dropped : List OrderEntry) (t : Scan) (f : Sweep) : Prop where
  | filled (used : R.isFullyFilled f.incoming = true) (queue : t.queue = f.ahead ++ f.passed)
      (drops : dropped ++ t.dropped = f.dropped)
  | done (unused : R.isFullyFilled f.incoming = false) (ahead : f.ahead = [])
      (drops : (t.queue = [] ∧ f.passed = [] ∧ dropped ++ t.dropped = f.dropped) ∨
        ∃ o, (o :: t.queue).Perm f.passed ∧ dropped ++ t.dropped = f.dropped ++ [o])
  | dust (o : OrderEntry) (rest : List OrderEntry) (unused : R.isFullyFilled f.incoming = false)
      (ahead : f.ahead = o :: rest) (foreign : f.incoming.userId ≠ o.userId)
      (breaks : R.breaksAt (R.matchAmount f.incoming o f.price) = true) (queue : t.queue = rest ++ f.passed)
      (drops : dropped ++ t.dropped = f.dropped ++ [o])

/-- The sweep in `f` is where the scan that left `t` is. -/
structure Scanned (R : MatchRule) (live : OrderEntry → Prop) (price : Decimal)
    (levels : List (Decimal × List OrderEntry)) (incoming : OrderEntry) (results : List MatchResult)
    (dropped : List OrderEntry) (t : Scan) (f : Sweep) : Prop where
  price : f.price = price
  levels : f.levels = levels
  live : live f.incoming
  terms : f.incoming.terms = incoming.terms
  incoming : t.incoming = f.incoming
  results : results ++ t.results = f.results
  passed : ∀ o ∈ f.passed, f.incoming.userId = o.userId
  ahead : ∀ o ∈ f.ahead, 0 < o.remainingAmount
  ends : ScanEnd R dropped t f

variable {live : OrderEntry → Prop} {priced : Decimal → Prop} {levels : List (Decimal × List OrderEntry)}
  {results : List MatchResult}
  {dropped : List OrderEntry}

omit [Arithmetic] in
theorem Scanned.of_terms {incoming incoming' : OrderEntry} {t : Scan} {f : Sweep}
    (h : Scanned R live price levels incoming' results dropped t f) (ht : incoming'.terms = incoming.terms) :
    Scanned R live price levels incoming results dropped t f :=
  { h with terms := h.terms.trans ht }

/-- A pass of the scan over an order of the same user. -/
theorem scanBody_own {o : OrderEntry} {rest : List OrderEntry} {incoming : OrderEntry} {count : ℕ}
    {ms : List MatchResult} {ds : List OrderEntry} (hc : count + 1 ≤ n * 2) (hu : incoming.userId = o.userId) :
    scanBody R price n ⟨o :: rest, incoming, count, ms, ds⟩ =
      .next ⟨rest ++ [o], incoming, count + 1, ms, ds⟩ := by
  simp only [scanBody, if_neg (not_lt.2 hc), if_pos hu]

/-- A pass that breaks on the amount. The guard does the same. -/
theorem scanBody_off {o : OrderEntry} {rest : List OrderEntry} {incoming : OrderEntry} {count : ℕ}
    {ms : List MatchResult} {ds : List OrderEntry} (hu : incoming.userId ≠ o.userId)
    (hb : R.breaksAt (R.matchAmount incoming o price) = true) :
    scanBody R price n ⟨o :: rest, incoming, count, ms, ds⟩ =
      .stop ⟨rest, incoming, count + 1, ms, ds ++ [o]⟩ := by
  unfold scanBody
  dsimp only
  split_ifs
  · rfl
  · rfl

/-- A pass that fills. -/
theorem scanBody_fill {o : OrderEntry} (rest : List OrderEntry) {incoming : OrderEntry} {count : ℕ}
    (ms : List MatchResult) (ds : List OrderEntry) (hc : count + 1 ≤ n * 2) (hu : incoming.userId ≠ o.userId)
    (hb : R.breaksAt (R.matchAmount incoming o price) = false) :
    scanBody R price n ⟨o :: rest, incoming, count, ms, ds⟩ =
      if R.isFullyFilled (R.take incoming (R.matchAmount incoming o price) price) = true then
        .stop ((⟨o :: rest, incoming, count, ms, ds⟩ : Scan).fill R price (R.matchAmount incoming o price) o rest)
      else .next ((⟨o :: rest, incoming, count, ms, ds⟩ : Scan).fill R price (R.matchAmount incoming o price) o rest) := by
  simp only [scanBody, if_neg (not_lt.2 hc), if_neg hu, hb, Bool.false_eq_true, if_false, Scan.fill]

/-- A step of the sweep that fills. -/
theorem sweepBody_fill {o : OrderEntry} (rest passed : List OrderEntry)
    (levels : List (Decimal × List OrderEntry)) {incoming : OrderEntry} (ms : List MatchResult)
    (ds : List OrderEntry) (hf : R.isFullyFilled incoming = false)
    (hu : incoming.userId ≠ o.userId) (hb : R.breaksAt (R.matchAmount incoming o price) = false) :
    sweepBody R ⟨price, o :: rest, passed, levels, incoming, ms, ds⟩ =
      .next ((⟨price, o :: rest, passed, levels, incoming, ms, ds⟩ : Sweep).fill R
        (R.matchAmount incoming o price) o rest) := by
  simp only [sweepBody, hf, if_neg hu, hb, Bool.false_eq_true, if_false]

/-- A visit of the scan to another user's order: the scan ends there, or the order is filled
and the scan and the sweep go on together. -/
theorem scan_visit (hM : R.Followable live priced) (hp : priced price) {t : Scan} {o : OrderEntry}
    {rest passed : List OrderEntry}
    {incoming : OrderEntry} {count : ℕ} {ms : List MatchResult} {ds : List OrderEntry}
    (hpassed : ∀ o ∈ passed, incoming.userId = o.userId) (ho : 0 < o.remainingAmount)
    (hrest : ∀ o ∈ rest, 0 < o.remainingAmount) (hlive : live incoming) (hf : R.isFullyFilled incoming = false)
    (hc : count + 1 ≤ n * 2) (hu : incoming.userId ≠ o.userId)
    (h : Exits (scanBody R price n) ⟨o :: (rest ++ passed), incoming, count, ms, ds⟩ t) :
    (∃ f, Steps (sweepBody R) ⟨price, o :: rest, passed, levels, incoming, results ++ ms, dropped ++ ds⟩ f ∧
        Scanned R live price levels incoming results dropped t f) ∨
      ∃ ms' ds', R.breaksAt (R.matchAmount incoming o price) = false ∧
        R.isFullyFilled (R.take incoming (R.matchAmount incoming o price) price) = false ∧
        sweepBody R ⟨price, o :: rest, passed, levels, incoming, results ++ ms, dropped ++ ds⟩ =
          .next ⟨price, if 0 < (o.fill (R.matchAmount incoming o price)).remainingAmount then
              o.fill (R.matchAmount incoming o price) :: rest else rest,
            passed, levels, R.take incoming (R.matchAmount incoming o price) price, results ++ ms', dropped ++ ds'⟩ ∧
        Exits (scanBody R price n) ⟨(if 0 < (o.fill (R.matchAmount incoming o price)).remainingAmount then
            o.fill (R.matchAmount incoming o price) :: rest else rest) ++ passed,
          R.take incoming (R.matchAmount incoming o price) price, count + 1, ms', ds'⟩ t := by
  cases hb : R.breaksAt (R.matchAmount incoming o price) with
  | true =>
    -- the scan breaks and lets the order go
    obtain rfl := h.unique (.of_stop (scanBody_off hu hb))
    refine Or.inl ⟨_, .refl, rfl, rfl, hlive, rfl, rfl, rfl, hpassed, ?_, ?_⟩
    · exact List.forall_mem_cons.2 ⟨ho, hrest⟩
    · exact .dust o rest hf rfl hu hb rfl (by rw [List.append_assoc])
  | false =>
    set amount := R.matchAmount incoming o price with hamount
    have hscan := scanBody_fill (rest ++ passed) ms ds hc hu hb
    have hsweep := sweepBody_fill rest passed levels (results ++ ms) (dropped ++ ds) hf hu hb
    rw [← hamount] at hscan hsweep
    have hterms := R.take_terms incoming amount price
    have hlive' : live (R.take incoming amount price) := hM.take hlive hp ho hf hb
    cases hf' : R.isFullyFilled (R.take incoming amount price) with
    | true =>
      rw [if_pos hf'] at hscan
      obtain rfl := h.unique (.of_stop hscan)
      refine Or.inl ⟨_, .single hsweep, rfl, rfl, hlive', hterms, rfl, ?_, ?_, ?_, .filled hf' ?_ ?_⟩
      · simp only [Scan.fill, Sweep.fill, List.append_assoc]
      · intro o' ho'
        rw [Sweep.fill, R.take_userId]
        exact hpassed o' ho'
      · simp only [Sweep.fill]
        split_ifs with hr
        · exact List.forall_mem_cons.2 ⟨hr, hrest⟩
        · exact hrest
      · simp only [Scan.fill, Sweep.fill]
        split_ifs <;> rfl
      · simp only [Scan.fill, Sweep.fill]
        split_ifs <;> simp only [List.append_assoc]
    | false =>
      rw [if_neg (by simp [hf'])] at hscan
      refine Or.inr ⟨ms ++ [R.report incoming o price amount],
        if 0 < (o.fill amount).remainingAmount then ds else ds ++ [o.fill amount], rfl, rfl, ?_, ?_⟩
      · rw [hsweep]
        simp only [Sweep.fill]
        split_ifs <;> simp only [List.append_assoc]
      · have hnext : Exits (scanBody R price n)
            ((⟨o :: (rest ++ passed), incoming, count, ms, ds⟩ : Scan).fill R price amount o (rest ++ passed)) t := by
          rcases exits_cases h with hs | ⟨a, ha, hat⟩
          · rw [hscan] at hs; cases hs
          · rw [hscan] at ha; cases ha; exact hat
        simp only [Scan.fill] at hnext
        split_ifs at hnext ⊢ <;> exact hnext

/-- **One scan is what the sweep does in its level.** The pops stay within the guard: every
order is filled at most twice, and a third pop takes it off in any case. -/
theorem scan_sweeps (hM : R.Followable live priced) (hp : priced price) {t : Scan} :
    ∀ (ahead passed : List OrderEntry) (incoming : OrderEntry) (count : ℕ) (ms : List MatchResult)
      (ds : List OrderEntry), (∀ o ∈ passed, incoming.userId = o.userId) → (∀ o ∈ ahead, 0 < o.remainingAmount) →
      live incoming → R.isFullyFilled incoming = false → count + 2 * ahead.length ≤ n * 2 →
      Exits (scanBody R price n) ⟨ahead ++ passed, incoming, count, ms, ds⟩ t →
      ∃ f, Steps (sweepBody R) ⟨price, ahead, passed, levels, incoming, results ++ ms, dropped ++ ds⟩ f ∧
        Scanned R live price levels incoming results dropped t f := by
  intro ahead
  induction ahead with
  | nil =>
    intro passed incoming count ms ds hpassed _ hlive hf _ h
    obtain ⟨hi, hr, hd⟩ := idle_scan h fun o ho => Or.inl (hpassed o (by simpa using ho))
    refine ⟨_, .refl, rfl, rfl, hlive, rfl, hi, by rw [hr], hpassed, by simp, .done hf rfl ?_⟩
    rcases hd with ⟨hq, hq', hd⟩ | ⟨o, hperm, hd⟩
    · exact Or.inl ⟨hq', by simpa using hq, by rw [hd]⟩
    · exact Or.inr ⟨o, by simpa using hperm, by rw [hd, List.append_assoc]⟩
  | cons o rest ih =>
    intro passed incoming count ms ds hpassed hahead hlive hf hcount h
    rw [List.length_cons] at hcount
    obtain ⟨ho, hrest⟩ := List.forall_mem_cons.1 hahead
    rw [List.cons_append] at h
    by_cases hu : incoming.userId = o.userId
    · -- an own order goes to the back of the queue
      have hscan : scanBody R price n ⟨o :: (rest ++ passed), incoming, count, ms, ds⟩ =
          .next ⟨rest ++ passed ++ [o], incoming, count + 1, ms, ds⟩ := scanBody_own (by omega) hu
      have hsweep : sweepBody R ⟨price, o :: rest, passed, levels, incoming, results ++ ms, dropped ++ ds⟩ =
          .next ⟨price, rest, passed ++ [o], levels, incoming, results ++ ms, dropped ++ ds⟩ := by
        simp only [sweepBody, hf, Bool.false_eq_true, if_false, if_pos hu]
      have hnext : Exits (scanBody R price n) ⟨rest ++ (passed ++ [o]), incoming, count + 1, ms, ds⟩ t := by
        rcases exits_cases h with hs | ⟨a, ha, hat⟩
        · rw [hscan] at hs; cases hs
        · rw [hscan] at ha; cases ha; simpa only [List.append_assoc] using hat
      have hpassed' : ∀ o' ∈ passed ++ [o], incoming.userId = o'.userId := by
        intro o' ho'
        rcases List.mem_append.1 ho' with ho' | ho'
        · exact hpassed o' ho'
        · rw [List.mem_singleton.1 ho']; exact hu
      obtain ⟨f, hsteps, hscanned⟩ := ih _ incoming _ ms ds hpassed' hrest hlive hf (by omega) hnext
      exact ⟨f, .head hsweep hsteps, hscanned⟩
    · -- the first visit to another user's order
      rcases scan_visit hM hp hpassed ho hrest hlive hf (by omega) hu h with hend | ⟨ms', ds', hb, hf', hsweep, hnext⟩
      · exact hend
      set amount := R.matchAmount incoming o price with hamount
      have hlive' : live (R.take incoming amount price) := hM.take hlive hp ho hf hb
      have hterms := R.take_terms incoming amount price
      have huser := R.take_userId incoming amount price
      have hpassed' : ∀ o' ∈ passed, (R.take incoming amount price).userId = o'.userId := by
        rw [huser]; exact hpassed
      by_cases hleft : 0 < (o.fill amount).remainingAmount
      swap
      · rw [if_neg hleft] at hsweep hnext
        obtain ⟨f, hsteps, hscanned⟩ := ih _ _ _ _ _ hpassed' hrest hlive' hf' (by omega) hnext
        exact ⟨f, .head hsweep hsteps, hscanned.of_terms hterms⟩
      rw [if_pos hleft] at hsweep hnext
      -- and the second, after a fill in part
      have hu' : (R.take incoming amount price).userId ≠ (o.fill amount).userId := by rw [huser]; exact hu
      rcases scan_visit hM hp hpassed' hleft hrest hlive' hf' (by omega) hu' hnext with
        ⟨f, hsteps, hscanned⟩ | ⟨ms'', ds'', hb', hf'', hsweep', hnext'⟩
      · exact ⟨f, .head hsweep hsteps, hscanned.of_terms hterms⟩
      have hlive'' := hM.take hlive' hp hleft hf' hb'
      have hterms'' := (R.take_terms (R.take incoming amount price) (R.matchAmount (R.take incoming amount price)
        (o.fill amount) price) price).trans hterms
      have huser'' := (R.take_userId (R.take incoming amount price) (R.matchAmount (R.take incoming amount price)
        (o.fill amount) price) price).trans huser
      have hpassed'' : ∀ o' ∈ passed, (R.take (R.take incoming amount price) (R.matchAmount (R.take incoming amount price)
          (o.fill amount) price) price).userId = o'.userId := by
        rw [huser'']; exact hpassed
      by_cases hmore : 0 < ((o.fill amount).fill (R.matchAmount (R.take incoming amount price)
          (o.fill amount) price)).remainingAmount
      · -- a third time it only takes the order off: the amount breaks the scan, if the guard does not
        have hbreaks := hM.twice hlive hp ho hf hb hleft hf' hb' hf'' hmore
        rw [if_pos hmore] at hsweep' hnext'
        obtain rfl := hnext'.unique (.of_stop (scanBody_off (by rw [huser'']; exact hu) hbreaks))
        refine ⟨_, .head hsweep (.single hsweep'), rfl, rfl, hlive'', hterms'', rfl, rfl, hpassed'', ?_, ?_⟩
        · exact List.forall_mem_cons.2 ⟨hmore, hrest⟩
        · exact .dust _ rest hf'' rfl (by rw [huser'']; exact hu) hbreaks rfl (by rw [List.append_assoc])
      · rw [if_neg hmore] at hsweep' hnext'
        obtain ⟨f, hsteps, hscanned⟩ := ih _ _ _ _ _ hpassed'' hrest hlive'' hf'' (by omega) hnext'
        exact ⟨f, .head hsweep (.head hsweep' hsteps), hscanned.of_terms hterms''⟩

/-! ## All levels -/

/-- The outer loop that left `S` and the sweep that left `t` agree; the orders let go may come
in another order. -/
structure Agrees (R : MatchRule) (S : MatchState) (t : Sweep) : Prop where
  levels : S.side.levels R.scansBuys = t.left
  incoming : S.incoming = t.incoming
  results : S.results = t.results
  dropped : S.dropped.Perm t.dropped

/-- What is known of levels: the best come first, with prices in `priced` and something left
of every order. -/
structure Walkable (top : Bool) (priced : Decimal → Prop) (levels : List (Decimal × List OrderEntry)) : Prop where
  sorted : levels.Pairwise fun a b => BTreeMap.Before top a.1 b.1
  priced : ∀ l ∈ levels, priced l.1
  remaining_pos : ∀ l ∈ levels, ∀ o ∈ l.2, 0 < o.remainingAmount

omit [Arithmetic] in
theorem Walkable.tail {top : Bool} {l : Decimal × List OrderEntry} {levels : List (Decimal × List OrderEntry)}
    (h : Walkable top priced (l :: levels)) : Walkable top priced levels :=
  ⟨h.sorted.of_cons, fun l' hl' => h.priced l' (List.mem_cons_of_mem _ hl'),
    fun l' hl' => h.remaining_pos l' (List.mem_cons_of_mem _ hl')⟩

/-- Orders that were passed over in a level that is done are let go with it. -/
theorem sweepBody_passed {passed : List OrderEntry} {incoming : OrderEntry} {ms : List MatchResult}
    {ds : List OrderEntry} (hf : R.isFullyFilled incoming = false) :
    sweepBody R ⟨price, [], passed, levels, incoming, ms, ds⟩ =
      sweepBody R ⟨price, [], [], levels, incoming, ms, ds ++ passed⟩ := by
  simp only [sweepBody, hf, Bool.false_eq_true, if_false, List.append_nil]

section After

variable {s S : MatchState} {f : Sweep} {queue : List OrderEntry} {ds : List OrderEntry}
  (hl : s.side.levels R.scansBuys = (price, queue) :: levels) (hds : s.dropped.Perm ds)
  (hend : Scanned R live price levels s.incoming s.results ds (scanLevel R price queue s.incoming) f)
  (h : Exits (matchBody R) (s.scanned R price queue) S)

include hl hds hend h

/-- After a scan that uses the incoming order up, both end. -/
theorem after_filled (hused : R.isFullyFilled f.incoming = true)
    (hqueue : (scanLevel R price queue s.incoming).queue = f.ahead ++ f.passed)
    (hdrops : ds ++ (scanLevel R price queue s.incoming).dropped = f.dropped) :
    Exits (sweepBody R) f f ∧ Agrees R S f := by
  have hstop : matchBody R (s.scanned R price queue) = .stop (s.scanned R price queue) := by
    simp only [matchBody, MatchState.scanned, hend.incoming, hused, if_true]
  obtain rfl := h.unique (.of_stop hstop)
  refine ⟨.of_stop (by simp only [sweepBody, hused, if_true]), ?_, hend.incoming, hend.results, ?_⟩
  · rw [MatchState.scanned, levels_setQueue hl, hqueue, Sweep.left, hend.price, hend.levels]
  · rw [← hdrops]
    exact hds.append_right _

/-- After a scan that is done with the level, the outer loop lets go of what was passed over
there. -/
theorem after_done (haccepts : R.accepts s.incoming price = true) (hunused : R.isFullyFilled f.incoming = false)
    (hdrops : ((scanLevel R price queue s.incoming).queue = [] ∧ f.passed = [] ∧
        ds ++ (scanLevel R price queue s.incoming).dropped = f.dropped) ∨
      ∃ o, (o :: (scanLevel R price queue s.incoming).queue).Perm f.passed ∧
        ds ++ (scanLevel R price queue s.incoming).dropped = f.dropped ++ [o]) :
    ∃ a, a.side.levels R.scansBuys = levels ∧ a.incoming = f.incoming ∧ a.results = f.results ∧
      a.dropped.Perm (f.dropped ++ f.passed) ∧ Exits (matchBody R) a S := by
  have hi : (s.scanned R price queue).incoming = f.incoming := hend.incoming
  have hr : (s.scanned R price queue).results = f.results := hend.results
  have hd := hds.append_right (scanLevel R price queue s.incoming).dropped
  rcases hdrops with ⟨hq, hpassed, hdropped⟩ | ⟨o, hperm, hdropped⟩
  · refine ⟨s.scanned R price queue, ?_, hi, hr, ?_, h⟩
    · rw [MatchState.scanned, levels_setQueue hl, if_pos hq]
    · rw [hpassed, List.append_nil, ← hdropped]
      exact hd
  · rw [hdropped] at hd
    by_cases hq : (scanLevel R price queue s.incoming).queue = []
    · refine ⟨s.scanned R price queue, ?_, hi, hr, ?_, h⟩
      · rw [MatchState.scanned, levels_setQueue hl, if_pos hq]
      · rw [hq] at hperm
        exact hd.trans (hperm.append_left _)
    · -- the orders of the same user that are left are let go one by one
      obtain ⟨a, hal, hai, har, had, hat⟩ := idle_level _ (scanLevel R price queue s.incoming).queue
        (s.scanned R price queue) rfl (by rw [MatchState.scanned, levels_setQueue hl, if_neg hq]) h
        (by rw [hi]; exact hunused)
        (by rw [hi, ← R.accepts_terms, hend.terms, R.accepts_terms]; exact haccepts)
        (fun o' ho' => by
          rw [hi]
          exact Or.inl (hend.passed o' (hperm.subset (List.mem_cons_of_mem _ ho'))))
      refine ⟨a, hal, hai.trans hi, har.trans hr, had.trans ((hd.append_right _).trans ?_), hat⟩
      rw [List.append_assoc]
      exact hperm.append_left _

/-- After a scan that broke on the amount, the outer loop empties the side. -/
theorem after_dust (hM : R.Followable live priced) (hp : priced price)
    (hw : Walkable R.scansBuys priced ((price, queue) :: levels))
    {o : OrderEntry} {rest : List OrderEntry}
    (hunused : R.isFullyFilled f.incoming = false) (hahead : f.ahead = o :: rest)
    (hforeign : f.incoming.userId ≠ o.userId)
    (hbreaks : R.breaksAt (R.matchAmount f.incoming o f.price) = true)
    (hqueue : (scanLevel R price queue s.incoming).queue = rest ++ f.passed)
    (hdrops : ds ++ (scanLevel R price queue s.incoming).dropped = f.dropped ++ [o]) :
    ∃ t, Exits (sweepBody R) f t ∧ Agrees R S t := by
  have hi : (s.scanned R price queue).incoming = f.incoming := hend.incoming
  have ho : 0 < o.remainingAmount := hend.ahead o (by rw [hahead]; exact List.mem_cons_self)
  have hdust := hM.dust hend.live hp ho hunused (by rw [← hend.price]; exact hbreaks)
  have hlevels : (s.scanned R price queue).side.levels R.scansBuys =
      if rest ++ f.passed = [] then levels else (price, rest ++ f.passed) :: levels := by
    rw [MatchState.scanned, levels_setQueue hl, hqueue]
  -- the later prices are no better, so that too little is left for them as well
  have hafter : ∀ l ∈ levels, R.accepts f.incoming l.1 = true ∧ ∀ o ∈ l.2, R.Idle f.incoming l.1 o := by
    intro l hl
    have hbefore : BTreeMap.Before R.scansBuys price l.1 := List.rel_of_pairwise_cons hw.sorted hl
    exact ⟨(hdust o l.1 (Or.inr hbefore) ho).1, fun o' ho' =>
      Or.inr (hdust o' l.1 (Or.inr hbefore) (hw.remaining_pos l (List.mem_cons_of_mem _ hl) o' ho')).2⟩
  -- what remains here is later in the queue, or the user's own
  have hfirst : ∀ o' ∈ rest ++ f.passed, R.Idle f.incoming price o' := by
    intro o' ho'
    rcases List.mem_append.1 ho' with ho' | ho'
    · exact Or.inr (hdust o' price (Or.inl rfl) (hend.ahead o' (by rw [hahead]; exact List.mem_cons_of_mem _ ho'))).2
    · exact Or.inl (hend.passed o' ho')
  obtain ⟨h₁, h₂, h₃, h₄⟩ := idle_levels _ (s.scanned R price queue) hlevels h (by rw [hi]; exact hunused) (by
    rw [hi]
    split_ifs
    · exact hafter
    · exact List.forall_mem_cons.2 ⟨⟨(hdust o price (Or.inl rfl) ho).1, hfirst⟩, hafter⟩)
  -- the sweep lets go of all of this in one step
  let t : Sweep :=
    { f with ahead := [], passed := [], levels := [],
             dropped := f.dropped ++ (f.ahead ++ f.passed) ++ f.levels.flatMap Prod.snd }
  refine ⟨t, .of_stop ?_, h₁, h₂.trans hi, h₃.trans hend.results, h₄.trans ?_⟩
  · simp only [sweepBody, hunused, hahead, if_neg hforeign, hbreaks, Bool.false_eq_true, if_false, if_true, t]
  · have hflat : (if rest ++ f.passed = [] then levels else (price, rest ++ f.passed) :: levels).flatMap Prod.snd =
        (rest ++ f.passed) ++ levels.flatMap Prod.snd := by
      split_ifs with hnil
      · rw [hnil, List.nil_append]
      · rw [List.flatMap_cons]
    have hd := hds.append_right (scanLevel R price queue s.incoming).dropped
    rw [hdrops] at hd
    rw [hflat]
    refine (hd.append_right _).trans (List.Perm.of_eq ?_)
    simp only [t, hend.levels, hahead, List.append_assoc, List.cons_append, List.nil_append]

end After

/-- The outer loop, from a state whose levels the sweep has still before it. -/
theorem levels_sweep (hM : R.Followable live priced) {S : MatchState} :
    ∀ (levels : List (Decimal × List OrderEntry)) (s : MatchState) (price : Decimal) (ds : List OrderEntry),
      s.side.levels R.scansBuys = levels → Walkable R.scansBuys priced levels → live s.incoming → s.dropped.Perm ds →
      Exits (matchBody R) s S →
      ∃ t, Exits (sweepBody R) ⟨price, [], [], levels, s.incoming, s.results, ds⟩ t ∧ Agrees R S t := by
  intro levels
  induction levels with
  | nil =>
    intro s price ds hl _ _ hds h
    -- no price is left: both loops stop
    have hstop : S = s := by
      rcases exits_cases h with hs | ⟨a, ha, -⟩
      · exact (matchBody_stop hs).1
      · obtain ⟨-, p, q, hbest, -⟩ := matchBody_next ha
        obtain ⟨queue, rest, hl', -⟩ := OrderBookSide.getBestPrice_eq_some hbest
        rw [hl] at hl'; cases hl'
    subst hstop
    refine ⟨⟨price, [], [], [], S.incoming, S.results, ds⟩, .of_stop ?_, hl, rfl, rfl, hds⟩
    unfold sweepBody
    split_ifs <;> simp
  | cons l levels ih =>
    obtain ⟨p, queue⟩ := l
    intro s price ds hl hw hlive hds h
    have hp : priced p := hw.priced _ List.mem_cons_self
    have hhere : ∀ {incoming : OrderEntry} {results : List MatchResult},
        (⟨price, [], [], (p, queue) :: levels, incoming, results, ds⟩ : Sweep).left = (p, queue) :: levels := by
      simp [Sweep.left]
    cases hf : R.isFullyFilled s.incoming with
    | true =>
      -- the incoming order is filled: both stop
      have hstop : matchBody R s = .stop s := by simp [matchBody, hf]
      obtain rfl := h.unique (.of_stop hstop)
      refine ⟨⟨price, [], [], (p, queue) :: levels, S.incoming, S.results, ds⟩, .of_stop ?_, hl.trans hhere.symm,
        rfl, rfl, hds⟩
      simp [sweepBody, hf]
    | false =>
      cases ha : R.accepts s.incoming p with
      | false =>
        -- the best price is not accepted: both stop
        have hstop := matchBody_levels hl hf
        rw [if_neg (by simp [ha])] at hstop
        obtain rfl := h.unique (.of_stop hstop)
        refine ⟨⟨price, [], [], (p, queue) :: levels, S.incoming, S.results, ds⟩, .of_stop ?_, hl.trans hhere.symm,
          rfl, rfl, hds⟩
        simp [sweepBody, hf, ha]
      | true =>
        -- the sweep enters the level, and follows the scan of it to its end
        have hfirst : sweepBody R ⟨price, [], [], (p, queue) :: levels, s.incoming, s.results, ds⟩ =
            .next ⟨p, queue, [], levels, s.incoming, s.results, ds⟩ := by
          simp [sweepBody, hf, ha]
        have hscan : Exits (scanBody R p queue.length) ⟨queue ++ [], s.incoming, 0, [], []⟩
            (scanLevel R p queue s.incoming) := by
          rw [List.append_nil]
          exact scanLevel_exits R p queue s.incoming
        obtain ⟨f, hsteps, hend⟩ := @scan_sweeps _ R p queue.length live priced levels s.results ds hM hp _ queue []
          s.incoming 0 [] [] (by simp) (hw.remaining_pos _ List.mem_cons_self) hlive hf (by omega) hscan
        rw [List.append_nil, List.append_nil] at hsteps
        have hstart : Steps (sweepBody R) ⟨price, [], [], (p, queue) :: levels, s.incoming, s.results, ds⟩ f :=
          .head hfirst hsteps
        have hat := exits_scanned hl hf ha h
        cases hend.ends with
        | filled hused hqueue hdrops =>
          obtain ⟨hexit, hagrees⟩ := after_filled hl hds hend hat hused hqueue hdrops
          exact ⟨f, .of_steps hstart hexit, hagrees⟩
        | done hunused hahead hdrops =>
          obtain ⟨a, hal, hai, har, had, hat⟩ := after_done hl hds hend hat ha hunused hdrops
          obtain ⟨t, hexit, hagrees⟩ := ih a f.price _ hal hw.tail (by rw [hai]; exact hend.live) had hat
          refine ⟨t, .of_steps hstart (.of_eq ?_ hexit), hagrees⟩
          rw [hai, har, ← sweepBody_passed hunused, ← hahead, ← hend.levels]
        | dust o rest hunused hahead hforeign hbreaks hqueue hdrops =>
          obtain ⟨t, hexit, hagrees⟩ := after_dust hl hds hend hat hM hp hw
            hunused hahead hforeign hbreaks hqueue hdrops
          exact ⟨t, .of_steps hstart hexit, hagrees⟩

omit [Arithmetic] in
/-- The levels of a side, from what is known of its orders. -/
theorem OrderBookSide.walkable {side : OrderBookSide} (top : Bool) (hempty : side.NoEmptyLevel)
    (h : ∀ x ∈ side.stock, priced x.1 ∧ 0 < x.2.remainingAmount) : Walkable top priced (side.levels top) where
  sorted := BTreeMap.bestFirst_sorted side.orders top
  priced l hl := by
    have hl' : l ∈ side.orders.entries := BTreeMap.mem_bestFirst.1 hl
    obtain ⟨o, ho⟩ := List.exists_mem_of_ne_nil _ (hempty l hl')
    exact (h (l.1, o) (mem_stock.2 ⟨l.2, hl', ho⟩)).1
  remaining_pos l hl o ho := (h (l.1, o) (mem_stock.2 ⟨l.2, BTreeMap.mem_bestFirst.1 hl, ho⟩)).2

theorem matchAgainst_exits (R : MatchRule) (order : OrderEntry) (side : OrderBookSide) :
    Exits (matchBody R) ⟨side, order, [], []⟩ (matchAgainst R order side) := by
  rcases matchAgainst_cases R order side with ⟨he, hd⟩ | he
  · rw [he]
    refine .of_stop ?_
    unfold matchBody
    rcases hd with hf | hn | ⟨best, hb, ha⟩
    · rw [if_pos hf]
    · split_ifs
      · rfl
      · rw [hn]
    · split_ifs
      · rfl
      · rw [hb]
        simp only [ha, Bool.false_eq_true, if_false]
  · rw [he]
    exact matchLoop_exits R _

/-- **The loops do what the sweep does.** -/
theorem matchAgainst_sweeps (hM : R.Followable live priced) {order : OrderEntry} {side : OrderBookSide}
    (hlive : live order) (hw : Walkable R.scansBuys priced (side.levels R.scansBuys)) :
    ∃ t, Exits (sweepBody R) (.start (side.levels R.scansBuys) order) t ∧ Agrees R (matchAgainst R order side) t :=
  levels_sweep hM _ ⟨side, order, [], []⟩ 0 [] rfl hw hlive (.refl _) (matchAgainst_exits R order side)

end CexEngine
