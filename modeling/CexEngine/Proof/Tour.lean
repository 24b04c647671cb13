import CexEngine.Proof.Sweep

/-!
# The tour

What the two loops of the matcher come to, told order by order and by recursion along the
levels. Nothing is asked of the rule, of the division or of how `Decimal` rounds.

* `MatchRule.meet`: another user's order is filled again and again, until it or the incoming
  order is used up, or it is let go: the amount breaks the scan, or its pops are used up.
* `MatchRule.tourLevel`: an own order is passed over. After an order was let go the source
  scans the level again, with twice as many pops as it has orders.
* `MatchRule.tour`: the levels within the limit. At the end of a level the own orders that were
  passed over are let go.
* `matchAgainst_tours`: **the loops of the matcher do what the tour does.**
-/

namespace CexEngine

open Pass

/-- What comes of another user's order. -/
structure Meeting where
  incoming : OrderEntry
  left : OrderEntry
  /-- What is left of the pops of the scan. -/
  pops : ℕ
  results : List MatchResult
  letGo : Bool

/-- A resting order as it was found and as it was left. -/
structure Visit where
  price : Decimal
  order : OrderEntry
  left : OrderEntry
  results : List MatchResult
  /-- Popped and not pushed back, though not used up. -/
  letGo : Bool

/-- What the tour leaves. -/
structure Tour where
  /-- The price of the level it ended in. -/
  price : Decimal
  /-- The orders there that it did not meet. -/
  ahead : List OrderEntry
  /-- The orders there that it passed over. -/
  passed : List OrderEntry
  /-- The levels that it did not come to. -/
  levels : List (Decimal × List OrderEntry)
  incoming : OrderEntry
  visits : List Visit

/-- An order of the same user is let go as it is. -/
def Visit.own (price : Decimal) (order : OrderEntry) : Visit := ⟨price, order, order, [], true⟩

/-- The order goes on resting. -/
def Visit.stays (v : Visit) : Bool := !v.letGo && decide (0 < v.left.remainingAmount)

namespace Tour

/-- The visits that were made before. -/
def after (visits : List Visit) (t : Tour) : Tour := { t with visits := visits ++ t.visits }

/-- The levels that rest. -/
def left (t : Tour) : List (Decimal × List OrderEntry) :=
  if t.ahead ++ t.passed = [] then t.levels else (t.price, t.ahead ++ t.passed) :: t.levels

def results (t : Tour) : List MatchResult := t.visits.flatMap Visit.results

/-- The orders that were used up or let go. -/
def dropped (t : Tour) : List OrderEntry := (t.visits.filter fun v => !v.stays).map Visit.left

@[simp] theorem after_incoming (visits : List Visit) (t : Tour) : (t.after visits).incoming = t.incoming := rfl

@[simp] theorem after_passed (visits : List Visit) (t : Tour) : (t.after visits).passed = t.passed := rfl

@[simp] theorem after_left (visits : List Visit) (t : Tour) : (t.after visits).left = t.left := rfl

theorem after_results (visits : List Visit) (t : Tour) :
    (t.after visits).results = visits.flatMap Visit.results ++ t.results :=
  List.flatMap_append

theorem after_dropped (visits : List Visit) (t : Tour) :
    (t.after visits).dropped = (visits.filter fun v => !v.stays).map Visit.left ++ t.dropped := by
  rw [dropped, after, List.filter_append, List.map_append, dropped]

end Tour

variable [Arithmetic]

namespace MatchRule

variable (R : MatchRule)

/-- Another user's order is met, with so many pops of the scan left. -/
def meet (price : Decimal) : ℕ → OrderEntry → OrderEntry → Meeting
  | 0, incoming, resting => ⟨incoming, resting, 0, [], true⟩
  | pops + 1, incoming, resting =>
    let amount := R.matchAmount incoming resting price
    if R.breaksAt amount then ⟨incoming, resting, pops, [], true⟩
    else
      let filled := resting.fill amount
      let result := R.report incoming resting price amount
      if R.isFullyFilled (R.take incoming amount price) = true ∨ ¬ 0 < filled.remainingAmount then
        ⟨R.take incoming amount price, filled, pops, [result], false⟩
      else
        let m := meet price pops (R.take incoming amount price) filled
        { m with results := result :: m.results }

/-- The rest of a level, with so many pops of the scan left and the own orders in `passed`
passed over. -/
def tourLevel (price : Decimal) (levels : List (Decimal × List OrderEntry)) :
    List OrderEntry → ℕ → List OrderEntry → OrderEntry → Tour
  | [], _, passed, incoming => ⟨price, [], passed, levels, incoming, []⟩
  | resting :: rest, pops, passed, incoming =>
    if incoming.userId = resting.userId then
      match pops with
      | 0 => (tourLevel price levels rest ((rest ++ passed).length * 2) passed incoming).after [.own price resting]
      | pops + 1 => tourLevel price levels rest pops (passed ++ [resting]) incoming
    else
      let m := R.meet price pops incoming resting
      let visit : Visit := ⟨price, resting, m.left, m.results, m.letGo⟩
      if m.letGo then
        (tourLevel price levels rest ((rest ++ passed).length * 2) passed m.incoming).after [visit]
      else if R.isFullyFilled m.incoming then
        ⟨price, if 0 < m.left.remainingAmount then m.left :: rest else rest, passed, levels, m.incoming, [visit]⟩
      else (tourLevel price levels rest m.pops passed m.incoming).after [visit]

/-- The levels, the best price first. -/
def tour : List (Decimal × List OrderEntry) → OrderEntry → Tour
  | [], incoming => ⟨0, [], [], [], incoming, []⟩
  | (price, queue) :: levels, incoming =>
    if R.isFullyFilled incoming = true ∨ R.accepts incoming price = false then
      ⟨price, [], [], (price, queue) :: levels, incoming, []⟩
    else
      let t := R.tourLevel price levels queue (queue.length * 2) [] incoming
      if R.isFullyFilled t.incoming then t
      else (tour levels t.incoming).after (t.visits ++ t.passed.map (.own price))

end MatchRule

variable {R : MatchRule} {price : Decimal}

/-- A meeting does not change what the incoming order asks for. -/
theorem MatchRule.meet_terms (R : MatchRule) (price : Decimal) : ∀ (pops : ℕ) (incoming resting : OrderEntry),
    (R.meet price pops incoming resting).incoming.terms = incoming.terms := by
  intro pops
  induction pops with
  | zero => intro incoming resting; rfl
  | succ pops ih =>
    intro incoming resting
    unfold meet
    dsimp only
    split_ifs
    · rfl
    · exact R.take_terms incoming _ price
    · exact (ih _ _).trans (R.take_terms incoming _ price)

/-! ## The loops -/

/-- The levels with the queue of the first one written back. -/
def written (price : Decimal) (queue : List OrderEntry) (levels : List (Decimal × List OrderEntry)) :
    List (Decimal × List OrderEntry) :=
  if queue = [] then levels else (price, queue) :: levels

/-- The outer loop leaves with `S` from a state with these levels and this incoming order, when
these matches are made and these orders let go. -/
def Resumes (R : MatchRule) (S : MatchState) (levels : List (Decimal × List OrderEntry)) (incoming : OrderEntry)
    (results : List MatchResult) (dropped : List OrderEntry) : Prop :=
  ∃ a : MatchState, a.side.levels R.scansBuys = levels ∧ a.incoming = incoming ∧ a.results = results ∧
    a.dropped.Perm dropped ∧ Exits (matchBody R) a S

/-- The inner loop is in `s`. Wherever it is left, the outer loop goes on and leaves with `S`. -/
def Underway (R : MatchRule) (S : MatchState) (price : Decimal) (n : ℕ) (levels : List (Decimal × List OrderEntry))
    (results : List MatchResult) (dropped : List OrderEntry) (s : Scan) : Prop :=
  ∀ t, Exits (scanBody R price n) s t →
    Resumes R S (written price t.queue levels) t.incoming (results ++ t.results) (dropped ++ t.dropped)

section Loops

variable {S : MatchState} {n : ℕ} {levels : List (Decimal × List OrderEntry)} {incoming resting : OrderEntry}
  {results : List MatchResult} {dropped : List OrderEntry} {queue : List OrderEntry} {s t : Scan}

theorem Underway.next (h : Underway R S price n levels results dropped s) (hs : scanBody R price n s = .next t) :
    Underway R S price n levels results dropped t :=
  fun a ha => h a (.of_steps (.single hs) ha)

theorem Underway.stop (h : Underway R S price n levels results dropped s) (hs : scanBody R price n s = .stop t) :
    Resumes R S (written price t.queue levels) t.incoming (results ++ t.results) (dropped ++ t.dropped) :=
  h t (.of_stop hs)

/-- The inner loop is left from wherever it is. -/
theorem scan_exits (R : MatchRule) (price : Decimal) (n : ℕ) (s : Scan) : ∃ t, Exits (scanBody R price n) s t := by
  refine ⟨_, exits_run (fun s => n * 2 - s.processedCount) ?_ _ _ (Nat.lt_succ_self _)⟩
  intro s t h
  obtain ⟨ht, hs⟩ := scanBody_next_count h
  omega

theorem Resumes.perm {dropped' : List OrderEntry} (h : Resumes R S levels incoming results dropped)
    (hp : dropped.Perm dropped') : Resumes R S levels incoming results dropped' := by
  obtain ⟨a, h₁, h₂, h₃, h₄, h₅⟩ := h
  exact ⟨a, h₁, h₂, h₃, h₄.trans hp, h₅⟩

/-- The outer loop scans the first level. -/
theorem Resumes.underway (h : Resumes R S ((price, queue) :: levels) incoming results dropped)
    (hf : R.isFullyFilled incoming = false) (ha : R.accepts incoming price = true) :
    Underway R S price queue.length levels results dropped ⟨queue, incoming, 0, [], []⟩ := by
  obtain ⟨a, hl, rfl, rfl, hd, hat⟩ := h
  intro t ht
  obtain rfl := ht.unique (scanLevel_exits R price queue a.incoming)
  exact ⟨a.scanned R price queue, levels_setQueue hl, rfl, rfl, hd.append_right _, exits_scanned hl hf ha hat⟩

/-- A pass beyond the guard lets the order go. -/
theorem scanBody_guard {rest : List OrderEntry} {count : ℕ} {ms : List MatchResult} {ds : List OrderEntry}
    (hc : n * 2 < count + 1) :
    scanBody R price n ⟨resting :: rest, incoming, count, ms, ds⟩ =
      .stop ⟨rest, incoming, count + 1, ms, ds ++ [resting]⟩ := by
  simp only [scanBody, if_pos hc]

/-- How the inner loop leaves an order that it meets: as `m` says. -/
structure Met (R : MatchRule) (S : MatchState) (price : Decimal) (n : ℕ) (levels : List (Decimal × List OrderEntry))
    (results : List MatchResult) (dropped rest : List OrderEntry) (ms : List MatchResult) (ds : List OrderEntry)
    (m : Meeting) : Prop where
  letGo : m.letGo = true → R.isFullyFilled m.incoming = false ∧
    Resumes R S (written price rest levels) m.incoming (results ++ (ms ++ m.results)) (dropped ++ (ds ++ [m.left]))
  filled : m.letGo = false → R.isFullyFilled m.incoming = true →
    Resumes R S (written price (if 0 < m.left.remainingAmount then m.left :: rest else rest) levels) m.incoming
      (results ++ (ms ++ m.results)) (dropped ++ if 0 < m.left.remainingAmount then ds else ds ++ [m.left])
  usedUp : m.letGo = false → R.isFullyFilled m.incoming = false → ¬ 0 < m.left.remainingAmount ∧
    ∃ count, m.pops + count = n * 2 ∧
      Underway R S price n levels results dropped ⟨rest, m.incoming, count, ms ++ m.results, ds ++ [m.left]⟩

/-- **Meeting an order.** -/
theorem meet_follows (price : Decimal) (rest : List OrderEntry) : ∀ (pops count : ℕ) (incoming resting : OrderEntry)
    (ms : List MatchResult) (ds : List OrderEntry), pops + count = n * 2 → incoming.userId ≠ resting.userId →
    R.isFullyFilled incoming = false →
    Underway R S price n levels results dropped ⟨resting :: rest, incoming, count, ms, ds⟩ →
    Met R S price n levels results dropped rest ms ds (R.meet price pops incoming resting) := by
  intro pops
  induction pops with
  | zero =>
    intro count incoming resting ms ds hn hu hf h
    have hstop := h.stop (scanBody_guard (by omega))
    refine ⟨fun _ => ⟨hf, ?_⟩, ?_, ?_⟩
    · simpa [MatchRule.meet] using hstop
    · simp [MatchRule.meet]
    · simp [MatchRule.meet]
  | succ pops ih =>
    intro count incoming resting ms ds hn hu hf h
    unfold MatchRule.meet
    dsimp only
    by_cases hb : R.breaksAt (R.matchAmount incoming resting price) = true
    · rw [if_pos hb]
      have hstop := h.stop (scanBody_off hu hb)
      exact ⟨fun _ => ⟨hf, by simpa using hstop⟩, by simp, by simp⟩
    rw [if_neg hb]
    have hpass := scanBody_fill (n := n) rest ms ds (by omega : count + 1 ≤ n * 2) hu (by simpa using hb)
    simp only [Scan.fill] at hpass
    set amount := R.matchAmount incoming resting price
    by_cases hused : R.isFullyFilled (R.take incoming amount price) = true
    · -- the incoming order is used up
      rw [if_pos (Or.inl hused)]
      rw [if_pos hused] at hpass
      have hstop := h.stop hpass
      exact ⟨by simp, fun _ _ => hstop, by simp [hused]⟩
    rw [if_neg hused] at hpass
    have hnext := h.next hpass
    by_cases hleft : 0 < (resting.fill amount).remainingAmount
    · -- both are left: the order is popped again
      rw [if_neg (not_or.2 ⟨hused, not_not.2 hleft⟩)]
      rw [if_pos hleft, if_pos hleft] at hnext
      have hmet := ih (count + 1) (R.take incoming amount price) (resting.fill amount) _ ds (by omega)
        (by rw [R.take_userId]; exact hu) (by simpa using hused) hnext
      refine ⟨fun hl => ?_, fun hl hf' => ?_, fun hl hf' => ?_⟩
      · simpa [List.append_assoc] using hmet.letGo hl
      · simpa [List.append_assoc] using hmet.filled hl hf'
      · simpa [List.append_assoc] using hmet.usedUp hl hf'
    · rw [if_pos (Or.inr hleft)]
      rw [if_neg hleft, if_neg hleft] at hnext
      exact ⟨by simp, fun _ hf' => absurd hf' hused, fun _ _ => ⟨hleft, count + 1, by dsimp only; omega, hnext⟩⟩

/-- What the tour of a level comes to: the incoming order is used up, or the own orders that were
passed over are let go and the outer loop comes to the next level. -/
structure Toured (R : MatchRule) (S : MatchState) (levels : List (Decimal × List OrderEntry)) (results : List MatchResult)
    (dropped : List OrderEntry) (t : Tour) : Prop where
  filled : R.isFullyFilled t.incoming = true →
    Resumes R S t.left t.incoming (results ++ t.results) (dropped ++ t.dropped)
  done : R.isFullyFilled t.incoming = false →
    Resumes R S levels t.incoming (results ++ t.results) (dropped ++ (t.dropped ++ t.passed))

theorem Toured.after {visits : List Visit} {t : Tour}
    (h : Toured R S levels (results ++ visits.flatMap Visit.results)
      (dropped ++ (visits.filter fun v => !v.stays).map Visit.left) t) :
    Toured R S levels results dropped (t.after visits) := by
  refine ⟨fun hf => ?_, fun hf => ?_⟩
  · have := h.filled hf
    rwa [List.append_assoc, List.append_assoc, ← Tour.after_results, ← Tour.after_dropped] at this
  · have := h.done hf
    rwa [List.append_assoc, List.append_assoc, ← List.append_assoc (List.map _ _), ← Tour.after_results,
      ← Tour.after_dropped] at this

/-- Where only own orders are left of a level, they are let go. -/
theorem level_done (hown : ∀ o ∈ queue, incoming.userId = o.userId) (hf : R.isFullyFilled incoming = false)
    (ha : R.accepts incoming price = true) {count : ℕ} {ms : List MatchResult} {ds : List OrderEntry}
    (h : Underway R S price n levels results dropped ⟨queue, incoming, count, ms, ds⟩) :
    Resumes R S levels incoming (results ++ ms) (dropped ++ (ds ++ queue)) := by
  obtain ⟨t, ht⟩ := scan_exits R price n ⟨queue, incoming, count, ms, ds⟩
  have hresumes := h t ht
  obtain ⟨hi, hr, ⟨hnil, hq, hd⟩ | ⟨o, hp, hd⟩⟩ := idle_scan ht fun o ho => Or.inl (hown o ho)
  · dsimp only at hi hr hnil hd
    rw [hi, hr, hq, hd, written, if_pos rfl] at hresumes
    rwa [hnil, List.append_nil]
  dsimp only at hi hr hp hd
  rw [hi, hr, hd] at hresumes
  by_cases hq : t.queue = []
  · rw [hq] at hresumes hp
    exact hresumes.perm ((hp.append_left ds).append_left dropped)
  -- one scan after the other lets one of them go
  rw [written, if_neg hq] at hresumes
  obtain ⟨a, hl, rfl, hresults, hdropped, hat⟩ := hresumes
  obtain ⟨b, hbl, hbi, hbr, hbd, hbt⟩ := idle_level _ t.queue a rfl hl hat hf ha fun o ho =>
    Or.inl (hown o (hp.subset (List.mem_cons_of_mem _ ho)))
  refine ⟨b, hbl, hbi, hbr.trans hresults, hbd.trans ((hdropped.append_right _).trans ?_), hbt⟩
  rw [List.append_assoc, List.append_assoc]
  exact (hp.append_left ds).append_left dropped

/-- **The tour of a level** is what the loops do there. -/
theorem tourLevel_follows (price : Decimal) (levels : List (Decimal × List OrderEntry)) :
    ∀ (ahead : List OrderEntry) (pops count n : ℕ) (passed : List OrderEntry) (incoming : OrderEntry)
      (results ms : List MatchResult) (dropped ds : List OrderEntry), pops + count = n * 2 →
      (∀ o ∈ passed, incoming.userId = o.userId) → R.isFullyFilled incoming = false →
      R.accepts incoming price = true →
      Underway R S price n levels results dropped ⟨ahead ++ passed, incoming, count, ms, ds⟩ →
      Toured R S levels (results ++ ms) (dropped ++ ds) (R.tourLevel price levels ahead pops passed incoming) := by
  intro ahead
  induction ahead with
  | nil =>
    intro pops count n passed incoming results ms dropped ds _ hown hf ha h
    have hdone := level_done hown hf ha h
    refine ⟨fun hf' => ?_, fun _ => ?_⟩
    · rw [show (R.tourLevel price levels [] pops passed incoming).incoming = incoming from rfl, hf] at hf'
      cases hf'
    · simpa [MatchRule.tourLevel, Tour.results, Tour.dropped] using hdone
  | cons resting rest ih =>
    intro pops count n passed incoming results ms dropped ds hn hown hf ha h
    -- after an order is let go, what is left of the level is scanned again
    have hagain : ∀ {incoming' : OrderEntry} {results' : List MatchResult} {dropped' : List OrderEntry},
        incoming'.terms = incoming.terms → R.isFullyFilled incoming' = false →
        Resumes R S (written price (rest ++ passed) levels) incoming' results' dropped' →
        Toured R S levels results' dropped'
          (R.tourLevel price levels rest ((rest ++ passed).length * 2) passed incoming') := by
      intro incoming' results' dropped' hterms hf' hresumes
      have hown' : ∀ o ∈ passed, incoming'.userId = o.userId := by
        rw [(OrderEntry.terms_eq hterms).2.1]
        exact hown
      by_cases hq : rest ++ passed = []
      · obtain ⟨rfl, rfl⟩ := List.append_eq_nil_iff.1 hq
        refine ⟨fun hused => ?_, fun _ => ?_⟩
        · rw [show (R.tourLevel price levels [] _ [] incoming').incoming = incoming' from rfl, hf'] at hused
          cases hused
        · simpa [MatchRule.tourLevel, Tour.results, Tour.dropped, written] using hresumes
      · rw [written, if_neg hq] at hresumes
        have ha' : R.accepts incoming' price = true := by rw [← R.accepts_terms, hterms, R.accepts_terms]; exact ha
        have := ih ((rest ++ passed).length * 2) 0 _ passed incoming' results' [] dropped' [] rfl hown' hf' ha'
          (hresumes.underway hf' ha')
        simpa using this
    unfold MatchRule.tourLevel
    by_cases hu : incoming.userId = resting.userId
    · rw [if_pos hu]
      cases pops with
      | zero =>
        have hstop := h.stop (scanBody_guard (by omega))
        refine Toured.after ?_
        simpa [Visit.own, Visit.stays] using hagain rfl hf hstop
      | succ pops =>
        have hpass : scanBody R price n ⟨resting :: (rest ++ passed), incoming, count, ms, ds⟩ =
            .next ⟨rest ++ passed ++ [resting], incoming, count + 1, ms, ds⟩ := scanBody_own (by omega) hu
        have hnext := h.next hpass
        rw [List.append_assoc] at hnext
        exact ih pops (count + 1) n (passed ++ [resting]) incoming results ms dropped ds (by omega)
          (List.forall_mem_append.2 ⟨hown, by simpa using hu⟩) hf ha hnext
    · rw [if_neg hu]
      have hmet := meet_follows price (rest ++ passed) pops count incoming resting ms ds hn hu hf h
      have hterms := R.meet_terms price pops incoming resting
      set m := R.meet price pops incoming resting
      dsimp only
      cases hl : m.letGo with
      | true =>
        obtain ⟨hf', hresumes⟩ := hmet.letGo hl
        refine Toured.after ?_
        simpa [Visit.stays, hl] using hagain hterms hf' hresumes
      | false =>
        cases hf' : R.isFullyFilled m.incoming with
        | true =>
          have hresumes := hmet.filled hl hf'
          refine ⟨fun _ => ?_, fun hunfilled => ?_⟩
          · by_cases hleft : 0 < m.left.remainingAmount
            · simpa [Tour.left, Tour.results, Tour.dropped, Visit.stays, hleft, written] using hresumes
            · simpa [Tour.left, Tour.results, Tour.dropped, Visit.stays, hleft, written] using hresumes
          · simp [hf'] at hunfilled
        | false =>
          obtain ⟨hleft, count', hn', hnext⟩ := hmet.usedUp hl hf'
          have hown' : ∀ o ∈ passed, m.incoming.userId = o.userId := by
            rw [(OrderEntry.terms_eq hterms).2.1]
            exact hown
          have ha' : R.accepts m.incoming price = true := by
            rw [← R.accepts_terms, hterms, R.accepts_terms]; exact ha
          have htail := ih m.pops count' n passed m.incoming results _ dropped _ hn' hown' hf' ha' hnext
          refine Toured.after ?_
          simpa [Visit.stays, hleft] using htail

/-- The outer loop stops where the tour does. -/
theorem matchBody_ends {a : MatchState} (hl : a.side.levels R.scansBuys = levels)
    (h : R.isFullyFilled a.incoming = true ∨ levels = [] ∨
      ∃ price queue others, levels = (price, queue) :: others ∧ R.accepts a.incoming price = false) :
    matchBody R a = .stop a := by
  cases hf : R.isFullyFilled a.incoming with
  | true => simp [matchBody, hf]
  | false =>
    rcases h with h | rfl | ⟨price, queue, others, rfl, ha⟩
    · rw [hf] at h; cases h
    · have hbest : a.side.getBestPrice R.scansBuys = none := by
        unfold OrderBookSide.getBestPrice
        rw [show a.side.orders.bestFirst R.scansBuys = a.side.levels R.scansBuys from rfl, hl]
        rfl
      simp [matchBody, hbest]
    · rw [matchBody_levels hl hf, ha]
      simp

/-- **The tour of the levels** is what the outer loop does. -/
theorem tour_follows : ∀ (levels : List (Decimal × List OrderEntry)) (incoming : OrderEntry) (results : List MatchResult)
    (dropped : List OrderEntry), Resumes R S levels incoming results dropped →
    S.side.levels R.scansBuys = (R.tour levels incoming).left ∧ S.incoming = (R.tour levels incoming).incoming ∧
      S.results = results ++ (R.tour levels incoming).results ∧
      S.dropped.Perm (dropped ++ (R.tour levels incoming).dropped) := by
  intro levels
  induction levels with
  | nil =>
    intro incoming results dropped h
    obtain ⟨a, hl, rfl, rfl, hd, hat⟩ := h
    obtain rfl := hat.unique (.of_stop (matchBody_ends hl (Or.inr (Or.inl rfl))))
    simpa [MatchRule.tour, Tour.left, Tour.results, Tour.dropped, hl] using hd
  | cons l levels ih =>
    obtain ⟨price, queue⟩ := l
    intro incoming results dropped h
    unfold MatchRule.tour
    by_cases hend : R.isFullyFilled incoming = true ∨ R.accepts incoming price = false
    · rw [if_pos hend]
      obtain ⟨a, hl, rfl, rfl, hd, hat⟩ := h
      have hstop : matchBody R a = .stop a :=
        matchBody_ends hl (hend.imp_right fun ha => Or.inr ⟨price, queue, levels, rfl, ha⟩)
      obtain rfl := hat.unique (.of_stop hstop)
      simpa [Tour.left, Tour.results, Tour.dropped, hl] using hd
    rw [if_neg hend]
    rw [not_or, Bool.not_eq_true, Bool.not_eq_false] at hend
    have hlevel := tourLevel_follows price levels queue (queue.length * 2) 0 queue.length [] incoming results [] dropped
      [] rfl (by simp) hend.1 hend.2 (by simpa using h.underway hend.1 hend.2)
    rw [List.append_nil, List.append_nil] at hlevel
    set t := R.tourLevel price levels queue (queue.length * 2) [] incoming
    dsimp only
    cases hf : R.isFullyFilled t.incoming with
    | true =>
      obtain ⟨a, hl, hi, hr, hd, hat⟩ := hlevel.filled hf
      obtain rfl := hat.unique (.of_stop (matchBody_ends hl (Or.inl (hi ▸ hf))))
      exact ⟨hl, hi, hr, hd⟩
    | false =>
      obtain ⟨h₁, h₂, h₃, h₄⟩ := ih t.incoming _ _ (hlevel.done hf)
      have hown : ((t.passed.map (Visit.own price)).filter fun v => !v.stays).map Visit.left = t.passed := by
        rw [List.filter_eq_self.2 (by simp [Visit.own, Visit.stays]), List.map_map]
        exact List.map_id _
      have hnone : (t.passed.map (Visit.own price)).flatMap Visit.results = [] := by
        simp [Visit.own]
      rw [if_neg (by simp)]
      refine ⟨h₁, h₂, h₃.trans ?_, h₄.trans (List.Perm.of_eq ?_)⟩
      · rw [Tour.after_results, List.flatMap_append, hnone, List.append_nil, List.append_assoc]
        rfl
      · rw [Tour.after_dropped, List.filter_append, List.map_append, hown, List.append_assoc]
        rfl

end Loops

/-- **The loops of the matcher do what the tour does**, whatever the rule, the division and the
rounding; the orders let go may come in another order. -/
theorem matchAgainst_tours (R : MatchRule) (order : OrderEntry) (side : OrderBookSide) :
    (matchAgainst R order side).side.levels R.scansBuys = (R.tour (side.levels R.scansBuys) order).left ∧
      (matchAgainst R order side).incoming = (R.tour (side.levels R.scansBuys) order).incoming ∧
      (matchAgainst R order side).results = (R.tour (side.levels R.scansBuys) order).results ∧
      (matchAgainst R order side).dropped.Perm (R.tour (side.levels R.scansBuys) order).dropped := by
  have := tour_follows _ order [] [] ⟨⟨side, order, [], []⟩, rfl, rfl, rfl, .refl _, matchAgainst_exits R order side⟩
  simpa using this

end CexEngine
