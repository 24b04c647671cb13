import Mathlib.Tactic.Abel
import CexEngine.Proof.Scan

/-!
# The loop over the price levels

What a pass of the outer loop of the matcher does, and what follows for a whole call.

* `OrderBookSide.stock`: the resting orders of a side as a multiset, each with the price of
  its level. `stock_setQueue` is the one fact about how a level is written back.
* `matchLoop_exits`: the loop ends by a `break`, never by running out of passes.
* `matchAgainst_keeps`: a call keeps every property that single steps keep.
* `matchAgainst_done`: it ends with the incoming order used up, the side empty, or the best
  price beyond the limit.
-/

namespace CexEngine

open Pass

/-! ## A side as a multiset of orders -/

namespace OrderBookSide

/-- The resting orders of a side, each with the price of its level. -/
def stock (side : OrderBookSide) : Multiset (Decimal × OrderEntry) := side.orders.sumBy fun e => atPrice e.1 e.2

@[simp] theorem stock_new : new.stock = 0 := rfl

variable {side : OrderBookSide} {price : Decimal} {queue : List OrderEntry}

theorem mem_stock {x : Decimal × OrderEntry} :
    x ∈ side.stock ↔ ∃ queue, (x.1, queue) ∈ side.orders.entries ∧ x.2 ∈ queue := by
  have key : ∀ l : List (Decimal × List OrderEntry),
      x ∈ (l.map fun e => atPrice e.1 e.2).sum ↔ ∃ queue, (x.1, queue) ∈ l ∧ x.2 ∈ queue := by
    intro l
    induction l with
    | nil => simp
    | cons e l ih =>
      obtain ⟨p, q⟩ := e
      rw [List.map_cons, List.sum_cons, Multiset.mem_add, ih, mem_atPrice]
      constructor
      · rintro (⟨hp, ho⟩ | ⟨q', hq, ho⟩)
        · exact ⟨q, by rw [hp]; exact List.mem_cons_self, ho⟩
        · exact ⟨q', List.mem_cons_of_mem _ hq, ho⟩
      · rintro ⟨q', hq, ho⟩
        rcases List.mem_cons.1 hq with h | h
        · obtain ⟨rfl, rfl⟩ := Prod.mk.inj h
          exact Or.inl ⟨rfl, ho⟩
        · exact Or.inr ⟨q', h, ho⟩
  exact key side.orders.entries

/-- **Writing a level back** changes the stock at its price only. -/
theorem stock_setQueue (h : side.orders.get? price = some queue) :
    ∃ others, side.stock = atPrice price queue + others ∧
      ∀ queue', (side.setQueue price queue').stock = atPrice price queue' + others := by
  have hat : side.orders.at? (fun e => atPrice e.1 e.2) price = atPrice price queue := by
    simp [BTreeMap.at?, h]
  have herase := BTreeMap.sumBy_erase side.orders (fun e => atPrice e.1 e.2) price
  rw [hat, add_comm] at herase
  refine ⟨(side.orders.erase price).sumBy fun e => atPrice e.1 e.2, herase.symm, fun queue' => ?_⟩
  unfold setQueue stock
  split_ifs with hq
  · subst hq; simp
  · have hins := BTreeMap.sumBy_insert side.orders (fun e => atPrice e.1 e.2) price queue'
    rw [hat, ← herase] at hins
    have : (side.orders.insert price queue').sumBy (fun e => atPrice e.1 e.2) + atPrice price queue =
        atPrice price queue' + (side.orders.erase price).sumBy (fun e => atPrice e.1 e.2) + atPrice price queue := by
      rw [hins]; abel
    exact add_right_cancel this

/-- An added order joins the stock. -/
theorem stock_addOrder {order : OrderEntry} (h : order.price = some price) :
    (side.addOrder order).stock = (price, order) ::ₘ side.stock := by
  have hat : side.orders.at? (fun e => atPrice e.1 e.2) price = atPrice price (side.queueAt price) := by
    unfold BTreeMap.at? queueAt
    cases side.orders.get? price <;> simp
  have hins := BTreeMap.sumBy_insert side.orders (fun e => atPrice e.1 e.2) price (side.queueAt price ++ [order])
  have hstock : (side.addOrder order).stock =
      (side.orders.insert price (side.queueAt price ++ [order])).sumBy fun e => atPrice e.1 e.2 := by
    simp [addOrder, h, stock]
  rw [hat] at hins
  have : (side.addOrder order).stock + atPrice price (side.queueAt price) =
      (price, order) ::ₘ side.stock + atPrice price (side.queueAt price) := by
    rw [hstock, hins, atPrice_append, atPrice_cons, atPrice_nil, ← Multiset.singleton_add,
      ← Multiset.singleton_add, stock]
    abel
  exact add_right_cancel this

/-- No level has an empty queue. -/
def NoEmptyLevel (side : OrderBookSide) : Prop := ∀ e ∈ side.orders.entries, e.2 ≠ []

theorem NoEmptyLevel.setQueue (h : side.NoEmptyLevel) (price : Decimal) (queue : List OrderEntry) :
    (side.setQueue price queue).NoEmptyLevel := by
  intro e he
  unfold OrderBookSide.setQueue at he
  split_ifs at he with hq
  · exact h e (BTreeMap.mem_erase.1 he).1
  · rcases BTreeMap.mem_insert.1 he with rfl | he
    · exact hq
    · exact h e he.1

theorem NoEmptyLevel.addOrder (h : side.NoEmptyLevel) (order : OrderEntry) : (side.addOrder order).NoEmptyLevel := by
  unfold OrderBookSide.addOrder
  split
  · exact h
  · intro e he
    rcases BTreeMap.mem_insert.1 he with rfl | he
    · simp
    · exact h e he.1

theorem NoEmptyLevel.levels (h : side.NoEmptyLevel) (isBuy : Bool) : ∀ e ∈ side.levels isBuy, e.2 ≠ [] :=
  fun e he => h e (BTreeMap.mem_bestFirst.1 he)

/-- The best price heads the levels. -/
theorem getBestPrice_eq_some {isBuy : Bool} (h : side.getBestPrice isBuy = some price) :
    ∃ queue rest, side.levels isBuy = (price, queue) :: rest ∧ side.orders.get? price = some queue := by
  unfold getBestPrice at h
  cases hl : side.orders.bestFirst isBuy with
  | nil => rw [hl] at h; cases h
  | cons e rest =>
    rw [hl] at h
    cases h
    exact ⟨e.2, rest, hl, BTreeMap.get?_first hl⟩

theorem getBestPrice_eq_none {isBuy : Bool} (h : side.getBestPrice isBuy = none) : side.levels isBuy = [] := by
  unfold getBestPrice at h
  cases hl : side.orders.bestFirst isBuy with
  | nil => exact hl
  | cons e rest => rw [hl] at h; cases h

theorem stock_levels (side : OrderBookSide) (isBuy : Bool) :
    ((side.levels isBuy).map fun e => atPrice e.1 e.2).sum = side.stock :=
  BTreeMap.sumBy_bestFirst _ _ _

theorem stock_eq_zero {isBuy : Bool} (h : side.getBestPrice isBuy = none) : side.stock = 0 := by
  rw [← stock_levels side isBuy, getBestPrice_eq_none h]
  rfl

end OrderBookSide

/-! ## The passes -/

variable [Arithmetic] {R : MatchRule} {s t : MatchState}

/-- A pass that goes on scans the best price, which is within the limit. -/
theorem matchBody_next (h : matchBody R s = .next t) :
    R.isFullyFilled s.incoming = false ∧
      ∃ price queue, s.side.getBestPrice R.scansBuys = some price ∧ R.accepts s.incoming price = true ∧
        s.side.orders.get? price = some queue ∧
        t = { side := s.side.setQueue price (scanLevel R price queue s.incoming).queue
              incoming := (scanLevel R price queue s.incoming).incoming
              results := s.results ++ (scanLevel R price queue s.incoming).results
              dropped := s.dropped ++ (scanLevel R price queue s.incoming).dropped } := by
  unfold matchBody at h
  split_ifs at h with hf
  split at h
  · cases h
  · rename_i price hp
    split_ifs at h with ha
    split at h
    · cases h
    · rename_i queue hq
      cases h
      exact ⟨by simpa using hf, price, queue, hp, ha, hq, rfl⟩

/-- The three ways in which matching ends. -/
def MatchRule.Done (R : MatchRule) (s : MatchState) : Prop :=
  R.isFullyFilled s.incoming = true ∨ s.side.getBestPrice R.scansBuys = none ∨
    ∃ price, s.side.getBestPrice R.scansBuys = some price ∧ R.accepts s.incoming price = false

theorem matchBody_stop (h : matchBody R s = .stop t) : t = s ∧ R.Done s := by
  unfold matchBody at h
  split_ifs at h with hf
  · cases h; exact ⟨rfl, Or.inl hf⟩
  split at h
  · rename_i hp
    cases h; exact ⟨rfl, Or.inr (Or.inl hp)⟩
  · rename_i price hp
    split_ifs at h with ha
    · split at h
      · -- the best price has a queue
        rename_i hq
        obtain ⟨queue, -, -, hq'⟩ := OrderBookSide.getBestPrice_eq_some hp
        rw [OrderBookSide.getOrdersAtPrice, hq'] at hq
        cases hq
      · cases h
    · cases h; exact ⟨rfl, Or.inr (Or.inr ⟨price, hp, by simpa using ha⟩)⟩

/-- A scan uses the incoming order up, empties the queue, or makes it shorter. -/
theorem scanLevel_shrinks (R : MatchRule) (price : Decimal) (queue : List OrderEntry) (incoming : OrderEntry) :
    R.isFullyFilled (scanLevel R price queue incoming).incoming = true ∨
      (scanLevel R price queue incoming).queue = [] ∨
      (scanLevel R price queue incoming).queue.length < queue.length := by
  have hfill : ∀ (s : Scan) (amount : Decimal) (resting : OrderEntry) (rest : List OrderEntry),
      s.queue = resting :: rest → (s.fill R price amount resting rest).queue.length ≤ s.queue.length := by
    intro s amount resting rest hq
    unfold Scan.fill
    rw [hq]
    dsimp only
    split_ifs <;> simp
  refine (scanLevel_exits R price queue incoming).inv (I := fun s => s.queue.length ≤ queue.length)
    (J := fun s => R.isFullyFilled s.incoming = true ∨ s.queue = [] ∨ s.queue.length < queue.length)
    ?_ ?_ le_rfl
  · intro s t hs hst
    obtain ⟨resting, rest, hq, -, ⟨-, rfl⟩ | ⟨-, -, rfl, -⟩⟩ := scanBody_next hst
    · simpa [hq] using hs
    · exact (hfill s _ resting rest hq).trans hs
  · intro s t hs hst
    rcases scanBody_stop hst with ⟨hq, rfl⟩ | ⟨resting, rest, hq, ⟨rfl, -⟩ | ⟨-, -, -, hf⟩⟩
    · exact Or.inr (Or.inl hq)
    · rw [hq, List.length_cons] at hs
      exact Or.inr (Or.inr hs)
    · exact Or.inl hf

/-- How many levels and orders a side has. -/
def OrderBookSide.size (side : OrderBookSide) : ℕ := side.priceLevels + side.stock.card

omit [Arithmetic] in
theorem OrderBookSide.card_stock (side : OrderBookSide) : side.stock.card = side.restingOrders.length := by
  have hcard : ∀ l : List (Decimal × List OrderEntry),
      ((l.map fun e => atPrice e.1 e.2).sum).card = (l.flatMap Prod.snd).length := by
    intro l
    induction l with
    | nil => rfl
    | cons e l ih =>
      rw [List.map_cons, List.sum_cons, Multiset.card_add, ih, List.flatMap_cons, List.length_append]
      simp [atPrice]
  exact hcard side.orders.entries

omit [Arithmetic] in
theorem OrderBookSide.size_lt_passes (side : OrderBookSide) : side.size + 1 < side.passes := by
  have hcard := side.card_stock
  unfold size passes
  omega

omit [Arithmetic] in
theorem OrderBookSide.size_setQueue {side : OrderBookSide} {price : Decimal} {queue queue' : List OrderEntry}
    (h : side.orders.get? price = some queue) (hq : queue' = [] ∨ queue'.length < queue.length) :
    (side.setQueue price queue').size < side.size := by
  obtain ⟨others, hs, hset⟩ := stock_setQueue h
  have hcount : ∀ m : BTreeMap Decimal (List OrderEntry), m.entries.length = m.sumBy fun _ => 1 := by
    intro m; simp [BTreeMap.sumBy]
  have hat : side.orders.at? (fun _ => 1) price = 1 := by simp [BTreeMap.at?, h]
  have hcard : ∀ q : List OrderEntry, (atPrice price q).card = q.length := by intro q; simp [atPrice]
  unfold size priceLevels
  rw [hset, hs, Multiset.card_add, Multiset.card_add, hcard, hcard, hcount, hcount]
  unfold setQueue
  split_ifs with hq'
  · have := BTreeMap.sumBy_erase side.orders (fun _ => 1) price
    subst hq'
    simp only [List.length_nil]
    omega
  · have := BTreeMap.sumBy_insert side.orders (fun _ => 1) price queue'
    have := hq.resolve_left hq'
    dsimp only
    omega

/-- **The loop is never cut off**: it ends by one of the `break`s of the source. -/
theorem matchLoop_exits (R : MatchRule) (s : MatchState) : Exits (matchBody R) s (matchLoop R s) := by
  -- a pass after which the loop goes on once more has made the side smaller
  let μ : MatchState → ℕ := fun s => if R.isFullyFilled s.incoming = true then 0 else s.side.size + 1
  have hμ : ∀ s t, matchBody R s = .next t → μ t < μ s := by
    intro s t h
    obtain ⟨hf, price, queue, -, -, hq, rfl⟩ := matchBody_next h
    have hμs : μ s = s.side.size + 1 := by simp [μ, hf]
    rw [hμs]
    simp only [μ]
    split_ifs with hft
    · omega
    · have := OrderBookSide.size_setQueue hq ((scanLevel_shrinks R price queue s.incoming).resolve_left hft)
      omega
  have hs : μ s ≤ s.side.size + 1 := by
    simp only [μ]
    split_ifs <;> omega
  exact exits_run μ hμ _ s (lt_of_le_of_lt hs s.side.size_lt_passes)

/-! ## What a call keeps -/

variable {I : OrderEntry → Multiset (Decimal × OrderEntry) → List MatchResult → List OrderEntry → Prop}

theorem MatchRule.Keeps.match_next (hI : R.Keeps I) (hs : I s.incoming s.side.stock s.results s.dropped)
    (hst : matchBody R s = .next t) : I t.incoming t.side.stock t.results t.dropped := by
  obtain ⟨hf, price, queue, -, ha, hq, rfl⟩ := matchBody_next hst
  obtain ⟨others, hstock, hset⟩ := OrderBookSide.stock_setQueue hq
  rw [hstock] at hs
  simp only [hset]
  exact scanLevel_keeps hI hs hf ha

theorem matchLoop_keeps (hI : R.Keeps I) (h : I s.incoming s.side.stock s.results s.dropped) :
    I (matchLoop R s).incoming (matchLoop R s).side.stock (matchLoop R s).results (matchLoop R s).dropped := by
  refine (matchLoop_exits R s).inv (I := fun s => I s.incoming s.side.stock s.results s.dropped)
    (J := fun s => I s.incoming s.side.stock s.results s.dropped) (fun s t hs hst => hI.match_next hs hst) ?_ h
  intro s t hs hst
  obtain ⟨rfl, -⟩ := matchBody_stop hst
  exact hs

/-- Either nothing is done, since no price is within the limit, or the loop runs. -/
theorem matchAgainst_cases (R : MatchRule) (incoming : OrderEntry) (side : OrderBookSide) :
    (matchAgainst R incoming side = ⟨side, incoming, [], []⟩ ∧ R.Done ⟨side, incoming, [], []⟩) ∨
      matchAgainst R incoming side = matchLoop R ⟨side, incoming, [], []⟩ := by
  unfold matchAgainst
  split
  · rename_i hp
    exact Or.inl ⟨rfl, Or.inr (Or.inl hp)⟩
  · rename_i best hp
    split_ifs with ha
    · exact Or.inr rfl
    · exact Or.inl ⟨rfl, Or.inr (Or.inr ⟨best, hp, by simpa using ha⟩)⟩

/-- **A call keeps what steps keep.** -/
theorem matchAgainst_keeps (hI : R.Keeps I) {incoming : OrderEntry} {side : OrderBookSide}
    (h : I incoming side.stock [] []) :
    I (matchAgainst R incoming side).incoming (matchAgainst R incoming side).side.stock
      (matchAgainst R incoming side).results (matchAgainst R incoming side).dropped := by
  rcases matchAgainst_cases R incoming side with ⟨he, -⟩ | he
  · rw [he]; exact h
  · rw [he]; exact matchLoop_keeps hI h

/-- **Why a call ends.** -/
theorem matchAgainst_done (R : MatchRule) (incoming : OrderEntry) (side : OrderBookSide) :
    R.Done (matchAgainst R incoming side) := by
  rcases matchAgainst_cases R incoming side with ⟨he, hd⟩ | he
  · rw [he]; exact hd
  · rw [he]
    refine (matchLoop_exits R _).inv (I := fun _ => True) (J := R.Done) (fun _ _ _ _ => trivial) ?_ trivial
    intro s t _ hst
    obtain ⟨rfl, hd⟩ := matchBody_stop hst
    exact hd

/-- **A call keeps what holds of a side** whichever queues are put back. -/
theorem matchAgainst_side (R : MatchRule) (incoming : OrderEntry) {side : OrderBookSide} {P : OrderBookSide → Prop}
    (hP : ∀ side price queue, P side → P (side.setQueue price queue)) (h : P side) :
    P (matchAgainst R incoming side).side := by
  rcases matchAgainst_cases R incoming side with ⟨he, -⟩ | he
  · rw [he]; exact h
  · rw [he]
    refine (matchLoop_exits R ⟨side, incoming, [], []⟩).inv (I := fun s => P s.side) (J := fun s => P s.side) ?_ ?_ h
    · intro s t hs hst
      obtain ⟨-, price, queue, -, -, -, rfl⟩ := matchBody_next hst
      exact hP _ _ _ hs
    · intro s t hs hst
      obtain ⟨rfl, -⟩ := matchBody_stop hst
      exact hs

theorem matchAgainst_noEmptyLevel (R : MatchRule) (incoming : OrderEntry) {side : OrderBookSide}
    (h : side.NoEmptyLevel) : (matchAgainst R incoming side).side.NoEmptyLevel :=
  matchAgainst_side R incoming (fun _ price queue hs => hs.setQueue price queue) h

/-- The cached count is left as it is. -/
theorem matchAgainst_totalOrders (R : MatchRule) (incoming : OrderEntry) (side : OrderBookSide) :
    (matchAgainst R incoming side).side.totalOrders = side.totalOrders :=
  matchAgainst_side R incoming (P := fun t => t.totalOrders = side.totalOrders) (fun _ _ _ hs => hs) rfl

end CexEngine
