import CexEngine.Proof.Sweep

/-!
# The loops of the matcher end

`matchLoop` and `scanLevel` run with a number of passes, the inner one inside a pass of the
outer one. Here are the two nested loops as they stand in the source, pass by pass and with no
number of passes.

* `loopsBody`: one pass of the loop that is under way.
* `loops_exit`: **both loops end**, by their `break`s, in what the matcher returns.
-/

namespace CexEngine

open Pass

/-- Where the loops are. -/
inductive MatchPoint where
  /-- At the top of the outer loop. -/
  | top (s : MatchState)
  /-- At the head of the inner loop, over the queue at `price`, which was `initialQueueLen` long. -/
  | inner (s : MatchState) (price : Decimal) (initialQueueLen : ℕ) (scan : Scan)

/-- The outer loop goes on after the inner one is left: the queue is written back. -/
def MatchState.after (s : MatchState) (price : Decimal) (scan : Scan) : MatchState where
  side := s.side.setQueue price scan.queue
  incoming := scan.incoming
  results := s.results ++ scan.results
  dropped := s.dropped ++ scan.dropped

variable [Arithmetic]

/-- One pass: of the outer loop as far as the inner one, of the inner one, or out of it. -/
def loopsBody (R : MatchRule) : MatchPoint → Pass MatchPoint
  | .top s =>
    if R.isFullyFilled s.incoming then .stop (.top s)
    else
      match s.side.getBestPrice R.scansBuys with
      | none => .stop (.top s)
      | some price =>
        if R.accepts s.incoming price then
          match s.side.getOrdersAtPrice price with
          | none => .stop (.top s)
          | some queue => .next (.inner s price queue.length ⟨queue, s.incoming, 0, [], []⟩)
        else .stop (.top s)
  | .inner s price initialQueueLen scan =>
    match scanBody R price initialQueueLen scan with
    | .next scan => .next (.inner s price initialQueueLen scan)
    | .stop scan => .next (.top (s.after price scan))

variable {R : MatchRule} {s t : MatchState}

/-- The outer loop stops where `matchBody` does. -/
theorem loops_stop (h : matchBody R s = .stop t) : loopsBody R (.top s) = .stop (.top t) := by
  obtain ⟨rfl, hf | hnone | ⟨best, hbest, ha⟩⟩ := matchBody_stop h
  · simp only [loopsBody, hf, if_true]
  · simp only [loopsBody, hnone, ite_self]
  · simp only [loopsBody, hbest, ha, Bool.false_eq_true, if_false, ite_self]

/-- **A pass of the outer loop**, with the passes of the inner one that it takes. -/
theorem loops_next (h : matchBody R s = .next t) : Steps (loopsBody R) (.top s) (.top t) := by
  obtain ⟨hf, price, queue, hbest, ha, hq, rfl⟩ := matchBody_next h
  have henter : loopsBody R (.top s) = .next (.inner s price queue.length ⟨queue, s.incoming, 0, [], []⟩) := by
    unfold loopsBody
    simp only [hf, Bool.false_eq_true, if_false, hbest, ha, if_true, OrderBookSide.getOrdersAtPrice, hq]
  obtain ⟨last, hscan, hlast⟩ := scanLevel_exits R price queue s.incoming
  have hinner : Steps (loopsBody R) (.inner s price queue.length ⟨queue, s.incoming, 0, [], []⟩)
      (.inner s price queue.length last) := by
    refine hscan.lift (fun scan => MatchPoint.inner s price queue.length scan) fun a b hab => ?_
    simp only [Function.onFun, loopsBody, hab]
  have hleave : loopsBody R (.inner s price queue.length last) =
      .next (.top (s.after price (scanLevel R price queue s.incoming))) := by
    simp only [loopsBody, hlast]
  exact .head henter (hinner.tail hleave)

/-- **Both loops end**, in what the matcher returns. -/
theorem loops_exit (R : MatchRule) (order : OrderEntry) (side : OrderBookSide) :
    Exits (loopsBody R) (.top ⟨side, order, [], []⟩) (.top (matchAgainst R order side)) := by
  obtain ⟨last, hsteps, hlast⟩ := matchAgainst_exits R order side
  exact ⟨.top last, hsteps.lift' MatchPoint.top fun _ _ hab => loops_next hab, loops_stop hlast⟩

/-- **Matching always ends**: from every book and every incoming order the loops of
`match_buy_order` and of `match_sell_order` are left with what the functions return, and no pass
follows pass for ever, however `+`, `-`, `*` and `/` round. -/
theorem matching_ends (dv : Decimal → Decimal → Decimal) (order : OrderEntry) (book : OrderBook) :
    (Exits (loopsBody (buyRule dv)) (.top ⟨book.sellOrders, order, [], []⟩)
        (.top (matchAgainst (buyRule dv) order book.sellOrders)) ∧
      ¬ ∃ points : ℕ → MatchPoint, points 0 = .top ⟨book.sellOrders, order, [], []⟩ ∧
        ∀ n, loopsBody (buyRule dv) (points n) = .next (points (n + 1))) ∧
      Exits (loopsBody sellRule) (.top ⟨book.buyOrders, order, [], []⟩)
        (.top (matchAgainst sellRule order book.buyOrders)) ∧
      ¬ ∃ points : ℕ → MatchPoint, points 0 = .top ⟨book.buyOrders, order, [], []⟩ ∧
        ∀ n, loopsBody sellRule (points n) = .next (points (n + 1)) := by
  have hbuy := loops_exit (buyRule dv) order book.sellOrders
  have hsell := loops_exit sellRule order book.buyOrders
  exact ⟨⟨hbuy, hbuy.terminates.not_forever⟩, hsell, hsell.terminates.not_forever⟩

end CexEngine
