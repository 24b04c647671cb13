import CexEngine.Spec.Checked

/-!
# The benchmark engine

`runtime/bench_engine.rs`: an engine without locks, threads and channels, whose
`process_submit_order_bench` is a copy of `process_submit_order`. Here are the copy and the
original as it runs without a WAL, DB or Kafka sender, both with their panics (`none`): the
copy adds up what the original does not.

Without senders nothing is read from the cache for events, and no total is taken for the DB
writer.
-/

namespace CexEngine

open Arithmetic (add sub mul)

variable [Arithmetic]

namespace Checked

/-! ## `process_submit_order` without senders -/

/-- The rest of the call for a market order. -/
def settleMarket (order : OrderEntry) (found : MatchOutcome) (s : Engine) :
    Option (Engine × Except EngineError (List MatchResult)) := do
  let settled ← executeTrades true s.balanceCache found.results
  let done := executed settled.2
  let leftover ← marketLeftover order done
  let released ← release settled.1 order.userId leftover.1 leftover.2
  some ({ s with balanceCache := released.1 }, .ok done)

/-- The rest of the call for any other order. -/
def settleLimit (order : OrderEntry) (found : MatchOutcome) (s : Engine) :
    Option (Engine × Except EngineError (List MatchResult)) := do
  let settled ← executeTrades false s.balanceCache found.results
  let released ← if found.order.remainingAmount = 0 then do
      let leftover ← limitLeftover order found.results
      release settled.1 order.userId leftover.1 leftover.2
    else some (settled.1, none)
  some ({ s with balanceCache := released.1 }, .ok found.results)

def submitAlone (dv : Decimal → Decimal → Decimal) (s : Engine) (order : OrderEntry) :
    Option (Engine × Except EngineError (List MatchResult)) := do
  let lock ← lock order
  let r ← lockBalanceForOrder s.balanceCache order.userId lock.1 lock.2
  match r.2 with
  | .error e => some ({ s with balanceCache := r.1 }, .error (.context "Failed to lock balance: " e))
  | .ok () => do
    let found ← matchAndRest dv order (s.orderbook order.pair)
    let s' : Engine := { orderbooks := s.orderbooks.insert order.pair found.book, balanceCache := r.1 }
    if order.orderSide = .market then settleMarket order found s' else settleLimit order found s'

end Checked

/-! ## `process_submit_order_bench` -/

structure BenchEngine where
  orderbooks : AList fun _ : TradingPair => OrderBook
  executor : BalanceCache

namespace BenchEngine

open Checked

/-- The variables of the loop over the matches of a market order. -/
structure MarketTotals where
  executor : BalanceCache
  successfulMatches : List MatchResult
  totalQuoteUsed : Decimal
  totalAmountUsed : Decimal

/-- One pass of that loop. -/
def marketTrade (orderAfterMatch : OrderEntry) (t : MarketTotals) (m : MatchResult) : Option MarketTotals := do
  let r ← executeTrade t.executor m true
  match r.2 with
  | .ok _ =>
    if orderAfterMatch.orderType = .buy then do
      let quote ← value (mul m.price m.amount)
      let totalQuoteUsed ← value (add t.totalQuoteUsed quote)
      some { t with executor := r.1, successfulMatches := t.successfulMatches ++ [m], totalQuoteUsed }
    else do
      let totalAmountUsed ← value (add t.totalAmountUsed m.amount)
      some { t with executor := r.1, successfulMatches := t.successfulMatches ++ [m], totalAmountUsed }
  | .error _ => some { t with executor := r.1 }

/-- Step 7: a market order. -/
def settleMarketBench (initialQuoteAmount : Option Decimal) (initialAmount : Decimal) (found : MatchOutcome)
    (executor : BalanceCache) : Option (BalanceCache × List MatchResult) := do
  let orderAfterMatch := found.order
  let totals ← found.results.foldlM (marketTrade orderAfterMatch) ⟨executor, [], 0, 0⟩
  if orderAfterMatch.orderType = .buy then do
    let unlock ← value (sub (initialQuoteAmount.getD 0) totals.totalQuoteUsed)
    let released ← release totals.executor orderAfterMatch.userId orderAfterMatch.quoteMint unlock
    some (released.1, totals.successfulMatches)
  else do
    let unlock ← value (sub initialAmount totals.totalAmountUsed)
    let released ← release totals.executor orderAfterMatch.userId orderAfterMatch.baseMint unlock
    some (released.1, totals.successfulMatches)

/-- Step 8: the trades of a limit order. -/
def limitTrade (executor : BalanceCache) (m : MatchResult) : Option BalanceCache :=
  (executeTrade executor m false).map Prod.fst

/-- Steps 8 and 9. Both totals are taken. -/
def settleLimitBench (initialAmount : Decimal) (found : MatchOutcome) (executor : BalanceCache) :
    Option (BalanceCache × List MatchResult) := do
  let orderAfterMatch := found.order
  let executor ← found.results.foldlM limitTrade executor
  if orderAfterMatch.remainingAmount = 0 then do
    let totalQuoteUsed ← Checked.quoteUsed found.results
    let totalAmountUsed ← Checked.amountUsed found.results
    let (unlockMint, unlockAmount) ← if orderAfterMatch.orderType = .buy then do
        let initialLocked ← value (mul (orderAfterMatch.price.getD 0) initialAmount)
        let remainingLocked ← value (sub initialLocked totalQuoteUsed)
        some (orderAfterMatch.quoteMint, remainingLocked)
      else do
        let remainingLocked ← value (sub initialAmount totalAmountUsed)
        some (orderAfterMatch.baseMint, remainingLocked)
    let released ← release executor orderAfterMatch.userId unlockMint unlockAmount
    some (released.1, found.results)
  else some (executor, found.results)

/-- `BenchEngine::submit_direct`, which is `process_submit_order_bench`. -/
def submitDirect (dv : Decimal → Decimal → Decimal) (b : BenchEngine) (order : OrderEntry) :
    Option (BenchEngine × Except EngineError (List MatchResult)) := do
  let lock ← Checked.lock order
  let r ← Checked.lockBalanceForOrder b.executor order.userId lock.1 lock.2
  match r.2 with
  | .error e => some ({ b with executor := r.1 }, .error (.context "Failed to lock balance: " e))
  | .ok () => do
    let orderbook := (b.orderbooks.lookup order.pair).getD (.new order.pair)
    let found ← Checked.matchAndRest dv order orderbook
    let orderbooks := b.orderbooks.insert order.pair found.book
    let settled ← if order.orderSide = .market then
        settleMarketBench order.quoteAmount order.amount found r.1
      else settleLimitBench order.amount found r.1
    some (⟨orderbooks, settled.1⟩, .ok settled.2)

/-- The same books and balances in the engine. -/
def engine (b : BenchEngine) : Engine := ⟨b.orderbooks, b.executor⟩

end BenchEngine

end CexEngine
