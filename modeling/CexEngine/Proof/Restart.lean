import CexEngine.Proof.Rules
import CexEngine.Proof.Balances
import CexEngine.Spec.Start

/-!
# What a restart brings back

* `loadBalances_entry`: a start keeps every user's total and locks nothing.
* `rebuilt_iff`: **a start rebuilds the exchange if and only if no limit order is open** in the
  database, since it loads no orders.
-/

namespace CexEngine

/-- The open limit orders of the database, as the engine would keep them. -/
def OrdersTable.openOrders (orders : OrdersTable) : List OrderEntry :=
  (orders.getAllActiveOrders.filter fun row => row.2.orderSide = .limit).map fun row => orderToEntry row.1 row.2

/-- `x` may be visited before `y` on a side: by price, and by time at one price. -/
def OrderEntry.Precedes (isBuy : Bool) (x y : OrderEntry) : Prop :=
  (if isBuy then y.price.getD 0 < x.price.getD 0 else x.price.getD 0 < y.price.getD 0) ∨
    x.price = y.price ∧ x.createdAt ≤ y.createdAt

/-- The engine has what the database says: the open orders in their books and the balances,
locked as far as these orders need. -/
structure Rebuilt (balances : BalancesTable) (orders : OrdersTable) (s : Engine) : Prop where
  books : ∀ pair, ((s.orderbook pair).buyOrders.queued true ++ (s.orderbook pair).sellOrders.queued false).Perm
    (orders.openOrders.filter fun o => o.pair = pair)
  buys : ∀ pair, ∀ o ∈ (s.orderbook pair).buyOrders.queued true, o.orderType = .buy
  sells : ∀ pair, ∀ o ∈ (s.orderbook pair).sellOrders.queued false, o.orderType = .sell
  buysSorted : ∀ pair, ((s.orderbook pair).buyOrders.queued true).Pairwise (OrderEntry.Precedes true)
  sellsSorted : ∀ pair, ((s.orderbook pair).sellOrders.queued false).Pairwise (OrderEntry.Precedes false)
  totals : ∀ u m, (s.balanceCache.entry u m).total = ((balances.lookup (u, m)).getD .new).total
  locked : ∀ u m, s.balanceCache.locked u m = (orders.openOrders.map fun o => o.required u m).sum

/-- **What is loaded**: the row of a user and mint, all of it available, or what was there. -/
theorem loadBalances_entry {u : UserId} {m : Mint} :
    ∀ {rows : List (Sigma fun _ : UserId × Mint => Balance)} {c : BalanceCache}, rows.NodupKeys →
      (loadBalances c rows).entry u m =
        ((rows.dlookup (u, m)).map fun b => Balance.withAvailable b.total).getD (c.entry u m) := by
  intro rows
  induction rows with
  | nil => intro c _; rfl
  | cons row rows ih =>
    intro c hkeys
    obtain ⟨⟨user, mint⟩, balance⟩ := row
    obtain ⟨hnew, hkeys⟩ := List.nodupKeys_cons.1 hkeys
    rw [loadBalances, ih hkeys, BalanceCache.setBalance, BalanceCache.entry_put]
    by_cases hkey : (u, m) = (user, mint)
    · -- no later row has this key
      obtain ⟨rfl, rfl⟩ := Prod.mk.inj hkey
      rw [List.dlookup_cons_eq, List.dlookup_eq_none.2 hnew, if_pos ⟨rfl, rfl⟩]
      rfl
    · rw [List.dlookup_cons_ne _ _ hkey, if_neg fun h => hkey (Prod.ext h.1 h.2)]

theorem loadBalances_new_entry (balances : BalancesTable) (u : UserId) (m : Mint) :
    (loadBalances .new balances.entries).entry u m = .withAvailable ((balances.lookup (u, m)).getD .new).total := by
  rw [loadBalances_entry balances.nodupKeys, AList.lookup]
  cases balances.entries.dlookup (u, m) with
  | some b => rfl
  | none =>
    change Balance.new = .withAvailable Balance.new.total
    simp [Balance.new, Balance.withAvailable, Balance.total]

/-- **A start in standard mode rebuilds the exchange** if and only if no limit order is pending
or partially filled. -/
theorem rebuilt_iff (balances : BalancesTable) (orders : OrdersTable) :
    ∃ s, startImpl .standard (some (.ok balances)) (.start .new) = .ok s ∧
      (Rebuilt balances orders s ↔ ∀ row ∈ orders.getAllActiveOrders, row.2.orderSide ≠ .limit) := by
  refine ⟨_, rfl, fun h row hrow hlimit => ?_, fun hnone => ?_⟩
  · -- the book of the row's pair is empty
    have hmem : orderToEntry row.1 row.2 ∈ orders.openOrders :=
      List.mem_map.2 ⟨row, List.mem_filter.2 ⟨hrow, by simpa using hlimit⟩, rfl⟩
    have hperm := h.books (orderToEntry row.1 row.2).pair
    have hempty := (List.nil_perm.1 hperm)
    exact List.ne_nil_of_mem (List.mem_filter.2 ⟨hmem, by simp⟩) hempty
  · have hopen : orders.openOrders = [] := by
      rw [OrdersTable.openOrders, List.map_eq_nil_iff, List.filter_eq_nil_iff]
      exact fun row hrow => by simpa using hnone row hrow
    constructor
    · intro pair
      rw [hopen]
      exact List.Perm.nil
    · exact fun pair o ho => absurd ho List.not_mem_nil
    · exact fun pair o ho => absurd ho List.not_mem_nil
    · exact fun pair => List.Pairwise.nil
    · exact fun pair => List.Pairwise.nil
    · intro u m
      change ((loadBalances .new balances.entries).entry u m).total = _
      rw [loadBalances_new_entry, Balance.total, Balance.withAvailable, ExactSums.add_eq, add_zero]
    · intro u m
      change ((loadBalances .new balances.entries).entry u m).locked = _
      rw [hopen, loadBalances_new_entry]
      rfl

/-- A pending limit buy of user 1: after the start its lock is gone and no book has it. -/
theorem rebuilt_not :
    ∃ s, startImpl .standard (some (.ok ((∅ : BalancesTable).insert (1, "USDT") ⟨5, 95⟩))) (.start .new) = .ok s ∧
      ¬ Rebuilt ((∅ : BalancesTable).insert (1, "USDT") ⟨5, 95⟩)
        ((∅ : OrdersTable).insert 90001 ⟨1, .buy, .limit, "SOL", "USDT", some 95, 1, 0, 0, "pending", 0⟩) s := by
  refine ⟨_, rfl, fun h => ?_⟩
  have hlocked := h.locked 1 "USDT"
  rw [BalanceCache.locked] at hlocked
  revert hlocked
  decide +kernel

end CexEngine
