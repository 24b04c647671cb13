import CexEngine.Proof.WholeSide

/-!
# The exchange by itself

* `Exchange.Valid`: the orders may rest, and their ids are distinct. Every command keeps it.
* **`Exchange.remains_side`**: what a submit leaves of each order of a side is together what its
  trades leave of the side.
-/

namespace CexEngine

/-- The order belongs into a queue. -/
def OrderEntry.queuesAt (pair : TradingPair) (buys : Bool) (p : Decimal) (o : OrderEntry) : Bool :=
  o.pair = pair ∧ o.orderType = sideType buys ∧ o.price = some p

theorem OrderEntry.queuesAt_terms {pair : TradingPair} {buys : Bool} {p : Decimal} {o o' : OrderEntry}
    (h : o.terms = o'.terms) : o.queuesAt pair buys p = o'.queuesAt pair buys p := by
  obtain ⟨-, -, htype, -, hpair, hprice⟩ := OrderEntry.terms_eq h
  rw [queuesAt, queuesAt, htype, hpair, hprice]

namespace Exchange

/-- The orders may rest, and their ids are distinct. -/
structure Valid (x : Exchange) : Prop where
  rests : ∀ o ∈ x.orders, ∃ p, Rests o.isBuy o.pair p o
  ids : (x.orders.map OrderEntry.id).Nodup

variable {x : Exchange} {order r r' : OrderEntry} {pair : TradingPair} {buys : Bool}

theorem Valid.start (cache : BalanceCache) : (start cache).Valid :=
  ⟨fun _ ho => absurd ho List.not_mem_nil, List.nodup_nil⟩

theorem mem_side : r ∈ x.side pair buys ↔ r ∈ x.orders ∧ r.pair = pair ∧ r.orderType = sideType buys := by
  rw [side, List.mem_insertionSort, List.mem_filter, decide_eq_true_eq]

theorem mem_offers {q : Decimal × OrderEntry} (h : q ∈ x.offers order) : q.2 ∈ x.side order.pair (!order.isBuy) := by
  obtain ⟨o, ho, rfl⟩ := List.mem_map.1 (List.mem_of_mem_filter h)
  exact ho

/-- The deals of an order are with its offers. -/
theorem mem_deals {d : (Decimal × OrderEntry) × Decimal} (h : d ∈ x.deals order) : d.1 ∈ x.offers order := by
  unfold deals at h
  cases hq : order.remainingQuoteAmount with
  | none =>
    rw [hq] at h
    exact Greedy.mem_of_mem_allocate _ _ h
  | some budget =>
    rw [hq] at h
    obtain ⟨d', hd', rfl⟩ := List.mem_map.1 h
    have hmem := Greedy.mem_of_mem_allocate _ _ hd'
    exact hmem

theorem takings_trades (x : Exchange) (order : OrderEntry) :
    order.takings (x.trades order) = (x.deals order).map fun d => (d.1.2.id, d.2) := by
  rw [OrderEntry.takings, trades, List.map_map]
  refine List.map_congr_left fun d _ => ?_
  simp only [Function.comp_apply, OrderEntry.makerId, OrderEntry.matched]
  split_ifs <;> rfl

theorem leave_terms (h : x.leave order r = some r') : r'.terms = r.terms := by
  unfold leave Greedy.kept at h
  split_ifs at h
  obtain rfl := Option.some.inj h
  rfl

/-- The ids of what is left come in their order. -/
theorem left_ids (orders : List OrderEntry) :
    ((orders.filterMap (x.leave order)).map OrderEntry.id).Sublist (orders.map OrderEntry.id) := by
  rw [List.map_filterMap]
  induction orders with
  | nil => exact List.Sublist.refl _
  | cons r orders ih =>
    rw [List.filterMap_cons, List.map_cons]
    cases hleave : x.leave order r with
    | none => exact ih.cons _
    | some r' =>
      have hid : r'.id = r.id := (OrderEntry.terms_eq (leave_terms hleave)).1
      rw [Option.map_some, hid]
      exact ih.cons_cons _

theorem leave_pos (h : x.leave order r = some r') : 0 < r'.remainingAmount := by
  unfold leave Greedy.kept at h
  split_ifs at h with hpos
  obtain rfl := Option.some.inj h
  exact hpos

/-- An order that is not taken stays. -/
theorem leave_eq_self (hpos : 0 < r.remainingAmount) (h : ∀ q ∈ x.offers order, q.2.id ≠ r.id) :
    x.leave order r = some r := by
  have hnone : Greedy.taken r.id ((x.deals order).map fun d => (d.1.2.id, d.2)) = 0 := by
    refine Greedy.taken_eq_zero fun e he => ?_
    obtain ⟨d, hd, rfl⟩ := List.mem_map.1 he
    exact h d.1 (mem_deals hd)
  have hzero : r.fill 0 = r := by simp [OrderEntry.fill]
  rw [leave, hnone, hzero, Greedy.kept, if_pos hpos]

/-- An order of another side is not taken. -/
theorem Valid.leave_other (h : x.Valid) (hr : r ∈ x.orders)
    (hother : ¬ (r.pair = order.pair ∧ r.orderType = sideType (!order.isBuy))) : x.leave order r = some r := by
  obtain ⟨p, hrests⟩ := h.rests r hr
  refine leave_eq_self hrests.remaining_pos fun q hq he => ?_
  obtain ⟨hmem, hside⟩ := mem_side.1 (mem_offers hq)
  rw [List.inj_on_of_nodup_map h.ids hmem hr he] at hside
  exact hother hside

/-- What is left of some orders, and what is of some that are left. -/
theorem filter_leave {P : OrderEntry → Bool} (hP : ∀ {o o' : OrderEntry}, o.terms = o'.terms → P o = P o')
    (orders : List OrderEntry) :
    (orders.filterMap (x.leave order)).filter P = (orders.filter P).filterMap (x.leave order) := by
  rw [List.filter_filterMap, List.filterMap_filter]
  refine List.filterMap_congr fun o _ => ?_
  cases hleave : x.leave order o with
  | none => rw [Option.filter_none, ite_self]
  | some o' => rw [Option.filter_some, hP (leave_terms hleave)]

/-- **What the trades of an order leave of a side.** -/
theorem remains_side (x : Exchange) (order : OrderEntry) (pair : TradingPair) (buys : Bool) :
    (order.remains (x.trades order) ((x.side pair buys).map OrderEntry.quote)).map Prod.snd =
      (x.side pair buys).filterMap (x.leave order) := by
  rw [OrderEntry.remains, Greedy.remains, takings_trades, List.filterMap_map, List.map_filterMap]
  refine List.filterMap_congr fun r _ => ?_
  unfold leave Greedy.kept
  simp only [Function.comp_apply, apply_ite (Option.map Prod.snd)]
  rfl

namespace Valid

variable (hx : x.Valid)

include hx

theorem side_ids (pair : TradingPair) (buys : Bool) : ((x.side pair buys).map OrderEntry.id).Nodup :=
  ((List.perm_insertionSort _ _).map _).nodup_iff.2 (hx.ids.sublist (List.filter_sublist.map _))

/-! Submit and cancel -/

/-- The queues that an order does not meet lose nothing. -/
theorem filter_other (hother : ¬ (pair = order.pair ∧ buys = !order.isBuy)) (p : Decimal) :
    (x.orders.filter (·.queuesAt pair buys p)).filterMap (x.leave order) =
      x.orders.filter (·.queuesAt pair buys p) := by
  refine (List.filterMap_congr fun r hr => ?_).trans List.filterMap_some
  obtain ⟨hmem, hqueue⟩ := List.mem_filter.1 hr
  simp only [OrderEntry.queuesAt, decide_eq_true_eq] at hqueue
  refine hx.leave_other hmem fun he => hother ⟨hqueue.1.symm.trans he.1, ?_⟩
  exact sideType_inj.1 (hqueue.2.1.symm.trans he.2)

/-- An order that is taken in leaves the exchange valid. -/
theorem submit (hrest : (x.rest order).rests → ∃ p, Rests (x.rest order).isBuy (x.rest order).pair p (x.rest order))
    (hfresh : ∀ r ∈ x.orders, r.id ≠ order.id) : (x.submit order).Valid := by
  have hleft : ∀ o ∈ x.orders.filterMap (x.leave order), ∃ r ∈ x.orders, x.leave order r = some o := fun o ho =>
    List.mem_filterMap.1 ho
  refine ⟨fun o ho => ?_, ?_⟩
  · rcases List.mem_append.1 ho with ho | ho
    · obtain ⟨r, hr, hleave⟩ := hleft o ho
      have hpos := Exchange.leave_pos hleave
      obtain ⟨p, hrests⟩ := hx.rests r hr
      unfold Exchange.leave Greedy.kept at hleave
      split_ifs at hleave
      obtain rfl := Option.some.inj hleave
      exact ⟨p, hrests.fill _ hpos⟩
    · split_ifs at ho with hrests
      · rw [List.mem_singleton.1 ho]
        exact hrest hrests
      · exact absurd ho List.not_mem_nil
  · have hsub : ((x.orders.filterMap (x.leave order)).map OrderEntry.id).Sublist (x.orders.map OrderEntry.id) :=
      left_ids x.orders
    change ((x.orders.filterMap (x.leave order) ++ _).map OrderEntry.id).Nodup
    rw [List.map_append]
    refine (hx.ids.sublist hsub).append ?_ fun id hid hid' => ?_
    · split_ifs
      · exact List.nodup_singleton _
      · exact List.nodup_nil
    · split_ifs at hid'
      · rw [List.map_singleton, List.mem_singleton] at hid'
        obtain ⟨r, hr, rfl⟩ := List.mem_map.1 (hsub.subset hid)
        exact hfresh r hr hid'
      · exact absurd hid' List.not_mem_nil

theorem cancel (order : OrderEntry) : (x.cancel order).Valid :=
  ⟨fun o ho => hx.rests o (List.mem_of_mem_filter ho), hx.ids.sublist (List.filter_sublist.map _)⟩

end Valid

end Exchange

end CexEngine
