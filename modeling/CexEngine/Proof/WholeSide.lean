import CexEngine.Abstract.Exchange
import CexEngine.Proof.Offers
import CexEngine.Proof.OwnOrders
import CexEngine.Proof.Remains

/-!
# A side as a list

* `OrderEntry.ClearOf`: no quote within the limit of an order is of its own user. Then a sweep
  passes nobody, and if no amount stops it (`Sweep.Flows`), the quotes that it leaves are what its
  matches leave of each, in the order in which they were (**`sweep_remains`**).
* `OrderBookSide.filter_price`, `OrderBookSide.rank_pairwise`: the orders of a side are sorted, and
  those of one price are its queue.
-/

namespace CexEngine

open Pass

variable {dv : Decimal → Decimal → Decimal}

/-! ## A side with no order of the user within the limit -/

/-- None of the quotes within the limit is of the order's own user. -/
def OrderEntry.ClearOf (o : OrderEntry) (xs : List (Decimal × OrderEntry)) : Prop :=
  ∀ x ∈ xs, x.2.userId = o.userId → o.crosses x.1 = false

/-- What matches of an order take of the resting orders, by id. -/
def OrderEntry.takings (o : OrderEntry) (ms : List MatchResult) : List (OrderId × Decimal) :=
  ms.map fun m => (o.makerId m, m.amount)

/-- What matches of an order leave of some quotes. -/
def OrderEntry.remains (o : OrderEntry) (ms : List MatchResult) (xs : List (Decimal × OrderEntry)) :
    List (Decimal × OrderEntry) :=
  Greedy.remains remaining fillQuote (fun x => x.2.id) (o.takings ms) xs

theorem fillQuote_cuts : Greedy.Cuts remaining fillQuote fun x => x.2.id where
  size _ _ := rfl
  id _ _ := rfl
  zero x := by simp [fillQuote, OrderEntry.fill]
  add x k l := by simp [fillQuote, OrderEntry.fill, sub_sub, add_assoc]

section Sweep

variable {order : OrderEntry} {live : OrderEntry → Prop} {priced : Decimal → Prop} {unit : Decimal → Decimal}
  {left : OrderEntry → Decimal} {P : Sweep → Prop} {s t u : Sweep}

/-- No amount stops a sweep, as long as it keeps `P`. -/
structure Sweep.Flows (R : MatchRule) (live : OrderEntry → Prop) (priced : Decimal → Prop) (P : Sweep → Prop) :
    Prop where
  next : ∀ {s t : Sweep}, s.Valid R live priced → P s → SweepNext R s t → P t
  takes : ∀ {s : Sweep} {o : OrderEntry} {rest : List OrderEntry}, s.Valid R live priced → P s → s.ahead = o :: rest →
    R.isFullyFilled s.incoming = false → s.incoming.userId ≠ o.userId →
    0 < R.matchAmount s.incoming o s.price ∧ R.breaksAt (R.matchAmount s.incoming o s.price) = false

/-- What holds of a sweep from `s` that passes over no order. -/
structure Sweep.Unhindered (order : OrderEntry) (s t : Sweep) : Prop where
  passed : t.passed = []
  clear : order.ClearOf t.quotes
  ids : (t.quotes.map fun x => x.2.id).Nodup
  left : t.quotes = order.remains t.results s.quotes

theorem Sweep.Valid.remaining_pos {R : MatchRule} (h : t.Valid R live priced) : ∀ x ∈ t.quotes, 0 < remaining x := by
  intro x hx
  rcases List.mem_append.1 hx with hx | hx
  · obtain ⟨o, ho, rfl⟩ := List.mem_map.1 hx
    exact h.ahead o ho
  · obtain ⟨l, hl, -, ho⟩ := mem_quotes.1 hx
    exact h.levels.remaining_pos l hl _ ho

/-- A sweep for a quantity is not stopped. -/
theorem MatchRule.ByQuantity.flows {R : MatchRule} (hR : R.ByQuantity order) :
    Sweep.Flows R (Wants order) (fun _ => True) fun _ => True where
  next _ _ _ := trivial
  takes hv _ ahead unfilled _ :=
    have hpos := hR.amount_pos hv.live (hv.ahead _ (by rw [ahead]; exact List.mem_cons_self)) unfilled
    ⟨hpos, hR.goes hpos⟩

variable (hU : (order.rule dv).Uses order live priced unit left) (hF : Sweep.Flows (order.rule dv) live priced P)
  (hv : t.Valid (order.rule dv) live priced) (hP : P t)

include hU hF hv hP

theorem Sweep.Unhindered.next (h : s.Unhindered order t) (hnext : SweepNext (order.rule dv) t u) :
    s.Unhindered order u := by
  have hwithin : ∀ {o rest}, t.ahead = o :: rest → order.crosses t.price = true := by
    intro o rest ahead
    have haccepts := (hv.level (Or.inl (by simp [ahead]))).2.1
    rwa [hv.crosses hU] at haccepts
  have hclear := h.clear
  have hids := h.ids
  have hpos := hv.remaining_pos
  cases hnext with
  | level unfilled ahead first accepts =>
    have hquotes := Sweep.quotes_level (s := t) ahead first
    exact ⟨rfl, hquotes ▸ hclear, hquotes ▸ hids, hquotes.trans h.left⟩
  | @pass o rest unfilled ahead own =>
    rw [Sweep.quotes_of_ahead ahead] at hclear
    have hbeyond := hclear _ List.mem_cons_self (own.symm.trans (hv.own hU))
    rw [hwithin ahead] at hbeyond
    cases hbeyond
  | @fill o rest unfilled ahead foreign goes =>
    set amount := (order.rule dv).matchAmount t.incoming o t.price with hamount
    obtain ⟨htakes, -⟩ := hF.takes hv hP ahead unfilled foreign
    have hahead := Sweep.quotes_of_ahead ahead
    rw [hahead] at hclear hids hpos
    obtain ⟨-, hclear⟩ := List.forall_mem_cons.1 hclear
    obtain ⟨-, hpos⟩ := List.forall_mem_cons.1 hpos
    obtain ⟨hid, hids'⟩ := List.nodup_cons.1 hids
    refine ⟨h.passed, ?_, ?_, ?_⟩
    · rw [Sweep.quotes_fill]
      split_ifs
      · exact List.forall_mem_cons.2 ⟨fun hown => absurd ((hv.own hU).trans hown.symm) foreign, hclear⟩
      · exact hclear
    · rw [Sweep.quotes_fill]
      split_ifs
      · exact hids
      · exact hids'
    · -- the match takes its amount from the first quote
      have htaking : order.takings [(order.rule dv).report t.incoming o t.price amount] = [(o.id, amount)] := by
        rw [OrderEntry.takings, List.map_singleton, fill_report_maker, fill_report_amount]
      have hcons := fillQuote_cuts.remains_cons (a := (t.price, o)) hpos
        (fun x hx he => hid (List.mem_map.2 ⟨x, hx, he⟩)) amount
      calc (t.fill (order.rule dv) amount o rest).quotes
          = order.remains [(order.rule dv).report t.incoming o t.price amount] t.quotes := by
            rw [Sweep.quotes_fill, hahead, OrderEntry.remains, htaking]
            exact hcons.symm
        _ = order.remains (t.results ++ [(order.rule dv).report t.incoming o t.price amount]) s.quotes := by
            rw [h.left, OrderEntry.remains, OrderEntry.remains, OrderEntry.remains, OrderEntry.takings,
              OrderEntry.takings, OrderEntry.takings, List.map_append]
            refine (fillQuote_cuts.remains_append _ (fun d hd => ?_) _).symm
            change d ∈ order.takings [_] at hd
            rw [htaking] at hd
            rw [List.mem_singleton.1 hd]
            exact htakes.le

omit hU in
theorem Sweep.Unhindered.stop (h : s.Unhindered order t) (hstop : SweepStop (order.rule dv) t u) :
    CexEngine.quotes u.left = order.remains u.results s.quotes := by
  have hleft := h.left
  have hpassed := h.passed
  cases hstop with
  | filled filled =>
    rw [quotes_left, hpassed, List.append_nil]
    exact hleft
  | empty unfilled ahead levels =>
    rw [quotes_left, ahead]
    rw [Sweep.quotes, ahead] at hleft
    exact hleft
  | limit unfilled ahead first rejects =>
    rw [quotes_left, ahead]
    rw [Sweep.quotes, ahead] at hleft
    exact hleft
  | dust unfilled ahead foreign breaks =>
    rw [(hF.takes hv hP ahead unfilled foreign).2] at breaks
    cases breaks

omit hv hP in
/-- **What a sweep leaves of a whole side** that has no order of the user within the limit. -/
theorem sweep_remains (hM : (order.rule dv).Followable live priced) (hs : s.Valid (order.rule dv) live priced)
    (hPs : P s) (hpassed : s.passed = []) (hresults : s.results = []) (hclear : order.ClearOf s.quotes)
    (hids : (s.quotes.map fun x => x.2.id).Nodup) (h : Exits (sweepBody (order.rule dv)) s u) :
    quotes u.left = order.remains u.results s.quotes := by
  have hstart : s.Unhindered order s := by
    refine ⟨hpassed, hclear, hids, ?_⟩
    rw [hresults]
    exact (fillQuote_cuts.remains_eq_self hs.remaining_pos fun _ _ => rfl).symm
  refine sweep_inv hM (I := fun t => P t ∧ s.Unhindered order t)
    (J := fun u => quotes u.left = order.remains u.results s.quotes) ?_ ?_ h hs ⟨hPs, hstart⟩
  · exact fun a b ha ⟨hP, hI⟩ hab => ⟨hF.next ha hP hab, hI.next hU hF ha hP hab⟩
  · exact fun a b ha ⟨hP, hI⟩ hab => hI.stop hF ha hP hab

end Sweep

/-! ## A side as a list -/

section Side

variable {side : OrderBookSide} {buys : Bool}

/-- Among the quotes, the queue at a price stands as it is. -/
theorem OrderBookSide.filter_quotes (side : OrderBookSide) (buys : Bool) (p : Decimal) :
    ((side.quotes buys).filter fun x => x.1 = p).map Prod.snd = side.queueAt p := by
  have hnone : ∀ levels : List (Decimal × List OrderEntry), (∀ l ∈ levels, l.1 ≠ p) →
      (CexEngine.quotes levels).filter (fun x => x.1 = p) = [] := by
    intro levels h
    refine List.filter_eq_nil_iff.2 fun x hx => ?_
    obtain ⟨l, hl, hx, -⟩ := mem_quotes.1 hx
    simpa [hx] using h l hl
  have hget : ∀ queue, side.orders.get? p = some queue ↔ (p, queue) ∈ side.levels buys := fun queue => by
    rw [BTreeMap.get?_eq_some, OrderBookSide.levels, BTreeMap.mem_bestFirst]
  rw [OrderBookSide.quotes, OrderBookSide.queueAt]
  cases hqueue : side.orders.get? p with
  | none =>
    rw [hnone _ fun l hl he => ?_]
    · rfl
    · rw [(hget l.2).2 (he ▸ hl)] at hqueue
      cases hqueue
  | some queue =>
    have hsorted : (side.levels buys).Pairwise fun a b => BTreeMap.Before buys a.1 b.1 :=
      BTreeMap.bestFirst_sorted side.orders buys
    obtain ⟨front, back, hlevels⟩ := List.append_of_mem ((hget queue).1 hqueue)
    rw [hlevels] at hsorted ⊢
    obtain ⟨-, hback, hfront⟩ := List.pairwise_append.1 hsorted
    have hne : ∀ {a b : Decimal}, BTreeMap.Before buys a b → a ≠ b := by
      rintro a b hb rfl
      exact hb.not_before (Or.inr hb)
    have hlater : ∀ l ∈ back, l.1 ≠ p := fun l hl => (hne ((List.pairwise_cons.1 hback).1 l hl)).symm
    have hsplit : CexEngine.quotes (front ++ (p, queue) :: back) =
        CexEngine.quotes front ++ (queue.map (fun o => (p, o)) ++ CexEngine.quotes back) := by
      rw [CexEngine.quotes, List.flatMap_append]
      rfl
    rw [hsplit, List.filter_append, List.filter_append,
      hnone front fun l hl => hne (hfront l hl _ List.mem_cons_self), hnone back hlater, List.append_nil, List.nil_append,
      List.filter_eq_self.2 (by simp)]
    simp

variable (hpriced : ∀ x ∈ side.stock, x.2.price = some x.1)

include hpriced

theorem OrderBookSide.eq_quote {x : Decimal × OrderEntry} (hx : x ∈ side.quotes buys) : x = x.2.quote := by
  have hstock : x ∈ side.stock := by
    rw [← side.coe_quotes buys]
    exact hx
  rw [OrderEntry.quote, hpriced x hstock]
  rfl

/-- The queue at a price has the orders of that price. -/
theorem OrderBookSide.filter_price (buys : Bool) (p : Decimal) :
    ((side.quotes buys).map Prod.snd).filter (fun o => o.price = some p) = side.queueAt p := by
  rw [List.filter_map, ← side.filter_quotes buys]
  congr 1
  refine List.filter_congr fun x hx => ?_
  have hstock : x ∈ side.stock := by
    rw [← side.coe_quotes buys]
    exact hx
  simp [hpriced x hstock]

/-- The orders come with the best rank first. -/
theorem OrderBookSide.rank_pairwise (buys : Bool) :
    ((side.quotes buys).map Prod.snd).Pairwise fun a b => a.rank buys ≤ b.rank buys := by
  have hsorted : (side.quotes buys).Pairwise fun x y => x.1 = y.1 ∨ BTreeMap.Before buys x.1 y.1 := by
    rw [OrderBookSide.quotes, CexEngine.quotes, List.pairwise_flatMap]
    refine ⟨fun l _ => List.pairwise_map.2 (List.pairwise_of_forall fun _ _ => Or.inl rfl), ?_⟩
    refine (BTreeMap.bestFirst_sorted side.orders buys).imp fun hb => ?_
    intro x hx y hy
    obtain ⟨-, -, rfl⟩ := List.mem_map.1 hx
    obtain ⟨-, -, rfl⟩ := List.mem_map.1 hy
    exact Or.inr hb
  refine List.pairwise_map.2 (hsorted.imp_of_mem fun hx hy h => ?_)
  have hx' := congrArg Prod.fst (side.eq_quote hpriced hx)
  have hy' := congrArg Prod.fst (side.eq_quote hpriced hy)
  simp only [OrderEntry.quote] at hx' hy'
  rw [OrderEntry.rank, OrderEntry.rank, ← hx', ← hy']
  rcases h with he | hb
  · rw [he]
  · unfold BTreeMap.Before at hb
    split_ifs at hb ⊢
    · exact neg_le_neg hb.le
    · exact hb.le

end Side

theorem sideType_inj {buys buys' : Bool} : sideType buys = sideType buys' ↔ buys = buys' := by
  cases buys <;> cases buys' <;> simp [sideType]

theorem OrderBookSide.queueAt_addOrder (side : OrderBookSide) {o : OrderEntry} {price : Decimal}
    (hp : o.price = some price) (p : Decimal) :
    (side.addOrder o).queueAt p = side.queueAt p ++ if o.price = some p then [o] else [] := by
  simp only [OrderBookSide.addOrder, hp, OrderBookSide.queueAt, BTreeMap.get?_insert, Option.some.injEq]
  by_cases he : p = price
  · rw [if_pos he, if_pos he.symm, he]
    rfl
  · rw [if_neg he, if_neg (Ne.symm he), List.append_nil]

theorem OrderBookSide.mem_queueAt {side : OrderBookSide} {p : Decimal} {o : OrderEntry} :
    o ∈ side.queueAt p ↔ (p, o) ∈ side.stock := by
  rw [OrderBookSide.mem_stock, OrderBookSide.queueAt]
  simp only [← BTreeMap.get?_eq_some]
  cases side.orders.get? p <;> simp

/-- Where ids are distinct, the first order with an id is the only one. -/
theorem eraseP_eq_filter {orderId : OrderId} {queue : List OrderEntry} (hids : (queue.map OrderEntry.id).Nodup) :
    queue.eraseP (fun o => o.id = orderId) = queue.filter fun o => o.id ≠ orderId := by
  induction queue with
  | nil => rfl
  | cons o queue ih =>
    obtain ⟨hid, hids⟩ := List.nodup_cons.1 hids
    by_cases he : o.id = orderId
    · rw [List.eraseP_cons_of_pos (by simpa using he), List.filter_cons_of_neg (by simpa using he), List.filter_eq_self.2]
      intro o' ho'
      simp only [decide_eq_true_eq]
      exact fun he' => hid (List.mem_map.2 ⟨o', ho', he'.trans he.symm⟩)
    · rw [List.eraseP_cons_of_neg (by simpa using he), List.filter_cons_of_pos (by simpa using he), ih hids]

end CexEngine
