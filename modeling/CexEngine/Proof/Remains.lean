import CexEngine.Proof.Books
import CexEngine.Proof.Visits

/-!
# What a call of the matcher leaves of the resting orders

* `OrderEntry.tour`: the tour that an order makes of a book. `matching_tours`: the matching of the
  order is this tour.
* `Visit.Accounted`: what a visit bought and what it left make up the order.
* `accounts_iff`: **the other users' orders are accounted for** if and only if their visits are.
* `keeps_iff`: **the own orders are kept** if and only if none is visited.
-/

namespace CexEngine

/-- The tour that an order makes of the side of a book that it meets. -/
def OrderEntry.tour [Arithmetic] (dv : Decimal → Decimal → Decimal) (o : OrderEntry) (book : OrderBook) : Tour :=
  (o.rule dv).tour ((book.side (o.rule dv).scansBuys).levels (o.rule dv).scansBuys) o

/-- The resting order of a match with an order. -/
def OrderEntry.makerId (o : OrderEntry) (m : MatchResult) : OrderId := if o.isBuy then m.sellOrderId else m.buyOrderId

/-- What matches report for the resting orders with an id. -/
def OrderEntry.reportedFor (o : OrderEntry) (id : OrderId) (ms : List MatchResult) : Decimal :=
  ((ms.filter fun m => o.makerId m = id).map MatchResult.amount).sum

/-- What a visit bought of its order. -/
def Visit.bought (v : Visit) : Decimal := (v.results.map MatchResult.amount).sum

/-- All of the order was bought before it was let go, or what was bought is what is not left. -/
def Visit.Accounted (v : Visit) : Prop :=
  if v.letGo then v.bought = v.order.remainingAmount else v.left.remainingAmount = v.order.remainingAmount - v.bought

instance (v : Visit) : Decidable v.Accounted := by unfold Visit.Accounted; exact inferInstance

/-- After some matches an order rests with what they do not report for it, or it is gone and they
report all it had. -/
def OrderBookSide.Accounts (after : OrderBookSide) (o : OrderEntry) (reported : Decimal) : Prop :=
  (∃ x ∈ after.stock, x.2.id = o.id ∧ x.2.remainingAmount = o.remainingAmount - reported) ∨
    ((∀ x ∈ after.stock, x.2.id ≠ o.id) ∧ reported = o.remainingAmount)

/-- An order rests at its price with what it had filled and left. -/
def OrderBookSide.Keeps (after : OrderBookSide) (x : Decimal × OrderEntry) : Prop :=
  ∃ y ∈ after.stock, y.1 = x.1 ∧ y.2.id = x.2.id ∧ y.2.filledAmount = x.2.filledAmount ∧
    y.2.remainingAmount = x.2.remainingAmount

/-! ## One visit -/

variable {dv : Decimal → Decimal → Decimal} {order : OrderEntry} {book : OrderBook}

theorem sum_map_filter {α : Type*} (p : α → Prop) [DecidablePred p] (f : α → Decimal) (l : List α) :
    ((l.filter fun a => p a).map f).sum = (l.map fun a => if p a then f a else 0).sum := by
  induction l with
  | nil => rfl
  | cons a l ih =>
    by_cases ha : p a
    · simp [ha, ih]
    · simp [ha, ih]

/-- Where keys are distinct, the weight of a key is that of its element. -/
theorem sum_of_key {α : Type*} {key : α → OrderId} {l : List α} (h : (l.map key).Nodup) {a : α} (ha : a ∈ l)
    (w : α → Decimal) : (l.map fun b => if key b = key a then w b else 0).sum = w a := by
  induction l with
  | nil => exact absurd ha List.not_mem_nil
  | cons b l ih =>
    rw [List.map_cons, List.nodup_cons] at h
    rw [List.map_cons, List.sum_cons]
    rcases List.mem_cons.1 ha with rfl | ha
    · have hzero : (l.map fun b => if key b = key a then w b else 0).sum = 0 := by
        refine List.sum_eq_zero fun x hx => ?_
        obtain ⟨b, hb, rfl⟩ := List.mem_map.1 hx
        refine if_neg fun he : key b = key a => h.1 ?_
        rw [← he]
        exact List.mem_map_of_mem hb
      rw [if_pos rfl, hzero, add_zero]
    · have hne : key b ≠ key a := fun he => h.1 (by rw [he]; exact List.mem_map_of_mem ha)
      rw [if_neg hne, zero_add, ih h.2 ha]

theorem OrderEntry.reportedFor_eq_sum (id : OrderId) (ms : List MatchResult) :
    order.reportedFor id ms = (ms.map fun m => if order.makerId m = id then m.amount else 0).sum :=
  sum_map_filter (fun m => order.makerId m = id) MatchResult.amount ms

theorem OrderEntry.reportedFor_append (id : OrderId) (ms ms' : List MatchResult) :
    order.reportedFor id (ms ++ ms') = order.reportedFor id ms + order.reportedFor id ms' := by
  rw [reportedFor_eq_sum, reportedFor_eq_sum, reportedFor_eq_sum, List.map_append, List.sum_append]

theorem OrderEntry.reportedFor_cons (id : OrderId) (m : MatchResult) (ms : List MatchResult) :
    order.reportedFor id (m :: ms) = (if order.makerId m = id then m.amount else 0) + order.reportedFor id ms := by
  rw [reportedFor_eq_sum, reportedFor_eq_sum, List.map_cons, List.sum_cons]

variable [Arithmetic]

theorem fill_report_maker {incoming resting : OrderEntry} {price amount : Decimal} :
    order.makerId ((order.rule dv).report incoming resting price amount) = resting.id := by
  unfold OrderEntry.makerId OrderEntry.rule OrderEntry.isBuy
  split_ifs with hmaker hrule hrule
  · rfl
  · simp_all
  · simp_all
  · rfl

/-- No match is for more than the resting order has. -/
theorem rule_amount_le (order incoming resting : OrderEntry) (price : Decimal) :
    (order.rule dv).matchAmount incoming resting price ≤ resting.remainingAmount := by
  unfold OrderEntry.rule
  split_ifs
  · cases hq : incoming.remainingQuoteAmount with
    | none => simp [buyRule, hq]
    | some r => simp [buyRule, hq]
  · exact min_le_right _ _

/-- **A meeting** fills the order by its matches, which are with it and at its price. -/
theorem meet_spec (order : OrderEntry) (price : Decimal) : ∀ (pops : ℕ) (incoming resting : OrderEntry),
    ((order.rule dv).meet price pops incoming resting).left =
        ((order.rule dv).meet price pops incoming resting).results.foldl (fun o m => o.fill m.amount) resting ∧
      ∀ m ∈ ((order.rule dv).meet price pops incoming resting).results,
        order.makerId m = resting.id ∧ m.price = price := by
  intro pops
  induction pops with
  | zero => exact fun incoming resting => ⟨rfl, fun m hm => absurd hm List.not_mem_nil⟩
  | succ pops ih =>
    intro incoming resting
    unfold MatchRule.meet
    dsimp only
    have hfirst :
        ∀ m ∈ [(order.rule dv).report incoming resting price ((order.rule dv).matchAmount incoming resting price)],
        order.makerId m = resting.id ∧ m.price = price :=
      List.forall_mem_singleton.2 ⟨fill_report_maker, fill_report_price⟩
    split_ifs
    · exact ⟨rfl, fun m hm => absurd hm List.not_mem_nil⟩
    · refine ⟨?_, hfirst⟩
      rw [List.foldl_cons, List.foldl_nil, fill_report_amount]
    · obtain ⟨hleft, hresults⟩ :=
        ih ((order.rule dv).take incoming ((order.rule dv).matchAmount incoming resting price) price)
        (resting.fill ((order.rule dv).matchAmount incoming resting price))
      refine ⟨?_, List.forall_mem_cons.2 ⟨⟨fill_report_maker, fill_report_price⟩, hresults⟩⟩
      rw [List.foldl_cons, fill_report_amount]
      exact hleft

/-- What is left is not negative. -/
theorem meet_left_nonneg (order : OrderEntry) (price : Decimal) : ∀ (pops : ℕ) (incoming resting : OrderEntry),
    0 ≤ resting.remainingAmount →
      0 ≤ ((order.rule dv).meet price pops incoming resting).left.remainingAmount := by
  intro pops
  induction pops with
  | zero => exact fun _ _ h => h
  | succ pops ih =>
    intro incoming resting h
    have hfilled : 0 ≤ (resting.fill ((order.rule dv).matchAmount incoming resting price)).remainingAmount :=
      Arithmetic.sub_nonneg (rule_amount_le order incoming resting price)
    unfold MatchRule.meet
    dsimp only
    split_ifs
    · exact h
    · exact hfilled
    · exact ih _ _ hfilled

namespace Visit

variable {v : Visit}

theorem Made.left_eq (h : v.Made (order.rule dv) order) :
    v.left = v.results.foldl (fun o m => o.fill m.amount) v.order := by
  cases h with
  | own => rfl
  | met price pops terms foreign => exact (meet_spec order price pops _ _).1

theorem Made.results_of (h : v.Made (order.rule dv) order) :
    ∀ m ∈ v.results, order.makerId m = v.order.id ∧ m.price = v.price := by
  cases h with
  | own => exact fun m hm => absurd hm List.not_mem_nil
  | met price pops terms foreign => exact (meet_spec order price pops _ _).2

theorem Made.left_terms {R : MatchRule} (h : v.Made R order) : v.left.terms = v.order.terms := by
  cases h with
  | own => rfl
  | met price pops terms foreign => exact R.meet_left_terms price pops _ _

/-- An own order that is visited is let go. -/
theorem Made.own_letGo {R : MatchRule} (h : v.Made R order) (hown : v.order.userId = order.userId) : v.letGo = true := by
  cases h with
  | own => rfl
  | met price pops terms foreign => exact absurd hown.symm foreign

theorem Made.left_nonneg (h : v.Made (order.rule dv) order) (ho : 0 ≤ v.order.remainingAmount) :
    0 ≤ v.left.remainingAmount := by
  cases h with
  | own => exact ho
  | met price pops terms foreign => exact meet_left_nonneg order price pops _ _ ho

/-- What matches of a visit report for its order, and for another. -/
theorem Made.reportedFor (h : v.Made (order.rule dv) order) (id : OrderId) :
    order.reportedFor id v.results = if v.order.id = id then v.bought else 0 := by
  rw [OrderEntry.reportedFor_eq_sum, bought]
  split_ifs with hid
  · congr 1
    refine List.map_congr_left fun m hm => if_pos ?_
    rw [(h.results_of m hm).1, hid]
  · refine List.sum_eq_zero fun a ha => ?_
    obtain ⟨m, hm, rfl⟩ := List.mem_map.1 ha
    refine if_neg fun he => hid ?_
    rw [← (h.results_of m hm).1, he]

end Visit

/-- What the matches of some visits report for an id. -/
theorem reportedFor_visits {vs : List Visit} (h : ∀ v ∈ vs, v.Made (order.rule dv) order) (id : OrderId) :
    order.reportedFor id (vs.flatMap Visit.results) = (vs.map fun v => if v.order.id = id then v.bought else 0).sum := by
  induction vs with
  | nil => rfl
  | cons v vs ih =>
    obtain ⟨hv, hvs⟩ := List.forall_mem_cons.1 h
    rw [List.flatMap_cons, OrderEntry.reportedFor_append, hv.reportedFor, ih hvs, List.map_cons, List.sum_cons]

/-! ## A call -/

/-- **The matching of an order is its tour.** -/
theorem matching_tours (dv : Decimal → Decimal → Decimal) (order : OrderEntry) (book : OrderBook) :
    (order.matching dv book).side.levels (order.rule dv).scansBuys = (order.tour dv book).left ∧
      (order.matching dv book).incoming = (order.tour dv book).incoming ∧
      (order.matching dv book).results = (order.tour dv book).results ∧
      (order.matching dv book).dropped.Perm (order.tour dv book).dropped :=
  matchAgainst_tours _ order _

/-- How the orders of a side are met: `visits` are made, and `others` rest as they were. -/
structure OrderEntry.Meets (dv : Decimal → Decimal → Decimal) (order : OrderEntry) (book : OrderBook)
    (others : List (Decimal × OrderEntry)) : Prop where
  made : ∀ v ∈ (order.tour dv book).visits, v.Made (order.rule dv) order
  before : (book.side (order.rule dv).scansBuys).stock = ↑((order.tour dv book).visits.map Visit.found ++ others)
  after : (order.matching dv book).side.stock =
    ↑(((order.tour dv book).visits.filter Visit.stays).map Visit.kept ++ others)

theorem matching_meets (dv : Decimal → Decimal → Decimal) (order : OrderEntry) (book : OrderBook) :
    ∃ others, order.Meets dv book others := by
  obtain ⟨others, hbefore, hafter⟩ := tour_quotes (R := order.rule dv)
    ((book.side (order.rule dv).scansBuys).levels (order.rule dv).scansBuys) order
  refine ⟨others, tour_made _ order rfl, ?_, ?_⟩
  · rw [← OrderBookSide.coe_quotes _ (order.rule dv).scansBuys]
    exact Multiset.coe_eq_coe.2 hbefore
  · rw [← OrderBookSide.coe_quotes _ (order.rule dv).scansBuys, OrderBookSide.quotes, (matching_tours dv order book).1]
    exact Multiset.coe_eq_coe.2 hafter

namespace OrderEntry.Meets

variable {others : List (Decimal × OrderEntry)} (h : order.Meets dv book others)
  (hids : ((book.side (order.rule dv).scansBuys).stock.map fun x => x.2.id).Nodup)

include h

theorem mem_before {x : Decimal × OrderEntry} : x ∈ (book.side (order.rule dv).scansBuys).stock ↔
    (∃ v ∈ (order.tour dv book).visits, v.found = x) ∨ x ∈ others := by
  rw [h.before, Multiset.mem_coe, List.mem_append, List.mem_map]

theorem mem_after {x : Decimal × OrderEntry} : x ∈ (order.matching dv book).side.stock ↔
    (∃ v ∈ (order.tour dv book).visits, v.stays = true ∧ v.kept = x) ∨ x ∈ others := by
  rw [h.after, Multiset.mem_coe, List.mem_append, List.mem_map]
  simp only [List.mem_filter, and_assoc]

include hids

theorem ids_nodup : ((order.tour dv book).visits.map fun v => v.order.id).Nodup ∧
    ∀ v ∈ (order.tour dv book).visits, ∀ x ∈ others, v.order.id ≠ x.2.id := by
  rw [h.before, Multiset.map_coe, Multiset.coe_nodup, List.map_append, List.nodup_append, List.map_map] at hids
  refine ⟨hids.1, fun v hv x hx => hids.2.2 v.order.id ?_ x.2.id ?_⟩
  · exact List.mem_map_of_mem (f := (fun x : Decimal × OrderEntry => x.2.id) ∘ Visit.found) hv
  · exact List.mem_map_of_mem (f := fun x : Decimal × OrderEntry => x.2.id) hx

theorem unique {v v' : Visit} (hv : v ∈ (order.tour dv book).visits) (hv' : v' ∈ (order.tour dv book).visits)
    (hid : v.order.id = v'.order.id) : v = v' :=
  List.inj_on_of_nodup_map (h.ids_nodup hids).1 hv hv' hid

/-- The matches report for a visited order what the visit bought of it. -/
theorem reportedFor_visit {v : Visit} (hv : v ∈ (order.tour dv book).visits) :
    order.reportedFor v.order.id (order.matching dv book).results = v.bought := by
  rw [(matching_tours dv order book).2.2.1, Tour.results, reportedFor_visits h.made]
  exact sum_of_key (h.ids_nodup hids).1 hv Visit.bought

/-- And nothing for the others. -/
theorem reportedFor_other {x : Decimal × OrderEntry} (hx : x ∈ others) :
    order.reportedFor x.2.id (order.matching dv book).results = 0 := by
  rw [(matching_tours dv order book).2.2.1, Tour.results, reportedFor_visits h.made]
  refine List.sum_eq_zero fun a ha => ?_
  obtain ⟨v, hv, rfl⟩ := List.mem_map.1 ha
  exact if_neg ((h.ids_nodup hids).2 v hv x hx)

/-- What rests of a visited order afterwards is what the visit left. -/
theorem kept_of_id {v : Visit} (hv : v ∈ (order.tour dv book).visits) {x : Decimal × OrderEntry}
    (hx : x ∈ (order.matching dv book).side.stock) (hid : x.2.id = v.order.id) : v.stays = true ∧ v.kept = x := by
  rcases h.mem_after.1 hx with ⟨v', hv', hstays, rfl⟩ | hx
  · have hid' : v'.left.id = v'.order.id := (OrderEntry.terms_eq (h.made v' hv').left_terms).1
    obtain rfl := h.unique hids hv' hv (hid'.symm.trans hid)
    exact ⟨hstays, rfl⟩
  · exact absurd hid.symm ((h.ids_nodup hids).2 v hv x hx)

/-- **A visited order is accounted for** if and only if its visit is. -/
theorem accounts_visit {v : Visit} (hv : v ∈ (order.tour dv book).visits) (ho : 0 ≤ v.order.remainingAmount) :
    (order.matching dv book).side.Accounts v.order v.bought ↔ v.Accounted := by
  have hid : v.left.id = v.order.id := (OrderEntry.terms_eq (h.made v hv).left_terms).1
  cases hs : v.stays with
  | true =>
    have hafter : v.kept ∈ (order.matching dv book).side.stock := h.mem_after.2 (Or.inl ⟨v, hv, hs, rfl⟩)
    have hletGo : v.letGo = false := by
      rw [Visit.stays, Bool.and_eq_true, Bool.not_eq_true'] at hs
      exact hs.1
    rw [Visit.Accounted, hletGo, if_neg (by simp)]
    constructor
    · rintro (⟨x, hx, hxid, hleft⟩ | ⟨hnone, -⟩)
      · rwa [← (h.kept_of_id hids hv hx hxid).2] at hleft
      · exact absurd hid (hnone _ hafter)
    · exact fun hleft => Or.inl ⟨v.kept, hafter, hid, hleft⟩
  | false =>
    have hnone : ∀ x ∈ (order.matching dv book).side.stock, x.2.id ≠ v.order.id := fun x hx hxid => by
      rw [(h.kept_of_id hids hv hx hxid).1] at hs
      cases hs
    have hiff : (order.matching dv book).side.Accounts v.order v.bought ↔ v.bought = v.order.remainingAmount := by
      constructor
      · rintro (⟨x, hx, hxid, -⟩ | ⟨-, hall⟩)
        · exact absurd hxid (hnone x hx)
        · exact hall
      · exact fun hall => Or.inr ⟨hnone, hall⟩
    rw [hiff, Visit.Accounted]
    cases hl : v.letGo with
    | true => rw [if_pos rfl]
    | false =>
      -- nothing is left of it
      have hzero : v.left.remainingAmount = 0 := by
        have hnot : ¬ 0 < v.left.remainingAmount := by simpa [Visit.stays, hl] using hs
        exact le_antisymm (not_lt.1 hnot) ((h.made v hv).left_nonneg ho)
      rw [if_neg (by simp), hzero, eq_comm, eq_comm (a := (0 : Decimal)), sub_eq_zero]

/-- **The other users' orders are accounted for** if and only if the visits to them are. -/
theorem accounts_iff (hremaining : ∀ x ∈ (book.side (order.rule dv).scansBuys).stock, 0 ≤ x.2.remainingAmount) :
    (∀ x ∈ (book.side (order.rule dv).scansBuys).stock, x.2.userId ≠ order.userId →
      (order.matching dv book).side.Accounts x.2 (order.reportedFor x.2.id (order.matching dv book).results)) ↔
    ∀ v ∈ (order.tour dv book).visits, v.order.userId ≠ order.userId → v.Accounted := by
  constructor
  · intro hall v hv hne
    have hx := h.mem_before.2 (Or.inl ⟨v, hv, rfl⟩)
    have := hall v.found hx hne
    rw [show v.found.2 = v.order from rfl, h.reportedFor_visit hids hv] at this
    exact (h.accounts_visit hids hv (hremaining _ hx)).1 this
  · intro hall x hx hne
    rcases h.mem_before.1 hx with ⟨v, hv, rfl⟩ | hother
    · rw [show v.found.2 = v.order from rfl, h.reportedFor_visit hids hv]
      exact (h.accounts_visit hids hv (hremaining _ hx)).2 (hall v hv hne)
    · rw [h.reportedFor_other hids hother]
      exact Or.inl ⟨x, h.mem_after.2 (Or.inr hother), rfl, (sub_zero _).symm⟩

/-- **The own orders are kept** if and only if none is visited. -/
theorem keeps_iff : (∀ x ∈ (book.side (order.rule dv).scansBuys).stock, x.2.userId = order.userId →
      (order.matching dv book).side.Keeps x) ↔
    ∀ v ∈ (order.tour dv book).visits, v.order.userId ≠ order.userId := by
  constructor
  · intro hall v hv hown
    obtain ⟨y, hy, -, hid, -⟩ := hall v.found (h.mem_before.2 (Or.inl ⟨v, hv, rfl⟩)) hown
    have hstays := (h.kept_of_id hids hv hy hid).1
    simp [Visit.stays, (h.made v hv).own_letGo hown] at hstays
  · intro hall x hx hown
    rcases h.mem_before.1 hx with ⟨v, hv, rfl⟩ | hother
    · exact absurd hown (hall v hv)
    · exact ⟨x, h.mem_after.2 (Or.inr hother), rfl, rfl, rfl, rfl⟩

end OrderEntry.Meets

end CexEngine
