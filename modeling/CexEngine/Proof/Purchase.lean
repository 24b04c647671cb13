import CexEngine.Proof.Rounding
import CexEngine.Proof.WholeSide

/-!
# What a budget buys

* `Exchange.spend_whole`, `Exchange.spend_part`: a budget buys all of a quote that it pays for, and
  a part of the one where it ends; `Exchange.quoteUsed_spend`: it pays no more than it is.
* `Sweep.Pays`: what a sweep for a market buy will have bought in the end, if no quotient is rounded
  on the way. No amount stops it then (`OrderEntry.IsMarketBuy.flows`).
* **`budget_spends`**: the matches of a market buy are what its budget buys.
-/

namespace CexEngine

open Pass

variable {dv : Decimal → Decimal → Decimal}

namespace Exchange

variable {budget : Decimal} {q : Decimal × OrderEntry} {qs : List (Decimal × OrderEntry)}

theorem spend_of_nonpos (h : budget ≤ 0) (qs : List (Decimal × OrderEntry)) : spend budget qs = [] := by
  rw [spend, Greedy.allocate_of_nonpos h, List.map_nil]

/-- A quote that the budget pays for is bought whole. -/
theorem spend_whole (hbudget : 0 < budget) (hprice : 0 < q.1) (h : cost q ≤ budget)
    (qs : List (Decimal × OrderEntry)) : spend budget (q :: qs) = (q, remaining q) :: spend (budget - cost q) qs := by
  have hall : cost q / q.1 = remaining q := mul_div_cancel_left₀ _ hprice.ne'
  rw [spend, Greedy.allocate_cons_of_pos hbudget, min_eq_right h, List.map_cons, hall]
  rfl

/-- Where the budget ends, a part is bought. -/
theorem spend_part (hbudget : 0 < budget) (h : budget < cost q) (qs : List (Decimal × OrderEntry)) :
    spend budget (q :: qs) = [(q, budget / q.1)] := by
  rw [spend, Greedy.allocate_cons_of_pos hbudget, min_eq_left h.le, sub_self, Greedy.allocate_of_nonpos le_rfl]
  rfl

/-- A budget pays no more than it is. -/
theorem quoteUsed_spend (order : OrderEntry) (hbudget : 0 ≤ budget)
    (hqs : ∀ q ∈ qs, 0 < q.1 ∧ 0 < remaining q) : quoteUsed ((spend budget qs).map order.matched) ≤ budget := by
  have hcost : ∀ d ∈ Greedy.allocate cost budget qs, d.1.1 * (d.2 / d.1.1) = d.2 := fun d hd =>
    mul_div_cancel₀ _ (hqs d.1 (Greedy.mem_of_mem_allocate _ _ hd)).1.ne'
  have hsum : quoteUsed ((spend budget qs).map order.matched) =
      ((Greedy.allocate cost budget qs).map Prod.snd).sum := by
    rw [quoteUsed_eq_sum, spend, List.map_map, List.map_map]
    exact congrArg List.sum (List.map_congr_left hcost)
  have hpos : ∀ q ∈ qs, 0 ≤ cost q := fun q hq => (mul_pos (hqs q hq).1 (hqs q hq).2).le
  rw [hsum, Greedy.sum_allocate _ _ hbudget hpos]
  exact min_le_left _ _

end Exchange

/-! ## The sweep -/

/-- What the sweep uses of a market buy is its budget. -/
theorem OrderEntry.IsMarketBuy.uses {order : OrderEntry} (hm : order.IsMarketBuy) :
    (buyRule dv).Uses order (Spends order) (0 < ·) (fun price => price) OrderEntry.funds where
  terms h := h.terms
  scans := by simp [buyRule, OrderEntry.isBuy, hm.type]
  accepts price := by
    rw [hm.spends.accepts hm, OrderEntry.crosses, if_neg (by rw [hm.side]; simp)]
  le h := by
    rw [h.matchAmount]
    exact min_le_right _ _
  take h := (h.take dv _ _).2
  filled h := by rw [h.isFullyFilled, decide_eq_true_eq]
  unit_nonneg h := h.le

/-- The report of a market buy. -/
theorem Spends.report {order incoming : OrderEntry} (h : Spends order incoming) (hm : order.IsMarketBuy)
    (o : OrderEntry) (price amount : Decimal) :
    (buyRule dv).report incoming o price amount = order.matched ((price, o), amount) := by
  obtain ⟨hid, huser, -, -, hpair, -⟩ := OrderEntry.terms_eq h.terms
  obtain ⟨hb, hq⟩ := TradingPair.mk.inj hpair
  simp [buyRule, OrderEntry.matched, OrderEntry.isBuy, hm.type, hid, huser, hb, hq]

/-- The sweep will have made the matches `all` in the end, and no quotient is rounded on the way. -/
structure Sweep.Pays (dv : Decimal → Decimal → Decimal) (order : OrderEntry) (all : List MatchResult) (s : Sweep) :
    Prop where
  exact : Exchange.dividesExactly dv s.incoming.funds (order.crossing s.quotes) = true
  buys : s.results ++ (Exchange.spend s.incoming.funds (order.crossing s.quotes)).map order.matched = all

section Pays

variable {order : OrderEntry} {all : List MatchResult} {s t : Sweep} (hm : order.IsMarketBuy)
  (hv : s.Valid (buyRule dv) (Spends order) (0 < ·)) (h : s.Pays dv order all)

include hm hv

/-- The quote ahead is one that the order can be matched with. -/
theorem Sweep.crossing_ahead {o : OrderEntry} {rest : List OrderEntry} (ahead : s.ahead = o :: rest)
    (foreign : s.incoming.userId ≠ o.userId) : order.crossing s.quotes =
      (s.price, o) :: order.crossing (rest.map (fun o => (s.price, o)) ++ CexEngine.quotes s.levels) := by
  have hcross := (hv.level (Or.inl (by simp [ahead]))).2.1
  rw [hv.crosses hm.uses] at hcross
  rw [hv.own hm.uses] at foreign
  rw [Sweep.quotes_of_ahead ahead]
  exact List.filter_cons_of_pos (by simp [foreign, hcross])

include h

/-- It is bought whole, or the budget ends there. -/
theorem Sweep.Pays.bought {o : OrderEntry} {rest : List OrderEntry}
    (unfilled : (buyRule dv).isFullyFilled s.incoming = false) (ahead : s.ahead = o :: rest)
    (foreign : s.incoming.userId ≠ o.userId) :
    (s.price * o.remainingAmount ≤ s.incoming.funds ∧
        (buyRule dv).matchAmount s.incoming o s.price = o.remainingAmount) ∨
      (s.incoming.funds < s.price * o.remainingAmount ∧
        (buyRule dv).matchAmount s.incoming o s.price = s.incoming.funds / s.price) := by
  have hfunds : 0 < s.incoming.funds := left_pos hm.uses hv unfilled
  have hprice : 0 < s.price := (hv.level (Or.inl (by simp [ahead]))).1
  have hexact := h.exact
  rw [Sweep.crossing_ahead hm hv ahead foreign, Exchange.dividesExactly, if_neg (not_le.2 hfunds)] at hexact
  rw [hv.live.matchAmount dv]
  rcases le_or_gt (s.price * o.remainingAmount) s.incoming.funds with hle | hlt
  · rw [if_pos (show Exchange.cost (s.price, o) ≤ _ from hle), Bool.and_eq_true, decide_eq_true_eq] at hexact
    exact Or.inl ⟨hle, min_eq_right hexact.1⟩
  · rw [if_neg (show ¬ Exchange.cost (s.price, o) ≤ _ from not_le.2 hlt), decide_eq_true_eq] at hexact
    have hquotient : dv s.incoming.funds s.price = s.incoming.funds / s.price :=
      (eq_div_iff hprice.ne').2 ((mul_comm _ _).trans hexact)
    refine Or.inr ⟨hlt, ?_⟩
    rw [hquotient]
    exact min_eq_left ((div_lt_iff₀' hprice).2 hlt).le

theorem Sweep.Pays.takes {o : OrderEntry} {rest : List OrderEntry} (ahead : s.ahead = o :: rest)
    (unfilled : (buyRule dv).isFullyFilled s.incoming = false) (foreign : s.incoming.userId ≠ o.userId) :
    0 < (buyRule dv).matchAmount s.incoming o s.price ∧
      (buyRule dv).breaksAt ((buyRule dv).matchAmount s.incoming o s.price) = false := by
  have hpos : 0 < (buyRule dv).matchAmount s.incoming o s.price := by
    rcases h.bought hm hv unfilled ahead foreign with ⟨-, ha⟩ | ⟨-, ha⟩
    · rw [ha]
      exact hv.ahead o (by rw [ahead]; exact List.mem_cons_self)
    · rw [ha]
      exact div_pos (left_pos hm.uses hv unfilled) (hv.level (Or.inl (by simp [ahead]))).1
  exact ⟨hpos, by simpa [buyRule] using hpos⟩

theorem Sweep.Pays.next (hnext : SweepNext (buyRule dv) s t) : t.Pays dv order all := by
  cases hnext with
  | level unfilled ahead first accepts =>
    have hquotes := Sweep.quotes_level (s := s) ahead first
    refine ⟨?_, ?_⟩
    · rw [hquotes]
      exact h.exact
    · rw [hquotes]
      exact h.buys
  | @pass o rest unfilled ahead own =>
    have hsame : order.crossing s.quotes =
        order.crossing (rest.map (fun o => (s.price, o)) ++ CexEngine.quotes s.levels) := by
      rw [hv.own hm.uses] at own
      rw [Sweep.quotes_of_ahead ahead]
      exact List.filter_cons_of_neg (by simp [own])
    have hexact := h.exact
    have hbuys := h.buys
    rw [hsame] at hexact hbuys
    exact ⟨hexact, hbuys⟩
  | @fill o rest unfilled ahead foreign goes =>
    have hfunds : 0 < s.incoming.funds := left_pos hm.uses hv unfilled
    have hprice : 0 < s.price := (hv.level (Or.inl (by simp [ahead]))).1
    have hexact := h.exact
    have hbuys := h.buys
    have hahead := Sweep.crossing_ahead hm hv ahead foreign
    rw [hahead] at hexact hbuys
    have hleft : ∀ amount, (s.fill (buyRule dv) amount o rest).incoming.funds = s.incoming.funds - s.price * amount :=
      fun _ => (hv.live.take dv _ _).2
    have hresults : ∀ amount, (s.fill (buyRule dv) amount o rest).results =
        s.results ++ [order.matched ((s.price, o), amount)] := fun amount => by
      have hreport : (buyRule dv).report s.incoming o s.price amount = order.matched ((s.price, o), amount) :=
        hv.live.report hm _ _ _
      rw [← hreport]
      rfl
    rcases h.bought hm hv unfilled ahead foreign with ⟨hle, ha⟩ | ⟨hlt, ha⟩
    · -- the quote is gone
      have hquotes := Sweep.quotes_fill (buyRule dv) s o.remainingAmount o rest
      rw [if_neg (by simp [OrderEntry.fill])] at hquotes
      rw [Exchange.dividesExactly, if_neg (not_le.2 hfunds), if_pos (show Exchange.cost (s.price, o) ≤ _ from hle),
        Bool.and_eq_true] at hexact
      rw [Exchange.spend_whole (q := (s.price, o)) hfunds hprice hle, List.map_cons] at hbuys
      rw [ha]
      refine ⟨?_, ?_⟩
      · rw [hquotes, hleft]
        exact hexact.2
      · rw [hquotes, hleft, hresults, List.append_assoc]
        exact hbuys
    · -- the budget is gone
      have hzero : s.incoming.funds - s.price * (s.incoming.funds / s.price) = 0 := by
        rw [mul_div_cancel₀ _ hprice.ne', sub_self]
      rw [Exchange.spend_part (q := (s.price, o)) hfunds hlt, List.map_singleton] at hbuys
      rw [ha]
      refine ⟨?_, ?_⟩
      · rw [hleft, hzero]
        cases order.crossing (s.fill (buyRule dv) (s.incoming.funds / s.price) o rest).quotes with
        | nil => rfl
        | cons q qs => rw [Exchange.dividesExactly, if_pos le_rfl]
      · rw [hleft, hzero, Exchange.spend_of_nonpos le_rfl, List.map_nil, List.append_nil, hresults]
        exact hbuys

theorem Sweep.Pays.stop (hstop : SweepStop (buyRule dv) s t) : t.results = all := by
  have hbuys := h.buys
  cases hstop with
  | filled filled =>
    have hnone := (hm.uses.filled hv.live).1 filled
    rwa [Exchange.spend_of_nonpos hnone, List.map_nil, List.append_nil] at hbuys
  | empty unfilled ahead levels =>
    have hnil : s.quotes = [] := by simp [Sweep.quotes, ahead, levels]
    rw [hnil] at hbuys
    exact (List.append_nil _).symm.trans hbuys
  | limit unfilled ahead first rejects =>
    rw [hv.live.accepts hm] at rejects
    cases rejects
  | dust unfilled ahead foreign breaks =>
    rw [(h.takes hm hv ahead unfilled foreign).2] at breaks
    cases breaks

end Pays

theorem Sweep.Pays.start {s : Engine} {order : OrderEntry}
    (h : Exchange.dividesExactly dv order.funds (order.crossing (s.opposite order)) = true) :
    (Sweep.start (s.oppositeLevels dv order) order).Pays dv order
      ((Exchange.spend order.funds (order.crossing (s.opposite order))).map order.matched) := by
  rw [← quotes_oppositeLevels dv] at h ⊢
  exact ⟨h, rfl⟩

theorem OrderEntry.IsMarketBuy.flows {order : OrderEntry} (hm : order.IsMarketBuy) (all : List MatchResult) :
    Sweep.Flows (buyRule dv) (Spends order) (0 < ·) (Sweep.Pays dv order all) where
  next hv h hnext := h.next hm hv hnext
  takes hv h ahead unfilled foreign := h.takes hm hv ahead unfilled foreign

/-- **The matches of a market buy** are what its budget buys, where no quotient is rounded. -/
theorem budget_spends {s : Engine} {order : OrderEntry} (hdv : RoundsToDecimal dv) (hm : order.IsMarketBuy)
    (hplaced : s.Placed) (hempty : s.NoEmptyLevel)
    (hexact : Exchange.dividesExactly dv order.funds (order.crossing (s.opposite order)) = true) :
    (order.matching dv (s.orderbook order.pair)).results =
      (Exchange.spend order.funds (order.crossing (s.opposite order))).map order.matched := by
  have hrule : order.rule dv = buyRule dv := OrderEntry.rule_buy hm.type
  have hM : (order.rule dv).Followable (Spends order) (0 < ·) := by
    rw [hrule]
    exact budget_followable hdv hm
  have hw : Walkable (order.rule dv).scansBuys (0 < ·) (s.oppositeLevels dv order) :=
    opposite_walkable dv order hplaced hempty id
  obtain ⟨t, hsweep, hagrees⟩ : ∃ t, Exits (sweepBody (order.rule dv)) (.start (s.oppositeLevels dv order) order) t ∧
      Agrees (order.rule dv) (order.matching dv (s.orderbook order.pair)) t := matchAgainst_sweeps hM hm.spends hw
  rw [hagrees.results]
  rw [hrule] at hw hsweep
  exact sweep_inv (budget_followable hdv hm) (I := Sweep.Pays dv order _) (J := fun t => t.results = _)
    (fun a b ha hI hab => hI.next hm ha hab) (fun a b ha hI hab => hI.stop hm ha hab) hsweep (.start hm.spends hw)
    (.start hexact)

end CexEngine
