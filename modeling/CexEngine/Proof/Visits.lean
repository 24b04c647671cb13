import CexEngine.Proof.Tour
import CexEngine.Proof.Walk

/-!
# What the tour visits

* `Visit.Made`: a visit is of an own order that is let go, or of another user's order that is met.
* `tour_quotes`: the orders before a call are the visited ones and some others; afterwards the
  visited ones that stay and the same others rest.
* `tour_foreign`: where no order is let go, the visited orders are the other users' ones from the
  front on, and all but the last are used up.
* `tour_ids`: what rests of a level stands in the order it stood in, but for the own orders that
  were passed over.
-/

namespace CexEngine

/-- The order at its price, as it was found. -/
def Visit.found (v : Visit) : Decimal × OrderEntry := (v.price, v.order)

/-- The order at its price, as it was left. -/
def Visit.kept (v : Visit) : Decimal × OrderEntry := (v.price, v.left)

variable [Arithmetic] {R : MatchRule} {price : Decimal} {order incoming : OrderEntry}
  {levels : List (Decimal × List OrderEntry)}

/-- How a visit of the tour of an order comes about. -/
inductive Visit.Made (R : MatchRule) (order : OrderEntry) : Visit → Prop where
  | own (price : Decimal) {o : OrderEntry} (own : order.userId = o.userId) : Visit.Made R order (.own price o)
  | met (price : Decimal) (pops : ℕ) {incoming o : OrderEntry} (terms : incoming.terms = order.terms)
      (foreign : order.userId ≠ o.userId) : Visit.Made R order
        ⟨price, o, (R.meet price pops incoming o).left, (R.meet price pops incoming o).results,
          (R.meet price pops incoming o).letGo⟩

/-- An order that is neither used up nor let go ends the tour. -/
theorem MatchRule.meet_ends (R : MatchRule) (price : Decimal) : ∀ (pops : ℕ) (incoming resting : OrderEntry),
    (R.meet price pops incoming resting).letGo = false →
    R.isFullyFilled (R.meet price pops incoming resting).incoming = false →
    ¬ 0 < (R.meet price pops incoming resting).left.remainingAmount := by
  intro pops
  induction pops with
  | zero => intro incoming resting hl; simp [meet] at hl
  | succ pops ih =>
    intro incoming resting
    unfold meet
    dsimp only
    split_ifs with hb he
    · simp
    · intro _ hf
      exact he.resolve_left (by simp [hf])
    · exact ih _ _

/-- Fills do not change what a resting order asks for. -/
theorem MatchRule.meet_left_terms (R : MatchRule) (price : Decimal) : ∀ (pops : ℕ) (incoming resting : OrderEntry),
    (R.meet price pops incoming resting).left.terms = resting.terms := by
  intro pops
  induction pops with
  | zero => intro incoming resting; rfl
  | succ pops ih =>
    intro incoming resting
    unfold meet
    dsimp only
    split_ifs
    · rfl
    · rfl
    · exact ih _ _

/-! ## One level -/

/-- A rule for what holds of the tour of a level: along the orders, with the pops that are left. -/
theorem tourLevel_rec {P : List OrderEntry → List OrderEntry → OrderEntry → Tour → Prop} (price : Decimal)
    (levels : List (Decimal × List OrderEntry))
    (done : ∀ passed incoming, P [] passed incoming ⟨price, [], passed, levels, incoming, []⟩)
    (drop : ∀ o rest passed incoming t, incoming.userId = o.userId → P rest passed incoming t →
      P (o :: rest) passed incoming (t.after [.own price o]))
    (pass : ∀ o rest passed incoming t, incoming.userId = o.userId → P rest (passed ++ [o]) incoming t →
      P (o :: rest) passed incoming t)
    (stop : ∀ o rest passed incoming pops, incoming.userId ≠ o.userId →
      (R.meet price pops incoming o).letGo = false → R.isFullyFilled (R.meet price pops incoming o).incoming = true →
      P (o :: rest) passed incoming ⟨price, if 0 < (R.meet price pops incoming o).left.remainingAmount then
        (R.meet price pops incoming o).left :: rest else rest, passed, levels, (R.meet price pops incoming o).incoming,
        [⟨price, o, (R.meet price pops incoming o).left, (R.meet price pops incoming o).results, false⟩]⟩)
    (next : ∀ o rest passed incoming pops t, incoming.userId ≠ o.userId →
      ((R.meet price pops incoming o).letGo = false → ¬ 0 < (R.meet price pops incoming o).left.remainingAmount) →
      P rest passed (R.meet price pops incoming o).incoming t →
      P (o :: rest) passed incoming (t.after [⟨price, o, (R.meet price pops incoming o).left,
        (R.meet price pops incoming o).results, (R.meet price pops incoming o).letGo⟩])) :
    ∀ (ahead : List OrderEntry) (pops : ℕ) (passed : List OrderEntry) (incoming : OrderEntry),
      P ahead passed incoming (R.tourLevel price levels ahead pops passed incoming) := by
  intro ahead
  induction ahead with
  | nil => intro pops passed incoming; exact done passed incoming
  | cons o rest ih =>
    intro pops passed incoming
    unfold MatchRule.tourLevel
    by_cases hu : incoming.userId = o.userId
    · rw [if_pos hu]
      cases pops with
      | zero => exact drop o rest passed incoming _ hu (ih _ _ _)
      | succ pops => exact pass o rest passed incoming _ hu (ih _ _ _)
    · rw [if_neg hu]
      dsimp only
      cases hl : (R.meet price pops incoming o).letGo with
      | true =>
        rw [if_pos rfl, ← hl]
        exact next o rest passed incoming pops _ hu (by simp [hl]) (ih _ _ _)
      | false =>
        rw [if_neg (by simp)]
        cases hf : R.isFullyFilled (R.meet price pops incoming o).incoming with
        | true =>
          rw [if_pos rfl]
          exact stop o rest passed incoming pops hu hl hf
        | false =>
          rw [if_neg (by simp), ← hl]
          exact next o rest passed incoming pops _ hu (fun _ => R.meet_ends price pops incoming o hl hf) (ih _ _ _)

section Level

variable (R) (price) (levels)

/-- The tour of a level goes on past it with nothing ahead, and after no order that stays. -/
theorem tourLevel_unfilled (ahead : List OrderEntry) (pops : ℕ) (passed : List OrderEntry) (incoming : OrderEntry) :
    R.isFullyFilled (R.tourLevel price levels ahead pops passed incoming).incoming = false →
      (R.tourLevel price levels ahead pops passed incoming).ahead = [] ∧
      ∀ v ∈ (R.tourLevel price levels ahead pops passed incoming).visits, v.stays = false := by
  refine tourLevel_rec (P := fun _ _ _ t => R.isFullyFilled t.incoming = false →
    t.ahead = [] ∧ ∀ v ∈ t.visits, v.stays = false) price levels ?_ ?_ ?_ ?_ ?_ ahead pops passed incoming
  · exact fun _ _ _ => ⟨rfl, fun v hv => absurd hv List.not_mem_nil⟩
  · intro o rest passed incoming t _ h hf
    exact ⟨(h hf).1, List.forall_mem_cons.2 ⟨rfl, (h hf).2⟩⟩
  · exact fun o rest passed incoming t _ h => h
  · intro o rest passed incoming pops _ _ hf hf'
    simp [hf] at hf'
  · intro o rest passed incoming pops t _ hleft h hf
    refine ⟨(h hf).1, List.forall_mem_cons.2 ⟨?_, (h hf).2⟩⟩
    simp only [Visit.stays, Bool.and_eq_false_iff, Bool.not_eq_false', decide_eq_false_iff_not]
    cases hl : (R.meet price pops incoming o).letGo with
    | true => exact Or.inl rfl
    | false => exact Or.inr (hleft hl)

theorem tourLevel_made (ahead : List OrderEntry) (pops : ℕ) (passed : List OrderEntry) (incoming : OrderEntry) :
    incoming.terms = order.terms → (∀ o ∈ passed, order.userId = o.userId) →
      (R.tourLevel price levels ahead pops passed incoming).incoming.terms = order.terms ∧
      (∀ o ∈ (R.tourLevel price levels ahead pops passed incoming).passed, order.userId = o.userId) ∧
      ∀ v ∈ (R.tourLevel price levels ahead pops passed incoming).visits, v.Made R order := by
  refine tourLevel_rec (P := fun _ passed incoming t => incoming.terms = order.terms →
    (∀ o ∈ passed, order.userId = o.userId) → t.incoming.terms = order.terms ∧
    (∀ o ∈ t.passed, order.userId = o.userId) ∧ ∀ v ∈ t.visits, v.Made R order) price levels
    ?_ ?_ ?_ ?_ ?_ ahead pops passed incoming
  · exact fun _ _ h hown => ⟨h, hown, fun v hv => absurd hv List.not_mem_nil⟩
  · intro o rest passed incoming t hu h hterms hown
    obtain ⟨hterms', hown', hmade⟩ := h hterms hown
    have huser := (OrderEntry.terms_eq hterms).2.1
    exact ⟨hterms', hown', List.forall_mem_cons.2 ⟨.own price (huser ▸ hu), hmade⟩⟩
  · intro o rest passed incoming t hu h hterms hown
    have huser := (OrderEntry.terms_eq hterms).2.1
    exact h hterms (List.forall_mem_append.2 ⟨hown, List.forall_mem_singleton.2 (huser ▸ hu)⟩)
  · intro o rest passed incoming pops hu hl _ hterms hown
    have huser := (OrderEntry.terms_eq hterms).2.1
    refine ⟨(R.meet_terms _ _ _ _).trans hterms, hown, List.forall_mem_singleton.2 ?_⟩
    rw [← hl]
    exact .met price pops hterms (huser ▸ hu)
  · intro o rest passed incoming pops t hu _ h hterms hown
    have huser := (OrderEntry.terms_eq hterms).2.1
    obtain ⟨hterms', hown', hmade⟩ := h ((R.meet_terms _ _ _ _).trans hterms) hown
    exact ⟨hterms', hown', List.forall_mem_cons.2 ⟨.met price pops hterms (huser ▸ hu), hmade⟩⟩

/-- The orders of the level are the visited ones and some that rest as they were. -/
theorem tourLevel_quotes (ahead : List OrderEntry) (pops : ℕ) (passed : List OrderEntry) (incoming : OrderEntry) :
    ∃ others, ((ahead ++ passed).map fun o => (price, o)).Perm
        ((R.tourLevel price levels ahead pops passed incoming).visits.map Visit.found ++ others) ∧
      (((R.tourLevel price levels ahead pops passed incoming).ahead ++
          (R.tourLevel price levels ahead pops passed incoming).passed).map fun o => (price, o)).Perm
        (((R.tourLevel price levels ahead pops passed incoming).visits.filter Visit.stays).map Visit.kept ++ others) := by
  refine tourLevel_rec (P := fun ahead passed _ t => ∃ others, ((ahead ++ passed).map fun o => (price, o)).Perm
      (t.visits.map Visit.found ++ others) ∧ ((t.ahead ++ t.passed).map fun o => (price, o)).Perm
        ((t.visits.filter Visit.stays).map Visit.kept ++ others)) price levels ?_ ?_ ?_ ?_ ?_ ahead pops passed incoming
  · exact fun passed _ => ⟨passed.map fun o => (price, o), .refl _, .refl _⟩
  · rintro o rest passed incoming t - ⟨others, h, h'⟩
    exact ⟨others, h.cons _, h'⟩
  · rintro o rest passed incoming t - ⟨others, h, h'⟩
    refine ⟨others, List.Perm.trans (List.Perm.map _ ?_) h, h'⟩
    rw [← List.append_assoc]
    exact (List.perm_append_singleton o (rest ++ passed)).symm
  · intro o rest passed incoming pops _ hl _
    refine ⟨(rest ++ passed).map fun o => (price, o), .refl _, ?_⟩
    by_cases hleft : 0 < (R.meet price pops incoming o).left.remainingAmount
    · rw [if_pos hleft, List.filter_cons_of_pos (by simp [Visit.stays, hleft])]
      exact .refl _
    · rw [if_neg hleft, List.filter_cons_of_neg (by simp [Visit.stays, hleft])]
      exact .refl _
  · rintro o rest passed incoming pops t - hleft ⟨others, h, h'⟩
    refine ⟨others, h.cons _, ?_⟩
    have hgone : (⟨price, o, (R.meet price pops incoming o).left, (R.meet price pops incoming o).results,
        (R.meet price pops incoming o).letGo⟩ : Visit).stays = false := by
      cases hl : (R.meet price pops incoming o).letGo with
      | true => rfl
      | false => simp [Visit.stays, hleft hl]
    rwa [Tour.after, List.singleton_append, List.filter_cons_of_neg (by simp [hgone])]

/-- Only the last visit may leave something that stays. -/
theorem tourLevel_last (ahead : List OrderEntry) (pops : ℕ) (passed : List OrderEntry) (incoming : OrderEntry) :
    (R.tourLevel price levels ahead pops passed incoming).visits.Pairwise fun v _ => v.stays = false := by
  refine tourLevel_rec (P := fun _ _ _ t => t.visits.Pairwise fun v _ => v.stays = false) price levels ?_ ?_ ?_ ?_ ?_
    ahead pops passed incoming
  · exact fun _ _ => .nil
  · exact fun o rest passed incoming t _ h => List.pairwise_cons.2 ⟨fun _ _ => rfl, h⟩
  · exact fun o rest passed incoming t _ h => h
  · exact fun o rest passed incoming pops _ _ _ => List.pairwise_singleton _ _
  · intro o rest passed incoming pops t _ hleft h
    refine List.pairwise_cons.2 ⟨fun _ _ => ?_, h⟩
    cases hl : (R.meet price pops incoming o).letGo with
    | true => rfl
    | false => simp [Visit.stays, hleft hl]

/-- Where no order is let go, the other users' orders are visited from the front on, and all of
them where the tour goes on past the level. -/
theorem tourLevel_foreign (ahead : List OrderEntry) (pops : ℕ) (passed : List OrderEntry) (incoming : OrderEntry) :
    incoming.userId = order.userId →
    (∀ v ∈ (R.tourLevel price levels ahead pops passed incoming).visits, v.letGo = false) →
      ∃ others, ahead.filter (fun o => order.userId ≠ o.userId) =
          (R.tourLevel price levels ahead pops passed incoming).visits.map Visit.order ++ others ∧
        (R.isFullyFilled (R.tourLevel price levels ahead pops passed incoming).incoming = false → others = []) := by
  refine tourLevel_rec (P := fun ahead _ incoming t => incoming.userId = order.userId →
    (∀ v ∈ t.visits, v.letGo = false) → ∃ others, ahead.filter (fun o => order.userId ≠ o.userId) =
      t.visits.map Visit.order ++ others ∧ (R.isFullyFilled t.incoming = false → others = [])) price levels
    ?_ ?_ ?_ ?_ ?_ ahead pops passed incoming
  · exact fun _ _ _ _ => ⟨[], rfl, fun _ => rfl⟩
  · intro o rest passed incoming t _ _ _ hl
    exact absurd (hl _ List.mem_cons_self) (by simp [Visit.own])
  · intro o rest passed incoming t hu h huser hl
    rw [List.filter_cons_of_neg (by simp [← huser, hu])]
    exact h huser hl
  · intro o rest passed incoming pops hu _ hf huser _
    rw [List.filter_cons_of_pos (by simp [← huser, hu])]
    exact ⟨_, rfl, fun hf' => by simp [hf] at hf'⟩
  · intro o rest passed incoming pops t hu _ h huser hl
    obtain ⟨others, hothers, hf⟩ := h
      (((OrderEntry.terms_eq (R.meet_terms price pops incoming o)).2.1).trans huser)
      (fun v hv => hl v (List.mem_cons_of_mem _ hv))
    rw [List.filter_cons_of_pos (by simp [← huser, hu]), hothers]
    exact ⟨others, rfl, hf⟩

/-- What rests of the level keeps its order, but for the own orders that were passed over. -/
theorem tourLevel_ids (ahead : List OrderEntry) (pops : ℕ) (passed : List OrderEntry) (incoming : OrderEntry) :
    (((R.tourLevel price levels ahead pops passed incoming).passed ++
        (R.tourLevel price levels ahead pops passed incoming).ahead).map OrderEntry.id).Sublist
      ((passed ++ ahead).map OrderEntry.id) := by
  refine tourLevel_rec (P := fun ahead passed _ t => ((t.passed ++ t.ahead).map OrderEntry.id).Sublist
    ((passed ++ ahead).map OrderEntry.id)) price levels ?_ ?_ ?_ ?_ ?_ ahead pops passed incoming
  · exact fun _ _ => .refl _
  · exact fun o rest passed incoming t _ h => h.trans (((List.sublist_cons_self o rest).append_left passed).map _)
  · intro o rest passed incoming t _ h
    rwa [List.append_assoc] at h
  · intro o rest passed incoming pops _ _ _
    rw [List.map_append, List.map_append]
    refine List.Sublist.append_left ?_ _
    split_ifs
    · rw [List.map_cons, List.map_cons, (OrderEntry.terms_eq (R.meet_left_terms price pops incoming o)).1]
    · exact (List.sublist_cons_self o rest).map _
  · exact fun o rest passed incoming pops t _ _ h => h.trans (((List.sublist_cons_self o rest).append_left passed).map _)

theorem tourLevel_here (ahead : List OrderEntry) (pops : ℕ) (passed : List OrderEntry) (incoming : OrderEntry) :
    (R.tourLevel price levels ahead pops passed incoming).price = price ∧
      (R.tourLevel price levels ahead pops passed incoming).levels = levels ∧
      ∀ v ∈ (R.tourLevel price levels ahead pops passed incoming).visits, v.price = price := by
  refine tourLevel_rec (P := fun _ _ _ t => t.price = price ∧ t.levels = levels ∧ ∀ v ∈ t.visits, v.price = price)
    price levels ?_ ?_ ?_ ?_ ?_ ahead pops passed incoming
  · exact fun _ _ => ⟨rfl, rfl, fun v hv => absurd hv List.not_mem_nil⟩
  · exact fun o rest passed incoming t _ h => ⟨h.1, h.2.1, List.forall_mem_cons.2 ⟨rfl, h.2.2⟩⟩
  · exact fun o rest passed incoming t _ h => h
  · exact fun o rest passed incoming pops _ _ _ => ⟨rfl, rfl, List.forall_mem_singleton.2 rfl⟩
  · exact fun o rest passed incoming pops t _ _ h => ⟨h.1, h.2.1, List.forall_mem_cons.2 ⟨rfl, h.2.2⟩⟩

end Level

/-! ## All levels -/

omit [Arithmetic] in
theorem Tour.quotes_left (t : Tour) :
    quotes t.left = ((t.ahead ++ t.passed).map fun o => (t.price, o)) ++ quotes t.levels := by
  unfold Tour.left
  split_ifs with h
  · rw [h]
    rfl
  · rfl

/-- A rule for what holds of the tour: along the levels. -/
theorem tour_rec {P : List (Decimal × List OrderEntry) → OrderEntry → Tour → Prop}
    (nil : ∀ incoming, P [] incoming ⟨0, [], [], [], incoming, []⟩)
    (ends : ∀ price queue levels incoming, P ((price, queue) :: levels) incoming
      ⟨price, [], [], (price, queue) :: levels, incoming, []⟩)
    (used : ∀ price queue levels incoming, R.accepts incoming price = true →
      P ((price, queue) :: levels) incoming (R.tourLevel price levels queue (queue.length * 2) [] incoming))
    (left : ∀ price queue levels incoming t T, R.accepts incoming price = true →
      t = R.tourLevel price levels queue (queue.length * 2) [] incoming → R.isFullyFilled t.incoming = false →
      P levels t.incoming T →
      P ((price, queue) :: levels) incoming (T.after (t.visits ++ t.passed.map (.own price)))) :
    ∀ (levels : List (Decimal × List OrderEntry)) (incoming : OrderEntry), P levels incoming (R.tour levels incoming) := by
  intro levels
  induction levels with
  | nil => exact nil
  | cons l levels ih =>
    obtain ⟨price, queue⟩ := l
    intro incoming
    unfold MatchRule.tour
    by_cases hend : R.isFullyFilled incoming = true ∨ R.accepts incoming price = false
    · rw [if_pos hend]
      exact ends price queue levels incoming
    rw [if_neg hend]
    have ha : R.accepts incoming price = true := by simpa using (not_or.1 hend).2
    dsimp only
    cases hf : R.isFullyFilled (R.tourLevel price levels queue (queue.length * 2) [] incoming).incoming with
    | true =>
      rw [if_pos rfl]
      exact used price queue levels incoming ha
    | false =>
      rw [if_neg (by simp)]
      exact left price queue levels incoming _ _ ha rfl hf (ih _)

section Tour

variable (levels : List (Decimal × List OrderEntry))

/-- **How the visits come about.** -/
theorem tour_made (incoming : OrderEntry) : incoming.terms = order.terms →
    ∀ v ∈ (R.tour levels incoming).visits, v.Made R order := by
  refine tour_rec (P := fun _ incoming t => incoming.terms = order.terms → ∀ v ∈ t.visits, v.Made R order) ?_ ?_ ?_ ?_
    levels incoming
  · exact fun _ _ v hv => absurd hv List.not_mem_nil
  · exact fun _ _ _ _ _ v hv => absurd hv List.not_mem_nil
  · exact fun price queue levels incoming _ hterms =>
      (tourLevel_made R price levels queue _ [] incoming hterms fun o ho => absurd ho List.not_mem_nil).2.2
  · intro price queue levels incoming t T _ ht _ h hterms v hv
    obtain ⟨hterms', hown, hmade⟩ := tourLevel_made R price levels queue (queue.length * 2)
      [] incoming hterms fun o ho => absurd ho List.not_mem_nil
    rw [← ht] at hterms' hown hmade
    rcases List.mem_append.1 hv with hv | hv
    · rcases List.mem_append.1 hv with hv | hv
      · exact hmade v hv
      · obtain ⟨o, ho, rfl⟩ := List.mem_map.1 hv
        exact .own price (hown o ho)
    · exact h hterms' v hv

/-- **The quotes**, before and after: the visited orders, of which some stay, and others. -/
theorem tour_quotes (incoming : OrderEntry) : ∃ others,
    (quotes levels).Perm ((R.tour levels incoming).visits.map Visit.found ++ others) ∧
      (quotes (R.tour levels incoming).left).Perm
        (((R.tour levels incoming).visits.filter Visit.stays).map Visit.kept ++ others) := by
  refine tour_rec (P := fun levels _ t => ∃ others, (quotes levels).Perm (t.visits.map Visit.found ++ others) ∧
    (quotes t.left).Perm ((t.visits.filter Visit.stays).map Visit.kept ++ others)) ?_ ?_ ?_ ?_ levels incoming
  · exact fun _ => ⟨[], .refl _, .refl _⟩
  · exact fun price queue levels _ => ⟨quotes ((price, queue) :: levels), .refl _, .refl _⟩
  · intro price queue levels incoming _
    obtain ⟨others, h, h'⟩ := tourLevel_quotes R price levels queue (queue.length * 2) []
      incoming
    rw [List.append_nil] at h
    refine ⟨others ++ quotes levels, ?_, ?_⟩
    · rw [quotes_cons, ← List.append_assoc]
      exact h.append_right _
    · rw [← List.append_assoc]
      rw [Tour.quotes_left, (tourLevel_here _ _ _ _ _ _ _).1, (tourLevel_here _ _ _ _ _ _ _).2.1]
      exact h'.append_right _
  · rintro price queue levels incoming t T - ht hf ⟨others, h, h'⟩
    obtain ⟨here, hh, hh'⟩ := tourLevel_quotes R price levels queue (queue.length * 2) []
      incoming
    obtain ⟨hahead, hgone⟩ := tourLevel_unfilled R price levels queue (queue.length * 2) []
      incoming (ht ▸ hf)
    rw [← ht] at hh hh' hahead hgone
    have hnone : t.visits.filter Visit.stays = [] := List.filter_eq_nil_iff.2 fun v hv => by simp [hgone v hv]
    rw [List.append_nil] at hh
    rw [hnone, hahead, List.map_nil, List.nil_append, List.nil_append] at hh'
    have hfound : (t.passed.map (Visit.own price)).map Visit.found = t.passed.map fun o => (price, o) := by
      rw [List.map_map]
      rfl
    have hown : (t.passed.map (Visit.own price)).filter Visit.stays = [] := List.filter_eq_nil_iff.2 fun v hv => by
      obtain ⟨o, -, rfl⟩ := List.mem_map.1 hv
      simp [Visit.own, Visit.stays]
    refine ⟨others, ?_, ?_⟩
    · rw [quotes_cons, Tour.after, List.map_append, List.map_append, hfound, List.append_assoc]
      exact (hh.trans (hh'.symm.append_left _)).append h
    · rw [Tour.after_left, Tour.after, List.filter_append, List.filter_append, hnone, hown]
      exact h'

/-- Only the last visit may leave something that stays. -/
theorem tour_last (incoming : OrderEntry) :
    (R.tour levels incoming).visits.Pairwise fun v _ => v.stays = false := by
  refine tour_rec (P := fun _ _ t => t.visits.Pairwise fun v _ => v.stays = false) ?_ ?_ ?_ ?_ levels incoming
  · exact fun _ => .nil
  · exact fun _ _ _ _ => .nil
  · exact fun price queue levels incoming _ => tourLevel_last R price levels queue _ [] incoming
  · intro price queue levels incoming t T _ ht hf h
    have hgone := (tourLevel_unfilled R price levels queue (queue.length * 2) []
      incoming (ht ▸ hf)).2
    rw [← ht] at hgone
    have hall : ∀ v ∈ t.visits ++ t.passed.map (Visit.own price), v.stays = false := by
      intro v hv
      rcases List.mem_append.1 hv with hv | hv
      · exact hgone v hv
      · obtain ⟨o, -, rfl⟩ := List.mem_map.1 hv
        rfl
    refine List.pairwise_append.2 ⟨?_, h, fun v hv _ _ => hall v hv⟩
    exact List.pairwise_of_forall_mem_list fun v hv _ _ => hall v hv

omit [Arithmetic] levels in
theorem foreign_quotes_cons (order : OrderEntry) (price : Decimal) (queue : List OrderEntry)
    (levels : List (Decimal × List OrderEntry)) :
    (quotes ((price, queue) :: levels)).filter (fun x => order.userId ≠ x.2.userId) =
      (queue.filter fun o => order.userId ≠ o.userId).map (fun o => (price, o)) ++
        (quotes levels).filter fun x => order.userId ≠ x.2.userId := by
  rw [quotes_cons, List.filter_append, List.filter_map]
  rfl

omit levels in
theorem found_of_level (price : Decimal) (levels : List (Decimal × List OrderEntry)) (ahead : List OrderEntry) (pops : ℕ)
    (passed : List OrderEntry) (incoming : OrderEntry) :
    (R.tourLevel price levels ahead pops passed incoming).visits.map Visit.found =
      ((R.tourLevel price levels ahead pops passed incoming).visits.map Visit.order).map fun o => (price, o) := by
  rw [List.map_map]
  refine List.map_congr_left fun v hv => ?_
  rw [Function.comp_apply, ← (tourLevel_here _ _ _ _ _ _ _).2.2 v hv]
  rfl

/-- **Where no order is let go**, the other users' quotes are visited from the best one on. -/
theorem tour_foreign (incoming : OrderEntry) (huser : incoming.userId = order.userId)
    (hkept : ∀ v ∈ (R.tour levels incoming).visits, v.letGo = false) :
    (R.tour levels incoming).visits.map Visit.found <+: (quotes levels).filter fun x => order.userId ≠ x.2.userId := by
  revert huser hkept
  refine tour_rec (P := fun levels incoming t => incoming.userId = order.userId → (∀ v ∈ t.visits, v.letGo = false) →
    t.visits.map Visit.found <+: (quotes levels).filter fun x => order.userId ≠ x.2.userId) ?_ ?_ ?_ ?_ levels incoming
  · exact fun _ _ _ => ⟨_, List.nil_append _⟩
  · exact fun _ _ _ _ _ _ => ⟨_, List.nil_append _⟩
  · intro price queue levels incoming _ huser hkept
    obtain ⟨others, hothers, -⟩ := tourLevel_foreign R price levels queue
      (queue.length * 2) [] incoming huser hkept
    rw [foreign_quotes_cons, hothers, found_of_level, List.map_append, List.append_assoc]
    exact List.prefix_append _ _
  · intro price queue levels incoming t T _ ht hf h huser hkept
    have hpassed : t.passed = [] := List.eq_nil_iff_forall_not_mem.2 fun o ho => by
      have := hkept (.own price o) (List.mem_append_left _ (List.mem_append_right _ (List.mem_map_of_mem ho)))
      simp [Visit.own] at this
    obtain ⟨others, hothers, hnone⟩ := tourLevel_foreign R price levels queue
      (queue.length * 2) [] incoming huser fun v hv =>
        hkept v (List.mem_append_left _ (List.mem_append_left _ (by rw [ht]; exact hv)))
    rw [hnone (ht ▸ hf), List.append_nil] at hothers
    have huser' : t.incoming.userId = order.userId := by
      have hterms := (tourLevel_made R price levels queue (queue.length * 2) []
        incoming rfl fun o ho => absurd ho List.not_mem_nil).1
      rw [ht, (OrderEntry.terms_eq hterms).2.1, huser]
    rw [foreign_quotes_cons, hothers, Tour.after, hpassed, List.map_nil, List.append_nil, List.map_append, ht,
      found_of_level]
    exact List.prefix_append_right_inj _ |>.2 (h huser' fun v hv => hkept v (List.mem_append_right _ hv))

/-- **What rests keeps its order** where the tour passes over no own order that it leaves others behind. -/
theorem tour_ids (incoming : OrderEntry)
    (h : (R.tour levels incoming).ahead = [] ∨ (R.tour levels incoming).passed = []) :
    ∀ l ∈ (R.tour levels incoming).left, ∃ l' ∈ levels, (l.2.map OrderEntry.id).Sublist (l'.2.map OrderEntry.id) := by
  revert h
  refine tour_rec (P := fun levels _ t => t.ahead = [] ∨ t.passed = [] →
    ∀ l ∈ t.left, ∃ l' ∈ levels, (l.2.map OrderEntry.id).Sublist (l'.2.map OrderEntry.id)) ?_ ?_ ?_ ?_ levels incoming
  · exact fun _ _ l hl => absurd hl List.not_mem_nil
  · exact fun _ _ _ _ _ l hl => ⟨l, hl, .refl _⟩
  · intro price queue levels incoming _ h l hl
    have hids := tourLevel_ids R price levels queue (queue.length * 2) [] incoming
    obtain ⟨hprice, hlevels, -⟩ := tourLevel_here R price levels queue
      (queue.length * 2) [] incoming
    set t := R.tourLevel price levels queue (queue.length * 2) [] incoming
    have hrest : ∀ l ∈ levels, ∃ l' ∈ (price, queue) :: levels,
        (l.2.map OrderEntry.id).Sublist (l'.2.map OrderEntry.id) :=
      fun l hl => ⟨l, List.mem_cons_of_mem _ hl, .refl _⟩
    rw [Tour.left, hlevels] at hl
    split_ifs at hl
    · exact hrest l hl
    rcases List.mem_cons.1 hl with rfl | hl
    · refine ⟨_, List.mem_cons_self, ?_⟩
      rcases h with h | h
      · rw [h, List.append_nil] at hids
        rwa [h, List.nil_append]
      · rw [h, List.nil_append] at hids
        rwa [h, List.append_nil]
    · exact hrest l hl
  · intro price queue levels incoming t T _ _ _ hT h l hl
    obtain ⟨l', hl', hsub⟩ := hT h l hl
    exact ⟨l', List.mem_cons_of_mem _ hl', hsub⟩

end Tour

end CexEngine
