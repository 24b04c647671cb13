import CexEngine.Proof.Admission
import CexEngine.Spec.Publisher

/-!
# The events of one user

* `eventOrder_run`: **the events of one partition key reach the topic in the order in which they
  were built**, if no publisher overtakes one of the same key whose event was built earlier.
* `eventOrder_not`: the two events of one submission, the later one published first.
-/

namespace CexEngine

namespace Publishing

variable {dv : Decimal → Decimal → Decimal} {p p' : Publishing}

/-- On the topic the events of each key have increasing numbers. -/
def InOrder (p : Publishing) : Prop :=
  ∀ key, (p.topic.filter (·.key = key)).Pairwise fun x y => x.number < y.number

/-- No publisher hands over an event while that of an earlier event of the same key is running. -/
def NoOvertaking (p : Publishing) : PublishAction → Prop
  | .publish number => ∀ x ∈ p.publishers, x.number = number →
      ∀ y ∈ p.publishers, y.key = x.key → ¬ y.number < number
  | _ => True

instance (p : Publishing) : DecidablePred p.NoOvertaking
  | .handle _ => inferInstanceAs (Decidable True)
  | .publish number => inferInstanceAs (Decidable (∀ x ∈ p.publishers, x.number = number →
      ∀ y ∈ p.publishers, y.key = x.key → ¬ y.number < number))
  | .lose _ => inferInstanceAs (Decidable True)

theorem spawnPublishers_number : ∀ {events : List Event} {built : ℕ},
    (spawnPublishers built events).Pairwise (fun x y => x.number < y.number) ∧
      ∀ x ∈ spawnPublishers built events, built ≤ x.number ∧ x.number < built + events.length := by
  intro events
  induction events with
  | nil => exact fun {built} => ⟨List.Pairwise.nil, by simp [spawnPublishers]⟩
  | cons event events ih =>
    intro built
    obtain ⟨hsorted, hrange⟩ := @ih (built + 1)
    simp only [spawnPublishers, List.pairwise_cons, List.forall_mem_cons, List.length_cons]
    refine ⟨⟨fun x hx => ?_, hsorted⟩, ⟨le_rfl, by omega⟩, fun x hx => ?_⟩
    · have := (hrange x hx).1
      omega
    · have := hrange x hx
      omega

/-- What keeps the events of a key in order. -/
structure Queued (p : Publishing) : Prop where
  sorted : p.publishers.Pairwise fun x y => x.number < y.number
  below : ∀ x ∈ p.publishers, x.number < p.built
  topicBelow : ∀ x ∈ p.topic, x.number < p.built
  /-- What is on the topic is older than what is still to come with its key. -/
  older : ∀ x ∈ p.topic, ∀ y ∈ p.publishers, x.key = y.key → x.number < y.number
  inOrder : p.InOrder

/-- A publisher is gone. -/
theorem Queued.erase (h : p.Queued) (x : Publication) : Queued { p with publishers := p.publishers.erase x } where
  sorted := h.sorted.sublist List.erase_sublist
  below := fun y hy => h.below y (List.mem_of_mem_erase hy)
  topicBelow := h.topicBelow
  older := fun y hy z hz => h.older y hy z (List.mem_of_mem_erase hz)
  inOrder := h.inOrder

/-- Numbers are given once. -/
theorem Queued.number_ne (h : p.Queued) {x y : Publication} (hx : x ∈ p.publishers) (hy : y ∈ p.publishers.erase x) :
    x.number ≠ y.number := by
  have hnumbers : (p.publishers.map Publication.number).Nodup :=
    List.pairwise_map.2 (h.sorted.imp fun hlt => hlt.ne)
  intro heq
  obtain rfl := List.inj_on_of_nodup_map hnumbers hx (List.mem_of_mem_erase hy) heq
  exact (hnumbers.of_map _).not_mem_erase hy

theorem queued_step {a : PublishAction} (h : p.Queued) (ha : p.NoOvertaking a) (hstep : p.step dv a = some p') :
    p'.Queued := by
  cases a with
  | handle command =>
    obtain rfl := Option.some.inj hstep
    obtain ⟨hsorted, hrange⟩ := @spawnPublishers_number (p.engine.events dv command) p.built
    refine ⟨?_, ?_, ?_, ?_, h.inOrder⟩
    · rw [List.pairwise_append]
      refine ⟨h.sorted, hsorted, fun x hx y hy => ?_⟩
      have := h.below x hx
      have := (hrange y hy).1
      omega
    · simp only [List.forall_mem_append]
      exact ⟨fun x hx => by have := h.below x hx; omega, fun x hx => (hrange x hx).2⟩
    · exact fun x hx => by have := h.topicBelow x hx; dsimp only; omega
    · -- new events are younger than whatever was built before
      intro x hx y hy hkey
      rcases List.mem_append.1 hy with hy | hy
      · exact h.older x hx y hy hkey
      · have := h.topicBelow x hx
        have := (hrange y hy).1
        omega
  | publish number =>
    obtain ⟨x, hfind, rfl⟩ := Option.map_eq_some_iff.1 hstep
    have hx : x ∈ p.publishers := List.mem_of_find?_eq_some hfind
    have hnumber : x.number = number := by simpa using List.find?_some hfind
    refine ⟨(h.erase x).sorted, (h.erase x).below, ?_, ?_, fun key => ?_⟩
    · simp only [List.forall_mem_append, List.forall_mem_singleton]
      exact ⟨h.topicBelow, h.below x hx⟩
    · simp only [List.forall_mem_append, List.forall_mem_singleton]
      refine ⟨(h.erase x).older, fun y hy hkey => ?_⟩
      -- the publishers of this key that are left are all of later events
      have hnot := ha x hx hnumber y (List.mem_of_mem_erase hy) hkey.symm
      have hne := h.number_ne hx hy
      omega
    · simp only [List.filter_append, List.pairwise_append]
      refine ⟨h.inOrder key, ?_, fun y hy z hz => ?_⟩
      · exact List.Pairwise.filter _ (List.pairwise_singleton _ _)
      · obtain ⟨hy, hykey⟩ := List.mem_filter.1 hy
        obtain ⟨hz, hzkey⟩ := List.mem_filter.1 hz
        obtain rfl := List.mem_singleton.1 hz
        exact h.older y hy z hx (by simp_all)
  | lose number =>
    obtain ⟨x, -, rfl⟩ := Option.map_eq_some_iff.1 hstep
    exact h.erase x

end Publishing

/-- **The events of one key reach the topic in the order in which they were built**, in a run in
which no publisher overtakes an earlier one of the same key. -/
theorem eventOrder_run {dv : Decimal → Decimal → Decimal} {engine : Engine} {as : List PublishAction} {p : Publishing}
    (horder : Machine.Each (Publishing.step dv) Publishing.NoOvertaking (.start engine) as)
    (hrun : Machine.run (Publishing.step dv) (.start engine) as = some p) : p.InOrder := by
  have hqueued : p.Queued := by
    refine Machine.run_inv_of (fun s a t hs ha h => Publishing.queued_step hs ha h) ?_ horder hrun
    refine ⟨List.Pairwise.nil, ?_, ?_, ?_, fun key => List.Pairwise.nil⟩ <;> simp [Publishing.start]
  exact hqueued.inOrder

/-- User 2 asks for 10 twice and user 1 buys both: two trades, published as they were built. -/
theorem eventOrder_run_buys :
    ∃ p, Machine.run (Publishing.step (· / ·))
        (.start (.start ((BalanceCache.new.setBalance 1 "USDT" 100 0).setBalance 2 "SOL" 5 0)))
        [.handle (.submitOrder (limitOrder 1 2 .sell 10 1)), .handle (.submitOrder (limitOrder 2 2 .sell 10 1)),
          .handle (.submitOrder (limitOrder 3 1 .buy 10 2)), .publish 0, .publish 1] = some p ∧
      p.topic.map (fun x => (x.number, x.key)) = [(0, 1), (1, 1)] ∧ p.InOrder := by
  obtain ⟨p, hrun, htopic⟩ := Machine.exists_run (Publishing.step (· / ·))
    (.start (.start ((BalanceCache.new.setBalance 1 "USDT" 100 0).setBalance 2 "SOL" 5 0)))
    [.handle (.submitOrder (limitOrder 1 2 .sell 10 1)), .handle (.submitOrder (limitOrder 2 2 .sell 10 1)),
      .handle (.submitOrder (limitOrder 3 1 .buy 10 2)), .publish 0, .publish 1]
    (fun p => p.topic.map (fun x => (x.number, x.key)) = [(0, 1), (1, 1)]) (by decide +kernel)
  exact ⟨p, hrun, htopic, eventOrder_run (by decide +kernel) hrun⟩

/-- The same trades; the publisher of the second one is first. -/
theorem eventOrder_not :
    ∃ p, Machine.run (Publishing.step (· / ·))
        (.start (.start ((BalanceCache.new.setBalance 1 "USDT" 100 0).setBalance 2 "SOL" 5 0)))
        [.handle (.submitOrder (limitOrder 1 2 .sell 10 1)), .handle (.submitOrder (limitOrder 2 2 .sell 10 1)),
          .handle (.submitOrder (limitOrder 3 1 .buy 10 2)), .publish 1, .publish 0] = some p ∧
      p.topic.map (fun x => (x.number, x.key)) = [(1, 1), (0, 1)] ∧ ¬ p.InOrder := by
  obtain ⟨p, hrun, htopic, hall⟩ := Machine.exists_run (Publishing.step (· / ·))
    (.start (.start ((BalanceCache.new.setBalance 1 "USDT" 100 0).setBalance 2 "SOL" 5 0)))
    [.handle (.submitOrder (limitOrder 1 2 .sell 10 1)), .handle (.submitOrder (limitOrder 2 2 .sell 10 1)),
      .handle (.submitOrder (limitOrder 3 1 .buy 10 2)), .publish 1, .publish 0]
    (fun p => p.topic.map (fun x => (x.number, x.key)) = [(1, 1), (0, 1)] ∧
      ¬ (p.topic.filter (·.key = 1)).Pairwise fun x y => x.number < y.number) (by decide +kernel)
  exact ⟨p, hrun, htopic, fun h => hall (h 1)⟩

end CexEngine
