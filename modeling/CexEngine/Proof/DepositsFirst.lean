import CexEngine.Proof.EnginePass

/-!
# Deposits go first

The loop polls the balance channel and then waits on the order channel.

* `Waits`: what each step keeps.
* `depositsFirst_run`: **no order command overtakes a balance command sent before it**, as long
  as none is put on an empty order channel that the thread already waits on while a balance
  command has come in since the poll.
-/

namespace CexEngine

namespace EngineThread

variable {dv : Decimal → Decimal → Decimal} {t t' : EngineThread} {a : LoopAction} {as : List LoopAction}

/-- Whatever was sent on the balance channel before an order command that has been begun was
begun before it. -/
def DepositsFirst (t : EngineThread) : Prop :=
  ∀ l o, l ++ [o] <+: t.begun → o.isBalance = false → ∀ b ∈ t.sent, b.isBalance = true → b.tag < o.tag → b ∈ l

/-- No order command is put on an empty order channel while the thread waits on that channel
and a balance command waits for the thread. -/
def Prompt (t : EngineThread) : LoopAction → Prop
  | .send command => command.isBalance = false → t.pastPoll = true → t.orderRx = [] → t.balanceRx = []
  | _ => True

instance (t : EngineThread) : DecidablePred t.Prompt
  | .send _ => inferInstanceAs (Decidable (_ → _ → _ → _))
  | .closeOrders => inferInstanceAs (Decidable True)
  | .closeBalance => inferInstanceAs (Decidable True)
  | .stop => inferInstanceAs (Decidable True)
  | .pass => inferInstanceAs (Decidable True)

/-- What keeps the deposits first. -/
structure Waits (t : EngineThread) : Prop where
  numbered : ∀ r ∈ t.sent, r.tag < t.sent.length
  begunSent : ∀ r ∈ t.begun, r ∈ t.sent
  orderSent : ∀ r ∈ t.orderRx, r ∈ t.sent
  balanceSent : ∀ r ∈ t.balanceRx, r ∈ t.sent ∧ r.isBalance = true
  /-- A balance command that was sent has been begun or waits. -/
  waiting : ∀ b ∈ t.sent, b.isBalance = true → b ∈ t.begun ∨ b ∈ t.balanceRx
  closed : t.balanceClosed = true → t.balanceConnected = false ∧ t.balanceRx = []
  /-- Past the poll the next order command is older than every balance command that waits. -/
  older : t.pastPoll = true → ∀ o ∈ t.orderRx.head?, ∀ b ∈ t.balanceRx, o.tag < b.tag
  first : t.DepositsFirst

theorem Waits.start (engine : Engine) : (EngineThread.start engine).Waits where
  numbered := by simp [EngineThread.start]
  begunSent := by simp [EngineThread.start, begun, served, inHand]
  orderSent := by simp [EngineThread.start]
  balanceSent := by simp [EngineThread.start]
  waiting := by simp [EngineThread.start]
  closed := by simp [EngineThread.start]
  older := by simp [EngineThread.start]
  first := by
    intro l o hinit
    have hnone : (EngineThread.start engine).begun = [] := rfl
    rw [hnone, List.prefix_nil] at hinit
    simp at hinit

/-- Beginning one more request. -/
theorem DepositsFirst.begin {r : Request} (h : t.DepositsFirst) (hsent : t'.sent = t.sent)
    (hbegun : t'.begun = t.begun ++ [r])
    (hr : r.isBalance = false → ∀ b ∈ t.sent, b.isBalance = true → b.tag < r.tag → b ∈ t.begun) :
    t'.DepositsFirst := by
  intro l o hinit ho b hb hbal htag
  rw [hsent] at hb
  rw [hbegun, List.prefix_concat_iff] at hinit
  rcases hinit with heq | hinit
  · -- `o` is the request just begun
    obtain ⟨rfl, hro⟩ := List.append_inj' heq rfl
    obtain rfl := List.singleton_injective hro
    exact hr ho b hb hbal htag
  · exact h l o hinit ho b hb hbal htag

theorem Waits.pass {out : List DbCommand} (hw : t.Waits) (h : t.pass dv = some (t', out)) : t'.Waits := by
  obtain ⟨hsent, hconnected, hclosed, htakes⟩ := pass_cases h
  have hstays : t'.balanceRx = t.balanceRx ∨ ∃ r, t.balanceRx = r :: t'.balanceRx := by
    cases htakes with
    | balance r hrx => exact .inr ⟨r, hrx⟩
    | order r _ _ hb => exact .inl hb
    | idle _ hb => exact .inl hb
  have hclosed' : t'.balanceClosed = true → t'.balanceConnected = false ∧ t'.balanceRx = [] := by
    intro hc
    have hold : t.balanceConnected = false ∧ t.balanceRx = [] := (hclosed hc).elim hw.closed id
    refine ⟨hconnected.trans hold.1, ?_⟩
    rcases hstays with hb | ⟨r, hb⟩
    · rw [hb, hold.2]
    · rw [hold.2] at hb
      cases hb
  have hnumbered : ∀ r ∈ t'.sent, r.tag < t'.sent.length := by
    rw [hsent]
    exact hw.numbered
  have hbalance : ∀ r ∈ t'.balanceRx, r ∈ t'.sent ∧ r.isBalance = true := by
    intro r hr
    rw [hsent]
    apply hw.balanceSent
    rcases hstays with hb | ⟨x, hb⟩
    · rwa [← hb]
    · rw [hb]
      exact List.mem_cons_of_mem x hr
  cases htakes with
  | balance r hrx ho hserves =>
    have hbegun := hserves.begun
    have hr := hw.balanceSent r (by rw [hrx]; exact List.mem_cons_self)
    refine ⟨hnumbered, ?_, ?_, hbalance, ?_, hclosed', fun hp => ?_, ?_⟩
    · rw [hbegun, hsent, List.forall_mem_append, List.forall_mem_singleton]
      exact ⟨hw.begunSent, hr.1⟩
    · rw [hsent, ho]
      exact hw.orderSent
    · -- the head of the balance channel moves over
      intro b hb hbal
      rw [hsent] at hb
      rw [hbegun, List.mem_append, List.mem_singleton, or_assoc, ← List.mem_cons, ← hrx]
      exact hw.waiting b hb hbal
    · rw [hserves.notPast] at hp
      cases hp
    · refine hw.first.begin hsent hbegun fun hro => ?_
      rw [hr.2] at hro
      cases hro
  | order r hpast hrx hb hserves =>
    have hbegun := hserves.begun
    have hr : r ∈ t.orderRx := by
      rw [hrx]
      exact List.mem_cons_self
    refine ⟨hnumbered, ?_, ?_, hbalance, ?_, hclosed', fun hp => ?_, ?_⟩
    · rw [hbegun, hsent, List.forall_mem_append, List.forall_mem_singleton]
      exact ⟨hw.begunSent, hw.orderSent r hr⟩
    · intro x hx
      rw [hsent]
      apply hw.orderSent
      rw [hrx]
      exact List.mem_cons_of_mem r hx
    · intro b hb' hbal
      rw [hsent] at hb'
      rw [hbegun, hb, List.mem_append]
      exact (hw.waiting b hb' hbal).imp_left .inl
    · rw [hserves.notPast] at hp
      cases hp
    · -- nothing older than the head of the order channel waits
      refine hw.first.begin hsent hbegun fun _ b hb' hbal htag => ?_
      rcases hw.waiting b hb' hbal with hdone | hwaits
      · exact hdone
      · have := hw.older hpast r (by rw [hrx]; rfl) b hwaits
        omega
  | idle ho hb _ hserved _ hpast =>
    have hbegun := begun_of_served hserved
    refine ⟨hnumbered, ?_, ?_, hbalance, ?_, hclosed', fun hp o hhead b hwaits => ?_, ?_⟩
    · rw [hbegun, hsent]
      exact hw.begunSent
    · intro x hx
      rw [hsent]
      exact hw.orderSent x (ho.subset hx)
    · rw [hsent, hbegun, hb]
      exact hw.waiting
    · rw [hb] at hwaits
      -- one of the channels has nothing to take
      rcases hpast hp with hc | hb | ho'
      · rw [(hw.closed hc).2] at hwaits
        cases hwaits
      · rw [hb] at hwaits
        cases hwaits
      · rw [ho', List.suffix_nil] at ho
        rw [ho] at hhead
        cases hhead
    · rw [DepositsFirst, hbegun, hsent]
      exact hw.first

theorem Waits.send {r : Request} (hw : t.Waits) (htag : r.tag = t.sent.length)
    (hprompt : r.isBalance = false → t.pastPoll = true → t.orderRx = [] → t.balanceRx = [])
    (h : t.send r = some t') : t'.Waits := by
  have hnumbered : ∀ x ∈ t.sent ++ [r], x.tag < (t.sent ++ [r]).length := by
    rw [List.forall_mem_append, List.forall_mem_singleton, List.length_append, List.length_singleton]
    exact ⟨fun x hx => by have := hw.numbered x hx; omega, by omega⟩
  -- what has been begun is older than the new request
  have hfirst : ∀ l o, l ++ [o] <+: t.begun → o.isBalance = false →
      ∀ b ∈ t.sent ++ [r], b.isBalance = true → b.tag < o.tag → b ∈ l := by
    intro l o hinit ho b hb hbal hlt
    rcases List.mem_append.1 hb with hb | hb
    · exact hw.first l o hinit ho b hb hbal hlt
    · obtain rfl := List.mem_singleton.1 hb
      have := hw.numbered o (hw.begunSent o (hinit.subset (by simp)))
      omega
  rw [EngineThread.send] at h
  split_ifs at h with hbal hopen hopen
  · obtain rfl := Option.some.inj h
    refine ⟨hnumbered, ?_, ?_, ?_, ?_, fun hc => ?_, fun hp o hhead b hb => ?_, hfirst⟩
    · exact fun x hx => List.mem_append_left _ (hw.begunSent x hx)
    · exact fun x hx => List.mem_append_left _ (hw.orderSent x hx)
    · simp only [List.forall_mem_append, List.forall_mem_singleton]
      exact ⟨fun x hx => ⟨List.mem_append_left _ (hw.balanceSent x hx).1, (hw.balanceSent x hx).2⟩, by simp, hbal⟩
    · simp only [List.forall_mem_append, List.forall_mem_singleton]
      exact ⟨fun x hx hx' => (hw.waiting x hx hx').imp_right (List.mem_append_left _), fun _ => .inr (by simp)⟩
    · have hclosed := (hw.closed hc).1
      rw [hopen.1] at hclosed
      cases hclosed
    · rcases List.mem_append.1 hb with hb | hb
      · exact hw.older hp o hhead b hb
      · obtain rfl := List.mem_singleton.1 hb
        rw [htag]
        exact hw.numbered o (hw.orderSent o (List.mem_of_mem_head? hhead))
  · obtain rfl := Option.some.inj h
    refine ⟨hnumbered, ?_, ?_, ?_, ?_, hw.closed, fun hp o hhead b hb => ?_, hfirst⟩
    · exact fun x hx => List.mem_append_left _ (hw.begunSent x hx)
    · simp only [List.forall_mem_append, List.forall_mem_singleton]
      exact ⟨fun x hx => List.mem_append_left _ (hw.orderSent x hx), by simp⟩
    · exact fun x hx => ⟨List.mem_append_left _ (hw.balanceSent x hx).1, (hw.balanceSent x hx).2⟩
    · simp only [List.forall_mem_append, List.forall_mem_singleton]
      exact ⟨hw.waiting, fun hr => absurd hr hbal⟩
    · -- an order command that becomes the head finds no balance command waiting
      cases hrx : t.orderRx with
      | nil =>
        rw [hprompt (by simpa using hbal) hp hrx] at hb
        cases hb
      | cons x xs =>
        rw [hrx] at hhead
        exact hw.older hp o (by rw [hrx]; exact hhead) b hb

end EngineThread

/-- **Deposits go first** in a run in which no order command is put on an empty order channel
while the thread waits on it with a balance command waiting: in every state, what was sent on
the balance channel before an order command was begun before it. -/
theorem depositsFirst_run {dv : Decimal → Decimal → Decimal} {engine : Engine} {as : List LoopAction} {t : EngineThread}
    (hprompt : Machine.Each (EngineThread.step dv) EngineThread.Prompt (.start engine) as)
    (hrun : Machine.run (EngineThread.step dv) (.start engine) as = some t) : t.DepositsFirst := by
  have hwaits : t.Waits := by
    refine Machine.run_inv_of ?_ (EngineThread.Waits.start engine) hprompt hrun
    intro s a s' hw hp h
    cases a with
    | send command => exact hw.send (r := ⟨s.sent.length, command⟩) rfl hp h
    | closeOrders =>
      obtain rfl := Option.some.inj h
      exact ⟨hw.numbered, hw.begunSent, hw.orderSent, hw.balanceSent, hw.waiting, hw.closed, hw.older, hw.first⟩
    | closeBalance =>
      obtain rfl := Option.some.inj h
      exact ⟨hw.numbered, hw.begunSent, hw.orderSent, hw.balanceSent, hw.waiting, fun hc => ⟨rfl, (hw.closed hc).2⟩,
        hw.older, hw.first⟩
    | stop =>
      obtain rfl := Option.some.inj h
      exact ⟨hw.numbered, hw.begunSent, hw.orderSent, hw.balanceSent, hw.waiting, hw.closed, hw.older, hw.first⟩
    | pass =>
      obtain ⟨⟨u, out⟩, hpass, rfl⟩ := Option.map_eq_some_iff.1 h
      exact hw.pass hpass
  exact hwaits.first

/-- A deposit and then an order command reach a thread at the top of its loop; it serves both. -/
theorem depositsFirst_run_top :
    ∃ t, Machine.run (EngineThread.step (· / ·)) (.start (.start .new))
        [.send (.updateBalance 1 "USDT" 5), .send (.getBalance 1 "USDT"), .pass, .pass, .pass, .pass] = some t ∧
      t.begun.map Request.tag = [0, 1] ∧ t.DepositsFirst := by
  obtain ⟨t, hrun, hbegun⟩ := Machine.exists_run (EngineThread.step (· / ·)) (.start (.start .new))
    [.send (.updateBalance 1 "USDT" 5), .send (.getBalance 1 "USDT"), .pass, .pass, .pass, .pass]
    (fun t => t.begun.map Request.tag = [0, 1]) (by decide +kernel)
  exact ⟨t, hrun, hbegun, depositsFirst_run (by decide +kernel) hrun⟩

/-- The thread has polled the balance channel and waits on the order channel. A deposit and
then an order command come in, and the order command is begun while the deposit waits. -/
theorem depositsFirst_not :
    ∃ t, Machine.run (EngineThread.step (· / ·)) (.start (.start .new))
        [.pass, .send (.updateBalance 1 "USDT" 5), .send (.getBalance 1 "USDT"), .pass] = some t ∧
      t.begun.map Request.tag = [1] ∧ ¬ t.DepositsFirst := by
  obtain ⟨t, hrun, hbegun, hsent⟩ := Machine.exists_run (EngineThread.step (· / ·)) (.start (.start .new))
    [.pass, .send (.updateBalance 1 "USDT" 5), .send (.getBalance 1 "USDT"), .pass]
    (fun t => t.begun = [⟨1, .getBalance 1 "USDT"⟩] ∧ ⟨0, .updateBalance 1 "USDT" 5⟩ ∈ t.sent) (by decide +kernel)
  refine ⟨t, hrun, by rw [hbegun]; rfl, fun h => ?_⟩
  have hfirst := h [] ⟨1, .getBalance 1 "USDT"⟩ (by rw [hbegun]; exact List.prefix_rfl) rfl _ hsent rfl (by decide)
  cases hfirst

end CexEngine
