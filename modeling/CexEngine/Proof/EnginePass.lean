import CexEngine.Spec.EngineThread

/-!
# One pass of the engine thread

* `pass_cases`: what the thread can do from one read of a channel to the next: serve a request
  of one of the channels, or go on with what it has.
* `Accounted`: what has been begun or waits was sent, each request once.
-/

namespace CexEngine

namespace EngineThread

variable {dv : Decimal → Decimal → Decimal} {t t' : EngineThread}

/-- The request in the hands of the thread, with its reply. -/
def inHand (t : EngineThread) : List Handled :=
  match t.phase with
  | .handling done _ => [done]
  | _ => []

/-- The requests that have been served, in that order; the last one may not have its reply yet. -/
def served (t : EngineThread) : List Handled := t.handled ++ t.inHand

/-- The requests whose handling has begun. -/
def begun (t : EngineThread) : List Request := t.served.map Handled.request

/-- What the thread has still to send to the DB writer. -/
def dbOut (t : EngineThread) : List DbCommand :=
  match t.phase with
  | .handling _ cmds => cmds
  | _ => []

/-- The thread has polled the balance channel and not yet read the order channel. -/
def pastPoll (t : EngineThread) : Bool :=
  match t.phase with
  | .orders => true
  | .again => true
  | _ => false

/-- A request is handled. -/
structure Serves (dv : Decimal → Decimal → Decimal) (t : EngineThread) (r : Request) (out : List DbCommand)
    (t' : EngineThread) : Prop where
  engine : t'.engine = t.engine.step dv r.command
  served : t'.served = t.served ++ [⟨r, (t.engine.handle dv r.command).2⟩]
  idle : t.dbOut = []
  out : out = []
  dbOut : t'.dbOut = t.engine.dbCommands dv r.command
  notPast : t'.pastPoll = false

/-- What a pass takes from the channels. -/
inductive Takes (dv : Decimal → Decimal → Decimal) (t : EngineThread) (out : List DbCommand) (t' : EngineThread) :
    Prop where
  /-- The balance channel is served, at the top of the loop. -/
  | balance (r : Request) (hrx : t.balanceRx = r :: t'.balanceRx) (ho : t'.orderRx = t.orderRx)
      (hserves : Serves dv t r out t')
  /-- The order channel is served, past the poll. -/
  | order (r : Request) (hpast : t.pastPoll = true) (hrx : t.orderRx = r :: t'.orderRx)
      (hb : t'.balanceRx = t.balanceRx) (hserves : Serves dv t r out t')
  /-- Nothing is served; at most an order command is dropped on the way out. Past the poll there
  is nothing to take from one of the channels. -/
  | idle (ho : t'.orderRx <:+ t.orderRx) (hb : t'.balanceRx = t.balanceRx) (hengine : t'.engine = t.engine)
      (hserved : t'.served = t.served) (hout : t.dbOut = out ++ t'.dbOut)
      (hpast : t'.pastPoll = true → t.balanceClosed = true ∨ t.balanceRx = [] ∨ t.orderRx = [])

/-- **What a pass can do.** -/
structure Passes (dv : Decimal → Decimal → Decimal) (t : EngineThread) (out : List DbCommand) (t' : EngineThread) :
    Prop where
  sent : t'.sent = t.sent
  connected : t'.balanceConnected = t.balanceConnected
  closed : t'.balanceClosed = true → t.balanceClosed = true ∨ t.balanceConnected = false ∧ t.balanceRx = []
  takes : Takes dv t out t'

/-- The thread has nothing in its hands. -/
def Free (t : EngineThread) : Prop := t.inHand = [] ∧ t.dbOut = []

theorem Free.served (h : t.Free) : t.served = t.handled := by rw [EngineThread.served, h.1, List.append_nil]

theorem toOrders_free : t.toOrders.Free := by
  rw [Free, toOrders, inHand, dbOut]
  cases t.orderClosed <;> exact ⟨rfl, rfl⟩

theorem handle_serves {u : EngineThread} {r : Request} (hfree : t.Free) (hengine : u.engine = t.engine)
    (hhandled : u.handled = t.handled) : Serves dv t r [] (u.handle dv r) where
  engine := by rw [← hengine]; rfl
  served := by
    rw [hfree.served, ← hhandled, ← hengine]
    rfl
  idle := hfree.2
  out := rfl
  dbOut := by rw [← hengine]; rfl
  notPast := rfl

theorem received_passes {r : Request} {rest : List Request} (hrx : t.orderRx = r :: rest) (hpast : t.pastPoll = true)
    (hfree : t.Free) : Passes dv t [] (t.received dv r rest) := by
  rw [received]
  dsimp only
  split_ifs with hrun
  · exact ⟨rfl, rfl, .inl, .order r hpast hrx rfl (handle_serves hfree rfl rfl)⟩
  · refine ⟨rfl, rfl, .inl, .idle ?_ rfl rfl ?_ ?_ (fun h => by cases h)⟩
    · rw [hrx]
      exact List.suffix_cons r rest
    · rw [hfree.served]
      exact List.append_nil _
    · rw [hfree.2]
      rfl

/-- A pass that only moves on. -/
theorem idle_passes (hfree : t.Free) (hfree' : t'.Free) (hchannels : t'.orderRx = t.orderRx ∧ t'.balanceRx = t.balanceRx)
    (hsame : t'.engine = t.engine ∧ t'.handled = t.handled ∧ t'.sent = t.sent ∧ t'.balanceConnected = t.balanceConnected)
    (hclosed : t'.balanceClosed = true → t.balanceClosed = true ∨ t.balanceConnected = false ∧ t.balanceRx = [])
    (hpast : t'.pastPoll = true → t.balanceClosed = true ∨ t.balanceRx = [] ∨ t.orderRx = []) : Passes dv t [] t' where
  sent := hsame.2.2.1
  connected := hsame.2.2.2
  closed := hclosed
  takes := by
    refine .idle ?_ hchannels.2 hsame.1 ?_ ?_ hpast
    · exact hchannels.1 ▸ List.suffix_rfl
    · rw [hfree.served, hfree'.served, hsame.2.1]
    · rw [hfree.2, hfree'.2]
      rfl

theorem handling_passes {done : Handled} {cmds out : List DbCommand} (hphase : t.phase = .handling done cmds)
    (h : t.pass dv = some (t', out)) : Passes dv t out t' := by
  rw [pass.eq_def, hphase] at h
  cases cmds with
  | nil =>
    -- the reply
    obtain ⟨rfl, rfl⟩ := Prod.mk.inj (Option.some.inj h)
    refine ⟨rfl, rfl, .inl, .idle List.suffix_rfl rfl rfl ?_ ?_ (fun h => by cases h)⟩
    · simp [served, inHand, hphase]
    · simp [dbOut, hphase]
  | cons cmd cmds =>
    obtain ⟨rfl, rfl⟩ := Prod.mk.inj (Option.some.inj h)
    refine ⟨rfl, rfl, .inl, .idle List.suffix_rfl rfl rfl ?_ ?_ (fun h => by cases h)⟩
    · simp [served, inHand, hphase]
    · simp [dbOut, hphase]

theorem top_passes {out : List DbCommand} (hphase : t.phase = .top) (h : t.pass dv = some (t', out)) :
    Passes dv t out t' := by
  have hfree : t.Free := ⟨by rw [inHand, hphase], by rw [dbOut, hphase]⟩
  rw [pass.eq_def, hphase] at h
  dsimp only at h
  split_ifs at h with hrun hclosed hbalance hconnected
  · obtain ⟨rfl, rfl⟩ := Prod.mk.inj (Option.some.inj h)
    exact idle_passes hfree ⟨rfl, rfl⟩ ⟨rfl, rfl⟩ ⟨rfl, rfl, rfl, rfl⟩ .inl (fun h => by cases h)
  · obtain ⟨rfl, rfl⟩ := Prod.mk.inj (Option.some.inj h)
    exact idle_passes hfree ⟨rfl, rfl⟩ ⟨rfl, rfl⟩ ⟨rfl, rfl, rfl, rfl⟩ .inl (fun h => by cases h)
  · obtain ⟨rfl, rfl⟩ := Prod.mk.inj (Option.some.inj h)
    exact idle_passes hfree toOrders_free ⟨rfl, rfl⟩ ⟨rfl, rfl, rfl, rfl⟩ .inl fun _ => .inl hbalance
  · split at h
    · rename_i r rest hrx
      obtain ⟨rfl, rfl⟩ := Prod.mk.inj (Option.some.inj h)
      exact ⟨rfl, rfl, .inl, .balance r hrx rfl (handle_serves hfree rfl rfl)⟩
    · rename_i hrx
      obtain ⟨rfl, rfl⟩ := Prod.mk.inj (Option.some.inj h)
      exact idle_passes hfree toOrders_free ⟨rfl, rfl⟩ ⟨rfl, rfl, rfl, rfl⟩ .inl fun _ => .inr (.inl hrx)
  · split at h
    · rename_i r rest hrx
      obtain ⟨rfl, rfl⟩ := Prod.mk.inj (Option.some.inj h)
      exact ⟨rfl, rfl, .inl, .balance r hrx rfl (handle_serves hfree rfl rfl)⟩
    · -- empty and without a sender: found closed
      rename_i hrx
      obtain ⟨rfl, rfl⟩ := Prod.mk.inj (Option.some.inj h)
      exact idle_passes hfree toOrders_free ⟨rfl, rfl⟩ ⟨rfl, rfl, rfl, rfl⟩
        (fun _ => .inr ⟨by simpa using hconnected, hrx⟩) fun _ => .inr (.inl hrx)

/-- The two reads of the order channel: they differ in where the loop goes on. -/
theorem orders_passes {out : List DbCommand} (hphase : t.phase = .orders ∨ t.phase = .again)
    (h : t.pass dv = some (t', out)) : Passes dv t out t' := by
  have hfree : t.Free := by
    rcases hphase with hphase | hphase
    · exact ⟨by rw [inHand, hphase], by rw [dbOut, hphase]⟩
    · exact ⟨by rw [inHand, hphase], by rw [dbOut, hphase]⟩
  have hpast : t.pastPoll = true := by
    rcases hphase with hphase | hphase
    · rw [pastPoll, hphase]
    · rw [pastPoll, hphase]
  cases hrx : t.orderRx with
  | cons r rest =>
    have hread : t.pass dv = some (t.received dv r rest, []) := by
      rcases hphase with hphase | hphase
      · rw [pass.eq_def, hphase, hrx]
      · rw [pass.eq_def, hphase, hrx]
    obtain ⟨rfl, rfl⟩ := Prod.mk.inj (Option.some.inj (hread.symm.trans h))
    exact received_passes hrx hpast hfree
  | nil =>
    rcases hphase with hphase | hphase
    all_goals
      rw [pass.eq_def, hphase, hrx] at h
      dsimp only at h
      split_ifs at h
      all_goals
        obtain ⟨rfl, rfl⟩ := Prod.mk.inj (Option.some.inj h)
        exact idle_passes hfree ⟨rfl, rfl⟩ ⟨hrx.symm, rfl⟩ ⟨rfl, rfl, rfl, rfl⟩ .inl fun _ => .inr (.inr hrx)

theorem pass_cases {out : List DbCommand} (h : t.pass dv = some (t', out)) : Passes dv t out t' := by
  cases hphase : t.phase with
  | exited =>
    rw [pass.eq_def, hphase] at h
    cases h
  | handling done cmds => exact handling_passes hphase h
  | top => exact top_passes hphase h
  | orders => exact orders_passes (.inl hphase) h
  | again => exact orders_passes (.inr hphase) h

/-- The flag is left alone, and replies stay where they are. -/
theorem pass_frame (h : t.pass dv = some (t', out)) : t'.running = t.running ∧ t.handled <+: t'.handled := by
  rw [pass.eq_def] at h
  split at h
  · cases h
  · obtain ⟨rfl, -⟩ := Prod.mk.inj (Option.some.inj h)
    exact ⟨rfl, List.prefix_append _ _⟩
  · obtain ⟨rfl, -⟩ := Prod.mk.inj (Option.some.inj h)
    exact ⟨rfl, List.prefix_rfl⟩
  · split_ifs at h
    · obtain ⟨rfl, -⟩ := Prod.mk.inj (Option.some.inj h)
      exact ⟨rfl, List.prefix_rfl⟩
    · obtain ⟨rfl, -⟩ := Prod.mk.inj (Option.some.inj h)
      exact ⟨rfl, List.prefix_rfl⟩
    · obtain ⟨rfl, -⟩ := Prod.mk.inj (Option.some.inj h)
      exact ⟨rfl, List.prefix_rfl⟩
    all_goals
      split at h
      all_goals
        obtain ⟨rfl, -⟩ := Prod.mk.inj (Option.some.inj h)
        exact ⟨rfl, List.prefix_rfl⟩
  all_goals
    split at h
    · obtain ⟨rfl, -⟩ := Prod.mk.inj (Option.some.inj h)
      rw [received]
      dsimp only
      split_ifs <;> exact ⟨rfl, List.prefix_rfl⟩
    · split_ifs at h <;> obtain ⟨rfl, -⟩ := Prod.mk.inj (Option.some.inj h) <;> exact ⟨rfl, List.prefix_rfl⟩

theorem Serves.begun {r : Request} {out : List DbCommand} (h : Serves dv t r out t') : t'.begun = t.begun ++ [r] := by
  rw [EngineThread.begun, h.served, List.map_append]
  rfl

theorem begun_of_served (h : t'.served = t.served) : t'.begun = t.begun := by rw [begun, h, begun]

/-! ## What becomes of a request -/

theorem send_eq {r : Request} (h : t.send r = some t') :
    t'.sent = t.sent ++ [r] ∧ t'.engine = t.engine ∧ t'.phase = t.phase ∧ t'.handled = t.handled ∧
      (t'.orderRx ++ t'.balanceRx).Perm (t.orderRx ++ t.balanceRx ++ [r]) := by
  rw [send] at h
  split_ifs at h <;> obtain rfl := Option.some.inj h
  · exact ⟨rfl, rfl, rfl, rfl, by rw [List.append_assoc]⟩
  · refine ⟨rfl, rfl, rfl, rfl, ?_⟩
    dsimp only
    rw [List.append_assoc, List.append_assoc]
    exact List.Perm.append_left _ List.perm_append_comm

theorem served_send {r : Request} (h : t.send r = some t') : t'.served = t.served ∧ t'.dbOut = t.dbOut := by
  obtain ⟨-, -, hphase, hhandled, -⟩ := send_eq h
  rw [served, served, inHand, inHand, dbOut, dbOut, hphase, hhandled]
  exact ⟨rfl, rfl⟩

/-- What has been begun or waits was sent, each request once, and waits in its own channel. -/
structure Accounted (t : EngineThread) : Prop where
  once : (t.begun ++ (t.orderRx ++ t.balanceRx)).Subperm t.sent
  balance : ∀ r ∈ t.balanceRx, r.isBalance = true

theorem Accounted.start (engine : Engine) : (EngineThread.start engine).Accounted :=
  ⟨List.nil_subperm, fun _ hr => absurd hr List.not_mem_nil⟩

theorem Accounted.pass {out : List DbCommand} (ha : t.Accounted) (h : t.pass dv = some (t', out)) : t'.Accounted := by
  obtain ⟨hsent, -, -, htakes⟩ := pass_cases h
  cases htakes with
  | balance r hrx ho hserves =>
    refine ⟨?_, fun x hx => ha.balance x (by rw [hrx]; exact List.mem_cons_of_mem r hx)⟩
    rw [hsent]
    refine List.Perm.subperm ?_ |>.trans ha.once
    rw [hserves.begun, ho, hrx, List.append_assoc]
    apply List.Perm.append_left
    rw [List.singleton_append]
    exact List.perm_middle.symm
  | order r hpast hrx hb hserves =>
    refine ⟨?_, by rw [hb]; exact ha.balance⟩
    rw [hsent]
    refine List.Perm.subperm ?_ |>.trans ha.once
    rw [hserves.begun, hb, hrx, List.append_assoc]
    rfl
  | idle ho hb _ hserved =>
    refine ⟨?_, by rw [hb]; exact ha.balance⟩
    rw [hsent]
    refine List.Sublist.subperm ?_ |>.trans ha.once
    rw [begun_of_served hserved, hb]
    exact List.Sublist.append_left (List.Sublist.append_right ho.sublist _) _

theorem Accounted.send {r : Request} (ha : t.Accounted) (h : t.send r = some t') : t'.Accounted := by
  obtain ⟨hsent, -, -, -, hperm⟩ := send_eq h
  constructor
  · rw [hsent, begun_of_served (served_send h).1]
    refine List.Perm.subperm ?_ |>.trans ((List.subperm_append_right [r]).2 ha.once)
    rw [List.append_assoc]
    exact List.Perm.append_left _ hperm
  · rw [EngineThread.send] at h
    split_ifs at h with hbal <;> obtain rfl := Option.some.inj h
    · simp only [List.forall_mem_append, List.forall_mem_singleton]
      exact ⟨ha.balance, hbal⟩
    · exact ha.balance

/-- A request that waits has not been begun. -/
theorem Accounted.fresh (ha : t.Accounted) (hnodup : (t.sent.map Request.tag).Nodup) {r : Request}
    (hr : r ∈ t.orderRx ++ t.balanceRx) : r ∈ t.sent ∧ r.tag ∉ t.begun.map Request.tag := by
  obtain ⟨l, hperm, hsub⟩ := ha.once
  have hl : (l.map Request.tag).Nodup := hnodup.sublist (hsub.map _)
  rw [(hperm.map Request.tag).nodup_iff, List.map_append, List.nodup_append] at hl
  refine ⟨ha.once.subset (List.mem_append_right _ hr), fun hmem => ?_⟩
  exact hl.2.2 _ hmem _ (List.mem_map_of_mem hr) rfl

end EngineThread

end CexEngine
