import CexEngine.Proof.WalWriter

/-!
# Reading a log after a crash

A log is what the appends wrote, whole lines but for writes that fail, and a crash leaves a prefix of it.

* `WalLog.run_inv`: at most `k - 1` acknowledged entries are not synced.
* `WalLog.recovers_of_whole`: **what a crash leaves is read back, without at most the last `k - 1`
  acknowledged entries**, if nothing of it was written after an unfinished line and it does not end
  inside the text of an entry. There `read_all` fails, and the good entries before are lost.
-/

namespace CexEngine

/-! ## The lines of a log -/

namespace Appended

variable {json : SerdeJson}

/-- All of the line was written. -/
def Whole (json : SerdeJson) (a : Appended) : Prop := a.wrote = json.bytes a.entry ++ [newline]

instance (json : SerdeJson) (a : Appended) : Decidable (a.Whole json) := inferInstanceAs (Decidable (_ = _))

/-- All of the line, or a part of the text and no acknowledgement. -/
def Sound (json : SerdeJson) (a : Appended) : Prop :=
  ∃ text, json.toString a.entry = .ok text ∧ (a.Whole json ∨ a.acked = false ∧ a.wrote <+: utf8 text)

theorem Sound.whole {a : Appended} (h : a.Sound json) (hacked : a.acked = true) : a.Whole json := by
  obtain ⟨text, -, hwhole | ⟨hfalse, -⟩⟩ := h
  · exact hwhole
  · rw [hacked] at hfalse
    cases hfalse

theorem Whole.wrote_ne_nil {a : Appended} (h : a.Whole json) : a.wrote ≠ [] := by
  rw [Whole] at h
  rw [h]
  exact List.append_ne_nil_of_right_ne_nil _ (List.cons_ne_nil _ _)

/-- Whole lines, one after another. -/
theorem flatMap_wrote {appended : List Appended} (h : ∀ a ∈ appended, a.Whole json) :
    appended.flatMap Appended.wrote = json.lines (appended.map Appended.entry) := by
  unfold SerdeJson.lines Lines.join
  rw [List.map_map, List.flatMap_map]
  exact List.flatMap_congr h

end Appended

namespace WalLog

variable {json : SerdeJson} {k bound : ℕ} {log stopped : WalLog}

/-- What holds wherever the process stops: what was written is what the appends wrote, and the last
sync found all but what was written since, with at most `bound` acknowledged entries. -/
structure Kept (json : SerdeJson) (bound : ℕ) (log : WalLog) : Prop where
  sound : ∀ a ∈ log.appended, a.Sound json
  stream : log.stream = log.appended.flatMap Appended.wrote
  synced : ∃ before after, log.appended = before ++ after ∧
    log.writer.writer.synced = (before.flatMap Appended.wrote).length ∧ after.countP Appended.acked ≤ bound

/-- **The invariant** between two calls. -/
structure Inv (json : SerdeJson) (k : ℕ) (log : WalLog) : Prop where
  interval : log.writer.syncInterval = k
  kept : log.Kept json (min log.writer.entriesSinceSync (k - 1))

theorem Kept.mono {bound' : ℕ} (h : log.Kept json bound) (hle : bound ≤ bound') : log.Kept json bound' := by
  obtain ⟨before, after, happ, hsynced, hcount⟩ := h.synced
  exact ⟨h.sound, h.stream, before, after, happ, hsynced, hcount.trans hle⟩

/-- The writer may change what is not in the stream. -/
theorem Kept.writer {w : WalWriter} (h : log.Kept json bound) (hstream : w.writer.stream = log.stream)
    (hsynced : w.writer.synced = log.writer.writer.synced ∨ w.writer.synced = log.stream.length) :
    ({ log with writer := w } : WalLog).Kept json bound := by
  refine ⟨h.sound, hstream.trans h.stream, ?_⟩
  rcases hsynced with hsynced | hsynced
  · obtain ⟨before, after, happ, hbefore, hcount⟩ := h.synced
    exact ⟨before, after, happ, hsynced.trans hbefore, hcount⟩
  · exact ⟨log.appended, [], (List.append_nil _).symm, by rw [hsynced, h.stream], Nat.zero_le _⟩

section Record

variable {w : WalWriter} {entry : WalEntry} {text : String} {part : Bytes}

theorem record_eq (hstream : w.writer.stream = log.stream ++ part) (entry : WalEntry) (acked : Bool) :
    log.record w entry acked = ⟨w, log.appended ++ [⟨entry, part, acked⟩]⟩ := by
  rw [record, hstream, List.drop_left]

/-- One more entry, synced or not. -/
theorem Kept.record (h : log.Kept json bound) (htext : json.toString entry = .ok text)
    (hstream : w.writer.stream = log.stream ++ part) (acked : Bool)
    (hpart : part = utf8 text ++ [newline] ∨ acked = false ∧ part <+: utf8 text)
    (hsynced : w.writer.synced = log.writer.writer.synced ∨ w.writer.synced = (log.stream ++ part).length) :
    (log.record w entry acked).Kept json (bound + acked.toNat) := by
  rw [record_eq hstream]
  have hpieces : (log.appended ++ [(⟨entry, part, acked⟩ : Appended)]).flatMap Appended.wrote = log.stream ++ part := by
    rw [List.flatMap_append, List.flatMap_singleton, h.stream]
  refine ⟨?_, hstream.trans hpieces.symm, ?_⟩
  · intro a hmem
    rcases List.mem_append.1 hmem with hmem | hmem
    · exact h.sound a hmem
    · obtain rfl := List.mem_singleton.1 hmem
      refine ⟨text, htext, hpart.imp_left fun hline => ?_⟩
      rw [Appended.Whole, SerdeJson.bytes_of_ok htext]
      exact hline
  rcases hsynced with hsynced | hsynced
  · obtain ⟨before, after, happ, hbefore, hcount⟩ := h.synced
    refine ⟨before, after ++ [⟨entry, part, acked⟩], ?_, hsynced.trans hbefore, ?_⟩
    · rw [← List.append_assoc, ← happ]
    · rw [List.countP_append, List.countP_singleton]
      cases acked
      · exact hcount
      · exact Nat.add_le_add_right hcount 1
  · exact ⟨_, [], (List.append_nil _).symm, by rw [hpieces]; exact hsynced, Nat.zero_le _⟩

/-- After a completed sync no acknowledged entry is at stake. -/
theorem Kept.record_synced (h : log.Kept json bound) (htext : json.toString entry = .ok text)
    (hstream : w.writer.stream = log.stream ++ part) (hpart : part = utf8 text ++ [newline])
    (hsynced : w.writer.synced = (log.stream ++ part).length) (acked : Bool) (bound' : ℕ) :
    (log.record w entry acked).Kept json bound' := by
  obtain ⟨hsound, hstream', -⟩ := h.record htext hstream acked (.inl hpart) (.inr hsynced)
  refine ⟨hsound, hstream', (log.record w entry acked).appended, [], (List.append_nil _).symm, ?_, Nat.zero_le _⟩
  rw [← hstream', record_eq hstream]
  exact hsynced.trans (congrArg List.length hstream.symm)

end Record

theorem new_inv (json : SerdeJson) (k : ℕ) : (new k).Inv json k :=
  ⟨rfl, fun _ hmem => (List.not_mem_nil hmem).elim, rfl, [], [], rfl, rfl, Nat.zero_le _⟩

/-- What a call to `append` leaves of an entry that is serialized. -/
theorem Inv.append {entry : WalEntry} {text : String} (h : log.Inv json k) (htext : json.toString entry = .ok text)
    (disk : Disk) : (log.record (log.writer.append json entry disk).1 entry
      (log.writer.append json entry disk).2.isOk).Inv json k := by
  obtain ⟨part, hstream, hinterval, hresult⟩ := log.writer.append_cases htext disk
  refine ⟨hinterval.trans h.interval, ?_⟩
  rcases hresult with ⟨hok, hpart, hsynced | ⟨hsynced, hsince, hdue⟩⟩ | ⟨herror, hpart, hsynced, hsince⟩
  · exact h.kept.record_synced htext hstream hpart hsynced _ _
  · -- one more acknowledged, and the sync interval is not reached
    rw [hok]
    refine (h.kept.record htext hstream true (.inl hpart) (.inl hsynced)).mono ?_
    rw [h.interval] at hdue
    change min _ (k - 1) + 1 ≤ min (log.writer.append json entry disk).1.entriesSinceSync (k - 1)
    omega
  · -- not acknowledged
    rw [herror]
    refine (h.kept.record htext hstream false (hpart.imp_right fun hpart => ⟨rfl, hpart⟩) (.inl hsynced)).mono ?_
    exact min_le_min_right _ hsince

theorem Inv.sync (h : log.Inv json k) (disk : Disk) :
    ({ log with writer := (log.writer.sync disk).1 } : WalLog).Inv json k := by
  obtain ⟨hstream, hinterval, hresult⟩ := log.writer.sync_cases disk
  refine ⟨hinterval.trans h.interval, ?_⟩
  rcases hresult with ⟨-, hsynced⟩ | ⟨-, hsynced, hsince⟩
  · obtain ⟨hsound, hpieces, -⟩ := h.kept.writer hstream (.inr hsynced)
    exact ⟨hsound, hpieces, log.appended, [], (List.append_nil _).symm, by rw [← hpieces, stream, hstream]; exact hsynced,
      Nat.zero_le _⟩
  · rw [hsince]
    exact h.kept.writer hstream (.inl hsynced)

/-- An `append` is recorded if the entry is serialized. -/
theorem entries_append (json : SerdeJson) (log : WalLog) (entry : WalEntry) (disk : Disk) :
    (log.call json (.append entry disk)).entries =
      log.entries ++ if (json.toString entry).isOk then [entry] else [] := by
  unfold call entries
  dsimp only
  split_ifs
  · rw [record, List.map_append]
    rfl
  · rw [List.append_nil]

/-- A call keeps the invariant. -/
theorem call_inv (h : log.Inv json k) (c : WalCall) : (log.call json c).Inv json k := by
  cases c with
  | append entry disk =>
    unfold call
    dsimp only
    cases htext : json.toString entry with
    | error e =>
      rw [if_neg (show ¬ (Except.error e : Except EngineError String).isOk = true from Bool.false_ne_true),
        WalWriter.append_error htext]
      exact h
    | ok text =>
      rw [if_pos (show (Except.ok text : Except EngineError String).isOk = true from rfl)]
      exact h.append htext disk
  | sync disk => exact h.sync disk

/-- **A run keeps the invariant.** -/
theorem run_inv (json : SerdeJson) (k : ℕ) (calls : List WalCall) : (run json k calls).Inv json k := by
  unfold run
  induction calls using List.reverseRecOn with
  | nil => exact new_inv json k
  | append_singleton calls c ih =>
    rw [List.foldl_append]
    exact call_inv ih c

/-- **Wherever the process stops.** -/
theorem Inv.stops (h : log.Inv json k) (hstop : log.Stops json stopped) : stopped.Kept json (k - 1) := by
  have hkept := h.kept.mono (min_le_right _ (k - 1))
  cases hstop with
  | between => exact hkept
  | wroteText entry text disk htext =>
    obtain ⟨part, hwrites, hpart, -⟩ := log.writer.writeText_cases text disk
    exact hkept.record htext hwrites.stream false (.inr ⟨rfl, hpart⟩) (.inl hwrites.synced)
  | wroteLine entry text disk htext =>
    obtain ⟨part, hwrites, hresult⟩ := log.writer.writeLine_cases text disk
    refine hkept.record htext hwrites.stream false ?_ (.inl hwrites.synced)
    rcases hresult with ⟨-, hline⟩ | ⟨-, hpart⟩
    · exact .inl hline
    · exact .inr ⟨rfl, hpart⟩
  | synced entry text disk htext =>
    -- as after the call, but for the answer
    obtain ⟨part, hstream, -, hresult⟩ := log.writer.append_cases htext disk
    rcases hresult with ⟨-, hpart, hsynced | ⟨hsynced, -⟩⟩ | ⟨-, hpart, hsynced, -⟩
    · exact hkept.record_synced htext hstream hpart hsynced _ _
    · exact hkept.record htext hstream false (.inl hpart) (.inl hsynced)
    · exact hkept.record htext hstream false (hpart.imp_right fun hpart => ⟨rfl, hpart⟩) (.inl hsynced)

/-! ## Recovery -/

/-- `read_all` returns the first entries that were appended, without at most the last `bound`
acknowledged ones. -/
def Recovers (json : SerdeJson) (log : WalLog) (bound : ℕ) (content : Bytes) : Prop :=
  ∃ entries, json.readAll (.ok content) = .ok entries ∧ entries <+: log.entries ∧
    (log.appended.drop entries.length).countP Appended.acked ≤ bound

/-- No byte of the file was written after an append that did not write all of its line. -/
def WholeLines (json : SerdeJson) (log : WalLog) (content : Bytes) : Prop :=
  ∀ before a after, log.appended = before ++ a :: after →
    ((before ++ [a]).flatMap Appended.wrote).length < content.length → a.Whole json

/-- The file ends inside the text of an entry. -/
def EndsInside (json : SerdeJson) (log : WalLog) (content : Bytes) : Prop :=
  ∃ before entry after text tail, log.entries = before ++ entry :: after ∧ json.toString entry = .ok text ∧
    content = json.lines before ++ tail ∧ tail <+: utf8 text ∧ tail ≠ [] ∧ tail ≠ utf8 text

section Recovery

variable {content : Bytes}

theorem Kept.serializes (h : log.Kept json bound) {before : List WalEntry} (hbefore : before <+: log.entries) :
    json.Serializes before := by
  intro entry hmem
  obtain ⟨a, ha, rfl⟩ := List.mem_map.1 (hbefore.subset hmem)
  obtain ⟨text, htext, -⟩ := h.sound a ha
  exact ⟨text, htext⟩

/-- At most `bound` acknowledged entries follow those that wrote what is left of the file. -/
theorem Kept.count_drop (h : log.Kept json bound) {n : ℕ}
    (hn : log.writer.writer.synced ≤ ((log.appended.take n).flatMap Appended.wrote).length) :
    (log.appended.drop n).countP Appended.acked ≤ bound := by
  obtain ⟨before, after, happ, hsynced, hcount⟩ := h.synced
  rw [happ, List.drop_append, List.countP_append]
  suffices hnone : (before.drop n).countP Appended.acked = 0 by
    rw [hnone, Nat.zero_add]
    exact ((List.drop_sublist _ _).countP_le).trans hcount
  rcases Nat.lt_or_ge n before.length with hlt | hle
  · -- what the sync found and the file lacks wrote nothing
    have htake : (log.appended.take n).flatMap Appended.wrote = (before.take n).flatMap Appended.wrote := by
      rw [happ, List.take_append_of_le_length hlt.le]
    have hsplit : before.flatMap Appended.wrote =
        (before.take n).flatMap Appended.wrote ++ (before.drop n).flatMap Appended.wrote := by
      rw [← List.flatMap_append, List.take_append_drop]
    rw [htake, hsynced, hsplit, List.length_append] at hn
    have hnil : (before.drop n).flatMap Appended.wrote = [] := List.eq_nil_of_length_eq_zero (by omega)
    refine List.countP_eq_zero.2 fun a hmem hacked => ?_
    have hsound := h.sound a (by rw [happ]; exact List.mem_append_left _ (List.mem_of_mem_drop hmem))
    exact (hsound.whole hacked).wrote_ne_nil (List.flatMap_eq_nil_iff.1 hnil a hmem)
  · rw [List.drop_of_length_le hle, List.countP_nil]

/-- What a file ends with, where all lines before are whole. -/
theorem Kept.recovers (h : log.Kept json bound) (hjson : json.Lawful) (hleaves : log.Leaves content)
    (hwhole : log.WholeLines json content) (hends : ¬ log.EndsInside json content) : log.Recovers json bound content := by
  by_cases hempty : content = []
  · -- nothing is left
    subst hempty
    refine ⟨[], SerdeJson.readAll_lines hjson fun _ hmem => (List.not_mem_nil hmem).elim, ⟨_, List.nil_append _⟩, ?_⟩
    exact h.count_drop (hleaves.2.trans (Nat.zero_le _))
  obtain ⟨before, a, after, tail, happ, hcontent, htail, hnil⟩ :=
    Lines.prefix_flatMap (h.stream ▸ hleaves.1) hempty
  have hlines : before.flatMap Appended.wrote = json.lines (before.map Appended.entry) := by
    refine Appended.flatMap_wrote fun b hb => ?_
    obtain ⟨first, rest, rfl⟩ := List.append_of_mem hb
    refine hwhole first b (rest ++ a :: after) (by rw [happ]; simp) ?_
    have hlen : 0 < tail.length := List.length_pos_iff.2 hnil
    rw [hcontent]
    simp only [List.flatMap_append, List.flatMap_cons, List.flatMap_nil, List.length_append, List.length_nil]
    omega
  have hentries : log.entries = before.map Appended.entry ++ a.entry :: after.map Appended.entry := by
    rw [entries, happ, List.map_append, List.map_cons]
  have hbefore := h.serializes (hentries ▸ List.prefix_append _ _)
  have hnext : before.map Appended.entry ++ [a.entry] <+: log.entries :=
    ⟨after.map Appended.entry, by rw [hentries, List.append_assoc, List.singleton_append]⟩
  -- the file has nothing of what comes after this entry
  have hcount : (log.appended.drop (before.map Appended.entry ++ [a.entry]).length).countP Appended.acked ≤ bound := by
    refine h.count_drop (hleaves.2.trans ?_)
    have htake : log.appended.take (before.map Appended.entry ++ [a.entry]).length = before ++ [a] := by
      have hlen : (before ++ [a]).length = (before.map Appended.entry ++ [a.entry]).length := by simp
      rw [happ, List.append_cons before]
      exact List.take_left' hlen
    rw [htake, hcontent, List.flatMap_append, List.flatMap_singleton, List.length_append, List.length_append]
    exact Nat.add_le_add_left htail.length_le _
  obtain ⟨text, htext, hwrote⟩ := h.sound a (by rw [happ]; simp)
  have hline : a.wrote <+: utf8 text ++ [newline] := by
    rcases hwrote with hline | ⟨-, hpart⟩
    · rw [Appended.Whole, SerdeJson.bytes_of_ok htext] at hline
      exact hline ▸ List.prefix_rfl
    · exact hpart.trans (List.prefix_append _ _)
  rw [hlines] at hcontent
  rcases List.prefix_concat_iff.1 (htail.trans hline) with rfl | htail
  · -- it ends after a line
    refine ⟨_, ?_, hnext, hcount⟩
    rw [hcontent, ← SerdeJson.bytes_of_ok htext, ← SerdeJson.lines_concat]
    exact SerdeJson.readAll_lines hjson (h.serializes hnext)
  by_cases hne : tail = utf8 text
  · -- it ends after a text, without the newline
    refine ⟨_, ?_, hnext, hcount⟩
    rw [hcontent, hne]
    exact SerdeJson.readAll_text hjson hbefore htext (hne ▸ hnil)
  · exact absurd ⟨_, a.entry, _, text, tail, hentries, htext, hcontent, htail, hnil, hne⟩ hends

/-- A cut text fails all, whatever was written before it. -/
theorem Kept.not_recovers (h : log.Kept json bound) (hjson : json.Lawful) (hends : log.EndsInside json content) :
    ¬ log.Recovers json bound content := by
  rintro ⟨entries, hread, -⟩
  obtain ⟨before, entry, after, text, tail, hentries, htext, rfl, htail, hnil, hne⟩ := hends
  have hbefore := h.serializes (hentries ▸ List.prefix_append before (entry :: after))
  obtain ⟨e, he⟩ := SerdeJson.readAll_cut hjson hbefore htext htail hnil hne
  rw [he] at hread
  cases hread

/-- **What a crash leaves is read back** where no byte of it was written after an unfinished line and
it does not end inside a text. Where it does end inside a text, it is not. -/
theorem recovers_of_whole (hjson : json.Lawful) (k : ℕ) (calls : List WalCall) {stopped : WalLog}
    (hstop : (run json k calls).Stops json stopped) {content : Bytes} (hleaves : stopped.Leaves content) :
    (stopped.WholeLines json content ∧ ¬ stopped.EndsInside json content → stopped.Recovers json (k - 1) content) ∧
      (stopped.EndsInside json content → ¬ stopped.Recovers json (k - 1) content) := by
  have hkept := (run_inv json k calls).stops hstop
  exact ⟨fun h => hkept.recovers hjson hleaves h.1 h.2, hkept.not_recovers hjson⟩

end Recovery

/-! ## One entry -/

def cancelEntry : WalEntry := .orderCancelled 1 1 0

/-- Its JSON. -/
def cancelText : String :=
  "\x7b\"OrderCancelled\":\x7b\"order_id\":1,\"user_id\":1,\"timestamp\":0\x7d\x7d"

/-- `serde_json` on this entry. -/
def cancelJson : SerdeJson where
  toString entry := if entry = cancelEntry then .ok cancelText else .error (.message "another entry")
  fromStr text := if text = cancelText then .ok cancelEntry else .error (.message "EOF while parsing an object")

theorem cancelJson_text {entry : WalEntry} {text : String} (h : cancelJson.toString entry = .ok text) :
    entry = cancelEntry ∧ text = cancelText := by
  unfold cancelJson at h
  dsimp only at h
  split_ifs at h with hentry
  exact ⟨hentry, (Except.ok.inj h).symm⟩

theorem cancelJson_lawful : cancelJson.Lawful where
  oneLine entry text h := by
    rw [(cancelJson_text h).2]
    decide
  inverts entry text h := by
    obtain ⟨rfl, rfl⟩ := cancelJson_text h
    unfold cancelJson
    dsimp only
    rw [if_pos rfl]
  noPrefix entry text h part _ hne := by
    rw [(cancelJson_text h).2] at hne
    exact ⟨_, if_neg hne⟩

/-- The disk takes everything. -/
def syncs : Disk := ⟨(.all, .all), (.all, .all), .all, .ok ()⟩

/-- Only the newline is lost. -/
theorem recovers_without_newline :
    (run cancelJson 2 [.append cancelEntry syncs]).Recovers cancelJson (2 - 1) (utf8 cancelText) := by
  refine (recovers_of_whole cancelJson_lawful 2 [.append cancelEntry syncs] .between
    ⟨⟨[newline], by decide +kernel⟩, by decide +kernel⟩).1 ⟨?_, ?_⟩
  · intro before a after happ _
    have happ' : before ++ a :: after = [⟨cancelEntry, utf8 cancelText ++ [newline], true⟩] := by
      rw [← happ]
      decide +kernel
    rcases List.append_eq_singleton_iff.1 happ' with ⟨-, hcons⟩ | ⟨-, hcons⟩
    · obtain ⟨rfl, -⟩ := List.cons_eq_cons.1 hcons
      decide +kernel
    · cases hcons
  · rintro ⟨before, entry, after, text, tail, hentries, htext, hcontent, -, -, hne⟩
    have hentries' : before ++ entry :: after = [cancelEntry] := hentries.symm
    obtain rfl : before = [] := by
      cases before with
      | nil => rfl
      | cons e before => simp at hentries'
    rw [(cancelJson_text htext).2] at hne
    exact hne hcontent.symm

/-- One byte of the second entry, and the first is not read back, though it is synced. -/
theorem recovers_not_cut : ¬ ∀ (json : SerdeJson), json.Lawful → ∀ k, 1 ≤ k → ∀ (calls : List WalCall)
    (stopped : WalLog), (run json k calls).Stops json stopped → ∀ content, stopped.Leaves content →
      stopped.Recovers json (k - 1) content := by
  intro h
  obtain ⟨entries, hread, -⟩ := h cancelJson cancelJson_lawful 1 le_rfl [.append cancelEntry syncs] _
    (.wroteText cancelEntry cancelText syncs rfl) (cancelJson.lines [cancelEntry] ++ [123])
    ⟨⟨(utf8 cancelText).tail, by decide +kernel⟩, by decide +kernel⟩
  have hok : (cancelJson.readAll (.ok (cancelJson.lines [cancelEntry] ++ [123]))).isOk = true := by
    rw [hread]
    rfl
  exact absurd hok (by decide +kernel)

end WalLog

end CexEngine
