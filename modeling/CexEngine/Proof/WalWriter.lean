import CexEngine.Proof.WalReader

/-!
# Writing a log

What was written is in the file or in the buffer of the `BufWriter`: a write adds to it, and a flush
leaves it as it is.

* `LogFile.writeAll_cases`: `write_all` writes all of the bytes, or it writes fewer and fails.
* `WalWriter.append_cases`: **`append` writes a line and succeeds, or it fails with the line or a part
  of its text written.**
-/

namespace CexEngine

theorem WriteAnswer.taken_cases (answer : WriteAnswer) (bytes : Bytes) :
    answer.taken bytes = (bytes.length, .ok ()) ∨
      ∃ after e, after < bytes.length ∧ answer.taken bytes = (after, .error e) := by
  unfold taken
  cases answer with
  | all => exact Or.inl rfl
  | fails after e =>
    dsimp only
    split_ifs with hafter
    · exact Or.inr ⟨after, e, hafter, rfl⟩
    · exact Or.inl rfl

namespace LogFile

variable {f : LogFile}

/-- A flush moves bytes, all of them if it succeeds. -/
theorem flushBuf_stream (f : LogFile) (answer : WriteAnswer) : (f.flushBuf answer).1.stream = f.stream := by
  unfold flushBuf stream
  dsimp only
  rw [List.append_assoc, List.take_append_drop]

theorem flushBuf_buffer {answer : WriteAnswer} (h : (f.flushBuf answer).2 = .ok ()) :
    (f.flushBuf answer).1.buffer = [] := by
  rcases answer.taken_cases f.buffer with hall | ⟨after, e, -, hfails⟩
  · unfold flushBuf
    dsimp only
    rw [hall, List.drop_length]
  · unfold flushBuf at h
    dsimp only at h
    rw [hfails] at h
    cases h

/-- After a successful flush the file has all. -/
theorem flushBuf_file {answer : WriteAnswer} (h : (f.flushBuf answer).2 = .ok ()) :
    (f.flushBuf answer).1.file = f.stream := by
  rw [← flushBuf_stream f answer, stream, flushBuf_buffer h, List.append_nil]

/-- `write_all` writes all of the bytes, or it writes fewer and fails. -/
theorem writeAll_cases (f : LogFile) (bytes : Bytes) (flush direct : WriteAnswer) :
    ∃ n, (f.writeAll bytes flush direct).1.stream = f.stream ++ bytes.take n ∧
      (f.writeAll bytes flush direct).1.synced = f.synced ∧
      ((f.writeAll bytes flush direct).2 = .ok () ∧ n = bytes.length ∨
        (∃ e, (f.writeAll bytes flush direct).2 = .error e) ∧ n < bytes.length) := by
  unfold writeAll
  by_cases hfits : bytes.length < bufferCapacity - f.buffer.length
  · rw [if_pos hfits]
    refine ⟨bytes.length, ?_, rfl, .inl ⟨rfl, rfl⟩⟩
    rw [List.take_length, stream, stream, List.append_assoc]
  rw [if_neg hfits]
  -- the buffer after the flush
  obtain ⟨r, hr, hstream, hsynced, hempty⟩ : ∃ r, (if bytes.length > bufferCapacity - f.buffer.length then f.flushBuf flush
        else (f, .ok ())) = r ∧ r.1.stream = f.stream ∧ r.1.synced = f.synced ∧
      (r.2 = .ok () → bufferCapacity ≤ bytes.length → r.1.buffer = []) ∧ (r.2 ≠ .ok () → 0 < bytes.length) := by
    refine ⟨_, rfl, ?_⟩
    split_ifs with hflush
    · exact ⟨f.flushBuf_stream flush, rfl, fun hok _ => flushBuf_buffer hok, fun _ => Nat.zero_lt_of_lt hflush⟩
    · refine ⟨rfl, rfl, fun _ hlong => List.eq_nil_of_length_eq_zero ?_, fun hok => absurd rfl hok⟩
      change f.buffer.length = 0
      unfold bufferCapacity at hflush hlong
      omega
  rw [hr]
  dsimp only
  cases hok : r.2 with
  | error e =>
    refine ⟨0, by rw [hstream, List.take_zero, List.append_nil], hsynced, .inr ⟨⟨e, rfl⟩, hempty.2 ?_⟩⟩
    rw [hok]
    exact fun h => nomatch h
  | ok _ =>
    dsimp only
    by_cases hlong : bytes.length ≥ bufferCapacity
    · -- straight to the file
      rw [if_pos hlong]
      have hfile : r.1.file = f.stream := by rw [← hstream, stream, hempty.1 hok hlong, List.append_nil]
      have hbuffer := hempty.1 hok hlong
      rcases direct.taken_cases bytes with hall | ⟨after, e, hafter, hfails⟩
      · refine ⟨bytes.length, ?_, hsynced, .inl ⟨by rw [hall], rfl⟩⟩
        rw [hall, stream]
        dsimp only
        rw [hfile, hbuffer, List.append_nil]
      · refine ⟨after, ?_, hsynced, .inr ⟨⟨e, by rw [hfails]⟩, hafter⟩⟩
        rw [hfails, stream]
        dsimp only
        rw [hfile, hbuffer, List.append_nil]
    · rw [if_neg hlong]
      refine ⟨bytes.length, ?_, hsynced, .inl ⟨rfl, rfl⟩⟩
      rw [List.take_length, ← hstream, stream, stream, List.append_assoc]

end LogFile

namespace WalWriter

/-- `part` is written, and nothing is synced or counted. -/
structure Writes (w w' : WalWriter) (part : Bytes) : Prop where
  stream : w'.writer.stream = w.writer.stream ++ part
  synced : w'.writer.synced = w.writer.synced
  entriesSinceSync : w'.entriesSinceSync = w.entriesSinceSync
  syncInterval : w'.syncInterval = w.syncInterval

variable {json : SerdeJson} {entry : WalEntry} {text : String}

theorem writeText_cases (w : WalWriter) (text : String) (disk : Disk) :
    ∃ part, w.Writes (w.writeText text disk).1 part ∧ part <+: utf8 text ∧
      ((w.writeText text disk).2 = .ok () → part = utf8 text) := by
  obtain ⟨n, hstream, hsynced, hresult⟩ := w.writer.writeAll_cases (utf8 text) disk.text.1 disk.text.2
  refine ⟨(utf8 text).take n, ⟨hstream, hsynced, rfl, rfl⟩, ⟨_, List.take_append_drop _ _⟩, fun hok => ?_⟩
  rcases hresult with ⟨-, rfl⟩ | ⟨⟨e, he⟩, -⟩
  · exact List.take_length
  · rw [writeText, he] at hok
    cases hok

/-- `writeln!` writes the line, or a part of the text and fails. -/
theorem writeLine_cases (w : WalWriter) (text : String) (disk : Disk) :
    ∃ part, w.Writes (w.writeLine text disk).1 part ∧
      ((w.writeLine text disk).2 = .ok () ∧ part = utf8 text ++ [newline] ∨
        (∃ e, (w.writeLine text disk).2 = .error e) ∧ part <+: utf8 text) := by
  obtain ⟨part, hwrites, hpart, hall⟩ := w.writeText_cases text disk
  unfold writeLine
  dsimp only
  cases htext : (w.writeText text disk).2 with
  | error e => exact ⟨part, hwrites, .inr ⟨⟨e, rfl⟩, hpart⟩⟩
  | ok _ =>
    obtain rfl := hall htext
    obtain ⟨n, hstream, hsynced, hresult⟩ :=
      (w.writeText text disk).1.writer.writeAll_cases [newline] disk.newline.1 disk.newline.2
    refine ⟨utf8 text ++ [newline].take n, ⟨?_, hsynced.trans hwrites.synced, hwrites.entriesSinceSync,
      hwrites.syncInterval⟩, ?_⟩
    · rw [hstream, hwrites.stream, List.append_assoc]
    rcases hresult with ⟨hok, rfl⟩ | ⟨he, hn⟩
    · exact .inl ⟨hok, rfl⟩
    · -- nothing of the newline
      obtain rfl : n = 0 := Nat.lt_one_iff.1 hn
      exact .inr ⟨he, by rw [List.take_zero, List.append_nil]⟩

/-- A sync completes, or nothing more is synced. -/
theorem sync_cases (w : WalWriter) (disk : Disk) :
    (w.sync disk).1.writer.stream = w.writer.stream ∧ (w.sync disk).1.syncInterval = w.syncInterval ∧
      ((w.sync disk).2 = .ok () ∧ (w.sync disk).1.writer.synced = w.writer.stream.length ∨
        (∃ e, (w.sync disk).2 = .error e) ∧ (w.sync disk).1.writer.synced = w.writer.synced ∧
          (w.sync disk).1.entriesSinceSync = w.entriesSinceSync) := by
  have hstream := w.writer.flushBuf_stream disk.flush
  unfold sync
  dsimp only
  cases hflush : (w.writer.flushBuf disk.flush).2 with
  | error e => exact ⟨hstream, rfl, .inr ⟨⟨_, rfl⟩, rfl, rfl⟩⟩
  | ok _ =>
    cases disk.syncAll with
    | error e => exact ⟨hstream, rfl, .inr ⟨⟨_, rfl⟩, rfl, rfl⟩⟩
    | ok _ => exact ⟨hstream, rfl, .inl ⟨rfl, congrArg List.length (LogFile.flushBuf_file hflush)⟩⟩

theorem sync_ok {w : WalWriter} {disk : Disk} (hflush : disk.flush = .all) (hsync : disk.syncAll = .ok ()) :
    (w.sync disk).2 = .ok () := by
  have htaken : (w.writer.flushBuf disk.flush).2 = .ok () := by rw [hflush]; rfl
  unfold sync
  dsimp only
  rw [htaken, hsync]

/-- What `append` can do with a text: it writes the line, and no sync is due or the sync completes;
or it fails, with the line or a part of the text written. -/
theorem append_cases (w : WalWriter) (h : json.toString entry = .ok text) (disk : Disk) :
    ∃ part, (w.append json entry disk).1.writer.stream = w.writer.stream ++ part ∧
      (w.append json entry disk).1.syncInterval = w.syncInterval ∧
      ((w.append json entry disk).2.isOk = true ∧ part = utf8 text ++ [newline] ∧
          ((w.append json entry disk).1.writer.synced = (w.writer.stream ++ part).length ∨
            (w.append json entry disk).1.writer.synced = w.writer.synced ∧
              (w.append json entry disk).1.entriesSinceSync = w.entriesSinceSync + 1 ∧
              w.entriesSinceSync + 1 < w.syncInterval) ∨
        (w.append json entry disk).2.isOk = false ∧ (part = utf8 text ++ [newline] ∨ part <+: utf8 text) ∧
          (w.append json entry disk).1.writer.synced = w.writer.synced ∧
          w.entriesSinceSync ≤ (w.append json entry disk).1.entriesSinceSync) := by
  obtain ⟨part, hwrites, hresult⟩ := w.writeLine_cases text disk
  refine ⟨part, ?_⟩
  unfold append
  rw [h]
  dsimp only
  rcases hresult with ⟨hok, hpart⟩ | ⟨⟨e, he⟩, hpart⟩
  · rw [hok]
    dsimp only
    split_ifs with hdue
    · obtain ⟨hstream, hinterval, hsync⟩ := sync_cases { (w.writeLine text disk).1 with
        entriesSinceSync := (w.writeLine text disk).1.entriesSinceSync + 1 } disk
      refine ⟨hstream.trans hwrites.stream, hinterval.trans hwrites.syncInterval, ?_⟩
      rcases hsync with ⟨hsync, hsynced⟩ | ⟨⟨e, he⟩, hsynced, hsince⟩
      · refine .inl ⟨by rw [hsync]; rfl, hpart, .inl ?_⟩
        rw [hsynced, ← hwrites.stream]
      · refine .inr ⟨by rw [he]; rfl, .inl hpart, hsynced.trans hwrites.synced, ?_⟩
        rw [hsince, ← hwrites.entriesSinceSync]
        exact Nat.le_succ _
    · refine ⟨hwrites.stream, hwrites.syncInterval, .inl ⟨rfl, hpart, .inr ⟨hwrites.synced, ?_, ?_⟩⟩⟩
      · rw [hwrites.entriesSinceSync]
      · rw [← hwrites.entriesSinceSync, ← hwrites.syncInterval]
        exact not_le.1 hdue
  · rw [he]
    exact ⟨hwrites.stream, hwrites.syncInterval, .inr ⟨rfl, .inr hpart, hwrites.synced, hwrites.entriesSinceSync.ge⟩⟩

theorem append_error {w : WalWriter} {e : EngineError} (h : json.toString entry = .error e) (disk : Disk) :
    w.append json entry disk = (w, .error (.context "Failed to serialize WAL entry" e)) := by
  unfold append
  rw [h]

end WalWriter

end CexEngine
