import CexEngine.Spec.Wal

/-!
# Reading a log

* `SerdeJson.Lawful`: what the log relies on.
* `SerdeJson.readAll_lines`: **whole lines are read back**, with or without the last terminator.
* `SerdeJson.readAll_cut`: a line that is cut fails all of the file.
-/

namespace CexEngine

/-! ## Texts and bytes -/

theorem fromUTF8?_utf8 (text : String) : String.fromUTF8? ⟨(utf8 text).toArray⟩ = some text := by
  have hbytes : (⟨(utf8 text).toArray⟩ : ByteArray) = text.toByteArray := rfl
  unfold String.fromUTF8?
  rw [hbytes, dif_pos text.isValidUTF8]
  rfl

theorem utf8_of_fromUTF8? {line : Bytes} {text : String} (h : String.fromUTF8? ⟨line.toArray⟩ = some text) :
    utf8 text = line := by
  unfold String.fromUTF8? at h
  split_ifs at h
  rw [← Option.some.inj h]
  rfl

namespace SerdeJson

/-- What the log relies on: an entry is one line without raw line ends, `from_str` undoes
`to_string`, and no proper prefix of an entry's text is parsed. -/
structure Lawful (json : SerdeJson) : Prop where
  oneLine : ∀ entry text, json.toString entry = .ok text → newline ∉ utf8 text ∧ carriageReturn ∉ utf8 text
  inverts : ∀ entry text, json.toString entry = .ok text → json.fromStr text = .ok entry
  noPrefix : ∀ entry text, json.toString entry = .ok text → ∀ part, utf8 part <+: utf8 text → part ≠ text →
    ∃ e, json.fromStr part = .error e

variable {json : SerdeJson}

/-- The bytes of an entry. -/
def bytes (json : SerdeJson) (entry : WalEntry) : Bytes :=
  match json.toString entry with
  | .ok text => utf8 text
  | .error _ => []

/-- The file with these entries. -/
def lines (json : SerdeJson) (entries : List WalEntry) : Bytes := Lines.join newline (entries.map json.bytes)

theorem lines_concat (json : SerdeJson) (entries : List WalEntry) (entry : WalEntry) :
    json.lines (entries ++ [entry]) = json.lines entries ++ (json.bytes entry ++ [newline]) := by
  unfold lines
  rw [List.map_append, List.map_singleton, Lines.join_concat]

/-- Entries that are written. -/
def Serializes (json : SerdeJson) (entries : List WalEntry) : Prop :=
  ∀ entry ∈ entries, ∃ text, json.toString entry = .ok text

theorem bytes_of_ok {entry : WalEntry} {text : String} (h : json.toString entry = .ok text) :
    json.bytes entry = utf8 text := by
  unfold bytes
  rw [h]

/-! ## Reading -/

section Reading

variable {entry : WalEntry} {entries : List WalEntry} {text : String} {tail : Bytes}

theorem readLine_text (hjson : json.Lawful) (h : json.toString entry = .ok text) (lineNum : ℕ) :
    json.readLine lineNum (utf8 text) = .ok entry := by
  unfold readLine
  rw [fromUTF8?_utf8]
  dsimp only
  rw [hjson.inverts entry text h]

/-- A cut text is not UTF-8 or does not parse. -/
theorem readLine_cut (hjson : json.Lawful) (h : json.toString entry = .ok text) (htail : tail <+: utf8 text)
    (hne : tail ≠ utf8 text) (lineNum : ℕ) : ∃ e, json.readLine lineNum tail = .error e := by
  unfold readLine
  cases hpart : String.fromUTF8? ⟨tail.toArray⟩ with
  | none => exact ⟨_, rfl⟩
  | some part =>
    obtain rfl := utf8_of_fromUTF8? hpart
    obtain ⟨e, he⟩ := hjson.noPrefix entry text h part htail fun heq => hne (by rw [heq])
    dsimp only
    rw [he]
    exact ⟨_, rfl⟩

theorem stripCarriageReturn_of_not_mem {line : Bytes} (h : carriageReturn ∉ line) : stripCarriageReturn line = line := by
  unfold stripCarriageReturn
  rw [if_neg fun hlast => h (List.mem_of_getLast? hlast)]

/-- The lines of the file. -/
theorem fileLines_lines (hjson : json.Lawful) (h : json.Serializes entries) (htail : newline ∉ tail) :
    fileLines (json.lines entries ++ tail) = entries.map json.bytes ++ if tail = [] then [] else [tail] := by
  have hline : ∀ line ∈ entries.map json.bytes, newline ∉ line ∧ carriageReturn ∉ line := by
    intro line hmem
    obtain ⟨entry, hentry, rfl⟩ := List.mem_map.1 hmem
    obtain ⟨text, htext⟩ := h entry hentry
    rw [bytes_of_ok htext]
    exact hjson.oneLine entry text htext
  have hstrip : (entries.map json.bytes).map stripCarriageReturn = (entries.map json.bytes).map id :=
    List.map_congr_left fun line hmem => stripCarriageReturn_of_not_mem (hline line hmem).2
  unfold fileLines lines
  rw [Lines.split_join (fun line hmem => (hline line hmem).1) htail]
  dsimp only
  rw [hstrip, List.map_id]

theorem readLines_append (hjson : json.Lawful) (h : json.Serializes entries) (lineNum : ℕ) (done : List WalEntry)
    (rest : List Bytes) : json.readLines lineNum done (entries.map json.bytes ++ rest) =
      json.readLines (lineNum + entries.length) (done ++ entries) rest := by
  induction entries generalizing lineNum done with
  | nil => simp
  | cons entry entries ih =>
    obtain ⟨hentry, hentries⟩ := List.forall_mem_cons.1 h
    obtain ⟨text, htext⟩ := hentry
    rw [List.map_cons, List.cons_append, readLines, bytes_of_ok htext, readLine_text hjson htext]
    refine (ih hentries (lineNum + 1) (done ++ [entry])).trans ?_
    rw [List.append_assoc, List.singleton_append, List.length_cons, Nat.add_right_comm, Nat.add_assoc]

/-- **Whole lines are read back.** -/
theorem readAll_lines (hjson : json.Lawful) (h : json.Serializes entries) :
    json.readAll (.ok (json.lines entries)) = .ok entries := by
  have hlines := fileLines_lines hjson h (show newline ∉ ([] : Bytes) from List.not_mem_nil)
  rw [List.append_nil, if_pos rfl] at hlines
  unfold readAll
  dsimp only
  rw [hlines, readLines_append hjson h]
  rfl

/-- The last line need not be terminated. -/
theorem readAll_text (hjson : json.Lawful) (h : json.Serializes entries) (htext : json.toString entry = .ok text)
    (hne : utf8 text ≠ []) : json.readAll (.ok (json.lines entries ++ utf8 text)) = .ok (entries ++ [entry]) := by
  unfold readAll
  dsimp only
  rw [fileLines_lines hjson h (hjson.oneLine entry text htext).1, if_neg hne, readLines_append hjson h, readLines,
    readLine_text hjson htext]
  rfl

/-- **A cut text fails all.** -/
theorem readAll_cut (hjson : json.Lawful) (h : json.Serializes entries) (htext : json.toString entry = .ok text)
    (htail : tail <+: utf8 text) (hnil : tail ≠ []) (hne : tail ≠ utf8 text) :
    ∃ e, json.readAll (.ok (json.lines entries ++ tail)) = .error e := by
  have hnewline : newline ∉ tail := fun hmem => (hjson.oneLine entry text htext).1 (htail.subset hmem)
  unfold readAll
  dsimp only
  rw [fileLines_lines hjson h hnewline, if_neg hnil, readLines_append hjson h, readLines]
  obtain ⟨e, he⟩ := readLine_cut hjson htext htail hne (0 + entries.length)
  rw [he]
  exact ⟨e, rfl⟩

end Reading

end SerdeJson

end CexEngine
