import CexEngine.Lib.Lines
import CexEngine.Spec.BalanceCache

/-!
# The write-ahead log

`engine/wal.rs`: a `WalWriter` appends every entry as a line of JSON and syncs the file every
`sync_interval` entries, and a `WalReader` reads the entries back. `serde_json` is a parameter, and
the answers of the file are given to each call.

Last the process that holds the writer, and what is left of its file when it stops.
-/

namespace CexEngine

/-- A `timestamp` is in milliseconds. -/
inductive WalEntry where
  | orderCreated (orderId : OrderId) (userId : UserId) (orderType : String) (baseMint quoteMint : Mint)
      (price : Option String) (amount : String) (timestamp : Int64)
  | balanceLocked (userId : UserId) (mint : Mint) (amount : String) (timestamp : Int64)
  | tradeExecuted (buyOrderId sellOrderId : OrderId) (buyerId sellerId : UserId) (price amount : String)
      (baseMint quoteMint : Mint) (timestamp : Int64)
  | balanceUpdated (userId : UserId) (mint : Mint) (available locked : String) (timestamp : Int64)
  | orderCancelled (orderId : OrderId) (userId : UserId) (timestamp : Int64)
  deriving DecidableEq

abbrev Bytes := List UInt8

/-- The bytes of a Rust `String`. -/
def utf8 (text : String) : Bytes := text.toUTF8.data.toList

/-- `serde_json::to_string` and `serde_json::from_str`, on entries. -/
structure SerdeJson where
  toString : WalEntry → Except EngineError String
  fromStr : String → Except EngineError WalEntry

/-- `'\n'` -/
def newline : UInt8 := 10

/-- `'\r'` -/
def carriageReturn : UInt8 := 13

/-! ## `BufWriter<File>` -/

/-- `BufWriter::new` allocates 8 KB. -/
def bufferCapacity : ℕ := 8192

/-- What the system answers to bytes that are written to the file: it takes them, or it fails after some. -/
inductive WriteAnswer where
  | all
  | fails (after : ℕ) (e : EngineError)

/-- How many of the bytes get into the file, and the result. -/
def WriteAnswer.taken (answer : WriteAnswer) (bytes : Bytes) : ℕ × Except EngineError Unit :=
  match answer with
  | .all => (bytes.length, .ok ())
  | .fails after e => if after < bytes.length then (after, .error e) else (bytes.length, .ok ())

/-- A file, the bytes that wait in the buffer, and how much of the file the last completed sync found. -/
structure LogFile where
  file : Bytes
  buffer : Bytes
  synced : ℕ

namespace LogFile

/-- What was written, in the file or still in the buffer. -/
def stream (f : LogFile) : Bytes := f.file ++ f.buffer

/-- `flush_buf`: a failure leaves the rest in the buffer. -/
def flushBuf (f : LogFile) (answer : WriteAnswer) : LogFile × Except EngineError Unit :=
  let r := answer.taken f.buffer
  ({ f with file := f.file ++ f.buffer.take r.1, buffer := f.buffer.drop r.1 }, r.2)

/-- `write_all`: bytes that do not fit into the buffer flush it first, and bytes that never fit go
to the file. A failure there loses the rest of them. -/
def writeAll (f : LogFile) (bytes : Bytes) (flush direct : WriteAnswer) : LogFile × Except EngineError Unit :=
  if bytes.length < bufferCapacity - f.buffer.length then ({ f with buffer := f.buffer ++ bytes }, .ok ())
  else
    let r := if bytes.length > bufferCapacity - f.buffer.length then f.flushBuf flush else (f, .ok ())
    match r.2 with
    | .error e => (r.1, .error e)
    | .ok () =>
      if bytes.length ≥ bufferCapacity then
        let t := direct.taken bytes
        ({ r.1 with file := r.1.file ++ bytes.take t.1 }, t.2)
      else ({ r.1 with buffer := r.1.buffer ++ bytes }, .ok ())

end LogFile

/-! ## `WalWriter` -/

/-- What the system answers to a call: to the flush and the write of `write_all`, for the text and
for the newline, and to the flush and the `fsync` of a sync. -/
structure Disk where
  text : WriteAnswer × WriteAnswer
  newline : WriteAnswer × WriteAnswer
  flush : WriteAnswer
  syncAll : Except EngineError Unit

structure WalWriter where
  writer : LogFile
  entriesSinceSync : ℕ
  syncInterval : ℕ

namespace WalWriter

/-- On a fresh file. -/
def new (syncInterval : ℕ) : WalWriter := ⟨⟨[], [], 0⟩, 0, syncInterval⟩

def sync (w : WalWriter) (disk : Disk) : WalWriter × Except EngineError Unit :=
  let r := w.writer.flushBuf disk.flush
  match r.2 with
  | .error e => ({ w with writer := r.1 }, .error (.context "Failed to flush WAL buffer" e))
  | .ok () =>
    match disk.syncAll with
    | .error e => ({ w with writer := r.1 }, .error (.context "Failed to sync WAL to disk" e))
    | .ok () => ({ w with writer := { r.1 with synced := r.1.file.length }, entriesSinceSync := 0 }, .ok ())

/-- The text of `writeln!`. -/
def writeText (w : WalWriter) (text : String) (disk : Disk) : WalWriter × Except EngineError Unit :=
  let r := w.writer.writeAll (utf8 text) disk.text.1 disk.text.2
  ({ w with writer := r.1 }, r.2)

/-- `writeln!`: the text, then the newline. -/
def writeLine (w : WalWriter) (text : String) (disk : Disk) : WalWriter × Except EngineError Unit :=
  let r := w.writeText text disk
  match r.2 with
  | .error e => (r.1, .error e)
  | .ok () =>
    let s := r.1.writer.writeAll [newline] disk.newline.1 disk.newline.2
    ({ r.1 with writer := s.1 }, s.2)

def append (json : SerdeJson) (w : WalWriter) (entry : WalEntry) (disk : Disk) : WalWriter × Except EngineError Unit :=
  match json.toString entry with
  | .error e => (w, .error (.context "Failed to serialize WAL entry" e))
  | .ok text =>
    let r := w.writeLine text disk
    match r.2 with
    | .error e => (r.1, .error (.context "Failed to write to WAL buffer" e))
    | .ok () =>
      let w := { r.1 with entriesSinceSync := r.1.entriesSinceSync + 1 }
      if w.entriesSinceSync ≥ w.syncInterval then w.sync disk else (w, .ok ())

end WalWriter

/-! ## `WalReader` -/

/-- A line without the `\r` of `\r\n`. -/
def stripCarriageReturn (line : Bytes) : Bytes := if line.getLast? = some carriageReturn then line.dropLast else line

/-- `BufRead::lines`, before the lines are decoded. The last one need not be terminated. -/
def fileLines (content : Bytes) : List Bytes :=
  let r := Lines.split newline content
  r.1.map stripCarriageReturn ++ if r.2 = [] then [] else [r.2]

namespace SerdeJson

variable (json : SerdeJson)

/-- One pass over a line. -/
def readLine (lineNum : ℕ) (line : Bytes) : Except EngineError WalEntry :=
  match String.fromUTF8? ⟨line.toArray⟩ with
  | none =>
    .error (.context s!"Failed to read line {lineNum + 1}" (.message "stream did not contain valid UTF-8"))
  | some text =>
    match json.fromStr text with
    | .error e => .error (.context s!"Failed to parse WAL entry at line {lineNum + 1}" e)
    | .ok entry => .ok entry

def readLines : ℕ → List WalEntry → List Bytes → Except EngineError (List WalEntry)
  | _, entries, [] => .ok entries
  | lineNum, entries, line :: lines => do
    let entry ← json.readLine lineNum line
    readLines (lineNum + 1) (entries ++ [entry]) lines

/-- `read_all`, given what `File::open` answers. -/
def readAll (file : Except EngineError Bytes) : Except EngineError (List WalEntry) :=
  match file with
  | .error e => .error (.context "Failed to open WAL file for reading" e)
  | .ok content => json.readLines 0 [] (fileLines content)

end SerdeJson

/-! ## The process -/

/-- An entry given to `append`, what of its line was written, and whether `append` returned `Ok`. -/
structure Appended where
  entry : WalEntry
  wrote : Bytes
  acked : Bool
  deriving DecidableEq

/-- A writer, and what it was given to append. -/
structure WalLog where
  writer : WalWriter
  appended : List Appended

/-- A call to the writer. -/
inductive WalCall where
  | append (entry : WalEntry) (disk : Disk)
  | sync (disk : Disk)

namespace WalLog

def new (syncInterval : ℕ) : WalLog := ⟨.new syncInterval, []⟩

def stream (log : WalLog) : Bytes := log.writer.writer.stream

def entries (log : WalLog) : List WalEntry := log.appended.map Appended.entry

/-- One more entry, of which `w` has written what is new in its stream. -/
def record (log : WalLog) (w : WalWriter) (entry : WalEntry) (acked : Bool) : WalLog :=
  ⟨w, log.appended ++ [⟨entry, w.writer.stream.drop log.stream.length, acked⟩]⟩

variable (json : SerdeJson)

/-- An entry that is not serialized is not written. -/
def call (log : WalLog) : WalCall → WalLog
  | .append entry disk =>
    let r := log.writer.append json entry disk
    if (json.toString entry).isOk then log.record r.1 entry r.2.isOk else { log with writer := r.1 }
  | .sync disk => { log with writer := (log.writer.sync disk).1 }

/-- The log after some calls. -/
def run (syncInterval : ℕ) (calls : List WalCall) : WalLog := calls.foldl (call json) (new syncInterval)

/-- Where the process stops: between two calls, or in an `append` that does not return. -/
inductive Stops (log : WalLog) : WalLog → Prop
  | between : Stops log log
  | wroteText (entry : WalEntry) (text : String) (disk : Disk) (h : json.toString entry = .ok text) :
    Stops log (log.record (log.writer.writeText text disk).1 entry false)
  | wroteLine (entry : WalEntry) (text : String) (disk : Disk) (h : json.toString entry = .ok text) :
    Stops log (log.record (log.writer.writeLine text disk).1 entry false)
  | synced (entry : WalEntry) (text : String) (disk : Disk) (h : json.toString entry = .ok text) :
    Stops log (log.record (log.writer.append json entry disk).1 entry false)

/-- What may be in the file then: what the last sync found, and any more that was written. -/
def Leaves (log : WalLog) (content : Bytes) : Prop :=
  content <+: log.stream ∧ log.writer.writer.synced ≤ content.length

end WalLog

end CexEngine
