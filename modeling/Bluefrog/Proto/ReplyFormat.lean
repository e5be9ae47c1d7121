import Bluefrog.Lib.Wire
import Bluefrog.Proto.Udp

/-!
The replies of the protocol. A writer puts its reply at the front of the buffer that it is given, if there is room,
and leaves the bytes behind it; and a client that reads the format gets back what was written, and nothing else.
-/

open Rust Wire

namespace Bluefrog.Udp

/-- Writes an error response, a header of 8 bytes and the message, into `out`. -/
def writeError (out : List UInt8) (transactionId : UInt32) (message : List UInt8) : Option (List UInt8 × Nat) := do
  let out ← copyFromSlice out 0 4 (toBe32 3)
  let out ← copyFromSlice out 4 8 (toBe32 transactionId)
  let out ← copyFromSlice out 8 (8 + message.length) message
  some (out, 8 + message.length)

/-- A reply, as a client reads it. -/
inductive Reply where
  | connect (transactionId : UInt32) (connectionId : UInt64)
  | announce (transactionId interval leechers seeders : UInt32) (peers : List UInt8)
  | scrape (transactionId : UInt32) (entries : List (UInt32 × UInt32 × UInt32))
  | error (transactionId : UInt32) (message : List UInt8)
  deriving DecidableEq

/-- An entry of a scrape reply. -/
def entryFormat : Format (UInt32 × UInt32 × UInt32) := .pair .be32 (.pair .be32 .be32)

theorem write_entryFormat (e : UInt32 × UInt32 × UInt32) : entryFormat.write e = entryBytes e :=
  (List.append_assoc _ _ _).symm

theorem entryFormat_ne_nil (e : UInt32 × UInt32 × UInt32) : entryFormat.write e ≠ [] := by
  rw [write_entryFormat, ← List.length_pos_iff, length_entryBytes]
  decide

/-- What is behind the header of a connect, an announce and a scrape reply. -/
def connectFormat : Whole UInt64 := .single .be64

def announceFormat : Whole (UInt32 × UInt32 × UInt32 × List UInt8) := .cons .be32 (.cons .be32 (.cons .be32 .bytes))

def scrapeFormat : Whole (List (UInt32 × UInt32 × UInt32)) := .many entryFormat entryFormat_ne_nil

/-- The action and the transaction id. -/
def headerFormat : Format (UInt32 × UInt32) := .pair .be32 .be32

namespace Reply

def action : Reply → UInt32
  | connect _ _ => 0
  | announce _ _ _ _ _ => 1
  | scrape _ _ => 2
  | error _ _ => 3

def transactionId : Reply → UInt32
  | connect t _ | announce t _ _ _ _ | scrape t _ | error t _ => t

def body : Reply → List UInt8
  | connect _ connectionId => connectFormat.write connectionId
  | announce _ interval leechers seeders peers => announceFormat.write (interval, leechers, seeders, peers)
  | scrape _ entries => scrapeFormat.write entries
  | error _ message => message

def bytes (r : Reply) : List UInt8 := headerFormat.write (r.action, r.transactionId) ++ r.body

/-- Writes a reply into a buffer, with the number of bytes written. -/
def write (out : List UInt8) : Reply → Option (List UInt8 × Nat)
  | connect transactionId connectionId => (writeConnect out transactionId connectionId).map fun out => (out, 16)
  | announce transactionId interval leechers seeders peers =>
      writeAnnounce out transactionId interval leechers seeders peers
  | scrape transactionId entries => writeScrape out transactionId entries
  | error transactionId message => writeError out transactionId message

/-- The fields that a writer copies, one after the other. -/
def fields : Reply → List (List UInt8)
  | connect transactionId connectionId => [toBe32 0, toBe32 transactionId, toBe64 connectionId]
  | announce transactionId interval leechers seeders peers =>
      [toBe32 1, toBe32 transactionId, toBe32 interval, toBe32 leechers, toBe32 seeders, peers]
  | scrape transactionId entries =>
      [toBe32 2, toBe32 transactionId] ++ entries.flatMap fun e => [toBe32 e.1, toBe32 e.2.1, toBe32 e.2.2]
  | error transactionId message => [toBe32 3, toBe32 transactionId, message]

end Reply

/-- Reads what is behind a header. -/
def readBody (action transactionId : UInt32) (b : List UInt8) : Option Reply :=
  if action = 0 then (connectFormat.read b).map (.connect transactionId)
  else if action = 1 then
    (announceFormat.read b).map fun (interval, leechers, seeders, peers) =>
      .announce transactionId interval leechers seeders peers
  else if action = 2 then (scrapeFormat.read b).map (.scrape transactionId)
  else if action = 3 then some (.error transactionId b)
  else none

def readReply (b : List UInt8) : Option Reply := do
  let ((action, transactionId), b) ← headerFormat.read b
  readBody action transactionId b

theorem readBody_iff (action transactionId : UInt32) (b : List UInt8) (r : Reply) :
    readBody action transactionId b = some r ↔ r.action = action ∧ r.transactionId = transactionId ∧ b = r.body := by
  constructor
  · unfold readBody
    split_ifs with hconnect hannounce hscrape herror
    · intro h
      obtain ⟨connectionId, hread, rfl⟩ := Option.map_eq_some_iff.mp h
      exact ⟨hconnect.symm, rfl, (connectFormat.read_iff _ _).mp hread⟩
    · intro h
      obtain ⟨⟨interval, leechers, seeders, peers⟩, hread, rfl⟩ := Option.map_eq_some_iff.mp h
      exact ⟨hannounce.symm, rfl, (announceFormat.read_iff _ _).mp hread⟩
    · intro h
      obtain ⟨entries, hread, rfl⟩ := Option.map_eq_some_iff.mp h
      exact ⟨hscrape.symm, rfl, (scrapeFormat.read_iff _ _).mp hread⟩
    · rintro ⟨⟩
      exact ⟨herror.symm, rfl, rfl⟩
    · intro h
      cases h
  · rintro ⟨rfl, rfl, rfl⟩
    cases r with
    | connect transactionId connectionId => exact congrArg (Option.map _) (connectFormat.read_write connectionId)
    | announce transactionId interval leechers seeders peers =>
        simp only [readBody, Reply.action, Reply.transactionId, Reply.body, announceFormat.read_write]
        rfl
    | scrape transactionId entries => exact congrArg (Option.map _) (scrapeFormat.read_write entries)
    | error transactionId message => rfl

/-- The format of the replies. -/
def replyFormat : Whole Reply where
  write := Reply.bytes
  read := readReply
  read_iff b r := by
    simp only [readReply, Option.bind_eq_bind, Option.bind_eq_some_iff, Prod.exists, readBody_iff]
    constructor
    · rintro ⟨action, transactionId, body, hread, rfl, rfl, rfl⟩
      exact (headerFormat.read_iff _ _ _).mp hread
    · rintro rfl
      exact ⟨r.action, r.transactionId, r.body, headerFormat.read_write _ _, rfl, rfl, rfl⟩

section Writing

variable (out : List UInt8)

theorem writeEntries_eq_copyFields (entries : List (UInt32 × UInt32 × UInt32)) (acc : List UInt8 × Nat) :
    writeEntries entries acc =
      copyFields (entries.flatMap fun e => [toBe32 e.1, toBe32 e.2.1, toBe32 e.2.2]) acc := by
  induction entries generalizing acc with
  | nil => rfl
  | cons e entries ih =>
      obtain ⟨seeders, downloaded, leechers⟩ := e
      obtain ⟨out, off⟩ := acc
      simp only [List.flatMap_cons, List.cons_append, List.nil_append, writeEntries, copyFields, length_toBe32, ih,
        Nat.add_assoc, Nat.reduceAdd]

/-- A writer copies its fields. -/
theorem write_eq_copyFields (r : Reply) : r.write out = copyFields r.fields (out, 0) := by
  cases r with
  | connect transactionId connectionId =>
      simp only [Reply.write, Reply.fields, writeConnect, copyFields, length_toBe32, length_toBe64, Nat.zero_add,
        Nat.reduceAdd, Option.bind_eq_bind, Option.map_eq_bind, Option.bind_assoc, Function.comp_def]
  | announce transactionId interval leechers seeders peers =>
      simp only [Reply.write, Reply.fields, writeAnnounce, copyFields, length_toBe32, Nat.zero_add, Nat.reduceAdd]
  | scrape transactionId entries =>
      simp only [Reply.write, Reply.fields, writeScrape, List.cons_append, List.nil_append, copyFields, length_toBe32,
        Nat.zero_add, Nat.reduceAdd, writeEntries_eq_copyFields]
  | error transactionId message =>
      simp only [Reply.write, Reply.fields, writeError, copyFields, length_toBe32, Nat.zero_add, Nat.reduceAdd]

theorem flatten_fields (r : Reply) : r.fields.flatten = r.bytes := by
  cases r with
  | connect | announce | error =>
      simp only [Reply.fields, List.flatten_cons, List.flatten_nil, List.append_nil]
      rfl
  | scrape transactionId entries =>
      have hentries : (entries.flatMap fun e => [toBe32 e.1, toBe32 e.2.1, toBe32 e.2.2]).flatten =
          entries.flatMap entryFormat.write := by
        induction entries with
        | nil => rfl
        | cons e entries ih =>
            rw [List.flatMap_cons, List.flatMap_cons, List.flatten_append, ih]
            simp only [List.flatten_cons, List.flatten_nil, List.append_nil]
            rfl
      rw [Reply.fields, List.flatten_append, hentries]
      rfl

/-- **The replies are read as they are written.** A writer puts its reply at the front of any buffer that has room for
it, leaves what is behind it and says how long the reply is, and fails if there is no room; and a client that reads
the reply gets it back, and gets it from no other bytes. -/
theorem reply_exact (r : Reply) (out : List UInt8) :
    r.write out =
      (if r.bytes.length ≤ out.length then some (r.bytes ++ out.drop r.bytes.length, r.bytes.length) else none) ∧
    ∀ b, readReply b = some r ↔ b = r.bytes := by
  refine ⟨?_, fun b => replyFormat.read_iff b r⟩
  have hfields := copyFields_eq r.fields [] out
  rw [flatten_fields] at hfields
  rw [write_eq_copyFields]
  simpa only [List.nil_append, List.length_nil, Nat.zero_add] using hfields

end Writing

end Bluefrog.Udp
