import Bluefrog.Core.Store
import Bluefrog.Lib.Bencode

/-!
The bencode writer and the bodies of the HTTP responses. Each method of the writer appends to the
output buffer. The formatting of integers is a parameter; the source takes it from a library.
-/

open Rust BencodeFormat

namespace Bluefrog

/-- The formatting of an integer in decimal. -/
abbrev Itoa := UInt64 → List UInt8

/-- The documented behaviour of the formatting. -/
def Itoa.Formats (itoa : Itoa) : Prop := ∀ v, itoa v = decimal v.toNat

namespace Encoder

variable (itoa : Itoa)

def writeUint (v : UInt64) (out : List UInt8) : List UInt8 := out ++ itoa v

/-- Writes an integer, `i<n>e`. -/
def int (v : UInt64) (out : List UInt8) : List UInt8 := writeUint itoa v (out ++ ascii "i") ++ ascii "e"

/-- Writes a byte string, `<len>:<bytes>`. -/
def bytes (b : List UInt8) (out : List UInt8) : List UInt8 :=
  writeUint itoa (UInt64.ofNat b.length) out ++ ascii ":" ++ b

/-- Opens a dictionary. -/
def dict (out : List UInt8) : List UInt8 := out ++ ascii "d"

/-- Opens a list. -/
def list (out : List UInt8) : List UInt8 := out ++ ascii "l"

/-- Closes the current dictionary or list. -/
def end_ (out : List UInt8) : List UInt8 := out ++ ascii "e"

theorem dict_eq (out : List UInt8) : dict out = out ++ [100] := rfl

theorem list_eq (out : List UInt8) : list out = out ++ [108] := rfl

theorem end_eq (out : List UInt8) : end_ out = out ++ [101] := rfl

variable {itoa} (h : itoa.Formats)
include h

theorem int_eq (v : UInt64) (out : List UInt8) : int itoa v out = out ++ encode (.int v.toNat) := by
  rw [int, writeUint, h, encode, List.append_assoc, List.append_assoc]
  rfl

theorem bytes_eq {b : List UInt8} (hb : b.length < 2 ^ 64) (out : List UInt8) :
    bytes itoa b out = out ++ encodeBytes b := by
  rw [bytes, writeUint, h, UInt64.toNat_ofNat_of_lt' hb, encodeBytes, List.append_assoc, List.append_assoc]
  rfl

end Encoder

namespace Bencode

open Encoder

variable (itoa : Itoa)

/-- The counters of a torrent, as both responses write them. -/
def writeCounts (counts : Counts) (out : List UInt8) : List UInt8 :=
  out |> bytes itoa (ascii "complete")
    |> int itoa counts.complete.toUInt64
    |> bytes itoa (ascii "downloaded")
    |> int itoa counts.downloaded.toUInt64
    |> bytes itoa (ascii "incomplete")
    |> int itoa counts.incomplete.toUInt64

/-- The body of an announce response. -/
def announceResponse (out : List UInt8) (counts : Counts) (interval : UInt32) (peers4 peers6 : List UInt8) :
    List UInt8 :=
  dict out |> writeCounts itoa counts
    |> bytes itoa (ascii "interval")
    |> int itoa interval.toUInt64
    |> bytes itoa (ascii "min interval")
    |> int itoa (interval / 2).toUInt64
    |> bytes itoa (ascii "peers")
    |> bytes itoa peers4
    |> bytes itoa (ascii "peers6")
    |> bytes itoa peers6
    |> end_

/-- The body of a scrape response. -/
def scrapeResponse (out : List UInt8) (files : List (InfoHash × Counts)) : List UInt8 :=
  let out := dict out |> bytes itoa (ascii "files") |> dict
  let out := files.foldl (fun out file =>
    out |> bytes itoa file.1.toList |> dict |> writeCounts itoa file.2 |> end_) out
  end_ (end_ out)

/-- A failure body. -/
def failure (out reason : List UInt8) : List UInt8 :=
  dict out |> bytes itoa (ascii "failure reason") |> bytes itoa reason |> end_

/-- The counters of a torrent, as a reader of the responses sees them. -/
def countsEntries (counts : Counts) : List (List UInt8 × Value) :=
  [(ascii "complete", .int counts.complete.toNat), (ascii "downloaded", .int counts.downloaded.toNat),
    (ascii "incomplete", .int counts.incomplete.toNat)]

variable {itoa} (h : itoa.Formats)
include h

theorem writeCounts_eq (counts : Counts) (out : List UInt8) :
    writeCounts itoa counts out = out ++ encodeDict (countsEntries counts) := by
  simp only [writeCounts, int_eq h, UInt32.toNat_toUInt64]
  rw [bytes_eq h (by decide), bytes_eq h (by decide), bytes_eq h (by decide)]
  simp only [countsEntries, encodeDict, List.append_assoc, List.append_nil]

/-- What an announce body says. -/
theorem announceResponse_eq (out : List UInt8) (counts : Counts) (interval : UInt32) {peers4 peers6 : List UInt8}
    (h4 : peers4.length < 2 ^ 64) (h6 : peers6.length < 2 ^ 64) :
    announceResponse itoa out counts interval peers4 peers6 =
      out ++ encode (.dict (countsEntries counts ++
        [(ascii "interval", .int interval.toNat), (ascii "min interval", .int (interval / 2).toNat),
          (ascii "peers", .bytes peers4), (ascii "peers6", .bytes peers6)])) := by
  simp only [announceResponse, writeCounts_eq h, int_eq h, UInt32.toNat_toUInt64]
  rw [bytes_eq h h6, bytes_eq h (by decide), bytes_eq h h4, bytes_eq h (by decide), bytes_eq h (by decide),
    bytes_eq h (by decide)]
  simp only [dict_eq, end_eq, encodeDict, encodeDict_append, encode, List.nil_append, List.append_nil,
    List.append_assoc, List.cons_append]

/-- An announce body decodes to a dictionary that starts with the counters. -/
theorem decode_announceResponse (counts : Counts) (interval : UInt32) {peers4 peers6 : List UInt8}
    (h4 : peers4.length < 2 ^ 64) (h6 : peers6.length < 2 ^ 64) :
    ∃ entries, decode (announceResponse itoa [] counts interval peers4 peers6) =
      some (.dict (countsEntries counts ++ entries)) :=
  ⟨_, (congrArg decode (announceResponse_eq h [] counts interval h4 h6)).trans (decode_encode _)⟩

/-- The loop over the files appends one entry a file. -/
theorem foldl_files_eq (files : List (InfoHash × Counts)) (out : List UInt8) :
    files.foldl (fun out file => out |> bytes itoa file.1.toList |> dict |> writeCounts itoa file.2 |> end_) out =
      out ++ encodeDict (files.map fun file => (file.1.toList, .dict (countsEntries file.2))) := by
  induction files generalizing out with
  | nil => rw [List.foldl_nil, List.map_nil, encodeDict, List.append_nil]
  | cons file files ih =>
      have hlen : file.1.toList.length < 2 ^ 64 := by
        rw [file.1.toList_length]
        decide
      rw [List.foldl_cons, ih, bytes_eq h hlen, writeCounts_eq h, List.map_cons, encodeDict, encode]
      simp only [dict_eq, end_eq, List.append_assoc, List.cons_append, List.nil_append]

theorem scrapeResponse_eq (files : List (InfoHash × Counts)) :
    scrapeResponse itoa [] files =
      encode (.dict [(ascii "files", .dict (files.map fun file =>
        (file.1.toList, .dict (countsEntries file.2))))]) := by
  rw [scrapeResponse, foldl_files_eq h, bytes_eq h (by decide)]
  simp only [dict_eq, end_eq, encodeDict, encode, List.nil_append, List.append_nil, List.append_assoc,
    List.cons_append]

theorem failure_eq (out : List UInt8) {reason : List UInt8} (hreason : reason.length < 2 ^ 64) :
    failure itoa out reason = out ++ encode (.dict [(ascii "failure reason", .bytes reason)]) := by
  rw [failure, bytes_eq h hreason, bytes_eq h (by decide)]
  simp only [dict_eq, end_eq, encodeDict, encode, List.nil_append, List.append_nil, List.append_assoc,
    List.cons_append]

omit h

theorem canonical_counts (counts : Counts) : (Value.dict (countsEntries counts)).Canonical := by
  have hkeys : [ascii "complete", ascii "downloaded", ascii "incomplete"].Pairwise (· < ·) := by decide
  refine .dict hkeys fun e he => ?_
  simp only [countsEntries, List.mem_cons, List.not_mem_nil, or_false] at he
  rcases he with rfl | rfl | rfl <;> exact .int _

end Bencode
end Bluefrog
