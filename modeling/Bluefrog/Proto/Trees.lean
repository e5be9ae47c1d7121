import Bluefrog.Proto.Bencode

/-!
Trees of bencode values as the writer takes them: integers of 64 bits, slices of bytes, lists, and
dictionaries as entries in order. What is written for a tree is read back as that tree, after anything and
before anything.
-/

open Rust BencodeFormat

namespace Bluefrog

/-- A byte slice. Its length fits a machine word. -/
def Slice := { b : List UInt8 // b.length < 2 ^ 64 }

inductive Tree where
  | int (v : UInt64)
  | bytes (b : Slice)
  | list (ts : List Tree)
  | dict (es : List (Slice × Tree))

namespace Tree

mutual

/-- The value a tree stands for. -/
def value : Tree → Value
  | .int v => .int v.toNat
  | .bytes b => .bytes b.1
  | .list ts => .list (values ts)
  | .dict es => .dict (entries es)

def values : List Tree → List Value
  | [] => []
  | t :: ts => t.value :: values ts

def entries : List (Slice × Tree) → List (List UInt8 × Value)
  | [] => []
  | (k, t) :: es => (k.1, t.value) :: entries es

end

section Write

variable (itoa : Itoa)

mutual

/-- Writes a tree with the calls of the encoder, in preorder. -/
def write : Tree → List UInt8 → List UInt8
  | .int v, out => Encoder.int itoa v out
  | .bytes b, out => Encoder.bytes itoa b.1 out
  | .list ts, out => Encoder.end_ (writeList ts (Encoder.list out))
  | .dict es, out => Encoder.end_ (writeDict es (Encoder.dict out))

def writeList : List Tree → List UInt8 → List UInt8
  | [], out => out
  | t :: ts, out => writeList ts (write t out)

def writeDict : List (Slice × Tree) → List UInt8 → List UInt8
  | [], out => out
  | (k, t) :: es, out => writeDict es (write t (Encoder.bytes itoa k.1 out))

end

variable {itoa}

mutual

/-- **The calls of the encoder append the encoding of the value.** -/
theorem write_eq (h : itoa.Formats) (t : Tree) (out : List UInt8) : write itoa t out = out ++ encode t.value := by
  cases t with
  | int v => rw [write, Encoder.int_eq h, value]
  | bytes b => rw [write, Encoder.bytes_eq h b.2, value, encode]
  | list ts =>
      rw [write, writeList_eq h ts, Encoder.list_eq, Encoder.end_eq, value, encode]
      simp only [List.append_assoc, List.cons_append, List.nil_append]
  | dict es =>
      rw [write, writeDict_eq h es, Encoder.dict_eq, Encoder.end_eq, value, encode]
      simp only [List.append_assoc, List.cons_append, List.nil_append]

theorem writeList_eq (h : itoa.Formats) (ts : List Tree) (out : List UInt8) :
    writeList itoa ts out = out ++ encodeList (values ts) := by
  cases ts with
  | nil => rw [writeList, values, encodeList, List.append_nil]
  | cons t ts => rw [writeList, writeList_eq h ts, write_eq h t, values, encodeList, List.append_assoc]

theorem writeDict_eq (h : itoa.Formats) (es : List (Slice × Tree)) (out : List UInt8) :
    writeDict itoa es out = out ++ encodeDict (entries es) := by
  cases es with
  | nil => rw [writeDict, entries, encodeDict, List.append_nil]
  | cons e es =>
      obtain ⟨k, t⟩ := e
      rw [writeDict, writeDict_eq h es, write_eq h t, Encoder.bytes_eq h k.2, entries, encodeDict, List.append_assoc,
        List.append_assoc]

end

end Write

mutual

/-- A value stands for one tree. -/
theorem value_injective (t t' : Tree) (h : t.value = t'.value) : t = t' := by
  cases t with
  | int v =>
      cases t' with
      | int v' =>
          rw [value, value, Value.int.injEq] at h
          rw [UInt64.toNat_inj.mp h]
      | _ => simp only [value, reduceCtorEq] at h
  | bytes b =>
      cases t' with
      | bytes b' =>
          rw [value, value, Value.bytes.injEq] at h
          rw [Subtype.ext h]
      | _ => simp only [value, reduceCtorEq] at h
  | list ts =>
      cases t' with
      | list ts' =>
          rw [value, value, Value.list.injEq] at h
          rw [values_injective ts ts' h]
      | _ => simp only [value, reduceCtorEq] at h
  | dict es =>
      cases t' with
      | dict es' =>
          rw [value, value, Value.dict.injEq] at h
          rw [entries_injective es es' h]
      | _ => simp only [value, reduceCtorEq] at h

theorem values_injective (ts ts' : List Tree) (h : values ts = values ts') : ts = ts' := by
  cases ts with
  | nil =>
      cases ts' with
      | nil => rfl
      | cons t' ts' => simp only [values, reduceCtorEq] at h
  | cons t ts =>
      cases ts' with
      | nil => simp only [values, reduceCtorEq] at h
      | cons t' ts' =>
          rw [values, values, List.cons.injEq] at h
          rw [value_injective t t' h.1, values_injective ts ts' h.2]

theorem entries_injective (es es' : List (Slice × Tree)) (h : entries es = entries es') : es = es' := by
  cases es with
  | nil =>
      cases es' with
      | nil => rfl
      | cons e' es' => simp only [entries, reduceCtorEq] at h
  | cons e es =>
      obtain ⟨k, t⟩ := e
      cases es' with
      | nil => simp only [entries, reduceCtorEq] at h
      | cons e' es' =>
          obtain ⟨k', t'⟩ := e'
          rw [entries, entries, List.cons.injEq, Prod.mk.injEq] at h
          rw [Subtype.ext h.1.1, value_injective t t' h.1.2, entries_injective es es' h.2]

end

section Read

variable {itoa : Itoa} (h : itoa.Formats)
include h

/-- A reader that starts where a tree was written stops where it ends. -/
theorem decodeFrom_write (t : Tree) (out rest : List UInt8) :
    decodeFrom (write itoa t out ++ rest) out.length = some (t.value, rest) := by
  rw [write_eq h, decodeFrom_encode]

/-- No two trees are written alike, even with different bytes behind them. -/
theorem write_injective {t t' : Tree} {out rest rest' : List UInt8}
    (heq : write itoa t out ++ rest = write itoa t' out ++ rest') : t = t' ∧ rest = rest' := by
  rw [write_eq h, write_eq h, List.append_assoc, List.append_assoc, List.append_cancel_left_eq] at heq
  obtain ⟨hvalue, hrest⟩ := encode_append_inj heq
  exact ⟨value_injective t t' hvalue, hrest⟩

end Read

end Tree

namespace Bencode

/-- **What is written is uniquely decodable.** -/
theorem writing_decodable {itoa : Itoa} (h : itoa.Formats) (out rest : List UInt8) :
    (∀ t : Tree, decodeFrom (t.write itoa out ++ rest) out.length = some (t.value, rest) ∧
      ∀ t' : Tree, t'.value = t.value → t' = t) ∧
    (∀ (t t' : Tree) (rest' : List UInt8), t.write itoa out ++ rest = t'.write itoa out ++ rest' →
      t = t' ∧ rest = rest') ∧
    (∀ (counts : Counts) (interval : UInt32) (peers4 peers6 : Slice),
      decodeFrom (announceResponse itoa out counts interval peers4.1 peers6.1 ++ rest) out.length =
        some (.dict [(ascii "complete", .int counts.complete.toNat), (ascii "downloaded", .int counts.downloaded.toNat),
          (ascii "incomplete", .int counts.incomplete.toNat), (ascii "interval", .int interval.toNat),
          (ascii "min interval", .int (interval.toNat / 2)), (ascii "peers", .bytes peers4.1),
          (ascii "peers6", .bytes peers6.1)], rest)) ∧
    ∀ reason : Slice, decodeFrom (failure itoa out reason.1 ++ rest) out.length =
      some (.dict [(ascii "failure reason", .bytes reason.1)], rest) := by
  refine ⟨fun t => ⟨t.decodeFrom_write h out rest, fun t' => t'.value_injective t⟩,
    fun t t' rest' => Tree.write_injective h, ?_, ?_⟩
  · intro counts interval peers4 peers6
    rw [announceResponse_eq h out counts interval peers4.2 peers6.2, decodeFrom_encode]
    rfl
  · intro reason
    rw [failure_eq h out reason.2, decodeFrom_encode]

/-- Peers that look like the end of a dictionary. -/
theorem writing_decodable_peers :
    decodeFrom (announceResponse (fun n => decimal n.toNat) (ascii "d") ⟨1, 0, 0⟩ 1801 (ascii "e6:peers60:e") [] ++
        ascii "e") 1 =
      some (.dict [(ascii "complete", .int 1), (ascii "downloaded", .int 0), (ascii "incomplete", .int 0),
        (ascii "interval", .int 1801), (ascii "min interval", .int 900), (ascii "peers", .bytes (ascii "e6:peers60:e")),
        (ascii "peers6", .bytes [])], ascii "e") :=
  (writing_decodable (fun _ => rfl) (ascii "d") (ascii "e")).2.2.1 ⟨1, 0, 0⟩ 1801 ⟨ascii "e6:peers60:e", by decide⟩
    ⟨[], by decide⟩

end Bencode
end Bluefrog
