import Bluefrog.Lib.Text

/-!
The bencode format: its values, their encoding, and a decoder. A dictionary is the list of its
entries in the order they are written. Integers are those without a sign.
-/

open Rust

namespace BencodeFormat

inductive Value where
  | int (n : Nat)
  | bytes (b : List UInt8)
  | list (vs : List Value)
  | dict (es : List (List UInt8 × Value))

/-- A value in canonical form: the keys of every dictionary strictly increase, compared as raw bytes. -/
inductive Value.Canonical : Value → Prop
  | int (n : Nat) : Canonical (.int n)
  | bytes (b : List UInt8) : Canonical (.bytes b)
  | list {vs : List Value} (h : ∀ v ∈ vs, Canonical v) : Canonical (.list vs)
  | dict {es : List (List UInt8 × Value)} (hkeys : (es.map Prod.fst).Pairwise (· < ·))
      (h : ∀ e ∈ es, Canonical e.2) : Canonical (.dict es)

theorem Value.canonical_dict_iff (es : List (List UInt8 × Value)) :
    (Value.dict es).Canonical ↔ (es.map Prod.fst).Pairwise (· < ·) ∧ ∀ e ∈ es, e.2.Canonical := by
  constructor
  · rintro (_ | _ | _ | ⟨hkeys, h⟩)
    exact ⟨hkeys, h⟩
  · exact fun h => .dict h.1 h.2

/-- The encoding of a byte string: its length, a colon, the bytes. -/
def encodeBytes (b : List UInt8) : List UInt8 := decimal b.length ++ 58 :: b

mutual

/-- The encoding of a value. -/
def encode : Value → List UInt8
  | .int n => 105 :: (decimal n ++ [101])
  | .bytes b => encodeBytes b
  | .list vs => 108 :: (encodeList vs ++ [101])
  | .dict es => 100 :: (encodeDict es ++ [101])

def encodeList : List Value → List UInt8
  | [] => []
  | v :: vs => encode v ++ encodeList vs

def encodeDict : List (List UInt8 × Value) → List UInt8
  | [] => []
  | (k, v) :: es => encodeBytes k ++ (encode v ++ encodeDict es)

end

theorem encodeDict_append (es es' : List (List UInt8 × Value)) :
    encodeDict (es ++ es') = encodeDict es ++ encodeDict es' := by
  induction es with
  | nil => rw [List.nil_append, encodeDict, List.nil_append]
  | cons e es ih => rw [List.cons_append, encodeDict, encodeDict, ih, List.append_assoc, List.append_assoc]

/-- Reads a byte string. -/
def decodeBytes (s : List UInt8) : Option (List UInt8 × List UInt8) :=
  match readDecimal s with
  | some (n, c :: rest) => if c = 58 ∧ n ≤ rest.length then some (rest.take n, rest.drop n) else none
  | _ => none

mutual

/-- Reads a value, with a bound on the depth and length of what is read. -/
def decodeValue : Nat → List UInt8 → Option (Value × List UInt8)
  | 0, _ => none
  | _ + 1, [] => none
  | fuel + 1, c :: rest =>
      if c = 105 then
        match readDecimal rest with
        | some (n, e :: rest) => if e = 101 then some (.int n, rest) else none
        | _ => none
      else if c = 108 then (decodeList fuel rest).map fun r => (.list r.1, r.2)
      else if c = 100 then (decodeDict fuel rest).map fun r => (.dict r.1, r.2)
      else (decodeBytes (c :: rest)).map fun r => (.bytes r.1, r.2)

/-- Reads values up to the closing `e`. -/
def decodeList : Nat → List UInt8 → Option (List Value × List UInt8)
  | 0, _ => none
  | _ + 1, [] => none
  | fuel + 1, c :: rest =>
      if c = 101 then some ([], rest)
      else do
        let (v, rest) ← decodeValue fuel (c :: rest)
        let (vs, rest) ← decodeList fuel rest
        some (v :: vs, rest)

/-- Reads entries up to the closing `e`. -/
def decodeDict : Nat → List UInt8 → Option (List (List UInt8 × Value) × List UInt8)
  | 0, _ => none
  | _ + 1, [] => none
  | fuel + 1, c :: rest =>
      if c = 101 then some ([], rest)
      else do
        let (k, rest) ← decodeBytes (c :: rest)
        let (v, rest) ← decodeValue fuel rest
        let (es, rest) ← decodeDict fuel rest
        some ((k, v) :: es, rest)

end

/-- Decodes a string that is one value and nothing more. -/
def decode (s : List UInt8) : Option Value :=
  match decodeValue s.length s with
  | some (v, []) => some v
  | _ => none

theorem decodeBytes_append (b rest : List UInt8) : decodeBytes (encodeBytes b ++ rest) = some (b, rest) := by
  rw [decodeBytes, encodeBytes, List.append_assoc, List.cons_append, readDecimal_append _ rfl]
  have hle : b.length ≤ (b ++ rest).length := by
    rw [List.length_append]
    omega
  simp only [true_and, if_pos hle, List.take_left, List.drop_left]

/-- A byte string starts with a digit. -/
theorem encodeBytes_eq_cons (b : List UInt8) : ∃ c t, encodeBytes b = c :: t ∧ isDigit c = true := by
  cases hd : decimal b.length with
  | nil => exact absurd hd (decimal_ne_nil _)
  | cons c t => exact ⟨c, t ++ 58 :: b, by rw [encodeBytes, hd, List.cons_append],
      isDigit_of_mem_decimal c (hd ▸ List.mem_cons_self)⟩

theorem ne_of_isDigit {c d : UInt8} (hc : isDigit c = true) (hd : isDigit d = false) : c ≠ d := by
  intro h
  rw [h, hd] at hc
  cases hc

/-- A value does not start with the closing `e`. -/
theorem encode_eq_cons (v : Value) : ∃ c t, encode v = c :: t ∧ c ≠ 101 := by
  cases v with
  | int n => exact ⟨105, _, by rw [encode], by decide⟩
  | bytes b =>
      obtain ⟨c, t, h, hc⟩ := encodeBytes_eq_cons b
      exact ⟨c, t, by rw [encode, h], ne_of_isDigit hc rfl⟩
  | list vs => exact ⟨108, _, by rw [encode], by decide⟩
  | dict es => exact ⟨100, _, by rw [encode], by decide⟩

theorem length_encode_pos (v : Value) : 0 < (encode v).length := by
  obtain ⟨c, t, h, -⟩ := encode_eq_cons v
  rw [h]
  exact Nat.succ_pos _

theorem decodeValue_int (n : Nat) (rest : List UInt8) (fuel : Nat) :
    decodeValue (fuel + 1) (encode (.int n) ++ rest) = some (.int n, rest) := by
  rw [encode, List.cons_append, List.append_assoc, List.singleton_append, decodeValue, if_pos rfl,
    readDecimal_append _ rfl]
  rfl

theorem decodeValue_bytes (b rest : List UInt8) (fuel : Nat) :
    decodeValue (fuel + 1) (encode (.bytes b) ++ rest) = some (.bytes b, rest) := by
  obtain ⟨c, t, h, hc⟩ := encodeBytes_eq_cons b
  have hbytes := decodeBytes_append b rest
  rw [h, List.cons_append] at hbytes
  rw [encode, h, List.cons_append, decodeValue, if_neg (ne_of_isDigit hc rfl), if_neg (ne_of_isDigit hc rfl),
    if_neg (ne_of_isDigit hc rfl), hbytes, Option.map_some]

mutual

theorem decodeValue_encode (v : Value) (rest : List UInt8) (fuel : Nat) (h : (encode v).length ≤ fuel) :
    decodeValue fuel (encode v ++ rest) = some (v, rest) := by
  have hpos := length_encode_pos v
  obtain ⟨fuel, rfl⟩ : ∃ k, fuel = k + 1 := ⟨fuel - 1, by omega⟩
  cases v with
  | int n => exact decodeValue_int n rest fuel
  | bytes b => exact decodeValue_bytes b rest fuel
  | list vs =>
      rw [encode, List.length_cons, List.length_append, List.length_singleton] at h
      rw [encode, List.cons_append, List.append_assoc, List.singleton_append, decodeValue, if_neg (by decide),
        if_pos rfl, decodeList_encodeList vs rest fuel (by omega), Option.map_some]
  | dict es =>
      rw [encode, List.length_cons, List.length_append, List.length_singleton] at h
      rw [encode, List.cons_append, List.append_assoc, List.singleton_append, decodeValue, if_neg (by decide),
        if_neg (by decide), if_pos rfl, decodeDict_encodeDict es rest fuel (by omega), Option.map_some]

theorem decodeList_encodeList (vs : List Value) (rest : List UInt8) (fuel : Nat)
    (h : (encodeList vs).length < fuel) :
    decodeList fuel (encodeList vs ++ 101 :: rest) = some (vs, rest) := by
  obtain ⟨fuel, rfl⟩ : ∃ k, fuel = k + 1 := ⟨fuel - 1, by omega⟩
  cases vs with
  | nil => rw [encodeList, List.nil_append, decodeList, if_pos rfl]
  | cons v vs =>
      have hpos := length_encode_pos v
      rw [encodeList, List.length_append] at h
      have hv := decodeValue_encode v (encodeList vs ++ 101 :: rest) fuel (by omega)
      have hvs := decodeList_encodeList vs rest fuel (by omega)
      obtain ⟨c, t, hc, hne⟩ := encode_eq_cons v
      rw [hc, List.cons_append] at hv
      rw [encodeList, hc, List.append_assoc, List.cons_append, decodeList, if_neg hne, hv]
      simp only [Option.bind_eq_bind, Option.bind_some, hvs]

theorem decodeDict_encodeDict (es : List (List UInt8 × Value)) (rest : List UInt8) (fuel : Nat)
    (h : (encodeDict es).length < fuel) :
    decodeDict fuel (encodeDict es ++ 101 :: rest) = some (es, rest) := by
  obtain ⟨fuel, rfl⟩ : ∃ k, fuel = k + 1 := ⟨fuel - 1, by omega⟩
  cases es with
  | nil => rw [encodeDict, List.nil_append, decodeDict, if_pos rfl]
  | cons e es =>
      obtain ⟨k, v⟩ := e
      have hpos := length_encode_pos v
      rw [encodeDict, List.length_append, List.length_append] at h
      have hk := decodeBytes_append k (encode v ++ (encodeDict es ++ 101 :: rest))
      have hv := decodeValue_encode v (encodeDict es ++ 101 :: rest) fuel (by omega)
      have hes := decodeDict_encodeDict es rest fuel (by omega)
      obtain ⟨c, t, hc, hdigit⟩ := encodeBytes_eq_cons k
      rw [hc, List.cons_append] at hk
      rw [encodeDict, hc, List.append_assoc, List.append_assoc, List.cons_append, decodeDict,
        if_neg (ne_of_isDigit hdigit rfl), hk]
      simp only [Option.bind_eq_bind, Option.bind_some, hv, hes]

end

/-- **Decoding inverts encoding.** -/
theorem decode_encode (v : Value) : decode (encode v) = some v := by
  have h := decodeValue_encode v [] (encode v).length (Nat.le_refl _)
  rw [List.append_nil] at h
  rw [decode, h]

/-- Reads the value at a point of a string. Returns it with what follows. -/
def decodeFrom (s : List UInt8) (start : Nat) : Option (Value × List UInt8) :=
  decodeValue (s.drop start).length (s.drop start)

/-- A value is read back wherever it stands, and nothing but it. -/
theorem decodeFrom_encode (before : List UInt8) (v : Value) (rest : List UInt8) :
    decodeFrom (before ++ encode v ++ rest) before.length = some (v, rest) := by
  have hfuel : (encode v).length ≤ (encode v ++ rest).length := by
    rw [List.length_append]
    exact Nat.le_add_right _ _
  rw [decodeFrom, List.append_assoc, List.drop_left, decodeValue_encode v rest _ hfuel]

/-- Encodings are told apart by what they start with. -/
theorem encode_append_inj {v v' : Value} {rest rest' : List UInt8} (h : encode v ++ rest = encode v' ++ rest') :
    v = v' ∧ rest = rest' := by
  have hv := decodeFrom_encode [] v rest
  have hv' := decodeFrom_encode [] v' rest'
  rw [List.nil_append] at hv hv'
  rw [h, hv', Option.some.injEq, Prod.mk.injEq] at hv
  exact ⟨hv.1.symm, hv.2.symm⟩

end BencodeFormat
