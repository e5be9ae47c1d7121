import Mathlib.Data.Vector.Basic
import Mathlib.Tactic.Ring

/-!
Byte arrays and slices as a Rust program uses them. A fixed-size array carries its length, a slice
is a list, and an operation that panics on a bad range or a bad length returns `none`. Integers are
read from and written to slices in big-endian order.
-/

namespace Rust

/-- The array type `[u8; n]`. -/
abbrev Bytes (n : Nat) := List.Vector UInt8 n

theorem Bytes.ext {n : Nat} {a b : Bytes n} (h : a.toList = b.toList) : a = b :=
  List.Vector.toList_injective h

/-- `<[u8; n]>::try_from(slice)`. -/
def toArray (n : Nat) (b : List UInt8) : Option (Bytes n) :=
  if h : b.length = n then some ⟨b, h⟩ else none

theorem toArray_toList {n : Nat} (a : Bytes n) : toArray n a.toList = some a := by
  rw [toArray, dif_pos a.toList_length]
  rfl

/-- A long enough buffer starts with an array. -/
theorem exists_array_append {n : Nat} {b : List UInt8} (h : n ≤ b.length) :
    ∃ (a : Bytes n) (rest : List UInt8), b = a.toList ++ rest :=
  ⟨⟨b.take n, List.length_take_of_le h⟩, b.drop n, (List.take_append_drop n b).symm⟩

/-- A buffer is whole arrays, and less than one more. -/
theorem exists_arrays_append {n : Nat} (hn : 0 < n) (b : List UInt8) :
    ∃ (l : List (Bytes n)) (rest : List UInt8), b = l.flatMap List.Vector.toList ++ rest ∧ rest.length < n := by
  induction hlen : b.length using Nat.strong_induction_on generalizing b with
  | _ len ih =>
      subst hlen
      by_cases hshort : b.length < n
      · exact ⟨[], b, rfl, hshort⟩
      · obtain ⟨a, rest, rfl⟩ := exists_array_append (Nat.not_lt.mp hshort)
        have hless : rest.length < (a.toList ++ rest).length := by
          rw [List.length_append, a.toList_length]
          omega
        obtain ⟨l, rest', hrest, hlt⟩ := ih rest.length hless rest rfl
        exact ⟨a :: l, rest', by rw [List.flatMap_cons, List.append_assoc, ← hrest], hlt⟩

section Slices

variable {α : Type}

/-- `&buf[lo..hi]`. -/
def slice (buf : List α) (lo hi : Nat) : Option (List α) :=
  if lo ≤ hi ∧ hi ≤ buf.length then some ((buf.drop lo).take (hi - lo)) else none

/-- `buf.chunks_exact(n)`. -/
def chunksExact (n : Nat) (buf : List α) : List (List α) :=
  (List.range (buf.length / n)).map fun i => (buf.drop (i * n)).take n

/-- `out[lo..hi].copy_from_slice(src)`. -/
def copyFromSlice (out : List α) (lo hi : Nat) (src : List α) : Option (List α) :=
  if lo ≤ hi ∧ hi ≤ out.length ∧ src.length = hi - lo then
    some (out.take lo ++ src ++ out.drop hi)
  else none

theorem slice_of_le {buf : List α} {lo hi : Nat} (hlo : lo ≤ hi) (hhi : hi ≤ buf.length) :
    slice buf lo hi = some ((buf.drop lo).take (hi - lo)) := if_pos ⟨hlo, hhi⟩

theorem length_of_slice {buf b : List α} {lo hi : Nat} (h : slice buf lo hi = some b) :
    b.length = hi - lo := by
  unfold slice at h
  split_ifs at h with hr
  cases h
  rw [List.length_take, List.length_drop]
  omega


/-- A slice past the first part of a concatenation. -/
theorem slice_skip {a rest : List α} {lo hi : Nat} (h : a.length ≤ lo) (hlh : lo ≤ hi) :
    slice (a ++ rest) lo hi = slice rest (lo - a.length) (hi - a.length) := by
  by_cases hr : hi ≤ a.length + rest.length
  · rw [slice_of_le hlh (by rw [List.length_append]; exact hr), slice_of_le (by omega) (by omega),
      List.drop_append, List.drop_eq_nil_of_le h, List.nil_append,
      show hi - a.length - (lo - a.length) = hi - lo by omega]
  · rw [slice, if_neg (by rw [List.length_append]; omega), slice, if_neg (by omega)]

/-- The first part of a concatenation. -/
theorem slice_head {a rest : List α} {n : Nat} (h : a.length = n) : slice (a ++ rest) 0 n = some a := by
  subst h
  rw [slice_of_le (Nat.zero_le _) (by rw [List.length_append]; omega), List.drop_zero, Nat.sub_zero, List.take_left]

/-- A copy onto the start of the part not yet written. -/
theorem copyFromSlice_front {pre old src : List α} {lo hi : Nat} (hlo : pre.length = lo)
    (hhi : lo + src.length = hi) (hold : src.length ≤ old.length) :
    copyFromSlice (pre ++ old) lo hi src = some (pre ++ src ++ old.drop src.length) := by
  subst hlo hhi
  rw [copyFromSlice, if_pos ⟨by omega, by rw [List.length_append]; omega, by omega⟩, List.take_left,
    List.drop_append, List.drop_eq_nil_of_le (by omega), List.nil_append, Nat.add_sub_cancel_left]

/-- A copy onto the start of a buffer. -/
theorem copyFromSlice_start {old src : List α} {hi : Nat} (hhi : src.length = hi) (hold : hi ≤ old.length) :
    copyFromSlice old 0 hi src = some (src ++ old.drop hi) := by
  subst hhi
  rw [copyFromSlice, if_pos ⟨Nat.zero_le _, hold, rfl⟩, List.take_zero, List.nil_append]

theorem length_of_mem_chunksExact {n : Nat} {buf b : List α} (h : b ∈ chunksExact n buf) : b.length = n := by
  obtain ⟨i, hi, rfl⟩ := List.mem_map.mp h
  have hle := Nat.mul_le_mul_right n (Nat.succ_le_of_lt (List.mem_range.mp hi))
  have hdiv := Nat.div_mul_le_self buf.length n
  rw [Nat.succ_mul] at hle
  rw [List.length_take, List.length_drop]
  omega

theorem chunksExact_append {n : Nat} {a : List α} (hn : 0 < n) (h : a.length = n) (rest : List α) :
    chunksExact n (a ++ rest) = a :: chunksExact n rest := by
  have hcount : (a ++ rest).length / n = rest.length / n + 1 := by
    rw [List.length_append, h, Nat.add_comm, Nat.add_div_right _ hn]
  rw [chunksExact, hcount, List.range_succ_eq_map, List.map_cons, List.map_map, Nat.zero_mul, List.drop_zero,
    List.take_left' h]
  refine congrArg (a :: ·) (List.map_congr_left fun i _ => ?_)
  have hskip : i.succ * n = n + i * n := by rw [Nat.succ_mul, Nat.add_comm]
  rw [Function.comp, hskip, ← List.drop_drop, List.drop_left' h]

/-- The chunks of joined strings of one length are these strings. -/
theorem chunksExact_flatMap {β : Type} {n : Nat} (hn : 0 < n) {f : β → List α} (h : ∀ x, (f x).length = n)
    (l : List β) : chunksExact n (l.flatMap f) = l.map f := by
  induction l with
  | nil => rw [List.flatMap_nil, chunksExact, List.length_nil, Nat.zero_div]; rfl
  | cons x l ih => rw [List.flatMap_cons, chunksExact_append hn (h x), ih, List.map_cons]

theorem length_flatMap_const {β : Type} {n : Nat} {f : β → List α} (h : ∀ x, (f x).length = n) (l : List β) :
    (l.flatMap f).length = l.length * n := by
  induction l with
  | nil => rw [List.flatMap_nil, List.length_nil, List.length_nil, Nat.zero_mul]
  | cons x l ih => rw [List.flatMap_cons, List.length_append, h, ih, List.length_cons]; ring

/-- Cutting joined strings of one length after `m` of them. -/
theorem take_flatMap_const {β : Type} {n : Nat} {f : β → List α} (h : ∀ x, (f x).length = n) (l : List β)
    (m : Nat) : (l.flatMap f).take (m * n) = (l.take m).flatMap f := by
  induction l generalizing m with
  | nil => simp
  | cons x l ih =>
      cases m with
      | zero => simp
      | succ m =>
          rw [List.flatMap_cons, List.take_succ_cons, List.flatMap_cons, ← ih, List.take_append, h,
            List.take_of_length_le (by rw [h]; exact Nat.le_mul_of_pos_left n (Nat.succ_pos m))]
          congr 2
          rw [Nat.succ_mul, Nat.add_sub_cancel]

/-- A slice of the first part of a concatenation. -/
theorem slice_left {a rest : List α} {lo hi : Nat} (hlh : lo ≤ hi) (h : hi ≤ a.length) :
    slice (a ++ rest) lo hi = slice a lo hi := by
  rw [slice_of_le hlh (by rw [List.length_append]; omega), slice_of_le hlh h,
    List.drop_append_of_le_length (by omega), List.take_append_of_le_length (by rw [List.length_drop]; omega)]

/-- A slice within one of the joined strings. -/
theorem slice_flatMap_const {β : Type} {n : Nat} {f : β → List α} (h : ∀ x, (f x).length = n) {l : List β}
    {i : Nat} {x : β} (hx : l[i]? = some x) {lo hi : Nat} (hlh : lo ≤ hi) (hhi : hi ≤ n) :
    slice (l.flatMap f) (i * n + lo) (i * n + hi) = slice (f x) lo hi := by
  obtain ⟨hi', rfl⟩ := List.getElem?_eq_some_iff.mp hx
  have hlen : ((l.take i).flatMap f).length = i * n := by
    rw [length_flatMap_const h, List.length_take, Nat.min_eq_left (by omega)]
  have hsplit : l.flatMap f = (l.take i).flatMap f ++ (f l[i] ++ (l.drop (i + 1)).flatMap f) := by
    rw [← List.flatMap_cons, ← List.flatMap_append, ← List.drop_eq_getElem_cons hi', List.take_append_drop]
  rw [hsplit, slice_skip (by omega) (by omega), hlen, Nat.add_sub_cancel_left, Nat.add_sub_cancel_left,
    slice_left hlh (by rw [h]; exact hhi)]

end Slices

section BigEndian

/-- The number a byte string spells, most significant byte first. -/
def beNat (b : List UInt8) : Nat := b.foldl (fun acc x => acc * 256 + x.toNat) 0

/-- The last `w` big-endian bytes of a number. -/
def beBytes : Nat → Nat → List UInt8
  | 0, _ => []
  | w + 1, n => UInt8.ofNat (n / 256 ^ w) :: beBytes w n

@[simp] theorem length_beBytes (w n : Nat) : (beBytes w n).length = w := by
  induction w with
  | zero => rfl
  | succ w ih => rw [beBytes, List.length_cons, ih]

theorem foldl_beNat (acc : Nat) (b : List UInt8) :
    b.foldl (fun acc x => acc * 256 + x.toNat) acc = acc * 256 ^ b.length + beNat b := by
  induction b generalizing acc with
  | nil => simp [beNat]
  | cons x b ih =>
      rw [beNat, List.foldl_cons, List.foldl_cons, ih, ih (0 * 256 + x.toNat), List.length_cons, pow_succ]
      ring

theorem beNat_cons (x : UInt8) (b : List UInt8) : beNat (x :: b) = x.toNat * 256 ^ b.length + beNat b := by
  rw [beNat, List.foldl_cons, foldl_beNat, Nat.zero_mul, Nat.zero_add]

theorem beNat_lt (b : List UInt8) : beNat b < 256 ^ b.length := by
  induction b with
  | nil => exact Nat.one_pos
  | cons x b ih =>
      have hx : x.toNat + 1 ≤ 256 := x.toNat_lt
      have := Nat.mul_le_mul_right (256 ^ b.length) hx
      rw [beNat_cons, List.length_cons, pow_succ, Nat.mul_comm (256 ^ b.length)]
      rw [Nat.add_mul, Nat.one_mul] at this
      omega

theorem beNat_beBytes (w n : Nat) : beNat (beBytes w n) = n % 256 ^ w := by
  induction w with
  | zero => rw [pow_zero, Nat.mod_one]; rfl
  | succ w ih =>
      rw [beBytes, beNat_cons, ih, length_beBytes, UInt8.toNat_ofNat', show (2 : Nat) ^ 8 = 256 from rfl,
        pow_succ 256 w, Nat.mod_mul, Nat.mul_comm, Nat.add_comm]

/-- Digits above the width do not show. -/
theorem beBytes_mul_add (w m n : Nat) : beBytes w (m * 256 ^ w + n) = beBytes w n := by
  induction w generalizing m with
  | zero => rfl
  | succ w ih =>
      rw [beBytes, beBytes, pow_succ, show m * (256 ^ w * 256) = (m * 256) * 256 ^ w by ring, ih]
      congr 1
      apply UInt8.toNat_inj.mp
      rw [Nat.add_comm, Nat.add_mul_div_right _ _ (Nat.pow_pos (by decide)), UInt8.toNat_ofNat',
        UInt8.toNat_ofNat', show (2 : Nat) ^ 8 = 256 from rfl, Nat.add_mul_mod_self_right]

theorem beBytes_beNat (b : List UInt8) : beBytes b.length (beNat b) = b := by
  induction b with
  | nil => rfl
  | cons x b ih =>
      rw [List.length_cons, beBytes, beNat_cons, beBytes_mul_add, ih]
      congr 1
      apply UInt8.toNat_inj.mp
      rw [Nat.add_comm, Nat.add_mul_div_right _ _ (Nat.pow_pos (by decide)),
        Nat.div_eq_of_lt (beNat_lt b), Nat.zero_add, UInt8.toNat_ofNat', Nat.mod_eq_of_lt x.toNat_lt]

/-- `x.to_be_bytes()`, at the three widths. -/
def toBe16 (x : UInt16) : List UInt8 := beBytes 2 x.toNat
def toBe32 (x : UInt32) : List UInt8 := beBytes 4 x.toNat
def toBe64 (x : UInt64) : List UInt8 := beBytes 8 x.toNat

@[simp, grind =] theorem length_toBe16 (x : UInt16) : (toBe16 x).length = 2 := length_beBytes _ _
@[simp, grind =] theorem length_toBe32 (x : UInt32) : (toBe32 x).length = 4 := length_beBytes _ _
@[simp, grind =] theorem length_toBe64 (x : UInt64) : (toBe64 x).length = 8 := length_beBytes _ _

@[simp] theorem ofNat_beNat_toBe16 (x : UInt16) : UInt16.ofNat (beNat (toBe16 x)) = x := by
  rw [toBe16, beNat_beBytes, show 256 ^ 2 = 2 ^ 16 from rfl, Nat.mod_eq_of_lt x.toNat_lt, UInt16.ofNat_toNat]

@[simp] theorem ofNat_beNat_toBe32 (x : UInt32) : UInt32.ofNat (beNat (toBe32 x)) = x := by
  rw [toBe32, beNat_beBytes, show 256 ^ 4 = 2 ^ 32 from rfl, Nat.mod_eq_of_lt x.toNat_lt, UInt32.ofNat_toNat]

@[simp] theorem ofNat_beNat_toBe64 (x : UInt64) : UInt64.ofNat (beNat (toBe64 x)) = x := by
  rw [toBe64, beNat_beBytes, show 256 ^ 8 = 2 ^ 64 from rfl, Nat.mod_eq_of_lt x.toNat_lt, UInt64.ofNat_toNat]

theorem toBe16_ofNat_beNat {b : List UInt8} (h : b.length = 2) : toBe16 (UInt16.ofNat (beNat b)) = b := by
  have hlt := beNat_lt b
  rw [h] at hlt
  rw [toBe16, UInt16.toNat_ofNat_of_lt' hlt, ← h, beBytes_beNat]

theorem toBe32_inj {x y : UInt32} : toBe32 x = toBe32 y ↔ x = y :=
  ⟨fun h => by rw [← ofNat_beNat_toBe32 x, h, ofNat_beNat_toBe32], congrArg toBe32⟩

theorem toBe32_ofNat_beNat {b : List UInt8} (h : b.length = 4) : toBe32 (UInt32.ofNat (beNat b)) = b := by
  have hlt := beNat_lt b
  rw [h] at hlt
  rw [toBe32, UInt32.toNat_ofNat_of_lt' hlt, ← h, beBytes_beNat]

theorem toBe64_ofNat_beNat {b : List UInt8} (h : b.length = 8) : toBe64 (UInt64.ofNat (beNat b)) = b := by
  have hlt := beNat_lt b
  rw [h] at hlt
  rw [toBe64, UInt64.toNat_ofNat_of_lt' hlt, ← h, beBytes_beNat]

/-- A long enough buffer starts with a big-endian number. -/
theorem exists_toBe16_append {b : List UInt8} (h : 2 ≤ b.length) : ∃ x rest, b = toBe16 x ++ rest :=
  ⟨_, b.drop 2, by rw [toBe16_ofNat_beNat (List.length_take_of_le h), List.take_append_drop]⟩

theorem exists_toBe32_append {b : List UInt8} (h : 4 ≤ b.length) : ∃ x rest, b = toBe32 x ++ rest :=
  ⟨_, b.drop 4, by rw [toBe32_ofNat_beNat (List.length_take_of_le h), List.take_append_drop]⟩

theorem exists_toBe64_append {b : List UInt8} (h : 8 ≤ b.length) : ∃ x rest, b = toBe64 x ++ rest :=
  ⟨_, b.drop 8, by rw [toBe64_ofNat_beNat (List.length_take_of_le h), List.take_append_drop]⟩

end BigEndian

section LittleEndian

/-- The number a byte string spells, least significant byte first. -/
def leNat (b : List UInt8) : Nat := beNat b.reverse

/-- `x.to_le_bytes()`. -/
def toLe64 (x : UInt64) : List UInt8 := (toBe64 x).reverse

end LittleEndian
end Rust
