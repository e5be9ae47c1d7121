import Bluefrog.Lib.Bytes

/-!
The time-windowed connection ids of the UDP protocol: a keyed hash of the source address and the
index of the current window. An id is accepted in its own window and in the next one. The keyed hash
is a parameter; the source takes it from a library.
-/

open Rust

namespace Bluefrog

/-- The keyed hash: a key and a message give a digest. -/
abbrev Blake3 := Bytes 32 → List UInt8 → Bytes 32

/-- A generator and validator of connection ids. Its window is never empty. -/
structure ConnId where
  key : Bytes 32
  windowSecs : UInt64
  windowSecs_pos : 0 < windowSecs.toNat

namespace ConnId

theorem toNat_max_one (w : UInt64) : (max w 1).toNat = max w.toNat 1 := by
  rw [show max w 1 = if w ≤ 1 then 1 else w from rfl]
  split_ifs with h
  · have hle := UInt64.le_iff_toNat_le.mp h
    rw [UInt64.toNat_one] at hle ⊢
    omega
  · have hlt := mt UInt64.le_iff_toNat_le.mpr h
    rw [UInt64.toNat_one] at hlt
    omega

def new (key : Bytes 32) (windowSecs : UInt64) : ConnId where
  key
  windowSecs := max windowSecs 1
  windowSecs_pos := by
    rw [toNat_max_one]
    omega

theorem toNat_windowSecs_new (key : Bytes 32) (windowSecs : UInt64) :
    (new key windowSecs).windowSecs.toNat = max windowSecs.toNat 1 := toNat_max_one windowSecs

variable (blake3 : Blake3) (c : ConnId)

/-- The id of an address in a window: the first 8 bytes of the digest, little-endian. -/
def forWindow (ip : List UInt8) (window : UInt64) : UInt64 :=
  UInt64.ofNat (leNat ((blake3 c.key (ip ++ toLe64 window)).toList.take 8))

/-- The id to hand out at a second. -/
def generate (ip : List UInt8) (nowSecs : UInt64) : UInt64 := c.forWindow blake3 ip (nowSecs / c.windowSecs)

/-- Whether an id is the one of the current or of the previous window. -/
def validate (id : UInt64) (ip : List UInt8) (nowSecs : UInt64) : Bool :=
  let window := nowSecs / c.windowSecs
  id == c.forWindow blake3 ip window || (decide (0 < window) && id == c.forWindow blake3 ip (window - 1))

/-- An id is accepted in the second it is handed out. -/
theorem validate_generate (ip : List UInt8) (nowSecs : UInt64) :
    c.validate blake3 (c.generate blake3 ip nowSecs) ip nowSecs = true := by
  rw [validate, generate, beq_self_eq_true, Bool.true_or]

/-- The truncated hash tells two pairs of an address and a window apart. -/
def Separates (a b : List UInt8 × UInt64) : Prop :=
  c.forWindow blake3 a.1 a.2 = c.forWindow blake3 b.1 b.2 → a = b

/-- The window index of a second. -/
def windowIndex (nowSecs : UInt64) : Nat := nowSecs.toNat / c.windowSecs.toNat

variable {blake3 c}

theorem window_eq_iff (t t' : UInt64) :
    t / c.windowSecs = t' / c.windowSecs ↔ c.windowIndex t = c.windowIndex t' := by
  rw [← UInt64.toNat_inj, UInt64.toNat_div, UInt64.toNat_div]
  rfl

theorem window_pos_iff (t : UInt64) : 0 < t / c.windowSecs ↔ 0 < c.windowIndex t := by
  rw [UInt64.lt_iff_toNat_lt, UInt64.toNat_div]
  rfl

theorem window_eq_pred_iff {t t' : UInt64} (h : 0 < t' / c.windowSecs) :
    t / c.windowSecs = t' / c.windowSecs - 1 ↔ c.windowIndex t + 1 = c.windowIndex t' := by
  have hpos : 0 < (t' / c.windowSecs).toNat := UInt64.lt_iff_toNat_lt.mp h
  have hone : (1 : UInt64) ≤ t' / c.windowSecs := UInt64.le_iff_toNat_le.mpr hpos
  rw [← UInt64.toNat_inj, UInt64.toNat_sub_of_le _ _ hone, UInt64.toNat_div, UInt64.toNat_div, UInt64.toNat_one]
  rw [UInt64.toNat_div] at hpos
  unfold windowIndex
  omega

/-- An id is accepted for its own address, in its own window and in the next. -/
theorem validate_generate_of_window (ip : List UInt8) {t t' : UInt64}
    (hwin : c.windowIndex t = c.windowIndex t' ∨ c.windowIndex t + 1 = c.windowIndex t') :
    c.validate blake3 (c.generate blake3 ip t) ip t' = true := by
  simp only [validate, generate, Bool.or_eq_true, beq_iff_eq, Bool.and_eq_true, decide_eq_true_eq]
  rcases hwin with hwin | hwin
  · exact .inl (by rw [(window_eq_iff t t').mpr hwin])
  · have hpos : 0 < t' / c.windowSecs := (window_pos_iff t').mpr (by omega)
    exact .inr ⟨hpos, by rw [(window_eq_pred_iff hpos).mpr hwin]⟩

/-- It is accepted nowhere else. -/
theorem validate_generate_iff {ip ip' : List UInt8} {t t' : UInt64}
    (hcur : c.Separates blake3 (ip, t / c.windowSecs) (ip', t' / c.windowSecs))
    (hprev : 0 < t' / c.windowSecs → c.Separates blake3 (ip, t / c.windowSecs) (ip', t' / c.windowSecs - 1)) :
    c.validate blake3 (c.generate blake3 ip t) ip' t' = true ↔
      ip = ip' ∧ (c.windowIndex t = c.windowIndex t' ∨ c.windowIndex t + 1 = c.windowIndex t') := by
  constructor
  · simp only [validate, generate, Bool.or_eq_true, beq_iff_eq, Bool.and_eq_true, decide_eq_true_eq]
    rintro (heq | ⟨hpos, heq⟩)
    · obtain ⟨hip, hwin⟩ := Prod.ext_iff.mp (hcur heq)
      exact ⟨hip, .inl ((window_eq_iff t t').mp hwin)⟩
    · obtain ⟨hip, hwin⟩ := Prod.ext_iff.mp (hprev hpos heq)
      exact ⟨hip, .inr ((window_eq_pred_iff hpos).mp hwin)⟩
  · rintro ⟨rfl, hwin⟩
    exact validate_generate_of_window ip hwin

/-- Within one window length the index grows by at most one. -/
theorem windowIndex_le_succ {t t' : UInt64} (h : t'.toNat ≤ t.toNat + c.windowSecs.toNat) :
    c.windowIndex t' ≤ c.windowIndex t + 1 := by
  unfold windowIndex
  calc t'.toNat / c.windowSecs.toNat
    _ ≤ (t.toNat + c.windowSecs.toNat) / c.windowSecs.toNat := Nat.div_le_div_right h
    _ = t.toNat / c.windowSecs.toNat + 1 := Nat.add_div_right _ c.windowSecs_pos

/-- After two window lengths the index has grown by at least two. -/
theorem windowIndex_add_two_le {t t' : UInt64} (h : t.toNat + 2 * c.windowSecs.toNat ≤ t'.toNat) :
    c.windowIndex t + 2 ≤ c.windowIndex t' := by
  unfold windowIndex
  calc t.toNat / c.windowSecs.toNat + 2
    _ = (t.toNat + 2 * c.windowSecs.toNat) / c.windowSecs.toNat := (Nat.add_mul_div_right _ 2 c.windowSecs_pos).symm
    _ ≤ t'.toNat / c.windowSecs.toNat := Nat.div_le_div_right h

end ConnId

/-- A hash to evaluate examples with: the message from the end of the address on, and the key, cut to the
length of a digest. -/
def cutHash : Blake3 := fun key message => ⟨(message.drop 12 ++ key.toList).take 32, by
  rw [List.length_take, List.length_append, key.toList_length]
  omega⟩

end Bluefrog
