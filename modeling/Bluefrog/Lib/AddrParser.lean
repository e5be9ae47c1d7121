import Bluefrog.Lib.IpAddr
import Mathlib.Control.Basic
import Mathlib.Data.List.TakeWhile
import Mathlib.Data.Vector.Basic

/-!
The address parser of the Rust standard library. A parser reads from the front of a byte string; where it
fails it has read nothing. What it accepts is spelled with hexadecimal digits and a few separators.
-/

namespace Rust

/-- A parser over the bytes that are left. -/
abbrev Parser (α : Type) := StateT (List UInt8) Option α

inductive SocketAddr where
  | v4 (ip : Ipv4Addr) (port : UInt16)
  | v6 (ip : Ipv6Addr) (port : UInt16) (flowinfo scopeId : UInt32)
  deriving DecidableEq

def SocketAddr.new (ip : IpAddr) (port : UInt16) : SocketAddr :=
  match ip with
  | .v4 a => .v4 a port
  | .v6 a => .v6 a port 0 0

def SocketAddr.ip : SocketAddr → IpAddr
  | .v4 a _ => .v4 a
  | .v6 a _ _ _ => .v6 a

namespace Parser

variable {α β : Type}

/-- What a parser reads of a whole string; anything left over is an error. -/
def parseWith (p : Parser α) (s : List UInt8) : Option α :=
  match p s with
  | some (a, []) => some a
  | _ => none

def readGivenChar (target : UInt8) : Parser Unit
  | [] => none
  | c :: rest => if c = target then some ((), rest) else none

/-- Reads what `inner` reads, after a separator unless the index is zero. -/
def readSeparator (sep : UInt8) (index : Nat) (inner : Parser α) : Parser α :=
  if 0 < index then do
    readGivenChar sep
    inner
  else inner

/-- `char::to_digit`. -/
def toDigit (radix : Nat) (c : UInt8) : Option Nat :=
  let digit :=
    if 48 ≤ c ∧ c ≤ 57 then some (c.toNat - 48)
    else if 97 ≤ c ∧ c ≤ 122 then some (c.toNat - 97 + 10)
    else if 65 ≤ c ∧ c ≤ 90 then some (c.toNat - 65 + 10)
    else none
  digit.filter fun d => d < radix

/-- Reads the digits at the front as a number of a type with values below `bound`. -/
def readNumber (radix : Nat) (maxDigits : Option Nat) (allowZeroPrefix : Bool) (bound : Nat) : Parser Nat := fun s =>
  let digits := s.takeWhile fun c => (toDigit radix c).isSome
  let result := digits.foldl (fun result c => result * radix + (toDigit radix c).getD 0) 0
  if maxDigits.any fun maxDigits => maxDigits < digits.length then none
  else if digits = [] then none
  else if !allowZeroPrefix && digits.head? == some 48 && decide (1 < digits.length) then none
  else if result < bound then some (result, s.dropWhile fun c => (toDigit radix c).isSome)
  else none

def readIpv4Addr : Parser Ipv4Addr := do
  let a ← readSeparator 46 0 (readNumber 10 (some 3) false (2 ^ 8))
  let b ← readSeparator 46 1 (readNumber 10 (some 3) false (2 ^ 8))
  let c ← readSeparator 46 2 (readNumber 10 (some 3) false (2 ^ 8))
  let d ← readSeparator 46 3 (readNumber 10 (some 3) false (2 ^ 8))
  return ⟨[UInt8.ofNat a, UInt8.ofNat b, UInt8.ofNat c, UInt8.ofNat d], rfl⟩

/-- Reads an embedded IPv4 address, which stands for two groups. -/
def readTrailingIpv4 (limit index : Nat) : Parser (Option Ipv4Addr) :=
  if index + 1 < limit then optional (readSeparator 58 index readIpv4Addr) else pure none

/-- Reads up to `remaining` more of `limit` groups of an address, the last two possibly as an embedded IPv4
address. Returns the groups and whether there was one. -/
def readGroups (limit index : Nat) : Nat → Parser (List UInt16 × Bool)
  | 0 => pure ([], false)
  | remaining + 1 => do
      let ipv4 ← readTrailingIpv4 limit index
      match ipv4 with
      | some a =>
          pure ([UInt16.ofNat (beNat (a.toList.take 2)), UInt16.ofNat (beNat (a.toList.drop 2))], true)
      | none =>
          let group ← optional (readSeparator 58 index (readNumber 16 (some 4) true (2 ^ 16)))
          match group with
          | some group => do
              let (groups, ipv4) ← readGroups limit (index + 1) remaining
              pure (UInt16.ofNat group :: groups, ipv4)
          | none => pure ([], false)

/-- The address of eight groups. -/
def ofGroups (groups : List UInt16) : Ipv6Addr :=
  .ofFn fun i =>
    let group := (groups.getD (i / 2) 0).toNat
    UInt8.ofNat (if i.val % 2 = 0 then group / 2 ^ 8 else group % 2 ^ 8)

def readIpv6Addr : Parser Ipv6Addr := do
  let (head, headIpv4) ← readGroups 8 0 8
  if head.length = 8 then return ofGroups head
  else if headIpv4 then failure
  else do
    readGivenChar 58
    readGivenChar 58
    let limit := 8 - (head.length + 1)
    let (tail, _) ← readGroups limit 0 limit
    return ofGroups (head ++ List.replicate (8 - head.length - tail.length) 0 ++ tail)

def readIpAddr : Parser IpAddr := (IpAddr.v4 <$> readIpv4Addr) <|> (IpAddr.v6 <$> readIpv6Addr)

def readPort : Parser UInt16 := do
  readGivenChar 58
  let port ← readNumber 10 none true (2 ^ 16)
  return UInt16.ofNat port

def readScopeId : Parser UInt32 := do
  readGivenChar 37
  let scopeId ← readNumber 10 none true (2 ^ 32)
  return UInt32.ofNat scopeId

def readSocketAddrV4 : Parser SocketAddr := do
  let ip ← readIpv4Addr
  let port ← readPort
  return .v4 ip port

def readSocketAddrV6 : Parser SocketAddr := do
  readGivenChar 91
  let ip ← readIpv6Addr
  let scopeId ← optional readScopeId
  readGivenChar 93
  let port ← readPort
  return .v6 ip port 0 (scopeId.getD 0)

def readSocketAddr : Parser SocketAddr := readSocketAddrV4 <|> readSocketAddrV6

end Parser

/-- `s.parse::<IpAddr>()`. -/
def IpAddr.fromStr (s : List UInt8) : Option IpAddr := Parser.readIpAddr.parseWith s

/-- `s.parse::<SocketAddr>()`. -/
def SocketAddr.fromStr (s : List UInt8) : Option SocketAddr := Parser.readSocketAddr.parseWith s

namespace Parser

variable {α β : Type}

/-- The parser only reads bytes with a property. -/
def Reads (P : UInt8 → Prop) (p : Parser α) : Prop :=
  ∀ s a rest, p s = some (a, rest) → ∃ pre, s = pre ++ rest ∧ ∀ c ∈ pre, P c

section Reads

variable {P : UInt8 → Prop} {p q : Parser α}

theorem Reads.pure (a : α) : Reads P (pure a : Parser α) := by
  rintro s _ _ ⟨⟩
  exact ⟨[], rfl, fun c hc => absurd hc List.not_mem_nil⟩

theorem Reads.failure : Reads P (failure : Parser α) := by
  rintro s a rest h
  cases h

theorem Reads.bind (h : Reads P p) {f : α → Parser β} (hf : ∀ a, Reads P (f a)) : Reads P (p >>= f) := by
  intro s b rest hread
  obtain ⟨⟨a, mid⟩, ha, hb⟩ := Option.bind_eq_some_iff.mp hread
  obtain ⟨pre, rfl, hpre⟩ := h s a mid ha
  obtain ⟨post, rfl, hpost⟩ := hf a mid b rest hb
  refine ⟨pre ++ post, (List.append_assoc _ _ _).symm, fun c hc => ?_⟩
  rcases List.mem_append.mp hc with hc | hc
  · exact hpre c hc
  · exact hpost c hc

theorem Reads.map (h : Reads P p) (f : α → β) : Reads P (f <$> p) := by
  intro s b rest hread
  obtain ⟨⟨a, rest⟩, ha, hb⟩ := Option.bind_eq_some_iff.mp hread
  cases hb
  exact h s a rest ha

theorem Reads.orElse (h : Reads P p) (hq : Reads P q) : Reads P (p <|> q) := by
  intro s a rest hread
  change (p s <|> q s) = _ at hread
  cases hp : p s with
  | none =>
      rw [hp] at hread
      exact hq s a rest hread
  | some r =>
      rw [hp] at hread
      cases hread
      exact h s a rest hp

theorem Reads.optional (h : Reads P p) : Reads P (optional p) := (h.map some).orElse (Reads.pure none)

theorem reads_readGivenChar {target : UInt8} (h : P target) : Reads P (readGivenChar target) := by
  intro s a rest hread
  cases s with
  | nil => cases hread
  | cons c s =>
      rw [readGivenChar] at hread
      split_ifs at hread with hc
      cases hread
      exact ⟨[c], rfl, fun d hd => by rwa [List.mem_singleton.mp hd, hc]⟩

theorem Reads.separator {sep : UInt8} (hsep : P sep) (h : Reads P p) (index : Nat) :
    Reads P (readSeparator sep index p) := by
  unfold readSeparator
  split_ifs
  · exact (reads_readGivenChar hsep).bind fun _ => h
  · exact h

theorem reads_readNumber {radix : Nat} (h : ∀ c, (toDigit radix c).isSome = true → P c) (maxDigits : Option Nat)
    (allowZeroPrefix : Bool) (bound : Nat) : Reads P (readNumber radix maxDigits allowZeroPrefix bound) := by
  intro s a rest hread
  simp only [readNumber] at hread
  split_ifs at hread
  cases hread
  exact ⟨_, List.takeWhile_append_dropWhile.symm, fun c hc =>
    h c (@List.mem_takeWhile_imp UInt8 (fun c => (toDigit radix c).isSome) s c hc)⟩

theorem Reads.of_parseWith (h : Reads P p) {s : List UInt8} {a : α} (hparse : p.parseWith s = some a) :
    ∀ c ∈ s, P c := by
  unfold parseWith at hparse
  split at hparse
  · rename_i hread
    obtain ⟨pre, hs, hpre⟩ := h s _ [] hread
    rw [List.append_nil] at hs
    exact hs ▸ hpre
  · cases hparse

end Reads

/-- The characters that addresses are spelled with. -/
def IsAddrChar (c : UInt8) : Prop := (toDigit 16 c).isSome = true ∨ c ∈ [37, 46, 58, 91, 93]

instance (c : UInt8) : Decidable (IsAddrChar c) := inferInstanceAs (Decidable (_ ∨ _))

theorem isAddrChar_of_digit {c : UInt8} (h : (toDigit 10 c).isSome = true) : IsAddrChar c := by
  refine .inl ?_
  rw [toDigit, Option.isSome_filter, Option.any_eq_true] at h ⊢
  obtain ⟨d, hd, hlt⟩ := h
  exact ⟨d, hd, decide_eq_true (Nat.lt_trans (of_decide_eq_true hlt) (by decide))⟩

theorem reads_readIpv4Addr : Reads IsAddrChar readIpv4Addr := by
  have hdigits : Reads IsAddrChar (readNumber 10 (some 3) false (2 ^ 8)) :=
    reads_readNumber (fun _ => isAddrChar_of_digit) _ _ _
  have hgroup := hdigits.separator (.inr (by decide) : IsAddrChar 46)
  exact (hgroup 0).bind fun _ => (hgroup 1).bind fun _ => (hgroup 2).bind fun _ => (hgroup 3).bind fun _ => Reads.pure _

theorem reads_readGroups (limit index remaining : Nat) : Reads IsAddrChar (readGroups limit index remaining) := by
  have hcolon : IsAddrChar 58 := .inr (by decide)
  induction remaining generalizing index with
  | zero => exact Reads.pure _
  | succ remaining ih =>
      have hipv4 : Reads IsAddrChar (readTrailingIpv4 limit index) := by
        unfold readTrailingIpv4
        split_ifs
        · exact (reads_readIpv4Addr.separator hcolon index).optional
        · exact Reads.pure _
      unfold readGroups
      refine hipv4.bind fun ipv4 => ?_
      cases ipv4 with
      | some a => exact Reads.pure _
      | none =>
          have hgroup := (reads_readNumber (fun c hc => .inl hc) (some 4) true (2 ^ 16)).separator hcolon index
          refine hgroup.optional.bind fun group => ?_
          cases group with
          | some group => exact (ih (index + 1)).bind fun _ => Reads.pure _
          | none => exact Reads.pure _

theorem reads_readIpv6Addr : Reads IsAddrChar readIpv6Addr := by
  have hcolon : IsAddrChar 58 := .inr (by decide)
  refine (reads_readGroups 8 0 8).bind fun ⟨head, headIpv4⟩ => ?_
  dsimp only
  split_ifs
  · exact Reads.pure _
  · exact Reads.failure
  · exact (reads_readGivenChar hcolon).bind fun _ => (reads_readGivenChar hcolon).bind fun _ =>
      (reads_readGroups _ 0 _).bind fun _ => Reads.pure _

theorem reads_readIpAddr : Reads IsAddrChar readIpAddr :=
  (reads_readIpv4Addr.map _).orElse (reads_readIpv6Addr.map _)

theorem reads_readPort : Reads IsAddrChar readPort :=
  (reads_readGivenChar (.inr (by decide))).bind fun _ =>
    (reads_readNumber (fun _ => isAddrChar_of_digit) _ _ _).bind fun _ => Reads.pure _

theorem reads_readScopeId : Reads IsAddrChar readScopeId :=
  (reads_readGivenChar (.inr (by decide))).bind fun _ =>
    (reads_readNumber (fun _ => isAddrChar_of_digit) _ _ _).bind fun _ => Reads.pure _

theorem reads_readSocketAddr : Reads IsAddrChar readSocketAddr := by
  refine Reads.orElse ?_ ?_
  · exact reads_readIpv4Addr.bind fun _ => reads_readPort.bind fun _ => Reads.pure _
  · exact (reads_readGivenChar (.inr (by decide))).bind fun _ => reads_readIpv6Addr.bind fun _ =>
      reads_readScopeId.optional.bind fun _ => (reads_readGivenChar (.inr (by decide))).bind fun _ =>
        reads_readPort.bind fun _ => Reads.pure _

end Parser

/-- An address is spelled with the characters of addresses. -/
theorem IpAddr.isAddrChar_of_fromStr {s : List UInt8} {a : IpAddr} (h : IpAddr.fromStr s = some a) :
    ∀ c ∈ s, Parser.IsAddrChar c := Parser.reads_readIpAddr.of_parseWith h

theorem SocketAddr.isAddrChar_of_fromStr {s : List UInt8} {a : SocketAddr} (h : SocketAddr.fromStr s = some a) :
    ∀ c ∈ s, Parser.IsAddrChar c := Parser.reads_readSocketAddr.of_parseWith h

end Rust
