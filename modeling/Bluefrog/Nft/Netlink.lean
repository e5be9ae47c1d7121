import Bluefrog.Lib.IpAddr
import Bluefrog.Lib.Str
import Bluefrog.Nft.Sink

/-!
The netlink sink: where a ban is written. The table is given in the configuration as a family and a name;
the sets of each address family are given as a list, one set a tier. What the kernel answers is a parameter.
-/

open Rust

namespace Bluefrog
namespace Nft

inductive ProtocolFamily where
  | ipv4
  | ipv6
  | inet
  deriving DecidableEq

structure NetlinkSink where
  family : ProtocolFamily
  table : Str
  sets4 : List String
  sets6 : List String
  deriving DecidableEq

/-- An address to be added to a set of a table. -/
structure Element where
  family : ProtocolFamily
  table : Str
  set : String
  ip : IpAddr
  deriving DecidableEq

namespace NetlinkSink

/-- Builds a sink for a table, such as `inet filter`, and the sets of each tier. -/
def new (table : Str) (sets4 sets6 : List String) : NetlinkSink :=
  let parts := splitWhitespace table
  let family :=
    if parts[0]? = some (str "ip") then .ipv4
    else if parts[0]? = some (str "ip6") then .ipv6
    else .inet
  ⟨family, (parts[1]?).getD (str "filter"), sets4, sets6⟩

/-- The sets of an address's family. -/
def setsOf (sink : NetlinkSink) : IpAddr → List String
  | .v4 _ => sink.sets4
  | .v6 _ => sink.sets6

/-- Adds an address to the set of its family for a tier, if there is one. -/
def ban (sink : NetlinkSink) (kernel : Element → Except String Unit) (ip : IpAddr) (tier : Nat) (_duration : UInt32) :
    Except String Element := do
  let set ← tierSet (sink.setsOf ip) tier
  let element := ⟨sink.family, sink.table, set, ip⟩
  kernel element
  .ok element

end NetlinkSink

/-- A write goes to the set that the tier picks among those of the address's own family. -/
theorem ban_eq_ok {sink : NetlinkSink} {kernel : Element → Except String Unit} {ip : IpAddr} {tier : Nat}
    {duration : UInt32} {element : Element} (h : sink.ban kernel ip tier duration = .ok element) :
    tierSet (sink.setsOf ip) tier = .ok element.set ∧
      element.family = sink.family ∧ element.table = sink.table ∧ element.ip = ip := by
  unfold NetlinkSink.ban at h
  cases hset : tierSet (sink.setsOf ip) tier with
  | error e =>
      rw [hset] at h
      cases h
  | ok set =>
      rw [hset] at h
      cases hkernel : kernel ⟨sink.family, sink.table, set, ip⟩ with
      | error e =>
          simp only [bind, Except.bind, hkernel] at h
          cases h
      | ok u =>
          simp only [bind, Except.bind, hkernel] at h
          cases h
          exact ⟨rfl, rfl, rfl, rfl⟩

end Nft
end Bluefrog
