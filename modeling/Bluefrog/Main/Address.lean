import Bluefrog.Lib.IpAddr
import Bluefrog.Udp.Handler

/-!
The source addresses the daemon hands to the request handlers. A dual-stack socket delivers IPv4
clients under a mapped IPv6 address; they are mapped back before anything else looks at them.
-/

open Rust

namespace Bluefrog

/-- The 16-byte form of an address, mapped for IPv4. -/
def ipTo16 : IpAddr → Bytes 16
  | .v4 a => a.toIpv6Mapped
  | .v6 a => a

/-- Maps an IPv4-mapped address back to IPv4. -/
def canonicalIp : IpAddr → IpAddr
  | .v6 a =>
      match Ipv6Addr.toIpv4Mapped a with
      | some v4 => .v4 v4
      | none => .v6 a
  | .v4 a => .v4 a

/-- Whether an address is publicly routable. -/
def isPublic : IpAddr → Bool
  | .v4 a =>
      !(Ipv4Addr.isPrivate a || Ipv4Addr.isLoopback a || Ipv4Addr.isLinkLocal a || Ipv4Addr.isUnspecified a ||
        Ipv4Addr.isBroadcast a || Ipv4Addr.isDocumentation a)
  | .v6 a =>
      let head := Ipv6Addr.head a
      !(Ipv6Addr.isLoopback a || Ipv6Addr.isUnspecified a || head &&& 0xfe00 == 0xfc00 || head &&& 0xffc0 == 0xfe80)

/-- The address of a stored peer. -/
def PeerRef.address (r : PeerRef) : IpAddr :=
  match r with
  | ⟨_, .v4, key⟩ => .v4 ⟨key.toList.take 4, by rw [List.length_take, key.toList_length]; rfl⟩
  | ⟨_, .v6, key⟩ => .v6 ⟨key.toList.take 16, by rw [List.length_take, key.toList_length]; rfl⟩

/-- The port of a stored peer. -/
def PeerRef.port (r : PeerRef) : UInt16 := UInt16.ofNat (beNat (r.key.toList.drop (r.family.keyLen - 2)))

/-- The peer an announce from an address is about. -/
def peerOf (hash : InfoHash) (ip : IpAddr) (port : UInt16) : PeerRef :=
  announcedPeer hash port (ipTo16 ip) ip.isIpv4

/-- A compact peer is the address and the port it was made of. -/
theorem port_peerOf (hash : InfoHash) (ip : IpAddr) (port : UInt16) : (peerOf hash ip port).port = port := by
  cases ip with
  | v4 a =>
      change UInt16.ofNat (beNat ((a.toList ++ toBe16 port).drop 4)) = port
      rw [List.drop_left' a.toList_length, ofNat_beNat_toBe16]
  | v6 a =>
      change UInt16.ofNat (beNat ((a.toList ++ toBe16 port).drop 16)) = port
      rw [List.drop_left' a.toList_length, ofNat_beNat_toBe16]

theorem address_peerOf (hash : InfoHash) (ip : IpAddr) (port : UInt16) : (peerOf hash ip port).address = ip := by
  cases ip with
  | v4 a => exact congrArg IpAddr.v4 (Bytes.ext (List.take_left' a.toList_length))
  | v6 a => exact congrArg IpAddr.v6 (Bytes.ext (List.take_left' a.toList_length))

/-- A stored peer is known by its torrent, its address and its port. -/
theorem peerOf_address (r : PeerRef) : peerOf r.hash r.address r.port = r := by
  obtain ⟨hash, f, key⟩ := r
  cases f with
  | v4 =>
      have hport : (key.toList.drop 4).length = 2 := by rw [List.length_drop, key.toList_length]; rfl
      refine congrArg (PeerRef.mk hash .v4) (Bytes.ext ?_)
      change key.toList.take 4 ++ toBe16 (UInt16.ofNat (beNat (key.toList.drop 4))) = key.toList
      rw [toBe16_ofNat_beNat hport, List.take_append_drop]
  | v6 =>
      have hport : (key.toList.drop 16).length = 2 := by rw [List.length_drop, key.toList_length]; rfl
      refine congrArg (PeerRef.mk hash .v6) (Bytes.ext ?_)
      change key.toList.take 16 ++ toBe16 (UInt16.ofNat (beNat (key.toList.drop 16))) = key.toList
      rw [toBe16_ofNat_beNat hport, List.take_append_drop]

theorem eq_peerOf_iff (r : PeerRef) (hash : InfoHash) (ip : IpAddr) (port : UInt16) :
    r = peerOf hash ip port ↔ r.hash = hash ∧ r.address = ip ∧ r.port = port := by
  constructor
  · rintro rfl
    exact ⟨rfl, address_peerOf hash ip port, port_peerOf hash ip port⟩
  · rintro ⟨rfl, rfl, rfl⟩
    exact (peerOf_address r).symm

end Bluefrog
