import Bluefrog.Lib.Bytes

/-! The IP addresses of the Rust standard library, with the predicates on them that a tracker asks. -/

namespace Rust

abbrev Ipv4Addr := Bytes 4

abbrev Ipv6Addr := Bytes 16

inductive IpAddr where
  | v4 (a : Ipv4Addr)
  | v6 (a : Ipv6Addr)
  deriving DecidableEq

/-- The prefix of the IPv4-mapped addresses, `::ffff:0:0/96`. -/
def mappedPrefix : List UInt8 := [0, 0, 0, 0, 0, 0, 0, 0, 0, 0, 0xff, 0xff]

/-- `v4.to_ipv6_mapped().octets()`. -/
def Ipv4Addr.toIpv6Mapped (a : Ipv4Addr) : Ipv6Addr :=
  ⟨mappedPrefix ++ a.toList, by rw [List.length_append, a.toList_length]; rfl⟩

/-- `v6.to_ipv4_mapped()`. -/
def Ipv6Addr.toIpv4Mapped (a : Ipv6Addr) : Option Ipv4Addr :=
  if a.toList.take 12 = mappedPrefix then toArray 4 (a.toList.drop 12) else none

namespace IpAddr

def isIpv4 : IpAddr → Bool
  | v4 _ => true
  | v6 _ => false

end IpAddr

namespace Ipv4Addr

def octet (a : Ipv4Addr) (i : Fin 4) : UInt8 := a.get i

def isPrivate (a : Ipv4Addr) : Bool :=
  octet a 0 == 10 || (octet a 0 == 172 && octet a 1 &&& 0xf0 == 16) || (octet a 0 == 192 && octet a 1 == 168)

def isLoopback (a : Ipv4Addr) : Bool := octet a 0 == 127

def isLinkLocal (a : Ipv4Addr) : Bool := octet a 0 == 169 && octet a 1 == 254

def isUnspecified (a : Ipv4Addr) : Bool := a.toList == [0, 0, 0, 0]

def isBroadcast (a : Ipv4Addr) : Bool := a.toList == [255, 255, 255, 255]

def isDocumentation (a : Ipv4Addr) : Bool :=
  a.toList.take 3 == [192, 0, 2] || a.toList.take 3 == [198, 51, 100] || a.toList.take 3 == [203, 0, 113]

end Ipv4Addr

namespace Ipv6Addr

def isLoopback (a : Ipv6Addr) : Bool := a.toList == [0, 0, 0, 0, 0, 0, 0, 0, 0, 0, 0, 0, 0, 0, 0, 1]

def isUnspecified (a : Ipv6Addr) : Bool := a.toList == List.replicate 16 0

/-- The first of the eight segments. -/
def head (a : Ipv6Addr) : UInt16 := UInt16.ofNat (beNat (a.toList.take 2))

end Ipv6Addr

def IpAddr.isLoopback : IpAddr → Bool
  | v4 a => Ipv4Addr.isLoopback a
  | v6 a => Ipv6Addr.isLoopback a

end Rust
