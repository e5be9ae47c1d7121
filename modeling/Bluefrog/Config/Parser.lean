import Bluefrog.L7.Client
import Bluefrog.Lib.AddrParser
import Bluefrog.Lib.Str
import Bluefrog.Lib.Text

/-!
The configuration parser: a line-based format of directives, a key and the rest of the line as its value.
The formatting of a text for an error message is a parameter; the source takes it from the language.
-/

open Rust

namespace Bluefrog
namespace ConfigFile

/-- The default tracker port, when a listen directive gives only an address. -/
def defaultPort : UInt16 := 6969

structure Config where
  udpListen : List SocketAddr
  tcpListen : List SocketAddr
  udpWorkers : Nat
  udpRcvbuf : Option Nat
  connidWindow : UInt32
  redirectUrl : Option Str
  rootdir : Option Str
  user : Option Str
  metricsListen : Option SocketAddr
  l7Enable : Bool
  l7 : Bluefrog.Config
  nftEnable : Bool
  nftTable : Str
  nftSet4 : List Str
  nftSet6 : List Str
  /-- The keys that are not recognised; their directives are ignored. -/
  unknown : List Str

def Config.default : Config where
  udpListen := []
  tcpListen := []
  udpWorkers := 0
  udpRcvbuf := none
  connidWindow := 120
  redirectUrl := none
  rootdir := none
  user := none
  metricsListen := none
  l7Enable := false
  l7 := .default
  nftEnable := false
  nftTable := str "inet filter"
  nftSet4 := [str "l7ban4"]
  nftSet6 := [str "l7ban6"]
  unknown := []

/-- A parse failure, with the line number counted from 1. -/
structure ParseError where
  line : Nat
  message : Str

/-- The formatting `{:?}` of a text. -/
abbrev DebugFmt := Str → Str

variable (debug : DebugFmt)

section Values

variable {α : Type} (val : Str) (line : Nat)

def field (fromStr : Str → Option α) : Except ParseError α :=
  match fromStr val with
  | some a => .ok a
  | none => .error ⟨line, str "invalid value: " ++ debug val⟩

def boolean : Except ParseError Bool :=
  if val = str "1" ∨ val = str "true" ∨ val = str "yes" then .ok true
  else if val = str "0" ∨ val = str "false" ∨ val = str "no" then .ok false
  else .error ⟨line, str "expected a boolean, got " ++ debug val⟩

/-- A comma-separated list of set names, one set a tier. -/
def setList : List Str := ((val.splitOn ',').map trim).filter fun s => !s.isEmpty

/-- A listen address: a socket address, or a bare address with the default port. -/
def listenAddr : Except ParseError SocketAddr :=
  match SocketAddr.fromStr val.asBytes with
  | some sa => .ok sa
  | none =>
      match IpAddr.fromStr val.asBytes with
      | some ip => .ok (.new ip defaultPort)
      | none => .error ⟨line, str "invalid listen address: " ++ debug val⟩

end Values

def parseU32 (s : Str) : Option UInt32 := (parseUnsigned (2 ^ 32) s.asBytes).map UInt32.ofNat

def parseUsize (s : Str) : Option Nat := parseUnsigned (2 ^ 64) s.asBytes

/-- The directives the parser recognises. -/
inductive Directive where
  | listenUdp
  | listenTcp
  | listenTcpUdp
  | listenUdpWorkers
  | listenUdpRcvbuf
  | udpConnidWindow
  | trackerRedirectUrl
  | trackerRootdir
  | trackerUser
  | metricsListen
  | l7Enable
  | l7ReannounceMinInterval
  | l7ScoreBanThreshold
  | l7BanDuration
  | l7MaxEntries
  | l7MaxOffenders
  | l7RebanCooldown
  | l7FastAnnounceGap
  | nftEnable
  | nftTable
  | nftSet4
  | nftSet6
  deriving DecidableEq

namespace Directive

def all : List Directive :=
  [listenUdp, listenTcp, listenTcpUdp, listenUdpWorkers, listenUdpRcvbuf, udpConnidWindow, trackerRedirectUrl,
    trackerRootdir, trackerUser, metricsListen, l7Enable, l7ReannounceMinInterval, l7ScoreBanThreshold, l7BanDuration,
    l7MaxEntries, l7MaxOffenders, l7RebanCooldown, l7FastAnnounceGap, nftEnable, nftTable, nftSet4, nftSet6]

/-- The key of a directive. -/
def key : Directive → Str
  | listenUdp => str "listen.udp"
  | listenTcp => str "listen.tcp"
  | listenTcpUdp => str "listen.tcp_udp"
  | listenUdpWorkers => str "listen.udp.workers"
  | listenUdpRcvbuf => str "listen.udp.rcvbuf"
  | udpConnidWindow => str "udp.connid_window"
  | trackerRedirectUrl => str "tracker.redirect_url"
  | trackerRootdir => str "tracker.rootdir"
  | trackerUser => str "tracker.user"
  | metricsListen => str "metrics.listen"
  | l7Enable => str "l7.enable"
  | l7ReannounceMinInterval => str "l7.reannounce_min_interval"
  | l7ScoreBanThreshold => str "l7.score_ban_threshold"
  | l7BanDuration => str "l7.ban_duration"
  | l7MaxEntries => str "l7.max_entries"
  | l7MaxOffenders => str "l7.max_offenders"
  | l7RebanCooldown => str "l7.reban_cooldown"
  | l7FastAnnounceGap => str "l7.fast_announce_gap"
  | nftEnable => str "nft.enable"
  | nftTable => str "nft.table"
  | nftSet4 => str "nft.set4"
  | nftSet6 => str "nft.set6"

/-- The directive of a key. -/
def ofKey (key : Str) : Option Directive := all.find? fun d => d.key = key

/-- What a directive does to the configuration, unless its value is malformed. -/
def update (val : Str) (line : Nat) : Directive → Except ParseError (Config → Config)
  | listenUdp => (listenAddr debug val line).map fun sa c => { c with udpListen := c.udpListen ++ [sa] }
  | listenTcp => (listenAddr debug val line).map fun sa c => { c with tcpListen := c.tcpListen ++ [sa] }
  | listenTcpUdp => (listenAddr debug val line).map fun sa c =>
      { c with udpListen := c.udpListen ++ [sa], tcpListen := c.tcpListen ++ [sa] }
  | listenUdpWorkers => (field debug val line parseUsize).map fun n c => { c with udpWorkers := n }
  | listenUdpRcvbuf => (field debug val line parseUsize).map fun n c => { c with udpRcvbuf := some n }
  | udpConnidWindow => (field debug val line parseU32).map fun n c => { c with connidWindow := n }
  | trackerRedirectUrl => .ok fun c => { c with redirectUrl := some val }
  | trackerRootdir => .ok fun c => { c with rootdir := some val }
  | trackerUser => .ok fun c => { c with user := some val }
  | metricsListen => (field debug val line fun s => SocketAddr.fromStr s.asBytes).map fun sa c =>
      { c with metricsListen := some sa }
  | l7Enable => (boolean debug val line).map fun b c => { c with l7Enable := b }
  | l7ReannounceMinInterval => (field debug val line parseU32).map fun n c =>
      { c with l7 := { c.l7 with reannounceMinInterval := n } }
  | l7ScoreBanThreshold => (field debug val line parseU32).map fun n c =>
      { c with l7 := { c.l7 with scoreBanThreshold := n } }
  | l7BanDuration => (field debug val line parseU32).map fun n c => { c with l7 := { c.l7 with banDuration := n } }
  | l7MaxEntries => (field debug val line parseUsize).map fun n c => { c with l7 := { c.l7 with maxEntries := n } }
  | l7MaxOffenders => (field debug val line parseUsize).map fun n c => { c with l7 := { c.l7 with maxOffenders := n } }
  | l7RebanCooldown => (field debug val line parseU32).map fun n c => { c with l7 := { c.l7 with rebanCooldown := n } }
  | l7FastAnnounceGap => (field debug val line parseU32).map fun n c =>
      { c with l7 := { c.l7 with fastAnnounceGap := n } }
  | nftEnable => (boolean debug val line).map fun b c => { c with nftEnable := b }
  | nftTable => .ok fun c => { c with nftTable := val }
  | nftSet4 => .ok fun c => { c with nftSet4 := setList val }
  | nftSet6 => .ok fun c => { c with nftSet6 := setList val }

end Directive

/-- The key and the value of a trimmed line. -/
def splitKey (trimmed : Str) : Str × Str :=
  match splitOnceWhitespace trimmed with
  | some (k, v) => (k, trim v)
  | none => (trimmed, [])

/-- A line that is empty or a comment. -/
def skipped (trimmed : Str) : Bool := trimmed.isEmpty || trimmed.head? == some '#'

/-- One turn of the loop of `parse`. -/
def parseLine (c : Config) (raw : Str) (line : Nat) : Except ParseError Config :=
  let trimmed := trim raw
  if skipped trimmed then .ok c
  else
    let (key, val) := splitKey trimmed
    match Directive.ofKey key with
    | some d => (d.update debug val line).map fun update => update c
    | none => .ok { c with unknown := c.unknown ++ [key] }

/-- Parses a whole configuration file. -/
def parse (text : Str) : Except ParseError Config :=
  (lines text).zipIdx.foldlM (fun c entry => parseLine debug c entry.1 (entry.2 + 1)) Config.default

end ConfigFile
end Bluefrog
