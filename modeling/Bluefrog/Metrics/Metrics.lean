import Bluefrog.Lib.Text

/-!
The counters of the tracker and their text exposition. A counter is a 64-bit number that wraps.
-/

open Rust

namespace Bluefrog

structure Metrics where
  udpAnnounces : UInt64
  udpScrapes : UInt64
  udpConnects : UInt64
  udpConnidMismatch : UInt64
  udpDropped : UInt64
  httpAnnounces : UInt64
  httpScrapes : UInt64
  errors : UInt64
  l7Flagged : UInt64
  l7Bans : UInt64
  l7BansEscalated : UInt64
  nftErrors : UInt64
  deriving DecidableEq

inductive Counter where
  | udpAnnounce
  | udpScrape
  | udpConnect
  | udpConnidMismatch
  | udpDropped
  | httpAnnounce
  | httpScrape
  | error
  | l7Flagged
  | l7Ban
  | l7BanEscalated
  | nftError
  deriving DecidableEq

/-- What is sampled from the live state when the counters are rendered. -/
structure Gauges where
  torrents : UInt64
  seeders : UInt64
  leechers : UInt64
  l7Tracked : UInt64
  l7Offenders : UInt64
  deriving DecidableEq

namespace Metrics

def new : Metrics := ⟨0, 0, 0, 0, 0, 0, 0, 0, 0, 0, 0, 0⟩

def field (m : Metrics) : Counter → UInt64
  | .udpAnnounce => m.udpAnnounces
  | .udpScrape => m.udpScrapes
  | .udpConnect => m.udpConnects
  | .udpConnidMismatch => m.udpConnidMismatch
  | .udpDropped => m.udpDropped
  | .httpAnnounce => m.httpAnnounces
  | .httpScrape => m.httpScrapes
  | .error => m.errors
  | .l7Flagged => m.l7Flagged
  | .l7Ban => m.l7Bans
  | .l7BanEscalated => m.l7BansEscalated
  | .nftError => m.nftErrors

/-- Increments a counter by one. -/
def inc (m : Metrics) : Counter → Metrics
  | .udpAnnounce => { m with udpAnnounces := m.udpAnnounces + 1 }
  | .udpScrape => { m with udpScrapes := m.udpScrapes + 1 }
  | .udpConnect => { m with udpConnects := m.udpConnects + 1 }
  | .udpConnidMismatch => { m with udpConnidMismatch := m.udpConnidMismatch + 1 }
  | .udpDropped => { m with udpDropped := m.udpDropped + 1 }
  | .httpAnnounce => { m with httpAnnounces := m.httpAnnounces + 1 }
  | .httpScrape => { m with httpScrapes := m.httpScrapes + 1 }
  | .error => { m with errors := m.errors + 1 }
  | .l7Flagged => { m with l7Flagged := m.l7Flagged + 1 }
  | .l7Ban => { m with l7Bans := m.l7Bans + 1 }
  | .l7BanEscalated => { m with l7BansEscalated := m.l7BansEscalated + 1 }
  | .nftError => { m with nftErrors := m.nftErrors + 1 }

/-- The counters, by name, in the order in which they are rendered. -/
def counters : List (List UInt8 × Counter) :=
  [(ascii "bf_udp_announces_total", .udpAnnounce),
    (ascii "bf_udp_scrapes_total", .udpScrape),
    (ascii "bf_udp_connects_total", .udpConnect),
    (ascii "bf_udp_connid_mismatch_total", .udpConnidMismatch),
    (ascii "bf_udp_dropped_total", .udpDropped),
    (ascii "bf_http_announces_total", .httpAnnounce),
    (ascii "bf_http_scrapes_total", .httpScrape),
    (ascii "bf_errors_total", .error),
    (ascii "bf_l7_flagged_total", .l7Flagged),
    (ascii "bf_l7_bans_total", .l7Ban),
    (ascii "bf_l7_bans_escalated_total", .l7BanEscalated),
    (ascii "bf_nft_errors_total", .nftError)]

/-- The gauges, by name, in the order in which they are rendered. -/
def gaugeValues (g : Gauges) : List (List UInt8 × UInt64) :=
  [(ascii "bf_torrents", g.torrents),
    (ascii "bf_seeders", g.seeders),
    (ascii "bf_leechers", g.leechers),
    (ascii "bf_l7_tracked_sources", g.l7Tracked),
    (ascii "bf_l7_offenders", g.l7Offenders)]

/-- The two lines of a metric: its type and its sample. -/
def metricLines (kind name : List UInt8) (v : UInt64) : List UInt8 :=
  ascii "# TYPE " ++ name ++ ascii " " ++ kind ++ ascii "\n" ++ name ++ ascii " " ++ decimal v.toNat ++ ascii "\n"

/-- Renders the text exposition. -/
def render (m : Metrics) (gauges : Gauges) : List UInt8 :=
  let out := counters.foldl (fun out metric => out ++ metricLines (ascii "counter") metric.1 (m.field metric.2)) []
  (gaugeValues gauges).foldl (fun out metric => out ++ metricLines (ascii "gauge") metric.1 metric.2) out

theorem field_new (c : Counter) : new.field c = 0 := by cases c <;> rfl

/-- An increment is of one counter. -/
theorem field_inc (m : Metrics) (c c' : Counter) :
    (m.inc c).field c' = if c' = c then m.field c' + 1 else m.field c' := by
  cases c <;> cases c' <;> rfl

end Metrics
end Bluefrog
