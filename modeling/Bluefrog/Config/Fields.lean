import Bluefrog.Config.Lines

/-!
What each directive accepts, and the fields of the configuration it writes. Directives that write different
fields commute.
-/

open Rust

namespace Bluefrog
namespace ConfigFile

/-- The fields of a configuration that directives write, those of the detector each on its own. -/
inductive Field where
  | udpListen
  | tcpListen
  | udpWorkers
  | udpRcvbuf
  | connidWindow
  | redirectUrl
  | rootdir
  | user
  | metricsListen
  | l7Enable
  | reannounceMinInterval
  | scoreBanThreshold
  | banDuration
  | maxEntries
  | maxOffenders
  | rebanCooldown
  | fastAnnounceGap
  | nftEnable
  | nftTable
  | nftSet4
  | nftSet6
  | unknown
  deriving DecidableEq

/-- The words for a boolean. -/
def booleanWords : List Str := ["1", "true", "yes", "0", "false", "no"].map str

namespace Directive

/-- The fields a directive writes. -/
def fields : Directive → List Field
  | listenUdp => [.udpListen]
  | listenTcp => [.tcpListen]
  | listenTcpUdp => [.udpListen, .tcpListen]
  | listenUdpWorkers => [.udpWorkers]
  | listenUdpRcvbuf => [.udpRcvbuf]
  | udpConnidWindow => [.connidWindow]
  | trackerRedirectUrl => [.redirectUrl]
  | trackerRootdir => [.rootdir]
  | trackerUser => [.user]
  | metricsListen => [.metricsListen]
  | l7Enable => [.l7Enable]
  | l7ReannounceMinInterval => [.reannounceMinInterval]
  | l7ScoreBanThreshold => [.scoreBanThreshold]
  | l7BanDuration => [.banDuration]
  | l7MaxEntries => [.maxEntries]
  | l7MaxOffenders => [.maxOffenders]
  | l7RebanCooldown => [.rebanCooldown]
  | l7FastAnnounceGap => [.fastAnnounceGap]
  | nftEnable => [.nftEnable]
  | nftTable => [.nftTable]
  | nftSet4 => [.nftSet4]
  | nftSet6 => [.nftSet6]

/-- The directive accepts the value. -/
def accepts (val : Str) : Directive → Bool
  | listenUdp | listenTcp | listenTcpUdp =>
      (SocketAddr.fromStr val.asBytes).isSome || (IpAddr.fromStr val.asBytes).isSome
  | metricsListen => (SocketAddr.fromStr val.asBytes).isSome
  | listenUdpWorkers | listenUdpRcvbuf | l7MaxEntries | l7MaxOffenders => (parseUsize val).isSome
  | udpConnidWindow | l7ReannounceMinInterval | l7ScoreBanThreshold | l7BanDuration | l7RebanCooldown
  | l7FastAnnounceGap => (parseU32 val).isSome
  | l7Enable | nftEnable => decide (val ∈ booleanWords)
  | trackerRedirectUrl | trackerRootdir | trackerUser | nftTable | nftSet4 | nftSet6 => true

/-- Why the directive does not accept the value. -/
def reason (debug : DebugFmt) (val : Str) : Directive → Str
  | listenUdp | listenTcp | listenTcpUdp => str "invalid listen address: " ++ debug val
  | l7Enable | nftEnable => str "expected a boolean, got " ++ debug val
  | _ => str "invalid value: " ++ debug val

/-- The directives whose value is free text, or a list of names. -/
def isText : Directive → Bool
  | trackerRedirectUrl | trackerRootdir | trackerUser | nftTable | nftSet4 | nftSet6 => true
  | _ => false

/-- What a free text does to the configuration. -/
def setText (val : Str) : Directive → Config → Config
  | trackerRedirectUrl, c => { c with redirectUrl := some val }
  | trackerRootdir, c => { c with rootdir := some val }
  | trackerUser, c => { c with user := some val }
  | nftTable, c => { c with nftTable := val }
  | nftSet4, c => { c with nftSet4 := setList val }
  | nftSet6, c => { c with nftSet6 := setList val }
  | _, c => c

end Directive

section Values

variable {debug : DebugFmt} {val : Str} {α β : Type}

/-- A value is read, or refused for a reason, on whatever line it stands. -/
structure Decides (read : Nat → Except ParseError α) (accepted : Bool) (reason : Str) : Prop where
  accept : accepted = true → ∃ a, ∀ line, read line = .ok a
  refuse : accepted = false → ∀ line, read line = .error ⟨line, reason⟩

theorem Decides.map {read : Nat → Except ParseError α} {accepted : Bool} {reason : Str}
    (h : Decides read accepted reason) (f : α → β) : Decides (fun line => (read line).map f) accepted reason where
  accept haccepted := by
    obtain ⟨a, ha⟩ := h.accept haccepted
    exact ⟨f a, fun line => by rw [ha]; rfl⟩
  refuse hrefused line := by rw [h.refuse hrefused]; rfl

theorem decides_field (fromStr : Str → Option α) :
    Decides (fun line => field debug val line fromStr) (fromStr val).isSome (str "invalid value: " ++ debug val) := by
  unfold field
  cases fromStr val with
  | none => exact ⟨(fun h => by cases h), fun _ _ => rfl⟩
  | some a => exact ⟨fun _ => ⟨a, fun _ => rfl⟩, fun h => by cases h⟩

theorem decides_boolean : Decides (fun line => boolean debug val line) (decide (val ∈ booleanWords))
    (str "expected a boolean, got " ++ debug val) := by
  have hwords : val ∈ booleanWords ↔
      (val = str "1" ∨ val = str "true" ∨ val = str "yes") ∨ (val = str "0" ∨ val = str "false" ∨ val = str "no") := by
    simp only [booleanWords, List.map_cons, List.map_nil, List.mem_cons, List.not_mem_nil, or_false, or_assoc]
  unfold boolean
  constructor
  · intro haccepted
    rcases hwords.mp (of_decide_eq_true haccepted) with htrue | hfalse
    · exact ⟨true, fun _ => if_pos htrue⟩
    · by_cases htrue : val = str "1" ∨ val = str "true" ∨ val = str "yes"
      · exact ⟨true, fun _ => if_pos htrue⟩
      · exact ⟨false, fun _ => by rw [if_neg htrue, if_pos hfalse]⟩
  · intro hrefused line
    obtain ⟨htrue, hfalse⟩ := not_or.mp (mt hwords.mpr (of_decide_eq_false hrefused))
    rw [if_neg htrue, if_neg hfalse]

theorem decides_listenAddr : Decides (fun line => listenAddr debug val line)
    ((SocketAddr.fromStr val.asBytes).isSome || (IpAddr.fromStr val.asBytes).isSome)
    (str "invalid listen address: " ++ debug val) := by
  unfold listenAddr
  cases SocketAddr.fromStr val.asBytes with
  | some sa => exact ⟨fun _ => ⟨sa, fun _ => rfl⟩, fun h => by cases h⟩
  | none =>
      cases IpAddr.fromStr val.asBytes with
      | some ip => exact ⟨fun _ => ⟨_, fun _ => rfl⟩, fun h => by cases h⟩
      | none => exact ⟨(fun h => by cases h), fun _ _ => rfl⟩

/-- A directive decides on its value alone. -/
theorem Directive.decides_update (d : Directive) :
    Decides (fun line => d.update debug val line) (d.accepts val) (d.reason debug val) := by
  cases d with
  | listenUdp | listenTcp | listenTcpUdp => exact decides_listenAddr.map _
  | l7Enable | nftEnable => exact decides_boolean.map _
  | metricsListen => exact (decides_field fun s => SocketAddr.fromStr s.asBytes).map _
  | listenUdpWorkers | listenUdpRcvbuf | l7MaxEntries | l7MaxOffenders => exact (decides_field parseUsize).map _
  | udpConnidWindow | l7ReannounceMinInterval | l7ScoreBanThreshold | l7BanDuration | l7RebanCooldown
  | l7FastAnnounceGap => exact (decides_field parseU32).map _
  | trackerRedirectUrl | trackerRootdir | trackerUser | nftTable | nftSet4 | nftSet6 =>
      exact ⟨fun _ => ⟨_, fun _ => rfl⟩, fun h => by cases h⟩

end Values

section Updates

variable {debug : DebugFmt} {d d' : Directive} {val val' : Str} {line line' : Nat} {u u' : Config → Config}

theorem exists_of_map {α : Type} {x : Except ParseError α} {f : α → Config → Config} (h : x.map f = .ok u) :
    ∃ a, f a = u := by
  cases x with
  | error e => cases h
  | ok a => exact ⟨a, Except.ok.inj h⟩

namespace Directive

theorem update_of_isText (h : d.isText = true) : d.update debug val line = .ok (d.setText val) := by
  cases d <;> first | rfl | cases h

/-- The updates of other directives do not touch a text. -/
theorem update_setText (h : d'.update debug val line = .ok u) (hne : d' ≠ d) (text : Str) (c : Config) :
    u (d.setText text c) = d.setText text (u c) := by
  cases d' with
  | trackerRedirectUrl | trackerRootdir | trackerUser | nftTable | nftSet4 | nftSet6 =>
      cases h
      cases d <;> first | rfl | exact absurd rfl hne
  | _ =>
      obtain ⟨a, rfl⟩ := exists_of_map h
      cases d <;> rfl

/-- The updates do not touch the unknown keys. -/
theorem update_unknown (h : d.update debug val line = .ok u) (key : Str) (c : Config) :
    u { c with unknown := c.unknown ++ [key] } = { u c with unknown := (u c).unknown ++ [key] } := by
  cases d with
  | trackerRedirectUrl | trackerRootdir | trackerUser | nftTable | nftSet4 | nftSet6 =>
      cases h
      rfl
  | _ =>
      obtain ⟨a, rfl⟩ := exists_of_map h
      rfl

theorem ne_of_disjoint (hdisjoint : ∀ f ∈ d.fields, f ∉ d'.fields) : d ≠ d' := by
  rintro rfl
  cases d <;> exact hdisjoint _ List.mem_cons_self List.mem_cons_self

/-- Directives that write different fields commute. -/
theorem update_comm (h : d.update debug val line = .ok u) (h' : d'.update debug val' line' = .ok u')
    (hdisjoint : ∀ f ∈ d.fields, f ∉ d'.fields) (c : Config) : u (u' c) = u' (u c) := by
  have hne := ne_of_disjoint hdisjoint
  cases htext : d.isText with
  | true =>
      cases (update_of_isText htext).symm.trans h
      exact (update_setText h' hne.symm val c).symm
  | false =>
      cases htext' : d'.isText with
      | true =>
          cases (update_of_isText htext').symm.trans h'
          exact update_setText h hne val' c
      | false =>
          cases d with
          | trackerRedirectUrl | trackerRootdir | trackerUser | nftTable | nftSet4 | nftSet6 => cases htext
          | _ =>
              obtain ⟨a, rfl⟩ := exists_of_map h
              cases d' with
              | trackerRedirectUrl | trackerRootdir | trackerUser | nftTable | nftSet4 | nftSet6 => cases htext'
              | _ =>
                  obtain ⟨b, rfl⟩ := exists_of_map h'
                  first | rfl | exact absurd hdisjoint (by decide)

end Directive

end Updates

end ConfigFile
end Bluefrog
