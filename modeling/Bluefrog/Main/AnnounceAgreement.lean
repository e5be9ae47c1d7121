import Bluefrog.Http.Query

/-!
The two front ends agree on announces. A BEP-15 datagram and a query string that carry the same
info-hash, port, left value and event make the same call of the store, and report the same counts.
-/

open Rust BencodeFormat

namespace Bluefrog

open Udp Http

/-- The parameters of a query that an announce is made of. -/
inductive Field where
  | infoHash
  | port
  | left
  | event
  deriving DecidableEq

def eventName : Event → List UInt8
  | .none => ascii "started"
  | .completed => ascii "completed"
  | .stopped => ascii "stopped"

namespace Field

def name : Field → List UInt8
  | infoHash => ascii "info_hash"
  | port => ascii "port"
  | left => ascii "left"
  | event => ascii "event"

/-- The raw value stands for the field of the announce. -/
def Spells (a : Announce) (raw : List UInt8) : Field → Prop
  | infoHash => PercentEncoding raw a.infoHash.toList
  | port => SpellsDecimal raw a.port.toNat
  | left => SpellsDecimal raw a.left.toNat
  | event => raw = eventName a.event

/-- The segment gives the field of the announce. -/
def Says (a : Announce) (s : List UInt8) (f : Field) : Prop := ∃ raw, f.Spells a raw ∧ s = segmentOf f.name raw

theorem name_injective : Function.Injective name := by
  intro f f' h
  cases f <;> cases f' <;> first | rfl | exact absurd h (by decide)

theorem eq_notMem_name (f : Field) : 61 ∉ f.name := by cases f <;> decide

theorem amp_notMem_name (f : Field) : 38 ∉ f.name := by cases f <;> decide

theorem amp_notMem_of_spells {a : Announce} {raw : List UInt8} {f : Field} (h : f.Spells a raw) : 38 ∉ raw := by
  cases f with
  | infoHash => exact h.amp_notMem
  | port => exact Http.amp_notMem_of_spells h
  | left => exact Http.amp_notMem_of_spells h
  | event =>
      rw [show raw = eventName a.event from h]
      cases a.event <;> decide

theorem amp_notMem_of_says {a : Announce} {s : List UInt8} {f : Field} (h : f.Says a s) : 38 ∉ s := by
  obtain ⟨raw, hraw, rfl⟩ := h
  rw [segmentOf, List.mem_append, List.mem_cons]
  rintro (hmem | hmem | hmem)
  · exact amp_notMem_name f hmem
  · exact absurd hmem (by decide)
  · exact amp_notMem_of_spells hraw hmem

end Field

/-- The names the announce handler knows. -/
def knownNames : List (List UInt8) :=
  [ascii "info_hash", ascii "port", ascii "left", ascii "event", ascii "compact", ascii "numwant"]

theorem Field.name_mem_knownNames (f : Field) : f.name ∈ knownNames := by cases f <;> decide

/-- A segment of a query that carries the announce: one of its fields, or a parameter with a name the
handler does not know. -/
def Parameter (a : Announce) (s : List UInt8) : Prop :=
  (∃ f : Field, f.Says a s) ∨ (38 ∉ s ∧ s.takeWhile (· != 61) ∉ knownNames)

/-- The segments carry the announce, in any order. The event may be left out if there is none. -/
structure Carries (a : Announce) (segments : List (List UInt8)) : Prop where
  each : ∀ s ∈ segments, Parameter a s
  every : ∀ f : Field, f ≠ .event ∨ a.event ≠ .none → ∃ s ∈ segments, f.Says a s

/-- What the loop has read of the field is the field of the announce. -/
def Http.Params.Has (a : Announce) (p : Params) : Field → Prop
  | .infoHash => p.infoHash = some a.infoHash
  | .port => p.port = some a.port
  | .left => p.left = a.left
  | .event => eventOf p.event = a.event

theorem eventOf_eventName (event : Event) : eventOf (eventName event) = event := by cases event <;> rfl

/-- Reading a field settles it and leaves the others alone. -/
theorem read_field {a : Announce} {raw : List UInt8} {f : Field} (h : f.Spells a raw) (p : Params) :
    ∃ p', p.read (f.name, raw) = .ok p' ∧ p'.Has a f ∧ ∀ f', f' ≠ f → p.Has a f' → p'.Has a f' := by
  cases f with
  | infoHash =>
      refine ⟨{ p with infoHash := some a.infoHash }, ?_, rfl, fun f' hne hhas => ?_⟩
      · unfold Params.read
        simp only [Field.name, if_true, decodeHash_of_encoding h]
      · cases f' <;> first | exact hhas | exact absurd rfl hne
  | port =>
      refine ⟨{ p with port := some a.port }, ?_, rfl, fun f' hne hhas => ?_⟩
      · unfold Params.read
        simp only [Field.name, if_neg (show ascii "port" ≠ ascii "info_hash" by decide), if_true,
          parseUnsigned_of_spells h a.port.toNat_lt, UInt16.ofNat_toNat]
      · cases f' <;> first | exact hhas | exact absurd rfl hne
  | left =>
      refine ⟨{ p with left := a.left }, ?_, rfl, fun f' hne hhas => ?_⟩
      · unfold Params.read
        simp only [Field.name, if_neg (show ascii "left" ≠ ascii "info_hash" by decide),
          if_neg (show ascii "left" ≠ ascii "port" by decide), if_true,
          parseUnsigned_of_spells h a.left.toNat_lt, Option.getD_some, UInt64.ofNat_toNat]
      · cases f' <;> first | exact hhas | exact absurd rfl hne
  | event =>
      refine ⟨{ p with event := raw }, rfl, ?_, fun f' hne hhas => ?_⟩
      · rw [Params.Has, show raw = eventName a.event from h, eventOf_eventName]
      · cases f' <;> first | exact hhas | exact absurd rfl hne

/-- A parameter of an unknown name is skipped. -/
theorem read_unknown {name : List UInt8} (h : name ∉ knownNames) (p : Params) (raw : List UInt8) :
    p.read (name, raw) = .ok p := by
  simp only [knownNames, List.mem_cons, List.not_mem_nil, or_false, not_or] at h
  obtain ⟨hhash, hport, hleft, hevent, hcompact, hnumwant⟩ := h
  unfold Params.read
  simp only [if_neg hhash, if_neg hport, if_neg hleft, if_neg hevent, if_neg hcompact, if_neg hnumwant]

/-- One turn of the loop on a parameter of the query. -/
theorem read_parameter {a : Announce} {s : List UInt8} (h : Parameter a s) (p : Params) :
    ∃ p', p.read (splitSegment s) = .ok p' ∧ ∀ f : Field, f.Says a s ∨ p.Has a f → p'.Has a f := by
  rcases h with ⟨f, raw, hraw, rfl⟩ | ⟨-, hname⟩
  · obtain ⟨p', hread, hhas, hother⟩ := read_field hraw p
    refine ⟨p', by rw [splitSegment_segmentOf f.eq_notMem_name, hread], fun f' hf' => ?_⟩
    by_cases hff : f' = f
    · exact hff ▸ hhas
    · rcases hf' with ⟨raw', -, heq⟩ | hhas'
      · have hsplit := congrArg splitSegment heq
        rw [splitSegment_segmentOf f.eq_notMem_name, splitSegment_segmentOf f'.eq_notMem_name] at hsplit
        exact absurd (Field.name_injective (congrArg Prod.fst hsplit)).symm hff
      · exact hother f' hff hhas'
  · rw [← splitSegment_fst] at hname
    refine ⟨p, read_unknown hname p _, fun f hf => hf.elim (fun hsays => ?_) id⟩
    obtain ⟨raw, -, rfl⟩ := hsays
    rw [splitSegment_segmentOf f.eq_notMem_name] at hname
    exact absurd f.name_mem_knownNames hname

/-- The loop settles every field that some segment gives. -/
theorem foldlM_parameters {a : Announce} {segments : List (List UInt8)} (h : ∀ s ∈ segments, Parameter a s)
    (p : Params) :
    ∃ p', ((segments.filter fun s => s ≠ []).map splitSegment).foldlM Params.read p = .ok p' ∧
      ∀ f : Field, (∃ s ∈ segments, f.Says a s) ∨ p.Has a f → p'.Has a f := by
  induction segments generalizing p with
  | nil => exact ⟨p, rfl, fun f hf => hf.elim (fun ⟨s, hs, _⟩ => absurd hs List.not_mem_nil) id⟩
  | cons s segments ih =>
      have htail := fun s' hs' => h s' (List.mem_cons_of_mem s hs')
      by_cases hempty : s = []
      · obtain ⟨p', hfold, hhas⟩ := ih htail p
        refine ⟨p', by rw [List.filter_cons_of_neg (by simp [hempty]), hfold], fun f hf => hhas f ?_⟩
        rcases hf with ⟨s', hs', hsays⟩ | hp
        · rcases List.mem_cons.mp hs' with rfl | hs'
          · obtain ⟨raw, -, rfl⟩ := hsays
            exact absurd hempty (segmentOf_ne_nil _ _)
          · exact .inl ⟨s', hs', hsays⟩
        · exact .inr hp
      · obtain ⟨p₁, hread, hstep⟩ := read_parameter (h s List.mem_cons_self) p
        obtain ⟨p', hfold, hhas⟩ := ih htail p₁
        refine ⟨p', ?_, fun f hf => hhas f ?_⟩
        · rw [List.filter_cons_of_pos (by simp [hempty]), List.map_cons, List.foldlM_cons, hread]
          exact hfold
        · rcases hf with ⟨s', hs', hsays⟩ | hp
          · rcases List.mem_cons.mp hs' with rfl | hs'
            · exact .inr (hstep f (.inl hsays))
            · exact .inl ⟨s', hs', hsays⟩
          · exact .inr (hstep f (.inr hp))

/-- A query that carries the announce is read as one. -/
theorem foldlM_carries {a : Announce} {segments : List (List UInt8)} (h : Carries a segments) :
    ∃ p, (queryPairs (joinSegments segments)).foldlM Params.read Params.default = .ok p ∧ ∀ f : Field, p.Has a f := by
  have hamp : ∀ s ∈ segments, 38 ∉ s := by
    intro s hs
    rcases h.each s hs with ⟨f, hsays⟩ | ⟨hamp, -⟩
    · exact Field.amp_notMem_of_says hsays
    · exact hamp
  obtain ⟨p, hfold, hhas⟩ := foldlM_parameters h.each Params.default
  refine ⟨p, by rw [queryPairs_joinSegments hamp, hfold], fun f => hhas f ?_⟩
  by_cases habsent : f = .event ∧ a.event = .none
  · right
    rw [habsent.1, Params.Has, habsent.2]
    rfl
  · refine .inl (h.every f ?_)
    by_cases hf : f = .event
    · exact .inr fun hnone => habsent ⟨hf, hnone⟩
    · exact .inl hf

/-- What an announce does to the store depends neither on the peer count asked for, nor on the reply
buffer, nor on the iteration order. -/
theorem step_announceOp_congr (order order' : HashOrder) (store : Store) (r : PeerRef) (left : UInt64)
    (event : Event) (numwant numwant' : Nat) (nowMin : UInt32) (out out' : List UInt8) :
    store.step order (announceOp r left event numwant nowMin out) =
      store.step order' (announceOp r left event numwant' nowMin out') := by
  rw [announceOp, announceOp]
  split_ifs <;> rfl

/-- The counters of an announce reply, at their places in the header. -/
theorem announceHeader_counts (transactionId interval : UInt32) (counts : Counts) (peers : List UInt8) :
    (slice (announceHeader transactionId interval counts ++ peers) 12 16).bind beU32 = some counts.incomplete ∧
      (slice (announceHeader transactionId interval counts ++ peers) 16 20).bind beU32 = some counts.complete := by
  simp (disch := grind) only [announceHeader, List.append_assoc, slice_skip, slice_head, length_toBe32,
    Nat.reduceSub, Option.bind_some, beU32_toBe32, and_self]

/-- **The two front ends agree on announces.** -/
theorem announce_agreement (blake3 : Blake3) (itoa : Itoa) (order order' : HashOrder) (hitoa : itoa.Formats)
    (store : Store) (connid : ConnId) (a : Announce) (eventCode : UInt32) (rest : List UInt8)
    (segments : List (List UInt8)) (srcIp : Bytes 16) (isV4 : Bool) (nowSecs : UInt64)
    (nowMin interval interval' : UInt32) (out : List UInt8) (hevent : Event.fromUdp eventCode = a.event)
    (hcarries : Carries a segments)
    (hmin : nowMin.toNat = nowSecs.toNat / 60)
    (hid : connid.validate blake3 a.connectionId srcIp.toList nowSecs = true) :
    ∃ (store' : Store) (reply body : List UInt8) (entries : List (List UInt8 × Value)),
      Handler.handle blake3 order ⟨store, connid⟩ (announceDatagram a eventCode rest) srcIp isV4 nowSecs interval out =
        some (.reply reply.length, ⟨store', connid⟩, reply) ∧
      HttpHandler.handle itoa order' ⟨store⟩ (ascii "/announce" ++ ascii "?" ++ joinSegments segments) srcIp isV4
        nowMin interval' = (⟨store'⟩, .body body) ∧
      (slice reply 12 16).bind beU32 = some (store'.scrape a.infoHash).incomplete ∧
      (slice reply 16 20).bind beU32 = some (store'.scrape a.infoHash).complete ∧
      decode body = some (.dict (Bencode.countsEntries (store'.scrape a.infoHash) ++ entries)) := by
  have hminute : (nowSecs / 60).toUInt32 = nowMin := by
    apply UInt32.toNat_inj.mp
    rw [UInt64.toNat_toUInt32, UInt64.toNat_div, show (60 : UInt64).toNat = 60 from rfl, ← hmin]
    exact Nat.mod_eq_of_lt nowMin.toNat_lt
  -- the datagram
  obtain ⟨peers, hudp, -⟩ := Handler.handle_announce blake3 order ⟨store, connid⟩ srcIp isV4 nowSecs interval out
    (parse_announceDatagram hevent rest) hid
  rw [hminute] at hudp
  -- the target
  obtain ⟨p, hp, hhas⟩ := foldlM_carries hcarries
  obtain ⟨peers4, peers6, hannounce, hlen4, hlen6⟩ := HttpHandler.announce_spec itoa order' ⟨store⟩ srcIp isV4 nowMin
    interval' hp (hhas .infoHash) (hhas .port)
  have hleft : p.left = a.left := hhas .left
  have hname : eventOf p.event = a.event := hhas .event
  rw [hleft, hname, step_announceOp_congr order' order store _ _ _ _ (numwant a.numWant isV4) _ _
    (List.replicate 20 0)] at hannounce
  generalize store.step order (announceOp (announcedPeer a.infoHash a.port srcIp isV4) a.left a.event
    (numwant a.numWant isV4) nowMin (List.replicate 20 0)) = store' at hudp hannounce
  have hcounts := announceHeader_counts a.transactionId interval (store'.scrape a.infoHash) peers
  obtain ⟨entries, hdecode⟩ := Bencode.decode_announceResponse hitoa (store'.scrape a.infoHash) interval'
    (show peers4.length < 2 ^ 64 by omega) (show peers6.length < 2 ^ 64 by omega)
  refine ⟨store', _, _, entries, ?_, ?_, hcounts.1, hcounts.2, hdecode⟩
  · rw [hudp]
    simp only [announceHeader, List.length_append, length_toBe32]
  · rw [HttpHandler.handle, splitOnce_target (by decide)]
    exact hannounce

/-- A tracker with a seeder of the torrent. -/
noncomputable def startedStore : Store :=
  .run HashOrder.arbitrary [.announce ⟨.replicate _ 65, .v4, .replicate _ 2⟩ 0x80 50 10 []]

def startedConnid : ConnId := .new (.replicate _ 7) 120

/-- An announce that both front ends can be told, and the segments of its query. -/
def startedAnnounce : Announce where
  connectionId := startedConnid.generate cutHash (List.replicate 16 1) 1000
  transactionId := 1
  infoHash := .replicate _ 65
  peerId := .replicate _ 66
  downloaded := 0
  left := 100
  uploaded := 0
  event := .none
  declaredIp := 0
  key := 1
  numWant := -1
  port := 6881

def startedSegments : List (List UInt8) :=
  [ascii "peer_id=BBBBBBBBBBBBBBBBBBBB", ascii "port=6881", ascii "info_hash=AAAAAAAAAAAAAAAAAAAA", ascii "left=100"]

theorem carries_started : Carries startedAnnounce startedSegments := by
  have hhash : Field.infoHash.Says startedAnnounce (ascii "info_hash=AAAAAAAAAAAAAAAAAAAA") :=
    ⟨_, .self (by decide), rfl⟩
  have hport : Field.port.Says startedAnnounce (ascii "port=6881") :=
    ⟨ascii "6881", (by decide : SpellsDecimal (ascii "6881") 6881), by decide⟩
  have hleft : Field.left.Says startedAnnounce (ascii "left=100") :=
    ⟨ascii "100", (by decide : SpellsDecimal (ascii "100") 100), by decide⟩
  constructor
  · intro s hs
    simp only [startedSegments, List.mem_cons, List.not_mem_nil, or_false] at hs
    rcases hs with rfl | rfl | rfl | rfl
    · exact .inr (by decide)
    · exact .inl ⟨.port, hport⟩
    · exact .inl ⟨.infoHash, hhash⟩
    · exact .inl ⟨.left, hleft⟩
  · intro f hf
    cases f with
    | infoHash => exact ⟨_, by decide, hhash⟩
    | port => exact ⟨_, by decide, hport⟩
    | left => exact ⟨_, by decide, hleft⟩
    | event => exact absurd hf (by decide)

/-- Both replies count the seeder and the announcer. -/
theorem announce_agreement_started :
    ∃ (store' : Store) (reply body : List UInt8) (entries : List (List UInt8 × Value)),
      Handler.handle cutHash HashOrder.arbitrary ⟨startedStore, startedConnid⟩ (announceDatagram startedAnnounce 2 [])
        (.replicate _ 1) false 1000 1800 [] = some (.reply reply.length, ⟨store', startedConnid⟩, reply) ∧
      HttpHandler.handle (fun v => decimal v.toNat) HashOrder.arbitrary ⟨startedStore⟩
        (ascii "/announce" ++ ascii "?" ++ joinSegments startedSegments) (.replicate _ 1) false 16 1800 =
          (⟨store'⟩, .body body) ∧
      (slice reply 12 16).bind beU32 = some 1 ∧ (slice reply 16 20).bind beU32 = some 1 ∧
      decode body = some (.dict (Bencode.countsEntries ⟨1, 1, 0⟩ ++ entries)) := by
  have hevent : Event.fromUdp 2 = startedAnnounce.event := rfl
  have hid : startedConnid.validate cutHash startedAnnounce.connectionId (List.replicate 16 1) 1000 = true :=
    ConnId.validate_generate cutHash _ _ _
  obtain ⟨store', reply, body, entries, hudp, hhttp, hincomplete, hcomplete, hdecode⟩ := announce_agreement cutHash
    (fun v => decimal v.toNat) HashOrder.arbitrary HashOrder.arbitrary (fun _ => rfl) startedStore startedConnid
    startedAnnounce 2 [] startedSegments (.replicate _ 1) false 1000 16 1800 1800 [] hevent carries_started
    (by decide) hid
  obtain ⟨_, hhandle, -⟩ := Handler.handle_announce cutHash HashOrder.arbitrary ⟨startedStore, startedConnid⟩
    (.replicate _ 1) false 1000 1800 [] (parse_announceDatagram hevent []) hid
  have hcounts : store'.scrape startedAnnounce.infoHash = ⟨1, 1, 0⟩ := by
    have hstore := hudp.symm.trans hhandle
    simp only [Option.some_inj, Prod.mk.injEq, Handler.mk.injEq] at hstore
    rw [hstore.2.1.1]
    decide +kernel
  rw [hcounts] at hincomplete hcomplete hdecode
  exact ⟨store', reply, body, entries, hudp, hhttp, hincomplete, hcomplete, hdecode⟩

end Bluefrog
