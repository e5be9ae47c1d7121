import Bluefrog.Main.Provenance

/-!
Peers find each other. The tracker forgets nobody who keeps to the interval that it was told, and leaves nobody
out of an answer that has room.
-/

open Rust Tasks

namespace Bluefrog

open Udp

/-- The call leaves a peer be: it is about another peer, or a pass of the collector no later than the deadline, in
seconds. -/
def Op.Spares (r : PeerRef) (deadline : Nat) : Op → Prop
  | .announce r' _ _ _ _ => r' ≠ r
  | .remove r' _ => r' ≠ r
  | .gc now => now.toNat * 60 ≤ deadline

namespace Daemon

theorem toNat_intervalOf_le (jitter : Fin 360) : (intervalOf jitter).toNat ≤ 1979 := by
  have hlt := jitter.isLt
  have hjitter : (UInt32.ofNat jitter).toNat = jitter := UInt32.toNat_ofNat_of_lt' (hlt.trans (by decide))
  rw [intervalOf, UInt32.toNat_add, hjitter]
  have hbase : (1620 : UInt32).toNat = 1620 := rfl
  omega

/-- The peer has announced itself, and nothing was heard of it since; but no pass of the collector was later than
the interval that it was told, and eleven minutes more. -/
inductive Keeps (past : List Event) (r : PeerRef) : Prop where
  | udp (d : Datagram) (a : Announce) (front back : List Event) (hpast : past = front ++ .stored (udpOp d a) :: back)
      (hevent : a.event ≠ .stopped) (hr : r = announcer a d.peer.ip) (hnow : d.now.toNat / 60 < 2 ^ 32)
      (hspared : ∀ op ∈ opsOf back, op.Spares r (d.now.toNat + (intervalOf d.jitter).toNat + 660))
  | http (q : HttpRequest) (p : Http.Params) (hash : InfoHash) (port : UInt16) (front back : List Event)
      (hpast : past = front ++ .stored (httpOp q p hash port) :: back) (hevent : Http.eventOf p.event ≠ .stopped)
      (hr : r = peerOf hash q.ip port)
      (hspared : ∀ op ∈ opsOf back, op.Spares r (q.now.toNat + (intervalOf q.jitter).toNat + 660))

/-- Every peer of the torrent that keeps to its interval is among the peers, unless there are as many as were
asked for. -/
def FindsAll (past : List Event) (hash : InfoHash) (ip : IpAddr) (numwant : Nat) (peers : List PeerRef) : Prop :=
  ∀ r, r.hash = hash → r.family = Family.ofIsV4 ip.isIpv4 → Keeps past r → r ∈ peers ∨ peers.length = numwant

section

variable {past : List Event} {r : PeerRef}

theorem live_of_spared {left : UInt64} {event : Bluefrog.Event} {numwant : Nat} {now : UInt32} {out : List UInt8}
    (hevent : event ≠ .stopped) (pre : List Op) {post : List Op} {deadline : Nat}
    (hfresh : ∀ g : UInt32, g.toNat * 60 ≤ deadline → g.toNat < now.toNat + 45)
    (hspared : ∀ op ∈ post, op.Spares r deadline) :
    Live (pre ++ announceOp r left event numwant now out :: post) r now := by
  refine ⟨pre, _, post, rfl, ⟨announceFlags left event, numwant, out, if_neg hevent⟩, fun op hop => ?_⟩
  have hop := hspared op hop
  cases op with
  | announce r' flags numwant' now' out' =>
      refine ⟨?_, ?_⟩
      · rintro t' ⟨_, _, _, heq⟩
        cases heq
        exact hop rfl
      · rintro (⟨_, heq⟩ | ⟨_, heq, -⟩) <;> cases heq
  | remove r' now' =>
      refine ⟨?_, ?_⟩
      · rintro t' ⟨_, _, _, heq⟩
        cases heq
      · rintro (⟨_, heq⟩ | ⟨_, heq, -⟩) <;> cases heq
        exact hop rfl
  | gc g =>
      refine ⟨?_, ?_⟩
      · rintro t' ⟨_, _, _, heq⟩
        cases heq
      · rintro (⟨_, heq⟩ | ⟨_, heq, hold⟩) <;> cases heq
        rw [UInt32.le_iff_toNat_le, toNat_saturatingSub] at hold
        have htimeout : peerTimeoutMinutes.toNat = 45 := rfl
        have hlt := hfresh g hop
        omega

theorem opsOf_split (front back : List Event) (op : Op) :
    opsOf (front ++ .stored op :: back) = opsOf front ++ op :: opsOf back := by
  rw [← List.singleton_append, opsOf, List.filterMap_append, List.filterMap_append]
  rfl

/-- Who keeps to the interval that it was told is not forgotten. -/
theorem Keeps.live (h : Keeps past r) : ∃ t, Live (opsOf past) r t := by
  cases h with
  | udp d a front back hpast hevent hr hnow hspared =>
      have hinterval := toNat_intervalOf_le d.jitter
      have hminute : (d.now / 60).toUInt32.toNat = d.now.toNat / 60 := by
        rw [UInt64.toNat_toUInt32, UInt64.toNat_div]
        exact Nat.mod_eq_of_lt hnow
      refine ⟨(d.now / 60).toUInt32, ?_⟩
      rw [hpast, opsOf_split, udpOp, ← hr]
      exact live_of_spared hevent _ (fun g hg => by rw [hminute]; omega) hspared
  | http q p hash port front back hpast hevent hr hspared =>
      have hinterval := toNat_intervalOf_le q.jitter
      have hminute : (clampU32 (q.now / 60)).toNat = min (q.now.toNat / 60) (2 ^ 32 - 1) := by
        rw [clampU32, toNat_ofNatClamp, UInt64.toNat_div]
        rfl
      refine ⟨clampU32 (q.now / 60), ?_⟩
      rw [hpast, opsOf_split, httpOp, ← hr]
      refine live_of_spared hevent _ (fun g hg => ?_) hspared
      have hlt := toNat_le_u32Max g
      rw [hminute]
      omega

/-- An answer with room for more hands out every peer that is stored. -/
theorem mem_handsOut_or_full (order : HashOrder) (store : Store) {r r' : PeerRef} {left : UInt64}
    {event : Bluefrog.Event} {numwant : Nat} {now : UInt32} {out : List UInt8} (hevent : event ≠ .stopped)
    (hhash : r'.hash = r.hash) (hfamily : r'.family = r.family)
    (hpresent : ((store.step order (announceOp r left event numwant now out)).peer r').isSome) :
    r' ∈ (announceOp r left event numwant now out).handsOut order store ∨
      ((announceOp r left event numwant now out).handsOut order store).length = numwant := by
  rw [announceOp, if_neg hevent] at hpresent ⊢
  obtain ⟨hash, family, key⟩ := r'
  dsimp only at hhash hfamily
  subst hhash hfamily
  rw [Store.peer, Store.get_step, Op.effect, if_pos rfl, Option.bind_some] at hpresent
  rw [Op.handsOut, List.length_map, List.length_take]
  generalize hkeys : PeerList.compactKeys order _ = keys
  rcases Nat.le_total keys.length numwant with hroom | hfull
  · left
    rw [List.take_of_length_le hroom, ← hkeys]
    refine List.mem_map.mpr ⟨key, ?_, rfl⟩
    exact (PeerList.mem_compactKeys _ order key).mpr (Finmap.lookup_isSome.mp hpresent)
  · exact .inr (Nat.min_eq_left hfull)

theorem findsAll_announceOp (front : List Event) {hash : InfoHash} {ip : IpAddr} {port : UInt16} {left : UInt64}
    {event : Bluefrog.Event} {numwant : Nat} {now : UInt32} {out : List UInt8} (order : HashOrder)
    (hevent : event ≠ .stopped) :
    FindsAll (front ++ [.stored (announceOp (peerOf hash ip port) left event numwant now out)]) hash ip numwant
      ((announceOp (peerOf hash ip port) left event numwant now out).handsOut order (storeAfter front)) := by
  intro r hhash hfamily hkeeps
  obtain ⟨t, hlive⟩ := hkeeps.live
  have hseen := (Store.seen_run_iff HashOrder.arbitrary _ r t).mpr hlive
  rw [← storeAfter, storeAfter_stored order] at hseen
  refine mem_handsOut_or_full order _ hevent hhash hfamily ?_
  obtain ⟨v, hv, -⟩ := Option.map_eq_some_iff.mp hseen
  exact Option.isSome_iff_exists.mpr ⟨v, hv⟩

variable {n : Nat}

/-- **Peers find each other.** The answer to an announce that is no stop, over UDP or HTTP, hands out every peer of its
torrent and family that has kept to the interval that it was told, unless it hands out as many as were asked for. -/
theorem peers_found (lib : Libraries) (sh : Shared) (start : UInt64) (acts : List (Act n)) :
    let s := State.run lib sh start acts
    (∀ before peer bytes after, s.world.log = before ++ .sent peer bytes :: after → bytes.take 4 = toBe32 1 →
      ∃ d a front back peers, d.peer = peer ∧ parse d.buf = some (.ok (.announce a)) ∧ .received d ∈ front ∧
        before = front ++ .stored (udpOp d a) :: back ∧ bytes.drop 20 = compactBytes peers ∧
        (a.event ≠ .stopped → FindsAll (front ++ [.stored (udpOp d a)]) a.infoHash d.ip
          (numwant a.numWant d.ip.isIpv4) peers)) ∧
    ∀ before r reply after p hash port, s.world.log = before ++ .responded r reply :: after →
      r.path = ascii "/announce" → r.params = .ok p → p.infoHash = some hash → p.port = some port →
      ∃ front back peers counts, .requested r ∈ front ∧ before = front ++ .stored (httpOp r p hash port) :: back ∧
        reply = httpReply 200 (Bencode.announceResponse lib.itoa [] counts (intervalOf r.jitter)
          (if r.ip.isIpv4 then compactBytes peers else []) (if r.ip.isIpv4 then [] else compactBytes peers)) ∧
        (Http.eventOf p.event ≠ .stopped → FindsAll (front ++ [.stored (httpOp r p hash port)]) hash r.ip p.numwant
          peers) := by
  intro s
  obtain ⟨hcons, -⟩ := consistent_run lib sh start acts
  constructor
  · intro before peer bytes after hlog haction
    obtain ⟨d, a, order, front, back, hpeer, hparse, hevent, hbefore, rfl⟩ := announced_of_sent hcons hlog haction
    exact ⟨d, a, front, back, (udpOp d a).handsOut order (storeAfter front), hpeer, hparse, hevent, hbefore,
      List.drop_left' (length_announceHeader _ _ _), findsAll_announceOp front order⟩
  · intro before r reply after p hash port hlog hpath hp hhash hport
    obtain ⟨order, front, back, hevent, hbefore, rfl⟩ := announced_of_responded hcons hlog hpath hp hhash hport
    exact ⟨front, back, (httpOp r p hash port).handsOut order (storeAfter front), _, hevent, hbefore, rfl,
      findsAll_announceOp front order⟩

end
end Daemon
end Bluefrog
