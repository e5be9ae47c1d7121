import Bluefrog.Core.Presence
import Bluefrog.Main.Moments

/-!
Where the peers of an answer come from. The daemon makes no peer up: whoever it hands out was announced from its
own address, by a datagram whose connection id was good or over HTTP, and has not left or timed out since.
-/

open Rust Tasks

namespace Bluefrog

open Udp

namespace Daemon

section

variable (lib : Libraries) (sh : Shared)

/-- Somebody at the peer's own address has announced it. -/
def Vouched (past : List Event) (r : PeerRef) : Prop :=
  (∃ d a, .received d ∈ past ∧ parse d.buf = some (.ok (.announce a)) ∧ Validates lib sh d a.connectionId ∧
    a.event ≠ .stopped ∧ r = peerOf a.infoHash d.ip a.port) ∨
  ∃ q p hash port, .requested q ∈ past ∧ q.path = ascii "/announce" ∧ q.params = .ok p ∧
    Http.eventOf p.event ≠ .stopped ∧ p.infoHash = some hash ∧ p.port = some port ∧ r = peerOf hash q.ip port

/-- The peers that the source of an announce is handed: of its torrent and family, each once, all of them vouched
for and live. -/
structure HandedOut (past : List Event) (hash : InfoHash) (ip : IpAddr) (peers : List PeerRef) : Prop where
  nodup : peers.Nodup
  torrent : ∀ r ∈ peers, r.hash = hash ∧ r.family = Family.ofIsV4 ip.isIpv4
  live : ∀ r ∈ peers, ∃ t, Live (opsOf past) r t
  vouched : ∀ r ∈ peers, Vouched lib sh past r

variable {n : Nat} {lib sh} {past : List Event}

theorem announces_announceOp {r r' : PeerRef} {left : UInt64} {event : Bluefrog.Event} {numwant : Nat} {now t : UInt32}
    {out : List UInt8} (h : (announceOp r left event numwant now out).Announces r' t) : event ≠ .stopped ∧ r' = r := by
  obtain ⟨flags, numwant', out', heq⟩ := h
  unfold announceOp at heq
  split_ifs at heq with hstop
  cases heq
  exact ⟨hstop, rfl⟩

theorem Backed.vouched {op : Op} {r : PeerRef} {t : UInt32} (h : Backed lib sh past op) (hop : op.Announces r t) :
    Vouched lib sh past r := by
  cases h with
  | udp d a hparse hid hevent =>
      obtain ⟨hstop, rfl⟩ := announces_announceOp hop
      exact .inl ⟨d, a, hevent, hparse, hid, hstop, rfl⟩
  | http q p hash port hpath hp hhash hport hevent =>
      obtain ⟨hstop, rfl⟩ := announces_announceOp hop
      exact .inr ⟨q, p, hash, port, hevent, hpath, hp, hstop, hhash, hport, rfl⟩
  | gc now =>
      obtain ⟨_, _, _, heq⟩ := hop
      cases heq

theorem Vouched.grow {r : PeerRef} (h : Vouched lib sh past r) (more : List Event) :
    Vouched lib sh (past ++ more) r := by
  rcases h with ⟨d, a, hevent, hrest⟩ | ⟨q, p, hash, port, hevent, hrest⟩
  · exact .inl ⟨d, a, List.mem_append_left _ hevent, hrest⟩
  · exact .inr ⟨q, p, hash, port, List.mem_append_left _ hevent, hrest⟩

/-- A live peer is vouched for. -/
theorem vouched_of_live (h : History.AtEach (Explained lib sh) past) {r : PeerRef} {t : UInt32}
    (hlive : Live (opsOf past) r t) : Vouched lib sh past r := by
  obtain ⟨pre, op, post, hops, hann, -⟩ := hlive
  have hmem : op ∈ opsOf past := by
    rw [hops]
    exact List.mem_append_right _ List.mem_cons_self
  obtain ⟨e, he, hop⟩ := List.mem_filterMap.mp hmem
  obtain ⟨before, after, rfl⟩ := List.append_of_mem he
  cases e with
  | stored op' =>
      cases Option.some.inj hop
      exact (Backed.vouched (h before _ after rfl) hann).grow _
  | _ => cases hop

theorem nodup_handsOut (order : HashOrder) (store : Store) (op : Op) : (op.handsOut order store).Nodup := by
  cases op with
  | announce r flags numwant now peersOut =>
      refine List.Nodup.map (fun key key' h => ?_)
        ((PeerList.nodup_compactKeys _ order).sublist (List.take_sublist _ _))
      cases h
      rfl
  | remove r now => exact List.nodup_nil
  | gc now => exact List.nodup_nil

/-- What an announce's call of the store hands out. -/
theorem handedOut_announceOp {before after : List Event} {hash : InfoHash} {ip : IpAddr} {port : UInt16} {left : UInt64}
    {event : Bluefrog.Event} {numwant : Nat} {now : UInt32} {out : List UInt8}
    (h : History.AtEach (Explained lib sh)
      (before ++ .stored (announceOp (peerOf hash ip port) left event numwant now out) :: after)) (order : HashOrder) :
    HandedOut lib sh (before ++ [.stored (announceOp (peerOf hash ip port) left event numwant now out)]) hash ip
      ((announceOp (peerOf hash ip port) left event numwant now out).handsOut order (storeAfter before)) := by
  have hpast : History.AtEach (Explained lib sh)
      (before ++ [.stored (announceOp (peerOf hash ip port) left event numwant now out)]) := by
    rw [← List.singleton_append, ← List.append_assoc] at h
    exact h.of_append
  have hlive : ∀ r ∈ (announceOp (peerOf hash ip port) left event numwant now out).handsOut order (storeAfter before),
      ∃ t, Live (opsOf (before ++ [.stored (announceOp (peerOf hash ip port) left event numwant now out)])) r t := by
    intro r hr
    obtain ⟨-, -, -, -, -, -, -, -, hpresent⟩ := mem_handsOut hr
    obtain ⟨v, hv⟩ := Option.isSome_iff_exists.mp hpresent
    refine ⟨v.seen, (Store.seen_run_iff HashOrder.arbitrary _ r v.seen).mp ?_⟩
    rw [← storeAfter, storeAfter_stored order, hv, Option.map_some]
  refine ⟨nodup_handsOut order _ _, fun r hr => ?_, hlive, fun r hr => ?_⟩
  · obtain ⟨r', flags, numwant', now', out', hop, hhash, hfamily, -⟩ := mem_handsOut hr
    have hann : (announceOp (peerOf hash ip port) left event numwant now out).Announces r' now' :=
      ⟨flags, numwant', out', hop⟩
    obtain ⟨-, rfl⟩ := announces_announceOp hann
    exact ⟨hhash, hfamily⟩
  · obtain ⟨t, ht⟩ := hlive r hr
    exact vouched_of_live hpast ht

/-- **No peer is made up.** The peers of an announce's answer, over UDP or HTTP, were announced from their own
addresses by datagrams with good connection ids or by requests, and were live when the announce that had come in made
its call; they are of the torrent that it asked for and of the family of who asked, each once. -/
theorem peers_vouched (lib : Libraries) (sh : Shared) (start : UInt64) (acts : List (Act n)) :
    let s := State.run lib sh start acts
    (∀ before peer bytes after, s.world.log = before ++ .sent peer bytes :: after → bytes.take 4 = toBe32 1 →
      ∃ d a front back peers, d.peer = peer ∧ parse d.buf = some (.ok (.announce a)) ∧ .received d ∈ front ∧
        before = front ++ .stored (udpOp d a) :: back ∧ bytes.drop 20 = compactBytes peers ∧
        HandedOut lib sh (front ++ [.stored (udpOp d a)]) a.infoHash d.ip peers) ∧
    ∀ before r reply after p hash port, s.world.log = before ++ .responded r reply :: after →
      r.path = ascii "/announce" → r.params = .ok p → p.infoHash = some hash → p.port = some port →
      ∃ front back peers counts, .requested r ∈ front ∧ before = front ++ .stored (httpOp r p hash port) :: back ∧
        HandedOut lib sh (front ++ [.stored (httpOp r p hash port)]) hash r.ip peers ∧
        reply = httpReply 200 (Bencode.announceResponse lib.itoa [] counts (intervalOf r.jitter)
          (if r.ip.isIpv4 then compactBytes peers else []) (if r.ip.isIpv4 then [] else compactBytes peers)) := by
  intro s
  obtain ⟨hcons, -⟩ := consistent_run lib sh start acts
  constructor
  · intro before peer bytes after hlog haction
    obtain ⟨d, a, order, front, back, hpeer, hparse, hevent, rfl, rfl⟩ := announced_of_sent hcons hlog haction
    have hexplained := hcons.explained
    rw [hlog] at hexplained
    exact ⟨d, a, front, back, (udpOp d a).handsOut order (storeAfter front), hpeer, hparse, hevent, rfl,
      List.drop_left' (length_announceHeader _ _ _), handedOut_announceOp hexplained.of_append order⟩
  · intro before r reply after p hash port hlog hpath hp hhash hport
    obtain ⟨order, front, back, hevent, rfl, rfl⟩ := announced_of_responded hcons hlog hpath hp hhash hport
    have hexplained := hcons.explained
    rw [hlog] at hexplained
    exact ⟨front, back, (httpOp r p hash port).handsOut order (storeAfter front), _, hevent, rfl,
      handedOut_announceOp hexplained.of_append order, rfl⟩

end

end Daemon
end Bluefrog
