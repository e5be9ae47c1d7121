import Bluefrog.Main.Answers
import Bluefrog.Main.Moments

/-!
What an address is sent that asked for nothing. A datagram may name any address as its source; until one with a
good connection id comes from it, an address is sent no more bytes than the daemon was sent in its name.
-/

open Rust Tasks

namespace Bluefrog

open Udp

namespace Daemon

/-- The bytes of a reply to the address. -/
def bytesTo (peer : SocketAddr) : Event → Nat
  | .sent dest bytes => if dest = peer then bytes.length else 0
  | _ => 0

/-- The bytes of a datagram in the name of the address. -/
def bytesFrom (peer : SocketAddr) : Event → Nat
  | .received d => if d.peer = peer then d.buf.length else 0
  | _ => 0

section

variable {n : Nat} {lib : Libraries} {sh : Shared}

/-- A datagram that is due a connect reply is no shorter than the reply. -/
theorem le_length_of_isDue {peer : SocketAddr} {d : Datagram} (h : isDue lib sh peer 0 d = true) :
    d.peer = peer ∧ 16 ≤ d.buf.length := by
  rw [isDue, Bool.and_eq_true, decide_eq_true_eq, decide_eq_true_eq] at h
  refine ⟨h.1, ?_⟩
  obtain ⟨r, hparse, hreq⟩ := parse_total d.buf
  cases r with
  | ok req => exact (hreq req rfl).1
  | error e =>
      rw [outcome_dropped hparse] at h
      cases h.2

/-- Without a good connection id, every reply to an address is a connect reply. -/
theorem bytesTo_le {log : List Event} {peer : SocketAddr} (h : History.AtEach (Explained lib sh) log)
    (hnone : ¬∃ d id, .received d ∈ log ∧ d.peer = peer ∧ Claims d id ∧ Validates lib sh d id) :
    ∀ e ∈ log, bytesTo peer e ≤ 16 * (e.isReply peer 0).toNat := by
  intro e he
  obtain ⟨before, after, rfl⟩ := List.append_of_mem he
  have hexplained := h before e after rfl
  cases e with
  | sent dest bytes =>
      obtain ⟨d, rfl, hreplies⟩ := hexplained
      by_cases hdest : d.peer = peer
      · cases hreplies with
        | connect transactionId hparse hevent =>
            have hlen : (connectReply lib sh d transactionId).length = 16 := by
              simp only [connectReply, List.length_append, length_toBe32, length_toBe64]
            have hreply : Event.isReply peer 0 (.sent d.peer (connectReply lib sh d transactionId)) = true := by
              rw [Event.isReply, connectReply, List.append_assoc, isReply_append, decide_eq_true hdest]
              rfl
            rw [bytesTo, if_pos hdest, hlen, hreply]
            rfl
        | announce a order front back hparse hid hevent hpast =>
            refine absurd ⟨d, a.connectionId, List.mem_append_left _ ?_, hdest, .announce a hparse rfl, hid⟩ hnone
            rw [hpast]
            exact List.mem_append_left _ hevent
        | scrape sc hashes counts hparse hid hhashes hevent hreads =>
            exact absurd ⟨d, sc.connectionId, List.mem_append_left _ hevent, hdest, .scrape sc hparse rfl, hid⟩ hnone
      · rw [bytesTo, if_neg hdest]
        exact Nat.zero_le _
  | _ => exact Nat.zero_le _

/-- **No amplification.** An address in whose name no good connection id has come in was sent no more bytes than
came in in its name, however many datagrams there were. -/
theorem no_amplification (lib : Libraries) (sh : Shared) (start : UInt64) (acts : List (Act n)) (peer : SocketAddr) :
    let s := State.run lib sh start acts
    (∃ d id, .received d ∈ s.world.log ∧ d.peer = peer ∧ Claims d id ∧ Validates lib sh d id) ∨
      weigh (bytesTo peer) s.world.log ≤ weigh (bytesFrom peer) s.world.log := by
  intro s
  by_cases hsome : ∃ d id, .received d ∈ s.world.log ∧ d.peer = peer ∧ Claims d id ∧ Validates lib sh d id
  · exact .inl hsome
  right
  obtain ⟨⟨-, hexplained⟩, -⟩ := consistent_run lib sh start acts
  have hanswered := (replyEntries_sound lib sh peer 0).accounted (fun _ => rfl) start acts
  have hfrom : ∀ e ∈ s.world.log, 16 * (e.deservesReply lib sh peer 0).toNat ≤ bytesFrom peer e := by
    intro e he
    cases e with
    | received d =>
        rw [Event.deservesReply]
        cases hdue : isDue lib sh peer 0 d with
        | false => exact Nat.zero_le _
        | true =>
            obtain ⟨hpeer, hlen⟩ := le_length_of_isDue hdue
            rwa [bytesFrom, if_pos hpeer]
    | _ => exact Nat.zero_le _
  calc weigh (bytesTo peer) s.world.log
      ≤ weigh (fun e => 16 * (e.isReply peer 0).toNat) s.world.log := weigh_le (bytesTo_le hexplained hsome)
    _ = 16 * weigh (fun e => (e.isReply peer 0).toNat) s.world.log := weigh_mul _ _ _
    _ ≤ 16 * weigh (fun e => (e.deservesReply lib sh peer 0).toNat) s.world.log :=
        Nat.mul_le_mul_left 16 (Nat.le.intro hanswered.symm)
    _ = weigh (fun e => 16 * (e.deservesReply lib sh peer 0).toNat) s.world.log := (weigh_mul _ _ _).symm
    _ ≤ weigh (bytesFrom peer) s.world.log := weigh_le hfrom

end

end Daemon
end Bluefrog
