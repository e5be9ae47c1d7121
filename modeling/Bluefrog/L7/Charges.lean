import Bluefrog.L7.Client
import Mathlib.Data.UInt

/-!
What an announce is charged. The score grows by the weights of the signals that fire, added up with
wrap-around, and the rest of the state moves without regard to them (`announce_eq`).
-/

open Rust

namespace Bluefrog

/-- The signals an announce can fire, in the order the detector adds their weights. -/
inductive Charge where
  | badKey
  | declaredIp
  | badPort
  | fakeSeeder
  | numwant
  | interval
  | keyChurn
  | peeridChurn
  | peerid
  | emptySwarm
  | breadth
  deriving DecidableEq

namespace Charge

def all : List Charge :=
  [badKey, declaredIp, badPort, fakeSeeder, numwant, interval, keyChurn, peeridChurn, peerid, emptySwarm, breadth]

def weight (c : Config) : Charge → UInt32
  | badKey => c.weightBadKey
  | declaredIp => c.weightDeclaredIp
  | badPort => c.weightBadPort
  | fakeSeeder => c.weightFakeSeeder
  | numwant => c.weightNumwant
  | interval => c.weightInterval
  | keyChurn => c.weightKeyChurn
  | peeridChurn => c.weightPeeridChurn
  | peerid => c.weightPeerid
  | emptySwarm => c.weightEmptySwarm
  | breadth => c.weightBreadth

end Charge

section Announce

variable (c : Config) (a : AnnounceInfo) (now : UInt32) (client : Client)

/-- The rate gate: the source was seen less than the gap ago, by an event of any kind. -/
def Client.fast : Bool := client.lastGap < c.fastAnnounceGap

def Client.emptySwarmsAfter : UInt32 :=
  if client.fast c ∧ a.swarmPeers ≤ 1 then saturatingAdd client.emptySwarms 1 else 0

def Client.breadthAfter : UInt64 := if client.fast c then (client.widen a.infoHash).breadth else client.breadth

/-- The announce against the remembered announces of its torrent. -/
def Client.observed : Client.Observed :=
  (client.observe a now c.reannounceMinInterval (peerFingerprint a.peerId)).2

/-- Whether an announce fires a signal. -/
def Charge.fires : Charge → Bool
  | badKey => a.key = 0 ∨ a.key = u32Max
  | declaredIp => a.declaredIp ≠ 0 ∧ a.sourceIsPublic
  | badPort => client.fast c ∧ a.port < 1024
  | fakeSeeder => client.fast c ∧ a.left = 0 ∧ a.downloaded = 0 ∧ a.uploaded = 0
  | numwant => client.fast c ∧ c.numwantAbuse < a.numWant
  | interval => (client.observed c a now).interval
  | keyChurn => (client.observed c a now).keyChurn
  | peeridChurn => (client.observed c a now).peerChurn
  | peerid => !isKnownClient a.peerId
  | emptySwarm =>
      (client.fast c ∧ a.swarmPeers ≤ 1) ∧ c.emptySwarmThreshold < saturatingAdd client.emptySwarms 1
  | breadth => client.fast c ∧ c.breadthThreshold ≤ countOnes (client.widen a.infoHash).breadth

/-- The weights of the signals an announce fires, added up in 32 bits. -/
def Client.charged : UInt32 := ((Charge.all.filter (Charge.fires c a now client)).map (Charge.weight c)).sum

theorem ite_add_weight (p : Prop) [Decidable p] (add w : UInt32) :
    (if p then add + w else add) = add + if p then w else 0 := by
  split_ifs
  · rfl
  · exact (UInt32.add_zero add).symm

theorem sum_filter_cons {α : Type} (p : α → Bool) (w : α → UInt32) (k : α) (l : List α) :
    (((k :: l).filter p).map w).sum = (if p k then w k else 0) + ((l.filter p).map w).sum := by
  rw [List.filter_cons]
  split_ifs
  · rfl
  · exact (UInt32.zero_add _).symm

/-- The checks that need no state fire the first five signals. -/
theorem statelessScore_eq : statelessScore c a (client.fast c) =
    ((([.badKey, .declaredIp, .badPort, .fakeSeeder, .numwant] : List Charge).filter
      (Charge.fires c a now client)).map (Charge.weight c)).sum := by
  simp only [statelessScore, ite_add_weight]
  simp only [sum_filter_cons, List.filter_nil, List.map_nil, List.sum_nil, Charge.fires, Charge.weight,
    decide_eq_true_eq, UInt32.zero_add, UInt32.add_zero, UInt32.add_assoc]

theorem charged_eq : client.charged c a now = statelessScore c a (client.fast c) +
      ((([.interval, .keyChurn, .peeridChurn, .peerid, .emptySwarm, .breadth] : List Charge).filter
        (Charge.fires c a now client)).map (Charge.weight c)).sum := by
  rw [statelessScore_eq c a now client]
  simp only [Client.charged, Charge.all, sum_filter_cons, List.filter_nil, List.map_nil, List.sum_nil,
    UInt32.add_zero, UInt32.add_assoc]

/-- **What an announce does**: the score grows by what is charged, and the announce is remembered. -/
theorem announce_eq : client.announce c a now =
    { client.remember ⟨a.infoHash, now, a.key, peerFingerprint a.peerId⟩ with
      connects := 0
      emptySwarms := client.emptySwarmsAfter c a
      breadth := client.breadthAfter c a
      score := saturatingAdd client.score (client.charged c a now) } := by
  have hcharged := charged_eq c a now client
  simp only [sum_filter_cons, List.filter_nil, List.map_nil, List.sum_nil, Charge.fires, Charge.weight,
    decide_eq_true_eq, UInt32.add_zero, ← UInt32.add_assoc] at hcharged
  rw [hcharged]
  by_cases hgap : client.lastGap < c.fastAnnounceGap
  · have hfast : client.fast c = true := decide_eq_true hgap
    by_cases hswarm : a.swarmPeers ≤ 1
    · simp only [Client.announce, Client.observe, Client.remember, hfast, hgap, hswarm, Client.emptySwarmsAfter,
        Client.breadthAfter, true_and, if_true, decide_true, ite_add_weight, and_self]
      rfl
    · simp only [Client.announce, Client.observe, Client.remember, hfast, hgap, hswarm, Client.emptySwarmsAfter,
        Client.breadthAfter, true_and, false_and, and_false, if_true, if_false, decide_true, ite_add_weight,
        UInt32.add_zero]
      rfl
  · have hfast : client.fast c = false := decide_eq_false hgap
    simp only [Client.announce, Client.observe, Client.remember, hfast, hgap, Client.emptySwarmsAfter,
      Client.breadthAfter, Bool.false_eq_true, false_and, if_false, decide_false, ite_add_weight, UInt32.add_zero]
    rfl

end Announce
end Bluefrog
