import Bluefrog.L7.Charges
import Bluefrog.L7.Detector

/-!
Runs of detector events. The tables may be visited in another order at every event, so a run is a list of
turns, each an event with its order. A source that the detector does not track starts afresh, and as
long as it is spared from eviction its state is the fold of its own events alone (`client_after`), so a
fact about one source in a run of many is an induction over its own events.
-/

open Rust Sharded

namespace Bluefrog

/-- What an event carries, apart from its source and time. -/
inductive Signal where
  | announce (a : AnnounceInfo)
  | connidMismatch
  | scrape (hashes : Nat)
  | connect

/-- An event fed to the detector. -/
structure Call where
  ip : Ip
  signal : Signal
  now : UInt32

/-- An event, and the order in which the tables are visited while it is handled. -/
structure Turn where
  order : HashOrder
  call : Call

/-- What an event does to its source, between `touch` and `crosses`. -/
def Signal.apply (c : Config) (now : UInt32) : Signal → Client → Client
  | .announce a => Client.announce c a now
  | .connidMismatch => Client.connidMismatch c
  | .scrape hashes => Client.scrape c hashes
  | .connect => Client.connect c

/-- The client after `touch`, from the entry before it. -/
def touched (c : Config) (now : UInt32) : Option Client → Client
  | none => { (Client.new now).decay now c.decayAmount c.decayInterval with lastGap := u32Max }
  | some client => client.decay now c.decayAmount c.decayInterval

/-- A touch notes the times and lowers the score of the entry, or of a fresh client. -/
theorem touched_eq (c : Config) (now : UInt32) (prev : Option Client) : ∃ drop decayAt lastGap,
    touched c now prev =
      { prev.getD (Client.new now) with
        score := saturatingSub (prev.getD (Client.new now)).score drop
        lastSeen := now
        decayAt
        lastGap } := by
  obtain ⟨drop, decayAt, hdecay⟩ := (prev.getD (Client.new now)).decay_eq now c.decayAmount c.decayInterval
  cases prev with
  | none => exact ⟨drop, decayAt, u32Max, congrArg (fun client => { client with lastGap := u32Max }) hdecay⟩
  | some client => exact ⟨drop, decayAt, _, hdecay⟩

/-- An event leaves the times that `touch` has noted. -/
theorem times_apply (c : Config) (now : UInt32) (client : Client) (signal : Signal) :
    (signal.apply c now client).lastSeen = client.lastSeen ∧
      (signal.apply c now client).decayAt = client.decayAt := by
  cases signal with
  | announce a =>
      rw [Signal.apply, announce_eq]
      exact ⟨rfl, rfl⟩
  | connidMismatch => exact ⟨rfl, rfl⟩
  | scrape hashes =>
      rw [Signal.apply, scrape_eq]
      exact ⟨rfl, rfl⟩
  | connect =>
      rw [Signal.apply, connect_eq]
      exact ⟨rfl, rfl⟩

theorem lastSeen_touched (c : Config) (now : UInt32) (prev : Option Client) :
    (touched c now prev).lastSeen = now := by
  obtain ⟨drop, decayAt, lastGap, htouched⟩ := touched_eq c now prev
  rw [htouched]

/-- One event on the state of its source, and whether it bans it. -/
def clientStep (c : Config) (prev : Option Client) (signal : Signal) (now : UInt32) : Client × Bool :=
  crosses c (signal.apply c now (touched c now prev)) now

theorem lastSeen_clientStep (c : Config) (prev : Option Client) (signal : Signal) (now : UInt32) :
    (clientStep c prev signal now).1.lastSeen = now := by
  rw [clientStep, crosses_fst]
  exact (times_apply c now _ signal).1.trans (lastSeen_touched c now prev)

def Verdict.Bans (v : Verdict) : Prop := ∃ duration tier, v = .ban duration tier

theorem Verdict.bans_iff (v : Verdict) : v.Bans ↔ v ≠ .allow := by
  cases v with
  | allow => exact ⟨fun ⟨_, _, h⟩ => (by cases h), fun h => absurd rfl h⟩
  | ban duration tier => exact ⟨fun _ h => (by cases h), fun _ => ⟨duration, tier, rfl⟩⟩

instance (v : Verdict) : Decidable v.Bans := decidable_of_iff _ v.bans_iff.symm

namespace Detector

variable (order : HashOrder)

/-- One event, with its verdict. -/
def exec (d : Detector) (call : Call) : Detector × Verdict :=
  match call.signal with
  | .announce a => d.onAnnounce order call.ip a call.now
  | .connidMismatch => d.onConnidMismatch order call.ip call.now
  | .scrape hashes => d.onScrape order call.ip hashes call.now
  | .connect => d.onConnect order call.ip call.now

/-- The entry of a source. -/
def client (d : Detector) (ip : Ip) : Option Client := Sharded.get shardOf d.shards ip

theorem client_new (config : Config) (ip : Ip) : (new config).client ip = none := Finmap.lookup_empty ip

theorem exec_eq (d : Detector) (call : Call) :
    d.exec order call =
      ((d.underShard order call.ip call.now (call.signal.apply d.config call.now)).1.decide order call.ip
        (d.underShard order call.ip call.now (call.signal.apply d.config call.now)).2 call.now) := by
  obtain ⟨ip, signal, now⟩ := call
  cases signal <;> rfl

theorem lookup_evictOldest {V : Type} (last : V → UInt32) (m : HashMap Ip V) (ip : Ip) :
    (evictOldest order last m).lookup ip = m.lookup ip ∨ (evictOldest order last m).lookup ip = none := by
  unfold evictOldest
  split
  · next oldest _ =>
      by_cases h : ip = oldest.1
      · exact .inr (by rw [h, Finmap.lookup_erase])
      · exact .inl (Finmap.lookup_erase_ne h)
  · exact .inl rfl

/-- Only a source new to a full shard evicts, so no source evicts itself. -/
theorem touch_client (c : Config) (cap : Nat) (shard : ClientShard) (ip : Ip) (now : UInt32) :
    (touch order c cap shard ip now).2 = touched c now (shard.lookup ip) := by
  simp only [touch]
  cases hlookup : shard.lookup ip with
  | none =>
      have hmem : ip ∉ shard := Finmap.lookup_eq_none.mp hlookup
      have hstill : (if ip ∉ shard ∧ cap ≤ shard.len then evictOldest order Client.lastSeen shard
          else shard).lookup ip = none := by
        split_ifs
        · rcases lookup_evictOldest order Client.lastSeen shard ip with h | h
          · rw [h, hlookup]
          · exact h
        · exact hlookup
      rw [hstill, if_pos (decide_eq_true hmem)]
      rfl
  | some client =>
      have hmem : ¬ip ∉ shard := fun h => by rw [Finmap.lookup_eq_none.mpr h] at hlookup; cases hlookup
      have hfull : ¬(ip ∉ shard ∧ cap ≤ shard.len) := fun h => hmem h.1
      rw [if_neg hfull, hlookup, if_neg (by simpa using hmem)]
      rfl

/-- A touch leaves every other entry of the shard, or evicts it. -/
theorem lookup_touch (c : Config) (cap : Nat) (shard : ClientShard) (ip ip' : Ip) (now : UInt32) :
    (touch order c cap shard ip now).1.lookup ip' = shard.lookup ip' ∨
      (touch order c cap shard ip now).1.lookup ip' = none := by
  simp only [touch]
  split_ifs
  · exact lookup_evictOldest order _ _ _
  · exact .inl rfl

theorem underShard_ban (d : Detector) (ip : Ip) (now : UInt32) (event : Client → Client) :
    (d.underShard order ip now event).2 = (crosses d.config (event (touched d.config now (d.client ip))) now).2 := by
  simp only [underShard, touch_client]
  rfl

theorem client_underShard_self (d : Detector) (ip : Ip) (now : UInt32) (event : Client → Client) :
    (d.underShard order ip now event).1.client ip =
      some (crosses d.config (event (touched d.config now (d.client ip))) now).1 := by
  simp only [underShard, touch_client, client, get_setShard, if_true, Finmap.lookup_insert]
  rfl

theorem client_underShard_of_ne (d : Detector) {ip ip' : Ip} (h : ip' ≠ ip) (now : UInt32)
    (event : Client → Client) :
    (d.underShard order ip now event).1.client ip' = d.client ip' ∨
      (d.underShard order ip now event).1.client ip' = none := by
  simp only [underShard, client, get_setShard, Finmap.lookup_insert_of_ne _ h]
  split_ifs with hshard
  · rw [Sharded.get, hshard]
    exact lookup_touch order _ _ _ _ _ _
  · exact .inl rfl

theorem decide_shards (d : Detector) (ip : Ip) (ban : Bool) (now : UInt32) :
    (d.decide order ip ban now).1.shards = d.shards ∧ (d.decide order ip ban now).1.config = d.config := by
  unfold decide
  split_ifs <;> exact ⟨rfl, rfl⟩

theorem decide_ne_allow (d : Detector) (ip : Ip) (ban : Bool) (now : UInt32) :
    (d.decide order ip ban now).2 ≠ .allow ↔ ban = true := by
  cases ban with
  | false => exact ⟨fun h => absurd rfl h, fun h => by cases h⟩
  | true => exact ⟨fun _ => rfl, fun _ h => by cases h⟩

theorem exec_config (d : Detector) (call : Call) : (d.exec order call).1.config = d.config := by
  rw [exec_eq, (decide_shards order _ _ _ _).2]
  rfl

/-- The source's own event, on its entry. -/
theorem client_exec_self (d : Detector) (call : Call) :
    (d.exec order call).1.client call.ip =
      some (clientStep d.config (d.client call.ip) call.signal call.now).1 := by
  rw [exec_eq, client, (decide_shards order _ _ _ _).1]
  exact client_underShard_self order d call.ip call.now _

/-- The score an event leaves: a ban takes nothing off it. -/
theorem score_exec (d : Detector) (call : Call) :
    ((d.exec order call).1.client call.ip).map Client.score =
      some (call.signal.apply d.config call.now (touched d.config call.now (d.client call.ip))).score := by
  rw [client_exec_self, clientStep, crosses_fst]
  rfl

theorem client_exec_of_ne (d : Detector) (call : Call) {ip : Ip} (h : ip ≠ call.ip) :
    (d.exec order call).1.client ip = d.client ip ∨ (d.exec order call).1.client ip = none := by
  rw [exec_eq, client, (decide_shards order _ _ _ _).1]
  exact client_underShard_of_ne order d h call.now _

theorem exec_ne_allow (d : Detector) (call : Call) :
    (d.exec order call).2 ≠ .allow ↔ (clientStep d.config (d.client call.ip) call.signal call.now).2 = true := by
  rw [exec_eq, decide_ne_allow, underShard_ban]
  rfl

end Detector

/-- The events of one source. -/
def ownCalls (ip : Ip) (calls : List Call) : List Call := calls.filter fun call => call.ip = ip

/-- The state of a source after its own events. -/
def clientRun (c : Config) (calls : List Call) : Option Client :=
  calls.foldl (fun prev call => some (clientStep c prev call.signal call.now).1) none

theorem clientRun_append_singleton (c : Config) (calls : List Call) (call : Call) :
    clientRun c (calls ++ [call]) = some (clientStep c (clientRun c calls) call.signal call.now).1 :=
  List.foldl_concat _ _ _ _

theorem ownCalls_append_singleton (ip : Ip) (calls : List Call) (call : Call) :
    ownCalls ip (calls ++ [call]) = ownCalls ip calls ++ if call.ip = ip then [call] else [] := by
  rw [ownCalls, List.filter_append]
  by_cases h : call.ip = ip
  · rw [if_pos h, List.filter_cons_of_pos (by simpa using h)]
    rfl
  · rw [if_neg h, List.filter_cons_of_neg (by simpa using h)]
    rfl

namespace Detector

/-- The detector after some turns. -/
def after (d : Detector) (turns : List Turn) : Detector :=
  turns.foldl (fun d turn => (d.exec turn.order turn.call).1) d

/-- The verdict of the next turn. -/
def verdictOf (d : Detector) (turn : Turn) : Verdict := (d.exec turn.order turn.call).2

/-- The turns of a source, as events. -/
def ownTurns (ip : Ip) (turns : List Turn) : List Call := ownCalls ip (turns.map Turn.call)

/-- The entry of a source, once there, is not evicted during the turns. -/
def Spared (d : Detector) (turns : List Turn) (ip : Ip) : Prop :=
  ∀ pre turn post, turns = pre ++ turn :: post → (d.after pre).client ip ≠ none →
    (d.after (pre ++ [turn])).client ip ≠ none

variable {d : Detector} {turns : List Turn} {turn : Turn} {ip : Ip}

theorem after_append_singleton (d : Detector) (turns : List Turn) (turn : Turn) :
    d.after (turns ++ [turn]) = ((d.after turns).exec turn.order turn.call).1 := List.foldl_concat _ _ _ _

theorem after_config (d : Detector) (turns : List Turn) : (d.after turns).config = d.config := by
  induction turns using List.reverseRecOn with
  | nil => rfl
  | append_singleton turns turn ih => rw [after_append_singleton, exec_config, ih]

theorem ownTurns_append (ip : Ip) (turns turns' : List Turn) :
    ownTurns ip (turns ++ turns') = ownTurns ip turns ++ ownTurns ip turns' := by
  rw [ownTurns, List.map_append, ownCalls, List.filter_append]
  rfl

theorem ownTurns_append_singleton (ip : Ip) (turns : List Turn) (turn : Turn) :
    ownTurns ip (turns ++ [turn]) = ownTurns ip turns ++ if turn.call.ip = ip then [turn.call] else [] := by
  rw [ownTurns, List.map_append, List.map_singleton, ownCalls_append_singleton]
  rfl

theorem Spared.append_singleton (h : d.Spared (turns ++ [turn]) ip) : d.Spared turns ip := by
  rintro pre turn' post rfl
  exact h pre turn' (post ++ [turn]) (by rw [List.append_assoc, List.cons_append])

theorem Spared.of_append {post : List Turn} (h : d.Spared (turns ++ post) ip) : d.Spared turns ip := by
  rintro pre turn' post' rfl
  exact h pre turn' (post' ++ post) (by rw [List.append_assoc, List.cons_append])

/-- The source's own turn, on its entry. -/
theorem client_after_self (d : Detector) (turns : List Turn) (turn : Turn) :
    (d.after (turns ++ [turn])).client turn.call.ip =
      some (clientStep d.config ((d.after turns).client turn.call.ip) turn.call.signal turn.call.now).1 := by
  rw [after_append_singleton, client_exec_self, after_config]

/-- A turn of another source leaves the entry. -/
theorem Spared.client_of_ne (h : d.Spared (turns ++ [turn]) ip) (hip : turn.call.ip ≠ ip) :
    (d.after (turns ++ [turn])).client ip = (d.after turns).client ip := by
  have hstep := client_exec_of_ne turn.order (d.after turns) turn.call (Ne.symm hip)
  rw [← after_append_singleton] at hstep
  rcases hstep with hsame | hgone
  · exact hsame
  · rw [hgone, eq_comm]
    by_contra hsome
    exact h turns turn [] rfl hsome hgone

/-- **A source that starts untracked and is spared evolves on its own.** -/
theorem client_after (hnew : d.client ip = none) (h : d.Spared turns ip) :
    (d.after turns).client ip = clientRun d.config (ownTurns ip turns) := by
  induction turns using List.reverseRecOn with
  | nil => exact hnew
  | append_singleton turns turn ih =>
      have hpre := ih h.append_singleton
      rw [ownTurns_append_singleton]
      by_cases hip : turn.call.ip = ip
      · rw [if_pos hip, clientRun_append_singleton, ← hpre, ← hip, client_after_self]
      · rw [if_neg hip, List.append_nil, ← hpre, h.client_of_ne hip]

/-- A run of one source spares it. -/
theorem spared_of_own (h : ∀ turn ∈ turns, turn.call.ip = ip) : d.Spared turns ip := by
  rintro pre turn post rfl -
  have hip := h turn (List.mem_append_right _ List.mem_cons_self)
  rw [← hip, client_after_self]
  exact Option.some_ne_none _

theorem verdictOf_bans (d : Detector) (turn : Turn) :
    (d.verdictOf turn).Bans ↔
      (clientStep d.config (d.client turn.call.ip) turn.call.signal turn.call.now).2 = true := by
  rw [Verdict.bans_iff, verdictOf, exec_ne_allow]

end Detector
end Bluefrog
