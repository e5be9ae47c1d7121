import Bluefrog.Main.Ledgers

/-!
Who is answered. Every datagram that deserves a reply and every request is answered once, and with the kind of
answer that it is due, in every interleaving.
-/

open Rust Tasks

namespace Bluefrog

open Udp

namespace Daemon

/-- The action of the reply that an outcome is due. -/
def actionOf : Counter → Option UInt32
  | .udpConnect => some 0
  | .udpAnnounce => some 1
  | .udpScrape => some 2
  | _ => none

/-- The status of the response that an outcome is due. -/
def statusOf : Counter → Nat
  | .error => 400
  | _ => 200

/-- A reply to the peer, with the action. -/
def isReply (peer : SocketAddr) (action : UInt32) (dest : SocketAddr) (bytes : List UInt8) : Bool :=
  decide (dest = peer) && decide (bytes.take 4 = toBe32 action)

/-- The event is a reply to the peer, with the action. -/
def Event.isReply (peer : SocketAddr) (action : UInt32) : Event → Bool
  | .sent dest bytes => Daemon.isReply peer action dest bytes
  | _ => false

/-- The bytes begin with the action of a reply. -/
def BeginsWithAction (bytes : List UInt8) : Prop := ∃ action ∈ [0, 1, 2], bytes.take 4 = toBe32 action

/-- A job that sends, sends a reply. -/
def Job.SendsReply : Job → Prop
  | .send _ bytes => BeginsWithAction bytes
  | _ => True

/-- The event is a response to a request of some kind, with the status. -/
def Event.isResponse (q : HttpRequest → Bool) (status : Nat) : Event → Bool
  | .responded r reply => q r && decide (reply.status = status)
  | _ => false

section

variable (lib : Libraries) (sh : Shared)

/-- The peer is due a reply to the datagram, with the action. -/
def isDue (peer : SocketAddr) (action : UInt32) (d : Datagram) : Bool :=
  decide (d.peer = peer) && decide (actionOf (outcome lib sh d) = some action)

/-- The status of the response that a request is due. -/
def HttpRequest.status (r : HttpRequest) : Nat :=
  match r.outcome with
  | some c => statusOf c
  | none => if r.path = ascii "/" then (redirectReply lib sh).status else 404

/-- The event is a datagram that the peer is due a reply to, with the action. -/
def Event.deservesReply (peer : SocketAddr) (action : UInt32) : Event → Bool
  | .received d => isDue lib sh peer action d
  | _ => false

/-- The event is a request of some kind that is due a response, with the status. -/
def Event.deservesResponse (q : HttpRequest → Bool) (status : Nat) : Event → Bool
  | .requested r => q r && decide (r.status lib sh = status)
  | _ => false

/-- The replies that a peer is due, and those it was sent. -/
def replyEntries (peer : SocketAddr) (action : UInt32) : Entries where
  due e := (e.deservesReply lib sh peer action).toNat
  done e := (e.isReply peer action).toNat
  owes
    | .handle d => (isDue lib sh peer action d).toNat
    | .scrape d _ _ _ => (decide (d.peer = peer) && decide (action = 2)).toNat
    | .send dest bytes => (isReply peer action dest bytes).toNat
    | _ => 0
  holds _ := 0

/-- The responses that some requests are due, and those they were given. -/
def responseEntries (q : HttpRequest → Bool) (status : Nat) : Entries where
  due e := (e.deservesResponse lib sh q status).toNat
  done e := (e.isResponse q status).toNat
  owes
    | .answer r => (q r && decide (r.status lib sh = status)).toNat
    | .scrapeFiles r pairs files => (q r && decide (statusOf (scrapeOutcome pairs files.length) = status)).toNat
    | .respond r reply => (q r && decide (reply.status = status)).toNat
    | _ => 0
  holds _ := 0

variable {lib sh}

theorem isReply_append (peer : SocketAddr) (action x : UInt32) (dest : SocketAddr) (rest : List UInt8) :
    isReply peer action dest (toBe32 x ++ rest) = (decide (dest = peer) && decide (action = x)) := by
  rw [isReply, List.take_left' (length_toBe32 x), decide_eq_decide.mpr (toBe32_inj.trans eq_comm)]

theorem replyEntries_ran {peer : SocketAddr} {action : UInt32} {order : HashOrder} {w w' : World} {job : Job}
    {new : List Job} (hruns : Runs lib sh order w job w' new) :
    (replyEntries lib sh peer action).ledger.Keeps w job w' new := by
  have hfeeds := fun d signals =>
    weigh_feeds sh (w := (replyEntries lib sh peer action).owes) (fun _ _ => rfl) d signals
  cases hruns with
  | dropped d e hparse =>
      refine Entries.keeps_quiet ?_
      simp [replyEntries, isDue, outcome_dropped hparse, actionOf]
  | connected d transactionId hparse =>
      refine Entries.keeps_quiet ?_
      simp only [weigh_cons, weigh_append, weigh_nil, hfeeds]
      simp [replyEntries, isDue, outcome_connected hparse, actionOf, connectReply, isReply_append, eq_comm]
  | refused d id hclaims hid =>
      refine Entries.keeps_quiet ?_
      simp only [weigh_cons, hfeeds]
      simp [replyEntries, isDue, outcome_refused hclaims hid, actionOf]
  | announced d a hparse hid =>
      refine Entries.keeps_stored rfl rfl rfl ?_
      simp only [weigh_cons, weigh_append, weigh_nil, hfeeds]
      simp [replyEntries, isDue, outcome_announced hparse hid, actionOf, announceReply, announceHeader, isReply_append,
        eq_comm]
  | scraping d s hashes hparse hhashes hid =>
      refine Entries.keeps_quiet ?_
      simp [replyEntries, isDue, outcome_scraping hparse hid, actionOf, eq_comm]
  | read d s hash todo entries => exact Entries.keeps_quiet rfl
  | scraped d s hashes entries hhashes =>
      refine Entries.keeps_quiet ?_
      simp only [weigh_cons, weigh_append, weigh_nil, hfeeds]
      simp [replyEntries, scrapeReplyOf, isReply_append]
  | scores ip call detector ban hscore =>
      refine Entries.keeps_of [] [] (List.append_nil _).symm (List.append_nil _).symm ?_
      cases ban <;> rfl
  | records ip crossing detector tier hrecord =>
      refine Entries.keeps_of [.offended ip tier] [] rfl (List.append_nil _).symm ?_
      rw [weigh_bans]
      simp [replyEntries, Event.deservesReply, Event.isReply]
  | counts c => exact Entries.keeps_of [.counted c] [] rfl (List.append_nil _).symm rfl
  | spawns ip tier duration => exact Entries.keeps_of [] [.ban ip tier duration] (List.append_nil _).symm rfl rfl
  | sends dest bytes =>
      exact Entries.keeps_of [.sent dest bytes] [] rfl (List.append_nil _).symm
        (by simp [replyEntries, Event.deservesReply, Event.isReply])
  | httpAnnounced r => exact Entries.keeps_stored rfl rfl rfl rfl
  | httpBad r | httpScraped r =>
      exact Entries.keeps_quiet
        (weigh_eq_zero (forall_mem_answered (P := fun job => (replyEntries lib sh peer action).owes job = 0)
          (fun _ => rfl) r (fun _ => rfl) _)).symm
  | responds r reply => exact Entries.keeps_of [.responded r reply] [] rfl (List.append_nil _).symm rfl
  | _ => exact Entries.keeps_quiet rfl

theorem status_of_outcome {r : HttpRequest} {c : Counter} (h : r.outcome = some c) : r.status lib sh = statusOf c := by
  rw [HttpRequest.status, h]

theorem responseEntries_ran {q : HttpRequest → Bool} {status : Nat} {order : HashOrder} {w w' : World} {job : Job}
    {new : List Job} (hrouted : job.Routed) (hruns : Runs lib sh order w job w' new) :
    (responseEntries lib sh q status).ledger.Keeps w job w' new := by
  have hfeeds := fun d signals =>
    weigh_feeds sh (w := (responseEntries lib sh q status).owes) (fun _ _ => rfl) d signals
  cases hruns with
  | connected d | scraped d =>
      refine Entries.keeps_quiet ?_
      rw [weigh_append, weigh_cons, hfeeds]
      rfl
  | refused d id hclaims hid =>
      refine Entries.keeps_quiet ?_
      rw [weigh_cons, hfeeds]
      rfl
  | announced d a hparse hid =>
      refine Entries.keeps_stored rfl rfl rfl ?_
      rw [weigh_append, weigh_cons, hfeeds]
      rfl
  | scores ip call detector ban hscore =>
      refine Entries.keeps_of [] [] (List.append_nil _).symm (List.append_nil _).symm ?_
      cases ban <;> rfl
  | records ip crossing detector tier hrecord =>
      refine Entries.keeps_of [.offended ip tier] [] rfl (List.append_nil _).symm ?_
      rw [weigh_bans]
      simp [responseEntries, Event.deservesResponse, Event.isResponse]
  | counts c => exact Entries.keeps_of [.counted c] [] rfl (List.append_nil _).symm rfl
  | spawns ip tier duration => exact Entries.keeps_of [] [.ban ip tier duration] (List.append_nil _).symm rfl rfl
  | sends dest bytes => exact Entries.keeps_of [.sent dest bytes] [] rfl (List.append_nil _).symm rfl
  | httpAnnounced r p hash port hpath hp hhash hport =>
      refine Entries.keeps_stored rfl rfl rfl ?_
      simp [responseEntries, status_of_outcome (r.outcome_announced hpath hp), statusOf, httpReply]
  | httpForgot r p hpath hp hforgets =>
      refine Entries.keeps_quiet ?_
      simp [responseEntries, status_of_outcome (r.outcome_announced hpath hp), statusOf, httpReply]
  | httpRefused r response hpath hp =>
      refine Entries.keeps_quiet ?_
      simp [responseEntries, status_of_outcome (r.outcome_refused hpath hp), statusOf, httpReply]
  | httpScraping r hpath =>
      refine Entries.keeps_quiet ?_
      simp [responseEntries, status_of_outcome (r.outcome_scraping hpath)]
  | httpRedirected r hpath =>
      have hother : r.outcome = none := r.outcome_other (by rw [hpath]; decide) (by rw [hpath]; decide)
      have hstatus : r.status lib sh = (redirectReply lib sh).status := by
        rw [HttpRequest.status, hother]
        exact if_pos hpath
      refine Entries.keeps_quiet ?_
      simp [responseEntries, hstatus]
  | httpMissed r hpath =>
      have hstatus : r.status lib sh = 404 := by
        rw [HttpRequest.status, r.outcome_other hpath.1 hpath.2.1]
        exact if_neg hpath.2.2
      refine Entries.keeps_quiet ?_
      simp [responseEntries, hstatus, httpReply]
  | httpSkipped r key raw pairs files hkey =>
      refine Entries.keeps_quiet ?_
      simp [responseEntries, scrapeOutcome_skipped hkey]
  | httpRead r raw pairs files hash hroom hdecode =>
      refine Entries.keeps_quiet ?_
      simp [responseEntries, scrapeOutcome_read hdecode hroom]
  | httpBad r raw pairs files hroom hdecode =>
      refine Entries.keeps_quiet ?_
      simp [responseEntries, scrapeOutcome_bad hdecode hroom, answered, statusOf, httpReply]
  | httpScraped r pairs files hend =>
      refine Entries.keeps_quiet ?_
      rw [answered_scrape hrouted]
      simp [responseEntries, scrapeOutcome_end hend, statusOf, httpReply]
  | responds r reply =>
      exact Entries.keeps_of [.responded r reply] [] rfl (List.append_nil _).symm
        (by simp [responseEntries, Event.deservesResponse, Event.isResponse])
  | _ => exact Entries.keeps_quiet rfl

variable (lib sh) in
theorem replyEntries_sound (peer : SocketAddr) (action : UInt32) : (replyEntries lib sh peer action).Sound lib sh where
  received _ := (Nat.zero_add _).symm
  requested _ := rfl
  ran _ := replyEntries_ran
  banned _ _ _ _ := rfl
  failed _ _ _ := rfl
  counted _ := rfl
  stored _ := rfl

variable (lib sh) in
theorem responseEntries_sound (q : HttpRequest → Bool) (status : Nat) :
    (responseEntries lib sh q status).Sound lib sh where
  received _ := rfl
  requested _ := (Nat.zero_add _).symm
  ran := responseEntries_ran
  banned _ _ _ _ := rfl
  failed _ _ _ := rfl
  counted _ := rfl
  stored _ := rfl

theorem beginsWithAction_append {action : UInt32} (h : action ∈ [0, 1, 2]) (rest : List UInt8) :
    BeginsWithAction (toBe32 action ++ rest) := ⟨action, h, List.take_left' (length_toBe32 action)⟩

/-- What follows from a job sends nothing but replies. -/
theorem sendsReply_runs {order : HashOrder} {w w' : World} {job : Job} {new : List Job}
    (hruns : Runs lib sh order w job w' new) : ∀ job' ∈ new, job'.SendsReply := by
  have hfeeds : ∀ d signals, ∀ job ∈ feeds sh d signals, job.SendsReply := forall_mem_feeds fun _ _ => trivial
  cases hruns with
  | connected d transactionId =>
      simp only [List.forall_mem_cons, List.forall_mem_append]
      refine ⟨⟨trivial, hfeeds _ _⟩, ?_, fun _ h => absurd h List.not_mem_nil⟩
      rw [Job.SendsReply, connectReply, List.append_assoc]
      exact beginsWithAction_append (by decide) _
  | announced d a =>
      simp only [List.forall_mem_cons, List.forall_mem_append]
      refine ⟨⟨trivial, hfeeds _ _⟩, ?_, fun _ h => absurd h List.not_mem_nil⟩
      rw [Job.SendsReply, announceReply, announceHeader]
      simp only [List.append_assoc]
      exact beginsWithAction_append (by decide) _
  | scraped d s =>
      simp only [List.forall_mem_cons, List.forall_mem_append]
      refine ⟨⟨trivial, hfeeds _ _⟩, ?_, fun _ h => absurd h List.not_mem_nil⟩
      rw [Job.SendsReply, scrapeReplyOf, List.append_assoc]
      exact beginsWithAction_append (by decide) _
  | refused d =>
      simp only [List.forall_mem_cons]
      exact ⟨trivial, hfeeds _ _⟩
  | records ip crossing detector tier =>
      exact forall_mem_bans (fun _ => trivial) (fun _ _ _ => trivial) _ _ _
  | httpBad r | httpScraped r =>
      exact forall_mem_answered (fun _ => trivial) _ (fun _ => trivial) _
  | scores ip call detector ban =>
      cases ban with
      | true => exact List.forall_mem_singleton.mpr trivial
      | false => exact fun _ h => absurd h List.not_mem_nil
  | _ => simp [Job.SendsReply]

variable (lib sh) in
/-- Nothing is sent but replies. -/
theorem beginsWithAction_of_sent (start : UInt64) (acts : List (Act n)) {peer : SocketAddr} {bytes : List UInt8}
    (hsent : .sent peer bytes ∈ (State.run lib sh start acts).world.log) : BeginsWithAction bytes := by
  have hold : ∀ {log : List Event} {e : Event}, .sent peer bytes ∈ log ++ [e] → e ≠ .sent peer bytes →
      .sent peer bytes ∈ log := fun hmem hne => (List.mem_append.mp hmem).resolve_right fun h =>
    hne (List.mem_singleton.mp h).symm
  refine State.run_induction (fun s => .sent peer bytes ∈ s.world.log → BeginsWithAction bytes)
    (fun h => absurd h List.not_mem_nil) ?_ acts hsent
  intro acts s' hsteps ih hsent
  cases hsteps with
  | idle | clock => exact ih hsent
  | received | requested | banned | failed | counted | gc => exact ih (hold hsent nofun)
  | ran t order job rest w' new htask hruns =>
      have hjob : job.SendsReply := each_run (fun _ => trivial) (fun _ => trivial) (fun _ => sendsReply_runs) start acts
        t job (by rw [htask]; exact List.mem_cons_self)
      cases hruns with
      | sends dest bytes' =>
          rcases List.mem_append.mp hsent with hbefore | hnew
          · exact ih hbefore
          · cases List.mem_singleton.mp hnew
            exact hjob
      | announced | httpAnnounced | counts | records | responds => exact ih (hold hsent nofun)
      | _ => exact ih hsent

/-- **Everything is answered once.** The replies that any peer was sent with any action, and the responses of any
status to requests of any kind, are as many as it is due, but for one that each task may still owe; and no peer is
sent anything else. -/
theorem answered_once (lib : Libraries) (sh : Shared) (start : UInt64) (acts : List (Act n)) :
    let s := State.run lib sh start acts
    (∀ peer action, ∃ late, s.world.log.countP (·.deservesReply lib sh peer action) =
        s.world.log.countP (·.isReply peer action) + late ∧ late ≤ n ∧ ((∀ t, s.tasks t = []) → late = 0)) ∧
      (∀ q status, ∃ late, s.world.log.countP (·.deservesResponse lib sh q status) =
        s.world.log.countP (·.isResponse q status) + late ∧ late ≤ n ∧ ((∀ t, s.tasks t = []) → late = 0)) ∧
      ∀ peer bytes, .sent peer bytes ∈ s.world.log → BeginsWithAction bytes := by
  intro s
  refine ⟨?_, ?_, fun peer bytes hsent => beginsWithAction_of_sent lib sh start acts hsent⟩
  · intro peer action
    have hsound := replyEntries_sound lib sh peer action
    have hatMost := hsound.atMost (fun e he => by cases e <;> first | rfl | cases he) (fun _ => Bool.toNat_le _)
      (fun _ => Nat.zero_le _) start acts
    have hall := hsound.accounted (fun _ => rfl) start acts
    simp only [replyEntries, weigh_toNat] at hall
    exact ⟨_, hall, hatMost.total_le, total_idle⟩
  · intro q status
    have hsound := responseEntries_sound lib sh q status
    have hatMost := hsound.atMost (fun e he => by cases e <;> first | rfl | cases he) (fun _ => Nat.zero_le _)
      (fun _ => Bool.toNat_le _) start acts
    have hall := hsound.accounted (fun _ => rfl) start acts
    simp only [responseEntries, weigh_toNat] at hall
    exact ⟨_, hall, hatMost.total_le, total_idle⟩

end

end Daemon
end Bluefrog
