import Bluefrog.Main.Answers
import Bluefrog.Main.Moments

/-!
Every task comes to its end. What it has still to do is counted in turns; each of its own turns lowers the
count, whatever the world is like, and nothing that the others do raises it.
-/

open Rust Tasks

namespace Bluefrog

open Udp

namespace Daemon

/-- The most turns that a job takes, with all that follows from it. -/
def Job.turns : Job → Nat
  | .handle _ => 84
  | .scrape _ _ todo _ => todo.length + 8
  | .feed _ _ => 5
  | .record _ _ => 4
  | .answer r => r.pairs.length + 4
  | .scrapeFiles _ pairs _ => pairs.length + 3
  | .count _ | .spawn _ _ _ | .send _ _ | .respond _ _ => 1

/-- The step is a turn of the task. -/
def Act.isTurn {n : Nat} (t : Fin n) : Act n → Bool
  | .run t' _ => t' = t
  | _ => false

section

variable {n : Nat} {lib : Libraries} {sh : Shared}

theorem turns_pos (job : Job) : 0 < job.turns := by
  cases job <;> simp [Job.turns]

theorem turns_feeds_le (d : Datagram) (signal : Signal) : weigh Job.turns (feeds sh d [signal]) ≤ 5 :=
  weigh_feeds_singleton sh Job.turns d signal

theorem turns_bans_le (ip : IpAddr) (tier duration : UInt32) : weigh Job.turns (bans sh ip tier duration) ≤ 3 := by
  rw [weigh_bans]
  simp only [Job.turns]
  split_ifs <;> omega

theorem turns_answered_le (r : HttpRequest) (response : Response) :
    weigh Job.turns (answered lib sh r response) ≤ 2 := by
  unfold answered
  cases response with
  | body b => split_ifs <;> simp [Job.turns]
  | redirect | badRequest | notFound => simp [Job.turns]

/-- What follows from a job takes fewer turns than the job with it. -/
theorem turns_runs {order : HashOrder} {w w' : World} {job : Job} {new : List Job}
    (hruns : Runs lib sh order w job w' new) : weigh Job.turns new < job.turns := by
  have hfeeds : ∀ d signal, weigh Job.turns (feeds sh d [signal]) ≤ 5 := turns_feeds_le
  cases hruns with
  | connected d | announced d | scraped d =>
      rw [weigh_append, weigh_cons, weigh_cons, weigh_nil]
      refine Nat.lt_of_le_of_lt (Nat.add_le_add_right (Nat.add_le_add_left (hfeeds _ _) _) _) ?_
      simp [Job.turns]
  | refused d =>
      rw [weigh_cons]
      exact Nat.lt_of_le_of_lt (Nat.add_le_add_left (hfeeds _ _) _) (by simp [Job.turns])
  | scraping d s hashes hparse hhashes hid =>
      have hle := iterHashes_length_le hhashes (length_hashes_le hparse)
      simp only [weigh_cons, weigh_nil, Job.turns, maxScrapeHashes] at hle ⊢
      omega
  | scores ip call detector ban => cases ban <;> simp [Job.turns]
  | records ip crossing detector tier => exact Nat.lt_succ_of_le (turns_bans_le _ _ _)
  | httpBad r raw pairs files =>
      exact Nat.lt_of_le_of_lt (turns_answered_le _ _) (by simp [Job.turns])
  | httpScraped r pairs files => exact Nat.lt_of_le_of_lt (turns_answered_le _ _) (by simp [Job.turns])
  | _ => simp [Job.turns]

theorem exec_turns (order : HashOrder) (w : World) (job : Job) :
    ∃ w' new, exec lib sh order w job = some (w', new) ∧ weigh Job.turns new < job.turns := by
  obtain ⟨w', new, heq, hruns⟩ := runs_exec lib sh order w job
  exact ⟨w', new, heq, turns_runs hruns⟩

/-- A step that is not a turn of a task leaves it what it has to do, and a turn leaves it less. -/
theorem turns_step (s : State n) (act : Act n) {t : Fin n} (h : s.tasks t ≠ []) :
    weigh Job.turns ((s.step lib sh act).tasks t) + (act.isTurn t).toNat ≤ weigh Job.turns (s.tasks t) := by
  cases act with
  | recv t' peer datagram jitter out | request t' peer target jitter =>
      rw [State.step, Tasks.State.tasks_start_of_busy h]
      exact Nat.le_refl _
  | run t' order =>
      rw [State.step]
      by_cases ht : t' = t
      · subst ht
        rw [Act.isTurn, decide_eq_true rfl]
        exact Tasks.State.weigh_run exec_turns s h order
      · rw [Act.isTurn, decide_eq_false ht, Tasks.State.tasks_run_of_ne s (Ne.symm ht) order]
        exact Nat.le_refl _
  | unblock k kernel | clock nowSecs | gc nowSecs => exact Nat.le_refl _

/-- The turns that what has come in to a task takes at most. -/
def Act.budget {n : Nat} (t : Fin n) : Act n → Nat
  | .recv t' _ _ _ _ => if t' = t then 84 else 0
  | .request t' _ target _ => if t' = t then (Http.queryPairs (Http.splitTarget target).2).length + 4 else 0
  | _ => 0

variable (lib sh) in
/-- A task was idle when something came in to it, and has been busy with it ever since. -/
structure Serves (start : UInt64) (t : Fin n) (front : List (Act n)) (act : Act n) (back : List (Act n)) : Prop where
  idle : (State.run lib sh start front).tasks t = []
  busy : ∀ mid, mid <+: back → (State.run lib sh start (front ++ act :: mid)).tasks t ≠ []

/-- What comes in to an idle task is the budget of what it has to do. -/
theorem turns_start (s : State n) (act : Act n) {t : Fin n} (h : s.tasks t = []) :
    weigh Job.turns ((s.step lib sh act).tasks t) ≤ act.budget t := by
  have hstart : ∀ (t' : Fin n) (f : World → World) (job : World → Job), weigh Job.turns ((s.start t' f job).tasks t) ≤
      if t' = t then (job s.world).turns else 0 := by
    intro t' f job
    rcases Tasks.State.start_cases s t' f job with heq | ⟨-, heq⟩
    · rw [heq, h]
      exact Nat.zero_le _
    · rw [heq]
      by_cases ht : t' = t
      · subst ht
        rw [if_pos rfl]
        dsimp only
        rw [Function.update_self, weigh_cons, weigh_nil]
        exact Nat.le_refl _
      · dsimp only
        rw [Function.update_of_ne (Ne.symm ht), h]
        exact Nat.zero_le _
  cases act with
  | recv t' peer datagram jitter out => exact hstart _ _ _
  | request t' peer target jitter => exact hstart _ _ _
  | run t' order =>
      have hsame : (s.step lib sh (.run t' order)).tasks t = [] := by
        rw [State.step]
        by_cases ht : t = t'
        · subst ht
          rw [Tasks.State.run, h]
          exact h
        · rw [Tasks.State.tasks_run_of_ne s ht order]
          exact h
      rw [hsame]
      exact Nat.zero_le _
  | unblock k kernel | clock nowSecs | gc nowSecs =>
      change weigh Job.turns (s.tasks t) ≤ _
      rw [h]
      exact Nat.zero_le _

variable (lib sh) in
/-- The turns that a task has taken for what it serves, and those that it has still to take, are within the budget. -/
theorem budgeted_run (start : UInt64) (acts : List (Act n)) (t : Fin n) :
    (State.run lib sh start acts).tasks t = [] ∨ ∃ front act back, acts = front ++ act :: back ∧
      Serves lib sh start t front act back ∧
      weigh Job.turns ((State.run lib sh start acts).tasks t) + back.countP (·.isTurn t) ≤ act.budget t := by
  induction acts using List.reverseRecOn with
  | nil => exact .inl rfl
  | append_singleton acts act ih =>
      by_cases hbusy : (State.run lib sh start (acts ++ [act])).tasks t = []
      · exact .inl hbusy
      right
      by_cases hidle : (State.run lib sh start acts).tasks t = []
      · refine ⟨acts, act, [], rfl, ⟨hidle, fun mid hmid => ?_⟩, ?_⟩
        · rw [List.prefix_nil.mp hmid]
          exact hbusy
        · rw [State.run_append_singleton]
          exact turns_start _ act hidle
      · obtain ⟨front, first, back, rfl, hserves, hle⟩ := ih.resolve_left hidle
        refine ⟨front, first, back ++ [act], by rw [List.append_assoc, List.cons_append],
          ⟨hserves.idle, fun mid hmid => ?_⟩, ?_⟩
        · rcases List.prefix_concat_iff.mp hmid with rfl | hmid
          · rwa [← List.cons_append, ← List.append_assoc]
          · exact hserves.busy mid hmid
        · have hstep := @turns_step n lib sh (State.run lib sh start (front ++ first :: back)) act t hidle
          rw [State.run_append_singleton, List.countP_append, List.countP_singleton]
          rw [Bool.toNat] at hstep
          cases hturn : act.isTurn t <;> simp only [hturn, cond_true, cond_false, if_true, if_false,
            Bool.false_eq_true] at hstep ⊢ <;> omega

variable (lib sh) in
/-- A task that takes its turns becomes idle, whatever the others do. -/
theorem exists_idle (s : State n) (more : List (Act n)) (t : Fin n)
    (h : weigh Job.turns (s.tasks t) ≤ more.countP (·.isTurn t)) :
    ∃ pre, pre <+: more ∧ (pre.foldl (State.step lib sh) s).tasks t = [] := by
  have hzero : ∀ s : State n, weigh Job.turns (s.tasks t) = 0 → s.tasks t = [] := by
    intro s hs
    cases htask : s.tasks t with
    | nil => rfl
    | cons job rest =>
        rw [htask, weigh_cons] at hs
        exact absurd (turns_pos job) (by omega)
  exact exists_done (fun s act hbusy => turns_step s act hbusy) hzero s more h

/-- **Every task comes to its end.** A task that is busy serves what came in when it was last idle; whatever the others
do, the turns that it has taken since and those that it has still to take are no more than a datagram takes, if it
serves one, or than that very request takes by the parameters that it has. -/
theorem idle_in_turns (lib : Libraries) (sh : Shared) (start : UInt64) (acts : List (Act n)) (t : Fin n) :
    (State.run lib sh start acts).tasks t = [] ∨
    ∃ front act back k, acts = front ++ act :: back ∧ Serves lib sh start t front act back ∧
      ((∃ peer datagram jitter out, act = .recv t peer datagram jitter out ∧ k + back.countP (·.isTurn t) ≤ 84) ∨
        ∃ peer target jitter, act = .request t peer target jitter ∧
          k + back.countP (·.isTurn t) ≤ (Http.queryPairs (Http.splitTarget target).2).length + 4) ∧
      ∀ more : List (Act n), k ≤ more.countP (·.isTurn t) →
        ∃ pre, pre <+: more ∧ (State.run lib sh start (acts ++ pre)).tasks t = [] := by
  by_cases hidle : (State.run lib sh start acts).tasks t = []
  · exact .inl hidle
  right
  obtain ⟨front, act, back, hacts, hserves, hle⟩ := (budgeted_run lib sh start acts t).resolve_left hidle
  refine ⟨front, act, back, weigh Job.turns ((State.run lib sh start acts).tasks t), hacts, hserves, ?_,
    fun more hmore => ?_⟩
  · have hpos : 0 < weigh Job.turns ((State.run lib sh start acts).tasks t) := by
      obtain ⟨job, rest, htask⟩ := List.exists_cons_of_ne_nil hidle
      rw [htask, weigh_cons]
      exact Nat.lt_of_lt_of_le (turns_pos job) (Nat.le_add_right _ _)
    cases act with
    | recv t' peer datagram jitter out =>
        by_cases ht : t' = t
        · subst ht
          rw [Act.budget, if_pos rfl] at hle
          exact .inl ⟨peer, datagram, jitter, out, rfl, hle⟩
        · rw [Act.budget, if_neg ht] at hle
          omega
    | request t' peer target jitter =>
        by_cases ht : t' = t
        · subst ht
          rw [Act.budget, if_pos rfl] at hle
          exact .inr ⟨peer, target, jitter, rfl, hle⟩
        · rw [Act.budget, if_neg ht] at hle
          omega
    | run t' order | unblock k kernel | clock nowSecs | gc nowSecs =>
        change _ ≤ 0 at hle
        omega
  · obtain ⟨pre, hpre, hend⟩ := exists_idle lib sh (State.run lib sh start acts) more t hmore
    refine ⟨pre, hpre, ?_⟩
    rw [State.run, List.foldl_append]
    exact hend

section

variable {P : List Event → Job → Prop} {D : List Event → Event → Prop}

/-- The event has happened since the log was the shorter one. -/
def Happened (D : List Event → Event → Prop) (log log' : List Event) : Prop :=
  ∃ before e after, log' = before ++ e :: after ∧ log <+: before ∧ D before e

theorem Happened.grow {log log' : List Event} (h : Happened D log log') (more : List Event) :
    Happened D log (log' ++ more) := by
  obtain ⟨before, e, after, hlog, hpre, hdone⟩ := h
  exact ⟨before, e, after ++ more, by rw [hlog, List.append_assoc]; rfl, hpre, hdone⟩

/-- A job of a task has made a promise, and whoever runs it keeps it: the promise passes to a job that follows from
it, or the event happens. -/
structure Promise (lib : Libraries) (sh : Shared) (P : List Event → Job → Prop) (D : List Event → Event → Prop) :
    Prop where
  grow : ∀ {past job}, P past job → ∀ more, P (past ++ more) job
  runs : ∀ {order w w' job new}, Consistent lib sh w → job.Explained lib sh w.log → P w.log job →
    Runs lib sh order w job w' new → (∃ job' ∈ new, P w'.log job') ∨ ∃ e, w'.log = w.log ++ [e] ∧ D w.log e

/-- The state after more steps keeps a promise that a task had made: it is still there, or the event has happened. -/
def Promised (P : List Event → Job → Prop) (D : List Event → Event → Prop) (log : List Event) (t : Fin n)
    (s : State n) : Prop :=
  Happened D log s.world.log ∨ log <+: s.world.log ∧ ∃ job ∈ s.tasks t, P s.world.log job

/-- A promise outlives a step, unless the step does what was promised. -/
theorem Promised.step {s s' : State n} {log : List Event} {t : Fin n} (hp : Promise lib sh P D)
    (hcons : Consistent lib sh s.world) (heach : Each (Job.Explained lib sh s.world.log) s.tasks)
    (h : Promised P D log t s) (hsteps : Steps lib sh s s') : Promised P D log t s' := by
  obtain ⟨events, hlog⟩ := steps_log hsteps
  rcases h with hdone | ⟨hpre, job, hmem, hP⟩
  · left
    rw [hlog]
    exact hdone.grow events
  have hgrown : log <+: s'.world.log := by
    rw [hlog]
    exact hpre.trans (List.prefix_append _ _)
  have hkept : ∀ jobs : List Job, job ∈ jobs → s'.tasks t = jobs → Promised P D log t s' := by
    intro jobs hjobs htasks
    refine .inr ⟨hgrown, job, by rwa [htasks], ?_⟩
    rw [hlog]
    exact hp.grow hP events
  rcases steps_busy hsteps (List.ne_nil_of_mem hmem) with hsame | ⟨order, first, rest, new, htask, hruns, hnext⟩
  · exact hkept _ hmem hsame
  · rw [htask, List.mem_cons] at hmem
    rcases hmem with rfl | hmem
    · -- the job that has made the promise is the one that runs
      have hjob := heach t job (by rw [htask]; exact List.mem_cons_self)
      rcases hp.runs hcons hjob hP hruns with ⟨job', hmem', hP'⟩ | ⟨e, he, hdone⟩
      · exact .inr ⟨hgrown, job', by rw [hnext]; exact List.mem_append_left _ hmem', hP'⟩
      · exact .inl ⟨s.world.log, e, [], he, hpre, hdone⟩
    · exact hkept _ (List.mem_append_right _ hmem) hnext

end

/-- The job will reply to a datagram. -/
def Job.RepliesTo (lib : Libraries) (sh : Shared) (d : Datagram) (past : List Event) : Job → Prop
  | .handle d' => d' = d
  | .scrape d' _ _ _ => d' = d
  | .send peer bytes => peer = d.peer ∧ Replies lib sh past d bytes
  | _ => False

/-- The event is a reply to a datagram. -/
def Event.RepliesTo (lib : Libraries) (sh : Shared) (d : Datagram) (past : List Event) : Event → Prop
  | .sent peer bytes => peer = d.peer ∧ Replies lib sh past d bytes
  | _ => False

end
end Daemon
end Bluefrog
