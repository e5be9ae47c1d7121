import Bluefrog.Main.Jobs

/-!
What a step of the daemon does to its state: `Steps` says all that it can be. What holds of the daemon at its
start and is kept by every case holds in every run.
-/

open Rust Tasks

namespace Bluefrog
namespace Daemon

variable {n : Nat} (lib : Libraries) (sh : Shared)

/-- What a step can make of a state. -/
inductive Steps (s : State n) : State n → Prop where
  /-- The task is busy, or there is nothing for it to do. -/
  | idle : Steps s s
  | received (t : Fin n) (d : Datagram) (hnow : d.now = s.world.clock) (hbuf : d.buf.length ≤ udpBuf)
      (htask : s.tasks t = []) :
      Steps s ⟨{ s.world with log := s.world.log ++ [.received d] }, Function.update s.tasks t [.handle d]⟩
  | requested (t : Fin n) (r : HttpRequest) (hnow : r.now = s.world.clock) (htask : s.tasks t = []) :
      Steps s ⟨{ s.world with log := s.world.log ++ [.requested r] }, Function.update s.tasks t [.answer r]⟩
  | ran (t : Fin n) (order : HashOrder) (job : Job) (rest : List Job) (w' : World) (new : List Job)
      (htask : s.tasks t = job :: rest) (hruns : Runs lib sh order s.world job w' new) :
      Steps s ⟨w', Function.update s.tasks t (new ++ rest)⟩
  | banned (k : Nat) (ip : IpAddr) (tier duration : UInt32) (kernel : Nft.Element → Except String Unit)
      (element : Nft.Element) (hpool : s.world.pool[k]? = some (.ban ip tier duration))
      (hban : sh.sink.ban kernel ip tier.toNat duration = .ok element) :
      Steps s ⟨{ s.world with
        pool := s.world.pool.eraseIdx k, log := s.world.log ++ [.banned ip tier element] }, s.tasks⟩
  | failed (k : Nat) (ip : IpAddr) (tier duration : UInt32) (kernel : Nft.Element → Except String Unit) (e : String)
      (hpool : s.world.pool[k]? = some (.ban ip tier duration))
      (hban : sh.sink.ban kernel ip tier.toNat duration = .error e) :
      Steps s ⟨{ s.world with
        pool := s.world.pool.set k (.count .nftError), log := s.world.log ++ [.failed ip tier] }, s.tasks⟩
  | counted (k : Nat) (c : Counter) (hpool : s.world.pool[k]? = some (.count c)) :
      Steps s ⟨{ s.world with
        pool := s.world.pool.eraseIdx k, metrics := s.world.metrics.inc c, log := s.world.log ++ [.counted c] },
        s.tasks⟩
  | clock (nowSecs : UInt64) : Steps s ⟨{ s.world with clock := nowSecs }, s.tasks⟩
  | gc (now : UInt32) :
      Steps s ⟨{ s.world with store := s.world.store.gc now, log := s.world.log ++ [.stored (.gc now)] }, s.tasks⟩

variable {lib sh}

theorem steps_unblock (s : State n) (k : Nat) (kernel : Nft.Element → Except String Unit) :
    Steps lib sh s { s with world := unblock sh s.world kernel k } := by
  unfold unblock
  cases hpool : s.world.pool[k]? with
  | none => exact .idle
  | some blocking =>
      cases blocking with
      | count c => exact .counted k c hpool
      | ban ip tier duration =>
          cases hban : sh.sink.ban kernel ip tier.toNat duration with
          | ok element =>
              simp only [hban]
              exact .banned k ip tier duration kernel element hpool hban
          | error e =>
              simp only [hban]
              exact .failed k ip tier duration kernel e hpool hban

theorem steps_step (s : State n) (act : Act n) : Steps lib sh s (s.step lib sh act) := by
  cases act with
  | recv t peer datagram jitter out =>
      have hstart := Tasks.State.start_cases s t
        (fun w => { w with log := w.log ++ [.received ⟨peer, datagram.take udpBuf, s.world.clock, jitter, out⟩] })
        (fun _ => Job.handle ⟨peer, datagram.take udpBuf, s.world.clock, jitter, out⟩)
      rw [State.step]
      rcases hstart with heq | ⟨htask, heq⟩
      · rw [heq]
        exact .idle
      · rw [heq]
        exact .received t _ rfl (by rw [List.length_take]; exact Nat.min_le_left _ _) htask
  | request t peer target jitter =>
      have hstart := Tasks.State.start_cases s t
        (fun w => { w with log := w.log ++ [.requested ⟨peer, target, s.world.clock, jitter⟩] })
        (fun _ => Job.answer ⟨peer, target, s.world.clock, jitter⟩)
      rw [State.step]
      rcases hstart with heq | ⟨htask, heq⟩
      · rw [heq]
        exact .idle
      · rw [heq]
        exact .requested t _ rfl htask
  | run t order =>
      have hexec : ∀ order w job, ∃ w' new, exec lib sh order w job = some (w', new) := by
        intro order w job
        obtain ⟨w', new, heq, -⟩ := runs_exec lib sh order w job
        exact ⟨w', new, heq⟩
      rw [State.step]
      rcases Tasks.State.run_cases hexec s t order with heq | ⟨job, rest, w', new, htask, hrun, heq⟩
      · rw [heq]
        exact .idle
      · obtain ⟨w'', new', hrun', hruns⟩ := runs_exec lib sh order s.world job
        cases Option.some.inj (hrun.symm.trans hrun')
        rw [heq]
        exact .ran t order job rest w' new htask hruns
  | unblock k kernel => exact steps_unblock s k kernel
  | clock nowSecs => exact .clock nowSecs
  | gc nowSecs => exact .gc _

/-- The log only grows. -/
theorem steps_log {s s' : State n} (hsteps : Steps lib sh s s') : ∃ events, s'.world.log = s.world.log ++ events := by
  cases hsteps with
  | idle | clock => exact ⟨[], (List.append_nil _).symm⟩
  | received | requested | banned | failed | counted | gc => exact ⟨[_], rfl⟩
  | ran t order job rest w' new htask hruns =>
      obtain ⟨events, hlog, -⟩ := runs_log hruns
      exact ⟨events, hlog⟩

/-- A task that is not idle waits, or runs its first job. -/
theorem steps_busy {s s' : State n} {t : Fin n} (hsteps : Steps lib sh s s') (h : s.tasks t ≠ []) :
    s'.tasks t = s.tasks t ∨ ∃ order job rest new, s.tasks t = job :: rest ∧
      Runs lib sh order s.world job s'.world new ∧ s'.tasks t = new ++ rest := by
  cases hsteps with
  | idle | clock | banned | failed | counted | gc => exact .inl rfl
  | received t' d hnow hbuf htask | requested t' r hnow htask =>
      refine .inl (Function.update_of_ne ?_ _ _)
      rintro rfl
      exact h htask
  | ran t' order job rest w' new htask hruns =>
      by_cases ht : t = t'
      · subst ht
        exact .inr ⟨order, job, rest, new, htask, hruns, Function.update_self _ _ _⟩
      · exact .inl (Function.update_of_ne ht _ _)

theorem State.run_append_singleton (start : UInt64) (acts : List (Act n)) (act : Act n) :
    run lib sh start (acts ++ [act]) = (run lib sh start acts).step lib sh act := List.foldl_concat _ _ _ _

/-- What holds at the start and is kept by every step from a state that is reached holds in every run. -/
theorem State.run_induction (I : State n → Prop) {start : UInt64} (hinit : I (init sh n start))
    (hstep : ∀ acts s', Steps lib sh (run lib sh start acts) s' → I (run lib sh start acts) → I s')
    (acts : List (Act n)) : I (run lib sh start acts) := by
  induction acts using List.reverseRecOn with
  | nil => exact hinit
  | append_singleton acts act ih =>
      rw [run_append_singleton]
      exact hstep _ _ (steps_step _ act) ih

/-- The detector keeps its configuration. -/
theorem config_run (start : UInt64) (acts : List (Act n)) :
    (State.run lib sh start acts).world.detector.config = sh.config.l7 := by
  refine State.run_induction (fun s => s.world.detector.config = sh.config.l7) rfl ?_ acts
  intro acts s' hsteps h
  cases hsteps with
  | idle | received | requested | banned | failed | counted | clock | gc => exact h
  | ran t order job rest w' new htask hruns =>
      cases hruns with
      | scores ip call detector ban hscore => exact (congrArg (fun r => r.1.config) hscore).symm.trans h
      | records ip crossing detector tier hrecord => exact (congrArg (fun r => r.1.config) hrecord).symm.trans h
      | _ => exact h

/-- What holds of the jobs that a task begins with, and of those that follow from such a job, holds of each. -/
theorem each_run {P : Job → Prop} (hhandle : ∀ d, P (.handle d)) (hanswer : ∀ r, P (.answer r))
    (hruns : ∀ {order : HashOrder} {w w' : World} {job : Job} {new : List Job}, P job →
      Runs lib sh order w job w' new → ∀ job' ∈ new, P job') (start : UInt64) (acts : List (Act n)) :
    Each P (State.run lib sh start acts).tasks := by
  have hinit : Each P (State.init sh n start).tasks := fun _ _ h => absurd h List.not_mem_nil
  refine State.run_induction (fun s => Each P s.tasks) hinit ?_ acts
  intro acts s' hsteps h
  cases hsteps with
  | idle | banned | failed | counted | clock | gc => exact h
  | received t d hnow hbuf htask => exact h.update (List.forall_mem_singleton.mpr (hhandle d))
  | requested t r hnow htask => exact h.update (List.forall_mem_singleton.mpr (hanswer r))
  | ran t order job rest w' new htask hran => exact h.next htask fun hjob => hruns hjob hran

end Daemon
end Bluefrog
