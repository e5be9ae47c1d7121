import Mathlib.Algebra.BigOperators.Fin
import Mathlib.Algebra.Order.BigOperators.Group.Finset

/-!
Tasks that share a world. Each task holds the list of what it has still to do, and a step runs the first
job of one task, which changes the world and puts the jobs that follow from it in its own place. What the
jobs will still contribute to a count is their weight; a count of the world whose jobs carry the right
weights accounts for everything that was ever begun, in every interleaving.
-/

namespace Tasks

variable {n : Nat} {J W : Type} {Ω : Type*}

/-- What a list of jobs will contribute. -/
def weigh (w : J → Nat) (jobs : List J) : Nat := (jobs.map w).sum

/-- What all tasks will contribute. -/
def total (w : J → Nat) (tasks : Fin n → List J) : Nat := ∑ t, weigh w (tasks t)

variable {w : J → Nat} {tasks : Fin n → List J} {t : Fin n}

@[simp] theorem weigh_nil : weigh w [] = 0 := rfl

@[simp] theorem weigh_cons (job : J) (jobs : List J) : weigh w (job :: jobs) = w job + weigh w jobs := by
  rw [weigh, List.map_cons, List.sum_cons, weigh]

@[simp] theorem weigh_append (jobs jobs' : List J) : weigh w (jobs ++ jobs') = weigh w jobs + weigh w jobs' := by
  rw [weigh, List.map_append, List.sum_append, weigh, weigh]

theorem weigh_le {w' : J → Nat} {jobs : List J} (h : ∀ job ∈ jobs, w job ≤ w' job) : weigh w jobs ≤ weigh w' jobs :=
  List.sum_le_sum h

theorem weigh_mul (k : Nat) (w : J → Nat) (jobs : List J) : weigh (fun job => k * w job) jobs = k * weigh w jobs :=
  List.sum_map_mul_left jobs w k

theorem weigh_eq_zero {jobs : List J} (h : ∀ job ∈ jobs, w job = 0) : weigh w jobs = 0 :=
  List.sum_eq_zero fun _ hm => by
    obtain ⟨job, hjob, rfl⟩ := List.mem_map.mp hm
    exact h job hjob

/-- Jobs that contribute one if they have a property contribute the number of those that have it. -/
theorem weigh_toNat (p : J → Bool) (jobs : List J) : weigh (fun job => (p job).toNat) jobs = jobs.countP p := by
  induction jobs with
  | nil => rfl
  | cons job jobs ih =>
      rw [weigh_cons, ih, List.countP_cons]
      cases p job <;> simp [Nat.add_comm]

theorem weigh_perm {jobs jobs' : List J} (h : jobs.Perm jobs') : weigh w jobs = weigh w jobs' := (h.map w).sum_eq

theorem weigh_eraseIdx {jobs : List J} {k : Nat} {job : J} (h : jobs[k]? = some job) :
    w job + weigh w (jobs.eraseIdx k) = weigh w jobs := by
  obtain ⟨hk, rfl⟩ := List.getElem?_eq_some_iff.mp h
  rw [← weigh_cons, weigh_perm (List.getElem_cons_eraseIdx_perm hk)]

theorem weigh_set {jobs : List J} {k : Nat} {job : J} (h : jobs[k]? = some job) (job' : J) :
    w job + weigh w (jobs.set k job') = w job' + weigh w jobs := by
  obtain ⟨hk, -⟩ := List.getElem?_eq_some_iff.mp h
  rw [weigh_perm (List.set_perm_cons_eraseIdx hk job'), weigh_cons, ← weigh_eraseIdx h]
  omega

theorem total_update (w : J → Nat) (tasks : Fin n → List J) (t : Fin n) (jobs : List J) :
    total w (Function.update tasks t jobs) + weigh w (tasks t) = total w tasks + weigh w jobs := by
  have hothers : ∀ jobs', ∑ i ∈ Finset.univ.erase t, weigh w (Function.update tasks t jobs' i) =
      ∑ i ∈ Finset.univ.erase t, weigh w (tasks i) := by
    intro jobs'
    refine Finset.sum_congr rfl fun i hi => ?_
    rw [Function.update_of_ne (Finset.ne_of_mem_erase hi)]
  rw [total, total, ← Finset.add_sum_erase _ _ (Finset.mem_univ t), hothers, Function.update_self,
    ← Finset.add_sum_erase Finset.univ (fun i => weigh w (tasks i)) (Finset.mem_univ t)]
  omega

/-- The first job of a task makes way for the jobs that follow from it. -/
theorem total_next {job : J} {rest : List J} (h : tasks t = job :: rest) (new : List J) :
    total w (Function.update tasks t (new ++ rest)) + w job = total w tasks + weigh w new := by
  have hupdate := total_update w tasks t (new ++ rest)
  rw [h, weigh_cons, weigh_append] at hupdate
  omega

/-- An idle task is given something to do. -/
theorem total_start (h : tasks t = []) (jobs : List J) :
    total w (Function.update tasks t jobs) = total w tasks + weigh w jobs := by
  have hupdate := total_update w tasks t jobs
  rwa [h, weigh_nil, Nat.add_zero] at hupdate

theorem total_idle (h : ∀ t, tasks t = []) : total w tasks = 0 := by
  rw [total]
  exact Finset.sum_eq_zero fun t _ => by rw [h, weigh_nil]

/-- No task contributes more than the bound. -/
def AtMost (w : J → Nat) (b : Nat) (tasks : Fin n → List J) : Prop := ∀ t, weigh w (tasks t) ≤ b

theorem AtMost.update {b : Nat} (h : AtMost w b tasks) {jobs : List J} (hjobs : weigh w jobs ≤ b) :
    AtMost w b (Function.update tasks t jobs) := by
  intro t'
  by_cases ht : t' = t
  · rw [ht, Function.update_self]
    exact hjobs
  · rw [Function.update_of_ne ht]
    exact h t'

/-- The first job of a task makes way for jobs that contribute no more. -/
theorem AtMost.next {b : Nat} (h : AtMost w b tasks) {job : J} {rest new : List J} (htask : tasks t = job :: rest)
    (hnew : weigh w new ≤ w job) : AtMost w b (Function.update tasks t (new ++ rest)) := by
  have hhead := h t
  rw [htask, weigh_cons] at hhead
  refine h.update ?_
  rw [weigh_append]
  omega

/-- Tasks that contribute at most one each contribute at most one each together. -/
theorem AtMost.total_le (h : AtMost w 1 tasks) : total w tasks ≤ n := by
  calc total w tasks ≤ ∑ _t : Fin n, 1 := Finset.sum_le_sum fun t _ => h t
    _ = n := by rw [Finset.sum_const, Finset.card_univ, Fintype.card_fin, smul_eq_mul, Nat.mul_one]

theorem total_mono {w w' : J → Nat} (h : ∀ job, w job ≤ w' job) (tasks : Fin n → List J) :
    total w tasks ≤ total w' tasks :=
  Finset.sum_le_sum fun _ _ => List.sum_le_sum fun job _ => h job

/-- A property of every job that waits. -/
def Each (P : J → Prop) (tasks : Fin n → List J) : Prop := ∀ t, ∀ job ∈ tasks t, P job

theorem Each.update {P : J → Prop} (h : Each P tasks) {jobs : List J} (hjobs : ∀ job ∈ jobs, P job) :
    Each P (Function.update tasks t jobs) := by
  intro t'
  by_cases ht : t' = t
  · rw [ht, Function.update_self]
    exact hjobs
  · rw [Function.update_of_ne ht]
    exact h t'

/-- The first job of a task makes way for jobs that have the property if it has. -/
theorem Each.next {P : J → Prop} (h : Each P tasks) {job : J} {rest new : List J} (htask : tasks t = job :: rest)
    (hnew : P job → ∀ job' ∈ new, P job') : Each P (Function.update tasks t (new ++ rest)) := by
  have hhead := h t
  rw [htask, List.forall_mem_cons] at hhead
  exact h.update (List.forall_mem_append.mpr ⟨hnew hhead.1, hhead.2⟩)

theorem Each.imp {P Q : J → Prop} (h : Each P tasks) (hPQ : ∀ job, P job → Q job) : Each Q tasks :=
  fun t job hjob => hPQ job (h t job hjob)

/-- The world and its tasks. -/
structure State (n : Nat) (W J : Type) where
  world : W
  tasks : Fin n → List J

namespace State

variable (exec : Ω → W → J → Option (W × List J))

/-- One task runs its first job. A job that fails takes its task with it. -/
def run (s : State n W J) (t : Fin n) (ω : Ω) : State n W J :=
  match s.tasks t with
  | [] => s
  | job :: rest =>
      match exec ω s.world job with
      | some (world, new) => ⟨world, Function.update s.tasks t (new ++ rest)⟩
      | none => ⟨s.world, Function.update s.tasks t []⟩

/-- An idle task is given a job. -/
def start (s : State n W J) (t : Fin n) (f : W → W) (job : W → J) : State n W J :=
  match s.tasks t with
  | [] => ⟨f s.world, Function.update s.tasks t [job s.world]⟩
  | _ :: _ => s

variable {exec} {s : State n W J} {ω : Ω}

theorem run_cases (hexec : ∀ ω world job, ∃ world' new, exec ω world job = some (world', new))
    (s : State n W J) (t : Fin n) (ω : Ω) :
    s.run exec t ω = s ∨ ∃ job rest world' new, s.tasks t = job :: rest ∧ exec ω s.world job = some (world', new) ∧
      s.run exec t ω = ⟨world', Function.update s.tasks t (new ++ rest)⟩ := by
  cases htask : s.tasks t with
  | nil => exact .inl (by rw [run, htask])
  | cons job rest =>
      obtain ⟨world', new, heq⟩ := hexec ω s.world job
      exact .inr ⟨job, rest, world', new, rfl, heq, by rw [run, htask]; simp only [heq]⟩

theorem start_cases (s : State n W J) (t : Fin n) (f : W → W) (job : W → J) :
    s.start t f job = s ∨ s.tasks t = [] ∧ s.start t f job = ⟨f s.world, Function.update s.tasks t [job s.world]⟩ := by
  cases htask : s.tasks t with
  | nil => exact .inr ⟨rfl, by rw [start, htask]⟩
  | cons job rest => exact .inl (by rw [start, htask])

/-- Other tasks wait. -/
theorem tasks_run_of_ne (s : State n W J) {t t' : Fin n} (h : t ≠ t') (ω : Ω) :
    (s.run exec t' ω).tasks t = s.tasks t := by
  rw [run]
  split
  · rfl
  · split <;> exact Function.update_of_ne h _ _

/-- A task that is not idle is given nothing. -/
theorem tasks_start_of_busy {t : Fin n} (h : s.tasks t ≠ []) (t' : Fin n) (f : W → W) (job : W → J) :
    (s.start t' f job).tasks t = s.tasks t := by
  rcases start_cases s t' f job with heq | ⟨htask, heq⟩
  · rw [heq]
  · rw [heq]
    refine Function.update_of_ne ?_ _ _
    rintro rfl
    exact h htask

/-- A turn lowers what a task has still to do, if every job has more to do than what follows from it. -/
theorem weigh_run {w : J → Nat} (hexec : ∀ ω world job, ∃ world' new, exec ω world job = some (world', new) ∧
    weigh w new < w job) (s : State n W J) {t : Fin n} (h : s.tasks t ≠ []) (ω : Ω) :
    weigh w ((s.run exec t ω).tasks t) < weigh w (s.tasks t) := by
  obtain ⟨job, rest, htask⟩ := List.exists_cons_of_ne_nil h
  obtain ⟨world', new, heq, hlt⟩ := hexec ω s.world job
  rw [run, htask]
  simp only [heq, Function.update_self, weigh_append, weigh_cons]
  omega

end State

section Drains

variable {exec : Ω → W → J → Option (W × List J)} {ω : Ω}

/-- The jobs, run one after the other with nothing in between, end in the last world. -/
inductive Drains (exec : Ω → W → J → Option (W × List J)) (ω : Ω) : W → List J → W → Prop where
  | done (world : W) : Drains exec ω world [] world
  | next {world world' world'' : W} {job : J} {new rest : List J} (h : exec ω world job = some (world', new))
      (hrest : Drains exec ω world' (new ++ rest) world'') : Drains exec ω world (job :: rest) world''

theorem Drains.single {world world' : W} {job : J} (h : exec ω world job = some (world', [])) :
    Drains exec ω world [job] world' := .next h (.done world')

theorem Drains.append {world world' world'' : W} {jobs jobs' : List J} (h : Drains exec ω world jobs world')
    (h' : Drains exec ω world' jobs' world'') : Drains exec ω world (jobs ++ jobs') world'' := by
  induction h with
  | done world => exact h'
  | next hexec hrest ih =>
      rw [List.cons_append]
      refine .next hexec ?_
      rw [← List.append_assoc]
      exact ih h'

/-- A task that takes its turns without being interrupted drains its jobs. -/
theorem Drains.run {world world' : W} {jobs : List J} (h : Drains exec ω world jobs world') (tasks : Fin n → List J)
    (t : Fin n) : ∃ k, (List.replicate k ω).foldl (fun s : State n W J => s.run exec t)
      ⟨world, Function.update tasks t jobs⟩ = ⟨world', Function.update tasks t []⟩ := by
  induction h with
  | done world => exact ⟨0, rfl⟩
  | @next world world' world'' job new rest hexec hrest ih =>
      obtain ⟨k, hk⟩ := ih
      refine ⟨k + 1, ?_⟩
      have hturn : State.run exec ⟨world, Function.update tasks t (job :: rest)⟩ t ω =
          ⟨world', Function.update tasks t (new ++ rest)⟩ := by
        rw [State.run]
        simp only [Function.update_self, hexec, Function.update_idem]
      rw [List.replicate_succ, List.foldl_cons, hturn]
      exact hk

end Drains

section

variable {σ A : Type*} {step : σ → A → σ} {rank : σ → Nat} {done : σ → Prop} {turn : A → Bool}

/-- What every turn brings nearer, and nothing else puts off, is done after enough turns. -/
theorem exists_done (hstep : ∀ s a, ¬done s → rank (step s a) + (turn a).toNat ≤ rank s)
    (hzero : ∀ s, rank s = 0 → done s) (s : σ) (acts : List A) (h : rank s ≤ acts.countP turn) :
    ∃ pre, pre <+: acts ∧ done (pre.foldl step s) := by
  induction acts generalizing s with
  | nil => exact ⟨[], List.prefix_rfl, hzero s (Nat.le_zero.mp h)⟩
  | cons a acts ih =>
      by_cases hdone : done s
      · exact ⟨[], List.nil_prefix, hdone⟩
      · have hrank := hstep s a hdone
        have hnext : rank (step s a) ≤ acts.countP turn := by
          rw [List.countP_cons] at h
          cases hturn : turn a <;> simp only [hturn, Bool.toNat_true, Bool.toNat_false, if_true, Bool.false_eq_true,
            if_false] at hrank h <;> omega
        obtain ⟨pre, hpre, hend⟩ := ih (step s a) hnext
        exact ⟨a :: pre, List.cons_prefix_cons.mpr ⟨rfl, hpre⟩, hend⟩

end

/-- An account of what was begun, what has come of it and what the jobs that wait will still bring. -/
structure Ledger (W J : Type) where
  credit : W → Nat
  debit : W → Nat
  owes : J → Nat

namespace Ledger

variable (L : Ledger W J)

/-- Everything begun has come out, or will come out of a job that waits. -/
def Balances (s : State n W J) : Prop := L.credit s.world = L.debit s.world + total L.owes s.tasks

/-- A job hands what it owes to the world and to the jobs that follow from it. -/
def Keeps (world : W) (job : J) (world' : W) (new : List J) : Prop :=
  L.credit world' + L.owes job + L.debit world = L.credit world + weigh L.owes new + L.debit world'

variable {L} {s : State n W J}

theorem Balances.next (h : L.Balances s) {job : J} {rest new : List J} {world' : W} (htask : s.tasks t = job :: rest)
    (hkeeps : L.Keeps s.world job world' new) : L.Balances ⟨world', Function.update s.tasks t (new ++ rest)⟩ := by
  have hnext := total_next (w := L.owes) htask new
  rw [Keeps] at hkeeps
  rw [Balances] at h ⊢
  dsimp only
  omega

theorem Balances.start (h : L.Balances s) {job : J} {world' : W} (htask : s.tasks t = [])
    (hcredit : L.credit world' + L.debit s.world = L.credit s.world + L.owes job + L.debit world') :
    L.Balances ⟨world', Function.update s.tasks t [job]⟩ := by
  have hstart := total_start (w := L.owes) htask [job]
  rw [weigh_cons, weigh_nil, Nat.add_zero] at hstart
  rw [Balances] at h ⊢
  dsimp only
  omega

theorem Balances.world (h : L.Balances s) {world' : W}
    (hsame : L.credit world' + L.debit s.world = L.credit s.world + L.debit world') :
    L.Balances ⟨world', s.tasks⟩ := by
  rw [Balances] at h ⊢
  dsimp only
  omega

end Ledger
end Tasks
