import Mdb.Sched.Round

/-!
The barrier of `rsched_host_yield` on a queue of any length.

* `host_yield_barrier`: in every run that does not wrap the index, the round is done when
  `rsched_host_yield` returns with success, and a scheduler without workers or with a shorter queue
  than `2 ^ 32 - 1` tasks has no other runs;
* `barrier_wraps`: with one worker and `2 ^ 32 - 1` tasks a stale pop of the host takes the index
  past its last value, and the tasks are dispensed once more.
-/

namespace Mdb

section HostYield

variable {n : ℕ} {F C : Type*} {length : ℕ} {s s' : Sched n F C}

/-! ### What the pops expect -/

/-- A pop that goes on expects at most `length`. -/
lemma next_of_pop {idx cur : ℕ} {spurious : Bool} {pc : PopPc}
    (h : (rschedQueuePop length spurious idx pc).2 = .next (.cas cur)) :
    cur ≤ length ∧ (rschedQueuePop length spurious idx pc).1 < length := by
  obtain ⟨-, -, heq⟩ | ⟨-, heq⟩ | ⟨hlt, -, heq⟩ | ⟨hlt, -, heq⟩ :=
    rschedQueuePop_cases length spurious idx pc <;> rw [heq] at h ⊢
  · cases h
  · cases h
  · cases h
    exact ⟨hlt.le, hlt⟩
  · cases h
    exact ⟨(u32_le _).trans hlt, hlt⟩

lemma workerStep_expects {idx idx' cur : ℕ} {spurious : Bool} {w w' : Worker F C}
    {ev : WorkerEvent} (h : workerStep length spurious idx w = some (idx', w', ev))
    (hcur : w'.pc = .loopPop (.cas cur)) : cur ≤ length := by
  have hheld : ∀ pc : WorkerPc, pc.holdsWord = true → pc ≠ .loopPop (.cas cur) := by
    intro pc hpc heq
    rw [heq] at hpc
    cases hpc
  rw [workerStep] at h
  cases hpc : w.pc <;> simp only [hpc, Option.some.injEq, Prod.mk.injEq, reduceCtorEq] at h
  case startLock =>
    split_ifs at h
    cases Option.some.inj h
    cases hcur
  all_goals obtain ⟨-, rfl, -⟩ := h
  case yieldReceive => exact absurd hcur (hheld _ (holds_yieldHandle _).1)
  case startUnlock => exact absurd hcur (hheld _ (holds_startHandle _).1)
  case loopReceive => exact absurd hcur (hheld _ (holds_loopHandle _).1)
  case loopPop pc =>
    have hnext : (rschedQueuePop length spurious idx pc).2 = .next (.cas cur) := by
      generalize (rschedQueuePop length spurious idx pc).2 = out at hcur
      cases out with
      | next pc =>
          cases hcur
          rfl
      | ret task => cases task <;> cases hcur
    exact (next_of_pop hnext).1
  all_goals cases hcur

lemma waitFrom_ne_pop {caller : WaitCaller} {k : ℕ} {pc : PopPc} :
    (waitFrom caller k : HostPc n) ≠ .pop pc := by
  intro h
  rw [waitFrom] at h
  split_ifs at h
  cases caller <;> cases h

lemma setFrom_ne_pop {k : ℕ} {pc : PopPc} : (setFrom k : HostPc n) ≠ .pop pc := by
  intro h
  rw [setFrom] at h
  split_ifs at h

/-- The task loop begins with the load of the index. -/
lemma sendFrom_ne_cas {k cur : ℕ} : (sendFrom k : HostPc n) ≠ .pop (.cas cur) := by
  intro h
  rw [sendFrom] at h
  split_ifs at h
  cases h

lemma hostPopHandle_eq {out : PopOut} {cur : ℕ}
    (h : (hostPopHandle out : HostPc n) = .pop (.cas cur)) : out = .next (.cas cur) := by
  cases out with
  | next pc =>
      cases h
      rfl
  | ret task =>
      cases task with
      | none => exact absurd h waitFrom_ne_pop
      | some task => cases h

lemma hostStep_expects {spurious : Bool} {cur : ℕ} (h : hostStep length spurious s = some s')
    (hcur : s'.pc = .pop (.cas cur)) : cur ≤ length ∧ s'.idx < length := by
  rw [hostStep] at h
  cases hpc : s.pc <;> simp only [hpc, Option.some.injEq, reduceCtorEq] at h
  case setLock k =>
    split_ifs at h
    cases Option.some.inj h
    cases hcur
  all_goals subst h
  case waitSignal caller k =>
    dsimp only at hcur
    split_ifs at hcur
  case waitState caller k =>
    cases hst : (s.worker k).state <;> simp only [hst, waitHandle] at hcur
    case waiting => exact absurd hcur waitFrom_ne_pop
    case down => cases caller <;> cases hcur
    all_goals cases hcur
  case setUnlock k => exact absurd hcur setFrom_ne_pop
  case send k esig =>
    dsimp only at hcur
    generalize ((s.worker k).sendExchange .start esig spurious).2 = esig' at hcur
    cases esig' with
    | none => exact absurd hcur sendFrom_ne_cas
    | some esig => cases hcur
  case pop pc =>
    rw [record_pc] at hcur
    rw [record_idx]
    exact next_of_pop (hostPopHandle_eq hcur)
  all_goals cases hcur

/-- The host moves no worker. -/
lemma hostStep_worker_pc {spurious : Bool} (h : hostStep length spurious s = some s')
    (i : Fin n) : (s'.worker i).pc = (s.worker i).pc := by
  have hset : ∀ (k : Fin n) (w : Worker F C), w.pc = (s.worker k).pc →
      (Function.update s.worker k w i).pc = (s.worker i).pc := fun k w hw =>
    (Function.forall_update_iff s.worker fun i w => w.pc = (s.worker i).pc).mpr
      ⟨hw, fun _ _ => rfl⟩ i
  rw [hostStep] at h
  cases hpc : s.pc <;> simp only [hpc, Option.some.injEq, reduceCtorEq] at h
  case setLock k =>
    split_ifs at h
    cases Option.some.inj h
    exact hset k _ rfl
  all_goals subst h
  case waitSignal caller k => rfl
  case waitState caller k => rfl
  case send k esig => exact hset k _ Worker.sendExchange_pc
  case pop pc => rw [record_worker]
  case call task => rfl
  case procFun task => rfl
  all_goals exact hset _ _ rfl

/-- What the pops expect: at most `length`, and `length` itself only with the help of a worker, or
before the host has reached it. -/
structure ExpectsInv (length : ℕ) (s : Sched n F C) : Prop where
  worker : ∀ i cur, (s.worker i).pc = .loopPop (.cas cur) → cur ≤ length
  host : ∀ cur, s.pc = .pop (.cas cur) → cur ≤ length
  alone : n = 0 → s.pc = .pop (.cas length) → s.idx < length

lemma step_expectsInv {a : SchedAction n F C} (hinv : ExpectsInv length s)
    (h : schedStep length s a = some s') : ExpectsInv length s' := by
  obtain ⟨hworker, hhost, halone⟩ := hinv
  cases a with
  | worker i spurious =>
      obtain ⟨idx, w, ev, hw, rfl⟩ := schedStep_worker_inv h
      refine ⟨?_, fun cur hcur => ?_, fun hn => absurd i.2 (by omega)⟩
      · rw [record_worker]
        exact (Function.forall_update_iff s.worker fun _ w =>
          ∀ cur, w.pc = .loopPop (.cas cur) → cur ≤ length).mpr
            ⟨fun _ => workerStep_expects hw, fun j _ => hworker j⟩
      · rw [record_pc] at hcur
        exact hhost cur hcur
  | host spurious =>
      refine ⟨fun j cur hj => ?_, fun cur hcur => (hostStep_expects h hcur).1,
        fun _ hcur => (hostStep_expects h hcur).2⟩
      exact hworker j cur (by rw [← hostStep_worker_pc h j]; exact hj)
  | setUserContext userFun userCtx =>
      obtain ⟨-, rfl⟩ := schedStep_setUserContext_inv h
      exact ⟨hworker, fun _ hcur => absurd hcur setFrom_ne_pop,
        fun _ hcur => absurd hcur setFrom_ne_pop⟩
  | hostYield =>
      obtain ⟨-, -, pc, rfl, rfl | ⟨-, rfl⟩⟩ := schedStep_hostYield_inv h
      · exact ⟨hworker, nofun, nofun⟩
      · exact ⟨hworker, fun _ hcur => absurd hcur sendFrom_ne_cas,
          fun _ hcur => absurd hcur sendFrom_ne_cas⟩
  | requeue =>
      obtain ⟨-, rfl⟩ := schedStep_requeue_inv h
      exact ⟨hworker, nofun, nofun⟩

/-- A scheduler without workers, or with a queue that is short enough, never wraps the index. -/
lemma meets_noWrap (hL : length < 2 ^ 32) (h : n = 0 ∨ length + 1 < 2 ^ 32)
    (as : List (SchedAction n F C)) :
    (schedSystem n F C length).Meets NoWrap (schedInit n F C) as := by
  refine (schedSystem n F C length).meets_of_forall_reached fun pre a suf s _ hrun => ?_
  have hinit : ExpectsInv length (schedInit n F C) :=
    ⟨fun _ _ => nofun, fun _ hcur => absurd hcur waitFrom_ne_pop,
      fun _ hcur => absurd hcur waitFrom_ne_pop⟩
  obtain ⟨hworker, hhost, halone⟩ := (schedSystem n F C length).run_induct
    (fun _ _ _ hinv hstep => step_expectsInv hinv hstep) hinit hrun
  cases a with
  | worker i spurious =>
      intro hpc _
      have hle := hworker i _ hpc
      rcases h with rfl | h
      · exact i.elim0
      · omega
  | host spurious =>
      intro hpc _
      have hle := hhost _ hpc
      rcases h with hn | h
      · by_cases heq : s.idx = length
        · have hlt := halone hn (heq ▸ hpc)
          omega
        · omega
      · omega
  | _ => trivial

/-- **The frame barrier.** In every run that does not wrap the index the round is done whenever
`rsched_host_yield` has returned with success; and without workers, or on a queue shorter than
`2 ^ 32 - 1`, no run wraps it. A stale pop may take the cell behind the tasks, which is outside the
allocation if the capacity is the length; the read returns here all the same. -/
theorem host_yield_barrier (n length : ℕ) (hL : length < 2 ^ 32) :
    (∀ (as : List (SchedAction n F C)) s,
        (schedSystem n F C length).Meets NoWrap (schedInit n F C) as →
        (schedSystem n F C length).run (schedInit n F C) as = some s → s.pc = .returned true →
          RoundDone length s) ∧
      (n = 0 ∨ length + 1 < 2 ^ 32 → ∀ as : List (SchedAction n F C),
        (schedSystem n F C length).Meets NoWrap (schedInit n F C) as) :=
  ⟨fun _ _ hmeets hrun hpc => (run_schedInv hmeets hrun).roundDone hpc,
    fun h as => meets_noWrap hL h as⟩

/-! ### The index wraps -/

/-- A worker at the head of its task loop. -/
def loopWorker : Worker Unit Unit where
  signal := .none
  state := .running
  lock := false
  userFun := some ()
  userCtx := none
  pc := .loopPop .load
  procFun := some ()
  procCtx := none

/-- The host and one worker in their task loops. -/
def racing (idx : ℕ) (pc : HostPc 1) (popped : List (Option (Fin 1) × ℕ))
    (called : List (ProcCall 1 Unit Unit)) (finished : List (Option (Fin 1) × ℕ)) :
    Sched 1 Unit Unit where
  idx := idx
  worker := fun _ => loopWorker
  userFun := some ()
  userCtx := none
  pc := pc
  procFun := some ()
  procCtx := none
  popped := popped
  called := called
  finished := finished

/-- With one worker, replacing it replaces all of them. -/
lemma setWorker_one {s : Sched 1 F C} (i : Fin 1) (w : Worker F C) :
    s.setWorker i w = { s with worker := fun _ => w } := by
  rw [Sched.setWorker, Function.update_eq_const_of_subsingleton]
  rfl

/-- A scheduler with one worker, up to the task loops of its first round. -/
def raceRun : List (SchedAction 1 Unit Unit) :=
  [.worker 0 false, .host false, .host false, .setUserContext (some ()) none, .host false,
    .host false, .host false, .host false, .hostYield, .host false] ++
    List.replicate 7 (.worker 0 false)

lemma run_race (length : ℕ) :
    (schedSystem 1 Unit Unit length).run (schedInit 1 Unit Unit) raceRun
      = some (racing 0 (.pop .load) [] [] []) := by
  obtain ⟨s, hrun, hworker, hs⟩ : ∃ s,
      (schedSystem 1 Unit Unit length).run (schedInit 1 Unit Unit) raceRun = some s ∧
        s.worker 0 = loopWorker ∧
          { s with worker := fun _ => loopWorker } = racing 0 (.pop .load) [] [] [] :=
    ⟨_, rfl, rfl, rfl⟩
  have hall : s.worker = fun _ => loopWorker := funext fun i => by
    rw [Subsingleton.elim i 0]
    exact hworker
  rw [hrun, ← hs, ← hall]

section Race

variable {i : ℕ} {q : HostPc 1} {p f : List (Option (Fin 1) × ℕ)}
  {c : List (ProcCall 1 Unit Unit)}

/-- The worker takes a task, calls the function, and polls its signal. -/
lemma run_task (hL : length < 2 ^ 32) (hlt : i < length) :
    (schedSystem 1 Unit Unit length).run (racing i q p c f)
        (List.replicate 6 (.worker 0 false))
      = some (racing (i + 1) q (p ++ [(some 0, i)])
          (c ++ [⟨some 0, i, some (), none⟩]) (f ++ [(some 0, i)])) := by
  have hload : rschedQueuePop length false i .load = (i, .next (.cas i)) := by
    rw [rschedQueuePop, if_neg (by omega)]
  have hcas : rschedQueuePop length false i (.cas i) = (i + 1, .ret (some i)) := by
    rw [rschedQueuePop, if_pos ⟨rfl, rfl⟩, u32_of_lt (by omega)]
  simp [List.replicate, StepSystem.run, schedSystem, schedStep, workerStep, racing, loopWorker,
    hload, hcas, setWorker_one, Sched.record, popHandle, popEvent, Worker.lockReceive,
    Worker.sigUnlock, loopHandle]

/-- The worker takes the next `m` tasks. -/
lemma run_tasks (hL : length < 2 ^ 32) (m : ℕ) (hle : i + m ≤ length) :
    ∃ as p' c' f', (schedSystem 1 Unit Unit length).run (racing i q p c f) as
        = some (racing (i + m) q p' c' f') ∧
      c'.map ProcCall.task = c.map ProcCall.task ++ List.range' i m := by
  induction m with
  | zero => exact ⟨[], p, c, f, rfl, (List.append_nil _).symm⟩
  | succ m ih =>
      obtain ⟨as, p', c', f', hrun, htasks⟩ := ih (by omega)
      refine ⟨_, _, _, _, (schedSystem 1 Unit Unit length).run_trans hrun
        (run_task hL (by omega)), ?_⟩
      rw [List.map_append, htasks, List.range'_concat, List.append_assoc, Nat.one_mul]
      rfl

/-- The host has expected `0`, but the worker has taken all tasks up to the last one: now it expects
the index behind it. -/
lemma run_stale (hL : length < 2 ^ 32) (hlen : 1 < length) :
    (schedSystem 1 Unit Unit length).run (racing (length - 1) (.pop (.cas 0)) p c f) [.host false]
      = some (racing (length - 1) (.pop (.cas length)) p c f) := by
  have hpop : rschedQueuePop length false (length - 1) (.cas 0)
      = (length - 1, .next (.cas length)) := by
    rw [rschedQueuePop, if_neg (by omega), if_neg (by omega), Nat.sub_add_cancel hlen.le,
      u32_of_lt hL]
  rw [StepSystem.run_singleton]
  simp [schedSystem, schedStep, hostStep, racing, hpop, hostPopHandle, popEvent, Sched.record]

/-- The host takes the index behind the last task, and the queue is full again. -/
lemma run_wrap (hL : length + 1 = 2 ^ 32) :
    (schedSystem 1 Unit Unit length).run (racing length (.pop (.cas length)) p c f)
        (List.replicate 3 (.host false))
      = some (racing 0 (.pop .load) (p ++ [(none, length)])
          (c ++ [⟨none, length, some (), none⟩]) (f ++ [(none, length)])) := by
  have hpop : rschedQueuePop length false length (.cas length) = (0, .ret (some length)) := by
    rw [rschedQueuePop, if_pos ⟨rfl, rfl⟩, hL]
    rfl
  simp [List.replicate, StepSystem.run, schedSystem, schedStep, hostStep, racing, hpop,
    hostPopHandle, popEvent, Sched.record]

/-- The worker and then the host find the queue empty, and the host returns. -/
lemma run_finish :
    ∃ s, (schedSystem 1 Unit Unit length).run (racing length (.pop .load) p c f)
        (List.replicate 3 (.worker 0 false) ++ List.replicate 3 (.host false)) = some s ∧
      s.pc = .returned true ∧ s.called = c := by
  have hpop : rschedQueuePop length false length .load = (length, .ret none) := by
    rw [rschedQueuePop, if_pos le_rfl]
  simp [List.replicate, StepSystem.run, schedSystem, schedStep, workerStep, hostStep, racing,
    loopWorker, hpop, setWorker_one, Sched.record, popHandle, hostPopHandle, popEvent,
    Worker.sigUnlock, waitFrom, waitHandle, waitSuccess]

end Race

/-- The theorem at one worker and one task, which the worker takes. -/
theorem host_yield_barrier_one_task :
    ∃ as s, (schedSystem 1 Unit Unit 1).run (schedInit 1 Unit Unit) as = some s ∧
      s.pc = .returned true ∧ RoundDone 1 s := by
  obtain ⟨s, hfinish, hpc, -⟩ := run_finish (p := [(some 0, 0)])
    (c := [⟨some 0, 0, some (), none⟩]) (f := [(some 0, 0)])
  have hrun := (schedSystem 1 Unit Unit 1).run_trans (run_race 1) <|
    (schedSystem 1 Unit Unit 1).run_trans (run_task (by norm_num) Nat.zero_lt_one) hfinish
  have hbarrier := host_yield_barrier (F := Unit) (C := Unit) 1 1 (by norm_num)
  exact ⟨_, s, hrun, hpc, hbarrier.1 _ s (hbarrier.2 (Or.inr (by norm_num)) _) hrun hpc⟩

/-- **The index wraps.** The host loads the index `0`; the worker takes all tasks but the last;
the exchange of the host fails and expects `2 ^ 32 - 1`; the worker takes the last task; the host
takes the index behind it, and the worker all tasks once more. -/
theorem barrier_wraps :
    ¬ ∀ (n length : ℕ), length < 2 ^ 32 → ∀ (as : List (SchedAction n Unit Unit)) s,
      (schedSystem n Unit Unit length).run (schedInit n Unit Unit) as = some s →
        s.pc = .returned true → RoundDone length s := by
  intro h
  obtain ⟨length, hlen⟩ : ∃ length, length + 1 = 2 ^ 32 := ⟨2 ^ 32 - 1, by norm_num⟩
  have hL : length < 2 ^ 32 := by omega
  have hone : 1 < length := by omega
  have hload : (schedSystem 1 Unit Unit length).run (racing 0 (.pop .load) [] [] []) [.host false]
      = some (racing 0 (.pop (.cas 0)) [] [] []) := by
    have hpop : rschedQueuePop length false 0 .load = (0, .next (.cas 0)) := by
      rw [rschedQueuePop, if_neg (by omega)]
    rw [StepSystem.run_singleton]
    simp [schedSystem, schedStep, hostStep, racing, hpop, hostPopHandle, popEvent, Sched.record]
  obtain ⟨as₁, p₁, c₁, f₁, hfirst, htasks₁⟩ := run_tasks (i := 0) (q := .pop (.cas 0)) (p := [])
    (c := []) (f := []) hL (length - 1) (by omega)
  rw [Nat.zero_add] at hfirst
  have hlast := run_task (i := length - 1) (q := .pop (.cas length)) (p := p₁) (c := c₁) (f := f₁)
    hL (by omega)
  rw [Nat.sub_add_cancel hone.le] at hlast
  obtain ⟨as₂, p₂, c₂, f₂, hagain, htasks₂⟩ := run_tasks (i := 0) (q := .pop .load)
    (p := p₁ ++ [(some 0, length - 1)] ++ [(none, length)])
    (c := c₁ ++ [⟨some 0, length - 1, some (), none⟩] ++ [⟨none, length, some (), none⟩])
    (f := f₁ ++ [(some 0, length - 1)] ++ [(none, length)]) hL length (by omega)
  rw [Nat.zero_add] at hagain
  obtain ⟨s, hfinish, hpc, hcalled⟩ := run_finish (p := p₂) (c := c₂) (f := f₂)
  have hrun := (schedSystem 1 Unit Unit length).run_trans (run_race length) <|
    (schedSystem 1 Unit Unit length).run_trans hload <|
    (schedSystem 1 Unit Unit length).run_trans hfirst <|
    (schedSystem 1 Unit Unit length).run_trans (run_stale hL hone) <|
    (schedSystem 1 Unit Unit length).run_trans hlast <|
    (schedSystem 1 Unit Unit length).run_trans (run_wrap hlen) <|
    (schedSystem 1 Unit Unit length).run_trans hagain hfinish
  -- the task `0` is in both rounds of the worker
  have honce := (h 1 length hL _ s hrun hpc).once 0 (by omega)
  have hmem : ∀ m, 0 < m → 1 ≤ (List.range' 0 m).count 0 := fun m hm =>
    List.count_pos_iff.mpr (List.mem_range'_1.mpr ⟨le_rfl, by omega⟩)
  have htwice : 2 ≤ (s.called.map ProcCall.task).count 0 := by
    rw [hcalled, htasks₂, List.map_append, List.map_append, htasks₁, List.count_append,
      List.count_append, List.count_append, List.map_nil, List.nil_append]
    calc 2 ≤ (List.range' 0 (length - 1)).count 0 + (List.range' 0 length).count 0 :=
          Nat.add_le_add (hmem (length - 1) (by omega)) (hmem length (by omega))
      _ ≤ _ := by omega
  omega

end HostYield

end Mdb
