import Mdb.Sched.Profile
import Mdb.Tools.Hist

/-!
The task statistic of a thread (`sched/rsched_profile.h`, built with `CONFIG_RSCHED_PROFILE`).

`statSystem` is `profSystem` with the histograms of the statistics, which `rsched_profile_stop` adds
its time to, and beside it for each thread a record of what it has timed: every sample of its task
statistic, and which of them are of tasks (`TaskTrace`).

The pop that finds the queue empty is timed like one that returns a task. So `TaskInv` counts a
sample for each task and one for each empty pop, and `task_stats_iff`: the statistic is one of tasks
exactly if no pop of the thread has found the queue empty. The histograms never stop a run
(`exists_statRun_init`), so these are all the runs of `profSystem`.
-/

namespace Mdb

/-! ### Histograms -/

/-- `struct rsched_profile_hist_options`, with a size that the options accept; `fi` is what the
logarithmic scale computes in floating point. -/
structure ProfileHistOptions where
  size : ℕ
  min : ℕ
  max : ℕ
  logScale : Bool
  fi : ℕ → ℕ
  size_ge : 8 ≤ size
  size_le : size ≤ 1024

/-- The histogram that `rsched_profile_stat_init` leaves. -/
def ProfileHistOptions.hist (opts : ProfileHistOptions) : PerfHist :=
  perfHistInit opts.size opts.min opts.max opts.logScale opts.fi

/-- `struct rsched_profile_options`. -/
structure ProfileOptions where
  runHist : ProfileHistOptions
  taskHist : ProfileHistOptions
  payloadHist : ProfileHistOptions

/-- The histograms of a thread's statistics. -/
structure ProfileHists where
  run : PerfHist
  task : PerfHist
  payload : PerfHist

/-- `rsched_profile_init`, for the histograms. -/
def rschedProfileInit (opts : ProfileOptions) : ProfileHists :=
  ⟨opts.runHist.hist, opts.taskHist.hist, opts.payloadHist.hist⟩

/-- The time that `rsched_profile_stop` takes. -/
def stopTime (stat : ProfileStat) (now : Timespec) : ℕ :=
  perfTimerDiffNs (perfTimerStop stat.tm now)

/-- `perf_hist_add` inside the calls of `rsched_profile_stop`, which both loops make at the same
places. -/
def ProfileHists.stop (hists : ProfileHists) (now : Timespec) (profile : ProfileStats) :
    LoopPc → Option ProfileHists
  | .stopPayload =>
      (perfHistAdd hists.payload (stopTime profile.payload now)).map fun h =>
        { hists with payload := h }
  | .stopTask | .exitTask =>
      (perfHistAdd hists.task (stopTime profile.task now)).map fun h => { hists with task := h }
  | .exitRun =>
      (perfHistAdd hists.run (stopTime profile.run now)).map fun h => { hists with run := h }
  | _ => some hists

/-! ### What has been timed -/

/-- What a thread has timed: whether its last pop has returned a task, the samples of its task
statistic, those among them that are of executed tasks, and the pops that found the queue empty. -/
structure TaskTrace where
  popped : Bool
  samples : List ℕ
  tasks : List ℕ
  empties : ℕ

/-- A statement of a loop. -/
def TaskTrace.step (tr : TaskTrace) (i : LoopInput) (profile : ProfileStats) : LoopPc → TaskTrace
  | .pop =>
      { tr with
        popped := i.popped
        empties := if i.popped then tr.empties else tr.empties + 1 }
  | .stopTask | .exitTask =>
      { tr with
        samples := tr.samples ++ [stopTime profile.task i.now]
        tasks := if tr.popped then tr.tasks ++ [stopTime profile.task i.now] else tr.tasks }
  | _ => tr

/-- The threads with their statistics, histograms and traces. -/
structure StatPool (n : ℕ) where
  pool : ProfPool n
  hists : Option (Fin n) → ProfileHists
  trace : Option (Fin n) → TaskTrace

/-- A step of `profSystem`, with the histograms. -/
def statStep {n : ℕ} (s : StatPool n) (a : ProfAction n) : Option (StatPool n) :=
  (profStep s.pool a).bind fun pool =>
    match (s.pool.thread a.thread).pc with
    | none => some { s with pool := pool }
    | some pc =>
        let profile := (s.pool.thread a.thread).stats.profile
        ((s.hists a.thread).stop a.input.now profile pc).map fun hists =>
          { pool := pool
            hists := Function.update s.hists a.thread hists
            trace := Function.update s.trace a.thread
              ((s.trace a.thread).step a.input profile pc) }

/-- The host and the workers with their histograms as a step system. -/
def statSystem (n : ℕ) : StepSystem (StatPool n) (ProfAction n) := ⟨statStep⟩

/-- The statistics are initialised and no thread is inside its loop. -/
def statInit (n : ℕ) (opts : ProfileOptions) : StatPool n :=
  ⟨profInit n, fun _ => rschedProfileInit opts, fun _ => ⟨false, [], [], 0⟩⟩

/-- **A statistic of tasks**: as many samples as tasks, and minimum, maximum and sum of their
times, in `uint64_t`. -/
structure StatOfTasks (stats : WorkerStats) (hists : ProfileHists) (tr : TaskTrace) : Prop where
  count_eq : u64 hists.task.total = stats.taskCount
  min_eq : stats.profile.task.min = tr.tasks.foldl min (2 ^ 64 - 1)
  max_eq : stats.profile.task.max = tr.tasks.foldl max 0
  total_eq : stats.profile.task.total = u64 tr.tasks.sum

/-- A pop of the thread `t` returns a task. -/
def PopsTask {n : ℕ} (t : Option (Fin n)) (s : StatPool n) (a : ProfAction n) : Prop :=
  a.thread = t → (s.pool.thread t).pc = some .pop → a.input.popped = true

/-! ### The invariant of a thread -/

/-- The tasks that have been counted before their sample is taken: a worker counts one before it
stops the payload, and the host behind that. -/
def countedAhead (host popped : Bool) : Option LoopPc → ℕ
  | some .stopPayload => if host then 0 else 1
  | some .receive | some .stopTask => 1
  | some .exitTask => if popped then 1 else 0
  | _ => 0

/-- The empty pop whose sample is still to be taken. -/
def emptyAhead (popped : Bool) : Option LoopPc → ℕ
  | some .exitTask => if popped then 0 else 1
  | _ => 0

/-- The places behind a pop that has returned a task. -/
def BehindTask : Option LoopPc → Prop
  | some .startPayload | some .procFun | some .stopPayload | some .receive | some .stopTask => True
  | _ => False

/-- The invariant of a thread: its task statistic is that of all samples, of which there is one for
each task and one for each empty pop. -/
structure TaskInv (host : Bool) (init : PerfHist) (stats : WorkerStats) (hist : PerfHist)
    (tr : TaskTrace) (pc : Option LoopPc) : Prop where
  hist_eq : perfHistAdds init tr.samples = some hist
  min_eq : stats.profile.task.min = tr.samples.foldl min (2 ^ 64 - 1)
  max_eq : stats.profile.task.max = tr.samples.foldl max 0
  total_eq : stats.profile.task.total = u64 tr.samples.sum
  count_eq : stats.taskCount = u64 (tr.tasks.length + countedAhead host tr.popped pc)
  popped_eq : BehindTask pc → tr.popped = true
  length_eq : tr.samples.length + emptyAhead tr.popped pc = tr.tasks.length + tr.empties
  tasks_eq : tr.empties = 0 → tr.tasks = tr.samples

lemma u64_u64_add (a b : ℕ) : u64 (u64 a + b) = u64 (a + b) := by
  rw [u64, u64, u64, Nat.mod_add_mod]

/-- Stopping a statistic takes its time as a sample. -/
lemma rschedProfileStop_eq (stat : ProfileStat) (now : Timespec) :
    (rschedProfileStop stat now).min = min stat.min (stopTime stat now) ∧
      (rschedProfileStop stat now).max = max stat.max (stopTime stat now) ∧
      (rschedProfileStop stat now).total = u64 (stat.total + stopTime stat now) := by
  rw [rschedProfileStop_total]
  simp only [rschedProfileStop, stopTime]
  generalize perfTimerDiffNs (perfTimerStop stat.tm now) = time
  refine ⟨?_, ?_, trivial⟩
  · split_ifs with h
    · exact (min_eq_right h.le).symm
    · exact (min_eq_left (not_lt.mp h)).symm
  · split_ifs with h
    · exact (max_eq_right h.le).symm
    · exact (max_eq_left (not_lt.mp h)).symm

namespace TaskInv

variable {host : Bool} {init hist : PerfHist} {stats : WorkerStats} {tr : TaskTrace}
  {pc pc' : Option LoopPc}

/-- A statement between two places that differ in nothing the invariant reads. -/
lemma move (h : TaskInv host init stats hist tr pc)
    (hcount : countedAhead host tr.popped pc' = countedAhead host tr.popped pc)
    (hempty : emptyAhead tr.popped pc' = emptyAhead tr.popped pc)
    (hbehind : BehindTask pc' → BehindTask pc) : TaskInv host init stats hist tr pc' :=
  { h with
    count_eq := by rw [hcount, h.count_eq]
    popped_eq := fun hb => h.popped_eq (hbehind hb)
    length_eq := by rw [hempty, h.length_eq] }

/-- `++stats->task_count`. -/
lemma countTask (h : TaskInv host init stats hist tr pc)
    (hcount : countedAhead host tr.popped pc' = countedAhead host tr.popped pc + 1)
    (hempty : emptyAhead tr.popped pc' = emptyAhead tr.popped pc)
    (hbehind : BehindTask pc' → BehindTask pc) :
    TaskInv host init stats.countTask hist tr pc' :=
  { h with
    count_eq :=
      calc stats.countTask.taskCount = u64 (stats.taskCount + 1) := rfl
        _ = u64 (tr.tasks.length + countedAhead host tr.popped pc + 1) := by
            rw [h.count_eq, u64_u64_add]
        _ = u64 (tr.tasks.length + countedAhead host tr.popped pc') := by
            rw [hcount, Nat.add_assoc]
    popped_eq := fun hb => h.popped_eq (hbehind hb)
    length_eq := by rw [hempty, h.length_eq] }

/-- A pop. -/
lemma pop (h : TaskInv host init stats hist tr (some .pop)) (popped : Bool) :
    TaskInv host init stats hist
      { tr with popped := popped, empties := if popped then tr.empties else tr.empties + 1 }
      (some (if popped then .startPayload else .exitTask)) := by
  have hlen : tr.samples.length + 0 = tr.tasks.length + tr.empties := h.length_eq
  have hcount : stats.taskCount = u64 (tr.tasks.length + 0) := h.count_eq
  cases popped with
  | true =>
      exact { h with
        count_eq := hcount
        popped_eq := fun _ => rfl
        length_eq := hlen }
  | false =>
      exact { h with
        count_eq := hcount
        popped_eq := fun hb => hb.elim
        length_eq := congrArg (· + 1) hlen
        tasks_eq := fun he => absurd he (Nat.succ_ne_zero _) }

/-- The sample of a task, or of the pop that found the queue empty. -/
lemma stop {hist' : PerfHist} {now : Timespec} (h : TaskInv host init stats hist tr pc)
    (hadd : perfHistAdd hist (stopTime stats.profile.task now) = some hist')
    (hcount : countedAhead host tr.popped pc = if tr.popped then 1 else 0)
    (hempty : emptyAhead tr.popped pc = if tr.popped then 0 else 1)
    (hcount' : countedAhead host tr.popped pc' = 0) (hempty' : emptyAhead tr.popped pc' = 0)
    (hbehind : ¬ BehindTask pc') :
    TaskInv host init (stats.setTask (rschedProfileStop stats.profile.task now)) hist'
      { tr with
        samples := tr.samples ++ [stopTime stats.profile.task now]
        tasks := if tr.popped then tr.tasks ++ [stopTime stats.profile.task now] else tr.tasks }
      pc' := by
  obtain ⟨hmin, hmax, htotal⟩ := rschedProfileStop_eq stats.profile.task now
  have hlen := h.length_eq
  rw [hempty] at hlen
  have htasks : (if tr.popped then tr.tasks ++ [stopTime stats.profile.task now]
      else tr.tasks).length = tr.tasks.length + if tr.popped then 1 else 0 := by
    split_ifs <;> simp
  exact
    { hist_eq := PerfHist.perfHistAdds_concat h.hist_eq hadd
      min_eq := by
        rw [List.foldl_append, ← h.min_eq]
        exact hmin
      max_eq := by
        rw [List.foldl_append, ← h.max_eq]
        exact hmax
      total_eq := by
        calc _ = u64 (stats.profile.task.total + stopTime stats.profile.task now) := htotal
          _ = u64 (tr.samples.sum + stopTime stats.profile.task now) := by
              rw [h.total_eq, u64_u64_add]
          _ = _ := by rw [List.sum_append, List.sum_singleton]
      count_eq := by
        have hsame : (stats.setTask (rschedProfileStop stats.profile.task now)).taskCount
            = stats.taskCount := rfl
        rw [hsame, h.count_eq, hcount, hcount', htasks, Nat.add_zero]
      popped_eq := fun hb => absurd hb hbehind
      length_eq := by
        rw [hempty', htasks, List.length_append, List.length_singleton]
        dsimp only
        split_ifs at hlen ⊢ <;> omega
      tasks_eq := fun he => by
        -- without an empty pop there are as many samples as tasks, so this one is of a task
        have hnone : tr.empties = 0 := he
        have hpopped : tr.popped = true := by
          by_contra hno
          rw [if_neg hno, hnone, h.tasks_eq hnone] at hlen
          omega
        dsimp only
        rw [if_pos hpopped, h.tasks_eq he] }

end TaskInv

/-! ### The two loops -/

section Loops

variable {init hist hist' : PerfHist} {i : LoopInput} {stats : WorkerStats} {tr : TaskTrace}
  {pc : LoopPc}

/-- What a statement does to the histogram of the task statistic. -/
def TaskHist (now : Timespec) (stats : WorkerStats) (hist hist' : PerfHist) : LoopPc → Prop
  | .stopTask | .exitTask => perfHistAdd hist (stopTime stats.profile.task now) = some hist'
  | _ => hist' = hist

lemma taskHist_of_stop {hists hists' : ProfileHists}
    (h : hists.stop i.now stats.profile pc = some hists') :
    TaskHist i.now stats hists.task hists'.task pc := by
  cases pc with
  | stopPayload | exitRun =>
      rw [ProfileHists.stop] at h
      obtain ⟨hist, -, rfl⟩ := Option.map_eq_some_iff.mp h
      rfl
  | stopTask | exitTask =>
      rw [ProfileHists.stop] at h
      obtain ⟨hist, hadd, rfl⟩ := Option.map_eq_some_iff.mp h
      exact hadd
  | startRun | startTask | pop | startPayload | procFun | receive =>
      rw [← Option.some.inj h]
      rfl

/-- A statement of both loops keeps the invariant of either. -/
lemma shared_taskInv {host : Bool} (hpc : pc.shared = true)
    (h : TaskInv host init stats hist tr (some pc))
    (hhist : TaskHist i.now stats hist hist' pc) :
    TaskInv host init (rschedWorkerLoop i stats pc).1 hist' (tr.step i stats.profile pc)
      (rschedWorkerLoop i stats pc).2 := by
  cases pc with
  | startRun | startTask | exitRun =>
      obtain rfl : hist' = hist := hhist
      exact { h.move rfl rfl (fun hb => hb.elim) with }
  | pop =>
      obtain rfl : hist' = hist := hhist
      exact h.pop i.popped
  | startPayload =>
      obtain rfl : hist' = hist := hhist
      exact { h.move rfl rfl (fun hb => hb) with }
  | stopTask =>
      have hpopped := h.popped_eq trivial
      exact h.stop hhist (by rw [hpopped]; rfl) (by rw [hpopped]; rfl) rfl rfl id
  | exitTask => exact h.stop hhist rfl rfl rfl rfl id
  | procFun | stopPayload | receive => cases hpc

/-- A statement of `rsched_worker_loop` keeps the invariant. -/
lemma workerLoop_taskInv (h : TaskInv false init stats hist tr (some pc))
    (hhist : TaskHist i.now stats hist hist' pc) :
    TaskInv false init (rschedWorkerLoop i stats pc).1 hist' (tr.step i stats.profile pc)
      (rschedWorkerLoop i stats pc).2 := by
  cases hpc : pc.shared with
  | true => exact shared_taskInv hpc h hhist
  | false =>
      cases pc with
      | procFun =>
          obtain rfl : hist' = hist := hhist
          exact h.countTask rfl rfl fun hb => hb
      | stopPayload =>
          obtain rfl : hist' = hist := hhist
          exact { h.move rfl rfl (fun hb => hb) with }
      | receive =>
          obtain rfl : hist' = hist := hhist
          have hpopped := h.popped_eq trivial
          rw [rschedWorkerLoop]
          cases i.sig with
          | none | start => exact h.move rfl rfl fun hb => hb
          | int | quit | locked =>
              -- the loop is left behind a task that has been counted
              exact h.move (by rw [hpopped]; rfl) (by rw [hpopped]; rfl) fun hb => hb.elim
      | _ => cases hpc

/-- A statement of `rsched_host_yield` keeps the invariant. -/
lemma hostYield_taskInv (h : TaskInv true init stats hist tr (some pc))
    (hhist : TaskHist i.now stats hist hist' pc) :
    TaskInv true init (rschedHostYield i stats pc).1 hist' (tr.step i stats.profile pc)
      (rschedHostYield i stats pc).2 := by
  cases hpc : pc.shared with
  | true =>
      rw [rschedHostYield_of_shared hpc]
      exact shared_taskInv hpc h hhist
  | false =>
      cases pc with
      | procFun =>
          obtain rfl : hist' = hist := hhist
          exact { h.move rfl rfl (fun hb => hb) with }
      | stopPayload =>
          obtain rfl : hist' = hist := hhist
          have hcounted : TaskInv true init stats.countTask hist' tr (some .stopTask) :=
            h.countTask rfl rfl fun hb => hb
          exact { hcounted with }
      | receive =>
          obtain rfl : hist' = hist := hhist
          exact h.move rfl rfl fun hb => hb
      | _ => cases hpc

lemma profLoop_taskInv {n : ℕ} {t : Option (Fin n)}
    (h : TaskInv t.isNone init stats hist tr (some pc))
    (hhist : TaskHist i.now stats hist hist' pc) :
    TaskInv t.isNone init (profLoop t i stats pc).1 hist' (tr.step i stats.profile pc)
      (profLoop t i stats pc).2 := by
  cases t with
  | none => exact hostYield_taskInv h hhist
  | some w => exact workerLoop_taskInv h hhist

end Loops

/-! ### Runs -/

section Runs

variable {n : ℕ} {opts : ProfileOptions} {s s' : StatPool n} {a : ProfAction n}

/-- A step: a thread enters its loop, or makes a statement of it. -/
lemma statStep_cases (h : statStep s a = some s') :
    ((s.pool.thread a.thread).pc = none ∧ s'.hists = s.hists ∧ s'.trace = s.trace ∧
        s'.pool.thread = Function.update s.pool.thread a.thread
          ⟨(s.pool.thread a.thread).stats, some .startRun⟩) ∨
      ∃ pc hists, (s.pool.thread a.thread).pc = some pc ∧
        (s.hists a.thread).stop a.input.now (s.pool.thread a.thread).stats.profile pc
          = some hists ∧
        s'.hists = Function.update s.hists a.thread hists ∧
        s'.trace = Function.update s.trace a.thread ((s.trace a.thread).step a.input
          (s.pool.thread a.thread).stats.profile pc) ∧
        s'.pool.thread = Function.update s.pool.thread a.thread
          ⟨(profLoop a.thread a.input (s.pool.thread a.thread).stats pc).1,
            (profLoop a.thread a.input (s.pool.thread a.thread).stats pc).2⟩ := by
  obtain ⟨pool, hpool, h⟩ := Option.bind_eq_some_iff.mp h
  rw [profStep] at hpool
  by_cases hback : a.input.now.ns < s.pool.clock.ns
  · rw [if_pos hback] at hpool
    cases hpool
  · rw [if_neg hback] at hpool
    rcases hpc : (s.pool.thread a.thread).pc with _ | pc
    · rw [hpc] at h hpool
      obtain rfl := Option.some.inj hpool
      obtain rfl := Option.some.inj h
      exact Or.inl ⟨rfl, rfl, rfl, rfl⟩
    · rw [hpc] at h hpool
      obtain rfl := Option.some.inj hpool
      obtain ⟨hists, hstop, rfl⟩ := Option.map_eq_some_iff.mp h
      exact Or.inr ⟨pc, hists, rfl, hstop, rfl, rfl, rfl⟩

/-- The invariant of every thread. -/
def PoolTaskInv (opts : ProfileOptions) (s : StatPool n) : Prop :=
  ∀ t, TaskInv t.isNone opts.taskHist.hist (s.pool.thread t).stats (s.hists t).task (s.trace t)
    (s.pool.thread t).pc

lemma poolTaskInv_init (n : ℕ) (opts : ProfileOptions) : PoolTaskInv opts (statInit n opts) :=
  fun _ =>
    { hist_eq := rfl
      min_eq := rfl
      max_eq := rfl
      total_eq := rfl
      count_eq := rfl
      popped_eq := fun hb => hb.elim
      length_eq := rfl
      tasks_eq := fun _ => rfl }

/-- A step keeps the invariant. -/
lemma step_poolTaskInv (h : PoolTaskInv opts s) (hstep : statStep s a = some s') :
    PoolTaskInv opts s' := by
  intro t
  have hthis := h t
  rcases statStep_cases hstep with ⟨hpc, hhists, htrace, hthread⟩ |
    ⟨pc, hists, hpc, hstop, hhists, htrace, hthread⟩
  · rw [hhists, htrace, hthread]
    by_cases ht : t = a.thread
    · subst ht
      rw [Function.update_self]
      rw [hpc] at hthis
      exact hthis.move rfl rfl fun hb => hb.elim
    · rw [Function.update_of_ne ht]
      exact hthis
  · rw [hhists, htrace, hthread]
    by_cases ht : t = a.thread
    · subst ht
      rw [Function.update_self, Function.update_self, Function.update_self]
      rw [hpc] at hthis
      exact profLoop_taskInv hthis (taskHist_of_stop hstop)
    · rw [Function.update_of_ne ht, Function.update_of_ne ht, Function.update_of_ne ht]
      exact hthis

/-- A step leaves a thread without empty pops iff it has been without them and the step is not
one. -/
lemma step_empties {t : Option (Fin n)} (hstep : statStep s a = some s') :
    (s'.trace t).empties = 0 ↔ (s.trace t).empties = 0 ∧ PopsTask t s a := by
  rcases statStep_cases hstep with ⟨hpc, -, htrace, -⟩ | ⟨pc, hists, hpc, -, -, htrace, -⟩
  · rw [htrace]
    refine (and_iff_left fun ht hpop => ?_).symm
    rw [ht, hpop] at hpc
    cases hpc
  · rw [htrace]
    by_cases ht : a.thread = t
    · subst ht
      rw [Function.update_self]
      cases pc with
      | pop =>
          rw [PopsTask, TaskTrace.step]
          dsimp only
          cases a.input.popped <;> simp [hpc]
      | _ =>
          refine (and_iff_left fun _ hpop => ?_).symm
          rw [hpc] at hpop
          cases hpop
    · rw [Function.update_of_ne (Ne.symm ht)]
      exact (and_iff_left fun h => absurd h ht).symm

end Runs

/-- A new histogram counts nothing. -/
lemma ProfileHistOptions.hist_spec (opts : ProfileHistOptions) :
    opts.hist.Allocated ∧ opts.hist.total = 0 := by
  have hpos : 1 ≤ opts.size := le_trans (by norm_num) opts.size_ge
  have hsize : opts.size ≤ 2 ^ 31 - 3 := opts.size_le.trans (by norm_num)
  exact ⟨(PerfHist.perfHistInit_spec opts.min opts.max opts.logScale opts.fi hpos hsize).1,
    PerfHist.perfHistInit_total opts.min opts.max opts.logScale opts.fi hpos hsize⟩

/-- The histogram counts all samples. -/
lemma TaskInv.count_samples {host : Bool} {opts : ProfileHistOptions} {stats : WorkerStats}
    {hist : PerfHist} {tr : TaskTrace} {pc : Option LoopPc}
    (h : TaskInv host opts.hist stats hist tr pc) : u64 hist.total = u64 tr.samples.length := by
  obtain ⟨halloc, hzero⟩ := opts.hist_spec
  obtain ⟨hist', hadds, hmod, -⟩ := PerfHist.perfHistAdds_total halloc tr.samples
  obtain rfl : hist' = hist := Option.some.inj (hadds.symm.trans h.hist_eq)
  rw [hzero, Nat.zero_add] at hmod
  exact hmod

/-- Outside its loop the statistic of a thread is one of tasks, if all samples are. -/
lemma TaskInv.statOfTasks {host : Bool} {opts : ProfileHistOptions} {stats : WorkerStats}
    {hists : ProfileHists} {tr : TaskTrace} (h : TaskInv host opts.hist stats hists.task tr none)
    (hnone : tr.empties = 0) : StatOfTasks stats hists tr := by
  have hcount : stats.taskCount = u64 tr.tasks.length := h.count_eq
  have htasks := h.tasks_eq hnone
  exact
    { count_eq := by rw [h.count_samples, hcount, htasks]
      min_eq := by rw [h.min_eq, htasks]
      max_eq := by rw [h.max_eq, htasks]
      total_eq := by rw [h.total_eq, htasks] }

/-- A sample of an empty pop is one more than the tasks. -/
lemma TaskInv.empties_eq_zero {host : Bool} {opts : ProfileHistOptions} {stats : WorkerStats}
    {hists : ProfileHists} {tr : TaskTrace} (h : TaskInv host opts.hist stats hists.task tr none)
    (hlt : tr.empties < 2 ^ 64) (hstat : StatOfTasks stats hists tr) : tr.empties = 0 := by
  have hlen : tr.samples.length = tr.tasks.length + tr.empties := h.length_eq
  have hcount : stats.taskCount = u64 tr.tasks.length := h.count_eq
  have hsame : u64 tr.samples.length = u64 tr.tasks.length :=
    calc u64 tr.samples.length = u64 hists.task.total := h.count_samples.symm
      _ = stats.taskCount := hstat.count_eq
      _ = u64 tr.tasks.length := hcount
  rw [u64, u64] at hsame
  omega

/-- **Task statistics are about tasks only while every pop returns one.** After every run of the
host and the workers, the statistic of a thread outside its loop is one of tasks if no pop of the
thread has found the queue empty, and only then, unless there have been so many that a `uint64_t`
does not count them. -/
theorem task_stats_iff {n : ℕ} {opts : ProfileOptions} {as : List (ProfAction n)} {s : StatPool n}
    (hrun : (statSystem n).run (statInit n opts) as = some s) {t : Option (Fin n)}
    (hout : (s.pool.thread t).pc = none) :
    ((statSystem n).Meets (PopsTask t) (statInit n opts) as →
      StatOfTasks (s.pool.thread t).stats (s.hists t) (s.trace t)) ∧
    ((s.trace t).empties < 2 ^ 64 →
      StatOfTasks (s.pool.thread t).stats (s.hists t) (s.trace t) →
        (statSystem n).Meets (PopsTask t) (statInit n opts) as) := by
  have hinv := (statSystem n).run_induct (fun _ _ _ h hstep => step_poolTaskInv h hstep)
    (poolTaskInv_init n opts) hrun t
  rw [hout] at hinv
  have hmeets : (s.trace t).empties = 0 ↔ ((statInit n opts).trace t).empties = 0 ∧
      (statSystem n).Meets (PopsTask t) (statInit n opts) as :=
    (statSystem n).reached_iff_meets (P := fun s => (s.trace t).empties = 0)
      (fun _ _ _ hstep => step_empties hstep) hrun
  refine ⟨fun hpops => hinv.statOfTasks (hmeets.mpr ⟨rfl, hpops⟩), fun hlt hstat => ?_⟩
  exact (hmeets.mp (hinv.empties_eq_zero hlt hstat)).2

/-- The options that `main.c` sets without arguments. -/
def defaultProfile : ProfileOptions where
  runHist := ⟨8, 1000000, 30000000, false, fun _ => 0, le_rfl, by norm_num⟩
  taskHist := ⟨16, 20000, 143000, false, fun _ => 0, by norm_num, by norm_num⟩
  payloadHist := ⟨16, 20000, 143000, false, fun _ => 0, by norm_num, by norm_num⟩

instance {n : ℕ} (t : Option (Fin n)) (s : StatPool n) (a : ProfAction n) :
    Decidable (PopsTask t s a) :=
  inferInstanceAs (Decidable (_ → _ → _))

/-- A run of the worker `w` that executes one task and is told to quit, a second to a step. -/
def oneTaskThenQuit {n : ℕ} (w : Fin n) : List (ProfAction n) :=
  [1, 2, 3, 4, 5, 6, 7, 8, 9, 10].map fun sec => ⟨some w, ⟨⟨sec, 0⟩, true, .quit⟩⟩

/-- The theorem at this run. -/
theorem task_stats_one_task :
    ∃ s, (statSystem 1).run (statInit 1 defaultProfile) (oneTaskThenQuit 0) = some s ∧
      StatOfTasks (s.pool.thread (some 0)).stats (s.hists (some 0)) (s.trace (some 0)) := by
  have hend : ((statSystem 1).run (statInit 1 defaultProfile) (oneTaskThenQuit 0)).map
      (fun s => (s.pool.thread (some 0)).pc) = some none := by
    decide +kernel
  obtain ⟨s, hrun, hout⟩ := Option.map_eq_some_iff.mp hend
  exact ⟨s, hrun, (task_stats_iff hrun hout).1 (by decide +kernel)⟩

/-- A run of the host on an empty queue, a second to a step. -/
def emptyQueueRun : List (ProfAction 1) :=
  [1, 2, 3, 4, 5, 6].map fun sec => ⟨none, ⟨⟨sec, 0⟩, false, .none⟩⟩

/-- After a run on an empty queue the host has counted no task, but one sample, of two seconds. -/
theorem task_stats_empty_queue :
    ∃ s, (statSystem 1).run (statInit 1 defaultProfile) emptyQueueRun = some s ∧
      (s.pool.thread none).pc = none ∧ (s.pool.thread none).stats.taskCount = 0 ∧
      (s.hists none).task.total = 1 ∧ (s.pool.thread none).stats.profile.task.max = 2000000000 ∧
      ¬ StatOfTasks (s.pool.thread none).stats (s.hists none) (s.trace none) := by
  have hend : ((statSystem 1).run (statInit 1 defaultProfile) emptyQueueRun).map
      (fun s => ((s.pool.thread none).pc, (s.pool.thread none).stats.taskCount,
        (s.hists none).task.total, (s.pool.thread none).stats.profile.task.max))
      = some (none, 0, 1, 2000000000) := by
    decide +kernel
  obtain ⟨s, hrun, hs⟩ := Option.map_eq_some_iff.mp hend
  simp only [Prod.mk.injEq] at hs
  obtain ⟨hout, hcount, htotal, hmax⟩ := hs
  refine ⟨s, hrun, hout, hcount, htotal, hmax, fun hstat => ?_⟩
  have hsame := hstat.count_eq
  rw [htotal, hcount] at hsame
  exact absurd hsame (by decide)

/-! ### The histograms never fail -/

/-- All histograms of a thread are allocated. -/
structure ProfileHists.Allocated (hists : ProfileHists) : Prop where
  run : hists.run.Allocated
  task : hists.task.Allocated
  payload : hists.payload.Allocated

lemma rschedProfileInit_allocated (opts : ProfileOptions) : (rschedProfileInit opts).Allocated :=
  ⟨opts.runHist.hist_spec.1, opts.taskHist.hist_spec.1, opts.payloadHist.hist_spec.1⟩

/-- Each sample finds a bin. -/
lemma ProfileHists.Allocated.stop {hists : ProfileHists} (h : hists.Allocated) (now : Timespec)
    (profile : ProfileStats) (pc : LoopPc) :
    ∃ hists', hists.stop now profile pc = some hists' ∧ hists'.Allocated := by
  cases pc with
  | stopPayload =>
      obtain ⟨i, -, hadd⟩ := PerfHist.exists_perfHistAdd h.payload (stopTime profile.payload now)
      rw [ProfileHists.stop, hadd]
      exact ⟨_, rfl, h.run, h.task, h.payload.count i⟩
  | stopTask | exitTask =>
      obtain ⟨i, -, hadd⟩ := PerfHist.exists_perfHistAdd h.task (stopTime profile.task now)
      rw [ProfileHists.stop, hadd]
      exact ⟨_, rfl, h.run, h.task.count i, h.payload⟩
  | exitRun =>
      obtain ⟨i, -, hadd⟩ := PerfHist.exists_perfHistAdd h.run (stopTime profile.run now)
      rw [ProfileHists.stop, hadd]
      exact ⟨_, rfl, h.run.count i, h.task, h.payload⟩
  | startRun | startTask | pop | startPayload | procFun | receive => exact ⟨hists, rfl, h⟩

/-- **The histograms never stop a run**: every run of the two loops is one with histograms. -/
theorem exists_statRun {n : ℕ} {as : List (ProfAction n)} :
    ∀ {s : StatPool n} {pool : ProfPool n}, (∀ t, (s.hists t).Allocated) →
      (profSystem n).run s.pool as = some pool →
        ∃ s', (statSystem n).run s as = some s' ∧ s'.pool = pool := by
  induction as with
  | nil => exact fun {s pool} _ hrun => ⟨s, rfl, Option.some.inj hrun⟩
  | cons a as ih =>
      intro s pool halloc hrun
      rw [StepSystem.run_cons, Option.bind_eq_some_iff] at hrun
      obtain ⟨pool₁, hstep, hrun⟩ := hrun
      obtain ⟨s₁, hstat, hpool, halloc₁⟩ : ∃ s₁, statStep s a = some s₁ ∧ s₁.pool = pool₁ ∧
          ∀ t, (s₁.hists t).Allocated := by
        rw [statStep, show profStep s.pool a = some pool₁ from hstep, Option.bind_some]
        rcases (s.pool.thread a.thread).pc with _ | pc
        · exact ⟨_, rfl, rfl, halloc⟩
        · obtain ⟨hists, hstop, hnew⟩ := (halloc a.thread).stop a.input.now
            (s.pool.thread a.thread).stats.profile pc
          dsimp only
          rw [hstop]
          exact ⟨_, rfl, rfl, (Function.forall_update_iff s.hists fun _ h => h.Allocated).mpr
            ⟨hnew, fun t _ => halloc t⟩⟩
      subst hpool
      obtain ⟨s', hrun', hpool'⟩ := ih halloc₁ hrun
      exact ⟨s', by rw [(statSystem n).run_cons_of_step hstat, hrun'], hpool'⟩

/-- From the initialised statistics on there is one for each run of `profSystem`. -/
theorem exists_statRun_init {n : ℕ} (opts : ProfileOptions) {as : List (ProfAction n)}
    {pool : ProfPool n} (hrun : (profSystem n).run (profInit n) as = some pool) :
    ∃ s, (statSystem n).run (statInit n opts) as = some s ∧ s.pool = pool :=
  exists_statRun (s := statInit n opts) (fun _ => rschedProfileInit_allocated opts) hrun

end Mdb
