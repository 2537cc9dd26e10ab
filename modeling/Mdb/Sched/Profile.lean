import Mdb.Library.Stopwatch
import Mdb.Sched.Worker

/-!
The profile of a thread (`sched/rsched_profile.h`, built with `CONFIG_RSCHED_PROFILE`).

`rsched_worker_loop` and `rsched_host_yield` time themselves with three statistics: the run, the
task with its pop, and the payload, the call of the user function. `profSystem` steps the host and
any number of workers through these two loops, statement by statement, over one monotone clock;
what a pop returns and which signal a worker receives is left open. The histograms of the
statistics are those of `TaskStats`.

A statistic that has been started and not yet stopped is a running stopwatch (`ProfileStat.watch`).
At every place of both loops the payload only runs while the task does, and the task only while
the run does, so `ProfInv`, the order of the three readings, is kept by time and by every call of
`rsched_profile_start` and `rsched_profile_stop`. Outside the loops nothing runs, and the readings
are the totals: `profile_totals_nest`.
-/

namespace Mdb

/-! ### Timers -/

/-- `struct timespec`. -/
structure Timespec where
  tvSec : ℕ
  tvNsec : ℕ
  deriving DecidableEq

/-- The nanoseconds of a time. -/
def Timespec.ns (ts : Timespec) : ℕ := ts.tvSec * 1000000000 + ts.tvNsec

/-- `timespec_get_total_ns`. -/
def timespecGetTotalNs (ts : Timespec) : ℕ :=
  if ts.tvSec = 0 then u64 ts.tvNsec
  else u64 (u64 (ts.tvSec * 1000000000) + ts.tvNsec)

/-- `struct perf_timer`; `stop` is its `end`. -/
structure PerfTimer where
  start : Timespec
  stop : Timespec

/-- `perf_timer_start`, the clock reading given. -/
def perfTimerStart (tm : PerfTimer) (now : Timespec) : PerfTimer := { tm with start := now }

/-- `perf_timer_stop`, the clock reading given. -/
def perfTimerStop (tm : PerfTimer) (now : Timespec) : PerfTimer := { tm with stop := now }

/-- `perf_timer_diff_ns`. -/
def perfTimerDiffNs (tm : PerfTimer) : ℕ :=
  u64Sub (timespecGetTotalNs tm.stop) (timespecGetTotalNs tm.start)

/-- The difference is the time since the start, however often the nanoseconds wrap. -/
lemma perfTimerDiffNs_stop {tm : PerfTimer} {now : Timespec} (hle : tm.start.ns ≤ now.ns)
    (hlt : now.ns - tm.start.ns < 2 ^ 64) :
    perfTimerDiffNs (perfTimerStop tm now) = now.ns - tm.start.ns := by
  have htotal : ∀ ts : Timespec, timespecGetTotalNs ts = ts.ns % 2 ^ 64 := fun ts => by
    rw [timespecGetTotalNs, Timespec.ns]
    split_ifs with h
    · rw [h, Nat.zero_mul, Nat.zero_add, u64]
    · rw [u64, u64, Nat.mod_add_mod]
  rw [perfTimerDiffNs, perfTimerStop]
  dsimp only
  rw [htotal, htotal, u64Sub, u64]
  omega

/-! ### Statistics -/

/-- `struct profile_stat`. -/
structure ProfileStat where
  total : ℕ
  max : ℕ
  min : ℕ
  tm : PerfTimer

/-- `rsched_profile_stat_init` of zeroed memory. -/
def rschedProfileStatInit : ProfileStat :=
  { max := 0, min := 2 ^ 64 - 1, total := 0, tm := ⟨⟨0, 0⟩, ⟨0, 0⟩⟩ }

/-- `rsched_profile_start`. -/
def rschedProfileStart (stat : ProfileStat) (now : Timespec) : ProfileStat :=
  { stat with tm := perfTimerStart stat.tm now }

/-- `rsched_profile_stop`. -/
def rschedProfileStop (stat : ProfileStat) (now : Timespec) : ProfileStat :=
  let tm := perfTimerStop stat.tm now
  let time := perfTimerDiffNs tm
  { tm := tm
    max := if stat.max < time then time else stat.max
    min := if stat.min > time then time else stat.min
    total := u64 (stat.total + time) }

/-- `struct profile_stats`. -/
structure ProfileStats where
  run : ProfileStat
  task : ProfileStat
  payload : ProfileStat

/-- `struct worker_stats`. -/
structure WorkerStats where
  taskCount : ℕ
  profile : ProfileStats

/-- `rsched_worker_init_stats`. -/
def rschedWorkerInitStats : WorkerStats :=
  { taskCount := 0
    profile := ⟨rschedProfileStatInit, rschedProfileStatInit, rschedProfileStatInit⟩ }

/-- `overhead_total` of `print_worker_stats`. -/
def overheadTotal (stats : WorkerStats) : ℕ :=
  u64Sub stats.profile.task.total stats.profile.payload.total

/-! ### The two loops -/

/-- Where a thread stands inside `rsched_worker_loop` or `rsched_host_yield`: before which call.
The last two are what follows the loop. -/
inductive LoopPc where
  | startRun
  | startTask
  | pop
  | startPayload
  | procFun
  | stopPayload
  | receive
  | stopTask
  | exitTask
  | exitRun
  deriving DecidableEq

/-- What a step finds: the clock, whether a pop returns a task, and the signal received. -/
structure LoopInput where
  now : Timespec
  popped : Bool
  sig : Signal

namespace WorkerStats

/-- Start or stop the statistic of the run. -/
def setRun (stats : WorkerStats) (stat : ProfileStat) : WorkerStats :=
  { stats with profile := { stats.profile with run := stat } }

/-- Start or stop the statistic of the task. -/
def setTask (stats : WorkerStats) (stat : ProfileStat) : WorkerStats :=
  { stats with profile := { stats.profile with task := stat } }

/-- Start or stop the statistic of the payload. -/
def setPayload (stats : WorkerStats) (stat : ProfileStat) : WorkerStats :=
  { stats with profile := { stats.profile with payload := stat } }

/-- `++stats->task_count`. -/
def countTask (stats : WorkerStats) : WorkerStats :=
  { stats with taskCount := u64 (stats.taskCount + 1) }

end WorkerStats

/-- A statement of `rsched_worker_loop`: the statistics after it and the next one, `none` once the
loop has returned. -/
def rschedWorkerLoop (i : LoopInput) (stats : WorkerStats) : LoopPc → WorkerStats × Option LoopPc
  | .startRun => (stats.setRun (rschedProfileStart stats.profile.run i.now), some .startTask)
  | .startTask => (stats.setTask (rschedProfileStart stats.profile.task i.now), some .pop)
  | .pop => (stats, some (if i.popped then .startPayload else .exitTask))
  | .startPayload =>
      (stats.setPayload (rschedProfileStart stats.profile.payload i.now), some .procFun)
  | .procFun => (stats.countTask, some .stopPayload)
  | .stopPayload =>
      (stats.setPayload (rschedProfileStop stats.profile.payload i.now), some .receive)
  | .receive =>
      match i.sig with
      | .none | .start => (stats, some .stopTask)
      | .int | .quit | .locked => (stats, some .exitTask)
  | .stopTask => (stats.setTask (rschedProfileStop stats.profile.task i.now), some .startTask)
  | .exitTask => (stats.setTask (rschedProfileStop stats.profile.task i.now), some .exitRun)
  | .exitRun => (stats.setRun (rschedProfileStop stats.profile.run i.now), none)

/-- A statement of `rsched_host_yield` from the first call of `rsched_profile_start` to the last one
of `rsched_profile_stop`. The host receives no signals. -/
def rschedHostYield (i : LoopInput) (stats : WorkerStats) : LoopPc → WorkerStats × Option LoopPc
  | .startRun => (stats.setRun (rschedProfileStart stats.profile.run i.now), some .startTask)
  | .startTask => (stats.setTask (rschedProfileStart stats.profile.task i.now), some .pop)
  | .pop => (stats, some (if i.popped then .startPayload else .exitTask))
  | .startPayload =>
      (stats.setPayload (rschedProfileStart stats.profile.payload i.now), some .procFun)
  | .procFun => (stats, some .stopPayload)
  | .stopPayload =>
      ((stats.setPayload (rschedProfileStop stats.profile.payload i.now)).countTask,
        some .stopTask)
  | .receive => (stats, some .stopTask)
  | .stopTask => (stats.setTask (rschedProfileStop stats.profile.task i.now), some .startTask)
  | .exitTask => (stats.setTask (rschedProfileStop stats.profile.task i.now), some .exitRun)
  | .exitRun => (stats.setRun (rschedProfileStop stats.profile.run i.now), none)

/-- A thread: its statistics, and where it stands, if inside its loop. -/
structure ProfThread where
  stats : WorkerStats
  pc : Option LoopPc

/-- The clock as it was last read, the host (`none`) and `n` workers. -/
structure ProfPool (n : ℕ) where
  clock : Timespec
  thread : Option (Fin n) → ProfThread

/-- A step of a thread. -/
structure ProfAction (n : ℕ) where
  thread : Option (Fin n)
  input : LoopInput

/-- A statement of the thread that makes the step. -/
def profLoop {n : ℕ} : Option (Fin n) → LoopInput → WorkerStats → LoopPc →
    WorkerStats × Option LoopPc
  | none => rschedHostYield
  | some _ => rschedWorkerLoop

/-- A step: a thread enters its loop or makes a statement of it. The clock never goes back. -/
def profStep {n : ℕ} (s : ProfPool n) (a : ProfAction n) : Option (ProfPool n) :=
  if a.input.now.ns < s.clock.ns then none
  else
    match (s.thread a.thread).pc with
    | none => some ⟨a.input.now, Function.update s.thread a.thread
        ⟨(s.thread a.thread).stats, some .startRun⟩⟩
    | some pc =>
        let r := profLoop a.thread a.input (s.thread a.thread).stats pc
        some ⟨a.input.now, Function.update s.thread a.thread ⟨r.1, r.2⟩⟩

/-- The host and the workers as a step system. -/
def profSystem (n : ℕ) : StepSystem (ProfPool n) (ProfAction n) := ⟨profStep⟩

/-- The statistics are initialised and no thread is inside its loop. -/
def profInit (n : ℕ) : ProfPool n := ⟨⟨0, 0⟩, fun _ => ⟨rschedWorkerInitStats, none⟩⟩

/-- The statements that the loops of the host and of the workers have in common: the others are
where a worker counts its task, and where it polls its signal. -/
def LoopPc.shared : LoopPc → Bool
  | .procFun | .stopPayload | .receive => false
  | _ => true

lemma rschedHostYield_of_shared {i : LoopInput} {stats : WorkerStats} {pc : LoopPc}
    (h : pc.shared = true) : rschedHostYield i stats pc = rschedWorkerLoop i stats pc := by
  cases pc with
  | procFun | stopPayload | receive => cases h
  | _ => rfl

/-! ### What runs where -/

/-- Which statistics have been started and not yet stopped. -/
structure Running where
  run : Bool
  task : Bool
  payload : Bool

/-- The statistics that run at a place. -/
def running : Option LoopPc → Running
  | none | some .startRun => ⟨false, false, false⟩
  | some .startTask | some .exitRun => ⟨true, false, false⟩
  | some .procFun | some .stopPayload => ⟨true, true, true⟩
  | some .pop | some .startPayload | some .receive | some .stopTask | some .exitTask =>
      ⟨true, true, false⟩

/-- A statistic as a stopwatch. -/
def ProfileStat.watch (stat : ProfileStat) (running : Bool) : Stopwatch :=
  ⟨stat.total, if running then some stat.tm.start.ns else none⟩

/-- The time measured is added to the total without wrapping. -/
def StopFits (stat : ProfileStat) (now : Timespec) : Prop :=
  stat.total + (now.ns - stat.tm.start.ns) < 2 ^ 64

@[simp] lemma watch_isSome (stat : ProfileStat) (b : Bool) :
    (stat.watch b).since.isSome = b := by
  cases b <;> rfl

lemma rschedProfileStop_total (stat : ProfileStat) (now : Timespec) :
    (rschedProfileStop stat now).total
      = u64 (stat.total + perfTimerDiffNs (perfTimerStop stat.tm now)) := rfl

/-- Stopping a statistic stops its stopwatch. -/
lemma watch_stop {stat : ProfileStat} {now : Timespec} (hle : stat.tm.start.ns ≤ now.ns)
    (hfit : StopFits stat now) :
    (rschedProfileStop stat now).watch false = (stat.watch true).stop now.ns := by
  rw [StopFits] at hfit
  have hdiff : perfTimerDiffNs (perfTimerStop stat.tm now) = now.ns - stat.tm.start.ns :=
    perfTimerDiffNs_stop hle (lt_of_le_of_lt (Nat.le_add_left _ _) hfit)
  have htotal : (rschedProfileStop stat now).total = stat.total + (now.ns - stat.tm.start.ns) := by
    rw [rschedProfileStop_total, hdiff, u64_of_lt hfit]
  rw [ProfileStat.watch, ProfileStat.watch, htotal, if_pos rfl, if_neg Bool.false_ne_true,
    Stopwatch.stop_of_running]

/-- The invariant of a thread: the payload and the task run only while the task and the run do,
and have not run longer. -/
structure ProfInv (now : ℕ) (profile : ProfileStats) (r : Running) : Prop where
  nested : (r.payload → r.task) ∧ (r.task → r.run)
  payload_le : (profile.payload.watch r.payload).reading now ≤ (profile.task.watch r.task).reading now
  task_le : (profile.task.watch r.task).reading now ≤ (profile.run.watch r.run).reading now
  payload_started : (profile.payload.watch r.payload).Started now
  task_started : (profile.task.watch r.task).Started now
  run_started : (profile.run.watch r.run).Started now
  task_lt : profile.task.total < 2 ^ 64

namespace ProfInv

variable {now : Timespec} {profile : ProfileStats} {b c : Bool}

/-- Time passes. -/
lemma tick {t t' : ℕ} {r : Running} (h : ProfInv t profile r) (hle : t ≤ t') :
    ProfInv t' profile r where
  nested := h.nested
  payload_le := Stopwatch.reading_le_of_le h.payload_started h.task_started
    (by rw [watch_isSome, watch_isSome]; exact h.nested.1) hle h.payload_le
  task_le := Stopwatch.reading_le_of_le h.task_started h.run_started
    (by rw [watch_isSome, watch_isSome]; exact h.nested.2) hle h.task_le
  payload_started := h.payload_started.mono hle
  task_started := h.task_started.mono hle
  run_started := h.run_started.mono hle
  task_lt := h.task_lt

lemma startRun (h : ProfInv now.ns profile ⟨false, false, false⟩) :
    ProfInv now.ns { profile with run := rschedProfileStart profile.run now }
      ⟨true, false, false⟩ :=
  { h with
    nested := ⟨h.nested.1, fun _ => rfl⟩
    task_le := h.task_le.trans_eq (Stopwatch.reading_start rfl).symm
    run_started := Stopwatch.started_start (w := profile.run.watch false) }

lemma startTask (h : ProfInv now.ns profile ⟨true, false, false⟩) :
    ProfInv now.ns { profile with task := rschedProfileStart profile.task now }
      ⟨true, true, false⟩ :=
  { h with
    nested := ⟨fun _ => rfl, fun _ => rfl⟩
    payload_le := h.payload_le.trans_eq (Stopwatch.reading_start rfl).symm
    task_le := (Stopwatch.reading_start rfl).trans_le h.task_le
    task_started := Stopwatch.started_start (w := profile.task.watch false) }

lemma startPayload (h : ProfInv now.ns profile ⟨true, true, false⟩) :
    ProfInv now.ns { profile with payload := rschedProfileStart profile.payload now }
      ⟨true, true, true⟩ :=
  { h with
    nested := ⟨fun _ => rfl, fun _ => rfl⟩
    payload_le := (Stopwatch.reading_start rfl).trans_le h.payload_le
    payload_started := Stopwatch.started_start (w := profile.payload.watch false) }

lemma stopPayload (h : ProfInv now.ns profile ⟨true, true, true⟩)
    (hfit : StopFits profile.payload now) :
    ProfInv now.ns { profile with payload := rschedProfileStop profile.payload now }
      ⟨true, true, false⟩ := by
  have hw := watch_stop (h.payload_started _ rfl) hfit
  exact { h with
    nested := ⟨fun _ => rfl, fun _ => rfl⟩
    payload_le := by
      rw [hw, Stopwatch.reading_stop]
      exact h.payload_le
    payload_started := Stopwatch.started_of_stopped rfl }

lemma stopTask (h : ProfInv now.ns profile ⟨true, true, false⟩)
    (hfit : StopFits profile.task now) :
    ProfInv now.ns { profile with task := rschedProfileStop profile.task now }
      ⟨true, false, false⟩ := by
  have hw := watch_stop (h.task_started _ rfl) hfit
  exact { h with
    nested := ⟨fun hp => hp, fun _ => rfl⟩
    payload_le := by
      rw [hw, Stopwatch.reading_stop]
      exact h.payload_le
    task_le := by
      rw [hw, Stopwatch.reading_stop]
      exact h.task_le
    task_started := Stopwatch.started_of_stopped rfl
    task_lt := Nat.mod_lt _ (by norm_num) }

lemma stopRun (h : ProfInv now.ns profile ⟨true, false, false⟩) (hfit : StopFits profile.run now) :
    ProfInv now.ns { profile with run := rschedProfileStop profile.run now }
      ⟨false, false, false⟩ := by
  have hw := watch_stop (h.run_started _ rfl) hfit
  exact { h with
    nested := ⟨h.nested.1, fun ht => ht⟩
    task_le := by
      rw [hw, Stopwatch.reading_stop]
      exact h.task_le
    run_started := Stopwatch.started_of_stopped rfl }

end ProfInv

/-! ### Runs -/

/-- What a statement adds to a total fits. -/
def LoopFits (now : Timespec) (profile : ProfileStats) : LoopPc → Prop
  | .stopPayload => StopFits profile.payload now
  | .stopTask | .exitTask => StopFits profile.task now
  | .exitRun => StopFits profile.run now
  | _ => True

instance (now : Timespec) (profile : ProfileStats) :
    ∀ pc, Decidable (LoopFits now profile pc)
  | .stopPayload => inferInstanceAs (Decidable (_ < _))
  | .stopTask | .exitTask => inferInstanceAs (Decidable (_ < _))
  | .exitRun => inferInstanceAs (Decidable (_ < _))
  | .startRun | .startTask | .pop | .startPayload | .procFun | .receive => isTrue trivial

/-- A statement of `rsched_worker_loop` keeps the invariant. -/
lemma workerLoop_profInv {i : LoopInput} {stats : WorkerStats} {pc : LoopPc}
    (h : ProfInv i.now.ns stats.profile (running (some pc)))
    (hfit : LoopFits i.now stats.profile pc) :
    ProfInv i.now.ns (rschedWorkerLoop i stats pc).1.profile
      (running (rschedWorkerLoop i stats pc).2) := by
  cases pc with
  | startRun => exact h.startRun
  | startTask => exact h.startTask
  | pop => cases hp : i.popped <;> simpa [rschedWorkerLoop, hp, running] using h
  | startPayload => exact h.startPayload
  | procFun => exact h
  | stopPayload => exact h.stopPayload hfit
  | receive => cases hs : i.sig <;> simpa [rschedWorkerLoop, hs, running] using h
  | stopTask => exact h.stopTask hfit
  | exitTask => exact h.stopTask hfit
  | exitRun => exact h.stopRun hfit

/-- A statement of `rsched_host_yield` keeps the invariant. -/
lemma hostYield_profInv {i : LoopInput} {stats : WorkerStats} {pc : LoopPc}
    (h : ProfInv i.now.ns stats.profile (running (some pc)))
    (hfit : LoopFits i.now stats.profile pc) :
    ProfInv i.now.ns (rschedHostYield i stats pc).1.profile
      (running (rschedHostYield i stats pc).2) := by
  cases hpc : pc.shared with
  | true =>
      rw [rschedHostYield_of_shared hpc]
      exact workerLoop_profInv h hfit
  | false =>
      cases pc with
      | procFun => exact h
      | stopPayload => exact h.stopPayload hfit
      | receive => exact h
      | _ => cases hpc

lemma profLoop_profInv {n : ℕ} {t : Option (Fin n)} {i : LoopInput} {stats : WorkerStats}
    {pc : LoopPc} (h : ProfInv i.now.ns stats.profile (running (some pc)))
    (hfit : LoopFits i.now stats.profile pc) :
    ProfInv i.now.ns (profLoop t i stats pc).1.profile (running (profLoop t i stats pc).2) := by
  cases t with
  | none => exact hostYield_profInv h hfit
  | some w => exact workerLoop_profInv h hfit

/-- What the step of a thread adds to one of its totals fits. -/
def TotalsFit {n : ℕ} (s : ProfPool n) (a : ProfAction n) : Prop :=
  match (s.thread a.thread).pc with
  | none => True
  | some pc => LoopFits a.input.now (s.thread a.thread).stats.profile pc

instance {n : ℕ} (s : ProfPool n) (a : ProfAction n) : Decidable (TotalsFit s a) :=
  match h : (s.thread a.thread).pc with
  | none => isTrue (by simp [TotalsFit, h])
  | some pc =>
      decidable_of_iff (LoopFits a.input.now (s.thread a.thread).stats.profile pc)
        (by simp [TotalsFit, h])

/-- The invariant of every thread. -/
def PoolProfInv {n : ℕ} (s : ProfPool n) : Prop :=
  ∀ t, ProfInv s.clock.ns (s.thread t).stats.profile (running (s.thread t).pc)

lemma poolProfInv_init (n : ℕ) : PoolProfInv (profInit n) := fun _ =>
  { nested := ⟨fun h => h, fun h => h⟩
    payload_le := le_rfl
    task_le := le_rfl
    payload_started := Stopwatch.started_of_stopped rfl
    task_started := Stopwatch.started_of_stopped rfl
    run_started := Stopwatch.started_of_stopped rfl
    task_lt := by norm_num [profInit, rschedWorkerInitStats, rschedProfileStatInit] }

/-- A step whose totals fit keeps the invariant. -/
lemma step_poolProfInv {n : ℕ} {s s' : ProfPool n} {a : ProfAction n} (h : PoolProfInv s)
    (hfit : TotalsFit s a) (hstep : profStep s a = some s') : PoolProfInv s' := by
  rw [profStep] at hstep
  by_cases hback : a.input.now.ns < s.clock.ns
  · rw [if_pos hback] at hstep
    cases hstep
  · rw [if_neg hback] at hstep
    have hall := fun t => (h t).tick (not_lt.mp hback)
    have hmoved : ∀ th : ProfThread, ProfInv a.input.now.ns th.stats.profile (running th.pc) →
        PoolProfInv ⟨a.input.now, Function.update s.thread a.thread th⟩ := fun th hth =>
      (Function.forall_update_iff s.thread fun _ th =>
        ProfInv a.input.now.ns th.stats.profile (running th.pc)).mpr ⟨hth, fun t _ => hall t⟩
    have hthis := hall a.thread
    rcases hpc : (s.thread a.thread).pc with _ | pc
    · -- a thread enters its loop, where nothing runs yet
      rw [hpc] at hstep hthis
      obtain rfl := Option.some.inj hstep
      exact hmoved _ hthis
    · rw [hpc] at hstep hthis
      obtain rfl := Option.some.inj hstep
      refine hmoved _ ?_
      have hfits : LoopFits a.input.now (s.thread a.thread).stats.profile pc := by
        simpa only [TotalsFit, hpc] using hfit
      exact profLoop_profInv hthis hfits

/-- **Profile totals nest.** After every run of the host and the workers over a monotone clock,
with totals below `2 ^ 64`, a thread outside its run has spent no more time in payloads than in
tasks and no more in tasks than in runs; and the overhead is their difference. -/
theorem profile_totals_nest {n : ℕ} {as : List (ProfAction n)} {s : ProfPool n}
    (hfit : (profSystem n).Meets TotalsFit (profInit n) as)
    (hrun : (profSystem n).run (profInit n) as = some s) {t : Option (Fin n)}
    (hout : (s.thread t).pc = none) :
    let profile := (s.thread t).stats.profile
    profile.payload.total ≤ profile.task.total ∧ profile.task.total ≤ profile.run.total ∧
      overheadTotal (s.thread t).stats + profile.payload.total = profile.task.total := by
  have hinv := (profSystem n).run_induct_of_meets
    (fun _ _ _ h hfit hstep => step_poolProfInv h hfit hstep) (poolProfInv_init n) hfit hrun t
  rw [hout] at hinv
  have hpayload : (s.thread t).stats.profile.payload.total
      ≤ (s.thread t).stats.profile.task.total := hinv.payload_le
  refine ⟨hpayload, hinv.task_le, ?_⟩
  rw [overheadTotal, u64Sub_of_le hpayload hinv.task_lt, Nat.sub_add_cancel hpayload]

/-- A run of the host that pops one task and then finds the queue empty, a second to a step. -/
def oneTaskRun : List (ProfAction 3) :=
  [1, 2, 3, 4, 5, 6, 7, 8, 9, 10, 11, 12].map fun sec =>
    ⟨none, ⟨⟨sec, 0⟩, sec = 4, .none⟩⟩

/-- The theorem at this run, with a payload of two seconds in seven of tasks. -/
theorem profile_totals_nest_one_task :
    ∃ s, (profSystem 3).run (profInit 3) oneTaskRun = some s ∧
      (s.thread none).stats.profile.payload.total ≤ 7000000000 ∧
      overheadTotal (s.thread none).stats = 5000000000 := by
  obtain ⟨s, hrun, hout, htask, hpayload⟩ : ∃ s,
      (profSystem 3).run (profInit 3) oneTaskRun = some s ∧ (s.thread none).pc = none ∧
        (s.thread none).stats.profile.task.total = 7000000000 ∧
        (s.thread none).stats.profile.payload.total = 2000000000 :=
    ⟨_, rfl, rfl, by decide +kernel, by decide +kernel⟩
  obtain ⟨hle, -, hsum⟩ := profile_totals_nest (by decide +kernel) hrun hout
  exact ⟨s, hrun, hle.trans_eq htask, by omega⟩

end Mdb
