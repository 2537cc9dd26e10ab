import Mdb.Kernel.Asm
import Mdb.Sched.TaskStats
import Mdb.Tools.ArgsParse

/-!
What `main` sets up (`app/main.c`), from the arguments to the first frame.

`configure_rsched_options` fills in the defaults of the histograms and copies the options of
`task_hist` over those of `payload_hist`; the depth of the iteration is what `mdb_kernel_init`
leaves, since nothing hands `bailout` to a kernel.

* `configureRschedOptions_payload`, `mainSetup_bailout`: so two options are ignored;
* `options_arrive_iff`: when everything that is parsed arrives nevertheless;
* `mainSetup_hists`, `mainSetup_kernel`: what is set up is what the scheduler and the kernels start
  from elsewhere.
-/

namespace Mdb

/-! ### The options of the scheduler -/

/-- `struct rsched_profile_hist_options`; `showHist` is its `show`. -/
structure RschedProfileHistOptions where
  showHist : Bool
  logScale : Bool
  size : ℕ
  min : ℕ
  max : ℕ
  deriving DecidableEq

/-- `struct rsched_options`, with the members of `profile`. -/
structure RschedOptions where
  threads : ℕ
  runHist : RschedProfileHistOptions
  taskHist : RschedProfileHistOptions
  payloadHist : RschedProfileHistOptions
  deriving DecidableEq

/-- `optional_get`. -/
def optionalGet {α : Type} (arg : OptionalField α) (default : α) : α :=
  if arg.set then arg.value else default

/-- `configure_rsched_options`, built with `CONFIG_RSCHED_PROFILE`; `nproc` is what
`get_nthreads` returns. -/
def configureRschedOptions (nproc : ℕ) (args : Arguments) : RschedOptions :=
  let threads := if args.threads ≤ -1 then nproc else args.threads.toNat
  let runHist : RschedProfileHistOptions := {
    showHist := optionalGet args.rsched.runHist.showHist true
    logScale := optionalGet args.rsched.runHist.logScale false
    size := optionalGet args.rsched.runHist.size 8
    min := optionalGet args.rsched.runHist.min (1 * TimeUnit.ms.nanoseconds)
    max := optionalGet args.rsched.runHist.max (30 * TimeUnit.ms.nanoseconds) }
  let taskHist : RschedProfileHistOptions := {
    showHist := optionalGet args.rsched.taskHist.showHist true
    logScale := optionalGet args.rsched.taskHist.logScale false
    size := optionalGet args.rsched.taskHist.size 16
    min := optionalGet args.rsched.taskHist.min (20 * TimeUnit.mc.nanoseconds)
    max := optionalGet args.rsched.taskHist.max (143 * TimeUnit.mc.nanoseconds) }
  { threads := threads, runHist := runHist, taskHist := taskHist, payloadHist := taskHist }

/-! ### The scheduler -/

/-- The arguments of a call of `perf_hist_init`. -/
structure PerfHistArgs where
  size : ℕ
  min : ℕ
  max : ℕ
  logScale : Bool
  deriving DecidableEq

/-- What the histograms of `struct profile_stats` are initialised with. -/
structure ProfileStatsArgs where
  run : PerfHistArgs
  task : PerfHistArgs
  payload : PerfHistArgs
  deriving DecidableEq

/-- `struct rsched_stats`. -/
structure RschedStats where
  runTimeHistShow : Bool
  taskTimeHistShow : Bool
  payloadHistShow : Bool
  deriving DecidableEq

/-- The scheduler as `rsched_create` leaves it: its statistics, and what the histograms of the host
(`none`) and of its workers are initialised with. -/
structure RschedSetup where
  nWorkers : ℕ
  stats : RschedStats
  profile : Option (Fin nWorkers) → ProfileStatsArgs

/-- The call of `perf_hist_init` in `rsched_profile_stat_init`. -/
def statHistArgs (opts : RschedProfileHistOptions) : PerfHistArgs :=
  { size := opts.size, min := opts.min, max := opts.max, logScale := opts.logScale }

/-- `rsched_profile_init`, called by `rsched_worker_init_stats`, for the histograms. -/
def profileInitArgs (opts : RschedOptions) : ProfileStatsArgs where
  run := statHistArgs opts.runHist
  task := statHistArgs opts.taskHist
  payload := statHistArgs opts.payloadHist

/-- `rsched_create` with `rsched_init_structure`, when all workers start. -/
def rschedCreate (opts : RschedOptions) : RschedSetup where
  nWorkers := u32Pred opts.threads
  stats := {
    runTimeHistShow := opts.runHist.showHist
    taskTimeHistShow := opts.taskHist.showHist
    payloadHistShow := opts.payloadHist.showHist }
  profile := fun _ => profileInitArgs opts

/-! ### The kernel -/

/-- The two sources of a kernel's state: `mdb_kernel_common.c`, which the C kernels share, and the
assembly kernel. -/
inductive KernelSource where
  | common
  | asm
  deriving DecidableEq

/-- The state of a loaded kernel. -/
inductive KernelState where
  | common (mdb : MdbT)
  | asm (data : Asm.Data)

/-- The depth of the iteration in the next frame. -/
def KernelState.bailout : KernelState → ℕ
  | common mdb => mdb.bailout
  | asm data => data.bailoutSi

/-- `mdb_kernel_create`, which calls `mdb_kernel_init` of the module. -/
def KernelSource.create : KernelSource → KernelState
  | common => .common (mdbKernelInit mdbLoaded)
  | asm => .asm (Asm.mdbKernelInit Asm.dataLoaded)

/-- `mdb_kernel_set_size` and `mdb_kernel_set_surface` of `run_benchmark_mode` and of
`run_render_mode`. -/
def KernelState.setSize (width height : ℕ) : KernelState → KernelState
  | common mdb => .common (mdbKernelSetSurface (mdbKernelSetSize mdb width height) ⟨width, height⟩)
  | asm data =>
      .asm (Asm.mdbKernelSetSurface (Asm.mdbKernelSetSize data width height) ⟨width, height⟩)

/-! ### `main` -/

/-- What `main` has set up when the first frame begins. -/
structure MainSetup where
  kernel : KernelState
  sched : RschedSetup

/-- `main` up to the first frame, when nothing fails; `source` is what the module that
`kernel_name` names was built from. -/
def mainSetup (nproc : ℕ) (source : KernelSource) (args : Arguments) : MainSetup :=
  let kernel := source.create
  let rschedOpts := configureRschedOptions nproc args
  let sched := rschedCreate rschedOpts
  { kernel := kernel.setSize args.width args.height, sched := sched }

/-! ### What is asked for -/

/-- What `main` uses for an option of a histogram that is not given, on a command line without
options. -/
def histDefault : HistName → (key : HistKey) → key.Value
  | _, .showHist => true
  | _, .logScale => false
  | .runHist, .size => (8 : ℕ)
  | .runHist, .min => (1000000 : ℕ)
  | .runHist, .max => (30000000 : ℕ)
  | .taskHist, .size | .payloadHist, .size => (16 : ℕ)
  | .taskHist, .min | .payloadHist, .min => (20000 : ℕ)
  | .taskHist, .max | .payloadHist, .max => (143000 : ℕ)

/-- The option of a histogram that is given for it, or its default. -/
def Arguments.histValue (args : Arguments) (name : HistName) (key : HistKey) : key.Value :=
  optionalGet (key.field (args.rsched.hist name)) (histDefault name key)

/-- What a thread's histogram is initialised with. -/
def ProfileStatsArgs.hist (profile : ProfileStatsArgs) : HistName → PerfHistArgs
  | .runHist => profile.run
  | .taskHist => profile.task
  | .payloadHist => profile.payload

/-- Whether a histogram is printed. -/
def RschedStats.showHist (stats : RschedStats) : HistName → Bool
  | .runHist => stats.runTimeHistShow
  | .taskHist => stats.taskTimeHistShow
  | .payloadHist => stats.payloadHistShow

/-- The value that the scheduler has for an option of a histogram, in the host or a worker. -/
def RschedSetup.value (sched : RschedSetup) (thread : Option (Fin sched.nWorkers))
    (name : HistName) : (key : HistKey) → key.Value
  | .showHist => sched.stats.showHist name
  | .logScale => ((sched.profile thread).hist name).logScale
  | .size => ((sched.profile thread).hist name).size
  | .min => ((sched.profile thread).hist name).min
  | .max => ((sched.profile thread).hist name).max

/-- **What is parsed arrives**: every histogram of every thread has the options given for it, and
the kernel the depth. -/
structure OptionsArrive (args : Arguments) (setup : MainSetup) : Prop where
  hist : ∀ thread name key, setup.sched.value thread name key = args.histValue name key
  bailout : setup.kernel.bailout = args.bailout

/-! ### What arrives -/

section Arrival

variable (nproc : ℕ) (source : KernelSource) (args : Arguments)

/-- The options of `run_hist` and of `task_hist` arrive; where those of `payload_hist` should,
there are those of `task_hist` again. -/
lemma mainSetup_value (thread : Option (Fin (mainSetup nproc source args).sched.nWorkers))
    (name : HistName) (key : HistKey) :
    (mainSetup nproc source args).sched.value thread name key
      = args.histValue (if name = .payloadHist then .taskHist else name) key := by
  cases name <;> cases key <;> rfl

/-- **The bailout is ignored**: the first frame is drawn with the depth of `mdb_kernel_init`. -/
theorem mainSetup_bailout : (mainSetup nproc source args).kernel.bailout = 256 := by
  cases source with
  | common => rfl
  | asm => rfl

/-- **The options of `payload_hist` are ignored.** -/
theorem configureRschedOptions_payload (hist : ArgRschedHist) :
    configureRschedOptions nproc { args with rsched := args.rsched.setHist .payloadHist hist }
      = configureRschedOptions nproc args := rfl

/-- **When everything that is parsed arrives**: exactly when the options of `payload_hist`, with
the defaults filled in, are those of `task_hist`, and the bailout is the one that
`mdb_kernel_init` sets. -/
theorem options_arrive_iff :
    OptionsArrive args (mainSetup nproc source args) ↔
      (∀ key, args.histValue .payloadHist key = args.histValue .taskHist key) ∧
        args.bailout = 256 := by
  constructor
  · rintro ⟨hhist, hbailout⟩
    refine ⟨fun key => ?_, ?_⟩
    · rw [← hhist none .payloadHist key, mainSetup_value, if_pos rfl]
    · rw [← hbailout, mainSetup_bailout]
  · rintro ⟨hpayload, hbailout⟩
    refine ⟨fun thread name key => ?_, ?_⟩
    · rw [mainSetup_value]
      by_cases hname : name = .payloadHist
      · rw [if_pos hname, hname, hpayload]
      · rw [if_neg hname]
    · rw [mainSetup_bailout, hbailout]

end Arrival

/-- `profile.payload_hist.size=64`. -/
def payloadSize : List Char :=
  profileLab ++ '.' :: (HistName.payloadHist.label ++ '.' :: (sizeLab ++ ['=', '6', '4']))

/-- **A parsed option can be lost**: `--rsched=profile.payload_hist.size=64` leaves the histogram
of the payload with 16 bins. -/
theorem options_lost :
    ¬ ∀ ndebug seen args nproc source, argsParse ndebug seen = .ok args →
      OptionsArrive args (mainSetup nproc source args) := by
  intro h
  obtain ⟨args, hparse, hpayload, htask⟩ :
      ∃ args, argsParse true [(.rsched, payloadSize)] = .ok args ∧
        args.histValue .payloadHist .size = (64 : ℕ) ∧
        args.histValue .taskHist .size = (16 : ℕ) := ⟨_, rfl, rfl, rfl⟩
  have hsize := (h true _ args 1 .common hparse).hist none .payloadHist .size
  rw [mainSetup_value, if_pos rfl, hpayload, htask] at hsize
  exact absurd hsize (by norm_num : (16 : ℕ) ≠ 64)

/-! ### What is set up -/

/-- The histogram that `perf_hist_init` leaves; `fi` is what the logarithmic scale computes in
floating point. -/
def PerfHistArgs.init (hist : PerfHistArgs) (fi : ℕ → ℕ) : PerfHist :=
  perfHistInit hist.size hist.min hist.max hist.logScale fi

/-- The histograms of a thread. -/
def ProfileStatsArgs.init (profile : ProfileStatsArgs) (fi : HistName → ℕ → ℕ) : ProfileHists :=
  ⟨profile.run.init (fi .runHist), profile.task.init (fi .taskHist),
    profile.payload.init (fi .payloadHist)⟩

/-- A size that is given is in range, and so are the defaults. -/
lemma optionalGet_size_range {hist : ArgRschedHist} {d : ℕ} (h : SizeInRange hist)
    (hdefault : 8 ≤ d ∧ d ≤ 1024) :
    8 ≤ optionalGet hist.size d ∧ optionalGet hist.size d ≤ 1024 := by
  rw [optionalGet]
  split_ifs with hset
  · exact h hset
  · exact hdefault

section Start

variable (nproc : ℕ) (source : KernelSource) {args : Arguments} (h : args.InRange)

include h in
/-- **The histograms of the threads** are some of those the task statistics start from: their sizes
are in range. -/
theorem mainSetup_hists (fi : HistName → ℕ → ℕ) (thread) :
    ∃ opts : ProfileOptions,
      ((mainSetup nproc source args).sched.profile thread).init fi = rschedProfileInit opts := by
  obtain ⟨hrun, hrun'⟩ := optionalGet_size_range (d := 8) (h.histSize .runHist) (by norm_num)
  obtain ⟨htask, htask'⟩ :=
    optionalGet_size_range (d := 16) (h.histSize .taskHist) (by norm_num)
  let opts := configureRschedOptions nproc args
  exact ⟨{
    runHist := ⟨opts.runHist.size, opts.runHist.min, opts.runHist.max, opts.runHist.logScale,
      fi .runHist, hrun, hrun'⟩
    taskHist := ⟨opts.taskHist.size, opts.taskHist.min, opts.taskHist.max,
      opts.taskHist.logScale, fi .taskHist, htask, htask'⟩
    payloadHist := ⟨opts.taskHist.size, opts.taskHist.min, opts.taskHist.max,
      opts.taskHist.logScale, fi .payloadHist, htask, htask'⟩ }, rfl⟩

/-- **The kernel of the first frame** is the one that the frame theorems are about. -/
theorem mainSetup_kernel :
    (mainSetup nproc source args).kernel
      = match source with
        | .common => .common (frameSetup (mdbKernelInit mdbLoaded) (args.frameArgs h))
        | .asm => .asm (Asm.frameSetup (Asm.mdbKernelInit Asm.dataLoaded) (args.frameArgs h)) := by
  cases source with
  | common => rfl
  | asm => rfl

end Start

end Mdb
