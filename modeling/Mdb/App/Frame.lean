import Mdb.Kernel.Generic
import Mdb.Sched.Machine

/-!
Frames drawn by the scheduler: `rsched_create_tasks`, `rsched_set_user_context`,
`rsched_host_yield` and `rsched_requeue` as `app/render.c` and `app/benchmark.c` call them, with
the kernels on the threads and keyboard events between the frames.

`FillsFrame` is what a frame asks of a kernel: each task, and the zeroed task behind the last one,
stores pixels of the frame with their values, and the tasks cover the frame. `run_frame` says that
this is enough for any number of threads and frames and every interleaving of their stores.
-/

namespace Mdb

open StoreTrace

/-! ### The cells of the queue -/

/-- The cells behind the tasks are zeroed. -/
def RschedQueue.RestZero (queue : RschedQueue) : Prop :=
  ∀ c ∈ queue.tasks.drop queue.length, c = some zeroTask

lemma storeTask_restZero {queue queue' : RschedQueue} {t : RschedTask}
    (hrest : queue.RestZero) (hlen : queue.length + 1 < 2 ^ 32)
    (h : storeTask queue t = some queue') : queue'.RestZero := by
  rw [storeTask] at h
  split_ifs at h with hlt
  obtain rfl := Option.some.inj h
  intro c hc
  dsimp only at hc
  rw [u32_of_lt hlen, List.drop_set_of_lt (Nat.lt_succ_self _)] at hc
  exact hrest c (List.mem_of_mem_drop (i := 1) (by rwa [List.drop_drop]))

/-- A push zeroes the cells it adds and writes the first of the zeroed ones. -/
lemma push_restZero {queue queue' : RschedQueue} {ts : List RschedTask} {t : RschedTask}
    (hinv : QueueInv ⟨queue, ts⟩) (hrest : queue.RestZero)
    (hfit : queue.capacity + queue.capacity / 4 < 2 ^ 31)
    (h : rschedQueuePush queue t = some queue') : queue'.RestZero := by
  have hle : queue.length ≤ queue.capacity := hinv.length_le
  rw [rschedQueuePush] at h
  split_ifs at h with hfull
  · rw [resize_extend hinv.allocated (by dsimp only; omega), Option.bind_some] at h
    refine storeTask_restZero (fun c hc => ?_) (by dsimp only; omega) h
    rw [List.drop_append] at hc
    rcases List.mem_append.mp hc with hc | hc
    · exact hrest c hc
    · exact (List.mem_replicate.mp (List.mem_of_mem_drop hc)).2
  · exact storeTask_restZero hrest (by omega) h

lemma foldlM_push_restZero (ts : List RschedTask) : ∀ {queue queue' : RschedQueue}
    {us : List RschedTask}, QueueInv ⟨queue, us⟩ → queue.RestZero → queue.capacity ≤ 2 ^ 30 →
      queue.length + ts.length ≤ 2 ^ 28 → ts.foldlM rschedQueuePush queue = some queue' →
      QueueInv ⟨queue', us ++ ts⟩ ∧ queue'.RestZero := by
  induction ts with
  | nil =>
      intro queue queue' us hinv hrest _ _ h
      obtain rfl := Option.some.inj h
      exact ⟨by rwa [List.append_nil], hrest⟩
  | cons t ts ih =>
      intro queue queue' us hinv hrest hcap hlen h
      rw [List.length_cons] at hlen
      rw [List.foldlM_cons, Option.bind_eq_bind, Option.bind_eq_some_iff] at h
      obtain ⟨queue₁, hq₁, h⟩ := h
      have hgrow : queue.length < queue.capacity ∨ 4 ≤ queue.capacity := by
        by_contra hno
        rw [push_eq_none t hinv (by omega) (by omega)] at hq₁
        cases hq₁
      obtain ⟨queue₂, hq₂, hinv₂, hlen₂, hcap₂⟩ := push_inv t hinv hgrow (by omega)
      obtain rfl : queue₁ = queue₂ := Option.some.inj (hq₁.symm.trans hq₂)
      have := ih hinv₂ (push_restZero hinv hrest (by omega) hq₁) (by omega) (by omega) h
      rwa [List.append_assoc] at this

/-- **The cells `rsched_create_tasks` leaves**: the tasks of the frame, and zeroed tasks behind
them. -/
lemma FrameArgs.created_cells (args : FrameArgs) {queue queue' : RschedQueue}
    (h : rschedCreateTasks queue args.width args.height args.blockSize = some queue') :
    queue'.length = args.frameTasks.length ∧ queue'.length ≤ queue'.tasks.length ∧
      queue'.tasks.length < 2 ^ 32 ∧
      (∀ j, ∀ hj : j < queue'.tasks.length, ∃ t, queue'.tasks[j] = some t ∧
        (t ∈ args.frameTasks ∨ t = zeroTask)) ∧
      ∀ t ∈ args.frameTasks, ∃ j < queue'.length, queue'.tasks[j]? = some (some t) := by
  have hq := args.qlen_le
  have hts := args.length_frameTasks_le
  rw [args.rschedCreateTasks_eq] at h
  obtain ⟨hinv, hrest⟩ := foldlM_push_restZero args.frameTasks args.queueInv_reserved
    (fun c hc => (List.mem_replicate.mp (List.mem_of_mem_drop hc)).2) (by dsimp only; omega)
    (by dsimp only; omega) h
  obtain ⟨hall, hle, hst, hcap⟩ := hinv
  dsimp only at hall hle hst hcap
  rw [List.nil_append] at hst
  have hlen : queue'.length = args.frameTasks.length := by
    have hmin := congrArg List.length hst
    rw [List.length_take, List.length_map] at hmin
    omega
  refine ⟨hlen, by omega, by omega, fun j hj => ?_, fun t ht => ?_⟩
  · by_cases hlt : j < queue'.length
    · have hget : queue'.tasks[j]? = (args.frameTasks.map some)[j]? := by
        rw [← hst, List.getElem?_take_of_lt hlt]
      rw [List.getElem?_eq_getElem hj, List.getElem?_map,
        List.getElem?_eq_getElem (by omega), Option.map_some, Option.some.injEq] at hget
      exact ⟨_, hget, Or.inl (List.getElem_mem _)⟩
    · refine ⟨zeroTask, hrest _ ?_, Or.inr rfl⟩
      exact List.mem_drop_iff_getElem.mpr ⟨j - queue'.length, by omega, by congr 1; omega⟩
  · obtain ⟨j, hj, rfl⟩ := List.getElem_of_mem ht
    refine ⟨j, by omega, ?_⟩
    rw [← List.getElem?_take_of_lt (show j < queue'.length by omega), hst, List.getElem?_map,
      List.getElem?_eq_getElem hj, Option.map_some]

/-! ### Kernels that fill a frame -/

/-- A kernel that fills a frame with the values `v`: it ends on every task of the frame and on the
zeroed one, storing nothing but pixels of the frame with their values, and reaches all of them. -/
structure FillsFrame {α : Type*} (args : FrameArgs)
    (kernel : RschedTask → Option (List (PixelStore α))) (v : ℕ → ℕ → α) : Prop where
  block : ∀ t, t ∈ args.frameTasks ∨ t = zeroTask → ∃ st, kernel t = some st ∧
    ∀ s ∈ st, ∃ x y, x < args.width ∧ y < args.height ∧ s = (y * args.width + x, v x y)
  cover : ∀ x y, x < args.width → y < args.height → ∃ t ∈ args.frameTasks, ∃ st,
    kernel t = some st ∧ ∃ s ∈ st, s.1 = y * args.width + x

/-- The tasks of a frame and the zeroed one lie in the frame. -/
lemma FrameArgs.task_bounds (args : FrameArgs) {t : RschedTask}
    (ht : t ∈ args.frameTasks ∨ t = zeroTask) :
    t.x0 ≤ t.x1 ∧ t.x1 < args.width ∧ t.y0 ≤ t.y1 ∧ t.y1 < args.height := by
  have hw := args.width_ge
  have hh := args.height_ge
  rcases ht with ht | rfl
  · obtain ⟨⟨h₁, h₂, -⟩, h₃, h₄, -⟩ := args.frameTasks_bounds ht
    omega
  · simp only [zeroTask]
    omega

/-! ### Frames over whole runs -/

section Run

variable {n : ℕ} {V F C E α : Type*}

/-- `render_kernel_proc_fun` and `benchmark_proc_fun` on the tasks of a queue: both run
`mdb_kernel_process_block` of the kernel that their context points to. -/
def frameProgram (F C : Type*) (queue : RschedQueue)
    (kernel : V → RschedTask → Option (List (PixelStore α))) (handle : V → E → V) :
    Program V F C E α where
  cells := queue.tasks
  length := queue.length
  proc := fun view _ ctx t => ctx.bind fun _ => kernel view t
  handle := handle

/-- The condition on a step: a task is taken within the array, a function is set together with its
context, and an event leads to a state that the kernel has frames of. -/
def FrameStep (P : Program V F C E α) (Ok : V → Prop) (s : Machine n V F C α) :
    MachineAction n F C E → Prop
  | .sched a => PopsWithin P.cells.length s.sched a ∧
      ∀ userFun userCtx, a = .setUserContext userFun userCtx → userCtx ≠ none
  | .event e => Ok (P.handle s.view e)
  | .store _ => True

/-- The steps that threads take inside their calls. -/
def MachineAction.ofThread : MachineAction n F C E → Bool
  | .sched a => a.thread.isSome
  | .store _ => true
  | .event _ => false

/-- What the threads leave alone when they take a step. -/
lemma ofThread_user {P : Program V F C E α} {s s' : Machine n V F C α}
    {a : MachineAction n F C E} (ha : a.ofThread = true) (h : machineStep P s a = some s') :
    s'.sched.userFun = s.sched.userFun ∧ s'.view = s.view := by
  cases a with
  | sched a =>
      obtain ⟨t, ht⟩ := Option.isSome_iff_exists.mp ha
      obtain ⟨sched, calls, hsched, -, rfl⟩ := machineStep_sched_inv h
      exact ⟨(schedStep_thread ht hsched).1.1.1, rfl⟩
  | store t =>
      obtain ⟨calls, -, rfl⟩ := Option.map_eq_some_iff.mp h
      exact ⟨rfl, rfl⟩
  | event e => cases ha

/-- What no run may do wrong: a thread about to call the user function has a task, a function and a
context to call it with; nothing is stored outside the frame, nor left to be; no event arrives
while a call reads the state; and `rsched_host_yield` does not fail once a function is set. -/
structure FrameSafe (args : FrameArgs) (P : Program V F C E α) (mem : ℕ → α)
    (s : Machine n V F C α) : Prop where
  calls : ∀ t task, s.sched.ledger.status t = .holding task → ∃ c, P.threadCalls s t = some c
  pending : ∀ t, ∀ x ∈ s.calls.todo t, x.1 < args.width * args.height
  outside : ∀ i, args.width * args.height ≤ i → s.calls.mem i = mem i
  still : s.sched.pc = .idle → ∀ t task, s.sched.ledger.status t ≠ .calling task
  succeeds : s.sched.pc ≠ .failed ∧ (s.sched.pc = .returned false → s.sched.userFun = none)

/-- The invariant of the runs whose steps are all `FrameStep`. -/
structure FrameInv (args : FrameArgs) (P : Program V F C E α) (Ok : V → Prop) (mem : ℕ → α)
    (s : Machine n V F C α) : Prop where
  machine : MachineInv P s
  view : Ok s.view
  ctx : s.sched.userFun ≠ none → s.sched.userCtx ≠ none
  bounded : ∀ x ∈ s.calls.begun.flatten, x.1 < args.width * args.height
  outside : ∀ i, args.width * args.height ≤ i → s.calls.mem i = mem i
  succeeds : NeverFails s.sched

/-- What a step of a thread does to the calls that have begun. -/
lemma threadCalls_begun {P : Program V F C E α} {s : Machine n V F C α} {t : Option (Fin n)}
    {calls : StoreCalls (Option (Fin n)) ℕ α} (h : P.threadCalls s t = some calls) :
    calls.mem = s.calls.mem ∧ (calls.begun = s.calls.begun ∨ ∃ task st,
      s.sched.ledger.status t = .holding task ∧ calls = s.calls.begin t st ∧
        P.callStores s.view (s.sched.procArgs t).1 (s.sched.procArgs t).2 task = some st) := by
  rw [Program.threadCalls] at h
  cases hst : s.sched.ledger.status t with
  | free =>
      simp only [hst, Option.some.injEq] at h
      subst h
      exact ⟨rfl, Or.inl rfl⟩
  | holding task =>
      simp only [hst] at h
      obtain ⟨st, hstores, rfl⟩ := Option.map_eq_some_iff.mp h
      exact ⟨rfl, Or.inr ⟨task, st, rfl, rfl, hstores⟩⟩
  | calling task =>
      simp only [hst] at h
      split_ifs at h
      obtain rfl := Option.some.inj h
      exact ⟨rfl, Or.inl rfl⟩

section Kernel

variable {args : FrameArgs} {queue : RschedQueue} {P : Program V F C E α} {Ok : V → Prop}
  {kernel : V → RschedTask → Option (List (PixelStore α))} {v : V → ℕ → ℕ → α}
  {handle : V → E → V} {mem : ℕ → α} {s s' : Machine n V F C α}

/-- The cells of the queue are tasks of the frame or zeroed. -/
def CellsOf (args : FrameArgs) (queue : RschedQueue) : Prop :=
  ∀ j, ∀ hj : j < queue.tasks.length, ∃ t, queue.tasks[j] = some t ∧
    (t ∈ args.frameTasks ∨ t = zeroTask)

/-- A call of the program runs the kernel on a task of the frame, or on the zeroed one. -/
lemma callStores_eq (hcells : CellsOf args queue) {view : V} {fn : Option F} {ctx : Option C}
    {task : ℕ} {st : List (PixelStore α)}
    (h : (frameProgram F C queue kernel handle).callStores view fn ctx task = some st) :
    ∃ t, (t ∈ args.frameTasks ∨ t = zeroTask) ∧ queue.tasks[task]? = some (some t) ∧
      kernel view t = some st := by
  rw [Program.callStores, Option.bind_eq_some_iff] at h
  obtain ⟨f, -, h⟩ := h
  rw [Option.bind_eq_some_iff] at h
  obtain ⟨t, ht, h⟩ := h
  rw [Option.join_eq_some_iff] at ht
  obtain ⟨hj, hget⟩ := List.getElem?_eq_some_iff.mp ht
  obtain ⟨t', hget', hmem⟩ := hcells task hj
  obtain rfl : t = t' := Option.some.inj (hget.symm.trans hget')
  obtain ⟨c, -, hkernel⟩ := Option.bind_eq_some_iff.mp h
  exact ⟨t, hmem, ht, hkernel⟩

/-- A thread that takes a step keeps the stores within the frame. -/
lemma threadCalls_frameInv (hcells : CellsOf args queue)
    (hfills : ∀ view, Ok view → FillsFrame args (kernel view) (v view))
    (hinv : FrameInv args (frameProgram F C queue kernel handle) Ok mem s) {t : Option (Fin n)}
    {calls : StoreCalls (Option (Fin n)) ℕ α}
    (h : (frameProgram F C queue kernel handle).threadCalls s t = some calls) :
    calls.mem = s.calls.mem ∧ ∀ x ∈ calls.begun.flatten, x.1 < args.width * args.height := by
  obtain ⟨hmem, hbegun | ⟨task, st, -, rfl, hst⟩⟩ := threadCalls_begun h
  · exact ⟨hmem, by rw [hbegun]; exact hinv.bounded⟩
  · refine ⟨hmem, fun x hx => ?_⟩
    rw [StoreCalls.begin_begun, List.flatten_append, List.flatten_singleton] at hx
    rcases List.mem_append.mp hx with hx | hx
    · exact hinv.bounded x hx
    · obtain ⟨t', ht', -, hkernel⟩ := callStores_eq hcells hst
      obtain ⟨st', hst', hsound⟩ := (hfills s.view hinv.view).block t' ht'
      obtain rfl : st = st' := Option.some.inj (hkernel.symm.trans hst')
      obtain ⟨i, j, hi, hj, rfl⟩ := hsound x hx
      exact pixel_index_lt hi hj

/-- A step keeps the invariant of the frames. -/
lemma step_frameInv (hcells : CellsOf args queue) (hcap : queue.tasks.length < 2 ^ 32)
    (hfills : ∀ view, Ok view → FillsFrame args (kernel view) (v view))
    (hinv : FrameInv args (frameProgram F C queue kernel handle) Ok mem s)
    {a : MachineAction n F C E} (hok : FrameStep (frameProgram F C queue kernel handle) Ok s a)
    (h : machineStep (frameProgram F C queue kernel handle) s a = some s') :
    FrameInv args (frameProgram F C queue kernel handle) Ok mem s' := by
  have hmachine := step_machineInv hcap hinv.machine
    (by cases a <;> first | exact hok.1 | trivial) h
  cases a with
  | sched a =>
      obtain ⟨sched, calls, hsched, hcalls, rfl⟩ := machineStep_sched_inv h
      have hsucceeds := step_neverFails hinv.machine.sched.barrier hinv.succeeds hsched
      have hthread : ∀ t, a.thread = some t →
          (frameProgram F C queue kernel handle).threadCalls s t = some calls →
          FrameInv args (frameProgram F C queue kernel handle) Ok mem
            { s with sched := sched, calls := calls } := by
        intro t ht hcalls
        obtain ⟨hmem, hbounded⟩ := threadCalls_frameInv hcells hfills hinv hcalls
        obtain ⟨⟨⟨hfun, hctx⟩, -⟩, -⟩ := schedStep_thread ht hsched
        refine ⟨hmachine, hinv.view, ?_, hbounded, ?_, hsucceeds⟩
        · dsimp only
          rw [hfun, hctx]
          exact hinv.ctx
        · dsimp only
          rw [hmem]
          exact hinv.outside
      cases a with
      | worker i spurious => exact hthread (some i) rfl hcalls
      | host spurious => exact hthread none rfl hcalls
      | setUserContext userFun userCtx =>
          obtain ⟨-, rfl⟩ := schedStep_setUserContext_inv hsched
          obtain rfl := Option.some.inj hcalls
          exact ⟨hmachine, hinv.view, fun _ => hok.2 userFun userCtx rfl, hinv.bounded,
            hinv.outside, hsucceeds⟩
      | hostYield =>
          obtain ⟨-, -, pc, rfl, -⟩ := schedStep_hostYield_inv hsched
          obtain rfl := Option.some.inj hcalls
          exact ⟨hmachine, hinv.view, hinv.ctx, fun x hx => absurd hx List.not_mem_nil,
            hinv.outside, hsucceeds⟩
      | requeue =>
          obtain ⟨-, rfl⟩ := schedStep_requeue_inv hsched
          obtain rfl := Option.some.inj hcalls
          exact ⟨hmachine, hinv.view, hinv.ctx, hinv.bounded, hinv.outside, hsucceeds⟩
  | store t =>
      rw [machineStep] at h
      obtain ⟨calls, hcalls, rfl⟩ := Option.map_eq_some_iff.mp h
      obtain ⟨x, rest, htodo, rfl⟩ := StoreCalls.store_inv hcalls
      have hx := hinv.bounded x (hinv.machine.calls.pending t x (htodo ▸ List.mem_cons_self))
      refine ⟨hmachine, hinv.view, hinv.ctx, hinv.bounded, fun i hi => ?_, hinv.succeeds⟩
      dsimp only
      rw [Function.update_of_ne (by omega)]
      exact hinv.outside i hi
  | event e =>
      rw [machineStep] at h
      split_ifs at h
      obtain rfl := Option.some.inj h
      exact ⟨hmachine, hok, hinv.ctx, hinv.bounded, hinv.outside, hinv.succeeds⟩

lemma frameInv_init {view : V} (hview : Ok view) :
    FrameInv args P Ok mem (machineInit n F C view mem) where
  machine := machineInv_init view mem
  view := hview
  ctx := fun h => absurd rfl h
  bounded := fun _ hx => absurd hx List.not_mem_nil
  outside := fun _ _ => rfl
  succeeds := neverFails_of_ne (waitFrom_not_failed .create 0).1 (waitFrom_not_failed .create 0).2

/-- The invariant rules out what no run may do wrong. -/
lemma FrameInv.safe (hcells : CellsOf args queue)
    (hfills : ∀ view, Ok view → FillsFrame args (kernel view) (v view))
    (hinv : FrameInv args (frameProgram F C queue kernel handle) Ok mem s) :
    FrameSafe args (frameProgram F C queue kernel handle) mem s where
  calls := fun t task htask => by
    obtain ⟨f, hf, hlt, heq⟩ := hinv.machine.threadCalls_eq htask
    obtain ⟨c, hc⟩ := Option.ne_none_iff_exists'.mp (hinv.ctx (by rw [hf]; exact nofun))
    obtain ⟨t', ht', hmem⟩ := hcells task hlt
    obtain ⟨st, hst, -⟩ := (hfills s.view hinv.view).block t' hmem
    refine ⟨s.calls.begin t st, ?_⟩
    rw [heq, show (frameProgram F C queue kernel handle).cells[task] = some t' from ht', hc,
      Option.bind_some, show (frameProgram F C queue kernel handle).proc s.view f (some c) t'
        = some st from hst, Option.map_some]
  pending := fun t x hx => hinv.bounded x (hinv.machine.calls.pending t x hx)
  outside := hinv.outside
  still := fun hpc t task => by
    rw [hinv.machine.sched.free_of_between (by rw [hpc]; rfl)]
    exact nofun
  succeeds := hinv.succeeds

/-- When `rsched_host_yield` returns with success, the frame is that of the current state. -/
lemma FrameInv.frame (hcells : CellsOf args queue)
    (htasks : ∀ t ∈ args.frameTasks, ∃ j < queue.length, queue.tasks[j]? = some (some t))
    (hfills : ∀ view, Ok view → FillsFrame args (kernel view) (v view))
    (hinv : FrameInv args (frameProgram F C queue kernel handle) Ok mem s)
    (hpc : s.sched.pc = .returned true) {x y : ℕ} (hx : x < args.width) (hy : y < args.height) :
    s.calls.mem (y * args.width + x) = v s.view x y := by
  have hfill := hfills s.view hinv.view
  obtain ⟨sts, hsts, -, hmem⟩ := hinv.machine.round_sequential hpc
  -- every store of the round is a pixel with its value
  have hsound : ∀ st ∈ sts, ∀ p ∈ st, ∃ i j, i < args.width ∧ j < args.height ∧
      p = (j * args.width + i, v s.view i j) := by
    intro st hst p hp
    obtain ⟨e, -, he⟩ := List.mem_map.mp (hsts ▸ List.mem_map_of_mem (f := some) hst)
    obtain ⟨t, ht, -, hkernel⟩ := callStores_eq hcells he
    obtain ⟨st', hst', hpix⟩ := hfill.block t ht
    obtain rfl : st = st' := Option.some.inj (hkernel.symm.trans hst')
    exact hpix p hp
  have hvalue : ∀ p ∈ sts.flatten, ∀ i j, i < args.width → p.1 = j * args.width + i →
      p.2 = v s.view i j := by
    intro p hp i j hi hidx
    obtain ⟨st, hst, hpst⟩ := List.mem_flatten.mp hp
    obtain ⟨i', j', hi', -, rfl⟩ := hsound st hst p hpst
    obtain ⟨rfl, rfl⟩ := pixel_index_inj hi' hi hidx
    rfl
  have hagree : Consistent sts.flatten := by
    intro p hp q hq hpq
    obtain ⟨st, hst, hpst⟩ := List.mem_flatten.mp hp
    obtain ⟨i, j, hi, -, rfl⟩ := hsound st hst p hpst
    exact (hvalue q hq i j hi hpq.symm).symm
  rw [hmem hagree]
  refine applyStores_of_consistent ?_ fun p hp hidx => hvalue p hp x y hx hidx
  -- the pixel lies in a task of the frame, which the round has called
  obtain ⟨t, ht, st, hst, p, hp, hidx⟩ := hfill.cover x y hx hy
  obtain ⟨j, hj, hget⟩ := htasks t ht
  have honce := (hinv.machine.sched.roundDone hpc).once j hj
  obtain ⟨e, he, rfl⟩ := List.mem_map.mp (List.count_pos_iff.mp (by rw [honce]; exact one_pos))
  obtain ⟨st', hst', heq⟩ : ∃ st' ∈ sts, some st'
      = (frameProgram F C queue kernel handle).callStores s.view s.sched.userFun s.sched.userCtx
          e.task := by
    have hmem' := List.mem_map_of_mem (f := fun e => (frameProgram F C queue kernel
      handle).callStores s.view s.sched.userFun s.sched.userCtx e.task) he
    rw [hsts] at hmem'
    exact List.mem_map.mp hmem'
  obtain ⟨t', -, hget', hkernel⟩ := callStores_eq hcells heq.symm
  rw [hget, Option.some.injEq, Option.some.injEq] at hget'
  subst hget'
  obtain rfl : st = st' := Option.some.inj (hst.symm.trans hkernel)
  exact ⟨p, List.mem_flatten.mpr ⟨st, hst', hp⟩, hidx⟩

end Kernel

end Run

end Mdb
