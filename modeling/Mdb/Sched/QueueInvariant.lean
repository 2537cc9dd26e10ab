import Mdb.Library.StepSystem
import Mdb.Sched.Split

/-!
The queue over whole histories of calls.

`QueueRun` pairs the queue with the tasks pushed since it was last emptied, and `queueSystem` steps
it through any sequence of `rsched_queue_init`, `rsched_queue_resize` and `rsched_queue_push`.
`QueueInv` is what the queue is meant to keep: the capacity is the allocated number of cells, the
length is within it, and the first `length` cells are the pushed tasks in order.

`rsched_queue_push` extends a full queue by `capacity / 4`, which is nothing below a capacity of
four, so the store that follows misses the allocation exactly when the queue is full and its
capacity is below four (`CanGrow`).

* `step_queueInv`: every call that goes through keeps the invariant;
* `push_eq_none`: a full queue of capacity below four stores out of bounds;
* `queue_history`: a history keeps the invariant iff each of its pushes can grow, and
  `rsched_create_tasks` does iff its estimate covers the tasks or is at least four.
-/

namespace Mdb

/-! ### Histories -/

/-- A queue and the tasks pushed to it since it was last emptied. -/
structure QueueRun where
  queue : RschedQueue
  pushed : List RschedTask
  deriving DecidableEq

/-- The calls of a history; `resize` is called with `RS_QUE_ZERO` and one of the other flags. -/
inductive QueueOp where
  | init
  | discard (n : ℕ)
  | extend (n : ℕ)
  | push (t : RschedTask)

/-- One call; `none` when it stores outside the allocation. -/
def stepQueue (s : QueueRun) : QueueOp → Option QueueRun
  | .init => some ⟨rschedQueueInit, []⟩
  | .discard n => (rschedQueueResize s.queue n (rsQueDiscard ||| rsQueZero)).map (⟨·, []⟩)
  | .extend n => (rschedQueueResize s.queue n (rsQueExtend ||| rsQueZero)).map (⟨·, s.pushed⟩)
  | .push t => (rschedQueuePush s.queue t).map (⟨·, s.pushed ++ [t]⟩)

/-- The histories of a queue. -/
def queueSystem : StepSystem QueueRun QueueOp := ⟨stepQueue⟩

/-- A queue as `rsched_queue_init` leaves it. -/
def emptyRun : QueueRun := ⟨rschedQueueInit, []⟩

/-- The sizes a call asks for are below the 32-bit limit. -/
def SizesFit (s : QueueRun) : QueueOp → Prop
  | .init => True
  | .discard n => n < 2 ^ 32
  | .extend n => s.queue.capacity + n < 2 ^ 32
  | .push _ => s.queue.capacity + s.queue.capacity / 4 < 2 ^ 32

instance (s : QueueRun) : (op : QueueOp) → Decidable (SizesFit s op)
  | .init => isTrue trivial
  | .discard n => inferInstanceAs (Decidable (n < 2 ^ 32))
  | .extend n => inferInstanceAs (Decidable (s.queue.capacity + n < 2 ^ 32))
  | .push _ => inferInstanceAs (Decidable (s.queue.capacity + s.queue.capacity / 4 < 2 ^ 32))

/-- What the queue is meant to keep. -/
structure QueueInv (s : QueueRun) : Prop where
  allocated : s.queue.tasks.length = s.queue.capacity
  length_le : s.queue.length ≤ s.queue.capacity
  stored : s.queue.tasks.take s.queue.length = s.pushed.map some
  capacity_lt : s.queue.capacity < 2 ^ 32

/-- A push has room: the queue is not full, or a quarter of its capacity is not nothing. -/
def CanGrow (s : QueueRun) : QueueOp → Prop
  | .push _ => s.queue.length < s.queue.capacity ∨ 4 ≤ s.queue.capacity
  | _ => True

instance (s : QueueRun) : (op : QueueOp) → Decidable (CanGrow s op)
  | .push _ => inferInstanceAs (Decidable (_ ∨ _))
  | .init => isTrue trivial
  | .discard _ => isTrue trivial
  | .extend _ => isTrue trivial

/-! ### The calls, one by one -/

lemma queueInv_emptyRun : QueueInv emptyRun := by
  constructor <;> simp [emptyRun, rschedQueueInit]

lemma resize_discard (queue : RschedQueue) (n : ℕ) :
    rschedQueueResize queue n (rsQueDiscard ||| rsQueZero)
      = some ⟨0, List.replicate n (some zeroTask), n, 0⟩ := by
  simp [rschedQueueResize, rsQueDiscard, rsQueZero, rsQueExtend]

/-- Extending a queue whose allocation is its capacity appends zeroed cells. -/
lemma resize_extend {queue : RschedQueue} {n : ℕ} (hall : queue.tasks.length = queue.capacity)
    (hfit : queue.capacity + n < 2 ^ 32) :
    rschedQueueResize queue n (rsQueExtend ||| rsQueZero)
      = some { queue with
          tasks := queue.tasks ++ List.replicate n (some zeroTask)
          capacity := queue.capacity + n } := by
  have hcells : reallocCells queue.tasks (queue.capacity + n)
      = queue.tasks ++ List.replicate n none := by
    rw [reallocCells, List.take_of_length_le (by omega), hall, Nat.add_sub_cancel_left]
  have hzero : zeroCells (queue.tasks ++ List.replicate n none) queue.capacity n
      = some (queue.tasks ++ List.replicate n (some zeroTask)) := by
    rw [zeroCells, if_pos (by simp [hall]), ← hall, List.take_left,
      List.drop_eq_nil_of_le (by simp),
      List.append_nil]
  simp only [rschedQueueResize, rsQueDiscard, rsQueZero, rsQueExtend, u32_of_lt hfit, hcells]
  simp [hzero]

/-- A store below the allocated number of cells keeps the invariant. -/
lemma storeTask_inv {queue : RschedQueue} {ts : List RschedTask} (t : RschedTask)
    (h : QueueInv ⟨queue, ts⟩) (hlt : queue.length < queue.capacity) :
    ∃ queue', storeTask queue t = some queue' ∧ QueueInv ⟨queue', ts ++ [t]⟩ ∧
      queue'.capacity = queue.capacity ∧ queue'.length = queue.length + 1 := by
  obtain ⟨hall, hle, hst, hcap⟩ := h
  dsimp only at hall hle hst hcap
  have hu : u32 (queue.length + 1) = queue.length + 1 := u32_of_lt (by omega)
  refine ⟨_, if_pos (by omega), ⟨?_, ?_, ?_, hcap⟩, rfl, hu⟩
  · simpa using hall
  · dsimp only
    omega
  · dsimp only
    have hts : (queue.tasks.take queue.length).length = queue.length := by
      rw [List.length_take]; omega
    rw [hu, List.map_append, ← hst, List.take_add_one, List.take_set_of_le le_rfl,
      List.getElem?_set_self (by omega)]
    rfl

/-- A push that has room goes through, keeps the invariant and adds its task. -/
lemma push_inv {queue : RschedQueue} {ts : List RschedTask} (t : RschedTask)
    (h : QueueInv ⟨queue, ts⟩) (hgrow : queue.length < queue.capacity ∨ 4 ≤ queue.capacity)
    (hfit : queue.capacity + queue.capacity / 4 < 2 ^ 32) :
    ∃ queue', rschedQueuePush queue t = some queue' ∧ QueueInv ⟨queue', ts ++ [t]⟩ ∧
      queue'.length = queue.length + 1 ∧
      (queue'.capacity = queue.capacity ∨ queue.capacity = queue.length ∧
        queue'.capacity = queue.capacity + queue.capacity / 4) := by
  by_cases hfull : queue.length ≥ queue.capacity
  · obtain ⟨hall, hle, hst, -⟩ := h
    dsimp only at hall hle hst
    set queue₁ : RschedQueue := { queue with
      tasks := queue.tasks ++ List.replicate (queue.capacity / 4) (some zeroTask)
      capacity := queue.capacity + queue.capacity / 4 } with hq₁
    have hinv₁ : QueueInv ⟨queue₁, ts⟩ := by
      refine ⟨by simp [hq₁, hall], le_trans hle (Nat.le_add_right _ _), ?_, hfit⟩
      rw [hq₁, ← hst]
      exact List.take_append_of_le_length (hall ▸ hle)
    have hroom : queue₁.length < queue₁.capacity := by
      rw [hq₁]; dsimp only; omega
    obtain ⟨queue', hq', hinv', hcap', hlen'⟩ := storeTask_inv t hinv₁ hroom
    refine ⟨queue', ?_, hinv', hlen', Or.inr ⟨by omega, hcap'⟩⟩
    rw [rschedQueuePush, if_pos hfull, resize_extend hall hfit, Option.bind_some, hq']
  · obtain ⟨queue', hq', hinv', hcap', hlen'⟩ := storeTask_inv t h (by omega)
    exact ⟨queue', by rw [rschedQueuePush, if_neg hfull, hq'], hinv', hlen', Or.inl hcap'⟩

/-- **A full queue of capacity below four is extended by nothing**, and the store misses the
allocation. -/
lemma push_eq_none {queue : RschedQueue} {ts : List RschedTask} (t : RschedTask)
    (h : QueueInv ⟨queue, ts⟩) (hfull : queue.capacity ≤ queue.length) (hcap : queue.capacity < 4) :
    rschedQueuePush queue t = none := by
  have hall := h.allocated
  dsimp only at hall
  have hext : queue.capacity / 4 = 0 := Nat.div_eq_of_lt hcap
  rw [rschedQueuePush, if_pos hfull, resize_extend hall (by omega), Option.bind_some, storeTask,
    if_neg]
  simp only [hext, List.replicate_zero, List.append_nil]
  omega

/-! ### Whole histories -/

/-- A call whose sizes fit and that has room goes through and keeps the invariant. -/
lemma step_queueInv {s : QueueRun} {op : QueueOp} (h : QueueInv s) (hfit : SizesFit s op)
    (hgrow : CanGrow s op) : ∃ s', stepQueue s op = some s' ∧ QueueInv s' := by
  cases op with
  | init => exact ⟨_, rfl, queueInv_emptyRun⟩
  | discard n =>
      refine ⟨_, by rw [stepQueue, resize_discard, Option.map_some], ?_⟩
      exact ⟨by simp, Nat.zero_le _, by simp, hfit⟩
  | extend n =>
      have hall := h.allocated
      refine ⟨_, by rw [stepQueue, resize_extend hall hfit, Option.map_some], ?_⟩
      refine ⟨by simp [hall], le_trans h.length_le (Nat.le_add_right _ _), ?_, hfit⟩
      have hle := h.length_le
      rw [← h.stored]
      exact List.take_append_of_le_length (hall ▸ hle)
  | push t =>
      obtain ⟨queue', hq', hinv', -⟩ :=
        push_inv t (show QueueInv ⟨s.queue, s.pushed⟩ from h) hgrow hfit
      exact ⟨_, by rw [stepQueue, hq', Option.map_some], hinv'⟩

/-- A call that goes through had room. -/
lemma canGrow_of_step {s s' : QueueRun} {op : QueueOp} (h : QueueInv s)
    (hstep : stepQueue s op = some s') : CanGrow s op := by
  cases op with
  | push t =>
      by_contra hno
      rw [CanGrow, not_or] at hno
      rw [stepQueue, push_eq_none t (show QueueInv ⟨s.queue, s.pushed⟩ from h) (by omega)
        (by omega)] at hstep
      exact absurd hstep (by simp)
  | _ => trivial

/-- A history reaches a queue with the invariant iff each of its pushes has room. -/
lemma run_queueInv_iff {ops : List QueueOp} {s : QueueRun} (h : QueueInv s)
    (hfit : queueSystem.Meets SizesFit s ops) :
    (∃ s', queueSystem.run s ops = some s' ∧ QueueInv s') ↔ queueSystem.Meets CanGrow s ops :=
  queueSystem.exists_run_iff_meets (fun {s op s'} => @canGrow_of_step s s' op)
    (fun {s op} => @step_queueInv s op) h hfit

/-! ### The tasks of a frame -/

/-- Pushing a list of tasks that fits, or from a capacity of four on, keeps the invariant. -/
lemma foldlM_push_inv (ts : List RschedTask) : ∀ {queue : RschedQueue} {us : List RschedTask},
    QueueInv ⟨queue, us⟩ → (queue.length + ts.length ≤ queue.capacity ∨ 4 ≤ queue.capacity) →
    queue.capacity ≤ 2 ^ 30 → queue.length + ts.length ≤ 2 ^ 28 →
    ∃ queue', ts.foldlM rschedQueuePush queue = some queue' ∧ QueueInv ⟨queue', us ++ ts⟩ := by
  induction ts with
  | nil => exact fun h _ _ _ => ⟨_, rfl, by rwa [List.append_nil]⟩
  | cons t ts ih =>
      intro queue us h hroom hcap hlen
      rw [List.length_cons] at hroom hlen
      obtain ⟨queue₁, hq₁, hinv₁, hlen₁, hcap₁⟩ := push_inv t h (by omega) (by omega)
      obtain ⟨queue', hq', hinv'⟩ := ih hinv₁ (by omega) (by omega) (by omega)
      refine ⟨queue', ?_, by rwa [List.append_assoc] at hinv'⟩
      rw [List.foldlM_cons, hq₁]
      exact hq'

/-- Pushing more tasks than fit a capacity below four stores out of bounds. -/
lemma foldlM_push_eq_none (ts : List RschedTask) : ∀ {queue : RschedQueue} {us : List RschedTask},
    QueueInv ⟨queue, us⟩ → queue.capacity < queue.length + ts.length → queue.capacity < 4 →
    ts.foldlM rschedQueuePush queue = none := by
  induction ts with
  | nil =>
      intro queue us h hlt _
      have hle : queue.length ≤ queue.capacity := h.length_le
      rw [List.length_nil] at hlt
      omega
  | cons t ts ih =>
      intro queue us h hlt hcap
      rw [List.length_cons] at hlt
      rw [List.foldlM_cons]
      by_cases hfull : queue.capacity ≤ queue.length
      · rw [push_eq_none t h hfull hcap]
        rfl
      · obtain ⟨queue₁, hq₁, hinv₁, hlen₁, hcap₁⟩ := push_inv t h (by omega) (by omega)
        rw [hq₁]
        exact ih hinv₁ (by omega) (by omega)

namespace FrameArgs

variable (args : FrameArgs)

/-- `qlen` for the sizes of a frame. -/
def qlen : ℕ :=
  args.width * args.height / (args.blockSize.x * args.blockSize.y)
    + if args.width * args.height % (args.blockSize.x * args.blockSize.y) ≠ 0 then 1 else 0

lemma block_area_ge : 64 ≤ args.blockSize.x * args.blockSize.y :=
  calc 64 = 8 * 8 := by norm_num
    _ ≤ args.blockSize.x * args.blockSize.y := Nat.mul_le_mul args.blockX_ge args.blockY_ge

lemma qlen_le : args.qlen ≤ 2 ^ 26 := by
  have harea := args.area_lt
  have hdiv : args.width * args.height / (args.blockSize.x * args.blockSize.y)
      ≤ args.width * args.height / 64 := Nat.div_le_div_left args.block_area_ge (by norm_num)
  have hlt : args.width * args.height / 64 < 2 ^ 26 := by omega
  rw [qlen]
  split <;> omega

lemma taskEstimate_eq : taskEstimate args.width args.height args.blockSize = some args.qlen := by
  have hge := args.block_area_ge
  have hq := args.qlen_le
  rw [taskEstimate, u32_of_lt args.area_lt, u32_of_lt args.block_area_lt, if_neg (by omega)]
  exact congrArg some (u32_of_lt (by rw [← qlen]; omega))

/-- The number of tasks of a frame: the columns by the rows. -/
lemma length_frameTasks : args.frameTasks.length
    = (args.height - 1 + args.blockSize.y - 1) / args.blockSize.y
      * ((args.width - 1 + args.blockSize.x - 1) / args.blockSize.x) := by
  simp only [frameTasks, tiles, rowTiles, List.length_flatMap, List.length_map, length_segments,
    List.map_const', List.sum_replicate, smul_eq_mul, Nat.sub_zero]

lemma ceilDiv_le {n g : ℕ} (hg : 8 ≤ g) (hn : n ≤ 65535) : (n + g - 1) / g ≤ 8192 := by
  rw [Nat.div_le_iff_le_mul_add_pred (by omega)]
  have h : 8 * 8192 ≤ g * 8192 := Nat.mul_le_mul_right 8192 hg
  omega

lemma length_frameTasks_le : args.frameTasks.length ≤ 2 ^ 26 := by
  have hw := args.width_le
  have hh := args.height_le
  rw [length_frameTasks]
  calc _ ≤ 8192 * 8192 := Nat.mul_le_mul (ceilDiv_le args.blockY_ge (by omega))
        (ceilDiv_le args.blockX_ge (by omega))
    _ = 2 ^ 26 := by norm_num

lemma rschedCreateTasks_eq (queue : RschedQueue) :
    rschedCreateTasks queue args.width args.height args.blockSize
      = args.frameTasks.foldlM rschedQueuePush
          ⟨0, List.replicate args.qlen (some zeroTask), args.qlen, 0⟩ := by
  rw [rschedCreateTasks, args.taskEstimate_eq, Option.bind_some, resize_discard, Option.bind_some,
    args.rschedSplitTask_frame]

lemma queueInv_reserved :
    QueueInv ⟨⟨0, List.replicate args.qlen (some zeroTask), args.qlen, 0⟩, []⟩ :=
  ⟨by simp, Nat.zero_le _, by simp, lt_of_le_of_lt args.qlen_le (by norm_num)⟩

/-- `rsched_create_tasks` enqueues the tasks of the frame iff its estimate covers them or is at
least four. -/
lemma rschedCreateTasks_inv_iff (queue : RschedQueue) :
    (∃ queue', rschedCreateTasks queue args.width args.height args.blockSize = some queue' ∧
        QueueInv ⟨queue', args.frameTasks⟩)
      ↔ args.frameTasks.length ≤ args.qlen ∨ 4 ≤ args.qlen := by
  have hq := args.qlen_le
  have hts := args.length_frameTasks_le
  rw [rschedCreateTasks_eq]
  constructor
  · rintro ⟨queue', hq', -⟩
    by_contra hno
    rw [not_or] at hno
    rw [foldlM_push_eq_none _ args.queueInv_reserved (by dsimp only; omega)
      (by dsimp only; omega)] at hq'
    exact absurd hq' (by simp)
  · intro hroom
    exact foldlM_push_inv args.frameTasks args.queueInv_reserved (by dsimp only; omega)
      (by dsimp only; omega) (by dsimp only; omega)

end FrameArgs

/-- **The queue invariant, exactly.** A history whose sizes fit reaches a queue with the invariant
iff each of its pushes finds the queue not full or of capacity at least four; and
`rsched_create_tasks` enqueues the tasks of a frame with the invariant iff its estimate covers
them or is at least four. -/
theorem queue_history (ops : List QueueOp) (hfit : queueSystem.Meets SizesFit emptyRun ops)
    (args : FrameArgs) (queue : RschedQueue) :
    ((∃ s, queueSystem.run emptyRun ops = some s ∧ QueueInv s)
        ↔ queueSystem.Meets CanGrow emptyRun ops) ∧
      ((∃ queue', rschedCreateTasks queue args.width args.height args.blockSize = some queue' ∧
          QueueInv ⟨queue', args.frameTasks⟩)
        ↔ args.frameTasks.length ≤ args.qlen ∨ 4 ≤ args.qlen) :=
  ⟨run_queueInv_iff queueInv_emptyRun hfit, args.rschedCreateTasks_inv_iff queue⟩

/-- Three cells, of which two are used, two more, and four pushes; the last one finds the queue
full. -/
def growingHistory : List QueueOp :=
  [.discard 3, .push ⟨0, 8, 0, 8⟩, .push ⟨8, 16, 0, 8⟩, .extend 2, .push ⟨0, 8, 8, 16⟩,
    .push ⟨8, 16, 8, 16⟩, .push ⟨0, 16, 16, 24⟩, .push ⟨0, 16, 24, 32⟩]

/-- The theorem at a queue that is extended, and grows when it is full. -/
theorem queue_history_growing :
    ∃ s, queueSystem.run emptyRun growingHistory = some s ∧ QueueInv s :=
  (queue_history growingHistory (by decide +kernel) defaultArgs rschedQueueInit).1.mpr
    (by decide +kernel)

/-- **The queue invariant fails**: a push to a queue as `rsched_queue_init` leaves it stores out
of bounds, and so does `rsched_create_tasks` for a `512 × 512` surface and blocks of
`65535 × 8`, which reserves one cell for 64 tasks. -/
theorem queue_overflow :
    ¬ (∀ ops, queueSystem.Meets SizesFit emptyRun ops →
        ∃ s, queueSystem.run emptyRun ops = some s ∧ QueueInv s) ∧
      rschedCreateTasks rschedQueueInit 512 512 ⟨65535, 8⟩ = none := by
  constructor
  · intro h
    obtain ⟨s, hs, -⟩ := h [.push zeroTask] (by simp [StepSystem.Meets, SizesFit, emptyRun,
      rschedQueueInit, queueSystem, stepQueue])
    rw [show queueSystem.run emptyRun [.push zeroTask] = none by decide] at hs
    exact absurd hs (by simp)
  · decide +kernel

end Mdb
