import Mdb.Base.Word

/-!
`sched/rsched_queue.h` and `sched/rsched_queue.c`: the task queue, its management and the
splitting of a rectangle into tasks.

The tasks array is the list of the cells its allocation holds, a cell that `realloc` has not
initialised being `none`; allocations succeed. A store outside the allocation has no result:
`rschedQueuePush` and `rschedQueueResize` are `none` there.
-/

namespace Mdb

/-! ### Data -/

/-- `struct block_size`. -/
structure BlockSize where
  x : ℕ
  y : ℕ
  deriving DecidableEq, Repr

/-- `struct rsched_task`. -/
structure RschedTask where
  x0 : ℕ
  x1 : ℕ
  y0 : ℕ
  y1 : ℕ
  deriving DecidableEq, Repr

/-- `struct rsched_queue`: `tasks` lists the cells of the allocation. -/
structure RschedQueue where
  curTaskIdx : ℕ
  tasks : List (Option RschedTask)
  capacity : ℕ
  length : ℕ
  deriving DecidableEq, Repr

/-- `RS_QUE_DISCARD`. -/
def rsQueDiscard : ℕ := 1 <<< 0

/-- `RS_QUE_EXTEND`. -/
def rsQueExtend : ℕ := 1 <<< 1

/-- `RS_QUE_ZERO`. -/
def rsQueZero : ℕ := 1 <<< 2

/-- A cell of zeroed memory. -/
def zeroTask : RschedTask := ⟨0, 0, 0, 0⟩

/-! ### Management -/

/-- `rsched_queue_init`. -/
def rschedQueueInit : RschedQueue :=
  { tasks := [], capacity := 0, length := 0, curTaskIdx := 0 }

/-- `realloc` to `n` cells: the old cells stay as far as they fit, the new ones are not
initialised. -/
def reallocCells (cells : List (Option RschedTask)) (n : ℕ) : List (Option RschedTask) :=
  cells.take n ++ List.replicate (n - cells.length) none

/-- `memset` to zero of the `n` cells from `start` on. -/
def zeroCells (cells : List (Option RschedTask)) (start n : ℕ) :
    Option (List (Option RschedTask)) :=
  if start + n ≤ cells.length then
    some (cells.take start ++ List.replicate n (some zeroTask) ++ cells.drop (start + n))
  else none

/-- `rsched_queue_resize`; the last case is the `LOG_ERROR` one. -/
def rschedQueueResize (queue : RschedQueue) (n flags : ℕ) : Option RschedQueue :=
  if flags &&& rsQueDiscard ≠ 0 ∧ ¬ flags &&& rsQueExtend ≠ 0 then
    -- `calloc`: the new cells are zeroed with or without `RS_QUE_ZERO`
    some { tasks := List.replicate n (some zeroTask), capacity := n, length := 0,
           curTaskIdx := 0 }
  else if flags &&& rsQueExtend ≠ 0 ∧ ¬ flags &&& rsQueDiscard ≠ 0 then
    let newCap := u32 (queue.capacity + n)
    let tasks := reallocCells queue.tasks newCap
    if flags &&& rsQueZero ≠ 0 then
      (zeroCells tasks queue.capacity n).map fun tasks =>
        { queue with tasks := tasks, capacity := newCap }
    else
      some { queue with tasks := tasks, capacity := newCap }
  else
    some queue

/-- The store `queue->tasks[queue->length++] = t` of `rsched_queue_push`. -/
def storeTask (queue : RschedQueue) (t : RschedTask) : Option RschedQueue :=
  if queue.length < queue.tasks.length then
    some { queue with
      tasks := queue.tasks.set queue.length (some t)
      length := u32 (queue.length + 1) }
  else none

/-- `rsched_queue_push`: a full queue is first extended by a quarter of its capacity. -/
def rschedQueuePush (queue : RschedQueue) (t : RschedTask) : Option RschedQueue :=
  if queue.length ≥ queue.capacity then
    (rschedQueueResize queue (queue.capacity / 4) (rsQueExtend ||| rsQueZero)).bind
      fun queue => storeTask queue t
  else storeTask queue t

/-! ### Splitting -/

section Split

variable {σ : Type*} (push : σ → RschedTask → Option σ)

/-- The inner loop of `rsched_split_task`: the row of tasks from `x` on. -/
def splitRow (grainX x1 y y11 : ℕ) : ℕ → ℕ → σ → Option σ
  | 0, _, _ => none
  | fuel + 1, x, queue =>
      if x < x1 then
        let x11 := min (u32 (x + grainX)) x1
        (push queue ⟨x, x11, y, y11⟩).bind fun queue => splitRow grainX x1 y y11 fuel x11 queue
      else some queue

/-- The outer loop of `rsched_split_task`: the rows of tasks from `y` on. -/
def splitRows (grain : BlockSize) (x0 x1 y1 : ℕ) : ℕ → ℕ → σ → Option σ
  | 0, _, _ => none
  | fuel + 1, y, queue =>
      if y < y1 then
        let y11 := min (u32 (y + grain.y)) y1
        (splitRow push grain.x x1 y y11 u32Fuel x0 queue).bind fun queue =>
          splitRows grain x0 x1 y1 fuel y11 queue
      else some queue

/-- `rsched_split_task`, on any `push`: the source calls `rsched_queue_push`. -/
def rschedSplitTask (queue : σ) (x0 x1 y0 y1 : ℕ) (grain : BlockSize) : Option σ :=
  splitRows push grain x0 x1 y1 u32Fuel y0 queue

end Split

/-- The tasks `rsched_split_task` pushes, in the order of its calls. -/
def splitTasks (x0 x1 y0 y1 : ℕ) (grain : BlockSize) : Option (List RschedTask) :=
  rschedSplitTask (fun ts t => some (ts ++ [t])) [] x0 x1 y0 y1 grain

/-- `qlen` of `rsched_create_tasks`: the number of blocks by area, rounded up; a block of no
area divides by zero. -/
def taskEstimate (width height : ℕ) (grain : BlockSize) : Option ℕ :=
  let wxh := u32 (width * height)
  let grain2 := u32 (grain.x * grain.y)
  if grain2 = 0 then none
  else some (u32 (wxh / grain2 + if wxh % grain2 ≠ 0 then 1 else 0))

/-- `rsched_create_tasks`. -/
def rschedCreateTasks (queue : RschedQueue) (width height : ℕ) (grain : BlockSize) :
    Option RschedQueue :=
  (taskEstimate width height grain).bind fun qlen =>
    (rschedQueueResize queue qlen (rsQueDiscard ||| rsQueZero)).bind fun queue =>
      rschedSplitTask rschedQueuePush queue 0 (u32Pred width) 0 (u32Pred height) grain

end Mdb
