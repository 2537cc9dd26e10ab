import Mdb.Sched.QueueInvariant

/-!
What `rsched_create_tasks` reserves.

The queue is resized to the rounded-up quotient of the areas of the surface and of a block, and
then filled with the tasks of the rectangle `(0, width - 1, 0, height - 1)`. The columns and the
rows of these tasks form a grid that sticks out of the surface by an `overhang` on each side, or
stops one pixel short of it. `length_le_qlen_iff` compares the two counts: the estimate covers
the tasks iff the grid exceeds the surface by less than the area of a block. `reserved_queue_iff`
reads this off the pushes: it is then, and only then, that no push finds the queue full.
-/

namespace Mdb

/-- A count is within a rounded-up quotient iff its multiple stays below the next one. -/
lemma le_ceilDiv_iff {a b c : ℕ} (hb : 1 ≤ b) : c ≤ a ⌈/⌉ b ↔ c * b < a + b := by
  rw [Nat.ceilDiv_eq_add_pred_div, Nat.le_div_iff_mul_le hb]
  omega

/-- A rounded-up quotient is the quotient, and one more where there is a remainder. -/
lemma ceilDiv_eq_div_add {a b : ℕ} (hb : 1 ≤ b) :
    a ⌈/⌉ b = a / b + if a % b ≠ 0 then 1 else 0 := by
  have hdiv := Nat.div_add_mod a b
  have hmod := Nat.mod_lt a hb
  have hsucc : (a / b + 1) * b = a / b * b + b := Nat.succ_mul _ b
  have hsucc₂ : (a / b + 1 + 1) * b = (a / b + 1) * b + b := Nat.succ_mul _ b
  rw [Nat.mul_comm] at hdiv
  rw [Nat.ceilDiv_eq_add_pred_div]
  by_cases h : a % b = 0
  · rw [if_neg (not_not.mpr h), Nat.add_zero]
    exact Nat.div_eq_of_lt_le (by omega) (by omega)
  · rw [if_pos h]
    exact Nat.div_eq_of_lt_le (by omega) (by omega)

/-! ### The grid of blocks -/

/-- How far the blocks of side `g` that cut `[0, n - 1)` stick out of `n` pixels. -/
def overhang (n g : ℕ) : ℤ :=
  if (n - 1) % g = 0 then -1 else g - ((n - 1) % g : ℕ) - 1

/-- The blocks that cut `[0, n - 1)` reach `overhang n g` past the `n` pixels. -/
lemma ceilDiv_mul_eq {n g : ℕ} (hn : 1 ≤ n) (hg : 1 ≤ g) :
    (((n - 1) ⌈/⌉ g * g : ℕ) : ℤ) = n + overhang n g := by
  have hdiv := Nat.div_add_mod (n - 1) g
  have hmod := Nat.mod_lt (n - 1) hg
  rw [Nat.mul_comm] at hdiv
  rw [overhang, ceilDiv_eq_div_add hg, Nat.add_mul]
  by_cases h : (n - 1) % g = 0
  · rw [if_pos h, if_neg (not_not.mpr h), Nat.zero_mul]
    omega
  · rw [if_neg h, if_pos h, Nat.one_mul]
    omega

namespace FrameArgs

variable (args : FrameArgs)

/-- The grid of blocks exceeds the surface by less than the area of a block. -/
def Snug : Prop :=
  overhang args.width args.blockSize.x * args.height
    + overhang args.height args.blockSize.y * args.width
    + overhang args.width args.blockSize.x * overhang args.height args.blockSize.y
    < args.blockSize.x * args.blockSize.y

instance : Decidable args.Snug := inferInstanceAs (Decidable (_ < _))

lemma qlen_eq_ceilDiv : args.qlen
    = (args.width * args.height) ⌈/⌉ (args.blockSize.x * args.blockSize.y) := by
  have hge := args.block_area_ge
  rw [ceilDiv_eq_div_add (by omega), qlen]

/-- **The estimate covers the tasks iff the grid is snug.** -/
lemma length_le_qlen_iff : args.frameTasks.length ≤ args.qlen ↔ args.Snug := by
  have hx := args.one_le_blockX
  have hy := args.one_le_blockY
  have hgx := ceilDiv_mul_eq (n := args.width) (by have := args.width_ge; omega) hx
  have hgy := ceilDiv_mul_eq (n := args.height) (by have := args.height_ge; omega) hy
  rw [qlen_eq_ceilDiv, frameTasks, length_tiles, le_ceilDiv_iff (Nat.mul_pos hx hy), Snug,
    Nat.sub_zero, Nat.sub_zero]
  -- the number of the tasks times the area of a block is the area of the grid
  rw [Nat.mul_mul_mul_comm, ← Int.ofNat_lt]
  push_cast at hgx hgy ⊢
  rw [hgx, hgy]
  constructor <;> intro h <;> nlinarith only [h]

end FrameArgs

/-! ### The pushes -/

/-- Pushing a list of tasks that fits leaves the capacity alone and counts them. -/
lemma foldlM_push_within (ts : List RschedTask) : ∀ {queue : RschedQueue} {us : List RschedTask},
    QueueInv ⟨queue, us⟩ → queue.length + ts.length ≤ queue.capacity → queue.capacity ≤ 2 ^ 30 →
    ∃ queue', ts.foldlM rschedQueuePush queue = some queue' ∧
      queue'.length = queue.length + ts.length ∧ queue'.capacity = queue.capacity := by
  induction ts with
  | nil => exact fun _ _ _ => ⟨_, rfl, rfl, rfl⟩
  | cons t ts ih =>
      intro queue us h hroom hcap
      rw [List.length_cons] at hroom
      obtain ⟨queue₁, hq₁, hinv₁, hlen₁, hcap₁⟩ := push_inv t h (by omega) (by omega)
      obtain ⟨queue', hq', hlen', hcap'⟩ := ih hinv₁ (by omega) (by omega)
      refine ⟨queue', ?_, by rw [List.length_cons]; omega, by omega⟩
      rw [List.foldlM_cons, hq₁]
      exact hq'

namespace FrameArgs

/-- The reserved queue is large enough: the capacity `rsched_create_tasks` asks for is at least
the number of the tasks `rsched_split_task` pushes, and each of its pushes finds the queue not
full. -/
def Reserves (args : FrameArgs) (queue : RschedQueue) : Prop :=
  ∃ qlen ts, taskEstimate args.width args.height args.blockSize = some qlen ∧
    splitTasks 0 (u32Pred args.width) 0 (u32Pred args.height) args.blockSize = some ts ∧
    ts.length ≤ qlen ∧
    ∀ us t rest, ts = us ++ t :: rest →
      ∃ queue', (rschedQueueResize queue qlen (rsQueDiscard ||| rsQueZero)).bind
          (us.foldlM rschedQueuePush) = some queue' ∧ queue'.length < queue'.capacity

end FrameArgs

/-- **The reserved queue, exactly.** The capacity `rsched_create_tasks` computes covers the tasks
that are then pushed, and no push has to extend the queue, iff the grid of blocks exceeds the
surface by less than the area of a block. -/
theorem reserved_queue_iff (args : FrameArgs) (queue : RschedQueue) :
    args.Reserves queue ↔ args.Snug := by
  rw [← args.length_le_qlen_iff]
  constructor
  · rintro ⟨qlen, ts, hqlen, hts, hle, -⟩
    rw [args.taskEstimate_eq, Option.some.injEq] at hqlen
    rw [args.splitTasks_frame, Option.some.injEq] at hts
    rwa [hqlen, hts]
  · intro hle
    refine ⟨args.qlen, args.frameTasks, args.taskEstimate_eq, args.splitTasks_frame, hle, ?_⟩
    intro us t rest hts
    have hq := args.qlen_le
    have hlen := congrArg List.length hts
    rw [List.length_append, List.length_cons] at hlen
    obtain ⟨queue', hq', hlen', hcap'⟩ := foldlM_push_within us args.queueInv_reserved
      (by dsimp only; omega) (by dsimp only; omega)
    dsimp only at hlen' hcap'
    exact ⟨queue', by rw [resize_discard, Option.bind_some, hq'], by omega⟩

/-- Where the estimate exceeds the number of the tasks, the array has a cell behind them. -/
lemma FrameArgs.exists_queue_of_lt (args : FrameArgs) (queue : RschedQueue)
    (h : args.frameTasks.length < args.qlen) :
    ∃ queue', rschedCreateTasks queue args.width args.height args.blockSize = some queue' ∧
      queue'.length < queue'.tasks.length := by
  have hq := args.qlen_le
  obtain ⟨queue', hq', hlen', hcap'⟩ := foldlM_push_within args.frameTasks args.queueInv_reserved
    (by dsimp only; omega) (by dsimp only; omega)
  obtain ⟨queue'', hcreate, hinv⟩ := (args.rschedCreateTasks_inv_iff queue).mpr (Or.inl h.le)
  rw [args.rschedCreateTasks_eq] at hcreate
  obtain rfl : queue' = queue'' := Option.some.inj (hq'.symm.trans hcreate)
  have hall := hinv.allocated
  dsimp only at hall hlen' hcap'
  exact ⟨queue', by rw [args.rschedCreateTasks_eq, hq'], by omega⟩

/-- A surface of `1920 × 1080` pixels and blocks of `100 × 100`. -/
def args1080 : FrameArgs where
  width := 1920
  height := 1080
  blockSize := ⟨100, 100⟩
  width_ge := by norm_num
  width_le := by norm_num
  height_ge := by norm_num
  height_le := by norm_num
  blockX_ge := by norm_num
  blockX_le := by norm_num
  blockY_ge := by norm_num
  blockY_le := by norm_num

/-- **The reserved queue is too small** for a `1920 × 1080` surface and blocks of `100 × 100`: 208
cells are reserved and 220 tasks are pushed. -/
theorem reserved_queue_short : ¬ ∀ (args : FrameArgs) (queue : RschedQueue), args.Reserves queue := by
  intro h
  obtain ⟨qlen, ts, hqlen, hts, hle, -⟩ := h args1080 rschedQueueInit
  rw [args1080.taskEstimate_eq, Option.some.injEq] at hqlen
  rw [args1080.splitTasks_frame, Option.some.injEq] at hts
  rw [← hqlen, ← hts, args1080.length_frameTasks] at hle
  exact absurd hle (by decide)

end Mdb
