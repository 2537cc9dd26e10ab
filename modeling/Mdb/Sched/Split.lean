import Mathlib.Algebra.Order.Floor.Div
import Mdb.Library.Segments
import Mdb.Sched.Queue
import Mdb.Tools.Arguments

/-!
What `rsched_split_task` pushes.

The two loops cut the rows and the columns of the rectangle with `segments`, so the tasks are the
products of the two cuts (`tiles`), pushed row by row: `rschedSplitTask_eq` says that splitting
with any `push` is pushing the list of tiles, and `splitTasks_eq` that this list is what a `push`
that records its arguments sees. `mem_tiles` and `frameTasks_bounds` are what the kernels use.

`split_tiles_rectangle` reads a task as a half-open rectangle: the tasks partition the rectangle
that is split into nonempty pieces no larger than a block.
-/

namespace Mdb

/-- The task of a column and a row of the cut. -/
def tile (r c : ℕ × ℕ) : RschedTask := ⟨c.1, c.2, r.1, r.2⟩

/-- The tasks of one row. -/
def rowTiles (x0 x1 g : ℕ) (r : ℕ × ℕ) : List RschedTask := (segments x0 x1 g).map (tile r)

/-- The tasks of a rectangle, row by row. -/
def tiles (x0 x1 y0 y1 : ℕ) (grain : BlockSize) : List RschedTask :=
  (segments y0 y1 grain.y).flatMap (rowTiles x0 x1 grain.x)

lemma mem_tiles {x0 x1 y0 y1 : ℕ} {grain : BlockSize} {t : RschedTask} :
    t ∈ tiles x0 x1 y0 y1 grain ↔
      (t.x0, t.x1) ∈ segments x0 x1 grain.x ∧ (t.y0, t.y1) ∈ segments y0 y1 grain.y := by
  simp only [tiles, rowTiles, List.mem_flatMap, List.mem_map]
  constructor
  · rintro ⟨r, hr, c, hc, rfl⟩
    exact ⟨hc, hr⟩
  · rintro ⟨hc, hr⟩
    exact ⟨_, hr, _, hc, rfl⟩

section Split

variable {σ : Type*} {push : σ → RschedTask → Option σ}

/-- The inner loop pushes the tasks of its row. -/
lemma splitRow_eq {g x1 y y11 : ℕ} (hg : 1 ≤ g) (hx : x1 + g < 2 ^ 32) :
    ∀ {fuel x : ℕ} (queue : σ), x1 - x < fuel →
      splitRow push g x1 y y11 fuel x queue = (rowTiles x x1 g (y, y11)).foldlM push queue := by
  intro fuel
  induction fuel with
  | zero => exact fun _ h => absurd h (Nat.not_lt_zero _)
  | succ fuel ih =>
      intro x queue hfuel
      rw [splitRow, rowTiles]
      by_cases hlt : x < x1
      · rw [if_pos hlt, segments_cons hg hlt, List.map_cons, List.foldlM_cons]
        dsimp only
        rw [u32_of_lt (show x + g < 2 ^ 32 by omega)]
        exact congrArg _ (funext fun q => ih q (by omega))
      · rw [if_neg hlt, segments_eq_nil hg (by omega)]
        rfl

/-- The outer loop pushes the rows from `y` on. -/
lemma splitRows_eq {grain : BlockSize} {x0 x1 y1 : ℕ} (hgx : 1 ≤ grain.x) (hgy : 1 ≤ grain.y)
    (hx : x1 + grain.x < 2 ^ 32) (hy : y1 + grain.y < 2 ^ 32) :
    ∀ {fuel y : ℕ} (queue : σ), y1 - y < fuel →
      splitRows push grain x0 x1 y1 fuel y queue = (tiles x0 x1 y y1 grain).foldlM push queue := by
  intro fuel
  induction fuel with
  | zero => exact fun _ h => absurd h (Nat.not_lt_zero _)
  | succ fuel ih =>
      intro y queue hfuel
      rw [splitRows, tiles]
      by_cases hlt : y < y1
      · rw [if_pos hlt, segments_cons hgy hlt, List.flatMap_cons, List.foldlM_append]
        dsimp only
        rw [splitRow_eq hgx hx queue (lt_u32Fuel (by omega)),
          u32_of_lt (show y + grain.y < 2 ^ 32 by omega)]
        exact congrArg _ (funext fun q => ih q (by omega))
      · rw [if_neg hlt, segments_eq_nil hgy (by omega)]
        rfl

/-- **`rsched_split_task` pushes the tiles of its rectangle, row by row**, whatever `push`
does. -/
theorem rschedSplitTask_eq {x0 x1 y0 y1 : ℕ} {grain : BlockSize} (hgx : 1 ≤ grain.x)
    (hgy : 1 ≤ grain.y) (hx : x1 + grain.x < 2 ^ 32) (hy : y1 + grain.y < 2 ^ 32) (queue : σ) :
    rschedSplitTask push queue x0 x1 y0 y1 grain = (tiles x0 x1 y0 y1 grain).foldlM push queue :=
  splitRows_eq hgx hgy hx hy queue (lt_u32Fuel (by omega))

end Split

lemma foldlM_record (ts us : List RschedTask) :
    ts.foldlM (fun us t => some (us ++ [t])) us = some (us ++ ts) := by
  induction ts generalizing us with
  | nil => rw [List.append_nil]; rfl
  | cons t ts ih =>
      rw [List.foldlM_cons]
      exact (ih (us ++ [t])).trans (by rw [List.append_assoc, List.singleton_append])

/-- The recorded pushes of `rsched_split_task` are the tiles. -/
theorem splitTasks_eq {x0 x1 y0 y1 : ℕ} {grain : BlockSize} (hgx : 1 ≤ grain.x)
    (hgy : 1 ≤ grain.y) (hx : x1 + grain.x < 2 ^ 32) (hy : y1 + grain.y < 2 ^ 32) :
    splitTasks x0 x1 y0 y1 grain = some (tiles x0 x1 y0 y1 grain) := by
  rw [splitTasks, rschedSplitTask_eq hgx hgy hx hy, foldlM_record, List.nil_append]

/-! ### The partition -/

/-- The pixels of a task, its right and lower ends left out. -/
def RschedTask.rect (t : RschedTask) : Set (ℕ × ℕ) :=
  Set.Ico t.x0 t.x1 ×ˢ Set.Ico t.y0 t.y1

lemma RschedTask.mem_rect {t : RschedTask} {p : ℕ × ℕ} :
    p ∈ t.rect ↔ (t.x0 ≤ p.1 ∧ p.1 < t.x1) ∧ t.y0 ≤ p.2 ∧ p.2 < t.y1 := by
  rw [RschedTask.rect, Set.mem_prod, Set.mem_Ico, Set.mem_Ico]

section Partition

variable {x0 x1 y0 y1 : ℕ} {grain : BlockSize}

lemma length_tiles : (tiles x0 x1 y0 y1 grain).length
    = ((x1 - x0) ⌈/⌉ grain.x) * ((y1 - y0) ⌈/⌉ grain.y) := by
  simp only [tiles, rowTiles, List.length_flatMap, List.length_map, length_segments,
    List.map_const', List.sum_replicate, smul_eq_mul, Nat.ceilDiv_eq_add_pred_div]
  rw [Nat.mul_comm]

/-- A tile is a nonempty piece of the rectangle, no larger than a block. -/
lemma tiles_bounds (hgx : 1 ≤ grain.x) (hgy : 1 ≤ grain.y) {t : RschedTask}
    (ht : t ∈ tiles x0 x1 y0 y1 grain) :
    (x0 ≤ t.x0 ∧ t.x0 < t.x1 ∧ t.x1 ≤ x1 ∧ t.x1 - t.x0 ≤ grain.x) ∧
      y0 ≤ t.y0 ∧ t.y0 < t.y1 ∧ t.y1 ≤ y1 ∧ t.y1 - t.y0 ≤ grain.y := by
  obtain ⟨hc, hr⟩ := mem_tiles.mp ht
  exact ⟨segments_bounds hgx hc, segments_bounds hgy hr⟩

/-- Two tiles of one row are apart in `x`, two tiles of different rows are apart in `y`. -/
lemma tiles_pairwise : (tiles x0 x1 y0 y1 grain).Pairwise fun t u => t.rect ∩ u.rect = ∅ := by
  rw [tiles, List.pairwise_flatMap]
  constructor
  · intro r _
    rw [rowTiles, List.pairwise_map]
    refine segments_pairwise.imp fun {c d} hcd => ?_
    refine Set.eq_empty_of_forall_notMem fun p ⟨hp, hq⟩ => ?_
    obtain ⟨⟨-, h₁⟩, -⟩ := RschedTask.mem_rect.mp hp
    obtain ⟨⟨h₂, -⟩, -⟩ := RschedTask.mem_rect.mp hq
    exact absurd (lt_of_lt_of_le h₁ hcd) (not_lt.mpr h₂)
  · refine segments_pairwise.imp fun {r s} hrs t ht u hu => ?_
    refine Set.eq_empty_of_forall_notMem fun p ⟨hp, hq⟩ => ?_
    obtain ⟨c, -, rfl⟩ := List.mem_map.mp ht
    obtain ⟨d, -, rfl⟩ := List.mem_map.mp hu
    obtain ⟨-, -, h₁⟩ := RschedTask.mem_rect.mp hp
    obtain ⟨-, h₂, -⟩ := RschedTask.mem_rect.mp hq
    exact absurd (lt_of_lt_of_le h₁ hrs) (not_lt.mpr h₂)

/-- The tiles cover the rectangle and nothing else. -/
lemma iUnion_tiles (hgx : 1 ≤ grain.x) (hgy : 1 ≤ grain.y) :
    ⋃ t ∈ tiles x0 x1 y0 y1 grain, t.rect = Set.Ico x0 x1 ×ˢ Set.Ico y0 y1 := by
  ext ⟨x, y⟩
  simp only [Set.mem_iUnion, exists_prop, Set.mem_prod, Set.mem_Ico, RschedTask.mem_rect]
  constructor
  · rintro ⟨t, ht, hx, hy⟩
    have hb := tiles_bounds hgx hgy ht
    omega
  · rintro ⟨⟨hx₀, hx₁⟩, hy₀, hy₁⟩
    obtain ⟨c, hc, hcx⟩ := exists_segment hgx hx₀ hx₁
    obtain ⟨r, hr, hry⟩ := exists_segment hgy hy₀ hy₁
    exact ⟨tile r c, mem_tiles.mpr ⟨hc, hr⟩, hcx, hry⟩

/-- **The splitter tiles the rectangle.** Where the ends plus a block stay below the 32-bit limit,
`rsched_split_task` ends; what it pushes, on the queue or on any other `push`, is a list of
nonempty tasks no larger than a block, pairwise disjoint, whose union is the rectangle and whose
number is the product of the two rounded-up quotients. -/
theorem split_tiles_rectangle (hgx : 1 ≤ grain.x) (hgy : 1 ≤ grain.y)
    (hx : x1 + grain.x < 2 ^ 32) (hy : y1 + grain.y < 2 ^ 32) :
    ∃ ts, splitTasks x0 x1 y0 y1 grain = some ts ∧
      (∀ queue, rschedSplitTask rschedQueuePush queue x0 x1 y0 y1 grain
        = ts.foldlM rschedQueuePush queue) ∧
      (∀ t ∈ ts, (t.x0 < t.x1 ∧ t.x1 - t.x0 ≤ grain.x) ∧ t.y0 < t.y1 ∧ t.y1 - t.y0 ≤ grain.y) ∧
      (ts.Pairwise fun t u => t.rect ∩ u.rect = ∅) ∧
      ⋃ t ∈ ts, t.rect = Set.Ico x0 x1 ×ˢ Set.Ico y0 y1 ∧
      ts.length = ((x1 - x0) ⌈/⌉ grain.x) * ((y1 - y0) ⌈/⌉ grain.y) := by
  refine ⟨tiles x0 x1 y0 y1 grain, splitTasks_eq hgx hgy hx hy,
    rschedSplitTask_eq hgx hgy hx hy, fun t ht => ?_, tiles_pairwise, iUnion_tiles hgx hgy,
    length_tiles⟩
  obtain ⟨⟨-, h₁, -, h₂⟩, -, h₃, -, h₄⟩ := tiles_bounds hgx hgy ht
  exact ⟨⟨h₁, h₂⟩, h₃, h₄⟩

/-- The theorem at a rectangle with a partial last row and a partial last column. -/
theorem split_tiles_rectangle_partial :
    ∃ ts, splitTasks 0 511 2 300 ⟨100, 64⟩ = some ts ∧ ts.length = 30 := by
  obtain ⟨ts, hts, -, -, -, -, hlen⟩ := @split_tiles_rectangle 0 511 2 300 ⟨100, 64⟩ (by norm_num)
    (by norm_num) (by norm_num) (by norm_num)
  exact ⟨ts, hts, hlen.trans (by decide)⟩

end Partition

/-! ### The tasks of a frame -/

namespace FrameArgs

variable (args : FrameArgs)

/-- The tasks of a frame: the tiles of the rectangle `(0, width - 1, 0, height - 1)`. -/
def frameTasks : List RschedTask :=
  tiles 0 (args.width - 1) 0 (args.height - 1) args.blockSize

lemma u32Pred_width : u32Pred args.width = args.width - 1 :=
  u32Pred_of_pos (by have := args.width_ge; omega) (by have := args.width_le; omega)

lemma u32Pred_height : u32Pred args.height = args.height - 1 :=
  u32Pred_of_pos (by have := args.height_ge; omega) (by have := args.height_le; omega)

lemma one_le_blockX : 1 ≤ args.blockSize.x := le_trans (by norm_num) args.blockX_ge

lemma one_le_blockY : 1 ≤ args.blockSize.y := le_trans (by norm_num) args.blockY_ge

/-- What `rsched_split_task` pushes for the rectangle of the frame, on any `push`. -/
lemma rschedSplitTask_frame {σ : Type*} (push : σ → RschedTask → Option σ) (queue : σ) :
    rschedSplitTask push queue 0 (u32Pred args.width) 0 (u32Pred args.height) args.blockSize
      = args.frameTasks.foldlM push queue := by
  have hw := args.width_le
  have hh := args.height_le
  have hx := args.blockX_le
  have hy := args.blockY_le
  rw [args.u32Pred_width, args.u32Pred_height]
  exact rschedSplitTask_eq args.one_le_blockX args.one_le_blockY (by omega) (by omega) queue

/-- The recorded pushes for the rectangle of the frame. -/
lemma splitTasks_frame :
    splitTasks 0 (u32Pred args.width) 0 (u32Pred args.height) args.blockSize
      = some args.frameTasks := by
  rw [splitTasks, args.rschedSplitTask_frame, foldlM_record, List.nil_append]

/-- A task of the frame lies in the frame, is not empty and is no larger than a block. -/
lemma frameTasks_bounds {t : RschedTask} (ht : t ∈ args.frameTasks) :
    (t.x0 < t.x1 ∧ t.x1 ≤ args.width - 1 ∧ t.x1 - t.x0 ≤ args.blockSize.x) ∧
      t.y0 < t.y1 ∧ t.y1 ≤ args.height - 1 ∧ t.y1 - t.y0 ≤ args.blockSize.y := by
  obtain ⟨hc, hr⟩ := mem_tiles.mp ht
  obtain ⟨-, h₁, h₂, h₃⟩ := segments_bounds args.one_le_blockX hc
  obtain ⟨-, h₄, h₅, h₆⟩ := segments_bounds args.one_le_blockY hr
  exact ⟨⟨h₁, h₂, h₃⟩, h₄, h₅, h₆⟩

/-- Every pixel of the frame lies in a task, the right and the lower borders of the tasks
counted. -/
lemma exists_task {x y : ℕ} (hx : x < args.width) (hy : y < args.height) :
    ∃ t ∈ args.frameTasks, (t.x0 ≤ x ∧ x ≤ t.x1) ∧ t.y0 ≤ y ∧ y ≤ t.y1 := by
  have hw := args.width_ge
  have hh := args.height_ge
  obtain ⟨c, hc, hcx⟩ := exists_segment_closed (b := args.width - 1) args.one_le_blockX (by omega)
    (Nat.zero_le x) (by omega)
  obtain ⟨r, hr, hry⟩ := exists_segment_closed (b := args.height - 1) args.one_le_blockY (by omega)
    (Nat.zero_le y) (by omega)
  exact ⟨tile r c, mem_tiles.mpr ⟨hc, hr⟩, hcx, hry⟩

end FrameArgs

end Mdb
