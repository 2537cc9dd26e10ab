import Mdb.Kernel.Common
import Mdb.Sched.QueueInvariant

/-!
The default kernel, `kernel_modules/mandelbrot/mdb_generic.c`.

* `escapeFrom_eq`: the inner loop returns the number of leading iterations that leave the point in
  the closed disc of radius two;
* `generic_frame`: the whole frame holds the colours of those counts, in whatever order and
  however often the tasks of the frame are run;
* `generic_blocks_iff`: a block visits both borders of its task, so the blocks of a frame share
  their border pixels and exceed the requested size unless the frame is a single block.
-/

namespace Mdb

open Escape

/-! ### The kernel -/

/-- The inner loop of `mdb_kernel_process_block`: the iteration at which the point escapes, from
iteration `i` on with `r` iterations left. -/
def escapeFrom (cx cy : ℚ) : ℕ → ℕ → ℚ → ℚ → ℕ
  | 0, i, _, _ => i
  | r + 1, i, zx, zy =>
      let zx2 := zx * zx
      let zy2 := zy * zy
      let zxzy := zx * zy
      let zx := zx2 - zy2
      let zx := zx + cx
      let zy := zxzy + zxzy
      let zy := zy + cy
      let zx2 := zx * zx
      let zy2 := zy * zy
      let mag2 := zx2 + zy2
      if mag2 > 4 then i else escapeFrom cx cy r (i + 1) zx zy

/-- The colour the kernel gives the plane point `(cx, cy)`. -/
def genericColor (bailout : ℕ) (cx cy : ℚ) : ℚ :=
  let di : ℚ := 1 / bailout
  let i := escapeFrom cx cy bailout 0 cx cy
  let i := if i = bailout then 0 else i
  i * di

/-- `mdb_kernel_process_block` of `mdb_generic.c`. -/
def mdbGenericProcessBlock (mdb : MdbT) (t : RschedTask) : Option (List (PixelStore ℚ)) :=
  let center : ℚ := -1 / 2
  blockLoops (countTo t.y0 t.y1 1) (countTo t.x0 t.x1 1) fun y x =>
    let cy : ℚ := y * mdb.heightR
    let cy := cy + center
    let cy := cy * mdb.scale
    let cy := cy + mdb.shiftY
    let cx : ℚ := x * mdb.widthR * mdb.aspectRatio
    let cx := cx + center
    let cx := cx * mdb.scale
    let cx := cx + mdb.shiftX
    surfaceSetPixels mdb.surf x y 1 fun _ => genericColor mdb.bailout cx cy

/-! ### The inner loop -/

/-- From iteration `i` on, at the point of the orbit before it, the loop stops at the first
iteration that leaves the closed disc. -/
lemma escapeFrom_spec (c : ℚ × ℚ) : ∀ {r i : ℕ},
    let k := escapeFrom c.1 c.2 r i (iter c i).1 (iter c i).2
    (i ≤ k ∧ k ≤ i + r) ∧ (∀ j, i ≤ j → j < k → insideClosed c j = true) ∧
      (k < i + r → insideClosed c k = false) := by
  intro r
  induction r with
  | zero =>
      intro i
      simp only [escapeFrom]
      exact ⟨⟨le_rfl, le_rfl⟩, fun j h₁ h₂ => absurd h₂ (by omega), fun h => absurd h (by omega)⟩
  | succ r ih =>
      intro i
      have hloop : escapeFrom c.1 c.2 (r + 1) i (iter c i).1 (iter c i).2
          = if nsq (iter c (i + 1)) > 4 then i
            else escapeFrom c.1 c.2 r (i + 1) (iter c (i + 1)).1 (iter c (i + 1)).2 := rfl
      rw [hloop]
      by_cases hout : nsq (iter c (i + 1)) > 4
      · rw [if_pos hout]
        exact ⟨⟨le_rfl, by omega⟩, fun j h₁ h₂ => absurd h₂ (by omega),
          fun _ => insideClosed_eq_false_iff.mpr hout⟩
      · rw [if_neg hout]
        obtain ⟨⟨h₁, h₂⟩, h₃, h₄⟩ := ih (i := i + 1)
        refine ⟨⟨by omega, by omega⟩, fun j hj₁ hj₂ => ?_, fun h => h₄ (by omega)⟩
        rcases hj₁.eq_or_lt with rfl | hlt
        · exact insideClosed_iff.mpr (not_lt.mp hout)
        · exact h₃ j hlt hj₂

/-- **The inner loop counts the leading iterations inside the closed disc.** -/
theorem escapeFrom_eq (c : ℚ × ℚ) (bailout : ℕ) :
    escapeFrom c.1 c.2 bailout 0 c.1 c.2 = leading (insideClosed c) bailout := by
  obtain ⟨⟨-, hle⟩, hbelow, hat⟩ := escapeFrom_spec c (r := bailout) (i := 0)
  rw [Nat.zero_add] at hle hat
  exact (leading_eq hle (fun i hi => hbelow i (Nat.zero_le i) hi) hat).symm

lemma genericColor_eq (c : ℚ × ℚ) (bailout : ℕ) :
    genericColor bailout c.1 c.2 = pixelValue (leading (insideClosed c) bailout) bailout := by
  rw [genericColor, pixelValue, escapeFrom_eq]
  exact mul_one_div _ _

/-! ### A block and a frame -/

/-- The value of a pixel in a frame of the default kernel. -/
def genericPixel (mdb : MdbT) (x y : ℕ) : ℚ :=
  pixelValue (leading (insideClosed (planePoint mdb x y)) mdb.bailout) mdb.bailout

/-- The stores of a block inside the frame: its pixels, both borders counted. -/
lemma generic_block (args : FrameArgs) (mdb : MdbT) {t : RschedTask}
    (hx : t.x1 < args.width) (hy : t.y1 < args.height) :
    ∃ st, mdbGenericProcessBlock (frameSetup mdb args) t = some st ∧
      ∀ s, s ∈ st ↔ ∃ x y, (t.x0 ≤ x ∧ x ≤ t.x1) ∧ (t.y0 ≤ y ∧ y ≤ t.y1) ∧
        s = (y * args.width + x, genericPixel (frameSetup mdb args) x y) := by
  have hw := args.width_le
  have hh := args.height_le
  obtain ⟨ys, hys, hmemy⟩ := countTo_spec (a := t.y0) (b := t.y1) (s := 1) le_rfl (by omega)
  obtain ⟨xs, hxs, hmemx⟩ := countTo_spec (a := t.x0) (b := t.x1) (s := 1) le_rfl (by omega)
  obtain ⟨st, hst, hmem⟩ := blockLoops_spec ys xs fun y x =>
    surfaceSetPixels (frameSetup mdb args).surf x y 1 fun _ =>
      genericColor (frameSetup mdb args).bailout (planePoint (frameSetup mdb args) x y).1
        (planePoint (frameSetup mdb args) x y).2
  refine ⟨st, by rw [mdbGenericProcessBlock, hys, hxs]; exact hst, fun s => ?_⟩
  simp only [hmem, hmemy, hmemx, isUnit_one, IsUnit.dvd, and_true, frameSetup_surf]
  have hset : ∀ x y, x ≤ t.x1 → y ≤ t.y1 → ∀ v : ℚ,
      s ∈ surfaceSetPixels ⟨args.width, args.height⟩ x y 1 (fun _ => v) ↔
        s = (y * args.width + x, v) := by
    intro x y hx' hy' v
    rw [mem_surfaceSetPixels (by dsimp only; omega) (by omega) (args.row_start_lt (by omega))]
    dsimp only
    constructor
    · rintro ⟨-, k, hk, -, rfl⟩
      rw [show k = 0 by omega, Nat.add_zero]
    · rintro rfl
      exact ⟨by omega, 0, by omega, by omega, rfl⟩
  constructor
  · rintro ⟨y, hy', x, hx', hs⟩
    rw [hset x y hx'.2 hy'.2, genericColor_eq] at hs
    exact ⟨x, y, hx', hy', hs⟩
  · rintro ⟨x, y, hx', hy', hs⟩
    exact ⟨y, hy', x, hx', by rw [hset x y hx'.2 hy'.2, genericColor_eq]; exact hs⟩

/-- **A frame of the default kernel is right.** The tasks `rsched_split_task` pushes for the frame,
run in any order with any repetition, store inside the buffer and leave on every pixel the
number of leading iterations inside the closed disc over the bailout, `0` where that is all of
them. -/
theorem generic_frame (args : FrameArgs) (mdb : MdbT) (data : ℕ → ℚ) :
    ∃ pushed, splitTasks 0 (u32Pred args.width) 0 (u32Pred args.height) args.blockSize
        = some pushed ∧
      ∀ ts, (∀ t, t ∈ ts ↔ t ∈ pushed) →
        ∃ st, runTasks (mdbGenericProcessBlock (frameSetup mdb args)) ts = some st ∧
          (∀ s ∈ st, s.1 < args.width * args.height) ∧
          ∀ x y, x < args.width → y < args.height →
            StoreTrace.applyStores data st (y * args.width + x)
              = pixelValue (leading (insideClosed (planePoint (frameSetup mdb args) x y))
                  mdb.bailout) mdb.bailout := by
  refine ⟨args.frameTasks, args.splitTasks_frame, fun ts hts => ?_⟩
  refine frame_correct args (genericPixel (frameSetup mdb args)) (fun t ht => ?_) hts data
  obtain ⟨⟨-, hx, -⟩, -, hy, -⟩ := args.frameTasks_bounds ht
  have hw := args.width_ge
  have hh := args.height_ge
  obtain ⟨st, hst, hmem⟩ := generic_block args mdb (t := t) (by omega) (by omega)
  refine ⟨st, hst, fun s hs => ?_, fun x y hx' hy' => ?_⟩
  · obtain ⟨x, y, hx', hy', rfl⟩ := (hmem s).mp hs
    exact ⟨x, y, by omega, by omega, rfl⟩
  · exact ⟨_, (hmem _).mpr ⟨x, y, hx', hy', rfl⟩, rfl⟩

/-! ### The blocks of a frame -/

/-- The block of `t` visits the pixel `(x, y)`: both ends of its loops are inclusive. -/
def visits (x y : ℕ) (t : RschedTask) : Bool :=
  t.x0 ≤ x ∧ x ≤ t.x1 ∧ t.y0 ≤ y ∧ y ≤ t.y1

/-- The blocks of the tasks share the frame out: every pixel is visited by one block, no block is
larger than the block size, and two blocks store to different pixels. -/
structure SharesOut (args : FrameArgs) (mdb : MdbT) (ts : List RschedTask) : Prop where
  once : ∀ x y, x < args.width → y < args.height → ts.countP (visits x y) = 1
  size_le : ∀ t ∈ ts, t.x1 - t.x0 + 1 ≤ args.blockSize.x ∧ t.y1 - t.y0 + 1 ≤ args.blockSize.y
  apart : ts.Pairwise fun t u => ∀ st su,
    mdbGenericProcessBlock (frameSetup mdb args) t = some st →
    mdbGenericProcessBlock (frameSetup mdb args) u = some su →
    ∀ s ∈ st, ∀ s' ∈ su, s.1 ≠ s'.1

/-- The tasks `rsched_create_tasks` enqueues for a frame share it out. -/
def FrameSharedOut (args : FrameArgs) (mdb : MdbT) (queue : RschedQueue) : Prop :=
  ∃ queue' ts, rschedCreateTasks queue args.width args.height args.blockSize = some queue' ∧
    queue'.tasks.take queue'.length = ts.map some ∧ SharesOut args mdb ts

lemma eq_of_countP_eq_one {β : Type*} {p : β → Bool} {l : List β} {a b : β}
    (h : l.countP p = 1) (ha : a ∈ l) (hpa : p a = true) (hb : b ∈ l) (hpb : p b = true) :
    a = b := by
  rw [List.countP_eq_length_filter, List.length_eq_one_iff] at h
  obtain ⟨c, hc⟩ := h
  have hmem : ∀ d ∈ l, p d = true → d = c := fun d hd hp => by
    have : d ∈ l.filter p := List.mem_filter.mpr ⟨hd, hp⟩
    rwa [hc, List.mem_singleton] at this
  rw [hmem a ha hpa, hmem b hb hpb]

/-- What `rsched_create_tasks` enqueues, when it goes through, are the tasks of the frame. -/
lemma enqueued_eq {args : FrameArgs} {queue queue' : RschedQueue} {ts : List RschedTask}
    (h : rschedCreateTasks queue args.width args.height args.blockSize = some queue')
    (hts : queue'.tasks.take queue'.length = ts.map some) : ts = args.frameTasks := by
  have hroom : args.frameTasks.length ≤ args.qlen ∨ 4 ≤ args.qlen := by
    by_contra hno
    rw [not_or] at hno
    rw [args.rschedCreateTasks_eq, foldlM_push_eq_none _ args.queueInv_reserved
      (by dsimp only; omega) (by dsimp only; omega)] at h
    exact absurd h (by simp)
  obtain ⟨queue₁, hq₁, hinv⟩ := (args.rschedCreateTasks_inv_iff queue).mpr hroom
  rw [h, Option.some.injEq] at hq₁
  have hst := hinv.stored
  rw [← hq₁, hts] at hst
  exact List.map_injective_iff.mpr (Option.some_injective _) hst

/-- Two columns of blocks share the pixels of their common border. -/
lemma not_once_of_blockX_lt (args : FrameArgs) (hlt : args.blockSize.x < args.width - 1) :
    args.frameTasks.countP (visits args.blockSize.x 0) ≠ 1 := by
  intro hcount
  have hb := args.one_le_blockX
  have hh := args.height_ge
  have hfirst : (0, args.blockSize.x) ∈ segments 0 (args.width - 1) args.blockSize.x := by
    rw [segments_cons hb (by omega), Nat.zero_add, min_eq_left hlt.le]
    exact List.mem_cons_self
  obtain ⟨-, hnext⟩ := segment_next hb hfirst hlt
  set c : ℕ × ℕ := (args.blockSize.x, min (args.blockSize.x + args.blockSize.x) (args.width - 1))
  obtain ⟨r, hr, hr₀, hr₁⟩ := exists_segment (b := args.height - 1) args.one_le_blockY
    (Nat.zero_le 0) (by omega)
  have ht : tile r (0, args.blockSize.x) ∈ args.frameTasks := mem_tiles.mpr ⟨hfirst, hr⟩
  have hu : tile r c ∈ args.frameTasks := mem_tiles.mpr ⟨hnext, hr⟩
  have heq := eq_of_countP_eq_one hcount ht
    (decide_eq_true ⟨Nat.zero_le _, le_rfl, hr₀, hr₁.le⟩) hu
    (decide_eq_true ⟨le_rfl, le_min (by omega) hlt.le, hr₀, hr₁.le⟩)
  have hx0 : 0 = args.blockSize.x := congrArg RschedTask.x0 heq
  omega

/-- Two rows of blocks share the pixels of their common border. -/
lemma not_once_of_blockY_lt (args : FrameArgs) (hlt : args.blockSize.y < args.height - 1) :
    args.frameTasks.countP (visits 0 args.blockSize.y) ≠ 1 := by
  intro hcount
  have hb := args.one_le_blockY
  have hw := args.width_ge
  have hfirst : (0, args.blockSize.y) ∈ segments 0 (args.height - 1) args.blockSize.y := by
    rw [segments_cons hb (by omega), Nat.zero_add, min_eq_left hlt.le]
    exact List.mem_cons_self
  obtain ⟨-, hnext⟩ := segment_next hb hfirst hlt
  set r : ℕ × ℕ := (args.blockSize.y, min (args.blockSize.y + args.blockSize.y) (args.height - 1))
  obtain ⟨c, hc, hc₀, hc₁⟩ := exists_segment (b := args.width - 1) args.one_le_blockX
    (Nat.zero_le 0) (by omega)
  have ht : tile (0, args.blockSize.y) c ∈ args.frameTasks := mem_tiles.mpr ⟨hc, hfirst⟩
  have hu : tile r c ∈ args.frameTasks := mem_tiles.mpr ⟨hc, hnext⟩
  have heq := eq_of_countP_eq_one hcount ht
    (decide_eq_true ⟨hc₀, hc₁.le, Nat.zero_le _, le_rfl⟩) hu
    (decide_eq_true ⟨hc₀, hc₁.le, le_rfl, le_min (by omega) hlt.le⟩)
  have hy0 : 0 = args.blockSize.y := congrArg RschedTask.y0 heq
  omega

/-- A frame no larger than a block is one task. -/
lemma frameTasks_single (args : FrameArgs) (hx : args.width - 1 ≤ args.blockSize.x)
    (hy : args.height - 1 ≤ args.blockSize.y) :
    args.frameTasks = [⟨0, args.width - 1, 0, args.height - 1⟩] := by
  have hw := args.width_ge
  have hh := args.height_ge
  have hone : ∀ {b g : ℕ}, 1 ≤ g → 0 < b → b ≤ g → segments 0 b g = [(0, b)] := by
    intro b g hg hb hle
    rw [segments_cons hg hb, Nat.zero_add, min_eq_right hle, segments_eq_nil hg le_rfl]
  rw [FrameArgs.frameTasks, tiles, hone args.one_le_blockY (by omega) hy, List.flatMap_singleton,
    rowTiles, hone args.one_le_blockX (by omega) hx]
  rfl

/-- A frame of one task has room for it. -/
lemma one_le_qlen (args : FrameArgs) : 1 ≤ args.qlen := by
  have hpos : 0 < args.width * args.height :=
    Nat.mul_pos (by have := args.width_ge; omega) (by have := args.height_ge; omega)
  rw [FrameArgs.qlen]
  by_cases hmod : args.width * args.height % (args.blockSize.x * args.blockSize.y) = 0
  · have hge := args.block_area_ge
    have hdiv : 0 < args.width * args.height / (args.blockSize.x * args.blockSize.y) :=
      Nat.div_pos (Nat.le_of_dvd hpos (Nat.dvd_of_mod_eq_zero hmod)) (by omega)
    exact le_add_right hdiv
  · rw [if_pos hmod]
    exact Nat.le_add_left 1 _

/-- **The blocks share the frame out exactly when there is one block**: the block size is at
least the size of the frame. -/
theorem generic_blocks_iff (args : FrameArgs) (mdb : MdbT) (queue : RschedQueue) :
    FrameSharedOut args mdb queue
      ↔ args.width ≤ args.blockSize.x ∧ args.height ≤ args.blockSize.y := by
  have hw := args.width_ge
  have hh := args.height_ge
  constructor
  · rintro ⟨queue', ts, hcreate, hts, honce, hsize, -⟩
    obtain rfl := enqueued_eq hcreate hts
    have hx : args.width - 1 ≤ args.blockSize.x := by
      by_contra hlt
      exact not_once_of_blockX_lt args (by omega) (honce _ 0 (by omega) (by omega))
    have hy : args.height - 1 ≤ args.blockSize.y := by
      by_contra hlt
      exact not_once_of_blockY_lt args (by omega) (honce 0 _ (by omega) (by omega))
    have hle := hsize ⟨0, args.width - 1, 0, args.height - 1⟩ (by
      rw [frameTasks_single args hx hy]; exact List.mem_cons_self)
    dsimp only at hle
    omega
  · rintro ⟨hx, hy⟩
    have hsingle := frameTasks_single args (by omega) (by omega)
    obtain ⟨queue', hq', hinv⟩ := (args.rschedCreateTasks_inv_iff queue).mpr
      (Or.inl (by rw [hsingle]; exact one_le_qlen args))
    refine ⟨queue', args.frameTasks, hq', hinv.stored, ?_, ?_, ?_⟩
    · intro x y hx' hy'
      rw [hsingle, List.countP_singleton, if_pos]
      simp only [visits, decide_eq_true_eq]
      omega
    · intro t ht
      rw [hsingle, List.mem_singleton] at ht
      subst ht
      dsimp only
      omega
    · rw [hsingle]
      exact List.pairwise_singleton _ _

/-- **Blocks overlap**: with the default sizes, a frame of `1024 × 1024` pixels and blocks of
`32 × 32`, the pixel `(32, 0)` is visited by two blocks. -/
theorem generic_blocks_overlap : ¬ ∀ mdb queue, FrameSharedOut defaultArgs mdb queue := by
  intro hall
  obtain ⟨queue', ts, hcreate, hts, honce, -⟩ :=
    hall (mdbKernelInit mdbLoaded) rschedQueueInit
  obtain rfl := enqueued_eq hcreate hts
  exact not_once_of_blockX_lt defaultArgs (by decide)
    (honce 32 0 (by decide) (by decide))

end Mdb
