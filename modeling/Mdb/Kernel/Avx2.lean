import Mdb.Kernel.Lanes

/-!
The AVX2 kernels, `kernel_modules/mandelbrot/mdb_avx2.c` and `mdb_avx2_fma.c`.

* `avx2PointProbe_eq`, `fmaPointProbe_eq`: both inner loops leave in every lane the number of
  leading iterations that leave its own point in the open disc of radius two;
* `avx2_block`: the stores of a block, those of the groups of eight that start below the right
  border of the task;
* `avx2_fma_same_block`: both kernels make the same stores;
* `avx2_covers_iff`: the loop over the columns leaves that border out, so the last column of the
  frame is drawn exactly when the width of the last task is not a multiple of eight.
-/

namespace Mdb

open Escape

/-! ### Vectors -/

/-- `__m256`. -/
abbrev M256 := Fin 8 → ℚ

/-- The result of a comparison: every lane has all its bits set or none. -/
abbrev M256Mask := Fin 8 → Bool

/-- The predicates the kernels pass to `_mm256_cmp_ps`. -/
inductive CmpPredicate where
  | ltOq
  | neqOq

/-- `_mm256_set1_ps`. -/
def mm256Set1Ps (a : ℚ) : M256 := fun _ => a

/-- `_mm256_set_ps`, the highest lane first. -/
def mm256SetPs (e7 e6 e5 e4 e3 e2 e1 e0 : ℚ) : M256 := ![e0, e1, e2, e3, e4, e5, e6, e7]

/-- `_mm256_mul_ps`. -/
def mm256MulPs (a b : M256) : M256 := fun j => a j * b j

/-- `_mm256_add_ps`. -/
def mm256AddPs (a b : M256) : M256 := fun j => a j + b j

/-- `_mm256_sub_ps`. -/
def mm256SubPs (a b : M256) : M256 := fun j => a j - b j

/-- `_mm256_div_ps`. -/
def mm256DivPs (a b : M256) : M256 := fun j => a j / b j

/-- `_mm256_fmadd_ps`. -/
def mm256FmaddPs (a b c : M256) : M256 := fun j => a j * b j + c j

/-- `_mm256_fmsub_ps`. -/
def mm256FmsubPs (a b c : M256) : M256 := fun j => a j * b j - c j

/-- `_mm256_cmp_ps`. -/
def mm256CmpPs (a b : M256) : CmpPredicate → M256Mask
  | .ltOq => fun j => a j < b j
  | .neqOq => fun j => a j ≠ b j

/-- `_mm256_movemask_ps`: one bit for each lane. -/
def mm256MovemaskPs (m : M256Mask) : ℕ := ∑ j, (m j).toNat <<< (j : ℕ)

/-- `_mm256_and_ps` of a vector and a mask. -/
def mm256AndPs (a : M256) (m : M256Mask) : M256 := fun j => if m j then a j else 0

/-! ### The inner loops -/

/-- The loop of `mdb_point_probe` in `mdb_avx2.c`, with `r` iterations left. -/
def avx2ProbeLoop (cx cy : M256) : ℕ → M256 → M256 → M256 → M256
  | 0, _, _, vi => vi
  | r + 1, zx, zy, vi =>
      let zx2 := mm256MulPs zx zx
      let zy2 := mm256MulPs zy zy
      let zxzy := mm256MulPs zx zy
      let zx := mm256SubPs zx2 zy2
      let zx := mm256AddPs zx cx
      let zy := mm256AddPs zxzy zxzy
      let zy := mm256AddPs zy cy
      let zx2 := mm256MulPs zx zx
      let zy2 := mm256MulPs zy zy
      let mag2 := mm256AddPs zx2 zy2
      let boundMask := mm256CmpPs mag2 (mm256Set1Ps 4) .ltOq
      let zeroMask := mm256MovemaskPs boundMask
      if zeroMask ≠ 0 then
        let addMask := mm256AndPs (mm256Set1Ps 1) boundMask
        avx2ProbeLoop cx cy r zx zy (mm256AddPs vi addMask)
      else vi

/-- `mdb_point_probe` of `mdb_avx2.c`. -/
def avx2PointProbe (cx cy : M256) (bailout : ℕ) : M256 :=
  avx2ProbeLoop cx cy bailout cx cy (mm256Set1Ps 0)

/-- The loop of `mdb_point_probe` in `mdb_avx2_fma.c`, with `r` iterations left. -/
def fmaProbeLoop (cx cy : M256) : ℕ → M256 → M256 → M256 → M256
  | 0, _, _, vi => vi
  | r + 1, zx, zy, vi =>
      let zy2cx := mm256FmsubPs zy zy cx
      let zx1 := mm256FmsubPs zx zx zy2cx
      let zxzycy := mm256FmaddPs zx zy cy
      let zy1 := mm256FmaddPs zx zy zxzycy
      let mag2 := mm256FmaddPs zx1 zx1 (mm256MulPs zy1 zy1)
      let boundMask := mm256CmpPs mag2 (mm256Set1Ps 4) .ltOq
      let zeroMask := mm256MovemaskPs boundMask
      if zeroMask ≠ 0 then
        let addMask := mm256AndPs (mm256Set1Ps 1) boundMask
        fmaProbeLoop cx cy r zx1 zy1 (mm256AddPs vi addMask)
      else vi

/-- `mdb_point_probe` of `mdb_avx2_fma.c`. -/
def fmaPointProbe (cx cy : M256) (bailout : ℕ) : M256 :=
  fmaProbeLoop cx cy bailout cx cy (mm256Set1Ps 0)

/-! ### The kernels -/

/-- The pixels of a group: lanes that have counted all iterations are black. -/
def probePixels (vi : M256) (bailout : ℕ) : M256 :=
  let vBailout := mm256Set1Ps bailout
  let bailoutMask := mm256CmpPs vi vBailout .neqOq
  let vi := mm256AndPs vi bailoutMask
  mm256DivPs vi vBailout

/-- The columns of a group. -/
def groupColumns (x : ℕ) : M256 :=
  mm256SetPs (u32 (x + 7)) (u32 (x + 6)) (u32 (x + 5)) (u32 (x + 4))
    (u32 (x + 3)) (u32 (x + 2)) (u32 (x + 1)) (u32 (x + 0))

/-- `v_cy` of `mdb_avx2.c` in the row `y`. -/
def avx2Cy (mdb : MdbT) (y : ℕ) : M256 :=
  let cy := mm256Set1Ps y
  let cy := mm256MulPs cy (mm256Set1Ps mdb.heightR)
  let cy := mm256AddPs cy (mm256Set1Ps (-1 / 2))
  let cy := mm256MulPs cy (mm256Set1Ps mdb.scale)
  mm256AddPs cy (mm256Set1Ps mdb.shiftY)

/-- `v_cx` of `mdb_avx2.c` for the group that starts in the column `x`. -/
def avx2Cx (mdb : MdbT) (x : ℕ) : M256 :=
  let cx := groupColumns x
  let cx := mm256MulPs cx (mm256Set1Ps mdb.widthR)
  let cx := mm256MulPs cx (mm256Set1Ps mdb.aspectRatio)
  let cx := mm256AddPs cx (mm256Set1Ps (-1 / 2))
  let cx := mm256MulPs cx (mm256Set1Ps mdb.scale)
  mm256AddPs cx (mm256Set1Ps mdb.shiftX)

/-- `mdb_kernel_process_block` of `mdb_avx2.c`. -/
def mdbAvx2ProcessBlock (mdb : MdbT) (t : RschedTask) : Option (List (PixelStore ℚ)) :=
  blockLoops (countTo t.y0 t.y1 1) (countBelow t.x0 t.x1 8) fun y x =>
    let vi := avx2PointProbe (avx2Cx mdb x) (avx2Cy mdb y) mdb.bailout
    surfaceSetPixels mdb.surf x y 8 (lanePixels (probePixels vi mdb.bailout))

/-- `v_cy` of `mdb_avx2_fma.c` in the row `y`. -/
def fmaCy (mdb : MdbT) (y : ℕ) : M256 :=
  let cy := mm256Set1Ps y
  let cy := mm256FmaddPs cy (mm256Set1Ps mdb.heightR) (mm256Set1Ps (-1 / 2))
  mm256FmaddPs cy (mm256Set1Ps mdb.scale) (mm256Set1Ps mdb.shiftY)

/-- `v_cx` of `mdb_avx2_fma.c` for the group that starts in the column `x`. -/
def fmaCx (mdb : MdbT) (x : ℕ) : M256 :=
  let cx := groupColumns x
  let cx := mm256MulPs cx (mm256Set1Ps mdb.widthR)
  let cx := mm256FmaddPs cx (mm256Set1Ps mdb.aspectRatio) (mm256Set1Ps (-1 / 2))
  mm256FmaddPs cx (mm256Set1Ps mdb.scale) (mm256Set1Ps mdb.shiftX)

/-- `set_pixels` of `mdb_avx2_fma.c`. -/
def fmaSetPixels (mdb : MdbT) (vi : M256) (x y bailout : ℕ) : List (PixelStore ℚ) :=
  surfaceSetPixels mdb.surf x y 8 (lanePixels (probePixels vi bailout))

/-- `mdb_kernel_process_block` of `mdb_avx2_fma.c`. -/
def mdbAvx2FmaProcessBlock (mdb : MdbT) (t : RschedTask) : Option (List (PixelStore ℚ)) :=
  blockLoops (countTo t.y0 t.y1 1) (countBelow t.x0 t.x1 8) fun y x =>
    let vi := fmaPointProbe (fmaCx mdb x) (fmaCy mdb y) mdb.bailout
    fmaSetPixels mdb vi x y mdb.bailout

/-! ### The counts -/

/-- The bits of a mask are all zero exactly when the mask is. -/
lemma mm256MovemaskPs_ne_zero_iff {m : M256Mask} : mm256MovemaskPs m ≠ 0 ↔ ∃ j, m j = true := by
  have hbit : ∀ j : Fin 8, (m j).toNat <<< (j : ℕ) = 0 ↔ m j = false := fun j => by
    rw [Nat.shiftLeft_eq, Nat.mul_eq_zero]
    simp
  rw [mm256MovemaskPs, Ne, Finset.sum_eq_zero_iff]
  simp [hbit]

/-- A round adds one to the lanes of its mask. -/
lemma mm256AddPs_and_one (vi : M256) (m : M256Mask) :
    mm256AddPs vi (mm256AndPs (mm256Set1Ps 1) m)
      = fun l => if m l = true then vi l + 1 else vi l := by
  funext l
  simp only [mm256AddPs, mm256AndPs, mm256Set1Ps, add_ite, add_zero]

/-- The loop of the plain kernel steps every lane with its own quadratic map. -/
lemma avx2ProbeLoop_eq_laneLoop {cx cy : M256} {r : ℕ} : ∀ {zx zy vi : M256},
    avx2ProbeLoop cx cy r zx zy vi
      = laneLoop (fun l => quad (cx l, cy l)) (fun z => nsq z < 4) (· + 1) r
          (fun l => (zx l, zy l)) vi := by
  induction r with
  | zero => exact rfl
  | succ r ih =>
      intro zx zy vi
      set z' : Fin 8 → ℚ × ℚ := fun l => quad (cx l, cy l) (zx l, zy l) with hz'
      set mask : M256Mask := fun l => nsq (z' l) < 4 with hmask
      have hround : avx2ProbeLoop cx cy (r + 1) zx zy vi
          = if mm256MovemaskPs mask ≠ 0
            then avx2ProbeLoop cx cy r (fun l => (z' l).1) (fun l => (z' l).2)
              (mm256AddPs vi (mm256AndPs (mm256Set1Ps 1) mask))
            else vi := rfl
      rw [hround, laneLoop, ih, mm256AddPs_and_one]
      simp only [mm256MovemaskPs_ne_zero_iff, hmask, hz', Prod.mk.eta]

/-- The fused operations associate the quadratic map differently, and so does the loop of the FMA
kernel, which keeps a point only when some lane is still inside. -/
lemma fmaProbeLoop_eq {cx cy : M256} {r : ℕ} : ∀ {zx zy vi : M256},
    fmaProbeLoop cx cy r zx zy vi = avx2ProbeLoop cx cy r zx zy vi := by
  induction r with
  | zero => exact rfl
  | succ r ih =>
      intro zx zy vi
      have hzx : mm256FmsubPs zx zx (mm256FmsubPs zy zy cx)
          = mm256AddPs (mm256SubPs (mm256MulPs zx zx) (mm256MulPs zy zy)) cx := by
        funext l
        simp only [mm256FmsubPs, mm256AddPs, mm256SubPs, mm256MulPs]
        ring
      have hzy : mm256FmaddPs zx zy (mm256FmaddPs zx zy cy)
          = mm256AddPs (mm256AddPs (mm256MulPs zx zy) (mm256MulPs zx zy)) cy := by
        funext l
        simp only [mm256FmaddPs, mm256AddPs, mm256MulPs]
        ring
      rw [fmaProbeLoop, avx2ProbeLoop, hzx, hzy]
      simp only [ih]
      rfl

/-- **The plain kernel counts the leading iterations inside the open disc**, in every lane for
itself. -/
theorem avx2PointProbe_eq (cx cy : M256) (bailout : ℕ) (l : Fin 8) :
    avx2PointProbe cx cy bailout l = leading (insideOpen (cx l, cy l)) bailout := by
  have hcount : ∀ m : ℕ, (fun n : ℚ => n + 1)^[m] 0 = m := fun m => by
    rw [add_right_iterate_apply, nsmul_one, zero_add]
  rw [avx2PointProbe, avx2ProbeLoop_eq_laneLoop, ← hcount]
  exact count_of_lanes (fun l => (cx l, cy l)) _ 0 bailout l

/-- The FMA kernel counts the same. -/
theorem fmaPointProbe_eq (cx cy : M256) (bailout : ℕ) :
    fmaPointProbe cx cy bailout = avx2PointProbe cx cy bailout := fmaProbeLoop_eq

/-- The colour of a lane. -/
lemma probePixels_eq (cx cy : M256) (bailout : ℕ) (l : Fin 8) :
    probePixels (avx2PointProbe cx cy bailout) bailout l
      = pixelValue (leading (insideOpen (cx l, cy l)) bailout) bailout := by
  have hlane : probePixels (avx2PointProbe cx cy bailout) bailout l
      = (if decide (avx2PointProbe cx cy bailout l ≠ bailout) = true
          then avx2PointProbe cx cy bailout l else 0) / bailout := rfl
  rw [hlane, avx2PointProbe_eq, pixelValue]
  simp only [decide_eq_true_eq, ite_not, Ne, Nat.cast_inj, Nat.cast_ite, Nat.cast_zero]

/-! ### Blocks -/

/-- The plane points of a group. -/
lemma avx2Point_eq (mdb : MdbT) {x : ℕ} (hx : x + 7 < 2 ^ 32) (y : ℕ) (l : Fin 8) :
    (avx2Cx mdb x l, avx2Cy mdb y l) = planePoint mdb (x + l) y := by
  have hu : ∀ k ≤ 7, u32 (x + k) = x + k := fun k hk => u32_of_lt (by omega)
  have hcol : groupColumns x l = ((x + l : ℕ) : ℚ) := by
    simp only [groupColumns, mm256SetPs, hu _ (by norm_num : 0 ≤ 7), hu _ (by norm_num : 1 ≤ 7),
      hu _ (by norm_num : 2 ≤ 7), hu _ (by norm_num : 3 ≤ 7), hu _ (by norm_num : 4 ≤ 7),
      hu _ (by norm_num : 5 ≤ 7), hu _ (by norm_num : 6 ≤ 7), hu _ le_rfl]
    fin_cases l <;> rfl
  simp only [avx2Cx, avx2Cy, mm256MulPs, mm256AddPs, mm256Set1Ps, hcol, planePoint]

/-- The fused operations give the same plane points, and so the same block. -/
lemma mdbAvx2FmaProcessBlock_eq : mdbAvx2FmaProcessBlock = mdbAvx2ProcessBlock := by
  funext mdb t
  have hcx : ∀ x, fmaCx mdb x = avx2Cx mdb x := fun x => rfl
  have hcy : ∀ y, fmaCy mdb y = avx2Cy mdb y := fun y => rfl
  simp only [mdbAvx2FmaProcessBlock, mdbAvx2ProcessBlock, fmaSetPixels, fmaPointProbe_eq, hcx, hcy]

/-- **The FMA kernel computes the block of the plain kernel**: it makes the same stores with the
same values, in the same order. -/
theorem avx2_fma_same_block (mdb : MdbT) (t : RschedTask) :
    mdbAvx2FmaProcessBlock mdb t = mdbAvx2ProcessBlock mdb t := by
  rw [mdbAvx2FmaProcessBlock_eq]

/-- The stores of a block inside the frame: the pixels of the groups that start below its right
border and lie in the frame. -/
lemma avx2_block (args : FrameArgs) (mdb : MdbT) {t : RschedTask}
    (hx : t.x1 < args.width) (hy : t.y1 < args.height) :
    ∃ st, mdbAvx2ProcessBlock (frameSetup mdb args) t = some st ∧
      ∀ s, s ∈ st ↔ ∃ x, (t.x0 ≤ x ∧ x < t.x1 ∧ 8 ∣ x - t.x0) ∧
        ∃ y, (t.y0 ≤ y ∧ y ≤ t.y1) ∧ ∃ k < 8, x + k < args.width ∧
        s = (y * args.width + (x + k), vectorPixel (frameSetup mdb args) (x + k) y) := by
  have hw := args.width_le
  set mdb' := frameSetup mdb args with hmdb'
  obtain ⟨xs, hxs, hmemx⟩ :=
    countBelow_spec (a := t.x0) (b := t.x1) (s := 8) (by norm_num) (by omega)
  have hcolor : ∀ y x (k : Fin 8), x < args.width →
      probePixels (avx2PointProbe (avx2Cx mdb' x) (avx2Cy mdb' y) mdb'.bailout) mdb'.bailout k
        = vectorPixel mdb' (x + k) y := by
    intro y x k hlt
    rw [probePixels_eq, avx2Point_eq mdb' (by omega), vectorPixel]
  have hxs' : ∀ x ∈ xs, x < args.width := fun x hx' => ((hmemx x).mp hx').2.1.trans hx
  obtain ⟨st, hst, hmem⟩ := laneBlock_spec args (vectorPixel mdb') hy hxs'
    fun y x k _ => hcolor y x k
  refine ⟨st, by rw [mdbAvx2ProcessBlock, hxs]; exact hst, fun s => ?_⟩
  simp only [hmem, hmemx]

/-! ### Frames -/

/-- A run of the kernel on the tasks of a frame ends, stores on every pixel, and inside the
buffer. -/
def CoversFrame (args : FrameArgs) (kernel : RschedTask → Option (List (PixelStore ℚ))) : Prop :=
  ∃ ts st, splitTasks 0 (u32Pred args.width) 0 (u32Pred args.height) args.blockSize = some ts ∧
    runTasks kernel ts = some st ∧
    (∀ x y, x < args.width → y < args.height → ∃ s ∈ st, s.1 = y * args.width + x) ∧
    ∀ s ∈ st, s.1 < args.width * args.height

/-- The width of the last task of a row. -/
def FrameArgs.lastTaskWidth (args : FrameArgs) : ℕ := (args.width - 2) % args.blockSize.x + 1

/-- The last task of a row starts its width to the left of the last column. -/
lemma last_column_task (args : FrameArgs) :
    (args.width - 1 - args.lastTaskWidth, args.width - 1)
      ∈ segments 0 (args.width - 1) args.blockSize.x := by
  have hw := args.width_ge
  have hlast := last_segment (a := 0) (b := args.width - 1) args.one_le_blockX (by omega)
  have hdiv := Nat.div_add_mod' (args.width - 2) args.blockSize.x
  rw [Nat.zero_add, Nat.sub_zero, show args.width - 1 - 1 = args.width - 2 by omega] at hlast
  rwa [FrameArgs.lastTaskWidth, show args.width - 1 - ((args.width - 2) % args.blockSize.x + 1)
    = (args.width - 2) / args.blockSize.x * args.blockSize.x by omega]

/-- A task that ends at the last column is the last of its row; the others end before it. -/
lemma task_before_last (args : FrameArgs) {p : ℕ × ℕ}
    (hp : p ∈ segments 0 (args.width - 1) args.blockSize.x) :
    p = (args.width - 1 - args.lastTaskWidth, args.width - 1) ∨
      p.2 ≤ args.width - 1 - args.lastTaskWidth := by
  have hw := args.width_ge
  have hb := args.one_le_blockX
  obtain ⟨k, hk, rfl⟩ := (mem_segments hb).mp hp
  have hdiv := Nat.div_add_mod' (args.width - 2) args.blockSize.x
  have hstart : args.width - 1 - args.lastTaskWidth
      = (args.width - 2) / args.blockSize.x * args.blockSize.x := by
    rw [FrameArgs.lastTaskWidth]
    omega
  have hle : k ≤ (args.width - 2) / args.blockSize.x :=
    (Nat.le_div_iff_mul_le hb).mpr (by omega)
  rw [hstart]
  rcases hle.lt_or_eq with hlt | rfl
  · right
    have hmul := Nat.mul_le_mul_right args.blockSize.x (Nat.succ_le_of_lt hlt)
    exact (min_le_left _ _).trans (by rw [Nat.zero_add]; exact hmul)
  · left
    have hmod := Nat.mod_lt (args.width - 2) hb
    rw [Nat.succ_mul, Nat.zero_add, min_eq_right (by omega)]

/-- A group reaches the last column exactly when the last task leaves it a column to draw: no group
hangs over its task by eight columns. -/
lemma group_at_last_column_iff (args : FrameArgs) :
    (∃ p ∈ segments 0 (args.width - 1) args.blockSize.x, ∃ x, (p.1 ≤ x ∧ x < p.2 ∧ 8 ∣ x - p.1) ∧
        ∃ k < 8, x + k = args.width - 1)
      ↔ ¬ 8 ∣ args.lastTaskWidth := by
  have hw := args.width_ge
  have hpos : 1 ≤ args.lastTaskWidth := Nat.le_add_left 1 _
  have hlast := last_column_task args
  have hle : args.lastTaskWidth ≤ args.width - 2 + 1 := Nat.succ_le_succ (Nat.mod_le _ _)
  constructor
  · rintro ⟨p, hp, x, ⟨h₁, h₂, h₃⟩, k, hk, hxk⟩ hdvd
    rcases task_before_last args hp with rfl | hbefore
    · dsimp only at h₁ h₂ h₃
      omega
    · omega
  · intro hdvd
    exact ⟨_, hlast, args.width - 1 - args.lastTaskWidth % 8,
      ⟨by dsimp only; omega, by dsimp only; omega, by dsimp only; omega⟩,
      args.lastTaskWidth % 8, by omega, by omega⟩

/-- The plain kernel covers the frame exactly when it reaches the last column. -/
lemma avx2_covers_iff_last_column (args : FrameArgs) (mdb : MdbT) :
    CoversFrame args (mdbAvx2ProcessBlock (frameSetup mdb args)) ↔ ¬ 8 ∣ args.lastTaskWidth := by
  have hw := args.width_ge
  have hh := args.height_ge
  have hblock : ∀ t ∈ args.frameTasks, _ := fun t ht => by
    obtain ⟨⟨-, hx, -⟩, -, hy, -⟩ := args.frameTasks_bounds ht
    exact avx2_block args mdb (t := t) (by omega) (by omega)
  obtain ⟨st, hst, hmem⟩ := runTasks_spec args.frameTasks fun t ht => by
    obtain ⟨st, hst, -⟩ := hblock t ht
    exact ⟨st, hst⟩
  -- the stores of the run, read back to the groups of its tasks
  have hstores : ∀ s, s ∈ st ↔ ∃ t ∈ args.frameTasks, ∃ x,
      (t.x0 ≤ x ∧ x < t.x1 ∧ 8 ∣ x - t.x0) ∧ ∃ y, (t.y0 ≤ y ∧ y ≤ t.y1) ∧
        ∃ k < 8, x + k < args.width ∧
        s = (y * args.width + (x + k), vectorPixel (frameSetup mdb args) (x + k) y) := by
    intro s
    rw [hmem]
    refine exists_congr fun t => and_congr_right fun ht => ?_
    obtain ⟨st', hst', hmem'⟩ := hblock t ht
    rw [← hmem']
    refine ⟨fun ⟨st₁, hst₁, hs⟩ => ?_, fun hs => ⟨st', hst', hs⟩⟩
    rw [hst', Option.some.injEq] at hst₁
    exact hst₁ ▸ hs
  rw [← group_at_last_column_iff]
  constructor
  · rintro ⟨ts, st₁, hts, hrun, hcover, -⟩
    rw [args.splitTasks_frame, Option.some.injEq] at hts
    subst hts
    rw [hst, Option.some.injEq] at hrun
    subst hrun
    obtain ⟨s, hs, hidx⟩ := hcover (args.width - 1) 0 (by omega) (by omega)
    obtain ⟨t, ht, x, hx, y, hy, k, hk, hlt, rfl⟩ := (hstores s).mp hs
    exact ⟨_, (mem_tiles.mp ht).1, x, hx, k, hk, (pixel_index_inj hlt (by omega) hidx).1⟩
  · rintro ⟨p, hp, g, hg, k, hk, hgk⟩
    refine ⟨_, st, args.splitTasks_frame, hst, fun x y hx hy => ?_, fun s hs => ?_⟩
    · obtain ⟨r, hr, hr₀, hr₁⟩ := exists_segment_closed (b := args.height - 1) args.one_le_blockY
        (by omega) (Nat.zero_le y) (by omega)
      rcases (Nat.le_sub_one_of_lt hx).lt_or_eq with hlt | rfl
      · obtain ⟨c, hc, hc₀, hc₁⟩ := exists_segment args.one_le_blockX (Nat.zero_le x) hlt
        obtain ⟨g, k, hg₀, hg₁, hdvd, hk, rfl⟩ := group_of_column hc₀
        exact ⟨_, (hstores _).mpr ⟨tile r c, mem_tiles.mpr ⟨hc, hr⟩, g,
          ⟨hg₀, lt_of_le_of_lt hg₁ hc₁, hdvd⟩, y, ⟨hr₀, hr₁⟩, k, hk, hx, rfl⟩, rfl⟩
      · exact ⟨_, (hstores _).mpr ⟨tile r p, mem_tiles.mpr ⟨hp, hr⟩, g, hg, y, ⟨hr₀, hr₁⟩, k, hk,
          by omega, rfl⟩, by rw [hgk]⟩
    · obtain ⟨t, ht, x, hx, y, hy, k, hk, hlt, rfl⟩ := (hstores s).mp hs
      have hty := (args.frameTasks_bounds ht).2.2.1
      exact pixel_index_lt hlt (by omega)

/-- **When the AVX2 kernels cover the frame**: exactly when the width of the last task of a row
is not a multiple of eight. -/
theorem avx2_covers_iff (args : FrameArgs) (mdb : MdbT) :
    (CoversFrame args (mdbAvx2ProcessBlock (frameSetup mdb args)) ↔ ¬ 8 ∣ args.lastTaskWidth) ∧
      (CoversFrame args (mdbAvx2FmaProcessBlock (frameSetup mdb args))
        ↔ ¬ 8 ∣ args.lastTaskWidth) := by
  rw [mdbAvx2FmaProcessBlock_eq, and_self]
  exact avx2_covers_iff_last_column args mdb

/-- **The last column can be left out**: with the default block size and a frame 513 pixels wide
the last task of a row is 32 pixels wide. -/
theorem avx2_misses_column :
    ¬ ∀ (args : FrameArgs) (mdb : MdbT),
      CoversFrame args (mdbAvx2ProcessBlock (frameSetup mdb args)) ∧
        CoversFrame args (mdbAvx2FmaProcessBlock (frameSetup mdb args)) := by
  intro h
  have hcover := (h { defaultArgs with width := 513, width_ge := by decide, width_le := by decide }
    (mdbKernelInit mdbLoaded)).1
  exact (avx2_covers_iff_last_column _ _).mp hcover (by decide)

end Mdb
