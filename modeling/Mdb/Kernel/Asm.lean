import Mdb.Kernel.Avx2

/-!
The assembly kernel, `kernel_modules/mandelbrot/mdb_asm_kernel.asm`.

Where the C kernels map a pixel to its plane point in `mdb_kernel_process_block`, this one has
`mdb_kernel_submit_changes` fold the map into a factor and an offset for each axis.
`mdb_kernel_init` and `mdb_kernel_set_size` call it; `mdb_kernel_set_scale` and
`mdb_kernel_set_shift` only store what they are given.

* `submitChanges_eq`: the vectors that leaves in memory;
* `asmPoint_eq`: the point of a pixel, `((x * width_r + center) * aspect * scale + shift_x, …)` as
  the comment of the source has it. The aspect ratio there multiplies the centre too, which the C
  kernels add after it;
* `asm_same_point_iff`: so the kernels draw the same view exactly of square frames, and of sizes
  that the signed conversion `vcvtsi2ss` leaves as they are.
-/

namespace Mdb

open Escape

namespace Asm

/-! ### Registers -/

/-- The lowest lane of a register, the one the scalar instructions read. -/
def lowest (a : M256) : ℚ := a ⟨0, by omega⟩

/-- `vmovss xmm, m32`: the operand in the lowest lane, zero in the others. -/
def vmovss (a : ℚ) : M256 := fun j => if (j : ℕ) = 0 then a else 0

/-- `vmulss xmm1, xmm2, m32` and its kind: the lowest lane is computed, the lanes below four are
those of the second operand, and the upper half of the `ymm` register becomes zero. -/
def scalarSs (op : ℚ → ℚ → ℚ) (a : M256) (b : ℚ) : M256 :=
  fun j => if (j : ℕ) = 0 then op (lowest a) b else if (j : ℕ) < 4 then a j else 0

/-- `vmulss`. -/
def vmulss (a : M256) (b : ℚ) : M256 := scalarSs (· * ·) a b

/-- `vaddss`. -/
def vaddss (a : M256) (b : ℚ) : M256 := scalarSs (· + ·) a b

/-- `vdivss`. -/
def vdivss (a : M256) (b : ℚ) : M256 := scalarSs (· / ·) a b

/-- The rational of a 32-bit register that is read as signed. -/
def signedValue (r : ℕ) : ℚ := i32 r

/-- `vcvtsi2ss xmm, r32`: the lowest lane. The lanes below four keep what they held, which
nothing reads, and are taken to be zero. -/
def vcvtsi2ss (r : ℕ) : M256 := vmovss (signedValue r)

/-- `vshufps xmm, xmm, 0`. -/
def vshufps0 (a : M256) : M256 := fun j => if (j : ℕ) < 4 then lowest a else 0

/-- `vinsertf128 ymm, ymm, xmm, 1`. -/
def vinsertf128Upper (a b : M256) : M256 :=
  fun j => if (j : ℕ) < 4 then a j else b ⟨(j : ℕ) - 4, by omega⟩

/-- `vbroadcastss`. -/
def vbroadcastss (a : M256) : M256 := mm256Set1Ps (lowest a)

/-- The macro `self_broadcast256_ss`. -/
def selfBroadcast256Ss (a : M256) : M256 :=
  let a := vshufps0 a
  vinsertf128Upper a a

@[simp] lemma lowest_vmovss (a : ℚ) : lowest (vmovss a) = a := rfl

@[simp] lemma lowest_vmulss (a : M256) (b : ℚ) : lowest (vmulss a b) = lowest a * b := rfl

@[simp] lemma lowest_vaddss (a : M256) (b : ℚ) : lowest (vaddss a b) = lowest a + b := rfl

@[simp] lemma lowest_vdivss (a : M256) (b : ℚ) : lowest (vdivss a b) = lowest a / b := rfl

@[simp] lemma lowest_vcvtsi2ss (r : ℕ) : lowest (vcvtsi2ss r) = signedValue r := rfl

/-- The macro copies the lowest lane to all lanes, whatever the others held. -/
@[simp] lemma selfBroadcast256Ss_eq (a : M256) :
    selfBroadcast256Ss a = mm256Set1Ps (lowest a) := by
  funext j
  simp only [selfBroadcast256Ss, vinsertf128Upper, vshufps0, mm256Set1Ps]
  by_cases hj : (j : ℕ) < 4
  · rw [if_pos hj, if_pos hj]
  · rw [if_neg hj, if_pos (by omega)]

/-! ### The data of the kernel -/

/-- The variables of `section .data` that the kernel reads. -/
structure Data where
  width : ℕ
  height : ℕ
  surfacePtr : Surface
  outputStride : ℕ
  scaleSs : ℚ
  shiftXSs : ℚ
  shiftYSs : ℚ
  bailoutSi : ℕ
  widthRSs : ℚ
  heightRSs : ℚ
  aspectSs : ℚ
  vTransposeXPs : M256
  vTransposeYPs : M256
  vOffsetYPs : M256
  vOffsetXPs : M256

/-- `section .data` as it is loaded. -/
def dataLoaded : Data where
  width := 0
  height := 0
  surfacePtr := ⟨0, 0⟩
  outputStride := 0
  scaleSs := 0.00188964
  shiftXSs := -1.347385054652062
  shiftYSs := -0.063483549665202
  bailoutSi := 256
  widthRSs := 0
  heightRSs := 0
  aspectSs := 0
  vTransposeXPs := mm256Set1Ps 0
  vTransposeYPs := mm256Set1Ps 0
  vOffsetYPs := mm256Set1Ps 0
  vOffsetXPs := mm256Set1Ps 0

/-- `center_ss`. -/
def centerSs : ℚ := -1 / 2

/-- `v_iter_ps`. -/
def vIterPs : M256 := ![0, 1, 2, 3, 4, 5, 6, 7]

/-- `mdb_kernel_submit_changes`. -/
def mdbKernelSubmitChanges (d : Data) : Data :=
  let xmm0 := vmovss d.heightRSs
  let xmm0 := vmulss xmm0 d.scaleSs
  let ymm0 := selfBroadcast256Ss xmm0
  let d := { d with vTransposeYPs := ymm0 }
  let xmm0 := vmovss centerSs
  let xmm0 := vmulss xmm0 d.scaleSs
  let xmm0 := vaddss xmm0 d.shiftYSs
  let ymm0 := selfBroadcast256Ss xmm0
  let d := { d with vOffsetYPs := ymm0 }
  -- `xmm0` is `scale_x` from here on
  let xmm0 := vmovss d.scaleSs
  let xmm0 := vmulss xmm0 d.aspectSs
  let xmm1 := vmulss xmm0 d.widthRSs
  let ymm1 := selfBroadcast256Ss xmm1
  let d := { d with vTransposeXPs := ymm1 }
  let xmm0 := vmulss xmm0 centerSs
  let xmm0 := vaddss xmm0 d.shiftXSs
  let ymm0 := selfBroadcast256Ss xmm0
  { d with vOffsetXPs := ymm0 }

/-- `mdb_kernel_set_scale`. -/
def mdbKernelSetScale (d : Data) (scale : ℚ) : Data := { d with scaleSs := scale }

/-- `mdb_kernel_set_shift`. -/
def mdbKernelSetShift (d : Data) (shiftX shiftY : ℚ) : Data :=
  { d with shiftXSs := shiftX, shiftYSs := shiftY }

/-- `mdb_kernel_init`. -/
def mdbKernelInit (d : Data) : Data := mdbKernelSubmitChanges d

/-- `mdb_kernel_set_size`. -/
def mdbKernelSetSize (d : Data) (width height : ℕ) : Data :=
  let d := { d with width := width, height := height, outputStride := u32 (width * 4) }
  let xmm0 := vcvtsi2ss width
  let xmm1 := vcvtsi2ss height
  let xmm2 := vdivss xmm0 (lowest xmm1)
  let d := { d with aspectSs := lowest xmm2 }
  let xmm2 := vmovss 1
  let xmm0 := vdivss xmm2 (lowest xmm0)
  let xmm1 := vdivss xmm2 (lowest xmm1)
  let d := { d with widthRSs := lowest xmm0, heightRSs := lowest xmm1 }
  mdbKernelSubmitChanges d

/-- `mdb_kernel_set_surface`. -/
def mdbKernelSetSurface (d : Data) (surf : Surface) : Data := { d with surfacePtr := surf }

/-! ### A block -/

/-- `v_cy` of `mdb_kernel_process_block` in the row `y`. -/
def vCy (d : Data) (y : ℕ) : M256 :=
  let vCy := vbroadcastss (vcvtsi2ss y)
  mm256FmaddPs vCy d.vTransposeYPs d.vOffsetYPs

/-- `v_cx` of `mdb_kernel_process_block` for the group that starts in the column `x`. -/
def vCx (d : Data) (x : ℕ) : M256 :=
  let vCx := vbroadcastss (vcvtsi2ss x)
  let vCx := mm256AddPs vCx vIterPs
  mm256FmaddPs vCx d.vTransposeXPs d.vOffsetXPs

/-- `.loop_bailout` with `r` rounds left. -/
def loopBailout (vCx vCy : M256) : ℕ → M256 → M256 → M256 → M256
  | 0, _, _, vI => vI
  | r + 1, vZx, vZy, vI =>
      let vZxOld := vZx
      let vTmp0 := mm256FmsubPs vZy vZy vCx
      let vZx := mm256FmsubPs vZx vZx vTmp0
      let vTmp0 := mm256FmaddPs vZxOld vZy vCy
      let vZy := mm256FmaddPs vZxOld vZy vTmp0
      let vTmp1 := mm256MulPs vZy vZy
      let vTmp0 := mm256FmaddPs vZx vZx vTmp1
      let mask := mm256CmpPs vTmp0 (mm256Set1Ps 4) .ltOq
      let vTmp0 := mm256AndPs (mm256Set1Ps 1) mask
      let vI := mm256AddPs vI vTmp0
      -- `vptest`
      if ∀ j, vTmp0 j = 0 then vI else loopBailout vCx vCy r vZx vZy vI

/-- The colours of a group, from `.loop_bailout` to the call of `surface_set_pixels`. The rounds
are counted after the first, up to the bailout. -/
def groupColors (d : Data) (vCx vCy : M256) : M256 :=
  let vI := loopBailout vCx vCy (u32Pred d.bailoutSi + 1) vCx vCy (mm256Set1Ps 0)
  let vTmp0 := vbroadcastss (vcvtsi2ss d.bailoutSi)
  let vTmp1 := mm256CmpPs vI vTmp0 .neqOq
  let vI := mm256AndPs vI vTmp1
  mm256DivPs vI vTmp0

/-- `add x,s` and `jle` at the end of a loop: the counter is tested after the round, as a signed
number. -/
def loopTo (a b s : ℕ) : Option (List ℕ) :=
  (counterLoop (fun x => i32 x ≤ i32 b) (fun x => u32 (x + s)) (2 ^ 32) (u32 (a + s))).map (a :: ·)

/-- `mdb_kernel_process_block`. -/
def mdbKernelProcessBlock (d : Data) (t : RschedTask) : Option (List (PixelStore ℚ)) :=
  blockLoops (loopTo t.y0 t.y1 1) (loopTo t.x0 t.x1 8) fun y x =>
    surfaceSetPixels d.surfacePtr x y 8 (lanePixels (groupColors d (vCx d x) (vCy d y)))

/-- `mdb_kernel_event_handler`: this kernel takes no events. -/
def mdbKernelEventHandler {E : Type*} (d : Data) (_type : ℤ) (_event : E) : Data × ℤ := (d, 0)

/-! ### The plane points -/

/-- **The precomputed coefficients**: in every lane the factors and the offsets of the affine map
`x ↦ (x * width_r + center) * (scale * aspect) + shift_x` and of its analogue for `y`. -/
lemma submitChanges_eq (d : Data) :
    mdbKernelSubmitChanges d = { d with
      vTransposeXPs := mm256Set1Ps (d.scaleSs * d.aspectSs * d.widthRSs)
      vOffsetXPs := mm256Set1Ps (d.scaleSs * d.aspectSs * centerSs + d.shiftXSs)
      vTransposeYPs := mm256Set1Ps (d.heightRSs * d.scaleSs)
      vOffsetYPs := mm256Set1Ps (centerSs * d.scaleSs + d.shiftYSs) } := by
  simp only [mdbKernelSubmitChanges, selfBroadcast256Ss_eq, lowest_vmulss, lowest_vaddss, lowest_vmovss]

/-- What a new size leaves in memory. -/
lemma setSize_eq (d : Data) (w h : ℕ) :
    mdbKernelSetSize d w h = mdbKernelSubmitChanges { d with
      width := w
      height := h
      outputStride := u32 (w * 4)
      aspectSs := signedValue w / signedValue h
      widthRSs := 1 / signedValue w
      heightRSs := 1 / signedValue h } := by
  simp only [mdbKernelSetSize, lowest_vdivss, lowest_vmovss, lowest_vcvtsi2ss]

lemma vIterPs_eq (l : Fin 8) : vIterPs l = (l : ℕ) := by
  fin_cases l <;> simp [vIterPs]

/-- `v_cx` in a lane. -/
lemma vCx_eq (d : Data) (x : ℕ) (l : Fin 8) :
    vCx d x l = (signedValue x + (l : ℕ)) * d.vTransposeXPs l + d.vOffsetXPs l := by
  rw [vCx, mm256FmaddPs, mm256AddPs, vbroadcastss, mm256Set1Ps, lowest_vcvtsi2ss, vIterPs_eq]

/-- `v_cy` in a lane. -/
lemma vCy_eq (d : Data) (y : ℕ) (l : Fin 8) :
    vCy d y l = signedValue y * d.vTransposeYPs l + d.vOffsetYPs l := by
  rw [vCy, mm256FmaddPs, vbroadcastss, mm256Set1Ps, lowest_vcvtsi2ss]

/-- The point of the pixel in the lane `l` of the group that starts in the column `x`. -/
def asmPoint (d : Data) (x : ℕ) (l : Fin 8) (y : ℕ) : ℚ × ℚ := (vCx d x l, vCy d y l)

/-- **The point of a pixel** after the data has changed. -/
lemma submitPoint_eq (d : Data) (x : ℕ) (l : Fin 8) (y : ℕ) :
    asmPoint (mdbKernelSubmitChanges d) x l y
      = (((signedValue x + (l : ℕ)) * d.widthRSs + centerSs) * d.aspectSs * d.scaleSs
            + d.shiftXSs,
          (signedValue y * d.heightRSs + centerSs) * d.scaleSs + d.shiftYSs) := by
  have hx : vCx (mdbKernelSubmitChanges d) x l
      = (signedValue x + (l : ℕ)) * (d.scaleSs * d.aspectSs * d.widthRSs)
        + (d.scaleSs * d.aspectSs * centerSs + d.shiftXSs) := by
    rw [vCx_eq, submitChanges_eq]
    rfl
  have hy : vCy (mdbKernelSubmitChanges d) y l
      = signedValue y * (d.heightRSs * d.scaleSs) + (centerSs * d.scaleSs + d.shiftYSs) := by
    rw [vCy_eq, submitChanges_eq]
    rfl
  rw [asmPoint, hx, hy]
  refine Prod.ext ?_ ?_
  · dsimp only
    ring
  · dsimp only
    ring

/-- The point of the pixel in the lane `l` of a group, once a size is set. -/
lemma asmPoint_eq (d : Data) (w h x : ℕ) (l : Fin 8) (y : ℕ) :
    asmPoint (mdbKernelSetSize d w h) x l y
      = (((signedValue x + (l : ℕ)) * (1 / signedValue w) + centerSs)
            * (signedValue w / signedValue h) * d.scaleSs + d.shiftXSs,
          (signedValue y * (1 / signedValue h) + centerSs) * d.scaleSs + d.shiftYSs) := by
  rw [setSize_eq, submitPoint_eq]

/-! ### The same view -/

lemma signedValue_of_lt {r : ℕ} (h : r < 2 ^ 31) : signedValue r = r := by
  rw [signedValue, i32_of_lt (by omega) (by omega), Int.cast_natCast]

/-- From `2 ^ 31` on a register holds a negative number. -/
lemma signedValue_neg {r : ℕ} (h : 2 ^ 31 ≤ r) (h' : r < 2 ^ 32) : signedValue r < 0 := by
  have hval : i32 r = r - 2 ^ 32 := by
    rw [i32, Int.bmod_def]
    omega
  rw [signedValue, hval, Int.cast_lt_zero]
  omega

/-- The kernel told the scale and the shift of a C kernel. -/
def withView (d : Data) (mdb : MdbT) : Data :=
  mdbKernelSetShift (mdbKernelSetScale d mdb.scale) mdb.shiftX mdb.shiftY

section View

variable (d : Data) (mdb : MdbT) {w h : ℕ}

lemma asmPoint_withView (x : ℕ) (l : Fin 8) (y : ℕ) :
    asmPoint (mdbKernelSetSize (withView d mdb) w h) x l y
      = (((signedValue x + (l : ℕ)) * (1 / signedValue w) + -1 / 2)
            * (signedValue w / signedValue h) * mdb.scale + mdb.shiftX,
          (signedValue y * (1 / signedValue h) + -1 / 2) * mdb.scale + mdb.shiftY) := by
  rw [asmPoint_eq, centerSs]
  rfl

/-- The point of a pixel in a frame whose sizes are positive as signed numbers. -/
lemma asmPoint_of_lt (hw : w < 2 ^ 31) (hh : h < 2 ^ 31) {x y : ℕ} {l : Fin 8} (hx : x + l < w)
    (hy : y < h) :
    asmPoint (mdbKernelSetSize (withView d mdb) w h) x l y
      = ((((x + l : ℕ) : ℚ) * (1 / w) + -1 / 2) * (w / h) * mdb.scale + mdb.shiftX,
          ((y : ℚ) * (1 / h) + -1 / 2) * mdb.scale + mdb.shiftY) := by
  rw [asmPoint_withView, signedValue_of_lt hw, signedValue_of_lt hh,
    signedValue_of_lt (by omega), signedValue_of_lt (by omega), Nat.cast_add]

/-- The point a C kernel computes, once a size is set. -/
lemma planePoint_setSize (x y : ℕ) :
    planePoint (Mdb.mdbKernelSetSize mdb w h) x y
      = (((x : ℚ) * (1 / w) * (w / h) + -1 / 2) * mdb.scale + mdb.shiftX,
          ((y : ℚ) * (1 / h) + -1 / 2) * mdb.scale + mdb.shiftY) := rfl

/-- **One pixel, exactly**: the kernels agree on it iff the whole frame is scaled to a point or the
centre, which the assembly kernel multiplies by the aspect ratio, is not moved by that. -/
lemma asmPoint_eq_planePoint_iff (hw : w < 2 ^ 31) (hh : h < 2 ^ 31) {x y : ℕ} {l : Fin 8}
    (hx : x + l < w) (hy : y < h) :
    asmPoint (mdbKernelSetSize (withView d mdb) w h) x l y
        = planePoint (Mdb.mdbKernelSetSize mdb w h) (x + l) y
      ↔ mdb.scale = 0 ∨ w = h := by
  have hh0 : (h : ℚ) ≠ 0 := Nat.cast_ne_zero.mpr (by omega)
  rw [asmPoint_of_lt d mdb hw hh hx hy, planePoint_setSize, Prod.mk.injEq, and_iff_left rfl,
    ← sub_eq_zero]
  -- the difference of the points is the same for all pixels
  have hdiff : ((((x + l : ℕ) : ℚ) * (1 / w) + -1 / 2) * (w / h) * mdb.scale + mdb.shiftX)
      - ((((x + l : ℕ) : ℚ) * (1 / w) * (w / h) + -1 / 2) * mdb.scale + mdb.shiftX)
      = -1 / 2 * (w / h - 1) * mdb.scale := by ring
  rw [hdiff, mul_eq_zero, mul_eq_zero, or_iff_right (by norm_num : ¬ (-1 / 2 : ℚ) = 0),
    sub_eq_zero, div_eq_one_iff_eq hh0, Nat.cast_inj, or_comm]

/-- A height that is negative as a signed number turns the rows over. -/
lemma asmPoint_row_ne (hscale : mdb.scale ≠ 0) (hh : 2 ^ 31 ≤ h) (hh' : h < 2 ^ 32) (x : ℕ)
    (l : Fin 8) :
    asmPoint (mdbKernelSetSize (withView d mdb) w h) x l 1
      ≠ planePoint (Mdb.mdbKernelSetSize mdb w h) (x + l) 1 := by
  intro heq
  rw [asmPoint_withView, planePoint_setSize, Prod.mk.injEq,
    signedValue_of_lt (r := 1) (by norm_num)] at heq
  have hrow := mul_right_cancel₀ hscale (add_right_cancel heq.2)
  have hinv := mul_left_cancel₀ (by norm_num : ((1 : ℕ) : ℚ) ≠ 0) (add_right_cancel hrow)
  have hneg : 1 / signedValue h < 0 := one_div_neg.mpr (signedValue_neg hh hh')
  have hpos : (0 : ℚ) < 1 / h := one_div_pos.mpr (Nat.cast_pos.mpr (by omega))
  rw [hinv] at hneg
  exact absurd hneg hpos.not_gt

/-- A width that is negative as a signed number turns the columns over. -/
lemma asmPoint_column_ne (hscale : mdb.scale ≠ 0) (hh : h < 2 ^ 31) (hw : 2 ^ 31 ≤ w)
    (hw' : w < 2 ^ 32) (y : ℕ) :
    asmPoint (mdbKernelSetSize (withView d mdb) w h) 0 0 y
      ≠ planePoint (Mdb.mdbKernelSetSize mdb w h) 0 y := by
  intro heq
  rw [asmPoint_withView, planePoint_setSize, Prod.mk.injEq,
    signedValue_of_lt (r := 0) (by norm_num), signedValue_of_lt hh] at heq
  have hcol := mul_right_cancel₀ hscale (add_right_cancel heq.1)
  have haspect : signedValue w / h ≤ 0 :=
    div_nonpos_of_nonpos_of_nonneg (signedValue_neg hw hw').le h.cast_nonneg
  have hcenter : -1 / 2 * (signedValue w / h) = (-1 / 2 : ℚ) := by
    simpa using hcol
  linarith

end View

/-! ### A block and a frame -/

/-- The loop ends where the one of `mdb_avx2_fma.c` does: the round that finds no lane inside adds
nothing. -/
lemma loopBailout_eq {cx cy : M256} {r : ℕ} : ∀ {zx zy vi : M256},
    loopBailout cx cy r zx zy vi = fmaProbeLoop cx cy r zx zy vi := by
  induction r with
  | zero => exact rfl
  | succ r ih =>
      intro zx zy vi
      set zx' := mm256FmsubPs zx zx (mm256FmsubPs zy zy cx) with hzx
      set zy' := mm256FmaddPs zx zy (mm256FmaddPs zx zy cy) with hzy
      set mask := mm256CmpPs (mm256FmaddPs zx' zx' (mm256MulPs zy' zy')) (mm256Set1Ps 4) .ltOq
        with hmask
      set add := mm256AndPs (mm256Set1Ps 1) mask with hadd
      have hround : loopBailout cx cy (r + 1) zx zy vi
          = if ∀ j, add j = 0 then mm256AddPs vi add
            else loopBailout cx cy r zx' zy' (mm256AddPs vi add) := rfl
      have hround' : fmaProbeLoop cx cy (r + 1) zx zy vi
          = if mm256MovemaskPs mask ≠ 0 then fmaProbeLoop cx cy r zx' zy' (mm256AddPs vi add)
            else vi := rfl
      have hzero : (∀ j, add j = 0) ↔ ¬ mm256MovemaskPs mask ≠ 0 := by
        rw [mm256MovemaskPs_ne_zero_iff, not_exists]
        refine forall_congr' fun j => ?_
        rw [hadd, mm256AndPs, mm256Set1Ps]
        simp
      rw [hround, hround', ih]
      by_cases h : ∀ j, add j = 0
      · rw [if_pos h, if_neg (hzero.mp h)]
        funext j
        rw [mm256AddPs, h j, add_zero]
      · rw [if_neg h, if_pos (by rwa [hzero, not_not] at h)]

/-- **The colours of a group**: those of the C kernels for its points, for a bailout that is
positive as a signed number. -/
lemma groupColors_eq {d : Data} (hb : 1 ≤ d.bailoutSi) (hb' : d.bailoutSi < 2 ^ 31)
    (cx cy : M256) (l : Fin 8) :
    groupColors d cx cy l
      = pixelValue (leading (insideOpen (cx l, cy l)) d.bailoutSi) d.bailoutSi := by
  have hrounds : u32Pred d.bailoutSi + 1 = d.bailoutSi := by
    rw [u32Pred_of_pos hb (by omega)]
    omega
  have hprobe : loopBailout cx cy d.bailoutSi cx cy (mm256Set1Ps 0)
      = avx2PointProbe cx cy d.bailoutSi := by
    rw [loopBailout_eq, ← fmaPointProbe_eq, fmaPointProbe]
  rw [groupColors, hrounds, hprobe, vbroadcastss, lowest_vcvtsi2ss, signedValue_of_lt hb',
    ← probePixels_eq]
  rfl

/-- Counters that stay positive as signed numbers are tested as the C kernels test them, and the
first round of a loop that is entered needs no test. -/
lemma loopTo_eq_countTo {a b s : ℕ} (hab : a ≤ b) (hb : b + s < 2 ^ 31) :
    loopTo a b s = countTo a b s := by
  have hnext : ∀ x ≤ b, u32 (x + s) < 2 ^ 31 := fun x hx => by
    rw [u32_of_lt (by omega)]
    omega
  have hcond : ∀ x : ℕ, x < 2 ^ 31 → decide (i32 x ≤ i32 b) = decide (x ≤ b) := fun x hx => by
    rw [i32_of_lt (by omega) (by omega), i32_of_lt (by omega) (by omega), decide_eq_decide,
      Int.ofNat_le]
  rw [countTo, u32Fuel, counterLoop_succ, if_pos (decide_eq_true hab), loopTo]
  refine congrArg _ (counterLoop_congr (P := fun x => x < 2 ^ 31) hcond (fun x hx hle => ?_)
    (hnext a hab))
  rw [hcond x hx, decide_eq_true_iff] at hle
  exact hnext x hle

/-- The point that the formula in the comment of `mdb_kernel_submit_changes` gives for a pixel. -/
def pixelPoint (d : Data) (x y : ℕ) : ℚ × ℚ :=
  ((x * d.widthRSs + centerSs) * d.aspectSs * d.scaleSs + d.shiftXSs,
    (y * d.heightRSs + centerSs) * d.scaleSs + d.shiftYSs)

/-- The value of a pixel in a frame of the assembly kernel. -/
def pixel (d : Data) (x y : ℕ) : ℚ :=
  pixelValue (leading (insideOpen (pixelPoint d x y)) d.bailoutSi) d.bailoutSi

/-- The set-up of `run_benchmark_mode` and `run_render_mode`. -/
def frameSetup (d : Data) (args : FrameArgs) : Data :=
  mdbKernelSetSurface (mdbKernelSetSize d args.width args.height) ⟨args.width, args.height⟩

/-- The kernel computes the formula of the comment. -/
lemma asmPoint_frameSetup (d : Data) (args : FrameArgs) {x y : ℕ} (hx : x < 2 ^ 31)
    (hy : y < 2 ^ 31) (l : Fin 8) :
    asmPoint (frameSetup d args) x l y = pixelPoint (frameSetup d args) (x + l) y := by
  have hpoint : asmPoint (frameSetup d args) x l y
      = asmPoint (mdbKernelSetSize d args.width args.height) x l y := rfl
  have hpixel : pixelPoint (frameSetup d args) (x + l) y
      = pixelPoint (mdbKernelSetSize d args.width args.height) (x + l) y := rfl
  rw [hpoint, hpixel, setSize_eq, submitPoint_eq, submitChanges_eq, signedValue_of_lt hx,
    signedValue_of_lt hy, pixelPoint, Nat.cast_add]

/-- The stores of a block inside the frame: the pixels of its groups of eight that lie in the
frame. -/
lemma asm_block (args : FrameArgs) {d : Data} (hb : 1 ≤ d.bailoutSi) (hb' : d.bailoutSi < 2 ^ 31)
    {t : RschedTask} (hx₀ : t.x0 ≤ t.x1) (hx : t.x1 < args.width) (hy₀ : t.y0 ≤ t.y1)
    (hy : t.y1 < args.height) :
    ∃ st, mdbKernelProcessBlock (frameSetup d args) t = some st ∧
      ∀ s, s ∈ st ↔ ∃ x, (t.x0 ≤ x ∧ x ≤ t.x1 ∧ 8 ∣ x - t.x0) ∧
        ∃ y, (t.y0 ≤ y ∧ y ≤ t.y1) ∧ ∃ k < 8, x + k < args.width ∧
        s = (y * args.width + (x + k), pixel (frameSetup d args) (x + k) y) := by
  have hw := args.width_le
  have hh := args.height_le
  set d' := frameSetup d args with hd'
  have hb₀ : 1 ≤ d'.bailoutSi := hb
  have hb₁ : d'.bailoutSi < 2 ^ 31 := hb'
  have hcolor : ∀ y x (k : Fin 8), y ≤ t.y1 → x < args.width →
      groupColors d' (vCx d' x) (vCy d' y) k = pixel d' (x + k) y := by
    intro y x k hyt hxw
    have hpoint := asmPoint_frameSetup d args (x := x) (y := y) (by omega) (by omega) k
    rw [asmPoint] at hpoint
    rw [groupColors_eq hb₀ hb₁, hpoint, pixel]
  rw [mdbKernelProcessBlock, loopTo_eq_countTo hx₀ (by omega),
    loopTo_eq_countTo hy₀ (by omega)]
  exact laneBlock_countTo args (pixel d') hx hy hcolor

/-- **A frame of the assembly kernel**: the tasks of the frame, run in any order with any
repetition, store inside the buffer and leave on every pixel the colour of the point that the
comment's formula gives for it. -/
theorem asm_frame (args : FrameArgs) {d : Data} (hb : 1 ≤ d.bailoutSi) (hb' : d.bailoutSi < 2 ^ 31)
    (data : ℕ → ℚ) {ts : List RschedTask} (hts : ∀ t, t ∈ ts ↔ t ∈ args.frameTasks) :
    ∃ st, runTasks (mdbKernelProcessBlock (frameSetup d args)) ts = some st ∧
      (∀ s ∈ st, s.1 < args.width * args.height) ∧
      ∀ x y, x < args.width → y < args.height →
        StoreTrace.applyStores data st (y * args.width + x) = pixel (frameSetup d args) x y :=
  laneFrame_correct args (pixel (frameSetup d args))
    (fun _ hx₀ hx hy₀ hy => asm_block args hb hb' hx₀.le hx hy₀.le hy) hts data

/-- On a square frame that is what the C kernels leave there. -/
theorem pixel_eq_vectorPixel {args : FrameArgs} (hsquare : args.width = args.height) {d : Data}
    {mdb : MdbT} (hb : d.bailoutSi = mdb.bailout) {x y : ℕ} (hx : x < args.width)
    (hy : y < args.height) :
    pixel (frameSetup (withView d mdb) args) x y = vectorPixel (Mdb.frameSetup mdb args) x y := by
  have hw := args.width_le
  have hh := args.height_le
  have hpoint : pixelPoint (frameSetup (withView d mdb) args) x y
      = planePoint (Mdb.frameSetup mdb args) x y :=
    calc pixelPoint (frameSetup (withView d mdb) args) x y
        = asmPoint (frameSetup (withView d mdb) args) x 0 y :=
          (asmPoint_frameSetup _ args (by omega) (by omega) 0).symm
      _ = planePoint (Mdb.mdbKernelSetSize mdb args.width args.height) x y :=
          (asmPoint_eq_planePoint_iff d mdb (by omega) (by omega) (l := 0)
            (by rwa [Fin.val_zero]) hy).mpr (Or.inr hsquare)
      _ = planePoint (Mdb.frameSetup mdb args) x y := rfl
  have hbailout : (frameSetup (withView d mdb) args).bailoutSi = mdb.bailout := hb
  rw [pixel, vectorPixel, hpoint, hbailout, frameSetup_bailout]

end Asm

section SameView

variable (d : Asm.Data) (mdb : MdbT) {w h : ℕ}

/-- **When the assembly kernel draws the same view**: exactly when the frame is square, and of a
size that is positive as a signed number, or the whole plane is scaled to a point. -/
theorem asm_same_point_iff (hw : 1 ≤ w) (hw' : w < 2 ^ 32) (hh : 1 ≤ h) (hh' : h < 2 ^ 32) :
    (∀ (x : ℕ) (l : Fin 8) (y : ℕ), x + l < w → y < h →
        Asm.asmPoint (Asm.mdbKernelSetSize (Asm.withView d mdb) w h) x l y
          = planePoint (mdbKernelSetSize mdb w h) (x + l) y)
      ↔ mdb.scale = 0 ∨ (w = h ∧ w < 2 ^ 31) := by
  constructor
  · intro hall
    refine or_iff_not_imp_left.mpr fun hscale => ?_
    have hh31 : h < 2 ^ 31 := by
      by_contra hbig
      exact Asm.asmPoint_row_ne d mdb hscale (not_lt.mp hbig) hh' 0 0
        (hall 0 0 1 (by rwa [Fin.val_zero]) (by omega))
    have hfirst := hall 0 0 0 (by rwa [Fin.val_zero]) (by omega)
    have hw31 : w < 2 ^ 31 := by
      by_contra hbig
      exact Asm.asmPoint_column_ne d mdb hscale hh31 (not_lt.mp hbig) hw' 0 hfirst
    have hsquare := (Asm.asmPoint_eq_planePoint_iff d mdb hw31 hh31 (by rwa [Fin.val_zero])
      (by omega)).mp hfirst
    exact ⟨hsquare.resolve_left hscale, hw31⟩
  · rintro (hscale | ⟨rfl, hw31⟩) x l y hx hy
    · rw [Asm.asmPoint_withView, Asm.planePoint_setSize, hscale]
      simp only [mul_zero]
    · exact (Asm.asmPoint_eq_planePoint_iff d mdb hw31 hw31 hx hy).mpr (Or.inr rfl)

/-- The theorem for the default view in a square frame of the default size, at the lane 3 of a
group. -/
theorem asm_same_point_default :
    Asm.asmPoint (Asm.mdbKernelSetSize
        (Asm.withView Asm.dataLoaded (mdbKernelInit mdbLoaded)) 1024 1024) 8 3 5
      = planePoint (mdbKernelSetSize (mdbKernelInit mdbLoaded) 1024 1024) (8 + 3) 5 :=
  (asm_same_point_iff Asm.dataLoaded (mdbKernelInit mdbLoaded) (by norm_num) (by norm_num)
    (by norm_num) (by norm_num)).mpr (Or.inr ⟨rfl, by norm_num⟩) 8 3 5 (by decide) (by norm_num)

/-- **The views differ**: with the default view in a frame of `1024 × 512` pixels already in the
first pixel. -/
theorem asm_point_differs :
    ¬ ∀ (d : Asm.Data) (mdb : MdbT) (w h : ℕ), 1 ≤ w → w < 2 ^ 32 → 1 ≤ h → h < 2 ^ 32 →
      ∀ (x : ℕ) (l : Fin 8) (y : ℕ), x + l < w → y < h →
        Asm.asmPoint (Asm.mdbKernelSetSize (Asm.withView d mdb) w h) x l y
          = planePoint (mdbKernelSetSize mdb w h) (x + l) y := by
  intro hall
  have hfirst := hall Asm.dataLoaded (mdbKernelInit mdbLoaded) 1024 512 (by norm_num) (by norm_num)
    (by norm_num) (by norm_num) 0 0 0 (by norm_num) (by norm_num)
  rw [Asm.asmPoint_eq_planePoint_iff _ _ (by norm_num) (by norm_num) (by norm_num) (by norm_num)]
    at hfirst
  have hscale : (mdbKernelInit mdbLoaded).scale ≠ 0 := by
    rw [mdbKernelInit]
    norm_num
  exact absurd (hfirst.resolve_left hscale) (by norm_num)

end SameView

end Mdb
