import Mdb.Kernel.Avx2
import Mdb.Kernel.Native

/-!
The kernel over the vector types of the compiler, `kernel_modules/mandelbrot/mdb_native_vec.c`.

* `nativeVecLoop_eq`: with either form of `vec8i_test_zero` its inner loop goes in step with the
  one of `mdb_native.c`;
* `nativeVec_block`: so it makes the stores of that kernel, as long as the bailout fits a lane;
* `lane_counts`: in all vector kernels a lane counts the leading iterations of its own orbit.
-/

namespace Mdb

open Escape

/-! ### Vectors -/

/-- `<` of two `vec8f`. -/
def vec8fLt (a b : Vec8f) : Vec8i := fun j => maskOf (a j < b j)

/-- `!=` of two `vec8i`. -/
def vec8iNe (a b : Vec8i) : Vec8i := fun j => maskOf (a j ≠ b j)

/-- `vec8i_test_zero`: the signs of the lanes where `__AVX__` is defined, and else the disjunction
of the lanes. -/
def vec8iTestZero (avx : Bool) (v : Vec8i) : ℤ :=
  if avx then mm256MovemaskPs fun j => (v j).msb
  else ((List.ofFn v).foldl (· ||| ·) 0).toInt

/-- `vec8i_cvt2f`. -/
def vec8iCvt2f (v : Vec8i) : Vec8f := fun j => ((v j).toInt : ℚ)

/-! ### The kernel -/

/-- The inner loop of `mdb_kernel_process_block`, with `r` iterations left: the lanes of `vi`
once it ends. -/
def nativeVecLoop (avx : Bool) (cx cy : Vec8f) : ℕ → Vec8f → Vec8f → Vec8i → Vec8i
  | 0, _, _, vi => vi
  | r + 1, zx, zy, vi =>
      let zx2 := zx * zx
      let zy2 := zy * zy
      let zxzy := zx * zy
      let zx := zx2 - zy2 + cx
      let zy := zxzy + zxzy + cy
      let zx2 := zx * zx
      let zy2 := zy * zy
      let mag2 := zx2 + zy2
      let mask := vec8fLt mag2 (vec8fSet1S 4)
      let m := vec8iTestZero avx mask
      if m ≠ 0 then
        let addMask := vec8iAndV (vec8iSet1S 1) mask
        nativeVecLoop avx cx cy r zx zy (vi + addMask)
      else vi

/-- What the kernel stores for the eight plane points `(cx, cy)`. -/
def nativeVecColor (avx : Bool) (bailout : ℕ) (cx cy : Vec8f) : Vec8f :=
  let vi := nativeVecLoop avx cx cy bailout cx cy (vec8iSet1S 0)
  let mask := vec8iNe vi (vec8iSet1S (BitVec.ofNat 32 bailout))
  let vi := vec8iAndV vi mask
  vec8iCvt2f vi / vec8fSet1S bailout

/-- `cy` in the row `y`. -/
def nativeVecCy (mdb : MdbT) (y : ℕ) : Vec8f :=
  let cy := vec8fSet1S y
  let cy := cy * vec8fSet1S mdb.heightR
  let cy := cy + vec8fSet1S (-1 / 2)
  let cy := cy * vec8fSet1S mdb.scale
  cy + vec8fSet1S mdb.shiftY

/-- `cx` for the group of pixels that starts in the column `x`, which is a `float` before the lane
is added to it. -/
def nativeVecCx (mdb : MdbT) (x : ℕ) : Vec8f :=
  let cx := vec8fSetS (x + 0) (x + 1) (x + 2) (x + 3) (x + 4) (x + 5) (x + 6) (x + 7)
  let cx := cx * vec8fSet1S mdb.widthR
  let cx := cx * vec8fSet1S mdb.aspectRatio
  let cx := cx + vec8fSet1S (-1 / 2)
  let cx := cx * vec8fSet1S mdb.scale
  cx + vec8fSet1S mdb.shiftX

/-- `mdb_kernel_process_block` of `mdb_native_vec.c`. -/
def mdbNativeVecProcessBlock (avx : Bool) (mdb : MdbT) (t : RschedTask) :
    Option (List (PixelStore ℚ)) :=
  blockLoops (countTo t.y0 t.y1 1) (countTo t.x0 t.x1 8) fun y x =>
    surfaceSetPixels mdb.surf x y 8
      (lanePixels (nativeVecColor avx mdb.bailout (nativeVecCx mdb x) (nativeVecCy mdb y)))

/-! ### The inner loop -/

/-- A disjunction of words is zero exactly if all of them are. -/
lemma foldl_or_eq_zero_iff {l : List (BitVec 32)} : ∀ {m : BitVec 32},
    l.foldl (· ||| ·) m = 0#32 ↔ m = 0#32 ∧ ∀ x ∈ l, x = 0#32 := by
  induction l with
  | nil => simp
  | cons x l ih =>
      intro m
      rw [List.foldl_cons, ih, BitVec.or_eq_zero_iff, List.forall_mem_cons, and_assoc]

/-- Both forms of the test see whether a lane of a mask is set. -/
lemma vec8iTestZero_ne_zero_iff {avx : Bool} {p : Fin 8 → Bool} :
    vec8iTestZero avx (fun j => maskOf (p j)) ≠ 0 ↔ ∃ j, p j = true := by
  cases avx with
  | true =>
      have hmsb : ∀ b, (maskOf b).msb = b := by decide
      rw [vec8iTestZero, if_pos rfl, Int.natCast_ne_zero, mm256MovemaskPs_ne_zero_iff]
      simp only [hmsb]
  | false =>
      have hzero : ∀ b, maskOf b = 0#32 ↔ b = false := by decide
      rw [vec8iTestZero, if_neg Bool.false_ne_true, ← BitVec.toInt_zero, Ne, BitVec.toInt_inj,
        foldl_or_eq_zero_iff, List.forall_mem_ofFn_iff,
        and_iff_right (show (0 : BitVec 32) = 0#32 from rfl)]
      simp only [hzero, not_forall, Bool.not_eq_false]

/-- **The loop goes in step with the one of `mdb_native.c`**, whichever form of the test it
uses. -/
lemma nativeVecLoop_eq {avx : Bool} {cx cy : Vec8f} {r : ℕ} : ∀ {zx zy : Vec8f} {vi : Vec8i},
    nativeVecLoop avx cx cy r zx zy vi = nativeLoop cx cy r zx zy vi := by
  induction r with
  | zero => exact rfl
  | succ r ih =>
      intro zx zy vi
      set zx' : Vec8f := zx * zx - zy * zy + cx with hzx
      set zy' : Vec8f := zx * zy + zx * zy + cy with hzy
      set inside : Fin 8 → Bool := fun j => (zx' * zx' + zy' * zy') j < 4 with hinside
      set mask : Vec8i := fun j => maskOf (inside j) with hmask
      have hround : nativeVecLoop avx cx cy (r + 1) zx zy vi
          = if vec8iTestZero avx mask ≠ 0
            then nativeVecLoop avx cx cy r zx' zy' (vi + vec8iAndV (vec8iSet1S 1) mask)
            else vi := rfl
      have hround' : nativeLoop cx cy (r + 1) zx zy vi
          = if (!vec8iTestZf mask) = true
            then nativeLoop cx cy r zx' zy' (vec8iAddMaskS vi mask 1)
            else vi := rfl
      have htest : vec8iTestZero avx mask ≠ 0 ↔ (!vec8iTestZf mask) = true := by
        rw [vec8iTestZero_ne_zero_iff, not_vec8iTestZf_iff]
        exact exists_congr fun j => maskOf_ne_zero_iff.symm
      have hadd : vi + vec8iAndV (vec8iSet1S 1) mask = vec8iAddMaskS vi mask 1 := by
        have hlane : ∀ b, 1 &&& maskOf b = if maskOf b ≠ 0 then 1 else 0 := by decide
        exact funext fun j => congrArg (vi j + ·) (hlane (inside j))
      rw [hround, hround', ih, hadd]
      exact if_congr htest rfl rfl

/-- A lane holds a count, as the two's complement that an `int32_t` has room for. -/
def HoldsCount (vi : BitVec 32) (n : ℕ) : Prop :=
  vi = BitVec.ofNat 32 n ∧ (n < 2 ^ 31 → vi.toInt = n)

/-- **A lane of any vector kernel counts for itself**: whatever points the other lanes hold, it has
counted the leading iterations of its own orbit. -/
theorem lane_counts (avx : Bool) (cx cy : Fin 8 → ℚ) (bailout : ℕ) (l : Fin 8) :
    HoldsCount (nativeLoop cx cy bailout cx cy (vec8iSet1S 0) l)
        (leading (insideOpen (cx l, cy l)) bailout) ∧
      HoldsCount (nativeVecLoop avx cx cy bailout cx cy (vec8iSet1S 0) l)
        (leading (insideOpen (cx l, cy l)) bailout) ∧
      avx2PointProbe cx cy bailout l = leading (insideOpen (cx l, cy l)) bailout := by
  have hnative : HoldsCount (nativeLoop cx cy bailout cx cy (vec8iSet1S 0) l)
      (leading (insideOpen (cx l, cy l)) bailout) :=
    ⟨nativeLoop_eq cx cy bailout l, fun h => by rw [nativeLoop_eq, toInt_ofNat_of_lt h]⟩
  refine ⟨hnative, ?_, avx2PointProbe_eq cx cy bailout l⟩
  rw [nativeVecLoop_eq]
  exact hnative

/-- The orbit of the origin stays there. -/
lemma leading_origin (b : ℕ) : leading (insideOpen ((0, 0) : ℚ × ℚ)) b = b := by
  have horbit : ∀ k, iter ((0, 0) : ℚ × ℚ) k = (0, 0) := by
    intro k
    induction k with
    | zero => rfl
    | succ k ih =>
        rw [iter_succ, ih]
        norm_num [quad]
  refine leading_eq le_rfl (fun i _ => ?_) fun h => absurd h (lt_irrefl b)
  rw [insideOpen_iff, horbit]
  norm_num [nsq]

/-- **A lane can turn negative**: an `int32_t` has no room for `2 ^ 31` iterations, which a
`uint32_t` bailout allows. -/
theorem lane_count_wraps :
    ¬ ∀ (cx cy : Fin 8 → ℚ) (bailout : ℕ), 1 ≤ bailout → bailout < 2 ^ 32 → ∀ l,
      (nativeLoop cx cy bailout cx cy (vec8iSet1S 0) l).toInt
        = leading (insideOpen (cx l, cy l)) bailout := by
  intro h
  have hlane := h (fun _ => 0) (fun _ => 0) (2 ^ 31) (by norm_num) (by norm_num) 0
  rw [nativeLoop_eq, leading_origin] at hlane
  exact absurd hlane (by decide)

/-! ### A block -/

/-- The colours of a group: the counters are compared with the bailout before they are converted,
which makes no difference as long as a lane has room for it. -/
lemma nativeVecColor_eq {avx : Bool} {cx cy : Vec8f} {bailout : ℕ} (hb : bailout < 2 ^ 31) :
    nativeVecColor avx bailout cx cy = nativeColor bailout cx cy := by
  have hmask : ∀ vi : Vec8i,
      vec8iNe vi (vec8iSet1S (BitVec.ofNat 32 bailout)) = vec8iNeMaskS vi bailout := by
    intro vi
    funext j
    have hiff : vi j ≠ BitVec.ofNat 32 bailout ↔ ((vi j).toInt : ℚ) ≠ bailout := by
      rw [not_iff_not, ← BitVec.toInt_inj, toInt_ofNat_of_lt hb]
      exact_mod_cast Iff.rfl
    exact congrArg maskOf (decide_eq_decide.mpr hiff)
  rw [nativeVecColor, nativeColor, nativeVecLoop_eq]
  simp only [hmask]
  rfl

/-- The plane points of a group: the columns are added as `float` where the other kernel adds them
as `uint32_t`. -/
lemma nativeVecCx_eq (mdb : MdbT) {x : ℕ} (hx : x + 7 < 2 ^ 32) :
    nativeVecCx mdb x = nativeCx mdb x := by
  funext l
  have hcol : vec8fSetS (x + 0) (x + 1) (x + 2) (x + 3) (x + 4) (x + 5) (x + 6) (x + 7) l
      = ((x + l : ℕ) : ℚ) := by
    rw [vec8fSetS, Nat.cast_add]
    fin_cases l <;> rfl
  have hcol' := vec8fSetS_columns hx l
  simp only [nativeVecCx, nativeCx, vec8fMulV, vec8fAddV, vec8fOpV, Pi.add_apply, Pi.mul_apply,
    hcol, hcol']

/-- **The kernel makes the stores of `mdb_native.c`** as long as a lane has room for the bailout and
the columns for the last group. -/
theorem nativeVec_block (avx : Bool) (mdb : MdbT) (t : RschedTask) (hb : mdb.bailout < 2 ^ 31)
    (hx : t.x1 + 8 < 2 ^ 32) :
    mdbNativeVecProcessBlock avx mdb t = mdbNativeProcessBlock mdb t := by
  obtain ⟨xs, hxs, hmem⟩ := countTo_spec (a := t.x0) (b := t.x1) (s := 8) (by norm_num) hx
  have hcy : ∀ y, nativeVecCy mdb y = nativeCy mdb y := fun y => rfl
  rw [mdbNativeVecProcessBlock, mdbNativeProcessBlock, hxs]
  refine blockLoops_congr fun y x hxmem => ?_
  have hle := ((hmem x).mp hxmem).2.1
  rw [nativeVecColor_eq hb, nativeVecCx_eq mdb (by omega), hcy]

end Mdb
