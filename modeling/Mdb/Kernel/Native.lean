import Mdb.Kernel.Generic
import Mdb.Kernel.Lanes

/-!
The vector kernel, `kernel_modules/mandelbrot/mdb_native.c`.

* `nativeLoop_eq`: the inner loop leaves in every lane the number of leading iterations that leave
  its own point in the open disc of radius two, whatever points the other lanes hold;
* `native_frame`: the whole frame holds the colours of those counts;
* `scalar_eq_vector_iff`: a lane and the default kernel agree on a point unless its orbit meets
  the circle of radius two or the counter of the lane wraps.
-/

namespace Mdb

open Escape

/-! ### Vectors -/

/-- The `float` lanes of `struct vec8`. -/
abbrev Vec8f := Fin 8 → ℚ

/-- The `int32_t` lanes of `struct vec8`. -/
abbrev Vec8i := Fin 8 → BitVec 32

/-- `VEC8F_OP_BI_V` and `VEC8F_OP3_BI_V`. -/
def vec8fOpV (op : ℚ → ℚ → ℚ) (a b : Vec8f) : Vec8f := fun j => op (a j) (b j)

/-- `VEC8F_OP_BI_S`. -/
def vec8fOpS (op : ℚ → ℚ → ℚ) (a : Vec8f) (b : ℚ) : Vec8f := fun j => op (a j) b

/-- `vec8f_set1_s`. -/
def vec8fSet1S (s : ℚ) : Vec8f := fun _ => s

/-- `vec8i_set1_s`. -/
def vec8iSet1S (s : BitVec 32) : Vec8i := fun _ => s

/-- `vec8f_set_s`. -/
def vec8fSetS (s0 s1 s2 s3 s4 s5 s6 s7 : ℚ) : Vec8f := ![s0, s1, s2, s3, s4, s5, s6, s7]

/-- `vec8f_mul2_v`, `vec8f_mul3_v`. -/
def vec8fMulV : Vec8f → Vec8f → Vec8f := vec8fOpV (· * ·)

/-- `vec8f_add2_v`, `vec8f_add3_v`. -/
def vec8fAddV : Vec8f → Vec8f → Vec8f := vec8fOpV (· + ·)

/-- `vec8f_sub3_v`. -/
def vec8fSubV : Vec8f → Vec8f → Vec8f := vec8fOpV (· - ·)

/-- `vec8f_div2_s`. -/
def vec8fDivS : Vec8f → ℚ → Vec8f := vec8fOpS (· / ·)

/-- The mask `-(b)` of a comparison. -/
def maskOf (b : Bool) : BitVec 32 := -(BitVec.ofNat 32 b.toNat)

/-- `vec8f_lt3_mask_s`. -/
def vec8fLtMaskS (a : Vec8f) (b : ℚ) : Vec8i := fun j => maskOf (a j < b)

/-- `vec8i_ne3_mask_s`: the lane is converted to `float` for the comparison. -/
def vec8iNeMaskS (a : Vec8i) (b : ℚ) : Vec8i := fun j => maskOf (((a j).toInt : ℚ) ≠ b)

/-- `vec8i_test_zf`: the disjunction of the lanes is zero, that is every lane is. -/
def vec8iTestZf (v : Vec8i) : Bool := (List.ofFn v).all (· == 0)

/-- `vec8i_add2_mask_s`. -/
def vec8iAddMaskS (a mask : Vec8i) (i : BitVec 32) : Vec8i :=
  fun j => a j + if mask j ≠ 0 then i else 0

/-- `vec8i_and2_v`. -/
def vec8iAndV (a b : Vec8i) : Vec8i := fun j => a j &&& b j

/-- `vec8i_cvt2_vec8f`. -/
def vec8iCvtVec8f (v : Vec8i) : Vec8f := fun j => ((v j).toInt : ℚ)

/-! ### The kernel -/

/-- The inner loop of `mdb_kernel_process_block`, with `r` iterations left: the lanes of `vi`
once it ends. -/
def nativeLoop (cx cy : Vec8f) : ℕ → Vec8f → Vec8f → Vec8i → Vec8i
  | 0, _, _, vi => vi
  | r + 1, zx, zy, vi =>
      let zx2 := vec8fMulV zx zx
      let zy2 := vec8fMulV zy zy
      let zxzy := vec8fMulV zx zy
      let zx := vec8fSubV zx2 zy2
      let zx := vec8fAddV zx cx
      let zy := vec8fAddV zxzy zxzy
      let zy := vec8fAddV zy cy
      let zx2 := vec8fMulV zx zx
      let zy2 := vec8fMulV zy zy
      let mag2 := vec8fAddV zx2 zy2
      let mask := vec8fLtMaskS mag2 4
      if !vec8iTestZf mask then nativeLoop cx cy r zx zy (vec8iAddMaskS vi mask 1) else vi

/-- What the kernel stores for the eight plane points `(cx, cy)`. -/
def nativeColor (bailout : ℕ) (cx cy : Vec8f) : Vec8f :=
  let vi := nativeLoop cx cy bailout cx cy (vec8iSet1S 0)
  let mask := vec8iNeMaskS vi bailout
  let vi := vec8iAndV vi mask
  vec8fDivS (vec8iCvtVec8f vi) bailout

/-- `cy` in the row `y`. -/
def nativeCy (mdb : MdbT) (y : ℕ) : Vec8f :=
  let cy := vec8fSet1S y
  let cy := vec8fMulV cy (vec8fSet1S mdb.heightR)
  let cy := vec8fAddV cy (vec8fSet1S (-1 / 2))
  let cy := vec8fMulV cy (vec8fSet1S mdb.scale)
  vec8fAddV cy (vec8fSet1S mdb.shiftY)

/-- `cx` for the group of pixels that starts in the column `x`. -/
def nativeCx (mdb : MdbT) (x : ℕ) : Vec8f :=
  let cx := vec8fSetS (u32 (x + 0)) (u32 (x + 1)) (u32 (x + 2)) (u32 (x + 3))
    (u32 (x + 4)) (u32 (x + 5)) (u32 (x + 6)) (u32 (x + 7))
  let cx := vec8fMulV cx (vec8fSet1S mdb.widthR)
  let cx := vec8fMulV cx (vec8fSet1S mdb.aspectRatio)
  let cx := vec8fAddV cx (vec8fSet1S (-1 / 2))
  let cx := vec8fMulV cx (vec8fSet1S mdb.scale)
  vec8fAddV cx (vec8fSet1S mdb.shiftX)

/-- `mdb_kernel_process_block` of `mdb_native.c`. -/
def mdbNativeProcessBlock (mdb : MdbT) (t : RschedTask) : Option (List (PixelStore ℚ)) :=
  blockLoops (countTo t.y0 t.y1 1) (countTo t.x0 t.x1 8) fun y x =>
    surfaceSetPixels mdb.surf x y 8
      (lanePixels (nativeColor mdb.bailout (nativeCx mdb x) (nativeCy mdb y)))

/-! ### The inner loop -/

@[simp] lemma maskOf_true : maskOf true = BitVec.allOnes 32 := by decide

@[simp] lemma maskOf_false : maskOf false = 0#32 := by decide

lemma maskOf_ne_zero_iff {b : Bool} : maskOf b ≠ 0 ↔ b = true := by
  cases b <;> decide

/-- The test finds a lane exactly when some lane is not zero. -/
lemma not_vec8iTestZf_iff {v : Vec8i} : (!vec8iTestZf v) = true ↔ ∃ j, v j ≠ 0 := by
  rw [vec8iTestZf, Bool.not_eq_true', List.all_eq_false]
  constructor
  · rintro ⟨x, hx, hne⟩
    obtain ⟨j, rfl⟩ := List.mem_ofFn.mp hx
    exact ⟨j, fun h => hne (beq_iff_eq.mpr h)⟩
  · rintro ⟨j, hj⟩
    exact ⟨v j, List.mem_ofFn.mpr ⟨j, rfl⟩, fun h => hj (beq_iff_eq.mp h)⟩

/-- The vector loop steps every lane with its own quadratic map and counts the rounds that end
in the open disc. -/
lemma nativeLoop_eq_laneLoop {cx cy : Vec8f} {r : ℕ} : ∀ {zx zy : Vec8f} {vi : Vec8i},
    nativeLoop cx cy r zx zy vi
      = laneLoop (fun l => quad (cx l, cy l)) (fun z => nsq z < 4) (· + 1) r
          (fun l => (zx l, zy l)) vi := by
  induction r with
  | zero => exact rfl
  | succ r ih =>
      intro zx zy vi
      set z' : Fin 8 → ℚ × ℚ := fun l => quad (cx l, cy l) (zx l, zy l) with hz'
      set mask : Vec8i := fun l => maskOf (nsq (z' l) < 4) with hmask
      have hround : nativeLoop cx cy (r + 1) zx zy vi
          = if (!vec8iTestZf mask) = true
            then nativeLoop cx cy r (fun l => (z' l).1) (fun l => (z' l).2)
              (vec8iAddMaskS vi mask 1)
            else vi := rfl
      have hany : (!vec8iTestZf mask) = true ↔ ∃ l, decide (nsq (z' l) < 4) = true := by
        rw [not_vec8iTestZf_iff]
        exact exists_congr fun l => maskOf_ne_zero_iff
      have hcount : vec8iAddMaskS vi mask 1
          = fun l => if decide (nsq (z' l) < 4) = true then vi l + 1 else vi l := by
        funext l
        rw [vec8iAddMaskS, hmask]
        by_cases hl : nsq (z' l) < 4
        · simp [hl]
        · simp [hl]
      rw [hround, laneLoop, ih, hcount]
      simp only [hany, hz', Prod.mk.eta]

/-- **The vector loop counts the leading iterations inside the open disc**, in every lane for
itself. -/
theorem nativeLoop_eq (cx cy : Vec8f) (bailout : ℕ) (l : Fin 8) :
    nativeLoop cx cy bailout cx cy (vec8iSet1S 0) l
      = BitVec.ofNat 32 (leading (insideOpen (cx l, cy l)) bailout) := by
  have hcount : ∀ m : ℕ, (fun n : BitVec 32 => n + 1)^[m] 0 = BitVec.ofNat 32 m := by
    intro m
    induction m with
    | zero => rfl
    | succ m ih =>
        rw [Function.iterate_succ_apply', ih, BitVec.ofNat_add]
        rfl
  rw [nativeLoop_eq_laneLoop, ← hcount]
  exact count_of_lanes (fun l => (cx l, cy l)) _ 0 bailout l

/-- The colour of a lane, by the value its counter holds. -/
lemma nativeColor_eq (cx cy : Vec8f) (bailout : ℕ) (l : Fin 8) :
    nativeColor bailout cx cy l
      = let n := (BitVec.ofNat 32 (leading (insideOpen (cx l, cy l)) bailout)).toInt
        (if (n : ℚ) = bailout then (0 : ℚ) else n) / bailout := by
  have hand : ∀ (x : BitVec 32) (p : Prop) [Decidable p],
      ((x &&& maskOf (decide (¬ p))).toInt : ℚ) = if p then 0 else (x.toInt : ℚ) := by
    intro x p _
    by_cases hp : p
    · rw [if_pos hp, decide_eq_false (not_not.mpr hp), maskOf_false, BitVec.and_zero]
      rfl
    · rw [if_neg hp, decide_eq_true hp, maskOf_true, BitVec.and_allOnes]
  have hlane : nativeColor bailout cx cy l
      = ((nativeLoop cx cy bailout cx cy (vec8iSet1S 0) l &&&
          maskOf (decide (¬ (((nativeLoop cx cy bailout cx cy (vec8iSet1S 0) l).toInt : ℚ)
            = bailout)))).toInt : ℚ) / bailout := rfl
  rw [hlane, hand, nativeLoop_eq]

/-- A count below `2 ^ 31` is what an `int32_t` lane holds. -/
lemma toInt_ofNat_of_lt {m : ℕ} (h : m < 2 ^ 31) : (BitVec.ofNat 32 m).toInt = m := by
  have hnat : (BitVec.ofNat 32 m).toNat = m := by
    rw [BitVec.toNat_ofNat]
    exact Nat.mod_eq_of_lt (by omega)
  rw [BitVec.toInt_eq_toNat_of_lt (by omega), hnat]

lemma nativeColor_eq_pixelValue (cx cy : Vec8f) {bailout : ℕ} (l : Fin 8)
    (h : leading (insideOpen (cx l, cy l)) bailout < 2 ^ 31) :
    nativeColor bailout cx cy l
      = pixelValue (leading (insideOpen (cx l, cy l)) bailout) bailout := by
  rw [nativeColor_eq, toInt_ofNat_of_lt h, pixelValue]
  simp only [Int.cast_natCast, Nat.cast_inj, Nat.cast_ite, Nat.cast_zero]

/-! ### A block and a frame -/

/-- The columns of a group. -/
lemma vec8fSetS_columns {x : ℕ} (hx : x + 7 < 2 ^ 32) (l : Fin 8) :
    vec8fSetS (u32 (x + 0)) (u32 (x + 1)) (u32 (x + 2)) (u32 (x + 3)) (u32 (x + 4)) (u32 (x + 5))
      (u32 (x + 6)) (u32 (x + 7)) l = ((x + l : ℕ) : ℚ) := by
  have hu : ∀ k ≤ 7, u32 (x + k) = x + k := fun k hk => u32_of_lt (by omega)
  simp only [vec8fSetS, hu _ (by norm_num : 0 ≤ 7), hu _ (by norm_num : 1 ≤ 7),
    hu _ (by norm_num : 2 ≤ 7), hu _ (by norm_num : 3 ≤ 7), hu _ (by norm_num : 4 ≤ 7),
    hu _ (by norm_num : 5 ≤ 7), hu _ (by norm_num : 6 ≤ 7), hu _ le_rfl]
  fin_cases l <;> rfl

/-- The plane points of a group. -/
lemma nativePoint_eq (mdb : MdbT) {x : ℕ} (hx : x + 7 < 2 ^ 32) (y : ℕ) (l : Fin 8) :
    (nativeCx mdb x l, nativeCy mdb y l) = planePoint mdb (x + l) y := by
  have hcol := vec8fSetS_columns hx l
  simp only [nativeCx, nativeCy, vec8fMulV, vec8fAddV, vec8fOpV, vec8fSet1S, hcol, planePoint]

/-- The stores of a block inside the frame: the pixels of its groups of eight that lie in the
frame. -/
lemma native_block (args : FrameArgs) (mdb : MdbT) (hb : mdb.bailout < 2 ^ 31) {t : RschedTask}
    (hx : t.x1 < args.width) (hy : t.y1 < args.height) :
    ∃ st, mdbNativeProcessBlock (frameSetup mdb args) t = some st ∧
      ∀ s, s ∈ st ↔ ∃ x, (t.x0 ≤ x ∧ x ≤ t.x1 ∧ 8 ∣ x - t.x0) ∧
        ∃ y, (t.y0 ≤ y ∧ y ≤ t.y1) ∧ ∃ k < 8, x + k < args.width ∧
        s = (y * args.width + (x + k), vectorPixel (frameSetup mdb args) (x + k) y) := by
  have hw := args.width_le
  set mdb' := frameSetup mdb args with hmdb'
  have hcolor : ∀ y x (k : Fin 8), x < args.width →
      nativeColor mdb'.bailout (nativeCx mdb' x) (nativeCy mdb' y) k
        = vectorPixel mdb' (x + k) y := by
    intro y x k hlt
    have hb' : mdb'.bailout < 2 ^ 31 := hb
    rw [nativeColor_eq_pixelValue _ _ _ (lt_of_le_of_lt (leading_le _ _) hb'),
      nativePoint_eq mdb' (by omega), vectorPixel]
  exact laneBlock_countTo args (vectorPixel mdb') hx hy fun y x k _ => hcolor y x k

/-- **A frame of the vector kernel is right.** For a bailout that an `int32_t` lane holds, the
tasks of the frame, run in any order with any repetition, store inside the buffer and leave on
every pixel the number of leading iterations inside the open disc over the bailout, `0` where
that is all of them. -/
theorem native_frame (args : FrameArgs) (mdb : MdbT) (hb : mdb.bailout < 2 ^ 31)
    (data : ℕ → ℚ) :
    ∃ pushed, splitTasks 0 (u32Pred args.width) 0 (u32Pred args.height) args.blockSize
        = some pushed ∧
      ∀ ts, (∀ t, t ∈ ts ↔ t ∈ pushed) →
        ∃ st, runTasks (mdbNativeProcessBlock (frameSetup mdb args)) ts = some st ∧
          (∀ s ∈ st, s.1 < args.width * args.height) ∧
          ∀ x y, x < args.width → y < args.height →
            StoreTrace.applyStores data st (y * args.width + x)
              = pixelValue (leading (insideOpen (planePoint (frameSetup mdb args) x y))
                  mdb.bailout) mdb.bailout := by
  exact ⟨args.frameTasks, args.splitTasks_frame, fun ts hts =>
    laneFrame_correct args (vectorPixel (frameSetup mdb args))
      (fun t _ hx _ hy => native_block args mdb hb hx hy) hts data⟩

/-- The theorem at the default sizes, with the kernel as `mdb_kernel_init` leaves it. -/
theorem native_frame_default :
    ∃ pushed, splitTasks 0 (u32Pred 1024) 0 (u32Pred 1024) ⟨32, 32⟩ = some pushed ∧
      ∀ ts, (∀ t, t ∈ ts ↔ t ∈ pushed) →
        ∃ st, runTasks (mdbNativeProcessBlock
            (frameSetup (mdbKernelInit mdbLoaded) defaultArgs)) ts = some st ∧
          (∀ s ∈ st, s.1 < 1024 * 1024) ∧
          ∀ x y, x < 1024 → y < 1024 →
            StoreTrace.applyStores (fun _ => 0) st (y * 1024 + x)
              = pixelValue (leading (insideOpen (planePoint
                  (frameSetup (mdbKernelInit mdbLoaded) defaultArgs) x y)) 256) 256 :=
  native_frame defaultArgs (mdbKernelInit mdbLoaded) (show 256 < 2 ^ 31 by norm_num) fun _ => 0

/-! ### The scalar and the vector kernel -/

section Agreement

variable {c : ℚ × ℚ} {b : ℕ}

/-- The orbit of `c` avoids the circle of radius two for `b` iterations, or stays on it. -/
def AvoidsCircle (c : ℚ × ℚ) (b : ℕ) : Prop :=
  (∀ i < b, nsq (iter c (i + 1)) ≠ 4) ∨ ∀ i < b, nsq (iter c (i + 1)) = 4

/-- A lane that counts the iterations of `c` does not wrap: it has room for the bailout, or the
orbit leaves the disc before the counter is full. -/
def CounterFits (c : ℚ × ℚ) (b : ℕ) : Prop :=
  b < 2 ^ 31 ∨ ∃ i < 2 ^ 31, 4 ≤ nsq (iter c (i + 1))

lemma leading_open_le_closed : leading (insideOpen c) b ≤ leading (insideClosed c) b := by
  by_contra hlt
  rw [not_le] at hlt
  have hat := leading_at (p := insideClosed c) (b := b)
    (lt_of_lt_of_le hlt (leading_le _ _))
  have hin := insideOpen_iff.mp (of_lt_leading hlt)
  exact absurd (insideClosed_eq_false_iff.mp hat) (not_lt.mpr hin.le)

/-- The counter of the lane holds the count exactly when it fits. -/
lemma leading_lt_iff_counterFits (hb : b < 2 ^ 32) :
    leading (insideOpen c) b < 2 ^ 31 ↔ CounterFits c b := by
  have hle := leading_le (insideOpen c) b
  constructor
  · intro hlt
    by_cases hfull : b < 2 ^ 31
    · exact Or.inl hfull
    · exact Or.inr ⟨_, hlt, insideOpen_eq_false_iff.mp (leading_at (by omega))⟩
  · rintro (hlt | ⟨i, hi, hout⟩)
    · omega
    · by_contra hge
      have hin := insideOpen_iff.mp (of_lt_leading (p := insideOpen c) (b := b) (i := i) (by omega))
      exact absurd hout (not_le.mpr hin)

/-- The counts of the two discs give one colour exactly when the orbit avoids the circle. -/
lemma counts_agree_iff :
    (if leading (insideOpen c) b = b then 0 else leading (insideOpen c) b)
        = (if leading (insideClosed c) b = b then 0 else leading (insideClosed c) b)
      ↔ AvoidsCircle c b := by
  have hle := leading_open_le_closed (c := c) (b := b)
  have hlec := leading_le (insideClosed c) b
  constructor
  · intro heq
    by_cases hsame : leading (insideOpen c) b = leading (insideClosed c) b
    · -- below the common count the orbit is in the open disc, from it on outside the closed one
      left
      intro i hi hon
      by_cases hlt : i < leading (insideOpen c) b
      · exact absurd (insideOpen_iff.mp (of_lt_leading hlt)) (by rw [hon]; exact lt_irrefl _)
      · have hat := insideClosed_eq_false_iff.mp (leading_at (p := insideClosed c) (b := b)
          (by omega))
        have hmono := nsq_iter_mono hat.le
          (show leading (insideClosed c) b + 1 ≤ i + 1 by omega)
        rw [hon] at hmono
        exact absurd hat (not_lt.mpr hmono)
    · -- the open count is zero and the closed one is the bailout
      have hclosed : leading (insideClosed c) b = b := by
        by_contra hne
        rw [if_neg hne, if_neg (by omega)] at heq
        exact hsame heq
      have hopen : leading (insideOpen c) b = 0 := by
        rw [if_neg (by omega), if_pos hclosed] at heq
        exact heq
      right
      intro i hi
      have hin := insideClosed_iff.mp (of_lt_leading (p := insideClosed c) (b := b) (i := i)
        (by omega))
      have hat := insideOpen_eq_false_iff.mp (leading_at (p := insideOpen c) (b := b) (by omega))
      rw [hopen] at hat
      exact le_antisymm hin (hat.trans (nsq_iter_mono hat (by omega)))
  · rintro (hoff | hon)
    · have hsame : leading (insideOpen c) b = leading (insideClosed c) b := by
        refine leading_eq hlec (fun i hi => ?_) fun hlt => ?_
        · have hin := insideClosed_iff.mp (of_lt_leading hi)
          exact insideOpen_iff.mpr (lt_of_le_of_ne hin (hoff i (by omega)))
        · exact insideOpen_eq_false_iff.mpr (insideClosed_eq_false_iff.mp (leading_at hlt)).le
      rw [hsame]
    · have hclosed : leading (insideClosed c) b = b :=
        leading_eq le_rfl (fun i hi => insideClosed_iff.mpr (hon i hi).le)
          fun h => absurd h (lt_irrefl b)
      have hopen : leading (insideOpen c) b = 0 :=
        leading_eq (Nat.zero_le b) (fun i hi => absurd hi (Nat.not_lt_zero i))
          fun h => insideOpen_eq_false_iff.mpr (hon 0 h).ge
      rw [hclosed, hopen, if_pos rfl, ite_self]

end Agreement

/-- A lane whose counter has wrapped holds a negative number. -/
lemma toInt_ofNat_neg {m : ℕ} (h₁ : 2 ^ 31 ≤ m) (h₂ : m < 2 ^ 32) :
    (BitVec.ofNat 32 m).toInt < 0 := by
  have hnat : (BitVec.ofNat 32 m).toNat = m := by
    rw [BitVec.toNat_ofNat]
    exact Nat.mod_eq_of_lt h₂
  rw [BitVec.toInt_eq_toNat_cond, if_neg (by omega), hnat]
  omega

lemma pixelValue_inj {m k b : ℕ} (hb : 0 < b) :
    pixelValue m b = pixelValue k b ↔
      (if m = b then 0 else m) = (if k = b then 0 else k) := by
  have hb' : (b : ℚ) ≠ 0 := Nat.cast_ne_zero.mpr (by omega)
  rw [pixelValue, pixelValue, div_left_inj' hb', Nat.cast_inj]

/-- **When the two kernels agree.** A lane of the vector kernel stores what the default kernel
stores for its point exactly when the orbit of the point avoids the circle of radius two, or stays
on it, and the counter of the lane does not wrap; the other seven lanes play no part. -/
theorem scalar_eq_vector_iff (bailout : ℕ) (h₁ : 1 ≤ bailout) (h₂ : bailout < 2 ^ 32)
    (cx cy : Vec8f) (l : Fin 8) :
    genericColor bailout (cx l) (cy l) = nativeColor bailout cx cy l ↔
      AvoidsCircle (cx l, cy l) bailout ∧ CounterFits (cx l, cy l) bailout := by
  set c : ℚ × ℚ := (cx l, cy l) with hc
  have hscalar : genericColor bailout (cx l) (cy l)
      = pixelValue (leading (insideClosed c) bailout) bailout := genericColor_eq c bailout
  rw [hscalar, ← leading_lt_iff_counterFits h₂]
  by_cases hfits : leading (insideOpen c) bailout < 2 ^ 31
  · rw [nativeColor_eq_pixelValue cx cy l hfits, pixelValue_inj h₁, eq_comm, counts_agree_iff]
    exact (and_iff_left hfits).symm
  · refine iff_of_false (fun heq => ?_) fun h => hfits h.2
    -- the wrapped counter is negative, and the colour of the scalar kernel is not
    have hneg := toInt_ofNat_neg (not_lt.mp hfits) (lt_of_le_of_lt (leading_le _ _) h₂)
    have hpos : (0 : ℚ) < bailout := Nat.cast_pos.mpr h₁
    have hscalar_nonneg : 0 ≤ pixelValue (leading (insideClosed c) bailout) bailout :=
      div_nonneg (Nat.cast_nonneg _) hpos.le
    have hvector_neg : nativeColor bailout cx cy l < 0 := by
      have hlt : ((BitVec.ofNat 32 (leading (insideOpen c) bailout)).toInt : ℚ) < 0 := by
        exact_mod_cast hneg
      rw [nativeColor_eq]
      dsimp only
      rw [if_neg (ne_of_lt (hlt.trans hpos))]
      exact div_neg_of_neg_of_pos hlt hpos
    rw [heq] at hscalar_nonneg
    exact absurd hvector_neg (not_lt.mpr hscalar_nonneg)

/-- The theorem for the third of eight points `(j / 4, 1 / 2)`, whose orbit avoids the circle for
six iterations and is outside from the fourth on. -/
theorem scalar_eq_vector_third :
    genericColor 6 (1 / 2) (1 / 2) = nativeColor 6 (fun j => j.val / 4) (fun _ => 1 / 2) 2 ∧
      genericColor 6 (1 / 2) (1 / 2) = 1 / 2 := by
  have h := (scalar_eq_vector_iff 6 (by norm_num) (by norm_num) (fun j => j.val / 4)
    (fun _ => 1 / 2) 2).mpr ⟨Or.inl (by decide +kernel), Or.inl (by norm_num)⟩
  have hlane : (((2 : Fin 8).val : ℚ) / 4) = 1 / 2 := by norm_num
  rw [hlane] at h
  have hcount : leading (insideClosed ((1 / 2, 1 / 2) : ℚ × ℚ)) 6 = 3 := by decide +kernel
  refine ⟨h, ?_⟩
  rw [genericColor_eq (1 / 2, 1 / 2), hcount]
  norm_num [pixelValue]

/-- **On the circle the kernels differ**: the orbit of `1` is at `2` after one iteration, which
the default kernel counts and the vector kernel does not. -/
theorem scalar_ne_vector :
    ¬ ∀ bailout, 1 ≤ bailout → ∀ (cx cy : Vec8f) (l : Fin 8),
      genericColor bailout (cx l) (cy l) = nativeColor bailout cx cy l :=
  fun h => absurd (h 2 (by norm_num) (fun _ => 1) (fun _ => 0) 0) (by decide +kernel)

end Mdb
