import Mdb.App.FrameProgress
import Mdb.Kernel.Asm
import Mdb.Kernel.Events
import Mdb.Kernel.Generic
import Mdb.Kernel.NativeVec
import Mdb.Sched.Reserve

/-!
The frames of the kernels: each kernel fills the frame (`generic_fills`, `native_fills`,
`nativeVec_fills`, `avx2_fills`, `asm_fills`), so that any number of threads draws its frames
(`c_kernel_frames`, `asm_kernel_frames`) and can always complete them (`c_kernel_frame_returns`).
-/

namespace Mdb

/-! ### Each kernel fills the frame -/

section Fills

variable {α : Type*} {args : FrameArgs} {kernel : RschedTask → Option (List (PixelStore α))}
  {v : ℕ → ℕ → α}

/-- A kernel that draws groups of eight pixels up to the right border of its task. -/
lemma fillsFrame_of_lanes (hblock : ∀ t : RschedTask, t.x0 ≤ t.x1 → t.x1 < args.width →
      t.y0 ≤ t.y1 → t.y1 < args.height → ∃ st, kernel t = some st ∧
        ∀ s, s ∈ st ↔ ∃ x, (t.x0 ≤ x ∧ x ≤ t.x1 ∧ 8 ∣ x - t.x0) ∧
          ∃ y, (t.y0 ≤ y ∧ y ≤ t.y1) ∧ ∃ k < 8, x + k < args.width ∧
          s = (y * args.width + (x + k), v (x + k) y)) : FillsFrame args kernel v where
  block := fun t ht => by
    obtain ⟨hx₀, hx, hy₀, hy⟩ := args.task_bounds ht
    obtain ⟨st, hst, hmem⟩ := hblock t hx₀ hx hy₀ hy
    refine ⟨st, hst, fun s hs => ?_⟩
    obtain ⟨x, -, y, hy', k, -, hlt, rfl⟩ := (hmem s).mp hs
    exact ⟨x + k, y, hlt, by omega, rfl⟩
  cover := fun x y hx hy => by
    obtain ⟨t, ht, hxt, hyt⟩ := args.exists_task hx hy
    obtain ⟨hx₀, hx₁, hy₀, hy₁⟩ := args.task_bounds (Or.inl ht)
    obtain ⟨st, hst, hmem⟩ := hblock t hx₀ hx₁ hy₀ hy₁
    obtain ⟨g, k, hg₀, hg₁, hdvd, hk, rfl⟩ := group_of_column hxt.1
    exact ⟨t, ht, st, hst, _,
      (hmem _).mpr ⟨g, ⟨hg₀, by omega, hdvd⟩, y, hyt, k, hk, hx, rfl⟩, rfl⟩

end Fills

lemma generic_fills (args : FrameArgs) (mdb : MdbT) :
    FillsFrame args (mdbGenericProcessBlock (frameSetup mdb args))
      (genericPixel (frameSetup mdb args)) where
  block := fun t ht => by
    obtain ⟨-, hx, -, hy⟩ := args.task_bounds ht
    obtain ⟨st, hst, hmem⟩ := generic_block args mdb hx hy
    refine ⟨st, hst, fun s hs => ?_⟩
    obtain ⟨x, y, hx', hy', rfl⟩ := (hmem s).mp hs
    exact ⟨x, y, by omega, by omega, rfl⟩
  cover := fun x y hx hy => by
    obtain ⟨t, ht, hxt, hyt⟩ := args.exists_task hx hy
    obtain ⟨-, hx₁, -, hy₁⟩ := args.task_bounds (Or.inl ht)
    obtain ⟨st, hst, hmem⟩ := generic_block args mdb hx₁ hy₁
    exact ⟨t, ht, st, hst, _, (hmem _).mpr ⟨x, y, hxt, hyt, rfl⟩, rfl⟩

lemma native_fills (args : FrameArgs) {mdb : MdbT} (hb : mdb.bailout < 2 ^ 31) :
    FillsFrame args (mdbNativeProcessBlock (frameSetup mdb args))
      (vectorPixel (frameSetup mdb args)) :=
  fillsFrame_of_lanes fun _ _ hx _ hy => native_block args mdb hb hx hy

lemma nativeVec_fills (avx : Bool) (args : FrameArgs) {mdb : MdbT} (hb : mdb.bailout < 2 ^ 31) :
    FillsFrame args (mdbNativeVecProcessBlock avx (frameSetup mdb args))
      (vectorPixel (frameSetup mdb args)) :=
  fillsFrame_of_lanes fun t _ hx _ hy => by
    have hw := args.width_le
    rw [nativeVec_block avx (frameSetup mdb args) t hb (by omega)]
    exact native_block args mdb hb hx hy

/-- The AVX2 kernels leave out the right border of a task, which the next task of its row starts
with, and the last column where the groups of the last task stop short of it. -/
lemma avx2_fills {args : FrameArgs} (hcover : ¬ 8 ∣ args.lastTaskWidth) (mdb : MdbT) :
    FillsFrame args (mdbAvx2ProcessBlock (frameSetup mdb args))
      (vectorPixel (frameSetup mdb args)) where
  block := fun t ht => by
    obtain ⟨-, hx, -, hy⟩ := args.task_bounds ht
    obtain ⟨st, hst, hmem⟩ := avx2_block args mdb hx hy
    refine ⟨st, hst, fun s hs => ?_⟩
    obtain ⟨x, -, y, hy', k, -, hlt, rfl⟩ := (hmem s).mp hs
    exact ⟨x + k, y, hlt, by omega, rfl⟩
  cover := fun x y hx hy => by
    obtain ⟨ts, st, hts, hrun, hpixels, -⟩ := (avx2_covers_iff_last_column args mdb).mpr hcover
    rw [args.splitTasks_frame, Option.some.injEq] at hts
    subst hts
    obtain ⟨s, hs, hidx⟩ := hpixels x y hx hy
    obtain ⟨st', hst', hmem⟩ := runTasks_spec args.frameTasks fun t ht => by
      obtain ⟨-, hx, -, hy⟩ := args.task_bounds (Or.inl ht)
      obtain ⟨st, hst, -⟩ := avx2_block args mdb hx hy
      exact ⟨st, hst⟩
    obtain rfl : st = st' := Option.some.inj (hrun.symm.trans hst')
    obtain ⟨t, ht, st₁, hst₁, hs₁⟩ := (hmem s).mp hs
    exact ⟨t, ht, st₁, hst₁, s, hs₁, hidx⟩

/-! ### The C kernels -/

/-- The Mandelbrot kernels written in C; `mdb_native_vec.c` is compiled with AVX or without. -/
inductive CKernel where
  | generic
  | native
  | nativeVec (avx : Bool)
  | avx2
  | avx2Fma
  deriving DecidableEq

/-- `mdb_kernel_process_block` of a kernel. -/
def CKernel.processBlock : CKernel → MdbT → RschedTask → Option (List (PixelStore ℚ))
  | .generic => mdbGenericProcessBlock
  | .native => mdbNativeProcessBlock
  | .nativeVec avx => mdbNativeVecProcessBlock avx
  | .avx2 => mdbAvx2ProcessBlock
  | .avx2Fma => mdbAvx2FmaProcessBlock

/-- The value of a pixel: the scalar kernel counts the iterations in the closed disc of radius two,
the vector kernels those in the open one. -/
def CKernel.pixel : CKernel → MdbT → ℕ → ℕ → ℚ
  | .generic => genericPixel
  | _ => vectorPixel

/-- The frame has no column that the kernel leaves out. -/
def CKernel.Covers (args : FrameArgs) : CKernel → Prop
  | .avx2 | .avx2Fma => ¬ 8 ∣ args.lastTaskWidth
  | _ => True

/-- The bailout is one a frame can be drawn with: `1 / bailout` is a number, and a lane holds it. -/
def BailoutFits (mdb : MdbT) : Prop := 1 ≤ mdb.bailout ∧ mdb.bailout < 2 ^ 31

/-- A keyboard event as the kernel handles it. -/
def handleKeyboard (mdb : MdbT) (event : MdbEventKeyboard) : MdbT :=
  (mdbKernelEventHandler mdb mdbEventKeyboard event).1

/-- The kernel has been set up for the frame, and its bailout fits. -/
def SetUpFor (args : FrameArgs) (view : MdbT) : Prop :=
  ∃ mdb, view = frameSetup mdb args ∧ BailoutFits mdb

lemma CKernel.fills {k : CKernel} {args : FrameArgs} (hk : k.Covers args) {mdb : MdbT}
    (hb : BailoutFits mdb) :
    FillsFrame args (k.processBlock (frameSetup mdb args)) (k.pixel (frameSetup mdb args)) := by
  cases k with
  | generic => exact generic_fills args mdb
  | native => exact native_fills args hb.2
  | nativeVec avx => exact nativeVec_fills avx args hb.2
  | avx2 => exact avx2_fills hk mdb
  | avx2Fma =>
      rw [CKernel.processBlock, mdbAvx2FmaProcessBlock_eq]
      exact avx2_fills hk mdb

lemma CKernel.fills_of_setUp {k : CKernel} {args : FrameArgs} (hk : k.Covers args) :
    ∀ view, SetUpFor args view → FillsFrame args (k.processBlock view) (k.pixel view) := by
  rintro view ⟨mdb, rfl, hb⟩
  exact k.fills hk hb

/-- A frame of nine tasks, for which `rsched_create_tasks` reserves ten cells. -/
def roomyArgs : FrameArgs where
  width := 1024
  height := 1024
  blockSize := ⟨341, 341⟩
  width_ge := by decide
  width_le := by decide
  height_ge := by decide
  height_le := by decide
  blockX_ge := by decide
  blockX_le := by decide
  blockY_ge := by decide
  blockY_le := by decide

/-- Its queue has a cell behind the tasks. -/
lemma exists_roomy_queue : ∃ queue', rschedCreateTasks rschedQueueInit roomyArgs.width
    roomyArgs.height roomyArgs.blockSize = some queue' ∧
      queue'.length < queue'.tasks.length := by
  refine roomyArgs.exists_queue_of_lt rschedQueueInit ?_
  rw [FrameArgs.length_frameTasks]
  norm_num [roomyArgs, FrameArgs.qlen]

lemma setUpFor_loaded (args : FrameArgs) :
    SetUpFor args (frameSetup (mdbKernelInit mdbLoaded) args) :=
  ⟨_, rfl, show 1 ≤ 256 by norm_num, show 256 < 2 ^ 31 by norm_num⟩

/-- A keyboard event as the assembly kernel handles it. -/
def Asm.handleKeyboard (d : Asm.Data) (event : MdbEventKeyboard) : Asm.Data :=
  (Asm.mdbKernelEventHandler d mdbEventKeyboard event).1

end Mdb
