import Mdb.Library.CounterLoop
import Mdb.Library.Escape
import Mdb.Sched.Split
import Mdb.Surface.Surface

/-!
What the Mandelbrot kernels share (`kernel_modules/mandelbrot/mdb_kernel_common.c`), and the
frame theorem they are all judged by.

Floating-point values are rationals: every operation is exact. All kernels visit a task with a
loop over `y` around a loop over `x` (`blockLoops`), and only the bound and the stride of the
inner loop differ. `runTasks` runs a kernel on tasks one after the other.

`frame_correct` reduces a statement about a whole frame to one about a block: if the stores of
a block put on every pixel of the task, its right and lower borders counted, the value `v` of
that pixel, and nothing anywhere else but a value of its own pixel, then the frame holds `v`,
in whatever order and however often its tasks are run.
-/

namespace Mdb

open StoreTrace

/-! ### The state of a kernel -/

/-- `struct mdb_t`. -/
structure MdbT where
  bailout : ℕ
  width : ℕ
  height : ℕ
  shiftX : ℚ
  shiftY : ℚ
  scale : ℚ
  surf : Surface
  widthR : ℚ
  heightR : ℚ
  aspectRatio : ℚ

/-- The global `mdb` of a kernel as it is loaded, all zero. -/
def mdbLoaded : MdbT := ⟨0, 0, 0, 0, 0, 0, ⟨0, 0⟩, 0, 0, 0⟩

/-- `mdb_kernel_init`. -/
def mdbKernelInit (mdb : MdbT) : MdbT :=
  { mdb with
    bailout := 256
    scale := 0.00188964
    shiftX := -1.347385054652062
    shiftY := -0.063483549665202 }

/-- `mdb_kernel_set_size`. -/
def mdbKernelSetSize (mdb : MdbT) (width height : ℕ) : MdbT :=
  { mdb with
    width := width
    height := height
    widthR := 1 / width
    heightR := 1 / height
    aspectRatio := (width : ℚ) / height }

/-- `mdb_kernel_set_surface`. -/
def mdbKernelSetSurface (mdb : MdbT) (surf : Surface) : MdbT := { mdb with surf := surf }

/-- The set-up of `run_benchmark_mode` and `run_render_mode`: a surface of the requested size,
and the kernel told about both. -/
def frameSetup (mdb : MdbT) (args : FrameArgs) : MdbT :=
  mdbKernelSetSurface (mdbKernelSetSize mdb args.width args.height) ⟨args.width, args.height⟩

@[simp] lemma frameSetup_surf (mdb : MdbT) (args : FrameArgs) :
    (frameSetup mdb args).surf = ⟨args.width, args.height⟩ := rfl

@[simp] lemma frameSetup_bailout (mdb : MdbT) (args : FrameArgs) :
    (frameSetup mdb args).bailout = mdb.bailout := rfl

/-- The plane point of the pixel `(x, y)`. -/
def planePoint (mdb : MdbT) (x y : ℕ) : ℚ × ℚ :=
  ((x * mdb.widthR * mdb.aspectRatio + -1 / 2) * mdb.scale + mdb.shiftX,
    (y * mdb.heightR + -1 / 2) * mdb.scale + mdb.shiftY)

/-- The colour of a pixel whose point stayed `m` iterations inside: points that stayed for all
of them are black. -/
def pixelValue (m bailout : ℕ) : ℚ := (if m = bailout then 0 else m : ℕ) / bailout

/-! ### The loops over a block -/

/-- `for (x = a; x <= b; x += s)` in `uint32_t`. -/
def countTo (a b s : ℕ) : Option (List ℕ) :=
  counterLoop (fun x => x ≤ b) (fun x => u32 (x + s)) u32Fuel a

/-- `for (x = a; x < b; x += s)` in `uint32_t`. -/
def countBelow (a b s : ℕ) : Option (List ℕ) :=
  counterLoop (fun x => x < b) (fun x => u32 (x + s)) u32Fuel a

lemma countBelow_spec {a b s : ℕ} (hs : 1 ≤ s) (hb : b + s ≤ 2 ^ 32) :
    ∃ l, countBelow a b s = some l ∧ ∀ x, x ∈ l ↔ a ≤ x ∧ x < b ∧ s ∣ x - a :=
  counterLoop_strided hs (fun x => decide_eq_true_iff)
    (fun x hx => u32_of_lt (by omega)) (lt_u32Fuel (by omega))

lemma countTo_spec {a b s : ℕ} (hs : 1 ≤ s) (hb : b + s < 2 ^ 32) :
    ∃ l, countTo a b s = some l ∧ ∀ x, x ∈ l ↔ a ≤ x ∧ x ≤ b ∧ s ∣ x - a := by
  have hcond : ∀ x, decide (x ≤ b) = true ↔ x < b + 1 :=
    fun x => decide_eq_true_iff.trans Nat.lt_succ_iff.symm
  have hnext : ∀ x, x < b + 1 → u32 (x + s) = x + s := fun x hx => u32_of_lt (by omega)
  obtain ⟨l, hl, hmem⟩ := counterLoop_strided hs hcond hnext
    (lt_u32Fuel (n := b + 1 - a) (by omega))
  exact ⟨l, hl, fun x => by rw [hmem, Nat.lt_succ_iff]⟩

section BlockLoops

variable {α : Type*}

/-- The loops of `mdb_kernel_process_block` around a body that only stores. -/
def blockLoops (ys xs : Option (List ℕ)) (body : ℕ → ℕ → List (PixelStore α)) :
    Option (List (PixelStore α)) :=
  ys.bind fun ys =>
    (ys.mapM fun y => xs.map fun xs => xs.flatMap (body y)).map List.flatten

/-- With counters that end, the stores of a block are those of its rounds. -/
lemma blockLoops_spec (ys xs : List ℕ) (body : ℕ → ℕ → List (PixelStore α)) :
    ∃ st, blockLoops (some ys) (some xs) body = some st ∧
      ∀ s, s ∈ st ↔ ∃ y ∈ ys, ∃ x ∈ xs, s ∈ body y x := by
  have hmap : (ys.mapM fun y => (some xs).map fun xs => xs.flatMap (body y))
      = some (ys.map fun y => xs.flatMap (body y)) := by
    simp only [Option.map_some]
    exact List.mapM_pure
  refine ⟨_, by rw [blockLoops, Option.bind_some, hmap, Option.map_some], fun s => ?_⟩
  simp only [List.mem_flatten, List.mem_map, exists_exists_and_eq_and, List.mem_flatMap]

/-- The stores depend only on the rounds that run. -/
lemma blockLoops_congr {ys : Option (List ℕ)} {xs : List ℕ}
    {body body' : ℕ → ℕ → List (PixelStore α)}
    (h : ∀ y, ∀ x ∈ xs, body y x = body' y x) :
    blockLoops ys (some xs) body = blockLoops ys (some xs) body' := by
  have hrow : ∀ y, xs.flatMap (body y) = xs.flatMap (body' y) :=
    fun y => List.flatMap_congr (h y)
  simp only [blockLoops, Option.map_some, hrow]

/-- The stores of a kernel run on tasks one after the other. -/
def runTasks (kernel : RschedTask → Option (List (PixelStore α))) (ts : List RschedTask) :
    Option (List (PixelStore α)) :=
  (ts.mapM kernel).map List.flatten

/-- If every task ends, so does the run, and its stores are those of the tasks. -/
lemma runTasks_spec {kernel : RschedTask → Option (List (PixelStore α))} (ts : List RschedTask)
    (h : ∀ t ∈ ts, ∃ st, kernel t = some st) :
    ∃ st, runTasks kernel ts = some st ∧
      ∀ s, s ∈ st ↔ ∃ t ∈ ts, ∃ st', kernel t = some st' ∧ s ∈ st' := by
  induction ts with
  | nil => exact ⟨[], rfl, by simp⟩
  | cons t ts ih =>
      obtain ⟨st₁, hst₁⟩ := h t List.mem_cons_self
      obtain ⟨st₂, hst₂, hmem⟩ := ih fun u hu => h u (List.mem_cons_of_mem t hu)
      obtain ⟨sts, hsts, rfl⟩ := Option.map_eq_some_iff.mp hst₂
      refine ⟨st₁ ++ sts.flatten, ?_, fun s => ?_⟩
      · rw [runTasks, List.mapM_cons, hst₁, hsts]
        rfl
      · simp only [List.mem_append, hmem, List.mem_cons, exists_eq_or_imp, hst₁,
          Option.some.injEq, exists_eq_left']

/-! ### Whole frames -/

/-- **The frame theorem.** A kernel whose block stores every pixel of its task with the value `v`
of that pixel, and nothing but pixels with their values, fills the frame with `v`: any order of
the tasks, with any repetition, ends, stores inside the buffer and leaves `v` on every pixel. -/
theorem frame_correct (args : FrameArgs) (v : ℕ → ℕ → α)
    {kernel : RschedTask → Option (List (PixelStore α))}
    (hkernel : ∀ t ∈ args.frameTasks, ∃ st, kernel t = some st ∧
      (∀ s ∈ st, ∃ x y, x < args.width ∧ y < args.height ∧ s = (y * args.width + x, v x y)) ∧
      ∀ x y, t.x0 ≤ x ∧ x ≤ t.x1 → t.y0 ≤ y ∧ y ≤ t.y1 → ∃ s ∈ st, s.1 = y * args.width + x)
    {ts : List RschedTask} (hts : ∀ t, t ∈ ts ↔ t ∈ args.frameTasks) (data : ℕ → α) :
    ∃ st, runTasks kernel ts = some st ∧ (∀ s ∈ st, s.1 < args.width * args.height) ∧
      ∀ x y, x < args.width → y < args.height →
        applyStores data st (y * args.width + x) = v x y := by
  obtain ⟨st, hst, hmem⟩ := runTasks_spec ts fun t ht => by
    obtain ⟨st, hst, -⟩ := hkernel t ((hts t).mp ht)
    exact ⟨st, hst⟩
  -- every store of the run is a pixel with its value
  have hsound : ∀ s ∈ st, ∃ x y, x < args.width ∧ y < args.height ∧
      s = (y * args.width + x, v x y) := by
    intro s hs
    obtain ⟨t, ht, st', hst', hs'⟩ := (hmem s).mp hs
    obtain ⟨st₁, hst₁, hsound, -⟩ := hkernel t ((hts t).mp ht)
    rw [hst', Option.some.injEq] at hst₁
    exact hsound s (hst₁ ▸ hs')
  refine ⟨st, hst, fun s hs => ?_,
    fun x y hx hy => applyStores_of_consistent ?_ fun s hs hidx => ?_⟩
  · obtain ⟨x, y, hx, hy, rfl⟩ := hsound s hs
    exact pixel_index_lt hx hy
  · obtain ⟨t, ht, hxt, hyt⟩ := args.exists_task hx hy
    obtain ⟨st', hst', -, hcover⟩ := hkernel t ht
    obtain ⟨s, hs, hidx⟩ := hcover x y hxt hyt
    exact ⟨s, (hmem s).mpr ⟨t, (hts t).mpr ht, st', hst', hs⟩, hidx⟩
  · obtain ⟨x', y', hx', hy', rfl⟩ := hsound s hs
    obtain ⟨rfl, rfl⟩ := pixel_index_inj hx' hx hidx
    rfl

end BlockLoops

end Mdb
