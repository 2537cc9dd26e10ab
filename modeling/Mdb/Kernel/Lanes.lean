import Mdb.Kernel.Common
import Mdb.Library.LaneLoop

/-!
What the kernels share that work on eight pixels at a time.

A group starts at every eighth column of its task, may hang over the right edge of the task and
of the surface, and is clipped by `surface_set_pixels`. `laneBlock_spec` gives the stores of a
block of groups, `vectorPixel` the value all these kernels store for a pixel, and
`count_of_lanes` why it does not depend on the group the pixel is drawn in.
-/

namespace Mdb

open Escape

/-- Eight lanes as the array `surface_set_pixels` reads. -/
def lanePixels {α : Type*} (v : Fin 8 → α) (k : ℕ) : α := v (Fin.ofNat 8 k)

/-- The value of a pixel in a frame of a vector kernel. -/
def vectorPixel (mdb : MdbT) (x y : ℕ) : ℚ :=
  pixelValue (leading (insideOpen (planePoint mdb x y)) mdb.bailout) mdb.bailout

/-- A loop over the lanes that starts at their points `c` and counts the rounds ending in the open
disc leaves in every lane the leading count of its own point. -/
lemma count_of_lanes {L N : Type*} [Fintype L] (c : L → ℚ × ℚ) (incr : N → N) (n : N) (b : ℕ)
    (l : L) :
    laneLoop (fun l => quad (c l)) (fun z => nsq z < 4) incr b c (fun _ => n) l
      = incr^[leading (insideOpen (c l)) b] n := by
  have horbit : ∀ i, decide (nsq ((quad (c l))^[i + 1] (c l)) < 4) = insideOpen (c l) i :=
    fun i => by rw [← iter_eq_iterate, insideOpen]
  rw [laneLoop_eq]
  · simp only [horbit]
  · intro i j hij hj
    rw [horbit] at hj ⊢
    exact insideOpen_antitone hij hj

/-- The stores of a block that draws groups of eight pixels: those pixels of its groups that lie
on the surface. -/
lemma laneBlock_spec {α : Type*} (args : FrameArgs) (v : ℕ → ℕ → α) {t : RschedTask}
    (hy : t.y1 < args.height) {xs : List ℕ} (hxs : ∀ x ∈ xs, x < args.width)
    {color : ℕ → ℕ → Fin 8 → α}
    (hcolor : ∀ y x k, y ≤ t.y1 → x < args.width → color y x k = v (x + k) y) :
    ∃ st, (blockLoops (countTo t.y0 t.y1 1) (some xs) fun y x =>
        surfaceSetPixels ⟨args.width, args.height⟩ x y 8 (lanePixels (color y x))) = some st ∧
      ∀ s, s ∈ st ↔ ∃ x ∈ xs, ∃ y, (t.y0 ≤ y ∧ y ≤ t.y1) ∧ ∃ k < 8, x + k < args.width ∧
        s = (y * args.width + (x + k), v (x + k) y) := by
  have hw := args.width_le
  have hh := args.height_le
  obtain ⟨ys, hys, hmemy⟩ := countTo_spec (a := t.y0) (b := t.y1) (s := 1) le_rfl (by omega)
  simp only [isUnit_one, IsUnit.dvd, and_true] at hmemy
  obtain ⟨st, hst, hmem⟩ := blockLoops_spec ys xs fun y x =>
    surfaceSetPixels ⟨args.width, args.height⟩ x y 8 (lanePixels (color y x))
  refine ⟨st, by rw [hys]; exact hst, fun s => ?_⟩
  have hset : ∀ x ∈ xs, ∀ y ≤ t.y1,
      (s ∈ surfaceSetPixels ⟨args.width, args.height⟩ x y 8 (lanePixels (color y x)) ↔
        ∃ k < 8, x + k < args.width ∧ s = (y * args.width + (x + k), v (x + k) y)) := by
    intro x hx y hyt
    have hlt := hxs x hx
    rw [mem_surfaceSetPixels (by dsimp only; omega) (by omega) (args.row_start_lt (by omega))]
    have hval : ∀ k < 8, lanePixels (color y x) k = v (x + k) y := fun k hk => by
      rw [lanePixels, hcolor y x _ hyt hlt, Fin.val_ofNat, Nat.mod_eq_of_lt hk]
    refine (and_iff_right (by dsimp only; omega)).trans
      (exists_congr fun k => and_congr_right fun hk => ?_)
    rw [hval k hk]
  rw [hmem]
  refine ⟨fun ⟨y, hy, x, hx, hs⟩ => ?_, fun ⟨x, hx, y, hy, hs⟩ => ?_⟩
  · have hyt := (hmemy y).mp hy
    exact ⟨x, hx, y, hyt, (hset x hx y hyt.2).mp hs⟩
  · exact ⟨y, (hmemy y).mpr hy, x, hx, (hset x hx y hy.2).mpr hs⟩

/-- The stores of a block that draws a group at every eighth column up to its right border. -/
lemma laneBlock_countTo {α : Type*} (args : FrameArgs) (v : ℕ → ℕ → α) {t : RschedTask}
    (hx : t.x1 < args.width) (hy : t.y1 < args.height) {color : ℕ → ℕ → Fin 8 → α}
    (hcolor : ∀ y x k, y ≤ t.y1 → x < args.width → color y x k = v (x + k) y) :
    ∃ st, (blockLoops (countTo t.y0 t.y1 1) (countTo t.x0 t.x1 8) fun y x =>
        surfaceSetPixels ⟨args.width, args.height⟩ x y 8 (lanePixels (color y x))) = some st ∧
      ∀ s, s ∈ st ↔ ∃ x, (t.x0 ≤ x ∧ x ≤ t.x1 ∧ 8 ∣ x - t.x0) ∧
        ∃ y, (t.y0 ≤ y ∧ y ≤ t.y1) ∧ ∃ k < 8, x + k < args.width ∧
        s = (y * args.width + (x + k), v (x + k) y) := by
  have hw := args.width_le
  obtain ⟨xs, hxs, hmemx⟩ := countTo_spec (a := t.x0) (b := t.x1) (s := 8) (by norm_num) (by omega)
  have hxs' : ∀ x ∈ xs, x < args.width := fun x hx' => ((hmemx x).mp hx').2.1.trans_lt hx
  obtain ⟨st, hst, hmem⟩ := laneBlock_spec args v hy hxs' hcolor
  refine ⟨st, by rw [hxs]; exact hst, fun s => ?_⟩
  simp only [hmem, hmemx]

/-- Every column from `a` on lies in the group of eight that starts at or before it. -/
lemma group_of_column {a x : ℕ} (h : a ≤ x) :
    ∃ g k, a ≤ g ∧ g ≤ x ∧ 8 ∣ g - a ∧ k < 8 ∧ g + k = x :=
  ⟨x - (x - a) % 8, (x - a) % 8, by omega, by omega, by omega, by omega, by omega⟩

/-- `frame_correct` for a kernel that draws groups of eight pixels up to the right border of its
task: the group that hangs over it covers the border too. -/
lemma laneFrame_correct {α : Type*} (args : FrameArgs) (v : ℕ → ℕ → α)
    {kernel : RschedTask → Option (List (PixelStore α))}
    (hblock : ∀ t : RschedTask, t.x0 < t.x1 → t.x1 < args.width → t.y0 < t.y1 →
      t.y1 < args.height → ∃ st, kernel t = some st ∧
        ∀ s, s ∈ st ↔ ∃ x, (t.x0 ≤ x ∧ x ≤ t.x1 ∧ 8 ∣ x - t.x0) ∧
          ∃ y, (t.y0 ≤ y ∧ y ≤ t.y1) ∧ ∃ k < 8, x + k < args.width ∧
          s = (y * args.width + (x + k), v (x + k) y))
    {ts : List RschedTask} (hts : ∀ t, t ∈ ts ↔ t ∈ args.frameTasks) (data : ℕ → α) :
    ∃ st, runTasks kernel ts = some st ∧ (∀ s ∈ st, s.1 < args.width * args.height) ∧
      ∀ x y, x < args.width → y < args.height →
        StoreTrace.applyStores data st (y * args.width + x) = v x y := by
  refine frame_correct args v (fun t ht => ?_) hts data
  obtain ⟨⟨hx₀, hx, -⟩, hy₀, hy, -⟩ := args.frameTasks_bounds ht
  have hw := args.width_ge
  have hh := args.height_ge
  obtain ⟨st, hst, hmem⟩ := hblock t hx₀ (by omega) hy₀ (by omega)
  refine ⟨st, hst, fun s hs => ?_, fun x y hx' hy' => ?_⟩
  · obtain ⟨x, hx', y, hy', k, hk, hlt, rfl⟩ := (hmem s).mp hs
    exact ⟨x + k, y, hlt, by omega, rfl⟩
  · obtain ⟨g, k, hg₀, hg₁, hdvd, hk, rfl⟩ := group_of_column hx'.1
    exact ⟨_, (hmem _).mpr ⟨g, ⟨hg₀, by omega, hdvd⟩, y, hy', k, hk, by omega, rfl⟩, rfl⟩

end Mdb
