import Mdb.Base.Word
import Mdb.Library.StoreTrace

/-!
`surface/surface.h`: creating a surface and storing a row of pixels.

A kernel only writes to the surface, so `surfaceSetPixels` returns the stores it makes into
`pix_buffer`, an index and a value each, in order. `mem_surfaceSetPixels` says which these are:
the pixels of the row `y` right of `x` that lie on the surface, at `y * width + x + k`.
`surfaceSetPixels_frame` runs the stores on a buffer of `width * height` floats: none is outside
it, and a cell of another row, or of the row but not among the pixels stored, keeps its value.
-/

namespace Mdb

/-- The size fields of `struct surface`. -/
structure Surface where
  width : ℕ
  height : ℕ
  deriving DecidableEq

/-- `struct surface` with the buffer that `data` points to, which is given by the number of its
floats. -/
structure SurfaceHandle extends Surface where
  data : Option ℕ
  deriving DecidableEq

/-- `SURFACE_BUFFER_CREATE`. -/
def surfaceBufferCreate : ℕ := 1

/-- `SURFACE_BUFFER_EXT`. -/
def surfaceBufferExt : ℕ := 1 <<< 1

/-- `SURFACE_BUFFER_F32`. -/
def surfaceBufferF32 : ℕ := 1 <<< 20

/-- `surface_create`, with allocations that succeed. -/
def surfaceCreate (width height flags : ℕ) : Option SurfaceHandle :=
  if flags &&& surfaceBufferCreate ≠ 0 then
    some { width := width, height := height, data := some (u32 (width * height)) }
  else if flags &&& surfaceBufferExt ≠ 0 then
    some { width := width, height := height, data := none }
  else none

/-- The buffer of a surface that is created with one has a float for each pixel. -/
lemma surfaceCreate_data {width height flags : ℕ} (hf : flags &&& surfaceBufferCreate ≠ 0)
    (hwh : width * height < 2 ^ 32) :
    surfaceCreate width height flags
      = some { width := width, height := height, data := some (width * height) } := by
  rw [surfaceCreate, if_pos hf, u32_of_lt hwh]

/-- `surface_set_buffer`. -/
def surfaceSetBuffer (surf : SurfaceHandle) (buffer : ℕ) : SurfaceHandle :=
  { surf with data := some buffer }

/-- A store into a pixel buffer. -/
abbrev PixelStore (α : Type*) := ℕ × α

section SetPixels

variable {α : Type*}

/-- The loop of `surface_set_pixels` from `k` on, with `r` pixels left. -/
def setPixelsFrom (width idxY x : ℕ) (pix : ℕ → α) : ℕ → ℕ → List (PixelStore α)
  | 0, _ => []
  | r + 1, k =>
      let xi := u32 (x + k)
      let idx := idxY + xi
      if xi < width then (idx, pix k) :: setPixelsFrom width idxY x pix r (k + 1) else []

/-- `surface_set_pixels`: the stores it makes. -/
def surfaceSetPixels (surf : Surface) (x y n : ℕ) (pix : ℕ → α) : List (PixelStore α) :=
  if y ≥ surf.height then []
  else setPixelsFrom surf.width (u32 (y * surf.width)) x pix n 0

/-- The loop stops at the first pixel past the right edge, before the column can wrap. -/
lemma mem_setPixelsFrom {width idxY x : ℕ} {pix : ℕ → α} (hw : width < 2 ^ 32)
    {s : PixelStore α} : ∀ {r k : ℕ}, x + k < 2 ^ 32 →
      (s ∈ setPixelsFrom width idxY x pix r k ↔
        ∃ j, k ≤ j ∧ j < k + r ∧ x + j < width ∧ s = (idxY + (x + j), pix j)) := by
  intro r
  induction r with
  | zero =>
      intro k _
      simp only [setPixelsFrom, List.not_mem_nil, false_iff, not_exists, not_and]
      intro j h₁ h₂
      omega
  | succ r ih =>
      intro k hk
      rw [setPixelsFrom]
      rw [u32_of_lt hk]
      by_cases hlt : x + k < width
      · rw [if_pos hlt, List.mem_cons, ih (by omega)]
        constructor
        · rintro (rfl | ⟨j, h₁, h₂, h₃, rfl⟩)
          · exact ⟨k, le_rfl, by omega, hlt, rfl⟩
          · exact ⟨j, by omega, by omega, h₃, rfl⟩
        · rintro ⟨j, h₁, h₂, h₃, rfl⟩
          rcases h₁.eq_or_lt with rfl | hlt'
          · exact Or.inl rfl
          · exact Or.inr ⟨j, by omega, by omega, h₃, rfl⟩
      · rw [if_neg hlt]
        simp only [List.not_mem_nil, false_iff, not_exists, not_and]
        intro j h₁ h₂ h₃
        omega

/-- **The stores of `surface_set_pixels`**: for each `k < n` with `x + k` on the surface, `pix k`
at `y * width + x + k`; none when `y` is below the surface. -/
theorem mem_surfaceSetPixels {surf : Surface} {x y n : ℕ} {pix : ℕ → α}
    (hw : surf.width < 2 ^ 32) (hx : x < 2 ^ 32) (hy : y * surf.width < 2 ^ 32)
    {s : PixelStore α} :
    s ∈ surfaceSetPixels surf x y n pix ↔
      y < surf.height ∧ ∃ k < n, x + k < surf.width ∧ s = (y * surf.width + (x + k), pix k) := by
  rw [surfaceSetPixels]
  by_cases h : y ≥ surf.height
  · rw [if_pos h]
    simp only [List.not_mem_nil, false_iff, not_and]
    omega
  · rw [if_neg h, u32_of_lt hy, mem_setPixelsFrom hw hx]
    simp only [Nat.zero_le, true_and, Nat.zero_add]
    exact ⟨fun hs => ⟨by omega, hs⟩, fun hs => hs.2⟩

end SetPixels

/-- The index of a pixel of a surface is below the number of its pixels. -/
lemma pixel_index_lt {w h x y : ℕ} (hx : x < w) (hy : y < h) : y * w + x < w * h := by
  have hle : (y + 1) * w ≤ h * w := Nat.mul_le_mul_right w hy
  rw [Nat.succ_mul] at hle
  rw [Nat.mul_comm w h]
  omega

/-- Two pixels of a surface share an index only if they are the same pixel. -/
lemma pixel_index_inj {w x y x' y' : ℕ} (hx : x < w) (hx' : x' < w)
    (h : y * w + x = y' * w + x') : x = x' ∧ y = y' := by
  have hw : 0 < w := by omega
  have hmod : ∀ {a b}, b < w → (a * w + b) % w = b := fun hb => by
    rw [Nat.mul_add_mod_self_right, Nat.mod_eq_of_lt hb]
  have hdiv : ∀ {a b}, b < w → (a * w + b) / w = a := fun {a b} hb => by
    rw [Nat.mul_comm, Nat.mul_add_div hw, Nat.div_eq_of_lt hb, Nat.add_zero]
  exact ⟨by rw [← hmod (a := y) hx, h, hmod hx'], by rw [← hdiv (a := y) hx, h, hdiv hx']⟩

section Frame

variable {α : Type*} {surf : Surface} {x y n : ℕ} {pix : ℕ → α}

/-- The first pixel of a row of the surface has a 32-bit index. -/
lemma row_index_lt {w h y : ℕ} (hwh : w * h < 2 ^ 32) (hy : y < h) : y * w < 2 ^ 32 :=
  lt_of_le_of_lt (by rw [Nat.mul_comm y w]; exact Nat.mul_le_mul_left w hy.le) hwh

/-- `mem_surfaceSetPixels` for a surface whose pixels are counted in 32 bits: any row. -/
lemma mem_surfaceSetPixels_of_area (hw : surf.width < 2 ^ 32)
    (hwh : surf.width * surf.height < 2 ^ 32) (hx : x < 2 ^ 32) {s : PixelStore α} :
    s ∈ surfaceSetPixels surf x y n pix ↔
      y < surf.height ∧ ∃ k < n, x + k < surf.width ∧ s = (y * surf.width + (x + k), pix k) := by
  by_cases hy : y < surf.height
  · exact mem_surfaceSetPixels hw hx (row_index_lt hwh hy)
  · rw [surfaceSetPixels, if_pos (not_lt.mp hy)]
    simp [hy]

open StoreTrace

/-- **Pixel stores are clipped and framed.** On a buffer of `width * height` floats the stores of
`surface_set_pixels` are all inside; the cells `(x + k, y)` with `k < n` that lie on the surface
end with `pix k`, and every other cell of the surface keeps its value. -/
theorem surfaceSetPixels_frame (hw : surf.width < 2 ^ 32)
    (hwh : surf.width * surf.height < 2 ^ 32) (hx : x < 2 ^ 32) {buf : List α}
    (hbuf : buf.length = surf.width * surf.height) :
    ∃ buf', storeAll buf (surfaceSetPixels surf x y n pix) = some buf' ∧
      buf'.length = surf.width * surf.height ∧
      (∀ k < n, x + k < surf.width → y < surf.height →
        buf'[y * surf.width + (x + k)]? = some (pix k)) ∧
      ∀ x' < surf.width, ∀ y' < surf.height,
        (∀ k < n, x + k < surf.width → y < surf.height → (x', y') ≠ (x + k, y)) →
        buf'[y' * surf.width + x']? = buf[y' * surf.width + x']? := by
  have hmem : ∀ s, s ∈ surfaceSetPixels surf x y n pix ↔ y < surf.height ∧
      ∃ k < n, x + k < surf.width ∧ s = (y * surf.width + (x + k), pix k) :=
    fun s => mem_surfaceSetPixels_of_area hw hwh hx
  have hinside : ∀ s ∈ surfaceSetPixels surf x y n pix, s.1 < buf.length := by
    intro s hs
    obtain ⟨hy, k, -, hk, rfl⟩ := (hmem s).mp hs
    rw [hbuf]
    exact pixel_index_lt hk hy
  obtain ⟨buf', hrun, hlen, hread⟩ := storeAll_eq_some hinside
  refine ⟨buf', hrun, hlen.trans hbuf, ?_, ?_⟩
  · -- a pixel that is stored: every store to its index stores it
    intro k hkn hk hy
    rw [congrFun hread (y * surf.width + (x + k))]
    refine applyStores_of_consistent ?_ ?_
    · exact ⟨_, List.mem_map_of_mem ((hmem _).mpr ⟨hy, k, hkn, hk, rfl⟩), rfl⟩
    · intro t ht hti
      obtain ⟨s, hs, rfl⟩ := List.mem_map.mp ht
      obtain ⟨-, j, -, hj, rfl⟩ := (hmem s).mp hs
      obtain ⟨hjk, -⟩ := pixel_index_inj hj hk hti
      rw [Nat.add_left_cancel hjk]
  · -- a cell that is not: no store has its index
    intro x' hx' y' hy' hne
    rw [congrFun hread (y' * surf.width + x')]
    refine applyStores_of_forall_ne fun t ht hti => ?_
    obtain ⟨s, hs, rfl⟩ := List.mem_map.mp ht
    obtain ⟨hy, j, hjn, hj, rfl⟩ := (hmem s).mp hs
    obtain ⟨hjx, hyy⟩ := pixel_index_inj hj hx' hti
    exact hne j hjn hj hy (by rw [hjx, hyy])

/-- Eight pixels from the right column of a `3 × 2` surface: one is stored, and the first cell of
the row below, where the next would land, is unchanged. -/
theorem surfaceSetPixels_frame_edge :
    ∃ buf', storeAll (List.replicate 6 0) (surfaceSetPixels ⟨3, 2⟩ 2 0 8 fun k => k + 1)
        = some buf' ∧ buf'.length = 6 ∧ buf'[2]? = some 1 ∧ buf'[3]? = some 0 := by
  obtain ⟨buf', hrun, hlen, hset, hframe⟩ :=
    @surfaceSetPixels_frame ℕ ⟨3, 2⟩ 2 0 8 (fun k => k + 1) (by norm_num) (by norm_num)
      (by norm_num) (List.replicate 6 0) (by simp)
  refine ⟨buf', hrun, hlen, hset 0 (by norm_num) (by norm_num) (by norm_num), ?_⟩
  exact hframe 0 (by norm_num) 1 (by norm_num) (by simp)

end Frame

end Mdb
