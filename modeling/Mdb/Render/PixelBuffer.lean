import Mdb.Surface.Surface
import Mdb.Tools.Arguments

/-!
The pixel buffer of render mode: `run_render_mode`, `app/render.c`, `render/ogl_render.c` and
`render/ogl_pixel_buffer.c` from the start up to the first frame.

Four copies of the size are made on the way: those of the surface, the render context, the window
and the pixel buffer. `ogl_render_init_render_target` rounds the width of the window, and with it
that of the buffer, down to a multiple of eight; the surface keeps the width it was created with.
`buffer_holds_surface_iff` says for which sizes the buffer holds the surface all the same.
-/

namespace Mdb

/-- `ogl_pixel_buffer`; `data` is the mapped range, given by its number of bytes. -/
structure OglPixelBuffer where
  buffSize : ℕ
  width : ℕ
  height : ℕ
  data : ℕ

/-- `ogl_render`. -/
structure OglRender where
  windowWidth : ℕ
  windowHeight : ℕ
  pbo : Option OglPixelBuffer

/-- `struct render_ctx`. -/
structure RenderCtx where
  surf : SurfaceHandle
  width : ℕ
  height : ℕ

/-- `PBO_SIZE_MULTIPLIER`. -/
def pboSizeMultiplier : ℕ := 8

/-- `sizeof(float)`. -/
def sizeofFloat : ℕ := 4

/-- `ogl_pbo_create`: `glMapBufferRange` maps `buff_size` bytes. -/
def oglPboCreate (width height : ℕ) : OglPixelBuffer :=
  let buffSize := u32 (u32 (width * height) * sizeofFloat)
  { width := width, height := height, buffSize := buffSize, data := buffSize }

/-- `ogl_render_create`. -/
def oglRenderCreate (width height : ℕ) : OglRender :=
  { windowHeight := height, windowWidth := width, pbo := none }

/-- `ogl_render_init_render_target`. -/
def oglRenderInitRenderTarget (rend : OglRender) : OglRender :=
  let widthRem := rend.windowWidth % pboSizeMultiplier
  let rend :=
    if widthRem ≠ 0 then { rend with windowWidth := rend.windowWidth - widthRem } else rend
  { rend with pbo := some (oglPboCreate rend.windowWidth rend.windowHeight) }

/-- What `render_update` does before it runs the frame: the mapped range, read as floats, becomes
the buffer of the surface. -/
def renderUpdate (data : ℕ) (ctx : RenderCtx) : RenderCtx :=
  { ctx with surf := surfaceSetBuffer ctx.surf (data / sizeofFloat) }

/-- `ogl_pbo_update`, the call of `data_update`. -/
def oglPboUpdate (pbo : OglPixelBuffer) (ctx : RenderCtx) : RenderCtx :=
  renderUpdate pbo.data ctx

/-- `render_run` up to the first frame. -/
def renderRun (surf : SurfaceHandle) (width height : ℕ) : Option RenderCtx :=
  let ctx : RenderCtx := { width := width, height := height, surf := surf }
  let rend := oglRenderCreate ctx.width ctx.height
  let rend := oglRenderInitRenderTarget rend
  rend.pbo.map fun pbo => oglPboUpdate pbo ctx

/-- `run_render_mode` up to the first frame. -/
def runRenderMode (args : FrameArgs) : Option RenderCtx :=
  (surfaceCreate args.width args.height (surfaceBufferExt ||| surfaceBufferF32)).bind fun surf =>
    renderRun surf args.width args.height

/-! ### The size of the buffer -/

/-- The width of the pixel buffer. -/
lemma initRenderTarget_pbo (width height : ℕ) :
    (oglRenderInitRenderTarget (oglRenderCreate width height)).pbo
      = some (oglPboCreate (width - width % 8) height) := by
  rw [oglRenderInitRenderTarget, oglRenderCreate, pboSizeMultiplier]
  by_cases hrem : width % 8 ≠ 0
  · rw [if_pos hrem]
  · rw [if_neg hrem, not_ne_iff.mp hrem, Nat.sub_zero]

/-- The surface of the first frame: its size is that of the arguments, its buffer that of the
rounded width. -/
lemma runRenderMode_eq (args : FrameArgs) :
    runRenderMode args = some
      { width := args.width
        height := args.height
        surf :=
          { width := args.width
            height := args.height
            data := some ((oglPboCreate (args.width - args.width % 8) args.height).buffSize / 4) } } := by
  have hflags : (surfaceBufferExt ||| surfaceBufferF32) &&& surfaceBufferCreate = 0 := by decide
  have hext : (surfaceBufferExt ||| surfaceBufferF32) &&& surfaceBufferExt ≠ 0 := by decide
  rw [runRenderMode, surfaceCreate, if_neg (not_not.mpr hflags), if_pos hext, Option.bind_some,
    renderRun, initRenderTarget_pbo]
  rfl

/-- The first frame of render mode can be drawn: the buffer holds the surface, and no call of
`surface_set_pixels` stores outside the buffer. -/
def BufferHoldsSurface (args : FrameArgs) : Prop :=
  ∃ ctx floats, runRenderMode args = some ctx ∧ ctx.surf.data = some floats ∧
    ctx.surf.width * ctx.surf.height ≤ floats ∧
    ∀ x y n (pix : ℕ → ℚ), x < 2 ^ 32 → y < 2 ^ 32 → n < 2 ^ 32 →
      ∀ s ∈ surfaceSetPixels ctx.surf.toSurface x y n pix, s.1 < floats

/-- A store lies below the number of pixels of the surface. -/
lemma surfaceSetPixels_lt (args : FrameArgs) {x y n : ℕ} {pix : ℕ → ℚ} (hx : x < 2 ^ 32)
    {s : PixelStore ℚ} (hs : s ∈ surfaceSetPixels ⟨args.width, args.height⟩ x y n pix) :
    s.1 < args.width * args.height := by
  by_cases hy : y < args.height
  · have hw := args.width_le
    rw [mem_surfaceSetPixels (by dsimp only; omega) hx (args.row_start_lt hy)] at hs
    obtain ⟨-, k, hk, hlt, rfl⟩ := hs
    exact pixel_index_lt hlt hy
  · rw [surfaceSetPixels, if_pos (not_lt.mp hy)] at hs
    exact absurd hs List.not_mem_nil

/-- The floats of the buffer are those of the surface exactly when nothing is rounded off and
nothing wraps. -/
lemma area_le_buffer_iff (args : FrameArgs) :
    args.width * args.height
        ≤ (oglPboCreate (args.width - args.width % 8) args.height).buffSize / 4
      ↔ 8 ∣ args.width ∧ args.width * args.height * 4 < 2 ^ 32 := by
  have hh := args.height_ge
  have harea := args.area_lt
  have hle : (args.width - args.width % 8) * args.height ≤ args.width * args.height :=
    Nat.mul_le_mul_right _ (Nat.sub_le _ _)
  have hbytes : (oglPboCreate (args.width - args.width % 8) args.height).buffSize
      = u32 ((args.width - args.width % 8) * args.height * 4) := by
    rw [oglPboCreate, sizeofFloat, u32_of_lt (lt_of_le_of_lt hle harea)]
  rw [hbytes]
  constructor
  · intro hfit
    have hmod := u32_le ((args.width - args.width % 8) * args.height * 4)
    have hlt := u32_lt ((args.width - args.width % 8) * args.height * 4)
    have hdvd : args.width % 8 = 0 := by
      by_contra hrem
      -- a rounded width is smaller, and the buffer misses a column
      have hcol : (args.width - args.width % 8) * args.height + args.height
          ≤ args.width * args.height := by
        rw [← Nat.succ_mul]
        exact Nat.mul_le_mul_right _ (by have := args.width_ge; omega)
      omega
    rw [hdvd, Nat.sub_zero] at hfit hmod hlt
    exact ⟨Nat.dvd_of_mod_eq_zero hdvd, by omega⟩
  · rintro ⟨hdvd, hlt⟩
    rw [Nat.mod_eq_zero_of_dvd hdvd, Nat.sub_zero, u32_of_lt hlt]
    omega

lemma area_le_buffer {args : FrameArgs} (h : BufferHoldsSurface args) :
    args.width * args.height
      ≤ (oglPboCreate (args.width - args.width % 8) args.height).buffSize / 4 := by
  obtain ⟨ctx, floats, hrun, hdata, hle, -⟩ := h
  rw [runRenderMode_eq, Option.some.injEq] at hrun
  subst hrun
  rw [Option.some.injEq] at hdata
  rwa [hdata]

/-- **When the pixel buffer holds the surface**: the width is a multiple of eight, and the bytes
of the surface are counted in 32 bits. -/
theorem buffer_holds_surface_iff (args : FrameArgs) :
    BufferHoldsSurface args ↔ 8 ∣ args.width ∧ args.width * args.height * 4 < 2 ^ 32 := by
  rw [← area_le_buffer_iff]
  refine ⟨area_le_buffer, fun hle => ?_⟩
  refine ⟨_, _, runRenderMode_eq args, rfl, hle, fun x y n pix hx _ _ s hs => ?_⟩
  exact lt_of_lt_of_le (surfaceSetPixels_lt args hx hs) hle

/-- **A column is missing**: for a frame 513 pixels wide the buffer is 512 pixels wide. -/
theorem buffer_misses_column : ¬ ∀ args, BufferHoldsSurface args := by
  intro h
  have hle := area_le_buffer
    (h { defaultArgs with width := 513, width_ge := by decide, width_le := by decide })
  exact absurd ((area_le_buffer_iff _).mp hle).1 (by decide)

end Mdb
