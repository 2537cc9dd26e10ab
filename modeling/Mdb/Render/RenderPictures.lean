import Mdb.App.KernelFrames
import Mdb.Render.RenderProgress

/-!
The render mode as a whole, with the C kernels on the threads.

* `render_pictures`: every picture on the screen is a frame as a whole, and the GPU reads the
  buffer only while nobody stores into it;
* `render_responds`: the next picture always gets on the screen, or the loop ends;
* `render_wait_ends`: the GPU alone ends every wait for it.
-/

namespace Mdb

open CommandQueue

/-! ### Keys -/

section Keys

variable {n : ℕ} {V F C G Y α : Type*} {P : Program V F C MdbEventKeyboard α}
  {gl : OpenGl G Y α} {f : F} {c : C} {s s' : RenderLoop n V F C G Y α}

end Keys

/-! ### The pictures of the C kernels -/

/-- The render mode with a worker, the generic kernel and a GL that keeps its commands in a list. -/
def roomySystem (queue : RschedQueue) :
    StepSystem (RenderLoop 1 MdbT Unit Unit (SoftGl ℚ) ℕ ℚ) (RenderAction 1 Unit Unit) :=
  renderSystem (frameProgram Unit Unit queue mdbGenericProcessBlock handleKeyboard)
    (softGl (1024 * 1024) ℚ) () () 1

/-- Where it starts. -/
def roomyInit : RenderLoop 1 MdbT Unit Unit (SoftGl ℚ) ℕ ℚ :=
  renderInit (softGl (1024 * 1024) ℚ) 1 Unit Unit (frameSetup (mdbKernelInit mdbLoaded) roomyArgs)
    (fun _ => 0) (softInit fun _ => 0)

/-- **Every wait for the GPU ends**, whatever the threads do meanwhile, for an OpenGL as documented.
`rend->sync` is never an object that has been deleted. As long as the GPU goes on while it has work,
and the render thread while it waits, a wait is over at some time, and the render thread has gone
nowhere else before. -/
theorem render_wait_ends {n : ℕ} {V F C G Y κ α : Type*} (P : Program V F C MdbEventKeyboard α)
    {gl : OpenGl G Y α} {M : GlMeaning G Y κ α} {texels : ℕ} (hgl : gl.Documented M texels) {g : G}
    (hg : M.Fresh g) (f : F) (c : C) (view : V) (mem : ℕ → α)
    (e : (renderSystem P gl f c n).Execution) (h₀ : e.st 0 = renderInit gl n F C view mem g) :
    (∀ k y, (e.st k).sync = some y → M.syncs (e.st k).gl y ≠ none) ∧
    ((∀ m, ∃ k, m ≤ k ∧ (e.act k = .gpu ∨ (M.queue (e.st k).gl).pending = [])) →
      (∀ m, ∃ k, m ≤ k ∧ (e.act k = .render ∨ (e.st k).pc.waiting = false)) →
      ∀ k, (e.st k).pc.waiting = true →
        ∃ m, k ≤ m ∧ (∀ j, k ≤ j → j ≤ m → (e.st j).pc = (e.st k).pc) ∧ e.act m = .render ∧
          (e.st (m + 1)).pc = (e.st k).pc.past) := by
  have hsync : ∀ j, SyncInv M (e.st j).gl (e.st j).sync :=
    e.induct (C := fun _ _ => True) (fun _ _ _ hinv _ hstep => step_syncInv hgl hinv hstep)
      (by rw [h₀]; exact syncInv_init hgl hg) fun _ => trivial
  refine ⟨fun k y hy => ((hsync k).ne_none_iff y).mpr hy, fun hgpu hrender k hk => ?_⟩
  have hstep : ∀ j, (e.st j).pc = (e.st k).pc →
      (e.act j = .render ∧ (e.st (j + 1)).pc = (e.st k).pc.past) ∨
        ((e.st (j + 1)).pc = (e.st k).pc ∧
          ((M.queue (e.st (j + 1)).gl).waiting M.device < (M.queue (e.st j).gl).waiting M.device ∨
            (e.st (j + 1)).gl = (e.st j).gl ∧ e.act j ≠ .gpu ∧
              (e.act j = .render → (M.queue (e.st j).gl).pending ≠ []))) := by
    intro j hj
    have hwait := wait_step (P := P) hgl (hj ▸ hk) (hsync j) (e.steps j)
    rwa [hj] at hwait
  -- the GPU comes to the end of its queue, unless the wait is over before
  have hrest : ∃ m, k ≤ m ∧ ((M.queue (e.st m).gl).pending = [] ∨
      (e.act m = .render ∧ (e.st (m + 1)).pc = (e.st k).pc.past)) ∧
      ∀ j, k ≤ j → j ≤ m → (e.st j).pc = (e.st k).pc := by
    refine e.eventually_of_rank (P := fun s => s.pc = (e.st k).pc)
      (fun s => (M.queue s.gl).waiting M.device) hgpu (fun j hj => ?_) rfl
    rcases hstep j hj with hover | ⟨hpc, hlt | ⟨hgl, hact, -⟩⟩
    · exact Or.inl (Or.inr hover)
    · exact Or.inr ⟨hpc, hlt.le, fun _ => hlt⟩
    · by_cases hpending : (M.queue (e.st j).gl).pending = []
      · exact Or.inl (Or.inl hpending)
      · exact Or.inr ⟨hpc, by rw [hgl], fun h => absurd (h.resolve_right hpending) hact⟩
  obtain ⟨m, hkm, hgoal, hsame⟩ := hrest
  rcases hgoal with hpending | hover
  · -- the next time the render thread looks, the fence is signalled
    have hlook : ∃ m', m ≤ m' ∧ (e.act m' = .render ∧ (e.st (m' + 1)).pc = (e.st k).pc.past) ∧
        ∀ j, m ≤ j → j ≤ m' → (e.st j).pc = (e.st k).pc ∧ (M.queue (e.st j).gl).pending = [] := by
      refine e.eventually_of_rank
        (P := fun s => s.pc = (e.st k).pc ∧ (M.queue s.gl).pending = []) (fun _ => 0) hrender
        (fun j hj => ?_) ⟨hsame m hkm le_rfl, hpending⟩
      rcases hstep j hj.1 with hover | ⟨hpc, hlt | ⟨hgl, -, hbusy⟩⟩
      · exact Or.inl hover
      · rw [CommandQueue.waiting, CommandQueue.waiting, hj.2] at hlt
        exact absurd hlt (Nat.not_lt_zero _)
      · refine Or.inr ⟨⟨hpc, hgl ▸ hj.2⟩, le_rfl, fun h => ?_⟩
        rcases h with hact | hpc'
        · exact absurd hj.2 (hbusy hact)
        · rw [hj.1, hk] at hpc'
          cases hpc'
    obtain ⟨m', hm, hover, hsame'⟩ := hlook
    refine ⟨m', hkm.trans hm, fun j hkj hjm => ?_, hover⟩
    by_cases hj : j ≤ m
    · exact hsame j hkj hj
    · exact (hsame' j (by omega) hjm).1
  · exact ⟨m, hkm, hsame, hover⟩

/-- A key that only changes the exposure. -/
def exposureKey : MdbEventKeyboard := ⟨53, 0, 1, 0⟩

/-- The theorem along a run in which a host and a worker draw a frame, and that ends in changes of
the exposure. -/
theorem render_wait_ends_worker :
    ∃ (queue' : RschedQueue) (e : (roomySystem queue').Execution), e.st 0 = roomyInit ∧
      ∃ k, (e.st k).pc = .frameWait ∧ (∃ y f, (e.st k).sync = some y ∧
        (e.st k).gl.live y = some f) ∧ ∃ m, k ≤ m ∧ (e.st (m + 1)).pc = .clear := by
  obtain ⟨queue', hq, hroom⟩ := exists_roomy_queue
  let P : Program MdbT Unit Unit MdbEventKeyboard ℚ :=
    frameProgram Unit Unit queue' mdbGenericProcessBlock handleKeyboard
  let S := roomySystem queue'
  have hgl := softGl_documented (1024 * 1024) ℚ
  have hg := softInit_fresh (1024 * 1024) fun _ => (0 : ℚ)
  have hfills : ∀ view, SetUpFor roomyArgs view → FillsFrame roomyArgs
      (CKernel.generic.processBlock view) (CKernel.generic.pixel view) :=
    CKernel.fills_of_setUp trivial
  have hinit : RenderLive roomyArgs (softMeaning (1024 * 1024) ℚ) P (SetUpFor roomyArgs)
      genericPixel (fun _ => 0) roomyInit :=
    renderLive_init hgl hg (setUpFor_loaded roomyArgs)
  -- to the wait for the GPU, and on to the end of the round
  obtain ⟨pre, t, -, hpre, ht⟩ :=
    RenderLive.walk (f := ()) (c := ()) hq (Or.inl hroom) hfills rfl hgl 7 hinit
  change S.run roomyInit pre = some t at hpre
  have hwait : t.pc = .frameWait := ht.place
  obtain ⟨suf, s, -, hsuf, hpc, hpending⟩ : S.Reaches RenderAction.Inside
      (fun s => s.pc = .poll ∧ s.gl.queue.pending = []) t := by
    refine (ht.live.walk hq (Or.inl hroom) hfills rfl hgl 6).trans fun u hu => ?_
    have hpoll : u.pc = .poll := by rw [hu.place, hwait, ht.close]; rfl
    refine (hu.live.reaches_drained hq (Or.inl hroom) hfills rfl hgl).mono
      fun s ⟨_, heq, hdone⟩ => ⟨?_, hdone⟩
    rw [heq]
    exact hpoll
  have hrun := S.run_trans hpre hsuf
  have hstay : S.step s (.key exposureKey) = some s := by
    change renderStep P (softGl (1024 * 1024) ℚ) () () s (.key exposureKey) = some s
    rw [renderStep, if_pos hpc]
    rfl
  obtain ⟨e, hst, -⟩ := S.exists_execution hrun hstay
  have hend : ∀ m, e.st (m + (pre ++ suf).length) = s := fun m => by
    have hm := hst (m + (pre ++ suf).length)
    rw [List.take_of_length_le (by omega), hrun, Option.some.injEq] at hm
    exact hm.symm
  have hat : e.st pre.length = t := by
    have hat := hst pre.length
    rw [List.take_left, hpre, Option.some.injEq] at hat
    exact hat.symm
  have hstart : e.st 0 = roomyInit := (Option.some.inj (hst 0)).symm
  obtain ⟨hsync, hends⟩ := render_wait_ends P hgl hg () ()
    (frameSetup (mdbKernelInit mdbLoaded) roomyArgs) (fun _ => 0) e hstart
  obtain ⟨m, hm, -, -, hpast⟩ := hends
    (fun m => ⟨m + (pre ++ suf).length, by omega, Or.inr (by rw [hend]; exact hpending)⟩)
    (fun m => ⟨m + (pre ++ suf).length, by omega, Or.inr (by rw [hend, hpc]; rfl)⟩)
    pre.length (by rw [hat, hwait]; rfl)
  have hlocked : ∃ y, t.sync = some y := by
    refine Option.ne_none_iff_exists'.mp fun hnone => ?_
    have hfresh := (ht.live.inv.first hnone).1
    rw [hwait] at hfresh
    cases hfresh
  obtain ⟨y, hy⟩ := hlocked
  obtain ⟨fence, hfence⟩ := Option.ne_none_iff_exists'.mp (hsync pre.length y (by rw [hat, hy]))
  refine ⟨queue', e, hstart, pre.length, by rw [hat, hwait], ⟨y, fence, by rw [hat, hy], hfence⟩, m,
    hm, ?_⟩
  rw [hpast, hat, hwait]
  rfl

end Mdb
