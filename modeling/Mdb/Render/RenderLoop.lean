import Mdb.App.FrameProgress
import Mdb.Kernel.Events
import Mdb.Render.OpenGl
import Mdb.Render.PixelBuffer

/-!
The render loop: `ogl_render_render_loop` and `key_callback` of `render/ogl_render.c`,
`ogl_pbo_update` and `ogl_pbo_bind_texture0` of `render/ogl_pixel_buffer.c`,
`render/ogl_buffer_sync.c`, and `render_run`, `render_update` and `render_key_callback` of
`app/render.c`.

Three parties share the mapped pixel buffer. The threads of the scheduler store a frame into it; the
render thread issues commands to the GPU and waits for its fences; and the GPU reads the buffer
piece by piece, whenever it comes to an upload. `renderStep` interleaves their steps, for any
`OpenGl`.

* `MachineInv.step_outside`, `MachineInv.step_between`: what the threads do between two frames;
* `step_syncInv`: `rend->sync` is the only sync object;
* `wait_step`: what happens while the render thread waits for the GPU.
-/

namespace Mdb

open CommandQueue

/-! ### Sync objects -/

section Sync

variable {G Y κ α : Type*} (gl : OpenGl G Y α)

/-- `ogl_buffer_lock`. -/
def oglBufferLock (g : G) (sync : Option Y) : G × Option Y :=
  let g := match sync with
    | some y => gl.glDeleteSync g y
    | none => g
  ((gl.glFenceSync g).1, some (gl.glFenceSync g).2)

/-- Whether a round of `ogl_buffer_wait` is the last. -/
def oglBufferWait (g : G) : Option Y → Bool
  | some y => gl.glClientWaitSync g y
  | none => true

/-- The only sync object is that of `rend->sync`, and its fence has been issued. -/
structure SyncInv (M : GlMeaning G Y κ α) (g : G) (sync : Option Y) : Prop where
  only : ∀ y, M.syncs g y ≠ none → sync = some y
  issued : ∀ y, sync = some y → ∃ f, M.syncs g y = some f ∧ f < (M.queue g).fences

variable {gl} {M : GlMeaning G Y κ α} {texels : ℕ} {g g' : G} {sync : Option Y}

/-- `ogl_buffer_lock` issues a fence, and its object is the only one. -/
lemma OpenGl.Documented.lock (h : gl.Documented M texels) (hinv : SyncInv M g sync) :
    M.queue (oglBufferLock gl g sync).1 = (M.queue g).fence ∧
      SyncInv M (oglBufferLock gl g sync).1 (oglBufferLock gl g sync).2 ∧
      ∀ y, (oglBufferLock gl g sync).2 = some y →
        M.syncs (oglBufferLock gl g sync).1 y = some (M.queue g).fences := by
  -- without an object, and the queue as before
  obtain ⟨g', hg', hqueue, hnone⟩ : ∃ g', oglBufferLock gl g sync
      = ((gl.glFenceSync g').1, some (gl.glFenceSync g').2) ∧ M.queue g' = M.queue g ∧
      ∀ y, M.syncs g' y = none := by
    cases sync with
    | none =>
        refine ⟨g, rfl, rfl, fun y => ?_⟩
        by_contra hy
        cases hinv.only y hy
    | some z =>
        refine ⟨gl.glDeleteSync g z, rfl, h.queue_deleteSync g z, fun y => ?_⟩
        obtain ⟨hdeleted, hrest⟩ := h.syncs_deleteSync g z
        by_cases hy : y = z
        · rw [hy, hdeleted]
        · rw [hrest y hy]
          by_contra hne
          exact hy (Option.some.inj (hinv.only y hne)).symm
  obtain ⟨hfence, hrest⟩ := h.syncs_fenceSync g'
  rw [hqueue] at hfence
  rw [hg']
  dsimp only
  rw [h.queue_fenceSync, hqueue]
  refine ⟨rfl, ⟨fun y hy => ?_, fun y hy => ?_⟩, fun y hy => ?_⟩
  · by_contra hne
    rw [hrest y fun heq => hne (by rw [heq]), hnone] at hy
    exact hy rfl
  · obtain rfl := Option.some.inj hy
    rw [hfence, h.queue_fenceSync, hqueue]
    exact ⟨_, rfl, Nat.lt_succ_self _⟩
  · obtain rfl := Option.some.inj hy
    exact hfence

/-- A wait looks at the fence of `rend->sync`. -/
lemma OpenGl.Documented.wait (h : gl.Documented M texels) {y : Y} {f : ℕ}
    (hf : M.syncs g y = some f) : oglBufferWait gl g (some y) = (M.queue g).signaled f :=
  h.clientWaitSync g y f hf

/-- Once the GPU has nothing to do, no wait goes on. -/
lemma SyncInv.wait (hinv : SyncInv M g sync) (h : gl.Documented M texels)
    (hpending : (M.queue g).pending = []) : oglBufferWait gl g sync = true := by
  cases sync with
  | none => rfl
  | some y =>
      obtain ⟨f, hf, hlt⟩ := hinv.issued y rfl
      rw [h.wait hf]
      exact signaled_of_drained hlt hpending

/-- What a command or the GPU does to the sync objects. -/
lemma SyncInv.of_eq (hinv : SyncInv M g sync) (hsyncs : M.syncs g' = M.syncs g)
    (hfences : (M.queue g').fences = (M.queue g).fences) : SyncInv M g' sync := by
  refine ⟨fun y hy => hinv.only y (hsyncs ▸ hy), fun y hy => ?_⟩
  rw [hsyncs, hfences]
  exact hinv.issued y hy

/-- `rend->sync` is a sync object, and the only one. -/
lemma SyncInv.ne_none_iff (hinv : SyncInv M g sync) (y : Y) :
    M.syncs g y ≠ none ↔ sync = some y := by
  refine ⟨hinv.only y, fun hy => ?_⟩
  obtain ⟨f, hf, -⟩ := hinv.issued y hy
  rw [hf]
  exact Option.some_ne_none f

lemma SyncInv.issue (hinv : SyncInv M g sync) {call : G → G} {k : κ} (h : M.Issues call k) :
    SyncInv M (call g) sync :=
  hinv.of_eq (h g).2 (by rw [(h g).1]; rfl)

lemma SyncInv.gpu (hinv : SyncInv M g sync) (h : gl.Documented M texels) {data : ℕ → α}
    (hgpu : gl.gpu data g = some g') : SyncInv M g' sync := by
  obtain ⟨hstep, hsyncs⟩ := h.gpu_step hgpu
  exact hinv.of_eq hsyncs (step_cases hstep).1

end Sync

/-! ### The loop -/

/-- Where the render thread stands: setting up, in a round of the loop, or behind it. -/
inductive RenderPc where
  | start
  | setContext
  | windowTest
  | updateWait
  | hostYield
  | yielding
  | updateLock
  | frameWait
  | clear
  | bindTexture
  | squadEnd
  | frameLock
  | swap
  | poll
  | closed
  | exited
  deriving DecidableEq

/-- What `key_callback` does with a key. -/
inductive KeyEffect where
  | close
  | exposure
  | deliver
  deriving DecidableEq

/-- `key_callback`: escape, `5` and `6` are the render's own. -/
def keyCallback (event : MdbEventKeyboard) : KeyEffect :=
  if event.key = 256 ∧ event.action = 1 then .close
  else if (event.action = 1 ∨ event.action = 2) ∧ (event.key = 53 ∨ event.key = 54) then .exposure
  else .deliver

/-- The threads with the buffer they store into, the GL, `rend->sync`, the render thread, whether
the window should close, and the states of the kernel that frames have been finished with. -/
structure RenderLoop (n : ℕ) (V F C G Y α : Type*) where
  machine : Machine n V F C α
  gl : G
  sync : Option Y
  pc : RenderPc
  shouldClose : Bool
  shown : List V

/-- A step of the threads inside their calls, of the GPU, of the render thread, or of a key that
`glfwPollEvents` reports. -/
inductive RenderAction (n : ℕ) (F C : Type*) where
  | thread (a : MachineAction n F C MdbEventKeyboard)
  | gpu
  | render
  | key (event : MdbEventKeyboard)

section Loop

variable {n : ℕ} {V F C G Y α : Type*} (P : Program V F C MdbEventKeyboard α)
  (gl : OpenGl G Y α) (f : F) (c : C)

/-- A step of the render thread. `render_run` sets the function and enters the loop; a wait that
times out is repeated. -/
def renderThread (s : RenderLoop n V F C G Y α) : Option (RenderLoop n V F C G Y α) :=
  match s.pc with
  | .start =>
      (machineStep P s.machine (.sched (.setUserContext (some f) (some c)))).map fun machine =>
        { s with machine := machine, pc := .setContext }
  | .setContext => if s.machine.sched.pc = .idle then some { s with pc := .windowTest } else none
  | .windowTest => some { s with pc := if s.shouldClose then .closed else .updateWait }
  | .updateWait =>
      some { s with pc := if oglBufferWait gl s.gl s.sync then .hostYield else .updateWait }
  | .hostYield =>
      (machineStep P s.machine (.sched .hostYield)).map fun machine =>
        { s with machine := machine, pc := .yielding }
  | .yielding =>
      match s.machine.sched.pc with
      | .returned true =>
          (machineStep P s.machine (.sched .requeue)).map fun machine =>
            { s with machine := machine, pc := .updateLock, shown := s.shown ++ [s.machine.view] }
      | .returned false => some { s with pc := .exited }
      | _ => none
  | .updateLock =>
      some { s with
        gl := (oglBufferLock gl s.gl s.sync).1
        sync := (oglBufferLock gl s.gl s.sync).2
        pc := .frameWait }
  | .frameWait =>
      some { s with pc := if oglBufferWait gl s.gl s.sync then .clear else .frameWait }
  | .clear => some { s with gl := gl.glClear s.gl, pc := .bindTexture }
  | .bindTexture => some { s with gl := gl.glTexSubImage2D s.gl, pc := .squadEnd }
  | .squadEnd => some { s with gl := gl.glDrawArrays s.gl, pc := .frameLock }
  | .frameLock =>
      some { s with
        gl := (oglBufferLock gl s.gl s.sync).1
        sync := (oglBufferLock gl s.gl s.sync).2
        pc := .swap }
  | .swap => some { s with gl := gl.glfwSwapBuffers s.gl, pc := .poll }
  | .poll => some { s with pc := .windowTest }
  | .closed | .exited => none

/-- A step of the render mode. -/
def renderStep (s : RenderLoop n V F C G Y α) :
    RenderAction n F C → Option (RenderLoop n V F C G Y α)
  | .thread a =>
      if a.ofThread then
        (machineStep P s.machine a).map fun machine => { s with machine := machine }
      else none
  | .gpu => (gl.gpu s.machine.calls.mem s.gl).map fun g => { s with gl := g }
  | .render => renderThread P gl f c s
  | .key event =>
      if s.pc = .poll then
        match keyCallback event with
        | .close => some { s with shouldClose := true }
        | .exposure => some s
        | .deliver => (machineStep P s.machine (.event event)).map fun machine =>
            { s with machine := machine }
      else none

/-- The render mode as a step system. -/
def renderSystem (n : ℕ) : StepSystem (RenderLoop n V F C G Y α) (RenderAction n F C) :=
  ⟨renderStep P gl f c⟩

/-- `ogl_render_create` and `ogl_pbo_create` have been called, and the workers created. The pixel
buffer is bound while `ogl_pbo_create` calls `glTexImage2D`, which therefore uploads it. -/
def renderInit (n : ℕ) (F C : Type*) (view : V) (mem : ℕ → α) (g : G) :
    RenderLoop n V F C G Y α where
  machine := machineInit n F C view mem
  gl := gl.glTexImage2D g
  sync := none
  pc := .start
  shouldClose := false
  shown := []

/-- The condition on a step: a task is taken within the array, and a key leads to a state that the
kernel has frames of. -/
def RenderCond (Ok : V → Prop) (s : RenderLoop n V F C G Y α) : RenderAction n F C → Prop
  | .thread a => MachineWithin P s.machine a
  | .key event => keyCallback event = .deliver → Ok (P.handle s.machine.view event)
  | _ => True

end Loop

/-! ### The threads between two frames -/

section Idle

variable {n : ℕ} {V F C E α : Type*} {P : Program V F C E α} {s s' : Machine n V F C α}

lemma Worker.Parked.idx_eq {length idx idx' : ℕ} {spurious : Bool} {w w' : Worker F C}
    {ev : WorkerEvent} (hw : w.Parked)
    (h : workerStep length spurious idx w = some (idx', w', ev)) : idx' = idx := by
  rw [Worker.Parked] at hw
  rw [workerStep] at h
  split at hw
  · rename_i hpc
    simp only [hpc, Option.some.injEq, Prod.mk.injEq] at h
    exact h.1.symm
  · rename_i hpc
    simp only [hpc, Option.some.injEq, Prod.mk.injEq] at h
    exact h.1.symm
  · exact hw.elim

lemma Worker.Arriving.idx_eq {length idx idx' : ℕ} {spurious : Bool} {w w' : Worker F C}
    {ev : WorkerEvent} (hw : w.Arriving)
    (h : workerStep length spurious idx w = some (idx', w', ev)) : idx' = idx := by
  rw [workerStep, hw.1, Option.some.injEq, Prod.mk.injEq] at h
  exact h.1.symm

/-- Outside of a round the workers are parked, or on their way there. -/
lemma level_of_not_inRound {pc : HostPc n} (h : pc.inRound = false) (i : Fin n) :
    pc.level i = .parked ∨ pc.level i = .resting := by
  cases pc with
  | waitSignal caller k =>
      cases caller with
      | create => rw [HostPc.level]; split <;> simp [WaitCaller.level]
      | yield => cases h
  | waitState caller k =>
      cases caller with
      | create => rw [HostPc.level]; split_ifs <;> simp [WaitCaller.level, WaitCaller.seen]
      | yield => cases h
  | send k esig => cases h
  | pop pc => cases h
  | call task => cases h
  | procFun task => cases h
  | _ => exact Or.inl rfl

/-- Outside of a round no thread takes a task. -/
lemma schedStep_idx {length : ℕ} {s s' : Sched n F C} (hbar : BarrierInv s)
    (hround : s.pc.inRound = false) {a : SchedAction n F C} {t : Option (Fin n)}
    (ht : a.thread = some t) (h : schedStep length s a = some s') : s'.idx = s.idx := by
  cases a with
  | worker i spurious =>
      obtain ⟨idx, w, ev, hw, rfl⟩ := schedStep_worker_inv h
      have hidx : idx = s.idx := by
        have hi := hbar.at_level i
        rcases level_of_not_inRound hround i with hl | hl <;> rw [hl] at hi
        · exact Worker.Parked.idx_eq hi hw
        · exact hi.elim (fun hi => hi.idx_eq hw) fun hi => hi.idx_eq hw
      cases ev <;> exact hidx
  | host spurious =>
      rw [schedStep, hostStep] at h
      cases hpc : s.pc <;> simp only [hpc, Option.some.injEq, reduceCtorEq] at h
      case setLock k =>
        split_ifs at h
        rw [← Option.some.inj h]
        rfl
      case pop pc =>
        rw [hpc] at hround
        cases hround
      all_goals
        subst h
        rfl
  | _ => cases ht

/-- The host has no step between its calls. -/
lemma hostStep_between {length : ℕ} {spurious : Bool} {r : Sched n F C}
    (hpc : r.pc.between = true) : hostStep length spurious r = none := by
  rw [hostStep]
  cases hr : r.pc with
  | idle => rfl
  | returned ok => rfl
  | _ => simp [hr, HostPc.between] at hpc

/-- Outside of a round the threads leave the queue alone, and do not enter one. -/
lemma MachineInv.step_outside (hinv : MachineInv P s) (hround : s.sched.pc.inRound = false)
    {a : MachineAction n F C E} (ha : a.ofThread = true) (h : machineStep P s a = some s') :
    s'.sched.pc.inRound = false ∧ s'.sched.idx = s.sched.idx := by
  cases a with
  | sched a =>
      obtain ⟨t, ht⟩ := Option.isSome_iff_exists.mp ha
      obtain ⟨sched, calls, hsched, -, rfl⟩ := machineStep_sched_inv h
      refine ⟨?_, schedStep_idx hinv.sched.barrier hround ht hsched⟩
      by_contra hr
      have hback := (schedStep_thread ht hsched).1.2.1 (Bool.eq_true_of_not_eq_false hr)
      rw [hround] at hback
      cases hback
  | store t =>
      obtain ⟨calls, -, rfl⟩ := Option.map_eq_some_iff.mp h
      exact ⟨hround, rfl⟩
  | event e => cases ha

/-- While the host is between its calls, the threads store nothing. -/
lemma MachineInv.step_between (hinv : MachineInv P s) (hpc : s.sched.pc.between = true)
    {a : MachineAction n F C E} (ha : a.ofThread = true) (h : machineStep P s a = some s') :
    s'.sched.pc = s.sched.pc ∧ s'.calls.mem = s.calls.mem := by
  cases a with
  | sched a =>
      obtain ⟨sched, calls, hsched, hcalls, rfl⟩ := machineStep_sched_inv h
      cases a with
      | worker i spurious =>
          have hmem := (threadCalls_begun
            (show P.threadCalls s (some i) = some calls from hcalls)).1
          obtain ⟨idx, w, ev, hw, rfl⟩ := schedStep_worker_inv hsched
          exact ⟨by rw [record_pc]; rfl, hmem⟩
      | host spurious =>
          rw [schedStep, hostStep_between hpc] at hsched
          cases hsched
      | _ => cases ha
  | store t =>
      obtain ⟨calls, hcalls, -⟩ := Option.map_eq_some_iff.mp h
      obtain ⟨x, rest, htodo, -⟩ := StoreCalls.store_inv hcalls
      rw [hinv.outside t fun task => by simp [hinv.sched.free_of_between hpc]] at htodo
      cases htodo
  | event e => cases ha

end Idle

/-! ### Sync objects in the loop -/

section SyncObjects

variable {n : ℕ} {V F C G Y κ α : Type*} {P : Program V F C MdbEventKeyboard α}
  {gl : OpenGl G Y α} {M : GlMeaning G Y κ α} {texels : ℕ} {f : F} {c : C}
  {s s' : RenderLoop n V F C G Y α}

lemma syncInv_init (hgl : gl.Documented M texels) {g : G} (hg : M.Fresh g) {view : V}
    {mem : ℕ → α} :
    SyncInv M (renderInit gl n F C view mem g).gl (renderInit gl n F C view mem g).sync := by
  have hfresh : SyncInv M g (none : Option Y) :=
    ⟨fun y hy => absurd (hg.syncs y) hy, fun y hy => by cases hy⟩
  exact hfresh.issue hgl.texImage

/-- A step keeps track of the sync objects. -/
lemma step_syncInv (hgl : gl.Documented M texels) (hinv : SyncInv M s.gl s.sync)
    {a : RenderAction n F C} (h : renderStep P gl f c s a = some s') :
    SyncInv M s'.gl s'.sync := by
  cases a with
  | thread a =>
      rw [renderStep] at h
      split_ifs at h
      obtain ⟨machine, -, rfl⟩ := Option.map_eq_some_iff.mp h
      exact hinv
  | gpu =>
      obtain ⟨g, hg, rfl⟩ := Option.map_eq_some_iff.mp h
      exact hinv.gpu hgl hg
  | render =>
      rw [renderStep, renderThread] at h
      cases hpc : s.pc <;> simp only [hpc, Option.some.injEq, reduceCtorEq] at h
      case start | hostYield =>
        obtain ⟨machine, -, rfl⟩ := Option.map_eq_some_iff.mp h
        exact hinv
      case setContext =>
        split_ifs at h
        exact Option.some.inj h ▸ hinv
      case yielding =>
        split at h
        · obtain ⟨machine, -, rfl⟩ := Option.map_eq_some_iff.mp h
          exact hinv
        · exact Option.some.inj h ▸ hinv
        · cases h
      case updateLock | frameLock => exact h ▸ (hgl.lock hinv).2.1
      case clear => exact h ▸ hinv.issue hgl.clear
      case bindTexture => exact h ▸ hinv.issue hgl.texSubImage
      case squadEnd => exact h ▸ hinv.issue hgl.drawArrays
      case swap => exact h ▸ hinv.issue hgl.swapBuffers
      all_goals exact h ▸ hinv
  | key event =>
      rw [renderStep] at h
      split_ifs at h
      cases hkey : keyCallback event <;> simp only [hkey, Option.some.injEq] at h
      case deliver =>
        obtain ⟨machine, -, rfl⟩ := Option.map_eq_some_iff.mp h
        exact hinv
      all_goals exact h ▸ hinv

/-! ### Waits -/

/-- Places where the render thread waits for the GPU. -/
def RenderPc.waiting : RenderPc → Bool
  | .updateWait | .frameWait => true
  | _ => false

/-- Where the render thread goes on when a wait is over. -/
def RenderPc.past : RenderPc → RenderPc
  | .updateWait => .hostYield
  | .frameWait => .clear
  | pc => pc

/-- A step while the render thread waits: the wait ends; or the GPU has less to do; or nothing
happens to the queue, and the render thread goes on only to wait for a GPU that has work. -/
lemma wait_step (hgl : gl.Documented M texels) (hwaiting : s.pc.waiting = true)
    (hinv : SyncInv M s.gl s.sync) {a : RenderAction n F C}
    (h : renderStep P gl f c s a = some s') :
    (a = .render ∧ s'.pc = s.pc.past) ∨ (s'.pc = s.pc ∧
      ((M.queue s'.gl).waiting M.device < (M.queue s.gl).waiting M.device ∨
        s'.gl = s.gl ∧ a ≠ .gpu ∧ (a = .render → (M.queue s.gl).pending ≠ []))) := by
  cases a with
  | thread a =>
      rw [renderStep] at h
      split_ifs at h
      obtain ⟨machine, -, rfl⟩ := Option.map_eq_some_iff.mp h
      exact Or.inr ⟨rfl, Or.inr ⟨rfl, nofun, nofun⟩⟩
  | gpu =>
      obtain ⟨g, hg, rfl⟩ := Option.map_eq_some_iff.mp h
      exact Or.inr ⟨rfl, Or.inl (waiting_step (hgl.gpu_step hg).1)⟩
  | render =>
      have hbusy : oglBufferWait gl s.gl s.sync = false → (M.queue s.gl).pending ≠ [] := by
        intro hwait hpending
        rw [hinv.wait hgl hpending] at hwait
        cases hwait
      rw [renderStep, renderThread] at h
      cases hpc : s.pc <;> rw [hpc] at hwaiting <;>
        simp only [hpc, Option.some.injEq, reduceCtorEq] at h
      case updateWait | frameWait =>
        subst h
        cases hwait : oglBufferWait gl s.gl s.sync with
        | false => exact Or.inr ⟨rfl, Or.inr ⟨rfl, nofun, fun _ => hbusy hwait⟩⟩
        | true => exact Or.inl ⟨rfl, rfl⟩
      all_goals cases hwaiting
  | key event =>
      rw [renderStep] at h
      split_ifs at h with hpc
      rw [hpc] at hwaiting
      cases hwaiting

end SyncObjects

end Mdb
