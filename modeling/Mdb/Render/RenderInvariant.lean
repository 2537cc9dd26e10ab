import Mdb.Render.RenderLoop

/-!
The invariant of the render mode, by the place of the render thread.

A frame goes from the buffer to the texture, to the back buffer and to the screen, and the GPU may
lag behind by a whole round. `ShownAt` says where the frame is once the GPU has done all that is
waiting; `WaitsAt` says which of the waiting commands may still read the buffer.

* `run_renderInv`: the invariant holds after every run whose steps are `RenderCond`;
* `RenderInv.safe`: it rules out what no run may do wrong.
-/

namespace Mdb

open CommandQueue

/-! ### The invariant -/

section Invariant

/-- The render thread is in the loop, and not inside `rsched_host_yield`. -/
def RenderPc.idle : RenderPc → Bool
  | .start | .setContext | .yielding | .exited => false
  | _ => true

/-- Places where `rend->sync` may be `NULL`. -/
def RenderPc.fresh : RenderPc → Bool
  | .frameWait | .clear | .bindTexture | .squadEnd | .frameLock | .swap | .poll => false
  | _ => true

/-- What waits for the GPU, by the place of the render thread, once there is a fence: nothing that
reads the buffer while a frame is drawn, and nothing behind the fence up to a wait for it. -/
def WaitsAt {κ α : Type*} (D : Device (ℕ → α) κ (GlScreen α)) (q : CommandQueue κ (GlScreen α))
    (f : ℕ) : RenderPc → Prop
  | .start | .setContext | .hostYield | .yielding | .updateLock | .exited => Still D q.pending
  | .clear | .bindTexture | .squadEnd | .frameLock => True
  | .windowTest | .updateWait | .frameWait | .swap | .poll | .closed => Fenced D q f

section Shown

variable {V α : Type*} (args : FrameArgs) (v : V → ℕ → ℕ → α)

/-- A picture is the frame of a state of the kernel. -/
def Shows (img : Option (ℕ → α)) (view : V) : Prop :=
  ∃ data, img = some data ∧ ∀ x y, x < args.width → y < args.height →
    data (y * args.width + x) = v view x y

/-- The pictures on the screen are the frames of the states. -/
def Presents (d : GlScreen α) (views : List V) : Prop :=
  List.Forall₂ (Shows args v) d.presented views

/-- All frames but the last one are on the screen, and the last one is a given picture. -/
def NextIs (img : Option (ℕ → α)) (d : GlScreen α) (shown : List V) : Prop :=
  ∃ old view, shown = old ++ [view] ∧ Presents args v d old ∧ Shows args v img view

/-- Where the last frame is, by the place of the render thread, once the GPU has done all that is
waiting: in the buffer, in the texture, in the back buffer, or on the screen. -/
def ShownAt (data : ℕ → α) (d : GlScreen α) (shown : List V) : RenderPc → Prop
  | .updateLock | .frameWait | .clear | .bindTexture => NextIs args v (some data) d shown
  | .squadEnd => NextIs args v (some d.texture) d shown
  | .frameLock | .swap => NextIs args v d.back d shown
  | .start | .setContext | .windowTest | .updateWait | .hostYield | .yielding | .poll | .closed
  | .exited => Presents args v d shown

end Shown

variable {n : ℕ} {V F C G Y κ α : Type*}

/-- Before the first frame only uploads wait for the GPU, and nothing has been on the screen. -/
structure OnlyUploads (M : GlMeaning G Y κ α) (g : G) : Prop where
  uploads : Only M.device M.upload (M.queue g).pending
  presented : (M.queue g).device.presented = []

/-- The invariant of the render mode. -/
structure RenderInv (args : FrameArgs) (M : GlMeaning G Y κ α)
    (P : Program V F C MdbEventKeyboard α) (Ok : V → Prop) (v : V → ℕ → ℕ → α) (mem : ℕ → α)
    (s : RenderLoop n V F C G Y α) : Prop where
  frame : FrameInv args P Ok mem s.machine
  idle : s.pc.idle = true → s.machine.sched.pc = .idle
  full : s.pc ≠ .yielding → s.machine.sched.pc.inRound = false ∧ s.machine.sched.idx = 0
  user : s.pc ≠ .start → s.machine.sched.userFun ≠ none
  sync : SyncInv M s.gl s.sync
  first : s.sync = none → s.pc.fresh = true ∧ OnlyUploads M s.gl
  waits : ∀ y, s.sync = some y → ∀ f, M.syncs s.gl y = some f →
    WaitsAt M.device (M.queue s.gl) f s.pc
  shown : ShownAt args v s.machine.calls.mem
    ((M.queue s.gl).flush M.device s.machine.calls.mem) s.shown s.pc
  alive : s.pc ≠ .exited

section Steps

variable {args : FrameArgs} {queue : RschedQueue} {P : Program V F C MdbEventKeyboard α}
  {Ok : V → Prop} {kernel : V → RschedTask → Option (List (PixelStore α))} {v : V → ℕ → ℕ → α}
  {handle : V → MdbEventKeyboard → V} {mem : ℕ → α} {f : F} {c : C}
  {gl : OpenGl G Y α} {M : GlMeaning G Y κ α} {s s' : RenderLoop n V F C G Y α}

/-- A step of the machine that the render loop takes, or its threads. -/
lemma ofThread_frameStep {a : MachineAction n F C MdbEventKeyboard} (ha : a.ofThread = true)
    {m : Machine n V F C α} (h : MachineWithin P m a) : FrameStep P Ok m a := by
  cases a with
  | sched a =>
      refine ⟨h, fun userFun userCtx heq => ?_⟩
      subst heq
      cases ha
  | store t => trivial
  | event e => cases ha

/-- What is uploaded before the first frame shows nothing. -/
lemma OnlyUploads.flush (hgl : gl.Documented M (args.width * args.height)) {g : G}
    (h : OnlyUploads M g) (data : ℕ → α) : ((M.queue g).flush M.device data).presented = [] := by
  rw [Only.flush GlScreen.presented h.uploads hgl.upload_presented, h.presented]

lemma OnlyUploads.gpu (hgl : gl.Documented M (args.width * args.height)) {g g' : G}
    (h : OnlyUploads M g) {data : ℕ → α} (hgpu : gl.gpu data g = some g') : OnlyUploads M g' := by
  obtain ⟨hstep, -⟩ := hgl.gpu_step hgpu
  refine ⟨h.uploads.step hstep, ?_⟩
  rw [Only.device_step GlScreen.presented h.uploads hgl.upload_presented hstep,
    h.presented]

/-- While the render thread is not in the loop, or waits for a frame, all frames are on the screen
and what is stored does not matter to the pictures. -/
lemma RenderInv.presents (hgl : gl.Documented M (args.width * args.height))
    (hinv : RenderInv args M P Ok v mem s) (hpc : s.pc.idle = false) (data : ℕ → α) :
    Presents args v ((M.queue s.gl).flush M.device data) s.shown := by
  have hshown : Presents args v ((M.queue s.gl).flush M.device s.machine.calls.mem) s.shown := by
    have h := hinv.shown
    cases hs : s.pc <;> rw [hs] at hpc h <;> first | exact h | cases hpc
  cases hsync : s.sync with
  | none =>
      have hfresh := (hinv.first hsync).2
      rw [Presents, hfresh.flush hgl] at hshown ⊢
      exact hshown
  | some y =>
      obtain ⟨f, hf, -⟩ := hinv.sync.issued y hsync
      have hstill : Still M.device (M.queue s.gl).pending := by
        have h := hinv.waits y hsync f hf
        cases hs : s.pc <;> rw [hs] at hpc h <;> first | exact h | cases hpc
      rw [flush_congr hstill data s.machine.calls.mem]
      exact hshown

/-- The threads inside their calls. -/
lemma thread_renderInv (hgl : gl.Documented M (args.width * args.height))
    (hcells : CellsOf args queue) (hcap : queue.tasks.length < 2 ^ 32)
    (hfills : ∀ view, Ok view → FillsFrame args (kernel view) (v view))
    (hinv : RenderInv args M (frameProgram F C queue kernel handle) Ok v mem s)
    {a : MachineAction n F C MdbEventKeyboard} (ha : a.ofThread = true)
    (hwithin : MachineWithin (frameProgram F C queue kernel handle) s.machine a)
    {machine : Machine n V F C α}
    (h : machineStep (frameProgram F C queue kernel handle) s.machine a = some machine) :
    RenderInv args M (frameProgram F C queue kernel handle) Ok v mem
      { s with machine := machine } := by
  have hmachine := hinv.frame.machine
  obtain ⟨huser, -⟩ := ofThread_user ha h
  refine ⟨step_frameInv hcells hcap hfills hinv.frame (ofThread_frameStep ha hwithin) h,
    fun hidle => ?_, fun hpc => ?_, fun hpc => ?_, hinv.sync, hinv.first, hinv.waits, ?_,
    hinv.alive⟩
  · have hpc := hinv.idle hidle
    exact (hmachine.step_between (by rw [hpc]; rfl) ha h).1.trans hpc
  · obtain ⟨hround, hidx⟩ := hinv.full hpc
    obtain ⟨hround', hidx'⟩ := hmachine.step_outside hround ha h
    exact ⟨hround', hidx'.trans hidx⟩
  · dsimp only
    rw [huser]
    exact hinv.user hpc
  · by_cases hidle : s.pc.idle = true
    · -- nobody stores
      have hpc := hinv.idle hidle
      dsimp only
      rw [(hmachine.step_between (by rw [hpc]; rfl) ha h).2]
      exact hinv.shown
    · have hpresents := hinv.presents hgl (Bool.eq_false_iff.mpr hidle) machine.calls.mem
      dsimp only
      cases hpc : s.pc <;> rw [hpc] at hidle <;>
        first
          | exact hpresents
          | exact absurd rfl hidle

/-- The GPU. -/
lemma gpu_renderInv (hgl : gl.Documented M (args.width * args.height))
    (hinv : RenderInv args M P Ok v mem s) {g : G}
    (h : gl.gpu s.machine.calls.mem s.gl = some g) :
    RenderInv args M P Ok v mem { s with gl := g } := by
  obtain ⟨hstep, hsyncs⟩ := hgl.gpu_step h
  refine ⟨hinv.frame, hinv.idle, hinv.full, hinv.user, hinv.sync.gpu hgl h,
    fun hsync => ⟨(hinv.first hsync).1, (hinv.first hsync).2.gpu hgl h⟩,
    fun y hy f hf => ?_, ?_, hinv.alive⟩
  · have hwaits := hinv.waits y hy f (hsyncs ▸ hf)
    dsimp only
    cases hpc : s.pc <;> rw [hpc] at hwaits <;>
      first
        | exact Still.step hwaits hstep
        | exact Fenced.step hwaits hstep
        | trivial
  · dsimp only
    rw [flush_step hstep]
    exact hinv.shown

/-- The render thread goes on without a command. -/
lemma RenderInv.goto (hinv : RenderInv args M P Ok v mem s) {pc : RenderPc}
    (hpc : s.pc ≠ .start ∧ s.pc ≠ .yielding) (hmachine : s.machine.sched.pc = .idle)
    (halive : pc ≠ .exited) (hfresh : s.sync = none → pc.fresh = true)
    (hwaits : ∀ y, s.sync = some y → ∀ f, M.syncs s.gl y = some f →
      WaitsAt M.device (M.queue s.gl) f s.pc → WaitsAt M.device (M.queue s.gl) f pc)
    (hshown : ∀ data d, ShownAt args v data d s.shown s.pc → ShownAt args v data d s.shown pc) :
    RenderInv args M P Ok v mem { s with pc := pc } where
  frame := hinv.frame
  idle := fun _ => hmachine
  full := fun _ => hinv.full hpc.2
  user := fun _ => hinv.user hpc.1
  sync := hinv.sync
  first := fun hsync => ⟨hfresh hsync, (hinv.first hsync).2⟩
  waits := fun y hy f hf => hwaits y hy f hf (hinv.waits y hy f hf)
  shown := hshown _ _ hinv.shown
  alive := halive

/-- The render thread issues a command. -/
lemma RenderInv.issue (hinv : RenderInv args M P Ok v mem s) {pc : RenderPc} {call : G → G} {k : κ}
    (hcall : M.Issues call k) (hidle : s.pc.idle = true) (hfresh : s.pc.fresh = false)
    (halive : pc ≠ .exited)
    (hwaits : ∀ f, WaitsAt M.device (M.queue s.gl) f s.pc →
      WaitsAt M.device ((M.queue s.gl).issue k) f pc)
    (hshown : ∀ data d, ShownAt args v data d s.shown s.pc →
      ShownAt args v data (M.device.run data k d) s.shown pc) :
    RenderInv args M P Ok v mem { s with gl := call s.gl, pc := pc } where
  frame := hinv.frame
  idle := fun _ => hinv.idle hidle
  full := fun _ => hinv.full fun h => by rw [h] at hidle; cases hidle
  user := fun _ => hinv.user fun h => by rw [h] at hidle; cases hidle
  sync := hinv.sync.issue hcall
  first := fun hsync => by
    have h := (hinv.first hsync).1
    rw [hfresh] at h
    cases h
  waits := fun y hy f hf => by
    dsimp only at hf ⊢
    rw [(hcall s.gl).2] at hf
    rw [(hcall s.gl).1]
    exact hwaits f (hinv.waits y hy f hf)
  shown := by
    dsimp only
    rw [(hcall s.gl).1, flush_issue]
    exact hshown _ _ hinv.shown
  alive := halive

/-- The render thread renews its fence. -/
lemma RenderInv.lock (hgl : gl.Documented M (args.width * args.height))
    (hinv : RenderInv args M P Ok v mem s) {pc : RenderPc}
    (hidle : s.pc.idle = true) (halive : pc ≠ .exited)
    (hwaits : ∀ f, Fenced M.device (M.queue s.gl).fence f →
      WaitsAt M.device (M.queue s.gl).fence f pc)
    (hshown : ∀ data d, ShownAt args v data d s.shown s.pc → ShownAt args v data d s.shown pc) :
    RenderInv args M P Ok v mem { s with
      gl := (oglBufferLock gl s.gl s.sync).1
      sync := (oglBufferLock gl s.gl s.sync).2
      pc := pc } := by
  obtain ⟨hqueue, hsync, hsyncs⟩ := hgl.lock hinv.sync
  refine ⟨hinv.frame, fun _ => hinv.idle hidle, fun _ => hinv.full fun h => ?_,
    fun _ => hinv.user fun h => ?_, hsync, nofun, fun y hy f hf => ?_, ?_, halive⟩
  · rw [h] at hidle
    cases hidle
  · rw [h] at hidle
    cases hidle
  · obtain rfl := Option.some.inj ((hsyncs y hy).symm.trans hf)
    dsimp only
    rw [hqueue]
    exact hwaits _ (fenced_fence (M.queue s.gl))
  · dsimp only
    rw [hqueue, flush_fence]
    exact hshown _ _ hinv.shown

/-- A wait that is over has found the fence signalled. -/
lemma still_of_wait (hgl : gl.Documented M (args.width * args.height))
    (hwait : oglBufferWait gl s.gl s.sync = true) {y : Y} (hy : s.sync = some y) {f : ℕ}
    (hf : M.syncs s.gl y = some f) (hfenced : Fenced M.device (M.queue s.gl) f) :
    Still M.device (M.queue s.gl).pending := by
  rw [hy, hgl.wait hf] at hwait
  exact hfenced.still hwait

/-- `render_run` sets the function of the scheduler. -/
lemma start_renderInv (hgl : gl.Documented M (args.width * args.height))
    (hcells : CellsOf args queue) (hcap : queue.tasks.length < 2 ^ 32)
    (hfills : ∀ view, Ok view → FillsFrame args (kernel view) (v view))
    (hinv : RenderInv args M (frameProgram F C queue kernel handle) Ok v mem s)
    (hpc : s.pc = .start) {machine : Machine n V F C α}
    (h : machineStep (frameProgram F C queue kernel handle) s.machine
      (.sched (.setUserContext (some f) (some c))) = some machine) :
    RenderInv args M (frameProgram F C queue kernel handle) Ok v mem
      { s with machine := machine, pc := .setContext } := by
  have hframe := step_frameInv hcells hcap hfills hinv.frame (a := .sched (.setUserContext _ _))
    ⟨fun htakes => htakes.elim, fun userFun userCtx heq => by cases heq; exact nofun⟩ h
  have hpresents := hinv.presents hgl (by rw [hpc]; rfl) s.machine.calls.mem
  have hfull := hinv.full (by rw [hpc]; exact nofun)
  have hwaits := hinv.waits
  rw [hpc] at hwaits
  obtain ⟨sched, calls, hsched, hcalls, rfl⟩ := machineStep_sched_inv h
  obtain ⟨-, rfl⟩ := schedStep_setUserContext_inv hsched
  obtain rfl := Option.some.inj hcalls
  exact ⟨hframe, nofun, fun _ => ⟨inRound_setFrom 0, hfull.2⟩, fun _ => nofun,
    hinv.sync, fun hsync => ⟨rfl, (hinv.first hsync).2⟩, hwaits, hpresents, nofun⟩

/-- `render_update` enters `rsched_host_yield`. -/
lemma hostYield_renderInv (hcells : CellsOf args queue) (hcap : queue.tasks.length < 2 ^ 32)
    (hfills : ∀ view, Ok view → FillsFrame args (kernel view) (v view))
    (hinv : RenderInv args M (frameProgram F C queue kernel handle) Ok v mem s)
    (hpc : s.pc = .hostYield) {machine : Machine n V F C α}
    (h : machineStep (frameProgram F C queue kernel handle) s.machine (.sched .hostYield)
      = some machine) :
    RenderInv args M (frameProgram F C queue kernel handle) Ok v mem
      { s with machine := machine, pc := .yielding } := by
  have hframe := step_frameInv hcells hcap hfills hinv.frame (a := .sched .hostYield)
    ⟨fun htakes => htakes.elim, fun _ _ heq => by cases heq⟩ h
  have hshown := hinv.shown
  have hwaits := hinv.waits
  have huser := hinv.user (by rw [hpc]; exact nofun)
  rw [hpc] at hshown hwaits
  obtain ⟨sched, calls, hsched, hcalls, rfl⟩ := machineStep_sched_inv h
  obtain ⟨-, -, pc, rfl, -⟩ := schedStep_hostYield_inv hsched
  obtain rfl := Option.some.inj hcalls
  exact ⟨hframe, nofun, fun hne => absurd rfl hne, fun _ => huser,
    hinv.sync, fun hsync => ⟨rfl, (hinv.first hsync).2⟩, hwaits, hshown, nofun⟩

/-- `rsched_host_yield` has returned with success, and `render_update` refills the queue. -/
lemma requeue_renderInv (hgl : gl.Documented M (args.width * args.height))
    (hcells : CellsOf args queue) (hcap : queue.tasks.length < 2 ^ 32)
    (htasks : ∀ t ∈ args.frameTasks, ∃ j < queue.length, queue.tasks[j]? = some (some t))
    (hfills : ∀ view, Ok view → FillsFrame args (kernel view) (v view))
    (hinv : RenderInv args M (frameProgram F C queue kernel handle) Ok v mem s)
    (hpc : s.pc = .yielding) (hreturned : s.machine.sched.pc = .returned true)
    {machine : Machine n V F C α}
    (h : machineStep (frameProgram F C queue kernel handle) s.machine (.sched .requeue)
      = some machine) :
    RenderInv args M (frameProgram F C queue kernel handle) Ok v mem
      { s with machine := machine, pc := .updateLock, shown := s.shown ++ [s.machine.view] } := by
  have hframe := step_frameInv hcells hcap hfills hinv.frame (a := .sched .requeue)
    ⟨fun htakes => htakes.elim, fun _ _ heq => by cases heq⟩ h
  have hpresents := hinv.presents hgl (by rw [hpc]; rfl) s.machine.calls.mem
  have hwaits := hinv.waits
  have huser := hinv.user (by rw [hpc]; exact nofun)
  rw [hpc] at hwaits
  have hpicture : Shows args v (some s.machine.calls.mem) s.machine.view :=
    ⟨_, rfl, fun x y hx hy => hinv.frame.frame hcells htasks hfills hreturned hx hy⟩
  obtain ⟨sched, calls, hsched, hcalls, rfl⟩ := machineStep_sched_inv h
  obtain ⟨-, rfl⟩ := schedStep_requeue_inv hsched
  obtain rfl := Option.some.inj hcalls
  exact ⟨hframe, fun _ => rfl, fun _ => ⟨rfl, rfl⟩, fun _ => huser,
    hinv.sync, fun hsync => ⟨rfl, (hinv.first hsync).2⟩, hwaits, ⟨_, _, rfl, hpresents, hpicture⟩,
    nofun⟩

/-- The render thread. -/
lemma render_renderInv (hgl : gl.Documented M (args.width * args.height))
    (hcells : CellsOf args queue) (hcap : queue.tasks.length < 2 ^ 32)
    (htasks : ∀ t ∈ args.frameTasks, ∃ j < queue.length, queue.tasks[j]? = some (some t))
    (hfills : ∀ view, Ok view → FillsFrame args (kernel view) (v view))
    (hinv : RenderInv args M (frameProgram F C queue kernel handle) Ok v mem s)
    (h : renderThread (frameProgram F C queue kernel handle) gl f c s = some s') :
    RenderInv args M (frameProgram F C queue kernel handle) Ok v mem s' := by
  rw [renderThread] at h
  cases hpc : s.pc <;> simp only [hpc, Option.some.injEq, reduceCtorEq] at h
  case start =>
    obtain ⟨machine, hmachine, rfl⟩ := Option.map_eq_some_iff.mp h
    exact start_renderInv hgl hcells hcap hfills hinv hpc hmachine
  case setContext =>
    split_ifs at h with hidle
    obtain rfl := Option.some.inj h
    refine hinv.goto (by simp [hpc]) hidle (by simp) (fun _ => rfl) (fun _ _ f _ hw => ?_)
      fun _ _ hd => ?_
    · rw [hpc] at hw
      exact Or.inl hw
    · rwa [hpc] at hd
  case windowTest =>
    subst h
    refine hinv.goto (by simp [hpc]) (hinv.idle (by rw [hpc]; rfl)) ?_ (fun _ => ?_)
      (fun _ _ f _ hw => ?_) fun _ _ hd => ?_
    · split_ifs <;> simp
    · split_ifs <;> rfl
    · rw [hpc] at hw
      split_ifs <;> exact hw
    · rw [hpc] at hd
      split_ifs <;> exact hd
  case updateWait =>
    subst h
    cases hwait : oglBufferWait gl s.gl s.sync with
    | false => simpa [← hpc] using hinv
    | true =>
        refine hinv.goto (by simp [hpc]) (hinv.idle (by rw [hpc]; rfl)) (by simp) (fun _ => rfl)
          (fun y hy f hf hw => ?_) fun _ _ hd => ?_
        · rw [hpc] at hw
          exact still_of_wait hgl hwait hy hf hw
        · rwa [hpc] at hd
  case hostYield =>
    obtain ⟨machine, hmachine, rfl⟩ := Option.map_eq_some_iff.mp h
    exact hostYield_renderInv hcells hcap hfills hinv hpc hmachine
  case yielding =>
    split at h
    · rename_i hreturned
      obtain ⟨machine, hmachine, rfl⟩ := Option.map_eq_some_iff.mp h
      exact requeue_renderInv hgl hcells hcap htasks hfills hinv hpc hreturned hmachine
    · rename_i hreturned
      exact absurd (hinv.frame.succeeds.2 hreturned) (hinv.user (by simp [hpc]))
    · cases h
  case updateLock =>
    subst h
    refine hinv.lock hgl (by rw [hpc]; rfl) (by simp) (fun _ hf => hf) fun _ _ hd => ?_
    rwa [hpc] at hd
  case frameWait =>
    subst h
    cases hwait : oglBufferWait gl s.gl s.sync with
    | false => simpa [← hpc] using hinv
    | true =>
        refine hinv.goto (by simp [hpc]) (hinv.idle (by rw [hpc]; rfl)) (by simp) (fun hsync => ?_)
          (fun _ _ _ _ _ => trivial) fun _ _ hd => ?_
        · have hfresh := (hinv.first hsync).1
          rw [hpc] at hfresh
          cases hfresh
        · rwa [hpc] at hd
  case clear =>
    subst h
    refine hinv.issue hgl.clear (by rw [hpc]; rfl) (by rw [hpc]; rfl) (by simp)
      (fun _ _ => trivial) fun data d hd => ?_
    rw [hpc] at hd
    rwa [hgl.run_clear]
  case bindTexture =>
    subst h
    refine hinv.issue hgl.texSubImage (by rw [hpc]; rfl) (by rw [hpc]; rfl) (by simp)
      (fun _ _ => trivial) fun data d hd => ?_
    rw [hpc] at hd
    obtain ⟨old, view, hshown, hold, picture, himg, hpicture⟩ := hd
    obtain rfl := Option.some.inj himg
    rw [hgl.run_upload]
    refine ⟨old, view, hshown, hold, _, rfl, fun x y hx hy => ?_⟩
    dsimp only
    rw [if_pos (pixel_index_lt hx hy)]
    exact hpicture x y hx hy
  case squadEnd =>
    subst h
    refine hinv.issue hgl.drawArrays (by rw [hpc]; rfl) (by rw [hpc]; rfl) (by simp)
      (fun _ _ => trivial) fun data d hd => ?_
    rw [hpc] at hd
    rwa [hgl.run_drawArrays]
  case frameLock =>
    subst h
    refine hinv.lock hgl (by rw [hpc]; rfl) (by simp) (fun _ hf => hf) fun _ _ hd => ?_
    rwa [hpc] at hd
  case swap =>
    subst h
    refine hinv.issue hgl.swapBuffers (by rw [hpc]; rfl) (by rw [hpc]; rfl) (by simp)
      (fun f hw => ?_) fun data d hd => ?_
    · rw [hpc] at hw
      exact Fenced.issue hw hgl.reads.2.2
    · rw [hpc] at hd
      obtain ⟨old, view, hshown, hold, hpicture⟩ := hd
      rw [hgl.run_swapBuffers, hshown]
      exact List.rel_append hold (.cons hpicture .nil)
  case poll =>
    subst h
    refine hinv.goto (by simp [hpc]) (hinv.idle (by rw [hpc]; rfl)) (by simp) (fun _ => rfl)
      (fun _ _ f _ hw => ?_) fun _ _ hd => ?_
    · rwa [hpc] at hw
    · rwa [hpc] at hd

/-- A key. -/
lemma key_renderInv (hcells : CellsOf args queue) (hcap : queue.tasks.length < 2 ^ 32)
    (hfills : ∀ view, Ok view → FillsFrame args (kernel view) (v view))
    (hinv : RenderInv args M (frameProgram F C queue kernel handle) Ok v mem s)
    {event : MdbEventKeyboard} (hok : Ok (handle s.machine.view event))
    {machine : Machine n V F C α}
    (h : machineStep (frameProgram F C queue kernel handle) s.machine (.event event)
      = some machine) :
    RenderInv args M (frameProgram F C queue kernel handle) Ok v mem
      { s with machine := machine } := by
  have hframe := step_frameInv hcells hcap hfills hinv.frame (a := .event event) hok h
  rw [machineStep] at h
  split_ifs at h
  obtain rfl := Option.some.inj h
  exact ⟨hframe, hinv.idle, hinv.full, hinv.user, hinv.sync, hinv.first, hinv.waits, hinv.shown,
    hinv.alive⟩

/-- A step of the render mode keeps the invariant. -/
lemma step_renderInv (hgl : gl.Documented M (args.width * args.height))
    (hcells : CellsOf args queue) (hcap : queue.tasks.length < 2 ^ 32)
    (htasks : ∀ t ∈ args.frameTasks, ∃ j < queue.length, queue.tasks[j]? = some (some t))
    (hfills : ∀ view, Ok view → FillsFrame args (kernel view) (v view))
    (hinv : RenderInv args M (frameProgram F C queue kernel handle) Ok v mem s)
    {a : RenderAction n F C} (hcond : RenderCond (frameProgram F C queue kernel handle) Ok s a)
    (h : renderStep (frameProgram F C queue kernel handle) gl f c s a = some s') :
    RenderInv args M (frameProgram F C queue kernel handle) Ok v mem s' := by
  cases a with
  | thread a =>
      rw [renderStep] at h
      split_ifs at h with ha
      obtain ⟨machine, hmachine, rfl⟩ := Option.map_eq_some_iff.mp h
      exact thread_renderInv hgl hcells hcap hfills hinv ha hcond hmachine
  | gpu =>
      obtain ⟨g, hg, rfl⟩ := Option.map_eq_some_iff.mp h
      exact gpu_renderInv hgl hinv hg
  | render => exact render_renderInv hgl hcells hcap htasks hfills hinv h
  | key event =>
      rw [renderStep] at h
      split_ifs at h
      cases hkey : keyCallback event <;> simp only [hkey, Option.some.injEq] at h
      case close =>
        subst h
        exact ⟨hinv.frame, hinv.idle, hinv.full, hinv.user, hinv.sync, hinv.first, hinv.waits,
          hinv.shown, hinv.alive⟩
      case exposure => exact h ▸ hinv
      case deliver =>
        obtain ⟨machine, hmachine, rfl⟩ := Option.map_eq_some_iff.mp h
        exact key_renderInv hcells hcap hfills hinv (hcond hkey) hmachine

lemma renderInv_init (hgl : gl.Documented M (args.width * args.height)) {g : G} (hg : M.Fresh g)
    {view : V} (hview : Ok view) :
    RenderInv args M P Ok v mem (renderInit gl n F C view mem g) := by
  have huploads : OnlyUploads M (gl.glTexImage2D g) := by
    refine ⟨?_, ?_⟩ <;> rw [(hgl.texImage g).1]
    · exact Only.issue hg.pending M.upload
    · exact hg.presented
  refine ⟨frameInv_init hview, nofun, fun _ => ⟨Bool.eq_false_iff.mpr fun hround => ?_, rfl⟩,
    fun h => absurd rfl h, syncInv_init hgl hg, fun _ => ⟨rfl, huploads⟩, nofun, ?_, nofun⟩
  · cases (inRound_waitFrom .create 0).mp hround
  · change List.Forall₂ (Shows args v)
      ((M.queue (gl.glTexImage2D g)).flush M.device mem).presented []
    rw [huploads.flush hgl]
    exact .nil

/-- What no run of the render mode may do wrong, besides `FrameSafe`. Stores stay inside the pixel
buffer; the pictures that have been on the screen are the first frames that were drawn, in their
order, and all of them once the GPU has come to rest; from the second frame on the GPU reads the
buffer only while no thread is in a call and none has a store to make; `rend->sync` is a sync
object, and the only one; `rsched_host_yield` finds the scheduler idle and its queue full; and it
never fails. -/
structure RenderSafe (args : FrameArgs) (M : GlMeaning G Y κ α) (pbo : OglPixelBuffer)
    (P : Program V F C MdbEventKeyboard α) (v : V → ℕ → ℕ → α) (mem : ℕ → α)
    (s : RenderLoop n V F C G Y α) : Prop where
  frame : FrameSafe args P mem s.machine
  stores : ∀ t, ∀ x ∈ s.machine.calls.todo t, x.1 < pbo.buffSize / sizeofFloat
  pictures : ∃ views, views <+: s.shown ∧ Presents args v (M.queue s.gl).device views
  drained : s.pc = .windowTest → (M.queue s.gl).pending = [] →
    Presents args v (M.queue s.gl).device s.shown
  reads : s.sync ≠ none → ¬Still M.device (M.queue s.gl).pending →
    ∀ t, s.machine.sched.ledger.status t = .free ∧ s.machine.calls.todo t = []
  syncs : ∀ y, M.syncs s.gl y ≠ none ↔ s.sync = some y
  yields : s.pc = .hostYield → s.machine.sched.pc = .idle ∧ s.machine.sched.idx = 0
  alive : s.pc ≠ .exited

/-- A picture after the other: the frames on the screen are the first of those that were drawn. -/
lemma ShownAt.presents {data : ℕ → α} {d : GlScreen α} {shown : List V} {pc : RenderPc}
    (h : ShownAt args v data d shown pc) : ∃ views, views <+: shown ∧ Presents args v d views := by
  have hnext : ∀ {img : Option (ℕ → α)}, NextIs args v img d shown →
      ∃ views, views <+: shown ∧ Presents args v d views := by
    rintro img ⟨old, view, rfl, hold, -⟩
    exact ⟨old, List.prefix_append _ _, hold⟩
  cases pc <;> first | exact hnext h | exact ⟨shown, List.prefix_rfl, h⟩

/-- The first pictures are those of the first frames. -/
lemma Presents.of_first {d d' : GlScreen α} {views : List V}
    (hpre : d.presented <+: d'.presented) (h : Presents args v d' views) :
    ∃ views', views' <+: views ∧ Presents args v d views' := by
  refine ⟨views.take d.presented.length, List.take_prefix _ _, ?_⟩
  rw [Presents, List.prefix_iff_eq_take.mp hpre, List.length_take]
  have hlen := h.length_eq
  have hle := hpre.length_le
  rw [min_eq_left (by omega)]
  exact List.forall₂_take _ h

/-- The pixel buffer of a surface that it holds. -/
lemma oglPbo_of_holds (hbuf : BufferHoldsSurface args) {pbo : OglPixelBuffer}
    (hpbo : (oglRenderInitRenderTarget (oglRenderCreate args.width args.height)).pbo = some pbo) :
    pbo.width * pbo.height = args.width * args.height ∧
      args.width * args.height ≤ pbo.buffSize / sizeofFloat := by
  have hle := area_le_buffer hbuf
  have hdvd := Nat.mod_eq_zero_of_dvd ((area_le_buffer_iff args).mp hle).1
  rw [initRenderTarget_pbo, Option.some.injEq] at hpbo
  subst hpbo
  refine ⟨?_, hle⟩
  rw [hdvd, Nat.sub_zero]
  rfl

/-- The invariant rules out what no run may do wrong. -/
lemma RenderInv.safe (hcells : CellsOf args queue)
    (hfills : ∀ view, Ok view → FillsFrame args (kernel view) (v view))
    (hbuf : BufferHoldsSurface args) {pbo : OglPixelBuffer}
    (hpbo : (oglRenderInitRenderTarget (oglRenderCreate args.width args.height)).pbo = some pbo)
    (hgl : gl.Documented M (args.width * args.height))
    (hinv : RenderInv args M (frameProgram F C queue kernel handle) Ok v mem s) :
    RenderSafe args M pbo (frameProgram F C queue kernel handle) v mem s := by
  obtain ⟨-, hle⟩ := oglPbo_of_holds hbuf hpbo
  have hsafe := hinv.frame.safe hcells hfills
  refine ⟨hsafe, fun t x hx => lt_of_lt_of_le (hsafe.pending t x hx) hle, ?_, fun hpc hrest => ?_,
    fun hlocked hreads t => ?_, hinv.sync.ne_none_iff, fun hpc => ?_, hinv.alive⟩
  · obtain ⟨views, hviews, hpresents⟩ := hinv.shown.presents
    obtain ⟨views', hviews', hpresents'⟩ := hpresents.of_first (hgl.presented_flush (M.queue s.gl))
    exact ⟨views', hviews'.trans hviews, hpresents'⟩
  · have hshown := hinv.shown
    rw [hpc, CommandQueue.flush, hrest] at hshown
    exact hshown
  · obtain ⟨y, hy⟩ := Option.ne_none_iff_exists'.mp hlocked
    obtain ⟨f, hf, -⟩ := hinv.sync.issued y hy
    have hidle : s.machine.sched.pc = .idle := by
      refine hinv.idle ?_
      by_contra hidle
      -- while a frame is drawn nothing that reads is waiting
      have hwaits := hinv.waits y hy f hf
      cases hpc : s.pc <;> rw [hpc] at hidle hwaits <;>
        first
          | exact hidle rfl
          | exact hreads hwaits
    have hfree := hinv.frame.machine.sched.free_of_between (by rw [hidle]; rfl) t
    exact ⟨hfree, hinv.frame.machine.outside t fun task => by simp [hfree]⟩
  · exact ⟨hinv.idle (by rw [hpc]; rfl), (hinv.full (by simp [hpc])).2⟩

end Steps

end Invariant

end Mdb
