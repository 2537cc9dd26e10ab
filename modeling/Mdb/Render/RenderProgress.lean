import Mdb.Render.RenderInvariant

/-!
The render mode never wedges: wherever its threads, the GPU and the render thread stand, they can
go on without a further key to the next picture, or, if the window should close, to the end of the
loop.

* `RenderLive`: the invariant of the runs whose exchanges fail only on different values;
* `RenderLive.advance`: from every place of the render thread to the next one;
* `RenderLive.walk`: from there any way around the loop.
-/

namespace Mdb

open CommandQueue

/-- The exchanges of the step fail only on different values. -/
def RenderAction.Strong {n : ℕ} {F C : Type*} : RenderAction n F C → Prop
  | .thread a => a.Strong
  | _ => True

/-- The step is none of the user. -/
def RenderAction.Inside {n : ℕ} {F C : Type*} : RenderAction n F C → Prop
  | .thread a => a.Inside
  | .key _ => False
  | _ => True

lemma RenderAction.Inside.strong {n : ℕ} {F C : Type*} {a : RenderAction n F C} (h : a.Inside) :
    a.Strong := by
  cases a with
  | thread a => exact MachineAction.Inside.strong h
  | _ => trivial

/-! ### The way around the loop -/

/-- The place that the render thread comes to next, if the window should close or not. -/
def RenderPc.next (close : Bool) : RenderPc → RenderPc
  | .start => .setContext
  | .setContext => .windowTest
  | .windowTest => if close then .closed else .updateWait
  | .updateWait => .hostYield
  | .hostYield => .yielding
  | .yielding => .updateLock
  | .updateLock => .frameWait
  | .frameWait => .clear
  | .clear => .bindTexture
  | .bindTexture => .squadEnd
  | .squadEnd => .frameLock
  | .frameLock => .swap
  | .swap => .poll
  | .poll => .windowTest
  | .closed => .closed
  | .exited => .exited

/-- How many frames are finished on the way from the place to the next one. -/
def RenderPc.draws : RenderPc → ℕ
  | .yielding => 1
  | _ => 0

/-- How many frames are finished on the way over a number of places. -/
def RenderPc.drawn (close : Bool) : ℕ → RenderPc → ℕ
  | 0, _ => 0
  | k + 1, pc => pc.draws + (pc.next close).drawn close k

section Steps

variable {n : ℕ} {V F C G Y κ α : Type*} {P : Program V F C MdbEventKeyboard α}
  {gl : OpenGl G Y α} {f : F} {c : C} {s s' : RenderLoop n V F C G Y α}

/-! ### What the render mode does to the machine -/

/-- The render thread takes steps of the machine, and delivers nothing. -/
lemma renderThread_machine (h : renderThread P gl f c s = some s') :
    (s'.machine = s.machine ∨ ∃ b, machineStep P s.machine b = some s'.machine ∧ b.Strong) ∧
      s'.machine.view = s.machine.view ∧
      (s'.shown = s.shown ∨ s'.shown = s.shown ++ [s.machine.view]) := by
  rw [renderThread] at h
  cases hpc : s.pc <;> simp only [hpc, Option.some.injEq, reduceCtorEq] at h
  case start | hostYield =>
    obtain ⟨machine, hmachine, rfl⟩ := Option.map_eq_some_iff.mp h
    exact ⟨Or.inr ⟨_, hmachine, trivial⟩, machineStep_view hmachine, Or.inl rfl⟩
  case setContext =>
    split_ifs at h
    obtain rfl := Option.some.inj h
    exact ⟨Or.inl rfl, rfl, Or.inl rfl⟩
  case yielding =>
    split at h
    · obtain ⟨machine, hmachine, rfl⟩ := Option.map_eq_some_iff.mp h
      exact ⟨Or.inr ⟨_, hmachine, trivial⟩, machineStep_view hmachine, Or.inr rfl⟩
    · obtain rfl := Option.some.inj h
      exact ⟨Or.inl rfl, rfl, Or.inl rfl⟩
    · cases h
  all_goals
    subst h
    exact ⟨Or.inl rfl, rfl, Or.inl rfl⟩

/-- A step of the render mode is one of the machine, or nothing to it. -/
lemma renderStep_machine {a : RenderAction n F C} (h : renderStep P gl f c s a = some s') :
    s'.machine = s.machine ∨
      ∃ b, machineStep P s.machine b = some s'.machine ∧ (a.Strong → b.Strong) := by
  cases a with
  | thread a =>
      rw [renderStep] at h
      split_ifs at h
      obtain ⟨machine, hmachine, rfl⟩ := Option.map_eq_some_iff.mp h
      exact Or.inr ⟨a, hmachine, id⟩
  | gpu =>
      obtain ⟨g, -, rfl⟩ := Option.map_eq_some_iff.mp h
      exact Or.inl rfl
  | render =>
      obtain ⟨heq | ⟨b, hmachine, hb⟩, -⟩ := renderThread_machine h
      · exact Or.inl heq
      · exact Or.inr ⟨b, hmachine, fun _ => hb⟩
  | key event =>
      rw [renderStep] at h
      split_ifs at h
      cases hkey : keyCallback event <;> simp only [hkey, Option.some.injEq] at h
      case deliver =>
        obtain ⟨machine, hmachine, rfl⟩ := Option.map_eq_some_iff.mp h
        exact Or.inr ⟨_, hmachine, fun _ => trivial⟩
      all_goals exact Or.inl (h ▸ rfl)

/-- What keeps the scheduler going is not lost in the render mode. -/
lemma step_render_liveInv (hL : FitsIndex n P.length) (hinv : LiveInv P.length s.machine.sched)
    {a : RenderAction n F C} (hstrong : a.Strong) (h : renderStep P gl f c s a = some s') :
    LiveInv P.length s'.machine.sched := by
  rcases renderStep_machine h with heq | ⟨b, hmachine, hb⟩
  · rwa [heq]
  · exact step_machine_liveInv hL hinv (hb hstrong) hmachine

/-- Where the render thread goes: to the next place, on with its wait, or, once
`rsched_host_yield` has failed, out of the loop. -/
lemma renderThread_pc (h : renderThread P gl f c s = some s') : s'.shouldClose = s.shouldClose ∧
    (s'.pc = s.pc.next s.shouldClose ∨ s'.pc = s.pc ∧ s.pc.waiting = true ∨ s'.pc = .exited) := by
  rw [renderThread] at h
  cases hpc : s.pc <;> simp only [hpc, Option.some.injEq, reduceCtorEq] at h
  case start | hostYield =>
    obtain ⟨machine, -, rfl⟩ := Option.map_eq_some_iff.mp h
    exact ⟨rfl, Or.inl rfl⟩
  case setContext =>
    split_ifs at h
    obtain rfl := Option.some.inj h
    exact ⟨rfl, Or.inl rfl⟩
  case yielding =>
    split at h
    · obtain ⟨machine, -, rfl⟩ := Option.map_eq_some_iff.mp h
      exact ⟨rfl, Or.inl rfl⟩
    · obtain rfl := Option.some.inj h
      exact ⟨rfl, Or.inr (Or.inr rfl)⟩
    · cases h
  case updateWait | frameWait =>
    subst h
    cases hwait : oglBufferWait gl s.gl s.sync with
    | false => exact ⟨rfl, Or.inr (Or.inl ⟨rfl, rfl⟩)⟩
    | true => exact ⟨rfl, Or.inl rfl⟩
  all_goals
    subst h
    exact ⟨rfl, Or.inl rfl⟩

/-- Only the render thread goes on. -/
lemma renderStep_pc {a : RenderAction n F C} (h : renderStep P gl f c s a = some s') :
    (s.shouldClose = true → s'.shouldClose = true) ∧
      (s'.pc = s.pc ∨ a = .render ∧ (s'.pc = s.pc.next s.shouldClose ∨ s'.pc = .exited)) := by
  cases a with
  | thread a =>
      rw [renderStep] at h
      split_ifs at h
      obtain ⟨machine, -, rfl⟩ := Option.map_eq_some_iff.mp h
      exact ⟨id, Or.inl rfl⟩
  | gpu =>
      obtain ⟨g, -, rfl⟩ := Option.map_eq_some_iff.mp h
      exact ⟨id, Or.inl rfl⟩
  | render =>
      obtain ⟨hclose, hpc | ⟨hpc, -⟩ | hpc⟩ := renderThread_pc h
      · exact ⟨fun hs => hclose.trans hs, Or.inr ⟨rfl, Or.inl hpc⟩⟩
      · exact ⟨fun hs => hclose.trans hs, Or.inl hpc⟩
      · exact ⟨fun hs => hclose.trans hs, Or.inr ⟨rfl, Or.inr hpc⟩⟩
  | key event =>
      rw [renderStep] at h
      split_ifs at h
      cases hkey : keyCallback event <;> simp only [hkey, Option.some.injEq] at h
      case deliver =>
        obtain ⟨machine, -, rfl⟩ := Option.map_eq_some_iff.mp h
        exact ⟨id, Or.inl rfl⟩
      case close => exact h ▸ ⟨fun _ => rfl, Or.inl rfl⟩
      case exposure => exact h ▸ ⟨id, Or.inl rfl⟩

/-- The loop ends only if the window should close. -/
lemma step_closed {a : RenderAction n F C} (h : renderStep P gl f c s a = some s')
    (hclosed : s.pc = .closed → s.shouldClose = true) (hpc : s'.pc = .closed) :
    s'.shouldClose = true := by
  obtain ⟨hkeeps, hsame | ⟨-, hnext | hexited⟩⟩ := renderStep_pc h
  · exact hkeeps (hclosed (hsame.symm.trans hpc))
  · refine hkeeps ?_
    have hnext := hnext.symm.trans hpc
    cases hs : s.pc <;> simp only [hs, RenderPc.next, reduceCtorEq] at hnext
    case windowTest =>
      split_ifs at hnext with hclose
      exact hclose
    case closed => exact hclosed hs
  · exact absurd (hexited.symm.trans hpc) (by simp)

/-- A round that the render thread waits for goes on until `rsched_host_yield` has returned. -/
lemma step_yielding {a : RenderAction n F C} (h : renderStep P gl f c s a = some s')
    (hround : s.pc = .yielding → s.machine.sched.pc.inRound = true)
    (huser : s.pc ≠ .start → s.machine.sched.userFun ≠ none)
    (hfails : NeverFails s'.machine.sched) (hpc : s'.pc = .yielding) :
    s'.machine.sched.pc.inRound = true := by
  obtain ⟨-, hsame | ⟨rfl, hnext | hexited⟩⟩ := renderStep_pc h
  · -- nobody but the threads touches the scheduler
    have hs := hsame.symm.trans hpc
    cases a with
    | thread a =>
        rw [renderStep] at h
        split_ifs at h with ha
        obtain ⟨machine, hmachine, rfl⟩ := Option.map_eq_some_iff.mp h
        have hfun := (ofThread_user ha hmachine).1
        cases a with
        | sched a =>
            obtain ⟨sched, calls, hsched, -, rfl⟩ := machineStep_sched_inv hmachine
            refine (schedStep_stays ha hsched (hround hs)).resolve_right fun hreturned => ?_
            exact huser (by simp [hs]) (hfun.symm.trans (hfails.2 hreturned))
        | store t =>
            obtain ⟨calls, -, rfl⟩ := Option.map_eq_some_iff.mp hmachine
            exact hround hs
        | event e => cases ha
    | gpu =>
        obtain ⟨g, -, rfl⟩ := Option.map_eq_some_iff.mp h
        exact hround hs
    | render =>
        rw [renderStep, renderThread] at h
        simp only [hs] at h
        split at h
        · obtain ⟨machine, -, rfl⟩ := Option.map_eq_some_iff.mp h
          cases hpc
        · obtain rfl := Option.some.inj h
          cases hpc
        · cases h
    | key event =>
        rw [renderStep] at h
        split_ifs at h with hpoll
        exact absurd (hpoll.symm.trans hs) (by simp)
  · -- the round begins
    have hs : s.pc = .hostYield := by
      have hnext := hnext.symm.trans hpc
      cases hs : s.pc <;> simp only [hs, RenderPc.next, reduceCtorEq] at hnext
      case windowTest => split_ifs at hnext
      case hostYield => rfl
    rw [renderStep, renderThread] at h
    simp only [hs] at h
    obtain ⟨machine, hmachine, rfl⟩ := Option.map_eq_some_iff.mp h
    obtain ⟨sched, calls, hsched, -, rfl⟩ := machineStep_sched_inv hmachine
    obtain ⟨-, -, pc, rfl, rfl | ⟨-, rfl⟩⟩ := schedStep_hostYield_inv hsched
    · exact absurd (hfails.2 rfl) (huser (by simp [hs]))
    · exact inRound_sendFrom 0
  · exact absurd (hexited.symm.trans hpc) (by simp)

/-- What the render thread waits for. -/
def RenderLoop.Ready (gl : OpenGl G Y α) (s : RenderLoop n V F C G Y α) : Prop :=
  match s.pc with
  | .start => s.machine.sched.pc.between = true
  | .setContext => s.machine.sched.pc = .idle
  | .updateWait | .frameWait => oglBufferWait gl s.gl s.sync = true
  | .hostYield => s.machine.sched.pc = .idle ∧ s.machine.sched.idx = 0
  | .yielding => s.machine.sched.pc = .returned true
  | .closed | .exited => False
  | _ => True

/-- Once it is there, the render thread goes on to the next place. -/
lemma renderThread_of_ready (P : Program V F C MdbEventKeyboard α) (f : F) (c : C)
    (h : s.Ready gl) : ∃ s', renderThread P gl f c s = some s' ∧
      s'.pc = s.pc.next s.shouldClose ∧
      s'.shouldClose = s.shouldClose ∧ s'.machine.view = s.machine.view ∧
      s'.shown = s.shown ++ List.replicate s.pc.draws s.machine.view := by
  have hnone : s.shown = s.shown ++ List.replicate 0 s.machine.view := (List.append_nil _).symm
  rw [RenderLoop.Ready] at h
  rw [renderThread]
  cases hpc : s.pc <;> simp only [hpc] at h
  case start =>
    obtain ⟨calls, hstep⟩ := machineStep_call (P := P) (s := s.machine)
      (a := .setUserContext (some f) (some c)) rfl (if_pos h)
    simp only [hstep, Option.map_some]
    exact ⟨_, rfl, rfl, rfl, rfl, hnone⟩
  case setContext =>
    rw [if_pos h]
    exact ⟨_, rfl, rfl, rfl, rfl, hnone⟩
  case updateWait | frameWait => exact ⟨_, rfl, if_pos h, rfl, rfl, hnone⟩
  case hostYield =>
    obtain ⟨calls, hstep⟩ := machineStep_call (P := P) (s := s.machine) (a := .hostYield) rfl
      (if_pos ⟨by rw [h.1]; rfl, h.2⟩)
    simp only [hstep, Option.map_some]
    exact ⟨_, rfl, rfl, rfl, rfl, hnone⟩
  case yielding =>
    obtain ⟨calls, hstep⟩ := machineStep_call (P := P) (s := s.machine) (a := .requeue) rfl
      (if_pos (by rw [h]; rfl))
    simp only [h, hstep, Option.map_some]
    exact ⟨_, rfl, rfl, rfl, rfl, rfl⟩
  all_goals exact ⟨_, rfl, rfl, rfl, rfl, hnone⟩

end Steps

/-! ### Going on -/

section Live

variable {n : ℕ} {V F C G Y κ α : Type*} {args : FrameArgs} {queue queue' : RschedQueue}
  {Ok : V → Prop} {kernel : V → RschedTask → Option (List (PixelStore α))} {v : V → ℕ → ℕ → α}
  {handle : V → MdbEventKeyboard → V} {mem : ℕ → α} {f : F} {c : C}
  {P : Program V F C MdbEventKeyboard α} {gl : OpenGl G Y α} {M : GlMeaning G Y κ α}
  {s s' : RenderLoop n V F C G Y α}

/-- The invariant of the runs whose exchanges fail only on different values. -/
structure RenderLive (args : FrameArgs) (M : GlMeaning G Y κ α)
    (P : Program V F C MdbEventKeyboard α) (Ok : V → Prop) (v : V → ℕ → ℕ → α) (mem : ℕ → α)
    (s : RenderLoop n V F C G Y α) : Prop where
  inv : RenderInv args M P Ok v mem s
  live : LiveInv P.length s.machine.sched
  drawing : s.pc = .yielding → s.machine.sched.pc.inRound = true
  closing : s.pc = .closed → s.shouldClose = true

/-- The render mode has come to the place, with the view and the wish to close as they were, and has
finished a number of frames on the way. -/
structure WalksTo (args : FrameArgs) (M : GlMeaning G Y κ α)
    (P : Program V F C MdbEventKeyboard α) (Ok : V → Prop) (v : V → ℕ → ℕ → α) (mem : ℕ → α)
    (s : RenderLoop n V F C G Y α) (pc : RenderPc) (frames : ℕ)
    (t : RenderLoop n V F C G Y α) : Prop where
  live : RenderLive args M P Ok v mem t
  place : t.pc = pc
  close : t.shouldClose = s.shouldClose
  view : t.machine.view = s.machine.view
  shown : t.shown = s.shown ++ List.replicate frames s.machine.view

/-- Where the render thread sets the function, the scheduler comes to rest. -/
lemma RenderLive.idle_of_between (hs : RenderLive args M P Ok v mem s) (hpc : s.pc = .setContext)
    (hbetween : s.machine.sched.pc.between = true) : s.machine.sched.pc = .idle := by
  have hround := (hs.inv.full (by simp [hpc])).1
  have huser := hs.inv.user (by simp [hpc])
  cases hsched : s.machine.sched.pc with
  | idle => rfl
  | returned ok =>
      cases ok with
      | true => simp [hsched, HostPc.inRound] at hround
      | false => exact absurd (hs.inv.frame.succeeds.2 hsched) huser
  | _ => simp [hsched, HostPc.between] at hbetween

lemma renderLive_init (hgl : gl.Documented M (args.width * args.height)) {g : G} (hg : M.Fresh g)
    {view : V} (hview : Ok view) :
    RenderLive args M P Ok v mem (renderInit gl n F C view mem g) :=
  ⟨renderInv_init hgl hg hview, liveInv_init, nofun, nofun⟩

variable (hcreate : rschedCreateTasks queue args.width args.height args.blockSize = some queue')
  (hroom : queue'.length < queue'.tasks.length ∨ n = 0)
  (hfills : ∀ view, Ok view → FillsFrame args (kernel view) (v view))
  (hP : P = frameProgram F C queue' kernel handle)
  (hgl : gl.Documented M (args.width * args.height))

include hcreate hroom hfills hP hgl hgl

/-- A step keeps the invariant. -/
lemma step_renderLive (hs : RenderLive args M P Ok v mem s) {a : RenderAction n F C}
    (hcond : RenderCond P Ok s a) (hstrong : a.Strong)
    (h : renderStep P gl f c s a = some s') :
    RenderLive args M P Ok v mem s' := by
  subst hP
  obtain ⟨-, hle, hcap, hcells, htasks⟩ := args.created_cells hcreate
  have hL : FitsIndex n queue'.length :=
    HasRoom.fitsIndex (hroom.imp_right fun hn => ⟨hn, hle⟩) hcap
  have hlive := step_render_liveInv hL hs.live hstrong h
  exact ⟨step_renderInv hgl hcells hcap htasks hfills hs.inv hcond h, hlive,
    step_yielding h hs.drawing hs.inv.user hlive.succeeds, step_closed h hs.closing⟩

/-- The render thread takes a step. -/
lemma RenderLive.reaches_render (hs : RenderLive args M P Ok v mem s)
    (h : renderThread P gl f c s = some s') {Q : RenderLoop n V F C G Y α → Prop}
    (hQ : RenderLive args M P Ok v mem s' → Q s') :
    (renderSystem P gl f c n).Reaches RenderAction.Inside Q s :=
  .single (a := .render) trivial h
    (hQ (step_renderLive hcreate hroom hfills hP hgl hs (a := .render) trivial trivial h))

/-- The render mode can bring its machine wherever that can be brought. -/
lemma RenderLive.reaches_machine (hs : RenderLive args M P Ok v mem s)
    {Q : Machine n V F C α → Prop}
    (h : (machineSystem n P).Reaches MachineAction.Inside Q s.machine) :
    (renderSystem P gl f c n).Reaches RenderAction.Inside
      (fun t => (RenderLive args M P Ok v mem t ∧ t = { s with machine := t.machine }) ∧
        Q t.machine) s := by
  refine StepSystem.Reaches.lift (fun s : RenderLoop n V F C G Y α => s.machine)
    (fun t b m ⟨ht, heq⟩ hb hst => ?_) ⟨hs, rfl⟩ h
  have hstep : renderStep P gl f c t (.thread b)
      = some { t with machine := m } := by
    rw [renderStep, if_pos hb.ofThread, show machineStep P t.machine b = some m from hst]
    rfl
  have hwithin : MachineWithin P t.machine b := by
    obtain ⟨-, hle, -⟩ := args.created_cells hcreate
    subst hP
    cases b with
    | sched b => exact ht.live.expects.popsWithin (hroom.imp_right fun hn => ⟨hn, hle⟩) b
    | _ => trivial
  have hstrong : b.Strong := MachineAction.Inside.strong hb
  have hinside : (RenderAction.thread b : RenderAction n F C).Inside := hb
  refine .single hinside hstep
    ⟨⟨step_renderLive hcreate hroom hfills hP hgl ht (a := .thread b) hwithin hstrong hstep, ?_⟩,
      rfl⟩
  rw [heq]

/-- The call of the scheduler returns, that of `rsched_host_yield` with success. -/
lemma RenderLive.reaches_return (hs : RenderLive args M P Ok v mem s) :
    (renderSystem P gl f c n).Reaches RenderAction.Inside
      (fun t => RenderLive args M P Ok v mem t ∧ t = { s with machine := t.machine } ∧
        t.machine.view = s.machine.view ∧ t.machine.sched.pc.between = true ∧
        (s.machine.sched.pc.inRound = true → t.machine.sched.pc = .returned true)) s := by
  obtain ⟨-, hle, hcap, hcells, -⟩ := args.created_cells hcreate
  have hroom' : HasRoom n queue' := hroom.imp_right fun hn => ⟨hn, hle⟩
  have hmachine := hs.inv.frame
  have hlive := hs.live
  refine (hs.reaches_machine hcreate hroom hfills hP hgl (Q := fun m => m.view = s.machine.view ∧
    m.sched.pc.between = true ∧ (s.machine.sched.pc.inRound = true → m.sched.pc = .returned true))
      ?_).mono fun t ⟨⟨ht, heq⟩, hQ⟩ => ⟨ht, heq, hQ⟩
  subst hP
  exact (FrameLive.reaches hcells hcap hroom' hfills ⟨hmachine, hlive⟩
    (hlive.canReach_return (hroom'.fitsIndex hcap))).mono
      fun m ⟨_, ⟨hpc, hround⟩, _, hview⟩ => ⟨hview, hpc, hround⟩

/-- The GPU comes to the end of its queue. -/
lemma RenderLive.reaches_drained (hs : RenderLive args M P Ok v mem s) :
    (renderSystem P gl f c n).Reaches RenderAction.Inside
      (fun t => RenderLive args M P Ok v mem t ∧ t = { s with gl := t.gl } ∧
        (M.queue t.gl).pending = []) s := by
  by_cases hdone : (M.queue s.gl).pending = []
  · exact .refl ⟨hs, rfl, hdone⟩
  refine StepSystem.reaches_of_variant (P := fun i t => RenderLive args M P Ok v mem t ∧
    t = { s with gl := t.gl } ∧ (M.queue t.gl).pending ≠ [] ∧
      (M.queue t.gl).waiting M.device = i) ?_ ⟨hs, rfl, hdone, rfl⟩
  rintro i t ⟨ht, heq, hne, hi⟩
  obtain ⟨g, hg⟩ := hgl.exists_gpu hne t.machine.calls.mem
  have hstep : renderStep P gl f c t .gpu
      = some { t with gl := g } := by
    rw [renderStep, hg]
    rfl
  have ht' := step_renderLive hcreate hroom hfills hP hgl ht (a := .gpu) trivial trivial hstep
  refine ⟨.gpu, _, trivial, hstep, ?_⟩
  by_cases hrest : (M.queue g).pending = []
  · exact Or.inl ⟨ht', by rw [heq], hrest⟩
  · exact Or.inr ⟨_, hi ▸ waiting_step (hgl.gpu_step hg).1, ht', by rw [heq], hrest, rfl⟩

/-- What the render thread waits for comes. -/
lemma RenderLive.reaches_ready (hs : RenderLive args M P Ok v mem s) (hclosed : s.pc ≠ .closed) :
    (renderSystem P gl f c n).Reaches RenderAction.Inside
      (fun t => WalksTo args M P Ok v mem s s.pc 0 t ∧ t.Ready gl) s := by
  have hstay : WalksTo args M P Ok v mem s s.pc 0 s :=
    ⟨hs, rfl, rfl, rfl, (List.append_nil _).symm⟩
  cases hpc : s.pc with
  | start | setContext | yielding =>
      refine (hs.reaches_return hcreate hroom hfills hP hgl).mono
        fun t ⟨ht, heq, hview, hbetween, hround⟩ => ?_
      have hplace : t.pc = s.pc := by rw [heq]
      refine ⟨⟨ht, hplace.trans hpc, by rw [heq], hview, by rw [heq]; exact hstay.shown⟩, ?_⟩
      rw [RenderLoop.Ready, hplace, hpc]
      first
        | exact hbetween
        | exact ht.idle_of_between (hplace.trans hpc) hbetween
        | exact hround (hs.drawing hpc)
  | updateWait | frameWait =>
      refine (hs.reaches_drained hcreate hroom hfills hP hgl).mono fun t ⟨ht, heq, hdone⟩ => ?_
      have hplace : t.pc = s.pc := by rw [heq]
      refine ⟨⟨ht, hplace.trans hpc, by rw [heq], by rw [heq], by rw [heq]; exact hstay.shown⟩, ?_⟩
      rw [RenderLoop.Ready, hplace, hpc]
      exact ht.inv.sync.wait hgl hdone
  | hostYield =>
      refine .refl ⟨hpc ▸ hstay, ?_⟩
      rw [RenderLoop.Ready, hpc]
      exact ⟨hs.inv.idle (by rw [hpc]; rfl), (hs.inv.full (by simp [hpc])).2⟩
  | closed => exact absurd hpc hclosed
  | exited => exact absurd hpc hs.inv.alive
  | _ =>
      refine .refl ⟨hpc ▸ hstay, ?_⟩
      rw [RenderLoop.Ready, hpc]
      trivial

/-- **The render thread goes on**, from every place to the next one. -/
lemma RenderLive.advance (hs : RenderLive args M P Ok v mem s) :
    (renderSystem P gl f c n).Reaches RenderAction.Inside
      (WalksTo args M P Ok v mem s (s.pc.next s.shouldClose) s.pc.draws) s := by
  by_cases hclosed : s.pc = .closed
  · rw [hclosed]
    exact .refl ⟨hs, hclosed, rfl, rfl, (List.append_nil _).symm⟩
  · refine (hs.reaches_ready hcreate hroom hfills hP hgl hclosed).trans fun t ⟨ht, hready⟩ => ?_
    obtain ⟨u, hu, hplace, hclose, hview, hshown⟩ := renderThread_of_ready P f c hready
    refine ht.live.reaches_render hcreate hroom hfills hP hgl hu fun hlive => ?_
    rw [ht.place, ht.close] at hplace
    rw [ht.place, ht.view] at hshown
    refine ⟨hlive, hplace, hclose.trans ht.close, hview.trans ht.view, hshown.trans ?_⟩
    rw [ht.shown, List.replicate_zero, List.append_nil]

/-- From there any way around the loop. -/
lemma RenderLive.walk (k : ℕ) (hs : RenderLive args M P Ok v mem s) :
    (renderSystem P gl f c n).Reaches RenderAction.Inside
      (WalksTo args M P Ok v mem s ((RenderPc.next s.shouldClose)^[k] s.pc)
        (s.pc.drawn s.shouldClose k)) s := by
  induction k generalizing s with
  | zero => exact .refl ⟨hs, rfl, rfl, rfl, by simp [RenderPc.drawn]⟩
  | succ k ih =>
      refine (hs.advance hcreate hroom hfills hP hgl).trans fun t ht => ?_
      refine (ih ht.live).mono fun u hu => ?_
      rw [ht.close, ht.place] at hu
      refine ⟨hu.live, hu.place, hu.close.trans ht.close, hu.view.trans ht.view, ?_⟩
      rw [hu.shown, ht.shown, ht.view, List.append_assoc, ← List.replicate_add, RenderPc.drawn]

end Live

end Mdb
