import Mdb.Library.Dispenser
import Mdb.Sched.Barrier

/-!
A round of `rsched_host_yield`: the tasks are dispensed from the index of the queue, and every
one is called once.

The index and what the threads do with their tasks are a `Dispenser.Ledger`, whose moves are the
steps of the pops and of the calls as long as the index does not wrap (`NoWrap`). With the barrier,
which has every thread free when `rsched_host_yield` returns, the round is done then (`RoundDone`).
-/

namespace Mdb

open Dispenser (Status Event Move Ledger)

/-! ### Steps as moves of a dispenser -/

/-- The task a worker carries. -/
def WorkerPc.status : WorkerPc → Status
  | .loopCall task => .holding task
  | .loopProcFun task => .calling task
  | _ => .free

/-- The task the host carries. -/
def HostPc.status {n : ℕ} : HostPc n → Status
  | .call task => .holding task
  | .procFun task => .calling task
  | _ => .free

/-- The task a pop has come back with. -/
def PopOut.status : PopOut → Status
  | .ret (some task) => .holding task
  | _ => .free

/-- What an event does with a task. -/
def WorkerEvent.task : WorkerEvent → Event
  | .popped task => .taken task
  | .called task => .called task
  | .finished task => .finished task
  | _ => .quiet

lemma status_popHandle (out : PopOut) : (popHandle out).status = out.status := by
  cases out with
  | next pc => rfl
  | ret task => cases task <;> rfl

lemma status_waitFrom {n : ℕ} (caller : WaitCaller) (k : ℕ) :
    (waitFrom caller k : HostPc n).status = .free := by
  rw [waitFrom]
  split
  · rfl
  · cases caller <;> rfl

lemma status_sendFrom {n : ℕ} (k : ℕ) : (sendFrom k : HostPc n).status = .free := by
  rw [sendFrom]
  split <;> rfl

lemma status_hostPopHandle {n : ℕ} (out : PopOut) :
    (hostPopHandle out : HostPc n).status = out.status := by
  cases out with
  | next pc => rfl
  | ret task =>
      cases task with
      | none => exact status_waitFrom .yield 0
      | some task => rfl

/-- A step of a pop is a move, unless it wraps the index. -/
lemma pop_move {length idx : ℕ} {spurious : Bool} {pc : PopPc}
    (hwrap : pc = .cas idx → spurious = false → idx + 1 < 2 ^ 32) :
    Move idx .free (popEvent (rschedQueuePop length spurious idx pc).2).task
      (rschedQueuePop length spurious idx pc).1
      (rschedQueuePop length spurious idx pc).2.status := by
  obtain ⟨hpc, hsp, heq⟩ | ⟨-, heq⟩ | ⟨-, -, heq⟩ | ⟨-, -, heq⟩ :=
    rschedQueuePop_cases length spurious idx pc
  · rw [heq, u32_of_lt (hwrap hpc hsp)]
    exact .take idx
  · rw [heq]
    exact .quiet idx .free
  · rw [heq]
    exact .quiet idx .free
  · rw [heq]
    exact .quiet idx .free

/-- A pop returns `NULL` only on an empty queue. -/
lemma empty_of_pop {length idx : ℕ} {spurious : Bool} {pc : PopPc}
    (h : (rschedQueuePop length spurious idx pc).2 = .ret none) :
    length ≤ (rschedQueuePop length spurious idx pc).1 := by
  obtain ⟨-, -, heq⟩ | ⟨hle, heq⟩ | ⟨-, -, heq⟩ | ⟨-, -, heq⟩ :=
    rschedQueuePop_cases length spurious idx pc <;> rw [heq] at h ⊢
  · cases h
  · exact hle
  · cases h
  · cases h

section Worker

variable {F C : Type*} {length idx idx' : ℕ} {spurious : Bool} {w w' : Worker F C}
  {ev : WorkerEvent}

/-- A step of a worker is a move, unless it wraps the index. -/
lemma workerStep_move
    (hwrap : w.pc = .loopPop (.cas idx) → spurious = false → idx + 1 < 2 ^ 32)
    (h : workerStep length spurious idx w = some (idx', w', ev)) :
    Move idx w.pc.status ev.task idx' w'.pc.status := by
  have hheld : ∀ pc : WorkerPc, pc.holdsWord = true → pc.status = .free := fun pc hpc => by
    cases pc <;> first | rfl | cases hpc
  rw [workerStep] at h
  cases hpc : w.pc <;> simp only [hpc, Option.some.injEq, Prod.mk.injEq, reduceCtorEq] at h
  case startLock =>
    split_ifs at h
    obtain ⟨rfl, rfl, rfl⟩ := Option.some.inj h
    exact .quiet ..
  case loopPop pc =>
    obtain ⟨rfl, rfl, rfl⟩ := h
    show Move idx .free _ _ (popHandle _).status
    rw [status_popHandle]
    exact pop_move fun heq => hwrap (hpc.trans (congrArg _ heq))
  case loopCall task =>
    obtain ⟨rfl, rfl, rfl⟩ := h
    exact .call ..
  case loopProcFun task =>
    obtain ⟨rfl, rfl, rfl⟩ := h
    exact .finish ..
  all_goals
    obtain ⟨rfl, rfl, rfl⟩ := h
  case startUnlock =>
    rw [hheld _ (holds_startHandle _).1]
    exact .quiet ..
  case yieldReceive =>
    rw [hheld _ (holds_yieldHandle _).1]
    exact .quiet ..
  case loopReceive =>
    rw [hheld _ (holds_loopHandle _).1]
    exact .quiet ..
  all_goals exact .quiet ..

end Worker

/-! ### The invariant of a round -/

section Round

variable {n : ℕ} {F C : Type*} {length : ℕ} {s s' : Sched n F C}

/-- The dispenser of a scheduler; its threads are the workers and, `none`, the host. -/
def Sched.ledger (s : Sched n F C) : Ledger (Option (Fin n)) where
  next := s.idx
  status := fun
    | none => s.pc.status
    | some i => (s.worker i).pc.status
  taken := s.popped
  called := s.called.map fun c => (c.thread, c.task)
  finished := s.finished

/-- A step of a worker as a step of the dispenser. -/
lemma ledger_worker (i : Fin n) (w : Worker F C) (idx : ℕ) (f : Option F) (c : Option C)
    (ev : WorkerEvent) :
    ({ s.setWorker i w with idx := idx }.record (some i) f c ev).ledger
      = s.ledger.record (some i) ev.task idx w.pc.status := by
  have hstatus : ({ s.setWorker i w with idx := idx }.record (some i) f c ev).ledger.status
      = Function.update s.ledger.status (some i) w.pc.status := by
    funext t
    cases t with
    | none =>
        rw [Function.update_of_ne (by simp)]
        simp only [Sched.ledger, record_pc, Sched.setWorker]
    | some j =>
        by_cases hji : j = i
        · subst hji
          rw [Function.update_self]
          simp only [Sched.ledger, record_worker, Sched.setWorker, Function.update_self]
        · rw [Function.update_of_ne fun h => hji (Option.some.inj h)]
          simp only [Sched.ledger, record_worker, Sched.setWorker, Function.update_of_ne hji]
  rw [Ledger.record, ← hstatus]
  cases ev <;> simp [Sched.ledger, Sched.record, Sched.setWorker, WorkerEvent.task, Event.entries]

/-- A step of the host as a step of the dispenser. -/
lemma ledger_host (pc : HostPc n) (idx : ℕ) (f : Option F) (c : Option C) (ev : WorkerEvent) :
    ({ s with idx := idx, pc := pc }.record none f c ev).ledger
      = s.ledger.record none ev.task idx pc.status := by
  have hstatus : ({ s with idx := idx, pc := pc }.record none f c ev).ledger.status
      = Function.update s.ledger.status none pc.status := by
    funext t
    cases t with
    | none =>
        rw [Function.update_self]
        simp only [Sched.ledger, record_pc]
    | some j =>
        rw [Function.update_of_ne (by simp)]
        simp only [Sched.ledger, record_worker]
  rw [Ledger.record, ← hstatus]
  cases ev <;> simp [Sched.ledger, Sched.record, WorkerEvent.task, Event.entries]

/-- The step does not take the index from `2 ^ 32 - 1` to `0`. -/
def NoWrap (s : Sched n F C) : SchedAction n F C → Prop
  | .worker i spurious => (s.worker i).pc = .loopPop (.cas s.idx) → spurious = false →
      s.idx + 1 < 2 ^ 32
  | .host spurious => s.pc = .pop (.cas s.idx) → spurious = false → s.idx + 1 < 2 ^ 32
  | _ => True

/-- The host has left its task loop. -/
def HostPc.popsDone : HostPc n → Bool
  | .waitSignal .yield _ | .waitState .yield _ | .returned true => true
  | _ => false

/-- The invariant of a round. -/
structure RoundInv (length : ℕ) (s : Sched n F C) : Prop where
  ledger : s.ledger.Inv
  args : ∀ e ∈ s.called, e.fn = s.userFun ∧ e.ctx = s.userCtx
  exhausted : s.pc.popsDone = true → length ≤ s.idx

/-- Inside its call a worker has the function and the context that are set. -/
lemma Worker.At.args {fn : Option F} {ctx : Option C} {w : Worker F C} {l : Level} {task : ℕ}
    (h : w.At fn ctx l) (hpc : w.pc = .loopProcFun task) : w.procFun = fn ∧ w.procCtx = ctx := by
  obtain h | h | h | h := h.any
  · rw [Worker.Parked, hpc] at h
    exact h.elim
  · cases hpc.symm.trans h.1
  · rw [Worker.Running, hpc] at h
    exact ⟨h.2.2.2, h.2.2.1⟩
  · rw [Worker.Starting, hpc] at h
    exact h.elim

/-- A parked worker carries no task. -/
lemma Worker.Parked.status_eq {w : Worker F C} (h : w.Parked) : w.pc.status = .free := by
  rw [Worker.Parked] at h
  cases hpc : w.pc <;> simp only [hpc] at h <;> rfl

lemma pc_of_called {idx idx' : ℕ} {spurious : Bool} {w w' : Worker F C} {task : ℕ}
    (h : workerStep length spurious idx w = some (idx', w', .called task)) :
    w'.pc = .loopProcFun task := by
  rw [workerStep] at h
  cases hpc : w.pc <;> simp only [hpc, Option.some.injEq, Prod.mk.injEq, reduceCtorEq] at h
  case startLock =>
    split_ifs at h
    cases Option.some.inj h
  case loopPop pc =>
    obtain ⟨-, -, hev⟩ := h
    generalize (rschedQueuePop length spurious idx pc).2 = out at hev
    cases out with
    | next pc => cases hev
    | ret task => cases task <;> cases hev
  case loopCall =>
    obtain ⟨-, rfl, hev⟩ := h
    cases hev
    rfl
  all_goals obtain ⟨-, -, ⟨⟩⟩ := h

/-- The calls after an event. -/
lemma args_record {t : Option (Fin n)} {f : Option F} {c : Option C} {ev : WorkerEvent}
    (hargs : ∀ e ∈ s.called, e.fn = s.userFun ∧ e.ctx = s.userCtx)
    (hev : ∀ task, ev = .called task → f = s.userFun ∧ c = s.userCtx) :
    ∀ e ∈ (s.record t f c ev).called, e.fn = s.userFun ∧ e.ctx = s.userCtx := by
  intro e he
  cases ev with
  | called task =>
      rcases List.mem_append.mp he with he | he
      · exact hargs e he
      · rw [List.mem_singleton] at he
        exact he ▸ hev task rfl
  | _ => exact hargs e he

/-- A step of a worker keeps the invariant of a round. -/
lemma workerStep_roundInv {i : Fin n} {spurious : Bool} {idx : ℕ} {w : Worker F C}
    {ev : WorkerEvent} (hbar : BarrierInv s) (hinv : RoundInv length s)
    (hwrap : NoWrap s (.worker i spurious))
    (h : workerStep length spurious s.idx (s.worker i) = some (idx, w, ev)) :
    RoundInv length ({ s.setWorker i w with idx := idx }.record (some i) w.procFun w.procCtx ev) := by
  obtain ⟨hledger, hargs, hdone⟩ := hinv
  have hmove := workerStep_move hwrap h
  refine ⟨?_, ?_, fun hpc => ?_⟩
  · rw [ledger_worker]
    exact hledger.move hmove
  · rw [record_userFun, record_userCtx]
    refine args_record hargs fun task hev => ?_
    subst hev
    have hat := (workerStep_barrierInv hbar h).at_level i
    simp only [Sched.setWorker, Function.update_self] at hat
    exact hat.args (pc_of_called h)
  · rw [record_pc] at hpc
    rw [record_idx]
    exact (hdone hpc).trans hmove.le

/-- A step of the host in its task loop. -/
lemma RoundInv.move_task (hinv : RoundInv length s) (ev : WorkerEvent) {idx : ℕ} {pc : HostPc n}
    (hmove : Move s.idx s.pc.status ev.task idx pc.status)
    (hargs : ∀ task, ev = .called task → s.procFun = s.userFun ∧ s.procCtx = s.userCtx)
    (hdone : pc.popsDone = true → length ≤ idx) :
    RoundInv length ({ s with idx := idx, pc := pc }.record none s.procFun s.procCtx ev) where
  ledger := by
    rw [ledger_host]
    exact hinv.ledger.move hmove
  args := by
    rw [record_userFun, record_userCtx]
    exact args_record hinv.args hargs
  exhausted := fun h => by
    rw [record_pc] at h
    rw [record_idx]
    exact hdone h

/-- A step of the host outside of its task loop. -/
lemma RoundInv.move (hinv : RoundInv length s) (hfree : s.pc.status = .free) {pc : HostPc n}
    (hfree' : pc.status = .free) (hdone : pc.popsDone = true → length ≤ s.idx) :
    RoundInv length { s with pc := pc } :=
  hinv.move_task .quiet (by rw [hfree, hfree']; exact .quiet ..) (fun task h => by cases h) hdone

/-- A send moves no worker. -/
lemma RoundInv.setWorker (hinv : RoundInv length s) {i : Fin n} {w : Worker F C}
    (hpc : w.pc = (s.worker i).pc) : RoundInv length (s.setWorker i w) where
  ledger := by
    have hledger := hinv.ledger.move (t := some i) (.quiet s.idx (s.ledger.status (some i)))
    rwa [show s.ledger.status (some i) = w.pc.status from congrArg WorkerPc.status hpc.symm,
      ← show ({ s.setWorker i w with idx := s.idx }.record (some i) w.procFun w.procCtx
        .quiet).ledger
        = s.ledger.record (some i) .quiet s.idx w.pc.status from ledger_worker ..] at hledger
  args := hinv.args
  exhausted := hinv.exhausted

lemma popsDone_sendFrom (k : ℕ) : (sendFrom k : HostPc n).popsDone = false := by
  rw [sendFrom]
  split <;> rfl

lemma popsDone_sendHandle (i : Fin n) (esig : Option Signal) :
    (sendHandle i esig).popsDone = false ∧ (sendHandle i esig).status = .free := by
  cases esig with
  | none => exact ⟨popsDone_sendFrom _, status_sendFrom _⟩
  | some esig => exact ⟨rfl, rfl⟩

lemma popsDone_hostPopHandle {out : PopOut} (h : (hostPopHandle out : HostPc n).popsDone = true) :
    out = .ret none := by
  cases out with
  | next pc => cases h
  | ret task =>
      cases task with
      | none => rfl
      | some task => cases h

/-- A step of the host inside a call keeps the invariant of a round. -/
lemma hostStep_roundInv {spurious : Bool} (hbar : BarrierInv s)
    (hinv : s.pc.inRound = true → RoundInv length s) (hwrap : NoWrap s (.host spurious))
    (h : hostStep length spurious s = some s') : s'.pc.inRound = true → RoundInv length s' := by
  intro hround
  rw [hostStep] at h
  cases hpc : s.pc <;> simp only [hpc, Option.some.injEq, reduceCtorEq] at h
  case waitSignal caller k =>
    rw [← h] at hround ⊢
    cases caller with
    | create =>
        dsimp only at hround
        split_ifs at hround <;> cases hround
    | yield =>
        have hs := hinv (by rw [hpc]; rfl)
        refine hs.move (by rw [hpc]; rfl) (by split_ifs <;> rfl) fun _ => ?_
        exact hs.exhausted (by rw [hpc]; rfl)
  case waitState caller k =>
    rw [← h] at hround ⊢
    cases caller with
    | create =>
        cases hst : (s.worker k).state <;> simp only [hst, waitHandle] at hround
        case waiting => cases (inRound_waitFrom .create _).mp hround
        all_goals cases hround
    | yield =>
        have hs := hinv (by rw [hpc]; rfl)
        refine hs.move (by rw [hpc]; rfl) ?_ fun _ => hs.exhausted (by rw [hpc]; rfl)
        cases (s.worker k).state with
        | waiting => exact status_waitFrom .yield _
        | _ => rfl
  case setLock k =>
    split_ifs at h
    rw [← Option.some.inj h] at hround
    cases hround
  case setFun k =>
    rw [← h] at hround
    cases hround
  case setCtx k =>
    rw [← h] at hround
    cases hround
  case setUnlock k =>
    rw [← h] at hround
    cases (inRound_setFrom _).symm.trans hround
  case send k esig =>
    rw [← h]
    obtain ⟨hdone, hfree⟩ := popsDone_sendHandle k
      ((s.worker k).sendExchange .start esig spurious).2
    refine ((hinv (by rw [hpc]; rfl)).setWorker Worker.sendExchange_pc).move ?_ hfree fun hd => ?_
    · show s.pc.status = .free
      rw [hpc]
      rfl
    · cases hdone.symm.trans hd
  case pop pc =>
    rw [← h]
    refine (hinv (by rw [hpc]; rfl)).move_task _ ?_ (fun task hev => ?_) fun hd => ?_
    · rw [status_hostPopHandle, hpc]
      exact pop_move fun heq => hwrap (hpc.trans (congrArg _ heq))
    · generalize (rschedQueuePop length spurious s.idx pc).2 = out at hev
      cases out with
      | next pc => cases hev
      | ret task => cases task <;> cases hev
    · exact empty_of_pop (popsDone_hostPopHandle hd)
  case call task =>
    obtain ⟨-, hfn, hctx⟩ := hbar.armed (by rw [hpc]; rfl)
    rw [← h]
    refine (hinv (by rw [hpc]; rfl)).move_task (.called task) ?_ (fun _ _ => ⟨hfn, hctx⟩)
      fun h => by cases h
    rw [hpc]
    exact .call ..
  case procFun task =>
    rw [← h]
    refine (hinv (by rw [hpc]; rfl)).move_task (.finished task) ?_ (fun _ h => by cases h)
      fun h => by cases h
    rw [hpc]
    exact .finish ..

/-- The ledger of a round that begins. -/
lemma roundInv_begin (hbar : BarrierInv s) (hlevel : ∀ i, s.pc.level i = .parked)
    (hidx : s.idx = 0) :
    RoundInv length { s with
      procCtx := s.userCtx, procFun := s.userFun, pc := sendFrom 0, popped := [], called := [],
      finished := [] } where
  ledger := by
    refine .init hidx (fun t => ?_) rfl rfl rfl
    cases t with
    | none => exact status_sendFrom 0
    | some i => exact (hbar.parked (hlevel i)).status_eq
  args := fun e he => absurd he List.not_mem_nil
  exhausted := fun h => by cases (popsDone_sendFrom 0).symm.trans h

/-- The invariant of the scheduler: the barrier and, inside a round, what has been dispensed. -/
structure SchedInv (length : ℕ) (s : Sched n F C) : Prop where
  barrier : BarrierInv s
  round : s.pc.inRound = true → RoundInv length s

/-- A step that does not wrap the index keeps the invariant. -/
lemma step_schedInv {a : SchedAction n F C} (hinv : SchedInv length s) (hwrap : NoWrap s a)
    (h : schedStep length s a = some s') : SchedInv length s' := by
  obtain ⟨hbar, hround⟩ := hinv
  refine ⟨step_barrierInv hbar h, ?_⟩
  cases a with
  | worker i spurious =>
      obtain ⟨idx, w, ev, hw, rfl⟩ := schedStep_worker_inv h
      intro hr
      rw [record_pc] at hr
      exact workerStep_roundInv hbar (hround hr) hwrap hw
  | host spurious => exact hostStep_roundInv hbar hround hwrap h
  | setUserContext userFun userCtx =>
      obtain ⟨-, rfl⟩ := schedStep_setUserContext_inv h
      intro hr
      cases (inRound_setFrom _).symm.trans hr
  | hostYield =>
      obtain ⟨hpc, hidx, pc, rfl, rfl | ⟨-, rfl⟩⟩ := schedStep_hostYield_inv h
      · exact nofun
      · exact fun _ => roundInv_begin hbar (fun i => (level_of_between hpc i).1) hidx
  | requeue =>
      obtain ⟨-, rfl⟩ := schedStep_requeue_inv h
      exact nofun

/-- The invariant holds after every run that does not wrap the index. -/
theorem run_schedInv {as : List (SchedAction n F C)}
    (hmeets : (schedSystem n F C length).Meets NoWrap (schedInit n F C) as)
    (hrun : (schedSystem n F C length).run (schedInit n F C) as = some s) : SchedInv length s := by
  refine (schedSystem n F C length).run_induct_of_meets
    (fun _ _ _ hinv hwrap hstep => step_schedInv hinv hwrap hstep) ⟨barrierInv_init, fun h => ?_⟩
    hmeets hrun
  cases (inRound_waitFrom .create 0).mp h

/-! ### What is done when `rsched_host_yield` returns -/

/-- The host does not try the exchange of a start. -/
def BeforeSend (s : Sched n F C) : SchedAction n F C → Prop
  | .host _ => ∀ i esig, s.pc ≠ .send i esig
  | _ => True

/-- No worker is inside the user function or can enter it before the host sends the next start; each
task of the queue has been passed to it exactly once, with the function and the context set last;
and all calls have returned. -/
structure RoundDone (length : ℕ) (s : Sched n F C) : Prop where
  calm : ∀ as t, (schedSystem n F C length).Meets BeforeSend s as →
    (schedSystem n F C length).run s as = some t →
      ∀ i task, (t.worker i).pc ≠ .loopCall task ∧ (t.worker i).pc ≠ .loopProcFun task
  once : ∀ j < length, (s.called.map ProcCall.task).count j = 1
  args : ∀ e ∈ s.called, e.fn = s.userFun ∧ e.ctx = s.userCtx
  returned : s.finished.Perm (s.called.map fun e => (e.thread, e.task))

/-- While the host is where it has all workers parked, it stays there until it sends. -/
lemma step_level_parked {a : SchedAction n F C} (hlevel : ∀ i, s.pc.level i = .parked)
    (hsend : BeforeSend s a) (h : schedStep length s a = some s') :
    ∀ i, s'.pc.level i = .parked := by
  cases a with
  | worker i spurious =>
      obtain ⟨idx, w, ev, -, rfl⟩ := schedStep_worker_inv h
      rw [record_pc]
      exact hlevel
  | host spurious =>
      rw [schedStep, hostStep] at h
      cases hpc : s.pc <;> simp only [hpc, Option.some.injEq, reduceCtorEq] at h
      case waitSignal caller k =>
        have hk := hlevel k
        rw [hpc, HostPc.level, if_neg (lt_irrefl k)] at hk
        cases caller <;> cases hk
      case waitState caller k =>
        have hk := hlevel k
        rw [hpc, HostPc.level, if_neg (lt_irrefl k), if_pos rfl] at hk
        cases caller <;> cases hk
      case setLock k =>
        split_ifs at h
        rw [← Option.some.inj h]
        exact fun _ => rfl
      case setFun k => exact h ▸ fun _ => rfl
      case setCtx k => exact h ▸ fun _ => rfl
      case setUnlock k => exact h ▸ level_setFrom _
      case send k esig => exact absurd hpc (hsend k esig)
      all_goals
        -- in the task loop the host promises nothing: there is no worker
        intro i
        have hi := hlevel i
        rw [hpc] at hi
        cases hi
  | setUserContext userFun userCtx =>
      obtain ⟨-, rfl⟩ := schedStep_setUserContext_inv h
      exact level_setFrom 0
  | hostYield =>
      obtain ⟨-, -, pc, rfl, rfl | ⟨-, rfl⟩⟩ := schedStep_hostYield_inv h
      · exact fun _ => rfl
      · exact fun i => by rw [level_sendFrom, if_neg (Nat.not_lt_zero _)]
  | requeue =>
      obtain ⟨-, rfl⟩ := schedStep_requeue_inv h
      exact fun _ => rfl

/-- All workers stay parked until the host sends. -/
lemma run_parked {as : List (SchedAction n F C)} (hbar : BarrierInv s)
    (hlevel : ∀ i, s.pc.level i = .parked)
    (hmeets : (schedSystem n F C length).Meets BeforeSend s as)
    (hrun : (schedSystem n F C length).run s as = some s') : ∀ i, (s'.worker i).Parked := by
  obtain ⟨hbar', hlevel'⟩ := (schedSystem n F C length).run_induct_of_meets
    (P := fun s => BarrierInv s ∧ ∀ i, s.pc.level i = .parked)
    (fun _ _ _ hs hsend hstep => ⟨step_barrierInv hs.1 hstep, step_level_parked hs.2 hsend hstep⟩)
    ⟨hbar, hlevel⟩ hmeets hrun
  exact fun i => hbar'.parked (hlevel' i)

/-- The invariant says that the round is done when `rsched_host_yield` returns with success. -/
lemma SchedInv.roundDone (hinv : SchedInv length s) (hpc : s.pc = .returned true) :
    RoundDone length s := by
  obtain ⟨hbar, hround⟩ := hinv
  obtain ⟨hledger, hargs, hdone⟩ := hround (by rw [hpc]; rfl)
  have hlevel : ∀ i, s.pc.level i = .parked := fun i => by rw [hpc]; rfl
  have hfree : ∀ t, s.ledger.status t = .free := fun t => by
    cases t with
    | none =>
        show s.pc.status = .free
        rw [hpc]
        rfl
    | some i => exact (hbar.parked (hlevel i)).status_eq
  refine ⟨fun as t hmeets hrun i task => ?_, fun j hj => ?_, hargs, hledger.finished_perm hfree⟩
  · have hi := (run_parked hbar hlevel hmeets hrun i).status_eq
    refine ⟨fun h => ?_, fun h => ?_⟩ <;>
    · rw [h] at hi
      cases hi
  · have honce := hledger.called_once hfree (hj.trans_le (hdone (by rw [hpc]; rfl)))
    rwa [show s.ledger.called.map Prod.snd = s.called.map ProcCall.task from List.map_map ..]
      at honce

end Round

end Mdb
