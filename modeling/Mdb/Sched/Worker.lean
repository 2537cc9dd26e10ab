import Mdb.Sched.Pop

/-!
A worker thread: `rsched_worker`, `rsched_worker_loop` and `rsched_worker_yield` of
`sched/rsched_worker.c` and `sched/rsched_worker.h`.

`workerStep` makes one atomic step: an access to the signal word, the state, the lock, a field
under the lock, the index of the queue, or a call of the user function or its return. What the
thread computes in between touches itself alone and belongs to the step before it. Each step
reports what it did to the signal word or with the user function (`WorkerEvent`).
-/

namespace Mdb

/-- The values of the signal word. -/
inductive Signal where
  | none
  | start
  | int
  | quit
  | locked
  deriving DecidableEq

/-- A signal that can be sent to a worker. -/
def Signal.isSent : Signal → Bool
  | .start | .int | .quit => true
  | .none | .locked => false

/-- The states of a worker; `unset` is the zero of a worker that has not run yet. -/
inductive WorkerState where
  | unset
  | running
  | waiting
  | down
  deriving DecidableEq

/-- Where a worker thread stands: before the access its name tells. -/
inductive WorkerPc where
  | yieldSetWaiting
  | yieldReceive
  | yieldUnlock
  | startLock
  | startUserCtx
  | startUserFun
  | startUnlock
  | startSetRunning
  | startSigUnlock
  | loopPop (pc : PopPc)
  | loopEmptyUnlock
  | loopCall (task : ℕ)
  | loopProcFun (task : ℕ)
  | loopReceive
  | loopSigUnlock
  | intSigUnlock
  | exitSetDown
  | exitSigUnlock
  | done
  deriving DecidableEq

/-- `struct rsched_worker` with the local variables of its thread; a function pointer that is
`NULL` is `none`. -/
structure Worker (F C : Type*) where
  signal : Signal
  state : WorkerState
  lock : Bool
  userFun : Option F
  userCtx : Option C
  pc : WorkerPc
  procFun : Option F
  procCtx : Option C

/-- What a step of a worker did to the signal word, by `rsched_worker_sig_lock_receive` or
`rsched_worker_sig_unlock`, or with the user function. -/
inductive WorkerEvent where
  | quiet
  | received (sig : Signal)
  | unlocked (old : Signal)
  | popped (task : ℕ)
  | called (task : ℕ)
  | finished (task : ℕ)
  deriving DecidableEq

section Worker

variable {F C : Type*}

/-- A worker whose thread has just been created, all zero. -/
def Worker.init : Worker F C where
  signal := .none
  state := .unset
  lock := false
  userFun := none
  userCtx := none
  pc := .yieldSetWaiting
  procFun := none
  procCtx := none

/-- `rsched_worker_sig_lock_receive`, at a place where the thread goes on at `pc`. -/
def Worker.lockReceive (w : Worker F C) (pc : Signal → WorkerPc) : Worker F C × WorkerEvent :=
  ({ w with signal := .locked, pc := pc w.signal }, .received w.signal)

/-- `rsched_worker_sig_unlock`, at a place where the thread goes on at `pc`. -/
def Worker.sigUnlock (w : Worker F C) (pc : WorkerPc) : Worker F C × WorkerEvent :=
  ({ w with signal := .none, pc := pc }, .unlocked w.signal)

/-- Where `sig_handle` of `rsched_worker` goes: an unknown signal makes the worker exit. -/
def sigHandle : Signal → WorkerPc
  | .start => .startLock
  | .quit => .exitSetDown
  | .int => .intSigUnlock
  | .none | .locked => .exitSetDown

/-- Where `rsched_worker_yield` goes with what it received. -/
def yieldHandle : Signal → WorkerPc
  | .none => .yieldUnlock
  | sig => sigHandle sig

/-- Where `rsched_worker_loop` goes with what it received: `NONE` and `START` continue the loop,
everything else leaves it. -/
def loopHandle : Signal → WorkerPc
  | .none | .start => .loopSigUnlock
  | sig => sigHandle sig

/-- Where `sig_handle` goes with the function it has read: a worker without one exits. -/
def startHandle : Option F → WorkerPc
  | none => .exitSetDown
  | some _ => .startSetRunning

/-- Where `rsched_worker_loop` goes with what a step of `rsched_queue_pop` leads to. -/
def popHandle : PopOut → WorkerPc
  | .next pc => .loopPop pc
  | .ret none => .loopEmptyUnlock
  | .ret (some task) => .loopCall task

/-- The event of a step of `rsched_queue_pop`. -/
def popEvent : PopOut → WorkerEvent
  | .ret (some task) => .popped task
  | _ => .quiet

/-- A step of the worker thread: the index of the queue, the worker and the event. There is none
while the thread waits for the lock, and after it has returned. -/
def workerStep (length : ℕ) (spurious : Bool) (idx : ℕ) (w : Worker F C) :
    Option (ℕ × Worker F C × WorkerEvent) :=
  match w.pc with
  | .yieldSetWaiting => some (idx, { w with state := .waiting, pc := .yieldReceive }, .quiet)
  | .yieldReceive => some (idx, w.lockReceive yieldHandle)
  | .yieldUnlock => some (idx, w.sigUnlock .yieldReceive)
  | .startLock =>
      if w.lock then none else some (idx, { w with lock := true, pc := .startUserCtx }, .quiet)
  | .startUserCtx => some (idx, { w with procCtx := w.userCtx, pc := .startUserFun }, .quiet)
  | .startUserFun => some (idx, { w with procFun := w.userFun, pc := .startUnlock }, .quiet)
  | .startUnlock => some (idx, { w with lock := false, pc := startHandle w.procFun }, .quiet)
  | .startSetRunning => some (idx, { w with state := .running, pc := .startSigUnlock }, .quiet)
  | .startSigUnlock => some (idx, w.sigUnlock (.loopPop .load))
  | .loopPop pc =>
      let (idx, out) := rschedQueuePop length spurious idx pc
      some (idx, { w with pc := popHandle out }, popEvent out)
  | .loopEmptyUnlock => some (idx, w.sigUnlock .yieldSetWaiting)
  | .loopCall task => some (idx, { w with pc := .loopProcFun task }, .called task)
  | .loopProcFun task => some (idx, { w with pc := .loopReceive }, .finished task)
  | .loopReceive => some (idx, w.lockReceive loopHandle)
  | .loopSigUnlock => some (idx, w.sigUnlock (.loopPop .load))
  | .intSigUnlock => some (idx, w.sigUnlock .yieldSetWaiting)
  | .exitSetDown => some (idx, { w with state := .down, pc := .exitSigUnlock }, .quiet)
  | .exitSigUnlock => some (idx, w.sigUnlock .done)
  | .done => none

/-! ### The signal word -/

/-- An exchange of `rsched_send_worker_sig`: the worker, and the value of `esig` for the next one
unless the signal has been sent. -/
def Worker.sendExchange (w : Worker F C) (sig esig : Signal) (spurious : Bool) :
    Worker F C × Option Signal :=
  if w.signal = esig ∧ spurious = false then ({ w with signal := sig }, none)
  -- the failed exchange leaves the signal word in `esig`
  else (w, some w.signal)

section SendExchange

variable {w : Worker F C} {sig esig : Signal} {spurious : Bool}

lemma Worker.sendExchange_of_eq (h : w.signal = esig ∧ spurious = false) :
    w.sendExchange sig esig spurious = ({ w with signal := sig }, none) := if_pos h

lemma Worker.sendExchange_of_ne (h : ¬ (w.signal = esig ∧ spurious = false)) :
    w.sendExchange sig esig spurious = (w, some w.signal) := if_neg h

/-- An exchange does not move the worker. -/
@[simp] lemma Worker.sendExchange_pc : (w.sendExchange sig esig spurious).1.pc = w.pc := by
  rw [Worker.sendExchange]
  split_ifs <;> rfl

end SendExchange

/-- Between a receive and the unlock that follows it the worker holds the signal word. -/
def WorkerPc.holdsWord : WorkerPc → Bool
  | .yieldUnlock | .startLock | .startUserCtx | .startUserFun | .startUnlock | .startSetRunning
  | .startSigUnlock | .loopSigUnlock | .intSigUnlock | .exitSetDown | .exitSigUnlock => true
  | _ => false

/-- The last unlock of a worker, and the end of its thread. -/
def WorkerPc.isLeaving : WorkerPc → Bool
  | .exitSigUnlock | .done => true
  | _ => false

lemma holds_yieldHandle (sig : Signal) :
    (yieldHandle sig).holdsWord = true ∧ (yieldHandle sig).isLeaving = false := by
  cases sig <;> exact ⟨rfl, rfl⟩

lemma holds_loopHandle (sig : Signal) :
    (loopHandle sig).holdsWord = true ∧ (loopHandle sig).isLeaving = false := by
  cases sig <;> exact ⟨rfl, rfl⟩

lemma holds_startHandle (f : Option F) :
    (startHandle f).holdsWord = true ∧ (startHandle f).isLeaving = false := by
  cases f <;> exact ⟨rfl, rfl⟩

lemma frees_popHandle (out : PopOut) :
    (popHandle out).holdsWord = false ∧ (popHandle out).isLeaving = false := by
  cases out with
  | next pc => exact ⟨rfl, rfl⟩
  | ret task => cases task <;> exact ⟨rfl, rfl⟩

lemma popEvent_ne (out : PopOut) (sig : Signal) :
    popEvent out ≠ .received sig ∧ popEvent out ≠ .unlocked sig := by
  cases out with
  | next pc => exact ⟨nofun, nofun⟩
  | ret task => cases task <;> exact ⟨nofun, nofun⟩

variable {length idx idx' : ℕ} {spurious : Bool} {w w' : Worker F C} {ev : WorkerEvent}

/-- **What a step of the worker does to the signal word.** It leaves the word alone and goes on
holding it or not; it receives, and holds it from then on; or it unlocks, and holds it no more,
which it did before unless the task loop has found the queue empty. -/
lemma workerStep_word (h : workerStep length spurious idx w = some (idx', w', ev)) :
    ((∀ sig, ev ≠ .received sig ∧ ev ≠ .unlocked sig) ∧ w'.signal = w.signal ∧
        w'.pc.holdsWord = w.pc.holdsWord) ∨
      (ev = .received w.signal ∧ w'.signal = .locked ∧ w'.pc.holdsWord = true) ∨
      (ev = .unlocked w.signal ∧ w'.signal = .none ∧ w'.pc.holdsWord = false ∧
        (w.pc.holdsWord = true ∨ w.pc = .loopEmptyUnlock)) := by
  rw [workerStep] at h
  cases hpc : w.pc <;> simp only [hpc, Option.some.injEq, Prod.mk.injEq, reduceCtorEq] at h
  case startLock =>
    split_ifs at h
    obtain ⟨rfl, rfl, rfl⟩ := Option.some.inj h
    exact Or.inl ⟨fun _ => ⟨nofun, nofun⟩, rfl, rfl⟩
  case loopPop pc =>
    obtain ⟨rfl, rfl, rfl⟩ := h
    exact Or.inl ⟨popEvent_ne _, rfl, (frees_popHandle _).1⟩
  case startUnlock =>
    obtain ⟨rfl, rfl, rfl⟩ := h
    exact Or.inl ⟨fun _ => ⟨nofun, nofun⟩, rfl, (holds_startHandle _).1⟩
  case yieldReceive =>
    obtain ⟨rfl, rfl, rfl⟩ := h
    exact Or.inr (Or.inl ⟨rfl, rfl, (holds_yieldHandle _).1⟩)
  case loopReceive =>
    obtain ⟨rfl, rfl, rfl⟩ := h
    exact Or.inr (Or.inl ⟨rfl, rfl, (holds_loopHandle _).1⟩)
  all_goals
    obtain ⟨rfl, rfl, rfl⟩ := h
    first
    | exact Or.inl ⟨fun _ => ⟨nofun, nofun⟩, rfl, rfl⟩
    | exact Or.inr (Or.inr ⟨rfl, rfl, rfl, Or.inl rfl⟩)
    | exact Or.inr (Or.inr ⟨rfl, rfl, rfl, Or.inr rfl⟩)

/-- A worker becomes `DOWN` only on its way out. -/
lemma workerStep_down (h : workerStep length spurious idx w = some (idx', w', ev))
    (hdown : w'.state = .down) : w.state = .down ∨ w'.pc = .exitSigUnlock := by
  rw [workerStep] at h
  cases hpc : w.pc <;> simp only [hpc, Option.some.injEq, Prod.mk.injEq, reduceCtorEq] at h
  case startLock =>
    split_ifs at h
    obtain ⟨rfl, rfl, rfl⟩ := Option.some.inj h
    exact Or.inl hdown
  all_goals
    obtain ⟨rfl, rfl, rfl⟩ := h
    first
    | exact Or.inl hdown
    | exact Or.inr rfl
    | cases hdown

/-- A worker on its way out is `DOWN`. -/
def Worker.LeavesDown (w : Worker F C) : Prop := w.pc.isLeaving = true → w.state = .down

lemma workerStep_leavesDown (hw : w.LeavesDown)
    (h : workerStep length spurious idx w = some (idx', w', ev)) : w'.LeavesDown := by
  rw [workerStep] at h
  intro hpc'
  cases hpc : w.pc <;> simp only [hpc, Option.some.injEq, Prod.mk.injEq, reduceCtorEq] at h
  case startLock =>
    split_ifs at h
    obtain ⟨rfl, rfl, rfl⟩ := Option.some.inj h
    cases hpc'
  case exitSigUnlock =>
    obtain ⟨rfl, rfl, rfl⟩ := h
    exact hw (by rw [hpc]; rfl)
  case yieldReceive =>
    obtain ⟨rfl, rfl, rfl⟩ := h
    cases (holds_yieldHandle w.signal).2.symm.trans hpc'
  case loopReceive =>
    obtain ⟨rfl, rfl, rfl⟩ := h
    cases (holds_loopHandle w.signal).2.symm.trans hpc'
  case startUnlock =>
    obtain ⟨rfl, rfl, rfl⟩ := h
    cases (holds_startHandle w.procFun).2.symm.trans hpc'
  case loopPop =>
    obtain ⟨rfl, rfl, rfl⟩ := h
    cases (frees_popHandle _).2.symm.trans hpc'
  all_goals
    obtain ⟨rfl, rfl, rfl⟩ := h
    first
    | rfl
    | cases hpc'

end Worker

end Mdb
