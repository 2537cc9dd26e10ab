import Mdb.Sched.Worker

/-!
The scheduler: `rsched_create`, `rsched_set_user_context`, `rsched_host_yield` and
`rsched_requeue` of `sched/rsched.c`, run by the host against any number of workers.

`hostStep` makes one atomic step of the call the host is inside, `schedStep` a step of the host
or of a worker, or begins the next call of the host. A scheduler starts where `rsched_create` has
created its workers and begins to wait for them. The lists of the tasks popped and of the calls of
the user function, each with its return, are those of the current `rsched_host_yield`.
-/

namespace Mdb

/-- Which function calls `rsched_wait_workers`. -/
inductive WaitCaller where
  | create
  | yield
  deriving DecidableEq

/-- Where the host stands among `n` workers: before the access the name tells, or between calls. -/
inductive HostPc (n : ℕ) where
  | waitSignal (caller : WaitCaller) (i : Fin n)
  | waitState (caller : WaitCaller) (i : Fin n)
  | failed
  | idle
  | returned (ok : Bool)
  | setLock (i : Fin n)
  | setFun (i : Fin n)
  | setCtx (i : Fin n)
  | setUnlock (i : Fin n)
  | send (i : Fin n) (esig : Signal)
  | pop (pc : PopPc)
  | call (task : ℕ)
  | procFun (task : ℕ)
  deriving DecidableEq

/-- A call of the user function: by a worker or, `none`, by the host. -/
structure ProcCall (n : ℕ) (F C : Type*) where
  thread : Option (Fin n)
  task : ℕ
  fn : Option F
  ctx : Option C

/-- `struct rsched` with the local variables of the host, and what happened in the current round. -/
structure Sched (n : ℕ) (F C : Type*) where
  idx : ℕ
  worker : Fin n → Worker F C
  userFun : Option F
  userCtx : Option C
  pc : HostPc n
  procFun : Option F
  procCtx : Option C
  popped : List (Option (Fin n) × ℕ)
  called : List (ProcCall n F C)
  finished : List (Option (Fin n) × ℕ)

/-- The steps: of a worker; of the host inside a call; and the beginning of a call of the host. -/
inductive SchedAction (n : ℕ) (F C : Type*) where
  | worker (i : Fin n) (spurious : Bool)
  | host (spurious : Bool)
  | setUserContext (userFun : Option F) (userCtx : Option C)
  | hostYield
  | requeue

section Host

variable {n : ℕ} {F C : Type*}

/-! ### The loops over the workers -/

/-- What the callers of `rsched_wait_workers` do when it succeeds. -/
def waitSuccess : WaitCaller → HostPc n
  | .create => .idle
  | .yield => .returned true

/-- What the callers of `rsched_wait_workers` do when it fails. -/
def waitFail : WaitCaller → HostPc n
  | .create => .failed
  | .yield => .returned false

/-- `rsched_wait_workers` from the worker `i` on. -/
def waitFrom (caller : WaitCaller) (i : ℕ) : HostPc n :=
  if h : i < n then .waitSignal caller ⟨i, h⟩ else waitSuccess caller

/-- Where `rsched_wait_worker` goes with the state it has read. -/
def waitHandle (caller : WaitCaller) (i : Fin n) : WorkerState → HostPc n
  | .waiting => waitFrom caller (i + 1)
  | .down => waitFail caller
  | .unset | .running => .waitSignal caller i

/-- `update_workers_user_ctx` from the worker `i` on. -/
def setFrom (i : ℕ) : HostPc n := if h : i < n then .setLock ⟨i, h⟩ else .idle

/-- `rsched_run_workers` from the worker `i` on; behind it comes the task loop. -/
def sendFrom (i : ℕ) : HostPc n := if h : i < n then .send ⟨i, h⟩ .none else .pop .load

/-- Where `rsched_send_worker_sig` goes after an exchange. -/
def sendHandle (i : Fin n) : Option Signal → HostPc n
  | none => sendFrom (i + 1)
  | some esig => .send i esig

/-- Where the task loop of the host goes with what a step of `rsched_queue_pop` leads to. -/
def hostPopHandle : PopOut → HostPc n
  | .next pc => .pop pc
  | .ret none => waitFrom .yield 0
  | .ret (some task) => .call task

/-! ### Steps -/

/-- One worker replaced. -/
def Sched.setWorker (s : Sched n F C) (i : Fin n) (w : Worker F C) : Sched n F C :=
  { s with worker := Function.update s.worker i w }

/-- What a thread with the given local variables did, noted down. -/
def Sched.record (s : Sched n F C) (thread : Option (Fin n)) (procFun : Option F)
    (procCtx : Option C) : WorkerEvent → Sched n F C
  | .popped task => { s with popped := s.popped ++ [(thread, task)] }
  | .called task => { s with called := s.called ++ [⟨thread, task, procFun, procCtx⟩] }
  | .finished task => { s with finished := s.finished ++ [(thread, task)] }
  | _ => s

/-- A step of the host inside a call. There is none while it waits for a lock. -/
def hostStep (length : ℕ) (spurious : Bool) (s : Sched n F C) : Option (Sched n F C) :=
  match s.pc with
  | .waitSignal caller i =>
      some { s with
        pc := if (s.worker i).signal = .none then .waitState caller i else .waitSignal caller i }
  | .waitState caller i => some { s with pc := waitHandle caller i (s.worker i).state }
  | .setLock i =>
      if (s.worker i).lock then none
      else some { s.setWorker i { s.worker i with lock := true } with pc := .setFun i }
  -- `fun` and `user_ctx` are what `rsched_set_user_context` has stored before
  | .setFun i => some { s.setWorker i { s.worker i with userFun := s.userFun } with pc := .setCtx i }
  | .setCtx i =>
      some { s.setWorker i { s.worker i with userCtx := s.userCtx } with pc := .setUnlock i }
  | .setUnlock i =>
      some { s.setWorker i { s.worker i with lock := false } with pc := setFrom (i + 1) }
  | .send i esig =>
      let (w, esig) := (s.worker i).sendExchange .start esig spurious
      some { s.setWorker i w with pc := sendHandle i esig }
  | .pop pc =>
      let (idx, out) := rschedQueuePop length spurious s.idx pc
      some ({ s with idx := idx, pc := hostPopHandle out }.record none s.procFun s.procCtx
        (popEvent out))
  | .call task =>
      some ({ s with pc := .procFun task }.record none s.procFun s.procCtx (.called task))
  | .procFun task =>
      some ({ s with pc := .pop .load }.record none s.procFun s.procCtx (.finished task))
  | .failed | .idle | .returned _ => none

/-- The host is in no call. -/
def HostPc.between : HostPc n → Bool
  | .idle | .returned _ => true
  | _ => false

/-- A step of the scheduler. The host calls `rsched_host_yield` only on a full queue. -/
def schedStep (length : ℕ) (s : Sched n F C) : SchedAction n F C → Option (Sched n F C)
  | .worker i spurious =>
      (workerStep length spurious s.idx (s.worker i)).map fun (idx, w, ev) =>
        { s.setWorker i w with idx := idx }.record (some i) w.procFun w.procCtx ev
  | .host spurious => hostStep length spurious s
  | .setUserContext userFun userCtx =>
      if s.pc.between then
        some { s with userFun := userFun, userCtx := userCtx, pc := setFrom 0 }
      else none
  | .hostYield =>
      if s.pc.between ∧ s.idx = 0 then
        some { s with
          procCtx := s.userCtx
          procFun := s.userFun
          pc := if s.userFun.isNone then .returned false else sendFrom 0
          popped := []
          called := []
          finished := [] }
      else none
  | .requeue => if s.pc.between then some { s with idx := 0, pc := .idle } else none

/-- The scheduler as a step system. -/
def schedSystem (n : ℕ) (F C : Type*) (length : ℕ) : StepSystem (Sched n F C) (SchedAction n F C) :=
  ⟨schedStep length⟩

/-- `rsched_create` has created the workers and begins to wait for them. -/
def schedInit (n : ℕ) (F C : Type*) : Sched n F C where
  idx := 0
  worker := fun _ => Worker.init
  userFun := none
  userCtx := none
  pc := waitFrom .create 0
  procFun := none
  procCtx := none
  popped := []
  called := []
  finished := []

/-! ### What a step does -/

section Step

variable {length : ℕ} {s s' : Sched n F C}

lemma schedStep_worker_inv {i : Fin n} {spurious : Bool}
    (h : schedStep length s (.worker i spurious) = some s') :
    ∃ idx w ev, workerStep length spurious s.idx (s.worker i) = some (idx, w, ev) ∧
      s' = { s.setWorker i w with idx := idx }.record (some i) w.procFun w.procCtx ev := by
  rw [schedStep, Option.map_eq_some_iff] at h
  obtain ⟨⟨idx, w, ev⟩, hw, heq⟩ := h
  exact ⟨idx, w, ev, hw, heq.symm⟩

lemma schedStep_setUserContext_inv {userFun : Option F} {userCtx : Option C}
    (h : schedStep length s (.setUserContext userFun userCtx) = some s') :
    s.pc.between = true ∧
      s' = { s with userFun := userFun, userCtx := userCtx, pc := setFrom 0 } := by
  rw [schedStep] at h
  split_ifs at h with hpc
  exact ⟨hpc, (Option.some.inj h).symm⟩

/-- `rsched_host_yield` fails at once where no function is set. -/
lemma schedStep_hostYield_inv (h : schedStep length s .hostYield = some s') :
    s.pc.between = true ∧ s.idx = 0 ∧
      ∃ pc, s' = { s with
          procCtx := s.userCtx, procFun := s.userFun, pc := pc, popped := [], called := [],
          finished := [] } ∧
        (pc = .returned false ∨ (s.userFun ≠ none ∧ pc = sendFrom 0)) := by
  rw [schedStep] at h
  split_ifs at h with hpc hnull
  · exact ⟨hpc.1, hpc.2, _, (Option.some.inj h).symm, Or.inl rfl⟩
  · have hsome : s.userFun ≠ none := fun hnone => hnull (Option.isNone_iff_eq_none.mpr hnone)
    exact ⟨hpc.1, hpc.2, _, (Option.some.inj h).symm, Or.inr ⟨hsome, rfl⟩⟩

lemma schedStep_requeue_inv (h : schedStep length s .requeue = some s') :
    s.pc.between = true ∧ s' = { s with idx := 0, pc := .idle } := by
  rw [schedStep] at h
  split_ifs at h with hpc
  exact ⟨hpc, (Option.some.inj h).symm⟩

end Step

/-! ### What a step leaves alone -/

section Record

variable (s : Sched n F C) (t : Option (Fin n)) (f : Option F) (c : Option C) (ev : WorkerEvent)

@[simp] lemma record_idx : (s.record t f c ev).idx = s.idx := by cases ev <;> rfl

@[simp] lemma record_worker : (s.record t f c ev).worker = s.worker := by cases ev <;> rfl

@[simp] lemma record_userFun : (s.record t f c ev).userFun = s.userFun := by cases ev <;> rfl

@[simp] lemma record_userCtx : (s.record t f c ev).userCtx = s.userCtx := by cases ev <;> rfl

@[simp] lemma record_pc : (s.record t f c ev).pc = s.pc := by cases ev <;> rfl

end Record

end Host

end Mdb
