import Mdb.Library.Reaches
import Mdb.Sched.Machine

/-!
What keeps the scheduler going: the invariant of the runs whose exchanges fail only on different
values.

A failed exchange of a pop makes a thread expect the successor of the index, so that it waits for
another thread to move it. The thread that moved the index last comes back to the index itself, and
there is always one while tasks are left (`TakesNext`). A lock is held only by a thread that gives
it back by itself. `LiveInv` says this beside the invariant of the scheduler; `run_liveInv` is its
run lemma.
-/

namespace Mdb

section Worker

variable {F C : Type*}

/-! ### Which thread takes the next task -/

/-- The worker comes to the task at the index, unless another thread takes it first. -/
def WorkerPc.takesNext (idx : ℕ) : WorkerPc → Bool
  | .loopPop .load | .loopCall _ | .loopProcFun _ | .loopReceive | .loopSigUnlock => true
  | .loopPop (.cas cur) => cur = idx
  | _ => false

variable {length idx idx' : ℕ} {w w' : Worker F C} {ev : WorkerEvent} {fn : Option F}
  {ctx : Option C} {l : Level}

lemma workerStep_pop {spurious : Bool} {pc : PopPc} {out : PopOut} (hpc : w.pc = .loopPop pc)
    (h : rschedQueuePop length spurious idx pc = (idx', out)) :
    workerStep length spurious idx w =
      some (idx', { w with pc := popHandle out }, popEvent out) := by
  rw [workerStep, hpc]
  simp only [h]

/-- No signal is on its way to a worker in the task loop. -/
lemma Worker.At.signal_of_loopReceive (h : w.At fn ctx l) (hpc : w.pc = .loopReceive) :
    w.signal = .none := by
  rcases h.any with h | h | h | h
  · rw [Worker.Parked, hpc] at h
    exact h.elim
  · cases hpc.symm.trans h.1
  · rw [Worker.Running, hpc] at h
    exact h.1
  · rw [Worker.Starting, hpc] at h
    exact h.elim

/-- While tasks are left, a worker that comes to the next one still does after its step, and one
that has moved the index does. -/
lemma workerStep_takesNext (hat : w.At fn ctx l) (hlt : idx' < length)
    (h : workerStep length false idx w = some (idx', w', ev))
    (hnext : w.pc.takesNext idx = true ∨ idx' ≠ idx) : w'.pc.takesNext idx' = true := by
  rw [workerStep] at h
  cases hpc : w.pc <;> simp only [hpc, Option.some.injEq, Prod.mk.injEq, reduceCtorEq] at h
  case startLock =>
    split_ifs at h
    obtain ⟨rfl, -, -⟩ := Option.some.inj h
    simp [hpc, WorkerPc.takesNext] at hnext
  case loopPop pc =>
    obtain ⟨hidx, rfl, -⟩ := h
    obtain ⟨-, -, heq⟩ | ⟨hle, heq⟩ | ⟨-, rfl, heq⟩ | ⟨-, ⟨cur, rfl, hcur⟩, heq⟩ :=
      rschedQueuePop_cases length false idx pc
    · simp [heq, popHandle, WorkerPc.takesNext]
    · rw [heq] at hidx
      dsimp only at hidx
      omega
    · rw [heq] at hidx
      simpa [heq, popHandle, WorkerPc.takesNext] using hidx
    · -- the exchange fails: the worker expected another index, and has not moved it
      rw [heq] at hidx
      dsimp only at hidx
      subst hidx
      rw [hpc] at hnext
      simp only [WorkerPc.takesNext, decide_eq_true_eq, ne_eq, not_true_eq_false, or_false] at hnext
      exact absurd (hcur hnext) Bool.false_ne_true
  case loopReceive =>
    obtain ⟨-, rfl, -⟩ := h
    simp [hat.signal_of_loopReceive hpc, loopHandle, WorkerPc.takesNext]
  all_goals
    obtain ⟨rfl, rfl, -⟩ := h
    simp [hpc, WorkerPc.takesNext] at hnext ⊢

/-! ### The lock -/

/-- The worker has taken its lock and gives it back by itself. -/
def WorkerPc.holdsLock : WorkerPc → Bool
  | .startUserCtx | .startUserFun | .startUnlock => true
  | _ => false

/-- A lock that is held after a step of the worker is held by it, or was by another thread. -/
lemma workerStep_lock {spurious : Bool}
    (h : workerStep length spurious idx w = some (idx', w', ev)) (hlock : w'.lock = true) :
    w'.pc.holdsLock = true ∨ w.lock = true ∧ w.pc.holdsLock = false := by
  rw [workerStep] at h
  cases hpc : w.pc <;> simp only [hpc, Option.some.injEq, Prod.mk.injEq, reduceCtorEq] at h
  case startLock =>
    split_ifs at h
    obtain ⟨-, rfl, -⟩ := Option.some.inj h
    exact Or.inl rfl
  all_goals obtain ⟨-, rfl, -⟩ := h
  case startUserCtx => exact Or.inl rfl
  case startUserFun => exact Or.inl rfl
  case startUnlock => cases hlock
  all_goals exact Or.inr ⟨hlock, rfl⟩

end Worker

section Host

variable {n : ℕ} {F C : Type*} {length : ℕ} {s s' : Sched n F C}

/-! ### The invariant -/

/-- A queue of which no run wraps the index. -/
def FitsIndex (n length : ℕ) : Prop := length < 2 ^ 32 ∧ (n = 0 ∨ length + 1 < 2 ^ 32)

lemma ExpectsInv.noWrap (hinv : ExpectsInv length s) (hL : FitsIndex n length)
    (a : SchedAction n F C) : NoWrap s a := by
  obtain ⟨hlt, rfl | hlt'⟩ := hL
  · exact PopsWithin.noWrap hlt (hinv.popsWithin (Or.inr ⟨rfl, le_rfl⟩) a)
  · exact PopsWithin.noWrap hlt' (hinv.popsWithin (Or.inl (Nat.lt_succ_self length)) a)

/-- The exchanges of the step fail only on different values. -/
def SchedAction.Strong : SchedAction n F C → Prop
  | .worker _ spurious | .host spurious => spurious = false
  | _ => True

/-- The step begins no call of the host. -/
def SchedAction.Inside : SchedAction n F C → Prop
  | .worker _ spurious | .host spurious => spurious = false
  | _ => False

/-- The host comes to the task at the index, unless a worker takes it first. -/
def HostPc.takesNext (idx : ℕ) : HostPc n → Bool
  | .send _ _ | .pop .load | .call _ | .procFun _ => true
  | .pop (.cas cur) => cur = idx
  | _ => false

/-- The host holds the lock of the worker `i`, inside `update_workers_user_ctx`. -/
def HostPc.holdsLock (i : Fin n) : HostPc n → Bool
  | .setFun k | .setCtx k | .setUnlock k => k = i
  | _ => false

/-- The thread comes to the task at the index, unless another takes it first. -/
def Sched.TakesNext (s : Sched n F C) : Option (Fin n) → Prop
  | none => s.pc.takesNext s.idx = true
  | some i => (s.worker i).pc.takesNext s.idx = true

/-- The invariant of the runs whose exchanges fail only on different values: that of the scheduler;
a lock is held by a thread that gives it back by itself; and in a round with tasks left some
thread comes to the next one. -/
structure LiveInv (length : ℕ) (s : Sched n F C) : Prop where
  sched : SchedInv length s
  expects : ExpectsInv length s
  succeeds : NeverFails s
  lock : ∀ i, (s.worker i).lock = true →
    (s.worker i).pc.holdsLock = true ∨ s.pc.holdsLock i = true
  next : s.pc.inRound = true → s.idx < length → ∃ t, s.TakesNext t

lemma takesNext_sendFrom (idx k : ℕ) : (sendFrom k : HostPc n).takesNext idx = true := by
  rw [sendFrom]
  split <;> rfl

lemma inRound_sendFrom (k : ℕ) : (sendFrom k : HostPc n).inRound = true := by
  rw [sendFrom]
  split <;> rfl

/-- A call of `rsched_host_yield` goes on until it has returned. -/
lemma schedStep_stays {a : SchedAction n F C} (ha : a.thread.isSome = true)
    (h : schedStep length s a = some s') (hround : s.pc.inRound = true) :
    s'.pc.inRound = true ∨ s'.pc = .returned false := by
  cases a with
  | worker i spurious =>
      obtain ⟨idx, w, ev, -, rfl⟩ := schedStep_worker_inv h
      exact Or.inl (by rwa [record_pc])
  | host spurious =>
      rw [schedStep, hostStep] at h
      cases hpc : s.pc <;> rw [hpc] at hround <;>
        simp only [hpc, Option.some.injEq, reduceCtorEq] at h
      case setLock k => cases hround
      all_goals subst h
      case waitSignal caller k =>
        cases caller with
        | create => cases hround
        | yield => exact Or.inl (by dsimp only; split_ifs <;> rfl)
      case waitState caller k =>
        cases caller with
        | create => cases hround
        | yield =>
            cases hst : (s.worker k).state with
            | waiting => exact Or.inl ((inRound_waitFrom .yield _).mpr rfl)
            | down => exact Or.inr rfl
            | _ => exact Or.inl rfl
      case send k esig =>
        refine Or.inl ?_
        dsimp only
        cases ((s.worker k).sendExchange .start esig spurious).2 with
        | none => exact inRound_sendFrom _
        | some esig => rfl
      case pop pc =>
        refine Or.inl ?_
        rw [record_pc]
        dsimp only
        cases (rschedQueuePop length spurious s.idx pc).2 with
        | next pc => rfl
        | ret task =>
            cases task with
            | none => exact (inRound_waitFrom .yield 0).mpr rfl
            | some task => rfl
      case call task | procFun task => exact Or.inl rfl
      all_goals cases hround
  | _ => cases ha

/-- A parked worker does not hold its lock. -/
lemma Worker.Parked.not_holdsLock {w : Worker F C} (h : w.Parked) : w.pc.holdsLock = false := by
  rw [Worker.Parked] at h
  cases hpc : w.pc <;> simp only [hpc] at h <;> rfl

/-- An exchange leaves the lock alone. -/
@[simp] lemma Worker.sendExchange_lock {w : Worker F C} {sig esig : Signal} {spurious : Bool} :
    (w.sendExchange sig esig spurious).1.lock = w.lock := by
  rw [Worker.sendExchange]
  split_ifs <;> rfl

/-- What the host does to the locks. -/
lemma hostStep_lock {spurious : Bool}
    (hinv : ∀ i, (s.worker i).lock = true →
      (s.worker i).pc.holdsLock = true ∨ s.pc.holdsLock i = true)
    (h : hostStep length spurious s = some s') (i : Fin n) (hlock : (s'.worker i).lock = true) :
    (s'.worker i).pc.holdsLock = true ∨ s'.pc.holdsLock i = true := by
  -- a lock that the host leaves alone and does not hold is held by its worker
  have hworker : s.pc.holdsLock i = false → (s'.worker i).lock = (s.worker i).lock →
      (s'.worker i).pc.holdsLock = true := fun hfree heq => by
    rw [hostStep_worker_pc h i]
    exact (hinv i (heq ▸ hlock)).resolve_right (by simp [hfree])
  rw [hostStep] at h
  cases hpc : s.pc <;> simp only [hpc, Option.some.injEq, reduceCtorEq] at h
  case setLock k =>
    split_ifs at h
    obtain rfl := Option.some.inj h
    by_cases hi : k = i
    · exact Or.inr (by simp [HostPc.holdsLock, hi])
    · refine Or.inl (hworker (by rw [hpc]; rfl) ?_)
      simp [Sched.setWorker, Function.update_of_ne (Ne.symm hi)]
  case setUnlock k =>
    subst h
    by_cases hi : k = i
    · subst hi
      simp [Sched.setWorker] at hlock
    · refine Or.inl (hworker (by simp [hpc, HostPc.holdsLock, hi]) ?_)
      simp [Sched.setWorker, Function.update_of_ne (Ne.symm hi)]
  case send k esig =>
    subst h
    refine Or.inl (hworker (by rw [hpc]; rfl) ?_)
    by_cases hi : k = i
    · subst hi
      simp [Sched.setWorker]
    · simp [Sched.setWorker, Function.update_of_ne (Ne.symm hi)]
  case pop pc =>
    subst h
    exact Or.inl (hworker (by rw [hpc]; rfl) (by rw [record_worker]))
  case setFun k | setCtx k =>
    subst h
    by_cases hi : k = i
    · exact Or.inr (by simp [HostPc.holdsLock, hi])
    · refine Or.inl (hworker (by simp [hpc, HostPc.holdsLock, hi]) ?_)
      simp [Sched.setWorker, Function.update_of_ne (Ne.symm hi)]
  all_goals
    subst h
    exact Or.inl (hworker (by rw [hpc]; rfl) rfl)

/-- Behind its task loop the host has exhausted the queue. -/
lemma LiveInv.exhausted (hinv : LiveInv length s) (hround : s.pc.inRound = true)
    (hdone : s.pc.popsDone = true) : length ≤ s.idx :=
  (hinv.sched.round hround).exhausted hdone

/-- A step of the host keeps some thread on its way to the next task. -/
lemma hostStep_next (hinv : LiveInv length s) (h : hostStep length false s = some s')
    (hround' : s'.pc.inRound = true) (hlt : s'.idx < length) : ∃ t, s'.TakesNext t := by
  have hround := hostStep_inRound h hround'
  rw [hostStep] at h
  cases hpc : s.pc <;> simp only [hpc, Option.some.injEq, reduceCtorEq] at h
  case pop pc =>
    subst h
    rw [record_idx] at hlt
    obtain ⟨-, -, heq⟩ | ⟨hle, heq⟩ | ⟨-, -, heq⟩ | ⟨-, ⟨cur, rfl, hcur⟩, heq⟩ :=
      rschedQueuePop_cases length false s.idx pc
    · exact ⟨none, by simp [Sched.TakesNext, heq, hostPopHandle, HostPc.takesNext]⟩
    · rw [heq] at hlt
      exact absurd hlt (not_lt.mpr hle)
    · exact ⟨none, by simp [Sched.TakesNext, heq, hostPopHandle, HostPc.takesNext]⟩
    · -- the exchange fails: the thread that comes to the next task is a worker
      rw [heq] at hlt ⊢
      obtain ⟨t, ht⟩ := hinv.next hround hlt
      cases t with
      | none =>
          rw [Sched.TakesNext, hpc] at ht
          simp only [HostPc.takesNext, decide_eq_true_eq] at ht
          exact absurd (hcur ht) Bool.false_ne_true
      | some i => exact ⟨some i, by rwa [Sched.TakesNext, record_worker, record_idx]⟩
  case waitSignal caller k =>
    subst h
    cases caller with
    | create =>
        rw [hpc] at hround
        cases hround
    | yield => exact absurd hlt (not_lt.mpr (hinv.exhausted hround (by rw [hpc]; rfl)))
  case waitState caller k =>
    subst h
    cases caller with
    | create =>
        rw [hpc] at hround
        cases hround
    | yield => exact absurd hlt (not_lt.mpr (hinv.exhausted hround (by rw [hpc]; rfl)))
  case send k esig =>
    subst h
    refine ⟨none, ?_⟩
    rw [Sched.TakesNext]
    generalize ((s.worker k).sendExchange .start esig false).2 = esig'
    cases esig' with
    | none => exact takesNext_sendFrom _ _
    | some esig' => rfl
  case call task =>
    subst h
    exact ⟨none, rfl⟩
  case procFun task =>
    subst h
    exact ⟨none, rfl⟩
  all_goals
    -- outside of the round
    rw [hpc] at hround
    cases hround

/-- A step of a worker keeps some thread on its way to the next task. -/
lemma workerStep_next {i : Fin n} {idx : ℕ} {w : Worker F C} {ev : WorkerEvent}
    (hinv : LiveInv length s) (hround : s.pc.inRound = true) (hlt : idx < length)
    (h : workerStep length false s.idx (s.worker i) = some (idx, w, ev)) :
    ∃ t, ({ s.setWorker i w with idx := idx }).TakesNext t := by
  have hat := hinv.sched.barrier.at_level i
  by_cases hidx : idx = s.idx
  · subst hidx
    obtain ⟨t, ht⟩ := hinv.next hround hlt
    refine ⟨t, ?_⟩
    cases t with
    | none => exact ht
    | some j =>
        by_cases hj : j = i
        · subst hj
          simpa [Sched.TakesNext, Sched.setWorker] using
            workerStep_takesNext hat hlt h (Or.inl ht)
        · simpa [Sched.TakesNext, Sched.setWorker, Function.update_of_ne hj] using ht
  · exact ⟨some i, by
      simpa [Sched.TakesNext, Sched.setWorker] using workerStep_takesNext hat hlt h (Or.inr hidx)⟩

/-- A step whose exchanges fail only on different values keeps the invariant. -/
lemma step_liveInv (hL : FitsIndex n length) {a : SchedAction n F C} (hinv : LiveInv length s)
    (hstrong : a.Strong) (h : schedStep length s a = some s') : LiveInv length s' := by
  have hsched := step_schedInv hinv.sched (hinv.expects.noWrap hL a) h
  have hexp := step_expectsInv hinv.expects h
  have hfails := step_neverFails hinv.sched.barrier hinv.succeeds h
  -- between the calls of the host no lock is held
  have hfree : s.pc.between = true → ∀ i, (s.worker i).lock = false := by
    intro hpc i
    have hparked := (hinv.sched.barrier.of_between hpc i).1.not_holdsLock
    have hhost : s.pc.holdsLock i = false := by
      cases hs : s.pc <;> rw [hs] at hpc <;> first | rfl | cases hpc
    refine Bool.eq_false_of_not_eq_true fun hlock => ?_
    simpa [hparked, hhost] using hinv.lock i hlock
  cases a with
  | worker i spurious =>
      obtain rfl : spurious = false := hstrong
      obtain ⟨idx, w, ev, hw, rfl⟩ := schedStep_worker_inv h
      refine ⟨hsched, hexp, hfails, ?_, fun hround hlt => ?_⟩
      · rw [record_worker, record_pc]
        refine (Function.forall_update_iff s.worker fun j w =>
          w.lock = true → w.pc.holdsLock = true ∨ s.pc.holdsLock j = true).mpr
            ⟨fun hlock => ?_, fun j _ => hinv.lock j⟩
        refine (workerStep_lock hw hlock).imp_right fun ⟨hheld, hnot⟩ => ?_
        exact (hinv.lock i hheld).resolve_left (by simp [hnot])
      · rw [record_pc] at hround
        rw [record_idx] at hlt
        obtain ⟨t, ht⟩ := workerStep_next hinv hround hlt hw
        refine ⟨t, ?_⟩
        cases t with
        | none => rwa [Sched.TakesNext, record_pc, record_idx]
        | some j => rwa [Sched.TakesNext, record_worker, record_idx]
  | host spurious =>
      obtain rfl : spurious = false := hstrong
      exact ⟨hsched, hexp, hfails, hostStep_lock hinv.lock h, hostStep_next hinv h⟩
  | setUserContext userFun userCtx =>
      obtain ⟨hpc, rfl⟩ := schedStep_setUserContext_inv h
      refine ⟨hsched, hexp, hfails, fun i hlock => ?_, fun hround => ?_⟩
      · simp [hfree hpc i] at hlock
      · cases (inRound_setFrom 0).symm.trans hround
  | hostYield =>
      obtain ⟨hpc, -, pc, rfl, hpc'⟩ := schedStep_hostYield_inv h
      refine ⟨hsched, hexp, hfails, fun i hlock => ?_, fun hround _ => ⟨none, ?_⟩⟩
      · simp [hfree hpc i] at hlock
      · rcases hpc' with rfl | ⟨-, rfl⟩
        · cases hround
        · exact takesNext_sendFrom _ _
  | requeue =>
      obtain ⟨hpc, rfl⟩ := schedStep_requeue_inv h
      refine ⟨hsched, hexp, hfails, fun i hlock => ?_, fun hround => ?_⟩
      · simp [hfree hpc i] at hlock
      · cases hround

lemma liveInv_init : LiveInv length (schedInit n F C) where
  sched := ⟨barrierInv_init, fun h => by cases (inRound_waitFrom .create 0).mp h⟩
  expects := ⟨fun _ _ => nofun, fun _ hcur => absurd hcur waitFrom_ne_pop,
    fun _ hcur => absurd hcur waitFrom_ne_pop⟩
  succeeds := by
    obtain ⟨hfailed, hreturned⟩ := waitFrom_not_failed (n := n) .create 0
    exact neverFails_of_ne hfailed hreturned
  lock := fun i hlock => by cases hlock
  next := fun hround => by cases (inRound_waitFrom .create 0).mp hround

end Host

end Mdb
