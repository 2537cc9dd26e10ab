import Mdb.Sched.RoundProgress

/-!
The lifetime of a scheduler: after its calls the host shuts it down (`rsched_shutdown`), while the
workers that have been waiting since the last round are told to quit.

`rsched_send_worker_sig` keeps what a failed exchange has left in `esig`. So a `QUIT` may replace
the `LOCKED` of a worker that is polling, and the unlock of that worker erases it.

* `rsched_shutdown_ends`: a shutdown takes no task and calls nothing, and leaves no worker running;
  it can be completed exactly as long as no `QUIT` has been erased, and one may be.
-/

namespace Mdb

/-- Where the host stands with `rsched_shutdown`: not inside; before an access or a call of
`rsched_worker_destroy`; inside `pthread_join`; and behind it, the queue and the scheduler freed. -/
inductive ShutdownPc (n : ℕ) where
  | off
  | loadSignal (i : Fin n)
  | loadState (i : Fin n)
  | send (i : Fin n) (esig : Signal)
  | joining (i : Fin n)
  | ended
  deriving DecidableEq

/-- A scheduler, and its shutdown. -/
structure Lifetime (n : ℕ) (F C : Type*) where
  sched : Sched n F C
  shutdown : ShutdownPc n

/-- A step of the scheduler; the call of `rsched_shutdown`; and a step of the host inside it. -/
inductive LifetimeAction (n : ℕ) (F C : Type*) where
  | sched (a : SchedAction n F C)
  | shutdown
  | destroy (spurious : Bool)

section Steps

variable {n : ℕ} {F C : Type*}

/-- `rsched_destroy_workers` from the worker `i` on. -/
def destroyWorkersFrom (i : ℕ) : ShutdownPc n := if h : i < n then .loadSignal ⟨i, h⟩ else .ended

/-- A step of `rsched_worker_destroy`. There is none inside `pthread_join` while the thread runs. -/
def rschedWorkerDestroy (spurious : Bool) (s : Lifetime n F C) : Option (Lifetime n F C) :=
  match s.shutdown with
  | .loadSignal i =>
      some { s with
        shutdown := if (s.sched.worker i).signal = .none then .loadState i else .loadSignal i }
  | .loadState i =>
      some { s with
        shutdown := if (s.sched.worker i).state = .down then .joining i else .send i .none }
  | .send i esig =>
      match (s.sched.worker i).sendExchange .quit esig spurious with
      | (w, none) => some ⟨s.sched.setWorker i w, .joining i⟩
      | (w, some esig) => some ⟨s.sched.setWorker i w, .send i esig⟩
  | .joining i =>
      if (s.sched.worker i).pc = .done then some { s with shutdown := destroyWorkersFrom (i + 1) }
      else none
  | .off | .ended => none

/-- The step is one of a worker. -/
def SchedAction.ofWorker : SchedAction n F C → Bool
  | .worker _ _ => true
  | _ => false

/-- A step in the lifetime of a scheduler. The host calls `rsched_shutdown` between its other calls,
and is back in none of them. -/
def lifetimeStep (length : ℕ) (s : Lifetime n F C) :
    LifetimeAction n F C → Option (Lifetime n F C)
  | .sched a =>
      if s.shutdown = .off ∨ a.ofWorker = true then
        (schedStep length s.sched a).map fun sched => { s with sched := sched }
      else none
  | .shutdown =>
      if s.shutdown = .off ∧ s.sched.pc.between = true then
        some { s with shutdown := destroyWorkersFrom 0 }
      else none
  | .destroy spurious => rschedWorkerDestroy spurious s

/-- The lifetime of a scheduler as a step system. -/
def lifetimeSystem (n : ℕ) (F C : Type*) (length : ℕ) :
    StepSystem (Lifetime n F C) (LifetimeAction n F C) := ⟨lifetimeStep length⟩

/-- `rsched_create` waits for the workers it has created. -/
def lifetimeInit (n : ℕ) (F C : Type*) : Lifetime n F C := ⟨schedInit n F C, .off⟩

/-- The exchanges of the step fail only on different values. -/
def LifetimeAction.Strong : LifetimeAction n F C → Prop
  | .sched a => a.Strong
  | .shutdown => True
  | .destroy spurious => spurious = false

/-! ### Workers that quit -/

/-- A worker that is about to receive `QUIT`, or has done so. -/
def Worker.Hears (w : Worker F C) : Prop :=
  match w.pc with
  | .yieldReceive => w.signal = .quit
  | .exitSetDown => True
  | .exitSigUnlock | .done => w.state = .down
  | _ => False

/-- A worker that goes on waiting, its `QUIT` erased or about to be. -/
def Worker.Deaf (w : Worker F C) : Prop := w.Parked ∨ w.pc = .yieldUnlock ∧ w.signal = .quit ∧
  w.state = .waiting

/-- A worker whose thread has ended. -/
def Worker.Ended (w : Worker F C) : Prop := w.pc = .done ∧ w.state = .down

/-- What the host may expect of a worker, by the place of the shutdown. -/
def ShutdownPc.At (pc : ShutdownPc n) (i : Fin n) (w : Worker F C) : Prop :=
  match pc with
  | .off => True
  | .loadSignal k | .loadState k | .send k _ => if i < k then w.Ended else w.Parked
  | .joining k => if i < k then w.Ended else if i = k then w.Hears ∨ w.Deaf else w.Parked
  | .ended => w.Ended

/-- The worker is apart from the tasks: its next step takes none and calls nothing. -/
def WorkerPc.apart : WorkerPc → Bool
  | .yieldReceive | .yieldUnlock | .exitSetDown | .exitSigUnlock | .done => true
  | _ => false

variable {length idx idx' : ℕ} {spurious : Bool} {w w' : Worker F C} {ev : WorkerEvent}

lemma Worker.Parked.apart (h : w.Parked) : w.pc.apart = true := by
  rw [Worker.Parked] at h
  cases hpc : w.pc <;> simp only [hpc] at h <;> rfl

lemma Worker.Hears.apart (h : w.Hears) : w.pc.apart = true := by
  rw [Worker.Hears] at h
  cases hpc : w.pc <;> simp only [hpc] at h <;> rfl

lemma Worker.Deaf.apart (h : w.Deaf) : w.pc.apart = true := by
  rcases h with h | ⟨hpc, -⟩
  · exact h.apart
  · rw [hpc]
    rfl

lemma ShutdownPc.At.apart {pc : ShutdownPc n} {i : Fin n} (h : pc.At i w) (hpc : pc ≠ .off) :
    w.pc.apart = true := by
  have hended : w.Ended → w.pc.apart = true := fun h => by rw [h.1]; rfl
  cases pc with
  | off => exact absurd rfl hpc
  | loadSignal k | loadState k | send k _ =>
      rw [ShutdownPc.At] at h
      split_ifs at h
      · exact hended h
      · exact h.apart
  | joining k =>
      rw [ShutdownPc.At] at h
      split_ifs at h
      · exact hended h
      · exact h.elim (·.apart) (·.apart)
      · exact h.apart
  | ended => exact hended h

/-- A step of a worker that is apart from the tasks. -/
lemma workerStep_apart (hw : w.pc.apart = true)
    (h : workerStep length spurious idx w = some (idx', w', ev)) :
    idx' = idx ∧ ∀ (s : Sched n F C) t f c, s.record t f c ev = s := by
  rw [workerStep] at h
  cases hpc : w.pc <;> simp only [hpc, WorkerPc.apart, Bool.false_eq_true] at hw <;>
    simp only [hpc, Option.some.injEq, Prod.mk.injEq, reduceCtorEq] at h
  all_goals
    obtain ⟨rfl, -, rfl⟩ := h
    exact ⟨rfl, fun s t f c => rfl⟩

/-- A worker that hears its `QUIT` goes on to the end of its thread. -/
lemma workerStep_hears (hw : w.Hears)
    (h : workerStep length spurious idx w = some (idx', w', ev)) : w'.Hears := by
  rw [workerStep] at h
  rw [Worker.Hears] at hw
  cases hpc : w.pc <;> simp only [hpc] at hw
  all_goals simp only [hpc, Option.some.injEq, Prod.mk.injEq, reduceCtorEq] at h
  case yieldReceive =>
    obtain ⟨-, rfl, -⟩ := h
    rw [hw]
    trivial
  case exitSetDown =>
    obtain ⟨-, rfl, -⟩ := h
    exact rfl
  case exitSigUnlock =>
    obtain ⟨-, rfl, -⟩ := h
    exact hw

/-- A deaf worker goes on polling. -/
lemma workerStep_deaf (hw : w.Deaf)
    (h : workerStep length spurious idx w = some (idx', w', ev)) : w'.Deaf := by
  rcases hw with hw | ⟨hpc, hsig, hst⟩
  · exact Or.inl (workerStep_parked hw h)
  · -- the unlock erases the signal
    simp only [workerStep, hpc, Option.some.injEq, Prod.mk.injEq] at h
    obtain ⟨-, rfl, -⟩ := h
    exact Or.inl ⟨rfl, hst⟩

lemma workerStep_ended (hw : w.Ended)
    (h : workerStep length spurious idx w = some (idx', w', ev)) : w'.Ended := by
  rw [workerStep, hw.1] at h
  cases h

lemma ShutdownPc.At.step {pc : ShutdownPc n} {i : Fin n} (hat : pc.At i w)
    (h : workerStep length spurious idx w = some (idx', w', ev)) : pc.At i w' := by
  cases pc with
  | off => trivial
  | loadSignal k | loadState k | send k _ =>
      rw [ShutdownPc.At] at hat ⊢
      split_ifs at hat ⊢
      · exact workerStep_ended hat h
      · exact workerStep_parked hat h
  | joining k =>
      rw [ShutdownPc.At] at hat ⊢
      split_ifs at hat ⊢
      · exact workerStep_ended hat h
      · exact hat.imp (workerStep_hears · h) (workerStep_deaf · h)
      · exact workerStep_parked hat h
  | ended => exact workerStep_ended hat h

/-! ### The invariant -/

variable {s s' t : Lifetime n F C}

/-- Before the shutdown the barrier holds, and from then on every worker is where the host may
expect it. -/
structure LifetimeInv (s : Lifetime n F C) : Prop where
  barrier : s.shutdown = .off → BarrierInv s.sched
  worker : ∀ i, s.shutdown.At i (s.sched.worker i)

/-- The tasks have not been touched. -/
def SameTasks (s t : Sched n F C) : Prop :=
  t.pc = s.pc ∧ t.idx = s.idx ∧ t.popped = s.popped ∧ t.called = s.called ∧
    t.finished = s.finished

lemma SameTasks.refl (s : Sched n F C) : SameTasks s s := ⟨rfl, rfl, rfl, rfl, rfl⟩

lemma SameTasks.setWorker (s : Sched n F C) (i : Fin n) (w : Worker F C) :
    SameTasks s (s.setWorker i w) := ⟨rfl, rfl, rfl, rfl, rfl⟩

lemma SameTasks.trans {s t u : Sched n F C} (h : SameTasks s t) (h' : SameTasks t u) :
    SameTasks s u :=
  ⟨h'.1.trans h.1, h'.2.1.trans h.2.1, h'.2.2.1.trans h.2.2.1, h'.2.2.2.1.trans h.2.2.2.1,
    h'.2.2.2.2.trans h.2.2.2.2⟩

lemma destroyWorkersFrom_ne_off (k : ℕ) : (destroyWorkersFrom k : ShutdownPc n) ≠ .off := by
  rw [destroyWorkersFrom]
  split <;> simp

/-- The host goes on to the next worker. -/
lemma at_destroyWorkersFrom {k : ℕ} {worker : Fin n → Worker F C}
    (hended : ∀ i : Fin n, (i : ℕ) < k → (worker i).Ended)
    (hparked : ∀ i : Fin n, k ≤ i → (worker i).Parked) (i : Fin n) :
    (destroyWorkersFrom k).At i (worker i) := by
  rw [destroyWorkersFrom]
  split_ifs with hk
  · rw [ShutdownPc.At]
    split_ifs with hi
    · exact hended i hi
    · exact hparked i (not_lt.mp hi)
  · exact hended i (by omega)

/-- A worker that the host has told to quit. -/
lemma Worker.Parked.told (h : w.Parked) : ({ w with signal := .quit }).Hears ∨
    ({ w with signal := .quit }).Deaf := by
  rw [Worker.Parked] at h
  cases hpc : w.pc <;> simp only [hpc] at h
  · exact Or.inl (by simp [Worker.Hears])
  · exact Or.inr (Or.inr ⟨rfl, rfl, h.2⟩)

/-- A step of the host keeps every worker where the host may expect it. -/
lemma destroy_worker (hs : ∀ i, s.shutdown.At i (s.sched.worker i))
    (h : rschedWorkerDestroy spurious s = some s') :
    s'.shutdown ≠ .off ∧ SameTasks s.sched s'.sched ∧
      ∀ i, s'.shutdown.At i (s'.sched.worker i) := by
  rw [rschedWorkerDestroy] at h
  cases hpc : s.shutdown <;> rw [hpc] at hs <;>
    simp only [hpc, Option.some.injEq, reduceCtorEq] at h
  case loadSignal k =>
    subst h
    by_cases hsig : (s.sched.worker k).signal = .none
    · rw [if_pos hsig]
      exact ⟨by simp, .refl _, hs⟩
    · rw [if_neg hsig]
      exact ⟨by simp, .refl _, hs⟩
  case loadState k =>
    subst h
    have hk : (s.sched.worker k).Parked := by simpa [ShutdownPc.At] using hs k
    rw [if_neg (by simp [hk.state_eq])]
    exact ⟨by simp, .refl _, hs⟩
  case send k esig =>
    have hk : (s.sched.worker k).Parked := by simpa [ShutdownPc.At] using hs k
    by_cases hok : (s.sched.worker k).signal = esig ∧ spurious = false
    · rw [Worker.sendExchange_of_eq hok] at h
      obtain rfl := Option.some.inj h
      refine ⟨by simp, .setWorker _ _ _, fun i => ?_⟩
      have hi := hs i
      simp only [ShutdownPc.At] at hi ⊢
      by_cases hik : i = k
      · subst hik
        simpa [Sched.setWorker] using hk.told
      · simpa [Sched.setWorker, Function.update_of_ne hik, hik] using hi
    · rw [Worker.sendExchange_of_ne hok] at h
      obtain rfl := Option.some.inj h
      refine ⟨by simp, .setWorker _ _ _, fun i => ?_⟩
      simpa [Sched.setWorker, ShutdownPc.At] using hs i
  case joining k =>
    split_ifs at h with hdone
    obtain rfl := Option.some.inj h
    refine ⟨destroyWorkersFrom_ne_off _, .refl _,
      at_destroyWorkersFrom (fun i hi => ?_) fun i hi => ?_⟩
    · have hat := hs i
      rw [ShutdownPc.At] at hat
      split_ifs at hat with hlt heq
      · exact hat
      · subst heq
        rcases hat with hat | hat
        · rw [Worker.Hears] at hat
          simp only [hdone] at hat
          exact ⟨hdone, hat⟩
        · rcases hat with hat | hat
          · rw [Worker.Parked] at hat
            simp only [hdone] at hat
          · exact absurd (hat.1.symm.trans hdone) (by simp)
      · exact absurd (Fin.ext (by omega : (i : ℕ) = k)) heq
    · have hat := hs i
      rwa [ShutdownPc.At, if_neg (by rw [Fin.lt_def]; omega), if_neg (by rintro rfl; omega)] at hat

/-- Inside the shutdown only workers and the host inside it take steps, which touch no task. -/
lemma step_shutdown (hs : ∀ i, s.shutdown.At i (s.sched.worker i)) (hoff : s.shutdown ≠ .off)
    {a : LifetimeAction n F C} (h : lifetimeStep length s a = some s') :
    s'.shutdown ≠ .off ∧ SameTasks s.sched s'.sched ∧
      ∀ i, s'.shutdown.At i (s'.sched.worker i) := by
  cases a with
  | sched a =>
      rw [lifetimeStep] at h
      split_ifs at h with ha
      obtain ⟨sched, hsched, rfl⟩ := Option.map_eq_some_iff.mp h
      have hworker := ha.resolve_left hoff
      cases a with
      | worker i spurious =>
          obtain ⟨idx, w, ev, hw, rfl⟩ := schedStep_worker_inv hsched
          obtain ⟨rfl, hrecord⟩ := workerStep_apart (n := n) ((hs i).apart hoff) hw
          rw [hrecord]
          refine ⟨hoff, .setWorker _ _ _, fun j => ?_⟩
          by_cases hj : j = i
          · subst hj
            simpa [Sched.setWorker] using (hs j).step hw
          · simpa [Sched.setWorker, Function.update_of_ne hj] using hs j
      | _ => cases hworker
  | shutdown =>
      rw [lifetimeStep] at h
      split_ifs at h with hready
      exact absurd hready.1 hoff
  | destroy spurious => exact destroy_worker hs h

/-- The shutdown begins with all workers waiting. -/
lemma at_begin (hbar : BarrierInv s.sched) (hpc : s.sched.pc.between = true) (i : Fin n) :
    (destroyWorkersFrom 0).At i (s.sched.worker i) :=
  at_destroyWorkersFrom (fun _ hi => absurd hi (Nat.not_lt_zero _))
    (fun j _ => (hbar.of_between hpc j).1) i

/-- A step keeps the invariant. -/
lemma step_lifetimeInv (hinv : LifetimeInv s) {a : LifetimeAction n F C}
    (h : lifetimeStep length s a = some s') : LifetimeInv s' := by
  by_cases hoff : s.shutdown = .off
  · cases a with
    | sched a =>
        rw [lifetimeStep, if_pos (Or.inl hoff)] at h
        obtain ⟨sched, hsched, rfl⟩ := Option.map_eq_some_iff.mp h
        refine ⟨fun _ => step_barrierInv (hinv.barrier hoff) hsched, fun i => ?_⟩
        dsimp only
        rw [hoff]
        trivial
    | shutdown =>
        rw [lifetimeStep] at h
        split_ifs at h with hready
        obtain rfl := Option.some.inj h
        exact ⟨fun h => absurd h (destroyWorkersFrom_ne_off 0),
          at_begin (hinv.barrier hoff) hready.2⟩
    | destroy spurious =>
        rw [lifetimeStep, rschedWorkerDestroy, hoff] at h
        cases h
  · obtain ⟨hoff', -, hat⟩ := step_shutdown hinv.worker hoff h
    exact ⟨fun h => absurd h hoff', hat⟩

lemma lifetimeInv_init : LifetimeInv (lifetimeInit n F C) :=
  ⟨fun _ => barrierInv_init, fun _ => trivial⟩

/-- The invariant holds after every run. -/
lemma run_lifetimeInv {as : List (LifetimeAction n F C)}
    (hrun : (lifetimeSystem n F C length).run (lifetimeInit n F C) as = some s) :
    LifetimeInv s :=
  (lifetimeSystem n F C length).run_induct (fun _ _ _ hinv hstep => step_lifetimeInv hinv hstep)
    lifetimeInv_init hrun

/-- A shutdown touches no task, and leaves every worker where the host may expect it. -/
lemma run_shutdown {as : List (LifetimeAction n F C)}
    (hs : ∀ i, s.shutdown.At i (s.sched.worker i)) (hoff : s.shutdown ≠ .off)
    (hrun : (lifetimeSystem n F C length).run s as = some t) :
    t.shutdown ≠ .off ∧ SameTasks s.sched t.sched ∧
      ∀ i, t.shutdown.At i (t.sched.worker i) := by
  refine (lifetimeSystem n F C length).run_induct (P := fun t => t.shutdown ≠ .off ∧
    SameTasks s.sched t.sched ∧ ∀ i, t.shutdown.At i (t.sched.worker i))
      (fun u a u' ⟨hoff, hsame, hat⟩ hstep => ?_) ⟨hoff, .refl _, hs⟩ hrun
  obtain ⟨hoff', hsame', hat'⟩ := step_shutdown hat hoff hstep
  exact ⟨hoff', hsame.trans hsame', hat'⟩

/-! ### Whether the shutdown ends -/

/-- The host joins a deaf worker. -/
def JoinsDeaf (k : Fin n) (s : Lifetime n F C) : Prop :=
  s.shutdown = .joining k ∧ (s.sched.worker k).Deaf

/-- It does so for ever. -/
lemma step_joinsDeaf {k : Fin n} (hs : JoinsDeaf k s) {a : LifetimeAction n F C}
    (h : lifetimeStep length s a = some s') : JoinsDeaf k s' := by
  obtain ⟨hpc, hdeaf⟩ := hs
  cases a with
  | sched a =>
      rw [lifetimeStep] at h
      split_ifs at h with ha
      obtain ⟨sched, hsched, rfl⟩ := Option.map_eq_some_iff.mp h
      refine ⟨hpc, ?_⟩
      cases a with
      | worker i spurious =>
          obtain ⟨idx, w, ev, hw, rfl⟩ := schedStep_worker_inv hsched
          dsimp only
          rw [record_worker]
          by_cases hi : k = i
          · subst hi
            simpa [Sched.setWorker] using workerStep_deaf hdeaf hw
          · simpa [Sched.setWorker, Function.update_of_ne hi] using hdeaf
      | _ => exact absurd ha (by simp [hpc, SchedAction.ofWorker])
  | shutdown =>
      rw [lifetimeStep] at h
      split_ifs at h with hready
      exact absurd hready.1 (by simp [hpc])
  | destroy spurious =>
      rw [lifetimeStep, rschedWorkerDestroy, hpc] at h
      simp only at h
      split_ifs at h with hdone
      rcases hdeaf with hdeaf | hdeaf
      · rw [Worker.Parked, hdone] at hdeaf
        exact hdeaf.elim
      · exact absurd (hdeaf.1.symm.trans hdone) (by simp)

lemma run_joinsDeaf {k : Fin n} (hs : JoinsDeaf k s) {as : List (LifetimeAction n F C)}
    (hrun : (lifetimeSystem n F C length).run s as = some t) : JoinsDeaf k t :=
  (lifetimeSystem n F C length).run_induct (P := JoinsDeaf k)
    (fun _ _ _ hs hstep => step_joinsDeaf hs hstep) hs hrun

/-- The host is inside the shutdown, with every worker where it may expect it. -/
def ShuttingDown (s : Lifetime n F C) : Prop :=
  s.shutdown ≠ .off ∧ ∀ i, s.shutdown.At i (s.sched.worker i)

lemma step_shuttingDown (hs : ShuttingDown s) {a : LifetimeAction n F C}
    (h : lifetimeStep length s a = some s') : ShuttingDown s' :=
  ⟨(step_shutdown hs.2 hs.1 h).1, (step_shutdown hs.2 hs.1 h).2.2⟩

/-- A step of a worker inside the lifetime. -/
lemma lifetimeStep_worker {k : Fin n}
    (hw : workerStep length spurious s.sched.idx (s.sched.worker k) = some (idx', w', ev)) :
    ∃ s', lifetimeStep length s (.sched (.worker k spurious)) = some s' ∧
      s'.shutdown = s.shutdown ∧ s'.sched.worker k = w' := by
  have hof : (SchedAction.worker k spurious : SchedAction n F C).ofWorker = true := rfl
  have hst : lifetimeStep length s (.sched (.worker k spurious)) = some
      ⟨({ s.sched.setWorker k w' with idx := idx' }).record (some k) w'.procFun w'.procCtx ev,
        s.shutdown⟩ := by
    rw [lifetimeStep, if_pos (Or.inr hof), schedStep_worker_of hw]
    rfl
  exact ⟨_, hst, rfl, by simp [Sched.setWorker]⟩

/-- A parked worker comes to poll an empty signal word. -/
lemma reaches_poll {k : Fin n} (hs : ShuttingDown s) (hk : (s.sched.worker k).Parked) :
    (lifetimeSystem n F C length).Reaches LifetimeAction.Strong
      (fun t => ShuttingDown t ∧ t.shutdown = s.shutdown ∧
        (t.sched.worker k).pc = .yieldReceive ∧ (t.sched.worker k).signal = .none) s := by
  have hparked := hk
  rw [Worker.Parked] at hparked
  cases hpc : (s.sched.worker k).pc <;> simp only [hpc] at hparked
  · exact .refl ⟨hs, rfl, hpc, hparked.1⟩
  · have hw : workerStep length false s.sched.idx (s.sched.worker k)
        = some (s.sched.idx, (s.sched.worker k).sigUnlock .yieldReceive) := by
      rw [workerStep, hpc]
    obtain ⟨s', hst, hshutdown, hw'⟩ := lifetimeStep_worker hw
    exact .single (a := .sched (.worker k false)) rfl hst
      ⟨step_shuttingDown hs hst, hshutdown, by rw [hw'], by rw [hw']⟩

/-- The host has still to tell the worker to quit, and is the next one to do so. -/
def ShutdownPc.Before (k : Fin n) : ShutdownPc n → Prop
  | .loadSignal i | .loadState i | .send i _ => i = k
  | _ => False

lemma ShuttingDown.parked {k : Fin n} (hs : ShuttingDown s) (hpc : s.shutdown.Before k) :
    (s.sched.worker k).Parked := by
  have hat := hs.2 k
  cases hs : s.shutdown <;> rw [hs] at hpc hat <;> simp only [ShutdownPc.Before] at hpc
  all_goals simpa [ShutdownPc.At, hpc] using hat

/-- A worker that polls hears a `QUIT` that replaces `NONE`. -/
lemma reaches_told_of_poll {k : Fin n} (hs : ShuttingDown s) (hpc : s.shutdown = .send k .none)
    (hpoll : (s.sched.worker k).pc = .yieldReceive) (hsig : (s.sched.worker k).signal = .none) :
    (lifetimeSystem n F C length).Reaches LifetimeAction.Strong
      (fun t => ShuttingDown t ∧ t.shutdown = .joining k ∧ (t.sched.worker k).Hears) s := by
  have hst : lifetimeStep length s (.destroy false) = some
      ⟨s.sched.setWorker k { s.sched.worker k with signal := .quit }, .joining k⟩ := by
    rw [lifetimeStep, rschedWorkerDestroy, hpc]
    simp only [Worker.sendExchange_of_eq ⟨hsig, rfl⟩]
  exact .single (a := .destroy false) rfl hst
    ⟨step_shuttingDown hs hst, rfl, by simp [Sched.setWorker, Worker.Hears, hpoll]⟩

/-- The host tells a parked worker to quit: a failed exchange is tried again once the worker polls,
with `NONE` back in `esig`. -/
lemma reaches_told_of_send {k : Fin n} {esig : Signal} (hs : ShuttingDown s)
    (hpc : s.shutdown = .send k esig) :
    (lifetimeSystem n F C length).Reaches LifetimeAction.Strong
      (fun t => ShuttingDown t ∧ t.shutdown = .joining k ∧ (t.sched.worker k).Hears) s := by
  have hparked := hs.parked (k := k) (by rw [hpc]; rfl)
  refine (reaches_poll hs hparked).trans fun t ⟨ht, hpc', hpoll, hsig⟩ => ?_
  rw [hpc] at hpc'
  by_cases hesig : (t.sched.worker k).signal = esig
  · exact reaches_told_of_poll ht (by rw [hpc', ← hesig, hsig]) hpoll hsig
  · have hst : lifetimeStep length t (.destroy false) = some
        ⟨t.sched.setWorker k (t.sched.worker k), .send k (t.sched.worker k).signal⟩ := by
      rw [lifetimeStep, rschedWorkerDestroy, hpc']
      simp only [Worker.sendExchange_of_ne fun h => hesig h.1]
    refine .head (a := .destroy false) rfl hst (reaches_told_of_poll (step_shuttingDown ht hst)
      (by dsimp only; rw [hsig]) ?_ ?_)
    · simpa [Sched.setWorker] using hpoll
    · simpa [Sched.setWorker] using hsig

/-- Wherever the host stands before that, it comes to tell the worker. -/
lemma reaches_told {k : Fin n} (hs : ShuttingDown s) (hpc : s.shutdown.Before k) :
    (lifetimeSystem n F C length).Reaches LifetimeAction.Strong
      (fun t => ShuttingDown t ∧ t.shutdown = .joining k ∧ (t.sched.worker k).Hears) s := by
  have hparked := hs.parked hpc
  have hload : ∀ s : Lifetime n F C, ShuttingDown s → (s.sched.worker k).Parked →
      s.shutdown = .loadState k → (lifetimeSystem n F C length).Reaches LifetimeAction.Strong
        (fun t => ShuttingDown t ∧ t.shutdown = .joining k ∧ (t.sched.worker k).Hears) s := by
    intro s hs hparked hpc
    have hst : lifetimeStep length s (.destroy false)
        = some { s with shutdown := .send k .none } := by
      rw [lifetimeStep, rschedWorkerDestroy, hpc]
      simp only [hparked.state_eq, reduceCtorEq, if_false]
    exact .head (a := .destroy false) rfl hst
      (reaches_told_of_send (step_shuttingDown hs hst) rfl)
  cases hs' : s.shutdown <;> rw [hs'] at hpc <;> simp only [ShutdownPc.Before] at hpc <;> subst hpc
  case loadSignal k =>
    refine (reaches_poll hs hparked).trans fun t ⟨ht, hpc', _, hsig⟩ => ?_
    rw [hs'] at hpc'
    have hst : lifetimeStep length t (.destroy false)
        = some { t with shutdown := .loadState k } := by
      rw [lifetimeStep, rschedWorkerDestroy, hpc']
      simp only [hsig, if_true]
    exact .head (a := .destroy false) rfl hst
      (hload _ (step_shuttingDown ht hst) (ht.parked (by rw [hpc']; rfl)) rfl)
  case loadState k => exact hload s hs hparked hs'
  case send k esig => exact reaches_told_of_send hs hs'

/-- How many steps a worker that hears its `QUIT` is away from the end of its thread. -/
def WorkerPc.quitRank : WorkerPc → ℕ
  | .yieldReceive => 3
  | .exitSetDown => 2
  | .exitSigUnlock => 1
  | _ => 0

/-- Its thread ends. -/
lemma reaches_done {k : Fin n} (hs : ShuttingDown s) (hpc : s.shutdown = .joining k)
    (hears : (s.sched.worker k).Hears) :
    (lifetimeSystem n F C length).Reaches LifetimeAction.Strong
      (fun t => ShuttingDown t ∧ t.shutdown = .joining k ∧ (t.sched.worker k).pc = .done) s := by
  by_cases hdone : (s.sched.worker k).pc = .done
  · exact .refl ⟨hs, hpc, hdone⟩
  refine StepSystem.reaches_of_variant (P := fun i t => ShuttingDown t ∧
    t.shutdown = .joining k ∧ (t.sched.worker k).Hears ∧ (t.sched.worker k).pc ≠ .done ∧
      (t.sched.worker k).pc.quitRank = i) ?_ ⟨hs, hpc, hears, hdone, rfl⟩
  rintro i t ⟨ht, hpc, hears, hdone, rfl⟩
  obtain ⟨idx', w', ev, hw, hrank⟩ : ∃ idx' w' ev,
      workerStep length false t.sched.idx (t.sched.worker k) = some (idx', w', ev) ∧
        w'.pc.quitRank < (t.sched.worker k).pc.quitRank := by
    have hpc := hears
    rw [Worker.Hears] at hpc
    rw [workerStep]
    cases hk : (t.sched.worker k).pc <;> simp only [hk] at hpc
    case yieldReceive =>
      exact ⟨_, _, _, rfl, by simp [hpc, yieldHandle, sigHandle, WorkerPc.quitRank]⟩
    case done => exact absurd hk hdone
    all_goals exact ⟨_, _, _, rfl, by simp [WorkerPc.quitRank]⟩
  obtain ⟨t', hst, hshutdown, rfl⟩ := lifetimeStep_worker hw
  have ht' := step_shuttingDown ht hst
  refine ⟨.sched (.worker k false), t', rfl, hst, ?_⟩
  by_cases hend : (t'.sched.worker k).pc = .done
  · exact Or.inl ⟨ht', hshutdown.trans hpc, hend⟩
  · exact Or.inr ⟨_, hrank, ht', hshutdown.trans hpc, workerStep_hears hears hw, hend, rfl⟩

/-- The `QUIT` of the worker that the host joins has not been erased. -/
def Lifetime.Clear (s : Lifetime n F C) : Prop :=
  ∀ k, s.shutdown = .joining k → (s.sched.worker k).Hears

/-- How many workers are still to be destroyed. -/
def ShutdownPc.left : ShutdownPc n → ℕ
  | .off | .ended => 0
  | .loadSignal k | .loadState k | .send k _ | .joining k => n - k

/-- The shutdown can be completed as long as no `QUIT` has been erased. -/
lemma ShuttingDown.reaches_ended (hs : ShuttingDown s) (hclear : s.Clear) :
    (lifetimeSystem n F C length).Reaches LifetimeAction.Strong (fun t => t.shutdown = .ended)
      s := by
  -- the next worker is told to quit, and joined
  have hnext : ∀ (s : Lifetime n F C) k, ShuttingDown s → s.shutdown = .joining k →
      (s.sched.worker k).Hears → (lifetimeSystem n F C length).Reaches LifetimeAction.Strong
        (fun t => ShuttingDown t ∧ t.shutdown = destroyWorkersFrom (k + 1)) s := by
    intro s k hs hpc hears
    refine (reaches_done hs hpc hears).trans fun t ⟨ht, hpc', hdone⟩ => ?_
    have hst : lifetimeStep length t (.destroy false)
        = some { t with shutdown := destroyWorkersFrom (k + 1) } := by
      rw [lifetimeStep, rschedWorkerDestroy, hpc']
      simp only [hdone, if_true]
    exact .single (a := .destroy false) rfl hst ⟨step_shuttingDown ht hst, rfl⟩
  refine StepSystem.reaches_of_stages (P := fun i t => ShuttingDown t ∧ t.Clear ∧
    t.shutdown.left = i) ?_ ⟨hs, hclear, rfl⟩
  rintro i t ⟨ht, hclear, rfl⟩
  have hworker : ∀ k : Fin n, t.shutdown.left = n - k →
      (lifetimeSystem n F C length).Reaches LifetimeAction.Strong (fun u => ShuttingDown u ∧
        u.shutdown = destroyWorkersFrom (k + 1)) t →
      (lifetimeSystem n F C length).Reaches LifetimeAction.Strong (fun u => u.shutdown = .ended ∨
        ∃ j < t.shutdown.left, ShuttingDown u ∧ u.Clear ∧ u.shutdown.left = j) t := by
    intro k hleft h
    refine h.mono fun u ⟨hu, hpc⟩ => ?_
    by_cases hk : (k : ℕ) + 1 < n
    · rw [destroyWorkersFrom, dif_pos hk] at hpc
      refine Or.inr ⟨_, ?_, hu, fun j hj => ?_, rfl⟩
      · rw [hleft, hpc]
        simp only [ShutdownPc.left]
        omega
      · cases hpc.symm.trans hj
    · exact Or.inl (by rw [hpc, destroyWorkersFrom, dif_neg hk])
  cases hpc : t.shutdown with
  | off => exact absurd hpc ht.1
  | ended => exact .refl (Or.inl hpc)
  | loadSignal k | loadState k | send k _ =>
      rw [← hpc]
      refine hworker k (by rw [hpc]; rfl) ((reaches_told ht (by rw [hpc]; rfl)).trans ?_)
      exact fun u ⟨hu, hpc', hears⟩ => hnext u k hu hpc' hears
  | joining k =>
      rw [← hpc]
      exact hworker k (by rw [hpc]; rfl) (hnext t k ht hpc (hclear k hpc))

/-- **A `QUIT` is erased.** The worker polls between the exchanges of the host: the first one finds
`LOCKED` and leaves it in `esig`, and the second one replaces it. -/
lemma reaches_joinsDeaf {k : Fin n} (hs : ShuttingDown s) (hpc : s.shutdown = .loadSignal k) :
    (lifetimeSystem n F C length).Reaches LifetimeAction.Strong (JoinsDeaf k) s := by
  have hparked := hs.parked (k := k) (by rw [hpc]; rfl)
  refine (reaches_poll hs hparked).trans fun t ⟨ht, hpc', hpoll, hsig⟩ => ?_
  rw [hpc] at hpc'
  have hstate := (ht.parked (k := k) (by rw [hpc']; rfl)).state_eq
  let t₁ : Lifetime n F C := { t with shutdown := .loadState k }
  let t₂ : Lifetime n F C := { t with shutdown := .send k .none }
  have h₁ : lifetimeStep length t (.destroy false) = some t₁ := by
    rw [lifetimeStep, rschedWorkerDestroy, hpc']
    simp only [hsig, if_true, t₁]
  have h₂ : lifetimeStep length t₁ (.destroy false) = some t₂ := by
    rw [lifetimeStep, rschedWorkerDestroy]
    simp only [hstate, reduceCtorEq, if_false, t₁, t₂]
  refine .head (a := .destroy false) rfl h₁ (.head (a := .destroy false) rfl h₂ ?_)
  -- the worker polls
  have hw : workerStep length false t₂.sched.idx (t₂.sched.worker k)
      = some (t₂.sched.idx, (t.sched.worker k).lockReceive yieldHandle) := by
    rw [workerStep, hpoll]
  obtain ⟨t₃, h₃, hpc₃, hw₃⟩ := lifetimeStep_worker hw
  refine .head (a := .sched (.worker k false)) rfl h₃ ?_
  have hlocked : (t₃.sched.worker k).signal = .locked := by rw [hw₃]
  have hunlock : (t₃.sched.worker k).pc = .yieldUnlock := by
    rw [hw₃]
    dsimp only
    rw [hsig]
    rfl
  have hwaiting : (t₃.sched.worker k).state = .waiting := by rw [hw₃]; exact hstate
  let t₄ : Lifetime n F C := ⟨t₃.sched, .send k .locked⟩
  have h₄ : lifetimeStep length t₃ (.destroy false) = some t₄ := by
    rw [lifetimeStep, rschedWorkerDestroy, hpc₃]
    simp [Worker.sendExchange, hlocked, Sched.setWorker, t₂, t₄]
  have h₅ : lifetimeStep length t₄ (.destroy false) = some
      ⟨t₃.sched.setWorker k { t₃.sched.worker k with signal := .quit }, .joining k⟩ := by
    rw [lifetimeStep, rschedWorkerDestroy]
    simp [Worker.sendExchange, hlocked, t₄]
  refine .head (a := .destroy false) rfl h₄ (.single (a := .destroy false) rfl h₅ ⟨rfl, ?_⟩)
  exact Or.inr (by simp [Sched.setWorker, hunlock, hwaiting])

/-- **A shutdown.** Whatever the scheduler has done before, `rsched_shutdown` takes no task and
calls nothing; it finds every worker waiting, tells each to quit and waits for the end of its
thread, and behind it every thread has ended. It can be completed exactly as long as the worker that
the host joins is about to receive its `QUIT` or has done so; and unless there are no workers, it
may never return, although every exchange fails only on different values. -/
theorem rsched_shutdown_ends (n length : ℕ) {F C : Type*} {as : List (LifetimeAction n F C)}
    {s : Lifetime n F C}
    (hrun : (lifetimeSystem n F C length).run (lifetimeInit n F C) as = some s)
    (hoff : s.shutdown = .off) (hpc : s.sched.pc.between = true) :
    (∀ bs t, (lifetimeSystem n F C length).run s (.shutdown :: bs) = some t →
      SameTasks s.sched t.sched ∧ t.shutdown ≠ .off ∧
      (∀ i, t.shutdown.At i (t.sched.worker i)) ∧
      ((∃ cs u, (∀ c ∈ cs, c.Strong) ∧ (lifetimeSystem n F C length).run t cs = some u ∧
        u.shutdown = .ended) ↔ t.Clear)) ∧
    (0 < n → ∃ bs t, (∀ b ∈ bs, b.Strong) ∧
      (lifetimeSystem n F C length).run s (.shutdown :: bs) = some t ∧
      ∀ cs u, (lifetimeSystem n F C length).run t cs = some u → u.shutdown ≠ .ended) := by
  have hbegin : (lifetimeSystem n F C length).step s .shutdown
      = some { s with shutdown := destroyWorkersFrom 0 } := if_pos ⟨hoff, hpc⟩
  have hdown : ShuttingDown { s with shutdown := destroyWorkersFrom 0 } :=
    ⟨destroyWorkersFrom_ne_off 0, at_begin ((run_lifetimeInv hrun).barrier hoff) hpc⟩
  refine ⟨fun bs t ht => ?_, fun hn => ?_⟩
  · rw [StepSystem.run_cons, hbegin, Option.bind_some] at ht
    obtain ⟨hoff', hsame, hat⟩ := run_shutdown hdown.2 hdown.1 ht
    refine ⟨hsame, hoff', hat, ?_, fun hclear => ShuttingDown.reaches_ended ⟨hoff', hat⟩ hclear⟩
    rintro ⟨cs, u, -, hcs, hended⟩ k hjoin
    have hk := hat k
    rw [hjoin] at hk
    have hcase : (t.sched.worker k).Hears ∨ (t.sched.worker k).Deaf := by
      simpa [ShutdownPc.At] using hk
    refine hcase.resolve_right fun hdeaf => ?_
    have hstuck := run_joinsDeaf ⟨hjoin, hdeaf⟩ hcs
    cases hstuck.1.symm.trans hended
  · have hfrom : (destroyWorkersFrom 0 : ShutdownPc n) = .loadSignal ⟨0, hn⟩ := dif_pos hn
    obtain ⟨bs, t, hbs, ht, hstuck⟩ : (lifetimeSystem n F C length).Reaches
        LifetimeAction.Strong (JoinsDeaf ⟨0, hn⟩) { s with shutdown := destroyWorkersFrom 0 } :=
      reaches_joinsDeaf hdown hfrom
    refine ⟨bs, t, hbs, ?_, fun cs u hcs hended => ?_⟩
    · rw [StepSystem.run_cons, hbegin, Option.bind_some, ht]
    · cases (run_joinsDeaf hstuck hcs).1.symm.trans hended

/-- The theorem at one worker, once `rsched_create` has returned. -/
theorem rsched_shutdown_ends_one :
    ∃ s : Lifetime 1 Unit Unit, (lifetimeSystem 1 Unit Unit 0).run (lifetimeInit 1 Unit Unit)
        [.sched (.worker 0 false), .sched (.host false), .sched (.host false)] = some s ∧
      (∃ bs t, (lifetimeSystem 1 Unit Unit 0).run s (.shutdown :: bs) = some t ∧
        t.shutdown = .ended) ∧
      ∃ bs t, (lifetimeSystem 1 Unit Unit 0).run s (.shutdown :: bs) = some t ∧
        ∀ cs u, (lifetimeSystem 1 Unit Unit 0).run t cs = some u → u.shutdown ≠ .ended := by
  obtain ⟨s, hrun, hoff, hpc⟩ : ∃ s : Lifetime 1 Unit Unit,
      (lifetimeSystem 1 Unit Unit 0).run (lifetimeInit 1 Unit Unit)
        [.sched (.worker 0 false), .sched (.host false), .sched (.host false)] = some s ∧
      s.shutdown = .off ∧ s.sched.pc = .idle := ⟨_, rfl, rfl, rfl⟩
  obtain ⟨hends, hhangs⟩ := rsched_shutdown_ends 1 0 hrun hoff (by rw [hpc]; rfl)
  have hbegin : (lifetimeSystem 1 Unit Unit 0).run s [.shutdown]
      = some { s with shutdown := .loadSignal 0 } := by
    rw [StepSystem.run_singleton]
    exact if_pos ⟨hoff, by rw [hpc]; rfl⟩
  obtain ⟨cs, u, -, hcs, hended⟩ := (hends [] _ hbegin).2.2.2.mpr (fun _ h => by cases h)
  obtain ⟨bs, t, -, ht, hnever⟩ := hhangs one_pos
  exact ⟨s, hrun, ⟨cs, u, (lifetimeSystem 1 Unit Unit 0).run_trans hbegin hcs, hended⟩, bs, t, ht,
    hnever⟩

end Steps

end Mdb
