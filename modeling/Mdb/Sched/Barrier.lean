import Mdb.Sched.Host

/-!
The barrier of `rsched_host_yield`: what the host knows of each worker wherever it stands.

A worker is parked in `rsched_worker_yield`, on its way to it, starting on a signal, or running
the task loop, each with its own values of the signal word, the state and the local variables.
These are the levels of `Worker.At`; the steps of the worker keep them (`workerStep_at`), the host
raises one by its send and lowers it by seeing first `NONE` in the word and then `WAITING` in the
state. `BarrierInv` says which level every place of the host promises for every worker;
`run_barrierInv` is its run lemma.
-/

namespace Mdb

section Phase

variable {F C : Type*}

/-! ### The phases of a worker -/

/-- The worker polls its signal word, in which no signal waits. -/
def Worker.Parked (w : Worker F C) : Prop :=
  match w.pc with
  | .yieldReceive => w.signal = .none ∧ w.state = .waiting
  | .yieldUnlock => w.signal = .locked ∧ w.state = .waiting
  | _ => False

/-- The worker is about to set `WAITING`. -/
def Worker.Arriving (w : Worker F C) : Prop :=
  w.pc = .yieldSetWaiting ∧ w.signal = .none ∧ w.state ≠ .waiting ∧ w.state ≠ .down

/-- The worker runs the task loop with the given function and context. -/
def Worker.Running (fn : Option F) (ctx : Option C) (w : Worker F C) : Prop :=
  match w.pc with
  | .loopPop _ | .loopEmptyUnlock | .loopCall _ | .loopProcFun _ | .loopReceive =>
      w.signal = .none ∧ w.state = .running ∧ w.procCtx = ctx ∧ w.procFun = fn
  | .loopSigUnlock => w.signal = .locked ∧ w.state = .running ∧ w.procCtx = ctx ∧ w.procFun = fn
  | _ => False

/-- A start waits for the worker, is about to be erased by it, or has been received. -/
def Worker.Starting (fn : Option F) (ctx : Option C) (w : Worker F C) : Prop :=
  match w.pc with
  | .yieldReceive | .yieldUnlock => w.signal = .start ∧ w.state = .waiting
  | .startLock | .startUserCtx => w.signal = .locked
  | .startUserFun => w.signal = .locked ∧ w.procCtx = ctx
  | .startUnlock | .startSetRunning => w.signal = .locked ∧ w.procCtx = ctx ∧ w.procFun = fn
  | .startSigUnlock =>
      w.signal = .locked ∧ w.state = .running ∧ w.procCtx = ctx ∧ w.procFun = fn
  | _ => False

/-- How far a worker may have gone: each level allows one phase more than the one before. -/
inductive Level where
  | parked
  | resting
  | past
  | any
  deriving DecidableEq

/-- The phases of a level. -/
def Worker.At (fn : Option F) (ctx : Option C) (w : Worker F C) : Level → Prop
  | .parked => w.Parked
  | .resting => w.Parked ∨ w.Arriving
  | .past => w.Parked ∨ w.Arriving ∨ w.Running fn ctx
  | .any => w.Parked ∨ w.Arriving ∨ w.Running fn ctx ∨ w.Starting fn ctx

variable {fn : Option F} {ctx : Option C} {w w' : Worker F C} {l : Level}

lemma Worker.Parked.at (h : w.Parked) : w.At fn ctx l := by
  cases l with
  | parked => exact h
  | _ => exact Or.inl h

lemma Worker.At.any (h : w.At fn ctx l) : w.At fn ctx .any := by
  cases l with
  | parked => exact Or.inl h
  | resting => exact h.imp_right Or.inl
  | past => exact h.imp_right (Or.imp_right Or.inl)
  | any => exact h

/-- The phases do not depend on the lock, nor on the function and the context that are set. -/
lemma Worker.Parked.congr (h : w.Parked) (hpc : w'.pc = w.pc) (hsig : w'.signal = w.signal)
    (hst : w'.state = w.state) : w'.Parked := by
  rw [Worker.Parked, hpc, hsig, hst]
  exact h

lemma Worker.Parked.signal_eq (h : w.Parked) : w.signal = .none ∨ w.signal = .locked := by
  rw [Worker.Parked] at h
  split at h
  · exact Or.inl h.1
  · exact Or.inr h.1
  · exact h.elim

lemma Worker.Parked.state_eq (h : w.Parked) : w.state = .waiting := by
  rw [Worker.Parked] at h
  split at h
  · exact h.2
  · exact h.2
  · exact h.elim

lemma Worker.Running.state_eq (h : w.Running fn ctx) : w.state = .running := by
  rw [Worker.Running] at h
  split at h <;> first
    | exact h.2.1
    | exact h.elim

lemma Worker.Starting.signal_ne (h : w.Starting fn ctx) : w.signal ≠ .none := by
  intro hsig
  rw [Worker.Starting, hsig] at h
  split at h <;> first
    | cases h.1
    | cases h

/-- The worker has just been created. -/
lemma Worker.arriving_init : (Worker.init : Worker F C).Arriving := ⟨rfl, rfl, nofun, nofun⟩

/-! ### What the host sees -/

/-- No start is on its way once the word has been seen to hold `NONE`. -/
lemma Worker.At.past_of_none (h : w.At fn ctx .any) (hsig : w.signal = .none) :
    w.At fn ctx .past := by
  obtain h | h | h | h := h
  · exact Or.inl h
  · exact Or.inr (Or.inl h)
  · exact Or.inr (Or.inr h)
  · exact absurd hsig h.signal_ne

lemma Worker.At.past (h : w.At fn ctx l) (hl : l ≠ .any) : w.At fn ctx .past := by
  cases l with
  | parked => exact Or.inl h
  | resting => exact h.imp_right Or.inl
  | past => exact h
  | any => exact absurd rfl hl

/-- Past its start, a worker is parked once its state has been seen to be `WAITING`. -/
lemma Worker.At.parked_of_waiting (h : w.At fn ctx .past) (hst : w.state = .waiting) :
    w.Parked := by
  obtain h | h | h := h
  · exact h
  · exact absurd hst h.2.2.1
  · cases hst.symm.trans h.state_eq

/-- Past its start, a worker is not down. -/
lemma Worker.At.not_down (h : w.At fn ctx .past) : w.state ≠ .down := by
  intro hst
  obtain h | h | h := h
  · cases hst.symm.trans h.state_eq
  · exact h.2.2.2 hst
  · cases hst.symm.trans h.state_eq

/-- A start that replaces `NONE` or `LOCKED` in the word of a parked worker. -/
lemma Worker.Parked.starting (h : w.Parked) : ({ w with signal := .start }).Starting fn ctx := by
  rw [Worker.Parked] at h
  rw [Worker.Starting]
  cases hpc : w.pc <;> simp only [hpc] at h ⊢
  · exact ⟨trivial, h.2⟩
  · exact ⟨trivial, h.2⟩

/-! ### The steps of a worker -/

variable {length idx idx' : ℕ} {spurious : Bool} {ev : WorkerEvent}

/-- A worker leaves the function and the context alone. -/
lemma workerStep_user (h : workerStep length spurious idx w = some (idx', w', ev)) :
    w'.userFun = w.userFun ∧ w'.userCtx = w.userCtx := by
  rw [workerStep] at h
  cases hpc : w.pc <;> simp only [hpc, Option.some.injEq, Prod.mk.injEq, reduceCtorEq] at h
  case startLock =>
    split_ifs at h
    obtain ⟨-, rfl, -⟩ := Option.some.inj h
    exact ⟨rfl, rfl⟩
  all_goals
    obtain ⟨-, rfl, -⟩ := h
    exact ⟨rfl, rfl⟩

lemma workerStep_parked (hw : w.Parked)
    (h : workerStep length spurious idx w = some (idx', w', ev)) : w'.Parked := by
  rw [workerStep] at h
  rw [Worker.Parked] at hw
  cases hpc : w.pc <;> simp only [hpc] at hw
  · -- the poll finds nothing
    simp only [hpc, Option.some.injEq, Prod.mk.injEq] at h
    obtain ⟨-, rfl, -⟩ := h
    rw [hw.1]
    exact ⟨rfl, hw.2⟩
  · simp only [hpc, Option.some.injEq, Prod.mk.injEq] at h
    obtain ⟨-, rfl, -⟩ := h
    exact ⟨rfl, hw.2⟩

lemma workerStep_arriving (hw : w.Arriving)
    (h : workerStep length spurious idx w = some (idx', w', ev)) : w'.Parked := by
  obtain ⟨hpc, hsig, -⟩ := hw
  simp only [workerStep, hpc, Option.some.injEq, Prod.mk.injEq] at h
  obtain ⟨-, rfl, -⟩ := h
  exact ⟨hsig, rfl⟩

/-- Where the task loop goes with a pop, it is still the task loop. -/
lemma running_popHandle (hsig : w.signal = .none) (hst : w.state = .running)
    (hctx : w.procCtx = ctx) (hfn : w.procFun = fn) (out : PopOut) :
    ({ w with pc := popHandle out }).Running fn ctx := by
  cases out with
  | next pc => exact ⟨hsig, hst, hctx, hfn⟩
  | ret task => cases task <;> exact ⟨hsig, hst, hctx, hfn⟩

lemma workerStep_running (hw : w.Running fn ctx)
    (h : workerStep length spurious idx w = some (idx', w', ev)) :
    w'.Arriving ∨ w'.Running fn ctx := by
  rw [workerStep] at h
  rw [Worker.Running] at hw
  cases hpc : w.pc <;> simp only [hpc] at hw <;>
    simp only [hpc, Option.some.injEq, Prod.mk.injEq] at h <;>
    obtain ⟨-, rfl, -⟩ := h
  case loopPop pc => exact Or.inr (running_popHandle hw.1 hw.2.1 hw.2.2.1 hw.2.2.2 _)
  case loopEmptyUnlock =>
    refine Or.inl ⟨rfl, rfl, fun hst => ?_, fun hst => ?_⟩ <;>
    · cases hw.2.1.symm.trans hst
  case loopReceive =>
    refine Or.inr ?_
    rw [hw.1]
    exact ⟨rfl, hw.2⟩
  case loopSigUnlock => exact Or.inr ⟨rfl, hw.2⟩
  all_goals exact Or.inr hw

lemma workerStep_starting (hw : w.Starting fn ctx) (hfun : w.userFun = fn) (hctx : w.userCtx = ctx)
    (hfn : fn ≠ none) (h : workerStep length spurious idx w = some (idx', w', ev)) :
    w'.Parked ∨ w'.Running fn ctx ∨ w'.Starting fn ctx := by
  rw [workerStep] at h
  rw [Worker.Starting] at hw
  cases hpc : w.pc <;> simp only [hpc] at hw <;>
    simp only [hpc, Option.some.injEq, Prod.mk.injEq] at h
  case startLock =>
    split_ifs at h
    obtain ⟨-, rfl, -⟩ := Option.some.inj h
    exact Or.inr (Or.inr hw)
  all_goals obtain ⟨-, rfl, -⟩ := h
  case yieldReceive =>
    refine Or.inr (Or.inr ?_)
    rw [hw.1]
    exact rfl
  case yieldUnlock =>
    -- the start is lost
    exact Or.inl ⟨rfl, hw.2⟩
  case startUserCtx => exact Or.inr (Or.inr ⟨hw, hctx⟩)
  case startUserFun => exact Or.inr (Or.inr ⟨hw.1, hw.2, hfun⟩)
  case startUnlock =>
    obtain ⟨f, hf⟩ := Option.ne_none_iff_exists'.mp hfn
    refine Or.inr (Or.inr ?_)
    rw [hw.2.2, hf]
    exact ⟨hw.1, hw.2.1, rfl⟩
  case startSetRunning => exact Or.inr (Or.inr ⟨hw.1, rfl, hw.2⟩)
  case startSigUnlock => exact Or.inr (Or.inl ⟨rfl, hw.2⟩)

/-- **The steps of a worker keep every level**, that of a start on its way with the function and
the context that are set. -/
theorem workerStep_at (hw : w.At fn ctx l)
    (hstart : l = .any → w.userFun = fn ∧ w.userCtx = ctx ∧ fn ≠ none)
    (h : workerStep length spurious idx w = some (idx', w', ev)) : w'.At fn ctx l := by
  cases l with
  | parked => exact workerStep_parked hw h
  | resting =>
      rcases hw with hw | hw
      · exact Or.inl (workerStep_parked hw h)
      · exact Or.inl (workerStep_arriving hw h)
  | past =>
      rcases hw with hw | hw | hw
      · exact Or.inl (workerStep_parked hw h)
      · exact Or.inl (workerStep_arriving hw h)
      · exact Or.inr (workerStep_running hw h)
  | any =>
      obtain ⟨hfun, hctx, hfn⟩ := hstart rfl
      rcases hw with hw | hw | hw | hw
      · exact Or.inl (workerStep_parked hw h)
      · exact Or.inl (workerStep_arriving hw h)
      · exact Or.inr ((workerStep_running hw h).imp_right Or.inl)
      · exact (workerStep_starting hw hfun hctx hfn h).imp_right Or.inr

end Phase

/-! ### What the places of the host promise -/

section Level

variable {n : ℕ}

/-- The level of a worker that the caller has still to wait for. -/
def WaitCaller.level : WaitCaller → Level
  | .create => .resting
  | .yield => .any

/-- The level of a worker whose signal word has been seen to hold `NONE`. -/
def WaitCaller.seen : WaitCaller → Level
  | .create => .resting
  | .yield => .past

/-- The level of the worker `i` while the host stands at a place. -/
def HostPc.level : HostPc n → Fin n → Level
  | .waitSignal caller k, i => if i < k then .parked else caller.level
  | .waitState caller k, i =>
      if i < k then .parked else if i = k then caller.seen else caller.level
  | .send k _, i => if i < k then .any else .parked
  | .pop _, _ | .call _, _ | .procFun _, _ => .any
  | _, _ => .parked

/-- The function of the worker `i` is that of the scheduler. -/
def HostPc.FunSet : HostPc n → Fin n → Prop
  | .setLock k, i | .setFun k, i => i < k
  | .setCtx k, i | .setUnlock k, i => i ≤ k
  | _, _ => True

/-- The context of the worker `i` is that of the scheduler. -/
def HostPc.CtxSet : HostPc n → Fin n → Prop
  | .setLock k, i | .setFun k, i | .setCtx k, i => i < k
  | .setUnlock k, i => i ≤ k
  | _, _ => True

/-- The host is inside `rsched_host_yield` behind the test of its function, or has come out of it
with success. -/
def HostPc.inRound : HostPc n → Bool
  | .waitSignal .yield _ | .waitState .yield _ | .send _ _ | .pop _ | .call _ | .procFun _
  | .returned true => true
  | _ => false

lemma level_waitFrom (caller : WaitCaller) (k : ℕ) (i : Fin n) :
    (waitFrom caller k).level i = if (i : ℕ) < k then .parked else caller.level := by
  by_cases h : k < n
  · rw [waitFrom, dif_pos h]
    rfl
  · rw [waitFrom, dif_neg h, if_pos (i.2.trans_le (not_lt.mp h))]
    cases caller <;> rfl

lemma level_sendFrom (k : ℕ) (i : Fin n) :
    (sendFrom k).level i = if (i : ℕ) < k then .any else .parked := by
  by_cases h : k < n
  · rw [sendFrom, dif_pos h]
    rfl
  · rw [sendFrom, dif_neg h, if_pos (i.2.trans_le (not_lt.mp h))]
    rfl

lemma inRound_waitFrom (caller : WaitCaller) (k : ℕ) :
    (waitFrom caller k : HostPc n).inRound = true ↔ caller = .yield := by
  rw [waitFrom]
  split <;> cases caller <;> simp [HostPc.inRound, waitSuccess]

lemma level_setFrom (k : ℕ) (i : Fin n) : (setFrom k).level i = .parked := by
  rw [setFrom]
  split <;> rfl

lemma set_setFrom (k : ℕ) (i : Fin n) :
    ((setFrom k).FunSet i ↔ (i : ℕ) < k) ∧ ((setFrom k).CtxSet i ↔ (i : ℕ) < k) := by
  rw [setFrom]
  split
  · exact ⟨Iff.rfl, Iff.rfl⟩
  next h =>
    have hi : (i : ℕ) < k := i.2.trans_le (not_lt.mp h)
    exact ⟨iff_of_true trivial hi, iff_of_true trivial hi⟩

lemma inRound_setFrom (k : ℕ) : (setFrom k : HostPc n).inRound = false := by
  rw [setFrom]
  split <;> rfl

end Level

/-! ### The barrier -/

section Barrier

variable {n : ℕ} {F C : Type*} {length : ℕ} {s s' : Sched n F C}

/-- The invariant of the barrier. -/
structure BarrierInv (s : Sched n F C) : Prop where
  at_level : ∀ i, (s.worker i).At s.userFun s.userCtx (s.pc.level i)
  fun_set : ∀ i, s.pc.FunSet i → (s.worker i).userFun = s.userFun
  ctx_set : ∀ i, s.pc.CtxSet i → (s.worker i).userCtx = s.userCtx
  armed : s.pc.inRound = true →
    s.userFun ≠ none ∧ s.procFun = s.userFun ∧ s.procCtx = s.userCtx
  /-- an exchange expects what a parked worker leaves in its word -/
  expects : ∀ i esig, s.pc = .send i esig → esig = .none ∨ esig = .locked

lemma BarrierInv.parked (hinv : BarrierInv s) {i : Fin n} (h : s.pc.level i = .parked) :
    (s.worker i).Parked := by
  have hi := hinv.at_level i
  rwa [h] at hi

lemma level_eq_any {pc : HostPc n} {i : Fin n} (h : pc.level i = .any) :
    pc.inRound = true ∧ pc.FunSet i ∧ pc.CtxSet i := by
  cases pc with
  | waitSignal caller k =>
      cases caller with
      | create =>
          rw [HostPc.level, WaitCaller.level] at h
          split_ifs at h
      | yield => exact ⟨rfl, trivial, trivial⟩
  | waitState caller k =>
      cases caller with
      | create =>
          rw [HostPc.level, WaitCaller.level, WaitCaller.seen] at h
          split_ifs at h
      | yield => exact ⟨rfl, trivial, trivial⟩
  | send k esig => exact ⟨rfl, trivial, trivial⟩
  | pop pc => exact ⟨rfl, trivial, trivial⟩
  | call task => exact ⟨rfl, trivial, trivial⟩
  | procFun task => exact ⟨rfl, trivial, trivial⟩
  | _ => cases h

lemma barrierInv_init : BarrierInv (schedInit n F C) where
  at_level := fun i => by
    have hinit := Worker.arriving_init (F := F) (C := C)
    rw [show (schedInit n F C).pc = waitFrom .create 0 from rfl, level_waitFrom,
      if_neg (Nat.not_lt_zero _)]
    exact Or.inr hinit
  fun_set := fun _ _ => rfl
  ctx_set := fun _ _ => rfl
  armed := fun h => by
    rw [show (schedInit n F C).pc = waitFrom .create 0 from rfl, waitFrom] at h
    split at h <;> cases h
  expects := fun i esig h => by
    rw [show (schedInit n F C).pc = waitFrom .create 0 from rfl, waitFrom] at h
    split at h <;> cases h

/-- The invariant is neither about the queue nor about what is noted down. -/
lemma BarrierInv.record (hinv : BarrierInv s) (idx : ℕ) (t : Option (Fin n)) (f : Option F)
    (c : Option C) (ev : WorkerEvent) : BarrierInv ({ s with idx := idx }.record t f c ev) := by
  obtain ⟨hat, hfun, hctx, harmed, hesig⟩ := hinv
  cases ev <;> exact ⟨hat, hfun, hctx, harmed, hesig⟩

/-- A step that replaces one worker keeps the invariant, if that worker and the others are as the
place of the host promises. -/
lemma BarrierInv.setWorker (hinv : BarrierInv s) (i : Fin n) (w : Worker F C) (pc : HostPc n)
    (hat : w.At s.userFun s.userCtx (pc.level i)) (hfun : pc.FunSet i → w.userFun = s.userFun)
    (hctx : pc.CtxSet i → w.userCtx = s.userCtx)
    (hrest : ∀ j, j ≠ i → pc.level j = s.pc.level j ∧ (pc.FunSet j → s.pc.FunSet j) ∧
      (pc.CtxSet j → s.pc.CtxSet j))
    (hround : pc.inRound = true → s.pc.inRound = true)
    (hesig : ∀ j esig, pc = .send j esig → esig = .none ∨ esig = .locked) :
    BarrierInv { s.setWorker i w with pc := pc } where
  at_level := (Function.forall_update_iff s.worker fun j w =>
    w.At s.userFun s.userCtx (pc.level j)).mpr ⟨hat, fun j hj => by
      rw [(hrest j hj).1]
      exact hinv.at_level j⟩
  fun_set := (Function.forall_update_iff s.worker fun j w =>
    pc.FunSet j → w.userFun = s.userFun).mpr
      ⟨hfun, fun j hj hset => hinv.fun_set j ((hrest j hj).2.1 hset)⟩
  ctx_set := (Function.forall_update_iff s.worker fun j w =>
    pc.CtxSet j → w.userCtx = s.userCtx).mpr
      ⟨hctx, fun j hj hset => hinv.ctx_set j ((hrest j hj).2.2 hset)⟩
  armed := fun h => hinv.armed (hround h)
  expects := hesig

/-- A step of a worker keeps the invariant of the barrier. -/
lemma workerStep_barrierInv {i : Fin n} {spurious : Bool} {idx : ℕ} {w : Worker F C}
    {ev : WorkerEvent} (hinv : BarrierInv s)
    (h : workerStep length spurious s.idx (s.worker i) = some (idx, w, ev)) :
    BarrierInv (s.setWorker i w) := by
  obtain ⟨hwfun, hwctx⟩ := workerStep_user h
  refine hinv.setWorker i w s.pc (workerStep_at (hinv.at_level i) (fun hany => ?_) h)
    (fun hset => hwfun.trans (hinv.fun_set i hset)) (fun hset => hwctx.trans (hinv.ctx_set i hset))
    (fun j _ => ⟨rfl, id, id⟩) id hinv.expects
  obtain ⟨hround, hf, hc⟩ := level_eq_any hany
  exact ⟨hinv.fun_set i hf, hinv.ctx_set i hc, (hinv.armed hround).1⟩

/-- A step of the host that moves nothing but itself keeps the invariant, if the workers are as far
as its new place promises. -/
lemma BarrierInv.move (hinv : BarrierInv s) {pc : HostPc n}
    (hset : ∀ i, s.pc.FunSet i ∧ s.pc.CtxSet i)
    (hat : ∀ i, (s.worker i).At s.userFun s.userCtx (pc.level i))
    (hround : pc.inRound = true → s.pc.inRound = true) (hesig : ∀ i esig, pc ≠ .send i esig) :
    BarrierInv { s with pc := pc } where
  at_level := hat
  fun_set := fun i _ => hinv.fun_set i (hset i).1
  ctx_set := fun i _ => hinv.ctx_set i (hset i).2
  armed := fun h => hinv.armed (hround h)
  expects := fun i esig h => absurd h (hesig i esig)

lemma Worker.At.seen {fn : Option F} {ctx : Option C} {w : Worker F C} {caller : WaitCaller}
    (h : w.At fn ctx caller.level) (hsig : w.signal = .none) : w.At fn ctx caller.seen := by
  cases caller with
  | create => exact h
  | yield => exact h.past_of_none hsig

lemma Worker.At.unseen {fn : Option F} {ctx : Option C} {w : Worker F C} {caller : WaitCaller}
    (h : w.At fn ctx caller.seen) : w.At fn ctx .past ∧ w.At fn ctx caller.level := by
  cases caller with
  | create => exact ⟨h.past nofun, h⟩
  | yield => exact ⟨h, h.any⟩

/-- The wait for one worker: the host reads its signal word. -/
lemma waitSignal_barrierInv (hinv : BarrierInv s) {caller : WaitCaller} {k : Fin n}
    (hpc : s.pc = .waitSignal caller k) :
    BarrierInv { s with
      pc := if (s.worker k).signal = .none then .waitState caller k else .waitSignal caller k } := by
  have hat := hinv.at_level
  refine hinv.move (fun i => by rw [hpc]; exact ⟨trivial, trivial⟩) (fun i => ?_) (fun h => ?_)
    fun i esig h => ?_
  · have hi := hat i
    rw [hpc, HostPc.level] at hi
    split_ifs with hsig
    · rw [HostPc.level]
      split_ifs with hlt heq
      · rwa [if_pos hlt] at hi
      · rw [if_neg hlt] at hi
        subst heq
        exact hi.seen hsig
      · rwa [if_neg hlt] at hi
    · exact hi
  · rw [hpc]
    split_ifs at h
    · cases caller <;> exact h
    · exact h
  · split_ifs at h

/-- The wait for one worker: the host reads its state. -/
lemma waitState_barrierInv (hinv : BarrierInv s) {caller : WaitCaller} {k : Fin n}
    (hpc : s.pc = .waitState caller k) :
    BarrierInv { s with pc := waitHandle caller k (s.worker k).state } := by
  have hat := hinv.at_level
  have hround : s.pc.inRound = true ↔ caller = .yield := by
    rw [hpc]
    cases caller <;> simp [HostPc.inRound]
  have hk := hat k
  rw [hpc, HostPc.level, if_neg (lt_irrefl k), if_pos rfl] at hk
  have hset : ∀ i, s.pc.FunSet i ∧ s.pc.CtxSet i := fun i => by rw [hpc]; exact ⟨trivial, trivial⟩
  -- not parked yet: the host reads the signal word again
  have hagain : BarrierInv { s with pc := .waitSignal caller k } := by
    refine hinv.move hset (fun i => ?_) (fun h => ?_) (fun i esig h => by cases h)
    · have hi := hat i
      rw [hpc, HostPc.level] at hi
      rw [HostPc.level]
      split_ifs at hi ⊢ with hlt heq
      · exact hi
      · exact hi.unseen.2
      · exact hi
    · exact hround.mpr (by cases caller with
        | create => cases h
        | yield => rfl)
  cases hst : (s.worker k).state with
  | waiting =>
      have hparked := hk.unseen.1.parked_of_waiting hst
      rw [waitHandle]
      refine hinv.move hset (fun i => ?_) (fun h => ?_) (fun i esig h => ?_)
      · rw [level_waitFrom]
        have hi := hat i
        rw [hpc, HostPc.level] at hi
        by_cases heq : i = k
        · rw [if_pos (by rw [heq]; exact Nat.lt_succ_self _), heq]
          exact hparked
        · have hiff : i < k ↔ (i : ℕ) < k + 1 := by
            rw [Fin.lt_def]
            have hne := Fin.val_ne_of_ne heq
            omega
          rw [if_neg heq] at hi
          simp only [hiff] at hi
          split_ifs at hi ⊢ <;> exact hi
      · exact hround.mpr ((inRound_waitFrom caller _).mp h)
      · rw [waitFrom] at h
        split_ifs at h
        cases caller <;> cases h
  | down => exact absurd hst hk.unseen.1.not_down
  | unset => exact hagain
  | running => exact hagain

/-- An exchange of the start for one worker. -/
lemma send_barrierInv (hinv : BarrierInv s) {k : Fin n} {esig : Signal} (hpc : s.pc = .send k esig)
    (spurious : Bool) :
    BarrierInv { s.setWorker k ((s.worker k).sendExchange .start esig spurious).1 with
      pc := sendHandle k ((s.worker k).sendExchange .start esig spurious).2 } := by
  have hset : ∀ i, s.pc.FunSet i ∧ s.pc.CtxSet i := fun i => by rw [hpc]; exact ⟨trivial, trivial⟩
  have hround : s.pc.inRound = true := by rw [hpc]; rfl
  have hk : (s.worker k).Parked := by
    have hk := hinv.at_level k
    rwa [hpc, HostPc.level, if_neg (lt_irrefl k)] at hk
  rw [Worker.sendExchange]
  split_ifs with hok
  · -- the start is in the word
    refine hinv.setWorker k { s.worker k with signal := .start } (sendFrom (k + 1)) ?_
      (fun _ => hinv.fun_set k (hset k).1) (fun _ => hinv.ctx_set k (hset k).2)
      (fun j hj => ⟨?_, fun _ => (hset j).1, fun _ => (hset j).2⟩) (fun _ => hround)
      fun j esig h => ?_
    · rw [level_sendFrom, if_pos (Nat.lt_succ_self _)]
      exact Or.inr (Or.inr (Or.inr hk.starting))
    · rw [level_sendFrom, hpc, HostPc.level]
      have hiff : j < k ↔ (j : ℕ) < k + 1 := by
        rw [Fin.lt_def]
        have hne := Fin.val_ne_of_ne hj
        omega
      simp only [hiff]
    · rw [sendFrom] at h
      split_ifs at h
      cases h
      exact Or.inl rfl
  · -- the next exchange expects what this one has found
    refine hinv.setWorker k (s.worker k) (.send k (s.worker k).signal) ?_
      (fun _ => hinv.fun_set k (hset k).1) (fun _ => hinv.ctx_set k (hset k).2)
      (fun j _ => ⟨by rw [hpc]; rfl, fun _ => (hset j).1, fun _ => (hset j).2⟩) (fun _ => hround)
      fun j esig h => ?_
    · rw [HostPc.level, if_neg (lt_irrefl k)]
      exact hk
    · cases h
      exact hk.signal_eq

/-- A step of `update_workers_user_ctx` on the worker `k`: it sets the function or the context, or
neither. -/
lemma set_barrierInv (hinv : BarrierInv s) (k : Fin n) (w : Worker F C) (pc : HostPc n)
    (hlevel : ∀ i, s.pc.level i = .parked) (hwpc : w.pc = (s.worker k).pc)
    (hsig : w.signal = (s.worker k).signal) (hst : w.state = (s.worker k).state)
    (hlevel' : ∀ i, pc.level i = .parked) (hround : pc.inRound = false)
    (hesig : ∀ i esig, pc ≠ .send i esig) (hfun : pc.FunSet k → w.userFun = s.userFun)
    (hctx : pc.CtxSet k → w.userCtx = s.userCtx)
    (hrest : ∀ i, i ≠ k → (pc.FunSet i → s.pc.FunSet i) ∧ (pc.CtxSet i → s.pc.CtxSet i)) :
    BarrierInv { s.setWorker k w with pc := pc } := by
  refine hinv.setWorker k w pc ?_ hfun hctx
    (fun i hi => ⟨(hlevel' i).trans (hlevel i).symm, hrest i hi⟩) (fun h => ?_)
    fun i esig h => absurd h (hesig i esig)
  · have hk := hinv.at_level k
    rw [hlevel k] at hk
    rw [hlevel' k]
    exact Worker.Parked.congr hk hwpc hsig hst
  · rw [hround] at h
    cases h

/-- Between its calls the host has all workers parked. -/
lemma level_of_between {pc : HostPc n} (h : pc.between = true) (i : Fin n) :
    pc.level i = .parked ∧ pc.FunSet i ∧ pc.CtxSet i := by
  cases pc with
  | idle => exact ⟨rfl, trivial, trivial⟩
  | returned ok => exact ⟨rfl, trivial, trivial⟩
  | _ => cases h

/-- There they have the function and the context of the scheduler. -/
lemma BarrierInv.of_between (hinv : BarrierInv s) (h : s.pc.between = true) (i : Fin n) :
    (s.worker i).Parked ∧ (s.worker i).userFun = s.userFun ∧
      (s.worker i).userCtx = s.userCtx := by
  obtain ⟨hlevel, hfun, hctx⟩ := level_of_between h i
  exact ⟨hinv.parked hlevel, hinv.fun_set i hfun, hinv.ctx_set i hctx⟩

/-- The task loop of the host: it promises nothing of the workers, before the step and after it. -/
lemma BarrierInv.move_loop (hinv : BarrierInv s) (pc : HostPc n)
    (hset : ∀ i, s.pc.level i = .any ∧ s.pc.FunSet i ∧ s.pc.CtxSet i) (hround : s.pc.inRound = true)
    (hpc : (∀ i, pc.level i = .any) ∧ ∀ i esig, pc ≠ .send i esig) :
    BarrierInv { s with pc := pc } := by
  refine hinv.move (fun i => (hset i).2) (fun i => ?_) (fun _ => hround) hpc.2
  have hi := hinv.at_level i
  rw [(hset i).1] at hi
  rw [hpc.1 i]
  exact hi

lemma hostPopHandle_place (out : PopOut) :
    (∀ i : Fin n, (hostPopHandle out).level i = .any) ∧
      ∀ (i : Fin n) (esig : Signal), hostPopHandle out ≠ .send i esig := by
  cases out with
  | next pc => exact ⟨fun _ => rfl, fun _ _ h => by cases h⟩
  | ret task =>
      cases task with
      | none =>
          refine ⟨fun i => ?_, fun i esig h => ?_⟩
          · rw [hostPopHandle, level_waitFrom, if_neg (Nat.not_lt_zero _)]
            rfl
          · rw [hostPopHandle, waitFrom] at h
            split_ifs at h
            cases h
      | some task => exact ⟨fun _ => rfl, fun _ _ h => by cases h⟩

/-- A step of the host inside a call keeps the invariant of the barrier. -/
lemma hostStep_barrierInv {spurious : Bool} (hinv : BarrierInv s)
    (h : hostStep length spurious s = some s') : BarrierInv s' := by
  rw [hostStep] at h
  cases hpc : s.pc <;> simp only [hpc, Option.some.injEq, reduceCtorEq] at h
  case waitSignal caller k =>
    rw [← h]
    exact waitSignal_barrierInv hinv hpc
  case waitState caller k =>
    rw [← h]
    exact waitState_barrierInv hinv hpc
  case setLock k =>
    split_ifs at h
    rw [← Option.some.inj h]
    refine set_barrierInv hinv k { s.worker k with lock := true } (.setFun k)
      (by rw [hpc]; exact fun _ => rfl) rfl rfl rfl (fun _ => rfl) rfl (fun i esig h => by cases h)
      (fun hk => absurd hk (lt_irrefl k)) (fun hk => absurd hk (lt_irrefl k)) fun i _ => ?_
    rw [hpc]
    exact ⟨id, id⟩
  case setFun k =>
    rw [← h]
    refine set_barrierInv hinv k { s.worker k with userFun := s.userFun } (.setCtx k)
      (by rw [hpc]; exact fun _ => rfl) rfl rfl rfl (fun _ => rfl) rfl (fun i esig h => by cases h)
      (fun _ => rfl) (fun hk => absurd hk (lt_irrefl k)) fun i hi => ?_
    rw [hpc]
    exact ⟨fun hle => lt_of_le_of_ne hle hi, id⟩
  case setCtx k =>
    have hfun := hinv.fun_set k (by rw [hpc]; exact le_refl k)
    rw [← h]
    refine set_barrierInv hinv k { s.worker k with userCtx := s.userCtx } (.setUnlock k)
      (by rw [hpc]; exact fun _ => rfl) rfl rfl rfl (fun _ => rfl) rfl (fun i esig h => by cases h)
      (fun _ => hfun) (fun _ => rfl) fun i hi => ?_
    rw [hpc]
    exact ⟨id, fun hle => lt_of_le_of_ne hle hi⟩
  case setUnlock k =>
    have hfun := hinv.fun_set k (by rw [hpc]; exact le_refl k)
    have hctx := hinv.ctx_set k (by rw [hpc]; exact le_refl k)
    rw [← h]
    refine set_barrierInv hinv k { s.worker k with lock := false } (setFrom (k + 1))
      (by rw [hpc]; exact fun _ => rfl) rfl rfl rfl (level_setFrom _) (inRound_setFrom _)
      (fun i esig h => ?_) (fun _ => hfun) (fun _ => hctx) fun i _ => ?_
    · rw [setFrom] at h
      split_ifs at h
    · rw [hpc, (set_setFrom _ i).1, (set_setFrom _ i).2]
      exact ⟨Nat.le_of_lt_succ, Nat.le_of_lt_succ⟩
  case send k esig =>
    rw [← h]
    exact send_barrierInv hinv hpc spurious
  case pop pc =>
    rw [← h]
    exact (hinv.move_loop _ (by rw [hpc]; exact fun _ => ⟨rfl, trivial, trivial⟩)
      (by rw [hpc]; rfl) (hostPopHandle_place _)).record ..
  case call task =>
    rw [← h]
    exact (hinv.move_loop (.procFun task) (by rw [hpc]; exact fun _ => ⟨rfl, trivial, trivial⟩)
      (by rw [hpc]; rfl) ⟨fun _ => rfl, fun _ _ h => by cases h⟩).record ..
  case procFun task =>
    rw [← h]
    exact (hinv.move_loop (.pop .load) (by rw [hpc]; exact fun _ => ⟨rfl, trivial, trivial⟩)
      (by rw [hpc]; rfl) ⟨fun _ => rfl, fun _ _ h => by cases h⟩).record ..

/-- A step of the scheduler keeps the invariant of the barrier. -/
lemma step_barrierInv {a : SchedAction n F C} (hinv : BarrierInv s)
    (h : schedStep length s a = some s') : BarrierInv s' := by
  cases a with
  | worker i spurious =>
      obtain ⟨idx, w, ev, hw, rfl⟩ := schedStep_worker_inv h
      exact (workerStep_barrierInv hinv hw).record ..
  | host spurious => exact hostStep_barrierInv hinv h
  | setUserContext userFun userCtx =>
      obtain ⟨hpc, rfl⟩ := schedStep_setUserContext_inv h
      refine ⟨fun i => ?_, fun i hi => ?_, fun i hi => ?_, fun h => ?_, fun i esig h => ?_⟩
      · simp only [level_setFrom]
        exact (hinv.of_between hpc i).1
      · exact absurd ((set_setFrom 0 i).1.mp hi) (Nat.not_lt_zero _)
      · exact absurd ((set_setFrom 0 i).2.mp hi) (Nat.not_lt_zero _)
      · cases (inRound_setFrom _).symm.trans h
      · simp only [setFrom] at h
        split_ifs at h
  | hostYield =>
      obtain ⟨hpc, -, pc, rfl, rfl | ⟨hsome, rfl⟩⟩ := schedStep_hostYield_inv h
      · exact ⟨fun i => (hinv.of_between hpc i).1, fun i _ => (hinv.of_between hpc i).2.1,
          fun i _ => (hinv.of_between hpc i).2.2, nofun, nofun⟩
      · refine ⟨fun i => ?_, fun i _ => (hinv.of_between hpc i).2.1,
          fun i _ => (hinv.of_between hpc i).2.2, fun _ => ⟨hsome, rfl, rfl⟩, fun i esig h => ?_⟩
        · dsimp only
          rw [level_sendFrom, if_neg (Nat.not_lt_zero _)]
          exact (hinv.of_between hpc i).1
        · simp only [sendFrom] at h
          split_ifs at h
          cases h
          exact Or.inl rfl
  | requeue =>
      obtain ⟨hpc, rfl⟩ := schedStep_requeue_inv h
      exact ⟨fun i => (hinv.of_between hpc i).1, fun i _ => (hinv.of_between hpc i).2.1,
        fun i _ => (hinv.of_between hpc i).2.2, nofun, nofun⟩

/-- **The barrier.** Its invariant holds after every run. -/
theorem run_barrierInv {as : List (SchedAction n F C)}
    (hrun : (schedSystem n F C length).run (schedInit n F C) as = some s) : BarrierInv s :=
  (schedSystem n F C length).run_induct (fun _ _ _ hinv hstep => step_barrierInv hinv hstep)
    barrierInv_init hrun

end Barrier

end Mdb
