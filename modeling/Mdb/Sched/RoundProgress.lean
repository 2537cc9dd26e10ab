import Mdb.Sched.Live
import Mdb.Sched.PopProgress

/-!
No call of the host ever wedges: whatever the threads have done, as long as their exchanges fail
only on different values, they can go on so that the call the host is inside returns.

Each part of a call has its variant: the workers still to be set or signalled; the tasks left, with
the way of the thread that takes the next one (`canReach_exhausted`); and the workers still to be
waited for, with the way of the next one back to its wait (`canReach_waitSuccess`).
`host_call_returns` puts them together.
-/

namespace Mdb

section Worker

variable {F C : Type*}

/-! ### The way of a worker to the next task -/

/-- How many steps a worker that comes to the next task is away from its exchange. -/
def WorkerPc.nextRank : WorkerPc → ℕ
  | .loopCall _ => 5
  | .loopProcFun _ => 4
  | .loopReceive => 3
  | .loopSigUnlock => 2
  | .loopPop .load => 1
  | _ => 0

variable {length idx : ℕ} {w : Worker F C} {fn : Option F} {ctx : Option C} {l : Level}

/-- Such a worker makes a step, and takes the task or is nearer to its exchange. -/
lemma exists_next_step (hat : w.At fn ctx l) (hnext : w.pc.takesNext idx = true)
    (hlt : idx < length) (hL : length < 2 ^ 32) :
    ∃ idx' w' ev, workerStep length false idx w = some (idx', w', ev) ∧
      (idx' = idx + 1 ∨ idx' = idx ∧ w'.pc.nextRank < w.pc.nextRank) := by
  cases hpc : w.pc <;> simp only [hpc, WorkerPc.takesNext, reduceCtorEq] at hnext
  case loopPop pc =>
    obtain ⟨-, -, heq⟩ | ⟨hle, -⟩ | ⟨-, rfl, heq⟩ | ⟨-, ⟨cur, rfl, hcur⟩, -⟩ :=
      rschedQueuePop_cases length false idx pc
    · exact ⟨_, _, _, workerStep_pop hpc heq, Or.inl (u32_of_lt (by omega))⟩
    · omega
    · exact ⟨_, _, _, workerStep_pop hpc heq,
        Or.inr ⟨rfl, by simp [popHandle, WorkerPc.nextRank]⟩⟩
    · simp only [decide_eq_true_eq] at hnext
      exact absurd (hcur hnext) Bool.false_ne_true
  case loopReceive =>
    rw [workerStep, hpc]
    refine ⟨_, _, _, rfl, Or.inr ⟨rfl, ?_⟩⟩
    simp [hat.signal_of_loopReceive hpc, loopHandle, WorkerPc.nextRank]
  all_goals
    rw [workerStep, hpc]
    exact ⟨_, _, _, rfl, Or.inr ⟨rfl, by simp [WorkerPc.nextRank]⟩⟩

/-! ### The way of a worker back to its wait -/

/-- How far a worker is away from polling an empty signal word, if the queue is exhausted and no
further signal comes. -/
def Worker.settleRank (w : Worker F C) : ℕ :=
  match w.pc with
  | .yieldReceive => if w.signal = .none then 0 else 10
  | .yieldUnlock | .yieldSetWaiting => 1
  | .loopEmptyUnlock => 2
  | .loopPop .load => 3
  | .loopSigUnlock | .startSigUnlock => 4
  | .loopReceive | .startSetRunning => 5
  | .loopProcFun _ | .startUnlock => 6
  | .loopCall _ | .startUserFun => 7
  | .loopPop (.cas _) | .startUserCtx => 8
  | .startLock => 9
  | .intSigUnlock | .exitSetDown | .exitSigUnlock | .done => 0

/-- A worker that is there waits. -/
lemma Worker.At.of_settled (h : w.At fn ctx l) (hrank : w.settleRank = 0) :
    w.pc = .yieldReceive ∧ w.signal = .none ∧ w.state = .waiting := by
  rcases h.any with h | h | h | h
  · rw [Worker.Parked] at h
    cases hpc : w.pc <;> simp only [hpc] at h
    · exact ⟨rfl, h⟩
    · simp [Worker.settleRank, hpc] at hrank
  · simp [Worker.settleRank, h.1] at hrank
  · rw [Worker.Running] at h
    cases hpc : w.pc <;> simp only [hpc] at h <;> simp only [Worker.settleRank, hpc] at hrank <;>
      try omega
    next pc => cases pc <;> simp at hrank
  · rw [Worker.Starting] at h
    cases hpc : w.pc <;> simp only [hpc] at h <;> simp [Worker.settleRank, hpc] at hrank
    exact absurd (h.1.symm.trans hrank) (by simp)

/-- The worker makes a step and is nearer to its wait. -/
def Worker.Settles (length idx : ℕ) (w : Worker F C) : Prop :=
  ∃ idx' w' ev, workerStep length false idx w = some (idx', w', ev) ∧ w'.settleRank < w.settleRank

lemma Worker.Parked.settles (h : w.Parked) (hrank : w.settleRank ≠ 0) : w.Settles length idx := by
  rw [Worker.Parked] at h
  cases hpc : w.pc <;> simp only [hpc] at h
  · simp [Worker.settleRank, hpc, h.1] at hrank
  · rw [Worker.Settles, workerStep, hpc]
    exact ⟨_, _, _, rfl, by simp [Worker.settleRank, hpc]⟩

lemma Worker.Arriving.settles (h : w.Arriving) : w.Settles length idx := by
  obtain ⟨hpc, hsig, -⟩ := h
  rw [Worker.Settles, workerStep, hpc]
  exact ⟨_, _, _, rfl, by simp [Worker.settleRank, hpc, hsig]⟩

/-- The task loop ends on an exhausted queue. -/
lemma Worker.Running.settles (h : w.Running fn ctx) (hidx : length ≤ idx) :
    w.Settles length idx := by
  rw [Worker.Running] at h
  cases hpc : w.pc <;> simp only [hpc] at h
  case loopPop pc =>
    obtain ⟨rfl, -, heq⟩ | ⟨-, heq⟩ | ⟨hlt, -⟩ | ⟨hlt, -⟩ :=
      rschedQueuePop_cases length false idx pc
    · exact ⟨_, _, _, workerStep_pop hpc heq, by simp [Worker.settleRank, hpc, popHandle]⟩
    · refine ⟨_, _, _, workerStep_pop hpc heq, ?_⟩
      cases pc <;> simp [Worker.settleRank, hpc, popHandle]
    · omega
    · omega
  all_goals
    rw [Worker.Settles, workerStep, hpc]
    refine ⟨_, _, _, rfl, ?_⟩
  case loopReceive => simp [Worker.settleRank, hpc, h.1, loopHandle]
  all_goals simp [Worker.settleRank, hpc]

/-- A start on its way is received or erased. -/
lemma Worker.Starting.settles (h : w.Starting fn ctx) (hfn : fn ≠ none)
    (hlock : w.pc = .startLock → w.lock = false) : w.Settles length idx := by
  rw [Worker.Starting] at h
  cases hpc : w.pc <;> simp only [hpc] at h <;> rw [Worker.Settles, workerStep, hpc]
  case startLock =>
    rw [hlock hpc]
    exact ⟨_, _, _, rfl, by simp [Worker.settleRank, hpc]⟩
  all_goals refine ⟨_, _, _, rfl, ?_⟩
  case yieldReceive =>
    simp [Worker.settleRank, hpc, h.1, yieldHandle, sigHandle]
  case startUnlock =>
    obtain ⟨f, hf⟩ := Option.ne_none_iff_exists'.mp hfn
    simp [Worker.settleRank, hpc, h.2.2, hf, startHandle]
  all_goals simp [Worker.settleRank, hpc]

/-- A worker the host waits for comes back to its wait by itself: before its first round, or once
the queue is exhausted. -/
lemma Worker.At.settles (h : w.At fn ctx l) (hrank : w.settleRank ≠ 0)
    (hl : l = .resting ∨ length ≤ idx ∧ fn ≠ none) (hlock : w.pc = .startLock → w.lock = false) :
    w.Settles length idx := by
  rcases hl with rfl | ⟨hidx, hfn⟩
  · rcases h with h | h
    · exact h.settles hrank
    · exact h.settles
  · rcases h.any with h | h | h | h
    · exact h.settles hrank
    · exact h.settles
    · exact h.settles hidx
    · exact h.settles hfn hlock

end Worker

section Host

variable {n : ℕ} {F C : Type*} {length : ℕ} {s s' : Sched n F C}

/-! ### The parts of a call -/

/-- The threads can go on, without a further call of the host, so that `Q` holds. -/
def CanReach (length : ℕ) (Q : Sched n F C → Prop) (s : Sched n F C) : Prop :=
  (schedSystem n F C length).Reaches SchedAction.Inside (fun t => LiveInv length t ∧ Q t) s

/-- A step that begins no call meets the condition of the invariant. -/
lemma SchedAction.Inside.strong {a : SchedAction n F C} (h : a.Inside) : a.Strong := by
  cases a with
  | worker i spurious => exact h
  | host spurious => exact h
  | _ => exact h.elim

/-- The variant rule for the scheduler. -/
lemma canReach_of_variant (hL : FitsIndex n length) {ι : Type*} [LT ι] [WellFoundedLT ι]
    {P : ι → Sched n F C → Prop} {Q : Sched n F C → Prop}
    (hstep : ∀ i s, LiveInv length s → P i s → ∃ a s', a.Inside ∧ schedStep length s a = some s' ∧
      (LiveInv length s' → Q s' ∨ ∃ j < i, P j s'))
    (hinv : LiveInv length s) {i : ι} (h : P i s) : CanReach length Q s := by
  refine StepSystem.reaches_of_variant (P := fun i s => LiveInv length s ∧ P i s)
    (fun i s ⟨hinv, h⟩ => ?_) ⟨hinv, h⟩
  obtain ⟨a, s', ha, hst, hnext⟩ := hstep i s hinv h
  have hinv' := step_liveInv hL hinv ha.strong hst
  refine ⟨a, s', ha, hst, ?_⟩
  rcases hnext hinv' with hQ | ⟨j, hj, hP⟩
  · exact Or.inl ⟨hinv', hQ⟩
  · exact Or.inr ⟨j, hj, hinv', hP⟩

/-- The same where the host goes on alone. -/
lemma canReach_of_hostRank (hL : FitsIndex n length) {P Q : Sched n F C → Prop}
    (rank : Sched n F C → ℕ)
    (hstep : ∀ s, LiveInv length s → P s → ∃ s', hostStep length false s = some s' ∧
      (Q s' ∨ P s' ∧ rank s' < rank s))
    (hinv : LiveInv length s) (h : P s) : CanReach length Q s := by
  refine canReach_of_variant hL (P := fun i s => P s ∧ rank s = i) (fun i s hinv ⟨h, hi⟩ => ?_)
    hinv ⟨h, rfl⟩
  obtain ⟨s', hst, hnext⟩ := hstep s hinv h
  refine ⟨.host false, s', rfl, hst, fun _ => hnext.imp_right fun ⟨hP, hlt⟩ => ?_⟩
  exact ⟨rank s', hi ▸ hlt, hP, rfl⟩

/-- The host is inside `update_workers_user_ctx`. -/
def HostPc.sets : HostPc n → Bool
  | .setLock _ | .setFun _ | .setCtx _ | .setUnlock _ => true
  | _ => false

/-- How many steps it has still to make there. -/
def HostPc.setRank : HostPc n → ℕ
  | .setLock k => 4 * (n - k) + 3
  | .setFun k => 4 * (n - k) + 2
  | .setCtx k => 4 * (n - k) + 1
  | .setUnlock k => 4 * (n - k)
  | _ => 0

/-- `rsched_set_user_context` returns: no worker holds its lock. -/
lemma canReach_idle (hL : FitsIndex n length) (hinv : LiveInv length s)
    (hpc : s.pc.sets = true) : CanReach length (fun t => t.pc = .idle) s := by
  refine canReach_of_hostRank hL (P := fun s => s.pc.sets = true) (fun s => s.pc.setRank)
    (fun s hinv hpc => ?_) hinv hpc
  cases hs : s.pc <;> rw [hs] at hpc <;> try cases hpc
  case setLock k =>
    have hparked := (hinv.sched.barrier.parked (i := k) (by rw [hs]; rfl)).not_holdsLock
    have hlock : (s.worker k).lock = false := by
      refine Bool.eq_false_of_not_eq_true fun hlock => ?_
      simpa [hparked, hs, HostPc.holdsLock] using hinv.lock k hlock
    rw [hostStep, hs]
    simp only [hlock]
    exact ⟨_, rfl, Or.inr ⟨rfl, by simp [HostPc.setRank]⟩⟩
  case setFun k =>
    rw [hostStep, hs]
    exact ⟨_, rfl, Or.inr ⟨rfl, by simp [HostPc.setRank]⟩⟩
  case setCtx k =>
    rw [hostStep, hs]
    exact ⟨_, rfl, Or.inr ⟨rfl, by simp [HostPc.setRank]⟩⟩
  case setUnlock k =>
    rw [hostStep, hs]
    refine ⟨_, rfl, ?_⟩
    by_cases hk : (k : ℕ) + 1 < n
    · refine Or.inr ?_
      simp only [setFrom, dif_pos hk]
      exact ⟨rfl, by simp only [HostPc.setRank]; omega⟩
    · exact Or.inl (by simp only [setFrom, dif_neg hk])

/-- How many exchanges `rsched_run_workers` has still to make, while the workers rest. -/
def Sched.sendRank (s : Sched n F C) : ℕ :=
  match s.pc with
  | .send k esig => 2 * (n - k) + if (s.worker k).signal = esig then 0 else 1
  | _ => 0

/-- The host reaches its task loop: a failed exchange tells it what the next one has to expect. -/
lemma canReach_load (hL : FitsIndex n length) (hinv : LiveInv length s) {k : Fin n} {esig : Signal}
    (hpc : s.pc = .send k esig) : CanReach length (fun t => t.pc = .pop .load) s := by
  refine canReach_of_hostRank hL (P := fun s => ∃ k esig, s.pc = .send k esig) Sched.sendRank
    (fun s hinv ⟨k, esig, hs⟩ => ?_) hinv ⟨k, esig, hpc⟩
  have hrank : s.sendRank = 2 * (n - k) + if (s.worker k).signal = esig then 0 else 1 := by
    rw [Sched.sendRank, hs]
  by_cases hsig : (s.worker k).signal = esig
  · have hstep : hostStep length false s = some { s.setWorker k { s.worker k with signal := .start }
        with pc := sendFrom (k + 1) } := by
      rw [hostStep, hs]
      simp only [Worker.sendExchange_of_eq ⟨hsig, rfl⟩, sendHandle]
    refine ⟨_, hstep, ?_⟩
    by_cases hk : (k : ℕ) + 1 < n
    · refine Or.inr ⟨⟨⟨k + 1, hk⟩, .none, by simp [sendFrom, hk]⟩, ?_⟩
      rw [hrank, if_pos hsig]
      simp only [Sched.sendRank, sendFrom, dif_pos hk]
      split_ifs <;> omega
    · exact Or.inl (by simp [sendFrom, hk])
  · have hstep : hostStep length false s = some { s.setWorker k (s.worker k)
        with pc := .send k (s.worker k).signal } := by
      rw [hostStep, hs]
      simp only [Worker.sendExchange_of_ne fun h => hsig h.1, sendHandle]
    refine ⟨_, hstep, Or.inr ⟨⟨k, _, rfl⟩, ?_⟩⟩
    rw [hrank, if_neg hsig]
    simp [Sched.sendRank, Sched.setWorker]

/-- The host is in its task loop. -/
def HostPc.inTasks : HostPc n → Bool
  | .pop _ | .call _ | .procFun _ => true
  | _ => false

/-- How many steps the host is away from its exchange, if it comes to the next task. -/
def HostPc.nextRank : HostPc n → ℕ
  | .call _ => 3
  | .procFun _ => 2
  | .pop .load => 1
  | _ => 0

/-- The same for any thread. -/
def Sched.nextRank (s : Sched n F C) : Option (Fin n) → ℕ
  | none => s.pc.nextRank
  | some i => (s.worker i).pc.nextRank

lemma hostStep_pop {spurious : Bool} {pc : PopPc} {idx : ℕ} {out : PopOut} (hpc : s.pc = .pop pc)
    (h : rschedQueuePop length spurious s.idx pc = (idx, out)) :
    hostStep length spurious s = some ({ s with idx := idx, pc := hostPopHandle out }.record none
      s.procFun s.procCtx (popEvent out)) := by
  rw [hostStep, hpc]
  simp only [h]

/-- The host makes a step, and takes the next task or is nearer to it. -/
lemma exists_host_next_step (hpc : s.pc.inTasks = true) (hnext : s.TakesNext none)
    (hlt : s.idx < length) (hL : length < 2 ^ 32) :
    ∃ s', hostStep length false s = some s' ∧ s'.pc.inTasks = true ∧
      (s'.idx = s.idx + 1 ∨ s'.idx = s.idx ∧ s'.TakesNext none ∧
        s'.nextRank none < s.nextRank none) := by
  rw [Sched.TakesNext] at hnext
  cases hs : s.pc <;> rw [hs] at hpc hnext <;> try cases hpc
  case pop pc =>
    obtain ⟨-, -, heq⟩ | ⟨hle, -⟩ | ⟨-, rfl, heq⟩ | ⟨-, ⟨cur, rfl, hcur⟩, -⟩ :=
      rschedQueuePop_cases length false s.idx pc
    · refine ⟨_, hostStep_pop hs heq, by simp [hostPopHandle, HostPc.inTasks], Or.inl ?_⟩
      rw [record_idx]
      exact u32_of_lt (by omega)
    · omega
    · refine ⟨_, hostStep_pop hs heq, by simp [hostPopHandle, HostPc.inTasks],
        Or.inr ⟨by rw [record_idx], ?_, ?_⟩⟩
      · simp [Sched.TakesNext, hostPopHandle, HostPc.takesNext]
      · simp [Sched.nextRank, hostPopHandle, HostPc.nextRank, hs]
    · simp only [HostPc.takesNext, decide_eq_true_eq] at hnext
      exact absurd (hcur hnext) Bool.false_ne_true
  case call task =>
    rw [hostStep, hs]
    exact ⟨_, rfl, rfl, Or.inr ⟨rfl, rfl, by
      simp [Sched.nextRank, HostPc.nextRank, Sched.record, hs]⟩⟩
  case procFun task =>
    rw [hostStep, hs]
    exact ⟨_, rfl, rfl, Or.inr ⟨rfl, rfl, by
      simp [Sched.nextRank, HostPc.nextRank, Sched.record, hs]⟩⟩

lemma inRound_of_inTasks {pc : HostPc n} (h : pc.inTasks = true) : pc.inRound = true := by
  cases pc <;> first | rfl | cases h

lemma schedStep_worker_of {k : Fin n} {idx : ℕ} {w : Worker F C} {ev : WorkerEvent}
    {spurious : Bool} (h : workerStep length spurious s.idx (s.worker k) = some (idx, w, ev)) :
    schedStep length s (.worker k spurious) =
      some (({ s.setWorker k w with idx := idx }).record (some k) w.procFun w.procCtx ev) := by
  rw [schedStep, h]
  rfl

/-- **The queue is exhausted**: the thread that comes to the next task takes it, and then there is
one that comes to the task after it. -/
lemma canReach_exhausted (hL : FitsIndex n length) (hinv : LiveInv length s)
    (hpc : s.pc.inTasks = true) :
    CanReach length (fun t => t.pc.inTasks = true ∧ length ≤ t.idx) s := by
  by_cases hlt : length ≤ s.idx
  · exact .refl ⟨hinv, hpc, hlt⟩
  -- the variant: the tasks left and the way of the thread that takes the next one
  let P := fun (i : ℕ ×ₗ ℕ) (s : Sched n F C) => s.pc.inTasks = true ∧ s.idx < length ∧
    ∃ t, s.TakesNext t ∧ i = toLex (length - s.idx, s.nextRank t)
  have htaken : ∀ {i : ℕ ×ₗ ℕ} {s s' : Sched n F C} {r : ℕ}, i = toLex (length - s.idx, r) →
      s.idx < length → s'.idx = s.idx + 1 → s'.pc.inTasks = true → LiveInv length s' →
        (s'.pc.inTasks = true ∧ length ≤ s'.idx) ∨ ∃ j < i, P j s' := by
    intro i s s' r hi hlt hidx hpc' hinv'
    by_cases hlt' : s'.idx < length
    · obtain ⟨t, ht⟩ := hinv'.next (inRound_of_inTasks hpc') hlt'
      refine Or.inr ⟨_, ?_, hpc', hlt', t, ht, rfl⟩
      rw [hi, Prod.Lex.toLex_lt_toLex]
      exact Or.inl (by dsimp only; omega)
    · exact Or.inl ⟨hpc', not_lt.mp hlt'⟩
  have hnearer : ∀ {i : ℕ ×ₗ ℕ} {s s' : Sched n F C} {t : Option (Fin n)},
      i = toLex (length - s.idx, s.nextRank t) → s.idx < length → s'.idx = s.idx →
        s'.pc.inTasks = true → s'.TakesNext t → s'.nextRank t < s.nextRank t →
          ∃ j < i, P j s' := by
    intro i s s' t hi hlt hidx hpc' ht hrank
    refine ⟨_, ?_, hpc', hidx ▸ hlt, t, ht, rfl⟩
    rw [hi, hidx, Prod.Lex.toLex_lt_toLex]
    exact Or.inr ⟨rfl, hrank⟩
  have hstart : ∃ i, P i s := by
    obtain ⟨t, ht⟩ := hinv.next (inRound_of_inTasks hpc) (not_le.mp hlt)
    exact ⟨_, hpc, not_le.mp hlt, t, ht, rfl⟩
  obtain ⟨i, hi⟩ := hstart
  refine canReach_of_variant hL (P := P) (fun i s hinv ⟨hpc, hlt, t, ht, hi⟩ => ?_) hinv hi
  cases t with
  | none =>
      obtain ⟨s', hst, hpc', hmoved | ⟨hidx, ht', hrank⟩⟩ :=
        exists_host_next_step hpc ht hlt hL.1
      · exact ⟨.host false, s', rfl, hst, htaken hi hlt hmoved hpc'⟩
      · exact ⟨.host false, s', rfl, hst,
          fun _ => Or.inr (hnearer hi hlt hidx hpc' ht' hrank)⟩
  | some k =>
      have hat := hinv.sched.barrier.at_level k
      obtain ⟨idx, w, ev, hw, hcase⟩ := exists_next_step hat ht hlt hL.1
      refine ⟨.worker k false, _, rfl, schedStep_worker_of hw, ?_⟩
      rcases hcase with hmoved | ⟨rfl, hrank⟩
      · exact htaken hi hlt (by rw [record_idx]; exact hmoved) (by rw [record_pc]; exact hpc)
      · refine fun _ => Or.inr (hnearer hi hlt (by rw [record_idx]) (by rw [record_pc]; exact hpc)
          ?_ ?_)
        · rw [Sched.TakesNext, record_worker, record_idx]
          simpa [Sched.setWorker] using workerStep_takesNext hat hlt hw (Or.inl ht)
        · simpa [Sched.nextRank, Sched.setWorker] using hrank

/-- How many steps the host has still to make in its task loop on an exhausted queue. -/
def HostPc.leaveRank : HostPc n → ℕ
  | .pop (.cas _) => 4
  | .call _ => 3
  | .procFun _ => 2
  | .pop .load => 1
  | _ => 0

/-- On an exhausted queue the host leaves its task loop, perhaps with the cell behind the tasks. -/
lemma canReach_waitFrom (hL : FitsIndex n length) (hinv : LiveInv length s)
    (hpc : s.pc.inTasks = true) (hidx : length ≤ s.idx) :
    CanReach length (fun t => t.pc = waitFrom .yield 0) s := by
  refine canReach_of_hostRank hL (P := fun s => s.pc.inTasks = true ∧ length ≤ s.idx)
    (fun s => s.pc.leaveRank) (fun s hinv ⟨hpc, hidx⟩ => ?_) hinv ⟨hpc, hidx⟩
  cases hs : s.pc <;> rw [hs] at hpc <;> try cases hpc
  case pop pc =>
    obtain ⟨rfl, -, heq⟩ | ⟨-, heq⟩ | ⟨hlt, -⟩ | ⟨hlt, -⟩ :=
      rschedQueuePop_cases length false s.idx pc
    · -- the cell behind the tasks, of which there is a pop only where there are workers
      have hcur := le_antisymm (hinv.expects.host s.idx hs) hidx
      have hlt : s.idx + 1 < 2 ^ 32 := by
        rcases hL.2 with hn | hlt
        · have halone := hinv.expects.alone hn (hcur ▸ hs)
          omega
        · omega
      rw [u32_of_lt hlt] at heq
      refine ⟨_, hostStep_pop hs heq, Or.inr ⟨⟨by simp [hostPopHandle, HostPc.inTasks], ?_⟩, ?_⟩⟩
      · rw [record_idx]
        exact Nat.le_succ_of_le hidx
      · simp [hostPopHandle, HostPc.leaveRank]
    · exact ⟨_, hostStep_pop hs heq, Or.inl (by rw [record_pc]; rfl)⟩
    · omega
    · omega
  case call task =>
    rw [hostStep, hs]
    exact ⟨_, rfl, Or.inr ⟨⟨rfl, hidx⟩, by simp [Sched.record, HostPc.leaveRank]⟩⟩
  case procFun task =>
    rw [hostStep, hs]
    exact ⟨_, rfl, Or.inr ⟨⟨rfl, hidx⟩, by simp [Sched.record, HostPc.leaveRank]⟩⟩

/-- A worker that the host waits for is nearer to its wait after a step. -/
lemma LiveInv.settles (hinv : LiveInv length s) {caller : WaitCaller} {k : Fin n}
    (hpc : s.pc = .waitSignal caller k ∨ s.pc = .waitState caller k)
    (hrank : (s.worker k).settleRank ≠ 0) : (s.worker k).Settles length s.idx := by
  have hat := hinv.sched.barrier.at_level k
  have hhost : s.pc.holdsLock k = false := by rcases hpc with h | h <;> rw [h] <;> rfl
  have hlock : (s.worker k).pc = .startLock → (s.worker k).lock = false := by
    intro hstart
    refine Bool.eq_false_of_not_eq_true fun hlock => ?_
    simpa [hstart, hhost, WorkerPc.holdsLock] using hinv.lock k hlock
  refine hat.settles hrank ?_ hlock
  cases caller with
  | create =>
      refine Or.inl ?_
      rcases hpc with h | h <;> simp [h, HostPc.level, WaitCaller.level, WaitCaller.seen]
  | yield =>
      have hround : s.pc.inRound = true := by rcases hpc with h | h <;> rw [h] <;> rfl
      have hdone : s.pc.popsDone = true := by rcases hpc with h | h <;> rw [h] <;> rfl
      exact Or.inr ⟨hinv.exhausted hround hdone, (hinv.sched.barrier.armed hround).1⟩

/-- **The wait succeeds**: the worker the host waits for comes back to its wait, and the host sees
it there. -/
lemma canReach_waitSuccess (hL : FitsIndex n length) (hinv : LiveInv length s)
    {caller : WaitCaller} {k : Fin n}
    (hpc : s.pc = .waitSignal caller k ∨ s.pc = .waitState caller k) :
    CanReach length (fun t => t.pc = waitSuccess caller) s := by
  -- the variant: the workers to be waited for and the way of the next one
  let P := fun (i : ℕ ×ₗ ℕ) (s : Sched n F C) => ∃ k,
    s.pc = .waitSignal caller k ∧ i = toLex (n - (k : ℕ), 2 * (s.worker k).settleRank + 1) ∨
      s.pc = .waitState caller k ∧ i = toLex (n - (k : ℕ), 2 * (s.worker k).settleRank)
  have hworker : ∀ (s : Sched n F C) (k : Fin n), (s.worker k).Settles length s.idx →
      ∃ s', schedStep length s (.worker k false) = some s' ∧ s'.pc = s.pc ∧
        (s'.worker k).settleRank < (s.worker k).settleRank := by
    rintro s k ⟨idx, w, ev, hw, hrank⟩
    refine ⟨_, schedStep_worker_of hw, record_pc .., ?_⟩
    simpa [Sched.setWorker] using hrank
  obtain ⟨i, hi⟩ : ∃ i, P i s := by
    rcases hpc with h | h
    · exact ⟨_, k, Or.inl ⟨h, rfl⟩⟩
    · exact ⟨_, k, Or.inr ⟨h, rfl⟩⟩
  refine canReach_of_variant hL (P := P) ?_ hinv hi
  rintro i s hinv ⟨k, hk⟩
  by_cases hrank : (s.worker k).settleRank = 0
  · -- the worker waits: the host goes on
    obtain ⟨-, hsig, hst⟩ := (hinv.sched.barrier.at_level k).of_settled hrank
    rcases hk with ⟨hs, rfl⟩ | ⟨hs, rfl⟩
    · have hstep : hostStep length false s = some { s with pc := .waitState caller k } := by
        rw [hostStep, hs]
        simp only [hsig, if_true]
      refine ⟨.host false, _, rfl, hstep, fun _ => Or.inr ⟨_, ?_, k, Or.inr ⟨rfl, rfl⟩⟩⟩
      rw [Prod.Lex.toLex_lt_toLex]
      exact Or.inr ⟨rfl, by simp⟩
    · have hstep : hostStep length false s = some { s with pc := waitFrom caller (k + 1) } := by
        rw [hostStep, hs]
        simp only [hst, waitHandle]
      refine ⟨.host false, _, rfl, hstep, fun _ => ?_⟩
      by_cases hlt : (k : ℕ) + 1 < n
      · refine Or.inr ⟨_, ?_, ⟨k + 1, hlt⟩, Or.inl ⟨by simp [waitFrom, hlt], rfl⟩⟩
        rw [Prod.Lex.toLex_lt_toLex]
        exact Or.inl (by dsimp only; omega)
      · exact Or.inl (by simp [waitFrom, hlt])
  · obtain ⟨s', hst, hpc', hlt⟩ := hworker s k
      (hinv.settles (hk.imp And.left And.left) hrank)
    refine ⟨.worker k false, s', rfl, hst, fun _ => Or.inr ?_⟩
    rcases hk with ⟨hs, rfl⟩ | ⟨hs, rfl⟩
    · refine ⟨_, ?_, k, Or.inl ⟨hpc'.trans hs, rfl⟩⟩
      rw [Prod.Lex.toLex_lt_toLex]
      exact Or.inr ⟨rfl, by dsimp only; omega⟩
    · refine ⟨_, ?_, k, Or.inr ⟨hpc'.trans hs, rfl⟩⟩
      rw [Prod.Lex.toLex_lt_toLex]
      exact Or.inr ⟨rfl, by dsimp only; omega⟩

/-! ### A call returns -/

/-- From its task loop the host returns with success. -/
lemma canReach_of_inTasks (hL : FitsIndex n length) (hinv : LiveInv length s)
    (hpc : s.pc.inTasks = true) : CanReach length (fun t => t.pc = .returned true) s := by
  refine (canReach_exhausted hL hinv hpc).trans fun t ⟨ht, hpc', hidx⟩ => ?_
  refine (canReach_waitFrom hL ht hpc' hidx).trans fun u ⟨hu, hwait⟩ => ?_
  by_cases hn : 0 < n
  · rw [waitFrom, dif_pos hn] at hwait
    exact canReach_waitSuccess hL hu (Or.inl hwait)
  · rw [waitFrom, dif_neg hn] at hwait
    exact .refl ⟨hu, hwait⟩

/-- The call that the host is inside returns, that of `rsched_host_yield` with success. -/
lemma LiveInv.canReach_return (hL : FitsIndex n length) (hinv : LiveInv length s) :
    CanReach length (fun t => t.pc.between = true ∧
      (s.pc.inRound = true → t.pc = .returned true)) s := by
  -- a call that returns without a round, and one that returns with success
  have hidle : CanReach length (fun t => t.pc = .idle) s → s.pc.inRound = false →
      CanReach length (fun t => t.pc.between = true ∧
        (s.pc.inRound = true → t.pc = .returned true)) s := by
    intro h hround
    refine h.mono ?_
    rintro t ⟨ht, hpc⟩
    exact ⟨ht, by simp [hpc, HostPc.between], by simp [hround]⟩
  have hreturned : CanReach length (fun t => t.pc = .returned true) s →
      CanReach length (fun t => t.pc.between = true ∧
        (s.pc.inRound = true → t.pc = .returned true)) s := by
    intro h
    refine h.mono ?_
    rintro t ⟨ht, hpc⟩
    exact ⟨ht, by simp [hpc, HostPc.between], fun _ => hpc⟩
  cases hs : s.pc with
  | waitSignal caller k =>
      have hwait := canReach_waitSuccess hL hinv (Or.inl hs)
      rw [← hs]
      cases caller with
      | create => exact hidle hwait (by rw [hs]; rfl)
      | yield => exact hreturned hwait
  | waitState caller k =>
      have hwait := canReach_waitSuccess hL hinv (Or.inr hs)
      rw [← hs]
      cases caller with
      | create => exact hidle hwait (by rw [hs]; rfl)
      | yield => exact hreturned hwait
  | send k esig =>
      rw [← hs]
      refine hreturned ((canReach_load hL hinv hs).trans ?_)
      rintro t ⟨ht, hpc⟩
      exact canReach_of_inTasks hL ht (by rw [hpc]; rfl)
  | failed => exact absurd hs hinv.succeeds.1
  | idle => exact .refl ⟨hinv, by rw [hs]; rfl, fun h => by cases h⟩
  | returned ok =>
      refine .refl ⟨hinv, by rw [hs]; rfl, fun h => ?_⟩
      cases ok with
      | false => cases h
      | true => exact hs
  | setLock k | setFun k | setCtx k | setUnlock k =>
      rw [← hs]
      exact hidle (canReach_idle hL hinv (by rw [hs]; rfl)) (by rw [hs]; rfl)
  | pop pc | call task | procFun task =>
      rw [← hs]
      exact hreturned (canReach_of_inTasks hL hinv (by rw [hs]; rfl))

end Host

end Mdb
