import Mdb.Library.StepSystem
import Mdb.Sched.Worker

/-!
The error path of `rsched_create` (`sched/rsched.c`): `pthread_create` fails for one worker, and
`rsched_shutdown` destroys all of them.

`createStep` makes one step of the host from the creation of the first worker to the return,
`creationStep` also those of the threads created so far, which are workers as in `Sched.Worker`.
The workers that have been created, signalled and joined are noted down in this order.

* `create_failure_cleanup`: `rsched_worker_destroy` joins every worker of the array, and signals
  every one but the worker whose thread could not be created.

A join of a thread that was never created is undefined; the model lets it return.
-/

namespace Mdb

/-- Where the host stands inside `rsched_create`: before `pthread_create` and the store that
follows its failure in `rsched_worker_init`; before `rsched_wait_workers`, with all workers
created; before an access or a call of `rsched_worker_destroy`, or inside `pthread_join`; and after
the return. -/
inductive CreatePc (n : ℕ) where
  | create (i : Fin n)
  | setDown (i : Fin n)
  | wait
  | loadSignal (i : Fin n)
  | loadState (i : Fin n)
  | send (i : Fin n) (esig : Signal)
  | join (i : Fin n)
  | joining (i : Fin n)
  | returned (ret : ℤ)
  deriving DecidableEq

/-- The scheduler while it is created: the index of its queue, its workers, whether `*psched`
points to it, and the workers created, signalled and joined. -/
structure Creation (n : ℕ) (F C : Type*) where
  idx : ℕ
  worker : Fin n → Worker F C
  psched : Bool
  pc : CreatePc n
  created : List ℕ
  sent : List ℕ
  joined : List ℕ

/-- A step of a worker or of the host. -/
inductive CreationAction (n : ℕ) where
  | worker (i : Fin n) (spurious : Bool)
  | host (spurious : Bool)

section Creation

variable {n : ℕ} {F C : Type*}

/-- The loop of `rsched_create` from the worker `i` on. -/
def createFrom (i : ℕ) : CreatePc n := if h : i < n then .create ⟨i, h⟩ else .wait

/-- One worker replaced. -/
def Creation.setWorker (s : Creation n F C) (i : Fin n) (w : Worker F C) : Creation n F C :=
  { s with worker := Function.update s.worker i w }

@[simp] lemma setWorker_worker_self (s : Creation n F C) (i : Fin n) (w : Worker F C) :
    (s.setWorker i w).worker i = w := Function.update_self ..

lemma setWorker_worker_of_ne (s : Creation n F C) {i j : Fin n} (w : Worker F C) (h : j ≠ i) :
    (s.setWorker i w).worker j = s.worker j := Function.update_of_ne h ..

/-- `rsched_destroy_workers` from the worker `i` on, and what `rsched_create` does behind it. -/
def Creation.destroyFrom (s : Creation n F C) (i : ℕ) : Creation n F C :=
  if h : i < n then { s with pc := .loadSignal ⟨i, h⟩ }
  else { s with psched := false, pc := .returned mdbFail }

/-- A step of the host when `pthread_create` fails for the worker `k`. There is none inside
`pthread_join` while the thread runs. -/
def createStep (k : ℕ) (spurious : Bool) (s : Creation n F C) : Option (Creation n F C) :=
  match s.pc with
  | .create i =>
      if (i : ℕ) = k then some { s with pc := .setDown i }
      else some { s with created := s.created ++ [(i : ℕ)], pc := createFrom (i + 1) }
  | .setDown i =>
      some ((s.setWorker i { s.worker i with state := .down }).destroyFrom 0)
  | .loadSignal i =>
      some { s with pc := if (s.worker i).signal = .none then .loadState i else .loadSignal i }
  | .loadState i =>
      some { s with pc := if (s.worker i).state = .down then .join i else .send i .none }
  | .send i esig =>
      match (s.worker i).sendExchange .quit esig spurious with
      | (w, none) => some { s.setWorker i w with sent := s.sent ++ [(i : ℕ)], pc := .join i }
      | (w, some esig) => some { s.setWorker i w with pc := .send i esig }
  | .join i => some { s with joined := s.joined ++ [(i : ℕ)], pc := .joining i }
  | .joining i =>
      if (i : ℕ) ∈ s.created ∧ (s.worker i).pc ≠ .done then none
      else some (s.destroyFrom (i + 1))
  | .wait | .returned _ => none

/-- A step of the host, or of a worker whose thread has been created. Nothing has been pushed to
the queue. -/
def creationStep (k : ℕ) (s : Creation n F C) : CreationAction n → Option (Creation n F C)
  | .worker i spurious =>
      if (i : ℕ) ∈ s.created then
        (workerStep 0 spurious s.idx (s.worker i)).map fun (idx, w, _) =>
          { s.setWorker i w with idx := idx }
      else none
  | .host spurious => createStep k spurious s

/-- The creation of a scheduler as a step system. -/
def creationSystem (n k : ℕ) (F C : Type*) : StepSystem (Creation n F C) (CreationAction n) :=
  ⟨creationStep k⟩

/-- `rsched_init_structure` has allocated the workers, all zero. -/
def creationInit (n : ℕ) (F C : Type*) : Creation n F C where
  idx := 0
  worker := fun _ => Worker.init
  psched := true
  pc := createFrom 0
  created := []
  sent := []
  joined := []

/-- A clean-up that signals and joins exactly the workers that were created, each once, and then
makes `rsched_create` fail. -/
structure CleansUp (s : Creation n F C) : Prop where
  sent_nodup : s.sent.Nodup
  joined_nodup : s.joined.Nodup
  sent_created : ∀ i ∈ s.sent, i ∈ s.created
  joined_created : ∀ i ∈ s.joined, i ∈ s.created
  returned : ∀ ret, s.pc = .returned ret →
    (∀ i ∈ s.created, i ∈ s.sent ∧ i ∈ s.joined) ∧ ret = mdbFail ∧ s.psched = false

/-! ### What the host does -/

/-- A worker that has received nothing: it is not `DOWN`, and holds the signal word only to give it
back. -/
def Worker.Unsignalled (w : Worker F C) : Prop :=
  w.state ≠ .down ∧
    ((w.signal = .none ∧ (w.pc = .yieldSetWaiting ∨ w.pc = .yieldReceive)) ∨
      (w.signal = .locked ∧ w.pc = .yieldUnlock))

lemma unsignalled_init : (Worker.init : Worker F C).Unsignalled :=
  ⟨WorkerState.noConfusion, Or.inl ⟨rfl, Or.inl rfl⟩⟩

/-- A worker that has received nothing goes on waiting. -/
lemma workerStep_unsignalled {length idx idx' : ℕ} {spurious : Bool} {w w' : Worker F C}
    {ev : WorkerEvent} (hw : w.Unsignalled)
    (h : workerStep length spurious idx w = some (idx', w', ev)) : w'.Unsignalled := by
  obtain ⟨hstate, ⟨hsig, hpc | hpc⟩ | ⟨-, hpc⟩⟩ := hw
  all_goals
    rw [workerStep, hpc] at h
    obtain ⟨-, rfl, -⟩ := Option.some.inj h
  · exact ⟨WorkerState.noConfusion, Or.inl ⟨hsig, Or.inr rfl⟩⟩
  · exact ⟨hstate, Or.inr ⟨rfl, by simp [hsig, yieldHandle]⟩⟩
  · exact ⟨hstate, Or.inl ⟨rfl, Or.inr rfl⟩⟩

namespace CreatePc

/-- The workers below this index have been created, when that of `k` fails. -/
def createdTo (k : ℕ) : CreatePc n → ℕ
  | .create i => i
  | _ => k

/-- The host has passed the signal of the workers below this index. -/
def sentTo : CreatePc n → ℕ
  | .create _ | .setDown _ | .wait => 0
  | .loadSignal i | .loadState i | .send i _ => i
  | .join i | .joining i => i + 1
  | .returned _ => n

/-- The host has joined the workers below this index. -/
def joinedTo : CreatePc n → ℕ
  | .create _ | .setDown _ | .wait => 0
  | .loadSignal i | .loadState i | .send i _ | .join i => i
  | .joining i => i + 1
  | .returned _ => n

/-- The host is in `rsched_shutdown`, or behind it. -/
def destroying : CreatePc n → Bool
  | .create _ | .setDown _ | .wait => false
  | _ => true

/-- The places the host comes to when the creation of `k` fails. -/
def Visited (k : ℕ) : CreatePc n → Prop
  | .create i => (i : ℕ) ≤ k
  | .setDown i => (i : ℕ) = k
  | .wait => False
  | .send i _ => (i : ℕ) ≠ k
  | .returned ret => ret = mdbFail
  | _ => True

end CreatePc

/-- The workers below `m` without `k`. -/
def signalledTo (k m : ℕ) : List ℕ := (List.range m).filter (· ≠ k)

lemma signalledTo_succ_of_ne {k m : ℕ} (h : m ≠ k) :
    signalledTo k (m + 1) = signalledTo k m ++ [m] := by
  simp [signalledTo, List.range_succ, h]

lemma signalledTo_succ_self (k : ℕ) : signalledTo k (k + 1) = signalledTo k k := by
  simp [signalledTo, List.range_succ]

/-- The invariant of the error path: the host goes through the workers in their order, and has
signalled all it has passed but `k`, which alone it finds `DOWN`. -/
structure CleanupInv (k : ℕ) (s : Creation n F C) : Prop where
  visited : s.pc.Visited k
  created : s.created = List.range (s.pc.createdTo k)
  sent : s.sent = signalledTo k s.pc.sentTo
  joined : s.joined = List.range s.pc.joinedTo
  unsignalled : ∀ i : Fin n, (i : ℕ) ≠ k → s.pc.sentTo ≤ i → (s.worker i).Unsignalled
  down : s.pc.destroying = true → ∀ i : Fin n, (i : ℕ) = k → (s.worker i).state = .down
  psched : ∀ ret, s.pc = .returned ret → s.psched = false

variable {k : ℕ} {s s' : Creation n F C}

/-- The host begins to destroy the worker `m`, or returns behind the last one. -/
lemma CleanupInv.destroyFrom {m : ℕ} (hm : m ≤ n) (hcreated : s.created = List.range k)
    (hsent : s.sent = signalledTo k m) (hjoined : s.joined = List.range m)
    (hunsignalled : ∀ i : Fin n, (i : ℕ) ≠ k → m ≤ i → (s.worker i).Unsignalled)
    (hdown : ∀ i : Fin n, (i : ℕ) = k → (s.worker i).state = .down) :
    CleanupInv k (s.destroyFrom m) := by
  rw [Creation.destroyFrom]
  split_ifs with h
  · exact ⟨trivial, hcreated, hsent, hjoined, hunsignalled, fun _ => hdown, nofun⟩
  · obtain rfl : m = n := by omega
    exact ⟨rfl, hcreated, hsent, hjoined, hunsignalled, fun _ => hdown, fun _ _ => rfl⟩

/-- A step of the host keeps the invariant. -/
lemma createStep_cleanupInv {spurious : Bool} (hk : k < n) (hs : CleanupInv k s)
    (h : createStep k spurious s = some s') : CleanupInv k s' := by
  obtain ⟨hvisited, hcreated, hsent, hjoined, hunsignalled, hdown, hpsched⟩ := hs
  rw [createStep] at h
  cases hpc : s.pc <;> rw [hpc] at hvisited hcreated hsent hjoined hunsignalled hdown <;>
    simp only [hpc, Option.some.injEq, reduceCtorEq] at h
  case create i =>
    split_ifs at h with hik
    · -- `pthread_create` fails
      obtain rfl := Option.some.inj h
      exact ⟨hik, hik ▸ hcreated, hsent, hjoined, hunsignalled, nofun, nofun⟩
    · obtain rfl := Option.some.inj h
      have hlt : (i : ℕ) < k := lt_of_le_of_ne hvisited hik
      rw [createFrom, dif_pos (by omega)]
      refine ⟨hlt, ?_, hsent, hjoined, hunsignalled, nofun, nofun⟩
      exact (congrArg (· ++ [(i : ℕ)]) hcreated).trans List.range_succ.symm
  case setDown i =>
    obtain rfl := h
    refine CleanupInv.destroyFrom (Nat.zero_le _) hcreated hsent hjoined ?_ ?_
    · intro j hj _
      rw [setWorker_worker_of_ne _ _ (by rintro rfl; exact hj hvisited)]
      exact hunsignalled j hj (Nat.zero_le _)
    · intro j hj
      obtain rfl : j = i := Fin.ext (hj.trans hvisited.symm)
      rw [setWorker_worker_self]
  case loadSignal i =>
    obtain rfl := h
    split_ifs
    · exact ⟨trivial, hcreated, hsent, hjoined, hunsignalled, hdown, nofun⟩
    · exact ⟨trivial, hcreated, hsent, hjoined, hunsignalled, hdown, nofun⟩
  case loadState i =>
    obtain rfl := h
    by_cases hstate : (s.worker i).state = .down
    · rw [if_pos hstate]
      have hik : (i : ℕ) = k := by
        by_contra hik
        exact (hunsignalled i hik le_rfl).1 hstate
      refine ⟨trivial, hcreated, ?_, hjoined, ?_, hdown, nofun⟩
      · exact hsent.trans (hik ▸ (signalledTo_succ_self _).symm)
      · exact fun j hj hle => hunsignalled j hj (Nat.le_of_succ_le hle)
    · rw [if_neg hstate]
      have hik : (i : ℕ) ≠ k := fun hik => hstate (hdown rfl i hik)
      exact ⟨hik, hcreated, hsent, hjoined, hunsignalled, hdown, nofun⟩
  case send i esig =>
    by_cases hok : (s.worker i).signal = esig ∧ spurious = false
    · rw [Worker.sendExchange_of_eq hok] at h
      obtain rfl := Option.some.inj h
      refine ⟨trivial, hcreated, ?_, hjoined, ?_, ?_, nofun⟩
      · exact (congrArg (· ++ [(i : ℕ)]) hsent).trans (signalledTo_succ_of_ne hvisited).symm
      · intro j hj hle
        rw [setWorker_worker_of_ne _ _ (by rintro rfl; exact Nat.not_succ_le_self _ hle)]
        exact hunsignalled j hj (Nat.le_of_succ_le hle)
      · intro _ j hj
        rw [setWorker_worker_of_ne _ _ (by rintro rfl; exact hvisited hj)]
        exact hdown rfl j hj
    · rw [Worker.sendExchange_of_ne hok] at h
      obtain rfl := Option.some.inj h
      rw [Creation.setWorker, Function.update_eq_self]
      exact ⟨hvisited, hcreated, hsent, hjoined, hunsignalled, hdown, nofun⟩
  case join i =>
    obtain rfl := h
    refine ⟨trivial, hcreated, hsent, ?_, hunsignalled, hdown, nofun⟩
    exact (congrArg (· ++ [(i : ℕ)]) hjoined).trans List.range_succ.symm
  case joining i =>
    split_ifs at h
    obtain rfl := Option.some.inj h
    exact CleanupInv.destroyFrom i.isLt hcreated hsent hjoined hunsignalled (hdown rfl)

/-- Only the workers before `k` are created. -/
lemma CleanupInv.lt_of_created (hs : CleanupInv k s) {i : ℕ} (hi : i ∈ s.created) : i < k := by
  rw [hs.created, List.mem_range] at hi
  have hvisited := hs.visited
  cases hpc : s.pc <;> rw [hpc] at hi hvisited
  case create j => exact hi.trans_le hvisited
  all_goals exact hi

/-- A step keeps the invariant. -/
lemma creationStep_cleanupInv {a : CreationAction n} (hk : k < n) (hs : CleanupInv k s)
    (h : creationStep k s a = some s') : CleanupInv k s' := by
  cases a with
  | host spurious => exact createStep_cleanupInv hk hs h
  | worker i spurious =>
      rw [creationStep] at h
      split_ifs at h with hi
      obtain ⟨⟨idx, w, ev⟩, hstep, rfl⟩ := Option.map_eq_some_iff.mp h
      have hik : (i : ℕ) ≠ k := (hs.lt_of_created hi).ne
      refine { hs with unsignalled := fun j hj hle => ?_, down := fun hd j hj => ?_ }
      · by_cases hji : j = i
        · subst hji
          simpa using workerStep_unsignalled (hs.unsignalled j hj hle) hstep
        · simpa only [setWorker_worker_of_ne _ _ hji] using hs.unsignalled j hj hle
      · have hji : j ≠ i := by rintro rfl; exact hik hj
        simpa only [setWorker_worker_of_ne _ _ hji] using hs.down hd j hj

lemma cleanupInv_init (hk : k < n) : CleanupInv k (creationInit n F C) := by
  have hpc : (creationInit n F C).pc = .create ⟨0, by omega⟩ := dif_pos (by omega)
  refine ⟨?_, ?_, ?_, ?_, fun _ _ _ => unsignalled_init, ?_, ?_⟩ <;> rw [hpc]
  · exact Nat.zero_le k
  · rfl
  · rfl
  · rfl
  · nofun
  · nofun

/-- The invariant holds in every run. -/
lemma run_cleanupInv {as : List (CreationAction n)} (hk : k < n)
    (hrun : (creationSystem n k F C).run (creationInit n F C) as = some s) : CleanupInv k s :=
  (creationSystem n k F C).run_induct (fun _ _ _ hs h => creationStep_cleanupInv hk hs h)
    (cleanupInv_init hk) hrun

/-! ### A run up to the join of the worker that was not created -/

/-- The workers from `m` on are as they were before any was destroyed. -/
structure Untouched (k m : ℕ) (s : Creation n F C) : Prop where
  created : s.created = List.range k
  worker : ∀ i : Fin n, m ≤ i → (i : ℕ) ≠ k → s.worker i = Worker.init
  failed : ∀ i : Fin n, (i : ℕ) = k → (s.worker i).signal = .none ∧ (s.worker i).state = .down

/-- Only the worker `i` differs. -/
def SameBut (i : Fin n) (s s' : Creation n F C) : Prop :=
  s'.created = s.created ∧ ∀ j, j ≠ i → s'.worker j = s.worker j

lemma sameBut_setWorker (i : Fin n) (w : Worker F C) : SameBut i s (s.setWorker i w) :=
  ⟨rfl, fun _ hj => setWorker_worker_of_ne s w hj⟩

lemma SameBut.trans {i : Fin n} {s'' : Creation n F C} (h : SameBut i s s')
    (h' : SameBut i s' s'') :
    SameBut i s s'' :=
  ⟨h'.1.trans h.1, fun j hj => (h'.2 j hj).trans (h.2 j hj)⟩

lemma Untouched.of_sameBut {i : Fin n} (hs : Untouched k i s) (hik : (i : ℕ) ≠ k)
    (h : SameBut i s s') : Untouched k (i + 1) s' where
  created := h.1.trans hs.created
  worker := fun j hle hj => by
    rw [h.2 j (by rintro rfl; exact Nat.not_succ_le_self _ hle)]
    exact hs.worker j (Nat.le_of_succ_le hle) hj
  failed := fun j hj => by
    rw [h.2 j (by rintro rfl; exact hik hj)]
    exact hs.failed j hj

/-- The host sends `QUIT` to a worker that has not run yet, and begins to join it. -/
lemma run_signal {i : Fin n} (hpc : s.pc = .loadSignal i) (hw : s.worker i = Worker.init) :
    ∃ s', (creationSystem n k F C).run s (List.replicate 4 (.host false)) = some s' ∧
      s'.pc = .joining i ∧ s'.worker i = { (Worker.init : Worker F C) with signal := .quit } ∧
      SameBut i s s' := by
  refine ⟨{ s.setWorker i { (Worker.init : Worker F C) with signal := .quit } with
    sent := s.sent ++ [(i : ℕ)], joined := s.joined ++ [(i : ℕ)], pc := .joining i },
    ?_, rfl, setWorker_worker_self .., rfl, fun _ hj => setWorker_worker_of_ne s _ hj⟩
  simp [List.replicate_succ, StepSystem.run_cons, creationSystem, creationStep, createStep, hpc,
    hw, Worker.init, Worker.sendExchange, Creation.setWorker]

/-- A created worker that is signalled before it runs leaves at once. -/
lemma run_exit {i : Fin n} (hi : (i : ℕ) ∈ s.created)
    (hw : s.worker i = { (Worker.init : Worker F C) with signal := .quit }) :
    ∃ s', (creationSystem n k F C).run s (List.replicate 4 (.worker i false)) = some s' ∧
      s'.pc = s.pc ∧ (s'.worker i).pc = .done ∧ SameBut i s s' := by
  refine ⟨s.setWorker i { (Worker.init : Worker F C) with state := .down, pc := .done },
    ?_, rfl, by rw [setWorker_worker_self], sameBut_setWorker ..⟩
  simp [List.replicate_succ, StepSystem.run_cons, creationSystem, creationStep, hi, workerStep, hw,
    Worker.init, Worker.lockReceive, Worker.sigUnlock, yieldHandle, sigHandle, Creation.setWorker]

/-- A thread that has returned is joined. -/
lemma run_joined {i : Fin n} (hpc : s.pc = .joining i) (hdone : (s.worker i).pc = .done)
    (hi : (i : ℕ) + 1 < n) :
    ∃ s', (creationSystem n k F C).run s [.host false] = some s' ∧
      s'.pc = .loadSignal ⟨i + 1, hi⟩ ∧ SameBut i s s' := by
  refine ⟨{ s with pc := .loadSignal ⟨i + 1, hi⟩ }, ?_, rfl, rfl, fun _ _ => rfl⟩
  rw [StepSystem.run_singleton, creationSystem]
  dsimp only
  rw [creationStep, createStep, hpc]
  dsimp only
  rw [if_neg (fun h => h.2 hdone), Creation.destroyFrom, dif_pos hi]

/-- The host creates the workers up to `m`. -/
lemma run_create {m : ℕ} (hm : m ≤ k) (hk : k < n) :
    (creationSystem n k F C).run (creationInit n F C) (List.replicate m (.host false)) =
      some { creationInit n F C with created := List.range m, pc := createFrom m } := by
  induction m with
  | zero => rfl
  | succ m ih =>
      rw [List.replicate_succ']
      refine (creationSystem n k F C).run_trans (ih (Nat.le_of_succ_le hm)) ?_
      rw [StepSystem.run_singleton]
      simp [creationSystem, creationStep, createStep, createFrom, show m < n by omega,
        show m ≠ k by omega, List.range_succ]

/-- There is a run in which the host comes to destroy the worker `m`, if `m` is at most `k`. -/
lemma exists_run_destroy {m : ℕ} (hm : m ≤ k) (hk : k < n) :
    ∃ as, ∃ s : Creation n F C,
      (creationSystem n k F C).run (creationInit n F C) as = some s ∧
        s.pc = .loadSignal ⟨m, hm.trans_lt hk⟩ ∧ Untouched k m s := by
  induction m with
  | zero =>
      have hfail : (creationSystem n k F C).run
          { creationInit n F C with created := List.range k, pc := createFrom k }
          [.host false, .host false] = some
            ({ creationInit n F C with created := List.range k, pc := .loadSignal ⟨0, by omega⟩ }
              |>.setWorker ⟨k, hk⟩ { (Worker.init : Worker F C) with state := .down }) := by
        simp [StepSystem.run_cons, creationSystem, creationStep, createStep, createFrom, hk,
          Creation.setWorker, Creation.destroyFrom, creationInit, show 0 < n by omega]
      refine ⟨_, _, (creationSystem n k F C).run_trans (run_create le_rfl hk) hfail, rfl, rfl,
        ?_, ?_⟩
      · intro i _ hik
        exact setWorker_worker_of_ne _ _ (by rintro rfl; exact hik rfl)
      · intro i hik
        obtain rfl : i = ⟨k, hk⟩ := Fin.ext hik
        rw [setWorker_worker_self]
        exact ⟨rfl, rfl⟩
  | succ m ih =>
      obtain ⟨as, s, hrun, hpc, hs⟩ := ih (Nat.le_of_succ_le hm)
      have hmk : m < k := hm
      have hi : m ∈ s.created := by
        rw [hs.created]
        exact List.mem_range.mpr hmk
      obtain ⟨s₁, hrun₁, hpc₁, hw₁, hsame₁⟩ := run_signal (k := k) hpc (hs.worker _ le_rfl hmk.ne)
      obtain ⟨s₂, hrun₂, hpc₂, hdone, hsame₂⟩ := run_exit (k := k) (by rw [hsame₁.1]; exact hi) hw₁
      obtain ⟨s₃, hrun₃, hpc₃, hsame₃⟩ :=
        run_joined (k := k) (hpc₂.trans hpc₁) hdone (hm.trans_lt hk)
      have hdestroy := (creationSystem n k F C).run_trans hrun₁
        ((creationSystem n k F C).run_trans hrun₂ hrun₃)
      exact ⟨_, _, (creationSystem n k F C).run_trans hrun hdestroy, hpc₃,
        hs.of_sameBut hmk.ne ((hsame₁.trans hsame₂).trans hsame₃)⟩

/-- **The clean-up of `rsched_create` is not exact.** Whichever worker `k` could not be created,
there is a run in which the host joins it; and in every run the host has, when it returns, joined
all workers of the array and signalled all of them but `k`. -/
theorem create_failure_cleanup (n : ℕ) (k : Fin n) (F C : Type*) :
    (∃ as s, (creationSystem n k F C).run (creationInit n F C) as = some s ∧ ¬ CleansUp s) ∧
      ∀ as s ret, (creationSystem n k F C).run (creationInit n F C) as = some s →
        s.pc = .returned ret →
          s.created = List.range k ∧ s.sent = (List.range n).filter (· ≠ (k : ℕ)) ∧
            s.joined = List.range n ∧ ret = mdbFail ∧ s.psched = false := by
  constructor
  · obtain ⟨as, s, hrun, hpc, hs⟩ := exists_run_destroy (F := F) (C := C) le_rfl k.isLt
    obtain ⟨hsignal, hstate⟩ := hs.failed k rfl
    have hjoin : (creationSystem n k F C).run s (List.replicate 3 (.host false)) =
        some { s with joined := s.joined ++ [(k : ℕ)], pc := .joining k } := by
      simp [List.replicate_succ, StepSystem.run_cons, creationSystem, creationStep, createStep, hpc,
        hsignal, hstate]
    refine ⟨_, _, (creationSystem n k F C).run_trans hrun hjoin, fun h => ?_⟩
    have hk := h.joined_created k (List.mem_append_right _ List.mem_cons_self)
    rw [hs.created] at hk
    exact Nat.lt_irrefl _ (List.mem_range.mp hk)
  · intro as s ret hrun hret
    have hs := run_cleanupInv k.isLt hrun
    obtain ⟨hvisited, hcreated, hsent, hjoined, -, -, hpsched⟩ := hs
    have hnull := hpsched ret hret
    rw [hret] at hvisited hcreated hsent hjoined
    exact ⟨hcreated, hsent, hjoined, hvisited, hnull⟩

/-- One worker, whose thread cannot be created, is joined. -/
theorem create_failure_joins_uncreated :
    ¬ ∀ (n : ℕ) (k : Fin n) (as : List (CreationAction n)) (s : Creation n Unit Unit),
      (creationSystem n k Unit Unit).run (creationInit n Unit Unit) as = some s → CleansUp s := by
  intro h
  have hclean := h 1 0 (List.replicate 5 (.host false)) _ rfl
  exact absurd (hclean.joined_created 0 List.mem_cons_self) List.not_mem_nil

end Creation

end Mdb
