import Mdb.Library.StoreCalls
import Mdb.Sched.HostYield
import Mdb.Sched.Queue
import Mdb.Surface.Surface

/-!
The scheduler at work: the user function reads a task from the cells of the queue and stores into
the memory that the threads share, one store at a time and in between the steps of all the others.

A `Program` is what runs on the threads: the cells `rsched_queue_pop` points into, the user
function as the stores of a call, and what an event does to the state that the calls read. The
host delivers events between its calls. `machineStep` is a step of the scheduler, a store or an
event; a thread comes back from the user function only once it has made all its stores, and has no
step at all where it would read a cell outside the array.

* `run_machineInv`: the calls begun in a round are those of the scheduler, each with the stores
  the user function makes for it;
* `MachineInv.round_sequential`: when `rsched_host_yield` returns with success, the memory is as if
  the calls of the round had run one after the other, provided that they agree on what they store;
* `concurrent_round` says so of every run, and that the order is one of the tasks where no cell
  behind them is taken;
* `meets_machineWithin`: from which queues no run pops past the last cell.
-/

namespace Mdb

open StoreTrace
open Dispenser (Status)

/-! ### What a step does with the call of its thread -/

section Calls

variable {n : ℕ} {F C : Type*} {length : ℕ} {s s' : Sched n F C}

/-- The function and the context in the local variables of a thread. -/
def Sched.procArgs (s : Sched n F C) : Option (Fin n) → Option F × Option C
  | none => (s.procFun, s.procCtx)
  | some i => ((s.worker i).procFun, (s.worker i).procCtx)

/-- The step of a pop takes a task only where it expects the index. -/
lemma holding_of_pop {idx task : ℕ} {spurious : Bool} {pc : PopPc}
    (h : (rschedQueuePop length spurious idx pc).2.status = .holding task) :
    task = idx ∧ pc = .cas idx ∧ spurious = false := by
  obtain ⟨hpc, hsp, heq⟩ | ⟨-, heq⟩ | ⟨-, -, heq⟩ | ⟨-, -, heq⟩ :=
    rschedQueuePop_cases length spurious idx pc <;> rw [heq] at h
  · cases h
    exact ⟨rfl, hpc, hsp⟩
  all_goals cases h

lemma pop_not_calling {idx : ℕ} {spurious : Bool} {pc : PopPc} (task : ℕ) :
    (rschedQueuePop length spurious idx pc).2.status ≠ .calling task ∧
      popEvent (rschedQueuePop length spurious idx pc).2 ≠ .called task := by
  generalize (rschedQueuePop length spurious idx pc).2 = out
  cases out with
  | next pc => exact ⟨nofun, nofun⟩
  | ret task => cases task <;> exact ⟨nofun, nofun⟩

/-- A worker outside of the user function does not enter it; it takes a task only where it expects
the index. One that holds a task calls with it, and one inside the call returns. -/
lemma workerStep_call {idx idx' : ℕ} {spurious : Bool} {w w' : Worker F C} {ev : WorkerEvent}
    (h : workerStep length spurious idx w = some (idx', w', ev)) :
    (w.pc.status = .free ∧ (∀ task, w'.pc.status ≠ .calling task ∧ ev ≠ .called task) ∧
        ∀ task, w'.pc.status = .holding task →
          task = idx ∧ w.pc = .loopPop (.cas idx) ∧ spurious = false) ∨
      (∃ task, w.pc = .loopCall task ∧ w' = { w with pc := .loopProcFun task } ∧
        ev = .called task) ∨
      ∃ task, w.pc = .loopProcFun task ∧ w' = { w with pc := .loopReceive } ∧
        ev = .finished task := by
  have hheld : ∀ pc : WorkerPc, pc.holdsWord = true → pc.status = .free := fun pc hpc => by
    cases pc <;> first | rfl | cases hpc
  have hfree : ∀ {pc : WorkerPc} {ev : WorkerEvent} {P : ℕ → Prop}, pc.status = .free →
      (∀ task, ev ≠ .called task) → (∀ task, pc.status ≠ .calling task ∧ ev ≠ .called task) ∧
        ∀ task, pc.status = .holding task → P task := by
    intro pc ev P hst hev
    rw [hst]
    exact ⟨fun task => ⟨nofun, hev task⟩, nofun⟩
  rw [workerStep] at h
  cases hpc : w.pc <;> simp only [hpc, Option.some.injEq, Prod.mk.injEq, reduceCtorEq] at h
  case startLock =>
    split_ifs at h
    obtain ⟨-, rfl, rfl⟩ := Option.some.inj h
    exact Or.inl ⟨rfl, hfree rfl fun _ heq => by cases heq⟩
  case loopPop pc =>
    obtain ⟨-, rfl, rfl⟩ := h
    refine Or.inl ⟨rfl, fun task => ?_, fun task htask => ?_⟩
    · rw [status_popHandle]
      exact pop_not_calling task
    · rw [status_popHandle] at htask
      have hpop := holding_of_pop htask
      exact ⟨hpop.1, congrArg _ hpop.2.1, hpop.2.2⟩
  case loopCall task =>
    obtain ⟨-, rfl, rfl⟩ := h
    exact Or.inr (Or.inl ⟨task, rfl, rfl, rfl⟩)
  case loopProcFun task =>
    obtain ⟨-, rfl, rfl⟩ := h
    exact Or.inr (Or.inr ⟨task, rfl, rfl, rfl⟩)
  case yieldReceive =>
    obtain ⟨-, rfl, rfl⟩ := h
    exact Or.inl ⟨rfl, hfree (hheld _ (holds_yieldHandle _).1) fun _ heq => by cases heq⟩
  case startUnlock =>
    obtain ⟨-, rfl, rfl⟩ := h
    exact Or.inl ⟨rfl, hfree (hheld _ (holds_startHandle _).1) fun _ heq => by cases heq⟩
  case loopReceive =>
    obtain ⟨-, rfl, rfl⟩ := h
    exact Or.inl ⟨rfl, hfree (hheld _ (holds_loopHandle _).1) fun _ heq => by cases heq⟩
  all_goals
    obtain ⟨-, rfl, rfl⟩ := h
    exact Or.inl ⟨rfl, hfree rfl fun _ heq => by cases heq⟩

lemma status_setFrom (k : ℕ) : (setFrom k : HostPc n).status = .free := by
  rw [setFrom]
  split <;> rfl

/-- The same for the host; it moves no worker and sets neither function nor context. -/
lemma hostStep_call {spurious : Bool} (h : hostStep length spurious s = some s') :
    (s.pc.status = .free ∧ (∀ task, s'.pc.status ≠ .calling task) ∧ s'.called = s.called ∧
        ∀ task, s'.pc.status = .holding task →
          task = s.idx ∧ s.pc = .pop (.cas s.idx) ∧ spurious = false) ∨
      (∃ task, s.pc = .call task ∧ s'.pc = .procFun task ∧
        s'.called = s.called ++ [⟨none, task, s.procFun, s.procCtx⟩]) ∨
      ∃ task, s.pc = .procFun task ∧ s'.pc = .pop .load ∧ s'.called = s.called := by
  have hfree : ∀ {t : Sched n F C} {P : ℕ → Prop}, t.pc.status = .free → t.called = s.called →
      (∀ task, t.pc.status ≠ .calling task) ∧ t.called = s.called ∧
        ∀ task, t.pc.status = .holding task → P task := by
    intro t P hst hcalled
    rw [hst]
    exact ⟨nofun, hcalled, nofun⟩
  rw [hostStep] at h
  cases hpc : s.pc <;> simp only [hpc, Option.some.injEq, reduceCtorEq] at h
  case setLock k =>
    split_ifs at h
    rw [← Option.some.inj h]
    exact Or.inl ⟨rfl, hfree rfl rfl⟩
  all_goals subst h
  case pop pc =>
    refine Or.inl ⟨rfl, fun task => ?_, ?_, fun task htask => ?_⟩
    · rw [record_pc, status_hostPopHandle]
      exact (pop_not_calling task).1
    · generalize hout : (rschedQueuePop length spurious s.idx pc).2 = out
      cases out with
      | next pc => rfl
      | ret task => cases task <;> rfl
    · rw [record_pc, status_hostPopHandle] at htask
      have hpop := holding_of_pop htask
      exact ⟨hpop.1, congrArg _ hpop.2.1, hpop.2.2⟩
  case call task => exact Or.inr (Or.inl ⟨task, rfl, rfl, rfl⟩)
  case procFun task => exact Or.inr (Or.inr ⟨task, rfl, rfl, rfl⟩)
  case waitSignal caller k =>
    have hst : ∀ b : Prop, ∀ [Decidable b],
        (if b then HostPc.waitState caller k else .waitSignal caller k).status = .free := by
      intro b _
      split_ifs <;> rfl
    exact Or.inl ⟨rfl, hfree (hst _) rfl⟩
  case waitState caller k =>
    have hst : (waitHandle caller k (s.worker k).state).status = .free := by
      cases (s.worker k).state with
      | waiting => exact status_waitFrom caller _
      | down => cases caller <;> rfl
      | _ => rfl
    exact Or.inl ⟨rfl, hfree hst rfl⟩
  case setUnlock k =>
    exact Or.inl ⟨rfl, hfree (status_setFrom _) rfl⟩
  case send k esig =>
    have hst : (sendHandle k ((s.worker k).sendExchange .start esig spurious).2).status
        = .free := by
      generalize ((s.worker k).sendExchange .start esig spurious).2 = esig'
      cases esig' with
      | none => exact status_sendFrom _
      | some esig' => rfl
    exact Or.inl ⟨rfl, hfree hst rfl⟩
  all_goals exact Or.inl ⟨rfl, hfree rfl rfl⟩

/-- The host does not set the function and the context of the scheduler in a step inside a call. -/
lemma hostStep_user {spurious : Bool} (h : hostStep length spurious s = some s') :
    s'.userFun = s.userFun ∧ s'.userCtx = s.userCtx := by
  rw [hostStep] at h
  cases hpc : s.pc <;> simp only [hpc, Option.some.injEq, reduceCtorEq] at h
  case setLock k =>
    split_ifs at h
    rw [← Option.some.inj h]
    exact ⟨rfl, rfl⟩
  all_goals subst h
  case pop pc => exact ⟨by rw [record_userFun], by rw [record_userCtx]⟩
  all_goals exact ⟨rfl, rfl⟩

/-- The host enters a round only by a call of `rsched_host_yield`. -/
lemma hostStep_inRound {spurious : Bool} (h : hostStep length spurious s = some s')
    (hround : s'.pc.inRound = true) : s.pc.inRound = true := by
  rw [hostStep] at h
  cases hpc : s.pc <;> simp only [hpc, Option.some.injEq, reduceCtorEq] at h <;> try rfl
  case setLock k =>
    split_ifs at h
    rw [← Option.some.inj h] at hround
    exact hround
  all_goals subst h
  case waitSignal caller k =>
    cases caller with
    | create => split_ifs at hround <;> exact hround
    | yield => rfl
  case waitState caller k =>
    cases caller with
    | create =>
        cases hst : (s.worker k).state <;> simp only [hst, waitHandle] at hround
        case waiting => cases (inRound_waitFrom .create _).mp hround
        all_goals exact hround
    | yield => rfl
  case setUnlock k => cases (inRound_setFrom _).symm.trans hround
  all_goals exact hround

/-! ### The thread that takes a step -/

/-- The thread that takes a step inside a call. -/
def SchedAction.thread : SchedAction n F C → Option (Option (Fin n))
  | .worker i _ => some (some i)
  | .host _ => some none
  | _ => none

/-- The step is the exchange of a pop that succeeds. -/
def Takes (s : Sched n F C) : SchedAction n F C → Prop
  | .worker i spurious => (s.worker i).pc = .loopPop (.cas s.idx) ∧ spurious = false
  | .host spurious => s.pc = .pop (.cas s.idx) ∧ spurious = false
  | _ => False

instance (s : Sched n F C) : (a : SchedAction n F C) → Decidable (Takes s a)
  | .worker _ _ => inferInstanceAs (Decidable (_ ∧ _))
  | .host _ => inferInstanceAs (Decidable (_ ∧ _))
  | .setUserContext _ _ | .hostYield | .requeue => isFalse id

/-- The task a thread takes lies within the first `cap` cells. -/
def PopsWithin (cap : ℕ) (s : Sched n F C) (a : SchedAction n F C) : Prop :=
  Takes s a → s.idx < cap

instance (cap : ℕ) (s : Sched n F C) (a : SchedAction n F C) : Decidable (PopsWithin cap s a) :=
  inferInstanceAs (Decidable (_ → _))

lemma PopsWithin.noWrap {cap : ℕ} {a : SchedAction n F C} (hcap : cap < 2 ^ 32)
    (h : PopsWithin cap s a) : NoWrap s a := by
  cases a with
  | worker i spurious =>
      intro hpc hsp
      have hidx := h ⟨hpc, hsp⟩
      omega
  | host spurious =>
      intro hpc hsp
      have hidx := h ⟨hpc, hsp⟩
      omega
  | _ => trivial

/-- **What a step of a thread does with its call.** It stays outside, where it takes a task at most
by an exchange; it begins the call of the task it holds; or it returns from its call. Nothing else
happens to the calls, nor to what the other threads carry. -/
lemma schedStep_thread {a : SchedAction n F C} {t : Option (Fin n)} (ht : a.thread = some t)
    (h : schedStep length s a = some s') :
    ((s'.userFun = s.userFun ∧ s'.userCtx = s.userCtx) ∧
        (s'.pc.inRound = true → s.pc.inRound = true) ∧
        ∀ u, u ≠ t → s'.ledger.status u = s.ledger.status u) ∧
      ((s.ledger.status t = .free ∧ (∀ task, s'.ledger.status t ≠ .calling task) ∧
          s'.called = s.called ∧
          ∀ task, s'.ledger.status t = .holding task → task = s.idx ∧ Takes s a) ∨
        (∃ task, s.ledger.status t = .holding task ∧ s'.ledger.status t = .calling task ∧
          s'.called = s.called ++ [⟨t, task, (s.procArgs t).1, (s.procArgs t).2⟩]) ∨
        ∃ task, s.ledger.status t = .calling task ∧ s'.ledger.status t = .free ∧
          s'.called = s.called) := by
  cases a with
  | worker i spurious =>
      obtain rfl : some i = t := Option.some.inj ht
      obtain ⟨idx, w, ev, hw, rfl⟩ := schedStep_worker_inv h
      rw [ledger_worker]
      refine ⟨⟨⟨record_userFun .., record_userCtx ..⟩, fun hround => by rwa [record_pc] at hround,
        fun u hu => Function.update_of_ne hu _ _⟩, ?_⟩
      have hself : (s.ledger.record (some i) ev.task idx w.pc.status).status (some i)
          = w.pc.status := Function.update_self ..
      have hst : s.ledger.status (some i) = (s.worker i).pc.status := rfl
      rw [hself, hst]
      obtain ⟨hfree, hcall, hhold⟩ | ⟨task, hpc, rfl, rfl⟩ | ⟨task, hpc, rfl, rfl⟩ :=
        workerStep_call hw
      · refine Or.inl ⟨hfree, fun task => (hcall task).1, ?_, fun task htask => ?_⟩
        · cases ev with
          | called task => exact absurd rfl (hcall task).2
          | _ => rfl
        · obtain ⟨htask, hpc, hsp⟩ := hhold task htask
          exact ⟨htask, hpc, hsp⟩
      · exact Or.inr (Or.inl ⟨task, by rw [hpc]; rfl, rfl, rfl⟩)
      · exact Or.inr (Or.inr ⟨task, by rw [hpc]; rfl, rfl, rfl⟩)
  | host spurious =>
      obtain rfl : none = t := Option.some.inj ht
      refine ⟨⟨hostStep_user h, hostStep_inRound h, fun u hu => ?_⟩, ?_⟩
      · obtain ⟨i, rfl⟩ := Option.ne_none_iff_exists'.mp hu
        exact congrArg WorkerPc.status (hostStep_worker_pc h i)
      · have hst : ∀ r : Sched n F C, r.ledger.status none = r.pc.status := fun r => rfl
        rw [hst, hst]
        obtain ⟨hfree, hcall, hcalled, hhold⟩ | ⟨task, hpc, hpc', hcalled⟩ |
            ⟨task, hpc, hpc', hcalled⟩ := hostStep_call h
        · refine Or.inl ⟨hfree, hcall, hcalled, fun task htask => ?_⟩
          obtain ⟨htask, hpc, hsp⟩ := hhold task htask
          exact ⟨htask, hpc, hsp⟩
        · exact Or.inr (Or.inl ⟨task, by rw [hpc]; rfl, by rw [hpc']; rfl, hcalled⟩)
        · exact Or.inr (Or.inr ⟨task, by rw [hpc]; rfl, by rw [hpc']; rfl, hcalled⟩)
  | _ => cases ht

/-- Between the calls of the host no thread carries a task. -/
lemma SchedInv.free_of_between (hinv : SchedInv length s) (hpc : s.pc.between = true)
    (t : Option (Fin n)) : s.ledger.status t = .free := by
  cases t with
  | none =>
      show s.pc.status = .free
      cases h : s.pc with
      | call task => rw [h] at hpc; cases hpc
      | procFun task => rw [h] at hpc; cases hpc
      | _ => rfl
  | some i => exact (hinv.barrier.of_between hpc i).1.status_eq

/-- Nor does it as the host enters its next call. -/
lemma SchedInv.free_of_entered (hinv : SchedInv length s) (hpc : s.pc.between = true)
    (hworker : s'.worker = s.worker) (hpc' : s'.pc.status = .free) (t : Option (Fin n)) :
    s'.ledger.status t = .free := by
  cases t with
  | none => exact hpc'
  | some i =>
      show (s'.worker i).pc.status = .free
      rw [hworker]
      exact hinv.free_of_between hpc (some i)

/-- A worker that may have gone past its yield is one of a round. -/
lemma inRound_of_level {pc : HostPc n} {i : Fin n} (h : pc.level i = .past ∨ pc.level i = .any) :
    pc.inRound = true := by
  rcases h with h | h
  · cases pc with
    | waitState caller k =>
        cases caller with
        | create =>
            rw [HostPc.level, WaitCaller.level, WaitCaller.seen] at h
            split_ifs at h
        | yield => rfl
    | waitSignal caller k =>
        rw [HostPc.level] at h
        split_ifs at h
        cases caller <;> cases h
    | send k esig =>
        rw [HostPc.level] at h
        split_ifs at h
    | _ => cases h
  · exact (level_eq_any h).1

/-- A worker about to call runs the task loop. -/
lemma Worker.At.running {fn : Option F} {ctx : Option C} {w : Worker F C} {l : Level} {task : ℕ}
    (h : w.At fn ctx l) (hpc : w.pc = .loopCall task) :
    w.Running fn ctx ∧ (l = .past ∨ l = .any) := by
  have hparked : ¬ w.Parked := fun hw => by rwa [Worker.Parked, hpc] at hw
  have harriving : ¬ w.Arriving := fun hw => by cases hpc.symm.trans hw.1
  have hstarting : ¬ w.Starting fn ctx := fun hw => by rwa [Worker.Starting, hpc] at hw
  cases l with
  | parked => exact absurd h hparked
  | resting => exact absurd h (not_or.mpr ⟨hparked, harriving⟩)
  | past => exact ⟨(h.resolve_left hparked).resolve_left harriving, Or.inl rfl⟩
  | any =>
      exact ⟨((h.resolve_left hparked).resolve_left harriving).resolve_right hstarting, Or.inr rfl⟩

/-- A thread that holds a task has the function and the context of the scheduler, and there is a
function. -/
lemma SchedInv.procArgs_of_holding (hinv : SchedInv length s) {t : Option (Fin n)} {task : ℕ}
    (h : s.ledger.status t = .holding task) :
    s.procArgs t = (s.userFun, s.userCtx) ∧ s.userFun ≠ none := by
  cases t with
  | none =>
      have hround : s.pc.inRound = true := by
        change s.pc.status = _ at h
        cases hpc : s.pc with
        | call task => rfl
        | _ =>
            rw [hpc] at h
            cases h
      obtain ⟨hnone, hfun, hctx⟩ := hinv.barrier.armed hround
      exact ⟨Prod.ext hfun hctx, hnone⟩
  | some i =>
      have hpc : (s.worker i).pc = .loopCall task := by
        change (s.worker i).pc.status = _ at h
        cases hw : (s.worker i).pc <;> rw [hw] at h <;> cases h
        rfl
      obtain ⟨hrun, hlevel⟩ := (hinv.barrier.at_level i).running hpc
      rw [Worker.Running, hpc] at hrun
      exact ⟨Prod.ext hrun.2.2.2 hrun.2.2.1,
        (hinv.barrier.armed (inRound_of_level hlevel)).1⟩

/-- No run pops past the last cell where the array has a cell behind the tasks, or where the host
has no workers. -/
lemma ExpectsInv.popsWithin {cap : ℕ} (hinv : ExpectsInv length s)
    (h : length < cap ∨ n = 0 ∧ length ≤ cap) (a : SchedAction n F C) : PopsWithin cap s a := by
  cases a with
  | worker i spurious =>
      intro hpc
      have hle := hinv.worker i _ hpc.1
      rcases h with h | ⟨rfl, -⟩
      · omega
      · exact i.elim0
  | host spurious =>
      intro hpc
      have hle := hinv.host _ hpc.1
      rcases h with h | ⟨hn, h⟩
      · omega
      · rcases hle.lt_or_eq with hlt | heq
        · omega
        · have hidx := hinv.alone hn (heq ▸ hpc.1)
          omega
  | _ => exact fun htakes => htakes.elim

/-- The tasks that threads hold, and those of the calls of a round, are among the first `cap`. -/
structure TasksWithin (cap : ℕ) (s : Sched n F C) : Prop where
  held : ∀ t task, s.ledger.status t = .holding task → task < cap
  called : s.pc.inRound = true → ∀ e ∈ s.called, e.task < cap

lemma tasksWithin_init (cap : ℕ) : TasksWithin cap (schedInit n F C) where
  held := fun t task htask => by
    cases t with
    | none =>
        change (waitFrom .create 0 : HostPc n).status = _ at htask
        rw [waitFrom] at htask
        split at htask <;> cases htask
    | some i => cases htask
  called := fun hr => by cases (inRound_waitFrom .create 0).mp hr

/-- A thread takes only tasks among the first `cap`, and calls with those that it has taken. -/
lemma thread_tasksWithin {cap : ℕ} (htasks : TasksWithin cap s) {a : SchedAction n F C}
    {t : Option (Fin n)} (ht : a.thread = some t) (hpops : PopsWithin cap s a)
    (h : schedStep length s a = some s') : TasksWithin cap s' := by
  obtain ⟨⟨-, hround, hother⟩, hthread⟩ := schedStep_thread ht h
  have hheld : (∀ task, s'.ledger.status t = .holding task → task < cap) →
      ∀ u task, s'.ledger.status u = .holding task → task < cap := by
    intro hself u task htask
    by_cases hu : u = t
    · exact hself task (hu ▸ htask)
    · exact htasks.held u task (by rw [← hother u hu]; exact htask)
  obtain ⟨-, -, hcalled, hhold⟩ | ⟨task, hst, hst', hcalled⟩ | ⟨task, -, hst', hcalled⟩ := hthread
  · refine ⟨hheld fun task htask => ?_, fun hr => hcalled ▸ htasks.called (hround hr)⟩
    obtain ⟨rfl, htakes⟩ := hhold task htask
    exact hpops htakes
  · refine ⟨hheld fun task' htask => ?_, fun hr e he => ?_⟩
    · rw [hst'] at htask
      cases htask
    · rw [hcalled] at he
      rcases List.mem_append.mp he with he | he
      · exact htasks.called (hround hr) e he
      · obtain rfl := List.mem_singleton.mp he
        exact htasks.held t task hst
  · refine ⟨hheld fun task' htask => ?_, fun hr => hcalled ▸ htasks.called (hround hr)⟩
    rw [hst'] at htask
    cases htask

/-- A step of the scheduler keeps the tasks among the first `cap`. -/
lemma step_tasksWithin {cap : ℕ} (hinv : SchedInv length s) (htasks : TasksWithin cap s)
    {a : SchedAction n F C} (hpops : PopsWithin cap s a) (h : schedStep length s a = some s') :
    TasksWithin cap s' := by
  -- as the host enters a call, no thread holds a task
  have henter : s.pc.between = true → s'.worker = s.worker → s'.pc.status = .free →
      (s'.pc.inRound = true → s'.called = []) → TasksWithin cap s' := by
    refine fun hpc hworker hpc' hcalled => ⟨fun t task htask => ?_, fun hr e he => ?_⟩
    · rw [hinv.free_of_entered hpc hworker hpc'] at htask
      cases htask
    · rw [hcalled hr] at he
      cases he
  cases a with
  | worker i spurious => exact thread_tasksWithin htasks rfl hpops h
  | host spurious => exact thread_tasksWithin htasks rfl hpops h
  | setUserContext userFun userCtx =>
      obtain ⟨hpc, rfl⟩ := schedStep_setUserContext_inv h
      exact henter hpc rfl (status_setFrom 0) fun hr => by cases (inRound_setFrom _).symm.trans hr
  | hostYield =>
      obtain ⟨hpc, -, pc, rfl, hpc'⟩ := schedStep_hostYield_inv h
      have hstatus : pc.status = .free := by
        rcases hpc' with rfl | ⟨-, rfl⟩
        · rfl
        · rw [sendFrom]
          split <;> rfl
      exact henter hpc rfl hstatus fun _ => rfl
  | requeue =>
      obtain ⟨hpc, rfl⟩ := schedStep_requeue_inv h
      exact henter hpc rfl rfl fun hr => by cases hr

/-- The waits for the workers have not failed, and `rsched_host_yield` has failed only for the lack
of a function. -/
def NeverFails (s : Sched n F C) : Prop :=
  s.pc ≠ .failed ∧ (s.pc = .returned false → s.userFun = none)

lemma neverFails_of_ne (hpc : s.pc ≠ .failed) (hpc' : s.pc ≠ .returned false) : NeverFails s :=
  ⟨hpc, fun h => absurd h hpc'⟩

lemma waitFrom_not_failed (caller : WaitCaller) (k : ℕ) :
    (waitFrom caller k : HostPc n) ≠ .failed ∧ (waitFrom caller k : HostPc n) ≠ .returned false := by
  rw [waitFrom]
  split
  · simp
  · cases caller <;> simp [waitSuccess]

/-- No wait fails: a worker that the host waits for is not down. -/
lemma step_neverFails {a : SchedAction n F C} (hbar : BarrierInv s) (hs : NeverFails s)
    (h : schedStep length s a = some s') : NeverFails s' := by
  cases a with
  | worker i spurious =>
      obtain ⟨idx, w, ev, -, rfl⟩ := schedStep_worker_inv h
      rw [NeverFails, record_pc, record_userFun]
      exact hs
  | host spurious =>
      rw [schedStep, hostStep] at h
      cases hpc : s.pc <;> simp only [hpc, Option.some.injEq, reduceCtorEq] at h
      case setLock k =>
        split_ifs at h
        rw [← Option.some.inj h]
        simp [NeverFails]
      all_goals subst h
      case waitSignal caller k =>
        refine neverFails_of_ne ?_ ?_ <;> split_ifs <;> simp
      case waitState caller k =>
        have hk := hbar.at_level k
        rw [hpc, HostPc.level, if_neg (lt_irrefl k), if_pos rfl] at hk
        cases hst : (s.worker k).state with
        | waiting =>
            obtain ⟨hfailed, hreturned⟩ := waitFrom_not_failed (n := n) caller (k + 1)
            exact neverFails_of_ne hfailed hreturned
        | down => exact absurd hst hk.unseen.1.not_down
        | unset => exact neverFails_of_ne (by simp [waitHandle]) (by simp [waitHandle])
        | running => exact neverFails_of_ne (by simp [waitHandle]) (by simp [waitHandle])
      case setUnlock k =>
        refine neverFails_of_ne ?_ ?_ <;> rw [setFrom] <;> split <;> simp
      case send k esig =>
        have hsend : ∀ esig', (sendHandle k esig' : HostPc n) ≠ .failed ∧
            (sendHandle k esig' : HostPc n) ≠ .returned false := by
          intro esig'
          cases esig' with
          | none =>
              rw [sendHandle, sendFrom]
              split <;> simp
          | some esig' => simp [sendHandle]
        exact neverFails_of_ne (hsend _).1 (hsend _).2
      case pop pc =>
        rw [NeverFails, record_pc]
        have hpop : ∀ out, (hostPopHandle out : HostPc n) ≠ .failed ∧
            (hostPopHandle out : HostPc n) ≠ .returned false := by
          intro out
          cases out with
          | next pc => simp [hostPopHandle]
          | ret task =>
              cases task with
              | none => exact waitFrom_not_failed .yield 0
              | some task => simp [hostPopHandle]
        exact ⟨(hpop _).1, fun heq => absurd heq (hpop _).2⟩
      all_goals simp [NeverFails]
  | setUserContext userFun userCtx =>
      obtain ⟨-, rfl⟩ := schedStep_setUserContext_inv h
      refine neverFails_of_ne ?_ ?_ <;> rw [setFrom] <;> split <;> simp
  | hostYield =>
      rw [schedStep] at h
      split_ifs at h with _ hnull
      · rw [← Option.some.inj h]
        exact ⟨by simp, fun _ => Option.isNone_iff_eq_none.mp hnull⟩
      · rw [← Option.some.inj h]
        refine neverFails_of_ne ?_ ?_ <;> rw [sendFrom] <;> split <;> simp
  | requeue =>
      obtain ⟨-, rfl⟩ := schedStep_requeue_inv h
      simp [NeverFails]

end Calls

/-! ### The machine -/

/-- What runs on the threads: the cells behind `queue->tasks` and the length of the queue; the user
function, given by the stores of a call, `none` where it does not return; and what an event does
to the state that the calls read. -/
structure Program (V F C E α : Type*) where
  cells : List (Option RschedTask)
  length : ℕ
  proc : V → F → Option C → RschedTask → Option (List (PixelStore α))
  handle : V → E → V

/-- The scheduler, the state that the calls read, and the memory that they store into. -/
structure Machine (n : ℕ) (V F C α : Type*) where
  sched : Sched n F C
  view : V
  calls : StoreCalls (Option (Fin n)) ℕ α

/-- The steps: of the scheduler; of a thread inside the user function, which makes its next store;
and the delivery of an event. -/
inductive MachineAction (n : ℕ) (F C E : Type*) where
  | sched (a : SchedAction n F C)
  | store (t : Option (Fin n))
  | event (e : E)

section Machine

variable {n : ℕ} {V F C E α : Type*} (P : Program V F C E α)

/-- The stores of a call with the cell `task` of the queue. There are none, and no call, without
a function, outside the array and in a cell that has not been initialised. -/
def Program.callStores (view : V) (fn : Option F) (ctx : Option C) (task : ℕ) :
    Option (List (PixelStore α)) :=
  fn.bind fun f => P.cells[task]?.join.bind (P.proc view f ctx)

/-- What the step of a thread does to the calls. -/
def Program.threadCalls (s : Machine n V F C α) (t : Option (Fin n)) :
    Option (StoreCalls (Option (Fin n)) ℕ α) :=
  match s.sched.ledger.status t with
  | .free => some s.calls
  | .holding task =>
      (P.callStores s.view (s.sched.procArgs t).1 (s.sched.procArgs t).2 task).map
        (s.calls.begin t)
  | .calling _ => if (s.calls.todo t).isEmpty then some s.calls else none

/-- What a step of the scheduler does to the calls. -/
def Program.schedCalls (s : Machine n V F C α) :
    SchedAction n F C → Option (StoreCalls (Option (Fin n)) ℕ α)
  | .worker i _ => P.threadCalls s (some i)
  | .host _ => P.threadCalls s none
  | .hostYield => some s.calls.restart
  | .setUserContext _ _ | .requeue => some s.calls

/-- A step of the machine. -/
def machineStep (s : Machine n V F C α) : MachineAction n F C E → Option (Machine n V F C α)
  | .sched a =>
      (schedStep P.length s.sched a).bind fun sched =>
        (P.schedCalls s a).map fun calls => { s with sched := sched, calls := calls }
  | .store t => (s.calls.store t).map fun calls => { s with calls := calls }
  | .event e =>
      if s.sched.pc = .idle then some { s with view := P.handle s.view e } else none

/-- The machine as a step system. -/
def machineSystem (n : ℕ) (P : Program V F C E α) :
    StepSystem (Machine n V F C α) (MachineAction n F C E) :=
  ⟨machineStep P⟩

/-- `rsched_create` has created the workers. -/
def machineInit (n : ℕ) (F C : Type*) (view : V) (mem : ℕ → α) : Machine n V F C α :=
  ⟨schedInit n F C, view, .init mem⟩

/-- A step of the scheduler inside the machine takes a task among the first `cap`. -/
def TakesWithin (cap : ℕ) (s : Machine n V F C α) : MachineAction n F C E → Prop
  | .sched a => PopsWithin cap s.sched a
  | _ => True

instance (cap : ℕ) (s : Machine n V F C α) :
    (a : MachineAction n F C E) → Decidable (TakesWithin cap s a)
  | .sched a => inferInstanceAs (Decidable (PopsWithin cap s.sched a))
  | .store _ | .event _ => isTrue trivial

/-- A step of the scheduler inside the machine takes a task within the array. -/
def MachineWithin (s : Machine n V F C α) (a : MachineAction n F C E) : Prop :=
  TakesWithin P.cells.length s a

variable {P} {s s' : Machine n V F C α}

lemma machineStep_sched_inv {a : SchedAction n F C} (h : machineStep P s (.sched a) = some s') :
    ∃ sched calls, schedStep P.length s.sched a = some sched ∧ P.schedCalls s a = some calls ∧
      s' = { s with sched := sched, calls := calls } := by
  rw [machineStep, Option.bind_eq_some_iff] at h
  obtain ⟨sched, hsched, h⟩ := h
  obtain ⟨calls, hcalls, rfl⟩ := Option.map_eq_some_iff.mp h
  exact ⟨sched, calls, hsched, hcalls, rfl⟩

/-- Only an event changes the state that the calls read. -/
lemma machineStep_view {a : MachineAction n F C E} (h : machineStep P s a = some s') :
    s'.view = match a with
      | .event e => P.handle s.view e
      | _ => s.view := by
  cases a with
  | sched a =>
      obtain ⟨sched, calls, -, -, rfl⟩ := machineStep_sched_inv h
      rfl
  | store t =>
      obtain ⟨calls, -, rfl⟩ := Option.map_eq_some_iff.mp h
      rfl
  | event e =>
      rw [machineStep] at h
      split_ifs at h
      obtain rfl := Option.some.inj h
      rfl

/-! ### The invariant -/

/-- The tasks that threads hold lie within the array; the calls begun in a round are those of the
scheduler, each with the stores that the user function makes for it; and outside of its calls a
thread has nothing to store. -/
structure MachineInv (P : Program V F C E α) (s : Machine n V F C α) : Prop where
  sched : SchedInv P.length s.sched
  tasks : TasksWithin P.cells.length s.sched
  calls : s.calls.Inv
  outside : ∀ t, (∀ task, s.sched.ledger.status t ≠ .calling task) → s.calls.todo t = []
  begun : s.sched.pc.inRound = true →
    s.sched.called.map (fun e => P.callStores s.view s.sched.userFun s.sched.userCtx e.task)
      = s.calls.begun.map some

/-- A thread that takes a step keeps the invariant. -/
lemma thread_machineInv (hinv : MachineInv P s) {a : SchedAction n F C} {t : Option (Fin n)}
    {sched : Sched n F C} {calls : StoreCalls (Option (Fin n)) ℕ α} (ht : a.thread = some t)
    (hsched : schedStep P.length s.sched a = some sched) (hinv' : SchedInv P.length sched)
    (htasks : TasksWithin P.cells.length sched) (hcalls : P.threadCalls s t = some calls) :
    MachineInv P { s with sched := sched, calls := calls } := by
  obtain ⟨⟨⟨hfun, hctx⟩, hround, hother⟩, hthread⟩ := schedStep_thread ht hsched
  rw [Program.threadCalls] at hcalls
  obtain ⟨hfree, -, hcalled, -⟩ | ⟨task, hst, hst', hcalled⟩ | ⟨task, hst, hst', hcalled⟩ :=
    hthread
  · -- outside of the user function
    simp only [hfree, Option.some.injEq] at hcalls
    subst hcalls
    refine ⟨hinv', htasks, hinv.calls, fun u hu => ?_, fun hr => ?_⟩
    · by_cases hut : u = t
      · exact hinv.outside u fun task => by rw [hut, hfree]; exact nofun
      · exact hinv.outside u fun task => by rw [← hother u hut]; exact hu task
    · dsimp only
      rw [hcalled, hfun, hctx]
      exact hinv.begun (hround hr)
  · -- the call begins
    simp only [hst] at hcalls
    obtain ⟨st, hstores, rfl⟩ := Option.map_eq_some_iff.mp hcalls
    have hnone : s.calls.todo t = [] := hinv.outside t fun task' => by rw [hst]; exact nofun
    refine ⟨hinv', htasks, hinv.calls.begin hnone st, fun u hu => ?_, fun hr => ?_⟩
    · have hut : u ≠ t := fun heq => hu task (heq ▸ hst')
      dsimp only
      rw [StoreCalls.begin_todo, Function.update_of_ne hut]
      exact hinv.outside u fun task => by rw [← hother u hut]; exact hu task
    · have hargs := (hinv.sched.procArgs_of_holding hst).1
      dsimp only
      rw [hcalled, hfun, hctx, StoreCalls.begin_begun, List.map_append, List.map_append,
        hinv.begun (hround hr), List.map_singleton, List.map_singleton]
      rw [hargs] at hstores
      rw [hstores]
  · -- the call returns, having made its stores
    simp only [hst] at hcalls
    split_ifs at hcalls with hempty
    obtain rfl := Option.some.inj hcalls
    refine ⟨hinv', htasks, hinv.calls, fun u hu => ?_, fun hr => ?_⟩
    · by_cases hut : u = t
      · exact hut ▸ List.isEmpty_iff.mp hempty
      · exact hinv.outside u fun task => by rw [← hother u hut]; exact hu task
    · dsimp only
      rw [hcalled, hfun, hctx]
      exact hinv.begun (hround hr)

/-- A step that takes its task within the array keeps the invariant. -/
lemma step_machineInv (hcap : P.cells.length < 2 ^ 32) {a : MachineAction n F C E}
    (hinv : MachineInv P s) (hwithin : MachineWithin P s a) (h : machineStep P s a = some s') :
    MachineInv P s' := by
  cases a with
  | sched a =>
      obtain ⟨sched, calls, hsched, hcalls, rfl⟩ := machineStep_sched_inv h
      have hinv' := step_schedInv hinv.sched (PopsWithin.noWrap hcap hwithin) hsched
      have htasks := step_tasksWithin hinv.sched hinv.tasks hwithin hsched
      -- between the calls of the host no thread carries a task
      have hfree : s.sched.pc.between = true → ∀ t, s.calls.todo t = [] := fun hpc t =>
        hinv.outside t fun task => by simp [hinv.sched.free_of_between hpc]
      cases a with
      | worker i spurious => exact thread_machineInv hinv rfl hsched hinv' htasks hcalls
      | host spurious => exact thread_machineInv hinv rfl hsched hinv' htasks hcalls
      | setUserContext userFun userCtx =>
          obtain ⟨hpc, rfl⟩ := schedStep_setUserContext_inv hsched
          obtain rfl := Option.some.inj hcalls
          refine ⟨hinv', htasks, hinv.calls, fun t _ => hfree hpc t, fun hr => ?_⟩
          cases (inRound_setFrom _).symm.trans hr
      | hostYield =>
          obtain ⟨hpc, -, pc, rfl, -⟩ := schedStep_hostYield_inv hsched
          obtain rfl := Option.some.inj hcalls
          exact ⟨hinv', htasks, StoreCalls.inv_restart (hfree hpc), fun t _ => hfree hpc t,
            fun _ => rfl⟩
      | requeue =>
          obtain ⟨hpc, rfl⟩ := schedStep_requeue_inv hsched
          obtain rfl := Option.some.inj hcalls
          refine ⟨hinv', htasks, hinv.calls, fun t _ => hfree hpc t, fun hr => ?_⟩
          cases hr
  | store t =>
      obtain ⟨calls, hcalls, rfl⟩ := Option.map_eq_some_iff.mp h
      obtain ⟨x, rest, htodo, hcalls'⟩ := StoreCalls.store_inv hcalls
      refine ⟨hinv.sched, hinv.tasks, hinv.calls.store hcalls, fun u hu => ?_, fun hr => ?_⟩
      · have hnone := hinv.outside u hu
        have hut : u ≠ t := fun heq => by
          rw [← heq, hnone] at htodo
          cases htodo
        rw [hcalls']
        exact (Function.update_of_ne hut _ _).trans hnone
      · rw [hcalls']
        exact hinv.begun hr
  | event e =>
      rw [machineStep] at h
      split_ifs at h with hpc
      obtain rfl := Option.some.inj h
      refine ⟨hinv.sched, hinv.tasks, hinv.calls, hinv.outside, fun hr => ?_⟩
      dsimp only at hr
      rw [hpc] at hr
      cases hr

lemma machineInv_init (view : V) (mem : ℕ → α) : MachineInv P (machineInit n F C view mem) where
  sched := ⟨barrierInv_init, fun hr => by cases (inRound_waitFrom .create 0).mp hr⟩
  tasks := tasksWithin_init _
  calls := StoreCalls.inv_init mem
  outside := fun _ _ => rfl
  begun := fun hr => by cases (inRound_waitFrom .create 0).mp hr

/-- **The machine.** Its invariant holds after every run that takes its tasks within the array. -/
theorem run_machineInv (hcap : P.cells.length < 2 ^ 32) {view : V} {mem : ℕ → α}
    {as : List (MachineAction n F C E)}
    (hwithin : (machineSystem n P).Meets (MachineWithin P) (machineInit n F C view mem) as)
    (hrun : (machineSystem n P).run (machineInit n F C view mem) as = some s) : MachineInv P s :=
  (machineSystem n P).run_induct_of_meets
    (fun _ _ _ hinv hwithin hstep => step_machineInv hcap hinv hwithin hstep)
    (machineInv_init view mem) hwithin hrun

/-- A thread that holds a task calls with an initialised cell of the queue, with the function and
the context of the scheduler. -/
lemma MachineInv.threadCalls_eq (hinv : MachineInv P s) {t : Option (Fin n)} {task : ℕ}
    (h : s.sched.ledger.status t = .holding task) :
    ∃ f, s.sched.userFun = some f ∧ ∃ hlt : task < P.cells.length,
      P.threadCalls s t = ((P.cells[task]).bind (P.proc s.view f s.sched.userCtx)).map
        (s.calls.begin t) := by
  obtain ⟨hargs, hfun⟩ := hinv.sched.procArgs_of_holding h
  obtain ⟨f, hf⟩ := Option.ne_none_iff_exists'.mp hfun
  have hlt := hinv.tasks.held t task h
  refine ⟨f, hf, hlt, ?_⟩
  rw [Program.threadCalls, h]
  dsimp only
  rw [hargs, hf, Program.callStores, Option.bind_some, List.getElem?_eq_getElem hlt,
    Option.join_some]

/-- **A round runs as if its calls had run one after the other**: when `rsched_host_yield` returns
with success, the memory is what the calls of the round, in the order in which they began, make of
the one the round started with, provided that they agree on what they store where. -/
theorem MachineInv.round_sequential (hinv : MachineInv P s) (hpc : s.sched.pc = .returned true) :
    ∃ sts : List (List (PixelStore α)), s.sched.called.map
        (fun e => P.callStores s.view s.sched.userFun s.sched.userCtx e.task) = sts.map some ∧
      (∀ t, s.calls.todo t = []) ∧
      (Consistent sts.flatten → s.calls.mem = applyStores s.calls.start sts.flatten) := by
  have hbetween : s.sched.pc.between = true := by rw [hpc]; rfl
  have hidle : ∀ t, s.calls.todo t = [] := fun t =>
    hinv.outside t fun task => by rw [hinv.sched.free_of_between hbetween]; exact nofun
  exact ⟨_, hinv.begun (by rw [hpc]; rfl), hidle, hinv.calls.mem_eq_sequential hidle⟩

/-- Runs that take only tasks among the first `cap` call with such tasks only. -/
lemma run_tasksWithin {cap : ℕ} (hcap : cap < 2 ^ 32) {view : V} {mem : ℕ → α}
    {as : List (MachineAction n F C E)}
    (htakes : (machineSystem n P).Meets (TakesWithin cap) (machineInit n F C view mem) as)
    (hrun : (machineSystem n P).run (machineInit n F C view mem) as = some s) :
    TasksWithin cap s.sched := by
  refine ((machineSystem n P).run_induct_of_meets
    (P := fun s => SchedInv P.length s.sched ∧ TasksWithin cap s.sched)
    (fun s a s' ⟨hinv, htasks⟩ htakes hstep => ?_)
    ⟨(machineInv_init (P := P) view mem).sched, tasksWithin_init cap⟩ htakes hrun).2
  cases a with
  | sched a =>
      obtain ⟨sched, calls, hsched, -, rfl⟩ := machineStep_sched_inv hstep
      exact ⟨step_schedInv hinv (PopsWithin.noWrap hcap htakes) hsched,
        step_tasksWithin hinv htasks htakes hsched⟩
  | store t =>
      obtain ⟨calls, -, rfl⟩ := Option.map_eq_some_iff.mp hstep
      exact ⟨hinv, htasks⟩
  | event e =>
      obtain ⟨-, hs'⟩ := Option.ite_none_right_eq_some.mp hstep
      obtain rfl := Option.some.inj hs'
      exact ⟨hinv, htasks⟩

/-- **The scheduler refines a loop over its queue.** In every run that takes its tasks within the
array, when `rsched_host_yield` returns with success there is an order of cells, with each cell of
the queue in it once, such that the stores of all threads have left the memory as the calls of that
order do one after the other, provided that they agree on what they store where. The order may hold
cells behind the queue, which stale pops take; in a run that takes none it is a permutation of the
cells of the queue. -/
theorem concurrent_round (P : Program V F C E α) (hcap : P.cells.length < 2 ^ 32) (view : V)
    (mem : ℕ → α) (as : List (MachineAction n F C E)) {s : Machine n V F C α}
    (hwithin : (machineSystem n P).Meets (MachineWithin P) (machineInit n F C view mem) as)
    (hrun : (machineSystem n P).run (machineInit n F C view mem) as = some s)
    (hpc : s.sched.pc = .returned true) :
    ∃ (order : List ℕ) (sts : List (List (PixelStore α))),
      (∀ task < P.length, order.count task = 1) ∧ (∀ task ∈ order, task < P.cells.length) ∧
      ((machineSystem n P).Meets (TakesWithin P.length) (machineInit n F C view mem) as →
        order.Perm (List.range P.length)) ∧
      order.map (P.callStores s.view s.sched.userFun s.sched.userCtx) = sts.map some ∧
      (∀ t, s.calls.todo t = []) ∧
      (Consistent sts.flatten → s.calls.mem = applyStores s.calls.start sts.flatten) := by
  have hinv : MachineInv P s := run_machineInv hcap hwithin hrun
  have hround : s.sched.pc.inRound = true := by rw [hpc]; rfl
  have hone := (hinv.sched.roundDone hpc).once
  have hcell : ∀ task ∈ s.sched.called.map (·.task), task < P.cells.length := by
    intro task htask
    obtain ⟨e, he, rfl⟩ := List.mem_map.mp htask
    exact hinv.tasks.called hround e he
  obtain ⟨sts, hsts, hidle, hmem⟩ := hinv.round_sequential hpc
  refine ⟨s.sched.called.map (·.task), sts, hone, hcell, fun htakes => ?_, ?_, hidle, hmem⟩
  · -- the queue lies within its array, since each of its cells is called with
    have hle : P.length ≤ P.cells.length := by
      by_contra hlt
      have hcount := hone P.cells.length (not_le.mp hlt)
      exact lt_irrefl _ (hcell _ (List.count_pos_iff.mp (by rw [hcount]; exact one_pos)))
    have htasks := run_tasksWithin (hle.trans_lt hcap) htakes hrun
    refine List.perm_iff_count.mpr fun task => ?_
    rw [List.nodup_range.count]
    split_ifs with htask
    · exact hone task (List.mem_range.mp htask)
    · refine List.count_eq_zero.mpr fun hmem => htask ?_
      obtain ⟨e, he, rfl⟩ := List.mem_map.mp hmem
      exact List.mem_range.mpr (htasks.called hround e he)
  · rw [List.map_map]
    exact hsts

/-- Three tasks, each of which stores twice. -/
def storeTwice : Program Unit Unit Unit Empty ℕ where
  cells := [some ⟨0, 1, 0, 1⟩, some ⟨2, 3, 0, 1⟩, some ⟨4, 5, 0, 1⟩]
  length := 3
  proc := fun _ _ _ t => some [(t.x0, t.x0 + 5), (t.x1, t.x1 + 5)]
  handle := fun _ _ => ()

/-- A round of a host and a worker, whose stores cross. -/
def crossedRound : List (MachineAction 1 Unit Unit Empty) :=
  let i : Fin 1 := ⟨0, Nat.one_pos⟩
  let w : MachineAction 1 Unit Unit Empty := .sched (.worker i false)
  let h : MachineAction 1 Unit Unit Empty := .sched (.host false)
  let sw : MachineAction 1 Unit Unit Empty := .store (some i)
  let sh : MachineAction 1 Unit Unit Empty := .store none
  [w, h, h, .sched (.setUserContext (some ()) (some ())), h, h, h, h, .sched .hostYield, h,
    w, h, w, h, w, h, w, w, w, w, w, w, w, sw, sh, sw, w, w, w, w, w, w, sh, sw, sw,
    h, w, h, w, h, w, h, w, h, w, h, w, h]

/-- The theorem at a worker and three tasks. -/
theorem concurrent_round_crossed :
    ∃ s, (machineSystem 1 storeTwice).run (machineInit 1 Unit Unit () fun _ => 0) crossedRound
        = some s ∧
      ∃ (order : List ℕ) (sts : List (List (PixelStore ℕ))), order.Perm (List.range 3) ∧
        order.map (storeTwice.callStores () (some ()) (some ())) = sts.map some ∧
        s.calls.mem = applyStores (fun _ => 0) sts.flatten := by
  obtain ⟨s, hrun, hpc, hfun, hctx, hstart⟩ : ∃ s,
      (machineSystem 1 storeTwice).run (machineInit 1 Unit Unit () fun _ => 0) crossedRound
        = some s ∧ s.sched.pc = .returned true ∧ s.sched.userFun = some () ∧
      s.sched.userCtx = some () ∧ s.calls.start = fun _ => 0 := ⟨_, rfl, rfl, rfl, rfl, rfl⟩
  have htakes : (machineSystem 1 storeTwice).Meets (TakesWithin 3)
      (machineInit 1 Unit Unit () fun _ => 0) crossedRound := by decide +kernel
  obtain ⟨order, sts, -, -, hperm, hsts, -, hmem⟩ := concurrent_round storeTwice
    (by simp [storeTwice]) () (fun _ => 0) crossedRound htakes hrun hpc
  rw [hfun, hctx] at hsts
  refine ⟨s, hrun, order, sts, hperm htakes, hsts, hstart ▸ hmem ?_⟩
  -- what is stored is a function of the address
  have hvalue : ∀ p ∈ sts.flatten, p.2 = p.1 + 5 := by
    intro p hp
    obtain ⟨st, hst, hpst⟩ := List.mem_flatten.mp hp
    obtain ⟨task, -, htask⟩ := List.mem_map.mp (hsts ▸ List.mem_map_of_mem (f := some) hst)
    obtain ⟨f, -, hf⟩ := Option.bind_eq_some_iff.mp htask
    obtain ⟨t, -, ht⟩ := Option.bind_eq_some_iff.mp hf
    obtain rfl := Option.some.inj ht
    simp only [List.mem_cons, List.not_mem_nil, or_false] at hpst
    rcases hpst with rfl | rfl <;> rfl
  exact fun p hp q hq hpq => by rw [hvalue p hp, hvalue q hq, hpq]

end Machine

end Mdb
