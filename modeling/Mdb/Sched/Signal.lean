import Mdb.Sched.Worker

/-!
The signal word between one worker and one sender (`rsched_send_worker_sig`,
`rsched_worker_sig_lock_receive` and `rsched_worker_sig_unlock` of `sched/rsched_worker.h`).

The log lists the writes to the word in their order, each with the value it replaced: that is
the whole history of the word. `Delivered` says of a history that every signal sent replaces
`NONE` and is what the worker receives next, that nothing else erases a signal, and that no
signal waits for a worker that is down.

* `meets_wordSafe_iff`: a run is `Delivered` throughout exactly when no exchange succeeds with an
  `esig` that a failed one has rewritten, no signal is pending when the task loop unlocks on
  finding the queue empty, and no send succeeds once the worker is down (`WordSafe`);
* `signal_delivery` adds that along an infinite execution of such steps, in which the worker
  keeps moving, every pending signal is received;
* `signal_lost`: a `QUIT` sent into the window between a receive and its unlock is erased.
-/

namespace Mdb

/-- A write to the signal word. -/
inductive WordEvent where
  | sent (sig old : Signal)
  | received (sig : Signal)
  | unlocked (old : Signal)
  deriving DecidableEq

/-- The writes to the signal word among the events of a worker. -/
def WorkerEvent.onWord : WorkerEvent → List WordEvent
  | .received sig => [.received sig]
  | .unlocked old => [.unlocked old]
  | _ => []

/-- A worker, a sender inside `rsched_send_worker_sig` with its `esig` or outside of it, and the
history of the signal word. -/
structure SignalState (F C : Type*) where
  idx : ℕ
  worker : Worker F C
  sender : Option (Signal × Signal)
  log : List WordEvent

/-- The steps: of the worker; of the sender, which calls `rsched_send_worker_sig` and tries its
exchange; and of the other threads, which move the index of the queue and set the function and
the context of the worker. -/
inductive SignalAction (F C : Type*) where
  | worker (spurious : Bool)
  | send (sig : Signal)
  | exchange (spurious : Bool)
  | others (idx : ℕ) (userFun : Option F) (userCtx : Option C)

section Signal

variable {F C : Type*}

/-- A step of the worker or of the sender; a send begins while the worker is not down. -/
def signalStep (length : ℕ) (s : SignalState F C) : SignalAction F C → Option (SignalState F C)
  | .worker spurious =>
      (workerStep length spurious s.idx s.worker).map fun (idx, w, ev) =>
        { s with idx := idx, worker := w, log := s.log ++ ev.onWord }
  | .send sig =>
      if s.sender = none ∧ sig.isSent = true ∧ s.worker.state ≠ .down then
        some { s with sender := some (sig, .none) }
      else none
  | .exchange spurious =>
      s.sender.map fun (sig, esig) =>
        match s.worker.sendExchange sig esig spurious with
        | (w, some esig) => { s with worker := w, sender := some (sig, esig) }
        | (w, none) =>
            { s with worker := w, sender := none, log := s.log ++ [.sent sig s.worker.signal] }
  | .others idx userFun userCtx =>
      some { s with idx := idx, worker := { s.worker with userFun := userFun, userCtx := userCtx } }

/-- The step system of a worker and a sender. -/
def signalSystem (F C : Type*) (length : ℕ) : StepSystem (SignalState F C) (SignalAction F C) :=
  ⟨signalStep length⟩

/-- The worker has just been created and no signal has been sent. -/
def signalInit : SignalState F C := ⟨0, Worker.init, none, []⟩

/-! ### What a step does -/

section Step

variable {length : ℕ} {s s' : SignalState F C}

lemma signalStep_worker_inv {spurious : Bool}
    (h : signalStep length s (.worker spurious) = some s') :
    ∃ idx w ev, workerStep length spurious s.idx s.worker = some (idx, w, ev) ∧
      s' = { s with idx := idx, worker := w, log := s.log ++ ev.onWord } := by
  rw [signalStep, Option.map_eq_some_iff] at h
  obtain ⟨⟨idx, w, ev⟩, hw, heq⟩ := h
  exact ⟨idx, w, ev, hw, heq.symm⟩

lemma signalStep_send_inv {sig : Signal} (h : signalStep length s (.send sig) = some s') :
    (s.sender = none ∧ sig.isSent = true ∧ s.worker.state ≠ .down) ∧
      s' = { s with sender := some (sig, .none) } := by
  rw [signalStep] at h
  split_ifs at h with hsend
  exact ⟨hsend, (Option.some.inj h).symm⟩

/-- An exchange sends the signal, or leaves the signal word for the next one to expect. -/
lemma signalStep_exchange_inv {spurious : Bool}
    (h : signalStep length s (.exchange spurious) = some s') :
    ∃ sig esig, s.sender = some (sig, esig) ∧
      (((s.worker.signal = esig ∧ spurious = false) ∧
          s' = { s with
            worker := { s.worker with signal := sig }
            sender := none
            log := s.log ++ [.sent sig s.worker.signal] }) ∨
        (¬ (s.worker.signal = esig ∧ spurious = false) ∧
          s' = { s with sender := some (sig, s.worker.signal) })) := by
  rw [signalStep, Option.map_eq_some_iff] at h
  obtain ⟨⟨sig, esig⟩, hs, h⟩ := h
  refine ⟨sig, esig, hs, ?_⟩
  by_cases hok : s.worker.signal = esig ∧ spurious = false
  · simp only [Worker.sendExchange_of_eq hok] at h
    exact Or.inl ⟨hok, h.symm⟩
  · simp only [Worker.sendExchange_of_ne hok] at h
    exact Or.inr ⟨hok, h.symm⟩

end Step

/-! ### What delivery asks for -/

/-- Two consecutive writes hand a signal over: what follows a send is the receive of the signal,
and what precedes the receive of a signal is its send. -/
def HandsOver (e e' : WordEvent) : Prop :=
  (∀ sig old, e = .sent sig old → e' = .received sig) ∧
    ∀ sig, e' = .received sig → sig.isSent = true → ∃ old, e = .sent sig old

/-- A history in which every signal is delivered so far; the word starts as if unlocked. -/
structure Delivered (s : SignalState F C) : Prop where
  replaces_none : ∀ sig old, .sent sig old ∈ s.log → old = .none
  erases_nothing : ∀ old, .unlocked old ∈ s.log → old.isSent = false
  hands_over : (.unlocked .none :: s.log).IsChain HandsOver
  awaited : s.worker.signal.isSent = true → s.worker.state ≠ .down

/-- The condition on a step: the task loop does not find the queue empty while a signal is
pending, and an exchange succeeds only with the `NONE` that `esig` started with, and only while
the worker is not down. -/
def WordSafe (s : SignalState F C) : SignalAction F C → Prop
  | .worker _ => s.worker.pc = .loopEmptyUnlock → s.worker.signal.isSent = false
  | .exchange spurious => ∀ sig esig, s.sender = some (sig, esig) → s.worker.signal = esig →
      spurious = false → esig = .none ∧ s.worker.state ≠ .down
  | _ => True

/-! ### The invariant -/

/-- The value a write leaves in the word. -/
def WordEvent.value : WordEvent → Signal
  | .sent sig _ => sig
  | .received _ => .locked
  | .unlocked _ => .none

/-- A delivered history of a word that holds `v`. -/
structure History (log : List WordEvent) (v : Signal) : Prop where
  sends : ∀ sig old, .sent sig old ∈ log → sig.isSent = true
  replaces_none : ∀ sig old, .sent sig old ∈ log → old = .none
  erases_nothing : ∀ old, .unlocked old ∈ log → old.isSent = false
  hands_over : (.unlocked .none :: log).IsChain HandsOver
  value : ∀ e ∈ (.unlocked .none :: log).getLast?, e.value = v

namespace History

variable {log : List WordEvent} {v : Signal}

lemma nil : History [] .none where
  sends := fun _ _ h => absurd h List.not_mem_nil
  replaces_none := fun _ _ h => absurd h List.not_mem_nil
  erases_nothing := fun _ h => absurd h List.not_mem_nil
  hands_over := List.isChain_singleton _
  value := fun e he => by
    rw [List.getLast?_singleton, Option.mem_some_iff] at he
    exact he ▸ rfl

/-- One more write: it has to hand over from the last one, which left `v`. -/
lemma concat (h : History log v) {e : WordEvent} (hsends : ∀ sig old, e = .sent sig old →
    sig.isSent = true ∧ old = .none) (herases : ∀ old, e = .unlocked old → old.isSent = false)
    (hhands : ∀ l ∈ (.unlocked .none :: log).getLast?, l.value = v → HandsOver l e) :
    History (log ++ [e]) e.value where
  sends := fun sig old hmem => by
    rcases List.mem_append.mp hmem with hmem | hmem
    · exact h.sends sig old hmem
    · exact (hsends sig old (List.mem_singleton.mp hmem).symm).1
  replaces_none := fun sig old hmem => by
    rcases List.mem_append.mp hmem with hmem | hmem
    · exact h.replaces_none sig old hmem
    · exact (hsends sig old (List.mem_singleton.mp hmem).symm).2
  erases_nothing := fun old hmem => by
    rcases List.mem_append.mp hmem with hmem | hmem
    · exact h.erases_nothing old hmem
    · exact herases old (List.mem_singleton.mp hmem).symm
  hands_over := by
    rw [← List.cons_append, List.isChain_append]
    refine ⟨h.hands_over, List.isChain_singleton _, fun l hl e' he' => ?_⟩
    rw [List.head?_cons, Option.mem_some_iff] at he'
    exact he' ▸ hhands l hl (h.value l hl)
  value := fun e' he' => by
    rw [← List.cons_append, List.getLast?_concat, Option.mem_some_iff] at he'
    exact he' ▸ rfl

/-- If the word holds a signal, the last write has sent it. -/
lemma last_sent (h : History log v) (hv : v.isSent = true) :
    ∀ l ∈ (.unlocked .none :: log).getLast?, ∃ old, l = .sent v old := by
  intro l hl
  have hval := h.value l hl
  cases l with
  | sent sig old => exact ⟨old, by rw [← hval]; rfl⟩
  | received sig =>
      rw [← hval] at hv
      cases hv
  | unlocked old =>
      rw [← hval] at hv
      cases hv

/-- If the last write is a send, the word holds its signal. -/
lemma isSent_of_last_sent (h : History log v) {sig old : Signal}
    (hl : .sent sig old ∈ (.unlocked .none :: log).getLast?) : sig = v ∧ v.isSent = true := by
  have hval : sig = v := h.value _ hl
  have hmem : WordEvent.sent sig old ∈ .unlocked .none :: log := List.mem_of_getLast? hl
  rcases List.mem_cons.mp hmem with heq | hmem
  · cases heq
  · exact ⟨hval, hval ▸ h.sends sig old hmem⟩

/-- The worker receives what the word holds. -/
lemma received (h : History log v) : History (log ++ [.received v]) .locked := by
  refine h.concat (e := .received v) nofun nofun fun l hl _ => ⟨fun sig old heq => ?_,
    fun sig heq hsig => ?_⟩
  · rw [heq] at hl
    rw [(h.isSent_of_last_sent hl).1]
  · rw [WordEvent.received.injEq] at heq
    exact heq ▸ h.last_sent (heq ▸ hsig) l hl

/-- The worker unlocks a word that holds no signal. -/
lemma unlocked (h : History log v) (hv : v.isSent = false) :
    History (log ++ [.unlocked v]) .none := by
  refine h.concat (e := .unlocked v) nofun (fun old heq => ?_) fun l hl _ =>
    ⟨fun sig old heq => ?_, nofun⟩
  · rw [WordEvent.unlocked.injEq] at heq
    exact heq ▸ hv
  · rw [heq] at hl
    rw [(h.isSent_of_last_sent hl).2] at hv
    cases hv

/-- A signal is sent to a word that holds `NONE`. -/
lemma sent (h : History log .none) {sig : Signal} (hsig : sig.isSent = true) :
    History (log ++ [.sent sig .none]) sig := by
  refine h.concat (e := .sent sig .none) (fun sig' old heq => ?_) nofun fun l hl _ =>
    ⟨fun sig' old heq => ?_, nofun⟩
  · rw [WordEvent.sent.injEq] at heq
    exact ⟨heq.1 ▸ hsig, heq.2.symm⟩
  · rw [heq] at hl
    cases (h.isSent_of_last_sent hl).2

end History

/-- The invariant of the runs whose steps are `WordSafe`. -/
structure WordInv (s : SignalState F C) : Prop where
  history : History s.log s.worker.signal
  awaited : s.worker.signal.isSent = true → s.worker.state ≠ .down
  /-- the word is locked while the worker holds it -/
  locked : s.worker.signal = .locked ↔ s.worker.pc.holdsWord = true
  down : s.worker.LeavesDown
  sender : ∀ sig esig, s.sender = some (sig, esig) → sig.isSent = true

lemma WordInv.delivered {s : SignalState F C} (h : WordInv s) : Delivered s :=
  ⟨h.history.replaces_none, h.history.erases_nothing, h.history.hands_over, h.awaited⟩

lemma wordInv_init : WordInv (signalInit : SignalState F C) where
  history := History.nil
  awaited := nofun
  locked := by simp [signalInit, Worker.init, WorkerPc.holdsWord]
  down := nofun
  sender := nofun

/-- A step of the worker keeps the invariant. -/
lemma workerStep_wordInv {length idx : ℕ} {spurious : Bool} {s : SignalState F C}
    {w : Worker F C} {ev : WorkerEvent} (hinv : WordInv s)
    (hsafe : s.worker.pc = .loopEmptyUnlock → s.worker.signal.isSent = false)
    (h : workerStep length spurious s.idx s.worker = some (idx, w, ev)) :
    WordInv { s with idx := idx, worker := w, log := s.log ++ ev.onWord } := by
  obtain ⟨hhist, hawait, hlocked, hdown, hsender⟩ := hinv
  have hdown' := workerStep_leavesDown hdown h
  obtain ⟨hev, hsig, hpc⟩ | ⟨rfl, hsig, hpc⟩ | ⟨rfl, hsig, hpc, hfrom⟩ := workerStep_word h
  · -- the word is left alone
    have hlog : ev.onWord = [] := by
      cases ev with
      | received sig => exact absurd rfl (hev sig).1
      | unlocked sig => exact absurd rfl (hev sig).2
      | _ => rfl
    rw [hlog, List.append_nil]
    refine ⟨hsig ▸ hhist, fun hsent hst => ?_, by rw [hsig, hpc]; exact hlocked, hdown', hsender⟩
    rw [hsig] at hsent
    rcases workerStep_down h hst with hst | hleave
    · exact hawait hsent hst
    · -- a worker that leaves holds the word
      have hheld : s.worker.pc.holdsWord = true := by rw [← hpc, hleave]; rfl
      rw [hlocked.mpr hheld] at hsent
      cases hsent
  · refine ⟨hsig ▸ hhist.received, fun hsent => ?_, iff_of_true hsig hpc, hdown', hsender⟩
    rw [hsig] at hsent
    cases hsent
  · have hold : s.worker.signal.isSent = false := by
      rcases hfrom with hheld | hempty
      · rw [hlocked.mpr hheld]
        rfl
      · exact hsafe hempty
    refine ⟨hsig ▸ hhist.unlocked hold, fun hsent => ?_, iff_of_false ?_ ?_, hdown', hsender⟩
    · rw [hsig] at hsent
      cases hsent
    · rw [hsig]
      nofun
    · rw [hpc]
      nofun

/-- A sender only sends signals. -/
lemma step_sender {length : ℕ} {s s' : SignalState F C} {a : SignalAction F C}
    (hs : ∀ sig esig, s.sender = some (sig, esig) → sig.isSent = true)
    (hstep : signalStep length s a = some s') :
    ∀ sig esig, s'.sender = some (sig, esig) → sig.isSent = true := by
  intro sig' esig' hs'
  cases a with
  | worker spurious =>
      obtain ⟨idx, w, ev, -, rfl⟩ := signalStep_worker_inv hstep
      exact hs sig' esig' hs'
  | send sig =>
      obtain ⟨⟨-, hsig, -⟩, rfl⟩ := signalStep_send_inv hstep
      rw [Option.some.injEq, Prod.mk.injEq] at hs'
      exact hs'.1 ▸ hsig
  | exchange spurious =>
      obtain ⟨sig, esig, hsend, ⟨-, rfl⟩ | ⟨-, rfl⟩⟩ := signalStep_exchange_inv hstep
      · cases hs'
      · rw [Option.some.injEq, Prod.mk.injEq] at hs'
        exact hs'.1 ▸ hs sig esig hsend
  | others idx userFun userCtx =>
      rw [signalStep, Option.some.injEq] at hstep
      rw [← hstep] at hs'
      exact hs sig' esig' hs'

/-- A step that is `WordSafe` keeps the invariant. -/
lemma step_wordInv {length : ℕ} {s s' : SignalState F C} {a : SignalAction F C} (hinv : WordInv s)
    (hsafe : WordSafe s a) (hstep : signalStep length s a = some s') : WordInv s' := by
  have hsender' := step_sender hinv.sender hstep
  obtain ⟨hhist, hawait, hlocked, hdown, hsender⟩ := hinv
  cases a with
  | worker spurious =>
      obtain ⟨idx, w, ev, hw, rfl⟩ := signalStep_worker_inv hstep
      exact workerStep_wordInv ⟨hhist, hawait, hlocked, hdown, hsender⟩ hsafe hw
  | send sig =>
      obtain ⟨-, rfl⟩ := signalStep_send_inv hstep
      exact ⟨hhist, hawait, hlocked, hdown, hsender'⟩
  | exchange spurious =>
      obtain ⟨sig, esig, hs, ⟨hok, rfl⟩ | ⟨-, rfl⟩⟩ := signalStep_exchange_inv hstep
      · -- the signal replaces `NONE`
        obtain ⟨hnone, hst⟩ := hsafe sig esig hs hok.1 hok.2
        have hsig := hsender sig esig hs
        have hword : s.worker.signal = .none := hok.1.trans hnone
        have hfree : s.worker.pc.holdsWord ≠ true := fun hheld => by
          have hlock := hlocked.mpr hheld
          rw [hword] at hlock
          cases hlock
        refine ⟨?_, fun _ => hst, iff_of_false (fun heq => ?_) hfree, hdown, hsender'⟩
        · rw [hword] at hhist ⊢
          exact hhist.sent hsig
        · dsimp only at heq
          rw [heq] at hsig
          cases hsig
      · exact ⟨hhist, hawait, hlocked, hdown, hsender'⟩
  | others idx userFun userCtx =>
      rw [signalStep, Option.some.injEq] at hstep
      subst hstep
      exact ⟨hhist, hawait, hlocked, hdown, hsender⟩

/-- A step into a delivered history is `WordSafe`. -/
lemma wordSafe_of_delivered (length : ℕ) {s : SignalState F C} {a : SignalAction F C}
    (hs : ∀ sig esig, s.sender = some (sig, esig) → sig.isSent = true)
    (h : ∀ s', signalStep length s a = some s' → Delivered s') : WordSafe s a := by
  cases a with
  | worker spurious =>
      intro hpc
      have hdel := h { s with
        worker := (s.worker.sigUnlock .yieldSetWaiting).1
        log := s.log ++ [.unlocked s.worker.signal] } (by simp [signalStep, workerStep, hpc]; rfl)
      exact hdel.erases_nothing _ (List.mem_append_right _ (List.mem_singleton.mpr rfl))
  | exchange spurious =>
      intro sig esig hsend heq hsp
      have hex : s.worker.sendExchange sig esig spurious
          = ({ s.worker with signal := sig }, none) := Worker.sendExchange_of_eq ⟨heq, hsp⟩
      have hdel := h { s with
        worker := { s.worker with signal := sig }
        sender := none
        log := s.log ++ [.sent sig s.worker.signal] } (by simp [signalStep, hsend, hex])
      have hnone := hdel.replaces_none sig s.worker.signal
        (List.mem_append_right _ (List.mem_singleton.mpr rfl))
      exact ⟨heq ▸ hnone, hdel.awaited (hs sig esig hsend)⟩
  | send sig => trivial
  | others idx userFun userCtx => trivial

/-- **When every signal is delivered so far**: all histories of a run are delivered exactly when
all its steps are `WordSafe`. -/
theorem meets_wordSafe_iff (length : ℕ) (as : List (SignalAction F C)) :
    (signalSystem F C length).Meets WordSafe signalInit as ↔
      ∀ pre suf s, as = pre ++ suf → (signalSystem F C length).run signalInit pre = some s →
        Delivered s := by
  constructor
  · rintro hmeets pre suf s rfl hrun
    exact ((signalSystem F C length).run_induct_of_meets
      (fun _ _ _ hinv hsafe hstep => step_wordInv hinv hsafe hstep) wordInv_init hmeets.left
      hrun).delivered
  · intro hdel
    refine (signalSystem F C length).meets_of_forall_reached fun pre a suf s has hrun => ?_
    refine wordSafe_of_delivered length ((signalSystem F C length).run_induct
      (fun _ _ _ hs hstep => step_sender hs hstep) (s := signalInit) nofun hrun) fun s' hstep => ?_
    refine hdel (pre ++ [a]) suf s' (by rw [has, List.append_assoc, List.singleton_append]) ?_
    rw [(signalSystem F C length).run_append, hrun, Option.bind_some, StepSystem.run_singleton]
    exact hstep

/-! ### Every pending signal is received -/

/-- The worker is inside `rsched_queue_pop`. -/
def WorkerPc.inPop : WorkerPc → Bool
  | .loopPop _ => true
  | _ => false

/-- How many places of a worker lie between it and its next receive. -/
def WorkerPc.pendingRank : WorkerPc → ℕ
  | .loopPop _ => 4
  | .loopCall _ | .loopEmptyUnlock => 3
  | .loopProcFun _ | .yieldSetWaiting => 2
  | .loopReceive | .yieldReceive => 1
  | _ => 0

lemma pendingRank_popHandle (out : PopOut) : (popHandle out).pendingRank ≤ 4 := by
  cases out with
  | next pc => exact le_rfl
  | ret task => cases task <;> exact Nat.le_succ 3

lemma onWord_popEvent (out : PopOut) : (popEvent out).onWord = [] := by
  cases out with
  | next pc => rfl
  | ret task => cases task <;> rfl

/-- While a signal is pending the worker comes nearer to a receive, unless it stays inside a pop
or has found the queue empty. -/
lemma workerStep_pending {length idx idx' : ℕ} {spurious : Bool} {w w' : Worker F C}
    {ev : WorkerEvent} (hheld : w.pc.holdsWord = false) (hempty : w.pc ≠ .loopEmptyUnlock)
    (h : workerStep length spurious idx w = some (idx', w', ev)) :
    ev = .received w.signal ∨
      (w'.signal = w.signal ∧ ev.onWord = [] ∧ w'.pc.pendingRank ≤ w.pc.pendingRank ∧
        (w.pc.inPop = false → w'.pc.pendingRank < w.pc.pendingRank)) := by
  rw [workerStep] at h
  cases hpc : w.pc <;> rw [hpc] at hheld <;>
    simp only [hpc, Option.some.injEq, Prod.mk.injEq, reduceCtorEq] at h
  case loopPop pc =>
    obtain ⟨rfl, rfl, rfl⟩ := h
    exact Or.inr ⟨rfl, onWord_popEvent _, pendingRank_popHandle _, fun h => by cases h⟩
  case loopEmptyUnlock => exact absurd hpc hempty
  case yieldSetWaiting | loopCall | loopProcFun =>
    obtain ⟨rfl, rfl, rfl⟩ := h
    exact Or.inr ⟨rfl, rfl, by simp [WorkerPc.pendingRank], fun _ => by simp [WorkerPc.pendingRank]⟩
  case yieldReceive | loopReceive =>
    obtain ⟨rfl, rfl, rfl⟩ := h
    exact Or.inl rfl
  all_goals cases hheld

/-- At the time `k` the worker makes a step outside `rsched_queue_pop`, or has ended. -/
def WorkerMoves {length : ℕ} (e : (signalSystem F C length).Execution) (k : ℕ) : Prop :=
  ((∃ spurious, e.act k = .worker spurious) ∧ (e.st k).worker.pc.inPop = false) ∨
    (e.st k).worker.pc = .done

/-- While a signal is pending the worker does not hold the word, and has not ended. -/
lemma WordInv.of_pending {s : SignalState F C} (hinv : WordInv s)
    (hsent : s.worker.signal.isSent = true) :
    s.worker.pc.holdsWord = false ∧ s.worker.pc ≠ .done := by
  refine ⟨Bool.eq_false_iff.mpr fun hheld => ?_, fun hpc => ?_⟩
  · rw [hinv.locked.mpr hheld] at hsent
    cases hsent
  · exact hinv.awaited hsent (hinv.down (by rw [hpc]; rfl))

/-- While a signal is pending, a step hands it over or leaves it pending and brings the worker no
farther from a receive; a step of the worker outside a pop brings it nearer. -/
lemma pending_step {length : ℕ} (e : (signalSystem F C length).Execution)
    (hsafe : ∀ k, WordSafe (e.st k) (e.act k)) {v : Signal} (hv : v.isSent = true)
    {log : List WordEvent} {k : ℕ} (hinv : WordInv (e.st k)) (hsig : (e.st k).worker.signal = v)
    (hlog : (e.st k).log = log) :
    (e.st (k + 1)).log = log ++ [.received v] ∨
      ((WordInv (e.st (k + 1)) ∧ (e.st (k + 1)).worker.signal = v ∧ (e.st (k + 1)).log = log) ∧
        (e.st (k + 1)).worker.pc.pendingRank ≤ (e.st k).worker.pc.pendingRank ∧
        (WorkerMoves e k →
          (e.st (k + 1)).worker.pc.pendingRank < (e.st k).worker.pc.pendingRank)) := by
  have hstep : signalStep length (e.st k) (e.act k) = some (e.st (k + 1)) := e.steps k
  have hinv' := step_wordInv hinv (hsafe k) hstep
  have hsent : (e.st k).worker.signal.isSent = true := by rw [hsig, hv]
  obtain ⟨hheld, hdone⟩ := hinv.of_pending hsent
  have hsafe' := hsafe k
  -- the other steps leave the word and the worker's place alone
  have hrest : (∀ spurious, e.act k ≠ .worker spurious) →
      (e.st (k + 1)).worker.pc = (e.st k).worker.pc →
      (e.st (k + 1)).worker.signal = (e.st k).worker.signal → (e.st (k + 1)).log = (e.st k).log →
      ((WordInv (e.st (k + 1)) ∧ (e.st (k + 1)).worker.signal = v ∧ (e.st (k + 1)).log = log) ∧
        (e.st (k + 1)).worker.pc.pendingRank ≤ (e.st k).worker.pc.pendingRank ∧
        (WorkerMoves e k →
          (e.st (k + 1)).worker.pc.pendingRank < (e.st k).worker.pc.pendingRank)) := by
    intro hact hpc hsig' hlog'
    refine ⟨⟨hinv', hsig'.trans hsig, hlog'.trans hlog⟩, by rw [hpc], fun hmoves => ?_⟩
    obtain ⟨⟨spurious, hw⟩, -⟩ := hmoves.resolve_right hdone
    exact absurd hw (hact spurious)
  cases hact : e.act k with
  | worker spurious =>
      rw [hact] at hstep hsafe'
      obtain ⟨idx, w, ev, hw, hst⟩ := signalStep_worker_inv hstep
      have hempty : (e.st k).worker.pc ≠ .loopEmptyUnlock := fun hpc => by
        rw [hsafe' hpc] at hsent
        cases hsent
      rcases workerStep_pending hheld hempty hw with rfl | ⟨hsig', hword, hle, hlt⟩
      · left
        rw [hst, ← hlog, ← hsig]
        rfl
      · right
        have hlog' : (e.st (k + 1)).log = log := by
          rw [hst, ← hlog]
          exact (congrArg _ hword).trans (List.append_nil _)
        have hw' : (e.st (k + 1)).worker = w := by rw [hst]
        rw [hw']
        exact ⟨⟨hinv', hsig'.trans hsig, hlog'⟩, hle,
          fun hmoves => hlt (hmoves.resolve_right hdone).2⟩
  | send sig =>
      rw [hact] at hstep
      obtain ⟨-, hst⟩ := signalStep_send_inv hstep
      refine Or.inr (hrest (by rw [hact]; nofun) ?_ ?_ ?_) <;> rw [hst]
  | exchange spurious =>
      rw [hact] at hstep hsafe'
      obtain ⟨sig, esig, hsend, ⟨hok, -⟩ | ⟨-, hst⟩⟩ := signalStep_exchange_inv hstep
      · -- a safe exchange does not succeed on a pending signal
        rw [hok.1, (hsafe' sig esig hsend hok.1 hok.2).1] at hsent
        cases hsent
      · refine Or.inr (hrest (by rw [hact]; nofun) ?_ ?_ ?_) <;> rw [hst]
  | others idx userFun userCtx =>
      rw [hact, signalStep, Option.some.injEq] at hstep
      refine Or.inr (hrest (by rw [hact]; nofun) ?_ ?_ ?_) <;> rw [← hstep]

/-- Along an infinite execution of `WordSafe` steps in which the worker keeps moving, the next
write to the word of a pending signal is its receive. -/
lemma pending_received {length : ℕ} (e : (signalSystem F C length).Execution)
    (h₀ : e.st 0 = signalInit) (hsafe : ∀ k, WordSafe (e.st k) (e.act k))
    (hmoves : ∀ n, ∃ m, n ≤ m ∧ WorkerMoves e m) {k : ℕ}
    (hk : (e.st k).worker.signal.isSent = true) :
    ∃ m, k ≤ m ∧ (e.st m).log = (e.st k).log ∧
      (e.st (m + 1)).log = (e.st k).log ++ [.received (e.st k).worker.signal] := by
  have hinv := e.induct (fun _ _ _ hinv hsafe hstep => step_wordInv hinv hsafe hstep)
    (by rw [h₀]; exact wordInv_init) hsafe k
  obtain ⟨m, hkm, hgoal, hP⟩ := e.eventually_of_rank
    (P := fun s => WordInv s ∧ s.worker.signal = (e.st k).worker.signal ∧ s.log = (e.st k).log)
    (fun s => s.worker.pc.pendingRank) hmoves
    (fun j hj => pending_step e hsafe hk hj.1 hj.2.1 hj.2.2) ⟨hinv, rfl, rfl⟩
  exact ⟨m, hkm, (hP m hkm le_rfl).2.2, hgoal⟩

/-- **Signal delivery.** All histories of a run are delivered exactly when its steps are `WordSafe`;
and along an infinite execution of such steps, in which the worker keeps moving, every signal
sent is the next thing written to the word, by the receive that returns it. -/
theorem signal_delivery (length : ℕ) :
    (∀ as : List (SignalAction F C), (signalSystem F C length).Meets WordSafe signalInit as ↔
        ∀ pre suf s, as = pre ++ suf → (signalSystem F C length).run signalInit pre = some s →
          Delivered s) ∧
      ∀ e : (signalSystem F C length).Execution, e.st 0 = signalInit →
        (∀ k, WordSafe (e.st k) (e.act k)) → (∀ n, ∃ m, n ≤ m ∧ WorkerMoves e m) →
        ∀ k, (e.st k).worker.signal.isSent = true →
          ∃ m, k ≤ m ∧ (e.st m).log = (e.st k).log ∧
            (e.st (m + 1)).log = (e.st k).log ++ [.received (e.st k).worker.signal] :=
  ⟨meets_wordSafe_iff length, fun e h₀ hsafe hmoves _ hk => pending_received e h₀ hsafe hmoves hk⟩

/-- A start sent to a worker that has no function: the worker receives it and exits. -/
def startRun : List (SignalAction Unit Unit) :=
  [.send .start, .exchange false] ++ List.replicate 8 (.worker false)

end Signal

/-- The theorem along the run of a worker that receives a start and, having no function, exits. -/
theorem signal_delivery_start :
    ∃ e : (signalSystem Unit Unit 1).Execution, (e.st 2).worker.signal = .start ∧
      ∃ m, 2 ≤ m ∧ (e.st (m + 1)).log = (e.st 2).log ++ [.received .start] := by
  obtain ⟨t, hrun, hdone⟩ : ∃ t, (signalSystem Unit Unit 1).run signalInit startRun = some t ∧
      t.worker.pc = .done := ⟨_, rfl, rfl⟩
  have hmeets : (signalSystem Unit Unit 1).Meets WordSafe signalInit startRun := by
    refine .cons_of_step _ trivial rfl (.cons_of_step _ (fun sig esig hsend _ _ => ?_) rfl ?_)
    · cases hsend
      exact ⟨rfl, nofun⟩
    · iterate 8 refine .cons_of_step _ nofun rfl ?_
      trivial
  obtain ⟨e, hst, hact⟩ := (signalSystem Unit Unit 1).exists_execution hrun
    (a := .others t.idx t.worker.userFun t.worker.userCtx) rfl
  have hsig : (e.st 2).worker.signal = .start := by
    have h₂ := hst 2
    rw [show startRun.take 2 = [.send .start, .exchange false] from rfl] at h₂
    have hrun₂ : (signalSystem Unit Unit 1).run signalInit [.send .start, .exchange false]
        = some ⟨0, { Worker.init with signal := .start }, none, [.sent .start .none]⟩ := rfl
    rw [hrun₂, Option.some.injEq] at h₂
    rw [← h₂]
  have hsafe : ∀ k, WordSafe (e.st k) (e.act k) := by
    intro k
    rw [hact k]
    by_cases hk : k < startRun.length
    · have hsplit : startRun.take k ++ startRun[k] :: startRun.drop (k + 1) = startRun := by
        rw [List.getElem_cons_drop, List.take_append_drop]
      rw [List.getD_eq_getElem _ _ hk]
      rw [← hsplit] at hmeets
      exact hmeets.at _ (hst k)
    · rw [List.getD_eq_default _ _ (by omega)]
      trivial
  have hmoves : ∀ n, ∃ m, n ≤ m ∧ WorkerMoves e m := by
    intro n
    refine ⟨n + startRun.length, by omega, Or.inr ?_⟩
    have hend := hst (n + startRun.length)
    rw [List.take_of_length_le (by omega), hrun, Option.some.injEq] at hend
    rw [← hend, hdone]
  obtain ⟨m, hm, -, hlog⟩ := (signal_delivery 1).2 e (Option.some.inj (hst 0)).symm hsafe hmoves 2
    (by rw [hsig]; rfl)
  rw [hsig] at hlog
  exact ⟨e, hsig, m, hm, hlog⟩

/-- **A signal is lost.** A waiting worker holds the word, having received `NONE`; the first
exchange of a `QUIT` fails and leaves `LOCKED` in `esig`, the second one succeeds on it, and the
worker unlocks the word, `QUIT` and all. -/
theorem signal_lost :
    ¬ ∀ (length : ℕ) (as : List (SignalAction Unit Unit)) (s : SignalState Unit Unit),
      (signalSystem Unit Unit length).run signalInit as = some s → Delivered s := by
  intro h
  have hdel := h 1 [.worker false, .worker false, .send .quit, .exchange false, .exchange false,
    .worker false] _ rfl
  exact absurd (hdel.erases_nothing .quit (by decide)) (by decide)

end Mdb
