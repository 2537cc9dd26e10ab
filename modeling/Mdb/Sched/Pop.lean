import Mdb.Base.Word
import Mdb.Library.StepSystem

/-!
`rsched_queue_pop` (`sched/rsched_queue.h`) and a pool of threads that call it.

A thread inside a pop stands before its load or before its compare-exchange; everything between
two of these touches the thread alone. The compare-exchange may be weak, that is fail on equal
values, as the one of `tools/atomic.h` is.

The retry of a failed compare-exchange tests the index it has just read and then expects its
successor, so a thread can expect `length` itself. `run_poolInv` is the invariant of the runs in
which the last task is only taken while no other thread does; `stale_pop` is the run in which one
does, and `pop_in_bounds_iff` says for which pools there is such a run.
-/

namespace Mdb

/-- Where a thread stands inside `rsched_queue_pop`: before the load, or before the
compare-exchange that expects `cur`. -/
inductive PopPc where
  | load
  | cas (cur : ℕ)
  deriving DecidableEq

/-- What a step of `rsched_queue_pop` leads to: the next step, or the index of the task it
returns, `none` for `NULL`. -/
inductive PopOut where
  | next (pc : PopPc)
  | ret (task : Option ℕ)
  deriving DecidableEq

/-- A step of `rsched_queue_pop`: the index of the queue after it, and what it leads to. -/
def rschedQueuePop (length : ℕ) (spurious : Bool) (idx : ℕ) : PopPc → ℕ × PopOut
  | .load => (idx, if idx ≥ length then .ret none else .next (.cas idx))
  | .cas cur =>
      if idx = cur ∧ spurious = false then (u32 (cur + 1), .ret (some cur))
      -- the failed exchange leaves the index in `cur`
      else (idx, if idx ≥ length then .ret none else .next (.cas (u32 (idx + 1))))

/-- The steps of a pop, one by one: it takes the task it expects, finds the queue empty, or goes
on expecting the index or its successor. -/
lemma rschedQueuePop_cases (length : ℕ) (spurious : Bool) (idx : ℕ) (pc : PopPc) :
    (pc = .cas idx ∧ spurious = false ∧
        rschedQueuePop length spurious idx pc = (u32 (idx + 1), .ret (some idx))) ∨
      (length ≤ idx ∧ rschedQueuePop length spurious idx pc = (idx, .ret none)) ∨
      (idx < length ∧ pc = .load ∧
        rschedQueuePop length spurious idx pc = (idx, .next (.cas idx))) ∨
      (idx < length ∧ (∃ cur, pc = .cas cur ∧ (cur = idx → spurious = true)) ∧
        rschedQueuePop length spurious idx pc = (idx, .next (.cas (u32 (idx + 1))))) := by
  cases pc with
  | load =>
      by_cases h : idx ≥ length
      · exact Or.inr (Or.inl ⟨h, by rw [rschedQueuePop, if_pos h]⟩)
      · exact Or.inr (Or.inr (Or.inl ⟨by omega, rfl, by rw [rschedQueuePop, if_neg h]⟩))
  | cas cur =>
      by_cases hok : idx = cur ∧ spurious = false
      · obtain ⟨rfl, rfl⟩ := hok
        exact Or.inl ⟨rfl, rfl, by rw [rschedQueuePop, if_pos ⟨rfl, rfl⟩]⟩
      · by_cases h : idx ≥ length
        · exact Or.inr (Or.inl ⟨h, by rw [rschedQueuePop, if_neg hok, if_pos h]⟩)
        · refine Or.inr (Or.inr (Or.inr ⟨by omega, ⟨cur, rfl, fun heq => ?_⟩,
            by rw [rschedQueuePop, if_neg hok, if_neg h]⟩))
          exact Bool.eq_true_of_not_eq_false fun hs => hok ⟨heq.symm, hs⟩

/-! ### A pool of threads -/

/-- Threads that call `rsched_queue_pop` on one queue: the index, where each thread stands, if
inside a pop, and what the pops have returned. -/
structure Pool (n : ℕ) where
  idx : ℕ
  pc : Fin n → Option PopPc
  returned : List (Option ℕ)

/-- A step of a thread; a weak compare-exchange may fail on equal values. -/
structure PopAction (n : ℕ) where
  thread : Fin n
  spurious : Bool

section Pool

variable {n : ℕ}

/-- A step of the pool: a thread calls `rsched_queue_pop`, or makes a step inside. -/
def poolStep (length : ℕ) (weak : Bool) (s : Pool n) (a : PopAction n) : Option (Pool n) :=
  if a.spurious = true ∧ weak = false then none
  else match s.pc a.thread with
  | none => some { s with pc := Function.update s.pc a.thread (some .load) }
  | some pc =>
      match rschedQueuePop length a.spurious s.idx pc with
      | (idx, .next pc) => some { s with idx := idx, pc := Function.update s.pc a.thread (some pc) }
      | (idx, .ret task) =>
          some { s with
            idx := idx
            pc := Function.update s.pc a.thread none
            returned := s.returned ++ [task] }

/-- The pool as a step system. -/
def popSystem (n length : ℕ) (weak : Bool) : StepSystem (Pool n) (PopAction n) :=
  ⟨poolStep length weak⟩

/-- No pop has begun and the queue is full. -/
def poolInit (n : ℕ) : Pool n := ⟨0, fun _ => none, []⟩

/-- **The steps of the pool.** A thread begins a pop; takes the task it expects; finds the queue
empty; or goes on expecting the index, and its successor only if the exchange before failed. -/
lemma poolStep_cases {length : ℕ} {weak : Bool} {s s' : Pool n} {a : PopAction n}
    (h : poolStep length weak s a = some s') :
    (s.pc a.thread = none ∧ s' = { s with pc := Function.update s.pc a.thread (some .load) }) ∨
      (s.pc a.thread = some (.cas s.idx) ∧ a.spurious = false ∧ s' =
        ⟨u32 (s.idx + 1), Function.update s.pc a.thread none, s.returned ++ [some s.idx]⟩) ∨
      (length ≤ s.idx ∧ s' =
        ⟨s.idx, Function.update s.pc a.thread none, s.returned ++ [none]⟩) ∨
      (s.idx < length ∧ s.pc a.thread = some .load ∧ s' =
        { s with pc := Function.update s.pc a.thread (some (.cas s.idx)) }) ∨
      (s.idx < length ∧ (∃ cur, s.pc a.thread = some (.cas cur) ∧ (cur = s.idx → weak = true)) ∧
        s' = { s with pc := Function.update s.pc a.thread (some (.cas (u32 (s.idx + 1)))) }) := by
  rw [poolStep] at h
  by_cases hs : a.spurious = true ∧ weak = false
  · rw [if_pos hs] at h
    exact absurd h (by simp)
  · rw [if_neg hs] at h
    cases hpc : s.pc a.thread with
    | none =>
        rw [hpc] at h
        exact Or.inl ⟨rfl, (Option.some.inj h).symm⟩
    | some pc =>
        rw [hpc] at h
        dsimp only at h
        obtain ⟨rfl, hsp, heq⟩ | ⟨hle, heq⟩ | ⟨hlt, rfl, heq⟩ | ⟨hlt, ⟨cur, rfl, hcur⟩, heq⟩ :=
          rschedQueuePop_cases length a.spurious s.idx pc
        · rw [heq] at h
          exact Or.inr (Or.inl ⟨rfl, hsp, (Option.some.inj h).symm⟩)
        · rw [heq] at h
          exact Or.inr (Or.inr (Or.inl ⟨hle, (Option.some.inj h).symm⟩))
        · rw [heq] at h
          exact Or.inr (Or.inr (Or.inr (Or.inl ⟨hlt, rfl, (Option.some.inj h).symm⟩)))
        · rw [heq] at h
          refine Or.inr (Or.inr (Or.inr (Or.inr ⟨hlt, ⟨cur, rfl, fun hc => ?_⟩,
            (Option.some.inj h).symm⟩)))
          exact Bool.eq_true_of_not_eq_false fun hw => hs ⟨hcur hc, hw⟩

/-! ### Bounds -/

/-- The index is within the queue, and so is every task that a pop has returned. -/
def InBounds (length : ℕ) (s : Pool n) : Prop :=
  s.idx ≤ length ∧ ∀ i, some i ∈ s.returned → i < length

/-- A thread takes the last task only while no other thread expects `length`. -/
def LastTaskAlone (length : ℕ) (s : Pool n) (a : PopAction n) : Prop :=
  s.idx + 1 = length → s.pc a.thread = some (.cas s.idx) → a.spurious = false →
    ∀ t, t ≠ a.thread → s.pc t ≠ some (.cas length)

instance (length : ℕ) (s : Pool n) (a : PopAction n) : Decidable (LastTaskAlone length s a) :=
  inferInstanceAs (Decidable (_ → _ → _ → _))

/-- The invariant of the pool. -/
structure PoolInv (length : ℕ) (s : Pool n) : Prop where
  bounds : InBounds length s
  expects_le : ∀ t cur, s.pc t = some (.cas cur) → cur ≤ length
  not_stale : s.idx = length → ∀ t, s.pc t ≠ some (.cas length)

lemma poolInv_init (length : ℕ) : PoolInv length (poolInit n) where
  bounds := ⟨Nat.zero_le _, fun i hi => absurd hi List.not_mem_nil⟩
  expects_le := fun t cur h => by cases h
  not_stale := fun _ t h => by cases h

/-- A thread is moved to a place that expects at most `length`. -/
lemma expects_le_update {length : ℕ} {pc : Fin n → Option PopPc} {u : Fin n} {p : Option PopPc}
    (hpc : ∀ t cur, pc t = some (.cas cur) → cur ≤ length)
    (hp : ∀ cur, p = some (.cas cur) → cur ≤ length) :
    ∀ t cur, Function.update pc u p t = some (.cas cur) → cur ≤ length :=
  (Function.forall_update_iff pc fun _ q => ∀ cur, q = some (.cas cur) → cur ≤ length).mpr
    ⟨hp, fun t _ => hpc t⟩

/-- A thread is moved to a place that does not expect `length`. -/
lemma not_stale_update {length : ℕ} {pc : Fin n → Option PopPc} {u : Fin n} {p : Option PopPc}
    (hpc : ∀ t, t ≠ u → pc t ≠ some (.cas length)) (hp : p ≠ some (.cas length)) :
    ∀ t, Function.update pc u p t ≠ some (.cas length) :=
  (Function.forall_update_iff pc fun _ q => q ≠ some (.cas length)).mpr ⟨hp, hpc⟩

/-- A step that meets the condition keeps the invariant. -/
lemma step_poolInv {length : ℕ} (hL : length < 2 ^ 32) {weak : Bool} {s s' : Pool n}
    {a : PopAction n} (hinv : PoolInv length s) (halone : LastTaskAlone length s a)
    (hstep : poolStep length weak s a = some s') : PoolInv length s' := by
  obtain ⟨⟨hidx, hret⟩, hexp, hstale⟩ := hinv
  obtain ⟨-, rfl⟩ | ⟨hpc, hsp, rfl⟩ | ⟨hle, rfl⟩ | ⟨hlt, -, rfl⟩ | ⟨hlt, -, rfl⟩ :=
    poolStep_cases hstep
  · -- a pop begins
    exact ⟨⟨hidx, hret⟩, expects_le_update hexp (fun cur h => by cases h),
      fun heq => not_stale_update (fun t _ => hstale heq t) (by simp)⟩
  · -- a task is taken: not past the end, since nobody expects `length` once it is reached
    have hlt : s.idx < length := by
      refine lt_of_le_of_ne hidx fun heq => hstale heq a.thread ?_
      rw [hpc, heq]
    rw [u32_of_lt (show s.idx + 1 < 2 ^ 32 by omega)]
    refine ⟨⟨hlt, fun i hi => ?_⟩, expects_le_update hexp (fun cur h => by cases h),
      fun heq => not_stale_update (halone heq hpc hsp) (by simp)⟩
    rcases List.mem_append.mp hi with hi | hi
    · exact hret i hi
    · rw [List.mem_singleton, Option.some.injEq] at hi
      exact hi ▸ hlt
  · -- the queue is found empty
    refine ⟨⟨hidx, fun i hi => ?_⟩, expects_le_update hexp (fun cur h => by cases h),
      fun heq => not_stale_update (fun t _ => hstale heq t) (by simp)⟩
    rcases List.mem_append.mp hi with hi | hi
    · exact hret i hi
    · rw [List.mem_singleton] at hi
      cases hi
  · -- the load
    refine ⟨⟨hidx, hret⟩, expects_le_update hexp fun cur h => ?_, fun heq => absurd heq hlt.ne⟩
    cases h
    exact hidx
  · -- the retry
    rw [u32_of_lt (show s.idx + 1 < 2 ^ 32 by omega)]
    refine ⟨⟨hidx, hret⟩, expects_le_update hexp fun cur h => ?_, fun heq => absurd heq hlt.ne⟩
    cases h
    exact hlt

/-- The invariant holds after every run that meets the condition. -/
theorem run_poolInv {length : ℕ} (hL : length < 2 ^ 32) {weak : Bool} {as : List (PopAction n)}
    {s : Pool n} (hmeets : (popSystem n length weak).Meets (LastTaskAlone length) (poolInit n) as)
    (hrun : (popSystem n length weak).run (poolInit n) as = some s) : PoolInv length s :=
  (popSystem n length weak).run_induct_of_meets
    (fun _ _ _ hinv halone hstep => step_poolInv hL hinv halone hstep) (poolInv_init length) hmeets
    hrun

/-! ### The stale pop -/

/-- A pop that nothing disturbs takes the task at the index. -/
lemma run_pop {length : ℕ} (hL : length < 2 ^ 32) (weak : Bool) {s : Pool n} {t : Fin n}
    (hpc : s.pc t = none) (hlt : s.idx < length) :
    (popSystem n length weak).run s [⟨t, false⟩, ⟨t, false⟩, ⟨t, false⟩]
      = some ⟨s.idx + 1, s.pc, s.returned ++ [some s.idx]⟩ := by
  have hback : Function.update s.pc t none = s.pc := Function.update_eq_self_iff.mpr hpc.symm
  have hcas : rschedQueuePop length false s.idx (.cas s.idx)
      = (s.idx + 1, .ret (some s.idx)) := by
    rw [rschedQueuePop, if_pos ⟨rfl, rfl⟩, u32_of_lt (by omega)]
  have hload : rschedQueuePop length false s.idx .load = (s.idx, .next (.cas s.idx)) := by
    rw [rschedQueuePop, if_neg (by omega)]
  simp [StepSystem.run, popSystem, poolStep, hpc, hload, hcas, hback]

/-- A thread that is not inside a pop can take the next `m` tasks. -/
lemma run_pops {length : ℕ} (hL : length < 2 ^ 32) (weak : Bool) {t : Fin n} (m : ℕ) :
    ∀ {s : Pool n}, s.pc t = none → s.idx + m ≤ length →
      ∃ as r, (popSystem n length weak).run s as = some ⟨s.idx + m, s.pc, r⟩ := by
  induction m with
  | zero => exact fun {s} _ _ => ⟨[], s.returned, rfl⟩
  | succ m ih =>
      intro s hpc hle
      obtain ⟨as, r, hrun⟩ := ih hpc (by omega)
      exact ⟨_, _, (popSystem n length weak).run_trans hrun
        (run_pop hL weak (s := ⟨s.idx + m, s.pc, r⟩) hpc (by dsimp only; omega))⟩

/-- A thread can be brought to expect `length` while the last task is still there: by a spurious
failure, or by two pops of another thread in between. -/
lemma exists_stale {length : ℕ} (hL : length < 2 ^ 32) {weak : Bool} {t u : Fin n} (htu : t ≠ u)
    (hpos : 1 ≤ length) (h : weak = true ∨ 2 ≤ length) :
    ∃ as r, (popSystem n length weak).run (poolInit n) as
      = some ⟨length - 1, Function.update (fun _ => none) t (some (.cas length)), r⟩ := by
  obtain ⟨l, rfl⟩ := Nat.exists_eq_add_of_le' hpos
  have hu : u32 (l + 1) = l + 1 := u32_of_lt hL
  rcases h with rfl | h
  · -- `u` takes all tasks but the last, `t` loads its index and fails spuriously
    obtain ⟨as, r, hrun⟩ := run_pops hL true (t := u) l (s := poolInit n) rfl (by simp [poolInit])
    have hstale : (popSystem n (l + 1) true).run ⟨(poolInit n).idx + l, (poolInit n).pc, r⟩
        [⟨t, false⟩, ⟨t, false⟩, ⟨t, true⟩]
        = some ⟨l, Function.update (fun _ => none) t (some (.cas (l + 1))), r⟩ := by
      simp [StepSystem.run, popSystem, poolStep, poolInit, rschedQueuePop, hu]
    exact ⟨_, r, (popSystem n (l + 1) true).run_trans hrun hstale⟩
  · -- `t` loads one index earlier, and its exchange fails on the next one
    obtain ⟨l, rfl⟩ := Nat.exists_eq_add_of_le' (show 1 ≤ l by omega)
    obtain ⟨as, r, hrun⟩ := run_pops hL weak (t := u) l (s := poolInit n) rfl
      (by simp [poolInit]; omega)
    have hload : (popSystem n (l + 1 + 1) weak).run ⟨(poolInit n).idx + l, (poolInit n).pc, r⟩
        [⟨t, false⟩, ⟨t, false⟩]
        = some ⟨l, Function.update (fun _ => none) t (some (.cas l)), r⟩ := by
      simp [StepSystem.run, popSystem, poolStep, poolInit, rschedQueuePop]
    have hpop := run_pop hL weak (t := u)
      (s := ⟨l, Function.update (fun _ => none) t (some (.cas l)), r⟩)
      (by simp [htu.symm]) (by dsimp only; omega)
    have hretry : (popSystem n (l + 1 + 1) weak).run
        ⟨l + 1, Function.update (fun _ => none) t (some (.cas l)), r ++ [some l]⟩ [⟨t, false⟩]
        = some ⟨l + 1, Function.update (fun _ => none) t (some (.cas (l + 1 + 1))),
            r ++ [some l]⟩ := by
      simp [StepSystem.run, popSystem, poolStep, rschedQueuePop, hu]
    exact ⟨_, _, (popSystem n (l + 1 + 1) weak).run_trans hrun
      ((popSystem n (l + 1 + 1) weak).run_trans hload
        ((popSystem n (l + 1 + 1) weak).run_trans hpop hretry))⟩

/-- **The stale pop.** When the last task is taken while a thread expects `length`, the pop of
that thread returns the cell behind the tasks. -/
lemma stale_pop {length : ℕ} (hL : length < 2 ^ 32) (weak : Bool) {t u : Fin n} (htu : t ≠ u)
    (hpos : 1 ≤ length) (h : weak = true ∨ 2 ≤ length) :
    ∃ as s, (popSystem n length weak).run (poolInit n) as = some s ∧ some length ∈ s.returned := by
  obtain ⟨as, r, hrun⟩ := exists_stale hL htu hpos h
  have hlast := run_pop hL weak (t := u)
    (s := ⟨length - 1, Function.update (fun _ => none) t (some (.cas length)), r⟩)
    (by simp [htu.symm]) (by dsimp only; omega)
  have hstale : (popSystem n length weak).run
      ⟨length - 1 + 1, Function.update (fun _ => none) t (some (.cas length)),
        r ++ [some (length - 1)]⟩ [⟨t, false⟩]
      = some ⟨u32 (length + 1), fun _ => none, r ++ [some (length - 1)] ++ [some length]⟩ := by
    simp [StepSystem.run, popSystem, poolStep, rschedQueuePop, Nat.sub_add_cancel hpos]
  exact ⟨_, _, (popSystem n length weak).run_trans hrun
    ((popSystem n length weak).run_trans hlast hstale), by simp⟩

/-! ### Which pools stay within bounds -/

/-- On one task, and with exchanges that fail only on different values, every thread expects the
index `0`. -/
lemma expects_zero {as : List (PopAction n)} {s : Pool n}
    (hrun : (popSystem n 1 false).run (poolInit n) as = some s) :
    ∀ t cur, s.pc t = some (.cas cur) → cur ≤ 0 := by
  refine (popSystem n 1 false).run_induct (P := fun s => ∀ t cur, s.pc t = some (.cas cur) →
    cur ≤ 0) (fun s a s' hs hstep => ?_) (fun t cur h => by cases h) hrun
  obtain ⟨-, rfl⟩ | ⟨-, -, rfl⟩ | ⟨-, rfl⟩ | ⟨hlt, -, rfl⟩ | ⟨hlt, ⟨c, hc, hweak⟩, -⟩ :=
    poolStep_cases hstep
  · exact expects_le_update hs fun cur h => by cases h
  · exact expects_le_update hs fun cur h => by cases h
  · exact expects_le_update hs fun cur h => by cases h
  · refine expects_le_update hs fun cur h => ?_
    cases h
    omega
  · -- a retry would need a spurious failure
    have hc0 := hs a.thread c hc
    exact absurd (hweak (by omega)) (by simp)

/-- A single thread, an empty queue, and a strong compare-exchange on one task never let the last
task be taken while another thread expects `length`. -/
lemma lastTaskAlone_of_small {length : ℕ} {weak : Bool}
    (h : n ≤ 1 ∨ length = 0 ∨ weak = false ∧ length = 1) {as : List (PopAction n)} :
    (popSystem n length weak).Meets (LastTaskAlone length) (poolInit n) as := by
  refine (popSystem n length weak).meets_of_forall_reached
    fun pre a suf s _ hrun hlast _ _ t ht => ?_
  rcases h with hn | rfl | ⟨rfl, rfl⟩
  · exact absurd (Fin.ext (by omega)) ht
  · exact absurd hlast (Nat.succ_ne_zero _)
  · exact fun hc => absurd (expects_zero hrun t 1 hc) (by norm_num)

/-- **Pops stay within bounds** in every run in which the last task is only taken while no other
thread expects `length`; and a pool has no other runs exactly when it is a single thread, when
the queue is empty, or when it holds one task and the compare-exchange is strong. -/
theorem pop_in_bounds_iff (n length : ℕ) (hL : length < 2 ^ 32) (weak : Bool) :
    (∀ as s, (popSystem n length weak).Meets (LastTaskAlone length) (poolInit n) as →
        (popSystem n length weak).run (poolInit n) as = some s → InBounds length s) ∧
      ((∀ as s, (popSystem n length weak).run (poolInit n) as = some s → InBounds length s)
        ↔ n ≤ 1 ∨ length = 0 ∨ weak = false ∧ length = 1) := by
  refine ⟨fun as s hmeets hrun => (run_poolInv hL hmeets hrun).bounds, fun hall => ?_, fun h as s
    hrun => (run_poolInv hL (lastTaskAlone_of_small h) hrun).bounds⟩
  by_contra hno
  rw [not_or, not_or, not_and] at hno
  obtain ⟨hn, hpos, hweak⟩ := hno
  have hcase : weak = true ∨ 2 ≤ length := by
    cases weak with
    | true => exact Or.inl rfl
    | false => exact Or.inr (by have hne := hweak rfl; omega)
  have htwo : 1 < n := by omega
  obtain ⟨as, s, hrun, hmem⟩ := stale_pop hL weak (t := ⟨0, by omega⟩) (u := ⟨1, htwo⟩)
    (by simp) (by omega) hcase
  exact absurd ((hall as s hrun).2 length hmem) (lt_irrefl length)

/-- Two threads on three tasks. The first one loads the index `0`, the second one takes the task
`0`; the exchange of the first fails on `1`, the second takes the task `1` and the first the task
`2`, which it expects; the second finds the queue empty. -/
def racingPops : List (PopAction 2) :=
  let a : Fin 2 := ⟨0, Nat.zero_lt_two⟩
  let b : Fin 2 := ⟨1, Nat.one_lt_two⟩
  [a, a, b, b, b, a, b, b, b, a, b, b].map (⟨·, false⟩)

/-- The theorem at two threads whose exchanges cross. -/
theorem pop_in_bounds_two_threads :
    (popSystem 2 3 true).Meets (LastTaskAlone 3) (poolInit 2) racingPops ∧
      ∃ s, (popSystem 2 3 true).run (poolInit 2) racingPops = some s ∧
        s.returned = [some 0, some 1, some 2, none] ∧ InBounds 3 s := by
  have hmeets : (popSystem 2 3 true).Meets (LastTaskAlone 3) (poolInit 2) racingPops := by
    decide +kernel
  have hreturned : ((popSystem 2 3 true).run (poolInit 2) racingPops).map Pool.returned
      = some [some 0, some 1, some 2, none] := by
    decide +kernel
  obtain ⟨s, hrun, hs⟩ := Option.map_eq_some_iff.mp hreturned
  exact ⟨hmeets, s, hrun, hs, (pop_in_bounds_iff 2 3 (by norm_num) true).1 _ s hmeets hrun⟩

/-- **A pop returns the cell behind the tasks**: two threads and two tasks, with exchanges that
fail only on different values. One thread loads the index `0`; the other takes both tasks, the
second one after the exchange of the first has failed on `1` and expects `2`. -/
theorem pop_past_end :
    ¬ ∀ (n length : ℕ), length < 2 ^ 32 → ∀ as s,
      (popSystem n length false).run (poolInit n) as = some s → InBounds length s := by
  intro h
  obtain ⟨as, s, hrun, hmem⟩ := stale_pop (by norm_num : 2 < 2 ^ 32) false
    (t := (0 : Fin 2)) (u := 1) (by decide) (by norm_num) (Or.inr le_rfl)
  exact absurd ((h 2 2 (by norm_num) as s hrun).2 2 hmem) (lt_irrefl 2)

end Pool

end Mdb
