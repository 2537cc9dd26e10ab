import Mdb.Sched.Pop

/-!
Which pops of a pool get on.

A failed exchange of `rsched_queue_pop` makes the thread expect the successor of the index it has
just read, not the index itself. A thread that expects another value than the index of a queue
that still holds tasks is `Stranded`: left alone it fails, expects the successor and fails again
for ever (`step_stranded`). Every other thread inside a pop returns within two steps of its own
(`returns_of_not_stranded`).

* `pop_alone_iff`: a pop left alone returns iff it is not stranded, and the pools none of whose
  runs strands a thread;
* `pool_not_all_stranded`: with a strong compare-exchange never all threads are stranded, since
  the thread that moved the index last has not expected anything else since.
-/

namespace Mdb

/-- The successor of a 32-bit counter is never the counter. -/
lemma u32_succ_ne (n : ℕ) : u32 (n + 1) ≠ n := by
  rw [u32]
  omega

variable {n : ℕ}

/-- The thread is in the retry loop of a pop and expects another value than the index, although
tasks are left. -/
def Stranded (length : ℕ) (s : Pool n) (t : Fin n) : Prop :=
  s.idx < length ∧ ∃ cur, s.pc t = some (.cas cur) ∧ cur ≠ s.idx

/-- The pop of `t` returns if only `t` goes on and its exchange succeeds on equal values. -/
def ReturnsAlone (length : ℕ) (weak : Bool) (s : Pool n) (t : Fin n) : Prop :=
  ∃ k s', (popSystem n length weak).run s (List.replicate k ⟨t, false⟩) = some s' ∧
    s'.pc t = none

/-! ### One pop alone -/

/-- A stranded thread stays stranded by its own steps. -/
lemma step_stranded {length : ℕ} {weak sp : Bool} {s s' : Pool n} {t : Fin n}
    (h : Stranded length s t) (hstep : poolStep length weak s ⟨t, sp⟩ = some s') :
    Stranded length s' t := by
  obtain ⟨hlt, cur, hpc, hne⟩ := h
  obtain ⟨hnone, -⟩ | ⟨hcas, -⟩ | ⟨hle, -⟩ | ⟨-, hload, -⟩ | ⟨-, -, rfl⟩ := poolStep_cases hstep
  · rw [hpc] at hnone
    cases hnone
  · rw [hpc] at hcas
    cases hcas
    exact absurd rfl hne
  · exact absurd hlt (not_lt.mpr hle)
  · rw [hpc] at hload
    cases hload
  · exact ⟨hlt, _, Function.update_self .., u32_succ_ne s.idx⟩

/-- A stranded thread never returns alone. -/
lemma not_returnsAlone_of_stranded {length : ℕ} {weak : Bool} {s : Pool n} {t : Fin n}
    (h : Stranded length s t) : ¬ ReturnsAlone length weak s t := by
  rintro ⟨k, s', hrun, hpc⟩
  have hsteps : (popSystem n length weak).Meets (fun _ a => a = ⟨t, false⟩) s
      (List.replicate k ⟨t, false⟩) := by
    refine (popSystem n length weak).meets_of_forall_reached fun pre a suf u heq _ => ?_
    exact List.eq_of_mem_replicate (heq ▸ List.mem_append_right pre List.mem_cons_self)
  have hstay : Stranded length s' t :=
    (popSystem n length weak).run_induct_of_meets (P := fun s => Stranded length s t)
      (fun s a s' hs ha hstep => by
        have hstep' : poolStep length weak s ⟨t, false⟩ = some s' := ha ▸ hstep
        exact step_stranded hs hstep') h hsteps hrun
  obtain ⟨-, cur, hcas, -⟩ := hstay
  rw [hpc] at hcas
  cases hcas

/-- A thread whose next step ends the pop returns alone. -/
lemma returns_of_ret {length : ℕ} {weak : Bool} {s : Pool n} {t : Fin n} {pc : PopPc} {idx : ℕ}
    {task : Option ℕ} (hpc : s.pc t = some pc)
    (h : rschedQueuePop length false s.idx pc = (idx, .ret task)) :
    ReturnsAlone length weak s t :=
  ⟨1, ⟨idx, Function.update s.pc t none, s.returned ++ [task]⟩,
    by simp [popSystem, poolStep, hpc, h], Function.update_self ..⟩

/-- A thread whose step goes on returns alone if it does after that step. -/
lemma returns_of_next {length : ℕ} {weak : Bool} {s : Pool n} {t : Fin n} {pc pc' : PopPc}
    {idx : ℕ} (hpc : s.pc t = some pc)
    (h : rschedQueuePop length false s.idx pc = (idx, .next pc'))
    (hnext : ReturnsAlone length weak
      { s with idx := idx, pc := Function.update s.pc t (some pc') } t) :
    ReturnsAlone length weak s t := by
  obtain ⟨k, s', hrun, hout⟩ := hnext
  refine ⟨k + 1, s', ?_, hout⟩
  rw [List.replicate_succ, StepSystem.run_cons_of_step _ ?_, hrun]
  simp [popSystem, poolStep, hpc, h]

/-- A thread inside a pop that is not stranded returns within two steps. -/
lemma returns_of_not_stranded {length : ℕ} {weak : Bool} {s : Pool n} {t : Fin n} {pc : PopPc}
    (hpc : s.pc t = some pc) (h : ¬ Stranded length s t) : ReturnsAlone length weak s t := by
  obtain ⟨-, -, heq⟩ | ⟨-, heq⟩ | ⟨hlt, -, heq⟩ | ⟨hlt, ⟨cur, rfl, hcur⟩, -⟩ :=
    rschedQueuePop_cases length false s.idx pc
  · exact returns_of_ret hpc heq
  · exact returns_of_ret hpc heq
  · -- after the load the thread expects the index
    have hcas : rschedQueuePop length false s.idx (.cas s.idx)
        = (u32 (s.idx + 1), .ret (some s.idx)) := by
      rw [rschedQueuePop, if_pos ⟨rfl, rfl⟩]
    exact returns_of_next hpc heq (returns_of_ret (Function.update_self ..) hcas)
  · exact absurd ⟨hlt, cur, hpc, fun hc => Bool.false_ne_true (hcur hc)⟩ h

/-! ### Which pools strand a thread -/

/-- The pools that strand no thread: nobody pops, there is nothing to pop, or exchanges fail only
on different values and there is one thread or one task. -/
def NeverStrands (n length : ℕ) (weak : Bool) : Prop :=
  n = 0 ∨ length = 0 ∨ weak = false ∧ (n = 1 ∨ length = 1)

/-- A single thread whose exchanges fail only on different values expects the index: nobody else
moves it. -/
lemma expects_idx_of_single {length : ℕ} {as : List (PopAction 1)} {s : Pool 1}
    (hrun : (popSystem 1 length false).run (poolInit 1) as = some s) :
    ∀ t cur, s.pc t = some (.cas cur) → cur = s.idx := by
  refine (popSystem 1 length false).run_induct (P := fun s => ∀ t cur, s.pc t = some (.cas cur) →
    cur = s.idx) (fun s a s' hs hstep t cur h => ?_) (fun t cur h => by cases h) hrun
  rw [Subsingleton.elim t a.thread] at h
  obtain ⟨-, rfl⟩ | ⟨-, -, rfl⟩ | ⟨-, rfl⟩ | ⟨-, -, rfl⟩ | ⟨-, ⟨c, hc, hweak⟩, -⟩ :=
    poolStep_cases hstep
  · dsimp only at h
    rw [Function.update_self] at h
    cases h
  · dsimp only at h
    rw [Function.update_self] at h
    cases h
  · dsimp only at h
    rw [Function.update_self] at h
    cases h
  · dsimp only at h
    rw [Function.update_self] at h
    cases h
    rfl
  · exact absurd (hweak (hs a.thread c hc)) Bool.false_ne_true

/-- In the pools that strand no thread nobody is stranded. -/
lemma not_stranded_of_never {length : ℕ} {weak : Bool} (h : NeverStrands n length weak)
    {as : List (PopAction n)} {s : Pool n}
    (hrun : (popSystem n length weak).run (poolInit n) as = some s) (t : Fin n) :
    ¬ Stranded length s t := by
  rintro ⟨hlt, cur, hpc, hne⟩
  rcases h with rfl | rfl | ⟨rfl, rfl | rfl⟩
  · exact t.elim0
  · exact absurd hlt (Nat.not_lt_zero _)
  · exact hne (expects_idx_of_single hrun t cur hpc)
  · have hcur := expects_zero hrun t cur hpc
    omega

/-- In every other pool some run strands a thread. -/
lemma exists_stranded {length : ℕ} (hL : length < 2 ^ 32) {weak : Bool}
    (h : ¬ NeverStrands n length weak) :
    ∃ as s t, (popSystem n length weak).run (poolInit n) as = some s ∧ Stranded length s t := by
  rw [NeverStrands, not_or, not_or, not_and_or, not_or] at h
  obtain ⟨hn, hpos, hcase⟩ := h
  by_cases hweak : weak = true
  · -- a first exchange fails on the equal values `0`
    subst hweak
    have hlt : 0 < length := by omega
    have hu : u32 1 = 1 := u32_of_lt (by norm_num)
    refine ⟨[⟨⟨0, by omega⟩, false⟩, ⟨⟨0, by omega⟩, false⟩, ⟨⟨0, by omega⟩, true⟩],
      ⟨0, Function.update (fun _ => none) ⟨0, by omega⟩ (some (.cas 1)), []⟩, ⟨0, by omega⟩, ?_,
      hlt, 1, by simp, one_ne_zero⟩
    simp [StepSystem.run, popSystem, poolStep, poolInit, rschedQueuePop, hu, hpos]
  · have hlen : 2 ≤ length := by
      rcases hcase with hw | ⟨hn1, hl⟩
      · exact absurd (Bool.eq_false_of_not_eq_true hweak) hw
      · omega
    have htwo : 1 < n := by
      rcases hcase with hw | ⟨hn1, hl⟩
      · exact absurd (Bool.eq_false_of_not_eq_true hweak) hw
      · omega
    obtain ⟨as, r, hrun⟩ := @exists_stale n length hL weak ⟨0, by omega⟩ ⟨1, htwo⟩ (by simp)
      (by omega) (Or.inr hlen)
    refine ⟨as, _, ⟨0, by omega⟩, hrun, by dsimp only; omega, length, by simp, ?_⟩
    dsimp only
    omega

/-- **A pop alone, exactly.** A thread inside a pop returns when only it goes on iff it is not
stranded; and the pools of which no run strands a thread are those of no thread or no task, and
with a strong compare-exchange those of one thread or one task. -/
theorem pop_alone_iff (n length : ℕ) (hL : length < 2 ^ 32) (weak : Bool) :
    (∀ as s t pc, (popSystem n length weak).run (poolInit n) as = some s → s.pc t = some pc →
        (ReturnsAlone length weak s t ↔ ¬ Stranded length s t)) ∧
      ((∀ as s t pc, (popSystem n length weak).run (poolInit n) as = some s → s.pc t = some pc →
          ReturnsAlone length weak s t)
        ↔ NeverStrands n length weak) := by
  refine ⟨fun as s t pc _ hpc => ⟨fun h hs => not_returnsAlone_of_stranded hs h,
    returns_of_not_stranded hpc⟩, fun hall => ?_, fun h as s t pc hrun hpc =>
    returns_of_not_stranded hpc (not_stranded_of_never h hrun t)⟩
  by_contra hno
  obtain ⟨as, s, t, hrun, hs⟩ := exists_stranded hL hno
  have hs' := hs
  obtain ⟨-, cur, hpc, -⟩ := hs'
  exact not_returnsAlone_of_stranded hs (hall as s t _ hrun hpc)

/-- The theorem at two threads and one task, one of them before its load. -/
theorem pop_alone_two_threads :
    ReturnsAlone 1 false ⟨0, Function.update (fun _ => none) (0 : Fin 2) (some .load), []⟩ 0 :=
  (pop_alone_iff 2 1 (by norm_num) false).2.mpr (Or.inr (Or.inr ⟨rfl, Or.inr rfl⟩)) [⟨0, false⟩] _
    0 .load (by simp [popSystem, poolStep, poolInit]) (by simp)

/-- **A pop alone need not finish**: two threads and two tasks, with exchanges that fail only on
different values. One thread loads the index `0`, the other takes the first task, and the first
thread then expects `2` for ever. -/
theorem pop_alone_stuck :
    ¬ ∀ (n length : ℕ), length < 2 ^ 32 → ∀ as s t pc,
      (popSystem n length false).run (poolInit n) as = some s → s.pc t = some pc →
        ReturnsAlone length false s t := by
  intro h
  obtain ⟨as, s, t, hrun, hs⟩ := @exists_stranded 2 2 (by norm_num) false (by simp [NeverStrands])
  have hs' := hs
  obtain ⟨-, cur, hpc, -⟩ := hs'
  exact not_returnsAlone_of_stranded hs (h 2 2 (by norm_num) as s t _ hrun hpc)

/-! ### All threads at once -/

/-- The thread that moved the index last: outside a pop, before its load, or expecting the
index. -/
def Fresh (s : Pool n) (t : Fin n) : Prop :=
  s.pc t = none ∨ s.pc t = some .load ∨ s.pc t = some (.cas s.idx)

/-- With a strong compare-exchange a step keeps a thread fresh, or the thread that made it is. -/
lemma step_fresh {length : ℕ} {s s' : Pool n} {a : PopAction n} {t : Fin n} (h : Fresh s t)
    (hstep : poolStep length false s a = some s') : ∃ u, Fresh s' u := by
  by_cases hta : t = a.thread
  · subst hta
    refine ⟨a.thread, ?_⟩
    obtain ⟨-, rfl⟩ | ⟨-, -, rfl⟩ | ⟨-, rfl⟩ | ⟨-, -, rfl⟩ | ⟨-, ⟨cur, hpc, hweak⟩, -⟩ :=
      poolStep_cases hstep
    · exact Or.inr (Or.inl (Function.update_self ..))
    · exact Or.inl (Function.update_self ..)
    · exact Or.inl (Function.update_self ..)
    · exact Or.inr (Or.inr (Function.update_self ..))
    · -- a fresh thread expects the index, and its exchange does not fail
      rcases h with h | h | h
      · rw [hpc] at h
        cases h
      · rw [hpc] at h
        cases h
      · rw [hpc] at h
        cases h
        exact absurd (hweak rfl) Bool.false_ne_true
  · have hother : ∀ p : Option PopPc, Function.update s.pc a.thread p t = s.pc t :=
      fun p => Function.update_of_ne hta ..
    obtain ⟨-, rfl⟩ | ⟨-, -, rfl⟩ | ⟨-, rfl⟩ | ⟨-, -, rfl⟩ | ⟨-, -, rfl⟩ := poolStep_cases hstep
    · exact ⟨t, by rw [Fresh]; dsimp only; rwa [hother]⟩
    · -- the index moves: the thread that moved it has left its pop
      exact ⟨a.thread, Or.inl (Function.update_self ..)⟩
    · exact ⟨t, by rw [Fresh]; dsimp only; rwa [hother]⟩
    · exact ⟨t, by rw [Fresh]; dsimp only; rwa [hother]⟩
    · exact ⟨t, by rw [Fresh]; dsimp only; rwa [hother]⟩

/-- **Tasks never strand all threads.** With a compare-exchange that fails only on different
values, after every run of a pool of at least one thread some thread is not stranded: it is
outside a pop, or it returns when only it goes on. -/
theorem pool_not_all_stranded {length : ℕ} (hn : 1 ≤ n) {as : List (PopAction n)} {s : Pool n}
    (hrun : (popSystem n length false).run (poolInit n) as = some s) :
    ∃ t, ¬ Stranded length s t ∧ (s.pc t = none ∨ ReturnsAlone length false s t) := by
  obtain ⟨t, ht⟩ := (popSystem n length false).run_induct (P := fun s => ∃ t, Fresh s t)
    (fun s a s' ⟨t, ht⟩ hstep => step_fresh ht hstep) ⟨⟨0, hn⟩, Or.inl rfl⟩ hrun
  have hns : ¬ Stranded length s t := by
    rintro ⟨-, cur, hpc, hne⟩
    rcases ht with h | h | h
    · rw [hpc] at h
      cases h
    · rw [hpc] at h
      cases h
    · rw [hpc] at h
      cases h
      exact hne rfl
  refine ⟨t, hns, ?_⟩
  rcases hpc : s.pc t with _ | pc
  · exact Or.inl rfl
  · exact Or.inr (returns_of_not_stranded hpc hns)

/-- The theorem at two threads and two tasks, after a run that strands the first thread. -/
theorem pool_not_all_stranded_pair :
    ∃ s, (popSystem 2 2 false).run (poolInit 2) [⟨0, false⟩, ⟨0, false⟩, ⟨1, false⟩, ⟨1, false⟩,
        ⟨1, false⟩, ⟨0, false⟩] = some s ∧
      ∃ t, ¬ Stranded 2 s t ∧ (s.pc t = none ∨ ReturnsAlone 2 false s t) :=
  Exists.imp (fun _ hrun => ⟨hrun, pool_not_all_stranded (by norm_num) hrun⟩) ⟨_, rfl⟩

end Mdb
