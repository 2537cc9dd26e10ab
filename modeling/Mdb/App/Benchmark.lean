import Mdb.Base.Word
import Mdb.Library.StepSystem
import Mdb.Library.Tally

/-!
The counters of a benchmark (`app/benchmark.c`).

`benchmark_proc_fun` records the time of a block in four shared counters: two retry loops around
a compare-exchange for the minimum and the maximum, two atomic additions for the sum and the
count. `benchSystem` steps any number of threads, each with the times of its own calls, one atomic
operation at a time; the compare-exchange may fail on equal values.

A call has a `phase`: the counter it comes to next. Its time is pending for that counter and the
ones after it, and each counter carries the tally of its pending times along (`BenchInv`), so no
step loses a time: a loop that ends without a store has found a better extremum.

* `run_benchInv`: the tallies of the four counters stay what they were at the start;
* `benchmark_counters`: the values of the counters once every call has returned;
* `benchmark_count_wraps`: the count is one of a 64-bit counter.
-/

namespace Mdb

/-! ### The counters -/

/-- `UINT64_MAX`. -/
def uint64Max : ℕ := 2 ^ 64 - 1

/-- The counters of `struct benchmark`. -/
structure Benchmark where
  totalBlockTime : ℕ
  minBlockTime : ℕ
  maxBlockTime : ℕ
  blockCount : ℕ
  deriving DecidableEq, Repr

/-- The counters as `benchmark_create` leaves them. -/
def benchmarkCreate : Benchmark :=
  { totalBlockTime := 0, minBlockTime := uint64Max, maxBlockTime := 0, blockCount := 0 }

/-- Where a thread stands inside `benchmark_proc_fun`, once `elapsed_time` is known: before which
atomic operation, and what a compare-exchange expects. -/
inductive BenchPc where
  | loadMin (elapsed : ℕ)
  | casMin (elapsed cur : ℕ)
  | loadMax (elapsed : ℕ)
  | casMax (elapsed cur : ℕ)
  | addTotal (elapsed : ℕ)
  | addCount (elapsed : ℕ)
  deriving DecidableEq

/-- The test `min_time > elapsed_time` of the first loop. -/
def minLoop (elapsed cur : ℕ) : BenchPc :=
  if cur > elapsed then .casMin elapsed cur else .loadMax elapsed

/-- The test `max_time < elapsed_time` of the second loop. -/
def maxLoop (elapsed cur : ℕ) : BenchPc :=
  if cur < elapsed then .casMax elapsed cur else .addTotal elapsed

/-- An atomic operation of `benchmark_proc_fun`: the counters after it and where the thread stands
then, `none` once the call has returned. -/
def benchmarkProcFun (spurious : Bool) (bench : Benchmark) : BenchPc → Benchmark × Option BenchPc
  | .loadMin elapsed => (bench, some (minLoop elapsed bench.minBlockTime))
  | .casMin elapsed cur =>
      if bench.minBlockTime = cur ∧ spurious = false then
        ({ bench with minBlockTime := elapsed }, some (.loadMax elapsed))
      else (bench, some (minLoop elapsed bench.minBlockTime))
  | .loadMax elapsed => (bench, some (maxLoop elapsed bench.maxBlockTime))
  | .casMax elapsed cur =>
      if bench.maxBlockTime = cur ∧ spurious = false then
        ({ bench with maxBlockTime := elapsed }, some (.addTotal elapsed))
      else (bench, some (maxLoop elapsed bench.maxBlockTime))
  | .addTotal elapsed =>
      ({ bench with totalBlockTime := u64 (bench.totalBlockTime + elapsed) },
        some (.addCount elapsed))
  | .addCount _ => ({ bench with blockCount := u64 (bench.blockCount + 1) }, none)

/-! ### The threads -/

/-- A thread: the times of the calls it has still to make, and where it stands inside one. -/
structure BenchThread where
  times : List ℕ
  pc : Option BenchPc
  deriving DecidableEq

/-- The counters and the threads. -/
structure BenchPool (n : ℕ) where
  bench : Benchmark
  thread : Fin n → BenchThread

/-- A step of a thread; a weak compare-exchange may fail on equal values. -/
structure BenchAction (n : ℕ) where
  thread : Fin n
  spurious : Bool

section Pool

variable {n : ℕ}

/-- A step of the pool: a thread begins its next call, or makes an atomic operation. -/
def benchStep (s : BenchPool n) (a : BenchAction n) : Option (BenchPool n) :=
  match (s.thread a.thread).pc, (s.thread a.thread).times with
  | none, [] => none
  | none, elapsed :: times =>
      some { s with thread := Function.update s.thread a.thread ⟨times, some (.loadMin elapsed)⟩ }
  | some pc, times =>
      let r := benchmarkProcFun a.spurious s.bench pc
      some ⟨r.1, Function.update s.thread a.thread ⟨times, r.2⟩⟩

/-- The pool as a step system. -/
def benchSystem (n : ℕ) : StepSystem (BenchPool n) (BenchAction n) := ⟨benchStep⟩

/-- The counters are created and no call has begun. -/
def benchInit (times : Fin n → List ℕ) : BenchPool n :=
  ⟨benchmarkCreate, fun t => ⟨times t, none⟩⟩

/-! ### What is pending -/

/-- The time a call records. -/
def BenchPc.elapsed : BenchPc → ℕ
  | .loadMin elapsed | .casMin elapsed _ | .loadMax elapsed | .casMax elapsed _
  | .addTotal elapsed | .addCount elapsed => elapsed

/-- The counter a call comes to next: minimum, maximum, total, count. -/
def BenchPc.phase : BenchPc → ℕ
  | .loadMin _ | .casMin _ _ => 0
  | .loadMax _ | .casMax _ _ => 1
  | .addTotal _ => 2
  | .addCount _ => 3

/-- The times a thread has still to record in the counter `k`. -/
def BenchThread.pending (k : ℕ) (th : BenchThread) : Multiset ℕ :=
  match th.pc with
  | none => th.times
  | some pc => if pc.phase ≤ k then pc.elapsed ::ₘ (th.times : Multiset ℕ) else th.times

/-- A compare-exchange is only made for a better extremum. -/
def BenchPc.Improves : BenchPc → Prop
  | .casMin elapsed cur => elapsed < cur
  | .casMax elapsed cur => cur < elapsed
  | _ => True

/-- The first loop goes on to expect a value it improves, or the minimum is already no more than
the time. -/
lemma minLoop_cases (bench : Benchmark) (e : ℕ) :
    (∃ pc, minLoop e bench.minBlockTime = pc ∧ pc.Improves ∧ pc.phase = 0 ∧ pc.elapsed = e) ∨
      (bench, some (minLoop e bench.minBlockTime))
        = ({ bench with minBlockTime := min bench.minBlockTime e }, some (.loadMax e)) := by
  by_cases h : bench.minBlockTime > e
  · exact Or.inl ⟨.casMin e bench.minBlockTime, if_pos h, h, rfl, rfl⟩
  · exact Or.inr (by rw [minLoop, if_neg h, min_eq_left (not_lt.mp h)])

/-- The second loop goes on to expect a value it improves, or the maximum is already no less than
the time. -/
lemma maxLoop_cases (bench : Benchmark) (e : ℕ) :
    (∃ pc, maxLoop e bench.maxBlockTime = pc ∧ pc.Improves ∧ pc.phase = 1 ∧ pc.elapsed = e) ∨
      (bench, some (maxLoop e bench.maxBlockTime))
        = ({ bench with maxBlockTime := max bench.maxBlockTime e }, some (.addTotal e)) := by
  by_cases h : bench.maxBlockTime < e
  · exact Or.inl ⟨.casMax e bench.maxBlockTime, if_pos h, h, rfl, rfl⟩
  · exact Or.inr (by rw [maxLoop, if_neg h, max_eq_left (not_lt.mp h)])

/-- What an atomic operation does: the call stays before the same counter and changes nothing, or
it goes on to the next one, its time recorded in the counter it leaves. -/
lemma benchmarkProcFun_cases (spurious : Bool) (bench : Benchmark) {pc : BenchPc}
    (h : pc.Improves) :
    (∃ pc', benchmarkProcFun spurious bench pc = (bench, some pc') ∧ pc'.Improves ∧
        pc'.phase = pc.phase ∧ pc'.elapsed = pc.elapsed) ∨
      (pc.phase = 0 ∧ benchmarkProcFun spurious bench pc
        = ({ bench with minBlockTime := min bench.minBlockTime pc.elapsed },
          some (.loadMax pc.elapsed))) ∨
      (pc.phase = 1 ∧ benchmarkProcFun spurious bench pc
        = ({ bench with maxBlockTime := max bench.maxBlockTime pc.elapsed },
          some (.addTotal pc.elapsed))) ∨
      (pc.phase = 2 ∧ benchmarkProcFun spurious bench pc
        = ({ bench with totalBlockTime := addMod (2 ^ 64) bench.totalBlockTime pc.elapsed },
          some (.addCount pc.elapsed))) ∨
      (pc.phase = 3 ∧ benchmarkProcFun spurious bench pc
        = ({ bench with blockCount := addMod (2 ^ 64) bench.blockCount 1 }, none)) := by
  cases pc with
  | loadMin e =>
      rcases minLoop_cases bench e with ⟨pc', hpc, hstay⟩ | heq
      · exact Or.inl ⟨pc', by rw [benchmarkProcFun, hpc], hstay⟩
      · exact Or.inr (Or.inl ⟨rfl, heq⟩)
  | casMin e cur =>
      by_cases hok : bench.minBlockTime = cur ∧ spurious = false
      · have hmin : min bench.minBlockTime e = e := min_eq_right (hok.1 ▸ h.le)
        exact Or.inr (Or.inl ⟨rfl, by rw [benchmarkProcFun, if_pos hok, BenchPc.elapsed, hmin]⟩)
      · rw [benchmarkProcFun, if_neg hok]
        rcases minLoop_cases bench e with ⟨pc', hpc, hstay⟩ | heq
        · exact Or.inl ⟨pc', by rw [hpc], hstay⟩
        · exact Or.inr (Or.inl ⟨rfl, heq⟩)
  | loadMax e =>
      rcases maxLoop_cases bench e with ⟨pc', hpc, hstay⟩ | heq
      · exact Or.inl ⟨pc', by rw [benchmarkProcFun, hpc], hstay⟩
      · exact Or.inr (Or.inr (Or.inl ⟨rfl, heq⟩))
  | casMax e cur =>
      by_cases hok : bench.maxBlockTime = cur ∧ spurious = false
      · have hmax : max bench.maxBlockTime e = e := max_eq_right (hok.1 ▸ h.le)
        exact Or.inr (Or.inr (Or.inl
          ⟨rfl, by rw [benchmarkProcFun, if_pos hok, BenchPc.elapsed, hmax]⟩))
      · rw [benchmarkProcFun, if_neg hok]
        rcases maxLoop_cases bench e with ⟨pc', hpc, hstay⟩ | heq
        · exact Or.inl ⟨pc', by rw [hpc], hstay⟩
        · exact Or.inr (Or.inr (Or.inl ⟨rfl, heq⟩))
  | addTotal e => exact Or.inr (Or.inr (Or.inr (Or.inl ⟨rfl, rfl⟩)))
  | addCount e => exact Or.inr (Or.inr (Or.inr (Or.inr ⟨rfl, rfl⟩)))

/-- The steps of the pool: a call begins, or makes an atomic operation. -/
lemma benchStep_cases {s s' : BenchPool n} {a : BenchAction n} (h : benchStep s a = some s') :
    (∃ e times, s.thread a.thread = ⟨e :: times, none⟩ ∧ s' = { s with
        thread := Function.update s.thread a.thread ⟨times, some (.loadMin e)⟩ }) ∨
      ∃ times pc, s.thread a.thread = ⟨times, some pc⟩ ∧
        s' = ⟨(benchmarkProcFun a.spurious s.bench pc).1, Function.update s.thread a.thread
          ⟨times, (benchmarkProcFun a.spurious s.bench pc).2⟩⟩ := by
  rw [benchStep] at h
  rcases hth : s.thread a.thread with ⟨_ | ⟨e, times⟩, _ | pc⟩ <;> rw [hth] at h
  · cases h
  · exact Or.inr ⟨_, pc, rfl, (Option.some.inj h).symm⟩
  · exact Or.inl ⟨e, times, rfl, (Option.some.inj h).symm⟩
  · exact Or.inr ⟨_, pc, rfl, (Option.some.inj h).symm⟩

/-! ### The tallies -/

/-- What the threads have still to record in the counter `k`. -/
def BenchPool.pending (k : ℕ) (s : BenchPool n) (t : Fin n) : Multiset ℕ :=
  (s.thread t).pending k

/-- The invariant: no exchange is made for a worse extremum, and each counter and what is pending
for it come to the values given. -/
structure BenchInv (least greatest total count : ℕ) (s : BenchPool n) : Prop where
  improves : ∀ t pc, (s.thread t).pc = some pc → pc.Improves
  least_eq : tally min id s.bench.minBlockTime (s.pending 0) = least
  greatest_eq : tally max id s.bench.maxBlockTime (s.pending 1) = greatest
  total_eq : tally (addMod (2 ^ 64)) id s.bench.totalBlockTime (s.pending 2) = total
  count_eq : tally (addMod (2 ^ 64)) (fun _ => 1) s.bench.blockCount (s.pending 3) = count

section Tally

variable {M : Type*} {op : M → M → M} [Std.Commutative op] [Std.Associative op] {w : ℕ → M}
  {cell : M} {k : ℕ} {s : BenchPool n} {t : Fin n} {th th' : BenchThread} {bench : Benchmark}

lemma pending_update : BenchPool.pending k ⟨bench, Function.update s.thread t th'⟩
    = Function.update (s.pending k) t (th'.pending k) := by
  funext i
  exact Function.apply_update (fun _ => BenchThread.pending k) s.thread t th' i

/-- A thread that has the same times pending leaves the tally alone. -/
lemma tally_of_pending_eq (hth : s.thread t = th) (h : th'.pending k = th.pending k) :
    tally op w cell (BenchPool.pending k ⟨bench, Function.update s.thread t th'⟩)
      = tally op w cell (s.pending k) := by
  rw [pending_update]
  exact tally_update_of_eq (by rw [h, BenchPool.pending, hth])

/-- A thread that records a pending time leaves the tally alone. -/
lemma tally_of_pending_cons {e : ℕ} (hth : s.thread t = th)
    (h : th.pending k = e ::ₘ th'.pending k) :
    tally op w (op cell (w e)) (BenchPool.pending k ⟨bench, Function.update s.thread t th'⟩)
      = tally op w cell (s.pending k) := by
  rw [pending_update]
  exact tally_record (by rw [← h, BenchPool.pending, hth])

end Tally

/-- A call that goes on to the next counter leaves its time recorded in the one before. -/
lemma pending_cons {pc pc' : BenchPc} (hphase : pc'.phase = pc.phase + 1) {k : ℕ}
    (hk : pc.phase = k) (times : List ℕ) :
    (⟨times, some pc⟩ : BenchThread).pending k
      = pc.elapsed ::ₘ (⟨times, some pc'⟩ : BenchThread).pending k := by
  have hlt : ¬ pc'.phase ≤ k := by omega
  simp only [BenchThread.pending, if_pos hk.le, if_neg hlt]

/-- The other counters have the same times pending. -/
lemma pending_of_ne {pc pc' : BenchPc} (hphase : pc'.phase = pc.phase + 1)
    (helapsed : pc'.elapsed = pc.elapsed) {k : ℕ} (hk : pc.phase ≠ k) (times : List ℕ) :
    (⟨times, some pc'⟩ : BenchThread).pending k = (⟨times, some pc⟩ : BenchThread).pending k := by
  have hiff : pc'.phase ≤ k ↔ pc.phase ≤ k := by omega
  simp only [BenchThread.pending, helapsed, hiff]

/-- A call that returns has its time recorded in every counter but the count before that. -/
lemma pending_return {pc : BenchPc} (hphase : pc.phase = 3) {k : ℕ} (hk : k < 3)
    (times : List ℕ) :
    (⟨times, none⟩ : BenchThread).pending k = (⟨times, some pc⟩ : BenchThread).pending k :=
  (if_neg (by omega : ¬ pc.phase ≤ k)).symm

/-- A thread that moves without recording anything keeps the invariant. -/
lemma BenchInv.of_pending_eq {least greatest total count : ℕ} {s : BenchPool n} {t : Fin n}
    {th th' : BenchThread} (h : BenchInv least greatest total count s) (hth : s.thread t = th)
    (hpend : ∀ k, th'.pending k = th.pending k) (himp : ∀ pc, th'.pc = some pc → pc.Improves) :
    BenchInv least greatest total count
      { s with thread := Function.update s.thread t th' } where
  improves := (Function.forall_update_iff s.thread fun _ th => ∀ pc, th.pc = some pc →
    pc.Improves).mpr ⟨himp, fun t _ => h.improves t⟩
  least_eq := (tally_of_pending_eq hth (hpend 0)).trans h.least_eq
  greatest_eq := (tally_of_pending_eq hth (hpend 1)).trans h.greatest_eq
  total_eq := (tally_of_pending_eq hth (hpend 2)).trans h.total_eq
  count_eq := (tally_of_pending_eq hth (hpend 3)).trans h.count_eq

/-- A step keeps the invariant. -/
lemma step_benchInv {least greatest total count : ℕ} {s s' : BenchPool n} {a : BenchAction n}
    (h : BenchInv least greatest total count s) (hstep : benchStep s a = some s') :
    BenchInv least greatest total count s' := by
  obtain ⟨himp, hmin, hmax, htot, hcnt⟩ := id h
  have hmoved : ∀ {bench : Benchmark} {th : BenchThread},
      (∀ pc, th.pc = some pc → pc.Improves) → ∀ t pc,
        ((⟨bench, Function.update s.thread a.thread th⟩ : BenchPool n).thread t).pc = some pc →
          pc.Improves := fun hth =>
    (Function.forall_update_iff s.thread fun _ th => ∀ pc, th.pc = some pc → pc.Improves).mpr
      ⟨hth, fun t _ => himp t⟩
  obtain ⟨e, times, hth, rfl⟩ | ⟨times, pc, hth, rfl⟩ := benchStep_cases hstep
  · -- a call begins: its time was pending before it
    have hpend : ∀ k, (⟨times, some (.loadMin e)⟩ : BenchThread).pending k
        = (⟨e :: times, none⟩ : BenchThread).pending k := fun k => by
      simp [BenchThread.pending, BenchPc.phase, BenchPc.elapsed]
    refine h.of_pending_eq hth hpend fun pc hpc => ?_
    cases hpc
    trivial
  · obtain ⟨pc', heq, himp', hphase, helapsed⟩ | ⟨hphase, heq⟩ | ⟨hphase, heq⟩ | ⟨hphase, heq⟩ |
        ⟨hphase, heq⟩ := benchmarkProcFun_cases a.spurious s.bench
          (himp a.thread pc (by rw [hth]))
    all_goals rw [heq]
    · -- the call stays before its counter
      have hpend : ∀ k, (⟨times, some pc'⟩ : BenchThread).pending k
          = (⟨times, some pc⟩ : BenchThread).pending k := fun k => by
        simp only [BenchThread.pending, hphase, helapsed]
      refine h.of_pending_eq hth hpend fun pc hpc => ?_
      cases hpc
      exact himp'
    · -- it records its time in the minimum
      have hnext : (BenchPc.loadMax pc.elapsed).phase = pc.phase + 1 := by rw [hphase]; rfl
      have hother := fun k (hk : pc.phase ≠ k) => pending_of_ne hnext rfl hk times
      refine ⟨hmoved fun pc hpc => (by cases hpc; trivial),
        (tally_of_pending_cons hth (pending_cons hnext hphase times)).trans hmin,
        (tally_of_pending_eq hth (hother 1 (by omega))).trans hmax,
        (tally_of_pending_eq hth (hother 2 (by omega))).trans htot,
        (tally_of_pending_eq hth (hother 3 (by omega))).trans hcnt⟩
    · -- in the maximum
      have hnext : (BenchPc.addTotal pc.elapsed).phase = pc.phase + 1 := by rw [hphase]; rfl
      have hother := fun k (hk : pc.phase ≠ k) => pending_of_ne hnext rfl hk times
      refine ⟨hmoved fun pc hpc => (by cases hpc; trivial),
        (tally_of_pending_eq hth (hother 0 (by omega))).trans hmin,
        (tally_of_pending_cons hth (pending_cons hnext hphase times)).trans hmax,
        (tally_of_pending_eq hth (hother 2 (by omega))).trans htot,
        (tally_of_pending_eq hth (hother 3 (by omega))).trans hcnt⟩
    · -- in the total
      have hnext : (BenchPc.addCount pc.elapsed).phase = pc.phase + 1 := by rw [hphase]; rfl
      have hother := fun k (hk : pc.phase ≠ k) => pending_of_ne hnext rfl hk times
      refine ⟨hmoved fun pc hpc => (by cases hpc; trivial),
        (tally_of_pending_eq hth (hother 0 (by omega))).trans hmin,
        (tally_of_pending_eq hth (hother 1 (by omega))).trans hmax,
        (tally_of_pending_cons hth (pending_cons hnext hphase times)).trans htot,
        (tally_of_pending_eq hth (hother 3 (by omega))).trans hcnt⟩
    · -- in the count, with which it returns
      have hlast : (⟨times, some pc⟩ : BenchThread).pending 3
          = pc.elapsed ::ₘ (⟨times, none⟩ : BenchThread).pending 3 := if_pos hphase.le
      have hother := fun k (hk : k < 3) => pending_return hphase hk times
      exact ⟨hmoved fun pc hpc => (by cases hpc),
        (tally_of_pending_eq hth (hother 0 (by omega))).trans hmin,
        (tally_of_pending_eq hth (hother 1 (by omega))).trans hmax,
        (tally_of_pending_eq hth (hother 2 (by omega))).trans htot,
        (tally_of_pending_cons hth hlast).trans hcnt⟩

/-- Everything is pending at the start. -/
lemma benchInv_init (times : Fin n → List ℕ) :
    BenchInv ((∑ t, (times t : Multiset ℕ)).fold min uint64Max)
      ((∑ t, (times t : Multiset ℕ)).fold max 0)
      ((∑ t, (times t).sum) % 2 ^ 64) ((∑ t, (times t).length) % 2 ^ 64) (benchInit times) where
  improves := fun t pc h => by cases h
  least_eq := congrArg (Multiset.fold min uint64Max) (Multiset.map_id _)
  greatest_eq := congrArg (Multiset.fold max 0) (Multiset.map_id _)
  total_eq := by
    have hpend : ∑ t, (benchInit times).pending 2 t = ∑ t, (times t : Multiset ℕ) := rfl
    rw [tally, Multiset.map_id, hpend, benchInit, benchmarkCreate, fold_addMod (by norm_num),
      Multiset.sum_sum, Nat.zero_add]
    simp only [Multiset.sum_coe]
  count_eq := by
    have hpend : ∑ t, (benchInit times).pending 3 t = ∑ t, (times t : Multiset ℕ) := rfl
    rw [tally, hpend, benchInit, benchmarkCreate, fold_addMod (by norm_num), Multiset.map_const',
      Multiset.sum_replicate, Multiset.card_sum, smul_eq_mul, Nat.mul_one, Nat.zero_add]
    simp only [Multiset.coe_card]

/-- The tallies stay what they were at the start. -/
theorem run_benchInv {times : Fin n → List ℕ} {as : List (BenchAction n)} {s : BenchPool n}
    (hrun : (benchSystem n).run (benchInit times) as = some s) :
    BenchInv ((∑ t, (times t : Multiset ℕ)).fold min uint64Max)
      ((∑ t, (times t : Multiset ℕ)).fold max 0)
      ((∑ t, (times t).sum) % 2 ^ 64) ((∑ t, (times t).length) % 2 ^ 64) s :=
  (benchSystem n).run_induct (fun _ _ _ h hstep => step_benchInv h hstep) (benchInv_init times)
    hrun

/-- A step moves the extrema outwards. -/
lemma step_extrema {s s' : BenchPool n} {a : BenchAction n}
    (himp : ∀ t pc, (s.thread t).pc = some pc → pc.Improves) (hstep : benchStep s a = some s') :
    s'.bench.minBlockTime ≤ s.bench.minBlockTime ∧
      s.bench.maxBlockTime ≤ s'.bench.maxBlockTime := by
  obtain ⟨e, times, -, rfl⟩ | ⟨times, pc, hth, rfl⟩ := benchStep_cases hstep
  · exact ⟨le_rfl, le_rfl⟩
  · obtain ⟨pc', heq, -⟩ | ⟨-, heq⟩ | ⟨-, heq⟩ | ⟨-, heq⟩ | ⟨-, heq⟩ :=
      benchmarkProcFun_cases a.spurious s.bench (himp a.thread pc (by rw [hth]))
    all_goals rw [heq]
    · exact ⟨le_rfl, le_rfl⟩
    · exact ⟨min_le_left _ _, le_rfl⟩
    · exact ⟨le_rfl, le_max_left _ _⟩
    · exact ⟨le_rfl, le_rfl⟩
    · exact ⟨le_rfl, le_rfl⟩

/-- The extrema move outwards along every run. -/
lemma run_extrema {least greatest total count : ℕ} {s s' : BenchPool n} {as : List (BenchAction n)}
    (hinv : BenchInv least greatest total count s) (hrun : (benchSystem n).run s as = some s') :
    s'.bench.minBlockTime ≤ s.bench.minBlockTime ∧
      s.bench.maxBlockTime ≤ s'.bench.maxBlockTime := by
  have hall := (benchSystem n).run_induct (P := fun u => BenchInv least greatest total count u ∧
    u.bench.minBlockTime ≤ s.bench.minBlockTime ∧ s.bench.maxBlockTime ≤ u.bench.maxBlockTime)
    (fun u a u' ⟨hu, hmin, hmax⟩ hstep => ?_) ⟨hinv, le_rfl, le_rfl⟩ hrun
  · exact hall.2
  · obtain ⟨hmin', hmax'⟩ := step_extrema hu.improves hstep
    exact ⟨step_benchInv hu hstep, hmin'.trans hmin, hmax.trans hmax'⟩

/-- **The benchmark counters lose no update.** From every state that a run reaches on, the minimum
only decreases and the maximum only increases; and once all calls have returned, the minimum is
the least of `UINT64_MAX` and the recorded times, the maximum the greatest of `0` and the recorded
times, the total their sum modulo `2 ^ 64`, and the count the number of calls modulo `2 ^ 64`. -/
theorem benchmark_counters (times : Fin n → List ℕ) {as : List (BenchAction n)} {s : BenchPool n}
    (hrun : (benchSystem n).run (benchInit times) as = some s) :
    (∀ bs s', (benchSystem n).run s bs = some s' →
        s'.bench.minBlockTime ≤ s.bench.minBlockTime ∧
          s.bench.maxBlockTime ≤ s'.bench.maxBlockTime) ∧
      ((∀ t, s.thread t = ⟨[], none⟩) →
        IsLeast (insert uint64Max {e | ∃ t, e ∈ times t}) s.bench.minBlockTime ∧
          IsGreatest (insert 0 {e | ∃ t, e ∈ times t}) s.bench.maxBlockTime ∧
          s.bench.totalBlockTime = (∑ t, (times t).sum) % 2 ^ 64 ∧
          s.bench.blockCount = (∑ t, (times t).length) % 2 ^ 64) := by
  have hinv := run_benchInv hrun
  refine ⟨fun bs s' hrun' => run_extrema hinv hrun', fun hdone => ?_⟩
  have hpend : ∀ k t, s.pending k t = 0 := fun k t => by
    rw [BenchPool.pending, hdone t]
    rfl
  have hset : {e | ∃ t, e ∈ times t} = {e | e ∈ ∑ t, (times t : Multiset ℕ)} := by
    ext e
    simp [Multiset.mem_sum]
  obtain ⟨-, hmin, hmax, htot, hcnt⟩ := hinv
  rw [tally_of_eq_zero (hpend _)] at hmin hmax htot hcnt
  rw [hset, hmin, hmax]
  exact ⟨isLeast_fold_min _ _, isGreatest_fold_max _ _, htot, hcnt⟩

/-- Two threads that record a time each, the second one all of its minimum in between the load and
the exchange of the first. -/
def pairSchedule : List (BenchAction 2) :=
  [⟨0, false⟩, ⟨0, false⟩, ⟨1, false⟩, ⟨1, false⟩, ⟨1, false⟩, ⟨0, false⟩, ⟨0, false⟩, ⟨0, false⟩,
    ⟨0, false⟩, ⟨0, false⟩, ⟨1, false⟩, ⟨1, false⟩, ⟨1, false⟩]

/-- The theorem at this schedule. -/
theorem benchmark_counters_pair :
    ∃ s, (benchSystem 2).run (benchInit ![[5], [3]]) pairSchedule = some s ∧
      s.bench.totalBlockTime = 8 ∧ s.bench.blockCount = 2 := by
  obtain ⟨s, hrun, hdone⟩ : ∃ s, (benchSystem 2).run (benchInit ![[5], [3]]) pairSchedule = some s ∧
      ∀ t, s.thread t = ⟨[], none⟩ := ⟨_, rfl, fun t => by fin_cases t <;> rfl⟩
  obtain ⟨-, -, htot, hcnt⟩ := (benchmark_counters _ hrun).2 hdone
  exact ⟨s, hrun, htot, hcnt⟩

/-! ### Calls that return -/

/-- The call of `t` can go on alone until it has returned, with the times `times` left to
record. -/
def ReturnsTo (s : BenchPool n) (t : Fin n) (times : List ℕ) : Prop :=
  ∃ as bench, (benchSystem n).run s as
    = some ⟨bench, Function.update s.thread t ⟨times, none⟩⟩

/-- A call returns if it does after its next step. -/
lemma returnsTo_of_step {s : BenchPool n} {t : Fin n} {times : List ℕ} {pc : BenchPc}
    {r : Benchmark × Option BenchPc} (hth : s.thread t = ⟨times, some pc⟩)
    (hr : benchmarkProcFun false s.bench pc = r)
    (h : ReturnsTo ⟨r.1, Function.update s.thread t ⟨times, r.2⟩⟩ t times) :
    ReturnsTo s t times := by
  obtain ⟨as, bench, hrun⟩ := h
  refine ⟨⟨t, false⟩ :: as, bench, ?_⟩
  have hstep : (benchSystem n).step s ⟨t, false⟩
      = some ⟨r.1, Function.update s.thread t ⟨times, r.2⟩⟩ := by
    simp [benchSystem, benchStep, hth, hr]
  rw [(benchSystem n).run_cons_of_step hstep, hrun, Function.update_idem]

lemma returnsTo_addCount {s : BenchPool n} {t : Fin n} {times : List ℕ} {e : ℕ}
    (hth : s.thread t = ⟨times, some (.addCount e)⟩) : ReturnsTo s t times :=
  returnsTo_of_step hth rfl ⟨[], _, by rw [StepSystem.run_nil, Function.update_idem]; rfl⟩

lemma returnsTo_addTotal {s : BenchPool n} {t : Fin n} {times : List ℕ} {e : ℕ}
    (hth : s.thread t = ⟨times, some (.addTotal e)⟩) : ReturnsTo s t times :=
  returnsTo_of_step hth rfl (returnsTo_addCount (Function.update_self ..))

/-- The exchange of the second loop succeeds, since nobody else moves the maximum. -/
lemma returnsTo_maxLoop {s : BenchPool n} {t : Fin n} {times : List ℕ} {e : ℕ}
    (hth : s.thread t = ⟨times, some (maxLoop e s.bench.maxBlockTime)⟩) : ReturnsTo s t times := by
  by_cases h : s.bench.maxBlockTime < e
  · rw [maxLoop, if_pos h] at hth
    exact returnsTo_of_step hth (if_pos ⟨rfl, rfl⟩)
      (returnsTo_addTotal (Function.update_self ..))
  · rw [maxLoop, if_neg h] at hth
    exact returnsTo_addTotal hth

lemma returnsTo_loadMax {s : BenchPool n} {t : Fin n} {times : List ℕ} {e : ℕ}
    (hth : s.thread t = ⟨times, some (.loadMax e)⟩) : ReturnsTo s t times :=
  returnsTo_of_step hth rfl (returnsTo_maxLoop (Function.update_self ..))

/-- The exchange of the first loop succeeds, since nobody else moves the minimum. -/
lemma returnsTo_minLoop {s : BenchPool n} {t : Fin n} {times : List ℕ} {e : ℕ}
    (hth : s.thread t = ⟨times, some (minLoop e s.bench.minBlockTime)⟩) : ReturnsTo s t times := by
  by_cases h : s.bench.minBlockTime > e
  · rw [minLoop, if_pos h] at hth
    exact returnsTo_of_step hth (if_pos ⟨rfl, rfl⟩)
      (returnsTo_loadMax (Function.update_self ..))
  · rw [minLoop, if_neg h] at hth
    exact returnsTo_loadMax hth

lemma returnsTo_loadMin {s : BenchPool n} {t : Fin n} {times : List ℕ} {e : ℕ}
    (hth : s.thread t = ⟨times, some (.loadMin e)⟩) : ReturnsTo s t times :=
  returnsTo_of_step hth rfl (returnsTo_minLoop (Function.update_self ..))

/-- **A thread can make all its calls**: they return when only it goes on. -/
lemma exists_calls (times : List ℕ) : ∀ {s : BenchPool n} {t : Fin n},
    s.thread t = ⟨times, none⟩ → ReturnsTo s t [] := by
  induction times with
  | nil =>
      intro s t hth
      exact ⟨[], s.bench, by rw [StepSystem.run_nil, ← hth, Function.update_eq_self]⟩
  | cons e times ih =>
      intro s t hth
      have hbegin : (benchSystem n).step s ⟨t, false⟩ = some
          ⟨s.bench, Function.update s.thread t ⟨times, some (.loadMin e)⟩⟩ := by
        simp [benchSystem, benchStep, hth]
      obtain ⟨as, bench, hrun⟩ := returnsTo_loadMin (s := ⟨s.bench, Function.update s.thread t
        ⟨times, some (.loadMin e)⟩⟩) (Function.update_self ..)
      rw [Function.update_idem] at hrun
      obtain ⟨bs, bench', hrun'⟩ := ih (s := ⟨bench, Function.update s.thread t ⟨times, none⟩⟩)
        (Function.update_self ..)
      rw [Function.update_idem] at hrun'
      refine ⟨⟨t, false⟩ :: (as ++ bs), bench', ?_⟩
      rw [(benchSystem n).run_cons_of_step hbegin, (benchSystem n).run_trans hrun hrun']

/-- **The count wraps**: after `2 ^ 64` calls of a single thread it is zero. -/
theorem benchmark_count_wraps :
    ¬ ∀ (n : ℕ) (times : Fin n → List ℕ) as s,
      (benchSystem n).run (benchInit times) as = some s → (∀ t, s.thread t = ⟨[], none⟩) →
        s.bench.blockCount = ∑ t, (times t).length := by
  intro h
  obtain ⟨times, hlen⟩ : ∃ times : Fin 1 → List ℕ, (times 0).length = 2 ^ 64 :=
    ⟨fun _ => List.replicate (2 ^ 64) 0, List.length_replicate⟩
  obtain ⟨as, bench, hrun⟩ := exists_calls (times 0) (s := benchInit times) (t := 0) rfl
  have hdone : ∀ t : Fin 1, Function.update (benchInit times).thread 0 ⟨[], none⟩ t
      = ⟨[], none⟩ := fun t => by rw [Subsingleton.elim t 0, Function.update_self]
  have hwrap := (benchmark_counters times hrun).2 hdone
  have hcount := h 1 times as _ hrun hdone
  rw [hwrap.2.2.2, Fin.sum_univ_one, hlen] at hcount
  exact absurd hcount (by norm_num)

end Pool

end Mdb
