import Mathlib.Data.List.Perm.Basic
import Mathlib.Data.List.Perm.Subperm
import Mathlib.Data.List.Nodup
import Mathlib.Data.List.Range
import Mathlib.Logic.Function.Basic
import Mathlib.Data.Prod.Basic

/-!
A dispenser: threads take the numbers `0, 1, 2, …`, each from a common counter, and make one call
with every number they take.

A `Move` is a step of one thread, seen from the counter and from what the thread does with its
number; a `Ledger` lists the numbers taken, the calls and their returns. `Ledger.Inv.move` keeps
the invariant, and `Ledger.Inv.called_once` reads it when all threads are free again: each number
below the counter has been called exactly once, and all calls have returned.
-/

namespace Dispenser

/-- What a thread does with the number it has taken. -/
inductive Status where
  | free
  | holding (j : ℕ)
  | calling (j : ℕ)
  deriving DecidableEq

/-- The number a thread has taken and not called yet. -/
def Status.held : Status → List ℕ
  | .holding j => [j]
  | _ => []

/-- The number of the call a thread is inside. -/
def Status.inCall : Status → List ℕ
  | .calling j => [j]
  | _ => []

/-- What a step of a thread does with numbers. -/
inductive Event where
  | quiet
  | taken (j : ℕ)
  | called (j : ℕ)
  | finished (j : ℕ)
  deriving DecidableEq

/-- A step of a thread: the counter and the status before it, what it does, and both after it. -/
inductive Move : ℕ → Status → Event → ℕ → Status → Prop where
  | quiet (next : ℕ) (st : Status) : Move next st .quiet next st
  | take (next : ℕ) : Move next .free (.taken next) (next + 1) (.holding next)
  | call (next j : ℕ) : Move next (.holding j) (.called j) next (.calling j)
  | finish (next j : ℕ) : Move next (.calling j) (.finished j) next .free

lemma Move.le {next next' : ℕ} {st st' : Status} {ev : Event} (h : Move next st ev next' st') :
    next ≤ next' := by
  cases h with
  | take => exact Nat.le_succ _
  | _ => exact le_rfl

section Ledger

variable {T : Type*}

/-- The counter, what each thread does, and who took, called and returned from which number. -/
structure Ledger (T : Type*) where
  next : ℕ
  status : T → Status
  taken : List (T × ℕ)
  called : List (T × ℕ)
  finished : List (T × ℕ)

variable [DecidableEq T]

/-- The numbers of one thread in a list. -/
def ofThread (t : T) (l : List (T × ℕ)) : List ℕ := (l.filter fun e => e.1 = t).map Prod.snd

@[simp] lemma ofThread_nil (t : T) : ofThread t [] = [] := rfl

@[simp] lemma ofThread_append (t : T) (l l' : List (T × ℕ)) :
    ofThread t (l ++ l') = ofThread t l ++ ofThread t l' := by
  rw [ofThread, List.filter_append, List.map_append]
  rfl

@[simp] lemma ofThread_singleton (t : T) (j : ℕ) : ofThread t [(t, j)] = [j] := by
  simp [ofThread]

lemma ofThread_singleton_of_ne {t u : T} (h : t ≠ u) (j : ℕ) : ofThread t [(u, j)] = [] := by
  simp [ofThread, h.symm]

lemma count_ofThread (t : T) (j : ℕ) (l : List (T × ℕ)) :
    (ofThread t l).count j = l.count (t, j) := by
  induction l with
  | nil => rfl
  | cons e l ih =>
      obtain ⟨u, i⟩ := e
      rw [← List.singleton_append, ofThread_append, List.count_append, List.count_append, ih]
      by_cases h : t = u
      · subst h
        rw [ofThread_singleton, List.count_singleton, List.count_singleton]
        simp
      · rw [ofThread_singleton_of_ne h, List.count_singleton]
        simp [Ne.symm h]

/-- Lists in which each thread has the same numbers are permutations of each other. -/
lemma perm_of_ofThread {l l' : List (T × ℕ)} (h : ∀ t, ofThread t l = ofThread t l') :
    l.Perm l' := by
  refine List.perm_iff_count.mpr fun e => ?_
  rw [← count_ofThread, h, count_ofThread]

/-- An event as entries of the three lists. -/
def Event.entries (t : T) : Event → List (T × ℕ) × List (T × ℕ) × List (T × ℕ)
  | .quiet => ([], [], [])
  | .taken j => ([(t, j)], [], [])
  | .called j => ([], [(t, j)], [])
  | .finished j => ([], [], [(t, j)])

namespace Ledger

/-- The ledger after a step of `t`. -/
def record (s : Ledger T) (t : T) (ev : Event) (next : ℕ) (st : Status) : Ledger T where
  next := next
  status := Function.update s.status t st
  taken := s.taken ++ (ev.entries t).1
  called := s.called ++ (ev.entries t).2.1
  finished := s.finished ++ (ev.entries t).2.2

/-- The numbers taken are those below the counter, in order; of the numbers of each thread the
last one may not be called yet, and of its calls the last one may not have returned. -/
structure Inv (s : Ledger T) : Prop where
  taken : s.taken.map Prod.snd = List.range s.next
  called : ∀ t, ofThread t s.taken = ofThread t s.called ++ (s.status t).held
  finished : ∀ t, ofThread t s.called = ofThread t s.finished ++ (s.status t).inCall

/-- Nothing has been taken, and no thread carries a number. -/
lemma Inv.init {s : Ledger T} (hnext : s.next = 0) (hfree : ∀ t, s.status t = .free)
    (htaken : s.taken = []) (hcalled : s.called = []) (hfinished : s.finished = []) : s.Inv where
  taken := by rw [htaken, hnext]; rfl
  called := fun t => by rw [htaken, hcalled, hfree]; rfl
  finished := fun t => by rw [hcalled, hfinished, hfree]; rfl

/-- A step of a thread keeps the invariant. -/
theorem Inv.move {s : Ledger T} (hs : s.Inv) {t : T} {ev : Event} {next : ℕ} {st : Status}
    (h : Move s.next (s.status t) ev next st) : (s.record t ev next st).Inv := by
  obtain ⟨htaken, hcalled, hfinished⟩ := hs
  generalize hst : s.status t = old at h
  have hcalled' := hst ▸ hcalled t
  have hfinished' := hst ▸ hfinished t
  refine ⟨?_, fun u => ?_, fun u => ?_⟩
  · cases h with
    | take =>
        simp only [record, Event.entries, List.map_append, htaken, List.map_cons, List.map_nil]
        exact List.range_succ.symm
    | _ => simpa only [record, Event.entries, List.append_nil] using htaken
  · by_cases hu : u = t
    · subst hu
      simp only [record, ofThread_append, hcalled', Function.update_self]
      cases h <;> simp [Event.entries, Status.held]
    · have hrest : ofThread u (ev.entries t).1 = [] ∧ ofThread u (ev.entries t).2.1 = [] := by
        cases h <;> simp [Event.entries, ofThread_singleton_of_ne hu]
      simp only [record, ofThread_append, hrest, List.append_nil, Function.update_of_ne hu, hcalled]
  · by_cases hu : u = t
    · subst hu
      simp only [record, ofThread_append, hfinished', Function.update_self]
      cases h <;> simp [Event.entries, Status.inCall]
    · have hrest : ofThread u (ev.entries t).2.1 = [] ∧ ofThread u (ev.entries t).2.2 = [] := by
        cases h <;> simp [Event.entries, ofThread_singleton_of_ne hu]
      simp only [record, ofThread_append, hrest, List.append_nil, Function.update_of_ne hu,
        hfinished]

section Free

variable {s : Ledger T} (hs : s.Inv) (hfree : ∀ t, s.status t = .free)

include hs hfree

/-- When all threads are free, every number taken has been called. -/
lemma Inv.called_perm : s.called.Perm s.taken := by
  refine perm_of_ofThread fun t => ?_
  rw [hs.called t, hfree t]
  exact (List.append_nil _).symm

/-- When all threads are free, every call has returned. -/
lemma Inv.finished_perm : s.finished.Perm s.called := by
  refine perm_of_ofThread fun t => ?_
  rw [hs.finished t, hfree t]
  exact (List.append_nil _).symm

/-- **Exactly once.** When all threads are free, each number below the counter has been called
exactly once. -/
theorem Inv.called_once {j : ℕ} (hj : j < s.next) : (s.called.map Prod.snd).count j = 1 := by
  calc (s.called.map Prod.snd).count j = (s.taken.map Prod.snd).count j :=
        ((hs.called_perm hfree).map Prod.snd).count_eq j
    _ = (List.range s.next).count j := by rw [hs.taken]
    _ = 1 := List.count_eq_one_of_mem List.nodup_range (List.mem_range.mpr hj)

end Free

end Ledger

end Ledger

end Dispenser
