import Mdb.Library.StoreTrace

/-!
Threads that run calls, each call a trace of stores into one memory.

A call that begins hands its thread the trace of its stores; the thread makes them one at a time,
in between the stores of the other threads. `Inv` is what every such move keeps: the memory is
what the stores logged so far make of the one at the start, these are stores of calls that have
begun, and a store of such a call is logged or still to be made.

`Inv.mem_eq_sequential`: once no thread has a store to make, and if the calls agree on what they
store where, the memory is as if the calls had run one after the other.
-/

open StoreTrace

/-- The memory of threads that run calls: as it is and as it was at the start, the stores made
since then, the traces of the calls begun since then, and what each thread has still to store. -/
structure StoreCalls (θ ι α : Type*) where
  mem : ι → α
  start : ι → α
  log : List (ι × α)
  begun : List (List (ι × α))
  todo : θ → List (ι × α)

namespace StoreCalls

variable {θ ι α : Type*}

/-- No call has begun. -/
def init (m : ι → α) : StoreCalls θ ι α := ⟨m, m, [], [], fun _ => []⟩

/-- The calls made so far are forgotten. -/
def restart (c : StoreCalls θ ι α) : StoreCalls θ ι α :=
  { c with start := c.mem, log := [], begun := [] }

/-- A thread begins a call. -/
def begin [DecidableEq θ] (c : StoreCalls θ ι α) (t : θ) (st : List (ι × α)) :
    StoreCalls θ ι α :=
  { c with begun := c.begun ++ [st], todo := Function.update c.todo t st }

/-- A thread makes its next store; there is none once its call has made all of them. -/
def store [DecidableEq θ] [DecidableEq ι] (c : StoreCalls θ ι α) (t : θ) :
    Option (StoreCalls θ ι α) :=
  match c.todo t with
  | [] => none
  | s :: rest =>
      some { c with
        mem := Function.update c.mem s.1 s.2
        log := c.log ++ [s]
        todo := Function.update c.todo t rest }

section Moves

variable [DecidableEq θ]

@[simp] lemma begin_todo (c : StoreCalls θ ι α) (t : θ) (st : List (ι × α)) :
    (c.begin t st).todo = Function.update c.todo t st := rfl

@[simp] lemma begin_begun (c : StoreCalls θ ι α) (t : θ) (st : List (ι × α)) :
    (c.begin t st).begun = c.begun ++ [st] := rfl

lemma store_inv [DecidableEq ι] {c c' : StoreCalls θ ι α} {t : θ} (h : c.store t = some c') :
    ∃ s rest, c.todo t = s :: rest ∧
      c' = { c with
        mem := Function.update c.mem s.1 s.2
        log := c.log ++ [s]
        todo := Function.update c.todo t rest } := by
  rw [store] at h
  cases htodo : c.todo t with
  | nil => simp [htodo] at h
  | cons s rest =>
      rw [htodo] at h
      exact ⟨s, rest, rfl, (Option.some.inj h).symm⟩

end Moves

/-! ### The invariant -/

variable [DecidableEq ι]

/-- The memory is what the log makes of the start, the log and what is still to be stored are
stores of the calls begun, and nothing else of these is missing. -/
structure Inv (c : StoreCalls θ ι α) : Prop where
  mem_eq : c.mem = applyStores c.start c.log
  logged : ∀ s ∈ c.log, s ∈ c.begun.flatten
  pending : ∀ t, ∀ s ∈ c.todo t, s ∈ c.begun.flatten
  complete : ∀ s ∈ c.begun.flatten, s ∈ c.log ∨ ∃ t, s ∈ c.todo t

lemma inv_init (m : ι → α) : (init m : StoreCalls θ ι α).Inv where
  mem_eq := rfl
  logged := fun _ hs => absurd hs List.not_mem_nil
  pending := fun _ _ hs => absurd hs List.not_mem_nil
  complete := fun _ hs => absurd hs List.not_mem_nil

/-- Where no thread has a store to make, the calls made so far can be forgotten. -/
lemma inv_restart {c : StoreCalls θ ι α} (hidle : ∀ t, c.todo t = []) : c.restart.Inv where
  mem_eq := rfl
  logged := fun _ hs => absurd hs List.not_mem_nil
  pending := fun t _ hs => absurd (hidle t ▸ hs) List.not_mem_nil
  complete := fun _ hs => absurd hs List.not_mem_nil

/-- **The calls have run as if one after the other.** -/
theorem Inv.mem_eq_sequential {c : StoreCalls θ ι α} (hinv : c.Inv) (hidle : ∀ t, c.todo t = [])
    (hagree : Consistent c.begun.flatten) :
    c.mem = applyStores c.start c.begun.flatten := by
  rw [hinv.mem_eq]
  refine applyStores_congr hagree fun s => ⟨hinv.logged s, fun hs => ?_⟩
  rcases hinv.complete s hs with hlog | ⟨t, ht⟩
  · exact hlog
  · exact absurd (hidle t ▸ ht) List.not_mem_nil

variable [DecidableEq θ] {c c' : StoreCalls θ ι α} {t : θ}

/-- A thread that has nothing to store may begin a call. -/
lemma Inv.begin (hinv : c.Inv) (hfree : c.todo t = []) (st : List (ι × α)) :
    (c.begin t st).Inv := by
  have hflat : (c.begin t st).begun.flatten = c.begun.flatten ++ st := by simp
  refine ⟨hinv.mem_eq, fun s hs => ?_, fun u s hs => ?_, fun s hs => ?_⟩
  · rw [hflat]
    exact List.mem_append_left _ (hinv.logged s hs)
  · rw [hflat]
    rw [begin_todo] at hs
    by_cases hu : u = t
    · rw [hu, Function.update_self] at hs
      exact List.mem_append_right _ hs
    · rw [Function.update_of_ne hu] at hs
      exact List.mem_append_left _ (hinv.pending u s hs)
  · rw [hflat] at hs
    rw [begin_todo]
    rcases List.mem_append.mp hs with hs | hs
    · rcases hinv.complete s hs with hlog | ⟨u, hu⟩
      · exact Or.inl hlog
      · have hne : u ≠ t := fun heq => by
          rw [heq, hfree] at hu
          exact List.not_mem_nil hu
        exact Or.inr ⟨u, by rwa [Function.update_of_ne hne]⟩
    · exact Or.inr ⟨t, by rwa [Function.update_self]⟩

/-- A store moves from what is to be made to the log. -/
lemma Inv.store (hinv : c.Inv) (h : c.store t = some c') : c'.Inv := by
  obtain ⟨s, rest, htodo, rfl⟩ := store_inv h
  have hs : s ∈ c.begun.flatten := hinv.pending t s (htodo ▸ List.mem_cons_self)
  refine ⟨?_, fun x hx => ?_, fun u x hx => ?_, fun x hx => ?_⟩
  · rw [applyStores_concat, ← hinv.mem_eq]
  · rcases List.mem_append.mp hx with hx | hx
    · exact hinv.logged x hx
    · exact List.mem_singleton.mp hx ▸ hs
  · dsimp only at hx
    by_cases hu : u = t
    · rw [hu, Function.update_self] at hx
      exact hinv.pending t x (htodo ▸ List.mem_cons_of_mem s hx)
    · rw [Function.update_of_ne hu] at hx
      exact hinv.pending u x hx
  · dsimp only
    rcases hinv.complete x hx with hlog | ⟨u, hu⟩
    · exact Or.inl (List.mem_append_left _ hlog)
    · by_cases hut : u = t
      · rw [hut, htodo] at hu
        rcases List.mem_cons.mp hu with rfl | hu
        · exact Or.inl (List.mem_append_right _ (List.mem_singleton_self x))
        · exact Or.inr ⟨t, by rwa [Function.update_self]⟩
      · exact Or.inr ⟨u, by rwa [Function.update_of_ne hut]⟩

end StoreCalls
