import Mathlib.Logic.Function.Basic
import Mathlib.Tactic

/-!
Store traces: the stores a piece of code makes into one buffer, in program order.

Code that only writes is given by the list of its stores, an index and a value each, and
`applyStores` is what the list does to the buffer. Two facts are all that the order of the
stores is ever asked for: `applyStores_of_consistent`, an index that is stored to at least once
and always with one value ends with that value, so that neither order nor repetition matters;
and `applyStores_of_forall_ne`, an index that is never stored to keeps its value.

`storeAll` runs a trace on a buffer of a given length, where a store outside it fails;
`storeAll_eq_some` says that a trace within the buffer succeeds, and that the buffer it leaves
reads as `applyStores` has it.
-/

namespace StoreTrace

variable {ι α : Type*} [DecidableEq ι]

/-- The buffer after the stores of a trace. -/
def applyStores (m : ι → α) (st : List (ι × α)) : ι → α :=
  st.foldl (fun m s => Function.update m s.1 s.2) m

@[simp] lemma applyStores_nil (m : ι → α) : applyStores m [] = m := rfl

@[simp] lemma applyStores_cons (m : ι → α) (s : ι × α) (st : List (ι × α)) :
    applyStores m (s :: st) = applyStores (Function.update m s.1 s.2) st := rfl

lemma applyStores_concat (m : ι → α) (st : List (ι × α)) (s : ι × α) :
    applyStores m (st ++ [s]) = Function.update (applyStores m st) s.1 s.2 := by
  rw [applyStores, List.foldl_append]
  rfl

/-- The frame rule: an index no store of the trace names keeps its value. -/
lemma applyStores_of_forall_ne {m : ι → α} {st : List (ι × α)} {i : ι}
    (h : ∀ s ∈ st, s.1 ≠ i) : applyStores m st i = m i := by
  induction st generalizing m with
  | nil => rfl
  | cons s st ih =>
      rw [applyStores_cons, ih fun t ht => h t (List.mem_cons_of_mem s ht)]
      exact Function.update_of_ne (h s List.mem_cons_self).symm _ _

/-- An index that is stored to, and always with the value `v`, holds `v` in the end. -/
theorem applyStores_of_consistent {m : ι → α} {st : List (ι × α)} {i : ι} {v : α}
    (hex : ∃ s ∈ st, s.1 = i) (hval : ∀ s ∈ st, s.1 = i → s.2 = v) :
    applyStores m st i = v := by
  induction st generalizing m with
  | nil => obtain ⟨s, hs, -⟩ := hex; exact absurd hs List.not_mem_nil
  | cons s st ih =>
      rw [applyStores_cons]
      by_cases hlater : ∃ t ∈ st, t.1 = i
      · exact ih hlater fun t ht => hval t (List.mem_cons_of_mem s ht)
      · push Not at hlater
        rw [applyStores_of_forall_ne hlater]
        obtain ⟨t, ht, hti⟩ := hex
        -- the store to `i` can only be the first one
        have hs : s.1 = i := by
          rcases List.mem_cons.mp ht with rfl | ht'
          · exact hti
          · exact absurd hti (hlater t ht')
        rw [hs, Function.update_self]
        exact hval s List.mem_cons_self hs

/-- A trace that stores one value for each index it names. -/
def Consistent (st : List (ι × α)) : Prop := ∀ s ∈ st, ∀ t ∈ st, s.1 = t.1 → s.2 = t.2

/-- **Order and repetition do not matter** in a consistent trace: traces of the same stores leave
the same buffer. -/
theorem applyStores_congr {m : ι → α} {st st' : List (ι × α)} (hst : Consistent st)
    (hmem : ∀ s, s ∈ st' ↔ s ∈ st) : applyStores m st' = applyStores m st := by
  funext i
  by_cases hex : ∃ s ∈ st, s.1 = i
  · obtain ⟨s, hs, hi⟩ := hex
    have hval : ∀ t ∈ st, t.1 = i → t.2 = s.2 := fun t ht hti => hst t ht s hs (hti.trans hi.symm)
    rw [applyStores_of_consistent ⟨s, hs, hi⟩ hval,
      applyStores_of_consistent ⟨s, (hmem s).mpr hs, hi⟩ fun t ht => hval t ((hmem t).mp ht)]
  · push Not at hex
    rw [applyStores_of_forall_ne hex, applyStores_of_forall_ne fun s hs => hex s ((hmem s).mp hs)]

/-! ### Buffers of a given length -/

/-- The buffer after the stores of a trace, `none` when one of them is outside it. -/
def storeAll : List α → List (ℕ × α) → Option (List α)
  | buf, [] => some buf
  | buf, (i, v) :: st => if i < buf.length then storeAll (buf.set i v) st else none

/-- Storing to a cell of a buffer updates what the buffer reads there. -/
lemma getElem?_set_eq_update {buf : List α} {i : ℕ} (hi : i < buf.length) (v : α) :
    (fun j => (buf.set i v)[j]?) = Function.update (fun j => buf[j]?) i (some v) := by
  funext j
  by_cases hj : j = i
  · rw [hj, Function.update_self, List.getElem?_set_self hi]
  · rw [Function.update_of_ne hj, List.getElem?_set_ne (Ne.symm hj)]

/-- **Stores within the buffer** all succeed; they keep its length, and leave in it what the trace
leaves in a memory that reads as the buffer does. -/
theorem storeAll_eq_some {buf : List α} {st : List (ℕ × α)} (h : ∀ s ∈ st, s.1 < buf.length) :
    ∃ buf', storeAll buf st = some buf' ∧ buf'.length = buf.length ∧
      (fun i => buf'[i]?)
        = applyStores (fun i => buf[i]?) (st.map fun s => (s.1, some s.2)) := by
  induction st generalizing buf with
  | nil => exact ⟨buf, rfl, rfl, rfl⟩
  | cons s st ih =>
      obtain ⟨i, v⟩ := s
      have hi : i < buf.length := h _ List.mem_cons_self
      have hrest : ∀ t ∈ st, t.1 < (buf.set i v).length := fun t ht => by
        rw [List.length_set]
        exact h t (List.mem_cons_of_mem _ ht)
      obtain ⟨buf', hrun, hlen, hread⟩ := ih hrest
      refine ⟨buf', ?_, by rw [hlen, List.length_set], ?_⟩
      · rw [storeAll, if_pos hi, hrun]
      · rw [hread, getElem?_set_eq_update hi, List.map_cons, applyStores_cons]

end StoreTrace
