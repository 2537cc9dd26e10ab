import Mathlib.Tactic
import Mathlib.Data.Multiset.Fold

/-!
A shared cell that several threads record values in.

Each thread has values it has still to record (`pend`), and recording `a` combines the weight of
`a` into the cell with a commutative and associative operation. The `tally` of a cell is what it
comes to once everything pending has been recorded; recording a value moves it from the pending
ones into the cell and leaves the tally alone (`tally_record`), so at the end, with nothing
pending, the cell is the tally it had at the start (`tally_of_eq_zero`).

`isLeast_fold_min`, `isGreatest_fold_max` and `fold_addMod` say what the tally is for a minimum, a
maximum and a wrapping sum.
-/

section Tally

variable {ι α M : Type*} [Fintype ι] [DecidableEq ι] {op : M → M → M} [Std.Commutative op]
  [Std.Associative op] {w : α → M}

/-- What the cell comes to once every pending value has been recorded. -/
def tally (op : M → M → M) [Std.Commutative op] [Std.Associative op] (w : α → M) (cell : M)
    (pend : ι → Multiset α) : M :=
  ((∑ i, pend i).map w).fold op cell

/-- A thread with nothing moved leaves the tally alone. -/
lemma tally_update_of_eq {cell : M} {pend : ι → Multiset α} {t : ι} {p : Multiset α}
    (h : p = pend t) : tally op w cell (Function.update pend t p) = tally op w cell pend := by
  rw [h, Function.update_eq_self]

/-- **Recording a value leaves the tally alone.** -/
lemma tally_record {cell : M} {pend : ι → Multiset α} {t : ι} {a : α} {p : Multiset α}
    (h : pend t = a ::ₘ p) :
    tally op w (op cell (w a)) (Function.update pend t p) = tally op w cell pend := by
  have hsum : ∑ i, pend i = a ::ₘ ∑ i, Function.update pend t p i := by
    rw [← Finset.add_sum_erase _ pend (Finset.mem_univ t), Finset.sum_update_of_mem
      (Finset.mem_univ t), h, Multiset.cons_add, Finset.sdiff_singleton_eq_erase]
  rw [tally, tally, hsum, Multiset.map_cons, Multiset.fold_cons'_right]

omit [DecidableEq ι] in
/-- With nothing pending the cell is the tally. -/
lemma tally_of_eq_zero {cell : M} {pend : ι → Multiset α} (h : ∀ i, pend i = 0) :
    tally op w cell pend = cell := by
  rw [tally, Finset.sum_eq_zero fun i _ => h i, Multiset.map_zero, Multiset.fold_zero]

end Tally

/-! ### Minima, maxima and sums -/

/-- A fold with `min` is the least of its start and its values. -/
lemma isLeast_fold_min {α : Type*} [LinearOrder α] (b : α) (s : Multiset α) :
    IsLeast (insert b {a | a ∈ s}) (s.fold min b) := by
  induction s using Multiset.induction_on with
  | empty =>
      rw [Multiset.fold_zero]
      exact ⟨Set.mem_insert _ _, fun a ha => by simp_all⟩
  | cons a s ih =>
      have hset : insert b {x | x ∈ a ::ₘ s} = insert a (insert b {x | x ∈ s}) := by
        rw [Set.insert_comm]
        congr 1
        ext x
        simp
      rw [Multiset.fold_cons_left, hset]
      exact ih.insert a

/-- A fold with `max` is the greatest of its start and its values. -/
lemma isGreatest_fold_max {α : Type*} [LinearOrder α] (b : α) (s : Multiset α) :
    IsGreatest (insert b {a | a ∈ s}) (s.fold max b) :=
  isLeast_fold_min (α := αᵒᵈ) b s

/-- Sums modulo `m`. -/
def addMod (m a b : ℕ) : ℕ := (a + b) % m

instance (m : ℕ) : Std.Commutative (addMod m) := ⟨fun a b => by rw [addMod, addMod, Nat.add_comm]⟩

instance (m : ℕ) : Std.Associative (addMod m) :=
  ⟨fun a b c => by
    simp only [addMod, Nat.mod_add_mod, Nat.add_mod_mod, Nat.add_assoc]⟩

/-- A fold with a sum modulo `m` is the sum modulo `m`. -/
lemma fold_addMod {m b : ℕ} (hb : b < m) (s : Multiset ℕ) :
    s.fold (addMod m) b = (b + s.sum) % m := by
  induction s using Multiset.induction_on with
  | empty => rw [Multiset.fold_zero, Multiset.sum_zero, Nat.add_zero, Nat.mod_eq_of_lt hb]
  | cons a s ih =>
      rw [Multiset.fold_cons_left, ih, addMod, Nat.add_mod_mod, Multiset.sum_cons,
        Nat.add_left_comm]
