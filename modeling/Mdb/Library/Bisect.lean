import Mathlib.Tactic

/-!
Binary search with a three-way comparison.

The entry `i` compares as `lt` if what is searched for lies in front of it, as `gt` if it lies
behind it, and as `eq` if it lies in it. The search halves the closed interval `l .. r`, as a loop
over signed indices does, and ends at an entry or with the ends crossed.

* `bisect_ends`: whatever the comparison, the search ends, and inside the interval;
* `bisect_spec`: along entries in order, the search ends at an entry that compares as `eq`, or at
  the cut between those that compare as `gt` and those that compare as `lt`.
-/

/-- How a search ends: at an entry, or with the left end at `l` and nothing between the ends. -/
inductive Bisected where
  | found (m : ℤ)
  | absent (l : ℤ)

/-- The search between `l` and `r`, with a bound on the rounds. -/
def bisect (cmp : ℤ → Ordering) : ℕ → ℤ → ℤ → Option Bisected
  | 0, _, _ => none
  | fuel + 1, l, r =>
      if l ≤ r then
        let m := l + (r - l) / 2
        match cmp m with
        | .eq => some (.found m)
        | .gt => bisect cmp fuel (m + 1) r
        | .lt => bisect cmp fuel l (m - 1)
      else some (.absent l)

section Bisect

variable {cmp : ℤ → Ordering} {n : ℤ}

/-- A round on an interval with an entry: the middle is in it, and decides. -/
lemma bisect_step (cmp : ℤ → Ordering) (fuel : ℕ) {l r : ℤ} (h : l ≤ r) :
    ∃ m, l ≤ m ∧ m ≤ r ∧ bisect cmp (fuel + 1) l r =
      match cmp m with
      | .eq => some (.found m)
      | .gt => bisect cmp fuel (m + 1) r
      | .lt => bisect cmp fuel l (m - 1) :=
  ⟨l + (r - l) / 2, by omega, by omega, by rw [bisect, if_pos h]⟩

/-- **The search ends**, given a round for each entry of the interval and one more, and an entry
at which it ends lies in the interval. -/
theorem bisect_ends (cmp : ℤ → Ordering) {fuel : ℕ} : ∀ {l r : ℤ}, l ≤ r + 1 → r - l + 1 < fuel →
    ∃ e, bisect cmp fuel l r = some e ∧ ∀ m, e = .found m → l ≤ m ∧ m ≤ r := by
  induction fuel with
  | zero => intro l r hlr hfuel; omega
  | succ fuel ih =>
      intro l r hlr hfuel
      by_cases h : l ≤ r
      · obtain ⟨m, hl, hr, hround⟩ := bisect_step cmp fuel h
        rw [hround]
        cases cmp m with
        | eq => exact ⟨_, rfl, by rintro _ ⟨⟩; exact ⟨hl, hr⟩⟩
        | gt =>
            obtain ⟨e, he, hin⟩ := ih (l := m + 1) (r := r) (by omega) (by omega)
            exact ⟨e, he, fun k hk => by have := hin k hk; omega⟩
        | lt =>
            obtain ⟨e, he, hin⟩ := ih (l := l) (r := m - 1) (by omega) (by omega)
            exact ⟨e, he, fun k hk => by have := hin k hk; omega⟩
      · exact ⟨.absent l, by rw [bisect, if_neg h], nofun⟩

/-- The entries `0 .. n - 1` are in order. -/
structure InOrder (cmp : ℤ → Ordering) (n : ℤ) : Prop where
  lt_of_le : ∀ i j, 0 ≤ i → i ≤ j → j < n → cmp i = .lt → cmp j = .lt
  gt_of_le : ∀ i j, 0 ≤ i → i ≤ j → j < n → cmp j = .gt → cmp i = .gt

/-- What is known when a search has ended. -/
def Bisected.Right (cmp : ℤ → Ordering) (n : ℤ) : Bisected → Prop
  | .found m => 0 ≤ m ∧ m < n ∧ cmp m = .eq
  | .absent k => 0 ≤ k ∧ k ≤ n ∧ (∀ i, 0 ≤ i → i < k → cmp i = .gt) ∧
      ∀ i, k ≤ i → i < n → cmp i = .lt

/-- **The search is right**: the entries left of the interval compare as `gt` and those right of it
as `lt`, from the first round to the last. -/
theorem bisect_spec (hcmp : InOrder cmp n) {fuel : ℕ} : ∀ {l r : ℤ}, 0 ≤ l → l ≤ r + 1 → r < n →
    (∀ i, 0 ≤ i → i < l → cmp i = .gt) → (∀ i, r < i → i < n → cmp i = .lt) →
      r - l + 1 < fuel → ∃ e, bisect cmp fuel l r = some e ∧ e.Right cmp n := by
  induction fuel with
  | zero => intro l r _ hlr _ _ _ hfuel; omega
  | succ fuel ih =>
      intro l r hl hlr hr hleft hright hfuel
      by_cases h : l ≤ r
      · obtain ⟨m, hlm, hmr, hround⟩ := bisect_step cmp fuel h
        rw [hround]
        cases hm : cmp m with
        | eq => exact ⟨_, rfl, by omega, by omega, hm⟩
        | gt =>
            -- everything up to the middle is left behind
            refine ih (by omega) (by omega) hr (fun i hi him => ?_) hright (by omega)
            exact hcmp.gt_of_le i m hi (by omega) (by omega) hm
        | lt =>
            refine ih hl (by omega) (by omega) hleft (fun i hmi hi => ?_) (by omega)
            exact hcmp.lt_of_le m i (by omega) (by omega) hi hm
      · refine ⟨.absent l, by rw [bisect, if_neg h], hl, by omega, hleft, fun i hi hin => ?_⟩
        exact hright i (by omega) hin

end Bisect
