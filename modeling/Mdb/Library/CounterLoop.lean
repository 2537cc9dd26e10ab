import Mathlib.Data.List.Basic
import Mathlib.Tactic

/-!
Counter loops.

A loop `for (x = x0; cond(x); x = next(x))` whose body leaves the counter alone is given by the
values the counter takes (`counterLoop`), and `none` stands for a loop that has not ended within
its fuel. `counterLoop_strided` is the one fact about them: with a bound `b` and a stride `s`
that is added without wrapping, the loop ends and visits the `y` with `x ≤ y < b` and
`s ∣ y - x`, no others.
-/

/-- The values the counter of `for (; cond(x); x = next(x))` takes from `x` on, `none` if the
loop has not ended after `fuel` tests. -/
def counterLoop (cond : ℕ → Bool) (next : ℕ → ℕ) : ℕ → ℕ → Option (List ℕ)
  | 0, _ => none
  | fuel + 1, x =>
      if cond x then (counterLoop cond next fuel (next x)).map (x :: ·) else some []

lemma counterLoop_succ (cond : ℕ → Bool) (next : ℕ → ℕ) (fuel x : ℕ) :
    counterLoop cond next (fuel + 1) x
      = if cond x then (counterLoop cond next fuel (next x)).map (x :: ·) else some [] := rfl

/-- Two tests that agree on the values the counter takes make the same loop. -/
lemma counterLoop_congr {cond cond' : ℕ → Bool} {next : ℕ → ℕ} {P : ℕ → Prop}
    (hcond : ∀ x, P x → cond x = cond' x) (hnext : ∀ x, P x → cond x = true → P (next x)) :
    ∀ {fuel x : ℕ}, P x → counterLoop cond next fuel x = counterLoop cond' next fuel x := by
  intro fuel
  induction fuel with
  | zero => exact fun _ => rfl
  | succ fuel ih =>
      intro x hx
      rw [counterLoop_succ, counterLoop_succ, ← hcond x hx]
      by_cases h : cond x = true
      · rw [if_pos h, if_pos h, ih (hnext x hx h)]
      · rw [if_neg h, if_neg h]

/-- A strided loop below a bound ends, and its counter takes exactly the values congruent to its
start between the start and the bound. -/
theorem counterLoop_strided {cond : ℕ → Bool} {next : ℕ → ℕ} {b s : ℕ} (hs : 1 ≤ s)
    (hcond : ∀ x, cond x = true ↔ x < b) (hnext : ∀ x, x < b → next x = x + s) :
    ∀ {fuel x : ℕ}, b - x < fuel →
      ∃ l, counterLoop cond next fuel x = some l ∧
        ∀ y, y ∈ l ↔ x ≤ y ∧ y < b ∧ s ∣ y - x := by
  intro fuel
  induction fuel with
  | zero => exact fun h => absurd h (Nat.not_lt_zero _)
  | succ fuel ih =>
      intro x hfuel
      rw [counterLoop]
      by_cases hx : x < b
      · obtain ⟨l, hl, hmem⟩ := ih (x := x + s) (by omega)
        refine ⟨x :: l, by rw [if_pos ((hcond x).mpr hx), hnext x hx, hl, Option.map_some], ?_⟩
        intro y
        rw [List.mem_cons, hmem]
        constructor
        · rintro (rfl | ⟨h₁, h₂, d, hd⟩)
          · exact ⟨le_rfl, hx, by simp⟩
          · exact ⟨by omega, h₂, d + 1, by rw [Nat.mul_succ]; omega⟩
        · rintro ⟨h₁, h₂, d, hd⟩
          cases d with
          | zero => exact Or.inl (by omega)
          | succ d =>
              rw [Nat.mul_succ] at hd
              exact Or.inr ⟨by omega, h₂, d, by omega⟩
      · refine ⟨[], by rw [if_neg (fun h => hx ((hcond x).mp h))], fun y => ?_⟩
        simp only [List.not_mem_nil, false_iff, not_and]
        intro h₁ h₂
        omega
