import Mdb.Library.Escape

/-!
Loops over lanes.

A vector loop steps all its lanes together, counts in each lane the rounds whose result passes a
test, and stops only when no lane passes. `laneLoop_eq`: if a lane that fails the test never
passes it again, its count is that of its own orbit, whatever the other lanes hold and however
long they keep the loop going.
-/

namespace Escape

variable {L Z N : Type*} [Fintype L]

/-- At most `r` rounds of a vector loop: `step l` moves the lane `l`, `incr` counts a round whose
result is `inside`. -/
def laneLoop (step : L → Z → Z) (inside : Z → Bool) (incr : N → N) :
    ℕ → (L → Z) → (L → N) → L → N
  | 0, _, n => n
  | r + 1, z, n =>
      let z' := fun l => step l (z l)
      if ∃ l, inside (z' l) = true then
        laneLoop step inside incr r z' fun l => if inside (z' l) = true then incr (n l) else n l
      else n

/-- **A lane counts for itself.** Round `i` of the lane `l` ends at the point `i + 1` of its
orbit. -/
theorem laneLoop_eq {step : L → Z → Z} {inside : Z → Bool} {incr : N → N} {l : L} {r : ℕ} :
    ∀ {z : L → Z} {n : L → N},
      (∀ i j, i ≤ j → inside ((step l)^[j + 1] (z l)) = true →
        inside ((step l)^[i + 1] (z l)) = true) →
      laneLoop step inside incr r z n l
        = incr^[leading (fun i => inside ((step l)^[i + 1] (z l))) r] (n l) := by
  induction r with
  | zero => exact fun _ => rfl
  | succ r ih =>
      intro z n hanti
      have hrest : ∀ i j, i ≤ j → inside ((step l)^[j + 1] (step l (z l))) = true →
          inside ((step l)^[i + 1] (step l (z l))) = true :=
        fun i j hij => hanti (i + 1) (j + 1) (Nat.succ_le_succ hij)
      rw [laneLoop, leading_succ_front]
      by_cases hl : inside (step l (z l)) = true
      · -- the lane is inside: it counts the round, and the loop goes on
        rw [if_pos ⟨l, hl⟩, ih hrest, if_pos hl, if_pos (show inside ((step l)^[0 + 1] _) = _
          from hl), Function.iterate_succ_apply]
        rfl
      · -- the lane is outside: whether the loop goes on or not, it counts nothing any more
        rw [if_neg (show ¬ inside ((step l)^[0 + 1] _) = _ from hl), Function.iterate_zero_apply]
        by_cases hany : ∃ l, inside (step l (z l)) = true
        · rw [if_pos hany, ih hrest, if_neg hl]
          have hnone : leading (fun i => inside ((step l)^[i + 1] (step l (z l)))) r = 0 := by
            refine leading_eq (Nat.zero_le _) (fun i hi => absurd hi (Nat.not_lt_zero i))
              fun _ => ?_
            exact Bool.eq_false_iff.mpr fun h => hl (hanti 0 1 (Nat.zero_le 1) h)
          rw [hnone, Function.iterate_zero_apply]
        · rw [if_neg hany]

end Escape
