import Mathlib.Tactic

/-!
Stopwatches that run inside each other.

A stopwatch adds up the time it has run; its `reading` counts the time since it was started last.
Starting and stopping leave the reading alone (`reading_start`, `reading_stop`), and while time
passes the reading of a running stopwatch grows with it. So where one stopwatch only runs while
another one does, it never overtakes it (`reading_le_of_le`).
-/

/-- A stopwatch: the time it has added up, and when it was started if it runs. -/
structure Stopwatch where
  total : ℕ
  since : Option ℕ

namespace Stopwatch

variable {v w : Stopwatch} {now now' : ℕ}

/-- The time added up so far, the current run counted. -/
def reading (w : Stopwatch) (now : ℕ) : ℕ := w.total + w.since.elim 0 fun start => now - start

/-- Start the stopwatch. -/
def start (w : Stopwatch) (now : ℕ) : Stopwatch := { w with since := some now }

/-- Stop the stopwatch. -/
def stop (w : Stopwatch) (now : ℕ) : Stopwatch := ⟨w.reading now, none⟩

/-- The stopwatch was not started in the future. -/
def Started (w : Stopwatch) (now : ℕ) : Prop := ∀ start ∈ w.since, start ≤ now

lemma stop_of_running (total start now : ℕ) :
    stop ⟨total, some start⟩ now = ⟨total + (now - start), none⟩ := rfl

lemma reading_start (h : w.since = none) : (w.start now).reading now = w.reading now := by
  simp [reading, start, h]

@[simp] lemma reading_stop : (w.stop now).reading now' = w.reading now := rfl

lemma started_of_stopped (h : w.since = none) : w.Started now := fun start hs => by
  rw [h] at hs
  cases hs

lemma started_start : (w.start now).Started now := fun start hs => by
  cases hs
  exact le_rfl

lemma Started.mono (h : w.Started now) (hle : now ≤ now') : w.Started now' :=
  fun start hs => (h start hs).trans hle

/-- A running stopwatch grows with the time. -/
lemma reading_add (h : w.Started now) (hrun : w.since.isSome) (d : ℕ) :
    w.reading (now + d) = w.reading now + d := by
  obtain ⟨start, hs⟩ := Option.isSome_iff_exists.mp hrun
  have hle := h start hs
  simp only [reading, hs, Option.elim_some]
  omega

/-- A stopwatch that does not run stands still. -/
lemma reading_of_not_running (h : w.since = none) : w.reading now' = w.reading now := by
  simp [reading, h]

/-- **A stopwatch that only runs while another one does never overtakes it.** -/
theorem reading_le_of_le (hv : v.Started now) (hw : w.Started now)
    (hrun : v.since.isSome → w.since.isSome) (hle : now ≤ now')
    (h : v.reading now ≤ w.reading now) : v.reading now' ≤ w.reading now' := by
  obtain ⟨d, rfl⟩ := Nat.exists_eq_add_of_le hle
  rcases hvs : v.since with _ | start
  · rw [reading_of_not_running hvs]
    refine h.trans ?_
    rcases hws : w.since with _ | start
    · rw [reading_of_not_running hws]
    · rw [reading_add hw (by rw [hws]; rfl)]
      exact Nat.le_add_right _ _
  · have hvr : v.since.isSome := by rw [hvs]; rfl
    rw [reading_add hv hvr, reading_add hw (hrun hvr)]
    exact Nat.add_le_add_right h d

end Stopwatch
