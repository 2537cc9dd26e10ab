import Mathlib.Tactic

/-!
Leading counts, and the escape of the quadratic map.

* `leading p b` is the number of leading `i < b` with `p i`: below it `p` holds, and at it `p` fails
  unless it is `b` (`leading_eq`).
* `iter c` is the orbit of `c` under `z ↦ z² + c` on pairs over an ordered commutative ring, and
  `nsq` the square of the modulus, so that no square root is taken.
* `nsq_le_nsq_quad`: outside the disc of radius two, and outside the circle through `c`, a step
  does not bring the point nearer to `0`. `nsq_iter_mono` follows: from the first point of the
  orbit outside the disc on the modulus does not decrease, with no condition on `c`.
-/

namespace Escape

/-! ### Leading counts -/

/-- The number of leading `i < b` with `p i`. -/
def leading (p : ℕ → Bool) : ℕ → ℕ
  | 0 => 0
  | b + 1 => if leading p b = b ∧ p b = true then b + 1 else leading p b

section Leading

variable {p : ℕ → Bool} {b m : ℕ}

lemma leading_le (p : ℕ → Bool) (b : ℕ) : leading p b ≤ b := by
  induction b with
  | zero => rfl
  | succ b ih => rw [leading]; split <;> omega

/-- Below the count the property holds. -/
lemma of_lt_leading {i : ℕ} (h : i < leading p b) : p i = true := by
  induction b with
  | zero => exact absurd h (Nat.not_lt_zero _)
  | succ b ih =>
      rw [leading] at h
      split at h
      next hb =>
        rcases Nat.lt_succ_iff_lt_or_eq.mp h with hlt | rfl
        · exact ih (by rwa [hb.1])
        · exact hb.2
      next => exact ih h

/-- At the count the property fails, unless all of the `i < b` have it. -/
lemma leading_at (h : leading p b < b) : p (leading p b) = false := by
  induction b with
  | zero => exact absurd h (Nat.not_lt_zero _)
  | succ b ih =>
      rw [leading] at h ⊢
      split at h
      next => exact absurd h (lt_irrefl _)
      next hb =>
        rw [if_neg hb]
        rcases (leading_le p b).lt_or_eq with hlt | heq
        · exact ih hlt
        · rw [heq]
          exact Bool.eq_false_iff.mpr fun hp => hb ⟨heq, hp⟩

/-- The count is the `m ≤ b` below which the property holds and at which it fails unless
`m = b`. -/
lemma leading_eq (hle : m ≤ b) (hbelow : ∀ i < m, p i = true) (hat : m < b → p m = false) :
    leading p b = m := by
  have hl := leading_le p b
  rcases lt_trichotomy (leading p b) m with hlt | heq | hgt
  · have h₁ := leading_at (p := p) (b := b) (by omega)
    rw [hbelow _ hlt] at h₁
    exact absurd h₁ (by simp)
  · exact heq
  · have h₁ := of_lt_leading hgt
    rw [hat (by omega)] at h₁
    exact absurd h₁ (by simp)

/-- The count from its front: it is zero if `p 0` fails, and one more than that of the rest
otherwise. -/
lemma leading_succ_front (p : ℕ → Bool) (b : ℕ) :
    leading p (b + 1) = if p 0 then leading (fun i => p (i + 1)) b + 1 else 0 := by
  have hl := leading_le (fun i => p (i + 1)) b
  by_cases h0 : p 0 = true
  · rw [if_pos h0]
    refine leading_eq (by omega) (fun i hi => ?_) fun h => ?_
    · cases i with
      | zero => exact h0
      | succ i => exact of_lt_leading (p := fun i => p (i + 1)) (b := b) (by omega)
    · exact leading_at (p := fun i => p (i + 1)) (b := b) (by omega)
  · rw [if_neg h0]
    exact leading_eq (Nat.zero_le _) (fun i hi => absurd hi (Nat.not_lt_zero i))
      fun _ => Bool.eq_false_iff.mpr h0

end Leading

/-! ### The quadratic map -/

section Quad

variable {K : Type*} [CommRing K]

/-- `z ↦ z² + c`, a pair being a real and an imaginary part. -/
def quad (c z : K × K) : K × K :=
  (z.1 * z.1 - z.2 * z.2 + c.1, z.1 * z.2 + z.1 * z.2 + c.2)

/-- The square of the modulus. -/
def nsq (z : K × K) : K := z.1 * z.1 + z.2 * z.2

/-- The orbit of `c`: `iter c n` is the point after `n` iterations that start at `c`. -/
def iter (c : K × K) : ℕ → K × K
  | 0 => c
  | n + 1 => quad c (iter c n)

@[simp] lemma iter_zero (c : K × K) : iter c 0 = c := rfl

lemma iter_succ (c : K × K) (n : ℕ) : iter c (n + 1) = quad c (iter c n) := rfl

lemma iter_eq_iterate (c : K × K) (n : ℕ) : iter c n = (quad c)^[n] c := by
  induction n with
  | zero => rfl
  | succ n ih => rw [iter_succ, ih, Function.iterate_succ_apply']

variable [LinearOrder K]

/-- Iteration `i` leaves the point in the open disc of radius two. -/
def insideOpen (c : K × K) (i : ℕ) : Bool := nsq (iter c (i + 1)) < 4

/-- Iteration `i` leaves the point in the closed disc of radius two. -/
def insideClosed (c : K × K) (i : ℕ) : Bool := ¬ 4 < nsq (iter c (i + 1))

@[simp] lemma insideOpen_iff {c : K × K} {i : ℕ} :
    insideOpen c i = true ↔ nsq (iter c (i + 1)) < 4 := decide_eq_true_iff

@[simp] lemma insideClosed_iff {c : K × K} {i : ℕ} :
    insideClosed c i = true ↔ nsq (iter c (i + 1)) ≤ 4 :=
  decide_eq_true_iff.trans not_lt

lemma insideOpen_eq_false_iff {c : K × K} {i : ℕ} :
    insideOpen c i = false ↔ 4 ≤ nsq (iter c (i + 1)) := by
  rw [← Bool.not_eq_true, insideOpen_iff, not_lt]

lemma insideClosed_eq_false_iff {c : K × K} {i : ℕ} :
    insideClosed c i = false ↔ 4 < nsq (iter c (i + 1)) := by
  rw [← Bool.not_eq_true, insideClosed_iff, not_le]

variable [IsStrictOrderedRing K]

lemma nsq_nonneg (z : K × K) : 0 ≤ nsq z := add_nonneg (mul_self_nonneg _) (mul_self_nonneg _)

/-- The bound behind the escape: with `a = |z|²`, `b = |c|²` and `r = Re(z² c̄)` this is
`|z² + c|² ≥ |z|²`, and the hypothesis on `r` is the Cauchy–Schwarz inequality. -/
lemma le_sq_add_of_sq_le {a b r : K} (ha : 4 ≤ a) (hb : 0 ≤ b) (hba : b ≤ a)
    (hr : r ^ 2 ≤ a ^ 2 * b) : a ≤ a ^ 2 + 2 * r + b := by
  by_contra hlt
  push Not at hlt
  have ha0 : 0 ≤ a := le_trans (by norm_num) ha
  have hpos : 0 ≤ a ^ 2 + b - a := by nlinarith
  -- both sides of `a² + b - a < -2r` are squared
  have hsq : (a ^ 2 + b - a) ^ 2 < (2 * r) ^ 2 := by
    rw [← neg_sq (2 * r)]
    exact pow_lt_pow_left₀ (by linarith) hpos (by norm_num)
  have hle : 4 * a ^ 2 * b ≤ (a ^ 2 + b - a) ^ 2 := by
    have h₁ : 0 ≤ a ^ 3 * (a - 4) := mul_nonneg (pow_nonneg ha0 3) (by linarith)
    have h₂ : 0 ≤ (a - b) * (2 * a ^ 2 + a - b) :=
      mul_nonneg (by linarith) (by nlinarith)
    have hsplit : (a ^ 2 + b - a) ^ 2 - 4 * a ^ 2 * b
        = a ^ 3 * (a - 4) + (a - b) * (2 * a ^ 2 + a - b) := by ring
    linarith
  nlinarith

/-- **The escape step**: outside the disc of radius two and outside the circle through `c` the
modulus does not decrease. -/
theorem nsq_le_nsq_quad {c z : K × K} (h4 : 4 ≤ nsq z) (hc : nsq c ≤ nsq z) :
    nsq z ≤ nsq (quad c z) := by
  set r : K := (z.1 * z.1 - z.2 * z.2) * c.1 + (z.1 * z.2 + z.1 * z.2) * c.2 with hr
  have hexp : nsq (quad c z) = nsq z ^ 2 + 2 * r + nsq c := by
    simp only [nsq, quad, hr]; ring
  have hcs : nsq z ^ 2 * nsq c - r ^ 2
      = ((z.1 * z.1 - z.2 * z.2) * c.2 - (z.1 * z.2 + z.1 * z.2) * c.1) ^ 2 := by
    simp only [nsq, hr]; ring
  rw [hexp]
  refine le_sq_add_of_sq_le h4 (nsq_nonneg c) hc ?_
  have := sq_nonneg ((z.1 * z.1 - z.2 * z.2) * c.2 - (z.1 * z.2 + z.1 * z.2) * c.1)
  linarith

/-- If `c` itself is outside the disc, its orbit stays outside the circle through `c`. -/
lemma nsq_le_nsq_iter {c : K × K} (hc : 4 ≤ nsq c) (n : ℕ) : nsq c ≤ nsq (iter c n) := by
  induction n with
  | zero => exact le_rfl
  | succ n ih =>
      calc nsq c ≤ nsq (iter c n) := ih
        _ ≤ nsq (iter c (n + 1)) := nsq_le_nsq_quad (hc.trans ih) ih

/-- **Escape**: from a point of the orbit outside the disc of radius two on, the modulus does not
decrease. -/
theorem nsq_iter_mono {c : K × K} {i j : ℕ} (h4 : 4 ≤ nsq (iter c i)) (hij : i ≤ j) :
    nsq (iter c i) ≤ nsq (iter c j) := by
  have hc : nsq c ≤ nsq (iter c i) := by
    rcases le_total (nsq c) 4 with hle | hge
    · exact hle.trans h4
    · exact nsq_le_nsq_iter hge i
  induction j, hij using Nat.le_induction with
  | base => exact le_rfl
  | succ j _ ih =>
      calc nsq (iter c i) ≤ nsq (iter c j) := ih
        _ ≤ nsq (iter c (j + 1)) := nsq_le_nsq_quad (h4.trans ih) (hc.trans ih)

/-- The open disc is never entered again. -/
lemma insideOpen_antitone {c : K × K} {i j : ℕ} (hij : i ≤ j) (hj : insideOpen c j = true) :
    insideOpen c i = true := by
  rw [insideOpen_iff] at hj ⊢
  by_contra hout
  rw [not_lt] at hout
  refine lt_irrefl (4 : K) ?_
  calc 4 ≤ nsq (iter c (i + 1)) := hout
    _ ≤ nsq (iter c (j + 1)) := nsq_iter_mono hout (Nat.succ_le_succ hij)
    _ < 4 := hj

end Quad

end Escape
