import Mathlib.Tactic

/-!
Cutting an interval into segments of a given length.

`segments a b g` cuts `[a, b)` into pieces of length `g`, the last one clipped at `b`. The list is
given by a formula, one segment for each `k < ⌈(b - a) / g⌉`, and `segments_cons` is the recursion
a loop follows that cuts one piece off after the other.

* `exists_segment`: every point lies in a segment, and so does the end `b` once the right ends
  count (`exists_segment_closed`);
* `segments_bounds`: what a segment is bounded by;
* `segments_pairwise`: the segments follow each other without overlap;
* `last_segment`: the segment that ends at `b`.
-/

/-- The pieces of `[a, b)` cut at `a, a + g, a + 2g, …`, the last one clipped at `b`. -/
def segments (a b g : ℕ) : List (ℕ × ℕ) :=
  (List.range ((b - a + g - 1) / g)).map fun k => (a + k * g, min (a + (k + 1) * g) b)

section Segments

variable {a b g : ℕ}

lemma length_segments : (segments a b g).length = (b - a + g - 1) / g := by
  rw [segments, List.length_map, List.length_range]

lemma lt_segment_count_iff (hg : 1 ≤ g) (k : ℕ) :
    k < (b - a + g - 1) / g ↔ a + k * g < b := by
  rw [Nat.lt_iff_add_one_le, Nat.le_div_iff_mul_le hg, Nat.succ_mul]
  omega

lemma mem_segments (hg : 1 ≤ g) {p : ℕ × ℕ} :
    p ∈ segments a b g ↔ ∃ k, a + k * g < b ∧ p = (a + k * g, min (a + (k + 1) * g) b) := by
  simp only [segments, List.mem_map, List.mem_range, lt_segment_count_iff hg]
  exact exists_congr fun k => and_congr_right fun _ => eq_comm

lemma segments_eq_nil (hg : 1 ≤ g) (h : b ≤ a) : segments a b g = [] := by
  rw [segments, List.map_eq_nil_iff, List.range_eq_nil, Nat.div_eq_zero_iff]
  omega

/-- The recursion of the cut: the first piece, then the cut of what is left. -/
lemma segments_cons (hg : 1 ≤ g) (h : a < b) :
    segments a b g = (a, min (a + g) b) :: segments (min (a + g) b) b g := by
  rcases le_total (a + g) b with hle | hle
  · have hcount : (b - a + g - 1) / g = (b - (a + g) + g - 1) / g + 1 := by
      rw [show b - a + g - 1 = b - (a + g) + g - 1 + g by omega, Nat.add_div_right _ hg]
    rw [min_eq_left hle, segments, segments, hcount, List.range_succ_eq_map, List.map_cons,
      List.map_map]
    congr 1
    · simp [min_eq_left hle]
    · refine List.map_congr_left fun k _ => ?_
      simp only [Function.comp_apply, Nat.succ_eq_add_one, Prod.mk.injEq]
      constructor
      · ring
      · rw [show a + g + (k + 1) * g = a + (k + 1 + 1) * g by ring]
  · have hcount : (b - a + g - 1) / g = 1 := by
      rw [Nat.div_eq_of_lt_le] <;> omega
    rw [min_eq_right hle, segments_eq_nil hg le_rfl, segments, hcount]
    simp [min_eq_right hle]

/-- A segment is a nonempty piece of `[a, b)` of length at most `g`. -/
lemma segments_bounds (hg : 1 ≤ g) {p : ℕ × ℕ} (hp : p ∈ segments a b g) :
    a ≤ p.1 ∧ p.1 < p.2 ∧ p.2 ≤ b ∧ p.2 - p.1 ≤ g := by
  obtain ⟨k, hk, rfl⟩ := (mem_segments hg).mp hp
  have hsucc : (k + 1) * g = k * g + g := Nat.succ_mul k g
  dsimp only
  omega

/-- The segments lie one after the other: no two of them overlap. -/
lemma segments_pairwise : (segments a b g).Pairwise fun p q => p.2 ≤ q.1 := by
  rw [segments, List.pairwise_map]
  refine List.pairwise_lt_range.imp fun {i j} hij => ?_
  have hmul : (i + 1) * g ≤ j * g := Nat.mul_le_mul_right g hij
  exact le_trans (min_le_left _ _) (Nat.add_le_add_left hmul a)

/-- Every point of `[a, b)` lies in one of the segments. -/
lemma exists_segment (hg : 1 ≤ g) {x : ℕ} (hax : a ≤ x) (hxb : x < b) :
    ∃ p ∈ segments a b g, p.1 ≤ x ∧ x < p.2 := by
  have hdiv := Nat.div_add_mod (x - a) g
  have hmod := Nat.mod_lt (x - a) hg
  rw [Nat.mul_comm] at hdiv
  have hsucc : ((x - a) / g + 1) * g = (x - a) / g * g + g := Nat.succ_mul _ g
  exact ⟨_, (mem_segments hg).mpr ⟨(x - a) / g, by omega, rfl⟩, by dsimp only; omega,
    by dsimp only; omega⟩

/-- The segment that ends at `b`: it starts at the last multiple of `g` below `b`. -/
lemma last_segment (hg : 1 ≤ g) (hab : a < b) :
    (a + (b - a - 1) / g * g, b) ∈ segments a b g := by
  have hdiv := Nat.div_add_mod (b - a - 1) g
  have hmod := Nat.mod_lt (b - a - 1) hg
  rw [Nat.mul_comm] at hdiv
  have hsucc : ((b - a - 1) / g + 1) * g = (b - a - 1) / g * g + g := Nat.succ_mul _ g
  refine (mem_segments hg).mpr ⟨(b - a - 1) / g, by omega, ?_⟩
  rw [min_eq_right (by omega)]

/-- With their right ends counted the segments also cover `b`. -/
lemma exists_segment_closed (hg : 1 ≤ g) (hab : a < b) {x : ℕ} (hax : a ≤ x) (hxb : x ≤ b) :
    ∃ p ∈ segments a b g, p.1 ≤ x ∧ x ≤ p.2 := by
  rcases hxb.lt_or_eq with hlt | rfl
  · obtain ⟨p, hp, h₁, h₂⟩ := exists_segment hg hax hlt
    exact ⟨p, hp, h₁, h₂.le⟩
  · exact ⟨_, last_segment hg hab, by have := segments_bounds hg (last_segment hg hab); omega,
      le_rfl⟩

/-- A segment that does not end at `b` ends where another one starts. -/
lemma segment_next (hg : 1 ≤ g) {p : ℕ × ℕ} (hp : p ∈ segments a b g) (hlt : p.2 < b) :
    p.2 = p.1 + g ∧ (p.2, min (p.2 + g) b) ∈ segments a b g := by
  obtain ⟨k, hk, rfl⟩ := (mem_segments hg).mp hp
  have hsucc : (k + 1) * g = k * g + g := Nat.succ_mul k g
  have hsucc₂ : (k + 1 + 1) * g = (k + 1) * g + g := Nat.succ_mul (k + 1) g
  dsimp only at hlt ⊢
  refine ⟨by omega, (mem_segments hg).mpr ⟨k + 1, by omega, ?_⟩⟩
  rw [min_eq_left (by omega), Nat.add_assoc, hsucc₂]

end Segments
