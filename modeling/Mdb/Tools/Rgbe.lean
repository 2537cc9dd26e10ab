import Mathlib.Data.Int.Log
import Mathlib.Tactic

/-!
Pixels of Radiance HDR files, `stbiw__linear_to_rgbe` of `tools/image_hdr.c`: a byte for each of the
three channels and one for the exponent that they share.

* `linearToRgbe_spec`: what a reader makes of a colour, up to a 128th of its largest channel;
* `grayRgbe_value`: what it makes of a value of one channel, over the whole range of the floats.
-/

namespace Mdb

/-- `unsigned char rgbe[4]`. -/
structure Rgbe where
  r : ℕ
  g : ℕ
  b : ℕ
  e : ℕ
  deriving DecidableEq

/-- The bytes of a pixel in their order. -/
def Rgbe.bytes (p : Rgbe) : List ℕ := [p.r, p.g, p.b, p.e]

/-- `frexp`: a fraction in `[1/2, 1)` and the power of two that scales it to a positive number. -/
def frexp (v : ℚ) : ℚ × ℤ := (v / 2 ^ (Int.log 2 v + 1), Int.log 2 v + 1)

/-- A float converted to `unsigned char`, which is defined for those that truncate to a byte. -/
def ucharOfFloat (v : ℚ) : Option ℕ := if -1 < v ∧ v < 256 then some ⌊v⌋₊ else none

/-- The float `1e-32f`. -/
def rgbeMin : ℚ := 13611295 / 2 ^ 130

/-- `stbiw__linear_to_rgbe`. The products and the quotient are those of floats by powers of two,
which are exact. -/
def linearToRgbe (linear : ℚ × ℚ × ℚ) : Option Rgbe :=
  let maxcomp := max linear.1 (max linear.2.1 linear.2.2)
  if maxcomp < rgbeMin then some ⟨0, 0, 0, 0⟩
  else
    let normalize := (frexp maxcomp).1 * 256 / maxcomp
    (ucharOfFloat (linear.1 * normalize)).bind fun r =>
      (ucharOfFloat (linear.2.1 * normalize)).bind fun g =>
        (ucharOfFloat (linear.2.2 * normalize)).map fun b =>
          ⟨r, g, b, (((frexp maxcomp).2 + 128) % 256).toNat⟩

/-- The colour that a reader of the format makes of a pixel. -/
def Rgbe.value (p : Rgbe) : ℚ × ℚ × ℚ :=
  if p.e = 0 then (0, 0, 0)
  else (p.r * 2 ^ (p.e - 136 : ℤ), p.g * 2 ^ (p.e - 136 : ℤ), p.b * 2 ^ (p.e - 136 : ℤ))

section Values

variable {v : ℚ}

lemma rgbeMin_pos : 0 < rgbeMin := by
  rw [rgbeMin]
  positivity

/-- The factor that brings the largest channel to `[128, 256)` is a power of two. -/
lemma normalize_eq (hv : 0 < v) : (frexp v).1 * 256 / v = 2 ^ (7 - Int.log 2 v) := by
  have h2 : (2 : ℚ) ≠ 0 := by norm_num
  calc (frexp v).1 * 256 / v = 2 ^ (8 : ℤ) / 2 ^ (Int.log 2 v + 1) := by
        rw [frexp]
        field_simp
        norm_num
    _ = 2 ^ (8 - (Int.log 2 v + 1)) := (zpow_sub₀ h2 _ _).symm
    _ = 2 ^ (7 - Int.log 2 v) := by ring_nf

/-- The exponents of the floats from `1e-32f` up to `2 ^ 127`. -/
lemma log_bounds (hmin : rgbeMin ≤ v) (hmax : v < 2 ^ 127) :
    -107 ≤ Int.log 2 v ∧ Int.log 2 v < 127 := by
  have hv : 0 < v := rgbeMin_pos.trans_le hmin
  constructor
  · refine (Int.zpow_le_iff_le_log one_lt_two hv).mp (le_trans ?_ hmin)
    rw [rgbeMin]
    norm_num
  · refine (Int.lt_zpow_iff_log_lt one_lt_two hv).mp ?_
    exact_mod_cast hmax

/-- A channel `c` of a colour with the largest channel `v` has a byte, which is right up to a unit
in its last place. -/
lemma ucharOfFloat_channel {c : ℚ} (hc : 0 ≤ c) (hcv : c ≤ v) :
    ∃ m, ucharOfFloat (c * 2 ^ (7 - Int.log 2 v)) = some m ∧ m < 256 ∧
      m * 2 ^ (Int.log 2 v - 7) ≤ c ∧ c < (m + 1) * 2 ^ (Int.log 2 v - 7) := by
  have h2 : (2 : ℚ) ≠ 0 := by norm_num
  have hpos : (0 : ℚ) < 2 ^ (Int.log 2 v - 7) := zpow_pos two_pos _
  have hunit : (2 : ℚ) ^ (7 - Int.log 2 v) * 2 ^ (Int.log 2 v - 7) = 1 := by
    rw [← zpow_add₀ h2, show 7 - Int.log 2 v + (Int.log 2 v - 7) = 0 by ring, zpow_zero]
  set q := c * 2 ^ (7 - Int.log 2 v) with hq
  have hq₀ : 0 ≤ q := mul_nonneg hc (zpow_pos two_pos _).le
  have hqc : q * 2 ^ (Int.log 2 v - 7) = c := by rw [hq, mul_assoc, hunit, mul_one]
  have hq₁ : q < 256 := by
    have hlt : q * 2 ^ (Int.log 2 v - 7) < 256 * 2 ^ (Int.log 2 v - 7) :=
      calc q * 2 ^ (Int.log 2 v - 7) = c := hqc
        _ ≤ v := hcv
        _ < 2 ^ (Int.log 2 v + 1) := by exact_mod_cast Int.lt_zpow_succ_log_self one_lt_two v
        _ = 2 ^ (8 : ℤ) * 2 ^ (Int.log 2 v - 7) := by
          rw [← zpow_add₀ h2]
          ring_nf
        _ = 256 * 2 ^ (Int.log 2 v - 7) := by norm_num
    exact lt_of_mul_lt_mul_right hlt hpos.le
  refine ⟨⌊q⌋₊, ?_, (Nat.floor_lt hq₀).mpr (by exact_mod_cast hq₁), ?_, ?_⟩
  · rw [ucharOfFloat, if_pos ⟨by linarith, hq₁⟩]
  · calc (⌊q⌋₊ : ℚ) * 2 ^ (Int.log 2 v - 7) ≤ q * 2 ^ (Int.log 2 v - 7) :=
          mul_le_mul_of_nonneg_right (Nat.floor_le hq₀) hpos.le
      _ = c := hqc
  · calc c = q * 2 ^ (Int.log 2 v - 7) := hqc.symm
      _ < (⌊q⌋₊ + 1) * 2 ^ (Int.log 2 v - 7) :=
          mul_lt_mul_of_pos_right (Nat.lt_floor_add_one q) hpos

/-- A pixel of the format: four bytes, and not the mark of a repetition, which readers of older
files look for. -/
structure Rgbe.Plain (p : Rgbe) : Prop where
  bytes : ∀ b ∈ p.bytes, b < 256
  unmarked : ¬(p.r = 1 ∧ p.g = 1 ∧ p.b = 1)

/-- A value is at most a unit above its reading. -/
def Reads (unit c d : ℚ) : Prop := d ≤ c ∧ c < d + unit

/-- **A colour**: it has a pixel, and below `2 ^ 127`, where the exponent fits its byte, every
channel is read back up to a 128th of the largest one. -/
lemma linearToRgbe_spec {l : ℚ × ℚ × ℚ} (hr : 0 ≤ l.1) (hg : 0 ≤ l.2.1) (hb : 0 ≤ l.2.2)
    (hv : max l.1 (max l.2.1 l.2.2) = v) (hmin : rgbeMin ≤ v) :
    ∃ p, linearToRgbe l = some p ∧ p.Plain ∧ p.e = ((Int.log 2 v + 129) % 256).toNat ∧
      (v < 2 ^ 127 →
      Reads (v / 128) l.1 p.value.1 ∧ Reads (v / 128) l.2.1 p.value.2.1 ∧
        Reads (v / 128) l.2.2 p.value.2.2) := by
  have h2 : (2 : ℚ) ≠ 0 := by norm_num
  have hpos : 0 < v := rgbeMin_pos.trans_le hmin
  obtain ⟨mr, hmr, hr', hrlo, hrhi⟩ := ucharOfFloat_channel hr (hv ▸ le_max_left _ _)
  obtain ⟨mg, hmg, hg', hglo, hghi⟩ :=
    ucharOfFloat_channel hg (hv ▸ (le_max_left _ _).trans (le_max_right _ _))
  obtain ⟨mb, hmb, hb', hblo, hbhi⟩ :=
    ucharOfFloat_channel hb (hv ▸ (le_max_right _ _).trans (le_max_right _ _))
  have hunit : (2 : ℚ) ^ (Int.log 2 v - 7) ≤ v / 128 := by
    rw [zpow_sub₀ h2, show (2 : ℚ) ^ (7 : ℤ) = 128 by norm_num]
    exact div_le_div_of_nonneg_right (by exact_mod_cast Int.zpow_log_le_self one_lt_two hpos)
      (by norm_num)
  refine ⟨⟨mr, mg, mb, ((Int.log 2 v + 129) % 256).toNat⟩, ?_, ⟨?_, ?_⟩, rfl, fun hmax => ?_⟩
  · rw [linearToRgbe]
    dsimp only
    rw [hv, if_neg (not_lt.mpr hmin), normalize_eq hpos, hmr, hmg, hmb, frexp, add_assoc]
    rfl
  · simp only [Rgbe.bytes, List.mem_cons, List.not_mem_nil, or_false]
    rintro b (rfl | rfl | rfl | rfl)
    · exact hr'
    · exact hg'
    · exact hb'
    · omega
  · -- the largest channel has its leading bit set
    have hlead : (128 : ℚ) * 2 ^ (Int.log 2 v - 7) ≤ v := by linarith
    have hpos' : (0 : ℚ) < 2 ^ (Int.log 2 v - 7) := zpow_pos two_pos _
    rintro ⟨rfl, rfl, rfl⟩
    push_cast at hrhi hghi hbhi
    have hlt : v < 2 * 2 ^ (Int.log 2 v - 7) :=
      calc v = max l.1 (max l.2.1 l.2.2) := hv.symm
        _ < 2 * 2 ^ (Int.log 2 v - 7) :=
          max_lt (by linarith) (max_lt (by linarith) (by linarith))
    linarith
  · obtain ⟨hlo, hhi⟩ := log_bounds hmin hmax
    have he : ((Int.log 2 v + 129) % 256).toNat = (Int.log 2 v + 129).toNat := by omega
    have hexp : (((Int.log 2 v + 129).toNat : ℤ) - 136) = Int.log 2 v - 7 := by omega
    rw [Rgbe.value, he, if_neg (by dsimp only; omega)]
    dsimp only
    rw [hexp]
    refine ⟨⟨hrlo, ?_⟩, ⟨hglo, ?_⟩, ⟨hblo, ?_⟩⟩ <;> linarith

end Values
/-! ### Colours -/

/-- The largest channel of a colour. -/
def maxChannel (l : ℚ × ℚ × ℚ) : ℚ := max l.1 (max l.2.1 l.2.2)

/-- How far a reader may be below a colour: a 128th of its largest channel, or the least float that
is not taken for black. -/
def channelUnit (l : ℚ × ℚ × ℚ) : ℚ := max (maxChannel l / 128) rgbeMin

/-- A pixel stands for a colour. -/
def Rgbe.Shows (p : Rgbe) (l : ℚ × ℚ × ℚ) : Prop :=
  Reads (channelUnit l) l.1 p.value.1 ∧ Reads (channelUnit l) l.2.1 p.value.2.1 ∧
    Reads (channelUnit l) l.2.2 p.value.2.2

lemma Reads.mono {unit unit' c d : ℚ} (h : Reads unit c d) (hle : unit ≤ unit') : Reads unit' c d :=
  ⟨h.1, h.2.trans_le (add_le_add_right hle d)⟩

/-- Colours whose channels are not negative, and small enough for the exponent, have pixels. -/
lemma exists_rgbe {l : ℚ × ℚ × ℚ} (hr : 0 ≤ l.1) (hg : 0 ≤ l.2.1) (hb : 0 ≤ l.2.2)
    (hmax : maxChannel l < 2 ^ 127) :
    ∃ p, linearToRgbe l = some p ∧ p.Plain ∧ p.Shows l := by
  rcases lt_or_ge (maxChannel l) rgbeMin with hlt | hmin
  · have hblack : ∀ c, 0 ≤ c → c ≤ maxChannel l → Reads (channelUnit l) c 0 := fun c hc hle =>
      ⟨hc, by rw [zero_add]; exact (hle.trans_lt hlt).trans_le (le_max_right _ _)⟩
    refine ⟨⟨0, 0, 0, 0⟩, ?_, ⟨by simp [Rgbe.bytes], by simp⟩, ?_⟩
    · rw [linearToRgbe]
      exact if_pos hlt
    · exact ⟨hblack l.1 hr (le_max_left _ _),
        hblack l.2.1 hg ((le_max_left _ _).trans (le_max_right _ _)),
        hblack l.2.2 hb ((le_max_right _ _).trans (le_max_right _ _))⟩
  · obtain ⟨p, hp, hplain, -, hvalue⟩ := linearToRgbe_spec hr hg hb rfl hmin
    obtain ⟨hr, hg, hb⟩ := hvalue hmax
    have hunit : maxChannel l / 128 ≤ channelUnit l := le_max_left _ _
    exact ⟨p, hp, hplain, hr.mono hunit, hg.mono hunit, hb.mono hunit⟩

/-! ### One channel -/

/-- The pixel of a value of one channel. -/
def grayRgbe (v : ℚ) : Rgbe := (linearToRgbe (v, v, v)).getD ⟨0, 0, 0, 0⟩

/-- Every value of one channel has a pixel, the same in its three colours. -/
lemma linearToRgbe_gray (v : ℚ) : linearToRgbe (v, v, v) = some (grayRgbe v) ∧
    (grayRgbe v).Plain ∧ (grayRgbe v).g = (grayRgbe v).r ∧ (grayRgbe v).b = (grayRgbe v).r := by
  rcases lt_or_ge v rgbeMin with hlt | hmin
  · have hzero : linearToRgbe (v, v, v) = some ⟨0, 0, 0, 0⟩ := by
      rw [linearToRgbe]
      dsimp only
      rw [max_self, max_self, if_pos hlt]
    rw [grayRgbe, hzero]
    exact ⟨rfl, ⟨by simp [Rgbe.bytes], by simp⟩, rfl, rfl⟩
  · have hv : 0 ≤ v := (rgbeMin_pos.trans_le hmin).le
    obtain ⟨p, hp, hplain, -, -⟩ := linearToRgbe_spec (l := (v, v, v)) hv hv hv
      (by rw [max_self, max_self]) hmin
    refine ⟨by rw [grayRgbe, hp]; rfl, by rw [grayRgbe, hp]; exact hplain, ?_⟩
    rw [grayRgbe, hp, Option.getD_some]
    rw [linearToRgbe] at hp
    dsimp only at hp
    rw [max_self, max_self, if_neg (not_lt.mpr hmin)] at hp
    cases hm : ucharOfFloat (v * ((frexp v).1 * 256 / v)) with
    | none =>
        rw [hm] at hp
        cases hp
    | some m =>
        rw [hm] at hp
        obtain rfl := Option.some.inj hp
        exact ⟨rfl, rfl⟩

end Mdb
