import Mdb.Library.StoreTrace

/-!
Masks of CPU features (`tools/cpu_features.c`).

`cpuFeaturesToStr` returns its result and the stores it makes into the buffer, whose indices count
from the begin of the buffer and may be outside it.

* `cpuCheckFeatures_eq_zero_iff`: nothing is missing exactly if every bit is a feature of the host;
* `cpu_features_to_str_iff`: for which masks and buffers the list of the names is well formed.
-/

namespace Mdb

open StoreTrace

/-! ### Features -/

/-- The bits `CPU_FEATURE_MMX` to `CPU_FEATURE_FMA`. -/
inductive CpuFeature where
  | mmx
  | sse
  | sse2
  | sse3
  | ssse3
  | sse41
  | sse42
  | avx
  | avx2
  | fma
  deriving DecidableEq

namespace CpuFeature

/-- The number of the bit. -/
def index : CpuFeature → ℕ
  | mmx => 0
  | sse => 1
  | sse2 => 2
  | sse3 => 3
  | ssse3 => 4
  | sse41 => 5
  | sse42 => 6
  | avx => 7
  | avx2 => 8
  | fma => 9

/-- The value of the constant. -/
def bit (f : CpuFeature) : BitVec 32 := BitVec.twoPow 32 f.index

/-- The name of a feature in the list of `cpu_features_to_str`. -/
def label : CpuFeature → List Char
  | mmx => ['m', 'm', 'x']
  | sse => ['s', 's', 'e']
  | sse2 => ['s', 's', 'e', '2']
  | sse3 => ['s', 's', 'e', '3']
  | ssse3 => ['s', 's', 's', 'e', '3']
  | sse41 => ['s', 's', 'e', '4', '.', '1']
  | sse42 => ['s', 's', 'e', '4', '.', '2']
  | avx => ['a', 'v', 'x']
  | avx2 => ['a', 'v', 'x', '2']
  | fma => ['f', 'm', 'a']

/-- The name `cpu_check_features` asks the CPU for: `avx2` stands for `fma` too. -/
def probed : CpuFeature → List Char
  | fma => avx2.label
  | f => f.label

end CpuFeature

/-- The features in the order of their bits. -/
def cpuFeatures : List CpuFeature :=
  [.mmx, .sse, .sse2, .sse3, .ssse3, .sse41, .sse42, .avx, .avx2, .fma]

/-! ### Checking -/

/-- `__cpu_probe_feature`; `host` is `__builtin_cpu_supports`. -/
def cpuProbeFeature (host : List Char → Bool) (mask : BitVec 32) (f : CpuFeature) : BitVec 32 :=
  if mask &&& f.bit ≠ 0 then
    if host f.probed then mask ^^^ f.bit else mask
  else mask

/-- `cpu_check_features` from a feature on. -/
def cpuCheckFrom (host : List Char → Bool) : List CpuFeature → BitVec 32 → BitVec 32
  | [], mask => mask
  | f :: fs, mask => if mask = 0 then mask else cpuCheckFrom host fs (cpuProbeFeature host mask f)

/-- `cpu_check_features`: the features that are missing. -/
def cpuCheckFeatures (host : List Char → Bool) (mask : BitVec 32) : BitVec 32 :=
  cpuCheckFrom host cpuFeatures mask

/-! ### The list of names -/

/-- The buffer of `cpu_features_to_str`: where `buff` points to, the `buff_sz` characters left, and
the stores so far. -/
structure StrBuf where
  pos : ℕ
  size : ℕ
  stores : List (ℤ × Char)

/-- `memcpy` of `src` to the index `pos`. -/
def storesAt (pos : ℕ) (src : List Char) : List (ℤ × Char) :=
  (src.zipIdx pos).map fun p => ((p.2 : ℤ), p.1)

/-- `str_append`, `none` where it returns `-1`. -/
def strAppend (b : StrBuf) (src : List Char) : Option StrBuf :=
  if src.length + 1 ≤ b.size then
    some { pos := b.pos + src.length + 1
           size := b.size - (src.length + 1)
           stores := b.stores ++ storesAt b.pos src ++ storesAt (b.pos + src.length) [','] }
  else none

/-- What `cpu_features_to_str` does behind a feature, if no bit is left. -/
inductive WhenDone where
  | gotoExit
  | returnZero
  deriving DecidableEq

/-- The features in order, each with what follows it. -/
def cpuFeatureSteps : List (CpuFeature × WhenDone) :=
  [(.mmx, .gotoExit), (.sse, .gotoExit), (.sse2, .gotoExit), (.sse3, .gotoExit),
    (.ssse3, .gotoExit), (.sse41, .gotoExit), (.sse42, .gotoExit), (.avx, .returnZero),
    (.avx2, .returnZero), (.fma, .gotoExit)]

/-- What `cpu_features_to_str` returns, and its stores. -/
structure StrResult where
  ret : ℤ
  stores : List (ℤ × Char)
  deriving DecidableEq

/-- The label `exit`: the last comma becomes the end of the string. -/
def strExit (b : StrBuf) : StrResult := ⟨0, b.stores ++ [((b.pos : ℤ) - 1, '\x00')]⟩

/-- `cpu_features_to_str` from a feature on. -/
def cpuFeaturesToStrFrom : List (CpuFeature × WhenDone) → BitVec 32 → StrBuf → StrResult
  | [], _, b => strExit b
  | (f, done) :: steps, mask, b =>
      match if mask &&& f.bit ≠ 0 then strAppend b f.label else some b with
      | none => ⟨-1, b.stores⟩
      | some b =>
          let mask := if mask &&& f.bit ≠ 0 then mask ^^^ f.bit else mask
          if mask = 0 then
            match done with
            | .gotoExit => strExit b
            | .returnZero => ⟨0, b.stores⟩
          else cpuFeaturesToStrFrom steps mask b

/-- `cpu_features_to_str` with a buffer of `buffSz` characters. -/
def cpuFeaturesToStr (mask : BitVec 32) (buffSz : ℕ) : StrResult :=
  if mask = 0 then ⟨0, [(0, '\x00')]⟩
  else cpuFeaturesToStrFrom cpuFeatureSteps mask ⟨0, buffSz, []⟩

/-! ### What is missing -/

section Check

variable {host : List Char → Bool} {mask : BitVec 32} {f : CpuFeature} {i : ℕ}

/-- A mask is zero if it has no bit. -/
lemma eq_zero_iff_forall_getLsbD : mask = 0 ↔ ∀ i, mask.getLsbD i ≠ true := by
  refine ⟨fun h i => by simp [h], fun h => BitVec.eq_of_getLsbD_eq fun i _ => ?_⟩
  calc mask.getLsbD i = false := Bool.eq_false_iff.mpr (h i)
    _ = (0 : BitVec 32).getLsbD i := BitVec.getLsbD_zero.symm

lemma mem_cpuFeatures (f : CpuFeature) : f ∈ cpuFeatures := by
  cases f <;> decide

lemma and_bit_ne_zero_iff : mask &&& f.bit ≠ 0 ↔ mask.getLsbD f.index = true := by
  rw [CpuFeature.bit, BitVec.and_twoPow]
  have hne : BitVec.twoPow 32 f.index ≠ 0#32 := by cases f <;> decide
  split_ifs with h <;> simp [h, hne]

lemma getLsbD_bit : f.bit.getLsbD i = decide (i = f.index) := by
  have hlt : f.index < 32 := by cases f <;> decide
  rw [CpuFeature.bit, BitVec.getLsbD_twoPow]
  by_cases h : i = f.index
  · subst h
    simp [hlt]
  · simp [h, Ne.symm h]

/-- A mask with the bit of a feature cleared. -/
def clearBit (mask : BitVec 32) (f : CpuFeature) : BitVec 32 :=
  if mask &&& f.bit ≠ 0 then mask ^^^ f.bit else mask

lemma getLsbD_clearBit (mask : BitVec 32) (f : CpuFeature) (i : ℕ) :
    (clearBit mask f).getLsbD i = (mask.getLsbD i && decide (i ≠ f.index)) := by
  rw [clearBit]
  by_cases hbit : mask &&& f.bit ≠ 0
  · rw [if_pos hbit, BitVec.getLsbD_xor, getLsbD_bit]
    rw [and_bit_ne_zero_iff] at hbit
    by_cases hi : i = f.index
    · simp [hi, hbit]
    · simp [hi]
  · rw [if_neg hbit]
    rw [and_bit_ne_zero_iff, Bool.not_eq_true] at hbit
    by_cases hi : i = f.index
    · simp [hi, hbit]
    · simp [hi]

/-- A probe clears the bit of a feature that the host has. -/
lemma getLsbD_cpuProbeFeature :
    (cpuProbeFeature host mask f).getLsbD i
      = (mask.getLsbD i && !(decide (i = f.index) && host f.probed)) := by
  rw [cpuProbeFeature]
  cases hhost : host f.probed
  · simp
  · simpa [clearBit] using getLsbD_clearBit mask f i

/-- What is left of a mask behind the probes of some features. -/
lemma getLsbD_cpuCheckFrom {fs : List CpuFeature} : ∀ {mask : BitVec 32},
    (cpuCheckFrom host fs mask).getLsbD i = true
      ↔ mask.getLsbD i = true ∧ ∀ f ∈ fs, f.index = i → host f.probed = false := by
  induction fs with
  | nil => simp [cpuCheckFrom]
  | cons f fs ih =>
      intro mask
      rw [cpuCheckFrom]
      split_ifs with hzero
      · simp [hzero]
      · rw [ih, getLsbD_cpuProbeFeature, List.forall_mem_cons, ← and_assoc]
        refine and_congr_left' ?_
        rcases eq_or_ne f.index i with hi | hi
        · simp [hi]
        · simp [hi, hi.symm]

/-- **Nothing is missing** exactly if every bit of the mask is a feature, and the host has it. -/
theorem cpuCheckFeatures_eq_zero_iff :
    cpuCheckFeatures host mask = 0
      ↔ ∀ i, mask.getLsbD i = true → ∃ f : CpuFeature, f.index = i ∧ host f.probed = true := by
  rw [eq_zero_iff_forall_getLsbD]
  refine forall_congr' fun i => ?_
  rw [cpuCheckFeatures, Ne, getLsbD_cpuCheckFrom]
  push Not
  refine imp_congr_right fun _ => ⟨?_, ?_⟩
  · rintro ⟨f, -, hf, hhost⟩
    exact ⟨f, hf, by simpa using hhost⟩
  · rintro ⟨f, hf, hhost⟩
    exact ⟨f, mem_cpuFeatures f, hf, by simpa using hhost⟩

end Check

/-! ### The text behind some features -/

/-- Each name with its comma. -/
def commaText (names : List (List Char)) : List Char := names.flatMap (· ++ [','])

/-- The last comma apart, that is the list with commas between its names. -/
lemma commaText_eq {names : List (List Char)} (h : names ≠ []) :
    commaText names = [','].intercalate names ++ [','] := by
  induction names with
  | nil => exact absurd rfl h
  | cons name names ih =>
      rw [commaText, List.flatMap_cons]
      cases names with
      | nil => simp [List.intercalate]
      | cons next names =>
          change name ++ [','] ++ commaText (next :: names) = _
          rw [ih (List.cons_ne_nil _ _)]
          simp only [List.intercalate, List.intersperse_cons_cons, List.flatten_cons,
            List.append_assoc]

/-- The names of the features of a mask, in the order of their bits. -/
def namesOf (fs : List CpuFeature) (mask : BitVec 32) : List (List Char) :=
  (fs.filter fun f => mask.getLsbD f.index).map CpuFeature.label

lemma namesOf_cons (f : CpuFeature) (fs : List CpuFeature) (mask : BitVec 32) :
    namesOf (f :: fs) mask = namesOf [f] mask ++ namesOf fs mask := by
  rw [← List.singleton_append, namesOf, List.filter_append, List.map_append]
  rfl

@[simp] lemma namesOf_zero (fs : List CpuFeature) : namesOf fs 0 = [] := by
  simp [namesOf]

@[simp] lemma commaText_nil : commaText [] = [] := rfl

/-- The names do not depend on the bits of other features. -/
lemma namesOf_congr {fs : List CpuFeature} {mask mask' : BitVec 32}
    (h : ∀ f ∈ fs, mask.getLsbD f.index = mask'.getLsbD f.index) :
    namesOf fs mask = namesOf fs mask' := by
  rw [namesOf, namesOf, List.filter_congr h]

/-- The buffer of `sz` characters when the text has been appended. -/
def bufWith (sz : ℕ) (text : List Char) : StrBuf :=
  ⟨text.length, sz - text.length, storesAt 0 text⟩

lemma storesAt_append (pos : ℕ) (s t : List Char) :
    storesAt pos (s ++ t) = storesAt pos s ++ storesAt (pos + s.length) t := by
  rw [storesAt, List.zipIdx_append, List.map_append, Nat.add_comm]
  rfl

/-- A name is appended with its comma as long as both fit. -/
lemma strAppend_bufWith {sz : ℕ} {text : List Char} (h : text.length ≤ sz) (src : List Char) :
    strAppend (bufWith sz text) src
      = if (text ++ (src ++ [','])).length ≤ sz then some (bufWith sz (text ++ (src ++ [','])))
        else none := by
  have hlen : (text ++ (src ++ [','])).length = text.length + (src.length + 1) := by simp
  have hfits : src.length + 1 ≤ sz - text.length ↔ text.length + (src.length + 1) ≤ sz := by omega
  rw [strAppend, hlen]
  refine if_congr hfits ?_ rfl
  rw [bufWith, bufWith, hlen, storesAt_append, storesAt_append, Nat.zero_add, Nat.sub_sub,
    List.append_assoc, Nat.add_assoc]

section Run

variable {f : CpuFeature} {done : WhenDone} {steps : List (CpuFeature × WhenDone)} {sz : ℕ}
  {mask : BitVec 32} {text : List Char}

/-- What one feature does: its name is appended if its bit is set, which then is cleared. -/
lemma cpuFeaturesToStrFrom_cons (h : text.length ≤ sz) :
    cpuFeaturesToStrFrom ((f, done) :: steps) mask (bufWith sz text)
      = let text' := text ++ commaText (namesOf [f] mask)
        let mask' := clearBit mask f
        if text'.length ≤ sz then
          if mask' = 0 then
            match done with
            | .gotoExit => strExit (bufWith sz text')
            | .returnZero => ⟨0, storesAt 0 text'⟩
          else cpuFeaturesToStrFrom steps mask' (bufWith sz text')
        else ⟨-1, storesAt 0 text⟩ := by
  rw [cpuFeaturesToStrFrom, strAppend_bufWith h]
  by_cases hbit : mask &&& f.bit ≠ 0
  · have hname : namesOf [f] mask = [f.label] := by
      simp [namesOf, and_bit_ne_zero_iff.mp hbit]
    have htext : commaText [f.label] = f.label ++ [','] := by simp [commaText]
    simp only [clearBit, if_pos hbit, hname, htext]
    by_cases hfits : (text ++ (f.label ++ [','])).length ≤ sz
    · rw [if_pos hfits, if_pos hfits]
      rfl
    · rw [if_neg hfits, if_neg hfits]
      rfl
  · have hname : namesOf [f] mask = [] := by
      simp [namesOf, mt and_bit_ne_zero_iff.mpr hbit]
    have htext : text ++ commaText [] = text := List.append_nil text
    simp only [clearBit, if_neg hbit, hname, htext, if_pos h]
    rfl

/-- The last bit of a mask is the one of the feature `f`. -/
def IsLastBit (mask : BitVec 32) (f : CpuFeature) : Prop :=
  mask.getLsbD f.index = true ∧ ∀ i, mask.getLsbD i = true → i ≤ f.index

/-- The last bit of a mask is a feature behind which the function returns at once. -/
def EndsAtOnce (steps : List (CpuFeature × WhenDone)) (mask : BitVec 32) : Prop :=
  ∃ f, (f, WhenDone.returnZero) ∈ steps ∧ IsLastBit mask f

/-- The features of the later steps are not touched by a step. -/
lemma getLsbD_clearBit_of_lt {i : ℕ} (h : f.index < i) :
    (clearBit mask f).getLsbD i = mask.getLsbD i := by
  rw [getLsbD_clearBit, decide_eq_true h.ne', Bool.and_true]

/-- A mask has a bit unless it is zero. -/
lemma exists_bit (hmask : mask ≠ 0) : ∃ i, mask.getLsbD i = true := by
  by_contra hnone
  exact hmask (eq_zero_iff_forall_getLsbD.mpr (not_exists.mp hnone))

/-- If clearing the bit of a feature leaves nothing, it was the last bit. -/
lemma isLastBit_of_clearBit_eq_zero (hmask : mask ≠ 0) (hclear : clearBit mask f = 0) :
    IsLastBit mask f := by
  have hbits : ∀ i, mask.getLsbD i = true → i = f.index := by
    intro i hi
    by_contra hne
    have hbit : (clearBit mask f).getLsbD i = true := by
      rw [getLsbD_clearBit, hi, decide_eq_true hne]
      rfl
    exact eq_zero_iff_forall_getLsbD.mp hclear i hbit
  obtain ⟨i, hi⟩ := exists_bit hmask
  exact ⟨by rwa [← hbits i hi], fun i hi => (hbits i hi).le⟩

/-- A bit of the mask is that of a step, or lies above those of all steps. -/
def StepBits (steps : List (CpuFeature × WhenDone)) (mask : BitVec 32) : Prop :=
  ∀ i, mask.getLsbD i = true →
    (∃ p ∈ steps, p.1.index = i) ∨ ∀ p ∈ steps, p.1.index < i

/-- A step leaves the bits of the later steps, and those above. -/
lemma StepBits.clearBit (hbits : StepBits ((f, done) :: steps) mask) :
    StepBits steps (clearBit mask f) := by
  intro i hi
  rw [getLsbD_clearBit, Bool.and_eq_true, decide_eq_true_iff] at hi
  rcases hbits i hi.1 with ⟨q, hq, hqi⟩ | habove
  · rcases List.mem_cons.mp hq with rfl | hq
    · exact absurd hqi.symm hi.2
    · exact .inl ⟨q, hq, hqi⟩
  · exact .inr fun q hq => habove q (List.mem_cons_of_mem _ hq)

/-- Behind the last bit it is decided how the function ends. -/
lemma endsAtOnce_cons_of_isLastBit (hlater : ∀ q ∈ steps, f.index < q.1.index)
    (hlast : IsLastBit mask f) : EndsAtOnce ((f, done) :: steps) mask ↔ done = .returnZero := by
  refine ⟨fun ⟨g, hg, hglast⟩ => ?_, fun h => ⟨f, h ▸ List.mem_cons_self, hlast⟩⟩
  rcases List.mem_cons.mp hg with hg | hg
  · exact (congrArg Prod.snd hg).symm
  · exact absurd (hlast.2 _ hglast.1) (hlater _ hg).not_ge

/-- While a bit is left, the later steps decide. -/
lemma endsAtOnce_cons_of_clearBit_ne_zero (hlater : ∀ q ∈ steps, f.index < q.1.index)
    (hbits : StepBits ((f, done) :: steps) mask) (hleft : clearBit mask f ≠ 0) :
    EndsAtOnce ((f, done) :: steps) mask ↔ EndsAtOnce steps (clearBit mask f) := by
  refine ⟨?_, ?_⟩
  · rintro ⟨g, hg, hglast⟩
    rcases List.mem_cons.mp hg with hg | hg
    · -- a bit that is left belongs to a later step or lies above, so `f` is not the last
      obtain ⟨i, hi⟩ := exists_bit hleft
      rw [getLsbD_clearBit, Bool.and_eq_true, decide_eq_true_iff] at hi
      obtain rfl : g = f := congrArg Prod.fst hg
      have hle := hglast.2 i hi.1
      rcases hbits i hi.1 with ⟨q, hq, rfl⟩ | habove
      · rcases List.mem_cons.mp hq with rfl | hq
        · exact absurd rfl hi.2
        · exact absurd hle (hlater q hq).not_ge
      · exact absurd hle (habove _ List.mem_cons_self).not_ge
    · refine ⟨g, hg, ?_, fun i hi => hglast.2 i ?_⟩
      · exact (getLsbD_clearBit_of_lt (hlater _ hg)).trans hglast.1
      · rw [getLsbD_clearBit, Bool.and_eq_true] at hi
        exact hi.1
  · rintro ⟨g, hg, hglast⟩
    have hlt : f.index < g.index := hlater _ hg
    refine ⟨g, List.mem_cons_of_mem _ hg, ?_, fun i hi => ?_⟩
    · exact (getLsbD_clearBit_of_lt hlt).symm.trans hglast.1
    · by_contra hnot
      exact hnot (hglast.2 i ((getLsbD_clearBit_of_lt (by omega)).trans hi))

/-- The text of all steps is that of the first one and that of the later ones. -/
lemma commaText_namesOf_steps (hlater : ∀ q ∈ steps, f.index < q.1.index) :
    commaText (namesOf (((f, done) :: steps).map Prod.fst) mask)
      = commaText (namesOf [f] mask)
        ++ commaText (namesOf (steps.map Prod.fst) (clearBit mask f)) := by
  have hnames : namesOf (steps.map Prod.fst) (clearBit mask f)
      = namesOf (steps.map Prod.fst) mask := by
    refine namesOf_congr fun g hg => ?_
    obtain ⟨q, hq, rfl⟩ := List.mem_map.mp hg
    exact getLsbD_clearBit_of_lt (hlater q hq)
  rw [hnames, List.map_cons, namesOf_cons, commaText, List.flatMap_append]
  rfl

/-- **If all names fit** they are all appended, and the function ends at `exit` unless the last bit
is a feature behind which it returns at once. -/
lemma cpuFeaturesToStrFrom_fits
    (hsteps : steps.Pairwise fun p q => p.1.index < q.1.index) :
    ∀ {mask : BitVec 32} {text : List Char}, StepBits steps mask → mask ≠ 0 →
      (text ++ commaText (namesOf (steps.map Prod.fst) mask)).length ≤ sz →
      (EndsAtOnce steps mask → cpuFeaturesToStrFrom steps mask (bufWith sz text)
        = ⟨0, storesAt 0 (text ++ commaText (namesOf (steps.map Prod.fst) mask))⟩) ∧
      (¬ EndsAtOnce steps mask → cpuFeaturesToStrFrom steps mask (bufWith sz text)
        = strExit (bufWith sz (text ++ commaText (namesOf (steps.map Prod.fst) mask)))) := by
  induction steps with
  | nil =>
      intro mask text _ _ _
      refine ⟨fun ⟨f, hf, _⟩ => absurd hf List.not_mem_nil, fun _ => ?_⟩
      have htext : text ++ commaText (namesOf [] mask) = text := List.append_nil text
      rw [List.map_nil, htext]
      rfl
  | cons p steps ih =>
      obtain ⟨f, done⟩ := p
      intro mask text hbits hmask hfits
      have hlater : ∀ q ∈ steps, f.index < q.1.index := (List.pairwise_cons.mp hsteps).1
      have hsteps := (List.pairwise_cons.mp hsteps).2
      rw [commaText_namesOf_steps hlater, ← List.append_assoc] at hfits ⊢
      have hstep : (text ++ commaText (namesOf [f] mask)).length ≤ sz := by
        rw [List.length_append] at hfits
        omega
      have hnow : text.length ≤ sz := by
        rw [List.length_append] at hstep
        omega
      rw [cpuFeaturesToStrFrom_cons hnow]
      simp only [if_pos hstep]
      by_cases hzero : clearBit mask f = 0
      · -- the feature was the last bit, so nothing is left to append
        rw [if_pos hzero, hzero, namesOf_zero, commaText_nil, List.append_nil,
          endsAtOnce_cons_of_isLastBit hlater (isLastBit_of_clearBit_eq_zero hmask hzero)]
        cases done
        · exact ⟨fun h => absurd h (by decide), fun _ => rfl⟩
        · exact ⟨fun _ => rfl, fun h => absurd rfl h⟩
      · rw [if_neg hzero, endsAtOnce_cons_of_clearBit_ne_zero hlater hbits hzero]
        exact ih hsteps hbits.clearBit hzero hfits

/-- **If a name does not fit**, what fits before it is stored, and the function fails. -/
lemma cpuFeaturesToStrFrom_overflows
    (hsteps : steps.Pairwise fun p q => p.1.index < q.1.index) :
    ∀ {mask : BitVec 32} {text : List Char}, text.length ≤ sz →
      sz < (text ++ commaText (namesOf (steps.map Prod.fst) mask)).length →
      ∃ text', text'.length ≤ sz ∧
        cpuFeaturesToStrFrom steps mask (bufWith sz text) = ⟨-1, storesAt 0 text'⟩ := by
  induction steps with
  | nil =>
      intro mask text hnow hover
      have htext : text ++ commaText (namesOf [] mask) = text := List.append_nil text
      rw [List.map_nil, htext] at hover
      exact absurd hnow hover.not_ge
  | cons p steps ih =>
      obtain ⟨f, done⟩ := p
      intro mask text hnow hover
      have hlater : ∀ q ∈ steps, f.index < q.1.index := (List.pairwise_cons.mp hsteps).1
      have hsteps := (List.pairwise_cons.mp hsteps).2
      rw [commaText_namesOf_steps hlater, ← List.append_assoc] at hover
      rw [cpuFeaturesToStrFrom_cons hnow]
      by_cases hstep : (text ++ commaText (namesOf [f] mask)).length ≤ sz
      · simp only [if_pos hstep]
        by_cases hzero : clearBit mask f = 0
        · rw [hzero, namesOf_zero, commaText_nil, List.append_nil] at hover
          exact absurd hstep hover.not_ge
        · rw [if_neg hzero]
          exact ih hsteps hstep hover
      · exact ⟨text, hnow, by simp only [if_neg hstep]⟩

end Run

/-! ### The list -/

/-- A string in a buffer. -/
def HoldsString (buff : ℤ → Char) (text : List Char) : Prop :=
  '\x00' ∉ text ∧
    ∀ i (h : i < (text ++ ['\x00']).length), buff i = (text ++ ['\x00']).get ⟨i, h⟩

/-- What a call promises: it stores inside the buffer of `sz` characters, and a list that it
returns is that of the names of the features in the mask. -/
structure ListsFeatures (mask : BitVec 32) (sz : ℕ) (buff : ℤ → Char) : Prop where
  inside : ∀ s ∈ (cpuFeaturesToStr mask sz).stores, 0 ≤ s.1 ∧ s.1 < sz
  list : (cpuFeaturesToStr mask sz).ret = 0 →
    ([','].intercalate (namesOf cpuFeatures mask)).length < sz ∧
      HoldsString (applyStores buff (cpuFeaturesToStr mask sz).stores)
        ([','].intercalate (namesOf cpuFeatures mask))

/-- The characters the names of a mask need, each with a comma or the end behind it. -/
def listSize (mask : BitVec 32) : ℕ := ((namesOf cpuFeatures mask).map (·.length + 1)).sum

lemma length_commaText (names : List (List Char)) :
    (commaText names).length = (names.map (·.length + 1)).sum := by
  simp [commaText, List.length_flatMap]

lemma mem_storesAt {text : List Char} {s : ℤ × Char} :
    s ∈ storesAt 0 text ↔ ∃ i, ∃ h : i < text.length, s = ((i : ℤ), text.get ⟨i, h⟩) := by
  rw [storesAt, List.mem_map]
  refine ⟨?_, ?_⟩
  · rintro ⟨⟨c, i⟩, hmem, rfl⟩
    rw [List.mk_mem_zipIdx_iff_getElem?, List.getElem?_eq_some_iff] at hmem
    obtain ⟨hlt, rfl⟩ := hmem
    exact ⟨i, hlt, rfl⟩
  · rintro ⟨i, hlt, rfl⟩
    exact ⟨(text.get ⟨i, hlt⟩, i), by
      rw [List.mk_mem_zipIdx_iff_getElem?]
      exact List.getElem?_eq_getElem hlt, rfl⟩

/-- A text that fits is stored inside the buffer. -/
lemma storesAt_inside {text : List Char} {sz : ℕ} (h : text.length ≤ sz) {s : ℤ × Char}
    (hs : s ∈ storesAt 0 text) : 0 ≤ s.1 ∧ s.1 < sz := by
  obtain ⟨i, hi, rfl⟩ := mem_storesAt.mp hs
  exact ⟨Int.natCast_nonneg i, Int.ofNat_lt.mpr (hi.trans_le h)⟩

lemma applyStores_storesAt {buff : ℤ → Char} {text : List Char} {i : ℕ} (h : i < text.length) :
    applyStores buff (storesAt 0 text) i = text.get ⟨i, h⟩ := by
  refine applyStores_of_consistent ⟨_, mem_storesAt.mpr ⟨i, h, rfl⟩, rfl⟩ fun s hs hsi => ?_
  obtain ⟨j, hj, rfl⟩ := mem_storesAt.mp hs
  obtain rfl : j = i := Int.ofNat_inj.mp hsi
  rfl

lemma not_mem_commaText_namesOf (fs : List CpuFeature) (mask : BitVec 32) :
    '\x00' ∉ commaText (namesOf fs mask) := by
  have hlabel : ∀ f : CpuFeature, '\x00' ∉ f.label ++ [','] := by
    intro f
    cases f <;> decide
  rw [commaText, namesOf, List.flatMap_map, List.mem_flatMap]
  rintro ⟨f, -, hmem⟩
  exact hlabel f hmem

section List

variable {mask : BitVec 32} {sz : ℕ} {buff : ℤ → Char}

lemma listSize_eq : listSize mask = (commaText (namesOf cpuFeatures mask)).length :=
  (length_commaText _).symm

/-- There are names exactly if a bit of a feature is set. -/
lemma namesOf_ne_nil_iff :
    namesOf cpuFeatures mask ≠ [] ↔ ∃ f : CpuFeature, mask.getLsbD f.index = true := by
  rw [namesOf, Ne, List.map_eq_nil_iff, List.filter_eq_nil_iff]
  push Not
  exact ⟨fun ⟨f, _, hf⟩ => ⟨f, hf⟩, fun ⟨f, hf⟩ => ⟨f, mem_cpuFeatures f, hf⟩⟩

/-- The features stand in the order of their bits. -/
lemma cpuFeatureSteps_pairwise :
    cpuFeatureSteps.Pairwise fun p q => p.1.index < q.1.index := by
  decide

/-- The names of a mask that is not zero are too many, or the function ends in one of two ways. -/
lemma cpuFeaturesToStr_of_overflow (hmask : mask ≠ 0) (hsz : sz < listSize mask) :
    ∃ text, text.length ≤ sz ∧ cpuFeaturesToStr mask sz = ⟨-1, storesAt 0 text⟩ := by
  rw [cpuFeaturesToStr, if_neg hmask]
  rw [listSize_eq] at hsz
  exact cpuFeaturesToStrFrom_overflows cpuFeatureSteps_pairwise (Nat.zero_le sz)
    (show sz < ([] ++ commaText (namesOf cpuFeatures mask)).length from hsz)

lemma cpuFeaturesToStr_of_fits (hmask : mask ≠ 0) (hsz : listSize mask ≤ sz) :
    (IsLastBit mask .avx ∨ IsLastBit mask .avx2 → cpuFeaturesToStr mask sz
      = ⟨0, storesAt 0 (commaText (namesOf cpuFeatures mask))⟩) ∧
    (¬ (IsLastBit mask .avx ∨ IsLastBit mask .avx2) → cpuFeaturesToStr mask sz
      = strExit (bufWith sz (commaText (namesOf cpuFeatures mask)))) := by
  have honce : EndsAtOnce cpuFeatureSteps mask ↔ IsLastBit mask .avx ∨ IsLastBit mask .avx2 := by
    refine ⟨?_, ?_⟩
    · rintro ⟨f, hf, hlast⟩
      cases f <;> first | exact .inl hlast | exact .inr hlast | exact absurd hf (by decide)
    · rintro (hlast | hlast)
      · exact ⟨.avx, by decide, hlast⟩
      · exact ⟨.avx2, by decide, hlast⟩
  have hbits : StepBits cpuFeatureSteps mask := by
    intro i _
    by_cases hi : i < 10
    · have hstep : ∀ j < 10, ∃ p ∈ cpuFeatureSteps, p.1.index = j := by decide
      exact .inl (hstep i hi)
    · have hlt : ∀ p ∈ cpuFeatureSteps, p.1.index < 10 := by decide
      exact .inr fun p hp => (hlt p hp).trans_le (not_lt.mp hi)
  rw [listSize_eq] at hsz
  rw [cpuFeaturesToStr, if_neg hmask, ← honce]
  exact cpuFeaturesToStrFrom_fits cpuFeatureSteps_pairwise hbits hmask
    (show ([] ++ commaText (namesOf cpuFeatures mask)).length ≤ sz from hsz)

/-- The stores at `exit` turn the last comma into the end of the string. -/
lemma holdsString_of_exit {names : List (List Char)} (hnames : names ≠ [])
    (hnul : '\x00' ∉ commaText names) :
    HoldsString (applyStores buff (strExit (bufWith sz (commaText names))).stores)
      ([','].intercalate names) := by
  have htext := commaText_eq hnames
  rw [htext] at hnul ⊢
  set text := [','].intercalate names with htextdef
  have hpos : (((text ++ [',']).length : ℕ) : ℤ) - 1 = (text.length : ℕ) := by
    rw [List.length_append]
    simp
  refine ⟨fun h => hnul (List.mem_append_left _ h), fun i hi => ?_⟩
  rw [List.length_append, List.length_singleton] at hi
  rw [strExit, applyStores_concat, bufWith, hpos]
  rcases (Nat.lt_succ_iff.mp hi).lt_or_eq with hlt | rfl
  · rw [Function.update_of_ne (fun h => hlt.ne (Int.ofNat_inj.mp h)),
      applyStores_storesAt (by rw [List.length_append]; omega)]
    simp only [List.get_eq_getElem, List.getElem_append_left hlt]
  · rw [Function.update_self]
    simp

lemma listsFeatures_zero : ListsFeatures 0 sz buff ↔ 0 < sz := by
  have hres : cpuFeaturesToStr 0 sz = ⟨0, [(0, '\x00')]⟩ := if_pos rfl
  refine ⟨fun h => ?_, fun hsz => ⟨fun s hs => ?_, fun _ => ?_⟩⟩
  · have hinside := (h.inside (0, '\x00') (by rw [hres]; exact List.mem_singleton_self _)).2
    exact Int.natCast_pos.mp hinside
  · rw [hres, List.mem_singleton] at hs
    exact hs ▸ ⟨le_rfl, Int.natCast_pos.mpr hsz⟩
  · rw [hres, namesOf_zero]
    refine ⟨hsz, List.not_mem_nil, fun i hi => ?_⟩
    obtain rfl : i = 0 := by simpa using hi
    rfl

/-- A call that fails has stored inside the buffer. -/
lemma listsFeatures_of_overflow (hmask : mask ≠ 0) (hsz : sz < listSize mask) :
    ListsFeatures mask sz buff := by
  obtain ⟨text, htext, hres⟩ := cpuFeaturesToStr_of_overflow hmask hsz
  refine ⟨fun s hs => ?_, fun hret => ?_⟩
  · rw [hres] at hs
    exact storesAt_inside htext hs
  · rw [hres] at hret
    exact absurd hret (by norm_num)

/-- A call that returns at once leaves the last comma. -/
lemma not_listsFeatures_of_once (hmask : mask ≠ 0) (hsz : listSize mask ≤ sz)
    (hnames : namesOf cpuFeatures mask ≠ [])
    (honce : IsLastBit mask .avx ∨ IsLastBit mask .avx2) : ¬ ListsFeatures mask sz buff := by
  have hres := (cpuFeaturesToStr_of_fits hmask hsz).1 honce
  have htext := commaText_eq hnames
  intro h
  have hend := (h.list (by rw [hres])).2.2 ([','].intercalate (namesOf cpuFeatures mask)).length
    (by rw [List.length_append, List.length_singleton]; omega)
  rw [hres, htext, applyStores_storesAt (by rw [List.length_append, List.length_singleton]; omega)]
    at hend
  simp at hend

/-- At `exit` the last comma becomes the end of the string, which is stored in front of the buffer
where there is no comma. -/
lemma listsFeatures_of_exit_iff (hmask : mask ≠ 0) (hsz : listSize mask ≤ sz)
    (honce : ¬ (IsLastBit mask .avx ∨ IsLastBit mask .avx2)) :
    ListsFeatures mask sz buff ↔ namesOf cpuFeatures mask ≠ [] := by
  have hres := (cpuFeaturesToStr_of_fits hmask hsz).2 honce
  refine ⟨fun h hnames => ?_, fun hnames => ?_⟩
  · have hinside := h.inside (-1, '\x00') (by
      rw [hres, hnames]
      exact List.mem_singleton_self _)
    exact absurd hinside.1 (by decide)
  · have htext := commaText_eq hnames
    have hlen : listSize mask = ([','].intercalate (namesOf cpuFeatures mask)).length + 1 := by
      rw [listSize_eq, htext, List.length_append, List.length_singleton]
    refine ⟨fun s hs => ?_, fun _ => ⟨by omega, ?_⟩⟩
    · rw [hres, strExit, List.mem_append, List.mem_singleton, bufWith, ← listSize_eq] at hs
      rcases hs with hs | rfl
      · exact storesAt_inside (listSize_eq ▸ hsz) hs
      · dsimp only
        omega
    · rw [hres]
      exact holdsString_of_exit hnames (not_mem_commaText_namesOf _ _)

/-- **When the list of features is well formed**: always for an empty mask, if the buffer is not
empty, and else exactly if a bit of a feature is set and, unless the names do not fit, the last bit
is neither `avx` nor `avx2`. -/
theorem cpu_features_to_str_iff (mask : BitVec 32) (sz : ℕ) (buff : ℤ → Char) :
    ListsFeatures mask sz buff ↔
      (mask = 0 → 0 < sz) ∧
      (mask ≠ 0 → (∃ f : CpuFeature, mask.getLsbD f.index = true) ∧
        (sz < listSize mask ∨ ¬ IsLastBit mask .avx ∧ ¬ IsLastBit mask .avx2)) := by
  rw [← namesOf_ne_nil_iff, ← not_or]
  by_cases hmask : mask = 0
  · subst hmask
    rw [listsFeatures_zero]
    exact ⟨fun h => ⟨fun _ => h, fun h => absurd rfl h⟩, fun h => h.1 rfl⟩
  rw [and_iff_right fun h => absurd h hmask, imp_iff_right hmask]
  rcases lt_or_ge sz (listSize mask) with hsz | hsz
  · -- names that do not fit are not missing
    have hnames : namesOf cpuFeatures mask ≠ [] := fun h => by
      rw [listSize, h] at hsz
      exact absurd hsz (Nat.not_lt_zero _)
    exact iff_of_true (listsFeatures_of_overflow hmask hsz) ⟨hnames, .inl hsz⟩
  · rw [or_iff_right hsz.not_gt]
    by_cases honce : IsLastBit mask .avx ∨ IsLastBit mask .avx2
    · have hnames : namesOf cpuFeatures mask ≠ [] := by
        rw [namesOf_ne_nil_iff]
        exact honce.elim (fun h => ⟨_, h.1⟩) (fun h => ⟨_, h.1⟩)
      exact iff_of_false (not_listsFeatures_of_once hmask hsz hnames honce) fun h => h.2 honce
    · rw [listsFeatures_of_exit_iff hmask hsz honce, and_iff_left honce]

/-- **The end of the list can be missing**: behind `avx2` the function returns without it. -/
theorem cpu_features_to_str_unterminated :
    ¬ ∀ (mask : BitVec 32) (sz : ℕ) (buff : ℤ → Char), ListsFeatures mask sz buff := by
  intro h
  have hlast : IsLastBit 256 .avx2 := by
    refine ⟨by decide, fun i hi => ?_⟩
    by_contra hlt
    have hbit : CpuFeature.avx2.bit.getLsbD i = true := hi
    rw [getLsbD_bit, decide_eq_true_iff] at hbit
    exact hlt hbit.le
  exact not_listsFeatures_of_once (by decide) (by decide) (by decide) (.inr hlast)
    (h 256 256 fun _ => '\x00')

end List

end Mdb
