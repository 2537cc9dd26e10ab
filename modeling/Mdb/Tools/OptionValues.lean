import Mdb.Tools.RschedLanguage

/-!
The values of options (`tools/args_parser.c`): integers, block sizes and times.

* `parse_int_iff`: on which strings `parse_int` and `parse_block_size` accept exactly the numbers
  in range, and store them;
* `parse_time_value_iff`: on which strings `parse_time_value` is exact or rejects.
-/

namespace Mdb

/-! ### Integers and block sizes -/

/-- How a call of `parse_opt` ends that does not return: as in one of the calls it makes, or with
the error of `parse_block_size`. -/
inductive OptionStop where
  | value (stop : ArgStop)
  | unknownFormat (val : List Char)
  deriving DecidableEq

/-- A value that is parsed, or how its parser stops. -/
def readValue {α : Type} (x : Except ArgStop α) : Except OptionStop α := x.mapError .value

/-- `parse_int_c`: the number and what follows it. -/
def parseIntC (key val : List Char) (minAllowed maxAllowed : ℤ) :
    Except ArgStop (ℤ × List Char) :=
  let r := strtol val
  let i := i32 r.value
  if r.erange then .error (.exit (.intErange key val))
  else if i < minAllowed ∨ maxAllowed < i then
    .error (.exit (.outOfRange key val minAllowed maxAllowed))
  else .ok (i, r.endptr)

/-- `block-size`. -/
def blockSizeLab : List Char := ['b', 'l', 'o', 'c', 'k', '-', 's', 'i', 'z', 'e']

/-- `parse_block_size`: what it stores in `x` and `y`. -/
def parseBlockSize (val : List Char) : Except OptionStop (ℕ × ℕ) := do
  let (x, pend) ← readValue (parseIntC blockSizeLab val 8 65535)
  match pend with
  | [] => pure (x.toNat, x.toNat)
  | 'x' :: rest => do
      let y ← readValue (parseInt blockSizeLab rest 8 65535)
      pure (x.toNat, y.toNat)
  | _ => .error (.unknownFormat val)

/-- The bounds of an option, both an `int`. -/
structure IntRange where
  min : ℤ
  max : ℤ
  min_ge : -2 ^ 31 ≤ min
  max_lt : max < 2 ^ 31

/-- The bounds of the two sides of a block. -/
def blockRange : IntRange := ⟨8, 65535, by norm_num, by norm_num⟩

/-- The number is an `int`. -/
def FitsInt (num : Numeral) : Prop := -2 ^ 31 ≤ num.value ∧ num.value < 2 ^ 31

namespace IntRange

variable {num : Numeral} {range : IntRange}

/-- The number of a numeral is in range. -/
def Holds (range : IntRange) (num : Numeral) : Prop :=
  range.min ≤ num.value ∧ num.value ≤ range.max

/-- The number of a numeral is a `long`, and in range once it has been narrowed to `int`. -/
def HoldsNarrowed (range : IntRange) (num : Numeral) : Prop :=
  (-2 ^ 63 ≤ num.value ∧ num.value < 2 ^ 63) ∧
    range.min ≤ i32 num.value ∧ i32 num.value ≤ range.max

lemma Holds.fitsInt (h : range.Holds num) : FitsInt num :=
  ⟨range.min_ge.trans h.1, h.2.trans_lt range.max_lt⟩

lemma i32_value (h : FitsInt num) : i32 num.value = num.value := i32_of_lt h.1 h.2

/-- Narrowing changes nothing about an `int`. -/
lemma holdsNarrowed_iff (h : FitsInt num) : range.HoldsNarrowed num ↔ range.Holds num := by
  obtain ⟨hlo, hhi⟩ := h
  rw [HoldsNarrowed, Holds, i32_of_lt hlo hhi]
  exact and_iff_right ⟨by omega, by omega⟩

/-- Where only an `int` narrows into the range, a number is taken as it is. -/
lemma narrowed_congr {P : ℤ → Prop} (h : range.HoldsNarrowed num → FitsInt num) :
    range.HoldsNarrowed num ∧ P (i32 num.value) ↔ range.Holds num ∧ P num.value := by
  by_cases hfit : FitsInt num
  · rw [holdsNarrowed_iff hfit, i32_value hfit]
  · exact iff_of_false (fun hn => hfit (h hn.1)) fun hh => hfit hh.1.fitsInt

/-- The same for two numbers. -/
lemma narrowed_congr₂ {num' : Numeral} {P : ℤ → ℤ → Prop}
    (h : range.HoldsNarrowed num → range.HoldsNarrowed num' → FitsInt num ∧ FitsInt num') :
    (range.HoldsNarrowed num ∧ range.HoldsNarrowed num') ∧ P (i32 num.value) (i32 num'.value) ↔
      (range.Holds num ∧ range.Holds num') ∧ P num.value num'.value := by
  by_cases hfit : FitsInt num ∧ FitsInt num'
  · rw [holdsNarrowed_iff hfit.1, holdsNarrowed_iff hfit.2, i32_value hfit.1, i32_value hfit.2]
  · exact iff_of_false (fun hn => hfit (h hn.1.1 hn.1.2))
      fun hh => hfit ⟨hh.1.1.fitsInt, hh.1.2.fitsInt⟩

end IntRange

/-- `parse_int` accepts the string exactly if it is a numeral in range, and returns its number. -/
def ParsesInt (val : List Char) (range : IntRange) : Prop :=
  ∀ key i, parseInt key val range.min range.max = .ok i ↔
    ∃ num : Numeral, val = num.chars ∧ range.Holds num ∧ i = num.value

/-- `parse_block_size` accepts the string exactly if it is `N` or `NxM` with numbers in range, and
stores these. -/
def ParsesBlockSize (val : List Char) : Prop :=
  ∀ x y, parseBlockSize val = .ok (x, y) ↔
    (∃ num : Numeral, val = num.chars ∧ blockRange.Holds num ∧ x = num.value ∧ y = num.value) ∨
      ∃ num num' : Numeral, val = num.chars ++ 'x' :: num'.chars ∧
        (blockRange.Holds num ∧ blockRange.Holds num') ∧ x = num.value ∧ y = num'.value

/-- What `parse_int` returns, by the narrowed numbers. -/
lemma parseInt_narrowed_iff {key val : List Char} (range : IntRange) {i : ℤ} :
    parseInt key val range.min range.max = .ok i ↔
      (val = [] ∧ i = 0 ∧ range.min ≤ 0 ∧ 0 ≤ range.max) ∨
        ∃ num : Numeral, val = num.chars ∧ range.HoldsNarrowed num ∧ i = i32 num.value := by
  rw [parseInt_eq_ok_iff]
  refine ⟨?_, ?_⟩
  · rintro ⟨hrange, ⟨hval, rfl⟩ | ⟨num, hval, hge, hlt, rfl⟩⟩
    · exact Or.inl ⟨hval, rfl, hrange⟩
    · exact Or.inr ⟨num, hval, ⟨⟨hge, hlt⟩, hrange⟩, rfl⟩
  · rintro (⟨hval, rfl, hrange⟩ | ⟨num, hval, ⟨⟨hge, hlt⟩, hrange⟩, rfl⟩)
    · exact ⟨hrange, Or.inl ⟨hval, rfl⟩⟩
    · exact ⟨hrange, Or.inr ⟨num, hval, hge, hlt, rfl⟩⟩

/-- The side of a block that is read is that of a numeral: 0 is not in range. -/
lemma exists_of_parseIntC {key val rest : List Char} {i : ℤ}
    (h : parseIntC key val 8 65535 = .ok (i, rest)) :
    ∃ num : Numeral, val = num.chars ++ rest ∧ blockRange.HoldsNarrowed num ∧
      i = i32 num.value := by
  rw [parseIntC] at h
  split_ifs at h with herange hrange
  obtain ⟨rfl, rfl⟩ := Prod.mk.inj (Except.ok.inj h)
  rw [not_or, not_lt, not_lt] at hrange
  rcases strtol_cases (Bool.eq_false_iff.mpr herange) with ⟨hval, -⟩ | ⟨num, hs, hval, hlo, hhi⟩
  · rw [hval] at hrange
    exact absurd hrange.1 (by decide)
  · rw [hval] at hrange ⊢
    exact ⟨num, hs, ⟨⟨hlo, hhi⟩, hrange⟩, rfl⟩

lemma parseIntC_chars_append {num : Numeral} {rest : List Char} (h : blockRange.HoldsNarrowed num)
    (hrest : StopsAt Char.isDigit rest) (key : List Char) :
    parseIntC key (num.chars ++ rest) 8 65535 = .ok (i32 num.value, rest) := by
  obtain ⟨⟨hlo, hhi⟩, hmin, hmax⟩ := h
  have hrange : ¬ (i32 num.value < 8 ∨ 65535 < i32 num.value) := by
    rw [not_or, not_lt, not_lt]
    exact ⟨hmin, hmax⟩
  rw [parseIntC, strtol_chars_append num hrest hlo hhi]
  dsimp only
  rw [if_neg Bool.false_ne_true, if_neg hrange]

@[simp] lemma readValue_eq_ok_iff {α : Type} {x : Except ArgStop α} {a : α} :
    readValue x = .ok a ↔ x = .ok a :=
  mapError_eq_ok_iff

/-- The side of a block is positive. -/
lemma toNat_side {num : Numeral} (h : blockRange.HoldsNarrowed num) :
    ((i32 num.value).toNat : ℤ) = i32 num.value := by
  have hmin : 8 ≤ i32 num.value := h.2.1
  exact Int.toNat_of_nonneg (by omega)

lemma stopsAt_x (rest : List Char) : StopsAt Char.isDigit ('x' :: rest) := by
  rintro c ⟨⟩
  rfl

/-- **What `parse_block_size` stores**: one number narrowed to `int`, twice, or two of them. -/
lemma parseBlockSize_eq_ok_iff {val : List Char} {x y : ℕ} :
    parseBlockSize val = .ok (x, y) ↔
      (∃ num : Numeral, val = num.chars ∧ blockRange.HoldsNarrowed num ∧
        x = i32 num.value ∧ y = i32 num.value) ∨
      ∃ num num' : Numeral, val = num.chars ++ 'x' :: num'.chars ∧
        (blockRange.HoldsNarrowed num ∧ blockRange.HoldsNarrowed num') ∧
          x = i32 num.value ∧ y = i32 num'.value := by
  have hsecond : ∀ {rest : List Char} {j : ℤ},
      parseInt blockSizeLab rest 8 65535 = .ok j ↔
        ∃ num : Numeral, rest = num.chars ∧ blockRange.HoldsNarrowed num ∧ j = i32 num.value := by
    intro rest j
    refine (parseInt_narrowed_iff blockRange).trans (or_iff_right ?_)
    rintro ⟨-, -, hmin, -⟩
    exact absurd hmin (by decide)
  refine ⟨fun h => ?_, ?_⟩
  · obtain ⟨⟨i, pend⟩, hread, h⟩ := bind_eq_ok_iff.mp h
    obtain ⟨num, rfl, hnum, rfl⟩ := exists_of_parseIntC (readValue_eq_ok_iff.mp hread)
    dsimp only at h
    split at h
    next =>
      obtain ⟨rfl, rfl⟩ := Prod.mk.inj (Except.ok.inj h)
      exact Or.inl ⟨num, List.append_nil _, hnum, toNat_side hnum, toNat_side hnum⟩
    next rest =>
      obtain ⟨j, hj, h⟩ := bind_eq_ok_iff.mp h
      obtain ⟨num', rfl, hnum', rfl⟩ := hsecond.mp (readValue_eq_ok_iff.mp hj)
      obtain ⟨rfl, rfl⟩ := Prod.mk.inj (Except.ok.inj h)
      exact Or.inr ⟨num, num', rfl, ⟨hnum, hnum'⟩, toNat_side hnum, toNat_side hnum'⟩
    next => cases h
  · rintro (⟨num, rfl, hnum, hx, hy⟩ | ⟨num, num', rfl, ⟨hnum, hnum'⟩, hx, hy⟩)
    · have hread := parseIntC_chars_append hnum (stopsAt_nil _) blockSizeLab
      rw [List.append_nil] at hread
      refine bind_eq_ok_iff.mpr ⟨_, readValue_eq_ok_iff.mpr hread, ?_⟩
      rw [← toNat_side hnum, Nat.cast_inj] at hx hy
      exact congrArg Except.ok (Prod.ext hx.symm hy.symm)
    · have hread := parseIntC_chars_append hnum (stopsAt_x num'.chars) blockSizeLab
      refine bind_eq_ok_iff.mpr ⟨_, readValue_eq_ok_iff.mpr hread, ?_⟩
      have hj := hsecond.mpr ⟨num', rfl, hnum', rfl⟩
      refine bind_eq_ok_iff.mpr ⟨_, readValue_eq_ok_iff.mpr hj, ?_⟩
      rw [← toNat_side hnum, Nat.cast_inj] at hx
      rw [← toNat_side hnum', Nat.cast_inj] at hy
      exact congrArg Except.ok (Prod.ext hx.symm hy.symm)

/-- Narrowing lets no number in: a numeral that narrows into the range is an `int`, and an empty
string is not taken for a 0 in range. -/
def NarrowsRight (val : List Char) (range : IntRange) : Prop :=
  ¬ (val = [] ∧ range.min ≤ 0 ∧ 0 ≤ range.max) ∧
    ∀ num : Numeral, val = num.chars → range.HoldsNarrowed num → FitsInt num

/-- Narrowing lets no number into a block size. -/
def BlockNarrowsRight (val : List Char) : Prop :=
  (∀ num : Numeral, val = num.chars → blockRange.HoldsNarrowed num → FitsInt num) ∧
    ∀ num num' : Numeral, val = num.chars ++ 'x' :: num'.chars → blockRange.HoldsNarrowed num →
      blockRange.HoldsNarrowed num' → FitsInt num ∧ FitsInt num'

/-- A string is one numeral at most. -/
lemma numeral_chars_inj {num num' : Numeral} (h : num.chars = num'.chars) : num = num' := by
  refine (numeral_append_inj (stopsAt_nil _) (stopsAt_nil _) ?_).1
  rw [List.append_nil, List.append_nil, h]

lemma numeral_chars_ne_nil (num : Numeral) : num.chars ≠ [] := by
  simp [Numeral.chars, num.digits_ne_nil]

/-- What follows a numeral up to an `x`. -/
lemma numeral_x_inj {num num' : Numeral} {rest rest' : List Char}
    (h : num.chars ++ 'x' :: rest = num'.chars ++ 'x' :: rest') : num = num' ∧ rest = rest' := by
  obtain ⟨hnum, hrest⟩ := numeral_append_inj (stopsAt_x rest) (stopsAt_x rest') h
  exact ⟨hnum, (List.cons.inj hrest).2⟩

lemma chars_ne_append_x {num num' : Numeral} {rest : List Char} :
    num.chars ≠ num'.chars ++ 'x' :: rest := by
  intro h
  rw [← List.append_nil num.chars] at h
  cases (numeral_append_inj (stopsAt_nil _) (stopsAt_x rest) h).2

lemma parsesInt_iff (val : List Char) (range : IntRange) :
    ParsesInt val range ↔ NarrowsRight val range := by
  refine ⟨fun h => ⟨fun ⟨hval, hzero⟩ => ?_, fun num hval hnum => ?_⟩, ?_⟩
  · obtain ⟨num, hnum, -⟩ :=
      (h [] 0).mp ((parseInt_narrowed_iff _).mpr (Or.inl ⟨hval, rfl, hzero⟩))
    exact numeral_chars_ne_nil num (hnum.symm.trans hval)
  · obtain ⟨num', hval', hholds, -⟩ :=
      (h [] _).mp ((parseInt_narrowed_iff _).mpr (Or.inr ⟨num, hval, hnum, rfl⟩))
    rw [numeral_chars_inj (hval.symm.trans hval')]
    exact hholds.fitsInt
  · rintro ⟨hempty, hfits⟩ key i
    rw [parseInt_narrowed_iff, or_iff_right fun h => hempty ⟨h.1, h.2.2⟩]
    exact exists_congr fun num => and_congr_right fun hval =>
      IntRange.narrowed_congr (P := (i = ·)) (hfits num hval)

/-- A block size that is read as its numbers consists of `int`s. -/
lemma blockNarrowsRight_of_parses {val : List Char} (h : ParsesBlockSize val) :
    BlockNarrowsRight val := by
  refine ⟨fun num hval hnum => ?_, fun num num' hval hnum hnum' => ?_⟩
  · rcases (h _ _).mp (parseBlockSize_eq_ok_iff.mpr
      (Or.inl ⟨num, hval, hnum, toNat_side hnum, toNat_side hnum⟩)) with
      ⟨num₁, hval₁, hholds, -⟩ | ⟨num₁, num₂, hval₁, -⟩
    · rw [numeral_chars_inj (hval.symm.trans hval₁)]
      exact hholds.fitsInt
    · exact absurd (hval.symm.trans hval₁) chars_ne_append_x
  · rcases (h _ _).mp (parseBlockSize_eq_ok_iff.mpr
      (Or.inr ⟨num, num', hval, ⟨hnum, hnum'⟩, toNat_side hnum, toNat_side hnum'⟩)) with
      ⟨num₁, hval₁, -⟩ | ⟨num₁, num₂, hval₁, ⟨hholds₁, hholds₂⟩, -⟩
    · exact absurd (hval₁.symm.trans hval) chars_ne_append_x
    · obtain ⟨rfl, hrest⟩ := numeral_x_inj (hval.symm.trans hval₁)
      rw [numeral_chars_inj hrest]
      exact ⟨hholds₁.fitsInt, hholds₂.fitsInt⟩

lemma parsesBlockSize_iff (val : List Char) : ParsesBlockSize val ↔ BlockNarrowsRight val := by
  refine ⟨blockNarrowsRight_of_parses, fun ⟨hone, htwo⟩ x y => ?_⟩
  rw [parseBlockSize_eq_ok_iff]
  refine or_congr ?_ ?_
  · exact exists_congr fun num => and_congr_right fun hval =>
      IntRange.narrowed_congr (P := fun v => x = v ∧ y = v) (hone num hval)
  · exact exists_congr fun num => exists_congr fun num' => and_congr_right fun hval =>
      IntRange.narrowed_congr₂ (P := fun v v' => x = v ∧ y = v') (htwo num num' hval)

/-- **Integer options are accepted exactly when in range**, if and only if the narrowing to `int`
and the empty string do not interfere; and so are block sizes. -/
theorem parse_int_iff (val : List Char) (range : IntRange) :
    (ParsesInt val range ↔ NarrowsRight val range) ∧
      (ParsesBlockSize val ↔ BlockNarrowsRight val) :=
  ⟨parsesInt_iff val range, parsesBlockSize_iff val⟩

/-- `--benchmark-runs=4294967396` is taken for 100 runs. -/
theorem parse_int_narrows : ¬ ∀ val range, ParsesInt val range := by
  intro h
  obtain ⟨num, hval, -, hruns⟩ := (h ['4', '2', '9', '4', '9', '6', '7', '3', '9', '6']
    ⟨1, 2147483647, by norm_num, by norm_num⟩ [] 100).mp rfl
  have hdec : IsDecimal ['4', '2', '9', '4', '9', '6', '7', '3', '9', '6'] := by decide
  obtain rfl : num = hdec.numeral := numeral_chars_inj hval.symm
  exact absurd hruns (by rw [hdec.numeral_value]; decide)

/-! ### Times -/

/-- A value that `parse_time_value` returns is exact: the string is a plain decimal and a unit, and
the value their product. -/
def TimeExact (arg : List Char) : Prop :=
  ∀ time, parseTimeValue arg = .ok time →
    ∃ (digits : List Char) (unit : TimeUnit), IsDecimal digits ∧ arg = digits ++ unit.label ∧
      time = decimal digits * unit.nanoseconds

/-- A number with a minus sign, or whose product with its unit needs more than 64 bits, is
rejected. -/
def TimeRejected (arg : List Char) : Prop :=
  ∀ (num : Numeral) (unit : TimeUnit), arg = num.chars ++ unit.label →
    num.sign = .minus ∨ 2 ^ 64 ≤ num.magnitude * unit.nanoseconds →
      ∀ time, parseTimeValue arg ≠ .ok time

/-- A string that `strtoul` reads up to a unit has plain digits in front of it, and few enough. -/
def PlainTime (arg : List Char) : Prop :=
  ∀ unit : TimeUnit, arg ≠ unit.label ∧
    ∀ num : Numeral, arg = num.chars ++ unit.label → num.magnitude < 2 ^ 64 →
      num.blanks = [] ∧ num.sign = .absent ∧ num.magnitude * unit.nanoseconds < 2 ^ 64

lemma time_inj {num num' : Numeral} {unit unit' : TimeUnit}
    (h : num.chars ++ unit.label = num'.chars ++ unit'.label) : num = num' ∧ unit = unit' := by
  obtain ⟨hnum, hlabel⟩ := numeral_append_inj (stopsAt_label unit) (stopsAt_label unit') h
  refine ⟨hnum, ?_⟩
  revert hlabel
  cases unit <;> cases unit' <;> decide

/-- A unit does not begin with a number. -/
lemma label_ne_time (num : Numeral) (unit unit' : TimeUnit) :
    unit.label ≠ num.chars ++ unit'.label := by
  intro h
  have hscan := scanNumeral_chars_append num (stopsAt_label unit')
  rw [← h] at hscan
  cases unit <;> cases hscan

/-- A numeral with no white space and no sign is its digits. -/
lemma plain_numeral {num : Numeral} (hblanks : num.blanks = []) (hsign : num.sign = .absent) :
    num.chars = num.digits ∧ num.value = num.magnitude := by
  rw [Numeral.chars, Numeral.value, hblanks, hsign]
  exact ⟨rfl, rfl⟩

lemma plainTime_of_timeExact {arg : List Char} (h : TimeExact arg) : PlainTime arg := by
  refine fun unit => ⟨?_, ?_⟩
  · rintro rfl
    obtain ⟨digits, unit', hdec, harg, -⟩ :=
      h 0 (parseTimeValue_eq_ok_iff.mpr ⟨unit, Or.inl ⟨rfl, rfl⟩⟩)
    exact label_ne_time hdec.numeral unit unit' harg
  · rintro num rfl hlt
    obtain ⟨digits, unit', hdec, harg, htime⟩ :=
      h _ (parseTimeValue_eq_ok_iff.mpr ⟨unit, Or.inr ⟨num, rfl, hlt, rfl⟩⟩)
    obtain ⟨rfl, rfl⟩ := time_inj (harg.trans
      (show digits ++ unit'.label = hdec.numeral.chars ++ unit'.label from rfl))
    refine ⟨rfl, rfl, ?_⟩
    calc decimal digits * unit.nanoseconds = u64 _ := htime.symm
      _ < 2 ^ 64 := Nat.mod_lt _ (by norm_num)

lemma timeExact_of_plainTime {arg : List Char} (h : PlainTime arg) : TimeExact arg := by
  intro time htime
  obtain ⟨unit, ⟨harg, -⟩ | ⟨num, rfl, hlt, rfl⟩⟩ := parseTimeValue_eq_ok_iff.mp htime
  · exact absurd harg (h unit).1
  · obtain ⟨hblanks, hsign, hprod⟩ := (h unit).2 num rfl hlt
    obtain ⟨hchars, hvalue⟩ := plain_numeral hblanks hsign
    refine ⟨num.digits, unit, ⟨num.digits_ne_nil, num.digits_digit⟩, by rw [hchars], ?_⟩
    have hnat : (num.value % 2 ^ 64).toNat = num.magnitude := by
      rw [hvalue]
      omega
    rw [hnat, u64_of_lt hprod]
    rfl

lemma timeRejected_of_plainTime {arg : List Char} (h : PlainTime arg) : TimeRejected arg := by
  rintro num unit rfl hbad time htime
  obtain ⟨unit', ⟨harg, -⟩ | ⟨num', harg, hlt, -⟩⟩ := parseTimeValue_eq_ok_iff.mp htime
  · exact absurd harg (h unit').1
  · obtain ⟨rfl, rfl⟩ := time_inj harg
    obtain ⟨-, hsign, hprod⟩ := (h unit).2 num rfl hlt
    rcases hbad with hminus | hlarge
    · exact absurd (hsign.symm.trans hminus) (by decide)
    · omega

/-- **Time values are exact or rejected**, exactly for the strings that are no unit alone and whose
number, if it fits in 64 bits, is written in plain digits and fits together with its unit. -/
theorem parse_time_value_iff (arg : List Char) :
    (TimeExact arg ∧ TimeRejected arg) ↔ PlainTime arg :=
  ⟨fun h => plainTime_of_timeExact h.1,
    fun h => ⟨timeExact_of_plainTime h, timeRejected_of_plainTime h⟩⟩

/-- `18446744074s` is taken for 290448384 nanoseconds. -/
theorem parse_time_value_wraps : ¬ ∀ arg, TimeExact arg ∧ TimeRejected arg := by
  intro h
  have hdec : IsDecimal ['1', '8', '4', '4', '6', '7', '4', '4', '0', '7', '4'] := by decide
  have hmagnitude : hdec.numeral.magnitude = 18446744074 := rfl
  have hlarge : 2 ^ 64 ≤ hdec.numeral.magnitude * TimeUnit.s.nanoseconds := by
    rw [hmagnitude, TimeUnit.nanoseconds]
    norm_num
  have hvalue : hdec.numeral.value = 18446744074 := rfl
  have htime : parseTimeValue (hdec.numeral.chars ++ TimeUnit.s.label) = .ok 290448384 :=
    parseTimeValue_eq_ok_iff.mpr ⟨.s, Or.inr ⟨hdec.numeral, rfl, by rw [hmagnitude]; norm_num, by
      rw [hvalue]
      rfl⟩⟩
  exact (h _).2 hdec.numeral .s rfl (Or.inr hlarge) _ htime

end Mdb
