import Mathlib.Data.List.TakeWhile
import Mathlib.Tactic

/-!
Strings of the C library: `strchr`, and the numerals `strtol` and `strtoul` convert, with a `long`
of 64 bits.

A C string is the list of the characters in front of its terminating zero, and a pointer into it
the rest of the string. A `Char` stands for one byte. A numeral is white space, a sign that may be
absent, and digits;
`scanNumeral` finds the longest one a string begins with.

* `strchr_append_cons`, `eq_append_of_strchr`: `strchr` cuts at the first place;
* `scanNumeral_chars_append`, `eq_chars_append_of_scanNumeral`: what is found, exactly;
* `strtol_chars_append`, `strtoul_chars_append`: the value of a numeral that is in range;
* `strtol_cases`, `strtoul_cases`: a conversion without `ERANGE` has read nothing, or a numeral
  in range.
-/

/-! ### The first place of a character -/

/-- `strchr`: the string from the first `c` on. -/
def strchr : List Char → Char → Option (List Char)
  | [], _ => none
  | d :: s, c => if d = c then some (d :: s) else strchr s c

lemma strchr_append_cons {s : List Char} {c : Char} (h : c ∉ s) (t : List Char) :
    strchr (s ++ c :: t) c = some (c :: t) := by
  induction s with
  | nil => rw [List.nil_append, strchr, if_pos rfl]
  | cons d s ih =>
      rw [List.mem_cons, not_or] at h
      rw [List.cons_append, strchr, if_neg (Ne.symm h.1), ih h.2]

lemma strchr_eq_none_iff {s : List Char} {c : Char} : strchr s c = none ↔ c ∉ s := by
  induction s with
  | nil => simp [strchr]
  | cons d s ih =>
      rw [strchr, List.mem_cons, not_or, ← ih]
      split_ifs with h
      · simp [h]
      · simp [Ne.symm h]

lemma eq_append_of_strchr {s t : List Char} {c : Char} (h : strchr s c = some t) :
    ∃ pre rest, s = pre ++ c :: rest ∧ t = c :: rest ∧ c ∉ pre := by
  induction s with
  | nil => cases h
  | cons d s ih =>
      rw [strchr] at h
      split_ifs at h with hd
      · obtain rfl := Option.some.inj h
        exact ⟨[], s, by rw [hd]; rfl, by rw [hd], List.not_mem_nil⟩
      · obtain ⟨pre, rest, rfl, rfl, hpre⟩ := ih h
        exact ⟨d :: pre, rest, rfl, rfl, by simp [hpre, Ne.symm hd]⟩

/-- A string is cut at the first place of a character in one way only. -/
lemma append_cons_inj_of_first {s s' t t' : List Char} {c : Char} (hs : c ∉ s) (hs' : c ∉ s')
    (h : s ++ c :: t = s' ++ c :: t') : s = s' ∧ t = t' := by
  have hstrchr : strchr (s ++ c :: t) c = some (c :: t') := by
    rw [h]
    exact strchr_append_cons hs' t'
  rw [strchr_append_cons hs, Option.some.injEq, List.cons.injEq] at hstrchr
  obtain ⟨-, rfl⟩ := hstrchr
  exact ⟨List.append_cancel_right h, rfl⟩

/-! ### Numerals -/

/-- `isspace`, in a locale with no white space beyond ASCII. -/
def isSpace (c : Char) : Bool :=
  c = ' ' || c = '\t' || c = '\n' || c = '\x0b' || c = '\x0c' || c = '\r'

/-- The sign of a numeral. -/
inductive Sign where
  | absent
  | plus
  | minus
  deriving DecidableEq

namespace Sign

/-- A sign as it is written. -/
def chars : Sign → List Char
  | absent => []
  | plus => ['+']
  | minus => ['-']

/-- A natural number with a sign. -/
def apply : Sign → ℕ → ℤ
  | absent, n | plus, n => n
  | minus, n => -n

end Sign

/-- The sign a string begins with, and the rest of the string. -/
def scanSign : List Char → Sign × List Char
  | '+' :: s => (.plus, s)
  | '-' :: s => (.minus, s)
  | s => (.absent, s)

lemma scanSign_chars_append (sign : Sign) {c : Char} (hc : c.isDigit = true) (s : List Char) :
    scanSign (sign.chars ++ c :: s) = (sign, c :: s) := by
  cases sign with
  | plus => rfl
  | minus => rfl
  | absent =>
      rw [Sign.chars, List.nil_append, scanSign.eq_3]
      · rintro t ⟨⟩
        cases hc
      · rintro t ⟨⟩
        cases hc

lemma chars_append_scanSign (s : List Char) : (scanSign s).1.chars ++ (scanSign s).2 = s := by
  fun_cases scanSign s <;> rfl

/-- White space, a sign and digits. -/
@[ext]
structure Numeral where
  blanks : List Char
  sign : Sign
  digits : List Char
  blanks_space : ∀ c ∈ blanks, isSpace c = true
  digits_digit : ∀ c ∈ digits, c.isDigit = true
  digits_ne_nil : digits ≠ []

namespace Numeral

variable (num : Numeral)

/-- A numeral as it is written. -/
def chars : List Char := num.blanks ++ (num.sign.chars ++ num.digits)

/-- The number the digits denote. -/
def magnitude : ℕ := Nat.ofDigitChars 10 num.digits 0

/-- The number a numeral denotes. -/
def value : ℤ := num.sign.apply num.magnitude

end Numeral

/-- A plain decimal: digits, and nothing else. -/
structure IsDecimal (s : List Char) : Prop where
  ne_nil : s ≠ []
  digits : ∀ c ∈ s, c.isDigit = true

instance (s : List Char) : Decidable (IsDecimal s) :=
  decidable_of_iff (s ≠ [] ∧ s.all Char.isDigit = true)
    ⟨fun h => ⟨h.1, List.all_eq_true.mp h.2⟩, fun h => ⟨h.ne_nil, List.all_eq_true.mpr h.digits⟩⟩

/-- The number a plain decimal denotes. -/
def decimal (s : List Char) : ℕ := Nat.ofDigitChars 10 s 0

/-- A plain decimal as a numeral. -/
def IsDecimal.numeral {s : List Char} (h : IsDecimal s) : Numeral where
  blanks := []
  sign := .absent
  digits := s
  blanks_space := by simp
  digits_digit := h.digits
  digits_ne_nil := h.ne_nil

@[simp] lemma IsDecimal.numeral_chars {s : List Char} (h : IsDecimal s) : h.numeral.chars = s := rfl

@[simp] lemma IsDecimal.numeral_value {s : List Char} (h : IsDecimal s) :
    h.numeral.value = decimal s := rfl

/-- The longest numeral a string begins with, and the rest of the string. -/
def scanNumeral (s : List Char) : Option (Numeral × List Char) :=
  let t := scanSign (s.dropWhile isSpace)
  if h : t.2.takeWhile Char.isDigit = [] then none
  else some
    ({ blanks := s.takeWhile isSpace
       sign := t.1
       digits := t.2.takeWhile Char.isDigit
       blanks_space := fun _ hc => List.mem_takeWhile_imp hc
       digits_digit := fun _ hc => List.mem_takeWhile_imp hc
       digits_ne_nil := h },
      t.2.dropWhile Char.isDigit)

/-- No character with `p` at the beginning of a string. -/
def StopsAt (p : Char → Bool) (s : List Char) : Prop := ∀ c ∈ s.head?, p c = false

lemma stopsAt_nil (p : Char → Bool) : StopsAt p [] := by
  rintro c ⟨⟩

lemma stopsAt_dropWhile (p : Char → Bool) (s : List Char) : StopsAt p (s.dropWhile p) := by
  intro c hc
  have h := List.head?_dropWhile_not p s
  rw [Option.mem_def.mp hc] at h
  simpa using h

lemma takeWhile_append_of_stopsAt {p : Char → Bool} {s rest : List Char}
    (h : ∀ c ∈ s, p c = true) (hrest : StopsAt p rest) :
    (s ++ rest).takeWhile p = s ∧ (s ++ rest).dropWhile p = rest := by
  rw [List.takeWhile_append_of_pos h, List.dropWhile_append_of_pos h]
  cases rest with
  | nil => simp
  | cons c rest =>
      have hc : p c = false := hrest c rfl
      rw [List.takeWhile_cons, List.dropWhile_cons, hc]
      simp

lemma isSpace_of_isDigit {c : Char} (hc : c.isDigit = true) : isSpace c = false := by
  by_contra h
  simp only [isSpace, Bool.not_eq_false, Bool.or_eq_true, decide_eq_true_eq] at h
  rcases h with ((((rfl | rfl) | rfl) | rfl) | rfl) | rfl <;> exact absurd hc (by decide)

/-- **Every numeral is found**, in front of anything that does not continue it. -/
lemma scanNumeral_chars_append (num : Numeral) {rest : List Char}
    (hrest : StopsAt Char.isDigit rest) :
    scanNumeral (num.chars ++ rest) = some (num, rest) := by
  obtain ⟨blanks, sign, digits, hblanks, hdigits, hne⟩ := num
  obtain ⟨d, ds, rfl⟩ := List.exists_cons_of_ne_nil hne
  have hd : d.isDigit = true := hdigits d List.mem_cons_self
  have hstop : StopsAt isSpace (sign.chars ++ (d :: ds ++ rest)) := by
    cases sign with
    | absent =>
        rintro c ⟨⟩
        exact isSpace_of_isDigit hd
    | plus =>
        rintro c ⟨⟩
        rfl
    | minus =>
        rintro c ⟨⟩
        rfl
  have hblank := takeWhile_append_of_stopsAt hblanks hstop
  have hdigit := takeWhile_append_of_stopsAt hdigits hrest
  have hsign : scanSign (sign.chars ++ (d :: ds ++ rest)) = (sign, d :: ds ++ rest) :=
    scanSign_chars_append sign hd _
  simp only [scanNumeral, Numeral.chars, List.append_assoc, hblank, hsign, hdigit]
  rfl

/-- A string begins with one numeral at most, its digits taken to their end. -/
lemma numeral_append_inj {num num' : Numeral} {rest rest' : List Char}
    (hrest : StopsAt Char.isDigit rest) (hrest' : StopsAt Char.isDigit rest')
    (h : num.chars ++ rest = num'.chars ++ rest') : num = num' ∧ rest = rest' := by
  have hscan := scanNumeral_chars_append num hrest
  rw [h, scanNumeral_chars_append num' hrest'] at hscan
  obtain ⟨hnum, hrest⟩ := Prod.mk.inj (Option.some.inj hscan)
  exact ⟨hnum.symm, hrest.symm⟩

/-- What is found is there. -/
lemma eq_chars_append_of_scanNumeral {s rest : List Char} {num : Numeral}
    (h : scanNumeral s = some (num, rest)) : s = num.chars ++ rest ∧ StopsAt Char.isDigit rest := by
  rw [scanNumeral] at h
  split_ifs at h
  obtain ⟨rfl, rfl⟩ := Prod.mk.inj (Option.some.inj h)
  refine ⟨?_, stopsAt_dropWhile _ _⟩
  rw [Numeral.chars]
  simp only [List.append_assoc, List.takeWhile_append_dropWhile, chars_append_scanSign]

/-! ### Conversions -/

/-- What a conversion returns and stores: the value, `*endptr`, and whether `errno` is `ERANGE`. -/
structure Conversion (α : Type*) where
  value : α
  endptr : List Char
  erange : Bool

/-- `strtol` with base 10. Without a numeral nothing is read, and `errno` is left alone. -/
def strtol (s : List Char) : Conversion ℤ :=
  match scanNumeral s with
  | none => ⟨0, s, false⟩
  | some (num, rest) =>
      if num.value < -2 ^ 63 then ⟨-2 ^ 63, rest, true⟩
      else if 2 ^ 63 ≤ num.value then ⟨2 ^ 63 - 1, rest, true⟩
      else ⟨num.value, rest, false⟩

/-- `strtoul` with base 10. A number with a minus sign is negated in `unsigned long`. -/
def strtoul (s : List Char) : Conversion ℕ :=
  match scanNumeral s with
  | none => ⟨0, s, false⟩
  | some (num, rest) =>
      if 2 ^ 64 ≤ num.magnitude then ⟨2 ^ 64 - 1, rest, true⟩
      else ⟨(num.value % 2 ^ 64).toNat, rest, false⟩

section Conversion

variable {s rest : List Char}

lemma strtol_chars_append (num : Numeral) (hrest : StopsAt Char.isDigit rest)
    (hlo : -2 ^ 63 ≤ num.value)
    (hhi : num.value < 2 ^ 63) : strtol (num.chars ++ rest) = ⟨num.value, rest, false⟩ := by
  rw [strtol, scanNumeral_chars_append num hrest]
  dsimp only
  rw [if_neg (not_lt.mpr hlo), if_neg (not_le.mpr hhi)]

lemma strtoul_chars_append (num : Numeral) (hrest : StopsAt Char.isDigit rest)
    (hlt : num.magnitude < 2 ^ 64) :
    strtoul (num.chars ++ rest) = ⟨(num.value % 2 ^ 64).toNat, rest, false⟩ := by
  rw [strtoul, scanNumeral_chars_append num hrest]
  dsimp only
  rw [if_neg (not_le.mpr hlt)]

/-- A conversion of `strtol` without `ERANGE` has read nothing, or a numeral in range. -/
lemma strtol_cases (h : (strtol s).erange = false) :
    ((strtol s).value = 0 ∧ (strtol s).endptr = s) ∨
      ∃ num : Numeral, s = num.chars ++ (strtol s).endptr ∧ (strtol s).value = num.value ∧
        -2 ^ 63 ≤ num.value ∧ num.value < 2 ^ 63 := by
  rw [strtol] at h ⊢
  cases hscan : scanNumeral s with
  | none => exact Or.inl ⟨rfl, rfl⟩
  | some found =>
      obtain ⟨num, rest⟩ := found
      rw [hscan] at h
      dsimp only at h ⊢
      split_ifs at h ⊢ with hlo hhi
      exact Or.inr ⟨num, (eq_chars_append_of_scanNumeral hscan).1, rfl, not_lt.mp hlo,
        not_le.mp hhi⟩

/-- A conversion of `strtoul` without `ERANGE` has read nothing, or a numeral in range. -/
lemma strtoul_cases (h : (strtoul s).erange = false) :
    ((strtoul s).value = 0 ∧ (strtoul s).endptr = s) ∨
      ∃ num : Numeral, s = num.chars ++ (strtoul s).endptr ∧ num.magnitude < 2 ^ 64 := by
  rw [strtoul] at h ⊢
  cases hscan : scanNumeral s with
  | none => exact Or.inl ⟨rfl, rfl⟩
  | some found =>
      obtain ⟨num, rest⟩ := found
      rw [hscan] at h
      dsimp only at h ⊢
      split_ifs at h ⊢ with hhi
      exact Or.inr ⟨num, (eq_chars_append_of_scanNumeral hscan).1, not_le.mp hhi⟩

end Conversion
