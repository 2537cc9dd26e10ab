import Mdb.Tools.SubOptions

/-!
The language of `--rsched`, as documented by `rsched_opt_doc` and as accepted.

A documented string is `profile,H,k=v,…` with the keys of `HistKey`, whose values are plain
decimals in the range of the key, or plain decimals with a unit (`HistKey.Means`).

* `parse_rsched_documented`: what a documented string stores;
* `parse_rsched_language_iff`: on which strings acceptance means that the string is documented.
-/

namespace Mdb

/-! ### The options of a histogram -/

/-- The options of a histogram. -/
inductive HistKey where
  | showHist
  | logScale
  | size
  | min
  | max
  deriving DecidableEq

namespace HistKey

/-- A key as it is written. -/
def label : HistKey → List Char
  | showHist => showLab
  | logScale => logScaleLab
  | size => sizeLab
  | min => minLab
  | max => maxLab

/-- The type of an option. -/
def Value : HistKey → Type
  | showHist | logScale => Bool
  | size | min | max => ℕ

/-- An option of a histogram. -/
def field : (k : HistKey) → ArgRschedHist → OptionalField k.Value
  | showHist => ArgRschedHist.showHist
  | logScale => ArgRschedHist.logScale
  | size => ArgRschedHist.size
  | min => ArgRschedHist.min
  | max => ArgRschedHist.max

/-- An option of a histogram set. -/
def setField : (k : HistKey) → k.Value → ArgRschedHist → ArgRschedHist
  | showHist, v, hist => { hist with showHist := optionalSet v }
  | logScale, v, hist => { hist with logScale := optionalSet v }
  | size, v, hist => { hist with size := optionalSet v }
  | min, v, hist => { hist with min := optionalSet v }
  | max, v, hist => { hist with max := optionalSet v }

/-- How the value of an option is read. -/
def read : (k : HistKey) → List Char → Except ArgStop k.Value
  | showHist, val => (fun i : ℤ => decide (i ≠ 0)) <$> parseInt showLab val 0 1
  | logScale, val => (fun i : ℤ => decide (i ≠ 0)) <$> parseInt logScaleLab val 0 1
  | size, val => Int.toNat <$> parseInt sizeLab val 8 1024
  | min, val => parseTimeValue val
  | max, val => parseTimeValue val

variable {k k' : HistKey} {val : List Char}

@[simp] lemma field_setField_self (k : HistKey) (v : k.Value) (hist : ArgRschedHist) :
    k.field (k.setField v hist) = optionalSet v := by
  cases k <;> rfl

lemma field_setField_of_ne (h : k' ≠ k) (v : k.Value) (hist : ArgRschedHist) :
    k'.field (k.setField v hist) = k'.field hist := by
  cases k <;> cases k' <;> first | rfl | exact absurd rfl h

lemma length_label_lt (k : HistKey) : k.label.length < 64 := by
  cases k <;> decide

lemma label_no_eq (k : HistKey) : '=' ∉ k.label := by
  cases k <;> decide

lemma label_injective : Function.Injective label := by
  intro k k' h
  revert h
  cases k <;> cases k' <;> decide

end HistKey

/-- A key sets its option and no other. -/
lemma parseHistOpt_label (k : HistKey) (val : List Char) (hist : ArgRschedHist) :
    parseHistOpt k.label val hist = (fun v => k.setField v hist) <$> k.read val := by
  cases k with
  | showHist =>
      rw [HistKey.label, HistKey.read, parseHistOpt]
      cases parseInt showLab val 0 1 <;> rfl
  | logScale =>
      rw [HistKey.label, HistKey.read, parseHistOpt]
      cases parseInt logScaleLab val 0 1 <;> rfl
  | size =>
      rw [HistKey.label, HistKey.read, parseHistOpt]
      cases parseInt sizeLab val 8 1024 <;> rfl
  | min =>
      rw [HistKey.label, HistKey.read, parseHistOpt]
      cases parseTimeValue val <;> rfl
  | max =>
      rw [HistKey.label, HistKey.read, parseHistOpt]
      cases parseTimeValue val <;> rfl

/-- A key that is none of the five is passed over. -/
lemma parseHistOpt_of_ne {key : List Char} (h : ∀ k : HistKey, k.label ≠ key) (val : List Char)
    (hist : ArgRschedHist) : parseHistOpt key val hist = .ok hist := by
  have hshow : showLab ≠ key := h .showHist
  have hscale : logScaleLab ≠ key := h .logScale
  have hsize : sizeLab ≠ key := h .size
  have hmin : minLab ≠ key := h .min
  have hmax : maxLab ≠ key := h .max
  simp only [parseHistOpt, storeIfKey, if_neg hshow, if_neg hscale, if_neg hsize, if_neg hmin,
    if_neg hmax]
  rfl

/-! ### What the values mean -/

/-- A plain decimal between two bounds. -/
def MeansInt (lo hi : ℕ) (val : List Char) (n : ℕ) : Prop :=
  IsDecimal val ∧ n = decimal val ∧ lo ≤ n ∧ n ≤ hi

instance (lo hi : ℕ) (val : List Char) (n : ℕ) : Decidable (MeansInt lo hi val n) :=
  inferInstanceAs (Decidable (_ ∧ _))

/-- A plain decimal with a unit, and the time in nanoseconds. -/
def MeansTime (val : List Char) (time : ℕ) : Prop :=
  ∃ (digits : List Char) (unit : TimeUnit), IsDecimal digits ∧ val = digits ++ unit.label ∧
    time = decimal digits * unit.nanoseconds ∧ time < 2 ^ 64

/-- What a documented value means. -/
def HistKey.Means : (k : HistKey) → List Char → k.Value → Prop
  | showHist, val, v | logScale, val, v => ∃ n, MeansInt 0 1 val n ∧ v = decide (n ≠ 0)
  | size, val, v => MeansInt 8 1024 val v
  | min, val, v | max, val, v => MeansTime val v

/-- A number that is the whole string, and in range once it has been narrowed, is returned. -/
lemma parseInt_of_strtol {key val : List Char} {lo hi n : ℤ} (hread : strtol val = ⟨n, [], false⟩)
    (hlo : lo ≤ i32 n) (hhi : i32 n ≤ hi) : parseInt key val lo hi = .ok (i32 n) := by
  have hrange : ¬ (i32 n < lo ∨ hi < i32 n) := by omega
  rw [parseInt, hread]
  dsimp only
  rw [if_neg (not_not.mpr rfl), if_neg Bool.false_ne_true, if_neg hrange]

lemma parseInt_of_means {lo hi n : ℕ} {val : List Char} (h : MeansInt lo hi val n)
    (hhi : hi < 2 ^ 31) (key : List Char) : parseInt key val lo hi = .ok (n : ℤ) := by
  obtain ⟨hdec, rfl, hlo, hle⟩ := h
  have hread : strtol val = ⟨decimal val, [], false⟩ := by
    have hval := strtol_chars_append hdec.numeral (stopsAt_nil _)
      (by rw [hdec.numeral_value]; omega) (by rw [hdec.numeral_value]; omega)
    rwa [List.append_nil, hdec.numeral_chars, hdec.numeral_value] at hval
  have hi32 : i32 (decimal val) = decimal val := i32_of_lt (by omega) (by omega)
  rw [parseInt_of_strtol hread (by omega) (by omega), hi32]

/-- A unit is no digit. -/
lemma stopsAt_label (unit : TimeUnit) : StopsAt Char.isDigit unit.label := by
  cases unit <;> · rintro c ⟨⟩; rfl

lemma parseConvertTimePostfix_label (val : ℕ) (hval : val < 2 ^ 64) (unit : TimeUnit) :
    parseConvertTimePostfix val unit.label = .ok (u64 (val * unit.nanoseconds)) := by
  cases unit with
  | ns => exact congrArg Except.ok (by rw [TimeUnit.nanoseconds, Nat.mul_one, u64_of_lt hval])
  | s => rfl
  | mc => rfl
  | ms => rfl

/-- A number with a unit is converted. -/
lemma parseTimeValue_of_strtoul {val : List Char} {n : ℕ} {unit : TimeUnit} (hn : n < 2 ^ 64)
    (hread : strtoul val = ⟨n, unit.label, false⟩) :
    parseTimeValue val = .ok (u64 (n * unit.nanoseconds)) := by
  have hne : unit.label ≠ [] := by cases unit <;> decide
  have hnext : parseU64Next val = .ok (n, unit.label) := by
    rw [parseU64Next, hread]
    rfl
  rw [parseTimeValue, hnext]
  exact (if_pos hne).trans (parseConvertTimePostfix_label n hn unit)

lemma parseTimeValue_of_means {val : List Char} {time : ℕ} (h : MeansTime val time) :
    parseTimeValue val = .ok time := by
  obtain ⟨digits, unit, hdec, rfl, rfl, hlt⟩ := h
  have hpos : 1 ≤ unit.nanoseconds := by cases unit <;> decide
  have hdigits : decimal digits < 2 ^ 64 := lt_of_le_of_lt (Nat.le_mul_of_pos_right _ hpos) hlt
  have hread : strtoul (digits ++ unit.label) = ⟨decimal digits, unit.label, false⟩ := by
    have hval := strtoul_chars_append hdec.numeral (stopsAt_label unit) hdigits
    have hnat : ((decimal digits : ℤ) % 2 ^ 64).toNat = decimal digits := by omega
    rwa [hdec.numeral_chars, hdec.numeral_value, hnat] at hval
  rw [parseTimeValue_of_strtoul hdigits hread, u64_of_lt hlt]

/-- A documented value is read as what it means. -/
lemma read_of_means {k : HistKey} {val : List Char} {v : k.Value} (h : k.Means val v) :
    k.read val = .ok v := by
  cases k with
  | showHist =>
      obtain ⟨n, hn, rfl⟩ := h
      have hread : parseInt showLab val 0 1 = .ok n := parseInt_of_means hn (by norm_num) _
      rw [HistKey.read, hread]
      exact congrArg Except.ok (decide_eq_decide.mpr (by simp))
  | logScale =>
      obtain ⟨n, hn, rfl⟩ := h
      have hread : parseInt logScaleLab val 0 1 = .ok n := parseInt_of_means hn (by norm_num) _
      rw [HistKey.read, hread]
      exact congrArg Except.ok (decide_eq_decide.mpr (by simp))
  | size =>
      have hread : parseInt sizeLab val 8 1024 = .ok _ := parseInt_of_means h (by norm_num) _
      rw [HistKey.read, hread]
      rfl
  | min => exact parseTimeValue_of_means h
  | max => exact parseTimeValue_of_means h

/-! ### Documented strings -/

/-- A documented option of a histogram: its key, its value as it is written, and what it means. -/
structure HistOption where
  key : HistKey
  val : List Char
  value : key.Value
  means : key.Means val value

namespace HistOption

/-- An option as it is written. -/
def chars (opt : HistOption) : List Char := opt.key.label ++ '=' :: opt.val

/-- The options set, one after the other. -/
def store (opts : List HistOption) (hist : ArgRschedHist) : ArgRschedHist :=
  opts.foldl (fun hist opt => opt.key.setField opt.value hist) hist

/-- An option that is not named is left alone. -/
lemma field_store_of_forall_ne {k : HistKey} {opts : List HistOption}
    (h : ∀ opt ∈ opts, opt.key ≠ k) (hist : ArgRschedHist) :
    k.field (store opts hist) = k.field hist := by
  induction opts generalizing hist with
  | nil => rfl
  | cons opt opts ih =>
      have hne : k ≠ opt.key := (h opt List.mem_cons_self).symm
      calc k.field (store (opt :: opts) hist)
          = k.field (opt.key.setField opt.value hist) :=
            ih (fun o ho => h o (List.mem_cons_of_mem _ ho)) _
        _ = k.field hist := HistKey.field_setField_of_ne hne _ _

/-- The last option of a key is the one that counts. -/
lemma field_store_last {opt : HistOption} {post : List HistOption}
    (h : ∀ o ∈ post, o.key ≠ opt.key) (pre : List HistOption) (hist : ArgRschedHist) :
    opt.key.field (store (pre ++ opt :: post) hist) = optionalSet opt.value :=
  calc opt.key.field (store (pre ++ opt :: post) hist)
      = opt.key.field (store post (opt.key.setField opt.value (store pre hist))) := by
        rw [store, List.foldl_append, List.foldl_cons]
        rfl
    _ = opt.key.field (opt.key.setField opt.value (store pre hist)) :=
        field_store_of_forall_ne h _
    _ = optionalSet opt.value := HistKey.field_setField_self _ _ _

end HistOption

/-- `profile,H,k=v,…`. -/
def rschedString (name : HistName) (opts : List HistOption) : List Char :=
  profileLab ++ ',' :: (name.label ++ ',' :: [','].intercalate (opts.map HistOption.chars))

lemma isDecimal_no_comma {s : List Char} (h : IsDecimal s) : ',' ∉ s :=
  fun hc => Bool.false_ne_true (h.digits _ hc)

lemma meansTime_no_comma {val : List Char} {time : ℕ} (h : MeansTime val time) : ',' ∉ val := by
  obtain ⟨digits, unit, hdec, rfl, -⟩ := h
  rw [List.mem_append, not_or]
  exact ⟨isDecimal_no_comma hdec, by cases unit <;> decide⟩

/-- There is no comma in a documented value. -/
lemma HistKey.Means.no_comma {k : HistKey} {val : List Char} {v : k.Value} (h : k.Means val v) :
    ',' ∉ val := by
  cases k with
  | showHist =>
      obtain ⟨n, hn, -⟩ := h
      exact isDecimal_no_comma hn.1
  | logScale =>
      obtain ⟨n, hn, -⟩ := h
      exact isDecimal_no_comma hn.1
  | size => exact isDecimal_no_comma h.1
  | min => exact meansTime_no_comma h
  | max => exact meansTime_no_comma h

/-- A documented option as it is cut off. -/
def HistOption.subOption (opt : HistOption) : SubOption where
  key := opt.key.label
  val := opt.val
  key_no_eq := opt.key.label_no_eq
  val_no_comma := opt.means.no_comma

lemma intercalate_chars (opts : List HistOption) :
    [','].intercalate (opts.map HistOption.chars)
      = subOptionsString (opts.map HistOption.subOption) false := by
  induction opts with
  | nil => rfl
  | cons opt opts ih =>
      cases opts with
      | nil => simp [List.intercalate, subOptionsString_cons, moreOptions, afterOption,
          HistOption.chars, SubOption.chars, HistOption.subOption]
      | cons opt' opts =>
          have hmore : moreOptions ((opt' :: opts).map HistOption.subOption) false
              = some ([','].intercalate ((opt' :: opts).map HistOption.chars)) :=
            congrArg some ih.symm
          rw [List.map_cons (f := HistOption.subOption), subOptionsString_cons, hmore]
          simp [List.intercalate, afterOption, HistOption.chars, SubOption.chars,
            HistOption.subOption]

/-- A documented string as it is cut off. -/
lemma rschedString_eq (name : HistName) (opts : List HistOption) :
    rschedString name opts = profileLab ++ ',' :: (name.label ++ ',' ::
      subOptionsString (opts.map HistOption.subOption) false) := by
  rw [rschedString, intercalate_chars]

/-- Documented options that fit are all set. -/
lemma foldlM_subOption (opts : List HistOption) (hist : ArgRschedHist) :
    (opts.map HistOption.subOption).foldlM (fun hist opt => parseHistOpt opt.key opt.val hist) hist
      = .ok (HistOption.store opts hist) := by
  induction opts generalizing hist with
  | nil => rfl
  | cons opt opts ih =>
      have hopt : parseHistOpt opt.subOption.key opt.subOption.val hist
          = .ok (opt.key.setField opt.value hist) :=
        (parseHistOpt_label opt.key opt.val hist).trans (by rw [read_of_means opt.means]; rfl)
      rw [List.map_cons, List.foldlM_cons, hopt]
      exact ih _

/-- **Documented strings mean what they say.** A string `profile,H,k₁=v₁,…,kₙ=vₙ` with documented
values shorter than 64 characters is accepted: each option of the histogram `H` that is named has
the value it is given last, and nothing else changes. -/
theorem parse_rsched_documented (name : HistName) (opts : List HistOption) (rsched : ArgRsched)
    (hshort : ∀ opt ∈ opts, opt.val.length < 64) :
    ∃ rsched', parseRsched (rschedString name opts) rsched = .ok (0, rsched') ∧
      (∀ pre opt post, opts = pre ++ opt :: post → (∀ o ∈ post, o.key ≠ opt.key) →
        opt.key.field (rsched'.hist name) = ⟨opt.value, true⟩) ∧
      (∀ k, (∀ opt ∈ opts, opt.key ≠ k) →
        k.field (rsched'.hist name) = k.field (rsched.hist name)) ∧
      ∀ other, other ≠ name → rsched'.hist other = rsched.hist other := by
  have hfits : ∀ opt ∈ opts.map HistOption.subOption, opt.Fits := by
    intro opt hopt
    obtain ⟨opt, hmem, rfl⟩ := List.mem_map.mp hopt
    exact ⟨opt.key.length_label_lt, hshort opt hmem⟩
  have hparse := parseRsched_eq_ok_iff.mpr ⟨',', name, ',', _, false, _, hfits,
    rschedString_eq name opts, foldlM_subOption opts (rsched.hist name), rfl⟩
  have hself : ∀ hist, (rsched.setHist name hist).hist name = hist := fun hist => by
    cases name <;> rfl
  refine ⟨_, hparse, ?_, ?_, ?_⟩
  · rintro pre opt post rfl hlast
    rw [hself]
    exact HistOption.field_store_last hlast pre _
  · intro k hk
    rw [hself]
    exact HistOption.field_store_of_forall_ne hk _
  · intro other hother
    cases name <;> cases other <;> first | rfl | exact absurd rfl hother

/-- `size=16,max=5ms,size=32`. -/
def sizeMaxSize : List HistOption :=
  have h₁ : MeansInt 8 1024 ['1', '6'] 16 := by decide
  have h₂ : MeansTime ['5', 'm', 's'] 5000000 := ⟨['5'], .ms, by decide, rfl, rfl, by norm_num⟩
  have h₃ : MeansInt 8 1024 ['3', '2'] 32 := by decide
  [⟨.size, _, (16 : ℕ), h₁⟩, ⟨.max, _, (5000000 : ℕ), h₂⟩, ⟨.size, _, (32 : ℕ), h₃⟩]

/-- Options of which none is set. -/
def unsetOptions : ArgRsched :=
  let hist : ArgRschedHist := ⟨⟨false, false⟩, ⟨false, false⟩, ⟨0, false⟩, ⟨0, false⟩, ⟨0, false⟩⟩
  ⟨hist, hist, hist⟩

/-- The theorem at `profile,task_hist,size=16,max=5ms,size=32`. -/
theorem parse_rsched_documented_task :
    ∃ rsched', parseRsched (rschedString .taskHist sizeMaxSize) unsetOptions = .ok (0, rsched') ∧
      rsched'.taskHist.size = ⟨32, true⟩ ∧ rsched'.taskHist.max = ⟨5000000, true⟩ ∧
      rsched'.taskHist.min = unsetOptions.taskHist.min ∧ rsched'.runHist = unsetOptions.runHist := by
  obtain ⟨rsched', hparse, hlast, hother, hframe⟩ :=
    parse_rsched_documented .taskHist sizeMaxSize unsetOptions (by decide)
  refine ⟨rsched', hparse, ?_, ?_, hother .min (by decide), hframe .runHist (by decide)⟩
  · exact hlast (sizeMaxSize.take 2) _ [] rfl (by decide)
  · exact hlast (sizeMaxSize.take 1) _ (sizeMaxSize.drop 2) rfl (by decide)

/-! ### Accepted strings -/

/-- What `parse_int` takes: nothing at all, for a 0, or a numeral that is in range once it has been
narrowed to `int`. -/
def TakesInt (lo hi : ℤ) (val : List Char) : Prop :=
  (val = [] ∧ lo ≤ 0 ∧ 0 ≤ hi) ∨
    ∃ num : Numeral, val = num.chars ∧ -2 ^ 63 ≤ num.value ∧ num.value < 2 ^ 63 ∧
      lo ≤ i32 num.value ∧ i32 num.value ≤ hi

/-- What `parse_time_value` takes: a unit, with a numeral in front of it or not. -/
def TakesTime (val : List Char) : Prop :=
  ∃ unit : TimeUnit, val = unit.label ∨
    ∃ num : Numeral, val = num.chars ++ unit.label ∧ num.magnitude < 2 ^ 64

/-- What the reader of an option takes. -/
def HistKey.Takes : HistKey → List Char → Prop
  | showHist | logScale => TakesInt 0 1
  | size => TakesInt 8 1024
  | min | max => TakesTime

/-- **What `parse_int` returns**: 0 for an empty string, and the number that is the whole string
narrowed to `int`. -/
lemma parseInt_eq_ok_iff {key val : List Char} {lo hi i : ℤ} :
    parseInt key val lo hi = .ok i ↔
      (lo ≤ i ∧ i ≤ hi) ∧ ((val = [] ∧ i = 0) ∨
        ∃ num : Numeral, val = num.chars ∧ -2 ^ 63 ≤ num.value ∧ num.value < 2 ^ 63 ∧
          i = i32 num.value) := by
  constructor
  · intro h
    rw [parseInt] at h
    split_ifs at h with hend herange hrange
    obtain rfl := Except.ok.inj h
    rw [not_not] at hend
    rw [not_or, not_lt, not_lt] at hrange
    refine ⟨hrange, ?_⟩
    rcases strtol_cases (Bool.eq_false_iff.mpr herange) with ⟨hval, hs⟩ | ⟨num, hs, hval, hlo, hhi⟩
    · exact Or.inl ⟨hs.symm.trans hend, by rw [hval]; rfl⟩
    · rw [hend, List.append_nil] at hs
      exact Or.inr ⟨num, hs, hlo, hhi, by rw [hval]⟩
  · rintro ⟨⟨hlo, hhi⟩, ⟨rfl, rfl⟩ | ⟨num, rfl, hge, hlt, rfl⟩⟩
    · -- `strtol` reads nothing, and nothing is left
      have hread : strtol [] = ⟨0, [], false⟩ := rfl
      exact parseInt_of_strtol hread hlo hhi
    · have hread := strtol_chars_append num (stopsAt_nil _) hge hlt
      rw [List.append_nil] at hread
      exact parseInt_of_strtol hread hlo hhi

lemma parseInt_takes_iff {key val : List Char} {lo hi : ℤ} :
    (∃ i, parseInt key val lo hi = .ok i) ↔ TakesInt lo hi val := by
  simp only [parseInt_eq_ok_iff, TakesInt]
  constructor
  · rintro ⟨i, hrange, ⟨hval, rfl⟩ | ⟨num, hval, hge, hlt, rfl⟩⟩
    · exact Or.inl ⟨hval, hrange⟩
    · exact Or.inr ⟨num, hval, hge, hlt, hrange⟩
  · rintro (⟨hval, hrange⟩ | ⟨num, hval, hge, hlt, hrange⟩)
    · exact ⟨0, hrange, Or.inl ⟨hval, rfl⟩⟩
    · exact ⟨_, hrange, Or.inr ⟨num, hval, hge, hlt, rfl⟩⟩

lemma exists_unit_of_convert {n time : ℕ} {unit : List Char}
    (h : parseConvertTimePostfix n unit = .ok time) : ∃ u : TimeUnit, unit = u.label := by
  rw [parseConvertTimePostfix] at h
  split_ifs at h with hs hmc hms hns
  · exact ⟨.s, hs.symm⟩
  · exact ⟨.mc, hmc.symm⟩
  · exact ⟨.ms, hms.symm⟩
  · exact ⟨.ns, hns.symm⟩

/-- **What `parse_time_value` returns**: 0 for a unit alone, and else the number times the unit,
both reduced to 64 bits. -/
lemma parseTimeValue_eq_ok_iff {val : List Char} {time : ℕ} :
    parseTimeValue val = .ok time ↔
      ∃ unit : TimeUnit, (val = unit.label ∧ time = 0) ∨
        ∃ num : Numeral, val = num.chars ++ unit.label ∧ num.magnitude < 2 ^ 64 ∧
          time = u64 ((num.value % 2 ^ 64).toNat * unit.nanoseconds) := by
  constructor
  · intro h
    obtain ⟨⟨n, unit⟩, hnext, h⟩ := bind_eq_ok_iff.mp h
    rw [parseU64Next] at hnext
    split_ifs at hnext with herange
    obtain ⟨rfl, rfl⟩ := Prod.mk.inj (Except.ok.inj hnext)
    dsimp only at h
    split_ifs at h with hne
    obtain ⟨u, hu⟩ := exists_unit_of_convert h
    refine ⟨u, ?_⟩
    rcases strtoul_cases (Bool.eq_false_iff.mpr herange) with ⟨hval, hs⟩ | ⟨num, hs, hlt⟩
    · rw [hval, hu, parseConvertTimePostfix_label 0 (by norm_num), Nat.zero_mul] at h
      exact Or.inl ⟨hs.symm.trans hu, (Except.ok.inj h).symm⟩
    · rw [hu] at hs
      have hread := strtoul_chars_append num (stopsAt_label u) hlt
      rw [← hs] at hread
      rw [hread, parseConvertTimePostfix_label _ (by dsimp only; omega)] at h
      exact Or.inr ⟨num, hs, hlt, (Except.ok.inj h).symm⟩
  · rintro ⟨u, ⟨rfl, rfl⟩ | ⟨num, rfl, hlt, rfl⟩⟩
    · -- `strtoul` reads nothing in front of a unit
      have hread : strtoul u.label = ⟨0, u.label, false⟩ := by cases u <;> rfl
      rw [parseTimeValue_of_strtoul (by norm_num) hread, Nat.zero_mul]
      rfl
    · exact parseTimeValue_of_strtoul (by omega) (strtoul_chars_append num (stopsAt_label u) hlt)

lemma parseTimeValue_takes_iff {val : List Char} :
    (∃ time, parseTimeValue val = .ok time) ↔ TakesTime val := by
  simp only [parseTimeValue_eq_ok_iff, TakesTime]
  constructor
  · rintro ⟨time, u, ⟨hval, -⟩ | ⟨num, hval, hlt, -⟩⟩
    · exact ⟨u, Or.inl hval⟩
    · exact ⟨u, Or.inr ⟨num, hval, hlt⟩⟩
  · rintro ⟨u, hval | ⟨num, hval, hlt⟩⟩
    · exact ⟨0, u, Or.inl ⟨hval, rfl⟩⟩
    · exact ⟨_, u, Or.inr ⟨num, hval, hlt, rfl⟩⟩

/-- The readers take what `Takes` says. -/
lemma read_takes_iff {k : HistKey} {val : List Char} :
    (∃ v, k.read val = .ok v) ↔ k.Takes val := by
  have hmap : ∀ {α β : Type} (f : α → β) (x : Except ArgStop α),
      (∃ b, f <$> x = .ok b) ↔ ∃ a, x = .ok a := fun f x => by
    simp only [map_eq_ok_iff]
    exact ⟨fun ⟨_, a, ha, _⟩ => ⟨a, ha⟩, fun ⟨a, ha⟩ => ⟨f a, a, ha, rfl⟩⟩
  cases k with
  | showHist => exact (hmap _ _).trans parseInt_takes_iff
  | logScale => exact (hmap _ _).trans parseInt_takes_iff
  | size => exact (hmap _ _).trans parseInt_takes_iff
  | min => exact parseTimeValue_takes_iff
  | max => exact parseTimeValue_takes_iff

/-- An option is applied if its value is taken, or its key is unknown. -/
lemma parseHistOpt_takes_iff {key val : List Char} {hist : ArgRschedHist} :
    (∃ hist', parseHistOpt key val hist = .ok hist') ↔
      ∀ k : HistKey, key = k.label → k.Takes val := by
  by_cases hkey : ∃ k : HistKey, key = k.label
  · obtain ⟨k, rfl⟩ := hkey
    simp only [parseHistOpt_label, map_eq_ok_iff]
    constructor
    · rintro ⟨hist', v, hread, -⟩ k' hk'
      rw [← HistKey.label_injective hk']
      exact read_takes_iff.mp ⟨v, hread⟩
    · intro h
      obtain ⟨v, hread⟩ := read_takes_iff.mpr (h k rfl)
      exact ⟨_, v, hread, rfl⟩
  · push Not at hkey
    exact ⟨fun _ k hk => absurd hk (hkey k), fun _ =>
      ⟨hist, parseHistOpt_of_ne (fun k => (hkey k).symm) val hist⟩⟩

lemma foldlM_takes_iff {opts : List SubOption} (hist : ArgRschedHist) :
    (∃ hist', opts.foldlM (fun hist opt => parseHistOpt opt.key opt.val hist) hist = .ok hist') ↔
      ∀ opt ∈ opts, ∀ k : HistKey, opt.key = k.label → k.Takes opt.val := by
  induction opts generalizing hist with
  | nil => exact ⟨fun _ => by simp, fun _ => ⟨hist, rfl⟩⟩
  | cons opt opts ih =>
      rw [List.forall_mem_cons]
      constructor
      · rintro ⟨hist', h⟩
        rw [List.foldlM_cons] at h
        obtain ⟨hist₁, hopt, h⟩ := bind_eq_ok_iff.mp h
        exact ⟨parseHistOpt_takes_iff.mp ⟨hist₁, hopt⟩, (ih hist₁).mp ⟨hist', h⟩⟩
      · rintro ⟨hopt, hopts⟩
        obtain ⟨hist₁, hopt⟩ := parseHistOpt_takes_iff.mpr hopt
        obtain ⟨hist', h⟩ := (ih hist₁).mpr hopts
        exact ⟨hist', by rw [List.foldlM_cons]; exact bind_eq_ok_iff.mpr ⟨hist₁, hopt, h⟩⟩

/-- A way to read a string: `profile`, a character, the name of a histogram, a character, and
options with commas in between, perhaps one behind the last. -/
structure RschedReading where
  sep₁ : Char
  name : HistName
  sep₂ : Char
  opts : List SubOption
  final : Bool

namespace RschedReading

/-- The string that is read. -/
def chars (r : RschedReading) : List Char :=
  profileLab ++ r.sep₁ :: (r.name.label ++ r.sep₂ :: subOptionsString r.opts r.final)

/-- The options fit in the buffers, and the readers of the five keys take their values. -/
def Taken (r : RschedReading) : Prop :=
  ∀ opt ∈ r.opts, opt.Fits ∧ ∀ k : HistKey, opt.key = k.label → k.Takes opt.val

/-- What the documentation asks of a string. -/
structure Clean (r : RschedReading) : Prop where
  sep₁ : r.sep₁ = ','
  sep₂ : r.sep₂ = ','
  opts_ne_nil : r.opts ≠ []
  final : r.final = false
  opts : ∀ opt ∈ r.opts, ∃ (k : HistKey) (v : k.Value), opt.key = k.label ∧ k.Means opt.val v

end RschedReading

/-- **The accepted strings**: those that can be read such that the options are taken. -/
lemma parseRsched_takes_iff {arg : List Char} (rsched : ArgRsched) :
    (∃ r, parseRsched arg rsched = .ok r) ↔
      ∃ reading : RschedReading, reading.Taken ∧ arg = reading.chars := by
  constructor
  · rintro ⟨r, h⟩
    obtain ⟨sep₁, name, sep₂, opts, final, hist, hfits, rfl, hfold, -⟩ := parseRsched_eq_ok_iff.mp h
    have htakes := (foldlM_takes_iff _).mp ⟨hist, hfold⟩
    exact ⟨⟨sep₁, name, sep₂, opts, final⟩, fun opt hopt => ⟨hfits opt hopt, htakes opt hopt⟩, rfl⟩
  · rintro ⟨⟨sep₁, name, sep₂, opts, final⟩, htaken, rfl⟩
    obtain ⟨hist, hfold⟩ :=
      (foldlM_takes_iff (rsched.hist name)).mpr fun opt hopt => (htaken opt hopt).2
    exact ⟨_, parseRsched_eq_ok_iff.mpr ⟨sep₁, name, sep₂, opts, final, hist,
      fun opt hopt => (htaken opt hopt).1, rfl, hfold, rfl⟩⟩

/-- A string of the documented language. -/
def Documented (arg : List Char) : Prop :=
  ∃ name opts, opts ≠ [] ∧ arg = rschedString name opts

/-- Options that are documented, one by one. -/
lemma exists_histOptions {opts : List SubOption}
    (h : ∀ opt ∈ opts, ∃ (k : HistKey) (v : k.Value), opt.key = k.label ∧ k.Means opt.val v) :
    ∃ hopts : List HistOption, hopts.map HistOption.subOption = opts := by
  induction opts with
  | nil => exact ⟨[], rfl⟩
  | cons opt opts ih =>
      rw [List.forall_mem_cons] at h
      obtain ⟨⟨k, v, hkey, hmeans⟩, hall⟩ := h
      obtain ⟨hopts, rfl⟩ := ih hall
      have hopt : HistOption.subOption ⟨k, opt.val, v, hmeans⟩ = opt := SubOption.ext hkey.symm rfl
      exact ⟨⟨k, opt.val, v, hmeans⟩ :: hopts, congrArg (· :: _) hopt⟩

/-- A clean string is documented. -/
lemma documented_of_clean {reading : RschedReading} (h : reading.Clean) :
    Documented reading.chars := by
  obtain ⟨sep₁, name, sep₂, opts, final⟩ := reading
  obtain ⟨rfl, rfl, hne, rfl, hall⟩ := h
  obtain ⟨hopts, rfl⟩ := exists_histOptions hall
  exact ⟨name, hopts, by simpa using hne, (rschedString_eq name hopts).symm⟩

/-- A documented string is clean however it is read. -/
lemma clean_of_documented {reading : RschedReading} (h : Documented reading.chars) :
    reading.Clean := by
  obtain ⟨sep₁, name, sep₂, opts, final⟩ := reading
  obtain ⟨name', hopts, hne, hchars⟩ := h
  rw [rschedString_eq, RschedReading.chars] at hchars
  obtain ⟨rfl, hprofile⟩ := List.cons.inj (List.append_cancel_left hchars)
  -- no name continues another one, so the name is the same
  have hname : name' = name := by
    by_contra hne
    have hnone := isSubOpt_label_of_ne hne sep₂ (subOptionsString opts final)
    rw [hprofile, isSubOpt_eq_some_iff.mpr ⟨',', rfl⟩] at hnone
    cases hnone
  subst hname
  obtain ⟨rfl, hstring⟩ := List.cons.inj (List.append_cancel_left hprofile)
  obtain ⟨rfl, rfl⟩ := subOptionsString_inj hstring (mt List.map_eq_nil_iff.mp hne)
  refine ⟨rfl, rfl, mt List.map_eq_nil_iff.mp hne, rfl, fun opt hmem => ?_⟩
  obtain ⟨hopt, -, rfl⟩ := List.mem_map.mp hmem
  exact ⟨hopt.key, hopt.value, rfl, hopt.means⟩

/-- **When acceptance means that a string is documented.** -/
theorem parse_rsched_language_iff (arg : List Char) :
    (∀ rsched r, parseRsched arg rsched = .ok r → Documented arg) ↔
      ∀ reading : RschedReading, reading.Taken → arg = reading.chars → reading.Clean := by
  constructor
  · rintro h reading htaken rfl
    obtain ⟨r, hr⟩ := (parseRsched_takes_iff unsetOptions).mpr ⟨reading, htaken, rfl⟩
    exact clean_of_documented (h _ r hr)
  · intro h rsched r hr
    obtain ⟨reading, htaken, rfl⟩ := (parseRsched_takes_iff rsched).mp ⟨r, hr⟩
    exact documented_of_clean (h reading htaken rfl)

/-- `profile.run_hist.color=red` is accepted. -/
theorem parse_rsched_takes_undocumented :
    ¬ ∀ arg rsched r, parseRsched arg rsched = .ok r → Documented arg := by
  intro h
  obtain ⟨name, opts, -, hstring⟩ := h (profileLab ++ '.' :: (HistName.runHist.label ++ '.' ::
    ['c', 'o', 'l', 'o', 'r', '=', 'r', 'e', 'd'])) unsetOptions _ rfl
  have hdot := (List.cons.inj (List.append_cancel_left hstring)).1
  exact absurd hdot (by decide)

end Mdb
