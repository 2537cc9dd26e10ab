import Mdb.Base.Word
import Mdb.Library.CString

/-!
The value of `--rsched` (`tools/args_parser.c`): `parse_rsched` and what it calls.

A function that exits with an error, or whose caller does when it returns `-1`, ends in the message
that is printed; writing behind one of the buffers of `parse_hist_opts` is undefined and ends in
`overflow`. What a pointer points to is the rest of the string.

* `parseSubKeyVal_chars`, `exists_of_parseSubKeyVal`: how a `key=value` is cut off;
* `parseHistOpts_string`, `exists_of_parseHistOpts`: the loop over the options of a histogram
  applies them one after the other.
-/

namespace Mdb

/-- The error printed before `exit(EXIT_FAILURE)`. -/
inductive ArgError where
  | notANumber (key val : List Char)
  | intErange (key val : List Char)
  | outOfRange (key val : List Char) (minAllowed maxAllowed : ℤ)
  | u64Erange (val : List Char)
  | unknownTimePostfix (unit : List Char)
  | noTimePostfix (arg : List Char)
  | noKeyVal (arg : List Char)
  | unknownOption (arg : List Char)
  | unknownRsched
  deriving DecidableEq

/-- How a call ends that does not return. -/
inductive ArgStop where
  | exit (err : ArgError)
  | overflow
  deriving DecidableEq

/-! ### The options -/

/-- `struct optional_bool`, `struct optional_u32` and `struct optional_u64`. -/
structure OptionalField (α : Type) where
  value : α
  set : Bool
  deriving DecidableEq

/-- `optional_set`. -/
def optionalSet {α : Type} (value : α) : OptionalField α := ⟨value, true⟩

/-- `struct arg_rsched_hist`; `showHist` is its `show`. -/
structure ArgRschedHist where
  showHist : OptionalField Bool
  logScale : OptionalField Bool
  size : OptionalField ℕ
  min : OptionalField ℕ
  max : OptionalField ℕ
  deriving DecidableEq

/-- `struct arg_rsched`. -/
structure ArgRsched where
  runHist : ArgRschedHist
  taskHist : ArgRschedHist
  payloadHist : ArgRschedHist
  deriving DecidableEq

/-! ### Values -/

/-- `parse_int`. -/
def parseInt (key val : List Char) (minAllowed maxAllowed : ℤ) : Except ArgStop ℤ :=
  let r := strtol val
  let i := i32 r.value
  if r.endptr ≠ [] then .error (.exit (.notANumber key val))
  else if r.erange then .error (.exit (.intErange key val))
  else if i < minAllowed ∨ maxAllowed < i then
    .error (.exit (.outOfRange key val minAllowed maxAllowed))
  else .ok i

/-- `parse_u64_next`: the number and what follows it. -/
def parseU64Next (val : List Char) : Except ArgStop (ℕ × List Char) :=
  let r := strtoul val
  if r.erange then .error (.exit (.u64Erange val)) else .ok (r.value, r.endptr)

/-- The units of a time. -/
inductive TimeUnit where
  | s
  | mc
  | ms
  | ns
  deriving DecidableEq

namespace TimeUnit

/-- A unit as it is written. -/
def label : TimeUnit → List Char
  | s => ['s']
  | mc => ['m', 'c']
  | ms => ['m', 's']
  | ns => ['n', 's']

/-- `NS_IN_SEC`, `NS_IN_MCS` and `NS_IN_MS`. -/
def nanoseconds : TimeUnit → ℕ
  | s => 1000000000
  | mc => 1000
  | ms => 1000000
  | ns => 1

end TimeUnit

/-- `parse_convert_time_postfix`. -/
def parseConvertTimePostfix (val : ℕ) (unit : List Char) : Except ArgStop ℕ :=
  if TimeUnit.s.label = unit then .ok (u64 (val * TimeUnit.s.nanoseconds))
  else if TimeUnit.mc.label = unit then .ok (u64 (val * TimeUnit.mc.nanoseconds))
  else if TimeUnit.ms.label = unit then .ok (u64 (val * TimeUnit.ms.nanoseconds))
  else if TimeUnit.ns.label = unit then .ok val
  else .error (.exit (.unknownTimePostfix unit))

/-- `parse_time_value`. -/
def parseTimeValue (arg : List Char) : Except ArgStop ℕ := do
  let (val, unit) ← parseU64Next arg
  if unit ≠ [] then parseConvertTimePostfix val unit
  else .error (.exit (.noTimePostfix arg))

/-! ### The options of a histogram -/

/-- `parse_sub_key_val`: the key, the value and what follows them. The buffers of the caller have
room for 63 characters and the terminating zero. -/
def parseSubKeyVal (arg : List Char) : Except ArgStop (List Char × List Char × List Char) :=
  match strchr arg '=' with
  | none => .error (.exit (.noKeyVal arg))
  | some sep =>
      let found := strchr sep ','
      let stop := found.getD []
      let next := stop.tail
      let valStart := sep.tail
      let key := arg.take (arg.length - sep.length)
      let val := valStart.take (valStart.length - stop.length)
      if 64 ≤ key.length ∨ 64 ≤ val.length then .error .overflow
      else .ok (key, val, next)

/-- `show_lab`. -/
def showLab : List Char := ['s', 'h', 'o', 'w']

/-- `log_scale_lab`. -/
def logScaleLab : List Char := ['l', 'o', 'g', '_', 's', 'c', 'a', 'l', 'e']

/-- `min_lab`. -/
def minLab : List Char := ['m', 'i', 'n']

/-- `max_lab`. -/
def maxLab : List Char := ['m', 'a', 'x']

/-- `size_lab`. -/
def sizeLab : List Char := ['s', 'i', 'z', 'e']

/-- An `if` of `parse_hist_opts`: the value is read and stored if the key is the one of the label. -/
def storeIfKey {α : Type} (lab key : List Char) (read : Except ArgStop α)
    (store : α → ArgRschedHist) (hist : ArgRschedHist) : Except ArgStop ArgRschedHist :=
  if lab = key then store <$> read else pure hist

/-- The body of the loop of `parse_hist_opts`, behind the call of `parse_sub_key_val`. -/
def parseHistOpt (key val : List Char) (hist : ArgRschedHist) : Except ArgStop ArgRschedHist := do
  let hist ← storeIfKey showLab key (parseInt showLab val 0 1)
    (fun i => { hist with showHist := optionalSet (decide (i ≠ 0)) }) hist
  let hist ← storeIfKey sizeLab key (parseInt sizeLab val 8 1024)
    (fun i => { hist with size := optionalSet i.toNat }) hist
  let hist ← storeIfKey logScaleLab key (parseInt logScaleLab val 0 1)
    (fun i => { hist with logScale := optionalSet (decide (i ≠ 0)) }) hist
  let hist ← storeIfKey minLab key (parseTimeValue val)
    (fun time => { hist with min := optionalSet time }) hist
  storeIfKey maxLab key (parseTimeValue val)
    (fun time => { hist with max := optionalSet time }) hist

/-- The loop of `parse_hist_opts`. A round takes at least the `=`. -/
def parseHistOptsLoop : ℕ → List Char → ArgRschedHist → Except ArgStop ArgRschedHist
  | 0, _, hist => pure hist
  | fuel + 1, nextOpt, hist =>
      if nextOpt = [] then pure hist
      else do
        let (key, val, nextOpt) ← parseSubKeyVal nextOpt
        let hist ← parseHistOpt key val hist
        parseHistOptsLoop fuel nextOpt hist

/-- `parse_hist_opts`. -/
def parseHistOpts (arg : List Char) (hist : ArgRschedHist) : Except ArgStop ArgRschedHist :=
  parseHistOptsLoop arg.length arg hist

/-- `parse_profile_hist`. -/
def parseProfileHist (arg : List Char) (hist : ArgRschedHist) : Except ArgStop ArgRschedHist :=
  parseHistOpts arg hist

/-! ### `--rsched` -/

/-- `is_sub_opt`: what follows the option and one more character. -/
def isSubOpt (opt arg : List Char) : Option (List Char) :=
  if arg.length < opt.length + 1 then none
  else if opt = arg.take opt.length then some (arg.drop (opt.length + 1))
  else none

/-- The three histograms of the profile. -/
inductive HistName where
  | runHist
  | taskHist
  | payloadHist
  deriving DecidableEq

namespace HistName

/-- A histogram as it is written. -/
def label : HistName → List Char
  | runHist => ['r', 'u', 'n', '_', 'h', 'i', 's', 't']
  | taskHist => ['t', 'a', 's', 'k', '_', 'h', 'i', 's', 't']
  | payloadHist => ['p', 'a', 'y', 'l', 'o', 'a', 'd', '_', 'h', 'i', 's', 't']

end HistName

namespace ArgRsched

/-- The options of a histogram. -/
def hist (rsched : ArgRsched) : HistName → ArgRschedHist
  | .runHist => rsched.runHist
  | .taskHist => rsched.taskHist
  | .payloadHist => rsched.payloadHist

/-- The options of one histogram replaced. -/
def setHist (rsched : ArgRsched) : HistName → ArgRschedHist → ArgRsched
  | .runHist, hist => { rsched with runHist := hist }
  | .taskHist, hist => { rsched with taskHist := hist }
  | .payloadHist, hist => { rsched with payloadHist := hist }

end ArgRsched

/-- `parse_rsched_profile`. -/
def parseRschedProfile (arg : List Char) (rsched : ArgRsched) : Except ArgStop ArgRsched :=
  match isSubOpt HistName.runHist.label arg with
  | some nextOpt => do
      let hist ← parseProfileHist nextOpt rsched.runHist
      pure { rsched with runHist := hist }
  | none =>
      match isSubOpt HistName.taskHist.label arg with
      | some nextOpt => do
          let hist ← parseProfileHist nextOpt rsched.taskHist
          pure { rsched with taskHist := hist }
      | none =>
          match isSubOpt HistName.payloadHist.label arg with
          | some nextOpt => do
              let hist ← parseProfileHist nextOpt rsched.payloadHist
              pure { rsched with payloadHist := hist }
          | none => .error (.exit (.unknownOption arg))

/-- The key of the options of the scheduler. -/
def profileLab : List Char := ['p', 'r', 'o', 'f', 'i', 'l', 'e']

/-- `parse_rsched`: what it returns, and the options it has stored. -/
def parseRsched (arg : List Char) (rsched : ArgRsched) : Except ArgStop (ℤ × ArgRsched) :=
  match isSubOpt profileLab arg with
  | some optArg => do
      let rsched ← parseRschedProfile optArg rsched
      pure (0, rsched)
  | none => .error (.exit .unknownRsched)

/-- A call that returns has returned from each of its parts. -/
lemma bind_eq_ok_iff {ε α β : Type} {x : Except ε α} {f : α → Except ε β} {b : β} :
    x >>= f = .ok b ↔ ∃ a, x = .ok a ∧ f a = .ok b := by
  cases x with
  | error e => exact ⟨nofun, nofun⟩
  | ok a => exact ⟨fun h => ⟨a, rfl, h⟩, fun ⟨_, ha, h⟩ => Except.ok.inj ha ▸ h⟩

lemma map_eq_ok_iff {ε α β : Type} {x : Except ε α} {f : α → β} {b : β} :
    f <$> x = .ok b ↔ ∃ a, x = .ok a ∧ f a = b := by
  cases x with
  | error e => exact ⟨nofun, nofun⟩
  | ok a => exact ⟨fun h => ⟨a, rfl, Except.ok.inj h⟩, fun ⟨_, ha, h⟩ =>
      congrArg Except.ok (Except.ok.inj ha ▸ h)⟩

/-- A parser that is called for its value and then stores it. -/
lemma bind_pure_eq_ok_iff {ε α β : Type} {x : Except ε α} {f : α → β} {b : β} :
    (x >>= fun a => pure (f a)) = .ok b ↔ ∃ a, x = .ok a ∧ f a = b := by
  rw [bind_pure_comp, map_eq_ok_iff]

/-- Another error for the same stops. -/
lemma mapError_eq_ok_iff {ε ε' α : Type} {x : Except ε α} {f : ε → ε'} {a : α} :
    x.mapError f = .ok a ↔ x = .ok a := by
  cases x with
  | error e => exact ⟨nofun, nofun⟩
  | ok b => exact ⟨fun h => congrArg Except.ok (Except.ok.inj h),
      fun h => congrArg Except.ok (Except.ok.inj h)⟩

/-! ### Cutting off a `key=value` -/

/-- A `key=value`, as `parse_sub_key_val` cuts it off. -/
@[ext]
structure SubOption where
  key : List Char
  val : List Char
  key_no_eq : '=' ∉ key
  val_no_comma : ',' ∉ val

namespace SubOption

/-- An option as it is written. -/
def chars (opt : SubOption) : List Char := opt.key ++ '=' :: opt.val

/-- The key and the value fit in the buffers. -/
def Fits (opt : SubOption) : Prop := opt.key.length < 64 ∧ opt.val.length < 64

end SubOption

/-- What follows an option: nothing, or a comma and more. -/
def afterOption : Option (List Char) → List Char
  | none => []
  | some next => ',' :: next

/-- A string begins with one option at most. -/
lemma chars_append_inj {opt opt' : SubOption} {next next' : Option (List Char)}
    (h : opt.chars ++ afterOption next = opt'.chars ++ afterOption next') :
    opt = opt' ∧ next = next' := by
  obtain ⟨key, val, hkey, hval⟩ := opt
  obtain ⟨key', val', hkey', hval'⟩ := opt'
  simp only [SubOption.chars, List.append_assoc, List.cons_append] at h
  obtain ⟨rfl, hrest⟩ := append_cons_inj_of_first hkey hkey' h
  suffices hsuff : val = val' ∧ next = next' by
    obtain ⟨rfl, rfl⟩ := hsuff
    exact ⟨rfl, rfl⟩
  cases next with
  | none =>
      cases next' with
      | none => exact ⟨by simpa [afterOption] using hrest, rfl⟩
      | some n' =>
          refine absurd ?_ hval
          rw [afterOption, List.append_nil] at hrest
          rw [hrest]
          exact List.mem_append_right _ List.mem_cons_self
  | some n =>
      cases next' with
      | none =>
          refine absurd ?_ hval'
          rw [afterOption, afterOption, List.append_nil] at hrest
          rw [← hrest]
          exact List.mem_append_right _ List.mem_cons_self
      | some n' =>
          obtain ⟨rfl, rfl⟩ := append_cons_inj_of_first hval hval' hrest
          exact ⟨rfl, rfl⟩

/-- A string with a `=` begins with an option. -/
lemma exists_subOption {arg : List Char} (h : '=' ∈ arg) :
    ∃ (opt : SubOption) (next : Option (List Char)), arg = opt.chars ++ afterOption next := by
  obtain ⟨sep, hsep⟩ := Option.ne_none_iff_exists'.mp (mt strchr_eq_none_iff.mp (not_not.mpr h))
  obtain ⟨key, val, rfl, -, hkey⟩ := eq_append_of_strchr hsep
  cases hcomma : strchr val ',' with
  | none =>
      exact ⟨⟨key, val, hkey, strchr_eq_none_iff.mp hcomma⟩, none, (List.append_nil _).symm⟩
  | some rest =>
      obtain ⟨val, next, rfl, -, hval⟩ := eq_append_of_strchr hcomma
      exact ⟨⟨key, val, hkey, hval⟩, some next, by simp [SubOption.chars, afterOption]⟩

/-- The separators that are found: the `=` of the option, and what follows its value. -/
lemma strchr_chars (opt : SubOption) (next : Option (List Char)) :
    strchr (opt.chars ++ afterOption next) '=' = some ('=' :: (opt.val ++ afterOption next)) ∧
      (strchr ('=' :: (opt.val ++ afterOption next)) ',').getD [] = afterOption next := by
  obtain ⟨key, val, hkey, hval⟩ := opt
  refine ⟨?_, ?_⟩
  · rw [SubOption.chars, List.append_assoc, List.cons_append]
    exact strchr_append_cons hkey _
  · have hmem : ',' ∉ '=' :: val := by simp [hval]
    cases next with
    | none =>
        rw [afterOption, List.append_nil, strchr_eq_none_iff.mpr hmem, Option.getD_none]
    | some next =>
        rw [afterOption, ← List.cons_append, strchr_append_cons hmem, Option.getD_some]

/-- **An option is cut off at its `=` and at the comma behind it**, if it fits. -/
lemma parseSubKeyVal_chars (opt : SubOption) (next : Option (List Char)) :
    parseSubKeyVal (opt.chars ++ afterOption next) =
      if 64 ≤ opt.key.length ∨ 64 ≤ opt.val.length then .error .overflow
      else .ok (opt.key, opt.val, next.getD []) := by
  obtain ⟨hsep, hstop⟩ := strchr_chars opt next
  have hnext : (afterOption next).tail = next.getD [] := by cases next <;> rfl
  rw [parseSubKeyVal, hsep]
  simp only [hstop, SubOption.chars]
  simp [hnext]

lemma parseSubKeyVal_of_fits {opt : SubOption} (h : opt.Fits) (next : Option (List Char)) :
    parseSubKeyVal (opt.chars ++ afterOption next) = .ok (opt.key, opt.val, next.getD []) := by
  rw [parseSubKeyVal_chars, if_neg]
  rintro (hkey | hval)
  · exact absurd h.1 (not_lt.mpr hkey)
  · exact absurd h.2 (not_lt.mpr hval)

/-- What is cut off is an option that fits. -/
lemma exists_of_parseSubKeyVal {arg : List Char} {r : List Char × List Char × List Char}
    (h : parseSubKeyVal arg = .ok r) :
    ∃ (opt : SubOption) (next : Option (List Char)), opt.Fits ∧
      arg = opt.chars ++ afterOption next ∧ r = (opt.key, opt.val, next.getD []) := by
  by_cases heq : '=' ∈ arg
  · obtain ⟨opt, next, rfl⟩ := exists_subOption heq
    rw [parseSubKeyVal_chars] at h
    split_ifs at h with hlong
    rw [not_or, not_le, not_le] at hlong
    exact ⟨opt, next, hlong, rfl, (Except.ok.inj h).symm⟩
  · rw [parseSubKeyVal, strchr_eq_none_iff.mpr heq] at h
    cases h

/-! ### The loop over the options -/

/-- Options one after the other with commas in between, and perhaps one behind the last, as what
follows an option. -/
def moreOptions : List SubOption → Bool → Option (List Char)
  | [], final => if final then some [] else none
  | opt :: opts, final => some (opt.chars ++ afterOption (moreOptions opts final))

/-- Options one after the other with commas in between, and perhaps one behind the last. -/
def subOptionsString (opts : List SubOption) (final : Bool) : List Char :=
  (moreOptions opts final).getD []

@[simp] lemma subOptionsString_nil (final : Bool) : subOptionsString [] final = [] := by
  cases final <;> rfl

lemma subOptionsString_cons (opt : SubOption) (opts : List SubOption) (final : Bool) :
    subOptionsString (opt :: opts) final = opt.chars ++ afterOption (moreOptions opts final) := rfl

lemma chars_append_ne_nil (opt : SubOption) (s : List Char) : opt.chars ++ s ≠ [] := by
  simp [SubOption.chars]

/-- Options are cut off in one way only. -/
lemma moreOptions_inj {opts opts' : List SubOption} {final final' : Bool}
    (h : moreOptions opts final = moreOptions opts' final') : opts = opts' ∧ final = final' := by
  induction opts generalizing opts' with
  | nil =>
      cases opts' with
      | nil => cases final <;> cases final' <;> first | exact ⟨rfl, rfl⟩ | cases h
      | cons opt' opts' =>
          cases final with
          | false => cases h
          | true => exact absurd (Option.some.inj h).symm (chars_append_ne_nil _ _)
  | cons opt opts ih =>
      cases opts' with
      | nil =>
          cases final' with
          | false => cases h
          | true => exact absurd (Option.some.inj h) (chars_append_ne_nil _ _)
      | cons opt' opts' =>
          obtain ⟨rfl, hmore⟩ := chars_append_inj (Option.some.inj h)
          obtain ⟨rfl, rfl⟩ := ih hmore
          exact ⟨rfl, rfl⟩

lemma subOptionsString_inj {opts opts' : List SubOption} {final final' : Bool}
    (h : subOptionsString opts final = subOptionsString opts' final') (hne : opts' ≠ []) :
    opts = opts' ∧ final = final' := by
  obtain ⟨opt', opts', rfl⟩ := List.exists_cons_of_ne_nil hne
  cases opts with
  | nil =>
      rw [subOptionsString_nil] at h
      exact absurd h.symm (chars_append_ne_nil _ _)
  | cons opt opts => exact moreOptions_inj (congrArg some h)

/-- Each round leaves a shorter string. -/
lemma length_next_lt (opt : SubOption) (next : Option (List Char)) :
    (next.getD []).length < (opt.chars ++ afterOption next).length := by
  cases next with
  | none => simp [SubOption.chars, afterOption]
  | some next =>
      simp only [SubOption.chars, afterOption, Option.getD_some, List.length_append,
        List.length_cons]
      omega

/-- A round of the loop. -/
lemma parseHistOptsLoop_chars {opt : SubOption} (h : opt.Fits) (next : Option (List Char))
    (fuel : ℕ) (hist : ArgRschedHist) :
    parseHistOptsLoop (fuel + 1) (opt.chars ++ afterOption next) hist =
      parseHistOpt opt.key opt.val hist >>= parseHistOptsLoop fuel (next.getD []) := by
  rw [parseHistOptsLoop, if_neg (chars_append_ne_nil _ _), parseSubKeyVal_of_fits h]
  rfl

lemma parseHistOptsLoop_nil (fuel : ℕ) (hist : ArgRschedHist) :
    parseHistOptsLoop fuel [] hist = pure hist := by
  cases fuel <;> rfl

/-- Options that fit are applied one after the other. -/
lemma parseHistOptsLoop_string {opts : List SubOption} (hfits : ∀ opt ∈ opts, opt.Fits)
    (final : Bool) : ∀ {fuel : ℕ} (hist : ArgRschedHist),
      (subOptionsString opts final).length ≤ fuel →
        parseHistOptsLoop fuel (subOptionsString opts final) hist =
          opts.foldlM (fun hist opt => parseHistOpt opt.key opt.val hist) hist := by
  induction opts with
  | nil =>
      intro fuel hist _
      rw [subOptionsString_nil, parseHistOptsLoop_nil, List.foldlM_nil]
  | cons opt opts ih =>
      intro fuel hist hfuel
      rw [subOptionsString_cons] at hfuel ⊢
      obtain _ | fuel := fuel
      · exact absurd (List.eq_nil_of_length_eq_zero (Nat.le_zero.mp hfuel))
          (chars_append_ne_nil _ _)
      · rw [parseHistOptsLoop_chars (hfits opt List.mem_cons_self), List.foldlM_cons]
        refine congrArg _ (funext fun hist' => ?_)
        have hlt := length_next_lt opt (moreOptions opts final)
        exact ih (fun o ho => hfits o (List.mem_cons_of_mem _ ho)) hist' (by
          rw [subOptionsString]
          omega)

/-- What follows an option, when more options are all there is behind it. -/
lemma exists_moreOptions {next : Option (List Char)} {opts : List SubOption} {final : Bool}
    (h : next.getD [] = subOptionsString opts final) :
    ∃ final', next = moreOptions opts final' := by
  cases opts with
  | nil =>
      cases next with
      | none => exact ⟨false, rfl⟩
      | some next => exact ⟨true, congrArg some (h.trans (subOptionsString_nil final))⟩
  | cons opt opts =>
      cases next with
      | none => exact absurd h.symm (chars_append_ne_nil _ _)
      | some next => exact ⟨final, congrArg some h⟩

/-- What the loop applies was there. -/
lemma exists_of_parseHistOptsLoop {fuel : ℕ} : ∀ {arg : List Char} {hist hist' : ArgRschedHist},
    arg.length ≤ fuel → parseHistOptsLoop fuel arg hist = .ok hist' →
      ∃ (opts : List SubOption) (final : Bool), (∀ opt ∈ opts, opt.Fits) ∧
        arg = subOptionsString opts final ∧
          opts.foldlM (fun hist opt => parseHistOpt opt.key opt.val hist) hist = .ok hist' := by
  induction fuel with
  | zero =>
      intro arg hist hist' hfuel h
      obtain rfl := List.eq_nil_of_length_eq_zero (Nat.le_zero.mp hfuel)
      exact ⟨[], false, by simp, rfl, h⟩
  | succ fuel ih =>
      intro arg hist hist' hfuel h
      by_cases hnil : arg = []
      · subst hnil
        exact ⟨[], false, by simp, rfl, h⟩
      · rw [parseHistOptsLoop, if_neg hnil] at h
        obtain ⟨r, hcut, h⟩ := bind_eq_ok_iff.mp h
        obtain ⟨opt, next, hfits, rfl, rfl⟩ := exists_of_parseSubKeyVal hcut
        obtain ⟨hist₁, hopt, h⟩ := bind_eq_ok_iff.mp h
        have hlt := length_next_lt opt next
        obtain ⟨opts, final, hall, hnext, hfold⟩ := ih (by omega) h
        obtain ⟨final', rfl⟩ := exists_moreOptions hnext
        refine ⟨opt :: opts, final', ?_, rfl, ?_⟩
        · rintro o ho
          rcases List.mem_cons.mp ho with rfl | ho
          · exact hfits
          · exact hall o ho
        · rw [List.foldlM_cons]
          exact bind_eq_ok_iff.mpr ⟨hist₁, hopt, hfold⟩

/-- **What `parse_hist_opts` accepts**: options that fit, each of which can be applied. -/
lemma parseHistOpts_eq_ok_iff {arg : List Char} {hist hist' : ArgRschedHist} :
    parseHistOpts arg hist = .ok hist' ↔
      ∃ (opts : List SubOption) (final : Bool), (∀ opt ∈ opts, opt.Fits) ∧
        arg = subOptionsString opts final ∧
          opts.foldlM (fun hist opt => parseHistOpt opt.key opt.val hist) hist = .ok hist' := by
  constructor
  · exact exists_of_parseHistOptsLoop le_rfl
  · rintro ⟨opts, final, hfits, rfl, hfold⟩
    rw [parseHistOpts, parseHistOptsLoop_string hfits final hist le_rfl, hfold]

/-! ### The prefixes -/

/-- An option and one more character are skipped. -/
lemma isSubOpt_eq_some_iff {opt arg rest : List Char} :
    isSubOpt opt arg = some rest ↔ ∃ c, arg = opt ++ c :: rest := by
  rw [isSubOpt]
  constructor
  · intro h
    split_ifs at h with hlt htake
    obtain rfl := Option.some.inj h
    have hlen : opt.length < arg.length := by omega
    refine ⟨arg[opt.length], ?_⟩
    rw [← List.drop_eq_getElem_cons hlen]
    nth_rewrite 1 [htake]
    exact (List.take_append_drop _ _).symm
  · rintro ⟨c, rfl⟩
    rw [if_neg (by simp), if_pos (by simp)]
    simp

lemma isSubOpt_label_of_ne {name name' : HistName} (h : name' ≠ name) (c : Char)
    (rest : List Char) : isSubOpt name'.label (name.label ++ c :: rest) = none := by
  rw [Option.eq_none_iff_forall_ne_some]
  intro rest' hrest
  obtain ⟨c', heq⟩ := isSubOpt_eq_some_iff.mp hrest
  -- the names differ in their first letter
  cases name <;> cases name' <;> simp_all [HistName.label]

/-- The options of the histogram that is named are read. -/
lemma parseRschedProfile_label (name : HistName) (c : Char) (rest : List Char)
    (rsched : ArgRsched) :
    parseRschedProfile (name.label ++ c :: rest) rsched =
      rsched.setHist name <$> parseHistOpts rest (rsched.hist name) := by
  have hname : isSubOpt name.label (name.label ++ c :: rest) = some rest :=
    isSubOpt_eq_some_iff.mpr ⟨c, rfl⟩
  rw [parseRschedProfile]
  cases name with
  | runHist =>
      rw [hname]
      rfl
  | taskHist =>
      rw [isSubOpt_label_of_ne (by decide), hname]
      rfl
  | payloadHist =>
      rw [isSubOpt_label_of_ne (by decide), isSubOpt_label_of_ne (by decide), hname]
      rfl

lemma exists_of_parseRschedProfile {arg : List Char} {rsched rsched' : ArgRsched}
    (h : parseRschedProfile arg rsched = .ok rsched') :
    ∃ (name : HistName) (c : Char) (rest : List Char), arg = name.label ++ c :: rest := by
  by_contra hno
  push Not at hno
  have hnone : ∀ name : HistName, isSubOpt name.label arg = none := fun name => by
    rw [Option.eq_none_iff_forall_ne_some]
    intro rest hrest
    obtain ⟨c, hc⟩ := isSubOpt_eq_some_iff.mp hrest
    exact hno name c rest hc
  rw [parseRschedProfile, hnone, hnone, hnone] at h
  cases h

/-- **What `parse_rsched` accepts and stores**: the options of one histogram, behind its name and
`profile`, with any character behind these two. -/
theorem parseRsched_eq_ok_iff {arg : List Char} {rsched : ArgRsched} {r : ℤ × ArgRsched} :
    parseRsched arg rsched = .ok r ↔
      ∃ (c₁ : Char) (name : HistName) (c₂ : Char) (opts : List SubOption) (final : Bool)
        (hist : ArgRschedHist), (∀ opt ∈ opts, opt.Fits) ∧
          arg = profileLab ++ c₁ :: (name.label ++ c₂ :: subOptionsString opts final) ∧
          opts.foldlM (fun hist opt => parseHistOpt opt.key opt.val hist) (rsched.hist name)
            = .ok hist ∧
          r = (0, rsched.setHist name hist) := by
  have hprofile : ∀ c₁ rest, parseRsched (profileLab ++ c₁ :: rest) rsched =
      (0, ·) <$> parseRschedProfile rest rsched := fun c₁ rest => by
    rw [parseRsched, isSubOpt_eq_some_iff.mpr ⟨c₁, rfl⟩]
    rfl
  constructor
  · intro h
    cases hsub : isSubOpt profileLab arg with
    | none =>
        rw [parseRsched, hsub] at h
        cases h
    | some rest =>
        obtain ⟨c₁, rfl⟩ := isSubOpt_eq_some_iff.mp hsub
        rw [hprofile] at h
        obtain ⟨rsched', hprof, rfl⟩ := map_eq_ok_iff.mp h
        obtain ⟨name, c₂, rest, rfl⟩ := exists_of_parseRschedProfile hprof
        rw [parseRschedProfile_label] at hprof
        obtain ⟨hist, hopts, rfl⟩ := map_eq_ok_iff.mp hprof
        obtain ⟨opts, final, hfits, rfl, hfold⟩ := parseHistOpts_eq_ok_iff.mp hopts
        exact ⟨c₁, name, c₂, opts, final, hist, hfits, rfl, hfold, rfl⟩
  · rintro ⟨c₁, name, c₂, opts, final, hist, hfits, rfl, hfold, rfl⟩
    rw [hprofile, parseRschedProfile_label,
      parseHistOpts_eq_ok_iff.mpr ⟨opts, final, hfits, rfl, hfold⟩]
    rfl

end Mdb
