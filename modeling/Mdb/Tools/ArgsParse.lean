import Mdb.Tools.Arguments
import Mdb.Tools.OptionValues

/-!
The command line (`args_parse` of `tools/args_parser.c`).

`argp` calls `parse_opt` for each option, in the order of the command line, with its key and its
argument; `argsParse` folds the calls over the defaults. A call that does not return ends in the
error that is printed before `exit`, or in the list of the kernels.

* `argsParse_inRange`: the ranges that hold of everything the program is started with;
* `Arguments.frameArgs`: so the sizes are those of a frame.
-/

namespace Mdb

/-! ### The arguments -/

/-- `MODE_ONESHOT`, `MODE_BENCHMARK` and `MODE_RENDER`. -/
inductive RunMode where
  | oneshot
  | benchmark
  | render
  deriving DecidableEq

/-- `struct arguments`, built with `CONFIG_RSCHED_PROFILE`. -/
structure Arguments where
  width : ℕ
  height : ℕ
  bailout : ℕ
  blockSizeX : ℕ
  blockSizeY : ℕ
  kernelName : List Char
  threads : ℤ
  mode : RunMode
  benchmarkRuns : ℤ
  silent : ℤ
  verbose : ℤ
  outputFile : List Char
  shaderColors : ℤ
  rsched : ArgRsched
  deriving DecidableEq

/-- The keys of the options, by their characters and by the constants `KEY_*`. -/
inductive OptKey where
  | w
  | h
  | x
  | i
  | b
  | k
  | t
  | mode
  | benchRuns
  | colors
  | benchmark
  | render
  | q
  | s
  | v
  | o
  | rsched
  | krnList
  deriving DecidableEq

/-- How a call of `parse_opt` ends that does not return. -/
inductive ParseOptStop where
  | option (stop : OptionStop)
  | unknownMode (arg : List Char)
  | unknownOnOff (key arg : List Char)
  | listKernels
  deriving DecidableEq

/-! ### Values -/

/-- `threads`. -/
def threadsLab : List Char := ['t', 'h', 'r', 'e', 'a', 'd', 's']

/-- `parse_threads`. -/
def parseThreads (arg : List Char) : Except ArgStop ℤ :=
  if arg = ['a', 'u', 't', 'o'] then .ok (-1) else parseInt threadsLab arg 1 2147483647

/-- `parse_mode`. -/
def parseMode (arg : List Char) : Except ParseOptStop RunMode :=
  if arg = ['o', 'n', 'e', 's', 'h', 'o', 't'] then .ok .oneshot
  else if arg = ['b', 'e', 'n', 'c', 'h', 'm', 'a', 'r', 'k'] then .ok .benchmark
  else if arg = ['r', 'e', 'n', 'd', 'e', 'r'] then .ok .render
  else .error (.unknownMode arg)

/-- `parse_on_off`. -/
def parseOnOff (key arg : List Char) : Except ParseOptStop ℤ :=
  if arg = ['o', 'n'] then .ok 1
  else if arg = ['o', 'f', 'f'] then .ok 0
  else .error (.unknownOnOff key arg)

/-- A value of an option, or how its parser stops. -/
def readOption {α : Type} (x : Except OptionStop α) : Except ParseOptStop α := x.mapError .option

/-- A call of `parse_int` in `parse_opt`. -/
def parseIntOption (key arg : List Char) (minAllowed maxAllowed : ℤ) : Except ParseOptStop ℤ :=
  readOption (readValue (parseInt key arg minAllowed maxAllowed))

/-- `width`. -/
def widthLab : List Char := ['w', 'i', 'd', 't', 'h']

/-- `height`. -/
def heightLab : List Char := ['h', 'e', 'i', 'g', 'h', 't']

/-- `quad`. -/
def quadLab : List Char := ['q', 'u', 'a', 'd']

/-- `bailout`. -/
def bailoutLab : List Char := ['b', 'a', 'i', 'l', 'o', 'u', 't']

/-- `benchmark-runs`. -/
def benchmarkRunsLab : List Char :=
  ['b', 'e', 'n', 'c', 'h', 'm', 'a', 'r', 'k', '-', 'r', 'u', 'n', 's']

/-- `benchmark`. -/
def benchmarkLab : List Char := ['b', 'e', 'n', 'c', 'h', 'm', 'a', 'r', 'k']

/-- `colors`. -/
def colorsLab : List Char := ['c', 'o', 'l', 'o', 'r', 's']

/-! ### The options -/

/-- `parse_opt`. -/
def parseOpt (key : OptKey) (arg : List Char) (arguments : Arguments) :
    Except ParseOptStop Arguments :=
  match key with
  | .w => do
      let width ← parseIntOption widthLab arg 512 65535
      pure { arguments with width := width.toNat }
  | .h => do
      let height ← parseIntOption heightLab arg 512 65535
      pure { arguments with height := height.toNat }
  | .x => do
      let width ← parseIntOption quadLab arg 512 65535
      pure { arguments with width := width.toNat, height := width.toNat }
  | .i => do
      let bailout ← parseIntOption bailoutLab arg 1 65535
      pure { arguments with bailout := bailout.toNat }
  | .b => do
      let (x, y) ← readOption (parseBlockSize arg)
      pure { arguments with blockSizeX := x, blockSizeY := y }
  | .k => pure { arguments with kernelName := arg }
  | .t => do
      let threads ← readOption (readValue (parseThreads arg))
      pure { arguments with threads := threads }
  | .mode => do
      let mode ← parseMode arg
      pure { arguments with mode := mode }
  | .benchRuns => do
      let runs ← parseIntOption benchmarkRunsLab arg 1 2147483647
      pure { arguments with benchmarkRuns := runs }
  | .colors => do
      let colors ← parseOnOff colorsLab arg
      pure { arguments with shaderColors := colors }
  | .benchmark => do
      let runs ← parseIntOption benchmarkLab arg 1 2147483647
      pure { arguments with mode := .benchmark, benchmarkRuns := runs }
  | .render => pure { arguments with mode := .render }
  | .q | .s => pure { arguments with silent := 1 }
  | .v => pure { arguments with verbose := 1 }
  | .o => pure { arguments with outputFile := arg }
  | .rsched => do
      let (_, rsched) ← readOption (readValue (parseRsched arg arguments.rsched))
      pure { arguments with rsched := rsched }
  | .krnList => .error .listKernels

/-- The defaults of `args_parse`; a build without `NDEBUG` is verbose. -/
def argsDefault (ndebug : Bool) : Arguments where
  width := 1024
  height := 1024
  bailout := 256
  blockSizeX := 32
  blockSizeY := 32
  kernelName := ['m', 'd', 'b', '_', 'g', 'e', 'n', 'e', 'r', 'i', 'c']
  threads := -1
  mode := .oneshot
  benchmarkRuns := 100
  silent := 0
  verbose := if ndebug then 0 else 2
  outputFile := ['m', 'a', 'n', 'd', 'e', 'l', 'b', 'r', 'o', 't', '.', 'h', 'd', 'r']
  shaderColors := 1
  rsched := unsetOptions

/-- `args_parse`, on the options of the command line. -/
def argsParse (ndebug : Bool) (seen : List (OptKey × List Char)) : Except ParseOptStop Arguments :=
  seen.foldlM (fun arguments opt => parseOpt opt.1 opt.2 arguments) (argsDefault ndebug)

/-! ### What is parsed -/

/-- What each call keeps, a fold of calls that returns keeps. -/
lemma foldlM_induct {ε α β : Type} {f : β → α → Except ε β} {P : β → Prop}
    (hstep : ∀ b a b', P b → f b a = .ok b' → P b') :
    ∀ {l : List α} {b b' : β}, P b → l.foldlM f b = .ok b' → P b' := by
  intro l
  induction l with
  | nil =>
      intro b b' hb h
      rw [List.foldlM_nil] at h
      exact Except.ok.inj h ▸ hb
  | cons a l ih =>
      intro b b' hb h
      rw [List.foldlM_cons] at h
      obtain ⟨b₁, hstep₁, hrest⟩ := bind_eq_ok_iff.mp h
      exact ih (hstep b a b₁ hb hstep₁) hrest

/-- A range of an option, for the `uint32_t` its value becomes. -/
lemma toNat_range {i : ℤ} {a b : ℕ} (h : a ≤ i ∧ i ≤ b) : a ≤ i.toNat ∧ i.toNat ≤ b := by
  omega

/-- A size that is set is one of `8 .. 1024`. -/
def SizeInRange (hist : ArgRschedHist) : Prop :=
  hist.size.set = true → 8 ≤ hist.size.value ∧ hist.size.value ≤ 1024

/-- An option of a histogram keeps its size in range. -/
lemma parseHistOpt_sizeInRange {key val : List Char} {hist hist' : ArgRschedHist}
    (hsize : SizeInRange hist) (h : parseHistOpt key val hist = .ok hist') : SizeInRange hist' := by
  by_cases hkey : ∃ k : HistKey, k.label = key
  · obtain ⟨k, rfl⟩ := hkey
    rw [parseHistOpt_label] at h
    obtain ⟨v, hread, rfl⟩ := map_eq_ok_iff.mp h
    by_cases hk : HistKey.size = k
    · subst hk
      obtain ⟨i, hi, rfl⟩ := map_eq_ok_iff.mp hread
      exact fun _ => toNat_range (a := 8) (b := 1024) (parseInt_eq_ok_iff.mp hi).1
    · have hsame : (k.setField v hist).size = hist.size := HistKey.field_setField_of_ne hk v hist
      rwa [SizeInRange, hsame]
  · push Not at hkey
    rw [parseHistOpt_of_ne hkey] at h
    exact Except.ok.inj h ▸ hsize

/-- The ranges of what `args_parse` produces. -/
structure Arguments.InRange (args : Arguments) : Prop where
  width : 512 ≤ args.width ∧ args.width ≤ 65535
  height : 512 ≤ args.height ∧ args.height ≤ 65535
  bailout : 1 ≤ args.bailout ∧ args.bailout ≤ 65535
  blockSizeX : 8 ≤ args.blockSizeX ∧ args.blockSizeX ≤ 65535
  blockSizeY : 8 ≤ args.blockSizeY ∧ args.blockSizeY ≤ 65535
  threads : args.threads = -1 ∨ (1 ≤ args.threads ∧ args.threads ≤ 2147483647)
  benchmarkRuns : 1 ≤ args.benchmarkRuns ∧ args.benchmarkRuns ≤ 2147483647
  histSize : ∀ name, SizeInRange (args.rsched.hist name)

lemma readOption_eq_ok_iff {α : Type} {x : Except OptionStop α} {a : α} :
    readOption x = .ok a ↔ x = .ok a :=
  mapError_eq_ok_iff

/-- What an integer option stores is in its range. -/
lemma parseIntOption_range {key arg : List Char} {lo hi i : ℤ}
    (h : parseIntOption key arg lo hi = .ok i) : lo ≤ i ∧ i ≤ hi :=
  (parseInt_eq_ok_iff.mp (readValue_eq_ok_iff.mp (readOption_eq_ok_iff.mp h))).1

lemma parseThreads_range {arg : List Char} {threads : ℤ} (h : parseThreads arg = .ok threads) :
    threads = -1 ∨ (1 ≤ threads ∧ threads ≤ 2147483647) := by
  rw [parseThreads] at h
  split_ifs at h
  · exact Or.inl (Except.ok.inj h).symm
  · exact Or.inr (parseInt_eq_ok_iff.mp h).1

/-- The sides of a block are in range. -/
lemma parseBlockSize_range {val : List Char} {x y : ℕ} (h : parseBlockSize val = .ok (x, y)) :
    (8 ≤ x ∧ x ≤ 65535) ∧ 8 ≤ y ∧ y ≤ 65535 := by
  have hside : ∀ {num : Numeral} {n : ℕ}, blockRange.HoldsNarrowed num → (n : ℤ) = i32 num.value →
      8 ≤ n ∧ n ≤ 65535 := by
    rintro num n ⟨-, hlo, hhi⟩ hn
    have hlo' : 8 ≤ i32 num.value := hlo
    have hhi' : i32 num.value ≤ 65535 := hhi
    omega
  obtain ⟨num, -, hnum, hx, hy⟩ | ⟨num, num', -, ⟨hnum, hnum'⟩, hx, hy⟩ :=
    parseBlockSize_eq_ok_iff.mp h
  · exact ⟨hside hnum hx, hside hnum hy⟩
  · exact ⟨hside hnum hx, hside hnum' hy⟩

/-- `--rsched` keeps the sizes of the histograms in range. -/
lemma parseRsched_sizeInRange {arg : List Char} {rsched : ArgRsched} {r : ℤ × ArgRsched}
    (hsize : ∀ name, SizeInRange (rsched.hist name)) (h : parseRsched arg rsched = .ok r) :
    ∀ name, SizeInRange (r.2.hist name) := by
  obtain ⟨-, set, -, opts, -, hist, -, -, hfold, rfl⟩ := parseRsched_eq_ok_iff.mp h
  have hhist : SizeInRange hist :=
    foldlM_induct (fun _ _ _ hb hopt => parseHistOpt_sizeInRange hb hopt) (hsize set) hfold
  intro name
  have hrun := hsize .runHist
  have htask := hsize .taskHist
  have hpayload := hsize .payloadHist
  cases set <;> cases name <;> assumption

/-- **An option keeps the ranges.** -/
lemma parseOpt_inRange {key : OptKey} {arg : List Char} {args args' : Arguments}
    (hargs : args.InRange) (h : parseOpt key arg args = .ok args') : args'.InRange := by
  cases key with
  | w =>
      obtain ⟨n, hn, rfl⟩ := bind_pure_eq_ok_iff.mp h
      exact { hargs with width := toNat_range (a := 512) (b := 65535) (parseIntOption_range hn) }
  | h =>
      obtain ⟨n, hn, rfl⟩ := bind_pure_eq_ok_iff.mp h
      exact { hargs with height := toNat_range (a := 512) (b := 65535) (parseIntOption_range hn) }
  | x =>
      obtain ⟨n, hn, rfl⟩ := bind_pure_eq_ok_iff.mp h
      have hside := toNat_range (a := 512) (b := 65535) (parseIntOption_range hn)
      exact { hargs with width := hside, height := hside }
  | i =>
      obtain ⟨n, hn, rfl⟩ := bind_pure_eq_ok_iff.mp h
      exact { hargs with bailout := toNat_range (a := 1) (b := 65535) (parseIntOption_range hn) }
  | b =>
      obtain ⟨⟨x, y⟩, hxy, h⟩ := bind_eq_ok_iff.mp h
      obtain rfl := Except.ok.inj h
      obtain ⟨hx, hy⟩ := parseBlockSize_range (readOption_eq_ok_iff.mp hxy)
      exact { hargs with blockSizeX := hx, blockSizeY := hy }
  | t =>
      obtain ⟨n, hn, rfl⟩ := bind_pure_eq_ok_iff.mp h
      exact { hargs with
        threads := parseThreads_range (readValue_eq_ok_iff.mp (readOption_eq_ok_iff.mp hn)) }
  | mode =>
      obtain ⟨mode, -, rfl⟩ := bind_pure_eq_ok_iff.mp h
      exact { hargs with }
  | benchRuns | benchmark =>
      obtain ⟨n, hn, rfl⟩ := bind_pure_eq_ok_iff.mp h
      exact { hargs with benchmarkRuns := parseIntOption_range hn }
  | colors =>
      obtain ⟨colors, -, rfl⟩ := bind_pure_eq_ok_iff.mp h
      exact { hargs with }
  | rsched =>
      obtain ⟨⟨ret, rsched⟩, hr, h⟩ := bind_eq_ok_iff.mp h
      obtain rfl := Except.ok.inj h
      exact { hargs with
        histSize := parseRsched_sizeInRange hargs.histSize
          (readValue_eq_ok_iff.mp (readOption_eq_ok_iff.mp hr)) }
  | krnList => cases h
  | k | render | q | s | v | o =>
      obtain rfl := Except.ok.inj h
      exact { hargs with }

/-- The defaults are in range. -/
lemma argsDefault_inRange (ndebug : Bool) : (argsDefault ndebug).InRange where
  width := by norm_num [argsDefault]
  height := by norm_num [argsDefault]
  bailout := by norm_num [argsDefault]
  blockSizeX := by norm_num [argsDefault]
  blockSizeY := by norm_num [argsDefault]
  threads := Or.inl rfl
  benchmarkRuns := by norm_num [argsDefault]
  histSize name := by cases name <;> exact nofun

/-- **Everything the program is started with is in range.** -/
theorem argsParse_inRange {ndebug : Bool} {seen : List (OptKey × List Char)} {args : Arguments}
    (h : argsParse ndebug seen = .ok args) : args.InRange :=
  foldlM_induct (fun _ _ _ hb hopt => parseOpt_inRange hb hopt) (argsDefault_inRange ndebug) h

/-- The sizes of a frame and of its blocks. -/
def Arguments.frameArgs (args : Arguments) (h : args.InRange) : FrameArgs where
  width := args.width
  height := args.height
  blockSize := ⟨args.blockSizeX, args.blockSizeY⟩
  width_ge := h.width.1
  width_le := h.width.2
  height_ge := h.height.1
  height_le := h.height.2
  blockX_ge := h.blockSizeX.1
  blockX_le := h.blockSizeX.2
  blockY_ge := h.blockSizeY.1
  blockY_le := h.blockSizeY.2

end Mdb
