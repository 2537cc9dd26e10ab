import Mdb.Tools.RschedLanguage

/-!
The buffers of `parse_hist_opts` (`tools/args_parser.c`).

`parse_sub_key_val` copies a key and a value of any length into two buffers of 64 characters.
`histOptsWrites` lists the indices it writes to, round by round. A round that writes outside a
buffer is undefined from there on, and a round that exits is the last one.

`parse_hist_opts_buffers_iff`: the loop ends and stays inside its buffers exactly for the strings
whose options fit up to the first one that is rejected.
-/

namespace Mdb

/-- The indices that `parse_sub_key_val` writes to in the buffer of the key and in that of the
value. -/
structure SubKeyValWrites where
  key : List ℕ
  val : List ℕ

namespace SubKeyValWrites

/-- All writes are to the 64 characters of the buffers. -/
def Inside (w : SubKeyValWrites) : Prop := (∀ i ∈ w.key, i < 64) ∧ ∀ i ∈ w.val, i < 64

end SubKeyValWrites

/-- `memcpy` of `n` characters to the begin of a buffer, and the terminating zero behind them. -/
def copyWrites (n : ℕ) : List ℕ := List.range n ++ [n]

/-- The writes of `parse_sub_key_val`. -/
def subKeyValWrites (arg : List Char) : SubKeyValWrites :=
  match strchr arg '=' with
  | none => ⟨[], []⟩
  | some sep =>
      let stop := (strchr sep ',').getD []
      let valStart := sep.tail
      ⟨copyWrites (arg.length - sep.length), copyWrites (valStart.length - stop.length)⟩

/-- The writes of the rounds of `parse_hist_opts`, with a bound on the rounds. -/
def histOptsWrites : ℕ → List Char → ArgRschedHist → Option (List SubKeyValWrites)
  | 0, _, _ => none
  | fuel + 1, nextOpt, hist =>
      if nextOpt = [] then some []
      else
        match parseSubKeyVal nextOpt with
        | .error _ => some [subKeyValWrites nextOpt]
        | .ok (key, val, next) =>
            match parseHistOpt key val hist with
            | .error _ => some [subKeyValWrites nextOpt]
            | .ok hist => (subKeyValWrites nextOpt :: ·) <$> histOptsWrites fuel next hist

/-- The loop of `parse_hist_opts` ends, and every write is inside its buffer. -/
def StaysInBuffers (arg : List Char) : Prop :=
  ∀ hist fuel, arg.length < fuel →
    ∃ ws, histOptsWrites fuel arg hist = some ws ∧ ∀ w ∈ ws, w.Inside

/-- The value of an option is taken, if its key is one of the five. -/
def SubOption.Taken (opt : SubOption) : Prop := ∀ k : HistKey, opt.key = k.label → k.Takes opt.val

/-- Options, each with a comma behind it. -/
def optionsBefore (opts : List SubOption) : List Char := opts.flatMap fun opt => opt.chars ++ [',']

/-- Every option behind options that fit and are taken fits. -/
def FitsWhileTaken (arg : List Char) : Prop :=
  ∀ (opts : List SubOption) (opt : SubOption) (next : Option (List Char)),
    arg = optionsBefore opts ++ (opt.chars ++ afterOption next) →
    (∀ o ∈ opts, o.Fits ∧ o.Taken) → opt.Fits

/-! ### One round -/

lemma copyWrites_inside {n : ℕ} : (∀ i ∈ copyWrites n, i < 64) ↔ n < 64 := by
  simp only [copyWrites, List.mem_append, List.mem_range, List.mem_singleton]
  refine ⟨fun h => h n (Or.inr rfl), fun h i hi => ?_⟩
  rcases hi with hi | rfl
  · exact hi.trans h
  · exact h

/-- An option is written as long as it is. -/
lemma subKeyValWrites_chars (opt : SubOption) (next : Option (List Char)) :
    (subKeyValWrites (opt.chars ++ afterOption next)).Inside ↔ opt.Fits := by
  obtain ⟨hkey, hval⟩ : (subKeyValWrites (opt.chars ++ afterOption next)).key
      = copyWrites opt.key.length ∧ (subKeyValWrites (opt.chars ++ afterOption next)).val
        = copyWrites opt.val.length := by
    obtain ⟨hsep, hstop⟩ := strchr_chars opt next
    rw [subKeyValWrites, hsep]
    simp only [hstop, SubOption.chars]
    simp
  rw [SubKeyValWrites.Inside, hkey, hval, copyWrites_inside, copyWrites_inside, SubOption.Fits]

/-! ### The options in front of a round -/

section FitsWhileTaken

variable {opt : SubOption} {next : Option (List Char)}

lemma optionsBefore_cons (opt : SubOption) (opts : List SubOption) (s : List Char) :
    optionsBefore (opt :: opts) ++ s
      = opt.chars ++ afterOption (some (optionsBefore opts ++ s)) := by
  simp [optionsBefore, afterOption]

/-- Options at the begin of a string begin with its first option. -/
lemma first_option {opts : List SubOption} {opt' : SubOption} {next' : Option (List Char)}
    (h : opt.chars ++ afterOption next = optionsBefore opts ++ (opt'.chars ++ afterOption next')) :
    (opts = [] ∧ opt' = opt) ∨ ∃ os, opts = opt :: os ∧
      next = some (optionsBefore os ++ (opt'.chars ++ afterOption next')) := by
  cases opts with
  | nil => exact Or.inl ⟨rfl, (chars_append_inj h).1.symm⟩
  | cons o os =>
      rw [optionsBefore_cons] at h
      obtain ⟨rfl, hnext⟩ := chars_append_inj h
      exact Or.inr ⟨os, rfl, hnext⟩

lemma fits_of_fitsWhileTaken (h : FitsWhileTaken (opt.chars ++ afterOption next)) : opt.Fits :=
  h [] opt next rfl (by simp)

/-- A string without a `=` has no options. -/
lemma fitsWhileTaken_of_no_option {arg : List Char} (h : '=' ∉ arg) : FitsWhileTaken arg := by
  rintro opts opt next rfl -
  simp [SubOption.chars] at h

/-- Nothing behind an option that is rejected is looked at. -/
lemma fitsWhileTaken_of_not_taken (hfits : opt.Fits) (htaken : ¬ opt.Taken) :
    FitsWhileTaken (opt.chars ++ afterOption next) := by
  intro opts opt' next' h hall
  rcases first_option h with ⟨-, rfl⟩ | ⟨os, rfl, -⟩
  · exact hfits
  · exact absurd (hall opt List.mem_cons_self).2 htaken

/-- What is behind an option that is taken is looked at next. -/
lemma fitsWhileTaken_iff_of_taken (hfits : opt.Fits) (htaken : opt.Taken) :
    FitsWhileTaken (opt.chars ++ afterOption next) ↔ FitsWhileTaken (next.getD []) := by
  refine ⟨fun h opts opt' next' hnext hall => ?_, fun h opts opt' next' harg hall => ?_⟩
  · obtain ⟨n, rfl⟩ : ∃ n, next = some n := by
      refine Option.ne_none_iff_exists'.mp fun hnone => ?_
      rw [hnone, Option.getD_none] at hnext
      simp [SubOption.chars] at hnext
    rw [Option.getD_some] at hnext
    refine h (opt :: opts) opt' next' ?_ (List.forall_mem_cons.mpr ⟨⟨hfits, htaken⟩, hall⟩)
    rw [optionsBefore_cons, hnext]
  · rcases first_option harg with ⟨-, rfl⟩ | ⟨os, rfl, rfl⟩
    · exact hfits
    · exact h os opt' next' rfl fun o ho => hall o (List.mem_cons_of_mem _ ho)

end FitsWhileTaken

/-! ### The loop -/

/-- **The writes of the loop**: it ends, and they are inside the buffers exactly if every option
that is reached fits. -/
lemma histOptsWrites_spec {fuel : ℕ} : ∀ {arg : List Char} (hist : ArgRschedHist),
    arg.length < fuel → ∃ ws, histOptsWrites fuel arg hist = some ws ∧
      ((∀ w ∈ ws, w.Inside) ↔ FitsWhileTaken arg) := by
  induction fuel with
  | zero => exact fun _ h => absurd h (Nat.not_lt_zero _)
  | succ fuel ih =>
      intro arg hist hfuel
      by_cases hnil : arg = []
      · subst hnil
        exact ⟨[], rfl, iff_of_true (by simp) (fitsWhileTaken_of_no_option (by simp))⟩
      rw [histOptsWrites, if_neg hnil]
      by_cases heq : '=' ∈ arg
      · obtain ⟨opt, next, rfl⟩ := exists_subOption heq
        by_cases hfits : opt.Fits
        · rw [parseSubKeyVal_of_fits hfits]
          dsimp only
          have hwrites := (subKeyValWrites_chars opt next).mpr hfits
          have htakes : (∃ hist', parseHistOpt opt.key opt.val hist = .ok hist') ↔ opt.Taken :=
            parseHistOpt_takes_iff
          cases hopt : parseHistOpt opt.key opt.val hist with
          | error e =>
              -- the option is rejected, and the program exits
              have hno : ¬ opt.Taken := fun htaken => by
                obtain ⟨hist', hok⟩ := htakes.mpr htaken
                rw [hopt] at hok
                cases hok
              exact ⟨_, rfl, iff_of_true (by simpa using hwrites)
                (fitsWhileTaken_of_not_taken hfits hno)⟩
          | ok hist' =>
              have htaken : opt.Taken := htakes.mp ⟨hist', hopt⟩
              have hlt := length_next_lt opt next
              obtain ⟨ws, hws, hinside⟩ := ih hist'
                (show (next.getD []).length < fuel by omega)
              refine ⟨subKeyValWrites _ :: ws, by dsimp only; rw [hws]; rfl, ?_⟩
              rw [List.forall_mem_cons, and_iff_right hwrites, hinside,
                fitsWhileTaken_iff_of_taken hfits htaken]
        · -- the option is written behind the end of a buffer
          have hover : parseSubKeyVal (opt.chars ++ afterOption next) = .error .overflow := by
            rw [parseSubKeyVal_chars, if_pos]
            rw [SubOption.Fits] at hfits
            omega
          rw [hover]
          refine ⟨_, rfl, iff_of_false ?_ (mt fits_of_fitsWhileTaken hfits)⟩
          simpa using (subKeyValWrites_chars opt next).not.mpr hfits
      · -- there is nothing to cut off, and the program exits
        have hnone := strchr_eq_none_iff.mpr heq
        rw [parseSubKeyVal, subKeyValWrites, hnone]
        exact ⟨_, rfl, iff_of_true (by simp [SubKeyValWrites.Inside])
          (fitsWhileTaken_of_no_option heq)⟩

/-- **Histogram options stay in their buffers** exactly if every option behind options that fit and
are taken has a key and a value of less than 64 characters. -/
theorem parse_hist_opts_buffers_iff (arg : List Char) : StaysInBuffers arg ↔ FitsWhileTaken arg := by
  refine ⟨fun h => ?_, fun h hist fuel hfuel => ?_⟩
  · obtain ⟨ws, hws, hinside⟩ :=
      histOptsWrites_spec unsetOptions.runHist (Nat.lt_succ_self arg.length)
    obtain ⟨ws', hws', hall⟩ := h unsetOptions.runHist _ (Nat.lt_succ_self _)
    obtain rfl := Option.some.inj (hws.symm.trans hws')
    exact hinside.mp hall
  · obtain ⟨ws, hws, hinside⟩ := histOptsWrites_spec hist hfuel
    exact ⟨ws, hws, hinside.mpr h⟩

/-- An option with a key of 64 characters. -/
def longKey : SubOption where
  key := List.replicate 64 'k'
  val := ['1']
  key_no_eq := by decide
  val_no_comma := by decide

/-- A key of 64 characters needs a 65th for its end. -/
theorem parse_hist_opts_overflows : ¬ ∀ arg, StaysInBuffers arg := by
  intro h
  obtain ⟨ws, hws, hall⟩ := h (longKey.chars ++ afterOption none) unsetOptions.runHist _
    (Nat.lt_succ_self _)
  obtain ⟨ws', hws', hinside⟩ := histOptsWrites_spec unsetOptions.runHist
    (Nat.lt_succ_self (longKey.chars ++ afterOption none).length)
  obtain rfl := Option.some.inj (hws.symm.trans hws')
  have hfits := fits_of_fitsWhileTaken (hinside.mp hall)
  exact absurd hfits.1 (by decide)

end Mdb
