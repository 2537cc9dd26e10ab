import Mathlib.Data.List.GetD
import Mathlib.Tactic.Choose
import Mathlib.Data.Nat.Find
import Mathlib.Order.Basic

/-!
Step systems: a partial step function, its finite runs and its infinite executions.

A concurrent program is given by one deterministic function `step`: the action names the thread
that moves and resolves what that thread leaves open, so a list of actions is an interleaving.

* `run_induct`: an invariant that every step keeps holds after every run;
* `run_induct_of_meets`: the same for the runs all of whose steps meet a condition (`Meets`),
  which may read the state before the step and the action;
* `forall_reached_iff_meets`: a run keeps a property throughout iff all its steps meet the
  condition under which one step keeps it;
* `exists_run_iff_meets`: a run gets through iff all its steps meet the condition under which one
  step does;
* `Execution.eventually_of_rank`: along an infinite execution, a rank that no step raises and
  that infinitely many steps lower brings the goal about.
-/

/-- A step function: `step s a` is the state after the action `a`, `none` where `a` cannot be
taken in `s`. -/
structure StepSystem (σ α : Type*) where
  step : σ → α → Option σ

namespace StepSystem

variable {σ α : Type*} (S : StepSystem σ α)

/-! ### Finite runs -/

/-- The state after a list of actions, `none` once one of them cannot be taken. -/
def run : σ → List α → Option σ
  | s, [] => some s
  | s, a :: as => (S.step s a).bind fun s' => run s' as

@[simp] lemma run_nil (s : σ) : S.run s [] = some s := rfl

lemma run_cons (s : σ) (a : α) (as : List α) :
    S.run s (a :: as) = (S.step s a).bind fun s' => S.run s' as := rfl

lemma run_cons_of_step {s s' : σ} {a : α} (h : S.step s a = some s') (as : List α) :
    S.run s (a :: as) = S.run s' as := by
  rw [run_cons, h, Option.bind_some]

@[simp] lemma run_singleton (s : σ) (a : α) : S.run s [a] = S.step s a := by
  rw [run_cons]
  cases S.step s a <;> rfl

lemma run_append (s : σ) (as bs : List α) :
    S.run s (as ++ bs) = (S.run s as).bind fun s' => S.run s' bs := by
  induction as generalizing s with
  | nil => rfl
  | cons a as ih =>
      rw [List.cons_append, run_cons, run_cons, Option.bind_assoc]
      exact congrArg _ (funext fun s' => ih s')

/-- Two runs that meet at a state compose. -/
lemma run_trans {s t u : σ} {as bs : List α} (h₁ : S.run s as = some t)
    (h₂ : S.run t bs = some u) : S.run s (as ++ bs) = some u := by
  rw [run_append, h₁, Option.bind_some, h₂]

/-- What holds at the start and is kept by every step holds after every run. -/
theorem run_induct {P : σ → Prop} (hstep : ∀ s a s', P s → S.step s a = some s' → P s') :
    ∀ {s s' : σ} {as : List α}, P s → S.run s as = some s' → P s' := by
  intro s s' as
  induction as generalizing s with
  | nil =>
      intro hs h
      rw [run_nil, Option.some.injEq] at h
      exact h ▸ hs
  | cons a as ih =>
      intro hs h
      rw [run_cons, Option.bind_eq_some_iff] at h
      obtain ⟨t, hst, hrun⟩ := h
      exact ih (hstep s a t hs hst) hrun

/-! ### Conditions on the steps of a run -/

/-- Every step of the run meets `C`, a condition on the state before the step and the action. -/
def Meets (C : σ → α → Prop) : σ → List α → Prop
  | _, [] => True
  | s, a :: as => C s a ∧ ∀ s', S.step s a = some s' → Meets C s' as

lemma Meets.cons_of_step {C : σ → α → Prop} {s s' : σ} {a : α} {as : List α} (hC : C s a)
    (hstep : S.step s a = some s') (h : S.Meets C s' as) : S.Meets C s (a :: as) :=
  ⟨hC, fun t ht => by rw [hstep, Option.some.injEq] at ht; exact ht ▸ h⟩

/-- A decidable condition can be checked along a run. -/
instance decidableMeets (C : σ → α → Prop) [∀ s a, Decidable (C s a)] :
    ∀ s as, Decidable (S.Meets C s as)
  | _, [] => isTrue trivial
  | s, a :: as =>
      match h : S.step s a with
      | none => decidable_of_iff (C s a) (by simp [Meets, h])
      | some t =>
          have := decidableMeets C t as
          decidable_of_iff (C s a ∧ S.Meets C t as) (by simp [Meets, h])

/-- The invariant rule for the runs whose steps all meet a condition. -/
theorem run_induct_of_meets {P : σ → Prop} {C : σ → α → Prop}
    (hstep : ∀ s a s', P s → C s a → S.step s a = some s' → P s') :
    ∀ {s s' : σ} {as : List α}, P s → S.Meets C s as → S.run s as = some s' → P s' := by
  intro s s' as
  induction as generalizing s with
  | nil =>
      intro hs _ h
      rw [run_nil, Option.some.injEq] at h
      exact h ▸ hs
  | cons a as ih =>
      intro hs hC h
      rw [run_cons, Option.bind_eq_some_iff] at h
      obtain ⟨t, hst, hrun⟩ := h
      exact ih (hstep s a t hs hC.1 hst) (hC.2 t hst) hrun

/-- What only the steps that meet `C` keep, and no step restores, holds at the end of a run iff it
holds at the start and all steps meet `C`. -/
theorem reached_iff_meets {P : σ → Prop} {C : σ → α → Prop}
    (hstep : ∀ s a s', S.step s a = some s' → (P s' ↔ P s ∧ C s a)) {as : List α} :
    ∀ {s s' : σ}, S.run s as = some s' → (P s' ↔ P s ∧ S.Meets C s as) := by
  induction as with
  | nil =>
      intro s s' hrun
      rw [run_nil, Option.some.injEq] at hrun
      subst hrun
      exact (and_iff_left trivial).symm
  | cons a as ih =>
      intro s s' hrun
      rw [run_cons, Option.bind_eq_some_iff] at hrun
      obtain ⟨t, hst, hrun⟩ := hrun
      rw [ih hrun, hstep s a t hst, and_assoc, Meets]
      simp only [hst, Option.some.injEq, forall_eq']

/-- **What holds throughout a run, exactly.** Where a step can always be taken, and from a state
with the invariant `I` leads to one with `Q` iff it meets `C`, and to one with `I` if it leads to
one with `Q`, all states of a run have `Q` iff all its steps meet `C`. -/
theorem forall_reached_iff_meets_of_invariant {I Q : σ → Prop} {C : σ → α → Prop}
    (htotal : ∀ s a, ∃ s', S.step s a = some s')
    (hstep : ∀ s a s', I s → S.step s a = some s' → (Q s' ↔ C s a))
    (hkeep : ∀ s a s', I s → S.step s a = some s' → Q s' → I s') {as : List α} :
    ∀ {s : σ}, I s → Q s →
      ((∀ pre s', pre <+: as → S.run s pre = some s' → Q s') ↔ S.Meets C s as) := by
  induction as with
  | nil =>
      intro s _ hs
      refine ⟨fun _ => trivial, fun _ pre s' hpre hrun => ?_⟩
      rw [List.prefix_nil.mp hpre, run_nil, Option.some.injEq] at hrun
      exact hrun ▸ hs
  | cons a as ih =>
      intro s hI hs
      obtain ⟨t, hst⟩ := htotal s a
      constructor
      · intro h
        have ht : Q t := h [a] t (List.prefix_cons_inj a |>.mpr as.nil_prefix) (by simpa using hst)
        have hIt : I t := hkeep s a t hI hst ht
        refine Meets.cons_of_step S ((hstep s a t hI hst).mp ht) hst ((ih hIt ht).mp ?_)
        intro pre s' hpre hrun
        exact h (a :: pre) s' ((List.prefix_cons_inj a).mpr hpre)
          (by rw [S.run_cons_of_step hst, hrun])
      · rintro ⟨hC, hrest⟩ pre s' hpre hrun
        have ht : Q t := (hstep s a t hI hst).mpr hC
        rcases List.prefix_cons_iff.mp hpre with rfl | ⟨pre, rfl, hpre'⟩
        · rw [run_nil, Option.some.injEq] at hrun
          exact hrun ▸ hs
        · rw [S.run_cons_of_step hst] at hrun
          exact (ih (hkeep s a t hI hst ht) ht).mpr (hrest t hst) pre s' hpre' hrun

/-- The same for a property that is its own invariant. -/
theorem forall_reached_iff_meets {P : σ → Prop} {C : σ → α → Prop}
    (htotal : ∀ s a, ∃ s', S.step s a = some s')
    (hstep : ∀ s a s', P s → S.step s a = some s' → (P s' ↔ C s a)) {as : List α} {s : σ}
    (hs : P s) :
    (∀ pre s', pre <+: as → S.run s pre = some s' → P s') ↔ S.Meets C s as :=
  S.forall_reached_iff_meets_of_invariant htotal hstep (fun _ _ _ _ _ h => h) hs hs

/-- **Runs that get through, exactly.** Where a step that meets `D` can be taken from a state with
`P` only if it meets `C`, and then leads to a state with `P`, a run of such steps gets through iff
all of them meet `C`. -/
theorem exists_run_iff_meets {P : σ → Prop} {C D : σ → α → Prop}
    (hneed : ∀ {s a s'}, P s → S.step s a = some s' → C s a)
    (hok : ∀ {s a}, P s → D s a → C s a → ∃ s', S.step s a = some s' ∧ P s') {as : List α} :
    ∀ {s : σ}, P s → S.Meets D s as →
      ((∃ s', S.run s as = some s' ∧ P s') ↔ S.Meets C s as) := by
  induction as with
  | nil => exact fun h _ => ⟨fun _ => trivial, fun _ => ⟨_, rfl, h⟩⟩
  | cons a as ih =>
      intro s h hD
      constructor
      · rintro ⟨s', hrun, hs'⟩
        rw [run_cons, Option.bind_eq_some_iff] at hrun
        obtain ⟨t, hst, hrun⟩ := hrun
        have hC := hneed h hst
        obtain ⟨t', ht', hP⟩ := hok h hD.1 hC
        obtain rfl : t = t' := Option.some.inj (hst.symm.trans ht')
        exact Meets.cons_of_step S hC hst ((ih hP (hD.2 t hst)).mp ⟨s', hrun, hs'⟩)
      · rintro ⟨hC, hrest⟩
        obtain ⟨t, hst, hP⟩ := hok h hD.1 hC
        rw [S.run_cons_of_step hst]
        exact (ih hP (hD.2 t hst)).mpr (hrest t hst)

/-- A run meets a condition if each of its steps does, read at the state its prefix reaches. -/
lemma meets_of_forall_reached {C : σ → α → Prop} {s : σ} {as : List α}
    (h : ∀ pre a suf t, as = pre ++ a :: suf → S.run s pre = some t → C t a) :
    S.Meets C s as := by
  induction as generalizing s with
  | nil => trivial
  | cons a as ih =>
      refine ⟨h [] a as s rfl rfl, fun s' hs' => ih fun pre b suf t has hrun => ?_⟩
      refine h (a :: pre) b suf t (by rw [has]; rfl) ?_
      rw [S.run_cons_of_step hs', hrun]

/-- The steps of a prefix meet what the steps of the whole run meet. -/
lemma Meets.left {C : σ → α → Prop} {s : σ} {as bs : List α}
    (h : S.Meets C s (as ++ bs)) : S.Meets C s as := by
  induction as generalizing s with
  | nil => trivial
  | cons a as ih => exact ⟨h.1, fun s' hs' => ih (h.2 s' hs')⟩

/-- The step after a prefix meets the condition at the state the prefix reaches. -/
lemma Meets.at {C : σ → α → Prop} {s t : σ} {as bs : List α} {a : α}
    (h : S.Meets C s (as ++ a :: bs)) (hrun : S.run s as = some t) : C t a := by
  induction as generalizing s with
  | nil =>
      rw [run_nil, Option.some.injEq] at hrun
      exact hrun ▸ h.1
  | cons b as ih =>
      rw [run_cons, Option.bind_eq_some_iff] at hrun
      obtain ⟨u, hsu, hut⟩ := hrun
      exact ih (h.2 u hsu) hut

/-- An infinite execution: states and actions, each state the step of the one before. -/
structure Execution where
  st : ℕ → σ
  act : ℕ → α
  steps : ∀ k, S.step (st k) (act k) = some (st (k + 1))

/-- A finite run that ends where some action changes nothing goes on for ever. -/
lemma exists_execution {s t : σ} {as : List α} {a : α} (hrun : S.run s as = some t)
    (hstay : S.step t a = some t) :
    ∃ e : S.Execution, (∀ k, S.run s (as.take k) = some (e.st k)) ∧ ∀ k, e.act k = as.getD k a := by
  have htake : ∀ k, ∃ u, S.run s (as.take k) = some u := fun k => by
    rw [← List.take_append_drop k as, run_append, Option.bind_eq_some_iff] at hrun
    obtain ⟨u, hu, -⟩ := hrun
    exact ⟨u, hu⟩
  choose st hst using htake
  refine ⟨⟨st, fun k => as.getD k a, fun k => ?_⟩, hst, fun _ => rfl⟩
  by_cases hk : k < as.length
  · have hnext := hst (k + 1)
    rw [List.take_add_one, run_append, hst k, Option.bind_some, List.getElem?_eq_getElem hk,
      Option.toList_some, run_singleton] at hnext
    rwa [List.getD_eq_getElem _ _ hk]
  · have hend : ∀ m, as.length ≤ m → st m = t := fun m hm => by
      have hm' := hst m
      rw [List.take_of_length_le hm, hrun, Option.some.injEq] at hm'
      exact hm'.symm
    rw [hend k (by omega), hend (k + 1) (by omega), List.getD_eq_default _ _ (by omega)]
    exact hstay

namespace Execution

variable {S} (e : S.Execution)

/-- The invariant rule along an execution whose steps all meet a condition. -/
lemma induct {P : σ → Prop} {C : σ → α → Prop}
    (hstep : ∀ s a s', P s → C s a → S.step s a = some s' → P s') (h₀ : P (e.st 0))
    (hC : ∀ k, C (e.st k) (e.act k)) : ∀ k, P (e.st k) := by
  intro k
  induction k with
  | zero => exact h₀
  | succ k ih => exact hstep _ _ _ ih (hC k) (e.steps k)

/-- **The rank rule.** While `P` holds each step either is the goal or keeps `P` without raising
the rank, and the steps marked by `progress`, of which there are infinitely many, lower it. Then
from every time at which `P` holds the goal is reached, and `P` holds up to it. -/
theorem eventually_of_rank {P : σ → Prop} {goal progress : ℕ → Prop} (rank : σ → ℕ)
    (hinf : ∀ n, ∃ m, n ≤ m ∧ progress m)
    (hstep : ∀ k, P (e.st k) → goal k ∨
      (P (e.st (k + 1)) ∧ rank (e.st (k + 1)) ≤ rank (e.st k) ∧
        (progress k → rank (e.st (k + 1)) < rank (e.st k)))) :
    ∀ {n}, P (e.st n) → ∃ m, n ≤ m ∧ goal m ∧ ∀ k, n ≤ k → k ≤ m → P (e.st k) := by
  intro n hn
  generalize hr : rank (e.st n) = r
  induction r using Nat.strong_induction_on generalizing n with
  | _ r ih =>
      by_contra hno
      push Not at hno
      -- without the goal, `P` and the rank bound persist for ever
      have hkeep : ∀ d, (∀ k, n ≤ k → k ≤ n + d → P (e.st k)) ∧ rank (e.st (n + d)) ≤ r := by
        intro d
        induction d with
        | zero =>
            refine ⟨fun k h₁ h₂ => ?_, hr.le⟩
            rw [show k = n by omega]
            exact hn
        | succ d ihd =>
            obtain ⟨hP, hle⟩ := ihd
            have hnog : ¬ goal (n + d) := fun hg => by
              obtain ⟨k, h₁, h₂, h₃⟩ := hno (n + d) (by omega) hg
              exact h₃ (hP k h₁ h₂)
            obtain ⟨h₁, h₂, -⟩ := (hstep _ (hP _ (by omega) le_rfl)).resolve_left hnog
            refine ⟨fun k hk₁ hk₂ => ?_, h₂.trans hle⟩
            by_cases hk : k = n + (d + 1)
            · exact hk ▸ h₁
            · exact hP k hk₁ (by omega)
      -- at the first marked step from `n` on the rank drops below `r`
      obtain ⟨m, hnm, hm⟩ := hinf n
      obtain ⟨d, rfl⟩ := Nat.exists_eq_add_of_le hnm
      obtain ⟨hP, hle⟩ := hkeep d
      have hnog : ¬ goal (n + d) := fun hg => by
        obtain ⟨k, h₁, h₂, h₃⟩ := hno (n + d) (by omega) hg
        exact h₃ (hP k h₁ h₂)
      obtain ⟨h₁, -, h₃⟩ := (hstep _ (hP _ (by omega) le_rfl)).resolve_left hnog
      obtain ⟨m, hm₁, hm₂, hm₃⟩ := ih _ (lt_of_lt_of_le (h₃ hm) hle) h₁ rfl
      obtain ⟨k, hk₁, hk₂, hk₃⟩ := hno m (by omega) hm₂
      by_cases hk : k ≤ n + d
      · exact hk₃ (hP k hk₁ hk)
      · exact hk₃ (hm₃ k (by omega) hk₂)

end Execution

end StepSystem
