import Mathlib.Data.Prod.Lex
import Mdb.Library.StepSystem

/-!
What a step system can be brought to: `Reaches C Q s` says that some run from `s`, all of whose
actions are in `C`, ends in a state with `Q`.

* `reaches_of_stages`, `reaches_of_variant`: the variant rule, with a variant in any well-founded
  order, for stages of several steps and for single ones;
* `Reaches.lift`: what an abstract system can be brought to, so can every system that can make up
  for each step of it.
-/

namespace StepSystem

variable {σ α : Type*} (S : StepSystem σ α) {C : α → Prop} {Q R : σ → Prop} {s s' : σ}

/-- Some run from the state whose actions are all in `C` ends in a state with `Q`. -/
def Reaches (C : α → Prop) (Q : σ → Prop) (s : σ) : Prop :=
  ∃ as t, (∀ a ∈ as, C a) ∧ S.run s as = some t ∧ Q t

variable {S}

lemma Reaches.refl (h : Q s) : S.Reaches C Q s :=
  ⟨[], s, fun _ ha => absurd ha List.not_mem_nil, rfl, h⟩

lemma Reaches.trans (h : S.Reaches C Q s) (hQ : ∀ t, Q t → S.Reaches C R t) :
    S.Reaches C R s := by
  obtain ⟨as, t, has, hrun, ht⟩ := h
  obtain ⟨bs, u, hbs, hrun', hu⟩ := hQ t ht
  refine ⟨as ++ bs, u, fun a ha => ?_, S.run_trans hrun hrun', hu⟩
  rcases List.mem_append.mp ha with ha | ha
  · exact has a ha
  · exact hbs a ha

lemma Reaches.mono (h : S.Reaches C Q s) (hQ : ∀ t, Q t → R t) : S.Reaches C R s :=
  h.trans fun t ht => .refl (hQ t ht)

lemma Reaches.head {a : α} (ha : C a) (hstep : S.step s a = some s') (h : S.Reaches C Q s') :
    S.Reaches C Q s := by
  obtain ⟨as, t, has, hrun, ht⟩ := h
  refine ⟨a :: as, t, fun b hb => ?_, ?_, ht⟩
  · rcases List.mem_cons.mp hb with rfl | hb
    · exact ha
    · exact has b hb
  · rw [run_cons, hstep, Option.bind_some, hrun]

lemma Reaches.single {a : α} (ha : C a) (hstep : S.step s a = some s') (h : Q s') :
    S.Reaches C Q s := .head ha hstep (.refl h)

/-- **The variant rule, in stages.** Where from every state with `P i` the goal is reached, or one
with `P j` for a smaller `j`, the goal is reached from all of them. -/
theorem reaches_of_stages {ι : Type*} [LT ι] [WellFoundedLT ι] {P : ι → σ → Prop}
    (hstage : ∀ i s, P i s → S.Reaches C (fun t => Q t ∨ ∃ j < i, P j t) s) {i : ι} (h : P i s) :
    S.Reaches C Q s := by
  induction i using WellFoundedLT.induction generalizing s with
  | _ i ih =>
      refine (hstage i s h).trans fun t ht => ?_
      rcases ht with hQ | ⟨j, hj, hP⟩
      · exact .refl hQ
      · exact ih j hj hP

/-- The variant rule, step by step. -/
theorem reaches_of_variant {ι : Type*} [LT ι] [WellFoundedLT ι] {P : ι → σ → Prop}
    (hstep : ∀ i s, P i s → ∃ a s', C a ∧ S.step s a = some s' ∧ (Q s' ∨ ∃ j < i, P j s'))
    {i : ι} (h : P i s) : S.Reaches C Q s :=
  reaches_of_stages (fun i s h => by
    obtain ⟨a, s', ha, hst, hnext⟩ := hstep i s h
    exact .single ha hst hnext) h

/-- What holds of a system holds of every system that can make up for each of its steps. -/
theorem Reaches.lift {τ β : Type*} {T : StepSystem τ β} {D : β → Prop} {Q : τ → Prop}
    (proj : σ → τ) {I : σ → Prop}
    (hsim : ∀ s b t, I s → D b → T.step (proj s) b = some t →
      S.Reaches C (fun s' => I s' ∧ proj s' = t) s)
    (hs : I s) (h : T.Reaches D Q (proj s)) :
    S.Reaches C (fun s' => I s' ∧ Q (proj s')) s := by
  obtain ⟨bs, t, hbs, hrun, ht⟩ := h
  induction bs generalizing s with
  | nil =>
      rw [run_nil, Option.some.injEq] at hrun
      exact .refl ⟨hs, hrun ▸ ht⟩
  | cons b bs ih =>
      rw [run_cons, Option.bind_eq_some_iff] at hrun
      obtain ⟨u, hu, hrun⟩ := hrun
      refine (hsim s b u hs (hbs b List.mem_cons_self) hu).trans fun s' ⟨hs', hproj⟩ => ?_
      subst hproj
      exact ih hs' (fun a ha => hbs a (List.mem_cons_of_mem b ha)) hrun

end StepSystem
