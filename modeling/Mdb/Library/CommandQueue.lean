import Mathlib.Tactic

/-!
A device that carries out commands in the order they are issued in, and at its own pace.

The commands wait in a queue. A step of the device does a piece of the first one, and may read a
memory that others store into meanwhile. A fence is a command that does nothing; it is signalled
once the device has passed it.

* `flush` is what the device comes to with all that is waiting. It stays the same as the device
  goes on (`flush_step`), a new command acts on it as on a device without a queue (`flush_issue`),
  and the memory matters to it only while a command that reads is waiting (`flush_congr`);
* `Only` says that parts of one command are all that is waiting, so that what they leave alone stays
  as it is (`Only.flush`);
* `Fenced` says that nothing that reads has been issued behind a fence, so that once the fence is
  signalled no command is left that does (`Fenced.still`);
* `waiting_step`: left alone, the device comes to the end of its queue.
-/

namespace Mdb

/-- A device: `exec` does a piece of a command, with what is left of it, if anything. -/
structure Device (μ κ σ : Type*) where
  exec : μ → κ → σ → Option κ × σ
  size : κ → ℕ
  exec_size : ∀ {m k d k'}, (exec m k d).1 = some k' → size k' < size k
  Reads : κ → Prop
  exec_congr : ∀ {k}, ¬Reads k → ∀ m m' d, exec m k d = exec m' k d
  exec_reads : ∀ {m k d k'}, (exec m k d).1 = some k' → Reads k' → Reads k

/-- What waits in the queue of a device. -/
inductive Command (κ : Type*) where
  | work (k : κ)
  | fence (id : ℕ)

/-- A device with its queue; the fences are numbered in the order they are issued in. -/
structure CommandQueue (κ σ : Type*) where
  pending : List (Command κ)
  fences : ℕ
  device : σ

/-- A command as a whole. -/
def Device.run {μ κ σ : Type*} (D : Device μ κ σ) (m : μ) (k : κ) (d : σ) : σ :=
  match _h : (D.exec m k d).1 with
  | none => (D.exec m k d).2
  | some k' => D.run m k' (D.exec m k d).2
  termination_by D.size k
  decreasing_by exact D.exec_size ‹_›

section Run

variable {μ κ σ : Type*} {D : Device μ κ σ}

lemma Device.run_of_none {m : μ} {k : κ} {d : σ} (h : (D.exec m k d).1 = none) :
    D.run m k d = (D.exec m k d).2 := by
  rw [Device.run]
  split
  · rfl
  · rename_i k' h'
    cases h.symm.trans h'

lemma Device.run_of_some {m : μ} {k k' : κ} {d : σ} (h : (D.exec m k d).1 = some k') :
    D.run m k d = D.run m k' (D.exec m k d).2 := by
  rw [Device.run]
  split
  · rename_i h'
    cases h.symm.trans h'
  · rename_i k'' h'
    obtain rfl := Option.some.inj (h.symm.trans h')
    rfl

/-- What every piece of a command adds to is added to by the whole. -/
lemma Device.rel_run {R : σ → σ → Prop}
    (htrans : ∀ {a b c}, R a b → R b c → R a c) (hexec : ∀ m k d, R d (D.exec m k d).2) (m : μ)
    (k : κ) (d : σ) : R d (D.run m k d) := by
  induction hn : D.size k using Nat.strong_induction_on generalizing k d with
  | _ n ih =>
      cases h : (D.exec m k d).1 with
      | none => exact run_of_none h ▸ hexec m k d
      | some k' =>
          rw [run_of_some h]
          exact htrans (hexec m k d) (ih _ (hn ▸ D.exec_size h) _ _ rfl)

/-- What may be left of a command as it is carried out; at first all of it. -/
inductive Device.Part (D : Device μ κ σ) (k : κ) : κ → Prop
  | whole : D.Part k k
  | rest {m : μ} {k' k'' : κ} {d : σ} (h : D.Part k k') (hexec : (D.exec m k' d).1 = some k'') :
      D.Part k k''

/-- What the parts of a command leave alone, the command does. -/
lemma Device.run_part {β : Type*} {obs : σ → β} {k : κ}
    (hobs : ∀ m k' d, D.Part k k' → obs (D.exec m k' d).2 = obs d) {k' : κ} (hk : D.Part k k')
    (m : μ) (d : σ) : obs (D.run m k' d) = obs d := by
  induction hn : D.size k' using Nat.strong_induction_on generalizing k' d with
  | _ n ih =>
      cases h : (D.exec m k' d).1 with
      | none => rw [run_of_none h, hobs m k' d hk]
      | some k'' =>
          rw [run_of_some h, ih _ (hn ▸ D.exec_size h) (hk.rest h) _ rfl, hobs m k' d hk]

lemma Device.run_congr {k : κ} (hk : ¬D.Reads k) (m m' : μ) (d : σ) :
    D.run m k d = D.run m' k d := by
  induction hn : D.size k using Nat.strong_induction_on generalizing k d with
  | _ n ih =>
      have hexec := D.exec_congr hk m m' d
      cases h : (D.exec m k d).1 with
      | none => rw [run_of_none h, run_of_none (hexec ▸ h), hexec]
      | some k' =>
          have h' : (D.exec m' k d).1 = some k' := by rw [← hexec, h]
          rw [run_of_some h, run_of_some h', ← hexec]
          exact ih _ (hn ▸ D.exec_size h) (fun hreads => hk (D.exec_reads h hreads)) _ rfl

end Run

namespace CommandQueue

variable {μ κ σ : Type*}

/-- A command joins the queue. -/
def issue (q : CommandQueue κ σ) (k : κ) : CommandQueue κ σ :=
  { q with pending := q.pending ++ [.work k] }

/-- A fence joins the queue. -/
def fence (q : CommandQueue κ σ) : CommandQueue κ σ :=
  { q with pending := q.pending ++ [.fence q.fences], fences := q.fences + 1 }

/-- Whether a command is a given fence. -/
def isFence (f : ℕ) : Command κ → Bool
  | .work _ => false
  | .fence id => decide (id = f)

/-- The device has passed the fence. -/
def signaled (q : CommandQueue κ σ) (f : ℕ) : Bool :=
  decide (f < q.fences) && !q.pending.any (isFence f)

/-- A step of the device. -/
def step (D : Device μ κ σ) (m : μ) (q : CommandQueue κ σ) : Option (CommandQueue κ σ) :=
  match q.pending with
  | [] => none
  | .fence _ :: rest => some { q with pending := rest }
  | .work k :: rest => some { q with
      pending := ((D.exec m k q.device).1.map Command.work).toList ++ rest
      device := (D.exec m k q.device).2 }

variable {D : Device μ κ σ} {m m' : μ} {q q' : CommandQueue κ σ} {k : κ} {f : ℕ}

lemma step_cases (h : q.step D m = some q') : q'.fences = q.fences ∧
    ((∃ id rest, q.pending = .fence id :: rest ∧ q'.pending = rest ∧ q'.device = q.device) ∨
      ∃ k rest, q.pending = .work k :: rest ∧
        q'.pending = ((D.exec m k q.device).1.map Command.work).toList ++ rest ∧
        q'.device = (D.exec m k q.device).2) := by
  rw [step] at h
  split at h
  · cases h
  · rename_i id rest heq
    obtain rfl := Option.some.inj h
    exact ⟨rfl, Or.inl ⟨id, rest, heq, rfl, rfl⟩⟩
  · rename_i k rest heq
    obtain rfl := Option.some.inj h
    exact ⟨rfl, Or.inr ⟨k, rest, heq, rfl, rfl⟩⟩

/-! ### The end of the queue -/

/-- A waiting command as a whole; a fence does nothing. -/
def runCommand (D : Device μ κ σ) (m : μ) (d : σ) : Command κ → σ
  | .work k => D.run m k d
  | .fence _ => d

/-- What the device comes to with all that is waiting. -/
def flush (D : Device μ κ σ) (m : μ) (q : CommandQueue κ σ) : σ :=
  q.pending.foldl (runCommand D m) q.device

/-- **The device goes on**, and comes to the same. -/
theorem flush_step (h : q.step D m = some q') : q'.flush D m = q.flush D m := by
  obtain ⟨-, ⟨id, rest, hq, hq', hdev⟩ | ⟨k, rest, hq, hq', hdev⟩⟩ := step_cases h
  · rw [flush, flush, hq, hq', hdev, List.foldl_cons, runCommand]
  · rw [flush, flush, hq, hq', hdev, List.foldl_cons, runCommand]
    cases hexec : (D.exec m k q.device).1 with
    | none => rw [Device.run_of_none hexec, Option.map_none, Option.toList_none, List.nil_append]
    | some k' =>
        rw [Device.run_of_some hexec, Option.map_some, Option.toList_some, List.singleton_append,
          List.foldl_cons, runCommand]

/-- **A new command** acts as on a device without a queue. -/
theorem flush_issue (q : CommandQueue κ σ) (k : κ) :
    (q.issue k).flush D m = D.run m k (q.flush D m) := by
  rw [flush, issue, List.foldl_append, List.foldl_cons, List.foldl_nil, runCommand, flush]

@[simp] lemma flush_fence (q : CommandQueue κ σ) : q.fence.flush D m = q.flush D m := by
  rw [flush, fence, List.foldl_append, List.foldl_cons, List.foldl_nil, runCommand, flush]

/-- What all commands add to is added to by the queue. -/
lemma rel_flush {R : σ → σ → Prop} (hrefl : ∀ d, R d d)
    (htrans : ∀ {a b c}, R a b → R b c → R a c) (hrun : ∀ k d, R d (D.run m k d))
    (q : CommandQueue κ σ) : R q.device (q.flush D m) := by
  rw [flush]
  generalize q.device = d
  induction q.pending generalizing d with
  | nil => exact hrefl d
  | cons c cs ih =>
      rw [List.foldl_cons]
      refine htrans ?_ (ih _)
      cases c with
      | work k => exact hrun k d
      | fence id => exact hrefl d

/-! ### One command alone -/

/-- Nothing is waiting but parts of a command. -/
def Only (D : Device μ κ σ) (k : κ) (cs : List (Command κ)) : Prop :=
  ∀ c ∈ cs, ∃ k', c = .work k' ∧ D.Part k k'

lemma Only.issue (h : q.pending = []) (k : κ) : Only D k (q.issue k).pending := by
  intro c hc
  rw [CommandQueue.issue, h] at hc
  exact ⟨k, List.mem_singleton.mp hc, .whole⟩

lemma Only.step (h : Only D k q.pending) (hstep : q.step D m = some q') : Only D k q'.pending := by
  obtain ⟨-, ⟨id, rest, hq, hq', -⟩ | ⟨k', rest, hq, hq', -⟩⟩ := step_cases hstep <;> rw [hq] at h
  · rw [hq']
    exact fun c hc => h c (List.mem_cons_of_mem _ hc)
  · rw [hq']
    intro c hc
    rcases List.mem_append.mp hc with hc | hc
    · obtain ⟨k'', hk'', rfl⟩ := Option.map_eq_some_iff.mp (Option.mem_toList.mp hc)
      obtain ⟨k₀, hk₀, hpart⟩ := h _ List.mem_cons_self
      cases hk₀
      exact ⟨k'', rfl, hpart.rest hk''⟩
    · exact h c (List.mem_cons_of_mem _ hc)

/-- What the parts of the command leave alone stays as it is. -/
lemma Only.device_step {β : Type*} (obs : σ → β) (h : Only D k q.pending)
    (hobs : ∀ m k' d, D.Part k k' → obs (D.exec m k' d).2 = obs d)
    (hstep : q.step D m = some q') : obs q'.device = obs q.device := by
  obtain ⟨-, ⟨id, rest, -, -, hdevice⟩ | ⟨k', rest, hq, -, hdevice⟩⟩ := step_cases hstep
  · rw [hdevice]
  · obtain ⟨k₀, hk₀, hpart⟩ := h (.work k') (hq ▸ List.mem_cons_self)
    cases hk₀
    rw [hdevice, hobs m k' _ hpart]

lemma Only.flush {β : Type*} (obs : σ → β) (h : Only D k q.pending)
    (hobs : ∀ m k' d, D.Part k k' → obs (D.exec m k' d).2 = obs d) :
    obs (q.flush D m) = obs q.device := by
  rw [CommandQueue.flush]
  generalize q.device = d
  generalize q.pending = cs at h
  induction cs generalizing d with
  | nil => rfl
  | cons c cs ih =>
      obtain ⟨k', rfl, hpart⟩ := h c List.mem_cons_self
      rw [List.foldl_cons, ih _ fun c hc => h c (List.mem_cons_of_mem _ hc), runCommand,
        Device.run_part hobs hpart]

/-! ### Commands that read -/

/-- The waiting commands that read. -/
def commandReads (D : Device μ κ σ) : Command κ → Prop
  | .work k => D.Reads k
  | .fence _ => False

/-- None of the commands reads. -/
def Still (D : Device μ κ σ) (cs : List (Command κ)) : Prop := ∀ c ∈ cs, ¬commandReads D c

lemma still_nil : Still D ([] : List (Command κ)) := fun _ hc => absurd hc List.not_mem_nil

lemma still_append {cs cs' : List (Command κ)} :
    Still D (cs ++ cs') ↔ Still D cs ∧ Still D cs' := by
  simp only [Still, List.mem_append, or_imp, forall_and]

lemma Still.issue (h : Still D q.pending) (hk : ¬D.Reads k) : Still D (q.issue k).pending := by
  refine still_append.mpr ⟨h, fun c hc => ?_⟩
  rw [List.mem_singleton.mp hc]
  exact hk

lemma Still.fence (h : Still D q.pending) : Still D q.fence.pending := by
  refine still_append.mpr ⟨h, fun c hc => ?_⟩
  rw [List.mem_singleton.mp hc]
  exact id

/-- What is left of a command reads only if the command does. -/
lemma still_exec {m : μ} {d : σ} (h : ¬D.Reads k) :
    Still D ((D.exec m k d).1.map Command.work).toList := by
  intro c hc
  obtain ⟨k', hk', rfl⟩ := Option.map_eq_some_iff.mp (Option.mem_toList.mp hc)
  exact fun hreads => h (D.exec_reads hk' hreads)

lemma Still.step (h : Still D q.pending) (hstep : q.step D m = some q') : Still D q'.pending := by
  obtain ⟨-, ⟨id, rest, hq, hq', -⟩ | ⟨k, rest, hq, hq', -⟩⟩ := step_cases hstep
  · rw [hq] at h
    rw [hq']
    exact fun c hc => h c (List.mem_cons_of_mem _ hc)
  · rw [hq] at h
    rw [hq']
    exact still_append.mpr ⟨still_exec (h (.work k) List.mem_cons_self),
      fun c hc => h c (List.mem_cons_of_mem _ hc)⟩

/-- **Stores of others** do not matter while no command that reads is waiting. -/
theorem flush_congr (h : Still D q.pending) (m m' : μ) : q.flush D m = q.flush D m' := by
  rw [flush, flush]
  generalize q.device = d
  induction hcs : q.pending generalizing q d with
  | nil => rfl
  | cons c cs ih =>
      rw [hcs] at h
      rw [List.foldl_cons, List.foldl_cons]
      have hc : runCommand D m d c = runCommand D m' d c := by
        cases c with
        | work k => exact Device.run_congr (h (.work k) List.mem_cons_self) m m' d
        | fence id => rfl
      rw [hc]
      exact ih (q := { q with pending := cs }) (fun c hc => h c (List.mem_cons_of_mem _ hc)) _ rfl

/-! ### Fences -/

/-- Nothing that reads waits behind the fence. -/
def Fenced (D : Device μ κ σ) (q : CommandQueue κ σ) (f : ℕ) : Prop :=
  Still D q.pending ∨ ∃ pre post, q.pending = pre ++ .fence f :: post ∧ Still D post

lemma fenced_fence (q : CommandQueue κ σ) : Fenced D q.fence q.fences :=
  Or.inr ⟨q.pending, [], rfl, still_nil⟩

lemma Fenced.issue (h : Fenced D q f) (hk : ¬D.Reads k) : Fenced D (q.issue k) f := by
  obtain h | ⟨pre, post, hq, hpost⟩ := h
  · exact Or.inl (h.issue hk)
  · refine Or.inr ⟨pre, post ++ [.work k], ?_, ?_⟩
    · rw [CommandQueue.issue, hq, List.append_assoc, List.cons_append]
    · exact still_append.mpr ⟨hpost, fun c hc => by rw [List.mem_singleton.mp hc]; exact hk⟩

lemma Fenced.step (h : Fenced D q f) (hstep : q.step D m = some q') : Fenced D q' f := by
  obtain h | ⟨pre, post, hq, hpost⟩ := h
  · exact Or.inl (h.step hstep)
  · obtain ⟨-, ⟨id, rest, hq₁, hq', -⟩ | ⟨k, rest, hq₁, hq', -⟩⟩ := step_cases hstep
    · -- the first command is a fence, the one at hand or another
      rw [hq] at hq₁
      cases pre with
      | nil =>
          obtain ⟨-, rfl⟩ := List.cons.inj hq₁
          exact Or.inl (hq' ▸ hpost)
      | cons c pre =>
          obtain ⟨-, rfl⟩ := List.cons.inj hq₁
          exact Or.inr ⟨pre, post, hq', hpost⟩
    · rw [hq] at hq₁
      cases pre with
      | nil => cases (List.cons.inj hq₁).1
      | cons c pre =>
          obtain ⟨-, rfl⟩ := List.cons.inj hq₁
          refine Or.inr ⟨((D.exec m k q.device).1.map Command.work).toList ++ pre, post, ?_, hpost⟩
          rw [hq', List.append_assoc]
          rfl

/-- **Behind a signalled fence** no command that reads is left. -/
theorem Fenced.still (h : Fenced D q f) (hf : q.signaled f = true) : Still D q.pending := by
  obtain h | ⟨pre, post, hq, -⟩ := h
  · exact h
  · rw [signaled, hq] at hf
    simp [isFence] at hf

/-! ### Draining -/

/-- The steps that a waiting command takes at most. -/
def commandSize (D : Device μ κ σ) : Command κ → ℕ
  | .work k => D.size k + 1
  | .fence _ => 1

/-- The steps that the device takes at most with all that is waiting. -/
def waiting (D : Device μ κ σ) (q : CommandQueue κ σ) : ℕ := (q.pending.map (commandSize D)).sum

/-- A step of the device leaves less to do. -/
lemma waiting_step (h : q.step D m = some q') : q'.waiting D < q.waiting D := by
  obtain ⟨-, ⟨id, rest, hq, hq', -⟩ | ⟨k, rest, hq, hq', -⟩⟩ := step_cases h
  · rw [waiting, waiting, hq, hq', List.map_cons, List.sum_cons, commandSize]
    omega
  · rw [waiting, waiting, hq, hq', List.map_append, List.sum_append, List.map_cons, List.sum_cons,
      commandSize]
    cases hexec : (D.exec m k q.device).1 with
    | none => simp
    | some k' =>
        have hsize := D.exec_size hexec
        simp [commandSize]
        omega

/-- A device with something to do takes a step. -/
lemma exists_step (D : Device μ κ σ) (m : μ) (h : q.pending ≠ []) : ∃ q', q.step D m = some q' := by
  rw [step]
  split
  · exact absurd ‹_› h
  · exact ⟨_, rfl⟩
  · exact ⟨_, rfl⟩

/-- Fences of a device with nothing to do are signalled. -/
lemma signaled_of_drained (hf : f < q.fences) (h : q.pending = []) : q.signaled f = true := by
  rw [signaled, h]
  simpa using hf

end CommandQueue

end Mdb
