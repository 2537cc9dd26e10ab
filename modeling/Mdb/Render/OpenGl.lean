import Mdb.Library.CommandQueue

/-!
What the render loop uses of OpenGL.

OpenGL is not part of the repository. `OpenGl` are the functions that the loop calls, and
`OpenGl.Documented` is what it relies on: the GPU carries out the commands in the order they are
issued in and at its own pace, so that an upload reads the pixel buffer only when the GPU comes to
it; a fence is signalled once everything before it is done; and what is on the screen is what has
been drawn. `GlMeaning` are the words that this is said in.

* `OpenGl.Documented.presented_flush`, `OpenGl.Documented.gpu_step`: what follows for the pictures
  and for the steps of the GPU;
* `softGl_documented`: a GL that keeps its commands in a list is as documented.
-/

namespace Mdb

open CommandQueue

/-! ### The functions and what is said of them -/

/-- The functions of OpenGL and of GLFW that the loop calls, on a state `G` of the GL with sync
objects `Y`; and `gpu`, by which the GPU goes on, reading the memory at hand. -/
structure OpenGl (G Y α : Type*) where
  glTexImage2D : G → G
  glClear : G → G
  glTexSubImage2D : G → G
  glDrawArrays : G → G
  glfwSwapBuffers : G → G
  glFenceSync : G → G × Y
  glDeleteSync : G → Y → G
  glClientWaitSync : G → Y → Bool
  gpu : (ℕ → α) → G → Option G

/-- The texture, the back buffer with the texture that was drawn there, if any, and what has been on
the screen; the colours that the shader gives it are left out. -/
structure GlScreen (α : Type*) where
  texture : ℕ → α
  back : Option (ℕ → α)
  presented : List (Option (ℕ → α))

/-- The GPU with its commands; what is waiting for it; and the sync objects, each with its fence. -/
structure GlMeaning (G Y κ α : Type*) where
  device : Device (ℕ → α) κ (GlScreen α)
  clear : κ
  upload : κ
  drawArrays : κ
  swapBuffers : κ
  queue : G → CommandQueue κ (GlScreen α)
  syncs : G → Y → Option ℕ

section Documented

variable {G Y κ α : Type*}

/-- A function that issues a command, and does nothing else. -/
def GlMeaning.Issues (M : GlMeaning G Y κ α) (call : G → G) (k : κ) : Prop :=
  ∀ g, M.queue (call g) = (M.queue g).issue k ∧ M.syncs (call g) = M.syncs g

/-- A GL as its context has been created. -/
structure GlMeaning.Fresh (M : GlMeaning G Y κ α) (g : G) : Prop where
  pending : (M.queue g).pending = []
  presented : (M.queue g).device.presented = []
  syncs : ∀ y, M.syncs g y = none

/-- OpenGL as documented, with a texture of the given number of texels and the pixel buffer bound
for the uploads.

The functions issue commands, or renew sync objects; the GPU carries out what is waiting, a piece at
a time; an upload reads all texels in any order and shows nothing; nothing else reads the buffer;
and what has been on the screen stays in the list of the pictures. -/
structure OpenGl.Documented (gl : OpenGl G Y α) (M : GlMeaning G Y κ α)
    (texels : ℕ) : Prop where
  texImage : M.Issues gl.glTexImage2D M.upload
  clear : M.Issues gl.glClear M.clear
  texSubImage : M.Issues gl.glTexSubImage2D M.upload
  drawArrays : M.Issues gl.glDrawArrays M.drawArrays
  swapBuffers : M.Issues gl.glfwSwapBuffers M.swapBuffers
  queue_fenceSync : ∀ g, M.queue (gl.glFenceSync g).1 = (M.queue g).fence
  syncs_fenceSync : ∀ g,
    M.syncs (gl.glFenceSync g).1 (gl.glFenceSync g).2 = some (M.queue g).fences ∧
      ∀ y ≠ (gl.glFenceSync g).2, M.syncs (gl.glFenceSync g).1 y = M.syncs g y
  queue_deleteSync : ∀ g y, M.queue (gl.glDeleteSync g y) = M.queue g
  syncs_deleteSync : ∀ g y, M.syncs (gl.glDeleteSync g y) y = none ∧
    ∀ z ≠ y, M.syncs (gl.glDeleteSync g y) z = M.syncs g z
  clientWaitSync : ∀ g y f, M.syncs g y = some f →
    gl.glClientWaitSync g y = (M.queue g).signaled f
  queue_gpu : ∀ m g, (gl.gpu m g).map M.queue = (M.queue g).step M.device m
  syncs_gpu : ∀ m g g', gl.gpu m g = some g' → M.syncs g' = M.syncs g
  run_clear : ∀ m d, M.device.run m M.clear d = { d with back := none }
  run_upload : ∀ m d, M.device.run m M.upload d
    = { d with texture := fun i => if i < texels then m i else d.texture i }
  run_drawArrays : ∀ m d, M.device.run m M.drawArrays d = { d with back := some d.texture }
  run_swapBuffers : ∀ m d, M.device.run m M.swapBuffers d
    = { d with presented := d.presented ++ [d.back] }
  reads : ¬M.device.Reads M.clear ∧ ¬M.device.Reads M.drawArrays ∧ ¬M.device.Reads M.swapBuffers
  upload_presented : ∀ m k d, M.device.Part M.upload k →
    (M.device.exec m k d).2.presented = d.presented
  presented_first : ∀ m k d, d.presented <+: (M.device.exec m k d).2.presented

namespace OpenGl.Documented

variable {gl : OpenGl G Y α} {M : GlMeaning G Y κ α} {texels : ℕ} {data : ℕ → α}

/-- The pictures that have been on the screen are the first of those that will be. -/
lemma presented_flush (h : gl.Documented M texels) (q : CommandQueue κ (GlScreen α)) :
    q.device.presented <+: (q.flush M.device data).presented := by
  have htrans : ∀ {a b c : GlScreen α}, a.presented <+: b.presented →
      b.presented <+: c.presented → a.presented <+: c.presented := fun h h' => h.trans h'
  refine rel_flush (R := fun d d' : GlScreen α => d.presented <+: d'.presented)
    (fun _ => List.prefix_rfl) htrans (fun k d => ?_) q
  exact Device.rel_run (R := fun d d' : GlScreen α => d.presented <+: d'.presented) htrans
    h.presented_first data k d

/-- A step of the GPU. -/
lemma gpu_step (h : gl.Documented M texels) {g g' : G} (hgpu : gl.gpu data g = some g') :
    (M.queue g).step M.device data = some (M.queue g') ∧ M.syncs g' = M.syncs g := by
  refine ⟨?_, h.syncs_gpu data g g' hgpu⟩
  rw [← h.queue_gpu, hgpu, Option.map_some]

/-- A GPU with something to do goes on. -/
lemma exists_gpu (h : gl.Documented M texels) {g : G} (hpending : (M.queue g).pending ≠ [])
    (data : ℕ → α) : ∃ g', gl.gpu data g = some g' := by
  obtain ⟨q, hq⟩ := exists_step M.device data hpending
  rw [← h.queue_gpu] at hq
  obtain ⟨g', hg', -⟩ := Option.map_eq_some_iff.mp hq
  exact ⟨g', hg'⟩

end OpenGl.Documented

end Documented

/-! ### A GL that is as documented -/

section Soft

/-- Commands; an upload is given by the next texel that it reads. -/
inductive SoftCommand where
  | clear
  | upload (texel : ℕ)
  | drawArrays
  | swapBuffers
  deriving DecidableEq

/-- A GPU that reads one texel after the other. -/
def softDevice (texels : ℕ) (α : Type*) : Device (ℕ → α) SoftCommand (GlScreen α) where
  exec := fun data k d =>
    match k with
    | .clear => (none, { d with back := none })
    | .upload i =>
        if i < texels then
          (some (.upload (i + 1)),
            { d with texture := Function.update d.texture i (data i) })
        else (none, d)
    | .drawArrays => (none, { d with back := some d.texture })
    | .swapBuffers => (none, { d with presented := d.presented ++ [d.back] })
  size
    | .upload i => texels - i
    | _ => 0
  Reads
    | .upload _ => True
    | _ => False
  exec_size := by
    intro data k d k' h
    cases k with
    | upload i =>
        dsimp only at h
        split_ifs at h
        obtain rfl := Option.some.inj h
        dsimp only
        omega
    | _ => cases h
  exec_congr := by
    intro k hk data data' d
    cases k with
    | upload i => exact absurd trivial hk
    | _ => rfl
  exec_reads := by
    intro data k d k' h hk'
    cases k with
    | upload i => trivial
    | _ => cases h

/-- A GL as its queue, and the numbers of the fences that have a sync object. -/
structure SoftGl (α : Type*) where
  queue : CommandQueue SoftCommand (GlScreen α)
  live : ℕ → Option ℕ

variable {α : Type*} {texels : ℕ}

/-- A command joins the queue. -/
def SoftGl.issue (g : SoftGl α) (k : SoftCommand) : SoftGl α :=
  { g with queue := g.queue.issue k }

/-- The functions of the GL. -/
def softGl (texels : ℕ) (α : Type*) : OpenGl (SoftGl α) ℕ α where
  glTexImage2D g := g.issue (.upload 0)
  glClear g := g.issue .clear
  glTexSubImage2D g := g.issue (.upload 0)
  glDrawArrays g := g.issue .drawArrays
  glfwSwapBuffers g := g.issue .swapBuffers
  glFenceSync g := (⟨g.queue.fence, Function.update g.live g.queue.fences (some g.queue.fences)⟩,
    g.queue.fences)
  glDeleteSync g y := { g with live := Function.update g.live y none }
  glClientWaitSync g y := (g.live y).any g.queue.signaled
  gpu data g := (g.queue.step (softDevice texels α) data).map fun q => { g with queue := q }

/-- What they mean. -/
def softMeaning (texels : ℕ) (α : Type*) : GlMeaning (SoftGl α) ℕ SoftCommand α where
  device := softDevice texels α
  clear := .clear
  upload := .upload 0
  drawArrays := .drawArrays
  swapBuffers := .swapBuffers
  queue := SoftGl.queue
  syncs := SoftGl.live

/-- The GL as its context has been created. -/
def softInit (texture : ℕ → α) : SoftGl α := ⟨⟨[], 0, ⟨texture, none, []⟩⟩, fun _ => none⟩

lemma softInit_fresh (texels : ℕ) (texture : ℕ → α) :
    (softMeaning texels α).Fresh (softInit texture) :=
  ⟨rfl, rfl, fun _ => rfl⟩

lemma soft_exec_upload (i : ℕ) (data : ℕ → α) (d : GlScreen α) :
    (softDevice texels α).exec data (.upload i) d = if i < texels then
      (some (.upload (i + 1)), { d with texture := Function.update d.texture i (data i) })
    else (none, d) := rfl

/-- An upload from a texel on. -/
lemma soft_run_upload {r i : ℕ} (hr : i + r = texels) (data : ℕ → α) (d : GlScreen α) :
    (softDevice texels α).run data (.upload i) d
      = { d with texture := fun j => if i ≤ j ∧ j < texels then data j else d.texture j } := by
  induction r generalizing i d with
  | zero =>
      have hexec := (soft_exec_upload i data d).trans (if_neg (show ¬i < texels by omega))
      have hrest : (fun j => if i ≤ j ∧ j < texels then data j else d.texture j) = d.texture :=
        funext fun j => if_neg (by omega)
      rw [Device.run_of_none (by rw [hexec]), hexec, hrest]
  | succ r ih =>
      have hexec := (soft_exec_upload i data d).trans (if_pos (show i < texels by omega))
      rw [Device.run_of_some (by rw [hexec]), hexec, ih (by omega)]
      dsimp only
      congr 1
      funext j
      by_cases hj : j = i
      · subst hj
        rw [if_neg (by omega), if_pos (by omega), Function.update_self]
      · rw [Function.update_of_ne hj]
        exact if_congr (by omega) rfl rfl

/-- What is left of an upload is an upload. -/
lemma soft_part {k : SoftCommand} (h : (softDevice texels α).Part (.upload 0) k) :
    ∃ i, k = .upload i := by
  induction h with
  | whole => exact ⟨0, rfl⟩
  | rest _ hexec ih =>
      obtain ⟨i, rfl⟩ := ih
      rw [soft_exec_upload] at hexec
      split_ifs at hexec
      exact ⟨i + 1, (Option.some.inj hexec).symm⟩

/-- **A GL as documented.** -/
lemma softGl_documented (texels : ℕ) (α : Type*) :
    (softGl texels α).Documented (softMeaning texels α) texels where
  texImage g := ⟨rfl, rfl⟩
  clear g := ⟨rfl, rfl⟩
  texSubImage g := ⟨rfl, rfl⟩
  drawArrays g := ⟨rfl, rfl⟩
  swapBuffers g := ⟨rfl, rfl⟩
  queue_fenceSync g := rfl
  syncs_fenceSync g := ⟨Function.update_self .., fun _ hy => Function.update_of_ne hy ..⟩
  queue_deleteSync g y := rfl
  syncs_deleteSync g y := ⟨Function.update_self .., fun _ hz => Function.update_of_ne hz ..⟩
  clientWaitSync g y f hf := by
    have hlive : g.live y = some f := hf
    simp [softGl, hlive, softMeaning]
  queue_gpu data g := by
    simp [softGl, softMeaning, Option.map_map, Function.comp_def]
  syncs_gpu data g g' h := by
    obtain ⟨q, -, rfl⟩ := Option.map_eq_some_iff.mp h
    rfl
  run_clear data d := Device.run_of_none rfl
  run_upload data d := by
    refine (soft_run_upload (Nat.zero_add texels) data d).trans ?_
    simp
  run_drawArrays data d := Device.run_of_none rfl
  run_swapBuffers data d := Device.run_of_none rfl
  reads := ⟨id, id, id⟩
  upload_presented data k d hk := by
    obtain ⟨i, rfl⟩ := soft_part hk
    simp only [softMeaning, soft_exec_upload]
    split_ifs <;> rfl
  presented_first data k d := by
    cases k with
    | upload i =>
        simp only [softMeaning, soft_exec_upload]
        split_ifs <;> exact List.prefix_rfl
    | swapBuffers => exact List.prefix_append _ _
    | _ => exact List.prefix_rfl

end Soft

end Mdb
