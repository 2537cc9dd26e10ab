import Mdb.Base.Word
import Mdb.Tools.CpuFeatures

/-!
Loading a kernel (`kernel/mdb_kernel.c`).

A call is given by the events it makes, in their order: calls into the dynamic linker and into the
module, and accesses to the `struct mdb_kernel` it allocates. What a read returns once that is freed
is a parameter.

* `mdb_kernel_create_iff`: a call creates the kernel or releases everything once, unless the module
  asks for a feature the host does not have;
* `create_destroy`: a kernel that has been created is released once by `mdb_kernel_destroy`.
-/

namespace Mdb.Loader

/-! ### Kernels -/

/-- The functions of the kernel API, in the order they are loaded in. -/
inductive KernelFun where
  | init
  | shutdown
  | cpuFeatures
  | metadataQuery
  | eventHandler
  | block
  | setSize
  | setSurface
  deriving DecidableEq

/-- The name a function has in the module. -/
def KernelFun.symbol : KernelFun → String
  | init => "mdb_kernel_init"
  | shutdown => "mdb_kernel_shutdown"
  | cpuFeatures => "mdb_kernel_cpu_features"
  | metadataQuery => "mdb_kernel_metadata_query"
  | eventHandler => "mdb_kernel_event_handler"
  | block => "mdb_kernel_process_block"
  | setSize => "mdb_kernel_set_size"
  | setSurface => "mdb_kernel_set_surface"

/-- The order of the calls of `load_sym`. -/
def kernelFuns : List KernelFun :=
  [.init, .shutdown, .cpuFeatures, .metadataQuery, .eventHandler, .block, .setSize, .setSurface]

/-- The last symbol that is loaded, which is not kept. -/
def registerLogContext : String := "register_log_context"

/-- `MDB_KRN_NOINIT`. -/
def mdbKrnNoinit : ℕ := 0

/-- `MDB_KRN_LOADED`. -/
def mdbKrnLoaded : ℕ := 1

/-- `MDB_KRN_INITED`. -/
def mdbKrnInited : ℕ := 2

/-- `struct mdb_kernel`; a function pointer is the name of its symbol, and `none` is `NULL`. -/
structure MdbKernel where
  fn : KernelFun → Option String
  dlHandle : Option ℕ
  state : ℕ

/-- The members of `struct mdb_kernel`. -/
inductive KernelMember where
  | fn (f : KernelFun)
  | dlHandle
  | state
  deriving DecidableEq

/-- A kernel module: its symbols, and what its functions return. -/
structure KernelModule where
  exports : String → Bool
  cpuFeatures : BitVec 32
  init : ℤ

/-- What a call of `mdb_kernel_create` finds: its argument, the dynamic linker, the module if there
is one, the features of the host, and what a freed kernel reads as. -/
structure LoaderEnv where
  kernelName : Option String
  dlopen : String → Option ℕ
  module : KernelModule
  host : List Char → Bool
  stale : MdbKernel

/-! ### Events -/

/-- What the loader does, apart from logging. -/
inductive LoaderEvent where
  | calloc
  | free
  | read (member : KernelMember)
  | write (member : KernelMember)
  | dlopen (handle : Option ℕ)
  | dlsym (handle : ℕ) (symbol : String)
  | dlclose (handle : Option ℕ)
  | call (f : Option String)
  | returned (res : ℤ)
  | featureList (res : StrResult)
  deriving DecidableEq

/-- The state of a call: the kernel in memory, whether it has been freed, whether `*pmdb` points to
it, and the events so far. -/
structure LoaderState where
  kernel : MdbKernel
  freed : Bool
  pmdb : Bool
  trace : List LoaderEvent

namespace LoaderState

variable (env : LoaderEnv) (s : LoaderState)

def emit (e : LoaderEvent) : LoaderState := { s with trace := s.trace ++ [e] }

/-- What reads of the kernel return. -/
def mdb : MdbKernel := if s.freed then env.stale else s.kernel

/-- A call of a function of the kernel through its member. -/
def callFn (f : KernelFun) : LoaderState :=
  (s.emit (.read (.fn f))).emit (.call ((s.mdb env).fn f))

def setFn (f : KernelFun) (a : Option String) : LoaderState :=
  { s with kernel.fn := Function.update s.kernel.fn f a }.emit (.write (.fn f))

def setDlHandle (h : Option ℕ) : LoaderState :=
  { s with kernel.dlHandle := h }.emit (.write .dlHandle)

def setState (n : ℕ) : LoaderState := { s with kernel.state := n }.emit (.write .state)

/-- `free` of the kernel. -/
def free : LoaderState := { s with freed := true }.emit .free

end LoaderState

/-! ### The loader -/

/-- `load_sym`; `dst` stores the address that is found, or `NULL`. -/
def loadSym (m : KernelModule) (h : ℕ) (dst : Option String → LoaderState → LoaderState)
    (sym : String) (s : LoaderState) : Bool × LoaderState :=
  let s := dst (if m.exports sym then some sym else none) (s.emit (.dlsym h sym))
  if m.exports sym then (true, s) else (false, s.emit (.dlclose (some h)))

/-- The calls of `load_sym` for the functions of the kernel API. -/
def loadFuns (m : KernelModule) (h : ℕ) : List KernelFun → LoaderState → Bool × LoaderState
  | [], s => (true, s)
  | f :: fs, s =>
      match loadSym m h (fun a s => s.setFn f a) f.symbol s with
      | (true, s) => loadFuns m h fs s
      | (false, s) => (false, s)

/-- The file of a kernel, cut to the buffer. -/
def kernelFilename (name : String) : String :=
  String.ofList (("./modules/kernels/" ++ name ++ ".kern").toList.take 1023)

/-- `mdb_kernel_load`. -/
def mdbKernelLoad (env : LoaderEnv) (s : LoaderState) : ℤ × LoaderState :=
  match env.kernelName with
  | none => (mdbFail, s)
  | some name =>
      match env.dlopen (kernelFilename name) with
      | none => (mdbFail, s.emit (.dlopen none))
      | some h =>
          match loadFuns env.module h kernelFuns (s.emit (.dlopen (some h))) with
          | (false, s) => (mdbFail, s)
          | (true, s) =>
              match loadSym env.module h (fun _ s => s) registerLogContext s with
              | (false, s) => (mdbFail, s)
              | (true, s) =>
                  let s := s.emit (.call (some registerLogContext))
                  let s := s.setDlHandle (some h)
                  let s := s.setState mdbKrnLoaded
                  (mdbSuccess, s)

/-- `mdb_kernel_log_info`: the name and both parts of the version. -/
def mdbKernelLogInfo (env : LoaderEnv) (s : LoaderState) : LoaderState :=
  let s := s.callFn env .metadataQuery
  let s := s.callFn env .metadataQuery
  s.callFn env .metadataQuery

/-- `mdb_kernel_check_cpu_features`. -/
def mdbKernelCheckCpuFeatures (env : LoaderEnv) (s : LoaderState) : ℤ × LoaderState :=
  let s := s.callFn env .cpuFeatures
  let features := env.module.cpuFeatures
  if features = 0 then (mdbSuccess, s)
  else
    let s := s.emit (.featureList (cpuFeaturesToStr features 256))
    let mask := cpuCheckFeatures env.host features
    if mask ≠ 0 then (mdbFail, s.emit (.featureList (cpuFeaturesToStr mask 256)))
    else (mdbSuccess, s)

/-- `mdb_kernel_init`. -/
def mdbKernelInit (env : LoaderEnv) (s : LoaderState) : ℤ × LoaderState :=
  let s := s.callFn env .init
  let res := env.module.init
  let s := s.emit (.returned res)
  if res ≠ mdbSuccess then (res, s)
  else (mdbSuccess, s.setState mdbKrnInited)

/-- `mdb_kernel_destroy`. -/
def mdbKernelDestroy (env : LoaderEnv) (s : LoaderState) : LoaderState :=
  let state := (s.mdb env).state
  let s := s.emit (.read .state)
  let s := if mdbKrnInited ≤ state then s.callFn env .shutdown else s
  let state := (s.mdb env).state
  let s := s.emit (.read .state)
  let s :=
    if mdbKrnLoaded ≤ state then
      let h := (s.mdb env).dlHandle
      (s.emit (.read .dlHandle)).emit (.dlclose h)
    else s
  s.free

/-- The label `error_exit` of `mdb_kernel_create`. -/
def errorExit (env : LoaderEnv) (s : LoaderState) : ℤ × LoaderState :=
  (mdbFail, { mdbKernelDestroy env s with pmdb := false })

/-- `calloc` has returned the kernel, all zero, and `*pmdb` points to it. -/
def loaderInit : LoaderState := ⟨⟨fun _ => none, none, mdbKrnNoinit⟩, false, true, [.calloc]⟩

/-- `mdb_kernel_create`. -/
def mdbKernelCreate (env : LoaderEnv) : ℤ × LoaderState :=
  match mdbKernelLoad env loaderInit with
  | (res, s) =>
      if res ≠ mdbSuccess then errorExit env s
      else
        match mdbKernelCheckCpuFeatures env (mdbKernelLogInfo env s) with
        | (res, s) =>
            if res ≠ mdbSuccess then errorExit env (mdbKernelDestroy env s)
            else
              match mdbKernelInit env s with
              | (res, s) => if res ≠ mdbSuccess then errorExit env s else (mdbSuccess, s)

/-! ### What a call promises -/

/-- The handles that `dlopen` has returned. -/
def opens (tr : List LoaderEvent) : List ℕ :=
  tr.filterMap fun e => match e with
    | .dlopen h => h
    | _ => none

/-- What `dlclose` has been called with. -/
def closes (tr : List LoaderEvent) : List (Option ℕ) :=
  tr.filterMap fun e => match e with
    | .dlclose h => some h
    | _ => none

/-- Accesses to the kernel in memory. -/
def LoaderEvent.Touches : LoaderEvent → Prop
  | .read _ => True
  | .write _ => True
  | .free => True
  | _ => False

/-- The call of the function `mdb_kernel_shutdown` of the module. -/
def shutdownCall : LoaderEvent := .call (some KernelFun.shutdown.symbol)

/-- Everything has been released once. -/
structure ReleasedOnce (tr : List LoaderEvent) : Prop where
  closed : closes tr = (opens tr).map some
  freed : tr.count .free = 1
  untouched : tr.Pairwise fun e e' => e = .free → ¬ e'.Touches
  shutdown : ∀ pre post, tr = pre ++ shutdownCall :: post → .returned mdbSuccess ∈ pre

/-- The handle is open and the kernel live. -/
structure Created (s : LoaderState) : Prop where
  handle : ∃ h, opens s.trace = [h] ∧ s.kernel.dlHandle = some h
  not_closed : closes s.trace = []
  not_freed : .free ∉ s.trace
  pmdb : s.pmdb = true

/-- A call creates the kernel, or fails with everything released once. -/
def CreatesOrReleases (env : LoaderEnv) : Prop :=
  ((mdbKernelCreate env).1 = mdbSuccess ∧ Created (mdbKernelCreate env).2) ∨
    ((mdbKernelCreate env).1 = mdbFail ∧ (mdbKernelCreate env).2.pmdb = false ∧
      ReleasedOnce (mdbKernelCreate env).2.trace)

/-- The module loads: it is there, with every symbol. -/
def LoaderEnv.Loads (env : LoaderEnv) : Prop :=
  ∃ name h, env.kernelName = some name ∧ env.dlopen (kernelFilename name) = some h ∧
    (∀ f : KernelFun, env.module.exports f.symbol = true) ∧
    env.module.exports registerLogContext = true

/-- Events that open, close and free nothing, and do not shut the module down. -/
def LoaderEvent.Plain : LoaderEvent → Prop
  | .dlopen h => h = none
  | .dlclose _ => False
  | .free => False
  | .call f => f ≠ some KernelFun.shutdown.symbol
  | _ => True

section Plain

variable {tr tr' : List LoaderEvent}

@[simp] lemma opens_append : opens (tr ++ tr') = opens tr ++ opens tr' := List.filterMap_append

@[simp] lemma closes_append : closes (tr ++ tr') = closes tr ++ closes tr' := List.filterMap_append

lemma opens_of_plain (h : ∀ e ∈ tr, e.Plain) : opens tr = [] := by
  rw [opens, List.filterMap_eq_nil_iff]
  intro e he
  cases e with
  | dlopen handle => exact h _ he
  | _ => rfl

lemma closes_of_plain (h : ∀ e ∈ tr, e.Plain) : closes tr = [] := by
  rw [closes, List.filterMap_eq_nil_iff]
  intro e he
  cases e with
  | dlclose handle => exact (h _ he).elim
  | _ => rfl

lemma free_not_mem_of_plain (h : ∀ e ∈ tr, e.Plain) : .free ∉ tr := fun hfree => h _ hfree

lemma shutdown_not_mem_of_plain (h : ∀ e ∈ tr, e.Plain) : shutdownCall ∉ tr :=
  fun hcall => h _ hcall rfl

/-- A trace that ends with the only `free` releases everything once if every handle is closed. -/
lemma releasedOnce_of_free_last (hclosed : closes tr = (opens tr).map some) (hfree : .free ∉ tr)
    (hshutdown : ∀ pre post, tr = pre ++ shutdownCall :: post → .returned mdbSuccess ∈ pre) :
    ReleasedOnce (tr ++ [.free]) := by
  refine ⟨?_, ?_, ?_, fun pre post h => ?_⟩
  · rw [closes_append, opens_append, hclosed, List.map_append]
    rfl
  · rw [List.count_append, List.count_eq_zero_of_not_mem hfree, List.count_singleton_self]
  · refine List.pairwise_append.mpr ⟨?_, List.pairwise_singleton _ _, fun e he _ _ h => ?_⟩
    · exact List.pairwise_of_forall_mem_list fun e he _ _ h => absurd (h ▸ he) hfree
    · exact absurd (h ▸ he) hfree
  · rcases List.eq_nil_or_concat post with rfl | ⟨post', e, rfl⟩
    · exact absurd (List.append_inj_right' h rfl) (by simp [shutdownCall])
    · rw [List.concat_eq_append, ← List.cons_append, ← List.append_assoc] at h
      exact hshutdown pre post' (List.append_inj_left' h rfl)

/-- Where the module has not been shut down at all, nothing is asked of its initialisation. -/
lemma releasedOnce_of_no_shutdown (hclosed : closes tr = (opens tr).map some) (hfree : .free ∉ tr)
    (hshutdown : shutdownCall ∉ tr) : ReleasedOnce (tr ++ [.free]) := by
  refine releasedOnce_of_free_last hclosed hfree fun pre post hpre => ?_
  rw [hpre] at hshutdown
  exact absurd (List.mem_append_right pre List.mem_cons_self) hshutdown

end Plain

/-! ### The functions one by one -/

/-- A part of a call that leaves the kernel allocated. -/
structure Extends (s s' : LoaderState) (evs : List LoaderEvent) : Prop where
  freed : s'.freed = s.freed
  pmdb : s'.pmdb = s.pmdb
  trace : s'.trace = s.trace ++ evs

section Extends

variable {s s' s'' : LoaderState} {evs evs' : List LoaderEvent}

lemma Extends.refl (s : LoaderState) : Extends s s [] := ⟨rfl, rfl, (List.append_nil _).symm⟩

lemma Extends.trans (h : Extends s s' evs) (h' : Extends s' s'' evs') :
    Extends s s'' (evs ++ evs') where
  freed := h'.freed.trans h.freed
  pmdb := h'.pmdb.trans h.pmdb
  trace := by rw [h'.trace, h.trace, List.append_assoc]

lemma extends_emit (s : LoaderState) (e : LoaderEvent) : Extends s (s.emit e) [e] := ⟨rfl, rfl, rfl⟩

lemma extends_setFn (s : LoaderState) (f : KernelFun) (a : Option String) :
    Extends s (s.setFn f a) [.write (.fn f)] := ⟨rfl, rfl, rfl⟩

lemma extends_setDlHandle (s : LoaderState) (h : Option ℕ) :
    Extends s (s.setDlHandle h) [.write .dlHandle] := ⟨rfl, rfl, rfl⟩

lemma extends_setState (s : LoaderState) (n : ℕ) :
    Extends s (s.setState n) [.write .state] := ⟨rfl, rfl, rfl⟩

/-- A symbol looked up and stored. -/
lemma extends_store (s : LoaderState) (h : ℕ) (f : KernelFun) (a : Option String) :
    Extends s ((s.emit (.dlsym h f.symbol)).setFn f a) [.dlsym h f.symbol, .write (.fn f)] :=
  (extends_emit s _).trans (extends_setFn _ _ _)

lemma store_plain (h : ℕ) (f : KernelFun) :
    ∀ e ∈ [LoaderEvent.dlsym h f.symbol, .write (.fn f)], e.Plain := by
  simp [LoaderEvent.Plain]

/-- A call through a member that holds the address of its function. -/
lemma extends_callFn {env : LoaderEnv} {f : KernelFun} (hlive : s.freed = false)
    (hfn : s.kernel.fn f = some f.symbol) :
    Extends s (s.callFn env f) [.read (.fn f), .call (some f.symbol)] := by
  rw [LoaderState.callFn, LoaderState.mdb, hlive, if_neg Bool.false_ne_true, hfn]
  exact (extends_emit s _).trans (extends_emit _ _)

end Extends

section Load

variable {m : KernelModule} {h : ℕ} {f : KernelFun} {fs : List KernelFun} {s : LoaderState}

/-- A symbol that is found is stored. -/
lemma loadFuns_cons_of_exports (hf : m.exports f.symbol = true) :
    loadFuns m h (f :: fs) s
      = loadFuns m h fs ((s.emit (.dlsym h f.symbol)).setFn f (some f.symbol)) := by
  rw [loadFuns, loadSym]
  simp only [hf, if_true]

/-- A symbol that is missing closes the handle. -/
lemma loadFuns_cons_of_missing (hf : m.exports f.symbol ≠ true) :
    loadFuns m h (f :: fs) s
      = (false, ((s.emit (.dlsym h f.symbol)).setFn f none).emit (.dlclose (some h))) := by
  rw [loadFuns, loadSym]
  simp only [hf, if_false, Bool.false_eq_true]

/-- If no symbol is missing all members are set. -/
lemma loadFuns_of_exports (hall : ∀ f ∈ fs, m.exports f.symbol = true) :
    ∃ evs s', loadFuns m h fs s = (true, s') ∧ Extends s s' evs ∧
      (∀ e ∈ evs, LoaderEvent.Plain e) ∧ s'.kernel.state = s.kernel.state ∧
      ∀ f, f ∈ fs ∨ s.kernel.fn f = some f.symbol → s'.kernel.fn f = some f.symbol := by
  induction fs generalizing s with
  | nil => exact ⟨[], s, rfl, .refl s, by simp, rfl, fun f hf => hf.resolve_left List.not_mem_nil⟩
  | cons f fs ih =>
      obtain ⟨hf, hfs⟩ := List.forall_mem_cons.mp hall
      rw [loadFuns_cons_of_exports hf]
      obtain ⟨evs, s', hres, hext, hplain, hstate, hfns⟩ :=
        ih (s := (s.emit (.dlsym h f.symbol)).setFn f (some f.symbol)) hfs
      refine ⟨_, s', hres, (extends_store s h f _).trans hext,
        List.forall_mem_append.mpr ⟨store_plain h f, hplain⟩, hstate, fun g hg => hfns g ?_⟩
      by_cases hgf : g = f
      · subst hgf
        exact .inr (Function.update_self ..)
      · refine hg.imp (fun h => (List.mem_cons.mp h).resolve_left hgf) fun h => ?_
        exact (Function.update_of_ne hgf _ _).trans h

/-- If a symbol is missing the handle is closed at the first one. -/
lemma loadFuns_of_missing (hmissing : ¬ ∀ f ∈ fs, m.exports f.symbol = true) :
    ∃ evs s', loadFuns m h fs s = (false, s') ∧ Extends s s' (evs ++ [.dlclose (some h)]) ∧
      (∀ e ∈ evs, LoaderEvent.Plain e) ∧ s'.kernel.state = s.kernel.state := by
  induction fs generalizing s with
  | nil => exact absurd (by simp) hmissing
  | cons f fs ih =>
      by_cases hf : m.exports f.symbol = true
      · rw [loadFuns_cons_of_exports hf]
        obtain ⟨evs, s', hres, hext, hplain, hstate⟩ :=
          ih (s := (s.emit (.dlsym h f.symbol)).setFn f (some f.symbol))
            fun hfs => hmissing (List.forall_mem_cons.mpr ⟨hf, hfs⟩)
        refine ⟨_, s', hres, ?_, List.forall_mem_append.mpr ⟨store_plain h f, hplain⟩, hstate⟩
        rw [List.append_assoc]
        exact (extends_store s h f _).trans hext
      · rw [loadFuns_cons_of_missing hf]
        exact ⟨_, _, rfl, (extends_store s h f none).trans (extends_emit _ _), store_plain h f, rfl⟩

end Load

/-- A handle that is closed again leaves none open. -/
lemma closed_of_plain {evs : List LoaderEvent} {h : ℕ} (hplain : ∀ e ∈ evs, LoaderEvent.Plain e) :
    let tr := [LoaderEvent.dlopen (some h)] ++ (evs ++ [.dlclose (some h)])
    closes tr = (opens tr).map some ∧ .free ∉ tr ∧ shutdownCall ∉ tr := by
  intro tr
  refine ⟨?_, ?_, ?_⟩
  · rw [closes_append, closes_append, opens_append, opens_append, opens_of_plain hplain,
      closes_of_plain hplain]
    rfl
  · simpa [tr] using free_not_mem_of_plain hplain
  · simpa [tr, shutdownCall] using shutdown_not_mem_of_plain hplain

/-- A kernel in memory whose module has been loaded. -/
structure Loaded (h : ℕ) (s : LoaderState) : Prop where
  freed : s.freed = false
  pmdb : s.pmdb = true
  opened : opens s.trace = [h]
  not_closed : closes s.trace = []
  not_freed : .free ∉ s.trace
  not_shutdown : shutdownCall ∉ s.trace
  dlHandle : s.kernel.dlHandle = some h
  fn : ∀ f, s.kernel.fn f = some f.symbol

/-- Plain events leave a module loaded. -/
lemma Loaded.extend {h : ℕ} {s s' : LoaderState} {evs : List LoaderEvent} (hs : Loaded h s)
    (hext : Extends s s' evs) (hplain : ∀ e ∈ evs, LoaderEvent.Plain e)
    (hhandle : s'.kernel.dlHandle = s.kernel.dlHandle) (hfn : s'.kernel.fn = s.kernel.fn) :
    Loaded h s' where
  freed := hext.freed.trans hs.freed
  pmdb := hext.pmdb.trans hs.pmdb
  opened := by rw [hext.trace, opens_append, hs.opened, opens_of_plain hplain]; rfl
  not_closed := by rw [hext.trace, closes_append, hs.not_closed, closes_of_plain hplain]; rfl
  not_freed := by
    rw [hext.trace, List.mem_append, not_or]
    exact ⟨hs.not_freed, free_not_mem_of_plain hplain⟩
  not_shutdown := by
    rw [hext.trace, List.mem_append, not_or]
    exact ⟨hs.not_shutdown, shutdown_not_mem_of_plain hplain⟩
  dlHandle := hhandle.trans hs.dlHandle
  fn := fun f => by rw [hfn, hs.fn]

section Create

variable {env : LoaderEnv} {h : ℕ} {s : LoaderState}

/-- A module that does not load leaves no handle open. -/
lemma mdbKernelLoad_of_not_loads (hloads : ¬ env.Loads) :
    ∃ evs s', mdbKernelLoad env loaderInit = (mdbFail, s') ∧ Extends loaderInit s' evs ∧
      s'.kernel.state = mdbKrnNoinit ∧ closes evs = (opens evs).map some ∧ .free ∉ evs ∧
      shutdownCall ∉ evs := by
  rw [mdbKernelLoad]
  cases hname : env.kernelName with
  | none => exact ⟨[], _, rfl, .refl _, rfl, rfl, List.not_mem_nil, List.not_mem_nil⟩
  | some name =>
      dsimp only
      cases hopen : env.dlopen (kernelFilename name) with
      | none =>
          exact ⟨[.dlopen none], _, rfl, extends_emit _ _, rfl, rfl, by simp,
            by simp [shutdownCall]⟩
      | some h =>
          dsimp only
          have hext := extends_emit loaderInit (.dlopen (some h))
          by_cases hfuns : ∀ f ∈ kernelFuns, env.module.exports f.symbol = true
          · -- only the last symbol can be missing
            have hlog : env.module.exports registerLogContext ≠ true := fun hlog =>
              hloads ⟨name, h, hname, hopen, fun f => hfuns f (by cases f <;> decide), hlog⟩
            obtain ⟨evs, s', hres, hext', hplain, hstate, -⟩ := loadFuns_of_exports hfuns
            rw [hres]
            simp only [loadSym, hlog, if_false, Bool.false_eq_true]
            have hplain' : ∀ e ∈ evs ++ [.dlsym h registerLogContext], LoaderEvent.Plain e := by
              rw [List.forall_mem_append]
              exact ⟨hplain, by simp [LoaderEvent.Plain]⟩
            exact ⟨_, _, rfl,
              hext.trans ((hext'.trans (extends_emit _ _)).trans (extends_emit _ _)), hstate,
              closed_of_plain hplain'⟩
          · obtain ⟨evs, s', hres, hext', hplain, hstate⟩ := loadFuns_of_missing hfuns
            rw [hres]
            exact ⟨_, s', rfl, hext.trans hext', hstate, closed_of_plain hplain⟩

/-- A module that loads is loaded. -/
lemma mdbKernelLoad_of_loads (hloads : env.Loads) :
    ∃ h s', mdbKernelLoad env loaderInit = (mdbSuccess, s') ∧ Loaded h s' ∧
      s'.kernel.state = mdbKrnLoaded := by
  obtain ⟨name, h, hname, hopen, hfuns, hlog⟩ := hloads
  have hall : ∀ f ∈ kernelFuns, env.module.exports f.symbol = true := fun f _ => hfuns f
  have hopened := extends_emit loaderInit (.dlopen (some h))
  obtain ⟨evs, s₁, hres, hext, hplain, -, hfn⟩ := loadFuns_of_exports hall
  set s₂ := (s₁.emit (.dlsym h registerLogContext)).emit (.call (some registerLogContext)) with hs₂
  set s₃ := (s₂.setDlHandle (some h)).setState mdbKrnLoaded with hs₃
  have hload : mdbKernelLoad env loaderInit = (mdbSuccess, s₃) := by
    rw [mdbKernelLoad, hname]
    dsimp only
    rw [hopen]
    dsimp only
    rw [hres]
    simp only [loadSym, hlog, if_true]
    rfl
  have hext₃ := (((extends_emit s₁ (.dlsym h registerLogContext)).trans (extends_emit _
    (.call (some registerLogContext)))).trans (extends_setDlHandle s₂ (some h))).trans
      (extends_setState _ mdbKrnLoaded)
  have hlogcall : registerLogContext ≠ KernelFun.shutdown.symbol := by decide
  have hplain₃ : ∀ e ∈ evs ++ ([LoaderEvent.dlsym h registerLogContext]
      ++ [LoaderEvent.call (some registerLogContext)] ++ [LoaderEvent.write .dlHandle]
      ++ [LoaderEvent.write .state]), e.Plain := by
    rw [List.forall_mem_append]
    exact ⟨hplain, by simp [LoaderEvent.Plain, hlogcall]⟩
  have htrace := hopened.trans (hext.trans hext₃)
  refine ⟨h, s₃, hload, ⟨htrace.freed, htrace.pmdb, ?_, ?_, ?_, ?_, rfl, fun f => ?_⟩, rfl⟩
  · rw [htrace.trace, opens_append, opens_append, opens_of_plain hplain₃]
    rfl
  · rw [htrace.trace, closes_append, closes_append, closes_of_plain hplain₃]
    rfl
  · rw [htrace.trace]
    simpa [loaderInit] using free_not_mem_of_plain hplain₃
  · rw [htrace.trace]
    simpa [loaderInit, shutdownCall] using shutdown_not_mem_of_plain hplain₃
  · exact hfn f (.inl (by cases f <;> decide))

/-- A call into the module, apart from its shutdown, leaves it loaded. -/
lemma Loaded.callFn (hs : Loaded h s) (env : LoaderEnv) (f : KernelFun) (hf : f ≠ .shutdown) :
    Loaded h (s.callFn env f) := by
  have hsymbol : f.symbol ≠ KernelFun.shutdown.symbol := by
    cases f <;> first | exact absurd rfl hf | decide
  refine hs.extend (extends_callFn hs.freed (hs.fn f)) ?_ rfl rfl
  simp [LoaderEvent.Plain, hsymbol]

lemma Loaded.emit (hs : Loaded h s) (e : LoaderEvent) (he : e.Plain) : Loaded h (s.emit e) :=
  hs.extend (extends_emit s e) (by simpa using he) rfl rfl

lemma Loaded.logInfo (hs : Loaded h s) (env : LoaderEnv) : Loaded h (mdbKernelLogInfo env s) :=
  ((hs.callFn env .metadataQuery (by decide)).callFn env .metadataQuery (by decide)).callFn env
    .metadataQuery (by decide)

/-- The check fails exactly if the host lacks a feature, and leaves the module loaded. -/
lemma mdbKernelCheckCpuFeatures_spec (hs : Loaded h s) :
    ∃ s', Loaded h s' ∧ s'.kernel.state = s.kernel.state ∧
      mdbKernelCheckCpuFeatures env s
        = (if cpuCheckFeatures env.host env.module.cpuFeatures = 0 then mdbSuccess else mdbFail,
          s') := by
  have hcall := hs.callFn env .cpuFeatures (by decide)
  rw [mdbKernelCheckCpuFeatures]
  by_cases hzero : env.module.cpuFeatures = 0
  · refine ⟨_, hcall, rfl, ?_⟩
    have hcheck : cpuCheckFeatures env.host 0 = 0 := by
      rw [cpuCheckFeatures_eq_zero_iff]
      simp
    simp only [hzero, hcheck, if_true]
  · have hlist := hcall.emit (.featureList (cpuFeaturesToStr env.module.cpuFeatures 256)) trivial
    simp only [hzero, if_false]
    by_cases hmask : cpuCheckFeatures env.host env.module.cpuFeatures = 0
    · refine ⟨_, hlist, rfl, ?_⟩
      simp only [hmask, ne_eq, not_true_eq_false, if_false, if_true]
    · refine ⟨_, hlist.emit (.featureList (cpuFeaturesToStr
        (cpuCheckFeatures env.host env.module.cpuFeatures) 256)) trivial, rfl, ?_⟩
      simp only [hmask, ne_eq, not_false_eq_true, if_true, if_false]

/-- Whatever the module's function returns, the module stays loaded. -/
lemma mdbKernelInit_spec (env : LoaderEnv) (hs : Loaded h s) :
    ∃ s', Loaded h s' ∧ .returned env.module.init ∈ s'.trace ∧
      s'.kernel.state = (if env.module.init = mdbSuccess then mdbKrnInited else s.kernel.state) ∧
      mdbKernelInit env s = (env.module.init, s') := by
  have hcall := (hs.callFn env .init (by decide)).emit (.returned env.module.init) trivial
  rw [mdbKernelInit]
  by_cases hinit : env.module.init = mdbSuccess
  · refine ⟨_, hcall.extend (extends_setState _ mdbKrnInited) (by simp [LoaderEvent.Plain]) rfl rfl,
      ?_, ?_, ?_⟩
    · simp [LoaderState.setState, LoaderState.emit]
    · rw [if_pos hinit]
      rfl
    · simp only [hinit, ne_eq, not_true_eq_false, if_false]
  · refine ⟨_, hcall, by simp [LoaderState.emit], by rw [if_neg hinit]; rfl, ?_⟩
    simp only [hinit, ne_eq, not_false_eq_true, if_true]

/-! ### Destroying -/

/-- What `mdb_kernel_destroy` does to a live kernel before it frees it. -/
def destroyEvents (k : MdbKernel) : List LoaderEvent :=
  let shutdown := if mdbKrnInited ≤ k.state then
    [LoaderEvent.read (.fn .shutdown), .call (k.fn .shutdown)] else []
  let close := if mdbKrnLoaded ≤ k.state then
    [LoaderEvent.read .dlHandle, .dlclose k.dlHandle] else []
  .read .state :: (shutdown ++ .read .state :: close)

lemma mdbKernelDestroy_trace (hlive : s.freed = false) :
    (mdbKernelDestroy env s).trace = s.trace ++ destroyEvents s.kernel ++ [LoaderEvent.free] := by
  have hmdb : s.mdb env = s.kernel := by rw [LoaderState.mdb, hlive, if_neg Bool.false_ne_true]
  rw [mdbKernelDestroy, hmdb, destroyEvents]
  by_cases hinited : mdbKrnInited ≤ s.kernel.state
  · have hloaded : mdbKrnLoaded ≤ s.kernel.state := le_trans (by decide) hinited
    simp only [hinited, hloaded, if_true, LoaderState.callFn, LoaderState.emit, LoaderState.mdb,
      LoaderState.free, hlive, Bool.false_eq_true, if_false, List.append_assoc, List.cons_append,
      List.nil_append]
  · by_cases hloaded : mdbKrnLoaded ≤ s.kernel.state
    · simp only [hinited, hloaded, if_true, LoaderState.emit, LoaderState.mdb,
        LoaderState.free, hlive, Bool.false_eq_true, if_false, List.append_assoc, List.cons_append,
        List.nil_append]
    · simp only [hinited, hloaded, LoaderState.emit, LoaderState.mdb, LoaderState.free, hlive,
        Bool.false_eq_true, if_false, List.append_assoc, List.cons_append, List.nil_append]

/-- The events for a kernel whose module has been loaded but not initialised. -/
lemma destroyEvents_of_loaded (hs : Loaded h s) (hstate : s.kernel.state = mdbKrnLoaded) :
    destroyEvents s.kernel = [.read .state, .read .state, .read .dlHandle, .dlclose (some h)] := by
  rw [destroyEvents, hstate, if_neg (by decide), if_pos le_rfl, hs.dlHandle]
  rfl

/-- The events for a kernel without a module. -/
lemma destroyEvents_of_noinit (hstate : s.kernel.state = mdbKrnNoinit) :
    destroyEvents s.kernel = [.read .state, .read .state] := by
  rw [destroyEvents, hstate, if_neg (by decide), if_neg (by decide)]
  rfl

/-- In any case the state is read first. -/
lemma exists_mdbKernelDestroy_trace (env : LoaderEnv) (s : LoaderState) :
    ∃ evs, (mdbKernelDestroy env s).trace = s.trace ++ LoaderEvent.read .state :: evs := by
  rw [mdbKernelDestroy]
  split_ifs <;> simp [LoaderState.emit, LoaderState.callFn, LoaderState.free]

lemma free_mem_mdbKernelDestroy (env : LoaderEnv) (s : LoaderState) :
    .free ∈ (mdbKernelDestroy env s).trace := by
  rw [mdbKernelDestroy, LoaderState.free]
  exact List.mem_append_right _ (List.mem_singleton_self _)

/-- A kernel that is destroyed twice is read after it has been freed. -/
lemma not_releasedOnce_of_destroyed_twice (env : LoaderEnv) (s : LoaderState) :
    ¬ ReleasedOnce (mdbKernelDestroy env (mdbKernelDestroy env s)).trace := by
  intro h
  obtain ⟨evs, htrace⟩ := exists_mdbKernelDestroy_trace env (mdbKernelDestroy env s)
  have huntouched := h.untouched
  rw [htrace, List.pairwise_append] at huntouched
  exact huntouched.2.2 .free (free_mem_mdbKernelDestroy env s) (.read .state) List.mem_cons_self rfl
    trivial

/-- **The error path of a loaded kernel** closes the handle and frees the kernel. -/
lemma releasedOnce_of_loaded (hs : Loaded h s) (hstate : s.kernel.state = mdbKrnLoaded) :
    ReleasedOnce (mdbKernelDestroy env s).trace := by
  rw [mdbKernelDestroy_trace hs.freed, destroyEvents_of_loaded hs hstate]
  refine releasedOnce_of_no_shutdown ?_ ?_ ?_
  · rw [closes_append, opens_append, hs.not_closed, hs.opened]
    rfl
  · simpa using hs.not_freed
  · simpa [shutdownCall] using hs.not_shutdown

/-- **The error path without a module** frees the kernel. -/
lemma releasedOnce_of_not_loads {evs : List LoaderEvent} (hext : Extends loaderInit s evs)
    (hstate : s.kernel.state = mdbKrnNoinit) (hclosed : closes evs = (opens evs).map some)
    (hfree : .free ∉ evs) (hshutdown : shutdownCall ∉ evs) :
    ReleasedOnce (mdbKernelDestroy env s).trace := by
  rw [mdbKernelDestroy_trace hext.freed, destroyEvents_of_noinit hstate, hext.trace]
  refine releasedOnce_of_no_shutdown ?_ ?_ ?_
  · simp only [closes_append, opens_append, hclosed, List.map_append]
    rfl
  · simpa [loaderInit] using hfree
  · simpa [shutdownCall, loaderInit] using hshutdown

/-- A module that does not load leads to `error_exit`. -/
lemma mdbKernelCreate_of_not_loads (hloads : ¬ env.Loads) :
    ∃ s, ReleasedOnce (mdbKernelDestroy env s).trace ∧ mdbKernelCreate env = errorExit env s := by
  obtain ⟨evs, s, hload, hext, hstate, hclosed, hfree, hshutdown⟩ :=
    mdbKernelLoad_of_not_loads hloads
  refine ⟨s, releasedOnce_of_not_loads hext hstate hclosed hfree hshutdown, ?_⟩
  rw [mdbKernelCreate, hload]
  exact if_pos (by decide)

lemma createsOrReleases_of_not_loads (hloads : ¬ env.Loads) : CreatesOrReleases env := by
  obtain ⟨s, hreleased, hcreate⟩ := mdbKernelCreate_of_not_loads hloads
  rw [CreatesOrReleases, hcreate]
  exact .inr ⟨rfl, rfl, hreleased⟩

/-- With the features it asks for, a module that loads is initialised. -/
lemma mdbKernelCreate_of_features (hloads : env.Loads)
    (hfeatures : cpuCheckFeatures env.host env.module.cpuFeatures = 0) :
    ∃ h s, Loaded h s ∧ .returned env.module.init ∈ s.trace ∧
      s.kernel.state = (if env.module.init = mdbSuccess then mdbKrnInited else mdbKrnLoaded) ∧
      mdbKernelCreate env
        = if env.module.init ≠ mdbSuccess then errorExit env s else (mdbSuccess, s) := by
  obtain ⟨h, s₁, hload, hs₁, hstate₁⟩ := mdbKernelLoad_of_loads hloads
  obtain ⟨s₂, hs₂, hstate₂, hcheck⟩ := mdbKernelCheckCpuFeatures_spec (hs₁.logInfo env)
  obtain ⟨s₃, hs₃, hreturned, hstate₃, hinit⟩ := mdbKernelInit_spec env hs₂
  have hstate : s₂.kernel.state = mdbKrnLoaded := hstate₂.trans hstate₁
  rw [if_pos hfeatures] at hcheck
  refine ⟨h, s₃, hs₃, hreturned, by rw [hstate₃, hstate], ?_⟩
  rw [mdbKernelCreate, hload]
  simp only [hcheck, hinit, ne_eq, not_true_eq_false, if_false]

/-- Whether it is initialised or not, nothing is lost. -/
lemma createsOrReleases_of_features (hloads : env.Loads)
    (hfeatures : cpuCheckFeatures env.host env.module.cpuFeatures = 0) : CreatesOrReleases env := by
  obtain ⟨h, s, hs, -, hstate, hcreate⟩ := mdbKernelCreate_of_features hloads hfeatures
  rw [CreatesOrReleases, hcreate]
  by_cases hres : env.module.init = mdbSuccess
  · rw [if_neg (not_not.mpr hres)]
    exact .inl ⟨rfl, ⟨h, hs.opened, hs.dlHandle⟩, hs.not_closed, hs.not_freed, hs.pmdb⟩
  · rw [if_pos hres]
    rw [if_neg hres] at hstate
    exact .inr ⟨rfl, rfl, releasedOnce_of_loaded hs hstate⟩

/-- Without them the kernel is destroyed, and at `error_exit` once more. -/
lemma mdbKernelCreate_of_missing (hloads : env.Loads)
    (hfeatures : cpuCheckFeatures env.host env.module.cpuFeatures ≠ 0) :
    ∃ s, mdbKernelCreate env = errorExit env (mdbKernelDestroy env s) := by
  obtain ⟨h, s₁, hload, hs₁, -⟩ := mdbKernelLoad_of_loads hloads
  obtain ⟨s₂, -, -, hcheck⟩ := mdbKernelCheckCpuFeatures_spec (hs₁.logInfo env)
  have hfail : mdbFail ≠ mdbSuccess := by decide
  rw [if_neg hfeatures] at hcheck
  refine ⟨s₂, ?_⟩
  rw [mdbKernelCreate, hload]
  simp only [hcheck, ne_eq, not_true_eq_false, if_false, hfail, not_false_eq_true, if_true]

lemma not_createsOrReleases_of_missing (hloads : env.Loads)
    (hfeatures : cpuCheckFeatures env.host env.module.cpuFeatures ≠ 0) :
    ¬ CreatesOrReleases env := by
  obtain ⟨s, hcreate⟩ := mdbKernelCreate_of_missing hloads hfeatures
  rw [CreatesOrReleases, hcreate]
  rintro (⟨hres, -⟩ | ⟨-, -, hreleased⟩)
  · exact absurd (show mdbFail = mdbSuccess from hres) (by decide)
  · exact not_releasedOnce_of_destroyed_twice env s hreleased

end Create

/-- **A load creates the kernel or releases everything once**, unless the module loads and asks for
a feature that the host does not have: then the kernel is destroyed twice. -/
theorem mdb_kernel_create_iff (env : LoaderEnv) :
    CreatesOrReleases env ↔
      (env.Loads → ∀ i, env.module.cpuFeatures.getLsbD i = true →
        ∃ f : CpuFeature, f.index = i ∧ env.host f.probed = true) := by
  rw [← cpuCheckFeatures_eq_zero_iff]
  by_cases hloads : env.Loads
  · rw [imp_iff_right hloads]
    by_cases hfeatures : cpuCheckFeatures env.host env.module.cpuFeatures = 0
    · exact iff_of_true (createsOrReleases_of_features hloads hfeatures) hfeatures
    · exact iff_of_false (not_createsOrReleases_of_missing hloads hfeatures) hfeatures
  · exact iff_of_true (createsOrReleases_of_not_loads hloads) fun h => absurd h hloads

/-- A complete module that asks for `avx2`, on a host without it. -/
def missingAvx2 : LoaderEnv where
  kernelName := some "mdb_avx2"
  dlopen _ := some 1
  module := ⟨fun _ => true, CpuFeature.avx2.bit, mdbSuccess⟩
  host _ := false
  stale := loaderInit.kernel

/-- **A missing feature frees the kernel twice.** -/
theorem mdb_kernel_create_destroys_twice : ¬ ∀ env, CreatesOrReleases env := fun h =>
  not_createsOrReleases_of_missing
    (show missingAvx2.Loads from ⟨"mdb_avx2", 1, rfl, rfl, fun _ => rfl, rfl⟩) (by decide)
    (h missingAvx2)

/-! ### The life of a kernel -/

/-- What stands in front of the first `x` stands in front of every `x`. -/
lemma mem_of_first {α : Type*} {tr tr' pre post : List α} {x y : α}
    (h : tr ++ x :: tr' = pre ++ x :: post) (hx : x ∉ tr) (hy : y ∈ tr) : y ∈ pre := by
  rcases List.append_eq_append_iff.mp h with ⟨c, rfl, -⟩ | ⟨c, rfl, hc⟩
  · exact List.mem_append_left c hy
  · cases c with
    | nil => rwa [List.append_nil] at hy
    | cons z c =>
        obtain rfl : x = z := (List.cons.inj hc).1
        exact absurd (List.mem_append_right pre List.mem_cons_self) hx

/-- A call that succeeds has initialised the module. -/
lemma exists_of_created {env : LoaderEnv} (hcreated : (mdbKernelCreate env).1 = mdbSuccess) :
    ∃ h s, Loaded h s ∧ .returned mdbSuccess ∈ s.trace ∧ s.kernel.state = mdbKrnInited ∧
      (mdbKernelCreate env).2 = s := by
  have hfail : ∀ s, (errorExit env s).1 ≠ mdbSuccess := fun _ =>
    show mdbFail ≠ mdbSuccess by decide
  by_cases hloads : env.Loads
  · by_cases hfeatures : cpuCheckFeatures env.host env.module.cpuFeatures = 0
    · obtain ⟨h, s, hs, hreturned, hstate, hcreate⟩ := mdbKernelCreate_of_features hloads hfeatures
      rw [hcreate] at hcreated ⊢
      by_cases hres : env.module.init = mdbSuccess
      · rw [if_neg (not_not.mpr hres)]
        rw [if_pos hres] at hstate
        exact ⟨h, s, hs, hres ▸ hreturned, hstate, rfl⟩
      · rw [if_pos hres] at hcreated
        exact absurd hcreated (hfail s)
    · obtain ⟨s, hcreate⟩ := mdbKernelCreate_of_missing hloads hfeatures
      rw [hcreate] at hcreated
      exact absurd hcreated (hfail _)
  · obtain ⟨s, -, hcreate⟩ := mdbKernelCreate_of_not_loads hloads
    rw [hcreate] at hcreated
    exact absurd hcreated (hfail s)

/-- **A kernel that has been created is released once**, and its module shut down, when it is
destroyed. -/
theorem create_destroy (env : LoaderEnv) (hcreated : (mdbKernelCreate env).1 = mdbSuccess) :
    ReleasedOnce (mdbKernelDestroy env (mdbKernelCreate env).2).trace ∧
      (mdbKernelDestroy env (mdbKernelCreate env).2).trace.count shutdownCall = 1 := by
  obtain ⟨h, s, hs, hreturned, hstate, hresult⟩ := exists_of_created hcreated
  have hevs : destroyEvents s.kernel = [.read .state, .read (.fn .shutdown)]
      ++ shutdownCall :: [.read .state, .read .dlHandle, .dlclose (some h)] := by
    rw [destroyEvents, hstate, if_pos le_rfl, if_pos (by decide), hs.dlHandle, hs.fn]
    rfl
  rw [hresult, mdbKernelDestroy_trace hs.freed, hevs]
  refine ⟨releasedOnce_of_free_last ?_ ?_ fun pre post hpre => ?_, ?_⟩
  · simp only [closes_append, opens_append, hs.not_closed, hs.opened]
    rfl
  · simpa [shutdownCall] using hs.not_freed
  · rw [← List.append_assoc] at hpre
    refine mem_of_first hpre ?_ (List.mem_append_left _ hreturned)
    simpa [shutdownCall] using hs.not_shutdown
  · have hzero := List.count_eq_zero_of_not_mem hs.not_shutdown
    have hother : ∀ e : LoaderEvent, (∀ f, e ≠ .call f) → (e == shutdownCall) = false :=
      fun e he => beq_eq_false_iff_ne.mpr (he _)
    simp [hzero, List.count_cons, hother]

end Mdb.Loader
