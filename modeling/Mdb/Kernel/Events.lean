import Mdb.Kernel.Common
import Mdb.Library.StepSystem

/-!
The keyboard events of the Mandelbrot kernels (`mdb_kernel_event_handler` of
`kernel_modules/mandelbrot/mdb_kernel_common.c`).

Two keys change `mdb.bailout`, by a step that grows with it (`bailout_get_mod`). The step down is
never the whole of it (`bailoutGetMod_lt`), so `MDB_KEY_3` stops at one; the step up has no bound,
and from `2 ^ 32 - 512` it wraps to zero. `bailout_pos_iff` says that this is the only way to
zero: a sequence of events keeps the bailout positive throughout iff no `MDB_KEY_4` arrives there.
`exists_top` is the sequence that gets there.

At one the step is zero, which keeps `MDB_KEY_3` from zero and `MDB_KEY_4` from having any effect:
`depthKeysWork_throughout_iff` says that both keys work throughout iff no event goes to one or
zero. The bailouts are then multiples of their own step (`OnGrid`), so that `2 ^ 32 - 512` is the
only one from which the step up wraps.
-/

namespace Mdb

/-! ### Events -/

/-- `struct mdb_event_keyboard`. -/
structure MdbEventKeyboard where
  key : ℤ
  scancode : ℤ
  action : ℤ
  mods : ℤ
  deriving DecidableEq

/-- `MDB_EVENT_KEYBOARD`. -/
def mdbEventKeyboard : ℤ := 0x100

/-- `MDB_ACTION_PRESS`. -/
def mdbActionPress : ℤ := 1

/-- `MDB_ACTION_REPEAT`. -/
def mdbActionRepeat : ℤ := 2

/-- `MDB_KEY_1`. -/
def mdbKey1 : ℤ := 49

/-- `MDB_KEY_2`. -/
def mdbKey2 : ℤ := 50

/-- `MDB_KEY_3`. -/
def mdbKey3 : ℤ := 51

/-- `MDB_KEY_4`. -/
def mdbKey4 : ℤ := 52

/-- `MDB_KEY_RIGHT`. -/
def mdbKeyRight : ℤ := 262

/-- `MDB_KEY_LEFT`. -/
def mdbKeyLeft : ℤ := 263

/-- `MDB_KEY_DOWN`. -/
def mdbKeyDown : ℤ := 264

/-- `MDB_KEY_UP`. -/
def mdbKeyUp : ℤ := 265

/-- `MDB_KEY_F1`. -/
def mdbKeyF1 : ℤ := 290

/-- `MDB_KEY_F2`. -/
def mdbKeyF2 : ℤ := 291

/-- `MDB_KEY_F3`. -/
def mdbKeyF3 : ℤ := 292

/-- `MDB_KEY_F4`. -/
def mdbKeyF4 : ℤ := 293

/-! ### The handler -/

/-- `bailout_get_mod`. -/
def bailoutGetMod (bailout : ℕ) : ℕ :=
  if bailout = 1 then 0
  else if bailout < 256 then 1
  else if bailout < 512 then 2
  else if bailout < 1024 then 4
  else if bailout < 2048 then 8
  else if bailout < 4096 then 32
  else if bailout < 8192 then 128
  else if bailout < 16384 then 256
  else 512

/-- The event is a press or a repeat. -/
def MdbEventKeyboard.Pressed (event : MdbEventKeyboard) : Prop :=
  event.action = mdbActionPress ∨ event.action = mdbActionRepeat

instance (event : MdbEventKeyboard) : Decidable event.Pressed :=
  inferInstanceAs (Decidable (_ ∨ _))

/-- `event_keyboard`. -/
def eventKeyboard (mdb : MdbT) (event : MdbEventKeyboard) : MdbT × ℤ :=
  if event.Pressed then
    if event.key = mdbKey1 then ({ mdb with scale := mdb.scale * 1.1 }, mdbSuccess)
    else if event.key = mdbKey2 then ({ mdb with scale := mdb.scale * 0.9 }, mdbSuccess)
    else if event.key = mdbKey3 then
      ({ mdb with bailout := u32Sub mdb.bailout (bailoutGetMod mdb.bailout) }, mdbSuccess)
    else if event.key = mdbKey4 then
      ({ mdb with bailout := u32 (mdb.bailout + bailoutGetMod mdb.bailout) }, mdbSuccess)
    else if event.key = mdbKeyRight then
      ({ mdb with shiftX := mdb.shiftX + 0.1 * mdb.scale }, mdbSuccess)
    else if event.key = mdbKeyLeft then
      ({ mdb with shiftX := mdb.shiftX - 0.1 * mdb.scale }, mdbSuccess)
    else if event.key = mdbKeyUp then
      ({ mdb with shiftY := mdb.shiftY + 0.1 * mdb.scale }, mdbSuccess)
    else if event.key = mdbKeyDown then
      ({ mdb with shiftY := mdb.shiftY - 0.1 * mdb.scale }, mdbSuccess)
    else if event.key = mdbKeyF1 then
      ({ mdb with scale := 2.793042, shiftX := -0.860787, shiftY := 0 }, mdbSuccess)
    else if event.key = mdbKeyF2 then
      ({ mdb with
        scale := 0.00188964
        shiftX := -1.347385054652062
        shiftY := -0.063483549665202 }, mdbSuccess)
    else if event.key = mdbKeyF3 then
      ({ mdb with shiftX := -0.715882, shiftY := -0.287651, scale := 0.057683 }, mdbSuccess)
    else if event.key = mdbKeyF4 then
      ({ mdb with shiftX := 0.356868, shiftY := -0.348140, scale := 0.003869 }, mdbSuccess)
    else (mdb, mdbFail)
  else (mdb, mdbSuccess)

/-- `mdb_kernel_event_handler`. -/
def mdbKernelEventHandler (mdb : MdbT) (type : ℤ) (event : MdbEventKeyboard) : MdbT × ℤ :=
  if type = mdbEventKeyboard then eventKeyboard mdb event else (mdb, mdbFail)

/-- A kernel that is delivered keyboard events. -/
def eventSystem : StepSystem MdbT MdbEventKeyboard :=
  ⟨fun mdb event => some (mdbKernelEventHandler mdb mdbEventKeyboard event).1⟩

/-! ### One event -/

/-- The step is less than the bailout, which it cannot take to zero. -/
lemma bailoutGetMod_lt {b : ℕ} (hb : 1 ≤ b) : bailoutGetMod b < b := by
  fun_cases bailoutGetMod b <;> omega

lemma bailoutGetMod_le (b : ℕ) : bailoutGetMod b ≤ 512 := by
  fun_cases bailoutGetMod b <;> omega

lemma bailoutGetMod_top {b : ℕ} (hb : 16384 ≤ b) : bailoutGetMod b = 512 := by
  fun_cases bailoutGetMod b <;> omega

lemma mdbKey3_ne_key4 : mdbKey3 ≠ mdbKey4 := by
  simp [mdbKey3, mdbKey4]

section Handler

variable (mdb : MdbT) {event : MdbEventKeyboard}

/-- `MDB_KEY_3` makes a step down. -/
lemma handler_bailout_key3 (h : event.Pressed ∧ event.key = mdbKey3) :
    (mdbKernelEventHandler mdb mdbEventKeyboard event).1.bailout
      = u32Sub mdb.bailout (bailoutGetMod mdb.bailout) := by
  rw [mdbKernelEventHandler, if_pos rfl, eventKeyboard, if_pos h.1, h.2]
  simp [mdbKey1, mdbKey2, mdbKey3]

/-- `MDB_KEY_4` makes a step up. -/
lemma handler_bailout_key4 (h : event.Pressed ∧ event.key = mdbKey4) :
    (mdbKernelEventHandler mdb mdbEventKeyboard event).1.bailout
      = u32 (mdb.bailout + bailoutGetMod mdb.bailout) := by
  rw [mdbKernelEventHandler, if_pos rfl, eventKeyboard, if_pos h.1, h.2]
  simp [mdbKey1, mdbKey2, mdbKey3, mdbKey4]

/-- The other events leave the bailout alone. -/
lemma handler_bailout_of_not (h3 : ¬ (event.Pressed ∧ event.key = mdbKey3))
    (h4 : ¬ (event.Pressed ∧ event.key = mdbKey4)) :
    (mdbKernelEventHandler mdb mdbEventKeyboard event).1.bailout = mdb.bailout := by
  rw [mdbKernelEventHandler, if_pos rfl, eventKeyboard]
  by_cases hp : event.Pressed
  · rw [if_pos hp, if_neg fun hk => h3 ⟨hp, hk⟩, if_neg fun hk => h4 ⟨hp, hk⟩]
    simp only [apply_ite Prod.fst, apply_ite MdbT.bailout, ite_self]
  · rw [if_neg hp]

end Handler

/-- The event does not step up from the last multiple of the step below the 32-bit limit. -/
def BelowWrap (mdb : MdbT) (event : MdbEventKeyboard) : Prop :=
  ¬ (mdb.bailout = 2 ^ 32 - 512 ∧ event.Pressed ∧ event.key = mdbKey4)

/-- An event keeps the bailout within 32 bits. -/
lemma handler_bailout_lt {mdb : MdbT} (hlt : mdb.bailout < 2 ^ 32) (event : MdbEventKeyboard) :
    (mdbKernelEventHandler mdb mdbEventKeyboard event).1.bailout < 2 ^ 32 := by
  by_cases h3 : event.Pressed ∧ event.key = mdbKey3
  · rw [handler_bailout_key3 mdb h3]
    exact u32_lt _
  by_cases h4 : event.Pressed ∧ event.key = mdbKey4
  · rw [handler_bailout_key4 mdb h4]
    exact u32_lt _
  · rwa [handler_bailout_of_not mdb h3 h4]

/-- **One event, exactly**: a positive bailout stays positive iff the event does not wrap it. -/
lemma handler_bailout_pos_iff {mdb : MdbT} (hpos : 1 ≤ mdb.bailout) (hlt : mdb.bailout < 2 ^ 32)
    (event : MdbEventKeyboard) :
    1 ≤ (mdbKernelEventHandler mdb mdbEventKeyboard event).1.bailout ↔ BelowWrap mdb event := by
  have hmod := bailoutGetMod_lt hpos
  rw [BelowWrap]
  by_cases h3 : event.Pressed ∧ event.key = mdbKey3
  · rw [handler_bailout_key3 mdb h3, u32Sub_of_le hmod.le hlt]
    exact ⟨fun _ hwrap => mdbKey3_ne_key4 (h3.2.symm.trans hwrap.2.2), fun _ => by omega⟩
  · by_cases h4 : event.Pressed ∧ event.key = mdbKey4
    · rw [handler_bailout_key4 mdb h4, and_iff_left h4]
      by_cases htop : mdb.bailout = 2 ^ 32 - 512
      · -- the one value from which the step up wraps to zero
        rw [htop, bailoutGetMod_top (by norm_num), u32]
        norm_num
      · have hle := bailoutGetMod_le mdb.bailout
        have htop' : 16384 ≤ mdb.bailout → bailoutGetMod mdb.bailout = 512 := bailoutGetMod_top
        rw [u32]
        refine ⟨fun _ => htop, fun _ => ?_⟩
        omega
    · rw [handler_bailout_of_not mdb h3 h4]
      exact ⟨fun _ hwrap => h4 hwrap.2, fun _ => hpos⟩

/-! ### Sequences of events -/

/-- **The bailout, exactly.** A sequence of keyboard events after `mdb_kernel_init` keeps the
bailout positive throughout iff none of them is an `MDB_KEY_4` at `2 ^ 32 - 512`. -/
theorem bailout_pos_iff (mdb : MdbT) (events : List MdbEventKeyboard) :
    (∀ pre s, pre <+: events → eventSystem.run (mdbKernelInit mdb) pre = some s → 1 ≤ s.bailout)
      ↔ eventSystem.Meets BelowWrap (mdbKernelInit mdb) events := by
  have hstep : ∀ s e s', 1 ≤ s.bailout ∧ s.bailout < 2 ^ 32 → eventSystem.step s e = some s' →
      (1 ≤ s'.bailout ∧ s'.bailout < 2 ^ 32 ↔ BelowWrap s e) := by
    rintro s e s' ⟨hpos, hlt⟩ hs'
    obtain rfl := Option.some.inj hs'
    rw [handler_bailout_pos_iff hpos hlt, and_iff_left (handler_bailout_lt hlt e)]
  have hinit : 1 ≤ (mdbKernelInit mdb).bailout ∧ (mdbKernelInit mdb).bailout < 2 ^ 32 := by
    rw [mdbKernelInit]
    norm_num
  rw [← eventSystem.forall_reached_iff_meets (fun s e => ⟨_, rfl⟩) hstep hinit]
  refine forall₂_congr fun pre s => imp_congr_right fun _ => imp_congr_right fun hrun => ?_
  have hlt : s.bailout < 2 ^ 32 := eventSystem.run_induct (P := fun s => s.bailout < 2 ^ 32)
    (fun s e s' hs hs' => Option.some.inj hs' ▸ handler_bailout_lt hs e) hinit.2 hrun
  rw [and_iff_left hlt]

/-! ### Where the keys lead -/

/-- Some sequence of events takes the kernel to the given bailout. -/
def Reaches (mdb : MdbT) (b : ℕ) : Prop :=
  ∃ events s, eventSystem.run mdb events = some s ∧ s.bailout = b

/-- A press of `MDB_KEY_3`. -/
def pressKey3 : MdbEventKeyboard := ⟨mdbKey3, 0, mdbActionPress, 0⟩

/-- A press of `MDB_KEY_4`. -/
def pressKey4 : MdbEventKeyboard := ⟨mdbKey4, 0, mdbActionPress, 0⟩

lemma press3_bailout (mdb : MdbT) :
    (mdbKernelEventHandler mdb mdbEventKeyboard pressKey3).1.bailout
      = u32Sub mdb.bailout (bailoutGetMod mdb.bailout) :=
  handler_bailout_key3 mdb ⟨Or.inl rfl, rfl⟩

lemma press4_bailout (mdb : MdbT) :
    (mdbKernelEventHandler mdb mdbEventKeyboard pressKey4).1.bailout
      = u32 (mdb.bailout + bailoutGetMod mdb.bailout) :=
  handler_bailout_key4 mdb ⟨Or.inl rfl, rfl⟩

/-- Presses of one key take the bailout along the path of what the key does to it. -/
lemma reaches_path {event : MdbEventKeyboard} (f : ℕ → ℕ)
    (hf : ∀ s, (mdbKernelEventHandler s mdbEventKeyboard event).1.bailout = f s.bailout)
    {mdb : MdbT} (path : ℕ → ℕ) {k : ℕ} (hpath : ∀ i < k, f (path i) = path (i + 1))
    (h : Reaches mdb (path 0)) : Reaches mdb (path k) := by
  induction k with
  | zero => exact h
  | succ k ih =>
      obtain ⟨events, s, hrun, hs⟩ := ih fun i hi => hpath i (Nat.lt_succ_of_lt hi)
      refine ⟨events ++ [event], _,
        eventSystem.run_trans hrun (eventSystem.run_singleton s event), ?_⟩
      rw [hf, hs, hpath k (Nat.lt_succ_self k)]

/-- Where the step up is `m`, presses of `MDB_KEY_4` take the bailout up in steps of `m`. -/
lemma reaches_presses {mdb : MdbT} {lo hi m : ℕ}
    (hmod : ∀ b, lo ≤ b → b < hi → bailoutGetMod b = m) (hm : 1 ≤ m) (hhi : hi < 2 ^ 32)
    (k : ℕ) (hk : lo + k * m = hi) (h : Reaches mdb lo) : Reaches mdb hi := by
  rw [← hk]
  refine reaches_path (fun b => u32 (b + bailoutGetMod b)) press4_bailout (fun i => lo + i * m)
    (fun i hi' => ?_) (by rwa [Nat.zero_mul, Nat.add_zero])
  have hle : (i + 1) * m ≤ k * m := Nat.mul_le_mul_right m hi'
  rw [Nat.succ_mul] at hle
  rw [hmod _ (Nat.le_add_right lo _) (by omega), u32_of_lt (by omega), Nat.succ_mul, Nat.add_assoc]

/-- Enough presses of `MDB_KEY_3` take the bailout to one. -/
lemma exists_one (mdb : MdbT) : Reaches (mdbKernelInit mdb) 1 := by
  have h₀ : Reaches (mdbKernelInit mdb) 256 := ⟨[], _, rfl, rfl⟩
  -- the first press is from the lowest multiple of two, the others are steps of one
  have h₁ : Reaches (mdbKernelInit mdb) 254 :=
    reaches_path (k := 1) (fun b => u32Sub b (bailoutGetMod b)) press3_bailout
      (fun i => 256 - 2 * i) (fun i hi => by rw [Nat.lt_one_iff.mp hi]; decide) h₀
  have hpath := @reaches_path pressKey3 (fun b => u32Sub b (bailoutGetMod b)) press3_bailout
    (mdbKernelInit mdb) (fun i => 254 - i) 253
  refine hpath (fun i hi => ?_) h₁
  have hmod : bailoutGetMod (254 - i) = 1 := by
    fun_cases bailoutGetMod (254 - i) <;> omega
  rw [hmod, u32Sub_of_le (by omega) (by omega), Nat.sub_sub]

/-- After enough presses of `MDB_KEY_4` the bailout is `2 ^ 32 - 512`. -/
lemma exists_top (mdb : MdbT) : Reaches (mdbKernelInit mdb) (2 ^ 32 - 512) := by
  have h₀ : Reaches (mdbKernelInit mdb) 256 := ⟨[], _, rfl, rfl⟩
  have h₁ : Reaches (mdbKernelInit mdb) 512 := reaches_presses (m := 2)
    (fun b _ _ => by fun_cases bailoutGetMod b <;> omega) one_le_two (by norm_num) 128 rfl h₀
  have h₂ : Reaches (mdbKernelInit mdb) 1024 := reaches_presses (m := 4)
    (fun b _ _ => by fun_cases bailoutGetMod b <;> omega) (by norm_num) (by norm_num) 128 rfl h₁
  have h₃ : Reaches (mdbKernelInit mdb) 2048 := reaches_presses (m := 8)
    (fun b _ _ => by fun_cases bailoutGetMod b <;> omega) (by norm_num) (by norm_num) 128 rfl h₂
  have h₄ : Reaches (mdbKernelInit mdb) 4096 := reaches_presses (m := 32)
    (fun b _ _ => by fun_cases bailoutGetMod b <;> omega) (by norm_num) (by norm_num) 64 rfl h₃
  have h₅ : Reaches (mdbKernelInit mdb) 8192 := reaches_presses (m := 128)
    (fun b _ _ => by fun_cases bailoutGetMod b <;> omega) (by norm_num) (by norm_num) 32 rfl h₄
  have h₆ : Reaches (mdbKernelInit mdb) 16384 := reaches_presses (m := 256)
    (fun b _ _ => by fun_cases bailoutGetMod b <;> omega) (by norm_num) (by norm_num) 32 rfl h₅
  exact reaches_presses (fun b hb _ => bailoutGetMod_top hb) (by norm_num) (by norm_num) 8388575
    (by norm_num) h₆

/-- **The bailout reaches zero**: `MDB_KEY_4` pressed often enough after `mdb_kernel_init`. -/
theorem bailout_zero :
    ¬ ∀ mdb events s, eventSystem.run (mdbKernelInit mdb) events = some s → 1 ≤ s.bailout := by
  intro h
  obtain ⟨events, s, hrun, hs⟩ := exists_top mdbLoaded
  have hzero := h mdbLoaded _ _
    (eventSystem.run_trans hrun (eventSystem.run_singleton s pressKey4))
  rw [press4_bailout, hs, bailoutGetMod_top (by norm_num), u32] at hzero
  exact absurd hzero (by norm_num)

/-! ### The depth keys -/

/-- Below the last step before the 32-bit limit `MDB_KEY_4` raises the bailout, and `MDB_KEY_3`
lowers it unless it is one, and leaves it positive. -/
def DepthKeysWork (mdb : MdbT) : Prop :=
  mdb.bailout < 2 ^ 32 - 512 → ∀ event : MdbEventKeyboard, event.Pressed →
    (event.key = mdbKey4 →
      mdb.bailout < (mdbKernelEventHandler mdb mdbEventKeyboard event).1.bailout) ∧
    (event.key = mdbKey3 → mdb.bailout ≠ 1 →
      1 ≤ (mdbKernelEventHandler mdb mdbEventKeyboard event).1.bailout ∧
      (mdbKernelEventHandler mdb mdbEventKeyboard event).1.bailout < mdb.bailout)

/-- The event does not step down from two, to where the step is zero. -/
def AboveOne (mdb : MdbT) (event : MdbEventKeyboard) : Prop :=
  ¬ (mdb.bailout = 2 ∧ event.Pressed ∧ event.key = mdbKey3)

lemma bailoutGetMod_pos {b : ℕ} (hb : b ≠ 1) : 1 ≤ bailoutGetMod b := by
  fun_cases bailoutGetMod b <;> omega

lemma bailoutGetMod_add_two_le {b : ℕ} (hb : 3 ≤ b) : bailoutGetMod b + 2 ≤ b := by
  fun_cases bailoutGetMod b <;> omega

/-- The keys work at every bailout but zero, which `MDB_KEY_3` takes to the largest value, and
one, which `MDB_KEY_4` does not change. -/
lemma depthKeysWork_iff {mdb : MdbT} (hlt : mdb.bailout < 2 ^ 32) :
    DepthKeysWork mdb ↔ 2 ≤ mdb.bailout := by
  constructor
  · intro h
    by_contra hlow
    have hwork := h (by omega)
    obtain h0 | h1 : mdb.bailout = 0 ∨ mdb.bailout = 1 := by omega
    · obtain ⟨-, hdown⟩ := (hwork pressKey3 (Or.inl rfl)).2 rfl (by omega)
      exact absurd (h0 ▸ hdown) (Nat.not_lt_zero _)
    · have hup := (hwork pressKey4 (Or.inl rfl)).1 rfl
      rw [press4_bailout, h1] at hup
      exact absurd hup (by decide)
  · intro h hb event hp
    have hpos := bailoutGetMod_pos (b := mdb.bailout) (by omega)
    have hlt' := bailoutGetMod_lt (b := mdb.bailout) (by omega)
    have hle := bailoutGetMod_le mdb.bailout
    refine ⟨fun h4 => ?_, fun h3 _ => ?_⟩
    · rw [handler_bailout_key4 mdb ⟨hp, h4⟩, u32_of_lt (by omega)]
      omega
    · rw [handler_bailout_key3 mdb ⟨hp, h3⟩, u32Sub_of_le hlt'.le hlt]
      omega

/-- The bailouts the keys leave behind while they work: multiples of their own step. -/
def OnGrid (mdb : MdbT) : Prop :=
  2 ≤ mdb.bailout ∧ mdb.bailout < 2 ^ 32 ∧ bailoutGetMod mdb.bailout ∣ mdb.bailout

/-- The step grows by factors. -/
lemma bailoutGetMod_dvd_of_le {a b : ℕ} (ha : a ≠ 1) (h : a ≤ b) :
    bailoutGetMod a ∣ bailoutGetMod b := by
  fun_cases bailoutGetMod a <;> fun_cases bailoutGetMod b <;> omega

/-- So a step down stays on the grid: the step there divides both the bailout and the step. -/
lemma bailoutGetMod_dvd_sub {b : ℕ} (hb : 3 ≤ b) (h : bailoutGetMod b ∣ b) :
    bailoutGetMod (b - bailoutGetMod b) ∣ b - bailoutGetMod b := by
  have hle := bailoutGetMod_add_two_le hb
  have hstep : bailoutGetMod (b - bailoutGetMod b) ∣ bailoutGetMod b :=
    bailoutGetMod_dvd_of_le (by omega) (Nat.sub_le _ _)
  exact Nat.dvd_sub (hstep.trans h) hstep

/-- Each threshold is a multiple of the step that begins there, so a step up stays on the grid. -/
lemma bailoutGetMod_dvd_add {b : ℕ} (hb : 2 ≤ b) (h : bailoutGetMod b ∣ b) :
    bailoutGetMod (b + bailoutGetMod b) ∣ b + bailoutGetMod b := by
  revert h
  fun_cases bailoutGetMod b <;> intro h <;> fun_cases bailoutGetMod (b + _) <;> omega

/-- **One event on the grid, exactly**: the keys work after it iff it neither steps down from two
nor wraps, and then it stays on the grid. -/
lemma handler_onGrid {mdb : MdbT} (h : OnGrid mdb) (event : MdbEventKeyboard) :
    (2 ≤ (mdbKernelEventHandler mdb mdbEventKeyboard event).1.bailout ↔
      AboveOne mdb event ∧ BelowWrap mdb event) ∧
    (2 ≤ (mdbKernelEventHandler mdb mdbEventKeyboard event).1.bailout →
      OnGrid (mdbKernelEventHandler mdb mdbEventKeyboard event).1) := by
  obtain ⟨h2, hlt, hdvd⟩ := h
  have hmod := bailoutGetMod_lt (b := mdb.bailout) (by omega)
  have hpos := bailoutGetMod_pos (b := mdb.bailout) (by omega)
  rw [OnGrid, AboveOne, BelowWrap]
  by_cases h3 : event.Pressed ∧ event.key = mdbKey3
  · rw [handler_bailout_key3 mdb h3, u32Sub_of_le hmod.le hlt, and_iff_left h3]
    by_cases htwo : mdb.bailout = 2
    · rw [htwo]
      simp [bailoutGetMod]
    · have hle := bailoutGetMod_add_two_le (b := mdb.bailout) (by omega)
      refine ⟨⟨fun _ => ⟨htwo, fun hwrap => ?_⟩, fun _ => by omega⟩, fun _ => ?_⟩
      · exact mdbKey3_ne_key4 (h3.2.symm.trans hwrap.2.2)
      · exact ⟨by omega, by omega, bailoutGetMod_dvd_sub (by omega) hdvd⟩
  · by_cases h4 : event.Pressed ∧ event.key = mdbKey4
    · rw [handler_bailout_key4 mdb h4, and_iff_left h4]
      have hle := bailoutGetMod_le mdb.bailout
      by_cases hwrap : mdb.bailout + bailoutGetMod mdb.bailout < 2 ^ 32
      · rw [u32_of_lt hwrap]
        have hbelow : mdb.bailout ≠ 2 ^ 32 - 512 := fun heq => by
          rw [heq, bailoutGetMod_top (by norm_num)] at hwrap
          exact absurd hwrap (by norm_num)
        refine ⟨⟨fun _ => ⟨fun hdown => h3 hdown.2, hbelow⟩, fun _ => by omega⟩, fun _ => ?_⟩
        exact ⟨by omega, hwrap, bailoutGetMod_dvd_add h2 hdvd⟩
      · -- the only multiple of 512 within one step of the limit
        have htop : bailoutGetMod mdb.bailout = 512 := bailoutGetMod_top (by omega)
        have heq : mdb.bailout = 2 ^ 32 - 512 := by
          rw [htop] at hdvd
          omega
        rw [heq, bailoutGetMod_top (by norm_num), u32]
        norm_num
    · rw [handler_bailout_of_not mdb h3 h4]
      refine ⟨⟨fun _ => ⟨fun hdown => h3 hdown.2, fun hwrap => h4 hwrap.2⟩, fun _ => h2⟩, ?_⟩
      exact fun _ => ⟨h2, hlt, hdvd⟩

/-- **The depth keys, exactly.** They work at every bailout a sequence of keyboard events after
`mdb_kernel_init` goes through iff none of the events is an `MDB_KEY_3` at two or an `MDB_KEY_4`
at `2 ^ 32 - 512`. -/
theorem depthKeysWork_throughout_iff (mdb : MdbT) (events : List MdbEventKeyboard) :
    (∀ pre s, pre <+: events → eventSystem.run (mdbKernelInit mdb) pre = some s →
        DepthKeysWork s)
      ↔ eventSystem.Meets (fun s event => AboveOne s event ∧ BelowWrap s event)
          (mdbKernelInit mdb) events := by
  have hinit : OnGrid (mdbKernelInit mdb) := by
    rw [OnGrid, mdbKernelInit]
    simp [bailoutGetMod]
  refine eventSystem.forall_reached_iff_meets_of_invariant (I := OnGrid) (fun s e => ⟨_, rfl⟩)
    ?_ ?_ hinit ((depthKeysWork_iff hinit.2.1).mpr hinit.1)
  · rintro s event s' hs hs'
    obtain rfl := Option.some.inj hs'
    rw [depthKeysWork_iff (handler_bailout_lt hs.2.1 event)]
    exact (handler_onGrid hs event).1
  · rintro s event s' hs hs' hwork
    obtain rfl := Option.some.inj hs'
    rw [depthKeysWork_iff (handler_bailout_lt hs.2.1 event)] at hwork
    exact (handler_onGrid hs event).2 hwork

/-- **The depth keys stop working**: enough presses of `MDB_KEY_3` lead to one, where
`MDB_KEY_4` has no effect either. -/
theorem depthKeys_stuck :
    ¬ ∀ mdb events s, eventSystem.run (mdbKernelInit mdb) events = some s → DepthKeysWork s := by
  intro h
  obtain ⟨events, s, hrun, hs⟩ := exists_one mdbLoaded
  have hwork := h mdbLoaded events s hrun
  rw [depthKeysWork_iff (by rw [hs]; norm_num), hs] at hwork
  exact absurd hwork (by norm_num)

end Mdb
