import Mathlib.Tactic

/-!
`uint32_t` and `uint64_t` arithmetic, the narrowing to `int`, and the result codes of
`tools/error_codes.h`.

A 32-bit unsigned value is a natural number; every sum or product that the source computes in
`uint32_t` is reduced by `u32`, and `u32_of_lt` removes the reduction where nothing wraps.
-/

namespace Mdb

/-- The value a `uint32_t` holds after an unsigned computation with the result `n`. -/
def u32 (n : ℕ) : ℕ := n % 2 ^ 32

lemma u32_of_lt {n : ℕ} (h : n < 2 ^ 32) : u32 n = n := Nat.mod_eq_of_lt h

lemma u32_lt (n : ℕ) : u32 n < 2 ^ 32 := Nat.mod_lt _ (by norm_num)

lemma u32_le (n : ℕ) : u32 n ≤ n := Nat.mod_le _ _

/-- `n - 1` in `uint32_t`. -/
def u32Pred (n : ℕ) : ℕ := u32 (n + (2 ^ 32 - 1))

lemma u32Pred_of_pos {n : ℕ} (h₀ : 1 ≤ n) (h : n < 2 ^ 32) : u32Pred n = n - 1 := by
  rw [u32Pred, u32]
  omega

/-- `a - b` in `uint32_t`. -/
def u32Sub (a b : ℕ) : ℕ := u32 (a + (2 ^ 32 - b))

lemma u32Sub_of_le {a b : ℕ} (hab : b ≤ a) (ha : a < 2 ^ 32) : u32Sub a b = a - b := by
  rw [u32Sub, u32]
  omega

/-- Enough rounds for every loop over a 32-bit counter that stops at all: such a counter has
only `2 ^ 32` values, and a loop whose counter comes back to a value never ends. -/
def u32Fuel : ℕ := 2 ^ 32 + 1

lemma lt_u32Fuel {n : ℕ} (h : n ≤ 2 ^ 32) : n < u32Fuel := Nat.lt_succ_of_le h

/-- The value a `uint64_t` holds after an unsigned computation with the result `n`. -/
def u64 (n : ℕ) : ℕ := n % 2 ^ 64

lemma u64_of_lt {n : ℕ} (h : n < 2 ^ 64) : u64 n = n := Nat.mod_eq_of_lt h

/-- `a - b` in `uint64_t`. -/
def u64Sub (a b : ℕ) : ℕ := u64 (a + (2 ^ 64 - b))

lemma u64Sub_of_le {a b : ℕ} (hab : b ≤ a) (ha : a < 2 ^ 64) : u64Sub a b = a - b := by
  rw [u64Sub, u64]
  omega

/-- A `long` converted to `int`. -/
def i32 (n : ℤ) : ℤ := n.bmod (2 ^ 32)

lemma i32_of_lt {n : ℤ} (hlo : -2 ^ 31 ≤ n) (hhi : n < 2 ^ 31) : i32 n = n := by
  rw [i32]
  exact Int.bmod_eq_of_le (by omega) (by omega)

/-- `MDB_FAIL`. -/
def mdbFail : ℤ := -1

/-- `MDB_SUCCESS`. -/
def mdbSuccess : ℤ := 0

end Mdb
