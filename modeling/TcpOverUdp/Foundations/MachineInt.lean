import Mathlib.Tactic.Ring
import Mathlib.Data.Int.Basic

/-! # Conversions between mathematical integers and fixed-width machine words

`u32`, `s32` and `s16` are the C conversions to a 32-bit unsigned, a 32-bit signed and a 16-bit
signed type. An expression of a machine type is its mathematical value under the conversion, so
`u32 (a - b)` is the unsigned difference and `s32 (u32 x)` is the reading of an unsigned result
through a signed variable.
-/
namespace TcpOverUdp.MachineInt
set_option autoImplicit false

/-- Conversion to a 32-bit unsigned word. -/
def u32 (x : ℤ) : ℕ := (x % 4294967296).toNat

/-- Conversion to a 32-bit two's complement word. -/
def s32 (x : ℤ) : ℤ := (x + 2147483648) % 4294967296 - 2147483648

/-- Conversion to a 16-bit two's complement word. -/
def s16 (x : ℤ) : ℤ := (x + 32768) % 65536 - 32768

theorem u32_lt (x : ℤ) : u32 x < 4294967296 := by
  unfold u32
  omega

theorem u32_of_lt {x : ℤ} (h0 : 0 ≤ x) (h : x < 4294967296) : u32 x = x.toNat := by
  unfold u32
  rw [Int.emod_eq_of_lt h0 h]

theorem u32_cast (n : ℕ) (h : n < 4294967296) : u32 (n : ℤ) = n := by
  rw [u32_of_lt (by omega) (by omega)]
  exact Int.toNat_natCast n

theorem u32_add (a b : ℕ) (h : a + b < 4294967296) : u32 ((a : ℤ) + b) = a + b := by
  rw [u32_of_lt (by omega) (by omega)]
  omega

theorem u32_sub (a b : ℕ) (hb : b ≤ a) (ha : a < 4294967296) : u32 ((a : ℤ) - b) = a - b := by
  rw [u32_of_lt (by omega) (by omega)]
  omega

theorem s32_range (x : ℤ) : -2147483648 ≤ s32 x ∧ s32 x < 2147483648 := by
  unfold s32
  omega

theorem s32_of_range {x : ℤ} (h0 : -2147483648 ≤ x) (h : x < 2147483648) : s32 x = x := by
  unfold s32
  omega

theorem s32_cast (n : ℕ) (h : n < 2147483648) : s32 (n : ℤ) = n :=
  s32_of_range (by omega) (by omega)

theorem s16_of_range {x : ℤ} (h0 : -32768 ≤ x) (h : x < 32768) : s16 x = x := by
  unfold s16
  omega

/-- Counting in a `short` is counting modulo 2^16. -/
theorem s16_add_one (n : ℕ) : s16 (s16 n + 1) = s16 ((n + 1 : ℕ) : ℤ) := by
  unfold s16
  push_cast
  omega

end TcpOverUdp.MachineInt
