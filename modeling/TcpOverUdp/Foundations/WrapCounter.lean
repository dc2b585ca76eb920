import Mathlib.Order.Compare
import Mathlib.Order.Nat
import Mathlib.Tactic.Ring

/-! # Counters that wrap

The numbers `x` and `y` count without bound and their residues modulo `m` are what a program keeps.
`x / m` is the block that `x` lies in. For counts closer than `m`, comparing the residues is comparing
the counts exactly when both lie in one block.
-/
namespace TcpOverUdp.WrapCounter
set_option autoImplicit false

variable {m x y : ℕ}

/-- Two counts closer than `m` lie in one block or in neighbouring ones. -/
theorem div_eq_or_succ (h : y < x + m) (hxy : x ≤ y) : y / m = x / m ∨ y / m = x / m + 1 := by
  have hm : 0 < m := by omega
  have hle : x / m ≤ y / m := Nat.div_le_div_right hxy
  have hup : y / m ≤ x / m + 1 := by
    rw [← Nat.add_div_right x hm]
    exact Nat.div_le_div_right h.le
  omega

theorem lt_of_div_lt (hb : x / m < y / m) : x < y := by
  by_contra hlt
  have := Nat.div_le_div_right (c := m) (not_lt.1 hlt)
  omega

theorem mod_lt_mod_iff (hb : x / m = y / m) : x % m < y % m ↔ x < y := by
  have hx := Nat.div_add_mod x m
  have hy := Nat.div_add_mod y m
  rw [hb] at hx
  omega

/-- In the next block the larger count has the smaller residue. -/
theorem mod_lt_mod_of_div_lt (h : y < x + m) (hb : x / m < y / m) : y % m < x % m := by
  have hx := Nat.div_add_mod x m
  have hy := Nat.div_add_mod y m
  have hnext : y / m = x / m + 1 := by
    rcases div_eq_or_succ h (lt_of_div_lt hb).le with he | he
    · omega
    · exact he
  rw [hnext, Nat.mul_add, Nat.mul_one] at hy
  omega

theorem mod_le_mod_iff (hxy : x ≤ y) (h : y < x + m) : x % m ≤ y % m ↔ x / m = y / m := by
  constructor
  · intro hle
    by_contra hne
    have hdiv := Nat.div_le_div_right (c := m) hxy
    have := mod_lt_mod_of_div_lt h (by omega)
    omega
  · intro hb
    by_contra hlt
    have := (mod_lt_mod_iff hb.symm).1 (not_le.1 hlt)
    omega

/-- The residues compare as the counts do exactly when both counts lie in one block. -/
theorem cmp_mod_eq_iff (hxy : x < y + m) (hyx : y < x + m) :
    cmp (x % m) (y % m) = cmp x y ↔ x / m = y / m := by
  constructor
  · intro hcmp
    rcases lt_trichotomy (x / m) (y / m) with hb | hb | hb
    · have hlt := lt_of_div_lt hb
      have hgt := mod_lt_mod_of_div_lt hyx hb
      rw [(cmp_eq_lt_iff _ _).2 hlt, cmp_eq_lt_iff] at hcmp
      omega
    · exact hb
    · have hlt := lt_of_div_lt hb
      have hgt := mod_lt_mod_of_div_lt hxy hb
      rw [(cmp_eq_gt_iff _ _).2 hlt, cmp_eq_gt_iff] at hcmp
      omega
  · intro hb
    rcases lt_trichotomy x y with h | h | h
    · rw [(cmp_eq_lt_iff _ _).2 h, cmp_eq_lt_iff]
      exact (mod_lt_mod_iff hb).2 h
    · rw [h, cmp_self_eq_eq, cmp_self_eq_eq]
    · rw [(cmp_eq_gt_iff _ _).2 h, cmp_eq_gt_iff]
      exact (mod_lt_mod_iff hb.symm).2 h

/-- The guarded difference of residues is the truncated difference of the counts exactly when both
counts lie in one block. -/
theorem guarded_sub_iff (hxy : x < y + m) (hyx : y < x + m) :
    (if y % m ≤ x % m then x % m - y % m else 0) = x - y ↔ x / m = y / m := by
  have hx := Nat.div_add_mod x m
  have hy := Nat.div_add_mod y m
  rcases lt_trichotomy (x / m) (y / m) with hb | hb | hb
  · have hlt := lt_of_div_lt hb
    have hgt := mod_lt_mod_of_div_lt hyx hb
    rw [if_pos hgt.le]
    omega
  · have hlt : x % m < y % m ↔ x < y := mod_lt_mod_iff hb
    rw [hb] at hx
    split <;> omega
  · have hlt := lt_of_div_lt hb
    have hgt := mod_lt_mod_of_div_lt hxy hb
    rw [if_neg (by omega)]
    omega

/-- A deadline that is not reduced, `x % m + r`, against the reduced clock `y % m`: the test is right
before the deadline, and from then on exactly as long as the clock has not wrapped since `x`. -/
theorem deadline_iff {r : ℕ} (hxy : x ≤ y) (h : y < x + m) :
    (x % m + r < y % m ↔ x + r < y) ↔ (y ≤ x + r ∨ x / m = y / m) := by
  have hx := Nat.div_add_mod x m
  have hy := Nat.div_add_mod y m
  rcases div_eq_or_succ h hxy with hb | hb
  · rw [hb] at hy
    refine iff_of_true ?_ (Or.inr hb.symm)
    omega
  · have hlt := mod_lt_mod_of_div_lt h (by omega)
    rw [iff_false_left (show ¬ x % m + r < y % m by omega)]
    omega

end TcpOverUdp.WrapCounter
