import Mathlib.Algebra.Order.Field.Basic
import Mathlib.Data.Rat.Cast.Order
import Mathlib.Tactic.Linarith
import Mathlib.Tactic.Positivity
import Mathlib.Tactic.Ring
import Mathlib.Tactic.FieldSimp

/-! # Exponential averages in integers

`smooth d x s` moves the average `x` towards the sample `s`, with weight `1/d` on `x`; the two parts are
rounded down separately. The average stays between the bounds that its samples have, and under a constant
sample it comes within 2 of it, a factor `d` closer at each step.
-/
namespace TcpOverUdp
set_option autoImplicit false

def smooth (d x s : ℤ) : ℤ := x / d + (d - 1) * s / d

def smoothAll (d : ℤ) (x : ℤ) (samples : List ℤ) : ℤ := samples.foldl (smooth d) x

@[simp] theorem smoothAll_nil (d x : ℤ) : smoothAll d x [] = x := rfl

@[simp] theorem smoothAll_cons (d x s : ℤ) (rest : List ℤ) :
    smoothAll d x (s :: rest) = smoothAll d (smooth d x s) rest := rfl

section Smooth
variable {d x s b : ℤ}

/-- Each of the two parts loses less than one. -/
theorem smooth_between (hd : 0 < d) (x s : ℤ) :
    x + (d - 1) * s - 2 * (d - 1) ≤ d * smooth d x s ∧ d * smooth d x s ≤ x + (d - 1) * s := by
  have h1 := Int.mul_ediv_add_emod x d
  have h2 := Int.mul_ediv_add_emod ((d - 1) * s) d
  have h3 := Int.emod_nonneg x hd.ne'
  have h4 := Int.emod_nonneg ((d - 1) * s) hd.ne'
  have h5 := Int.emod_lt_of_pos x hd
  have h6 := Int.emod_lt_of_pos ((d - 1) * s) hd
  have hsum : d * smooth d x s = d * (x / d) + d * ((d - 1) * s / d) := by
    unfold smooth
    ring
  constructor <;> linarith

theorem smooth_le (hd : 0 < d) (hx : x ≤ b) (hs : s ≤ b) : smooth d x s ≤ b := by
  have hup := (smooth_between hd x s).2
  have hs' : (d - 1) * s ≤ (d - 1) * b := Int.mul_le_mul_of_nonneg_left hs (by omega)
  have hle : d * smooth d x s ≤ d * b := by
    calc d * smooth d x s ≤ x + (d - 1) * s := hup
      _ ≤ b + (d - 1) * b := add_le_add hx hs'
      _ = d * b := by ring
  exact le_of_mul_le_mul_left hle hd

theorem smoothAll_le (hd : 0 < d) {samples : List ℤ} (hall : ∀ t ∈ samples, t ≤ b) (hx : x ≤ b) :
    smoothAll d x samples ≤ b := by
  induction samples generalizing x with
  | nil => exact hx
  | cons t rest ih =>
    rw [smoothAll_cons]
    exact ih (fun u hu => hall u (List.mem_cons_of_mem t hu)) (smooth_le hd hx (hall t List.mem_cons_self))

/-- A step towards `s` divides the distance by `d`, up to the rounding. -/
theorem smooth_error (hd : 0 < d) (x s : ℤ) : d * |smooth d x s - s| ≤ |x - s| + 2 * (d - 1) := by
  obtain ⟨hlo, hup⟩ := smooth_between hd x s
  have habs : d * |smooth d x s - s| = |d * (smooth d x s - s)| := by rw [abs_mul, abs_of_pos hd]
  have h1 := le_abs_self (x - s)
  have h2 := neg_abs_le (x - s)
  rw [habs, abs_le]
  constructor <;> linarith

/-- After `n` equal samples the distance is that of the start divided by `d` to the `n`, plus less than 2. -/
theorem smoothAll_error (hd : 0 < d) (samples : List ℤ) (hall : ∀ t ∈ samples, t = s) (x : ℤ) :
    d ^ samples.length * |smoothAll d x samples - s| ≤ |x - s| + 2 * (d ^ samples.length - 1) := by
  induction samples generalizing x with
  | nil => simp
  | cons t rest ih =>
    have ht := hall t List.mem_cons_self
    subst ht
    have hrest := ih (fun u hu => hall u (List.mem_cons_of_mem t hu)) (smooth d x t)
    have hstep := smooth_error hd x t
    have hmul := Int.mul_le_mul_of_nonneg_left hrest hd.le
    rw [List.length_cons, pow_succ, smoothAll_cons]
    calc d ^ rest.length * d * |smoothAll d (smooth d x t) rest - t|
        = d * (d ^ rest.length * |smoothAll d (smooth d x t) rest - t|) := by ring
      _ ≤ d * (|smooth d x t - t| + 2 * (d ^ rest.length - 1)) := hmul
      _ = d * |smooth d x t - t| + 2 * (d ^ rest.length * d - d) := by ring
      _ ≤ |x - t| + 2 * (d - 1) + 2 * (d ^ rest.length * d - d) := by linarith
      _ = |x - t| + 2 * (d ^ rest.length * d - 1) := by ring

/-- The same, with the division written out. -/
theorem smoothAll_near (hd : 0 < d) (samples : List ℤ) (hall : ∀ t ∈ samples, t = s) (x : ℤ) :
    |((smoothAll d x samples : ℤ) : ℚ) - s| ≤ 2 + |(x : ℚ) - s| / (d : ℚ) ^ samples.length := by
  have h := smoothAll_error hd samples hall x
  have hpow : (0 : ℚ) < (d : ℚ) ^ samples.length := by positivity
  have hcast : (d : ℚ) ^ samples.length * |((smoothAll d x samples : ℤ) : ℚ) - s| ≤
      |(x : ℚ) - s| + 2 * ((d : ℚ) ^ samples.length - 1) := by exact_mod_cast h
  have hsum : 2 + |(x : ℚ) - s| / (d : ℚ) ^ samples.length =
      (2 * (d : ℚ) ^ samples.length + |(x : ℚ) - s|) / (d : ℚ) ^ samples.length := by
    field_simp
  rw [hsum, le_div_iff₀ hpow]
  linarith

end Smooth
end TcpOverUdp
