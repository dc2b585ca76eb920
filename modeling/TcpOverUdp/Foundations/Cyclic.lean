import Mathlib.Algebra.GroupWithZero.Nat
import Mathlib.Data.List.Basic

/-! # Reading around a cyclic array

`cyclic f m start n` lists `n` cells of an array of `m` cells from `start` on, going on at cell 0 behind
the last. A list of cells read in chunks, each from where the one before ended, is the list read at
once.
-/
namespace TcpOverUdp
set_option autoImplicit false

variable {α : Type}

def cyclic (f : ℕ → α) (m start n : ℕ) : List α := (List.range n).map fun i => f ((start + i) % m)

def cyclicChunks (f : ℕ → α) (m : ℕ) : ℕ → List ℕ → List (List α)
  | _, [] => []
  | start, n :: ns => cyclic f m start n :: cyclicChunks f m ((start + n) % m) ns

section Cyclic
variable {f : ℕ → α} {m start n k : ℕ}

@[simp] theorem cyclic_length : (cyclic f m start n).length = n := by
  simp [cyclic]

theorem cyclic_append (a b : ℕ) :
    cyclic f m start (a + b) = cyclic f m start a ++ cyclic f m ((start + a) % m) b := by
  unfold cyclic
  rw [List.range_add, List.map_append, List.map_map]
  congr 1
  apply List.map_congr_left
  intro i _
  rw [Function.comp_apply, Nat.mod_add_mod, Nat.add_assoc]

theorem take_cyclic (h : k ≤ n) : (cyclic f m start n).take k = cyclic f m start k := by
  unfold cyclic
  rw [← List.map_take, List.take_range, Nat.min_eq_left h]

theorem drop_cyclic (h : k ≤ n) :
    (cyclic f m start n).drop k = cyclic f m ((start + k) % m) (n - k) := by
  conv_lhs => rw [← Nat.add_sub_cancel' h, cyclic_append]
  exact List.drop_left' cyclic_length

/-- Short of the end of the array, the cells lie in a row. -/
theorem cyclic_row (h : start + n ≤ m) :
    cyclic f m start n = (List.range n).map fun i => f (start + i) := by
  apply List.map_congr_left
  intro i hi
  have hi' := List.mem_range.mp hi
  rw [Nat.mod_eq_of_lt (by omega)]

/-- Around the end, they lie in two rows. -/
theorem cyclic_wrap (hs : start ≤ m) (h1 : m - start ≤ n) (h2 : n ≤ m) :
    cyclic f m start n = ((List.range (m - start)).map fun i => f (start + i)) ++
      (List.range (n - (m - start))).map fun i => f (0 + i) := by
  have hn : n = (m - start) + (n - (m - start)) := by omega
  conv_lhs => rw [hn, cyclic_append, cyclic_row (by omega), Nat.add_sub_cancel' hs, Nat.mod_self,
    cyclic_row (by omega)]

theorem cyclicChunks_flatten (start : ℕ) (ns : List ℕ) :
    (cyclicChunks f m start ns).flatten = cyclic f m start ns.sum := by
  induction ns generalizing start with
  | nil => rfl
  | cons n ns ih => rw [cyclicChunks, List.flatten_cons, ih, List.sum_cons, cyclic_append]

end Cyclic
end TcpOverUdp
