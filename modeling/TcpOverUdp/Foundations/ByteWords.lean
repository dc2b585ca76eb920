import Mathlib.Data.List.GetD
import Mathlib.Tactic.Ring

/-! # Bytes, little-endian words and blocks of memory

A block of memory is a function from offsets to bytes; `copyIn` and `copyOut` are the two uses of
`memcpy`. `readWord32 s i` reads the four bytes of `s` from offset `i`, least significant first.
-/
namespace TcpOverUdp
set_option autoImplicit false

abbrev Byte := UInt8

/-- `memcpy(mem + off, src, len)`. -/
def copyIn (mem : ℕ → Byte) (off : ℕ) (src : List Byte) (len : ℕ) : ℕ → Byte :=
  fun i => if off ≤ i ∧ i < off + len then src.getD (i - off) 0 else mem i

/-- The bytes that `memcpy(_, mem + off, len)` copies. -/
def copyOut (mem : ℕ → Byte) (off len : ℕ) : List Byte :=
  (List.range len).map fun i => mem (off + i)

@[simp] theorem copyOut_length (mem : ℕ → Byte) (off len : ℕ) : (copyOut mem off len).length = len := by
  simp [copyOut]

/-- The bytes of a string copied out of its memory. -/
theorem copyOut_getD (s : List Byte) {off len : ℕ} (h : off + len ≤ s.length) :
    copyOut (fun i => s.getD i 0) off len = (s.drop off).take len := by
  apply List.ext_getElem
  · rw [copyOut_length, List.length_take, List.length_drop]
    omega
  · intro i h1 h2
    rw [copyOut_length] at h1
    rw [List.getElem_take, List.getElem_drop]
    simp only [copyOut, List.getElem_map, List.getElem_range]
    rw [List.getD_eq_getElem _ _ (by omega)]

/-- What is copied depends on the bytes of the block only. -/
theorem copyOut_congr {a b : ℕ → Byte} {off len : ℕ} (h : ∀ i, i < len → a (off + i) = b (off + i)) :
    copyOut a off len = copyOut b off len :=
  List.map_congr_left fun i hi => h i (List.mem_range.1 hi)

theorem copyIn_inside (mem : ℕ → Byte) (off len : ℕ) (src : List Byte) (i : ℕ) (h : i < len) :
    copyIn mem off src len (off + i) = src.getD i 0 := by
  unfold copyIn
  rw [if_pos (by omega)]
  congr 1
  omega

theorem copyIn_outside (mem : ℕ → Byte) (off len : ℕ) (src : List Byte) (i : ℕ)
    (h : i < off ∨ off + len ≤ i) : copyIn mem off src len i = mem i := by
  unfold copyIn
  rw [if_neg (by omega)]

def word32 (n : ℕ) : List Byte :=
  [UInt8.ofNat n, UInt8.ofNat (n / 256), UInt8.ofNat (n / 65536), UInt8.ofNat (n / 16777216)]

def word16 (n : ℕ) : List Byte := [UInt8.ofNat n, UInt8.ofNat (n / 256)]

def readWord32 (s : List Byte) (i : ℕ) : ℕ :=
  (s.getD i 0).toNat + 256 * (s.getD (i + 1) 0).toNat + 65536 * (s.getD (i + 2) 0).toNat +
    16777216 * (s.getD (i + 3) 0).toNat

def readWord16 (s : List Byte) (i : ℕ) : ℕ :=
  (s.getD i 0).toNat + 256 * (s.getD (i + 1) 0).toNat

theorem readWord32_lt (s : List Byte) (i : ℕ) : readWord32 s i < 4294967296 := by
  have h := fun j => UInt8.toNat_lt (s.getD j 0)
  have h0 := h i
  have h1 := h (i + 1)
  have h2 := h (i + 2)
  have h3 := h (i + 3)
  unfold readWord32
  omega

theorem readWord32_word32 (pre post : List Byte) (n : ℕ) (hn : n < 4294967296) :
    readWord32 (pre ++ (word32 n ++ post)) pre.length = n := by
  have hget : ∀ j, (pre ++ (word32 n ++ post)).getD (pre.length + j) 0 = (word32 n ++ post).getD j 0 := by
    intro j
    rw [List.getD_append_right _ _ _ _ (Nat.le_add_right _ _), Nat.add_sub_cancel_left]
  unfold readWord32
  rw [hget 1, hget 2, hget 3]
  have h0 := hget 0
  rw [Nat.add_zero] at h0
  rw [h0]
  simp only [word32, List.cons_append, List.getD_cons_zero, List.getD_cons_succ, UInt8.toNat_ofNat']
  omega

theorem readWord16_word16 (pre post : List Byte) (n : ℕ) (hn : n < 65536) :
    readWord16 (pre ++ (word16 n ++ post)) pre.length = n := by
  have hget : ∀ j, (pre ++ (word16 n ++ post)).getD (pre.length + j) 0 = (word16 n ++ post).getD j 0 := by
    intro j
    rw [List.getD_append_right _ _ _ _ (Nat.le_add_right _ _), Nat.add_sub_cancel_left]
  unfold readWord16
  rw [hget 1]
  have h0 := hget 0
  rw [Nat.add_zero] at h0
  rw [h0]
  simp only [word16, List.cons_append, List.getD_cons_zero, List.getD_cons_succ, UInt8.toNat_ofNat']
  omega

theorem ofNat_eq_of_mod {a b : ℕ} (h : a % 256 = b % 256) : UInt8.ofNat a = UInt8.ofNat b := by
  rw [← UInt8.toNat_inj, UInt8.toNat_ofNat', UInt8.toNat_ofNat']
  exact h

/-- The bytes of a word depend on its value modulo its size only. -/
theorem word32_mod (n : ℕ) : word32 (n % 4294967296) = word32 n := by
  have h0 : UInt8.ofNat (n % 4294967296) = UInt8.ofNat n := ofNat_eq_of_mod (by omega)
  have h1 : UInt8.ofNat (n % 4294967296 / 256) = UInt8.ofNat (n / 256) := ofNat_eq_of_mod (by omega)
  have h2 : UInt8.ofNat (n % 4294967296 / 65536) = UInt8.ofNat (n / 65536) := ofNat_eq_of_mod (by omega)
  have h3 : UInt8.ofNat (n % 4294967296 / 16777216) = UInt8.ofNat (n / 16777216) :=
    ofNat_eq_of_mod (by omega)
  unfold word32
  rw [h0, h1, h2, h3]

theorem word16_mod (n : ℕ) : word16 (n % 65536) = word16 n := by
  have h0 : UInt8.ofNat (n % 65536) = UInt8.ofNat n := ofNat_eq_of_mod (by omega)
  have h1 : UInt8.ofNat (n % 65536 / 256) = UInt8.ofNat (n / 256) := ofNat_eq_of_mod (by omega)
  unfold word16
  rw [h0, h1]

theorem ofNat_eq_of_toNat {n : ℕ} {b : Byte} (h : n % 256 = b.toNat) : UInt8.ofNat n = b := by
  rw [← UInt8.toNat_inj, UInt8.toNat_ofNat']
  exact h

/-- The bytes of a word that was read are the bytes it was read from. -/
theorem word32_readWord32 (s : List Byte) (i : ℕ) :
    word32 (readWord32 s i) = [s.getD i 0, s.getD (i + 1) 0, s.getD (i + 2) 0, s.getD (i + 3) 0] := by
  have h0 := UInt8.toNat_lt (s.getD i 0)
  have h1 := UInt8.toNat_lt (s.getD (i + 1) 0)
  have h2 := UInt8.toNat_lt (s.getD (i + 2) 0)
  have h3 := UInt8.toNat_lt (s.getD (i + 3) 0)
  unfold word32 readWord32
  rw [@ofNat_eq_of_toNat _ (s.getD i 0) (by omega), @ofNat_eq_of_toNat _ (s.getD (i + 1) 0) (by omega),
    @ofNat_eq_of_toNat _ (s.getD (i + 2) 0) (by omega), @ofNat_eq_of_toNat _ (s.getD (i + 3) 0) (by omega)]

theorem word16_readWord16 (s : List Byte) (i : ℕ) :
    word16 (readWord16 s i) = [s.getD i 0, s.getD (i + 1) 0] := by
  have h0 := UInt8.toNat_lt (s.getD i 0)
  have h1 := UInt8.toNat_lt (s.getD (i + 1) 0)
  unfold word16 readWord16
  rw [@ofNat_eq_of_toNat _ (s.getD i 0) (by omega), @ofNat_eq_of_toNat _ (s.getD (i + 1) 0) (by omega)]

@[simp] theorem word32_length (n : ℕ) : (word32 n).length = 4 := rfl

@[simp] theorem word16_length (n : ℕ) : (word16 n).length = 2 := rfl

end TcpOverUdp
