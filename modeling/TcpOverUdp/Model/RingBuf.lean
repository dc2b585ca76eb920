import TcpOverUdp.Model.CircBuf

/-! # Valid circular buffers are byte queues

`RingBuf cap` is a circular buffer of capacity `cap` together with its validity. Every operation of
the class keeps validity, so the operations lift to `RingBuf`, and each is described by what it
does to `contents`. A socket's two buffers are of this type.
-/
namespace TcpOverUdp
open MachineInt
set_option autoImplicit false

namespace CircBuf

/-! ## Storing a block -/

/-- The buffer after `k` bytes of `src` are stored behind the tail. -/
def store (cb : CircBuf) (src : List Byte) (k : ℕ) : CircBuf :=
  let first := min k (cb.uiSize - cb.uiTi)
  let second := k - first
  let mem1 := copyIn cb.mem cb.uiTi src first
  let ti1 := (cb.uiTi + first) % cb.uiSize
  { cb with
    uiTi := if second > 0 then second else ti1
    uiTotEl := cb.uiTotEl + k
    buf := some (if second > 0 then copyIn mem1 ti1 (src.drop first) second else mem1) }

theorem insertAt_eq_store {cb : CircBuf} (hv : cb.Valid) (src : List Byte) {n : ℤ} (hn : 0 < n)
    (hn31 : n < 2147483648) (hf : cb.uiTotEl < cb.uiSize) :
    ∃ span, cb.insertAt src n = .ok ((min n.toNat (cb.uiSize - cb.uiTotEl) : ℕ), span,
      cb.store src (min n.toNat (cb.uiSize - cb.uiTotEl))) := by
  have hs := hv.size_lt
  have ht := hv.ti_lt
  have htot := hv.tot_le
  have han : s32 (u32 ((cb.uiSize : ℤ) - cb.uiTotEl)) = (cb.uiSize - cb.uiTotEl : ℕ) := by
    rw [hv.free_eq, s32_cast _ (by omega)]
  have hfirst : u32 ((cb.uiSize : ℤ) - cb.uiTi) = cb.uiSize - cb.uiTi :=
    u32_sub _ _ (by omega) (by omega)
  obtain ⟨k, hk⟩ : ∃ k : ℕ, k = min n.toNat (cb.uiSize - cb.uiTotEl) := ⟨_, rfl⟩
  have hnk : (if n > ((cb.uiSize - cb.uiTotEl : ℕ) : ℤ) then ((cb.uiSize - cb.uiTotEl : ℕ) : ℤ) else n)
      = (k : ℤ) := by
    split <;> omega
  have hku : u32 (k : ℤ) = k := u32_cast k (by omega)
  have hktot : u32 ((cb.uiTotEl : ℤ) + k) = cb.uiTotEl + k := u32_add _ _ (by omega)
  rw [← hk]
  unfold insertAt store
  simp only [han, hfirst, hnk, hku, hktot]
  rw [if_neg (by omega), if_neg (by omega), if_neg (by omega)]
  by_cases hlong : k > cb.uiSize - cb.uiTi
  · have hmin : min k (cb.uiSize - cb.uiTi) = cb.uiSize - cb.uiTi := by omega
    have hsecond : u32 ((k : ℤ) - (cb.uiSize - cb.uiTi : ℕ)) = k - (cb.uiSize - cb.uiTi) :=
      u32_sub _ _ (by omega) (by omega)
    have hti : u32 ((cb.uiTi : ℤ) + (cb.uiSize - cb.uiTi : ℕ)) = cb.uiTi + (cb.uiSize - cb.uiTi) :=
      u32_add _ _ (by omega)
    simp only [if_pos hlong, hmin, hsecond, hti]
    exact ⟨_, rfl⟩
  · have hmin : min k (cb.uiSize - cb.uiTi) = k := by omega
    have hti : u32 ((cb.uiTi : ℤ) + k) = cb.uiTi + k := u32_add _ _ (by omega)
    simp only [if_neg hlong, hmin, Nat.sub_self, hti]
    exact ⟨_, rfl⟩

theorem store_mem_row {cb : CircBuf} (src : List Byte) {k : ℕ} (hk : k ≤ cb.uiSize - cb.uiTi) :
    (cb.store src k).mem = copyIn cb.mem cb.uiTi src k := by
  have hmin : min k (cb.uiSize - cb.uiTi) = k := by omega
  unfold store
  rw [mem]
  simp only [Option.getD_some]
  rw [hmin, if_neg (by omega)]

theorem store_mem_wrap {cb : CircBuf} (hv : cb.Valid) (src : List Byte) {k : ℕ}
    (hlong : k > cb.uiSize - cb.uiTi) :
    (cb.store src k).mem = copyIn (copyIn cb.mem cb.uiTi src (cb.uiSize - cb.uiTi)) 0
      (src.drop (cb.uiSize - cb.uiTi)) (k - (cb.uiSize - cb.uiTi)) := by
  have ht := hv.ti_lt
  have hmin : min k (cb.uiSize - cb.uiTi) = cb.uiSize - cb.uiTi := by omega
  have hend : (cb.uiTi + (cb.uiSize - cb.uiTi)) % cb.uiSize = 0 := by
    rw [Nat.add_sub_cancel' (by omega), Nat.mod_self]
  unfold store
  rw [mem]
  simp only [Option.getD_some]
  rw [hmin, hend, if_pos (by omega)]

theorem store_mem_new {cb : CircBuf} (hv : cb.Valid) (src : List Byte) {k : ℕ}
    (hk : cb.uiTotEl + k ≤ cb.uiSize) {j : ℕ} (hj : j < k) :
    (cb.store src k).mem ((cb.uiTi + j) % cb.uiSize) = src.getD j 0 := by
  have ht := hv.ti_lt
  by_cases hlong : k > cb.uiSize - cb.uiTi
  · rw [store_mem_wrap hv src hlong, wrap_eq (by omega)]
    split
    · rw [copyIn_outside _ _ _ _ _ (by omega), copyIn_inside _ _ _ _ _ (by omega)]
    · have he : cb.uiTi + j - cb.uiSize = 0 + (j - (cb.uiSize - cb.uiTi)) := by omega
      rw [he, copyIn_inside _ _ _ _ _ (by omega), List.getD_eq_getElem?_getD,
        List.getD_eq_getElem?_getD, List.getElem?_drop]
      congr 2
      omega
  · rw [store_mem_row src (by omega), Nat.mod_eq_of_lt (by omega), copyIn_inside _ _ _ _ _ hj]

theorem store_mem_old {cb : CircBuf} (hv : cb.Valid) (src : List Byte) {k : ℕ}
    (hk : cb.uiTotEl + k ≤ cb.uiSize) {i : ℕ} (hi : i < cb.uiTotEl) :
    (cb.store src k).mem ((cb.uiHi + i) % cb.uiSize) = cb.mem ((cb.uiHi + i) % cb.uiSize) := by
  have ht := hv.ti_lt
  have hhi := hv.hi_lt
  have htot := hv.tot_le
  have hti := hv.ti_eq
  rw [wrap_eq (by omega)] at hti
  have hpos : (cb.uiHi + i) % cb.uiSize = if cb.uiHi + i < cb.uiSize then cb.uiHi + i
      else cb.uiHi + i - cb.uiSize := wrap_eq (by omega)
  rw [hpos]
  by_cases hlong : k > cb.uiSize - cb.uiTi
  · rw [store_mem_wrap hv src hlong]
    split_ifs at hti ⊢ with h1 h2 <;>
      rw [copyIn_outside _ _ _ _ _ (by omega), copyIn_outside _ _ _ _ _ (by omega)]
  · rw [store_mem_row src (by omega)]
    split_ifs at hti ⊢ with h1 h2 <;> rw [copyIn_outside _ _ _ _ _ (by omega)]

theorem store_valid {cb : CircBuf} (hv : cb.Valid) (src : List Byte) {k : ℕ} (hk0 : 0 < k)
    (hk : cb.uiTotEl + k ≤ cb.uiSize) : (cb.store src k).Valid where
  size_lt := hv.size_lt
  hi_lt := hv.hi_lt
  tot_le := hk
  ti_eq := by
    have ht := hv.ti_lt
    have hhi := hv.hi_lt
    have htot := hv.tot_le
    have hti := hv.ti_eq
    rw [wrap_eq (by omega)] at hti
    simp only [store]
    rw [wrap_eq (a := cb.uiHi + (cb.uiTotEl + k)) (by omega)]
    by_cases hlong : k > cb.uiSize - cb.uiTi
    · have hmin : min k (cb.uiSize - cb.uiTi) = cb.uiSize - cb.uiTi := by omega
      rw [hmin, if_pos (by omega)]
      split_ifs at hti ⊢ <;> omega
    · have hmin : min k (cb.uiSize - cb.uiTi) = k := by omega
      rw [hmin, if_neg (by omega), wrap_eq (by omega)]
      split_ifs at hti ⊢ <;> omega

theorem store_contents {cb : CircBuf} (hv : cb.Valid) (src : List Byte) {k : ℕ}
    (hsrc : k ≤ src.length) (hk : cb.uiTotEl + k ≤ cb.uiSize) :
    (cb.store src k).contents = cb.contents ++ src.take k := by
  have hlen : (cb.store src k).contents.length = cb.uiTotEl + k := contents_length _
  apply List.ext_getElem
  · rw [hlen, List.length_append, contents_length, List.length_take]
    omega
  · intro i h1 h2
    rw [contents_getElem]
    rw [hlen] at h1
    by_cases hi : i < cb.uiTotEl
    · rw [List.getElem_append_left (by rw [contents_length]; exact hi), contents_getElem]
      exact store_mem_old hv src hk hi
    · rw [List.getElem_append_right (by rw [contents_length]; omega), List.getElem_take]
      have hpos : ((cb.store src k).uiHi + i) % (cb.store src k).uiSize =
          (cb.uiTi + (i - cb.uiTotEl)) % cb.uiSize := by
        simp only [store]
        rw [hv.ti_eq, Nat.mod_add_mod]
        congr 1
        omega
      rw [hpos, store_mem_new hv src hk (by omega), List.getD_eq_getElem _ _ (by omega)]
      simp only [contents_length]

theorem contents_eq_cyclic (cb : CircBuf) :
    cb.contents = cyclic cb.mem cb.uiSize cb.uiHi cb.uiTotEl := rfl

/-- The two `memcpy`s read cells of a cyclic array, and `end` is the cell behind the last of them. -/
theorem copyRing_eq {cb : CircBuf} (hs : cb.uiSize < 2147483648) {start k : ℕ}
    (hstart : start < cb.uiSize) (hk : k ≤ cb.uiSize) :
    cb.copyRing start k = (cyclic cb.mem cb.uiSize start k, (start + k) % cb.uiSize) := by
  have hfirst : u32 ((cb.uiSize : ℤ) - start) = cb.uiSize - start := u32_sub _ _ (by omega) (by omega)
  have hku : u32 (k : ℤ) = k := u32_cast k (by omega)
  unfold copyRing copyOut
  simp only [hfirst, hku]
  by_cases hlong : k > cb.uiSize - start
  · have hsecond : u32 ((k : ℤ) - (cb.uiSize - start : ℕ)) = k - (cb.uiSize - start) :=
      u32_sub _ _ (by omega) (by omega)
    simp only [if_pos hlong, hsecond, if_pos (show k - (cb.uiSize - start) > 0 by omega)]
    rw [cyclic_wrap (by omega) (by omega) hk, wrap_eq (by omega), if_neg (by omega)]
    congr 1
    omega
  · have hend : u32 ((start : ℤ) + k) = start + k := u32_add _ _ (by omega)
    simp only [if_neg hlong, lt_irrefl, if_false, gt_iff_lt, hend]
    rw [cyclic_row (by omega)]

/-- Bytes read from the head on are a front part of the contents. -/
theorem copyRing_head {cb : CircBuf} (hv : cb.Valid) {k : ℕ} (hk : k ≤ cb.uiTotEl) :
    (cb.copyRing cb.uiHi k).1 = cb.contents.take k := by
  have htot := hv.tot_le
  rw [copyRing_eq hv.size_lt hv.hi_lt (by omega), contents_eq_cyclic, take_cyclic hk]

/-! ## The operations on valid buffers -/

theorem insert_eq {cb : CircBuf} (hv : cb.Valid) (src : List Byte) (n : ℤ)
    (hn0 : -2147483648 ≤ n) (hn31 : n < 2147483648) :
    cb.insert src n =
      if 0 < n ∧ n < (cb.uiSize - cb.uiTotEl : ℕ) then .ok (n, cb.store src n.toNat) else .ok (0, cb) := by
  have hs := hv.size_lt
  have htot := hv.tot_le
  unfold insert
  rw [hv.free_eq]
  by_cases hneg : n < 0
  · have hbig : 2147483648 ≤ u32 n := by
      unfold u32
      omega
    rw [if_neg (by omega), if_neg (by omega)]
  · have hnat : u32 n = n.toNat := u32_of_lt (by omega) (by omega)
    rw [hnat]
    by_cases hz : n = 0
    · subst hz
      rw [if_neg (by omega : ¬ (0 < (0 : ℤ) ∧ _))]
      split <;> rfl
    · by_cases hfit : n.toNat < cb.uiSize - cb.uiTotEl
      · rw [if_pos hfit, if_pos (by omega)]
        obtain ⟨span, h⟩ := insertAt_eq_store hv src (show 0 < n by omega) hn31 (by omega)
        have hmin : min n.toNat (cb.uiSize - cb.uiTotEl) = n.toNat := by omega
        rw [hmin] at h
        have hcast : ((n.toNat : ℕ) : ℤ) = n := by omega
        rw [hcast] at h
        rw [h]
        rfl
      · rw [if_neg hfit, if_neg (by omega)]

/-- The buffer without the first `k` bytes of the queue. -/
def skip (cb : CircBuf) (k : ℕ) : CircBuf :=
  { cb with uiHi := (cb.uiHi + k) % cb.uiSize, uiTotEl := cb.uiTotEl - k }

theorem remove_eq_skip {cb : CircBuf} (hv : cb.Valid) (n : ℤ) (hn31 : n < 2147483648) :
    cb.remove n = (((min n.toNat cb.uiTotEl : ℕ) : ℤ), cb.skip (min n.toNat cb.uiTotEl)) := by
  have hs := hv.size_lt
  have hhi := hv.hi_lt
  have htot := hv.tot_le
  unfold remove skip
  split_ifs with h0 h1
  · have hmin : min n.toNat cb.uiTotEl = 0 := by omega
    rw [hmin, Nat.add_zero, Nat.mod_eq_of_lt hhi]
    rfl
  · push Not at h0
    rw [u32_of_lt (by omega) (by omega)] at h1
    have hmin : min n.toNat cb.uiTotEl = cb.uiTotEl := by omega
    rw [hmin, s32_cast _ (by omega), Nat.sub_self, ← hv.ti_eq]
  · push Not at h0
    rw [u32_of_lt (by omega) (by omega)] at h1
    have hmin : min n.toNat cb.uiTotEl = n.toNat := by omega
    have hn : ((n.toNat : ℕ) : ℤ) = n := by omega
    have htot' : u32 ((cb.uiTotEl : ℤ) - n) = cb.uiTotEl - n.toNat := by
      rw [u32_of_lt (by omega) (by omega)]
      omega
    have hhi' : u32 ((cb.uiHi : ℤ) + n) = cb.uiHi + n.toNat := by
      rw [u32_of_lt (by omega) (by omega)]
      omega
    rw [hmin, htot', hhi', hn]

theorem skip_valid {cb : CircBuf} (hv : cb.Valid) {k : ℕ} (hk : k ≤ cb.uiTotEl) : (cb.skip k).Valid where
  size_lt := hv.size_lt
  hi_lt := Nat.mod_lt _ hv.size_pos
  tot_le := (Nat.sub_le _ _).trans hv.tot_le
  ti_eq := by
    simp only [skip]
    rw [hv.ti_eq, Nat.mod_add_mod]
    congr 1
    omega

theorem skip_contents {cb : CircBuf} {k : ℕ} (hk : k ≤ cb.uiTotEl) :
    (cb.skip k).contents = cb.contents.drop k := by
  rw [contents_eq_cyclic, contents_eq_cyclic, drop_cyclic hk]
  rfl

theorem remove_valid {cb : CircBuf} (hv : cb.Valid) (n : ℤ) (hn31 : n < 2147483648) :
    (cb.remove n).2.Valid ∧ (cb.remove n).2.uiSize = cb.uiSize := by
  rw [remove_eq_skip hv n hn31]
  exact ⟨skip_valid hv (Nat.min_le_right _ _), rfl⟩

theorem remove_ret {cb : CircBuf} (hv : cb.Valid) (n : ℤ) (hn31 : n < 2147483648) :
    (cb.remove n).1 = (min n.toNat cb.uiTotEl : ℕ) := by
  rw [remove_eq_skip hv n hn31]

theorem remove_contents {cb : CircBuf} (hv : cb.Valid) (n : ℤ) (hn31 : n < 2147483648) :
    (cb.remove n).2.contents = cb.contents.drop n.toNat := by
  rw [remove_eq_skip hv n hn31]
  simp only
  rw [skip_contents (Nat.min_le_right _ _)]
  rcases Nat.le_total n.toNat cb.uiTotEl with h | h
  · rw [Nat.min_eq_left h]
  · have hlen := contents_length cb
    rw [Nat.min_eq_right h, List.drop_of_length_le (by omega), List.drop_of_length_le (by omega)]

theorem getAt_eq {cb : CircBuf} (hv : cb.Valid) (n : ℤ) (hn31 : n < 2147483648) :
    (cb.getAt n).1 = (min n.toNat cb.uiTotEl : ℕ) ∧ (cb.getAt n).2.1 = cb.contents.take n.toNat := by
  have hs := hv.size_lt
  have htot := hv.tot_le
  unfold getAt
  by_cases h0 : 0 ≥ n ∨ cb.uiTotEl = 0
  · rw [if_pos h0]
    refine ⟨by simp only; omega, ?_⟩
    rcases h0 with h0 | h0
    · rw [show n.toNat = 0 by omega, List.take_zero]
    · have hnil : cb.contents = [] := List.length_eq_zero_iff.mp (by rw [contents_length, h0])
      rw [hnil, List.take_nil]
  · rw [if_neg h0]
    push Not at h0
    have hnat : u32 n = n.toNat := u32_of_lt (by omega) (by omega)
    have hmin : (if u32 n > cb.uiTotEl then s32 (cb.uiTotEl : ℤ) else n) = (min n.toNat cb.uiTotEl : ℕ) := by
      rw [hnat, s32_cast _ (by omega)]
      split <;> omega
    simp only [hmin, true_and]
    rw [copyRing_head hv (Nat.min_le_right _ _)]
    conv_rhs => rw [← List.take_length (l := cb.contents), List.take_take, contents_length]

theorem insert_ok {cb : CircBuf} (hv : cb.Valid) (src : List Byte) (n : ℤ)
    (hn0 : -2147483648 ≤ n) (hn31 : n < 2147483648) :
    ∃ ret cb', cb.insert src n = .ok (ret, cb') ∧ cb'.Valid ∧ cb'.uiSize = cb.uiSize := by
  rw [insert_eq hv src n hn0 hn31]
  split
  · exact ⟨_, _, rfl, store_valid hv src (by omega) (by omega), rfl⟩
  · exact ⟨_, _, rfl, hv, rfl⟩

/-- `setSize` gives a fresh buffer its capacity. -/
theorem setSize_valid (size : ℕ) (h0 : 0 < size) (h31 : size < 2147483648) :
    (init.setSize size).2.Valid ∧ (init.setSize size).2.uiSize = size := by
  have hu : u32 (size : ℤ) = size := u32_cast size (by omega)
  unfold setSize
  rw [if_neg (by omega)]
  simp only [hu, init]
  exact ⟨⟨h31, h0, Nat.zero_le _, by simp⟩, trivial⟩

theorem setSize_uiTotEl (cb : CircBuf) (size : ℤ) : (cb.setSize size).2.uiTotEl = cb.uiTotEl := by
  unfold setSize
  split <;> rfl

end CircBuf

/-- A valid circular buffer of capacity `cap`. The `int` arguments of its operations are converted
as a C call converts them. -/
structure RingBuf (cap : ℕ) where
  cb : CircBuf
  valid : cb.Valid
  size_eq : cb.uiSize = cap

namespace RingBuf
variable {cap : ℕ}

/-- A new buffer after `setSize(cap)`. -/
def ofSize (cap : ℕ) (h0 : 0 < cap) (h31 : cap < 2147483648) : RingBuf cap :=
  ⟨(CircBuf.init.setSize cap).2, (CircBuf.setSize_valid cap h0 h31).1,
    (CircBuf.setSize_valid cap h0 h31).2⟩

def contents (r : RingBuf cap) : List Byte := r.cb.contents

def insert (r : RingBuf cap) (src : List Byte) (n : ℤ) : ℤ × RingBuf cap :=
  have hok := CircBuf.insert_ok r.valid src (s32 n) (s32_range n).1 (s32_range n).2
  match h : r.cb.insert src (s32 n) with
  | .ok (ret, cb') =>
    have hcb : cb'.Valid ∧ cb'.uiSize = r.cb.uiSize := by
      obtain ⟨_, _, he, hv⟩ := hok
      rw [h] at he
      cases he
      exact hv
    (ret, ⟨cb', hcb.1, hcb.2.trans r.size_eq⟩)
  | .error _ => absurd hok (by rintro ⟨_, _, he, _⟩; rw [h] at he; cases he)

def remove (r : RingBuf cap) (n : ℤ) : ℤ × RingBuf cap :=
  ((r.cb.remove (s32 n)).1, ⟨(r.cb.remove (s32 n)).2,
    (CircBuf.remove_valid r.valid (s32 n) (s32_range n).2).1,
    (CircBuf.remove_valid r.valid (s32 n) (s32_range n).2).2.trans r.size_eq⟩)

/-- `getAt(buf, n, end)`: the answer and the bytes copied. -/
def getAt (r : RingBuf cap) (n : ℤ) : ℤ × List Byte :=
  ((r.cb.getAt (s32 n)).1, (r.cb.getAt (s32 n)).2.1)

def getAvSize (r : RingBuf cap) : ℤ := r.cb.getAvSize

def getTotalElements (r : RingBuf cap) : ℤ := r.cb.getTotalElements

theorem contents_le (r : RingBuf cap) : r.contents.length ≤ cap := by
  have h := r.valid.tot_le
  have hs := r.size_eq
  rw [contents, CircBuf.contents_length]
  omega

@[simp] theorem contents_ofSize (h0 : 0 < cap) (h31 : cap < 2147483648) :
    (ofSize cap h0 h31).contents = [] := by
  apply List.length_eq_zero_iff.mp
  rw [contents, CircBuf.contents_length]
  exact CircBuf.setSize_uiTotEl CircBuf.init cap

theorem getAvSize_eq (r : RingBuf cap) : r.getAvSize = (cap - r.contents.length : ℕ) := by
  rw [getAvSize, r.valid.getAvSize_eq, contents, CircBuf.contents_length, r.size_eq]

theorem getTotalElements_eq (r : RingBuf cap) : r.getTotalElements = r.contents.length := by
  rw [getTotalElements, r.valid.getTotalElements_eq, contents, CircBuf.contents_length]

/-- A block is stored whole when it is shorter than the free space. -/
theorem insert_fits (r : RingBuf cap) (src : List Byte) (n : ℤ) (h0 : 0 < s32 n)
    (hsrc : (s32 n).toNat ≤ src.length) (hfit : s32 n < (cap - r.contents.length : ℕ)) :
    (r.insert src n).1 = s32 n ∧
      (r.insert src n).2.contents = r.contents ++ src.take (s32 n).toNat := by
  have heq := CircBuf.insert_eq r.valid src (s32 n) (s32_range n).1 (s32_range n).2
  have hs := r.size_eq
  rw [contents, CircBuf.contents_length] at hfit
  rw [if_pos ⟨h0, by omega⟩] at heq
  unfold insert
  split
  · rename_i ret cb' h
    rw [h] at heq
    cases heq
    exact ⟨rfl, CircBuf.store_contents r.valid src hsrc (by omega)⟩
  · rename_i e h
    rw [h] at heq
    cases heq

/-- Any other block is refused whole. -/
theorem insert_refused (r : RingBuf cap) (src : List Byte) (n : ℤ)
    (h : ¬ (0 < s32 n ∧ s32 n < (cap - r.contents.length : ℕ))) :
    (r.insert src n).1 = 0 ∧ (r.insert src n).2 = r := by
  have heq := CircBuf.insert_eq r.valid src (s32 n) (s32_range n).1 (s32_range n).2
  have hs := r.size_eq
  rw [contents, CircBuf.contents_length] at h
  rw [if_neg (by omega)] at heq
  unfold insert
  split
  · rename_i ret cb' hi
    rw [hi] at heq
    cases heq
    exact ⟨rfl, rfl⟩
  · rename_i e hi
    rw [hi] at heq
    cases heq

/-- What the guarded `insert` answers. -/
theorem insert_ret (r : RingBuf cap) (src : List Byte) (n : ℤ) :
    (r.insert src n).1 = if 0 < s32 n ∧ s32 n < r.getAvSize then s32 n else 0 := by
  have heq := CircBuf.insert_eq r.valid src (s32 n) (s32_range n).1 (s32_range n).2
  have hav : r.getAvSize = (r.cb.uiSize - r.cb.uiTotEl : ℕ) := r.valid.getAvSize_eq
  rw [hav]
  unfold insert
  split
  · rename_i ret cb' h
    rw [h] at heq
    split at heq <;> cases heq
    · rw [if_pos ‹_›]
    · rw [if_neg ‹_›]
  · rename_i e h
    rw [h] at heq
    split at heq <;> cases heq

/-- A block of which nothing was stored changes nothing. -/
theorem insert_ret_zero (r : RingBuf cap) (src : List Byte) (n : ℤ) (h : ¬ (r.insert src n).1 > 0) :
    (r.insert src n).2 = r := by
  rw [insert_ret, getAvSize_eq] at h
  refine (r.insert_refused src n fun hfit => ?_).2
  rw [if_pos hfit] at h
  exact h hfit.1

/-- A source inserted whole, by the size that `getAvSize` answers. -/
theorem insert_room (r : RingBuf cap) (src : List Byte) (h0 : 0 < src.length)
    (hfit : (src.length : ℤ) < r.getAvSize) :
    (r.insert src src.length).1 = src.length ∧
      (r.insert src src.length).2.contents = r.contents ++ src := by
  rw [getAvSize_eq] at hfit
  have hcap := r.valid.size_lt
  have hsize := r.size_eq
  have hlen : s32 (src.length : ℤ) = src.length := s32_cast _ (by omega)
  have hins := r.insert_fits src src.length (by omega) (by omega) (by omega)
  rw [hlen, Int.toNat_natCast, List.take_length] at hins
  exact hins

theorem insert_no_room (r : RingBuf cap) (src : List Byte) (hlt : src.length < 4294967296)
    (hfit : ¬ (src.length : ℤ) < r.getAvSize) :
    (r.insert src src.length).1 = 0 ∧ (r.insert src src.length).2 = r := by
  rw [getAvSize_eq] at hfit
  refine r.insert_refused src src.length ?_
  unfold s32
  omega

theorem remove_spec (r : RingBuf cap) (n : ℤ) :
    (r.remove n).1 = (min (s32 n).toNat r.contents.length : ℕ) ∧
      (r.remove n).2.contents = r.contents.drop (s32 n).toNat := by
  refine ⟨?_, CircBuf.remove_contents r.valid _ (s32_range n).2⟩
  rw [contents, CircBuf.contents_length]
  exact CircBuf.remove_ret r.valid _ (s32_range n).2

theorem getAt_spec (r : RingBuf cap) (n : ℤ) :
    (r.getAt n).1 = (min (s32 n).toNat r.contents.length : ℕ) ∧
      (r.getAt n).2 = r.contents.take (s32 n).toNat := by
  have h := CircBuf.getAt_eq r.valid (s32 n) (s32_range n).2
  rw [contents, CircBuf.contents_length]
  exact h

end RingBuf
end TcpOverUdp
