import TcpOverUdp.Foundations.Refinement
import TcpOverUdp.Model.RingBuf

/-! # The circular buffer refines a bounded byte queue

`BufOp` are the calls on a `CircularBuffer` whose size was set once or never. Their answers are those
of a queue that holds at most that many bytes, whatever `int` lengths they are given.
-/
namespace TcpOverUdp
open MachineInt
set_option autoImplicit false

/-- A value of type `int`. -/
structure IntArg where
  val : ℤ
  ge : -2147483648 ≤ val
  lt : val < 2147483648

/-- A call. The argument `buf` of the two `insert`s is the memory it points to. -/
inductive BufOp where
  /-- `insert(buf, n)`. -/
  | insert (buf : ℕ → Byte) (n : IntArg)
  /-- `insert(buf, n, start, end)`. -/
  | insertAt (buf : ℕ → Byte) (n : IntArg)
  | remove (n : IntArg)
  | getAt (n : IntArg)

/-- What a queue of capacity `cap` answers: the number returned and the bytes copied out. -/
def BufOp.onQueue (cap : ℕ) (q : List Byte) : BufOp → (ℤ × List Byte) × List Byte
  | insert buf n =>
    if 0 < n.val ∧ n.val < (cap - q.length : ℕ) then ((n.val, []), q ++ copyOut buf 0 n.val.toNat)
    else ((0, []), q)
  | insertAt buf n =>
    (((min n.val.toNat (cap - q.length) : ℕ), []), q ++ copyOut buf 0 (min n.val.toNat (cap - q.length)))
  | remove n => (((min n.val.toNat q.length : ℕ), []), q.drop n.val.toNat)
  | getAt n => (((min n.val.toNat q.length : ℕ), q.take n.val.toNat), q)

namespace CircBuf

/-- The call, with the number it returns and the bytes it copies out. -/
def perform (cb : CircBuf) : BufOp → Except Halt ((ℤ × List Byte) × CircBuf)
  | .insert buf n => do
    let (ret, cb') ← cb.insert (copyOut buf 0 n.val.toNat) n.val
    return ((ret, []), cb')
  | .insertAt buf n => do
    let (ret, _, cb') ← cb.insertAt (copyOut buf 0 n.val.toNat) n.val
    return ((ret, []), cb')
  | .remove n => .ok (((cb.remove n.val).1, []), (cb.remove n.val).2)
  | .getAt n => .ok (((cb.getAt n.val).1, (cb.getAt n.val).2.1), cb)

/-- The default size, or the one given to `setSize`. -/
inductive Fresh : CircBuf → ℕ → Prop
  | default : Fresh init 4096
  | sized {size : ℕ} (h0 : 0 < size) (h31 : size < 2147483648) : Fresh (init.setSize size).2 size

/-- The buffer holds the queue `q` of capacity `size`, in memory that was allocated. -/
structure Holds (size : ℕ) (cb : CircBuf) (q : List Byte) : Prop where
  valid : cb.Valid
  size_eq : cb.uiSize = size
  contents_eq : cb.contents = q
  allocated : cb.uiTotEl = 0 ∨ cb.buf.isSome

variable {cb : CircBuf} {size : ℕ} {q : List Byte}

theorem Fresh.holds (h : Fresh cb size) : Holds size cb [] := by
  cases h with
  | default => exact ⟨⟨by decide, by decide, by decide, by decide⟩, rfl, rfl, Or.inl rfl⟩
  | sized h0 h31 =>
    obtain ⟨hv, hs⟩ := setSize_valid size h0 h31
    have htot : (init.setSize size).2.uiTotEl = 0 := setSize_uiTotEl init size
    exact ⟨hv, hs, List.length_eq_zero_iff.1 (by rw [contents_length, htot]), Or.inl htot⟩

theorem Holds.length_eq (h : Holds size cb q) : q.length = cb.uiTotEl := by
  rw [← h.contents_eq, contents_length]

theorem Holds.alloc (h : Holds size cb q) : Holds size { cb with buf := some cb.mem } q where
  valid := ⟨h.valid.size_lt, h.valid.hi_lt, h.valid.tot_le, h.valid.ti_eq⟩
  size_eq := h.size_eq
  contents_eq := h.contents_eq
  allocated := Or.inr rfl

/-- The contents lie in the first `size` bytes of the memory. -/
theorem Holds.of_memory (h : Holds size cb q) {mem : ℕ → Byte} (hmem : ∀ i, i < size → mem i = cb.mem i) :
    Holds size { cb with buf := some mem } q where
  valid := ⟨h.valid.size_lt, h.valid.hi_lt, h.valid.tot_le, h.valid.ti_eq⟩
  size_eq := h.size_eq
  contents_eq := by
    rw [← h.contents_eq]
    refine List.map_congr_left fun i _ => hmem _ ?_
    rw [← h.size_eq]
    exact Nat.mod_lt _ h.valid.size_pos
  allocated := Or.inr rfl

theorem Holds.store (h : Holds size cb q) (buf : ℕ → Byte) {n k : ℕ} (hk0 : 0 < k) (hkn : k ≤ n)
    (hk : cb.uiTotEl + k ≤ cb.uiSize) :
    Holds size (cb.store (copyOut buf 0 n) k) (q ++ copyOut buf 0 k) where
  valid := store_valid h.valid _ hk0 hk
  size_eq := h.size_eq
  contents_eq := by
    have htake : (copyOut buf 0 n).take k = copyOut buf 0 k := by
      unfold copyOut
      rw [← List.map_take, List.take_range, Nat.min_eq_left hkn]
    rw [store_contents h.valid _ (by rw [copyOut_length]; exact hkn) hk, h.contents_eq, htake]
  allocated := Or.inr rfl

theorem store_outside (hv : cb.Valid) (src : List Byte) {k i : ℕ} (hk : cb.uiTotEl + k ≤ cb.uiSize)
    (hi : cb.uiSize ≤ i) : (cb.store src k).mem i = cb.mem i := by
  have ht := hv.ti_lt
  have htot := hv.tot_le
  by_cases hlong : k > cb.uiSize - cb.uiTi
  · rw [store_mem_wrap hv src hlong, copyIn_outside _ _ _ _ _ (by omega),
      copyIn_outside _ _ _ _ _ (by omega)]
  · rw [store_mem_row src (by omega), copyIn_outside _ _ _ _ _ (by omega)]

/-! ## One call -/

/-- The call `op` returns, answers as the queue does and leaves the buffer holding what the queue then
holds; memory from offset `size` on is not written. -/
def Refines (size : ℕ) (cb : CircBuf) (q : List Byte) (op : BufOp) : Prop :=
  ∃ cb', cb.perform op = .ok ((op.onQueue size q).1, cb') ∧ Holds size cb' (op.onQueue size q).2 ∧
    ∀ i, size ≤ i → cb'.mem i = cb.mem i

theorem insert_refines (h : Holds size cb q) (buf : ℕ → Byte) (n : IntArg) :
    Refines size cb q (.insert buf n) := by
  have hroom : cb.uiSize - cb.uiTotEl = size - q.length := by rw [h.size_eq, h.length_eq]
  unfold Refines perform BufOp.onQueue
  simp only [insert_eq h.valid _ n.val n.ge n.lt, hroom]
  by_cases hn : 0 < n.val ∧ n.val < (size - q.length : ℕ)
  · rw [if_pos hn, if_pos hn]
    refine ⟨_, rfl, h.store buf (by omega) le_rfl (by omega), ?_⟩
    intro i hi
    exact store_outside h.valid _ (by omega) (by rw [h.size_eq]; exact hi)
  · rw [if_neg hn, if_neg hn]
    exact ⟨_, rfl, h, fun i _ => rfl⟩

theorem insertAt_nothing (hv : cb.Valid) (src : List Byte) {n : ℤ}
    (hn : n ≤ 0 ∨ cb.uiTotEl = cb.uiSize) :
    ∃ cb', cb.insertAt src n = .ok (0, none, cb') ∧ (cb' = cb ∨ cb' = { cb with buf := some cb.mem }) := by
  unfold insertAt
  by_cases h0 : n ≤ 0
  · rw [if_pos h0]
    exact ⟨cb, rfl, Or.inl rfl⟩
  · have hfull : s32 (u32 ((cb.uiSize : ℤ) - cb.uiTotEl)) = 0 := by
      rw [hv.free_eq, hn.resolve_left h0, Nat.sub_self]
      rfl
    rw [if_neg h0]
    simp only [hfull, if_true]
    exact ⟨_, rfl, Or.inr rfl⟩

theorem insertAt_refines (h : Holds size cb q) (buf : ℕ → Byte) (n : IntArg) :
    Refines size cb q (.insertAt buf n) := by
  have htot := h.valid.tot_le
  have hroom : cb.uiSize - cb.uiTotEl = size - q.length := by rw [h.size_eq, h.length_eq]
  unfold Refines perform BufOp.onQueue
  by_cases hn : n.val ≤ 0 ∨ cb.uiTotEl = cb.uiSize
  · obtain ⟨cb', hcb', hsame⟩ := insertAt_nothing h.valid (copyOut buf 0 n.val.toNat) hn
    have hzero : min n.val.toNat (size - q.length) = 0 := by omega
    have hnil : copyOut buf 0 0 = [] := rfl
    simp only [hcb', hzero, hnil, List.append_nil]
    refine ⟨cb', rfl, ?_⟩
    rcases hsame with rfl | rfl
    · exact ⟨h, fun i _ => rfl⟩
    · exact ⟨h.alloc, fun i _ => rfl⟩
  · push Not at hn
    obtain ⟨span, hstore⟩ :=
      insertAt_eq_store h.valid (copyOut buf 0 n.val.toNat) hn.1 n.lt (by omega)
    simp only [hstore, hroom]
    refine ⟨_, rfl, h.store buf (by omega) (by omega) (by omega), ?_⟩
    intro i hi
    exact store_outside h.valid _ (by omega) (by rw [h.size_eq]; exact hi)

theorem remove_buf (cb : CircBuf) (n : ℤ) :
    (cb.remove n).2.buf = cb.buf ∧ (cb.uiTotEl = 0 → (cb.remove n).2 = cb) := by
  unfold remove
  split_ifs with h0 h1
  · exact ⟨rfl, fun _ => rfl⟩
  all_goals
    refine ⟨rfl, fun htot => ?_⟩
    exact absurd (Or.inl htot) h0

theorem remove_refines (h : Holds size cb q) (n : IntArg) : Refines size cb q (.remove n) := by
  obtain ⟨hv, hs⟩ := remove_valid h.valid n.val n.lt
  obtain ⟨hbuf, hsame⟩ := remove_buf cb n.val
  unfold Refines perform BufOp.onQueue
  simp only [remove_ret h.valid n.val n.lt, h.length_eq]
  refine ⟨_, rfl, ⟨hv, hs.trans h.size_eq, ?_, ?_⟩, ?_⟩
  · rw [remove_contents h.valid n.val n.lt, h.contents_eq]
  · refine h.allocated.imp (fun htot => ?_) (fun hsome => ?_)
    · rw [hsame htot, htot]
    · rw [hbuf, hsome]
  · intro i _
    rw [mem, mem, hbuf]

theorem getAt_refines (h : Holds size cb q) (n : IntArg) : Refines size cb q (.getAt n) := by
  obtain ⟨hret, hout⟩ := getAt_eq h.valid n.val n.lt
  unfold Refines perform BufOp.onQueue
  simp only [hret, hout, h.contents_eq, h.length_eq]
  exact ⟨_, rfl, h, fun i _ => rfl⟩

theorem Holds.refines (h : Holds size cb q) (op : BufOp) : Refines size cb q op := by
  cases op with
  | insert buf n => exact insert_refines h buf n
  | insertAt buf n => exact insertAt_refines h buf n
  | remove n => exact remove_refines h n
  | getAt n => exact getAt_refines h n

/-! ## Every sequence of calls -/

/-- The call `op` writes no byte of `m_buf` from offset `size` on, and its answer does not depend on
the bytes there. -/
structure WithinBlock (size : ℕ) (cb : CircBuf) (op : BufOp) : Prop where
  writes : ∀ r, cb.perform op = .ok r → ∀ i, size ≤ i → r.2.mem i = cb.mem i
  reads : ∀ r, cb.perform op = .ok r → ∀ mem : ℕ → Byte, (∀ i, i < size → mem i = cb.mem i) →
    ∃ cb', perform { cb with buf := some mem } op = .ok (r.1, cb')

theorem Holds.withinBlock (h : Holds size cb q) (op : BufOp) : WithinBlock size cb op := by
  obtain ⟨cb', hperf, _, hout⟩ := h.refines op
  constructor
  · intro r hr
    rw [hperf] at hr
    cases hr
    exact hout
  · intro r hr mem hmem
    rw [hperf] at hr
    cases hr
    obtain ⟨cb'', hperf', _⟩ := (h.of_memory hmem).refines op
    exact ⟨cb'', hperf'⟩

/-- After every sequence of calls the buffer holds what the queue does, and they answered alike. -/
theorem Fresh.performAll (h0 : Fresh cb size) (ops : List BufOp) :
    ∃ cb', performAll perform cb ops = .ok ((answerAll (BufOp.onQueue size) [] ops).1, cb') ∧
      Holds size cb' (answerAll (BufOp.onQueue size) [] ops).2 := by
  have hstep : ∀ (s : CircBuf) (t : List Byte) (o : BufOp), Holds size s t →
      ∃ s', s.perform o = .ok ((o.onQueue size t).1, s') ∧ Holds size s' (o.onQueue size t).2 := by
    intro s t o h
    obtain ⟨s', hperf, hholds, _⟩ := h.refines o
    exact ⟨s', hperf, hholds⟩
  exact performAll_refines (Holds size) hstep ops h0.holds

/-- After every sequence of calls, on a buffer whose size was set once or is the default: the answers
are those of the queue, no assertion failed, the indices are in range, and every further call stays
in the `size` bytes of the array, which is allocated as soon as it is read. -/
theorem fifo_refinement (h0 : Fresh cb size) (ops : List BufOp) :
    ∃ cb', performAll perform cb ops = .ok ((answerAll (BufOp.onQueue size) [] ops).1, cb') ∧
      cb'.contents = (answerAll (BufOp.onQueue size) [] ops).2 ∧
      cb'.uiHi < size ∧ cb'.uiTi < size ∧
      cb'.uiTotEl = (answerAll (BufOp.onQueue size) [] ops).2.length ∧ cb'.uiTotEl ≤ size ∧
      cb'.uiTi = (cb'.uiHi + cb'.uiTotEl) % size ∧ (cb'.uiTotEl = 0 ∨ cb'.buf.isSome) ∧
      ∀ op, WithinBlock size cb' op := by
  obtain ⟨cb', hrun, h⟩ := h0.performAll ops
  have hv := h.valid
  have hs := h.size_eq
  refine ⟨cb', hrun, h.contents_eq, ?_, ?_, h.length_eq.symm, ?_, ?_, h.allocated, h.withinBlock⟩
  · rw [← hs]
    exact hv.hi_lt
  · rw [← hs]
    exact hv.ti_lt
  · rw [← hs]
    exact hv.tot_le
  · rw [← hs]
    exact hv.ti_eq

/-- Three bytes into a buffer of eight, four of them out. -/
theorem fifo_refinement_small : ∃ cb', performAll perform (init.setSize 8).2
    [.insert (fun i => UInt8.ofNat (49 + i)) ⟨3, by decide, by decide⟩, .remove ⟨4, by decide, by decide⟩] =
      .ok ([(3, []), (3, [])], cb') ∧ cb'.contents = [] := by
  obtain ⟨cb', hrun, hcon, _⟩ := fifo_refinement (@Fresh.sized 8 (by decide) (by decide))
    [.insert (fun i => UInt8.ofNat (49 + i)) ⟨3, by decide, by decide⟩, .remove ⟨4, by decide, by decide⟩]
  exact ⟨cb', hrun, hcon⟩

end CircBuf
end TcpOverUdp
