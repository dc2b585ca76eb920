import TcpOverUdp.Proof.BufferCalls
import TcpOverUdp.Proof.Send

/-! # The guarded `insert` against the raw one

`insert(buf, n)` calls `insert(buf, n, start, end)` only for `n` below the free space, so a block that
would fill the buffer to the last byte is refused, also by `touSend` and `putcircbuf`, which are given
a whole block each.
-/
namespace TcpOverUdp
open MachineInt
set_option autoImplicit false

namespace CircBuf
variable {cb : CircBuf}

def afterCalls (cb : CircBuf) : List BufCall → Except Halt CircBuf
  | [] => .ok cb
  | c :: cs => do
    let cb' ← cb.afterCall c
    afterCalls cb' cs

/-- A buffer that calls on a new one lead to, `setSize` at any moment included. -/
def Reachable (cb : CircBuf) : Prop := ∃ calls, init.afterCalls calls = .ok cb

/-- The two overloads agree on a block of `n` bytes: what fits is inserted as the raw one does, and
everything else is refused whole. -/
def Agrees (cb : CircBuf) (src : List Byte) (n : ℤ) : Prop :=
  if 0 < n ∧ n ≤ cb.getAvSize then
    ∃ ret span cb', cb.insertAt src n = .ok (ret, span, cb') ∧ cb.insert src n = .ok (n, cb')
  else cb.insert src n = .ok (0, cb)

/-- The size and the count are values of type `int`, which is all that calls keep in general. -/
structure Words (cb : CircBuf) : Prop where
  size_pos : 0 < cb.uiSize
  size_lt : cb.uiSize < 2147483648
  tot_lt : cb.uiTotEl < 2147483648

theorem words_init : init.Words := ⟨by decide, by decide, by decide⟩

theorem Words.getAvSize_eq (h : cb.Words) : cb.getAvSize = (cb.uiSize : ℤ) - cb.uiTotEl := by
  have h1 := h.size_lt
  have h2 := h.tot_lt
  unfold getAvSize u32 s32
  omega

theorem insertAt_fits (src : List Byte) {n : ℤ} (hn : 0 < n) (hav : n ≤ cb.getAvSize) :
    ∃ span cb', cb.insertAt src n = .ok (n, span, cb') := by
  unfold getAvSize at hav
  unfold insertAt
  simp only
  rw [if_neg (by omega), if_neg (by omega), if_neg (by omega), if_neg (by omega)]
  exact ⟨_, _, rfl⟩

theorem Words.of_same {cb' : CircBuf} (h : cb.Words) (hs : cb'.uiSize = cb.uiSize)
    (ht : cb'.uiTotEl ≤ cb.uiTotEl) : cb'.Words where
  size_pos := hs ▸ h.size_pos
  size_lt := hs ▸ h.size_lt
  tot_lt := ht.trans_lt h.tot_lt

theorem insertAt_words (h : cb.Words) {src : List Byte} {n : ℤ} {r : ℤ × Option (ℕ × ℕ) × CircBuf}
    (hr : cb.insertAt src n = .ok r) : r.2.2.Words := by
  have hs := h.size_lt
  have hav := h.getAvSize_eq
  obtain ⟨ret, span, cb'⟩ := r
  cases insertAt_inserted hr with
  | nothing => exact h
  | full => exact h.of_same rfl le_rfl
  | stored hn hpos =>
    refine ⟨h.size_pos, h.size_lt, ?_⟩
    simp only
    rw [u32_of_lt (by omega) (by omega)]
    omega

theorem insert_words (h : cb.Words) {src : List Byte} {n : ℤ} {r : ℤ × CircBuf}
    (hr : cb.insert src n = .ok r) : r.2.Words := by
  unfold insert at hr
  split at hr
  · obtain ⟨r', hat, hr⟩ := of_bind_ok hr
    cases hr
    exact insertAt_words h hat
  · cases hr
    exact h

theorem remove_words (h : cb.Words) (n : ℤ) (hn31 : n < 2147483648) : (cb.remove n).2.Words := by
  have ht := h.tot_lt
  unfold remove
  split_ifs with hnone hmore
  · exact h
  · exact h.of_same rfl (Nat.zero_le _)
  · push Not at hnone
    rw [u32_of_lt (by omega) (by omega)] at hmore
    refine h.of_same rfl ?_
    simp only
    rw [u32_of_lt (by omega) (by omega)]
    omega

theorem setSize_words (h : cb.Words) (size : IntArg) : (cb.setSize size.val).2.Words := by
  have hlt := size.lt
  have ht := h.tot_lt
  unfold setSize
  split
  · exact h
  · have hu : u32 size.val = size.val.toNat := u32_of_lt (by omega) (by omega)
    refine ⟨?_, ?_, ht⟩ <;> simp only [hu] <;> omega

theorem Words.afterCall (h : cb.Words) {c : BufCall} {cb' : CircBuf} (hc : cb.afterCall c = .ok cb') :
    cb'.Words := by
  cases c with
  | getFrom start n =>
    cases hc
    exact h
  | query =>
    cases hc
    exact h
  | setSize size =>
    cases hc
    exact setSize_words h size
  | op o =>
    simp only [CircBuf.afterCall] at hc
    obtain ⟨r, hperf, hr⟩ := of_bind_ok hc
    cases hr
    cases o with
    | insert buf n =>
      obtain ⟨r, hins, hr⟩ := of_bind_ok hperf
      cases hr
      exact insert_words h hins
    | insertAt buf n =>
      obtain ⟨r, hat, hr⟩ := of_bind_ok hperf
      cases hr
      exact insertAt_words h hat
    | remove n =>
      cases hperf
      exact remove_words h n.val n.lt
    | getAt n =>
      cases hperf
      exact h

theorem Words.afterCalls (h : cb.Words) {calls : List BufCall} {cb' : CircBuf}
    (hc : cb.afterCalls calls = .ok cb') : cb'.Words := by
  induction calls generalizing cb with
  | nil =>
    cases hc
    exact h
  | cons c cs ih =>
    obtain ⟨cb1, hcall, hrest⟩ := of_bind_ok hc
    exact ih (h.afterCall hcall) hrest

theorem Reachable.words (h : cb.Reachable) : cb.Words := by
  obtain ⟨calls, hcalls⟩ := h
  exact words_init.afterCalls hcalls

/-- A block of at least one byte gets through the guard if it is below the free space as an unsigned
number, which a negative one is far above. -/
theorem insert_guarded (h : cb.Words) (src : List Byte) {n : ℤ} (hn : 0 < n) (hn31 : n < 2147483648) :
    cb.insert src n = if cb.getAvSize < 0 then .error (.assertFail .circBufInsert)
      else if n < cb.getAvSize then (cb.insertAt src n).map fun r => (r.1, r.2.2) else .ok (0, cb) := by
  have hs := h.size_lt
  have ht := h.tot_lt
  have hav := h.getAvSize_eq
  have hu : u32 n = n.toNat := u32_of_lt (by omega) (by omega)
  unfold insert
  rw [hu]
  by_cases hneg : cb.getAvSize < 0
  · have hbig : 2147483648 ≤ u32 ((cb.uiSize : ℤ) - cb.uiTotEl) := by
      unfold u32
      omega
    rw [if_pos (by omega), if_pos hneg, insertAt_asserts src hn hneg]
    rfl
  · have hfree : u32 ((cb.uiSize : ℤ) - cb.uiTotEl) = cb.uiSize - cb.uiTotEl :=
      u32_sub _ _ (by omega) (by omega)
    rw [hfree, if_neg hneg]
    by_cases hlt : n < cb.getAvSize
    · rw [if_pos (by omega), if_pos hlt]
      cases cb.insertAt src n <;> rfl
    · rw [if_neg (by omega), if_neg hlt]

theorem insert_nothing (src : List Byte) {n : ℤ} (hn : n ≤ 0) : cb.insert src n = .ok (0, cb) := by
  unfold insert insertAt
  rw [if_pos hn]
  split <;> rfl

/-- The overloads agree unless the block fills the buffer exactly, or the size was cut below what the
buffer holds. -/
theorem agrees_iff (h : cb.Words) (src : List Byte) (n : IntArg) :
    cb.Agrees src n.val ↔
      n.val ≤ 0 ∨ (cb.uiTotEl ≤ cb.uiSize ∧ n.val ≠ (cb.uiSize : ℤ) - cb.uiTotEl) := by
  have hav := h.getAvSize_eq
  unfold Agrees
  by_cases hn : n.val ≤ 0
  · rw [if_neg (by omega)]
    exact ⟨fun _ => Or.inl hn, fun _ => insert_nothing src hn⟩
  rw [insert_guarded h src (by omega) n.lt]
  by_cases hneg : cb.getAvSize < 0
  · rw [if_neg (by omega), if_pos hneg]
    constructor
    · intro herr
      exact absurd herr (by simp)
    · omega
  rw [if_neg hneg]
  rcases lt_trichotomy n.val cb.getAvSize with hlt | heq | hgt
  · obtain ⟨span, cb', hat⟩ := insertAt_fits src (by omega) hlt.le
    rw [if_pos (by omega), if_pos hlt, hat]
    exact ⟨fun _ => by omega, fun _ => ⟨_, _, _, rfl, rfl⟩⟩
  · rw [if_pos (by omega), if_neg (by omega)]
    constructor
    · rintro ⟨_, _, _, _, hret⟩
      have hzero : 0 = n.val := congrArg Prod.fst (Except.ok.inj hret)
      omega
    · omega
  · rw [if_neg (by omega), if_neg (by omega)]
    exact ⟨fun _ => by omega, fun _ => rfl⟩

end CircBuf

theorem RingBuf.insert_refuses_iff {cap : ℕ} (r : RingBuf cap) (src : List Byte) {n : ℤ}
    (hn : 0 < s32 n) (hfit : s32 n ≤ r.getAvSize) :
    (r.insert src n).1 = 0 ↔ s32 n = r.getAvSize := by
  rw [r.insert_ret]
  split <;> omega

namespace CircBuf

/-- The overloads agree, in every buffer that calls lead to, exactly on the blocks that do not fill the
buffer; `putcircbuf` and `touSend` refuse, of the blocks that fit, exactly those that fill theirs. -/
theorem guarded_insert_iff {cb : CircBuf} (h : cb.Reachable) (src : List Byte) (n : IntArg) :
    (cb.Agrees src n.val ↔
      n.val ≤ 0 ∨ (cb.uiTotEl ≤ cb.uiSize ∧ n.val ≠ (cb.uiSize : ℤ) - cb.uiTotEl)) ∧
    (∀ (stb : SockTb), 0 < n.val → n.val ≤ stb.cbRecv.getAvSize →
      ((Process.putcircbuf stb src n.val).1 = 0 ↔ n.val = stb.cbRecv.getAvSize)) ∧
    ∀ (now : ℕ) (p : Process), 0 < n.val → n.val ≤ p.stb.cbSend.getAvSize →
      ∃ ret q, Process.touSend now p src n.val = .ok (ret, q) ∧
        (ret = 0 ↔ n.val = p.stb.cbSend.getAvSize) := by
  have hs : s32 n.val = n.val := s32_of_range n.ge n.lt
  refine ⟨agrees_iff h.words src n, ?_, ?_⟩
  · intro stb hn hfit
    have hrefuse := stb.cbRecv.insert_refuses_iff src (n := n.val) (by omega) (by omega)
    rwa [hs] at hrefuse
  · intro now p hn hfit
    have hrefuse := p.stb.cbSend.insert_refuses_iff src (n := n.val) (by omega) (by omega)
    rw [hs] at hrefuse
    obtain ⟨_, q, hsend, _⟩ := Process.send_emits now (Process.pushsndq p src n.val).2
    refine ⟨(Process.pushsndq p src n.val).1, q, ?_, hrefuse⟩
    unfold Process.touSend
    simp only [hsend]
    rfl

/-- A block of four bytes and an empty buffer of four. -/
theorem exact_block_refused : Reachable (init.setSize 4).2 ∧ (init.setSize 4).2.getAvSize = 4 ∧
    (init.setSize 4).2.insert [49, 50, 51, 52] 4 = .ok (0, (init.setSize 4).2) ∧
    (∃ span cb', (init.setSize 4).2.insertAt [49, 50, 51, 52] 4 = .ok (4, span, cb')) ∧
    ¬ (init.setSize 4).2.Agrees [49, 50, 51, 52] 4 := by
  have hreach : Reachable (init.setSize 4).2 := ⟨[.setSize ⟨4, by decide, by decide⟩], rfl⟩
  have hav : (init.setSize 4).2.getAvSize = 4 := by decide
  have hins := insert_guarded hreach.words [49, 50, 51, 52] (n := 4) (by decide) (by decide)
  rw [hav, if_neg (by decide), if_neg (by decide)] at hins
  have hno := (agrees_iff hreach.words [49, 50, 51, 52] ⟨4, by decide, by decide⟩).not.2 (by decide)
  exact ⟨hreach, hav, hins, insertAt_fits _ (by decide) (by rw [hav]), hno⟩

/-- Three bytes into the same buffer. -/
theorem guarded_insert_iff_three : (init.setSize 4).2.Agrees [49, 50, 51] 3 := by
  have hreach : Reachable (init.setSize 4).2 := ⟨[.setSize ⟨4, by decide, by decide⟩], rfl⟩
  refine (guarded_insert_iff hreach [49, 50, 51] ⟨3, by decide, by decide⟩).1.2 (Or.inr ?_)
  decide

end CircBuf
end TcpOverUdp
