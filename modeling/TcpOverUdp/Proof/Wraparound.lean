import TcpOverUdp.Foundations.WrapCounter
import TcpOverUdp.Proof.Sessions
import TcpOverUdp.Proof.PureAck

/-! # Sequence numbers past 2^32

The stream offset `n` of a connection whose initial sequence number is `isn` travels as
`wireSeq isn n`. Nothing in the library compares two sequence numbers otherwise than as raw words.
Each of its decisions agrees with the true offsets exactly when the two offsets it compares lie in
one block of 2^32, that is when no wrap lies between them.
-/
namespace TcpOverUdp
open MachineInt WrapCounter
set_option autoImplicit false

/-- The sequence number of stream offset `n`, as the 32 bits on the wire and in a `u_long`. -/
def wireSeq (isn n : ℕ) : ℕ := (isn + n) % 4294967296

/-- How often the sequence numbers have wrapped when they reach stream offset `n`. -/
def wraps (isn n : ℕ) : ℕ := (isn + n) / 4294967296

namespace Process

/-- What `proc_ack` is to answer, by the order of the acknowledgment number and `snd_una`. -/
def ackOrder : Ordering → AckOrder
  | .lt => .smlthanUna
  | .eq => .equaltoUna
  | .gt => .bigthanUna

theorem dataState_inj {o o' : Ordering} : dataState o = dataState o' ↔ o = o' := by
  cases o <;> cases o' <;> decide

theorem ackOrder_inj {o o' : Ordering} : ackOrder o = ackOrder o' ↔ o = o' := by
  cases o <;> cases o' <;> decide

/-! ## The decisions as comparisons of raw words -/

theorem procAck_order (stb : SockTb) (tp : TouPkg) :
    (procAck stb tp).1 = ackOrder (cmp tp.t.ackSeq stb.tc.sndUna) := by
  unfold procAck
  rcases lt_trichotomy tp.t.ackSeq stb.tc.sndUna with h | h | h
  · rw [(cmp_eq_lt_iff _ _).2 h]
    simp [h.not_gt, h.ne, ackOrder]
  · rw [h, cmp_self_eq_eq]
    simp [ackOrder]
  · rw [(cmp_eq_gt_iff _ _).2 h]
    simp [h, ackOrder]

/-- The window's right edge wraps like any sequence number. -/
theorem getSendSize_wire {stb : SockTb} {isn u n : ℕ} (hu : stb.tc.sndUna = wireSeq isn u)
    (hn : stb.tc.sndNxt = wireSeq isn n) :
    getSendSize stb = if wireSeq isn n ≤ wireSeq isn (u + stb.tc.getwnd) then
      wireSeq isn (u + stb.tc.getwnd) - wireSeq isn n else 0 := by
  have hedge : u32 ((stb.tc.sndUna : ℤ) + stb.tc.getwnd) = wireSeq isn (u + stb.tc.getwnd) := by
    rw [hu]
    unfold u32 wireSeq
    omega
  have hlt : wireSeq isn (u + stb.tc.getwnd) < 4294967296 := Nat.mod_lt _ (by decide)
  simp only [getSendSize, hedge, hn, ge_iff_le]
  by_cases hle : wireSeq isn n ≤ wireSeq isn (u + stb.tc.getwnd)
  · rw [if_pos hle, if_pos hle]
    exact u32_sub _ _ hle hlt
  · rw [if_neg hle, if_neg hle]

/-! ## Against the true offsets -/

/-- For offsets closer than 2^32, so in particular with at most `TOU_MAX_CIRCULAR_BUF/2` bytes in
flight: the class of a data segment at offset `s` where `r` is expected, the acceptance of a pure
ACK of offset `a` where `n` is next, the answer of `proc_ack` and the send window of `getSendSize`
are those of the true offsets exactly when no wrap lies between the two offsets compared. -/
theorem sequence_decisions_iff (isn : ℕ) :
    (∀ stb tp s r, stb.sockstate = .established → IsData tp → tp.t.seq = wireSeq isn s →
      stb.tc.rcvNxt = wireSeq isn r → s < r + 4294967296 → r < s + 4294967296 →
      (processGetPktState stb tp = .ok (dataState (cmp s r)) ↔ wraps isn s = wraps isn r)) ∧
    (∀ stb d a n, stb.sockstate = .established → IsPureAck d (wireSeq isn a) →
      stb.tc.sndNxt = wireSeq isn n → a ≤ n → n < a + 4294967296 →
      (processGetPktState stb (recvPkg d) = .ok .ackWithoutData ↔ wraps isn a = wraps isn n)) ∧
    (∀ stb tp a u, tp.t.ackSeq = wireSeq isn a → stb.tc.sndUna = wireSeq isn u →
      a < u + 4294967296 → u < a + 4294967296 →
      ((procAck stb tp).1 = ackOrder (cmp a u) ↔ wraps isn a = wraps isn u)) ∧
    (∀ stb u n, stb.tc.sndUna = wireSeq isn u → stb.tc.sndNxt = wireSeq isn n → u ≤ n →
      n < u + 4294967296 →
      (getSendSize stb = stb.tc.getwnd - (n - u) ↔
        wraps isn (u + stb.tc.getwnd) = wraps isn n)) := by
  refine ⟨?_, ?_, ?_, ?_⟩
  · intro stb tp s r he ht hs hr hsr hrs
    rw [processGetPktState_data he ht, hs, hr, Except.ok.injEq, dataState_inj,
      show cmp s r = cmp (isn + s) (isn + r) by rw [cmp_add_left]]
    exact cmp_mod_eq_iff (by omega) (by omega)
  · intro stb d a n he hd hn han hna
    rw [classify_pureAck hd he, hn]
    have hle : wireSeq isn a ≤ wireSeq isn n ↔ wraps isn a = wraps isn n :=
      mod_le_mod_iff (Nat.add_le_add_left han isn) (by omega)
    by_cases h : wireSeq isn a ≤ wireSeq isn n
    · rw [if_pos h]
      exact iff_of_true rfl (hle.1 h)
    · rw [if_neg h]
      refine iff_of_false ?_ (h ∘ hle.2)
      intro hc
      cases hc
  · intro stb tp a u ha hu hau hua
    rw [procAck_order, ha, hu, ackOrder_inj,
      show cmp a u = cmp (isn + a) (isn + u) by rw [cmp_add_left]]
    exact cmp_mod_eq_iff (by omega) (by omega)
  · intro stb u n hu hn hun hnu
    have hw := stb.tc.getwnd_le
    rw [getSendSize_wire hu hn]
    have hsub : stb.tc.getwnd - (n - u) = isn + (u + stb.tc.getwnd) - (isn + n) := by omega
    rw [hsub]
    exact guarded_sub_iff (by omega) (by omega)

theorem exists_client_at_wrap :
    ∃ p, touConnect (Process.init 3 1) ⟨2, 80⟩ 425984 (synAckFrom ⟨2, 80⟩ 4294967294 1) = .ok (true, p) ∧
      p.stb.sockstate = .established ∧ p.stb.tc.rcvNxt = wireSeq 4294967295 0 ∧
      p.stb.tc.sndUna = wireSeq 1 0 ∧ p.stb.tc.sndNxt = wireSeq 1 0 := by
  obtain ⟨p, hp⟩ := touConnect_returns (Process.init 3 1) ⟨2, 80⟩ 425984
    (synAckFrom ⟨2, 80⟩ 4294967294 1) (by decide) (by decide)
  have hcr : ConnectResult (Process.init 3 1) ⟨2, 80⟩ (synAckFrom ⟨2, 80⟩ 4294967294 1) p :=
    (touConnect_result hp).2
  refine ⟨p, hp, (Opened.connect hp).fresh.2, ?_, ?_, ?_⟩
  · rw [hcr.rcvNxt_eq]
    decide +kernel
  · rw [hcr.sndUna_eq]
    decide +kernel
  · rw [hcr.sndNxt_eq]
    decide +kernel

theorem sequence_decisions_iff_wrap : ∃ p : Process, p.stb.tc.rcvNxt = wireSeq 4294967295 0 ∧
    (processGetPktState p.stb (TouPkg.segment (wireSeq 4294967295 1) 1 [5]) =
      .ok (dataState (cmp 1 0)) ↔ wraps 4294967295 1 = wraps 4294967295 0) ∧
    (getSendSize p.stb = p.stb.tc.getwnd - (0 - 0) ↔ wraps 1 (0 + p.stb.tc.getwnd) = wraps 1 0) := by
  obtain ⟨p, _, he, hr, hu, hn⟩ := exists_client_at_wrap
  exact ⟨p, hr,
    (sequence_decisions_iff 4294967295).1 p.stb _ 1 0 he (@isData_segment _ _ [5] (by decide)) rfl hr
      (by decide) (by decide),
    (sequence_decisions_iff 1).2.2.2 p.stb 0 0 hu hn (by decide) (by decide)⟩

/-- The segment after the expected one is taken for an old one when its number has wrapped. -/
theorem wrapped_segment_taken_for_old :
    ∃ p, touConnect (Process.init 3 1) ⟨2, 80⟩ 425984 (synAckFrom ⟨2, 80⟩ 4294967294 1) = .ok (true, p) ∧
      p.stb.tc.rcvNxt = wireSeq 4294967295 0 ∧
      processGetPktState p.stb (TouPkg.segment (wireSeq 4294967295 1) 1 [5]) ≠
        .ok (dataState (cmp 1 0)) ∧
      processGetPktState p.stb (TouPkg.segment (wireSeq 4294967295 1) 1 [5]) =
        .ok .ackWithDataLessExpectedSeq := by
  obtain ⟨p, hp, he, hr, _⟩ := exists_client_at_wrap
  have hold : processGetPktState p.stb (TouPkg.segment (wireSeq 4294967295 1) 1 [5]) =
      .ok .ackWithDataLessExpectedSeq := by
    rw [processGetPktState_data he (isData_segment (by decide)), hr]
    decide
  refine ⟨p, hp, hr, ?_, hold⟩
  rw [hold]
  decide

end Process
end TcpOverUdp
