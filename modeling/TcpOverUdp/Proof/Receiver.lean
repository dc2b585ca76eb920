import TcpOverUdp.Proof.Sides
import TcpOverUdp.Foundations.Pieces

/-! # What the receiver stores of a stream

`stream` is the byte stream with its bytes at their sequence numbers, and `B` are the numbers at which
a segment of it may begin. `Stores` says that the bytes taken out of `cb_recv` and those still in it are
the stream up to `rcv_nxt`. The recovery loop keeps that. The in-order branch keeps it only if the
segment fits, because it advances `rcv_nxt` whether or not `putcircbuf` took the bytes.
-/
namespace TcpOverUdp
open MachineInt Pieces
set_option autoImplicit false

namespace Process

/-! ## The invariant -/

/-- If the packet begins where a segment may begin, it carries the bytes of the stream. -/
structure CutFrom (stream : List Byte) (B : ℕ → Prop) (tp : TouPkg) : Prop where
  pos : 0 < tp.buf.length
  buf_eq : B tp.t.seq → tp.buf = stream.extract tp.t.seq (tp.t.seq + tp.buf.length)
  end_le : B tp.t.seq → tp.t.seq + tp.buf.length ≤ stream.length
  end_boundary : B tp.t.seq → B (tp.t.seq + tp.buf.length)

structure Stores (stream : List Byte) (B : ℕ → Prop) (start : ℕ) (removed : List Byte)
    (stb : SockTb) : Prop where
  boundary : B stb.tc.rcvNxt
  start_le : start ≤ stb.tc.rcvNxt
  le_length : stb.tc.rcvNxt ≤ stream.length
  stored : removed ++ stb.cbRecv.contents = stream.extract start stb.tc.rcvNxt
  held : ∀ pkt ∈ stb.minhpRecv.elems, CutFrom stream B pkt

section Stores
variable {stream : List Byte} {B : ℕ → Prop} {start : ℕ} {removed : List Byte} {stb : SockTb}

theorem Stores.of_eq (hs : Stores stream B start removed stb) {stb' : SockTb}
    (hc : stb'.cbRecv = stb.cbRecv) (hh : stb'.minhpRecv = stb.minhpRecv)
    (hr : stb'.tc.rcvNxt = stb.tc.rcvNxt) : Stores stream B start removed stb' := by
  refine ⟨?_, ?_, ?_, ?_, ?_⟩
  · rw [hr]
    exact hs.boundary
  · rw [hr]
    exact hs.start_le
  · rw [hr]
    exact hs.le_length
  · rw [hc, hr]
    exact hs.stored
  · rw [hh]
    exact hs.held

/-- Storing the bytes of a segment that begins at `rcv_nxt`, and moving `rcv_nxt` behind them. -/
theorem Stores.append (hs : Stores stream B start removed stb) (hlen : stream.length < 4294967296)
    {tp : TouPkg} (hc : CutFrom stream B tp) (hseq : tp.t.seq = stb.tc.rcvNxt) {stb' : SockTb}
    (hbuf : stb'.cbRecv.contents = stb.cbRecv.contents ++ tp.buf)
    (hrcv : stb'.tc.rcvNxt = u32 ((tp.t.seq : ℤ) + tp.buf.length))
    (hheld : ∀ pkt ∈ stb'.minhpRecv.elems, CutFrom stream B pkt) :
    Stores stream B start removed stb' := by
  have hb : B tp.t.seq := hseq ▸ hs.boundary
  have hend := hc.end_le hb
  have hstart := hs.start_le
  have hnext : stb'.tc.rcvNxt = tp.t.seq + tp.buf.length := by
    rw [hrcv, u32_add _ _ (by omega)]
  refine ⟨?_, by omega, by omega, ?_, hheld⟩
  · rw [hnext]
    exact hc.end_boundary hb
  · have hjoin := extract_join stream hs.start_le (show stb.tc.rcvNxt ≤ tp.t.seq + tp.buf.length by omega)
    rw [hbuf, ← List.append_assoc, hs.stored, hnext, ← hjoin]
    congr 1
    rw [← hseq]
    exact hc.buf_eq hb

/-- Recovery stores what it takes out of the heap. -/
theorem Stores.recovery (hs : Stores stream B start removed stb) (hlen : stream.length < 4294967296)
    {r : ℤ × SockTb} (h : procPktRec stb = .ok r) : Stores stream B start removed r.2 := by
  refine procPktRec_inv h (Stores stream B start removed) hs ?_ ?_ fun a ha => ha.of_eq rfl rfl rfl
  · intro a top n cb hoff hn ha
    have hc := ha.held top (MinHeap.mem_of_top? hoff.top_eq)
    have hend := hc.end_le (hoff.seq_eq ▸ ha.boundary)
    rcases putcircbuf_cases hc.pos (by omega) hoff.put_eq with ⟨_, hbuf⟩ | ⟨hno, _⟩
    · exact ha.append hlen hc hoff.seq_eq hbuf rfl fun pkt hp => ha.held pkt (MinHeap.mem_of_mem_pop hp)
    · exact absurd hn hno
  · intro a top n cb hoff hn ha
    have hc := ha.held top (MinHeap.mem_of_top? hoff.top_eq)
    have hend := hc.end_le (hoff.seq_eq ▸ ha.boundary)
    rcases putcircbuf_cases hc.pos (by omega) hoff.put_eq with ⟨hput, _⟩ | ⟨_, hsame⟩
    · exact absurd hput hn
    · exact ha.of_eq hsame rfl rfl

end Stores

/-! ## Received packets -/

theorem recvPkg_buf (d : Datagram) : (recvPkg d).buf = (d.bytes.take recvBufSize).drop 16 := rfl

theorem recvPkg_buf_le (d : Datagram) : (recvPkg d).buf.length ≤ 1984 := by
  rw [recvPkg_buf, List.length_drop, List.length_take]
  unfold recvBufSize
  omega

/-- The packet pushed into `minhp_recv` is the one received. -/
theorem recvPkg_copy {d : Datagram} (h : 0 < (recvPkg d).buf.length) : (recvPkg d).copy = recvPkg d := by
  have hle := recvPkg_buf_le d
  have hbuf := recvPkg_buf d
  have hlen : (recvPkg d).buflen = (recvPkg d).buf.length := by
    show s32 (u32 (((d.bytes.take recvBufSize).length : ℤ) - 16)) = _
    have hcut : (recvPkg d).buf.length = (d.bytes.take recvBufSize).length - 16 := by
      rw [hbuf, List.length_drop]
    have hcast : ((d.bytes.take recvBufSize).length : ℤ) - 16 = ((recvPkg d).buf.length : ℕ) := by
      omega
    rw [hcast, u32_cast _ (by omega), s32_cast _ (by omega)]
  unfold TouPkg.copy
  rw [hlen, Int.toNat_natCast, List.take_length]
  exact congrArg (fun n => { recvPkg d with buflen := n }) hlen.symm

theorem pushHpRecvBuf_eq {d : Datagram} (stb : SockTb) (h : 0 < (recvPkg d).buf.length) :
    stb.pushHpRecvBuf (recvPkg d) = { stb with minhpRecv := stb.minhpRecv.push (recvPkg d) } := by
  unfold SockTb.pushHpRecvBuf
  rw [recvPkg_copy h, recvPkg_copy h]

/-! ## Turns -/

/-- The receive side of the two tables is the same. -/
structure RecvSame (a b : SockTb) : Prop where
  cbRecv_eq : b.cbRecv = a.cbRecv
  minhpRecv_eq : b.minhpRecv = a.minhpRecv
  rcvNxt_eq : b.tc.rcvNxt = a.tc.rcvNxt
  runstate_eq : b.runstate = a.runstate

theorem ack_recvSame {now : ℕ} {p p1 p2 : Process} {tp : TouPkg} (h1 : handleAck now p tp = .ok p1)
    (h2 : send now p1 = .ok p2) : RecvSame p.stb p2.stb := by
  obtain ⟨pieces, he⟩ := send_ok h2
  have ha := handleAck_effect h1
  have ht := he.table_eq
  have ht1 := ha.table_eq
  refine ⟨?_, ?_, ?_, ?_⟩
  · rw [ht, ht1]
  · rw [ht, ht1]
  · rw [ht]
    exact ha.rcvNxt_eq
  · rw [ht, ht1]

theorem DelackEffect.recvSame {p q : Process} (h : DelackEffect p q) : RecvSame p.stb q.stb := by
  have ht := h.table_eq
  refine ⟨?_, ?_, ?_, ?_⟩ <;> rw [ht] <;> rfl

theorem TimeoutEffect.recvSame {p q : Process} (h : TimeoutEffect p q) : RecvSame p.stb q.stb := by
  have ht := h.table_eq
  refine ⟨?_, ?_, h.tc_same.rcvNxt, ?_⟩ <;> rw [ht]

section Turn
variable {stream : List Byte} {B : ℕ → Prop} {start : ℕ} {removed : List Byte}
  {D : Datagram → Prop} {now : ℕ} {s s' : RunSt}

theorem Stores.same {a b : SockTb} (hs : Stores stream B start removed a) (h : RecvSame a b) :
    Stores stream B start removed b := hs.of_eq h.cbRecv_eq h.minhpRecv_eq h.rcvNxt_eq

/-- Every turn but that of a SYN keeps the stored stream, if the segment of an in-order turn fits. -/
theorem Stores.turn (hlen : stream.length < 4294967296)
    (hcut : ∀ d, D d → IsData (recvPkg d) → CutFrom stream B (recvPkg d))
    (hs : Stores stream B start removed s.pr.stb) (hsyn : s.state ≠ .procSyn)
    (hroom : s.state = .ackWithDataMatchExpectedSeq → ∀ tp, s.tp = some tp →
      (tp.buf.length : ℤ) < s.pr.stb.cbRecv.getAvSize)
    (ht : RunTurn D now s s') : Stores stream B start removed s'.pr.stb := by
  cases ht with
  | receive | old | noSendback => exact hs
  | syn h => exact absurd h hsyn
  | fin => exact hs.of_eq rfl rfl rfl
  | ack _ _ h1 h2 => exact hs.same (ack_recvSame h1 h2)
  | sendback _ h => exact hs.same (procDelack_effect h).recvSame
  | recovered _ hr => exact (hs.recovery hlen hr).of_eq rfl rfl rfl
  | unrecovered _ _ hr => exact (hs.recovery hlen hr).of_eq rfl rfl rfl
  | @inOrder d hst hd =>
    have hc := hd.classified
    rw [hst] at hc
    cases classified_of_ok hc with
    | inOrder _ hdata hseq =>
      have hfit := hroom hst _ hd.tp_eq
      have hcut' := hcut d hd.given hdata
      obtain ⟨cb, hbuf, hput⟩ := putcircbuf_room (s.pr.stb.setTCBRcv
        (u32 (((recvPkg d).t.seq : ℤ) + (recvPkg d).buf.length))) hdata.pos hfit
      have hnew : Stores stream B start removed { s.pr.stb.setTCBRcv
          (u32 (((recvPkg d).t.seq : ℤ) + (recvPkg d).buf.length)) with cbRecv := cb } :=
        hs.append hlen hcut' hseq hbuf rfl hs.held
      rw [hput]
      exact hnew
  | @future d hst hd =>
    have hc := hd.classified
    rw [hst] at hc
    cases classified_of_ok hc with
    | future _ hdata _ =>
      have hcut' := hcut d hd.given hdata
      rw [pushHpRecvBuf_eq _ hdata.pos]
      refine ⟨hs.boundary, hs.start_le, hs.le_length, hs.stored, ?_⟩
      intro pkt hpkt
      rcases (MinHeap.mem_push _ _ _).mp hpkt with rfl | hpkt
      · exact hcut'
      · exact hs.held pkt hpkt

end Turn

/-! ## Recovery that is put off -/

section PutOff
variable {D : Datagram → Prop} {now : ℕ} {s s' : RunSt}

/-- Recovery is put off only on the way out of the call. -/
def PutOff (s : RunSt) : Prop := s.pr.stb.runstate = .pktRecovery →
  s.state = .pktRecovery ∨ s.state = .ackDatarecsuccNoSendbackAck ∨ s.state = .procEnd

theorem PutOff.runstate_eq (hs : PutOff s) {st : ProcState} (hst : s.state = st)
    (hne : st ∉ [.pktRecovery, .ackDatarecsuccNoSendbackAck, .procEnd]) : s.pr.stb.runstate = .getPkt := by
  cases hrun : s.pr.stb.runstate with
  | getPkt => rfl
  | pktRecovery =>
    refine absurd ?_ hne
    rw [← hst]
    rcases hs hrun with h | h | h <;> rw [h] <;> decide

theorem putOff_start (p : Process) (pending : List Datagram) : PutOff (runSt p pending) := by
  intro h
  exact Or.inl (runSt_pktRecovery h pending)

theorem PutOff.turn (hs : PutOff s) (ht : RunTurn D now s s') : PutOff s' := by
  have hkeep : ∀ {q : Process} {st : ProcState}, s.pr.stb.runstate = .getPkt →
      q.stb.runstate = s.pr.stb.runstate → PutOff (s.goto q st) := by
    intro q st hrun hq h
    rw [show q.stb.runstate = .pktRecovery from h, hrun] at hq
    cases hq
  cases ht with
  | receive hst =>
    intro h
    have hrun : s.pr.stb.runstate = .getPkt := by
      rcases hst with hst | hst <;>
        exact hs.runstate_eq hst (by decide)
    rw [show s.pr.stb.runstate = .pktRecovery from h] at hrun
    cases hrun
  | syn | fin | ack => exact fun _ => Or.inr (Or.inr rfl)
  | recovered => exact nofun
  | unrecovered => exact fun _ => Or.inr (Or.inl rfl)
  | inOrder => exact fun _ => Or.inl rfl
  | old hst | future hst =>
    exact hkeep (hs.runstate_eq hst (by decide)) rfl
  | sendback hst hp =>
    exact hkeep (hs.runstate_eq hst (by decide))
      (procDelack_effect hp).recvSame.runstate_eq
  | noSendback _ hnew =>
    rcases hnew with hend | ⟨_, _, hrun⟩
    · exact fun _ => Or.inr (Or.inr hend)
    · exact hkeep hrun rfl

end PutOff

/-! ## Room for the next segment -/

/-- If the next datagram is the segment that `run` expects and no recovery is left to do, `cb_recv` has
room for it. `run` itself makes sure of that only for the datagrams after the first. -/
def RoomForNext (p : Process) (pending : List Datagram) : Prop :=
  p.stb.runstate = .getPkt → ∀ d rest, pending = d :: rest →
    processGetPktState p.stb (recvPkg d) = .ok .ackWithDataMatchExpectedSeq →
    ((recvPkg d).buf.length : ℤ) < p.stb.cbRecv.getAvSize

/-- A call of `run` on `p` takes no datagram that it has no room for. -/
structure Gated (p : Process) (pending : List Datagram) (s : RunSt) : Prop where
  first : s.state = .getPkt → s.pr = p ∧ s.pending = pending ∧ p.stb.runstate = .getPkt
  later : s.state = .clearGetPkt → (recvBufSize : ℤ) ≤ s.pr.stb.cbRecv.getAvSize
  room : s.state = .ackWithDataMatchExpectedSeq → ∀ tp, s.tp = some tp →
    (tp.buf.length : ℤ) < s.pr.stb.cbRecv.getAvSize

theorem gated_start (p : Process) (pending : List Datagram) : Gated p pending (runSt p pending) := by
  cases hr : p.stb.runstate with
  | getPkt =>
    have hst := runSt_getPkt hr pending
    refine ⟨fun _ => ⟨rfl, rfl, hr⟩, fun h => ?_, fun h => ?_⟩ <;> rw [hst] at h <;> cases h
  | pktRecovery =>
    have hst := runSt_pktRecovery hr pending
    refine ⟨fun h => ?_, fun h => ?_, fun h => ?_⟩ <;> rw [hst] at h <;> cases h

theorem gated_after {p : Process} {pending : List Datagram} {s : RunSt} {q : Process} {st : ProcState}
    {P : Prop} (h : st = .procEnd ∨ st = .clearGetPkt ∧ q.stb.cbRecv.getAvSize ≥ recvBufSize ∧ P) :
    Gated p pending (s.goto q st) := by
  rcases h with rfl | ⟨rfl, hav, _⟩
  · exact ⟨fun h => (by cases h), fun h => (by cases h), fun h => (by cases h)⟩
  · exact ⟨fun h => (by cases h), fun _ => hav, fun h => (by cases h)⟩

theorem Gated.turn {D : Datagram → Prop} {now : ℕ} {p : Process} {pending : List Datagram}
    {s s' : RunSt} (hroom : RoomForNext p pending) (hg : Gated p pending s)
    (ht : RunTurn D now s s') : Gated p pending s' := by
  have hother : ∀ (q : Process) (st : ProcState), st ≠ .getPkt → st ≠ .clearGetPkt →
      st ≠ .ackWithDataMatchExpectedSeq → Gated p pending (s.goto q st) :=
    fun q st h1 h2 h3 => ⟨fun h => absurd h h1, fun h => absurd h h2, fun h => absurd h h3⟩
  cases ht with
  | @receive d rest st hs hp hc =>
    have hcl := classified_of_ok hc
    refine ⟨?_, ?_, ?_⟩
    · intro h
      have hst : st = .getPkt := h
      rw [hst] at hcl
      cases hcl
    · intro h
      have hst : st = .clearGetPkt := h
      rw [hst] at hcl
      cases hcl
    · intro h tp htp
      have hst : st = .ackWithDataMatchExpectedSeq := h
      cases htp
      rcases hs with hs | hs
      · obtain ⟨hpr, hpend, hrun⟩ := hg.first hs
        rw [hpr] at hc
        show ((recvPkg d).buf.length : ℤ) < s.pr.stb.cbRecv.getAvSize
        rw [hpr]
        exact hroom hrun d rest (hpend ▸ hp) (hst ▸ hc)
      · have hav := hg.later hs
        have hle := recvPkg_buf_le d
        show ((recvPkg d).buf.length : ℤ) < s.pr.stb.cbRecv.getAvSize
        unfold recvBufSize at hav
        omega
  | old hs hst =>
    refine gated_after (P := True) ?_
    rcases hst with h | ⟨h, hav⟩
    · exact Or.inl h
    · exact Or.inr ⟨h, hav, trivial⟩
  | sendback _ _ hst | noSendback _ hst => exact gated_after hst
  | syn | fin | ack | recovered | unrecovered | inOrder | future =>
    exact hother _ _ (by decide) (by decide) (by decide)

end Process
end TcpOverUdp
