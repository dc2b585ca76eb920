import TcpOverUdp.Model.Tou

/-! # The packets a process sends

Every packet outside the handshake carries the ACK flag alone: `TouPkg.segment`. A first
transmission, a retransmission and the two kinds of ACK differ only in where its three values come
from.
-/
namespace TcpOverUdp
open MachineInt
set_option autoImplicit false

namespace TouPkg

def segment (seq ackSeq : ℕ) (payload : List Byte) : TouPkg :=
  { t := { TouHeader.blank with seq := seq, mag := magicCookie, ackSeq := ackSeq, ack := true }
    buf := payload
    buflen := payload.length }

@[simp] theorem segment_seq (seq ackSeq : ℕ) (payload : List Byte) :
    (segment seq ackSeq payload).t.seq = seq := rfl

@[simp] theorem segment_buf (seq ackSeq : ℕ) (payload : List Byte) :
    (segment seq ackSeq payload).buf = payload := rfl

theorem segment_wellFormed {seq ackSeq : ℕ} {payload : List Byte} (hs : seq < 4294967296)
    (ha : ackSeq < 4294967296) (hp : payload.length < 2147483648) :
    (segment seq ackSeq payload).WellFormed where
  seq_lt := hs
  ackSeq_lt := ha
  mag_lt := by
    show magicCookie < 4294967296
    decide
  window_lt := by
    show (0 : ℕ) < 65536
    decide
  buflen_eq := rfl
  buflen_lt := hp

/-- What the receiver of a segment decodes. -/
theorem ofString_segment {seq ackSeq : ℕ} {payload : List Byte} (hs : seq < 4294967296)
    (ha : ackSeq < 4294967296) (hp : payload.length < 2147483648) :
    ofString TouHeader.blank (segment seq ackSeq payload).toString = segment seq ackSeq payload :=
  ofString_toString TouHeader.blank (segment_wellFormed hs ha hp)

end TouPkg

open TouPkg

theorem ofBuf_segment (payload str : List Byte) (seq ackSeq : ℕ)
    (h : str.take payload.length = payload) :
    ((ofBuf TouHeader.blank str payload.length).putHeaderSeq seq ackSeq).setAck true =
      segment seq ackSeq payload := by
  unfold ofBuf
  rw [h]
  rfl

theorem Process.genPktAck_eq (stb : SockTb) :
    Process.genPktAck stb = segment stb.tc.sndNxt stb.tc.rcvNxt [] := rfl

theorem Timer.sendpkt_eq (stb : SockTb) (nt : Node) :
    Timer.sendpkt stb nt =
      { site := .sendpkt, dst := stb.dst
        pkt := segment (u32 ((nt.pId : ℤ) - nt.payloadSize)) stb.tc.rcvNxt (nt.payload.getD []) } := by
  unfold Timer.sendpkt Node.payloadSize
  simp only
  rw [ofBuf_segment _ _ _ _ List.take_length]

end TcpOverUdp
