import TcpOverUdp.Model.Close
import TcpOverUdp.Proof.Sessions

/-! # The two serialisations of a packet

`toString` and the decoder `touPkg(std::string)` agree on every field the protocol uses. The close
path sends the object's own bytes to the same decoder: its bit-fields lie in the opposite order, and
the pointer and `buflen` that follow the header arrive as eight bytes of payload.
-/
namespace TcpOverUdp
open MachineInt
set_option autoImplicit false

namespace TouPkg

/-- A packet whose `buflen` is its payload's length takes `16 + buflen` bytes, and decoding them gives
the packet back, but for `doff` and `dres`, which the decoder does not assign. -/
theorem codec_round_trip (mem : TouHeader) {p : TouPkg} (hw : p.WellFormed) :
    (p.toString.length : ℤ) = 16 + p.buflen ∧
      ofString mem p.toString = { p with t := { p.t with doff := mem.doff, dres := mem.dres } } := by
  refine ⟨?_, ofString_toString mem hw⟩
  rw [toString_length hw, hw.buflen_eq]
  push_cast
  rfl

theorem codec_round_trip_nul :
    let p : TouPkg :=
      { t := { seq := 4294967295, mag := magicCookie, ackSeq := 256, doff := 9, dres := 6, res := true,
               cwr := false, ece := true, ack := false, psh := true, rst := false, syn := true,
               fin := false, window := 65535 }
        buf := [0, 1, 0]
        buflen := 3 }
    (p.toString.length : ℤ) = 16 + p.buflen ∧
      ofString TouHeader.blank p.toString = { p with t := { p.t with doff := 0, dres := 0 } } :=
  codec_round_trip TouHeader.blank
    { seq_lt := by decide, ackSeq_lt := by decide, mag_lt := by decide, window_lt := by decide,
      buflen_eq := by decide, buflen_lt := by decide }

end TouPkg

/-! ## The object's own bytes -/

namespace ObjPkg

@[simp] theorem bytes_length (p : ObjPkg) : p.bytes.length = size := rfl

/-- Each flag is read from the bit of the one that lies opposite to it. -/
theorem rawFlagByte_decode : ∀ res cwr ece ack psh rst syn fin : Bool,
    let c : Byte := (if res then 0x01 else 0) ||| (if cwr then 0x02 else 0) |||
      (if ece then 0x04 else 0) ||| (if ack then 0x08 else 0) ||| (if psh then 0x10 else 0) |||
      (if rst then 0x20 else 0) ||| (if syn then 0x40 else 0) ||| (if fin then 0x80 else 0)
    ((c &&& 0x10) == 0x10) = psh ∧ ((c &&& 0x02) == 0x02) = cwr ∧ ((c &&& 0x01) == 0x01) = res := by
  decide

/-- What `run_recvfrom` makes of an object: `syn`, `fin` and `ack` are its `cwr`, `res` and `psh`. -/
theorem recvPkg_bytes (src : Addr) (p : ObjPkg) :
    (Process.recvPkg ⟨src, p.bytes⟩).t.syn = p.t.cwr ∧ (Process.recvPkg ⟨src, p.bytes⟩).t.fin = p.t.res ∧
      (Process.recvPkg ⟨src, p.bytes⟩).t.ack = p.t.psh ∧
      (Process.recvPkg ⟨src, p.bytes⟩).buf = word32 p.bufAddr ++ word32 (u32 p.buflen) := by
  have htake : p.bytes.take recvBufSize = p.bytes :=
    List.take_of_length_le (by rw [bytes_length]; decide)
  have hflag : p.bytes.getD 13 0 = p.t.rawFlagByte := rfl
  obtain ⟨hpsh, hcwr, hres⟩ :=
    rawFlagByte_decode p.t.res p.t.cwr p.t.ece p.t.ack p.t.psh p.t.rst p.t.syn p.t.fin
  unfold Process.recvPkg TouPkg.ofString
  simp only [htake, hflag]
  exact ⟨hcwr, hres, hpsh, rfl⟩

/-- The decoder recovers the fields of the close protocol and finds no payload. -/
structure Understood (p : ObjPkg) (q : TouPkg) : Prop where
  fin : q.t.fin = p.t.fin
  ack : q.t.ack = p.t.ack
  seq : q.t.seq = p.t.seq
  ackSeq : q.t.ackSeq = p.t.ackSeq
  buf : q.buf = []

end ObjPkg

namespace Process

/-- What the packets of the close path have in common: of the flags the decoder reads, none is where
it looks for it. -/
structure CloseFlags (p : ObjPkg) : Prop where
  set : p.t.fin = true ∨ p.t.ack = true
  res : p.t.res = false
  cwr : p.t.cwr = false
  psh : p.t.psh = false

variable {stb : SockTb} {mem mem' : TouHeader} {addr addr' payloadsize : ℕ} {wild : Addr}
  {received : Option (List Byte)} {tx : RawTx}

theorem closerDothis_flags
    (h : tx ∈ (closerDothis stb (ObjPkg.ofSize mem addr payloadsize) wild received).sent) :
    CloseFlags tx.pkt := by
  unfold closerDothis at h
  by_cases hst : stb.sockstate = .closeWait
  · simp only [if_pos hst, List.mem_singleton] at h
    rw [h]
    exact ⟨Or.inl rfl, rfl, rfl, rfl⟩
  · simp only [if_neg hst] at h
    cases received with
    | none => cases h
    | some content =>
      rw [List.mem_singleton.1 h]
      exact ⟨Or.inr rfl, rfl, rfl, rfl⟩

theorem touClose_flags {own : ObjPkg}
    (h : tx ∈ (touClose stb own (ObjPkg.ofSize mem addr payloadsize) wild received).sent) :
    CloseFlags tx.pkt := by
  unfold touClose at h
  by_cases hst : stb.sockstate = .closeWait
  · rw [if_pos hst] at h
    exact closerDothis_flags h
  · simp only [if_neg hst, List.mem_cons] at h
    rcases h with h | h
    · rw [h]
      exact ⟨Or.inl rfl, rfl, rfl, rfl⟩
    · exact closerDothis_flags h

/-- No datagram of the close path is understood: whatever the unassigned fields of its packet, the
address in `buf` and the socket's state are, `fin` and `ack` are both lost, a payload of eight bytes
appears, and `processGetPktState` ends every peer that takes it. -/
theorem close_never_understood (h : tx ∈ (touClose stb (ObjPkg.ofSize mem addr 0)
      (ObjPkg.ofSize mem' addr' touMss) wild received).sent ∨
      tx ∈ (closerDothis stb (ObjPkg.ofSize mem' addr' touMss) wild received).sent) (src : Addr) :
    ¬ tx.pkt.Understood (recvPkg ⟨src, tx.pkt.bytes⟩) ∧
      (tx.pkt.t.fin = true ∨ tx.pkt.t.ack = true) ∧
      (recvPkg ⟨src, tx.pkt.bytes⟩).t.fin = false ∧ (recvPkg ⟨src, tx.pkt.bytes⟩).t.ack = false ∧
      (recvPkg ⟨src, tx.pkt.bytes⟩).buf.length = 8 ∧
      ∀ peer, processGetPktState peer (recvPkg ⟨src, tx.pkt.bytes⟩) =
        .error (.exit .processGetPktState) := by
  have hflags : CloseFlags tx.pkt := h.elim touClose_flags closerDothis_flags
  obtain ⟨hsyn, hfin, hack, hbuf⟩ := ObjPkg.recvPkg_bytes src tx.pkt
  rw [hflags.cwr] at hsyn
  rw [hflags.res] at hfin
  rw [hflags.psh] at hack
  refine ⟨?_, hflags.set, hfin, hack, ?_, ?_⟩
  · intro hu
    have hempty := hu.buf
    rw [hbuf] at hempty
    cases hempty
  · rw [hbuf]
    rfl
  · intro peer
    unfold processGetPktState
    rw [hsyn, hfin, hack]
    rfl

/-- The FIN of `touClose`, with its packet's `buf` at `addr`. -/
def finPkt (addr : ℕ) : ObjPkg :=
  { t := { TouHeader.blank with mag := magicCookie, fin := true, ackSeq := 1 }, bufAddr := addr, buflen := 0 }

/-- What `touClose` sends while nothing arrives for its `closer`. -/
theorem touClose_fin (hst : stb.sockstate ≠ .closeWait) (tp : ObjPkg) :
    (touClose stb (ObjPkg.ofSize mem addr 0) tp wild none).sent = [{ dst := stb.dst, pkt := finPkt addr }] := by
  unfold touClose closerDothis
  rw [if_neg hst, if_neg hst]
  rfl

theorem close_never_understood_fin :
    ¬ (finPkt 0x08F5A008).Understood (recvPkg ⟨⟨2, 80⟩, (finPkt 0x08F5A008).bytes⟩) := by
  have hsent : (⟨⟨0, 0⟩, finPkt 0x08F5A008⟩ : RawTx) ∈ (touClose (SockTb.init 3)
      (ObjPkg.ofSize TouHeader.blank 0x08F5A008 0) (ObjPkg.ofSize TouHeader.blank 0 touMss) ⟨0, 0⟩
      none).sent := by
    rw [touClose_fin (by decide)]
    exact List.mem_singleton.2 rfl
  exact (close_never_understood (Or.inl hsent) ⟨2, 80⟩).1

/-- The FIN that a connected client sends ends a peer in the same state. -/
theorem fin_ends_peer : ∃ p, Opened p ∧
    (touClose p.stb (ObjPkg.ofSize TouHeader.blank 0x08F5A008 0) (ObjPkg.ofSize TouHeader.blank 0 touMss)
      ⟨0, 0⟩ none).sent = [{ dst := p.stb.dst, pkt := finPkt 0x08F5A008 }] ∧
    ¬ (finPkt 0x08F5A008).Understood (recvPkg ⟨⟨2, 80⟩, (finPkt 0x08F5A008).bytes⟩) ∧
    run 5 p [⟨⟨2, 80⟩, (finPkt 0x08F5A008).bytes⟩] = .error (.exit .processGetPktState) := by
  obtain ⟨p, hp, hopen, _⟩ := exists_client
  have hrun : haltOf (touConnect (Process.init 3 1) ⟨2, 80⟩ 425984 (synAckFrom ⟨2, 80⟩ 0 1) >>=
      fun c => run 5 c.2 [⟨⟨2, 80⟩, (finPkt 0x08F5A008).bytes⟩]) =
      some (.exit .processGetPktState) := by decide +kernel
  rw [hp, ok_bind] at hrun
  refine ⟨p, hopen, touClose_fin ?_ _, ?_, haltOf_eq_some.1 hrun⟩
  · rw [hopen.fresh.2]
    decide
  · intro hu
    have hempty := hu.buf
    rw [(ObjPkg.recvPkg_bytes ⟨2, 80⟩ (finPkt 0x08F5A008)).2.2.2] at hempty
    cases hempty

end Process
end TcpOverUdp
