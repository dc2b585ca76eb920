import TcpOverUdp.Model.Network
import TcpOverUdp.Proof.SenderRuns
import TcpOverUdp.Proof.Receiver

/-! # What arrives of a stream

A sender's packets with payload are pieces of its stream, or what the timer made of a piece: its first
bytes, up to a NUL, numbered so that they end where the piece ends. Such a packet begins inside the piece
unless it is the whole of it, so a receiver that waits at the beginning of a piece takes whole pieces only.
-/
namespace TcpOverUdp
open MachineInt Pieces
set_option autoImplicit false

namespace Process

/-! ## Packets of a stream -/

/-- The packet carries the first bytes of a piece and ends where the piece does. -/
structure EndsPiece (base : ℕ) (pieces : List (List Byte)) (tp : TouPkg) : Prop where
  pos : 0 < tp.buf.length
  piece : ∃ s ∈ numbered base pieces, tp.buf <+: s.2 ∧ tp.t.seq + tp.buf.length = endOf s

/-- The packets of a sender that has cut its stream into `pieces`. -/
inductive SentFrom (base : ℕ) (pieces : List (List Byte)) : TouPkg → Prop
  | bare {pkt : TouPkg} (hbuf : pkt.buf = []) (hlen : pkt.buflen = 0) (hfin : pkt.t.fin = false) :
      SentFrom base pieces pkt
  | data {s : ℕ × List Byte} {ackSeq : ℕ} {payload : List Byte} (hs : s ∈ numbered base pieces)
      (hp : payload <+: s.2) :
      SentFrom base pieces (TouPkg.segment (endOf s - payload.length) ackSeq payload)

/-- The stream with its bytes at their sequence numbers. -/
def numberedStream (base : ℕ) (pieces : List (List Byte)) : List Byte :=
  List.replicate base 0 ++ pieces.flatten

section Pieces
variable {base : ℕ} {pieces more : List (List Byte)} {tp : TouPkg}

theorem length_numberedStream : (numberedStream base pieces).length = base + pieces.flatten.length := by
  unfold numberedStream
  rw [List.length_append, List.length_replicate]

theorem EndsPiece.append (h : EndsPiece base pieces tp) (more : List (List Byte)) :
    EndsPiece base (pieces ++ more) tp := by
  obtain ⟨s, hs, hbuf, hend⟩ := h.piece
  exact ⟨h.pos, s, mem_numbered_append_left more hs, hbuf, hend⟩

theorem SentFrom.append (h : SentFrom base pieces tp) (more : List (List Byte)) :
    SentFrom base (pieces ++ more) tp := by
  cases h with
  | bare hbuf hlen hfin => exact SentFrom.bare hbuf hlen hfin
  | data hs hp => exact SentFrom.data (mem_numbered_append_left more hs) hp

/-- At the beginning of a piece there is only the whole piece. -/
theorem EndsPiece.cutFrom (h : EndsPiece base pieces tp) :
    CutFrom (numberedStream base pieces) (Boundary base pieces) tp := by
  obtain ⟨s, hs, hbuf, hend⟩ := h.piece
  have hpos := h.pos
  have hle := hbuf.length_le
  have hlast := (boundary_end hs).le_last
  have hwhole : Boundary base pieces tp.t.seq → tp.t.seq = s.1 ∧ tp.buf = s.2 := by
    intro hb
    have hseq : tp.t.seq = s.1 := by
      unfold endOf at hend
      rcases boundary_not_inside hb hs with hin | hin
      · omega
      · unfold endOf at hin
        omega
    unfold endOf at hend
    exact ⟨hseq, hbuf.eq_of_length (by omega)⟩
  refine ⟨hpos, ?_, ?_, ?_⟩
  · intro hb
    obtain ⟨hseq, hbytes⟩ := hwhole hb
    have hpiece := extract_piece (List.replicate base 0) List.length_replicate hs
    rw [hend, hseq, hbytes]
    exact hpiece
  · intro _
    rw [length_numberedStream]
    omega
  · intro _
    rw [hend]
    exact boundary_end hs

/-- What arrives of a packet of the sender. -/
theorem SentFrom.arrives (h : SentFrom base pieces tp) (hsize : ∀ x ∈ pieces, x.length ≤ touSmss)
    (hlt : base + pieces.flatten.length < 4294967296) {d : Datagram} (hd : d.bytes = tp.toString) :
    (recvPkg d).t.fin = false ∧ (0 < (recvPkg d).buf.length → EndsPiece base pieces (recvPkg d)) := by
  have hdecode : tp.buflen = tp.buf.length → tp.buf.length ≤ touSmss → recvPkg d = tp.wire := by
    intro hlen hle
    have hbytes : d.bytes.take recvBufSize = tp.toString := by
      rw [hd]
      refine List.take_of_length_le ?_
      unfold TouPkg.toString
      simp only [List.length_append, word32_length, word16_length, List.length_cons, List.length_nil]
      split
      · rw [hlen, Int.toNat_natCast, List.take_length]
        unfold touSmss at hle
        unfold recvBufSize
        omega
      · unfold recvBufSize
        simp
    unfold recvPkg
    rw [hbytes]
    exact TouPkg.ofString_wire hlen (by unfold touSmss at hle; omega)
  cases h with
  | bare hbuf hlen hfin =>
    have hpkt := hdecode (by rw [hlen, hbuf]; rfl) (by rw [hbuf]; exact Nat.zero_le _)
    rw [hpkt]
    refine ⟨hfin, fun hpos => ?_⟩
    have hnil : tp.wire.buf = [] := hbuf
    rw [hnil] at hpos
    exact absurd hpos (lt_irrefl 0)
  | @data s ackSeq payload hs hp =>
    obtain ⟨pre, post, hpieces, _⟩ := mem_numbered hs
    have hmem : s.2 ∈ pieces := by
      rw [hpieces]
      simp
    have hle := hp.length_le
    have hlast := (boundary_end hs).le_last
    have hpkt := hdecode rfl (le_trans hle (hsize _ hmem))
    have hseq : (recvPkg d).t.seq = endOf s - payload.length := by
      rw [hpkt]
      exact Nat.mod_eq_of_lt (show endOf s - payload.length < 4294967296 by omega)
    have hbuf : (recvPkg d).buf = payload := by
      rw [hpkt]
      rfl
    refine ⟨by rw [hpkt]; rfl, fun hpos => ⟨hpos, s, hs, ?_, ?_⟩⟩
    · rw [hbuf]
      exact hp
    · rw [hseq, hbuf]
      unfold endOf
      omega

end Pieces

/-! ## The sender -/

/-- The sender has cut `pieces` off the bytes it accepted; the rest is in `cb_send`. -/
structure Sending (base : ℕ) (pieces : List (List Byte)) (accepted : List Byte) (p : Process) : Prop where
  sndNxt_eq : p.stb.tc.sndNxt = base + pieces.flatten.length
  accepted_eq : pieces.flatten ++ p.stb.cbSend.contents = accepted
  size_le : ∀ x ∈ pieces, x.length ≤ touSmss
  end_lt : base + pieces.flatten.length < 4294967296
  armed : ∀ n ∈ p.timerheap.elems, ∃ s ∈ numbered base pieces, n.pId = endOf s ∧ n.data <+: s.2
  sent : ∀ tx ∈ p.sent, SentFrom base pieces tx.pkt

section Sending
variable {base : ℕ} {pieces : List (List Byte)} {accepted : List Byte} {p q : Process}

/-- A retransmission of an armed node. -/
theorem Sending.sendpkt (hs : Sending base pieces accepted p) {n : Node} (hn : n ∈ p.timerheap.elems)
    (stb : SockTb) : SentFrom base pieces (Timer.sendpkt stb n).pkt := by
  obtain ⟨s, hmem, hpid, hdata⟩ := hs.armed n hn
  have hle := hdata.length_le
  have hlast := (boundary_end hmem).le_last
  have hlt := hs.end_lt
  have hsize : n.payloadSize = n.data.length := rfl
  have hseq : u32 ((n.pId : ℤ) - n.payloadSize) = endOf s - n.data.length := by
    rw [hpid, hsize]
    exact u32_sub _ _ (by unfold endOf; omega) (by omega)
  rw [Timer.sendpkt_eq, hseq]
  exact SentFrom.data hmem hdata

theorem Sending.heap_from (hs : Sending base pieces accepted p) (h : HeapFrom p.timerheap q.timerheap) :
    ∀ n ∈ q.timerheap.elems, ∃ s ∈ numbered base pieces, n.pId = endOf s ∧ n.data <+: s.2 := by
  intro n hn
  obtain ⟨m, hm, hcopy⟩ := h n hn
  obtain ⟨s, hmem, hpid, hdata⟩ := hs.armed m hm
  refine ⟨s, hmem, hcopy.pId_eq.trans hpid, ?_⟩
  rcases hcopy.data_eq with hd | hd <;> rw [hd]
  · exact hdata
  · exact (cstr_isPrefix _).trans hdata

theorem Sending.segment (hs : Sending base pieces accepted p) (now : ℕ) {l : ℕ} (hl : SegFits p l) :
    Sending base (pieces ++ [p.stb.cbSend.contents.take l]) accepted (afterSegment now p l) := by
  have hlen := hl.length_take
  have hsmss := hl.le_smss
  have hnxt := hs.sndNxt_eq
  have hflat : (pieces ++ [p.stb.cbSend.contents.take l]).flatten =
      pieces.flatten ++ p.stb.cbSend.contents.take l := by
    rw [List.flatten_append, List.flatten_singleton]
  have hpiece : (p.stb.tc.sndNxt, p.stb.cbSend.contents.take l) ∈
      numbered base (pieces ++ [p.stb.cbSend.contents.take l]) := by
    rw [numbered_append, hnxt]
    exact List.mem_append_right _ List.mem_cons_self
  have hend : endOf (p.stb.tc.sndNxt, p.stb.cbSend.contents.take l) = p.stb.tc.sndNxt + l := by
    unfold endOf
    rw [hlen]
  refine ⟨?_, ?_, ?_, ?_, ?_, ?_⟩
  · show p.stb.tc.sndNxt + l = _
    rw [hflat, List.length_append, hlen, hnxt, Nat.add_assoc]
  · have hrest : (afterSegment now p l).stb.cbSend.contents = p.stb.cbSend.contents.drop l :=
      contents_takenTable (by unfold touSmss at hsmss; omega)
    rw [hflat, hrest, List.append_assoc, List.take_append_drop]
    exact hs.accepted_eq
  · intro x hx
    rcases List.mem_append.mp hx with hx | hx
    · exact hs.size_le x hx
    · rw [List.mem_singleton.mp hx, hlen]
      exact hsmss
  · have hlt := hl.sndNxt_lt
    rw [hflat, List.length_append, hlen]
    omega
  · intro n hn
    rcases (MinHeap.mem_push _ _ _).mp hn with rfl | hn
    · refine ⟨_, hpiece, hend.symm, ?_⟩
      rw [Node.data_copy]
      exact cstr_isPrefix _
    · obtain ⟨s, hmem, hs'⟩ := hs.armed n hn
      exact ⟨s, mem_numbered_append_left _ hmem, hs'⟩
  · intro tx htx
    rcases List.mem_append.mp htx with htx | htx
    · exact (hs.sent tx htx).append _
    · rw [List.mem_singleton.mp htx]
      have hseq : p.stb.tc.sndNxt = endOf (p.stb.tc.sndNxt, p.stb.cbSend.contents.take l) -
          (p.stb.cbSend.contents.take l).length := by
        rw [hend, hlen, Nat.add_sub_cancel]
      have hdata := @SentFrom.data base _ _ p.stb.tc.rcvNxt _ hpiece (List.prefix_refl _)
      rw [← hseq] at hdata
      exact hdata

end Sending

/-- Whatever a sender does, it keeps the pieces it has and may add some. -/
theorem sending_rule (base : ℕ) (pieces : List (List Byte)) (accepted : List Byte) :
    SenderRule fun q => ∃ more, Sending base (pieces ++ more) accepted q where
  same p q h hp := by
    obtain ⟨more, hs⟩ := hp
    obtain ⟨txs, hsent, hacks⟩ := h.sent_eq
    refine ⟨more, h.sndNxt_eq.trans hs.sndNxt_eq, by rw [h.cbSend_eq]; exact hs.accepted_eq, hs.size_le,
      hs.end_lt, by rw [h.heap_eq]; exact hs.armed, ?_⟩
    intro tx htx
    rw [hsent] at htx
    rcases List.mem_append.mp htx with htx | htx
    · exact hs.sent tx htx
    · rw [(hacks tx htx).pkt]
      exact SentFrom.bare rfl rfl rfl
  ack p q a _ h hp := by
    obtain ⟨more, hs⟩ := hp
    obtain ⟨txs, hsent, hrex⟩ := h.sent_eq
    have ht := h.table_eq
    refine ⟨more, h.sndNxt_eq.trans hs.sndNxt_eq, by rw [ht]; exact hs.accepted_eq, hs.size_le,
      hs.end_lt, hs.heap_from h.heap_from, ?_⟩
    intro tx htx
    rw [hsent] at htx
    rcases List.mem_append.mp htx with htx | htx
    · exact hs.sent tx htx
    · obtain ⟨n, hn, rfl⟩ := hrex tx htx
      exact hs.sendpkt hn _
  segment now p l hl hp := by
    obtain ⟨more, hs⟩ := hp
    refine ⟨more ++ [p.stb.cbSend.contents.take l], ?_⟩
    rw [← List.append_assoc]
    exact hs.segment now hl
  timeout p q h hp := by
    obtain ⟨more, hs⟩ := hp
    obtain ⟨txs, hsent, hrex⟩ := h.sent_eq
    have ht := h.table_eq
    refine ⟨more, h.tc_same.sndNxt.trans hs.sndNxt_eq, by rw [ht]; exact hs.accepted_eq, hs.size_le,
      hs.end_lt, hs.heap_from h.heap_from, ?_⟩
    intro tx htx
    rw [hsent] at htx
    rcases List.mem_append.mp htx with htx | htx
    · exact hs.sent tx htx
    · obtain ⟨n, hn, rfl⟩ := hrex tx htx
      exact hs.sendpkt hn _

/-- `touSend` adds what it answers to have taken. -/
theorem Sending.touSend {base now : ℕ} {pieces : List (List Byte)} {accepted buf : List Byte} {p : Process}
    {len : ℤ} {r : ℤ × Process} (hs : Sending base pieces accepted p) (hlen : s32 len ≤ buf.length)
    (h : Process.touSend now p buf len = .ok r) :
    ∃ more, Sending base (pieces ++ more) (accepted ++ buf.take r.1.toNat) r.2 := by
  obtain ⟨hret, hsend⟩ := touSend_ok h
  have hpush : (pushsndq p buf len).2.stb.cbSend.contents =
      p.stb.cbSend.contents ++ buf.take r.1.toNat := by
    rw [hret]
    show (p.stb.cbSend.insert buf len).2.contents = _ ++ buf.take (p.stb.cbSend.insert buf len).1.toNat
    by_cases hfit : 0 < s32 len ∧ s32 len < (touMaxCircularBuf - p.stb.cbSend.contents.length : ℕ)
    · obtain ⟨h1, h2⟩ := p.stb.cbSend.insert_fits buf len hfit.1 (by omega) hfit.2
      rw [h1, h2]
    · obtain ⟨h1, h2⟩ := p.stb.cbSend.insert_refused buf len hfit
      rw [h1, h2, Int.toNat_zero, List.take_zero, List.append_nil]
  refine (sending_rule base pieces _).send hsend ⟨[], ?_⟩
  rw [List.append_nil]
  refine ⟨hs.sndNxt_eq, ?_, hs.size_le, hs.end_lt, hs.armed, hs.sent⟩
  rw [hpush, ← List.append_assoc, hs.accepted_eq]

/-! ## What `touRecv` gives out -/

/-- What `touRecv` gives out is the front of `cb_recv`, unless the peer has closed. -/
theorem touRecv_front (p : Process) (len : ℤ) (h : p.stb.sockstate ≠ .closeWait) :
    (touRecv p len).2.1.take (touRecv p len).1.toNat = p.stb.cbRecv.contents.take (s32 len).toNat ∧
      (touRecv p len).2.2.stb.cbRecv.contents = p.stb.cbRecv.contents.drop (s32 len).toNat := by
  have hle := p.stb.cbRecv.contents_le
  obtain ⟨hret, hdata⟩ := p.stb.cbRecv.getAt_spec len
  obtain ⟨n, hn⟩ : ∃ n, n = min (s32 len).toNat p.stb.cbRecv.contents.length := ⟨_, rfl⟩
  rw [← hn] at hret
  have hcast : (s32 ((n : ℕ) : ℤ)).toNat = n := by
    unfold touMaxCircularBuf at hle
    rw [s32_cast _ (by omega), Int.toNat_natCast]
  obtain ⟨hclear, hrest⟩ := p.stb.cbRecv.remove_spec n
  rw [hcast] at hclear hrest
  rw [show min n p.stb.cbRecv.contents.length = n by omega] at hclear
  have hanswer : (touRecv p len).1 = n := by
    unfold touRecv
    simp only [hret, hclear, ne_eq, not_true_eq_false, if_false, if_neg h]
  have hbytes : (touRecv p len).2.1 = p.stb.cbRecv.contents.take n := by
    show (p.stb.cbRecv.getAt len).2 = _
    rw [hdata, hn]
    exact List.take_eq_take_min
  have hleft : (touRecv p len).2.2.stb.cbRecv.contents = p.stb.cbRecv.contents.drop n := by
    show (p.stb.cbRecv.remove (p.stb.cbRecv.getAt len).1).2.contents = _
    rw [hret, hrest]
  rw [hanswer, hbytes, hleft, Int.toNat_natCast, List.take_take, Nat.min_self, hn]
  exact ⟨List.take_eq_take_min.symm, List.drop_eq_drop_min.symm⟩

theorem touRecv_append (p : Process) (len : ℤ) (h : p.stb.sockstate ≠ .closeWait) :
    (touRecv p len).2.1.take (touRecv p len).1.toNat ++ (touRecv p len).2.2.stb.cbRecv.contents =
      p.stb.cbRecv.contents := by
  obtain ⟨hfront, hrest⟩ := touRecv_front p len h
  rw [hfront, hrest, List.take_append_drop]

end Process
end TcpOverUdp
