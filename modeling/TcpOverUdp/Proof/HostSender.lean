import TcpOverUdp.Proof.HostSteps
import TcpOverUdp.Proof.Delivery
import TcpOverUdp.Proof.TimerCoverage

/-! # The stream of a sender in every interleaving

`Streaming` is what `Sending` says of a process between two calls, for a process whose threads stand anywhere:
the bytes that a thread in `send` has taken out of `cb_send` and not handed to `sendto` yet are in its hand, and
what it has found out so far is in `SendAt.Ok`. An ACK can come in at any of its steps, which moves `snd_una` up
and does no harm.
-/
namespace TcpOverUdp
open MachineInt Pieces
set_option autoImplicit false

namespace Process

namespace SendAt

/-- The bytes taken out of `cb_send` that `sendto` has not got yet. -/
def inHand : SendAt → List Byte
  | .genPkt _ len buf => buf.take len.toNat
  | .advance _ _ pkt | .sendto _ _ pkt => pkt.buf
  | _ => []

/-- By how much `snd_nxt` is ahead of what `sendto` got. -/
def ahead : SendAt → ℕ
  | .sendto _ _ pkt => pkt.buf.length
  | _ => 0

/-- `l` more bytes keep the flight within half a buffer. -/
def Room (p : Process) (l : ℤ) : Prop := (p.stb.tc.sndNxt : ℤ) + l ≤ p.stb.tc.sndUna + 3145728

/-- What the local variables of `send` say about the process, whatever the other threads did meanwhile. -/
def Ok (base : ℕ) (pieces : List (List Byte)) (p : Process) : SendAt → Prop
  | .compare _ w => w ≤ 3145728
  | .subtract _ w => w ≤ 3145728 ∧ p.stb.tc.sndNxt ≤ p.stb.tc.sndUna + w
  | .sized _ s => 0 ≤ s ∧ Room p s
  | .getAt _ len => 0 ≤ len ∧ len ≤ touSmss ∧ Room p len
  | .remove _ bread buf => ∃ l : ℕ, bread = l ∧ l ≤ touSmss ∧ Room p l ∧
      l ≤ p.stb.cbSend.contents.length ∧ buf.take l = p.stb.cbSend.contents.take l ∧ l ≤ buf.length
  | .genPkt _ len buf => ∃ l : ℕ, len = l ∧ l ≤ touSmss ∧ Room p l ∧ l ≤ buf.length
  | .advance _ len pkt => len = pkt.buf.length ∧ pkt.buf.length ≤ touSmss ∧ Room p len ∧
      ∃ ack, pkt = TouPkg.segment p.stb.tc.sndNxt ack pkt.buf
  | .sendto _ len pkt => len = pkt.buf.length ∧ pkt.buf.length ≤ touSmss ∧
      ∃ ack, pkt = TouPkg.segment (base + pieces.flatten.length) ack pkt.buf
  | .newNode _ len pkt => len = pkt.buf.length ∧
      ∃ pre, pieces = pre ++ [pkt.buf] ∧ pkt.t.seq = base + pre.flatten.length
  | .push _ nt => nt.cId = p.stb.sockd ∧ nt.tId = timerIdSndpkt ∧
      ∃ pre, pieces = pre ++ [nt.data] ∧ nt.pId = base + pieces.flatten.length
  | _ => True

theorem Ok.mono {base : ℕ} {pieces : List (List Byte)} {p q : Process} {pc : SendAt}
    (h : pc.Ok base pieces p) (hn : q.stb.tc.sndNxt = p.stb.tc.sndNxt)
    (hu : p.stb.tc.sndUna ≤ q.stb.tc.sndUna) (hd : q.stb.sockd = p.stb.sockd) (more : List Byte)
    (hc : q.stb.cbSend.contents = p.stb.cbSend.contents ++ more) : pc.Ok base pieces q := by
  have hroom : ∀ l, Room p l → Room q l := by
    intro l hl
    unfold Room at hl ⊢
    omega
  cases pc with
  | getwnd | test => trivial
  | compare | sendto | newNode => exact h
  | subtract v w =>
    have h1 := h.1
    have h2 := h.2
    exact ⟨h1, by omega⟩
  | sized v s => exact ⟨h.1, hroom s h.2⟩
  | getAt v len => exact ⟨h.1, h.2.1, hroom len h.2.2⟩
  | remove v bread buf =>
    obtain ⟨l, hb, hs, hr, hle, htake, hbuf⟩ := h
    refine ⟨l, hb, hs, hroom l hr, ?_, ?_, hbuf⟩
    · rw [hc, List.length_append]
      omega
    · rw [hc, List.take_append_of_le_length hle, htake]
  | genPkt v len buf =>
    obtain ⟨l, hb, hs, hr, hbuf⟩ := h
    exact ⟨l, hb, hs, hroom l hr, hbuf⟩
  | advance v len pkt =>
    obtain ⟨hlen, hs, hr, ack, hpkt⟩ := h
    exact ⟨hlen, hs, hroom _ hr, ack, by rw [hn]; exact hpkt⟩
  | push v nt =>
    obtain ⟨hcid, hrest⟩ := h
    exact ⟨hcid.trans hd.symm, hrest⟩

end SendAt

/-- The bytes in the hand of the thread in `send`, if there is one. -/
def handOf (o : Option SendAt) : List Byte := (o.map SendAt.inHand).getD []

def aheadOf (o : Option SendAt) : ℕ := (o.map SendAt.ahead).getD 0

structure Streaming (k base : ℕ) (pieces : List (List Byte)) (c : Host) : Prop where
  nxt_eq : c.pr.stb.tc.sndNxt = base + pieces.flatten.length + aheadOf c.send
  accepted_eq : pieces.flatten ++ (handOf c.send ++ c.pr.stb.cbSend.contents) = c.accepted
  size_le : ∀ x ∈ pieces, x.length ≤ touSmss
  send_ok : ∀ pc, c.send = some pc → pc.Ok base pieces c.pr
  armed : ∀ n ∈ c.pr.timerheap.elems, ∃ s ∈ numbered base pieces, n.pId = endOf s ∧ n.data <+: s.2
  sent : ∀ tx ∈ c.pr.sent, SentFrom base pieces tx.pkt
  log_eq : segmentsSince k c.pr = numbered base pieces
  sent_le : k ≤ c.pr.sent.length
  una_le : c.pr.stb.tc.sndUna ≤ c.pr.stb.tc.sndNxt
  flight_le : c.pr.stb.tc.sndNxt ≤ c.pr.stb.tc.sndUna + 3145728
  acking : ∀ r a, c.run = some (.ack r (.setUna a)) →
    c.pr.stb.tc.sndUna ≤ a ∧ a ≤ c.pr.stb.tc.sndNxt

section Streaming
variable {k base : ℕ} {pieces : List (List Byte)} {c c' : Host}

theorem Streaming.end_le (hs : Streaming k base pieces c) :
    pieces.flatten.length + (handOf c.send).length ≤ c.accepted.length := by
  rw [← hs.accepted_eq, List.length_append, List.length_append]
  omega

/-- A retransmission of an armed node. -/
theorem sentFrom_sendpkt (hlt : base + pieces.flatten.length < 4294967296) {n : Node} {s : ℕ × List Byte}
    (hmem : s ∈ numbered base pieces) (hpid : n.pId = endOf s) (hdata : n.data <+: s.2) (stb : SockTb) :
    SentFrom base pieces (Timer.sendpkt stb n).pkt := by
  have hle := hdata.length_le
  have hlast := (boundary_end hmem).le_last
  have hsize : n.payloadSize = n.data.length := rfl
  have hseq : u32 ((n.pId : ℤ) - n.payloadSize) = endOf s - n.data.length := by
    rw [hpid, hsize]
    exact u32_sub _ _ (by unfold endOf; omega) (by omega)
  rw [Timer.sendpkt_eq, hseq]
  exact SentFrom.data hmem hdata

theorem Streaming.armed_from (hs : Streaming k base pieces c) {g : TimerHeap}
    (h : HeapFrom c.pr.timerheap g) :
    ∀ n ∈ g.elems, ∃ s ∈ numbered base pieces, n.pId = endOf s ∧ n.data <+: s.2 := by
  intro n hn
  obtain ⟨m, hm, hcopy⟩ := h n hn
  obtain ⟨s, hmem, hpid, hdata⟩ := hs.armed m hm
  refine ⟨s, hmem, hcopy.pId_eq.trans hpid, ?_⟩
  rcases hcopy.data_eq with hd | hd <;> rw [hd]
  · exact hdata
  · exact (cstr_isPrefix _).trans hdata

/-- A step that leaves `snd_nxt` and `cb_send` alone, and the thread in `send` where it is. -/
structure Beside (base : ℕ) (pieces : List (List Byte)) (c c' : Host) : Prop where
  send_eq : c'.send = c.send
  accepted_eq : c'.accepted = c.accepted
  sockd_eq : c'.pr.stb.sockd = c.pr.stb.sockd
  cbSend_eq : c'.pr.stb.cbSend = c.pr.stb.cbSend
  sndNxt_eq : c'.pr.stb.tc.sndNxt = c.pr.stb.tc.sndNxt
  una_le : c.pr.stb.tc.sndUna ≤ c'.pr.stb.tc.sndUna
  le_nxt : c'.pr.stb.tc.sndUna ≤ c.pr.stb.tc.sndNxt
  heap_from : HeapFrom c.pr.timerheap c'.pr.timerheap
  sent_eq : ∃ txs, c'.pr.sent = c.pr.sent ++ txs ∧
    ∀ tx ∈ txs, SentFrom base pieces tx.pkt ∧ tx.site ≠ .send
  acking : ∀ r a, c'.run = some (.ack r (.setUna a)) →
    c'.pr.stb.tc.sndUna ≤ a ∧ a ≤ c.pr.stb.tc.sndNxt

theorem Streaming.beside (hs : Streaming k base pieces c) (h : Beside base pieces c c') :
    Streaming k base pieces c' := by
  obtain ⟨txs, hsent, hnew⟩ := h.sent_eq
  have hn := h.sndNxt_eq
  have hu := h.una_le
  have hfl := hs.flight_le
  constructor
  · rw [hn, h.send_eq, hs.nxt_eq]
  · rw [h.send_eq, h.cbSend_eq, h.accepted_eq, hs.accepted_eq]
  · exact hs.size_le
  · intro pc hpc
    refine (hs.send_ok pc (h.send_eq ▸ hpc)).mono hn hu h.sockd_eq [] ?_
    rw [h.cbSend_eq, List.append_nil]
  · exact hs.armed_from h.heap_from
  · intro tx htx
    rw [hsent] at htx
    rcases List.mem_append.mp htx with htx | htx
    · exact hs.sent tx htx
    · exact (hnew tx htx).1
  · rw [segmentsSince_same hs.sent_le hsent fun tx htx => (hnew tx htx).2, hs.log_eq]
  · have hk := hs.sent_le
    rw [hsent, List.length_append]
    omega
  · rw [hn]
    exact h.le_nxt
  · omega
  · intro r a hr
    rw [hn]
    exact h.acking r a hr

/-- A step of reception. -/
theorem Streaming.aside (hs : Streaming k base pieces c) (h : c.SparesSend c') : Beside base pieces c c' := by
  obtain ⟨txs, hsent, hacks⟩ := h.acks.sent_eq
  refine ⟨h.send_eq, h.accepted_eq, h.acks.sockd_eq, h.acks.cbSend_eq, h.acks.sndNxt_eq,
    le_of_eq h.acks.sndUna_eq.symm, ?_, ?_, ⟨txs, hsent, ?_⟩, ?_⟩
  · rw [h.acks.sndUna_eq]
    exact hs.una_le
  · rw [h.acks.heap_eq]
    exact HeapFrom.refl _
  · intro tx htx
    obtain ⟨hsite, seq, hpkt⟩ := hacks tx htx
    refine ⟨?_, hsite⟩
    rw [hpkt]
    exact SentFrom.bare rfl rfl rfl
  · intro r a hr
    rw [h.acks.sndUna_eq]
    exact hs.acking r a (h.run r _ hr)

/-! ## A step of `send` -/

theorem afterSend_ack {run : Option RunAt} {o : Option SendAt} {r : RunVars} {pc : AckAt}
    (h : Host.afterSend run o = some (.ack r pc)) : run = some (.ack r pc) := by
  cases o with
  | some _ => exact h
  | none =>
    unfold Host.afterSend at h
    simp only at h
    split at h
    · cases h
    · exact h

theorem genPkt_segment {stb : SockTb} {buf : List Byte} {l : ℕ} {pkt : TouPkg} (hl : l ≤ buf.length)
    (h : genPkt stb buf l = .ok pkt) : pkt = TouPkg.segment stb.tc.sndNxt stb.tc.rcvNxt (buf.take l) := by
  have hlen : (buf.take l).length = l := by
    rw [List.length_take]
    omega
  have hseg := ofBuf_segment (buf.take l) buf stb.tc.sndNxt stb.tc.rcvNxt (by rw [hlen])
  unfold genPkt at h
  rw [if_neg (by omega), Int.toNat_natCast] at h
  cases h
  rw [hlen] at hseg
  exact hseg

/-- The thread in `send` goes on and has done nothing to the process. -/
theorem Streaming.goOn (hs : Streaming k base pieces c) (o : Option SendAt)
    (hhand : handOf o = handOf c.send) (hahead : aheadOf o = aheadOf c.send)
    (hok : ∀ pc, o = some pc → pc.Ok base pieces c.pr) :
    Streaming k base pieces { c with send := o, run := Host.afterSend c.run o } where
  nxt_eq := by
    rw [hs.nxt_eq, hahead]
  accepted_eq := by
    rw [hhand]
    exact hs.accepted_eq
  size_le := hs.size_le
  send_ok := hok
  armed := hs.armed
  sent := hs.sent
  log_eq := hs.log_eq
  sent_le := hs.sent_le
  una_le := hs.una_le
  flight_le := hs.flight_le
  acking r a hr := hs.acking r a (afterSend_ack hr)

theorem handOf_of {pc : SendAt} (h : c.send = some pc) : handOf c.send = pc.inHand := by
  rw [h]
  rfl

theorem aheadOf_of {pc : SendAt} (h : c.send = some pc) : aheadOf c.send = pc.ahead := by
  rw [h]
  rfl

/-- The bytes that were read are removed: nothing was inserted in front of them. -/
theorem Streaming.removed {v : SendVars} {bread : ℤ} {buf : List Byte} (hs : Streaming k base pieces c)
    (hpc : c.send = some (.remove v bread buf)) {q : Process} {len : ℤ}
    (hq : q = c.pr.setTable { c.pr.stb with cbSend := (c.pr.stb.cbSend.remove bread).2 })
    (hlen : len = if bread ≠ (c.pr.stb.cbSend.remove bread).1 then -1 else bread) :
    Streaming k base pieces { c with pr := q, send := some (.genPkt v len buf) } := by
  obtain ⟨l, rfl, hsmss, hroom, hle, htake, hbuf⟩ := hs.send_ok _ hpc
  have hcast : (s32 (l : ℤ)).toNat = l := by
    unfold touSmss at hsmss
    rw [s32_cast l (by omega), Int.toNat_natCast]
  obtain ⟨hret, hrest⟩ := c.pr.stb.cbSend.remove_spec l
  rw [hcast] at hret hrest
  rw [Nat.min_eq_left hle] at hret
  rw [hret, if_neg (not_not.mpr rfl)] at hlen
  have hhand := handOf_of hpc
  have hahead := aheadOf_of hpc
  have hnxt := hs.nxt_eq
  subst hq hlen
  refine ⟨?_, ?_, hs.size_le, ?_, hs.armed, hs.sent, hs.log_eq, hs.sent_le, hs.una_le, hs.flight_le,
    hs.acking⟩
  · rw [hahead] at hnxt
    exact hnxt
  · have hacc := hs.accepted_eq
    rw [hhand] at hacc
    show pieces.flatten ++ (buf.take (l : ℤ).toNat ++ (c.pr.stb.cbSend.remove l).2.contents) = c.accepted
    rw [Int.toNat_natCast, hrest, htake, List.take_append_drop]
    exact hacc
  · intro pc hpc'
    cases hpc'
    exact ⟨l, rfl, hsmss, hroom, hbuf⟩

/-- `snd_nxt` moves behind the packet in the hand. -/
theorem Streaming.advanced {v : SendVars} {len : ℤ} {pkt : TouPkg} (hs : Streaming k base pieces c)
    (hb : base + c.accepted.length < 4294967296) (hpc : c.send = some (.advance v len pkt)) {q : Process}
    (hq : q = c.pr.setTable { c.pr.stb with tc := { c.pr.stb.tc with
      sndNxt := u32 ((c.pr.stb.tc.sndNxt : ℤ) + len) } }) :
    Streaming k base pieces { c with pr := q, send := some (.sendto v len pkt) } ∧
      c.pr.stb.tc.sndNxt ≤ q.stb.tc.sndNxt := by
  obtain ⟨rfl, hsmss, hroom, ack, hpkt⟩ := hs.send_ok _ hpc
  have hend := hs.end_le
  have hhand := handOf_of hpc
  have hahead := aheadOf_of hpc
  have hnxt := hs.nxt_eq
  have hacc := hs.accepted_eq
  have hu := hs.una_le
  rw [hahead] at hnxt
  rw [hhand] at hacc hend
  have hn0 : c.pr.stb.tc.sndNxt = base + pieces.flatten.length := hnxt
  have hlt : c.pr.stb.tc.sndNxt + pkt.buf.length < 4294967296 := by
    have hend' : pieces.flatten.length + pkt.buf.length ≤ c.accepted.length := hend
    omega
  have hnew : q.stb.tc.sndNxt = c.pr.stb.tc.sndNxt + pkt.buf.length := by
    subst hq
    exact u32_add _ _ hlt
  have huna : q.stb.tc.sndUna = c.pr.stb.tc.sndUna := by
    subst hq
    rfl
  have hroom' : (c.pr.stb.tc.sndNxt : ℤ) + pkt.buf.length ≤ c.pr.stb.tc.sndUna + 3145728 := hroom
  have hheap : q.timerheap = c.pr.timerheap := by
    subst hq
    rfl
  have hsent : q.sent = c.pr.sent := by
    subst hq
    rfl
  have hcb : q.stb.cbSend = c.pr.stb.cbSend := by
    subst hq
    rfl
  refine ⟨⟨?_, ?_, hs.size_le, ?_, ?_, ?_, ?_, ?_, ?_, ?_, ?_⟩, by omega⟩
  · show q.stb.tc.sndNxt = base + pieces.flatten.length + pkt.buf.length
    omega
  · show pieces.flatten ++ (pkt.buf ++ q.stb.cbSend.contents) = c.accepted
    rw [hcb]
    exact hacc
  · intro pc hpc'
    cases hpc'
    exact ⟨rfl, hsmss, ack, hn0 ▸ hpkt⟩
  · show ∀ n ∈ q.timerheap.elems, _
    rw [hheap]
    exact hs.armed
  · show ∀ tx ∈ q.sent, _
    rw [hsent]
    exact hs.sent
  · show segments (q.sent.drop k) = _
    rw [hsent]
    exact hs.log_eq
  · show k ≤ q.sent.length
    rw [hsent]
    exact hs.sent_le
  · show q.stb.tc.sndUna ≤ q.stb.tc.sndNxt
    omega
  · show q.stb.tc.sndNxt ≤ q.stb.tc.sndUna + 3145728
    omega
  · intro r a hr
    have hack := hs.acking r a hr
    show q.stb.tc.sndUna ≤ a ∧ a ≤ q.stb.tc.sndNxt
    omega

/-- The packet in the hand becomes the last piece. -/
theorem Streaming.transmitted {v : SendVars} {len : ℤ} {pkt : TouPkg} (hs : Streaming k base pieces c)
    (hpc : c.send = some (.sendto v len pkt)) :
    Streaming k base (pieces ++ [pkt.buf]) { c with
      pr := c.pr.sendto [{ site := .send, dst := v.sockaddrs, pkt := pkt }]
      send := some (.newNode v len pkt) } := by
  obtain ⟨rfl, hsmss, ack, hpkt⟩ := hs.send_ok _ hpc
  have hhand := handOf_of hpc
  have hahead := aheadOf_of hpc
  have hnxt := hs.nxt_eq
  have hacc := hs.accepted_eq
  rw [hahead] at hnxt
  rw [hhand] at hacc
  have hflat : (pieces ++ [pkt.buf]).flatten = pieces.flatten ++ pkt.buf := by
    rw [List.flatten_append, List.flatten_singleton]
  have hpiece : (base + pieces.flatten.length, pkt.buf) ∈ numbered base (pieces ++ [pkt.buf]) := by
    rw [numbered_append]
    exact List.mem_append_right _ List.mem_cons_self
  refine ⟨?_, ?_, ?_, ?_, ?_, ?_, ?_, ?_, hs.una_le, hs.flight_le, hs.acking⟩
  · show c.pr.stb.tc.sndNxt = base + (pieces ++ [pkt.buf]).flatten.length + 0
    rw [hnxt, hflat, List.length_append]
    show _ + pkt.buf.length = _
    omega
  · show (pieces ++ [pkt.buf]).flatten ++ c.pr.stb.cbSend.contents = c.accepted
    rw [hflat, List.append_assoc]
    exact hacc
  · intro x hx
    rcases List.mem_append.mp hx with hx | hx
    · exact hs.size_le x hx
    · rw [List.mem_singleton.mp hx]
      exact hsmss
  · intro pc hpc'
    cases hpc'
    exact ⟨rfl, pieces, rfl, by rw [hpkt, TouPkg.segment_seq]⟩
  · intro n hn
    obtain ⟨s, hmem, hrest⟩ := hs.armed n hn
    exact ⟨s, mem_numbered_append_left _ hmem, hrest⟩
  · intro tx htx
    rcases List.mem_append.mp htx with htx | htx
    · exact (hs.sent tx htx).append _
    · rw [List.mem_singleton.mp htx]
      have hdata := @SentFrom.data base _ _ ack _ hpiece (List.prefix_refl _)
      have hseq : endOf (base + pieces.flatten.length, pkt.buf) - pkt.buf.length =
          base + pieces.flatten.length := Nat.add_sub_cancel _ _
      rw [hseq, ← hpkt] at hdata
      exact hdata
  · rw [segmentsSince_sent hs.sent_le rfl, hs.log_eq, numbered_append]
    show _ ++ [(pkt.t.seq, pkt.buf)] = _ ++ [(base + pieces.flatten.length, pkt.buf)]
    rw [hpkt, TouPkg.segment_seq, TouPkg.segment_buf]
  · have hk := hs.sent_le
    show k ≤ (c.pr.sent ++ _).length
    rw [List.length_append]
    omega

/-- The last piece gets its timer. -/
theorem Streaming.pushed {v : SendVars} {nt : Node} (hs : Streaming k base pieces c)
    (hpc : c.send = some (.push v nt)) :
    Streaming k base pieces { c with
      pr := { c.pr with timerheap := c.pr.timerheap.push nt.copy }, send := some (.test v) } := by
  obtain ⟨_, _, pre, hpieces, hpid⟩ := hs.send_ok _ hpc
  have hnxt := hs.nxt_eq
  have hacc := hs.accepted_eq
  rw [aheadOf_of hpc] at hnxt
  rw [handOf_of hpc] at hacc
  refine ⟨hnxt, hacc, hs.size_le, ?_, ?_, hs.sent, hs.log_eq, hs.sent_le, hs.una_le, hs.flight_le, hs.acking⟩
  · intro pc hpc'
    cases hpc'
    trivial
  · intro n hn
    rcases (MinHeap.mem_push _ _ _).mp hn with rfl | hn
    · refine ⟨(base + pre.flatten.length, nt.data), ?_, ?_, ?_⟩
      · rw [hpieces, numbered_append]
        exact List.mem_append_right _ List.mem_cons_self
      · show nt.pId = base + pre.flatten.length + nt.data.length
        rw [hpid, hpieces, List.flatten_append, List.flatten_singleton, List.length_append]
        omega
      · rw [Node.data_copy]
        exact cstr_isPrefix _
    · exact hs.armed n hn

/-- What is left of the window when `snd_una` has moved up since it was read. -/
theorem window_left {una nxt w : ℕ} (hw : w ≤ 3145728) (hu : una ≤ nxt) (hn : nxt ≤ una + w) :
    s32 (u32 ((u32 ((una : ℤ) + w) : ℤ) - nxt)) = una + w - nxt := by
  have hmod : u32 ((u32 ((una : ℤ) + w) : ℤ) - nxt) = una + w - nxt := by
    unfold u32
    omega
  rw [hmod, s32_cast _ (by omega)]
  omega

/-- The thread in `send` goes to `pc'` and has done nothing to the process. -/
theorem Streaming.goTo (hs : Streaming k base pieces c) {pc pc' : SendAt} (hpc : c.send = some pc)
    (hhand : pc'.inHand = pc.inHand) (hahead : pc'.ahead = pc.ahead) (hok : pc'.Ok base pieces c.pr) :
    Streaming k base pieces { c with send := some pc' } := by
  refine hs.goOn (some pc') (hhand.trans (handOf_of hpc).symm) (hahead.trans (aheadOf_of hpc).symm) ?_
  intro pc'' h
  rw [Option.some.injEq] at h
  exact h ▸ hok

theorem Streaming.goOut (hs : Streaming k base pieces c) {pc : SendAt} (hpc : c.send = some pc)
    (hhand : pc.inHand = []) (hahead : pc.ahead = 0) :
    Streaming k base pieces { c with send := none, run := Host.afterSend c.run none } := by
  refine hs.goOn none ?_ ?_ fun pc h => by cases h
  · rw [handOf_of hpc, hhand]
    rfl
  · rw [aheadOf_of hpc, hahead]
    rfl

/-- The bytes are read: nothing but `remove` takes bytes out of `cb_send`. -/
theorem read_ok {p : Process} {v : SendVars} {len : ℤ} {l : ℕ} (hok : (SendAt.getAt v len).Ok base pieces p)
    (hl : l = min (s32 len).toNat p.stb.cbSend.contents.length) :
    (SendAt.remove v l (p.stb.cbSend.contents.take l ++
      List.replicate (touMss - (p.stb.cbSend.contents.take l).length) 0)).Ok base pieces p := by
  obtain ⟨hlen0, hsmss, hroom⟩ := hok
  have hcast : s32 len = len := s32_of_range (by omega) (by unfold touSmss at hsmss; omega)
  rw [hcast] at hl
  have htake : (p.stb.cbSend.contents.take l).length = l := by
    rw [List.length_take]
    omega
  refine ⟨l, rfl, by omega, ?_, by omega, ?_, ?_⟩
  · unfold SendAt.Room at hroom ⊢
    omega
  · rw [List.take_append_of_le_length (by omega), List.take_take, Nat.min_self]
  · rw [List.length_append]
    omega

theorem genPkt_ok {p : Process} {v : SendVars} {len : ℤ} {buf : List Byte} {pkt : TouPkg}
    (hok : (SendAt.genPkt v len buf).Ok base pieces p) (h : genPkt p.stb buf len = .ok pkt) :
    pkt.buf = buf.take len.toNat ∧ (SendAt.advance v len pkt).Ok base pieces p := by
  obtain ⟨l, rfl, hsmss, hroom, hle⟩ := hok
  have hseg := genPkt_segment hle h
  have hbuf : pkt.buf = buf.take l := by
    rw [hseg, TouPkg.segment_buf]
  have hlen : pkt.buf.length = l := by
    rw [hbuf, List.length_take]
    omega
  refine ⟨hbuf, by rw [hlen], by omega, hroom, p.stb.tc.rcvNxt, ?_⟩
  rw [hbuf]
  exact hseg

theorem newNode_ok {p : Process} (now : ℕ) {v : SendVars} {len : ℤ} {pkt : TouPkg}
    (hend : base + pieces.flatten.length < 4294967296) (hok : (SendAt.newNode v len pkt).Ok base pieces p) :
    (SendAt.push v (Node.ofPayload p.stb.sockd timerIdSndpkt (u32 ((pkt.t.seq : ℤ) + len)) p.stp p.stb
      pkt.buf now)).Ok base pieces p := by
  obtain ⟨rfl, pre, hpieces, hseq⟩ := hok
  have hflat : pieces.flatten.length = pre.flatten.length + pkt.buf.length := by
    rw [hpieces, List.flatten_append, List.flatten_singleton, List.length_append]
  refine ⟨rfl, rfl, pre, hpieces, ?_⟩
  show u32 ((pkt.t.seq : ℤ) + (pkt.buf.length : ℕ)) = _
  rw [u32_add _ _ (by omega)]
  omega

theorem Streaming.send (hs : Streaming k base pieces c) (hb : base + c.accepted.length < 4294967296)
    {now : ℕ} {pc : SendAt} {r : Process × Option SendAt} (hpc : c.send = some pc)
    (h : SendMove now c.pr pc r) : ∃ more, Streaming k base (pieces ++ more)
      { c with pr := r.1, send := r.2, run := Host.afterSend c.run r.2 } := by
  have hok := hs.send_ok pc hpc
  have hun := hs.una_le
  have hfl := hs.flight_le
  have hstay : ∀ {c' : Host}, Streaming k base pieces c' → ∃ more, Streaming k base (pieces ++ more) c' :=
    fun h => ⟨[], by rw [List.append_nil]; exact h⟩
  cases h with
  | getwnd v => exact hstay (hs.goTo hpc rfl rfl c.pr.stb.tc.getwnd_le)
  | @opens v w hedge =>
    refine hstay (hs.goTo hpc rfl rfl ⟨hok, le_trans hedge ?_⟩)
    unfold u32
    omega
  | shut v w =>
    refine hstay (hs.goTo hpc rfl rfl ⟨le_refl _, ?_⟩)
    unfold SendAt.Room
    omega
  | subtract v w =>
    refine hstay (hs.goTo hpc rfl rfl ?_)
    have hleft := window_left hok.1 hun hok.2
    show 0 ≤ s32 _ ∧ SendAt.Room c.pr (s32 _)
    have hle := hok.1
    have hnxt := hok.2
    rw [hleft]
    unfold SendAt.Room
    omega
  | begin s => exact hstay (hs.goTo hpc rfl rfl trivial)
  | stop v s => exact hstay (hs.goOut hpc rfl rfl)
  | @take v v' s hsize =>
    have h0 := hok.1
    have hroom := hok.2
    have hle : (0 : ℤ) ≤ (if s ≥ touSmss then (touSmss : ℤ) else s) ∧
        (if s ≥ touSmss then (touSmss : ℤ) else s) ≤ touSmss ∧
        (if s ≥ touSmss then (touSmss : ℤ) else s) ≤ s := by
      unfold touSmss
      split <;> omega
    refine hstay (hs.goTo hpc rfl rfl ⟨hle.1, hle.2.1, ?_⟩)
    unfold SendAt.Room at hroom ⊢
    omega
  | again => exact hstay (hs.goTo hpc rfl rfl trivial)
  | leave v => exact hstay (hs.goOut hpc rfl rfl)
  | read hl => exact hstay (hs.goTo hpc rfl rfl (read_ok hok hl))
  | readNone buf h0 =>
    refine hstay (hs.goTo hpc rfl rfl ⟨0, rfl, Nat.zero_le _, ?_, Nat.zero_le _⟩)
    unfold SendAt.Room
    omega
  | remove v bread buf => exact hstay (hs.removed hpc rfl rfl)
  | genPkt hpkt =>
    obtain ⟨hbuf, hnew⟩ := genPkt_ok hok hpkt
    exact hstay (hs.goTo hpc hbuf rfl hnew)
  | advance v len pkt => exact hstay (hs.advanced hb hpc rfl).1
  | sendto v len pkt => exact ⟨[pkt.buf], hs.transmitted hpc⟩
  | newNode v len pkt =>
    have hend := hs.end_le
    exact hstay (hs.goTo hpc rfl rfl (newNode_ok now (by omega) hok))
  | push v nt => exact hstay (hs.pushed hpc)

/-! ## The other steps -/

/-- `insert` appends the bytes it answers to have taken. -/
theorem insert_contents (r : SockBuf) {buf : List Byte} {len : ℤ} (hlen : s32 len ≤ buf.length) :
    (r.insert buf len).2.contents = r.contents ++ buf.take (r.insert buf len).1.toNat := by
  by_cases hfit : 0 < s32 len ∧ s32 len < (touMaxCircularBuf - r.contents.length : ℕ)
  · obtain ⟨h1, h2⟩ := r.insert_fits buf len hfit.1 (by omega) hfit.2
    rw [h1, h2]
  · obtain ⟨h1, h2⟩ := r.insert_refused buf len hfit
    rw [h1, h2, Int.toNat_zero, List.take_zero, List.append_nil]

theorem Streaming.pushsndq (hs : Streaming k base pieces c) {buf : List Byte} {len : ℤ}
    (hlen : s32 len ≤ buf.length) : Streaming k base pieces { c with
      pr := (Process.pushsndq c.pr buf len).2
      accepted := c.accepted ++ buf.take (Process.pushsndq c.pr buf len).1.toNat } := by
  have hpush : (Process.pushsndq c.pr buf len).2.stb.cbSend.contents =
      c.pr.stb.cbSend.contents ++ buf.take (Process.pushsndq c.pr buf len).1.toNat :=
    insert_contents c.pr.stb.cbSend hlen
  refine ⟨hs.nxt_eq, ?_, hs.size_le, ?_, hs.armed, hs.sent, hs.log_eq, hs.sent_le, hs.una_le, hs.flight_le,
    hs.acking⟩
  · show pieces.flatten ++ (handOf c.send ++ (Process.pushsndq c.pr buf len).2.stb.cbSend.contents) = _
    rw [hpush, ← hs.accepted_eq]
    simp only [List.append_assoc]
  · intro pc hpc
    exact (hs.send_ok pc hpc).mono rfl (le_refl _) rfl _ hpush

end Streaming

end Process
end TcpOverUdp
