import TcpOverUdp.Proof.Lockstep
import TcpOverUdp.Proof.Handshake

/-! # From `touSend` to `touRecv`

Along every run of two endpoints the sender's pieces only grow, and the receiver has stored a part of them
that begins at the first byte (`Flow`). A SYN of the past that `run` takes ends the connection at the
receiver, after which it stores nothing any more.
-/
namespace TcpOverUdp
open MachineInt Pieces
set_option autoImplicit false

namespace Process

/-! ## What a turn leaves alone -/

section Turn
variable {D : Datagram → Prop} {now : ℕ} {s s' : RunSt}

/-- Only a SYN and a FIN change the state of the socket. -/
theorem RunTurn.sockstate (h : RunTurn D now s s') (hsyn : s.state ≠ .procSyn) (hfin : s.state ≠ .procFin) :
    s'.pr.stb.sockstate = s.pr.stb.sockstate := by
  cases h with
  | receive | old | noSendback | future => rfl
  | syn hs => exact absurd hs hsyn
  | fin hs => exact absurd hs hfin
  | ack _ _ h1 h2 =>
    obtain ⟨pieces, he⟩ := send_ok h2
    have ht := congrArg SockTb.sockstate he.table_eq
    have ht1 := congrArg SockTb.sockstate (handleAck_effect h1).table_eq
    exact ht.trans ht1
  | recovered _ hr | unrecovered _ _ hr =>
    have ht := congrArg SockTb.sockstate (procPktRec_change hr).table_eq
    exact ht
  | @inOrder d =>
    obtain ⟨cb, hput⟩ := inOrder_frame s.pr.stb (recvPkg d)
    rw [hput]
    rfl
  | sendback _ hp =>
    have ht := congrArg SockTb.sockstate (procDelack_effect hp).table_eq
    exact ht

/-- `minhp_recv` holds packets that were in it before or that arrived with data. -/
theorem RunTurn.held (h : RunTurn D now s s') {pkt : TouPkg} (hpkt : pkt ∈ s'.pr.stb.minhpRecv.elems) :
    pkt ∈ s.pr.stb.minhpRecv.elems ∨ ∃ d, D d ∧ IsData (recvPkg d) ∧ pkt = recvPkg d := by
  have hrec : ∀ {rv : ℤ} {stb : SockTb}, procPktRec s.pr.stb = .ok (rv, stb) → pkt ∈ stb.minhpRecv.elems →
      pkt ∈ s.pr.stb.minhpRecv.elems := by
    intro rv stb hr hmem
    exact procPktRec_inv hr (fun a => ∀ b ∈ a.minhpRecv.elems, b ∈ s.pr.stb.minhpRecv.elems)
      (fun _ hb => hb) (fun _ _ _ _ _ _ ha b hb => ha b (MinHeap.mem_of_mem_pop hb))
      (fun _ _ _ _ _ _ ha => ha) (fun _ ha => ha) pkt hmem
  cases h with
  | receive | old | noSendback | syn | fin => exact Or.inl hpkt
  | ack _ _ h1 h2 => exact Or.inl ((ack_recvSame h1 h2).minhpRecv_eq ▸ hpkt)
  | recovered _ hr | unrecovered _ _ hr => exact Or.inl (hrec hr hpkt)
  | @inOrder d =>
    obtain ⟨cb, hput⟩ := inOrder_frame s.pr.stb (recvPkg d)
    have hsame : (putcircbuf (s.pr.stb.setTCBRcv (u32 (((recvPkg d).t.seq : ℤ) + (recvPkg d).buf.length)))
        (recvPkg d).buf (recvPkg d).buf.length).2.minhpRecv = s.pr.stb.minhpRecv := by
      rw [hput]
      rfl
    exact Or.inl (hsame ▸ hpkt)
  | @future d hs hd =>
    have hc := hd.classified
    rw [hs] at hc
    cases classified_of_ok hc with
    | future _ hdata _ =>
      have hmem : pkt ∈ (s.pr.stb.pushHpRecvBuf (recvPkg d)).minhpRecv.elems := hpkt
      rw [pushHpRecvBuf_eq _ hdata.pos] at hmem
      rcases (MinHeap.mem_push _ _ _).mp hmem with rfl | hmem
      · exact Or.inr ⟨d, hd.given, hdata, rfl⟩
      · exact Or.inl hmem
  | sendback _ hp => exact Or.inl ((procDelack_effect hp).recvSame.minhpRecv_eq ▸ hpkt)

end Turn

/-! ## The receiver -/

/-- The receiver has stored the pieces up to `rcv_nxt`. -/
structure Taking (base : ℕ) (pieces : List (List Byte)) (returned : List Byte) (p : Process) : Prop where
  established : p.stb.sockstate = .established
  stores : Stores (numberedStream base pieces) (Boundary base pieces) base returned p.stb
  held : ∀ pkt ∈ p.stb.minhpRecv.elems, EndsPiece base pieces pkt

/-- The receiver has taken a SYN again: what it stored before is all it will have. -/
structure CutOff (pieces : List (List Byte)) (returned : List Byte) (p : Process) : Prop where
  sockstate : p.stb.sockstate = .synReceived
  runstate : p.stb.runstate = .getPkt
  stored : returned ++ p.stb.cbRecv.contents <+: pieces.flatten

def Received (base : ℕ) (pieces : List (List Byte)) (returned : List Byte) (p : Process) : Prop :=
  Taking base pieces returned p ∨ CutOff pieces returned p

section Receiver
variable {base : ℕ} {pieces : List (List Byte)} {returned : List Byte} {p q : Process}

theorem extract_numberedStream (b : ℕ) :
    (numberedStream base pieces).extract base b = pieces.flatten.take (b - base) := by
  unfold numberedStream
  rw [List.extract_eq_take_drop, List.drop_append_of_le_length (by rw [List.length_replicate]),
    List.drop_replicate, Nat.sub_self, List.replicate_zero, List.nil_append]

theorem Taking.stored (h : Taking base pieces returned p) :
    returned ++ p.stb.cbRecv.contents <+: pieces.flatten := by
  rw [h.stores.stored, extract_numberedStream]
  exact List.take_prefix _ _

theorem Received.stored (h : Received base pieces returned p) :
    returned ++ p.stb.cbRecv.contents <+: pieces.flatten := by
  rcases h with h | h
  · exact h.stored
  · exact h.stored

/-- More pieces make no difference to what was received. -/
theorem Received.append (h : Received base pieces returned p) (more : List (List Byte)) :
    Received base (pieces ++ more) returned p := by
  have hflat : (pieces ++ more).flatten = pieces.flatten ++ more.flatten := List.flatten_append
  rcases h with h | h
  · have hstream : numberedStream base (pieces ++ more) = numberedStream base pieces ++ more.flatten := by
      unfold numberedStream
      rw [hflat, List.append_assoc]
    have hle := h.stores.le_length
    refine Or.inl ⟨h.established, ⟨h.stores.boundary.append more, h.stores.start_le, ?_, ?_, ?_⟩, ?_⟩
    · rw [hstream, List.length_append]
      omega
    · rw [hstream, extract_append_left _ _ hle]
      exact h.stores.stored
    · exact fun pkt hpkt => ((h.held pkt hpkt).append more).cutFrom
    · exact fun pkt hpkt => (h.held pkt hpkt).append more
  · refine Or.inr ⟨h.sockstate, h.runstate, h.stored.trans ?_⟩
    rw [hflat]
    exact List.prefix_append _ _

/-- Nothing that concerns reception is different. -/
theorem Received.same (h : Received base pieces returned p) (hr : RecvSame p.stb q.stb)
    (hs : q.stb.sockstate = p.stb.sockstate) : Received base pieces returned q := by
  rcases h with h | h
  · refine Or.inl ⟨hs.trans h.established, h.stores.same hr, ?_⟩
    rw [hr.minhpRecv_eq]
    exact h.held
  · refine Or.inr ⟨hs.trans h.sockstate, hr.runstate_eq.trans h.runstate, ?_⟩
    rw [hr.cbRecv_eq]
    exact h.stored

theorem Received.touRecv (h : Received base pieces returned p) (len : ℤ) :
    Received base pieces (returned ++ (Process.touRecv p len).2.1.take (Process.touRecv p len).1.toNat)
      (Process.touRecv p len).2.2 := by
  rcases h with h | h
  · have hfront := touRecv_append p len (by rw [h.established]; decide)
    refine Or.inl ⟨h.established, ⟨h.stores.boundary, h.stores.start_le, h.stores.le_length, ?_,
      h.stores.held⟩, h.held⟩
    rw [List.append_assoc, hfront]
    exact h.stores.stored
  · have hfront := touRecv_append p len (by rw [h.sockstate]; decide)
    refine Or.inr ⟨h.sockstate, h.runstate, ?_⟩
    rw [List.append_assoc, hfront]
    exact h.stored

/-- What the network delivers of the sender's packets. -/
def FromSender (base : ℕ) (pieces : List (List Byte)) (d : Datagram) : Prop :=
  (recvPkg d).t.fin = false ∧ (0 < (recvPkg d).buf.length → EndsPiece base pieces (recvPkg d))

section Call
variable {now : ℕ} {pending : List Datagram} {s s' : RunSt}

/-- The sender sends no FIN. -/
theorem no_fin (hok : FsmOk (FromSender base pieces) s) : s.state ≠ .procFin := by
  intro hst
  obtain ⟨d, hd⟩ := hok.handling (by rw [hst]; trivial)
  have hc := hd.classified
  rw [hst] at hc
  cases classified_of_ok hc with
  | fin h => exact absurd (h.symm.trans hd.given.1) (by decide)

theorem Taking.turn (h : Taking base pieces returned s.pr) (hlt : base + pieces.flatten.length < 4294967296)
    (hsyn : s.state ≠ .procSyn) (hfin : s.state ≠ .procFin)
    (hroom : s.state = .ackWithDataMatchExpectedSeq → ∀ tp, s.tp = some tp →
      (tp.buf.length : ℤ) < s.pr.stb.cbRecv.getAvSize)
    (ht : RunTurn (FromSender base pieces) now s s') : Taking base pieces returned s'.pr := by
  refine ⟨(ht.sockstate hsyn hfin).trans h.established, ?_, ?_⟩
  · refine h.stores.turn ?_ (fun d hd hdata => (hd.2 hdata.pos).cutFrom) hsyn hroom ht
    rw [length_numberedStream]
    exact hlt
  · intro pkt hpkt
    rcases ht.held hpkt with hold | ⟨d, hd, hdata, rfl⟩
    · exact h.held pkt hold
    · exact hd.2 hdata.pos

theorem CutOff.turn (h : CutOff pieces returned s.pr) (hbefore : BeforeData s.state) (hfin : s.state ≠ .procFin)
    (ht : RunTurn (FromSender base pieces) now s s') :
    CutOff pieces returned s'.pr ∧ BeforeData s'.state := by
  obtain ⟨hrec, hsend, hno⟩ := hbefore
  have hne : s.pr.stb.sockstate ≠ .established := by
    rw [h.sockstate]
    decide
  cases ht with
  | @receive d rest st hst hp hc =>
    refine ⟨⟨h.sockstate, h.runstate, h.stored⟩, ?_⟩
    exact beforeData_of_classified hc
  | syn => exact ⟨⟨rfl, h.runstate, h.stored⟩, beforeData_procEnd⟩
  | @old st hst hnew =>
    exact ⟨h, beforeData_after hnew⟩
  | recovered hst | unrecovered hst => exact absurd hst hrec
  | sendback hst => exact absurd hst hsend
  | noSendback hst => exact absurd hst hno
  | fin hst => exact absurd hst hfin
  | ack hst hd | inOrder hst hd | future hst hd =>
    rcases hd.closed hne with h | h <;> rw [h] at hst <;> cases hst

/-- A SYN ends the reception. -/
theorem Taking.syn (h : Taking base pieces returned s.pr) (hout : PutOff s) (hst : s.state = .procSyn)
    (ht : RunTurn (FromSender base pieces) now s s') :
    CutOff pieces returned s'.pr ∧ BeforeData s'.state := by
  have hrun := hout.runstate_eq hst (by decide)
  cases ht with
  | syn => exact ⟨⟨rfl, hrun, h.stored⟩, beforeData_procEnd⟩
  | receive hs' => rcases hs' with hs' | hs' <;> rw [hst] at hs' <;> cases hs'
  | fin hs' | ack hs' | recovered hs' | unrecovered hs' | inOrder hs' | old hs' | future hs'
  | sendback hs' | noSendback hs' =>
    rw [hst] at hs'
    cases hs'

theorem Received.run {r : RunRes} (h : Received base pieces returned p)
    (hlt : base + pieces.flatten.length < 4294967296) (hD : ∀ d ∈ pending, FromSender base pieces d)
    (hroom : RoomForNext p pending) (hr : Process.run now p pending = .ok r) :
    Received base pieces returned r.pr := by
  obtain ⟨s, hs, hpr⟩ := run_inv hr hD (fun s =>
      (Taking base pieces returned s.pr ∧ Gated p pending s ∧ PutOff s) ∨
        (CutOff pieces returned s.pr ∧ BeforeData s.state))
    (by
      rcases h with h | h
      · exact Or.inl ⟨h, gated_start p pending, putOff_start p pending⟩
      · exact Or.inr ⟨h, beforeData_start h.runstate pending⟩)
    (by
      rintro s s' _ hok hs ht
      rcases hs with ⟨htake, hg, hout⟩ | ⟨hcut, hbefore⟩
      · by_cases hsyn : s.state = .procSyn
        · exact Or.inr (htake.syn hout hsyn ht)
        · exact Or.inl ⟨htake.turn hlt hsyn (no_fin hok) hg.room ht, hg.turn hroom ht, hout.turn ht⟩
      · exact Or.inr (hcut.turn hbefore (no_fin hok) ht))
  rw [hpr]
  exact hs.imp (fun h => h.1) fun h => h.1

end Call

end Receiver

/-! ## The handshake sends no data -/

section Handshake
variable {base : ℕ} {pieces : List (List Byte)} {p : Process}

theorem touConnect_sent {sockDst : Addr} {rcvbuf : ℤ} {d : Datagram} {r : Bool × Process}
    (hp : ∀ tx ∈ p.sent, SentFrom base pieces tx.pkt) (h : touConnect p sockDst rcvbuf d = .ok r) :
    ∀ tx ∈ r.2.sent, SentFrom base pieces tx.pkt := by
  obtain ⟨syn, ack, hsyn, hack, rfl⟩ := touConnect_ok h
  intro tx htx
  rcases List.mem_append.mp htx with htx | htx
  · rcases List.mem_append.mp htx with htx | htx
    · exact hp tx htx
    · rw [List.mem_singleton.mp htx]
      exact SentFrom.bare hsyn.buf hsyn.buflen hsyn.fin
  · rw [List.mem_singleton.mp htx]
    exact SentFrom.bare hack.buf hack.buflen hack.fin

theorem touAccept_sent {rand : ℕ} {rcvbuf : ℤ} {d : Datagram} {r : Bool × Process}
    (hp : ∀ tx ∈ p.sent, SentFrom base pieces tx.pkt) (h : touAccept p rand rcvbuf d = .ok r) :
    ∀ tx ∈ r.2.sent, SentFrom base pieces tx.pkt := by
  obtain ⟨r1, h1, h⟩ := of_bind_ok h
  have hfirst : ∀ tx ∈ r1.2.sent, SentFrom base pieces tx.pkt := by
    rcases touAcceptSynAck_ok h1 with ⟨_, synack, hbare, rfl⟩ | ⟨_, rfl⟩
    · intro tx htx
      rcases List.mem_append.mp htx with htx | htx
      · exact hp tx htx
      · rw [List.mem_singleton.mp htx]
        exact SentFrom.bare hbare.buf hbare.buflen hbare.fin
    · exact hp
  split at h <;> cases h <;> exact hfirst

theorem Listening.sent (h : Listening p) : ∀ tx ∈ p.sent, SentFrom base pieces tx.pkt := by
  induction h with
  | listen =>
    intro tx htx
    cases htx
  | run hp h ih =>
    refine reach_inv (fun q : Process => ∀ tx ∈ q.sent, SentFrom base pieces tx.pkt) ?_ ih
      (closed_run hp.fresh.1.runstate hp.fresh.2 h).1
    intro a b ha hst
    rw [hst.sent_eq]
    exact ha
  | accept _ h ih => exact touAccept_sent ih h

theorem Opened.sent (h : Opened p) : ∀ tx ∈ p.sent, SentFrom base pieces tx.pkt := by
  cases h with
  | @connect sockfd stp _ _ _ _ _ h =>
    have hnone : ∀ tx ∈ (Process.init sockfd stp).sent, SentFrom base pieces tx.pkt := by
      intro tx htx
      cases htx
    exact touConnect_sent hnone h
  | accept hp h => exact touAccept_sent hp.sent h

/-- The first number of a connection comes from 16 bits. -/
theorem Opened.sndNxt_le (h : Opened p) : p.stb.tc.sndNxt ≤ 65535 := by
  cases h with
  | connect h =>
    have hn := (touConnect_result h).2.sndNxt_eq
    simp only at hn
    omega
  | accept hp h =>
    rcases touAccept_result h with ⟨_, hr⟩ | ⟨hb, _⟩
    · have hn := hr.sndNxt_eq
      simp only at hn
      omega
    · cases hb

theorem Opened.sndNxt_lt (h : Opened p) : p.stb.tc.sndNxt < 4294967296 :=
  lt_of_le_of_lt h.sndNxt_le (by decide)

end Handshake

/-! ## Two endpoints -/

/-- The two processes completed the two sides of one handshake, either of them as the client. -/
structure Connected (a b : Process) : Prop where
  opened : Opened a
  peer_opened : Opened b
  agree : Agree a b ∨ Agree b a

theorem Connected.rcvNxt_eq {a b : Process} (h : Connected a b) : b.stb.tc.rcvNxt = a.stb.tc.sndNxt := by
  rcases h.agree with hab | hab
  · exact hab.server_expects
  · exact hab.client_expects

/-- What is on its way from the bytes accepted to the bytes returned. -/
def Flow (base : ℕ) (x : Endpoints) : Prop :=
  ∃ pieces, Sending base pieces x.accepted x.sender ∧ Received base pieces x.returned x.receiver

theorem flow_start {a b : Process} (h : Connected a b) :
    Flow a.stb.tc.sndNxt (Endpoints.start a b) := by
  have hf := h.opened.fresh.1
  have hpeer := h.peer_opened.fresh
  have hlt := h.opened.sndNxt_lt
  have hrcv := h.rcvNxt_eq
  have hnil : ([] : List (List Byte)).flatten.length = 0 := rfl
  refine ⟨[], ⟨?_, ?_, nofun, ?_, ?_, h.opened.sent⟩, Or.inl ⟨hpeer.2, ⟨?_, ?_, ?_, ?_, ?_⟩, ?_⟩⟩
  · show a.stb.tc.sndNxt = _
    omega
  · show [] ++ a.stb.cbSend.contents = []
    rw [hf.cbSend]
    rfl
  · omega
  · show ∀ n ∈ a.timerheap.elems, _
    rw [hf.timerheap]
    exact nofun
  · show Boundary _ _ b.stb.tc.rcvNxt
    rw [hrcv]
    exact boundary_base _ _
  · exact le_of_eq hrcv.symm
  · rw [length_numberedStream]
    exact le_trans (le_of_eq hrcv) (Nat.le_add_right _ _)
  · show [] ++ b.stb.cbRecv.contents = List.extract _ _ b.stb.tc.rcvNxt
    rw [hpeer.1.cbRecv, hrcv, extract_self]
    rfl
  · show ∀ pkt ∈ b.stb.minhpRecv.elems, _
    rw [hpeer.1.minhpRecv]
    exact nofun
  · show ∀ pkt ∈ b.stb.minhpRecv.elems, _
    rw [hpeer.1.minhpRecv]
    exact nofun

/-- Whatever the sender does, the receiver does not notice before the network delivers it. -/
theorem Flow.sender {base : ℕ} {x : Endpoints} {accepted : List Byte} {q : Process}
    (hx : Flow base x) (h : ∀ pieces, Sending base pieces x.accepted x.sender →
      ∃ more, Sending base (pieces ++ more) accepted q) :
    Flow base { x with sender := q, accepted := accepted } := by
  obtain ⟨pieces, hs, hr⟩ := hx
  obtain ⟨more, hq⟩ := h pieces hs
  exact ⟨pieces ++ more, hq, hr.append more⟩

theorem Sending.fromSender {base : ℕ} {pieces : List (List Byte)} {accepted : List Byte} {p : Process}
    (hs : Sending base pieces accepted p) {d : Datagram} (hd : Carries p.sent d) :
    FromSender base pieces d := by
  obtain ⟨tx, htx, hbytes⟩ := hd
  exact (hs.sent tx htx).arrives hs.size_le hs.end_lt hbytes

theorem NetStep.flow {base : ℕ} {x y : Endpoints} (h : NetStep RoomForNext x y) (hx : Flow base x) :
    Flow base y := by
  have hkeep : ∀ {q : Process}, (∀ J : Process → Prop, SenderRule J → J x.sender → J q) →
      Flow base { x with sender := q } := by
    intro q hq
    refine hx.sender fun pieces hs => ?_
    refine hq _ (sending_rule base pieces x.accepted) ⟨[], ?_⟩
    rw [List.append_nil]
    exact hs
  cases h with
  | touSend hlen h => exact hx.sender fun pieces hs => hs.touSend hlen h
  | runSender _ h => exact hkeep fun J hJ hs => hJ.run h hs
  | delackSender h => exact hkeep fun J hJ hs => hJ.delack h hs
  | sndpktSender h => exact hkeep fun J hJ hs => hJ.sndpkt h hs
  | touRecv len =>
    obtain ⟨pieces, hs, hr⟩ := hx
    exact ⟨pieces, hs, hr.touRecv len⟩
  | runReceiver hnet hC h =>
    obtain ⟨pieces, hs, hr⟩ := hx
    exact ⟨pieces, hs, hr.run hs.end_lt (fun d hd => hs.fromSender (hnet d hd)) hC h⟩
  | delackReceiver h =>
    obtain ⟨pieces, hs, hr⟩ := hx
    have he := timerProcDelack_effect h
    have hst := congrArg SockTb.sockstate he.table_eq
    exact ⟨pieces, hs, hr.same he.recvSame hst⟩
  | sndpktReceiver h =>
    obtain ⟨pieces, hs, hr⟩ := hx
    have he := timerProcSndpkt_effect h
    have hst := congrArg SockTb.sockstate he.table_eq
    exact ⟨pieces, hs, hr.same he.recvSame hst⟩

/-- In every run of two endpoints of one connection in which the segments that the receiver takes in order
fit, whatever the network does, what `touRecv` has returned is a first part of what `touSend` has accepted. -/
theorem end_to_end (a b : Process) (x : Endpoints) (hconn : Connected a b)
    (hrun : Relation.ReflTransGen (NetStep RoomForNext) (Endpoints.start a b) x) :
    x.returned <+: x.accepted := by
  obtain ⟨pieces, hs, hr⟩ := reach_inv (Flow a.stb.tc.sndNxt) (fun _ _ hx hst => hst.flow hx)
    (flow_start hconn) hrun
  have hreturned : x.returned <+: pieces.flatten := (List.prefix_append _ _).trans hr.stored
  rw [← hs.accepted_eq]
  exact hreturned.trans (List.prefix_append _ _)

/-! ## Examples of transfers -/

theorem own_nil (cid : ℕ) {h : TimerHeap} (hnil : h.elems = []) : Own cid h := by
  intro n hn
  rw [hnil] at hn
  cases hn

/-- A client and a server that agree on the numbers 1 and 1. -/
theorem exists_connected : ∃ c s, Connected c s ∧ Lockstep 1 0 (Endpoints.start c s) ∧
    c.stb.tc.tRto = touInitTimeo := by
  obtain ⟨c, hc, hopen, huna, hnxt, hawnd⟩ := exists_idle_client
  obtain ⟨q, _, hlisten, hsyn, hrcv⟩ := exists_listener
  obtain ⟨s, hs⟩ := touAccept_returns 0 425984 (segmentFrom ⟨1, 70⟩ 1 1 []) (by decide) hsyn
  have hcr := (touConnect_result hc).2
  have hsr : AcceptResult q 0 (segmentFrom ⟨1, 70⟩ 1 1 []) s := by
    rcases touAccept_result hs with ⟨_, hr⟩ | ⟨h, _⟩
    · exact hr
    · cases h
  have hpeer : Opened s := Opened.accept hlisten hs
  have hcrcv : c.stb.tc.rcvNxt = 1 := by
    rw [hcr.rcvNxt_eq]
    decide +kernel
  have hsuna : s.stb.tc.sndUna = 1 := by
    rw [hsr.sndUna_eq]
    decide +kernel
  have hsnxt : s.stb.tc.sndNxt = 1 := hsr.sndNxt_eq
  have hsrcv : s.stb.tc.rcvNxt = 1 := hsr.rcvNxt_eq.trans hrcv
  have hwnd : (touConnect (Process.init 3 1) ⟨2, 80⟩ 425984 (synAckFrom ⟨2, 80⟩ 0 1)).toOption.map
      (fun r => (r.2.stb.tc.ccState, r.2.stb.tc.sndSsthresh, r.2.stb.tc.sndCwnd, r.2.stb.tc.tRto)) =
        some (.ss, touMaxSsthresh, 2912, touInitTimeo) := by decide +kernel
  rw [hc] at hwnd
  simp only [Except.toOption, Option.map_some, Option.some.injEq, Prod.mk.injEq] at hwnd
  obtain ⟨hcc, hth, hcwnd, hrto⟩ := hwnd
  have hcf := hopen.fresh
  have hsf := hpeer.fresh
  refine ⟨c, s, ⟨hopen, hpeer, Or.inl ⟨by omega, by omega, by omega, by omega⟩⟩,
    ⟨⟨own_nil _ hcf.1.timerheap, hcf.2, hcf.1.runstate, hcf.1.cbSend, hnxt, ?_, ?_, hcc, hth, ?_, ?_, ?_⟩,
      by decide, ⟨hsf.2, hsf.1.runstate, hsf.1.minhpRecv, hsf.1.ackReady⟩, hsrcv, ?_, ?_⟩, hrto⟩
  · show c.stb.tc.sndUna + 0 = 1
    omega
  · show c.stb.tc.rcvNxt < _
    omega
  · show 2912 ≤ c.stb.tc.sndCwnd
    omega
  · show c.stb.tc.sndCwnd ≤ _
    omega
  · show 2912 ≤ c.stb.tc.sndAwnd
    omega
  · show s.stb.tc.sndNxt < _
    omega
  · intro _
    rfl

/-- The 4322nd segment of 65s is acknowledged and lost. The receiver takes what it has, and the next bytes
that it gets are 66s. -/
theorem overflow_corrupts : ∃ a b x, Connected a b ∧
    Relation.ReflTransGen (NetStep fun _ _ => True) (Endpoints.start a b) x ∧
    ¬ x.returned <+: x.accepted := by
  obtain ⟨a, b, hconn, h₀, _⟩ := exists_connected
  obtain ⟨x1, f1, hx1, h1, hacc1, hret1, hcb1⟩ := h₀.fill rfl hconn.peer_opened.fresh.1.cbRecv 65 4321
    (le_refl _)
  obtain ⟨x2, f2, hx2, h2, hacc2, hret2, hlost⟩ := h1.round (C := fun _ _ => True) (by decide)
    (List.length_replicate : (List.replicate 1456 (65 : Byte)).length = 1456) fun _ _ => trivial
  have hcb2 := congrArg RingBuf.contents (hlost.no_room (by
    rw [RingBuf.getAvSize_eq, hcb1, List.length_replicate, List.length_replicate]
    decide))
  obtain ⟨x3, hx3, h3, hacc3, hret3, hcb3⟩ := h2.drain (C := fun _ _ => True)
  obtain ⟨x4, f4, hx4, h4, hacc4, hret4, hstored⟩ := h3.round (C := fun _ _ => True) (by decide)
    (List.length_replicate : (List.replicate 1456 (66 : Byte)).length = 1456) fun _ _ => trivial
  have hcb4 := hstored.room (by
    rw [RingBuf.getAvSize_eq, hcb3, List.length_replicate]
    decide)
  obtain ⟨x5, hx5, _, hacc5, hret5, _⟩ := h4.drain (C := fun _ _ => True)
  refine ⟨a, b, x5, hconn, ((((hx1.trans hx2).tail hx3).trans hx4).tail hx5), ?_⟩
  have hreturned : x5.returned = List.replicate (1456 * 4321) 65 ++ List.replicate 1456 66 := by
    rw [hret5, hret4, hret3, hret2, hret1, hcb4, hcb3, hcb2, hcb1]
    rfl
  have haccepted : x5.accepted = List.replicate (1456 * 4321) 65 ++
      (List.replicate 1456 65 ++ List.replicate 1456 66) := by
    rw [hacc5, hacc4, hacc3, hacc2, hacc1, List.append_assoc]
  rw [hreturned, haccepted, List.prefix_append_right_inj]
  rintro ⟨rest, h⟩
  have heq := (List.append_inj h (List.length_replicate.trans List.length_replicate.symm)).1
  have hmem : (66 : Byte) ∈ List.replicate 1456 (65 : Byte) :=
    heq ▸ List.mem_replicate.mpr ⟨by decide, rfl⟩
  exact absurd (List.eq_of_mem_replicate hmem) (by decide)

/-- One full segment arrives. -/
theorem end_to_end_segment : ∃ a b x, Connected a b ∧
    Relation.ReflTransGen (NetStep RoomForNext) (Endpoints.start a b) x ∧ x.returned ≠ [] ∧
    x.returned <+: x.accepted := by
  obtain ⟨a, b, hconn, h₀, _⟩ := exists_connected
  have hempty : b.stb.cbRecv.contents = [] := hconn.peer_opened.fresh.1.cbRecv
  have hlen : (List.replicate 1456 (65 : Byte)).length = 1456 := List.length_replicate
  obtain ⟨x1, f1, hx1, h1, _, _, hstored⟩ := h₀.round (C := RoomForNext) (by decide) hlen (by
    intro d hd _ d' rest hpend _
    rw [← (List.cons.inj hpend).1, hd, hlen]
    show _ < b.stb.cbRecv.getAvSize
    rw [RingBuf.getAvSize_eq, hempty]
    decide)
  have hcb := hstored.room (by
    rw [hlen]
    show _ < b.stb.cbRecv.getAvSize
    rw [RingBuf.getAvSize_eq, hempty]
    decide)
  obtain ⟨x2, hx2, _, _, hret, _⟩ := h1.drain (C := RoomForNext)
  have hrun := hx1.tail hx2
  refine ⟨a, b, x2, hconn, hrun, ?_, end_to_end a b x2 hconn hrun⟩
  intro hnil
  have hlength := congrArg List.length (hnil.symm.trans hret)
  rw [hcb, List.length_append, List.length_append, hlen, List.length_nil] at hlength
  omega

end Process
end TcpOverUdp
