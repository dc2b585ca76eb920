import TcpOverUdp.Proof.RunEnds

/-! # The handshake

`touConnect` and `touAccept` set `ESTABLISHED` whatever datagram they were waiting for. The two ends
agree on their four numbers, then and as long as no data is sent, if and only if the two datagrams are
the SYN-ACK and the ACK of this handshake (`handshake_safe_iff`).
-/
namespace TcpOverUdp
open MachineInt
set_option autoImplicit false

namespace Process

/-! ## A connection without data -/

/-- One operation of a process whose application sends nothing, on datagrams without payload. -/
inductive QuietStep : Process → Process → Prop
  | send {now : ℕ} {p q : Process} (h : Process.send now p = .ok q) : QuietStep p q
  | touRecv (p : Process) (len : ℤ) : QuietStep p (Process.touRecv p len).2.2
  | run {now : ℕ} {p : Process} {pending : List Datagram} {r : RunRes}
      (hD : ∀ d ∈ pending, (recvPkg d).buf = []) (h : Process.run now p pending = .ok r) :
      QuietStep p r.pr
  | delack {now : ℕ} {p q : Process} (h : timerProcDelack now p = .ok q) : QuietStep p q
  | sndpkt {now : ℕ} {p q : Process} (h : timerProcSndpkt now p = .ok q) : QuietStep p q

/-- The sockets on which handshakes were made, any number of them, and no data was sent. -/
inductive NoData : Process → Prop
  | socket (sockfd : ℕ) (stp : SockPtr) : NoData (Process.init sockfd stp)
  | listen {p : Process} (hp : NoData p) : NoData (touListen p)
  | connect {p : Process} {sockDst : Addr} {rcvbuf : ℤ} {d : Datagram} {r : Bool × Process}
      (hp : NoData p) (h : touConnect p sockDst rcvbuf d = .ok r) : NoData r.2
  | accept {p : Process} {rand : ℕ} {rcvbuf : ℤ} {d : Datagram} {r : Bool × Process}
      (hp : NoData p) (h : touAccept p rand rcvbuf d = .ok r) : NoData r.2
  | quiet {p q : Process} (hp : NoData p) (h : QuietStep p q) : NoData q

structure Unsent (p : Process) : Prop where
  runstate : p.stb.runstate = .getPkt
  cbSend : p.stb.cbSend.contents = []

theorem Unsent.of_table {p q : Process} (hp : Unsent p) (hr : q.stb.runstate = p.stb.runstate)
    (hc : q.stb.cbSend = p.stb.cbSend) : Unsent q :=
  ⟨hr.trans hp.runstate, by rw [hc]; exact hp.cbSend⟩

/-- What is left of the numbers of `p₀`: all of them, as long as nothing was in flight and the socket
stays established. -/
structure Kept (p₀ p : Process) : Prop where
  unsent : Unsent p
  sndNxt_eq : p.stb.tc.sndNxt = p₀.stb.tc.sndNxt
  sndUna_eq : p₀.stb.tc.sndUna = p₀.stb.tc.sndNxt → p.stb.tc.sndUna = p₀.stb.tc.sndUna
  rcvNxt_eq : p.stb.sockstate = .established → p.stb.tc.rcvNxt = p₀.stb.tc.rcvNxt

theorem Kept.refl {p : Process} (hp : Unsent p) : Kept p p := ⟨hp, rfl, fun _ => rfl, fun _ => rfl⟩

/-- An ACK that was accepted acknowledges nothing new. -/
theorem Kept.acked {p₀ p q : Process} {a : ℕ} (hk : Kept p₀ p) (ha : a ≤ p.stb.tc.sndNxt)
    (h : AckEffect p q a) : Kept p₀ q := by
  have ht := h.table_eq
  have hn := hk.sndNxt_eq
  refine ⟨hk.unsent.of_table (by rw [ht]) (by rw [ht]), h.sndNxt_eq.trans hn, ?_, ?_⟩
  · intro hflight
    have hu := hk.sndUna_eq hflight
    have hmax := h.sndUna_eq
    omega
  · intro hst
    rw [ht] at hst
    exact h.rcvNxt_eq.trans (hk.rcvNxt_eq hst)

theorem Kept.turn {p₀ : Process} {now : ℕ} {s s' : RunSt} (hs : Kept p₀ s.pr ∧ BeforeData s.state)
    (ht : RunTurn (fun d => (recvPkg d).buf = []) now s s') :
    Kept p₀ s'.pr ∧ BeforeData s'.state := by
  obtain ⟨hk, hrec, hsend, hno⟩ := hs
  have hempty : ∀ d, Handling (fun d => (recvPkg d).buf = []) s d →
      s.state ≠ .ackWithDataMatchExpectedSeq ∧ s.state ≠ .ackWithDataMoreExpectedSeq := by
    intro d hd
    have hc := hd.classified
    have hbuf : (recvPkg d).buf.length = 0 := by rw [hd.given, List.length_nil]
    constructor <;> intro hst <;> rw [hst] at hc <;> cases classified_of_ok hc <;>
      · rename_i hdata _
        have hpos := hdata.pos
        omega
  cases ht with
  | @receive d rest st hst hp hc =>
    refine ⟨⟨hk.unsent.of_table rfl rfl, hk.sndNxt_eq, hk.sndUna_eq, hk.rcvNxt_eq⟩, ?_⟩
    exact beforeData_of_classified hc
  | syn | fin =>
    exact ⟨⟨hk.unsent.of_table rfl rfl, hk.sndNxt_eq, hk.sndUna_eq, fun h => by cases h⟩,
      beforeData_procEnd⟩
  | @ack d p1 p2 hst hd h1 h2 =>
    have hc := hd.classified
    rw [hst] at hc
    cases classified_of_ok hc with
    | ack _ hle _ =>
      have hk1 := hk.acked hle (handleAck_effect h1)
      refine ⟨?_, beforeData_procEnd⟩
      show Kept p₀ p2
      rw [send_nothing hk1.unsent.cbSend h2]
      exact hk1
  | inOrder hst hd => exact absurd hst (hempty _ hd).1
  | future hst hd => exact absurd hst (hempty _ hd).2
  | recovered hst | unrecovered hst => exact absurd hst hrec
  | sendback hst => exact absurd hst hsend
  | noSendback hst => exact absurd hst hno
  | @old st hst hnew =>
    refine ⟨⟨hk.unsent.of_table rfl rfl, hk.sndNxt_eq, hk.sndUna_eq, hk.rcvNxt_eq⟩, ?_⟩
    exact beforeData_after hnew

theorem Kept.step {p₀ p q : Process} (hk : Kept p₀ p) (h : QuietStep p q) : Kept p₀ q := by
  cases h with
  | send h =>
    rw [send_nothing hk.unsent.cbSend h]
    exact hk
  | touRecv _ len => exact ⟨hk.unsent.of_table rfl rfl, hk.sndNxt_eq, hk.sndUna_eq, hk.rcvNxt_eq⟩
  | @run now _ pending r hD h =>
    obtain ⟨s, hs, hr⟩ := run_inv h hD (fun s => Kept p₀ s.pr ∧ BeforeData s.state)
      ⟨hk, beforeData_start hk.unsent.runstate pending⟩
      (fun _ _ _ _ hs ht => Kept.turn hs ht)
    rw [hr]
    exact hs.1
  | delack h =>
    have ht := (timerProcDelack_effect h).table_eq
    refine ⟨hk.unsent.of_table (by rw [ht]; rfl) (by rw [ht]; rfl), ?_, ?_, ?_⟩ <;> rw [ht]
    · exact hk.sndNxt_eq
    · exact hk.sndUna_eq
    · exact hk.rcvNxt_eq
  | sndpkt h =>
    have he := timerProcSndpkt_effect h
    have ht := he.table_eq
    have hs := he.tc_same
    refine ⟨hk.unsent.of_table (by rw [ht]) (by rw [ht]), hs.sndNxt.trans hk.sndNxt_eq,
      fun hf => hs.sndUna.trans (hk.sndUna_eq hf), ?_⟩
    intro hst
    rw [ht] at hst
    exact hs.rcvNxt.trans (hk.rcvNxt_eq hst)

theorem Kept.run {p q : Process} (hp : Unsent p) (h : Relation.ReflTransGen QuietStep p q) : Kept p q :=
  reach_inv (Kept p) (fun _ _ hk hst => hk.step hst) (Kept.refl hp) h

theorem NoData.unsent {p : Process} (h : NoData p) : Unsent p := by
  induction h with
  | socket sockfd stp => exact ⟨(fresh_init sockfd stp).runstate, (fresh_init sockfd stp).cbSend⟩
  | listen _ ih => exact ih.of_table rfl rfl
  | connect _ h ih =>
    obtain ⟨tc, ht⟩ := (touConnect_result h).2.table_eq
    exact ih.of_table (by rw [ht]) (by rw [ht])
  | accept _ h ih =>
    rcases touAccept_result h with ⟨_, hr⟩ | ⟨_, _, ⟨tc, ht, _⟩, _⟩
    · obtain ⟨tc, ht⟩ := hr.table_eq
      exact ih.of_table (by rw [ht]) (by rw [ht])
    · exact ih.of_table (by rw [ht]) (by rw [ht])
  | quiet _ h ih => exact ((Kept.refl ih).step h).unsent

/-! ## Agreement -/

/-- Each end expects what the other sends next, and nothing is in flight. -/
structure Agree (c s : Process) : Prop where
  client_acked : c.stb.tc.sndUna = c.stb.tc.sndNxt
  server_expects : s.stb.tc.rcvNxt = c.stb.tc.sndNxt
  server_acked : s.stb.tc.sndUna = s.stb.tc.sndNxt
  client_expects : c.stb.tc.rcvNxt = s.stb.tc.sndNxt

/-- `c` and `s` were left by `touConnect`, which received `d1`, and `touAccept`, which received `d2`.
Both had reason to establish the connection, and they agree as long as it is established without data. -/
structure HandshakeSafe (c : Process) (d1 : Datagram) (s : Process) (d2 : Datagram) : Prop where
  connect : (recvPkg d1).t.syn = true ∧ (recvPkg d1).t.ack = true ∧
    (recvPkg d1).t.ackSeq = c.stb.tc.sndNxt
  accept : (recvPkg d2).t.ack = true ∧ (recvPkg d2).t.ackSeq = s.stb.tc.sndNxt ∧
    (recvPkg d2).t.seq = s.stb.tc.rcvNxt
  agree : ∀ c' s', Relation.ReflTransGen QuietStep c c' → Relation.ReflTransGen QuietStep s s' →
    c'.stb.sockstate = .established → s'.stb.sockstate = .established → Agree c' s'

/-- The datagrams of one handshake: the SYN that `q` handled, its SYN-ACK and the ACK to that. -/
structure OneHandshake (rand : ℕ) (q : Process) (d1 d2 : Datagram) : Prop where
  syn : q.stb.tc.rcvNxt = 1
  synAck : (recvPkg d1).t.syn = true ∧ (recvPkg d1).t.ack = true ∧ (recvPkg d1).t.ackSeq = 1 ∧
    (recvPkg d1).t.seq = rand % 65535
  ack : (recvPkg d2).t.ack = true ∧ (recvPkg d2).t.ackSeq = rand % 65535 + 1 ∧ (recvPkg d2).t.seq = 1

theorem recvPkg_seq_lt (d : Datagram) : (recvPkg d).t.seq < 4294967296 := readWord32_lt _ _

/-- Whatever the two blocking `recvfrom`s deliver, and whatever happened on the two sockets before, the
handshake is safe if and only if they delivered its SYN-ACK and its ACK. -/
theorem handshake_safe_iff {p q c s : Process} {sockDst : Addr} {rcvbuf1 rcvbuf2 : ℤ} {rand : ℕ}
    {d1 d2 : Datagram} (hp : NoData p) (hq : NoData q)
    (hc : touConnect p sockDst rcvbuf1 d1 = .ok (true, c))
    (hs : touAccept q rand rcvbuf2 d2 = .ok (true, s)) :
    HandshakeSafe c d1 s d2 ↔ OneHandshake rand q d1 d2 := by
  have hcr : ConnectResult p sockDst d1 c := (touConnect_result hc).2
  have hcn := hcr.sndNxt_eq
  have hcu := hcr.sndUna_eq
  have hcv := hcr.rcvNxt_eq
  have hsr : AcceptResult q rand d2 s := by
    rcases touAccept_result hs with ⟨_, hr⟩ | ⟨h, _⟩
    · exact hr
    · cases h
  have hsn := hsr.sndNxt_eq
  have hsu := hsr.sndUna_eq
  have hsv := hsr.rcvNxt_eq
  have hcest : c.stb.sockstate = .established := by
    obtain ⟨tc, ht⟩ := hcr.table_eq
    rw [ht]
  have hsest : s.stb.sockstate = .established := by
    obtain ⟨tc, ht⟩ := hsr.table_eq
    rw [ht]
  have hseq := recvPkg_seq_lt d1
  constructor
  · intro h
    have ha := h.agree c s Relation.ReflTransGen.refl Relation.ReflTransGen.refl hcest hsest
    have h1 := ha.server_expects
    have h2 := ha.client_expects
    have hsyn : (recvPkg d1).t.seq = rand % 65535 := by
      have hnum : u32 (((recvPkg d1).t.seq : ℤ) + 1) = rand % 65535 + 1 := by omega
      unfold u32 at hnum
      omega
    obtain ⟨hf1, hf2, hf3⟩ := h.connect
    obtain ⟨hg1, hg2, hg3⟩ := h.accept
    exact ⟨by omega, ⟨hf1, hf2, by omega, hsyn⟩, ⟨hg1, by omega, by omega⟩⟩
  · rintro ⟨hsyn, ⟨hf1, hf2, hf3, hf4⟩, ⟨hg1, hg2, hg3⟩⟩
    have hrcv : c.stb.tc.rcvNxt = rand % 65535 + 1 := by
      rw [hcv, hf4]
      exact u32_add _ 1 (by omega)
    rw [if_pos hg2.symm] at hsu
    refine ⟨⟨hf1, hf2, by omega⟩, ⟨hg1, by omega, by omega⟩, ?_⟩
    intro c' s' hc' hs' hc'est hs'est
    have hkc : Kept c c' := Kept.run (hp.connect hc).unsent hc'
    have hks : Kept s s' := Kept.run (hq.accept hs).unsent hs'
    have hcn' := hkc.sndNxt_eq
    have hcu' := hkc.sndUna_eq (by omega)
    have hcv' := hkc.rcvNxt_eq hc'est
    have hsn' := hks.sndNxt_eq
    have hsu' := hks.sndUna_eq (by omega)
    have hsv' := hks.rcvNxt_eq hs'est
    exact ⟨by omega, by omega, by omega, by omega⟩

/-! ## Examples of handshakes -/

theorem touAccept_returns {p : Process} (rand : ℕ) (rcvbuf : ℤ) (d : Datagram) (hbuf : rcvbuf > 0)
    (hp : p.stb.sockstate = .synReceived) : ∃ q, touAccept p rand rcvbuf d = .ok (true, q) := by
  unfold touAccept touAcceptSynAck
  simp only
  rw [if_pos hbuf]
  split
  · rw [ok_bind, if_pos rfl]
    exact ⟨_, rfl⟩
  · rename_i hne
    exact absurd hp hne

/-- A SYN as `touConnect` sends it. -/
def synFrom (src : Addr) : Datagram :=
  { src := src, bytes := ((ackpkt.putHeaderSeq 0 0).setSyn true).toString }

theorem exists_listener : ∃ q, NoData q ∧ Listening q ∧ q.stb.sockstate = .synReceived ∧
    q.stb.tc.rcvNxt = 1 := by
  have hrun : (run 5 (touListen (Process.init 4 2)) [synFrom ⟨1, 70⟩]).toOption.map
      (fun r => (r.pr.stb.sockstate, r.pr.stb.tc.rcvNxt)) = some (.synReceived, 1) := by decide +kernel
  cases hr : run 5 (touListen (Process.init 4 2)) [synFrom ⟨1, 70⟩] with
  | error e =>
    rw [hr] at hrun
    cases hrun
  | ok r =>
    rw [hr] at hrun
    simp only [Except.toOption, Option.map_some, Option.some.injEq, Prod.mk.injEq] at hrun
    refine ⟨r.pr, (NoData.listen (NoData.socket 4 2)).quiet (QuietStep.run ?_ hr),
      (Listening.listen 4 2).run hr, hrun.1, hrun.2⟩
    intro d hd
    rw [List.mem_singleton.mp hd]
    decide +kernel

theorem handshake_safe_oneHandshake : ∃ c s,
    HandshakeSafe c (synAckFrom ⟨2, 80⟩ 7 1) s (segmentFrom ⟨1, 70⟩ 1 8 []) := by
  obtain ⟨c, hc⟩ := touConnect_returns (Process.init 3 1) ⟨2, 80⟩ 425984
    (synAckFrom ⟨2, 80⟩ 7 1) (by decide) (by decide)
  obtain ⟨q, hq, _, hsyn, hrcv⟩ := exists_listener
  obtain ⟨s, hs⟩ := touAccept_returns 7 425984 (segmentFrom ⟨1, 70⟩ 1 8 []) (by decide) hsyn
  refine ⟨c, s, (handshake_safe_iff (NoData.socket 3 1) hq hc hs).mpr ⟨hrcv, ?_, ?_⟩⟩
  · decide +kernel
  · decide +kernel

/-- 16 zero bytes from anywhere complete both `touConnect` and `touAccept`. -/
theorem zero_datagrams_establish : ∃ q c s, NoData q ∧
    touConnect (Process.init 3 1) ⟨2, 80⟩ 425984 zeroDatagram = .ok (true, c) ∧
    touAccept q 7 425984 zeroDatagram = .ok (true, s) ∧
    c.stb.sockstate = .established ∧ s.stb.sockstate = .established ∧
    ¬ HandshakeSafe c zeroDatagram s zeroDatagram ∧ ¬ Agree c s := by
  obtain ⟨c, hc⟩ := touConnect_returns (Process.init 3 1) ⟨2, 80⟩ 425984
    zeroDatagram (by decide) (by decide)
  obtain ⟨q, hq, _, hsyn, _⟩ := exists_listener
  obtain ⟨s, hs⟩ := touAccept_returns 7 425984 zeroDatagram (by decide) hsyn
  have hcr : ConnectResult (Process.init 3 1) ⟨2, 80⟩ zeroDatagram c := (touConnect_result hc).2
  have hflag : (recvPkg zeroDatagram).t.syn = false ∧ (recvPkg zeroDatagram).t.ackSeq = 0 := by
    decide +kernel
  refine ⟨q, c, s, hq, hc, hs, ?_, ?_, ?_, ?_⟩
  · obtain ⟨tc, ht⟩ := hcr.table_eq
    rw [ht]
  · rcases touAccept_result hs with ⟨_, hr⟩ | ⟨h, _⟩
    · obtain ⟨tc, ht⟩ := hr.table_eq
      show s.stb.sockstate = .established
      rw [ht]
    · cases h
  · intro h
    have hsyn := h.connect.1
    rw [hflag.1] at hsyn
    cases hsyn
  · intro h
    have h1 := h.client_acked
    rw [hcr.sndUna_eq, hcr.sndNxt_eq, hflag.2] at h1
    cases h1

end Process
end TcpOverUdp
