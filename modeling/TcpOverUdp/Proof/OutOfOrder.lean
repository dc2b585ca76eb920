import TcpOverUdp.Proof.Sessions

/-! # Packets that arrive ahead

The segments of a stream arrive in any order. As long as no segment is pushed into `minhp_recv` while it
is there already, the packets in it have different numbers, all at or above `rcv_nxt`, and recovery never
meets one below. `pushHpRecvBuf` itself does not look.
-/
namespace TcpOverUdp
open MachineInt Pieces
set_option autoImplicit false

namespace Process

/-- The packet is one of the segments. -/
structure IsPiece (base : ℕ) (pieces : List (List Byte)) (tp : TouPkg) : Prop where
  pos : 0 < tp.buf.length
  mem : (tp.t.seq, tp.buf) ∈ numbered base pieces

section Pieces
variable {base : ℕ} {pieces : List (List Byte)} {tp : TouPkg}

theorem IsPiece.end_boundary (h : IsPiece base pieces tp) :
    Boundary base pieces (tp.t.seq + tp.buf.length) := boundary_end h.mem

theorem IsPiece.behind (h : IsPiece base pieces tp) {b : ℕ} (hb : Boundary base pieces b)
    (hlt : tp.t.seq < b) : tp.t.seq + tp.buf.length ≤ b := by
  rcases boundary_not_inside hb h.mem with hle | hle
  · simp only at hle
    omega
  · exact hle

theorem IsPiece.fits (h : IsPiece base pieces tp) (hlen : base + pieces.flatten.length < 4294967296) :
    u32 ((tp.t.seq : ℤ) + tp.buf.length) = tp.t.seq + tp.buf.length := by
  have hle := h.end_boundary.le_last
  exact u32_add _ _ (by omega)

end Pieces

/-! ## The invariant -/

/-- The packets in `minhp_recv` are different segments, none of which begins below `rcv_nxt`. -/
structure Ahead (base : ℕ) (pieces : List (List Byte)) (stb : SockTb) : Prop where
  boundary : Boundary base pieces stb.tc.rcvNxt
  held : ∀ pkt ∈ stb.minhpRecv.elems, IsPiece base pieces pkt
  nodup : (stb.minhpRecv.elems.map fun pkt => pkt.t.seq).Nodup
  ge : ∀ pkt ∈ stb.minhpRecv.elems, stb.tc.rcvNxt ≤ pkt.t.seq

/-- None begins at `rcv_nxt` either. -/
def Gap (stb : SockTb) : Prop := ∀ pkt ∈ stb.minhpRecv.elems, stb.tc.rcvNxt < pkt.t.seq

/-- The tables agree in what recovery reads, `cb_recv` apart. -/
structure OrderSame (a b : SockTb) : Prop where
  minhpRecv_eq : b.minhpRecv = a.minhpRecv
  rcvNxt_eq : b.tc.rcvNxt = a.tc.rcvNxt
  runstate_eq : b.runstate = a.runstate

theorem RecvSame.orderSame {a b : SockTb} (h : RecvSame a b) : OrderSame a b :=
  ⟨h.minhpRecv_eq, h.rcvNxt_eq, h.runstate_eq⟩

section Ahead
variable {base : ℕ} {pieces : List (List Byte)} {a b : SockTb}

theorem Ahead.of_eq (h : Ahead base pieces a) (hm : b.minhpRecv = a.minhpRecv)
    (hr : b.tc.rcvNxt = a.tc.rcvNxt) : Ahead base pieces b := by
  refine ⟨?_, ?_, ?_, ?_⟩
  · rw [hr]
    exact h.boundary
  · rw [hm]
    exact h.held
  · rw [hm]
    exact h.nodup
  · rw [hm, hr]
    exact h.ge

theorem Gap.of_eq (h : Gap a) (hm : b.minhpRecv = a.minhpRecv) (hr : b.tc.rcvNxt = a.tc.rcvNxt) :
    Gap b := by
  unfold Gap
  rw [hm, hr]
  exact h

/-- Counting the least packet and popping it leaves the others at or above the new `rcv_nxt`. -/
theorem Ahead.popped (h : Ahead base pieces a) (hlen : base + pieces.flatten.length < 4294967296)
    {top : TouPkg} (htop : a.minhpRecv.top? = some top) (hseq : top.t.seq = a.tc.rcvNxt)
    (hm : b.minhpRecv = a.minhpRecv.pop) (hr : b.tc.rcvNxt = u32 ((top.t.seq : ℤ) + top.buf.length)) :
    Ahead base pieces b := by
  have helems := MinHeap.top?_eq_some htop
  have hpiece := h.held top (MinHeap.mem_of_top? htop)
  have hnext : b.tc.rcvNxt = top.t.seq + top.buf.length := hr.trans (hpiece.fits hlen)
  have hnodup := h.nodup
  rw [helems, List.map_cons, List.nodup_cons] at hnodup
  refine ⟨?_, fun pkt hp => h.held pkt (MinHeap.mem_of_mem_pop (hm ▸ hp)), ?_, ?_⟩
  · rw [hnext]
    exact hpiece.end_boundary
  · rw [hm]
    exact hnodup.2
  · intro pkt hp
    rw [hm] at hp
    have hmem := MinHeap.mem_of_mem_pop hp
    have hge : a.tc.rcvNxt ≤ pkt.t.seq := h.ge pkt hmem
    have hne : top.t.seq ≠ pkt.t.seq := fun he => hnodup.1 (he ▸ List.mem_map_of_mem hp)
    rw [hnext]
    exact hpiece.behind (boundary_start (h.held pkt hmem).mem) (by omega)

theorem Ahead.moved (h : Ahead base pieces a) (hlen : base + pieces.flatten.length < 4294967296)
    {top : TouPkg} {n : ℤ} {cb : SockBuf} (hoff : Offered a top n cb) :
    Ahead base pieces (movedTable a top cb) := h.popped hlen hoff.top_eq hoff.seq_eq rfl rfl

/-- Recovery keeps the invariant. When it succeeds, no packet is left at `rcv_nxt`. -/
theorem Ahead.recovery (h : Ahead base pieces a) (hlen : base + pieces.flatten.length < 4294967296)
    {r : ℤ × SockTb} (hr : procPktRec a = .ok r) : Ahead base pieces r.2 :=
  procPktRec_inv hr (Ahead base pieces) h (fun _ _ _ _ hoff _ ha => ha.moved hlen hoff)
    (fun _ _ _ _ _ _ ha => ha.of_eq rfl rfl) fun _ ha => ha.of_eq rfl rfl

theorem recovery_gap {stb : SockTb} (h : procPktRec a = .ok (0, stb)) : Gap stb := by
  rcases procPktRec_cases a with ⟨hempty, hr⟩ | ⟨res, hres, hr⟩
  · rw [hr] at h
    cases h
    intro pkt hp
    rw [List.isEmpty_iff.mp hempty] at hp
    cases hp
  · rw [hr] at h
    obtain ⟨x, rfl, hx⟩ := of_bind_ok h
    obtain ⟨hzero, hstb⟩ := Prod.mk.inj (Except.ok.inj hx)
    rw [← hstb]
    refine Gap.of_eq (a := x.2) ?_ rfl rfl
    clear hr h hx hstb
    generalize hok : (Except.ok x : Except Halt (ℤ × SockTb)) = res at hres
    induction hres with
    | empty hnone =>
      cases hok
      intro pkt hp
      rw [MinHeap.top?_eq_none.mp hnone] at hp
      cases hp
    | gap htop hlt =>
      cases hok
      intro pkt hp
      have hle := MinHeap.top?_le htop hp
      exact lt_of_lt_of_le hlt hle
    | refused =>
      cases hok
      cases hzero
    | failed => cases hok
    | moved _ _ _ ih => exact ih hok

theorem Ahead.recovery_returns (h : Ahead base pieces a)
    (hlen : base + pieces.flatten.length < 4294967296) : ∃ r, procPktRec a = .ok r := by
  rcases procPktRec_cases a with ⟨_, hr⟩ | ⟨res, hres, hr⟩
  · exact ⟨_, hr⟩
  · suffices hok : ∃ x, res = .ok x by
      obtain ⟨x, rfl⟩ := hok
      exact ⟨_, hr⟩
    clear hr
    induction hres with
    | empty | gap | refused => exact ⟨_, rfl⟩
    | failed htop hlt =>
      have hge := h.ge _ (MinHeap.mem_of_top? htop)
      omega
    | moved hoff _ _ ih => exact ih (h.moved hlen hoff)

theorem Ahead.push (h : Ahead base pieces a) {tp : TouPkg} (hp : IsPiece base pieces tp)
    (hgt : a.tc.rcvNxt < tp.t.seq) (hnew : ∀ pkt ∈ a.minhpRecv.elems, pkt.t.seq ≠ tp.t.seq) :
    Ahead base pieces { a with minhpRecv := a.minhpRecv.push tp } := by
  refine ⟨h.boundary, ?_, ?_, ?_⟩
  · intro pkt hpkt
    rcases (MinHeap.mem_push _ _ _).mp hpkt with rfl | hpkt
    · exact hp
    · exact h.held pkt hpkt
  · have hperm := (MinHeap.push_perm a.minhpRecv tp).map fun pkt => pkt.t.seq
    rw [hperm.nodup_iff, List.map_cons, List.nodup_cons]
    refine ⟨?_, h.nodup⟩
    intro hmem
    obtain ⟨pkt, hpkt, he⟩ := List.mem_map.mp hmem
    exact hnew pkt hpkt he
  · intro pkt hpkt
    rcases (MinHeap.mem_push _ _ _).mp hpkt with rfl | hpkt
    · exact le_of_lt hgt
    · exact h.ge pkt hpkt

theorem Ahead.advance (h : Ahead base pieces a) (hgap : Gap a) {tp : TouPkg}
    (hp : IsPiece base pieces tp) (hseq : tp.t.seq = a.tc.rcvNxt) (hm : b.minhpRecv = a.minhpRecv)
    (hr : b.tc.rcvNxt = tp.t.seq + tp.buf.length) : Ahead base pieces b := by
  refine ⟨?_, by rw [hm]; exact h.held, by rw [hm]; exact h.nodup, ?_⟩
  · rw [hr]
    exact hp.end_boundary
  · intro pkt hpkt
    rw [hm] at hpkt
    have hgt : a.tc.rcvNxt < pkt.t.seq := hgap pkt hpkt
    rw [hr]
    exact hp.behind (boundary_start (h.held pkt hpkt).mem) (by omega)

end Ahead

/-! ## Turns -/

/-- A segment about to be pushed into `minhp_recv` is not in it yet. -/
def NotHeld (s : RunSt) : Prop :=
  s.state = .ackWithDataMoreExpectedSeq → ∀ tp, s.tp = some tp →
    ∀ pkt ∈ s.pr.stb.minhpRecv.elems, pkt.t.seq ≠ tp.t.seq

/-- The automaton between two turns: packets wait at `rcv_nxt` only while recovery is still to come. -/
structure InOrderSt (base : ℕ) (pieces : List (List Byte)) (s : RunSt) : Prop where
  ahead : Ahead base pieces s.pr.stb
  gap : s.state ≠ .pktRecovery → s.pr.stb.runstate = .getPkt → Gap s.pr.stb
  recovering : s.pr.stb.runstate = .pktRecovery →
    s.state = .pktRecovery ∨ s.state = .ackDatarecsuccNoSendbackAck ∨ s.state = .procEnd

section Turn
variable {base : ℕ} {pieces : List (List Byte)} {D : Datagram → Prop} {now : ℕ} {s s' : RunSt}

theorem InOrderSt.same (hs : InOrderSt base pieces s) {q : Process} {st : ProcState}
    (h : OrderSame s.pr.stb q.stb) (h1 : s.state ≠ .pktRecovery) (hout : PutOff (s.goto q st)) :
    InOrderSt base pieces (s.goto q st) := by
  refine ⟨hs.ahead.of_eq h.minhpRecv_eq h.rcvNxt_eq, fun _ hrun => ?_, hout⟩
  exact (hs.gap h1 (h.runstate_eq ▸ hrun)).of_eq h.minhpRecv_eq h.rcvNxt_eq

theorem InOrderSt.turn (hlen : base + pieces.flatten.length < 4294967296)
    (hD : ∀ d, D d → IsData (recvPkg d) ∧ IsPiece base pieces (recvPkg d))
    (hs : InOrderSt base pieces s) (hnew : NotHeld s) (ht : RunTurn D now s s') :
    InOrderSt base pieces s' := by
  have hdata : ∀ d, Handling D s d → IsData (recvPkg d) ∧ IsPiece base pieces (recvPkg d) :=
    fun d hd => hD d hd.given
  have hput : PutOff s := hs.recovering
  have hout : PutOff s' := hput.turn ht
  cases ht with
  | @receive d rest st hst hp hc =>
    have hgap : Gap s.pr.stb := by
      rcases hst with hst | hst <;>
        exact hs.gap (by rw [hst]; decide)
          (hput.runstate_eq hst (by decide))
    exact ⟨hs.ahead, fun _ _ => hgap, hout⟩
  | syn hst hd =>
    have hc := hd.classified
    rw [hst] at hc
    cases classified_of_ok hc with
    | syn h => exact absurd (hdata _ hd).1.syn (by rw [h]; decide)
  | fin hst => exact hs.same ⟨rfl, rfl, rfl⟩ (by rw [hst]; decide) hout
  | ack hst hd h1 h2 => exact hs.same (ack_recvSame h1 h2).orderSame (by rw [hst]; decide) hout
  | recovered hst hr =>
    have hgap := recovery_gap hr
    exact ⟨(hs.ahead.recovery hlen hr).of_eq rfl rfl, fun _ _ => hgap.of_eq rfl rfl, hout⟩
  | unrecovered hst _ hr =>
    exact ⟨(hs.ahead.recovery hlen hr).of_eq rfl rfl, fun _ h => (by cases h), hout⟩
  | @inOrder d hst hd =>
    have hrun := hput.runstate_eq hst (by decide)
    have hgap := hs.gap (by rw [hst]; decide) hrun
    have hpiece := (hdata d hd).2
    have hc := hd.classified
    rw [hst] at hc
    cases classified_of_ok hc with
    | inOrder _ _ hseq =>
      obtain ⟨cb, hput⟩ := inOrder_frame s.pr.stb (recvPkg d)
      rw [hput]
      exact ⟨hs.ahead.advance hgap hpiece hseq rfl (hpiece.fits hlen), fun h => absurd rfl h,
        fun _ => Or.inl rfl⟩
  | old hst => exact hs.same ⟨rfl, rfl, rfl⟩ (by rw [hst]; decide) hout
  | @future d hst hd =>
    have hrun := hput.runstate_eq hst (by decide)
    have hgap := hs.gap (by rw [hst]; decide) hrun
    have hpiece := (hdata d hd).2
    have hc := hd.classified
    rw [hst] at hc
    cases classified_of_ok hc with
    | future _ _ hseq =>
      have hpush := hs.ahead.push hpiece hseq (hnew hst _ hd.tp_eq)
      refine ⟨?_, ?_, hout⟩
      · rw [pushHpRecvBuf_eq _ hpiece.pos]
        exact hpush.of_eq rfl rfl
      · rw [pushHpRecvBuf_eq _ hpiece.pos]
        intro _ _ pkt hpkt
        rcases (MinHeap.mem_push _ _ _).mp hpkt with rfl | hpkt
        · exact hseq
        · exact hgap pkt hpkt
  | sendback hst h =>
    exact hs.same (procDelack_effect h).recvSame.orderSame (by rw [hst]; decide) hout
  | noSendback hst => exact hs.same ⟨rfl, rfl, rfl⟩ (by rw [hst]; decide) hout

end Turn

/-! ## Runs -/

/-- Every operation but `run` leaves what recovery reads alone, `cb_recv` apart. -/
theorem ProcStepIf.order_or_run {C : ℕ → Process → List Datagram → Prop} {p q : Process}
    (h : ProcStepIf C p q) : OrderSame p.stb q.stb ∨
      ∃ now pending r, C now p pending ∧ Process.run now p pending = .ok r ∧ q = r.pr := by
  have hsend : ∀ {now : ℕ} {a b : Process}, Process.send now a = .ok b →
      OrderSame a.stb b.stb := by
    intro now a b hab
    obtain ⟨pieces, he⟩ := send_ok hab
    have ht := he.table_eq
    exact ⟨by rw [ht], by rw [ht], by rw [ht]⟩
  cases h with
  | @touSend now _ buf len r h =>
    have hs := hsend (touSend_ok h).2
    exact Or.inl ⟨hs.minhpRecv_eq, hs.rcvNxt_eq, hs.runstate_eq⟩
  | send h => exact Or.inl (hsend h)
  | touRecv => exact Or.inl ⟨rfl, rfl, rfl⟩
  | run hC h => exact Or.inr ⟨_, _, _, hC, h, rfl⟩
  | delack h => exact Or.inl (timerProcDelack_effect h).recvSame.orderSame
  | sndpkt h =>
    have heff := timerProcSndpkt_effect h
    have ht := heff.table_eq
    exact Or.inl ⟨by rw [ht], heff.tc_same.rcvNxt, by rw [ht]⟩

/-- A call of `run` on segments of the stream, none of which is pushed into `minhp_recv` while it is
there already. -/
def FreshCall (base : ℕ) (pieces : List (List Byte)) (now : ℕ) (p : Process) (pending : List Datagram) :
    Prop :=
  (∀ d ∈ pending, IsData (recvPkg d) ∧ IsPiece base pieces (recvPkg d)) ∧
    ∀ s, Visits (runStep now) (runSt p pending) s → NotHeld s

/-- The process between two operations. -/
structure Ordered (base : ℕ) (pieces : List (List Byte)) (p : Process) : Prop where
  ahead : Ahead base pieces p.stb
  gap : p.stb.runstate = .getPkt → Gap p.stb

section Runs
variable {base : ℕ} {pieces : List (List Byte)} {now : ℕ} {p q : Process} {pending : List Datagram}

theorem Ordered.start (hp : Ordered base pieces p) (pending : List Datagram) :
    InOrderSt base pieces (runSt p pending) :=
  ⟨hp.ahead, fun _ hrun => hp.gap hrun, fun hrun => Or.inl (runSt_pktRecovery hrun pending)⟩

theorem Ordered.visits (hlen : base + pieces.flatten.length < 4294967296)
    (hp : Ordered base pieces p) (hC : FreshCall base pieces now p pending) {s : RunSt}
    (hv : Visits (runStep now) (runSt p pending) s) : InOrderSt base pieces s :=
  hv.inv (InOrderSt base pieces) (hp.start pending) fun a _ hva ha hab =>
    ha.turn hlen (fun _ hd => hd) (hC.2 a hva) (runStep_turn (visits_fsmOk hC.1 hva) hab).1

theorem Ordered.step (hlen : base + pieces.flatten.length < 4294967296)
    (h : ProcStepIf (FreshCall base pieces) p q) (hp : Ordered base pieces p) :
    Ordered base pieces q := by
  rcases h.order_or_run with hsame | ⟨now, pending, r, hC, hrun, rfl⟩
  · refine ⟨hp.ahead.of_eq hsame.minhpRecv_eq hsame.rcvNxt_eq, fun hr => ?_⟩
    exact (hp.gap (hsame.runstate_eq ▸ hr)).of_eq hsame.minhpRecv_eq hsame.rcvNxt_eq
  · obtain ⟨s, hs, hdone⟩ := run_inv_done (D := fun d => IsData (recvPkg d) ∧
      IsPiece base pieces (recvPkg d)) hrun hC.1 (InOrderSt base pieces) (hp.start pending)
      fun s s' hv _ hs ht => hs.turn hlen (fun _ hd => hd) (hC.2 s hv) ht
    have hne : s.state ≠ .pktRecovery := by
      intro hst
      unfold runStep at hdone
      rw [hst] at hdone
      obtain ⟨_, _, hdone⟩ := of_bind_ok hdone
      split at hdone <;> cases hdone
    rw [runStep_done hdone]
    exact ⟨hs.ahead, hs.gap hne⟩

/-- In every run on the segments of a stream in which no segment is pushed into `minhp_recv` while it is
there already, no call of `run` fails the assertion, and whenever recovery runs no packet in
`minhp_recv` begins below `rcv_nxt`. -/
theorem recovery_assertion (base : ℕ) (pieces : List (List Byte))
    (hlen : base + pieces.flatten.length < 4294967296) (p₀ p : Process)
    (hrcv : Boundary base pieces p₀.stb.tc.rcvNxt) (hempty : p₀.stb.minhpRecv.elems = [])
    (hrun : Relation.ReflTransGen (ProcStepIf (FreshCall base pieces)) p₀ p) (now : ℕ)
    (pending : List Datagram) (hC : FreshCall base pieces now p pending) :
    run now p pending ≠ .error (.assertFail .doProcPktRec) ∧
      ∀ s, Visits (runStep now) (runSt p pending) s → s.state = .pktRecovery →
        ∀ pkt ∈ s.pr.stb.minhpRecv.elems, s.pr.stb.tc.rcvNxt ≤ pkt.t.seq := by
  have h₀ : Ordered base pieces p₀ := by
    refine ⟨⟨hrcv, ?_, ?_, ?_⟩, fun _ => ?_⟩
    · simp [hempty]
    · simp [hempty]
    · simp [hempty]
    · simp [Gap, hempty]
  have hp := reach_inv (Ordered base pieces) (fun _ _ hs hst => hs.step hlen hst) h₀ hrun
  refine ⟨?_, fun s hv _ => (hp.visits hlen hC hv).ahead.ge⟩
  intro herr
  obtain ⟨s, hv, hok, hhalt⟩ := run_halts hC.1 herr
  have hs := hp.visits hlen hC hv
  generalize he : (Halt.assertFail .doProcPktRec) = e at hhalt
  cases hhalt with
  | classify => cases he
  | ack _ _ h => rcases handleAck_error h with ⟨h, _⟩ | ⟨h, _⟩ <;> rw [h] at he <;> cases he
  | recovery _ h =>
    obtain ⟨r, hr⟩ := hs.ahead.recovery_returns hlen
    rw [hr] at h
    cases h
  | delack _ h => rcases procDelack_error h with ⟨h, _⟩ | ⟨h, _⟩ <;> rw [h] at he <;> cases he

end Runs

/-! ## Calls whose segments are all different -/

/-- No number occurs twice among the packets in `minhp_recv`, the one handled and those pending. -/
structure AllDifferent (s : RunSt) : Prop where
  waiting : ∀ pkt ∈ s.pr.stb.minhpRecv.elems, ∀ d ∈ s.pending, pkt.t.seq ≠ (recvPkg d).t.seq
  pending : s.pending.Pairwise fun d d' => (recvPkg d).t.seq ≠ (recvPkg d').t.seq
  handled : Handles s.state → ∀ tp, s.tp = some tp →
    (∀ pkt ∈ s.pr.stb.minhpRecv.elems, pkt.t.seq ≠ tp.t.seq) ∧
      ∀ d ∈ s.pending, tp.t.seq ≠ (recvPkg d).t.seq

theorem AllDifferent.goto {s : RunSt} (hs : AllDifferent s) {q : Process} {st : ProcState}
    (hsub : ∀ pkt ∈ q.stb.minhpRecv.elems, pkt ∈ s.pr.stb.minhpRecv.elems) (hst : ¬ Handles st) :
    AllDifferent (s.goto q st) :=
  ⟨fun pkt hp => hs.waiting pkt (hsub pkt hp), hs.pending, fun h => absurd h hst⟩

theorem AllDifferent.turn {D : Datagram → Prop} {now : ℕ} {s s' : RunSt} (hs : AllDifferent s)
    (ht : RunTurn D now s s') : AllDifferent s' := by
  have hrec : ∀ {r : ℤ × SockTb}, procPktRec s.pr.stb = .ok r →
      ∀ pkt ∈ r.2.minhpRecv.elems, pkt ∈ s.pr.stb.minhpRecv.elems := fun hr =>
    procPktRec_inv hr (fun a => ∀ pkt ∈ a.minhpRecv.elems, pkt ∈ s.pr.stb.minhpRecv.elems)
      (fun _ h => h) (fun _ _ _ _ _ _ ha pkt hp => ha pkt (MinHeap.mem_of_mem_pop hp))
      (fun _ _ _ _ _ _ ha => ha) fun _ ha => ha
  cases ht with
  | @receive d rest st hst hp hc =>
    have hwait := hs.waiting
    have hpend := hs.pending
    rw [hp] at hwait hpend
    obtain ⟨hd, hrest⟩ := List.pairwise_cons.mp hpend
    refine ⟨fun pkt hpkt d' hd' => hwait pkt hpkt d' (List.mem_cons_of_mem d hd'), hrest, ?_⟩
    intro _ tp htp
    cases htp
    exact ⟨fun pkt hpkt => hwait pkt hpkt d List.mem_cons_self, hd⟩
  | syn | fin => exact hs.goto (fun _ h => h) id
  | ack _ _ h1 h2 => exact hs.goto (fun pkt hp => (ack_recvSame h1 h2).minhpRecv_eq ▸ hp) id
  | recovered _ hr => exact hs.goto (hrec hr) id
  | unrecovered _ _ hr => exact hs.goto (hrec hr) id
  | @inOrder d _ _ =>
    obtain ⟨cb, hput⟩ := inOrder_frame s.pr.stb (recvPkg d)
    rw [hput]
    exact hs.goto (fun _ h => h) id
  | old _ hnew | noSendback _ hnew => exact hs.goto (fun _ h => h) (not_handles_after hnew)
  | sendback _ h hnew =>
    exact hs.goto (fun pkt hp => (procDelack_effect h).recvSame.minhpRecv_eq ▸ hp)
      (not_handles_after hnew)
  | @future d hst hd =>
    have hc := hd.classified
    rw [hst] at hc
    cases classified_of_ok hc with
    | future _ hdata _ =>
      obtain ⟨_, hpend⟩ := hs.handled (by rw [hst]; trivial) _ hd.tp_eq
      rw [pushHpRecvBuf_eq _ hdata.pos]
      refine ⟨?_, hs.pending, fun h => absurd h id⟩
      intro pkt hpkt d' hd'
      rcases (MinHeap.mem_push _ _ _).mp hpkt with rfl | hpkt
      · exact hpend d' hd'
      · exact hs.waiting pkt hpkt d' hd'

/-- Different segments, none of which is held, make a call in which none is pushed twice. -/
theorem freshCall_of_different {base : ℕ} {pieces : List (List Byte)} {now : ℕ} {p : Process}
    {pending : List Datagram}
    (hpieces : ∀ d ∈ pending, IsData (recvPkg d) ∧ IsPiece base pieces (recvPkg d))
    (hheld : ∀ pkt ∈ p.stb.minhpRecv.elems, ∀ d ∈ pending, pkt.t.seq ≠ (recvPkg d).t.seq)
    (hdiff : pending.Pairwise fun d d' => (recvPkg d).t.seq ≠ (recvPkg d').t.seq) :
    FreshCall base pieces now p pending := by
  refine ⟨hpieces, fun s hv hst tp htp => ?_⟩
  have hs : AllDifferent s := hv.inv AllDifferent ⟨hheld, hdiff, fun h => absurd h (not_handles_start p pending)⟩
    fun a _ hva ha hab => ha.turn (runStep_turn (visits_fsmOk hpieces hva) hab).1
  exact (hs.handled (by rw [hst]; trivial) tp htp).1

/-! ## A segment that arrives ahead twice -/

/-- The segments of two bytes, numbered from 1. -/
def twoBytes : List (List Byte) := [[65], [66]]

/-- The second segment, once more the second, and the first. -/
def aheadTwice : List Datagram :=
  [segmentFrom ⟨2, 80⟩ 2 1 [66], segmentFrom ⟨2, 80⟩ 2 1 [66], segmentFrom ⟨2, 80⟩ 1 1 [65]]

theorem aheadTwice_pieces : ∀ d ∈ aheadTwice, IsData (recvPkg d) ∧ IsPiece 1 twoBytes (recvPkg d) := by
  have h : ∀ d ∈ aheadTwice, (recvPkg d).t.syn = false ∧ (recvPkg d).t.fin = false ∧
      (recvPkg d).t.ack = true ∧ 0 < (recvPkg d).buf.length ∧
      ((recvPkg d).t.seq, (recvPkg d).buf) ∈ numbered 1 twoBytes := by decide +kernel
  intro d hd
  obtain ⟨hsyn, hfin, hack, hpos, hmem⟩ := h d hd
  exact ⟨⟨hsyn, hfin, hack, hpos⟩, hpos, hmem⟩

/-- A client whose peer's second segment is duplicated and overtakes the first. -/
theorem duplicate_ahead_fails :
    ∃ p, touConnect (Process.init 3 1) ⟨2, 80⟩ 425984 (synAckFrom ⟨2, 80⟩ 0 1) = .ok (true, p) ∧
      (∀ d ∈ aheadTwice, IsData (recvPkg d) ∧ IsPiece 1 twoBytes (recvPkg d)) ∧
      run 5 p aheadTwice = .error (.assertFail .doProcPktRec) := by
  obtain ⟨p, hp, _, _⟩ := exists_client
  have hhalt : haltOf (touConnect (Process.init 3 1) ⟨2, 80⟩ 425984 (synAckFrom ⟨2, 80⟩ 0 1) >>=
      fun c => run 5 c.2 aheadTwice) = some (.assertFail .doProcPktRec) := by decide +kernel
  rw [hp, ok_bind] at hhalt
  exact ⟨p, hp, aheadTwice_pieces, haltOf_eq_some.mp hhalt⟩

/-- The peer's second segment overtakes the first, each in a call of its own. -/
def overtakenSession : Except Halt (Process × Process × Process) := do
  let c ← touConnect (Process.init 3 1) ⟨2, 80⟩ 425984 (synAckFrom ⟨2, 80⟩ 0 1)
  let r1 ← run 5 c.2 [segmentFrom ⟨2, 80⟩ 2 1 [66]]
  let r2 ← run 6 r1.pr [segmentFrom ⟨2, 80⟩ 1 1 [65]]
  return (c.2, r1.pr, r2.pr)

theorem recovery_assertion_overtaken : ∃ c p q, Opened c ∧
    Relation.ReflTransGen (ProcStepIf (FreshCall 1 twoBytes)) c p ∧
    p.stb.minhpRecv.elems.map (·.t.seq) = [2] ∧
    (∃ r, run 6 p [segmentFrom ⟨2, 80⟩ 1 1 [65]] = .ok r ∧ r.pr = q) ∧ q.stb.tc.rcvNxt = 3 ∧
    run 6 p [segmentFrom ⟨2, 80⟩ 1 1 [65]] ≠ .error (.assertFail .doProcPktRec) := by
  have hnum : overtakenSession.toOption.map (fun x => (x.1.stb.tc.rcvNxt,
      x.1.stb.minhpRecv.elems.length, x.2.1.stb.minhpRecv.elems.map (·.t.seq), x.2.2.stb.tc.rcvNxt)) =
      some (1, 0, [2], 3) := by decide +kernel
  cases hx : overtakenSession with
  | error e =>
    rw [hx] at hnum
    cases hnum
  | ok x =>
    rw [hx] at hnum
    obtain ⟨c, hc, hx⟩ := of_bind_ok hx
    obtain ⟨r1, h1, hx⟩ := of_bind_ok hx
    obtain ⟨r2, h2, hx⟩ := of_bind_ok hx
    cases hx
    simp only [Except.toOption, Option.map_some, Option.some.injEq, Prod.mk.injEq] at hnum
    obtain ⟨hrcv, hlen, hheld, hnext⟩ := hnum
    have hempty : c.2.stb.minhpRecv.elems = [] := List.length_eq_zero_iff.mp hlen
    have hsecond : FreshCall 1 twoBytes 5 c.2 [segmentFrom ⟨2, 80⟩ 2 1 [66]] := by
      refine freshCall_of_different ?_ (by simp [hempty]) (List.pairwise_singleton _ _)
      intro d hd
      rw [List.mem_singleton.mp hd]
      exact aheadTwice_pieces _ (by simp [aheadTwice])
    have hfirst : FreshCall 1 twoBytes 6 r1.pr [segmentFrom ⟨2, 80⟩ 1 1 [65]] := by
      refine freshCall_of_different ?_ ?_ (List.pairwise_singleton _ _)
      · intro d hd
        rw [List.mem_singleton.mp hd]
        exact aheadTwice_pieces _ (by simp [aheadTwice])
      · intro pkt hpkt d hd
        have hseq : pkt.t.seq ∈ [2] := hheld ▸ List.mem_map_of_mem hpkt
        have hone : (recvPkg (segmentFrom ⟨2, 80⟩ 1 1 [65])).t.seq = 1 := by decide +kernel
        rw [List.mem_singleton.mp hseq, List.mem_singleton.mp hd, hone]
        decide
    have hrun := Relation.ReflTransGen.single (ProcStepIf.run hsecond h1)
    refine ⟨c.2, r1.pr, r2.pr, Opened.connect (b := c.1) hc, hrun, hheld, ⟨r2, h2, rfl⟩, hnext, ?_⟩
    exact (recovery_assertion 1 twoBytes (by decide) c.2 r1.pr (by rw [hrcv]; exact boundary_base 1 twoBytes)
      hempty hrun 6 _ hfirst).1

end Process
end TcpOverUdp
