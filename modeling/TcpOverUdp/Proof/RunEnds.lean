import TcpOverUdp.Proof.PacketPointer
import TcpOverUdp.Proof.Sessions

/-! # How a received datagram can end the process

Two things are kept by every operation of a process with one connection: its timers are its own, and the
delayed-ACK state and the deque agree (`Sound`). They rule out the exits in `proc_delack`,
`timerMng::update_ack` and `proc_clear_ackedpkt`. The exit in `processGetPktState` is taken for the
datagrams that none of its guards accepts, and only for them. That is said of the calls that begin by
receiving, which alone are sure to own the packet they delete.
-/
namespace TcpOverUdp
open MachineInt
set_option autoImplicit false

namespace Process

/-! ## The invariant -/

structure Sound (p : Process) : Prop where
  own : Own p.stb.sockd p.timerheap
  ackReady : AckReady p

theorem send_ackReady {now : ℕ} {p q : Process} (h : send now p = .ok q) (hp : AckReady p) :
    AckReady q := by
  obtain ⟨pieces, he⟩ := send_ok h
  have ht := he.table_eq
  exact hp.of_eq (by rw [ht]) (Or.inl (by rw [ht])) he.ackdeque_eq

theorem ackReady_recovered {p : Process} {stb : SockTb} {r : ℤ} (hp : AckReady p)
    (hr : procPktRec p.stb = .ok (r, stb)) (st : RunState) :
    AckReady (p.setTable (stb.setRunstate st)) := by
  have hstate : stb.sockd = p.stb.sockd ∧ (stb.tc.tDelackState = p.stb.tc.tDelackState ∨
      stb.tc.tDelackState = .immedUpdateXmit) :=
    procPktRec_inv hr (fun a => a.sockd = p.stb.sockd ∧ (a.tc.tDelackState = p.stb.tc.tDelackState ∨
      a.tc.tDelackState = .immedUpdateXmit)) ⟨rfl, Or.inl rfl⟩ (fun _ _ _ _ _ _ ha => ha)
      (fun _ _ _ _ _ _ ha => ha) fun _ ha => ⟨ha.1, Or.inr rfl⟩
  exact hp.of_eq hstate.1 hstate.2 rfl

theorem ackReady_turn {D : Datagram → Prop} {now : ℕ} {s s' : RunSt} (ht : RunTurn D now s s')
    (hs : AckReady s.pr) : AckReady s'.pr := by
  cases ht with
  | receive | old | noSendback => exact hs
  | syn | fin => exact hs.of_eq rfl (Or.inl rfl) rfl
  | future => exact hs.of_eq rfl (Or.inr rfl) rfl
  | @inOrder d _ _ =>
    obtain ⟨cb, hput⟩ := inOrder_frame s.pr.stb (recvPkg d)
    rw [hput]
    exact hs.of_eq rfl (Or.inl rfl) rfl
  | ack _ _ h1 h2 =>
    have ha := handleAck_effect h1
    have ht := ha.table_eq
    exact send_ackReady h2 (hs.of_eq (by rw [ht]) (Or.inl ha.tDelackState_eq) ha.ackdeque_eq)
  | recovered _ hr => exact ackReady_recovered hs hr _
  | unrecovered _ _ hr => exact ackReady_recovered hs hr _
  | sendback _ h => exact procDelack_ready h

theorem Sound.turn {D : Datagram → Prop} {now : ℕ} {s s' : RunSt} (ht : RunTurn D now s s')
    (hs : Sound s.pr) : Sound s'.pr := ⟨own_rule.turn ht hs.own, ackReady_turn ht hs.ackReady⟩

theorem Sound.step {C : ℕ → Process → List Datagram → Prop} {p q : Process} (h : ProcStepIf C p q)
    (hp : Sound p) : Sound q := by
  refine ⟨own_rule.step (fun _ _ _ h => h) h hp.own, ?_⟩
  have hready := hp.ackReady
  cases h with
  | touSend h => exact send_ackReady (touSend_ok h).2 (hready.of_eq rfl (Or.inl rfl) rfl)
  | send h => exact send_ackReady h hready
  | touRecv => exact hready.of_eq rfl (Or.inl rfl) rfl
  | run _ h =>
    exact run_process_inv (D := fun _ => True) h (fun _ _ => trivial) AckReady hready
      fun _ _ _ hs ht => ackReady_turn ht hs
  | delack h => exact hready.timerProcDelack h
  | sndpkt h =>
    have heff := timerProcSndpkt_effect h
    have ht := heff.table_eq
    exact hready.of_eq (by rw [ht]) (Or.inl heff.tc_same.tDelackState) heff.ackdeque_eq

theorem Session.sound {p : Process} (h : Session p) : Sound p := by
  obtain ⟨p₀, hopen, hrun⟩ := h
  have hf := hopen.fresh.1
  have hown : Own p₀.stb.sockd p₀.timerheap := by
    intro n hn
    rw [hf.timerheap] at hn
    cases hn
  exact reach_inv Sound (fun _ _ hs hst => hs.step hst) ⟨hown, hf.ackReady⟩ hrun

/-! ## The ends of a call -/

/-- No guard of `processGetPktState` accepts the packet. -/
structure Unclassified (stb : SockTb) (tp : TouPkg) : Prop where
  syn : tp.t.syn = false
  fin : tp.t.fin = false
  other : ¬ (tp.t.ack = true ∧ stb.sockstate = .established ∧
    (0 < tp.buf.length ∨ tp.t.ackSeq ≤ stb.tc.sndNxt))

theorem processGetPktState_error_iff {stb : SockTb} {tp : TouPkg} :
    processGetPktState stb tp = .error (.exit .processGetPktState) ↔ Unclassified stb tp := by
  constructor
  · intro h
    unfold processGetPktState at h
    split_ifs at h with h1 h2 h3 h4 h5 h6
    refine ⟨by simpa using h1, by simpa using h2, ?_⟩
    rintro ⟨hack, hst, hor⟩
    by_cases hpos : 0 < tp.buf.length
    · rcases lt_trichotomy tp.t.seq stb.tc.rcvNxt with hlt | heq | hgt
      · exact h5 ⟨hack, hpos, hlt, hst⟩
      · exact h4 ⟨hack, hpos, heq, hst⟩
      · exact h6 ⟨hack, hpos, hgt, hst⟩
    · exact h3 ⟨hack, hst, by omega, hor.resolve_left hpos⟩
  · rintro ⟨hsyn, hfin, hother⟩
    unfold processGetPktState
    rw [hsyn, hfin, if_neg Bool.false_ne_true, if_neg Bool.false_ne_true]
    rw [if_neg fun h => hother ⟨h.1, h.2.1, Or.inr h.2.2.2⟩]
    rw [if_neg fun h => hother ⟨h.1, h.2.2.2, Or.inl h.2.1⟩]
    rw [if_neg fun h => hother ⟨h.1, h.2.2.2, Or.inl h.2.1⟩]
    rw [if_neg fun h => hother ⟨h.1, h.2.2.2, Or.inl h.2.1⟩]

/-- The call takes a datagram that no guard of `processGetPktState` accepts. -/
def TakesUnclassified (now : ℕ) (p : Process) (pending : List Datagram) : Prop :=
  ∃ s d rest, Visits (runStep now) (runSt p pending) s ∧ (s.state = .getPkt ∨ s.state = .clearGetPkt) ∧
    s.pending = d :: rest ∧ Unclassified s.pr.stb (recvPkg d)

theorem run_unclassified {now : ℕ} {p : Process} {pending : List Datagram}
    (hsize : ∀ d ∈ pending, 16 ≤ d.bytes.length) (h : TakesUnclassified now p pending) :
    run now p pending = .error (.exit .processGetPktState) := by
  obtain ⟨s, d, rest, hv, hs, hp, hun⟩ := h
  have hok := visits_fsmOk hsize hv
  have hlen := hok.pending d (hp ▸ List.mem_cons_self)
  have hne : d.bytes ≠ [] := List.ne_nil_of_length_pos (by omega)
  refine run_of_visits hv ?_
  rw [runStep_receives_cons hs hp hne, processGetPktState_error_iff.mpr hun, error_bind]

/-- In every state that a connected process reaches, a call of `run` that begins by receiving returns,
or it ends in `processGetPktState`, in `rexmit_for_dup_ack` or in the assertion of recovery. It ends in
`processGetPktState` if and only if it takes a datagram that none of the guards there accepts. On the
way it touches only packets that it received and did not delete. -/
theorem run_ends (p : Process) (hp : Session p) (hrs : p.stb.runstate = .getPkt) (now : ℕ)
    (pending : List Datagram) (hsize : ∀ d ∈ pending, 16 ≤ d.bytes.length) :
    ((∃ r, run now p pending = .ok r) ∨
      run now p pending = .error (.exit .processGetPktState) ∨
      run now p pending = .error (.exit .rexmitForDupAck) ∨
      run now p pending = .error (.assertFail .doProcPktRec)) ∧
    (run now p pending = .error (.exit .processGetPktState) ↔ TakesUnclassified now p pending) ∧
    SafeUses (runUses now p pending) := by
  have hends : ∀ e, run now p pending = .error e →
      (e = .exit .processGetPktState ∧ TakesUnclassified now p pending) ∨
        e = .exit .rexmitForDupAck ∨ e = .assertFail .doProcPktRec := by
    intro e he
    obtain ⟨s, hv, hok, hhalt⟩ := run_halts hsize he
    have hs : Sound s.pr := visits_process_inv hsize hv Sound hp.sound fun _ _ _ hs ht => hs.turn ht
    cases hhalt with
    | classify hst hpend hc =>
      exact Or.inl ⟨rfl, s, _, _, hv, hst, hpend, processGetPktState_error_iff.mp hc⟩
    | ack hst hd h =>
      rcases handleAck_error h with ⟨_, hdel⟩ | ⟨hrex, _⟩
      · obtain ⟨r, hr⟩ := Timer.deleteTimer_returns (recvPkg _).t.ackSeq hs.own
        rw [hr] at hdel
        cases hdel
      · exact Or.inr (Or.inl hrex)
    | recovery hst h => exact Or.inr (Or.inr (procPktRec_error h))
    | delack hst h =>
      obtain ⟨q, hq⟩ := hs.ackReady.procDelack_returns now
      rw [hq] at h
      cases h
  refine ⟨?_, ⟨?_, run_unclassified hsize⟩, runUses_safe_getPkt now hrs pending⟩
  · cases hr : run now p pending with
    | ok r => exact Or.inl ⟨r, rfl⟩
    | error e =>
      rcases hends e hr with ⟨rfl, _⟩ | rfl | rfl
      · exact Or.inr (Or.inl rfl)
      · exact Or.inr (Or.inr (Or.inl rfl))
      · exact Or.inr (Or.inr (Or.inr rfl))
  · intro he
    rcases hends _ he with ⟨_, htakes⟩ | h | h
    · exact htakes
    · cases h
    · cases h

/-- A datagram of 16 zero bytes. -/
def zeroDatagram : Datagram := { src := ⟨9, 9⟩, bytes := List.replicate 16 0 }

theorem takesUnclassified_zero (now : ℕ) {p : Process} (hrs : p.stb.runstate = .getPkt) :
    TakesUnclassified now p [zeroDatagram] := by
  refine ⟨runSt p [zeroDatagram], zeroDatagram, [], Visits.refl _, Or.inl (runSt_getPkt hrs _), rfl, ?_⟩
  have hack : (recvPkg zeroDatagram).t.ack = false := by decide +kernel
  refine ⟨by decide +kernel, by decide +kernel, ?_⟩
  rintro ⟨h, _⟩
  rw [hack] at h
  cases h

/-- A client that has just connected is ended by 16 zero bytes from anywhere. -/
theorem zero_datagram_ends_client :
    ∃ q, touConnect (Process.init 3 1) ⟨2, 80⟩ 425984 (synAckFrom ⟨2, 80⟩ 0 1) = .ok (true, q) ∧
      Session q ∧ zeroDatagram.bytes.length = 16 ∧
      run 5 q [zeroDatagram] = .error (.exit .processGetPktState) := by
  obtain ⟨q, hq, hopen, _⟩ := exists_client
  refine ⟨q, hq, ⟨q, hopen, Relation.ReflTransGen.refl⟩, by decide, ?_⟩
  exact run_unclassified (by decide) (takesUnclassified_zero 5 hopen.fresh.1.runstate)

theorem run_ends_zero : ∃ q, Session q ∧
    (run 5 q [zeroDatagram] = .error (.exit .processGetPktState) ↔
      TakesUnclassified 5 q [zeroDatagram]) ∧ SafeUses (runUses 5 q [zeroDatagram]) := by
  obtain ⟨q, _, hopen, _⟩ := exists_client
  have hs : Session q := ⟨q, hopen, Relation.ReflTransGen.refl⟩
  obtain ⟨_, hexit, hsafe⟩ := run_ends q hs hopen.fresh.1.runstate 5 [zeroDatagram] (by decide)
  exact ⟨q, hs, hexit, hsafe⟩

end Process
end TcpOverUdp
