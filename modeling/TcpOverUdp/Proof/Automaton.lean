import TcpOverUdp.Proof.Send

/-! # Turns of the receive automaton

A state of the automaton in which a packet is handled is always one that `processGetPktState` chose
for that packet on the present table (`FsmOk`). `RunTurn` lists what a turn can do then, and
`run_inv` is the rule for a whole call. `D` is what is known of the datagrams.
-/
namespace TcpOverUdp
open MachineInt
set_option autoImplicit false

namespace Process

/-! ## Classification -/

/-- A packet with data, as `send` and `sendpkt` make them. -/
structure IsData (tp : TouPkg) : Prop where
  syn : tp.t.syn = false
  fin : tp.t.fin = false
  ack : tp.t.ack = true
  pos : 0 < tp.buf.length

theorem processGetPktState_congr {a b : SockTb} (tp : TouPkg) (hs : b.sockstate = a.sockstate)
    (hn : b.tc.sndNxt = a.tc.sndNxt) (hr : b.tc.rcvNxt = a.tc.rcvNxt) :
    processGetPktState b tp = processGetPktState a tp := by
  unfold processGetPktState
  rw [hs, hn, hr]

/-- The state for a data segment, by the order of its number and the expected one. -/
def dataState : Ordering → ProcState
  | .lt => .ackWithDataLessExpectedSeq
  | .eq => .ackWithDataMatchExpectedSeq
  | .gt => .ackWithDataMoreExpectedSeq

theorem processGetPktState_data {stb : SockTb} {tp : TouPkg} (he : stb.sockstate = .established)
    (ht : IsData tp) :
    processGetPktState stb tp = .ok (dataState (cmp tp.t.seq stb.tc.rcvNxt)) := by
  have hbuf := ht.pos
  have hne : tp.buf.length ≠ 0 := by omega
  unfold processGetPktState
  rcases lt_trichotomy tp.t.seq stb.tc.rcvNxt with h | h | h
  · rw [(cmp_eq_lt_iff _ _).2 h]
    simp [ht.syn, ht.fin, ht.ack, he, hne, hbuf, h, h.ne, dataState]
  · rw [h, cmp_self_eq_eq]
    simp [ht.syn, ht.fin, ht.ack, he, hne, hbuf, dataState]
  · rw [(cmp_eq_gt_iff _ _).2 h]
    simp [ht.syn, ht.fin, ht.ack, he, hne, hbuf, h, h.ne', h.not_gt, dataState]

/-- What `processGetPktState` found when it chose a state. -/
inductive Classified (stb : SockTb) (tp : TouPkg) : ProcState → Prop
  | syn (h : tp.t.syn = true) : Classified stb tp .procSyn
  | fin (h : tp.t.fin = true) : Classified stb tp .procFin
  | ack (hst : stb.sockstate = .established) (hle : tp.t.ackSeq ≤ stb.tc.sndNxt)
      (hbuf : tp.buf.length = 0) : Classified stb tp .ackWithoutData
  | inOrder (hst : stb.sockstate = .established) (hd : IsData tp) (hseq : tp.t.seq = stb.tc.rcvNxt) :
      Classified stb tp .ackWithDataMatchExpectedSeq
  | old (hst : stb.sockstate = .established) (hd : IsData tp) (hseq : tp.t.seq < stb.tc.rcvNxt) :
      Classified stb tp .ackWithDataLessExpectedSeq
  | future (hst : stb.sockstate = .established) (hd : IsData tp) (hseq : stb.tc.rcvNxt < tp.t.seq) :
      Classified stb tp .ackWithDataMoreExpectedSeq

theorem classified_of_ok {stb : SockTb} {tp : TouPkg} {st : ProcState}
    (h : processGetPktState stb tp = .ok st) : Classified stb tp st := by
  unfold processGetPktState at h
  by_cases hsyn : tp.t.syn = true
  · rw [if_pos hsyn] at h
    cases h
    exact Classified.syn hsyn
  · by_cases hfin : tp.t.fin = true
    · rw [if_neg hsyn, if_pos hfin] at h
      cases h
      exact Classified.fin hfin
    · rw [if_neg hsyn, if_neg hfin] at h
      have hsyn' : tp.t.syn = false := by simpa using hsyn
      have hfin' : tp.t.fin = false := by simpa using hfin
      split_ifs at h with h1 h2 h3 h4 <;> cases h
      · exact Classified.ack h1.2.1 h1.2.2.2 h1.2.2.1
      · exact Classified.inOrder h2.2.2.2 ⟨hsyn', hfin', h2.1, h2.2.1⟩ h2.2.2.1
      · exact Classified.old h3.2.2.2 ⟨hsyn', hfin', h3.1, h3.2.1⟩ h3.2.2.1
      · exact Classified.future h4.2.2.2 ⟨hsyn', hfin', h4.1, h4.2.1⟩ h4.2.2.1

/-- The states in which `run` reads the packet behind `tp`. -/
def Handles : ProcState → Prop
  | .procSyn | .procFin | .ackWithoutData | .ackWithDataMatchExpectedSeq
  | .ackWithDataLessExpectedSeq | .ackWithDataMoreExpectedSeq => True
  | _ => False

/-! ## Turns -/

variable (D : Datagram → Prop) (now : ℕ)

/-- The packet of the datagram `d` is being handled. -/
structure Handling (s : RunSt) (d : Datagram) : Prop where
  given : D d
  tp_eq : s.tp = some (recvPkg d)
  src_eq : s.sockaddrs = d.src
  classified : processGetPktState s.pr.stb (recvPkg d) = .ok s.state

structure FsmOk (s : RunSt) : Prop where
  pending : ∀ d ∈ s.pending, D d
  handling : Handles s.state → ∃ d, Handling D s d

/-- `s` after a table update, in the state `st`. -/
def RunSt.goto (s : RunSt) (p : Process) (st : ProcState) : RunSt := { s with pr := p, state := st }

/-- `s` after the datagram `d` was taken and classified. -/
def RunSt.took (s : RunSt) (d : Datagram) (rest : List Datagram) (st : ProcState) : RunSt :=
  { s with
    state := st
    tp := some (recvPkg d)
    sockaddrs := d.src
    rv := (d.bytes.take recvBufSize).length
    pending := rest }

inductive RunTurn (s : RunSt) : RunSt → Prop
  | receive {d : Datagram} {rest : List Datagram} {st : ProcState}
      (hs : s.state = .getPkt ∨ s.state = .clearGetPkt) (hp : s.pending = d :: rest)
      (hc : processGetPktState s.pr.stb (recvPkg d) = .ok st) : RunTurn s (s.took d rest st)
  | syn {d : Datagram} (hs : s.state = .procSyn) (hd : Handling D s d) :
      RunTurn s (s.goto (s.pr.setTable (((s.pr.stb.setDst s.sockaddrs).setSocketState .synReceived).setTCBRcv
        (u32 (((recvPkg d).t.seq : ℤ) + 1)))) .procEnd)
  | fin (hs : s.state = .procFin) :
      RunTurn s (s.goto (s.pr.setTable (s.pr.stb.setSocketState .closeWait)) .procEnd)
  | ack {d : Datagram} {p1 p2 : Process} (hs : s.state = .ackWithoutData) (hd : Handling D s d)
      (h1 : handleAck now s.pr (recvPkg d) = .ok p1) (h2 : send now p1 = .ok p2) :
      RunTurn s (s.goto p2 .procEnd)
  | recovered {stb : SockTb} (hs : s.state = .pktRecovery) (hr : procPktRec s.pr.stb = .ok (0, stb)) :
      RunTurn s (s.goto (s.pr.setTable (stb.setRunstate .getPkt)) .ackDatarecsuccSendbackAck)
  | unrecovered {rv : ℤ} {stb : SockTb} (hs : s.state = .pktRecovery) (hrv : rv ≠ 0)
      (hr : procPktRec s.pr.stb = .ok (rv, stb)) :
      RunTurn s (s.goto (s.pr.setTable (stb.setRunstate .pktRecovery)) .ackDatarecsuccNoSendbackAck)
  | inOrder {d : Datagram} (hs : s.state = .ackWithDataMatchExpectedSeq) (hd : Handling D s d) :
      RunTurn s (s.goto (s.pr.setTable (putcircbuf (s.pr.stb.setTCBRcv
        (u32 (((recvPkg d).t.seq : ℤ) + (recvPkg d).buf.length)))
        (recvPkg d).buf (recvPkg d).buf.length).2) .pktRecovery)
  | old {st : ProcState} (hs : s.state = .ackWithDataLessExpectedSeq)
      (hst : st = .procEnd ∨ st = .clearGetPkt ∧ s.pr.stb.cbRecv.getAvSize ≥ recvBufSize) :
      RunTurn s (s.goto s.pr st)
  | future {d : Datagram} (hs : s.state = .ackWithDataMoreExpectedSeq) (hd : Handling D s d) :
      RunTurn s (s.goto (s.pr.setTable ((s.pr.stb.pushHpRecvBuf (recvPkg d)).setAckState
        .immedUpdateXmit)) .ackDatarecsuccSendbackAck)
  | sendback {p : Process} {st : ProcState} (hs : s.state = .ackDatarecsuccSendbackAck)
      (h : procDelack now s.pr = .ok p)
      (hst : st = .procEnd ∨ st = .clearGetPkt ∧ p.stb.cbRecv.getAvSize ≥ recvBufSize ∧
        p.stb.runstate = .getPkt) : RunTurn s (s.goto p st)
  | noSendback {st : ProcState} (hs : s.state = .ackDatarecsuccNoSendbackAck)
      (hst : st = .procEnd ∨ st = .clearGetPkt ∧ s.pr.stb.cbRecv.getAvSize ≥ recvBufSize ∧
        s.pr.stb.runstate = .getPkt) : RunTurn s (s.goto s.pr st)

variable {D now}

/-! ## What a turn is -/

theorem received_length_ne_zero {d : Datagram} (hd : d.bytes ≠ []) :
    (d.bytes.take recvBufSize).length ≠ 0 := by
  have hpos := List.length_pos_iff.mpr hd
  unfold recvBufSize
  rw [List.length_take]
  omega

/-- `run_recvfrom` takes the next datagram. -/
theorem getPkt_cons {s : RunSt} {d : Datagram} {rest : List Datagram} (hp : s.pending = d :: rest)
    (hd : d.bytes ≠ []) :
    getPkt s = (do
      let state ← processGetPktState s.pr.stb (recvPkg d)
      return .next (s.took d rest state)) := by
  unfold getPkt runRecvfrom
  simp only [hp, if_neg (received_length_ne_zero hd)]
  rfl

theorem getPkt_empty {s : RunSt} {d : Datagram} {rest : List Datagram} (hp : s.pending = d :: rest)
    (hd : d.bytes = []) : getPkt s = .ok (.done { rv := -1, pr := s.pr, pending := rest }) := by
  unfold getPkt runRecvfrom
  simp only [hp, hd, List.take_nil, List.length_nil, if_true]

theorem getPkt_nil {s : RunSt} (hp : s.pending = []) :
    getPkt s = .ok (.done { rv := -1, pr := s.pr, pending := [] }) := by
  unfold getPkt runRecvfrom
  simp only [hp]

/-- `run_recvfrom` and the classification either take a datagram, or end the call, or end the process
by the `exit` of `processGetPktState`. -/
theorem getPkt_cases (s : RunSt) :
    (∃ d rest st, s.pending = d :: rest ∧ processGetPktState s.pr.stb (recvPkg d) = .ok st ∧
      getPkt s = .ok (.next (s.took d rest st))) ∨
    (∃ rest, getPkt s = .ok (.done { rv := -1, pr := s.pr, pending := rest })) ∨
    (∃ d rest e, s.pending = d :: rest ∧ processGetPktState s.pr.stb (recvPkg d) = .error e ∧
      getPkt s = .error e) := by
  cases hp : s.pending with
  | nil => exact Or.inr (Or.inl ⟨[], getPkt_nil hp⟩)
  | cons d rest =>
    by_cases hd : d.bytes = []
    · exact Or.inr (Or.inl ⟨rest, getPkt_empty hp hd⟩)
    · have hget := getPkt_cons hp hd
      cases hc : processGetPktState s.pr.stb (recvPkg d) with
      | error e =>
        rw [hc, error_bind] at hget
        exact Or.inr (Or.inr ⟨d, rest, e, rfl, hc, hget⟩)
      | ok st =>
        rw [hc, ok_bind] at hget
        exact Or.inl ⟨d, rest, st, rfl, hc, hget⟩

theorem noSendback_eq (s : RunSt) :
    ∃ st, noSendback s = s.goto s.pr st ∧ (st = .procEnd ∨ st = .clearGetPkt ∧
      s.pr.stb.cbRecv.getAvSize ≥ recvBufSize ∧ s.pr.stb.runstate = .getPkt) := by
  unfold noSendback
  split
  · rename_i h
    exact ⟨_, rfl, Or.inr ⟨rfl, h.2⟩⟩
  · exact ⟨_, rfl, Or.inl rfl⟩

theorem not_handles_after {st : ProcState} {P : Prop} (h : st = .procEnd ∨ st = .clearGetPkt ∧ P) :
    ¬ Handles st := by
  rcases h with rfl | ⟨rfl, _⟩ <;> exact id

theorem FsmOk.goto {s : RunSt} (hok : FsmOk D s) (p : Process) {st : ProcState} (hst : ¬ Handles st) :
    FsmOk D (s.goto p st) := ⟨hok.pending, fun h => absurd h hst⟩

theorem FsmOk.took {s : RunSt} (hok : FsmOk D s) {d : Datagram} {rest : List Datagram}
    {st : ProcState} (hp : s.pending = d :: rest)
    (hc : processGetPktState s.pr.stb (recvPkg d) = .ok st) : FsmOk D (s.took d rest st) where
  pending d' hd' := hok.pending d' (hp ▸ List.mem_cons_of_mem d hd')
  handling _ := ⟨d, hok.pending d (hp ▸ List.mem_cons_self), rfl, rfl, hc⟩

/-- How a turn can end the process. -/
inductive RunHalt (D : Datagram → Prop) (now : ℕ) (s : RunSt) : Halt → Prop
  | classify {d : Datagram} {rest : List Datagram} (hs : s.state = .getPkt ∨ s.state = .clearGetPkt)
      (hp : s.pending = d :: rest)
      (hc : processGetPktState s.pr.stb (recvPkg d) = .error (.exit .processGetPktState)) :
      RunHalt D now s (.exit .processGetPktState)
  | ack {d : Datagram} {e : Halt} (hs : s.state = .ackWithoutData) (hd : Handling D s d)
      (h : handleAck now s.pr (recvPkg d) = .error e) : RunHalt D now s e
  | recovery {e : Halt} (hs : s.state = .pktRecovery) (h : procPktRec s.pr.stb = .error e) :
      RunHalt D now s e
  | delack {e : Halt} (hs : s.state = .ackDatarecsuccSendbackAck) (h : procDelack now s.pr = .error e) :
      RunHalt D now s e

theorem classify_error {stb : SockTb} {tp : TouPkg} {e : Halt}
    (h : processGetPktState stb tp = .error e) : e = .exit .processGetPktState := by
  unfold processGetPktState at h
  split_ifs at h
  cases h
  rfl

/-- In the states that receive a turn is `run_recvfrom` and the classification, whatever `tp` was. -/
theorem runStep_receives {s : RunSt} (hs : s.state = .getPkt ∨ s.state = .clearGetPkt) :
    runStep now s = getPkt s := by
  unfold runStep
  rcases hs with hs | hs
  · rw [hs]
  · rw [hs]
    unfold getPkt runRecvfrom
    cases s.pending with
    | nil => rfl
    | cons d rest =>
      simp only
      split_ifs <;> rfl

theorem runStep_receives_cons {s : RunSt} {d : Datagram} {rest : List Datagram}
    (hs : s.state = .getPkt ∨ s.state = .clearGetPkt) (hp : s.pending = d :: rest) (hd : d.bytes ≠ []) :
    runStep now s = (do
      let state ← processGetPktState s.pr.stb (recvPkg d)
      return .next (s.took d rest state)) := by
  rw [runStep_receives hs]
  exact getPkt_cons hp hd

/-- What a turn comes to: it goes on as listed, or leaves the loop, or ends the process. -/
inductive RunOutcome (D : Datagram → Prop) (now : ℕ) (s : RunSt) : Except Halt (Turn RunSt RunRes) → Prop
  | next {s' : RunSt} (ht : RunTurn D now s s') (hok : FsmOk D s') : RunOutcome D now s (.ok (.next s'))
  | ended (hs : s.state = .procEnd) :
      RunOutcome D now s (.ok (.done { rv := s.rv, pr := s.pr, pending := s.pending }))
  | unreceived {rest : List Datagram} (hs : s.state = .getPkt ∨ s.state = .clearGetPkt) :
      RunOutcome D now s (.ok (.done { rv := -1, pr := s.pr, pending := rest }))
  | halted {e : Halt} (h : RunHalt D now s e) : RunOutcome D now s (.error e)

theorem getPkt_outcome {s : RunSt} (hok : FsmOk D s) (hs : s.state = .getPkt ∨ s.state = .clearGetPkt) :
    RunOutcome D now s (getPkt s) := by
  rcases getPkt_cases s with ⟨d, rest, st, hp, hc, hnext⟩ | ⟨rest, hdone⟩ | ⟨d, rest, e, hp, hc, herr⟩
  · rw [hnext]
    exact .next (RunTurn.receive hs hp hc) (hok.took hp hc)
  · rw [hdone]
    exact .unreceived hs
  · rw [herr]
    have he := classify_error hc
    subst he
    exact .halted (RunHalt.classify hs hp hc)

theorem runStep_outcome (now : ℕ) {s : RunSt} (hok : FsmOk D s) : RunOutcome D now s (runStep now s) := by
  have hread : Handles s.state → ∃ d, Handling D s d ∧ readTp s = .ok (recvPkg d) := by
    intro hs
    obtain ⟨d, hd⟩ := hok.handling hs
    refine ⟨d, hd, ?_⟩
    unfold readTp
    rw [hd.tp_eq]
  by_cases hrecv : s.state = .getPkt ∨ s.state = .clearGetPkt
  · rw [runStep_receives hrecv]
    exact getPkt_outcome hok hrecv
  unfold runStep
  cases hs : s.state with
  | getPkt => exact absurd (Or.inl hs) hrecv
  | clearGetPkt => exact absurd (Or.inr hs) hrecv
  | procEnd => exact .ended hs
  | procSyn =>
    obtain ⟨d, hd, htp⟩ := hread (by rw [hs]; trivial)
    simp only [htp, ok_bind]
    exact .next (RunTurn.syn hs hd) (hok.goto _ id)
  | procFin => exact .next (RunTurn.fin hs) (hok.goto _ id)
  | ackWithoutData =>
    obtain ⟨d, hd, htp⟩ := hread (by rw [hs]; trivial)
    simp only [htp, ok_bind]
    cases h1 : handleAck now s.pr (recvPkg d) with
    | error e =>
      rw [error_bind]
      exact .halted (RunHalt.ack hs hd h1)
    | ok p1 =>
      obtain ⟨p2, _, h2, _⟩ := send_emitted now p1
      rw [ok_bind, h2, ok_bind]
      exact .next (RunTurn.ack hs hd h1 h2) (hok.goto _ id)
  | pktRecovery =>
    cases hr : procPktRec s.pr.stb with
    | error e => exact .halted (RunHalt.recovery hs hr)
    | ok r =>
      obtain ⟨rv, stb⟩ := r
      simp only [ok_bind]
      by_cases hrv : rv = 0
      · subst hrv
        exact .next (RunTurn.recovered hs hr) (hok.goto _ id)
      · rw [if_neg hrv]
        exact .next (RunTurn.unrecovered hs hrv hr) (hok.goto _ id)
  | ackWithDataMatchExpectedSeq =>
    obtain ⟨d, hd, htp⟩ := hread (by rw [hs]; trivial)
    simp only [htp, ok_bind]
    exact .next (RunTurn.inOrder hs hd) (hok.goto _ id)
  | ackWithDataLessExpectedSeq =>
    simp only
    split
    · rename_i hav
      exact .next (RunTurn.old hs (Or.inr ⟨rfl, hav.2⟩)) (hok.goto _ id)
    · exact .next (RunTurn.old hs (Or.inl rfl)) (hok.goto _ id)
  | ackWithDataMoreExpectedSeq =>
    obtain ⟨d, hd, htp⟩ := hread (by rw [hs]; trivial)
    simp only [htp, ok_bind]
    exact .next (RunTurn.future hs hd) (hok.goto _ id)
  | ackDatarecsuccSendbackAck =>
    cases hp : procDelack now s.pr with
    | error e => exact .halted (RunHalt.delack hs hp)
    | ok p =>
      obtain ⟨st, hst, hcond⟩ := noSendback_eq { s with pr := p, state := .ackDatarecsuccSendbackAck }
      simp only [ok_bind, hst]
      exact .next (RunTurn.sendback hs hp hcond) (hok.goto _ (not_handles_after hcond))
  | ackDatarecsuccNoSendbackAck =>
    obtain ⟨st, hst, hcond⟩ := noSendback_eq s
    simp only [hst]
    exact .next (RunTurn.noSendback hs hcond) (hok.goto _ (not_handles_after hcond))

/-- A turn that goes on is one of the listed ones. -/
theorem runStep_turn {s s' : RunSt} (hok : FsmOk D s) (h : runStep now s = .ok (.next s')) :
    RunTurn D now s s' ∧ FsmOk D s' := by
  have hout := runStep_outcome now hok
  rw [h] at hout
  cases hout with
  | next ht hok' => exact ⟨ht, hok'⟩

theorem runStep_halt {s : RunSt} {e : Halt} (hok : FsmOk D s) (h : runStep now s = .error e) :
    RunHalt D now s e := by
  have hout := runStep_outcome now hok
  rw [h] at hout
  cases hout with
  | halted hh => exact hh

/-! ## Calls -/

/-- A turn leaves the loop in `PROCESS_END`, or because nothing was received. -/
theorem runStep_done_cases {s : RunSt} {r : RunRes} (h : runStep now s = .ok (.done r)) :
    (s.state = .procEnd ∧ r = { rv := s.rv, pr := s.pr, pending := s.pending }) ∨
      (s.state = .getPkt ∨ s.state = .clearGetPkt) ∧ r.rv = -1 ∧ r.pr = s.pr := by
  by_cases hrecv : s.state = .getPkt ∨ s.state = .clearGetPkt
  · rw [runStep_receives hrecv] at h
    rcases getPkt_cases s with ⟨d, rest, st, _, _, hnext⟩ | ⟨rest, hdone⟩ | ⟨d, rest, e, _, _, herr⟩
    · rw [hnext] at h
      cases h
    · rw [hdone] at h
      cases h
      exact Or.inr ⟨hrecv, rfl, rfl⟩
    · rw [herr] at h
      cases h
  unfold runStep at h
  cases hs : s.state with
  | getPkt => exact absurd (Or.inl hs) hrecv
  | clearGetPkt => exact absurd (Or.inr hs) hrecv
  | procEnd =>
    rw [hs] at h
    cases h
    exact Or.inl ⟨rfl, rfl⟩
  | procFin =>
    rw [hs] at h
    cases h
  | ackWithDataLessExpectedSeq =>
    rw [hs] at h
    simp only at h
    split at h <;> cases h
  | ackDatarecsuccNoSendbackAck =>
    rw [hs] at h
    cases h
  | procSyn | ackWithDataMatchExpectedSeq | ackWithDataMoreExpectedSeq | ackDatarecsuccSendbackAck =>
    rw [hs] at h
    obtain ⟨_, _, h⟩ := of_bind_ok h
    cases h
  | ackWithoutData =>
    rw [hs] at h
    obtain ⟨_, _, h⟩ := of_bind_ok h
    obtain ⟨_, _, h⟩ := of_bind_ok h
    obtain ⟨_, _, h⟩ := of_bind_ok h
    cases h
  | pktRecovery =>
    rw [hs] at h
    obtain ⟨_, _, h⟩ := of_bind_ok h
    split at h <;> cases h

theorem runStep_done {s : RunSt} {r : RunRes} (h : runStep now s = .ok (.done r)) : r.pr = s.pr := by
  rcases runStep_done_cases h with ⟨_, hr⟩ | ⟨_, _, hr⟩
  · rw [hr]
  · exact hr

@[simp] theorem runSt_state (p : Process) (pending : List Datagram) :
    (runSt p pending).state = p.stb.runstate.toProcState := rfl

theorem runSt_getPkt {p : Process} (h : p.stb.runstate = .getPkt) (pending : List Datagram) :
    (runSt p pending).state = .getPkt := by
  rw [runSt_state, h]
  rfl

theorem runSt_pktRecovery {p : Process} (h : p.stb.runstate = .pktRecovery) (pending : List Datagram) :
    (runSt p pending).state = .pktRecovery := by
  rw [runSt_state, h]
  rfl

theorem not_handles_start (p : Process) (pending : List Datagram) : ¬ Handles (runSt p pending).state := by
  cases h : p.stb.runstate with
  | getPkt =>
    rw [runSt_getPkt h]
    exact id
  | pktRecovery =>
    rw [runSt_pktRecovery h]
    exact id

theorem fsmOk_start (p : Process) {pending : List Datagram} (hD : ∀ d ∈ pending, D d) :
    FsmOk D (runSt p pending) :=
  ⟨hD, fun h => absurd h (not_handles_start p pending)⟩

theorem visits_fsmOk {p : Process} {pending : List Datagram} {s : RunSt} (hD : ∀ d ∈ pending, D d)
    (hv : Visits (runStep now) (runSt p pending) s) : FsmOk D s :=
  hv.inv (FsmOk D) (fsmOk_start p hD) fun _ _ _ hok hstep => (runStep_turn hok hstep).2

/-- What every turn keeps holds where a call of `run` leaves its loop. -/
theorem run_inv_done {p : Process} {pending : List Datagram} {r : RunRes}
    (h : run now p pending = .ok r) (hD : ∀ d ∈ pending, D d) (I : RunSt → Prop)
    (h0 : I (runSt p pending))
    (hI : ∀ s s', Visits (runStep now) (runSt p pending) s → FsmOk D s → I s → RunTurn D now s s' → I s') :
    ∃ s, I s ∧ runStep now s = .ok (.done r) := by
  obtain ⟨s, _, hs, hdone⟩ := fuelLoop_inv I h0 (by
    intro a b hv ha hab
    have hok := visits_fsmOk hD hv
    exact hI a b hv hok ha (runStep_turn hok hab).1) h
  exact ⟨s, hs, hdone⟩

theorem run_inv {p : Process} {pending : List Datagram} {r : RunRes}
    (h : run now p pending = .ok r) (hD : ∀ d ∈ pending, D d) (I : RunSt → Prop)
    (h0 : I (runSt p pending))
    (hI : ∀ s s', Visits (runStep now) (runSt p pending) s → FsmOk D s → I s → RunTurn D now s s' → I s') :
    ∃ s, I s ∧ r.pr = s.pr := by
  obtain ⟨s, hs, hdone⟩ := run_inv_done h hD I h0 hI
  exact ⟨s, hs, runStep_done hdone⟩

/-- What every turn keeps holds wherever a call of `run` passes through. -/
theorem visits_process_inv {p : Process} {pending : List Datagram} {s : RunSt}
    (hD : ∀ d ∈ pending, D d) (hv : Visits (runStep now) (runSt p pending) s) (J : Process → Prop)
    (h0 : J p) (hJ : ∀ s s', FsmOk D s → J s.pr → RunTurn D now s s' → J s'.pr) : J s.pr :=
  hv.inv (fun s => J s.pr) h0 fun a b hva ha hab =>
    hJ a b (visits_fsmOk hD hva) ha (runStep_turn (visits_fsmOk hD hva) hab).1

/-- The rule of `run_inv` for an invariant of the process alone. -/
theorem run_process_inv {p : Process} {pending : List Datagram} {r : RunRes}
    (h : run now p pending = .ok r) (hD : ∀ d ∈ pending, D d) (J : Process → Prop) (h0 : J p)
    (hJ : ∀ s s', FsmOk D s → J s.pr → RunTurn D now s s' → J s'.pr) : J r.pr := by
  obtain ⟨s, hs, hr⟩ := run_inv h hD (fun s => J s.pr) h0 fun s s' _ hok hs ht => hJ s s' hok hs ht
  rw [hr]
  exact hs

/-! ## Every call returns or halts -/

/-- How many turns a state can be from taking its next datagram. -/
def rank : ProcState → ℕ
  | .procEnd => 0
  | .getPkt | .clearGetPkt | .procSyn | .procFin | .ackWithoutData => 1
  | .ackWithDataLessExpectedSeq | .ackDatarecsuccSendbackAck | .ackDatarecsuccNoSendbackAck => 2
  | .pktRecovery | .ackWithDataMoreExpectedSeq => 3
  | .ackWithDataMatchExpectedSeq => 4

def turnsLeft (s : RunSt) : ℕ := 6 * s.pending.length + rank s.state

theorem rank_after {st : ProcState} {P : Prop} (h : st = .procEnd ∨ st = .clearGetPkt ∧ P) :
    rank st ≤ 1 := by
  rcases h with rfl | ⟨rfl, _⟩ <;> decide

theorem turnsLeft_goto (s : RunSt) (p : Process) (st : ProcState) (h : rank st < rank s.state) :
    turnsLeft (s.goto p st) < turnsLeft s := Nat.add_lt_add_left h _

theorem RunTurn.turnsLeft_lt {s s' : RunSt} (h : RunTurn D now s s') : turnsLeft s' < turnsLeft s := by
  cases h with
  | @receive d rest st hs hp hc =>
    have hst : rank st ≤ 4 := by cases st <;> decide
    have hone : rank s.state = 1 := by rcases hs with hs | hs <;> rw [hs] <;> rfl
    unfold turnsLeft
    rw [hp, hone, List.length_cons]
    show 6 * rest.length + rank st < _
    omega
  | old hs hst | sendback hs _ hst | noSendback hs hst =>
    exact turnsLeft_goto s _ _ (lt_of_le_of_lt (rank_after hst) (by rw [hs]; decide))
  | syn hs | fin hs | ack hs | recovered hs | unrecovered hs | inOrder hs | future hs =>
    exact turnsLeft_goto s _ _ (by rw [hs]; decide)

end Process
end TcpOverUdp
