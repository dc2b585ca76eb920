import TcpOverUdp.Proof.Automaton
import TcpOverUdp.Proof.TimerHeap

/-! # Handling an acknowledgment

`AckEffect` is all that `run` does to a process between classifying a pure ACK and calling `send`. On
an established socket a call of `run` that finds a pure ACK does just that and leaves the other
datagrams where they are (`run_pureAck`).
-/
namespace TcpOverUdp
open MachineInt
set_option autoImplicit false

namespace Timer

/-- `cal_rto` changes the two time estimates. -/
theorem calRto_frame (stb : SockTb) (nt : Node) (recvT : ℕ) :
    ∃ rtt rto, calRto stb nt recvT = { stb with tc := { stb.tc with tRtt := rtt, tRto := rto } } := by
  unfold calRto
  split
  · exact ⟨stb.tc.tRtt, stb.tc.tRto, rfl⟩
  · exact ⟨_, _, rfl⟩

end Timer

namespace Process

/-- The effect on a process of an ACK with the number `a`. -/
structure AckEffect (p q : Process) (a : ℕ) : Prop where
  table_eq : q.stb = { p.stb with tc := q.stb.tc }
  sndNxt_eq : q.stb.tc.sndNxt = p.stb.tc.sndNxt
  rcvNxt_eq : q.stb.tc.rcvNxt = p.stb.tc.rcvNxt
  tDelackState_eq : q.stb.tc.tDelackState = p.stb.tc.tDelackState
  sndUna_eq : q.stb.tc.sndUna = max p.stb.tc.sndUna a
  stp_eq : q.stp = p.stp
  ackdeque_eq : q.ackdeque = p.ackdeque
  heap_from : HeapFrom p.timerheap q.timerheap
  sent_eq : ∃ txs, q.sent = p.sent ++ txs ∧
    ∀ tx ∈ txs, ∃ n ∈ p.timerheap.elems, tx = Timer.sendpkt q.stb n

/-- What the handler has done with a new ACK, a duplicate, a duplicate that makes it retransmit, or an old
one. -/
inductive HandledAck (now : ℕ) (p : Process) (tp : TouPkg) : Process → Prop
  | new {r : TimerHeap × Option Node} {rtt rto : ℕ} (hgt : p.stb.tc.sndUna < tp.t.ackSeq)
      (hr : Timer.deleteTimer p.stb.sockd timerIdSndpkt tp.t.ackSeq p.timerheap = .ok r) :
      HandledAck now p tp { p with
        stb := { p.stb with tc := { p.stb.tc.addwnd.2 with
          sndUna := tp.t.ackSeq
          tRtt := rtt
          tRto := rto } }
        timerheap := r.1 }
  | dup (heq : tp.t.ackSeq = p.stb.tc.sndUna) :
      HandledAck now p tp { p with stb := { p.stb with tc := (p.stb.tc.setdwnd tp.t.ackSeq).2 } }
  | rexmit {stb : SockTb} {r : Bool × TimerHeap × List Tx} (heq : tp.t.ackSeq = p.stb.tc.sndUna)
      (hstb : stb = { p.stb with tc := (p.stb.tc.setdwnd tp.t.ackSeq).2 })
      (hr : Timer.rexmitForDupAck (fun _ => stb) stb.sockd timerIdSndpkt tp.t.ackSeq now p.timerheap =
        .ok r) :
      HandledAck now p tp { p with stb := stb, timerheap := r.2.1, sent := p.sent ++ r.2.2 }
  | old (hlt : tp.t.ackSeq < p.stb.tc.sndUna) :
      HandledAck now p tp { p with stb := { p.stb with tc := p.stb.tc.addwnd.2 } }

theorem handleAck_ok {now : ℕ} {p q : Process} {tp : TouPkg} (h : handleAck now p tp = .ok q) :
    HandledAck now p tp q := by
  unfold handleAck procAck at h
  rcases lt_trichotomy tp.t.ackSeq p.stb.tc.sndUna with hlt | heq | hgt
  · simp only [if_neg (show ¬ tp.t.ackSeq > p.stb.tc.sndUna by omega),
      if_neg (show ¬ tp.t.ackSeq = p.stb.tc.sndUna by omega)] at h
    cases h
    exact HandledAck.old hlt
  · simp only [if_neg (show ¬ tp.t.ackSeq > p.stb.tc.sndUna by omega), if_pos heq] at h
    split at h
    · obtain ⟨r, hr, hq⟩ := of_bind_ok h
      cases hq
      exact HandledAck.rexmit heq rfl hr
    · cases h
      exact HandledAck.dup heq
  · simp only [if_pos (show tp.t.ackSeq > p.stb.tc.sndUna from hgt)] at h
    obtain ⟨r, hr, hq⟩ := of_bind_ok h
    cases hnode : r.2 with
    | none =>
      rw [hnode] at hq
      cases hq
      exact HandledAck.new hgt hr
    | some nt =>
      rw [hnode] at hq
      cases hq
      obtain ⟨rtt, rto, hcal⟩ := Timer.calRto_frame
        { p.stb with tc := { p.stb.tc.addwnd.2 with sndUna := tp.t.ackSeq } } nt now
      simp only [hcal]
      exact HandledAck.new hgt hr

theorem handleAck_effect {now : ℕ} {p q : Process} {tp : TouPkg} (h : handleAck now p tp = .ok q) :
    AckEffect p q tp.t.ackSeq := by
  have hadd := p.stb.tc.addwnd_frame
  have hset := p.stb.tc.setdwnd_frame tp.t.ackSeq
  cases handleAck_ok h with
  | new hgt hr =>
    have hheap := HeapFrom.of_suffix (Timer.deleteTimer_suffix hr)
    have hmax : tp.t.ackSeq = max p.stb.tc.sndUna tp.t.ackSeq := by omega
    exact ⟨rfl, hadd.sndNxt, hadd.rcvNxt, hadd.tDelackState, hmax, rfl, rfl, hheap,
      ⟨[], (List.append_nil _).symm, by simp⟩⟩
  | dup heq =>
    have hmax : max p.stb.tc.sndUna tp.t.ackSeq = p.stb.tc.sndUna := by omega
    exact ⟨rfl, hset.sndNxt, hset.rcvNxt, hset.tDelackState, hset.sndUna.trans hmax.symm, rfl, rfl,
      HeapFrom.refl _, ⟨[], (List.append_nil _).symm, by simp⟩⟩
  | rexmit heq hstb hr =>
    subst hstb
    obtain ⟨hfrom, hsent⟩ := Timer.rexmitForDupAck_from hr
    have hmax : max p.stb.tc.sndUna tp.t.ackSeq = p.stb.tc.sndUna := by omega
    exact ⟨rfl, hset.sndNxt, hset.rcvNxt, hset.tDelackState, hset.sndUna.trans hmax.symm, rfl, rfl,
      hfrom, ⟨_, rfl, hsent⟩⟩
  | old hlt =>
    have hmax : max p.stb.tc.sndUna tp.t.ackSeq = p.stb.tc.sndUna := by omega
    exact ⟨rfl, hadd.sndNxt, hadd.rcvNxt, hadd.tDelackState, hadd.sndUna.trans hmax.symm, rfl, rfl,
      HeapFrom.refl _, ⟨[], (List.append_nil _).symm, by simp⟩⟩

/-! ## A call of `run` that finds a pure ACK -/

/-- The datagram is a pure ACK with the number `a`. -/
structure IsPureAck (d : Datagram) (a : ℕ) : Prop where
  size_ge : 16 ≤ d.bytes.length
  syn : (recvPkg d).t.syn = false
  fin : (recvPkg d).t.fin = false
  ack : (recvPkg d).t.ack = true
  buf : (recvPkg d).buf = []
  ackSeq : (recvPkg d).t.ackSeq = a

/-- A SYN-ACK as `touAccept` sends it. -/
def synAckFrom (src : Addr) (seq ackSeq : ℕ) : Datagram :=
  { src := src, bytes := (((ackpkt.putHeaderSeq seq ackSeq).setSyn true).setAck true).toString }

/-- A segment from the peer at `src`. -/
def segmentFrom (src : Addr) (seq ackSeq : ℕ) (payload : List Byte) : Datagram :=
  { src := src, bytes := (TouPkg.segment seq ackSeq payload).toString }

theorem recvPkg_segmentFrom (src : Addr) {seq ackSeq : ℕ} {payload : List Byte}
    (hs : seq < 4294967296) (ha : ackSeq < 4294967296) (hp : payload.length ≤ 1984) :
    recvPkg (segmentFrom src seq ackSeq payload) = TouPkg.segment seq ackSeq payload := by
  have hw := TouPkg.segment_wellFormed hs ha (show payload.length < 2147483648 by omega)
  have hlen := TouPkg.toString_length hw
  have htake : (segmentFrom src seq ackSeq payload).bytes.take recvBufSize =
      (TouPkg.segment seq ackSeq payload).toString := by
    refine List.take_of_length_le ?_
    show (TouPkg.segment seq ackSeq payload).toString.length ≤ recvBufSize
    rw [hlen, TouPkg.segment_buf]
    unfold recvBufSize
    omega
  unfold recvPkg
  rw [htake]
  exact TouPkg.ofString_segment hs ha (by omega)

theorem isPureAck_segmentFrom (src : Addr) {seq a : ℕ} (hs : seq < 4294967296) (ha : a < 4294967296) :
    IsPureAck (segmentFrom src seq a []) a := by
  have hpkt : recvPkg (segmentFrom src seq a []) = TouPkg.segment seq a [] :=
    recvPkg_segmentFrom src hs ha (by decide)
  have hw : (TouPkg.segment seq a []).WellFormed :=
    TouPkg.segment_wellFormed hs ha (by decide)
  have hlen := TouPkg.toString_length hw
  refine ⟨?_, ?_, ?_, ?_, ?_, ?_⟩
  · show 16 ≤ (TouPkg.segment seq a []).toString.length
    omega
  all_goals
    rw [hpkt]
    rfl

theorem classify_pureAck {stb : SockTb} {d : Datagram} {a : ℕ} (hd : IsPureAck d a)
    (hst : stb.sockstate = .established) :
    processGetPktState stb (recvPkg d) =
      if a ≤ stb.tc.sndNxt then .ok .ackWithoutData else .error (.exit .processGetPktState) := by
  unfold processGetPktState
  simp only [hd.syn, hd.fin, hd.ack, hd.buf, hd.ackSeq, hst, List.length_nil, true_and,
    Bool.false_eq_true, if_false, lt_irrefl, false_and, ge_iff_le]

/-- From `PROCESS_ACK_WITHOUT_DATA` on, the automaton handles the ACK, sends and ends. -/
theorem runLoop_ackWithoutData (now k : ℕ) {s : RunSt} {tp : TouPkg} (hs : s.state = .ackWithoutData)
    (htp : s.tp = some tp) :
    fuelLoop .outOfFuel (runStep now) (k + 2) s = (do
      let p1 ← handleAck now s.pr tp
      let p2 ← send now p1
      return { rv := s.rv, pr := p2, pending := s.pending }) := by
  have hack : runStep now s = (do
      let p1 ← handleAck now s.pr tp
      let p2 ← send now p1
      return .next { s with pr := p2, state := .procEnd }) := by
    unfold runStep readTp
    rw [hs, htp]
    rfl
  cases h1 : handleAck now s.pr tp with
  | error e =>
    rw [h1, error_bind] at hack
    exact fuelLoop_halt hack
  | ok p1 =>
    obtain ⟨p2, _, h2, _⟩ := send_emitted now p1
    rw [h1, ok_bind, h2, ok_bind] at hack
    rw [ok_bind, h2, ok_bind]
    have hend : runStep now { s with pr := p2, state := .procEnd } =
        .ok (.done { rv := s.rv, pr := p2, pending := s.pending }) := rfl
    exact (fuelLoop_next hack).trans (fuelLoop_done hend)

theorem run_pureAck (now : ℕ) {p : Process} {d : Datagram} {a : ℕ} (rest : List Datagram)
    (hd : IsPureAck d a) (hst : p.stb.sockstate = .established) (hrs : p.stb.runstate = .getPkt) :
    run now p (d :: rest) =
      if a ≤ p.stb.tc.sndNxt then do
        let p1 ← handleAck now p (recvPkg d)
        let p2 ← send now p1
        return { rv := (d.bytes.take recvBufSize).length, pr := p2, pending := rest }
      else .error (.exit .processGetPktState) := by
  have hne : d.bytes ≠ [] := by
    intro h
    have hsize := hd.size_ge
    rw [h] at hsize
    simp at hsize
  have hk : runFuel (d :: rest) = (6 * rest.length + 11) + 2 + 1 := by
    unfold runFuel
    rw [List.length_cons]
    omega
  have hfirst : runStep now (runSt p (d :: rest)) = getPkt (runSt p (d :: rest)) := by
    have hstate : (runSt p (d :: rest)).state = .getPkt := by
      unfold runSt
      rw [hrs]
      rfl
    unfold runStep
    rw [hstate]
  have hget := getPkt_cons (s := runSt p (d :: rest)) rfl hne
  have hpr : (runSt p (d :: rest)).pr = p := rfl
  rw [hpr, classify_pureAck hd hst] at hget
  unfold run
  rw [hk]
  by_cases ha : a ≤ p.stb.tc.sndNxt
  · rw [if_pos ha] at hget ⊢
    rw [fuelLoop_next (hfirst.trans hget)]
    exact runLoop_ackWithoutData now _ rfl rfl
  · rw [if_neg ha] at hget ⊢
    rw [fuelLoop_halt (hfirst.trans hget)]

end Process
end TcpOverUdp
