import TcpOverUdp.Model.RunEvents
import TcpOverUdp.Proof.Exits
import TcpOverUdp.Proof.Receiver

/-! # What one call of `run` takes

Every call ends. What it takes is the front of the pending datagrams, and each datagram it took was
classified once, right after. Only the first turn takes a datagram without looking at the room in
`cb_recv` and at `runstate`.
-/
namespace TcpOverUdp
open MachineInt
set_option autoImplicit false

/-! ## The loops inside a turn -/

namespace Timer

theorem procClearAckedpktLoop_enough (cid tid una : ℕ) {h : TimerHeap} {k : ℕ} (hk : h.size ≤ k) :
    procClearAckedpktLoop cid tid una k h = deleteTimer cid tid una h := by
  refine fuel_enough MinHeap.size (fun h k h0 => ?_) (fun h hpos => ?_) hk
  · cases k with
    | zero => rfl
    | succ k =>
      show procClearAckedpktLoop cid tid una (k + 1) h = .ok (h, none)
      rw [procClearAckedpktLoop, MinHeap.top?_of_size_zero h0]
  · obtain ⟨n, hn⟩ := MinHeap.exists_top? hpos
    by_cases hpop : n.tId = tid ∧ n.cId = cid ∧ n.pId < una
    · refine Or.inr ⟨h.pop, by rw [MinHeap.size_pop]; omega, fun k => ?_⟩
      rw [procClearAckedpktLoop, hn]
      simp only [if_pos hpop]
    · refine Or.inl fun k => ?_
      rw [procClearAckedpktLoop, procClearAckedpktLoop, hn]
      simp only [if_neg hpop]

theorem rexmitForDupAckLoop_enough (tb : SockPtr → SockTb) (cid tid pid now : ℕ) {h : TimerHeap} {k : ℕ}
    (hk : h.size ≤ k) :
    rexmitForDupAckLoop tb cid tid pid now k h = rexmitForDupAck tb cid tid pid now h := by
  refine fuel_enough MinHeap.size (fun h k h0 => ?_) (fun h hpos => ?_) hk
  · cases k with
    | zero => rfl
    | succ k =>
      show rexmitForDupAckLoop tb cid tid pid now (k + 1) h = .ok (false, h, [])
      rw [rexmitForDupAckLoop, MinHeap.top?_of_size_zero h0]
  · obtain ⟨n, hn⟩ := MinHeap.exists_top? hpos
    by_cases hpop : n.cId = cid ∧ n.tId = tid ∧ u32 ((n.pId : ℤ) - n.payloadSize) < pid
    · refine Or.inr ⟨h.pop, by rw [MinHeap.size_pop]; omega, fun k => ?_⟩
      rw [rexmitForDupAckLoop, hn]
      simp only [if_pos hpop]
      rw [if_neg fun heq => by omega]
    · refine Or.inl fun k => ?_
      rw [rexmitForDupAckLoop, rexmitForDupAckLoop, hn]
      simp only [if_neg hpop]

end Timer

namespace Process

theorem doProcPktRecLoop_enough {stb : SockTb} {k : ℕ} (hk : stb.minhpRecv.size ≤ k) :
    doProcPktRecLoop k stb = doProcPktRec stb := by
  refine fuel_enough (fun stb : SockTb => stb.minhpRecv.size) (fun stb k h0 => ?_) (fun stb hpos => ?_) hk
  · cases k with
    | zero => rfl
    | succ k =>
      show doProcPktRecLoop (k + 1) stb = .ok (0, stb)
      rw [doProcPktRecLoop, MinHeap.top?_of_size_zero h0]
  · obtain ⟨top, htop⟩ := MinHeap.exists_top? hpos
    rcases lt_trichotomy top.t.seq stb.tc.rcvNxt with hlt | heq | hgt
    · refine Or.inl fun k => ?_
      rw [doProcPktRecLoop, doProcPktRecLoop, htop]
      simp only [if_neg (show ¬ top.t.seq ≥ stb.tc.rcvNxt by omega)]
    · obtain ⟨n, cb, hput⟩ := putcircbuf_frame stb top.buf top.buf.length
      have hoff : Offered stb top n cb := ⟨htop, heq, hput⟩
      by_cases hn : n > 0
      · refine Or.inr ⟨movedTable stb top cb, ?_, fun k => ?_⟩
        · have hsize := MinHeap.size_pop stb.minhpRecv
          show stb.minhpRecv.pop.size < stb.minhpRecv.size
          omega
        · rw [doProcPktRecLoop_offered hoff, if_pos hn]
      · refine Or.inl fun k => ?_
        rw [doProcPktRecLoop_offered hoff, doProcPktRecLoop_offered hoff, if_neg hn, if_neg hn]
    · refine Or.inl fun k => ?_
      rw [doProcPktRecLoop, doProcPktRecLoop, htop]
      simp only [if_pos hgt.le, if_neg hgt.ne']

/-- The loops that a turn calls end by their own conditions: more turns than the sizes of the heaps change
nothing, and `send` returns. -/
structure InnerLoopsEnd (now : ℕ) : Prop where
  recovery : ∀ stb k, stb.minhpRecv.size ≤ k → doProcPktRecLoop k stb = doProcPktRec stb
  clearAcked : ∀ cid tid una (h : TimerHeap) k, h.size ≤ k →
    Timer.procClearAckedpktLoop cid tid una k h = Timer.deleteTimer cid tid una h
  rexmit : ∀ tb cid tid pid (h : TimerHeap) k, h.size ≤ k →
    Timer.rexmitForDupAckLoop tb cid tid pid now k h = Timer.rexmitForDupAck tb cid tid pid now h
  send : ∀ p, ∃ q, send now p = .ok q

theorem innerLoopsEnd (now : ℕ) : InnerLoopsEnd now where
  recovery _ _ hk := doProcPktRecLoop_enough hk
  clearAcked cid tid una _ _ hk := Timer.procClearAckedpktLoop_enough cid tid una hk
  rexmit tb cid tid pid _ _ hk := Timer.rexmitForDupAckLoop_enough tb cid tid pid now hk
  send p := by
    obtain ⟨q, _, hq, _⟩ := send_emitted now p
    exact ⟨q, hq⟩

/-! ## Turns that receive -/

section Turn
variable {D : Datagram → Prop} {now : ℕ} {s s' : RunSt} {d : Datagram} {rest : List Datagram}

/-- The states in which `run` calls `run_recvfrom`. -/
def Receives (st : ProcState) : Prop := st = .getPkt ∨ st = .clearGetPkt

/-- A datagram is taken, and its packet is classified. -/
def takenOnce (d : Datagram) : List RunEvent := [.take d, .classify (recvPkg d)]

theorem stepEvents_receives (hs : Receives s.state) : stepEvents s = recvEvents s := by
  unfold stepEvents
  rcases hs with hs | hs <;> rw [hs]

theorem stepEvents_other (hs : ¬ Receives s.state) : stepEvents s = [] := by
  unfold stepEvents
  cases hst : s.state with
  | getPkt => exact absurd (Or.inl hst) hs
  | clearGetPkt => exact absurd (Or.inr hst) hs
  | _ => rfl

theorem recvEvents_nil (hp : s.pending = []) : recvEvents s = [] := by
  unfold recvEvents
  rw [hp]

theorem recvEvents_cons (hp : s.pending = d :: rest) (hd : d.bytes ≠ []) : recvEvents s = takenOnce d := by
  unfold recvEvents runRecvfrom
  simp only [hp, if_neg (received_length_ne_zero hd)]
  rfl

theorem RunTurn.pending_eq (h : RunTurn D now s s') (hs : ¬ Receives s.state) : s'.pending = s.pending := by
  cases h with
  | receive hst => exact absurd hst hs
  | _ => rfl

/-- A turn takes at most one datagram, and then classifies its packet. -/
theorem queueTurn_runStep (hD : ∀ d, D d → d.bytes ≠ []) (hok : FsmOk D s) :
    QueueTurn takenOnce (runStep now) RunSt.pending RunRes.pending stepEvents s := by
  by_cases hs : Receives s.state
  · have hev := stepEvents_receives hs
    cases hp : s.pending with
    | nil =>
      have hstep : runStep now s = _ := (runStep_receives hs).trans (getPkt_nil hp)
      rw [recvEvents_nil hp] at hev
      refine ⟨fun s' h => ?_, fun r h => ?_, fun e h => ?_⟩
      · rw [hstep] at h
        cases h
      · rw [hstep] at h
        cases h
        rw [hp, hev]
        exact Consumed.refl []
      · rw [hstep] at h
        cases h
    | cons d rest =>
      have hd : d.bytes ≠ [] := hD d (hok.pending d (hp ▸ List.mem_cons_self))
      have hstep : runStep now s = _ := runStep_receives_cons hs hp hd
      rw [recvEvents_cons hp hd] at hev
      refine ⟨fun s' h => ?_, fun r h => ?_, fun e h => ?_⟩
      · rw [hstep] at h
        obtain ⟨st, _, hst⟩ := of_bind_ok h
        cases hst
        rw [hp, hev]
        exact Consumed.one d rest
      · rw [hstep] at h
        obtain ⟨st, _, hst⟩ := of_bind_ok h
        cases hst
      · rw [hp, hev]
        exact ⟨rest, Consumed.one d rest⟩
  · have hev := stepEvents_other hs
    refine ⟨fun s' h => ?_, fun r h => ?_, fun e h => ⟨s.pending, ?_⟩⟩
    · rw [hev, (runStep_turn hok h).1.pending_eq hs]
      exact Consumed.refl _
    · rw [hev]
      rcases runStep_done_cases h with ⟨_, hr⟩ | ⟨hrec, _⟩
      · rw [hr]
        exact Consumed.refl _
      · exact absurd hrec hs
    · rw [hev]
      exact Consumed.refl _

/-- What a turn classifies decides the state it goes to. -/
theorem classified_of_event (hD : ∀ d, D d → d.bytes ≠ []) (hok : FsmOk D s)
    (h : runStep now s = .ok (.next s')) {tp : TouPkg} (hev : .classify tp ∈ stepEvents s) :
    s'.tp = some tp ∧ processGetPktState s.pr.stb tp = .ok s'.state := by
  by_cases hs : Receives s.state
  · rw [stepEvents_receives hs] at hev
    cases hp : s.pending with
    | nil =>
      rw [recvEvents_nil hp] at hev
      cases hev
    | cons d rest =>
      have hd : d.bytes ≠ [] := hD d (hok.pending d (hp ▸ List.mem_cons_self))
      have htp : tp = recvPkg d := by
        rw [recvEvents_cons hp hd] at hev
        simpa [takenOnce] using hev
      rw [runStep_receives_cons hs hp hd] at h
      obtain ⟨st, hc, hst⟩ := of_bind_ok h
      cases hst
      rw [htp]
      exact ⟨rfl, hc⟩
  · rw [stepEvents_other hs] at hev
    cases hev

/-- A turn that takes a datagram does not end the call. -/
theorem not_done_of_take (hD : ∀ d, D d → d.bytes ≠ []) (hok : FsmOk D s) (hev : .take d ∈ stepEvents s)
    (r : RunRes) : runStep now s ≠ .ok (.done r) := by
  intro h
  by_cases hs : Receives s.state
  · rw [stepEvents_receives hs] at hev
    cases hp : s.pending with
    | nil =>
      rw [recvEvents_nil hp] at hev
      cases hev
    | cons d' rest =>
      have hd : d'.bytes ≠ [] := hD d' (hok.pending d' (hp ▸ List.mem_cons_self))
      rw [runStep_receives_cons hs hp hd] at h
      obtain ⟨st, _, hst⟩ := of_bind_ok h
      cases hst
  · rw [stepEvents_other hs] at hev
    cases hev

/-! ## Room for what is taken -/

/-- What `run` looks for before it takes another datagram. -/
def HasRoom (p : Process) : Prop := recvBufSize ≤ p.stb.cbRecv.getAvSize ∧ p.stb.runstate = .getPkt

theorem not_receives_of_classified {stb : SockTb} {tp : TouPkg} {st : ProcState}
    (h : processGetPktState stb tp = .ok st) : ¬ Receives st := by
  cases classified_of_ok h <;> rintro (h | h) <;> cases h

/-- After a turn, `run` takes a datagram only if there is room. -/
theorem RunTurn.hasRoom (ht : RunTurn D now s s') (hput : PutOff s) (hs' : Receives s'.state) :
    HasRoom s'.pr := by
  have hend : ¬ Receives .procEnd := by rintro (h | h) <;> cases h
  cases ht with
  | receive _ _ hc => exact absurd hs' (not_receives_of_classified hc)
  | syn | fin | ack => exact absurd hs' hend
  | recovered | unrecovered | inOrder | future => rcases hs' with h | h <;> cases h
  | old hst hnew =>
    rcases hnew with rfl | ⟨rfl, hav⟩
    · exact absurd hs' hend
    · exact ⟨hav, hput.runstate_eq hst (by decide)⟩
  | sendback _ _ hnew | noSendback _ hnew =>
    rcases hnew with rfl | ⟨rfl, hroom⟩
    · exact absurd hs' hend
    · exact hroom

end Turn

/-! ## One call -/

section Call
variable {now : ℕ} {p : Process} {pending : List Datagram}

structure ConsumesOnce (now : ℕ) (p : Process) (pending : List Datagram) : Prop where
  ends : run now p pending ≠ .error .outOfFuel
  enough : ∀ k, runFuel pending ≤ k →
    fuelLoop .outOfFuel (runStep now) k (runSt p pending) = run now p pending ∧
      loopLog (runStep now) stepEvents k (runSt p pending) = runEvents now p pending
  loops : InnerLoopsEnd now
  once : ∃ taken rest, pending = taken ++ rest ∧ runEvents now p pending = taken.flatMap takenOnce ∧
    ∀ r, run now p pending = .ok r → r.pending = rest
  classified : ∀ s t tp, Visits (runStep now) (runSt p pending) s → runStep now s = .ok (.next t) →
    .classify tp ∈ stepEvents s → t.tp = some tp ∧ processGetPktState s.pr.stb tp = .ok t.state
  goes_on : ∀ s d r, Visits (runStep now) (runSt p pending) s → .take d ∈ stepEvents s →
    runStep now s ≠ .ok (.done r)
  further : ∀ s t d, Visits (runStep now) (runSt p pending) s → runStep now s = .ok (.next t) →
    .take d ∈ stepEvents t → HasRoom t.pr

/-- Every call of `run` ends, takes the front of what is pending, classifies each datagram of it once,
and takes one after its first turn only with room in `cb_recv` and no recovery left to do. -/
theorem run_consumes_once (now : ℕ) (p : Process) (pending : List Datagram)
    (h16 : ∀ d ∈ pending, 16 ≤ d.bytes.length) : ConsumesOnce now p pending := by
  have hD : ∀ d : Datagram, 16 ≤ d.bytes.length → d.bytes ≠ [] :=
    fun d hd => List.ne_nil_of_length_pos (by omega)
  have hends := run_ne_outOfFuel now p pending
  have hvisit : ∀ {s}, Visits (runStep now) (runSt p pending) s →
      FsmOk (fun d => 16 ≤ d.bytes.length) s ∧ PutOff s := by
    intro s hv
    refine ⟨visits_fsmOk h16 hv, hv.inv PutOff (putOff_start p pending) fun a b hva ha hab => ?_⟩
    exact ha.turn (runStep_turn (visits_fsmOk h16 hva) hab).1
  refine ⟨hends, fun k hk => ⟨fuelLoop_of_le hk hends, loopLog_of_le hk hends⟩, innerLoopsEnd now,
    ?_, ?_, fun s d r hv hev => not_done_of_take hD (hvisit hv).1 hev r, ?_⟩
  · obtain ⟨rest, ⟨taken, hpend, hlog⟩, hleft⟩ : ∃ rest,
        Consumed takenOnce pending rest (runEvents now p pending) ∧
          ∀ r, run now p pending = .ok r → r.pending = rest :=
      loopLog_consumed (FsmOk fun d => 16 ≤ d.bytes.length) (fun a b ha hab => (runStep_turn ha hab).2)
        (fun a ha => queueTurn_runStep hD ha) (runFuel pending) (fsmOk_start p h16)
    exact ⟨taken, rest, hpend, hlog, hleft⟩
  · intro s t tp hv hstep hev
    exact classified_of_event hD (hvisit hv).1 hstep hev
  · intro s t d hv hstep hev
    refine (runStep_turn (hvisit hv).1 hstep).1.hasRoom (hvisit hv).2 ?_
    by_contra ht
    rw [stepEvents_other ht] at hev
    cases hev

/-- Two datagrams that are headers with the SYN flag. -/
theorem run_consumes_once_two : ∃ d : Datagram, (recvPkg d).t.syn = true ∧
    ConsumesOnce 0 (init 3 0) [d, d] :=
  ⟨⟨⟨0, 0⟩, List.replicate 16 2⟩, by decide, run_consumes_once 0 (init 3 0) _ (by decide)⟩

end Call

end Process
end TcpOverUdp
