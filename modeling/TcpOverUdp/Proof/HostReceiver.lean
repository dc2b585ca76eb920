import TcpOverUdp.Proof.HostRuns
import TcpOverUdp.Proof.EndToEnd
import TcpOverUdp.Proof.StalledRecovery

/-! # The stream at a receiver whose threads take their steps in any order

`Reading` is `Received` for a process whose threads stand anywhere. Between two steps of `run` a payload can be on
its way: in the in-order branch `rcv_nxt` counts it before `putcircbuf` gets it (`unputOf`), in recovery
`putcircbuf` gets it before `rcv_nxt` counts it (`uncountedOf`). The reader takes bytes out of `cb_recv` in one step
and hands them out in another. Nobody but `run` appends to `cb_recv`, so what had room keeps it.
-/
namespace TcpOverUdp
open MachineInt Pieces
set_option autoImplicit false

namespace Process

/-- The bytes that the reader has taken out of `cb_recv` and not handed out yet. -/
def takenOf : Option RecvAt → List Byte
  | some (.check _ data) => data
  | _ => []

/-- What the local variables of `touRecv` say. -/
def RecvAt.Ok (p : Process) : RecvAt → Prop
  | .remove readsize data => ∃ n : ℕ, readsize = n ∧ n ≤ p.stb.cbRecv.contents.length ∧
      data = p.stb.cbRecv.contents.take n
  | .check readsize data => readsize = data.length

/-- The bytes of the peer's stream that are in `cb_recv` or were taken out of it. -/
def storedOf (c : Host) : List Byte := c.returned ++ takenOf c.recv ++ c.pr.stb.cbRecv.contents

/-- The payload that `rcv_nxt` counts and `putcircbuf` has not got yet. -/
def unputOf : Option RunAt → List Byte
  | some (.take r .putcircbuf) => (r.tp.map TouPkg.buf).getD []
  | _ => []

/-- The payload that `putcircbuf` has got and `rcv_nxt` does not count yet. -/
def uncountedOf : Option RunAt → List Byte
  | some (.take _ (.recTCBRcv top)) => top.buf
  | _ => []

/-- The bytes of the peer's stream that `run` has taken in order, stored or about to be. -/
def receivedOf (c : Host) : List Byte := storedOf c ++ unputOf c.run

theorem RunBeside.unputOf {o o' : Option RunAt} (h : RunBeside o o') :
    Process.unputOf o' = Process.unputOf o := by
  cases h with
  | same => rfl
  | @ack a b ha hb =>
    cases a <;> cases b <;> first | rfl | exact absurd ha id | exact absurd hb id

theorem RunBeside.uncountedOf {o o' : Option RunAt} (h : RunBeside o o') :
    Process.uncountedOf o' = Process.uncountedOf o := by
  cases h with
  | same => rfl
  | @ack a b ha hb =>
    cases a <;> cases b <;> first | rfl | exact absurd ha id | exact absurd hb id

/-- A datagram that `run` takes first in a call, before it looks at `cb_recv`, finds room if it is the
segment that is expected. -/
def RoomWhenTaken (c : Host) (r : RunVars) : Prop := r.state = .getPkt → RoomForNext c.pr c.queue

/-- The packet that is handled, or the next one, fits. -/
structure Fits (s : RunSt) : Prop where
  later : s.state = .clearGetPkt → (recvBufSize : ℤ) ≤ s.pr.stb.cbRecv.getAvSize
  room : s.state = .ackWithDataMatchExpectedSeq → ∀ tp, s.tp = some tp →
    (tp.buf.length : ℤ) < s.pr.stb.cbRecv.getAvSize

section Fits
variable {D : Datagram → Prop} {s s' : RunSt}

theorem Fits.receive (hroom : s.state = .getPkt → RoomForNext s.pr s.pending) (hout : PutOff s) (hf : Fits s)
    {d : Datagram} {rest : List Datagram} {st : ProcState} (hs : s.state = .getPkt ∨ s.state = .clearGetPkt)
    (hp : s.pending = d :: rest) (hc : processGetPktState s.pr.stb (recvPkg d) = .ok st) :
    Fits (s.took d rest st) := by
  have ht := @RunTurn.receive (fun _ => True) 0 s d rest st hs hp hc
  by_cases hst : s.state = .getPkt
  · have hg : Gated s.pr s.pending s :=
      ⟨fun h => ⟨rfl, rfl, hout.runstate_eq h (by decide)⟩, hf.later, hf.room⟩
    have hg' := hg.turn (hroom hst) ht
    exact ⟨hg'.later, hg'.room⟩
  · have hg : Gated s.pr [] s := ⟨fun h => absurd h hst, hf.later, hf.room⟩
    have hg' := hg.turn (fun _ _ _ h => by cases h) ht
    exact ⟨hg'.later, hg'.room⟩

theorem fits_start (p : Process) (pending : List Datagram) : Fits (runSt p pending) :=
  ⟨(gated_start p pending).later, (gated_start p pending).room⟩

/-- No data is handled next. -/
theorem fits_off (h1 : s.state ≠ .clearGetPkt) (h2 : s.state ≠ .ackWithDataMatchExpectedSeq) : Fits s :=
  ⟨fun h => absurd h h1, fun h => absurd h h2⟩

theorem fits_after {P : Prop}
    (h : s.state = .procEnd ∨ s.state = .clearGetPkt ∧ s.pr.stb.cbRecv.getAvSize ≥ recvBufSize ∧ P) :
    Fits s := by
  rcases h with h | ⟨h, hav, _⟩
  · exact fits_off (by rw [h]; decide) (by rw [h]; decide)
  · exact ⟨fun _ => hav, fun hst => absurd (hst.symm.trans h) (by decide)⟩

/-- With more room in `cb_recv` everything that fitted still fits. -/
theorem Fits.mono (hf : Fits s) (hst : s'.state = s.state) (htp : s'.tp = s.tp)
    (hav : s.pr.stb.cbRecv.getAvSize ≤ s'.pr.stb.cbRecv.getAvSize) : Fits s' := by
  refine ⟨fun h => le_trans (hf.later (hst ▸ h)) hav, fun h tp htp' => ?_⟩
  exact lt_of_lt_of_le (hf.room (hst ▸ h) tp (htp ▸ htp')) hav

theorem PutOff.mono (hs : PutOff s) (hst : s'.state = s.state)
    (hr : s'.pr.stb.runstate = s.pr.stb.runstate) : PutOff s' := by
  intro h
  rw [hst]
  exact hs (hr ▸ h)

end Fits

/-! ## The bytes up to a number -/

/-- `bytes` are those of the pieces up to the number `n`. -/
structure Holds (base : ℕ) (pieces : List (List Byte)) (bytes : List Byte) (n : ℕ) : Prop where
  boundary : Boundary base pieces n
  bytes_eq : bytes = pieces.flatten.take (n - base)

section Holds
variable {base n : ℕ} {pieces : List (List Byte)} {bytes : List Byte}

theorem Holds.stored (h : Holds base pieces bytes n) : bytes <+: pieces.flatten := by
  rw [h.bytes_eq]
  exact List.take_prefix _ _

theorem Holds.count (h : Holds base pieces bytes n) : n = base + bytes.length := by
  have hge := h.boundary.base_le
  have hle := h.boundary.le_last
  rw [h.bytes_eq, List.length_take]
  omega

theorem Holds.append (h : Holds base pieces bytes n) (more : List (List Byte)) :
    Holds base (pieces ++ more) bytes n := by
  have hle := h.boundary.le_last
  refine ⟨h.boundary.append more, ?_⟩
  rw [List.flatten_append, List.take_append_of_le_length (by omega)]
  exact h.bytes_eq

/-- A packet that begins behind them. -/
theorem Holds.put (h : Holds base pieces bytes n) {tp : TouPkg} (hp : EndsPiece base pieces tp)
    (hseq : tp.t.seq = n) : Holds base pieces (bytes ++ tp.buf) (n + tp.buf.length) := by
  subst hseq
  have hcut := hp.cutFrom
  have hjoin := extract_join (numberedStream base pieces) h.boundary.base_le (Nat.le_add_right _ tp.buf.length)
  refine ⟨hcut.end_boundary h.boundary, ?_⟩
  rw [← hcut.buf_eq h.boundary, extract_numberedStream, extract_numberedStream, ← h.bytes_eq] at hjoin
  exact hjoin

end Holds

/-! ## The invariant -/

/-- What holds where `run` stands, as long as segments are taken. -/
def RunAt.Taking (base : ℕ) (pieces : List (List Byte)) (c : Host) : RunAt → Prop
  | .turn r => PutOff (c.runSt r) ∧ Fits (c.runSt r)
  | .take _ .setSocketState | .take _ .setAckState => c.pr.stb.runstate = .getPkt
  | .take _ .setTCBRcv => False
  | .take r .putcircbuf => ∃ tp, r.tp = some tp ∧ 0 < tp.buf.length ∧
      (tp.buf.length : ℤ) < c.pr.stb.cbRecv.getAvSize
  | .take _ (.recPut top) | .take _ (.recTCBRcv top) =>
      top.t.seq = c.pr.stb.tc.rcvNxt ∧ EndsPiece base pieces top
  | _ => True

/-- `run` has taken the pieces up to `rcv_nxt`. -/
structure Storing (base : ℕ) (pieces : List (List Byte)) (c : Host) : Prop where
  established : c.pr.stb.sockstate = .established
  boundary : Boundary base pieces c.pr.stb.tc.rcvNxt
  holds : Holds base pieces (receivedOf c) (c.pr.stb.tc.rcvNxt + (uncountedOf c.run).length)
  held : ∀ pkt ∈ c.pr.stb.minhpRecv.elems, EndsPiece base pieces pkt
  run : ∀ pc, c.run = some pc → pc.Taking base pieces c

/-- Where `run` stands when a SYN was taken again. -/
def RunAt.AfterSyn : RunAt → Prop
  | .turn r => BeforeData r.state
  | .take _ pc => pc = .setSocketState ∨ pc = .setTCBRcv
  | _ => True

/-- A SYN was taken again: what was stored before is all there will be. -/
structure Ended (pieces : List (List Byte)) (c : Host) : Prop where
  sockstate : c.pr.stb.sockstate = .synReceived
  runstate : c.pr.stb.runstate = .getPkt
  stored : storedOf c <+: pieces.flatten
  run : ∀ pc, c.run = some pc → pc.AfterSyn

structure Reading (base : ℕ) (pieces : List (List Byte)) (c : Host) : Prop where
  standing : Storing base pieces c ∨ Ended pieces c
  recv_ok : ∀ pc, c.recv = some pc → pc.Ok c.pr

section Reading
variable {base n : ℕ} {pieces : List (List Byte)} {c c' : Host}

theorem RunAt.AfterSyn.unputOf {o : Option RunAt} (h : ∀ pc, o = some pc → pc.AfterSyn) :
    Process.unputOf o = [] := by
  cases o with
  | none => rfl
  | some pc =>
    cases pc with
    | take r pc => rcases h _ rfl with hpc | hpc <;> rw [hpc] <;> rfl
    | _ => rfl

theorem Reading.received_prefix (h : Reading base pieces c) : receivedOf c <+: pieces.flatten := by
  rcases h.standing with hs | he
  · exact hs.holds.stored
  · unfold receivedOf
    rw [RunAt.AfterSyn.unputOf he.run, List.append_nil]
    exact he.stored

theorem Reading.stored (h : Reading base pieces c) : c.returned <+: pieces.flatten := by
  have hprefix := h.received_prefix
  unfold receivedOf storedOf at hprefix
  rw [List.append_assoc, List.append_assoc] at hprefix
  exact (List.prefix_append _ _).trans hprefix

theorem RunAt.Taking.append {pc : RunAt} (h : pc.Taking base pieces c) (more : List (List Byte)) :
    pc.Taking base (pieces ++ more) c := by
  cases pc with
  | take r pc =>
    cases pc with
    | recPut top | recTCBRcv top => exact ⟨h.1, h.2.append more⟩
    | _ => exact h
  | _ => exact h

theorem Reading.append (h : Reading base pieces c) (more : List (List Byte)) :
    Reading base (pieces ++ more) c := by
  refine ⟨h.standing.imp (fun hs => ?_) fun he => ?_, h.recv_ok⟩
  · exact ⟨hs.established, hs.boundary.append more, hs.holds.append more,
      fun pkt hp => (hs.held pkt hp).append more, fun pc hpc => (hs.run pc hpc).append more⟩
  · refine ⟨he.sockstate, he.runstate, he.stored.trans ?_, he.run⟩
    rw [List.flatten_append]
    exact List.prefix_append _ _

theorem RecvAt.Ok.same {pc : RecvAt} {p q : Process} (h : pc.Ok p) (more : List Byte)
    (hc : q.stb.cbRecv.contents = p.stb.cbRecv.contents ++ more) : pc.Ok q := by
  cases pc with
  | remove readsize data =>
    obtain ⟨n, hn, hle, hdata⟩ := h
    refine ⟨n, hn, ?_, ?_⟩
    · rw [hc, List.length_append]
      omega
    · rw [hc, hdata, List.take_append_of_le_length hle]
  | check => exact h

theorem Reading.recvSame (h : Reading base pieces c) (hcb : c'.pr.stb.cbRecv = c.pr.stb.cbRecv)
    (hrecv : c'.recv = c.recv) : ∀ pc, c'.recv = some pc → pc.Ok c'.pr := by
  intro pc hpc
  refine (h.recv_ok pc (hrecv ▸ hpc)).same [] ?_
  rw [hcb, List.append_nil]

/-! ## Beside reception -/

theorem RunAt.Taking.same {pc : RunAt} (h : pc.Taking base pieces c)
    (hrun : c'.pr.stb.runstate = c.pr.stb.runstate) (hrcv : c'.pr.stb.tc.rcvNxt = c.pr.stb.tc.rcvNxt)
    (hav : c.pr.stb.cbRecv.getAvSize ≤ c'.pr.stb.cbRecv.getAvSize) : pc.Taking base pieces c' := by
  cases pc with
  | turn r => exact ⟨h.1.mono rfl hrun, h.2.mono rfl rfl hav⟩
  | take r pc =>
    cases pc with
    | setSocketState | setAckState => exact hrun.trans h
    | setTCBRcv => exact h
    | putcircbuf =>
      obtain ⟨tp, htp, hpos, hfit⟩ := h
      exact ⟨tp, htp, hpos, lt_of_lt_of_le hfit hav⟩
    | recPut top | recTCBRcv top => exact ⟨h.1.trans hrcv.symm, h.2⟩
    | recLoop | recPop | recAckState | recEnd => trivial
  | ack | callSend | inSend => trivial

theorem RunAt.BehindAck.taking {pc : RunAt} (h : pc.BehindAck) : pc.Taking base pieces c := by
  cases pc with
  | turn r =>
    have hend : r.state = .procEnd := h
    exact ⟨fun _ => Or.inr (Or.inr hend), @fits_after _ True (Or.inl hend)⟩
  | take => exact absurd h id
  | ack | callSend | inSend => trivial

theorem RunAt.BehindAck.afterSyn {pc : RunAt} (h : pc.BehindAck) : pc.AfterSyn := by
  cases pc with
  | turn r =>
    have hend : r.state = .procEnd := h
    show BeforeData r.state
    rw [hend]
    exact beforeData_procEnd
  | take => exact absurd h id
  | ack | callSend | inSend => trivial

/-- The bytes that were stored are where they were. -/
structure SameBytes (c c' : Host) : Prop where
  cbRecv_eq : c'.pr.stb.cbRecv = c.pr.stb.cbRecv
  recv_eq : c'.recv = c.recv
  returned_eq : c'.returned = c.returned

theorem Holds.of_stored (h : Holds base pieces (receivedOf c) n) (hs : storedOf c' = storedOf c)
    (hrun : c'.run = c.run) : Holds base pieces (receivedOf c') n := by
  unfold receivedOf
  rw [hs, hrun]
  exact h

theorem SameBytes.storedOf_eq (h : SameBytes c c') : storedOf c' = storedOf c := by
  unfold storedOf
  rw [h.returned_eq, h.recv_eq, h.cbRecv_eq]

theorem Storing.goTo (h : Storing base pieces c) (hb : SameBytes c c')
    (hs : c'.pr.stb.sockstate = c.pr.stb.sockstate) (hr : c'.pr.stb.tc.rcvNxt = c.pr.stb.tc.rcvNxt)
    (hun : unputOf c'.run = unputOf c.run) (hcount : uncountedOf c'.run = uncountedOf c.run)
    (hheld : ∀ pkt ∈ c'.pr.stb.minhpRecv.elems, EndsPiece base pieces pkt)
    (hrun : ∀ pc, c'.run = some pc → pc.Taking base pieces c') : Storing base pieces c' := by
  refine ⟨hs.trans h.established, ?_, ?_, hheld, hrun⟩
  · rw [hr]
    exact h.boundary
  · unfold receivedOf
    rw [hb.storedOf_eq, hun, hr, hcount]
    exact h.holds

theorem Ended.goTo (h : Ended pieces c) (hb : SameBytes c c')
    (hs : c'.pr.stb.sockstate = .synReceived) (hrs : c'.pr.stb.runstate = c.pr.stb.runstate)
    (hrun : ∀ pc, c'.run = some pc → pc.AfterSyn) : Ended pieces c' :=
  ⟨hs, hrs.trans h.runstate, hb.storedOf_eq ▸ h.stored, hrun⟩

/-- The receive side is as it was, and `run` is where it was or behind an ACK. -/
theorem Reading.same (h : Reading base pieces c) (hr : RecvSame c.pr.stb c'.pr.stb)
    (hs : c'.pr.stb.sockstate = c.pr.stb.sockstate) (hrecv : c'.recv = c.recv)
    (hret : c'.returned = c.returned) (hrun : RunBeside c.run c'.run) : Reading base pieces c' := by
  have hb : SameBytes c c' := ⟨hr.cbRecv_eq, hrecv, hret⟩
  refine ⟨h.standing.imp (fun ht => ?_) fun he => ?_, h.recvSame hr.cbRecv_eq hrecv⟩
  · refine ht.goTo hb hs hr.rcvNxt_eq hrun.unputOf hrun.uncountedOf (hr.minhpRecv_eq ▸ ht.held) fun pc hpc => ?_
    rcases hrun.pc hpc with hold | hback
    · exact (ht.run pc hold).same hr.runstate_eq hr.rcvNxt_eq (by rw [hr.cbRecv_eq])
    · exact hback.taking
  · refine he.goTo hb (hs.trans he.sockstate) hr.runstate_eq fun pc hpc => ?_
    rcases hrun.pc hpc with hold | hback
    · exact he.run pc hold
    · exact hback.afterSyn

theorem Reading.enterRun (h : Reading base pieces c) (hnone : c.run = none) : Reading base pieces
    { c with run := some (.turn (Host.runVars (Process.runSt c.pr c.queue))) } := by
  have hb : SameBytes c { c with run := some (.turn (Host.runVars (Process.runSt c.pr c.queue))) } :=
    ⟨rfl, rfl, rfl⟩
  refine ⟨h.standing.imp (fun ht => ?_) fun he => ?_, h.recv_ok⟩
  · refine ht.goTo hb rfl rfl (by rw [hnone]; rfl) (by rw [hnone]; rfl) ht.held ?_
    rintro pc ⟨⟩
    exact ⟨putOff_start c.pr c.queue, fits_start c.pr c.queue⟩
  · refine he.goTo hb he.sockstate rfl ?_
    rintro pc ⟨⟩
    exact beforeData_start he.runstate c.queue

/-! ## The first step of a turn -/

section Turn
variable {now : ℕ} {r : RunVars}

/-- The packet of a turn that is not that of a SYN or an ACK. -/
theorem Host.RunOk.data {D : Datagram → Prop} (hok : Host.RunOk D c) (hpc : c.run = some (.turn r)) {tp : TouPkg}
    (htp : r.tp = some tp)
    (hst : r.state = .ackWithDataMatchExpectedSeq ∨ r.state = .ackWithDataMoreExpectedSeq) :
    ∃ d, D d ∧ tp = recvPkg d ∧ IsData tp ∧ c.pr.stb.sockstate = .established ∧
      (r.state = .ackWithDataMatchExpectedSeq → tp.t.seq = c.pr.stb.tc.rcvNxt) ∧
      (r.state = .ackWithDataMoreExpectedSeq → c.pr.stb.tc.rcvNxt < tp.t.seq) := by
  obtain ⟨d, hd⟩ := (hok.turn r hpc).handling (by
    show Handles r.state
    rcases hst with hst | hst <;> rw [hst] <;> trivial)
  have heq : tp = recvPkg d := Option.some.inj (htp.symm.trans hd.tp_eq)
  have hc := classified_of_ok hd.classified
  rw [← heq] at hc
  refine ⟨d, hd.given, heq, ?_⟩
  have hc' : Classified c.pr.stb tp r.state := hc
  rcases hst with hst | hst <;> rw [hst] at hc' ⊢
  · cases hc' with
    | inOrder hest hdata hseq => exact ⟨hdata, hest, fun _ => hseq, fun h => by cases h⟩
  · cases hc' with
    | future hest hdata hseq => exact ⟨hdata, hest, (fun h => by cases h), fun _ => hseq⟩

/-- `run` goes on in a state in which no data is handled. -/
theorem Storing.goOn (h : Storing base pieces c) (hpc : c.run = some (.turn r)) {q : Process} {pc : RunAt}
    (hr : RecvSame c.pr.stb q.stb) (hs : q.stb.sockstate = c.pr.stb.sockstate) (hun : unputOf (some pc) = [])
    (hcount : uncountedOf (some pc) = []) (htake : pc.Taking base pieces { c with pr := q, run := some pc }) :
    Storing base pieces { c with pr := q, run := some pc } := by
  have hb : SameBytes c { c with pr := q, run := some pc } := ⟨hr.cbRecv_eq, rfl, rfl⟩
  refine h.goTo hb hs hr.rcvNxt_eq (by rw [hpc]; exact hun) (by rw [hpc]; exact hcount)
    (hr.minhpRecv_eq ▸ h.held) ?_
  rintro pc' ⟨⟩
  exact htake

theorem Storing.leaves (h : Storing base pieces c) (hpc : c.run = some (.turn r)) (queue : List Datagram) :
    Storing base pieces { c with queue := queue, run := none } := by
  have hb : SameBytes c { c with queue := queue, run := none } := ⟨rfl, rfl, rfl⟩
  refine h.goTo hb rfl rfl (by rw [hpc]; rfl) (by rw [hpc]; rfl) h.held ?_
  rintro pc ⟨⟩

/-- `rcv_nxt` counts the segment. -/
theorem Storing.counts (h : Storing base pieces c) (hpc : c.run = some (.turn r))
    (hlt : base + pieces.flatten.length < 4294967296) {tp : TouPkg} (htp : r.tp = some tp)
    (hp : EndsPiece base pieces tp) (hseq : tp.t.seq = c.pr.stb.tc.rcvNxt)
    (hfit : (tp.buf.length : ℤ) < c.pr.stb.cbRecv.getAvSize) : Storing base pieces { c with
      pr := c.pr.setTable (c.pr.stb.setTCBRcv (u32 ((tp.t.seq : ℤ) + tp.buf.length)))
      run := some (.take r .putcircbuf) } := by
  have hcut := hp.cutFrom
  have hb : Boundary base pieces tp.t.seq := hseq ▸ h.boundary
  have hlast := (hcut.end_boundary hb).le_last
  have hnew : u32 ((tp.t.seq : ℤ) + tp.buf.length) = tp.t.seq + tp.buf.length := u32_add _ _ (by omega)
  have hbytes := h.holds
  unfold receivedOf at hbytes
  rw [hpc, show unputOf (some (.turn r)) = [] from rfl, show uncountedOf (some (.turn r)) = [] from rfl,
    List.append_nil, List.length_nil, Nat.add_zero] at hbytes
  refine ⟨h.established, ?_, ?_, h.held, ?_⟩
  · show Boundary base pieces (u32 ((tp.t.seq : ℤ) + tp.buf.length))
    rw [hnew]
    exact hcut.end_boundary hb
  · show Holds base pieces (storedOf c ++ (r.tp.map TouPkg.buf).getD [])
      (u32 ((tp.t.seq : ℤ) + tp.buf.length) + 0)
    rw [hnew, htp, hseq]
    exact hbytes.put hp hseq
  · rintro pc ⟨⟩
    exact ⟨tp, htp, hp.pos, hfit⟩

theorem Storing.turn (h : Storing base pieces c) (hok : Host.RunOk (FromSender base pieces) c)
    (hlt : base + pieces.flatten.length < 4294967296) (hpc : c.run = some (.turn r))
    (hroom : RoomWhenTaken c r) (ht : TurnMove now c r c') : Storing base pieces c' := by
  obtain ⟨hout, hfits⟩ : PutOff (c.runSt r) ∧ Fits (c.runSt r) := h.run _ hpc
  have hsame : RecvSame c.pr.stb c.pr.stb := ⟨rfl, rfl, rfl, rfl⟩
  cases ht with
  | @receive d rest st hs hp hc =>
    have hb : SameBytes c (c.afterTurn (.next ((c.runSt r).took d rest st))) := ⟨rfl, rfl, rfl⟩
    have hrs : c.pr.stb.runstate = .getPkt := by
      rcases hs with hs | hs <;> exact hout.runstate_eq hs (by decide)
    refine h.goTo hb rfl rfl (by rw [hpc]; rfl) (by rw [hpc]; rfl) h.held ?_
    rintro pc ⟨⟩
    refine ⟨fun hrec => ?_, Fits.receive (fun hst => hroom hst) hout hfits hs hp hc⟩
    rw [show c.pr.stb.runstate = .pktRecovery from hrec] at hrs
    cases hrs
  | unreceived => exact h.leaves hpc _
  | ended => exact h.leaves hpc _
  | fin hs => exact absurd hs (no_fin (hok.turn r hpc))
  | syn hs =>
    exact h.goOn hpc ⟨rfl, rfl, rfl, rfl⟩ rfl rfl rfl
      (show c.pr.stb.runstate = .getPkt from hout.runstate_eq hs (by decide))
  | @inOrder tp hs htp =>
    obtain ⟨d, hd, rfl, hdata, _, hseq, _⟩ := hok.data hpc htp (Or.inl hs)
    exact h.counts hpc hlt htp (hd.2 hdata.pos) (hseq hs) (hfits.room hs _ htp)
  | @old st hs hst =>
    have hrs : c.pr.stb.runstate = .getPkt := hout.runstate_eq hs (by decide)
    refine h.goOn hpc hsame rfl rfl rfl ⟨fun hrec => ?_, ?_⟩
    · rw [show c.pr.stb.runstate = .pktRecovery from hrec] at hrs
      cases hrs
    · exact @fits_after _ True (hst.imp_right fun hc => ⟨hc.1, hc.2, trivial⟩)
  | @future tp hs htp =>
    obtain ⟨d, hd, rfl, hdata, _⟩ := hok.data hpc htp (Or.inr hs)
    rw [pushHpRecvBuf_eq _ hdata.pos]
    have hb : SameBytes c { c with
        pr := c.pr.setTable { c.pr.stb with minhpRecv := c.pr.stb.minhpRecv.push (recvPkg d) }
        run := some (.take r .setAckState) } := ⟨rfl, rfl, rfl⟩
    refine h.goTo hb rfl rfl (by rw [hpc]; rfl) (by rw [hpc]; rfl) (fun pkt hp => ?_) ?_
    · rcases (MinHeap.mem_push _ _ _).mp hp with rfl | hp
      · exact hd.2 hdata.pos
      · exact h.held pkt hp
    · rintro pc ⟨⟩
      exact hout.runstate_eq hs (by decide)
  | noPkts => exact h.goOn hpc hsame rfl rfl rfl trivial
  | pkts => exact h.goOn hpc hsame rfl rfl rfl trivial
  | sendback hs hq =>
    have heff := procDelack_effect hq
    have hss := congrArg SockTb.sockstate heff.table_eq
    exact h.goOn hpc heff.recvSame hss rfl rfl ⟨fun _ => Or.inr (Or.inl rfl), fits_off nofun nofun⟩
  | @noSendback st hs hst =>
    refine h.goOn hpc hsame rfl rfl rfl ⟨fun hrec => ?_, fits_after hst⟩
    rcases hst with hend | ⟨_, _, hrs⟩
    · exact Or.inr (Or.inr hend)
    · rw [show c.pr.stb.runstate = .pktRecovery from hrec] at hrs
      cases hrs

/-- Behind a SYN only SYN are taken. -/
theorem Ended.turn (h : Ended pieces c) (hok : Host.RunOk (FromSender base pieces) c)
    (hpc : c.run = some (.turn r)) (ht : TurnMove now c r c') : Ended pieces c' := by
  obtain ⟨hrec, hsend, hno⟩ : BeforeData r.state := h.run _ hpc
  have hb : ∀ {q : Process} {queue : List Datagram} {run : Option RunAt}, q.stb.cbRecv = c.pr.stb.cbRecv →
      SameBytes c { c with pr := q, queue := queue, run := run } := fun hcb => ⟨hcb, rfl, rfl⟩
  have hclosed : ∀ tp, r.tp = some tp → ¬ (r.state = .ackWithDataMatchExpectedSeq ∨
      r.state = .ackWithDataMoreExpectedSeq) := by
    intro tp htp hst
    obtain ⟨_, _, _, _, hest, _⟩ := hok.data hpc htp hst
    rw [h.sockstate] at hest
    cases hest
  cases ht with
  | receive _ _ hc =>
    refine h.goTo (hb rfl) h.sockstate rfl ?_
    rintro pc ⟨⟩
    exact beforeData_of_classified hc
  | unreceived | ended =>
    refine h.goTo (hb rfl) h.sockstate rfl ?_
    rintro pc ⟨⟩
  | fin hs => exact absurd hs (no_fin (hok.turn r hpc))
  | syn =>
    refine h.goTo (hb rfl) h.sockstate rfl ?_
    rintro pc ⟨⟩
    exact Or.inl rfl
  | old _ hst =>
    refine h.goTo (hb rfl) h.sockstate rfl ?_
    rintro pc ⟨⟩
    exact beforeData_after hst
  | inOrder hs htp => exact absurd (Or.inl hs) (hclosed _ htp)
  | future hs htp => exact absurd (Or.inr hs) (hclosed _ htp)
  | noPkts hs | pkts hs => exact absurd hs hrec
  | sendback hs => exact absurd hs hsend
  | noSendback hs => exact absurd hs hno

end Turn

/-! ## The further steps of a turn -/

section Take
variable {r : RunVars} {pc : TakeAt} {q : Process × RunAt}

/-- A SYN ends the reception. -/
theorem Storing.ends (h : Storing base pieces c) (hpc : c.run = some (.take r .setSocketState)) :
    Ended pieces { c with
      pr := c.pr.setTable (c.pr.stb.setSocketState .synReceived), run := some (.take r .setTCBRcv) } := by
  have hprefix := h.holds.stored
  unfold receivedOf at hprefix
  rw [hpc, show unputOf (some (.take r .setSocketState)) = [] from rfl, List.append_nil] at hprefix
  refine ⟨rfl, h.run _ hpc, hprefix, ?_⟩
  rintro pc ⟨⟩
  exact Or.inr rfl

/-- `putcircbuf` gets the segment. -/
theorem Storing.puts (h : Storing base pieces c) {tp : TouPkg} {n : ℤ} {cb : SockBuf}
    (hpc : c.run = some (.take r .putcircbuf)) (htp : r.tp = some tp)
    (hput : Process.putcircbuf c.pr.stb tp.buf tp.buf.length = (n, { c.pr.stb with cbRecv := cb })) :
    Storing base pieces { c with
      pr := c.pr.setTable { c.pr.stb with cbRecv := cb }, run := some (.turn { r with state := .pktRecovery }) } ∧
      cb.contents = c.pr.stb.cbRecv.contents ++ tp.buf := by
  obtain ⟨tp', htp', hpos, hfit⟩ : ∃ tp, r.tp = some tp ∧ 0 < tp.buf.length ∧
      (tp.buf.length : ℤ) < c.pr.stb.cbRecv.getAvSize := h.run _ hpc
  cases htp.symm.trans htp'
  obtain ⟨cb', hcb, hput'⟩ := putcircbuf_room c.pr.stb hpos hfit
  have hbuf : cb.contents = c.pr.stb.cbRecv.contents ++ tp.buf := by
    rw [hput] at hput'
    simp only [Prod.mk.injEq, SockTb.mk.injEq, true_and, and_true] at hput'
    rw [hput'.2, hcb]
  have hbytes := h.holds
  unfold receivedOf at hbytes
  rw [hpc, show unputOf (some (.take r .putcircbuf)) = tp.buf by rw [unputOf, htp]; rfl] at hbytes
  refine ⟨⟨h.established, h.boundary, ?_, h.held, ?_⟩, hbuf⟩
  · show Holds base pieces (c.returned ++ takenOf c.recv ++ cb.contents ++ []) _
    rw [hbuf, List.append_nil, ← List.append_assoc]
    exact hbytes
  · rintro pc ⟨⟩
    exact ⟨fun _ => Or.inl rfl, fits_off nofun nofun⟩

/-- Recovery stores the packet on top of `minhp_recv`. -/
theorem Storing.recPuts (h : Storing base pieces c) {top : TouPkg} {cb : SockBuf}
    (hpc : c.run = some (.take r (.recPut top))) (hbuf : cb.contents = c.pr.stb.cbRecv.contents ++ top.buf) :
    Storing base pieces { c with
      pr := c.pr.setTable { c.pr.stb with cbRecv := cb }, run := some (.take r (.recTCBRcv top)) } := by
  obtain ⟨hseq, hp⟩ : top.t.seq = c.pr.stb.tc.rcvNxt ∧ EndsPiece base pieces top := h.run _ hpc
  have hbytes := h.holds
  unfold receivedOf at hbytes
  rw [hpc, show unputOf (some (.take r (.recPut top))) = [] from rfl,
    show uncountedOf (some (.take r (.recPut top))) = [] from rfl, List.append_nil, List.length_nil,
    Nat.add_zero] at hbytes
  refine ⟨h.established, h.boundary, ?_, h.held, ?_⟩
  · show Holds base pieces (c.returned ++ takenOf c.recv ++ cb.contents ++ []) (_ + top.buf.length)
    rw [hbuf, List.append_nil, ← List.append_assoc]
    exact hbytes.put hp hseq
  · rintro pc ⟨⟩
    exact ⟨hseq, hp⟩

theorem Storing.recCounts (h : Storing base pieces c) (hlt : base + pieces.flatten.length < 4294967296)
    {top : TouPkg} (hpc : c.run = some (.take r (.recTCBRcv top))) : Storing base pieces { c with
      pr := c.pr.setTable (c.pr.stb.setTCBRcv (u32 ((top.t.seq : ℤ) + top.buf.length)))
      run := some (.take r .recPop) } := by
  obtain ⟨hseq, hp⟩ : top.t.seq = c.pr.stb.tc.rcvNxt ∧ EndsPiece base pieces top := h.run _ hpc
  have hbytes := h.holds
  unfold receivedOf at hbytes
  rw [hpc, show uncountedOf (some (.take r (.recTCBRcv top))) = top.buf from rfl,
    show unputOf (some (.take r (.recTCBRcv top))) = [] from rfl] at hbytes
  have hlast := hbytes.boundary.le_last
  have hnew : u32 ((top.t.seq : ℤ) + top.buf.length) = c.pr.stb.tc.rcvNxt + top.buf.length := by
    rw [hseq]
    exact u32_add _ _ (by omega)
  refine ⟨h.established, ?_, ?_, h.held, ?_⟩
  · show Boundary base pieces (u32 ((top.t.seq : ℤ) + top.buf.length))
    rw [hnew]
    exact hbytes.boundary
  · show Holds base pieces (storedOf c ++ []) (u32 ((top.t.seq : ℤ) + top.buf.length) + 0)
    rw [hnew]
    exact hbytes
  · rintro pc ⟨⟩
    trivial

theorem Storing.take (h : Storing base pieces c) (hlt : base + pieces.flatten.length < 4294967296)
    (hpc : c.run = some (.take r pc)) (ht : TakeMove c.pr r pc q) :
    Storing base pieces { c with pr := q.1, run := some q.2 } ∨
      Ended pieces { c with pr := q.1, run := some q.2 } := by
  have hgo : ∀ {stb : SockTb} {pc' : RunAt}, stb.cbRecv = c.pr.stb.cbRecv →
      stb.sockstate = c.pr.stb.sockstate → stb.tc.rcvNxt = c.pr.stb.tc.rcvNxt →
      (∀ pkt ∈ stb.minhpRecv.elems, pkt ∈ c.pr.stb.minhpRecv.elems) → unputOf (some pc') = unputOf c.run →
      uncountedOf (some pc') = uncountedOf c.run →
      pc'.Taking base pieces { c with pr := c.pr.setTable stb, run := some pc' } →
      Storing base pieces { c with pr := c.pr.setTable stb, run := some pc' } := by
    intro stb pc' hcb hs hr hheld hun hcount htake
    have hb : SameBytes c { c with pr := c.pr.setTable stb, run := some pc' } := ⟨hcb, rfl, rfl⟩
    refine h.goTo hb hs hr hun hcount (fun pkt hp => h.held pkt (hheld pkt hp)) ?_
    rintro _ ⟨⟩
    exact htake
  have hheld : ∀ pkt ∈ c.pr.stb.minhpRecv.elems, pkt ∈ c.pr.stb.minhpRecv.elems := fun _ hp => hp
  cases ht with
  | setSocketState => exact Or.inr (h.ends hpc)
  | setTCBRcv => exact absurd (h.run _ hpc) id
  | putcircbuf htp hput => exact Or.inl (h.puts hpc htp hput).1
  | recTCBRcv top => exact Or.inl (h.recCounts hlt hpc)
  | setAckState =>
    have hrs : c.pr.stb.runstate = .getPkt := h.run _ hpc
    refine Or.inl (hgo rfl rfl rfl hheld (hpc ▸ rfl) (hpc ▸ rfl) ⟨fun hrec => ?_, fits_off nofun nofun⟩)
    rw [show c.pr.stb.runstate = .pktRecovery from hrec] at hrs
    cases hrs
  | recNone | recGap => exact Or.inl (hgo rfl rfl rfl hheld (hpc ▸ rfl) (hpc ▸ rfl) trivial)
  | recNext htop heq =>
    exact Or.inl (hgo rfl rfl rfl hheld (hpc ▸ rfl) (hpc ▸ rfl) ⟨heq, h.held _ (MinHeap.mem_of_top? htop)⟩)
  | @recPut top n cb hput hn =>
    obtain ⟨hseq, hp⟩ : top.t.seq = c.pr.stb.tc.rcvNxt ∧ EndsPiece base pieces top := h.run _ hpc
    have hcut := hp.cutFrom
    have hlast := (hcut.end_boundary (hseq ▸ h.boundary)).le_last
    rcases putcircbuf_cases hp.pos (by omega) hput with ⟨_, hbuf⟩ | ⟨hno, _⟩
    · exact Or.inl (h.recPuts hpc hbuf)
    · exact absurd hn hno
  | @recRefused top n cb hput hn =>
    obtain ⟨hseq, hp⟩ : top.t.seq = c.pr.stb.tc.rcvNxt ∧ EndsPiece base pieces top := h.run _ hpc
    have hcut := hp.cutFrom
    have hlast := (hcut.end_boundary (hseq ▸ h.boundary)).le_last
    rcases putcircbuf_cases hp.pos (by omega) hput with ⟨hyes, _⟩ | ⟨_, hsame⟩
    · exact absurd hyes hn
    · exact Or.inl (hgo hsame rfl rfl hheld (hpc ▸ rfl) (hpc ▸ rfl) trivial)
  | recPop =>
    exact Or.inl (hgo rfl rfl rfl (fun _ hp => MinHeap.mem_of_mem_pop hp) (hpc ▸ rfl) (hpc ▸ rfl) trivial)
  | recAckState => exact Or.inl (hgo rfl rfl rfl hheld (hpc ▸ rfl) (hpc ▸ rfl) trivial)
  | recovered =>
    exact Or.inl (hgo rfl rfl rfl hheld (hpc ▸ rfl) (hpc ▸ rfl) ⟨nofun, fits_off nofun nofun⟩)
  | unrecovered =>
    exact Or.inl (hgo rfl rfl rfl hheld (hpc ▸ rfl) (hpc ▸ rfl)
      ⟨fun _ => Or.inr (Or.inl rfl), fits_off nofun nofun⟩)

theorem Ended.take (h : Ended pieces c) (hpc : c.run = some (.take r pc)) (ht : TakeMove c.pr r pc q) :
    Ended pieces { c with pr := q.1, run := some q.2 } := by
  have hsyn : pc = .setSocketState ∨ pc = .setTCBRcv := h.run _ hpc
  have hb : ∀ {stb : SockTb} {run : Option RunAt}, stb.cbRecv = c.pr.stb.cbRecv →
      SameBytes c { c with pr := c.pr.setTable stb, run := run } := fun hcb => ⟨hcb, rfl, rfl⟩
  cases ht with
  | setSocketState =>
    refine h.goTo (hb rfl) rfl rfl ?_
    rintro _ ⟨⟩
    exact Or.inr rfl
  | setTCBRcv =>
    refine h.goTo (hb rfl) h.sockstate rfl ?_
    rintro _ ⟨⟩
    exact beforeData_procEnd
  | _ => rcases hsyn with hsyn | hsyn <;> cases hsyn

end Take

/-! ## The reader -/

theorem Reading.getAt (h : Reading base pieces c) (len : ℤ) (hnone : c.recv = none) : Reading base pieces
    { c with recv := some (.remove (c.pr.stb.cbRecv.getAt len).1 (c.pr.stb.cbRecv.getAt len).2) } := by
  obtain ⟨hret, hdata⟩ := c.pr.stb.cbRecv.getAt_spec len
  have hstored : storedOf { c with
      recv := some (.remove (c.pr.stb.cbRecv.getAt len).1 (c.pr.stb.cbRecv.getAt len).2) } = storedOf c := by
    unfold storedOf
    rw [hnone]
    rfl
  refine ⟨h.standing.imp (fun hs => ?_) fun he => ?_, ?_⟩
  · exact ⟨hs.established, hs.boundary, hs.holds.of_stored hstored rfl, hs.held, hs.run⟩
  · exact ⟨he.sockstate, he.runstate, hstored ▸ he.stored, he.run⟩
  · rintro pc ⟨⟩
    refine ⟨_, hret, Nat.min_le_right _ _, ?_⟩
    rw [hdata]
    exact List.take_eq_take_min

/-- The bytes go from the buffer into the hand of the reader. -/
theorem Reading.moves (h : Reading base pieces c) {readsize : ℤ} {data : List Byte}
    (hpc : c.recv = some (.remove readsize data)) : ∃ n : ℕ, readsize = n ∧
      (c.pr.stb.cbRecv.remove readsize).1 = n ∧ data.length = n ∧
      c.returned ++ data ++ (c.pr.stb.cbRecv.remove readsize).2.contents = storedOf c := by
  obtain ⟨n, rfl, hle, rfl⟩ := h.recv_ok _ hpc
  have hcap := c.pr.stb.cbRecv.contents_le
  have hcast : (s32 ((n : ℕ) : ℤ)).toNat = n := by
    unfold touMaxCircularBuf at hcap
    rw [s32_cast _ (by omega), Int.toNat_natCast]
  obtain ⟨hcount, hrest⟩ := c.pr.stb.cbRecv.remove_spec n
  rw [hcast] at hcount hrest
  rw [Nat.min_eq_left hle] at hcount
  refine ⟨n, rfl, hcount, ?_, ?_⟩
  · rw [List.length_take]
    omega
  · unfold storedOf
    rw [hrest, hpc, List.append_assoc, List.take_append_drop]
    show _ = c.returned ++ [] ++ _
    rw [List.append_nil]

theorem Reading.removed (h : Reading base pieces c) {readsize : ℤ} {data : List Byte}
    (hpc : c.recv = some (.remove readsize data)) : Reading base pieces { c with
      pr := c.pr.setTable { c.pr.stb with cbRecv := (c.pr.stb.cbRecv.remove readsize).2 }
      recv := some (.check
        (if (c.pr.stb.cbRecv.remove readsize).1 ≠ readsize then -1 else readsize) data) } := by
  obtain ⟨n, rfl, hcount, hlen, hmove⟩ := h.moves hpc
  rw [hcount, if_neg (not_not.mpr rfl)]
  have hav : c.pr.stb.cbRecv.getAvSize ≤ (c.pr.stb.cbRecv.remove n).2.getAvSize := by
    have htotal := congrArg List.length hmove
    unfold storedOf at htotal
    rw [hpc] at htotal
    simp only [takenOf, List.length_append, List.length_nil] at htotal
    rw [RingBuf.getAvSize_eq, RingBuf.getAvSize_eq]
    omega
  refine ⟨h.standing.imp (fun hs => ?_) fun he => ?_, ?_⟩
  · exact ⟨hs.established, hs.boundary, hs.holds.of_stored hmove rfl, hs.held,
      fun pc hr => (hs.run pc hr).same rfl rfl hav⟩
  · exact ⟨he.sockstate, he.runstate, (hmove.symm ▸ he.stored : c.returned ++ data ++ _ <+: _), he.run⟩
  · rintro pc ⟨⟩
    exact congrArg Nat.cast hlen.symm

theorem Reading.not_closeWait (h : Reading base pieces c) : c.pr.stb.sockstate ≠ .closeWait := by
  rcases h.standing with hs | he
  · rw [hs.established]
    decide
  · rw [he.sockstate]
    decide

/-- The reader hands out what it took. -/
theorem Reading.hands (h : Reading base pieces c) {readsize : ℤ} {data : List Byte}
    (hpc : c.recv = some (.check readsize data)) :
    c.returned ++ data.take (if c.pr.stb.sockstate = .closeWait then 0 else readsize).toNat =
      c.returned ++ takenOf c.recv := by
  have hsize : readsize = data.length := h.recv_ok _ hpc
  rw [if_neg h.not_closeWait, hsize, Int.toNat_natCast, List.take_length, hpc]
  rfl

theorem Reading.handedOut (h : Reading base pieces c) {readsize : ℤ} {data : List Byte}
    (hpc : c.recv = some (.check readsize data)) : Reading base pieces { c with
      recv := none
      returned := c.returned ++ data.take (if c.pr.stb.sockstate = .closeWait then 0 else readsize).toNat } := by
  rw [h.hands hpc]
  have hstored : storedOf { c with recv := none, returned := c.returned ++ takenOf c.recv } = storedOf c := by
    show c.returned ++ takenOf c.recv ++ [] ++ _ = _
    rw [List.append_nil]
    rfl
  refine ⟨h.standing.imp (fun hs => ?_) fun he => ?_, fun _ hp => by cases hp⟩
  · exact ⟨hs.established, hs.boundary, hs.holds.of_stored hstored rfl, hs.held, hs.run⟩
  · exact ⟨he.sockstate, he.runstate, hstored ▸ he.stored, he.run⟩

/-! ## Any step -/

/-- Nobody but `run` appends to `cb_recv`. -/
theorem TakeMove.appends {p : Process} {r : RunVars} {pc : TakeAt} {q : Process × RunAt}
    (h : TakeMove p r pc q) : ∃ more, q.1.stb.cbRecv.contents = p.stb.cbRecv.contents ++ more := by
  have hput : ∀ {str : List Byte} {n : ℤ} {cb : SockBuf},
      Process.putcircbuf p.stb str str.length = (n, { p.stb with cbRecv := cb }) →
      ∃ more, cb.contents = p.stb.cbRecv.contents ++ more := by
    intro str n cb hput
    have hcast : s32 (str.length : ℤ) ≤ str.length := by
      unfold s32
      omega
    have hins := insert_contents p.stb.cbRecv hcast
    obtain ⟨h1, h2⟩ := putcircbuf_insert hput
    rw [h1, h2] at hins
    exact ⟨_, hins⟩
  cases h with
  | putcircbuf _ h | recPut h | recRefused h => exact hput h
  | _ => exact ⟨[], (List.append_nil _).symm⟩

theorem TurnMove.cbRecv_eq {now : ℕ} {r : RunVars} (h : TurnMove now c r c') :
    c'.pr.stb.cbRecv = c.pr.stb.cbRecv ∧ c'.recv = c.recv ∧ c'.returned = c.returned := by
  cases h with
  | sendback _ hq => exact ⟨(procDelack_effect hq).recvSame.cbRecv_eq, rfl, rfl⟩
  | _ => exact ⟨rfl, rfl, rfl⟩

theorem DelackMove.recvSame {p : Process} {pc : DelackAt} {q : Process × Option DelackAt}
    (h : DelackMove p pc q) : RecvSame p.stb q.1.stb ∧ q.1.stb.sockstate = p.stb.sockstate := by
  cases h <;> exact ⟨⟨rfl, rfl, rfl, rfl⟩, rfl⟩

theorem Reading.step {net : Host → Datagram → Prop} (h : Reading base pieces c)
    (hok : Host.RunOk (FromSender base pieces) c) (hlt : base + pieces.flatten.length < 4294967296)
    (hst : c.RecvStep net RoomWhenTaken c') : Reading base pieces c' := by
  cases hst with
  | arrive | enterDelack => exact h.same ⟨rfl, rfl, rfl, rfl⟩ rfl rfl rfl (.same _)
  | enterRun hnone => exact h.enterRun hnone
  | turn hpc _ hroom ht =>
    obtain ⟨hcb, hrecv, _⟩ := ht.cbRecv_eq
    exact ⟨h.standing.imp (fun hs => hs.turn hok hlt hpc hroom ht) fun he => he.turn hok hpc ht,
      h.recvSame hcb hrecv⟩
  | take hpc _ ht =>
    refine ⟨?_, fun pc' hpc' => ?_⟩
    · rcases h.standing with hs | he
      · exact hs.take hlt hpc ht
      · exact Or.inr (he.take hpc ht)
    · obtain ⟨more, hmore⟩ := ht.appends
      exact (h.recv_ok pc' hpc').same more hmore
  | delack _ hm => exact h.same hm.recvSame.1 hm.recvSame.2 rfl rfl (.same _)
  | recvGetAt len hnone => exact h.getAt len hnone
  | recvRemove hpc => exact h.removed hpc
  | recvCheck hpc => exact h.handedOut hpc
  | beside hb =>
    exact h.same hb.spares.recv hb.spares.sockstate_eq hb.recv_eq hb.returned_eq hb.run

end Reading

end Process
end TcpOverUdp
