import TcpOverUdp.Proof.Sessions
import TcpOverUdp.Proof.Windows

/-! # The states a sender can reach

A `SenderStep` is one event on the send side; `run` is made of such events, turn by turn. Along them
the congestion variables change by the operations of `ssca` only, so `WindowInv` holds of every sender
after the handshake.
-/
namespace TcpOverUdp
open MachineInt
set_option autoImplicit false

namespace Process

inductive SenderStep : Process → Process → Prop
  | push (p : Process) (buf : List Byte) (len : ℤ) : SenderStep p (pushsndq p buf len).2
  | send {now : ℕ} {p q : Process} (h : Process.send now p = .ok q) : SenderStep p q
  | ack {now : ℕ} {p q : Process} {tp : TouPkg} (hc : processGetPktState p.stb tp = .ok .ackWithoutData)
      (h : handleAck now p tp = .ok q) : SenderStep p q
  | timeout {now : ℕ} {p q : Process} (h : timerProcSndpkt now p = .ok q) : SenderStep p q
  | receive {p q : Process} (h : SendSame p q) : SenderStep p q

/-- What new sends, ACKs and timeouts make of a process that has completed a handshake. -/
def SenderReachable (p : Process) : Prop := ∃ p₀, Opened p₀ ∧ Relation.ReflTransGen SenderStep p₀ p

/-- Every operation is made of sender steps. -/
theorem ProcStepIf.senderSteps {C : ℕ → Process → List Datagram → Prop} {p q : Process}
    (h : ProcStepIf C p q) : Relation.ReflTransGen SenderStep p q := by
  cases h with
  | touSend h =>
    exact (Relation.ReflTransGen.single (SenderStep.push p _ _)).tail
      (SenderStep.send (touSend_ok h).2)
  | send h => exact Relation.ReflTransGen.single (SenderStep.send h)
  | touRecv _ len => exact Relation.ReflTransGen.single (SenderStep.receive (touRecv_sendSame p len))
  | run _ h =>
    refine run_process_inv h (D := fun _ => True) (fun _ _ => trivial)
      (Relation.ReflTransGen SenderStep p) Relation.ReflTransGen.refl ?_
    intro s s' _ hs ht
    rcases ht.handled with hsame | ⟨tp, p1, hc, h1, h2⟩
    · exact hs.tail (SenderStep.receive hsame)
    · exact (hs.tail (SenderStep.ack hc h1)).tail (SenderStep.send h2)
  | delack h =>
    exact Relation.ReflTransGen.single (SenderStep.receive (timerProcDelack_effect h).sendSame)
  | sndpkt h => exact Relation.ReflTransGen.single (SenderStep.timeout h)

theorem Session.senderReachable {p : Process} (h : Session p) : SenderReachable p := by
  obtain ⟨p₀, hopen, hrun⟩ := h
  refine ⟨p₀, hopen, ?_⟩
  exact reach_inv (Relation.ReflTransGen SenderStep p₀) (fun _ _ hs hst => hs.trans hst.senderSteps)
    Relation.ReflTransGen.refl hrun

theorem SenderReachable.step {p q : Process} (h : SenderReachable p) (hst : SenderStep p q) :
    SenderReachable q := by
  obtain ⟨p₀, hopen, hrun⟩ := h
  exact ⟨p₀, hopen, hrun.tail hst⟩

/-- A property that `SenderRule` lists the conditions of is kept by every sender step. -/
theorem SenderRule.event {J : Process → Prop} (hJ : SenderRule J)
    (hpush : ∀ p buf len, J p → J (pushsndq p buf len).2) {p q : Process} (h : SenderStep p q)
    (hp : J p) : J q := by
  cases h with
  | push _ buf len => exact hpush p buf len hp
  | send h => exact hJ.send h hp
  | ack hc h =>
    cases classified_of_ok hc with
    | ack _ hle _ => exact hJ.ack p q _ hle (handleAck_effect h) hp
  | timeout h => exact hJ.sndpkt h hp
  | receive h => exact hJ.same p q h hp

/-! ## The congestion variables on the way -/

open TouCb

/-- An ACK with an old number: `proc_ack` calls `addwnd` and nothing else happens. -/
theorem handleAck_stale (now : ℕ) {p : Process} {tp : TouPkg} (h : tp.t.ackSeq < p.stb.tc.sndUna) :
    handleAck now p tp = .ok (p.setTable { p.stb with tc := p.stb.tc.addwnd.2 }) := by
  unfold handleAck procAck
  simp only [if_neg (show ¬ tp.t.ackSeq > p.stb.tc.sndUna by omega),
    if_neg (show ¬ tp.t.ackSeq = p.stb.tc.sndUna by omega)]

/-- A duplicate ACK: the table changes by `setdwnd`. -/
theorem handleAck_dup {now : ℕ} {p q : Process} {tp : TouPkg} (heq : tp.t.ackSeq = p.stb.tc.sndUna)
    (h : handleAck now p tp = .ok q) :
    q.stb = { p.stb with tc := (p.stb.tc.setdwnd p.stb.tc.sndUna).2 } := by
  cases handleAck_ok h with
  | new hgt => omega
  | dup => rw [heq]
  | rexmit _ hstb => rw [hstb, heq]
  | old hlt => omega

/-- A new ACK: the congestion variables change by `addwnd`. -/
theorem handleAck_new {now : ℕ} {p q : Process} {tp : TouPkg} (hgt : p.stb.tc.sndUna < tp.t.ackSeq)
    (h : handleAck now p tp = .ok q) :
    SameWindow p.stb.tc.addwnd.2 q.stb.tc ∧ q.stb.tc.sndAwnd = p.stb.tc.sndAwnd := by
  cases handleAck_ok h with
  | new => exact ⟨⟨rfl, rfl, rfl, rfl⟩, p.stb.tc.addwnd_frame.sndAwnd⟩
  | dup heq | rexmit heq => omega
  | old hlt => omega

theorem handleAck_windows {now : ℕ} {p q : Process} {tp : TouPkg} (h : handleAck now p tp = .ok q) :
    Relation.ReflTransGen WindowStep p.stb.tc q.stb.tc := by
  rcases lt_trichotomy tp.t.ackSeq p.stb.tc.sndUna with hlt | heq | hgt
  · rw [handleAck_stale now hlt] at h
    cases h
    exact Relation.ReflTransGen.single (WindowStep.addwnd _)
  · rw [handleAck_dup heq h]
    exact Relation.ReflTransGen.single (WindowStep.setdwnd _ _)
  · exact (Relation.ReflTransGen.single (WindowStep.addwnd _)).tail
      (WindowStep.other (handleAck_new hgt h).1)

theorem send_sameWindow {now : ℕ} {p q : Process} (h : Process.send now p = .ok q) :
    SameWindow p.stb.tc q.stb.tc := by
  obtain ⟨pieces, he⟩ := send_ok h
  rw [he.table_eq]
  exact ⟨rfl, rfl, rfl, rfl⟩

theorem SenderStep.windows {p q : Process} (h : SenderStep p q) :
    Relation.ReflTransGen WindowStep p.stb.tc q.stb.tc := by
  cases h with
  | push => exact Relation.ReflTransGen.refl
  | send h => exact Relation.ReflTransGen.single (WindowStep.other (send_sameWindow h))
  | ack _ h => exact handleAck_windows h
  | timeout h =>
    obtain ⟨r, _, h⟩ := of_bind_ok h
    cases hf : r.2 with
    | none =>
      rw [hf] at h
      cases h
      exact Relation.ReflTransGen.refl
    | some f =>
      rw [hf] at h
      cases h
      exact Relation.ReflTransGen.single (WindowStep.settwnd _)
  | receive h =>
    have ht := h.tc_eq
    refine Relation.ReflTransGen.single (WindowStep.other ?_)
    rw [ht]
    exact ⟨rfl, rfl, rfl, rfl⟩

/-! ## After the handshake -/

theorem touConnect_window {p : Process} {sockDst : Addr} {rcvbuf : ℤ} {d : Datagram}
    {r : Bool × Process} (h : touConnect p sockDst rcvbuf d = .ok r) :
    SameWindow { p.stb.tc with ccState := .ss, sndCwnd := 2 * touMss } r.2.stb.tc := by
  obtain ⟨syn, ack, _, _, rfl⟩ := touConnect_ok h
  exact ⟨rfl, rfl, rfl, rfl⟩

theorem touAcceptAck_window (p : Process) (d : Datagram) :
    SameWindow p.stb.tc (touAcceptAck p d).stb.tc := by
  obtain ⟨una, ht, _⟩ := touAcceptAck_result p d
  rw [ht]
  exact ⟨rfl, rfl, rfl, rfl⟩

theorem touAccept_window {p : Process} {rand : ℕ} {rcvbuf : ℤ} {d : Datagram} {r : Bool × Process}
    (h : touAccept p rand rcvbuf d = .ok r) :
    SameWindow { p.stb.tc with ccState := .ss, sndCwnd := 2 * touMss } r.2.stb.tc := by
  obtain ⟨r1, h1, h⟩ := of_bind_ok h
  have hw : SameWindow { p.stb.tc with ccState := .ss, sndCwnd := 2 * touMss } r1.2.stb.tc := by
    rcases touAcceptSynAck_ok h1 with ⟨_, synack, _, rfl⟩ | ⟨_, rfl⟩
    · exact ⟨rfl, rfl, rfl, rfl⟩
    · exact ⟨rfl, rfl, rfl, rfl⟩
  split at h
  · cases h
    exact hw.trans (touAcceptAck_window _ d)
  · cases h
    exact hw

theorem ClosedChange.window {p q : Process} (h : ClosedChange p q) : SameWindow p.stb.tc q.stb.tc := by
  cases h <;> exact ⟨rfl, rfl, rfl, rfl⟩

/-- A listener has counted no duplicates and its threshold is as `ssca::ssca` set it. -/
theorem Listening.window {p : Process} (h : Listening p) :
    p.stb.tc.dupackcount = 0 ∧ p.stb.tc.sndSsthresh = touMaxSsthresh := by
  induction h with
  | listen sockfd stp => exact ⟨rfl, rfl⟩
  | run hp h ih =>
    exact reach_inv (fun q : Process => q.stb.tc.dupackcount = 0 ∧ q.stb.tc.sndSsthresh = touMaxSsthresh)
      (fun _ _ hq hst => ⟨hst.window.dupackcount.trans hq.1, hst.window.sndSsthresh.trans hq.2⟩) ih
      (closed_run hp.fresh.1.runstate hp.fresh.2 h).1
  | accept _ h ih =>
    have hw := touAccept_window h
    exact ⟨hw.dupackcount.trans ih.1, hw.sndSsthresh.trans ih.2⟩

theorem Opened.window {p : Process} (h : Opened p) : SameWindow p.stb.tc.afterHandshake p.stb.tc := by
  cases h with
  | connect h =>
    have hw := touConnect_window h
    exact ⟨hw.ccState, hw.dupackcount, hw.sndCwnd, hw.sndSsthresh⟩
  | accept hp h =>
    have hw := touAccept_window h
    obtain ⟨hdup, hth⟩ := hp.window
    exact ⟨hw.ccState, hw.dupackcount.trans hdup, hw.sndCwnd, hw.sndSsthresh.trans hth⟩

/-- The bounds on the congestion variables hold in every state of a sender. -/
theorem SenderReachable.windowInv {p : Process} (h : SenderReachable p) : WindowInv p.stb.tc := by
  obtain ⟨p₀, hopen, hrun⟩ := h
  refine reach_inv (fun q : Process => WindowInv q.stb.tc) ?_
    ((windowInv_afterHandshake p₀.stb.tc).of_same hopen.window) hrun
  intro a b ha hst
  exact reach_inv WindowInv (fun _ _ hs hw => hs.step hw) ha hst.windows

end Process
end TcpOverUdp
