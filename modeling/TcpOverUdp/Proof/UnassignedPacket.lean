import TcpOverUdp.Proof.StalledRecovery

/-! # The packet that recovery never received

A call that starts with `PROCESS_PKT_RECOVERY`, after an earlier call ran out of space, has received
nothing when it deletes `tp`.
-/
namespace TcpOverUdp
open MachineInt
set_option autoImplicit false

namespace Process

/-! ## A call that begins with recovery -/

theorem runUses_recovery (now : ℕ) {p : Process} (h : p.stb.runstate = .pktRecovery)
    (pending : List Datagram) : runUses now p pending =
      match runStep now (runSt p pending) with
      | .ok (.next s') => runUsesLoop now (6 * pending.length + 7) s'
      | _ => [] := by
  have hs := runSt_pktRecovery h pending
  have hfuel : runFuel pending = 6 * pending.length + 7 + 1 := rfl
  unfold runUses
  rw [hfuel, runUsesLoop]
  unfold tpUses
  rw [hs]
  rfl

/-- The states behind a recovery delete the packet, and there is none. -/
theorem follow_delete (now k : ℕ) {s : RunSt} {P : Prop} (hs : s.state = .procEnd ∨ s.state = .clearGetPkt ∧ P) :
    follow false (runUsesLoop now (k + 1) s) = none := by
  rw [runUsesLoop, follow_append]
  unfold tpUses
  rcases hs with hs | ⟨hs, _⟩ <;> rw [hs] <;> rfl

theorem follow_noSendback (now k : ℕ) {s : RunSt} (hs : s.state = .ackDatarecsuccNoSendbackAck) :
    follow false (runUsesLoop now (k + 2) s) = none := by
  obtain ⟨st, hno, hst⟩ := noSendback_eq s
  have hstep : runStep now s = .ok (.next (s.goto s.pr st)) := by
    unfold runStep
    rw [hs, ← hno]
  rw [runUsesLoop, follow_append, hstep]
  unfold tpUses
  rw [hs]
  exact follow_delete now k hst

theorem follow_sendback (now k : ℕ) {s : RunSt} (hs : s.state = .ackDatarecsuccSendbackAck)
    (hready : AckReady s.pr) : follow false (runUsesLoop now (k + 2) s) = none := by
  obtain ⟨q, hq⟩ := hready.procDelack_returns now
  obtain ⟨st, hno, hst⟩ := noSendback_eq (s.goto q .ackDatarecsuccSendbackAck)
  have hstep : runStep now s = .ok (.next ((s.goto q .ackDatarecsuccSendbackAck).goto q st)) := by
    unfold runStep
    rw [hs]
    simp only [hq, ok_bind]
    exact congrArg (fun t => Except.ok (Turn.next t)) hno
  rw [runUsesLoop, follow_append, hstep]
  unfold tpUses
  rw [hs]
  exact follow_delete now k hst

/-- A call that begins with recovery deletes a packet it never received, unless its recovery fails the
assertion first. -/
theorem runUses_recovery_safe_iff (now : ℕ) {p : Process} (hp : AckReady p)
    (h : p.stb.runstate = .pktRecovery) (pending : List Datagram) :
    SafeUses (runUses now p pending) ↔ Overlapped p.stb := by
  have hs := runSt_pktRecovery h pending
  have hpr : (runSt p pending).pr = p := rfl
  rw [safeUses_iff, runUses_recovery now h]
  cases hrec : procPktRec p.stb with
  | error e =>
    have hstep : runStep now (runSt p pending) = .error e := by
      unfold runStep
      rw [hs, hpr, hrec]
      rfl
    rw [hstep]
    exact ⟨fun _ => overlapped_of_procPktRec hrec, fun _ hnone => by cases hnone⟩
  | ok r =>
    have hover : ¬ Overlapped p.stb := by
      intro hover
      rw [hover.procPktRec] at hrec
      cases hrec
    refine iff_of_false (fun hne => hne ?_) hover
    by_cases hret : r.1 = 0
    · have hstep : runStep now (runSt p pending) = .ok (.next ((runSt p pending).goto
          (p.setTable (r.2.setRunstate .getPkt)) .ackDatarecsuccSendbackAck)) := by
        unfold runStep
        rw [hs, hpr, hrec]
        simp only [ok_bind, if_pos hret]
        rfl
      rw [hstep]
      exact follow_sendback now _ rfl (ackReady_recovered hp hrec .getPkt)
    · have hstep : runStep now (runSt p pending) = .ok (.next ((runSt p pending).goto
          (p.setTable (r.2.setRunstate .pktRecovery)) .ackDatarecsuccNoSendbackAck)) := by
        unfold runStep
        rw [hs, hpr, hrec]
        simp only [ok_bind, if_neg hret]
        rfl
      rw [hstep]
      exact follow_noSendback now _ rfl

/-! ## Every call -/

/-- In every state that a listening or a connected process reaches, for all that may be pending: each
read and delete of `tp` finds a packet that this call received and did not delete, and none is deleted
twice, exactly if the call begins by receiving or its recovery comes to a packet below `rcv_nxt`. -/
theorem packet_pointer_safe_iff (now : ℕ) (p : Process) (hp : Listening p ∨ Session p)
    (pending : List Datagram) :
    (SafeUses (runUses now p pending) ∧ DeletedOnce (runUses now p pending)) ↔
      p.stb.runstate = .getPkt ∨ Overlapped p.stb := by
  have hready : AckReady p := by
    rcases hp with hp | hp
    · exact hp.fresh.1.ackReady
    · exact hp.sound.ackReady
  rw [and_iff_left_of_imp SafeUses.deletedOnce]
  cases h : p.stb.runstate with
  | getPkt => exact ⟨fun _ => Or.inl rfl, fun _ => runUses_safe_getPkt now h pending⟩
  | pktRecovery =>
    rw [runUses_recovery_safe_iff now hready h pending]
    exact ⟨Or.inr, fun hor => hor.resolve_left fun hne => by cases hne⟩

/-- A session whose next call of `run` deletes `tp`, which it never assigned, though it returns. -/
theorem unassigned_deleted : ∃ p r, Session p ∧ p.stb.runstate = .pktRecovery ∧ run 5 p [] = .ok r ∧
    runUses 5 p [] = [.delete] ∧ ¬ SafeUses (runUses 5 p []) := by
  obtain ⟨p, hsess, hspin, _⟩ := exists_spinning
  obtain ⟨q, hrun, _⟩ := hspin.run 5 []
  have huses : runUses 5 p [] = [.delete] := by
    obtain ⟨q, hstep, _, _⟩ :=
      runStep_stalled 5 (runSt_pktRecovery hspin.runstate []) hspin.stalled
    have hno : runStep 5 ((runSt p []).goto q .ackDatarecsuccNoSendbackAck) =
        .ok (.next ((runSt p []).goto q .procEnd)) :=
      congrArg (fun t => Except.ok (Turn.next t)) (noSendback_ends (Or.inl rfl))
    rw [runUses_recovery 5 hspin.runstate, hstep]
    simp only [runUsesLoop, hno]
    rfl
  refine ⟨p, _, hsess, hspin.runstate, hrun, huses, ?_⟩
  rw [huses, safeUses_iff]
  exact fun h => h rfl

/-- A client that receives 16 zero bytes. -/
theorem packet_pointer_safe_iff_zero : ∃ q, Session q ∧
    SafeUses (runUses 5 q [zeroDatagram]) ∧ DeletedOnce (runUses 5 q [zeroDatagram]) := by
  obtain ⟨q, _, hopen, _⟩ := exists_client
  have hs : Session q := ⟨q, hopen, Relation.ReflTransGen.refl⟩
  exact ⟨q, hs, (packet_pointer_safe_iff 5 q (Or.inr hs) [zeroDatagram]).2
    (Or.inl hopen.fresh.1.runstate)⟩

end Process
end TcpOverUdp
