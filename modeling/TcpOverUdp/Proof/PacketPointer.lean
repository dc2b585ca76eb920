import TcpOverUdp.Model.PacketPointer
import TcpOverUdp.Proof.Automaton

/-! # The packet pointer of `run`

A call that starts with `PROCESS_GET_PKT` assigns `tp` before everything else it does with it, and the
automaton deletes a packet only on its way to the next one or at the end of the call.
-/
namespace TcpOverUdp
open MachineInt
set_option autoImplicit false

namespace Process

/-! ## One turn -/

/-- The call begins with `run_recvfrom`, or a packet is assigned. -/
def Ready (s : RunSt) : Prop := s.state = .getPkt ∨ s.tp.isSome = true

theorem recvUses_cases (s : RunSt) : recvUses s = [.assign, .read] ∨ recvUses s = [] := by
  unfold recvUses
  cases runRecvfrom s with
  | next => exact Or.inl rfl
  | done => exact Or.inr rfl

theorem getPkt_next {s s' : RunSt} (h : getPkt s = .ok (.next s')) :
    recvUses s = [.assign, .read] ∧ s'.tp.isSome = true := by
  unfold getPkt at h
  unfold recvUses
  generalize runRecvfrom s = t at h ⊢
  cases t with
  | done r => cases h
  | next a =>
    simp only at h
    cases htp : a.tp with
    | none =>
      rw [htp] at h
      cases h
    | some tp =>
      rw [htp] at h
      obtain ⟨st, _, h⟩ := of_bind_ok h
      cases h
      exact ⟨rfl, rfl⟩

/-- A turn after which the call goes on leaves the pointer live, as the packet in the state says. -/
theorem follow_next {now : ℕ} {s s' : RunSt} (hok : FsmOk (fun _ => True) s) (hr : Ready s)
    (h : runStep now s = .ok (.next s')) :
    follow s.tp.isSome (tpUses s) = some s'.tp.isSome ∧ s'.tp.isSome = true := by
  have hlive : s.state ≠ .getPkt → s.tp.isSome = true := fun hne => hr.resolve_left hne
  have ht := (runStep_turn hok h).1
  unfold tpUses
  cases ht with
  | receive hs =>
    rw [runStep_receives hs] at h
    obtain ⟨huses, htp⟩ := getPkt_next h
    rcases hs with hs | hs
    · rw [hs]
      simp only [huses]
      exact ⟨by rw [htp]; rfl, htp⟩
    · have hsome := hlive (by rw [hs]; decide)
      rw [hs]
      simp only [huses, hsome]
      exact ⟨by rw [htp]; rfl, htp⟩
  | syn hs | fin hs | ack hs | inOrder hs | old hs | future hs | recovered hs | unrecovered hs
  | sendback hs | noSendback hs =>
    have hsome := hlive (by rw [hs]; decide)
    rw [hs]
    exact ⟨by simp only [RunSt.goto, hsome]; rfl, hsome⟩

theorem follow_turn {s : RunSt} (hr : Ready s) : follow s.tp.isSome (tpUses s) ≠ none := by
  have hlive : s.state ≠ .getPkt → s.tp.isSome = true := fun hne => hr.resolve_left hne
  unfold tpUses
  cases hs : s.state with
  | getPkt =>
    rcases recvUses_cases s with h | h <;> simp only [h] <;> exact fun h => by cases h
  | clearGetPkt =>
    have hsome := hlive (by rw [hs]; decide)
    rcases recvUses_cases s with h | h <;> simp only [h, hsome] <;> exact fun h => by cases h
  | procEnd | procSyn | procFin | ackWithoutData | ackWithDataMatchExpectedSeq
  | ackWithDataLessExpectedSeq | ackWithDataMoreExpectedSeq | pktRecovery
  | ackDatarecsuccSendbackAck | ackDatarecsuccNoSendbackAck =>
    have hsome := hlive (by rw [hs]; decide)
    simp only [hsome]
    exact fun h => by cases h

/-! ## A call -/

theorem runUsesLoop_safe (now k : ℕ) {s : RunSt} (hok : FsmOk (fun _ => True) s) (hr : Ready s) :
    follow s.tp.isSome (runUsesLoop now k s) ≠ none := by
  induction k generalizing s with
  | zero => exact fun h => by cases h
  | succ k ih =>
    rw [runUsesLoop, follow_append]
    cases hstep : runStep now s with
    | error e =>
      cases hturn : follow s.tp.isSome (tpUses s) with
      | none => exact absurd hturn (follow_turn hr)
      | some live => exact fun h => by cases h
    | ok t =>
      cases t with
      | done r =>
        cases hturn : follow s.tp.isSome (tpUses s) with
        | none => exact absurd hturn (follow_turn hr)
        | some live => exact fun h => by cases h
      | next s' =>
        obtain ⟨hturn, hsome⟩ := follow_next hok hr hstep
        rw [hturn]
        exact ih (runStep_turn hok hstep).2 (Or.inr hsome)

theorem runUses_safe_getPkt (now : ℕ) {p : Process} (h : p.stb.runstate = .getPkt)
    (pending : List Datagram) : SafeUses (runUses now p pending) := by
  have hok : FsmOk (fun _ => True) (runSt p pending) := fsmOk_start p fun _ _ => trivial
  exact (safeUses_iff _).2 (runUsesLoop_safe now _ hok (Or.inl (runSt_getPkt h pending)))

end Process
end TcpOverUdp
