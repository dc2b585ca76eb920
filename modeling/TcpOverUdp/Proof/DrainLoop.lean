import TcpOverUdp.Proof.StalledRecovery

/-! # The loop that drains the socket

`timerCk::doit` calls `run` again while it answers no negative number. A call that does not answer a
negative number has taken a datagram, or has finished a recovery, or has stalled in one: the first two
bring the loop closer to its end, and the third is repeated for ever.
-/
namespace TcpOverUdp
open MachineInt
set_option autoImplicit false

namespace Process

/-! ## What a call that answers no negative number has done -/

/-- Where a call of `run` for `p` can be before it has taken a datagram. -/
inductive Untaken (p : Process) (s : RunSt) : Prop
  | receive (hs : s.state = .getPkt)
  | recover (hs : s.state = .pktRecovery) (hp : p.stb.runstate = .pktRecovery) (heq : s.pr = p)
  | recovered (hs : ¬ Handles s.state) (hne : s.state ≠ .pktRecovery)
      (hp : p.stb.runstate = .pktRecovery) (hrun : s.pr.stb.runstate = .getPkt)

def Drained (p : Process) (pending : List Datagram) (s : RunSt) : Prop :=
  s.pending.length < pending.length ∨ (s.pending = pending ∧ Untaken p s)

theorem drained_start (p : Process) (pending : List Datagram) : Drained p pending (runSt p pending) := by
  refine Or.inr ⟨rfl, ?_⟩
  cases h : p.stb.runstate with
  | getPkt => exact Untaken.receive (runSt_getPkt h pending)
  | pktRecovery => exact Untaken.recover (runSt_pktRecovery h pending) h rfl

theorem Untaken.recovered_after {p q : Process} {s : RunSt} {st : ProcState} {P : Prop}
    (hst : st = .procEnd ∨ st = .clearGetPkt ∧ P) (hp : p.stb.runstate = .pktRecovery)
    (hrun : q.stb.runstate = .getPkt) : Untaken p (s.goto q st) := by
  refine Untaken.recovered (not_handles_after hst) ?_ hp hrun
  rcases hst with rfl | ⟨rfl, _⟩ <;> exact fun h => by cases h

theorem Untaken.turn {D : Datagram → Prop} {now : ℕ} {p : Process} {s s' : RunSt} (hp : ¬ Spinning p)
    (hu : Untaken p s) (ht : RunTurn D now s s') :
    s'.pending.length < s.pending.length ∨ (s'.pending = s.pending ∧ Untaken p s') := by
  cases ht with
  | @receive d rest st hs hpend hc =>
    refine Or.inl ?_
    rw [hpend, List.length_cons]
    exact Nat.lt_succ_self _
  | syn hs | fin hs | ack hs | inOrder hs | old hs | future hs =>
    cases hu with
    | receive h | recover h =>
      rw [hs] at h
      cases h
    | recovered h => exact absurd (hs ▸ trivial) h
  | @recovered stb hs hr =>
    refine Or.inr ⟨rfl, ?_⟩
    cases hu with
    | receive h =>
      rw [hs] at h
      cases h
    | recover _ hrun => exact Untaken.recovered id (fun h => by cases h) hrun rfl
    | recovered _ hne => exact absurd hs hne
  | @unrecovered rv stb hs hrv hr =>
    cases hu with
    | receive h =>
      rw [hs] at h
      cases h
    | recover _ hrun heq =>
      rw [heq] at hr
      exact absurd ⟨hrun, stalled_of_procPktRec hr hrv⟩ hp
    | recovered _ hne => exact absurd hs hne
  | sendback hs h hst =>
    refine Or.inr ⟨rfl, ?_⟩
    cases hu with
    | receive h' | recover h' =>
      rw [hs] at h'
      cases h'
    | recovered _ _ hrec hrun =>
      exact Untaken.recovered_after hst hrec ((procDelack_effect h).recvSame.runstate_eq.trans hrun)
  | noSendback hs hst =>
    refine Or.inr ⟨rfl, ?_⟩
    cases hu with
    | receive h' | recover h' =>
      rw [hs] at h'
      cases h'
    | recovered _ _ hrec hrun => exact Untaken.recovered_after hst hrec hrun

theorem RunTurn.pending_le {D : Datagram → Prop} {now : ℕ} {s s' : RunSt} (ht : RunTurn D now s s') :
    s'.pending.length ≤ s.pending.length := by
  cases ht with
  | @receive d rest st hs hpend hc =>
    rw [hpend]
    exact Nat.le_succ _
  | syn | fin | ack | recovered | unrecovered | inOrder | old | future | sendback | noSendback =>
    exact le_rfl

/-- How far the loop is from its end: two turns for a datagram, and one to finish a recovery. -/
def drainLeft (p : Process) (pending : List Datagram) : ℕ :=
  2 * pending.length + if p.stb.runstate = .pktRecovery then 1 else 0

theorem drainLeft_le (p : Process) (pending : List Datagram) :
    drainLeft p pending ≤ 2 * pending.length + 1 := by
  unfold drainLeft
  split <;> omega

/-- A call that answers no negative number brings the loop closer to its end, unless it stalls. -/
theorem run_drains {now : ℕ} {p : Process} {pending : List Datagram} {r : RunRes} (hp : ¬ Spinning p)
    (h : run now p pending = .ok r) (hrv : r.rv ≥ 0) :
    drainLeft r.pr r.pending < drainLeft p pending := by
  obtain ⟨s, hs, hdone⟩ := run_inv_done (D := fun _ => True) h (fun _ _ => trivial) (Drained p pending)
    (drained_start p pending) (by
      rintro s s' _ _ (hlt | ⟨heq, hu⟩) ht
      · exact Or.inl (ht.pending_le.trans_lt hlt)
      · have hturn := hu.turn hp ht
        rw [heq] at hturn
        exact hturn)
  rcases runStep_done_cases hdone with ⟨hend, hr⟩ | ⟨_, hneg, _⟩
  · rw [hr]
    simp only
    rcases hs with hlt | ⟨heq, hu⟩
    · have hle := drainLeft_le s.pr s.pending
      unfold drainLeft at hle ⊢
      omega
    · rw [heq]
      cases hu with
      | receive h' | recover h' =>
        rw [hend] at h'
        cases h'
      | recovered _ _ hrec hrun =>
        unfold drainLeft
        rw [hrec, hrun, if_neg (by decide), if_pos rfl]
        omega
  · omega

/-! ## The loop -/

theorem drainStep_next {clock : ℕ → ℕ} {a b : DrainSt} (h : drainStep clock a = .ok (.next b)) :
    ∃ r, run (clock a.turn) a.pr a.pending = .ok r ∧ r.rv ≥ 0 ∧
      b = { turn := a.turn + 1, pr := r.pr, pending := r.pending } := by
  obtain ⟨r, hr, h⟩ := of_bind_ok h
  split at h
  · cases h
    exact ⟨r, hr, ‹_›, rfl⟩
  · cases h

theorem Spinning.drainStep {a : DrainSt} (h : Spinning a.pr) (clock : ℕ → ℕ) :
    ∃ b, Process.drainStep clock a = .ok (.next b) ∧ Spinning b.pr := by
  obtain ⟨q, hrun, hq⟩ := h.run (clock a.turn) a.pending
  refine ⟨{ turn := a.turn + 1, pr := q, pending := a.pending }, ?_, hq⟩
  unfold Process.drainStep
  rw [hrun]
  rfl

/-- The loop makes finitely many turns exactly if no call of `run` in it starts with a recovery that
stalls: it ends, or a call ends the process. -/
theorem drain_ends_iff (clock : ℕ → ℕ) (p : Process) (pending : List Datagram) :
    (∃ fuel, drain clock fuel p pending ≠ .error .outOfFuel) ↔
      ∀ x, Visits (drainStep clock) { turn := 0, pr := p, pending := pending } x → ¬ Spinning x.pr := by
  refine fuelLoop_ends_iff (σ := DrainSt) (fun x => Spinning x.pr) (fun x => drainLeft x.pr x.pending)
    (fun a ha => ha.drainStep clock) ?_ ?_ _
  · intro a b ha hab
    obtain ⟨r, hrun, hrv, rfl⟩ := drainStep_next hab
    exact run_drains ha hrun hrv
  · intro a hstuck
    rcases of_bind_error hstuck with hrun | ⟨r, _, hr⟩
    · exact run_ne_outOfFuel _ _ _ hrun
    · split at hr <;> cases hr

/-- A session with a timer in the heap whose timer thread never leaves the loop, though no datagram is
pending. -/
theorem drain_spins : ∃ p, Session p ∧ p.stb.runstate = .pktRecovery ∧ p.timerheap.elems ≠ [] ∧
    ∀ (clock : ℕ → ℕ) (fuel : ℕ), drain clock fuel p [] = .error .outOfFuel := by
  obtain ⟨p, hsess, hspin, htimer⟩ := exists_spinning
  refine ⟨p, hsess, hspin.runstate, htimer, fun clock fuel => ?_⟩
  exact fuelLoop_stuck_of_inv (fun x : DrainSt => Spinning x.pr) (fun a ha => ha.drainStep clock) hspin fuel

end Process
end TcpOverUdp
