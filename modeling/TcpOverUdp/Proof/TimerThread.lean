import TcpOverUdp.Model.TimerThread
import TcpOverUdp.Proof.HostAtomic
import TcpOverUdp.Proof.RcvNxt
import TcpOverUdp.Proof.TimerCoverage

/-! # The top of an empty queue

A call of `run` in the loop that drains the socket can take the last timer out of the heap. When it has received
a datagram the loop goes on, and reads the top of the heap again. This is what happens in a pass of the timer
thread that finds the ACK of everything in flight among the pending datagrams (`doit_emptyTop_iff`).
-/
namespace TcpOverUdp
open MachineInt Pieces
set_option autoImplicit false

namespace Process

section Turn
variable {k base : ℕ} {acked inflight : List (List Byte)} {p q : Process} {d : Datagram} {a : ℕ}
  {clock : ℕ → ℕ}

/-- The heap is empty when and only when nothing is in flight. -/
theorem Coverage.top_none (hc : Coverage k base acked inflight p) :
    p.timerheap.top? = none ↔ p.stb.tc.sndUna = p.stb.tc.sndNxt := by
  have hnxt := hc.nxt_eq
  have hlen := congrArg List.length hc.armed
  rw [length_pIds, List.length_map, length_numbered] at hlen
  rw [MinHeap.top?_eq_none]
  constructor
  · intro hnil
    rw [MinHeap.size, hnil] at hlen
    rw [List.length_eq_zero_iff.mp hlen.symm] at hnxt
    exact hnxt.symm
  · intro heq
    cases hin : inflight with
    | nil =>
      rw [MinHeap.size, hin] at hlen
      exact List.length_eq_zero_iff.mp hlen
    | cons x rest =>
      have hpos := List.length_pos_iff.mpr (hc.nonempty_inflight x (by rw [hin]; exact List.mem_cons_self))
      rw [hin, List.flatten_cons, List.length_append] at hnxt
      omega

/-- The last segment ends at `snd_nxt`. -/
theorem Coverage.nxt_end (hc : Coverage k base acked inflight p) (hlt : p.stb.tc.sndUna < p.stb.tc.sndNxt) :
    p.stb.tc.sndNxt ∈ (segmentsSince k p).map endOf := by
  have hnxt := hc.nxt_eq
  obtain ⟨init, last, rfl⟩ : ∃ init last, inflight = init ++ [last] := by
    rcases List.eq_nil_or_concat inflight with rfl | ⟨init, last, h⟩
    · rw [List.flatten_nil, List.length_nil] at hnxt
      omega
    · exact ⟨init, last, h.trans List.concat_eq_append⟩
  refine List.mem_map.mpr ⟨(base + (acked ++ init).flatten.length, last), ?_, ?_⟩
  · rw [hc.log_eq, ← List.append_assoc, numbered_append]
    exact List.mem_append_right _ List.mem_cons_self
  · rw [hnxt, hc.una_eq]
    simp only [endOf, List.flatten_append, List.length_append, List.flatten_cons, List.flatten_nil,
      List.append_nil]
    omega

/-- The numbers that an ACK of this stream can have. -/
def KnownAck (k : ℕ) (p : Process) (a : ℕ) : Prop :=
  a ≤ p.stb.tc.sndUna ∨ a ∈ (segmentsSince k p).map endOf

theorem Coverage.known_le (hc : Coverage k base acked inflight p) (ha : KnownAck k p a) :
    a ≤ p.stb.tc.sndNxt := by
  have hu := hc.una_eq
  have hn := hc.nxt_eq
  rcases ha with ha | ha
  · omega
  · obtain ⟨s, hs, rfl⟩ := List.mem_map.mp ha
    rw [hc.log_eq] at hs
    have hlast := (boundary_end hs).le_last
    rw [List.flatten_append, List.length_append] at hlast
    omega

/-- An established sender whose application has nothing more to send. -/
structure Waiting (k base : ℕ) (p : Process) : Prop where
  covered : Covered k base p
  established : p.stb.sockstate = .established
  runstate : p.stb.runstate = .getPkt
  cbSend : p.stb.cbSend.contents = []

/-- What a call of `run` for a pure ACK leaves. -/
structure AckedTurn (k base a : ℕ) (p q : Process) : Prop where
  waiting : Waiting k base q
  una_eq : q.stb.tc.sndUna = max p.stb.tc.sndUna a
  nxt_eq : q.stb.tc.sndNxt = p.stb.tc.sndNxt
  segments_eq : segmentsSince k q = segmentsSince k p

/-- `rexmit_for_dup_ack` may end the process, which takes an ACK that repeats `snd_una`. -/
theorem Waiting.pureAck (hp : Waiting k base p) (hd : IsPureAck d a) (ha : KnownAck k p a)
    (hne : a ≠ p.stb.tc.sndUna) (now : ℕ) (rest : List Datagram) :
    ∃ q rv, run now p (d :: rest) = .ok { rv := rv, pr := q, pending := rest } ∧ 0 ≤ rv ∧
      AckedTurn k base a p q := by
  obtain ⟨acked, inflight, hc⟩ := hp.covered
  have hrun := run_pureAck now rest hd hp.established hp.runstate
  rw [if_pos (hc.known_le ha)] at hrun
  cases h1 : handleAck now p (recvPkg d) with
  | error e =>
    rcases handleAck_error h1 with ⟨_, hdel⟩ | ⟨_, heq, _⟩
    · obtain ⟨r, hr⟩ := Timer.deleteTimer_returns (recvPkg d).t.ackSeq hc.own
      rw [hr] at hdel
      cases hdel
    · exact absurd (hd.ackSeq.symm.trans heq) hne
  | ok q =>
    have heff := handleAck_effect h1
    have hcb : q.stb.cbSend.contents = [] := by
      rw [heff.table_eq]
      exact hp.cbSend
    obtain ⟨q', _, hsend, _⟩ := send_emitted now q
    obtain rfl := send_nothing hcb hsend
    rw [h1, ok_bind, hsend, ok_bind] at hrun
    have ha' : (recvPkg d).t.ackSeq ≤ p.stb.tc.sndUna ∨
        (recvPkg d).t.ackSeq ∈ (segmentsSince k p).map endOf := hd.ackSeq.symm ▸ ha
    obtain ⟨pre, post, hsplit, hc'⟩ := hc.ack ha' h1
    refine ⟨q', _, hrun, Int.natCast_nonneg _, ⟨⟨_, _, hc'⟩, ?_, ?_, hcb⟩, ?_, heff.sndNxt_eq, ?_⟩
    · rw [heff.table_eq]
      exact hp.established
    · rw [heff.table_eq]
      exact hp.runstate
    · rw [heff.sndUna_eq, hd.ackSeq]
    · rw [hc'.log_eq, hc.log_eq, hsplit, List.append_assoc]

theorem AckedTurn.known {b : ℕ} (h : AckedTurn k base a p q) (hb : KnownAck k p b) : KnownAck k q b := by
  rcases hb with hb | hb
  · have huna := h.una_eq
    exact Or.inl (by omega)
  · exact Or.inr (by rw [h.segments_eq]; exact hb)

/-- The call of `run` that finds no datagram. -/
theorem run_empty (now : ℕ) (hrs : p.stb.runstate = .getPkt) :
    run now p [] = .ok { rv := -1, pr := p, pending := [] } := by
  have hstep : runStep now (runSt p []) = .ok (.done { rv := -1, pr := p, pending := [] }) := by
    rw [runStep_receives (Or.inl (runSt_getPkt hrs [])), getPkt_nil rfl]
    rfl
  unfold run runFuel
  exact fuelLoop_done hstep

theorem Waiting.turn (hp : Waiting k base p) (hd : IsPureAck d a) (ha : KnownAck k p a)
    (hne : a ≠ p.stb.tc.sndUna) (hlt : p.stb.tc.sndUna < p.stb.tc.sndNxt) (n : ℕ) (rest : List Datagram) :
    ∃ q, doitTurn clock ⟨n, p, d :: rest⟩ = .ok (.next ⟨n + 1, q, rest⟩) ∧ AckedTurn k base a p q := by
  obtain ⟨acked, inflight, hc⟩ := hp.covered
  obtain ⟨q, rv, hrun, hrv, hq⟩ := hp.pureAck hd ha hne (clock n) rest
  refine ⟨q, ?_, hq⟩
  cases htop : p.timerheap.top? with
  | none => exact absurd (hc.top_none.mp htop) (ne_of_lt hlt)
  | some top =>
    have hown := (hc.own top (MinHeap.mem_of_top? htop)).1
    unfold doitTurn
    simp only [htop, hown, ne_eq, not_true_eq_false, if_false, hrun, if_pos hrv]

theorem Waiting.turn_empty (hp : Waiting k base p) (hlt : p.stb.tc.sndUna < p.stb.tc.sndNxt) (n : ℕ) :
    doitTurn clock ⟨n, p, []⟩ = .ok (.done ⟨n + 1, p, []⟩) := by
  obtain ⟨acked, inflight, hc⟩ := hp.covered
  cases htop : p.timerheap.top? with
  | none => exact absurd (hc.top_none.mp htop) (ne_of_lt hlt)
  | some top =>
    have hown := (hc.own top (MinHeap.mem_of_top? htop)).1
    unfold doitTurn
    simp only [htop, hown, ne_eq, not_true_eq_false, if_false, run_empty (clock n) hp.runstate]
    rfl

theorem Waiting.turn_emptyTop (hp : Waiting k base p) (heq : p.stb.tc.sndUna = p.stb.tc.sndNxt) (n : ℕ)
    (ds : List Datagram) : doitTurn clock ⟨n, p, ds⟩ = .error .emptyTop := by
  obtain ⟨acked, inflight, hc⟩ := hp.covered
  unfold doitTurn
  simp only [hc.top_none.mpr heq]

/-- The loop reads the top of an empty queue when one of the ACKs is for everything in flight. -/
theorem Waiting.drain {ds : List Datagram} {as : List ℕ} (hds : List.Forall₂ IsPureAck ds as)
    (hp : Waiting k base p) (hlt : p.stb.tc.sndUna < p.stb.tc.sndNxt) (has : ∀ a ∈ as, KnownAck k p a)
    (hnodup : (p.stb.tc.sndUna :: as).Nodup) (n fuel : ℕ) (hfuel : as.length < fuel) :
    if p.stb.tc.sndNxt ∈ as then
      fuelLoop (.within .outOfFuel) (doitTurn clock) fuel ⟨n, p, ds⟩ = .error .emptyTop
    else ∃ s, fuelLoop (.within .outOfFuel) (doitTurn clock) fuel ⟨n, p, ds⟩ = .ok s := by
  induction hds generalizing p n fuel with
  | nil =>
    obtain ⟨m, rfl⟩ := Nat.exists_eq_succ_of_ne_zero (Nat.ne_of_gt hfuel)
    rw [if_neg List.not_mem_nil]
    exact ⟨_, fuelLoop_done (hp.turn_empty hlt n)⟩
  | @cons d a ds as hd hds ih =>
    obtain ⟨m, rfl⟩ := Nat.exists_eq_succ_of_ne_zero (Nat.ne_of_gt (Nat.zero_lt_of_lt hfuel))
    obtain ⟨hnew, hnd⟩ := List.nodup_cons.mp hnodup
    have hne : a ≠ p.stb.tc.sndUna := fun h => hnew (h ▸ List.mem_cons_self)
    obtain ⟨q, hturn, hq⟩ := @Waiting.turn k base p d a clock hp hd (has a List.mem_cons_self) hne hlt n ds
    rw [fuelLoop_next hturn]
    rw [List.length_cons] at hfuel
    have hle : a ≤ p.stb.tc.sndNxt := by
      obtain ⟨_, _, hc⟩ := hp.covered
      exact hc.known_le (has a List.mem_cons_self)
    have huna := hq.una_eq
    by_cases hall : a = p.stb.tc.sndNxt
    · -- the heap is empty after this turn, and the next one reads its top
      rw [if_pos (hall ▸ List.mem_cons_self)]
      obtain ⟨m', rfl⟩ : ∃ m', m = m' + 1 := ⟨m - 1, by omega⟩
      exact fuelLoop_halt (hq.waiting.turn_emptyTop (by rw [huna, hq.nxt_eq]; omega) _ _)
    · have hmem : (p.stb.tc.sndNxt ∈ a :: as) ↔ p.stb.tc.sndNxt ∈ as := by
        rw [List.mem_cons]
        exact or_iff_right (Ne.symm hall)
      have hnodup' : (q.stb.tc.sndUna :: as).Nodup := by
        rw [huna]
        rcases max_choice p.stb.tc.sndUna a with hm | hm
        · rw [hm]
          exact hnodup.sublist (List.Sublist.cons_cons _ (List.sublist_cons_self a as))
        · rw [hm]
          exact hnd
      have hrest := ih hq.waiting (by rw [huna, hq.nxt_eq]; omega)
        (fun b hb => hq.known (has b (List.mem_cons_of_mem _ hb))) hnodup' (n + 1) m (by omega)
      rw [hq.nxt_eq] at hrest
      simp only [hmem]
      exact hrest

end Turn

/-! ## A pass -/

theorem Waiting.delack {k base now : ℕ} {p q : Process} (hp : Waiting k base p)
    (h : timerProcDelack now p = .ok q) : Waiting k base q := by
  obtain ⟨acked, inflight, hc⟩ := hp.covered
  have heff := timerProcDelack_effect h
  refine ⟨⟨_, _, hc.sendSame heff.sendSame⟩, ?_, ?_, ?_⟩ <;> rw [heff.table_eq]
  · exact hp.established
  · exact hp.runstate
  · exact hp.cbSend

/-- A pass of `doit` finds the ACKs of a sender that has nothing more to send. They are different from each
other and from `snd_una`. The pass reads the top of an empty queue if and only if one of them is for everything
in flight. -/
theorem doit_emptyTop_iff (p₀ p : Process) (hu : p₀.stb.tc.sndUna = p₀.stb.tc.sndNxt)
    (hlt : p₀.stb.tc.sndNxt < 4294967296) (hh : p₀.timerheap.elems = [])
    (hrun : Relation.ReflTransGen (CoverageStep p₀.sent.length) p₀ p)
    (hst : p.stb.sockstate = .established) (hrs : p.stb.runstate = .getPkt)
    (hcb : p.stb.cbSend.contents = []) (hflight : p.stb.tc.sndUna < p.stb.tc.sndNxt)
    (ds : List Datagram) (as : List ℕ) (hds : List.Forall₂ IsPureAck ds as)
    (has : ∀ a ∈ as, a ≤ p.stb.tc.sndUna ∨ a ∈ (segmentsSince p₀.sent.length p).map endOf)
    (hnodup : (p.stb.tc.sndUna :: as).Nodup) (delackT sndpktT fuel : ℕ) (clock : ℕ → ℕ)
    (hdelack : ∃ q, timerProcDelack delackT p = .ok q) (hfuel : as.length < fuel) :
    doitPass delackT clock sndpktT fuel p ds = .error .emptyTop ↔ p.stb.tc.sndNxt ∈ as := by
  have hp : Waiting p₀.sent.length p₀.stb.tc.sndUna p :=
    ⟨reach_inv (Covered p₀.sent.length p₀.stb.tc.sndUna) (fun _ _ hs hst => hst.covered hs)
      (covered_start hu hlt hh) hrun, hst, hrs, hcb⟩
  obtain ⟨q, hq, hwait, hsame⟩ : ∃ q, (if p.ackdeque.isEmpty then .ok p else timerProcDelack delackT p) =
      Except.ok q ∧ Waiting p₀.sent.length p₀.stb.tc.sndUna q ∧
      q.stb.tc.sndUna = p.stb.tc.sndUna ∧ q.stb.tc.sndNxt = p.stb.tc.sndNxt ∧
      segmentsSince p₀.sent.length q = segmentsSince p₀.sent.length p := by
    by_cases hempty : p.ackdeque.isEmpty = true
    · rw [if_pos hempty]
      exact ⟨p, rfl, hp, rfl, rfl, rfl⟩
    · rw [if_neg hempty]
      obtain ⟨q, hq⟩ := hdelack
      have hsame := (timerProcDelack_effect hq).sendSame
      obtain ⟨acked, inflight, hc⟩ := hp.covered
      obtain ⟨txs, hsent, hacks⟩ := hsame.sent_eq
      exact ⟨q, hq, hp.delack hq, hsame.sndUna_eq, hsame.sndNxt_eq,
        segmentsSince_same hc.sent_le hsent fun tx htx => (hacks tx htx).site_ne⟩
  obtain ⟨huna, hnxt, hsegs⟩ := hsame
  have hdrain := @Waiting.drain _ _ q clock ds as hds hwait (by omega)
    (fun a ha => by unfold KnownAck; rw [huna, hsegs]; exact has a ha) (by rw [huna]; exact hnodup) 0 fuel hfuel
  have hheap : q.timerheap.isEmpty = false := by
    obtain ⟨acked, inflight, hc⟩ := hwait.covered
    cases htop : q.timerheap.top? with
    | none => exact absurd (hc.top_none.mp htop) (by omega)
    | some top =>
      have hmem := MinHeap.mem_of_top? htop
      unfold MinHeap.isEmpty
      cases hl : q.timerheap.elems with
      | nil =>
        rw [hl] at hmem
        cases hmem
      | cons _ _ => rfl
  rw [hnxt] at hdrain
  unfold doitPass
  rw [hq]
  simp only [hheap, Bool.false_eq_true, if_false]
  by_cases hmem : p.stb.tc.sndNxt ∈ as
  · rw [if_pos hmem] at hdrain
    rw [hdrain]
    exact iff_of_true rfl hmem
  · rw [if_neg hmem] at hdrain
    obtain ⟨s, hs⟩ := hdrain
    refine iff_of_false ?_ hmem
    simp only [hs]
    split <;> exact fun h => by cases h

/-- One full segment is in flight, and its ACK arrives before the pass. -/
theorem doit_emptyTop_segment : ∃ p, p.stb.tc.sndUna = 1 ∧ p.stb.tc.sndNxt = 1457 ∧
    doitPass 5 (fun _ => 5) 5 2 p [segmentFrom ⟨0, 0⟩ 1 1457 []] = .error .emptyTop := by
  obtain ⟨a, b, q, payload, hconn, h₀, hlen, _, htou, hq, _⟩ := Host.exists_touSend
  have hfresh := hconn.opened.fresh.1
  have hu : a.stb.tc.sndUna = a.stb.tc.sndNxt := h₀.sender.sndUna_eq.trans h₀.sender.sndNxt_eq.symm
  have hlt : a.stb.tc.sndNxt < 4294967296 := h₀.sender.sndNxt_eq.trans_lt (by decide)
  have hrun := Relation.ReflTransGen.single (@CoverageStep.touSend a.sent.length 5 a payload 1456 _ htou)
  have huna : q.stb.tc.sndUna = 1 := by have := hq.sndUna_eq; omega
  have hnxt : q.stb.tc.sndNxt = 1457 := hq.sndNxt_eq
  have hnumbered : Numbered a a :=
    ⟨Onward.refl _, by simp [hfresh.minhpRecv], hfresh.acksBehind, hfresh.ackReady⟩
  have hsent := hnumbered.step (ProcStepIf.touSend htou)
  obtain ⟨acked, inflight, hc⟩ := reach_inv (Covered a.sent.length a.stb.tc.sndUna)
    (fun _ _ hs hst => hst.covered hs) (covered_start hu hlt hfresh.timerheap) hrun
  have hend := hc.nxt_end (huna.trans_lt (hnxt.symm ▸ by decide))
  refine ⟨q, huna, hnxt, ?_⟩
  refine (doit_emptyTop_iff a q hu hlt hfresh.timerheap hrun hq.established hq.runstate hq.cbSend (by omega)
    [segmentFrom ⟨0, 0⟩ 1 1457 []] [1457] ?_ ?_ ?_ 5 5 2 (fun _ => 5)
    (timerProcDelack_returns 5 hsent.ready hsent.behind) (by decide)).mpr ?_
  · exact List.Forall₂.cons (isPureAck_segmentFrom _ (by decide) (by decide)) List.Forall₂.nil
  · intro a' ha'
    rw [List.mem_singleton.mp ha', ← hnxt]
    exact Or.inr hend
  · rw [huna]
    decide
  · rw [hnxt]
    exact List.mem_singleton_self _

end Process
end TcpOverUdp
