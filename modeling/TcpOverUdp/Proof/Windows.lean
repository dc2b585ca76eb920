import TcpOverUdp.Model.Congestion
import TcpOverUdp.Foundations.FuelLoop

/-! # The congestion variables

`WindowInv` holds of the congestion variables after the handshake, and every operation of `ssca` keeps
it, in whatever order the operations come and whatever the rest of the control block is between them.
-/
namespace TcpOverUdp
open MachineInt
set_option autoImplicit false

namespace TouCb

theorem ckSize_eq (wnd : ℕ) : ckSize wnd = min wnd 3145728 := by
  unfold ckSize touMaxCircularBuf
  split <;> omega

theorem getwnd_eq (tc : TouCb) : tc.getwnd = min (min tc.sndCwnd tc.sndAwnd) 3145728 := ckSize_eq _

/-- `b` has the congestion variables of `a`. -/
structure SameWindow (a b : TouCb) : Prop where
  ccState : b.ccState = a.ccState
  dupackcount : b.dupackcount = a.dupackcount
  sndCwnd : b.sndCwnd = a.sndCwnd
  sndSsthresh : b.sndSsthresh = a.sndSsthresh

theorem SameWindow.refl (a : TouCb) : SameWindow a a := ⟨rfl, rfl, rfl, rfl⟩

theorem SameWindow.trans {a b c : TouCb} (h : SameWindow a b) (h' : SameWindow b c) : SameWindow a c :=
  ⟨h'.ccState.trans h.ccState, h'.dupackcount.trans h.dupackcount, h'.sndCwnd.trans h.sndCwnd,
    h'.sndSsthresh.trans h.sndSsthresh⟩

/-- One call of an operation of `ssca`, or a change of the other fields. `getwnd` writes `snd_wnd` only,
which is not a field here. -/
inductive WindowStep : TouCb → TouCb → Prop
  | addwnd (tc : TouCb) : WindowStep tc tc.addwnd.2
  | settwnd (tc : TouCb) : WindowStep tc tc.settwnd.2
  | setdwnd (tc : TouCb) (ackSeq : ℕ) : WindowStep tc (tc.setdwnd ackSeq).2
  | getwnd (tc : TouCb) : WindowStep tc tc
  | other {a b : TouCb} (h : SameWindow a b) : WindowStep a b

structure WindowInv (tc : TouCb) : Prop where
  not_err : tc.ccState ≠ .err
  cwnd_ge : touSmss ≤ tc.sndCwnd
  cwnd_le : tc.sndCwnd ≤ touMaxCircularBuf / 2
  ssthresh_ge : 2 * touSmss ≤ tc.sndSsthresh
  cwnd_ge_two : tc.ccState = .ca ∨ tc.ccState = .fr → 2 * touSmss ≤ tc.sndCwnd
  dup_lt : tc.ccState = .ss ∨ tc.ccState = .ca → 0 ≤ tc.dupackcount ∧ tc.dupackcount < tcpRexmtThresh

namespace WindowInv
variable {tc : TouCb}

theorem of_same {a b : TouCb} (hi : WindowInv a) (h : SameWindow a b) : WindowInv b where
  not_err := by rw [h.ccState]; exact hi.not_err
  cwnd_ge := by rw [h.sndCwnd]; exact hi.cwnd_ge
  cwnd_le := by rw [h.sndCwnd]; exact hi.cwnd_le
  ssthresh_ge := by rw [h.sndSsthresh]; exact hi.ssthresh_ge
  cwnd_ge_two := by rw [h.ccState, h.sndCwnd]; exact hi.cwnd_ge_two
  dup_lt := by rw [h.ccState, h.dupackcount]; exact hi.dup_lt

/-- A window of two segments or more is allowed in every state. -/
theorem of_two_segments (hne : tc.ccState ≠ .err) (hge : 2912 ≤ tc.sndCwnd) (hle : tc.sndCwnd ≤ 3145728)
    (hth : 2912 ≤ tc.sndSsthresh) (hdup : tc.ccState = .fr ∨ tc.dupackcount = 0) : WindowInv tc where
  not_err := hne
  cwnd_ge := le_trans (by decide) hge
  cwnd_le := hle
  ssthresh_ge := hth
  cwnd_ge_two _ := hge
  dup_lt hst := by
    rcases hdup with hfr | hzero
    · rw [hfr] at hst
      rcases hst with hst | hst <;> cases hst
    · rw [hzero]
      decide

/-- In slow start and in fast retransmit the window grows by one segment. -/
theorem grow (hi : WindowInv tc) :
    ckSize (u32 ((tc.sndCwnd : ℤ) + touSmss)) = min (tc.sndCwnd + 1456) 3145728 := by
  have hle := hi.cwnd_le
  unfold touMaxCircularBuf at hle
  rw [u32_add _ _ (by unfold touSmss; omega), ckSize_eq]

/-- In congestion avoidance it grows by less. -/
theorem growCa_eq (hi : WindowInv tc) :
    tc.growCa = min (tc.sndCwnd + 2119936 / tc.sndCwnd) 3145728 := by
  have hle := hi.cwnd_le
  have hdiv : 2119936 / tc.sndCwnd ≤ 2119936 := Nat.div_le_self _ _
  unfold touMaxCircularBuf at hle
  have hadd : u32 ((tc.sndCwnd : ℤ) + (2119936 / tc.sndCwnd : ℕ)) = tc.sndCwnd + 2119936 / tc.sndCwnd :=
    u32_add _ _ (by omega)
  unfold growCa
  rw [ckSize_eq]
  exact congrArg (min · 3145728) hadd

/-- Half a window and three segments stay below the cap. -/
theorem entry (hi : WindowInv tc) :
    u32 (((max (tc.sndCwnd / 2) (2 * touSmss) : ℕ) : ℤ) + 3 * touSmss) =
      max (tc.sndCwnd / 2) 2912 + 4368 := by
  have hle := hi.cwnd_le
  unfold touMaxCircularBuf at hle
  exact u32_add _ (3 * touSmss) (by unfold touSmss; omega)

theorem nextDup_range (hi : WindowInv tc) (hst : tc.ccState = .ss ∨ tc.ccState = .ca) (a : ℕ) :
    0 ≤ tc.nextDup a ∧ tc.nextDup a ≤ 3 := by
  obtain ⟨h0, h3⟩ := hi.dup_lt hst
  unfold tcpRexmtThresh at h3
  unfold nextDup
  split
  · rw [s16_of_range (by omega) (by omega)]
    exact ⟨by omega, by omega⟩
  · decide

theorem addwnd (hi : WindowInv tc) : tc.addwnd.1 = 0 ∧ WindowInv tc.addwnd.2 := by
  have hge := hi.cwnd_ge
  have hle := hi.cwnd_le
  have hth := hi.ssthresh_ge
  have hgrow := hi.grow
  have hca := hi.growCa_eq
  generalize 2119936 / tc.sndCwnd = step at hca
  unfold touMaxCircularBuf at hle
  unfold touSmss at hge hth
  unfold TouCb.addwnd
  cases hst : tc.ccState with
  | err => exact absurd hst hi.not_err
  | ss =>
    simp only
    split
    · refine ⟨rfl, of_two_segments (fun h => by cases h) ?_ ?_ hth (Or.inr rfl)⟩ <;> simp only [hgrow] <;>
        omega
    · refine ⟨rfl, of_two_segments (fun h => by cases h) ?_ ?_ hth (Or.inr rfl)⟩ <;> simp only [hca] <;>
        omega
  | ca =>
    have htwo := hi.cwnd_ge_two (Or.inl hst)
    unfold touSmss at htwo
    refine ⟨rfl, of_two_segments (fun h => by cases h) ?_ ?_ hth (Or.inr rfl)⟩ <;> simp only [hca] <;> omega
  | fr =>
    refine ⟨rfl, of_two_segments (fun h => by cases h) ?_ ?_ hth (Or.inr rfl)⟩ <;>
      simp only [ckSize_eq] <;> omega

theorem settwnd (hi : WindowInv tc) : tc.settwnd.1 = 0 ∧ WindowInv tc.settwnd.2 := by
  unfold TouCb.settwnd
  cases hst : tc.ccState with
  | err => exact absurd hst hi.not_err
  | ss =>
    refine ⟨rfl, ?_⟩
    constructor <;> simp [touSmss, touMaxCircularBuf, tcpRexmtThresh]
  | ca | fr =>
    refine ⟨rfl, ?_⟩
    constructor <;> simp [touSmss, touMaxCircularBuf, tcpRexmtThresh]

/-- The third duplicate starts fast retransmit. -/
theorem enterFr (hi : WindowInv tc) (dup : ℤ) :
    WindowInv { tc with
      dupackcount := dup
      ccState := .fr
      sndSsthresh := max (tc.sndCwnd / 2) (2 * touSmss)
      sndCwnd := u32 (((max (tc.sndCwnd / 2) (2 * touSmss) : ℕ) : ℤ) + 3 * touSmss) } := by
  have hle := hi.cwnd_le
  have hentry := hi.entry
  unfold touMaxCircularBuf at hle
  refine of_two_segments (fun h => by cases h) ?_ ?_ (le_max_right _ _) (Or.inl rfl) <;>
    simp only [hentry] <;> omega

theorem setdwnd (hi : WindowInv tc) (a : ℕ) : (tc.setdwnd a).1 = 0 ∧ WindowInv (tc.setdwnd a).2 := by
  have hclosed : ∀ st, tc.ccState = st → st = .ss ∨ st = .ca → ¬ tc.nextDup a ≥ tcpRexmtThresh →
      WindowInv { tc with dupackcount := tc.nextDup a } := by
    intro st hst hor hlt
    have hrange := hi.nextDup_range (hst ▸ hor) a
    exact ⟨hi.not_err, hi.cwnd_ge, hi.cwnd_le, hi.ssthresh_ge, hi.cwnd_ge_two,
      fun _ => ⟨hrange.1, not_le.mp hlt⟩⟩
  unfold TouCb.setdwnd
  cases hst : tc.ccState with
  | err => exact absurd hst hi.not_err
  | ss | ca =>
    simp only
    split
    · exact ⟨rfl, hi.enterFr _⟩
    · rename_i hlt
      have h := hclosed _ hst (by simp) hlt
      rw [hst] at h
      exact ⟨rfl, h⟩
  | fr =>
    have hge := hi.cwnd_ge_two (Or.inr hst)
    have hle := hi.cwnd_le
    have hth := hi.ssthresh_ge
    have hgrow := hi.grow
    unfold touSmss at hge hth
    unfold touMaxCircularBuf at hle
    refine ⟨rfl, of_two_segments (fun h => by cases h) ?_ ?_ hth (Or.inl rfl)⟩ <;> simp only [hgrow] <;>
      omega

theorem step {a b : TouCb} (hi : WindowInv a) (h : WindowStep a b) : WindowInv b := by
  cases h with
  | addwnd => exact hi.addwnd.2
  | settwnd => exact hi.settwnd.2
  | setdwnd ackSeq => exact (hi.setdwnd ackSeq).2
  | getwnd => exact hi
  | other h => exact hi.of_same h

theorem getwnd_le_min (tc : TouCb) : tc.getwnd ≤ min tc.sndCwnd tc.sndAwnd := by
  rw [getwnd_eq]
  exact min_le_left _ _

end WindowInv

/-! ## Where `addwnd` and `setdwnd` change nothing -/

/-- The window has reached its cap below the threshold, or it is so large that congestion avoidance
adds nothing to it. -/
def AddwndInert (tc : TouCb) : Prop :=
  tc.dupackcount = 0 ∧ (tc.ccState = .ss ∧ tc.sndCwnd < tc.sndSsthresh ∧
    tc.sndCwnd = touMaxCircularBuf / 2 ∨ tc.ccState = .ca ∧ touSmss * touSmss < tc.sndCwnd)

theorem AddwndInert.of_same {a b : TouCb} (hi : AddwndInert a) (h : SameWindow a b) : AddwndInert b := by
  unfold AddwndInert
  rw [h.ccState, h.dupackcount, h.sndCwnd, h.sndSsthresh]
  exact hi

theorem addwnd_same_iff {tc : TouCb} (hi : WindowInv tc) :
    SameWindow tc tc.addwnd.2 ↔ AddwndInert tc := by
  have hge := hi.cwnd_ge
  have hle := hi.cwnd_le
  have hgrow := hi.grow
  have hca := hi.growCa_eq
  have hmax : touMaxCircularBuf / 2 = 3145728 := by norm_num [touMaxCircularBuf]
  rw [hmax] at hle
  unfold touSmss at hge
  unfold AddwndInert TouCb.addwnd
  rw [hmax]
  cases hst : tc.ccState with
  | err => exact absurd hst hi.not_err
  | ss =>
    simp only
    by_cases hth : tc.sndCwnd < tc.sndSsthresh
    · rw [if_pos hth]
      constructor
      · intro h
        have hcwnd := h.sndCwnd
        simp only [hgrow] at hcwnd
        have hcap : tc.sndCwnd = 3145728 := by omega
        exact ⟨h.dupackcount.symm, Or.inl ⟨trivial, hth, hcap⟩⟩
      · rintro ⟨hdup, ⟨_, _, hcap⟩ | ⟨hne, _⟩⟩
        · refine ⟨hst.symm, hdup.symm, ?_, rfl⟩
          simp only [hgrow]
          omega
        · cases hne
    · rw [if_neg hth]
      constructor
      · intro h
        have hcc : CcState.ca = tc.ccState := h.ccState
        rw [hst] at hcc
        cases hcc
      · rintro ⟨_, ⟨_, hlt, _⟩ | ⟨hne, _⟩⟩
        · exact absurd hlt hth
        · cases hne
  | ca =>
    simp only
    constructor
    · intro h
      have hcwnd : tc.growCa = tc.sndCwnd := h.sndCwnd
      rw [hca] at hcwnd
      refine ⟨h.dupackcount.symm, Or.inr ⟨trivial, ?_⟩⟩
      by_contra hsmall
      have hpos : 0 < 2119936 / tc.sndCwnd := Nat.div_pos (not_lt.mp hsmall) (by omega)
      unfold touSmss at hsmall
      omega
    · rintro ⟨hdup, ⟨hne, _⟩ | ⟨_, hbig⟩⟩
      · cases hne
      · have hzero : 2119936 / tc.sndCwnd = 0 := Nat.div_eq_of_lt hbig
        exact ⟨hst.symm, hdup.symm, hca.trans (by omega), rfl⟩
  | fr =>
    constructor
    · intro h
      have hcc : CcState.ca = tc.ccState := h.ccState
      rw [hst] at hcc
      cases hcc
    · rintro ⟨_, ⟨hne, _⟩ | ⟨hne, _⟩⟩ <;> cases hne

theorem nextDup_una {tc : TouCb} (hi : WindowInv tc) (hst : tc.ccState = .ss ∨ tc.ccState = .ca) :
    tc.nextDup tc.sndUna = tc.dupackcount + 1 := by
  obtain ⟨h0, h3⟩ := hi.dup_lt hst
  unfold tcpRexmtThresh at h3
  unfold nextDup
  rw [if_pos rfl, s16_of_range (by omega) (by omega)]

/-- Below the threshold a duplicate is counted, and nothing else. -/
theorem setdwnd_counts {tc : TouCb} (hi : WindowInv tc) (hst : tc.ccState = .ss ∨ tc.ccState = .ca)
    (h : tc.dupackcount + 1 < tcpRexmtThresh) :
    (tc.setdwnd tc.sndUna).2 = { tc with dupackcount := tc.dupackcount + 1 } := by
  have hdup := nextDup_una hi hst
  unfold TouCb.setdwnd
  rcases hst with hst | hst <;>
    · rw [hst]
      simp only [hdup]
      rw [if_neg (not_le.mpr h)]

theorem setdwnd_third {tc : TouCb} (hi : WindowInv tc) (hst : tc.ccState = .ss ∨ tc.ccState = .ca)
    (h : tcpRexmtThresh ≤ tc.dupackcount + 1) : (tc.setdwnd tc.sndUna).2.ccState = .fr := by
  have hdup := nextDup_una hi hst
  unfold TouCb.setdwnd
  rcases hst with hst | hst <;>
    · rw [hst]
      simp only [hdup]
      rw [if_pos h]

/-- In fast retransmit every duplicate adds a segment to the window. -/
theorem setdwnd_fr {tc : TouCb} (hi : WindowInv tc) (hst : tc.ccState = .fr) (a : ℕ) :
    (tc.setdwnd a).2.ccState = .fr ∧ (tc.setdwnd a).2.sndSsthresh = tc.sndSsthresh ∧
      (tc.setdwnd a).2.sndCwnd = min (tc.sndCwnd + 1456) 3145728 := by
  have hgrow := hi.grow
  unfold TouCb.setdwnd
  rw [hst]
  refine ⟨rfl, rfl, ?_⟩
  simp only [hgrow]

/-! ## Every sequence of calls -/

/-- What the constructor and the two settings of the handshake leave. -/
def afterHandshake (tc : TouCb) : TouCb := { tc.ssca with ccState := .ss, sndCwnd := 2 * touMss }

theorem windowInv_afterHandshake (tc : TouCb) : WindowInv tc.afterHandshake := by
  unfold afterHandshake ssca
  constructor <;> simp [touMss, touSmss, touMaxCircularBuf, touMaxSsthresh, tcpRexmtThresh]

/-- In every state of every sequence of calls: the state is one of the three, no call answers an error,
the window and the threshold stay within their bounds, and `getwnd` answers no more than either window. -/
theorem congestion_invariant (tc₀ tc : TouCb)
    (hrun : Relation.ReflTransGen WindowStep tc₀.afterHandshake tc) :
    (tc.ccState = .ss ∨ tc.ccState = .ca ∨ tc.ccState = .fr) ∧
      (tc.addwnd.1 = 0 ∧ tc.settwnd.1 = 0 ∧ ∀ a, (tc.setdwnd a).1 = 0) ∧
      (touSmss ≤ tc.sndCwnd ∧ tc.sndCwnd ≤ touMaxCircularBuf / 2) ∧
      2 * touSmss ≤ tc.sndSsthresh ∧
      (tc.ccState = .ca ∨ tc.ccState = .fr → 2 * touSmss ≤ tc.sndCwnd) ∧
      tc.getwnd ≤ min tc.sndCwnd tc.sndAwnd := by
  have hi := reach_inv WindowInv (fun _ _ hs hst => hs.step hst) (windowInv_afterHandshake tc₀) hrun
  have hst : tc.ccState = .ss ∨ tc.ccState = .ca ∨ tc.ccState = .fr := by
    have hne := hi.not_err
    cases h : tc.ccState with
    | err => exact absurd h hne
    | ss => exact Or.inl rfl
    | ca => exact Or.inr (Or.inl rfl)
    | fr => exact Or.inr (Or.inr rfl)
  exact ⟨hst, ⟨hi.addwnd.1, hi.settwnd.1, fun a => (hi.setdwnd a).1⟩, ⟨hi.cwnd_ge, hi.cwnd_le⟩,
    hi.ssthresh_ge, hi.cwnd_ge_two, WindowInv.getwnd_le_min tc⟩

/-- Two duplicates and a new ACK in slow start. -/
theorem congestion_invariant_duplicates : ∃ tc : TouCb, tc.ccState = .err ∧ tc.sndCwnd = 0 ∧
    touSmss ≤ ((tc.afterHandshake.setdwnd 0).2.setdwnd 0).2.addwnd.2.sndCwnd :=
  ⟨⟨.err, .err, 0, 0, 0, 0, 0, 0, 0, 0, 0, 0⟩, rfl, rfl,
    (congestion_invariant _ _ (((Relation.ReflTransGen.single (WindowStep.setdwnd _ 0)).tail
      (WindowStep.setdwnd _ 0)).tail (WindowStep.addwnd _))).2.2.1.1⟩

end TouCb
end TcpOverUdp
