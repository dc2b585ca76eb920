import TcpOverUdp.Proof.Windows

/-! # How much a new ACK adds to the window

In slow start `addwnd` adds a segment. In congestion avoidance it adds `TOU_SMSS*TOU_SMSS/snd_cwnd`, an
integer quotient, and that is zero for every window above `TOU_SMSS*TOU_SMSS`, two thirds of the cap.
-/
namespace TcpOverUdp
open MachineInt
set_option autoImplicit false

namespace TouCb

structure Grows (tc : TouCb) : Prop where
  lt : tc.sndCwnd < tc.addwnd.2.sndCwnd
  le_smss : tc.addwnd.2.sndCwnd ≤ tc.sndCwnd + touSmss
  le_cap : tc.addwnd.2.sndCwnd ≤ touMaxCircularBuf / 2

/-! ## Slow start -/

/-- The threshold is the initial one or half of a window that was lost, and in slow start the window is
less than a segment beyond it. -/
structure SlowStartInv (tc : TouCb) : Prop where
  window : WindowInv tc
  ssthresh : tc.sndSsthresh = touMaxSsthresh ∨ tc.sndSsthresh ≤ touMaxCircularBuf / 4
  near : tc.ccState = .ss → tc.sndCwnd < tc.sndSsthresh + touSmss

namespace SlowStartInv
variable {tc : TouCb}

theorem of_same {a b : TouCb} (hi : SlowStartInv a) (h : SameWindow a b) : SlowStartInv b where
  window := hi.window.of_same h
  ssthresh := by rw [h.sndSsthresh]; exact hi.ssthresh
  near := by rw [h.ccState, h.sndCwnd, h.sndSsthresh]; exact hi.near

theorem half (hi : SlowStartInv tc) :
    max (tc.sndCwnd / 2) (2 * touSmss) ≤ touMaxCircularBuf / 4 := by
  have hle := hi.window.cwnd_le
  unfold touMaxCircularBuf at hle ⊢
  unfold touSmss
  omega

theorem addwnd (hi : SlowStartInv tc) : SlowStartInv tc.addwnd.2 := by
  refine ⟨hi.window.addwnd.2, ?_, ?_⟩
  · have hth := hi.ssthresh
    unfold TouCb.addwnd
    cases tc.ccState with
    | ss => simp only; split <;> exact hth
    | err | ca | fr => exact hth
  · have hgrow := hi.window.grow
    unfold TouCb.addwnd
    cases hst : tc.ccState with
    | err => exact absurd hst hi.window.not_err
    | ss =>
      simp only
      split
      · intro _
        simp only [hgrow]
        unfold touSmss
        omega
      · intro hca
        cases hca
    | ca | fr =>
      intro hca
      cases hca

theorem settwnd (hi : SlowStartInv tc) : SlowStartInv tc.settwnd.2 := by
  have hhalf := hi.half
  refine ⟨hi.window.settwnd.2, ?_, ?_⟩ <;> unfold TouCb.settwnd <;> cases hst : tc.ccState
  · exact absurd hst hi.window.not_err
  · exact Or.inr hhalf
  · exact Or.inr hhalf
  · exact Or.inr hhalf
  · exact absurd hst hi.window.not_err
  all_goals
    intro _
    simp only [touSmss]
    omega

theorem setdwnd (hi : SlowStartInv tc) (a : ℕ) : SlowStartInv (tc.setdwnd a).2 := by
  have hhalf := hi.half
  refine ⟨(hi.window.setdwnd a).2, ?_, ?_⟩ <;> unfold TouCb.setdwnd <;> cases hst : tc.ccState
  · exact absurd hst hi.window.not_err
  · simp only
    split
    · exact Or.inr hhalf
    · exact hi.ssthresh
  · simp only
    split
    · exact Or.inr hhalf
    · exact hi.ssthresh
  · exact hi.ssthresh
  · exact absurd hst hi.window.not_err
  · simp only
    split
    · intro h
      cases h
    · exact fun _ => hi.near hst
  · simp only
    split
    · intro h
      cases h
    · intro h
      cases h
  · intro h
    cases h

theorem step {a b : TouCb} (hi : SlowStartInv a) (h : WindowStep a b) : SlowStartInv b := by
  cases h with
  | addwnd => exact hi.addwnd
  | settwnd => exact hi.settwnd
  | setdwnd ackSeq => exact hi.setdwnd ackSeq
  | getwnd => exact hi
  | other h => exact hi.of_same h

end SlowStartInv

theorem slowStartInv_afterHandshake (tc : TouCb) : SlowStartInv tc.afterHandshake where
  window := windowInv_afterHandshake tc
  ssthresh := Or.inl rfl
  near _ := by simp [afterHandshake, ssca, touMss, touSmss, touMaxSsthresh]

/-! ## Which windows grow -/

theorem grows_of_step {tc : TouCb} {d : ℕ} (hval : tc.addwnd.2.sndCwnd = min (tc.sndCwnd + d) 3145728)
    (h0 : 0 < d) (hd : d ≤ 1456) (hlt : tc.sndCwnd < 3145728) : Grows tc where
  lt := by omega
  le_smss := by
    unfold touSmss
    omega
  le_cap := by
    unfold touMaxCircularBuf
    omega

theorem grows_slowStart {tc : TouCb} (hi : SlowStartInv tc) (hst : tc.ccState = .ss)
    (hlt : tc.sndCwnd < touMaxCircularBuf / 2) : Grows tc := by
  have hgrow := hi.window.grow
  have hca := hi.window.growCa_eq
  have hge := hi.window.cwnd_ge
  have hth := hi.window.ssthresh_ge
  have hnear := hi.near hst
  have hssthresh := hi.ssthresh
  have hcap : touMaxCircularBuf / 2 = 3145728 := rfl
  have hmax : touMaxCircularBuf / 4 = 1572864 := rfl
  unfold touSmss at hge hth hnear
  unfold touMaxSsthresh at hssthresh
  rw [hcap] at hlt
  rw [hmax] at hssthresh
  by_cases hbelow : tc.sndCwnd < tc.sndSsthresh
  · have hval : tc.addwnd.2.sndCwnd = min (tc.sndCwnd + 1456) 3145728 := by
      unfold addwnd
      rw [hst]
      simp only [if_pos hbelow, hgrow]
    exact grows_of_step hval (by decide) (le_refl _) hlt
  · -- the first ACK in congestion avoidance, just beyond a threshold of at most a quarter of the buffer
    have hval : tc.addwnd.2.sndCwnd = min (tc.sndCwnd + 2119936 / tc.sndCwnd) 3145728 := by
      unfold addwnd
      rw [hst]
      simp only [if_neg hbelow, hca]
    have hpos : 0 < 2119936 / tc.sndCwnd := Nat.div_pos (by omega) (by omega)
    have hle : 2119936 / tc.sndCwnd ≤ 1456 := Nat.div_le_of_le_mul (by omega)
    exact grows_of_step hval hpos hle hlt

theorem grows_congestionAvoidance {tc : TouCb} (hi : WindowInv tc) (hst : tc.ccState = .ca)
    (hlt : tc.sndCwnd < touMaxCircularBuf / 2) : Grows tc ↔ tc.sndCwnd ≤ touSmss * touSmss := by
  have hca := hi.growCa_eq
  have hge := hi.cwnd_ge
  have hval : tc.addwnd.2.sndCwnd = min (tc.sndCwnd + 2119936 / tc.sndCwnd) 3145728 := by
    unfold addwnd
    rw [hst]
    exact hca
  have hcap : touMaxCircularBuf / 2 = 3145728 := rfl
  have hsq : touSmss * touSmss = 2119936 := rfl
  unfold touSmss at hge
  rw [hcap] at hlt
  rw [hsq]
  constructor
  · intro h
    have hmore := h.lt
    rw [hval] at hmore
    by_contra hbig
    have hzero : 2119936 / tc.sndCwnd = 0 := Nat.div_eq_of_lt (not_le.mp hbig)
    omega
  · intro hsmall
    have hpos : 0 < 2119936 / tc.sndCwnd := Nat.div_pos hsmall (by omega)
    have hle : 2119936 / tc.sndCwnd ≤ 1456 := Nat.div_le_of_le_mul (by omega)
    exact grows_of_step hval hpos hle hlt

/-- In every state of every sequence of calls, in slow start or in congestion avoidance below the cap:
`addwnd` grows the window unless it is in congestion avoidance and larger than `TOU_SMSS*TOU_SMSS`. -/
theorem window_grows_iff (tc₀ tc : TouCb) (hrun : Relation.ReflTransGen WindowStep tc₀.afterHandshake tc)
    (hst : tc.ccState = .ss ∨ tc.ccState = .ca) (hlt : tc.sndCwnd < touMaxCircularBuf / 2) :
    Grows tc ↔ (tc.ccState = .ca → tc.sndCwnd ≤ touSmss * touSmss) := by
  have hi := reach_inv SlowStartInv (fun _ _ hs hst => hs.step hst) (slowStartInv_afterHandshake tc₀) hrun
  rcases hst with hst | hst
  · refine iff_of_true (grows_slowStart hi hst hlt) ?_
    rw [hst]
    intro h
    cases h
  · rw [grows_congestionAvoidance hi.window hst hlt]
    exact ⟨fun h _ => h, fun h => h hst⟩

/-- The block before the constructor of `ssca` wrote to it. -/
def unset : TouCb :=
  { ccState := .err, tDelackState := .err, tRto := 0, tRtoBeta := 0, tRtt := 0, sndUna := 0, sndNxt := 0
    rcvNxt := 0, dupackcount := 0, sndCwnd := 0, sndAwnd := 0, sndSsthresh := 0 }

theorem window_grows_iff_first : Grows unset.afterHandshake :=
  (window_grows_iff unset unset.afterHandshake Relation.ReflTransGen.refl (Or.inl rfl) (by decide)).2
    (fun h => by cases h)

/-! ## A window that stops growing -/

/-- New ACKs alone, in slow start below the initial threshold. -/
theorem slowStart_reaches (k : ℕ) : ∃ tc, Relation.ReflTransGen WindowStep unset.afterHandshake tc ∧
    tc.ccState = .ss ∧ tc.dupackcount = 0 ∧ tc.sndSsthresh = touMaxSsthresh ∧
    tc.sndCwnd = min (2912 + 1456 * k) 3145728 := by
  induction k with
  | zero => exact ⟨_, Relation.ReflTransGen.refl, rfl, rfl, rfl, rfl⟩
  | succ k ih =>
    obtain ⟨tc, hrun, hst, _, hth, hcwnd⟩ := ih
    have hi := reach_inv WindowInv (fun _ _ hs hst => hs.step hst) (windowInv_afterHandshake unset) hrun
    have hbelow : tc.sndCwnd < tc.sndSsthresh := by
      rw [hth]
      unfold touMaxSsthresh
      omega
    have hval : tc.addwnd.2 = { tc with
        sndCwnd := ckSize (u32 ((tc.sndCwnd : ℤ) + touSmss)), dupackcount := 0 } := by
      unfold addwnd
      rw [hst]
      simp only [if_pos hbelow]
    refine ⟨_, hrun.tail (WindowStep.addwnd tc), ?_⟩
    rw [hval, hi.grow, hcwnd]
    refine ⟨hst, rfl, hth, ?_⟩
    simp only
    omega

/-- What the third duplicate leaves, and the new ACK after it. -/
theorem third_then_new {tc : TouCb} (hi : WindowInv tc) (hst : tc.ccState = .ss)
    (hdup : tc.dupackcount = 2) :
    (tc.setdwnd tc.sndUna).2.addwnd.2.ccState = .ca ∧
      (tc.setdwnd tc.sndUna).2.addwnd.2.sndCwnd = ckSize (max (tc.sndCwnd / 2) (2 * touSmss)) := by
  have hthree : tc.nextDup tc.sndUna = 3 := by
    rw [nextDup_una hi (Or.inl hst), hdup]
    rfl
  unfold setdwnd
  rw [hst]
  simp only [hthree, if_pos (le_refl (3 : ℤ))]
  exact ⟨rfl, rfl⟩

/-- Three duplicates at the cap, and the ACK that ends fast retransmit. -/
theorem recovered_reaches : ∃ tc, Relation.ReflTransGen WindowStep unset.afterHandshake tc ∧
    tc.ccState = .ca ∧ tc.sndCwnd = 1572864 := by
  obtain ⟨tc, hrun, hst, hdup, _, hcwnd⟩ := slowStart_reaches 2159
  have hi := reach_inv WindowInv (fun _ _ hs hst => hs.step hst) (windowInv_afterHandshake unset) hrun
  have hone := setdwnd_counts hi (Or.inl hst) (by rw [hdup]; decide)
  have hrun1 := hrun.tail (WindowStep.setdwnd tc tc.sndUna)
  rw [hone] at hrun1
  have hi1 := hi.step (WindowStep.setdwnd tc tc.sndUna)
  rw [hone] at hi1
  have htwo := setdwnd_counts hi1 (Or.inl hst) (by simp only [hdup]; decide)
  have hrun2 := hrun1.tail (WindowStep.setdwnd _ tc.sndUna)
  rw [htwo] at hrun2
  have hi2 := hi1.step (WindowStep.setdwnd _ tc.sndUna)
  rw [htwo] at hi2
  obtain ⟨hca, hval⟩ := third_then_new hi2 hst (by simp only [hdup]; rfl)
  refine ⟨_, (hrun2.tail (WindowStep.setdwnd _ tc.sndUna)).tail (WindowStep.addwnd _), hca, ?_⟩
  refine hval.trans ?_
  simp only [hcwnd]
  rfl

/-- From there each new ACK adds one byte, until the quotient is zero. -/
theorem congestionAvoidance_reaches (k : ℕ) (hk : k ≤ 547073) :
    ∃ tc, Relation.ReflTransGen WindowStep unset.afterHandshake tc ∧ tc.ccState = .ca ∧
      tc.sndCwnd = 1572864 + k := by
  induction k with
  | zero => exact recovered_reaches
  | succ k ih =>
    obtain ⟨tc, hrun, hst, hcwnd⟩ := ih (by omega)
    have hi := reach_inv WindowInv (fun _ _ hs hst => hs.step hst) (windowInv_afterHandshake unset) hrun
    have hval : tc.addwnd.2 = { tc with sndCwnd := tc.growCa, dupackcount := 0 } := by
      unfold addwnd
      rw [hst]
    have hone : 2119936 / tc.sndCwnd = 1 := by
      rw [hcwnd]
      exact Nat.div_eq_of_lt_le (by omega) (by omega)
    refine ⟨_, hrun.tail (WindowStep.addwnd tc), ?_⟩
    rw [hval]
    refine ⟨hst, ?_⟩
    show tc.growCa = _
    rw [hi.growCa_eq, hone]
    omega

/-- A window of 2119937 bytes, a million short of the cap, is grown by no new ACK. -/
theorem window_stops_growing : ∃ tc, Relation.ReflTransGen WindowStep unset.afterHandshake tc ∧
    tc.ccState = .ca ∧ tc.sndCwnd = 2119937 ∧ tc.sndCwnd < touMaxCircularBuf / 2 ∧ ¬ Grows tc ∧
    tc.addwnd.2.sndCwnd = tc.sndCwnd := by
  obtain ⟨tc, hrun, hst, hcwnd⟩ := congestionAvoidance_reaches 547073 (le_refl _)
  have hi := reach_inv WindowInv (fun _ _ hs hst => hs.step hst) (windowInv_afterHandshake unset) hrun
  have hsame : tc.addwnd.2.sndCwnd = tc.sndCwnd := by
    unfold addwnd
    rw [hst]
    refine hi.growCa_eq.trans ?_
    rw [hcwnd]
    rfl
  have hlt : tc.sndCwnd < touMaxCircularBuf / 2 := by
    rw [hcwnd]
    decide
  exact ⟨tc, hrun, hst, hcwnd, hlt, fun hg => hg.lt.ne hsame.symm, hsame⟩

end TouCb
end TcpOverUdp
