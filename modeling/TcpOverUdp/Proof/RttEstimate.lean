import TcpOverUdp.Foundations.Smoothing
import TcpOverUdp.Model.Timer

/-! # The estimates `t_rtt` and `t_rto`

`cal_rto` takes the round trip of an acknowledged segment, at least 10 ms, as a sample of the average
`t_rtt`, and sets `t_rto` to twice the average. A retransmitted segment gives no sample.
-/
namespace TcpOverUdp
open MachineInt
set_option autoImplicit false

namespace Timer

/-- `cur_rtt` of `cal_rto`, after its lower limit was applied. -/
def curRtt (nt : Node) (recvT : ℕ) : ℤ := max 10 (s32 (u32 ((recvT : ℤ) - nt.xmitms)))

/-- The samples that a sequence of acknowledged nodes gives. -/
def samples (acked : List (Node × ℕ)) : List ℤ :=
  (acked.filter fun x => 0 ≤ x.1.xmitms).map fun x => curRtt x.1 x.2

def calRtoAll (stb : SockTb) (acked : List (Node × ℕ)) : SockTb :=
  acked.foldl (fun stb x => calRto stb x.1 x.2) stb

theorem calRtoAll_cons (stb : SockTb) (x : Node × ℕ) (rest : List (Node × ℕ)) :
    calRtoAll stb (x :: rest) = calRtoAll (calRto stb x.1 x.2) rest := rfl

theorem curRtt_range (nt : Node) (recvT : ℕ) : 10 ≤ curRtt nt recvT ∧ curRtt nt recvT < 2147483648 := by
  have h := s32_range (u32 ((recvT : ℤ) - nt.xmitms))
  unfold curRtt
  omega

theorem calRto_retransmitted (stb : SockTb) {nt : Node} (h : nt.xmitms < 0) (recvT : ℕ) :
    calRto stb nt recvT = stb := by
  unfold calRto
  rw [if_pos h]

/-- What holds of the two estimates: the average is in range, and `t_rto` is the initial timeout or twice
the average. -/
structure Estimates (tc : TouCb) : Prop where
  rtt_ge : 8 ≤ tc.tRtt
  rtt_lt : tc.tRtt < 2147483648
  beta : tc.tRtoBeta = touInitRtoBeta
  rto : tc.tRto = touInitTimeo ∨ tc.tRto = 2 * tc.tRtt

/-- The new average, as a word. -/
theorem rtt_word {r : ℕ} {s : ℤ} (hr : 8 ≤ r) (hr31 : r < 2147483648) (h10 : 10 ≤ s) (h31 : s < 2147483648) :
    (u32 ((r / 8 : ℕ) + s * 7 / 8) : ℤ) = smooth 8 r s ∧ 8 ≤ u32 ((r / 8 : ℕ) + s * 7 / 8) ∧
      u32 ((r / 8 : ℕ) + s * 7 / 8) < 2147483648 := by
  have hval : (u32 ((r / 8 : ℕ) + s * 7 / 8) : ℤ) = (r / 8 : ℕ) + s * 7 / 8 := by
    rw [u32_of_lt (by omega) (by omega)]
    omega
  refine ⟨?_, by omega, by omega⟩
  rw [hval]
  unfold smooth
  omega

/-- A sample moves the average as `smooth` does, and nothing overflows. -/
theorem calRto_sample {stb : SockTb} (he : Estimates stb.tc) {nt : Node} (h : 0 ≤ nt.xmitms) (recvT : ℕ) :
    ((calRto stb nt recvT).tc.tRtt : ℤ) = smooth 8 stb.tc.tRtt (curRtt nt recvT) ∧
      Estimates (calRto stb nt recvT).tc := by
  obtain ⟨h10, h31⟩ := curRtt_range nt recvT
  have hclamp : (if s32 (u32 ((recvT : ℤ) - nt.xmitms)) < 10 then 10
      else s32 (u32 ((recvT : ℤ) - nt.xmitms))) = curRtt nt recvT := by
    unfold curRtt
    split <;> omega
  obtain ⟨hsmooth, hge, hlt⟩ := rtt_word he.rtt_ge he.rtt_lt h10 h31
  unfold calRto
  rw [if_neg (not_lt.2 h)]
  simp only [hclamp]
  generalize u32 ((stb.tc.tRtt / 8 : ℕ) + curRtt nt recvT * 7 / 8) = rtt at hsmooth hge hlt ⊢
  have hrto : u32 ((stb.tc.tRtoBeta : ℤ) * rtt) = 2 * rtt := by
    rw [he.beta]
    unfold touInitRtoBeta
    rw [u32_of_lt (by omega) (by omega)]
    omega
  rw [hrto]
  exact ⟨hsmooth, hge, hlt, he.beta, Or.inr rfl⟩

theorem calRto_estimates {stb : SockTb} (he : Estimates stb.tc) (nt : Node) (recvT : ℕ) :
    Estimates (calRto stb nt recvT).tc := by
  by_cases h : nt.xmitms < 0
  · rw [calRto_retransmitted stb h]
    exact he
  · exact (calRto_sample he (not_lt.1 h) recvT).2

/-- The average after any sequence of nodes is the smoothed average of their samples. -/
theorem calRtoAll_smooth {stb : SockTb} (he : Estimates stb.tc) (acked : List (Node × ℕ)) :
    ((calRtoAll stb acked).tc.tRtt : ℤ) = smoothAll 8 stb.tc.tRtt (samples acked) ∧
      Estimates (calRtoAll stb acked).tc := by
  induction acked generalizing stb with
  | nil => exact ⟨rfl, he⟩
  | cons x rest ih =>
    obtain ⟨hrest, hest⟩ := ih (calRto_estimates he x.1 x.2)
    refine ⟨?_, hest⟩
    rw [calRtoAll_cons, hrest]
    unfold samples
    by_cases h : x.1.xmitms < 0
    · rw [calRto_retransmitted stb h, List.filter_cons_of_neg (by simpa using h)]
    · rw [(calRto_sample he (not_lt.1 h) x.2).1, List.filter_cons_of_pos (by simpa using h), List.map_cons,
        smoothAll_cons]

theorem samples_equal {more : List (Node × ℕ)} {s : ℤ}
    (hmore : ∀ x ∈ more, 0 ≤ x.1.xmitms ∧ curRtt x.1 x.2 = s) :
    (∀ t ∈ samples more, t = s) ∧ (samples more).length = more.length := by
  unfold samples
  constructor
  · intro t ht
    obtain ⟨x, hx, rfl⟩ := List.mem_map.1 ht
    exact (hmore x (List.mem_of_mem_filter hx)).2
  · rw [List.length_map, List.filter_eq_self.2 fun x hx => by simpa using (hmore x hx).1]

structure InitialEstimates (tc : TouCb) : Prop where
  rtt : tc.tRtt = touInitTimeo
  rto : tc.tRto = touInitTimeo
  beta : tc.tRtoBeta = touInitRtoBeta

theorem InitialEstimates.estimates {tc : TouCb} (h : InitialEstimates tc) : Estimates tc where
  rtt_ge := by
    rw [h.rtt]
    unfold touInitTimeo
    omega
  rtt_lt := by
    rw [h.rtt]
    unfold touInitTimeo
    omega
  beta := h.beta
  rto := Or.inl h.rto

/-- From the initial values, after any sequence of acknowledged nodes whose samples are at most `m`: the
average is between 8 and the larger of `m` and the initial timeout, `t_rto` is that timeout or twice the
average, a retransmitted node changes neither, and equal samples bring the average to them. -/
theorem rtt_in_range (stb : SockTb) (h0 : InitialEstimates stb.tc) (acked : List (Node × ℕ)) (m : ℕ)
    (hm : ∀ s ∈ samples acked, s ≤ m) :
    (8 ≤ (calRtoAll stb acked).tc.tRtt ∧ (calRtoAll stb acked).tc.tRtt ≤ max touInitTimeo m) ∧
      ((calRtoAll stb acked).tc.tRto = touInitTimeo ∨
        (calRtoAll stb acked).tc.tRto = 2 * (calRtoAll stb acked).tc.tRtt) ∧
      16 ≤ (calRtoAll stb acked).tc.tRto ∧
      (∀ nt recvT, nt.xmitms < 0 → calRto (calRtoAll stb acked) nt recvT = calRtoAll stb acked) ∧
      ∀ (s : ℤ) (more : List (Node × ℕ)), (∀ x ∈ more, 0 ≤ x.1.xmitms ∧ curRtt x.1 x.2 = s) →
        |((calRtoAll (calRtoAll stb acked) more).tc.tRtt : ℚ) - s| ≤
          2 + |((calRtoAll stb acked).tc.tRtt : ℚ) - s| / 8 ^ more.length := by
  obtain ⟨hsmooth, hest⟩ := calRtoAll_smooth h0.estimates acked
  refine ⟨⟨hest.rtt_ge, ?_⟩, hest.rto, ?_, fun nt recvT h => calRto_retransmitted _ h recvT, ?_⟩
  · have hup : smoothAll 8 (stb.tc.tRtt : ℤ) (samples acked) ≤ ((max touInitTimeo m : ℕ) : ℤ) := by
      refine smoothAll_le (by decide) (fun s hs => (hm s hs).trans ?_) ?_
      · exact Int.ofNat_le.2 (le_max_right _ _)
      · rw [h0.rtt]
        exact Int.ofNat_le.2 (le_max_left _ _)
    rw [← hsmooth] at hup
    exact Int.ofNat_le.1 hup
  · have hge := hest.rtt_ge
    rcases hest.rto with h | h
    · rw [h]
      unfold touInitTimeo
      omega
    · omega
  · intro s more hmore
    obtain ⟨hall, hlen⟩ := samples_equal hmore
    have hnear := smoothAll_near (by decide : (0 : ℤ) < 8) (samples more) hall (calRtoAll stb acked).tc.tRtt
    rw [← (calRtoAll_smooth hest more).1, hlen] at hnear
    exact_mod_cast hnear

/-- A segment acknowledged after 50 ms, and one that was sent twice. -/
def twoAcked : List (Node × ℕ) :=
  [(⟨3, timerIdSndpkt, 1457, 1, some [0], 3100, 100, 0, 0⟩, 150),
    (⟨3, timerIdSndpkt, 2913, 1, some [0], 3100, -1, 0, 0⟩, 200)]

theorem rtt_in_range_two : 8 ≤ (calRtoAll (SockTb.init 3) twoAcked).tc.tRtt ∧
    (calRtoAll (SockTb.init 3) twoAcked).tc.tRtt ≤ max touInitTimeo 50 :=
  (rtt_in_range (SockTb.init 3) ⟨rfl, rfl, rfl⟩ twoAcked 50 (by decide)).1

end Timer
end TcpOverUdp
