import TcpOverUdp.Foundations.WrapCounter
import TcpOverUdp.Proof.TimerHeap
import TcpOverUdp.Proof.DelayedAck

/-! # Deadlines and the clock of `getTimeMs`

The clock counts milliseconds modulo 10^9, about eleven and a half days, and a deadline is the sum of
a clock value and a delay, which is not reduced. True time is an unbounded number of milliseconds.
-/
namespace TcpOverUdp
open MachineInt WrapCounter
set_option autoImplicit false

/-- What an exact `gettimeofday` stores at the true time `T`. -/
structure Timeval.At (tv : Timeval) (T : ℕ) : Prop where
  usec_lt : tv.tvUsec < 1000000
  ms_eq : tv.tvSec * 1000 + tv.tvUsec / 1000 = T

theorem getTimeMs_at {tv : Timeval} {T : ℕ} (h : tv.At T) : getTimeMs tv = T % 1000000000 := by
  have hus := h.usec_lt
  rw [← h.ms_eq]
  unfold getTimeMs
  omega

theorem Timeval.exists_at (T : ℕ) : Timeval.At ⟨T / 1000, T % 1000 * 1000⟩ T where
  usec_lt := by
    show T % 1000 * 1000 < 1000000
    omega
  ms_eq := by
    show T / 1000 * 1000 + T % 1000 * 1000 / 1000 = T
    omega

namespace Timer

/-- The deadlines, with the delay, that are armed while `getTimeMs()` answers `t0`. -/
inductive Armed (t0 : ℕ) : ℤ → ℕ → Prop
  | sent (c t p : ℕ) (st : SockPtr) (stb : SockTb) (pl : List Byte) :
      Armed t0 (Node.ofPayload c t p st stb pl t0).ms stb.tc.tRto
  | rexmit (c t p : ℕ) (st : SockPtr) (stb : SockTb) (pl : List Byte) (xmitT : ℤ) :
      Armed t0 (Node.ofRexmit c t p st stb pl xmitT t0).ms stb.tc.tRto
  | fired (stb : SockTb) (n : Node) : Armed t0 (firedNode stb t0 n).ms (stb.tc.tRto * 2)
  | postponed (stb : SockTb) {n : Node} (hx : n.xmitms = s32 t0) :
      Armed t0 (s32 (u32 (n.xmitms + u32 ((stb.tc.tRto : ℤ) * 2)))) (stb.tc.tRto * 2)
  | firstPush {n : Node} {cid tid : ℕ} {st : SockPtr} {stb : SockTb}
      (hn : n ∈ addAck [] cid tid st stb t0) : Armed t0 n.pushAckms timerPromptAckTime
  | firstNagle {n : Node} {cid tid : ℕ} {st : SockPtr} {stb : SockTb}
      (hn : n ∈ addAck [] cid tid st stb t0) : Armed t0 n.nagleAckms timerDelayedAckTime
  | push (n : Node) (stb : SockTb) : Armed t0 (refreshAck n stb t0).pushAckms timerPromptAckTime
  | nagle (n : Node) (stb : SockTb) : Armed t0 (refreshAck n stb t0).nagleAckms timerDelayedAckTime

/-- The expiry test of `proc_sndpkt` and `proc_delack_xmit`. -/
def Expired (d : ℤ) (t : ℕ) : Prop := u32 d < t

theorem u32_s32_u32 {x : ℤ} (h0 : 0 ≤ x) (h : x < 2147483648) : u32 (s32 (u32 x)) = x.toNat := by
  have hu := u32_of_lt h0 (by omega)
  rw [hu, s32_cast _ (by omega), u32_cast _ (by omega)]

theorem Armed.deadline_eq {t0 r : ℕ} {d : ℤ} (hd : Armed t0 d r) (ht : t0 < 1000000000)
    (hr : r < 1000000) : u32 d = t0 + r := by
  have hsum : u32 (s32 (u32 ((t0 : ℤ) + r))) = t0 + r := by
    rw [u32_s32_u32 (by omega) (by omega)]
    omega
  have htwice : ∀ k : ℕ, k * 2 < 1000000 → u32 ((k : ℤ) * 2) = (k * 2 : ℕ) := by
    intro k hk
    rw [u32_of_lt (by omega) (by omega)]
    omega
  cases hd with
  | sent c t p st stb pl =>
    show u32 (s32 (u32 (s32 t0 + stb.tc.tRto))) = t0 + stb.tc.tRto
    rw [s32_cast t0 (by omega), hsum]
  | rexmit => exact hsum
  | fired stb n =>
    show u32 (s32 (u32 ((u32 ((stb.tc.tRto : ℤ) * 2) : ℤ) + t0))) = t0 + stb.tc.tRto * 2
    rw [htwice _ hr, add_comm, hsum]
  | postponed stb hx => rw [hx, s32_cast t0 (by omega), htwice _ hr, hsum]
  | firstPush hn | firstNagle hn =>
    cases List.mem_singleton.1 hn
    exact hsum
  | push | nagle => exact hsum

/-! ## Where the test stands -/

theorem procSndpkt_fires_iff {tb : SockPtr → SockTb} {now : ℕ} {h : TimerHeap} {n : Node}
    {r : TimerHeap × Option (SockPtr × Tx)} (hn : (clearAckedTop tb h).top? = some n)
    (hr : procSndpkt tb now h = .ok r) : r.2.isSome ↔ Expired n.ms now := by
  unfold procSndpkt at hr
  simp only [hn] at hr
  by_cases hlate : u32 n.ms < now
  · rw [if_pos hlate] at hr
    refine iff_of_true ?_ hlate
    split at hr
    · cases hr
      rfl
    · split at hr
      · obtain ⟨g, _, hr⟩ := of_bind_ok hr
        cases hr
        rfl
      · cases hr
        rfl
  · rw [if_neg hlate] at hr
    cases hr
    exact iff_of_false Bool.false_ne_true hlate

theorem procDelackXmit_nagle_iff {stb : SockTb} {n : Node} {t : ℕ} {r : SockTb × Node × List Tx}
    (hst : stb.tc.tDelackState = .xmit) (hr : procDelackXmit stb n t = .ok r) :
    r.2.2 ≠ [] ↔ Expired n.nagleAckms t := by
  unfold procDelackXmit at hr
  simp only [hst] at hr
  by_cases hlate : u32 n.nagleAckms < t
  · rw [if_pos hlate] at hr
    obtain ⟨tx, _, hr⟩ := of_bind_ok hr
    cases hr
    exact iff_of_true (List.cons_ne_nil _ _) hlate
  · rw [if_neg hlate] at hr
    cases hr
    exact iff_of_false (fun h => h rfl) hlate

theorem procDelackXmit_push_iff {stb : SockTb} {n : Node} {t : ℕ} {r : SockTb × Node × List Tx}
    (hst : stb.tc.tDelackState = .quexmit ∨ stb.tc.tDelackState = .expxmit ∨
      stb.tc.tDelackState = .que) (hr : procDelackXmit stb n t = .ok r) :
    r.2.2 ≠ [] ↔ Expired n.pushAckms t := by
  have hr' : (if u32 n.pushAckms < t then do
      let tx ← sendack stb n
      return (stb.setAckState .expxmit, refreshAck n stb t, [tx])
    else .ok (stb, n, [])) = .ok r := by
    unfold procDelackXmit at hr
    rcases hst with hst | hst | hst <;> simpa only [hst] using hr
  by_cases hlate : u32 n.pushAckms < t
  · rw [if_pos hlate] at hr'
    obtain ⟨tx, _, hr'⟩ := of_bind_ok hr'
    cases hr'
    exact iff_of_true (List.cons_ne_nil _ _) hlate
  · rw [if_neg hlate] at hr'
    cases hr'
    exact iff_of_false (fun h => h rfl) hlate

/-! ## Against the true time -/

variable {T0 T r : ℕ} {tv0 tv : Timeval} {d : ℤ}

/-- For a deadline armed at `T0` with delay `r`, the test at `T` says whether `T0 + r` has passed
exactly when it has not, or when the clock has not wrapped since `T0`. -/
theorem expiry_test_iff (h0 : tv0.At T0) (h : tv.At T) (hd : Armed (getTimeMs tv0) d r)
    (hr : r < 1000000) (hge : T0 ≤ T) (hlt : T < T0 + r + 100000000) :
    (Expired d (getTimeMs tv) ↔ T0 + r < T) ↔ (T ≤ T0 + r ∨ T0 / 1000000000 = T / 1000000000) := by
  have ht0 : getTimeMs tv0 < 1000000000 := by
    rw [getTimeMs_at h0]
    exact Nat.mod_lt _ (by decide)
  unfold Expired
  rw [hd.deadline_eq ht0 hr, getTimeMs_at h0, getTimeMs_at h]
  exact deadline_iff hge (by omega)

theorem expiry_test_iff_firstSegment :
    (Expired (Node.ofPayload 3 timerIdSndpkt 2 1 (SockTb.init 3) [5] 7).ms 3008 ↔ 7 + 3000 < 3008) ↔
      (3008 ≤ 7 + 3000 ∨ 7 / 1000000000 = 3008 / 1000000000) :=
  expiry_test_iff (Timeval.exists_at 7) (Timeval.exists_at 3008)
    (Armed.sent 3 timerIdSndpkt 2 1 (SockTb.init 3) [5]) (by decide) (by decide) (by decide)

/-- A segment sent one millisecond before the clock wraps: 3100 ms later its timer of 3000 ms has not
expired. -/
theorem timer_lost_at_wrap :
    let n := Node.ofPayload 3 timerIdSndpkt 2 1 (SockTb.init 3) [5] (getTimeMs ⟨999999, 999000⟩)
    Timeval.At ⟨999999, 999000⟩ 999999999 ∧ Timeval.At ⟨1000003, 100000⟩ 1000003100 ∧
      Armed (getTimeMs ⟨999999, 999000⟩) n.ms 3000 ∧ 999999999 + 3000 < 1000003100 ∧
      ¬ Expired n.ms (getTimeMs ⟨1000003, 100000⟩) := by
  refine ⟨⟨by decide, by decide⟩, ⟨by decide, by decide⟩,
    Armed.sent 3 timerIdSndpkt 2 1 (SockTb.init 3) [5], by decide, ?_⟩
  unfold Expired
  decide +kernel

end Timer
end TcpOverUdp
