import TcpOverUdp.Model.Comm

/-! # The control block and congestion control (`tou_control_block.h`, `tou_ss_ca.cpp`)

`snd_wnd` is only the temporary in which `getwnd` computes its answer, and `rcv_wnd`, `iss`, `irs`
and the retransmission limits are read nowhere; none of them is a field here. The factor
`t_rtt_alpha` is the constant 1/8. Each operation answers its error code with the block.
-/
namespace TcpOverUdp
open MachineInt
set_option autoImplicit false

structure TouCb where
  ccState : CcState
  tDelackState : DelackState
  tRto : ℕ
  tRtoBeta : ℕ
  tRtt : ℕ
  sndUna : ℕ
  sndNxt : ℕ
  rcvNxt : ℕ
  dupackcount : ℤ
  sndCwnd : ℕ
  sndAwnd : ℕ
  sndSsthresh : ℕ
  deriving DecidableEq, Repr

namespace TouCb

def ckSize (wnd : ℕ) : ℕ := if wnd > touMaxCircularBuf / 2 then touMaxCircularBuf / 2 else wnd

/-- What the constructor `ssca::ssca` assigns. -/
def ssca (tc : TouCb) : TouCb :=
  { tc with ccState := .ss, sndCwnd := touSmss, sndAwnd := touSmss, dupackcount := 0,
            sndSsthresh := touMaxSsthresh }

/-- `snd_cwnd += TOU_SMSS*TOU_SMSS/snd_cwnd`, capped. -/
def growCa (tc : TouCb) : ℕ :=
  ckSize (u32 ((tc.sndCwnd : ℤ) + (touSmss * touSmss / tc.sndCwnd : ℕ)))

def addwnd (tc : TouCb) : ℕ × TouCb :=
  match tc.ccState with
  | .err => (1, tc)
  | .ss =>
    if tc.sndCwnd < tc.sndSsthresh then
      (0, { tc with sndCwnd := ckSize (u32 ((tc.sndCwnd : ℤ) + touSmss)), dupackcount := 0 })
    else
      (0, { tc with ccState := .ca, sndCwnd := tc.growCa, dupackcount := 0 })
  | .ca => (0, { tc with sndCwnd := tc.growCa, dupackcount := 0 })
  | .fr => (0, { tc with ccState := .ca, sndCwnd := ckSize tc.sndSsthresh, dupackcount := 0 })

def getwnd (tc : TouCb) : ℕ := ckSize (min tc.sndCwnd tc.sndAwnd)

def settwnd (tc : TouCb) : ℕ × TouCb :=
  match tc.ccState with
  | .err => (1, tc)
  | .ss =>
    (0, { tc with sndSsthresh := max (tc.sndCwnd / 2) (2 * touSmss), sndCwnd := touSmss,
                  dupackcount := 0 })
  | .ca | .fr =>
    (0, { tc with ccState := .ss, sndSsthresh := max (tc.sndCwnd / 2) (2 * touSmss),
                  sndCwnd := touSmss, dupackcount := 0 })

/-- `dupackcount` after one more duplicate, a `short`; an ACK of another number starts it again. -/
def nextDup (tc : TouCb) (ackSeq : ℕ) : ℤ :=
  if ackSeq = tc.sndUna then s16 (tc.dupackcount + 1) else 1

def setdwnd (tc : TouCb) (ackSeq : ℕ) : ℕ × TouCb :=
  match tc.ccState with
  | .err => (1, tc)
  | .ss | .ca =>
    if tc.nextDup ackSeq ≥ tcpRexmtThresh then
      (0, { tc with
        dupackcount := tc.nextDup ackSeq
        ccState := .fr
        sndSsthresh := max (tc.sndCwnd / 2) (2 * touSmss)
        sndCwnd := u32 (((max (tc.sndCwnd / 2) (2 * touSmss) : ℕ) : ℤ) + 3 * touSmss) })
    else (0, { tc with dupackcount := tc.nextDup ackSeq })
  | .fr =>
    (0, { tc with dupackcount := tc.nextDup ackSeq,
                  sndCwnd := ckSize (u32 ((tc.sndCwnd : ℤ) + touSmss)) })

/-! ## What the window operations leave alone -/

/-- Everything outside the congestion variables. -/
structure SameConnection (a b : TouCb) : Prop where
  tDelackState : b.tDelackState = a.tDelackState
  tRto : b.tRto = a.tRto
  tRtoBeta : b.tRtoBeta = a.tRtoBeta
  tRtt : b.tRtt = a.tRtt
  sndUna : b.sndUna = a.sndUna
  sndNxt : b.sndNxt = a.sndNxt
  rcvNxt : b.rcvNxt = a.rcvNxt
  sndAwnd : b.sndAwnd = a.sndAwnd

theorem addwnd_frame (tc : TouCb) : SameConnection tc tc.addwnd.2 := by
  unfold addwnd
  split
  · exact ⟨rfl, rfl, rfl, rfl, rfl, rfl, rfl, rfl⟩
  · split <;> exact ⟨rfl, rfl, rfl, rfl, rfl, rfl, rfl, rfl⟩
  · exact ⟨rfl, rfl, rfl, rfl, rfl, rfl, rfl, rfl⟩
  · exact ⟨rfl, rfl, rfl, rfl, rfl, rfl, rfl, rfl⟩

theorem settwnd_frame (tc : TouCb) : SameConnection tc tc.settwnd.2 := by
  unfold settwnd
  split <;> exact ⟨rfl, rfl, rfl, rfl, rfl, rfl, rfl, rfl⟩

theorem setdwnd_frame (tc : TouCb) (ackSeq : ℕ) : SameConnection tc (tc.setdwnd ackSeq).2 := by
  unfold setdwnd
  split
  · exact ⟨rfl, rfl, rfl, rfl, rfl, rfl, rfl, rfl⟩
  · split <;> exact ⟨rfl, rfl, rfl, rfl, rfl, rfl, rfl, rfl⟩
  · split <;> exact ⟨rfl, rfl, rfl, rfl, rfl, rfl, rfl, rfl⟩
  · exact ⟨rfl, rfl, rfl, rfl, rfl, rfl, rfl, rfl⟩

theorem ckSize_le (wnd : ℕ) : ckSize wnd ≤ 3145728 := by
  unfold ckSize touMaxCircularBuf
  split <;> omega

theorem getwnd_le (tc : TouCb) : tc.getwnd ≤ 3145728 := ckSize_le _

end TouCb
end TcpOverUdp
