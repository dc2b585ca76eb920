import TcpOverUdp.Proof.AckEvents

/-! # The advertised window

`touConnect` and `touAccept` set `snd_awnd` to the size of the receive buffer less 300000 bytes, as an
unsigned number. It fits the buffer, and so does every later answer of `getwnd`, if and only if the
buffer holds 300000 bytes (`awnd_fits_iff`): the difference of a smaller one wraps around, and slow
start then opens the window past it (`window_passes`).
-/
namespace TcpOverUdp
open MachineInt
set_option autoImplicit false

namespace TouCb

/-- An operation of `ssca`, or a change of other fields than the advertised window: only the
constructor and `setTCBAwnd` assign that. -/
def WindowOp (a b : TouCb) : Prop := WindowStep a b ∧ b.sndAwnd = a.sndAwnd

theorem windowOp_addwnd (tc : TouCb) : WindowOp tc tc.addwnd.2 :=
  ⟨WindowStep.addwnd tc, tc.addwnd_frame.sndAwnd⟩

theorem WindowOp.run_sndAwnd {a b : TouCb} (h : Relation.ReflTransGen WindowOp a b) :
    b.sndAwnd = a.sndAwnd :=
  reach_inv (fun tc => tc.sndAwnd = a.sndAwnd) (fun _ _ hs hst => hst.2.trans hs) rfl h

/-- A window below 300000 bytes grows with every new ACK, in slow start and in congestion avoidance. -/
theorem addwnd_opens {tc : TouCb} (hst : tc.ccState = .ss ∨ tc.ccState = .ca) (hpos : 0 < tc.sndCwnd)
    (hlt : tc.sndCwnd < 300000) :
    tc.sndCwnd < tc.addwnd.2.sndCwnd ∧ (tc.addwnd.2.ccState = .ss ∨ tc.addwnd.2.ccState = .ca) := by
  have hss : tc.sndCwnd < ckSize (u32 ((tc.sndCwnd : ℤ) + touSmss)) := by
    have hadd : u32 ((tc.sndCwnd : ℤ) + touSmss) = tc.sndCwnd + 1456 :=
      u32_add _ 1456 (by omega)
    rw [hadd, ckSize_eq]
    omega
  have hca : tc.sndCwnd < tc.growCa := by
    have hstep : 0 < touSmss * touSmss / tc.sndCwnd := Nat.div_pos (by unfold touSmss; omega) hpos
    have hle : touSmss * touSmss / tc.sndCwnd ≤ 2119936 := Nat.div_le_self _ _
    unfold growCa
    rw [u32_add _ _ (by omega), ckSize_eq]
    omega
  unfold addwnd
  generalize ckSize (u32 ((tc.sndCwnd : ℤ) + touSmss)) = opened at hss ⊢
  rcases hst with hst | hst
  · rw [hst]
    simp only
    split
    · exact ⟨hss, Or.inl rfl⟩
    · exact ⟨hca, Or.inr rfl⟩
  · rw [hst]
    exact ⟨hca, Or.inr rfl⟩

theorem window_opens {tc : TouCb} (hst : tc.ccState = .ss ∨ tc.ccState = .ca) (hpos : 0 < tc.sndCwnd) :
    ∃ tc', Relation.ReflTransGen WindowOp tc tc' ∧ 300000 ≤ tc'.sndCwnd := by
  refine reach_goal (fun a : TouCb => (a.ccState = .ss ∨ a.ccState = .ca) ∧ 0 < a.sndCwnd)
    (fun a : TouCb => 300000 ≤ a.sndCwnd) (fun a : TouCb => 300000 - a.sndCwnd) ?_ ⟨hst, hpos⟩
  rintro a ⟨ha, h0⟩ hlt
  obtain ⟨hgrow, hst'⟩ := addwnd_opens ha h0 (not_le.mp hlt)
  exact ⟨a.addwnd.2, windowOp_addwnd a, ⟨hst', by omega⟩, by omega⟩

end TouCb

namespace Process
open TouCb

/-- `q` is what a call of `touConnect` or of `touAccept` leaves when `getSocketRcvBuf` answers `rcvbuf`. -/
inductive WindowSet (rcvbuf : ℤ) : Process → Prop
  | connect {p : Process} {sockDst : Addr} {d : Datagram} {r : Bool × Process}
      (h : touConnect p sockDst rcvbuf d = .ok r) : WindowSet rcvbuf r.2
  | accept {p : Process} {rand : ℕ} {d : Datagram} {r : Bool × Process}
      (h : touAccept p rand rcvbuf d = .ok r) : WindowSet rcvbuf r.2

structure StartWindow (rcvbuf : ℤ) (tc : TouCb) : Prop where
  ccState : tc.ccState = .ss
  sndCwnd : tc.sndCwnd = touMss * 2
  sndAwnd : tc.sndAwnd = initAwnd rcvbuf

theorem WindowSet.start {rcvbuf : ℤ} {q : Process} (h : WindowSet rcvbuf q) :
    StartWindow rcvbuf q.stb.tc := by
  cases h with
  | @connect p sockDst d r h =>
    obtain ⟨syn, ack, _, _, rfl⟩ := touConnect_ok h
    exact ⟨rfl, rfl, rfl⟩
  | @accept p rand d r h =>
    obtain ⟨r1, h1, h⟩ := of_bind_ok h
    rcases touAcceptSynAck_ok h1 with ⟨_, synack, _, rfl⟩ | ⟨_, rfl⟩
    · rw [if_pos rfl] at h
      cases h
      obtain ⟨una, ht, _⟩ := touAcceptAck_result _ d
      constructor <;> rw [ht] <;> rfl
    · rw [if_neg Bool.false_ne_true] at h
      cases h
      exact ⟨rfl, rfl, rfl⟩

/-- The subtraction wraps around for a buffer of less than 300000 bytes. -/
theorem initAwnd_eq {rcvbuf : ℤ} (hpos : 0 < rcvbuf) (hint : rcvbuf ≤ 2147483647) :
    (initAwnd rcvbuf : ℤ) = if 300000 ≤ rcvbuf then rcvbuf - 300000 else rcvbuf + 4294667296 := by
  unfold initAwnd
  rw [s32_of_range (by omega) (by omega)]
  unfold u32
  split <;> omega

/-- With a buffer of less than 300000 bytes, new ACKs open the window past it. -/
theorem window_passes {rcvbuf : ℤ} {q : Process} (hpos : 0 < rcvbuf) (hlt : rcvbuf < 300000)
    (h : WindowSet rcvbuf q) :
    ∃ tc, Relation.ReflTransGen WindowOp q.stb.tc tc ∧ rcvbuf < tc.getwnd := by
  have hs := h.start
  obtain ⟨tc, hrun, hbig⟩ := window_opens (Or.inl hs.ccState) (by rw [hs.sndCwnd]; decide)
  have hawnd := initAwnd_eq hpos (by omega)
  rw [if_neg (by omega)] at hawnd
  refine ⟨tc, hrun, ?_⟩
  rw [getwnd_eq, WindowOp.run_sndAwnd hrun, hs.sndAwnd]
  omega

/-- The advertised window fits the receive buffer, and with it every later answer of `getwnd`, if and
only if the buffer holds 300000 bytes. -/
theorem awnd_fits_iff (rcvbuf : ℤ) (hpos : 0 < rcvbuf) (hint : rcvbuf ≤ 2147483647) (q : Process)
    (h : WindowSet rcvbuf q) :
    ((q.stb.tc.sndAwnd : ℤ) ≤ rcvbuf ∧
      ∀ tc, Relation.ReflTransGen WindowOp q.stb.tc tc → (tc.getwnd : ℤ) ≤ rcvbuf) ↔
      300000 ≤ rcvbuf := by
  have hawnd := initAwnd_eq hpos hint
  rw [← h.start.sndAwnd] at hawnd
  constructor
  · rintro ⟨hfit, _⟩
    by_contra hsmall
    rw [if_neg hsmall] at hawnd
    omega
  · intro hbig
    rw [if_pos hbig] at hawnd
    refine ⟨by omega, ?_⟩
    intro tc hrun
    rw [getwnd_eq, WindowOp.run_sndAwnd hrun]
    omega

theorem awnd_fits_iff_client : ∃ q, WindowSet 425984 q ∧
    (((q.stb.tc.sndAwnd : ℤ) ≤ 425984 ∧
      ∀ tc, Relation.ReflTransGen WindowOp q.stb.tc tc → (tc.getwnd : ℤ) ≤ 425984) ↔
      (300000 : ℤ) ≤ 425984) := by
  obtain ⟨q, hq, _⟩ := exists_client
  exact ⟨q, WindowSet.connect hq, awnd_fits_iff 425984 (by decide) (by decide) q (WindowSet.connect hq)⟩

/-- A client whose receive buffer has 212992 bytes advertises 4294880288, and its window passes the
buffer. -/
theorem awnd_wraps : ∃ q tc, touConnect (Process.init 3 1) ⟨2, 80⟩ 212992 (synAckFrom ⟨2, 80⟩ 0 1) =
    .ok (true, q) ∧ q.stb.tc.sndAwnd = 4294880288 ∧
    Relation.ReflTransGen WindowOp q.stb.tc tc ∧ 212992 < tc.getwnd := by
  obtain ⟨q, hq⟩ := touConnect_returns (Process.init 3 1) ⟨2, 80⟩ 212992
    (synAckFrom ⟨2, 80⟩ 0 1) (by decide) (by decide)
  have hset : WindowSet 212992 q := WindowSet.connect hq
  obtain ⟨tc, hrun, hpast⟩ := window_passes (by decide) (by decide) hset
  refine ⟨q, tc, hq, ?_, hrun, by exact_mod_cast hpast⟩
  rw [hset.start.sndAwnd]
  decide

end Process
end TcpOverUdp
