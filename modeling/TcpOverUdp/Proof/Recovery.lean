import TcpOverUdp.Model.Tou

/-! # Recovery of out-of-order packets

`Recovery stb r` says how `do_proc_pkt_rec` comes from the table `stb` to its end `r`: by moving packets
from `minhp_recv` into `cb_recv` one after the other, until the heap is empty, or a gap is left, or
`cb_recv` refuses a packet, or the assertion fails.
-/
namespace TcpOverUdp
open MachineInt
set_option autoImplicit false

namespace Process

/-! ## Storing a block -/

theorem putcircbuf_frame (stb : SockTb) (str : List Byte) (len : ℤ) :
    ∃ n cb, putcircbuf stb str len = (n, { stb with cbRecv := cb }) := by
  unfold putcircbuf SockTb.setCbData
  generalize stb.cbRecv.insert str len = ins
  exact ⟨ins.1, ins.2, rfl⟩

theorem inOrder_frame (stb : SockTb) (tp : TouPkg) :
    ∃ cb, (putcircbuf (stb.setTCBRcv (u32 ((tp.t.seq : ℤ) + tp.buf.length))) tp.buf tp.buf.length).2 =
      { stb.setTCBRcv (u32 ((tp.t.seq : ℤ) + tp.buf.length)) with cbRecv := cb } := by
  obtain ⟨n, cb, hput⟩ := putcircbuf_frame (stb.setTCBRcv (u32 ((tp.t.seq : ℤ) + tp.buf.length))) tp.buf
    tp.buf.length
  exact ⟨cb, congrArg Prod.snd hput⟩

theorem putcircbuf_room (stb : SockTb) {str : List Byte} (h0 : 0 < str.length)
    (h : (str.length : ℤ) < stb.cbRecv.getAvSize) :
    ∃ cb : SockBuf, cb.contents = stb.cbRecv.contents ++ str ∧
      putcircbuf stb str str.length = ((str.length : ℤ), { stb with cbRecv := cb }) := by
  have hins := stb.cbRecv.insert_room str h0 h
  unfold putcircbuf SockTb.setCbData
  generalize stb.cbRecv.insert str str.length = ins at hins ⊢
  exact ⟨ins.2, hins.2, by rw [hins.1]⟩

theorem putcircbuf_no_room {stb : SockTb} {str : List Byte} (hlt : str.length < 4294967296)
    (h : ¬ (str.length : ℤ) < stb.cbRecv.getAvSize) : putcircbuf stb str str.length = (0, stb) := by
  have hins := stb.cbRecv.insert_no_room str hlt h
  unfold putcircbuf SockTb.setCbData
  generalize stb.cbRecv.insert str str.length = ins at hins ⊢
  rw [hins.1, hins.2]

/-- `putcircbuf` stores the whole payload or nothing. -/
theorem putcircbuf_cases {stb : SockTb} {str : List Byte} {n : ℤ} {cb : SockBuf} (h0 : 0 < str.length)
    (hlt : str.length < 4294967296) (h : putcircbuf stb str str.length = (n, { stb with cbRecv := cb })) :
    n > 0 ∧ cb.contents = stb.cbRecv.contents ++ str ∨ ¬ n > 0 ∧ cb = stb.cbRecv := by
  by_cases hfit : (str.length : ℤ) < stb.cbRecv.getAvSize
  · obtain ⟨cb', hcb, hput⟩ := putcircbuf_room stb h0 hfit
    rw [hput] at h
    simp only [Prod.mk.injEq, SockTb.mk.injEq, true_and, and_true] at h
    rw [← h.2, hcb]
    exact Or.inl ⟨by omega, rfl⟩
  · rw [putcircbuf_no_room hlt hfit] at h
    simp only [Prod.mk.injEq] at h
    rw [h.2]
    exact Or.inr ⟨by omega, rfl⟩

/-! ## The loop -/

/-- The table after the packet `top` of `minhp_recv` was stored in `cb_recv`. -/
def movedTable (stb : SockTb) (top : TouPkg) (cb : SockBuf) : SockTb :=
  { stb with
    cbRecv := cb
    tc := { stb.tc with rcvNxt := u32 ((top.t.seq : ℤ) + top.buf.length) }
    minhpRecv := stb.minhpRecv.pop }

/-- `putcircbuf` answers `n` for the least packet of `minhp_recv`, which begins at `rcv_nxt`. -/
structure Offered (stb : SockTb) (top : TouPkg) (n : ℤ) (cb : SockBuf) : Prop where
  top_eq : stb.minhpRecv.top? = some top
  seq_eq : top.t.seq = stb.tc.rcvNxt
  put_eq : putcircbuf stb top.buf top.buf.length = (n, { stb with cbRecv := cb })

theorem doProcPktRecLoop_offered {stb : SockTb} {top : TouPkg} {n : ℤ} {cb : SockBuf}
    (h : Offered stb top n cb) (k : ℕ) : doProcPktRecLoop (k + 1) stb =
      if n > 0 then doProcPktRecLoop k (movedTable stb top cb) else .ok (-1, { stb with cbRecv := cb }) := by
  have hseq := h.seq_eq
  rw [doProcPktRecLoop, h.top_eq]
  simp only [h.put_eq]
  rw [if_pos (by omega), if_pos hseq]
  rfl

inductive Recovery : SockTb → Except Halt (ℤ × SockTb) → Prop
  | empty {stb : SockTb} (h : stb.minhpRecv.top? = none) : Recovery stb (.ok (0, stb))
  | gap {stb : SockTb} {top : TouPkg} (h : stb.minhpRecv.top? = some top)
      (hlt : stb.tc.rcvNxt < top.t.seq) : Recovery stb (.ok (0, stb))
  | refused {stb : SockTb} {top : TouPkg} {n : ℤ} {cb : SockBuf} (h : Offered stb top n cb)
      (hn : ¬ n > 0) : Recovery stb (.ok (-1, { stb with cbRecv := cb }))
  | failed {stb : SockTb} {top : TouPkg} (h : stb.minhpRecv.top? = some top)
      (hlt : top.t.seq < stb.tc.rcvNxt) : Recovery stb (.error (.assertFail .doProcPktRec))
  | moved {stb : SockTb} {top : TouPkg} {n : ℤ} {cb : SockBuf} {r : Except Halt (ℤ × SockTb)}
      (h : Offered stb top n cb) (hn : n > 0) (hr : Recovery (movedTable stb top cb) r) :
      Recovery stb r

theorem doProcPktRecLoop_recovery (k : ℕ) (stb : SockTb) (hk : stb.minhpRecv.size ≤ k) :
    Recovery stb (doProcPktRecLoop k stb) := by
  induction k generalizing stb with
  | zero =>
    refine Recovery.empty ?_
    cases ht : stb.minhpRecv.top? with
    | none => rfl
    | some top =>
      have hpos := MinHeap.size_pos_of_top? ht
      omega
  | succ k ih =>
    rw [doProcPktRecLoop]
    cases ht : stb.minhpRecv.top? with
    | none => exact Recovery.empty ht
    | some top =>
      simp only
      rcases lt_trichotomy top.t.seq stb.tc.rcvNxt with hlt | heq | hgt
      · rw [if_neg (by omega)]
        exact Recovery.failed ht hlt
      · rw [if_pos (by omega), if_pos heq]
        obtain ⟨n, cb, hput⟩ := putcircbuf_frame stb top.buf top.buf.length
        have hoff : Offered stb top n cb := ⟨ht, heq, hput⟩
        simp only [hput]
        by_cases hn : n > 0
        · rw [if_pos hn]
          have hsize := MinHeap.size_pop stb.minhpRecv
          exact Recovery.moved hoff hn (ih (movedTable stb top cb) (by
            show stb.minhpRecv.pop.size ≤ k
            omega))
        · rw [if_neg hn]
          exact Recovery.refused hoff hn
      · rw [if_pos (by omega), if_neg (by omega)]
        exact Recovery.gap ht hgt

/-- `proc_pkt_rec` does nothing on an empty heap, and otherwise recovers and marks the ACK. -/
theorem procPktRec_cases (stb : SockTb) :
    (stb.minhpRecv.isEmpty = true ∧ procPktRec stb = .ok (0, stb)) ∨
      ∃ r, Recovery stb r ∧ procPktRec stb = (do
        let x ← r
        return (x.1, x.2.setAckState .immedUpdateXmit)) := by
  unfold procPktRec
  by_cases hempty : stb.minhpRecv.isEmpty = true
  · rw [if_pos hempty]
    exact Or.inl ⟨hempty, rfl⟩
  · rw [if_neg hempty]
    exact Or.inr ⟨_, doProcPktRecLoop_recovery _ stb (le_refl _), rfl⟩

/-- What every move and every refusal keeps, recovery keeps. -/
theorem procPktRec_inv {stb : SockTb} {r : ℤ × SockTb} (h : procPktRec stb = .ok r)
    (I : SockTb → Prop) (h0 : I stb)
    (hmove : ∀ a top n cb, Offered a top n cb → n > 0 → I a → I (movedTable a top cb))
    (hrefuse : ∀ a top n cb, Offered a top n cb → ¬ n > 0 → I a → I { a with cbRecv := cb })
    (hstate : ∀ a, I a → I (a.setAckState .immedUpdateXmit)) : I r.2 := by
  rcases procPktRec_cases stb with ⟨_, hr⟩ | ⟨res, hres, hr⟩
  · rw [hr] at h
    cases h
    exact h0
  · rw [hr] at h
    obtain ⟨x, rfl, hx⟩ := of_bind_ok h
    cases hx
    refine hstate _ ?_
    clear hr h
    generalize hok : (Except.ok x : Except Halt (ℤ × SockTb)) = res at hres
    induction hres with
    | empty | gap =>
      cases hok
      exact h0
    | refused hoff hn =>
      cases hok
      exact hrefuse _ _ _ _ hoff hn h0
    | failed => cases hok
    | moved hoff hn _ ih => exact ih (hmove _ _ _ _ hoff hn h0) hok

/-- The only end of the process in recovery is the assertion, on a packet below `rcv_nxt`. -/
theorem procPktRec_error {stb : SockTb} {e : Halt} (h : procPktRec stb = .error e) :
    e = .assertFail .doProcPktRec := by
  rcases procPktRec_cases stb with ⟨_, hr⟩ | ⟨res, hres, hr⟩
  · rw [hr] at h
    cases h
  · rw [hr] at h
    rcases of_bind_error h with herr | ⟨_, _, h⟩
    · clear hr h
      generalize hok : (Except.error e : Except Halt (ℤ × SockTb)) = x at herr
      subst herr
      induction hres with
      | empty | gap | refused => cases hok
      | failed => cases hok; rfl
      | moved _ _ _ ih => exact ih hok
    · cases h

end Process
end TcpOverUdp
