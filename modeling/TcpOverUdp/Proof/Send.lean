import TcpOverUdp.Proof.Segment
import TcpOverUdp.Foundations.Pieces

/-! # What `send` emits

`send` takes the front of `cb_send` piece by piece. `Emits now p ls q` says that it went from `p` to
`q` by sending pieces of the lengths `ls`, each within the window that was left for it. Every call
of `send` is such a walk (`send_emits`), so what one piece keeps, `send` keeps (`Emits.inv`).
-/
namespace TcpOverUdp
open MachineInt Pieces
set_option autoImplicit false

namespace Process

/-! ## One segment -/

/-- The table after the first `l` bytes of `cb_send` are taken for a segment. -/
def takenTable (stb : SockTb) (l : ℕ) : SockTb :=
  { stb with cbSend := (stb.cbSend.remove l).2, tc := { stb.tc with sndNxt := stb.tc.sndNxt + l } }

/-- The process after it sent the first `l` bytes of `cb_send` as one segment. -/
def afterSegment (now : ℕ) (p : Process) (l : ℕ) : Process :=
  { p with
    stb := takenTable p.stb l
    sent := p.sent ++ [{ site := .send, dst := p.stb.dst
                         pkt := TouPkg.segment p.stb.tc.sndNxt p.stb.tc.rcvNxt
                           (p.stb.cbSend.contents.take l) }]
    timerheap := Timer.add p.timerheap p.stb.sockd timerIdSndpkt (p.stb.tc.sndNxt + l) p.stp
      (takenTable p.stb l) (p.stb.cbSend.contents.take l) now }

/-- The right edge of the send window. -/
def windowEdge (stb : SockTb) : ℕ := u32 ((stb.tc.sndUna : ℤ) + stb.tc.getwnd)

/-- The length of the segment that `send` takes: as much as the window and `cb_send` hold. -/
structure SegFits (p : Process) (l : ℕ) : Prop where
  pos : 0 < l
  size_eq : l = min (min touSmss (windowEdge p.stb - p.stb.tc.sndNxt)) p.stb.cbSend.contents.length

theorem windowEdge_lt (stb : SockTb) : windowEdge stb < 4294967296 := u32_lt _

theorem windowEdge_le (stb : SockTb) : windowEdge stb ≤ stb.tc.sndUna + stb.tc.getwnd := by
  unfold windowEdge u32
  omega

theorem windowEdge_eq {stb : SockTb} (h : stb.tc.sndUna + 3145728 < 4294967296) :
    windowEdge stb = stb.tc.sndUna + stb.tc.getwnd :=
  u32_add _ _ (by have := stb.tc.getwnd_le; omega)

/-- The size of the usable window never underflows: it is a truncated difference. -/
theorem getSendSize_eq (stb : SockTb) : getSendSize stb = windowEdge stb - stb.tc.sndNxt := by
  have hlt := windowEdge_lt stb
  unfold getSendSize
  simp only
  rw [show u32 ((stb.tc.sndUna : ℤ) + stb.tc.getwnd) = windowEdge stb from rfl]
  split
  · exact u32_sub _ _ ‹_› hlt
  · omega

namespace SegFits
variable {p : Process} {l : ℕ}

theorem le_smss (h : SegFits p l) : l ≤ touSmss := by
  have h1 := h.size_eq
  omega

theorem le_contents (h : SegFits p l) : l ≤ p.stb.cbSend.contents.length := by
  have h1 := h.size_eq
  omega

theorem in_window (h : SegFits p l) : p.stb.tc.sndNxt + l ≤ windowEdge p.stb := by
  have h0 := h.pos
  have h1 := h.size_eq
  omega

theorem sndNxt_lt (h : SegFits p l) : p.stb.tc.sndNxt + l < 4294967296 := by
  have h1 := h.in_window
  have h2 := windowEdge_lt p.stb
  omega

theorem length_take (h : SegFits p l) : (p.stb.cbSend.contents.take l).length = l := by
  have h1 := h.le_contents
  rw [List.length_take]
  omega

end SegFits

@[simp] theorem contents_takenTable {stb : SockTb} {l : ℕ} (h : l < 2147483648) :
    (takenTable stb l).cbSend.contents = stb.cbSend.contents.drop l := by
  have hr := (stb.cbSend.remove_spec l).2
  rw [s32_cast l h, Int.toNat_natCast] at hr
  exact hr

theorem popsndq_eq (stb : SockTb) {n l : ℕ} (h0 : 0 < l) (hn : n ≤ touSmss)
    (hl : l = min n stb.cbSend.contents.length) :
    popsndq stb n = ((l : ℤ),
      stb.cbSend.contents.take l ++
        List.replicate (touMss - (stb.cbSend.contents.take l).length) 0,
      { stb with cbSend := (stb.cbSend.remove l).2 }) := by
  unfold touSmss at hn
  have hget := stb.cbSend.getAt_spec n
  rw [s32_cast n (by omega), Int.toNat_natCast, ← hl] at hget
  have htake : stb.cbSend.contents.take n = stb.cbSend.contents.take l := by
    rw [hl]
    exact List.take_eq_take_min
  rw [htake] at hget
  have hrem := (stb.cbSend.remove_spec l).1
  rw [s32_cast l (by omega), Int.toNat_natCast, Nat.min_eq_left (by omega)] at hrem
  unfold popsndq
  simp only [hget.1, hget.2, hrem, ne_eq, not_true_eq_false, if_false]
  rw [if_pos (by omega)]

theorem sendSegment_eq (now : ℕ) (p : Process) {sndsize : ℤ} {l : ℕ} (hs : 0 < sndsize)
    (hl : l = min (min touSmss sndsize.toNat) p.stb.cbSend.contents.length) (h0 : 0 < l)
    (hn : p.stb.tc.sndNxt + l < 4294967296) :
    sendSegment now p sndsize = .ok (afterSegment now p l) := by
  obtain ⟨n, hnarg⟩ : ∃ n : ℕ, (n : ℤ) = (if sndsize ≥ touSmss then (touSmss : ℤ) else sndsize) := by
    refine ⟨(if sndsize ≥ touSmss then (touSmss : ℤ) else sndsize).toNat, ?_⟩
    unfold touSmss
    split <;> omega
  have hnmin : n = min touSmss sndsize.toNat := by
    unfold touSmss at hnarg ⊢
    split at hnarg <;> omega
  have hpop := popsndq_eq p.stb h0 (n := n) (by omega) (by omega)
  have hlen : (p.stb.cbSend.contents.take l).length = l := by
    rw [List.length_take]
    omega
  have hpre : (p.stb.cbSend.contents.take l ++
      List.replicate (touMss - (p.stb.cbSend.contents.take l).length) (0 : Byte)).take
        (p.stb.cbSend.contents.take l).length = p.stb.cbSend.contents.take l :=
    List.take_left' rfl
  have hseg := ofBuf_segment (p.stb.cbSend.contents.take l) _ p.stb.tc.sndNxt p.stb.tc.rcvNxt hpre
  rw [hlen] at hseg
  have hnxt : u32 ((p.stb.tc.sndNxt : ℤ) + l) = p.stb.tc.sndNxt + l := u32_add _ _ hn
  unfold sendSegment genPkt
  rw [← hnarg, hpop]
  simp only [hlen, Int.toNat_natCast, hseg, if_neg (show ¬ (l : ℤ) < 0 by omega), hnxt]
  simp only [bind, Except.bind, pure, Except.pure, TouPkg.segment_seq, TouPkg.segment_buf, hnxt]
  rfl

theorem sendSegment_fits (now : ℕ) {p : Process} {l : ℕ} (h : SegFits p l)
    (hs : 0 < s32 (getSendSize p.stb)) :
    sendSegment now p (s32 (getSendSize p.stb)) = .ok (afterSegment now p l) := by
  have hsize := getSendSize_eq p.stb
  have hlt := windowEdge_lt p.stb
  have heq : (s32 (getSendSize p.stb)).toNat = windowEdge p.stb - p.stb.tc.sndNxt := by
    unfold s32 at hs ⊢
    omega
  have hl := h.size_eq
  rw [← heq] at hl
  exact sendSegment_eq now p hs hl h.pos h.sndNxt_lt

/-! ## The loop -/

/-- `send` goes from `p` to `q` by segments of the lengths `ls`. -/
inductive Emits (now : ℕ) : Process → List ℕ → Process → Prop
  | stop (p : Process) : Emits now p [] p
  | seg {p q : Process} {l : ℕ} {ls : List ℕ} (hl : SegFits p l)
      (h : Emits now (afterSegment now p l) ls q) : Emits now p (l :: ls) q

theorem Emits.inv {now : ℕ} {p q : Process} {ls : List ℕ} (h : Emits now p ls q)
    (I : Process → Prop) (hI : ∀ a l, SegFits a l → I a → I (afterSegment now a l)) (hp : I p) : I q := by
  induction h with
  | stop p => exact hp
  | seg hl _ ih => exact ih (hI _ _ hl hp)

/-- In congestion avoidance the count never promises more segments than the window has room for. -/
def CountFits (s : SendSt) : Prop :=
  s.pr.stb.tc.ccState = .ca → 0 < s.xmitCnt →
    (s.xmitCnt - 1) * touSmss < s32 (getSendSize s.pr.stb)

theorem calNumCaxmit_fits (n : ℤ) (h : 0 < calNumCaxmit n) : (calNumCaxmit n - 1) * touSmss < n := by
  by_cases hn : 0 ≤ n
  · unfold calNumCaxmit touSmss at *
    simp only at *
    rw [Int.tdiv_eq_ediv_of_nonneg hn] at *
    rw [Int.tmod_eq_emod_of_nonneg (by omega)] at *
    rw [Int.tmod_eq_emod_of_nonneg hn] at *
    split_ifs at * <;> omega
  · exfalso
    obtain ⟨m, rfl⟩ : ∃ m : ℕ, n = -(m : ℤ) := ⟨n.natAbs, by omega⟩
    have hdiv : (m : ℤ).tdiv touSmss = (m : ℤ) / touSmss := Int.tdiv_eq_ediv_of_nonneg (by omega)
    have hmod : ((m : ℤ) / touSmss).tmod 2 = (m : ℤ) / touSmss % 2 :=
      Int.tmod_eq_emod_of_nonneg (by unfold touSmss; omega)
    unfold calNumCaxmit at h
    simp only [Int.neg_tdiv, Int.neg_tmod, hdiv, hmod] at h
    unfold touSmss at h
    rw [if_neg (by omega)] at h
    omega

theorem getSendSize_afterSegment (now : ℕ) {p : Process} {l : ℕ} :
    getSendSize (afterSegment now p l).stb = getSendSize p.stb - l := by
  rw [getSendSize_eq, getSendSize_eq]
  have he : windowEdge (afterSegment now p l).stb = windowEdge p.stb := rfl
  have hn : (afterSegment now p l).stb.tc.sndNxt = p.stb.tc.sndNxt + l := rfl
  omega

theorem length_afterSegment (now : ℕ) {p : Process} {l : ℕ} (h : SegFits p l) :
    (afterSegment now p l).stb.cbSend.contents.length + l = p.stb.cbSend.contents.length := by
  have h1 := h.le_contents
  have h2 := h.le_smss
  have hc : (afterSegment now p l).stb.cbSend.contents = p.stb.cbSend.contents.drop l :=
    contents_takenTable (by unfold touSmss at h2; omega)
  rw [hc, List.length_drop]
  omega

theorem segFits_of_window {p : Process} (hd : 0 < p.stb.cbSend.contents.length)
    (hs : 0 < s32 (getSendSize p.stb)) :
    ∃ l, SegFits p l ∧ (l : ℤ) ≤ s32 (getSendSize p.stb) ∧ getSendSize p.stb < 2147483648 := by
  have hsize := getSendSize_eq p.stb
  have hlt := windowEdge_lt p.stb
  have hbig : getSendSize p.stb < 2147483648 := by
    unfold s32 at hs
    omega
  have hpos : 0 < getSendSize p.stb := by
    unfold s32 at hs
    omega
  refine ⟨_, ⟨?_, rfl⟩, ?_, hbig⟩
  · unfold touSmss
    omega
  · rw [s32_cast _ hbig]
    omega

/-- What a turn of the loop can do: leave, or send one segment and go on. -/
theorem sendStep_cases (now : ℕ) {s : SendSt} (hc : CountFits s) :
    sendStep now s = .ok (.done s.pr) ∨
      ∃ l s', SegFits s.pr l ∧ sendStep now s = .ok (.next s') ∧ s'.pr = afterSegment now s.pr l ∧
        CountFits s' := by
  by_cases hd : 0 < s.pr.stb.cbSend.getTotalElements
  · have hd' : 0 < s.pr.stb.cbSend.contents.length := by
      rw [RingBuf.getTotalElements_eq] at hd
      omega
    by_cases hca : s.pr.stb.tc.ccState = .ca
    · by_cases hx : s.xmitCnt ≤ 0
      · left
        unfold sendStep
        simp only [if_pos hd, if_pos hca, if_pos hx]
      · right
        have hcount := hc hca (by omega)
        have hs : 0 < s32 (getSendSize s.pr.stb) := by
          unfold touSmss at hcount
          omega
        obtain ⟨l, hl, hle, hbig⟩ := segFits_of_window hd' hs
        refine ⟨l, { pr := afterSegment now s.pr l, xmitCnt := s.xmitCnt - 1 }, hl, ?_, rfl, ?_⟩
        · unfold sendStep
          simp only [if_pos hd, if_pos hca, if_neg hx, sendSegment_fits now hl hs]
          rfl
        · intro _ hpos
          have hsmss := hl.le_smss
          simp only at hpos ⊢
          rw [getSendSize_afterSegment now, s32_cast _ (by omega)]
          rw [s32_cast _ hbig] at hcount hle
          unfold touSmss at hcount hsmss ⊢
          omega
    · by_cases hmin : minSendSize > s32 (getSendSize s.pr.stb)
      · left
        unfold sendStep
        simp only [if_pos hd, if_neg hca, if_pos hmin]
      · right
        have hs : 0 < s32 (getSendSize s.pr.stb) := by
          unfold minSendSize at hmin
          omega
        obtain ⟨l, hl, _, _⟩ := segFits_of_window hd' hs
        refine ⟨l, { pr := afterSegment now s.pr l, xmitCnt := s.xmitCnt }, hl, ?_, rfl, ?_⟩
        · unfold sendStep
          simp only [if_pos hd, if_neg hca, if_neg hmin, sendSegment_fits now hl hs]
          rfl
        · intro hca'
          exact absurd hca' hca
  · left
    unfold sendStep
    rw [if_neg hd]

/-- The loop ends, and it has sent segments and nothing else. -/
theorem sendLoop_emits (now n : ℕ) (s : SendSt) (hc : CountFits s)
    (hn : s.pr.stb.cbSend.contents.length < n) :
    ∃ ls q, fuelLoop .outOfFuel (sendStep now) n s = .ok q ∧ Emits now s.pr ls q := by
  induction n generalizing s with
  | zero => omega
  | succ n ih =>
    rcases sendStep_cases now hc with hdone | ⟨l, s', hl, hnext, hpr, hc'⟩
    · exact ⟨[], s.pr, fuelLoop_done hdone, Emits.stop _⟩
    · have hlen := length_afterSegment now hl
      have hpos := hl.pos
      rw [← hpr] at hlen
      obtain ⟨ls, q, hq, he⟩ := ih s' hc' (by omega)
      rw [hpr] at he
      exact ⟨l :: ls, q, (fuelLoop_next hnext).trans hq, Emits.seg hl he⟩

theorem countFits_start (p : Process) :
    CountFits { pr := p, xmitCnt := calNumCaxmit (s32 (getSendSize p.stb)) } := by
  unfold CountFits
  simp only
  intro _ hpos
  exact calNumCaxmit_fits _ hpos

theorem send_emits (now : ℕ) (p : Process) : ∃ ls q, send now p = .ok q ∧ Emits now p ls q := by
  have ht : p.stb.cbSend.getTotalElements.toNat = p.stb.cbSend.contents.length := by
    rw [RingBuf.getTotalElements_eq, Int.toNat_natCast]
  unfold send
  simp only [ht]
  exact sendLoop_emits now _ _ (countFits_start p) (by simp only; omega)

theorem send_inv {now : ℕ} {p q : Process} (h : send now p = .ok q) (I : Process → Prop)
    (hI : ∀ a l, SegFits a l → I a → I (afterSegment now a l)) (hp : I p) : I q := by
  obtain ⟨ls, q', hq', he⟩ := send_emits now p
  rw [hq'] at h
  cases h
  exact he.inv I hI hp

theorem send_nothing {now : ℕ} {p q : Process} (hp : p.stb.cbSend.contents = [])
    (h : send now p = .ok q) : q = p := by
  refine send_inv h (fun a => a = p) ?_ rfl
  rintro a l hl rfl
  have hpos := hl.pos
  have hle := hl.le_contents
  rw [hp, List.length_nil] at hle
  omega

/-! ## The segments of one call -/

/-- The transmission of a numbered piece of the stream. -/
def sentTx (stb : SockTb) (s : ℕ × List Byte) : Tx :=
  { site := .send, dst := stb.dst, pkt := TouPkg.segment s.1 stb.tc.rcvNxt s.2 }

/-- The timer node that `tmng.add` stores for it. -/
def sentNode (now : ℕ) (p : Process) (s : ℕ × List Byte) : Node :=
  (Node.ofPayload p.stb.sockd timerIdSndpkt (endOf s) p.stp p.stb s.2 now).copy

/-- `q` is `p` after the pieces were sent, and nothing else was done. -/
structure Emitted (now : ℕ) (p : Process) (pieces : List (List Byte)) (q : Process) : Prop where
  sent_eq : q.sent = p.sent ++ (numbered p.stb.tc.sndNxt pieces).map (sentTx p.stb)
  contents_eq : pieces.flatten ++ q.stb.cbSend.contents = p.stb.cbSend.contents
  size_le : ∀ x ∈ pieces, 0 < x.length ∧ x.length ≤ touSmss
  sndNxt_eq : q.stb.tc.sndNxt = p.stb.tc.sndNxt + pieces.flatten.length
  in_window : pieces ≠ [] → q.stb.tc.sndNxt ≤ windowEdge p.stb
  heap_perm : q.timerheap.elems.Perm
    (p.timerheap.elems ++ (numbered p.stb.tc.sndNxt pieces).map (sentNode now p))
  table_eq : q.stb = { p.stb with
    cbSend := q.stb.cbSend, tc := { p.stb.tc with sndNxt := q.stb.tc.sndNxt } }
  stp_eq : q.stp = p.stp
  ackdeque_eq : q.ackdeque = p.ackdeque

theorem Emits.emitted {now : ℕ} {p q : Process} {ls : List ℕ} (h : Emits now p ls q) :
    ∃ pieces, Emitted now p pieces q := by
  induction h with
  | stop p =>
    refine ⟨[], ⟨?_, rfl, ?_, rfl, ?_, ?_, rfl, rfl, rfl⟩⟩
    · simp [numbered]
    · simp
    · simp
    · simp [numbered]
  | @seg p q l ls hl _ ih =>
    obtain ⟨pieces, he⟩ := ih
    obtain ⟨piece, hpiece⟩ : ∃ x, x = p.stb.cbSend.contents.take l := ⟨_, rfl⟩
    have hlen : piece.length = l := by rw [hpiece, hl.length_take]
    have hsmss := hl.le_smss
    have hpos := hl.pos
    have hnxt : (afterSegment now p l).stb.tc.sndNxt = p.stb.tc.sndNxt + piece.length := by
      rw [hlen]
      rfl
    refine ⟨piece :: pieces, ⟨?_, ?_, ?_, ?_, ?_, ?_, ?_, he.stp_eq, he.ackdeque_eq⟩⟩
    · rw [he.sent_eq, hnxt, numbered, List.map_cons, hpiece]
      unfold afterSegment
      rw [List.append_assoc]
      rfl
    · have hrest : (afterSegment now p l).stb.cbSend.contents = p.stb.cbSend.contents.drop l :=
        contents_takenTable (by unfold touSmss at hsmss; omega)
      rw [List.flatten_cons, List.append_assoc, he.contents_eq, hrest, hpiece, List.take_append_drop]
    · intro x hx
      rcases List.mem_cons.mp hx with rfl | hx
      · omega
      · exact he.size_le x hx
    · rw [he.sndNxt_eq, hnxt, List.flatten_cons, List.length_append]
      omega
    · intro _
      have hw := hl.in_window
      cases pieces with
      | nil =>
        rw [he.sndNxt_eq, hnxt, List.flatten_nil, List.length_nil]
        omega
      | cons x xs => exact he.in_window (List.cons_ne_nil x xs)
    · have hadd : (afterSegment now p l).timerheap.elems.Perm
          (p.timerheap.elems ++ [sentNode now p (p.stb.tc.sndNxt, piece)]) := by
        have hend : endOf (p.stb.tc.sndNxt, piece) = p.stb.tc.sndNxt + l := by
          unfold endOf
          simp only [hlen]
        unfold sentNode
        rw [hend, hpiece]
        exact (MinHeap.push_perm _ _).trans (List.perm_append_singleton _ _).symm
      have hq := he.heap_perm
      rw [hnxt] at hq
      refine hq.trans ((hadd.append_right _).trans ?_)
      rw [List.append_assoc, numbered, List.map_cons]
      exact List.Perm.refl _
    · rw [he.table_eq]
      rfl

/-- Every call of `send` returns, and has sent pieces from the front of `cb_send`. -/
theorem send_emitted (now : ℕ) (p : Process) :
    ∃ q pieces, send now p = .ok q ∧ Emitted now p pieces q := by
  obtain ⟨ls, q, hq, he⟩ := send_emits now p
  obtain ⟨pieces, hp⟩ := he.emitted
  exact ⟨q, pieces, hq, hp⟩

theorem send_ok {now : ℕ} {p q : Process} (h : send now p = .ok q) :
    ∃ pieces, Emitted now p pieces q := by
  obtain ⟨q', pieces, hq', hp⟩ := send_emitted now p
  rw [hq'] at h
  cases h
  exact ⟨pieces, hp⟩

/-- `send` cuts the front of `cb_send` into contiguous segments of 1 to `TOU_SMSS` bytes within the
send window, and arms one timer for each. -/
theorem send_segmentation (now : ℕ) (p : Process) :
    ∃ q pieces, send now p = .ok q ∧
      q.sent = p.sent ++ (numbered p.stb.tc.sndNxt pieces).map (sentTx p.stb) ∧
      pieces.flatten ++ q.stb.cbSend.contents = p.stb.cbSend.contents ∧
      (∀ x ∈ pieces, 1 ≤ x.length ∧ x.length ≤ touSmss) ∧
      q.stb.tc.sndNxt = p.stb.tc.sndNxt + pieces.flatten.length ∧
      (pieces ≠ [] → q.stb.tc.sndNxt ≤ p.stb.tc.sndUna + p.stb.tc.getwnd) ∧
      ∃ nodes, q.timerheap.elems.Perm (p.timerheap.elems ++ nodes) ∧
        nodes.map (fun n => (n.cId, n.tId, n.pId)) = (numbered p.stb.tc.sndNxt pieces).map
          (fun s => (p.stb.sockd, timerIdSndpkt, s.1 + s.2.length)) := by
  obtain ⟨q, pieces, hq, he⟩ := send_emitted now p
  refine ⟨q, pieces, hq, he.sent_eq, he.contents_eq, he.size_le, he.sndNxt_eq, ?_, _, he.heap_perm, ?_⟩
  · intro hne
    exact le_trans (he.in_window hne) (windowEdge_le p.stb)
  · rw [List.map_map]
    rfl

end Process
end TcpOverUdp
