import TcpOverUdp.Proof.Recovery
import TcpOverUdp.Proof.Segment

/-! # The packets that recovery moves

On packets that do not overlap, `do_proc_pkt_rec` moves a contiguous chain that begins at `rcv_nxt`, and
stops at a gap or at a packet that `cb_recv` refuses (`RecoverySpec`). Calls that alternate with reads,
until one answers 0, come to what one call would with unlimited space
(`recovery_exact_resumable`).
-/
namespace TcpOverUdp
open MachineInt
set_option autoImplicit false

namespace Process

/-- The packets `l`, one after the other, cover the numbers from `s` to `e`. -/
def Chain (s : ℕ) : List TouPkg → ℕ → Prop
  | [], e => e = s
  | p :: l, e => p.t.seq = s ∧ Chain (s + p.buf.length) l e

def payloads (l : List TouPkg) : List Byte := (l.map TouPkg.buf).flatten

/-- The packets held have payloads, begin at or above `rcv_nxt` and do not overlap. -/
structure Held (stb : SockTb) : Prop where
  rcvNxt_lt : stb.tc.rcvNxt < 4294967296
  nonempty : ∀ p ∈ stb.minhpRecv.elems, p.buf ≠ []
  words : ∀ p ∈ stb.minhpRecv.elems, p.t.seq < 4294967296 ∧ p.buf.length < 4294967296
  above : ∀ p ∈ stb.minhpRecv.elems, stb.tc.rcvNxt ≤ p.t.seq
  disjoint : stb.minhpRecv.elems.Pairwise fun a b =>
    a.t.seq + a.buf.length ≤ b.t.seq ∨ b.t.seq + b.buf.length ≤ a.t.seq

/-- A call from `stb` that answers `ret` and leaves `q` has moved the packets `moved`. -/
structure RecoverySpec (stb : SockTb) (moved : List TouPkg) (ret : ℤ) (q : SockTb) : Prop where
  popped : stb.minhpRecv.elems = moved ++ q.minhpRecv.elems
  chain : ∃ e, Chain stb.tc.rcvNxt moved e ∧ q.tc.rcvNxt = u32 e
  appended : q.cbRecv.contents = stb.cbRecv.contents ++ payloads moved
  above : ∀ p ∈ q.minhpRecv.elems, q.tc.rcvNxt ≤ p.t.seq
  refused : ret = -1 ↔ ∃ top, q.minhpRecv.top? = some top ∧ top.t.seq = q.tc.rcvNxt ∧
    ¬ (putcircbuf q top.buf top.buf.length).1 > 0
  finished : ret ≠ -1 → ret = 0 ∧ ∀ p ∈ q.minhpRecv.elems, p.t.seq ≠ q.tc.rcvNxt
  table_eq : q = { stb with
    cbRecv := q.cbRecv
    minhpRecv := q.minhpRecv
    tc := { stb.tc with rcvNxt := q.tc.rcvNxt } }

section Held
variable {stb : SockTb}

theorem Held.top_end (hh : Held stb) {top p : TouPkg} (ht : stb.minhpRecv.top? = some top)
    (hp : p ∈ stb.minhpRecv.pop.elems) : top.t.seq + top.buf.length ≤ p.t.seq := by
  have hd := hh.disjoint
  rw [MinHeap.top?_eq_some ht] at hd
  have hle := MinHeap.top?_le ht (MinHeap.mem_of_mem_pop hp)
  have hpos := List.length_pos_iff.mpr (hh.nonempty p (MinHeap.mem_of_mem_pop hp))
  rcases (List.pairwise_cons.mp hd).1 p hp with h | h
  · exact h
  · omega

/-- If the end of the top wraps around, nothing else is held. -/
theorem Held.no_wrap (hh : Held stb) {top p : TouPkg} (ht : stb.minhpRecv.top? = some top)
    (hp : p ∈ stb.minhpRecv.pop.elems) :
    u32 ((top.t.seq : ℤ) + top.buf.length) = top.t.seq + top.buf.length := by
  have hend := hh.top_end ht hp
  have hlt := (hh.words p (MinHeap.mem_of_mem_pop hp)).1
  exact u32_add _ _ (by omega)

theorem Held.of_moved (hh : Held stb) {top : TouPkg} {cb : SockBuf} (ht : stb.minhpRecv.top? = some top) :
    Held (movedTable stb top cb) where
  rcvNxt_lt := u32_lt ((top.t.seq : ℤ) + top.buf.length)
  nonempty p hp := hh.nonempty p (MinHeap.mem_of_mem_pop hp)
  words p hp := hh.words p (MinHeap.mem_of_mem_pop hp)
  above p hp := by
    show u32 ((top.t.seq : ℤ) + top.buf.length) ≤ p.t.seq
    rw [hh.no_wrap ht hp]
    exact hh.top_end ht hp
  disjoint := hh.disjoint.sublist (List.tail_sublist _)

theorem Held.of_buffer (hh : Held stb) (cb : SockBuf) : Held { stb with cbRecv := cb } :=
  ⟨hh.rcvNxt_lt, hh.nonempty, hh.words, hh.above, hh.disjoint⟩

end Held

theorem Offered.unchanged {stb : SockTb} {top : TouPkg} {n : ℤ} {cb : SockBuf} (hh : Held stb)
    (h : Offered stb top n cb) (hn : ¬ n > 0) :
    { stb with cbRecv := cb } = stb ∧ (putcircbuf stb top.buf top.buf.length).1 = 0 := by
  have hmem := MinHeap.mem_of_top? h.top_eq
  have hpos := List.length_pos_iff.mpr (hh.nonempty top hmem)
  have hput := h.put_eq
  by_cases hroom : (top.buf.length : ℤ) < stb.cbRecv.getAvSize
  · obtain ⟨cb', _, hput'⟩ := putcircbuf_room stb hpos hroom
    have hret := congrArg Prod.fst (hput.symm.trans hput')
    simp only at hret
    omega
  · have hno := putcircbuf_no_room (hh.words top hmem).2 hroom
    rw [hno]
    exact ⟨congrArg Prod.snd (hput.symm.trans hno), rfl⟩

theorem Offered.appended {stb : SockTb} {top : TouPkg} {n : ℤ} {cb : SockBuf} (hh : Held stb)
    (h : Offered stb top n cb) (hn : n > 0) : cb.contents = stb.cbRecv.contents ++ top.buf := by
  have hmem := MinHeap.mem_of_top? h.top_eq
  have hpos := List.length_pos_iff.mpr (hh.nonempty top hmem)
  have hput := h.put_eq
  by_cases hroom : (top.buf.length : ℤ) < stb.cbRecv.getAvSize
  · obtain ⟨cb', hcb, hput'⟩ := putcircbuf_room stb hpos hroom
    have htable := congrArg Prod.snd (hput.symm.trans hput')
    have hsame : cb = cb' := congrArg SockTb.cbRecv htable
    rw [hsame, hcb]
  · have hno := putcircbuf_no_room (hh.words top hmem).2 hroom
    have hret := congrArg Prod.fst (hput.symm.trans hno)
    simp only at hret
    omega

theorem u32_u32 (x : ℤ) : u32 (u32 x) = u32 x := u32_cast _ (u32_lt x)

theorem Held.stopped {stb : SockTb} {ret : ℤ} (hh : Held stb)
    (hrefused : ret = -1 ↔ ∃ top, stb.minhpRecv.top? = some top ∧ top.t.seq = stb.tc.rcvNxt ∧
      ¬ (putcircbuf stb top.buf top.buf.length).1 > 0)
    (hfinished : ret ≠ -1 → ret = 0 ∧ ∀ p ∈ stb.minhpRecv.elems, p.t.seq ≠ stb.tc.rcvNxt) :
    RecoverySpec stb [] ret stb where
  popped := rfl
  chain := ⟨stb.tc.rcvNxt, rfl, (u32_cast _ hh.rcvNxt_lt).symm⟩
  appended := (List.append_nil _).symm
  above := hh.above
  refused := hrefused
  finished := hfinished
  table_eq := rfl

theorem RecoverySpec.cons {stb : SockTb} {top : TouPkg} {n : ℤ} {cb : SockBuf} {moved : List TouPkg}
    {ret : ℤ} {q : SockTb} (hh : Held stb) (hoff : Offered stb top n cb) (hn : n > 0)
    (h : RecoverySpec (movedTable stb top cb) moved ret q) : RecoverySpec stb (top :: moved) ret q where
  popped := by
    rw [MinHeap.top?_eq_some hoff.top_eq, List.cons_append]
    exact congrArg (top :: ·) h.popped
  chain := by
    have hpopped : stb.minhpRecv.pop.elems = moved ++ q.minhpRecv.elems := h.popped
    obtain ⟨e, hchain, hnxt⟩ := h.chain
    have hchain : Chain (u32 ((top.t.seq : ℤ) + top.buf.length)) moved e := hchain
    cases moved with
    | nil =>
      refine ⟨stb.tc.rcvNxt + top.buf.length, ⟨hoff.seq_eq, rfl⟩, ?_⟩
      have he : e = u32 ((top.t.seq : ℤ) + top.buf.length) := hchain
      rw [hnxt, he, u32_u32, hoff.seq_eq]
      push_cast
      rfl
    | cons p l =>
      have hp : p ∈ stb.minhpRecv.pop.elems := by
        rw [hpopped]
        exact List.mem_cons_self
      refine ⟨e, ⟨hoff.seq_eq, ?_⟩, hnxt⟩
      rw [hh.no_wrap hoff.top_eq hp, hoff.seq_eq] at hchain
      exact hchain
  appended := by
    have happ : q.cbRecv.contents = cb.contents ++ payloads moved := h.appended
    rw [happ, hoff.appended hh hn, List.append_assoc]
    rfl
  above := h.above
  refused := h.refused
  finished := h.finished
  table_eq := h.table_eq

theorem Recovery.spec {stb : SockTb} {r : Except Halt (ℤ × SockTb)} (h : Recovery stb r) (hh : Held stb) :
    ∃ moved ret q, r = .ok (ret, q) ∧ RecoverySpec stb moved ret q := by
  induction h with
  | @empty stb ht =>
    refine ⟨[], 0, stb, rfl, hh.stopped (iff_of_false (by decide) ?_) (fun _ => ⟨rfl, ?_⟩)⟩
    · rintro ⟨top, htop, _⟩
      rw [ht] at htop
      cases htop
    · intro p hp
      rw [MinHeap.top?_eq_none.mp ht] at hp
      cases hp
  | @gap stb top ht hlt =>
    refine ⟨[], 0, stb, rfl, hh.stopped (iff_of_false (by decide) ?_) (fun _ => ⟨rfl, ?_⟩)⟩
    · rintro ⟨top', htop, hseq, _⟩
      rw [ht] at htop
      cases htop
      omega
    · intro p hp
      have hle := MinHeap.top?_le ht hp
      omega
  | @refused stb top n cb hoff hn =>
    obtain ⟨hsame, hput⟩ := hoff.unchanged hh hn
    rw [hsame]
    refine ⟨[], -1, stb, rfl, hh.stopped (iff_of_true rfl ⟨top, hoff.top_eq, hoff.seq_eq, ?_⟩)
      (fun hne => absurd rfl hne)⟩
    omega
  | @failed stb top ht hlt =>
    have hge := hh.above top (MinHeap.mem_of_top? ht)
    omega
  | @moved stb top n cb r hoff hn _ ih =>
    obtain ⟨moved, ret, q, hr, hspec⟩ := ih (hh.of_moved hoff.top_eq)
    exact ⟨top :: moved, ret, q, hr, hspec.cons hh hoff hn⟩

theorem RecoverySpec.held {stb q : SockTb} {moved : List TouPkg} {ret : ℤ} (hh : Held stb)
    (h : RecoverySpec stb moved ret q) : Held q := by
  have hsub : q.minhpRecv.elems.Sublist stb.minhpRecv.elems := by
    rw [h.popped]
    exact List.sublist_append_right _ _
  obtain ⟨e, _, hnxt⟩ := h.chain
  exact ⟨hnxt ▸ u32_lt e, fun p hp => hh.nonempty p (hsub.subset hp), fun p hp => hh.words p (hsub.subset hp),
    h.above, hh.disjoint.sublist hsub⟩

/-! ## Calls that alternate with reads -/

/-- Reads of `cb_recv`, any number of them. -/
def reads (stb : SockTb) (lens : List ℤ) : SockTb :=
  { stb with cbRecv := lens.foldl (fun cb len => (cb.remove len).2) stb.cbRecv }

/-- Calls of `do_proc_pkt_rec`, each after the first preceded by reads, until one answers 0. The list
is what they append to `cb_recv`. -/
inductive Resumed : SockTb → List Byte → SockTb → Prop
  | last {stb q : SockTb} {bytes : List Byte} (h : doProcPktRec stb = .ok (0, q))
      (hb : q.cbRecv.contents = stb.cbRecv.contents ++ bytes) : Resumed stb bytes q
  | again {stb q r : SockTb} {bytes rest : List Byte} (h : doProcPktRec stb = .ok (-1, q))
      (hb : q.cbRecv.contents = stb.cbRecv.contents ++ bytes) (lens : List ℤ)
      (hr : Resumed (reads q lens) rest r) : Resumed stb (bytes ++ rest) r

/-- The loop of `do_proc_pkt_rec` with a buffer that takes every packet: the specification to which
interrupted recoveries are compared. `rcv_nxt`, the heap and the bytes appended are its state. -/
def unlimitedRecovery : ℕ → ℕ → PktHeap → List Byte → Except Halt (ℕ × PktHeap × List Byte)
  | 0, nxt, h, bytes => .ok (nxt, h, bytes)
  | k + 1, nxt, h, bytes =>
    match h.top? with
    | none => .ok (nxt, h, bytes)
    | some top =>
      if top.t.seq ≥ nxt then
        if top.t.seq = nxt then
          unlimitedRecovery k (u32 ((top.t.seq : ℤ) + top.buf.length)) h.pop (bytes ++ top.buf)
        else .ok (nxt, h, bytes)
      else .error (.assertFail .doProcPktRec)

/-- The specification goes through everything that an interrupted call goes through. -/
structure Follows (stb q : SockTb) (bytes : List Byte) (m : ℕ) : Prop where
  appended : q.cbRecv.contents = stb.cbRecv.contents ++ bytes
  size_eq : stb.minhpRecv.size = q.minhpRecv.size + m
  unlimited : ∀ k acc, unlimitedRecovery (k + m) stb.tc.rcvNxt stb.minhpRecv acc =
    unlimitedRecovery k q.tc.rcvNxt q.minhpRecv (acc ++ bytes)

theorem Follows.refl (stb : SockTb) : Follows stb stb [] 0 :=
  ⟨(List.append_nil _).symm, rfl, fun k acc => by rw [List.append_nil]; rfl⟩

theorem Follows.cons {stb q : SockTb} {top : TouPkg} {n : ℤ} {cb : SockBuf} {bytes : List Byte} {m : ℕ}
    (hh : Held stb) (hoff : Offered stb top n cb) (hn : n > 0)
    (h : Follows (movedTable stb top cb) q bytes m) : Follows stb q (top.buf ++ bytes) (m + 1) where
  appended := by
    have happ : q.cbRecv.contents = cb.contents ++ bytes := h.appended
    rw [happ, hoff.appended hh hn, List.append_assoc]
  size_eq := by
    have hsize : stb.minhpRecv.pop.size = q.minhpRecv.size + m := h.size_eq
    have hpos := MinHeap.size_pos_of_top? hoff.top_eq
    rw [MinHeap.size_pop] at hsize
    omega
  unlimited := by
    intro k acc
    rw [← add_assoc, unlimitedRecovery]
    simp only [hoff.top_eq]
    rw [if_pos hoff.seq_eq.ge, if_pos hoff.seq_eq, ← List.append_assoc]
    exact h.unlimited k (acc ++ top.buf)

theorem Recovery.follows {stb : SockTb} {r : Except Halt (ℤ × SockTb)} (h : Recovery stb r)
    (hh : Held stb) {ret : ℤ} {q : SockTb} (hr : r = .ok (ret, q)) : ∃ bytes m, Follows stb q bytes m := by
  induction h with
  | empty | gap =>
    cases hr
    exact ⟨[], 0, Follows.refl _⟩
  | refused hoff hn =>
    cases hr
    rw [(hoff.unchanged hh hn).1]
    exact ⟨[], 0, Follows.refl _⟩
  | failed => cases hr
  | moved hoff hn _ ih =>
    obtain ⟨bytes, m, hf⟩ := ih (hh.of_moved hoff.top_eq) hr
    exact ⟨_, m + 1, hf.cons hh hoff hn⟩

theorem doProcPktRec_call {stb q : SockTb} {ret : ℤ} {bytes : List Byte} (hh : Held stb)
    (h : doProcPktRec stb = .ok (ret, q)) (hb : q.cbRecv.contents = stb.cbRecv.contents ++ bytes) :
    (∃ moved, RecoverySpec stb moved ret q) ∧ ∃ m, Follows stb q bytes m := by
  have hrec := doProcPktRecLoop_recovery _ stb (le_refl _)
  rw [show doProcPktRecLoop stb.minhpRecv.size stb = .ok (ret, q) from h] at hrec
  obtain ⟨moved, ret', q', hr, hspec⟩ := hrec.spec hh
  cases hr
  obtain ⟨bytes', m, hf⟩ := hrec.follows hh rfl
  have heq : bytes' = bytes := List.append_cancel_left (hf.appended.symm.trans hb)
  exact ⟨⟨moved, hspec⟩, m, heq ▸ hf⟩

theorem Held.reads {stb : SockTb} (hh : Held stb) (lens : List ℤ) : Held (reads stb lens) :=
  hh.of_buffer _

theorem Resumed.unlimited {stb r : SockTb} {bytes : List Byte} (h : Resumed stb bytes r)
    (hh : Held stb) (k : ℕ) (hk : stb.minhpRecv.size ≤ k) (acc : List Byte) :
    unlimitedRecovery k stb.tc.rcvNxt stb.minhpRecv acc = .ok (r.tc.rcvNxt, r.minhpRecv, acc ++ bytes) := by
  induction h generalizing k acc with
  | @last stb q bytes hcall hb =>
    obtain ⟨⟨moved, hspec⟩, m, hf⟩ := doProcPktRec_call hh hcall hb
    obtain ⟨_, hgap⟩ := hspec.finished (by decide)
    have hsize := hf.size_eq
    obtain ⟨k', rfl⟩ : ∃ k', k = k' + m := ⟨k - m, by omega⟩
    rw [hf.unlimited]
    cases k' with
    | zero => rfl
    | succ k' =>
      rw [unlimitedRecovery]
      cases ht : q.minhpRecv.top? with
      | none => rfl
      | some top =>
        have hmem := MinHeap.mem_of_top? ht
        simp only
        rw [if_pos (hspec.above top hmem), if_neg (hgap top hmem)]
  | @again stb q r bytes rest hcall hb lens _ ih =>
    obtain ⟨⟨moved, hspec⟩, m, hf⟩ := doProcPktRec_call hh hcall hb
    have hsize := hf.size_eq
    obtain ⟨k', rfl⟩ : ∃ k', k = k' + m := ⟨k - m, by omega⟩
    rw [hf.unlimited, ← List.append_assoc]
    exact ih ((hspec.held hh).reads lens) k' (show q.minhpRecv.size ≤ k' by omega) (acc ++ bytes)

/-- A call moves a contiguous chain of packets from `rcv_nxt` on and leaves the rest, whatever room there
is; and calls that alternate with reads until one answers 0 reach the `rcv_nxt`, and append the bytes,
of one call with unlimited space. -/
theorem recovery_exact_resumable (stb : SockTb) (hh : Held stb) :
    (∀ k, stb.minhpRecv.size ≤ k →
      ∃ moved ret q, doProcPktRecLoop k stb = .ok (ret, q) ∧ RecoverySpec stb moved ret q) ∧
    ∀ bytes r, Resumed stb bytes r →
      unlimitedRecovery stb.minhpRecv.size stb.tc.rcvNxt stb.minhpRecv [] =
        .ok (r.tc.rcvNxt, r.minhpRecv, bytes) := by
  constructor
  · intro k hk
    exact (doProcPktRecLoop_recovery k stb hk).spec hh
  · intro bytes r h
    exact h.unlimited hh _ (le_refl _) []

/-- Two segments of one byte that arrived in the wrong order. -/
def twoHeld : SockTb :=
  (((SockTb.init 3).setTCBRcv 1).pushHpRecvBuf (TouPkg.segment 2 0 [66])).pushHpRecvBuf
    (TouPkg.segment 1 0 [65])

theorem held_twoHeld : Held twoHeld where
  rcvNxt_lt := by decide
  nonempty := by decide
  words := by decide
  above := by decide
  disjoint := by decide

theorem recovery_exact_resumable_two :
    ∃ moved ret q, doProcPktRecLoop 2 twoHeld = .ok (ret, q) ∧ RecoverySpec twoHeld moved ret q :=
  (recovery_exact_resumable twoHeld held_twoHeld).1 2 (by decide)

end Process
end TcpOverUdp
