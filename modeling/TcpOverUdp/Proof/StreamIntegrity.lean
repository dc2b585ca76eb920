import TcpOverUdp.Proof.Sessions
import TcpOverUdp.Proof.InOrder

/-! # A receiver and one stream

Segments of one stream reach `run` in any order, with losses and repetitions, while the application
takes bytes out of `cb_recv`. As long as every segment that is taken in order fits, the receiver holds
the stream up to `rcv_nxt`. A full `cb_recv` loses a segment that is acknowledged all the same.
-/
namespace TcpOverUdp
open MachineInt Pieces
set_option autoImplicit false

namespace Process

/-- The packet is a data segment cut from the stream, anywhere. -/
structure IsCut (stream : List Byte) (tp : TouPkg) : Prop where
  data : IsData tp
  buf_eq : tp.buf = stream.extract tp.t.seq (tp.t.seq + tp.buf.length)
  end_le : tp.t.seq + tp.buf.length ≤ stream.length

theorem IsCut.cutFrom {stream : List Byte} {tp : TouPkg} (h : IsCut stream tp) :
    CutFrom stream (fun _ => True) tp :=
  ⟨h.data.pos, fun _ => h.buf_eq, fun _ => h.end_le, fun _ => trivial⟩

/-- A receiver and the bytes that were taken out of its `cb_recv`. -/
structure Receiving where
  pr : Process
  removed : List Byte

/-- `getAt` and `remove` of the same size: what the application reads and takes. -/
def Receiving.take (x : Receiving) (n : ℤ) : Receiving :=
  { pr := x.pr.setTable { x.pr.stb with cbRecv := (x.pr.stb.cbRecv.remove n).2 }
    removed := x.removed ++ (x.pr.stb.cbRecv.getAt n).2 }

/-- One operation at the receiver. `C` is a condition on the calls of `run`. -/
inductive ReceivingStep (stream : List Byte) (C : Process → List Datagram → Prop) :
    Receiving → Receiving → Prop
  | run {x : Receiving} {now : ℕ} {pending : List Datagram} {r : RunRes}
      (hcut : ∀ d ∈ pending, IsCut stream (recvPkg d)) (hC : C x.pr pending)
      (h : Process.run now x.pr pending = .ok r) :
      ReceivingStep stream C x { x with pr := r.pr }
  | take (x : Receiving) (n : ℤ) : ReceivingStep stream C x (x.take n)

section Receiving
variable {stream : List Byte} {start : ℕ}

theorem stores_run {B : ℕ → Prop} {D : Datagram → Prop} {removed : List Byte}
    (hlen : stream.length < 4294967296)
    (hD : ∀ d, D d → IsData (recvPkg d) ∧ CutFrom stream B (recvPkg d)) {p : Process} {now : ℕ}
    {pending : List Datagram} {r : RunRes} (hpend : ∀ d ∈ pending, D d)
    (hroom : RoomForNext p pending) (hs : Stores stream B start removed p.stb)
    (h : Process.run now p pending = .ok r) : Stores stream B start removed r.pr.stb := by
  obtain ⟨s, ⟨hs', _⟩, hr⟩ := run_inv h hpend
    (fun s => Stores stream B start removed s.pr.stb ∧ Gated p pending s) ⟨hs, gated_start p pending⟩
    (by
      rintro s s' _ hok ⟨hst, hg⟩ ht
      have hsyn : s.state ≠ .procSyn := by
        intro hsyn
        obtain ⟨d, hd⟩ := hok.handling (by rw [hsyn]; trivial)
        have hc := hd.classified
        rw [hsyn] at hc
        cases classified_of_ok hc with
        | syn h => exact absurd (hD d hd.given).1.syn (by rw [h]; decide)
      exact ⟨hst.turn hlen (fun d hd _ => (hD d hd).2) hsyn hg.room ht, hg.turn hroom ht⟩)
  rw [hr]
  exact hs'

theorem Receiving.take_stores {B : ℕ → Prop} {x : Receiving} (n : ℤ)
    (hs : Stores stream B start x.removed x.pr.stb) :
    Stores stream B start (x.take n).removed (x.take n).pr.stb := by
  have hget := (x.pr.stb.cbRecv.getAt_spec n).2
  have hrem := (x.pr.stb.cbRecv.remove_spec n).2
  refine ⟨hs.boundary, hs.start_le, hs.le_length, ?_, hs.held⟩
  show (x.removed ++ (x.pr.stb.cbRecv.getAt n).2) ++ (x.pr.stb.cbRecv.remove n).2.contents =
    stream.extract start x.pr.stb.tc.rcvNxt
  rw [hget, hrem, List.append_assoc, List.take_append_drop, hs.stored]

theorem ReceivingStep.stores (hlen : stream.length < 4294967296) {x y : Receiving}
    (h : ReceivingStep stream RoomForNext x y)
    (hs : Stores stream (fun _ => True) start x.removed x.pr.stb) :
    Stores stream (fun _ => True) start y.removed y.pr.stb := by
  cases h with
  | run hcut hC h =>
    exact stores_run (D := fun d => IsCut stream (recvPkg d)) hlen
      (fun d hd => ⟨hd.data, hd.cutFrom⟩) hcut hC hs h
  | take n => exact Receiving.take_stores n hs

/-- In every run in which the segments taken in order fit, the receiver has stored the stream up to
`rcv_nxt`: what was taken out of `cb_recv`, followed by what is in it. -/
theorem stream_integrity (stream : List Byte) (hlen : stream.length < 4294967296) (x₀ x : Receiving)
    (hrcv : x₀.pr.stb.tc.rcvNxt ≤ stream.length) (hempty : x₀.pr.stb.cbRecv.contents = [])
    (hremoved : x₀.removed = []) (hheld : ∀ pkt ∈ x₀.pr.stb.minhpRecv.elems, IsCut stream pkt)
    (hrun : Relation.ReflTransGen (ReceivingStep stream RoomForNext) x₀ x) :
    x.removed ++ x.pr.stb.cbRecv.contents =
        stream.extract x₀.pr.stb.tc.rcvNxt x.pr.stb.tc.rcvNxt ∧
      x.pr.stb.tc.rcvNxt = x₀.pr.stb.tc.rcvNxt + (x.removed ++ x.pr.stb.cbRecv.contents).length := by
  have hs₀ : Stores stream (fun _ => True) x₀.pr.stb.tc.rcvNxt x₀.removed x₀.pr.stb :=
    ⟨trivial, le_refl _, hrcv, by rw [hempty, hremoved, extract_self]; rfl,
      fun pkt hp => (hheld pkt hp).cutFrom⟩
  have hs := reach_inv (fun y : Receiving =>
    Stores stream (fun _ => True) x₀.pr.stb.tc.rcvNxt y.removed y.pr.stb)
    (fun _ _ hs hst => hst.stores hlen hs) hs₀ hrun
  refine ⟨hs.stored, ?_⟩
  have hle := hs.start_le
  rw [hs.stored, length_extract _ hs.le_length]
  omega

end Receiving

/-! ## A segment that does not fit -/

/-- A stream of zeros: one byte more than 4322 full segments, numbered from 1. -/
def zeroStream : List Byte := List.replicate 6292833 0

def zeroSegment (k : ℕ) : Datagram := segmentFrom ⟨2, 80⟩ (1 + 1456 * k) 1 (List.replicate 1456 0)

theorem recvPkg_zeroSegment {k : ℕ} (hk : k < 4322) :
    recvPkg (zeroSegment k) = TouPkg.segment (1 + 1456 * k) 1 (List.replicate 1456 0) :=
  recvPkg_segmentFrom _ (by omega) (by omega) (by rw [List.length_replicate]; decide)

theorem isCut_zeroSegment {k : ℕ} (hk : k < 4322) : IsCut zeroStream (recvPkg (zeroSegment k)) := by
  rw [recvPkg_zeroSegment hk]
  refine ⟨isData_segment (by rw [List.length_replicate]; decide), ?_, ?_⟩
  · unfold zeroStream
    rw [TouPkg.segment_seq, TouPkg.segment_buf, List.length_replicate, List.extract_eq_take_drop,
      List.drop_replicate, List.take_replicate]
    congr 1
    omega
  · unfold zeroStream
    rw [TouPkg.segment_seq, TouPkg.segment_buf, List.length_replicate, List.length_replicate]
    omega

/-- A segment in order is acknowledged, and it is stored if there is room. -/
theorem Idle.run_zeroSegment {p : Process} {k : ℕ} (hp : Idle p) (hk : k < 4322)
    (hrcv : p.stb.tc.rcvNxt = 1 + 1456 * k) :
    ∃ r, run 5 p [zeroSegment k] = .ok r ∧ Idle r.pr ∧ r.pr.stb.tc.rcvNxt = 1 + 1456 * (k + 1) ∧
      r.pr.timerheap = p.timerheap ∧ r.pr.stb.cbRecv.contents.length =
        if p.stb.cbRecv.contents.length + 1456 < touMaxCircularBuf
          then p.stb.cbRecv.contents.length + 1456 else p.stb.cbRecv.contents.length := by
  have hpkt := recvPkg_zeroSegment hk
  have hlen : (recvPkg (zeroSegment k)).buf.length = 1456 := by
    rw [hpkt, TouPkg.segment_buf, List.length_replicate]
  have hseq : (recvPkg (zeroSegment k)).t.seq = 1 + 1456 * k := by rw [hpkt, TouPkg.segment_seq]
  obtain ⟨cb, q, hcb, hq, hidle, hrun⟩ := hp.run_inOrder 5 (isCut_zeroSegment hk).data
    (hseq.trans hrcv.symm) (by omega)
  have hsame := (procDelack_effect hq).recvSame
  have hheap : q.timerheap = p.timerheap := by
    rw [(procDelack_effect hq).heap_eq]
    unfold setTable
    simp only
  refine ⟨_, hrun, hidle, ?_, hheap, ?_⟩
  · have hnext : q.stb.tc.rcvNxt = (recvPkg (zeroSegment k)).t.seq +
        (recvPkg (zeroSegment k)).buf.length := hsame.rcvNxt_eq
    show q.stb.tc.rcvNxt = _
    omega
  · have hcq : q.stb.cbRecv = cb := hsame.cbRecv_eq
    have havail := p.stb.cbRecv.getAvSize_eq
    show q.stb.cbRecv.contents.length = _
    rw [hcq]
    by_cases hroom : p.stb.cbRecv.contents.length + 1456 < touMaxCircularBuf
    · rw [if_pos hroom, hcb.room (by omega), List.length_append, hlen]
    · rw [if_neg hroom, hcb.no_room (by omega)]

/-- A receiver that was sent the first `k` segments, of which `j` are stored. -/
structure Filled (k j : ℕ) (x : Receiving) : Prop where
  idle : Idle x.pr
  rcvNxt_eq : x.pr.stb.tc.rcvNxt = 1 + 1456 * k
  stored : x.pr.stb.cbRecv.contents.length = 1456 * j
  removed_eq : x.removed = []

/-- The next segment is acknowledged, and it is stored if there is room. -/
theorem Filled.next {k j : ℕ} {x : Receiving} (hx : Filled k j x) (hk : k < 4322) :
    ∃ y, ReceivingStep zeroStream (fun _ _ => True) x y ∧
      Filled (k + 1) (if 1456 * j + 1456 < touMaxCircularBuf then j + 1 else j) y := by
  obtain ⟨r, hrun, hidle, hrcv, _, hstored⟩ := hx.idle.run_zeroSegment hk hx.rcvNxt_eq
  rw [hx.stored] at hstored
  refine ⟨{ x with pr := r.pr }, @ReceivingStep.run _ _ _ _ [zeroSegment k] _ ?_ trivial hrun, hidle,
    hrcv, ?_, hx.removed_eq⟩
  · intro d hd
    rw [List.mem_singleton.mp hd]
    exact isCut_zeroSegment hk
  · show r.pr.stb.cbRecv.contents.length = _
    rw [hstored]
    split <;> ring

theorem filled_reachable {x₀ : Receiving} (h₀ : Filled 0 0 x₀) (k : ℕ) (hk : k ≤ 4321) :
    ∃ x, Relation.ReflTransGen (ReceivingStep zeroStream fun _ _ => True) x₀ x ∧ Filled k k x := by
  induction k with
  | zero => exact ⟨x₀, Relation.ReflTransGen.refl, h₀⟩
  | succ k ih =>
    obtain ⟨x, hx, hfill⟩ := ih (by omega)
    obtain ⟨y, hy, hnext⟩ := hfill.next (by omega)
    have hroom : 1456 * k + 1456 < touMaxCircularBuf := by
      unfold touMaxCircularBuf
      omega
    rw [if_pos hroom] at hnext
    exact ⟨y, hx.tail hy, hnext⟩

/-- The 4322nd segment is acknowledged and lost. -/
theorem full_buffer_loses : ∃ x₀ x, Opened x₀.pr ∧ x₀.pr.stb.tc.rcvNxt = 1 ∧
    x₀.pr.stb.cbRecv.contents = [] ∧ x₀.removed = [] ∧
    Relation.ReflTransGen (ReceivingStep zeroStream fun _ _ => True) x₀ x ∧
    x.removed ++ x.pr.stb.cbRecv.contents ≠ zeroStream.extract 1 x.pr.stb.tc.rcvNxt := by
  obtain ⟨p, _, hopen, hrcv⟩ := exists_client
  have hf := hopen.fresh.1
  have h₀ : Filled 0 0 { pr := p, removed := [] } :=
    ⟨⟨hopen.fresh.2, hf.runstate, hf.minhpRecv, hf.ackReady⟩, hrcv, by simp [hf.cbRecv], rfl⟩
  obtain ⟨x, hx, hfill⟩ := filled_reachable h₀ 4321 (le_refl _)
  obtain ⟨y, hy, hlost⟩ := hfill.next (by omega)
  have hroom : ¬ 1456 * 4321 + 1456 < touMaxCircularBuf := by
    unfold touMaxCircularBuf
    omega
  rw [if_neg hroom] at hlost
  refine ⟨_, y, hopen, hrcv, hf.cbRecv, rfl, hx.tail hy, ?_⟩
  intro heq
  have hlen := congrArg List.length heq
  rw [hlost.removed_eq, List.nil_append, hlost.stored, hlost.rcvNxt_eq,
    length_extract _ (by unfold zeroStream; rw [List.length_replicate])] at hlen
  omega

theorem stream_integrity_client : ∃ p r, Opened p ∧
    run 5 p [segmentFrom ⟨2, 80⟩ 1 1 [65]] = .ok r ∧
    r.pr.stb.cbRecv.contents = [0, 65].extract 1 r.pr.stb.tc.rcvNxt := by
  obtain ⟨p, _, hopen, hrcv⟩ := exists_client
  have hf := hopen.fresh.1
  have hpkt : recvPkg (segmentFrom ⟨2, 80⟩ 1 1 [65]) = TouPkg.segment 1 1 [65] :=
    recvPkg_segmentFrom _ (by decide) (by decide) (by decide)
  have hcut : IsCut [0, 65] (recvPkg (segmentFrom ⟨2, 80⟩ 1 1 [65])) := by
    rw [hpkt]
    exact ⟨isData_segment (by decide), by decide, by decide⟩
  have hcuts : ∀ d ∈ [segmentFrom ⟨2, 80⟩ 1 1 [65]], IsCut [0, 65] (recvPkg d) := by
    intro d hd
    rw [List.mem_singleton.mp hd]
    exact hcut
  have hidle : Idle p := ⟨hopen.fresh.2, hf.runstate, hf.minhpRecv, hf.ackReady⟩
  obtain ⟨_, q, _, _, _, hrun⟩ := hidle.run_inOrder 5 hcut.data (by rw [hpkt, hrcv]; rfl)
    (by rw [hpkt]; decide)
  have hroom : RoomForNext p [segmentFrom ⟨2, 80⟩ 1 1 [65]] := by
    intro _ d rest hd _
    rw [← (List.cons.inj hd).1, hpkt, RingBuf.getAvSize_eq, hf.cbRecv]
    decide
  have hstep := ReceivingStep.run (x := { pr := p, removed := [] }) hcuts hroom hrun
  have h := stream_integrity [0, 65] (by decide) _ _ (by simp [hrcv]) hf.cbRecv rfl
    (by simp [hf.minhpRecv]) (Relation.ReflTransGen.single hstep)
  exact ⟨p, _, hopen, hrun, hrcv ▸ h.1⟩

end Process
end TcpOverUdp
