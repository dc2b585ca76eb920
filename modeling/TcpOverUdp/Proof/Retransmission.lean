import TcpOverUdp.Proof.Send
import TcpOverUdp.Proof.TimerHeap

/-! # Retransmitted segments

A timer node finds its segment again from `p_id` and the payload it holds, and the payload goes
through `data()` each time a node is copied. So a retransmission repeats the segment exactly when
the payload has no NUL byte, whatever happens to the heap in between.
-/
namespace TcpOverUdp
open MachineInt Pieces
set_option autoImplicit false

/-- One operation on the timer heap, on any tables and at any clock value. `key` is the key of a
segment already sent: others are added under other keys. -/
inductive HeapOp (key : ℕ ×ₗ ℕ) : TimerHeap → TimerHeap → Prop
  | add (h : TimerHeap) (cid tid pid : ℕ) (st : SockPtr) (stb : SockTb) (payload : List Byte)
      (now : ℕ) (hk : toLex (cid, pid) ≠ key) :
      HeapOp key h (Timer.add h cid tid pid st stb payload now)
  | pop (h : TimerHeap) : HeapOp key h h.pop
  | deleteTimer {h : TimerHeap} {cid tid una : ℕ} {r : TimerHeap × Option Node}
      (hr : Timer.deleteTimer cid tid una h = .ok r) : HeapOp key h r.1
  | clearAcked (tb : SockPtr → SockTb) (h : TimerHeap) : HeapOp key h (Timer.clearAckedTop tb h)
  | procSndpkt {tb : SockPtr → SockTb} {now : ℕ} {h : TimerHeap}
      {r : TimerHeap × Option (SockPtr × Tx)} (hr : Timer.procSndpkt tb now h = .ok r) :
      HeapOp key h r.1
  | postponeTimer {thConn timerId thSeq curRto : ℕ} {h g : TimerHeap}
      (hr : Timer.postponeTimer thConn timerId thSeq curRto h = .ok g) : HeapOp key h g
  | rexmitForDupAck {tb : SockPtr → SockTb} {cid tid pid now : ℕ} {h : TimerHeap}
      {r : Bool × TimerHeap × List Tx} (hr : Timer.rexmitForDupAck tb cid tid pid now h = .ok r) :
      HeapOp key h r.2.1

/-- The nodes of the segment hold the bytes `data`. -/
def Holds (key : ℕ ×ₗ ℕ) (data : List Byte) (h : TimerHeap) : Prop :=
  ∀ n ∈ h.elems, n.key = key → n.data = data

section Holds
variable {key : ℕ ×ₗ ℕ} {data : List Byte} {h g : TimerHeap}

theorem Holds.of_from (hh : Holds key data h) (hd : cstr data = data) (hf : HeapFrom h g) :
    Holds key data g := by
  intro b hb hk
  obtain ⟨a, ha, hab⟩ := hf b hb
  have hda := hh a ha (hab.key_eq ▸ hk)
  rcases hab.data_eq with he | he
  · rw [he, hda]
  · rw [he, hda, hd]

theorem HeapOp.holds (hop : HeapOp key h g) (hd : cstr data = data) (hh : Holds key data h) :
    Holds key data g := by
  cases hop with
  | add _ cid tid pid st stb payload now hk =>
    intro n hn hkn
    rcases (MinHeap.mem_push _ _ _).mp hn with rfl | hn
    · exact absurd hkn hk
    · exact hh n hn hkn
  | pop => exact hh.of_from hd (HeapFrom.of_suffix (MinHeap.pop_suffix h))
  | deleteTimer hr => exact hh.of_from hd (HeapFrom.of_suffix (Timer.deleteTimer_suffix hr))
  | clearAcked tb => exact hh.of_from hd (HeapFrom.of_suffix (Timer.clearAckedTop_suffix tb h))
  | procSndpkt hr => exact hh.of_from hd (Timer.procSndpkt_from hr).1
  | postponeTimer hr => exact hh.of_from hd (Timer.postponeTimer_from hr)
  | rexmitForDupAck hr => exact hh.of_from hd (Timer.rexmitForDupAck_from hr).1

end Holds

namespace Process

/-- Every armed timer of the connection stands for bytes at or below `snd_nxt`. -/
def TimersBehind (p : Process) : Prop :=
  ∀ n ∈ p.timerheap.elems, n.cId = p.stb.sockd → n.pId ≤ p.stb.tc.sndNxt

theorem sentNode_key (now : ℕ) (p : Process) (s : ℕ × List Byte) :
    (sentNode now p s).key = toLex (p.stb.sockd, endOf s) := rfl

theorem sentNode_data (now : ℕ) (p : Process) (s : ℕ × List Byte) :
    (sentNode now p s).data = cstr s.2 := rfl

/-- The only node under the key of a segment just sent is its own. -/
theorem Emitted.node_unique {now : ℕ} {p q : Process} {pieces : List (List Byte)}
    (he : Emitted now p pieces q) (hb : TimersBehind p) {s : ℕ × List Byte}
    (hs : s ∈ numbered p.stb.tc.sndNxt pieces) {n : Node} (hn : n ∈ q.timerheap.elems)
    (hk : n.key = toLex (p.stb.sockd, endOf s)) : n = sentNode now p s := by
  have hne : ∀ x ∈ pieces, x ≠ [] := fun x hx => List.length_pos_iff.mp (he.size_le x hx).1
  have hcp : n.cId = p.stb.sockd ∧ n.pId = endOf s := by
    unfold Node.key at hk
    simpa using congrArg ofLex hk
  rcases List.mem_append.mp (he.heap_perm.subset hn) with hn | hn
  · have h1 := hb n hn hcp.1
    have h2 := base_lt_end hne hs
    omega
  · obtain ⟨s', hs', rfl⟩ := List.mem_map.mp hn
    rw [eq_of_endOf_eq hne hs' hs hcp.2]

/-- What a retransmission of the segment `s` must look like. -/
structure Repeats (s : ℕ × List Byte) (stb : SockTb) (n : Node) : Prop where
  seq_eq : (Timer.sendpkt stb n).pkt.t.seq = s.1
  payload_eq : (Timer.sendpkt stb n).pkt.buf = s.2
  /-- The start that `rexmit_for_dup_ack` computes for the node. -/
  start_eq : u32 ((n.pId : ℤ) - n.payloadSize) = s.1

theorem repeats_of_data {s : ℕ × List Byte} {stb : SockTb} {n : Node} (hp : n.pId = endOf s)
    (hd : n.data = s.2) (hlt : s.1 < 4294967296) : Repeats s stb n := by
  have hstart : u32 ((n.pId : ℤ) - n.payloadSize) = s.1 := by
    have hsize : n.payloadSize = s.2.length := congrArg List.length hd
    rw [hsize, hp, endOf, Nat.cast_add, Int.add_sub_cancel]
    exact u32_cast _ hlt
  exact ⟨by rw [Timer.sendpkt_eq]; exact hstart, by rw [Timer.sendpkt_eq]; exact hd, hstart⟩

theorem Emitted.holds {now : ℕ} {p q : Process} {pieces : List (List Byte)}
    (he : Emitted now p pieces q) (hb : TimersBehind p) {s : ℕ × List Byte}
    (hs : s ∈ numbered p.stb.tc.sndNxt pieces) (hd : cstr s.2 = s.2) :
    Holds (toLex (p.stb.sockd, endOf s)) s.2 q.timerheap := by
  intro n hn hk
  rw [he.node_unique hb hs hn hk, sentNode_data, hd]

/-- Every segment that `send` transmits is repeated byte for byte by each later retransmission of its
node, with the start that `rexmit_for_dup_ack` looks for, if and only if it has no NUL byte. -/
theorem retransmission_iff (now : ℕ) (p q : Process) (hb : TimersBehind p)
    (hsend : send now p = .ok q) (tx : Tx) (htx : tx ∈ q.sent.drop p.sent.length) :
    (∀ h, Relation.ReflTransGen
        (HeapOp (toLex (p.stb.sockd, tx.pkt.t.seq + tx.pkt.buf.length))) q.timerheap h →
      ∀ n ∈ h.elems, n.key = toLex (p.stb.sockd, tx.pkt.t.seq + tx.pkt.buf.length) →
        ∀ stb, Repeats (tx.pkt.t.seq, tx.pkt.buf) stb n) ↔ (0 : Byte) ∉ tx.pkt.buf := by
  obtain ⟨pieces, he⟩ := send_ok hsend
  rw [he.sent_eq, List.drop_left] at htx
  obtain ⟨s, hs, rfl⟩ := List.mem_map.mp htx
  have hne : ∀ x ∈ pieces, x ≠ [] := fun x hx => List.length_pos_iff.mp (he.size_le x hx).1
  have hlt : s.1 < 4294967296 := by
    have h1 := (boundary_end hs).le_last
    have h2 := windowEdge_lt p.stb
    have h3 := base_lt_end hne hs
    have h4 := he.sndNxt_eq
    have h5 := he.in_window (by rintro rfl; simp [numbered] at hs)
    unfold endOf at h1
    omega
  simp only [sentTx, TouPkg.segment_seq, TouPkg.segment_buf]
  rw [← cstr_eq_self_iff]
  constructor
  · intro hall
    have hmem : sentNode now p s ∈ q.timerheap.elems :=
      he.heap_perm.symm.subset (List.mem_append_right _ (List.mem_map_of_mem hs))
    have hrep := (hall q.timerheap Relation.ReflTransGen.refl _ hmem (sentNode_key now p s) p.stb).payload_eq
    rw [Timer.sendpkt_eq] at hrep
    exact hrep
  · intro hd h hreach n hn hk stb
    have hholds : Holds (toLex (p.stb.sockd, endOf s)) s.2 h :=
      reach_inv (Holds _ s.2) (fun _ _ hh hop => hop.holds hd hh) (he.holds hb hs hd) hreach
    have hpid : n.pId = endOf s := by
      unfold Node.key at hk
      exact congrArg Prod.snd (congrArg ofLex hk)
    exact repeats_of_data hpid (hholds n hn hk) hlt

/-- A process that has one byte to send. -/
def oneByte (b : Byte) : Process := (pushsndq (Process.init 3 1) [b] 1).2

theorem retransmission_iff_oneByte :
    ∃ q tx, send 5 (oneByte 65) = .ok q ∧ tx ∈ q.sent.drop (oneByte 65).sent.length ∧
      ((∀ h, Relation.ReflTransGen
          (HeapOp (toLex ((oneByte 65).stb.sockd, tx.pkt.t.seq + tx.pkt.buf.length))) q.timerheap h →
        ∀ n ∈ h.elems, n.key = toLex ((oneByte 65).stb.sockd, tx.pkt.t.seq + tx.pkt.buf.length) →
          ∀ stb, Repeats (tx.pkt.t.seq, tx.pkt.buf) stb n) ↔ (0 : Byte) ∉ tx.pkt.buf) := by
  obtain ⟨q, _, hq, _⟩ := send_emitted 5 (oneByte 65)
  have hb : TimersBehind (oneByte 65) := by
    intro n hn
    cases hn
  have hlen : (send 5 (oneByte 65)).toOption.map (·.sent.drop 0) =
      some [{ site := .send, dst := ⟨0, 0⟩, pkt := TouPkg.segment 0 0 [65] }] := by decide +kernel
  rw [hq] at hlen
  simp only [Except.toOption, Option.map_some, Option.some.injEq] at hlen
  have htx := hlen ▸ List.mem_singleton_self _
  exact ⟨q, _, hq, htx, retransmission_iff 5 (oneByte 65) q hb hq _ htx⟩

/-! ## One byte that is lost -/

/-- A client connects and sends one byte. -/
def oneByteSession (b : Byte) : Except Halt Process := do
  let synAck := ((ackpkt.putHeaderSeq 7 1).setSyn true).setAck true
  let c ← touConnect (Process.init 3 1) ⟨2, 80⟩ 425984 { src := ⟨2, 80⟩, bytes := synAck.toString }
  let r ← touSend 5 c.2 [b] 1
  return r.2

/-- The retransmission of a segment of one NUL byte is empty and starts one byte late. -/
theorem nul_not_repeated :
    ∃ q tx n, oneByteSession 0 = .ok q ∧ tx ∈ q.sent ∧ tx.site = .send ∧ n ∈ q.timerheap.elems ∧
      n.key = toLex (q.stb.sockd, tx.pkt.t.seq + tx.pkt.buf.length) ∧
      ¬ Repeats (tx.pkt.t.seq, tx.pkt.buf) q.stb n := by
  have hsockd : (oneByteSession 0).toOption.map (·.stb.sockd) = some 3 := by decide +kernel
  have hsent : (oneByteSession 0).toOption.map (·.sent.drop 2) =
      some [{ site := .send, dst := ⟨2, 80⟩, pkt := TouPkg.segment 1 8 [0] }] := by decide +kernel
  have hheap : (oneByteSession 0).toOption.map (·.timerheap.elems.map (fun n => (n.cId, n.pId, n.data))) =
      some [(3, 2, [])] := by decide +kernel
  cases hq : oneByteSession 0 with
  | error e =>
    rw [hq] at hsockd
    cases hsockd
  | ok q =>
    rw [hq] at hsockd hsent hheap
    simp only [Except.toOption, Option.map_some, Option.some.injEq] at hsockd hsent hheap
    have htx := List.mem_of_mem_drop (hsent ▸ List.mem_singleton_self _)
    obtain ⟨n, hn, hnode⟩ := List.mem_map.mp (hheap ▸ List.mem_singleton_self _ :
      (3, 2, []) ∈ q.timerheap.elems.map (fun n => (n.cId, n.pId, n.data)))
    simp only [Prod.mk.injEq] at hnode
    refine ⟨q, _, n, rfl, htx, rfl, hn, ?_, ?_⟩
    · unfold Node.key
      rw [hnode.1, hnode.2.1, hsockd]
      rfl
    · intro hrep
      have hpay := hrep.payload_eq
      rw [Timer.sendpkt_eq] at hpay
      exact absurd (hnode.2.2.symm.trans hpay) (by decide)

end Process
end TcpOverUdp
