import TcpOverUdp.Proof.SharedHeap

/-! # Karn's rule over the shared heap

A retransmitted segment is marked by `xmitms = -1`. The two places that set the mark replace the top of
the heap, so a marked node is the lowest of its connection as long as each connection's numbers increase
(`Karn`). The assertion of `postpone_timer`, which looks at the nodes behind, and the test of `cal_rto`
both rest on this (`karn_invariant`).
-/
namespace TcpOverUdp
open MachineInt
set_option autoImplicit false

namespace Timer
open Node

/-! ## The invariant of the nodes -/

structure Karn (l : List Node) : Prop where
  distinct : (l.map Node.key).Nodup
  timed : ∀ n ∈ l, n.xmitms ≠ 0
  lowest : ∀ n ∈ l, n.xmitms < 0 → ∀ m ∈ l, m.cId = n.cId → n.pId ≤ m.pId

theorem Karn.sublist {l l' : List Node} (h : Karn l) (hs : l'.Sublist l) : Karn l' where
  distinct := h.distinct.sublist (hs.map Node.key)
  timed n hn := h.timed n (hs.subset hn)
  lowest n hn hx m hm := h.lowest n (hs.subset hn) hx m (hs.subset hm)

theorem Karn.perm {l l' : List Node} (h : Karn l) (hp : l'.Perm l) : Karn l' where
  distinct := (hp.map Node.key).nodup_iff.mpr h.distinct
  timed n hn := h.timed n (hp.mem_iff.mp hn)
  lowest n hn hx m hm := h.lowest n (hp.mem_iff.mp hn) hx m (hp.mem_iff.mp hm)

theorem Karn.map {l : List Node} (h : Karn l) {f : Node → Node} (hf : ∀ n, CopyOf n (f n))
    (hx : ∀ n, (f n).xmitms = n.xmitms) : Karn (l.map f) where
  distinct := by
    have hkeys : (l.map f).map Node.key = l.map Node.key := by
      rw [List.map_map]
      exact List.map_congr_left fun n _ => (hf n).key_eq
    rw [hkeys]
    exact h.distinct
  timed := by
    intro n hn
    obtain ⟨a, ha, rfl⟩ := List.mem_map.mp hn
    rw [hx]
    exact h.timed a ha
  lowest := by
    intro n hn hneg m hm hc
    obtain ⟨a, ha, rfl⟩ := List.mem_map.mp hn
    obtain ⟨b, hb, rfl⟩ := List.mem_map.mp hm
    rw [hx] at hneg
    rw [(hf b).cId_eq, (hf a).cId_eq] at hc
    rw [(hf b).pId_eq, (hf a).pId_eq]
    exact h.lowest a ha hneg b hb hc

section Heap
variable {h : TimerHeap}

theorem pId_le_of_key_le {a b : Node} (hle : a.key ≤ b.key) (hc : b.cId = a.cId) : a.pId ≤ b.pId := by
  unfold Node.key at hle
  rw [Prod.Lex.toLex_le_toLex] at hle
  rcases hle with hlt | ⟨_, hle⟩
  · exact absurd hc hlt.ne'
  · exact hle

theorem top_lowest {n m : Node} (ht : h.top? = some n) (hm : m ∈ h.elems) (hc : m.cId = n.cId) :
    n.pId ≤ m.pId := pId_le_of_key_le (MinHeap.top?_le ht hm) hc

theorem Karn.mark {n b : Node} (hk : Karn h.elems) (ht : h.top? = some n) (hb : b.key = n.key)
    (hneg : b.xmitms < 0) : Karn (h.pop.push b).elems := by
  have htop := MinHeap.top?_eq_some ht
  rw [MinHeap.push_pop_elems ht hb]
  have hcb : b.cId = n.cId := congrArg (fun k => (ofLex k).1) hb
  have hpb : b.pId = n.pId := pId_eq_of_key_eq hb
  have hmem : ∀ m ∈ h.pop.elems, m ∈ h.elems := fun m hm => MinHeap.mem_of_mem_pop hm
  have hd := hk.distinct
  rw [htop] at hd
  constructor
  · rw [List.map_cons, hb]
    exact hd
  · intro m hm
    rcases List.mem_cons.mp hm with rfl | hm
    · exact hneg.ne
    · exact hk.timed m (hmem m hm)
  · intro a ha hx m hm hc
    rcases List.mem_cons.mp ha with rfl | ha'
    · rcases List.mem_cons.mp hm with rfl | hm'
      · exact le_refl _
      · rw [hpb]
        exact top_lowest ht (hmem m hm') (hc.trans hcb)
    · rcases List.mem_cons.mp hm with rfl | hm'
      · rw [hpb]
        exact hk.lowest a (hmem a ha') hx n (MinHeap.mem_of_top? ht) (hcb.symm.trans hc)
      · exact hk.lowest a (hmem a ha') hx m (hmem m hm') hc

/-- A node with a new highest number and a send time keeps the invariant. -/
theorem Karn.add {b : Node} (hk : Karn h.elems) (hx : 0 < b.xmitms)
    (hnew : ∀ m ∈ h.elems, m.cId = b.cId → m.pId < b.pId) : Karn (h.push b).elems := by
  refine Karn.perm ?_ (MinHeap.push_perm h b)
  constructor
  · rw [List.map_cons, List.nodup_cons]
    refine ⟨?_, hk.distinct⟩
    intro hmem
    obtain ⟨m, hm, hkey⟩ := List.mem_map.mp hmem
    have hlt := hnew m hm (congrArg (fun k => (ofLex k).1) hkey)
    exact hlt.ne (pId_eq_of_key_eq hkey)
  · intro m hm
    rcases List.mem_cons.mp hm with rfl | hm
    · exact hx.ne'
    · exact hk.timed m hm
  · intro a ha hneg m hm hc
    rcases List.mem_cons.mp ha with rfl | ha'
    · omega
    · rcases List.mem_cons.mp hm with rfl | hm'
      · exact (hnew a ha' hc.symm).le
      · exact hk.lowest a ha' hneg m hm' hc

/-- Behind the number of the top every node of its connection has a send time. -/
theorem Karn.sent {top : Node} (hk : Karn h.elems) (ht : h.top? = some top) :
    ∀ n ∈ h.elems, n.cId = top.cId → n.tId = top.tId → top.pId < n.pId → n.xmitms > 0 := by
  intro n hn hc _ hlt
  by_contra hneg
  have hne := hk.timed n hn
  have hle := hk.lowest n hn (by omega) top (MinHeap.mem_of_top? ht) hc.symm
  omega

/-- The rebuild from the top succeeds and keeps everything but the deadlines. -/
theorem Karn.postpone {top : Node} (hk : Karn h.elems) (ht : h.top? = some top) (curRto : ℕ) :
    ∃ g, postponeTimer top.cId top.tId top.pId curRto h = .ok g ∧
      g.elems.Perm (h.elems.map fun n => (postponed top.cId top.tId top.pId curRto n).copy) := by
  obtain ⟨temp, htemp⟩ := postponeLoop_ok curRto h.size MinHeap.empty (hk.sent ht)
  have hg : postponeTimer top.cId top.tId top.pId curRto h =
      .ok (restoreLoop temp.size temp MinHeap.empty) := by
    unfold postponeTimer
    rw [htemp]
    rfl
  exact ⟨_, hg, postponeTimer_perm (fun n hn hc _ => top_lowest ht hn hc) hg⟩

end Heap

/-! ## Every sequence of operations -/

/-- The heap, with the segments that were armed and those that were transmitted again since the start. -/
structure HeapRun where
  heap : TimerHeap
  armed : List (ℕ ×ₗ ℕ)
  rexmitted : List (ℕ ×ₗ ℕ)

def HeapRun.start : HeapRun := ⟨MinHeap.empty, [], []⟩

/-- The segment of the node `n`, if it was transmitted again. -/
def again (sent : Bool) (n : Option Node) : List (ℕ ×ₗ ℕ) := if sent then (n.map Node.key).toList else []

/-- One operation of some connection. `add` is called with a number above all those armed for its
connection before, and the clock is not zero. The tables are whatever they are at that time. -/
inductive HeapStep : HeapRun → HeapRun → Prop
  | add (s : HeapRun) (cid tid pid : ℕ) (st : SockPtr) (stb : SockTb) (payload : List Byte) (tv : Timeval)
      (hnew : ∀ p, toLex (cid, p) ∈ s.armed → p < pid) (husec : tv.tvUsec < 1000000)
      (hms : getTimeMs tv ≠ 0) :
      HeapStep s { s with
        heap := Timer.add s.heap cid tid pid st stb payload (getTimeMs tv)
        armed := toLex (cid, pid) :: s.armed }
  | delete (s : HeapRun) {cid tid una : ℕ} {r : TimerHeap × Option Node}
      (hr : deleteTimer cid tid una s.heap = .ok r) : HeapStep s { s with heap := r.1 }
  | dupAck (s : HeapRun) {tb : SockPtr → SockTb} {cid tid pid now : ℕ} {r : Bool × TimerHeap × List Tx}
      (hr : rexmitForDupAck tb cid tid pid now s.heap = .ok r) :
      HeapStep s { s with
        heap := r.2.1
        rexmitted := again r.1 (s.heap.popWhile (before cid tid pid)).top? ++ s.rexmitted }
  | sndpkt (s : HeapRun) {tb : SockPtr → SockTb} {now : ℕ} {r : TimerHeap × Option (SockPtr × Tx)}
      (hr : procSndpkt tb now s.heap = .ok r) :
      HeapStep s { s with
        heap := r.1
        rexmitted := again r.2.isSome (clearAckedTop tb s.heap).top? ++ s.rexmitted }

/-- The heaps that any number of connections reach. -/
def HeapReachable (s : HeapRun) : Prop := Relation.ReflTransGen HeapStep HeapRun.start s

structure HeapInv (s : HeapRun) : Prop where
  karn : Karn s.heap.elems
  armed : ∀ n ∈ s.heap.elems, n.key ∈ s.armed
  rexmitted : ∀ k ∈ s.rexmitted, k ∈ s.armed
  marked : ∀ n ∈ s.heap.elems, n.key ∈ s.rexmitted → n.xmitms < 0

section Steps
variable {s : HeapRun}

theorem HeapInv.sublist {g : TimerHeap} (h : HeapInv s) (hs : g.elems.Sublist s.heap.elems) :
    HeapInv { s with heap := g } where
  karn := h.karn.sublist hs
  armed n hn := h.armed n (hs.subset hn)
  rexmitted := h.rexmitted
  marked n hn := h.marked n (hs.subset hn)

theorem HeapInv.mark {n b : Node} (h : HeapInv s) (ht : s.heap.top? = some n) (hb : b.key = n.key)
    (hneg : b.xmitms < 0) :
    HeapInv { s with heap := s.heap.pop.push b, rexmitted := again true (some n) ++ s.rexmitted } := by
  have hn : n.key ∈ s.armed := h.armed n (MinHeap.mem_of_top? ht)
  refine ⟨h.karn.mark ht hb hneg, ?_, ?_, ?_⟩
  · intro m hm
    rcases (MinHeap.mem_push _ _ _).mp hm with rfl | hm
    · exact hb ▸ hn
    · exact h.armed m (MinHeap.mem_of_mem_pop hm)
  · intro k hk
    rcases List.mem_append.mp hk with hk | hk
    · rw [List.mem_singleton.mp hk]
      exact hn
    · exact h.rexmitted k hk
  · intro m hm hk
    rcases (MinHeap.mem_push _ _ _).mp hm with rfl | hm
    · exact hneg
    · rcases List.mem_append.mp hk with hk | hk
      · have hd := h.karn.distinct
        rw [MinHeap.top?_eq_some ht, List.map_cons, List.nodup_cons, ← List.mem_singleton.mp hk] at hd
        exact absurd (List.mem_map_of_mem hm) hd.1
      · exact h.marked m (MinHeap.mem_of_mem_pop hm) hk

theorem HeapInv.map {g : TimerHeap} {f : Node → Node} (h : HeapInv s) (hf : ∀ n, CopyOf n (f n))
    (hx : ∀ n, (f n).xmitms = n.xmitms) (hp : g.elems.Perm (s.heap.elems.map f)) :
    HeapInv { s with heap := g } where
  karn := (h.karn.map hf hx).perm hp
  armed := by
    intro n hn
    obtain ⟨a, ha, rfl⟩ := List.mem_map.mp (hp.mem_iff.mp hn)
    rw [(hf a).key_eq]
    exact h.armed a ha
  rexmitted := h.rexmitted
  marked := by
    intro n hn hk
    obtain ⟨a, ha, rfl⟩ := List.mem_map.mp (hp.mem_iff.mp hn)
    rw [(hf a).key_eq] at hk
    rw [hx]
    exact h.marked a ha hk

theorem getTimeMs_lt {tv : Timeval} (h : tv.tvUsec < 1000000) : getTimeMs tv < 1000000000 := by
  unfold getTimeMs
  omega

theorem HeapInv.add {cid tid pid : ℕ} {st : SockPtr} {stb : SockTb} {payload : List Byte} {tv : Timeval}
    (h : HeapInv s) (hnew : ∀ p, toLex (cid, p) ∈ s.armed → p < pid) (husec : tv.tvUsec < 1000000)
    (hms : getTimeMs tv ≠ 0) :
    HeapInv { s with
      heap := Timer.add s.heap cid tid pid st stb payload (getTimeMs tv)
      armed := toLex (cid, pid) :: s.armed } := by
  have hlt := getTimeMs_lt husec
  have hfresh : toLex (cid, pid) ∉ s.armed := fun hmem => (hnew pid hmem).ne rfl
  refine ⟨?_, ?_, ?_, ?_⟩
  · refine h.karn.add ?_ ?_
    · show 0 < s32 (getTimeMs tv)
      rw [s32_cast _ (by omega)]
      omega
    · intro m hm hc
      have hmem := h.armed m hm
      unfold Node.key at hmem
      rw [hc] at hmem
      exact hnew m.pId hmem
  · intro n hn
    rcases (MinHeap.mem_push _ _ _).mp hn with rfl | hn
    · exact List.mem_cons_self
    · exact List.mem_cons_of_mem _ (h.armed n hn)
  · intro k hk
    exact List.mem_cons_of_mem _ (h.rexmitted k hk)
  · intro n hn hk
    rcases (MinHeap.mem_push _ _ _).mp hn with rfl | hn
    · exact absurd (h.rexmitted _ hk) hfresh
    · exact h.marked n hn hk

theorem HeapInv.dupAck {tb : SockPtr → SockTb} {cid tid pid now : ℕ} {r : Bool × TimerHeap × List Tx}
    (h : HeapInv s) (hr : rexmitForDupAck tb cid tid pid now s.heap = .ok r) :
    HeapInv { s with
      heap := r.2.1
      rexmitted := again r.1 (s.heap.popWhile (before cid tid pid)).top? ++ s.rexmitted } := by
  have hleft := h.sublist (g := s.heap.popWhile (before cid tid pid)) (List.dropWhile_sublist _)
  rw [rexmitForDupAck_eq] at hr
  generalize s.heap.popWhile (before cid tid pid) = g at hr hleft ⊢
  unfold rexmitAt at hr
  cases ht : g.top? with
  | none =>
    rw [ht] at hr
    cases hr
    exact hleft
  | some n =>
    rw [ht] at hr
    simp only at hr
    split at hr
    · rename_i hstop
      cases hr
      exact hleft.mark ht (by rw [← hstop.1]; rfl) neg_one_lt_zero
    · cases hr

theorem HeapInv.sndpkt {tb : SockPtr → SockTb} {now : ℕ} {r : TimerHeap × Option (SockPtr × Tx)}
    (h : HeapInv s) (hr : procSndpkt tb now s.heap = .ok r) :
    HeapInv { s with
      heap := r.1
      rexmitted := again r.2.isSome (clearAckedTop tb s.heap).top? ++ s.rexmitted } := by
  have hleft := h.sublist (clearAckedTop_suffix tb s.heap).sublist
  cases procSndpkt_result hr with
  | quiet => exact hleft
  | @fired n g ht hlate hg =>
    have hmark := hleft.mark (b := (firedNode (tb n.st) now n).copy) ht
      (firedNode_copyOf (tb n.st) now n).copy.key_eq neg_one_lt_zero
    rw [ht]
    rcases hg with rfl | ⟨top, htop, hg⟩
    · exact hmark
    · obtain ⟨g', hg', hperm⟩ := hmark.karn.postpone htop (u32 (((tb n.st).tc.tRto : ℤ) * 2))
      rw [hg] at hg'
      cases hg'
      exact hmark.map (fun m => (postponed_copyOf _ _ _ _ m).copy) (fun m => xmitms_postponed _ _ _ _ m) hperm

end Steps

theorem heapInv_start : HeapInv HeapRun.start := by
  refine ⟨⟨List.nodup_nil, ?_, ?_⟩, ?_, ?_, ?_⟩ <;>
    · intro n hn
      cases hn

theorem HeapReachable.inv {s : HeapRun} (h : HeapReachable s) : HeapInv s := by
  refine reach_inv HeapInv ?_ heapInv_start h
  intro a b ha hst
  cases hst with
  | add cid tid pid st stb payload tv hnew husec hms => exact ha.add hnew husec hms
  | delete hr => exact ha.sublist (deleteTimer_suffix hr).sublist
  | dupAck hr => exact ha.dupAck hr
  | sndpkt hr => exact ha.sndpkt hr

/-- The rebuild that `proc_sndpkt` calls after retransmitting `n` keeps every node. -/
def RebuildKeeps (tb : SockPtr → SockTb) (now : ℕ) (h : TimerHeap) : Prop :=
  ∀ n top, (clearAckedTop tb h).top? = some n →
    ((clearAckedTop tb h).pop.push (firedNode (tb n.st) now n).copy).top? = some top →
    ∃ g, postponeTimer top.cId top.tId top.pId (u32 (((tb n.st).tc.tRto : ℤ) * 2))
        ((clearAckedTop tb h).pop.push (firedNode (tb n.st) now n).copy) = .ok g ∧
      (g.elems.map fun m => (m.cId, m.tId, m.pId)).Perm
        (((clearAckedTop tb h).pop.push (firedNode (tb n.st) now n).copy).elems.map
          fun m => (m.cId, m.tId, m.pId))

theorem Karn.rebuild {h : TimerHeap} (hk : Karn h.elems) (tb : SockPtr → SockTb) (now : ℕ) :
    RebuildKeeps tb now h := by
  intro n top hn htop
  have hleft := hk.sublist (clearAckedTop_suffix tb h).sublist
  have hmark := hleft.mark hn (firedNode_copyOf (tb n.st) now n).copy.key_eq neg_one_lt_zero
  obtain ⟨g, hg, hperm⟩ := hmark.postpone htop (u32 (((tb n.st).tc.tRto : ℤ) * 2))
  refine ⟨g, hg, ?_⟩
  have hids := hperm.map fun m => (m.cId, m.tId, m.pId)
  rw [List.map_map] at hids
  refine hids.trans (List.Perm.of_eq (List.map_congr_left ?_))
  intro m _
  have hcopy := (postponed_copyOf top.cId top.tId top.pId (u32 (((tb n.st).tc.tRto : ℤ) * 2)) m).copy
  show (_, _, _) = _
  rw [hcopy.cId_eq, hcopy.tId_eq, hcopy.pId_eq]

theorem Karn.procSndpkt_returns {h : TimerHeap} (hk : Karn h.elems) (tb : SockPtr → SockTb) (now : ℕ) :
    ∃ r, procSndpkt tb now h = .ok r := by
  have hrebuild := hk.rebuild tb now
  unfold RebuildKeeps at hrebuild
  unfold procSndpkt
  simp only
  cases hn : (clearAckedTop tb h).top? with
  | none => exact ⟨_, rfl⟩
  | some n =>
    simp only
    split
    · split
      · exact ⟨_, rfl⟩
      · rename_i top htop
        split
        · obtain ⟨g, hg, _⟩ := hrebuild n top hn htop
          exact ⟨(g, some (n.st, sendpkt (tb n.st) n)), congrArg
            (· >>= fun h2 => (pure (h2, some (n.st, sendpkt (tb n.st) n)) : Except Halt _)) hg⟩
        · exact ⟨_, rfl⟩
    · exact ⟨_, rfl⟩

theorem deleteTimer_sample {cid tid una : ℕ} {h g : TimerHeap} {n : Node}
    (hr : deleteTimer cid tid una h = .ok (g, some n)) : n ∈ h.elems := by
  have hsub : (h.popWhile (acked cid tid una)).elems.Sublist h.elems := List.dropWhile_sublist _
  rw [deleteTimer_eq] at hr
  unfold deleteAt at hr
  cases ht : (h.popWhile (acked cid tid una)).top? with
  | none =>
    rw [ht] at hr
    cases hr
  | some top =>
    rw [ht] at hr
    simp only at hr
    split_ifs at hr
    · cases hr
      exact hsub.subset (MinHeap.mem_of_top? ht)
    · cases hr

/-- In every reachable heap a marked node is the lowest of its connection; so the pass over it returns
(the assertion holds), no round trip is measured on a segment that was transmitted again, and the
rebuild keeps every node. -/
theorem karn_invariant (s : HeapRun) (hs : HeapReachable s) :
    (∀ n ∈ s.heap.elems, n.xmitms < 0 → ∀ m ∈ s.heap.elems, m.cId = n.cId → n.pId ≤ m.pId) ∧
      (∀ tb now, ∃ r, procSndpkt tb now s.heap = .ok r) ∧
      (∀ cid tid una r n, deleteTimer cid tid una s.heap = .ok (r, some n) → n.key ∈ s.rexmitted →
        ∀ stb recvT, calRto stb n recvT = stb) ∧
      ∀ tb now, RebuildKeeps tb now s.heap := by
  have hi := hs.inv
  refine ⟨hi.karn.lowest, hi.karn.procSndpkt_returns, ?_, hi.karn.rebuild⟩
  intro cid tid una r n hr hk stb recvT
  exact if_pos (hi.marked n (deleteTimer_sample hr) hk)

/-- A segment of connection 3 and one of connection 4 are armed, and a pass follows. -/
theorem karn_invariant_two : ∃ s, HeapReachable s ∧ s.armed = [toLex (4, 2), toLex (3, 2)] ∧
    (∀ n ∈ s.heap.elems, n.xmitms < 0 → ∀ m ∈ s.heap.elems, m.cId = n.cId → n.pId ≤ m.pId) ∧
    ∃ r, procSndpkt (fun _ => SockTb.init 3) 9000 s.heap = .ok r := by
  have h1 := Relation.ReflTransGen.single (HeapStep.add HeapRun.start 3 timerIdSndpkt 2 0 (SockTb.init 3)
    [65] ⟨1, 0⟩ (fun p hp => by cases hp) (by decide) (by decide))
  have h2 := h1.tail (HeapStep.add _ 4 timerIdSndpkt 2 1 (SockTb.init 4) [65] ⟨1, 5000⟩
    (fun p hp => by cases List.mem_singleton.mp hp) (by decide) (by decide))
  obtain ⟨r, hr⟩ := (HeapReachable.inv h2).karn.procSndpkt_returns (fun _ => SockTb.init 3) 9000
  have h3 := h2.tail (HeapStep.sndpkt _ hr)
  have hkarn := karn_invariant _ h3
  exact ⟨_, h3, rfl, hkarn.1, hkarn.2.1 _ _⟩

end Timer
end TcpOverUdp
