import TcpOverUdp.Proof.HostRuns
import TcpOverUdp.Proof.Karn

/-! # The timer heap while the threads take their steps

Between any two steps of any threads all nodes belong to the connection, so of the nodes above `snd_una` none gets
lost (`Retains`) unless `rexmit_for_dup_ack` takes its segment for an acknowledged one, and the `exit` of
`delete_timer` is never reached. A retransmitted node has the lowest number (`Lowest`), so the assertion of
`postpone_timer` holds, unless a node was made when the clock showed 0 (`Timed`). Segments may be empty, so numbers
may be equal, which `Karn` does not allow.
-/
namespace TcpOverUdp
open MachineInt Pieces
set_option autoImplicit false

section Own
open Node
variable {cid : ℕ} {h g : TimerHeap}

theorem Own.top_le (ho : Own cid h) {n m : Node} (ht : h.top? = some n) (hm : m ∈ h.elems) :
    n.pId ≤ m.pId := (ho.key_le (MinHeap.mem_of_top? ht) hm).mp (MinHeap.top?_le ht hm)

theorem Own.suffix (ho : Own cid h) (hs : g.elems <:+ h.elems) : Own cid g :=
  ho.of_from (HeapFrom.of_suffix hs)

theorem Own.replaced (ho : Own cid h) {n b : Node} (ht : h.top? = some n) (hb : CopyOf n b) :
    Own cid (h.pop.push b) :=
  ho.of_from ((HeapFrom.of_suffix (MinHeap.pop_suffix h)).push ⟨n, MinHeap.mem_of_top? ht, hb⟩)

theorem Own.push (ho : Own cid h) {b : Node} (hb : b.cId = cid ∧ b.tId = timerIdSndpkt) :
    Own cid (h.push b) := by
  intro n hn
  rcases (MinHeap.mem_push _ _ _).mp hn with rfl | hn
  · exact hb
  · exact ho n hn

end Own

namespace Timer
open Node

/-! ## Retransmitted nodes -/

def Lowest (l : List Node) : Prop := ∀ n ∈ l, n.xmitms < 0 → ∀ m ∈ l, n.pId ≤ m.pId

/-- No node was made when the clock showed 0. -/
def Timed (l : List Node) : Prop := ∀ n ∈ l, n.xmitms ≠ 0

theorem Lowest.subset {l l' : List Node} (h : Lowest l) (hs : l' ⊆ l) : Lowest l' :=
  fun n hn hx m hm => h n (hs hn) hx m (hs hm)

theorem Lowest.map {l : List Node} (h : Lowest l) {f : Node → Node} (hf : ∀ n, CopyOf n (f n))
    (hx : ∀ n, (f n).xmitms = n.xmitms) : Lowest (l.map f) := by
  intro n hn hneg m hm
  obtain ⟨a, ha, rfl⟩ := List.mem_map.mp hn
  obtain ⟨b, hb, rfl⟩ := List.mem_map.mp hm
  rw [hx] at hneg
  rw [(hf a).pId_eq, (hf b).pId_eq]
  exact h a ha hneg b hb

/-- The nodes above `una` are still there. -/
def Retains (una : ℕ) (h g : TimerHeap) : Prop := ∀ n ∈ h.elems, una < n.pId → ∃ b ∈ g.elems, CopyOf n b

theorem Retains.refl (una : ℕ) (h : TimerHeap) : Retains una h h := fun n hn _ => ⟨n, hn, CopyOf.refl n⟩

section Heap
variable {cid una : ℕ} {h g : TimerHeap}

theorem Retains.trans {k : TimerHeap} (hg : Retains una h g) (gk : Retains una g k) : Retains una h k := by
  intro n hn hlt
  obtain ⟨b, hb, hnb⟩ := hg n hn hlt
  obtain ⟨a, ha, hba⟩ := gk b hb (hnb.pId_eq ▸ hlt)
  exact ⟨a, ha, hnb.trans hba⟩

theorem Retains.of_popWhile {p : Node → Bool} (hp : ∀ n ∈ h.elems, una < n.pId → ¬ p n = true) :
    Retains una h (h.popWhile p) :=
  fun n hn hlt => ⟨n, MinHeap.mem_popWhile hn (hp n hn hlt), CopyOf.refl n⟩

/-- The top is replaced by a copy of it. -/
theorem Retains.replaced {n b : Node} (ht : h.top? = some n) (hb : CopyOf n b) :
    Retains una h (h.pop.push b) := by
  intro m hm _
  rw [MinHeap.top?_eq_some ht] at hm
  rcases List.mem_cons.mp hm with rfl | hm
  · exact ⟨b, (MinHeap.mem_push _ _ _).mpr (Or.inl rfl), hb⟩
  · exact ⟨m, (MinHeap.mem_push _ _ _).mpr (Or.inr hm), CopyOf.refl m⟩

/-- A copy of the top has the lowest number, whatever its times are. -/
theorem Lowest.replaced (hl : Lowest h.elems) (ho : Own cid h) {n b : Node} (ht : h.top? = some n)
    (hb : CopyOf n b) : Lowest (h.pop.push b).elems := by
  have hn := MinHeap.mem_of_top? ht
  intro a ha hx m hm
  have hle : n.pId ≤ m.pId := by
    rcases (MinHeap.mem_push _ _ _).mp hm with rfl | hm
    · exact hb.pId_eq.ge
    · exact ho.top_le ht (MinHeap.mem_of_mem_pop hm)
  rcases (MinHeap.mem_push _ _ _).mp ha with rfl | ha
  · exact hb.pId_eq.trans_le hle
  · exact (hl a (MinHeap.mem_of_mem_pop ha) hx n hn).trans hle

/-- A new node has a send time and the highest number. -/
theorem Lowest.push (hl : Lowest h.elems) {b : Node} (hx : 0 ≤ b.xmitms)
    (hnew : ∀ m ∈ h.elems, m.pId ≤ b.pId) : Lowest (h.push b).elems := by
  intro n hn hneg m hm
  rcases (MinHeap.mem_push _ _ _).mp hn with rfl | hold
  · omega
  · rcases (MinHeap.mem_push _ _ _).mp hm with rfl | hm
    · exact hnew n hold
    · exact hl n hold hneg m hm

theorem Lowest.postpone (hl : Lowest h.elems) (htimed : Timed h.elems) {top : Node} (ht : h.top? = some top)
    (curRto : ℕ) :
    ∃ g, postponeTimer top.cId top.tId top.pId curRto h = .ok g := by
  have hsent : ∀ n ∈ h.elems, n.cId = top.cId → n.tId = top.tId → top.pId < n.pId → n.xmitms > 0 := by
    intro n hn _ _ hlt
    by_contra hneg
    have hne := htimed n hn
    have hle := hl n hn (by omega) top (MinHeap.mem_of_top? ht)
    omega
  obtain ⟨temp, htemp⟩ := postponeLoop_ok curRto h.size MinHeap.empty hsent
  refine ⟨restoreLoop temp.size temp MinHeap.empty, ?_⟩
  unfold postponeTimer
  rw [htemp]
  rfl

theorem postponeTimer_own (ho : Own cid h) {top : Node} (ht : h.top? = some top) {curRto : ℕ}
    (hg : postponeTimer top.cId top.tId top.pId curRto h = .ok g) :
    g.elems.Perm (h.elems.map fun n => (postponed top.cId top.tId top.pId curRto n).copy) :=
  postponeTimer_perm (fun _ hn _ _ => ho.top_le ht hn) hg

theorem Retains.perm {f : Node → Node} (hf : ∀ n, CopyOf n (f n)) (hp : g.elems.Perm (h.elems.map f)) :
    Retains una h g :=
  fun n hn _ => ⟨f n, hp.symm.subset (List.mem_map_of_mem hn), hf n⟩

/-! ## The operations -/

theorem deleteTimer_retains {r : TimerHeap × Option Node}
    (hr : deleteTimer cid timerIdSndpkt una h = .ok r) : Retains una h r.1 := by
  have hleft : Retains una h (h.popWhile (acked cid timerIdSndpkt una)) := by
    refine Retains.of_popWhile fun n _ hlt hp => ?_
    have hpid := (of_decide_eq_true hp).2.2
    omega
  rw [deleteTimer_eq] at hr
  refine hleft.trans ?_
  generalize h.popWhile (acked cid timerIdSndpkt una) = g at hr
  unfold deleteAt at hr
  cases ht : g.top? with
  | none =>
    rw [ht] at hr
    cases hr
    exact Retains.refl una g
  | some m =>
    rw [ht] at hr
    simp only at hr
    split_ifs at hr with h1 h2
    · cases hr
      intro n hn hlt
      rw [MinHeap.top?_eq_some ht] at hn
      rcases List.mem_cons.mp hn with rfl | hn
      · omega
      · exact ⟨n, hn, CopyOf.refl n⟩
    · cases hr
      exact Retains.refl una g

/-- What `rexmit_for_dup_ack` leaves in the heap. -/
inductive Rexmitted (cid pid : ℕ) (h : TimerHeap) : TimerHeap → Prop
  | popped : Rexmitted cid pid h (h.popWhile (before cid timerIdSndpkt pid))
  | marked {n b : Node} (ht : (h.popWhile (before cid timerIdSndpkt pid)).top? = some n) (hb : CopyOf n b) :
      Rexmitted cid pid h ((h.popWhile (before cid timerIdSndpkt pid)).pop.push b)

theorem rexmitForDupAck_heap {tb : SockPtr → SockTb} {pid now : ℕ} {r : Bool × TimerHeap × List Tx}
    (hr : rexmitForDupAck tb cid timerIdSndpkt pid now h = .ok r) : Rexmitted cid pid h r.2.1 := by
  rw [rexmitForDupAck_eq] at hr
  unfold rexmitAt at hr
  cases ht : (h.popWhile (before cid timerIdSndpkt pid)).top? with
  | none =>
    rw [ht] at hr
    cases hr
    exact .popped
  | some n =>
    rw [ht] at hr
    simp only at hr
    split_ifs at hr with hstop
    · cases hr
      exact .marked ht (CopyOf.copy ⟨hstop.1.symm, hstop.2.1.symm, rfl, rfl, Or.inl rfl⟩)

theorem rexmitForDupAck_retains {tb : SockPtr → SockTb} {pid now : ℕ} {r : Bool × TimerHeap × List Tx}
    (hr : rexmitForDupAck tb cid timerIdSndpkt pid now h = .ok r)
    (hstart : ∀ n ∈ h.elems, una < n.pId → pid ≤ startOf n) : Retains una h r.2.1 := by
  have hkeep : Retains una h (h.popWhile (before cid timerIdSndpkt pid)) := by
    refine Retains.of_popWhile fun n hn hlt hp => ?_
    exact absurd (hstart n hn hlt) (not_le.mpr (of_decide_eq_true hp).2.2)
  have hheap := rexmitForDupAck_heap hr
  generalize r.2.1 = g at hheap
  cases hheap with
  | popped => exact hkeep
  | marked ht hb => exact hkeep.trans (Retains.replaced ht hb)

theorem clearAckedTop_retains (stb : SockTb) (h : TimerHeap) :
    Retains stb.tc.sndUna h (clearAckedTop (fun _ => stb) h) := by
  cases ht : h.top? with
  | none =>
    unfold clearAckedTop
    rw [ht]
    exact Retains.refl _ h
  | some top =>
    rw [clearAckedTop_eq ht]
    refine Retains.of_popWhile fun n _ hlt hp => ?_
    exact absurd hlt (not_lt.mpr (of_decide_eq_true hp))

section Fire
variable {tb : SockPtr → SockTb} {now : ℕ} {r : TimerHeap × Option (SockPtr × Tx)}

theorem fireTop_retains (ho : Own cid h) (hr : fireTop tb now h = .ok r) : Retains una h r.1 := by
  cases fireTop_result hr with
  | quiet => exact Retains.refl una h
  | @fired n g ht _ hg =>
    have hcopy := (firedNode_copyOf (tb n.st) now n).copy
    have hkeep : Retains una h (h.pop.push (firedNode (tb n.st) now n).copy) := Retains.replaced ht hcopy
    rcases hg with rfl | ⟨top, htop, hg⟩
    · exact hkeep
    · exact hkeep.trans (Retains.perm (fun m => (postponed_copyOf _ _ _ _ m).copy)
        (postponeTimer_own (ho.replaced ht hcopy) htop hg))

theorem Lowest.fireTop (hl : Lowest h.elems) (ho : Own cid h) (hr : Timer.fireTop tb now h = .ok r) :
    Lowest r.1.elems := by
  cases fireTop_result hr with
  | quiet => exact hl
  | @fired n g ht _ hg =>
    have hcopy := (firedNode_copyOf (tb n.st) now n).copy
    have hmark := hl.replaced ho ht hcopy
    rcases hg with rfl | ⟨top, htop, hg⟩
    · exact hmark
    · have hperm := postponeTimer_own (ho.replaced ht hcopy) htop hg
      exact (hmark.map (fun m => (postponed_copyOf _ _ _ _ m).copy)
        fun m => xmitms_postponed _ _ _ _ m).subset hperm.subset

theorem Timed.fired (ht : Timed h.elems) (stb : SockTb) (now : ℕ) (n : Node) :
    Timed (h.pop.push (firedNode stb now n).copy).elems := by
  intro m hm
  rcases (MinHeap.mem_push _ _ _).mp hm with rfl | hm
  · exact (by decide : (-1 : ℤ) ≠ 0)
  · exact ht m (MinHeap.mem_of_mem_pop hm)

/-- The assertion in `postpone_timer` holds. -/
theorem Lowest.fireTop_returns (hl : Lowest h.elems) (htimed : Timed h.elems) (ho : Own cid h)
    (tb : SockPtr → SockTb) (now : ℕ) : ∃ r, Timer.fireTop tb now h = .ok r := by
  unfold Timer.fireTop
  cases hn : h.top? with
  | none => exact ⟨_, rfl⟩
  | some n =>
    simp only
    split
    · split
      · exact ⟨_, rfl⟩
      · rename_i top htop
        split
        · have hmark := hl.replaced ho hn (firedNode_copyOf (tb n.st) now n).copy
          obtain ⟨g, hg⟩ := hmark.postpone (htimed.fired (tb n.st) now n) htop (u32 (((tb n.st).tc.tRto : ℤ) * 2))
          exact ⟨(g, some (n.st, sendpkt (tb n.st) n)), congrArg
            (· >>= fun h2 => (pure (h2, some (n.st, sendpkt (tb n.st) n)) : Except Halt _)) hg⟩
        · exact ⟨_, rfl⟩
    · exact ⟨_, rfl⟩

end Fire

end Heap
end Timer

namespace Process

section Steps
variable {k base : ℕ} {pieces : List (List Byte)} {c c' : Host} {D : Datagram → Prop}
  {net : Host → Datagram → Prop} {room : Host → RunVars → Prop}

/-! ## What a step does to the heap -/

inductive HeapChange (c : Host) : TimerHeap → Prop
  | same : HeapChange c c.pr.timerheap
  | push {v : SendVars} {nt : Node} (h : c.send = some (.push v nt)) :
      HeapChange c (c.pr.timerheap.push nt.copy)
  | deleteTimer {r : RunVars} {a : ℕ} {q : TimerHeap × Option Node}
      (h : c.run = some (.ack r (.deleteTimer a)))
      (hq : Timer.deleteTimer c.pr.stb.sockd timerIdSndpkt a c.pr.timerheap = .ok q) : HeapChange c q.1
  | rexmit {r : RunVars} {a now : ℕ} {q : Bool × TimerHeap × List Tx}
      (h : c.run = some (.ack r (.rexmit a)))
      (hq : Timer.rexmitForDupAck c.pr.table c.pr.stb.sockd timerIdSndpkt a now c.pr.timerheap = .ok q) :
      HeapChange c q.2.1
  | clearAcked : HeapChange c (Timer.clearAckedTop c.pr.table c.pr.timerheap)
  | fire {now : ℕ} {f : TimerHeap × Option (SockPtr × Tx)}
      (h : Timer.fireTop c.pr.table now c.pr.timerheap = .ok f) : HeapChange c f.1

theorem HeapChange.of_eq {g : TimerHeap} (h : g = c.pr.timerheap) : HeapChange c g := h ▸ HeapChange.same

theorem Host.SendStep.heapChange (h : c.SendStep c') :
    HeapChange c c'.pr.timerheap ∧ c'.pr.stb.sockd = c.pr.stb.sockd := by
  cases h with
  | pushsndq | enterSend | callSend | settwnd => exact ⟨.same, rfl⟩
  | send _ hpc hm =>
    cases hm with
    | push v nt => exact ⟨.push hpc, rfl⟩
    | _ => exact ⟨.same, rfl⟩
  | @procAck r tp =>
    obtain ⟨tc, _, hpr, _⟩ := ackFirst_effect c.pr tp
    refine ⟨.of_eq ?_, ?_⟩
    · show (ackFirst c.pr tp).1.timerheap = _
      rw [hpr]
      rfl
    · show (ackFirst c.pr tp).1.stb.sockd = _
      rw [hpr]
      rfl
  | ack _ hpc hm =>
    cases hm with
    | deleteTimer rtt rto hr => exact ⟨.deleteTimer hpc hr, rfl⟩
    | rexmit hr => exact ⟨.rexmit hpc hr, rfl⟩
    | _ => exact ⟨.same, rfl⟩
  | clearAcked => exact ⟨.clearAcked, rfl⟩
  | fire hpc hf => exact ⟨.fire hf, rfl⟩
  | aside ha => exact ⟨.of_eq ha.acks.heap_eq, ha.acks.sockd_eq⟩

/-- All nodes are data segments of the connection. -/
def Host.Owned (c : Host) : Prop := Own c.pr.stb.sockd c.pr.timerheap

/-- The node that is about to be armed is not marked as retransmitted. -/
def Host.Stamped (c : Host) : Prop := ∀ v nt, c.send = some (.push v nt) → 0 ≤ nt.xmitms

theorem Host.Shows.lt {now : ℕ} (h : Host.Shows now) : now < 1000000000 := by
  obtain ⟨tv, husec, rfl⟩ := h
  unfold getTimeMs
  omega

theorem Host.Stamped.step (h : c.Stamped) (hst : c.SendStep c') : c'.Stamped := by
  intro v nt hpc'
  cases hst with
  | pushsndq | procAck | ack | clearAcked | fire | settwnd => exact h v nt hpc'
  | enterSend | callSend => cases hpc'
  | @send now pc r hnow hpc hm =>
    have hlt := hnow.lt
    cases hm with
    | newNode =>
      cases hpc'
      show 0 ≤ s32 now
      rw [s32_cast now (by omega)]
      exact Int.natCast_nonneg now
    | _ => cases hpc'
  | aside ha => exact h v nt (ha.send_eq ▸ hpc')

theorem Streaming.owned (hs : Streaming k base pieces c) (ho : c.Owned) (h : c.SendStep c') : c'.Owned := by
  obtain ⟨hchange, hsockd⟩ := h.heapChange
  unfold Host.Owned
  rw [hsockd]
  generalize c'.pr.timerheap = g at hchange
  cases hchange with
  | same => exact ho
  | push hpc =>
    obtain ⟨hcid, htid, _⟩ := hs.send_ok _ hpc
    exact Own.push ho ⟨hcid, htid⟩
  | deleteTimer _ hr => exact Own.suffix ho (Timer.deleteTimer_suffix hr)
  | rexmit _ hr => exact Own.of_from ho (Timer.rexmitForDupAck_from hr).1
  | clearAcked => exact Own.suffix ho (Timer.clearAckedTop_suffix _ _)
  | fire hf => exact Own.of_from ho (Timer.fireTop_from hf).1

theorem Streaming.lowest (hs : Streaming k base pieces c) (ho : c.Owned) (hl : Timer.Lowest c.pr.timerheap.elems)
    (hstamp : c.Stamped) (h : c.SendStep c') : Timer.Lowest c'.pr.timerheap.elems := by
  obtain ⟨hchange, _⟩ := h.heapChange
  generalize c'.pr.timerheap = g at hchange
  cases hchange with
  | same => exact hl
  | @push v nt hpc =>
    obtain ⟨_, _, pre, hpieces, hpid⟩ := hs.send_ok _ hpc
    refine hl.push (hstamp v nt hpc) ?_
    intro m hm
    obtain ⟨s, hmem, hend, _⟩ := hs.armed m hm
    have hlast := (boundary_end hmem).le_last
    show m.pId ≤ nt.pId
    omega
  | deleteTimer _ hr => exact hl.subset (Timer.deleteTimer_suffix hr).subset
  | @rexmit r a now q _ hr =>
    have hheap := Timer.rexmitForDupAck_heap hr
    generalize q.2.1 = g at hheap
    have hsub : (c.pr.timerheap.popWhile (Timer.before c.pr.stb.sockd timerIdSndpkt a)).elems <:+
        c.pr.timerheap.elems := List.dropWhile_suffix _
    cases hheap with
    | popped => exact hl.subset hsub.subset
    | marked ht hb => exact (hl.subset hsub.subset).replaced (Own.suffix ho hsub) ht hb
  | clearAcked => exact hl.subset (Timer.clearAckedTop_suffix _ _).subset
  | fire hf => exact hl.fireTop ho hf

/-- No step of `send` fails. -/
theorem Streaming.send_returns (hs : Streaming k base pieces c) (now : ℕ) {pc : SendAt}
    (hpc : c.send = some pc) : ∃ r, sendMicro now c.pr pc = .ok r := by
  have hok := hs.send_ok pc hpc
  cases pc with
  | getwnd | subtract | advance | sendto | newNode | push => exact ⟨_, rfl⟩
  | compare | test | getAt | remove =>
    simp only [sendMicro]
    split <;> exact ⟨_, rfl⟩
  | sized v s =>
    cases v with
    | none => exact ⟨_, rfl⟩
    | some v =>
      simp only [sendMicro]
      split <;> split <;> exact ⟨_, rfl⟩
  | genPkt v len buf =>
    obtain ⟨l, rfl, _⟩ := hok
    simp only [sendMicro]
    unfold genPkt
    rw [if_neg (by omega)]
    exact ⟨_, rfl⟩

end Steps
end Process
end TcpOverUdp
