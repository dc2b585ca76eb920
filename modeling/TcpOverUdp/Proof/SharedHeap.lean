import TcpOverUdp.Proof.TimerExpiry
import Mathlib.Data.List.Find

/-! # Several connections in one heap

The heap is ordered by connection first, and every loop looks at its top only. So the timers of other
connections decide what `delete_timer` and `rexmit_for_dup_ack` do for one of them
(`ack_processing_independent_iff`), which nodes the clean-up before a timeout drops
(`clearAckedTop_safe_iff`) and whether an expired segment is retransmitted (`expired_not_hidden_iff`).
-/
namespace TcpOverUdp
open MachineInt
set_option autoImplicit false

namespace Timer

/-! ## The loops in one step -/

/-- The nodes that `delete_timer` pops before it stops. -/
def acked (cid tid una : ℕ) (n : Node) : Bool := n.tId = tid ∧ n.cId = cid ∧ n.pId < una

/-- What `delete_timer` does with the node at which it stops. -/
def deleteAt (cid tid una : ℕ) (h : TimerHeap) : Except Halt (TimerHeap × Option Node) :=
  match h.top? with
  | none => .ok (h, none)
  | some n =>
    if n.tId = tid ∧ n.cId = cid ∧ n.pId = una then .ok (h.pop, some n)
    else if n.tId = tid ∧ n.cId = cid ∧ n.pId > una then .ok (h, none)
    else .error (.exit .procClearAckedpkt)

theorem deleteTimer_eq (cid tid una : ℕ) (h : TimerHeap) :
    deleteTimer cid tid una h = deleteAt cid tid una (h.popWhile (acked cid tid una)) := by
  refine MinHeap.popLoop_eq (procClearAckedpktLoop cid tid una) _ _ ?_ ?_ ?_ h.size h le_rfl
  · intro k h hn
    unfold deleteAt
    cases k <;> simp only [procClearAckedpktLoop, hn]
  · intro k h n hn hp
    rw [procClearAckedpktLoop]
    simp only [hn, if_pos (of_decide_eq_true hp)]
  · intro k h n hn hp
    rw [procClearAckedpktLoop]
    unfold deleteAt
    simp only [hn, if_neg (mt decide_eq_true hp)]

/-- Where a segment begins, as `rexmit_for_dup_ack` computes it. -/
def startOf (n : Node) : ℕ := u32 ((n.pId : ℤ) - n.payloadSize)

/-- The nodes that `rexmit_for_dup_ack` pops before it stops. -/
def before (cid tid pid : ℕ) (n : Node) : Bool := n.cId = cid ∧ n.tId = tid ∧ startOf n < pid

/-- What `rexmit_for_dup_ack` does with the node at which it stops. -/
def rexmitAt (tb : SockPtr → SockTb) (cid tid pid now : ℕ) (h : TimerHeap) :
    Except Halt (Bool × TimerHeap × List Tx) :=
  match h.top? with
  | none => .ok (false, h, [])
  | some n =>
    if n.cId = cid ∧ n.tId = tid ∧ startOf n = pid then
      .ok (true, h.pop.push (Node.ofRexmit cid tid n.pId n.st (tb n.st) n.data (-1) now).copy,
        [sendpkt (tb n.st) n])
    else .error (.exit .rexmitForDupAck)

theorem rexmitForDupAck_eq (tb : SockPtr → SockTb) (cid tid pid now : ℕ) (h : TimerHeap) :
    rexmitForDupAck tb cid tid pid now h =
      rexmitAt tb cid tid pid now (h.popWhile (before cid tid pid)) := by
  refine MinHeap.popLoop_eq (rexmitForDupAckLoop tb cid tid pid now) _ _ ?_ ?_ ?_ h.size h le_rfl
  · intro k h hn
    unfold rexmitAt
    cases k <;> simp only [rexmitForDupAckLoop, hn]
  · intro k h n hn hp
    have hp : n.cId = cid ∧ n.tId = tid ∧ u32 ((n.pId : ℤ) - n.payloadSize) < pid := of_decide_eq_true hp
    rw [rexmitForDupAckLoop]
    simp only [hn]
    rw [if_neg (by rintro ⟨_, _, he⟩; exact absurd he hp.2.2.ne), if_pos hp]
  · intro k h n hn hp
    have hp : ¬ (n.cId = cid ∧ n.tId = tid ∧ u32 ((n.pId : ℤ) - n.payloadSize) < pid) :=
      mt decide_eq_true hp
    rw [rexmitForDupAckLoop]
    unfold rexmitAt
    simp only [hn, if_neg hp]
    rfl

/-- The clean-up drops the first nodes, as long as their number is at most the `snd_una` of the
connection that is on top. -/
theorem clearAckedTop_eq {tb : SockPtr → SockTb} {h : TimerHeap} {top : Node} (ht : h.top? = some top) :
    clearAckedTop tb h = h.popWhile (fun n => n.pId ≤ (tb top.st).tc.sndUna) := by
  unfold clearAckedTop
  rw [ht]
  refine MinHeap.popLoop_eq (clearAckedTopLoop (tb top.st).tc.sndUna) _ id ?_ ?_ ?_ h.size h le_rfl
  · intro k h hn
    cases k <;> simp only [clearAckedTopLoop, hn] <;> rfl
  · intro k h n hn hp
    rw [clearAckedTopLoop]
    simp only [hn, if_pos (of_decide_eq_true hp)]
  · intro k h n hn hp
    rw [clearAckedTopLoop]
    simp only [hn, if_neg (mt decide_eq_true hp)]
    rfl

/-! ## Processing the ACKs of one connection -/

/-- Data segments of any number of connections, no two of one connection with the same number. -/
structure Segments (h : TimerHeap) : Prop where
  tId_eq : ∀ n ∈ h.elems, n.tId = timerIdSndpkt
  distinct : (h.elems.map Node.key).Nodup

def ownNodes (cid : ℕ) (h : TimerHeap) : TimerHeap := h.filter (fun n => n.cId = cid)

def otherNodes (cid : ℕ) (h : TimerHeap) : TimerHeap := h.filter (fun n => n.cId ≠ cid)

theorem cId_le_of_key_le {a b : Node} (h : a.key ≤ b.key) : a.cId ≤ b.cId := by
  unfold Node.key at h
  rw [Prod.Lex.toLex_le_toLex] at h
  rcases h with h | h
  · exact h.le
  · exact h.1.le

section Split
variable {cid : ℕ} {h : TimerHeap}

theorem mem_ownNodes {n : Node} : n ∈ (ownNodes cid h).elems ↔ n ∈ h.elems ∧ n.cId = cid := by
  unfold ownNodes
  rw [MinHeap.elems_filter, List.mem_filter, decide_eq_true_iff]

theorem own_first (hlow : ∀ n ∈ h.elems, cid ≤ n.cId) :
    ∃ others, h.elems = (ownNodes cid h).elems ++ others ∧ ∀ n ∈ others, cid < n.cId := by
  have hsplit := MinHeap.takeWhile_append_popWhile h (fun n => n.cId = cid)
  have hbehind : ∀ n ∈ (h.popWhile (fun n => n.cId = cid)).elems, cid < n.cId := by
    intro n hn
    cases ht : (h.popWhile (fun n => n.cId = cid)).top? with
    | none =>
      rw [MinHeap.top?_eq_none.mp ht] at hn
      cases hn
    | some top =>
      have hne : ¬ top.cId = cid := by simpa using MinHeap.top?_popWhile_not ht
      have hmem : top ∈ h.elems := (List.dropWhile_sublist _).subset (MinHeap.mem_of_top? ht)
      have hle := cId_le_of_key_le (MinHeap.top?_le ht hn)
      have hge := hlow top hmem
      omega
  refine ⟨_, ?_, hbehind⟩
  have hown : (ownNodes cid h).elems = h.elems.takeWhile (fun n => n.cId = cid) := by
    unfold ownNodes
    rw [MinHeap.elems_filter]
    nth_rewrite 1 [← hsplit]
    rw [List.filter_append, List.filter_eq_self.mpr, List.filter_eq_nil_iff.mpr, List.append_nil]
    · intro n hn
      simpa using (hbehind n hn).ne'
    · intro n hn
      have hown := List.mem_takeWhile_imp hn
      exact hown
  rw [hown, hsplit]

theorem lower_on_top (hlow : ¬ ∀ n ∈ h.elems, cid ≤ n.cId) : ∃ top, h.top? = some top ∧ top.cId < cid := by
  push Not at hlow
  obtain ⟨n, hn, hlt⟩ := hlow
  cases ht : h.top? with
  | none =>
    rw [MinHeap.top?_eq_none.mp ht] at hn
    cases hn
  | some top => exact ⟨top, rfl, (cId_le_of_key_le (MinHeap.top?_le ht hn)).trans_lt hlt⟩

end Split

/-- `delete_timer` returns, and takes out the acknowledged nodes of `cid` and no others. -/
def DeletesExactly (cid una : ℕ) (h : TimerHeap) : Prop :=
  ∃ r, deleteTimer cid timerIdSndpkt una h = .ok r ∧ r.1 = h.filter (fun n => ¬ (n.cId = cid ∧ n.pId ≤ una))

/-- The heap holds nodes of `cid` only; or none of a lower connection, and one of `cid` that is
numbered `una` or above. -/
def DeleteUndisturbed (cid una : ℕ) (h : TimerHeap) : Prop :=
  (∀ n ∈ h.elems, n.cId = cid) ∨
    (∀ n ∈ h.elems, cid ≤ n.cId) ∧ ∃ n ∈ h.elems, n.cId = cid ∧ una ≤ n.pId

/-- `rexmit_for_dup_ack` does what it does on the nodes of `cid` alone, and leaves the others as
they are. -/
def RexmitsAlone (tb : SockPtr → SockTb) (cid pid now : ℕ) (h : TimerHeap) : Prop :=
  match rexmitForDupAck tb cid timerIdSndpkt pid now (ownNodes cid h) with
  | .error e => rexmitForDupAck tb cid timerIdSndpkt pid now h = .error e
  | .ok (b, g, txs) => ∃ g', rexmitForDupAck tb cid timerIdSndpkt pid now h = .ok (b, g', txs) ∧
      ownNodes cid g' = g ∧ otherNodes cid g' = otherNodes cid h

/-- The heap holds nodes of `cid` only; or one of `cid` does not begin below `pid`, and if the first
of these begins at `pid` there is no lower connection. -/
def RexmitUndisturbed (cid pid : ℕ) (h : TimerHeap) : Prop :=
  (∀ n ∈ h.elems, n.cId = cid) ∨
    ∃ n, (ownNodes cid h).elems.find? (fun n => pid ≤ startOf n) = some n ∧
      (startOf n = pid → ∀ m ∈ h.elems, cid ≤ m.cId)

theorem Segments.pId_lt {h : TimerHeap} (hs : Segments h) {l₁ l₂ : List Node} {a b : Node}
    (he : h.elems = l₁ ++ a :: l₂) (hb : b ∈ l₂) (hc : b.cId = a.cId) : a.pId < b.pId := by
  have hsorted := h.sorted
  have hnodup := hs.distinct
  rw [he] at hsorted hnodup
  have hle : a.key ≤ b.key := (List.pairwise_cons.mp (List.pairwise_append.mp hsorted).2.1).1 b hb
  rw [List.map_append, List.map_cons] at hnodup
  have hne : a.key ≠ b.key := by
    intro heq
    have hnot := (List.nodup_cons.mp (List.nodup_append.mp hnodup).2.1).1
    rw [heq] at hnot
    exact hnot (List.mem_map_of_mem hb)
  have hlt := lt_of_le_of_ne hle hne
  unfold Node.key at hlt
  rw [Prod.Lex.toLex_lt_toLex] at hlt
  rcases hlt with hlt | hlt
  · exact absurd hc hlt.ne'
  · exact hlt.2

/-! ### `delete_timer` -/

theorem deleteAt_other {cid tid una : ℕ} {h : TimerHeap} {n : Node} (ht : h.top? = some n)
    (hc : ¬ n.cId = cid) : deleteAt cid tid una h = .error (.exit .procClearAckedpkt) := by
  unfold deleteAt
  simp only [ht]
  rw [if_neg (fun hx => hc hx.2.1), if_neg (fun hx => hc hx.2.1)]

theorem mem_takeWhile_acked {cid tid una : ℕ} {l : List Node} {n : Node}
    (hn : n ∈ l.takeWhile (acked cid tid una)) : n.cId = cid ∧ n.pId < una := by
  have hacked := List.mem_takeWhile_imp hn
  exact (of_decide_eq_true hacked).2

theorem filter_takeWhile_acked (cid tid una : ℕ) (l : List Node) :
    (l.takeWhile (acked cid tid una)).filter (fun m => ¬ (m.cId = cid ∧ m.pId ≤ una)) = [] := by
  refine List.filter_eq_nil_iff.mpr ?_
  intro m hm
  obtain ⟨hc, hp⟩ := mem_takeWhile_acked hm
  simp [hc, hp.le]

/-- Behind a node of `cid` that is numbered `una` or above, nothing of `cid` is acknowledged. -/
theorem Segments.filter_behind {cid una : ℕ} {h : TimerHeap} (hs : Segments h) {l₁ l₂ : List Node} {n : Node}
    (he : h.elems = l₁ ++ n :: l₂) (hc : n.cId = cid) (hge : una ≤ n.pId) :
    l₂.filter (fun m => ¬ (m.cId = cid ∧ m.pId ≤ una)) = l₂ := by
  refine List.filter_eq_self.mpr ?_
  intro m hm
  rw [decide_eq_true_iff]
  rintro ⟨hcm, hle⟩
  have hlt := hs.pId_lt he hm (hcm.trans hc.symm)
  omega

/-- `delete_timer` stops at a node of its own connection. -/
theorem deletesAt_own {cid una : ℕ} {h g : TimerHeap} {n : Node} (hs : Segments h)
    (hsplit : h.elems.takeWhile (acked cid timerIdSndpkt una) ++ g.elems = h.elems)
    (ht : g.top? = some n) (hc : n.cId = cid) (hge : una ≤ n.pId) :
    ∃ r, deleteAt cid timerIdSndpkt una g = .ok r ∧
      r.1 = h.filter (fun n => ¬ (n.cId = cid ∧ n.pId ≤ una)) := by
  have htop := MinHeap.top?_eq_some ht
  rw [htop] at hsplit
  have hmem : n ∈ h.elems := by
    rw [← hsplit]
    exact List.mem_append_right _ List.mem_cons_self
  have htid := hs.tId_eq n hmem
  have hkept := hs.filter_behind hsplit.symm hc hge
  unfold deleteAt
  simp only [ht, hc, htid, true_and]
  rcases hge.eq_or_lt with heq | hlt
  · refine ⟨_, if_pos heq.symm, ?_⟩
    ext1
    rw [MinHeap.elems_filter, ← hsplit, List.filter_append, filter_takeWhile_acked,
      List.filter_cons_of_neg (by simp [hc, heq.ge]), hkept]
    rfl
  · refine ⟨_, (if_neg hlt.ne').trans (if_pos hlt), ?_⟩
    ext1
    rw [MinHeap.elems_filter, ← hsplit, List.filter_append, filter_takeWhile_acked,
      List.filter_cons_of_pos (by simp [hlt]), hkept, htop]
    rfl

theorem deletesExactly_iff {cid una : ℕ} {h : TimerHeap} (hs : Segments h) :
    DeletesExactly cid una h ↔ DeleteUndisturbed cid una h := by
  have hsplit := MinHeap.takeWhile_append_popWhile h (acked cid timerIdSndpkt una)
  unfold DeletesExactly
  rw [deleteTimer_eq]
  cases ht : (h.popWhile (acked cid timerIdSndpkt una)).top? with
  | none =>
    have hnil := MinHeap.top?_eq_none.mp ht
    rw [hnil, List.append_nil] at hsplit
    refine iff_of_true ⟨_, by unfold deleteAt; rw [ht], ?_⟩ (Or.inl ?_)
    · ext1
      rw [hnil, MinHeap.elems_filter, ← hsplit, filter_takeWhile_acked]
    · intro n hn
      rw [← hsplit] at hn
      exact (mem_takeWhile_acked hn).1
  | some n =>
    have hmem : n ∈ h.elems := (List.dropWhile_sublist _).subset (MinHeap.mem_of_top? ht)
    have hstop : ¬ (n.tId = timerIdSndpkt ∧ n.cId = cid ∧ n.pId < una) :=
      fun hx => MinHeap.top?_popWhile_not ht (decide_eq_true hx)
    generalize (h.popWhile (acked cid timerIdSndpkt una)) = g at ht hsplit ⊢
    -- what is not popped is ordered behind the top
    have hbehind : ∀ m ∈ h.elems, m ∈ h.elems.takeWhile (acked cid timerIdSndpkt una) ∨ n.cId ≤ m.cId := by
      intro m hm
      rw [← hsplit] at hm
      rcases List.mem_append.mp hm with hm | hm
      · exact Or.inl hm
      · exact Or.inr (cId_le_of_key_le (MinHeap.top?_le ht hm))
    by_cases hc : n.cId = cid
    · have hge : una ≤ n.pId := not_lt.mp (fun hlt => hstop ⟨hs.tId_eq n hmem, hc, hlt⟩)
      refine iff_of_true (deletesAt_own hs hsplit ht hc hge) (Or.inr ⟨?_, n, hmem, hc, hge⟩)
      intro m hm
      rcases hbehind m hm with hm | hm
      · exact (mem_takeWhile_acked hm).1.ge
      · exact hc ▸ hm
    · refine iff_of_false ?_ ?_
      · rintro ⟨r, hr, _⟩
        rw [deleteAt_other ht hc] at hr
        cases hr
      · rintro (hall | ⟨hlow, m, hm, hcm, hge⟩)
        · exact hc (hall n hmem)
        · have hlow := hlow n hmem
          rcases hbehind m hm with hm | hm
          · have hlt := (mem_takeWhile_acked hm).2
            omega
          · omega

/-! ### `rexmit_for_dup_ack` -/

/-- Behind the nodes of `cid` no other is popped. -/
theorem popWhile_before {cid : ℕ} (pid : ℕ) {h : TimerHeap} {others : List Node}
    (he : h.elems = (ownNodes cid h).elems ++ others) (hothers : ∀ n ∈ others, cid < n.cId) :
    (h.popWhile (before cid timerIdSndpkt pid)).elems =
      ((ownNodes cid h).popWhile (before cid timerIdSndpkt pid)).elems ++ others := by
  have hkeep : others.dropWhile (before cid timerIdSndpkt pid) = others := by
    cases others with
    | nil => rfl
    | cons n l =>
      refine List.dropWhile_cons_of_neg ?_
      intro hb
      have hc := (of_decide_eq_true hb).1
      exact absurd hc (hothers n List.mem_cons_self).ne'
  rw [MinHeap.elems_popWhile, he, List.dropWhile_append]
  split
  · rename_i hnil
    rw [hkeep, MinHeap.elems_popWhile, List.isEmpty_iff.mp hnil, List.nil_append]
  · rfl

theorem find?_start {cid pid : ℕ} {h : TimerHeap} (hs : Segments h) :
    ((ownNodes cid h).popWhile (before cid timerIdSndpkt pid)).top? =
      (ownNodes cid h).elems.find? (fun n => pid ≤ startOf n) := by
  rw [MinHeap.top?_popWhile]
  refine List.find?_congr ?_
  intro n hn
  obtain ⟨hmem, hc⟩ := mem_ownNodes.mp hn
  have hbefore : before cid timerIdSndpkt pid n = decide (startOf n < pid) := by
    unfold before
    simp [hc, hs.tId_eq n hmem]
  rw [hbefore, ← decide_not]
  exact decide_eq_decide.mpr not_lt

theorem parts_eq {cid : ℕ} {h own : TimerHeap} {others : List Node} (he : h.elems = own.elems ++ others)
    (hown : ∀ n ∈ own.elems, n.cId = cid) (hothers : ∀ n ∈ others, cid < n.cId) :
    ownNodes cid h = own ∧ (otherNodes cid h).elems = others := by
  have h1 : others.filter (fun n => n.cId = cid) = [] :=
    List.filter_eq_nil_iff.mpr (fun n hn => by simpa using (hothers n hn).ne')
  have h2 : own.elems.filter (fun n => n.cId = cid) = own.elems :=
    List.filter_eq_self.mpr (fun n hn => by simpa using hown n hn)
  have h3 : others.filter (fun n => n.cId ≠ cid) = others :=
    List.filter_eq_self.mpr (fun n hn => by simpa using (hothers n hn).ne')
  have h4 : own.elems.filter (fun n => n.cId ≠ cid) = [] :=
    List.filter_eq_nil_iff.mpr (fun n hn => by simpa using hown n hn)
  constructor
  · ext1
    unfold ownNodes
    rw [MinHeap.elems_filter, he, List.filter_append, h1, h2, List.append_nil]
  · unfold otherNodes
    rw [MinHeap.elems_filter, he, List.filter_append, h3, h4, List.nil_append]

theorem rexmitAt_other (tb : SockPtr → SockTb) {cid tid pid now : ℕ} {h : TimerHeap} {n : Node}
    (ht : h.top? = some n) (hc : ¬ n.cId = cid) :
    rexmitAt tb cid tid pid now h = .error (.exit .rexmitForDupAck) := by
  unfold rexmitAt
  simp only [ht]
  exact if_neg (fun hx => hc hx.1)

/-- The top goes back under its key, and the parts stay apart. -/
theorem parts_push {cid : ℕ} {own left : TimerHeap} {others : List Node} {n nt : Node}
    (he : left.elems = own.elems ++ others) (hown : ∀ n ∈ own.elems, n.cId = cid)
    (hothers : ∀ n ∈ others, cid < n.cId) (hn : own.top? = some n) (hl : left.top? = some n)
    (hkey : nt.key = n.key) :
    ownNodes cid (left.pop.push nt) = own.pop.push nt ∧ (otherNodes cid (left.pop.push nt)).elems = others := by
  have hpush : (left.pop.push nt).elems = (own.pop.push nt).elems ++ others := by
    rw [MinHeap.push_pop_elems hl hkey, MinHeap.push_pop_elems hn hkey, MinHeap.elems_pop, he,
      MinHeap.top?_eq_some hn]
    rfl
  refine parts_eq hpush ?_ hothers
  intro m hm
  rcases (MinHeap.mem_push _ _ _).mp hm with rfl | hm
  · have hc : m.cId = n.cId := congrArg (fun k => (ofLex k).1) hkey
    exact hc.trans (hown n (MinHeap.mem_of_top? hn))
  · exact hown m (MinHeap.mem_of_mem_pop hm)

/-- Without lower connections only the end of the nodes of `cid` makes a difference. -/
theorem rexmitsAlone_iff_first (tb : SockPtr → SockTb) {cid pid : ℕ} (now : ℕ) {h : TimerHeap}
    (hs : Segments h) (hlow : ∀ n ∈ h.elems, cid ≤ n.cId) :
    RexmitsAlone tb cid pid now h ↔ RexmitUndisturbed cid pid h := by
  unfold RexmitsAlone RexmitUndisturbed
  rw [rexmitForDupAck_eq, rexmitForDupAck_eq, ← find?_start hs]
  obtain ⟨others, he, hothers⟩ := own_first hlow
  have hpop := popWhile_before pid he hothers
  have hleft : ∀ n ∈ ((ownNodes cid h).popWhile (before cid timerIdSndpkt pid)).elems,
      n ∈ h.elems ∧ n.cId = cid :=
    fun n hn => mem_ownNodes.mp ((List.dropWhile_sublist _).subset hn)
  have hrest := (parts_eq he (fun n hn => (mem_ownNodes.mp hn).2) hothers).2
  generalize (ownNodes cid h).popWhile (before cid timerIdSndpkt pid) = own at hpop hleft ⊢
  generalize h.popWhile (before cid timerIdSndpkt pid) = left at hpop ⊢
  have hown : ∀ n ∈ own.elems, n.cId = cid := fun n hn => (hleft n hn).2
  cases hn : own.top? with
  | none =>
    have hnil := MinHeap.top?_eq_none.mp hn
    have hstop : rexmitAt tb cid timerIdSndpkt pid now own = .ok (false, own, []) := by
      unfold rexmitAt
      rw [hn]
    rw [hstop]
    cases others with
    | nil =>
      -- the heap holds nothing but the nodes of `cid`
      have hparts := parts_eq hpop hown hothers
      have hleftnone : rexmitAt tb cid timerIdSndpkt pid now left = .ok (false, left, []) := by
        unfold rexmitAt
        rw [MinHeap.top?_eq_none.mpr (by rw [hpop, hnil]; rfl)]
      rw [List.append_nil] at he
      refine iff_of_true ⟨left, hleftnone, hparts.1, ?_⟩ (Or.inl fun n hn => (mem_ownNodes.mp (he ▸ hn)).2)
      ext1
      rw [hparts.2, hrest]
    | cons m l =>
      -- the loop meets the first node of another connection
      have hm : ¬ m.cId = cid := (hothers m List.mem_cons_self).ne'
      have hlefttop : left.top? = some m := by
        unfold MinHeap.top?
        rw [hpop, hnil]
        rfl
      refine iff_of_false ?_ ?_
      · rintro ⟨g, hg, _⟩
        rw [rexmitAt_other tb hlefttop hm] at hg
        cases hg
      · rintro (hall | ⟨_, hsome, _⟩)
        · have hmem : m ∈ h.elems := by
            rw [he]
            exact List.mem_append_right _ List.mem_cons_self
          exact hm (hall m hmem)
        · cases hsome
  | some n =>
    obtain ⟨hmem, hc⟩ := hleft n (MinHeap.mem_of_top? hn)
    have hlefttop : left.top? = some n := by
      unfold MinHeap.top?
      rw [hpop, MinHeap.top?_eq_some hn]
      rfl
    refine iff_of_true ?_ (Or.inr ⟨n, rfl, fun _ => hlow⟩)
    unfold rexmitAt
    simp only [hn, hlefttop, hc, hs.tId_eq n hmem, true_and]
    by_cases hstart : startOf n = pid
    · rw [if_pos hstart]
      have hkey : (Node.ofRexmit cid timerIdSndpkt n.pId n.st (tb n.st) n.data (-1) now).copy.key =
          n.key := by rw [← hc]; rfl
      have hparts := parts_push hpop hown hothers hn hlefttop hkey
      refine ⟨_, if_pos hstart, hparts.1, ?_⟩
      ext1
      rw [hparts.2, hrest]
    · rw [if_neg hstart]
      exact if_neg hstart

theorem rexmitsAlone_iff_lower (tb : SockPtr → SockTb) {cid pid : ℕ} (now : ℕ) {h : TimerHeap}
    (hs : Segments h) (hlow : ¬ ∀ n ∈ h.elems, cid ≤ n.cId) :
    RexmitsAlone tb cid pid now h ↔ RexmitUndisturbed cid pid h := by
  unfold RexmitsAlone RexmitUndisturbed
  rw [rexmitForDupAck_eq, rexmitForDupAck_eq, ← find?_start hs]
  obtain ⟨top, ht, hlt⟩ := lower_on_top hlow
  have hnot : ¬ ∀ n ∈ h.elems, n.cId = cid :=
    fun hall => absurd (hall top (MinHeap.mem_of_top? ht)) hlt.ne
  rw [MinHeap.popWhile_of_top_not ht (fun hb => absurd (of_decide_eq_true hb).1 hlt.ne),
    rexmitAt_other tb ht hlt.ne]
  unfold rexmitAt
  cases hn : ((ownNodes cid h).popWhile (before cid timerIdSndpkt pid)).top? with
  | none => simp [hnot]
  | some n =>
    obtain ⟨hmem, hc⟩ := mem_ownNodes.mp ((List.dropWhile_sublist _).subset (MinHeap.mem_of_top? hn))
    simp only [hc, hs.tId_eq n hmem, true_and]
    by_cases hstart : startOf n = pid
    · simp [hstart, hnot, hlow]
    · simp [hstart]

/-- Processing an ACK of `cid` does not depend on the timers of other connections, if and only if
neither loop meets one of them before it has found where to stop. -/
theorem ack_processing_independent_iff (tb : SockPtr → SockTb) (h : TimerHeap) (hs : Segments h)
    (cid una pid now : ℕ) :
    (DeletesExactly cid una h ↔ DeleteUndisturbed cid una h) ∧
      (RexmitsAlone tb cid pid now h ↔ RexmitUndisturbed cid pid h) := by
  refine ⟨deletesExactly_iff hs, ?_⟩
  by_cases hlow : ∀ n ∈ h.elems, cid ≤ n.cId
  · exact rexmitsAlone_iff_first tb now hs hlow
  · exact rexmitsAlone_iff_lower tb now hs hlow

/-- A data segment of one byte, first transmitted at time 1. -/
def byteNode (cid pid : ℕ) (st : SockPtr) (ms : ℤ) : Node :=
  { cId := cid, tId := timerIdSndpkt, pId := pid, st := st, payload := some [65]
    ms := ms, xmitms := 1, pushAckms := 0, nagleAckms := 0 }

/-- One segment of connection 3 and one of connection 4. -/
def twoConnections : TimerHeap := (MinHeap.empty.push (byteNode 4 2 1 500)).push (byteNode 3 2 0 900)

theorem twoConnections_segments : Segments twoConnections where
  tId_eq := by decide
  distinct := by decide

theorem ack_processing_independent_iff_two :
    (DeletesExactly 3 2 twoConnections ↔ DeleteUndisturbed 3 2 twoConnections) ∧
      (RexmitsAlone (fun _ => SockTb.init 0) 3 1 7 twoConnections ↔
        RexmitUndisturbed 3 1 twoConnections) :=
  ack_processing_independent_iff (fun _ => SockTb.init 0) twoConnections twoConnections_segments 3 2 1 7

/-- An ACK of connection 4 meets the timer of connection 3, and the process exits; so does the third
duplicate, which alone would retransmit. -/
theorem ack_processing_exits : Segments twoConnections ∧
    deleteTimer 4 timerIdSndpkt 2 twoConnections = .error (.exit .procClearAckedpkt) ∧
    ¬ DeletesExactly 4 2 twoConnections ∧
    rexmitForDupAck (fun _ => SockTb.init 0) 4 timerIdSndpkt 1 7 twoConnections =
      .error (.exit .rexmitForDupAck) ∧
    ∃ g tx, rexmitForDupAck (fun _ => SockTb.init 0) 4 timerIdSndpkt 1 7 (ownNodes 4 twoConnections) =
      .ok (true, g, [tx]) :=
  ⟨twoConnections_segments, rfl, (by rintro ⟨r, hr, _⟩; cases hr), rfl, _, _, rfl⟩

/-! ## The clean-up before a timeout -/

/-- The segment is not acknowledged on its own connection. -/
def Unacked (tb : SockPtr → SockTb) (n : Node) : Prop := (tb n.st).tc.sndUna < n.pId

instance (tb : SockPtr → SockTb) : DecidablePred (Unacked tb) :=
  fun n => inferInstanceAs (Decidable ((tb n.st).tc.sndUna < n.pId))

/-- Every unacknowledged node stays. -/
def CleanUpSafe (tb : SockPtr → SockTb) (h : TimerHeap) : Prop :=
  (clearAckedTop tb h).elems.filter (Unacked tb) = h.elems.filter (Unacked tb)

/-- Up to every unacknowledged node, in the order of the heap, there is one that is numbered above the
`snd_una` of the connection on top. -/
def Sheltered (tb : SockPtr → SockTb) (h : TimerHeap) : Prop :=
  ∀ top, h.top? = some top → ∀ n ∈ h.elems, Unacked tb n →
    ∃ m ∈ h.elems, m.key ≤ n.key ∧ (tb top.st).tc.sndUna < m.pId

theorem pId_eq_of_key_eq {a b : Node} (h : a.key = b.key) : a.pId = b.pId :=
  congrArg (fun k => (ofLex k).2) h

/-- The clean-up drops acknowledged segments only, if and only if no unacknowledged one stands among
the first nodes that are numbered up to the `snd_una` of the connection on top. -/
theorem clearAckedTop_safe_iff (tb : SockPtr → SockTb) (h : TimerHeap) :
    CleanUpSafe tb h ↔ Sheltered tb h := by
  unfold CleanUpSafe Sheltered
  cases ht : h.top? with
  | none =>
    refine iff_of_true ?_ (fun top htop => by cases htop)
    unfold clearAckedTop
    rw [ht]
  | some top =>
    have hmem : ∀ n ∈ h.elems, n ∈ h.elems.takeWhile (fun n => n.pId ≤ (tb top.st).tc.sndUna) ↔
        ∀ m ∈ h.elems, m.key ≤ n.key → m.pId ≤ (tb top.st).tc.sndUna := by
      intro n hn
      rw [MinHeap.mem_takeWhile_iff (fun a b hab => by rw [pId_eq_of_key_eq hab]) hn]
      simp only [decide_eq_true_iff]
    have hsplit := MinHeap.takeWhile_append_popWhile h (fun n => n.pId ≤ (tb top.st).tc.sndUna)
    rw [clearAckedTop_eq ht]
    generalize h.popWhile (fun n => n.pId ≤ (tb top.st).tc.sndUna) = left at hsplit ⊢
    generalize h.elems.takeWhile (fun n => n.pId ≤ (tb top.st).tc.sndUna) = dropped at hmem hsplit
    have hfilter : left.elems.filter (Unacked tb) = h.elems.filter (Unacked tb) ↔
        ∀ n ∈ dropped, ¬ Unacked tb n := by
      rw [← hsplit, List.filter_append, List.self_eq_append_left, List.filter_eq_nil_iff]
      simp only [decide_eq_true_iff]
    rw [hfilter]
    constructor
    · intro hsafe top' htop n hn hun
      cases htop
      by_contra hnone
      refine hsafe n ((hmem n hn).mpr ?_) hun
      intro m hm hle
      by_contra hgt
      exact hnone ⟨m, hm, hle, not_le.mp hgt⟩
    · intro hshelter n hn hun
      have hin : n ∈ h.elems := by
        rw [← hsplit]
        exact List.mem_append_left _ hn
      obtain ⟨m, hm, hle, hgt⟩ := hshelter top rfl n hin hun
      have hle' := (hmem n hin).mp hn m hm hle
      omega

/-- Two connections: all of connection 3 is acknowledged up to 5000, nothing of connection 4 is. -/
def twoTables (st : SockPtr) : SockTb := if st = 0 then (SockTb.init 3).setTCB 5000 5000 else SockTb.init 4

/-- The clean-up drops the segment of connection 4 as well. -/
theorem clearAckedTop_drops_unacked : byteNode 4 2 1 500 ∈ twoConnections.elems ∧
    Unacked twoTables (byteNode 4 2 1 500) ∧ (clearAckedTop twoTables twoConnections).elems = [] ∧
    ¬ CleanUpSafe twoTables twoConnections := by
  refine ⟨by decide, by decide, rfl, ?_⟩
  intro hsafe
  have hlen := congrArg List.length hsafe
  revert hlen
  decide

/-! ## Expired segments behind others -/

/-- Some connection's first segment has expired. -/
def FirstExpired (t : ℕ) (l : List Node) : Prop :=
  ∃ n ∈ l, (∀ m ∈ l, m.cId = n.cId → n.pId ≤ m.pId) ∧ Expired n.ms t

/-- The pass does not return without having retransmitted an expired segment. -/
def Retransmits (tb : SockPtr → SockTb) (t : ℕ) (h : TimerHeap) : Prop :=
  ∀ r, procSndpkt tb t h = .ok r →
    ∃ n ∈ h.elems, Expired n.ms t ∧ r.2 = some (n.st, sendpkt (tb n.st) n)

/-- The first node numbered above the `snd_una` of the connection on top has expired. -/
def FrontExpired (tb : SockPtr → SockTb) (t : ℕ) (h : TimerHeap) : Prop :=
  ∃ top n, h.top? = some top ∧ h.elems.find? (fun n => (tb top.st).tc.sndUna < n.pId) = some n ∧
    Expired n.ms t

theorem frontExpired_iff {tb : SockPtr → SockTb} {t : ℕ} {h : TimerHeap} :
    FrontExpired tb t h ↔ ∃ n, (clearAckedTop tb h).top? = some n ∧ Expired n.ms t := by
  unfold FrontExpired
  cases ht : h.top? with
  | none =>
    refine iff_of_false (by rintro ⟨top, _, htop, _⟩; cases htop) ?_
    rintro ⟨n, hn, _⟩
    unfold clearAckedTop at hn
    simp only [ht] at hn
    cases hn
  | some top =>
    have hfind : (clearAckedTop tb h).top? =
        h.elems.find? (fun n => (tb top.st).tc.sndUna < n.pId) := by
      rw [clearAckedTop_eq ht, MinHeap.top?_popWhile]
      refine List.find?_congr ?_
      intro n _
      rw [← decide_not]
      exact decide_eq_decide.mpr not_le
    rw [hfind]
    constructor
    · rintro ⟨top', n, htop, hn, hexp⟩
      cases htop
      exact ⟨n, hn, hexp⟩
    · rintro ⟨n, hn, hexp⟩
      exact ⟨top, n, rfl, hn, hexp⟩

theorem retransmits_iff (tb : SockPtr → SockTb) (t : ℕ) (h : TimerHeap) :
    Retransmits tb t h ↔ FrontExpired tb t h := by
  rw [frontExpired_iff]
  constructor
  · intro hall
    by_contra hnone
    have hquiet : procSndpkt tb t h = .ok (clearAckedTop tb h, none) := by
      unfold procSndpkt
      simp only
      cases hn : (clearAckedTop tb h).top? with
      | none => rfl
      | some n => exact if_neg (fun hexp => hnone ⟨n, hn, hexp⟩)
    obtain ⟨n, _, _, hsome⟩ := hall _ hquiet
    cases hsome
  · rintro ⟨n, hn, hexp⟩ r hr
    have hfired := (procSndpkt_fires_iff hn hr).mpr hexp
    cases procSndpkt_result hr with
    | quiet => cases hfired
    | @fired m g hm hlate _ =>
      exact ⟨m, (clearAckedTop_suffix tb h).subset (MinHeap.mem_of_top? hm), hlate, rfl⟩

/-- A pass retransmits exactly if the front of the heap has expired. So an expired first segment of any
connection makes it retransmit, if and only if there is none or the front has expired; whether the
acknowledged nodes removed are those of the code's clean-up or each connection's own. -/
theorem expired_not_hidden_iff (tb : SockPtr → SockTb) (t : ℕ) (h : TimerHeap) :
    (Retransmits tb t h ↔ FrontExpired tb t h) ∧
    ((FirstExpired t (h.elems.filter (Unacked tb)) → Retransmits tb t h) ↔
      ¬ FirstExpired t (h.elems.filter (Unacked tb)) ∨ FrontExpired tb t h) ∧
    ((FirstExpired t (clearAckedTop tb h).elems → Retransmits tb t h) ↔
      ¬ FirstExpired t (clearAckedTop tb h).elems ∨ FrontExpired tb t h) := by
  have hfront := retransmits_iff tb t h
  rw [hfront]
  exact ⟨Iff.rfl, imp_iff_not_or, imp_iff_not_or⟩

/-- At time 600 the segment of connection 4 has expired, behind one of connection 3 that has not. -/
theorem expired_hidden : FirstExpired 600 (twoConnections.elems.filter (Unacked fun _ => SockTb.init 0)) ∧
    FirstExpired 600 (clearAckedTop (fun _ => SockTb.init 0) twoConnections).elems ∧
    procSndpkt (fun _ => SockTb.init 0) 600 twoConnections = .ok (twoConnections, none) ∧
    ¬ Retransmits (fun _ => SockTb.init 0) 600 twoConnections := by
  have hfirst : FirstExpired 600 [byteNode 3 2 0 900, byteNode 4 2 1 500] := by
    refine ⟨byteNode 4 2 1 500, by simp, ?_, by unfold Expired; decide⟩
    intro m hm _
    rcases List.mem_pair.mp hm with rfl | rfl <;> exact le_refl _
  have hquiet : procSndpkt (fun _ => SockTb.init 0) 600 twoConnections = .ok (twoConnections, none) := rfl
  refine ⟨hfirst, hfirst, hquiet, ?_⟩
  intro hall
  obtain ⟨n, _, _, hsome⟩ := hall _ hquiet
  cases hsome

end Timer
end TcpOverUdp
