import TcpOverUdp.Proof.Segment
import Mathlib.Data.List.TakeWhile

/-! # What the timer operations do to the heap

Every operation but `add` leaves nodes that are copies of nodes it found, perhaps with other times
(`CopyOf`, `HeapFrom`). On a heap whose nodes all belong to one connection the operations never
reach an `exit`, except the one in `rexmit_for_dup_ack`, and what they do is a matter of the ascending
list of the `p_id`s alone.
-/
namespace TcpOverUdp
open MachineInt
set_option autoImplicit false

/-! ## C strings -/

theorem cstr_cstr (s : List Byte) : cstr (cstr s) = cstr s := List.takeWhile_idem

theorem cstr_isPrefix (s : List Byte) : cstr s <+: s := List.takeWhile_prefix _

theorem cstr_length_le (s : List Byte) : (cstr s).length ≤ s.length := (cstr_isPrefix s).length_le

theorem cstr_eq_self_iff (s : List Byte) : cstr s = s ↔ (0 : Byte) ∉ s := by
  unfold cstr
  rw [List.takeWhile_eq_self_iff]
  constructor
  · intro h h0
    simpa using h 0 h0
  · intro h x hx
    simp only [decide_eq_true_eq]
    rintro rfl
    exact h hx

/-! ## Copies of a node -/

namespace Node

/-- The payload of a node, none for an ACK node. -/
def data (n : Node) : List Byte := n.payload.getD []

/-- `b` is `a` or was copied from it, perhaps with other times. -/
structure CopyOf (a b : Node) : Prop where
  cId_eq : b.cId = a.cId
  tId_eq : b.tId = a.tId
  pId_eq : b.pId = a.pId
  st_eq : b.st = a.st
  data_eq : b.data = a.data ∨ b.data = cstr a.data

@[simp] theorem data_copy (n : Node) : n.copy.data = cstr n.data := by
  unfold data copy
  cases n.payload <;> rfl

theorem CopyOf.refl (a : Node) : CopyOf a a := ⟨rfl, rfl, rfl, rfl, Or.inl rfl⟩

theorem CopyOf.copy {a b : Node} (h : CopyOf a b) : CopyOf a b.copy where
  cId_eq := h.cId_eq
  tId_eq := h.tId_eq
  pId_eq := h.pId_eq
  st_eq := h.st_eq
  data_eq := by
    right
    rw [data_copy]
    rcases h.data_eq with hd | hd
    · rw [hd]
    · rw [hd, cstr_cstr]

theorem CopyOf.trans {a b c : Node} (h : CopyOf a b) (h' : CopyOf b c) : CopyOf a c where
  cId_eq := h'.cId_eq.trans h.cId_eq
  tId_eq := h'.tId_eq.trans h.tId_eq
  pId_eq := h'.pId_eq.trans h.pId_eq
  st_eq := h'.st_eq.trans h.st_eq
  data_eq := by
    rcases h'.data_eq with hd' | hd' <;> rcases h.data_eq with hd | hd <;> rw [hd', hd]
    · exact Or.inl rfl
    · exact Or.inr rfl
    · exact Or.inr rfl
    · exact Or.inr (cstr_cstr _)

/-- New times make no difference. -/
theorem CopyOf.retime {a b : Node} (h : CopyOf a b) (ms xmitms : ℤ) :
    CopyOf a { b with ms := ms, xmitms := xmitms } := ⟨h.cId_eq, h.tId_eq, h.pId_eq, h.st_eq, h.data_eq⟩

theorem CopyOf.payloadSize_le {a b : Node} (h : CopyOf a b) : b.payloadSize ≤ a.payloadSize := by
  show b.data.length ≤ a.data.length
  rcases h.data_eq with hd | hd <;> rw [hd]
  exact cstr_length_le _

theorem CopyOf.key_eq {a b : Node} (h : CopyOf a b) : b.key = a.key := by
  unfold key
  rw [h.cId_eq, h.pId_eq]

end Node

open Node

/-- Every node of `g` is a copy of a node of `h`. -/
def HeapFrom (h g : TimerHeap) : Prop := ∀ b ∈ g.elems, ∃ a ∈ h.elems, CopyOf a b

theorem HeapFrom.refl (h : TimerHeap) : HeapFrom h h := fun b hb => ⟨b, hb, CopyOf.refl b⟩

theorem HeapFrom.trans {h g k : TimerHeap} (hg : HeapFrom h g) (gk : HeapFrom g k) : HeapFrom h k := by
  intro c hc
  obtain ⟨b, hb, hbc⟩ := gk c hc
  obtain ⟨a, ha, hab⟩ := hg b hb
  exact ⟨a, ha, hab.trans hbc⟩

theorem HeapFrom.of_suffix {h g : TimerHeap} (hs : g.elems <:+ h.elems) : HeapFrom h g :=
  fun b hb => ⟨b, hs.subset hb, CopyOf.refl b⟩

theorem HeapFrom.push {h g : TimerHeap} {b : Node} (hg : HeapFrom h g)
    (hb : ∃ a ∈ h.elems, CopyOf a b) : HeapFrom h (g.push b) := by
  intro c hc
  rcases (MinHeap.mem_push g b c).mp hc with rfl | hc
  · exact hb
  · exact hg c hc

theorem MinHeap.pop_suffix (h : TimerHeap) : h.pop.elems <:+ h.elems := List.tail_suffix _

namespace Timer

/-! ## Frames -/

theorem procClearAckedpktLoop_suffix (cid tid una k : ℕ) (h : TimerHeap)
    {r : TimerHeap × Option Node} (hr : procClearAckedpktLoop cid tid una k h = .ok r) :
    r.1.elems <:+ h.elems := by
  induction k generalizing h with
  | zero =>
    cases hr
    exact List.suffix_refl _
  | succ k ih =>
    rw [procClearAckedpktLoop] at hr
    split at hr
    · cases hr
      exact List.suffix_refl _
    · split_ifs at hr
      · exact (ih _ hr).trans (MinHeap.pop_suffix h)
      · cases hr
        exact MinHeap.pop_suffix h
      · cases hr
        exact List.suffix_refl _

theorem deleteTimer_suffix {cid tid una : ℕ} {h : TimerHeap} {r : TimerHeap × Option Node}
    (hr : deleteTimer cid tid una h = .ok r) : r.1.elems <:+ h.elems :=
  procClearAckedpktLoop_suffix cid tid una h.size h hr

/-- `rexmit_for_dup_ack` finds nothing, or retransmits the node that is on top when it stops. -/
inductive RexmitResult (tb : SockPtr → SockTb) (cid tid pid now : ℕ) (h : TimerHeap) :
    Bool × TimerHeap × List Tx → Prop
  | none {g : TimerHeap} (hs : g.elems <:+ h.elems) : RexmitResult tb cid tid pid now h (false, g, [])
  | sent {g : TimerHeap} {n : Node} (hs : g.elems <:+ h.elems) (ht : g.top? = some n)
      (hc : n.cId = cid ∧ n.tId = tid) (hp : u32 ((n.pId : ℤ) - n.payloadSize) = pid) :
      RexmitResult tb cid tid pid now h (true,
        g.pop.push (Node.ofRexmit cid tid n.pId n.st (tb n.st) n.data (-1) now).copy,
        [sendpkt (tb n.st) n])

theorem rexmitForDupAckLoop_result (tb : SockPtr → SockTb) (cid tid pid now k : ℕ) (h : TimerHeap)
    {r : Bool × TimerHeap × List Tx} (hr : rexmitForDupAckLoop tb cid tid pid now k h = .ok r) :
    RexmitResult tb cid tid pid now h r := by
  induction k generalizing h with
  | zero =>
    cases hr
    exact RexmitResult.none (List.suffix_refl _)
  | succ k ih =>
    rw [rexmitForDupAckLoop] at hr
    split at hr
    · cases hr
      exact RexmitResult.none (List.suffix_refl _)
    · rename_i n hn
      simp only at hr
      split_ifs at hr with h1 h2
      · cases hr
        exact RexmitResult.sent (List.suffix_refl _) hn ⟨h1.1, h1.2.1⟩ h1.2.2
      · cases ih _ hr with
        | none hs => exact RexmitResult.none (hs.trans (MinHeap.pop_suffix h))
        | sent hs ht hc hp => exact RexmitResult.sent (hs.trans (MinHeap.pop_suffix h)) ht hc hp

theorem rexmitForDupAck_from {tb : SockPtr → SockTb} {cid tid pid now : ℕ} {h : TimerHeap}
    {r : Bool × TimerHeap × List Tx} (hr : rexmitForDupAck tb cid tid pid now h = .ok r) :
    HeapFrom h r.2.1 ∧ ∀ tx ∈ r.2.2, ∃ n ∈ h.elems, tx = sendpkt (tb n.st) n := by
  cases rexmitForDupAckLoop_result tb cid tid pid now h.size h hr with
  | none hs => exact ⟨HeapFrom.of_suffix hs, by simp⟩
  | @sent g n hs ht hc hp =>
    have hmem : n ∈ h.elems := hs.subset (MinHeap.mem_of_top? ht)
    refine ⟨(HeapFrom.of_suffix ((MinHeap.pop_suffix g).trans hs)).push ⟨n, hmem, ?_⟩, ?_⟩
    · exact CopyOf.copy ⟨hc.1.symm, hc.2.symm, rfl, rfl, Or.inl rfl⟩
    · intro tx htx
      rw [List.mem_singleton] at htx
      exact ⟨n, hmem, htx⟩

theorem clearAckedTopLoop_suffix (una k : ℕ) (h : TimerHeap) :
    (clearAckedTopLoop una k h).elems <:+ h.elems := by
  induction k generalizing h with
  | zero => exact List.suffix_refl _
  | succ k ih =>
    rw [clearAckedTopLoop]
    split
    · exact List.suffix_refl _
    · split
      · exact (ih _).trans (MinHeap.pop_suffix h)
      · exact List.suffix_refl _

theorem clearAckedTop_suffix (tb : SockPtr → SockTb) (h : TimerHeap) :
    (clearAckedTop tb h).elems <:+ h.elems := by
  unfold clearAckedTop
  split
  · exact List.suffix_refl _
  · exact clearAckedTopLoop_suffix _ _ h

theorem postponeLoop_from (thConn timerId thSeq curRto k : ℕ) {h₀ h temp r : TimerHeap}
    (hh : HeapFrom h₀ h) (ht : HeapFrom h₀ temp)
    (hr : postponeLoop thConn timerId thSeq curRto k h temp = .ok r) : HeapFrom h₀ r := by
  induction k generalizing h temp with
  | zero =>
    cases hr
    exact ht
  | succ k ih =>
    rw [postponeLoop] at hr
    split at hr
    · cases hr
      exact ht
    · rename_i n hn
      have hpop : HeapFrom h₀ h.pop := hh.trans (HeapFrom.of_suffix (MinHeap.pop_suffix h))
      obtain ⟨a, ha, hcopy⟩ := hh n (MinHeap.mem_of_top? hn)
      have hpush : HeapFrom h₀ (temp.push n.copy) := ht.push ⟨a, ha, hcopy.copy⟩
      split_ifs at hr
      · exact ih hpop hpush hr
      · exact ih hpop (ht.push ⟨a, ha, (hcopy.copy.retime _ _).copy⟩) hr
      · exact ih hpop ht hr
      · exact ih hpop hpush hr

theorem restoreLoop_from (k : ℕ) {h₀ temp h : TimerHeap} (ht : HeapFrom h₀ temp)
    (hh : HeapFrom h₀ h) : HeapFrom h₀ (restoreLoop k temp h) := by
  induction k generalizing temp h with
  | zero => exact hh
  | succ k ih =>
    rw [restoreLoop]
    split
    · exact hh
    · rename_i n hn
      obtain ⟨a, ha, hcopy⟩ := ht n (MinHeap.mem_of_top? hn)
      exact ih (ht.trans (HeapFrom.of_suffix (MinHeap.pop_suffix temp))) (hh.push ⟨a, ha, hcopy.copy⟩)

theorem heapFrom_empty (h : TimerHeap) : HeapFrom h MinHeap.empty := by
  intro b hb
  simp at hb

theorem postponeTimer_from {thConn timerId thSeq curRto : ℕ} {h r : TimerHeap}
    (hr : postponeTimer thConn timerId thSeq curRto h = .ok r) : HeapFrom h r := by
  obtain ⟨temp, ht, hres⟩ := of_bind_ok hr
  cases hres
  exact restoreLoop_from _ (postponeLoop_from _ _ _ _ _ (HeapFrom.refl h) (heapFrom_empty h) ht)
    (heapFrom_empty h)

/-- The node that a timeout stores in place of the retransmitted one. -/
def firedNode (stb : SockTb) (now : ℕ) (n : Node) : Node :=
  { n.copy with xmitms := -1, ms := s32 (u32 ((u32 ((stb.tc.tRto : ℤ) * 2) : ℤ) + now)) }

theorem firedNode_copyOf (stb : SockTb) (now : ℕ) (n : Node) : CopyOf n (firedNode stb now n) :=
  (CopyOf.refl n).copy.retime _ _

/-- `proc_sndpkt` only clears acknowledged nodes, or retransmits the least node that is left. -/
inductive SndpktResult (tb : SockPtr → SockTb) (now : ℕ) (h : TimerHeap) :
    TimerHeap × Option (SockPtr × Tx) → Prop
  | quiet : SndpktResult tb now h (clearAckedTop tb h, none)
  | fired {n : Node} {g : TimerHeap} (ht : (clearAckedTop tb h).top? = some n)
      (hlate : u32 n.ms < now)
      (hg : g = (clearAckedTop tb h).pop.push (firedNode (tb n.st) now n).copy ∨
        ∃ top : Node, ((clearAckedTop tb h).pop.push (firedNode (tb n.st) now n).copy).top? = some top ∧
          postponeTimer top.cId top.tId top.pId (u32 (((tb n.st).tc.tRto : ℤ) * 2))
            ((clearAckedTop tb h).pop.push (firedNode (tb n.st) now n).copy) = .ok g) :
      SndpktResult tb now h (g, some (n.st, sendpkt (tb n.st) n))

theorem procSndpkt_result {tb : SockPtr → SockTb} {now : ℕ} {h : TimerHeap}
    {r : TimerHeap × Option (SockPtr × Tx)} (hr : procSndpkt tb now h = .ok r) :
    SndpktResult tb now h r := by
  unfold procSndpkt at hr
  simp only at hr
  split at hr
  · cases hr
    exact SndpktResult.quiet
  · rename_i n hn
    by_cases hlate : u32 n.ms < now
    · rw [if_pos hlate] at hr
      split at hr
      · cases hr
        exact SndpktResult.fired hn hlate (Or.inl rfl)
      · rename_i top htop
        split at hr
        · obtain ⟨g, hg, hres⟩ := of_bind_ok hr
          cases hres
          exact SndpktResult.fired hn hlate (Or.inr ⟨top, htop, hg⟩)
        · cases hr
          exact SndpktResult.fired hn hlate (Or.inl rfl)
    · rw [if_neg hlate] at hr
      cases hr
      exact SndpktResult.quiet

theorem procSndpkt_from {tb : SockPtr → SockTb} {now : ℕ} {h : TimerHeap}
    {r : TimerHeap × Option (SockPtr × Tx)} (hr : procSndpkt tb now h = .ok r) :
    HeapFrom h r.1 ∧ ∀ f, r.2 = some f → ∃ n ∈ h.elems, f = (n.st, sendpkt (tb n.st) n) := by
  have hclear : HeapFrom h (clearAckedTop tb h) := HeapFrom.of_suffix (clearAckedTop_suffix tb h)
  cases procSndpkt_result hr with
  | quiet => exact ⟨hclear, by simp⟩
  | @fired n g ht _ hg =>
    have hmem : n ∈ h.elems := (clearAckedTop_suffix tb h).subset (MinHeap.mem_of_top? ht)
    have hpush : HeapFrom h ((clearAckedTop tb h).pop.push (firedNode (tb n.st) now n).copy) :=
      (hclear.trans (HeapFrom.of_suffix (MinHeap.pop_suffix _))).push
        ⟨n, hmem, (firedNode_copyOf _ _ n).copy⟩
    refine ⟨?_, ?_⟩
    · rcases hg with rfl | ⟨top, _, hg⟩
      · exact hpush
      · exact hpush.trans (postponeTimer_from hg)
    · intro f hf
      cases hf
      exact ⟨n, hmem, rfl⟩

end Timer

/-! ## The heap of one connection -/

/-- All nodes are those of the data segments of the connection `cid`. -/
def Own (cid : ℕ) (h : TimerHeap) : Prop := ∀ n ∈ h.elems, n.cId = cid ∧ n.tId = timerIdSndpkt

def pIds (h : TimerHeap) : List ℕ := h.elems.map Node.pId

section Own
variable {cid : ℕ} {h g : TimerHeap}

theorem Own.of_from (ho : Own cid h) (hf : HeapFrom h g) : Own cid g := by
  intro b hb
  obtain ⟨a, ha, hab⟩ := hf b hb
  rw [hab.cId_eq, hab.tId_eq]
  exact ho a ha

theorem Own.pop (ho : Own cid h) : Own cid h.pop :=
  ho.of_from (HeapFrom.of_suffix (MinHeap.pop_suffix h))

theorem Own.top (ho : Own cid h) {n : Node} (hn : h.top? = some n) :
    n.cId = cid ∧ n.tId = timerIdSndpkt := ho n (MinHeap.mem_of_top? hn)

theorem Own.key_le {a b : Node} (ho : Own cid h) (ha : a ∈ h.elems) (hb : b ∈ h.elems) :
    a.key ≤ b.key ↔ a.pId ≤ b.pId := by
  unfold Node.key
  rw [Prod.Lex.toLex_le_toLex, (ho a ha).1, (ho b hb).1]
  simp

/-- The numbers of one connection's nodes ascend. -/
theorem Own.sorted (ho : Own cid h) : (pIds h).Pairwise (· ≤ ·) := by
  unfold pIds
  rw [List.pairwise_map]
  exact h.sorted.imp_of_mem fun ha hb hab => (ho.key_le ha hb).mp hab

theorem pIds_top {n : Node} (hn : h.top? = some n) : pIds h = n.pId :: pIds h.pop := by
  unfold pIds
  rw [MinHeap.top?_eq_some hn]
  rfl

theorem pIds_of_none (hn : h.top? = none) : pIds h = [] := by
  unfold pIds
  rw [MinHeap.top?_eq_none.mp hn]
  rfl

theorem length_pIds (h : TimerHeap) : (pIds h).length = h.size := List.length_map _

end Own

namespace Timer
variable {cid : ℕ} {h : TimerHeap}

theorem filter_gt_cons_le {una x : ℕ} (l : List ℕ) (hx : x ≤ una) :
    (x :: l).filter (una < ·) = l.filter (una < ·) :=
  List.filter_cons_of_neg (by simpa using hx)

theorem filter_gt_eq_self {una : ℕ} {l : List ℕ} (hl : ∀ y ∈ l, una < y) : l.filter (una < ·) = l :=
  List.filter_eq_self.mpr (fun y hy => by simpa using hl y hy)

/-- `delete_timer` takes out the acknowledged nodes, and reaches no `exit`. -/
theorem procClearAckedpktLoop_own (una k : ℕ) (h : TimerHeap) (ho : Own cid h)
    (hs : (pIds h).Pairwise (· < ·)) (hk : h.size ≤ k) :
    ∃ r, procClearAckedpktLoop cid timerIdSndpkt una k h = .ok r ∧
      pIds r.1 = (pIds h).filter (una < ·) := by
  induction k generalizing h with
  | zero =>
    have hnil : pIds h = [] := List.length_eq_zero_iff.mp (by rw [length_pIds]; omega)
    exact ⟨_, rfl, by rw [hnil]; rfl⟩
  | succ k ih =>
    rw [procClearAckedpktLoop]
    cases hn : h.top? with
    | none => exact ⟨_, rfl, by rw [pIds_of_none hn]; rfl⟩
    | some n =>
      obtain ⟨hc, ht⟩ := ho.top hn
      simp only [hc, ht, true_and]
      have hids := pIds_top hn
      rw [hids] at hs
      obtain ⟨hlt, hs'⟩ := List.pairwise_cons.mp hs
      have hsize := MinHeap.size_pop h
      rcases lt_trichotomy n.pId una with hp | hp | hp
      · rw [if_pos hp]
        obtain ⟨r, hr, hrids⟩ := ih h.pop ho.pop hs' (by omega)
        exact ⟨r, hr, by rw [hrids, hids, filter_gt_cons_le _ (by omega)]⟩
      · rw [if_neg (by omega), if_pos hp]
        refine ⟨_, rfl, ?_⟩
        rw [hids, filter_gt_cons_le _ (by omega), filter_gt_eq_self]
        intro y hy
        have := hlt y hy
        omega
      · rw [if_neg (by omega), if_neg (by omega), if_pos (by omega)]
        refine ⟨_, rfl, ?_⟩
        rw [hids, filter_gt_eq_self]
        intro y hy
        rcases List.mem_cons.mp hy with rfl | hy
        · exact hp
        · have := hlt y hy
          omega

/-- Whatever the numbers are, `delete_timer` reaches no `exit`. -/
theorem deleteTimer_returns (una : ℕ) (ho : Own cid h) :
    ∃ r, deleteTimer cid timerIdSndpkt una h = .ok r := by
  unfold deleteTimer
  generalize h.size = k
  induction k generalizing h with
  | zero => exact ⟨_, rfl⟩
  | succ k ih =>
    rw [procClearAckedpktLoop]
    cases hn : h.top? with
    | none => exact ⟨_, rfl⟩
    | some n =>
      obtain ⟨hc, ht⟩ := ho.top hn
      simp only [hc, ht, true_and]
      rcases lt_trichotomy n.pId una with hp | hp | hp
      · rw [if_pos hp]
        exact ih ho.pop
      · rw [if_neg (by omega), if_pos hp]
        exact ⟨_, rfl⟩
      · rw [if_neg (by omega), if_neg (by omega), if_pos (by omega)]
        exact ⟨_, rfl⟩

theorem deleteTimer_pIds {una : ℕ} {r : TimerHeap × Option Node} (ho : Own cid h)
    (hs : (pIds h).Pairwise (· < ·)) (hr : deleteTimer cid timerIdSndpkt una h = .ok r) :
    pIds r.1 = (pIds h).filter (una < ·) := by
  obtain ⟨r', hr', hids⟩ := procClearAckedpktLoop_own una h.size h ho hs (le_refl _)
  rw [deleteTimer, hr'] at hr
  cases hr
  exact hids

/-- `rexmit_for_dup_ack` keeps the numbers when the least segment does not start below `pid`. -/
theorem rexmitForDupAck_pIds {tb : SockPtr → SockTb} {pid now : ℕ} {r : Bool × TimerHeap × List Tx}
    (hstart : ∀ n, h.top? = some n → pid ≤ u32 ((n.pId : ℤ) - n.payloadSize))
    (hr : rexmitForDupAck tb cid timerIdSndpkt pid now h = .ok r) : pIds r.2.1 = pIds h := by
  unfold rexmitForDupAck at hr
  cases hk : h.size with
  | zero =>
    rw [hk] at hr
    cases hr
    rfl
  | succ k =>
    rw [hk, rexmitForDupAckLoop] at hr
    cases hn : h.top? with
    | none =>
      rw [hn] at hr
      cases hr
      rfl
    | some n =>
      have hle := hstart n hn
      rw [hn] at hr
      simp only at hr
      split_ifs at hr with h1 h2
      · cases hr
        have hkey : (Node.ofRexmit cid timerIdSndpkt n.pId n.st (tb n.st) (n.payload.getD []) (-1)
            now).copy.key = n.key := by
          unfold Node.key
          rw [← h1.1]
          rfl
        simp only
        rw [pIds_top hn]
        unfold pIds
        rw [MinHeap.push_pop_elems hn hkey]
        rfl
      · omega

/-- When no node is acknowledged, `proc_clear_ackedpkt()` takes none out. -/
theorem clearAckedTop_eq_self {tb : SockPtr → SockTb}
    (hu : ∀ n, h.top? = some n → (tb n.st).tc.sndUna < n.pId) : clearAckedTop tb h = h := by
  unfold clearAckedTop
  cases hn : h.top? with
  | none => rfl
  | some n =>
    have hlt := hu n hn
    cases hk : h.size with
    | zero => rfl
    | succ k =>
      simp only
      rw [clearAckedTopLoop, hn]
      simp only
      rw [if_neg (by omega)]

/-- What the rebuild in `postpone_timer` makes of a node that it keeps. -/
def postponed (thConn timerId thSeq curRto : ℕ) (n : Node) : Node :=
  if n.cId = thConn ∧ n.tId = timerId ∧ thSeq < n.pId then
    ({ n.copy with ms := s32 (u32 (n.xmitms + curRto)) } : Node).copy
  else n.copy

theorem postponed_copyOf (thConn timerId thSeq curRto : ℕ) (n : Node) :
    CopyOf n (postponed thConn timerId thSeq curRto n) := by
  unfold postponed
  split
  · exact ((CopyOf.refl n).copy.retime _ _).copy
  · exact (CopyOf.refl n).copy

@[simp] theorem xmitms_postponed (thConn timerId thSeq curRto : ℕ) (n : Node) :
    (postponed thConn timerId thSeq curRto n).xmitms = n.xmitms := by
  unfold postponed
  split <;> rfl

/-- Without a node of the connection below `thSeq` nothing is dropped. -/
theorem postponeLoop_perm {thConn timerId thSeq curRto : ℕ} (k : ℕ) {h temp r : TimerHeap}
    (hge : ∀ n ∈ h.elems, n.cId = thConn → n.tId = timerId → thSeq ≤ n.pId) (hk : h.size ≤ k)
    (hr : postponeLoop thConn timerId thSeq curRto k h temp = .ok r) :
    r.elems.Perm (h.elems.map (postponed thConn timerId thSeq curRto) ++ temp.elems) := by
  induction k generalizing h temp with
  | zero =>
    have hnil : h.elems = [] := List.length_eq_zero_iff.mp (Nat.le_zero.mp hk)
    cases hr
    rw [hnil]
    exact List.Perm.refl _
  | succ k ih =>
    rw [postponeLoop] at hr
    cases hn : h.top? with
    | none =>
      rw [hn] at hr
      cases hr
      rw [MinHeap.top?_eq_none.mp hn]
      exact List.Perm.refl _
    | some n =>
      have hle := hge n (MinHeap.mem_of_top? hn)
      have hsize := MinHeap.size_pop h
      have hge' : ∀ m ∈ h.pop.elems, m.cId = thConn → m.tId = timerId → thSeq ≤ m.pId :=
        fun m hm => hge m (MinHeap.mem_of_mem_pop hm)
      -- what is pushed for the popped node is what the map makes of it
      have hmove : ∀ b : Node, b = postponed thConn timerId thSeq curRto n →
          (h.pop.elems.map (postponed thConn timerId thSeq curRto) ++ (temp.push b).elems).Perm
            (h.elems.map (postponed thConn timerId thSeq curRto) ++ temp.elems) := by
        intro b hb
        rw [MinHeap.top?_eq_some hn, List.map_cons, ← hb, List.cons_append]
        exact ((MinHeap.push_perm temp b).append_left _).trans List.perm_middle
      rw [hn] at hr
      simp only at hr
      split_ifs at hr with h1 h2 h3 h4 h5
      · refine (ih hge' (by omega) hr).trans (hmove _ (if_neg ?_).symm)
        rintro ⟨hc, ht, _⟩
        rcases h1 with h1 | h1
        · exact h1 hc
        · exact h1 ht
      · refine (ih hge' (by omega) hr).trans (hmove _ (if_pos ?_).symm)
        exact ⟨by_contra fun hc => h1 (Or.inl hc), by_contra fun ht => h1 (Or.inr ht), h2⟩
      · exact absurd (hle (by_contra fun hc => h1 (Or.inl hc)) (by_contra fun ht => h1 (Or.inr ht)))
          (not_le.mpr h4)
      · exact (ih hge' (by omega) hr).trans (hmove _ (if_neg (fun hx => h2 hx.2.2)).symm)

/-- The assertion holds where the nodes behind `thSeq` have a send time. -/
theorem postponeLoop_ok {thConn timerId thSeq : ℕ} (curRto k : ℕ) {h : TimerHeap} (temp : TimerHeap)
    (hx : ∀ n ∈ h.elems, n.cId = thConn → n.tId = timerId → thSeq < n.pId → n.xmitms > 0) :
    ∃ r, postponeLoop thConn timerId thSeq curRto k h temp = .ok r := by
  induction k generalizing h temp with
  | zero => exact ⟨temp, rfl⟩
  | succ k ih =>
    rw [postponeLoop]
    cases hn : h.top? with
    | none => exact ⟨temp, rfl⟩
    | some n =>
      have hx' := fun t => ih t (fun m hm => hx m (MinHeap.mem_of_mem_pop hm))
      have hsent := hx n (MinHeap.mem_of_top? hn)
      simp only
      split_ifs with h1 h2 h3 h4 h5
      · exact hx' _
      · exact hx' _
      · exact absurd (hsent (by_contra fun hc => h1 (Or.inl hc)) (by_contra fun ht => h1 (Or.inr ht)) h2) h3
      · exact hx' _
      · exact hx' _
      · omega

theorem restoreLoop_perm (k : ℕ) {temp h : TimerHeap} (hk : temp.size ≤ k) :
    (restoreLoop k temp h).elems.Perm (temp.elems.map Node.copy ++ h.elems) := by
  induction k generalizing temp h with
  | zero =>
    have hnil : temp.elems = [] := List.length_eq_zero_iff.mp (Nat.le_zero.mp hk)
    rw [hnil]
    exact List.Perm.refl _
  | succ k ih =>
    rw [restoreLoop]
    cases hn : temp.top? with
    | none =>
      rw [MinHeap.top?_eq_none.mp hn]
      exact List.Perm.refl _
    | some n =>
      have hsize := MinHeap.size_pop temp
      rw [MinHeap.top?_eq_some hn, List.map_cons, List.cons_append]
      exact ((ih (by omega)).trans ((MinHeap.push_perm h n.copy).append_left _)).trans List.perm_middle

/-- `postpone_timer`, called with the least number of the connection, keeps every node. -/
theorem postponeTimer_perm {thConn timerId thSeq curRto : ℕ} {h g : TimerHeap}
    (hge : ∀ n ∈ h.elems, n.cId = thConn → n.tId = timerId → thSeq ≤ n.pId)
    (hr : postponeTimer thConn timerId thSeq curRto h = .ok g) :
    g.elems.Perm (h.elems.map fun n => (postponed thConn timerId thSeq curRto n).copy) := by
  obtain ⟨temp, ht, hres⟩ := of_bind_ok hr
  cases hres
  have h1 := postponeLoop_perm _ hge (le_refl _) ht
  have h2 := restoreLoop_perm temp.size (h := MinHeap.empty) (le_refl _)
  rw [MinHeap.elems_empty, List.append_nil] at h1 h2
  have h3 := h2.trans (h1.map Node.copy)
  rw [List.map_map] at h3
  exact h3

theorem postponeTimer_pIds {thSeq curRto : ℕ} {g : TimerHeap} (ho : Own cid h)
    (hge : ∀ n ∈ h.elems, thSeq ≤ n.pId)
    (hr : postponeTimer cid timerIdSndpkt thSeq curRto h = .ok g) : pIds g = pIds h := by
  have hg := ho.of_from (postponeTimer_from hr)
  have hperm := (postponeTimer_perm (fun n hn _ _ => hge n hn) hr).map Node.pId
  rw [List.map_map] at hperm
  have hids : h.elems.map (Node.pId ∘ fun n => (postponed cid timerIdSndpkt thSeq curRto n).copy) =
      pIds h := List.map_congr_left fun n _ => (postponed_copyOf _ _ _ _ n).copy.pId_eq
  rw [hids] at hperm
  exact List.Perm.eq_of_pairwise' hg.sorted ho.sorted hperm

/-- A pass of `proc_sndpkt` over unacknowledged nodes keeps their numbers, and a timeout retransmits
the least node. -/
theorem procSndpkt_pIds (tb : SockPtr → SockTb) {now : ℕ} {r : TimerHeap × Option (SockPtr × Tx)}
    (ho : Own cid h) (hu : ∀ n ∈ h.elems, (tb n.st).tc.sndUna < n.pId)
    (hr : procSndpkt tb now h = .ok r) :
    pIds r.1 = pIds h ∧ ∀ f, r.2 = some f → ∃ n, h.top? = some n ∧ f = (n.st, sendpkt (tb n.st) n) := by
  have hclear : clearAckedTop tb h = h :=
    clearAckedTop_eq_self fun n hn => hu n (MinHeap.mem_of_top? hn)
  cases procSndpkt_result hr with
  | quiet =>
    rw [hclear]
    exact ⟨rfl, by simp⟩
  | @fired n g ht _ hg =>
    rw [hclear] at ht hg
    obtain ⟨nt, hnt⟩ : ∃ nt, nt = (firedNode (tb n.st) now n).copy := ⟨_, rfl⟩
    have hcopy : Node.CopyOf n nt := hnt ▸ (firedNode_copyOf (tb n.st) now n).copy
    rw [← hnt] at hg
    have hpush := MinHeap.push_pop_elems ht hcopy.key_eq
    have hids : pIds (h.pop.push nt) = pIds h := by
      rw [pIds_top ht]
      unfold pIds
      rw [hpush, List.map_cons, hcopy.pId_eq]
    refine ⟨?_, ?_⟩
    · rcases hg with rfl | ⟨top, htop, hg⟩
      · exact hids
      · have hon : Own cid (h.pop.push nt) :=
          ho.of_from ((HeapFrom.of_suffix (MinHeap.pop_suffix h)).push
            ⟨n, MinHeap.mem_of_top? ht, hcopy⟩)
        obtain ⟨hc, htid⟩ := hon.top htop
        rw [hc, htid] at hg
        refine (postponeTimer_pIds hon ?_ hg).trans hids
        intro b hb
        exact (hon.key_le (MinHeap.mem_of_top? htop) hb).mp (MinHeap.top?_le htop hb)
    · intro f hf
      cases hf
      exact ⟨n, ht, rfl⟩

end Timer
end TcpOverUdp
