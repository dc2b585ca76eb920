import TcpOverUdp.Proof.SocketTables
import TcpOverUdp.Proof.DelayedAck

/-! # Timers and the connections they belong to

A node of either timer queue names its connection twice, by the descriptor in `c_id` and by the pointer
`st` to the table. The operations on the queues keep both, and no close removes a node
(`timers_live_iff`).
-/
namespace TcpOverUdp
open Node
set_option autoImplicit false

/-- Every node of `new` is for the connection of a node of `old`. -/
def SameConnections (old new : List Node) : Prop := ∀ b ∈ new, ∃ a ∈ old, b.cId = a.cId ∧ b.st = a.st

theorem SameConnections.refl (l : List Node) : SameConnections l l := fun b hb => ⟨b, hb, rfl, rfl⟩

theorem SameConnections.cons {a b : Node} {l l' : List Node} (hb : b.cId = a.cId ∧ b.st = a.st)
    (h : SameConnections l l') : SameConnections (a :: l) (b :: l') := by
  intro c hc
  rcases List.mem_cons.mp hc with rfl | hc
  · exact ⟨a, List.mem_cons_self, hb⟩
  · obtain ⟨d, hd, hcd⟩ := h c hc
    exact ⟨d, List.mem_cons_of_mem a hd, hcd⟩

theorem HeapFrom.sameConnections {h g : TimerHeap} (hg : HeapFrom h g) :
    SameConnections h.elems g.elems := by
  intro b hb
  obtain ⟨a, ha, hcopy⟩ := hg b hb
  exact ⟨a, ha, hcopy.cId_eq, hcopy.st_eq⟩

namespace Timer

/-! ## The ACK deque of several sockets -/

theorem refreshOwnAckNode_sameConnections {tb : SockPtr → SockTb} {cid tid curT : ℕ}
    {deque deque' : List Node} (h : refreshOwnAckNode tb cid tid curT deque = some deque') :
    SameConnections deque deque' := by
  induction deque generalizing deque' with
  | nil => cases h
  | cons n rest ih =>
    rw [refreshOwnAckNode] at h
    split at h
    · cases h
      exact (SameConnections.refl rest).cons ⟨rfl, rfl⟩
    · obtain ⟨rest', hrest, rfl⟩ := Option.map_eq_some_iff.mp h
      exact (ih hrest).cons ⟨rfl, rfl⟩

theorem updateOwnAck_nodes {tb : SockPtr → SockTb} {deque deque' : List Node} {cid tid curT : ℕ}
    {state : DelackState} {st : SockPtr}
    (h : updateOwnAck tb deque cid tid state st curT = .ok deque') :
    SameConnections deque deque' ∨ ∃ n, deque' = deque ++ [n] ∧ n.cId = cid ∧ n.st = st := by
  unfold updateOwnAck at h
  split at h
  · rename_i d hd
    cases h
    exact Or.inl (refreshOwnAckNode_sameConnections hd)
  · split at h
    · cases h
      exact Or.inr ⟨_, rfl, rfl, rfl⟩
    · cases h

theorem procDelackXmit_keeps {stb : SockTb} {n : Node} {t : ℕ} {r : SockTb × Node × List Tx}
    (h : procDelackXmit stb n t = .ok r) :
    r.1.sockd = stb.sockd ∧ r.2.1.cId = n.cId ∧ r.2.1.st = n.st := by
  rcases procDelackXmit_state h with ⟨hs, hn⟩ | ⟨hn, hs⟩
  · rw [hs, hn]
    exact ⟨rfl, rfl, rfl⟩
  · rw [hn]
    refine ⟨?_, rfl, rfl⟩
    rcases hs with hs | hs <;> rw [hs] <;> rfl

theorem procOwnDelackLoop_keeps {t : ℕ} {deque : List Node} {tb : SockPtr → SockTb}
    {r : (SockPtr → SockTb) × List Node × List Tx} (h : procOwnDelackLoop t tb deque = .ok r) :
    (∀ p, (r.1 p).sockd = (tb p).sockd) ∧ SameConnections deque r.2.1 := by
  induction deque generalizing tb r with
  | nil =>
    cases h
    exact ⟨fun _ => rfl, SameConnections.refl []⟩
  | cons n rest ih =>
    rw [procOwnDelackLoop] at h
    obtain ⟨r1, h1, h⟩ := of_bind_ok h
    obtain ⟨r2, h2, h⟩ := of_bind_ok h
    cases h
    obtain ⟨hsd, hown⟩ := procDelackXmit_keeps h1
    obtain ⟨htables, hnodes⟩ := ih h2
    refine ⟨fun p => (htables p).trans ?_, hnodes.cons hown⟩
    by_cases hp : p = n.st
    · subst hp
      rw [Function.update_self, hsd]
    · rw [Function.update_of_ne hp]

/-! With one socket the node's table is the table of the process. -/

theorem refreshOwnAckNode_of_one {tb : SockPtr → SockTb} {stb : SockTb} {cid tid curT : ℕ}
    {deque : List Node} (h : ∀ n ∈ deque, tb n.st = stb) :
    refreshOwnAckNode tb cid tid curT deque = refreshAckNode cid tid stb curT deque := by
  induction deque with
  | nil => rfl
  | cons n rest ih =>
    rw [refreshOwnAckNode, refreshAckNode, h n List.mem_cons_self,
      ih (fun m hm => h m (List.mem_cons_of_mem n hm))]

theorem updateOwnAck_of_one {tb : SockPtr → SockTb} {deque : List Node} {cid tid curT : ℕ}
    {state : DelackState} {st : SockPtr} (h : ∀ n ∈ deque, n.st = st) :
    updateOwnAck tb deque cid tid state st curT = updateAck deque cid tid state st (tb st) curT := by
  unfold updateOwnAck
  rw [refreshOwnAckNode_of_one (fun n hn => congrArg tb (h n hn))]
  rfl

theorem procOwnDelackLoop_of_one {t : ℕ} {tb : SockPtr → SockTb} {deque : List Node} {st : SockPtr}
    (h : ∀ n ∈ deque, n.st = st) :
    procOwnDelackLoop t tb deque =
      (procDelackLoop t (tb st) deque).map fun r => (Function.update tb st r.1, r.2) := by
  induction deque generalizing tb with
  | nil =>
    show Except.ok (tb, _) = Except.ok (Function.update tb st (tb st), _)
    rw [Function.update_eq_self]
  | cons n rest ih =>
    rw [procOwnDelackLoop, procDelackLoop, h n List.mem_cons_self]
    cases h1 : procDelackXmit (tb st) n t with
    | error e => rfl
    | ok r1 =>
      obtain ⟨stb1, n1, tx1⟩ := r1
      simp only [ok_bind]
      rw [ih (fun m hm => h m (List.mem_cons_of_mem n hm)), Function.update_self]
      cases h2 : procDelackLoop t stb1 rest with
      | error e => rfl
      | ok r2 =>
        show Except.ok (Function.update (Function.update tb st stb1) st r2.1, _) =
          Except.ok (Function.update tb st r2.1, _)
        rw [Function.update_idem]

end Timer

namespace World

/-! ## Runs of connections -/

inductive ConnCall where
  | touSocket | addTimer | updateAck | procDelack | procSndpkt | deleteTimer | rexmitForDupAck | other
  | close (sd : ℕ)

/-- One operation: a socket is made, data is exchanged or a timer pass is made, or the client closes.
Whatever else happens to a table leaves its descriptor; that includes a close which still waits. -/
inductive ConnStep : World → ConnCall → World → Prop
  | touSocket {w : World} {sd : ℕ} (h : sd ∉ w.openFds) : ConnStep w .touSocket (w.touSocket sd)
  | touSocketFailed {w : World} : ConnStep w .touSocket w.touSocketFailed
  | addTimer {w w' : World} {sockfd pid now : ℕ} {payload : List Byte}
      (h : w.addTimer sockfd pid payload now = some w') : ConnStep w .addTimer w'
  | updateAck {w w' : World} {sockfd now : ℕ} {state : DelackState}
      (h : w.updateAck sockfd state now = some (.ok w')) : ConnStep w .updateAck w'
  | procDelack {w w' : World} {now : ℕ} (h : w.procDelack now = .ok w') : ConnStep w .procDelack w'
  | procSndpkt {w w' : World} {now : ℕ} (h : w.procSndpkt now = .ok w') : ConnStep w .procSndpkt w'
  | deleteTimer {w w' : World} {sockfd una recvT : ℕ} (h : w.deleteTimer sockfd una recvT = .ok w') :
      ConnStep w .deleteTimer w'
  | rexmitForDupAck {w w' : World} {sockfd pid now : ℕ} (h : w.rexmitForDupAck sockfd pid now = .ok w') :
      ConnStep w .rexmitForDupAck w'
  | other {w : World} {p : SockPtr} {stb : SockTb} (h : stb.sockd = (w.table p).sockd) :
      ConnStep w .other (w.setTable p stb)
  | close {w w' : World} {sd : ℕ} {p : SockPtr} {content : List Byte}
      (hp : w.getSocketTable sd = some p) (hst : (w.table p).sockstate ≠ .closeWait)
      (h : Closes w sd (some content) w') : ConnStep w (.close sd) w'

/-- The table of a node's descriptor is the one that the node points to. -/
def Attached (w : World) (n : Node) : Prop := w.getSocketTable n.cId = some n.st

/-- No timer outlives its connection. -/
structure TimersLive (w : World) : Prop where
  timerheap : ∀ n ∈ w.timerheap.elems, w.Attached n
  ackdeque : ∀ n ∈ w.ackdeque, w.Attached n

/-- The close of `sd` finds no timer of `sd`. -/
def NoTimerLeft (w : World) : ConnCall → Prop
  | .close sd => (∀ n ∈ w.timerheap.elems, n.cId ≠ sd) ∧ ∀ n ∈ w.ackdeque, n.cId ≠ sd
  | _ => True

/-- `stbq` holds allocated pointers, each once. -/
structure Queued (w : World) : Prop where
  allocated : w.Allocated
  nodup : w.stbq.Nodup

theorem Queued.of_queue {w w' : World} (hw : Queued w) (hq : w'.stbq = w.stbq)
    (hn : w'.newTable = w.newTable) : Queued w' :=
  ⟨fun p hp => hn ▸ hw.allocated p (hq ▸ hp), hq ▸ hw.nodup⟩

theorem Queued.addSocketTable {w : World} (hw : Queued w) (fd : ℕ) : Queued (w.addSocketTable fd) where
  allocated := hw.allocated.addSocketTable fd
  nodup := by
    have hnew : w.newTable ∉ w.stbq := fun hmem => (hw.allocated _ hmem).false
    exact List.nodup_append.mpr ⟨hw.nodup, List.nodup_singleton _,
      fun a ha b hb hab => hnew (by rw [← List.mem_singleton.mp hb, ← hab]; exact ha)⟩

/-- What every operation but a close does: it takes no table away, and each timer is one from before or
is attached to its table. -/
structure Extends (w w' : World) : Prop where
  queued : Queued w'
  tables : ∀ sd p, w.getSocketTable sd = some p → w'.getSocketTable sd = some p
  timerheap : ∀ b ∈ w'.timerheap.elems,
    w'.Attached b ∨ ∃ a ∈ w.timerheap.elems, b.cId = a.cId ∧ b.st = a.st
  ackdeque : ∀ b ∈ w'.ackdeque, w'.Attached b ∨ ∃ a ∈ w.ackdeque, b.cId = a.cId ∧ b.st = a.st

theorem TimersLive.of_extends {w w' : World} (h : TimersLive w) (he : Extends w w') : TimersLive w' := by
  constructor
  · intro b hb
    rcases he.timerheap b hb with hb | ⟨a, ha, hc, hs⟩
    · exact hb
    · rw [Attached, hc, hs]
      exact he.tables _ _ (h.timerheap a ha)
  · intro b hb
    rcases he.ackdeque b hb with hb | ⟨a, ha, hc, hs⟩
    · exact hb
    · rw [Attached, hc, hs]
      exact he.tables _ _ (h.ackdeque a ha)

/-! ## One operation -/

theorem getSocketTable_congr {w w' : World} (hq : w'.stbq = w.stbq)
    (ht : ∀ p, (w'.table p).sockd = (w.table p).sockd) (sd : ℕ) :
    w'.getSocketTable sd = w.getSocketTable sd := by
  rw [getSocketTable_eq, getSocketTable_eq, tablesOf_congr hq ht]

/-- Where the queue of tables stays and every table keeps its descriptor, only the timers matter. -/
theorem Extends.of_tables {w w' : World} (hw : Queued w) (hq : w'.stbq = w.stbq)
    (hn : w'.newTable = w.newTable)
    (ht : ∀ p, (w'.table p).sockd = (w.table p).sockd)
    (hheap : SameConnections w.timerheap.elems w'.timerheap.elems)
    (hdeque : SameConnections w.ackdeque w'.ackdeque) : Extends w w' :=
  { queued := hw.of_queue hq hn
    tables := fun sd _ hp => (getSocketTable_congr hq ht sd).trans hp
    timerheap := fun b hb => Or.inr (hheap b hb)
    ackdeque := fun b hb => Or.inr (hdeque b hb) }

/-- The answer for a descriptor is the first of its tables, so a table behind them does not change it. -/
theorem getSocketTable_addSocketTable {w : World} (hw : w.Allocated) (fd : ℕ) {sd : ℕ} {p : SockPtr}
    (h : w.getSocketTable sd = some p) : (w.addSocketTable fd).getSocketTable sd = some p := by
  rw [getSocketTable_eq] at h ⊢
  rw [tablesOf_addSocketTable hw, List.head?_append, h]
  rfl

theorem Extends.of_added {w : World} (hw : Queued w) (fd : ℕ) (openFds : List ℕ) :
    Extends w { w.addSocketTable fd with openFds := openFds } where
  queued := (hw.addSocketTable fd).of_queue rfl rfl
  tables := fun _ _ hp => getSocketTable_addSocketTable hw.allocated fd hp
  timerheap := fun b hb => Or.inr ⟨b, hb, rfl, rfl⟩
  ackdeque := fun b hb => Or.inr ⟨b, hb, rfl, rfl⟩

theorem Extends.addTimer {w w' : World} {sockfd pid now : ℕ} {payload : List Byte} (hw : Queued w)
    (h : w.addTimer sockfd pid payload now = some w') : Extends w w' := by
  obtain ⟨p, hp, rfl⟩ := Option.map_eq_some_iff.mp h
  refine ⟨hw.of_queue rfl rfl, fun _ _ hq => hq, ?_, fun b hb => Or.inr ⟨b, hb, rfl, rfl⟩⟩
  intro b hb
  rcases (MinHeap.mem_push _ _ _).mp hb with rfl | hb
  · exact Or.inl hp
  · exact Or.inr ⟨b, hb, rfl, rfl⟩

theorem Extends.updateAck {w w' : World} {sockfd now : ℕ} {state : DelackState} (hw : Queued w)
    (h : w.updateAck sockfd state now = some (.ok w')) : Extends w w' := by
  obtain ⟨p, hp, hr⟩ := Option.map_eq_some_iff.mp h
  obtain ⟨deque, hd, hr⟩ := of_bind_ok hr
  cases hr
  refine ⟨hw.of_queue rfl rfl, fun _ _ hq => hq, fun b hb => Or.inr ⟨b, hb, rfl, rfl⟩, ?_⟩
  rw [sockd_of_getSocketTable hp] at hd
  rcases Timer.updateOwnAck_nodes hd with hsame | ⟨n, rfl, hcid, hst⟩
  · exact fun b hb => Or.inr (hsame b hb)
  · intro b hb
    rcases List.mem_append.mp hb with hb | hb
    · exact Or.inr ⟨b, hb, rfl, rfl⟩
    · rw [List.mem_singleton.mp hb]
      left
      show w.getSocketTable n.cId = some n.st
      rw [hcid, hst]
      exact hp

theorem Extends.procDelack {w w' : World} {now : ℕ} (hw : Queued w) (h : w.procDelack now = .ok w') :
    Extends w w' := by
  obtain ⟨r, hr, h⟩ := of_bind_ok h
  cases h
  obtain ⟨htables, hnodes⟩ := Timer.procOwnDelackLoop_keeps hr
  exact .of_tables hw rfl rfl htables (SameConnections.refl _) hnodes

theorem Extends.procSndpkt {w w' : World} {now : ℕ} (hw : Queued w) (h : w.procSndpkt now = .ok w') :
    Extends w w' := by
  obtain ⟨⟨heap, fired⟩, hr, h⟩ := of_bind_ok h
  have hheap := (Timer.procSndpkt_from hr).1.sameConnections
  cases fired with
  | none =>
    cases h
    exact .of_tables hw rfl rfl (fun _ => rfl) hheap (SameConnections.refl _)
  | some fired =>
    cases h
    exact .of_tables hw rfl rfl (setTable_sockd rfl) hheap (SameConnections.refl _)

theorem Extends.deleteTimer {w w' : World} {sockfd una recvT : ℕ} (hw : Queued w)
    (h : w.deleteTimer sockfd una recvT = .ok w') : Extends w w' := by
  obtain ⟨⟨heap, sample⟩, hr, h⟩ := of_bind_ok h
  have hheap := (HeapFrom.of_suffix (Timer.deleteTimer_suffix hr)).sameConnections
  cases sample with
  | none =>
    cases h
    exact .of_tables hw rfl rfl (fun _ => rfl) hheap (SameConnections.refl _)
  | some nt =>
    cases h
    refine .of_tables hw rfl rfl (setTable_sockd ?_) hheap (SameConnections.refl _)
    unfold Timer.calRto
    split <;> rfl

theorem Extends.rexmitForDupAck {w w' : World} {sockfd pid now : ℕ} (hw : Queued w)
    (h : w.rexmitForDupAck sockfd pid now = .ok w') : Extends w w' := by
  obtain ⟨r, hr, h⟩ := of_bind_ok h
  cases h
  exact .of_tables hw rfl rfl (fun _ => rfl) (Timer.rexmitForDupAck_from hr).1.sameConnections
    (SameConnections.refl _)

theorem extends_of_step {w w' : World} {c : ConnCall} (hw : Queued w) (h : ConnStep w c w')
    (hc : ∀ sd, c ≠ .close sd) : Extends w w' := by
  cases h with
  | @touSocket sd _ => exact .of_added hw sd _
  | touSocketFailed => exact .of_added hw invalidFd _
  | addTimer h => exact .addTimer hw h
  | updateAck h => exact .updateAck hw h
  | procDelack h => exact .procDelack hw h
  | procSndpkt h => exact .procSndpkt hw h
  | deleteTimer h => exact .deleteTimer hw h
  | rexmitForDupAck h => exact .rexmitForDupAck hw h
  | other h =>
    exact .of_tables hw rfl rfl (setTable_sockd h) (SameConnections.refl _) (SameConnections.refl _)
  | @close _ sd _ _ _ _ _ => exact absurd rfl (hc sd)

theorem close_removes {w w' : World} {sd : ℕ} {p : SockPtr} {content : List Byte} (hw : Queued w)
    (hp : w.getSocketTable sd = some p) (hst : (w.table p).sockstate ≠ .closeWait)
    (h : Closes w sd (some content) w') :
    Queued w' ∧ w'.timerheap = w.timerheap ∧ w'.ackdeque = w.ackdeque ∧
      (∀ d, d ≠ sd → w'.getSocketTable d = w.getSocketTable d) ∧ w'.getSocketTable sd ≠ some p := by
  obtain ⟨q, stb, hq, hsd, hcase⟩ := h.effect
  obtain rfl : q = p := Option.some.inj (hq.symm.trans hp)
  rcases hcase with ⟨hnone, _⟩ | ⟨_, hserver, _⟩ | ⟨_, _, rfl⟩
  · exact absurd hnone (Option.some_ne_none content)
  · exact absurd hserver hst
  · have htables (d : ℕ) : (((w.setTable q stb).delSocketTable sd).closeFd sd).tablesOf d =
        if d = sd then (w.tablesOf d).tail else w.tablesOf d := by
      rw [tablesOf_closeFd, tablesOf_delSocketTable, tablesOf_setTable hsd]
    refine ⟨⟨?_, ?_⟩, rfl, rfl, ?_, ?_⟩
    · intro x hx
      exact hw.allocated x (List.mem_of_mem_eraseP hx)
    · exact hw.nodup.sublist List.eraseP_sublist
    · intro d hd
      rw [getSocketTable_eq, getSocketTable_eq, htables, if_neg hd]
    · rw [getSocketTable_eq, htables, if_pos rfl]
      intro hhead
      rw [getSocketTable_eq] at hp
      obtain ⟨rest, hrest⟩ := List.head?_eq_some_iff.mp hp
      have hnodup : (w.tablesOf sd).Nodup := hw.nodup.filter _
      rw [hrest, List.nodup_cons] at hnodup
      rw [hrest, List.tail_cons] at hhead
      exact hnodup.1 (List.mem_of_mem_head? hhead)

theorem Queued.step {w w' : World} {c : ConnCall} (hw : Queued w) (h : ConnStep w c w') : Queued w' := by
  by_cases hc : ∀ sd, c ≠ .close sd
  · exact (extends_of_step hw h hc).queued
  · cases h with
    | close hp hst h => exact (close_removes hw hp hst h).1
    | _ => exact absurd (fun _ => ConnCall.noConfusion) hc

theorem TimersLive.step {w w' : World} {c : ConnCall} (hw : Queued w) (hl : TimersLive w)
    (hok : NoTimerLeft w c) (h : ConnStep w c w') : TimersLive w' := by
  by_cases hc : ∀ sd, c ≠ .close sd
  · exact hl.of_extends (extends_of_step hw h hc)
  · cases h with
    | @close _ sd p content hp hst h =>
      obtain ⟨_, hheap, hdeque, hother, _⟩ := close_removes hw hp hst h
      constructor
      · intro n hn
        rw [hheap] at hn
        exact (hother n.cId (hok.1 n hn)).trans (hl.timerheap n hn)
      · intro n hn
        rw [hdeque] at hn
        exact (hother n.cId (hok.2 n hn)).trans (hl.ackdeque n hn)
    | _ => exact absurd (fun _ => ConnCall.noConfusion) hc

/-- A timer that a close leaves behind points to a table that its descriptor no longer has. -/
theorem noTimerLeft_of_live {w w' : World} {c : ConnCall} (hw : Queued w) (hl : TimersLive w)
    (h : ConnStep w c w') (hl' : TimersLive w') : NoTimerLeft w c := by
  cases h with
  | @close _ sd p content hp hst h =>
    obtain ⟨_, hheap, hdeque, _, hgone⟩ := close_removes hw hp hst h
    have hlost (n : Node) (hn : w.Attached n) (hn' : w'.Attached n) : n.cId ≠ sd := by
      rintro rfl
      obtain rfl : n.st = p := Option.some.inj (hn.symm.trans hp)
      exact hgone hn'
    constructor
    · exact fun n hn => hlost n (hl.timerheap n hn) (hl'.timerheap n (hheap ▸ hn))
    · exact fun n hn => hlost n (hl.ackdeque n hn) (hl'.ackdeque n (hdeque ▸ hn))
  | _ => trivial

/-! ## Every run -/

/-- `run(timerheap.top().c_id)` finds a table, and `update_ack` refreshes a node of the connection that
now has the descriptor. -/
structure TimersUsable (w : World) : Prop where
  run : ∀ n, w.timerheap.top? = some n → ∃ p, w.getSocketTable n.cId = some p
  updateAck : ∀ sockfd p, w.getSocketTable sockfd = some p → ∀ n ∈ w.ackdeque, n.cId = sockfd → n.st = p

theorem TimersLive.usable {w : World} (h : TimersLive w) : TimersUsable w where
  run := fun n hn => ⟨n.st, h.timerheap n (MinHeap.mem_of_top? hn)⟩
  updateAck := by
    rintro sockfd p hp n hn rfl
    exact Option.some.inj ((h.ackdeque n hn).symm.trans hp)

/-- In every run of sockets, data and client closes the timers stay with their connections exactly
while each close finds no timer of its socket. -/
theorem timers_live_iff {l : List (World × ConnCall)} {w : World} (h : Trace ConnStep start l w) :
    Throughout (fun v => TimersLive v ∧ TimersUsable v) l w ↔ ∀ x ∈ l, NoTimerLeft x.1 x.2 :=
  h.throughout_iff Queued TimersLive _ NoTimerLeft
    ⟨fun _ hp => absurd hp List.not_mem_nil, List.nodup_nil⟩
    (fun _ _ _ hw hs => hw.step hs)
    ⟨fun _ hn => absurd hn List.not_mem_nil, fun _ hn => absurd hn List.not_mem_nil⟩
    (fun _ hl => ⟨hl, hl.usable⟩)
    (fun _ _ _ hw hl hok hs => hl.step hw hok hs)
    (fun _ _ _ hw hl hs hl' => noTimerLeft_of_live hw hl.1 hs hl'.1)

/-- A segment is acknowledged before its connection is closed and the descriptor handed out again, while
a segment of another connection waits. -/
theorem timers_live_iff_reused : ∃ l w, Trace ConnStep start l w ∧ l.map (·.2) =
      [.touSocket, .touSocket, .addTimer, .addTimer, .deleteTimer, .close 3, .touSocket] ∧
    w.getSocketTable 3 = some 2 ∧ pIds w.timerheap = [2] ∧
    Throughout (fun v => TimersLive v ∧ TimersUsable v) l w := by
  let own : ObjPkg := ObjPkg.ofSize TouHeader.blank 0 0
  let w1 : World := start.touSocket 3
  let w2 : World := w1.touSocket 4
  let w3 : World :=
    { w2 with timerheap := Timer.add w2.timerheap 3 timerIdSndpkt 2 0 (w2.table 0) [65] 5 }
  let w4 : World :=
    { w3 with timerheap := Timer.add w3.timerheap 4 timerIdSndpkt 2 1 (w3.table 1) [66] 5 }
  let seg : Node := (Node.ofPayload 3 timerIdSndpkt 2 0 (w2.table 0) [65] 5).copy
  let w5 : World :=
    World.setTable { w4 with timerheap := w4.timerheap.pop } 0 (Timer.calRto (w4.table 0) seg 7)
  let w6 : World := w5.afterClosing 3 0 (Process.touClose (w5.table 0) own own ⟨0, 0⟩ (some [])) true
  have hadd3 : w2.addTimer 3 2 [65] 5 = some w3 := rfl
  have hadd4 : w3.addTimer 4 2 [66] 5 = some w4 := rfl
  have hack : w4.deleteTimer 3 2 7 = .ok w5 := rfl
  have hclose : w5.touClose 3 own own ⟨0, 0⟩ (some []) = some w6 := rfl
  have h1 : ConnStep start .touSocket w1 := .touSocket List.not_mem_nil
  have h2 : ConnStep w1 .touSocket w2 := .touSocket (by decide)
  have h6 : ConnStep w5 (.close 3) w6 := .close rfl (fun h => by cases h) (.touClose hclose)
  have h7 : ConnStep w6 .touSocket (w6.touSocket 3) := .touSocket (by decide)
  have h := ((((((Trace.nil.snoc h1).snoc h2).snoc (.addTimer hadd3)).snoc (.addTimer hadd4)).snoc
    (.deleteTimer hack)).snoc h6).snoc h7
  refine ⟨_, _, h, rfl, by decide +kernel, by decide +kernel, (timers_live_iff h).mpr ?_⟩
  have hleft : (∀ n ∈ w5.timerheap.elems, n.cId ≠ 3) ∧ ∀ n ∈ w5.ackdeque, n.cId ≠ 3 := by
    decide +kernel
  simp only [List.nil_append, List.cons_append, List.forall_mem_cons]
  exact ⟨trivial, trivial, trivial, trivial, trivial, hleft, trivial, List.forall_mem_nil _⟩

/-- A client closes while a segment and a delayed ACK wait: `run` is called for a descriptor without a
table, and the next connection of that descriptor meets the ACK node of the one before. -/
theorem closed_with_timers : ∃ l w w', Trace ConnStep start l w ∧ ConnStep w .touSocket w' ∧
    (∃ n, w.timerheap.top? = some n ∧ w.getSocketTable n.cId = none) ∧
    ∃ n ∈ w'.ackdeque, n.st = 0 ∧ w'.getSocketTable n.cId = some 1 := by
  let own : ObjPkg := ObjPkg.ofSize TouHeader.blank 0 0
  let w1 : World := start.touSocket 3
  let seg : Node := (Node.ofPayload 3 timerIdSndpkt 2 0 (w1.table 0) [65] 0).copy
  let w2 : World := { w1 with timerheap := MinHeap.empty.push seg }
  let w3 : World := { w2 with ackdeque := Timer.addAck [] 3 timerIdDelack 0 (w2.table 0) 0 }
  let w4 : World := w3.afterClosing 3 0 (Process.touClose (w3.table 0) own own ⟨0, 0⟩ (some [])) true
  have hadd : w1.addTimer 3 2 [65] 0 = some w2 := rfl
  have hack : w2.updateAck 3 .xmit 0 = some (.ok w3) := rfl
  have hclose : w3.touClose 3 own own ⟨0, 0⟩ (some []) = some w4 := rfl
  have hfds : w4.openFds = [] := rfl
  have h1 : ConnStep start .touSocket w1 := .touSocket List.not_mem_nil
  have h2 : ConnStep w1 .addTimer w2 := .addTimer hadd
  have h3 : ConnStep w2 .updateAck w3 := .updateAck hack
  have h4 : ConnStep w3 (.close 3) w4 := .close rfl (fun h => by cases h) (.touClose hclose)
  have h5 : ConnStep w4 .touSocket (w4.touSocket 3) := .touSocket (hfds ▸ List.not_mem_nil)
  exact ⟨_, w4, _, (((Trace.nil.snoc h1).snoc h2).snoc h3).snoc h4, h5, ⟨seg, rfl, by decide +kernel⟩,
    ⟨_, List.mem_cons_self, rfl, by decide +kernel⟩⟩

end World
end TcpOverUdp
