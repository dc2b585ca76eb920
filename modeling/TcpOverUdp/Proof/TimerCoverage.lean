import TcpOverUdp.Proof.SenderRuns
import TcpOverUdp.Proof.TimerExpiry

/-! # Every unacknowledged segment has its timer

`Coverage` cuts what was sent since a state into the acknowledged pieces and those in flight, and
says that the armed timers are those of the pieces in flight, in their order. `send` appends to the
pieces in flight, an ACK moves some of them over, a timeout leaves both parts as they are.
-/
namespace TcpOverUdp
open MachineInt Pieces
set_option autoImplicit false

namespace Process

/-- The segments among the packets sent, each with its number: what `send` itself transmitted. -/
def segments (txs : List Tx) : List (ℕ × List Byte) :=
  (txs.filter (·.site = .send)).map fun tx => (tx.pkt.t.seq, tx.pkt.buf)

theorem segments_append (xs ys : List Tx) : segments (xs ++ ys) = segments xs ++ segments ys := by
  unfold segments
  rw [List.filter_append, List.map_append]

theorem segments_of_site_ne {txs : List Tx} (h : ∀ tx ∈ txs, tx.site ≠ .send) : segments txs = [] := by
  unfold segments
  rw [List.map_eq_nil_iff, List.filter_eq_nil_iff]
  intro tx htx
  simpa using h tx htx

theorem segments_sentTx (stb : SockTb) (xs : List (ℕ × List Byte)) :
    segments (xs.map (sentTx stb)) = xs := by
  induction xs with
  | nil => rfl
  | cons x xs ih =>
    rw [List.map_cons, ← List.singleton_append, segments_append, ih]
    rfl

/-- The segments sent after the first `k` packets. -/
def segmentsSince (k : ℕ) (p : Process) : List (ℕ × List Byte) := segments (p.sent.drop k)

theorem segmentsSince_sent {k : ℕ} {p q : Process} {txs : List Tx} (hk : k ≤ p.sent.length)
    (h : q.sent = p.sent ++ txs) : segmentsSince k q = segmentsSince k p ++ segments txs := by
  unfold segmentsSince
  rw [h, List.drop_append_of_le_length hk, segments_append]

theorem segmentsSince_same {k : ℕ} {p q : Process} {txs : List Tx} (hk : k ≤ p.sent.length)
    (h : q.sent = p.sent ++ txs) (hne : ∀ tx ∈ txs, tx.site ≠ .send) :
    segmentsSince k q = segmentsSince k p := by
  rw [segmentsSince_sent hk h, segments_of_site_ne hne, List.append_nil]

/-! ## The invariant -/

structure Coverage (k base : ℕ) (acked inflight : List (List Byte)) (p : Process) : Prop where
  log_eq : segmentsSince k p = numbered base (acked ++ inflight)
  nonempty : ∀ x ∈ acked ++ inflight, x ≠ []
  una_eq : p.stb.tc.sndUna = base + acked.flatten.length
  nxt_eq : p.stb.tc.sndNxt = p.stb.tc.sndUna + inflight.flatten.length
  nxt_lt : p.stb.tc.sndNxt < 4294967296
  armed : pIds p.timerheap = (numbered p.stb.tc.sndUna inflight).map endOf
  own : Own p.stb.sockd p.timerheap
  /-- A node may hold less than the bytes of its segment. -/
  short : ∀ n ∈ p.timerheap.elems, ∃ s ∈ numbered base (acked ++ inflight),
    n.pId = endOf s ∧ n.payloadSize ≤ s.2.length
  sent_le : k ≤ p.sent.length

def Covered (k base : ℕ) (p : Process) : Prop := ∃ acked inflight, Coverage k base acked inflight p

section Coverage
variable {k base : ℕ} {acked inflight : List (List Byte)} {p q : Process}

theorem Coverage.nonempty_inflight (hc : Coverage k base acked inflight p) : ∀ x ∈ inflight, x ≠ [] :=
  fun x hx => hc.nonempty x (List.mem_append_right _ hx)

theorem Coverage.una_boundary (hc : Coverage k base acked inflight p) :
    Boundary base (acked ++ inflight) p.stb.tc.sndUna := ⟨acked, inflight, rfl, hc.una_eq⟩

/-- The armed timers are the ends above `snd_una`, each once. -/
theorem Coverage.armed_eq (hc : Coverage k base acked inflight p) :
    pIds p.timerheap = ((segmentsSince k p).map endOf).filter (p.stb.tc.sndUna < ·) ∧
      ((segmentsSince k p).map endOf).Nodup := by
  rw [hc.log_eq, hc.armed, hc.una_eq, ends_above base acked inflight hc.nonempty_inflight]
  exact ⟨rfl, (ends_pairwise base _ hc.nonempty).imp ne_of_lt⟩

theorem Coverage.ascending (hc : Coverage k base acked inflight p) :
    (pIds p.timerheap).Pairwise (· < ·) := by
  rw [hc.armed]
  exact ends_pairwise _ _ hc.nonempty_inflight

theorem Coverage.una_lt (hc : Coverage k base acked inflight p) {n : Node}
    (hn : n ∈ p.timerheap.elems) : p.stb.tc.sndUna < n.pId := by
  have hmem : n.pId ∈ pIds p.timerheap := List.mem_map_of_mem hn
  rw [hc.armed] at hmem
  obtain ⟨s, hs, he⟩ := List.mem_map.mp hmem
  rw [← he]
  exact base_lt_end hc.nonempty_inflight hs

/-- No segment that is still armed starts below `snd_una`, by the count `rexmit_for_dup_ack` makes. -/
theorem Coverage.start_ge (hc : Coverage k base acked inflight p) {n : Node}
    (hn : n ∈ p.timerheap.elems) : p.stb.tc.sndUna ≤ u32 ((n.pId : ℤ) - n.payloadSize) := by
  obtain ⟨s, hs, hp, hsize⟩ := hc.short n hn
  have hlt := hc.una_lt hn
  have hlast := (boundary_end hs).le_last
  have hnxt := hc.nxt_lt
  have hu := hc.una_eq
  have hn2 := hc.nxt_eq
  rw [List.flatten_append, List.length_append] at hlast
  rcases boundary_not_inside hc.una_boundary hs with hle | hle
  · rw [hp]
    have hend : endOf s = s.1 + s.2.length := rfl
    rw [u32_sub _ _ (by omega) (by omega)]
    omega
  · omega

theorem Coverage.of_same (hc : Coverage k base acked inflight p)
    (hlog : segmentsSince k q = segmentsSince k p) (hlen : k ≤ q.sent.length)
    (hs : q.stb.sockd = p.stb.sockd) (hu : q.stb.tc.sndUna = p.stb.tc.sndUna)
    (hn : q.stb.tc.sndNxt = p.stb.tc.sndNxt) (hfrom : HeapFrom p.timerheap q.timerheap)
    (hids : pIds q.timerheap = pIds p.timerheap) : Coverage k base acked inflight q where
  log_eq := by rw [hlog, hc.log_eq]
  nonempty := hc.nonempty
  una_eq := by rw [hu, hc.una_eq]
  nxt_eq := by rw [hn, hu, hc.nxt_eq]
  nxt_lt := by rw [hn]; exact hc.nxt_lt
  armed := by rw [hids, hu, hc.armed]
  own := by rw [hs]; exact hc.own.of_from hfrom
  short n hn := by
    obtain ⟨m, hm, hcopy⟩ := hfrom n hn
    obtain ⟨s, hs, hp, hsize⟩ := hc.short m hm
    exact ⟨s, hs, hcopy.pId_eq.trans hp, le_trans hcopy.payloadSize_le hsize⟩
  sent_le := hlen

/-- Pieces in flight whose timers are gone are acknowledged ones. -/
theorem Coverage.moved {pre post : List (List Byte)} (hc : Coverage k base acked (pre ++ post) p)
    (hlog : segmentsSince k q = segmentsSince k p) (hlen : k ≤ q.sent.length)
    (hs : q.stb.sockd = p.stb.sockd)
    (hu : q.stb.tc.sndUna = p.stb.tc.sndUna + pre.flatten.length)
    (hn : q.stb.tc.sndNxt = p.stb.tc.sndNxt) (hfrom : HeapFrom p.timerheap q.timerheap)
    (hids : pIds q.timerheap = (pIds p.timerheap).filter (q.stb.tc.sndUna < ·)) :
    Coverage k base (acked ++ pre) post q := by
  have hjoin : (acked ++ pre) ++ post = acked ++ (pre ++ post) := List.append_assoc _ _ _
  have hpost : ∀ x ∈ post, x ≠ [] := fun x hx => hc.nonempty_inflight x (List.mem_append_right _ hx)
  constructor
  · rw [hlog, hc.log_eq, hjoin]
  · rw [hjoin]
    exact hc.nonempty
  · rw [hu, hc.una_eq, List.flatten_append, List.length_append]
    omega
  · rw [hn, hu, hc.nxt_eq, List.flatten_append, List.length_append]
    omega
  · rw [hn]
    exact hc.nxt_lt
  · rw [hids, hc.armed, hu, ends_above _ _ _ hpost]
  · rw [hs]
    exact hc.own.of_from hfrom
  · intro n hn
    obtain ⟨m, hm, hcopy⟩ := hfrom n hn
    obtain ⟨s, hs, hp, hsize⟩ := hc.short m hm
    exact ⟨s, hjoin.symm ▸ hs, hcopy.pId_eq.trans hp, le_trans hcopy.payloadSize_le hsize⟩
  · exact hlen

/-! ## The operations -/

section Send
variable {now : ℕ} {pieces : List (List Byte)}

theorem Coverage.sent_nonempty (hc : Coverage k base acked inflight p) (he : Emitted now p pieces q) :
    ∀ x ∈ inflight ++ pieces, x ≠ [] := by
  intro x hx
  rcases List.mem_append.mp hx with hx | hx
  · exact hc.nonempty_inflight x hx
  · exact List.length_pos_iff.mp (he.size_le x hx).1

theorem Coverage.sent_log (hc : Coverage k base acked inflight p) (he : Emitted now p pieces q) :
    segmentsSince k q = numbered base ((acked ++ inflight) ++ pieces) := by
  have hbase : base + (acked ++ inflight).flatten.length = p.stb.tc.sndNxt := by
    rw [List.flatten_append, List.length_append, hc.nxt_eq, hc.una_eq]
    omega
  rw [segmentsSince_sent hc.sent_le he.sent_eq, segments_sentTx, hc.log_eq,
    numbered_append base (acked ++ inflight) pieces, hbase]

theorem Coverage.sent_armed (hc : Coverage k base acked inflight p) (he : Emitted now p pieces q)
    (hown : Own q.stb.sockd q.timerheap) :
    pIds q.timerheap = (numbered p.stb.tc.sndUna (inflight ++ pieces)).map endOf := by
  -- both lists ascend, so it is enough that they have the same elements
  have hperm := he.heap_perm.map Node.pId
  rw [List.map_append, List.map_map] at hperm
  have hend : (numbered p.stb.tc.sndNxt pieces).map (Node.pId ∘ sentNode now p) =
      (numbered p.stb.tc.sndNxt pieces).map endOf := rfl
  have hall : pIds p.timerheap ++ (numbered p.stb.tc.sndNxt pieces).map endOf =
      (numbered p.stb.tc.sndUna (inflight ++ pieces)).map endOf := by
    rw [hc.armed, numbered_append, List.map_append, ← hc.nxt_eq]
  rw [← hall]
  rw [hend] at hperm
  refine hperm.eq_of_pairwise' hown.sorted ?_
  rw [hall]
  exact (ends_pairwise _ _ (hc.sent_nonempty he)).imp le_of_lt

theorem Coverage.send (hc : Coverage k base acked inflight p)
    (h : Process.send now p = .ok q) : ∃ pieces, Coverage k base acked (inflight ++ pieces) q := by
  obtain ⟨pieces, he⟩ := send_ok h
  have huna : q.stb.tc.sndUna = p.stb.tc.sndUna := by rw [he.table_eq]
  have hlog := hc.sent_log he
  have hown : Own q.stb.sockd q.timerheap := own_rule.send h hc.own
  refine ⟨pieces, ?_⟩
  constructor
  · rw [hlog, List.append_assoc]
  · intro x hx
    rcases List.mem_append.mp hx with hx | hx
    · exact hc.nonempty x (List.mem_append_left _ hx)
    · exact hc.sent_nonempty he x hx
  · rw [huna, hc.una_eq]
  · rw [he.sndNxt_eq, huna, hc.nxt_eq, List.flatten_append, List.length_append]
    omega
  · by_cases hnil : pieces = []
    · rw [he.sndNxt_eq, hnil]
      exact hc.nxt_lt
    · exact lt_of_le_of_lt (he.in_window hnil) (windowEdge_lt _)
  · rw [huna]
    exact hc.sent_armed he hown
  · exact hown
  · intro n hn
    rw [← List.append_assoc]
    rcases List.mem_append.mp (he.heap_perm.subset hn) with hn | hn
    · obtain ⟨s, hs, hp, hsize⟩ := hc.short n hn
      exact ⟨s, mem_numbered_append_left pieces hs, hp, hsize⟩
    · obtain ⟨s, hs, rfl⟩ := List.mem_map.mp hn
      refine ⟨s, ?_, rfl, cstr_length_le s.2⟩
      rw [← hlog, segmentsSince_sent hc.sent_le he.sent_eq, segments_sentTx]
      exact List.mem_append_right _ hs
  · rw [he.sent_eq, List.length_append]
    have hk := hc.sent_le
    omega

end Send

end Coverage

/-- What an ACK does to the numbers of the armed timers. -/
theorem handleAck_pIds {now : ℕ} {p q : Process} {tp : TouPkg} (ho : Own p.stb.sockd p.timerheap)
    (hs : (pIds p.timerheap).Pairwise (· < ·))
    (hstart : ∀ n ∈ p.timerheap.elems, p.stb.tc.sndUna ≤ u32 ((n.pId : ℤ) - n.payloadSize))
    (h : handleAck now p tp = .ok q) :
    pIds q.timerheap = if p.stb.tc.sndUna < tp.t.ackSeq then
      (pIds p.timerheap).filter (tp.t.ackSeq < ·) else pIds p.timerheap := by
  cases handleAck_ok h with
  | new hgt hr =>
    rw [if_pos hgt]
    exact Timer.deleteTimer_pIds ho hs hr
  | dup heq =>
    rw [if_neg (by omega)]
  | rexmit heq _ hr =>
    rw [if_neg (by omega)]
    exact Timer.rexmitForDupAck_pIds (fun n hn => heq.symm ▸ hstart n (MinHeap.mem_of_top? hn)) hr
  | old hlt =>
    rw [if_neg (by omega)]

/-- An ACK moves the pieces below its number from those in flight to the acknowledged ones. -/
theorem Coverage.ack {k base : ℕ} {acked inflight : List (List Byte)} {now : ℕ} {p q : Process}
    {tp : TouPkg} (hc : Coverage k base acked inflight p)
    (ha : tp.t.ackSeq ≤ p.stb.tc.sndUna ∨ tp.t.ackSeq ∈ (segmentsSince k p).map endOf)
    (h : handleAck now p tp = .ok q) :
    ∃ pre post, inflight = pre ++ post ∧ Coverage k base (acked ++ pre) post q := by
  have heff := handleAck_effect h
  have hids := handleAck_pIds hc.own hc.ascending (fun n hn => hc.start_ge hn) h
  have hsockd : q.stb.sockd = p.stb.sockd := by rw [heff.table_eq]
  obtain ⟨txs, hsent, hre⟩ := heff.sent_eq
  have hlog : segmentsSince k q = segmentsSince k p := by
    refine segmentsSince_same hc.sent_le hsent ?_
    intro tx htx
    obtain ⟨n, _, rfl⟩ := hre tx htx
    rw [Timer.sendpkt_eq]
    simp
  have hlen : k ≤ q.sent.length := by
    have hk := hc.sent_le
    rw [hsent, List.length_append]
    omega
  have huna := heff.sndUna_eq
  by_cases hgt : p.stb.tc.sndUna < tp.t.ackSeq
  · rw [if_pos hgt] at hids
    obtain ⟨pre, post, hsplit, hend⟩ : Boundary p.stb.tc.sndUna inflight tp.t.ackSeq := by
      rcases ha with ha | ha
      · omega
      · have habove : tp.t.ackSeq ∈ ((segmentsSince k p).map endOf).filter (p.stb.tc.sndUna < ·) :=
          List.mem_filter.mpr ⟨ha, by simpa using hgt⟩
        rw [← hc.armed_eq.1, hc.armed] at habove
        obtain ⟨s, hs, he⟩ := List.mem_map.mp habove
        exact he ▸ boundary_end hs
    have hq : q.stb.tc.sndUna = tp.t.ackSeq := by rw [huna]; omega
    refine ⟨pre, post, hsplit, ?_⟩
    rw [hsplit] at hc
    refine hc.moved hlog hlen hsockd (hq.trans hend) heff.sndNxt_eq heff.heap_from ?_
    rw [hids, hq]
  · rw [if_neg hgt] at hids
    refine ⟨[], inflight, rfl, ?_⟩
    rw [List.append_nil]
    exact hc.of_same hlog hlen hsockd (by rw [huna]; omega) heff.sndNxt_eq heff.heap_from hids

theorem Coverage.sendSame {k base : ℕ} {acked inflight : List (List Byte)} {p q : Process}
    (hc : Coverage k base acked inflight p) (h : SendSame p q) : Coverage k base acked inflight q := by
  obtain ⟨txs, hsent, hacks⟩ := h.sent_eq
  have hlen : k ≤ q.sent.length := by
    have hk := hc.sent_le
    rw [hsent, List.length_append]
    omega
  exact hc.of_same (segmentsSince_same hc.sent_le hsent fun tx htx => (hacks tx htx).site_ne) hlen
    h.sockd_eq h.sndUna_eq h.sndNxt_eq (h.heap_eq ▸ HeapFrom.refl _) (by rw [h.heap_eq])

/-- The node on top is that of the first segment in flight. -/
theorem Coverage.top_first {k base : ℕ} {acked inflight : List (List Byte)} {p : Process} {n : Node}
    (hc : Coverage k base acked inflight p) (hn : p.timerheap.top? = some n) :
    ∃ s ∈ segmentsSince k p, s.1 = p.stb.tc.sndUna ∧ n.pId = endOf s := by
  have harmed := hc.armed
  rw [pIds_top hn] at harmed
  cases inflight with
  | nil => cases harmed
  | cons x rest =>
    rw [numbered, List.map_cons, List.cons.injEq] at harmed
    refine ⟨(p.stb.tc.sndUna, x), ?_, rfl, harmed.1⟩
    rw [hc.log_eq, numbered_append, ← hc.una_eq]
    exact List.mem_append_right _ List.mem_cons_self

/-- A pass of `proc_sndpkt` retransmits nothing, or the segment that begins at `snd_una`. -/
theorem Coverage.sndpkt {k base : ℕ} {acked inflight : List (List Byte)} {now : ℕ} {p q : Process}
    (hc : Coverage k base acked inflight p) (h : timerProcSndpkt now p = .ok q) :
    Coverage k base acked inflight q ∧ (q.sent = p.sent ∨
      ∃ n ∈ p.timerheap.elems, ∃ s ∈ segmentsSince k p, s.1 = p.stb.tc.sndUna ∧ n.pId = endOf s ∧
        q.sent = p.sent ++ [Timer.sendpkt p.stb n]) := by
  have heff := timerProcSndpkt_effect h
  obtain ⟨r, hr, hq⟩ := of_bind_ok h
  obtain ⟨hids, hfired⟩ := Timer.procSndpkt_pIds p.table hc.own (fun n hn => hc.una_lt hn) hr
  cases hf : r.2 with
  | none =>
    rw [hf] at hq
    cases hq
    refine ⟨hc.of_same rfl hc.sent_le rfl rfl rfl heff.heap_from hids, Or.inl rfl⟩
  | some f =>
    rw [hf] at hq
    cases hq
    obtain ⟨n, hn, hfn⟩ := hfired f hf
    have hset := p.stb.tc.settwnd_frame
    have hlen : k ≤ (p.sent ++ [f.2]).length := by
      have hk := hc.sent_le
      rw [List.length_append]
      omega
    have hsite : ∀ tx ∈ [f.2], tx.site ≠ .send := by
      intro tx htx
      rw [List.mem_singleton.mp htx, hfn, Timer.sendpkt_eq]
      simp
    obtain ⟨s, hs, hat, hend⟩ := hc.top_first hn
    exact ⟨hc.of_same (segmentsSince_same hc.sent_le rfl hsite) hlen rfl hset.sndUna hset.sndNxt
      heff.heap_from hids, Or.inr ⟨n, MinHeap.mem_of_top? hn, s, hs, hat, hend, by rw [hfn]; rfl⟩⟩

/-- Once the node that `proc_sndpkt` looks at has expired, the pass retransmits it. -/
theorem Coverage.timeout {k base : ℕ} {acked inflight : List (List Byte)} {now : ℕ} {p q : Process}
    {n : Node} (hc : Coverage k base acked inflight p) (h : timerProcSndpkt now p = .ok q)
    (hn : (Timer.clearAckedTop p.table p.timerheap).top? = some n) (hlate : Timer.Expired n.ms now) :
    ∃ s ∈ segmentsSince k p, s.1 = p.stb.tc.sndUna ∧ n.pId = endOf s ∧
      q.sent = p.sent ++ [Timer.sendpkt p.stb n] := by
  have hclear : Timer.clearAckedTop p.table p.timerheap = p.timerheap :=
    Timer.clearAckedTop_eq_self fun m hm => hc.una_lt (MinHeap.mem_of_top? hm)
  obtain ⟨r, hr, hq⟩ := of_bind_ok h
  obtain ⟨f, hf⟩ := Option.isSome_iff_exists.mp ((Timer.procSndpkt_fires_iff hn hr).mpr hlate)
  obtain ⟨m, hm, hfm⟩ :=
    (Timer.procSndpkt_pIds p.table hc.own (fun m hm => hc.una_lt hm) hr).2 f hf
  rw [hclear, hm] at hn
  cases hn
  obtain ⟨s, hs, hat, hend⟩ := hc.top_first hm
  rw [hf] at hq
  cases hq
  exact ⟨s, hs, hat, hend, by rw [hfm]; rfl⟩

/-! ## A call of `run` -/

/-- A pure ACK is never taken for anything else. -/
theorem Classified.of_pureAck {stb : SockTb} {d : Datagram} {a : ℕ} {st : ProcState}
    (hd : IsPureAck d a) (h : Classified stb (recvPkg d) st) : st = .ackWithoutData := by
  cases h with
  | syn h => rw [hd.syn] at h; cases h
  | fin h => rw [hd.fin] at h; cases h
  | ack => rfl
  | inOrder _ hdata | old _ hdata | future _ hdata =>
    have hpos := hdata.pos
    rw [hd.buf] at hpos
    exact absurd hpos (lt_irrefl 0)

/-- Where `run` stands before it is through with the pure ACK `d`. -/
structure AckPending (k : ℕ) (p : Process) (d : Datagram) (rest : List Datagram) (s : RunSt) : Prop where
  una_eq : s.pr.stb.tc.sndUna = p.stb.tc.sndUna
  log_eq : segmentsSince k s.pr = segmentsSince k p
  waiting : ¬ Handles s.state → s.pending = d :: rest
  handling : Handles s.state → s.state = .ackWithoutData ∧ s.tp = some (recvPkg d)

section Run
variable {k base a : ℕ} {p : Process} {d : Datagram} {rest : List Datagram} {s : RunSt}

theorem AckPending.same (hs : AckPending k p d rest s) (hc : Covered k base s.pr) {q : Process}
    {st : ProcState} (h : SendSame s.pr q) (hold : ¬ Handles s.state) (hnew : ¬ Handles st) :
    Covered k base q ∧ AckPending k p d rest (s.goto q st) := by
  obtain ⟨acked, inflight, hc⟩ := hc
  obtain ⟨txs, hsent, hacks⟩ := h.sent_eq
  refine ⟨⟨acked, inflight, hc.sendSame h⟩, ?_, ?_, fun _ => hs.waiting hold, fun hst => absurd hst hnew⟩
  · exact h.sndUna_eq.trans hs.una_eq
  · exact (segmentsSince_same hc.sent_le hsent fun tx htx => (hacks tx htx).site_ne).trans hs.log_eq

/-- A turn goes on towards the ACK, or handles it and ends the call. -/
theorem AckPending.turn {now : ℕ} {s' : RunSt} (hd : IsPureAck d a)
    (ha : a ≤ p.stb.tc.sndUna ∨ a ∈ (segmentsSince k p).map endOf) (hs : AckPending k p d rest s)
    (hc : Covered k base s.pr) (ht : RunTurn (fun _ => True) now s s') :
    Covered k base s'.pr ∧ (s'.state = .procEnd ∨ AckPending k p d rest s') := by
  have hstuck : ∀ st, s.state = st → Handles st → st ≠ .ackWithoutData → False := by
    rintro st rfl hst hne
    exact hne (hs.handling hst).1
  cases ht with
  | @receive d' rest' st hst hp hcl =>
    have hwait : ¬ Handles s.state := by rcases hst with hst | hst <;> rw [hst] <;> exact id
    rw [hs.waiting hwait, List.cons.injEq] at hp
    rw [← hp.1] at hcl ⊢
    have hack := (classified_of_ok hcl).of_pureAck hd
    refine ⟨hc, Or.inr ⟨hs.una_eq, hs.log_eq, ?_, fun _ => ⟨hack, rfl⟩⟩⟩
    intro hno
    rw [hack] at hno
    exact absurd trivial hno
  | @ack d' p1 p2 hst hh h1 h2 =>
    have htp := (hs.handling (by rw [hst]; trivial)).2
    rw [hh.tp_eq, Option.some.injEq] at htp
    rw [htp] at h1
    obtain ⟨acked, inflight, hc⟩ := hc
    rw [← hd.ackSeq, ← hs.una_eq, ← hs.log_eq] at ha
    obtain ⟨pre, post, _, hc1⟩ := hc.ack ha h1
    obtain ⟨pieces, hc2⟩ := hc1.send h2
    exact ⟨⟨_, _, hc2⟩, Or.inl rfl⟩
  | recovered hst hr =>
    have h := hs.same hc (SendSame.of_change (procPktRec_change hr) .getPkt) (by rw [hst]; exact id)
      (show ¬ Handles .ackDatarecsuccSendbackAck from id)
    exact ⟨h.1, Or.inr h.2⟩
  | unrecovered hst _ hr =>
    have h := hs.same hc (SendSame.of_change (procPktRec_change hr) .pktRecovery)
      (by rw [hst]; exact id) (show ¬ Handles .ackDatarecsuccNoSendbackAck from id)
    exact ⟨h.1, Or.inr h.2⟩
  | sendback hst hdel hnew =>
    have h := hs.same hc (procDelack_effect hdel).sendSame (by rw [hst]; exact id)
      (not_handles_after hnew)
    exact ⟨h.1, Or.inr h.2⟩
  | noSendback hst hnew =>
    have hno : ¬ Handles s.state := by rw [hst]; exact id
    refine ⟨hc, Or.inr ⟨hs.una_eq, hs.log_eq, fun _ => hs.waiting hno, ?_⟩⟩
    exact fun h => absurd h (not_handles_after hnew)
  | syn hst => exact (hstuck _ hst trivial (by decide)).elim
  | fin hst => exact (hstuck _ hst trivial (by decide)).elim
  | inOrder hst => exact (hstuck _ hst trivial (by decide)).elim
  | old hst => exact (hstuck _ hst trivial (by decide)).elim
  | future hst => exact (hstuck _ hst trivial (by decide)).elim

theorem Covered.run {now : ℕ} {r : RunRes} (hd : IsPureAck d a)
    (ha : a ≤ p.stb.tc.sndUna ∨ a ∈ (segmentsSince k p).map endOf) (hc : Covered k base p)
    (h : Process.run now p (d :: rest) = .ok r) : Covered k base r.pr := by
  have hstart := not_handles_start p (d :: rest)
  obtain ⟨s, hs, hr⟩ := run_inv (D := fun _ => True) h (fun _ _ => trivial)
    (fun s => Covered k base s.pr ∧ (s.state = .procEnd ∨ AckPending k p d rest s))
    ⟨hc, Or.inr ⟨rfl, rfl, fun _ => rfl, fun hst => absurd hst hstart⟩⟩
    (by
      rintro s s' _ _ ⟨hcs, hend | hpend⟩ ht
      · cases ht <;> simp_all
      · exact hpend.turn hd ha hcs ht)
  rw [hr]
  exact hs.1

end Run

/-! ## Runs -/

/-- One operation on the send side: a call of the application, a call of `run` that finds a pure ACK,
whose number is no news or the end of a segment, or a pass of `proc_sndpkt`. -/
inductive CoverageStep (k : ℕ) : Process → Process → Prop
  | touSend {now : ℕ} {p : Process} {buf : List Byte} {len : ℤ} {r : ℤ × Process}
      (h : Process.touSend now p buf len = .ok r) : CoverageStep k p r.2
  | send {now : ℕ} {p q : Process} (h : Process.send now p = .ok q) : CoverageStep k p q
  | run {now a : ℕ} {p : Process} {d : Datagram} {rest : List Datagram} {r : RunRes}
      (hd : IsPureAck d a) (ha : a ≤ p.stb.tc.sndUna ∨ a ∈ (segmentsSince k p).map endOf)
      (h : Process.run now p (d :: rest) = .ok r) : CoverageStep k p r.pr
  | sndpkt {now : ℕ} {p q : Process} (h : timerProcSndpkt now p = .ok q) : CoverageStep k p q

theorem CoverageStep.covered {k base : ℕ} {p q : Process} (h : CoverageStep k p q)
    (hc : Covered k base p) : Covered k base q := by
  cases h with
  | @touSend now _ buf len r h =>
    obtain ⟨acked, inflight, hc⟩ := hc
    obtain ⟨q', hq, hr⟩ := of_bind_ok h
    cases hr
    have hpush : Coverage k base acked inflight (pushsndq p buf len).2 :=
      hc.of_same rfl hc.sent_le rfl rfl rfl (HeapFrom.refl _) rfl
    obtain ⟨pieces, hc'⟩ := hpush.send hq
    exact ⟨_, _, hc'⟩
  | send h =>
    obtain ⟨acked, inflight, hc⟩ := hc
    obtain ⟨pieces, hc'⟩ := hc.send h
    exact ⟨_, _, hc'⟩
  | run hd ha h => exact hc.run hd ha h
  | sndpkt h =>
    obtain ⟨acked, inflight, hc⟩ := hc
    exact ⟨_, _, (hc.sndpkt h).1⟩

theorem covered_start {p : Process} (hu : p.stb.tc.sndUna = p.stb.tc.sndNxt)
    (hlt : p.stb.tc.sndNxt < 4294967296) (hh : p.timerheap.elems = []) :
    Covered p.sent.length p.stb.tc.sndUna p := by
  refine ⟨[], [], ?_⟩
  constructor
  · unfold segmentsSince
    rw [List.drop_length]
    rfl
  · simp
  · rfl
  · exact hu.symm
  · exact hlt
  · unfold pIds
    rw [hh]
    rfl
  · intro n hn
    rw [hh] at hn
    cases hn
  · intro n hn
    rw [hh] at hn
    cases hn
  · exact le_refl _

/-- In every state of a run that starts with nothing in flight and no timer armed, the armed timers
are the ends above `snd_una` of the segments sent since, each once. A pass of `proc_sndpkt` retransmits
nothing or the segment that begins at `snd_una`, and if the node on top has expired it retransmits. -/
theorem timer_coverage (p₀ p : Process) (hu : p₀.stb.tc.sndUna = p₀.stb.tc.sndNxt)
    (hlt : p₀.stb.tc.sndNxt < 4294967296) (hh : p₀.timerheap.elems = [])
    (hrun : Relation.ReflTransGen (CoverageStep p₀.sent.length) p₀ p) :
    pIds p.timerheap =
        ((segmentsSince p₀.sent.length p).map endOf).filter (p.stb.tc.sndUna < ·) ∧
      ((segmentsSince p₀.sent.length p).map endOf).Nodup ∧
      (∀ now q, timerProcSndpkt now p = .ok q → q.sent = p.sent ∨
        ∃ n ∈ p.timerheap.elems, ∃ s ∈ segmentsSince p₀.sent.length p,
          s.1 = p.stb.tc.sndUna ∧ n.pId = endOf s ∧ q.sent = p.sent ++ [Timer.sendpkt p.stb n]) ∧
      ∀ now q n, timerProcSndpkt now p = .ok q →
        (Timer.clearAckedTop p.table p.timerheap).top? = some n → Timer.Expired n.ms now →
        ∃ s ∈ segmentsSince p₀.sent.length p,
          s.1 = p.stb.tc.sndUna ∧ n.pId = endOf s ∧ q.sent = p.sent ++ [Timer.sendpkt p.stb n] := by
  obtain ⟨acked, inflight, hc⟩ := reach_inv (Covered p₀.sent.length p₀.stb.tc.sndUna)
    (fun _ _ hs hst => hst.covered hs) (covered_start hu hlt hh) hrun
  exact ⟨hc.armed_eq.1, hc.armed_eq.2, fun now q hq => (hc.sndpkt hq).2,
    fun now q n hq hn hlate => hc.timeout hq hn hlate⟩

/-- Two segments are sent, the first is acknowledged, and the second times out. -/
theorem timer_coverage_acked : ∃ c p n q, Relation.ReflTransGen (CoverageStep c.sent.length) c p ∧
    pIds p.timerheap = [3] ∧
    pIds p.timerheap = ((segmentsSince c.sent.length p).map endOf).filter (p.stb.tc.sndUna < ·) ∧
    timerProcSndpkt 20000 p = .ok q ∧ p.stb.tc.sndUna = 2 ∧
    ∃ s ∈ segmentsSince c.sent.length p, s.1 = p.stb.tc.sndUna ∧ n.pId = endOf s ∧
      q.sent = p.sent ++ [Timer.sendpkt p.stb n] := by
  obtain ⟨c, r1, r2, r3, _, h1, h2, h3, hx⟩ := exists_acked
  obtain ⟨⟨hcu, hcn⟩, -, hqu, _⟩ := ackedSession_numbers hx
  have hheaps : ackedSession.toOption.map (fun x => (x.1.timerheap.elems.length, pIds x.2.2.timerheap,
      ((segmentsSince x.1.sent.length x.2.1).map endOf).head?,
      (timerProcSndpkt 20000 x.2.2).toOption.isSome,
      ((Timer.clearAckedTop x.2.2.table x.2.2.timerheap).top?.map fun n => u32 n.ms))) =
      some (0, [3], some 2, true, some 3006) := by decide +kernel
  rw [hx] at hheaps
  simp only [Except.toOption, Option.map_some, Option.some.injEq, Prod.mk.injEq] at hheaps
  obtain ⟨hheap, hids, hend, hpass, htop⟩ := hheaps
  have hrun : Relation.ReflTransGen (CoverageStep c.2.sent.length) c.2 r3.pr := by
    refine ((Relation.ReflTransGen.single (CoverageStep.touSend h1)).tail (CoverageStep.touSend h2)).tail
      (CoverageStep.run (isPureAck_segmentFrom ⟨2, 80⟩ (by decide) (by decide)) (Or.inr ?_) h3)
    exact List.mem_of_mem_head? hend
  obtain ⟨n, hn, hms⟩ := Option.map_eq_some_iff.mp htop
  cases hq : timerProcSndpkt 20000 r3.pr with
  | error e =>
    rw [hq] at hpass
    cases hpass
  | ok q =>
    have hlate : Timer.Expired n.ms 20000 := by
      unfold Timer.Expired
      omega
    obtain ⟨harmed, _, _, htimeout⟩ := timer_coverage c.2 r3.pr (by omega) (by omega)
      (List.length_eq_zero_iff.mp hheap) hrun
    exact ⟨c.2, r3.pr, n, q, hrun, hids, harmed, hq, hqu, htimeout 20000 q n hq hn hlate⟩

end Process
end TcpOverUdp
