import TcpOverUdp.Proof.BufferCalls

/-! # Reading the queue in chunks

`getAt(buf, start, n, end)` sets `end` to the index behind what it read, to be the `start` of the next
call. From the head on, chunks read this way are the front of the queue, wherever the chunks meet the
end of the array.
-/
namespace TcpOverUdp
open MachineInt
set_option autoImplicit false

namespace CircBuf

/-- A call of `getAt(buf, start, n, end)` with what it answered. -/
structure ChunkRead where
  start : ℕ
  n : ℕ
  ret : ℤ
  bytes : List Byte
  fin : Option ℕ

def readChunks (cb : CircBuf) : ℕ → List ℕ → List ChunkRead
  | _, [] => []
  | start, n :: ns =>
    let out := cb.getFrom start n
    { start := start, n := n, ret := out.1, bytes := out.2.1, fin := out.2.2 } ::
      readChunks cb (out.2.2.getD start) ns

/-- The call returned the length it was given and an index into the array, and read inside of it. -/
structure ChunkRead.Good (cb : CircBuf) (c : ChunkRead) : Prop where
  ret_eq : c.ret = c.n
  fin_lt : ∃ e, c.fin = some e ∧ e < cb.uiSize
  within : ∀ b ∈ cb.getFromBlocks c.start c.n, Within cb.uiSize b
  allocated : cb.buf.isSome

variable {cb : CircBuf} {start n : ℕ}

theorem getFrom_eq (hv : cb.Valid) (htot : cb.uiTotEl ≠ 0) (hstart : start < cb.uiSize) (hn : 0 < n)
    (hle : n ≤ cb.uiSize) :
    cb.getFrom start n =
      ((n : ℤ), cyclic cb.mem cb.uiSize start n, some ((start + n) % cb.uiSize)) := by
  unfold getFrom
  rw [if_neg (by omega)]
  simp only [copyRing_eq hv.size_lt hstart hle]

theorem getFrom_within (hv : cb.Valid) (hstart : start < cb.uiSize) (hle : n ≤ cb.uiSize) :
    ∀ b ∈ cb.getFromBlocks start n, Within cb.uiSize b := by
  have hs := hv.size_lt
  refine (getFromBlocks_within_iff hv ⟨start, by omega, by omega⟩ ⟨n, by omega, by omega⟩).2 ?_
  unfold Fits
  simp only
  omega

/-- From any index of the array: the chunks are those of the cyclic array, and the last call ends where
a call for all of them would. -/
theorem readChunks_spec (hs : cb.Sound) (htot : cb.uiTotEl ≠ 0) {ns : List ℕ} (hpos : ∀ n ∈ ns, 0 < n)
    (hsum : ns.sum ≤ cb.uiSize) (hstart : start < cb.uiSize) :
    (cb.readChunks start ns).map ChunkRead.bytes = cyclicChunks cb.mem cb.uiSize start ns ∧
    (∀ c ∈ cb.readChunks start ns, c.Good cb) ∧
    (ns ≠ [] → (cb.readChunks start ns).getLast?.bind ChunkRead.fin = some ((start + ns.sum) % cb.uiSize)) := by
  have hv := hs.valid
  induction ns generalizing start with
  | nil => exact ⟨rfl, fun _ h => absurd h List.not_mem_nil, fun h => absurd rfl h⟩
  | cons n ns ih =>
    rw [List.sum_cons] at hsum
    have hn : 0 < n := hpos n List.mem_cons_self
    have hget := getFrom_eq hv htot hstart hn (by omega)
    have hnext : (start + n) % cb.uiSize < cb.uiSize := Nat.mod_lt _ hv.size_pos
    obtain ⟨hbytes, hgood, hlast⟩ :=
      ih (fun m hm => hpos m (List.mem_cons_of_mem _ hm)) (by omega) hnext
    simp only [readChunks, hget, Option.getD_some]
    refine ⟨?_, ?_, fun _ => ?_⟩
    · rw [List.map_cons, hbytes, cyclicChunks]
    · intro c hc
      rcases List.mem_cons.mp hc with rfl | hc
      · have hle : n ≤ cb.uiSize := by omega
        exact ⟨rfl, ⟨_, rfl, hnext⟩, getFrom_within hv hstart hle, hs.allocated.resolve_left htot⟩
      · exact hgood c hc
    · cases ns with
      | nil => simp [readChunks]
      | cons m ms =>
        have hsplit : (n :: m :: ms).sum = n + (m :: ms).sum := List.sum_cons
        rw [List.getLast?_cons_of_ne_nil (by simp [readChunks]), hlast (by simp), Nat.mod_add_mod,
          Nat.add_assoc, hsplit]

/-- One read from the head ends behind the last byte it copied. -/
theorem getAt_end (hv : cb.Valid) (hn : 0 < n) (hle : n ≤ cb.uiTotEl) :
    (cb.getAt n).2.2 = some ((cb.uiHi + n) % cb.uiSize) := by
  have hs := hv.size_lt
  have htot := hv.tot_le
  unfold getAt
  rw [if_neg (by omega), u32_cast n (by omega)]
  simp only [if_neg (show ¬ n > cb.uiTotEl by omega), copyRing_eq hs hv.hi_lt (show n ≤ cb.uiSize by omega)]

/-- After every sequence of calls on a buffer whose size was set once or is the default: any chunks that
the queue is long enough for, read from the head on, are its front; each read is good, and the last ends
where one read of all their bytes would. -/
theorem chunked_reads {cb0 : CircBuf} {size : ℕ} (h0 : Fresh cb0 size) {ops : List BufOp}
    {answers : List (ℤ × List Byte)} (hrun : performAll perform cb0 ops = .ok (answers, cb))
    {ns : List ℕ} (hpos : ∀ n ∈ ns, 0 < n) (hsum : ns.sum ≤ cb.contents.length) :
    ((cb.readChunks cb.getHead.toNat ns).map ChunkRead.bytes).flatten = cb.contents.take ns.sum ∧
    (∀ c ∈ cb.readChunks cb.getHead.toNat ns, c.Good cb) ∧
    (cb.readChunks cb.getHead.toNat ns).getLast?.bind ChunkRead.fin = (cb.getAt ns.sum).2.2 := by
  obtain ⟨cb', hrun', hholds⟩ := h0.performAll ops
  rw [hrun] at hrun'
  cases hrun'
  have hv := hholds.valid
  have htot := hv.tot_le
  rw [contents_length] at hsum
  have hhead : cb.getHead.toNat = cb.uiHi := by
    have hs := hv.size_lt
    have hhi := hv.hi_lt
    rw [getHead, s32_cast _ (by omega), Int.toNat_natCast]
  rw [hhead]
  cases ns with
  | nil => exact ⟨rfl, fun _ h => absurd h List.not_mem_nil, rfl⟩
  | cons n ns =>
    have hsum0 : 0 < (n :: ns).sum := by
      have hn := hpos n List.mem_cons_self
      rw [List.sum_cons]
      omega
    obtain ⟨hbytes, hgood, hlast⟩ := readChunks_spec ⟨hv, hholds.allocated⟩ (by omega) hpos
      (hsum.trans htot) hv.hi_lt
    refine ⟨?_, hgood, ?_⟩
    · rw [hbytes, cyclicChunks_flatten, contents_eq_cyclic, take_cyclic hsum]
    · rw [hlast (by simp), getAt_end hv hsum0 hsum]

/-- Seven bytes around the end of an array of eight, read as three and four. -/
theorem chunked_reads_wrapped : ∃ answers cb, performAll perform (init.setSize 8).2
    [.insert (fun _ => 65) ⟨3, by decide, by decide⟩, .remove ⟨2, by decide, by decide⟩,
      .insert (fun _ => 66) ⟨6, by decide, by decide⟩] = .ok (answers, cb) ∧
    cb.contents.length = 7 ∧
    ((cb.readChunks cb.getHead.toNat [3, 4]).map ChunkRead.bytes).flatten = cb.contents.take 7 := by
  have h0 : Fresh (init.setSize 8).2 8 := Fresh.sized (by decide) (by decide)
  obtain ⟨cb, hrun, hholds⟩ := h0.performAll [.insert (fun _ => 65) ⟨3, by decide, by decide⟩,
    .remove ⟨2, by decide, by decide⟩, .insert (fun _ => 66) ⟨6, by decide, by decide⟩]
  have hlen : cb.contents.length = 7 := by
    rw [hholds.contents_eq]
    decide
  have hfit : [3, 4].sum ≤ cb.contents.length := by
    rw [hlen]
    decide
  have hchunks := chunked_reads h0 hrun (by decide) hfit
  exact ⟨_, cb, hrun, hlen, hchunks.1⟩

end CircBuf
end TcpOverUdp
