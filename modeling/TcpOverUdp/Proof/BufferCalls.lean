import TcpOverUdp.Proof.ByteQueue

/-! # Every sequence of calls on a circular buffer, `setSize` included

`BufCall` are the public calls, with any `int` arguments and at any moment. `setSize` gives the buffer
another array and another size but leaves the two indices and the count; `Fits` says when they still
belong together. In a sequence of calls the indices stay in range, no assertion fails and no
`memcpy` leaves the array exactly if each call fits the buffer it meets.
-/
namespace TcpOverUdp
open MachineInt
set_option autoImplicit false

/-- A call of any public operation. `query` are the calls that change nothing and copy nothing: `getHead`,
`getSize`, `getAvSize`, `getTotalElements` and `print_all`. -/
inductive BufCall where
  | op (o : BufOp)
  /-- `getAt(buf, start, n, end)`. -/
  | getFrom (start n : IntArg)
  | setSize (size : IntArg)
  | query

namespace CircBuf
variable {cb : CircBuf}

def Within (size : ℕ) (b : ℤ × ℕ) : Prop := 0 ≤ b.1 ∧ b.1 + b.2 ≤ size

instance (size : ℕ) (b : ℤ × ℕ) : Decidable (Within size b) := inferInstanceAs (Decidable (_ ∧ _))

def Covers (b : ℤ × ℕ) (i : ℕ) : Prop := b.1 ≤ i ∧ (i : ℤ) < b.1 + b.2

/-! ## Blocks -/

theorem copyRing_reads (cb : CircBuf) (start : ℕ) (n : ℤ) {mem : ℕ → Byte}
    (h : ∀ b ∈ cb.ringBlocks start n, ∀ i, Covers b i → mem i = cb.mem i) :
    copyRing { cb with buf := some mem } start n = cb.copyRing start n := by
  have hrow : ∀ (off : ℕ) (len : ℕ), ((off : ℤ), len) ∈ cb.ringBlocks start n →
      copyOut mem off len = copyOut cb.mem off len := by
    intro off len hb
    refine copyOut_congr fun i hi => h _ hb _ ⟨?_, ?_⟩ <;> push_cast <;> omega
  have hmem : CircBuf.mem { cb with buf := some mem } = mem := rfl
  unfold ringBlocks at hrow
  unfold copyRing
  simp only [hmem] at hrow ⊢
  rw [hrow start _ List.mem_cons_self]
  split_ifs at hrow ⊢ with h1 h2
  · rw [hrow 0 _ (List.mem_cons_of_mem _ List.mem_cons_self)]
  · rfl
  · rw [hrow 0 _ (List.mem_cons_of_mem _ List.mem_cons_self)]
  · rfl

theorem copyIn_notCovers (mem : ℕ → Byte) (src : List Byte) {off len i : ℕ}
    (h : ¬ Covers ((off : ℤ), len) i) : copyIn mem off src len i = mem i := by
  refine copyIn_outside _ _ _ _ _ ?_
  unfold Covers at h
  omega

/-- What a call of `insertAt` that returns has made of the buffer. -/
inductive Inserted (cb : CircBuf) (n : ℤ) : CircBuf → Prop
  | nothing (hn : n ≤ 0) : Inserted cb n cb
  | full (hn : 0 < n) (hav : cb.getAvSize = 0) : Inserted cb n { cb with buf := some cb.mem }
  | stored (hn : 0 < n) (hav : 0 < cb.getAvSize) (ti : ℕ) (mem : ℕ → Byte)
      (hmem : ∀ i, (∀ b ∈ cb.insertAtBlocks n, ¬ Covers b i) → mem i = cb.mem i) :
      Inserted cb n { cb with
        uiTi := ti
        uiTotEl := u32 ((cb.uiTotEl : ℤ) + min n cb.getAvSize)
        buf := some mem }

theorem insertAt_inserted {src : List Byte} {n ret : ℤ} {span : Option (ℕ × ℕ)} {cb' : CircBuf}
    (h : cb.insertAt src n = .ok (ret, span, cb')) : Inserted cb n cb' := by
  obtain ⟨bs, hbs⟩ : ∃ bs, cb.insertAtBlocks n = bs := ⟨_, rfl⟩
  have hblocks := hbs
  have hav : cb.getAvSize = s32 (u32 ((cb.uiSize : ℤ) - cb.uiTotEl)) := rfl
  unfold insertAtBlocks at hblocks
  unfold insertAt at h
  simp only [← hav] at h hblocks
  have hk : (if n > cb.getAvSize then cb.getAvSize else n) = min n cb.getAvSize := by
    split <;> omega
  simp only [hk] at h hblocks
  generalize (if u32 (min n cb.getAvSize) > u32 ((cb.uiSize : ℤ) - cb.uiTi) then
    u32 (min n cb.getAvSize - u32 ((cb.uiSize : ℤ) - cb.uiTi)) else 0) = second at h hblocks
  generalize (if u32 (min n cb.getAvSize) > u32 ((cb.uiSize : ℤ) - cb.uiTi) then
    u32 ((cb.uiSize : ℤ) - cb.uiTi) else u32 (min n cb.getAvSize)) = first at h hblocks
  split_ifs at h with hn hzero hneg hsecond
  · cases h
    exact Inserted.nothing hn
  · cases h
    exact Inserted.full (by omega) hzero
  all_goals
    rw [if_neg (by omega)] at hblocks
    have hr := congrArg (fun x => x.2.2) (Except.ok.inj h)
    simp only at hr
    rw [← hr]
    refine Inserted.stored (by omega) (by omega) _ _ ?_
    intro i hi
    rw [hbs, ← hblocks] at hi
    have hfirst := hi _ List.mem_cons_self
  · rw [if_pos hsecond] at hi
    rw [copyIn_notCovers _ _ (hi _ (List.mem_cons_of_mem _ List.mem_cons_self)),
      copyIn_notCovers _ _ hfirst]
  · exact copyIn_notCovers _ _ hfirst

theorem insertAt_writes {src : List Byte} {n : ℤ} {r : ℤ × Option (ℕ × ℕ) × CircBuf}
    (h : cb.insertAt src n = .ok r) {i : ℕ} (hi : ∀ b ∈ cb.insertAtBlocks n, ¬ Covers b i) :
    r.2.2.mem i = cb.mem i := by
  obtain ⟨ret, span, cb'⟩ := r
  cases insertAt_inserted h with
  | nothing => rfl
  | full => rfl
  | stored _ _ _ _ hmem => exact hmem i hi

/-- The cells that are read from `start` on are cells of the array if `start` is the index of one, or of
the end, and they do not come round a second time. -/
theorem ringBlocks_within_iff (h0 : 0 < cb.uiSize) (hs : cb.uiSize < 2147483648) {n : ℤ} (hn0 : 0 < n)
    (hn31 : n < 2147483648) {start : ℤ} (hge : -2147483648 ≤ start) (hlt : start < 2147483648) :
    (∀ b ∈ cb.ringBlocks start n, Within cb.uiSize b) ↔
      0 ≤ start ∧ start ≤ cb.uiSize ∧ start + n ≤ 2 * cb.uiSize := by
  have hu : u32 n = n.toNat := u32_of_lt (by omega) (by omega)
  unfold ringBlocks
  simp only [hu]
  by_cases hin : start ≤ cb.uiSize
  · have hfirst : u32 ((cb.uiSize : ℤ) - start) = ((cb.uiSize : ℤ) - start).toNat :=
      u32_of_lt (by omega) (by omega)
    simp only [hfirst]
    by_cases hlong : n.toNat > ((cb.uiSize : ℤ) - start).toNat
    · have hsecond : u32 (n - (((cb.uiSize : ℤ) - start).toNat : ℕ)) =
          (n - (((cb.uiSize : ℤ) - start).toNat : ℕ)).toNat := u32_of_lt (by omega) (by omega)
      simp only [if_pos hlong, hsecond]
      rw [if_pos (by omega), List.forall_mem_cons, List.forall_mem_singleton]
      unfold Within
      simp only
      omega
    · simp only [if_neg hlong, lt_irrefl, if_false, gt_iff_lt]
      rw [List.forall_mem_singleton]
      unfold Within
      simp only
      omega
  · have hbig : 2147483648 ≤ u32 ((cb.uiSize : ℤ) - start) := by
      unfold u32
      omega
    simp only [if_neg (show ¬ n.toNat > u32 ((cb.uiSize : ℤ) - start) by omega), lt_irrefl, if_false,
      gt_iff_lt]
    rw [List.forall_mem_singleton]
    unfold Within
    simp only
    omega

theorem insertAtBlocks_within (hv : cb.Valid) {n : ℤ} (hn31 : n < 2147483648) :
    ∀ b ∈ cb.insertAtBlocks n, Within cb.uiSize b := by
  have hs := hv.size_lt
  have ht := hv.ti_lt
  have htot := hv.tot_le
  have han : s32 (u32 ((cb.uiSize : ℤ) - cb.uiTotEl)) = (cb.uiSize - cb.uiTotEl : ℕ) := by
    rw [hv.free_eq, s32_cast _ (by omega)]
  have hfirst : u32 ((cb.uiSize : ℤ) - cb.uiTi) = cb.uiSize - cb.uiTi :=
    u32_sub _ _ (by omega) (by omega)
  unfold insertAtBlocks
  simp only [han, hfirst]
  by_cases hnone : n ≤ 0 ∨ ((cb.uiSize - cb.uiTotEl : ℕ) : ℤ) ≤ 0
  · rw [if_pos hnone]
    exact fun _ h => absurd h List.not_mem_nil
  rw [if_neg hnone]
  obtain ⟨k, hk⟩ : ∃ k : ℕ, k = min n.toNat (cb.uiSize - cb.uiTotEl) := ⟨_, rfl⟩
  have hnk : (if n > ((cb.uiSize - cb.uiTotEl : ℕ) : ℤ) then ((cb.uiSize - cb.uiTotEl : ℕ) : ℤ) else n)
      = (k : ℤ) := by
    split <;> omega
  have hku : u32 (k : ℤ) = k := u32_cast k (by omega)
  simp only [hnk, hku]
  by_cases hlong : k > cb.uiSize - cb.uiTi
  · have hsecond : u32 ((k : ℤ) - (cb.uiSize - cb.uiTi : ℕ)) = k - (cb.uiSize - cb.uiTi) :=
      u32_sub _ _ (by omega) (by omega)
    have hti : u32 ((cb.uiTi : ℤ) + (cb.uiSize - cb.uiTi : ℕ)) % cb.uiSize = 0 := by
      rw [u32_add _ _ (by omega), Nat.add_sub_cancel' (by omega), Nat.mod_self]
    simp only [if_pos hlong, hsecond, hti]
    rw [if_pos (by omega), List.forall_mem_cons, List.forall_mem_singleton]
    unfold Within
    simp only
    omega
  · simp only [if_neg hlong, lt_irrefl, if_false, gt_iff_lt]
    rw [List.forall_mem_singleton]
    unfold Within
    simp only
    omega

/-! ## One call -/

def afterCall (cb : CircBuf) : BufCall → Except Halt CircBuf
  | .op o => do
    let r ← cb.perform o
    return r.2
  | .setSize size => .ok (cb.setSize size.val).2
  | .getFrom _ _ | .query => .ok cb

/-- The blocks of `m_buf` that the `memcpy`s of the call read or write. -/
def blocks (cb : CircBuf) : BufCall → List (ℤ × ℕ)
  | .op (.insert _ n) => cb.insertBlocks n.val
  | .op (.insertAt _ n) => cb.insertAtBlocks n.val
  | .op (.getAt n) => cb.getAtBlocks n.val
  | .getFrom start n => cb.getFromBlocks start.val n.val
  | .op (.remove _) | .setSize _ | .query => []

/-- The indices and the count belong together, and the free space is not negative. -/
structure IndicesOk (cb : CircBuf) : Prop where
  hi_lt : cb.uiHi < cb.uiSize
  ti_lt : cb.uiTi < cb.uiSize
  tot_le : cb.uiTotEl ≤ cb.uiSize
  ti_eq : cb.uiTi = (cb.uiHi + cb.uiTotEl) % cb.uiSize
  avail_nonneg : 0 ≤ cb.getAvSize

/-- Whether the call fits the buffer. A new size fits if it is the old one, or if the bytes of the queue
reach the end of neither the old array nor the new one. A read from `start` fits if `start` is an index
into the array and the read does not come round to the end a second time. -/
def Fits (cb : CircBuf) : BufCall → Prop
  | .setSize size => size.val ≤ 0 ∨ size.val = cb.uiSize ∨
      (cb.uiHi + cb.uiTotEl < cb.uiSize ∧ ((cb.uiHi + cb.uiTotEl : ℕ) : ℤ) < size.val)
  | .getFrom start n => n.val ≤ 0 ∨ cb.uiTotEl = 0 ∨
      (0 ≤ start.val ∧ start.val ≤ cb.uiSize ∧ start.val + n.val ≤ 2 * cb.uiSize)
  | .op _ | .query => True

theorem Valid.indicesOk (hv : cb.Valid) : cb.IndicesOk where
  hi_lt := hv.hi_lt
  ti_lt := hv.ti_lt
  tot_le := hv.tot_le
  ti_eq := hv.ti_eq
  avail_nonneg := by
    rw [hv.getAvSize_eq]
    omega

theorem IndicesOk.valid (h : cb.IndicesOk) (hs : cb.uiSize < 2147483648) : cb.Valid :=
  ⟨hs, h.hi_lt, h.tot_le, h.ti_eq⟩

/-- A valid buffer whose memory was allocated if it holds a byte. -/
structure Sound (cb : CircBuf) : Prop where
  valid : cb.Valid
  allocated : cb.uiTotEl = 0 ∨ cb.buf.isSome

theorem sound_init : init.Sound where
  valid := ⟨by decide, by decide, by decide, by decide⟩
  allocated := Or.inl rfl

theorem Sound.holds (h : cb.Sound) : Holds cb.uiSize cb cb.contents := ⟨h.valid, rfl, rfl, h.allocated⟩

/-- A read from the head on reads like one from its index, cut to the number of bytes in the queue. -/
theorem getAtBlocks_eq (hv : cb.Valid) {n : ℤ} (hn31 : n < 2147483648) :
    cb.getAtBlocks n = cb.getFromBlocks cb.uiHi (min n cb.uiTotEl) := by
  have hs := hv.size_lt
  have htot := hv.tot_le
  unfold getAtBlocks getFromBlocks
  by_cases hnone : 0 ≥ n ∨ cb.uiTotEl = 0
  · rw [if_pos hnone, if_pos (by omega)]
  · have hu : u32 n = n.toNat := u32_of_lt (by omega) (by omega)
    have hmin : (if u32 n > cb.uiTotEl then s32 cb.uiTotEl else n) = min n cb.uiTotEl := by
      rw [hu, s32_cast _ (by omega)]
      split <;> omega
    rw [if_neg hnone, if_neg (show ¬ (0 ≥ min n cb.uiTotEl ∨ cb.uiTotEl = 0) by omega), hmin]

theorem getFromBlocks_within_iff (hv : cb.Valid) (start n : IntArg) :
    (∀ b ∈ cb.getFromBlocks start.val n.val, Within cb.uiSize b) ↔ cb.Fits (.getFrom start n) := by
  unfold getFromBlocks Fits
  by_cases hnone : 0 ≥ n.val ∨ cb.uiTotEl = 0
  · rw [if_pos hnone]
    exact ⟨fun _ => hnone.imp_right Or.inl, fun _ _ h => absurd h List.not_mem_nil⟩
  · push Not at hnone
    rw [if_neg (by omega), ringBlocks_within_iff hv.size_pos hv.size_lt hnone.1 n.lt start.ge start.lt]
    constructor
    · exact fun h => Or.inr (Or.inr h)
    · rintro (h | h | h)
      · omega
      · exact absurd h hnone.2
      · exact h

theorem within_iff (hv : cb.Valid) (c : BufCall) (hc : ∀ size, c ≠ .setSize size) :
    (∀ b ∈ cb.blocks c, Within cb.uiSize b) ↔ cb.Fits c := by
  have hs := hv.size_lt
  have hhi := hv.hi_lt
  have htot := hv.tot_le
  cases c with
  | getFrom start n => exact getFromBlocks_within_iff hv start n
  | setSize size => exact absurd rfl (hc size)
  | query => exact ⟨fun _ => trivial, fun _ _ h => absurd h List.not_mem_nil⟩
  | op o =>
    refine ⟨fun _ => trivial, fun _ => ?_⟩
    cases o with
    | insert buf n =>
      intro b hb
      simp only [blocks, insertBlocks] at hb
      split_ifs at hb
      · exact insertAtBlocks_within hv n.lt b hb
      · exact absurd hb List.not_mem_nil
    | insertAt buf n => exact insertAtBlocks_within hv n.lt
    | remove n => exact fun _ h => absurd h List.not_mem_nil
    | getAt n =>
      have hlt := n.lt
      have hge := n.ge
      simp only [blocks, getAtBlocks_eq hv n.lt]
      refine (getFromBlocks_within_iff hv ⟨cb.uiHi, by omega, by omega⟩
        ⟨min n.val cb.uiTotEl, by omega, by omega⟩).2 ?_
      unfold Fits
      simp only
      omega

/-- A new size fits a valid buffer exactly if the indices still belong together. -/
theorem setSize_indicesOk_iff (hv : cb.Valid) (size : IntArg) :
    (cb.setSize size.val).2.IndicesOk ↔ cb.Fits (.setSize size) := by
  have hs := hv.size_lt
  have hhi := hv.hi_lt
  have hti := hv.ti_lt
  have htot := hv.tot_le
  have heq := hv.ti_eq
  have hlt := size.lt
  rw [wrap_eq (by omega)] at heq
  unfold setSize Fits
  by_cases hnone : size.val ≤ 0
  · rw [if_pos hnone]
    exact ⟨fun _ => Or.inl hnone, fun _ => hv.indicesOk⟩
  · rw [if_neg hnone]
    have hu : u32 size.val = size.val.toNat := u32_of_lt (by omega) (by omega)
    constructor
    · intro h
      have h1 := h.hi_lt
      have h2 := h.ti_lt
      have h3 := h.tot_le
      have h4 := h.ti_eq
      simp only [hu] at h1 h2 h3 h4
      rw [wrap_eq (by omega)] at h4
      split_ifs at heq h4 <;> omega
    · intro hfit
      refine Valid.indicesOk ⟨?_, ?_, ?_, ?_⟩ <;> simp only [hu]
      · omega
      · split_ifs at heq <;> omega
      · split_ifs at heq <;> omega
      · rw [wrap_eq (by split_ifs at heq <;> omega)]
        split_ifs at heq ⊢ <;> omega

theorem Sound.afterCall (h : cb.Sound) {c : BufCall} (hc : cb.Fits c) :
    ∃ cb', cb.afterCall c = .ok cb' ∧ cb'.Sound := by
  cases c with
  | getFrom start n => exact ⟨cb, rfl, h⟩
  | query => exact ⟨cb, rfl, h⟩
  | op o =>
    obtain ⟨cb', hperf, hholds, _⟩ := h.holds.refines o
    refine ⟨cb', ?_, hholds.valid, hholds.allocated⟩
    simp only [CircBuf.afterCall, hperf]
    rfl
  | setSize size =>
    refine ⟨_, rfl, ((setSize_indicesOk_iff h.valid size).2 hc).valid ?_, ?_⟩
    · have hlt := size.lt
      unfold setSize
      split
      · exact h.valid.size_lt
      · simp only
        unfold u32
        omega
    · unfold setSize
      split
      · exact h.allocated
      · exact Or.inr rfl

/-! ## Every sequence of calls -/

/-- From `cb` on, the indices are in range before and after each call, no call fails its assertion, and
the `memcpy`s of each stay in the array, which is allocated. -/
def Safe (cb : CircBuf) : List BufCall → Prop
  | [] => cb.IndicesOk
  | c :: cs => cb.IndicesOk ∧ ∃ cb', cb.afterCall c = .ok cb' ∧
      (∀ b ∈ cb.blocks c, Within cb.uiSize b ∧ cb'.buf.isSome) ∧ Safe cb' cs

def AllFit (cb : CircBuf) : List BufCall → Prop
  | [] => True
  | c :: cs => cb.Fits c ∧ ∀ cb', cb.afterCall c = .ok cb' → AllFit cb' cs

theorem insertAt_asserts (src : List Byte) {n : ℤ} (hn : 0 < n) (hav : cb.getAvSize < 0) :
    cb.insertAt src n = .error (.assertFail .circBufInsert) := by
  unfold getAvSize at hav
  unfold insertAt
  simp only
  rw [if_neg (by omega), if_neg (by omega), if_pos hav]

theorem insertAt_allocates {src : List Byte} {n : ℤ} {r : ℤ × Option (ℕ × ℕ) × CircBuf}
    (h : cb.insertAt src n = .ok r) (hn : 0 < n) : r.2.2.buf.isSome := by
  obtain ⟨ret, span, cb'⟩ := r
  cases insertAt_inserted h with
  | nothing hle => omega
  | full => rfl
  | stored => rfl

theorem insertAtBlocks_pos {n : ℤ} {b : ℤ × ℕ} (h : b ∈ cb.insertAtBlocks n) : 0 < n := by
  by_contra hn
  unfold insertAtBlocks at h
  rw [if_pos (Or.inl (by omega))] at h
  exact absurd h List.not_mem_nil

theorem getFromBlocks_allocated (h : cb.Sound) {start n : ℤ} {b : ℤ × ℕ}
    (hb : b ∈ cb.getFromBlocks start n) : cb.buf.isSome := by
  refine h.allocated.resolve_left fun htot => ?_
  unfold getFromBlocks at hb
  rw [if_pos (Or.inr htot)] at hb
  exact absurd hb List.not_mem_nil

/-- What a call reads or writes was allocated, by an earlier call or by itself. -/
theorem Sound.allocated_after (h : cb.Sound) {c : BufCall} {cb' : CircBuf}
    (hcall : cb.afterCall c = .ok cb') {b : ℤ × ℕ} (hb : b ∈ cb.blocks c) : cb'.buf.isSome := by
  cases c with
  | setSize size => exact absurd hb List.not_mem_nil
  | query => exact absurd hb List.not_mem_nil
  | getFrom start n =>
    cases hcall
    exact getFromBlocks_allocated h hb
  | op o =>
    simp only [CircBuf.afterCall] at hcall
    obtain ⟨r, hperf, hr⟩ := of_bind_ok hcall
    cases hr
    cases o with
    | insert buf n =>
      obtain ⟨⟨ret, cb1⟩, hins, hr⟩ := of_bind_ok hperf
      cases hr
      simp only [blocks, insertBlocks] at hb
      unfold CircBuf.insert at hins
      split_ifs at hb hins
      · obtain ⟨r, hat, hr⟩ := of_bind_ok hins
        cases hr
        exact insertAt_allocates hat (insertAtBlocks_pos hb)
      · exact absurd hb List.not_mem_nil
    | insertAt buf n =>
      obtain ⟨r, hat, hr⟩ := of_bind_ok hperf
      cases hr
      exact insertAt_allocates hat (insertAtBlocks_pos hb)
    | remove n => exact absurd hb List.not_mem_nil
    | getAt n =>
      cases hperf
      simp only [blocks, getAtBlocks_eq h.valid n.lt] at hb
      exact getFromBlocks_allocated h hb

/-- The first call that does not fit shows: `setSize` leaves indices out of range, a read leaves the
array. -/
theorem Sound.safe_iff (h : cb.Sound) (calls : List BufCall) : cb.Safe calls ↔ cb.AllFit calls := by
  induction calls generalizing cb with
  | nil => exact ⟨fun _ => trivial, fun _ => h.valid.indicesOk⟩
  | cons c cs ih =>
    constructor
    · rintro ⟨_, cb', hcall, hblocks, hrest⟩
      have hfit : cb.Fits c := by
        by_cases hset : ∃ size, c = .setSize size
        · obtain ⟨size, rfl⟩ := hset
          cases hcall
          refine (setSize_indicesOk_iff h.valid size).1 ?_
          cases cs with
          | nil => exact hrest
          | cons => exact hrest.1
        · exact (within_iff h.valid c fun size hc => hset ⟨size, hc⟩).1 fun b hb => (hblocks b hb).1
      refine ⟨hfit, fun cb'' hcall' => ?_⟩
      obtain ⟨cb1, hcall1, hsound⟩ := h.afterCall hfit
      rw [hcall] at hcall' hcall1
      cases hcall'
      cases hcall1
      exact (ih hsound).1 hrest
    · rintro ⟨hfit, hrest⟩
      obtain ⟨cb', hcall, hsound⟩ := h.afterCall hfit
      refine ⟨h.valid.indicesOk, cb', hcall, fun b hb => ⟨?_, h.allocated_after hcall hb⟩,
        (ih hsound).2 (hrest cb' hcall)⟩
      by_cases hset : ∃ size, c = .setSize size
      · obtain ⟨size, rfl⟩ := hset
        exact absurd hb List.not_mem_nil
      · exact (within_iff h.valid c fun size hc => hset ⟨size, hc⟩).2 hfit b hb

/-- Every sequence of calls on a new buffer is safe exactly if each call fits the buffer it meets. -/
theorem calls_safe_iff (calls : List BufCall) : init.Safe calls ↔ init.AllFit calls :=
  sound_init.safe_iff calls

/-- Three bytes are in the queue when the size becomes 2: the free space is negative and the next
insertion fails its assertion. -/
theorem shrunk_buffer_asserts : ∃ cb cb' : CircBuf,
    init.afterCall (.op (.insertAt (fun _ => 65) ⟨3, by decide, by decide⟩)) = .ok cb ∧
    cb.afterCall (.setSize ⟨2, by decide, by decide⟩) = .ok cb' ∧
    cb'.uiTi = 3 ∧ cb'.uiTotEl = 3 ∧ cb'.uiSize = 2 ∧ cb'.getAvSize = -1 ∧
    cb'.afterCall (.op (.insertAt (fun _ => 65) ⟨1, by decide, by decide⟩)) =
      .error (.assertFail .circBufInsert) ∧
    ¬ init.Safe [.op (.insertAt (fun _ => 65) ⟨3, by decide, by decide⟩),
      .setSize ⟨2, by decide, by decide⟩] := by
  obtain ⟨span, hstore⟩ := insertAt_eq_store sound_init.valid (copyOut (fun _ => 65) 0 3)
    (show (0 : ℤ) < 3 by decide) (by decide) (by decide)
  have hmin : min (3 : ℤ).toNat (init.uiSize - init.uiTotEl) = 3 := by decide
  rw [hmin] at hstore
  have hcall : init.afterCall (.op (.insertAt (fun _ => 65) ⟨3, by decide, by decide⟩)) =
      .ok (init.store (copyOut (fun _ => 65) 0 3) 3) := by
    simp only [afterCall, perform, Int.reduceToNat, hstore]
    rfl
  refine ⟨_, _, hcall, rfl, rfl, rfl, rfl, by decide, ?_, ?_⟩
  · simp only [afterCall, perform]
    rw [insertAt_asserts _ (by decide) (by decide)]
    rfl
  rintro ⟨_, cb, hcall', _, _, cb', hset, _, hok⟩
  rw [hcall] at hcall'
  cases hcall'
  cases hset
  exact absurd hok.tot_le (by decide)

end CircBuf
end TcpOverUdp
