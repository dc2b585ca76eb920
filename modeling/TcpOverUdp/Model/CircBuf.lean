import TcpOverUdp.Foundations.Cyclic
import TcpOverUdp.Model.Comm

/-! # The circular buffer (`circ_buf.cpp`)

`CircBuf` has the fields of the class and the operations in its own arithmetic. `m_buf` is a block
of memory; `malloc` is taken to succeed, and the bytes of a fresh block are zero here although C
leaves them open (no operation on a valid buffer reads a byte before it was written).
-/
namespace TcpOverUdp
open MachineInt
set_option autoImplicit false

structure CircBuf where
  uiSize : ℕ
  uiHi : ℕ
  uiTi : ℕ
  uiTotEl : ℕ
  buf : Option (ℕ → Byte)

namespace CircBuf

/-- The constructor, with the default size `dsize`. -/
def init : CircBuf := { uiSize := 4096, uiHi := 0, uiTi := 0, uiTotEl := 0, buf := none }

/-- The memory of the buffer, allocated when it is still `NULL`. -/
def mem (cb : CircBuf) : ℕ → Byte := cb.buf.getD fun _ => 0

/-- `insert(buf, n, start, end)`: the answer, `start` and `end` when they are set, the buffer. -/
def insertAt (cb : CircBuf) (src : List Byte) (n : ℤ) :
    Except Halt (ℤ × Option (ℕ × ℕ) × CircBuf) :=
  if n ≤ 0 then .ok (0, none, cb)
  else
    let mem := cb.mem
    let an := s32 (u32 ((cb.uiSize : ℤ) - cb.uiTotEl))
    if an = 0 then .ok (0, none, { cb with buf := some mem })
    else if an < 0 then .error (.assertFail .circBufInsert)
    else
      let n := if n > an then an else n
      let first := u32 ((cb.uiSize : ℤ) - cb.uiTi)
      let second := if u32 n > first then u32 (n - first) else 0
      let first := if u32 n > first then first else u32 n
      let mem1 := copyIn mem cb.uiTi src first
      let ti1 := u32 ((cb.uiTi : ℤ) + first) % cb.uiSize
      let mem2 := if second > 0 then copyIn mem1 ti1 (src.drop first) second else mem1
      let ti2 := if second > 0 then second else ti1
      .ok (n, some (cb.uiTi, ti2),
        { cb with uiTi := ti2, uiTotEl := u32 ((cb.uiTotEl : ℤ) + n), buf := some mem2 })

/-- `insert(buf, n)`: all of the bytes or none. The comparison is an unsigned one. -/
def insert (cb : CircBuf) (src : List Byte) (n : ℤ) : Except Halt (ℤ × CircBuf) :=
  if u32 n < u32 ((cb.uiSize : ℤ) - cb.uiTotEl) then do
    let (ret, _, cb') ← cb.insertAt src n
    return (ret, cb')
  else .ok (0, cb)

/-- `remove(n)`. -/
def remove (cb : CircBuf) (n : ℤ) : ℤ × CircBuf :=
  if cb.uiTotEl = 0 ∨ n ≤ 0 then (0, cb)
  else if u32 n > cb.uiTotEl then
    (s32 cb.uiTotEl, { cb with uiHi := cb.uiTi, uiTotEl := 0 })
  else
    (n, { cb with uiHi := u32 ((cb.uiHi : ℤ) + n) % cb.uiSize,
                  uiTotEl := u32 ((cb.uiTotEl : ℤ) - n) })

/-- The two `memcpy`s both `getAt`s end with: `n` bytes from `start`, around the end of the array. -/
def copyRing (cb : CircBuf) (start : ℕ) (n : ℤ) : List Byte × ℕ :=
  let first := u32 ((cb.uiSize : ℤ) - start)
  let second := if u32 n > first then u32 (n - first) else 0
  let first := if u32 n > first then first else u32 n
  let out := copyOut cb.mem start first
  if second > 0 then (out ++ copyOut cb.mem 0 second, second)
  else (out, u32 ((start : ℤ) + first) % cb.uiSize)

/-- `getAt(buf, n, end)`: the answer, the bytes copied and `end` when it is set. -/
def getAt (cb : CircBuf) (n : ℤ) : ℤ × List Byte × Option ℕ :=
  if 0 ≥ n ∨ cb.uiTotEl = 0 then (0, [], none)
  else
    let n := if u32 n > cb.uiTotEl then s32 cb.uiTotEl else n
    let out := cb.copyRing cb.uiHi n
    (n, out.1, some out.2)

/-- `getAt(buf, start, n, end)`, for a `start` that is not negative. -/
def getFrom (cb : CircBuf) (start : ℕ) (n : ℤ) : ℤ × List Byte × Option ℕ :=
  if 0 ≥ n ∨ cb.uiTotEl = 0 then (0, [], none)
  else
    let out := cb.copyRing start n
    (n, out.1, some out.2)

/-- `getHead()`. -/
def getHead (cb : CircBuf) : ℤ := s32 cb.uiHi

/-- `getAvSize()`. -/
def getAvSize (cb : CircBuf) : ℤ := s32 (u32 ((cb.uiSize : ℤ) - cb.uiTotEl))

/-- `getTotalElements()`. -/
def getTotalElements (cb : CircBuf) : ℤ := s32 cb.uiTotEl

/-- `setSize(size)`. -/
def setSize (cb : CircBuf) (size : ℤ) : ℤ × CircBuf :=
  if size ≤ 0 then (-1, cb)
  else (1, { cb with uiSize := u32 size, buf := some fun _ => 0 })

/-! ## The memory that a call touches

A block is an offset into `m_buf` and a number of bytes. -/

/-- The blocks that the two `memcpy`s of `copyRing` read. -/
def ringBlocks (cb : CircBuf) (start n : ℤ) : List (ℤ × ℕ) :=
  let first := u32 ((cb.uiSize : ℤ) - start)
  let second := if u32 n > first then u32 (n - first) else 0
  let first := if u32 n > first then first else u32 n
  (start, first) :: if second > 0 then [(0, second)] else []

/-- The blocks that `getAt(buf, start, n, end)` reads. -/
def getFromBlocks (cb : CircBuf) (start n : ℤ) : List (ℤ × ℕ) :=
  if 0 ≥ n ∨ cb.uiTotEl = 0 then [] else cb.ringBlocks start n

/-- The blocks that `getAt(buf, n, end)` reads. -/
def getAtBlocks (cb : CircBuf) (n : ℤ) : List (ℤ × ℕ) :=
  if 0 ≥ n ∨ cb.uiTotEl = 0 then []
  else cb.ringBlocks cb.uiHi (if u32 n > cb.uiTotEl then s32 cb.uiTotEl else n)

/-- The blocks that `insert(buf, n, start, end)` writes. -/
def insertAtBlocks (cb : CircBuf) (n : ℤ) : List (ℤ × ℕ) :=
  let an := s32 (u32 ((cb.uiSize : ℤ) - cb.uiTotEl))
  if n ≤ 0 ∨ an ≤ 0 then []
  else
    let n := if n > an then an else n
    let first := u32 ((cb.uiSize : ℤ) - cb.uiTi)
    let second := if u32 n > first then u32 (n - first) else 0
    let first := if u32 n > first then first else u32 n
    let ti1 := u32 ((cb.uiTi : ℤ) + first) % cb.uiSize
    ((cb.uiTi : ℤ), first) :: if second > 0 then [((ti1 : ℤ), second)] else []

/-- The blocks that `insert(buf, n)` writes. -/
def insertBlocks (cb : CircBuf) (n : ℤ) : List (ℤ × ℕ) :=
  if u32 n < u32 ((cb.uiSize : ℤ) - cb.uiTotEl) then cb.insertAtBlocks n else []

/-! ## Valid buffers -/

/-- What `setSize` on an empty buffer sets up and `insert` and `remove` keep. -/
structure Valid (cb : CircBuf) : Prop where
  size_lt : cb.uiSize < 2147483648
  hi_lt : cb.uiHi < cb.uiSize
  tot_le : cb.uiTotEl ≤ cb.uiSize
  ti_eq : cb.uiTi = (cb.uiHi + cb.uiTotEl) % cb.uiSize

/-- The bytes in the queue, front first. -/
def contents (cb : CircBuf) : List Byte :=
  (List.range cb.uiTotEl).map fun i => cb.mem ((cb.uiHi + i) % cb.uiSize)

@[simp] theorem contents_length (cb : CircBuf) : cb.contents.length = cb.uiTotEl := by
  simp [contents]

theorem contents_getElem (cb : CircBuf) (i : ℕ) (h : i < cb.contents.length) :
    cb.contents[i] = cb.mem ((cb.uiHi + i) % cb.uiSize) := by
  simp [contents]

/-- An index less than twice the size is reduced by at most one subtraction. -/
theorem wrap_eq {a m : ℕ} (h : a < 2 * m) : a % m = if a < m then a else a - m := by
  split
  · exact Nat.mod_eq_of_lt ‹_›
  · rw [Nat.mod_eq_sub_mod (by omega), Nat.mod_eq_of_lt (by omega)]

namespace Valid
variable {cb : CircBuf}

theorem size_pos (hv : cb.Valid) : 0 < cb.uiSize := Nat.zero_lt_of_lt hv.hi_lt

theorem ti_lt (hv : cb.Valid) : cb.uiTi < cb.uiSize := by
  rw [hv.ti_eq]
  exact Nat.mod_lt _ hv.size_pos

theorem free_eq (hv : cb.Valid) : u32 ((cb.uiSize : ℤ) - cb.uiTotEl) = cb.uiSize - cb.uiTotEl :=
  u32_sub _ _ hv.tot_le (by have := hv.size_lt; omega)

theorem getAvSize_eq (hv : cb.Valid) : cb.getAvSize = (cb.uiSize - cb.uiTotEl : ℕ) := by
  rw [getAvSize, hv.free_eq, s32_cast _ (by have := hv.size_lt; omega)]

theorem getTotalElements_eq (hv : cb.Valid) : cb.getTotalElements = cb.uiTotEl :=
  s32_cast _ (by have := hv.size_lt; have := hv.tot_le; omega)

end Valid
end CircBuf
end TcpOverUdp
