import TcpOverUdp.Model.Comm

/-! # Packets and their wire format (`tou_header.cpp`)

A `TouPkg` is the header, the payload string `buf` and the separately stored `buflen`. The
constructors leave some header fields unassigned; what the memory held there is their argument
`mem`. `toString` and `ofString` are the encoder and the decoder, byte by byte.
-/
namespace TcpOverUdp
open MachineInt
set_option autoImplicit false

structure TouHeader where
  seq : ℕ
  mag : ℕ
  ackSeq : ℕ
  doff : ℕ
  dres : ℕ
  res : Bool
  cwr : Bool
  ece : Bool
  ack : Bool
  psh : Bool
  rst : Bool
  syn : Bool
  fin : Bool
  window : ℕ
  deriving DecidableEq, Repr

namespace TouHeader

/-- All-zero memory, for the fields a constructor leaves unassigned. -/
def blank : TouHeader :=
  { seq := 0, mag := 0, ackSeq := 0, doff := 0, dres := 0, res := false, cwr := false, ece := false,
    ack := false, psh := false, rst := false, syn := false, fin := false, window := 0 }

def clearFlag (t : TouHeader) : TouHeader :=
  { t with doff := 0, dres := 0, res := false, cwr := false, ece := false, ack := false,
           psh := false, rst := false, syn := false, fin := false }

/-- The byte of the eight one-bit flags. -/
def flagByte (t : TouHeader) : Byte :=
  (if t.res then 0x80 else 0) ||| (if t.cwr then 0x40 else 0) ||| (if t.ece then 0x20 else 0) |||
    (if t.ack then 0x10 else 0) ||| (if t.psh then 0x08 else 0) ||| (if t.rst then 0x04 else 0) |||
    (if t.syn then 0x02 else 0) ||| (if t.fin then 0x01 else 0)

/-- The byte of `doff` and `dres`, under the precedence `(doff << 4) | (dres & 0x0011)`. -/
def offsetByte (t : TouHeader) : Byte := UInt8.ofNat ((t.doff <<< 4) ||| (t.dres &&& 0x0011))

end TouHeader

structure TouPkg where
  t : TouHeader
  buf : List Byte
  buflen : ℤ
  deriving DecidableEq, Repr

namespace TouPkg

/-- `touPkg(int payloadsize)`. -/
def ofSize (mem : TouHeader) (payloadsize : ℕ) : TouPkg :=
  { t := mem.clearFlag, buf := List.replicate payloadsize 0, buflen := payloadsize }

/-- `touPkg()`. -/
def ofDefault (mem : TouHeader) : TouPkg := ofSize mem touMss

/-- `touPkg(const char *str, int payloadsize)`. -/
def ofBuf (mem : TouHeader) (str : List Byte) (payloadsize : ℕ) : TouPkg :=
  { t := mem.clearFlag, buf := str.take payloadsize, buflen := payloadsize }

/-- `touPkg(std::string content)`: `doff` and `dres` are not assigned. -/
def ofString (mem : TouHeader) (content : List Byte) : TouPkg :=
  let c := content.getD 13 0
  { t := { mem with
      seq := readWord32 content 0
      mag := readWord32 content 4
      ackSeq := readWord32 content 8
      res := (c &&& 0x80) == 0x80
      cwr := (c &&& 0x40) == 0x40
      ece := (c &&& 0x20) == 0x20
      ack := (c &&& 0x10) == 0x10
      psh := (c &&& 0x08) == 0x08
      rst := (c &&& 0x04) == 0x04
      syn := (c &&& 0x02) == 0x02
      fin := (c &&& 0x01) == 0x01
      window := readWord16 content 14 }
    buf := content.drop 16
    buflen := s32 (u32 ((content.length : ℤ) - 16)) }

/-- The blocks, by offset and length, that `touPkg(std::string content)` copies from `&content[0]` on, for
a content of `size` bytes. -/
def decoderReads (size : ℕ) : List (ℕ × ℕ) :=
  let buflen := s32 (u32 ((size : ℤ) - 16))
  [(0, 4), (4, 4), (8, 4), (13, 1), (14, 2)] ++ if buflen > 0 then [(16, buflen.toNat)] else []

/-- `touPkg(std::string content)` on the memory where the content lies, whatever follows it there. -/
def ofMemory (mem : TouHeader) (content : ℕ → Byte) (size : ℕ) : TouPkg :=
  let tempdataC := (copyOut content 13 1).getD 0 0
  let buflen := s32 (u32 ((size : ℤ) - 16))
  { t := { mem with
      seq := readWord32 (copyOut content 0 4) 0
      mag := readWord32 (copyOut content 4 4) 0
      ackSeq := readWord32 (copyOut content 8 4) 0
      res := (tempdataC &&& 0x80) == 0x80
      cwr := (tempdataC &&& 0x40) == 0x40
      ece := (tempdataC &&& 0x20) == 0x20
      ack := (tempdataC &&& 0x10) == 0x10
      psh := (tempdataC &&& 0x08) == 0x08
      rst := (tempdataC &&& 0x04) == 0x04
      syn := (tempdataC &&& 0x02) == 0x02
      fin := (tempdataC &&& 0x01) == 0x01
      window := readWord16 (copyOut content 14 2) 0 }
    buf := if buflen > 0 then copyOut content 16 buflen.toNat else []
    buflen := buflen }

/-- `touPkg(const touPkg &)`. -/
def copy (p : TouPkg) : TouPkg :=
  { t := p.t, buf := p.buf.take p.buflen.toNat, buflen := p.buflen }

def toString (p : TouPkg) : List Byte :=
  word32 p.t.seq ++ (word32 p.t.mag ++ (word32 p.t.ackSeq ++
    ([p.t.offsetByte, p.t.flagByte] ++ (word16 p.t.window ++
      if p.buf.length > 0 then p.buf.take p.buflen.toNat else []))))

/-- The bytes of the fixed header in `toString`. -/
def headerBytes (t : TouHeader) : List Byte :=
  word32 t.seq ++ (word32 t.mag ++ (word32 t.ackSeq ++ ([t.offsetByte, t.flagByte] ++ word16 t.window)))

/-- The memory from `buf->data()` on: the payload, and whatever lies behind it. -/
def data (p : TouPkg) (behind : ℕ → Byte) : ℕ → Byte := fun i => p.buf.getD i (behind i)

/-- `touPkg(const touPkg &)` on the memory where the payload lies. -/
def copyMemory (p : TouPkg) (behind : ℕ → Byte) : TouPkg :=
  { t := p.t, buf := copyOut (p.data behind) 0 p.buflen.toNat, buflen := p.buflen }

/-- `toString` on the memory where the payload lies. -/
def toStringMemory (p : TouPkg) (behind : ℕ → Byte) : List Byte :=
  headerBytes p.t ++ if p.buf.length > 0 then copyOut (p.data behind) 0 p.buflen.toNat else []

/-- `setBuf`, which does not assign `buflen`. -/
def setBuf (p : TouPkg) (str : ℕ → Byte) (size : ℕ) : TouPkg := { p with buf := copyOut str 0 size }

def clearFlag (p : TouPkg) : TouPkg := { p with t := p.t.clearFlag }

def putHeaderSeq (p : TouPkg) (seq ackSeq : ℕ) : TouPkg :=
  { p with t := { p.t with seq := seq, ackSeq := ackSeq, mag := magicCookie } }

def setAck (p : TouPkg) (b : Bool) : TouPkg := { p with t := { p.t with ack := b } }

def setSyn (p : TouPkg) (b : Bool) : TouPkg := { p with t := { p.t with syn := b } }

def clean (p : TouPkg) : TouPkg :=
  { t := { p.t.clearFlag with seq := 0, mag := magicCookie, ackSeq := 0, window := 0 }
    buf := []
    buflen := 0 }

/-! ## What the peer decodes -/

/-- Packets whose fields are in the range of their types and whose `buflen` is the payload's length. -/
structure WellFormed (p : TouPkg) : Prop where
  seq_lt : p.t.seq < 4294967296
  ackSeq_lt : p.t.ackSeq < 4294967296
  mag_lt : p.t.mag < 4294967296
  window_lt : p.t.window < 65536
  buflen_eq : p.buflen = p.buf.length
  buflen_lt : p.buf.length < 2147483648

theorem flagByte_decode : ∀ res cwr ece ack psh rst syn fin : Bool,
    let c : Byte := (if res then 0x80 else 0) ||| (if cwr then 0x40 else 0) |||
      (if ece then 0x20 else 0) ||| (if ack then 0x10 else 0) ||| (if psh then 0x08 else 0) |||
      (if rst then 0x04 else 0) ||| (if syn then 0x02 else 0) ||| (if fin then 0x01 else 0)
    ((c &&& 0x80) == 0x80) = res ∧ ((c &&& 0x40) == 0x40) = cwr ∧ ((c &&& 0x20) == 0x20) = ece ∧
      ((c &&& 0x10) == 0x10) = ack ∧ ((c &&& 0x08) == 0x08) = psh ∧ ((c &&& 0x04) == 0x04) = rst ∧
      ((c &&& 0x02) == 0x02) = syn ∧ ((c &&& 0x01) == 0x01) = fin := by
  decide

theorem toString_eq {p : TouPkg} (hw : p.WellFormed) :
    p.toString = word32 p.t.seq ++ (word32 p.t.mag ++ (word32 p.t.ackSeq ++
      ([p.t.offsetByte, p.t.flagByte] ++ (word16 p.t.window ++ p.buf)))) := by
  have hlen : p.buf.take p.buflen.toNat = p.buf := by
    rw [hw.buflen_eq, Int.toNat_natCast, List.take_length]
  unfold toString
  rw [hlen]
  cases p.buf <;> rfl

@[simp] theorem toString_length {p : TouPkg} (hw : p.WellFormed) :
    p.toString.length = 16 + p.buf.length := by
  rw [toString_eq hw]
  simp only [List.length_append, word32_length, word16_length, List.length_cons, List.length_nil]
  omega

/-- Decoding an encoded packet gives it back, up to the fields the decoder leaves unassigned. -/
theorem ofString_toString (mem : TouHeader) {p : TouPkg} (hw : p.WellFormed) :
    ofString mem p.toString =
      { p with t := { p.t with doff := mem.doff, dres := mem.dres } } := by
  have hseq := readWord32_word32 [] (word32 p.t.mag ++ (word32 p.t.ackSeq ++
    ([p.t.offsetByte, p.t.flagByte] ++ (word16 p.t.window ++ p.buf)))) p.t.seq hw.seq_lt
  have hmag := readWord32_word32 (word32 p.t.seq) (word32 p.t.ackSeq ++
    ([p.t.offsetByte, p.t.flagByte] ++ (word16 p.t.window ++ p.buf))) p.t.mag hw.mag_lt
  have hack := readWord32_word32 (word32 p.t.seq ++ word32 p.t.mag)
    ([p.t.offsetByte, p.t.flagByte] ++ (word16 p.t.window ++ p.buf)) p.t.ackSeq hw.ackSeq_lt
  have hwin := readWord16_word16 (word32 p.t.seq ++ (word32 p.t.mag ++ (word32 p.t.ackSeq ++
    [p.t.offsetByte, p.t.flagByte]))) p.buf p.t.window hw.window_lt
  simp only [List.append_assoc, List.nil_append, List.length_append, word32_length,
    List.length_nil, List.length_cons, Nat.reduceAdd] at hseq hmag hack hwin
  have hflag : p.toString.getD 13 0 = p.t.flagByte := by
    rw [toString_eq hw]
    rfl
  have hbuf : p.toString.drop 16 = p.buf := by
    rw [toString_eq hw]
    rfl
  have hlen : s32 (u32 ((p.toString.length : ℤ) - 16)) = p.buflen := by
    have h31 := hw.buflen_lt
    have hval : ((p.toString.length : ℤ) - 16) = (p.buf.length : ℕ) := by
      rw [toString_length hw]
      push_cast
      ring
    rw [hw.buflen_eq, hval, u32_cast _ (by omega), s32_cast _ h31]
  obtain ⟨h1, h2, h3, h4, h5, h6, h7, h8⟩ :=
    flagByte_decode p.t.res p.t.cwr p.t.ece p.t.ack p.t.psh p.t.rst p.t.syn p.t.fin
  unfold ofString
  simp only [hflag, hbuf, hlen]
  rw [toString_eq hw, hseq, hmag, hack, hwin]
  unfold TouHeader.flagByte
  simp only [h1, h2, h3, h4, h5, h6, h7, h8]

/-- The packet with its words cut to their size, as any packet of a process arrives. -/
def wire (p : TouPkg) : TouPkg :=
  { p with t := { p.t with
      seq := p.t.seq % 4294967296
      mag := p.t.mag % 4294967296
      ackSeq := p.t.ackSeq % 4294967296
      window := p.t.window % 65536
      doff := 0
      dres := 0 } }

/-- What is decoded of a packet whose words need not fit. -/
theorem ofString_wire {p : TouPkg} (hlen : p.buflen = p.buf.length) (hlt : p.buf.length < 2147483648) :
    ofString TouHeader.blank p.toString = p.wire := by
  obtain ⟨w, hw⟩ : ∃ w : TouPkg, w = { p with t := { p.t with
      seq := p.t.seq % 4294967296
      mag := p.t.mag % 4294967296
      ackSeq := p.t.ackSeq % 4294967296
      window := p.t.window % 65536 } } := ⟨_, rfl⟩
  have hwf : w.WellFormed := by
    rw [hw]
    exact ⟨Nat.mod_lt _ (by decide), Nat.mod_lt _ (by decide), Nat.mod_lt _ (by decide),
      Nat.mod_lt _ (by decide), hlen, hlt⟩
  have hsame : p.toString = w.toString := by
    rw [hw]
    unfold toString
    simp only [word32_mod, word16_mod]
    rfl
  rw [hsame, ofString_toString _ hwf, hw]
  rfl

end TouPkg
end TcpOverUdp
