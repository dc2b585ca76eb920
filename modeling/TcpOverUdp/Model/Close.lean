import TcpOverUdp.Model.Tou

/-! # Closing a connection (`touClose`, `closer::dothis`)

The close path does not use `toString`: it hands `sendto` and `recvfrom` the `touPkg` object itself.
`ObjPkg` is that object in memory, on the i686 target: the sixteen bytes of `touHeader`, whose
bit-fields start at the least significant bit, the address in `buf` and `buflen`. The thread of
`closer` blocks in one `recvfrom`; what it delivers, if anything, is an argument. It is taken to start
after `closer::tp` was constructed, which the order of the members does not ensure.
-/
namespace TcpOverUdp
open MachineInt
set_option autoImplicit false

namespace TouHeader

/-- The byte of the bit-fields `doff` and `dres` in memory. -/
def rawOffsetByte (t : TouHeader) : Byte := UInt8.ofNat (t.doff % 16 + t.dres % 16 * 16)

/-- The byte of the eight one-bit fields in memory, `res` first. -/
def rawFlagByte (t : TouHeader) : Byte :=
  (if t.res then 0x01 else 0) ||| (if t.cwr then 0x02 else 0) ||| (if t.ece then 0x04 else 0) |||
    (if t.ack then 0x08 else 0) ||| (if t.psh then 0x10 else 0) ||| (if t.rst then 0x20 else 0) |||
    (if t.syn then 0x40 else 0) ||| (if t.fin then 0x80 else 0)

end TouHeader

/-- A `touPkg` object as it lies in memory. -/
structure ObjPkg where
  t : TouHeader
  /-- The pointer `buf`. -/
  bufAddr : ℕ
  buflen : ℤ
  deriving DecidableEq, Repr

namespace ObjPkg

/-- `sizeof(touPkg)`. -/
abbrev size : ℕ := 24

/-- `touPkg(int payloadsize)`; the constructor without argument is the one for `TOU_MSS`. -/
def ofSize (mem : TouHeader) (addr payloadsize : ℕ) : ObjPkg :=
  { t := mem.clearFlag, bufAddr := addr, buflen := payloadsize }

/-- The bytes of the object. -/
def bytes (p : ObjPkg) : List Byte :=
  word32 p.t.seq ++ (word32 p.t.mag ++ (word32 p.t.ackSeq ++
    ([p.t.rawOffsetByte, p.t.rawFlagByte] ++ (word16 p.t.window ++
      (word32 p.bufAddr ++ word32 (u32 p.buflen))))))

/-- The object that lies in 24 bytes of memory. -/
def ofBytes (s : List Byte) : ObjPkg :=
  let o := (s.getD 12 0).toNat
  let c := s.getD 13 0
  { t :=
      { seq := readWord32 s 0
        mag := readWord32 s 4
        ackSeq := readWord32 s 8
        doff := o % 16
        dres := o / 16
        res := (c &&& 0x01) == 0x01
        cwr := (c &&& 0x02) == 0x02
        ece := (c &&& 0x04) == 0x04
        ack := (c &&& 0x08) == 0x08
        psh := (c &&& 0x10) == 0x10
        rst := (c &&& 0x20) == 0x20
        syn := (c &&& 0x40) == 0x40
        fin := (c &&& 0x80) == 0x80
        window := readWord16 s 14 }
    bufAddr := readWord32 s 16
    buflen := s32 (readWord32 s 20) }

/-- `recvfrom(sd, &tp, sizeof(tp), ..)` overwrites the object from its first byte on. -/
def overwrite (p : ObjPkg) (content : List Byte) : ObjPkg :=
  ofBytes (content.take size ++ p.bytes.drop (content.take size).length)

/-- `clean`. The string behind `buf` is cleared, the pointer stays. -/
def clean (p : ObjPkg) : ObjPkg :=
  { t := { p.t.clearFlag with seq := 0, mag := magicCookie, ackSeq := 0, window := 0 }
    bufAddr := p.bufAddr
    buflen := 0 }

end ObjPkg

/-- One call of `sendto` with an object. -/
structure RawTx where
  dst : Addr
  pkt : ObjPkg
  deriving DecidableEq, Repr

/-- What the close path sent, the table it leaves and whether it deleted the table. -/
structure Closing where
  sent : List RawTx
  stb : SockTb
  deleted : Bool

namespace Process

/-- `closer::dothis`. `tp` is the member `closer::tp`, `wild` the inner `sockaddrs` that the client's
branch passes to `sendto` without having assigned it, and `received` what the `recvfrom` delivers,
`none` if nothing ever comes. -/
def closerDothis (stb : SockTb) (tp : ObjPkg) (wild : Addr) (received : Option (List Byte)) : Closing :=
  if stb.sockstate = .closeWait then
    let tp := { tp with t := { tp.t with fin := true, ack := true, seq := 2 } }
    -- the socket is closed whatever comes back, and the table stays
    { sent := [{ dst := stb.dst, pkt := tp }], stb := stb, deleted := false }
  else
    let stb := stb.setSocketState .finWait1
    match received with
    | none => { sent := [], stb := stb, deleted := false }
    | some content =>
      let tp := tp.overwrite content
      let stb := if tp.t.fin ∧ tp.t.ack then stb.setSocketState .timeWait else stb
      let tp := tp.clean
      let tp := { tp with t := { tp.t with ack := true, seq := 3 } }
      { sent := [{ dst := wild, pkt := tp }], stb := stb, deleted := true }

/-- `touClose`: `own` is its local packet, `tp(0)`, and `tp` the member of the `closer` it creates. -/
def touClose (stb : SockTb) (own tp : ObjPkg) (wild : Addr) (received : Option (List Byte)) : Closing :=
  if stb.sockstate = .closeWait then closerDothis stb tp wild received
  else
    let own := own.clean
    let own := { own with t := { own.t with seq := 0, fin := true, ackSeq := u32 ((0 : ℤ) + 1) } }
    let closing := closerDothis stb tp wild received
    { closing with sent := { dst := stb.dst, pkt := own } :: closing.sent }

end Process
end TcpOverUdp
