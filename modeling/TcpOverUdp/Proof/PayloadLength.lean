import TcpOverUdp.Proof.Decoding

/-! # The two lengths of a payload

A packet stores the length of its payload in `buf` and again in `buflen`; the copy constructor and
`toString` read the second as the length of the first. The constructors and `clean` write both, `setBuf`
writes `buf` alone.
-/
namespace TcpOverUdp
open MachineInt
set_option autoImplicit false

namespace TouPkg

/-! ## Reading the payload by `buflen` -/

theorem headerBytes_length (t : TouHeader) : (headerBytes t).length = 16 := rfl

theorem copyOut_data {p : TouPkg} (behind : ℕ → Byte) {n : ℕ} (h : n ≤ p.buf.length) :
    copyOut (p.data behind) 0 n = p.buf.take n := by
  have hmem : copyOut (p.data behind) 0 n = copyOut (fun i => p.buf.getD i 0) 0 n := by
    refine copyOut_congr fun i hi => ?_
    unfold data
    rw [List.getD_eq_getElem _ _ (by omega), List.getD_eq_getElem _ _ (by omega)]
  rw [hmem, copyOut_getD _ (by omega), List.drop_zero]

/-- As long as `buflen` stays within the payload, nothing behind it is read. -/
theorem copyMemory_eq {p : TouPkg} (behind : ℕ → Byte) (h : p.buflen ≤ p.buf.length) :
    p.copyMemory behind = p.copy := by
  unfold copyMemory copy
  rw [copyOut_data behind (by omega)]

theorem toStringMemory_eq {p : TouPkg} (behind : ℕ → Byte) (h : p.buflen ≤ p.buf.length) :
    p.toStringMemory behind = p.toString := by
  unfold toStringMemory toString headerBytes
  rw [copyOut_data behind (by omega)]
  simp only [List.append_assoc]

/-! ## Operations -/

/-- What the constructors make of well-formed input. -/
inductive Constructed : TouPkg → Prop
  | ofDefault (mem : TouHeader) : Constructed (ofDefault mem)
  | ofSize (mem : TouHeader) (payloadsize : ℕ) : Constructed (ofSize mem payloadsize)
  | ofBuf (mem : TouHeader) {str : List Byte} {payloadsize : ℕ} (h : payloadsize ≤ str.length) :
      Constructed (ofBuf mem str payloadsize)
  | ofString (mem : TouHeader) {content : List Byte} (h16 : 16 ≤ content.length)
      (hint : content.length - 16 < 2147483648) : Constructed (ofString mem content)

inductive PkgOp where
  | copy (behind : ℕ → Byte)
  | setBuf (str : ℕ → Byte) (size : ℕ)
  | clean
  | clearFlag
  | putHeaderSeq (seq ackSeq : ℕ)

def PkgOp.apply (p : TouPkg) : PkgOp → TouPkg
  | .copy behind => p.copyMemory behind
  | .setBuf str size => p.setBuf str size
  | .clean => p.clean
  | .clearFlag => p.clearFlag
  | .putHeaderSeq seq ackSeq => p.putHeaderSeq seq ackSeq

def PkgStep (p : TouPkg) (op : PkgOp) (q : TouPkg) : Prop := q = op.apply p

/-- A `setBuf` gives the payload the size it has already. -/
def SameSize (p : TouPkg) : PkgOp → Prop
  | .setBuf _ size => size = p.buf.length
  | _ => True

/-! ## What holds of the lengths -/

/-- `buflen` is the payload's size, and `toString` emits the header and the whole payload. -/
structure LengthsKept (p : TouPkg) : Prop where
  buflen_eq : p.buflen = p.buf.length
  header_length : (headerBytes p.t).length = 16
  emits : ∀ behind, p.toStringMemory behind = headerBytes p.t ++ p.buf

theorem lengthsKept_of_buflen {p : TouPkg} (h : p.buflen = p.buf.length) : LengthsKept p := by
  refine ⟨h, headerBytes_length p.t, fun behind => ?_⟩
  unfold toStringMemory
  rw [h, Int.toNat_natCast, copyOut_data behind le_rfl, List.take_length]
  cases p.buf <;> rfl

theorem Constructed.buflen_eq {p : TouPkg} (h : Constructed p) : p.buflen = p.buf.length := by
  cases h with
  | ofDefault mem => exact (congrArg Nat.cast (List.length_replicate ..)).symm
  | ofSize mem payloadsize => exact (congrArg Nat.cast (List.length_replicate ..)).symm
  | ofBuf mem hle => exact (congrArg Nat.cast (List.length_take_of_le hle)).symm
  | @ofString mem content h16 hint =>
    show s32 (u32 ((content.length : ℤ) - 16)) = ((content.drop 16).length : ℕ)
    rw [buflen_of_lt hint, List.length_drop]
    omega

theorem buflen_step {p q : TouPkg} {op : PkgOp} (h : p.buflen = p.buf.length) (hop : SameSize p op)
    (hs : PkgStep p op q) : q.buflen = q.buf.length := by
  rw [hs]
  cases op with
  | copy behind =>
    show p.buflen = ((copyOut (p.data behind) 0 p.buflen.toNat).length : ℕ)
    rw [copyOut_length]
    omega
  | setBuf str size =>
    show p.buflen = ((copyOut str 0 size).length : ℕ)
    rw [copyOut_length, show size = p.buf.length from hop, h]
  | clean => rfl
  | clearFlag => exact h
  | putHeaderSeq seq ackSeq => exact h

/-- After a `setBuf` with another size the two lengths differ. -/
theorem sameSize_of_kept {p q : TouPkg} {op : PkgOp} (h : LengthsKept p) (hs : PkgStep p op q)
    (hq : LengthsKept q) : SameSize p op := by
  cases op with
  | setBuf str size =>
    have hlen := hq.buflen_eq
    rw [hs] at hlen
    have hsame : p.buflen = ((copyOut str 0 size).length : ℕ) := hlen
    rw [copyOut_length, h.buflen_eq] at hsame
    exact (Nat.cast_injective hsame).symm
  | copy | clean | clearFlag | putHeaderSeq => trivial

/-- In every sequence of operations on a constructed packet the lengths agree and `toString` emits the
whole payload exactly while each `setBuf` keeps the payload's size. -/
theorem lengths_kept_iff {p₀ p : TouPkg} {l : List (TouPkg × PkgOp)} (h₀ : Constructed p₀)
    (h : Trace PkgStep p₀ l p) : Throughout LengthsKept l p ↔ ∀ x ∈ l, SameSize x.1 x.2 :=
  h.throughout_iff (fun _ => True) (fun q => q.buflen = q.buf.length) LengthsKept SameSize trivial
    (fun _ _ _ _ _ => trivial) h₀.buflen_eq (fun _ => lengthsKept_of_buflen)
    (fun _ _ _ _ hlen hop hs => buflen_step hlen hop hs)
    (fun _ _ _ _ hk hs hq => sameSize_of_kept hk hs hq)

/-- A datagram of 17 bytes is decoded, copied, given another payload of one byte and cleaned. -/
theorem lengths_kept_iff_decoded : ∃ p₀ l p, Constructed p₀ ∧ Trace PkgStep p₀ l p ∧ l.length = 3 ∧
    (Throughout LengthsKept l p ↔ ∀ x ∈ l, SameSize x.1 x.2) := by
  let p₀ : TouPkg := ofString TouHeader.blank (List.replicate 17 65)
  have h₀ : Constructed p₀ := .ofString _ (by decide) (by decide)
  have h1 : PkgStep p₀ (.copy fun _ => 0) (p₀.copyMemory fun _ => 0) := rfl
  have h2 : PkgStep _ (.setBuf (fun _ => 66) 1) ((p₀.copyMemory fun _ => 0).setBuf (fun _ => 66) 1) := rfl
  have h3 : PkgStep _ .clean ((p₀.copyMemory fun _ => 0).setBuf (fun _ => 66) 1).clean := rfl
  have h := ((Trace.nil.snoc h1).snoc h2).snoc h3
  exact ⟨_, _, _, h₀, h, rfl, lengths_kept_iff h₀ h⟩

/-- `setBuf("AB", 2)` on an empty packet: `toString` emits the header alone. -/
theorem setBuf_keeps_buflen : ∃ p₀ l p, Constructed p₀ ∧ Trace PkgStep p₀ l p ∧ p.buf = [65, 66] ∧
    p.buflen = 0 ∧ (∀ behind, p.toStringMemory behind = headerBytes p.t) ∧
    ¬ Throughout LengthsKept l p := by
  let p₀ : TouPkg := ofSize TouHeader.blank 0
  have h1 : PkgStep p₀ (.setBuf (fun i => 65 + UInt8.ofNat i) 2)
      (p₀.setBuf (fun i => 65 + UInt8.ofNat i) 2) := rfl
  refine ⟨p₀, _, _, .ofSize TouHeader.blank 0, Trace.nil.snoc h1, rfl, rfl, fun _ => rfl, fun hk => ?_⟩
  exact absurd hk.2.buflen_eq (by decide)

end TouPkg
end TcpOverUdp
