import TcpOverUdp.Model.Header

/-! # Decoding what arrives

`touPkg(std::string)` reads at fixed offsets and takes the rest for the payload, without looking at the
length first. A datagram shorter than the header makes it read beyond the string and count a negative
payload. The byte of `doff` and `dres` is not decoded, so encoding again writes whatever the memory of the
packet held there.
-/
namespace TcpOverUdp
open MachineInt
set_option autoImplicit false

namespace TouPkg

/-! ## What the decoder reads -/

/-- The decoder depends on the blocks of `decoderReads` and on nothing else. -/
theorem ofMemory_congr (mem : TouHeader) {a b : ℕ → Byte} {size : ℕ}
    (h : ∀ r ∈ decoderReads size, ∀ i, i < r.2 → a (r.1 + i) = b (r.1 + i)) :
    ofMemory mem a size = ofMemory mem b size := by
  unfold decoderReads at h
  have hseq := copyOut_congr (h (0, 4) (by simp))
  have hmag := copyOut_congr (h (4, 4) (by simp))
  have hack := copyOut_congr (h (8, 4) (by simp))
  have hflag := copyOut_congr (h (13, 1) (by simp))
  have hwindow := copyOut_congr (h (14, 2) (by simp))
  unfold ofMemory
  simp only at hseq hmag hack hflag hwindow
  rw [hseq, hmag, hack, hflag, hwindow]
  simp only
  split
  · rename_i hpos
    have hbuf := copyOut_congr (h (16, (s32 (u32 ((size : ℤ) - 16))).toNat) (by simp [hpos]))
    simp only at hbuf
    rw [hbuf]
  · rfl

theorem buflen_of_lt {size : ℕ} (h : size - 16 < 2147483648) :
    s32 (u32 ((size : ℤ) - 16)) = (size : ℤ) - 16 := by
  unfold s32 u32
  omega

/-- On a string that has the bytes it reads, the decoder is `ofString`. -/
theorem ofMemory_eq (mem : TouHeader) {content : List Byte} (h16 : 16 ≤ content.length)
    (hlt : content.length < 2147483648) :
    ofMemory mem (fun i => content.getD i 0) content.length = ofString mem content := by
  have hlen := buflen_of_lt (show content.length - 16 < 2147483648 by omega)
  have hbuf : (if (content.length : ℤ) - 16 > 0 then
      copyOut (fun i => content.getD i 0) 16 ((content.length : ℤ) - 16).toNat else []) =
      content.drop 16 := by
    split
    · rw [copyOut_getD _ (by omega), List.take_of_length_le (by rw [List.length_drop]; omega)]
    · rw [List.drop_of_length_le (by omega)]
  unfold ofMemory ofString
  simp only [hlen, hbuf]
  rfl

/-- An `int` that a constructor or `append` of `std::string` takes as the number of bytes of `s`. -/
def LengthWithin (n : ℤ) (s : List Byte) : Prop := 0 ≤ n ∧ n ≤ s.length

/-- The decoder reads bytes of the content only, `buflen` is the length of the payload, and the copy
constructor and `toString` use it as a length within the payload. -/
structure DecodesSafely (content : List Byte) : Prop where
  reads : ∀ r ∈ decoderReads content.length, r.1 + r.2 ≤ content.length
  buflen_eq : ∀ mem, (ofString mem content).buflen = (ofString mem content).buf.length
  size_eq : ∀ mem, ((ofString mem content).buf.length : ℤ) = max 0 ((content.length : ℤ) - 16)
  copy_len : ∀ mem, LengthWithin (ofString mem content).buflen (ofString mem content).buf
  encode_len : ∀ mem, (ofString mem content).buf.length > 0 →
    LengthWithin (ofString mem content).buflen (ofString mem content).buf

/-- A datagram that `run_recvfrom` passes on is decoded safely if and only if it has a whole header. -/
theorem decodes_safely_iff (content : List Byte) (hmax : content.length ≤ recvBufSize) :
    DecodesSafely content ↔ 16 ≤ content.length := by
  constructor
  · intro h
    exact h.reads (14, 2) (by simp [decoderReads])
  · intro h16
    unfold recvBufSize at hmax
    have hlen := buflen_of_lt (show content.length - 16 < 2147483648 by omega)
    have hbuf : ∀ mem, (ofString mem content).buf.length = content.length - 16 := fun _ => List.length_drop
    have hbuflen : ∀ mem, (ofString mem content).buflen = (content.length : ℤ) - 16 := fun _ => hlen
    have hwithin : ∀ mem, LengthWithin (ofString mem content).buflen (ofString mem content).buf := by
      intro mem
      unfold LengthWithin
      rw [hbuflen, hbuf]
      omega
    refine ⟨?_, ?_, ?_, hwithin, fun mem _ => hwithin mem⟩
    · intro r hr
      unfold decoderReads at hr
      simp only [hlen] at hr
      rcases List.mem_append.1 hr with hr | hr
      · simp only [List.mem_cons, List.not_mem_nil, or_false] at hr
        rcases hr with rfl | rfl | rfl | rfl | rfl <;> simp only <;> omega
      · split at hr
        · rw [List.mem_singleton.1 hr]
          simp only
          omega
        · cases hr
    · intro mem
      rw [hbuflen, hbuf]
      omega
    · intro mem
      rw [hbuf]
      omega

theorem decodes_safely_iff_header : DecodesSafely (List.replicate 16 0) :=
  (decodes_safely_iff (List.replicate 16 0) (by decide)).2 (by decide)

/-- Fifteen bytes: the last field read ends one byte behind the string, and the copy constructor is given
the length -1 of an empty payload. -/
theorem short_datagram_unsafe : (14, 2) ∈ decoderReads 15 ∧
    (ofString TouHeader.blank (List.replicate 15 0)).buf = [] ∧
    (ofString TouHeader.blank (List.replicate 15 0)).buflen = -1 ∧
    ¬ DecodesSafely (List.replicate 15 0) := by
  refine ⟨by decide, by decide, by decide, ?_⟩
  intro h
  exact absurd (h.buflen_eq TouHeader.blank) (by decide)

/-! ## Encoding again -/

/-- The flags that the decoder finds in a byte make up the byte. -/
theorem flagByte_encode (c : Byte) :
    (if (c &&& 0x80) == 0x80 then 0x80 else 0) ||| (if (c &&& 0x40) == 0x40 then 0x40 else 0) |||
      (if (c &&& 0x20) == 0x20 then 0x20 else 0) ||| (if (c &&& 0x10) == 0x10 then 0x10 else 0) |||
      (if (c &&& 0x08) == 0x08 then 0x08 else 0) ||| (if (c &&& 0x04) == 0x04 then 0x04 else 0) |||
      (if (c &&& 0x02) == 0x02 then 0x02 else 0) ||| (if (c &&& 0x01) == 0x01 then 0x01 else 0) = c := by
  have hall : ∀ n : Fin 256, let c : Byte := UInt8.ofNat n
      (if (c &&& 0x80) == 0x80 then 0x80 else 0) ||| (if (c &&& 0x40) == 0x40 then 0x40 else 0) |||
        (if (c &&& 0x20) == 0x20 then 0x20 else 0) ||| (if (c &&& 0x10) == 0x10 then 0x10 else 0) |||
        (if (c &&& 0x08) == 0x08 then 0x08 else 0) ||| (if (c &&& 0x04) == 0x04 then 0x04 else 0) |||
        (if (c &&& 0x02) == 0x02 then 0x02 else 0) ||| (if (c &&& 0x01) == 0x01 then 0x01 else 0) = c := by
    decide +kernel
  have hc := hall ⟨c.toNat, UInt8.toNat_lt c⟩
  simpa only [UInt8.ofNat_toNat] using hc

/-- Encoding what was decoded: only the byte of `doff` and `dres` comes from elsewhere. -/
theorem toString_ofString (mem : TouHeader) {s : List Byte} (h16 : 16 ≤ s.length) :
    (ofString mem s).toString = s.take 12 ++ ([mem.offsetByte] ++ ((s.drop 13).take 3 ++
      (s.drop 16).take (s32 (u32 ((s.length : ℤ) - 16))).toNat)) := by
  have hfront : s.take 12 = word32 (readWord32 s 0) ++ (word32 (readWord32 s 4) ++ word32 (readWord32 s 8)) := by
    rw [← List.drop_zero (l := s), ← copyOut_getD s (show 0 + 12 ≤ s.length by omega), word32_readWord32,
      word32_readWord32, word32_readWord32]
    rfl
  have hback : (s.drop 13).take 3 = s.getD 13 0 :: word16 (readWord16 s 14) := by
    rw [← copyOut_getD s (show 13 + 3 ≤ s.length by omega), word16_readWord16]
    rfl
  have hbuf : (ofString mem s).buf = s.drop 16 := rfl
  have htail : (if (ofString mem s).buf.length > 0 then
      (ofString mem s).buf.take (ofString mem s).buflen.toNat else []) =
      (s.drop 16).take (ofString mem s).buflen.toNat := by
    rw [hbuf]
    split
    · rfl
    · rename_i hnil
      rw [List.length_eq_zero_iff.1 (Nat.eq_zero_of_not_pos hnil), List.take_nil]
  have hflag : (ofString mem s).t.flagByte = s.getD 13 0 := flagByte_encode _
  have hoffset : (ofString mem s).t.offsetByte = mem.offsetByte := rfl
  unfold toString
  rw [htail, hflag, hoffset, hfront, hback]
  simp only [List.append_assoc, List.cons_append, List.nil_append]
  rfl

/-- A decoded string is encoded to itself if and only if its byte of `doff` and `dres` is the one that the
packet's memory held, and its payload's length is an `int`, as the length of every string is. -/
theorem reencode_iff (mem : TouHeader) (s : List Byte) (h16 : 16 ≤ s.length) :
    (ofString mem s).toString = s ↔ s.getD 12 0 = mem.offsetByte ∧ s.length - 16 < 2147483648 := by
  have hsplit : s = s.take 12 ++ ([s.getD 12 0] ++ ((s.drop 13).take 3 ++ s.drop 16)) := by
    have hmid : s.drop 12 = s.getD 12 0 :: s.drop 13 := by
      rw [List.drop_eq_getElem_cons (by omega), List.getD_eq_getElem _ _ (by omega)]
    have hend : (s.drop 13).take 3 ++ s.drop 16 = s.drop 13 := by
      have h := List.take_append_drop 3 (s.drop 13)
      rw [List.drop_drop] at h
      exact h
    rw [hend, List.singleton_append, ← hmid, List.take_append_drop]
  have hwhole : (s.drop 16).take (s32 (u32 ((s.length : ℤ) - 16))).toNat = s.drop 16 ↔
      s.length - 16 < 2147483648 := by
    constructor
    · intro h
      have hlen := congrArg List.length h
      rw [List.length_take, List.length_drop] at hlen
      unfold s32 u32 at hlen
      omega
    · intro h
      refine List.take_of_length_le ?_
      rw [List.length_drop, buflen_of_lt h]
      omega
  rw [toString_ofString mem h16, ← hwhole]
  conv_lhs => rhs; rw [hsplit]
  rw [List.append_cancel_left_eq, List.singleton_append, List.singleton_append, List.cons.injEq,
    List.append_cancel_left_eq, eq_comm]

/-- A header of sixteen zero bytes comes back with another one when the packet's memory held 5 in `doff`. -/
theorem reencode_changes_byte :
    (ofString { TouHeader.blank with doff := 5 } (List.replicate 16 0)).toString =
      List.replicate 12 0 ++ [0x50, 0, 0, 0] ∧
    (ofString { TouHeader.blank with doff := 5 } (List.replicate 16 0)).toString ≠ List.replicate 16 0 := by
  decide

theorem reencode_iff_zero : (ofString TouHeader.blank (List.replicate 16 0)).toString = List.replicate 16 0 :=
  (reencode_iff TouHeader.blank (List.replicate 16 0) (by decide)).2 (by decide)

end TouPkg
end TcpOverUdp
