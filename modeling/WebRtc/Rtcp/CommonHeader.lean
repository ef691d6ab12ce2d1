import Mathlib.Data.List.Basic
import WebRtc.Lib.ByteCodec

/-!
# RTCP packets: common header and output buffer

Model of `RtcpPacket` (`modules/rtp_rtcp/source/rtcp_packet.cc`) and of `CommonHeader::Parse`. A
buffer with a write position is the list of bytes before it; the packets handed to the callback when
it fills up are kept too.
-/

namespace Rtcp

open ByteCodec

/-- `RtcpPacket::kHeaderLength` and `CommonHeader::kHeaderSizeBytes`. -/
def kHeaderLength : Nat := 4

/-- The arguments `buffer`, `position` and `callback` of `RtcpPacket::Create`. -/
structure Buffer where
  written : List UInt8
  flushed : List (List UInt8)
deriving DecidableEq, Repr

def onBufferFull (buffer : Buffer) : Option Buffer :=
  if buffer.written = [] then none
  else some ⟨[], buffer.flushed ++ [buffer.written]⟩

theorem onBufferFull_eq_some {buffer next : Buffer} (h : onBufferFull buffer = some next) :
    buffer.written ≠ [] ∧ next = ⟨[], buffer.flushed ++ [buffer.written]⟩ := by
  unfold onBufferFull at h
  split_ifs at h with hempty
  exact ⟨hempty, (Option.some.inj h).symm⟩

/-- The loop at the head of every `Create` that makes room for the packet. -/
def ensureRoom (blockLength maxLength : Nat) (buffer : Buffer) : Option Buffer :=
  if buffer.written.length + blockLength > maxLength then
    match _hnext : onBufferFull buffer with
    | none => none
    | some next => ensureRoom blockLength maxLength next
  else some buffer
termination_by buffer.written.length
decreasing_by
  obtain ⟨hne, rfl⟩ := onBufferFull_eq_some _hnext
  exact List.length_pos_of_ne_nil hne

theorem ensureRoom_fits (blockLength maxLength : Nat) (buffer next : Buffer)
    (h : ensureRoom blockLength maxLength buffer = some next) :
    next.written.length + blockLength ≤ maxLength := by
  induction buffer using ensureRoom.induct blockLength maxLength with
  | case1 buffer _ hfull =>
    rw [ensureRoom, if_pos ‹_›] at h
    split at h <;> simp_all
  | case2 buffer _ next' hfull ih =>
    rw [ensureRoom, if_pos ‹_›] at h
    split at h
    · cases h
    · next hnext =>
      rw [hfull] at hnext
      cases hnext
      exact ih h
  | case3 buffer hroom =>
    rw [ensureRoom, if_neg hroom] at h
    cases h
    omega

/-- `RtcpPacket::HeaderLength`: the length in words, without the common header. -/
def headerLength (blockLength : Nat) : Nat := (blockLength - kHeaderLength) / 4

/-- Version, padding bit and count of the first byte of a header. -/
def firstByte (countOrFormat : Nat) (padding : Bool) : UInt8 :=
  let kVersionBits : UInt8 := 0x80
  let paddingBit : UInt8 := if padding then 0x20 else 0
  kVersionBits ||| paddingBit ||| UInt8.ofNat countOrFormat

/-- `RtcpPacket::CreateHeader`. The length is truncated to the 16 bits of its field. -/
def createHeader (countOrFormat : Nat) (packetType : UInt8) (length : Nat) (padding : Bool) :
    List UInt8 :=
  [firstByte countOrFormat padding, packetType, UInt8.ofNat (length / 256), UInt8.ofNat length]

@[simp] theorem length_createHeader (countOrFormat : Nat) (packetType : UInt8) (length : Nat)
    (padding : Bool) :
    (createHeader countOrFormat packetType length padding).length = kHeaderLength := rfl

/-- `CommonHeader`, with the payload in place of a pointer into the buffer. -/
structure CommonHeader where
  packetType : UInt8
  countOrFormat : UInt8
  paddingSize : Nat
  payload : List UInt8
deriving DecidableEq, Repr

namespace CommonHeader

def parse : List UInt8 → Option CommonHeader
  | b0 :: b1 :: b2 :: b3 :: rest =>
    if b0 >>> 6 ≠ 2 then none
    else
      let payloadSize := natBE [b2, b3] * 4
      if rest.length < payloadSize then none
      else if b0 &&& 0x20 ≠ 0 then
        if payloadSize = 0 then none
        else
          let paddingSize := (rest.getD (payloadSize - 1) 0).toNat
          if paddingSize = 0 then none
          else if paddingSize > payloadSize then none
          else some ⟨b1, b0 &&& 0x1F, paddingSize, rest.take (payloadSize - paddingSize)⟩
      else some ⟨b1, b0 &&& 0x1F, 0, rest.take payloadSize⟩
  | _ => none

/-- What `CreateHeader` put in the first byte is read back, for every format. -/
theorem firstByte_fields (countOrFormat : Nat) (hformat : countOrFormat ≤ 0x1F) (padding : Bool) :
    firstByte countOrFormat padding >>> 6 = 2 ∧
      firstByte countOrFormat padding &&& 0x1F = UInt8.ofNat countOrFormat ∧
      (firstByte countOrFormat padding &&& 0x20 ≠ 0 ↔ padding = true) := by
  have hall : ∀ n : Fin 32, ∀ p : Bool,
      firstByte n.val p >>> 6 = 2 ∧ firstByte n.val p &&& 0x1F = UInt8.ofNat n.val ∧
        (firstByte n.val p &&& 0x20 ≠ 0 ↔ p = true) := by
    decide
  exact hall ⟨countOrFormat, by omega⟩ padding

theorem natBE_lengthField (length : Nat) :
    natBE [UInt8.ofNat (length / 256), UInt8.ofNat length] = length % 2 ^ 16 := by
  have hbytes : [UInt8.ofNat (length / 256), UInt8.ofNat length] = bytesBE 2 length := by
    simp [bytesBE]
  rw [hbytes]
  exact natBE_bytesBE 2 length

section

variable (countOrFormat : Nat) (hformat : countOrFormat ≤ 0x1F) (packetType : UInt8) (length : Nat)
  (body : List UInt8)
include hformat

theorem parse_createHeader (enough : length % 2 ^ 16 * 4 ≤ body.length) :
    parse (createHeader countOrFormat packetType length false ++ body) =
      some ⟨packetType, UInt8.ofNat countOrFormat, 0, body.take (length % 2 ^ 16 * 4)⟩ := by
  obtain ⟨hversion, hcount, hpadding⟩ := firstByte_fields countOrFormat hformat false
  have hnopad : ¬ firstByte countOrFormat false &&& 0x20 ≠ 0 := by
    rw [hpadding]
    exact Bool.false_ne_true
  simp only [createHeader, List.cons_append, List.nil_append, parse]
  rw [if_neg (not_not.mpr hversion), natBE_lengthField, if_neg (Nat.not_lt.mpr enough),
    if_neg hnopad, hcount]

theorem parse_createHeader_padding (paddingSize : Nat) (exact : length % 2 ^ 16 * 4 = body.length)
    (positive : 0 < paddingSize) (fits : paddingSize ≤ body.length)
    (last : (body.getD (body.length - 1) 0).toNat = paddingSize) :
    parse (createHeader countOrFormat packetType length true ++ body) =
      some ⟨packetType, UInt8.ofNat countOrFormat, paddingSize,
        body.take (body.length - paddingSize)⟩ := by
  obtain ⟨hversion, hcount, hpadding⟩ := firstByte_fields countOrFormat hformat true
  have hpad := hpadding.mpr rfl
  simp only [createHeader, List.cons_append, List.nil_append, parse]
  rw [if_neg (not_not.mpr hversion), natBE_lengthField, exact, if_neg (Nat.lt_irrefl _),
    if_pos hpad, if_neg (by omega), last, if_neg (by omega), if_neg (by omega), hcount]

end

end CommonHeader

end Rtcp
