import WebRtc.Lib.BitLists
import Mathlib.Data.BitVec
import Mathlib.Tactic.Linarith

/-!
# Bit writers and readers

Model of `rtc_base/bit_buffer.cc` (`BitBufferWriter`), `rtc_base/bitstream_reader.cc`
(`BitstreamReader`) and `logging/rtc_event_log/encoder/bit_writer.cc` (`BitWriter`). What a writer
has written is a list of bits in front of its buffer, and what a reader has left to read is one at
the end of its input.
-/

namespace EventLog

open BitLists List
open BitVec hiding append_assoc cast replicate replicate_zero

def highestByte (val : BitVec 64) : BitVec 8 := (val >>> 56).setWidth 8

def writePartialByte (source : BitVec 8) (sourceBitCount : Nat) (target : BitVec 8)
    (targetBitOffset : Nat) : BitVec 8 :=
  let mask := ((0xFF : BitVec 8) <<< (8 - sourceBitCount)) >>> targetBitOffset
  (target &&& ~~~mask) ||| (source >>> targetBitOffset)

theorem take_bits_writePartialByte (source target : BitVec 8) {count offset : Nat}
    (h : offset + count ≤ 8) :
    (bits 8 (writePartialByte source count target offset).toNat).take (offset + count) =
      (bits 8 target.toNat).take offset ++ (bits 8 source.toNat).take count := by
  apply ext_getElem
  · simp only [length_take, length_append, length_bits]
    omega
  · intro i hi _
    have hlt : i < offset + count := by
      simp only [length_take] at hi
      omega
    have hones : ∀ k < 8, (0xFF : BitVec 8).getLsbD k = true := by decide
    rw [getElem_take, getElem_bits, testBit_toNat, writePartialByte]
    simp only [getLsbD_or, getLsbD_and, getLsbD_not, getLsbD_ushiftRight, getLsbD_shiftLeft]
    by_cases hfront : i < offset
    · -- in front of the overwritten bits both the mask and the shifted source are zero
      rw [getElem_append_left (by simp only [length_take, length_bits]; omega),
        getElem_take, getElem_bits, testBit_toNat, getLsbD_of_ge source _ (by omega)]
      simp [show ¬ offset + (8 - 1 - i) < 8 by omega, show 8 - 1 - i < 8 by omega]
    · rw [getElem_append_right (by simp only [length_take, length_bits]; omega),
        getElem_take, getElem_bits, testBit_toNat, hones _ (by omega)]
      have hindex : 8 - 1 - (i - ((bits 8 target.toNat).take offset).length) =
          offset + (8 - 1 - i) := by
        simp only [length_take, length_bits]
        omega
      rw [hindex]
      simp [show offset + (8 - 1 - i) < 8 by omega, show ¬ offset + (8 - 1 - i) < 8 - count by omega]

theorem take_bits_highestByte (val : BitVec 64) {count : Nat} (h : count ≤ 8) :
    (bits 8 (highestByte val).toNat).take count = (bits 64 val.toNat).take count := by
  have hbyte : (highestByte val).toNat = val.toNat >>> 56 := by
    rw [highestByte, toNat_setWidth, toNat_ushiftRight]
    omega
  rw [take_bits _ h, take_bits _ (by omega), hbyte, ← Nat.shiftRight_add]
  congr 2
  omega

theorem take_bits_shiftLeft (val : BitVec 64) {k n : Nat} (h : k + n ≤ 64) :
    (bits 64 (val <<< k).toNat).take n = ((bits 64 val.toNat).drop k).take n := by
  obtain ⟨zeros, hzeros⟩ := bits_shiftLeft val (show k ≤ 64 by omega)
  rw [hzeros, take_append_of_le_length]
  rw [length_drop, length_bits]
  omega

/-- By the last two fields the position is inside the buffer or at its end. -/
structure BitBufferWriter where
  writableBytes : List (BitVec 8)
  byteOffset : Nat
  bitOffset : Nat
  bitOffset_lt : bitOffset < 8
  position_le : 8 * byteOffset + bitOffset ≤ 8 * writableBytes.length

namespace BitBufferWriter

variable (bytes : List (BitVec 8)) {w : BitBufferWriter} {bitCount : Nat} {written : List Bool}

def ofByteCount (byteCount : Nat) : BitBufferWriter where
  writableBytes := List.replicate byteCount 0
  byteOffset := 0
  bitOffset := 0
  bitOffset_lt := by decide
  position_le := Nat.zero_le _

variable (w)

def remainingBitCount : Nat :=
  (w.writableBytes.length - w.byteOffset) * 8 - w.bitOffset

def position : Nat := 8 * w.byteOffset + w.bitOffset

theorem remainingBitCount_eq : w.remainingBitCount = 8 * w.writableBytes.length - w.position := by
  simp only [remainingBitCount, position]
  omega

def consumeBits (bitCount : Nat) : Bool × BitBufferWriter :=
  if h : bitCount ≤ w.remainingBitCount then
    (true, { w with
      byteOffset := w.byteOffset + (w.bitOffset + bitCount) / 8
      bitOffset := (w.bitOffset + bitCount) % 8
      bitOffset_lt := Nat.mod_lt _ (by decide)
      position_le := by
        have := w.position_le
        simp only [remainingBitCount] at h
        omega })
  else (false, w)

variable {w}

theorem consumeBits_spec (h : bitCount ≤ w.remainingBitCount) :
    (w.consumeBits bitCount).1 = true ∧ (w.consumeBits bitCount).2.writableBytes = w.writableBytes ∧
      (w.consumeBits bitCount).2.position = w.position + bitCount := by
  rw [consumeBits, dif_pos h]
  refine ⟨rfl, rfl, ?_⟩
  simp only [position]
  omega

/-- The loop of `WriteBits` over the full bytes: the buffer, the place reached in it, and the bits
left. -/
def writeFullBytes (bytes : List (BitVec 8)) (offset : Nat) (val : BitVec 64) :
    Nat → List (BitVec 8) × Nat × BitVec 64 × Nat
  | bitCount + 8 =>
    writeFullBytes (bytes.modify offset fun _ => highestByte val) (offset + 1) (val <<< 8) bitCount
  | bitCount => (bytes, offset, val, bitCount)

/-- The buffer after the bits behind the first byte have been written. -/
def writeRest (bytes : List (BitVec 8)) (offset : Nat) (val : BitVec 64) (bitCount : Nat) :
    List (BitVec 8) :=
  let (bytes, offset, val, bitCount) := writeFullBytes bytes offset val bitCount
  if 0 < bitCount then
    bytes.modify offset fun target => writePartialByte (highestByte val) bitCount target 0
  else bytes

variable (w)

def writeBytes (val : BitVec 64) (bitCount : Nat) : List (BitVec 8) :=
  let val := val <<< (64 - bitCount)
  let remainingBitsInCurrentByte := 8 - w.bitOffset
  let bitsInFirstByte := min bitCount remainingBitsInCurrentByte
  let bytes := w.writableBytes.modify w.byteOffset fun target =>
    writePartialByte (highestByte val) bitsInFirstByte target w.bitOffset
  if bitCount ≤ remainingBitsInCurrentByte then bytes
  else writeRest bytes (w.byteOffset + 1) (val <<< bitsInFirstByte) (bitCount - bitsInFirstByte)

theorem length_writeFullBytes (offset : Nat) (val : BitVec 64) (bitCount : Nat) :
    (writeFullBytes bytes offset val bitCount).1.length = bytes.length := by
  fun_induction writeFullBytes bytes offset val bitCount with
  | case1 bytes offset val bitCount ih => rw [ih, length_modify]
  | case2 => rfl

theorem length_writeBytes (val : BitVec 64) (bitCount : Nat) :
    (w.writeBytes val bitCount).length = w.writableBytes.length := by
  simp only [writeBytes, writeRest]
  split
  · exact length_modify _ _ _
  · split
    · rw [length_modify, length_writeFullBytes, length_modify]
    · rw [length_writeFullBytes, length_modify]

def overwrite (bytes : List (BitVec 8))
    (same : bytes.length = w.writableBytes.length) : BitBufferWriter :=
  { w with
    writableBytes := bytes
    position_le := by
      rw [same]
      exact w.position_le }

def writeBits (val : BitVec 64) (bitCount : Nat) : Bool × BitBufferWriter :=
  if bitCount > w.remainingBitCount then (false, w)
  else (w.overwrite (w.writeBytes val bitCount) (length_writeBytes w val bitCount)).consumeBits bitCount

variable {w}

/-- What has been written: these bits stand in front of the buffer, up to the position. -/
structure Wrote (w : BitBufferWriter) (written : List Bool) : Prop where
  front : written <+: ofBytes w.writableBytes
  length : written.length = w.position

theorem wrote_ofByteCount (byteCount : Nat) : (ofByteCount byteCount).Wrote [] :=
  ⟨List.nil_prefix, rfl⟩

section

variable (offset : Nat) (val : BitVec 64) (bitCount : Nat) (hfront : written <+: ofBytes bytes)
  (hlength : written.length = 8 * offset) (hroom : 8 * offset + bitCount ≤ 8 * bytes.length)
  (hcount : bitCount ≤ 64)
include hfront hlength hroom hcount

theorem writeFullBytes_spec : ∃ added left bytes' offset' val' n,
      writeFullBytes bytes offset val bitCount = (bytes', offset', val', n) ∧
      written ++ added <+: ofBytes bytes' ∧ (written ++ added).length = 8 * offset' ∧
      (bits 64 val.toNat).take bitCount = added ++ left ∧ (bits 64 val'.toNat).take n = left ∧
      added.length + n = bitCount ∧ n < 8 := by
  fun_induction writeFullBytes bytes offset val bitCount generalizing written with
  | case1 bytes offset val bitCount ih =>
    -- the byte at the offset takes the highest eight bits
    have hbyte : ∀ b : BitVec 8, (bits 8 ((fun _ => highestByte val) b).toNat).take 8 =
        (bits 8 b.toNat).take 0 ++ (bits 64 val.toNat).take 8 := fun b => by
      rw [take_bits_highestByte val (Nat.le_refl 8), take_zero, nil_append]
    have hfull : ((bits 64 val.toNat).take 8).length = 8 := by
      rfl
    have hnext := append_prefix_ofBytes_modify hfront (o := 0) hlength (by omega) (by omega) hbyte
    obtain ⟨added, left, _, _, _, _, hloop, hfront', hlength', hadded, hleft, hsum, hlt⟩ := ih hnext
      (by rw [length_append, hfull, hlength]; omega) (by rw [length_modify]; omega)
      (by omega)
    rw [append_assoc] at hfront' hlength'
    refine ⟨(bits 64 val.toNat).take 8 ++ added, left, _, _, _, _, hloop, hfront', hlength', ?_,
      hleft, ?_, hlt⟩
    · change (bits 64 val.toNat).take (bitCount + 8) = _
      rw [Nat.add_comm, take_add, ← take_bits_shiftLeft val (by omega), hadded, append_assoc]
    · rw [length_append]
      omega
  | case2 bytes offset val bitCount hsmall =>
    refine ⟨[], _, _, _, _, _, rfl, ?_, ?_, rfl, rfl, Nat.zero_add _, ?_⟩
    · rw [append_nil]
      exact hfront
    · rw [append_nil]
      exact hlength
    · by_contra h
      exact hsmall (bitCount - 8) (by omega)

theorem writeRest_spec : written ++ (bits 64 val.toNat).take bitCount <+:
      ofBytes (writeRest bytes offset val bitCount) := by
  have hbytes := length_writeFullBytes bytes offset val bitCount
  obtain ⟨added, left, bytes', offset', val', n, hloop, hfront', hlength', hadded, hleft, hsum,
    hlt⟩ := writeFullBytes_spec bytes offset val bitCount hfront hlength hroom hcount
  rw [hloop] at hbytes
  rw [writeRest, hloop, hadded, ← append_assoc]
  dsimp only at hbytes ⊢
  split
  · refine append_prefix_ofBytes_modify (o := 0) (m := n) hfront' hlength' ?_ (by omega)
      fun b => ?_
    · rw [length_append] at hlength'
      omega
    · have hfilled := take_bits_writePartialByte (highestByte val') b (show 0 + n ≤ 8 by omega)
      rw [Nat.zero_add] at hfilled
      rw [hfilled, take_bits_highestByte _ (by omega), hleft]
  · rename_i hpos
    have hnone : left = [] := by
      rw [← hleft, Nat.eq_zero_of_not_pos hpos, take_zero]
    rw [hnone, append_nil]
    exact hfront'

end

section

variable (hw : w.Wrote written) (val : BitVec 64) (hpos : 0 < bitCount) (hcount : bitCount ≤ 64)
include hw hpos hcount

theorem writeBytes_spec (hroom : bitCount ≤ w.remainingBitCount) :
    written ++ bits bitCount val.toNat <+: ofBytes (w.writeBytes val bitCount) := by
  have hoffset := w.bitOffset_lt
  have hlength : written.length = 8 * w.byteOffset + w.bitOffset := hw.length
  have hspace : 8 * w.byteOffset + w.bitOffset + bitCount ≤ 8 * w.writableBytes.length := by
    simp only [remainingBitCount] at hroom
    omega
  -- the bits to write are the highest ones of the shifted value
  have hval : bits bitCount val.toNat = (bits 64 (val <<< (64 - bitCount)).toNat).take bitCount := by
    rw [take_bits_shiftLeft val (by omega), drop_bits _ (by omega), take_of_length_le]
    · congr 1
      omega
    · rw [length_bits]
      omega
  have hbyte : ∀ b : BitVec 8, (bits 8 (writePartialByte (highestByte (val <<< (64 - bitCount)))
      (min bitCount (8 - w.bitOffset)) b w.bitOffset).toNat).take
        (w.bitOffset + min bitCount (8 - w.bitOffset)) = (bits 8 b.toNat).take w.bitOffset ++
          (bits 64 (val <<< (64 - bitCount)).toNat).take (min bitCount (8 - w.bitOffset)) := by
    intro b
    rw [take_bits_writePartialByte _ _ (by omega), take_bits_highestByte _ (by omega)]
  have hfirst := append_prefix_ofBytes_modify hw.front hlength (by omega) (by omega) hbyte
  simp only [writeBytes]
  rw [hval]
  split
  · rename_i hfits
    rw [Nat.min_eq_left hfits] at hfirst ⊢
    exact hfirst
  · have hmin : min bitCount (8 - w.bitOffset) = 8 - w.bitOffset := by omega
    rw [hmin] at hfirst ⊢
    have hlen : (written ++ (bits 64 (val <<< (64 - bitCount)).toNat).take
        (8 - w.bitOffset)).length = 8 * (w.byteOffset + 1) := by
      rw [length_append, length_take, length_bits]
      omega
    have hrest := writeRest_spec _ (w.byteOffset + 1)
      (val <<< (64 - bitCount) <<< (8 - w.bitOffset)) (bitCount - (8 - w.bitOffset)) hfirst hlen
      (by rw [length_modify]; omega) (by omega)
    rw [take_bits_shiftLeft (val <<< (64 - bitCount)) (by omega), append_assoc,
      ← take_add, Nat.add_sub_cancel' (by omega)] at hrest
    exact hrest

theorem writeBits_spec (hroom : written.length + bitCount ≤ 8 * w.writableBytes.length) :
    (w.writeBits val bitCount).1 = true ∧
      (w.writeBits val bitCount).2.Wrote (written ++ bits bitCount val.toNat) ∧
      (w.writeBits val bitCount).2.writableBytes.length = w.writableBytes.length := by
  have hremaining : bitCount ≤ w.remainingBitCount := by
    rw [remainingBitCount_eq, ← hw.length]
    omega
  have hfront := writeBytes_spec hw val hpos hcount hremaining
  have hsame := length_writeBytes w val bitCount
  have hstill : bitCount ≤ (w.overwrite _ hsame).remainingBitCount := by
    rw [remainingBitCount_eq] at hremaining ⊢
    change bitCount ≤ 8 * (w.writeBytes val bitCount).length - w.position
    rw [hsame]
    exact hremaining
  obtain ⟨hsuccess, hbytes, hposition⟩ := consumeBits_spec hstill
  rw [writeBits, if_neg (Nat.not_lt.mpr hremaining)]
  refine ⟨hsuccess, ⟨?_, ?_⟩, ?_⟩
  · rw [hbytes]
    exact hfront
  · rw [hposition, length_append, length_bits, hw.length]
    rfl
  · rw [hbytes]
    exact hsame

end

end BitBufferWriter

/-- The bytes from the next unread bit on, and the number of unread bits, negative after a failed
read. -/
structure BitstreamReader where
  bytes : List (BitVec 8)
  remainingBits : Int

namespace BitstreamReader

variable {r : BitstreamReader} {bytes more : List (BitVec 8)} {front rest taken before : List Bool}
  {b : BitVec 8} {result : BitVec 64}

/-- The number of bits goes through `checked_cast<int>`, which aborts when it does not fit. -/
def ofInput (bytes : List (BitVec 8)) : Option BitstreamReader :=
  if bytes.length * 8 < 2 ^ 31 then some ⟨bytes, bytes.length * 8⟩ else none

variable (r)

def ok : Bool := decide (0 ≤ r.remainingBits)

def invalidate : BitstreamReader := { r with remainingBits := -1 }

def readFullBytes : List (BitVec 8) → BitVec 64 → Nat → List (BitVec 8) × BitVec 64 × Nat
  | bytes, result, bits + 8 =>
    readFullBytes bytes.tail (result ||| ((bytes.headD 0).setWidth 64 <<< bits)) bits
  | bytes, result, bits => (bytes, result, bits)

/-- The bits behind the current byte: the result, and the bytes left. -/
def readRest (bytes : List (BitVec 8)) (result : BitVec 64) (bits : Nat) :
    BitVec 64 × List (BitVec 8) :=
  let (bytes, result, bits) := readFullBytes bytes result bits
  if 0 < bits then (result ||| ((bytes.headD 0) >>> (8 - bits)).setWidth 64, bytes)
  else (result, bytes)

/-- `ReadBits` when enough bits are left, of which `remainingBitsInFirstByte` in the current byte. -/
def takeBits (bytes : List (BitVec 8)) (remainingBitsInFirstByte bits : Nat) :
    BitVec 64 × List (BitVec 8) :=
  if bits < remainingBitsInFirstByte then
    let offset := remainingBitsInFirstByte - bits
    ((((bytes.headD 0) >>> offset) &&& ((1#8 <<< bits) - 1#8)).setWidth 64, bytes)
  else if 0 < remainingBitsInFirstByte then
    let mask := (1#8 <<< remainingBitsInFirstByte) - 1#8
    let bits := bits - remainingBitsInFirstByte
    readRest bytes.tail (((bytes.headD 0) &&& mask).setWidth 64 <<< bits) bits
  else readRest bytes 0 bits

def readBits (bits : Nat) : BitVec 64 × BitstreamReader :=
  if r.remainingBits < bits then (0, r.invalidate)
  else
    let taken := takeBits r.bytes (r.remainingBits % 8).toNat bits
    (taken.1, ⟨taken.2, r.remainingBits - bits⟩)

def readBit : Bool × BitstreamReader :=
  if r.remainingBits ≤ 0 then (false, r.invalidate)
  else
    let remainingBits := r.remainingBits - 1
    let bitPosition := (remainingBits % 8).toNat
    if bitPosition = 0 then ((r.bytes.headD 0 &&& 1) != 0, ⟨r.bytes.tail, remainingBits⟩)
    else (((r.bytes.headD 0 >>> bitPosition) &&& 1) != 0, ⟨r.bytes, remainingBits⟩)

variable {r}

/-- These bits stand at the end of the bytes, behind less than a byte that has been read. -/
structure Unread (r : BitstreamReader) (unread : List Bool) : Prop where
  count : r.remainingBits = unread.length
  behind : ∃ before : List Bool, before.length < 8 ∧ ofBytes r.bytes = before ++ unread

theorem Unread.ok {unread : List Bool} (h : r.Unread unread) : r.ok = true := by
  rw [BitstreamReader.ok, h.count]
  exact decide_eq_true (Int.natCast_nonneg _)

theorem unread_ofInput (h : bytes.length * 8 < 2 ^ 31) :
    ∃ r, ofInput bytes = some r ∧ r.Unread (ofBytes bytes) := by
  refine ⟨⟨bytes, bytes.length * 8⟩, if_pos h, ?_, [], by decide, rfl⟩
  rw [length_ofBytes]
  push_cast
  ring

theorem exists_cons_of_ofBytes (h : ofBytes bytes = front ++ rest) (hfront : front ≠ []) :
    ∃ b more, bytes = b :: more := by
  cases bytes with
  | nil =>
    exact absurd (append_eq_nil_iff.mp h.symm).1 hfront
  | cons b more => exact ⟨b, more, rfl⟩

theorem value_byte (b : BitVec 8) : value (bits 8 b.toNat) = b.toNat := value_bits_of_lt b.isLt

theorem split_byte (h : ofBytes (b :: more) = front ++ rest) (hfront : front.length ≤ 8) :
    ∃ back, bits 8 b.toNat = front ++ back ∧ rest = back ++ ofBytes more ∧
      back.length = 8 - front.length := by
  obtain ⟨back, hb, hrest⟩ :=
    exists_append_of_length_le h.symm (hfront.trans_eq (length_bits 8 _).symm)
  refine ⟨back, hb, hrest, ?_⟩
  have := congrArg length hb
  rw [length_append, length_bits] at this
  omega

variable {high n : Nat}

/-- An accumulator with zeros in its low bits takes further bits by `or`. -/
theorem toNat_or_low {low : BitVec 64} (hresult : result.toNat = high * 2 ^ n)
    (hlow : low.toNat < 2 ^ n) : (result ||| low).toNat = high * 2 ^ n + low.toNat := by
  rw [toNat_or, hresult, Nat.mul_comm, Nat.two_pow_add_eq_or_of_lt hlow]

theorem toNat_setWidth_shiftLeft (b : BitVec 8) (h : b.toNat * 2 ^ n < 2 ^ 64) :
    (b.setWidth 64 <<< n).toNat = b.toNat * 2 ^ n := by
  rw [toNat_shiftLeft, toNat_setWidth, Nat.shiftLeft_eq,
    Nat.mod_eq_of_lt (show b.toNat < 2 ^ 64 by omega), Nat.mod_eq_of_lt h]

theorem readRest_of_lt (hsmall : taken.length < 8)
    (hbytes : ofBytes bytes = taken ++ rest) (hresult : result.toNat = high * 2 ^ taken.length) :
    (readRest bytes result taken.length).1.toNat = high * 2 ^ taken.length + value taken ∧
      ∃ before, before.length < 8 ∧
        ofBytes (readRest bytes result taken.length).2 = before ++ rest := by
  have hloop : readFullBytes bytes result taken.length = (bytes, result, taken.length) := by
    rw [readFullBytes]
    intro n hn
    omega
  rw [readRest, hloop]
  dsimp only
  split
  · rename_i hpos
    obtain ⟨b, more, rfl⟩ := exists_cons_of_ofBytes hbytes (ne_nil_of_length_pos hpos)
    obtain ⟨back, hb, hrest, hback⟩ := split_byte hbytes (by omega)
    have hshift : ((b >>> (8 - taken.length)).setWidth 64).toNat = value taken := by
      have hmiddle := value_middle [] taken back
      have hlt : value (taken ++ back) >>> back.length < 2 ^ taken.length := by
        rw [Nat.shiftRight_eq_div_pow, Nat.div_lt_iff_lt_mul (Nat.two_pow_pos _), ← pow_add,
          ← length_append]
        exact value_lt _
      rw [nil_append, Nat.mod_eq_of_lt hlt, ← hb, value_byte, hback] at hmiddle
      rw [toNat_setWidth, toNat_ushiftRight]
      have := value_lt taken
      have : 2 ^ taken.length ≤ 2 ^ 8 := Nat.pow_le_pow_right (by decide) (by omega)
      omega
    constructor
    · rw [headD_cons, toNat_or_low hresult (by rw [hshift]; exact value_lt taken), hshift]
    · exact ⟨taken, hsmall, hbytes⟩
  · have htaken : taken = [] := eq_nil_of_length_eq_zero (by omega)
    subst htaken
    exact ⟨by rw [hresult]; rfl, [], by decide, hbytes⟩

theorem readRest_spec (hbytes : ofBytes bytes = taken ++ rest)
    (hresult : result.toNat = high * 2 ^ taken.length)
    (hroom : (high + 1) * 2 ^ taken.length ≤ 2 ^ 64) :
    (readRest bytes result taken.length).1.toNat = high * 2 ^ taken.length + value taken ∧
      ∃ before, before.length < 8 ∧
        ofBytes (readRest bytes result taken.length).2 = before ++ rest := by
  -- the induction takes one whole byte off the bits that are read
  induction hn : taken.length using Nat.strong_induction_on generalizing bytes result taken high with
  | _ n ih =>
    subst hn
    by_cases hsmall : taken.length < 8
    · exact readRest_of_lt hsmall hbytes hresult
    · obtain ⟨b, more, rfl⟩ := exists_cons_of_ofBytes hbytes
        (ne_nil_of_length_pos (by omega))
      obtain ⟨back, rfl, hmore⟩ := exists_append_of_length_le
        (show bits 8 b.toNat ++ ofBytes more = taken ++ rest from hbytes)
        ((length_bits 8 _).trans_le (by omega))
      have hlen : (bits 8 b.toNat ++ back).length = back.length + 8 := by
        rw [length_append, length_bits, Nat.add_comm]
      rw [hlen] at hresult hroom ⊢
      have hb := b.isLt
      have hpow : 2 ^ (back.length + 8) = 256 * 2 ^ back.length := by
        rw [pow_add, Nat.mul_comm]
        rfl
      have hstep : readRest (b :: more) result (back.length + 8) =
          readRest more (result ||| (b.setWidth 64 <<< back.length)) back.length := rfl
      have hbyte : b.toNat * 2 ^ back.length < 2 ^ (back.length + 8) := by
        rw [hpow]
        exact Nat.mul_lt_mul_of_pos_right hb (Nat.two_pow_pos _)
      have hle : 2 ^ (back.length + 8) ≤ 2 ^ 64 := by
        refine Nat.le_trans ?_ hroom
        rw [Nat.add_mul, Nat.one_mul]
        exact Nat.le_add_left _ _
      have hshift := toNat_setWidth_shiftLeft b (show b.toNat * 2 ^ back.length < 2 ^ 64 by omega)
      have hresult' : (result ||| (b.setWidth 64 <<< back.length)).toNat =
          (high * 256 + b.toNat) * 2 ^ back.length := by
        rw [toNat_or_low hresult (by rw [hshift]; exact hbyte), hshift]
        ring
      have hroom' : (high * 256 + b.toNat + 1) * 2 ^ back.length ≤ 2 ^ 64 := by
        refine Nat.le_trans ?_ hroom
        rw [hpow, ← Nat.mul_assoc]
        exact Nat.mul_le_mul_right _ (by omega)
      obtain ⟨hvalue, hbefore⟩ := ih back.length (by omega) hmore hresult' hroom' rfl
      rw [hstep]
      refine ⟨?_, hbefore⟩
      rw [hvalue, value_append, value_byte]
      ring

theorem takeBits_inside (hbytes : ofBytes (b :: more) = (before ++ taken) ++ rest)
    (hinside : before.length + taken.length < 8) :
    (takeBits (b :: more) (8 - before.length) taken.length).1.toNat = value taken ∧
      ofBytes (takeBits (b :: more) (8 - before.length) taken.length).2 =
        (before ++ taken) ++ rest := by
  obtain ⟨back, hb, -, hback⟩ := split_byte hbytes (by rw [length_append]; omega)
  rw [length_append, ← Nat.sub_sub] at hback
  have hmiddle := value_middle before taken back
  rw [← append_assoc, ← hb, value_byte, hback] at hmiddle
  have hlt : value taken < 2 ^ 64 :=
    Nat.lt_of_lt_of_le (value_lt taken) (Nat.pow_le_pow_right (by decide) (by omega))
  rw [takeBits, if_pos (by omega)]
  constructor
  · change (BitVec.setWidth 64 ((b >>> (8 - before.length - taken.length)) &&&
      ((1#8 <<< taken.length) - 1#8))).toNat = value taken
    rw [BitVec.toNat_setWidth, toNat_and_lowMask _ (by omega), BitVec.toNat_ushiftRight, hmiddle,
      Nat.mod_eq_of_lt hlt]
  · exact hbytes

theorem takeBits_across {first : List Bool} (hb : bits 8 b.toNat = before ++ first)
    (hfilled : first.length < 8) (hpos : 0 < first.length) (hmore : ofBytes more = taken ++ rest)
    (hcount : first.length + taken.length ≤ 64) :
    (takeBits (b :: more) first.length (first.length + taken.length)).1.toNat =
        value (first ++ taken) ∧ ∃ before', before'.length < 8 ∧
        ofBytes (takeBits (b :: more) first.length (first.length + taken.length)).2 =
          before' ++ rest := by
  have hmiddle := value_middle before first []
  rw [append_nil, length_nil, Nat.shiftRight_zero, ← hb, value_byte] at hmiddle
  have hbound := calc (value first + 1) * 2 ^ taken.length
        ≤ 2 ^ first.length * 2 ^ taken.length := Nat.mul_le_mul_right _ (value_lt first)
      _ = 2 ^ (first.length + taken.length) := (pow_add _ _ _).symm
      _ ≤ 2 ^ 64 := Nat.pow_le_pow_right (by decide) hcount
  have hlow : (b &&& ((1#8 <<< first.length) - 1#8)).toNat = value first := by
    rw [toNat_and_lowMask _ hfilled, hmiddle]
  have hfirst : ((b &&& ((1#8 <<< first.length) - 1#8)).setWidth 64 <<< taken.length).toNat =
      value first * 2 ^ taken.length := by
    rw [toNat_setWidth_shiftLeft, hlow]
    rw [hlow]
    have := Nat.two_pow_pos taken.length
    rw [Nat.add_mul] at hbound
    omega
  have hstep : takeBits (b :: more) first.length (first.length + taken.length) =
      readRest more ((b &&& ((1#8 <<< first.length) - 1#8)).setWidth 64 <<< taken.length)
        taken.length := by
    rw [takeBits, if_neg (by omega), if_pos hpos]
    simp
  rw [hstep, value_append]
  exact readRest_spec hmore hfirst hbound

theorem takeBits_spec (hbefore : before.length < 8)
    (hbytes : ofBytes bytes = before ++ (taken ++ rest)) (hcount : taken.length ≤ 64) :
    (takeBits bytes ((taken ++ rest).length % 8) taken.length).1.toNat = value taken ∧
      ∃ before', before'.length < 8 ∧
        ofBytes (takeBits bytes ((taken ++ rest).length % 8) taken.length).2 = before' ++ rest := by
  have hlength := congrArg length hbytes
  rw [length_ofBytes, length_append] at hlength
  rcases Nat.eq_zero_or_pos before.length with hzero | hpos
  · -- nothing of the current byte has been read
    have hnil : before = [] := eq_nil_of_length_eq_zero hzero
    subst hnil
    have haligned : (taken ++ rest).length % 8 = 0 := by omega
    rw [haligned, takeBits]
    have hresult : (0 : BitVec 64).toNat = 0 * 2 ^ taken.length := by
      rw [Nat.zero_mul]
      rfl
    have hroom : (0 + 1) * 2 ^ taken.length ≤ 2 ^ 64 := by
      rw [Nat.one_mul]
      exact Nat.pow_le_pow_right (by decide) hcount
    rw [nil_append] at hbytes
    have hrest := readRest_spec hbytes hresult hroom
    rw [Nat.zero_mul, Nat.zero_add] at hrest
    exact hrest
  · have hfirst : (taken ++ rest).length % 8 = 8 - before.length := by omega
    rw [hfirst]
    obtain ⟨b, more, rfl⟩ := exists_cons_of_ofBytes hbytes (ne_nil_of_length_pos hpos)
    by_cases hinside : before.length + taken.length < 8
    · obtain ⟨hvalue, hleft⟩ := takeBits_inside (by rw [hbytes, append_assoc]) hinside
      exact ⟨hvalue, before ++ taken, by rw [length_append]; exact hinside, hleft⟩
    · obtain ⟨first, hb, hrest, hlen⟩ := split_byte hbytes (by omega)
      obtain ⟨left, rfl, hmore⟩ := exists_append_of_length_le hrest.symm (by omega)
      rw [← hlen, length_append]
      rw [length_append] at hcount
      exact takeBits_across hb (by omega) (by omega) hmore hcount

theorem readBits_spec (hr : r.Unread (taken ++ rest)) (hcount : taken.length ≤ 64) :
    (r.readBits taken.length).1.toNat = value taken ∧ (r.readBits taken.length).2.Unread rest := by
  obtain ⟨before, hbefore, hbytes⟩ := hr.behind
  have hremaining : (r.remainingBits % 8).toNat = (taken ++ rest).length % 8 := by
    rw [hr.count]
    omega
  obtain ⟨hvalue, hbehind⟩ := takeBits_spec hbefore hbytes hcount
  have hcount' := hr.count
  rw [length_append] at hcount'
  rw [readBits, if_neg (by omega), hremaining]
  refine ⟨hvalue, ?_, hbehind⟩
  change r.remainingBits - taken.length = rest.length
  omega

theorem and_one_bne_zero (x : BitVec 8) : ((x &&& 1) != 0) = x.getLsbD 0 := by
  revert x
  decide

theorem readBit_spec {bit : Bool} (hr : r.Unread (bit :: rest)) :
    r.readBit.1 = bit ∧ r.readBit.2.Unread rest := by
  obtain ⟨bytes, remainingBits⟩ := r
  obtain ⟨before, hbefore, hbytes⟩ := hr.behind
  have hcount : remainingBits = (bit :: rest).length := hr.count
  rw [length_cons] at hcount
  have hlength := congrArg length hbytes
  rw [length_ofBytes, length_append, length_cons] at hlength
  have hposition : ((remainingBits - 1) % 8).toNat = 8 - 1 - before.length := by omega
  have hbytes' : ofBytes bytes = (before ++ [bit]) ++ rest := by
    rw [hbytes, append_assoc]
    rfl
  have hfront : (before ++ [bit]).length = before.length + 1 := length_append
  obtain ⟨b, more, rfl⟩ := exists_cons_of_ofBytes hbytes' (ne_nil_of_length_pos (by omega))
  obtain ⟨back, hb, hrest, hlen⟩ := split_byte hbytes' (by omega)
  have hbit : b.getLsbD (8 - 1 - before.length) = bit := by
    have hget : (bits 8 b.toNat)[before.length]? = some bit := by
      rw [hb, append_assoc, getElem?_append_right (Nat.le_refl _), Nat.sub_self]
      rfl
    rw [getElem?_eq_getElem (by rw [length_bits]; exact hbefore), getElem_bits] at hget
    exact Option.some.inj hget
  have hunread : remainingBits - 1 = rest.length := by omega
  rw [readBit, if_neg (show ¬ remainingBits ≤ 0 by omega)]
  dsimp only
  rw [hposition]
  split
  · -- the last bit of the byte: the reader moves to the next one
    rename_i hlast
    obtain rfl : back = [] := eq_nil_of_length_eq_zero (by omega)
    rw [hlast] at hbit
    exact ⟨(and_one_bne_zero b).trans hbit, hunread, [], by decide, hrest.symm⟩
  · have hshift : (b >>> (8 - 1 - before.length)).getLsbD 0 = bit := by
      exact hbit
    exact ⟨(and_one_bne_zero _).trans hshift, hunread, before ++ [bit], by omega, hbytes'⟩

def readByte (r : BitstreamReader) : BitVec 8 × BitstreamReader :=
  let (byte, r) := r.readBits 8
  (byte.setWidth 8, r)

theorem readByte_spec (hr : r.Unread (bits 8 b.toNat ++ rest)) :
    r.readByte.1 = b ∧ r.readByte.2.Unread rest := by
  obtain ⟨hvalue, hrest⟩ := readBits_spec hr (by rw [length_bits]; decide)
  rw [length_bits] at hvalue hrest
  refine ⟨eq_of_toNat_eq ?_, hrest⟩
  change ((r.readBits 8).1.setWidth 8).toNat = b.toNat
  rw [toNat_setWidth, hvalue, value_byte, Nat.mod_eq_of_lt b.isLt]

theorem readWord_spec {v : BitVec 64} (hn : n ≤ 64) (hv : v.toNat < 2 ^ n)
    (hr : r.Unread (bits n v.toNat ++ rest)) :
    (r.readBits n).1 = v ∧ (r.readBits n).2.Unread rest := by
  obtain ⟨hvalue, hrest⟩ := readBits_spec hr (by rw [length_bits]; exact hn)
  rw [length_bits] at hvalue hrest
  rw [value_bits_of_lt hv] at hvalue
  exact ⟨eq_of_toNat_eq hvalue, hrest⟩

end BitstreamReader

def bitsToBytes (bits : Nat) : Nat := bits / 8 + if bits % 8 > 0 then 1 else 0

theorem le_bitsToBytes (bits : Nat) : bits ≤ 8 * bitsToBytes bits := by
  rw [bitsToBytes]
  split <;> omega

theorem bitsToBytes_le {bits bytes : Nat} (h : bits ≤ 8 * bytes) : bitsToBytes bits ≤ bytes := by
  rw [bitsToBytes]
  split <;> omega

/-- `BitWriter`. The field `checked` records whether every `RTC_DCHECK` met so far has held. -/
structure BitWriter where
  bitWriter : BitBufferWriter
  writtenBits : Nat
  checked : Bool

namespace BitWriter

def ofByteCount (byteCount : Nat) : BitWriter :=
  ⟨BitBufferWriter.ofByteCount byteCount, 0, decide (0 < byteCount)⟩

def dcheck (w : BitWriter) (condition : Bool) : BitWriter :=
  { w with checked := w.checked && condition }

def writeBits (w : BitWriter) (val : BitVec 64) (bitCount : Nat) : BitWriter :=
  let (success, bitWriter) := w.bitWriter.writeBits val bitCount
  ⟨bitWriter, w.writtenBits + bitCount, w.checked && success⟩

def writeString (w : BitWriter) (input : List (BitVec 8)) : BitWriter :=
  input.foldl (fun w c => w.writeBits (c.setWidth 64) 8) w

def getString (w : BitWriter) : List (BitVec 8) :=
  let buffer := w.bitWriter.writableBytes
  let size := bitsToBytes w.writtenBits
  buffer.take size ++ List.replicate (size - buffer.length) 0

def capacity (w : BitWriter) : Nat := 8 * w.bitWriter.writableBytes.length

/-- Exactly these bits have been written, and no check has failed. -/
structure Holds (w : BitWriter) (written : List Bool) : Prop where
  wrote : w.bitWriter.Wrote written
  count : w.writtenBits = written.length
  checked : w.checked = true

/-- The operation appends these bits wherever there is room for them. -/
def Emits (f : BitWriter → BitWriter) (added : List Bool) : Prop :=
  ∀ (w : BitWriter) (written : List Bool), w.Holds written →
    written.length + added.length ≤ w.capacity →
      (f w).Holds (written ++ added) ∧ (f w).capacity = w.capacity

theorem Emits.nothing : Emits (fun w => w) [] := by
  intro w written hw _
  rw [append_nil]
  exact ⟨hw, rfl⟩

variable {f g : BitWriter → BitWriter}

theorem Emits.of_eq {added : List Bool} (hf : Emits f added)
    (same : ∀ w, g w = f w) : Emits g added := by
  have hsame : g = f := funext same
  rw [hsame]
  exact hf

theorem Emits.andThen {first second : List Bool}
    (hf : Emits f first) (hg : Emits g second) : Emits (fun w => g (f w)) (first ++ second) := by
  intro w written hw hroom
  rw [length_append] at hroom
  obtain ⟨hfirst, hcapacity⟩ := hf w written hw (by omega)
  obtain ⟨hsecond, hcapacity'⟩ := hg (f w) (written ++ first) hfirst (by
    rw [length_append]
    omega)
  rw [← append_assoc]
  exact ⟨hsecond, hcapacity'.trans hcapacity⟩

theorem emits_dcheck {condition : Bool} (h : condition = true) :
    Emits (fun w => w.dcheck condition) [] := by
  intro w written hw _
  rw [append_nil]
  refine ⟨⟨hw.wrote, hw.count, ?_⟩, rfl⟩
  change (w.checked && condition) = true
  rw [hw.checked, h]
  rfl

theorem emits_writeBits (val : BitVec 64) {bitCount : Nat} (hpos : 0 < bitCount)
    (hcount : bitCount ≤ 64) : Emits (fun w => w.writeBits val bitCount) (bits bitCount val.toNat) := by
  intro w written hw hroom
  rw [length_bits] at hroom
  obtain ⟨hsuccess, hwrote, hlength⟩ :=
    BitBufferWriter.writeBits_spec hw.wrote val hpos hcount hroom
  refine ⟨⟨hwrote, ?_, ?_⟩, ?_⟩
  · rw [length_append, length_bits, ← hw.count]
    rfl
  · change (w.checked && (w.bitWriter.writeBits val bitCount).1) = true
    rw [hw.checked, hsuccess]
    rfl
  · exact congrArg (8 * ·) hlength

theorem emits_writeString (input : List (BitVec 8)) :
    Emits (fun w => w.writeString input) (ofBytes input) := by
  induction input with
  | nil => exact Emits.nothing
  | cons c input ih =>
    have hfirst := emits_writeBits (c.setWidth 64) (show 0 < 8 by decide) (by decide)
    exact hfirst.andThen ih

theorem holds_ofByteCount {byteCount : Nat} (h : 0 < byteCount) :
    (ofByteCount byteCount).Holds [] :=
  ⟨BitBufferWriter.wrote_ofByteCount byteCount, rfl, decide_eq_true h⟩

theorem capacity_ofByteCount (byteCount : Nat) : (ofByteCount byteCount).capacity = 8 * byteCount :=
  congrArg (8 * ·) length_replicate

/-- The string is what was written, filled up to a whole byte. -/
theorem getString_spec {w : BitWriter} {written : List Bool} (hw : w.Holds written) :
    w.getString.length = bitsToBytes written.length ∧
      ∃ padding, ofBytes w.getString = written ++ padding := by
  have hle : written.length ≤ 8 * w.bitWriter.writableBytes.length := by
    have := hw.wrote.front.length_le
    rw [length_ofBytes] at this
    exact this
  have hsize := bitsToBytes_le hle
  have hstring : w.getString = w.bitWriter.writableBytes.take (bitsToBytes written.length) := by
    rw [getString, hw.count, Nat.sub_eq_zero_of_le hsize, replicate_zero, append_nil]
  rw [hstring]
  refine ⟨by rw [length_take, Nat.min_eq_left hsize], ?_⟩
  rw [ofBytes_take]
  obtain ⟨padding, hpadding⟩ := prefix_take_iff.mpr
    ⟨hw.wrote.front, le_bitsToBytes written.length⟩
  exact ⟨padding, hpadding.symm⟩

end BitWriter

end EventLog
