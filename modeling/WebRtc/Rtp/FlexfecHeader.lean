import WebRtc.Lib.ByteCodec
import Mathlib.Data.List.Forall2
import Mathlib.Data.List.GetD

/-!
# The FlexFEC header

The packet masks of ULPFEC in the header of a FlexFEC packet. Both formats of the header cut a mask
into parts and put a K-bit in front of each, which says whether another part follows; the readers
take the K-bits out again, in place.
-/

namespace Flexfec

open ByteCodec List

structure MaskFormat where
  /-- The K-bit of a part that another one follows. -/
  goesOn : Bool
  /-- The K-bit of the third part, where there is one. -/
  kBit2 : UInt8
  bit46 : UInt8
  bit47 : UInt8
  /-- How far the reader shifts bits 46 and 47 down, and the third part up. -/
  tailShift : UInt8
  tailBits : Nat

/-- `flexfec_header_reader_writer.cc`. -/
def flexfec : MaskFormat := ⟨true, 0, 0x80, 0x40, 6, 2⟩

/-- `flexfec_03_header_reader_writer.cc`. -/
def flexfec03 : MaskFormat := ⟨false, 0x80, 0x40, 0x20, 5, 3⟩

def kFlexfecPacketMaskSizes : List Nat := [2, 6, 14]

/-- `*write_at |= bits`. -/
def orFirst (bits : UInt8) (bytes : List UInt8) : List UInt8 := bytes.modify 0 (· ||| bits)

/-- `data[byte_index - 1] |= bits`, for the bytes in front of the index. -/
def orLast (bits : UInt8) (bytes : List UInt8) : List UInt8 :=
  bytes.modify (bytes.length - 1) (· ||| bits)

def flag (set : Bool) (bits : UInt8) : UInt8 := if set then bits else 0

def writeMask (f : MaskFormat) : List UInt8 → List UInt8
  | [m0, m1, m2, m3, m4, m5] =>
    let part0 := orFirst (flag f.goesOn 0x80) (bytesBE 2 (natBE [m0, m1] >>> 1))
    let bit15 := m1 &&& 0x01 != 0
    let part1 := orFirst (flag bit15 0x40) (bytesBE 4 (natBE [m2, m3, m4, m5] >>> 2))
    let bit46 := m5 &&& 0x02 != 0
    let bit47 := m5 &&& 0x01 != 0
    if !bit46 && !bit47 then part0 ++ orFirst (flag (!f.goesOn) 0x80) part1
    else part0 ++ orFirst (flag f.goesOn 0x80) part1 ++
      orFirst (f.kBit2 ||| flag bit46 f.bit46 ||| flag bit47 f.bit47) (replicate 8 0)
  | [m0, m1] =>
    let part0 := bytesBE 2 (natBE [m0, m1] >>> 1)
    let bit15 := m1 &&& 0x01 != 0
    if !bit15 then orFirst (flag (!f.goesOn) 0x80) part0
    else orFirst (flag f.goesOn 0x80) part0 ++
      orFirst (flag (!f.goesOn) 0x80) (orFirst 0x40 (replicate 4 0))
  | _ => []

/-- The packet mask as `ReadFecHeader` reads and rewrites it, and the bytes behind it. -/
def readMask (f : MaskFormat) : List UInt8 → Option (List UInt8 × List UInt8)
  | b0 :: b1 :: rest =>
    let kBit0 := b0 &&& 0x80 != 0
    let part0 := bytesBE 2 (natBE [b0, b1] <<< 1)
    if kBit0 != f.goesOn then some (part0, rest)
    else match rest with
      | b2 :: b3 :: b4 :: b5 :: rest =>
        let kBit1 := b2 &&& 0x80 != 0
        let part0 := orLast ((b2 >>> 6) &&& 0x01) part0
        let part1 := bytesBE 4 (natBE [b2, b3, b4, b5] <<< 2)
        if kBit1 != f.goesOn then some (part0 ++ part1, rest)
        else match rest with
          | b6 :: b7 :: b8 :: b9 :: b10 :: b11 :: b12 :: b13 :: rest =>
            if b6 &&& f.kBit2 != f.kBit2 then none
            else
              let part1 := orLast ((b6 >>> f.tailShift) &&& 0x03) part1
              let part2 := bytesBE 8 (natBE [b6, b7, b8, b9, b10, b11, b12, b13] <<< f.tailBits)
              some (part0 ++ part1 ++ part2, rest)
          | _ => none
      | _ => none
  | _ => none

/-- Bit `i` of a mask, counted from its first byte's highest bit. -/
def maskBit (mask : List UInt8) (i : Nat) : Bool :=
  (mask.getD (i / 8) 0).toNat.testBit (7 - i % 8)

theorem toNat_or {x y : UInt8} (j : Nat) (hx : x.toNat < 2 ^ j) (hy : 2 ^ j ∣ y.toNat) :
    (x ||| y).toNat = x.toNat + y.toNat := by
  obtain ⟨a, ha⟩ := hy
  rw [UInt8.toNat_or, ha, Nat.or_comm, ← Nat.two_pow_add_eq_or_of_lt hx, Nat.add_comm]

theorem toNat_or_flag (x bits : UInt8) (j : Nat) (set : Bool) (hx : x.toNat < 2 ^ j)
    (hbits : bits.toNat = 2 ^ j) :
    (x ||| flag set bits).toNat = x.toNat + set.toNat * bits.toNat := by
  cases set
  · simp [flag]
  · rw [flag, if_pos rfl, toNat_or j hx (dvd_of_eq hbits.symm), Bool.toNat_true, one_mul]

/-- The tests of a byte, by its value. -/
theorem byte_tests (x : UInt8) : (x &&& 0x01 != 0).toNat = x.toNat % 2 ∧
    (x &&& 0x02 != 0).toNat * 2 + (x &&& 0x01 != 0).toNat = x.toNat % 4 ∧
    (x &&& 0x80 != 0) = decide (128 ≤ x.toNat) ∧ ((x >>> 6) &&& 0x01).toNat = x.toNat / 64 % 2 := by
  obtain ⟨b⟩ := x
  revert b
  decide

theorem toNat_ofNat (v : Nat) : (UInt8.ofNat v).toNat = v % 256 := rfl

theorem toNat_or_low {v j : Nat} {low : UInt8} (hlow : low.toNat < 2 ^ j) (hv : 2 ^ j ∣ v % 256) :
    (UInt8.ofNat v ||| low).toNat = v % 256 + low.toNat := by
  rw [UInt8.or_comm, toNat_or j hlow (by rwa [toNat_ofNat]), Nat.add_comm, toNat_ofNat]

theorem part0_spec (m0 m1 : UInt8) (k : Bool) :
    ∃ x0 x1, orFirst (flag k 0x80) (bytesBE 2 (natBE [m0, m1] >>> 1)) = [x0, x1] ∧
      (x0 &&& 0x80 != 0) = k ∧
      ∀ bit : UInt8, bit.toNat = m1.toNat % 2 →
        orLast bit (bytesBE 2 (natBE [x0, x1] <<< 1)) = [m0, m1] := by
  have hm0 := m0.toNat_lt
  have hm1 := m1.toNat_lt
  have hk := k.toNat_lt
  obtain ⟨x, x1, hbytes⟩ : ∃ x x1, bytesBE 2 (natBE [m0, m1] >>> 1) = [x, x1] := ⟨_, _, rfl⟩
  have hhalf := natBE_bytesBE 2 (natBE [m0, m1] >>> 1)
  rw [hbytes] at hhalf
  simp only [natBE, readFrom, Nat.shiftRight_eq_div_pow] at hhalf
  have hx0 : (x ||| flag k 0x80).toNat = x.toNat + k.toNat * 128 :=
    toNat_or_flag x 0x80 7 k (by omega) rfl
  refine ⟨x ||| flag k 0x80, x1, by rw [hbytes]; rfl, ?_, fun bit hbit => ?_⟩
  · rw [(byte_tests _).2.2.1, hx0]
    cases k
    · simp; omega
    · simp
  · simp only [orLast, bytesBE, natBE, readFrom, hx0, Nat.shiftLeft_eq, length_cons, length_nil,
      modify_succ_cons, modify_zero_cons, cons.injEq, ← UInt8.toNat_inj, toNat_ofNat]
    rw [toNat_or_low (j := 1) (by omega) (by omega)]
    refine ⟨?_, ?_, trivial⟩ <;> omega

theorem part1_spec (m2 m3 m4 m5 : UInt8) (k bit15 : Bool) :
    ∃ x2 x3 x4 x5, orFirst (flag k 0x80) (orFirst (flag bit15 0x40)
        (bytesBE 4 (natBE [m2, m3, m4, m5] >>> 2))) = [x2, x3, x4, x5] ∧
      (x2 &&& 0x80 != 0) = k ∧ ((x2 >>> 6) &&& 0x01).toNat = bit15.toNat ∧
      ∀ tail : UInt8, tail.toNat = m5.toNat % 4 →
        orLast tail (bytesBE 4 (natBE [x2, x3, x4, x5] <<< 2)) = [m2, m3, m4, m5] := by
  have hm2 := m2.toNat_lt
  have hm3 := m3.toNat_lt
  have hm4 := m4.toNat_lt
  have hm5 := m5.toNat_lt
  have hk := k.toNat_lt
  have hbit15 := bit15.toNat_lt
  obtain ⟨x, x3, x4, x5, hbytes⟩ :
      ∃ x x3 x4 x5, bytesBE 4 (natBE [m2, m3, m4, m5] >>> 2) = [x, x3, x4, x5] := ⟨_, _, _, _, rfl⟩
  have hquarter := natBE_bytesBE 4 (natBE [m2, m3, m4, m5] >>> 2)
  rw [hbytes] at hquarter
  simp only [natBE, readFrom, Nat.shiftRight_eq_div_pow] at hquarter
  have hx : (x ||| flag bit15 0x40).toNat = x.toNat + bit15.toNat * 64 :=
    toNat_or_flag x 0x40 6 bit15 (by omega) rfl
  have hx2 : (x ||| flag bit15 0x40 ||| flag k 0x80).toNat =
      x.toNat + bit15.toNat * 64 + k.toNat * 128 := by
    rw [toNat_or_flag _ 0x80 7 k (by omega) rfl, hx]
    rfl
  refine ⟨_, x3, x4, x5, by rw [hbytes]; rfl, ?_, ?_, fun tail htail => ?_⟩
  · rw [(byte_tests _).2.2.1, hx2]
    cases k
    · simp; omega
    · simp
  · rw [(byte_tests _).2.2.2, hx2]
    omega
  · simp only [orLast, bytesBE, natBE, readFrom, hx2, Nat.shiftLeft_eq, length_cons, length_nil,
      modify_succ_cons, modify_zero_cons, cons.injEq, ← UInt8.toNat_inj, toNat_ofNat]
    rw [toNat_or_low (j := 2) (by omega) (by omega)]
    refine ⟨?_, ?_, ?_, ?_, trivial⟩ <;> omega

theorem orLast_zero (bytes : List UInt8) : orLast 0 bytes = bytes := by
  have hid : (fun x : UInt8 => x ||| 0) = id := funext fun _ => UInt8.or_zero
  rw [orLast, hid, modify_id]

theorem part2_spec {f : MaskFormat} (hf : f = flexfec ∨ f = flexfec03) (bit46 bit47 : Bool) :
    ∃ x6, orFirst (f.kBit2 ||| flag bit46 f.bit46 ||| flag bit47 f.bit47) (replicate 8 0) =
        x6 :: replicate 7 0 ∧ (x6 &&& f.kBit2 != f.kBit2) = false ∧
      ((x6 >>> f.tailShift) &&& 0x03).toNat = bit46.toNat * 2 + bit47.toNat ∧
      bytesBE 8 (natBE [x6, 0, 0, 0, 0, 0, 0, 0] <<< f.tailBits) = replicate 8 0 := by
  refine ⟨_, rfl, ?_⟩
  obtain rfl | rfl := hf <;> cases bit46 <;> cases bit47 <;> decide

theorem maskBit_append_zeros (mask : List UInt8) (zeros i : Nat) :
    maskBit (mask ++ replicate zeros 0) i = maskBit mask i := by
  rw [maskBit, maskBit]
  obtain h | h := Nat.lt_or_ge (i / 8) mask.length
  · rw [getD_append _ _ _ _ h]
  · rw [getD_append_right _ _ _ _ h, getD_eq_default _ _ h]
    simp [getD]

theorem readMask_writeMask {f : MaskFormat} (hf : f = flexfec ∨ f = flexfec03) {mask : List UInt8}
    (hsize : mask.length = 2 ∨ mask.length = 6) (rest : List UInt8) :
    ∃ read, readMask f (writeMask f mask ++ rest) = some (read, rest) ∧
      read.length = (writeMask f mask).length ∧ read.length ∈ kFlexfecPacketMaskSizes ∧
      ∀ i, maskBit read i = maskBit mask i := by
  obtain hsize | hsize := hsize
  · obtain ⟨m0, m1, rfl⟩ := length_eq_two.mp hsize
    have hbit := (byte_tests m1).1
    cases hbit15 : m1 &&& 0x01 != 0 with
    | false =>
      obtain ⟨x0, x1, hpart0, hk0, hread0⟩ := part0_spec m0 m1 (!f.goesOn)
      have hm0 := hread0 0 (by rw [← hbit, hbit15]; rfl)
      rw [orLast_zero] at hm0
      have hwrite : writeMask f [m0, m1] = [x0, x1] := by
        simp [writeMask, hbit15, hpart0]
      rw [hwrite]
      exact ⟨[m0, m1], by simp [readMask, hk0, hm0], rfl, .head _, fun _ => rfl⟩
    | true =>
      obtain ⟨x0, x1, hpart0, hk0, hread0⟩ := part0_spec m0 m1 f.goesOn
      obtain ⟨x2, x3, x4, x5, hpart1, hk1, hx2, hread1⟩ := part1_spec 0 0 0 0 (!f.goesOn) true
      have hm0 := hread0 _ (hx2.trans (by rw [← hbit, hbit15]))
      have hm1 := hread1 0 rfl
      rw [orLast_zero] at hm1
      have hwrite : writeMask f [m0, m1] = [x0, x1] ++ [x2, x3, x4, x5] := by
        rw [← hpart0, ← hpart1]
        simp only [writeMask, hbit15]
        rfl
      rw [hwrite]
      exact ⟨[m0, m1] ++ replicate 4 0, by simp [readMask, hk0, hk1, hm0, hm1], rfl,
        .tail _ (.head _), maskBit_append_zeros _ 4⟩
  · obtain ⟨m0, m1, m2, m3, m4, m5, rfl⟩ :
        ∃ m0 m1 m2 m3 m4 m5, mask = [m0, m1, m2, m3, m4, m5] := by
      match mask, hsize with
      | [m0, m1, m2, m3, m4, m5], _ => exact ⟨m0, m1, m2, m3, m4, m5, rfl⟩
    have hbit := (byte_tests m1).1
    have htail := (byte_tests m5).2.1
    obtain ⟨x0, x1, hpart0, hk0, hread0⟩ := part0_spec m0 m1 f.goesOn
    cases hend : !(m5 &&& 0x02 != 0) && !(m5 &&& 0x01 != 0) with
    | true =>
      obtain ⟨x2, x3, x4, x5, hpart1, hk1, hx2, hread1⟩ :=
        part1_spec m2 m3 m4 m5 (!f.goesOn) (m1 &&& 0x01 != 0)
      have hm0 := hread0 _ (hx2.trans hbit)
      have hm1 := hread1 0 (by simp_all)
      rw [orLast_zero] at hm1
      have hwrite : writeMask f [m0, m1, m2, m3, m4, m5] = [x0, x1] ++ [x2, x3, x4, x5] := by
        rw [← hpart0, ← hpart1]
        simp only [writeMask, hend, if_true]
      rw [hwrite]
      exact ⟨[m0, m1, m2, m3, m4, m5], by simp [readMask, hk0, hk1, hm0, hm1], rfl,
        .tail _ (.head _), fun _ => rfl⟩
    | false =>
      obtain ⟨x2, x3, x4, x5, hpart1, hk1, hx2, hread1⟩ :=
        part1_spec m2 m3 m4 m5 f.goesOn (m1 &&& 0x01 != 0)
      obtain ⟨x6, hpart2, hk2, hx6, hread2⟩ :=
        part2_spec hf (m5 &&& 0x02 != 0) (m5 &&& 0x01 != 0)
      have hm0 := hread0 _ (hx2.trans hbit)
      have hm1 := hread1 _ (hx6.trans htail)
      have hwrite : writeMask f [m0, m1, m2, m3, m4, m5] =
          [x0, x1] ++ [x2, x3, x4, x5] ++ x6 :: replicate 7 0 := by
        rw [← hpart0, ← hpart1, ← hpart2]
        simp only [writeMask, hend]
        rfl
      rw [hwrite]
      exact ⟨[m0, m1, m2, m3, m4, m5] ++ replicate 8 0,
        by simp [readMask, hk0, hk1, hk2, hm0, hm1, hread2, replicate], rfl,
        .tail _ (.tail _ (.head _)), maskBit_append_zeros _ 8⟩

structure FecHeaderWriter.ProtectedStream where
  ssrc : UInt32
  seqNumBase : UInt16
  packetMask : List UInt8
  /-- `kUlpfecPacketMaskSizeLBitClear` or `kUlpfecPacketMaskSizeLBitSet`. -/
  size_ok : packetMask.length = 2 ∨ packetMask.length = 6

/-- A stream as the header readers leave it. -/
structure ProtectedStream where
  ssrc : UInt32
  seqNumBase : UInt16
  packetMaskOffset : Nat
  packetMaskSize : Nat
  deriving DecidableEq, Repr

structure ReceivedFecPacket where
  protectedStreams : List ProtectedStream
  data : List UInt8
  fecHeaderSize : Nat
  protectionLength : Nat
  deriving DecidableEq, Repr

/-- Clears the R and F bits and writes `header` from the ninth byte on. -/
def finalize (header data : List UInt8) : List UInt8 :=
  (data.modify 0 (· &&& 0x7f &&& 0xbf)).take 8 ++ header ++ data.drop (8 + header.length)

variable (streams : List FecHeaderWriter.ProtectedStream)

/-- The bytes `FlexfecHeaderWriter::FinalizeFecHeader` writes at `write_at`. -/
def FlexfecHeaderWriter.header : List UInt8 :=
  streams.flatMap fun s => bytesBE 2 s.seqNumBase.toNat ++ writeMask flexfec s.packetMask

def FlexfecHeaderWriter.finalizeFecHeader (data : List UInt8) : List UInt8 :=
  finalize (header streams) data

/-- `kSsrcCount`, `kReservedBits` and the only stream. -/
def Flexfec03HeaderWriter.header (s : FecHeaderWriter.ProtectedStream) : List UInt8 :=
  [1] ++ bytesBE 3 0 ++ bytesBE 4 s.ssrc.toNat ++ bytesBE 2 s.seqNumBase.toNat ++
    writeMask flexfec03 s.packetMask

def Flexfec03HeaderWriter.finalizeFecHeader (data : List UInt8) : Option (List UInt8) :=
  match streams with
  | [s] => some (finalize (header s) data)
  | _ => none

/-- The streams from `byteIndex` on, the bytes with the masks rewritten, and the index behind the
header. -/
def readStreams (byteIndex : Nat) :
    List ProtectedStream → List UInt8 → Option (List ProtectedStream × List UInt8 × Nat)
  | [], bytes => some ([], bytes, byteIndex)
  | s :: streams, b0 :: b1 :: rest => do
    let offset := byteIndex + 2
    let (mask, rest) ← readMask flexfec rest
    let (read, rest, byteIndex) ← readStreams (offset + mask.length) streams rest
    some (⟨s.ssrc, UInt16.ofNat (natBE [b0, b1]), offset, mask.length⟩ :: read,
      b0 :: b1 :: (mask ++ rest), byteIndex)
  | _ :: _, _ => none

/-- What both readers refuse: packets of `size` bytes or less, and a set R or F bit. -/
def refused (size : Nat) (data : List UInt8) : Bool :=
  decide (data.length ≤ size) || data.headD 0 &&& 0x80 != 0 || data.headD 0 &&& 0x40 != 0

def FlexfecHeaderReader.readFecHeader (packet : ReceivedFecPacket) : Option ReceivedFecPacket :=
  if packet.protectedStreams.isEmpty || refused (8 + 2) packet.data then none
  else do
    let (streams, bytes, byteIndex) ← readStreams 8 packet.protectedStreams (packet.data.drop 8)
    some ⟨streams, packet.data.take 8 ++ bytes, byteIndex, packet.data.length - byteIndex⟩

def flexfecHeaderSize (packetMaskSize : Nat) : Nat :=
  if packetMaskSize ≤ 2 then 12 + 6 + 2 else if packetMaskSize ≤ 6 then 12 + 6 + 6 else 12 + 6 + 14

def Flexfec03HeaderReader.readFecHeader (packet : ReceivedFecPacket) : Option ReceivedFecPacket :=
  let data := packet.data
  if refused (12 + 6) data || data.getD 8 0 != 1 then none
  else do
    let protectedSsrc := UInt32.ofNat (natBE ((data.drop 12).take 4))
    let seqNumBase := UInt16.ofNat (natBE ((data.drop 16).take 2))
    let (mask, rest) ← readMask flexfec03 (data.drop 18)
    let fecHeaderSize := flexfecHeaderSize mask.length
    some ⟨[⟨protectedSsrc, seqNumBase, 18, mask.length⟩], data.take 18 ++ mask ++ rest,
      fecHeaderSize, data.length - fecHeaderSize⟩

/-- A stream that was read from `data` as it was written. -/
def Recovered (data : List UInt8) (s : FecHeaderWriter.ProtectedStream) (r : ProtectedStream) :
    Prop :=
  r.seqNumBase = s.seqNumBase ∧
    ∀ i, maskBit ((data.drop r.packetMaskOffset).take r.packetMaskSize) i = maskBit s.packetMask i

theorem ofNat_natBE_bytesBE (v : UInt16) : UInt16.ofNat (natBE (bytesBE 2 v.toNat)) = v := by
  rw [natBE_bytesBE_of_lt v.toNat_lt, UInt16.ofNat_toNat]

/-- The loop reads the streams as they were written. -/
theorem readStreams_header (written : List FecHeaderWriter.ProtectedStream)
    (streams : List ProtectedStream) (hlen : streams.length = written.length) (byteIndex : Nat)
    (payload : List UInt8) : ∃ read bytes,
      readStreams byteIndex streams (FlexfecHeaderWriter.header written ++ payload) =
        some (read, bytes, byteIndex + (FlexfecHeaderWriter.header written).length) ∧
      ∀ front : List UInt8, front.length = byteIndex →
        Forall₂ (Recovered (front ++ bytes)) written read := by
  induction written generalizing streams byteIndex with
  | nil =>
    obtain rfl := eq_nil_of_length_eq_zero hlen
    exact ⟨[], payload, rfl, fun _ _ => .nil⟩
  | cons s written ih =>
    obtain ⟨r, streams, rfl⟩ := exists_cons_of_length_eq_add_one hlen
    obtain ⟨mask, hmask, hlength, -, hbits⟩ := readMask_writeMask (.inl rfl) s.size_ok
      (FlexfecHeaderWriter.header written ++ payload)
    obtain ⟨b0, b1, hbytes⟩ : ∃ b0 b1, bytesBE 2 s.seqNumBase.toNat = [b0, b1] := ⟨_, _, rfl⟩
    have hheader : FlexfecHeaderWriter.header (s :: written) = b0 :: b1 ::
        (writeMask flexfec s.packetMask ++ FlexfecHeaderWriter.header written) := by
      rw [FlexfecHeaderWriter.header, flatMap_cons, hbytes]
      rfl
    obtain ⟨read, bytes, hread, hrecovered⟩ :=
      ih streams (by simpa using hlen) (byteIndex + 2 + mask.length)
    refine ⟨⟨r.ssrc, s.seqNumBase, byteIndex + 2, mask.length⟩ :: read, b0 :: b1 :: (mask ++ bytes),
      ?_, fun front hfront => .cons ⟨rfl, fun i => ?_⟩ ?_⟩
    · have hindex : byteIndex + 2 + mask.length + (FlexfecHeaderWriter.header written).length =
          byteIndex + (FlexfecHeaderWriter.header (s :: written)).length := by
        simp only [hheader, length_append, length_cons, hlength]
        omega
      rw [← hindex, hheader, cons_append, cons_append, append_assoc, readStreams, hmask]
      simp only [Option.bind_eq_bind, Option.bind_some, hread, ← hbytes, ofNat_natBE_bytesBE]
    · rw [← hbits, ← hfront]
      congr 1
      simp [drop_length_add_append]
    · have hmore := hrecovered (front ++ b0 :: b1 :: mask) (by simp [hfront]; omega)
      simpa using hmore

theorem finalize_spec {header data : List UInt8} (hroom : 8 + header.length ≤ data.length) :
    ∃ front payload, finalize header data = front ++ header ++ payload ∧ front.length = 8 ∧
      ∀ size < 8 + header.length, refused size (finalize header data) = false := by
  have hbits (x : UInt8) : (x &&& 0x7f &&& 0xbf &&& 0x80 != 0) = false ∧
      (x &&& 0x7f &&& 0xbf &&& 0x40 != 0) = false := by
    obtain ⟨b⟩ := x
    revert b
    decide
  obtain ⟨x, data, rfl⟩ := exists_cons_of_length_pos (show 0 < data.length by omega)
  have hfront : (((x :: data).modify 0 (· &&& 0x7f &&& 0xbf)).take 8).length = 8 := by
    rw [length_take, length_modify]
    omega
  refine ⟨_, _, rfl, hfront, fun size hsize => ?_⟩
  have hlong : ¬ (finalize header (x :: data)).length ≤ size := by
    rw [finalize, length_append, length_append, hfront]
    omega
  rw [refused, decide_eq_false hlong]
  simp [finalize, hbits x]

theorem flexfecHeaderSize_eq : ∀ size ∈ kFlexfecPacketMaskSizes,
    flexfecHeaderSize size = 18 + size ∧ 0 < size := by
  decide

/-- The reader finds each stream's base and mask, and the size of the header. -/
theorem masks_survive : (∀ (streams : List FecHeaderWriter.ProtectedStream) (data : List UInt8)
      (packet : ReceivedFecPacket), streams ≠ [] →
      8 + (FlexfecHeaderWriter.header streams).length ≤ data.length →
      packet.data = FlexfecHeaderWriter.finalizeFecHeader streams data →
      packet.protectedStreams.length = streams.length →
      ∃ read, FlexfecHeaderReader.readFecHeader packet = some read ∧
        Forall₂ (Recovered read.data) streams read.protectedStreams ∧
        read.fecHeaderSize = 8 + (FlexfecHeaderWriter.header streams).length) ∧
    (∀ (s : FecHeaderWriter.ProtectedStream) (data : List UInt8) (packet : ReceivedFecPacket),
      8 + (Flexfec03HeaderWriter.header s).length ≤ data.length →
      some packet.data = Flexfec03HeaderWriter.finalizeFecHeader [s] data →
      ∃ read r, Flexfec03HeaderReader.readFecHeader packet = some read ∧
        read.protectedStreams = [r] ∧ r.ssrc = s.ssrc ∧ Recovered read.data s r ∧
        read.fecHeaderSize = 8 + (Flexfec03HeaderWriter.header s).length) := by
  constructor
  · intro streams data packet hne hroom hdata hstreams
    obtain ⟨front, payload, hfinal, hfront, hrefused⟩ := finalize_spec hroom
    obtain ⟨s, tail, rfl⟩ := exists_cons_of_ne_nil hne
    have hsize : 8 + 2 < 8 + (FlexfecHeaderWriter.header (s :: tail)).length := by
      obtain ⟨mask, -, hmask, hsizes, -⟩ := readMask_writeMask (.inl rfl) s.size_ok []
      have hpos := (flexfecHeaderSize_eq _ hsizes).2
      rw [FlexfecHeaderWriter.header, flatMap_cons, length_append, length_append, length_bytesBE]
      omega
    have hnonempty : packet.protectedStreams.isEmpty = false := by
      rw [isEmpty_eq_false_iff_exists_mem]
      exact exists_mem_of_length_pos (by rw [hstreams]; exact Nat.succ_pos _)
    obtain ⟨read, bytes, hread, hrecovered⟩ :=
      readStreams_header _ packet.protectedStreams hstreams 8 payload
    rw [FlexfecHeaderReader.readFecHeader, hnonempty, hdata, FlexfecHeaderWriter.finalizeFecHeader,
      hrefused _ hsize, hfinal, append_assoc, drop_left' hfront, take_left' hfront, hread]
    exact ⟨_, rfl, hrecovered front hfront, rfl⟩
  · intro s data packet hroom hdata
    obtain ⟨front, payload, hfinal, hfront, hrefused⟩ := finalize_spec hroom
    obtain ⟨mask, hmask, hlength, hsizes, hbits⟩ := readMask_writeMask (.inr rfl) s.size_ok payload
    obtain ⟨hsize, hpos⟩ := flexfecHeaderSize_eq _ hsizes
    have hheader : (Flexfec03HeaderWriter.header s).length = 10 + mask.length := by
      rw [Flexfec03HeaderWriter.header, length_append, hlength]
      rfl
    obtain ⟨hcount, hssrc, hbase, hwritten, hstart⟩ : packet.data.getD 8 0 = 1 ∧
        (packet.data.drop 12).take 4 = bytesBE 4 s.ssrc.toNat ∧
        (packet.data.drop 16).take 2 = bytesBE 2 s.seqNumBase.toNat ∧
        packet.data.drop 18 = writeMask flexfec03 s.packetMask ++ payload ∧
        (packet.data.take 18).length = 18 := by
      rw [(Option.some.inj hdata).trans hfinal]
      match front, hfront with
      | [_, _, _, _, _, _, _, _], _ => exact ⟨rfl, rfl, rfl, rfl, rfl⟩
    have haccepted := (Option.some.inj hdata).symm ▸ hrefused (12 + 6) (by omega)
    simp only [Flexfec03HeaderReader.readFecHeader, haccepted, hcount, hssrc, hbase, hwritten,
      hmask, ofNat_natBE_bytesBE]
    refine ⟨_, _, rfl, rfl, ?_, ⟨rfl, fun i => ?_⟩, ?_⟩
    · exact (congrArg UInt32.ofNat (natBE_bytesBE_of_lt s.ssrc.toNat_lt)).trans UInt32.ofNat_toNat
    · show maskBit (((packet.data.take 18 ++ mask ++ payload).drop 18).take mask.length) i = _
      rw [append_assoc, drop_left' hstart, take_left, hbits]
    · exact hsize.trans (by omega)

theorem masks_survive_two :
    let s : FecHeaderWriter.ProtectedStream := ⟨7, 65535, [0x80, 0x01], .inl rfl⟩
    let t : FecHeaderWriter.ProtectedStream := ⟨8, 3, [0, 0, 0, 0, 0, 0x03], .inr rfl⟩
    (∃ read, FlexfecHeaderReader.readFecHeader ⟨[⟨7, 0, 0, 0⟩, ⟨8, 0, 0, 0⟩],
        FlexfecHeaderWriter.finalizeFecHeader [s, t] (replicate 40 0xff), 0, 0⟩ = some read ∧
      Forall₂ (Recovered read.data) [s, t] read.protectedStreams ∧ read.fecHeaderSize = 32) ∧
    ∃ read r, Flexfec03HeaderReader.readFecHeader
        ⟨[], finalize (Flexfec03HeaderWriter.header t) (replicate 40 0xff), 0, 0⟩ = some read ∧
      read.protectedStreams = [r] ∧ r.ssrc = 8 ∧ Recovered read.data t r ∧
      read.fecHeaderSize = 32 := by
  intro s t
  exact ⟨masks_survive.1 [s, t] _ _ (cons_ne_nil _ _) (by decide) rfl rfl,
    masks_survive.2 t _ _ (by decide) rfl⟩

end Flexfec
