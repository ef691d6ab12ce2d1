import WebRtc.EventLog.BitBuffer

/-!
# Delta encoding of event log fields

Model of `logging/rtc_event_log/encoder/var_int.cc` and `delta_encoding.cc`. Values are `uint64_t`,
strings are lists of bytes, and sizes are `Nat`. The encoder carries in its writer, and the decoder
in its state, whether every `RTC_DCHECK` met so far has held.
-/

namespace EventLog

def kMaxVarIntLengthBytes : Nat := 10

def encodeVarIntLoop : Nat → BitVec 64 → List (BitVec 8)
  | 0, _ => []
  | fuel + 1, input =>
    let byte : BitVec 8 := (input &&& 0x7f).setWidth 8
    let input := input >>> 7
    if input > 0 then (byte ||| 0x80) :: encodeVarIntLoop fuel input else [byte]

/-- `EncodeVarInt`: ten shifts by seven bits leave nothing of a word. -/
def encodeVarInt (input : BitVec 64) : List (BitVec 8) :=
  encodeVarIntLoop kMaxVarIntLengthBytes input

def decodeVarIntLoop : Nat → Nat → BitVec 64 → BitstreamReader → BitVec 64 × BitstreamReader
  | 0, _, _, input => (0, input.invalidate)
  | left + 1, i, decoded, input =>
    let (byte, input) := input.readByte
    let decoded := decoded + ((byte &&& 0x7f).setWidth 64 <<< (7 * i))
    if byte &&& 0x80 = 0 then (decoded, input) else decodeVarIntLoop left (i + 1) decoded input

def decodeVarInt (input : BitstreamReader) : BitVec 64 × BitstreamReader :=
  decodeVarIntLoop kMaxVarIntLengthBytes 0 0 input

def countBits : Nat → BitVec 64 → Nat
  | 0, _ => 0
  | fuel + 1, input =>
    let input := input >>> 1
    if input ≠ 0 then countBits fuel input + 1 else 1

/-- `UnsignedBitWidth`: sixty-four shifts leave nothing of a word. -/
def unsignedBitWidth (input : BitVec 64) (zeroValAsZeroWidth : Bool) : Nat :=
  if zeroValAsZeroWidth && input == 0 then 0 else countBits 64 input

def signedBitWidth (maxPosMagnitude maxNegMagnitude : BitVec 64) : Nat :=
  let bitwidthPos := unsignedBitWidth maxPosMagnitude true
  let bitwidthNeg := if maxNegMagnitude > 0 then unsignedBitWidth (maxNegMagnitude - 1) true else 0
  1 + max bitwidthPos bitwidthNeg

def maxUnsignedValueOfBitWidth (bitWidth : Nat) : BitVec 64 :=
  if bitWidth = 64 then BitVec.allOnes 64 else (1#64 <<< bitWidth) - 1#64

def maxWord (a b : BitVec 64) : BitVec 64 := if a < b then b else a

def unsignedDelta (previous current bitMask : BitVec 64) : BitVec 64 := (current - previous) &&& bitMask

inductive EncodingType where
  | fixedSizeUnsignedDeltasNoEarlyWrapNoOpt
  | fixedSizeSignedDeltasEarlyWrapAndOptSupported
  | reserved1
  | reserved2
deriving DecidableEq

namespace EncodingType

def toBits : EncodingType → BitVec 64
  | fixedSizeUnsignedDeltasNoEarlyWrapNoOpt => 0
  | fixedSizeSignedDeltasEarlyWrapAndOptSupported => 1
  | reserved1 => 2
  | reserved2 => 3

def ofBits (bits : BitVec 64) : EncodingType :=
  if bits = 0 then fixedSizeUnsignedDeltasNoEarlyWrapNoOpt
  else if bits = 1 then fixedSizeSignedDeltasEarlyWrapAndOptSupported
  else if bits = 2 then reserved1
  else reserved2

def supported (type : EncodingType) : Bool :=
  type == fixedSizeUnsignedDeltasNoEarlyWrapNoOpt ||
    type == fixedSizeSignedDeltasEarlyWrapAndOptSupported

end EncodingType

def kBitsInHeaderForEncodingType : Nat := 2
def kBitsInHeaderForDeltaWidthBits : Nat := 6
def kBitsInHeaderForSignedDeltas : Nat := 1
def kBitsInHeaderForValuesOptional : Nat := 1
def kBitsInHeaderForValueWidthBits : Nat := 6

def kDefaultSignedDeltas : Bool := false
def kDefaultValuesOptional : Bool := false
def kDefaultValueWidthBits : Nat := 64

structure FixedLengthEncodingParameters where
  deltaWidthBits : Nat
  signedDeltas : Bool
  valuesOptional : Bool
  valueWidthBits : Nat
deriving DecidableEq

namespace FixedLengthEncodingParameters

def validParameters (deltaWidthBits valueWidthBits : Nat) : Bool :=
  decide (1 ≤ deltaWidthBits ∧ deltaWidthBits ≤ 64 ∧ 1 ≤ valueWidthBits ∧ valueWidthBits ≤ 64 ∧
    deltaWidthBits ≤ valueWidthBits)

variable (p : FixedLengthEncodingParameters)

def deltaMask : BitVec 64 :=
  maxUnsignedValueOfBitWidth p.deltaWidthBits

def valueMask : BitVec 64 :=
  maxUnsignedValueOfBitWidth p.valueWidthBits

def isDefault : Bool :=
  p.signedDeltas == kDefaultSignedDeltas && p.valuesOptional == kDefaultValuesOptional &&
    p.valueWidthBits == kDefaultValueWidthBits

def encodingType : EncodingType :=
  if p.isDefault then .fixedSizeUnsignedDeltasNoEarlyWrapNoOpt
  else .fixedSizeSignedDeltasEarlyWrapAndOptSupported

end FixedLengthEncodingParameters

namespace FixedLengthDeltaEncoder

structure Survey where
  nonDecreasing : Bool
  maxValueIncludingBase : BitVec 64
  existentValuesCount : Nat
  previous : BitVec 64

def Survey.visit (s : Survey) : Option (BitVec 64) → Survey
  | none => s
  | some value =>
    { nonDecreasing := s.nonDecreasing && decide (s.previous ≤ value)
      maxValueIncludingBase := maxWord s.maxValueIncludingBase value
      existentValuesCount := s.existentValuesCount + 1
      previous := value }

def survey (base : Option (BitVec 64)) (values : List (Option (BitVec 64))) : Survey :=
  values.foldl Survey.visit ⟨true, base.getD 0, 0, base.getD 0⟩

structure DeltaRange where
  maxUnsignedDelta : BitVec 64
  maxPosSignedDelta : BitVec 64
  minNegSignedDelta : BitVec 64
  prev : Option (BitVec 64)

def DeltaRange.widen (r : DeltaRange) (bitMask prev current : BitVec 64) : DeltaRange :=
  let forwardDelta := unsignedDelta prev current bitMask
  let backwardDelta := unsignedDelta current prev bitMask
  let maxUnsignedDelta := maxWord r.maxUnsignedDelta forwardDelta
  if forwardDelta < backwardDelta then
    ⟨maxUnsignedDelta, maxWord r.maxPosSignedDelta forwardDelta, r.minNegSignedDelta, some current⟩
  else
    ⟨maxUnsignedDelta, r.maxPosSignedDelta, maxWord r.minNegSignedDelta backwardDelta, some current⟩

def DeltaRange.visit (bitMask : BitVec 64) (r : DeltaRange) : Option (BitVec 64) → DeltaRange
  | none => r
  | some current =>
    match r.prev with
    | none => { r with prev := some current }
    | some prev => r.widen bitMask prev current

def calculateMinAndMaxDeltas (base : Option (BitVec 64)) (values : List (Option (BitVec 64)))
    (bitWidth : Nat) : DeltaRange :=
  values.foldl (DeltaRange.visit (maxUnsignedValueOfBitWidth bitWidth)) ⟨0, 0, 0, base⟩

def chooseValueWidthBits (s : Survey) : Nat :=
  if s.nonDecreasing then 64 else unsignedBitWidth s.maxValueIncludingBase false

def chooseParameters (base : Option (BitVec 64)) (values : List (Option (BitVec 64))) :
    FixedLengthEncodingParameters :=
  let s := survey base values
  let valueWidthBits := chooseValueWidthBits s
  let r := calculateMinAndMaxDeltas base values valueWidthBits
  let deltaWidthBitsUnsigned := unsignedBitWidth r.maxUnsignedDelta false
  let deltaWidthBitsSigned := signedBitWidth r.maxPosSignedDelta r.minNegSignedDelta
  let signedDeltas := decide (deltaWidthBitsSigned < deltaWidthBitsUnsigned)
  { deltaWidthBits := if signedDeltas then deltaWidthBitsSigned else deltaWidthBitsUnsigned
    signedDeltas := signedDeltas
    valuesOptional := base.isNone || decide (s.existentValuesCount < values.length)
    valueWidthBits := valueWidthBits }

variable (params : FixedLengthEncodingParameters)

def headerLengthBits : Nat :=
  if params.isDefault then kBitsInHeaderForEncodingType + kBitsInHeaderForDeltaWidthBits
  else
    kBitsInHeaderForEncodingType + kBitsInHeaderForDeltaWidthBits + kBitsInHeaderForSignedDeltas +
      kBitsInHeaderForValuesOptional + kBitsInHeaderForValueWidthBits

def encodedDeltasLengthBits (base : Option (BitVec 64))
    (valuesSize existentValuesCount : Nat) : Nat :=
  if !params.valuesOptional then valuesSize * params.deltaWidthBits
  else
    let existenceBitmapSizeBits := 1 * valuesSize
    let firstValueIsVarint := base.isNone && decide (existentValuesCount ≥ 1)
    let firstValueVarintSizeBits := 8 * kMaxVarIntLengthBytes
    let deltasCount := existentValuesCount - firstValueIsVarint.toNat
    let deltasSizeBits := deltasCount * params.deltaWidthBits
    existenceBitmapSizeBits + firstValueVarintSizeBits + deltasSizeBits

def outputLengthBytes (base : Option (BitVec 64)) (valuesSize existentValuesCount : Nat) : Nat :=
  bitsToBytes (headerLengthBits params +
    encodedDeltasLengthBits params base valuesSize existentValuesCount)

def encodeHeader (writer : BitWriter) : BitWriter :=
  let writer := writer.writeBits params.encodingType.toBits kBitsInHeaderForEncodingType
  let writer := writer.writeBits (BitVec.ofNat 64 (params.deltaWidthBits - 1))
    kBitsInHeaderForDeltaWidthBits
  if params.encodingType = .fixedSizeUnsignedDeltasNoEarlyWrapNoOpt then writer
  else
    let writer := writer.writeBits (BitVec.ofNat 64 params.signedDeltas.toNat)
      kBitsInHeaderForSignedDeltas
    let writer := writer.writeBits (BitVec.ofNat 64 params.valuesOptional.toNat)
      kBitsInHeaderForValuesOptional
    writer.writeBits (BitVec.ofNat 64 (params.valueWidthBits - 1)) kBitsInHeaderForValueWidthBits

def encodeUnsignedDelta (previous current : BitVec 64) (writer : BitWriter) : BitWriter :=
  writer.writeBits (unsignedDelta previous current params.valueMask) params.deltaWidthBits

/-- `EncodeSignedDelta`. A negative delta is written in two's complement, in the width of deltas. -/
def encodeSignedDelta (previous current : BitVec 64) (writer : BitWriter) : BitWriter :=
  let forwardDelta := unsignedDelta previous current params.valueMask
  let backwardDelta := unsignedDelta current previous params.valueMask
  if forwardDelta ≤ backwardDelta then writer.writeBits forwardDelta params.deltaWidthBits
  else
    let writer := writer.dcheck (decide (params.deltaMask ≥ backwardDelta))
    let writer := writer.dcheck (decide (params.deltaMask - backwardDelta < params.deltaMask))
    let delta := params.deltaMask - backwardDelta + 1
    let writer := writer.dcheck (decide (delta ≤ params.deltaMask))
    writer.writeBits delta params.deltaWidthBits

def encodeDelta (previous current : BitVec 64) (writer : BitWriter) : BitWriter :=
  if params.signedDeltas then encodeSignedDelta params previous current writer
  else encodeUnsignedDelta params previous current writer

def encodeExistence (values : List (Option (BitVec 64))) (writer : BitWriter) : BitWriter :=
  values.foldl (fun writer value => writer.writeBits (if value.isSome then 1 else 0) 1) writer

def encodeValues (params : FixedLengthEncodingParameters) (base : Option (BitVec 64)) :
    Option (BitVec 64) → List (Option (BitVec 64)) → BitWriter → BitWriter
  | _, [], writer => writer
  | previous, none :: values, writer =>
    encodeValues params base previous values (writer.dcheck params.valuesOptional)
  | none, some value :: values, writer =>
    encodeValues params base (some value) values
      ((writer.dcheck base.isNone).writeString (encodeVarInt value))
  | some previous, some value :: values, writer =>
    encodeValues params base (some value) values (encodeDelta params previous value writer)

def encode (base : Option (BitVec 64))
    (values : List (Option (BitVec 64))) (existentValuesCount : Nat) : BitWriter :=
  let writer := BitWriter.ofByteCount
    (outputLengthBytes params base values.length existentValuesCount)
  let writer := encodeHeader params writer
  let writer := if params.valuesOptional then encodeExistence values writer else writer
  encodeValues params base base values writer

end FixedLengthDeltaEncoder

open FixedLengthDeltaEncoder in
/-- `EncodeDeltas`: the string, and whether every write found room and every check held. -/
def encodeDeltas (base : Option (BitVec 64)) (values : List (Option (BitVec 64))) :
    List (BitVec 8) × Bool :=
  if values.all fun val => val == base then ([], !values.isEmpty)
  else
    let params := chooseParameters base values
    let writer := encode params base values (survey base values).existentValuesCount
    (writer.getString, !values.isEmpty && writer.checked)

namespace FixedLengthDeltaDecoder

def isSuitableDecoderFor (input : List (BitVec 8)) : Option Bool := do
  let reader ← BitstreamReader.ofInput input
  let (encodingTypeBits, reader) := reader.readBits kBitsInHeaderForEncodingType
  return reader.ok && (EncodingType.ofBits encodingTypeBits).supported

/-- The fields of the header behind the encoding type and the width of deltas. -/
def readLongHeader (deltaWidthBits : Nat) (reader : BitstreamReader) :
    FixedLengthEncodingParameters × BitstreamReader :=
  let (signedDeltas, reader) := reader.readBit
  let (valuesOptional, reader) := reader.readBit
  let (width, reader) := reader.readBits kBitsInHeaderForValueWidthBits
  (⟨deltaWidthBits, signedDeltas, valuesOptional, (width + 1).toNat⟩, reader)

def readHeader (encoding : EncodingType) (reader : BitstreamReader) :
    Option (FixedLengthEncodingParameters × BitstreamReader) :=
  let (width, reader) := reader.readBits kBitsInHeaderForDeltaWidthBits
  let deltaWidthBits := (width + 1).toNat
  let (params, reader) :=
    if encoding = .fixedSizeUnsignedDeltasNoEarlyWrapNoOpt then
      (⟨deltaWidthBits, kDefaultSignedDeltas, kDefaultValuesOptional, kDefaultValueWidthBits⟩, reader)
    else readLongHeader deltaWidthBits reader
  if !reader.ok then none
  else if !FixedLengthEncodingParameters.validParameters params.deltaWidthBits params.valueWidthBits
    then none
  else some (params, reader)

def create (reader : BitstreamReader) : Option (FixedLengthEncodingParameters × BitstreamReader) :=
  let (encodingTypeBits, reader) := reader.readBits kBitsInHeaderForEncodingType
  if !reader.ok then none
  else if !(EncodingType.ofBits encodingTypeBits).supported then none
  else readHeader (EncodingType.ofBits encodingTypeBits) reader

variable (params : FixedLengthEncodingParameters)

/-- The checks at the head of `ApplyDelta`, `ApplyUnsignedDelta` and `ApplySignedDelta`. -/
def inRange (base delta : BitVec 64) : Bool :=
  decide (base ≤ maxUnsignedValueOfBitWidth params.valueWidthBits) &&
    decide (delta ≤ maxUnsignedValueOfBitWidth params.deltaWidthBits)

/-- `ApplyUnsignedDelta`: the value, and whether the checks held. -/
def applyUnsignedDelta (base delta : BitVec 64) : BitVec 64 × Bool :=
  ((base + delta) &&& params.valueMask, inRange params base delta)

def applySignedDelta (base delta : BitVec 64) : BitVec 64 × Bool :=
  let checked := params.signedDeltas && inRange params base delta
  let topBit := 1#64 <<< (params.deltaWidthBits - 1)
  if delta &&& topBit = 0 then
    let applied := applyUnsignedDelta params base delta
    (applied.1, checked && applied.2)
  else
    let deltaAbs := (~~~delta &&& params.deltaMask) + 1
    ((base - deltaAbs) &&& params.valueMask, checked)

def applyDelta (base delta : BitVec 64) : BitVec 64 × Bool :=
  let applied := if params.signedDeltas then applySignedDelta params base delta
    else applyUnsignedDelta params base delta
  (applied.1, inRange params base delta && applied.2)

structure Progress where
  reader : BitstreamReader
  checked : Bool

def Progress.dcheck (d : Progress) (condition : Bool) : Progress :=
  { d with checked := d.checked && condition }

def readExistence : Nat → BitstreamReader → List Bool × BitstreamReader
  | 0, reader => ([], reader)
  | n + 1, reader =>
    let (existing, reader) := reader.readBit
    let (rest, reader) := readExistence n reader
    (existing :: rest, reader)

def decodeValues (params : FixedLengthEncodingParameters) (base : Option (BitVec 64)) :
    Option (BitVec 64) → List Bool → Progress → List (Option (BitVec 64)) × Progress
  | _, [], d => ([], d)
  | previous, false :: existing, d =>
    let (values, d) := decodeValues params base previous existing (d.dcheck params.valuesOptional)
    (none :: values, d)
  | none, true :: existing, d =>
    let (value, reader) := decodeVarInt d.reader
    let (values, d) := decodeValues params base (some value) existing
      ⟨reader, d.checked && base.isNone⟩
    (some value :: values, d)
  | some previous, true :: existing, d =>
    let (delta, reader) := d.reader.readBits params.deltaWidthBits
    let (value, held) := applyDelta params previous delta
    let (values, d) := decodeValues params base (some value) existing ⟨reader, d.checked && held⟩
    (some value :: values, d)

def decode (reader : BitstreamReader)
    (base : Option (BitVec 64)) (numOfDeltas : Nat) : List (Option (BitVec 64)) × Bool :=
  let (existing, reader) := if params.valuesOptional then readExistence numOfDeltas reader
    else (List.replicate numOfDeltas true, reader)
  let (values, d) := decodeValues params base base existing ⟨reader, true⟩
  (if d.reader.ok then values else [], d.checked)

def decodeDeltas (input : List (BitVec 8)) (base : Option (BitVec 64)) (numOfDeltas : Nat) :
    Option (List (Option (BitVec 64)) × Bool) := do
  let reader ← BitstreamReader.ofInput input
  match create reader with
  | none => return ([], true)
  | some (params, reader) => return decode params reader base numOfDeltas

end FixedLengthDeltaDecoder

/-- `DecodeDeltas`: the values, and whether every check held; nothing when the process aborts. -/
def decodeDeltas (input : List (BitVec 8)) (base : Option (BitVec 64)) (numOfDeltas : Nat) :
    Option (List (Option (BitVec 64)) × Bool) :=
  let checked := decide (numOfDeltas > 0)
  if input = [] then some (List.replicate numOfDeltas base, checked)
  else do
    if ← FixedLengthDeltaDecoder.isSuitableDecoderFor input then
      let (values, held) ← FixedLengthDeltaDecoder.decodeDeltas input base numOfDeltas
      return (values, checked && held)
    else return ([], checked)

end EventLog
