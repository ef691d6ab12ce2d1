import Mathlib.Data.BitVec
import WebRtc.Lib.ByteCodec

/-!
# Redundant audio

Model of `AudioEncoderCopyRed` (`modules/audio_coding/codecs/red/audio_encoder_copy_red.cc`), which
puts copies of earlier encodings in front of a new one, and of `RedPayloadSplitter`
(`modules/audio_coding/neteq/red_payload_splitter.cc`), which takes such a payload apart. The speech
encoder is the sequence of its outputs; calls that are passed on to it are left out.
-/

namespace Audio

open ByteCodec

abbrev Buffer := List UInt8

inductive CodecType where
  | other
  | opus
  | isac
  | pcmA
  | pcmU
  | g722
deriving DecidableEq, Repr

structure EncodedInfoLeaf where
  encodedBytes : Nat := 0
  encodedTimestamp : BitVec 32 := 0
  payloadType : Nat := 0
  sendEvenIfEmpty : Bool := false
  speech : Bool := true
  encoderType : CodecType := .other
deriving DecidableEq, Repr

structure EncodedInfo extends EncodedInfoLeaf where
  redundant : List EncodedInfoLeaf := []
deriving DecidableEq, Repr

/-- `Buffer::SetSize`; bytes that are added have no particular value in the source. -/
def setSize (buffer : Buffer) (size : Nat) : Buffer :=
  buffer.take size ++ List.replicate (size - buffer.length) 0

def writeAt (buffer : Buffer) (offset : Nat) (bytes : List UInt8) : Buffer :=
  buffer.take offset ++ bytes ++ buffer.drop (offset + bytes.length)

def kRedMaxPacketSize : Nat := 1024

def kRedMaxTimestampDelta : Nat := 16384

def kAudioMaxRtpPacketLen : Nat := 1200

def kRedHeaderLength : Nat := 4

def kRedLastHeaderLength : Nat := 1

def kSizeT : Nat := 18446744073709551616

/-- An encoding with what the speech encoder says about it. -/
abbrev Encoding := EncodedInfo × Buffer

structure AudioEncoderCopyRed where
  maxPacketLength : Nat := kAudioMaxRtpPacketLen
  redPayloadType : Nat
  redundantEncodings : List Encoding
deriving DecidableEq, Repr

namespace AudioEncoderCopyRed

def initial (redPayloadType numberOfRedundantEncodings : Nat) : AudioEncoderCopyRed where
  redPayloadType := redPayloadType
  redundantEncodings := List.replicate numberOfRedundantEncodings ({}, [])

/-- The loop of `EncodeImpl` that runs forward over the redundant encodings: how many of them
fit. -/
def fitting (rtpTimestamp : BitVec 32) : List Encoding → Nat → Nat
  | [], _ => 0
  | e :: rest, bytesAvailable =>
    if bytesAvailable < kRedHeaderLength + e.1.encodedBytes then 0
    else if e.1.encodedBytes = 0 then 0
    else if kRedMaxTimestampDelta ≤ (rtpTimestamp - e.1.encodedTimestamp).toNat then 0
    else fitting rtpTimestamp rest (bytesAvailable - (kRedHeaderLength + e.1.encodedBytes)) + 1

def redHeader (encodedTimestamp : BitVec 32) (e : Encoding) : List UInt8 :=
  let timestampDelta := encodedTimestamp - e.1.encodedTimestamp
  UInt8.ofNat (e.1.payloadType ||| 0x80) ::
    (bytesBE 2 ((timestampDelta <<< 2).toNat ||| e.1.encodedBytes >>> 8) ++
      [UInt8.ofNat (e.1.encodedBytes &&& 0xff)])

/-- The loop of `EncodeImpl` that runs back over the encodings that fit. -/
def appendRedundant (encodedTimestamp : BitVec 32) : List Encoding → Nat × Buffer → Nat × Buffer
  | [], s => s
  | e :: rest, (headerOffset, encoded) =>
    appendRedundant encodedTimestamp rest
      (headerOffset + kRedHeaderLength,
        writeAt (encoded ++ e.2) headerOffset (redHeader encodedTimestamp e))

def shift (new : Encoding) : List Encoding → List Encoding
  | [] => []
  | e :: rest => new :: (e :: rest).dropLast

variable (s : AudioEncoderCopyRed)

def fitCount (rtpTimestamp : BitVec 32) (primary : Encoding) : Nat :=
  fitting rtpTimestamp s.redundantEncodings
    ((s.maxPacketLength + kSizeT - primary.1.encodedBytes) % kSizeT)

/-- The redundant encodings of a packet, in the order in which they are written. -/
def redundantOf (rtpTimestamp : BitVec 32) (primary : Encoding) : List Encoding :=
  (s.redundantEncodings.take (s.fitCount rtpTimestamp primary)).reverse

/-- The main part of `EncodeImpl`, for an encoding that RED can hold. -/
def encodeRed (rtpTimestamp : BitVec 32) (primary : Encoding)
    (encoded : Buffer) : EncodedInfo × Buffer × AudioEncoderCopyRed :=
  let redundant := s.redundantOf rtpTimestamp primary
  let headerLengthBytes :=
    kRedLastHeaderLength + kRedHeaderLength * s.fitCount rtpTimestamp primary
  let appended := appendRedundant primary.1.encodedTimestamp redundant
    (0, setSize encoded headerLengthBytes)
  let encoded := writeAt (appended.2 ++ primary.2) appended.1 [UInt8.ofNat primary.1.payloadType]
  let leaves := redundant.map fun e => e.1.toEncodedInfoLeaf
  let info := { primary.1 with
    redundant :=
      if kRedHeaderLength < headerLengthBytes then leaves ++ [primary.1.toEncodedInfoLeaf]
      else leaves }
  ({ info with payloadType := s.redPayloadType, encodedBytes := encoded.length }, encoded,
    { s with redundantEncodings := shift (info, primary.2) s.redundantEncodings })

/-- `EncodeImpl`, given the output of the speech encoder. -/
def encodeImpl (rtpTimestamp : BitVec 32) (primary : Encoding)
    (encoded : Buffer) : EncodedInfo × Buffer × AudioEncoderCopyRed :=
  if primary.1.encodedBytes = 0 then (primary.1, encoded, s)
  else if kRedMaxPacketSize ≤ primary.1.encodedBytes then (primary.1, encoded ++ primary.2, s)
  else s.encodeRed rtpTimestamp primary encoded

def reset : AudioEncoderCopyRed :=
  { s with redundantEncodings := List.replicate s.redundantEncodings.length ({}, []) }

def onReceivedOverhead (overheadBytesPerPacket : Nat) : AudioEncoderCopyRed :=
  { s with maxPacketLength := (kAudioMaxRtpPacketLen + kSizeT - overheadBytesPerPacket) % kSizeT }

end AudioEncoderCopyRed

/-- The fields of `Packet` that `SplitRed` reads and sets. -/
structure Packet where
  timestamp : BitVec 32
  sequenceNumber : BitVec 16
  payloadType : UInt8
  payload : Buffer
  redLevel : Nat := 0
deriving DecidableEq, Repr

namespace RedPayloadSplitter

structure RedHeader where
  payloadType : UInt8
  timestamp : BitVec 32
  payloadLength : Nat
deriving DecidableEq, Repr

def kMaxRedBlocks : Nat := 32

/-- The headers of the blocks that are not empty, and the payload after them. -/
def readHeaders (timestamp : BitVec 32) (size : Nat) :
    List UInt8 → Nat → Option (List RedHeader × List UInt8)
  | [], _ => none
  | b :: rest, sumLength =>
    if b &&& 0x80 = 0 then
      let sumLength := sumLength + kRedLastHeaderLength
      let payloadLength := (size + kSizeT - sumLength) % kSizeT
      some (if 0 < payloadLength then [⟨b &&& 0x7F, timestamp, payloadLength⟩] else [], rest)
    else
      match rest with
      | b1 :: b2 :: b3 :: rest =>
        let timestampOffset := (b1.toNat <<< 6) + ((b2.toNat &&& 0xFC) >>> 2)
        let payloadLength := ((b2.toNat &&& 0x03) <<< 8) + b3.toNat
        (readHeaders timestamp size rest (sumLength + payloadLength + kRedHeaderLength)).map
          fun read =>
            (if 0 < payloadLength then
              ⟨b &&& 0x7F, timestamp - BitVec.ofNat 32 timestampOffset, payloadLength⟩ :: read.1
            else read.1, read.2)
      | _ => none

/-- The loop of `SplitRed` that makes the new packets, each in front of the ones before. -/
def newPackets (redPacket : Packet) (count : Nat) :
    List RedHeader → Nat → List UInt8 → List Packet → Bool × List Packet
  | [], _, _, packets => (true, packets)
  | header :: rest, i, payload, packets =>
    if payload.length < header.payloadLength then (false, packets)
    else
      newPackets redPacket count rest (i + 1) (payload.drop header.payloadLength)
        ({ timestamp := header.timestamp
           sequenceNumber := redPacket.sequenceNumber
           payloadType := header.payloadType
           payload := payload.take header.payloadLength
           redLevel := count - 1 - i } :: packets)

/-- The loop of `SplitRed` over the packets; `done` has taken the place of those before. -/
def splitLoop : List Packet → List Packet → Bool → Bool × List Packet
  | [], done, ret => (ret, done)
  | redPacket :: rest, done, ret =>
    match readHeaders redPacket.timestamp redPacket.payload.length redPacket.payload 0 with
    | none => (false, done ++ redPacket :: rest)
    | some (newHeaders, payload) =>
      if newHeaders.length ≤ kMaxRedBlocks then
        let split := newPackets redPacket newHeaders.length newHeaders 0 payload []
        splitLoop rest (done ++ split.2) (ret && split.1)
      else splitLoop rest done false

def splitRed (packetList : List Packet) : Bool × List Packet := splitLoop packetList [] true

end RedPayloadSplitter

end Audio
