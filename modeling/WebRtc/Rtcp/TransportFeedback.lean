import WebRtc.Rtcp.CommonHeader
import WebRtc.Rtcp.LastChunk
import WebRtc.SequenceNumbers
import WebRtc.Units

/-!
# Transport-wide feedback

Model of `TransportFeedback` (`rtcp_packet/transport_feedback.{h,cc}`): building a message packet by
packet, serialising and parsing it, and the self-check `IsConsistent`. Times are microseconds, and
timestamps are natural numbers, as they are one-sided. A failed `RTC_DCHECK` is `none`, a returned
`false` is the first component of the result.
-/

namespace Rtcp

open ByteCodec SequenceNumbers Units

/-- `TransportFeedback::ReceivedPacket`; the delta is an `int16_t` number of ticks. -/
structure ReceivedPacket where
  sequenceNumber : BitVec 16
  deltaTicks : Int
deriving DecidableEq, Repr

structure TransportFeedback where
  senderSsrc : BitVec 32
  mediaSsrc : BitVec 32
  baseSeqNo : BitVec 16
  numSeqNo : Nat
  baseTimeTicks : Nat
  feedbackSeq : UInt8
  includeTimestamps : Bool
  lastTimestamp : Int
  receivedPackets : List ReceivedPacket
  encodedChunks : List Nat
  lastChunk : TransportFeedback.LastChunk
  sizeBytes : Nat
deriving DecidableEq, Repr

namespace TransportFeedback

def kFeedbackMessageType : Nat := 15

def kPacketType : UInt8 := 205

def kTransportFeedbackHeaderSizeBytes : Nat := 4 + 8 + 8

def kChunkSizeBytes : Nat := 2

def kMaxSizeBytes : Nat := 2 ^ 16 * 4

def kMinPayloadSizeBytes : Nat := 8 + 8 + 2

def kDeltaTick : Int := 250

def kBaseTimeTick : Int := kDeltaTick * 2 ^ 8

def kTimeWrapPeriod : Int := kBaseTimeTick * 2 ^ 24

def kMaxReportedPackets : Nat := 0xffff

def initial (includeTimestamps : Bool) : TransportFeedback where
  senderSsrc := 0
  mediaSsrc := 0
  baseSeqNo := 0
  numSeqNo := 0
  baseTimeTicks := 0
  feedbackSeq := 0
  includeTimestamps := includeTimestamps
  lastTimestamp := 0
  receivedPackets := []
  encodedChunks := []
  lastChunk := LastChunk.initial
  sizeBytes := kTransportFeedbackHeaderSizeBytes

variable (fb : TransportFeedback)

def baseTime : Int := kTimeWrapPeriod + fb.baseTimeTicks * kBaseTimeTick

def setBase (baseSequence : BitVec 16) (refTimestamp : Nat) : TransportFeedback :=
  let next := { fb with
    baseSeqNo := baseSequence
    baseTimeTicks := refTimestamp % kTimeWrapPeriod.toNat / kBaseTimeTick.toNat }
  { next with lastTimestamp := next.baseTime }

def setFeedbackSequenceNumber (feedbackSequence : UInt8) : TransportFeedback :=
  { fb with feedbackSeq := feedbackSequence }

def addDeltaSize (deltaSize : DeltaSize) : Option (Bool × TransportFeedback) :=
  if fb.numSeqNo = kMaxReportedPackets then some (false, fb)
  else
    let addChunkSize := if fb.lastChunk.isEmpty then kChunkSizeBytes else 0
    if fb.sizeBytes + deltaSize + addChunkSize > kMaxSizeBytes then some (false, fb)
    else if fb.lastChunk.canAdd deltaSize then
      (fb.lastChunk.add deltaSize).map fun chunk =>
        (true, { fb with
          sizeBytes := fb.sizeBytes + addChunkSize
          lastChunk := chunk
          numSeqNo := fb.numSeqNo + 1 })
    else if fb.sizeBytes + deltaSize + kChunkSizeBytes > kMaxSizeBytes then some (false, fb)
    else
      fb.lastChunk.emit.bind fun (code, rest) =>
        (rest.add deltaSize).map fun chunk =>
          (true, { fb with
            encodedChunks := fb.encodedChunks ++ [code]
            sizeBytes := fb.sizeBytes + kChunkSizeBytes
            lastChunk := chunk
            numSeqNo := fb.numSeqNo + 1 })

/-- The loop of `AddMissingPackets` that tops up the last chunk; gives the number of
packets still missing. -/
def addZeros : Nat → LastChunk → Option (Nat × LastChunk)
  | 0, chunk => some (0, chunk)
  | n + 1, chunk =>
    if chunk.canAdd 0 then (chunk.add 0).bind (addZeros n) else some (n + 1, chunk)

/-- The second half of `AddMissingPackets`: whole run-length chunks and a partial one. -/
def addMissingRuns (newNumSeqNo numMissingPackets : Nat) : Option (Bool × TransportFeedback) :=
  if fb.lastChunk.isEmpty then
    let fullChunks := numMissingPackets / LastChunk.kMaxRunLengthCapacity
    let partialChunk := numMissingPackets % LastChunk.kMaxRunLengthCapacity
    let numChunks := fullChunks + if partialChunk > 0 then 1 else 0
    if fb.sizeBytes + kChunkSizeBytes * numChunks > kMaxSizeBytes then
      some (false, { fb with numSeqNo := newNumSeqNo - numMissingPackets })
    else
      (fb.lastChunk.addMissingPackets partialChunk).map fun chunk =>
        (true, { fb with
          sizeBytes := fb.sizeBytes + kChunkSizeBytes * numChunks
          encodedChunks := fb.encodedChunks ++
            List.replicate fullChunks LastChunk.kMaxRunLengthCapacity
          lastChunk := chunk
          numSeqNo := newNumSeqNo })
  else none

def addMissingPackets (numMissingPackets : Nat) : Option (Bool × TransportFeedback) :=
  let newNumSeqNo := fb.numSeqNo + numMissingPackets
  if newNumSeqNo > kMaxReportedPackets then some (false, fb)
  else if fb.lastChunk.isEmpty then fb.addMissingRuns newNumSeqNo numMissingPackets
  else
    (addZeros numMissingPackets fb.lastChunk).bind fun (missing, chunk) =>
      if missing = 0 then some (true, { fb with lastChunk := chunk, numSeqNo := newNumSeqNo })
      else
        chunk.emit.bind fun (code, rest) =>
          addMissingRuns { fb with
            encodedChunks := fb.encodedChunks ++ [code]
            lastChunk := rest } newNumSeqNo missing

/-- The rounding of `AddReceivedPacket`: the ticks since the last timestamp, if an
`int16_t` can hold them. -/
def ticksSince (lastTimestamp : Int) (timestamp : Nat) : Option Int :=
  let behind := lastTimestamp - timestamp
  let shifted : Int :=
    if lastTimestamp > timestamp then
      timestamp + (behind + kTimeWrapPeriod - 1).tdiv kTimeWrapPeriod * kTimeWrapPeriod
    else timestamp
  let deltaFull := (shifted - lastTimestamp).tmod kTimeWrapPeriod
  let rounded :=
    if deltaFull > kTimeWrapPeriod.tdiv 2 then deltaFull - kTimeWrapPeriod - kDeltaTick.tdiv 2
    else deltaFull + kDeltaTick.tdiv 2
  let delta := rounded.tdiv kDeltaTick
  if -2 ^ 15 ≤ delta ∧ delta < 2 ^ 15 then some delta else none

def deltaSizeOf (delta : Int) : DeltaSize := if 0 ≤ delta ∧ delta ≤ 0xff then 1 else 2

def addReceivedPacket (sequenceNumber : BitVec 16) (timestamp : Nat) :
    Option (Bool × TransportFeedback) :=
  match if fb.includeTimestamps then ticksSince fb.lastTimestamp timestamp else some 0 with
  | none => some (false, fb)
  | some delta =>
    let nextSeqNo := fb.baseSeqNo + BitVec.ofNat 16 fb.numSeqNo
    let added :=
      if sequenceNumber = nextSeqNo then some (true, fb)
      else if isNewerSequenceNumber sequenceNumber (nextSeqNo - 1) then
        fb.addMissingPackets (sequenceNumber - nextSeqNo).toNat
      else some (false, fb)
    added.bind fun (ok, fb) =>
      if ok then
        (fb.addDeltaSize (deltaSizeOf delta)).map fun (ok, fb) =>
          if ok then
            (true, { fb with
              receivedPackets := fb.receivedPackets ++ [⟨sequenceNumber, delta⟩]
              lastTimestamp := fb.lastTimestamp + delta * kDeltaTick
              sizeBytes :=
                if fb.includeTimestamps then fb.sizeBytes + deltaSizeOf delta
                else fb.sizeBytes })
          else (false, fb)
      else some (false, fb)

/-- The chunks of `IsConsistent`, decoded one after the other. -/
def decodeChunks : LastChunk → List Nat → List DeltaSize
  | _, [] => []
  | decoder, chunk :: rest =>
    let next := decoder.decode chunk kMaxReportedPackets
    next.appendTo ++ decodeChunks next rest

/-- The loop over the delta sizes, with the timestamp, the size and the packets not accounted
for. -/
def checkDeltas (includeTimestamps : Bool) :
    BitVec 16 → Int → Nat → List ReceivedPacket → List DeltaSize →
      Option (Int × Nat × List ReceivedPacket)
  | _, timestamp, packetSize, packets, [] => some (timestamp, packetSize, packets)
  | seqNo, timestamp, packetSize, packets, deltaSize :: rest =>
    let nextSize := if includeTimestamps then packetSize + deltaSize else packetSize
    if deltaSize > 0 then
      match packets with
      | [] => none
      | packet :: packets =>
        if packet.sequenceNumber ≠ seqNo then none
        else if deltaSize = 1 ∧ (packet.deltaTicks < 0 ∨ packet.deltaTicks > 0xff) then none
        else
          checkDeltas includeTimestamps (seqNo + 1) (timestamp + packet.deltaTicks * kDeltaTick)
            nextSize packets rest
    else checkDeltas includeTimestamps (seqNo + 1) timestamp nextSize packets rest

def isConsistent : Bool :=
  let deltaSizes := decodeChunks LastChunk.initial fb.encodedChunks ++
    if fb.lastChunk.isEmpty then [] else fb.lastChunk.appendTo
  let packetSize := kTransportFeedbackHeaderSizeBytes + kChunkSizeBytes * fb.encodedChunks.length +
    if fb.lastChunk.isEmpty then 0 else kChunkSizeBytes
  if fb.numSeqNo ≠ deltaSizes.length then false
  else
    match checkDeltas fb.includeTimestamps fb.baseSeqNo fb.baseTime packetSize
        fb.receivedPackets deltaSizes with
    | none => false
    | some (timestamp, packetSize, packets) =>
      packets.isEmpty && timestamp == fb.lastTimestamp && fb.sizeBytes == packetSize

def blockLength : Nat := (fb.sizeBytes + 3) / 4 * 4

def paddingLength : Nat := fb.blockLength - fb.sizeBytes

def deltaBytes (packet : ReceivedPacket) : List UInt8 :=
  if 0 ≤ packet.deltaTicks ∧ packet.deltaTicks ≤ 0xff then [UInt8.ofNat packet.deltaTicks.toNat]
  else bytesBE 2 (packet.deltaTicks % 2 ^ 16).toNat

def chunkBytes : List UInt8 :=
  fb.encodedChunks.flatMap (fun chunk => bytesBE 2 chunk) ++
    if fb.lastChunk.isEmpty then [] else bytesBE 2 fb.lastChunk.encodeLast

def paddingBytes (paddingLength : Nat) : List UInt8 :=
  if paddingLength > 0 then List.replicate (paddingLength - 1) 0 ++ [UInt8.ofNat paddingLength]
  else []

/-- The payload `Create` writes after the common header, without the padding. -/
def payloadBytes : List UInt8 :=
  bytesBE 4 fb.senderSsrc.toNat ++ (bytesBE 4 fb.mediaSsrc.toNat ++
    (bytesBE 2 fb.baseSeqNo.toNat ++ (bytesBE 2 fb.numSeqNo ++
      (bytesBE 3 fb.baseTimeTicks ++ ([fb.feedbackSeq] ++ (fb.chunkBytes ++
          if fb.includeTimestamps then fb.receivedPackets.flatMap deltaBytes else []))))))

def packetBytes : List UInt8 :=
  createHeader kFeedbackMessageType kPacketType (headerLength fb.blockLength)
      (decide (fb.paddingLength > 0)) ++ (fb.payloadBytes ++ paddingBytes fb.paddingLength)

def create (maxLength : Nat) (buffer : Buffer) : Option Buffer :=
  if fb.numSeqNo = 0 then none
  else
    (ensureRoom fb.blockLength maxLength buffer).map fun room =>
      { room with written := room.written ++ fb.packetBytes }

/-- The chunk loop of `Parse`: the delta sizes and chunks read, the decoder, and the rest. -/
def readChunks (statusCount : Nat) (deltaSizes : List DeltaSize) (chunks : List Nat)
    (decoder : LastChunk) :
    List UInt8 → Option (List DeltaSize × List Nat × LastChunk × List UInt8)
  | b0 :: b1 :: rest =>
    if deltaSizes.length < statusCount then
      let chunk := natBE [b0, b1]
      let next := decoder.decode chunk (statusCount - deltaSizes.length)
      readChunks statusCount (deltaSizes ++ next.appendTo) (chunks ++ [chunk]) next rest
    else some (deltaSizes, chunks, decoder, b0 :: b1 :: rest)
  | bytes =>
    if deltaSizes.length < statusCount then none else some (deltaSizes, chunks, decoder, bytes)

def readInt16 (bytes : List UInt8) : Int :=
  if natBE bytes < 2 ^ 15 then natBE bytes else natBE bytes - 2 ^ 16

/-- The delta loop of `Parse`, entered when there are enough bytes for all deltas. Size 3
is invalid. -/
def readDeltas (seqNo : BitVec 16) :
    List DeltaSize → List UInt8 → Option (List ReceivedPacket × List UInt8)
  | [], bytes => some ([], bytes)
  | 0 :: sizes, bytes => readDeltas (seqNo + 1) sizes bytes
  | 1 :: sizes, b0 :: bytes =>
    (readDeltas (seqNo + 1) sizes bytes).map fun (packets, rest) =>
      (⟨seqNo, b0.toNat⟩ :: packets, rest)
  | 2 :: sizes, b0 :: b1 :: bytes =>
    (readDeltas (seqNo + 1) sizes bytes).map fun (packets, rest) =>
      (⟨seqNo, readInt16 [b0, b1]⟩ :: packets, rest)
  | _, _ => none

def readStatuses (seqNo : BitVec 16) : List DeltaSize → List ReceivedPacket
  | [] => []
  | deltaSize :: sizes =>
    if deltaSize > 0 then ⟨seqNo, 0⟩ :: readStatuses (seqNo + 1) sizes
    else readStatuses (seqNo + 1) sizes

def clear (fb : TransportFeedback) : TransportFeedback :=
  { fb with
    numSeqNo := 0
    lastTimestamp := fb.baseTime
    receivedPackets := []
    encodedChunks := []
    lastChunk := fb.lastChunk.clear
    sizeBytes := kTransportFeedbackHeaderSizeBytes }

/-- The fields `Parse` reads before the chunks, stored in the cleared object. -/
def parseFixed (self : TransportFeedback) (payload : List UInt8) : TransportFeedback :=
  clear { self with
    senderSsrc := BitVec.ofNat 32 (natBE (payload.take 4))
    mediaSsrc := BitVec.ofNat 32 (natBE ((payload.drop 4).take 4))
    baseSeqNo := BitVec.ofNat 16 (natBE ((payload.drop 8).take 2))
    baseTimeTicks := natBE ((payload.drop 12).take 3)
    feedbackSeq := (payload.drop 15).headD 0 }

def deltaSum (packets : List ReceivedPacket) : Int :=
  (packets.map fun packet => packet.deltaTicks * kDeltaTick).sum

def recvDeltaSize (deltaSizes : List DeltaSize) : Nat := deltaSizes.sum

def parse (self : TransportFeedback) (packet : CommonHeader) : Option TransportFeedback :=
  let payload := packet.payload
  if payload.length < kMinPayloadSizeBytes then none
  else
    let fixed := self.parseFixed payload
    let statusCount := natBE ((payload.drop 10).take 2)
    if statusCount = 0 then none
    else
      (readChunks statusCount [] [] fixed.lastChunk (payload.drop 16)).bind
        fun (deltaSizes, chunks, decoder, rest) =>
          let index := payload.length - rest.length
          let counted := { fixed with
            encodedChunks := chunks.dropLast
            lastChunk := decoder
            numSeqNo := statusCount }
          if payload.length ≥ index + recvDeltaSize deltaSizes then
            (readDeltas fixed.baseSeqNo deltaSizes rest).map fun (packets, rest) =>
              { counted with
                receivedPackets := packets
                lastTimestamp := counted.lastTimestamp + deltaSum packets
                sizeBytes := kHeaderLength + (payload.length - rest.length) }
          else
            some { counted with
              includeTimestamps := false
              receivedPackets := readStatuses fixed.baseSeqNo deltaSizes
              sizeBytes := kHeaderLength + index }

def parseFrom (buffer : List UInt8) : Option TransportFeedback :=
  (CommonHeader.parse buffer).bind fun header =>
    if header.packetType ≠ kPacketType ∨ header.countOrFormat ≠ UInt8.ofNat kFeedbackMessageType
    then none
    else parse (initial true) header

/-- The packets `ForAllPackets` calls its handler with. -/
def forAllPacketsFrom : Nat → BitVec 16 → Int → List ReceivedPacket → List (BitVec 16 × TimeDelta)
  | 0, _, _, _ => []
  | n + 1, seqNum, deltaSinceBase, received =>
    match received with
    | packet :: rest =>
      if packet.sequenceNumber = seqNum then
        let delta := deltaSinceBase + packet.deltaTicks * kDeltaTick
        (seqNum, .finite delta) :: forAllPacketsFrom n (seqNum + 1) delta rest
      else (seqNum, .plusInfinity) :: forAllPacketsFrom n (seqNum + 1) deltaSinceBase received
    | [] => (seqNum, .plusInfinity) :: forAllPacketsFrom n (seqNum + 1) deltaSinceBase []

def forAllPackets : List (BitVec 16 × TimeDelta) :=
  forAllPacketsFrom fb.numSeqNo fb.baseSeqNo 0 fb.receivedPackets

def getBaseDelta (prevTimestamp : Int) : Int :=
  let delta := fb.baseTime - prevTimestamp
  if (delta - kTimeWrapPeriod).natAbs < delta.natAbs then delta - kTimeWrapPeriod
  else if (delta + kTimeWrapPeriod).natAbs < delta.natAbs then delta + kTimeWrapPeriod
  else delta

end TransportFeedback

end Rtcp
