import WebRtc.Rtp.BitFields
import WebRtc.Rtp.PayloadSplit

/-!
# VP9 payload descriptors

Model of `modules/rtp_rtcp/source/rtp_format_vp9.cc` (`RtpPacketizerVp9`) and of
`modules/rtp_rtcp/source/video_rtp_depacketizer_vp9.cc` (`VideoRtpDepacketizerVp9`), with the
structures of `vp9_globals.h`. An array is a function of its index. A failed `RTC_CHECK` ends the
process and is a `none`. The sums of `SplitAboutEqually` are exact here.
-/

namespace Rtp.Vp9

open EventLog

def kNoPictureId : Int := -1
def kNoTl0PicIdx : Int := -1
def kNoTemporalIdx : BitVec 8 := 0xFF
def kNoSpatialIdx : BitVec 8 := 0xFF
def kMaxOneBytePictureId : Int := 0x7F
def kMaxTwoBytePictureId : Int := 0x7FFF
def kMaxVp9RefPics : Nat := 3
def kMaxVp9FramesInGof : Nat := 0xFF
def kMaxVp9NumberOfSpatialLayers : Nat := 8
def kMaxSpatialLayers : Nat := 5
def kFixedPayloadDescriptorBytes : Nat := 1

/-- `GofInfoVP9`, without `pid_start`, which is not sent. -/
structure GofInfoVP9 where
  numFramesInGof : Nat := 0
  temporalIdx : Nat → BitVec 8 := fun _ => 0
  temporalUpSwitch : Nat → Bool := fun _ => false
  numRefPics : Nat → BitVec 8 := fun _ => 0
  pidDiff : Nat → Nat → BitVec 8 := fun _ _ => 0

/-- Without `gof_idx`, which is not sent. The defaults are those of `InitRTPVideoHeaderVP9`. -/
structure RTPVideoHeaderVP9 where
  interPicPredicted : Bool := false
  flexibleMode : Bool := false
  beginningOfFrame : Bool := false
  endOfFrame : Bool := false
  ssDataAvailable : Bool := false
  nonRefForInterLayerPred : Bool := false
  pictureId : Int := kNoPictureId
  maxPictureId : Int := kMaxTwoBytePictureId
  tl0PicIdx : Int := kNoTl0PicIdx
  temporalIdx : BitVec 8 := kNoTemporalIdx
  spatialIdx : BitVec 8 := kNoSpatialIdx
  temporalUpSwitch : Bool := false
  interLayerPredicted : Bool := false
  numRefPics : Nat := 0
  pidDiff : Nat → BitVec 8 := fun _ => 0
  refPictureId : Nat → Int := fun _ => 0
  numSpatialLayers : Nat := 1
  firstActiveLayer : Nat := 0
  spatialLayerResolutionPresent : Bool := false
  width : Nat → BitVec 16 := fun _ => 0
  height : Nat → BitVec 16 := fun _ => 0
  gof : GofInfoVP9 := {}
  endOfPicture : Bool := true

variable (hdr : RTPVideoHeaderVP9)

def temporalIdxField (default : BitVec 8) : BitVec 8 :=
  if hdr.temporalIdx = kNoTemporalIdx then default else hdr.temporalIdx

def spatialIdxField (default : BitVec 8) : BitVec 8 :=
  if hdr.spatialIdx = kNoSpatialIdx then default else hdr.spatialIdx

def tl0PicIdxField (default : Int) : Int :=
  if hdr.tl0PicIdx = kNoTl0PicIdx then default else hdr.tl0PicIdx

def pictureIdLength : Nat :=
  if hdr.pictureId = kNoPictureId then 0
  else if hdr.maxPictureId = kMaxOneBytePictureId then 1 else 2

def pictureIdPresent : Bool := decide (0 < pictureIdLength hdr)

def layerInfoLength : Nat :=
  if hdr.temporalIdx = kNoTemporalIdx ∧ hdr.spatialIdx = kNoSpatialIdx then 0
  else if hdr.flexibleMode then 1 else 2

def layerInfoPresent : Bool := decide (0 < layerInfoLength hdr)

def refIndicesLength : Option Nat :=
  if !hdr.interPicPredicted || !hdr.flexibleMode then some 0
  else if 0 < hdr.numRefPics ∧ hdr.numRefPics ≤ kMaxVp9RefPics then some hdr.numRefPics
  else none

/-- The checks of `SsDataLength` and `WriteSsData` on the size of the structure. -/
def ssDataChecks : Bool :=
  decide (0 < hdr.numSpatialLayers) &&
    decide (hdr.numSpatialLayers ≤ kMaxVp9NumberOfSpatialLayers) &&
    decide (hdr.gof.numFramesInGof ≤ kMaxVp9FramesInGof)

def ssDataLength : Option Nat :=
  if !hdr.ssDataAvailable then some 0
  else if !ssDataChecks hdr then none
  else if !(List.range hdr.gof.numFramesInGof).all
      fun i => decide ((hdr.gof.numRefPics i).toNat ≤ kMaxVp9RefPics) then none
  else some (1 + (if hdr.spatialLayerResolutionPresent then 4 * hdr.numSpatialLayers else 0) +
    (if hdr.gof.numFramesInGof > 0 then 1 else 0) + hdr.gof.numFramesInGof +
    ((List.range hdr.gof.numFramesInGof).map fun i => (hdr.gof.numRefPics i).toNat).sum)

def payloadDescriptorLengthMinusSsData : Option Nat :=
  (refIndicesLength hdr).map fun length =>
    kFixedPayloadDescriptorBytes + pictureIdLength hdr + layerInfoLength hdr + length

variable (vp9 : RTPVideoHeaderVP9)

def writePictureId : Writing Unit := do
  let mBit := pictureIdLength vp9 == 2
  Writing.writeBit mBit
  Writing.writeBits (BitVec.ofInt 64 vp9.pictureId) (if mBit then 15 else 7)

def writeLayerInfoCommon : Writing Unit := do
  Writing.writeBits ((temporalIdxField vp9 0).setWidth 64) 3
  Writing.writeBit vp9.temporalUpSwitch
  Writing.writeBits ((spatialIdxField vp9 0).setWidth 64) 3
  Writing.writeBit vp9.interLayerPredicted

/-- `WriteLayerInfoNonFlexibleMode`; the argument of `WriteUInt8` is converted to `uint8_t`. -/
def writeLayerInfoNonFlexibleMode : Writing Unit :=
  Writing.writeBits ((BitVec.ofInt 8 (tl0PicIdxField vp9 0)).setWidth 64) 8

def writeLayerInfo : Writing Unit := do
  writeLayerInfoCommon vp9
  Writing.writeIf (!vp9.flexibleMode) (writeLayerInfoNonFlexibleMode vp9)

def writeRefIndices : Writing Unit := do
  Writing.check
    !(!pictureIdPresent vp9 || vp9.numRefPics == 0 || decide (vp9.numRefPics > kMaxVp9RefPics))
  (List.range vp9.numRefPics).forM fun i => do
    let nBit := !(i == vp9.numRefPics - 1)
    Writing.writeBits ((vp9.pidDiff i).setWidth 64) 7
    Writing.writeBit nBit

def writeResolutions : Writing Unit :=
  (List.range vp9.numSpatialLayers).forM fun i => do
    Writing.writeBits ((vp9.width i).setWidth 64) 16
    Writing.writeBits ((vp9.height i).setWidth 64) 16

def writeGofFrame (gof : GofInfoVP9) (i : Nat) : Writing Unit := do
  Writing.writeBits ((gof.temporalIdx i).setWidth 64) 3
  Writing.writeBit (gof.temporalUpSwitch i)
  Writing.writeBits ((gof.numRefPics i).setWidth 64) 2
  Writing.writeBits 0 2
  (List.range (gof.numRefPics i).toNat).forM fun r =>
    Writing.writeBits ((gof.pidDiff i r).setWidth 64) 8

def writeSsData : Writing Unit := do
  Writing.check (ssDataChecks vp9)
  let gBit := decide (vp9.gof.numFramesInGof > 0)
  Writing.writeBits (BitVec.ofNat 64 (vp9.numSpatialLayers - 1)) 3
  Writing.writeBit vp9.spatialLayerResolutionPresent
  Writing.writeBit gBit
  Writing.writeBits 0 3
  Writing.writeIf vp9.spatialLayerResolutionPresent (writeResolutions vp9)
  Writing.writeIf gBit (Writing.writeBits (BitVec.ofNat 64 vp9.gof.numFramesInGof) 8)
  (List.range vp9.gof.numFramesInGof).forM (writeGofFrame vp9.gof)

def writeDescriptor (layerBegin layerEnd : Bool) : Writing Unit := do
  let iBit := pictureIdPresent hdr
  let pBit := hdr.interPicPredicted
  let lBit := layerInfoPresent hdr
  let fBit := hdr.flexibleMode
  let vBit := hdr.ssDataAvailable && layerBegin
  Writing.writeBit iBit
  Writing.writeBit pBit
  Writing.writeBit lBit
  Writing.writeBit fBit
  Writing.writeBit layerBegin
  Writing.writeBit layerEnd
  Writing.writeBit vBit
  Writing.writeBit hdr.nonRefForInterLayerPred
  Writing.writeIf iBit (writePictureId hdr)
  Writing.writeIf lBit (writeLayerInfo hdr)
  Writing.writeIf (pBit && fBit) (writeRefIndices hdr)
  Writing.writeIf vBit (writeSsData hdr)

/-- `WriteHeader`, over a buffer of `size` bytes: what the buffer holds afterwards. -/
def writeHeader (layerBegin layerEnd : Bool) (size : Nat) : Option (List (BitVec 8)) :=
  (writeDescriptor hdr layerBegin layerEnd (BitBufferWriter.ofByteCount size)).map
    fun result => result.2.writableBytes

def removeInactiveSpatialLayers (originalHeader : RTPVideoHeaderVP9) : Option RTPVideoHeaderVP9 :=
  if originalHeader.numSpatialLayers ≤ kMaxVp9NumberOfSpatialLayers then
    if originalHeader.firstActiveLayer = 0 then some originalHeader
    else
      let first := originalHeader.firstActiveLayer
      let layers := originalHeader.numSpatialLayers
      -- the entries move down by `first`, and zeros follow; nothing moves when `first` is too large
      let moved := fun (entries : Nat → BitVec 16) i =>
        if layers < first then entries i
        else if i + first < layers then entries (i + first)
        else if i < layers then 0
        else entries i
      some { originalHeader with
        width := moved originalHeader.width
        height := moved originalHeader.height
        numSpatialLayers := (layers + 2 ^ 64 - first % 2 ^ 64) % 2 ^ 64
        spatialIdx := originalHeader.spatialIdx - BitVec.ofNat 8 first
        firstActiveLayer := 0 }
  else none

structure RtpPacketizerVp9 where
  hdr : RTPVideoHeaderVP9
  headerSize : Nat
  firstPacketExtraHeaderSize : Nat
  remainingPayload : List (BitVec 8)
  payloadSizes : List Int
  currentPacket : Nat

/-- The payload and the marker bit of an RTP packet. -/
structure RtpPacketToSend where
  payload : List (BitVec 8)
  marker : Bool
deriving DecidableEq, Repr

def intOfSize (size : Nat) : Int := (size : Int).bmod 4294967296

namespace RtpPacketizerVp9

/-- The limits for the payload proper: less the descriptor, and the structure in the first packet. -/
def descriptorLimits (limits : PayloadSizeLimits) (headerSize firstPacketExtraHeaderSize : Nat) :
    PayloadSizeLimits :=
  { limits with
    maxPayloadLen := limits.maxPayloadLen - headerSize
    firstPacketReductionLen := limits.firstPacketReductionLen + firstPacketExtraHeaderSize
    singlePacketReductionLen := limits.singlePacketReductionLen + firstPacketExtraHeaderSize }

def ofPayload (payload : List (BitVec 8)) (limits : PayloadSizeLimits) (hdr : RTPVideoHeaderVP9) :
    Option RtpPacketizerVp9 := do
  let hdr ← removeInactiveSpatialLayers hdr
  let headerSize ← payloadDescriptorLengthMinusSsData hdr
  let firstPacketExtraHeaderSize ← ssDataLength hdr
  guard (hdr.firstActiveLayer = 0)
  let payloadSizes ←
    (if payload.isEmpty then some []
      else splitWith id (intOfSize payload.length)
        (descriptorLimits limits headerSize firstPacketExtraHeaderSize))
  return ⟨hdr, headerSize, firstPacketExtraHeaderSize, payload, payloadSizes, 0⟩

def numPackets (p : RtpPacketizerVp9) : Nat := p.payloadSizes.length - p.currentPacket

/-- The `RTC_CHECK` at the end of `NextPacket`; the difference of the `size_t` wraps. -/
def endOfPictureCheck : Bool :=
  decide (hdr.spatialIdx.toNat < (hdr.numSpatialLayers + 2 ^ 64 - 1) % 2 ^ 64) || hdr.endOfPicture

/-- `NextPacket`: the packet, or `none` for the return value false, and the packetizer. -/
def nextPacket (p : RtpPacketizerVp9) : Option (Option RtpPacketToSend × RtpPacketizerVp9) :=
  match p.payloadSizes[p.currentPacket]? with
  | none => some (none, p)
  | some packetPayloadLen =>
    let layerBegin := p.currentPacket == 0
    let layerEnd := p.currentPacket + 1 == p.payloadSizes.length
    let headerSize := p.headerSize + if layerBegin then p.firstPacketExtraHeaderSize else 0
    match writeHeader p.hdr layerBegin layerEnd headerSize with
    | none => some (none, { p with currentPacket := p.currentPacket + 1 })
    | some buffer =>
      if endOfPictureCheck p.hdr then
        some (some ⟨buffer ++ p.remainingPayload.take packetPayloadLen.toNat,
            layerEnd && p.hdr.endOfPicture⟩,
          { p with
            currentPacket := p.currentPacket + 1
            remainingPayload := p.remainingPayload.drop packetPayloadLen.toNat })
      else none

/-- The packets of `count` calls of `NextPacket`, up to one that returns false. -/
def nextPackets : Nat → RtpPacketizerVp9 → Option (List RtpPacketToSend)
  | 0, _ => some []
  | count + 1, p =>
    match p.nextPacket with
    | none => none
    | some (none, _) => some []
    | some (some packet, p) => (nextPackets count p).map (packet :: ·)

end RtpPacketizerVp9

/-- The packets of a frame: a packetizer for it, and `NumPackets` calls of `NextPacket`. -/
def packetize (payload : List (BitVec 8)) (limits : PayloadSizeLimits) (hdr : RTPVideoHeaderVP9) :
    Option (List RtpPacketToSend) := do
  let p ← RtpPacketizerVp9.ofPayload payload limits hdr
  p.nextPackets p.numPackets

def parsePictureId : Reading RTPVideoHeaderVP9 := do
  let mBit ← Reading.readBit
  if mBit then
    let pictureId ← Reading.readBits 15
    return { vp9 with pictureId := pictureId.toNat, maxPictureId := kMaxTwoBytePictureId }
  else
    let pictureId ← Reading.readBits 7
    return { vp9 with pictureId := pictureId.toNat, maxPictureId := kMaxOneBytePictureId }

def parseLayerInfo : Reading RTPVideoHeaderVP9 := do
  let temporalIdx ← Reading.readBits 3
  let temporalUpSwitch ← Reading.readBit
  let spatialIdx ← Reading.readBits 3
  let interLayerPredicted ← Reading.readBit
  let vp9 := { vp9 with
    temporalIdx := temporalIdx.setWidth 8
    temporalUpSwitch := temporalUpSwitch
    spatialIdx := spatialIdx.setWidth 8
    interLayerPredicted := interLayerPredicted }
  if vp9.spatialIdx.toNat ≥ kMaxSpatialLayers then
    Reading.invalidate
    return vp9
  else if !vp9.flexibleMode then
    let tl0PicIdx ← Reading.readByte
    return { vp9 with tl0PicIdx := tl0PicIdx.toNat }
  else return vp9

/-- The picture id at the distance `pDiff` before `pictureId`. -/
def referencePictureId (pictureId maxPictureId : Int) (pDiff : BitVec 8) : Int :=
  let scaledPid :=
    if (pDiff.toNat : Int) > pictureId then pictureId + (maxPictureId + 1) else pictureId
  scaledPid - pDiff.toNat

/-- The body of the loop of `ParseRefIndices`, with the distance that was read. -/
def addReference (pDiff : BitVec 8) : RTPVideoHeaderVP9 :=
  { vp9 with
    pidDiff := Function.update vp9.pidDiff vp9.numRefPics pDiff
    refPictureId := Function.update vp9.refPictureId vp9.numRefPics
      (referencePictureId vp9.pictureId vp9.maxPictureId pDiff)
    numRefPics := vp9.numRefPics + 1 }

/-- The loop of `ParseRefIndices`, with the number of references that still have a place. -/
def parseRefLoop : Nat → RTPVideoHeaderVP9 → Reading RTPVideoHeaderVP9
  | 0, vp9 => do
    Reading.invalidate
    return vp9
  | places + 1, vp9 => do
    let pDiff ← Reading.readBits 7
    let nBit ← Reading.readBit
    let vp9 := addReference vp9 (pDiff.setWidth 8)
    if nBit then parseRefLoop places vp9 else return vp9

def parseRefIndices : Reading RTPVideoHeaderVP9 := do
  if vp9.pictureId = kNoPictureId then
    Reading.invalidate
    return vp9
  else parseRefLoop kMaxVp9RefPics { vp9 with numRefPics := 0 }

def parseResolution (sizes : (Nat → BitVec 16) × (Nat → BitVec 16)) (i : Nat) :
    Reading ((Nat → BitVec 16) × (Nat → BitVec 16)) := do
  let width ← Reading.readUInt16
  let height ← Reading.readUInt16
  return (Function.update sizes.1 i width, Function.update sizes.2 i height)

def parsePidDiff (pidDiff : Nat → BitVec 8) (p : Nat) : Reading (Nat → BitVec 8) := do
  let diff ← Reading.readByte
  return Function.update pidDiff p diff

def parseGofFrame (gof : GofInfoVP9) (i : Nat) : Reading GofInfoVP9 := do
  let temporalIdx ← Reading.readBits 3
  let temporalUpSwitch ← Reading.readBit
  let numRefPics ← Reading.readBits 2
  Reading.consumeBits 2
  let pidDiff ← (List.range numRefPics.toNat).foldlM parsePidDiff (gof.pidDiff i)
  return { gof with
    temporalIdx := Function.update gof.temporalIdx i (temporalIdx.setWidth 8)
    temporalUpSwitch := Function.update gof.temporalUpSwitch i temporalUpSwitch
    numRefPics := Function.update gof.numRefPics i (numRefPics.setWidth 8)
    pidDiff := Function.update gof.pidDiff i pidDiff }

def parseNumFramesInGof : Reading Nat := do
  let frames ← Reading.readByte
  return frames.toNat

def parseSsData : Reading RTPVideoHeaderVP9 := do
  let layers ← Reading.readBits 3
  let resolutionPresent ← Reading.readBit
  let gBit ← Reading.readBit
  Reading.consumeBits 3
  let numSpatialLayers := layers.toNat + 1
  let sizes ← Reading.readIf resolutionPresent
    ((List.range numSpatialLayers).foldlM parseResolution (vp9.width, vp9.height))
    (vp9.width, vp9.height)
  let numFramesInGof ← Reading.readIf gBit parseNumFramesInGof 0
  let gof ← (List.range numFramesInGof).foldlM parseGofFrame
    { vp9.gof with numFramesInGof := numFramesInGof }
  return { vp9 with
    numSpatialLayers := numSpatialLayers
    spatialLayerResolutionPresent := resolutionPresent
    width := sizes.1
    height := sizes.2
    gof := gof }

inductive VideoFrameType where
  | videoFrameKey
  | videoFrameDelta
deriving DecidableEq, Repr

/-- The fields of `RTPVideoHeader` that the depacketizer sets. -/
structure RTPVideoHeader where
  width : BitVec 16
  height : BitVec 16
  frameType : VideoFrameType
  isFirstPacketInFrame : Bool
  isLastPacketInFrame : Bool
  vp9 : RTPVideoHeaderVP9

structure ParsedRtpPayload where
  videoHeader : RTPVideoHeader
  videoPayload : List (BitVec 8)

/-- The reads of `ParseRtpPayload` behind the first byte. -/
def parseFields (iBit pBit lBit fBit bBit eBit vBit zBit : Bool) : Reading RTPVideoHeader := do
  let vp9 : RTPVideoHeaderVP9 :=
    { interPicPredicted := pBit
      flexibleMode := fBit
      beginningOfFrame := bBit
      endOfFrame := eBit
      ssDataAvailable := vBit
      nonRefForInterLayerPred := zBit }
  let vp9 ← Reading.readIf iBit (parsePictureId vp9) vp9
  let vp9 ← Reading.readIf lBit (parseLayerInfo vp9) vp9
  let vp9 ← Reading.readIf (pBit && fBit) (parseRefIndices vp9) vp9
  let vp9 ← Reading.readIf vBit (parseSsData vp9) vp9
  let sized := vBit && vp9.spatialLayerResolutionPresent
  return {
    width := if sized then vp9.width 0 else 0
    height := if sized then vp9.height 0 else 0
    frameType := if pBit || vp9.interLayerPredicted then .videoFrameDelta else .videoFrameKey
    isFirstPacketInFrame := bBit
    isLastPacketInFrame := eBit
    vp9 := vp9 }

def parseDescriptor : Reading RTPVideoHeader := do
  let firstByte ← Reading.readByte
  parseFields
    ((firstByte &&& 0b10000000) != 0)
    ((firstByte &&& 0b01000000) != 0)
    ((firstByte &&& 0b00100000) != 0)
    ((firstByte &&& 0b00010000) != 0)
    ((firstByte &&& 0b00001000) != 0)
    ((firstByte &&& 0b00000100) != 0)
    ((firstByte &&& 0b00000010) != 0)
    ((firstByte &&& 0b00000001) != 0)

/-- `Parse`; `none` for `nullopt`, and where the constructor of the reader aborts. -/
def parse (rtpPayload : List (BitVec 8)) : Option ParsedRtpPayload := do
  let parser ← BitstreamReader.ofInput rtpPayload
  let (videoHeader, parser) := parseDescriptor parser
  let numRemainingBits := parser.remainingBits
  if numRemainingBits ≤ 0 then none
  else
    let offset := rtpPayload.length - (numRemainingBits / 8).toNat
    -- `Parse` takes an offset of 0 for a failure
    if offset = 0 then none else some ⟨videoHeader, rtpPayload.drop offset⟩

end Rtp.Vp9
