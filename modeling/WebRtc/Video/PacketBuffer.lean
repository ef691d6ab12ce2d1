import WebRtc.Video.NackRequester

/-!
# The packet buffer

Model of `modules/video_coding/packet_buffer.cc`. A call fails where an `RTC_DCHECK` on the contents
of a slot does. The sets of sequence numbers are the lists of the NACK requester, and each call is
given the way in which it searches them.
-/

namespace Video

open SequenceNumbers TreeSearch

inductive VideoCodecType where
  | generic
  | vp8
  | vp9
  | av1
  | h264
  | h265
deriving DecidableEq

inductive VideoFrameType where
  | emptyFrame
  | videoFrameKey
  | videoFrameDelta
deriving DecidableEq

/-- The types of NAL units that the buffer tells apart. -/
inductive NaluType where
  | idr
  | sps
  | pps
  | other
deriving DecidableEq

/-- What the buffer uses: whether there is a generic descriptor, and the units of H.264. -/
structure RTPVideoHeader where
  codec : VideoCodecType
  isFirstPacketInFrame : Bool
  isLastPacketInFrame : Bool
  generic : Bool
  nalus : Option (List NaluType)
  frameType : VideoFrameType
  width : Nat
  height : Nat
deriving DecidableEq

/-- `PacketBuffer::Packet`; the fields that the buffer does not read are the contents. -/
structure Packet (β : Type) where
  continuous : Bool
  sequenceNumber : Int
  timestamp : BitVec 32
  videoHeader : RTPVideoHeader
  contents : β
deriving DecidableEq

namespace Packet

variable {β : Type}

def seqNum (packet : Packet β) : BitVec 16 := .ofInt 16 packet.sequenceNumber

def isFirstPacketInFrame (packet : Packet β) : Bool := packet.videoHeader.isFirstPacketInFrame

def isLastPacketInFrame (packet : Packet β) : Bool := packet.videoHeader.isLastPacketInFrame

def codec (packet : Packet β) : VideoCodecType := packet.videoHeader.codec

def setContinuous (packet : Packet β) (continuous : Bool) : Packet β :=
  { packet with continuous := continuous }

def setBoundaries (packet : Packet β) (first last : Bool) : Packet β :=
  { packet with
    videoHeader := { packet.videoHeader with
      isFirstPacketInFrame := first
      isLastPacketInFrame := last } }

end Packet

structure PacketBuffer (β : Type) where
  maxSize : Nat
  firstSeqNum : BitVec 16
  firstPacketReceived : Bool
  isClearedToFirstSeqNum : Bool
  buffer : List (Option (Packet β))
  newestInsertedSeqNum : Option (BitVec 16)
  missingPackets : List (BitVec 16)
  receivedPadding : List (BitVec 16)
  spsPpsIdrIsH264Keyframe : Bool

structure InsertResult (β : Type) where
  packets : List (Packet β)
  bufferCleared : Bool

namespace PacketBuffer

variable {β : Type}

def initial (startBufferSize maxBufferSize : Nat) : PacketBuffer β where
  maxSize := maxBufferSize
  firstSeqNum := 0
  firstPacketReceived := false
  isClearedToFirstSeqNum := false
  buffer := List.replicate startBufferSize none
  newestInsertedSeqNum := none
  missingPackets := []
  receivedPadding := []
  spsPpsIdrIsH264Keyframe := false

variable (q : PacketBuffer β)

def index (seqNum : BitVec 16) : Nat := seqNum.toNat % q.buffer.length

def entry (index : Nat) : Option (Packet β) := q.buffer[index]?.join

def setEntry (index : Nat) (packet : Option (Packet β)) : PacketBuffer β :=
  { q with buffer := q.buffer.set index packet }

def previousIndex (index : Nat) : Nat :=
  if index > 0 then index - 1 else q.buffer.length - 1

def clearInternal : PacketBuffer β :=
  { q with
    buffer := q.buffer.map fun _ => none
    firstPacketReceived := false
    isClearedToFirstSeqNum := false
    newestInsertedSeqNum := none
    missingPackets := []
    receivedPadding := [] }

/-- The loop of `ExpandBufferSize`: the slots of a new buffer are filled from the old one. -/
def rehash (newSize : Nat) (newBuffer cells : List (Option (Packet β))) : List (Option (Packet β)) :=
  cells.foldl (fun newBuffer entry =>
    match entry with
    | none => newBuffer
    | some packet => newBuffer.set (packet.seqNum.toNat % newSize) (some packet)) newBuffer

/-- `ExpandBufferSize`, if the buffer can grow. -/
def expandBufferSize : Option (PacketBuffer β) :=
  if q.buffer.length = q.maxSize then none
  else
    let newSize := min q.maxSize (2 * q.buffer.length)
    some { q with buffer := rehash newSize (List.replicate newSize none) q.buffer }

/-- Expands the buffer, by one slot at least, so the missing slots bound the rounds. -/
def expandWhileFull (seqNum : BitVec 16) : Nat → PacketBuffer β → PacketBuffer β
  | 0, q => q
  | rounds + 1, q =>
    match q.expandBufferSize with
    | none => q
    | some q =>
      match q.entry (q.index seqNum) with
      | none => q
      | some _ => expandWhileFull seqNum rounds q

def potentialNewFrame (seqNum : BitVec 16) : Bool :=
  match q.entry (q.index seqNum) with
  | none => false
  | some packet =>
    if packet.seqNum ≠ seqNum then false
    else if packet.isFirstPacketInFrame then true
    else
      match q.entry (q.previousIndex (q.index seqNum)) with
      | none => false
      | some previous =>
        if previous.seqNum ≠ packet.seqNum - 1 then false
        else if previous.timestamp ≠ packet.timestamp then false
        else previous.continuous

def kMaxPaddingAge : BitVec 16 := 1000

def insertMissing (search : Search (BitVec 16)) : Nat → BitVec 16 → List (BitVec 16) → List (BitVec 16)
  | 0, _, missing => missing
  | n + 1, newest, missing => insertMissing search n (newest + 1) (insertKey search missing newest)

variable (search : Search (BitVec 16))

def updateMissingPackets (q : PacketBuffer β) (seqNum : BitVec 16) : PacketBuffer β :=
  let newest := q.newestInsertedSeqNum.getD seqNum
  if aheadOf seqNum newest then
    let oldSeqNum := seqNum - kMaxPaddingAge
    let missing := q.missingPackets.drop (lowerBound search q.missingPackets oldSeqNum)
    let newest := (if aheadOf oldSeqNum newest then oldSeqNum else newest) + 1
    { q with
      newestInsertedSeqNum := some seqNum
      missingPackets := insertMissing search (forwardDiff newest seqNum).toNat newest missing }
  else
    { q with
      newestInsertedSeqNum := some newest
      missingPackets :=
        match find search q.missingPackets seqNum with
        | none => q.missingPackets
        | some i => q.missingPackets.eraseIdx i }

def upperBound (keys : List (BitVec 16)) (key : BitVec 16) : Nat :=
  search.index (fun k => !descendingSeqNumComp key k) keys

structure Walk where
  startSeqNum : BitVec 16
  isH264Descriptor : Bool
  hasH264Sps : Bool
  hasH264Pps : Bool
  hasH264Idr : Bool
  isH264Keyframe : Bool
  idrSize : Option (Nat × Nat)
  fullFrameFound : Bool

/-- What the search for the first packet reads of an H.264 packet. -/
def Walk.readNalus (walk : Walk) (spsPpsIdrIsH264Keyframe : Bool) (header : RTPVideoHeader)
    (nalus : List NaluType) : Walk :=
  let sps := walk.hasH264Sps || nalus.contains .sps
  let pps := walk.hasH264Pps || nalus.contains .pps
  let idr := walk.hasH264Idr || nalus.contains .idr
  let keyframe := idr && (!spsPpsIdrIsH264Keyframe || (sps && pps))
  { walk with
    hasH264Sps := sps
    hasH264Pps := pps
    hasH264Idr := idr
    isH264Keyframe := walk.isH264Keyframe || keyframe
    idrSize :=
      if keyframe && header.width > 0 && header.height > 0 then some (header.width, header.height)
      else walk.idrSize }

/-- The search for the first packet of a frame, with the number of slots not tested; none where
`FindFrames` returns. -/
def walkBack (q : PacketBuffer β) (frameTimestamp : BitVec 32) : Nat → Nat → Walk → Option Walk
  | 0, _, walk => some walk
  | untested + 1, index, walk =>
    let packet := q.entry index
    let generic := packet.any fun packet => packet.videoHeader.generic
    let walk := { walk with isH264Descriptor := walk.isH264Descriptor && !generic }
    if walk.isH264Descriptor then
      match packet with
      | none => none
      | some packet =>
        match packet.videoHeader.nalus with
        | none => none
        | some nalus =>
          let walk := walk.readNalus q.spsPpsIdrIsH264Keyframe packet.videoHeader nalus
          if untested = 0 then some walk
          else
            match q.entry (q.previousIndex index) with
            | none => some walk
            | some previous =>
              if previous.timestamp ≠ frameTimestamp then some walk
              else q.walkBack frameTimestamp untested (q.previousIndex index)
                { walk with startSeqNum := walk.startSeqNum - 1 }
    else
      match packet with
      | none => some walk
      | some packet =>
        if packet.isFirstPacketInFrame then some { walk with fullFrameFound := true }
        else if untested = 0 then some walk
        else q.walkBack frameTimestamp untested (q.previousIndex index)
          { walk with startSeqNum := walk.startSeqNum - 1 }

/-- The type of an H.264 frame, in the header of its first packet. -/
def setFrameType (walk : Walk) : PacketBuffer β :=
  let first := q.index walk.startSeqNum
  q.setEntry first ((q.entry first).map fun packet =>
    let header := packet.videoHeader
    { packet with
      videoHeader :=
        if walk.isH264Keyframe then
          { header with
            frameType := .videoFrameKey
            width := (walk.idrSize.map Prod.fst).getD header.width
            height := (walk.idrSize.map Prod.snd).getD header.height }
        else { header with frameType := .videoFrameDelta } })

/-- Hands out the packets of a frame; fails where the slot of a packet holds something else. -/
def takeFrame (startSeqNum lastSeqNum : BitVec 16) :
    Nat → BitVec 16 → PacketBuffer β → Option (PacketBuffer β × List (Packet β))
  | 0, _, q => some (q, [])
  | n + 1, j, q =>
    match q.entry (q.index j) with
    | none => none
    | some packet =>
      if packet.seqNum ≠ j then none
      else
        match takeFrame startSeqNum lastSeqNum n (j + 1) (q.setEntry (q.index j) none) with
        | none => none
        | some (q, packets) =>
          some (q, packet.setBoundaries (j == startSeqNum) (j == lastSeqNum) :: packets)

/-- After the last packet of a frame: the buffer, the packets found, and whether the loop goes
on. -/
structure Round (β : Type) where
  buffer : PacketBuffer β
  packets : List (Packet β)
  goesOn : Bool

def handOut (start seqNum startSeqNum : BitVec 16) (q : PacketBuffer β) : Option (Round β) :=
  match takeFrame startSeqNum seqNum (seqNum + 1 - startSeqNum).toNat startSeqNum q with
  | none => none
  | some (q, packets) =>
    some ⟨{ q with
      missingPackets := q.missingPackets.drop (upperBound search q.missingPackets seqNum)
      receivedPadding := q.receivedPadding.take (lowerBound search q.receivedPadding start) ++
        q.receivedPadding.drop (upperBound search q.receivedPadding seqNum) }, packets, true⟩

/-- The part of `FindFrames` that deals with the last packet of a frame. -/
def finishFrame (start seqNum : BitVec 16) (last : Packet β)
    (q : PacketBuffer β) : Option (Round β) :=
  let descriptor := decide (last.codec = .h264) && !last.videoHeader.generic
  match q.walkBack last.timestamp q.buffer.length (q.index seqNum)
      ⟨seqNum, descriptor, false, false, false, false, none, false⟩ with
  | none => some ⟨q, [], false⟩
  | some walk =>
    if walk.isH264Descriptor then
      let q := q.setFrameType walk
      if !walk.isH264Keyframe && upperBound search q.missingPackets walk.startSeqNum ≠ 0 then
        some ⟨q, [], false⟩
      else handOut search start seqNum walk.startSeqNum q
    else if walk.fullFrameFound then handOut search start seqNum walk.startSeqNum q
    else some ⟨q, [], true⟩

def mark (s : BitVec 16) (packet : Packet β) : PacketBuffer β :=
  q.setEntry (q.index s) (some (packet.setContinuous true))

/-- The loop of `FindFrames`, with the number of rounds left. -/
def findFramesFrom (search : Search (BitVec 16)) (start : BitVec 16) :
    Nat → BitVec 16 → PacketBuffer β → Option (PacketBuffer β × List (Packet β))
  | 0, _, q => some (q, [])
  | rounds + 1, seqNum, q =>
    if (find search q.receivedPadding seqNum).isSome then
      findFramesFrom search start rounds (seqNum + 1) q
    else if !q.potentialNewFrame seqNum then some (q, [])
    else
      match q.entry (q.index seqNum) with
      | none => some (q, [])
      | some packet =>
        let q := q.mark seqNum packet
        let packet := packet.setContinuous true
        if packet.isLastPacketInFrame then
          match finishFrame search start seqNum packet q with
          | none => none
          | some round =>
            if round.goesOn then
              match findFramesFrom search start rounds (seqNum + 1) round.buffer with
              | none => none
              | some (q, packets) => some (q, round.packets ++ packets)
            else some (round.buffer, round.packets)
        else findFramesFrom search start rounds (seqNum + 1) q

def findFrames (seqNum : BitVec 16) (q : PacketBuffer β) :
    Option (PacketBuffer β × List (Packet β)) :=
  findFramesFrom search seqNum q.buffer.length seqNum q

/-- The start of `InsertPacket`; there is no result for a packet that was cleared. -/
def accept (seqNum : BitVec 16) : Option (PacketBuffer β) :=
  if !q.firstPacketReceived then
    some { q with firstSeqNum := seqNum, firstPacketReceived := true }
  else if aheadOf q.firstSeqNum seqNum then
    if q.isClearedToFirstSeqNum then none
    else if (forwardDiff q.firstSeqNum seqNum).toNat ≥ q.maxSize &&
        (forwardDiff seqNum q.firstSeqNum).toNat ≥ q.maxSize / 2 then
      some { q.clearInternal with firstSeqNum := seqNum, firstPacketReceived := true }
    else some { q with firstSeqNum := seqNum }
  else some q

inductive Placed (β : Type) where
  | ignored (q : PacketBuffer β)
  | cleared (q : PacketBuffer β)
  | stored (q : PacketBuffer β)

def put (packet : Packet β) : PacketBuffer β :=
  q.setEntry (q.index packet.seqNum) (some (packet.setContinuous false))

/-- The middle of `InsertPacket`, for a packet that was admitted. -/
def store (packet : Packet β) : Placed β :=
  match q.entry (q.index packet.seqNum) with
  | none => .stored (q.put packet)
  | some other =>
    if other.seqNum = packet.seqNum then .ignored q
    else
      let q := expandWhileFull packet.seqNum (q.maxSize - q.buffer.length) q
      match q.entry (q.index packet.seqNum) with
      | none => .stored (q.put packet)
      | some _ => .cleared q.clearInternal

/-- `InsertPacket` up to the place where the packet is stored. -/
def place (packet : Packet β) : Placed β :=
  match q.accept packet.seqNum with
  | none => .ignored q
  | some q => q.store packet

/-- The paddings that are too old when a packet is stored are erased. -/
def erasePadding (q : PacketBuffer β) (seqNum : BitVec 16) : PacketBuffer β :=
  let oldest := seqNum - BitVec.ofNat 16 (q.buffer.length / 4)
  { q with receivedPadding := q.receivedPadding.drop (lowerBound search q.receivedPadding oldest) }

def prepared (q : PacketBuffer β) (s : BitVec 16) : PacketBuffer β :=
  (q.updateMissingPackets search s).erasePadding search s

def insertPacket (q : PacketBuffer β) (packet : Packet β) :
    Option (PacketBuffer β × InsertResult β) :=
  match q.place packet with
  | .ignored q => some (q, ⟨[], false⟩)
  | .cleared q => some (q, ⟨[], true⟩)
  | .stored q =>
    match (q.prepared search packet.seqNum).findFrames search packet.seqNum with
    | none => none
    | some (q, packets) => some (q, ⟨packets, false⟩)

def insertPadding (q : PacketBuffer β) (seqNum : BitVec 16) :
    Option (PacketBuffer β × InsertResult β) :=
  let q := q.updateMissingPackets search seqNum
  let q := { q with receivedPadding := insertKey search q.receivedPadding seqNum }
  match q.findFrames search (seqNum + 1) with
  | none => none
  | some (q, packets) => some (q, ⟨packets, false⟩)

/-- One round of the loop of `ClearTo`, apart from the step to the next number. -/
def clearSlot (seqNum : BitVec 16) (q : PacketBuffer β) : PacketBuffer β :=
  match q.entry (q.index q.firstSeqNum) with
  | none => q
  | some packet =>
    if aheadOf seqNum packet.seqNum then q.setEntry (q.index q.firstSeqNum) none else q

def clearSlots (seqNum : BitVec 16) : Nat → PacketBuffer β → PacketBuffer β
  | 0, q => q
  | n + 1, q => clearSlots seqNum n { q.clearSlot seqNum with firstSeqNum := q.firstSeqNum + 1 }

def clearTo (q : PacketBuffer β) (seqNum : BitVec 16) : PacketBuffer β :=
  if aheadOf q.firstSeqNum seqNum then q
  else if !q.firstPacketReceived then q
  else
    let seqNum := seqNum + 1
    let iterations := min (forwardDiff q.firstSeqNum seqNum).toNat q.buffer.length
    { clearSlots seqNum iterations q with
      firstSeqNum := seqNum
      isClearedToFirstSeqNum := true
      missingPackets := q.missingPackets.drop (lowerBound search q.missingPackets seqNum)
      receivedPadding := q.receivedPadding.drop (lowerBound search q.receivedPadding seqNum) }

inductive Op (β : Type) where
  | insertPacket (packet : Packet β)
  | insertPadding (seqNum : BitVec 16)
  | clearTo (seqNum : BitVec 16)
  | clear
  | forceSpsPpsIdrIsH264Keyframe
  | resetSpsPpsIdrIsH264Keyframe

structure Call (β : Type) where
  search : Search (BitVec 16)
  op : Op β

def perform (c : Call β) : Option (PacketBuffer β × InsertResult β) :=
  match c.op with
  | .insertPacket packet => q.insertPacket c.search packet
  | .insertPadding seqNum => q.insertPadding c.search seqNum
  | .clearTo seqNum => some (q.clearTo c.search seqNum, ⟨[], false⟩)
  | .clear => some (q.clearInternal, ⟨[], false⟩)
  | .forceSpsPpsIdrIsH264Keyframe => some ({ q with spsPpsIdrIsH264Keyframe := true }, ⟨[], false⟩)
  | .resetSpsPpsIdrIsH264Keyframe => some ({ q with spsPpsIdrIsH264Keyframe := false }, ⟨[], false⟩)

def run : PacketBuffer β → List (Call β) → Option (PacketBuffer β × List (InsertResult β))
  | q, [] => some (q, [])
  | q, c :: calls =>
    match q.perform c with
    | none => none
    | some (q, result) =>
      match run q calls with
      | none => none
      | some (q, results) => some (q, result :: results)

end PacketBuffer

end Video
