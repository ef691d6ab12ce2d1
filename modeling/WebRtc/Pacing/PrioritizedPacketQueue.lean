import WebRtc.Lib.OrdMap
import WebRtc.Units

/-!
# The prioritized packet queue of the pacer

Model of `modules/pacing/prioritized_packet_queue.cc`. Times are microseconds. A stream queue is
pointed to by its SSRC, and an iterator into the list of enqueue times is its node. The periods by
which the clock has advanced are recorded beside the fields of the source; nothing reads them.
-/

namespace Pacing

open Units

inductive RtpPacketMediaType where
  | audio
  | video
  | retransmission
  | forwardErrorCorrection
  | padding
deriving DecidableEq

inductive OriginalType where
  | audio
  | video
deriving DecidableEq

/-- What the queue reads and writes of an `RtpPacketToSend`, and the rest of it. -/
structure RtpPacketToSend (β : Type) where
  ssrc : BitVec 32
  packetType : RtpPacketMediaType
  originalPacketType : Option OriginalType
  isKeyFrame : Bool
  payloadSize : Nat
  paddingSize : Nat
  timeInSendQueue : Option Int
  contents : β
deriving DecidableEq

abbrev kNumPriorityLevels : Nat := 5

/-- A priority level; a lower one is served first. -/
abbrev PrioLevel := Fin kNumPriorityLevels

def getPriorityForType (type : RtpPacketMediaType) (originalType : Option OriginalType) : PrioLevel :=
  match type with
  | .audio => 0
  | .retransmission => if originalType = some .video then 2 else 1
  | .video => 3
  | .forwardErrorCorrection => 3
  | .padding => 4

structure PacketQueueTTL where
  audioRetransmission : TimeDelta
  videoRetransmission : TimeDelta
  video : TimeDelta

def toTtlPerPrio (packetQueueTtl : PacketQueueTTL) : PrioLevel → TimeDelta :=
  let ttl := fun _ => .plusInfinity
  let ttl := Function.update ttl (getPriorityForType .retransmission (some .audio))
    packetQueueTtl.audioRetransmission
  let ttl := Function.update ttl (getPriorityForType .retransmission (some .video))
    packetQueueTtl.videoRetransmission
  Function.update ttl (getPriorityForType .video none) packetQueueTtl.video

structure EnqueueNode where
  id : Nat
  time : Int
deriving DecidableEq

structure QueuedPacket (β : Type) where
  packet : RtpPacketToSend β
  enqueueTime : Int
  enqueueTimeIterator : EnqueueNode
deriving DecidableEq

def QueuedPacket.packetSize {β : Type} (p : QueuedPacket β) : Int :=
  (p.packet.payloadSize + p.packet.paddingSize : Nat)

structure StreamQueue (β : Type) where
  packets : PrioLevel → List (QueuedPacket β)
  lastEnqueueTime : Int
  numKeyframePackets : Int

namespace StreamQueue

variable {β : Type}

def new (creationTime : Int) : StreamQueue β := ⟨fun _ => [], creationTime, 0⟩

/-- `EnqueuePacket`, without its result. -/
def enqueuePacket (s : StreamQueue β) (packet : QueuedPacket β) (level : PrioLevel) :
    StreamQueue β :=
  { s with
    packets := Function.update s.packets level (s.packets level ++ [packet])
    numKeyframePackets :=
      if packet.packet.isKeyFrame then s.numKeyframePackets + 1 else s.numKeyframePackets }

/-- `DequeuePacket`, for a level whose first packet is `packet`. -/
def dequeuePacket (s : StreamQueue β) (packet : QueuedPacket β) (level : PrioLevel) :
    StreamQueue β :=
  { s with
    packets := Function.update s.packets level (s.packets level).tail
    numKeyframePackets :=
      if packet.packet.isKeyFrame then s.numKeyframePackets - 1 else s.numKeyframePackets }

def isEmpty (s : StreamQueue β) : Bool :=
  (List.finRange kNumPriorityLevels).all fun level => (s.packets level).isEmpty

def dequeueAll (s : StreamQueue β) : StreamQueue β :=
  { s with packets := fun _ => [], numKeyframePackets := 0 }

end StreamQueue

/-- A period by which the clock of the queue advanced, and whether the queue was paused in it. -/
structure Period where
  start : Int
  stop : Int
  paused : Bool
deriving DecidableEq

structure PrioritizedPacketQueue (β : Type) where
  prioritizeAudioRetransmission : Bool
  timeToLivePerPrio : PrioLevel → TimeDelta
  queueTimeSum : Int
  pauseTimeSum : Int
  sizePackets : Int
  sizePacketsPerMediaType : RtpPacketMediaType → Int
  sizePayload : Int
  lastUpdateTime : Int
  paused : Bool
  lastCullingTime : Int
  streams : OrdMap (BitVec 32) (StreamQueue β)
  streamsByPrio : PrioLevel → List (BitVec 32)
  topActivePrioLevel : Option PrioLevel
  enqueueTimes : List EnqueueNode
  nodesCreated : Nat
  timeline : List Period

namespace PrioritizedPacketQueue

variable {β : Type}

def initial (creationTime : Int) (prioritizeAudioRetransmission : Bool)
    (packetQueueTtl : PacketQueueTTL) : PrioritizedPacketQueue β where
  prioritizeAudioRetransmission := prioritizeAudioRetransmission
  timeToLivePerPrio := toTtlPerPrio packetQueueTtl
  queueTimeSum := 0
  pauseTimeSum := 0
  sizePackets := 0
  sizePacketsPerMediaType := fun _ => 0
  sizePayload := 0
  lastUpdateTime := creationTime
  paused := false
  lastCullingTime := creationTime
  streams := .empty
  streamsByPrio := fun _ => []
  topActivePrioLevel := none
  enqueueTimes := []
  nodesCreated := 0
  timeline := []

def packets (q : PrioritizedPacketQueue β) (ssrc : BitVec 32) (level : PrioLevel) :
    List (QueuedPacket β) :=
  match q.streams.find? ssrc with
  | none => []
  | some s => s.packets level

def dequeuePacket (q : PrioritizedPacketQueue β) (ssrc : BitVec 32) (level : PrioLevel)
    (packet : QueuedPacket β) : PrioritizedPacketQueue β :=
  { q with streams := q.streams.modify ssrc fun s => s.dequeuePacket packet level }

variable (q : PrioritizedPacketQueue β)

def hasPacketsAtPrio (ssrc : BitVec 32) (level : PrioLevel) : Bool :=
  !(q.packets ssrc level).isEmpty

/-- The non-paused time that a packet has spent in the queue, as `DequeuePacketInternal` computes
it. -/
def timeInNonPausedState (packet : QueuedPacket β) : Int :=
  q.lastUpdateTime - packet.enqueueTime - q.pauseTimeSum

def dequeuePacketInternal (packet : QueuedPacket β) : PrioritizedPacketQueue β :=
  let packetType := packet.packet.packetType
  { q with
    sizePackets := q.sizePackets - 1
    sizePacketsPerMediaType := Function.update q.sizePacketsPerMediaType packetType
      (q.sizePacketsPerMediaType packetType - 1)
    sizePayload := q.sizePayload - packet.packetSize
    queueTimeSum := q.queueTimeSum - q.timeInNonPausedState packet
    enqueueTimes := q.enqueueTimes.erase packet.enqueueTimeIterator }

def leaving (packet : QueuedPacket β) : RtpPacketToSend β :=
  { packet.packet with timeInSendQueue := some (q.timeInNonPausedState packet) }

/-- The inner loop of `PurgeOldPacketsAtPriorityLevel`, with a bound on its rounds. -/
def purgeStream (level : PrioLevel) (now timeToLive : Int) (ssrc : BitVec 32) :
    Nat → PrioritizedPacketQueue β → PrioritizedPacketQueue β
  | 0, q => q
  | fuel + 1, q =>
    match q.packets ssrc level with
    | [] => q
    | packet :: _ =>
      if now - packet.enqueueTime > timeToLive then
        purgeStream level now timeToLive ssrc fuel
          ((q.dequeuePacket ssrc level packet).dequeuePacketInternal packet)
      else q

/-- The outer loop of `PurgeOldPacketsAtPriorityLevel` from position `i` on, with a bound on its
rounds. -/
def purgeQueues (level : PrioLevel) (now timeToLive : Int) :
    Nat → Nat → PrioritizedPacketQueue β → PrioritizedPacketQueue β
  | 0, _, q => q
  | fuel + 1, i, q =>
    match (q.streamsByPrio level)[i]? with
    | none => q
    | some ssrc =>
      let q := purgeStream level now timeToLive ssrc (q.packets ssrc level).length q
      if !q.hasPacketsAtPrio ssrc level then
        let queues := (q.streamsByPrio level).eraseIdx i
        purgeQueues level now timeToLive fuel i
          { q with streamsByPrio := Function.update q.streamsByPrio level queues }
      else purgeQueues level now timeToLive fuel (i + 1) q

def purgeOldPacketsAtPriorityLevel (level : PrioLevel) (now : Int) : PrioritizedPacketQueue β :=
  match q.timeToLivePerPrio level with
  | .finite timeToLive => purgeQueues level now timeToLive (q.streamsByPrio level).length 0 q
  | _ => q

def searchTopPrioLevel : List PrioLevel → PrioritizedPacketQueue β → PrioritizedPacketQueue β
  | [], q => q
  | level :: levels, q =>
    let q := q.purgeOldPacketsAtPriorityLevel level q.lastUpdateTime
    if (q.streamsByPrio level).isEmpty then searchTopPrioLevel levels q
    else { q with topActivePrioLevel := some level }

def topIsActive : Bool :=
  match q.topActivePrioLevel with
  | none => false
  | some top => !(q.streamsByPrio top).isEmpty

def maybeUpdateTopPrioLevel : PrioritizedPacketQueue β :=
  if q.topIsActive then q
  else
    let q := searchTopPrioLevel (List.finRange kNumPriorityLevels) q
    if q.sizePackets = 0 then { q with topActivePrioLevel := none } else q

/-- `UpdateAverageQueueTime`; `none` when its `RTC_CHECK` fails. -/
def updateAverageQueueTime (now : Int) : Option (PrioritizedPacketQueue β) :=
  if now < q.lastUpdateTime then none
  else if now = q.lastUpdateTime then some q
  else
    let delta := now - q.lastUpdateTime
    some { q with
      pauseTimeSum := if q.paused then q.pauseTimeSum + delta else q.pauseTimeSum
      queueTimeSum := if q.paused then q.queueTimeSum else q.queueTimeSum + delta * q.sizePackets
      lastUpdateTime := now
      timeline := q.timeline ++ [⟨q.lastUpdateTime, now, q.paused⟩] }

def kTimeout : Int := 500000

/-- The removal of inactive streams in `Push`. -/
def cullStreams (enqueueTime : Int) : PrioritizedPacketQueue β :=
  if enqueueTime - q.lastCullingTime > kTimeout then
    { q with
      streams := q.streams.filter fun e =>
        !(e.2.isEmpty && decide (e.2.lastEnqueueTime + kTimeout < enqueueTime))
      lastCullingTime := enqueueTime }
  else q

def prioLevel (packet : RtpPacketToSend β) : PrioLevel :=
  getPriorityForType packet.packetType
    (if q.prioritizeAudioRetransmission then packet.originalPacketType else none)

/-- The start of `Push`: the stream queue and the node of the enqueue time. -/
def register (enqueueTime : Int) (ssrc : BitVec 32) : PrioritizedPacketQueue β :=
  { q with
    streams := q.streams.emplace ssrc (.new enqueueTime)
    enqueueTimes := q.enqueueTimes ++ [⟨q.nodesCreated, enqueueTime⟩]
    nodesCreated := q.nodesCreated + 1 }

/-- The middle of `Push`: the counters, the stream queue and the round-robin list. -/
def enqueue (level : PrioLevel) (packet : QueuedPacket β) : PrioritizedPacketQueue β :=
  let ssrc := packet.packet.ssrc
  let packetType := packet.packet.packetType
  let firstPacketAtLevel := (q.packets ssrc level).isEmpty
  { q with
    sizePackets := q.sizePackets + 1
    sizePacketsPerMediaType := Function.update q.sizePacketsPerMediaType packetType
      (q.sizePacketsPerMediaType packetType + 1)
    sizePayload := q.sizePayload + packet.packetSize
    streams := q.streams.modify ssrc fun s => s.enqueuePacket packet level
    streamsByPrio :=
      if firstPacketAtLevel then
        Function.update q.streamsByPrio level (q.streamsByPrio level ++ [ssrc])
      else q.streamsByPrio
    topActivePrioLevel :=
      match q.topActivePrioLevel with
      | none => some level
      | some top => if level < top then some level else some top }

def push (enqueueTime : Int) (packet : RtpPacketToSend β) : Option (PrioritizedPacketQueue β) := do
  let iterator : EnqueueNode := ⟨q.nodesCreated, enqueueTime⟩
  let level := q.prioLevel packet
  let purged := (q.register enqueueTime packet.ssrc).purgeOldPacketsAtPriorityLevel level enqueueTime
  let updated ← purged.updateAverageQueueTime enqueueTime
  let queuedPacket : QueuedPacket β := ⟨packet, enqueueTime - updated.pauseTimeSum, iterator⟩
  return (updated.enqueue level queuedPacket).cullStreams enqueueTime

/-- `Pop`: the queue after it, and the packet it returns. -/
def pop : PrioritizedPacketQueue β × Option (RtpPacketToSend β) :=
  if q.sizePackets = 0 then (q, none)
  else
    match q.topActivePrioLevel with
    | none => (q, none)
    | some top =>
      match q.streamsByPrio top with
      | [] => (q, none)
      | ssrc :: others =>
        match q.packets ssrc top with
        | [] => (q, none)
        | packet :: _ =>
          let next := (q.dequeuePacket ssrc top packet).dequeuePacketInternal packet
          let returned := some (q.leaving packet)
          if !next.hasPacketsAtPrio ssrc top then
            ({ next with streamsByPrio := Function.update next.streamsByPrio top others
              }.maybeUpdateTopPrioLevel, returned)
          else
            ({ next with
              streamsByPrio := Function.update next.streamsByPrio top (others ++ [ssrc]) }, returned)

def setPauseState (paused : Bool) (now : Int) : Option (PrioritizedPacketQueue β) :=
  (q.updateAverageQueueTime now).map fun q => { q with paused := paused }

/-- One level of the loop of `RemovePacketsForSsrc`, with the packets that the stream had there. -/
def removeLevel (ssrc : BitVec 32) (q : PrioritizedPacketQueue β) (level : PrioLevel)
    (removed : List (QueuedPacket β)) : PrioritizedPacketQueue β :=
  if removed.isEmpty then q
  else
    let q := removed.foldl dequeuePacketInternal q
    let queues := q.streamsByPrio level
    { q with
      streamsByPrio := Function.update q.streamsByPrio level
        (if queues.length = 1 then queues.tail else queues.filter fun other => other ≠ ssrc) }

def removePacketsForSsrc (ssrc : BitVec 32) : PrioritizedPacketQueue β :=
  match q.streams.find? ssrc with
  | none => q.maybeUpdateTopPrioLevel
  | some s =>
    let dequeued := { q with streams := q.streams.modify ssrc StreamQueue.dequeueAll }
    ((List.finRange kNumPriorityLevels).foldl
      (fun q level => q.removeLevel ssrc level (s.packets level)) dequeued).maybeUpdateTopPrioLevel

def oldestEnqueueTime : Timestamp :=
  match q.enqueueTimes with
  | [] => .minusInfinity
  | node :: _ => .finite node.time

inductive Call (β : Type) where
  | push (enqueueTime : Int) (packet : RtpPacketToSend β)
  | pop
  | setPauseState (paused : Bool) (now : Int)
  | updateAverageQueueTime (now : Int)
  | removePacketsForSsrc (ssrc : BitVec 32)

def perform : Call β → Option (PrioritizedPacketQueue β)
  | .push enqueueTime packet => q.push enqueueTime packet
  | .pop => some q.pop.1
  | .setPauseState paused now => q.setPauseState paused now
  | .updateAverageQueueTime now => q.updateAverageQueueTime now
  | .removePacketsForSsrc ssrc => some (q.removePacketsForSsrc ssrc)

def run (calls : List (Call β)) : Option (PrioritizedPacketQueue β) :=
  calls.foldlM perform q

end PrioritizedPacketQueue

end Pacing
