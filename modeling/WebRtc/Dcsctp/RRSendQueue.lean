import WebRtc.Dcsctp.RetransmissionQueue
import WebRtc.Lib.OrdMap

/-!
# The send queue and its scheduler

Model of `RRSendQueue` (`net/dcsctp/tx/rr_send_queue.cc`) and of `StreamScheduler`
(`net/dcsctp/tx/stream_scheduler.cc`). Virtual times are `double` in the source and exact here. The
callbacks and the handover state do not feed back into the queue and are left out.
-/

namespace Dcsctp

open Units

abbrev StreamPriority := BitVec 16

/-- `SendOptions`; the lifetime is in milliseconds. -/
structure SendOptions where
  unordered : Bool := false
  lifetime : Option Int := none
  maxRetransmissions : Option Nat := none
  lifecycleId : LifecycleId := 0
deriving DecidableEq, Repr

structure MessageAttributes where
  unordered : Bool
  maxRetransmissions : MaxRetransmits
  expiresAt : Timestamp
  lifecycleId : LifecycleId
deriving DecidableEq, Repr

def durationToTimeDelta (ms : Int) : TimeDelta :=
  if ms = 2147483647 then .plusInfinity else UnitBase.millis ms

/-- The attributes that `RRSendQueue::Add` derives from the options. -/
def SendOptions.attributes (options : SendOptions) (now : Timestamp) : MessageAttributes where
  unordered := options.unordered
  maxRetransmissions :=
    (options.maxRetransmissions.map (BitVec.ofNat 16)).getD MaxRetransmits.noLimit
  expiresAt :=
    (options.lifetime.map fun ms => now + durationToTimeDelta ms + UnitBase.millis 1).getD
      .plusInfinity
  lifecycleId := options.lifecycleId

structure StreamScheduler.Stream where
  priority : StreamPriority
  currentVirtualTime : ℚ := 0
  nextFinishTime : ℚ := 0
deriving DecidableEq, Repr

/-- `StreamScheduler`. The active streams are ordered by finish time and then by id. -/
structure StreamScheduler where
  maxPayloadBytes : Nat
  virtualTime : ℚ := 0
  currentStream : Option StreamID := none
  enableMessageInterleaving : Bool := false
  currentlySendingAMessage : Bool := false
  activeStreams : OrdMap (ℚ ×ₗ StreamID) Unit := OrdMap.empty

namespace StreamScheduler

def inverseWeight (priority : StreamPriority) : ℚ := 1 / max (priority.toNat : ℚ) (1 / 1000000)

def calculateFinishTime (scheduler : StreamScheduler) (stream : Stream) (bytesToSendNext : Nat) :
    ℚ :=
  if scheduler.enableMessageInterleaving then
    stream.currentVirtualTime + bytesToSendNext * inverseWeight stream.priority
  else stream.currentVirtualTime + 1

def forceReschedule (scheduler : StreamScheduler) : StreamScheduler :=
  { scheduler with currentlySendingAMessage := false }

end StreamScheduler

inductive PauseState where
  | notPaused
  | pending
  | paused
  | resetting
deriving DecidableEq, Repr

/-- `OutgoingStream::Item`. -/
structure QueuedMessage where
  messageId : OutgoingMessageId
  message : DcSctpMessage
  attributes : MessageAttributes
  remainingOffset : Nat := 0
  remainingSize : Nat := message.payload.length
  mid : Option MID := none
  ssn : Option SSN := none
  currentFsn : FSN := 0
deriving DecidableEq, Repr

/-- `RRSendQueue::OutgoingStream`, with its part of the scheduler. -/
structure OutgoingStream where
  schedulerStream : StreamScheduler.Stream
  pauseState : PauseState := .notPaused
  nextUnorderedMid : MID := 0
  nextOrderedMid : MID := 0
  nextSsn : SSN := 0
  items : List QueuedMessage := []
  bufferedAmount : Nat := 0
deriving DecidableEq, Repr

namespace QueuedMessage

variable (item : QueuedMessage)

def fragment (maxSize : Nat) : List UInt8 :=
  (item.message.payload.drop item.remainingOffset).take maxSize

/-- The flags compare data pointers, and the pointer of an empty view is null. -/
def comparable (maxSize : Nat) : Bool :=
  item.fragment maxSize ≠ [] || item.message.payload = []

def isBeginning (maxSize : Nat) : Bool :=
  item.comparable maxSize && item.remainingOffset = 0

def isEnd (maxSize : Nat) : Bool :=
  item.comparable maxSize &&
    item.remainingOffset + (item.fragment maxSize).length = item.message.payload.length

/-- The chunk that `Produce` returns for an item that has its identifiers. -/
def chunk (maxSize : Nat) : DataToSend where
  messageId := item.messageId
  data :=
    { streamId := item.message.streamId
      ssn := item.ssn.getD 0
      mid := item.mid.getD 0
      fsn := item.currentFsn
      ppid := item.message.ppid
      payload := item.fragment maxSize
      isBeginning := item.isBeginning maxSize
      isEnd := item.isEnd maxSize
      isUnordered := item.attributes.unordered }
  maxRetransmissions := item.attributes.maxRetransmissions
  expiresAt := item.attributes.expiresAt
  lifecycleId := if item.isEnd maxSize then item.attributes.lifecycleId else 0

def advance (maxSize : Nat) : QueuedMessage :=
  { item with
    currentFsn := item.currentFsn + 1
    remainingOffset := item.remainingOffset + (item.fragment maxSize).length
    remainingSize := item.remainingSize - (item.fragment maxSize).length }

def restart : QueuedMessage :=
  { item with
    remainingOffset := 0
    remainingSize := item.message.payload.length
    mid := none
    ssn := none
    currentFsn := 0 }

end QueuedMessage

namespace OutgoingStream

def initial (priority : StreamPriority) : OutgoingStream where
  schedulerStream := { priority := priority }

variable (s : OutgoingStream)

def bytesToSendInNextMessage : Nat :=
  if s.pauseState = .paused ∨ s.pauseState = .resetting then 0
  else (s.items.head?.map QueuedMessage.remainingSize).getD 0

def isConsistent : Bool :=
  (s.items.map QueuedMessage.remainingSize).sum = s.bufferedAmount

def hasPartiallySentMessage : Bool :=
  (s.items.head?.map fun item => item.mid.isSome).getD false

/-- The message ID of the item, allocated when its first fragment is sent. -/
def allocateMid (item : QueuedMessage) : QueuedMessage × OutgoingStream :=
  match item.mid with
  | some _ => (item, s)
  | none =>
    if item.attributes.unordered then
      ({ item with mid := some s.nextUnorderedMid },
        { s with nextUnorderedMid := s.nextUnorderedMid + 1 })
    else
      ({ item with mid := some s.nextOrderedMid }, { s with nextOrderedMid := s.nextOrderedMid + 1 })

/-- The stream sequence number of an ordered item, allocated likewise. -/
def allocateSsn (item : QueuedMessage) : QueuedMessage × OutgoingStream :=
  if !item.attributes.unordered && item.ssn.isNone then
    ({ item with ssn := some s.nextSsn }, { s with nextSsn := s.nextSsn + 1 })
  else (item, s)

/-- The part of `Produce` that sends a fragment of the first item. -/
def produceFragment (item : QueuedMessage) (rest : List QueuedMessage)
    (maxSize : Nat) : DataToSend × OutgoingStream :=
  let numbered := s.allocateMid item
  let sequenced := numbered.2.allocateSsn numbered.1
  let item := sequenced.1
  let s := sequenced.2
  let bufferedAmount := s.bufferedAmount - (item.fragment maxSize).length
  (item.chunk maxSize, if item.isEnd maxSize then
      { s with
        items := rest
        bufferedAmount := bufferedAmount
        pauseState := if s.pauseState = .pending then .paused else s.pauseState }
    else { s with items := item.advance maxSize :: rest, bufferedAmount := bufferedAmount })

/-- `Produce`: expired messages are skipped. The second component of the state is the total
buffered amount of the queue. -/
def produceLoop (now : Timestamp) (maxSize : Nat) :
    List QueuedMessage → OutgoingStream × Nat → Option DataToSend × OutgoingStream × Nat
  | [], s => (none, s)
  | item :: rest, s =>
    if item.mid.isNone && item.attributes.expiresAt ≤ now then
      produceLoop now maxSize rest
        ({ s.1 with items := rest, bufferedAmount := s.1.bufferedAmount - item.remainingSize },
          s.2 - item.remainingSize)
    else
      let produced := s.1.produceFragment item rest maxSize
      (some produced.1, produced.2, s.2 - produced.1.data.size)

def produce (now : Timestamp) (maxSize totalBufferedAmount : Nat) :
    Option DataToSend × OutgoingStream × Nat :=
  produceLoop now maxSize s.items (s, totalBufferedAmount)

end OutgoingStream

/-- `faulted` records that `StreamScheduler::Produce` would not have returned, or followed a null
pointer. -/
structure RRSendQueue where
  defaultPriority : StreamPriority
  currentMessageId : OutgoingMessageId := 0
  scheduler : StreamScheduler
  totalBufferedAmount : Nat := 0
  streams : OrdMap StreamID OutgoingStream := OrdMap.empty
  faulted : Bool := false

namespace RRSendQueue

/-- The constructors: a packet has room for its header and an I-DATA header. -/
def initial (mtu : Nat) (defaultPriority : StreamPriority) : RRSendQueue where
  defaultPriority := defaultPriority
  scheduler := { maxPayloadBytes := mtu - 12 - 20 }

variable (q : RRSendQueue)

def stream (id : StreamID) : OutgoingStream :=
  (q.streams.find? id).getD (OutgoingStream.initial q.defaultPriority)

def setStream (id : StreamID) (s : OutgoingStream) : RRSendQueue :=
  { q with streams := q.streams.set id s }

def makeActive (id : StreamID) (bytesToSendNext : Nat) : RRSendQueue :=
  let s := q.stream id
  let current := { s.schedulerStream with currentVirtualTime := q.scheduler.virtualTime }
  let nextFinishTime := q.scheduler.calculateFinishTime current
    (min bytesToSendNext q.scheduler.maxPayloadBytes)
  { q.setStream id
      { s with schedulerStream := { current with nextFinishTime := nextFinishTime } } with
    scheduler := { q.scheduler with
      activeStreams := q.scheduler.activeStreams.emplace (toLex (nextFinishTime, id)) () } }

def maybeMakeActive (id : StreamID) : RRSendQueue :=
  let bytesToSendNext := (q.stream id).bytesToSendInNextMessage
  if bytesToSendNext = 0 then q else q.makeActive id bytesToSendNext

def forceMarkInactive (id : StreamID) : RRSendQueue :=
  let s := q.stream id
  q.setStream id { s with schedulerStream := { s.schedulerStream with nextFinishTime := 0 } }

def makeInactive (id : StreamID) : RRSendQueue :=
  let q := q.forceMarkInactive id
  { q with scheduler := { q.scheduler with
      activeStreams := q.scheduler.activeStreams.filter fun e => (ofLex e.1).2 ≠ id } }

def enqueue (message : DcSctpMessage) (attributes : MessageAttributes) : RRSendQueue :=
  let s := q.stream message.streamId
  let size := message.payload.length
  { q.setStream message.streamId
      { s with
        bufferedAmount := s.bufferedAmount + size
        items := s.items ++ [{ messageId := q.currentMessageId, message, attributes }] } with
    totalBufferedAmount := q.totalBufferedAmount + size
    currentMessageId := q.currentMessageId + 1 }

def add (now : Timestamp) (message : DcSctpMessage) (options : SendOptions) : RRSendQueue :=
  let wasActive := (q.stream message.streamId).bytesToSendInNextMessage > 0
  let q := q.enqueue message (options.attributes now)
  if wasActive then q else q.maybeMakeActive message.streamId

/-- `StreamScheduler::Stream::Produce`. -/
def produceFrom (id : StreamID) (now : Timestamp) (maxSize : Nat) :
    Option DataToSend × RRSendQueue :=
  let produced := (q.stream id).produce now maxSize q.totalBufferedAmount
  let s :=
    match produced.1 with
    | none => produced.2.1
    | some chunk =>
      { produced.2.1 with schedulerStream := { produced.2.1.schedulerStream with
          currentVirtualTime := q.scheduler.calculateFinishTime produced.2.1.schedulerStream
            chunk.data.size } }
  (produced.1, { q.setStream id s with totalBufferedAmount := produced.2.2 })

/-- The first active stream becomes the current one and is active no more. -/
def reschedule (id : StreamID) : RRSendQueue :=
  { q with scheduler := { q.scheduler with
      currentStream := some id
      activeStreams := ⟨q.scheduler.activeStreams.entries.tail,
        q.scheduler.activeStreams.sorted.tail⟩ } }.forceMarkInactive id

def rescheduleIf (rescheduling : Bool) (id : StreamID) : RRSendQueue :=
  if rescheduling then q.reschedule id else q

def rescheduling : Bool :=
  q.scheduler.enableMessageInterleaving || !q.scheduler.currentlySendingAMessage

/-- The loop of `StreamScheduler::Produce`, with the streams that it asks for data, as they are then.
When it reschedules, every round takes an active stream away; otherwise a round without data changes
nothing, and it never ends. -/
def produceLoop (rescheduling : Bool) (now : Timestamp) (maxSize : Nat) :
    Nat → RRSendQueue → Option DataToSend × RRSendQueue × List OutgoingStream
  | 0, q => (none, { q with faulted := q.faulted || q.scheduler.activeStreams.entries ≠ [] }, [])
  | rounds + 1, q =>
    match q.scheduler.activeStreams.entries with
    | [] => (none, q, [])
    | first :: _ =>
      let q := q.rescheduleIf rescheduling (ofLex first.1).2
      match q.scheduler.currentStream with
      | none => (none, { q with faulted := true }, [])
      | some id =>
        let produced := q.produceFrom id now maxSize
        match produced.1 with
        | some chunk => (some chunk, produced.2, [q.stream id])
        | none =>
          let later := produceLoop rescheduling now maxSize rounds produced.2
          (later.1, later.2.1, q.stream id :: later.2.2)

/-- The end of `StreamScheduler::Produce`, when a stream has produced data. -/
def noteProduced (rescheduling : Bool) (chunk : DataToSend) : RRSendQueue :=
  match q.scheduler.currentStream with
  | none => { q with faulted := true }
  | some id =>
    let bytesToSendNext := (q.stream id).bytesToSendInNextMessage
    let q := { q with scheduler := { q.scheduler with
      currentlySendingAMessage := !chunk.data.isEnd
      virtualTime := (q.stream id).schedulerStream.currentVirtualTime } }
    if rescheduling && bytesToSendNext > 0 then q.makeActive id bytesToSendNext
    else if !rescheduling && bytesToSendNext = 0 then q.makeInactive id
    else q

def produce (now : Timestamp) (maxSize : Nat) : Option DataToSend × RRSendQueue :=
  let produced :=
    produceLoop q.rescheduling now maxSize q.scheduler.activeStreams.entries.length q
  match produced.1 with
  | none => (none, produced.2.1)
  | some chunk => (some chunk, produced.2.1.noteProduced q.rescheduling chunk)

/-- `HandleMessageExpired` and the removal of the first item. -/
def dropFirst (id : StreamID) (item : QueuedMessage) (rest : List QueuedMessage) : RRSendQueue :=
  let s := q.stream id
  { q.setStream id { s with
      items := rest
      bufferedAmount := s.bufferedAmount - item.remainingSize } with
    totalBufferedAmount := q.totalBufferedAmount - item.remainingSize }

/-- What `OutgoingStream::Discard` does to the scheduler. -/
def leaveDiscarded (id : StreamID) : RRSendQueue :=
  let q := { q with scheduler := q.scheduler.forceReschedule }
  let s := q.stream id
  if s.pauseState = .pending then
    (q.setStream id { s with pauseState := .paused }).makeInactive id
  else if s.bytesToSendInNextMessage = 0 then q.makeInactive id
  else q

def discard (id : StreamID) (messageId : OutgoingMessageId) : Bool × RRSendQueue :=
  match (q.stream id).items with
  | [] => (false, q.setStream id (q.stream id))
  | item :: rest =>
    if item.messageId = messageId then (true, (q.dropFirst id item rest).leaveDiscarded id)
    else (false, q.setStream id (q.stream id))

/-- `OutgoingStream::Pause`: messages that are not partially sent are thrown away. -/
def pause (id : StreamID) : RRSendQueue :=
  let s := q.stream id
  if s.pauseState ≠ .notPaused then q.setStream id s
  else
    let kept := s.items.filter fun item => item.remainingOffset ≠ 0
    let expired := ((s.items.filter fun item => item.remainingOffset = 0).map
      QueuedMessage.remainingSize).sum
    let pauseState : PauseState := if kept = [] then .paused else .pending
    let q := { q.setStream id { s with
        items := kept
        bufferedAmount := s.bufferedAmount - expired
        pauseState := pauseState } with
      totalBufferedAmount := q.totalBufferedAmount - expired }
    if s.items ≠ [] ∧ pauseState = .paused then q.makeInactive id else q

def prepareResetStream (id : StreamID) : RRSendQueue := q.pause id

def resume (id : StreamID) : RRSendQueue :=
  (q.setStream id { q.stream id with pauseState := .notPaused }).maybeMakeActive id

/-- `OutgoingStream::Reset`: a partially sent message will be sent again in full. -/
def resetStream (id : StreamID) : RRSendQueue :=
  let s := q.stream id
  let cleared := { s with
    pauseState := .notPaused, nextOrderedMid := 0, nextUnorderedMid := 0, nextSsn := 0 }
  match s.items with
  | [] => q.setStream id cleared
  | item :: rest =>
    let sent := item.message.payload.length - item.remainingSize
    let q := { q.setStream id { cleared with
        items := item.restart :: rest
        bufferedAmount := s.bufferedAmount + sent } with
      totalBufferedAmount := q.totalBufferedAmount + sent }
    if s.pauseState = .paused ∨ s.pauseState = .resetting then q.maybeMakeActive id else q

/-- Runs an operation on every stream that is in a pause state. -/
def forEachIn (pauseState : PauseState)
    (operation : RRSendQueue → StreamID → RRSendQueue) : RRSendQueue :=
  (q.streams.entries.map Prod.fst).foldl
    (fun q id => if (q.stream id).pauseState = pauseState then operation q id else q) q

def getStreamsReadyToBeReset : List StreamID × RRSendQueue :=
  ((q.streams.entries.filter fun e => e.2.pauseState = .paused).map Prod.fst,
    q.forEachIn .paused fun q id =>
      q.setStream id { q.stream id with pauseState := .resetting })

def commitResetStreams : RRSendQueue := q.forEachIn .resetting resetStream

def rollbackResetStreams : RRSendQueue := q.forEachIn .resetting resume

def reset : RRSendQueue :=
  let q := (q.streams.entries.map Prod.fst).foldl resetStream q
  { q with scheduler := q.scheduler.forceReschedule }

def setStreamPriority (id : StreamID) (priority : StreamPriority) : RRSendQueue :=
  let s := q.stream id
  q.setStream id { s with schedulerStream := { s.schedulerStream with priority := priority } }

def enableMessageInterleaving (q : RRSendQueue) (enabled : Bool) : RRSendQueue :=
  { q with scheduler := { q.scheduler with enableMessageInterleaving := enabled } }

def bufferedAmount (q : RRSendQueue) (id : StreamID) : Nat :=
  ((q.streams.find? id).map OutgoingStream.bufferedAmount).getD 0

def isConsistent : Bool :=
  ((q.streams.entries.filter fun e => e.2.bytesToSendInNextMessage > 0).map Prod.fst).toFinset =
      (q.scheduler.activeStreams.entries.map fun e => (ofLex e.1).2).toFinset &&
    (q.streams.entries.map fun e => e.2.bufferedAmount).sum = q.totalBufferedAmount

/-- The queue as the retransmission queue sees it. -/
def sendQueue : SendQueue RRSendQueue where
  produce := produce
  discard := discard

end RRSendQueue

end Dcsctp
