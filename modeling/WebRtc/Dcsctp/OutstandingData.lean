import WebRtc.Dcsctp.Types
import WebRtc.Lib.Window
import WebRtc.Units
import Mathlib.Data.Finset.Sort

/-!
# Outstanding data

Model of `OutstandingData` (`net/dcsctp/tx/outstanding_data.cc`): the chunks that are not
cumulatively acknowledged, the two sets of chunks that wait for a retransmission, and the counters
of what is in flight. The deque and the last cumulative TSN ack are one window.
`discard_from_send_queue_` changes a state of its own, of any type.
-/

namespace Dcsctp

open Units

inductive Lifecycle where
  | active
  | toBeRetransmitted
  | abandoned
deriving DecidableEq, Repr

inductive AckState where
  | unacked
  | acked
  | nacked
deriving DecidableEq, Repr

inductive NackAction where
  | nothing
  | retransmit
  | abandon
deriving DecidableEq, Repr

structure Item where
  messageId : OutgoingMessageId
  data : Data
  timeSent : Timestamp
  maxRetransmissions : MaxRetransmits
  expiresAt : Timestamp
  lifecycleId : LifecycleId
  lifecycle : Lifecycle := .active
  ackState : AckState := .unacked
  nackCount : BitVec 8 := 0
  numRetransmissions : BitVec 16 := 0
deriving DecidableEq, Repr

def kNumberOfNacksForRetransmission : BitVec 8 := 3

namespace Item

def isOutstanding (item : Item) : Bool := item.ackState = .unacked

def isAcked (item : Item) : Bool := item.ackState = .acked

def isNacked (item : Item) : Bool := item.ackState = .nacked

def isAbandoned (item : Item) : Bool := item.lifecycle = .abandoned

def shouldBeRetransmitted (item : Item) : Bool := item.lifecycle = .toBeRetransmitted

def hasExpired (item : Item) (now : Timestamp) : Bool := item.expiresAt ≤ now

def ack (item : Item) : Item :=
  { item with
    lifecycle := if item.isAbandoned then .abandoned else .active
    ackState := .acked }

def abandon (item : Item) : Item := { item with lifecycle := .abandoned }

def nack (item : Item) (retransmitNow : Bool) : Item × NackAction :=
  let item := { item with ackState := .nacked, nackCount := item.nackCount + 1 }
  if !item.shouldBeRetransmitted && !item.isAbandoned &&
      (retransmitNow || item.nackCount ≥ kNumberOfNacksForRetransmission) then
    if item.numRetransmissions < item.maxRetransmissions then
      ({ item with lifecycle := .toBeRetransmitted }, .retransmit)
    else (item.abandon, .abandon)
  else (item, .nothing)

def markAsRetransmitted (item : Item) : Item :=
  { item with
    lifecycle := .active
    ackState := .unacked
    nackCount := 0
    numRetransmissions := item.numRetransmissions + 1 }

end Item

structure AckInfo where
  bytesAcked : Nat := 0
  hasPacketLoss : Bool := false
  highestTsnAcked : Int
  ackedLifecycleIds : List LifecycleId := []
  abandonedLifecycleIds : List LifecycleId := []
deriving DecidableEq, Repr

/-- `faulted` records that a counter would have wrapped, or that `GetItem` was called for a TSN that
is not held. -/
structure OutstandingData where
  dataChunkHeaderSize : Nat
  outstandingData : Window Item
  unackedPayloadBytes : Nat := 0
  unackedPacketBytes : Nat := 0
  unackedItems : Nat := 0
  toBeFastRetransmitted : Finset Int := ∅
  toBeRetransmitted : Finset Int := ∅
  streamResetBreakpointTsns : Finset Int := ∅
  faulted : Bool := false

namespace OutstandingData

def initial (dataChunkHeaderSize : Nat) (lastCumulativeTsnAck : Int) : OutstandingData where
  dataChunkHeaderSize := dataChunkHeaderSize
  outstandingData := ⟨lastCumulativeTsnAck, []⟩

variable (d : OutstandingData)

def getSerializedChunkSize (data : Data) : Nat :=
  roundUpTo4 (d.dataChunkHeaderSize + data.size)

def lastCumulativeTsnAck : Int := d.outstandingData.base

def highestOutstandingTsn : Int := d.outstandingData.highest

def nextTsn : Int := d.highestOutstandingTsn + 1

def empty : Bool := d.outstandingData.items = []

def hasDataToBeFastRetransmitted : Bool := d.toBeFastRetransmitted ≠ ∅

/-- The three lines of `AckChunk` and of `NackItem` that take a chunk out of flight. -/
def subtractUnacked (data : Data) : OutstandingData :=
  { d with
    unackedPayloadBytes := d.unackedPayloadBytes - data.size
    unackedPacketBytes := d.unackedPacketBytes - d.getSerializedChunkSize data
    unackedItems := d.unackedItems - 1
    faulted := d.faulted || d.unackedPayloadBytes < data.size ||
      d.unackedPacketBytes < d.getSerializedChunkSize data || d.unackedItems < 1 }

/-- What `AckChunk` and `NackItem` do to the counters. -/
def takeOutOfFlight (item : Item) : OutstandingData :=
  if item.isOutstanding then d.subtractUnacked item.data else d

/-- The three lines of `Insert` and `ExtractChunksThatCanFit` that put a chunk in flight. -/
def addUnacked (data : Data) : OutstandingData :=
  { d with
    unackedPayloadBytes := d.unackedPayloadBytes + data.size
    unackedPacketBytes := d.unackedPacketBytes + d.getSerializedChunkSize data
    unackedItems := d.unackedItems + 1 }

inductive Queue where
  | fast
  | timer
deriving DecidableEq, Repr

def chunksIn : Queue → Finset Int
  | .fast => d.toBeFastRetransmitted
  | .timer => d.toBeRetransmitted

def eraseFrom (tsn : Int) : Queue → OutstandingData
  | .fast => { d with toBeFastRetransmitted := d.toBeFastRetransmitted.erase tsn }
  | .timer => { d with toBeRetransmitted := d.toBeRetransmitted.erase tsn }

def insertInto (tsn : Int) : Queue → OutstandingData
  | .fast => { d with toBeFastRetransmitted := insert tsn d.toBeFastRetransmitted }
  | .timer => { d with toBeRetransmitted := insert tsn d.toBeRetransmitted }

def modifyItem (tsn : Int) (f : Item → Item) : OutstandingData :=
  { d with outstandingData := d.outstandingData.modify tsn f }

def isConsistent : Bool :=
  let unacked := d.outstandingData.items.filter Item.isOutstanding
  let toBeRetransmitted := (d.outstandingData.items.zipIdx.filter fun e =>
    e.1.shouldBeRetransmitted).map fun e => d.lastCumulativeTsnAck + 1 + (e.2 : Nat)
  (unacked.map fun item => item.data.size).sum = d.unackedPayloadBytes &&
    (unacked.map fun item => d.getSerializedChunkSize item.data).sum = d.unackedPacketBytes &&
    unacked.length = d.unackedItems &&
    toBeRetransmitted.toFinset = d.toBeRetransmitted ∪ d.toBeFastRetransmitted

def ackChunk (ackInfo : AckInfo) (tsn : Int) (item : Item) : AckInfo × OutstandingData :=
  if item.isAcked then (ackInfo, d)
  else
    let d := d.takeOutOfFlight item
    let d := if item.shouldBeRetransmitted then d.eraseFrom tsn .timer else d
    ({ ackInfo with
        bytesAcked := ackInfo.bytesAcked + d.getSerializedChunkSize item.data
        highestTsnAcked := max ackInfo.highestTsnAcked tsn },
      d.modifyItem tsn Item.ack)

/-- The lifecycle event of an item that is about to leave the queue. -/
def noteLifecycle (ackInfo : AckInfo) (item : Item) : AckInfo :=
  if item.lifecycleId = 0 then ackInfo
  else if item.isAbandoned then
    { ackInfo with abandonedLifecycleIds := ackInfo.abandonedLifecycleIds ++ [item.lifecycleId] }
  else { ackInfo with ackedLifecycleIds := ackInfo.ackedLifecycleIds ++ [item.lifecycleId] }

/-- `pop_front`, together with the increment of the last cumulative TSN ack. -/
def popFront : OutstandingData :=
  { d with outstandingData := ⟨d.outstandingData.base + 1, d.outstandingData.items.tail⟩ }

/-- The loop of `RemoveAcked`, which can pop as many items as there are. -/
def removeAckedLoop (cumulativeTsnAck : Int) :
    Nat → AckInfo × OutstandingData → AckInfo × OutstandingData
  | 0, s => s
  | n + 1, (ackInfo, d) =>
    match d.outstandingData.items with
    | [] => (ackInfo, d)
    | item :: _ =>
      if d.lastCumulativeTsnAck < cumulativeTsnAck then
        let acked := d.ackChunk ackInfo (d.lastCumulativeTsnAck + 1) item
        removeAckedLoop cumulativeTsnAck n (noteLifecycle acked.1 item, acked.2.popFront)
      else (ackInfo, d)

def removeAcked (cumulativeTsnAck : Int) (ackInfo : AckInfo) : AckInfo × OutstandingData :=
  let removed := removeAckedLoop cumulativeTsnAck d.outstandingData.items.length (ackInfo, d)
  (removed.1, { removed.2 with
    streamResetBreakpointTsns :=
      removed.2.streamResetBreakpointTsns.filter fun tsn => cumulativeTsnAck + 1 < tsn })

def ackRange : Nat → Int → AckInfo × OutstandingData → AckInfo × OutstandingData
  | 0, _, s => s
  | n + 1, tsn, (ackInfo, d) =>
    match d.outstandingData.get? tsn with
    | some item => ackRange n (tsn + 1) (d.ackChunk ackInfo tsn item)
    | none => ackRange n (tsn + 1) (ackInfo, d)

def ackGapBlocks (cumulativeTsnAck : Int) :
    List GapAckBlock → AckInfo × OutstandingData → AckInfo × OutstandingData
  | [], s => s
  | block :: rest, s =>
    ackGapBlocks cumulativeTsnAck rest
      (ackRange (block.last.toNat + 1 - block.start.toNat) (cumulativeTsnAck + block.start.toNat) s)

/-- The body of the loop of `AbandonAllFor` on an item of the message. -/
def abandonItem (tsn : Int) (other : Item) : OutstandingData :=
  let d :=
    if other.shouldBeRetransmitted then (d.eraseFrom tsn .fast).eraseFrom tsn .timer else d
  d.modifyItem tsn Item.abandon

/-- The loop of `AbandonAllFor`, over so many items from a TSN on. -/
def abandonLoop (streamId : StreamID) (messageId : OutgoingMessageId) :
    Nat → Int → OutstandingData → OutstandingData
  | 0, _, d => d
  | n + 1, tsn, d =>
    match d.outstandingData.get? tsn with
    | none => d
    | some other =>
      if !other.isAbandoned && other.data.streamId = streamId && other.messageId = messageId then
        abandonLoop streamId messageId n (tsn + 1) (d.abandonItem tsn other)
      else abandonLoop streamId messageId n (tsn + 1) d

/-- The unsent end of an abandoned message that `AbandonAllFor` appends. -/
def messageEnd (item : Item) : Item :=
  Item.ack {
    messageId := item.messageId
    data := { item.data with payload := [], isBeginning := false, isEnd := true }
    timeSent := .finite 0
    maxRetransmissions := 0
    expiresAt := .plusInfinity
    lifecycleId := 0 }

def pushItem (item : Item) : OutstandingData :=
  { d with outstandingData := d.outstandingData.push item }

section SendQueue

variable {σ : Type} (discardFromSendQueue : σ → StreamID → OutgoingMessageId → Bool × σ)

def abandonAllFor (item : Item) (s : OutstandingData × σ) : OutstandingData × σ :=
  let discarded := discardFromSendQueue s.2 item.data.streamId item.messageId
  let d := if discarded.1 then s.1.pushItem (messageEnd item) else s.1
  (abandonLoop item.data.streamId item.messageId d.outstandingData.items.length
    (d.lastCumulativeTsnAck + 1) d, discarded.2)

/-- `NackItem`; the result says whether the chunk was found lost. -/
def nackItem (tsn : Int) (retransmitNow doFastRetransmit : Bool) (s : OutstandingData × σ) :
    Bool × OutstandingData × σ :=
  match s.1.outstandingData.get? tsn with
  | none => (false, { s.1 with faulted := true }, s.2)
  | some item =>
    let d := (s.1.takeOutOfFlight item).modifyItem tsn fun item => (item.nack retransmitNow).1
    match (item.nack retransmitNow).2 with
    | .nothing => (false, d, s.2)
    | .retransmit => (true, d.insertInto tsn (if doFastRetransmit then .fast else .timer), s.2)
    | .abandon =>
      (true, abandonAllFor discardFromSendQueue (item.nack retransmitNow).1 (d, s.2))

def nackRange (doFastRetransmit : Bool) :
    Nat → Int → Bool × OutstandingData × σ → Bool × OutstandingData × σ
  | 0, _, s => s
  | n + 1, tsn, (hasPacketLoss, s) =>
    let nacked := nackItem discardFromSendQueue tsn false doFastRetransmit s
    nackRange doFastRetransmit n (tsn + 1) (hasPacketLoss || nacked.1, nacked.2)

/-- The outer loop of `NackBetweenAckBlocks`. -/
def nackBetweenLoop (cumulativeTsnAck maxTsnToNack : Int) (doFastRetransmit : Bool) :
    List GapAckBlock → Int → Bool × OutstandingData × σ → Bool × OutstandingData × σ
  | [], _, s => s
  | block :: rest, prevBlockLastAcked, s =>
    let curBlockFirstAcked := cumulativeTsnAck + block.start.toNat
    let count := (min (curBlockFirstAcked - 1) maxTsnToNack - prevBlockLastAcked).toNat
    nackBetweenLoop cumulativeTsnAck maxTsnToNack doFastRetransmit rest
      (cumulativeTsnAck + block.last.toNat)
      (nackRange discardFromSendQueue doFastRetransmit count (prevBlockLastAcked + 1) s)

def maxTsnToNack (d : OutstandingData) (cumulativeTsnAck : Int) (gapAckBlocks : List GapAckBlock)
    (isInFastRecovery : Bool) (ackInfo : AckInfo) : Int :=
  if isInFastRecovery && d.lastCumulativeTsnAck < cumulativeTsnAck then
    cumulativeTsnAck + (gapAckBlocks.getLast?.map fun block => block.last.toNat).getD 0
  else ackInfo.highestTsnAcked

def nackBetweenAckBlocks (cumulativeTsnAck : Int) (gapAckBlocks : List GapAckBlock)
    (isInFastRecovery : Bool) (ackInfo : AckInfo) (s : OutstandingData × σ) :
    AckInfo × OutstandingData × σ :=
  let nacked :=
    nackBetweenLoop discardFromSendQueue cumulativeTsnAck
      (s.1.maxTsnToNack cumulativeTsnAck gapAckBlocks isInFastRecovery ackInfo)
      (!isInFastRecovery) gapAckBlocks cumulativeTsnAck (ackInfo.hasPacketLoss, s)
  ({ ackInfo with hasPacketLoss := nacked.1 }, nacked.2)

/-- The part of `HandleSack` that acknowledges. -/
def acknowledge (d : OutstandingData) (cumulativeTsnAck : Int)
    (gapAckBlocks : List GapAckBlock) : AckInfo × OutstandingData :=
  ackGapBlocks cumulativeTsnAck gapAckBlocks
    (d.removeAcked cumulativeTsnAck { highestTsnAcked := cumulativeTsnAck })

def handleSack (cumulativeTsnAck : Int) (gapAckBlocks : List GapAckBlock)
    (isInFastRecovery : Bool) (s : OutstandingData × σ) : AckInfo × OutstandingData × σ :=
  let acked := s.1.acknowledge cumulativeTsnAck gapAckBlocks
  nackBetweenAckBlocks discardFromSendQueue cumulativeTsnAck gapAckBlocks isInFastRecovery acked.1
    (acked.2, s.2)

/-- The loop of `ExpireOutstandingChunks`, over the items that are there when it starts. -/
def expireLoop (now : Timestamp) : Nat → Int → OutstandingData × σ → OutstandingData × σ
  | 0, _, s => s
  | n + 1, tsn, s =>
    match s.1.outstandingData.get? tsn with
    | none => s
    | some item =>
      if item.isAbandoned then expireLoop now n (tsn + 1) s
      else if item.isNacked && item.hasExpired now then
        expireLoop now n (tsn + 1) (abandonAllFor discardFromSendQueue item s)
      else s

def expireOutstandingChunks (now : Timestamp) (s : OutstandingData × σ) : OutstandingData × σ :=
  expireLoop discardFromSendQueue now s.1.outstandingData.items.length
    (s.1.lastCumulativeTsnAck + 1) s

/-- `Insert`, which gives no TSN to a chunk that expired in the send queue. -/
def insertChunk (messageId : OutgoingMessageId) (data : Data) (timeSent : Timestamp)
    (maxRetransmissions : MaxRetransmits) (expiresAt : Timestamp) (lifecycleId : LifecycleId)
    (s : OutstandingData × σ) : Option Int × OutstandingData × σ :=
  let tsn := s.1.nextTsn
  let item : Item :=
    { messageId, data, timeSent, maxRetransmissions, expiresAt, lifecycleId }
  let d := (s.1.addUnacked data).pushItem item
  if item.hasExpired timeSent then (none, abandonAllFor discardFromSendQueue item (d, s.2))
  else (some tsn, d, s.2)

def nackEach : List Int → OutstandingData × σ → OutstandingData × σ
  | [], s => s
  | tsn :: rest, s => nackEach rest (nackItem discardFromSendQueue tsn true false s).2

def nackAll (s : OutstandingData × σ) : OutstandingData × σ :=
  let tsnsToNack := (s.1.outstandingData.items.zipIdx.filter fun e => !e.1.isAcked).map fun e =>
    s.1.lastCumulativeTsnAck + 1 + (e.2 : Nat)
  nackEach discardFromSendQueue tsnsToNack s

end SendQueue

def retransmit (queue : Queue) (tsn : Int) (item : Item) : OutstandingData :=
  ((d.modifyItem tsn Item.markAsRetransmitted).addUnacked item.data).eraseFrom tsn queue

/-- The loop of `ExtractChunksThatCanFit`, over the set in its order. -/
def extractLoop (queue : Queue) :
    List Int → Nat → OutstandingData → List (Int × Data) × OutstandingData
  | [], _, d => ([], d)
  | tsn :: rest, maxSize, d =>
    match d.outstandingData.get? tsn with
    | none => ([], { d with faulted := true })
    | some item =>
      let serializedSize := d.getSerializedChunkSize item.data
      if serializedSize ≤ maxSize then
        if maxSize - serializedSize ≤ d.dataChunkHeaderSize then
          ([(tsn, item.data)], d.retransmit queue tsn item)
        else
          let extracted :=
            extractLoop queue rest (maxSize - serializedSize) (d.retransmit queue tsn item)
          ((tsn, item.data) :: extracted.1, extracted.2)
      else if maxSize ≤ d.dataChunkHeaderSize then ([], d)
      else extractLoop queue rest maxSize d

def extractChunksThatCanFit (queue : Queue) (maxSize : Nat) : List (Int × Data) × OutstandingData :=
  extractLoop queue ((d.chunksIn queue).sort) maxSize d

/-- `GetChunksToBeFastRetransmitted`: what does not fit waits for the timer. -/
def getChunksToBeFastRetransmitted (maxSize : Nat) : List (Int × Data) × OutstandingData :=
  let extracted := d.extractChunksThatCanFit .fast maxSize
  (extracted.1, { extracted.2 with
    toBeRetransmitted := extracted.2.toBeRetransmitted ∪ extracted.2.toBeFastRetransmitted
    toBeFastRetransmitted := ∅ })

def getChunksToBeRetransmitted (maxSize : Nat) : List (Int × Data) × OutstandingData :=
  d.extractChunksThatCanFit .timer maxSize

def beginResetStreams : OutstandingData :=
  { d with streamResetBreakpointTsns := insert d.nextTsn d.streamResetBreakpointTsns }

def shouldSendForwardTsn : Bool :=
  (d.outstandingData.items.head?.map Item.isAbandoned).getD false

end OutstandingData

end Dcsctp
