import WebRtc.SequenceNumbers
import WebRtc.Units

/-!
# The history of sent packets

Model of `modules/rtp_rtcp/source/rtp_packet_history.cc`. The deque of slots is a list. A log of what
was put into the history and removed from it is kept beside the fields of the source; nothing reads
it.
-/

namespace Rtp

open SequenceNumbers Units

/-- What the history reads of an `RtpPacketToSend`, and the rest of it. -/
structure RtpPacketToSend (β : Type) where
  sequenceNumber : BitVec 16
  payloadSize : Nat
  contents : β
deriving DecidableEq

inductive StorageMode where
  | disabled
  | storeAndCull
deriving DecidableEq

inductive PaddingMode where
  | default
  | recentLargePacket
deriving DecidableEq

def kMaxCapacity : Nat := 9600

def kMinPacketDuration : TimeDelta := .seconds 1

def kMinPacketDurationRtt : Int := 3

def kPacketCullingDelayFactor : Int := 3

def kOldPayloadPaddingSizeHysteresis : Nat := 100
def kMaxOldPayloadPaddingSequenceNumber : BitVec 16 := 1 <<< 13

structure StoredPacket (β : Type) where
  packet : Option (RtpPacketToSend β)
  pendingTransmission : Bool
  sendTime : Timestamp
  insertOrder : Nat
  timesRetransmitted : Nat
deriving DecidableEq

namespace StoredPacket

variable {β : Type}

def empty : StoredPacket β := ⟨none, false, .zero, 0, 0⟩

def ofPacket (packet : RtpPacketToSend β) (sendTime : Timestamp) (insertOrder : Nat) :
    StoredPacket β :=
  ⟨some packet, false, sendTime, insertOrder, 0⟩

end StoredPacket

inductive Event (β : Type) where
  | put (packet : RtpPacketToSend β)
  | removed (packet : RtpPacketToSend β)
  | cleared
deriving DecidableEq

structure RtpPacketHistory (β : Type) where
  paddingMode : PaddingMode
  numberToStore : Nat
  mode : StorageMode
  rtt : TimeDelta
  packetHistory : List (StoredPacket β)
  packetsInserted : Nat
  largePayloadPacket : Option (RtpPacketToSend β)
  log : List (Event β)

namespace RtpPacketHistory

variable {β : Type}

def initial (paddingMode : PaddingMode) (mode : StorageMode) (numberToStore : Nat) :
    RtpPacketHistory β where
  paddingMode := paddingMode
  numberToStore := min kMaxCapacity numberToStore
  mode := mode
  rtt := .minusInfinity
  packetHistory := []
  packetsInserted := 0
  largePayloadPacket := none
  log := []

variable (q : RtpPacketHistory β)

/-- `GetPacketIndex`: the signed distance from the first packet. -/
def getPacketIndex (sequenceNumber : BitVec 16) : Int :=
  match q.packetHistory with
  | [] => 0
  | front :: _ =>
    let firstSeq := (front.packet.map RtpPacketToSend.sequenceNumber).getD 0
    if firstSeq = sequenceNumber then 0
    else
      let packetIndex : Int := sequenceNumber.toNat - firstSeq.toNat
      let kSeqNumSpan : Int := 65536
      if isNewerSequenceNumber sequenceNumber firstSeq then
        if sequenceNumber < firstSeq then packetIndex + kSeqNumSpan else packetIndex
      else if sequenceNumber > firstSeq then packetIndex - kSeqNumSpan
      else packetIndex

def slot (q : RtpPacketHistory β) (index : Int) : Option (StoredPacket β) :=
  if index < 0 then none else q.packetHistory[index.toNat]?

def getStoredPacket (sequenceNumber : BitVec 16) : Option Nat :=
  let index := q.getPacketIndex sequenceNumber
  match q.slot index with
  | none => none
  | some stored => if stored.packet.isNone then none else some index.toNat

def vacate (slots : List (StoredPacket β)) (index : Nat) : List (StoredPacket β) :=
  slots.modify index fun stored => { stored with packet := none }

def removePacket (packetIndex : Nat) : RtpPacketHistory β :=
  let slots := vacate q.packetHistory packetIndex
  { q with
    packetHistory := if packetIndex = 0 then slots.dropWhile fun stored => stored.packet.isNone
      else slots
    log := q.log ++ ((q.packetHistory[packetIndex]?.bind StoredPacket.packet).map Event.removed).toList }

/-- The time for which `CullOldPackets` keeps a packet. -/
def packetDuration : TimeDelta :=
  match q.rtt with
  | .finite rtt => UnitBase.max (.finite (kMinPacketDurationRtt * rtt)) kMinPacketDuration
  | _ => kMinPacketDuration

def cullingDelay : TimeDelta → TimeDelta
  | .finite duration => .finite (duration * kPacketCullingDelayFactor)
  | duration => duration

def cullable (now : Timestamp) (front : StoredPacket β) : Bool :=
  if q.packetHistory.length ≥ kMaxCapacity then true
  else if front.pendingTransmission then false
  else if front.sendTime + q.packetDuration > now then false
  else
    decide (q.packetHistory.length ≥ q.numberToStore) ||
      decide (front.sendTime + cullingDelay q.packetDuration ≤ now)

/-- The loop of `CullOldPackets`, with the number of slots as a bound on its rounds. -/
def cullLoop (now : Timestamp) : Nat → RtpPacketHistory β → RtpPacketHistory β
  | 0, q => q
  | fuel + 1, q =>
    match q.packetHistory with
    | [] => q
    | front :: _ => if q.cullable now front then cullLoop now fuel (q.removePacket 0) else q

def cullOldPackets (now : Timestamp) : RtpPacketHistory β :=
  cullLoop now q.packetHistory.length q

def setRtt (now : Timestamp) (rtt : TimeDelta) : RtpPacketHistory β :=
  let q := { q with rtt := rtt }
  if q.mode ≠ .disabled then q.cullOldPackets now else q

def reset : RtpPacketHistory β :=
  { q with packetHistory := [], largePayloadPacket := none, log := q.log ++ [.cleared] }

def clear : RtpPacketHistory β := q.reset

def removeDuplicate (sequenceNumber : BitVec 16) : RtpPacketHistory β :=
  match q.getStoredPacket sequenceNumber with
  | none => q
  | some index => q.removePacket index

/-- The large packet that `PutRtpPacket` keeps for padding. -/
def updatedLargePacket (packet : RtpPacketToSend β) : Option (RtpPacketToSend β) :=
  if q.paddingMode = .recentLargePacket then
    match q.largePayloadPacket with
    | none => some packet
    | some large =>
      if packet.payloadSize + kOldPayloadPaddingSizeHysteresis > large.payloadSize ||
          isNewerSequenceNumber packet.sequenceNumber
            (large.sequenceNumber + kMaxOldPayloadPaddingSequenceNumber)
      then some packet
      else some large
  else q.largePayloadPacket

/-- The slots, expanded until they have one for the index, and the place of that slot. -/
def expand (slots : List (StoredPacket β)) (packetIndex : Int) : List (StoredPacket β) × Nat :=
  let slots := List.replicate (-packetIndex).toNat StoredPacket.empty ++ slots
  let index := packetIndex.toNat
  (slots ++ List.replicate (index + 1 - slots.length) StoredPacket.empty, index)

def store (packet : RtpPacketToSend β) (sendTime : Timestamp) : RtpPacketHistory β :=
  let (slots, index) := expand q.packetHistory (q.getPacketIndex packet.sequenceNumber)
  { q with
    packetHistory := slots.set index (.ofPacket packet sendTime q.packetsInserted)
    packetsInserted := q.packetsInserted + 1
    largePayloadPacket := q.updatedLargePacket packet
    log := q.log ++ [.put packet] }

def prepared (now : Timestamp) (sequenceNumber : BitVec 16) : RtpPacketHistory β :=
  (q.cullOldPackets now).removeDuplicate sequenceNumber

def putRtpPacket (now : Timestamp) (packet : RtpPacketToSend β)
    (sendTime : Timestamp) : RtpPacketHistory β :=
  if q.mode = .disabled then q
  else (q.prepared now packet.sequenceNumber).store packet sendTime

def verifyRtt (now : Timestamp) (stored : StoredPacket β) : Bool :=
  !(decide (stored.timesRetransmitted > 0) && decide (now - stored.sendTime < q.rtt))

/-- The stored packet that `GetPacketAndMarkAsPending` would hand to the encapsulator. -/
def available (now : Timestamp) (sequenceNumber : BitVec 16) :
    Option (Nat × StoredPacket β × RtpPacketToSend β) := do
  if q.mode = .disabled then none
  else
    let index ← q.getStoredPacket sequenceNumber
    let stored ← q.packetHistory[index]?
    let packet ← stored.packet
    if stored.pendingTransmission then none
    else if !q.verifyRtt now stored then none
    else some (index, stored, packet)

def setPending (stored : StoredPacket β) : StoredPacket β :=
  { stored with pendingTransmission := true }

/-- The change of `MarkPacketAsSent` to a slot. -/
def setSent (now : Timestamp) (stored : StoredPacket β) : StoredPacket β :=
  { stored with
    sendTime := now
    pendingTransmission := false
    timesRetransmitted := stored.timesRetransmitted + 1 }

def getPacketAndMarkAsPending (now : Timestamp) (sequenceNumber : BitVec 16)
    (encapsulate : RtpPacketToSend β → Option (RtpPacketToSend β)) :
    RtpPacketHistory β × Option (RtpPacketToSend β) :=
  match q.available now sequenceNumber with
  | none => (q, none)
  | some (index, _, packet) =>
    match encapsulate packet with
    | none => (q, none)
    | some encapsulated =>
      ({ q with packetHistory := q.packetHistory.modify index setPending }, some encapsulated)

def markPacketAsSent (now : Timestamp) (sequenceNumber : BitVec 16) : RtpPacketHistory β :=
  if q.mode = .disabled then q
  else
    match q.getStoredPacket sequenceNumber with
    | none => q
    | some index =>
      { q with packetHistory := q.packetHistory.modify index (setSent now) }

def cullAcknowledgedPacket (sequenceNumber : BitVec 16) : RtpPacketHistory β :=
  let packetIndex := q.getPacketIndex sequenceNumber
  if packetIndex < 0 ∨ packetIndex.toNat ≥ q.packetHistory.length then q
  else q.removePacket packetIndex.toNat

def cullAcknowledgedPackets (sequenceNumbers : List (BitVec 16)) : RtpPacketHistory β :=
  sequenceNumbers.foldl cullAcknowledgedPacket q

inductive Op (β : Type) where
  | putRtpPacket (packet : RtpPacketToSend β) (sendTime : Timestamp)
  | getPacketAndMarkAsPending (sequenceNumber : BitVec 16)
      (encapsulate : RtpPacketToSend β → Option (RtpPacketToSend β))
  | markPacketAsSent (sequenceNumber : BitVec 16)
  | cullAcknowledgedPackets (sequenceNumbers : List (BitVec 16))
  | setRtt (rtt : TimeDelta)
  | clear

structure Call (β : Type) where
  now : Timestamp
  op : Op β

def perform (c : Call β) : RtpPacketHistory β × Option (RtpPacketToSend β) :=
  match c.op with
  | .putRtpPacket packet sendTime => (q.putRtpPacket c.now packet sendTime, none)
  | .getPacketAndMarkAsPending sequenceNumber encapsulate =>
    q.getPacketAndMarkAsPending c.now sequenceNumber encapsulate
  | .markPacketAsSent sequenceNumber => (q.markPacketAsSent c.now sequenceNumber, none)
  | .cullAcknowledgedPackets sequenceNumbers => (q.cullAcknowledgedPackets sequenceNumbers, none)
  | .setRtt rtt => (q.setRtt c.now rtt, none)
  | .clear => (q.clear, none)

def after (calls : List (Call β)) : RtpPacketHistory β :=
  calls.foldl (fun q c => (q.perform c).1) q

end RtpPacketHistory

end Rtp
