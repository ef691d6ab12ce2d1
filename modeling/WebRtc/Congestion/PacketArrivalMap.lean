import Mathlib.Data.BitVec
import WebRtc.Lib.RingBuffer
import WebRtc.Units

/-!
# The map of packet arrival times

Model of `PacketArrivalTimeMap` (`modules/remote_bitrate_estimator/packet_arrival_map.{h,cc}`), a
circular buffer that grows and shrinks, and the plain map that it stands for. Sequence numbers are
`Int`. Memory that was not written yet is `none`, and so is the result of a function that would read
it.
-/

namespace Congestion

open Units

/-- `PacketArrivalTimeMap`. The capacity is the length of `arrivalTimes`; an empty list is the
null pointer. -/
structure PacketArrivalTimeMap where
  arrivalTimes : List (Option Timestamp) := []
  beginSequenceNumber : Int := 0
  endSequenceNumber : Int := 0
deriving DecidableEq

namespace PacketArrivalTimeMap

def kMaxNumberOfPackets : Nat := 32768

def kMinCapacity : Nat := 128

def index (capacity : Nat) (sequenceNumber : Int) : Nat :=
  (BitVec.ofInt 64 sequenceNumber &&& BitVec.ofInt 64 (capacity - 1)).toNat

variable (m : PacketArrivalTimeMap)

def arrivalTime (sequenceNumber : Int) : Option Timestamp :=
  m.arrivalTimes[index m.arrivalTimes.length sequenceNumber]?.join

def setArrivalTime (sequenceNumber : Int) (arrivalTime : Timestamp) : PacketArrivalTimeMap :=
  { m with
    arrivalTimes :=
      m.arrivalTimes.set (index m.arrivalTimes.length sequenceNumber) (some arrivalTime) }

def hasSeenPacket : Bool := m.arrivalTimes ≠ []

def hasReceived (sequenceNumber : Int) : Bool :=
  decide (m.beginSequenceNumber ≤ sequenceNumber) &&
    decide (sequenceNumber < m.endSequenceNumber) &&
    (m.arrivalTime sequenceNumber).any fun t => UnitBase.zero ≤ t

def get (sequenceNumber : Int) : Option Timestamp :=
  if m.beginSequenceNumber ≤ sequenceNumber ∧ sequenceNumber < m.endSequenceNumber then
    m.arrivalTime sequenceNumber
  else none

/-- The loop of `FindNextAtOrAfter`. After as many rounds as the capacity it would never end. -/
def findNextLoop (m : PacketArrivalTimeMap) : Nat → Int → Option (Timestamp × Int)
  | 0, _ => none
  | n + 1, sequenceNumber =>
    (m.arrivalTime sequenceNumber).bind fun t =>
      if UnitBase.zero ≤ t then some (t, sequenceNumber) else m.findNextLoop n (sequenceNumber + 1)

/-- `FindNextAtOrAfter`: the arrival time and the sequence number of the next received packet. -/
def findNextAtOrAfter (sequenceNumber : Int) : Option (Timestamp × Int) :=
  if m.beginSequenceNumber ≤ sequenceNumber ∧ sequenceNumber < m.endSequenceNumber then
    m.findNextLoop m.arrivalTimes.length sequenceNumber
  else none

def clamp (sequenceNumber : Int) : Int :=
  if sequenceNumber < m.beginSequenceNumber then m.beginSequenceNumber
  else if m.endSequenceNumber < sequenceNumber then m.endSequenceNumber
  else sequenceNumber

def reallocateLoop (m : PacketArrivalTimeMap) :
    Nat → Int → List (Option Timestamp) → List (Option Timestamp)
  | 0, _, newBuffer => newBuffer
  | n + 1, sequenceNumber, newBuffer =>
    m.reallocateLoop n (sequenceNumber + 1)
      (newBuffer.set (index newBuffer.length sequenceNumber) (m.arrivalTime sequenceNumber))

def reallocate (newCapacity : Nat) : PacketArrivalTimeMap :=
  { m with
    arrivalTimes := m.reallocateLoop (m.endSequenceNumber - m.beginSequenceNumber).toNat
      m.beginSequenceNumber (List.replicate newCapacity none) }

/-- The loop of `AdjustToSize` that doubles the capacity. -/
def grow (newSize : Nat) : Nat → Nat → Nat
  | 0, newCapacity => newCapacity
  | fuel + 1, newCapacity =>
    if newCapacity < newSize then grow newSize fuel (newCapacity * 2) else newCapacity

/-- The loop of `AdjustToSize` that halves the capacity. -/
def shrink (newSize : Nat) : Nat → Nat → Nat
  | 0, newCapacity => newCapacity
  | fuel + 1, newCapacity =>
    if newCapacity > 2 * max newSize kMinCapacity then shrink newSize fuel (newCapacity / 2)
    else newCapacity

def growToSize (newSize : Nat) : PacketArrivalTimeMap :=
  if newSize > m.arrivalTimes.length then
    m.reallocate (grow newSize newSize m.arrivalTimes.length)
  else m

def shrinkToSize (newSize : Nat) : PacketArrivalTimeMap :=
  if m.arrivalTimes.length > max kMinCapacity (4 * newSize) then
    m.reallocate (shrink newSize m.arrivalTimes.length m.arrivalTimes.length)
  else m

def adjustToSize (newSize : Int) : PacketArrivalTimeMap :=
  (m.growToSize newSize.toNat).shrinkToSize newSize.toNat

def setNotReceived (first last : Int) : PacketArrivalTimeMap :=
  let beginIndex := index m.arrivalTimes.length first
  let endIndex := index m.arrivalTimes.length last
  if beginIndex ≤ endIndex then
    { m with
      arrivalTimes := RingBuffer.fillSlots .minusInfinity beginIndex endIndex m.arrivalTimes }
  else
    { m with
      arrivalTimes := RingBuffer.fillSlots .minusInfinity 0 endIndex
        (RingBuffer.fillSlots .minusInfinity beginIndex m.arrivalTimes.length m.arrivalTimes) }

def addBefore (sequenceNumber : Int) (arrivalTime : Timestamp) : PacketArrivalTimeMap :=
  if m.endSequenceNumber - sequenceNumber > kMaxNumberOfPackets then m
  else
    { ((m.adjustToSize (m.endSequenceNumber - sequenceNumber)).setArrivalTime sequenceNumber
        arrivalTime).setNotReceived (sequenceNumber + 1) m.beginSequenceNumber with
      beginSequenceNumber := sequenceNumber }

def addAfter (sequenceNumber : Int) (arrivalTime : Timestamp) : PacketArrivalTimeMap :=
  if sequenceNumber + 1 ≥ m.endSequenceNumber + kMaxNumberOfPackets then
    { m with
      beginSequenceNumber := sequenceNumber
      endSequenceNumber := sequenceNumber + 1 }.setArrivalTime sequenceNumber arrivalTime
  else
    let trimmed : PacketArrivalTimeMap :=
      if m.beginSequenceNumber < sequenceNumber + 1 - kMaxNumberOfPackets then
        { m with beginSequenceNumber := sequenceNumber + 1 - kMaxNumberOfPackets }
      else m
    { (trimmed.adjustToSize (sequenceNumber + 1 - trimmed.beginSequenceNumber)).setNotReceived
        m.endSequenceNumber sequenceNumber with
      endSequenceNumber := sequenceNumber + 1 }.setArrivalTime sequenceNumber arrivalTime

def addPacket (sequenceNumber : Int) (arrivalTime : Timestamp) : PacketArrivalTimeMap :=
  if !m.hasSeenPacket then
    { m.reallocate kMinCapacity with
      beginSequenceNumber := sequenceNumber
      endSequenceNumber := sequenceNumber + 1 }.setArrivalTime sequenceNumber arrivalTime
  else if m.beginSequenceNumber ≤ sequenceNumber ∧ sequenceNumber < m.endSequenceNumber then
    m.setArrivalTime sequenceNumber arrivalTime
  else if sequenceNumber < m.beginSequenceNumber then m.addBefore sequenceNumber arrivalTime
  else m.addAfter sequenceNumber arrivalTime

/-- The loop of `RemoveOldPackets`: the first sequence number to keep. -/
def removeLoop (m : PacketArrivalTimeMap) (arrivalTimeLimit : Timestamp) : Nat → Int → Option Int
  | 0, sequenceNumber => some sequenceNumber
  | n + 1, sequenceNumber =>
    (m.arrivalTime sequenceNumber).bind fun t =>
      if t ≤ arrivalTimeLimit then m.removeLoop arrivalTimeLimit n (sequenceNumber + 1)
      else some sequenceNumber

def removeOldPackets (sequenceNumber : Int)
    (arrivalTimeLimit : Timestamp) : Option PacketArrivalTimeMap :=
  let checkTo := min sequenceNumber m.endSequenceNumber
  (m.removeLoop arrivalTimeLimit (checkTo - m.beginSequenceNumber).toNat
    m.beginSequenceNumber).map fun first =>
      { m with beginSequenceNumber := first }.adjustToSize (m.endSequenceNumber - first)

def eraseTo (sequenceNumber : Int) : PacketArrivalTimeMap :=
  if sequenceNumber < m.beginSequenceNumber then m
  else if sequenceNumber ≥ m.endSequenceNumber then
    { m with beginSequenceNumber := m.endSequenceNumber }
  else
    { m with beginSequenceNumber := sequenceNumber }.adjustToSize
      (m.endSequenceNumber - sequenceNumber)

end PacketArrivalTimeMap

/-- The arrival times of the received packets in a window of sequence numbers. -/
structure ArrivalWindow where
  seen : Bool
  first : Int
  last : Int
  times : Int → Option Timestamp

namespace ArrivalWindow

def limit : Int := 2 ^ 15

def initial : ArrivalWindow := ⟨false, 0, 0, fun _ => none⟩

variable (w : ArrivalWindow)

def dropTo (i : Int) : ArrivalWindow :=
  { w with first := i, times := fun j => if j < i then none else w.times j }

/-- Where the window begins once it ends with a packet past its end. -/
def firstWith (i : Int) : Int :=
  if w.last + limit ≤ i + 1 then i else max w.first (i + 1 - limit)

/-- A packet that arrives; one that is too old is ignored. -/
def add (i : Int) (t : Timestamp) : ArrivalWindow :=
  if w.seen = false then ⟨true, i, i + 1, Function.update (fun _ => none) i (some t)⟩
  else if i < w.first then
    if limit < w.last - i then w
    else { w with first := i, times := Function.update w.times i (some t) }
  else if i < w.last then { w with times := Function.update w.times i (some t) }
  else
    { w.dropTo (w.firstWith i) with
      last := i + 1
      times := Function.update (w.dropTo (w.firstWith i)).times i (some t) }

def firstKept (old : Int → Bool) : Nat → Int → Int
  | 0, i => i
  | n + 1, i => if old i then firstKept old n (i + 1) else i

/-- Drops packets before `i` from the begin of the window, up to one that arrived later. -/
def removeOld (i : Int) (limit : Timestamp) : ArrivalWindow :=
  w.dropTo (firstKept (fun j => (w.times j).all fun t => t ≤ limit)
    (min i w.last - w.first).toNat w.first)

def erase (i : Int) : ArrivalWindow := w.dropTo (max w.first (min i w.last))

def get (i : Int) : Timestamp := (w.times i).getD .minusInfinity

def hasReceived (i : Int) : Bool := (w.times i).isSome

end ArrivalWindow

end Congestion
