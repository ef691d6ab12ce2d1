import WebRtc.Congestion.PacketArrivalMap
import WebRtc.Rtcp.TransportFeedback

/-!
# Generating transport-wide feedback

Model of `TransportSequenceNumberFeedbackGenenerator`
(`modules/remote_bitrate_estimator/transport_sequence_number_feedback_generator.cc`). A failed
check, a read of uninitialised memory and a loop that would not end are `none`. The send interval
may be set to any value.
-/

namespace Congestion

open Units SequenceNumbers Wrapping Rtcp

structure FeedbackRequest where
  includeTimestamps : Bool
  sequenceCount : Nat
deriving DecidableEq, Repr

/-- What `OnReceivedPacket` reads of a packet; `periodic` ones have the first version of the
extension. -/
structure SequencedPacket where
  ssrc : BitVec 32
  arrivalTime : Option Nat
  transportSequenceNumber : BitVec 16
  periodic : Bool
  feedbackRequest : Option FeedbackRequest
deriving DecidableEq, Repr

/-- `TransportSequenceNumberFeedbackGenenerator`. -/
structure TransportFeedbackGenerator where
  lastProcessTime : Timestamp := .minusInfinity
  mediaSsrc : BitVec 32 := 0
  feedbackPacketCount : UInt8 := 0
  unwrapper : SeqNumUnwrapper 16 := SeqNumUnwrapper.initial
  periodicWindowStartSeq : Option Int := none
  packetArrivalTimes : PacketArrivalTimeMap := {}
  sendInterval : TimeDelta := UnitBase.millis 100
  sendPeriodicFeedback : Bool := true

namespace TransportFeedbackGenerator

def kBackWindow : TimeDelta := UnitBase.millis 500

def kMaxMissingSequenceNumbers : Int := 0x7FFE

def microseconds : Timestamp → Nat
  | .finite value => value.toNat
  | _ => 0

variable (g : TransportFeedbackGenerator)

def newFeedback (includeTimestamps : Bool)
    (baseSequenceNumber : Int) (arrivalTime : Timestamp) : TransportFeedback :=
  (({ TransportFeedback.initial includeTimestamps with mediaSsrc := g.mediaSsrc }).setBase
    (wrap 16 baseSequenceNumber) (microseconds arrivalTime)).setFeedbackSequenceNumber
      g.feedbackPacketCount

structure Draft where
  feedbackPacket : Option TransportFeedback
  nextSequenceNumber : Int

def buildLoop (g : TransportFeedbackGenerator) (includeTimestamps : Bool)
    (beginSequenceNumber endSeq : Int) : Nat → Int → Draft → Option Draft
  | 0, _, _ => none
  | fuel + 1, seq, draft =>
    if seq < endSeq then
      (g.packetArrivalTimes.findNextAtOrAfter seq).bind fun (arrivalTime, seq) =>
        if seq ≥ endSeq then some draft
        else
          match draft.feedbackPacket with
          | none =>
            let base := max beginSequenceNumber (seq - kMaxMissingSequenceNumbers)
            ((g.newFeedback includeTimestamps base arrivalTime).addReceivedPacket (wrap 16 seq)
              (microseconds arrivalTime)).bind fun (ok, feedbackPacket) =>
                -- The other branch is `RTC_DCHECK_NOTREACHED`.
                if ok then
                  g.buildLoop includeTimestamps beginSequenceNumber endSeq fuel (seq + 1)
                    ⟨some feedbackPacket, seq + 1⟩
                else none
          | some feedbackPacket =>
            (feedbackPacket.addReceivedPacket (wrap 16 seq) (microseconds arrivalTime)).bind
              fun (ok, feedbackPacket) =>
                if ok then
                  g.buildLoop includeTimestamps beginSequenceNumber endSeq fuel (seq + 1)
                    ⟨some feedbackPacket, seq + 1⟩
                else some { draft with feedbackPacket := some feedbackPacket }
    else some draft

def maybeBuildFeedbackPacket (includeTimestamps : Bool)
    (beginSequenceNumber endSequenceNumber : Int) (isPeriodicUpdate : Bool) :
    Option (Option TransportFeedback × TransportFeedbackGenerator) :=
  if beginSequenceNumber < endSequenceNumber then
    let startSeq := g.packetArrivalTimes.clamp beginSequenceNumber
    let endSeq := g.packetArrivalTimes.clamp endSequenceNumber
    (g.buildLoop includeTimestamps beginSequenceNumber endSeq ((endSeq - startSeq).toNat + 1)
      startSeq ⟨none, beginSequenceNumber⟩).map fun draft =>
        (draft.feedbackPacket, { g with
          feedbackPacketCount :=
            if draft.feedbackPacket.isSome then g.feedbackPacketCount + 1
            else g.feedbackPacketCount
          periodicWindowStartSeq :=
            if isPeriodicUpdate then some draft.nextSequenceNumber
            else g.periodicWindowStartSeq })
  else none

def sendLoop (endSeq : Int) :
    Nat → TransportFeedbackGenerator → Option (List TransportFeedback × TransportFeedbackGenerator)
  | 0, _ => none
  | fuel + 1, g =>
    match g.periodicWindowStartSeq with
    | none => some ([], g)
    | some start =>
      if start < endSeq then
        (g.maybeBuildFeedbackPacket true start endSeq true).bind fun (feedbackPacket, g) =>
          match feedbackPacket with
          | none => some ([], g)
          | some feedbackPacket =>
            (sendLoop endSeq fuel g).map fun (rest, g) => (feedbackPacket :: rest, g)
      else some ([], g)

def sendPeriodicFeedbacks : Option (List TransportFeedback × TransportFeedbackGenerator) :=
  match g.periodicWindowStartSeq with
  | none => some ([], g)
  | some start =>
    let endSeq := g.packetArrivalTimes.endSequenceNumber
    sendLoop endSeq ((endSeq - start).toNat + 1) g

def sendFeedbackOnRequest (sequenceNumber : Int) (feedbackRequest : FeedbackRequest) :
    Option (List TransportFeedback × TransportFeedbackGenerator) :=
  if feedbackRequest.sequenceCount = 0 then some ([], g)
  else
    let firstSequenceNumber := sequenceNumber - feedbackRequest.sequenceCount + 1
    (g.maybeBuildFeedbackPacket feedbackRequest.includeTimestamps firstSequenceNumber
      (sequenceNumber + 1) false).map fun (feedbackPacket, g) =>
        match feedbackPacket with
        | none => ([], g)
        | some feedbackPacket =>
          ([feedbackPacket],
            { g with packetArrivalTimes := g.packetArrivalTimes.eraseTo firstSequenceNumber })

/-- `MaybeCullOldPackets`. Nothing compares as less than any sequence number. -/
def maybeCullOldPackets (sequenceNumber : Int)
    (arrivalTime : Nat) : Option TransportFeedbackGenerator :=
  if (g.periodicWindowStartSeq.any fun start =>
        decide (g.packetArrivalTimes.endSequenceNumber ≤ start)) ∧
      kBackWindow ≤ UnitBase.finite arrivalTime then
    (g.packetArrivalTimes.removeOldPackets sequenceNumber
      (.finite arrivalTime - kBackWindow)).map fun packetArrivalTimes =>
        { g with packetArrivalTimes := packetArrivalTimes }
  else some g

/-- The part of `OnReceivedPacket` for the first version of the extension. -/
def notePeriodic (seq : Int) (arrivalTime : Nat) : Option TransportFeedbackGenerator :=
  if g.sendPeriodicFeedback then
    (g.maybeCullOldPackets seq arrivalTime).map fun g =>
      if g.periodicWindowStartSeq.all fun start => decide (seq < start) then
        { g with periodicWindowStartSeq := some seq }
      else g
  else some g

/-- `AddPacket` in `OnReceivedPacket`, and the limit on the range of sequence numbers. -/
def recordArrival (seq : Int) (arrivalTime : Nat) : TransportFeedbackGenerator :=
  let packetArrivalTimes := g.packetArrivalTimes.addPacket seq (.finite arrivalTime)
  { g with
    packetArrivalTimes := packetArrivalTimes
    periodicWindowStartSeq :=
      if g.periodicWindowStartSeq.all fun start =>
          decide (start < packetArrivalTimes.beginSequenceNumber) then
        some packetArrivalTimes.beginSequenceNumber
      else g.periodicWindowStartSeq }

def onReceivedPacket (packet : SequencedPacket) :
    Option (List TransportFeedback × TransportFeedbackGenerator) :=
  match packet.arrivalTime with
  | none => some ([], g)
  | some arrivalTime =>
    let unwrapped := g.unwrapper.unwrap packet.transportSequenceNumber
    ({ g with
        sendPeriodicFeedback := packet.periodic
        mediaSsrc := packet.ssrc
        unwrapper := unwrapped.2 }.notePeriodic unwrapped.1 arrivalTime).bind fun g =>
      if g.packetArrivalTimes.hasReceived unwrapped.1 then some ([], g)
      else
        match packet.feedbackRequest with
        | none => some ([], g.recordArrival unwrapped.1 arrivalTime)
        | some feedbackRequest =>
          (g.recordArrival unwrapped.1 arrivalTime).sendFeedbackOnRequest unwrapped.1
            feedbackRequest

def process (now : Timestamp) : Option (List TransportFeedback × TransportFeedbackGenerator) :=
  if g.sendPeriodicFeedback ∧ g.lastProcessTime + g.sendInterval ≤ now then
    { g with lastProcessTime := now }.sendPeriodicFeedbacks
  else some ([], g)

inductive Call where
  | onReceivedPacket (packet : SequencedPacket)
  | process (now : Timestamp)
  | setSendInterval (sendInterval : TimeDelta)

def perform : Call → Option TransportFeedbackGenerator
  | .onReceivedPacket packet => (g.onReceivedPacket packet).map Prod.snd
  | .process now => (g.process now).map Prod.snd
  | .setSendInterval sendInterval => some { g with sendInterval := sendInterval }

end TransportFeedbackGenerator

end Congestion
