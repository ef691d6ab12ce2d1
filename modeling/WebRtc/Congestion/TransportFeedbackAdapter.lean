import WebRtc.Lib.OrdMap
import WebRtc.Congestion.InFlightBytes
import WebRtc.Rtcp.CongestionControlFeedback
import WebRtc.Rtcp.TransportFeedback

/-!
# Transport feedback adapter

Model of `TransportFeedbackAdapter`
(`modules/congestion_controller/rtp/transport_feedback_adapter.cc`), which matches
feedback messages of both kinds with the history of sent packets. A failed
`RTC_DCHECK` of the in-flight tracker is `none`.
-/

namespace Congestion

open Units SequenceNumbers Rtcp Wrapping

/-- The fields of `RtpPacketToSend` that the adapter reads. -/
structure RtpPacketToSend where
  transportSequenceNumber : Option Int
  size : Nat
  isAudio : Bool
  ssrc : BitVec 32
  sequenceNumber : BitVec 16
deriving DecidableEq, Repr

/-- `SentPacketInfo` with the fields of its `PacketInfo` that the adapter reads. -/
structure SentPacketInfo where
  packetId : Int := -1
  sendTimeMs : Int := -1
  includedInFeedback : Bool := false
  includedInAllocation : Bool := false
  packetSizeBytes : Nat := 0
deriving DecidableEq, Repr

structure PacketResult where
  sentPacket : SentPacket
  receiveTime : Timestamp := .plusInfinity
  ecn : EcnMarking := .notEct
deriving DecidableEq, Repr

structure TransportPacketsFeedback where
  feedbackTime : Timestamp
  dataInFlight : Nat
  transportSupportsEcn : Bool
  packetFeedbacks : List PacketResult
deriving DecidableEq, Repr

abbrev SsrcAndRtpSequencenumber := BitVec 32 × BitVec 16

structure TransportFeedbackAdapter where
  pendingUntrackedSize : Nat := 0
  lastSendTime : Timestamp := .minusInfinity
  lastUntrackedSendTime : Timestamp := .minusInfinity
  seqNumUnwrapper : SeqNumUnwrapper 16 := SeqNumUnwrapper.initial
  lastAckSeqNum : Int := -1
  inFlight : InFlightBytesTracker := {}
  networkRoute : NetworkRoute := {}
  currentOffset : Timestamp := .minusInfinity
  lastTransportFeedbackBaseTime : Timestamp := .minusInfinity
  lastFeedbackCompactNtpTime : Option (BitVec 32) := none
  rtpToTransportSequenceNumber : AList (fun _ : SsrcAndRtpSequencenumber => Int) := ∅
  history : OrdMap Int PacketFeedback := OrdMap.empty

namespace TransportFeedbackAdapter

def kSendTimeHistoryWindow : TimeDelta := .seconds 60

/-- The loop condition of `AddPacket`: the entry is older than the history window. -/
def isExpired (creationTime : Timestamp) (e : Int × PacketFeedback) : Bool :=
  decide (kSendTimeHistoryWindow < creationTime - e.2.creationTime)

def eraseKeys (m : AList (fun _ : SsrcAndRtpSequencenumber => Int))
    (packets : List PacketFeedback) : AList (fun _ : SsrcAndRtpSequencenumber => Int) :=
  packets.foldl (fun m packet => m.erase (packet.ssrc, packet.rtpSequenceNumber)) m

def emplaceKey (m : AList (fun _ : SsrcAndRtpSequencenumber => Int))
    (key : SsrcAndRtpSequencenumber) (value : Int) :
    AList (fun _ : SsrcAndRtpSequencenumber => Int) :=
  if (m.lookup key).isSome then m else m.insert key value

variable (a : TransportFeedbackAdapter)

/-- `AddPacket`. The loop stops at the first entry that is not too old. -/
def addPacket (packetToSend : RtpPacketToSend)
    (overheadBytes : Nat) (creationTime : Timestamp) : Option TransportFeedbackAdapter :=
  let (sequenceNumber, unwrapper) :=
    a.seqNumUnwrapper.unwrap (wrap 16 (packetToSend.transportSequenceNumber.getD 0))
  let feedback : PacketFeedback :=
    { creationTime := creationTime
      sent :=
        { sequenceNumber := sequenceNumber
          size := packetToSend.size + overheadBytes
          audio := packetToSend.isAudio }
      networkRoute := a.networkRoute
      ssrc := packetToSend.ssrc
      rtpSequenceNumber := packetToSend.sequenceNumber }
  let expired := (a.history.entries.takeWhile (isExpired creationTime)).map Prod.snd
  (a.inFlight.removeAll
      (expired.filter fun packet => packet.sent.sequenceNumber > a.lastAckSeqNum)).map
    fun inFlight =>
      { a with
        seqNumUnwrapper := unwrapper
        inFlight := inFlight
        rtpToTransportSequenceNumber :=
          emplaceKey (eraseKeys a.rtpToTransportSequenceNumber expired)
            (feedback.ssrc, feedback.rtpSequenceNumber) sequenceNumber
        history := (a.history.dropWhile (isExpired creationTime)).emplace sequenceNumber feedback }

def getOutstandingData (a : TransportFeedbackAdapter) : Nat :=
  a.inFlight.getOutstandingData a.networkRoute

/-- The tracked branch of `ProcessSentPacket`, for a packet found in the history. -/
def recordSent (seqNum : Int) (packet : PacketFeedback)
    (sendTime : Timestamp) : Option (Option SentPacket × TransportFeedbackAdapter) :=
  let packetRetransmit := packet.sent.sendTime.isFinite
  let timed : PacketFeedback := { packet with
    sent := { packet.sent with
      sendTime := sendTime
      priorUnackedData := packet.sent.priorUnackedData + a.pendingUntrackedSize } }
  let a : TransportFeedbackAdapter := { a with
    lastSendTime := a.lastSendTime.max sendTime
    pendingUntrackedSize := 0 }
  if packetRetransmit then
    some (none, { a with history := a.history.modify seqNum fun _ => timed })
  else
    let added :=
      if timed.sent.sequenceNumber > a.lastAckSeqNum then a.inFlight.addInFlightPacketBytes timed
      else some a.inFlight
    added.map fun inFlight =>
      let sent : SentPacket := { timed.sent with
        dataInFlight := inFlight.getOutstandingData a.networkRoute }
      (some sent, { a with
        inFlight := inFlight
        history := a.history.modify seqNum fun _ => { timed with sent := sent } })

def processSentPacket (sentPacket : SentPacketInfo) :
    Option (Option SentPacket × TransportFeedbackAdapter) :=
  let sendTime : Timestamp := .millis sentPacket.sendTimeMs
  if sentPacket.includedInFeedback ∨ sentPacket.packetId ≠ -1 then
    let (seqNum, unwrapper) := a.seqNumUnwrapper.unwrap (wrap 16 sentPacket.packetId)
    let a := { a with seqNumUnwrapper := unwrapper }
    match a.history.find? seqNum with
    | some packet => a.recordSent seqNum packet sendTime
    | none => some (none, a)
  else if sentPacket.includedInAllocation then
    some (none, { a with
      pendingUntrackedSize := a.pendingUntrackedSize + sentPacket.packetSizeBytes
      lastUntrackedSendTime := a.lastUntrackedSendTime.max sendTime })
  else some (none, a)

def newlyAcked (seqNum : Int) : List PacketFeedback :=
  (a.history.filter fun e => decide (a.lastAckSeqNum < e.1 ∧ e.1 ≤ seqNum)).entries.map Prod.snd

/-- The first half of `RetrievePacketFeedback`: everything up to `seqNum` leaves the network. -/
def ackUpTo (seqNum : Int) : Option TransportFeedbackAdapter :=
  if seqNum > a.lastAckSeqNum then
    (a.inFlight.removeAll (a.newlyAcked seqNum)).map fun inFlight =>
      { a with inFlight := inFlight, lastAckSeqNum := seqNum }
  else some a

/-- `RetrievePacketFeedback` by transport sequence number. -/
def retrievePacketFeedback (transportSeqNum : Int)
    (received : Bool) : Option (Option PacketFeedback × TransportFeedbackAdapter) :=
  (a.ackUpTo transportSeqNum).map fun a =>
    match a.history.find? transportSeqNum with
    | none => (none, a)
    | some packet =>
      if packet.sent.sendTime.isInfinite then (none, a)
      else if received then
        (some packet, { a with
          rtpToTransportSequenceNumber :=
            a.rtpToTransportSequenceNumber.erase (packet.ssrc, packet.rtpSequenceNumber)
          history := a.history.erase transportSeqNum })
      else (some packet, a)

/-- `RetrievePacketFeedback` by SSRC and RTP sequence number. -/
def retrievePacketFeedbackByKey (key : SsrcAndRtpSequencenumber)
    (received : Bool) : Option (Option PacketFeedback × TransportFeedbackAdapter) :=
  match a.rtpToTransportSequenceNumber.lookup key with
  | none => some (none, a)
  | some seqNum => a.retrievePacketFeedback seqNum received

def toTransportFeedback (packetResults : List PacketResult)
    (feedbackReceiveTime : Timestamp) (supportsEcn : Bool) : Option TransportPacketsFeedback :=
  if packetResults = [] then none
  else some
    { feedbackTime := feedbackReceiveTime
      dataInFlight := a.getOutstandingData
      transportSupportsEcn := supportsEcn
      packetFeedbacks := packetResults }

/-- The handler of `ProcessTransportFeedback`, for all packets of the message. -/
def processStatuses (a : TransportFeedbackAdapter) :
    List (BitVec 16 × TimeDelta) → Option (List PacketResult × TransportFeedbackAdapter)
  | [] => some ([], a)
  | (sequenceNumber, deltaSinceBase) :: rest =>
    let (seqNum, unwrapper) := a.seqNumUnwrapper.unwrap sequenceNumber
    let a := { a with seqNumUnwrapper := unwrapper }
    (a.retrievePacketFeedback seqNum deltaSinceBase.isFinite).bind fun (packetFeedback, a) =>
      (a.processStatuses rest).map fun (results, next) =>
        match packetFeedback with
        | none => (results, next)
        | some packet =>
          let receiveTime :=
            if deltaSinceBase.isFinite then a.currentOffset + deltaSinceBase.roundDownTo 1000
            else packet.receiveTime
          if packet.networkRoute = a.networkRoute then
            ({ sentPacket := packet.sent, receiveTime := receiveTime } :: results, next)
          else (results, next)

/-- The time base of `ProcessTransportFeedback`. -/
def advanceBase (feedback : TransportFeedback) (feedbackReceiveTime : Timestamp) : Timestamp :=
  match a.lastTransportFeedbackBaseTime with
  | .finite lastBase =>
    let delta := (UnitBase.finite (feedback.getBaseDelta lastBase)).roundDownTo 1000
    if delta < UnitBase.zero - a.currentOffset then feedbackReceiveTime
    else a.currentOffset + delta
  | _ => feedbackReceiveTime

def processTransportFeedback (feedback : TransportFeedback) (feedbackReceiveTime : Timestamp) :
    Option (Option TransportPacketsFeedback × TransportFeedbackAdapter) :=
  if feedback.numSeqNo = 0 then some (none, a)
  else
    let a := { a with
      currentOffset := a.advanceBase feedback feedbackReceiveTime
      lastTransportFeedbackBaseTime := .finite feedback.baseTime }
    (a.processStatuses feedback.forAllPackets).map fun (results, a) =>
      (a.toTransportFeedback results feedbackReceiveTime false, a)

/-- The loop of `ProcessCongestionControlFeedback`; also gives `supports_ecn`. -/
def processPacketInfos (a : TransportFeedbackAdapter) :
    List PacketInfo → Option (List PacketResult × Bool × TransportFeedbackAdapter)
  | [] => some ([], true, a)
  | packetInfo :: rest =>
    let received := packetInfo.arrivalTimeOffset.isFinite
    (a.retrievePacketFeedbackByKey (packetInfo.ssrc, packetInfo.sequenceNumber) received).bind
      fun (packetFeedback, a) =>
        (a.processPacketInfos rest).map fun (results, supportsEcn, next) =>
          match packetFeedback with
          | none => (results, supportsEcn, next)
          | some packet =>
            if packet.networkRoute ≠ a.networkRoute then (results, supportsEcn, next)
            else
              let result : PacketResult :=
                { sentPacket := packet.sent
                  receiveTime :=
                    if received then a.currentOffset - packetInfo.arrivalTimeOffset
                    else .plusInfinity
                  ecn := packetInfo.ecn }
              (result :: results, (if received then decide (packetInfo.ecn ≠ .notEct) && supportsEcn
                  else supportsEcn), next)

/-- The time base of `ProcessCongestionControlFeedback`. -/
def advanceOffset (reportTimestamp : BitVec 32) (feedbackReceiveTime : Timestamp) : Timestamp :=
  let currentOffset :=
    if a.currentOffset.isInfinite then feedbackReceiveTime else a.currentOffset
  let feedbackDelta :=
    match a.lastFeedbackCompactNtpTime with
    | some last => compactNtpIntervalToTimeDelta (reportTimestamp - last)
    | none => UnitBase.zero
  if feedbackDelta < UnitBase.zero then feedbackReceiveTime else currentOffset + feedbackDelta

def processCongestionControlFeedback
    (feedback : CongestionControlFeedback) (feedbackReceiveTime : Timestamp) :
    Option (Option TransportPacketsFeedback × TransportFeedbackAdapter) :=
  if feedback.packets = [] then some (none, a)
  else
    let a := { a with
      currentOffset := a.advanceOffset feedback.reportTimestampCompactNtp feedbackReceiveTime
      lastFeedbackCompactNtpTime := some feedback.reportTimestampCompactNtp }
    (a.processPacketInfos feedback.packets).map fun (results, supportsEcn, a) =>
      let sorted := results.insertionSort fun lhs rhs =>
        lhs.sentPacket.sequenceNumber ≤ rhs.sentPacket.sequenceNumber
      (a.toTransportFeedback sorted feedbackReceiveTime supportsEcn, a)

def setNetworkRoute (networkRoute : NetworkRoute) : TransportFeedbackAdapter :=
  { a with networkRoute := networkRoute }

end TransportFeedbackAdapter

end Congestion
