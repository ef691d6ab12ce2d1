import WebRtc.Dcsctp.OutstandingDataSteps
import WebRtc.SequenceNumbers

/-!
# The retransmission queue

Model of `RetransmissionQueue` (`net/dcsctp/tx/retransmission_queue.cc`): which SACKs are handled,
the congestion and receiver windows, and what is sent next. The send queue is any state with the two
operations that are called. Metrics, lifecycle callbacks and RTT measurements do not feed back and
are left out.
-/

namespace Dcsctp

open SequenceNumbers Wrapping Units OutstandingData

structure DataToSend where
  messageId : OutgoingMessageId
  data : Data
  maxRetransmissions : MaxRetransmits := MaxRetransmits.noLimit
  expiresAt : Timestamp := .plusInfinity
  lifecycleId : LifecycleId := 0
deriving DecidableEq, Repr

/-- The operations of `SendQueue` that `RetransmissionQueue` calls. -/
structure SendQueue (σ : Type) where
  produce : σ → Timestamp → Nat → Option DataToSend × σ
  discard : σ → StreamID → OutgoingMessageId → Bool × σ

/-- The fields of `DcSctpOptions` that `RetransmissionQueue` reads. -/
structure CongestionOptions where
  mtu : Nat := 1191
  cwndMtusInitial : Nat := 10
  cwndMtusMin : Nat := 4
deriving DecidableEq, Repr

structure RetransmissionQueue where
  options : CongestionOptions
  partialReliability : Bool
  t3RtxRunning : Bool
  tsnUnwrapper : SeqNumUnwrapper 32
  cwnd : Nat
  rwnd : Nat
  ssthresh : Nat
  partialBytesAcked : Nat
  fastRecoveryExitTsn : Option Int
  outstandingData : OutstandingData

namespace RetransmissionQueue

def kDataChunkHeaderSize : Nat := 16

def kSizeT : Nat := 18446744073709551616

def initial (options : CongestionOptions) (partialReliability : Bool) (myInitialTsn : TSN)
    (aRwnd : Nat) : RetransmissionQueue where
  options := options
  partialReliability := partialReliability
  t3RtxRunning := false
  tsnUnwrapper := (SeqNumUnwrapper.initial.unwrap (myInitialTsn - 1)).2
  cwnd := options.cwndMtusInitial * options.mtu
  rwnd := aRwnd
  ssthresh := aRwnd
  partialBytesAcked := 0
  fastRecoveryExitTsn := none
  outstandingData := OutstandingData.initial kDataChunkHeaderSize
    (SeqNumUnwrapper.initial.unwrap (myInitialTsn - 1)).1

variable (q : RetransmissionQueue)

def isInFastRecovery : Bool := q.fastRecoveryExitTsn.isSome

def maybeExitFastRecovery (cumulativeTsnAck : Int) : RetransmissionQueue :=
  match q.fastRecoveryExitTsn with
  | some exitTsn => if exitTsn ≤ cumulativeTsnAck then { q with fastRecoveryExitTsn := none } else q
  | none => q

def handleIncreasedCumulativeTsnAck
    (unackedPacketBytes totalBytesAcked : Nat) : RetransmissionQueue :=
  let isFullyUtilized := q.cwnd ≤ unackedPacketBytes + q.options.mtu
  if q.cwnd ≤ q.ssthresh then
    if isFullyUtilized && !q.isInFastRecovery then
      { q with cwnd := q.cwnd + min totalBytesAcked q.options.mtu }
    else q
  else
    let partialBytesAcked := q.partialBytesAcked + totalBytesAcked
    if q.cwnd ≤ partialBytesAcked && isFullyUtilized then
      { q with partialBytesAcked := partialBytesAcked - q.cwnd, cwnd := q.cwnd + q.options.mtu }
    else { q with partialBytesAcked := partialBytesAcked }

def handlePacketLoss : RetransmissionQueue :=
  if q.isInFastRecovery then q
  else
    let ssthresh := max (q.cwnd / 2) (q.options.cwndMtusMin * q.options.mtu)
    { q with
      ssthresh := ssthresh
      cwnd := ssthresh
      partialBytesAcked := 0
      fastRecoveryExitTsn := some q.outstandingData.highestOutstandingTsn }

def updateReceiverWindow (aRwnd : Nat) : RetransmissionQueue :=
  { q with rwnd := aRwnd - q.outstandingData.unackedPayloadBytes }

def startT3RtxTimerIfOutstandingData : RetransmissionQueue :=
  if q.outstandingData.empty then q else { q with t3RtxRunning := true }

def isSackValid (sack : SackChunk) : Bool :=
  let cumulativeTsnAck := q.tsnUnwrapper.peekUnwrap sack.cumulativeTsnAck
  q.outstandingData.lastCumulativeTsnAck ≤ cumulativeTsnAck &&
    cumulativeTsnAck ≤ q.outstandingData.highestOutstandingTsn

/-- What `HandleSack` does when the cumulative TSN ack has increased. -/
def noteIncrease (increased : Bool)
    (oldUnackedPacketBytes bytesAcked : Nat) : RetransmissionQueue :=
  if increased then
    { q with t3RtxRunning := false }.handleIncreasedCumulativeTsnAck oldUnackedPacketBytes
      bytesAcked
  else q

/-- What `HandleSack` does when a chunk was found lost. -/
def noteLoss (hasPacketLoss : Bool) : RetransmissionQueue :=
  if hasPacketLoss then q.handlePacketLoss else q

/-- The part of `HandleSack` after the outstanding data has been updated. -/
def adjustWindows (sack : SackChunk) (ackInfo : AckInfo)
    (oldUnackedPacketBytes : Nat) (increased : Bool) : RetransmissionQueue :=
  (((q.updateReceiverWindow sack.aRwnd).noteIncrease increased oldUnackedPacketBytes
    ackInfo.bytesAcked).noteLoss ackInfo.hasPacketLoss).startT3RtxTimerIfOutstandingData

section

variable {σ : Type} (sendQueue : SendQueue σ)

/-- `HandleSack`: says whether the SACK was processed. -/
def handleSack (sack : SackChunk) (s : RetransmissionQueue × σ) : Bool × RetransmissionQueue × σ :=
  if s.1.isSackValid sack then
    let unwrapped := s.1.tsnUnwrapper.unwrap sack.cumulativeTsnAck
    let q := { s.1 with tsnUnwrapper := unwrapped.2 }.maybeExitFastRecovery unwrapped.1
    let handled := OutstandingData.handleSack sendQueue.discard unwrapped.1 sack.gapAckBlocks
      q.isInFastRecovery (s.1.outstandingData, s.2)
    (true, { q with outstandingData := handled.2.1 }.adjustWindows sack handled.1
        s.1.outstandingData.unackedPacketBytes
        (s.1.outstandingData.lastCumulativeTsnAck < unwrapped.1), handled.2.2)
  else (false, s)

def handleT3RtxTimerExpiry (s : RetransmissionQueue × σ) : RetransmissionQueue × σ :=
  let nacked := OutstandingData.nackAll sendQueue.discard (s.1.outstandingData, s.2)
  ({ s.1 with
      ssthresh := max (s.1.cwnd / 2) (4 * s.1.options.mtu)
      cwnd := s.1.options.mtu
      partialBytesAcked := 0
      outstandingData := nacked.1 },
    nacked.2)

def getChunksForFastRetransmit (q : RetransmissionQueue) (bytesInPacket : Nat) :
    List (Int × Data) × RetransmissionQueue :=
  let extracted := q.outstandingData.getChunksToBeFastRetransmitted bytesInPacket
  (extracted.1, { q with outstandingData := extracted.2, t3RtxRunning := true })

/-- `max_bytes` of `GetChunksToSend`. -/
def sendBudget (q : RetransmissionQueue) (bytesRemainingInPacket : Nat) : Nat :=
  let allowedByCwnd := q.cwnd - q.outstandingData.unackedPacketBytes
  let allowedByRwnd :=
    if q.outstandingData.unackedItems = 0 then q.options.mtu
    else roundDownTo4 ((q.rwnd + q.outstandingData.dataChunkHeaderSize + 3) % kSizeT)
  roundDownTo4 (min (min allowedByCwnd allowedByRwnd) bytesRemainingInPacket)

/-- The body of the loop of `GetChunksToSend`: a produced chunk gets the next TSN, unless it has
expired. -/
def insertProduced (now : Timestamp) (chunk : DataToSend) (s : RetransmissionQueue × σ) :
    Option Int × RetransmissionQueue × σ :=
  let inserted := OutstandingData.insertChunk sendQueue.discard chunk.messageId chunk.data now
    (if s.1.partialReliability then chunk.maxRetransmissions else MaxRetransmits.noLimit)
    (if s.1.partialReliability then chunk.expiresAt else .plusInfinity)
    chunk.lifecycleId (s.1.outstandingData, s.2)
  (inserted.1, { s.1 with
      rwnd := (s.1.rwnd + kSizeT - chunk.data.size) % kSizeT
      outstandingData := inserted.2.1 },
    inserted.2.2)

/-- The loop of `GetChunksToSend`. Every round uses up part of the budget. -/
def sendLoop (now : Timestamp) :
    Nat → Nat → RetransmissionQueue × σ → List (Int × Data) × RetransmissionQueue × σ
  | 0, _, s => ([], s)
  | fuel + 1, maxBytes, s =>
    let headerSize := s.1.outstandingData.dataChunkHeaderSize
    if headerSize < maxBytes then
      let produced := sendQueue.produce s.2 now (maxBytes - headerSize)
      match produced.1 with
      | none => ([], s.1, produced.2)
      | some chunk =>
        let inserted := insertProduced sendQueue now chunk (s.1, produced.2)
        let rest := sendLoop now fuel
          (maxBytes - s.1.outstandingData.getSerializedChunkSize chunk.data) inserted.2
        (match inserted.1 with
          | some tsn => (tsn, chunk.data) :: rest.1
          | none => rest.1, rest.2)
    else ([], s)

/-- The first part of `GetChunksToSend`: chunks that wait for a retransmission. -/
def retransmitChunks (q : RetransmissionQueue) (maxBytes : Nat) :
    List (Int × Data) × RetransmissionQueue :=
  let extracted := q.outstandingData.getChunksToBeRetransmitted maxBytes
  (extracted.1, { q with outstandingData := extracted.2 })

def startT3RtxIf (q : RetransmissionQueue) (sent : Bool) : RetransmissionQueue :=
  { q with t3RtxRunning := q.t3RtxRunning || sent }

/-- `c_accumulate` starts with an `int`, so every partial sum is cut down to 32 bits with a sign. -/
def bytesRetransmitted (q : RetransmissionQueue) (chunks : List (Int × Data)) : Int :=
  chunks.foldl
    (fun r chunk => (r + q.outstandingData.getSerializedChunkSize chunk.2).bmod 4294967296) 0

/-- `GetChunksToSend`. The TSNs of the result are still unwrapped. -/
def getChunksToSend (now : Timestamp) (bytesRemainingInPacket : Nat)
    (s : RetransmissionQueue × σ) : List (Int × Data) × RetransmissionQueue × σ :=
  let maxBytes := s.1.sendBudget bytesRemainingInPacket
  let retransmitted := s.1.retransmitChunks maxBytes
  let bytesLeft := ((maxBytes - s.1.bytesRetransmitted retransmitted.1) % kSizeT).toNat
  let new := sendLoop sendQueue now bytesLeft bytesLeft (retransmitted.2, s.2)
  let toBeSent := retransmitted.1 ++ new.1
  (toBeSent, new.2.1.startT3RtxIf (toBeSent ≠ []), new.2.2)

def shouldSendForwardTsn (now : Timestamp) (s : RetransmissionQueue × σ) :
    Bool × RetransmissionQueue × σ :=
  if s.1.partialReliability then
    let expired :=
      OutstandingData.expireOutstandingChunks sendQueue.discard now (s.1.outstandingData, s.2)
    (expired.1.shouldSendForwardTsn, { s.1 with outstandingData := expired.1 }, expired.2)
  else (false, s)

end

section Windows

variable (q : RetransmissionQueue)

/-- Two queues that differ at most in their windows, timer and recovery point. -/
structure SameData (q q' : RetransmissionQueue) : Prop where
  options : q'.options = q.options
  partialReliability : q'.partialReliability = q.partialReliability
  tsnUnwrapper : q'.tsnUnwrapper = q.tsnUnwrapper
  outstandingData : q'.outstandingData = q.outstandingData

theorem SameData.refl : SameData q q := ⟨rfl, rfl, rfl, rfl⟩

theorem SameData.trans {a b c : RetransmissionQueue} (hab : SameData a b) (hbc : SameData b c) :
    SameData a c where
  options := hbc.options.trans hab.options
  partialReliability := hbc.partialReliability.trans hab.partialReliability
  tsnUnwrapper := hbc.tsnUnwrapper.trans hab.tsnUnwrapper
  outstandingData := hbc.outstandingData.trans hab.outstandingData

theorem sameData_maybeExitFastRecovery (cumulativeTsnAck : Int) :
    SameData q (q.maybeExitFastRecovery cumulativeTsnAck) := by
  unfold maybeExitFastRecovery
  split
  · split_ifs
    · exact ⟨rfl, rfl, rfl, rfl⟩
    · exact SameData.refl q
  · exact SameData.refl q

theorem sameData_handlePacketLoss : SameData q q.handlePacketLoss := by
  unfold handlePacketLoss
  split_ifs
  · exact SameData.refl q
  · exact ⟨rfl, rfl, rfl, rfl⟩

theorem sameData_startT3RtxTimerIfOutstandingData :
    SameData q q.startT3RtxTimerIfOutstandingData := by
  unfold startT3RtxTimerIfOutstandingData
  split_ifs
  · exact SameData.refl q
  · exact ⟨rfl, rfl, rfl, rfl⟩

theorem sameData_noteIncrease (increased : Bool) (oldUnackedPacketBytes bytesAcked : Nat) :
    SameData q (q.noteIncrease increased oldUnackedPacketBytes bytesAcked) := by
  unfold noteIncrease handleIncreasedCumulativeTsnAck
  dsimp only
  split_ifs <;> exact ⟨rfl, rfl, rfl, rfl⟩

theorem sameData_noteLoss (hasPacketLoss : Bool) : SameData q (q.noteLoss hasPacketLoss) := by
  unfold noteLoss
  split_ifs
  · exact sameData_handlePacketLoss q
  · exact SameData.refl q

theorem sameData_adjustWindows (sack : SackChunk) (ackInfo : AckInfo) (oldUnackedPacketBytes : Nat)
    (increased : Bool) :
    SameData q (q.adjustWindows sack ackInfo oldUnackedPacketBytes increased) := by
  refine SameData.trans ?_ (sameData_startT3RtxTimerIfOutstandingData _)
  refine SameData.trans ?_ (sameData_noteLoss _ _)
  have h := sameData_noteIncrease (q.updateReceiverWindow sack.aRwnd) increased
    oldUnackedPacketBytes ackInfo.bytesAcked
  exact { h with }

end Windows

section Sack

variable {σ : Type} (sendQueue : SendQueue σ) {sack : SackChunk} {s : RetransmissionQueue × σ}

theorem isSackValid_iff {q : RetransmissionQueue} : q.isSackValid sack = true ↔
      q.outstandingData.outstandingData.base ≤ q.tsnUnwrapper.peekUnwrap sack.cumulativeTsnAck ∧
      q.tsnUnwrapper.peekUnwrap sack.cumulativeTsnAck ≤ q.outstandingData.outstandingData.highest := by
  simp only [isSackValid, Bool.and_eq_true, decide_eq_true_eq]
  rfl

theorem handleSack_invalid (invalid : s.1.isSackValid sack = false) :
    handleSack sendQueue sack s = (false, s) := by
  rw [handleSack, invalid]
  rfl

/-- A valid SACK changes the outstanding data as `OutstandingData::HandleSack` does. -/
theorem handleSack_valid (valid : s.1.isSackValid sack = true) :
    ∃ isInFastRecovery : Bool, (handleSack sendQueue sack s).2.1.outstandingData =
        (OutstandingData.handleSack sendQueue.discard
          (s.1.tsnUnwrapper.peekUnwrap sack.cumulativeTsnAck) sack.gapAckBlocks isInFastRecovery
          (s.1.outstandingData, s.2)).2.1 ∧ (handleSack sendQueue sack s).2.2 =
        (OutstandingData.handleSack sendQueue.discard
          (s.1.tsnUnwrapper.peekUnwrap sack.cumulativeTsnAck) sack.gapAckBlocks isInFastRecovery
          (s.1.outstandingData, s.2)).2.2 ∧ (handleSack sendQueue sack s).2.1.tsnUnwrapper =
        (s.1.tsnUnwrapper.unwrap sack.cumulativeTsnAck).2 ∧
      (handleSack sendQueue sack s).2.1.options = s.1.options ∧
      (handleSack sendQueue sack s).2.1.partialReliability = s.1.partialReliability := by
  rw [handleSack, valid]
  simp only [if_true]
  have hexit := sameData_maybeExitFastRecovery { s.1 with tsnUnwrapper :=
    (s.1.tsnUnwrapper.unwrap sack.cumulativeTsnAck).2 }
      (s.1.tsnUnwrapper.unwrap sack.cumulativeTsnAck).1
  have hwindows := fun q info bytes advanced => sameData_adjustWindows q sack info bytes advanced
  exact ⟨_, (hwindows _ _ _ _).outstandingData, rfl,
    (hwindows _ _ _ _).tsnUnwrapper.trans hexit.tsnUnwrapper,
    (hwindows _ _ _ _).options.trans hexit.options,
    (hwindows _ _ _ _).partialReliability.trans hexit.partialReliability⟩

theorem base_handleSack (valid : s.1.isSackValid sack = true) :
    (handleSack sendQueue sack s).2.1.outstandingData.outstandingData.base =
      s.1.tsnUnwrapper.peekUnwrap sack.cumulativeTsnAck := by
  obtain ⟨isInFastRecovery, hdata, -⟩ := handleSack_valid sendQueue valid
  obtain ⟨lower, upper⟩ := isSackValid_iff.mp valid
  rw [hdata, (extends_handleSack ..).base]
  exact (acknowledge_spec sack.gapAckBlocks lower upper).base

end Sack

section Frame

variable {σ : Type} (sendQueue : SendQueue σ)

theorem extends_handleT3RtxTimerExpiry (s : RetransmissionQueue × σ) :
    OutstandingData.Extends s.1.outstandingData.outstandingData
      (handleT3RtxTimerExpiry sendQueue s).1.outstandingData.outstandingData :=
  extends_nackEach sendQueue.discard _ (s.1.outstandingData, s.2)

theorem extends_getChunksForFastRetransmit (q : RetransmissionQueue) (bytesInPacket : Nat) :
    OutstandingData.Extends q.outstandingData.outstandingData
      (q.getChunksForFastRetransmit bytesInPacket).2.outstandingData.outstandingData :=
  extends_extractLoop .fast _ _ q.outstandingData

theorem extends_sendLoop (now : Timestamp) : ∀ (fuel maxBytes : Nat) (s : RetransmissionQueue × σ),
      OutstandingData.Extends s.1.outstandingData.outstandingData
        (sendLoop sendQueue now fuel maxBytes s).2.1.outstandingData.outstandingData := by
  intro fuel
  induction fuel with
  | zero => exact fun _ s => OutstandingData.Extends.refl _
  | succ fuel ih =>
    intro maxBytes s
    rw [sendLoop]
    dsimp only
    split_ifs
    · split
      · exact OutstandingData.Extends.refl _
      · case h_2 chunk _ =>
        refine OutstandingData.Extends.trans ?_ (ih _ _)
        exact extends_insertChunk sendQueue.discard _ _ _ _ _ _ (s.1.outstandingData, _)
    · exact OutstandingData.Extends.refl _

theorem extends_getChunksToSend (now : Timestamp) (bytesRemainingInPacket : Nat)
    (s : RetransmissionQueue × σ) :
    OutstandingData.Extends s.1.outstandingData.outstandingData
      (getChunksToSend sendQueue now bytesRemainingInPacket s).2.1.outstandingData.outstandingData := by
  refine OutstandingData.Extends.trans ?_ (extends_sendLoop sendQueue now _ _ _)
  exact extends_extractLoop .timer _ _ s.1.outstandingData

theorem extends_shouldSendForwardTsn (now : Timestamp) (s : RetransmissionQueue × σ) :
    OutstandingData.Extends s.1.outstandingData.outstandingData
      (shouldSendForwardTsn sendQueue now s).2.1.outstandingData.outstandingData := by
  unfold shouldSendForwardTsn
  split_ifs
  · exact extends_expireLoop sendQueue.discard now _ _ (s.1.outstandingData, s.2)
  · exact OutstandingData.Extends.refl _

end Frame

end RetransmissionQueue

end Dcsctp
