import WebRtc.Dcsctp.DataTracker

/-!
# Delayed acknowledgements

When `DcSctpSocket::ReceivePacket` and `TransmissionControlBlock` (`net/dcsctp/socket`) send a SACK:
at the end of a packet, with outgoing data, or when the delayed ack timer expires. The packets that
wait for a SACK are counted beside the tracker; nothing reads the count.
-/

namespace Dcsctp

namespace DataTracker

def willIncreaseCumAckTsn (d : DataTracker) (tsn : TSN) : Bool :=
  d.tsnUnwrapper.peekUnwrap tsn = d.lastCumulativeAckedTsn + 1

/-- `ForceImmediateSack`, which does not stop the timer. -/
def forceImmediateSack (d : DataTracker) : DataTracker := { d with ackState := .immediate }

def Kept (before after : AckState) : Prop := after = .immediate ∨ after = before

/-- A SACK is due, or it is delayed from the end of the packet on and was not before. -/
def Noted (before after : AckState) : Prop :=
  after = .immediate ∨ after = .becomingDelayed ∧ (before = .idle ∨ before = .becomingDelayed)

variable {d : DataTracker} {before : AckState}

theorem ackState_updateAckState (new : AckState) : (d.updateAckState new).ackState = new := by
  unfold updateAckState
  by_cases hsame : new = d.ackState
  · rw [if_pos hsame, hsame]
  · rw [if_neg hsame]

theorem Kept.ackImmediatelyIf (h : Kept before d.ackState) (condition : Bool) :
    Kept before (d.ackImmediatelyIf condition).ackState := by
  unfold DataTracker.ackImmediatelyIf
  split_ifs
  · exact .inl (ackState_updateAckState _)
  · exact h

theorem Kept.markSeen (h : Kept before d.ackState) : Kept before d.markSeen.ackState := by
  unfold DataTracker.markSeen
  split_ifs
  · exact h
  · exact .inl (ackState_updateAckState _)

theorem kept_recordTsn (tsn : TSN) (unwrappedTsn : Int) :
    Kept d.ackState (d.recordTsn tsn unwrappedTsn).2.ackState := by
  unfold recordTsn
  dsimp only
  split_ifs
  · exact .inl (ackState_updateAckState _)
  all_goals exact .inr rfl

theorem Kept.delayAck (h : Kept before d.ackState) : Noted before d.delayAck.ackState := by
  unfold DataTracker.delayAck
  split_ifs with hidle hdelayed
  · rw [ackState_updateAckState]
    obtain h | h := h
    · cases h.symm.trans hidle
    · exact .inr ⟨rfl, .inl (h.symm.trans hidle)⟩
  · exact .inl (ackState_updateAckState _)
  · obtain h | h := h
    · exact .inl h
    · cases before <;> simp_all [Noted]

theorem noted_observe (tsn : TSN) (immediateAck : Bool) :
    Noted d.ackState (d.observe tsn immediateAck).2.ackState :=
  ((((kept_recordTsn (d := { d with tsnUnwrapper := (d.tsnUnwrapper.unwrap tsn).2 }) tsn
    _).ackImmediatelyIf _).ackImmediatelyIf _).markSeen).delayAck

theorem noted_handleForwardTsn (tsn : TSN) :
    Noted d.ackState (d.handleForwardTsn tsn).2.ackState := by
  unfold handleForwardTsn
  dsimp only
  split_ifs
  · exact .inl (ackState_updateAckState _)
  · exact Kept.delayAck (.inr rfl)

end DataTracker

/-- For a DATA chunk it matters whether the reassembly queue is above its watermark. -/
inductive ReceiverEvent where
  | data (tsn : TSN) (immediateAck aboveWatermark : Bool)
  | forwardTsn (newCumulativeTsn : TSN)
  | packetEnd
  | sendBufferedPackets
  | delayedAckTimerExpiry

/-- The packets with chunks since the last SACK are `waiting`, and the one being received if
`current`. -/
structure Receiver where
  tracker : DataTracker
  waiting : Nat
  current : Bool

namespace Receiver

open DataTracker

def initial (peerInitialTsn : TSN) : Receiver := ⟨.initial peerInitialTsn, 0, false⟩

def maybeSendSack (r : Receiver) (alsoIfDelayed : Bool) : Receiver :=
  match r.tracker.shouldSendAck alsoIfDelayed with
  | (true, tracker) => ⟨tracker, 0, false⟩
  | (false, tracker) => { r with tracker }

/-- The ends of `HandleDataCommon` and of `ReceivePacket`, `HandleForwardTsnCommon`, the SACK of
`SendBufferedPackets`, and `OnDelayedAckTimerExpiry`. -/
def perform (r : Receiver) : ReceiverEvent → Receiver
  | .data tsn immediateAck aboveWatermark =>
    if aboveWatermark && !r.tracker.willIncreaseCumAckTsn tsn then
      { r with tracker := r.tracker.forceImmediateSack }
    else if !r.tracker.isTSNValid tsn then r
    else { r with tracker := (r.tracker.observe tsn immediateAck).2, current := true }
  | .forwardTsn newCumulativeTsn =>
    { r with tracker := (r.tracker.handleForwardTsn newCumulativeTsn).2, current := true }
  | .packetEnd =>
    maybeSendSack ⟨r.tracker.observePacketEnd, r.waiting + r.current.toNat, false⟩ false
  | .sendBufferedPackets => r.maybeSendSack true
  | .delayedAckTimerExpiry =>
    if r.tracker.delayedAckTimerRunning then
      { r with tracker := { r.tracker with
          delayedAckTimerRunning := false }.handleDelayedAckTimerExpiry }.maybeSendSack false
    else r

structure Consistent (r : Receiver) : Prop where
  waiting_le : r.waiting ≤ 1
  idle : r.tracker.ackState = .idle → r.waiting = 0 ∧ r.current = false
  becomingDelayed : r.tracker.ackState = .becomingDelayed → r.waiting = 0
  delayed : r.tracker.ackState = .delayed →
    r.current = false ∧ r.tracker.delayedAckTimerRunning = true

variable {r : Receiver}

theorem Consistent.of_idle (tracker : DataTracker) (h : tracker.ackState = .idle) :
    Consistent ⟨tracker, 0, false⟩ := by
  constructor <;> simp [h]

/-- A chunk is taken note of. -/
theorem Consistent.noted (h : Consistent r) {tracker : DataTracker}
    (hnoted : Noted r.tracker.ackState tracker.ackState) (current : Bool) :
    Consistent ⟨tracker, r.waiting, current⟩ := by
  have hle := h.waiting_le
  obtain himmediate | ⟨hdelayed, hidle | hdelayed'⟩ := hnoted
  · constructor <;> simp [himmediate, hle]
  · constructor <;> simp [hdelayed, (h.idle hidle).1]
  · constructor <;> simp [hdelayed, h.becomingDelayed hdelayed']

theorem Consistent.maybeSendSack (alsoIfDelayed : Bool)
    (h : r.tracker.ackState ≠ .immediate → Consistent r) :
    Consistent (r.maybeSendSack alsoIfDelayed) ∧
      ((r.maybeSendSack alsoIfDelayed).tracker.ackState ≠ .immediate) ∧
      (r.tracker.ackState = .immediate → (r.maybeSendSack alsoIfDelayed).waiting = 0) := by
  unfold Receiver.maybeSendSack shouldSendAck
  by_cases hdue : r.tracker.ackState = .immediate ∨ alsoIfDelayed ∧
      (r.tracker.ackState = .becomingDelayed ∨ r.tracker.ackState = .delayed)
  · rw [if_pos hdue]
    have hidle := ackState_updateAckState (d := r.tracker) .idle
    exact ⟨of_idle _ hidle, by simp [hidle], fun _ => rfl⟩
  · rw [if_neg hdue]
    have himmediate : r.tracker.ackState ≠ .immediate := fun h => hdue (.inl h)
    exact ⟨h himmediate, himmediate, fun h => absurd h himmediate⟩

theorem Consistent.packetEnd (h : Consistent r) :
    Consistent (r.perform .packetEnd) ∧ (r.perform .packetEnd).tracker.ackState ≠ .immediate := by
  refine (fun hend => (Consistent.maybeSendSack false hend).imp_right And.left) fun himmediate => ?_
  cases hstate : r.tracker.ackState with
  | idle =>
    obtain ⟨hwaiting, hcurrent⟩ := h.idle hstate
    constructor <;> simp [observePacketEnd, hstate, hwaiting, hcurrent]
  | becomingDelayed =>
    have hwaiting := h.becomingDelayed hstate
    constructor <;> simp [observePacketEnd, updateAckState, hstate, hwaiting,
      Bool.toNat_le]
  | delayed =>
    obtain ⟨hcurrent, hrunning⟩ := h.delayed hstate
    have hle := h.waiting_le
    constructor <;> simp [observePacketEnd, hstate, hcurrent, hrunning, hle]
  | immediate => simp [observePacketEnd, hstate] at himmediate

theorem expiry (hrunning : r.tracker.delayedAckTimerRunning = true) :
    Consistent (r.perform .delayedAckTimerExpiry) ∧
      (r.perform .delayedAckTimerExpiry).waiting = 0 := by
  have hexpired := ackState_updateAckState
    (d := { r.tracker with delayedAckTimerRunning := false }) .immediate
  obtain ⟨hconsistent, -, hwaiting⟩ := Consistent.maybeSendSack
    (r := { r with tracker := { r.tracker with
      delayedAckTimerRunning := false }.handleDelayedAckTimerExpiry }) false fun h => absurd hexpired h
  rw [perform, if_pos hrunning]
  exact ⟨hconsistent, hwaiting hexpired⟩

theorem Consistent.perform (h : Consistent r) (event : ReceiverEvent) :
    Consistent (r.perform event) := by
  cases event with
  | data tsn immediateAck aboveWatermark =>
    rw [Receiver.perform]
    split_ifs
    · exact h.noted (show Noted _ r.tracker.forceImmediateSack.ackState from .inl rfl) _
    · exact h
    · exact h.noted (noted_observe ..) true
  | forwardTsn tsn => exact h.noted (noted_handleForwardTsn ..) true
  | packetEnd => exact h.packetEnd.1
  | sendBufferedPackets => exact (Consistent.maybeSendSack true fun _ => h).1
  | delayedAckTimerExpiry =>
    by_cases hrunning : r.tracker.delayedAckTimerRunning = true
    · exact (expiry hrunning).1
    · rwa [Receiver.perform, if_neg hrunning]

theorem Consistent.run (h : Consistent r) (events : List ReceiverEvent) :
    Consistent (events.foldl Receiver.perform r) := by
  induction events generalizing r with
  | nil => exact h
  | cons event events ih => exact ih (h.perform event)

/-- At most one earlier packet waits for a SACK. If one waits after a packet then the delayed ack
timer runs, and when it expires nothing waits any more. -/
theorem second_packet_acknowledged (peerInitialTsn : TSN) (events : List ReceiverEvent) :
    let r := events.foldl perform (initial peerInitialTsn)
    let rested := r.perform .packetEnd
    r.waiting ≤ 1 ∧
    (rested.waiting = 1 → rested.tracker.ackState = .delayed ∧
      rested.tracker.delayedAckTimerRunning = true ∧
      (rested.perform .delayedAckTimerExpiry).waiting = 0) := by
  intro r rested
  have h : Consistent r := (Consistent.of_idle (.initial peerInitialTsn) rfl).run events
  obtain ⟨hrested, himmediate⟩ := h.packetEnd
  refine ⟨h.waiting_le, fun hwaiting => ?_⟩
  have hdelayed : rested.tracker.ackState = .delayed := by
    cases hstate : rested.tracker.ackState with
    | idle => cases hwaiting.symm.trans (hrested.idle hstate).1
    | becomingDelayed => cases hwaiting.symm.trans (hrested.becomingDelayed hstate)
    | delayed => rfl
    | immediate => exact absurd hstate himmediate
  have hrunning := (hrested.delayed hdelayed).2
  exact ⟨hdelayed, hrunning, (expiry hrunning).2⟩

end Receiver

end Dcsctp
