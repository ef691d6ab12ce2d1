import WebRtc.Dcsctp.SackEffects
import WebRtc.Dcsctp.Socket

/-!
# Shutting down over outstanding data

`MaybeSendShutdownOrAck` asks whether any chunk is in flight, and a chunk that was found missing is
not. So a SHUTDOWN can be sent while a chunk waits for its retransmission. It is not if at each such
moment some chunk stays in flight or no chunk is missing.
-/

namespace Dcsctp

open Units DcSctpSocket RetransmissionQueue

namespace OutstandingData

variable {d : OutstandingData}

structure AtRest (d : OutstandingData) : Prop where
  accounted : Accounted d
  slow : d.toBeFastRetransmitted = ∅

section Rest

variable {σ : Type} (discard : σ → StreamID → OutgoingMessageId → Bool × σ)
  {s : OutstandingData × σ}

theorem toBeFastRetransmitted_abandonAllFor (item : Item) (slow : s.1.toBeFastRetransmitted = ∅) :
    (abandonAllFor discard item s).1.toBeFastRetransmitted = ∅ := by
  refine abandonAllFor_preserves discard (motive := fun d => d.toBeFastRetransmitted = ∅) id
    (fun d tsn other _ _ slow => ?_) slow
  unfold abandonItem
  split_ifs
  · simp [modifyItem, eraseFrom, slow]
  · exact slow

theorem AtRest.abandonAllFor (h : AtRest s.1) (item : Item) :
    AtRest (abandonAllFor discard item s).1 :=
  ⟨abandonAllFor_accounted discard h.accounted item,
    toBeFastRetransmitted_abandonAllFor discard item h.slow⟩

theorem AtRest.insertChunk (h : AtRest s.1) (messageId : OutgoingMessageId) (data : Data)
    (timeSent : Timestamp) (maxRetransmissions : MaxRetransmits) (expiresAt : Timestamp)
    (lifecycleId : LifecycleId) :
    AtRest (OutstandingData.insertChunk discard messageId data timeSent maxRetransmissions
      expiresAt lifecycleId s).2.1 := by
  refine ⟨insertChunk_accounted discard h.accounted .., ?_⟩
  unfold OutstandingData.insertChunk
  dsimp only
  split_ifs
  · exact toBeFastRetransmitted_abandonAllFor discard _ h.slow
  · exact h.slow

theorem AtRest.expireLoop (h : AtRest s.1) (now : Timestamp) (n : Nat) (tsn : Int) :
    AtRest (expireLoop discard now n tsn s).1 :=
  expireLoop_preserves discard (motive := fun s => AtRest s.1)
    (fun _ _ item _ _ _ h => h.abandonAllFor discard item) n tsn h

theorem toBeFastRetransmitted_nackItem (tsn : Int) (slow : s.1.toBeFastRetransmitted = ∅) :
    (nackItem discard tsn true false s).2.1.toBeFastRetransmitted = ∅ := by
  have hlanded : ∀ item : Item, ((s.1.takeOutOfFlight item).modifyItem tsn fun item =>
      (item.nack true).1).toBeFastRetransmitted = ∅ := by
    intro item
    unfold takeOutOfFlight
    split_ifs
    · exact slow
    · exact slow
  unfold nackItem
  split
  · exact slow
  · split
    · exact hlanded _
    · exact hlanded _
    · exact toBeFastRetransmitted_abandonAllFor discard _ (hlanded _)

theorem AtRest.nackAll (h : AtRest s.1) : AtRest (nackAll discard s).1 :=
  ⟨accounted_of_lossSteps discard (nackAll_steps discard s) h.accounted,
    nackEach_preserves discard (motive := fun s => s.1.toBeFastRetransmitted = ∅)
      (fun tsn _ => toBeFastRetransmitted_nackItem discard tsn) _ h.slow⟩

theorem AtRest.getChunksToBeRetransmitted {d : OutstandingData} (h : AtRest d) (maxSize : Nat) :
    AtRest (d.getChunksToBeRetransmitted maxSize).2 :=
  ⟨extractChunksThatCanFit_accounted h.accounted .timer maxSize,
    @extractLoop_preserves (fun d => d.toBeFastRetransmitted = ∅) _ .timer (fun _ slow => slow)
      (fun _ _ _ _ slow => slow) _ maxSize h.slow⟩

end Rest

section Sending

variable {q : RetransmissionQueue × RRSendQueue}

theorem AtRest.insertProduced {q : RetransmissionQueue} (h : AtRest q.outstandingData)
    (now : Timestamp) (chunk : DataToSend) (queue : RRSendQueue) :
    AtRest (insertProduced RRSendQueue.sendQueue now chunk
      (q, queue)).2.1.outstandingData :=
  AtRest.insertChunk RRSendQueue.sendQueue.discard (s := (q.outstandingData, queue)) h ..

theorem AtRest.sendLoop (now : Timestamp) :
    ∀ (fuel maxBytes : Nat) (q : RetransmissionQueue × RRSendQueue), AtRest q.1.outstandingData →
      AtRest (RetransmissionQueue.sendLoop RRSendQueue.sendQueue now fuel maxBytes
        q).2.1.outstandingData := by
  intro fuel
  induction fuel with
  | zero => exact fun _ _ h => h
  | succ fuel ih =>
    intro maxBytes q h
    rw [RetransmissionQueue.sendLoop]
    dsimp only
    split_ifs
    · split
      · exact h
      · case h_2 chunk _ =>
        apply ih
        exact h.insertProduced now chunk _
    · exact h

theorem AtRest.getChunksToSend (h : AtRest q.1.outstandingData) (now : Timestamp)
    (bytesRemaining : Nat) :
    AtRest (getChunksToSend RRSendQueue.sendQueue now bytesRemaining
      q).2.1.outstandingData := by
  refine AtRest.sendLoop now _ _ (_, q.2) ?_
  exact h.getChunksToBeRetransmitted _

theorem AtRest.sendPackets (now : Timestamp) :
    ∀ (packets : List Nat) (q : RetransmissionQueue × RRSendQueue), AtRest q.1.outstandingData →
      AtRest (sendPackets now packets q).1.outstandingData := by
  intro packets
  induction packets with
  | nil => exact fun _ h => h
  | cons bytesRemaining rest ih => exact fun q h => ih _ (h.getChunksToSend now bytesRemaining)

theorem AtRest.maybeSendForwardTsn (h : AtRest q.1.outstandingData) (burst : Burst) :
    AtRest (DcSctpSocket.maybeSendForwardTsn burst q).1.outstandingData := by
  unfold DcSctpSocket.maybeSendForwardTsn RetransmissionQueue.shouldSendForwardTsn
  split_ifs
  · exact AtRest.expireLoop RRSendQueue.sendQueue.discard (s := (q.1.outstandingData, q.2)) h
      burst.now _ _
  · exact h
  · exact h

end Sending

theorem Counted.landed (h : Counted d) (none : d.unackedItems = 0) {tsn : Int} {item : Item}
    (held : d.outstandingData.get? tsn = some item) : item.isOutstanding = false := by
  have hshare := Window.le_total held (inFlight fun _ => 1)
  rw [← h.items] at hshare
  cases hout : item.isOutstanding with
  | false => rfl
  | true =>
    rw [inFlight, if_pos hout] at hshare
    omega

def SomeInFlight (w : Window Item) : Prop := ∃ item ∈ w.items, item.isOutstanding = true

/-- Every chunk that was found missing has been abandoned. -/
def NoneMissing (w : Window Item) : Prop :=
  ∀ item ∈ w.items, item.isNacked = true → item.isAbandoned = true

def Done (item : Item) : Prop :=
  (item.isAcked = true ∨ item.isAbandoned = true) ∧ item.shouldBeRetransmitted = false

theorem Marked.done (h : Marked d) {tsn : Int} {item : Item}
    (held : d.outstandingData.get? tsn = some item)
    (settled : item.isAcked = true ∨ item.isAbandoned = true) : Done item := by
  refine ⟨settled, ?_⟩
  cases hmarked : item.shouldBeRetransmitted with
  | false => rfl
  | true =>
    have hlifecycle := of_decide_eq_true hmarked
    have hnacked := of_decide_eq_true (h.nacked held hmarked)
    rcases settled with hacked | habandoned
    · rw [Item.isAcked, hnacked] at hacked
      cases hacked
    · rw [Item.isAbandoned, hlifecycle] at habandoned
      cases habandoned

theorem Accounted.done (h : Accounted d) (none : d.unackedItems = 0)
    (safe : SomeInFlight d.outstandingData ∨ NoneMissing d.outstandingData) :
    ∀ item ∈ d.outstandingData.items, Done item := by
  intro item hmem
  obtain ⟨tsn, held⟩ := Window.mem_items_iff.mp hmem
  rcases safe with ⟨other, hother, hflying⟩ | hmissing
  · obtain ⟨t, held'⟩ := Window.mem_items_iff.mp hother
    rw [h.counted.landed none held'] at hflying
    cases hflying
  · apply h.marked.done held
    have hlanded := h.counted.landed none held
    cases hstate : item.ackState with
    | unacked =>
      rw [Item.isOutstanding, hstate] at hlanded
      cases hlanded
    | acked => exact Or.inl (decide_eq_true hstate)
    | nacked => exact Or.inr (hmissing item hmem (decide_eq_true hstate))

end OutstandingData

namespace DcSctpSocket

open OutstandingData

inductive Action where
  | connect
  | handleInitAck (handshake : Handshake) (burst : Burst)
  | handleCookieEcho (kind : CookieEchoKind) (handshake : Handshake) (burst : Burst)
  | handleCookieAck (burst : Burst)
  | send (message : DcSctpMessage) (options : SendOptions) (burst : Burst)
  | updateSendQueue (sendQueue : RRSendQueue)
  | beginResetStreams
  | sendBufferedPackets (burst : Burst)
  | handleSack (chunk : SackChunk) (burst : Burst)
  | onRtxTimerExpiry (burst : Burst)
  | shutdown
  | handleShutdown
  | handleShutdownAck
  | handleShutdownComplete
  | close

/-- The socket's reaction. Priorities and stream resets may change the send queue in any way. -/
def act (s : DcSctpSocket) : Action → DcSctpSocket
  | .connect => s.connect
  | .handleInitAck handshake burst => s.handleInitAck handshake burst
  | .handleCookieEcho kind handshake burst => s.handleCookieEcho kind handshake burst
  | .handleCookieAck burst => s.handleCookieAck burst
  | .send message options burst => (s.send message options burst).2
  | .updateSendQueue sendQueue => { s with sendQueue := sendQueue }
  | .beginResetStreams => s.beginResetStreams
  | .sendBufferedPackets burst => s.sendBufferedPackets burst
  | .handleSack chunk burst => s.handleSack chunk burst
  | .onRtxTimerExpiry burst => s.onRtxTimerExpiry burst
  | .shutdown => s.shutdown
  | .handleShutdown => s.handleShutdown
  | .handleShutdownAck => s.handleShutdownAck
  | .handleShutdownComplete => s.handleShutdownComplete
  | .close => s.internalClose

/-- Every chunk is acknowledged or abandoned, or some chunk stays in flight past the SACK. -/
def SackLeavesNoneMissing (q : RetransmissionQueue) (sack : SackChunk) : Prop :=
  (∃ tsn item, q.outstandingData.outstandingData.get? tsn = some item ∧ item.isOutstanding = true ∧
    PastSack (q.tsnUnwrapper.peekUnwrap sack.cumulativeTsnAck) sack.gapAckBlocks tsn) ∨
  Completes (q.tsnUnwrapper.peekUnwrap sack.cumulativeTsnAck) sack.gapAckBlocks
    q.outstandingData.outstandingData

/-- The condition on an action under which no SHUTDOWN is sent over a missing chunk. -/
def LeavesNoneMissing (s : DcSctpSocket) (action : Action) : Prop :=
  ∀ tcb, s.tcb = some tcb → match action with
    | .shutdown =>
      s.state ≠ .shutdownSent ∧ s.state ≠ .shutdownAckSent →
        SomeInFlight tcb.retransmissionQueue.outstandingData.outstandingData ∨
          NoneMissing tcb.retransmissionQueue.outstandingData.outstandingData
    | .handleShutdown =>
      s.state = .established ∨ s.state = .shutdownPending →
        SomeInFlight tcb.retransmissionQueue.outstandingData.outstandingData ∨
          NoneMissing tcb.retransmissionQueue.outstandingData.outstandingData
    | .handleSack chunk _ =>
      s.state = .shutdownPending ∨ s.state = .shutdownReceived →
        SackLeavesNoneMissing tcb.retransmissionQueue (ChunkValidators.clean chunk)
    | _ => True

/-- The states of all runs whose actions meet a condition. -/
inductive Reachable (condition : DcSctpSocket → Action → Prop) (start : DcSctpSocket) :
    DcSctpSocket → Prop
  | start : Reachable condition start start
  | act {s : DcSctpSocket} (action : Action) (reached : Reachable condition start s)
      (met : condition s action) : Reachable condition start (s.act action)

/-- The outstanding data is in order, and every closing found all chunks done. -/
structure Inv (ordered : OutstandingData → Prop) (s : DcSctpSocket) : Prop where
  data : ∀ tcb, s.tcb = some tcb → ordered tcb.retransmissionQueue.outstandingData
  closings : ∀ w ∈ s.closings, ∀ item ∈ w.items, Done item

section Steps

variable {s : DcSctpSocket} {before after : OutstandingData → Prop}

theorem Inv.withTcb (h : Inv before s)
    {f : RetransmissionQueue × RRSendQueue → RetransmissionQueue × RRSendQueue}
    (step : ∀ q, before q.1.outstandingData → after (f q).1.outstandingData) :
    Inv after (s.withTcb f) := by
  refine ⟨?_, ?_⟩
  · intro tcb htcb
    unfold DcSctpSocket.withTcb at htcb
    split at htcb
    · case h_1 hnone =>
      rw [hnone] at htcb
      cases htcb
    · case h_2 old hold =>
      cases htcb
      exact step (old.retransmissionQueue, s.sendQueue) (h.data old hold)
  · unfold DcSctpSocket.withTcb
    split
    · exact h.closings
    · exact h.closings

theorem Inv.setState (h : Inv before s) (state : SocketState) :
    Inv before { s with state := state } :=
  ⟨h.data, h.closings⟩

theorem Inv.maybeSendShutdownOrAck (h : Inv before s) (safe : ∀ tcb, s.tcb = some tcb →
      s.state = .shutdownPending ∨ s.state = .shutdownReceived →
      tcb.retransmissionQueue.outstandingData.unackedItems = 0 →
      ∀ item ∈ tcb.retransmissionQueue.outstandingData.outstandingData.items, Done item) :
    Inv before s.maybeSendShutdownOrAck := by
  unfold DcSctpSocket.maybeSendShutdownOrAck
  split
  · exact h
  · case h_2 tcb htcb =>
    split_ifs with hunacked
    · exact h
    · have hclosing : s.state = .shutdownPending ∨ s.state = .shutdownReceived →
          ∀ w ∈ tcb.retransmissionQueue.outstandingData.outstandingData :: s.closings,
            ∀ item ∈ w.items, Done item := by
        intro hstate w hw
        rcases List.mem_cons.mp hw with rfl | hw
        · exact safe tcb htcb hstate (not_not.mp hunacked)
        · exact h.closings w hw
      split
      · case h_1 hstate => exact ⟨h.data, hclosing (Or.inl hstate)⟩
      · case h_2 hstate => exact ⟨h.data, hclosing (Or.inr hstate)⟩
      · exact h

theorem Inv.internalClose (h : Inv before s) : Inv before s.internalClose := by
  unfold DcSctpSocket.internalClose
  split_ifs
  · exact h
  · exact ⟨by simp, h.closings⟩

theorem Inv.sendBufferedPackets (h : Inv AtRest s) (burst : Burst) :
    Inv AtRest (s.sendBufferedPackets burst) :=
  h.withTcb fun _ hq => AtRest.sendPackets burst.now _ _ (hq.maybeSendForwardTsn burst)

theorem Inv.maybeSendFastRetransmit (h : Inv Accounted s) :
    Inv AtRest s.maybeSendFastRetransmit := by
  refine h.withTcb ?_
  intro _ hq
  split_ifs with hfast
  · exact ⟨getChunksToBeFastRetransmitted_accounted hq _, rfl⟩
  · refine ⟨hq, ?_⟩
    simpa [hasDataToBeFastRetransmitted] using hfast

theorem Inv.establish (h : Inv AtRest s) : Inv AtRest s.establish := by
  unfold DcSctpSocket.establish
  split_ifs
  · exact h
  · refine ⟨?_, h.closings⟩
    intro tcb htcb
    obtain ⟨old, hold, rfl⟩ := Option.map_eq_some_iff.mp htcb
    exact h.data old hold

theorem Inv.createTransmissionControlBlock (h : Inv AtRest s) (handshake : Handshake)
    (cookieEchoChunk : Bool) :
    Inv AtRest (s.createTransmissionControlBlock handshake cookieEchoChunk) := by
  refine ⟨?_, h.closings⟩
  intro tcb htcb
  cases htcb
  exact ⟨accounted_initial _ _, rfl⟩

section Sack

variable {q : RetransmissionQueue × RRSendQueue} {sack : SackChunk}

theorem accounted_handleSack (h : AtRest q.1.outstandingData)
    (valid : q.1.isSackValid sack = true) :
    Accounted (RetransmissionQueue.handleSack RRSendQueue.sendQueue sack
      q).2.1.outstandingData := by
  obtain ⟨isInFastRecovery, hdata, -⟩ :=
    handleSack_valid RRSendQueue.sendQueue valid
  obtain ⟨lower, upper⟩ := isSackValid_iff.mp valid
  rw [hdata]
  apply accounted_of_lossSteps _ (handleSack_steps _ sack.gapAckBlocks isInFastRecovery lower upper)
  exact (accounted_of_ackSteps (acknowledge_spec sack.gapAckBlocks lower upper).steps h.accounted
    h.slow).1

theorem done_handleSack (h : AtRest q.1.outstandingData) (valid : q.1.isSackValid sack = true)
    (ordered : ChunkValidators.Ordered sack.gapAckBlocks) (safe : SackLeavesNoneMissing q.1 sack)
    (none : (RetransmissionQueue.handleSack RRSendQueue.sendQueue sack
      q).2.1.outstandingData.unackedItems = 0) :
    ∀ item ∈ (RetransmissionQueue.handleSack RRSendQueue.sendQueue sack
      q).2.1.outstandingData.outstandingData.items, Done item := by
  have haccounted := accounted_handleSack h valid
  obtain ⟨isInFastRecovery, hdata, -⟩ :=
    handleSack_valid RRSendQueue.sendQueue valid
  obtain ⟨lower, upper⟩ := isSackValid_iff.mp valid
  rw [hdata] at none haccounted ⊢
  rcases safe with ⟨x, item, held, hflying, hpast⟩ | hcomplete
  · obtain ⟨item', held', hflying'⟩ := isOutstanding_handleSack RRSendQueue.sendQueue.discard
      (s := (q.1.outstandingData, q.2)) isInFastRecovery lower upper ordered held hflying hpast
    exact haccounted.done none (Or.inl ⟨item', Window.mem_items_iff.mpr ⟨x, held'⟩, hflying'⟩)
  · have hsettled := settled_handleSack RRSendQueue.sendQueue.discard
      (s := (q.1.outstandingData, q.2)) isInFastRecovery lower upper ordered hcomplete
    intro item hmem
    obtain ⟨x, held⟩ := Window.mem_items_iff.mp hmem
    exact haccounted.marked.done held (hsettled x item held).1

end Sack

section

variable (h : Inv AtRest s)
include h

theorem Inv.handleSack {chunk : SackChunk} {burst : Burst}
    (met : LeavesNoneMissing s (.handleSack chunk burst)) :
    Inv AtRest (s.handleSack chunk burst) := by
  unfold DcSctpSocket.handleSack
  split
  · exact h
  · case h_2 tcb htcb =>
    dsimp only
    split_ifs with hhandled
    · have valid : tcb.retransmissionQueue.isSackValid (ChunkValidators.clean chunk) = true := by
        by_contra hinvalid
        rw [handleSack_invalid _ (Bool.eq_false_of_not_eq_true hinvalid)]
          at hhandled
        cases hhandled
      have hrest := h.data tcb htcb
      apply Inv.sendBufferedPackets
      apply Inv.maybeSendFastRetransmit
      simp only [DcSctpSocket.withTcb, htcb]
      apply Inv.maybeSendShutdownOrAck
      · refine ⟨?_, h.closings⟩
        intro tcb' htcb'
        cases htcb'
        exact accounted_handleSack hrest valid
      · intro tcb' htcb' hstate hnone
        cases htcb'
        exact done_handleSack hrest valid (ChunkValidators.ordered_clean chunk)
          (met tcb htcb hstate) hnone
    · exact h

theorem Inv.onRtxTimerExpiry (burst : Burst) : Inv AtRest (s.onRtxTimerExpiry burst) := by
  unfold DcSctpSocket.onRtxTimerExpiry
  split
  · exact h
  · split_ifs
    · exact h
    · apply Inv.sendBufferedPackets
      refine h.withTcb fun q hq => ?_
      exact hq.nackAll RRSendQueue.sendQueue.discard (s := (q.1.outstandingData, q.2))

theorem Inv.handleCookieEchoWithTcb {kind : CookieEchoKind} {accepted : DcSctpSocket}
    (hsome : s.handleCookieEchoWithTcb kind = some accepted) : Inv AtRest accepted := by
  have hforgotten : Inv AtRest { s with tcb := none } := ⟨by simp, h.closings⟩
  cases kind with
  | restart =>
    unfold DcSctpSocket.handleCookieEchoWithTcb at hsome
    split_ifs at hsome
    cases hsome
    exact hforgotten
  | simultaneous =>
    cases hsome
    exact hforgotten
  | late => cases hsome
  | duplicate =>
    cases hsome
    exact h

theorem Inv.handleCookieEcho (kind : CookieEchoKind) (handshake : Handshake) (burst : Burst) :
    Inv AtRest (s.handleCookieEcho kind handshake burst) := by
  have haccepted : ∀ accepted, (if s.tcb.isSome then s.handleCookieEchoWithTcb kind else some s) =
      some accepted → Inv AtRest accepted := by
    intro accepted hsome
    by_cases htcb : s.tcb.isSome
    · rw [if_pos htcb] at hsome
      exact h.handleCookieEchoWithTcb hsome
    · rw [if_neg htcb] at hsome
      cases hsome
      exact h
  unfold DcSctpSocket.handleCookieEcho
  split
  · exact h
  · case h_2 accepted hsome =>
    apply Inv.sendBufferedPackets
    split_ifs
    · exact (haccepted accepted hsome).establish
    · exact (haccepted accepted hsome).establish.createTransmissionControlBlock handshake false

theorem Inv.shutdown (met : LeavesNoneMissing s .shutdown) : Inv AtRest s.shutdown := by
  unfold DcSctpSocket.shutdown
  split_ifs with hsome hstate
  · apply (h.setState .shutdownPending).maybeSendShutdownOrAck
    intro tcb htcb _ hnone
    exact (h.data tcb htcb).accounted.done hnone (met tcb htcb hstate)
  · exact h
  · exact h.internalClose

theorem Inv.handleShutdown (met : LeavesNoneMissing s .handleShutdown) :
    Inv AtRest s.handleShutdown := by
  have hanswer : s.state = .established ∨ s.state = .shutdownPending →
      Inv AtRest { s with state := .shutdownReceived }.maybeSendShutdownOrAck := by
    intro hstate
    apply (h.setState .shutdownReceived).maybeSendShutdownOrAck
    intro tcb htcb _ hnone
    exact (h.data tcb htcb).accounted.done hnone (met tcb htcb hstate)
  unfold DcSctpSocket.handleShutdown
  split
  · exact h
  · exact h
  · exact h
  · exact h.setState .shutdownAckSent
  · exact h
  · exact h
  · case h_7 hstate => exact hanswer (Or.inl hstate)
  · case h_8 hstate => exact hanswer (Or.inr hstate)

theorem Inv.act {action : Action} (met : LeavesNoneMissing s action) :
    Inv AtRest (s.act action) := by
  cases action with
  | connect =>
    show Inv AtRest s.connect
    unfold connect
    split_ifs
    · exact h.setState .cookieWait
    · exact h
  | handleInitAck handshake burst =>
    show Inv AtRest (s.handleInitAck handshake burst)
    unfold handleInitAck
    split_ifs
    · exact h
    · apply Inv.sendBufferedPackets
      exact (h.createTransmissionControlBlock handshake true).setState .cookieEchoed
  | handleCookieEcho kind handshake burst => exact h.handleCookieEcho kind handshake burst
  | handleCookieAck burst =>
    show Inv AtRest (s.handleCookieAck burst)
    unfold handleCookieAck
    split_ifs
    · exact h
    · exact h.establish.sendBufferedPackets burst
  | send message options burst =>
    show Inv AtRest (s.send message options burst).2
    unfold send
    split
    · apply Inv.sendBufferedPackets
      exact ⟨h.data, h.closings⟩
    · exact h
  | updateSendQueue sendQueue => exact ⟨h.data, h.closings⟩
  | beginResetStreams =>
    show Inv AtRest s.beginResetStreams
    apply h.withTcb
    rintro q hq
    refine ⟨?_, hq.slow⟩
    exact perform_accounted RRSendQueue.sendQueue.discard (c := .beginResetStreams)
      (s := (q.1.outstandingData, q.2)) hq.accounted trivial
  | sendBufferedPackets burst => exact h.sendBufferedPackets burst
  | handleSack chunk burst => exact h.handleSack met
  | onRtxTimerExpiry burst => exact h.onRtxTimerExpiry burst
  | shutdown => exact h.shutdown met
  | handleShutdown => exact h.handleShutdown met
  | handleShutdownAck =>
    show Inv AtRest s.handleShutdownAck
    unfold handleShutdownAck
    split_ifs
    · exact h.internalClose
    · exact h
  | handleShutdownComplete =>
    show Inv AtRest s.handleShutdownComplete
    unfold handleShutdownComplete
    split_ifs
    · exact h.internalClose
    · exact h
  | close => exact h.internalClose

end

end Steps

/-- While no chunk is left missing, a SHUTDOWN or SHUTDOWN ACK is sent only when every chunk held is
acknowledged or abandoned. -/
theorem closings_done (options : DcSctpOptions) (defaultPriority : StreamPriority)
    {s : DcSctpSocket} (reached : Reachable LeavesNoneMissing (initial options defaultPriority) s) :
    ∀ w ∈ s.closings, ∀ item ∈ w.items, Done item := by
  suffices hinv : Inv AtRest s from hinv.closings
  induction reached with
  | start => exact ⟨by simp [initial], fun w hw => absurd hw List.not_mem_nil⟩
  | act action _ met ih => exact ih.act met

def burst : Burst where
  now := .finite 0
  forwardTsn := false
  bytesRemaining := [1000, 1000]

def oneByte : DcSctpMessage where
  streamId := 1
  ppid := 0
  payload := [0]

def opened : DcSctpSocket :=
  [.connect, .handleInitAck ⟨true, 1, 100000⟩ burst, .handleCookieAck burst].foldl act
    (initial {} 1)

theorem reachable_opened : Reachable LeavesNoneMissing (initial {} 1) opened :=
  ((Reachable.start.act .connect fun _ _ => trivial).act (.handleInitAck ⟨true, 1, 100000⟩ burst)
    fun _ _ => trivial).act (.handleCookieAck burst) fun _ _ => trivial

/-- A message that may not be retransmitted is sent, and the timer expires. -/
def abandoning : DcSctpSocket :=
  [.send oneByte { maxRetransmissions := some 0 } burst, .onRtxTimerExpiry burst].foldl act opened

/-- A shutdown over a chunk that was abandoned. -/
theorem closings_done_abandoning :
    ((abandoning.act .shutdown).closings.map fun w => w.items.length) = [1] ∧
      ∀ w ∈ (abandoning.act .shutdown).closings, ∀ item ∈ w.items, Done item := by
  have habandoning := (reachable_opened.act (.send oneByte { maxRetransmissions := some 0 } burst)
      fun _ _ => trivial).act (.onRtxTimerExpiry burst) fun _ _ => trivial
  have hnone : ∀ tcb ∈ abandoning.tcb, ∀ item ∈
      tcb.retransmissionQueue.outstandingData.outstandingData.items,
      item.isNacked = true → item.isAbandoned = true := by
    decide +kernel
  have hshutdown : LeavesNoneMissing abandoning .shutdown :=
    fun tcb htcb _ => Or.inr (hnone tcb htcb)
  exact ⟨by decide +kernel, closings_done {} 1 (habandoning.act .shutdown hshutdown)⟩

/-- The second of two chunks is acknowledged, the first is missing. -/
def gapSack : SackChunk where
  cumulativeTsnAck := 0
  aRwnd := 100000
  gapAckBlocks := [⟨2, 2⟩]
  duplicateTsns := ∅

theorem reachable_foldl (start : DcSctpSocket) (actions : List Action) :
    Reachable (fun _ _ => True) start (actions.foldl act start) := by
  suffices hfrom : ∀ s, Reachable (fun _ _ => True) start s →
      Reachable (fun _ _ => True) start (actions.foldl act s) from hfrom start .start
  induction actions with
  | nil => exact fun _ h => h
  | cons action rest ih => exact fun s h => ih (s.act action) (h.act action trivial)

/-- A SACK takes a missing chunk out of flight, and the SHUTDOWN is sent before the chunk is. -/
theorem shutdown_over_missing_chunk :
    ∃ s, Reachable (fun _ _ => True) (initial {} 1) s ∧ s.state = .shutdownSent ∧
      ∃ w ∈ s.closings, ∃ item ∈ w.items, item.isNacked = true ∧ item.isAcked = false ∧
        item.isAbandoned = false := by
  refine ⟨_, reachable_foldl (initial {} 1) [.connect, .handleInitAck ⟨true, 1, 100000⟩ burst,
    .handleCookieAck burst, .send oneByte {} burst, .send oneByte {} burst, .shutdown,
    .handleSack gapSack burst], ?_⟩
  decide +kernel

end DcSctpSocket

end Dcsctp
