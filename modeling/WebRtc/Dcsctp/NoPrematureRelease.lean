import WebRtc.Dcsctp.SmallChunks

/-!
# No premature release between peers

A sender's retransmission queue and a receiver's data tracker, joined by a network that may deliver
every DATA and SACK chunk at any time, any number of times or never. The sender releases a chunk
only after the receiver has observed it, if every SACK is delivered before 2^32 more TSNs have been
assigned.
-/

namespace Dcsctp

open SequenceNumbers Wrapping Units RetransmissionQueue

/-- The two peers and the network. A SACK is kept with the unwrapped cumulative TSN that it was
created for. -/
structure Peers (σ : Type) where
  sender : RetransmissionQueue
  queue : σ
  receiver : DataTracker
  data : List Int := []
  sacks : List (SackChunk × Int) := []
  observed : List Int := []

namespace Peers

inductive Action where
  | getChunksToSend (now : Timestamp) (bytesRemainingInPacket : Nat)
  | getChunksForFastRetransmit (bytesInPacket : Nat)
  | handleT3RtxTimerExpiry
  | shouldSendForwardTsn (now : Timestamp)
  | createSelectiveAck (aRwnd : Nat)
  | deliverData (tsn : Int) (immediateAck : Bool)
  | deliverSack (sack : SackChunk) (cumulativeTsn : Int)

variable {σ : Type} (sendQueue : SendQueue σ)

def initial (options : CongestionOptions) (partialReliability : Bool) (initialTsn : TSN)
    (aRwnd : Nat) (queue : σ) : Peers σ where
  sender := RetransmissionQueue.initial options partialReliability initialTsn aRwnd
  queue := queue
  receiver := DataTracker.initial initialTsn

/-- A DATA chunk arrives: a TSN that is not valid is dropped. -/
def receiveData (s : Peers σ) (tsn : Int) (immediateAck : Bool) : Peers σ :=
  if s.receiver.isTSNValid (wrap 32 tsn) then
    { s with
      receiver := (s.receiver.observe (wrap 32 tsn) immediateAck).2
      observed := s.receiver.tsnUnwrapper.peekUnwrap (wrap 32 tsn) :: s.observed }
  else s

def transmit (s : Peers σ) (sent : List (Int × Data) × RetransmissionQueue × σ) : Peers σ :=
  { s with sender := sent.2.1, queue := sent.2.2, data := sent.1.map Prod.fst ++ s.data }

def act (s : Peers σ) : Action → Peers σ
  | .getChunksToSend now bytesRemainingInPacket =>
    s.transmit (RetransmissionQueue.getChunksToSend sendQueue now bytesRemainingInPacket
      (s.sender, s.queue))
  | .getChunksForFastRetransmit bytesInPacket =>
    s.transmit ((s.sender.getChunksForFastRetransmit bytesInPacket).1,
      (s.sender.getChunksForFastRetransmit bytesInPacket).2, s.queue)
  | .handleT3RtxTimerExpiry =>
    s.transmit ([], RetransmissionQueue.handleT3RtxTimerExpiry sendQueue (s.sender, s.queue))
  | .shouldSendForwardTsn now =>
    s.transmit ([], (RetransmissionQueue.shouldSendForwardTsn sendQueue now (s.sender, s.queue)).2)
  | .createSelectiveAck aRwnd =>
    { s with
      receiver := (s.receiver.createSelectiveAck aRwnd).2
      sacks :=
        ((s.receiver.createSelectiveAck aRwnd).1, s.receiver.lastCumulativeAckedTsn) :: s.sacks }
  | .deliverData tsn immediateAck => s.receiveData tsn immediateAck
  | .deliverSack sack _ =>
    s.transmit ([], (RetransmissionQueue.handleSack sendQueue sack (s.sender, s.queue)).2)

/-- The network delivers only what it was given. -/
def Enabled (s : Peers σ) : Action → Prop
  | .deliverData tsn _ => tsn ∈ s.data
  | .deliverSack sack cumulativeTsn => (sack, cumulativeTsn) ∈ s.sacks
  | _ => True

/-- A SACK is delivered before 2^32 TSNs past its own have been assigned. -/
def Fresh (s : Peers σ) : Action → Prop
  | .deliverSack _ cumulativeTsn =>
    s.sender.outstandingData.highestOutstandingTsn < cumulativeTsn + 2 ^ 32
  | _ => True

instance (s : Peers σ) (action : Action) : Decidable (s.Enabled action) :=
  match action with
  | .deliverData tsn _ => inferInstanceAs (Decidable (tsn ∈ s.data))
  | .deliverSack sack cumulativeTsn =>
    inferInstanceAs (Decidable ((sack, cumulativeTsn) ∈ s.sacks))
  | .getChunksToSend _ _ | .getChunksForFastRetransmit _ | .handleT3RtxTimerExpiry
  | .shouldSendForwardTsn _ | .createSelectiveAck _ => .isTrue trivial

instance (s : Peers σ) (action : Action) : Decidable (s.Fresh action) :=
  match action with
  | .deliverSack _ cumulativeTsn => inferInstanceAs (Decidable
      (s.sender.outstandingData.highestOutstandingTsn < cumulativeTsn + 2 ^ 32))
  | .deliverData _ _ | .getChunksToSend _ _ | .getChunksForFastRetransmit _
  | .handleT3RtxTimerExpiry | .shouldSendForwardTsn _ | .createSelectiveAck _ => .isTrue trivial

/-- The states of all runs in which every action is enabled and meets a condition. -/
inductive Reachable (condition : Peers σ → Action → Prop) (start : Peers σ) : Peers σ → Prop
  | start : Reachable condition start start
  | act {s : Peers σ} (action : Action) (reached : Reachable condition start s)
      (enabled : s.Enabled action) (met : condition s action) :
      Reachable condition start (s.act sendQueue action)

/-- What was released was observed, and every SACK on the way acknowledges only what was
received. -/
structure Inv (initialTsn : Int) (s : Peers σ) : Prop where
  released : s.sender.outstandingData.outstandingData.base ≤ s.receiver.lastCumulativeAckedTsn
  sacks : ∀ sack c, (sack, c) ∈ s.sacks →
    sack.cumulativeTsnAck = wrap 32 c ∧ c ≤ s.receiver.lastCumulativeAckedTsn
  observed : ∀ tsn, s.receiver.Received tsn → tsn ≤ initialTsn ∨ tsn ∈ s.observed

section Steps

variable {initialTsn : Int} {s : Peers σ}

section

variable (h : Inv initialTsn s)
include h

theorem Inv.transmit {sent : List (Int × Data) × RetransmissionQueue × σ}
    (base : sent.2.1.outstandingData.outstandingData.base ≤ s.receiver.lastCumulativeAckedTsn) :
    Inv initialTsn (s.transmit sent) :=
  ⟨base, h.sacks, h.observed⟩

theorem receiveData_inv (tsn : Int) (immediateAck : Bool) :
    Inv initialTsn (s.receiveData tsn immediateAck) := by
  unfold receiveData
  split_ifs
  · obtain ⟨-, hreceived, -⟩ := s.receiver.observe_spec (wrap 32 tsn) immediateAck
    have hmono := DataTracker.lastCumulativeAckedTsn_mono fun x hx => (hreceived x).mpr (Or.inl hx)
    refine ⟨h.released.trans hmono, ?_, ?_⟩
    · intro sack c hmem
      exact ⟨(h.sacks sack c hmem).1, (h.sacks sack c hmem).2.trans hmono⟩
    · intro x hx
      rcases (hreceived x).mp hx with hold | rfl
      · exact (h.observed x hold).imp_right (List.mem_cons_of_mem _)
      · exact Or.inr List.mem_cons_self
  · exact h

theorem createSelectiveAck_inv (aRwnd : Nat) :
    Inv initialTsn (s.act sendQueue (.createSelectiveAck aRwnd)) := by
  refine ⟨h.released, ?_, h.observed⟩
  intro sack c hmem
  rcases List.mem_cons.mp hmem with heq | hmem
  · cases heq
    exact ⟨rfl, le_rfl⟩
  · exact h.sacks sack c hmem

theorem deliverSack_inv {sack : SackChunk} {c : Int} (enabled : (sack, c) ∈ s.sacks)
    (fresh : s.sender.outstandingData.highestOutstandingTsn < c + 2 ^ 32) :
    Inv initialTsn (s.act sendQueue (.deliverSack sack c)) := by
  obtain ⟨hwire, hc⟩ := h.sacks sack c enabled
  apply h.transmit
  cases hvalid : s.sender.isSackValid sack with
  | false =>
    rw [handleSack_invalid sendQueue (s := (s.sender, s.queue)) hvalid]
    exact h.released
  | true =>
    rw [base_handleSack sendQueue (s := (s.sender, s.queue)) hvalid]
    have hsame := s.sender.tsnUnwrapper.wrap_peekUnwrap sack.cumulativeTsnAck
    have hupper := (isSackValid_iff.mp hvalid).2
    refine le_trans ?_ hc
    by_contra hlater
    -- a later TSN with the same residue is a full turn later, past all that was sent
    have hturn := turn_le_of_wrap_eq_of_lt (hsame.trans hwire) (not_le.mp hlater)
    exact absurd (hturn.trans hupper) (not_le.mpr fresh)

theorem act_inv {action : Action} (enabled : s.Enabled action) (fresh : s.Fresh action) :
    Inv initialTsn (s.act sendQueue action) := by
  cases action with
  | getChunksToSend now bytes =>
    apply h.transmit
    rw [(extends_getChunksToSend sendQueue now bytes _).base]
    exact h.released
  | getChunksForFastRetransmit bytes =>
    apply h.transmit
    rw [(extends_getChunksForFastRetransmit s.sender bytes).base]
    exact h.released
  | handleT3RtxTimerExpiry =>
    apply h.transmit
    rw [(extends_handleT3RtxTimerExpiry sendQueue _).base]
    exact h.released
  | shouldSendForwardTsn now =>
    apply h.transmit
    rw [(extends_shouldSendForwardTsn sendQueue now _).base]
    exact h.released
  | createSelectiveAck aRwnd => exact createSelectiveAck_inv sendQueue h aRwnd
  | deliverData tsn immediateAck => exact receiveData_inv h tsn immediateAck
  | deliverSack sack c => exact deliverSack_inv sendQueue h enabled fresh

end

theorem Reachable.inv {start : Peers σ} (hstart : Inv initialTsn start)
    (h : Reachable sendQueue Fresh start s) : Inv initialTsn s := by
  induction h with
  | start => exact hstart
  | act action _ enabled met ih => exact act_inv sendQueue ih enabled met

end Steps

theorem inv_initial (options : CongestionOptions) (partialReliability : Bool) (initialTsn : TSN)
    (aRwnd : Nat) (queue : σ) :
    Inv (initialTsn - 1).toNat (initial options partialReliability initialTsn aRwnd queue) where
  released := le_rfl
  sacks := nofun
  observed := by
    rintro tsn (hle | hcovered)
    · exact Or.inl hle
    · exact absurd hcovered (Ranges.covered_nil tsn)

/-- While SACKs are fresh, the sender releases only TSNs that the receiver has observed. -/
theorem released_only_observed (options : CongestionOptions) (partialReliability : Bool)
    (initialTsn : TSN) (aRwnd : Nat) (queue : σ) {s : Peers σ} (reached : Reachable sendQueue Fresh
      (initial options partialReliability initialTsn aRwnd queue) s) :
    s.sender.outstandingData.lastCumulativeTsnAck ≤ s.receiver.lastCumulativeAckedTsn ∧
    ∀ tsn, ((initialTsn - 1).toNat : Int) < tsn →
      tsn ≤ s.sender.outstandingData.lastCumulativeTsnAck → tsn ∈ s.observed := by
  have h := reached.inv sendQueue
    (inv_initial options partialReliability initialTsn aRwnd queue)
  refine ⟨h.released, ?_⟩
  intro tsn hsent hreleased
  rcases h.observed tsn (Or.inl (hreleased.trans h.released)) with hold | hobserved
  · omega
  · exact hobserved

def endless : SendQueue Unit where
  produce := fun _ _ _ =>
    (some { messageId := 0, data := OutstandingData.singleFragment [0] }, ())
  discard := fun _ _ _ => (false, ())

def fresh : Peers Unit := initial {} false 1 RetransmissionQueue.kLargeWindow ()

def firstSack : SackChunk where
  cumulativeTsnAck := 1
  aRwnd := RetransmissionQueue.kLargeWindow
  gapAckBlocks := []
  duplicateTsns := ∅

def afterFirst : Peers Unit :=
  [.getChunksToSend (.finite 0) 20, .deliverData 1 false,
    .createSelectiveAck RetransmissionQueue.kLargeWindow, .deliverSack firstSack 1].foldl
    (act endless) fresh

theorem released_only_observed_afterFirst :
    afterFirst.sender.outstandingData.lastCumulativeTsnAck = 1 ∧ (1 : Int) ∈ afterFirst.observed := by
  have hsent : Reachable endless Fresh fresh _ :=
    Reachable.start.act (.getChunksToSend (.finite 0) 20) trivial trivial
  have hreceived := hsent.act (.deliverData 1 false) (by decide +kernel) trivial
  have hcreated :=
    hreceived.act (.createSelectiveAck RetransmissionQueue.kLargeWindow) trivial trivial
  have hacked := hcreated.act (.deliverSack firstSack 1) (by decide +kernel) (by decide +kernel)
  have hbase : afterFirst.sender.outstandingData.lastCumulativeTsnAck = 1 := by decide +kernel
  exact ⟨hbase, (released_only_observed endless {} false 1 _ () hacked).2 1 (by decide) hbase.ge⟩

section Laps

open RetransmissionQueue in
/-- Everything sent up to a TSN was received and acknowledged. -/
structure InStep (s : Peers Unit) (tsn : Int) : Prop where
  sender : Flying 1 s.sender tsn 0
  receiver : s.receiver.Level tsn
  observed : ∀ t ∈ s.observed, t ≤ tsn

/-- A SACK that says no more than that everything up to a TSN was received. -/
def Acks (sack : SackChunk) (tsn : Int) : Prop :=
  sack.cumulativeTsnAck = wrap 32 tsn ∧ sack.gapAckBlocks = [] ∧
    sack.aRwnd = RetransmissionQueue.kLargeWindow

def AnyAction (_ : Peers Unit) (_ : Action) : Prop := True

theorem inStep_fresh : InStep fresh 0 where
  sender := flying_initial false 1 (by decide) (by decide) (by decide)
  receiver := DataTracker.level_initial 1
  observed := nofun

theorem send_endless {s : Peers Unit} {tsn : Int} (h : InStep s tsn) :
    ∃ q, s.act endless (.getChunksToSend (.finite 0) 20) =
        { s with sender := q, data := (tsn + 1) :: s.data } ∧
      RetransmissionQueue.Flying 1 q tsn 1 := by
  have hproduced : endless.produce s.queue (.finite 0) 4 =
      (some { messageId := 0, data := OutstandingData.singleFragment [0] }, ()) := rfl
  obtain ⟨q, hsent, hflying⟩ :=
    h.sender.getChunksToSend endless (by decide) (by decide) rfl rfl hproduced
  refine ⟨q, ?_, hflying⟩
  rw [act, hsent, transmit]
  simp

/-- The next chunk is sent, received and acknowledged. -/
theorem lap {s : Peers Unit} {tsn : Int} (h : InStep s tsn)
    (reached : Reachable endless AnyAction fresh s) :
    ∃ s', Reachable endless AnyAction fresh s' ∧ InStep s' (tsn + 1) ∧
      (∀ entry ∈ s.sacks, entry ∈ s'.sacks) ∧
      ∃ sack, (sack, tsn + 1) ∈ s'.sacks ∧ Acks sack (tsn + 1) := by
  obtain ⟨q, hsent, hflying⟩ := send_endless h
  obtain ⟨hvalid, -, hlevel⟩ := h.receiver.observe_next false
  obtain ⟨hcumulative, hgap, hlevel'⟩ :=
    hlevel.createSelectiveAck kLargeWindow
  have hreached := reached.act (.getChunksToSend (.finite 0) 20) trivial trivial
  rw [hsent] at hreached
  have hreceived := hreached.act (.deliverData (tsn + 1) false) List.mem_cons_self trivial
  rw [act, receiveData, if_pos hvalid] at hreceived
  have hcreated := hreceived.act (.createSelectiveAck kLargeWindow) trivial
    trivial
  obtain ⟨q', hhandled, hflying'⟩ := hflying.handleSack endless (by decide) hcumulative hgap rfl
    s.queue
  have hacked := hcreated.act (.deliverSack _ _) List.mem_cons_self trivial
  refine ⟨_, hacked, ⟨?_, hlevel', ?_⟩, fun _ hentry => List.mem_cons_of_mem _ hentry, _, ?_,
    hcumulative, hgap, rfl⟩
  · simp only [act, hhandled]
    exact hflying'
  · intro t ht
    rcases List.mem_cons.mp ht with rfl | hold
    · exact h.receiver.peekUnwrap_next.le
    · exact (h.observed t hold).trans (Int.lt_succ tsn).le
  · have hentry := hlevel.cumulative
    simp only [act, hentry]
    exact List.mem_cons_self

theorem laps (n : Nat) : ∃ s, Reachable endless AnyAction fresh s ∧ InStep s n ∧
      (0 < n → ∃ sack, (sack, 1) ∈ s.sacks ∧ Acks sack 1) := by
  induction n with
  | zero => exact ⟨fresh, .start, inStep_fresh, fun h => absurd h (lt_irrefl 0)⟩
  | succ n ih =>
    obtain ⟨s, hreached, hstep, hsack⟩ := ih
    obtain ⟨s', hreached', hstep', hkept, hnew⟩ := lap hstep hreached
    refine ⟨s', hreached', hstep', fun _ => ?_⟩
    rcases Nat.eq_zero_or_pos n with rfl | hpos
    · exact hnew
    · obtain ⟨sack, hmem, hacks⟩ := hsack hpos
      exact ⟨sack, hkept _ hmem, hacks⟩

/-- The first SACK, delivered again after 2^32 chunks, is taken for the one in flight, which is
released. -/
theorem stale_sack_releases_unobserved : ∃ s, Reachable endless AnyAction fresh s ∧
      s.receiver.lastCumulativeAckedTsn < s.sender.outstandingData.lastCumulativeTsnAck ∧
      s.sender.outstandingData.lastCumulativeTsnAck ∉ s.observed := by
  obtain ⟨s, hreached, hstep, hsack⟩ := laps 4294967296
  obtain ⟨sack, hmem, hcumulative, hgap, hlarge⟩ := hsack (by decide)
  obtain ⟨q, hsent, hflying⟩ := send_endless hstep
  have hsent' := hreached.act (.getChunksToSend (.finite 0) 20) trivial trivial
  rw [hsent] at hsent'
  have halias : wrap 32 1 = wrap 32 ((4294967296 : Nat) + (1 : Nat)) := by decide +kernel
  obtain ⟨q', hhandled, hflying'⟩ :=
    hflying.handleSack endless (by decide) (hcumulative.trans halias) hgap hlarge s.queue
  have hreleased := hsent'.act (.deliverSack sack 1) hmem trivial
  rw [act, hhandled] at hreleased
  refine ⟨_, hreleased, ?_, ?_⟩
  · change s.receiver.lastCumulativeAckedTsn < q'.outstandingData.outstandingData.base
    rw [hstep.receiver.cumulative, hflying'.base_eq]
    exact Int.lt_succ _
  · change q'.outstandingData.outstandingData.base ∉ s.observed
    intro hobserved
    have hle := hstep.observed _ hobserved
    rw [hflying'.base_eq] at hle
    omega

end Laps

end Peers

end Dcsctp
