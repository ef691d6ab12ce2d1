import WebRtc.Dcsctp.DataTracker
import WebRtc.Dcsctp.OutstandingDataConsistency
import WebRtc.Dcsctp.RetransmissionQueue

/-!
# Sending one small chunk at a time

What a retransmission queue does with chunks of one byte when nothing is lost: each call sends one,
and a SACK for all of them leaves nothing outstanding. And what a data tracker without gaps does
with the next TSN. Long runs are put together from these steps.
-/

namespace Dcsctp

open SequenceNumbers Wrapping Units Relation OutstandingData SeqNumUnwrapper

namespace OutstandingData

variable {d d' : OutstandingData}

theorem AckStep.dataChunkHeaderSize (hstep : AckStep d d') :
    d'.dataChunkHeaderSize = d.dataChunkHeaderSize := by
  cases hstep with
  | ack info held =>
    unfold ackChunk takeOutOfFlight
    split_ifs <;> rfl
  | pop front acked => rfl
  | breakpoints tsns => rfl

theorem dataChunkHeaderSize_of_ackSteps
    (hsteps : ReflTransGen AckStep d d') : d'.dataChunkHeaderSize = d.dataChunkHeaderSize := by
  induction hsteps with
  | refl => rfl
  | tail _ hstep ih => exact hstep.dataChunkHeaderSize.trans ih

theorem chunksIn_of_empty (h : Marked d) (empty : d.outstandingData.items = [])
    (queue : Queue) : d.chunksIn queue = ∅ := by
  refine Finset.eq_empty_of_forall_notMem ?_
  intro tsn hin
  obtain ⟨item, held⟩ := h.held queue tsn hin
  have hbounds := Window.bounds_of_get? held
  rw [Window.highest, empty, List.length_nil] at hbounds
  omega

end OutstandingData

namespace RetransmissionQueue

def kLargeWindow : Nat := 1048576

/-- There are `k` chunks of one byte in flight, none of them lost, and room for `limit`. -/
structure Flying (limit : Nat) (q : RetransmissionQueue) (base : Int) (k : Nat) : Prop where
  base_eq : q.outstandingData.outstandingData.base = base
  length : q.outstandingData.outstandingData.items.length = k
  accounted : q.outstandingData.Accounted
  unmarked : ∀ queue, q.outstandingData.chunksIn queue = ∅
  header : q.outstandingData.dataChunkHeaderSize = 16
  packetBytes : q.outstandingData.unackedPacketBytes = 20 * k
  payloadBytes : q.outstandingData.unackedPayloadBytes = k
  items : q.outstandingData.unackedItems = k
  unwrapper : q.tsnUnwrapper.lastUnwrapped = base
  seen : q.tsnUnwrapper.lastValue ≠ none
  cwnd : 20 * limit ≤ q.cwnd
  cwndMin : 20 * limit ≤ q.options.cwndMtusMin * q.options.mtu
  mtu : 20 ≤ q.options.mtu
  rwnd : q.rwnd + k = kLargeWindow

theorem flying_initial {options : CongestionOptions} (partialReliability : Bool) (initialTsn : TSN)
    {limit : Nat} (hcwnd : 20 * limit ≤ options.cwndMtusInitial * options.mtu)
    (hmin : 20 * limit ≤ options.cwndMtusMin * options.mtu) (hmtu : 20 ≤ options.mtu) :
    Flying limit (initial options partialReliability initialTsn kLargeWindow)
      (initialTsn - 1).toNat 0 where
  base_eq := rfl
  length := rfl
  accounted := accounted_initial ..
  unmarked queue := by cases queue <;> rfl
  header := rfl
  packetBytes := rfl
  payloadBytes := rfl
  items := rfl
  unwrapper := rfl
  seen h := by cases h
  cwnd := hcwnd
  cwndMin := hmin
  mtu := hmtu
  rwnd := rfl

section Send

variable {σ : Type} (sendQueue : SendQueue σ) {limit k : Nat} {q : RetransmissionQueue} {base : Int}

section

variable (h : Flying limit q base k)
include h

theorem Flying.sendBudget (room : k < limit) (small : limit ≤ kLargeWindow) : q.sendBudget 20 = 20 := by
  have hrwnd := h.rwnd
  have hcwnd := h.cwnd
  have hmtu := h.mtu
  unfold kLargeWindow at hrwnd small
  simp only [RetransmissionQueue.sendBudget, h.packetBytes, h.items, h.header]
  have hallowed : 20 ≤ if k = 0 then q.options.mtu
      else roundDownTo4 ((q.rwnd + 16 + 3) % kSizeT) := by
    split_ifs with hk
    · exact hmtu
    · have hmod : (q.rwnd + 16 + 3) % kSizeT = q.rwnd + 19 := Nat.mod_eq_of_lt (by unfold kSizeT; omega)
      rw [roundDownTo4]
      omega
  rw [Nat.min_eq_right (le_min (by omega) hallowed)]
  rfl

theorem Flying.retransmitChunks (maxBytes : Nat) : q.retransmitChunks maxBytes = ([], q) := by
  have hsort : (q.outstandingData.chunksIn .timer).sort (· ≤ ·) = [] := by
    rw [h.unmarked, Finset.sort_empty]
  simp only [RetransmissionQueue.retransmitChunks, getChunksToBeRetransmitted,
    extractChunksThatCanFit, hsort, extractLoop]

variable {chunk : DataToSend}

theorem Flying.insertProduced (room : k < limit) (small : limit ≤ kLargeWindow)
    (size : chunk.data.size = 1) (lasting : chunk.expiresAt = .plusInfinity) (now : Int) (queue : σ) :
    (insertProduced sendQueue (.finite now) chunk (q, queue)).1 = some (base + k + 1) ∧
    (insertProduced sendQueue (.finite now) chunk (q, queue)).2.2 = queue ∧
    Flying limit (insertProduced sendQueue (.finite now) chunk (q, queue)).2.1 base (k + 1) := by
  have hrwnd := h.rwnd
  have hsize : q.outstandingData.getSerializedChunkSize chunk.data = 20 := by
    rw [getSerializedChunkSize, h.header, size]
    rfl
  have hexpires : (if q.partialReliability then chunk.expiresAt else .plusInfinity) =
      (.plusInfinity : Timestamp) := by
    rw [lasting, ite_self]
  have halive : ¬ (.plusInfinity : Timestamp) ≤ .finite now := Bool.noConfusion
  have hinserted := insertChunk_of_alive sendQueue.discard chunk.messageId
    chunk.data (if q.partialReliability then chunk.maxRetransmissions else MaxRetransmits.noLimit)
    chunk.lifecycleId halive (q.outstandingData, queue)
  have haccounted := insertChunk_accounted sendQueue.discard
    (s := (q.outstandingData, queue)) h.accounted chunk.messageId chunk.data (.finite now)
    (if q.partialReliability then chunk.maxRetransmissions else MaxRetransmits.noLimit)
    .plusInfinity chunk.lifecycleId
  simp only [RetransmissionQueue.insertProduced, hexpires, hinserted]
  refine ⟨?_, trivial, ?_⟩
  · rw [OutstandingData.nextTsn, highestOutstandingTsn, Window.highest, h.base_eq, h.length]
  · refine ⟨h.base_eq, ?_, haccounted, ?_, h.header, ?_, ?_, ?_, h.unwrapper, h.seen, h.cwnd,
      h.cwndMin, h.mtu, ?_⟩
    · simp [OutstandingData.addUnacked, Window.push, h.length]
    · intro queue
      simp [h.unmarked queue]
    · change q.outstandingData.unackedPacketBytes + q.outstandingData.getSerializedChunkSize _ = _
      rw [h.packetBytes, hsize]
      ring
    · change q.outstandingData.unackedPayloadBytes + chunk.data.size = _
      rw [h.payloadBytes, size]
    · change q.outstandingData.unackedItems + 1 = _
      rw [h.items]
    · unfold kLargeWindow at hrwnd small ⊢
      unfold kSizeT
      dsimp only
      omega

theorem Flying.getChunksToSend (room : k < limit) (small : limit ≤ kLargeWindow)
    (size : chunk.data.size = 1) (lasting : chunk.expiresAt = .plusInfinity)
    {now : Int} {queue queue' : σ}
    (produced : sendQueue.produce queue (.finite now) 4 = (some chunk, queue')) :
    ∃ q', RetransmissionQueue.getChunksToSend sendQueue (.finite now) 20 (q, queue) =
        ([(base + k + 1, chunk.data)], q', queue') ∧ Flying limit q' base (k + 1) := by
  have hinserted := h.insertProduced sendQueue room small size lasting now queue'
  have hsize : q.outstandingData.getSerializedChunkSize chunk.data = 20 := by
    rw [getSerializedChunkSize, h.header, size]
    rfl
  obtain ⟨⟨tsn, q', rest⟩, hproduced⟩ : ∃ inserted,
      RetransmissionQueue.insertProduced sendQueue (.finite now) chunk (q, queue') = inserted :=
    ⟨_, rfl⟩
  rw [hproduced] at hinserted
  obtain ⟨rfl, rfl, hflying⟩ := hinserted
  have hloop : sendLoop sendQueue (.finite now) 20 20 (q, queue) =
      ([(base + k + 1, chunk.data)], q', rest) := by
    rw [sendLoop]
    simp only [h.header, produced, hsize, hproduced]
    rfl
  have hleft : (((20 : Nat) - q.bytesRetransmitted []) % kSizeT : Int).toNat = 20 := rfl
  simp only [RetransmissionQueue.getChunksToSend, h.sendBudget room small, h.retransmitChunks,
    hleft, hloop]
  refine ⟨_, rfl, ?_⟩
  exact { hflying with }

end

end Send

section Sack

theorem cwnd_maybeExitFastRecovery (q : RetransmissionQueue) (cumulativeTsnAck : Int) :
    (q.maybeExitFastRecovery cumulativeTsnAck).cwnd = q.cwnd := by
  unfold maybeExitFastRecovery
  split
  · split_ifs <;> rfl
  · rfl

variable {q : RetransmissionQueue}

/-- The congestion window falls no lower than the smallest window in the options. -/
theorem adjustWindows_cwnd {bytes : Nat} (sack : SackChunk)
    (ackInfo : AckInfo) (oldUnackedPacketBytes : Nat) (increased : Bool) (hcwnd : bytes ≤ q.cwnd)
    (hmin : bytes ≤ q.options.cwndMtusMin * q.options.mtu) :
    bytes ≤ (q.adjustWindows sack ackInfo oldUnackedPacketBytes increased).cwnd ∧
    (q.adjustWindows sack ackInfo oldUnackedPacketBytes increased).rwnd =
      sack.aRwnd - q.outstandingData.unackedPayloadBytes := by
  have hincrease : bytes ≤ ((q.updateReceiverWindow sack.aRwnd).noteIncrease increased
      oldUnackedPacketBytes ackInfo.bytesAcked).cwnd ∧
      ((q.updateReceiverWindow sack.aRwnd).noteIncrease increased oldUnackedPacketBytes
        ackInfo.bytesAcked).rwnd = sack.aRwnd - q.outstandingData.unackedPayloadBytes := by
    unfold noteIncrease handleIncreasedCumulativeTsnAck updateReceiverWindow
    dsimp only
    split_ifs <;> exact ⟨by dsimp only; omega, rfl⟩
  have hoptions := (sameData_noteIncrease (q.updateReceiverWindow sack.aRwnd) increased
    oldUnackedPacketBytes ackInfo.bytesAcked).options
  unfold adjustWindows
  generalize (q.updateReceiverWindow sack.aRwnd).noteIncrease increased oldUnackedPacketBytes
    ackInfo.bytesAcked = q' at hincrease hoptions
  have hloss : bytes ≤ (q'.noteLoss ackInfo.hasPacketLoss).cwnd ∧
      (q'.noteLoss ackInfo.hasPacketLoss).rwnd = q'.rwnd := by
    unfold noteLoss handlePacketLoss
    split_ifs
    · exact ⟨hincrease.1, rfl⟩
    · refine ⟨le_max_of_le_right ?_, rfl⟩
      rw [hoptions]
      exact hmin
    · exact ⟨hincrease.1, rfl⟩
  unfold startT3RtxTimerIfOutstandingData
  split_ifs
  · exact ⟨hloss.1, hloss.2.trans hincrease.2⟩
  · exact ⟨hloss.1, hloss.2.trans hincrease.2⟩

theorem acknowledge_all {d : OutstandingData} (accounted : d.Accounted)
    (unmarked : d.chunksIn .fast = ∅) :
    ∃ info d', d.acknowledge d.outstandingData.highest [] = (info, d') ∧ d'.Accounted ∧
      d'.outstandingData = ⟨d.outstandingData.highest, []⟩ ∧
      d'.dataChunkHeaderSize = d.dataChunkHeaderSize := by
  have hlower : d.outstandingData.base ≤ d.outstandingData.highest := by
    rw [Window.highest]
    omega
  have hack := acknowledge_spec [] hlower le_rfl
  have haccounted := (accounted_of_ackSteps hack.steps accounted unmarked).1
  have hheader := dataChunkHeaderSize_of_ackSteps hack.steps
  have hbase := hack.base
  have hhighest := hack.highest
  generalize d.acknowledge d.outstandingData.highest [] = acked at haccounted hheader hbase hhighest
  refine ⟨acked.1, acked.2, rfl, haccounted, ?_, hheader⟩
  generalize acked.2.outstandingData = w at hbase hhighest
  obtain ⟨base, items⟩ := w
  have hlength : items.length = 0 := by
    rw [Window.highest] at hhighest
    dsimp only at hbase hhighest
    omega
  rw [List.length_eq_zero_iff.mp hlength]
  exact congrArg (Window.mk · []) hbase

theorem Flying.handleSack {σ : Type} (sendQueue : SendQueue σ) {limit k : Nat}
    {base : Int} (h : Flying limit q base k) (near : k < 2 ^ 31)
    {sack : SackChunk} (all : sack.cumulativeTsnAck = wrap 32 (base + k))
    (noGap : sack.gapAckBlocks = []) (large : sack.aRwnd = kLargeWindow) (queue : σ) :
    ∃ q', RetransmissionQueue.handleSack sendQueue sack (q, queue) = (true, q', queue) ∧
      Flying limit q' (base + k) 0 := by
  have hpeek : q.tsnUnwrapper.peekUnwrap sack.cumulativeTsnAck = base + k := by
    rw [all]
    apply peekUnwrap_wrap_of_near (by decide) _ h.seen
    all_goals simp only [h.unwrapper, Nat.reduceSub]; omega
  have hhighest : q.outstandingData.outstandingData.highest = base + k := by
    rw [Window.highest, h.base_eq, h.length]
  have hvalid : q.isSackValid sack = true := by
    rw [isSackValid_iff, hhighest, h.base_eq]
    omega
  obtain ⟨info, d, hack, haccounted, hwindow, hheader⟩ :=
    acknowledge_all h.accounted (h.unmarked .fast)
  rw [hhighest] at hack hwindow
  have hhandled : ∀ recovery, OutstandingData.handleSack sendQueue.discard (base + k) [] recovery
      (q.outstandingData, queue) = (info, d, queue) := by
    intro recovery
    simp only [OutstandingData.handleSack, nackBetweenAckBlocks, nackBetweenLoop, hack]
  have hexit := sameData_maybeExitFastRecovery { q with tsnUnwrapper := (q.tsnUnwrapper.unwrap
    sack.cumulativeTsnAck).2 } (base + k)
  have hcwnd := cwnd_maybeExitFastRecovery { q with tsnUnwrapper := (q.tsnUnwrapper.unwrap
    sack.cumulativeTsnAck).2 } (base + k)
  simp only [RetransmissionQueue.handleSack, hvalid, unwrap_fst, hpeek, noGap, hhandled]
  generalize { q with tsnUnwrapper := (q.tsnUnwrapper.unwrap sack.cumulativeTsnAck).2
    }.maybeExitFastRecovery (base + k) = q' at hexit hcwnd
  have hsame := sameData_adjustWindows { q' with outstandingData := d } sack info
    q.outstandingData.unackedPacketBytes (q.outstandingData.lastCumulativeTsnAck < base + k)
  have hmin : 20 * limit ≤ q'.options.cwndMtusMin * q'.options.mtu := by
    rw [hexit.options]
    exact h.cwndMin
  obtain ⟨hcwnd', hrwnd⟩ := adjustWindows_cwnd (q := { q' with outstandingData := d }) sack info
    q.outstandingData.unackedPacketBytes (q.outstandingData.lastCumulativeTsnAck < base + k)
    (hcwnd.ge.trans' h.cwnd) hmin
  refine ⟨_, rfl, ?_⟩
  generalize adjustWindows { q' with outstandingData := d } sack info
    q.outstandingData.unackedPacketBytes (q.outstandingData.lastCumulativeTsnAck < base + k) = q''
    at hsame hcwnd' hrwnd
  have hdata := hsame.outstandingData
  have hunwrapper := hsame.tsnUnwrapper.trans hexit.tsnUnwrapper
  have hoptions := hsame.options.trans hexit.options
  have hpayload : d.unackedPayloadBytes = 0 := by rw [haccounted.counted.payload, hwindow]; rfl
  constructor
  case unwrapper => rw [hunwrapper, unwrap_lastUnwrapped, hpeek]
  case seen => rw [hunwrapper]; exact Option.some_ne_none _
  case cwnd => exact hcwnd'
  case cwndMin => rw [hoptions]; exact h.cwndMin
  case mtu => rw [hoptions]; exact h.mtu
  case rwnd => rw [hrwnd, hpayload, large]; rfl
  all_goals rw [hdata]
  · rw [hwindow]
  · rw [hwindow]; rfl
  · exact haccounted
  · exact chunksIn_of_empty haccounted.marked (by rw [hwindow])
  · exact hheader.trans h.header
  · rw [haccounted.counted.packet, hwindow]; rfl
  · exact hpayload
  · rw [haccounted.counted.items, hwindow]; rfl

end Sack

end RetransmissionQueue

namespace DataTracker

/-- Everything up to a TSN was received, that TSN last, and nothing past it. -/
structure Level (d : DataTracker) (tsn : Int) : Prop where
  cumulative : d.lastCumulativeAckedTsn = tsn
  blocks : d.additionalTsnBlocks = []
  unwrapper : d.tsnUnwrapper.lastUnwrapped = tsn
  seen : d.tsnUnwrapper.lastValue ≠ none

theorem level_initial (peerInitialTsn : TSN) :
    Level (initial peerInitialTsn) (peerInitialTsn - 1).toNat :=
  ⟨rfl, rfl, rfl, fun h => by cases h⟩

variable {d : DataTracker} {tsn : Int}

theorem Level.peekUnwrap_next (h : Level d tsn) :
    d.tsnUnwrapper.peekUnwrap (wrap 32 (tsn + 1)) = tsn + 1 := by
  apply peekUnwrap_wrap_of_near (by decide) _ h.seen
  all_goals simp only [h.unwrapper, Nat.reduceSub]; omega

theorem Level.observe_next (h : Level d tsn) (immediateAck : Bool) :
    d.isTSNValid (wrap 32 (tsn + 1)) = true ∧ (d.observe (wrap 32 (tsn + 1)) immediateAck).1 = true ∧
      Level (d.observe (wrap 32 (tsn + 1)) immediateAck).2 (tsn + 1) := by
  have hpeek := h.peekUnwrap_next
  refine ⟨?_, ?_, ?_⟩
  · have hbelow : tsn + 1 < tsn + 2 ^ 32 := by omega
    have hdiff := difference_of_lt_turn hbelow (by omega)
    rw [isTSNValid, hpeek, h.cumulative, decide_eq_true_eq, ← Int.ofNat_le, hdiff,
      add_sub_cancel_left]
    decide
  · rw [(d.observe_spec _ immediateAck).1, Received, h.cumulative, h.blocks]
    rintro (hle | hcovered)
    · omega
    · exact Ranges.covered_nil _ hcovered
  · have hrecorded : (recordTsn { d with tsnUnwrapper := (d.tsnUnwrapper.unwrap
        (wrap 32 (tsn + 1))).2 } (wrap 32 (tsn + 1)) (tsn + 1)).2 =
        advance { d with tsnUnwrapper := (d.tsnUnwrapper.unwrap (wrap 32 (tsn + 1))).2 } := by
      rw [recordTsn, dif_neg, dif_pos]
      all_goals dsimp only; rw [h.cumulative]
      omega
    have hsame := sameTsns_noteData (advance { d with tsnUnwrapper := (d.tsnUnwrapper.unwrap
      (wrap 32 (tsn + 1))).2 }) immediateAck
    have hunwrapped : (d.tsnUnwrapper.unwrap (wrap 32 (tsn + 1))).1 = tsn + 1 := hpeek
    rw [observe]
    simp only [hunwrapped, hrecorded]
    constructor
    · rw [hsame.lastCumulativeAckedTsn]
      simp only [advance, h.blocks, h.cumulative, Ranges.absorb]
    · rw [hsame.additionalTsnBlocks]
      simp only [advance, h.blocks, Ranges.absorb]
    · rw [hsame.tsnUnwrapper]
      exact hpeek
    · rw [hsame.tsnUnwrapper]
      exact Option.some_ne_none _

theorem Level.createSelectiveAck (h : Level d tsn) (aRwnd : Nat) :
    (d.createSelectiveAck aRwnd).1.cumulativeTsnAck = wrap 32 tsn ∧
      (d.createSelectiveAck aRwnd).1.gapAckBlocks = [] ∧
      Level (d.createSelectiveAck aRwnd).2 tsn := by
  refine ⟨?_, ?_, { h with }⟩
  · rw [← h.cumulative]
    rfl
  · simp only [DataTracker.createSelectiveAck, createGapAckBlocks, h.blocks, List.take_nil,
      List.map_nil]

end DataTracker

end Dcsctp
