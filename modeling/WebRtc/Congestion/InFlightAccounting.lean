import WebRtc.Congestion.TransportFeedbackAdapter

/-!
# Transport feedback adapter: in-flight accounting

For every class of routes the tracker holds the bytes of the packets in the history
that were sent and not acknowledged, cumulatively, by any feedback. Every call of
the adapter keeps this, so that no check of the tracker ever fails.
-/

namespace Congestion

open Units SequenceNumbers Rtcp Wrapping List

namespace TransportFeedbackAdapter

open InFlightBytesTracker (contribution)

variable {a b : TransportFeedbackAdapter} {packet : PacketFeedback}

/-- The share of a history entry in the bytes in flight on a class of routes. -/
def share (lastAckSeqNum : Int) (route : NetworkRoute) (packet : PacketFeedback) : Nat :=
  if lastAckSeqNum < packet.sent.sequenceNumber then contribution packet route else 0

/-- The bytes of sent packets of the history past the last acknowledged one. -/
def unackedBytes (a : TransportFeedbackAdapter) (route : NetworkRoute) : Nat :=
  a.history.total fun _ packet => share a.lastAckSeqNum route packet

structure Accounts (a : TransportFeedbackAdapter) : Prop where
  keys : ∀ seqNum packet, (seqNum, packet) ∈ a.history.entries → packet.sent.sequenceNumber = seqNum
  bytes : ∀ route, a.inFlight.getOutstandingData route = a.unackedBytes route

theorem sum_filter_eq {α : Type*} (l : List α) (p : α → Bool) (f : α → Nat) :
    ((l.filter p).map f).sum = (l.map fun x => if p x then f x else 0).sum := by
  induction l with
  | nil => rfl
  | cons x l ih => cases h : p x <;> simp [h, ih]

theorem accounts_initial : Accounts {} where
  keys := by
    intro seqNum packet hmem
    cases hmem
  bytes _ := rfl

section

variable (h : Accounts a)
include h

theorem Accounts.congr (hhistory : b.history = a.history) (hinFlight : b.inFlight = a.inFlight)
    (hack : b.lastAckSeqNum = a.lastAckSeqNum) : Accounts b where
  keys := by
    rw [hhistory]
    exact h.keys
  bytes := by
    intro route
    rw [hinFlight, unackedBytes, hhistory, hack]
    exact h.bytes route

theorem addPacket_accounts (packetToSend : RtpPacketToSend) (overheadBytes : Nat)
    (creationTime : Timestamp) :
    ∃ a', a.addPacket packetToSend overheadBytes creationTime = some a' ∧ Accounts a' := by
  unfold addPacket
  generalize hunwrap : a.seqNumUnwrapper.unwrap
    (wrap 16 (packetToSend.transportSequenceNumber.getD 0)) = unwrapped
  obtain ⟨sequenceNumber, unwrapper⟩ := unwrapped
  dsimp only
  -- The expired entries that are still in flight are exactly what is removed.
  have hsplit : ∀ route, a.inFlight.getOutstandingData route =
      ((((a.history.entries.takeWhile (isExpired creationTime)).map Prod.snd).filter
          fun packet => packet.sent.sequenceNumber > a.lastAckSeqNum).map
        fun packet => contribution packet route).sum +
      (a.history.dropWhile (isExpired creationTime)).total
        fun _ packet => share a.lastAckSeqNum route packet := by
    intro route
    rw [h.bytes route, unackedBytes, a.history.total_dropWhile (isExpired creationTime),
      sum_filter_eq, map_map]
    simp only [Function.comp_def, share, decide_eq_true_eq, gt_iff_lt]
  obtain ⟨inFlight, hremove, hleft⟩ := a.inFlight.removeAll_ok _ fun route =>
    (hsplit route).symm ▸ Nat.le_add_right _ _
  rw [hremove]
  refine ⟨_, rfl, ?_, ?_⟩
  · intro seqNum packet hmem
    rcases OrdMap.mem_emplaceEntries hmem with heq | hmem
    · cases heq
      rfl
    · exact h.keys seqNum packet ((dropWhile_sublist _).subset hmem)
  · intro route
    have hremaining : inFlight.getOutstandingData route =
        (a.history.dropWhile (isExpired creationTime)).total
          fun _ packet => share a.lastAckSeqNum route packet := by
      have := hleft route
      have := hsplit route
      omega
    dsimp only [unackedBytes]
    rw [hremaining]
    cases hfind : (a.history.dropWhile (isExpired creationTime)).find? sequenceNumber with
    | some packet => rw [OrdMap.emplace_of_find? _ hfind]
    | none =>
      -- A packet that was not sent yet has no bytes in flight.
      rw [OrdMap.total_emplace _ hfind]
      simp [share, contribution, Units.UnitBase.isFinite]

theorem Accounts.modify {seqNum : Int} {next : PacketFeedback}
    (hmem : (seqNum, packet) ∈ a.history.entries)
    (hhistory : b.history = a.history.modify seqNum fun _ => next)
    (hack : b.lastAckSeqNum = a.lastAckSeqNum)
    (hseq : next.sent.sequenceNumber = packet.sent.sequenceNumber)
    (hbytes : ∀ route, b.inFlight.getOutstandingData route + share a.lastAckSeqNum route packet =
      a.inFlight.getOutstandingData route + share a.lastAckSeqNum route next) :
    Accounts b where
  keys := by
    intro key other hother
    rw [hhistory] at hother
    obtain ⟨before, hbefore, hcase⟩ := a.history.exists_of_mem_modify hother
    dsimp only at hbefore hcase
    split_ifs at hcase with hkey
    · subst hkey
      rw [hcase, hseq, h.keys key packet hmem]
    · rw [hcase]
      exact h.keys key before hbefore
  bytes := by
    intro route
    have htotal := a.history.total_modify hmem (fun _ => next)
      fun _ packet => share a.lastAckSeqNum route packet
    have hbefore := h.bytes route
    have hafter := hbytes route
    rw [unackedBytes] at hbefore
    rw [unackedBytes, hhistory, hack]
    omega

theorem recordSent_accounts {seqNum : Int} (hmem : (seqNum, packet) ∈ a.history.entries)
    (sendTimeUs : Int) :
    ∃ result, a.recordSent seqNum packet (.finite sendTimeUs) = some result ∧
      Accounts result.2 := by
  have hfinite : Units.UnitBase.isFinite (.finite sendTimeUs) = true := rfl
  unfold recordSent
  cases hretransmit : packet.sent.sendTime.isFinite with
  | true =>
    rw [if_pos rfl]
    refine ⟨_, rfl, h.modify hmem rfl rfl rfl fun route => ?_⟩
    simp [share, contribution, hretransmit, hfinite]
  | false =>
    rw [if_neg Bool.false_ne_true]
    split_ifs with hnew
    · obtain ⟨inFlight, hadd, hbytes⟩ := a.inFlight.addInFlightPacketBytes_ok
        { packet with sent := { packet.sent with
          sendTime := .finite sendTimeUs
          priorUnackedData := packet.sent.priorUnackedData + a.pendingUntrackedSize } } rfl
      rw [hadd]
      refine ⟨_, rfl, h.modify hmem rfl rfl rfl fun route => ?_⟩
      have hnew' := hnew
      rw [hbytes route]
      simp [share, contribution, hretransmit, hnew', hfinite]
    · refine ⟨_, rfl, h.modify hmem rfl rfl rfl fun route => ?_⟩
      have hold := hnew
      simp [share, hold]

theorem processSentPacket_accounts (sentPacket : SentPacketInfo) :
    ∃ result, a.processSentPacket sentPacket = some result ∧ Accounts result.2 := by
  unfold processSentPacket
  dsimp only
  split_ifs
  · cases hfind : a.history.find?
        (a.seqNumUnwrapper.unwrap (wrap 16 sentPacket.packetId)).1 with
    | none => exact ⟨_, rfl, h.congr rfl rfl rfl⟩
    | some packet =>
      have hmem := (a.history.find?_eq_some_iff _ _).mp hfind
      have hcongr : Accounts { a with
          seqNumUnwrapper := (a.seqNumUnwrapper.unwrap (wrap 16 sentPacket.packetId)).2 } :=
        h.congr rfl rfl rfl
      exact recordSent_accounts hcongr hmem _
  · exact ⟨_, rfl, h.congr rfl rfl rfl⟩
  · exact ⟨_, rfl, h⟩

theorem ackUpTo_accounts (seqNum : Int) :
    ∃ a', a.ackUpTo seqNum = some a' ∧ Accounts a' ∧ seqNum ≤ a'.lastAckSeqNum := by
  unfold ackUpTo
  split_ifs with hnew
  · let p : Int × PacketFeedback → Bool := fun e => decide (a.lastAckSeqNum < e.1 ∧ e.1 ≤ seqNum)
    have hacked : ∀ route, (a.history.filter p).total
        (fun _ packet => share a.lastAckSeqNum route packet) =
        ((a.newlyAcked seqNum).map fun packet => contribution packet route).sum := by
      intro route
      rw [newlyAcked, map_map]
      refine (a.history.filter p).total_congr (g := fun _ packet => contribution packet route)
        fun key packet hmem => ?_
      obtain ⟨hentry, hp⟩ := mem_filter.mp hmem
      have hkey := h.keys key packet hentry
      have hlt : a.lastAckSeqNum < packet.sent.sequenceNumber := by
        rw [hkey]
        exact (of_decide_eq_true hp).1
      exact if_pos hlt
    have hrest : ∀ route, (a.history.filter fun e => !p e).total
        (fun _ packet => share a.lastAckSeqNum route packet) =
        a.history.total fun _ packet => share seqNum route packet := by
      intro route
      rw [← a.history.total_filter_add p]
      have hzero : (a.history.filter p).total (fun _ packet => share seqNum route packet) = 0 := by
        refine sum_eq_zero fun x hx => ?_
        obtain ⟨⟨key, packet⟩, hmem, rfl⟩ := mem_map.mp hx
        obtain ⟨hentry, hp⟩ := mem_filter.mp hmem
        have hkey := h.keys key packet hentry
        have hle : key ≤ seqNum := (of_decide_eq_true hp).2
        refine if_neg (not_lt.mpr ?_)
        dsimp only
        omega
      rw [hzero, Nat.zero_add]
      refine OrdMap.total_congr _ fun key packet hmem => ?_
      obtain ⟨hentry, hp⟩ := mem_filter.mp hmem
      have hkey := h.keys key packet hentry
      have hiff : a.lastAckSeqNum < packet.sent.sequenceNumber ↔
          seqNum < packet.sent.sequenceNumber := by
        have hnot : key ≤ a.lastAckSeqNum ∨ seqNum < key := by simpa [p, imp_iff_not_or] using hp
        omega
      simp only [share, hiff]
    have hsplit : ∀ route, a.inFlight.getOutstandingData route =
        ((a.newlyAcked seqNum).map fun packet => contribution packet route).sum +
          a.history.total fun _ packet => share seqNum route packet := by
      intro route
      rw [h.bytes route, unackedBytes, ← a.history.total_filter_add p, hacked, hrest]
    obtain ⟨inFlight, hremove, hleft⟩ := a.inFlight.removeAll_ok (a.newlyAcked seqNum)
      fun route => (hsplit route).symm ▸ Nat.le_add_right _ _
    rw [hremove]
    refine ⟨_, rfl, ⟨h.keys, fun route => ?_⟩, le_refl seqNum⟩
    have := hleft route
    have := hsplit route
    dsimp only [unackedBytes]
    omega
  · exact ⟨a, rfl, h, not_lt.mp hnew⟩

theorem Accounts.erase {seqNum : Int} (hmem : (seqNum, packet) ∈ a.history.entries)
    (hacked : seqNum ≤ a.lastAckSeqNum) (hhistory : b.history = a.history.erase seqNum)
    (hinFlight : b.inFlight = a.inFlight) (hack : b.lastAckSeqNum = a.lastAckSeqNum) : Accounts b where
  keys := by
    intro key other hother
    rw [hhistory] at hother
    exact h.keys key other (mem_of_mem_filter hother)
  bytes := by
    intro route
    have htotal := a.history.total_erase hmem fun _ packet => share a.lastAckSeqNum route packet
    have hzero : share a.lastAckSeqNum route packet = 0 :=
      if_neg (not_lt.mpr (h.keys seqNum packet hmem ▸ hacked))
    have hbefore := h.bytes route
    rw [unackedBytes] at hbefore
    rw [hinFlight, unackedBytes, hhistory, hack]
    omega

theorem retrievePacketFeedback_accounts (transportSeqNum : Int) (received : Bool) :
    ∃ result, a.retrievePacketFeedback transportSeqNum received = some result ∧
      Accounts result.2 := by
  obtain ⟨b, hack, hb, hle⟩ := ackUpTo_accounts h transportSeqNum
  rw [retrievePacketFeedback, hack, Option.map_some]
  refine ⟨_, rfl, ?_⟩
  cases hfind : b.history.find? transportSeqNum with
  | none => exact hb
  | some packet =>
    have hmem := (b.history.find?_eq_some_iff _ _).mp hfind
    dsimp only
    split_ifs
    · exact hb
    · exact hb.erase hmem hle rfl rfl rfl
    · exact hb

theorem retrievePacketFeedbackByKey_accounts (key : SsrcAndRtpSequencenumber) (received : Bool) :
    ∃ result, a.retrievePacketFeedbackByKey key received = some result ∧ Accounts result.2 := by
  unfold retrievePacketFeedbackByKey
  cases a.rtpToTransportSequenceNumber.lookup key with
  | none => exact ⟨_, rfl, h⟩
  | some seqNum => exact retrievePacketFeedback_accounts h seqNum received

end

theorem processStatuses_accounts (statuses : List (BitVec 16 × TimeDelta)) :
    ∀ {a : TransportFeedbackAdapter}, Accounts a →
      ∃ result, a.processStatuses statuses = some result ∧ Accounts result.2 := by
  induction statuses with
  | nil =>
    intro a h
    exact ⟨_, rfl, h⟩
  | cons status rest ih =>
    intro a h
    obtain ⟨sequenceNumber, deltaSinceBase⟩ := status
    have hunwrapped : Accounts { a with
        seqNumUnwrapper := (a.seqNumUnwrapper.unwrap sequenceNumber).2 } := h.congr rfl rfl rfl
    obtain ⟨⟨packetFeedback, b⟩, hretrieve, hb⟩ := retrievePacketFeedback_accounts hunwrapped
      (a.seqNumUnwrapper.unwrap sequenceNumber).1 deltaSinceBase.isFinite
    obtain ⟨⟨results, next⟩, hrest, hnext⟩ := ih hb
    refine ⟨_, by simp only [processStatuses, hretrieve, Option.bind_some, hrest]; rfl, ?_⟩
    dsimp only
    split
    · exact hnext
    · split_ifs <;> exact hnext

theorem processTransportFeedback_accounts (h : Accounts a) (feedback : TransportFeedback)
    (feedbackReceiveTime : Timestamp) :
    ∃ result, a.processTransportFeedback feedback feedbackReceiveTime = some result ∧
      Accounts result.2 := by
  unfold processTransportFeedback
  split_ifs
  · exact ⟨_, rfl, h⟩
  · have hbase : Accounts { a with
        currentOffset := a.advanceBase feedback feedbackReceiveTime
        lastTransportFeedbackBaseTime := .finite feedback.baseTime } := h.congr rfl rfl rfl
    obtain ⟨result, hstatuses, hresult⟩ := processStatuses_accounts feedback.forAllPackets hbase
    exact ⟨_, by dsimp only; rw [hstatuses]; rfl, hresult⟩

theorem processPacketInfos_accounts (packets : List PacketInfo) :
    ∀ {a : TransportFeedbackAdapter}, Accounts a →
      ∃ result, a.processPacketInfos packets = some result ∧ Accounts result.2.2 := by
  induction packets with
  | nil =>
    intro a h
    exact ⟨_, rfl, h⟩
  | cons packetInfo rest ih =>
    intro a h
    obtain ⟨⟨packetFeedback, b⟩, hretrieve, hb⟩ := retrievePacketFeedbackByKey_accounts h
      (packetInfo.ssrc, packetInfo.sequenceNumber) packetInfo.arrivalTimeOffset.isFinite
    obtain ⟨⟨results, supportsEcn, next⟩, hrest, hnext⟩ := ih hb
    refine ⟨_, by simp only [processPacketInfos, hretrieve, Option.bind_some, hrest]; rfl, ?_⟩
    split
    · exact hnext
    · split_ifs <;> exact hnext

theorem processCongestionControlFeedback_accounts (h : Accounts a)
    (feedback : CongestionControlFeedback) (feedbackReceiveTime : Timestamp) :
    ∃ result, a.processCongestionControlFeedback feedback feedbackReceiveTime = some result ∧
      Accounts result.2 := by
  unfold processCongestionControlFeedback
  split_ifs
  · exact ⟨_, rfl, h⟩
  · have hbase : Accounts { a with
        currentOffset := a.advanceOffset feedback.reportTimestampCompactNtp feedbackReceiveTime
        lastFeedbackCompactNtpTime := some feedback.reportTimestampCompactNtp } :=
      h.congr rfl rfl rfl
    obtain ⟨result, hpackets, hresult⟩ := processPacketInfos_accounts feedback.packets hbase
    exact ⟨_, by dsimp only; rw [hpackets]; rfl, hresult⟩

inductive Call where
  | addPacket (packetToSend : RtpPacketToSend) (overheadBytes : Nat) (creationTime : Timestamp)
  | processSentPacket (sentPacket : SentPacketInfo)
  | processTransportFeedback (feedback : TransportFeedback) (feedbackReceiveTime : Timestamp)
  | processCongestionControlFeedback (feedback : CongestionControlFeedback)
      (feedbackReceiveTime : Timestamp)
  | setNetworkRoute (networkRoute : NetworkRoute)

def step (a : TransportFeedbackAdapter) : Call → Option TransportFeedbackAdapter
  | .addPacket packetToSend overheadBytes creationTime =>
    a.addPacket packetToSend overheadBytes creationTime
  | .processSentPacket sentPacket => (a.processSentPacket sentPacket).map Prod.snd
  | .processTransportFeedback feedback feedbackReceiveTime =>
    (a.processTransportFeedback feedback feedbackReceiveTime).map Prod.snd
  | .processCongestionControlFeedback feedback feedbackReceiveTime =>
    (a.processCongestionControlFeedback feedback feedbackReceiveTime).map Prod.snd
  | .setNetworkRoute networkRoute => some (a.setNetworkRoute networkRoute)

/-- A sequence of calls; `none` if a check of the tracker failed in one of them. -/
def run (a : TransportFeedbackAdapter) (calls : List Call) : Option TransportFeedbackAdapter :=
  calls.foldlM step a

theorem step_accounts (h : Accounts a) (call : Call) :
    ∃ a', a.step call = some a' ∧ Accounts a' := by
  cases call with
  | addPacket packetToSend overheadBytes creationTime =>
    exact addPacket_accounts h packetToSend overheadBytes creationTime
  | processSentPacket sentPacket =>
    obtain ⟨result, hcall, hresult⟩ := processSentPacket_accounts h sentPacket
    exact ⟨result.2, by rw [step, hcall]; rfl, hresult⟩
  | processTransportFeedback feedback feedbackReceiveTime =>
    obtain ⟨result, hcall, hresult⟩ :=
      processTransportFeedback_accounts h feedback feedbackReceiveTime
    exact ⟨result.2, by rw [step, hcall]; rfl, hresult⟩
  | processCongestionControlFeedback feedback feedbackReceiveTime =>
    obtain ⟨result, hcall, hresult⟩ :=
      processCongestionControlFeedback_accounts h feedback feedbackReceiveTime
    exact ⟨result.2, by rw [step, hcall]; rfl, hresult⟩
  | setNetworkRoute networkRoute => exact ⟨_, rfl, h.congr rfl rfl rfl⟩

theorem run_accounts (calls : List Call) :
    ∀ {a : TransportFeedbackAdapter}, Accounts a → ∃ a', a.run calls = some a' ∧ Accounts a' := by
  induction calls with
  | nil =>
    intro a h
    exact ⟨a, rfl, h⟩
  | cons call calls ih =>
    intro a h
    obtain ⟨b, hstep, hb⟩ := step_accounts h call
    obtain ⟨c, hrun, hc⟩ := ih hb
    exact ⟨c, by rw [run, foldlM_cons, hstep]; exact hrun, hc⟩

/-- No check of the tracker fails, and the bytes in flight on a class of routes are those of the
packets of the history on it that were sent past the last acknowledged number. -/
theorem run_outstanding (calls : List Call) :
    ∃ a : TransportFeedbackAdapter, run {} calls = some a ∧
      ∀ route, a.inFlight.getOutstandingData route = ((a.history.entries.filter fun e =>
            e.2.sent.sendTime.isFinite ∧ a.lastAckSeqNum < e.2.sent.sequenceNumber ∧
              equivalentRoute e.2.networkRoute route).map
          fun e => e.2.sent.size).sum := by
  obtain ⟨a, hrun, ha⟩ := run_accounts calls accounts_initial
  refine ⟨a, hrun, fun route => ?_⟩
  rw [ha.bytes route, sum_filter_eq]
  refine congrArg sum (map_congr_left fun e _ => ?_)
  simp only [share, contribution, equivalentRoute_eq, decide_eq_true_eq, ← ite_and, and_left_comm]

end TransportFeedbackAdapter

end Congestion
