import WebRtc.Congestion.FeedbackKeys
import WebRtc.Congestion.FeedbackTracker

/-!
# Receive status from end to end

A packet is received, reported by the tracker of its SSRC, written into a congestion control
feedback, parsed, and given to the adapter of the sender. The adapter takes it for received exactly
if its arrival time is close enough to the feedback to fit 13 bits.
-/

namespace Congestion

open Units SequenceNumbers Rtcp Wrapping List

namespace TransportFeedbackAdapter

variable {a b : TransportFeedbackAdapter} {key : SsrcAndRtpSequencenumber} {seqNum : Int}

def sentPacketFor (a : TransportFeedbackAdapter) (key : SsrcAndRtpSequencenumber) :
    Option PacketFeedback :=
  (a.rtpToTransportSequenceNumber.lookup key).bind a.sentPacketAt

def infoKey (info : PacketInfo) : SsrcAndRtpSequencenumber := (info.ssrc, info.sequenceNumber)

/-- Reporting on an RTP sequence number removes the packet under `seqNum`. -/
def Removes (a : TransportFeedbackAdapter) (key : SsrcAndRtpSequencenumber) (received : Bool)
    (seqNum : Int) : Prop :=
  received = true ∧ a.rtpToTransportSequenceNumber.lookup key = some seqNum ∧
    (a.sentPacketFor key).isSome = true

theorem sentPacketFor_of_lookup (h : a.rtpToTransportSequenceNumber.lookup key = some seqNum) :
    a.sentPacketFor key = a.sentPacketAt seqNum := by
  rw [sentPacketFor, h, Option.bind_some]

/-- What one report changes: the packet it is about, and nothing else. -/
structure Retrieved (a : TransportFeedbackAdapter) (key : SsrcAndRtpSequencenumber)
    (received : Bool) (b : TransportFeedbackAdapter) : Prop where
  route : b.networkRoute = a.networkRoute
  offset : b.currentOffset = a.currentOffset
  lookup : ∀ other, other ≠ key → b.rtpToTransportSequenceNumber.lookup other =
    a.rtpToTransportSequenceNumber.lookup other
  sent : ∀ other, other ≠ key → b.sentPacketFor other = a.sentPacketFor other
  history : ∀ seqNum, b.history.find? seqNum = none ↔
    a.history.find? seqNum = none ∨ a.Removes key received seqNum

variable {received : Bool} {packet : PacketFeedback}

theorem retrieved_of_eq (hmap : b.rtpToTransportSequenceNumber = a.rtpToTransportSequenceNumber)
    (hhistory : b.history = a.history) (hroute : b.networkRoute = a.networkRoute)
    (hoffset : b.currentOffset = a.currentOffset)
    (hkept : ¬ (received = true ∧ (a.sentPacketFor key).isSome = true)) :
    Retrieved a key received b where
  route := hroute
  offset := hoffset
  lookup _ _ := by rw [hmap]
  sent _ _ := by
    unfold sentPacketFor sentPacketAt
    rw [hmap, hhistory]
  history := by
    intro seqNum
    rw [hhistory, or_iff_left]
    exact fun h => hkept ⟨h.1, h.2.2⟩

theorem retrieved_of_received (keyed : Keyed a.rtpToTransportSequenceNumber a.history)
    (hlookup : a.rtpToTransportSequenceNumber.lookup (packetKey packet) = some seqNum)
    (hsent : a.sentPacketAt seqNum = some packet)
    (hmap : b.rtpToTransportSequenceNumber = a.rtpToTransportSequenceNumber.erase (packetKey packet))
    (hhistory : b.history = a.history.erase seqNum) (hroute : b.networkRoute = a.networkRoute)
    (hoffset : b.currentOffset = a.currentOffset) : Retrieved a (packetKey packet) true b where
  route := hroute
  offset := hoffset
  lookup other hne := by rw [hmap, AList.lookup_erase_ne hne]
  sent := by
    intro other hne
    rw [sentPacketFor, sentPacketFor, hmap, AList.lookup_erase_ne hne]
    cases hother : a.rtpToTransportSequenceNumber.lookup other with
    | none => rfl
    | some otherSeq =>
      -- Another key leads to another packet.
      have hdifferent : otherSeq ≠ seqNum := by
        rintro rfl
        obtain ⟨found, hfound, hkey⟩ := keyed other otherSeq hother
        rw [a.history.value_unique hfound (mem_of_sentPacketAt hsent)] at hkey
        exact hne hkey.symm
      rw [Option.bind_some, Option.bind_some, sentPacketAt, sentPacketAt, hhistory,
        OrdMap.find?_erase, if_neg hdifferent]
  history := by
    intro other
    rw [hhistory, OrdMap.find?_erase, Removes, sentPacketFor_of_lookup hlookup, hsent, hlookup]
    by_cases hother : other = seqNum
    · simp [hother]
    · simp [hother, Ne.symm hother]

theorem retrievePacketFeedbackByKey_spec (keyed : Keyed a.rtpToTransportSequenceNumber a.history)
    {packetFeedback : Option PacketFeedback}
    (h : a.retrievePacketFeedbackByKey key received = some (packetFeedback, b)) :
    packetFeedback = a.sentPacketFor key ∧ Retrieved a key received b := by
  unfold retrievePacketFeedbackByKey at h
  cases hlookup : a.rtpToTransportSequenceNumber.lookup key with
  | none =>
    rw [hlookup] at h
    cases h
    have hnone : a.sentPacketFor key = none := by rw [sentPacketFor, hlookup]; rfl
    exact ⟨hnone.symm, retrieved_of_eq rfl rfl rfl rfl fun hkept => by simp [hnone] at hkept⟩
  | some seqNum =>
    rw [hlookup] at h
    have hfor := sentPacketFor_of_lookup hlookup
    obtain ⟨hfound, htake, hroute, hoffset⟩ := retrievePacketFeedback_spec h
    refine ⟨hfound.trans hfor.symm, ?_⟩
    unfold takeOut at htake
    cases hsent : a.sentPacketAt seqNum with
    | none =>
      rw [hsent] at htake
      obtain ⟨hmap, hhistory⟩ := Prod.mk.inj htake
      exact retrieved_of_eq hmap hhistory hroute hoffset fun hkept => by
        simp [hfor, hsent] at hkept
    | some packet =>
      rw [hsent] at htake
      split_ifs at htake with hreceived
      · obtain ⟨hmap, hhistory⟩ := Prod.mk.inj htake
        obtain ⟨found, hfoundMem, hkey⟩ := keyed key seqNum hlookup
        rw [a.history.value_unique hfoundMem (mem_of_sentPacketAt hsent)] at hkey
        subst hkey
        rw [hreceived]
        exact retrieved_of_received keyed hlookup hsent hmap hhistory hroute hoffset
      · obtain ⟨hmap, hhistory⟩ := Prod.mk.inj htake
        exact retrieved_of_eq hmap hhistory hroute hoffset fun hkept => hreceived hkept.1

/-- The result of a packet that the feedback reaches on the current route. -/
def resultOf (currentOffset : Timestamp) (info : PacketInfo) (packet : PacketFeedback) :
    PacketResult where
  sentPacket := packet.sent
  receiveTime :=
    if info.arrivalTimeOffset.isFinite then currentOffset - info.arrivalTimeOffset
    else .plusInfinity
  ecn := info.ecn

def Results (a : TransportFeedbackAdapter) (infos : List PacketInfo) (result : PacketResult) :
    Prop :=
  ∃ info ∈ infos, ∃ packet, a.sentPacketFor (infoKey info) = some packet ∧
    packet.networkRoute = a.networkRoute ∧ result = resultOf a.currentOffset info packet

theorem processPacketInfos_spec (infos : List PacketInfo) :
    ∀ {a : TransportFeedbackAdapter}, Accounts a →
      Keyed a.rtpToTransportSequenceNumber a.history → (infos.map infoKey).Nodup →
      ∃ results supportsEcn b, a.processPacketInfos infos = some (results, supportsEcn, b) ∧
        (∀ result, result ∈ results ↔ a.Results infos result) ∧
        ∀ seqNum, b.history.find? seqNum = none ↔ a.history.find? seqNum = none ∨
          ∃ info ∈ infos, a.Removes (infoKey info) info.arrivalTimeOffset.isFinite seqNum := by
  induction infos with
  | nil =>
    intro a _ _ _
    exact ⟨[], true, a, rfl, by simp [Results], by simp⟩
  | cons info rest ih =>
    intro a haccounts hkeyed hnodup
    obtain ⟨hnew, hrestNodup⟩ := nodup_cons.mp hnodup
    obtain ⟨⟨packetFeedback, b⟩, hretrieve, hb⟩ := retrievePacketFeedbackByKey_accounts haccounts
      (infoKey info) info.arrivalTimeOffset.isFinite
    obtain ⟨hfound, hretrieved⟩ := retrievePacketFeedbackByKey_spec hkeyed hretrieve
    obtain ⟨results, supportsEcn, c, hrest, hresults, hhistory⟩ :=
      ih hb (retrievePacketFeedbackByKey_keyed hkeyed hretrieve) hrestNodup
    have hne : ∀ other ∈ rest, infoKey other ≠ infoKey info := by
      intro other hmem heq
      exact hnew (heq ▸ mem_map_of_mem hmem)
    have hrestResults : ∀ result, b.Results rest result ↔ a.Results rest result := by
      intro result
      unfold Results
      rw [hretrieved.route, hretrieved.offset]
      refine exists_congr fun other => and_congr_right fun hmem => ?_
      rw [hretrieved.sent _ (hne other hmem)]
    have hrestRemoves : ∀ seqNum,
        (∃ other ∈ rest, b.Removes (infoKey other) other.arrivalTimeOffset.isFinite seqNum) ↔
          ∃ other ∈ rest, a.Removes (infoKey other) other.arrivalTimeOffset.isFinite seqNum := by
      intro seqNum
      unfold Removes
      refine exists_congr fun other => and_congr_right fun hmem => ?_
      rw [hretrieved.lookup _ (hne other hmem), hretrieved.sent _ (hne other hmem)]
    have hhistory' : ∀ seqNum, c.history.find? seqNum = none ↔ a.history.find? seqNum = none ∨
        ∃ other ∈ info :: rest,
          a.Removes (infoKey other) other.arrivalTimeOffset.isFinite seqNum := by
      intro seqNum
      rw [hhistory, hretrieved.history, hrestRemoves, or_assoc]
      simp
    have hcons : ∀ result, a.Results (info :: rest) result ↔
        (∃ packet, packetFeedback = some packet ∧ packet.networkRoute = a.networkRoute ∧
          result = resultOf a.currentOffset info packet) ∨ a.Results rest result := by
      intro result
      simp [Results, ← hfound]
    rw [processPacketInfos, show (info.ssrc, info.sequenceNumber) = infoKey info from rfl,
      hretrieve, Option.bind_some]
    dsimp only
    rw [hrest, Option.map_some]
    cases packetFeedback with
    | none =>
      refine ⟨_, _, _, rfl, fun result => ?_, hhistory'⟩
      rw [hcons, hresults, hrestResults]
      simp
    | some packet =>
      dsimp only
      rw [hretrieved.route, hretrieved.offset]
      by_cases hroute : packet.networkRoute = a.networkRoute
      · rw [if_neg (not_not_intro hroute)]
        refine ⟨_, _, _, rfl, fun result => ?_, hhistory'⟩
        rw [hcons, mem_cons, hresults, hrestResults]
        simp [hroute, resultOf]
      · rw [if_pos hroute]
        refine ⟨_, _, _, rfl, fun result => ?_, hhistory'⟩
        rw [hcons, hresults, hrestResults]
        simp [hroute]

theorem base_isFinite (currentOffset : Timestamp) (delta time : Int) :
    (if UnitBase.finite delta < UnitBase.zero then UnitBase.finite time
      else (if currentOffset.isInfinite then .finite time else currentOffset) +
        .finite delta).isFinite = true := by
  split_ifs with hnegative hinfinite
  · rfl
  · rfl
  · cases currentOffset with
    | finite offset => rfl
    | minusInfinity => exact absurd rfl hinfinite
    | plusInfinity => exact absurd rfl hinfinite

theorem resultOf_isFinite {currentOffset : Timestamp} (h : currentOffset.isFinite = true)
    (info : PacketInfo) (packet : PacketFeedback) :
    (resultOf currentOffset info packet).receiveTime.isFinite = true ↔
      info.arrivalTimeOffset.isFinite = true := by
  obtain ⟨offset, rfl⟩ := (UnitBase.isFinite_iff _).mp h
  unfold resultOf
  cases info.arrivalTimeOffset with
  | finite us => exact iff_of_true rfl rfl
  | minusInfinity => exact Iff.rfl
  | plusInfinity => exact Iff.rfl

theorem exists_mem_toTransportFeedback (a : TransportFeedbackAdapter)
    (packetResults : List PacketResult) (feedbackReceiveTime : Timestamp) (supportsEcn : Bool)
    (p : PacketResult → Prop) :
    (∃ packets ∈ a.toTransportFeedback packetResults feedbackReceiveTime supportsEcn,
      ∃ r ∈ packets.packetFeedbacks, p r) ↔ ∃ r ∈ packetResults, p r := by
  unfold toTransportFeedback
  split_ifs with hempty
  · simp [hempty]
  · simp

theorem processCongestionControlFeedback_status (h : Reachable a)
    {feedback : CongestionControlFeedback} (nodup : (feedback.packets.map infoKey).Nodup)
    {info : PacketInfo} (reported : info ∈ feedback.packets)
    (hlookup : a.rtpToTransportSequenceNumber.lookup (infoKey info) = some seqNum)
    (hsent : a.sentPacketAt seqNum = some packet) (time : Int) :
    ∃ result b, a.processCongestionControlFeedback feedback (.finite time) = some (result, b) ∧
      (b.history.find? seqNum = none ↔ info.arrivalTimeOffset.isFinite = true) ∧
      (packet.networkRoute = a.networkRoute → ((∃ packets ∈ result, ∃ r ∈ packets.packetFeedbacks,
          r.sentPacket = packet.sent ∧ r.receiveTime.isFinite = true) ↔
            info.arrivalTimeOffset.isFinite = true)) := by
  let offset := a.advanceOffset feedback.reportTimestampCompactNtp (.finite time)
  let a₁ : TransportFeedbackAdapter := { a with
    currentOffset := offset
    lastFeedbackCompactNtpTime := some feedback.reportTimestampCompactNtp }
  have hoffset : offset.isFinite = true := by
    unfold offset advanceOffset
    cases a.lastFeedbackCompactNtpTime with
    | none => exact base_isFinite a.currentOffset 0 time
    | some last => exact base_isFinite a.currentOffset _ time
  have hfor := (sentPacketFor_of_lookup (a := a₁) hlookup).trans hsent
  have hmem := mem_of_sentPacketAt hsent
  -- Only the report with the key of the packet is about it.
  have honly : ∀ other ∈ feedback.packets,
      a.rtpToTransportSequenceNumber.lookup (infoKey other) = some seqNum → other = info := by
    intro other hother hlookup'
    obtain ⟨packet₁, hmem₁, hkey₁⟩ := h.keyed _ seqNum hlookup
    obtain ⟨packet₂, hmem₂, hkey₂⟩ := h.keyed _ seqNum hlookup'
    refine inj_on_of_nodup_map nodup hother reported ?_
    rw [← hkey₁, ← hkey₂, a.history.value_unique hmem₁ hmem₂]
  obtain ⟨results, supportsEcn, b, hprocess, hresults, hhistory⟩ :=
    processPacketInfos_spec feedback.packets (a := a₁) (h.accounts.congr rfl rfl rfl) h.keyed nodup
  have hnonempty := ne_nil_of_mem reported
  refine ⟨_, b, by
    rw [processCongestionControlFeedback, if_neg hnonempty]
    dsimp only
    rw [hprocess]
    rfl, ?_, fun hroute => ?_⟩
  · rw [hhistory]
    constructor
    · rintro (habsent | ⟨other, hother, hreceived, hlookup', -⟩)
      · exact absurd hmem ((a.history.find?_eq_none_iff seqNum).mp habsent packet)
      · rw [honly other hother hlookup'] at hreceived
        exact hreceived
    · intro hreceived
      exact Or.inr ⟨info, reported, hreceived, hlookup, by rw [hfor]; rfl⟩
  · rw [exists_mem_toTransportFeedback]
    constructor
    · rintro ⟨r, hr, hsame, hfinite⟩
      obtain ⟨other, hother, found, hfound, -, rfl⟩ :=
        (hresults r).mp ((mem_insertionSort _).mp hr)
      obtain ⟨otherSeq, hotherLookup, hotherSent⟩ := Option.bind_eq_some_iff.mp hfound
      have hfoundMem := mem_of_sentPacketAt hotherSent
      have hseq : otherSeq = seqNum := by
        have hkey := h.accounts.keys otherSeq found hfoundMem
        have hkey' := h.accounts.keys seqNum packet hmem
        have hsame' : found.sent = packet.sent := hsame
        rw [← hkey, ← hkey', hsame']
      subst hseq
      rw [honly other hother hotherLookup] at hfinite
      exact (resultOf_isFinite hoffset info found).mp hfinite
    · intro hreceived
      refine ⟨resultOf offset info packet, (mem_insertionSort _).mpr ?_, rfl,
        (resultOf_isFinite hoffset info packet).mpr hreceived⟩
      exact (hresults _).mpr ⟨info, reported, packet, hfor, hroute, rfl⟩

end TransportFeedbackAdapter

namespace FeedbackTrackers

open CongestionControlFeedbackTracker TransportFeedbackAdapter CongestionControlFeedback

variable {maxLength : Nat}

theorem keys_packetsFrom (ssrc : BitVec 32) (infos : List (TimeDelta × EcnMarking)) :
    ∀ seq : BitVec 16, (packetsFrom ssrc seq infos).map infoKey =
      (range infos.length).map fun i => (ssrc, seq + BitVec.ofNat 16 i) := by
  induction infos with
  | nil =>
    intro seq
    rfl
  | cons info rest ih =>
    intro seq
    rw [packetsFrom, map_cons, ih, length_cons, range_succ_eq_map, map_cons, map_map]
    refine congrArg₂ cons (by simp [infoKey]) (map_congr_left fun i _ => ?_)
    rw [Function.comp_apply, Nat.succ_eq_one_add, BitVec.ofNat_add, ← BitVec.add_assoc]
    rfl

theorem nodup_keys_block (block : ReportBlock) : (block.packets.map infoKey).Nodup := by
  rw [ReportBlock.packets, keys_packetsFrom]
  refine nodup_range.map_on fun i hi j hj heq => ?_
  have hlength := block.atMost
  rw [mem_range] at hi hj
  have hadd := (Prod.mk.inj heq).2
  have hsame : BitVec.ofNat 16 i = BitVec.ofNat 16 j := by simpa using hadd
  have := congrArg BitVec.toNat hsame
  simp only [BitVec.toNat_ofNat] at this
  omega

theorem nodup_keys_blocks {blocks : List ReportBlock}
    (different : blocks.Pairwise fun a b => a.ssrc ≠ b.ssrc) :
    ((blocks.flatMap ReportBlock.packets).map infoKey).Nodup := by
  rw [map_flatMap, nodup_flatMap]
  refine ⟨fun block _ => nodup_keys_block block, different.imp fun {a b} hne key ha hb => ?_⟩
  obtain ⟨first, hfirst, rfl⟩ := mem_map.mp ha
  obtain ⟨second, hsecond, hkey⟩ := mem_map.mp hb
  have hssrc := (Prod.mk.inj hkey).1
  rw [ssrc_of_mem_packetsFrom hfirst, ssrc_of_mem_packetsFrom hsecond] at hssrc
  exact hne hssrc.symm

/-- The feedback that the adapter is given: written into an empty buffer, and parsed. -/
def transmit (feedback : CongestionControlFeedback) (maxLength : Nat) :
    Option CongestionControlFeedback :=
  (feedback.create maxLength ⟨[], []⟩).bind fun buffer =>
    (CommonHeader.parse buffer.written).bind fun header => CongestionControlFeedback.parse {} header

variable {feedback : CongestionControlFeedback}

theorem transmit_eq (grouped : Grouped feedback.packets)
    (fits : feedback.blockLength ≤ maxLength) (short : maxLength ≤ 2 ^ 18) :
    transmit feedback maxLength =
      some { feedback with packets := feedback.packets.map requantise } := by
  obtain ⟨header, hheader, -, -, hparsed⟩ := parse_packetBytes feedback grouped (fits.trans short)
  have hroom : ensureRoom feedback.blockLength maxLength ⟨[], []⟩ = some ⟨[], []⟩ := by
    rw [ensureRoom, if_neg (by simpa using fits)]
  rw [transmit, create, hroom, Option.map_some, Option.bind_some, nil_append, hheader,
    Option.bind_some, hparsed]

/-- Every copy arrived at most 7998046 µs before the feedback: less than `8190/1024` s, the first
offset written as over-range. -/
def Recent (t : CongestionControlFeedbackTracker) (packet : TrackedPacket) (now : Int) : Prop :=
  ∀ copy ∈ t.packets, copy.unwrappedSequenceNumber = packet.unwrappedSequenceNumber →
    now - copy.arrivalTime ≤ 7998046

theorem transmit_reports (g : FeedbackTrackers) (now : Int) (senderSsrc compactNtp : BitVec 32)
    (fits : blockLength ⟨senderSsrc, g.reports now, compactNtp⟩ ≤ maxLength)
    (short : maxLength ≤ 2 ^ 18) :
    transmit ⟨senderSsrc, g.reports now, compactNtp⟩ maxLength =
      some ⟨senderSsrc, (g.reports now).map requantise, compactNtp⟩ := by
  obtain ⟨blocks, different, -, hblocks⟩ := reports_blocks now g.trackers.sorted
  exact transmit_eq ⟨blocks, different.isChain, hblocks⟩ fits short

theorem reported_packet (g : FeedbackTrackers) {ssrc : Fin (2 ^ 32)}
    {t : CongestionControlFeedbackTracker} (htracker : (ssrc, t) ∈ g.trackers.entries)
    {packet : TrackedPacket} (accepted : packet ∈ t.packets) {now : Int}
    (past : ∀ copy ∈ t.packets, copy.arrivalTime ≤ now)
    (reported : packet.unwrappedSequenceNumber < t.beginSeq + kMaxPacketsPerSsrc) :
    (((g.reports now).map requantise).map infoKey).Nodup ∧ ∃ info ∈ (g.reports now).map requantise,
        infoKey info = (BitVec.ofFin ssrc, wrap 16 packet.unwrappedSequenceNumber) ∧
        (info.arrivalTimeOffset.isFinite = true ↔ Recent t packet now) := by
  obtain ⟨blocks, different, -, hblocks⟩ := reports_blocks now g.trackers.sorted
  let info := reportOn now (BitVec.ofFin ssrc) t.sortedPackets packet.unwrappedSequenceNumber
  have hkeys : ((g.reports now).map requantise).map infoKey = (g.reports now).map infoKey := by
    rw [map_map]
    rfl
  obtain ⟨first, hfirst, hseq, hearliest, hoffset, -⟩ :=
    reportOn_received now (BitVec.ofFin ssrc) accepted
  have hreceived : (requantise info).arrivalTimeOffset.isFinite = true ↔ Recent t packet now := by
    have hquantised : (requantise info).arrivalTimeOffset =
        atoToTimeDelta (to13bitAto (.finite (now - first.arrivalTime))) := by
      rw [requantise, hoffset]
      rfl
    rw [hquantised, requantise_isFinite _ (by have := past first hfirst; omega)]
    constructor
    · intro hle copy hcopy hcopySeq
      have := hearliest copy hcopy hcopySeq
      omega
    · intro hrecent
      exact hrecent first hfirst hseq
  refine ⟨?_, requantise info, mem_map_of_mem (mem_reports htracker now accepted reported),
    Prod.ext (reportOn_ssrc ..) (reportOn_sequenceNumber ..), hreceived⟩
  rw [hkeys, reports, hblocks]
  exact nodup_keys_blocks different

theorem fits_of_transmit {parsed : CongestionControlFeedback}
    (h : transmit feedback maxLength = some parsed) : feedback.blockLength ≤ maxLength := by
  obtain ⟨buffer, hcreate, -⟩ := Option.bind_eq_some_iff.mp h
  obtain ⟨room, hroom, -⟩ := create_eq_some hcreate
  have := ensureRoom_fits _ _ _ _ hroom
  omega

/-- From end to end: the adapter takes a packet for received, which the tracker has accepted and the
report is about, exactly if it arrived recently. -/
theorem received_iff_recent (g : FeedbackTrackers) (ssrc : Fin (2 ^ 32))
    (t : CongestionControlFeedbackTracker) (htracker : (ssrc, t) ∈ g.trackers.entries)
    (packet : TrackedPacket) (accepted : packet ∈ t.packets) (now : Int)
    (past : ∀ copy ∈ t.packets, copy.arrivalTime ≤ now)
    (reported : packet.unwrappedSequenceNumber < t.beginSeq + kMaxPacketsPerSsrc)
    (compactNtp senderSsrc : BitVec 32) (feedback : CongestionControlFeedback)
    (next : FeedbackTrackers) (hsend : g.sendFeedback now compactNtp = some (feedback, next))
    (maxLength : Nat) (short : maxLength ≤ 2 ^ 18) (parsed : CongestionControlFeedback)
    (htransmit : transmit { feedback with senderSsrc := senderSsrc } maxLength = some parsed)
    (a : TransportFeedbackAdapter) (reachable : Reachable a) (seqNum : Int)
    (hlookup : a.rtpToTransportSequenceNumber.lookup
      (BitVec.ofFin ssrc, wrap 16 packet.unwrappedSequenceNumber) = some seqNum)
    (sentPacket : PacketFeedback) (hsent : a.sentPacketAt seqNum = some sentPacket) (time : Int) :
    ∃ result b, a.processCongestionControlFeedback parsed (.finite time) = some (result, b) ∧
      (b.history.find? seqNum = none ↔ Recent t packet now) ∧
      (sentPacket.networkRoute = a.networkRoute →
        ((∃ packets ∈ result, ∃ r ∈ packets.packetFeedbacks,
          r.sentPacket = sentPacket.sent ∧ r.receiveTime.isFinite = true) ↔
            Recent t packet now)) := by
  obtain ⟨next', heq⟩ := g.sendFeedback_eq now compactNtp
  rw [heq] at hsend
  cases hsend
  have hparsed := g.transmit_reports now senderSsrc compactNtp (fits_of_transmit htransmit) short
  rw [htransmit] at hparsed
  have hpackets : parsed.packets = (g.reports now).map requantise := by
    cases hparsed
    rfl
  obtain ⟨hnodup, info, hmem, hkey, hreceived⟩ :=
    g.reported_packet htracker accepted past reported
  rw [← hpackets] at hnodup hmem
  obtain ⟨result, b, hprocess, hremoved, hresult⟩ :=
    processCongestionControlFeedback_status reachable hnodup hmem (hkey ▸ hlookup) hsent time
  exact ⟨result, b, hprocess, hremoved.trans hreceived,
    fun hroute => (hresult hroute).trans hreceived⟩

def addCall : TransportFeedbackAdapter.Call :=
  .addPacket ⟨some 1, 100, false, 7, 5⟩ 0 (.finite 0)

def sentCall : TransportFeedbackAdapter.Call :=
  .processSentPacket { packetId := 1, sendTimeMs := 0, includedInFeedback := true }

def added : TransportFeedbackAdapter := (step {} addCall).getD {}

def sender : TransportFeedbackAdapter := (step added sentCall).getD {}

theorem reachable_sender : Reachable sender := by
  have hfresh : FreshCall {} addCall := rfl
  have hfresh' : FreshCall added sentCall := trivial
  exact .step (.step .initial hfresh rfl) hfresh' rfl

def receiver : FeedbackTrackers := initial.receivedPacket ⟨7, 5, 0, .ect1⟩

def receiverTracker : CongestionControlFeedbackTracker :=
  CongestionControlFeedbackTracker.initial.receivedPacket ⟨7, 5, 0, .ect1⟩

theorem mem_receiver : (7, receiverTracker) ∈ receiver.trackers.entries :=
  mem_singleton_self _

theorem past_receiver {now : Int} (h : 0 ≤ now) :
    ∀ copy ∈ receiverTracker.packets, copy.arrivalTime ≤ now := by
  exact forall_mem_singleton.mpr h

theorem recent_receiver (now : Int) :
    Recent receiverTracker ⟨7, 5, 0, .ect1⟩ now ↔ now ≤ 7998046 := by
  constructor
  · intro hrecent
    have := hrecent _ (mem_singleton_self _) rfl
    dsimp only at this
    omega
  · intro hle copy hmem _
    rw [mem_singleton.mp hmem]
    dsimp only
    omega

theorem sent_sender : (sender.sentPacketAt 1).isSome = true := by decide +kernel

def sentPacket : PacketFeedback := (sender.sentPacketAt 1).get sent_sender

theorem sentPacketAt_sender : sender.sentPacketAt 1 = some sentPacket := (Option.some_get _).symm

theorem lookup_sender : sender.rtpToTransportSequenceNumber.lookup
    (BitVec.ofFin 7, wrap 16 5) = some 1 := by
  decide +kernel

theorem route_sender : sentPacket.networkRoute = sender.networkRoute := by
  decide +kernel

/-- A feedback one second after the packet arrived: it is taken for received. -/
theorem received_afterOneSecond :
    ∃ feedback next parsed result b, receiver.sendFeedback 1000000 0 = some (feedback, next) ∧
      transmit { feedback with senderSsrc := 9 } 1200 = some parsed ∧
      sender.processCongestionControlFeedback parsed (.finite 2000000) = some (result, b) ∧
      b.history.find? 1 = none ∧
      ∃ packets ∈ result, ∃ r ∈ packets.packetFeedbacks, r.receiveTime.isFinite = true := by
  obtain ⟨next, hsend⟩ := receiver.sendFeedback_eq 1000000 0
  have hfits : blockLength ⟨9, receiver.reports 1000000, 0⟩ ≤ 1200 := by decide +kernel
  have htransmit := receiver.transmit_reports 1000000 9 0 hfits (by decide)
  obtain ⟨result, b, hprocess, hremoved, hresult⟩ := received_iff_recent receiver 7 receiverTracker
    mem_receiver ⟨7, 5, 0, .ect1⟩ (mem_singleton_self _) 1000000 (past_receiver (by decide))
    (by decide +kernel) 0 9 _ next hsend 1200 (by decide) _ htransmit sender reachable_sender 1
    lookup_sender sentPacket sentPacketAt_sender 2000000
  have hrecent := (recent_receiver 1000000).mpr (by decide)
  obtain ⟨packets, hpackets, r, hr, -, hfinite⟩ := (hresult route_sender).mpr hrecent
  exact ⟨_, next, _, result, b, hsend, htransmit, hprocess, hremoved.mpr hrecent, packets,
    hpackets, r, hr, hfinite⟩

/-- A feedback eight seconds after the packet arrived: it stays in the history, and has no
finite receive time. -/
theorem lost_afterEightSeconds :
    ∃ feedback next parsed result b, receiver.sendFeedback 8000000 0 = some (feedback, next) ∧
      feedback.packets = [⟨7, 5, .finite 8000000, .ect1⟩] ∧
      transmit { feedback with senderSsrc := 9 } 1200 = some parsed ∧
      sender.processCongestionControlFeedback parsed (.finite 9000000) = some (result, b) ∧
      b.history.find? 1 ≠ none ∧ ¬ ∃ packets ∈ result, ∃ r ∈ packets.packetFeedbacks,
        r.sentPacket = sentPacket.sent ∧ r.receiveTime.isFinite = true := by
  obtain ⟨next, hsend⟩ := receiver.sendFeedback_eq 8000000 0
  have hreports : receiver.reports 8000000 = [⟨7, 5, .finite 8000000, .ect1⟩] := by
    decide +kernel
  have hfits : blockLength ⟨9, receiver.reports 8000000, 0⟩ ≤ 1200 := by decide +kernel
  have htransmit := receiver.transmit_reports 8000000 9 0 hfits (by decide)
  have hpast := past_receiver (show (0 : Int) ≤ 8000000 by decide)
  obtain ⟨hnodup, info, hmem, hkey, hreceived⟩ := receiver.reported_packet mem_receiver
    (mem_singleton_self _) hpast (by decide +kernel)
  have hold := mt (hreceived.trans (recent_receiver 8000000)).mp (by decide)
  let parsed : CongestionControlFeedback := ⟨9, (receiver.reports 8000000).map requantise, 0⟩
  obtain ⟨result, b, hprocess, hremoved, hresult⟩ := processCongestionControlFeedback_status
    reachable_sender (show (parsed.packets.map infoKey).Nodup from hnodup) hmem
    (hkey ▸ lookup_sender) sentPacketAt_sender 9000000
  exact ⟨_, next, _, result, b, hsend, hreports, htransmit, hprocess, mt hremoved.mp hold,
    mt (hresult route_sender).mp hold⟩

end FeedbackTrackers

end Congestion
