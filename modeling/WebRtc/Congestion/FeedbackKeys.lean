import WebRtc.Congestion.InFlightAccounting

/-!
# Transport feedback adapter: RTP sequence numbers and history

An entry of the map from RTP to transport sequence numbers belongs to the packet of the history that
it points to. Every call keeps this as long as packets are added under transport sequence numbers of
their own, and it decides which packets a congestion control feedback reaches.
-/

namespace Congestion

open Units SequenceNumbers Rtcp Wrapping Option

namespace TransportFeedbackAdapter

variable {key : SsrcAndRtpSequencenumber} {seqNum : Int} {a a' : TransportFeedbackAdapter}
  {packet : PacketFeedback} {received : Bool} {packetFeedback : Option PacketFeedback}
  {result : Option SentPacket × TransportFeedbackAdapter} {history : OrdMap Int PacketFeedback}

def packetKey (packet : PacketFeedback) : SsrcAndRtpSequencenumber :=
  (packet.ssrc, packet.rtpSequenceNumber)

/-- Every RTP sequence number of the map leads to its packet. -/
def Keyed (m : AList (fun _ : SsrcAndRtpSequencenumber => Int))
    (history : OrdMap Int PacketFeedback) : Prop :=
  ∀ key seqNum, m.lookup key = some seqNum →
    ∃ packet, (seqNum, packet) ∈ history.entries ∧ packetKey packet = key

variable {m : AList (fun _ : SsrcAndRtpSequencenumber => Int)}

theorem lookup_erase_eq_some
    {erased : SsrcAndRtpSequencenumber} (h : (m.erase erased).lookup key = some seqNum) :
    erased ≠ key ∧ m.lookup key = some seqNum := by
  by_cases hkey : key = erased
  · subst hkey
    rw [AList.lookup_erase] at h
    cases h
  · rw [AList.lookup_erase_ne hkey] at h
    exact ⟨Ne.symm hkey, h⟩

theorem lookup_eraseKeys (packets : List PacketFeedback) :
    ∀ {m : AList (fun _ : SsrcAndRtpSequencenumber => Int)},
      (eraseKeys m packets).lookup key = some seqNum →
        m.lookup key = some seqNum ∧ ∀ packet ∈ packets, packetKey packet ≠ key := by
  induction packets with
  | nil =>
    intro m h
    exact ⟨h, fun _ hmem => (List.not_mem_nil hmem).elim⟩
  | cons packet rest ih =>
    intro m h
    obtain ⟨herased, hrest⟩ := ih h
    obtain ⟨hne, hlookup⟩ := lookup_erase_eq_some herased
    refine ⟨hlookup, fun other hmem => ?_⟩
    rcases List.mem_cons.mp hmem with rfl | hmem
    · exact hne
    · exact hrest other hmem

theorem lookup_emplaceKey {added : SsrcAndRtpSequencenumber} {value : Int}
    (h : (emplaceKey m added value).lookup key = some seqNum) :
    m.lookup key = some seqNum ∨ key = added ∧ seqNum = value := by
  unfold emplaceKey at h
  split_ifs at h
  · exact Or.inl h
  · by_cases hkey : key = added
    · subst hkey
      rw [AList.lookup_insert] at h
      exact Or.inr ⟨rfl, (some.inj h).symm⟩
    · rw [AList.lookup_insert_ne hkey] at h
      exact Or.inl h

theorem addPacket_keyed (h : Keyed a.rtpToTransportSequenceNumber a.history)
    {packetToSend : RtpPacketToSend} {overheadBytes : Nat} {creationTime : Timestamp}
    (fresh : a.history.find? (a.seqNumUnwrapper.unwrap
      (wrap 16 (packetToSend.transportSequenceNumber.getD 0))).1 = none)
    (hadd : a.addPacket packetToSend overheadBytes creationTime = some a') :
    Keyed a'.rtpToTransportSequenceNumber a'.history := by
  obtain ⟨inFlight, -, rfl⟩ := map_eq_some_iff.mp hadd
  intro key seqNum hlookup
  rcases lookup_emplaceKey hlookup with hold | ⟨rfl, rfl⟩
  · obtain ⟨hbefore, hkept⟩ := lookup_eraseKeys _ hold
    obtain ⟨packet, hmem, hkey⟩ := h key seqNum hbefore
    -- The key of an expired packet is gone, so this packet has stayed.
    have hstays : (seqNum, packet) ∈ a.history.entries.dropWhile (isExpired creationTime) := by
      rw [← List.takeWhile_append_dropWhile (p := isExpired creationTime)
        (l := a.history.entries)] at hmem
      rcases List.mem_append.mp hmem with hexpired | hstays
      · exact absurd hkey (hkept packet (List.mem_map_of_mem hexpired))
      · exact hstays
    exact ⟨packet, OrdMap.mem_emplaceEntries_of_mem hstays, hkey⟩
  · refine ⟨_, OrdMap.mem_emplaceEntries_self fun e hmem heq => ?_, rfl⟩
    obtain ⟨seqNum, packet⟩ := e
    subst heq
    exact (a.history.find?_eq_none_iff _).mp fresh packet
      ((List.dropWhile_sublist _).subset hmem)

theorem Keyed.modify (h : Keyed m history) {next : PacketFeedback}
    (hmem : (seqNum, packet) ∈ history.entries) (hkey : packetKey next = packetKey packet) :
    Keyed m (history.modify seqNum fun _ => next) := by
  intro key other hlookup
  obtain ⟨found, hfound, hfoundKey⟩ := h key other hlookup
  by_cases hseq : other = seqNum
  · subst hseq
    rw [history.value_unique hfound hmem, ← hkey] at hfoundKey
    exact ⟨next, history.mem_modify hmem _, hfoundKey⟩
  · exact ⟨found, List.mem_map.mpr ⟨_, hfound, if_neg hseq⟩, hfoundKey⟩

theorem recordSent_keyed (h : Keyed a.rtpToTransportSequenceNumber a.history)
    (hmem : (seqNum, packet) ∈ a.history.entries) {sendTime : Timestamp}
    (hsent : a.recordSent seqNum packet sendTime = some result) :
    Keyed result.2.rtpToTransportSequenceNumber result.2.history := by
  unfold recordSent at hsent
  dsimp only at hsent
  split_ifs at hsent
  · cases hsent
    exact h.modify hmem rfl
  all_goals
    obtain ⟨inFlight, -, rfl⟩ := map_eq_some_iff.mp hsent
    exact h.modify hmem rfl

theorem processSentPacket_keyed (h : Keyed a.rtpToTransportSequenceNumber a.history)
    {sentPacket : SentPacketInfo} (hsent : a.processSentPacket sentPacket = some result) :
    Keyed result.2.rtpToTransportSequenceNumber result.2.history := by
  unfold processSentPacket at hsent
  dsimp only at hsent
  split_ifs at hsent
  · split at hsent
    · rename_i packet hfind
      exact recordSent_keyed (a := { a with
        seqNumUnwrapper := (a.seqNumUnwrapper.unwrap (wrap 16 sentPacket.packetId)).2 }) h
        ((a.history.find?_eq_some_iff _ _).mp hfind) hsent
    · cases hsent
      exact h
  · cases hsent
    exact h
  · cases hsent
    exact h

/-- Receiving a packet removes it from the history together with its own key. -/
theorem Keyed.erase (h : Keyed m history) (hmem : (seqNum, packet) ∈ history.entries) :
    Keyed (m.erase (packetKey packet)) (history.erase seqNum) := by
  intro key other hlookup
  obtain ⟨hne, hlookup⟩ := lookup_erase_eq_some hlookup
  obtain ⟨found, hfound, hkey⟩ := h key other hlookup
  refine ⟨found, (history.mem_erase seqNum _).mpr ⟨hfound, ?_⟩, hkey⟩
  rintro rfl
  rw [history.value_unique hfound hmem] at hkey
  exact hne hkey

/-- The packet of the history under a transport sequence number, if it was sent. -/
def sentPacketAt (a : TransportFeedbackAdapter) (seqNum : Int) : Option PacketFeedback :=
  (a.history.find? seqNum).filter fun packet => packet.sent.sendTime.isFinite

/-- What taking a received packet out of the adapter leaves behind. -/
def takeOut (a : TransportFeedbackAdapter) (seqNum : Int) (received : Bool) :
    AList (fun _ : SsrcAndRtpSequencenumber => Int) × OrdMap Int PacketFeedback :=
  match a.sentPacketAt seqNum with
  | some packet =>
    if received then
      (a.rtpToTransportSequenceNumber.erase (packetKey packet), a.history.erase seqNum)
    else (a.rtpToTransportSequenceNumber, a.history)
  | none => (a.rtpToTransportSequenceNumber, a.history)

theorem ackUpTo_fields (h : a.ackUpTo seqNum = some a') :
    a'.history = a.history ∧ a'.rtpToTransportSequenceNumber = a.rtpToTransportSequenceNumber ∧
      a'.networkRoute = a.networkRoute ∧ a'.currentOffset = a.currentOffset := by
  unfold ackUpTo at h
  split_ifs at h
  · obtain ⟨inFlight, -, rfl⟩ := map_eq_some_iff.mp h
    exact ⟨rfl, rfl, rfl, rfl⟩
  · cases h
    exact ⟨rfl, rfl, rfl, rfl⟩

theorem retrievePacketFeedback_spec
    (h : a.retrievePacketFeedback seqNum received = some (packetFeedback, a')) :
    packetFeedback = a.sentPacketAt seqNum ∧
      (a'.rtpToTransportSequenceNumber, a'.history) = a.takeOut seqNum received ∧
      a'.networkRoute = a.networkRoute ∧ a'.currentOffset = a.currentOffset := by
  obtain ⟨b, hack, hb⟩ := Option.map_eq_some_iff.mp h
  obtain ⟨hhistory, hmap, hroute, hoffset⟩ := ackUpTo_fields hack
  rw [takeOut, sentPacketAt, ← hhistory, ← hmap, ← hroute, ← hoffset]
  cases hfind : b.history.find? seqNum with
  | none =>
    rw [hfind] at hb
    cases hb
    exact ⟨rfl, rfl, rfl, rfl⟩
  | some packet =>
    rw [hfind] at hb
    dsimp only at hb
    rw [UnitBase.isInfinite] at hb
    cases hsent : packet.sent.sendTime.isFinite with
    | false =>
      simp only [hsent] at hb
      cases hb
      simp [Option.filter, hsent]
    | true =>
      cases received with
      | false =>
        simp only [hsent] at hb
        cases hb
        simp [Option.filter, hsent]
      | true =>
        simp only [hsent] at hb
        cases hb
        simp [Option.filter, hsent, packetKey]

theorem mem_of_sentPacketAt (h : a.sentPacketAt seqNum = some packet) :
    (seqNum, packet) ∈ a.history.entries :=
  (a.history.find?_eq_some_iff _ _).mp (filter_eq_some_iff.mp h).1

section

variable (h : Keyed a.rtpToTransportSequenceNumber a.history)
include h

theorem takeOut_keyed (seqNum : Int) (received : Bool) :
    Keyed (a.takeOut seqNum received).1 (a.takeOut seqNum received).2 := by
  unfold takeOut
  split
  · rename_i packet hsent
    split_ifs
    · exact h.erase (mem_of_sentPacketAt hsent)
    · exact h
  · exact h

theorem retrievePacketFeedback_keyed
    (hretrieve : a.retrievePacketFeedback seqNum received = some (packetFeedback, a')) :
    Keyed a'.rtpToTransportSequenceNumber a'.history := by
  obtain ⟨-, htake, -, -⟩ := retrievePacketFeedback_spec hretrieve
  have hkeyed := takeOut_keyed h seqNum received
  rw [← htake] at hkeyed
  exact hkeyed

theorem retrievePacketFeedbackByKey_keyed
    (hretrieve : a.retrievePacketFeedbackByKey key received = some (packetFeedback, a')) :
    Keyed a'.rtpToTransportSequenceNumber a'.history := by
  unfold retrievePacketFeedbackByKey at hretrieve
  split at hretrieve
  · cases hretrieve
    exact h
  · exact retrievePacketFeedback_keyed h hretrieve

end

theorem processStatuses_keyed (statuses : List (BitVec 16 × TimeDelta)) :
    ∀ {a : TransportFeedbackAdapter} {result : List PacketResult × TransportFeedbackAdapter},
      Keyed a.rtpToTransportSequenceNumber a.history → a.processStatuses statuses = some result →
      Keyed result.2.rtpToTransportSequenceNumber result.2.history := by
  induction statuses with
  | nil =>
    intro a result h hrun
    cases hrun
    exact h
  | cons status rest ih =>
    intro a result h hrun
    obtain ⟨⟨packetFeedback, b⟩, hretrieve, hrun⟩ := bind_eq_some_iff.mp hrun
    obtain ⟨⟨results, next⟩, hrest, hresult⟩ := map_eq_some_iff.mp hrun
    have hb := retrievePacketFeedback_keyed (by exact h) hretrieve
    have hnext := ih hb hrest
    have hfinal : result.2 = next := by
      rw [← hresult]
      dsimp only
      split
      · rfl
      · split_ifs <;> rfl
    rw [hfinal]
    exact hnext

theorem processPacketInfos_keyed (packets : List PacketInfo) :
    ∀ {a : TransportFeedbackAdapter} {result : List PacketResult × Bool × TransportFeedbackAdapter},
      Keyed a.rtpToTransportSequenceNumber a.history → a.processPacketInfos packets = some result →
      Keyed result.2.2.rtpToTransportSequenceNumber result.2.2.history := by
  induction packets with
  | nil =>
    intro a result h hrun
    cases hrun
    exact h
  | cons packetInfo rest ih =>
    intro a result h hrun
    obtain ⟨⟨packetFeedback, b⟩, hretrieve, hrun⟩ := bind_eq_some_iff.mp hrun
    obtain ⟨⟨results, supportsEcn, next⟩, hrest, hresult⟩ := map_eq_some_iff.mp hrun
    have hnext := ih (retrievePacketFeedbackByKey_keyed h hretrieve) hrest
    have hfinal : result.2.2 = next := by
      rw [← hresult]
      dsimp only
      split
      · rfl
      · split_ifs <;> rfl
    rw [hfinal]
    exact hnext

/-- The calls that add a packet do so under a transport sequence number of its own. -/
def FreshCall (a : TransportFeedbackAdapter) : Call → Prop
  | .addPacket packetToSend _ _ =>
    a.history.find? (a.seqNumUnwrapper.unwrap
      (wrap 16 (packetToSend.transportSequenceNumber.getD 0))).1 = none
  | _ => True

theorem step_keyed (h : Keyed a.rtpToTransportSequenceNumber a.history) {call : Call}
    (fresh : a.FreshCall call) (hstep : a.step call = some a') :
    Keyed a'.rtpToTransportSequenceNumber a'.history := by
  cases call with
  | addPacket packetToSend overheadBytes creationTime => exact addPacket_keyed h fresh hstep
  | processSentPacket sentPacket =>
    obtain ⟨result, hsent, rfl⟩ := map_eq_some_iff.mp hstep
    exact processSentPacket_keyed h hsent
  | processTransportFeedback feedback feedbackReceiveTime =>
    obtain ⟨result, hcall, rfl⟩ := map_eq_some_iff.mp hstep
    unfold processTransportFeedback at hcall
    split_ifs at hcall
    · cases hcall
      exact h
    · obtain ⟨result', hstatuses, rfl⟩ := map_eq_some_iff.mp hcall
      exact processStatuses_keyed feedback.forAllPackets (by exact h) hstatuses
  | processCongestionControlFeedback feedback feedbackReceiveTime =>
    obtain ⟨result, hcall, rfl⟩ := map_eq_some_iff.mp hstep
    unfold processCongestionControlFeedback at hcall
    split_ifs at hcall
    · cases hcall
      exact h
    · obtain ⟨result', hpackets, rfl⟩ := map_eq_some_iff.mp hcall
      exact processPacketInfos_keyed feedback.packets (by exact h) hpackets
  | setNetworkRoute networkRoute =>
    cases hstep
    exact h

/-- The adapters that calls with fresh transport sequence numbers lead to. -/
inductive Reachable : TransportFeedbackAdapter → Prop
  | initial : Reachable {}
  | step {a a' : TransportFeedbackAdapter} {call : Call} (before : Reachable a)
      (fresh : a.FreshCall call) (call_eq : a.step call = some a') : Reachable a'

theorem Reachable.accounts (h : Reachable a) : Accounts a := by
  induction h with
  | initial => exact accounts_initial
  | step _ _ hcall ih =>
    obtain ⟨next, hnext, haccounts⟩ := step_accounts ih _
    rw [hcall] at hnext
    cases hnext
    exact haccounts

theorem Reachable.keyed (h : Reachable a) : Keyed a.rtpToTransportSequenceNumber a.history := by
  induction h with
  | initial =>
    intro key seqNum hlookup
    cases hlookup
  | step _ fresh hcall ih => exact step_keyed ih fresh hcall

end TransportFeedbackAdapter

end Congestion
