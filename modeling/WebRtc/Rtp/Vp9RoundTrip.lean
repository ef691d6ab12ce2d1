import WebRtc.Rtp.Vp9Descriptor
import Mathlib.Algebra.Order.BigOperators.Group.List

/-!
# VP9 packets round trip

The packets of a frame are the pieces of its payload, each behind its descriptor. The depacketizer
finds the payload and the fields of the header again, as long as the sizes fit an `int`.
-/

namespace Rtp.Vp9

open EventLog BitLists RtpPacketizerVp9 List Option

/-- The scalability structure of `received` is that of `hdr`. -/
structure SameStructure (hdr received : RTPVideoHeaderVP9) : Prop where
  numSpatialLayers : received.numSpatialLayers = hdr.numSpatialLayers
  resolutionPresent :
    received.spatialLayerResolutionPresent = hdr.spatialLayerResolutionPresent
  resolutions : hdr.spatialLayerResolutionPresent = true → ∀ i < hdr.numSpatialLayers,
    received.width i = hdr.width i ∧ received.height i = hdr.height i
  numFramesInGof : received.gof.numFramesInGof = hdr.gof.numFramesInGof
  frames : ∀ i < hdr.gof.numFramesInGof, received.gof.temporalIdx i = hdr.gof.temporalIdx i ∧
    received.gof.temporalUpSwitch i = hdr.gof.temporalUpSwitch i ∧
    received.gof.numRefPics i = hdr.gof.numRefPics i ∧
    ∀ r < (hdr.gof.numRefPics i).toNat, received.gof.pidDiff i r = hdr.gof.pidDiff i r

/-- `received` has the fields of `hdr` that its mode sends, apart from the structure. -/
structure SameFields (hdr received : RTPVideoHeaderVP9) : Prop where
  interPicPredicted : received.interPicPredicted = hdr.interPicPredicted
  flexibleMode : received.flexibleMode = hdr.flexibleMode
  nonRefForInterLayerPred : received.nonRefForInterLayerPred = hdr.nonRefForInterLayerPred
  pictureId : received.pictureId = hdr.pictureId
  maxPictureId : hdr.pictureId ≠ kNoPictureId → received.maxPictureId = hdr.maxPictureId
  temporalIdx : received.temporalIdx = hdr.temporalIdx
  spatialIdx : received.spatialIdx = hdr.spatialIdx
  layerFlags : hdr.temporalIdx ≠ kNoTemporalIdx → received.temporalUpSwitch = hdr.temporalUpSwitch ∧
      received.interLayerPredicted = hdr.interLayerPredicted
  tl0PicIdx : hdr.temporalIdx ≠ kNoTemporalIdx → hdr.flexibleMode = false →
    received.tl0PicIdx = hdr.tl0PicIdx
  references : hdr.interPicPredicted = true → hdr.flexibleMode = true →
    received.numRefPics = hdr.numRefPics ∧ ∀ i < hdr.numRefPics, received.pidDiff i = hdr.pidDiff i

section Received

variable {hdr : RTPVideoHeaderVP9}

theorem sameFields_received (layerBegin layerEnd : Bool) :
    SameFields hdr (received hdr layerBegin layerEnd) := by
  have hlayers : hdr.temporalIdx ≠ kNoTemporalIdx → layerInfoPresent hdr = true := fun hsome =>
    layerInfoPresent_iff.mpr fun hnone => hsome hnone.1
  refine ⟨rfl, rfl, rfl, rfl, ?_, rfl, rfl, ?_, ?_, ?_⟩
  · intro hsome
    exact if_pos (pictureIdPresent_iff.mpr hsome)
  · intro hsome
    simp [received, receivedReferences, receivedLayerInfo, hlayers hsome]
  · intro hsome hfixed
    simp [received, receivedReferences, receivedLayerInfo, hlayers hsome, hfixed]
  · intro hinter hflexible
    constructor
    · simp [received, receivedReferences, hinter, hflexible]
    · intro i hi
      simp [received, receivedReferences, hinter, hflexible, fill_of_lt _ _ hi]

variable {layerBegin layerEnd : Bool}

theorem sameStructure_received (hss : (received hdr layerBegin layerEnd).ssDataAvailable = true) :
    SameStructure hdr (received hdr layerBegin layerEnd) := by
  have hsent : (hdr.ssDataAvailable && layerBegin) = true := hss
  constructor
  · simp [received, hsent]
  · simp [received, hsent]
  · intro hsized i hi
    simp [received, hsent, hsized, fill_of_lt _ _ hi]
  · simp [received, hsent, fillGof]
  · intro i hi
    simp only [received, hsent, if_true, fillGof, fill_of_lt _ _ hi]
    exact ⟨trivial, trivial, trivial, fun r hr => fill_of_lt _ _ hr⟩

theorem parse_packet (h : Fits hdr) {buffer chunk : List (BitVec 8)}
    (hbuffer : ofBytes buffer = descriptorBits hdr layerBegin layerEnd) (hchunk : chunk ≠ [])
    (hsmall : (buffer ++ chunk).length < 2 ^ 28) :
    parse (buffer ++ chunk) = some ⟨receivedHeader hdr layerBegin layerEnd, chunk⟩ := by
  have hlength := congrArg length hbuffer
  have hpositive : 0 < (descriptorBits hdr layerBegin layerEnd).length := by
    rw [descriptorBits, firstByteBits]
    simp
  rw [length_ofBytes] at hlength
  have hsome : 0 < chunk.length := length_pos_of_ne_nil hchunk
  obtain ⟨r, hinput, hunread⟩ := BitstreamReader.unread_ofInput
    (show (buffer ++ chunk).length * 8 < 2 ^ 31 by omega)
  rw [ofBytes_append, hbuffer] at hunread
  obtain ⟨hheader, hrest⟩ := reads_descriptor h layerBegin layerEnd r _ hunread
  have hcount := hrest.count
  rw [length_ofBytes] at hcount
  have hoffset : (buffer ++ chunk).length - ((parseDescriptor r).2.remainingBits / 8).toNat =
      buffer.length := by
    rw [length_append]
    omega
  have hparse : parse (buffer ++ chunk) = if (parseDescriptor r).2.remainingBits ≤ 0 then none
      else if (buffer ++ chunk).length - ((parseDescriptor r).2.remainingBits / 8).toNat = 0 then none
      else some ⟨(parseDescriptor r).1, (buffer ++ chunk).drop
        ((buffer ++ chunk).length - ((parseDescriptor r).2.remainingBits / 8).toNat)⟩ := by
    rw [parse, hinput]
    rfl
  rw [hparse, hoffset, if_neg (by omega), if_neg (by omega), hheader, drop_left]

end Received

def chunks : List Int → List (BitVec 8) → List (List (BitVec 8))
  | [], _ => []
  | size :: sizes, payload => payload.take size.toNat :: chunks sizes (payload.drop size.toNat)

@[simp] theorem length_chunks (sizes : List Int) (payload : List (BitVec 8)) :
    (chunks sizes payload).length = sizes.length := by
  induction sizes generalizing payload with
  | nil => rfl
  | cons size sizes ih => simp [chunks, ih]

variable {payload : List (BitVec 8)} {sizes : List Int}

theorem flatten_chunks (hpos : ∀ size ∈ sizes, 0 < size) (hsum : sizes.sum = payload.length) :
    (chunks sizes payload).flatten = payload := by
  induction sizes generalizing payload with
  | nil =>
    have hempty : payload.length = 0 := by simpa using hsum.symm
    simp [chunks, eq_nil_of_length_eq_zero hempty]
  | cons size sizes ih =>
    have hsize := hpos size mem_cons_self
    have hrest : 0 ≤ sizes.sum := sum_nonneg fun other hmem =>
      (hpos other (mem_cons_of_mem _ hmem)).le
    rw [sum_cons] at hsum
    rw [chunks, flatten_cons, ih ((forall_mem_cons.mp hpos).2), take_append_drop]
    rw [length_drop]
    omega

theorem length_getElem_chunks
    (hpos : ∀ size ∈ sizes, 0 < size) (hsum : sizes.sum = payload.length) (i : Nat)
    (hi : i < (chunks sizes payload).length) (hi' : i < sizes.length) :
    (((chunks sizes payload)[i]).length : Int) = sizes[i] := by
  induction sizes generalizing payload i with
  | nil => exact absurd hi' (Nat.not_lt_zero i)
  | cons size sizes ih =>
    have hsize := hpos size mem_cons_self
    have hrest : 0 ≤ sizes.sum := sum_nonneg fun other hmem =>
      (hpos other (mem_cons_of_mem _ hmem)).le
    rw [sum_cons] at hsum
    cases i with
    | zero =>
      simp only [chunks, getElem_cons_zero, length_take]
      omega
    | succ i =>
      refine ih ((forall_mem_cons.mp hpos).2) ?_ i _ _
      rw [length_drop]
      omega

/-- The packet at `position` of `count` packets, with this piece of the payload. -/
structure IsPacket (hdr : RTPVideoHeaderVP9) (size extra count position : Nat)
    (chunk : List (BitVec 8)) (packet : RtpPacketToSend) : Prop where
  payload : ∃ buffer, packet.payload = buffer ++ chunk ∧
    buffer.length = size + (if position = 0 then extra else 0) ∧
    ofBytes buffer = descriptorBits hdr (position == 0) (position + 1 == count)
  marker : packet.marker = (position + 1 == count && hdr.endOfPicture)

section Packets

variable {hdr : RTPVideoHeaderVP9} {size extra : Nat} {payload : List (BitVec 8)}
  {limits : PayloadSizeLimits}

theorem Fits.endOfPictureCheck (h : Fits hdr) (hlayers : hdr.numSpatialLayers ≤ 8) :
    RtpPacketizerVp9.endOfPictureCheck hdr = true := by
  rw [RtpPacketizerVp9.endOfPictureCheck, Bool.or_eq_true, decide_eq_true_eq]
  rcases h.endOfPicture with hend | hbelow
  · exact Or.inr hend
  · left
    omega

/-- The sizes of the descriptors, as the constructor computes them. -/
def Sized (hdr : RTPVideoHeaderVP9) (size extra : Nat) : Prop :=
  ∀ layerBegin layerEnd, (descriptorBits hdr layerBegin layerEnd).length =
    8 * (size + if layerBegin then extra else 0)

section

variable (h : Fits hdr) (hlayers : hdr.numSpatialLayers ≤ 8) (hsized : Sized hdr size extra)
include h hlayers hsized

theorem nextPacket_eq (remaining : List (BitVec 8)) (done : List Int) (next : Int) (rest : List Int) :
    ∃ packet, nextPacket
        ⟨hdr, size, extra, remaining, done ++ next :: rest, done.length⟩ = some (some packet,
        ⟨hdr, size, extra, remaining.drop next.toNat, done ++ next :: rest, done.length + 1⟩) ∧
      IsPacket hdr size extra (done ++ next :: rest).length done.length (remaining.take next.toNat)
        packet := by
  have hget : (done ++ next :: rest)[done.length]? = some next := by simp
  have hsize := hsized (done.length == 0) (done.length + 1 == (done ++ next :: rest).length)
  obtain ⟨buffer, hwrite, hlength, hbits⟩ := writeHeader_eq h _ _ hsize
  refine ⟨⟨buffer ++ remaining.take next.toNat,
    done.length + 1 == (done ++ next :: rest).length && hdr.endOfPicture⟩, ?_, ?_⟩
  · simp only [nextPacket, hget, hwrite, h.endOfPictureCheck hlayers, if_true]
  · refine ⟨⟨buffer, rfl, ?_, hbits⟩, rfl⟩
    simpa using hlength

theorem nextPackets_eq (rest : List Int) (remaining : List (BitVec 8)) (done : List Int) :
    ∃ packets, nextPackets rest.length
        ⟨hdr, size, extra, remaining, done ++ rest, done.length⟩ = some packets ∧
      packets.length = rest.length ∧
      ∀ (i : Nat) (hi : i < packets.length) (hi' : i < (chunks rest remaining).length),
        IsPacket hdr size extra (done ++ rest).length (done.length + i) (chunks rest remaining)[i]
          packets[i] := by
  induction rest generalizing remaining done with
  | nil => exact ⟨[], rfl, rfl, fun i hi => absurd hi (Nat.not_lt_zero i)⟩
  | cons next rest ih =>
    obtain ⟨packet, hnext, hpacket⟩ := nextPacket_eq h hlayers hsized remaining done next rest
    obtain ⟨packets, hrest, hlength, hpackets⟩ := ih (remaining.drop next.toNat) (done ++ [next])
    have hdone : done ++ [next] ++ rest = done ++ next :: rest := by simp
    have hcount : (done ++ [next]).length = done.length + 1 := by simp
    rw [hdone, hcount] at hrest
    refine ⟨packet :: packets, ?_, by simp [hlength], ?_⟩
    · rw [length_cons, nextPackets, hnext]
      simp [hrest]
    · rintro (_ | i) hi hi'
      · exact hpacket
      · have := hpackets i (by simpa using hi) (by simpa [chunks] using hi')
        simpa [chunks, Nat.add_assoc, Nat.add_comm 1 i] using this

end

section

variable (hlayers : hdr.numSpatialLayers ≤ kMaxVp9NumberOfSpatialLayers)
  (hfirst : hdr.firstActiveLayer = 0)
include hlayers hfirst

theorem removeInactiveSpatialLayers_eq : removeInactiveSpatialLayers hdr = some hdr := by
  rw [removeInactiveSpatialLayers, if_pos hlayers, if_pos hfirst]

theorem ofPayload_eq (hsize : payloadDescriptorLengthMinusSsData hdr = some size)
    (hextra : ssDataLength hdr = some extra) (hne : payload ≠ []) (limits : PayloadSizeLimits) :
    ofPayload payload limits hdr = (splitWith id (intOfSize payload.length)
        (descriptorLimits limits size extra)).map
          fun sizes => ⟨hdr, size, extra, payload, sizes, 0⟩ := by
  have hactive := removeInactiveSpatialLayers_eq hlayers hfirst
  have hguard : (guard (0 = 0) : Option Unit) = some () := rfl
  have hempty : payload.isEmpty = false := by simpa using hne
  rw [ofPayload, hactive, bind_eq_bind, bind_some, hsize, hextra,
    bind_eq_bind, bind_some, hfirst, hguard, bind_eq_bind, bind_some,
    hempty, if_neg Bool.false_ne_true]
  cases splitWith id (intOfSize payload.length)
    (descriptorLimits limits size extra) with
  | none => rfl
  | some sizes => rfl

end

theorem packetize_eq (h : Fits hdr) (hlayers : hdr.numSpatialLayers ≤ kMaxVp9NumberOfSpatialLayers)
    (hsize : payloadDescriptorLengthMinusSsData hdr = some size)
    (hextra : ssDataLength hdr = some extra) (hsized : Sized hdr size extra) (hne : payload ≠ [])
    {sizes : List Int} (hsplit : splitWith id (intOfSize payload.length)
      (descriptorLimits limits size extra) = some sizes) :
    ∃ packets, packetize payload limits hdr = some packets ∧ packets.length = sizes.length ∧
      ∀ (i : Nat) (hi : i < packets.length) (hi' : i < (chunks sizes payload).length),
        IsPacket hdr size extra sizes.length i (chunks sizes payload)[i] packets[i] := by
  obtain ⟨packets, hrun, hlength, hpackets⟩ := nextPackets_eq h hlayers hsized sizes payload []
  have hcreate := ofPayload_eq hlayers h.firstActiveLayer hsize hextra hne limits
  rw [hsplit, map_some] at hcreate
  refine ⟨packets, ?_, hlength, ?_⟩
  · have hcount : numPackets ⟨hdr, size, extra, payload, sizes, 0⟩ = sizes.length :=
      Nat.sub_zero _
    rw [packetize, hcreate, bind_eq_bind]
    exact hrun
  · intro i hi hi'
    have := hpackets i hi hi'
    simpa using this

theorem exists_split_of_packetize (h : Fits hdr) (hne : payload ≠ [])
    {packets : List RtpPacketToSend} (hpackets : packetize payload limits hdr = some packets) :
    ∃ size extra sizes, Sized hdr size extra ∧ splitWith id (intOfSize payload.length)
        (descriptorLimits limits size extra) = some sizes ∧ packets.length = sizes.length ∧
      ∀ (i : Nat) (hi : i < packets.length) (hi' : i < (chunks sizes payload).length),
        IsPacket hdr size extra sizes.length i (chunks sizes payload)[i] packets[i] := by
  obtain ⟨size, extra, hsize, hextra, hsized⟩ := length_descriptorBits h
  have hlayers : hdr.numSpatialLayers ≤ kMaxVp9NumberOfSpatialLayers := by
    by_contra hmany
    have hremove : removeInactiveSpatialLayers hdr = none := if_neg hmany
    rw [packetize, ofPayload, hremove] at hpackets
    cases hpackets
  have hcreate := ofPayload_eq hlayers h.firstActiveLayer hsize hextra hne limits
  cases hsplit : splitWith id (intOfSize payload.length)
      (descriptorLimits limits size extra) with
  | none =>
    rw [hsplit] at hcreate
    rw [packetize, hcreate] at hpackets
    cases hpackets
  | some sizes =>
    obtain ⟨packets', hpackets', hlength, hall⟩ :=
      packetize_eq h hlayers hsize hextra hsized hne hsplit
    obtain rfl : packets = packets' := some.inj (hpackets.symm.trans hpackets')
    exact ⟨size, extra, sizes, hsized, hsplit, hlength, hall⟩

theorem intOfSize_eq {size : Nat} (h : size < 2 ^ 31) : intOfSize size = size := by
  unfold intOfSize
  rw [Int.bmod_eq_of_le (by omega) (by omega)]

/-- The split does not overflow and a packet is short enough for a `BitstreamReader`. -/
structure InRange (payload : List (BitVec 8)) (limits : PayloadSizeLimits) : Prop where
  payload : payload.length < 2 ^ 30
  reduction : ∀ count position, limits.reductionLen count position < 2 ^ 28
  packet : ∀ count position, limits.maxPayloadLen - limits.reductionLen count position < 2 ^ 28

structure Arrives (hdr : RTPVideoHeaderVP9) (limits : PayloadSizeLimits) (count position : Nat)
    (packet : RtpPacketToSend) (parsed : ParsedRtpPayload) : Prop where
  size : (packet.payload.length : Int) ≤ limits.maxPayloadLen - limits.reductionLen count position
  parses : parse packet.payload = some parsed
  beginningOfFrame : parsed.videoHeader.vp9.beginningOfFrame = decide (position = 0)
  endOfFrame : parsed.videoHeader.vp9.endOfFrame = decide (position + 1 = count)
  isFirstPacketInFrame : parsed.videoHeader.isFirstPacketInFrame = decide (position = 0)
  isLastPacketInFrame : parsed.videoHeader.isLastPacketInFrame = decide (position + 1 = count)
  ssDataAvailable : parsed.videoHeader.vp9.ssDataAvailable =
    (hdr.ssDataAvailable && decide (position = 0))
  sameStructure : parsed.videoHeader.vp9.ssDataAvailable = true →
    SameStructure hdr parsed.videoHeader.vp9
  sameFields : SameFields hdr parsed.videoHeader.vp9

theorem beq_eq_decide (m n : Nat) : (m == n) = decide (m = n) := by
  by_cases h : m = n <;> simp [h]

theorem IsPacket.arrives (h : Fits hdr) {count position : Nat} {chunk : List (BitVec 8)}
    {packet : RtpPacketToSend} (hpacket : IsPacket hdr size extra count position chunk packet)
    (hchunk : chunk ≠ [])
    (hsize : (packet.payload.length : Int) ≤ limits.maxPayloadLen - limits.reductionLen count position)
    (hsmall : packet.payload.length < 2 ^ 28) :
    Arrives hdr limits count position packet
      ⟨receivedHeader hdr (position == 0) (position + 1 == count), chunk⟩ := by
  obtain ⟨buffer, hpayload, -, hbuffer⟩ := hpacket.payload
  rw [hpayload] at hsmall
  refine ⟨hsize, ?_, beq_eq_decide _ _, beq_eq_decide _ _, beq_eq_decide _ _, beq_eq_decide _ _,
    ?_, sameStructure_received, sameFields_received _ _⟩
  · rw [hpayload]
    exact parse_packet h hbuffer hchunk hsmall
  · rfl

/-- Each packet has room for the reduction of its position and is parsed to its part of the payload
and to the header, and together they carry the payload. -/
theorem vp9_round_trip {payload : List (BitVec 8)} {limits : PayloadSizeLimits}
    {hdr : RTPVideoHeaderVP9} {packets : List RtpPacketToSend} (hne : payload ≠ []) (h : Fits hdr)
    (hrange : InRange payload limits) (hpackets : packetize payload limits hdr = some packets)
    (hproduced : packets ≠ []) :
    ∃ parsed : List ParsedRtpPayload, parsed.length = packets.length ∧
      (parsed.map (·.videoPayload)).flatten = payload ∧
      ∀ (i : Nat) (hi : i < packets.length) (hi' : i < parsed.length),
        Arrives hdr limits packets.length i packets[i] parsed[i] := by
  obtain ⟨size, extra, sizes, -, hsplit, hlength, hall⟩ := exists_split_of_packetize h hne hpackets
  rw [intOfSize_eq (Nat.lt_trans hrange.payload (by decide))] at hsplit
  have hsome : sizes ≠ [] := by
    rintro rfl
    exact hproduced (eq_nil_of_length_eq_zero hlength)
  obtain ⟨_, ⟨⟨hpos, htotal, hfits⟩, -⟩, -⟩ := splitWith_splits hsplit hsome
  refine ⟨(chunks sizes payload).mapIdx fun i chunk =>
    ⟨receivedHeader hdr (i == 0) (i + 1 == packets.length), chunk⟩, by simp [hlength], ?_, ?_⟩
  · have hmap : ((chunks sizes payload).mapIdx fun i chunk => (⟨receivedHeader hdr (i == 0)
        (i + 1 == packets.length), chunk⟩ : ParsedRtpPayload)).map (·.videoPayload) =
          chunks sizes payload := by
      apply ext_getElem <;> simp
    rw [hmap]
    exact flatten_chunks hpos htotal
  · intro i hi hi'
    have hchunks : i < (chunks sizes payload).length := by simpa using hi'
    have hsizes : i < sizes.length := by simpa using hchunks
    have hpacket := hall i hi hchunks
    have hchunkSize := length_getElem_chunks hpos htotal i hchunks hsizes
    have hpositive := hpos _ (getElem_mem hsizes)
    have hfit := hfits i hsizes
    obtain ⟨buffer, hpayload, hbuffer, -⟩ := hpacket.payload
    have hsize : (packets[i].payload.length : Int) ≤
        limits.maxPayloadLen - limits.reductionLen sizes.length i := by
      rw [hpayload, length_append]
      simp only [descriptorLimits, PayloadSizeLimits.reductionLen] at hfit ⊢
      split_ifs at hfit hbuffer ⊢ <;> push_cast at hfit ⊢ <;> omega
    have hsmall := hrange.packet sizes.length i
    rw [← hlength] at hpacket hsize hsmall
    rw [getElem_mapIdx]
    refine hpacket.arrives h ?_ hsize (by omega)
    exact ne_nil_of_length_pos (by omega)

def layeredHeader : RTPVideoHeaderVP9 :=
  { interPicPredicted := true
    flexibleMode := true
    ssDataAvailable := true
    pictureId := 5
    temporalIdx := 1
    spatialIdx := 0
    numRefPics := 1
    pidDiff := fun _ => 2
    numSpatialLayers := 2
    endOfPicture := false }

theorem fits_layeredHeader : Fits layeredHeader where
  maxPictureId := Or.inr rfl
  pictureId := by decide
  layers := by decide
  references := by decide
  scalability := by decide
  firstActiveLayer := rfl
  endOfPicture := by decide

theorem vp9_round_trip_layered :
    packetize (List.replicate 7 1) { maxPayloadLen := 10 } layeredHeader =
        some [⟨[0xfa, 0x80, 0x05, 0x20, 0x04, 0x20, 1, 1, 1], false⟩,
          ⟨[0xf4, 0x80, 0x05, 0x20, 0x04, 1, 1, 1, 1], false⟩] ∧
      ∃ parsed : List ParsedRtpPayload, parsed.length = 2 ∧
        (parsed.map (·.videoPayload)).flatten = List.replicate 7 1 := by
  have hpackets : packetize (replicate 7 1) { maxPayloadLen := 10 } layeredHeader =
      some [⟨[0xfa, 0x80, 0x05, 0x20, 0x04, 0x20, 1, 1, 1], false⟩,
        ⟨[0xf4, 0x80, 0x05, 0x20, 0x04, 1, 1, 1, 1], false⟩] := by decide +kernel
  have hrange : InRange (replicate 7 1) { maxPayloadLen := 10 } := by
    refine ⟨by decide, ?_, ?_⟩ <;> intro count position <;>
      simp only [PayloadSizeLimits.reductionLen, ite_self] <;> decide
  obtain ⟨parsed, hlength, hpayload, -⟩ := vp9_round_trip (by decide) fits_layeredHeader hrange
    hpackets (by simp)
  exact ⟨hpackets, parsed, hlength, hpayload⟩

/-- A `BitstreamReader` counts the bits of its input in an `int`. -/
theorem parse_of_long {rtpPayload : List (BitVec 8)} (h : 2 ^ 28 ≤ rtpPayload.length) :
    parse rtpPayload = none := by
  have hinput : BitstreamReader.ofInput rtpPayload = none := if_neg (by omega)
  rw [parse, hinput]
  rfl

theorem fits_default : Fits {} where
  maxPictureId := Or.inr rfl
  pictureId := by decide
  layers := by decide
  references := by decide
  scalability := by decide
  firstActiveLayer := rfl
  endOfPicture := by decide

theorem single_packet (hne : payload ≠ []) (limits : PayloadSizeLimits) (length : Int)
    (hsplit : splitWith id (intOfSize payload.length)
      (descriptorLimits limits 1 0) = some [length]) :
    ∃ packet buffer, packetize payload limits {} = some [packet] ∧
      packet.payload = buffer ++ payload.take length.toNat ∧ buffer.length = 1 ∧
      ofBytes buffer = descriptorBits {} true true := by
  obtain ⟨size, extra, hsize, hextra, hsized⟩ := length_descriptorBits fits_default
  obtain rfl : 1 = size := some.inj hsize
  obtain rfl : 0 = extra := some.inj hextra
  obtain ⟨packets, hpackets, hlength, hall⟩ :=
    packetize_eq fits_default (by decide) hsize hextra hsized hne hsplit
  obtain ⟨packet, rfl⟩ := length_eq_one_iff.mp hlength
  obtain ⟨buffer, hpayload, hbuffer, hbits⟩ := (hall 0 (by simp) (by simp)).payload
  exact ⟨packet, buffer, hpackets, hpayload, hbuffer, hbits⟩

/-- A packet of 2^28 bytes is not parsed, and of a payload of 2^32 + 1 bytes one byte is sent. -/
theorem long_payloads_not_carried : (∃ payload limits hdr packets, payload ≠ [] ∧ Fits hdr ∧
      packetize payload limits hdr = some packets ∧ packets ≠ [] ∧
      ∃ packet ∈ packets, parse packet.payload = none) ∧
    (∃ payload limits hdr packets, payload ≠ [] ∧ Fits hdr ∧
      packetize payload limits hdr = some packets ∧ packets ≠ [] ∧
      ∃ parsed : List ParsedRtpPayload, (packets.map fun packet => parse packet.payload) =
        parsed.map some ∧ (parsed.map (·.videoPayload)).flatten ≠ payload) := by
  constructor
  · have hlength := @length_replicate _ (2 ^ 28) (0 : BitVec 8)
    generalize replicate (2 ^ 28) (0 : BitVec 8) = payload at hlength
    have hne : payload ≠ [] := ne_nil_of_length_pos (by omega)
    obtain ⟨packet, buffer, hpackets, hpayload, hbuffer, -⟩ := single_packet hne
      { maxPayloadLen := 2 ^ 29 } (2 ^ 28) (by rw [hlength]; decide)
    refine ⟨payload, _, _, _, hne, fits_default, hpackets, by simp, packet, by simp, ?_⟩
    apply parse_of_long
    rw [hpayload, length_append, length_take]
    omega
  · have hlength := @length_replicate _ (2 ^ 32 + 1) (0 : BitVec 8)
    generalize replicate (2 ^ 32 + 1) (0 : BitVec 8) = payload at hlength
    have hne : payload ≠ [] := ne_nil_of_length_pos (by omega)
    obtain ⟨packet, buffer, hpackets, hpayload, hbuffer, hbits⟩ := single_packet hne {} 1
      (by rw [hlength]; decide)
    have htake : (payload.take 1).length = 1 := by
      rw [length_take]
      omega
    have hparse := parse_packet fits_default hbits
      (ne_nil_of_length_pos (show 0 < (payload.take 1).length by omega))
      (by rw [length_append, hbuffer, htake]; decide)
    refine ⟨payload, _, _, _, hne, fits_default, hpackets, by simp,
      [⟨receivedHeader {} true true, payload.take 1⟩], ?_, ?_⟩
    · rw [map_singleton, hpayload]
      exact congrArg (fun result => [result]) hparse
    · intro hall
      have hshort := congrArg length hall
      simp [hlength] at hshort

end Packets

end Rtp.Vp9
