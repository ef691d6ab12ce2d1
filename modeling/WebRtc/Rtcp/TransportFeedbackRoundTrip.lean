import WebRtc.Rtcp.TransportFeedbackParse

/-!
# Transport-wide feedback: round trip

A message that was built packet by packet is written by `Create` and read back by
`ParseFrom`. The presence of timestamps is inferred from the length, which works
because a message with a received packet announces at least one delta.
-/

namespace Rtcp

open ByteCodec List

namespace TransportFeedback

open LastChunk (Represents Encodes symbols)

variable {seqNo : BitVec 16} {sizes : List DeltaSize} {packets : List ReceivedPacket}

def codeBytes (pieces : List (Nat × List DeltaSize)) : List UInt8 :=
  pieces.flatMap fun piece => bytesBE 2 piece.1

theorem codeBytes_cons (piece : Nat × List DeltaSize) (pieces : List (Nat × List DeltaSize)) :
    codeBytes (piece :: pieces) = bytesBE 2 piece.1 ++ codeBytes pieces :=
  flatMap_cons

theorem length_codeBytes (pieces : List (Nat × List DeltaSize)) :
    (codeBytes pieces).length = kChunkSizeBytes * pieces.length := by
  induction pieces with
  | nil => rfl
  | cons piece pieces ih =>
    rw [codeBytes_cons, length_append, length_bytesBE, ih, length_cons, kChunkSizeBytes]
    omega

theorem readChunks_code (statusCount : Nat) (deltaSizes : List DeltaSize) (chunks : List Nat)
    (decoder : LastChunk) {code : Nat} (hcode : code < 2 ^ 16)
    (hmore : deltaSizes.length < statusCount) (bytes : List UInt8) :
    ∃ next : LastChunk, next.appendTo = symbols code (statusCount - deltaSizes.length) ∧
      readChunks statusCount deltaSizes chunks decoder (bytesBE 2 code ++ bytes) =
        readChunks statusCount (deltaSizes ++ next.appendTo) (chunks ++ [code]) next bytes := by
  have hread : natBE (bytesBE 2 code) = code := natBE_bytesBE_of_lt hcode
  obtain ⟨b0, b1, hbytes⟩ : ∃ b0 b1, bytesBE 2 code = [b0, b1] := ⟨_, _, rfl⟩
  refine ⟨decoder.decode code (statusCount - deltaSizes.length),
    LastChunk.appendTo_decode decoder code _, ?_⟩
  rw [hbytes] at hread ⊢
  simp only [cons_append, nil_append, readChunks, if_pos hmore, hread]

theorem readChunks_pieces (pieces : List (Nat × List DeltaSize))
    (hencodes : ∀ piece ∈ pieces, Encodes piece.1 piece.2 ∧ piece.2 ≠ [])
    (statusCount : Nat) (deltaSizes : List DeltaSize) (chunks : List Nat) (decoder : LastChunk)
    (hcount : deltaSizes.length + (pieces.flatMap Prod.snd).length ≤ statusCount)
    (bytes : List UInt8) :
    ∃ chunks' decoder',
      readChunks statusCount deltaSizes chunks decoder (codeBytes pieces ++ bytes) =
        readChunks statusCount (deltaSizes ++ pieces.flatMap Prod.snd) chunks' decoder' bytes := by
  induction pieces generalizing deltaSizes chunks decoder with
  | nil => exact ⟨chunks, decoder, by simp [codeBytes]⟩
  | cons piece pieces ih =>
    obtain ⟨hpiece, hnonempty⟩ := hencodes piece mem_cons_self
    have hlength := length_pos_of_ne_nil hnonempty
    rw [flatMap_cons, length_append] at hcount
    obtain ⟨next, happend, hread⟩ := readChunks_code statusCount deltaSizes chunks decoder
      hpiece.bounded (by omega) (codeBytes pieces ++ bytes)
    have hsymbols : next.appendTo = piece.2 := by
      rw [happend]
      exact hpiece.read _ (by omega)
    obtain ⟨chunks', decoder', hrest⟩ :=
      ih ((forall_mem_cons.mp hencodes).2)
        (deltaSizes ++ piece.2) (chunks ++ [piece.1]) next
        (by rw [length_append]; omega)
    refine ⟨chunks', decoder', ?_⟩
    rw [codeBytes_cons, append_assoc, hread, hsymbols, hrest, flatMap_cons, append_assoc]

theorem readChunks_statuses {fb : TransportFeedback} {pieces : List (Nat × List DeltaSize)}
    {last : List DeltaSize} {deltas : Nat} (h : Packed fb pieces last deltas)
    (decoder : LastChunk) (bytes : List UInt8) :
    ∃ chunks' decoder', readChunks fb.numSeqNo [] [] decoder (fb.chunkBytes ++ bytes) =
        some (statuses pieces last, chunks', decoder', bytes) := by
  have hcount : fb.numSeqNo = (pieces.flatMap Prod.snd).length + last.length := by
    rw [h.count, statuses, length_append]
  have hcodes : (fb.encodedChunks.flatMap fun chunk => bytesBE 2 chunk) = codeBytes pieces := by
    rw [h.chunks, flatMap_map]
    rfl
  have hlast := isEmpty_iff h.lastChunk
  rw [chunkBytes, hcodes, append_assoc]
  obtain ⟨chunks', decoder', hpieces⟩ := readChunks_pieces pieces h.encodes fb.numSeqNo [] []
    decoder (by rw [length_nil]; omega) ((if fb.lastChunk.isEmpty then [] else
      bytesBE 2 fb.lastChunk.encodeLast) ++ bytes)
  rw [hpieces, nil_append]
  by_cases hempty : last = []
  · rw [if_pos (hlast.mpr hempty), nil_append, readChunks_done]
    · exact ⟨chunks', decoder', by rw [statuses, hempty, append_nil]⟩
    · rw [hcount, hempty]
      simp
  · obtain ⟨hbounded, hsymbols⟩ := LastChunk.symbols_encodeLast h.lastChunk hempty
    have hpositive : 0 < last.length := length_pos_of_ne_nil hempty
    obtain ⟨next, happend, hread⟩ := readChunks_code fb.numSeqNo (pieces.flatMap Prod.snd) chunks'
      decoder' hbounded (by omega) bytes
    have hrest : fb.numSeqNo - (pieces.flatMap Prod.snd).length = last.length := by omega
    rw [hrest, hsymbols] at happend
    rw [if_neg fun he => hempty (hlast.mp he), hread, happend, readChunks_done]
    · exact ⟨_, _, rfl⟩
    · rw [length_append]
      omega

section

variable (h : Matches seqNo sizes packets)
include h

theorem readDeltas_matches (bytes : List UInt8) :
    readDeltas seqNo sizes (packets.flatMap deltaBytes ++ bytes) = some (packets, bytes) := by
  induction h with
  | nil seqNo => simp [readDeltas]
  | missing _ ih => rw [readDeltas, ih]
  | @received seqNo sizes packets delta hlow hhigh _ ih =>
    rw [flatMap_cons, append_assoc]
    by_cases hbyte : 0 ≤ delta ∧ delta ≤ 0xff
    · have hvalue : ((UInt8.ofNat delta.toNat).toNat : Int) = delta := by
        have : (UInt8.ofNat delta.toNat).toNat = delta.toNat % 256 := rfl
        omega
      rw [deltaSizeOf, if_pos hbyte, deltaBytes, if_pos hbyte, singleton_append, readDeltas,
        ih, Option.map_some, hvalue]
    · have hvalue : readInt16 (bytesBE 2 (delta % 2 ^ 16).toNat) = delta := by
        rw [readInt16, natBE_bytesBE_of_lt (by omega)]
        split_ifs <;> omega
      obtain ⟨b0, b1, hbytes⟩ : ∃ b0 b1, bytesBE 2 (delta % 2 ^ 16).toNat = [b0, b1] :=
        ⟨_, _, rfl⟩
      rw [hbytes] at hvalue
      rw [deltaSizeOf, if_neg hbyte, deltaBytes, if_neg hbyte, hbytes, cons_append,
        singleton_append, readDeltas, ih, Option.map_some, hvalue]

theorem length_deltaBytes : (packets.flatMap deltaBytes).length = sizes.sum := by
  induction h with
  | nil seqNo => rfl
  | missing _ ih => simpa using ih
  | received delta _ _ _ ih =>
    rw [flatMap_cons, length_append, ih, deltaBytes, deltaSizeOf]
    split_ifs <;> simp

theorem readStatuses_matches (untimed : ∀ packet ∈ packets, packet.deltaTicks = 0) :
    readStatuses seqNo sizes = packets := by
  induction h with
  | nil seqNo => rfl
  | missing _ ih => rw [readStatuses, if_neg (Nat.lt_irrefl 0), ih untimed]
  | received delta _ _ _ ih =>
    obtain rfl : delta = 0 := untimed _ mem_cons_self
    rw [readStatuses, if_pos (deltaSizeOf_pos 0), ih (forall_mem_cons.mp untimed).2]

theorem sum_pos_of_received (received : packets ≠ []) : 0 < recvDeltaSize sizes := by
  induction h with
  | nil seqNo => exact absurd rfl received
  | missing _ ih => simpa [recvDeltaSize] using ih received
  | received delta _ _ _ _ =>
    exact Nat.add_pos_left (deltaSizeOf_pos delta) _

end

def deltaSection (fb : TransportFeedback) : List UInt8 :=
  if fb.includeTimestamps then fb.receivedPackets.flatMap deltaBytes else []

section

variable {fb : TransportFeedback} {pieces : List (Nat × List DeltaSize)} {last : List DeltaSize}

theorem length_chunkBytes {deltas : Nat} (h : Packed fb pieces last deltas) :
    fb.chunkBytes.length = chunkSize pieces last := by
  have hcodes : (fb.encodedChunks.flatMap fun chunk => bytesBE 2 chunk) = codeBytes pieces := by
    rw [h.chunks, flatMap_map]
    rfl
  have hlast := isEmpty_iff h.lastChunk
  rw [chunkBytes, hcodes, length_append, length_codeBytes, chunkSize]
  by_cases hempty : last = []
  · rw [if_pos (hlast.mpr hempty), if_pos hempty, length_nil]
  · rw [if_neg fun he => hempty (hlast.mp he), if_neg hempty, length_bytesBE, kChunkSizeBytes]

theorem length_deltaSection (h : Built fb pieces last) :
    fb.deltaSection.length = if fb.includeTimestamps then (statuses pieces last).sum else 0 := by
  unfold deltaSection
  split_ifs
  · exact length_deltaBytes h.received
  · rfl

theorem length_payloadBytes (h : Built fb pieces last) :
    fb.payloadBytes.length + kHeaderLength = fb.sizeBytes := by
  have hdeltas := length_deltaSection h
  rw [deltaSection] at hdeltas
  rw [h.packed.size]
  simp only [payloadBytes, length_append, length_bytesBE, length_chunkBytes h.packed,
    length_singleton, kHeaderLength, kTransportFeedbackHeaderSizeBytes]
  omega

theorem payloadBytes_drop (fb : TransportFeedback) :
    fb.payloadBytes.drop 16 = fb.chunkBytes ++ fb.deltaSection ∧
      (fb.payloadBytes.drop 15).headD 0 = fb.feedbackSeq ∧
      fb.payloadBytes.drop 12 = bytesBE 3 fb.baseTimeTicks ++
        ([fb.feedbackSeq] ++ (fb.chunkBytes ++ fb.deltaSection)) ∧
      fb.payloadBytes.drop 10 = bytesBE 2 fb.numSeqNo ++ fb.payloadBytes.drop 12 ∧
      fb.payloadBytes.drop 8 = bytesBE 2 fb.baseSeqNo.toNat ++ fb.payloadBytes.drop 10 := by
  refine ⟨rfl, rfl, rfl, rfl, rfl⟩

theorem parseFixed_payloadBytes (h : Built fb pieces last) :
    ((initial true).parseFixed fb.payloadBytes).baseSeqNo = fb.baseSeqNo ∧
      ((initial true).parseFixed fb.payloadBytes).baseTimeTicks = fb.baseTimeTicks ∧
      ((initial true).parseFixed fb.payloadBytes).feedbackSeq = fb.feedbackSeq ∧
      natBE ((fb.payloadBytes.drop 10).take 2) = fb.numSeqNo := by
  obtain ⟨-, hfeedback, h12, h10, h8⟩ := payloadBytes_drop fb
  have hticks := h.ticks
  have hnum : fb.numSeqNo < 256 ^ 2 := Nat.lt_of_le_of_lt h.packed.bounded (by decide)
  have hseq := fb.baseSeqNo.isLt
  refine ⟨?_, ?_, hfeedback, ?_⟩
  · change BitVec.ofNat 16 (natBE ((fb.payloadBytes.drop 8).take 2)) = fb.baseSeqNo
    rw [h8, natBE_take_append hseq, BitVec.ofNat_toNat, BitVec.setWidth_eq]
  · change natBE ((fb.payloadBytes.drop 12).take 3) = fb.baseTimeTicks
    rw [h12, natBE_take_append hticks]
  · rw [h10, natBE_take_append hnum]

theorem chunkSize_pos (h : statuses pieces last ≠ []) : kChunkSizeBytes ≤ chunkSize pieces last := by
  rw [chunkSize, kChunkSizeBytes]
  by_cases hlast : last = []
  · have hpieces : 0 < pieces.length := by
      refine length_pos_of_ne_nil fun hnil => h ?_
      rw [hnil, hlast]
      rfl
    omega
  · rw [if_neg hlast]
    omega

structure SameReport (fb parsed : TransportFeedback) : Prop where
  baseSeqNo : parsed.baseSeqNo = fb.baseSeqNo
  numSeqNo : parsed.numSeqNo = fb.numSeqNo
  baseTime : parsed.baseTime = fb.baseTime
  feedbackSeq : parsed.feedbackSeq = fb.feedbackSeq
  includeTimestamps : parsed.includeTimestamps = fb.includeTimestamps
  receivedPackets : parsed.receivedPackets = fb.receivedPackets

theorem parse_payloadBytes (h : Built fb pieces last) (received : fb.receivedPackets ≠ [])
    (header : CommonHeader) (hpayload : header.payload = fb.payloadBytes) :
    ∃ parsed, parse (initial true) header = some parsed ∧ SameReport fb parsed := by
  obtain ⟨hseq, hticks, hfeedback, hnum⟩ := parseFixed_payloadBytes h
  have hlength := length_payloadBytes h
  have hdrop := (payloadBytes_drop fb).1
  have hsum := sum_pos_of_received h.received received
  have hnonempty : statuses pieces last ≠ [] := by
    intro hempty
    rw [hempty] at hsum
    exact Nat.lt_irrefl 0 hsum
  have hcount : fb.numSeqNo ≠ 0 := fun hzero =>
    hnonempty (length_eq_zero_iff.mp (h.packed.count.symm.trans hzero))
  have hlong : ¬ fb.payloadBytes.length < kMinPayloadSizeBytes := by
    have hsize := h.packed.size
    have hchunk := chunkSize_pos hnonempty
    rw [kMinPayloadSizeBytes]
    rw [kHeaderLength] at hlength
    rw [kTransportFeedbackHeaderSizeBytes] at hsize
    rw [kChunkSizeBytes] at hchunk
    omega
  obtain ⟨chunks', decoder', hchunks⟩ := readChunks_statuses h.packed
    ((initial true).parseFixed fb.payloadBytes).lastChunk fb.deltaSection
  have hsection := length_deltaSection h
  have hrest : fb.deltaSection.length ≤ fb.payloadBytes.length := by
    have := congrArg length hdrop
    rw [length_drop, length_append] at this
    omega
  have hbase : ∀ next : TransportFeedback, next.baseTimeTicks =
      ((initial true).parseFixed fb.payloadBytes).baseTimeTicks → next.baseTime = fb.baseTime := by
    intro next hnext
    rw [baseTime, hnext, hticks, ← baseTime]
  unfold parse
  rw [hpayload]
  rw [if_neg hlong, hnum, if_neg hcount, hdrop, hchunks, Option.bind_some, hseq]
  dsimp only
  by_cases hflag : fb.includeTimestamps = true
  · have hdeltas : fb.deltaSection = fb.receivedPackets.flatMap deltaBytes ++ [] := by
      rw [deltaSection, if_pos hflag, append_nil]
    have hfits : fb.payloadBytes.length ≥ fb.payloadBytes.length - fb.deltaSection.length +
        recvDeltaSize (statuses pieces last) := by
      rw [if_pos hflag, ← recvDeltaSize] at hsection
      omega
    rw [if_pos hfits, hdeltas, readDeltas_matches h.received []]
    exact ⟨_, rfl, rfl, rfl, hbase _ rfl, hfeedback, hflag.symm, rfl⟩
  · -- No byte is left for the deltas that the statuses announce.
    have hstatuses := readStatuses_matches h.received (h.untimed (by simpa using hflag))
    have hshort : ¬ fb.payloadBytes.length ≥ fb.payloadBytes.length - fb.deltaSection.length +
        recvDeltaSize (statuses pieces last) := by
      rw [if_neg hflag] at hsection
      omega
    rw [if_neg hshort, hstatuses]
    exact ⟨_, rfl, rfl, rfl, hbase _ rfl, hfeedback, (Bool.eq_false_iff.mpr hflag).symm, rfl⟩

theorem blockLength_facts (h : Built fb pieces last) :
    fb.sizeBytes ≤ fb.blockLength ∧ fb.blockLength ≤ 2 ^ 18 ∧ fb.blockLength % 4 = 0 ∧
      fb.paddingLength < 4 ∧ fb.sizeBytes + fb.paddingLength = fb.blockLength ∧
      kHeaderLength < fb.sizeBytes := by
  have hlimit : fb.sizeBytes ≤ 2 ^ 18 := h.packed.limit
  have hsize := h.packed.size
  rw [kTransportFeedbackHeaderSizeBytes] at hsize
  rw [paddingLength, blockLength, kHeaderLength]
  omega

theorem length_paddingBytes (n : Nat) : (paddingBytes n).length = n := by
  rw [paddingBytes]
  split_ifs with hpositive
  · rw [length_append, length_replicate, length_singleton]
    omega
  · exact (Nat.eq_zero_of_not_pos hpositive).symm

theorem last_paddingBytes (body : List UInt8) {n : Nat} (hpositive : 0 < n) (hsmall : n < 256) :
    ((body ++ paddingBytes n).getD ((body ++ paddingBytes n).length - 1) 0).toNat = n := by
  have hsplit : body ++ paddingBytes n = (body ++ replicate (n - 1) 0) ++ [UInt8.ofNat n] := by
    rw [paddingBytes, if_pos hpositive, append_assoc]
  rw [hsplit, length_append, length_singleton, Nat.add_sub_cancel,
    getD_eq_getElem?_getD, getElem?_concat_length]
  exact Nat.mod_eq_of_lt hsmall

theorem parse_packetBytes (h : Built fb pieces last) : CommonHeader.parse fb.packetBytes = some
      ⟨kPacketType, UInt8.ofNat kFeedbackMessageType, fb.paddingLength, fb.payloadBytes⟩ := by
  obtain ⟨-, hmax, hmod, hpadding, hsum, hheader⟩ := blockLength_facts h
  have hpayload := length_payloadBytes h
  have hbody : (fb.payloadBytes ++ paddingBytes fb.paddingLength).length = fb.blockLength - 4 := by
    rw [length_append, length_paddingBytes]
    rw [kHeaderLength] at hpayload
    omega
  have hfield : headerLength fb.blockLength % 2 ^ 16 * 4 =
      (fb.payloadBytes ++ paddingBytes fb.paddingLength).length := by
    rw [headerLength, kHeaderLength]
    omega
  rw [packetBytes]
  by_cases hpositive : 0 < fb.paddingLength
  · rw [decide_eq_true hpositive, CommonHeader.parse_createHeader_padding kFeedbackMessageType
      (by decide) kPacketType _ _ fb.paddingLength hfield hpositive
      (by rw [length_append, length_paddingBytes]; omega)
      (last_paddingBytes _ hpositive (by omega))]
    rw [length_append, length_paddingBytes, Nat.add_sub_cancel, take_left]
  · have hzero := Nat.eq_zero_of_not_pos hpositive
    rw [decide_eq_false hpositive, CommonHeader.parse_createHeader kFeedbackMessageType (by decide)
      kPacketType _ _ (Nat.le_of_eq hfield), hfield, take_length, hzero]
    rw [paddingBytes, if_neg (Nat.lt_irrefl 0), append_nil]

theorem length_packetBytes (h : Built fb pieces last) : fb.packetBytes.length = fb.blockLength := by
  obtain ⟨-, -, -, -, hsum, -⟩ := blockLength_facts h
  have hpayload := length_payloadBytes h
  rw [packetBytes, length_append, length_createHeader, length_append, length_paddingBytes]
  omega

end

/-- The round trip. If some `AddReceivedPacket` call succeeded, `Create` appends a packet of
`BlockLength` bytes whenever there is room, and `ParseFrom` gives the report back. -/
theorem create_parseFrom (includeTimestamps : Bool) (baseSequence : BitVec 16)
    (refTimestamp : Nat) (feedbackSequence : UInt8) (calls : List (BitVec 16 × Nat)) :
    ∃ oks fb,
      (((initial includeTimestamps).setBase baseSequence refTimestamp).setFeedbackSequenceNumber
        feedbackSequence).addPackets calls = some (oks, fb) ∧
      (true ∈ oks → ∃ packet parsed, packet.length = fb.blockLength ∧
        (∀ maxLength buffer, fb.create maxLength buffer =
          (ensureRoom fb.blockLength maxLength buffer).map fun room =>
            { room with written := room.written ++ packet }) ∧
        parseFrom packet = some parsed ∧ SameReport fb parsed) := by
  obtain ⟨oks, fb, hrun, -, hlength, pieces, last, hbuilt⟩ := addPackets_built calls
    (built_setBase includeTimestamps baseSequence refTimestamp feedbackSequence)
  refine ⟨oks, fb, hrun, fun hadded => ?_⟩
  have hreceived : fb.receivedPackets ≠ [] := by
    refine ne_nil_of_length_pos ?_
    have := count_pos_iff.mpr hadded
    omega
  have hcount : fb.numSeqNo ≠ 0 := by
    intro hzero
    have hempty := length_eq_zero_iff.mp (hbuilt.packed.count.symm.trans hzero)
    have hsum := sum_pos_of_received hbuilt.received hreceived
    rw [hempty] at hsum
    exact Nat.lt_irrefl 0 hsum
  obtain ⟨parsed, hparsed, hsame⟩ := parse_payloadBytes hbuilt hreceived
    ⟨kPacketType, UInt8.ofNat kFeedbackMessageType, fb.paddingLength, fb.payloadBytes⟩ rfl
  refine ⟨fb.packetBytes, parsed, length_packetBytes hbuilt, fun maxLength buffer => ?_, ?_, hsame⟩
  · rw [create, if_neg hcount]
  · rw [parseFrom, parse_packetBytes hbuilt]
    exact hparsed

/-- Two packets with a gap between them, both of them added. -/
theorem create_parseFrom_gap :
    ∃ oks fb, (((initial true).setBase 1 0).setFeedbackSequenceNumber 3).addPackets
        [(1, 100), (4, 70000)] = some (oks, fb) ∧ true ∈ oks ∧
      ∃ packet parsed, packet.length = fb.blockLength ∧ parseFrom packet = some parsed ∧
        SameReport fb parsed := by
  obtain ⟨oks, fb, hrun, htrip⟩ := create_parseFrom true 1 0 3 [(1, 100), (4, 70000)]
  have hoks : ((((initial true).setBase 1 0).setFeedbackSequenceNumber 3).addPackets
      [(1, 100), (4, 70000)]).map Prod.fst = some [true, true] := by
    decide +kernel
  rw [hrun, Option.map_some, Option.some.injEq] at hoks
  have hadded : true ∈ oks := by
    rw [show oks = [true, true] from hoks]
    exact mem_cons_self
  obtain ⟨packet, parsed, hlength, -, hparsed, hsame⟩ := htrip hadded
  exact ⟨oks, fb, hrun, hadded, packet, parsed, hlength, hparsed, hsame⟩

end TransportFeedback

end Rtcp
