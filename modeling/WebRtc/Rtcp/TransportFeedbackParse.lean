import WebRtc.Rtcp.TransportFeedbackConsistency

/-!
# Transport-wide feedback: consistency of parsed messages

`Parse` keeps all chunks but the last as they were read and decodes the last one up
to the status count. The result is consistent for arbitrary bytes when the object
parsed into includes timestamps, which a fresh object does.
-/

namespace Rtcp

open ByteCodec List

namespace TransportFeedback

open LastChunk (symbols)

variable {statusCount : Nat} {deltaSizes : List DeltaSize} {bytes : List UInt8}

theorem length_symbols_le (chunk maxSize : Nat) : (symbols chunk maxSize).length ≤ maxSize := by
  unfold symbols
  split_ifs
  · rw [length_replicate]
    omega
  · rw [BitPacking.length_unpack]
    omega
  · rw [BitPacking.length_unpack]
    omega

/-- A chunk that was not cut off by the limit decodes to the same symbols under any
larger limit. -/
theorem symbols_of_length_lt {chunk maxSize larger : Nat}
    (h : (symbols chunk maxSize).length < maxSize) (hle : maxSize ≤ larger) :
    symbols chunk larger = symbols chunk maxSize := by
  unfold LastChunk.symbols at h ⊢
  split_ifs at h ⊢
  · rw [length_replicate] at h
    rw [show min (chunk &&& 0x1fff) larger = min (chunk &&& 0x1fff) maxSize by omega]
  · rw [BitPacking.length_unpack] at h
    rw [show min LastChunk.kMaxOneBitCapacity larger =
      min LastChunk.kMaxOneBitCapacity maxSize by omega]
  · rw [BitPacking.length_unpack] at h
    rw [show min LastChunk.kMaxTwoBitCapacity larger =
      min LastChunk.kMaxTwoBitCapacity maxSize by omega]

theorem appendTo_of_isEmpty {c : LastChunk} (h : c.isEmpty = true) : c.appendTo = [] := by
  have hsize : c.size = 0 := beq_iff_eq.mp h
  rw [LastChunk.appendTo, hsize]
  split <;> rfl

/-- The status symbols of a message: the chunk loop of `Parse` without its bookkeeping. -/
def readSymbols (statusCount : Nat) (deltaSizes : List DeltaSize) :
    List UInt8 → Option (List DeltaSize × List UInt8)
  | b0 :: b1 :: rest =>
    if deltaSizes.length < statusCount then
      readSymbols statusCount
        (deltaSizes ++ symbols (natBE [b0, b1]) (statusCount - deltaSizes.length)) rest
    else some (deltaSizes, b0 :: b1 :: rest)
  | bytes => if deltaSizes.length < statusCount then none else some (deltaSizes, bytes)

structure ChunksRead (statusCount : Nat) (deltaSizes : List DeltaSize) (chunks : List Nat)
    (bytes : List UInt8) (result : List DeltaSize × List Nat × LastChunk × List UInt8) : Prop where
  symbols : readSymbols statusCount deltaSizes bytes = some (result.1, result.2.2.2)
  count : result.1.length = statusCount
  nonempty : result.2.2.1.isEmpty = false
  chunks : ∃ front chunk, result.2.1 = chunks ++ front ++ [chunk] ∧ result.1 = deltaSizes ++
      (front.flatMap fun code => LastChunk.symbols code kMaxReportedPackets) ++
      result.2.2.1.appendTo ∧
    bytes.length = result.2.2.2.length + kChunkSizeBytes * (front.length + 1)

variable {decoder : LastChunk} {chunks : List Nat} {self fb : TransportFeedback}
  {packet : CommonHeader}

theorem readChunks_done (h : ¬ deltaSizes.length < statusCount) :
    readChunks statusCount deltaSizes chunks decoder bytes =
      some (deltaSizes, chunks, decoder, bytes) := by
  unfold readChunks
  split <;> rw [if_neg h]

theorem readChunks_read (hstatus : statusCount ≤ kMaxReportedPackets)
    {result : List DeltaSize × List Nat × LastChunk × List UInt8}
    (h : readChunks statusCount deltaSizes chunks decoder bytes = some result)
    (hmore : deltaSizes.length < statusCount) :
    ChunksRead statusCount deltaSizes chunks bytes result := by
  induction bytes using twoStepInduction generalizing deltaSizes chunks decoder with
  | nil => simp [readChunks, hmore] at h
  | singleton => simp [readChunks, hmore] at h
  | cons_cons b0 b1 rest ih _ =>
    let chunk := natBE [b0, b1]
    let next := decoder.decode chunk (statusCount - deltaSizes.length)
    rw [readChunks, if_pos hmore] at h
    change readChunks statusCount (deltaSizes ++ next.appendTo) (chunks ++ [chunk]) next rest = _ at h
    have happend : next.appendTo = symbols chunk (statusCount - deltaSizes.length) :=
      LastChunk.appendTo_decode decoder chunk _
    have hshort := length_symbols_le chunk (statusCount - deltaSizes.length)
    have hread : readSymbols statusCount deltaSizes (b0 :: b1 :: rest) =
        readSymbols statusCount (deltaSizes ++ next.appendTo) rest := by
      rw [readSymbols, if_pos hmore, happend]
    rw [← happend] at hshort
    by_cases hagain : (deltaSizes ++ next.appendTo).length < statusCount
    · obtain ⟨hsymbols, hcount, hnonempty, front, lastCode, hchunks, hsizes, hlength⟩ := ih h hagain
      -- The loop goes on, so this chunk was not cut off.
      have hfull : symbols chunk kMaxReportedPackets = next.appendTo := by
        rw [happend]
        refine symbols_of_length_lt ?_ (by omega)
        rw [length_append, happend] at hagain
        omega
      refine ⟨hread.trans hsymbols, hcount, hnonempty, chunk :: front, lastCode, ?_, ?_, ?_⟩
      · rw [hchunks]
        simp
      · rw [hsizes, flatMap_cons, hfull]
        simp
      · rw [length_cons, length_cons, hlength, length_cons, kChunkSizeBytes]
        omega
    · rw [readChunks_done hagain] at h
      cases h
      have hcount : (deltaSizes ++ next.appendTo).length = statusCount := by
        rw [length_append] at hagain ⊢
        omega
      refine ⟨hread.trans (by unfold readSymbols; split <;> rw [if_neg hagain]), hcount, ?_, [],
        chunk, by simp, by simp, rfl⟩
      by_contra hempty
      rw [appendTo_of_isEmpty (by simpa using hempty), append_nil] at hcount
      omega

theorem readDeltas_accounted {seqNo : BitVec 16} {sizes : List DeltaSize} {rest : List UInt8}
    {packets : List ReceivedPacket} (h : readDeltas seqNo sizes bytes = some (packets, rest)) :
    Accounted seqNo sizes packets ∧ bytes.length = rest.length + sizes.sum := by
  fun_induction readDeltas seqNo sizes bytes generalizing packets with
  | case1 seqNo bytes =>
    cases h
    exact ⟨.nil seqNo, by simp⟩
  | case2 seqNo sizes bytes ih =>
    obtain ⟨haccounted, hlength⟩ := ih h
    exact ⟨.missing haccounted, by simpa using hlength⟩
  | case3 seqNo sizes b0 bytes ih =>
    obtain ⟨⟨others, rest'⟩, hothers, heq⟩ := Option.map_eq_some_iff.mp h
    cases heq
    obtain ⟨haccounted, hlength⟩ := ih hothers
    have hbyte := b0.toNat_lt
    refine ⟨.received 1 b0.toNat (by decide) (fun _ => by omega) haccounted, ?_⟩
    rw [length_cons, sum_cons]
    omega
  | case4 seqNo sizes b0 b1 bytes ih =>
    obtain ⟨⟨others, rest'⟩, hothers, heq⟩ := Option.map_eq_some_iff.mp h
    cases heq
    obtain ⟨haccounted, hlength⟩ := ih hothers
    refine ⟨.received 2 _ (by decide) (fun h2 => absurd h2 (by decide)) haccounted, ?_⟩
    rw [length_cons, length_cons, sum_cons]
    omega
  | case5 => cases h

theorem readStatuses_accounted (seqNo : BitVec 16) (sizes : List DeltaSize) :
    Accounted seqNo sizes (readStatuses seqNo sizes) ∧ deltaSum (readStatuses seqNo sizes) = 0 := by
  induction sizes generalizing seqNo with
  | nil => exact ⟨.nil seqNo, rfl⟩
  | cons deltaSize sizes ih =>
    obtain ⟨haccounted, hsum⟩ := ih (seqNo + 1)
    rw [readStatuses]
    split_ifs with hpos
    · refine ⟨.received deltaSize 0 hpos (fun _ => by decide) haccounted, ?_⟩
      rw [deltaSum, map_cons, sum_cons, ← deltaSum, hsum]
      rfl
    · obtain rfl : deltaSize = 0 := Nat.eq_zero_of_not_pos hpos
      exact ⟨.missing haccounted, hsum⟩

/-- The payload announces receive deltas and has the bytes for them. -/
def carriesDeltas (packet : CommonHeader) : Bool :=
  match readSymbols (natBE ((packet.payload.drop 10).take 2)) [] (packet.payload.drop 16) with
  | some (deltaSizes, rest) => decide (0 < recvDeltaSize deltaSizes ∧
    recvDeltaSize deltaSizes ≤ rest.length)
  | none => false

def statusCountOf (packet : CommonHeader) : Nat := natBE ((packet.payload.drop 10).take 2)

theorem natBE_le (bytes : List UInt8) (h : bytes.length ≤ 2) : natBE bytes ≤ 0xffff := by
  match bytes, h with
  | [], _ => decide
  | [b0], _ =>
    have := b0.toNat_lt
    simp only [natBE, readFrom]
    omega
  | [b0, b1], _ =>
    have := b0.toNat_lt
    have := b1.toNat_lt
    simp only [natBE, readFrom]
    omega

theorem parse_isConsistent (h : parse self packet = some fb) :
    fb.isConsistent = true ↔ self.includeTimestamps = true ∨ carriesDeltas packet = false := by
  unfold parse at h
  dsimp only at h
  split_ifs at h with hlong hcount
  obtain ⟨⟨deltaSizes, chunks, decoder, rest⟩, hchunks, hbranch⟩ := Option.bind_eq_some_iff.mp h
  have hstatus : statusCountOf packet ≤ kMaxReportedPackets :=
    natBE_le _ (by rw [length_take]; omega)
  obtain ⟨hsymbols, hlength, hnonempty, front, lastCode, hcodes, hsizes, hbytes⟩ :=
    readChunks_read hstatus hchunks (Nat.pos_of_ne_zero hcount)
  dsimp only at hsymbols hlength hnonempty hcodes hsizes hbytes hbranch
  rw [nil_append] at hcodes hsizes
  have hfront : chunks.dropLast = front := by
    rw [hcodes, dropLast_concat]
  have hdropped : (packet.payload.drop 16).length = packet.payload.length - 16 :=
    length_drop
  rw [kChunkSizeBytes] at hbytes
  have hcarries : carriesDeltas packet =
      decide (0 < recvDeltaSize deltaSizes ∧ recvDeltaSize deltaSizes ≤ rest.length) := by
    unfold carriesDeltas
    rw [show natBE ((packet.payload.drop 10).take 2) = statusCountOf packet from rfl, hsymbols]
  have hlist : ∀ next : TransportFeedback, next.encodedChunks = chunks.dropLast →
      next.lastChunk = decoder →
      (next.encodedChunks.flatMap fun chunk => symbols chunk kMaxReportedPackets) ++
        (if next.lastChunk.isEmpty then [] else next.lastChunk.appendTo) = deltaSizes := by
    intro next hencoded hlast
    rw [hencoded, hlast, hnonempty, hfront, if_neg Bool.false_ne_true, hsizes]
  -- the deltas are read if they fit
  split_ifs at hbranch with hfits
  · obtain ⟨⟨packets, rest'⟩, hdeltas, rfl⟩ := Option.map_eq_some_iff.mp hbranch
    obtain ⟨haccounted, hrest⟩ := readDeltas_accounted hdeltas
    rw [isConsistent_iff (hlist _ rfl rfl) hlength.symm haccounted, hcarries]
    have hsum : rest.length = rest'.length + recvDeltaSize deltaSizes := hrest
    refine Iff.trans (and_iff_right rfl) ?_
    have hflag : (self.parseFixed packet.payload).includeTimestamps = self.includeTimestamps := rfl
    rw [hnonempty, hfront, hflag, kHeaderLength, kTransportFeedbackHeaderSizeBytes, kChunkSizeBytes]
    cases self.includeTimestamps with
    | true => simp; omega
    | false => simp; omega
  · cases hbranch
    obtain ⟨haccounted, hsum⟩ :=
      readStatuses_accounted (self.parseFixed packet.payload).baseSeqNo deltaSizes
    rw [isConsistent_iff (hlist _ rfl rfl) hlength.symm haccounted, hcarries]
    refine iff_of_true ⟨?_, ?_⟩ (Or.inr (decide_eq_false fun hroom => by omega))
    · rw [hsum]
      rfl
    · dsimp only
      rw [hnonempty, hfront, if_neg Bool.false_ne_true, if_neg Bool.false_ne_true, kHeaderLength,
        kTransportFeedbackHeaderSizeBytes, kChunkSizeBytes]
      omega

/-- `IsConsistent` holds after every run of `AddReceivedPacket` calls and after every `Parse` into
an object with timestamps. An object without is inconsistent exactly when the bytes carry receive
deltas. -/
theorem isConsistent_runs_and_parse (includeTimestamps : Bool) (baseSequence : BitVec 16)
    (refTimestamp : Nat) (calls : List (BitVec 16 × Nat)) (self : TransportFeedback)
    (packet : CommonHeader) :
    (∃ oks fb, ((initial includeTimestamps).setBase baseSequence refTimestamp).addPackets calls =
      some (oks, fb) ∧ fb.isConsistent = true) ∧
    ∀ fb : TransportFeedback, parse self packet = some fb → (fb.isConsistent = true ↔
        self.includeTimestamps = true ∨ carriesDeltas packet = false) := by
  constructor
  · obtain ⟨oks, fb, hrun, -, -, pieces, last, hbuilt⟩ :=
      addPackets_built calls (built_setBase includeTimestamps baseSequence refTimestamp 0)
    exact ⟨oks, fb, hrun, hbuilt.isConsistent⟩
  · intro fb h
    exact parse_isConsistent h

/-- A message about one received packet, with the given bytes after its only chunk. -/
def onePacketHeader (deltas : List UInt8) : CommonHeader where
  packetType := kPacketType
  countOrFormat := UInt8.ofNat kFeedbackMessageType
  paddingSize := 0
  payload := [0, 0, 0, 0, 0, 0, 0, 0, 0, 0, 0, 1, 0, 0, 0, 0, 0x20, 0x01] ++ deltas

/-- The run 1, 4 with a gap, and a message with one delta parsed into a fresh object. -/
theorem isConsistent_runs_and_parse_onePacket :
    (∃ oks fb, ((initial true).setBase 1 0).addPackets [(1, 100), (4, 70000)] = some (oks, fb) ∧
      fb.isConsistent = true) ∧
    ∃ fb, parse (initial true) (onePacketHeader [5]) = some fb ∧ fb.isConsistent = true := by
  obtain ⟨hrun, hparse⟩ := isConsistent_runs_and_parse true 1 0 [(1, 100), (4, 70000)]
    (initial true) (onePacketHeader [5])
  refine ⟨hrun, ?_⟩
  have hparsed : (parse (initial true) (onePacketHeader [5])).isSome = true := by
    decide +kernel
  obtain ⟨fb, hfb⟩ := Option.isSome_iff_exists.mp hparsed
  exact ⟨fb, hfb, (hparse fb hfb).mpr (Or.inl rfl)⟩

/-- A message without deltas clears the flag; a second one with deltas is then counted in the size
only. -/
theorem parse_twice_inconsistent : ((parse (initial true) (onePacketHeader [])).bind fun first =>
      (parse first (onePacketHeader [5])).map fun second =>
        (first.isConsistent, second.isConsistent)) = some (true, false) := by
  decide +kernel

end TransportFeedback

end Rtcp
