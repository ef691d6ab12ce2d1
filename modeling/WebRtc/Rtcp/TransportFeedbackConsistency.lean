import WebRtc.Rtcp.TransportFeedback
import Mathlib.Algebra.BigOperators.Group.List.Basic

/-!
# Transport-wide feedback: the consistency invariant

A feedback message under construction is described by the pieces of the status list that were
emitted as chunks and the symbols still in the last chunk. Every call keeps that description, also
the calls that return `false` half-way.
-/

namespace Rtcp

open SequenceNumbers Option
open List hiding isEmpty

namespace TransportFeedback

open LastChunk

open LastChunk (Represents Encodes)

variable {seqNo : BitVec 16} {sizes last : List DeltaSize} {packets : List ReceivedPacket}
  {fb next : TransportFeedback} {pieces : List (Nat × List DeltaSize)}

variable (pieces)

/-- All status symbols: those of the emitted pieces, then those of the last chunk. -/
def statuses (last : List DeltaSize) : List DeltaSize :=
  pieces.flatMap Prod.snd ++ last

/-- Chunk bytes used by `pieces` and `last`. -/
def chunkSize (last : List DeltaSize) : Nat :=
  kChunkSizeBytes * pieces.length + if last = [] then 0 else kChunkSizeBytes

variable {pieces}

/-- The chunks stand for `pieces` and `last`; `deltas` bytes of the size are receive deltas. -/
structure Packed (fb : TransportFeedback) (pieces : List (Nat × List DeltaSize))
    (last : List DeltaSize) (deltas : Nat) : Prop where
  chunks : fb.encodedChunks = pieces.map Prod.fst
  encodes : ∀ piece ∈ pieces, Encodes piece.1 piece.2 ∧ piece.2 ≠ []
  lastChunk : Represents fb.lastChunk last
  count : fb.numSeqNo = (statuses pieces last).length
  bounded : fb.numSeqNo ≤ kMaxReportedPackets
  size : fb.sizeBytes = kTransportFeedbackHeaderSizeBytes + chunkSize pieces last + deltas
  limit : fb.sizeBytes ≤ kMaxSizeBytes

structure SameHeader (fb next : TransportFeedback) : Prop where
  senderSsrc : next.senderSsrc = fb.senderSsrc
  mediaSsrc : next.mediaSsrc = fb.mediaSsrc
  baseSeqNo : next.baseSeqNo = fb.baseSeqNo
  baseTimeTicks : next.baseTimeTicks = fb.baseTimeTicks
  feedbackSeq : next.feedbackSeq = fb.feedbackSeq
  includeTimestamps : next.includeTimestamps = fb.includeTimestamps
  lastTimestamp : next.lastTimestamp = fb.lastTimestamp
  receivedPackets : next.receivedPackets = fb.receivedPackets

theorem SameHeader.refl (fb : TransportFeedback) : SameHeader fb fb :=
  ⟨rfl, rfl, rfl, rfl, rfl, rfl, rfl, rfl⟩

theorem SameHeader.of_update (fb : TransportFeedback) (numSeqNo : Nat) (encodedChunks : List Nat)
    (lastChunk : LastChunk) (sizeBytes : Nat) :
    SameHeader fb { fb with
      numSeqNo := numSeqNo
      encodedChunks := encodedChunks
      lastChunk := lastChunk
      sizeBytes := sizeBytes } :=
  ⟨rfl, rfl, rfl, rfl, rfl, rfl, rfl, rfl⟩

section

variable {fb : TransportFeedback} {pieces : List (Nat × List DeltaSize)}
  {last : List DeltaSize} {deltas : Nat}

theorem isEmpty_iff {c : LastChunk} (h : Represents c last) : c.isEmpty = true ↔ last = [] := by
  rw [isEmpty, beq_iff_eq, h.size, length_eq_zero_iff]

@[simp] theorem statuses_concat (deltaSize : DeltaSize) :
    statuses pieces (last ++ [deltaSize]) = statuses pieces last ++ [deltaSize] := by
  simp [statuses]

theorem statuses_emit (code : Nat) (pre post : List DeltaSize) :
    statuses (pieces ++ [(code, pre)]) post = statuses pieces (pre ++ post) := by
  simp [statuses]

theorem encodes_concat {code : Nat} {pre : List DeltaSize}
    (h : ∀ piece ∈ pieces, Encodes piece.1 piece.2 ∧ piece.2 ≠ []) (hcode : Encodes code pre)
    (hne : pre ≠ []) :
    ∀ piece ∈ pieces ++ [(code, pre)], Encodes piece.1 piece.2 ∧ piece.2 ≠ [] := by
  exact forall_mem_append.mpr ⟨h, forall_mem_singleton.mpr ⟨hcode, hne⟩⟩

/-- The outcomes of `AddDeltaSize`: the symbol is added or nothing changes. -/
def DeltaSizeAdded (fb : TransportFeedback) (pieces : List (Nat × List DeltaSize))
    (last : List DeltaSize) (deltas : Nat) (deltaSize : DeltaSize) :
    Bool × TransportFeedback → Prop
  | (false, next) => next = fb
  | (true, next) => SameHeader fb next ∧ next.sizeBytes + deltaSize ≤ kMaxSizeBytes ∧
      ∃ pieces' last', Packed next pieces' last' deltas ∧
        statuses pieces' last' = statuses pieces last ++ [deltaSize]

theorem addDeltaSize_packed (h : Packed fb pieces last deltas) {deltaSize : DeltaSize}
    (hsmall : deltaSize ≤ kLarge) :
    ∃ result, fb.addDeltaSize deltaSize = some result ∧
      DeltaSizeAdded fb pieces last deltas deltaSize result := by
  have hlast := isEmpty_iff h.lastChunk
  have hsize := h.size
  unfold addDeltaSize
  dsimp only
  generalize hchunk : (if fb.lastChunk.isEmpty = true then kChunkSizeBytes else 0) = addChunkSize
  split_ifs with hfull hroom hcan hroom'
  · exact ⟨_, rfl, rfl⟩
  · exact ⟨_, rfl, rfl⟩
  · obtain ⟨c, hadd, hrep⟩ := add_represents h.lastChunk hcan hsmall
    rw [hadd]
    refine ⟨_, rfl, SameHeader.of_update fb _ _ _ _, ?_, pieces, last ++ [deltaSize], ?_,
      statuses_concat deltaSize⟩
    · dsimp only
      omega
    · refine { h with
        lastChunk := hrep, count := ?_, bounded := Nat.lt_of_le_of_ne h.bounded hfull
        size := ?_, limit := ?_ }
      · rw [statuses_concat, length_append, length_singleton, h.count]
      · have hne : last ++ [deltaSize] ≠ [] := by simp
        dsimp only
        rw [hsize, ← hchunk, chunkSize, chunkSize, if_neg hne]
        by_cases hempty : last = []
        · rw [if_pos (hlast.mpr hempty), if_pos hempty]
          omega
        · rw [if_neg (fun he => hempty (hlast.mp he)), if_neg hempty]
          omega
      · dsimp only
        omega
  · exact ⟨_, rfl, rfl⟩
  · have hrefused : fb.lastChunk.canAdd deltaSize = false := by simpa using hcan
    obtain ⟨code, c, pre, post, hemit, rfl, hpre, hcode, hrest, hshort, -⟩ :=
      emit_represents h.lastChunk hsmall hrefused
    have hcanRest : c.canAdd deltaSize = true := by
      refine (canAdd_iff hrest deltaSize).mpr (Or.inl ?_)
      rw [length_append]
      exact hshort
    obtain ⟨c', hadd, hrep⟩ := add_represents hrest hcanRest hsmall
    rw [hemit, bind_some]
    rw [hadd]
    refine ⟨_, rfl, SameHeader.of_update fb _ _ _ _, ?_, pieces ++ [(code, pre)],
      post ++ [deltaSize], ?_, ?_⟩
    · dsimp only
      omega
    · constructor
      · simp [h.chunks]
      · exact encodes_concat h.encodes hcode hpre
      · exact hrep
      · rw [statuses_concat, statuses_emit, length_append, length_singleton, h.count]
      · exact Nat.lt_of_le_of_ne h.bounded hfull
      · have hne : post ++ [deltaSize] ≠ [] := by simp
        have hne' : pre ++ post ≠ [] := by simp [hpre]
        dsimp only
        rw [hsize, chunkSize, chunkSize, if_neg hne, if_neg hne', length_append,
          length_singleton, Nat.mul_add]
        omega
      · dsimp only
        omega
    · rw [statuses_concat, statuses_emit]

theorem addZeros_represents {c : LastChunk} (h : Represents c last) (n : Nat) :
    ∃ missing c' added, addZeros n c = some (missing, c') ∧ added + missing = n ∧
      Represents c' (last ++ List.replicate added 0) ∧ (missing ≠ 0 → c'.canAdd 0 = false) := by
  induction n generalizing c last with
  | zero => exact ⟨0, c, 0, rfl, rfl, by simpa using h, fun hne => absurd rfl hne⟩
  | succ n ih =>
    rw [addZeros]
    by_cases hcan : c.canAdd 0 = true
    · obtain ⟨c₁, hadd, hrep⟩ := add_represents h hcan (Nat.zero_le _)
      obtain ⟨missing, c', added, hzeros, hsum, hrep', hleft⟩ := ih hrep
      rw [if_pos hcan, hadd]
      refine ⟨missing, c', added + 1, hzeros, by omega, ?_, hleft⟩
      rwa [append_assoc, singleton_append, ← replicate_succ] at hrep'
    · rw [if_neg hcan]
      exact ⟨n + 1, c, 0, rfl, by omega, by simpa using h, fun _ => by simpa using hcan⟩

theorem encodes_fullRun : Encodes kMaxRunLengthCapacity
      (List.replicate kMaxRunLengthCapacity 0) := by
  have hcode := symbols_runLength (Nat.zero_le 3)
    (Nat.le_refl kMaxRunLengthCapacity)
  refine ⟨by decide, fun maxSize hmax => ?_⟩
  rw [length_replicate] at hmax
  have hread := (hcode maxSize).2
  rwa [Nat.min_eq_left hmax] at hread

/-- The outcomes of `AddMissingPackets`: some zeros are added, all of them on success. -/
def MissingAdded (fb : TransportFeedback) (pieces : List (Nat × List DeltaSize))
    (last : List DeltaSize) (deltas numMissing : Nat) (result : Bool × TransportFeedback) : Prop :=
  SameHeader fb result.2 ∧ ∃ pieces' last' added, Packed result.2 pieces' last' deltas ∧
      statuses pieces' last' = statuses pieces last ++ List.replicate added 0 ∧
      (result.1 = true → added = numMissing)

theorem addMissingRuns_packed (fb : TransportFeedback) {newNumSeqNo numMissing : Nat}
    (h : Packed { fb with numSeqNo := newNumSeqNo - numMissing } pieces [] deltas)
    (hle : numMissing ≤ newNumSeqNo) (hbound : newNumSeqNo ≤ kMaxReportedPackets) :
    ∃ result, fb.addMissingRuns newNumSeqNo numMissing = some result ∧
      MissingAdded fb pieces [] deltas numMissing result := by
  have hempty : fb.lastChunk.isEmpty = true := (isEmpty_iff h.lastChunk).mpr rfl
  have hremainder : numMissing % kMaxRunLengthCapacity < kMaxRunLengthCapacity :=
    Nat.mod_lt _ (by decide)
  have hcount := h.count
  have hsize := h.size
  unfold addMissingRuns
  dsimp only
  generalize hfull : numMissing / kMaxRunLengthCapacity = fullChunks at *
  generalize hrest : numMissing % kMaxRunLengthCapacity = partialChunk at *
  generalize hchunks : (fullChunks + if partialChunk > 0 then 1 else 0) = numChunks
  have hsum : fullChunks * kMaxRunLengthCapacity + partialChunk = numMissing := by
    rw [← hfull, ← hrest, Nat.mul_comm]
    exact Nat.div_add_mod _ _
  split_ifs with hroom
  · exact ⟨_, rfl, SameHeader.of_update fb _ _ _ _, pieces, [], 0, h, by simp, by simp⟩
  · obtain ⟨c, hadd, hrep⟩ := addMissingPackets_represents h.lastChunk hremainder
    have hstatuses : statuses (pieces ++ replicate fullChunks
          (kMaxRunLengthCapacity, replicate kMaxRunLengthCapacity 0))
        (replicate partialChunk 0) = statuses pieces [] ++ replicate numMissing 0 := by
      simp [statuses, flatMap_replicate, flatten_replicate_replicate, hsum]
    rw [hadd]
    refine ⟨_, rfl, SameHeader.of_update fb _ _ _ _, _, _, numMissing, ?_, hstatuses, fun _ => rfl⟩
    have hpieces : fb.encodedChunks = pieces.map Prod.fst := h.chunks
    constructor
    · simp [hpieces]
    · intro piece hmem
      rcases mem_append.mp hmem with hmem | hmem
      · exact h.encodes piece hmem
      · rw [eq_of_mem_replicate hmem]
        exact ⟨encodes_fullRun, by decide⟩
    · exact hrep
    · dsimp only at hcount ⊢
      rw [hstatuses, length_append, length_replicate]
      omega
    · exact hbound
    · have hlast : (if replicate partialChunk (0 : DeltaSize) = [] then 0 else
          kChunkSizeBytes) = kChunkSizeBytes * if partialChunk > 0 then 1 else 0 := by
        cases partialChunk with
        | zero => rfl
        | succ n => rfl
      dsimp only
      rw [hsize, ← hchunks, chunkSize, chunkSize, length_append, length_replicate, if_pos
        rfl, Nat.mul_add, Nat.mul_add]
      omega
    · dsimp only
      omega

theorem addMissingPackets_packed (h : Packed fb pieces last deltas) (numMissing : Nat) :
    ∃ result, fb.addMissingPackets numMissing = some result ∧
      MissingAdded fb pieces last deltas numMissing result := by
  have hempty := isEmpty_iff h.lastChunk
  have hcount := h.count
  unfold addMissingPackets
  dsimp only
  split_ifs with hbound hlast
  · exact ⟨_, rfl, SameHeader.refl fb, pieces, last, 0, h, by simp, by simp⟩
  · obtain rfl : last = [] := hempty.mp hlast
    refine addMissingRuns_packed fb ?_ (by omega) (by omega)
    rw [Nat.add_sub_cancel]
    exact h
  · obtain ⟨missing, c, added, hzeros, hsum, hrep, hleft⟩ :=
      addZeros_represents h.lastChunk numMissing
    have hne : last ≠ [] := fun heq => hlast (hempty.mpr heq)
    have hne' : last ++ replicate added 0 ≠ [] := by simp [hne]
    have hstatuses : statuses pieces (last ++ replicate added 0) =
        statuses pieces last ++ replicate added 0 := by
      simp [statuses]
    have hsize : fb.sizeBytes = kTransportFeedbackHeaderSizeBytes +
        chunkSize pieces (last ++ replicate added 0) + deltas := by
      rw [h.size, chunkSize, chunkSize, if_neg hne, if_neg hne']
    rw [hzeros, bind_some]
    split_ifs with hdone
    · refine ⟨_, rfl, SameHeader.of_update fb _ _ _ _, pieces, _, added, ?_, hstatuses,
        fun _ => by omega⟩
      refine { h with
        lastChunk := hrep, count := ?_, bounded := Nat.le_of_not_lt hbound, size := hsize }
      dsimp only
      rw [hstatuses, length_append, length_replicate]
      omega
    · obtain ⟨code, c', pre, post, hemit, hsplit, hpre, hcode, hrest, -, hnone⟩ :=
        emit_represents hrep (Nat.zero_le _) (hleft hdone)
      obtain rfl : post = [] := hnone (hleft hdone)
      have hmissing : missing ≤ fb.numSeqNo + numMissing := by omega
      rw [append_nil] at hsplit
      have hpacked : Packed { fb with
          encodedChunks := fb.encodedChunks ++ [code]
          lastChunk := c'
          numSeqNo := fb.numSeqNo + numMissing - missing } (pieces ++ [(code, pre)]) [] deltas := by
        refine { h with
          chunks := by simp [h.chunks], encodes := encodes_concat h.encodes hcode hpre
          lastChunk := hrest, count := ?_, bounded := ?_, size := ?_ }
        · dsimp only
          rw [statuses_emit, append_nil, ← hsplit, hstatuses, length_append, length_replicate]
          omega
        · dsimp only
          omega
        · rw [hsize, chunkSize, chunkSize, if_neg hne', length_append, length_singleton,
            if_pos rfl, Nat.mul_add]
          omega
      obtain ⟨result, hruns, hheader, pieces', last', more, hpacked', hstatuses', hmore⟩ :=
        addMissingRuns_packed { fb with
          encodedChunks := fb.encodedChunks ++ [code]
          lastChunk := c' } hpacked hmissing (Nat.le_of_not_lt hbound)
      rw [hemit]
      refine ⟨result, hruns, ?_, pieces', last', added + more, hpacked', ?_, fun hok => ?_⟩
      · exact { hheader with }
      · rw [hstatuses', statuses_emit, append_nil, ← hsplit, hstatuses, append_assoc,
          replicate_append_replicate]
      · rw [hmore hok]
        omega

end

/-- The received packets are those with a non-zero status, the size of the delta. -/
inductive Matches : BitVec 16 → List DeltaSize → List ReceivedPacket → Prop
  | nil (seqNo : BitVec 16) : Matches seqNo [] []
  | missing {seqNo : BitVec 16} {sizes : List DeltaSize} {packets : List ReceivedPacket} :
      Matches (seqNo + 1) sizes packets → Matches seqNo (0 :: sizes) packets
  | received {seqNo : BitVec 16} {sizes : List DeltaSize} {packets : List ReceivedPacket}
      (delta : Int) : -2 ^ 15 ≤ delta → delta < 2 ^ 15 → Matches (seqNo + 1) sizes packets →
      Matches seqNo (deltaSizeOf delta :: sizes) (⟨seqNo, delta⟩ :: packets)

theorem seqNo_succ (seqNo : BitVec 16) (n : Nat) :
    seqNo + 1 + BitVec.ofNat 16 n = seqNo + BitVec.ofNat 16 (n + 1) := by
  rw [BitVec.ofNat_add, add_assoc, add_comm (1 : BitVec 16)]
  rfl

theorem Matches.append {more : List DeltaSize} {others : List ReceivedPacket}
    (h : Matches seqNo sizes packets)
    (hmore : Matches (seqNo + BitVec.ofNat 16 sizes.length) more others) :
    Matches seqNo (sizes ++ more) (packets ++ others) := by
  induction h with
  | nil seqNo => simpa using hmore
  | missing _ ih =>
    rw [length_cons, ← seqNo_succ] at hmore
    exact .missing (ih hmore)
  | received delta hlow hhigh _ ih =>
    rw [length_cons, ← seqNo_succ] at hmore
    exact .received delta hlow hhigh (ih hmore)

theorem matches_zeros (seqNo : BitVec 16) (n : Nat) : Matches seqNo (List.replicate n 0) [] := by
  induction n generalizing seqNo with
  | zero => exact .nil seqNo
  | succ n ih => exact .missing (ih (seqNo + 1))

theorem deltaSizeOf_pos (delta : Int) : 0 < deltaSizeOf delta := by
  unfold deltaSizeOf
  split <;> decide

theorem deltaSizeOf_le (delta : Int) : deltaSizeOf delta ≤ kLarge := by
  unfold deltaSizeOf
  split <;> decide

structure Built (fb : TransportFeedback) (pieces : List (Nat × List DeltaSize))
    (last : List DeltaSize) : Prop where
  packed : Packed fb pieces last (if fb.includeTimestamps then (statuses pieces last).sum else 0)
  received : Matches fb.baseSeqNo (statuses pieces last) fb.receivedPackets
  time : fb.lastTimestamp = fb.baseTime + deltaSum fb.receivedPackets
  ticks : fb.baseTimeTicks < 2 ^ 24
  untimed : fb.includeTimestamps = false → ∀ packet ∈ fb.receivedPackets, packet.deltaTicks = 0

theorem SameHeader.baseTime (h : SameHeader fb next) : next.baseTime = fb.baseTime := by
  rw [TransportFeedback.baseTime, TransportFeedback.baseTime, h.baseTimeTicks]

theorem built_setBase (includeTimestamps : Bool) (baseSequence : BitVec 16) (refTimestamp : Nat)
    (feedbackSequence : UInt8) :
    Built (((initial includeTimestamps).setBase baseSequence refTimestamp).setFeedbackSequenceNumber
      feedbackSequence) [] [] where
  packed :=
    { chunks := rfl
      encodes := by simp
      lastChunk := represents_initial
      count := rfl
      bounded := Nat.zero_le _
      size := by cases includeTimestamps <;> rfl
      limit := (by decide : kTransportFeedbackHeaderSizeBytes ≤ kMaxSizeBytes) }
  received := .nil _
  time := (Int.add_zero _).symm
  ticks := by
    refine Nat.div_lt_of_lt_mul ?_
    exact Nat.mod_lt _ (by decide)
  untimed := nofun

variable {pieces' : List (Nat × List DeltaSize)} {last' : List DeltaSize}

theorem Built.of_missing {added : Nat} (h : Built fb pieces last) (hheader : SameHeader fb next)
    (hpacked : Packed next pieces' last' (if fb.includeTimestamps then (statuses pieces last).sum else 0))
    (hstatuses : statuses pieces' last' = statuses pieces last ++ List.replicate added 0) :
    Built next pieces' last' where
  packed := by
    have hsum : (statuses pieces' last').sum = (statuses pieces last).sum := by
      simp [hstatuses]
    rw [hheader.includeTimestamps, hsum]
    exact hpacked
  received := by
    rw [hheader.baseSeqNo, hheader.receivedPackets, hstatuses]
    simpa using h.received.append (matches_zeros _ added)
  time := by
    rw [hheader.lastTimestamp, hheader.baseTime, hheader.receivedPackets]
    exact h.time
  ticks := hheader.baseTimeTicks ▸ h.ticks
  untimed := by
    rw [hheader.includeTimestamps, hheader.receivedPackets]
    exact h.untimed

theorem Built.of_received
    {delta : Int} (h : Built fb pieces last) (hheader : SameHeader fb next) (hlow : -2 ^ 15 ≤ delta)
    (hhigh : delta < 2 ^ 15) (huntimed : fb.includeTimestamps = false → delta = 0)
    (hroom : next.sizeBytes + deltaSizeOf delta ≤ kMaxSizeBytes)
    (hpacked : Packed next pieces' last' (if fb.includeTimestamps then (statuses pieces last).sum else 0))
    (hstatuses : statuses pieces' last' = statuses pieces last ++ [deltaSizeOf delta]) :
    Built { next with
      receivedPackets := next.receivedPackets ++
        [⟨fb.baseSeqNo + BitVec.ofNat 16 fb.numSeqNo, delta⟩]
      lastTimestamp := next.lastTimestamp + delta * kDeltaTick
      sizeBytes :=
        if next.includeTimestamps then next.sizeBytes + deltaSizeOf delta else next.sizeBytes }
      pieces' last' where
  packed :=
    { hpacked with
      size := by
        have hsize := hpacked.size
        dsimp only
        rw [hheader.includeTimestamps, hstatuses, sum_append, sum_singleton]
        split_ifs at hsize ⊢
        · omega
        · exact hsize
      limit := by
        have hlimit := hpacked.limit
        split_ifs
        · exact hroom
        · exact hlimit }
  received := by
    rw [hheader.baseSeqNo, hheader.receivedPackets, hstatuses]
    refine h.received.append ?_
    rw [← h.packed.count]
    exact .received delta hlow hhigh (.nil _)
  time := by
    change next.lastTimestamp + delta * kDeltaTick = next.baseTime +
      deltaSum (next.receivedPackets ++ [⟨fb.baseSeqNo + BitVec.ofNat 16 fb.numSeqNo, delta⟩])
    rw [hheader.lastTimestamp, hheader.receivedPackets, hheader.baseTime, h.time]
    simp [deltaSum, Int.add_assoc]
  ticks := by
    rw [hheader.baseTimeTicks]
    exact h.ticks
  untimed := by
    rw [hheader.includeTimestamps, hheader.receivedPackets]
    intro hflag packet hmem
    rcases mem_append.mp hmem with hmem | hmem
    · exact h.untimed hflag packet hmem
    · rw [mem_singleton.mp hmem]
      exact huntimed hflag

def PacketAdded (fb : TransportFeedback) (sequenceNumber : BitVec 16)
    (result : Bool × TransportFeedback) : Prop :=
  result.2.baseSeqNo = fb.baseSeqNo ∧ result.2.baseTimeTicks = fb.baseTimeTicks ∧
    result.2.feedbackSeq = fb.feedbackSeq ∧ result.2.includeTimestamps = fb.includeTimestamps ∧
    (result.1 = false → result.2.receivedPackets = fb.receivedPackets) ∧ (result.1 = true → ∃ delta,
      result.2.receivedPackets = fb.receivedPackets ++ [⟨sequenceNumber, delta⟩])

theorem SameHeader.refused (h : SameHeader fb next) (sequenceNumber : BitVec 16) :
    PacketAdded fb sequenceNumber (false, next) :=
  ⟨h.baseSeqNo, h.baseTimeTicks, h.feedbackSeq, h.includeTimestamps, fun _ => h.receivedPackets, nofun⟩

theorem addReceivedPacket_built (h : Built fb pieces last) (sequenceNumber : BitVec 16)
    (timestamp : Nat) :
    ∃ result, fb.addReceivedPacket sequenceNumber timestamp = some result ∧
      PacketAdded fb sequenceNumber result ∧ ∃ pieces' last', Built result.2 pieces' last' := by
  unfold addReceivedPacket
  have hbounds : ∀ delta, (if fb.includeTimestamps = true then
      ticksSince fb.lastTimestamp timestamp else some 0) = some delta →
      -2 ^ 15 ≤ delta ∧ delta < 2 ^ 15 := by
    intro delta heq
    split_ifs at heq
    · obtain ⟨hfits, hticks⟩ := ite_none_right_eq_some.mp heq
      exact some.inj hticks ▸ hfits
    · rw [← some.inj heq]
      decide
  cases hdelta : (if fb.includeTimestamps = true then
      ticksSince fb.lastTimestamp timestamp else some 0) with
  | none => exact ⟨_, rfl, (SameHeader.refl fb).refused _, pieces, last, h⟩
  | some delta =>
    obtain ⟨hlow, hhigh⟩ := hbounds delta hdelta
    have huntimed : fb.includeTimestamps = false → delta = 0 := by
      intro hflag
      rw [hflag] at hdelta
      exact (some.inj hdelta).symm
    dsimp only
    -- The packet before the status symbol is added: gaps are filled with missing packets.
    set due := fb.baseSeqNo + BitVec.ofNat 16 fb.numSeqNo with hdue
    have hgap : ∃ ok mid pieces' last', (if sequenceNumber = due then some (true, fb)
          else if isNewerSequenceNumber sequenceNumber (due - 1) then
            fb.addMissingPackets (sequenceNumber - due).toNat
          else some (false, fb)) = some (ok, mid) ∧ SameHeader fb mid ∧ Built mid pieces' last' ∧
        (ok = true → sequenceNumber = mid.baseSeqNo + BitVec.ofNat 16 mid.numSeqNo) := by
      split_ifs with hnext hnewer
      · exact ⟨true, fb, pieces, last, rfl, SameHeader.refl fb, h, fun _ => hnext⟩
      · obtain ⟨⟨ok, mid⟩, hmissing, hheader, pieces', last', added, hpacked, hstatuses, hall⟩ :=
          addMissingPackets_packed h.packed (sequenceNumber - due).toNat
        refine ⟨ok, mid, pieces', last', hmissing, hheader, h.of_missing hheader hpacked hstatuses,
          fun hok => ?_⟩
        have hcount : mid.numSeqNo = fb.numSeqNo + added := by
          rw [hpacked.count, hstatuses, length_append, length_replicate, h.packed.count]
        rw [hheader.baseSeqNo, hcount, hall hok, BitVec.ofNat_add, BitVec.ofNat_toNat,
          BitVec.setWidth_eq, ← add_assoc, ← hdue, add_sub_cancel]
      · exact ⟨false, fb, pieces, last, rfl, SameHeader.refl fb, h, nofun⟩
    obtain ⟨ok, mid, pieces', last', hmid, hheader, hbuilt, hseq⟩ := hgap
    rw [hmid, bind_some]
    cases ok with
    | false =>
      exact ⟨_, rfl, hheader.refused _, pieces', last', hbuilt⟩
    | true =>
      obtain ⟨⟨ok, next⟩, hadd, hresult⟩ :=
        addDeltaSize_packed hbuilt.packed (deltaSizeOf_le delta)
      rw [hadd]
      cases ok with
      | false =>
        obtain rfl : next = mid := hresult
        exact ⟨_, rfl, hheader.refused _, pieces', last', hbuilt⟩
      | true =>
        obtain ⟨hheader', hroom, pieces'', last'', hpacked, hstatuses⟩ := hresult
        refine ⟨_, rfl, ⟨?_, ?_, ?_, ?_, ?_, ?_⟩, pieces'', last'', ?_⟩
        · exact hheader'.baseSeqNo.trans hheader.baseSeqNo
        · exact hheader'.baseTimeTicks.trans hheader.baseTimeTicks
        · exact hheader'.feedbackSeq.trans hheader.feedbackSeq
        · exact hheader'.includeTimestamps.trans hheader.includeTimestamps
        · exact nofun
        · refine fun _ => ⟨delta, ?_⟩
          change next.receivedPackets ++ [⟨sequenceNumber, delta⟩] = _
          rw [hheader'.receivedPackets, hheader.receivedPackets]
        · rw [hseq rfl]
          refine hbuilt.of_received hheader' hlow hhigh ?_ hroom hpacked hstatuses
          rwa [hheader.includeTimestamps]

/-- A sequence of `AddReceivedPacket` calls, with what each of them returned. -/
def addPackets (fb : TransportFeedback) :
    List (BitVec 16 × Nat) → Option (List Bool × TransportFeedback)
  | [] => some ([], fb)
  | (sequenceNumber, timestamp) :: calls =>
    (fb.addReceivedPacket sequenceNumber timestamp).bind fun (ok, fb) =>
      (addPackets fb calls).map fun (oks, fb) => (ok :: oks, fb)

structure SameBase (fb next : TransportFeedback) : Prop where
  baseSeqNo : next.baseSeqNo = fb.baseSeqNo
  baseTimeTicks : next.baseTimeTicks = fb.baseTimeTicks
  feedbackSeq : next.feedbackSeq = fb.feedbackSeq
  includeTimestamps : next.includeTimestamps = fb.includeTimestamps

theorem addPackets_built (calls : List (BitVec 16 × Nat)) (h : Built fb pieces last) :
    ∃ oks next, fb.addPackets calls = some (oks, next) ∧ SameBase fb next ∧
      next.receivedPackets.length = fb.receivedPackets.length + oks.count true ∧
      ∃ pieces' last', Built next pieces' last' := by
  induction calls generalizing fb pieces last with
  | nil => exact ⟨[], fb, rfl, ⟨rfl, rfl, rfl, rfl⟩, rfl, pieces, last, h⟩
  | cons call calls ih =>
    obtain ⟨⟨ok, mid⟩, hadd, ⟨hseq, hticks, hfeedback, hinclude, hrefused, hadded⟩,
      pieces', last', hmid⟩ := addReceivedPacket_built h call.1 call.2
    obtain ⟨oks, next, hrun, hbase, hlength, hbuilt⟩ := ih hmid
    refine ⟨ok :: oks, next, ?_, ?_, ?_, hbuilt⟩
    · rw [addPackets, hadd, bind_some]
      dsimp only
      rw [hrun]
      rfl
    · exact ⟨hbase.baseSeqNo.trans hseq, hbase.baseTimeTicks.trans hticks,
        hbase.feedbackSeq.trans hfeedback, hbase.includeTimestamps.trans hinclude⟩
    · rw [hlength]
      cases ok with
      | false => rw [show mid.receivedPackets = fb.receivedPackets from hrefused rfl]; simp
      | true =>
        obtain ⟨delta, hpackets⟩ := hadded rfl
        rw [show mid.receivedPackets = _ from hpackets, length_append, length_singleton,
          count_cons_self]
        omega

/-- The first packet of a message lies within one tick of the base time. -/
theorem ticksSince_base (refTimestamp : Nat) : ∃ delta, ticksSince (kTimeWrapPeriod +
      (refTimestamp % kTimeWrapPeriod.toNat / kBaseTimeTick.toNat : Nat) * kBaseTimeTick)
      refTimestamp = some delta := by
  have hwrap : kTimeWrapPeriod = 1073741824000 := rfl
  have hbase : kBaseTimeTick = 64000 := rfl
  have htick : kDeltaTick = 250 := rfl
  rw [hwrap, hbase]
  simp only [Int.reduceToNat]
  generalize hk : refTimestamp % 1073741824000 / 64000 = k
  generalize hm : refTimestamp % 1073741824000 % 64000 = m
  have hshifted : ∀ shifted : Int, shifted = (if (1073741824000 + (k : Int) * 64000) > refTimestamp then
      refTimestamp + ((1073741824000 + (k : Int) * 64000) - refTimestamp + 1073741824000 - 1).tdiv
        1073741824000 * 1073741824000 else refTimestamp) →
      (shifted - (1073741824000 + (k : Int) * 64000)).tmod 1073741824000 = m := by
    intro shifted h
    split_ifs at h with hlast
    · rw [Int.tdiv_eq_ediv_of_nonneg (by omega)] at h
      rw [Int.tmod_eq_emod_of_nonneg (by omega)]
      omega
    · rw [Int.tmod_eq_emod_of_nonneg (by omega)]
      omega
  unfold ticksSince
  dsimp only
  rw [hwrap, htick, hshifted _ rfl]
  have hhalf : ¬ (m : Int) > (1073741824000 : Int).tdiv 2 := by
    have : (1073741824000 : Int).tdiv 2 = 536870912000 := rfl
    omega
  rw [if_neg hhalf]
  have hround : ((m : Int) + (250 : Int).tdiv 2).tdiv 250 = (m + 125) / 250 := by
    have : (250 : Int).tdiv 2 = 125 := rfl
    rw [this, Int.tdiv_eq_ediv_of_nonneg (by omega)]
  rw [if_pos ⟨by omega, by omega⟩]
  exact ⟨_, rfl⟩

section First

variable {fb next : TransportFeedback} {ok : Bool}

theorem addDeltaSize_accepts {deltaSize : DeltaSize} (short : fb.numSeqNo < kMaxReportedPackets)
    (small : fb.sizeBytes + deltaSize + kChunkSizeBytes ≤ kMaxSizeBytes)
    (h : fb.addDeltaSize deltaSize = some (ok, next)) : ok = true := by
  have hchunk : (if fb.lastChunk.isEmpty then kChunkSizeBytes else 0) ≤ kChunkSizeBytes := by
    split_ifs
    · exact le_rfl
    · exact Nat.zero_le _
  unfold addDeltaSize at h
  generalize (if fb.lastChunk.isEmpty then kChunkSizeBytes else 0) = addChunkSize at h hchunk
  rw [if_neg short.ne, if_neg (by omega)] at h
  split_ifs at h with hcan hroom
  · obtain ⟨_, -, heq⟩ := map_eq_some_iff.mp h
    cases heq
    rfl
  · omega
  · obtain ⟨_, -, h⟩ := bind_eq_some_iff.mp h
    obtain ⟨_, -, heq⟩ := map_eq_some_iff.mp h
    cases heq
    rfl

theorem addMissingPackets_accepts {numMissing : Nat} (fresh : fb.numSeqNo = 0)
    (empty : fb.lastChunk.isEmpty = true)
    (size : fb.sizeBytes = kTransportFeedbackHeaderSizeBytes) (short : numMissing < 2 ^ 15)
    (h : fb.addMissingPackets numMissing = some (ok, next)) :
    ok = true ∧ next.numSeqNo = numMissing ∧ next.sizeBytes ≤ 64 := by
  have hchunks : numMissing / kMaxRunLengthCapacity +
      (if numMissing % kMaxRunLengthCapacity > 0 then 1 else 0) ≤ 6 := by
    rw [kMaxRunLengthCapacity]
    split_ifs <;> omega
  unfold addMissingPackets addMissingRuns at h
  rw [fresh, Nat.zero_add, if_neg (by rw [kMaxReportedPackets]; omega), if_pos empty, if_pos empty,
    size, kTransportFeedbackHeaderSizeBytes, kChunkSizeBytes, kMaxSizeBytes] at h
  rw [if_neg (by omega)] at h
  obtain ⟨_, -, heq⟩ := map_eq_some_iff.mp h
  cases heq
  refine ⟨rfl, rfl, ?_⟩
  dsimp only
  omega

theorem isNewerSequenceNumber_of_ahead {value prevValue : BitVec 16}
    (ahead : 0 < (value - prevValue).toNat) (near : (value - prevValue).toNat < 0x8000) :
    isNewerSequenceNumber value prevValue = true := by
  have hne : value ≠ prevValue := by
    rintro rfl
    rw [BitVec.sub_self] at ahead
    exact absurd ahead (by decide)
  have hhalf : (value.toNat : Int) - prevValue.toNat ≠ 0x8000 := by
    intro heq
    have := BitVec.toNat_sub_of_le (x := value) (y := prevValue)
      (BitVec.le_def.mpr (by omega))
    omega
  rw [isNewerSequenceNumber, if_neg hhalf, decide_eq_true near, Bool.and_true]
  exact bne_iff_ne.mpr hne

theorem addReceivedPacket_base {pieces : List (Nat × List DeltaSize)} {last : List DeltaSize}
    (h : Built fb pieces last) (fresh : fb.numSeqNo = 0) (empty : fb.lastChunk.isEmpty = true)
    (size : fb.sizeBytes = kTransportFeedbackHeaderSizeBytes) {timestamp : Nat}
    (time : fb.lastTimestamp = kTimeWrapPeriod +
      (timestamp % kTimeWrapPeriod.toNat / kBaseTimeTick.toNat : Nat) * kBaseTimeTick)
    {gap : Nat} (near : gap ≤ 0x7FFE) :
    ∃ next, fb.addReceivedPacket (fb.baseSeqNo + BitVec.ofNat 16 gap) timestamp =
      some (true, next) := by
  obtain ⟨⟨ok, next⟩, hadd, -⟩ :=
    addReceivedPacket_built h (fb.baseSeqNo + BitVec.ofNat 16 gap) timestamp
  refine ⟨next, hadd.trans ?_⟩
  obtain ⟨delta, hdelta⟩ : ∃ delta, (if fb.includeTimestamps = true then
      ticksSince fb.lastTimestamp timestamp else some 0) = some delta := by
    rw [time]
    split_ifs
    · exact ticksSince_base timestamp
    · exact ⟨0, rfl⟩
  unfold addReceivedPacket at hadd
  rw [hdelta, fresh] at hadd
  obtain ⟨⟨ok', mid⟩, hmid, hrest⟩ := bind_eq_some_iff.mp hadd
  have hgap : ok' = true ∧ mid.numSeqNo ≤ 0x7FFE ∧ mid.sizeBytes ≤ 64 := by
    have hnext : fb.baseSeqNo + BitVec.ofNat 16 gap -
        (fb.baseSeqNo + BitVec.ofNat 16 0) = BitVec.ofNat 16 gap := by
      rw [add_sub_add_left_eq_sub]
      exact BitVec.sub_zero _
    have hlast : fb.baseSeqNo + BitVec.ofNat 16 gap -
        (fb.baseSeqNo + BitVec.ofNat 16 0 - 1) = BitVec.ofNat 16 (gap + 1) := by
      rw [sub_sub_eq_add_sub, add_sub_right_comm, hnext, BitVec.ofNat_add]
      rfl
    have hnewer : isNewerSequenceNumber (fb.baseSeqNo + BitVec.ofNat 16 gap)
        (fb.baseSeqNo + BitVec.ofNat 16 0 - 1) = true := by
      apply isNewerSequenceNumber_of_ahead
      all_goals
        rw [hlast, BitVec.toNat_ofNat]
        omega
    split_ifs at hmid with hsame
    · cases hmid
      refine ⟨rfl, by omega, ?_⟩
      rw [size]
      decide
    · rw [hnext, BitVec.toNat_ofNat] at hmid
      obtain ⟨hok, hcount, hsize⟩ :=
        addMissingPackets_accepts fresh empty size (by omega) hmid
      exact ⟨hok, by omega, hsize⟩
  obtain ⟨rfl, hcount, hsize⟩ := hgap
  obtain ⟨⟨ok'', full⟩, hfull, heq⟩ := map_eq_some_iff.mp hrest
  have hroom : mid.sizeBytes + deltaSizeOf delta + kChunkSizeBytes ≤ kMaxSizeBytes :=
    (Nat.add_le_add_right (Nat.add_le_add hsize (deltaSizeOf_le delta)) _).trans (by decide)
  obtain rfl := addDeltaSize_accepts (by rw [kMaxReportedPackets]; omega) hroom hfull
  cases heq
  rfl

end First

/-- Like `Matches`, but a two-byte status goes with any delta, and status 3 counts as received. -/
inductive Accounted : BitVec 16 → List DeltaSize → List ReceivedPacket → Prop
  | nil (seqNo : BitVec 16) : Accounted seqNo [] []
  | missing {seqNo : BitVec 16} {sizes : List DeltaSize} {packets : List ReceivedPacket} :
      Accounted (seqNo + 1) sizes packets → Accounted seqNo (0 :: sizes) packets
  | received {seqNo : BitVec 16} {sizes : List DeltaSize} {packets : List ReceivedPacket}
      (deltaSize : DeltaSize) (delta : Int) : 0 < deltaSize →
      (deltaSize = 1 → 0 ≤ delta ∧ delta ≤ 0xff) → Accounted (seqNo + 1) sizes packets →
      Accounted seqNo (deltaSize :: sizes) (⟨seqNo, delta⟩ :: packets)

theorem Matches.accounted (h : Matches seqNo sizes packets) : Accounted seqNo sizes packets := by
  induction h with
  | nil seqNo => exact .nil seqNo
  | missing _ ih => exact .missing ih
  | received delta _ _ _ ih =>
    refine .received _ delta (deltaSizeOf_pos delta) (fun hone => ?_) ih
    unfold deltaSizeOf at hone
    split at hone
    · assumption
    · cases hone

theorem checkDeltas_accounted (includeTimestamps : Bool) (h : Accounted seqNo sizes packets)
    (timestamp : Int) (packetSize : Nat) :
    checkDeltas includeTimestamps seqNo timestamp packetSize packets sizes =
      some (timestamp + deltaSum packets,
        packetSize + (if includeTimestamps then sizes.sum else 0), []) := by
  induction h generalizing timestamp packetSize with
  | nil seqNo => cases includeTimestamps <;> simp [checkDeltas, deltaSum]
  | missing _ ih =>
    rw [checkDeltas.eq_def]
    dsimp only
    rw [ih]
    cases includeTimestamps <;> simp
  | received deltaSize delta hpos hone _ ih =>
    have hfits : ¬ (deltaSize = 1 ∧ (delta < 0 ∨ delta > 0xff)) := by
      rintro ⟨h1, h2⟩
      have := hone h1
      omega
    rw [checkDeltas, if_pos hpos]
    rw [if_neg hfits, ih]
    cases includeTimestamps <;> simp [deltaSum, add_assoc]

theorem decodeChunks_eq (decoder : LastChunk) (chunks : List Nat) : decodeChunks decoder chunks =
      chunks.flatMap fun chunk => symbols chunk kMaxReportedPackets := by
  induction chunks generalizing decoder with
  | nil => rfl
  | cons chunk chunks ih =>
    rw [decodeChunks, ih, appendTo_decode, flatMap_cons]

theorem isConsistent_iff
    (hsizes : (fb.encodedChunks.flatMap fun chunk => symbols chunk kMaxReportedPackets)
      ++ (if fb.lastChunk.isEmpty then [] else fb.lastChunk.appendTo) = sizes)
    (hcount : fb.numSeqNo = sizes.length)
    (haccounted : Accounted fb.baseSeqNo sizes fb.receivedPackets) :
    fb.isConsistent = true ↔ fb.baseTime + deltaSum fb.receivedPackets = fb.lastTimestamp ∧
      fb.sizeBytes = kTransportFeedbackHeaderSizeBytes + kChunkSizeBytes * fb.encodedChunks.length +
        (if fb.lastChunk.isEmpty then 0 else kChunkSizeBytes) +
        (if fb.includeTimestamps then sizes.sum else 0) := by
  unfold isConsistent
  rw [decodeChunks_eq, hsizes, if_neg (not_not.mpr hcount), checkDeltas_accounted _ haccounted]
  simp

theorem flatMap_symbols (hencodes : ∀ piece ∈ pieces, Encodes piece.1 piece.2 ∧ piece.2 ≠ [])
    (hbound : (pieces.flatMap Prod.snd).length ≤ kMaxReportedPackets) :
    ((pieces.map Prod.fst).flatMap fun chunk => symbols chunk kMaxReportedPackets) =
      pieces.flatMap Prod.snd := by
  induction pieces with
  | nil => rfl
  | cons piece pieces ih =>
    rw [flatMap_cons, length_append] at hbound
    have hpiece := (hencodes piece mem_cons_self).1.read kMaxReportedPackets (by omega)
    rw [map_cons, flatMap_cons, flatMap_cons, hpiece,
      ih ((forall_mem_cons.mp hencodes).2) (by omega)]

theorem Built.isConsistent (h : Built fb pieces last) : fb.isConsistent = true := by
  have hlast := isEmpty_iff h.packed.lastChunk
  have hcount := h.packed.count
  have hbound := h.packed.bounded
  have hlength : (pieces.flatMap Prod.snd).length ≤ kMaxReportedPackets := by
    rw [hcount, statuses, length_append] at hbound
    omega
  have hsizes : (fb.encodedChunks.flatMap fun chunk =>
      symbols chunk kMaxReportedPackets) ++
      (if fb.lastChunk.isEmpty then [] else fb.lastChunk.appendTo) = statuses pieces last := by
    rw [h.packed.chunks, flatMap_symbols h.packed.encodes hlength,
      appendTo_eq h.packed.lastChunk, statuses]
    by_cases hempty : last = []
    · rw [if_pos (hlast.mpr hempty), hempty]
    · rw [if_neg fun he => hempty (hlast.mp he)]
  refine (isConsistent_iff hsizes hcount h.received.accounted).mpr ⟨h.time.symm, ?_⟩
  rw [h.packed.size, chunkSize, h.packed.chunks, length_map]
  by_cases hempty : last = []
  · rw [if_pos hempty, if_pos (hlast.mpr hempty)]
    omega
  · rw [if_neg hempty, if_neg fun he => hempty (hlast.mp he)]
    omega

end TransportFeedback

end Rtcp
