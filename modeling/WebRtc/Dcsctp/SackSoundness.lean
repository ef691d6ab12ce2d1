import WebRtc.Dcsctp.ChunkValidators
import WebRtc.Dcsctp.DataTracker

/-!
# What a SACK says was received

The gap ack blocks of a SACK cover only TSNs that were observed, as long as no reported
block ends more than 65535 above the last cumulative acked TSN. TSNs up to 100000 above it
are accepted, and past 65535 the 16-bit offsets name other TSNs.
-/

namespace Dcsctp

open SequenceNumbers Wrapping

/-- The TSNs that the gap ack blocks of a SACK acknowledge. -/
def SackChunk.Covers (sack : SackChunk) (tsn : TSN) : Prop :=
  ∃ block ∈ sack.gapAckBlocks, ∃ offset : Nat,
    block.start.toNat ≤ offset ∧ offset ≤ block.last.toNat ∧
      tsn = sack.cumulativeTsnAck + BitVec.ofNat 32 offset

namespace DataTracker

inductive Call where
  | observe (tsn : TSN) (immediateAck : Bool)
  | handleForwardTsn (newCumulativeAck : TSN)
  | createSelectiveAck (aRwnd : Nat)

def perform (d : DataTracker) : Call → DataTracker
  | .observe tsn immediateAck => (d.observe tsn immediateAck).2
  | .handleForwardTsn newCumulativeAck => (d.handleForwardTsn newCumulativeAck).2
  | .createSelectiveAck aRwnd => (d.createSelectiveAck aRwnd).2

def after (peerInitialTsn : TSN) (calls : List Call) : DataTracker :=
  calls.foldl perform (initial peerInitialTsn)

theorem covered_of_covered {d d' : DataTracker} {new : Int → Prop}
    (grows : ∀ x, d'.Received x ↔ d.Received x ∨ new x)
    {x : Int} (covered : Ranges.Covered x d'.additionalTsnBlocks) :
    Ranges.Covered x d.additionalTsnBlocks ∨ new x := by
  have hmono := lastCumulativeAckedTsn_mono fun y hy => (grows y).mpr (Or.inl hy)
  have habove := d'.blocksAbove.lt_of_covered covered
  rcases (grows x).mp (Or.inr covered) with (h | h) | h
  · omega
  · exact Or.inl h
  · exact Or.inr h

theorem observed_of_covered (peerInitialTsn : TSN) (calls : List Call) :
    ∀ x, Ranges.Covered x (after peerInitialTsn calls).additionalTsnBlocks →
      ∃ immediateAck, Call.observe (wrap 32 x) immediateAck ∈ calls := by
  induction calls using List.reverseRecOn with
  | nil => exact fun x h => absurd h (Ranges.covered_nil x)
  | append_singleton calls call ih =>
    intro x hcovered
    rw [after, List.foldl_concat] at hcovered
    have hearlier : Ranges.Covered x (after peerInitialTsn calls).additionalTsnBlocks →
        ∃ immediateAck, Call.observe (wrap 32 x) immediateAck ∈ calls ++ [call] := by
      intro h
      obtain ⟨flag, hmem⟩ := ih x h
      exact ⟨flag, List.mem_append_left _ hmem⟩
    cases call with
    | observe tsn immediateAck =>
      rcases covered_of_covered ((after peerInitialTsn calls).observe_spec tsn immediateAck).2.1
        hcovered with h | rfl
      · exact hearlier h
      · rw [SeqNumUnwrapper.wrap_peekUnwrap]
        exact ⟨immediateAck, List.mem_append_right _ (List.mem_singleton_self _)⟩
    | handleForwardTsn tsn =>
      have grows := ((after peerInitialTsn calls).handleForwardTsn_spec tsn).1
      rcases covered_of_covered grows hcovered with h | h
      · exact hearlier h
      · -- everything up to the forwarded TSN is below the blocks
        have habove := ((after peerInitialTsn calls).handleForwardTsn tsn).2.blocksAbove
        have hbound := habove.le_bound fun y hy => (grows y).mpr (Or.inr hy)
        have hlow := habove.lt_of_covered hcovered
        omega
    | createSelectiveAck aRwnd => exact hearlier hcovered

/-- The reported blocks fit into 16-bit offsets. -/
def ReportsInRange (d : DataTracker) : Prop :=
  ∀ block ∈ d.additionalTsnBlocks.take kMaxGapAckBlocksReported,
    block.last ≤ d.lastCumulativeAckedTsn + 65535

theorem toNat_ofNat_difference {tsn cumulative : Int} (above : cumulative < tsn)
    (near : tsn ≤ cumulative + 65535) :
    ((BitVec.ofNat 16 (difference 32 tsn cumulative)).toNat : Int) = tsn - cumulative := by
  have hbelow : tsn < cumulative + 2 ^ 32 := by omega
  have hdiff := difference_of_lt_turn hbelow (by omega)
  rw [abs_of_pos (by omega)] at hdiff
  rw [BitVec.toNat_ofNat, Nat.mod_eq_of_lt (by omega), hdiff]

theorem covered_of_covers {d : DataTracker} (inRange : d.ReportsInRange) {aRwnd : Nat} {tsn : TSN}
    (covers : (d.createSelectiveAck aRwnd).1.Covers tsn) :
    ∃ x, Ranges.Covered x d.additionalTsnBlocks ∧ wrap 32 x = tsn := by
  obtain ⟨gap, hgap, offset, hstart, hlast, rfl⟩ := covers
  obtain ⟨block, hblock, rfl⟩ := List.mem_map.mp hgap
  have hmem := List.mem_of_mem_take hblock
  have hnear := inRange block hblock
  have hne := d.blocksAbove.first_le_last block hmem
  have habove := d.blocksAbove.lt_of_covered ⟨block, hmem, le_rfl, hne⟩
  have hfirst := toNat_ofNat_difference (lt_trans (Int.lt_succ _) habove) (hne.trans hnear)
  have hend := toNat_ofNat_difference (lt_trans (Int.lt_succ _) (habove.trans_le hne)) hnear
  dsimp only [gapAckBlock] at hstart hlast
  refine ⟨d.lastCumulativeAckedTsn + offset, ⟨block, hmem, by omega, by omega⟩, ?_⟩
  rw [wrap_add]
  rfl

/-- In every run, a SACK whose blocks fit into 16-bit offsets acknowledges in them only observed
TSNs. -/
theorem covers_only_observed (peerInitialTsn : TSN) (calls : List Call)
    (inRange : (after peerInitialTsn calls).ReportsInRange) (aRwnd : Nat) (tsn : TSN)
    (covers : ((after peerInitialTsn calls).createSelectiveAck aRwnd).1.Covers tsn) :
    ∃ immediateAck, Call.observe tsn immediateAck ∈ calls := by
  obtain ⟨x, hcovered, rfl⟩ := covered_of_covers inRange covers
  exact observed_of_covered peerInitialTsn calls x hcovered

def afterGap (tsn : TSN) : DataTracker := after 1 [.observe tsn false]

theorem covers_only_observed_afterGap : (afterGap 3).createGapAckBlocks = [⟨3, 3⟩] ∧
    ∃ immediateAck, Call.observe 3 immediateAck ∈ [Call.observe 3 false] := by
  refine ⟨by decide +kernel, covers_only_observed 1 _ ?_ 0 3 ?_⟩
  · have hblocks : (afterGap 3).additionalTsnBlocks = [⟨3, 3⟩] := by decide +kernel
    rintro block hblock
    rw [List.mem_singleton.mp hblock]
    decide
  · exact ⟨⟨3, 3⟩, by decide +kernel, 3, by decide, by decide, by decide +kernel⟩

/-- TSN 70000 is accepted as the first one, and the SACK acknowledges TSN 4464. -/
theorem covers_unobserved_tsn : (initial 1).isTSNValid 70000 = true ∧
    (afterGap 70000).createGapAckBlocks = [⟨4464, 4464⟩] ∧
    ((afterGap 70000).createSelectiveAck 0).1.Covers 4464 ∧
    (¬ ∃ immediateAck, Call.observe 4464 immediateAck ∈ [Call.observe 70000 false]) ∧
    ¬ ∃ tsn, Call.handleForwardTsn tsn ∈ [Call.observe 70000 false] := by
  refine ⟨by decide +kernel, by decide +kernel, ?_, ?_, ?_⟩
  · exact ⟨⟨4464, 4464⟩, by decide +kernel, 4464, by decide, by decide, by decide +kernel⟩
  · rintro ⟨flag, hmem⟩
    simp at hmem
  · rintro ⟨tsn, hmem⟩
    simp at hmem

theorem validateFrom_blocks {d : DataTracker} {blocks : List Range} (prevEnd n : Nat)
    (above : Ranges.Above (d.lastCumulativeAckedTsn + prevEnd) blocks)
    (near : ∀ block ∈ blocks.take n, block.last ≤ d.lastCumulativeAckedTsn + 65535) :
    ChunkValidators.validateFrom prevEnd ((blocks.take n).map d.gapAckBlock) = true := by
  induction blocks generalizing prevEnd n with
  | nil =>
    rw [List.take_nil]
    rfl
  | cons block rest ih =>
    cases n with
    | zero => rfl
    | succ n =>
      obtain ⟨hfirst, hends, hrest⟩ := above
      obtain ⟨hlast, hnear⟩ := List.forall_mem_cons.mp near
      have hstart := toNat_ofNat_difference (show d.lastCumulativeAckedTsn < block.first by omega)
        (hends.trans hlast)
      have hend := toNat_ofNat_difference (show d.lastCumulativeAckedTsn < block.last by omega) hlast
      have hvalid := ih (d.gapAckBlock block).last.toNat n
        (by rwa [gapAckBlock, hend, add_sub_cancel]) hnear
      rw [List.take_succ_cons, List.map_cons, ChunkValidators.validateFrom, hvalid]
      simp only [gapAckBlock, BitVec.lt_def, Bool.and_true, Bool.and_eq_true, Bool.not_eq_true',
        decide_eq_false_iff_not]
      exact ⟨by omega, decide_eq_false (by omega)⟩

/-- The peer does not find anything to clean in a SACK whose blocks fit into 16-bit offsets. -/
theorem clean_createSelectiveAck (d : DataTracker) (inRange : d.ReportsInRange) (aRwnd : Nat) :
    ChunkValidators.clean (d.createSelectiveAck aRwnd).1 = (d.createSelectiveAck aRwnd).1 :=
  if_pos (validateFrom_blocks 0 _ (by simpa using d.blocksAbove) inRange)

theorem clean_createSelectiveAck_afterGap :
    ChunkValidators.clean ((afterGap 3).createSelectiveAck 0).1 =
      ((afterGap 3).createSelectiveAck 0).1 := by
  refine clean_createSelectiveAck _ (fun block hblock => ?_) 0
  rw [List.mem_singleton.mp hblock]
  decide

end DataTracker

end Dcsctp
