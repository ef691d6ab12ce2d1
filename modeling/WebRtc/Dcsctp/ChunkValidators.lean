import WebRtc.Dcsctp.Types
import WebRtc.Lib.OrdMap

/-!
# Cleaning SACKs

Model of `ChunkValidators` (`net/dcsctp/packet/chunk_validators.cc`).
-/

namespace Dcsctp

open List

namespace ChunkValidators

def validateFrom : Nat → List GapAckBlock → Bool
  | _, [] => true
  | prevEnd, block :: rest =>
    !(block.last < block.start) && !(block.start.toNat ≤ prevEnd + 1) &&
      validateFrom block.last.toNat rest

def validate (sack : SackChunk) : Bool := validateFrom 0 sack.gapAckBlocks

/-- The loop of `Clean` that merges blocks in the order of their starts. -/
def mergeFrom (merged : GapAckBlock) : List GapAckBlock → List GapAckBlock
  | [] => [merged]
  | block :: rest =>
    if block.start.toNat ≤ merged.last.toNat + 1 then
      mergeFrom { merged with last := max merged.last block.last } rest
    else merged :: mergeFrom block rest

def mergeBlocks : List GapAckBlock → List GapAckBlock
  | [] => []
  | first :: rest => mergeFrom first rest

def clean (sack : SackChunk) : SackChunk :=
  if validate sack then sack
  else
    let sane := sack.gapAckBlocks.filter fun block => block.start < block.last
    { sack with gapAckBlocks := mergeBlocks (sane.insertionSort fun a b => a.start ≤ b.start) }

/-- No block ends before it starts, and each ends before the next one starts. -/
def Ordered : List GapAckBlock → Prop
  | [] => True
  | block :: rest =>
    block.start.toNat ≤ block.last.toNat ∧
      (∀ later ∈ rest, block.last.toNat < later.start.toNat) ∧ Ordered rest

theorem Ordered.start_le_last {blocks : List GapAckBlock} (h : Ordered blocks) :
    ∀ block ∈ blocks, block.start.toNat ≤ block.last.toNat := by
  induction blocks with
  | nil => exact fun _ hmem => absurd hmem not_mem_nil
  | cons first rest ih =>
    obtain ⟨hends, -, hrest⟩ := h
    intro block hmem
    rcases mem_cons.mp hmem with rfl | hmem
    · exact hends
    · exact ih hrest block hmem

theorem ordered_of_validateFrom :
    ∀ {blocks : List GapAckBlock} {prevEnd : Nat}, validateFrom prevEnd blocks = true →
      Ordered blocks ∧ ∀ block ∈ blocks, prevEnd + 1 < block.start.toNat := by
  intro blocks
  induction blocks with
  | nil => exact fun _ => ⟨trivial, fun _ h => by cases h⟩
  | cons block rest ih =>
    intro prevEnd hvalid
    simp only [validateFrom, Bool.and_eq_true, Bool.not_eq_true', decide_eq_false_iff_not,
      not_lt, not_le] at hvalid
    obtain ⟨⟨hends, hstart⟩, hrest⟩ := hvalid
    obtain ⟨hordered, hlater⟩ := ih hrest
    have hends' : block.start.toNat ≤ block.last.toNat := hends
    refine ⟨⟨hends', fun later hmem => (Nat.lt_succ_self _).trans (hlater later hmem), hordered⟩, ?_⟩
    rintro other (_ | ⟨_, hmem⟩)
    · exact hstart
    · have := hlater other hmem
      omega

/-- An offset lies in one of the blocks. A block that ends before it starts covers nothing. -/
def Covers (blocks : List GapAckBlock) (offset : Nat) : Prop :=
  ∃ block ∈ blocks, block.start.toNat ≤ offset ∧ offset ≤ block.last.toNat

theorem covers_cons {block : GapAckBlock} {rest : List GapAckBlock} {offset : Nat} :
    Covers (block :: rest) offset ↔
      (block.start.toNat ≤ offset ∧ offset ≤ block.last.toNat) ∨ Covers rest offset := by
  simp [Covers]

theorem mergeFrom_spec : ∀ {blocks : List GapAckBlock} {merged : GapAckBlock},
      (merged :: blocks).Pairwise (fun a b => a.start ≤ b.start) →
      (∀ block ∈ merged :: blocks, block.start ≤ block.last) →
      ∃ last rest, mergeFrom merged blocks = ⟨merged.start, last⟩ :: rest ∧ merged.start ≤ last ∧
        validateFrom last.toNat rest = true ∧
        ∀ offset, Covers (mergeFrom merged blocks) offset ↔ Covers (merged :: blocks) offset := by
  intro blocks
  induction blocks with
  | nil =>
    intro merged _ hends
    exact ⟨merged.last, [], rfl, hends merged mem_cons_self, rfl, fun _ => Iff.rfl⟩
  | cons block rest ih =>
    intro merged hsorted hends
    obtain ⟨hfirst, htail⟩ := pairwise_cons.mp hsorted
    have hmerged := hends merged mem_cons_self
    have hstart := BitVec.le_def.mp (hfirst block mem_cons_self)
    rw [mergeFrom]
    split_ifs with hjoin
    · have hmax := le_max_left merged.last block.last
      obtain ⟨last, tail, heq, hle, hvalid, hcovers⟩ := @ih ⟨merged.start, max merged.last block.last⟩
        (pairwise_cons.mpr ⟨(forall_mem_cons.mp hfirst).2, (pairwise_cons.mp htail).2⟩) (by
        rintro b (_ | ⟨_, hb⟩)
        · exact hmerged.trans hmax
        · exact hends b (mem_cons_of_mem _ (mem_cons_of_mem _ hb)))
      refine ⟨last, tail, heq, hle, hvalid, fun offset => ?_⟩
      rw [hcovers, covers_cons, covers_cons, covers_cons, ← or_assoc]
      refine or_congr_left ?_
      have hblock := BitVec.le_def.mp (hends block (mem_cons_of_mem _ mem_cons_self))
      have hends' := BitVec.le_def.mp hmerged
      rcases le_total merged.last block.last with hle | hle
      · rw [max_eq_right hle]
        have := BitVec.le_def.mp hle
        dsimp only
        omega
      · rw [max_eq_left hle]
        have := BitVec.le_def.mp hle
        dsimp only
        omega
    · obtain ⟨last, tail, heq, hle, hvalid, hcovers⟩ :=
        ih htail (forall_mem_cons.mp hends).2
      refine ⟨merged.last, mergeFrom block rest, rfl, hmerged, ?_, fun offset => ?_⟩
      · simp [heq, validateFrom, hvalid, hle, Nat.not_le.mp hjoin]
      · rw [covers_cons, hcovers, ← covers_cons]

theorem mergeBlocks_spec {blocks : List GapAckBlock}
    (hsorted : blocks.Pairwise fun a b => a.start ≤ b.start)
    (hends : ∀ block ∈ blocks, block.start ≤ block.last) :
    Ordered (mergeBlocks blocks) ∧
      ((∀ block ∈ blocks, 1 < block.start.toNat) → validateFrom 0 (mergeBlocks blocks) = true) ∧
      ∀ offset, Covers (mergeBlocks blocks) offset ↔ Covers blocks offset := by
  cases blocks with
  | nil => exact ⟨trivial, fun _ => rfl, fun _ => Iff.rfl⟩
  | cons first rest =>
    obtain ⟨last, tail, heq, hle, hvalid, hcovers⟩ := mergeFrom_spec hsorted hends
    obtain ⟨hordered, hlater⟩ := ordered_of_validateFrom hvalid
    rw [mergeBlocks]
    refine ⟨?_, fun hstart => ?_, hcovers⟩
    · rw [heq]
      exact ⟨hle, fun later hmem => (Nat.lt_succ_self _).trans (hlater later hmem), hordered⟩
    · simp [heq, validateFrom, hle, hvalid, hstart first mem_cons_self]

theorem clean_eq {sack : SackChunk} (h : ¬ validate sack = true) :
    ∃ blocks, clean sack = { sack with gapAckBlocks := mergeBlocks blocks } ∧
      (∀ block, block ∈ blocks ↔ block ∈ sack.gapAckBlocks ∧ block.start < block.last) ∧
      blocks.Pairwise fun a b => a.start ≤ b.start := by
  refine ⟨_, if_neg h, fun block => ?_, pairwise_insertionSort _ _⟩
  rw [mem_insertionSort, mem_filter, decide_eq_true_eq]

theorem ordered_clean (sack : SackChunk) : Ordered (clean sack).gapAckBlocks := by
  by_cases hvalid : validate sack = true
  · rw [clean, if_pos hvalid]
    exact (ordered_of_validateFrom hvalid).1
  · obtain ⟨blocks, heq, hmem, hsorted⟩ := clean_eq hvalid
    rw [heq]
    exact (mergeBlocks_spec hsorted fun block hblock => ((hmem block).mp hblock).2.le).1

theorem covers_clean {sack : SackChunk} (h : ¬ validate sack = true) (offset : Nat) :
    Covers (clean sack).gapAckBlocks offset ↔ ∃ block ∈ sack.gapAckBlocks,
      block.start < block.last ∧ block.start.toNat ≤ offset ∧ offset ≤ block.last.toNat := by
  obtain ⟨blocks, heq, hmem, hsorted⟩ := clean_eq h
  rw [heq, (mergeBlocks_spec hsorted fun block hblock => ((hmem block).mp hblock).2.le).2.2]
  refine exists_congr fun block => ?_
  rw [hmem block, and_assoc]

/-- The blocks of several TSNs start past the first TSN and cover the blocks of one TSN that do. -/
def Cleanable (blocks : List GapAckBlock) : Prop :=
  ∀ block ∈ blocks, (block.start < block.last → 1 < block.start.toNat) ∧
    (block.start = block.last → 1 < block.start.toNat →
      ∃ other ∈ blocks, other.start < other.last ∧ other.start ≤ block.start ∧
        block.start ≤ other.last)

theorem Cleanable.covers_iff {blocks : List GapAckBlock} (h : Cleanable blocks) (offset : Nat) :
    (∃ block ∈ blocks, block.start < block.last ∧ block.start.toNat ≤ offset ∧
      offset ≤ block.last.toNat) ↔ 2 ≤ offset ∧ Covers blocks offset := by
  constructor
  · rintro ⟨block, hmem, hlt, hfrom, hto⟩
    exact ⟨((h block hmem).1 hlt).trans_le hfrom, block, hmem, hfrom, hto⟩
  · rintro ⟨hpast, block, hmem, hfrom, hto⟩
    rcases (BitVec.le_def.mpr (hfrom.trans hto)).lt_or_eq with hlt | heq
    · exact ⟨block, hmem, hlt, hfrom, hto⟩
    · obtain rfl : block.start.toNat = offset := le_antisymm hfrom (heq ▸ hto)
      obtain ⟨other, hother, hlt, hstart, hend⟩ := (h block hmem).2 heq hpast
      exact ⟨other, hother, hlt, hstart, hend⟩

/-- Cleaning gives a valid SACK for the same TSNs exactly if the SACK is valid or can be cleaned. -/
theorem clean_lossless (sack : SackChunk) : validate sack = true ∨ Cleanable sack.gapAckBlocks ↔
    validate (clean sack) = true ∧ (∀ offset, Covers (clean sack).gapAckBlocks offset ↔
        2 ≤ offset ∧ Covers sack.gapAckBlocks offset) ∧ clean (clean sack) = clean sack := by
  by_cases hvalid : validate sack = true
  · have hclean : clean sack = sack := if_pos hvalid
    rw [hclean]
    refine iff_of_true (.inl hvalid) ⟨hvalid, fun offset => (and_iff_right_of_imp ?_).symm, hclean⟩
    rintro ⟨block, hmem, hfrom, -⟩
    exact ((ordered_of_validateFrom hvalid).2 block hmem).trans_le hfrom
  · simp only [hvalid, Bool.false_eq_true, false_or, covers_clean hvalid]
    constructor
    · intro h
      have hclean : validate (clean sack) = true := by
        obtain ⟨blocks, heq, hmem, hsorted⟩ := clean_eq hvalid
        rw [heq]
        refine (mergeBlocks_spec hsorted fun block hblock =>
          ((hmem block).mp hblock).2.le).2.1 fun block hblock => ?_
        obtain ⟨hin, hlt⟩ := (hmem block).mp hblock
        exact (h block hin).1 hlt
      exact ⟨hclean, h.covers_iff, if_pos hclean⟩
    · rintro ⟨-, hcovers, -⟩ block hmem
      refine ⟨fun hlt => ?_, fun heq hpast => ?_⟩
      · exact ((hcovers block.start.toNat).mp ⟨block, hmem, hlt, le_rfl, BitVec.le_def.mp hlt.le⟩).1
      · obtain ⟨other, hother, hlt, hstart, hend⟩ := (hcovers block.start.toNat).mpr
          ⟨hpast, block, hmem, le_rfl, (congrArg BitVec.toNat heq).le⟩
        exact ⟨other, hother, hlt, hstart, hend⟩

/-- A block that reaches back to the first TSN stays, and blocks of one TSN out of order are
lost. -/
theorem clean_not_lossless : validate (clean ⟨0, 0, [⟨1, 3⟩], ∅⟩) = false ∧
      (clean ⟨0, 0, [⟨5, 5⟩, ⟨3, 3⟩], ∅⟩).gapAckBlocks = [] := by
  decide

end ChunkValidators

end Dcsctp
