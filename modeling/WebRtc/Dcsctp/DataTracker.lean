import WebRtc.Dcsctp.Types
import WebRtc.Lib.Ranges
import WebRtc.SequenceNumbers

/-!
# Tracking received TSNs

Model of `DataTracker` (`net/dcsctp/rx/data_tracker.cc`): the last cumulatively
acknowledged TSN, the blocks of TSNs received past it, and what a SACK says of them.
`AdditionalTsnBlocks` is a list of ranges, with `Add` and `EraseTo` as in the library.
-/

namespace Dcsctp

open SequenceNumbers Wrapping

inductive DataTracker.AckState where
  | idle
  | becomingDelayed
  | delayed
  | immediate
deriving DecidableEq, Repr

/-- By `blocksAbove` the blocks are ordered and apart, also from the last cumulative acked TSN. -/
structure DataTracker where
  seenPacket : Bool
  ackState : DataTracker.AckState
  delayedAckTimerRunning : Bool
  tsnUnwrapper : SeqNumUnwrapper 32
  lastCumulativeAckedTsn : Int
  additionalTsnBlocks : List Range
  duplicateTsns : Finset TSN
  blocksAbove : Ranges.Above lastCumulativeAckedTsn additionalTsnBlocks

namespace DataTracker

def kMaxDuplicateTsnReported : Nat := 20

def kMaxGapAckBlocksReported : Nat := 20

def kMaxAcceptedOutstandingFragments : Nat := 100000

def initial (peerInitialTsn : TSN) : DataTracker where
  seenPacket := false
  ackState := .idle
  delayedAckTimerRunning := false
  tsnUnwrapper := (SeqNumUnwrapper.initial.unwrap (peerInitialTsn - 1)).2
  lastCumulativeAckedTsn := (SeqNumUnwrapper.initial.unwrap (peerInitialTsn - 1)).1
  additionalTsnBlocks := []
  duplicateTsns := ∅
  blocksAbove := trivial

variable (d : DataTracker)

def updateAckState (newState : AckState) : DataTracker :=
  if newState = d.ackState then d
  else
    { d with
      delayedAckTimerRunning :=
        if d.ackState = .delayed then false
        else if newState = .delayed then true
        else d.delayedAckTimerRunning
      ackState := newState }

def isTSNValid (tsn : TSN) : Bool :=
  difference 32 (d.tsnUnwrapper.peekUnwrap tsn) d.lastCumulativeAckedTsn ≤
    kMaxAcceptedOutstandingFragments

def insertDuplicate (tsn : TSN) : DataTracker :=
  { d with
    duplicateTsns :=
      if d.duplicateTsns.card < kMaxDuplicateTsnReported then insert tsn d.duplicateTsns
      else d.duplicateTsns }

/-- The next TSN arrives: the cumulative TSN moves to it, and over the first block if that
closes the gap. -/
def advance : DataTracker :=
  { d with
    lastCumulativeAckedTsn :=
      (Ranges.absorb (d.lastCumulativeAckedTsn + 1) d.additionalTsnBlocks).1
    additionalTsnBlocks :=
      (Ranges.absorb (d.lastCumulativeAckedTsn + 1) d.additionalTsnBlocks).2
    blocksAbove := (Ranges.absorb_next d.blocksAbove).1 }

/-- A TSN past a gap arrives; the result says whether it is new. -/
def addToBlocks (tsn : Int) (gap : d.lastCumulativeAckedTsn + 1 < tsn) : Bool × DataTracker :=
  ((Ranges.add tsn d.additionalTsnBlocks).1, { d with
      additionalTsnBlocks := (Ranges.add tsn d.additionalTsnBlocks).2
      blocksAbove := (Ranges.add_spec tsn d.additionalTsnBlocks d.blocksAbove gap).1 })

/-- The part of `Observe` that records the TSN; the result says whether it was a duplicate. -/
def recordTsn (tsn : TSN) (unwrappedTsn : Int) : Bool × DataTracker :=
  if old : unwrappedTsn ≤ d.lastCumulativeAckedTsn then
    (true, (d.insertDuplicate tsn).updateAckState .immediate)
  else if next : unwrappedTsn = d.lastCumulativeAckedTsn + 1 then (false, d.advance)
  else
    let inserted := d.addToBlocks unwrappedTsn (by omega)
    if inserted.1 then (false, inserted.2) else (true, inserted.2.insertDuplicate tsn)

/-- The end of `Observe` and of `HandleForwardTsn`: every second packet is acknowledged. -/
def delayAck : DataTracker :=
  if d.ackState = .idle then d.updateAckState .becomingDelayed
  else if d.ackState = .delayed then d.updateAckState .immediate
  else d

def ackImmediatelyIf (condition : Bool) : DataTracker :=
  if condition then d.updateAckState .immediate else d

def markSeen : DataTracker :=
  if d.seenPacket then d else { d with seenPacket := true }.updateAckState .immediate

/-- When `Observe` sends a SACK: at once after a loss, when the sender asks for it and for the first
packet. -/
def noteData (immediateAck : Bool) : DataTracker :=
  ((d.ackImmediatelyIf (d.additionalTsnBlocks ≠ [])).ackImmediatelyIf immediateAck).markSeen.delayAck

/-- `Observe`: says whether the TSN is seen for the first time. -/
def observe (tsn : TSN) (immediateAck : Bool) : Bool × DataTracker :=
  let unwrapped := d.tsnUnwrapper.unwrap tsn
  let recorded := { d with tsnUnwrapper := unwrapped.2 }.recordTsn tsn unwrapped.1
  (!recorded.1, recorded.2.noteData immediateAck)

/-- The cumulative TSN moves to a number, and over the block that starts or lies there. -/
def forwardTo (tsn : Int) : DataTracker :=
  { d with
    lastCumulativeAckedTsn := (Ranges.absorb tsn (Ranges.eraseTo tsn d.additionalTsnBlocks)).1
    additionalTsnBlocks := (Ranges.absorb tsn (Ranges.eraseTo tsn d.additionalTsnBlocks)).2
    blocksAbove := (Ranges.absorb_eraseTo tsn d.additionalTsnBlocks d.blocksAbove).1 }

/-- `HandleForwardTsn`: says whether the chunk had an effect. -/
def handleForwardTsn (newCumulativeAck : TSN) : Bool × DataTracker :=
  let unwrapped := d.tsnUnwrapper.unwrap newCumulativeAck
  let d := { d with tsnUnwrapper := unwrapped.2 }
  if unwrapped.1 ≤ d.lastCumulativeAckedTsn then (false, d.updateAckState .immediate)
  else (true, (d.forwardTo unwrapped.1).delayAck)

/-- The offsets are cast to 16 bits. -/
def gapAckBlock (block : Range) : GapAckBlock where
  start := BitVec.ofNat 16 (difference 32 block.first d.lastCumulativeAckedTsn)
  last := BitVec.ofNat 16 (difference 32 block.last d.lastCumulativeAckedTsn)

def createGapAckBlocks : List GapAckBlock :=
  (d.additionalTsnBlocks.take kMaxGapAckBlocksReported).map d.gapAckBlock

def createSelectiveAck (aRwnd : Nat) : SackChunk × DataTracker :=
  ({ cumulativeTsnAck := wrap 32 d.lastCumulativeAckedTsn
     aRwnd := aRwnd
     gapAckBlocks := d.createGapAckBlocks
     duplicateTsns := d.duplicateTsns },
   { d with duplicateTsns := ∅ })

def shouldSendAck (alsoIfDelayed : Bool) : Bool × DataTracker :=
  if d.ackState = .immediate ∨
      (alsoIfDelayed ∧ (d.ackState = .becomingDelayed ∨ d.ackState = .delayed)) then
    (true, d.updateAckState .idle)
  else (false, d)

def observePacketEnd : DataTracker :=
  if d.ackState = .becomingDelayed then d.updateAckState .delayed else d

def handleDelayedAckTimerExpiry : DataTracker := d.updateAckState .immediate

/-- The TSNs that the tracker counts as received. -/
def Received (tsn : Int) : Prop :=
  tsn ≤ d.lastCumulativeAckedTsn ∨ Ranges.Covered tsn d.additionalTsnBlocks

section AckState

variable (d : DataTracker)

/-- Two trackers that differ at most in the duplicates and in when to send a SACK. -/
structure SameTsns (d d' : DataTracker) : Prop where
  lastCumulativeAckedTsn : d'.lastCumulativeAckedTsn = d.lastCumulativeAckedTsn
  additionalTsnBlocks : d'.additionalTsnBlocks = d.additionalTsnBlocks
  tsnUnwrapper : d'.tsnUnwrapper = d.tsnUnwrapper

theorem SameTsns.refl : SameTsns d d := ⟨rfl, rfl, rfl⟩

theorem SameTsns.trans {a b c : DataTracker} (hab : SameTsns a b) (hbc : SameTsns b c) :
    SameTsns a c where
  lastCumulativeAckedTsn := hbc.lastCumulativeAckedTsn.trans hab.lastCumulativeAckedTsn
  additionalTsnBlocks := hbc.additionalTsnBlocks.trans hab.additionalTsnBlocks
  tsnUnwrapper := hbc.tsnUnwrapper.trans hab.tsnUnwrapper

theorem SameTsns.received {d d' : DataTracker} (h : SameTsns d d') (tsn : Int) :
    d'.Received tsn ↔ d.Received tsn := by
  rw [Received, Received, h.lastCumulativeAckedTsn, h.additionalTsnBlocks]

theorem sameTsns_updateAckState (new : AckState) : SameTsns d (d.updateAckState new) := by
  unfold updateAckState
  by_cases hsame : new = d.ackState
  · rw [if_pos hsame]
    exact SameTsns.refl d
  · rw [if_neg hsame]
    exact ⟨rfl, rfl, rfl⟩

theorem sameTsns_insertDuplicate (tsn : TSN) : SameTsns d (d.insertDuplicate tsn) := ⟨rfl, rfl, rfl⟩

theorem sameTsns_delayAck : SameTsns d d.delayAck := by
  unfold delayAck
  split_ifs
  · exact sameTsns_updateAckState ..
  · exact sameTsns_updateAckState ..
  · exact SameTsns.refl d

theorem sameTsns_ackImmediatelyIf (condition : Bool) :
    SameTsns d (d.ackImmediatelyIf condition) := by
  unfold ackImmediatelyIf
  split_ifs
  · exact sameTsns_updateAckState ..
  · exact SameTsns.refl d

theorem sameTsns_markSeen : SameTsns d d.markSeen := by
  unfold markSeen
  split_ifs
  · exact SameTsns.refl d
  · have h := sameTsns_updateAckState { d with seenPacket := true } .immediate
    exact { h with }

theorem sameTsns_noteData (immediateAck : Bool) : SameTsns d (d.noteData immediateAck) :=
  (((sameTsns_ackImmediatelyIf ..).trans (sameTsns_ackImmediatelyIf ..)).trans
    (sameTsns_markSeen _)).trans (sameTsns_delayAck _)

end AckState

section Receiving

variable (d : DataTracker)

theorem received_advance (tsn : Int) :
    d.advance.Received tsn ↔ d.Received tsn ∨ tsn = d.lastCumulativeAckedTsn + 1 := by
  refine ((Ranges.absorb_next d.blocksAbove).2 tsn).trans ?_
  unfold Received
  by_cases hcovered : Ranges.Covered tsn d.additionalTsnBlocks
  · simp [hcovered]
  · simp only [hcovered, or_false]
    omega

/-- Recording a TSN adds it to what is received, and tells whether it was there. -/
theorem recordTsn_spec (tsn : TSN) (unwrappedTsn : Int) :
    ((d.recordTsn tsn unwrappedTsn).1 = true ↔ d.Received unwrappedTsn) ∧
    (∀ x, (d.recordTsn tsn unwrappedTsn).2.Received x ↔ d.Received x ∨ x = unwrappedTsn) ∧
    (d.recordTsn tsn unwrappedTsn).2.tsnUnwrapper = d.tsnUnwrapper := by
  unfold recordTsn
  split_ifs with old next
  · have hsame := (sameTsns_insertDuplicate d tsn).trans (sameTsns_updateAckState _ .immediate)
    refine ⟨iff_of_true rfl (Or.inl old), ?_, hsame.tsnUnwrapper⟩
    intro x
    rw [hsame.received]
    refine ⟨Or.inl, ?_⟩
    rintro (h | rfl)
    · exact h
    · exact Or.inl old
  · refine ⟨iff_of_false id ?_, ?_, rfl⟩
    · rintro (h | h)
      · exact old h
      · have := d.blocksAbove.lt_of_covered h
        omega
    · rw [next]
      exact d.received_advance
  · have gap : d.lastCumulativeAckedTsn + 1 < unwrappedTsn := by omega
    obtain ⟨-, hcovers, hnew⟩ :=
      Ranges.add_spec unwrappedTsn d.additionalTsnBlocks d.blocksAbove gap
    have hreceived : ∀ x, (d.addToBlocks unwrappedTsn gap).2.Received x ↔
        d.Received x ∨ x = unwrappedTsn := by
      intro x
      exact (or_congr_right (hcovers x)).trans or_assoc.symm
    have hseen : d.Received unwrappedTsn ↔ Ranges.Covered unwrappedTsn d.additionalTsnBlocks :=
      or_iff_right old
    dsimp only
    split_ifs with inserted
    · exact ⟨iff_of_false id (hseen.not.mpr (hnew.mp inserted)), hreceived, rfl⟩
    · refine ⟨iff_of_true rfl (hseen.mpr (not_not.mp (hnew.not.mp inserted))), ?_, rfl⟩
      intro x
      exact ((sameTsns_insertDuplicate _ tsn).received x).trans (hreceived x)

theorem observe_spec (tsn : TSN) (immediateAck : Bool) :
    ((d.observe tsn immediateAck).1 = true ↔ ¬ d.Received (d.tsnUnwrapper.peekUnwrap tsn)) ∧
    (∀ x, (d.observe tsn immediateAck).2.Received x ↔
      d.Received x ∨ x = d.tsnUnwrapper.peekUnwrap tsn) ∧
    (d.observe tsn immediateAck).2.tsnUnwrapper = (d.tsnUnwrapper.unwrap tsn).2 := by
  obtain ⟨hduplicate, hreceived, hunwrapper⟩ :=
    recordTsn_spec { d with tsnUnwrapper := (d.tsnUnwrapper.unwrap tsn).2 } tsn
      (d.tsnUnwrapper.peekUnwrap tsn)
  have hsame := sameTsns_noteData ({ d with tsnUnwrapper := (d.tsnUnwrapper.unwrap tsn).2 }.recordTsn
    tsn (d.tsnUnwrapper.peekUnwrap tsn)).2 immediateAck
  refine ⟨?_, ?_, hsame.tsnUnwrapper.trans hunwrapper⟩
  · refine Iff.trans ?_ hduplicate.not
    simp [observe]
  · intro x
    exact (hsame.received x).trans (hreceived x)

theorem handleForwardTsn_spec (tsn : TSN) : (∀ x, (d.handleForwardTsn tsn).2.Received x ↔
      d.Received x ∨ x ≤ d.tsnUnwrapper.peekUnwrap tsn) ∧
    (d.handleForwardTsn tsn).2.tsnUnwrapper = (d.tsnUnwrapper.unwrap tsn).2 := by
  unfold handleForwardTsn
  dsimp only
  split_ifs with old
  · have hsame := sameTsns_updateAckState
      { d with tsnUnwrapper := (d.tsnUnwrapper.unwrap tsn).2 } .immediate
    refine ⟨?_, hsame.tsnUnwrapper⟩
    intro x
    rw [hsame.received]
    refine ⟨Or.inl, ?_⟩
    rintro (h | h)
    · exact h
    · exact Or.inl (h.trans old)
  · have hsame := sameTsns_delayAck (forwardTo { d with tsnUnwrapper := (d.tsnUnwrapper.unwrap
      tsn).2 } (d.tsnUnwrapper.peekUnwrap tsn))
    refine ⟨?_, hsame.tsnUnwrapper⟩
    intro x
    refine (hsame.received x).trans
      (((Ranges.absorb_eraseTo _ d.additionalTsnBlocks d.blocksAbove).2 x).trans ?_)
    unfold Received
    by_cases hcovered : Ranges.Covered x d.additionalTsnBlocks
    · simp [hcovered]
    · simp only [hcovered, or_false]
      rw [SeqNumUnwrapper.unwrap_fst] at old
      omega

theorem lastCumulativeAckedTsn_mono {d d' : DataTracker}
    (grows : ∀ x, d.Received x → d'.Received x) :
    d.lastCumulativeAckedTsn ≤ d'.lastCumulativeAckedTsn :=
  d'.blocksAbove.le_bound fun x hx => grows x (Or.inl hx)

end Receiving

end DataTracker

end Dcsctp
