import WebRtc.Lib.OrdMap
import WebRtc.SequenceNumbers
import WebRtc.Video.DecodedFramesHistory

/-!
# The frame buffer

Model of `api/video/frame_buffer.cc`. An iterator into the map of frames is the id it points to. A log
of the frames that were inserted and handed out is kept beside the fields of the source; nothing
reads it.
-/

namespace Video

open SequenceNumbers

def kMaxFrameReferences : Nat := 5

/-- What the buffer reads of a frame, and the rest. Ids are 64-bit numbers. -/
structure EncodedFrame (β : Type) where
  id : Int
  rtpTimestamp : BitVec 32
  references : List Int
  isLastSpatialLayer : Bool
  contents : β
  room : references.length ≤ kMaxFrameReferences
  range : ∀ x ∈ id :: references, -2 ^ 63 ≤ x ∧ x < 2 ^ 63
deriving DecidableEq

namespace EncodedFrame

variable {β : Type}

def isKeyframe (frame : EncodedFrame β) : Bool := decide (frame.references.length = 0)

/-- The loops of `ValidReferences`, over the references that are left. -/
def validReferencesFrom (id : Int) : List Int → Bool
  | [] => true
  | reference :: rest =>
    if reference ≥ id then false
    else if rest.any fun other => reference = other then false
    else validReferencesFrom id rest

def validReferences (frame : EncodedFrame β) : Bool := validReferencesFrom frame.id frame.references

def getReferences (frame : EncodedFrame β) : List Int := frame.references.take kMaxFrameReferences

end EncodedFrame

structure FrameInfo (β : Type) where
  encodedFrame : EncodedFrame β
  continuous : Bool

/-- `TemporalUnit`; both ends are inclusive. -/
structure TemporalUnit where
  firstFrame : Int
  lastFrame : Int
deriving DecidableEq

structure DecodabilityInfo where
  nextRtpTimestamp : BitVec 32
  lastRtpTimestamp : BitVec 32
deriving DecidableEq

inductive FrameEvent (β : Type) where
  | inserted (frame : EncodedFrame β)
  | extracted (unit : List (EncodedFrame β))
  | cleared

structure FrameBuffer (β : Type) where
  legacyFrameIdJumpBehavior : Bool
  maxSize : Nat
  frames : OrdMap Int (FrameInfo β)
  nextDecodableTemporalUnit : Option TemporalUnit
  decodableTemporalUnitsInfo : Option DecodabilityInfo
  lastContinuousFrameId : Option Int
  lastContinuousTemporalUnitFrameId : Option Int
  decodedFrameHistory : DecodedFramesHistory
  numContinuousTemporalUnits : Int
  numDroppedFrames : Int
  log : List (FrameEvent β)

namespace FrameBuffer

variable {β : Type}

def initial (legacyFrameIdJumpBehavior : Bool) (maxSize maxDecodeHistory : Nat) : FrameBuffer β where
  legacyFrameIdJumpBehavior := legacyFrameIdJumpBehavior
  maxSize := maxSize
  frames := .empty
  nextDecodableTemporalUnit := none
  decodableTemporalUnitsInfo := none
  lastContinuousFrameId := none
  lastContinuousTemporalUnitFrameId := none
  decodedFrameHistory := .initial maxDecodeHistory
  numContinuousTemporalUnits := 0
  numDroppedFrames := 0
  log := []

def clear (q : FrameBuffer β) : FrameBuffer β :=
  { q with
    frames := .empty
    nextDecodableTemporalUnit := none
    decodableTemporalUnitsInfo := none
    lastContinuousFrameId := none
    lastContinuousTemporalUnitFrameId := none
    decodedFrameHistory := q.decodedFrameHistory.clear
    log := q.log ++ [.cleared] }

variable (q : FrameBuffer β)

def continuousInBuffer (id : Int) : Bool :=
  match q.frames.find? id with
  | none => false
  | some info => info.continuous

def isContinuous (frame : EncodedFrame β) : Bool :=
  frame.getReferences.all fun reference =>
    q.decodedFrameHistory.wasDecoded reference || q.continuousInBuffer reference

/-- Comparison of an optional id with an id: nothing is less than every id. -/
def optionalLess : Option Int → Int → Bool
  | none, _ => true
  | some a, b => decide (a < b)

/-- One round of the loop of `PropagateContinuity`. -/
def propagateAt (id : Int) : FrameBuffer β :=
  match q.frames.find? id with
  | none => q
  | some info =>
    if info.continuous then q
    else if q.isContinuous info.encodedFrame then
      let last := info.encodedFrame.isLastSpatialLayer
      { q with
        frames := q.frames.modify id fun info => { info with continuous := true }
        lastContinuousFrameId :=
          if optionalLess q.lastContinuousFrameId id then some id else q.lastContinuousFrameId
        numContinuousTemporalUnits :=
          if last then q.numContinuousTemporalUnits + 1 else q.numContinuousTemporalUnits
        lastContinuousTemporalUnitFrameId :=
          if last && optionalLess q.lastContinuousTemporalUnitFrameId id then some id
          else q.lastContinuousTemporalUnitFrameId }
    else q

def propagateContinuity (id : Int) : FrameBuffer β :=
  ((q.frames.entries.map Prod.fst).filter fun key => id ≤ key).foldl propagateAt q

/-- The references of a temporal unit are decoded or inside the unit. -/
def decodable (q : FrameBuffer β) (unit : List (EncodedFrame β)) : Bool :=
  unit.all fun frame => frame.getReferences.all fun reference =>
    q.decodedFrameHistory.wasDecoded reference || (unit.map EncodedFrame.id).contains reference

/-- The frames from `first_frame_it` on, the unit found, and the last decodable timestamp. -/
structure Scan (β : Type) where
  unit : List (EncodedFrame β)
  next : Option TemporalUnit
  lastTimestamp : BitVec 32

def extendUnit (unit : List (EncodedFrame β)) (frame : EncodedFrame β) : List (EncodedFrame β) :=
  match unit with
  | [] => [frame]
  | first :: rest =>
    if frame.rtpTimestamp ≠ first.rtpTimestamp then [frame] else first :: (rest ++ [frame])

/-- One round of the loop of `FindNextAndLastDecodableTemporalUnit`. -/
def scanFrame (scan : Scan β) (frame : EncodedFrame β) : Scan β :=
  let unit := extendUnit scan.unit frame
  let first := unit.headD frame
  if frame.isLastSpatialLayer && q.decodable unit then
    { unit := unit
      next := match scan.next with
        | none => some ⟨first.id, frame.id⟩
        | some next => some next
      lastTimestamp := first.rtpTimestamp }
  else { scan with unit := unit }

def framesUpTo (last : Int) : List (EncodedFrame β) :=
  (q.frames.entries.takeWhile fun e => e.1 ≤ last).map fun e => e.2.encodedFrame

def findNextAndLastDecodableTemporalUnit : FrameBuffer β :=
  match q.lastContinuousTemporalUnitFrameId with
  | none => { q with nextDecodableTemporalUnit := none, decodableTemporalUnitsInfo := none }
  | some last =>
    let scan := (q.framesUpTo last).foldl q.scanFrame ⟨[], none, 0⟩
    { q with
      nextDecodableTemporalUnit := scan.next
      decodableTemporalUnitsInfo := do
        let next ← scan.next
        let first ← q.frames.find? next.firstFrame
        some ⟨first.encodedFrame.rtpTimestamp, scan.lastTimestamp⟩ }

/-- The end of `InsertFrame`, when the frame is accepted unless it is there already. -/
def emplaceFrame (frame : EncodedFrame β) : FrameBuffer β × Bool :=
  match q.frames.find? frame.id with
  | some _ => (q, false)
  | none =>
    let emplaced : FrameBuffer β := { q with
      frames := q.frames.emplace frame.id ⟨frame, false⟩
      log := q.log ++ [.inserted frame] }
    ((emplaced.propagateContinuity frame.id).findNextAndLastDecodableTemporalUnit, true)

/-- The middle of `InsertFrame`: a full buffer. -/
def makeRoom (frame : EncodedFrame β) : Option (FrameBuffer β) :=
  if q.frames.entries.length = q.maxSize then
    if frame.isKeyframe then some q.clear else none
  else some q

/-- The start of `InsertFrame`: a frame that is older than the last one decoded. -/
def acceptAge (frame : EncodedFrame β) : Option (FrameBuffer β) :=
  match q.decodedFrameHistory.lastDecodedFrame with
  | none => some q
  | some last =>
    if frame.id ≤ last then
      if q.legacyFrameIdJumpBehavior && frame.isKeyframe &&
          aheadOf frame.rtpTimestamp (q.decodedFrameHistory.lastDecodedFrameTimestamp.getD 0)
      then some q.clear
      else none
    else some q

def insertFrame (frame : EncodedFrame β) : FrameBuffer β × Bool :=
  if !frame.validReferences then (q, false)
  else
    match q.acceptAge frame with
    | none => (q, false)
    | some q =>
      match q.makeRoom frame with
      | none => (q, false)
      | some q => q.emplaceFrame frame

def unitFrames (unit : TemporalUnit) : List (EncodedFrame β) :=
  (q.frames.entries.filter fun e => unit.firstFrame ≤ e.1 ∧ e.1 ≤ unit.lastFrame).map
    fun e => e.2.encodedFrame

/-- `DropNextDecodableTemporalUnit`, when the frames from `movedFrom` on were moved out. -/
def dropUnit (unit : TemporalUnit) (movedFrom : Option Int) : FrameBuffer β :=
  let dropped := q.frames.entries.countP fun e =>
    e.1 ≤ unit.lastFrame && (match movedFrom with
      | none => true
      | some first => decide (e.1 < first))
  { q with
    numDroppedFrames := q.numDroppedFrames + dropped
    frames := q.frames.filter fun e => !decide (e.1 ≤ unit.lastFrame)
    }.findNextAndLastDecodableTemporalUnit

def extractNextDecodableTemporalUnit : FrameBuffer β × List (EncodedFrame β) :=
  match q.nextDecodableTemporalUnit with
  | none => (q, [])
  | some unit =>
    let frames := q.unitFrames unit
    let decoded : FrameBuffer β := { q with
      decodedFrameHistory := frames.foldl
        (fun history frame => history.insertDecoded frame.id frame.rtpTimestamp)
        q.decodedFrameHistory
      log := q.log ++ [.extracted frames] }
    (decoded.dropUnit unit (some unit.firstFrame), frames)

def dropNextDecodableTemporalUnit : FrameBuffer β :=
  match q.nextDecodableTemporalUnit with
  | none => q
  | some unit => q.dropUnit unit none

inductive Call (β : Type) where
  | insertFrame (frame : EncodedFrame β)
  | extractNextDecodableTemporalUnit
  | dropNextDecodableTemporalUnit
  | clear

def perform : Call β → FrameBuffer β
  | .insertFrame frame => (q.insertFrame frame).1
  | .extractNextDecodableTemporalUnit => q.extractNextDecodableTemporalUnit.1
  | .dropNextDecodableTemporalUnit => q.dropNextDecodableTemporalUnit
  | .clear => q.clear

def after (calls : List (Call β)) : FrameBuffer β := calls.foldl perform q

end FrameBuffer

end Video
