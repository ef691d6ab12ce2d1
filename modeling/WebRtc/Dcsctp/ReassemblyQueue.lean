import WebRtc.Dcsctp.ReassemblyStreams

/-!
# The reassembly queue

Model of `ReassemblyQueue` (`net/dcsctp/rx/reassembly_queue.cc`). The count of queued bytes is an
integer here, so that it would show if it went below zero. The limits that only the socket reads and
the debug check of the count against them are left out.
-/

namespace Dcsctp

open SequenceNumbers List

inductive ReassemblyStreams where
  | interleaved (streams : InterleavedReassemblyStreams)
  | traditional (streams : TraditionalReassemblyStreams)

namespace ReassemblyStreams

def create (useMessageInterleaving : Bool) : ReassemblyStreams :=
  if useMessageInterleaving then .interleaved {} else .traditional {}

def add (tsn : Int) (data : Data) : ReassemblyStreams → Int × List Assembled × ReassemblyStreams
  | .interleaved streams => ((streams.add tsn data).1, (streams.add tsn data).2.1,
      .interleaved (streams.add tsn data).2.2)
  | .traditional streams => ((streams.add tsn data).1, (streams.add tsn data).2.1,
      .traditional (streams.add tsn data).2.2)

def handleForwardTsn (newCumulativeAckTsn : Int) (skippedStreams : List SkippedStream) :
    ReassemblyStreams → Nat × List Assembled × ReassemblyStreams
  | .interleaved streams =>
    let r := streams.handleForwardTsn skippedStreams
    (r.1, r.2.1, .interleaved r.2.2)
  | .traditional streams =>
    let r := streams.handleForwardTsn newCumulativeAckTsn skippedStreams
    (r.1, r.2.1, .traditional r.2.2)

def resetStreams (streamIds : List StreamID) : ReassemblyStreams → ReassemblyStreams
  | .interleaved streams => .interleaved (streams.resetStreams streamIds)
  | .traditional streams => .traditional (streams.resetStreams streamIds)

def bytes : ReassemblyStreams → Nat
  | .interleaved streams => streams.bytes
  | .traditional streams => streams.bytes

theorem add_bytes (s : ReassemblyStreams) (tsn : Int) (data : Data) :
    (s.add tsn data).1 = (s.add tsn data).2.2.bytes - s.bytes := by
  cases s with
  | interleaved streams => exact streams.add_bytes tsn data
  | traditional streams => exact streams.add_bytes tsn data

theorem handleForwardTsn_bytes (s : ReassemblyStreams) (newCumulativeAckTsn : Int)
    (skippedStreams : List SkippedStream) :
    s.bytes = (s.handleForwardTsn newCumulativeAckTsn skippedStreams).1 +
      (s.handleForwardTsn newCumulativeAckTsn skippedStreams).2.2.bytes := by
  cases s with
  | interleaved streams => exact streams.handleForwardTsn_bytes skippedStreams
  | traditional streams => exact streams.handleForwardTsn_bytes newCumulativeAckTsn skippedStreams

theorem resetStreams_bytes (s : ReassemblyStreams) (streamIds : List StreamID) :
    (s.resetStreams streamIds).bytes = s.bytes := by
  cases s with
  | interleaved streams => exact streams.resetStreams_bytes streamIds
  | traditional streams => exact streams.resetStreams_bytes streamIds

end ReassemblyStreams

inductive DeferredAction where
  | add (tsn : TSN) (data : Data)
  | handleForwardTsn (newCumulativeTsn : TSN) (skippedStreams : List SkippedStream)

def DeferredAction.bytes : DeferredAction → Nat
  | .add _ data => data.size
  | .handleForwardTsn _ _ => 0

structure DeferredResetStreams where
  senderLastAssignedTsn : Int
  streams : Finset StreamID
  deferredActions : List DeferredAction := []

structure ReassemblyQueue where
  tsnUnwrapper : SeqNumUnwrapper 32 := SeqNumUnwrapper.initial
  reassembledMessages : List DcSctpMessage := []
  deferredResetStreams : Option DeferredResetStreams := none
  queuedBytes : Int := 0
  streams : ReassemblyStreams

namespace ReassemblyQueue

def initial (useMessageInterleaving : Bool) : ReassemblyQueue where
  streams := ReassemblyStreams.create useMessageInterleaving

variable (q : ReassemblyQueue)

def addReassembledMessage (assembled : Assembled) : ReassemblyQueue :=
  { q with
    queuedBytes := q.queuedBytes + assembled.message.payload.length
    reassembledMessages := q.reassembledMessages ++ [assembled.message] }

def addToStreams (tsn : Int) (data : Data) : ReassemblyQueue :=
  let r := q.streams.add tsn data
  let q := r.2.1.foldl addReassembledMessage q
  { q with queuedBytes := q.queuedBytes + r.1, streams := r.2.2 }

def addUnwrapped (tsn : TSN) (unwrappedTsn : Int) (data : Data) : ReassemblyQueue :=
  match q.deferredResetStreams with
  | none => q.addToStreams unwrappedTsn data
  | some deferred =>
    if deferred.senderLastAssignedTsn < unwrappedTsn ∧ data.streamId ∈ deferred.streams then
      { q with
        queuedBytes := q.queuedBytes + data.size
        deferredResetStreams := some { deferred with
          deferredActions := deferred.deferredActions ++ [.add tsn data] } }
    else q.addToStreams unwrappedTsn data

def add (tsn : TSN) (data : Data) : ReassemblyQueue :=
  let unwrapped := q.tsnUnwrapper.unwrap tsn
  { q with tsnUnwrapper := unwrapped.2 }.addUnwrapped tsn unwrapped.1 data

def forwardStreams (tsn : Int) (skippedStreams : List SkippedStream) : ReassemblyQueue :=
  let r := q.streams.handleForwardTsn tsn skippedStreams
  let q := r.2.1.foldl addReassembledMessage q
  { q with queuedBytes := q.queuedBytes - r.1, streams := r.2.2 }

def forwardUnwrapped (newCumulativeTsn : TSN) (tsn : Int)
    (skippedStreams : List SkippedStream) : ReassemblyQueue :=
  match q.deferredResetStreams with
  | none => q.forwardStreams tsn skippedStreams
  | some deferred =>
    if deferred.senderLastAssignedTsn < tsn then
      { q with deferredResetStreams := some { deferred with
          deferredActions :=
            deferred.deferredActions ++ [.handleForwardTsn newCumulativeTsn skippedStreams] } }
    else q.forwardStreams tsn skippedStreams

def handleForwardTsn (newCumulativeTsn : TSN)
    (skippedStreams : List SkippedStream) : ReassemblyQueue :=
  let unwrapped := q.tsnUnwrapper.unwrap newCumulativeTsn
  { q with tsnUnwrapper := unwrapped.2 }.forwardUnwrapped newCumulativeTsn unwrapped.1
    skippedStreams

def performDeferred : DeferredAction → ReassemblyQueue
  | .add tsn data => { q with queuedBytes := q.queuedBytes - data.size }.add tsn data
  | .handleForwardTsn newCumulativeTsn skippedStreams =>
    q.handleForwardTsn newCumulativeTsn skippedStreams

def resetStreamsAndLeaveDeferredReset (streamIds : List StreamID) : ReassemblyQueue :=
  match q.deferredResetStreams with
  | none => { q with streams := q.streams.resetStreams streamIds }
  | some deferred =>
    deferred.deferredActions.foldl performDeferred { q with
      streams := q.streams.resetStreams streamIds
      deferredResetStreams := none }

def enterDeferredReset (senderLastAssignedTsn : TSN) (streams : List StreamID) : ReassemblyQueue :=
  match q.deferredResetStreams with
  | some _ => q
  | none =>
    let unwrapped := q.tsnUnwrapper.unwrap senderLastAssignedTsn
    { q with
      tsnUnwrapper := unwrapped.2
      deferredResetStreams := some
        { senderLastAssignedTsn := unwrapped.1, streams := streams.toFinset } }

def getNextMessage : Option DcSctpMessage × ReassemblyQueue :=
  match q.reassembledMessages with
  | [] => (none, q)
  | message :: rest =>
    (some message, { q with
      reassembledMessages := rest
      queuedBytes := q.queuedBytes - message.payload.length })

inductive Call where
  | add (tsn : TSN) (data : Data)
  | handleForwardTsn (newCumulativeTsn : TSN) (skippedStreams : List SkippedStream)
  | enterDeferredReset (senderLastAssignedTsn : TSN) (streams : List StreamID)
  | resetStreamsAndLeaveDeferredReset (streamIds : List StreamID)
  | getNextMessage

def perform : Call → ReassemblyQueue
  | .add tsn data => q.add tsn data
  | .handleForwardTsn newCumulativeTsn skippedStreams =>
    q.handleForwardTsn newCumulativeTsn skippedStreams
  | .enterDeferredReset senderLastAssignedTsn streams =>
    q.enterDeferredReset senderLastAssignedTsn streams
  | .resetStreamsAndLeaveDeferredReset streamIds => q.resetStreamsAndLeaveDeferredReset streamIds
  | .getNextMessage => q.getNextMessage.2

def deferredBytes : Nat :=
  (q.deferredResetStreams.elim [] DeferredResetStreams.deferredActions |>.map
    DeferredAction.bytes).sum

def reassembledBytes : Nat :=
  (q.reassembledMessages.map fun message => message.payload.length).sum

theorem addReassembledMessages_spec (assembled : List Assembled) (q : ReassemblyQueue) :
    ∃ messages : List DcSctpMessage, assembled.foldl addReassembledMessage q = { q with
      queuedBytes := q.queuedBytes + (messages.map fun message => message.payload.length).sum
      reassembledMessages := q.reassembledMessages ++ messages } := by
  induction assembled generalizing q with
  | nil => exact ⟨[], by simp⟩
  | cons first rest ih =>
    obtain ⟨messages, hrest⟩ := ih (q.addReassembledMessage first)
    refine ⟨first.message :: messages, ?_⟩
    rw [foldl_cons, hrest]
    simp only [addReassembledMessage, map_cons, sum_cons, append_assoc,
      singleton_append, Nat.cast_add, add_assoc]

/-- What a queue counts beyond the bytes in the streams and in messages. -/
def excess : Int := q.queuedBytes - q.streams.bytes - q.reassembledBytes

theorem addToStreams_spec (tsn : Int) (data : Data) : (q.addToStreams tsn data).excess = q.excess ∧
      (q.addToStreams tsn data).deferredResetStreams = q.deferredResetStreams := by
  obtain ⟨messages, hcallbacks⟩ := addReassembledMessages_spec (q.streams.add tsn data).2.1 q
  have hadd := q.streams.add_bytes tsn data
  rw [addToStreams, hcallbacks]
  refine ⟨?_, rfl⟩
  simp only [excess, reassembledBytes, map_append, sum_append]
  omega

theorem forwardStreams_spec (tsn : Int) (skippedStreams : List SkippedStream) :
    (q.forwardStreams tsn skippedStreams).excess = q.excess ∧
      (q.forwardStreams tsn skippedStreams).deferredResetStreams = q.deferredResetStreams := by
  obtain ⟨messages, hcallbacks⟩ :=
    addReassembledMessages_spec (q.streams.handleForwardTsn tsn skippedStreams).2.1 q
  have hforward := q.streams.handleForwardTsn_bytes tsn skippedStreams
  rw [forwardStreams, hcallbacks]
  refine ⟨?_, rfl⟩
  simp only [excess, reassembledBytes, map_append, sum_append]
  omega

def Accounted : Prop := q.excess = q.deferredBytes

variable {q : ReassemblyQueue}

section

variable (h : Accounted q)
include h

theorem Accounted.of_eq {q' : ReassemblyQueue}
    (same : q'.excess = q.excess ∧ q'.deferredResetStreams = q.deferredResetStreams) :
    Accounted q' := by
  rw [Accounted, same.1, deferredBytes, same.2]
  exact h

theorem Accounted.defer {deferred : DeferredResetStreams}
    (hdeferred : q.deferredResetStreams = some deferred) (action : DeferredAction) :
    Accounted { q with
      queuedBytes := q.queuedBytes + action.bytes
      deferredResetStreams := some { deferred with
        deferredActions := deferred.deferredActions ++ [action] } } := by
  rw [Accounted, deferredBytes, hdeferred, Option.elim_some] at h
  rw [Accounted, deferredBytes, Option.elim_some, map_append, sum_append]
  simp only [excess, reassembledBytes, map_cons, map_nil, sum_cons, sum_nil, Nat.cast_add] at h ⊢
  omega

theorem Accounted.addUnwrapped (tsn : TSN) (unwrappedTsn : Int) (data : Data) :
    Accounted (q.addUnwrapped tsn unwrappedTsn data) := by
  have hstreams := h.of_eq (q.addToStreams_spec unwrappedTsn data)
  rw [ReassemblyQueue.addUnwrapped]
  cases hdeferred : q.deferredResetStreams with
  | none => exact hstreams
  | some deferred =>
    dsimp only
    split_ifs
    · exact h.defer hdeferred (.add tsn data)
    · exact hstreams

theorem Accounted.forwardUnwrapped (newCumulativeTsn : TSN) (tsn : Int)
    (skippedStreams : List SkippedStream) :
    Accounted (q.forwardUnwrapped newCumulativeTsn tsn skippedStreams) := by
  have hstreams := h.of_eq (q.forwardStreams_spec tsn skippedStreams)
  rw [ReassemblyQueue.forwardUnwrapped]
  cases hdeferred : q.deferredResetStreams with
  | none => exact hstreams
  | some deferred =>
    dsimp only
    split_ifs
    · have hdefer := h.defer hdeferred (.handleForwardTsn newCumulativeTsn skippedStreams)
      rwa [DeferredAction.bytes, Nat.cast_zero, add_zero] at hdefer
    · exact hstreams

theorem Accounted.add (tsn : TSN) (data : Data) : Accounted (q.add tsn data) :=
  Accounted.addUnwrapped (q := { q with tsnUnwrapper := (q.tsnUnwrapper.unwrap tsn).2 }) h tsn _ data

theorem Accounted.handleForwardTsn (newCumulativeTsn : TSN) (skippedStreams : List SkippedStream) :
    Accounted (q.handleForwardTsn newCumulativeTsn skippedStreams) :=
  Accounted.forwardUnwrapped
    (q := { q with tsnUnwrapper := (q.tsnUnwrapper.unwrap newCumulativeTsn).2 }) h
    newCumulativeTsn _ skippedStreams

end

/-- An action that is fed back releases the bytes that were counted for it. -/
theorem performDeferred_spec (hnone : q.deferredResetStreams = none) (action : DeferredAction) :
    (q.performDeferred action).excess = q.excess - action.bytes ∧
      (q.performDeferred action).deferredResetStreams = none := by
  cases action with
  | add tsn data =>
    rw [performDeferred]
    rw [hnone]
    obtain ⟨hexcess, hdeferred⟩ := addToStreams_spec
      { q with
        tsnUnwrapper := (q.tsnUnwrapper.unwrap tsn).2
        queuedBytes := q.queuedBytes - data.size
        deferredResetStreams := none } (q.tsnUnwrapper.unwrap tsn).1 data
    refine ⟨hexcess.trans ?_, hdeferred⟩
    simp only [excess, reassembledBytes, DeferredAction.bytes]
    omega
  | handleForwardTsn newCumulativeTsn skippedStreams =>
    rw [performDeferred, handleForwardTsn]
    rw [hnone]
    obtain ⟨hexcess, hdeferred⟩ := forwardStreams_spec
      { q with
        tsnUnwrapper := (q.tsnUnwrapper.unwrap newCumulativeTsn).2
        deferredResetStreams := none } (q.tsnUnwrapper.unwrap newCumulativeTsn).1 skippedStreams
    exact ⟨hexcess.trans (sub_zero _).symm, hdeferred⟩

theorem performDeferred_all (actions : List DeferredAction) (hnone : q.deferredResetStreams = none)
    (hexcess : q.excess = (actions.map DeferredAction.bytes).sum) :
    Accounted (actions.foldl performDeferred q) := by
  induction actions generalizing q with
  | nil =>
    rw [foldl_nil, Accounted, deferredBytes, hnone]
    exact hexcess
  | cons action actions ih =>
    obtain ⟨hone, hnone'⟩ := performDeferred_spec hnone action
    refine ih hnone' ?_
    rw [hone, hexcess, map_cons, sum_cons]
    omega

theorem Accounted.resetStreamsAndLeaveDeferredReset (h : Accounted q)
    (streamIds : List StreamID) : Accounted (q.resetStreamsAndLeaveDeferredReset streamIds) := by
  have hbytes := q.streams.resetStreams_bytes streamIds
  rw [ReassemblyQueue.resetStreamsAndLeaveDeferredReset]
  cases hdeferred : q.deferredResetStreams with
  | none =>
    refine h.of_eq ⟨?_, hdeferred.symm⟩
    rw [excess, hbytes]
    rfl
  | some deferred =>
    rw [Accounted, deferredBytes, hdeferred] at h
    refine performDeferred_all _ rfl (Eq.trans ?_ h)
    rw [excess, hbytes]
    rfl

theorem Accounted.enterDeferredReset (h : Accounted q) (senderLastAssignedTsn : TSN)
    (streams : List StreamID) : Accounted (q.enterDeferredReset senderLastAssignedTsn streams) := by
  rw [ReassemblyQueue.enterDeferredReset]
  cases hdeferred : q.deferredResetStreams with
  | none =>
    rw [Accounted, deferredBytes, hdeferred] at h
    exact h
  | some _ => exact h

theorem Accounted.getNextMessage (h : Accounted q) : Accounted q.getNextMessage.2 := by
  rw [ReassemblyQueue.getNextMessage]
  cases hmessages : q.reassembledMessages with
  | nil => exact h
  | cons message rest =>
    refine h.of_eq ⟨?_, rfl⟩
    simp only [excess, reassembledBytes, hmessages, map_cons, sum_cons]
    omega

theorem Accounted.perform (h : Accounted q) (call : Call) : Accounted (q.perform call) := by
  cases call with
  | add tsn data => exact h.add tsn data
  | handleForwardTsn newCumulativeTsn skippedStreams =>
    exact h.handleForwardTsn newCumulativeTsn skippedStreams
  | enterDeferredReset senderLastAssignedTsn streams =>
    exact h.enterDeferredReset senderLastAssignedTsn streams
  | resetStreamsAndLeaveDeferredReset streamIds =>
    exact h.resetStreamsAndLeaveDeferredReset streamIds
  | getNextMessage => exact h.getNextMessage

theorem accounted_initial (useMessageInterleaving : Bool) :
    Accounted (initial useMessageInterleaving) := by
  cases useMessageInterleaving with
  | true => rfl
  | false => rfl

end ReassemblyQueue

end Dcsctp
