import WebRtc.Dcsctp.Types
import WebRtc.Lib.Fragments
import WebRtc.SequenceNumbers

/-!
# Reassembly of messages

Model of the two implementations of `ReassemblyStreams`, in
`net/dcsctp/rx/traditional_reassembly_streams.cc` and `interleaved_reassembly_streams.cc`.
Operations give the bytes that the source returns, the calls of `OnAssembledMessage` in their order,
and the new state. Byte counts are unbounded. Of the handover state only the sequence number that a
restored stream starts with is kept.
-/

namespace Dcsctp

open SequenceNumbers Fragments List

structure Assembled where
  tsns : List Int
  message : DcSctpMessage
deriving DecidableEq, Repr

def assembleChunk (chunk : Int × Data) : Nat × Assembled :=
  (chunk.2.size, ⟨[chunk.1], ⟨chunk.2.streamId, chunk.2.ppid, chunk.2.payload⟩⟩)

def assembleMessage (start : Int × Data) (others : List (Int × Data)) : Nat × Assembled :=
  if others = [] then assembleChunk start
  else
    let chunks := start :: others
    ((chunks.map fun chunk => chunk.2.size).sum, ⟨chunks.map Prod.fst,
        ⟨start.2.streamId, start.2.ppid, chunks.flatMap fun chunk => chunk.2.payload⟩⟩)

/-- The path without a copy gives what the other one gives. -/
theorem assembleMessage_eq (start : Int × Data) (others : List (Int × Data)) :
    assembleMessage start others = (((start :: others).map fun chunk => chunk.2.size).sum,
        ⟨(start :: others).map Prod.fst, ⟨start.2.streamId, start.2.ppid,
          (start :: others).flatMap fun chunk => chunk.2.payload⟩⟩) := by
  rw [assembleMessage]
  split_ifs with h
  · subst h
    simp [assembleChunk]
  · rfl

def assembledFrom (id : StreamID) (chunks : List (Int × Data)) : Assembled where
  tsns := chunks.map Prod.fst
  message :=
    { streamId := id
      ppid := (chunks.head?.map fun chunk => chunk.2.ppid).getD 0
      payload := chunks.flatMap fun chunk => chunk.2.payload }

def chunkBytes (chunks : List (Int × Data)) : Nat := (chunks.map fun chunk => chunk.2.size).sum

theorem assembleMessage_of_chunks {id : StreamID} {first : Int × Data}
    {others chunks : List (Int × Data)} (hid : ∀ chunk ∈ chunks, chunk.2.streamId = id)
    (h : first :: others = chunks) :
    assembleMessage first others = (chunkBytes chunks, assembledFrom id chunks) := by
  subst h
  rw [assembleMessage_eq, hid first mem_cons_self]
  rfl

theorem chunkBytes_pos {chunks : List (Int × Data)} (nonempty : chunks ≠ [])
    (h : ∀ chunk ∈ chunks, chunk.2.payload ≠ []) : 0 < chunkBytes chunks := by
  obtain ⟨chunk, hmem⟩ := exists_mem_of_ne_nil _ nonempty
  have hpos : 0 < chunk.2.size := length_pos_iff.mpr (h chunk hmem)
  exact hpos.trans_le (single_le_sum (fun _ _ => Nat.zero_le _) _ (mem_map_of_mem hmem))

def addAll {σ : Type} (add : σ → Int → Data → Int × List Assembled × σ) :
    σ → List (Int × Data) → List (Int × List Assembled) × σ
  | s, [] => ([], s)
  | s, chunk :: chunks =>
    let r := add s chunk.1 chunk.2
    let rest := addAll add r.2.2 chunks
    ((r.1, r.2.1) :: rest.1, rest.2)

section

variable {σ : Type} (add : σ → Int → Data → Int × List Assembled × σ) (s : σ)
  (chunks : List (Int × Data))

theorem length_addAll : (addAll add s chunks).1.length = chunks.length := by
  induction chunks generalizing s with
  | nil => rfl
  | cons chunk chunks ih => exact congrArg (· + 1) (ih _)

theorem addAll_concat (chunk : Int × Data) :
    addAll add s (chunks ++ [chunk]) = ((addAll add s chunks).1 ++
          [((add (addAll add s chunks).2 chunk.1 chunk.2).1,
            (add (addAll add s chunks).2 chunk.1 chunk.2).2.1)],
        (add (addAll add s chunks).2 chunk.1 chunk.2).2.2) := by
  induction chunks generalizing s with
  | nil => rfl
  | cons first rest ih =>
    rw [cons_append, addAll, ih]
    rfl

end

structure UnorderedStream where
  chunks : OrdMap Int Data := OrdMap.empty
deriving DecidableEq

namespace UnorderedStream

/-- The chunks of the message among a chunk and those before it, the nearest first. -/
def findBeginning : Int × Data → List (Int × Data) → Option (List (Int × Data))
  | chunk, [] => if chunk.2.isBeginning then some [] else none
  | chunk, prev :: before =>
    if chunk.2.isBeginning then some []
    else if prev.1 + 1 ≠ chunk.1 then none
    else (findBeginning prev before).map fun found => found ++ [prev]

/-- `FindEnd`, from a chunk and the ones after it: the chunks of the message among those. -/
def findEnd : Int × Data → List (Int × Data) → Option (List (Int × Data))
  | chunk, [] => if chunk.2.isEnd then some [] else none
  | chunk, next :: after =>
    if chunk.2.isEnd then some []
    else if next.1 ≠ chunk.1 + 1 then none
    else (findEnd next after).map fun found => next :: found

def tryToAssembleMessage (s : UnorderedStream) (chunk : Int × Data) :
    Nat × List Assembled × UnorderedStream :=
  let before := (s.chunks.entries.takeWhile fun e => e.1 < chunk.1).reverse
  let after := s.chunks.entries.dropWhile fun e => e.1 ≤ chunk.1
  match findBeginning chunk before, findEnd chunk after with
  | some beginning, some ending =>
    match beginning ++ chunk :: ending with
    | [] => (0, [], s)
    | start :: others =>
      let assembled := assembleMessage start others
      (assembled.1, [assembled.2], { s with
        chunks := (start :: others).foldl (fun chunks e => chunks.erase e.1) s.chunks })
  | _, _ => (0, [], s)

def add (s : UnorderedStream) (tsn : Int) (data : Data) : Int × List Assembled × UnorderedStream :=
  if data.isBeginning && data.isEnd then (0, [(assembleChunk (tsn, data)).2], s)
  else if (s.chunks.find? tsn).isSome then (0, [], s)
  else
    let r := { s with chunks := s.chunks.emplace tsn data }.tryToAssembleMessage (tsn, data)
    (data.size - r.1, r.2)

def eraseTo (s : UnorderedStream) (tsn : Int) : Nat × UnorderedStream :=
  (((s.chunks.entries.takeWhile fun e => e.1 ≤ tsn).map fun e => e.2.size).sum,
    { s with chunks := s.chunks.dropWhile fun e => e.1 ≤ tsn })

end UnorderedStream

structure OrderedStream where
  chunksBySsn : OrdMap Int (Fragments Data) := OrdMap.empty
  ssnUnwrapper : SeqNumUnwrapper 16
  nextSsn : Int

namespace OrderedStream

def initial (nextSsn : SSN) : OrderedStream where
  ssnUnwrapper := (SeqNumUnwrapper.initial.unwrap nextSsn).2
  nextSsn := (SeqNumUnwrapper.initial.unwrap nextSsn).1

def reset (s : OrderedStream) : OrderedStream :=
  { s with
    ssnUnwrapper := (s.ssnUnwrapper.reset.unwrap 0).2
    nextSsn := (s.ssnUnwrapper.reset.unwrap 0).1 }

variable (s : OrderedStream)

def tryToAssembleMessage : Nat × List Assembled × OrderedStream :=
  match s.chunksBySsn.entries with
  | [] => (0, [], s)
  | (ssn, chunks) :: _ =>
    if ssn ≠ s.nextSsn then (0, [], s)
    else if !chunks.first.2.isBeginning || !chunks.last.2.isEnd then (0, [], s)
    else if difference 32 chunks.last.1 chunks.first.1 ≠ chunks.size - 1 then (0, [], s)
    else
      let assembled := assembleMessage chunks.first chunks.map.entries.tail
      (assembled.1, [assembled.2], { s with
        chunksBySsn := s.chunksBySsn.erase ssn
        nextSsn := s.nextSsn + 1 })

theorem tryToAssembleMessage_length (h : s.tryToAssembleMessage.1 ≠ 0) :
    s.tryToAssembleMessage.2.2.chunksBySsn.entries.length < s.chunksBySsn.entries.length := by
  revert h
  rw [tryToAssembleMessage]
  cases hentries : s.chunksBySsn.entries with
  | nil => exact fun h => absurd rfl h
  | cons e rest =>
    have hmem := hentries ▸ mem_cons_self
    dsimp only
    split_ifs
    · exact fun h => absurd rfl h
    · exact fun h => absurd rfl h
    · exact fun h => absurd rfl h
    · exact fun _ => hentries ▸ s.chunksBySsn.length_erase_lt hmem

def tryToAssembleMessages (s : OrderedStream) : Nat × List Assembled × OrderedStream :=
  if s.tryToAssembleMessage.1 = 0 then s.tryToAssembleMessage
  else
    let rest := s.tryToAssembleMessage.2.2.tryToAssembleMessages
    (s.tryToAssembleMessage.1 + rest.1, s.tryToAssembleMessage.2.1 ++ rest.2.1, rest.2.2)
termination_by s.chunksBySsn.entries.length
decreasing_by exact s.tryToAssembleMessage_length (by assumption)

/-- `TryToAssembleMessagesFastpath`. A chunk that was there before counts as assembled. -/
def tryToAssembleMessagesFastpath (ssn tsn : Int) (data : Data) :
    Nat × List Assembled × OrderedStream :=
  if data.isBeginning && data.isEnd then
    let assembled := assembleChunk (tsn, data)
    let rest := { s with nextSsn := s.nextSsn + 1 }.tryToAssembleMessages
    (assembled.1 + rest.1, assembled.2 :: rest.2.1, rest.2.2)
  else
    match emplaceIn s.chunksBySsn ssn tsn data with
    | none => (data.size, [], s)
    | some chunksBySsn => { s with chunksBySsn := chunksBySsn }.tryToAssembleMessages

/-- The part of `Add` after the sequence number was unwrapped. -/
def addUnwrapped (ssn tsn : Int) (data : Data) : Int × List Assembled × OrderedStream :=
  if ssn = s.nextSsn then
    let r := s.tryToAssembleMessagesFastpath ssn tsn data
    (data.size - r.1, r.2)
  else
    match emplaceIn s.chunksBySsn ssn tsn data with
    | none => (0, [], s)
    | some chunksBySsn => (data.size, [], { s with chunksBySsn := chunksBySsn })

def add (tsn : Int) (data : Data) : Int × List Assembled × OrderedStream :=
  let ssn := s.ssnUnwrapper.unwrap data.ssn
  { s with ssnUnwrapper := ssn.2 }.addUnwrapped ssn.1 tsn data

def eraseTo (ssn : SSN) : Nat × List Assembled × OrderedStream :=
  let unwrapped := s.ssnUnwrapper.unwrap ssn
  let removed := ((s.chunksBySsn.entries.takeWhile fun e => e.1 ≤ unwrapped.1).map
    fun e => e.2.total Data.size).sum
  let rest := { s with
    ssnUnwrapper := unwrapped.2
    chunksBySsn := s.chunksBySsn.dropWhile fun e => e.1 ≤ unwrapped.1
    nextSsn := if s.nextSsn ≤ unwrapped.1 then unwrapped.1 + 1 else s.nextSsn
    }.tryToAssembleMessages
  (removed + rest.1, rest.2)

end OrderedStream

structure TraditionalReassemblyStreams where
  unorderedStreams : OrdMap StreamID UnorderedStream := OrdMap.empty
  orderedStreams : OrdMap StreamID OrderedStream := OrdMap.empty

namespace TraditionalReassemblyStreams

variable (s : TraditionalReassemblyStreams)

def unorderedStream (id : StreamID) : UnorderedStream :=
  (s.unorderedStreams.find? id).getD {}

def orderedStream (id : StreamID) : OrderedStream :=
  (s.orderedStreams.find? id).getD (OrderedStream.initial 0)

def add (s : TraditionalReassemblyStreams) (tsn : Int) (data : Data) :
    Int × List Assembled × TraditionalReassemblyStreams :=
  if data.isUnordered then
    let r := (s.unorderedStream data.streamId).add tsn data
    (r.1, r.2.1, { s with unorderedStreams := s.unorderedStreams.set data.streamId r.2.2 })
  else
    let r := (s.orderedStream data.streamId).add tsn data
    (r.1, r.2.1, { s with orderedStreams := s.orderedStreams.set data.streamId r.2.2 })

def skip (skipped : SkippedStream) : Nat × List Assembled × TraditionalReassemblyStreams :=
  let r := (s.orderedStream skipped.streamId).eraseTo skipped.ssn
  (r.1, r.2.1, { s with orderedStreams := s.orderedStreams.set skipped.streamId r.2.2 })

def skipAll (s : TraditionalReassemblyStreams) :
    List SkippedStream → Nat × List Assembled × TraditionalReassemblyStreams
  | [] => (0, [], s)
  | skipped :: others =>
    let r := s.skip skipped
    let rest := r.2.2.skipAll others
    (r.1 + rest.1, r.2.1 ++ rest.2.1, rest.2.2)

def handleForwardTsn (newCumulativeAckTsn : Int) (skippedStreams : List SkippedStream) :
    Nat × List Assembled × TraditionalReassemblyStreams :=
  let removed := (s.unorderedStreams.entries.map fun e =>
    (e.2.eraseTo newCumulativeAckTsn).1).sum
  let rest := { s with unorderedStreams := s.unorderedStreams.mapValues fun stream =>
      (stream.eraseTo newCumulativeAckTsn).2 }.skipAll skippedStreams
  (removed + rest.1, rest.2)

/-- `ResetStreams`; an empty list is every stream. -/
def resetStreams (streamIds : List StreamID) : TraditionalReassemblyStreams :=
  if streamIds = [] then { s with orderedStreams := s.orderedStreams.mapValues OrderedStream.reset }
  else streamIds.foldl (fun s id =>
    { s with orderedStreams := s.orderedStreams.modify id OrderedStream.reset }) s

end TraditionalReassemblyStreams

abbrev FullStreamId := Bool ×ₗ StreamID

def Data.fullStreamId (data : Data) : FullStreamId := toLex (data.isUnordered, data.streamId)

/-- `InterleavedReassemblyStreams::Stream`. Chunks are keyed by the value of their FSN. -/
structure InterleavedStream where
  chunksByMid : OrdMap Int (Fragments (Int × Data)) := OrdMap.empty
  midUnwrapper : SeqNumUnwrapper 32
  nextMid : Int

namespace InterleavedStream

def initial (nextMid : MID) : InterleavedStream where
  midUnwrapper := (SeqNumUnwrapper.initial.unwrap nextMid).2
  nextMid := (SeqNumUnwrapper.initial.unwrap nextMid).1

def reset (s : InterleavedStream) : InterleavedStream :=
  { s with
    midUnwrapper := (s.midUnwrapper.reset.unwrap 0).2
    nextMid := (s.midUnwrapper.reset.unwrap 0).1 }

def tryToAssembleMessage (s : InterleavedStream) (mid : Int) :
    Nat × List Assembled × InterleavedStream :=
  match s.chunksByMid.find? mid with
  | none => (0, [], s)
  | some chunks =>
    if !chunks.first.2.2.isBeginning || !chunks.last.2.2.isEnd then (0, [], s)
    else if chunks.last.1 - chunks.first.1 ≠ (chunks.size : Int) - 1 then (0, [], s)
    else
      let assembled := assembleMessage chunks.first.2 (chunks.map.entries.tail.map Prod.snd)
      (assembled.1, [assembled.2], { s with chunksByMid := s.chunksByMid.erase mid })

theorem tryToAssembleMessage_length (s : InterleavedStream) (mid : Int)
    (h : (s.tryToAssembleMessage mid).1 ≠ 0) :
    (s.tryToAssembleMessage mid).2.2.chunksByMid.entries.length < s.chunksByMid.entries.length := by
  revert h
  rw [tryToAssembleMessage]
  cases hfind : s.chunksByMid.find? mid with
  | none => exact fun h => absurd rfl h
  | some chunks =>
    have hmem := (s.chunksByMid.find?_eq_some_iff mid chunks).mp hfind
    dsimp only
    split_ifs
    · exact fun h => absurd rfl h
    · exact fun h => absurd rfl h
    · exact fun _ => s.chunksByMid.length_erase_lt hmem

def tryToAssembleMessages (s : InterleavedStream) : Nat × List Assembled × InterleavedStream :=
  if (s.tryToAssembleMessage s.nextMid).1 = 0 then s.tryToAssembleMessage s.nextMid
  else
    let r := s.tryToAssembleMessage s.nextMid
    let rest := { r.2.2 with nextMid := s.nextMid + 1 }.tryToAssembleMessages
    (r.1 + rest.1, r.2.1 ++ rest.2.1, rest.2.2)
termination_by s.chunksByMid.entries.length
decreasing_by exact s.tryToAssembleMessage_length s.nextMid (by assumption)

/-- The slow path of `Add`. -/
def addSlow (unordered : Bool) (s : InterleavedStream) (mid tsn : Int) (data : Data) :
    Int × List Assembled × InterleavedStream :=
  match emplaceIn s.chunksByMid mid data.fsn.toNat (tsn, data) with
  | none => (0, [], s)
  | some chunksByMid =>
    let s := { s with chunksByMid := chunksByMid }
    if unordered then
      let r := s.tryToAssembleMessage mid
      (data.size - r.1, r.2)
    else if mid = s.nextMid then
      let r := s.tryToAssembleMessages
      (data.size - r.1, r.2)
    else (data.size, [], s)

/-- The part of `Add` after the message identifier was unwrapped. -/
def addUnwrapped (unordered : Bool) (s : InterleavedStream) (mid tsn : Int) (data : Data) :
    Int × List Assembled × InterleavedStream :=
  if unordered && data.isBeginning && data.isEnd then
    (0, [(assembleChunk (tsn, data)).2], s)
  else if !unordered && mid = s.nextMid && data.isBeginning && data.isEnd then
    let rest := { s with nextMid := s.nextMid + 1 }.tryToAssembleMessages
    (-rest.1, (assembleChunk (tsn, data)).2 :: rest.2.1, rest.2.2)
  else s.addSlow unordered mid tsn data

/-- `Add`, where `unordered` is that of the stream. -/
def add (unordered : Bool) (s : InterleavedStream) (tsn : Int) (data : Data) :
    Int × List Assembled × InterleavedStream :=
  let mid := s.midUnwrapper.unwrap data.mid
  { s with midUnwrapper := mid.2 }.addUnwrapped unordered mid.1 tsn data

def eraseTo (unordered : Bool) (s : InterleavedStream) (mid : MID) :
    Nat × List Assembled × InterleavedStream :=
  let unwrapped := s.midUnwrapper.unwrap mid
  let removed := ((s.chunksByMid.entries.takeWhile fun e => e.1 ≤ unwrapped.1).map
    fun e => e.2.total fun chunk => chunk.2.size).sum
  let s := { s with
    midUnwrapper := unwrapped.2
    chunksByMid := s.chunksByMid.dropWhile fun e => e.1 ≤ unwrapped.1 }
  if unordered then (removed, [], s)
  else
    let rest := { s with
      nextMid := if s.nextMid ≤ unwrapped.1 then unwrapped.1 + 1 else s.nextMid
      }.tryToAssembleMessages
    (removed + rest.1, rest.2)

end InterleavedStream

structure InterleavedReassemblyStreams where
  streams : OrdMap FullStreamId InterleavedStream := OrdMap.empty

namespace InterleavedReassemblyStreams

def stream (s : InterleavedReassemblyStreams) (id : FullStreamId) : InterleavedStream :=
  (s.streams.find? id).getD (InterleavedStream.initial 0)

def add (s : InterleavedReassemblyStreams) (tsn : Int) (data : Data) :
    Int × List Assembled × InterleavedReassemblyStreams :=
  let r := (s.stream data.fullStreamId).add data.isUnordered tsn data
  (r.1, r.2.1, { s with streams := s.streams.set data.fullStreamId r.2.2 })

def skip (s : InterleavedReassemblyStreams) (skipped : SkippedStream) :
    Nat × List Assembled × InterleavedReassemblyStreams :=
  let id : FullStreamId := toLex (skipped.unordered, skipped.streamId)
  let r := (s.stream id).eraseTo skipped.unordered skipped.mid
  (r.1, r.2.1, { s with streams := s.streams.set id r.2.2 })

def handleForwardTsn (s : InterleavedReassemblyStreams) :
    List SkippedStream → Nat × List Assembled × InterleavedReassemblyStreams
  | [] => (0, [], s)
  | skipped :: others =>
    let r := s.skip skipped
    let rest := r.2.2.handleForwardTsn others
    (r.1 + rest.1, r.2.1 ++ rest.2.1, rest.2.2)

def resetStream (s : InterleavedReassemblyStreams) (id : FullStreamId) :
    InterleavedReassemblyStreams :=
  { s with streams := s.streams.set id (s.stream id).reset }

/-- `ResetStreams`; an empty list is every stream. -/
def resetStreams (s : InterleavedReassemblyStreams) (streamIds : List StreamID) :
    InterleavedReassemblyStreams :=
  if streamIds = [] then { s with streams := s.streams.mapValues InterleavedStream.reset }
  else streamIds.foldl (fun s id =>
    (s.resetStream (toLex (true, id))).resetStream (toLex (false, id))) s

end InterleavedReassemblyStreams

/-! ## Bytes held

What an operation returns is what the bytes of the chunks in the streams change by. -/

theorem assembleMessage_bytes {V : Type} (f : Fragments V) (chunk : Int × V → Int × Data) :
    (assembleMessage (chunk f.first) (f.map.entries.tail.map chunk)).1 =
      (f.map.entries.map fun e => (chunk e).2.size).sum := by
  rw [assembleMessage_eq]
  rw [← map_cons, Fragments.first, cons_head_tail, map_map]
  rfl

namespace UnorderedStream

variable {chunk : Int × Data} {found others : List (Int × Data)} (s : UnorderedStream)

def bytes (s : UnorderedStream) : Nat := s.chunks.total fun _ data => data.size

theorem findBeginning_suffix (h : findBeginning chunk others = some found) :
    ∃ left, others = found.reverse ++ left := by
  induction others generalizing chunk found with
  | nil =>
    rw [findBeginning] at h
    split_ifs at h
    cases h
    exact ⟨[], rfl⟩
  | cons prev before ih =>
    rw [findBeginning] at h
    split_ifs at h
    · cases h
      exact ⟨prev :: before, rfl⟩
    · obtain ⟨earlier, hfound, rfl⟩ := Option.map_eq_some_iff.mp h
      obtain ⟨left, rfl⟩ := ih hfound
      exact ⟨left, by simp⟩

theorem findEnd_prefix (h : findEnd chunk others = some found) :
    ∃ left, others = found ++ left := by
  induction others generalizing chunk found with
  | nil =>
    rw [findEnd] at h
    split_ifs at h
    cases h
    exact ⟨[], rfl⟩
  | cons next after ih =>
    rw [findEnd] at h
    split_ifs at h
    · cases h
      exact ⟨next :: after, rfl⟩
    · obtain ⟨later, hfound, rfl⟩ := Option.map_eq_some_iff.mp h
      obtain ⟨left, rfl⟩ := ih hfound
      exact ⟨left, rfl⟩

theorem tryToAssembleMessage_bytes (hmem : chunk ∈ s.chunks.entries) :
    s.bytes = (s.tryToAssembleMessage chunk).1 + (s.tryToAssembleMessage chunk).2.2.bytes := by
  rw [tryToAssembleMessage]
  split
  case h_1 beginning ending hbeginning hending =>
    -- the chunks of the message follow each other in the map
    have hsub : (beginning ++ chunk :: ending).Sublist s.chunks.entries := by
      obtain ⟨earlier, hbefore⟩ := findBeginning_suffix hbeginning
      obtain ⟨later, hafter⟩ := findEnd_prefix hending
      have hbefore' := congrArg reverse hbefore
      rw [reverse_reverse, reverse_append, reverse_reverse] at hbefore'
      rw [s.chunks.entries_eq_around hmem, hbefore', hafter]
      exact (sublist_append_right _ _).append ((sublist_append_left _ _).cons_cons chunk)
    cases hchunks : beginning ++ chunk :: ending with
    | nil => simp at hchunks
    | cons start others =>
      rw [hchunks] at hsub
      dsimp only
      rw [assembleMessage_eq]
      exact OrdMap.total_erase_all (fun _ data => data.size) _ _ hsub
  case h_2 => exact (Nat.zero_add _).symm

theorem add_bytes (tsn : Int) (data : Data) :
    (s.add tsn data).1 = (s.add tsn data).2.2.bytes - s.bytes := by
  rw [add]
  split_ifs with hwhole hsome
  · exact (sub_self _).symm
  · exact (sub_self _).symm
  · have hnone : s.chunks.find? tsn = none := by simpa using hsome
    have hmem := (s.chunks.mem_emplace hnone data _).mpr (Or.inl rfl)
    have htry := tryToAssembleMessage_bytes { s with chunks := s.chunks.emplace tsn data } hmem
    have hadded : bytes { s with chunks := s.chunks.emplace tsn data } = data.size + s.bytes :=
      s.chunks.total_emplace hnone data _
    dsimp only
    omega

theorem eraseTo_bytes (tsn : Int) : s.bytes = (s.eraseTo tsn).1 + (s.eraseTo tsn).2.bytes :=
  s.chunks.total_dropWhile _ _

end UnorderedStream

namespace OrderedStream

variable (s : OrderedStream)

def bytes (s : OrderedStream) : Nat := totalIn s.chunksBySsn Data.size

theorem tryToAssembleMessage_bytes :
    s.bytes = s.tryToAssembleMessage.1 + s.tryToAssembleMessage.2.2.bytes := by
  rw [tryToAssembleMessage]
  cases hentries : s.chunksBySsn.entries with
  | nil => exact (Nat.zero_add _).symm
  | cons e rest =>
    dsimp only
    split_ifs
    · exact (Nat.zero_add _).symm
    · exact (Nat.zero_add _).symm
    · exact (Nat.zero_add _).symm
    · have hmem := hentries ▸ mem_cons_self
      have hassembled := assembleMessage_bytes e.2 id
      rw [map_id] at hassembled
      refine (totalIn_erase ((s.chunksBySsn.find?_eq_some_iff e.1 e.2).mpr hmem) Data.size).trans ?_
      exact congrArg (· + _) hassembled.symm

theorem tryToAssembleMessages_bytes :
    s.bytes = s.tryToAssembleMessages.1 + s.tryToAssembleMessages.2.2.bytes := by
  induction s using tryToAssembleMessages.induct with
  | case1 s hzero =>
    rw [tryToAssembleMessages, if_pos hzero]
    exact s.tryToAssembleMessage_bytes
  | case2 s hzero ih =>
    rw [tryToAssembleMessages, if_neg hzero]
    have hone := s.tryToAssembleMessage_bytes
    dsimp only
    omega

theorem addUnwrapped_bytes (ssn tsn : Int) (data : Data) :
    (s.addUnwrapped ssn tsn data).1 = (s.addUnwrapped ssn tsn data).2.2.bytes - s.bytes := by
  rw [addUnwrapped]
  split_ifs
  · rw [tryToAssembleMessagesFastpath]
    split_ifs
    · have hrest := tryToAssembleMessages_bytes { s with nextSsn := s.nextSsn + 1 }
      have hsame : bytes { s with nextSsn := s.nextSsn + 1 } = s.bytes := rfl
      have hchunk : (assembleChunk (tsn, data)).1 = data.size := rfl
      dsimp only
      omega
    · cases hadd : emplaceIn s.chunksBySsn ssn tsn data with
      | none =>
        dsimp only
        omega
      | some chunksBySsn =>
        have hadded : bytes { s with chunksBySsn := chunksBySsn } = s.bytes + data.size :=
          totalIn_emplaceIn hadd Data.size
        have hrest := tryToAssembleMessages_bytes { s with chunksBySsn := chunksBySsn }
        dsimp only
        omega
  · cases hadd : emplaceIn s.chunksBySsn ssn tsn data with
    | none => exact (sub_self _).symm
    | some chunksBySsn =>
      have hadded : bytes { s with chunksBySsn := chunksBySsn } = s.bytes + data.size :=
        totalIn_emplaceIn hadd Data.size
      dsimp only
      omega

theorem add_bytes (tsn : Int) (data : Data) :
    (s.add tsn data).1 = (s.add tsn data).2.2.bytes - s.bytes :=
  addUnwrapped_bytes { s with ssnUnwrapper := (s.ssnUnwrapper.unwrap data.ssn).2 } _ tsn data

theorem eraseTo_bytes (ssn : SSN) : s.bytes = (s.eraseTo ssn).1 + (s.eraseTo ssn).2.2.bytes := by
  rw [eraseTo]
  rw [Nat.add_assoc, ← tryToAssembleMessages_bytes]
  exact s.chunksBySsn.total_dropWhile _ fun _ chunks => chunks.total Data.size

end OrderedStream

namespace TraditionalReassemblyStreams

variable (s : TraditionalReassemblyStreams)

def bytes (s : TraditionalReassemblyStreams) : Nat :=
  s.unorderedStreams.total (fun _ stream => stream.bytes) +
    s.orderedStreams.total fun _ stream => stream.bytes

theorem bytes_setOrdered (id : StreamID) (stream : OrderedStream) :
    bytes { s with orderedStreams := s.orderedStreams.set id stream } +
      (s.orderedStream id).bytes = s.bytes + stream.bytes := by
  have hset := s.orderedStreams.total_set_getD id stream (fun _ stream => stream.bytes)
    (show (OrderedStream.initial 0).bytes = 0 from rfl)
  simp only [bytes, orderedStream]
  omega

theorem add_bytes (tsn : Int) (data : Data) :
    (s.add tsn data).1 = (s.add tsn data).2.2.bytes - s.bytes := by
  rw [add]
  split_ifs
  · have hset := s.unorderedStreams.total_set_getD data.streamId
      ((s.unorderedStream data.streamId).add tsn data).2.2 (fun _ stream => stream.bytes)
      (show UnorderedStream.bytes {} = 0 from rfl)
    have hadd := (s.unorderedStream data.streamId).add_bytes tsn data
    simp only [bytes]
    rw [hadd, unorderedStream]
    rw [unorderedStream] at hset
    omega
  · have hset := s.bytes_setOrdered data.streamId
      ((s.orderedStream data.streamId).add tsn data).2.2
    have hadd := (s.orderedStream data.streamId).add_bytes tsn data
    dsimp only
    omega

theorem skipAll_bytes (skippedStreams : List SkippedStream) (s : TraditionalReassemblyStreams) :
    s.bytes = (s.skipAll skippedStreams).1 + (s.skipAll skippedStreams).2.2.bytes := by
  induction skippedStreams generalizing s with
  | nil => exact (Nat.zero_add _).symm
  | cons skipped others ih =>
    have hset := s.bytes_setOrdered skipped.streamId
      ((s.orderedStream skipped.streamId).eraseTo skipped.ssn).2.2
    have herase := (s.orderedStream skipped.streamId).eraseTo_bytes skipped.ssn
    have hrest := ih (s.skip skipped).2.2
    have hskip : s.bytes = (s.skip skipped).1 + (s.skip skipped).2.2.bytes := by
      rw [skip]
      dsimp only
      omega
    rw [skipAll]
    dsimp only
    omega

theorem handleForwardTsn_bytes (newCumulativeAckTsn : Int) (skippedStreams : List SkippedStream) :
    s.bytes = (s.handleForwardTsn newCumulativeAckTsn skippedStreams).1 +
      (s.handleForwardTsn newCumulativeAckTsn skippedStreams).2.2.bytes := by
  rw [handleForwardTsn]
  rw [Nat.add_assoc, ← skipAll_bytes]
  simp only [bytes]
  rw [OrdMap.total_mapValues, ← Nat.add_assoc]
  refine congrArg (· + _) ?_
  rw [OrdMap.total, OrdMap.total, ← sum_map_add]
  exact congrArg sum (map_congr_left fun e _ => e.2.eraseTo_bytes newCumulativeAckTsn)

theorem resetStreams_bytes (streamIds : List StreamID) :
    (s.resetStreams streamIds).bytes = s.bytes := by
  rw [resetStreams]
  split_ifs
  · rw [bytes, OrdMap.total_mapValues]
    rfl
  · refine foldlRecOn (motive := fun t => bytes t = s.bytes) streamIds _ rfl ?_
    intro t ht id _
    have hsame := t.orderedStreams.total_modify_of_eq id (g := OrderedStream.reset)
      (f := fun _ stream => stream.bytes) fun _ => rfl
    rw [← ht, bytes, hsame]
    rfl

end TraditionalReassemblyStreams

namespace InterleavedStream

variable (unordered : Bool)

def bytes (s : InterleavedStream) : Nat := totalIn s.chunksByMid fun chunk => chunk.2.size

section

variable (s : InterleavedStream)

theorem tryToAssembleMessage_bytes (mid : Int) :
    s.bytes = (s.tryToAssembleMessage mid).1 + (s.tryToAssembleMessage mid).2.2.bytes := by
  rw [tryToAssembleMessage]
  cases hfind : s.chunksByMid.find? mid with
  | none => exact (Nat.zero_add _).symm
  | some chunks =>
    dsimp only
    split_ifs
    · exact (Nat.zero_add _).symm
    · exact (Nat.zero_add _).symm
    · refine (totalIn_erase hfind _).trans ?_
      exact congrArg (· + _) (assembleMessage_bytes chunks Prod.snd).symm

theorem tryToAssembleMessages_bytes :
    s.bytes = s.tryToAssembleMessages.1 + s.tryToAssembleMessages.2.2.bytes := by
  induction s using tryToAssembleMessages.induct with
  | case1 s hzero =>
    rw [tryToAssembleMessages, if_pos hzero]
    exact s.tryToAssembleMessage_bytes s.nextMid
  | case2 s hzero r ih =>
    rw [tryToAssembleMessages, if_neg hzero]
    calc
      s.bytes = r.1 + r.2.2.bytes := s.tryToAssembleMessage_bytes s.nextMid
      _ = _ := by
        rw [Nat.add_assoc]
        exact congrArg (r.1 + ·) ih

theorem addSlow_bytes (mid tsn : Int) (data : Data) : (s.addSlow unordered mid tsn data).1 =
      (s.addSlow unordered mid tsn data).2.2.bytes - s.bytes := by
  rw [addSlow]
  cases hadd : emplaceIn s.chunksByMid mid data.fsn.toNat (tsn, data) with
  | none => exact (sub_self _).symm
  | some chunksByMid =>
    have hadded : bytes { s with chunksByMid := chunksByMid } = s.bytes + data.size :=
      totalIn_emplaceIn hadd fun chunk => chunk.2.size
    have hone := tryToAssembleMessage_bytes { s with chunksByMid := chunksByMid } mid
    have hrest := tryToAssembleMessages_bytes { s with chunksByMid := chunksByMid }
    dsimp only
    split_ifs <;> dsimp only <;> omega

theorem addUnwrapped_bytes (mid tsn : Int) (data : Data) :
    (s.addUnwrapped unordered mid tsn data).1 =
      (s.addUnwrapped unordered mid tsn data).2.2.bytes - s.bytes := by
  rw [addUnwrapped]
  split_ifs
  · exact (sub_self _).symm
  · have hrest := tryToAssembleMessages_bytes { s with nextMid := s.nextMid + 1 }
    have hsame : bytes { s with nextMid := s.nextMid + 1 } = s.bytes := rfl
    dsimp only
    omega
  · exact s.addSlow_bytes unordered mid tsn data

theorem add_bytes (tsn : Int) (data : Data) :
    (s.add unordered tsn data).1 = (s.add unordered tsn data).2.2.bytes - s.bytes :=
  addUnwrapped_bytes unordered { s with midUnwrapper := (s.midUnwrapper.unwrap data.mid).2 } _ tsn
    data

theorem eraseTo_bytes (mid : MID) :
    s.bytes = (s.eraseTo unordered mid).1 + (s.eraseTo unordered mid).2.2.bytes := by
  have hdrop := s.chunksByMid.total_dropWhile (fun e => e.1 ≤ (s.midUnwrapper.unwrap mid).1)
    fun _ chunks => chunks.total fun chunk => chunk.2.size
  rw [eraseTo]
  cases unordered with
  | true => exact hdrop
  | false =>
    rw [if_neg Bool.false_ne_true, Nat.add_assoc, ← tryToAssembleMessages_bytes]
    exact hdrop

end

end InterleavedStream

namespace InterleavedReassemblyStreams

variable (s : InterleavedReassemblyStreams)

def bytes (s : InterleavedReassemblyStreams) : Nat := s.streams.total fun _ stream => stream.bytes

theorem bytes_set (id : FullStreamId) (stream : InterleavedStream) :
    bytes { s with streams := s.streams.set id stream } + (s.stream id).bytes =
      s.bytes + stream.bytes :=
  s.streams.total_set_getD id stream (fun _ stream => stream.bytes)
    (show (InterleavedStream.initial 0).bytes = 0 from rfl)

theorem add_bytes (tsn : Int) (data : Data) :
    (s.add tsn data).1 = (s.add tsn data).2.2.bytes - s.bytes := by
  have hset := s.bytes_set data.fullStreamId
    ((s.stream data.fullStreamId).add data.isUnordered tsn data).2.2
  have hadd := (s.stream data.fullStreamId).add_bytes data.isUnordered tsn data
  rw [add]
  dsimp only
  omega

theorem handleForwardTsn_bytes (skippedStreams : List SkippedStream)
    (s : InterleavedReassemblyStreams) :
    s.bytes = (s.handleForwardTsn skippedStreams).1 +
      (s.handleForwardTsn skippedStreams).2.2.bytes := by
  induction skippedStreams generalizing s with
  | nil => exact (Nat.zero_add _).symm
  | cons skipped others ih =>
    have hset := s.bytes_set (toLex (skipped.unordered, skipped.streamId))
      ((s.stream (toLex (skipped.unordered, skipped.streamId))).eraseTo skipped.unordered
        skipped.mid).2.2
    have herase := (s.stream (toLex (skipped.unordered, skipped.streamId))).eraseTo_bytes
      skipped.unordered skipped.mid
    have hskip : s.bytes = (s.skip skipped).1 + (s.skip skipped).2.2.bytes := by
      rw [skip]
      dsimp only
      omega
    have hrest := ih (s.skip skipped).2.2
    rw [handleForwardTsn]
    dsimp only
    omega

theorem resetStream_bytes (id : FullStreamId) : (s.resetStream id).bytes = s.bytes := by
  have hset := s.bytes_set id (s.stream id).reset
  have hreset : (s.stream id).reset.bytes = (s.stream id).bytes := rfl
  rw [resetStream]
  omega

theorem resetStreams_bytes (streamIds : List StreamID) :
    (s.resetStreams streamIds).bytes = s.bytes := by
  rw [resetStreams]
  split_ifs
  · rw [bytes, OrdMap.total_mapValues]
    rfl
  · refine foldlRecOn (motive := fun t => bytes t = s.bytes) streamIds _ rfl ?_
    intro t ht id _
    rw [resetStream_bytes, resetStream_bytes, ht]

end InterleavedReassemblyStreams

end Dcsctp
