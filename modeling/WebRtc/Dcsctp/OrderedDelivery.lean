import WebRtc.Dcsctp.MessageBlocks
import WebRtc.Dcsctp.OrderedReassembly

/-!
# Messages cross the network in order

The chunks of a send queue without interleaving get consecutive TSNs. Whatever the network loses or
reorders, the receiver delivers a prefix of the messages that were sent on a stream.
-/

namespace Dcsctp

open SequenceNumbers Wrapping Fragments RRSendQueue List

/-- The chunks of a stream that are sent in a run, with the TSNs they get among all chunks. -/
def wire (id : StreamID) (firstTsn : Int) (seen : List Observation) : List (Int × Data) :=
  (numbered firstTsn (seen.filterMap fun o => o.chunk?.map DataToSend.data)).filter fun chunk =>
    chunk.2.streamId = id

/-- Messages are added, to the stream for delivery in order, and chunks with a payload are sent. -/
def orderly (id : StreamID) : Observation → Bool
  | .accepted item => item.message.streamId ≠ id || !item.attributes.unordered
  | .sent chunk => !chunk.data.payload.isEmpty
  | _ => false

namespace Block

def data (b : Block) : List Data := (b.chunks true).map DataToSend.data

/-- What the receiver needs of a block. -/
structure Sendable (id : StreamID) (b : Block) : Prop where
  whole : b.Whole
  ordered : b.streamId = id → b.origin.attributes.unordered = false
  few : b.data.length ≤ 2 ^ 32
  filled : ∀ data ∈ b.data, data.payload ≠ []

variable {id : StreamID} {b : Block} {blocks : List Block}

theorem data_eq (b : Block) : b.data = b.fragments.zipIdx.map fun f =>
    (b.chunk f.2 f.1 (f.2 + 1 = b.fragments.length)).data := by
  simp [data, chunks, Function.comp_def]

theorem numbered_append (tsn : Int) (l l' : List Data) :
    numbered tsn (l ++ l') = numbered tsn l ++ numbered (tsn + l.length) l' := by
  simp only [numbered, zipIdx_append, map_append, append_cancel_left_eq]
  rw [zipIdx_eq_map_add, map_map]
  refine map_congr_left fun p _ => ?_
  simp [add_assoc]

theorem streamId_of_mem_numbered {tsn : Int} {chunk : Int × Data} (h : chunk ∈ numbered tsn b.data) :
    chunk.2.streamId = b.streamId := by
  obtain ⟨k, -, hget⟩ := mem_numbered.mp h
  have hmem := mem_of_getElem? hget
  rw [data_eq] at hmem
  obtain ⟨f, -, hf⟩ := mem_map.mp hmem
  rw [← hf]
  rfl

/-- What the receiver makes of a block is the message as it was added. -/
theorem Sendable.message (h : b.Sendable id) (tsn : Int) :
    (OrderedMessage.assembled b.streamId ⟨tsn, b.data⟩).message = b.origin.message := by
  obtain ⟨fragment, rest, hfragments⟩ := exists_cons_of_ne_nil h.whole.begun
  have hpayloads : b.data.map Data.payload = b.fragments := by
    rw [data_eq, map_map]
    exact zipIdx_map_fst 0 b.fragments
  have hpayload : (numbered tsn b.data).flatMap (fun chunk => chunk.2.payload) = b.payload := by
    rw [← h.whole.complete, sent, ← hpayloads, ← map_snd_numbered tsn b.data, map_map, flatMap_def,
      map_snd_numbered]
    rfl
  have hhead : (numbered tsn b.data).head?.map (fun chunk => chunk.2.ppid) =
      some b.origin.message.ppid := by
    rw [data_eq, hfragments]
    rfl
  rw [OrderedMessage.assembled, assembledFrom, OrderedMessage.chunks, hpayload, hhead]
  rfl

/-- A block announces its number with its first chunk. -/
theorem Sendable.numberOn_chunks (h : b.Sendable id) :
    (b.chunks true).filterMap (fun chunk => Observation.numberOn id (.sent chunk)) =
      if b.streamId = id then [some (b.ssn.getD 0)] else [] := by
  obtain ⟨fragment, rest, hfragments⟩ := exists_cons_of_ne_nil h.whole.begun
  have hrest : ∀ f ∈ rest.zipIdx 1, ∀ last,
      Observation.numberOn id (.sent (b.chunk f.2 f.1 last)) = none := by
    intro f hf last
    have hindex := le_snd_of_mem_zipIdx hf
    refine if_neg fun hnumber => ?_
    have hzero : f.2 = 0 := of_decide_eq_true hnumber.2.1
    omega
  have hnone := filterMap_eq_nil_iff.mpr fun f hf => hrest f hf (true && f.2 + 1 = b.fragments.length)
  rw [chunks, filterMap_map, hfragments, zipIdx_cons, ← hfragments]
  by_cases hid : b.streamId = id
  · rw [if_pos hid, filterMap_cons_some (b := some (b.ssn.getD 0))]
    · exact congrArg _ hnone
    · simp [numberOn_sent, chunk, hid, h.ordered hid]
  · rw [if_neg hid, filterMap_cons_none]
    · exact hnone
    · simp [numberOn_sent, chunk, hid]

theorem Sendable.valid (h : b.Sendable id) (hid : b.streamId = id) (tsn : Int) :
    OrderedMessage.Valid ⟨tsn, b.data⟩ id (b.ssn.getD 0) := by
  refine ⟨⟨?_, fun k data hget => ?_⟩, h.few, fun data hmem => ?_⟩
  · rw [data_eq, Ne, map_eq_nil_iff, zipIdx_eq_nil_iff]
    exact h.whole.begun
  · rw [data_eq, getElem?_map, getElem?_zipIdx] at hget
    obtain ⟨f, hf, rfl⟩ := Option.map_eq_some_iff.mp hget
    obtain ⟨fragment, -, rfl⟩ := Option.map_eq_some_iff.mp hf
    constructor <;> simp [chunk, data_eq]
  · have hfilled := h.filled data hmem
    rw [data_eq] at hmem
    obtain ⟨f, -, rfl⟩ := mem_map.mp hmem
    exact ⟨hid, rfl, h.ordered hid, hfilled⟩

/-- Blocks whose numbers are due carry messages of the stream, with consecutive numbers. -/
theorem exists_messages (h : ∀ b ∈ blocks, b.Sendable id) (n tsn : Int)
    (numbers : (numberDue (wrap 16 n) ((blocks.flatMap (chunks · true)).filterMap fun chunk =>
      Observation.numberOn id (.sent chunk))).isSome = true) :
    ∃ messages : List OrderedMessage,
      (numbered tsn (blocks.flatMap data)).filter (fun chunk => chunk.2.streamId = id) =
        messages.flatMap OrderedMessage.chunks ∧
      messages.map (fun m => (m.assembled id).message) =
        (blocks.filter fun b => b.streamId = id).map (fun b => b.origin.message) ∧
      ∀ (i : Nat) (m : OrderedMessage), messages[i]? = some m → m.Valid id (wrap 16 (n + i)) := by
  induction blocks generalizing n tsn with
  | nil => exact ⟨[], rfl, rfl, by simp⟩
  | cons b blocks ih =>
    obtain ⟨hb, hblocks⟩ := forall_mem_cons.mp h
    rw [flatMap_cons, filterMap_append, hb.numberOn_chunks] at numbers
    rw [flatMap_cons, numbered_append, filter_append, filter_cons]
    by_cases hid : b.streamId = id
    · subst hid
      rw [if_pos rfl, singleton_append, numberDue] at numbers
      have hdue : b.ssn.getD 0 = wrap 16 n := by
        by_contra hne
        rw [if_neg hne] at numbers
        cases numbers
      rw [if_pos hdue, hdue, show (1 : SSN) = wrap 16 1 from rfl, ← wrap_add] at numbers
      obtain ⟨messages, hchunks, hmessages, hvalid⟩ := ih hblocks (n + 1) _ numbers
      refine ⟨⟨tsn, b.data⟩ :: messages, ?_, ?_, fun i m hget => ?_⟩
      · rw [hchunks, filter_eq_self.mpr fun chunk hmem =>
          decide_eq_true (streamId_of_mem_numbered hmem)]
        rfl
      · rw [if_pos (decide_eq_true rfl), map_cons, map_cons, hmessages, hb.message]
      · cases i with
        | zero =>
          obtain rfl := Option.some.inj hget
          rw [Nat.cast_zero, add_zero, ← hdue]
          exact hb.valid rfl tsn
        | succ i =>
          have hrest := hvalid i m hget
          rwa [show n + 1 + (i : Int) = n + (i + 1 : Nat) by push_cast; ring] at hrest
    · rw [if_neg hid, nil_append] at numbers
      rw [if_neg (by simpa using hid), filter_eq_nil_iff.mpr fun chunk hmem hchunk =>
        hid ((streamId_of_mem_numbered hmem).symm.trans (of_decide_eq_true hchunk)), nil_append]
      exact ih hblocks n _ numbers

end Block

/-- If nothing interrupts the sending, every segment is a whole message. -/
theorem exists_blocks {segments : List Segment}
    (h : ∀ o ∈ segments.flatMap Segment.observations, ∃ chunk, o = .sent chunk) :
    ∃ blocks : List Block, segments = blocks.map .finished := by
  induction segments with
  | nil => exact ⟨[], rfl⟩
  | cons segment segments ih =>
    rw [flatMap_cons, forall_mem_append] at h
    obtain ⟨blocks, rfl⟩ := ih h.2
    cases segment with
    | finished b => exact ⟨b :: blocks, rfl⟩
    | _ => simpa [Segment.observations, or_imp, forall_and] using h.1

section

variable {id : StreamID} {seen : List Observation} {blocks : List Block}
  (hseen : ∀ o ∈ seen, orderly id o = true)
  (hsent : seen.filter Observation.isSending = (blocks.flatMap (Block.chunks · true)).map .sent)

include hseen hsent

/-- What is read off the chunks of the history is read off the blocks. -/
theorem filterMap_history {β : Type} (f : Observation → Option β)
    (hf : ∀ item, f (.accepted item) = none) : seen.filterMap f =
      (blocks.flatMap (Block.chunks · true)).filterMap fun chunk => f (.sent chunk) := by
  change _ = (blocks.flatMap (Block.chunks · true)).filterMap (f ∘ .sent)
  rw [← filterMap_map, ← hsent, filterMap_filter]
  refine filterMap_congr fun o ho => ?_
  have horderly := hseen o ho
  cases o with
  | accepted item => exact hf item
  | sent chunk => rfl
  | _ => cases horderly

theorem data_history :
    seen.filterMap (fun o => o.chunk?.map DataToSend.data) = blocks.flatMap Block.data :=
  ((filterMap_history hseen hsent (fun o => o.chunk?.map DataToSend.data) fun _ => rfl).trans
    (congrFun filterMap_eq_map' _)).trans (map_flatMap ..)

theorem sendable_blocks (hshort : seen.length ≤ 2 ^ 32) (hwhole : ∀ b ∈ blocks, b.Whole)
    (hmessages : ((blocks.filter fun b => b.streamId = id).map Block.origin).Sublist
      (seen.filterMap (Observation.acceptedOn id))) : ∀ b ∈ blocks, b.Sendable id := by
  intro b hb
  refine ⟨hwhole b hb, fun hid => ?_, ?_, fun data hmem => ?_⟩
  · have hmem := hmessages.subset (mem_map_of_mem (mem_filter.mpr ⟨hb, decide_eq_true hid⟩))
    obtain ⟨o, ho, haccepted⟩ := mem_filterMap.mp hmem
    have horderly := hseen o ho
    cases o with
    | accepted item =>
      rw [Observation.acceptedOn] at haccepted
      split_ifs at haccepted with hitem
      obtain rfl := Option.some.inj haccepted
      simpa [orderly, hitem] using horderly
    | _ => cases haccepted
  · have hlength := length_filterMap_le (fun o : Observation => o.chunk?.map DataToSend.data) seen
    rw [data_history hseen hsent, length_flatMap] at hlength
    exact ((single_le_sum (fun _ _ => Nat.zero_le _) _ (mem_map_of_mem hb)).trans hlength).trans hshort
  · obtain ⟨chunk, hchunk, rfl⟩ := mem_map.mp hmem
    have hin : Observation.sent chunk ∈ seen.filter Observation.isSending :=
      hsent ▸ mem_map_of_mem (mem_flatMap.mpr ⟨b, hb, hchunk⟩)
    simpa [orderly] using hseen _ (mem_filter.mp hin).1

end

theorem exists_messages_of_account {q : RRSendQueue} {seen : List Observation} {segments : List Segment}
    (h : Account q seen segments none) {id : StreamID} (hseen : ∀ o ∈ seen, orderly id o = true)
    (hshort : seen.length ≤ 2 ^ 32) (firstTsn : Int) :
    ∃ sent : List OrderedMessage, wire id firstTsn seen = sent.flatMap OrderedMessage.chunks ∧
      (sent.map fun m => (m.assembled id).message).Sublist
        ((seen.filterMap (Observation.acceptedOn id)).map QueuedMessage.message) ∧
      ∀ (i : Nat) (m : OrderedMessage), sent[i]? = some m → m.Valid id (wrap 16 (0 + i)) := by
  have hsending := h.sending
  rw [Option.toList_none, flatMap_nil, append_nil] at hsending
  obtain ⟨blocks, rfl⟩ : ∃ blocks : List Block, segments = blocks.map .finished := by
    refine exists_blocks fun o ho => ?_
    rw [← hsending, mem_filter] at ho
    have horderly := hseen o ho.1
    cases o with
    | sent chunk => exact ⟨chunk, rfl⟩
    | accepted item => cases ho.2
    | _ => cases horderly
  have hsent : seen.filter Observation.isSending =
      (blocks.flatMap (Block.chunks · true)).map .sent := by
    rw [hsending, flatMap_map, map_flatMap]
    rfl
  have hmessages : ((blocks.filter fun b => b.streamId = id).map Block.origin).Sublist
      (seen.filterMap (Observation.acceptedOn id)) := by
    have hsublist := (sublist_append_left _ _).trans (h.messages id)
    rw [show origins (blocks.map .finished) none = blocks.map Block.origin by
      simp [origins, filterMap_map, Function.comp_def, Segment.origin], filter_map] at hsublist
    exact hsublist
  have hsendable := sendable_blocks hseen hsent hshort (fun b hb => h.valid _ (mem_map_of_mem hb))
    hmessages
  obtain ⟨sent, hwire, hassembled, hvalid⟩ := Block.exists_messages hsendable 0 firstTsn (by
    rw [← filterMap_history hseen hsent (Observation.numberOn id) fun _ => rfl]
    exact Option.isSome_iff_exists.mpr ⟨_, h.numbers id⟩)
  rw [← data_history hseen hsent] at hwire
  refine ⟨sent, hwire, ?_, hvalid⟩
  rw [hassembled]
  have hsublist := hmessages.map QueuedMessage.message
  rwa [map_map] at hsublist

end Dcsctp
