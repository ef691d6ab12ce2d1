import WebRtc.Dcsctp.OutstandingDataConsistency
import WebRtc.Lib.OrdMap

/-!
# Forward TSN chunks

Model of `OutstandingData::CreateForwardTsn` (`net/dcsctp/tx/outstanding_data.cc`): how far the
receiver may move its cumulative TSN, and which stream sequence numbers it skips then. These are
compared as numbers, so that the last one of a stream is found only if they do not wrap around among
the skipped chunks.
-/

namespace Dcsctp

open List

structure ForwardTsnChunk where
  newCumulativeTsn : TSN
  skippedStreams : List SkippedStream
deriving DecidableEq, Repr

namespace OutstandingData

/-- What `CreateForwardTsn` notes for a chunk. A new stream gets an entry with number zero first. -/
def noteSkipped (skippedPerOrderedStream : OrdMap StreamID SSN) (data : Data) :
    OrdMap StreamID SSN :=
  if data.isUnordered then skippedPerOrderedStream
  else
    let skipped := (skippedPerOrderedStream.find? data.streamId).getD 0
    if skipped < data.ssn then skippedPerOrderedStream.set data.streamId data.ssn
    else skippedPerOrderedStream.set data.streamId skipped

def forwardLoop (breakpoints : Finset Int) :
    List Item → Int → Int → OrdMap StreamID SSN → Int × OrdMap StreamID SSN
  | [], _, newCumulativeAck, skipped => (newCumulativeAck, skipped)
  | item :: rest, tsn, newCumulativeAck, skipped =>
    if tsn + 1 ∈ breakpoints ∨ tsn + 1 ≠ newCumulativeAck + 1 ∨ item.isAbandoned = false then
      (newCumulativeAck, skipped)
    else forwardLoop breakpoints rest (tsn + 1) (tsn + 1) (noteSkipped skipped item.data)

def createForwardTsn (d : OutstandingData) : ForwardTsnChunk :=
  let forwarded := forwardLoop d.streamResetBreakpointTsns d.outstandingData.items
    d.lastCumulativeTsnAck d.lastCumulativeTsnAck OrdMap.empty
  { newCumulativeTsn := BitVec.ofInt 32 forwarded.1
    skippedStreams := forwarded.2.entries.map fun e =>
      { streamId := e.1, ssn := e.2, unordered := false, mid := 0 } }

/-- So many items at the front are abandoned, with no breakpoint among their TSNs. -/
def Forwardable (d : OutstandingData) (n : Nat) : Prop :=
  n ≤ d.outstandingData.items.length ∧ ∀ i item, i < n → d.outstandingData.items[i]? = some item →
      item.isAbandoned = true ∧ d.lastCumulativeTsnAck + 1 + i ∉ d.streamResetBreakpointTsns

def orderedOf (streamId : StreamID) (items : List Item) : List Item :=
  items.filter fun item => !item.data.isUnordered && item.data.streamId = streamId

section Loop

variable {breakpoints : Finset Int}

theorem forwardLoop_spec :
    ∀ (items : List Item) (tsn : Int) (skipped : OrdMap StreamID SSN), ∃ n, n ≤ items.length ∧
        forwardLoop breakpoints items tsn tsn skipped =
          (tsn + n, ((items.take n).map Item.data).foldl noteSkipped skipped) ∧
        (∀ i item, i < n → items[i]? = some item →
          item.isAbandoned = true ∧ tsn + 1 + i ∉ breakpoints) ∧ ∀ item, items[n]? = some item →
          item.isAbandoned = false ∨ tsn + 1 + n ∈ breakpoints := by
  intro items
  induction items with
  | nil =>
    intro tsn skipped
    refine ⟨0, le_rfl, by simp [forwardLoop], fun i _ hi => absurd hi (Nat.not_lt_zero i), ?_⟩
    exact fun item hitem => by simp at hitem
  | cons item rest ih =>
    intro tsn skipped
    rw [forwardLoop]
    split_ifs with hstop
    · refine ⟨0, Nat.zero_le _, by simp, fun i _ hi => absurd hi (Nat.not_lt_zero i), ?_⟩
      intro other hother
      obtain rfl : item = other := by simpa using hother
      rcases hstop with hbreak | hgap | halive
      · right
        simpa using hbreak
      · exact absurd rfl hgap
      · exact Or.inl halive
    · obtain ⟨n, hle, hloop, hfront, hnext⟩ := ih (tsn + 1) (noteSkipped skipped item.data)
      simp only [not_or, Bool.not_eq_false] at hstop
      refine ⟨n + 1, by simpa using hle, ?_, ?_, ?_⟩
      · rw [hloop]
        simp only [take_succ_cons, map_cons, foldl_cons, Prod.mk.injEq, and_true]
        omega
      · intro i other hi hother
        cases i with
        | zero =>
          obtain rfl : item = other := by simpa using hother
          exact ⟨hstop.2.2, by simpa using hstop.1⟩
        | succ i =>
          have h := hfront i other (by omega) (by simpa using hother)
          refine ⟨h.1, ?_⟩
          rw [show tsn + 1 + ((i + 1 : Nat) : Int) = tsn + 1 + 1 + i by omega]
          exact h.2
      · intro other hother
        have h := hnext other (by simpa using hother)
        rw [show tsn + 1 + ((n + 1 : Nat) : Int) = tsn + 1 + 1 + n by omega]
        exact h

theorem find?_noteSkipped (skipped : OrdMap StreamID SSN) (streamId : StreamID) (data : Data) :
    (noteSkipped skipped data).find? streamId =
      if data.isUnordered = false ∧ data.streamId = streamId then
        some (max ((skipped.find? streamId).getD 0) data.ssn)
      else skipped.find? streamId := by
  unfold noteSkipped
  by_cases hordered : data.isUnordered = false
  · by_cases hstream : data.streamId = streamId
    · simp only [hordered, Bool.false_eq_true, if_false, hstream, and_self]
      split_ifs with hless
      · rw [OrdMap.find?_set, if_pos rfl, max_eq_right hless.le]
      · rw [OrdMap.find?_set, if_pos rfl, max_eq_left (not_lt.mp hless)]
    · have hne : streamId ≠ data.streamId := fun h => hstream h.symm
      simp only [hordered, Bool.false_eq_true, if_false, hstream, and_false]
      split_ifs <;> rw [OrdMap.find?_set, if_neg hne]
  · simp [hordered]

/-- The entry of a stream is the numerically largest of its skipped sequence numbers. -/
theorem find?_foldl_noteSkipped (streamId : StreamID) (items : List Item) :
    orderedOf streamId items = [] ∧
      ((items.map Item.data).foldl noteSkipped OrdMap.empty).find? streamId = none ∨
    ∃ largest ∈ orderedOf streamId items,
      ((items.map Item.data).foldl noteSkipped OrdMap.empty).find? streamId =
        some largest.data.ssn ∧
      ∀ item ∈ orderedOf streamId items, item.data.ssn ≤ largest.data.ssn := by
  induction items using reverseRecOn with
  | nil => exact .inl ⟨rfl, rfl⟩
  | append_singleton items item ih =>
    have happend : orderedOf streamId (items ++ [item]) =
        orderedOf streamId items ++ orderedOf streamId [item] := filter_append ..
    rw [map_append, foldl_append, map_singleton, foldl_cons, foldl_nil, find?_noteSkipped, happend]
    split_ifs with hitem
    · have hone : orderedOf streamId [item] = [item] := by simp [orderedOf, hitem]
      rw [hone]
      right
      rcases ih with ⟨hnil, hnone⟩ | ⟨largest, hmem, hsome, hle⟩
      · refine ⟨item, by simp, ?_, by simp [hnil]⟩
        rw [hnone, Option.getD_none, max_eq_right (BitVec.le_def.mpr (Nat.zero_le _))]
      · rw [hsome, Option.getD_some]
        rcases le_total largest.data.ssn item.data.ssn with h | h
        · refine ⟨item, by simp, by rw [max_eq_right h], forall_mem_append.mpr ⟨?_, by simp⟩⟩
          exact fun other hother => (hle other hother).trans h
        · refine ⟨largest, mem_append_left _ hmem, by rw [max_eq_left h], ?_⟩
          exact forall_mem_append.mpr ⟨hle, by simpa using h⟩
    · have hnone : orderedOf streamId [item] = [] := by
        simpa [orderedOf] using hitem
      rwa [hnone, append_nil]

end Loop

section Names

theorem filter_skippedStreams (skipped : OrdMap StreamID SSN) (streamId : StreamID) :
    (skipped.entries.map fun e =>
      ({ streamId := e.1, ssn := e.2, unordered := false, mid := 0 } : SkippedStream)).filter
        (fun s => s.streamId = streamId) = ((skipped.find? streamId).map fun ssn =>
        ({ streamId := streamId, ssn := ssn, unordered := false, mid := 0 } :
          SkippedStream)).toList := by
  rw [filter_map]
  cases hfind : skipped.find? streamId with
  | none =>
    have hnone : skipped.entries.filter (fun e => e.1 = streamId) = [] := by
      refine filter_eq_nil_iff.mpr fun e hmem => ?_
      have habsent := (skipped.find?_eq_none_iff streamId).mp hfind
      intro heq
      exact habsent e.2 (of_decide_eq_true heq ▸ hmem)
    simp [Function.comp_def, hnone]
  | some ssn =>
    have hmem := (skipped.find?_eq_some_iff streamId ssn).mp hfind
    have hone : skipped.entries.filter (fun e => e.1 = streamId) = [(streamId, ssn)] := by
      convert skipped.filter_eq_singleton hmem
    simp [Function.comp_def, hone]

/-- The chunk forwards over the longest front of abandoned items before a breakpoint and lists each
ordered stream once, with the number of its last skipped chunk, exactly if that is the largest
one. -/
theorem createForwardTsn_names_last {d : OutstandingData} {n : Nat} (forwardable : d.Forwardable n)
    (longest : ∀ m, d.Forwardable m → m ≤ n) :
    (∀ streamId, ∀ last ∈ (orderedOf streamId (d.outstandingData.items.take n)).getLast?,
      ∀ item ∈ orderedOf streamId (d.outstandingData.items.take n),
        item.data.ssn ≤ last.data.ssn) ↔
    d.createForwardTsn.newCumulativeTsn = BitVec.ofInt 32 (d.lastCumulativeTsnAck + n) ∧
    ∀ streamId, d.createForwardTsn.skippedStreams.filter (fun s => s.streamId = streamId) =
      ((orderedOf streamId (d.outstandingData.items.take n)).getLast?.map fun item =>
        ({ streamId := streamId, ssn := item.data.ssn, unordered := false, mid := 0 } :
          SkippedStream)).toList := by
  obtain ⟨k, hle, hloop, hfront, hnext⟩ := @forwardLoop_spec d.streamResetBreakpointTsns
    d.outstandingData.items d.lastCumulativeTsnAck OrdMap.empty
  obtain rfl : k = n := by
    refine le_antisymm (longest k ⟨hle, hfront⟩) (not_lt.mp fun hlt => ?_)
    -- the item at which the loop stopped would belong to the front
    have hbound := hlt.trans_le forwardable.1
    have hitem := getElem?_eq_getElem hbound
    obtain ⟨habandoned, hbreak⟩ := forwardable.2 k _ hlt hitem
    rcases hnext _ hitem with halive | hcross
    · rw [habandoned] at halive
      exact Bool.noConfusion halive
    · exact hbreak hcross
  unfold createForwardTsn
  rw [hloop]
  refine Iff.trans (forall_congr' fun streamId => ?_) (and_iff_right rfl).symm
  rw [filter_skippedStreams]
  rcases find?_foldl_noteSkipped streamId (d.outstandingData.items.take k) with
    ⟨hnil, hnone⟩ | ⟨largest, hmem, hsome, hlargest⟩
  · rw [hnil, hnone]
    simp
  · obtain ⟨last, hlast⟩ := Option.isSome_iff_exists.mp
      (getLast?_isSome.mpr (ne_nil_of_mem hmem))
    rw [hlast, hsome]
    simp only [Option.mem_some_iff, forall_eq', Option.map_some, Option.toList_some, cons.injEq,
      SkippedStream.mk.injEq, and_true, true_and]
    constructor
    · exact fun h => le_antisymm (h largest hmem) (hlargest last (mem_of_getLast? hlast))
    · exact fun heq item hitem => heq ▸ hlargest item hitem

def abandonedItem (streamId : StreamID) (ssn : SSN) : Item where
  messageId := 0
  data :=
    { streamId := streamId
      ssn := ssn
      mid := 0
      fsn := 0
      ppid := 53
      payload := [1]
      isBeginning := true
      isEnd := true
      isUnordered := false }
  timeSent := .finite 0
  maxRetransmissions := 0
  expiresAt := .plusInfinity
  lifecycleId := 0
  lifecycle := .abandoned
  ackState := .nacked

/-- Outstanding data that consist of such chunks of one stream. -/
def abandonedRun (ssns : List SSN) : OutstandingData where
  dataChunkHeaderSize := 16
  outstandingData := ⟨9, ssns.map (abandonedItem 1)⟩

theorem createForwardTsn_names_last_abandonedRun :
    (abandonedRun [4, 5]).createForwardTsn.newCumulativeTsn = 11 ∧
    (abandonedRun [4, 5]).createForwardTsn.skippedStreams.filter (fun s => s.streamId = 1) =
      [⟨1, 5, false, 0⟩] := by
  have h := (@createForwardTsn_names_last (abandonedRun [4, 5]) 2
    ⟨by decide, fun i item hi hitem => ⟨?_, Finset.notMem_empty _⟩⟩ (fun m hm => hm.1)).mp ?_
  · exact ⟨h.1, h.2 1⟩
  · have hmem := mem_of_getElem? hitem
    obtain ⟨ssn, -, rfl⟩ := mem_map.mp hmem
    rfl
  · intro streamId last hlast item hitem
    obtain ⟨hin, hstream⟩ := mem_filter.mp hitem
    obtain ⟨ssn, hssn, rfl⟩ := mem_map.mp (mem_of_mem_take hin)
    obtain rfl : (1 : StreamID) = streamId := of_decide_eq_true hstream
    obtain rfl : abandonedItem 1 5 = last := Option.some_inj.mp hlast
    simp only [mem_cons, not_mem_nil, or_false] at hssn
    rcases hssn with rfl | rfl <;> decide

/-- The numbers wrap around among the skipped chunks: the chunk names 65535 and not 0. -/
theorem wrapped_ssn_not_named : (abandonedRun [65535, 0]).createForwardTsn.newCumulativeTsn = 11 ∧
    (abandonedRun [65535, 0]).createForwardTsn.skippedStreams = [⟨1, 65535, false, 0⟩] := by
  decide +kernel

end Names

end OutstandingData

end Dcsctp
