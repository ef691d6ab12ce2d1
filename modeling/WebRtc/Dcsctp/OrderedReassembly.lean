import WebRtc.Dcsctp.ReassemblyStreams

/-!
# Ordered messages are reassembled whatever the order of their chunks

The messages of a stream have consecutive stream sequence numbers, and the chunks of a message
consecutive TSNs. After any of the chunks have arrived, in any order, the stream has delivered the
leading messages that have arrived as a whole, and holds the rest.
-/

namespace Dcsctp

open SequenceNumbers Wrapping Fragments List

/-- A message in fragments, the first of which has the given TSN. -/
structure OrderedMessage where
  firstTsn : Int
  fragments : List Data
deriving DecidableEq

namespace OrderedMessage

def chunks (m : OrderedMessage) : List (Int × Data) := numbered m.firstTsn m.fragments

def assembled (id : StreamID) (m : OrderedMessage) : Assembled := assembledFrom id m.chunks

def Arrived (m : OrderedMessage) (chunks : List (Int × Data)) : Prop :=
  ∀ chunk ∈ m.chunks, chunk ∈ chunks

instance (m : OrderedMessage) (chunks : List (Int × Data)) : Decidable (m.Arrived chunks) :=
  inferInstanceAs (Decidable (∀ chunk ∈ m.chunks, chunk ∈ chunks))

/-- An ordered message of a stream. Its chunks are not empty and have different TSNs. -/
structure Valid (m : OrderedMessage) (id : StreamID) (ssn : SSN) : Prop where
  delimited : Delimited Data.isBeginning Data.isEnd m.fragments
  few : m.fragments.length ≤ 2 ^ 32
  fields : ∀ data ∈ m.fragments, data.streamId = id ∧ data.ssn = ssn ∧
    data.isUnordered = false ∧ data.payload ≠ []

instance (m : OrderedMessage) (id : StreamID) (ssn : SSN) : Decidable (m.Valid id ssn) :=
  decidable_of_iff (Delimited Data.isBeginning Data.isEnd m.fragments ∧
      m.fragments.length ≤ 2 ^ 32 ∧ ∀ data ∈ m.fragments, data.streamId = id ∧ data.ssn = ssn ∧
        data.isUnordered = false ∧ data.payload ≠ [])
    ⟨fun h => ⟨h.1, h.2.1, h.2.2⟩, fun h => ⟨h.1, h.2, h.3⟩⟩

variable {m : OrderedMessage} {id : StreamID} {ssn : SSN}

theorem chunks_sorted (m : OrderedMessage) : m.chunks.Pairwise (fun x y => x.1 < y.1) :=
  numbered_sorted _ _

theorem Valid.chunks_ne_nil (h : m.Valid id ssn) : m.chunks ≠ [] := by
  intro hnil
  have hlength := length_numbered m.firstTsn m.fragments
  rw [show numbered m.firstTsn m.fragments = [] from hnil] at hlength
  exact h.delimited.nonempty (eq_nil_of_length_eq_zero hlength.symm)

theorem mem_fragments {chunk : Int × Data} (h : chunk ∈ m.chunks) : chunk.2 ∈ m.fragments := by
  obtain ⟨k, -, hget⟩ := mem_numbered.mp h
  exact mem_of_getElem? hget

theorem Valid.chunkBytes_pos (h : m.Valid id ssn) : 0 < chunkBytes m.chunks :=
  Dcsctp.chunkBytes_pos h.chunks_ne_nil fun _ hmem => (h.fields _ (mem_fragments hmem)).2.2.2

theorem Valid.assembleMessage_eq (h : m.Valid id ssn) {first : Int × Data}
    {others : List (Int × Data)} (hchunks : first :: others = m.chunks) :
    assembleMessage first others = (chunkBytes m.chunks, m.assembled id) :=
  assembleMessage_of_chunks (fun _ hmem => (h.fields _ (mem_fragments hmem)).1) hchunks

theorem Valid.whole_iff (h : m.Valid id ssn) (f : Fragments Data)
    (sub : ∀ e ∈ f.map.entries, e ∈ m.chunks) :
    (f.first.2.isBeginning = true ∧ f.last.2.isEnd = true ∧
      difference 32 f.last.1 f.first.1 = f.size - 1) ↔ f.map.entries = m.chunks := by
  obtain ⟨i, hi, hgeti⟩ := mem_numbered.mp (sub f.first (List.head_mem f.nonempty))
  obtain ⟨j, hj, hgetj⟩ := mem_numbered.mp (sub f.last (List.getLast_mem f.nonempty))
  have hjlt := (List.getElem?_eq_some_iff.mp hgetj).1
  have hle := f.first_le_last
  have hfew := h.few
  have hdiff : (difference 32 f.last.1 f.first.1 : Int) = f.last.1 - f.first.1 := by
    rw [difference_of_lt_turn (by omega) (by omega), abs_of_nonneg (by omega)]
  have hsize : 0 < f.size := List.length_pos_iff.mpr f.nonempty
  refine Iff.trans ?_ (Fragments.whole_iff h.delimited f sub)
  refine and_congr_right fun _ => and_congr_right fun _ => ?_
  omega

end OrderedMessage

namespace OrderedStream

variable {id : StreamID} {messages : List OrderedMessage} {start : Int} {k : Nat}
  {arrivals : List (Int × Data)} {s : OrderedStream}

/-- The stream has delivered the first `k` messages, and it holds what has arrived of the others. -/
structure Waiting (start : Int) (messages : List OrderedMessage) (arrivals : List (Int × Data))
    (k : Nat) (s : OrderedStream) : Prop where
  bound : k ≤ messages.length
  arrived : ∀ i m, messages[i]? = some m → i < k → m.Arrived arrivals
  next : s.nextSsn = start + k
  holding : Holding (fun i => start + (i : Nat)) (messages.map OrderedMessage.chunks)
    (fun i => k ≤ i) (fun _ chunk => chunk ∈ arrivals) s.chunksBySsn

theorem separate (start : Int) (messages : List OrderedMessage) :
    Separate (fun i => start + (i : Nat)) (messages.map OrderedMessage.chunks) := by
  intro i j _ _ hkey
  dsimp only at hkey
  omega

theorem getElem?_chunks {i : Nat} {m : OrderedMessage} (h : messages[i]? = some m) :
    (messages.map OrderedMessage.chunks)[i]? = some m.chunks := by
  rw [getElem?_map, h]
  rfl

section

variable (h : Waiting start messages arrivals k s)
include h

theorem Waiting.next_le {e : Int × Fragments Data} (hmem : e ∈ s.chunksBySsn.entries) :
    s.nextSsn ≤ e.1 := by
  obtain ⟨chunk, hchunk⟩ := exists_mem_of_ne_nil _ e.2.nonempty
  obtain ⟨i, -, -, hpending, hkey, -⟩ :=
    (h.holding e.1 chunk).mp ⟨e.2, (s.chunksBySsn.find?_eq_some_iff _ _).mpr hmem, hchunk⟩
  have hnext := h.next
  dsimp only at hkey
  omega

theorem Waiting.entries_eq {f : Fragments Data} (hfind : s.chunksBySsn.find? s.nextSsn = some f) :
    ∃ rest, s.chunksBySsn.entries = (s.nextSsn, f) :: rest := by
  have hmem := (s.chunksBySsn.find?_eq_some_iff _ _).mp hfind
  have hsorted := s.chunksBySsn.sorted
  cases hentries : s.chunksBySsn.entries with
  | nil =>
    rw [hentries] at hmem
    cases hmem
  | cons e rest =>
    rw [hentries] at hmem hsorted
    rcases mem_cons.mp hmem with rfl | hmem
    · exact ⟨rest, rfl⟩
    · have hlt := rel_of_pairwise_cons hsorted hmem
      have hle := h.next_le (hentries ▸ mem_cons_self)
      exact absurd hle (not_le.mpr hlt)

theorem Waiting.tryToAssembleMessage_arrived {m : OrderedMessage} (hm : messages[k]? = some m)
    {ssn : SSN} (valid : m.Valid id ssn) (arrived : m.Arrived arrivals) :
    ∃ s', s.tryToAssembleMessage = (chunkBytes m.chunks, [m.assembled id], s') ∧
      Waiting start messages arrivals (k + 1) s' ∧ s'.ssnUnwrapper = s.ssnUnwrapper := by
  obtain ⟨f, hfind, hf⟩ := h.holding.find?_arrived (separate start messages) (getElem?_chunks hm)
    le_rfl m.chunks_sorted valid.chunks_ne_nil arrived
  rw [← h.next] at hfind
  obtain ⟨rest, hentries⟩ := h.entries_eq hfind
  obtain ⟨hbeginning, hend, hdiff⟩ := (valid.whole_iff f fun e he => hf ▸ he).mpr hf
  have hchunks : f.first :: f.map.entries.tail = m.chunks :=
    (List.cons_head_tail f.nonempty).trans hf
  have hassemble := valid.assembleMessage_eq hchunks
  refine ⟨{ s with
    chunksBySsn := s.chunksBySsn.erase s.nextSsn
    nextSsn := s.nextSsn + 1 }, ?_, ?_, rfl⟩
  · rw [tryToAssembleMessage, hentries]
    dsimp only
    rw [hbeginning, hend, hdiff, hassemble]
    simp
  · have hlt := (List.getElem?_eq_some_iff.mp hm).1
    refine ⟨hlt, ?_, ?_, ?_⟩
    · intro i m' hm' hi
      rcases Nat.lt_succ_iff_lt_or_eq.mp hi with hi | rfl
      · exact h.arrived i m' hm' hi
      · rw [hm] at hm'
        cases hm'
        exact arrived
    · have := h.next
      push_cast
      omega
    · have herase := h.holding.erase (separate start messages)
        (i := k) (by rw [List.length_map]; exact hlt)
      rw [h.next]
      refine herase.congr fun i _ _ e _ => and_congr_left fun _ => ?_
      omega

theorem Waiting.tryToAssembleMessage_waiting (valid : ∀ m ∈ messages, ∃ ssn, m.Valid id ssn)
    (waiting : ∀ m, messages[k]? = some m → ¬ m.Arrived arrivals) :
    s.tryToAssembleMessage = (0, [], s) := by
  rw [tryToAssembleMessage]
  cases hentries : s.chunksBySsn.entries with
  | nil => rfl
  | cons e rest =>
    dsimp only
    split_ifs with hssn hends hdiff
    · rfl
    · rfl
    · rfl
    · exfalso
      have hmem := hentries ▸ mem_cons_self
      have hfind := (s.chunksBySsn.find?_eq_some_iff e.1 e.2).mpr hmem
      rw [not_not] at hssn hdiff
      obtain ⟨chunk, hchunk⟩ := exists_mem_of_ne_nil _ e.2.nonempty
      obtain ⟨i, parts, hi, hpending, hkey, -⟩ := (h.holding e.1 chunk).mp ⟨e.2, hfind, hchunk⟩
      obtain rfl : i = k := by
        have hnext := h.next
        dsimp only at hkey
        omega
      obtain ⟨m, hm, rfl⟩ : ∃ m, messages[i]? = some m ∧ m.chunks = parts := by
        rwa [getElem?_map, Option.map_eq_some_iff] at hi
      obtain ⟨ssn, hvalid⟩ := valid m (mem_of_getElem? hm)
      rw [hkey] at hfind
      have hiff := h.holding.mem_iff (separate start messages) hi hfind
      rw [Bool.or_eq_true, Bool.not_eq_true', Bool.not_eq_true', not_or, Bool.not_eq_false,
        Bool.not_eq_false] at hends
      have hwhole := (hvalid.whole_iff e.2 fun chunk hc => ((hiff chunk).mp hc).2.1).mp
        ⟨hends.1, hends.2, hdiff⟩
      refine waiting m hm fun chunk hc => ?_
      rw [← hwhole] at hc
      exact ((hiff chunk).mp hc).2.2

theorem Waiting.tryToAssembleMessages (valid : ∀ m ∈ messages, ∃ ssn, m.Valid id ssn) :
    ∃ k' bytes s', s.tryToAssembleMessages =
        (bytes, ((messages.take k').drop k).map (OrderedMessage.assembled id), s') ∧ k ≤ k' ∧
      Waiting start messages arrivals k' s' ∧ s'.ssnUnwrapper = s.ssnUnwrapper ∧
      ∀ m, messages[k']? = some m → ¬ m.Arrived arrivals := by
  -- The messages that have not been delivered become fewer.
  induction hleft : messages.length - k using Nat.strongRecOn generalizing k s with
  | ind left ih =>
    by_cases hnext : ∃ m, messages[k]? = some m ∧ m.Arrived arrivals
    · obtain ⟨m, hm, harrived⟩ := hnext
      obtain ⟨ssn, hvalid⟩ := valid m (List.mem_of_getElem? hm)
      have hlt := (List.getElem?_eq_some_iff.mp hm).1
      obtain ⟨s₁, hone, h₁, hunwrapper⟩ := h.tryToAssembleMessage_arrived hm hvalid harrived
      obtain ⟨k', bytes, s', hrest, hle, h', hunwrapper', hwaiting⟩ := ih _ (by omega) h₁ rfl
      refine ⟨k', chunkBytes m.chunks + bytes, s', ?_, by omega, h',
        hunwrapper'.trans hunwrapper, hwaiting⟩
      rw [tryToAssembleMessages, hone, if_neg hvalid.chunkBytes_pos.ne', drop_take_cons hm hle]
      rw [hrest]
      rfl
    · have hwaiting : ∀ m, messages[k]? = some m → ¬ m.Arrived arrivals :=
        fun m hm harrived => hnext ⟨m, hm, harrived⟩
      have hone := h.tryToAssembleMessage_waiting valid hwaiting
      refine ⟨k, 0, s, ?_, le_rfl, h, rfl, hwaiting⟩
      rw [tryToAssembleMessages, hone]
      simp

end

structure Received (start : Int) (messages : List OrderedMessage) (arrivals : List (Int × Data))
    (k : Nat) (s : OrderedStream) : Prop where
  waiting : Waiting start messages arrivals k s
  missing : ∀ m, messages[k]? = some m → ¬ m.Arrived arrivals
  seen : s.ssnUnwrapper.lastValue ≠ none
  above : start + messages.length ≤ s.ssnUnwrapper.lastUnwrapped + 2 ^ 15
  below : s.ssnUnwrapper.lastUnwrapped < start + 2 ^ 15

section Arrival

variable (few : messages.length < 2 ^ 15)
  (valid : ∀ (i : Nat) (m : OrderedMessage), messages[i]? = some m →
    m.Valid id (wrap 16 (start + i)))
  {i : Nat} {m : OrderedMessage} {chunk : Int × Data}

include few valid

theorem index_unique {j : Nat} {m' : OrderedMessage} (hi : messages[i]? = some m)
    (hj : messages[j]? = some m') (hmem : chunk ∈ m.chunks) (hmem' : chunk ∈ m'.chunks) : i = j := by
  have hssn := ((valid i m hi).fields _ (OrderedMessage.mem_fragments hmem)).2.1
  have hssn' := ((valid j m' hj).fields _ (OrderedMessage.mem_fragments hmem')).2.1
  have hilt := (List.getElem?_eq_some_iff.mp hi).1
  have hjlt := (List.getElem?_eq_some_iff.mp hj).1
  have := eq_of_wrap_eq (hssn.symm.trans hssn') (by omega) (by omega)
  omega

omit few in
theorem Received.unwrap (h : Received start messages arrivals k s) (hi : messages[i]? = some m)
    (hmem : chunk ∈ m.chunks) : s.ssnUnwrapper.peekUnwrap chunk.2.ssn = start + i := by
  have hlt := (List.getElem?_eq_some_iff.mp hi).1
  have habove := h.above
  have hbelow := h.below
  rw [((valid i m hi).fields _ (OrderedMessage.mem_fragments hmem)).2.1]
  exact s.ssnUnwrapper.peekUnwrap_wrap_of_near (by omega) h.seen _ (by omega) (by omega)

theorem mem_concat_iff {j : Nat} {m' : OrderedMessage} (hi : messages[i]? = some m)
    (hj : messages[j]? = some m') {e : Int × Data} (hmem : chunk ∈ m.chunks) (he : e ∈ m'.chunks) :
    e ∈ arrivals ++ [chunk] ↔ e ∈ arrivals ∨ (j = i ∧ e = chunk) := by
  rw [mem_append, mem_singleton]
  refine or_congr_right ⟨fun heq => ⟨?_, heq⟩, And.right⟩
  exact index_unique few valid hj hi he (heq ▸ hmem)

section

variable (h : Received start messages arrivals k s)
include h

theorem Received.emplaceIn (hi : messages[i]? = some m) (hk : k ≤ i) (hmem : chunk ∈ m.chunks)
    (hnew : chunk ∉ arrivals) (unwrapper : SeqNumUnwrapper 16) :
    ∃ chunksBySsn, emplaceIn s.chunksBySsn (start + i) chunk.1 chunk.2 = some chunksBySsn ∧
      Waiting start messages (arrivals ++ [chunk]) k
        { s with chunksBySsn := chunksBySsn, ssnUnwrapper := unwrapper } := by
  obtain ⟨chunksBySsn, hadd, hholding⟩ := h.waiting.holding.emplaceIn (separate start messages)
    (getElem?_chunks hi) hk m.chunks_sorted hmem hnew
  refine ⟨chunksBySsn, hadd, h.waiting.bound, ?_, h.waiting.next, ?_⟩
  · intro j m' hj hlt e he
    exact mem_append_left _ (h.waiting.arrived j m' hj hlt e he)
  · refine hholding.congr fun j parts hj e he => and_congr_right fun _ => ?_
    obtain ⟨m', hj', rfl⟩ : ∃ m', messages[j]? = some m' ∧ m'.chunks = parts := by
      rwa [getElem?_map, Option.map_eq_some_iff] at hj
    exact (mem_concat_iff few valid hi hj' hmem he).symm

theorem Received.pass (hk : messages[k]? = some m) (hmem : chunk ∈ m.chunks)
    (hnew : chunk ∉ arrivals) (hwhole : m.chunks = [chunk]) (unwrapper : SeqNumUnwrapper 16) :
    Waiting start messages (arrivals ++ [chunk]) (k + 1)
      { s with nextSsn := s.nextSsn + 1, ssnUnwrapper := unwrapper } := by
  refine ⟨(List.getElem?_eq_some_iff.mp hk).1, ?_, ?_, ?_⟩
  · intro j m' hj hlt e he
    rcases Nat.lt_succ_iff_lt_or_eq.mp hlt with hlt | rfl
    · exact List.mem_append_left _ (h.waiting.arrived j m' hj hlt e he)
    · rw [hk] at hj
      cases hj
      rw [hwhole] at he
      exact List.mem_append_right _ he
  · have hnext := h.waiting.next
    push_cast
    omega
  · refine h.waiting.holding.congr fun j parts hj e he => ?_
    obtain ⟨m', hj', rfl⟩ : ∃ m', messages[j]? = some m' ∧ m'.chunks = parts := by
      rwa [List.getElem?_map, Option.map_eq_some_iff] at hj
    rw [mem_concat_iff few valid hk hj' hmem he]
    constructor
    · rintro ⟨hle, he'⟩
      refine ⟨Nat.succ_le_of_lt (lt_of_le_of_ne hle ?_), Or.inl he'⟩
      rintro rfl
      rw [hk] at hj'
      cases hj'
      rw [hwhole, List.mem_singleton] at he
      exact hnew (he ▸ he')
    · rintro ⟨hle, he' | ⟨rfl, -⟩⟩
      · exact ⟨by omega, he'⟩
      · omega

theorem Received.missing_concat (hi : messages[i]? = some m) (hne : i ≠ k) (hmem : chunk ∈ m.chunks)
    (m' : OrderedMessage) (hk : messages[k]? = some m') : ¬ m'.Arrived (arrivals ++ [chunk]) := by
  intro harrived
  refine h.missing m' hk fun e he => ?_
  rcases (mem_concat_iff few valid hi hk hmem he).mp (harrived e he) with he' | ⟨heq, -⟩
  · exact he'
  · exact absurd heq.symm hne

theorem Received.fastpath (hk : messages[k]? = some m) (hmem : chunk ∈ m.chunks)
    (hnew : chunk ∉ arrivals) (unwrapper : SeqNumUnwrapper 16) :
    ∃ k' bytes s', tryToAssembleMessagesFastpath { s with ssnUnwrapper := unwrapper }
        (start + k) chunk.1 chunk.2 =
          (bytes, ((messages.take k').drop k).map (OrderedMessage.assembled id), s') ∧ k ≤ k' ∧
      Waiting start messages (arrivals ++ [chunk]) k' s' ∧ s'.ssnUnwrapper = unwrapper ∧
      ∀ m, messages[k']? = some m → ¬ m.Arrived (arrivals ++ [chunk]) := by
  have hvalid : ∀ m ∈ messages, ∃ ssn, m.Valid id ssn := by
    intro m' hm'
    obtain ⟨j, hj⟩ := getElem?_of_mem hm'
    exact ⟨_, valid j m' hj⟩
  rw [tryToAssembleMessagesFastpath]
  split_ifs with hboth
  · rw [Bool.and_eq_true] at hboth
    -- a chunk with both marks is all of its message
    have hwhole : m.chunks = [chunk] := by
      have hone := (valid k m hk).delimited.eq_singleton (OrderedMessage.mem_fragments hmem)
        hboth.1 hboth.2
      rw [OrderedMessage.chunks, hone] at hmem ⊢
      exact congrArg (· :: []) (mem_singleton.mp hmem).symm
    obtain ⟨k', bytes, s', hloop, hle, hwaiting⟩ :=
      (h.pass few valid hk hmem hnew hwhole unwrapper).tryToAssembleMessages hvalid
    have hassemble := (valid k m hk).assembleMessage_eq hwhole.symm
    rw [assembleMessage, if_pos rfl] at hassemble
    refine ⟨k', chunkBytes m.chunks + bytes, s', ?_, by omega, hwaiting⟩
    rw [hassemble, hloop, drop_take_cons hk hle]
    rfl
  · obtain ⟨chunksBySsn, hadd, hwaiting⟩ := h.emplaceIn few valid hk le_rfl hmem hnew unwrapper
    rw [hadd]
    exact hwaiting.tryToAssembleMessages hvalid

theorem Received.add (hi : messages[i]? = some m) (hmem : chunk ∈ m.chunks)
    (hnew : chunk ∉ arrivals) :
    ∃ k' count s', s.add chunk.1 chunk.2 =
        (count, ((messages.take k').drop k).map (OrderedMessage.assembled id), s') ∧ k ≤ k' ∧
      Received start messages (arrivals ++ [chunk]) k' s' := by
  have hk : k ≤ i := by
    by_contra hlt
    exact hnew (h.waiting.arrived i m hi (by omega) chunk hmem)
  have hlt := (List.getElem?_eq_some_iff.mp hi).1
  have hunwrap := h.unwrap valid hi hmem
  have hseen : (s.ssnUnwrapper.unwrap chunk.2.ssn).2.lastValue ≠ none := nofun
  have hlast : (s.ssnUnwrapper.unwrap chunk.2.ssn).2.lastUnwrapped = start + i := hunwrap
  have hnext := h.waiting.next
  rw [OrderedStream.add, SeqNumUnwrapper.unwrap_fst, hunwrap]
  generalize (s.ssnUnwrapper.unwrap chunk.2.ssn).2 = unwrapper at hseen hlast ⊢
  rw [addUnwrapped]
  by_cases hfirst : i = k
  · subst hfirst
    obtain ⟨k', bytes, s', hfast, hle, hwaiting, rfl, hmissing⟩ :=
      h.fastpath few valid hi hmem hnew unwrapper
    rw [if_pos hnext.symm, hfast]
    exact ⟨k', _, s', rfl, hle, hwaiting, hmissing, hseen, by omega, by omega⟩
  · obtain ⟨chunksBySsn, hadd, hwaiting⟩ := h.emplaceIn few valid hi hk hmem hnew unwrapper
    have hlater : ¬ start + i = s.nextSsn := by omega
    rw [if_neg hlater, hadd]
    refine ⟨k, chunk.2.size, _, ?_, le_rfl, hwaiting, h.missing_concat few valid hi hfirst hmem,
      hseen, ?_, ?_⟩
    · rw [List.drop_eq_nil_of_le (by simp)]
      rfl
    · dsimp only
      omega
    · dsimp only
      omega

end

theorem nodup_chunks : (messages.flatMap OrderedMessage.chunks).Nodup := by
  refine nodup_flatMap.mpr ⟨fun m _ => ?_, pairwise_iff_getElem.mpr ?_⟩
  · exact m.chunks_sorted.imp fun hlt heq => (heq ▸ hlt).false
  · intro i j hi hj hij chunk hmem hmem'
    have := index_unique few valid (getElem?_eq_getElem hi) (getElem?_eq_getElem hj)
      hmem hmem'
    omega

end Arrival

/-- The stream is empty, and the next `count` numbers lie within half a turn of the last one
unwrapped. -/
structure Idle (s : OrderedStream) (count : Nat) : Prop where
  empty : s.chunksBySsn = OrdMap.empty
  seen : s.ssnUnwrapper.lastValue ≠ none
  above : s.nextSsn + count ≤ s.ssnUnwrapper.lastUnwrapped + 2 ^ 15
  below : s.ssnUnwrapper.lastUnwrapped < s.nextSsn + 2 ^ 15

theorem Idle.received (h : Idle s messages.length) (nonempty : ∀ m ∈ messages, m.chunks ≠ []) :
    Received s.nextSsn messages [] 0 s where
  waiting :=
    { bound := Nat.zero_le _
      arrived i _ _ hlt := absurd hlt (Nat.not_lt_zero i)
      next := (add_zero _).symm
      holding := h.empty ▸ holding_empty fun _ _ => not_mem_nil }
  missing := by
    intro m hm harrived
    obtain ⟨chunk, hmem⟩ := exists_mem_of_ne_nil _ (nonempty m (mem_of_getElem? hm))
    exact absurd (harrived chunk hmem) not_mem_nil
  seen := h.seen
  above := h.above
  below := h.below

end OrderedStream

namespace TraditionalReassemblyStreams

open OrderedStream

variable {id : StreamID} {messages : List OrderedMessage} {s : TraditionalReassemblyStreams}

theorem addAll_received (idle : (s.orderedStream id).Idle messages.length)
    (few : messages.length < 2 ^ 15)
    (valid : ∀ (i : Nat) (m : OrderedMessage), messages[i]? = some m →
      m.Valid id (wrap 16 ((s.orderedStream id).nextSsn + i)))
    (arrivals : List (Int × Data)) (nodup : arrivals.Nodup)
    (sub : ∀ chunk ∈ arrivals, chunk ∈ messages.flatMap OrderedMessage.chunks) :
    ∃ k, Received (s.orderedStream id).nextSsn messages arrivals k
        ((addAll TraditionalReassemblyStreams.add s arrivals).2.orderedStream id) ∧
      (addAll TraditionalReassemblyStreams.add s arrivals).1.flatMap Prod.snd =
        (messages.take k).map (OrderedMessage.assembled id) ∧
      ((addAll TraditionalReassemblyStreams.add s arrivals).1.map Prod.fst).sum =
        ((addAll TraditionalReassemblyStreams.add s arrivals).2.orderedStream id).bytes := by
  induction arrivals using reverseRecOn with
  | nil =>
    refine ⟨0, idle.received fun m hm => ?_, rfl, ?_⟩
    · obtain ⟨i, hi⟩ := getElem?_of_mem hm
      exact (valid i m hi).chunks_ne_nil
    · have hempty : (s.orderedStream id).bytes = 0 := by
        rw [OrderedStream.bytes, idle.empty]
        rfl
      exact (congrArg Nat.cast hempty).symm
  | append_singleton arrivals chunk ih =>
    obtain ⟨hnodup, -, hnew⟩ := nodup_append.mp nodup
    have hchunk : chunk ∉ arrivals := fun hmem =>
      hnew chunk hmem chunk (mem_singleton_self chunk) rfl
    obtain ⟨k, hreceived, hdelivered, hcounts⟩ :=
      ih hnodup fun c hc => sub c (mem_append_left _ hc)
    obtain ⟨m, hm, hmem⟩ := mem_flatMap.mp
      (sub chunk (mem_append_right _ (mem_singleton_self chunk)))
    obtain ⟨i, hi⟩ := getElem?_of_mem hm
    obtain ⟨hid, -, hordered, -⟩ := (valid i m hi).fields _ (OrderedMessage.mem_fragments hmem)
    obtain ⟨k', count, s', hadd, hle, hreceived'⟩ := hreceived.add few valid hi hmem hchunk
    have hbytes := ((addAll TraditionalReassemblyStreams.add s arrivals).2.orderedStream
      id).add_bytes chunk.1 chunk.2
    rw [hadd] at hbytes
    rw [addAll_concat, add, if_neg (by rw [hordered]; exact Bool.false_ne_true), hid, hadd]
    dsimp only at hbytes ⊢
    have hstream (u m) : orderedStream ⟨u, OrdMap.set m id s'⟩ id = s' := by
      rw [orderedStream, OrdMap.find?_set, if_pos rfl]
      rfl
    refine ⟨k', ?_, ?_, ?_⟩
    · rw [hstream]
      exact hreceived'
    · rw [flatMap_append, hdelivered, flatMap_singleton, ← map_append]
      have htake : messages.take k = (messages.take k').take k := by
        rw [take_take, min_eq_left hle]
      rw [htake, take_append_drop]
    · rw [map_append, sum_append, hstream]
      simp only [map_cons, map_nil, sum_cons, sum_nil]
      omega

def fragment (ssn : SSN) (payload : List UInt8) (isBeginning isEnd : Bool) : Data where
  streamId := 7
  ssn := ssn
  mid := 0
  fsn := 0
  ppid := 53
  payload := payload
  isBeginning := isBeginning
  isEnd := isEnd
  isUnordered := false

def twoMessages : List OrderedMessage :=
  [⟨10, [fragment 0 [1, 2] true false, fragment 0 [3] false true]⟩,
    ⟨12, [fragment 1 [4] true true]⟩]

end TraditionalReassemblyStreams

end Dcsctp
