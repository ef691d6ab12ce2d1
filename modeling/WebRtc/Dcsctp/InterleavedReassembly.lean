import WebRtc.Dcsctp.ReassemblyStreams

/-!
# Interleaved messages are reassembled whatever the order of their chunks

Messages of several streams, ordered and unordered, arrive in fragments, in any order. If their
identifiers are less than half of the range apart, every message is delivered once, when all of it
has arrived and, if it is ordered, all of the earlier ones.
-/

namespace Dcsctp

open SequenceNumbers Wrapping Fragments List

/-- A message with its identifier. A fragment is a chunk with its TSN. -/
structure InterleavedMessage where
  mid : Int
  fragments : List (Int × Data)
deriving DecidableEq

namespace InterleavedMessage

def parts (m : InterleavedMessage) : List (Int × Int × Data) := numbered 0 m.fragments

def assembled (id : FullStreamId) (m : InterleavedMessage) : Assembled :=
  assembledFrom (ofLex id).2 m.fragments

def Arrived (m : InterleavedMessage) (chunks : List (Int × Data)) : Prop :=
  ∀ chunk ∈ m.fragments, chunk ∈ chunks

instance (m : InterleavedMessage) (chunks : List (Int × Data)) : Decidable (m.Arrived chunks) :=
  inferInstanceAs (Decidable (∀ chunk ∈ m.fragments, chunk ∈ chunks))

/-- A message of a stream. Its fragments are numbered from zero on and not empty. -/
structure Valid (m : InterleavedMessage) (id : FullStreamId) : Prop where
  delimited : Delimited (fun chunk => chunk.2.isBeginning) (fun chunk => chunk.2.isEnd) m.fragments
  few : m.fragments.length ≤ 2 ^ 32
  numbers : ∀ (k : Nat) (chunk : Int × Data), m.fragments[k]? = some chunk →
    chunk.2.fsn = BitVec.ofNat 32 k
  fields : ∀ chunk ∈ m.fragments, chunk.2.fullStreamId = id ∧ chunk.2.mid = wrap 32 m.mid ∧
    chunk.2.payload ≠ []

instance (m : InterleavedMessage) (id : FullStreamId) : Decidable (m.Valid id) :=
  decidable_of_iff (Delimited (fun chunk => chunk.2.isBeginning) (fun chunk => chunk.2.isEnd)
      m.fragments ∧ m.fragments.length ≤ 2 ^ 32 ∧
      (∀ q ∈ m.fragments.zipIdx, q.1.2.fsn = BitVec.ofNat 32 q.2) ∧
      ∀ chunk ∈ m.fragments, chunk.2.fullStreamId = id ∧ chunk.2.mid = wrap 32 m.mid ∧
        chunk.2.payload ≠ []) <| by
    have hnumbers := forall_getElem?_iff (l := m.fragments)
      (p := fun k chunk => chunk.2.fsn = BitVec.ofNat 32 k)
    exact ⟨fun h => ⟨h.1, h.2.1, hnumbers.mpr h.2.2.1, h.2.2.2⟩,
      fun h => ⟨h.1, h.2, hnumbers.mp h.3, h.4⟩⟩

variable {m : InterleavedMessage} {id : FullStreamId}

theorem parts_sorted (m : InterleavedMessage) : m.parts.Pairwise (fun x y => x.1 < y.1) :=
  numbered_sorted _ _

theorem mem_fragments {e : Int × Int × Data} (h : e ∈ m.parts) : e.2 ∈ m.fragments := by
  obtain ⟨k, -, hget⟩ := mem_numbered.mp h
  exact mem_of_getElem? hget

section

variable (h : m.Valid id)
include h

theorem Valid.parts_ne_nil : m.parts ≠ [] := by
  intro hnil
  have hfragments := map_snd_numbered 0 m.fragments
  rw [show numbered 0 m.fragments = [] from hnil] at hfragments
  exact h.delimited.nonempty hfragments.symm

theorem Valid.fsn_eq {e : Int × Int × Data} (hmem : e ∈ m.parts) :
    (e.2.2.fsn.toNat : Int) = e.1 := by
  obtain ⟨k, hk, hget⟩ := mem_numbered.mp hmem
  have hlt := (List.getElem?_eq_some_iff.mp hget).1
  have hfew := h.few
  rw [h.numbers k _ hget, BitVec.toNat_ofNat, Nat.mod_eq_of_lt (by omega), hk, zero_add]

theorem Valid.mem_parts {chunk : Int × Data} (hmem : chunk ∈ m.fragments) :
    ((chunk.2.fsn.toNat : Int), chunk) ∈ m.parts := by
  obtain ⟨k, hget⟩ := getElem?_of_mem hmem
  have hpart : ((k : Int), chunk) ∈ m.parts := mem_numbered.mpr ⟨k, (zero_add _).symm, hget⟩
  have hfsn := h.fsn_eq hpart
  rwa [hfsn]

theorem Valid.nodup : m.fragments.Nodup := by
  refine pairwise_iff_getElem.mpr fun i j hi hj hij heq => ?_
  have hpart : ∀ k (hk : k < m.fragments.length), ((k : Int), m.fragments[k]) ∈ m.parts :=
    fun k hk => mem_numbered.mpr ⟨k, (zero_add _).symm, getElem?_eq_getElem hk⟩
  have hfirst := h.fsn_eq (hpart i hi)
  have hsecond := h.fsn_eq (hpart j hj)
  rw [heq] at hfirst
  dsimp only at hfirst hsecond
  omega

theorem Valid.chunkBytes_pos : 0 < chunkBytes m.fragments :=
  Dcsctp.chunkBytes_pos h.delimited.nonempty fun chunk hmem => (h.fields chunk hmem).2.2

theorem Valid.assembleMessage_eq {first : Int × Data} {others : List (Int × Data)}
    (hfragments : first :: others = m.fragments) :
    assembleMessage first others = (chunkBytes m.fragments, m.assembled id) := by
  refine assembleMessage_of_chunks (fun chunk hmem => ?_) hfragments
  rw [← (h.fields chunk hmem).1]
  rfl

end

theorem arrived_concat_of_whole {arrivals : List (Int × Data)} {chunk : Int × Data}
    (hwhole : m.fragments = [chunk]) : m.Arrived (arrivals ++ [chunk]) := by
  intro e he
  rw [hwhole] at he
  exact mem_append_right _ he

end InterleavedMessage

namespace InterleavedStream

variable {id : FullStreamId} {messages : List InterleavedMessage} {low start : Int}
  {pending : Nat → Prop} {arrivals : List (Int × Data)} {s : InterleavedStream} {i j k : Nat}
  {m m' : InterleavedMessage}
  {chunk : Int × Data}

/-- The messages of a stream have identifiers of their own, less than half of all identifiers
apart. -/
structure Sendable (id : FullStreamId) (low : Int) (messages : List InterleavedMessage) : Prop where
  valid : ∀ m ∈ messages, m.Valid id
  distinct : (messages.map InterleavedMessage.mid).Nodup
  range : ∀ m ∈ messages, low ≤ m.mid ∧ m.mid < low + 2 ^ 31

def midAt (messages : List InterleavedMessage) (i : Nat) : Int :=
  (messages[i]?.map InterleavedMessage.mid).getD 0

theorem midAt_eq (h : messages[i]? = some m) : midAt messages i = m.mid := by
  rw [midAt, h]
  rfl

/-- The stream holds what has arrived of the pending messages. -/
abbrev Holds (messages : List InterleavedMessage) (pending : Nat → Prop)
    (arrivals : List (Int × Data)) (chunksByMid : OrdMap Int (Fragments (Int × Data))) : Prop :=
  Holding (midAt messages) (messages.map InterleavedMessage.parts) pending
    (fun _ e => e.2 ∈ arrivals) chunksByMid

theorem getElem?_parts (h : messages[i]? = some m) :
    (messages.map InterleavedMessage.parts)[i]? = some m.parts := by
  rw [getElem?_map, h]
  rfl

theorem exists_message {parts : List (Int × Int × Data)}
    (h : (messages.map InterleavedMessage.parts)[i]? = some parts) :
    ∃ m, messages[i]? = some m ∧ m.parts = parts := by
  rwa [getElem?_map, Option.map_eq_some_iff] at h

section

variable (h : Sendable id low messages)
include h

theorem Sendable.separate : Separate (midAt messages) (messages.map InterleavedMessage.parts) := by
  intro i j hi hj hkey
  rw [length_map] at hi hj
  rw [midAt_eq (getElem?_eq_getElem hi), midAt_eq (getElem?_eq_getElem hj)] at hkey
  exact (@List.Nodup.getElem_inj_iff _ _ h.distinct i (by simpa using hi) j
    (by simpa using hj)).mp (by simpa using hkey)

theorem Sendable.index_unique (hi : messages[i]? = some m) (hj : messages[j]? = some m')
    (hmem : chunk ∈ m.fragments) (hmem' : chunk ∈ m'.fragments) : i = j := by
  have hm := List.mem_of_getElem? hi
  have hm' := List.mem_of_getElem? hj
  have hmid := ((h.valid m hm).fields chunk hmem).2.1
  have hmid' := ((h.valid m' hm').fields chunk hmem').2.1
  have hrange := h.range m hm
  have hrange' := h.range m' hm'
  have hsame := eq_of_wrap_eq (hmid.symm.trans hmid') (by omega) (by omega)
  refine h.separate i j ?_ ?_ ?_
  · simpa using (List.getElem?_eq_some_iff.mp hi).1
  · simpa using (List.getElem?_eq_some_iff.mp hj).1
  · rw [midAt_eq hi, midAt_eq hj, hsame]

theorem Sendable.nodup_chunks : (messages.flatMap InterleavedMessage.fragments).Nodup := by
  refine nodup_flatMap.mpr ⟨fun m hm => (h.valid m hm).nodup,
    pairwise_iff_getElem.mpr fun i j hi hj hij chunk hmem hmem' => ?_⟩
  have := h.index_unique (getElem?_eq_getElem hi) (getElem?_eq_getElem hj) hmem hmem'
  omega

theorem Sendable.mem_concat_iff (hi : messages[i]? = some m) (hj : messages[j]? = some m')
    (hmem : chunk ∈ m.fragments) {e : Int × Int × Data} (he : e ∈ m'.parts) :
    e.2 ∈ arrivals ++ [chunk] ↔
      e.2 ∈ arrivals ∨ (j = i ∧ e = ((chunk.2.fsn.toNat : Int), chunk)) := by
  rw [mem_append, mem_singleton]
  refine or_congr_right ⟨fun heq => ⟨?_, ?_⟩, fun hboth => congrArg Prod.snd hboth.2⟩
  · exact h.index_unique hj hi (InterleavedMessage.mem_fragments he) (heq ▸ hmem)
  · refine Prod.ext ?_ heq
    rw [← heq]
    exact ((h.valid m' (mem_of_getElem? hj)).fsn_eq he).symm

theorem Sendable.arrived_concat_iff (hi : messages[i]? = some m) (hj : messages[j]? = some m')
    (hne : j ≠ i) (hmem : chunk ∈ m.fragments) :
    m'.Arrived (arrivals ++ [chunk]) ↔ m'.Arrived arrivals := by
  refine forall₂_congr fun e he => ?_
  rw [mem_append, mem_singleton]
  refine or_iff_left ?_
  rintro rfl
  exact hne (h.index_unique hj hi he hmem)

end

section

variable (h : Holds messages pending arrivals s.chunksByMid) (sendable : Sendable id low messages)
  (hi : messages[i]? = some m)
include h sendable hi

theorem tryToAssembleMessage_arrived (hpending : pending i) (arrived : m.Arrived arrivals) :
    s.tryToAssembleMessage m.mid = (chunkBytes m.fragments, [m.assembled id],
        { s with chunksByMid := s.chunksByMid.erase m.mid }) ∧
      Holds messages (fun j => pending j ∧ j ≠ i) arrivals (s.chunksByMid.erase m.mid) := by
  have hvalid := sendable.valid m (List.mem_of_getElem? hi)
  obtain ⟨f, hfind, hf⟩ := h.find?_arrived sendable.separate (getElem?_parts hi) hpending
    m.parts_sorted hvalid.parts_ne_nil fun e he => arrived e.2 (InterleavedMessage.mem_fragments he)
  rw [midAt_eq hi] at hfind
  obtain ⟨hbeginning, hend, hspan⟩ :=
    (whole_iff hvalid.delimited f fun e he => show e ∈ m.parts from hf ▸ he).mpr hf
  have hfragments : f.first.2 :: f.map.entries.tail.map Prod.snd = m.fragments := by
    rw [first, ← List.map_cons, List.cons_head_tail, hf]
    exact map_snd_numbered _ _
  constructor
  · rw [tryToAssembleMessage, hfind]
    dsimp only
    rw [hbeginning, hend, hspan, hvalid.assembleMessage_eq hfragments]
    simp
  · rw [← midAt_eq hi]
    exact h.erase sendable.separate (by simpa using (List.getElem?_eq_some_iff.mp hi).1)

theorem tryToAssembleMessage_waiting (waiting : ¬ m.Arrived arrivals) :
    s.tryToAssembleMessage m.mid = (0, [], s) := by
  have hvalid := sendable.valid m (mem_of_getElem? hi)
  rw [tryToAssembleMessage]
  cases hfind : s.chunksByMid.find? m.mid with
  | none => rfl
  | some f =>
    dsimp only
    split_ifs with hends hspan
    · rfl
    · rfl
    · exfalso
      rw [← midAt_eq hi] at hfind
      have hiff := h.mem_iff sendable.separate (getElem?_parts hi) hfind
      rw [Bool.or_eq_true, Bool.not_eq_true', Bool.not_eq_true', not_or, Bool.not_eq_false,
        Bool.not_eq_false] at hends
      have hwhole := (whole_iff hvalid.delimited f fun e he => ((hiff e).mp he).2.1).mp
        ⟨hends.1, hends.2, not_not.mp hspan⟩
      refine waiting fun chunk hc => ?_
      have hpart := hvalid.mem_parts hc
      rw [show m.parts = f.map.entries from hwhole.symm] at hpart
      exact ((hiff _).mp hpart).2.2

end

theorem Sendable.unwrap (h : Sendable id low messages) {unwrapper : SeqNumUnwrapper 32}
    (seen : unwrapper.lastValue ≠ none) (above : low ≤ unwrapper.lastUnwrapped)
    (below : unwrapper.lastUnwrapped < low + 2 ^ 31) (hm : m ∈ messages)
    (hmem : chunk ∈ m.fragments) : unwrapper.peekUnwrap chunk.2.mid = m.mid := by
  have hrange := h.range m hm
  rw [((h.valid m hm).fields chunk hmem).2.1]
  exact unwrapper.peekUnwrap_wrap_of_near (by omega) seen _ (by omega) (by omega)

section

variable (sendable : Sendable id low messages) (h : Holds messages pending arrivals s.chunksByMid)
  (hi : messages[i]? = some m)
include sendable h hi

theorem Sendable.emplaceIn (hpending : pending i) (hmem : chunk ∈ m.fragments)
    (hnew : chunk ∉ arrivals) :
    ∃ chunksByMid, emplaceIn s.chunksByMid m.mid chunk.2.fsn.toNat chunk = some chunksByMid ∧
      Holds messages pending (arrivals ++ [chunk]) chunksByMid := by
  have hvalid := sendable.valid m (mem_of_getElem? hi)
  obtain ⟨chunksByMid, hadd, hholding⟩ := h.emplaceIn sendable.separate (getElem?_parts hi)
    hpending m.parts_sorted (hvalid.mem_parts hmem) hnew
  rw [midAt_eq hi] at hadd
  refine ⟨chunksByMid, hadd, hholding.congr fun j parts hj e he => and_congr_right fun _ => ?_⟩
  obtain ⟨m', hj', rfl⟩ := exists_message hj
  exact (sendable.mem_concat_iff hi hj' hmem he).symm

/-- A message in one chunk is passed on, and was not held before. -/
theorem Sendable.pass (hnew : chunk ∉ arrivals) (hwhole : m.fragments = [chunk]) :
    Holds messages (fun j => pending j ∧ j ≠ i) (arrivals ++ [chunk]) s.chunksByMid := by
  have hmem := hwhole ▸ mem_singleton_self chunk
  refine h.congr fun j parts hj e he => ?_
  obtain ⟨m', hj', rfl⟩ := exists_message hj
  rw [sendable.mem_concat_iff hi hj' hmem he]
  constructor
  · rintro ⟨hpending, he'⟩
    refine ⟨⟨hpending, ?_⟩, Or.inl he'⟩
    rintro rfl
    rw [hi] at hj'
    cases hj'
    have hone := InterleavedMessage.mem_fragments he
    rw [hwhole, mem_singleton] at hone
    exact hnew (hone ▸ he')
  · rintro ⟨⟨hpending, hne⟩, he' | ⟨heq, -⟩⟩
    · exact ⟨hpending, he'⟩
    · exact absurd heq hne

end

/-- An unordered stream holds the messages of which a part is missing. -/
abbrev HoldsMissing (messages : List InterleavedMessage) (arrivals : List (Int × Data))
    (chunksByMid : OrdMap Int (Fragments (Int × Data))) : Prop :=
  Holds messages (fun i => ∀ m, messages[i]? = some m → ¬ m.Arrived arrivals) arrivals chunksByMid

theorem Sendable.missing_concat (h : Sendable id low messages) (hi : messages[i]? = some m)
    (hmem : chunk ∈ m.fragments) (j : Nat) :
    (∀ m', messages[j]? = some m' → ¬ m'.Arrived (arrivals ++ [chunk])) ↔
      (∀ m', messages[j]? = some m' → ¬ m'.Arrived arrivals) ∧
        (j = i → ¬ m.Arrived (arrivals ++ [chunk])) := by
  constructor
  · intro hmissing
    refine ⟨fun m' hj harrived => hmissing m' hj fun e he => ?_, ?_⟩
    · exact mem_append_left _ (harrived e he)
    · rintro rfl
      exact hmissing m hi
  · rintro ⟨hmissing, hat⟩ m' hj
    by_cases hji : j = i
    · subst hji
      rw [hi] at hj
      cases hj
      exact hat rfl
    · rw [h.arrived_concat_iff hi hj hji hmem]
      exact hmissing m' hj

theorem addUnwrapped_unordered (sendable : Sendable id low messages)
    (h : HoldsMissing messages arrivals s.chunksByMid) (hi : messages[i]? = some m)
    (hmem : chunk ∈ m.fragments) (hnew : chunk ∉ arrivals) :
    ∃ count chunksByMid, s.addUnwrapped true m.mid chunk.1 chunk.2 =
        (count, if m.Arrived (arrivals ++ [chunk]) then [m.assembled id] else [],
          { s with chunksByMid := chunksByMid }) ∧
      HoldsMissing messages (arrivals ++ [chunk]) chunksByMid := by
  have hvalid := sendable.valid m (mem_of_getElem? hi)
  have hmissing : ∀ m', messages[i]? = some m' → ¬ m'.Arrived arrivals := by
    intro m' hi' harrived
    rw [hi] at hi'
    cases hi'
    exact hnew (harrived chunk hmem)
  by_cases hboth : chunk.2.isBeginning = true ∧ chunk.2.isEnd = true
  · have hwhole := hvalid.delimited.eq_singleton hmem hboth.1 hboth.2
    have harrived : m.Arrived (arrivals ++ [chunk]) :=
      InterleavedMessage.arrived_concat_of_whole hwhole
    have hassemble := hvalid.assembleMessage_eq hwhole.symm
    rw [assembleMessage, if_pos rfl] at hassemble
    refine ⟨0, s.chunksByMid, ?_, ?_⟩
    · rw [addUnwrapped, if_pos (by simpa using hboth), if_pos harrived, hassemble]
    · refine (sendable.pass h hi hnew hwhole).congr fun j _ _ e _ => and_congr_left fun _ => ?_
      rw [sendable.missing_concat hi hmem j]
      exact and_congr_right fun _ => ⟨fun hne heq => absurd heq hne, fun hat heq => hat heq harrived⟩
  · obtain ⟨chunksByMid, hadd, hholds⟩ := sendable.emplaceIn h hi hmissing hmem hnew
    have hslow : s.addUnwrapped true m.mid chunk.1 chunk.2 = ((chunk.2.size : Int) -
            ({ s with chunksByMid := chunksByMid }.tryToAssembleMessage m.mid).1,
          ({ s with chunksByMid := chunksByMid }.tryToAssembleMessage m.mid).2) := by
      rw [addUnwrapped, if_neg (by simpa using hboth), addSlow, hadd]
      rfl
    rw [hslow]
    by_cases harrived : m.Arrived (arrivals ++ [chunk])
    · obtain ⟨htry, herase⟩ := tryToAssembleMessage_arrived
        (s := { s with chunksByMid := chunksByMid }) hholds sendable hi hmissing harrived
      rw [htry, if_pos harrived]
      refine ⟨_, _, rfl, herase.congr fun j _ _ e _ => and_congr_left fun _ => ?_⟩
      rw [sendable.missing_concat hi hmem j]
      exact and_congr_right fun _ => ⟨fun hne heq => absurd heq hne, fun hat heq => hat heq harrived⟩
    · have htry := tryToAssembleMessage_waiting (s := { s with chunksByMid := chunksByMid })
        hholds sendable hi harrived
      rw [htry, if_neg harrived]
      refine ⟨_, _, rfl, hholds.congr fun j _ _ e _ => and_congr_left fun _ => ?_⟩
      rw [sendable.missing_concat hi hmem j]
      exact ⟨fun hj => ⟨hj, fun _ => harrived⟩, And.left⟩

def Consecutive (start : Int) (messages : List InterleavedMessage) : Prop :=
  ∀ (i : Nat) (m : InterleavedMessage), messages[i]? = some m → m.mid = start + i

/-- The stream has delivered the first `k` messages, and it holds what has arrived of the others. -/
structure Waiting (start : Int) (messages : List InterleavedMessage) (arrivals : List (Int × Data))
    (k : Nat) (s : InterleavedStream) : Prop where
  bound : k ≤ messages.length
  arrived : ∀ i m, messages[i]? = some m → i < k → m.Arrived arrivals
  next : s.nextMid = start + k
  holds : Holds messages (fun i => k ≤ i) arrivals s.chunksByMid

theorem waiting_succ (next : s.nextMid = start + k)
    (prior : ∀ i m, messages[i]? = some m → i < k → m.Arrived arrivals)
    (hk : messages[k]? = some m) (arrived : m.Arrived arrivals)
    {chunksByMid : OrdMap Int (Fragments (Int × Data))}
    (holds : Holds messages (fun j => k ≤ j ∧ j ≠ k) arrivals chunksByMid) :
    Waiting start messages arrivals (k + 1)
      { s with chunksByMid := chunksByMid, nextMid := s.nextMid + 1 } where
  bound := (List.getElem?_eq_some_iff.mp hk).1
  arrived := by
    intro i m' hi hlt
    rcases Nat.lt_succ_iff_lt_or_eq.mp hlt with hlt | rfl
    · exact prior i m' hi hlt
    · rw [hk] at hi
      cases hi
      exact arrived
  next := by
    push_cast
    omega
  holds := holds.congr fun j _ _ e _ => and_congr_left fun _ => by omega

theorem Waiting.tryToAssembleMessage_end (h : Waiting start messages arrivals k s)
    (hk : messages.length ≤ k) :
    s.tryToAssembleMessage s.nextMid = (0, [], s) := by
  have hnone : s.chunksByMid.find? s.nextMid = none := by
    refine find?_eq_none fun e hheld => ?_
    obtain ⟨i, parts, hi, hle, -⟩ := (h.holds _ e).mp hheld
    obtain ⟨m, hi', -⟩ := exists_message hi
    have hlt := (List.getElem?_eq_some_iff.mp hi').1
    omega
  rw [tryToAssembleMessage, hnone]

theorem Waiting.tryToAssembleMessages (h : Waiting start messages arrivals k s)
    (sendable : Sendable id low messages) (consecutive : Consecutive start messages) :
    ∃ k' bytes s', s.tryToAssembleMessages =
        (bytes, ((messages.take k').drop k).map (InterleavedMessage.assembled id), s') ∧ k ≤ k' ∧
      Waiting start messages arrivals k' s' ∧ s'.midUnwrapper = s.midUnwrapper ∧
      ∀ m, messages[k']? = some m → ¬ m.Arrived arrivals := by
  -- The messages that have not been delivered become fewer.
  induction hleft : messages.length - k using Nat.strongRecOn generalizing k s with
  | ind left ih =>
    by_cases hnext : ∃ m, messages[k]? = some m ∧ m.Arrived arrivals
    · obtain ⟨m, hm, harrived⟩ := hnext
      have hlt := (List.getElem?_eq_some_iff.mp hm).1
      have hmid := h.next.trans (consecutive k m hm).symm
      have hpos := (sendable.valid m (List.mem_of_getElem? hm)).chunkBytes_pos
      obtain ⟨hone, herase⟩ :=
        tryToAssembleMessage_arrived h.holds sendable hm le_rfl harrived
      obtain ⟨k', bytes, s', hrest, hle, h', hunwrapper, hwaiting⟩ :=
        ih _ (by omega) (waiting_succ h.next h.arrived hm harrived herase) rfl
      refine ⟨k', chunkBytes m.fragments + bytes, s', ?_, by omega, h', hunwrapper, hwaiting⟩
      rw [← hmid] at hone
      rw [tryToAssembleMessages, hone, if_neg hpos.ne', drop_take_cons hm hle]
      rw [← hmid] at hrest
      dsimp only
      rw [hrest]
      rfl
    · have hwaiting : ∀ m, messages[k]? = some m → ¬ m.Arrived arrivals :=
        fun m hm harrived => hnext ⟨m, hm, harrived⟩
      have hone : s.tryToAssembleMessage s.nextMid = (0, [], s) := by
        cases hm : messages[k]? with
        | none => exact h.tryToAssembleMessage_end (List.getElem?_eq_none_iff.mp hm)
        | some m =>
          rw [h.next, ← consecutive k m hm]
          exact tryToAssembleMessage_waiting h.holds sendable hm (hwaiting m hm)
      refine ⟨k, 0, s, ?_, le_rfl, h, rfl, hwaiting⟩
      rw [tryToAssembleMessages, hone]
      simp

theorem addUnwrapped_ordered (sendable : Sendable id low messages)
    (consecutive : Consecutive start messages) (h : Waiting start messages arrivals k s)
    (missing : ∀ m, messages[k]? = some m → ¬ m.Arrived arrivals) (hi : messages[i]? = some m)
    (hmem : chunk ∈ m.fragments) (hnew : chunk ∉ arrivals) :
    ∃ k' count s', s.addUnwrapped false m.mid chunk.1 chunk.2 =
        (count, ((messages.take k').drop k).map (InterleavedMessage.assembled id), s') ∧ k ≤ k' ∧
      Waiting start messages (arrivals ++ [chunk]) k' s' ∧ s'.midUnwrapper = s.midUnwrapper ∧
      ∀ m, messages[k']? = some m → ¬ m.Arrived (arrivals ++ [chunk]) := by
  have hvalid := sendable.valid m (mem_of_getElem? hi)
  have hk : k ≤ i := by
    by_contra hlt
    exact hnew (h.arrived i m hi (by omega) chunk hmem)
  have hmid := consecutive i m hi
  have hnext := h.next
  have harrived' : ∀ i m, messages[i]? = some m → i < k → m.Arrived (arrivals ++ [chunk]) :=
    fun i m hi hlt e he => mem_append_left _ (h.arrived i m hi hlt e he)
  by_cases hpass : i = k ∧ chunk.2.isBeginning = true ∧ chunk.2.isEnd = true
  · obtain ⟨rfl, hboth⟩ := hpass
    have hwhole := hvalid.delimited.eq_singleton hmem hboth.1 hboth.2
    have hassemble := hvalid.assembleMessage_eq hwhole.symm
    rw [assembleMessage, if_pos rfl] at hassemble
    have harrived : m.Arrived (arrivals ++ [chunk]) :=
      InterleavedMessage.arrived_concat_of_whole hwhole
    obtain ⟨k', bytes, s', hloop, hle, hrest⟩ :=
      (waiting_succ hnext harrived' hi harrived
        (sendable.pass h.holds hi hnew hwhole)).tryToAssembleMessages sendable consecutive
    refine ⟨k', -bytes, s', ?_, by omega, hrest⟩
    have hfast : (!false && decide (m.mid = s.nextMid) && chunk.2.isBeginning &&
        chunk.2.isEnd) = true := by
      rw [hboth.1, hboth.2, hmid, hnext]
      simp
    rw [addUnwrapped, if_pos hfast, drop_take_cons hi hle]
    rw [hloop, hassemble]
    rfl
  · obtain ⟨chunksByMid, hadd, hholds⟩ := sendable.emplaceIn h.holds hi hk hmem hnew
    have hwaiting : Waiting start messages (arrivals ++ [chunk]) k
        { s with chunksByMid := chunksByMid } := ⟨h.bound, harrived', h.next, hholds⟩
    have hslow : ¬ (!false && decide (m.mid = s.nextMid) && chunk.2.isBeginning &&
        chunk.2.isEnd) = true := by
      intro hfast
      simp only [Bool.and_eq_true, decide_eq_true_eq] at hfast
      exact hpass ⟨by omega, hfast.1.2, hfast.2⟩
    rw [addUnwrapped, if_neg (by simp), if_neg hslow, addSlow, hadd]
    dsimp only
    rw [if_neg Bool.false_ne_true]
    by_cases hfirst : i = k
    · subst hfirst
      obtain ⟨k', bytes, s', hloop, hle, hrest⟩ :=
        hwaiting.tryToAssembleMessages sendable consecutive
      rw [if_pos (hmid.trans hnext.symm), hloop]
      exact ⟨k', _, s', rfl, hle, hrest⟩
    · refine ⟨k, chunk.2.size, { s with chunksByMid := chunksByMid }, ?_, le_rfl, hwaiting, rfl,
        fun m' hk => ?_⟩
      · rw [if_neg (by omega), drop_eq_nil_of_le (by simp)]
        rfl
      -- a chunk of a later message completes nothing
      · rw [sendable.arrived_concat_iff hi hk (Ne.symm hfirst) hmem]
        exact missing m' hk

end InterleavedStream

structure StreamMessages where
  id : FullStreamId
  messages : List InterleavedMessage

namespace StreamMessages

open InterleavedStream

variable {f : StreamMessages} {low start : Int} {arrivals : List (Int × Data)}
  {delivered : List Assembled} {s : InterleavedStream} {chunk : Int × Data}

variable (f)

def unordered : Bool := (ofLex f.id).1

def chunks : List (Int × Data) :=
  f.messages.flatMap InterleavedMessage.fragments

def Delivered (arrivals : List (Int × Data)) (delivered : List Assembled) : Prop :=
  if f.unordered then
    delivered.Perm ((f.messages.filter fun m => m.Arrived arrivals).map
      (InterleavedMessage.assembled f.id))
  else
    delivered = (f.messages.takeWhile fun m => m.Arrived arrivals).map
      (InterleavedMessage.assembled f.id)

variable {f}

/-- Messages for an idle stream: the identifiers of ordered ones are consecutive, those of unordered
ones differ, and all are less than half of the range apart. -/
structure Fits (f : StreamMessages) (s : InterleavedStream) : Prop where
  empty : s.chunksByMid = OrdMap.empty
  seen : s.midUnwrapper.lastValue ≠ none
  valid : ∀ m ∈ f.messages, m.Valid f.id
  consecutive : f.unordered = false → Consecutive s.nextMid f.messages
  distinct : f.unordered = true → (f.messages.map InterleavedMessage.mid).Nodup
  range : ∃ low, ∀ mid ∈ s.midUnwrapper.lastUnwrapped :: f.messages.map InterleavedMessage.mid,
    low ≤ mid ∧ mid < low + 2 ^ 31

structure Received (f : StreamMessages) (low start : Int) (arrivals : List (Int × Data))
    (delivered : List Assembled) (s : InterleavedStream) : Prop where
  seen : s.midUnwrapper.lastValue ≠ none
  above : low ≤ s.midUnwrapper.lastUnwrapped
  below : s.midUnwrapper.lastUnwrapped < low + 2 ^ 31
  unordered : f.unordered = true → HoldsMissing f.messages arrivals s.chunksByMid ∧
    delivered.Perm ((f.messages.filter fun m => m.Arrived arrivals).map
      (InterleavedMessage.assembled f.id))
  ordered : f.unordered = false → ∃ k, Waiting start f.messages arrivals k s ∧
    (∀ m, f.messages[k]? = some m → ¬ m.Arrived arrivals) ∧
    delivered = (f.messages.take k).map (InterleavedMessage.assembled f.id)

theorem Received.delivers (h : Received f low start arrivals delivered s) :
    f.Delivered arrivals delivered := by
  rw [Delivered]
  cases hkind : f.unordered with
  | true => exact (h.unordered hkind).2
  | false =>
    obtain ⟨k, hwaiting, hmissing, hdelivered⟩ := h.ordered hkind
    rw [if_neg Bool.false_ne_true, hdelivered, takeWhile_eq_take f.messages k]
    · intro i m hi hlt
      exact decide_eq_true (hwaiting.arrived i m hi hlt)
    · intro m hm
      exact decide_eq_false (hmissing m hm)

theorem filter_arrived_concat (sendable : Sendable f.id low f.messages) {i : Nat}
    {m : InterleavedMessage} (hi : f.messages[i]? = some m) (hmem : chunk ∈ m.fragments)
    (hnew : chunk ∉ arrivals) :
    (f.messages.filter fun m => m.Arrived (arrivals ++ [chunk])).Perm
      ((f.messages.filter fun m => m.Arrived arrivals) ++
        if m.Arrived (arrivals ++ [chunk]) then [m] else []) := by
  have hnodup : f.messages.Nodup := sendable.distinct.of_map _
  have hmissing : ¬ m.Arrived arrivals := fun harrived => hnew (harrived chunk hmem)
  have hmono : ∀ m' : InterleavedMessage, m'.Arrived arrivals → m'.Arrived (arrivals ++ [chunk]) :=
    fun m' h e he => mem_append_left _ (h e he)
  refine (perm_ext_iff_of_nodup (hnodup.filter _) ?_).mpr fun m' => ?_
  · refine nodup_append.mpr ⟨hnodup.filter _, by split_ifs <;> simp, ?_⟩
    rintro a ha b hb rfl
    split_ifs at hb with harrived
    · rw [mem_singleton.mp hb] at ha
      exact hmissing (of_decide_eq_true (mem_filter.mp ha).2)
    · cases hb
  · rw [mem_append, mem_filter, mem_filter, decide_eq_true_eq, decide_eq_true_eq]
    constructor
    · rintro ⟨hm', harrived⟩
      obtain ⟨j, hj⟩ := getElem?_of_mem hm'
      by_cases hji : j = i
      · subst hji
        rw [hi] at hj
        cases hj
        rw [if_pos harrived]
        exact Or.inr (mem_singleton_self m)
      · exact Or.inl ⟨hm', (sendable.arrived_concat_iff hi hj hji hmem).mp harrived⟩
    · rintro (⟨hm', harrived⟩ | hone)
      · exact ⟨hm', hmono m' harrived⟩
      · split_ifs at hone with harrived
        · rw [mem_singleton.mp hone]
          exact ⟨mem_of_getElem? hi, harrived⟩
        · cases hone

theorem Received.add (h : Received f low start arrivals delivered s)
    (sendable : Sendable f.id low f.messages)
    (consecutive : f.unordered = false → Consecutive start f.messages)
    (hmem : chunk ∈ f.chunks) (hnew : chunk ∉ arrivals) :
    Received f low start (arrivals ++ [chunk])
      (delivered ++ (s.add f.unordered chunk.1 chunk.2).2.1)
      (s.add f.unordered chunk.1 chunk.2).2.2 := by
  obtain ⟨m, hm, hmem⟩ := mem_flatMap.mp hmem
  obtain ⟨i, hi⟩ := getElem?_of_mem hm
  have hrange := sendable.range m hm
  have hunwrap := sendable.unwrap h.seen h.above h.below hm hmem
  have hseen : (s.midUnwrapper.unwrap chunk.2.mid).2.lastValue ≠ none := nofun
  have hlast : (s.midUnwrapper.unwrap chunk.2.mid).2.lastUnwrapped = m.mid := hunwrap
  rw [InterleavedStream.add, SeqNumUnwrapper.unwrap_fst, hunwrap]
  generalize (s.midUnwrapper.unwrap chunk.2.mid).2 = unwrapper at hseen hlast ⊢
  cases hkind : f.unordered with
  | true =>
    obtain ⟨hholds, hperm⟩ := h.unordered hkind
    obtain ⟨count, chunksByMid, hadd, hholds'⟩ := addUnwrapped_unordered
      (s := { s with midUnwrapper := unwrapper }) sendable hholds hi hmem hnew
    rw [hadd]
    refine ⟨hseen, by dsimp only; omega, by dsimp only; omega, fun _ => ⟨hholds', ?_⟩, ?_⟩
    · have hfilter := (filter_arrived_concat sendable hi hmem hnew).map
        (InterleavedMessage.assembled f.id)
      rw [map_append, apply_ite (map _)] at hfilter
      exact (hperm.append_right _).trans hfilter.symm
    · intro hfalse
      rw [hkind] at hfalse
      cases hfalse
  | false =>
    obtain ⟨k, hwaiting, hmissing, rfl⟩ := h.ordered hkind
    obtain ⟨k', count, s', hadd, hle, hwaiting', rfl, hmissing'⟩ := addUnwrapped_ordered
      (s := { s with midUnwrapper := unwrapper }) sendable (consecutive hkind)
      { hwaiting with } hmissing hi hmem hnew
    rw [hadd]
    refine ⟨hseen, by dsimp only; omega, by dsimp only; omega, ?_,
      fun _ => ⟨k', hwaiting', hmissing', ?_⟩⟩
    · intro htrue
      rw [hkind] at htrue
      cases htrue
    · have htake : f.messages.take k = (f.messages.take k').take k := by
        rw [take_take, min_eq_left hle]
      rw [htake, ← map_append, take_append_drop]

theorem Received.other (h : Received f low start arrivals delivered s)
    (hother : chunk ∉ f.chunks) : Received f low start (arrivals ++ [chunk]) delivered s := by
  have hmem : ∀ m ∈ f.messages, ∀ e ∈ m.fragments, (e ∈ arrivals ++ [chunk] ↔ e ∈ arrivals) := by
    intro m hm e he
    rw [List.mem_append, List.mem_singleton]
    refine or_iff_left ?_
    rintro rfl
    exact hother (List.mem_flatMap.mpr ⟨m, hm, he⟩)
  have harrived : ∀ m ∈ f.messages, (m.Arrived (arrivals ++ [chunk]) ↔ m.Arrived arrivals) :=
    fun m hm => forall₂_congr (hmem m hm)
  have hholds : ∀ {pending pending' : Nat → Prop}
      {chunksByMid : OrdMap Int (Fragments (Int × Data))},
      (∀ i < f.messages.length, (pending i ↔ pending' i)) →
      Holds f.messages pending arrivals chunksByMid →
        Holds f.messages pending' (arrivals ++ [chunk]) chunksByMid := by
    intro pending pending' chunksByMid hpending hholds
    refine hholds.congr fun i parts hi e he => ?_
    obtain ⟨m, hi', rfl⟩ := exists_message hi
    rw [hmem m (List.mem_of_getElem? hi') _ (InterleavedMessage.mem_fragments he),
      hpending i (List.getElem?_eq_some_iff.mp hi').1]
  refine ⟨h.seen, h.above, h.below, fun hkind => ?_, fun hkind => ?_⟩
  · obtain ⟨hmissing, hperm⟩ := h.unordered hkind
    refine ⟨hholds (fun i _ => ?_) hmissing, ?_⟩
    · refine forall₂_congr fun m hm => ?_
      rw [harrived m (List.mem_of_getElem? hm)]
    · rwa [List.filter_congr fun m hm => decide_eq_decide.mpr (harrived m hm)]
  · obtain ⟨k, hwaiting, hmissing, hdelivered⟩ := h.ordered hkind
    refine ⟨k, ⟨hwaiting.bound, ?_, hwaiting.next, hholds (fun _ _ => Iff.rfl) hwaiting.holds⟩, ?_,
      hdelivered⟩
    · intro i m hi hlt
      rw [harrived m (List.mem_of_getElem? hi)]
      exact hwaiting.arrived i m hi hlt
    · intro m hm
      rw [harrived m (List.mem_of_getElem? hm)]
      exact hmissing m hm

section

variable (h : f.Fits s)
  (hrange : ∀ mid ∈ s.midUnwrapper.lastUnwrapped :: f.messages.map InterleavedMessage.mid,
    low ≤ mid ∧ mid < low + 2 ^ 31)
include h hrange

theorem Fits.received : Received f low s.nextMid [] [] s := by
  have hmissing : ∀ m ∈ f.messages, ¬ m.Arrived [] := by
    intro m hm harrived
    obtain ⟨chunk, hmem⟩ := exists_mem_of_ne_nil _ (h.valid m hm).delimited.nonempty
    exact absurd (harrived chunk hmem) not_mem_nil
  have hlast := hrange _ mem_cons_self
  refine ⟨h.seen, hlast.1, hlast.2, fun _ => ⟨?_, ?_⟩, fun _ => ⟨0, ?_, ?_, ?_⟩⟩
  · rw [h.empty]
    exact holding_empty fun _ _ => not_mem_nil
  · rw [filter_eq_nil_iff.mpr]
    · exact List.Perm.refl _
    · intro m hm
      simpa using hmissing m hm
  · refine ⟨Nat.zero_le _, fun i _ _ hlt => absurd hlt (Nat.not_lt_zero i), ?_, ?_⟩
    · exact (add_zero _).symm
    · rw [h.empty]
      exact holding_empty fun _ _ => not_mem_nil
  · exact fun m hm => hmissing m (mem_of_getElem? hm)
  · rfl

theorem Fits.sendable : Sendable f.id low f.messages where
  valid := h.valid
  distinct := by
    cases hkind : f.unordered with
    | true => exact h.distinct hkind
    | false =>
      refine pairwise_iff_getElem.mpr fun i j hi hj hij => ?_
      rw [length_map] at hi hj
      rw [getElem_map, getElem_map, h.consecutive hkind i _ (getElem?_eq_getElem hi),
        h.consecutive hkind j _ (getElem?_eq_getElem hj)]
      omega
  range m hm := hrange _ (mem_cons_of_mem _ (mem_map_of_mem hm))

end

theorem Received.bytes_eq_zero (h : Received f low start arrivals delivered s)
    (hall : ∀ m ∈ f.messages, m.Arrived arrivals) : s.bytes = 0 := by
  have hempty : s.chunksByMid = OrdMap.empty := by
    cases hkind : f.unordered with
    | true =>
      refine (h.unordered hkind).1.eq_empty fun i hi hmissing => ?_
      rw [length_map] at hi
      exact hmissing _ (getElem?_eq_getElem hi) (hall _ (getElem_mem hi))
    | false =>
      obtain ⟨k, hwaiting, hmissing, -⟩ := h.ordered hkind
      have hdone : f.messages.length ≤ k := by
        by_contra hlt
        have hget := getElem?_eq_getElem (not_le.mp hlt)
        exact hmissing _ hget (hall _ (mem_of_getElem? hget))
      refine hwaiting.holds.eq_empty fun i hi hle => ?_
      rw [length_map] at hi
      omega
  rw [bytes, hempty]
  rfl

theorem sum_update {g g' : StreamMessages → Nat} {family : List StreamMessages}
    (distinct : (family.map id).Nodup) (hf : f ∈ family)
    (same : ∀ f' ∈ family, f'.id ≠ f.id → g' f' = g f') :
    (family.map g').sum + g f = (family.map g).sum + g' f := by
  induction family with
  | nil => cases hf
  | cons head rest ih =>
    rw [map_cons, nodup_cons] at distinct
    rw [map_cons, map_cons, sum_cons, sum_cons]
    rcases mem_cons.mp hf with rfl | hf
    · have hrest : rest.map g' = rest.map g := by
        refine map_congr_left fun f' hf' => same f' (mem_cons_of_mem _ hf') ?_
        exact fun heq => distinct.1 (heq ▸ mem_map_of_mem hf')
      rw [hrest]
      omega
    · have hhead : g' head = g head := by
        refine same head mem_cons_self fun heq => distinct.1 ?_
        exact heq ▸ mem_map_of_mem hf
      have := ih distinct.2 hf (forall_mem_cons.mp same).2
      omega

end StreamMessages

namespace InterleavedReassemblyStreams

open StreamMessages

variable {s : InterleavedReassemblyStreams} {f : StreamMessages} {family : List StreamMessages}
  {arrivals : List (Int × Data)}

variable (s)

def deliveredOn (id : FullStreamId) (chunks : List (Int × Data)) : List Assembled :=
  ((chunks.zip (addAll InterleavedReassemblyStreams.add s chunks).1).filter fun call =>
    call.1.2.fullStreamId = id).flatMap fun call => call.2.2

theorem deliveredOn_concat (id : FullStreamId) (chunks : List (Int × Data)) (chunk : Int × Data) :
    s.deliveredOn id (chunks ++ [chunk]) = s.deliveredOn id chunks ++
      if chunk.2.fullStreamId = id then
        ((addAll add s chunks).2.add chunk.1 chunk.2).2.1
      else [] := by
  rw [deliveredOn, addAll_concat, zip_append (length_addAll _ s chunks).symm,
    filter_append, flatMap_append]
  refine congrArg (s.deliveredOn id chunks ++ ·) ?_
  split_ifs with hid
  · simp [hid]
  · simp [hid]

theorem stream_add (tsn : Int) (data : Data) (id : FullStreamId) : (s.add tsn data).2.2.stream id =
      if id = data.fullStreamId then ((s.stream id).add data.isUnordered tsn data).2.2
      else s.stream id := by
  rw [add, stream, OrdMap.find?_set]
  split_ifs with hid
  · rw [hid]
    rfl
  · rfl

variable {s}

theorem addAll_received (fits : f.Fits (s.stream f.id)) (nodup : arrivals.Nodup)
    (sub : ∀ chunk ∈ arrivals, chunk.2.fullStreamId = f.id → chunk ∈ f.chunks) :
    ∃ low, Received f low (s.stream f.id).nextMid arrivals (s.deliveredOn f.id arrivals)
      ((addAll add s arrivals).2.stream f.id) := by
  obtain ⟨low, hrange⟩ := fits.range
  have hsendable := fits.sendable hrange
  refine ⟨low, ?_⟩
  induction arrivals using reverseRecOn with
  | nil => exact fits.received hrange
  | append_singleton arrivals chunk ih =>
    obtain ⟨hnodup, -, hnew⟩ := nodup_append.mp nodup
    have hchunk : chunk ∉ arrivals := fun hmem =>
      hnew chunk hmem chunk (mem_singleton_self chunk) rfl
    have hreceived := ih hnodup fun c hc => sub c (mem_append_left _ hc)
    rw [deliveredOn_concat, addAll_concat, stream_add]
    by_cases hid : chunk.2.fullStreamId = f.id
    · have hkind : chunk.2.isUnordered = f.unordered := by
        rw [unordered, ← hid]
        rfl
      have hmem := sub chunk (mem_append_right _ (mem_singleton_self chunk)) hid
      rw [if_pos hid, if_pos hid.symm, add, hid, hkind]
      exact hreceived.add hsendable fits.consecutive hmem hchunk
    · rw [if_neg hid, if_neg (Ne.symm hid), append_nil]
      refine hreceived.other fun hmem => hid ?_
      obtain ⟨m, hm, hc⟩ := mem_flatMap.mp hmem
      exact ((fits.valid m hm).fields chunk hc).1

theorem addAll_bytes (distinct : (family.map StreamMessages.id).Nodup)
    (fits : ∀ f ∈ family, f.Fits (s.stream f.id))
    (sub : ∀ chunk ∈ arrivals, ∃ f ∈ family, chunk.2.fullStreamId = f.id) :
    ((addAll InterleavedReassemblyStreams.add s arrivals).1.map Prod.fst).sum =
      ((family.map fun f =>
        ((addAll InterleavedReassemblyStreams.add s arrivals).2.stream f.id).bytes).sum : Nat) := by
  induction arrivals using reverseRecOn with
  | nil =>
    have hzero : ∀ f ∈ family, (s.stream f.id).bytes = 0 := by
      intro f hf
      rw [InterleavedStream.bytes, (fits f hf).empty]
      rfl
    have hsum := map_congr_left hzero
    simp [addAll, hsum]
  | append_singleton arrivals chunk ih =>
    have hcounts := ih fun c hc => sub c (mem_append_left _ hc)
    obtain ⟨f, hf, hid⟩ := sub chunk (mem_append_right _ (mem_singleton_self chunk))
    rw [addAll_concat, map_append, sum_append, hcounts]
    generalize (addAll InterleavedReassemblyStreams.add s arrivals).2 = t
    have hadd := (t.stream f.id).add_bytes chunk.2.isUnordered chunk.1 chunk.2
    have hupdate := @sum_update f (fun f => (t.stream f.id).bytes)
      (fun f => ((t.add chunk.1 chunk.2).2.2.stream f.id).bytes) family distinct hf ?_
    · rw [stream_add, if_pos hid.symm] at hupdate
      have hcount : (t.add chunk.1 chunk.2).1 =
          ((t.stream f.id).add chunk.2.isUnordered chunk.1 chunk.2).1 := by
        rw [add, hid]
      simp only [map_cons, map_nil, sum_cons, sum_nil]
      omega
    · intro f' _ hne
      rw [stream_add, if_neg fun heq => hne (heq.trans hid)]

theorem fullStreamId_of_mem (fits : f.Fits (s.stream f.id)) {chunk : Int × Data}
    (h : chunk ∈ f.chunks) : chunk.2.fullStreamId = f.id := by
  obtain ⟨m, hm, hc⟩ := mem_flatMap.mp h
  exact ((fits.valid m hm).fields chunk hc).1

theorem nodup_chunks (distinct : (family.map StreamMessages.id).Nodup)
    (fits : ∀ f ∈ family, f.Fits (s.stream f.id)) :
    (family.flatMap StreamMessages.chunks).Nodup := by
  refine nodup_flatMap.mpr ⟨fun f hf => ?_, ?_⟩
  · obtain ⟨low, hrange⟩ := (fits f hf).range
    exact ((fits f hf).sendable hrange).nodup_chunks
  · refine List.Pairwise.imp_of_mem ?_ (pairwise_map.mp distinct)
    intro f f' hf hf' hne chunk hmem hmem'
    exact hne ((fullStreamId_of_mem (fits f hf) hmem).symm.trans
      (fullStreamId_of_mem (fits f' hf') hmem'))

def fragment (isUnordered : Bool) (mid : MID) (fsn : FSN) (payload : List UInt8)
    (isBeginning isEnd : Bool) : Data where
  streamId := 1
  ssn := 0
  mid := mid
  fsn := fsn
  ppid := 53
  payload := payload
  isBeginning := isBeginning
  isEnd := isEnd
  isUnordered := isUnordered

def threeMessages : List StreamMessages :=
  [⟨toLex (false, 1),
      [⟨0, [(10, fragment false 0 0 [1] true false), (11, fragment false 0 1 [2] false true)]⟩,
        ⟨1, [(12, fragment false 1 0 [3] true true)]⟩]⟩,
    ⟨toLex (true, 1),
      [⟨5, [(13, fragment true 5 0 [4] true false), (14, fragment true 5 1 [5] false true)]⟩]⟩]

theorem threeMessages_fits :
    ∀ f ∈ threeMessages, f.Fits (InterleavedReassemblyStreams.stream {} f.id) := by
  intro f hf
  simp only [threeMessages, mem_cons, not_mem_nil, or_false] at hf
  rcases hf with rfl | rfl
  · refine ⟨rfl, by decide, by decide, fun _ => ?_, by decide, 0, by decide⟩
    rw [InterleavedStream.Consecutive, forall_getElem?_iff]
    decide
  · exact ⟨rfl, by decide, by decide, nofun, by decide, 0,
      by decide⟩

/-- An unordered message in two fragments, and two messages far from it and from each other. -/
def distantMessages : List InterleavedMessage :=
  [⟨0, [(10, fragment true 0 0 [1] true false), (11, fragment true 0 1 [2] false true)]⟩,
    ⟨0x60000000, [(12, fragment true 0x60000000 0 [3] true true)]⟩,
    ⟨0xC0000000, [(13, fragment true 0xC0000000 0 [4] true true)]⟩]

end InterleavedReassemblyStreams

end Dcsctp
