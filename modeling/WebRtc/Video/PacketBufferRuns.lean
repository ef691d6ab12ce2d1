import WebRtc.Video.PacketBufferFrames

/-!
# The packet buffer over sequences of calls

Each call keeps the invariant of the slots, as long as the sequence numbers that are in use lie in a
window of half a turn. The packets that are handed out are counted against the ones that were
inserted.
-/

namespace Video

open SequenceNumbers TreeSearch List

namespace PacketBuffer

variable {β : Type} {q q' : PacketBuffer β} {k s : BitVec 16} {packet : Packet β}
  (search : Search (BitVec 16)) {frame : List (Packet β)} {calls : List (Call β)}

theorem Lawful.of_held (h : Lawful q) (hsized : Sized q') (hplace : InPlace q')
    (hheld : ∀ k, q'.held k = q.held k) (hwindow : ∀ k p, q.held k = some p →
      q'.firstPacketReceived = true ∧ (k - q'.firstSeqNum).toNat ≤ 32768) : Lawful q' := by
  refine ⟨hsized, hplace, ?_, ?_, ?_⟩
  · intro k p hk
    exact h.codec k p (hheld k ▸ hk)
  · intro k p hk hcontinuous
    obtain ⟨hlast, hready⟩ := h.chain k p (hheld k ▸ hk) hcontinuous
    exact ⟨hlast, hready.mono fun p' hp' => (hheld _).trans hp'⟩
  · intro k p hk
    exact hwindow k p (hheld k ▸ hk)

theorem SettledBut.of_held {exception : BitVec 16 → Prop} (h : SettledBut q exception)
    (hheld : ∀ k, q'.held k = q.held k) : SettledBut q' exception := by
  intro k p hk hready
  exact h k p (hheld k ▸ hk) (hready.mono fun p' hp' => (hheld _).symm.trans hp')

theorem updateMissingPackets_eq (q : PacketBuffer β) (s : BitVec 16) : ∃ newest missing,
    q.updateMissingPackets search s =
      { q with newestInsertedSeqNum := newest, missingPackets := missing } := by
  unfold updateMissingPackets
  dsimp only
  split
  · exact ⟨_, _, rfl⟩
  · exact ⟨_, _, rfl⟩

theorem entry_clearInternal (q : PacketBuffer β) (i : Nat) : q.clearInternal.entry i = none := by
  rw [entry, clearInternal, getElem?_map]
  cases q.buffer[i]? with
  | none => rfl
  | some a => rfl

theorem held_eq_none_of_entry (h : ∀ i, q.entry i = none) (k : BitVec 16) : q.held k = none := by
  rw [held, h]
  rfl

theorem stock_clearInternal (q : PacketBuffer β) : stock q.clearInternal = 0 := by
  have hnone : (q.buffer.map fun _ => (none : Option (Packet β))).filterMap id = [] := by
    rw [filterMap_map]
    exact filterMap_eq_nil_iff.mpr fun _ _ => rfl
  rw [stock, stockOf, clearInternal, hnone]
  rfl

theorem lawful_of_empty (hsized : Sized q) (hempty : ∀ i, q.entry i = none) : Lawful q := by
  have hheld := held_eq_none_of_entry hempty
  have hnone : ∀ k p, ¬ q.held k = some p := by
    intro k p hk
    rw [hheld k] at hk
    cases hk
  refine ⟨hsized, ?_, ?_, ?_, ?_⟩
  · intro i p hp
    rw [hempty i] at hp
    cases hp
  · exact fun k p hk => absurd hk (hnone k p)
  · exact fun k p hk => absurd hk (hnone k p)
  · exact fun k p hk => absurd hk (hnone k p)

theorem settled_of_empty (hempty : ∀ i, q.entry i = none) : Settled q := by
  intro k p hk
  rw [held_eq_none_of_entry hempty k] at hk
  cases hk

theorem sized_clearInternal (h : Sized q) : Sized q.clearInternal := by
  have hlength : q.clearInternal.buffer.length = q.buffer.length := length_map _
  exact ⟨hlength.symm ▸ h.size, h.limit, hlength.trans_le h.le⟩

section Rehash

variable {newSize : Nat} {newBuffer cells : List (Option (Packet β))}

theorem rehash_none : rehash newSize newBuffer (none :: cells) = rehash newSize newBuffer cells := rfl

theorem rehash_some : rehash newSize newBuffer (some packet :: cells) =
    rehash newSize (newBuffer.set (packet.seqNum.toNat % newSize) (some packet)) cells := rfl

theorem length_rehash : (rehash newSize newBuffer cells).length = newBuffer.length := by
  induction cells generalizing newBuffer with
  | nil => rfl
  | cons a cells ih =>
    cases a with
    | none => rw [rehash_none, ih]
    | some p => rw [rehash_some, ih, length_set]

theorem rehash_of_free {i : Nat} (hfree : ∀ p, some p ∈ cells → p.seqNum.toNat % newSize ≠ i) :
    (rehash newSize newBuffer cells)[i]? = newBuffer[i]? := by
  induction cells generalizing newBuffer with
  | nil => rfl
  | cons a cells ih =>
    have hrest : ∀ p, some p ∈ cells → p.seqNum.toNat % newSize ≠ i := fun p hp =>
      hfree p (mem_cons_of_mem _ hp)
    cases a with
    | none => rw [rehash_none, ih hrest]
    | some p => rw [rehash_some, ih hrest, getElem?_set_ne (hfree p mem_cons_self)]

theorem rehash_of_mem (hin : some packet ∈ cells)
    (hroom : packet.seqNum.toNat % newSize < newBuffer.length)
    (halone : ∀ p, some p ∈ cells → p.seqNum.toNat % newSize = packet.seqNum.toNat % newSize →
      p = packet) :
    (rehash newSize newBuffer cells)[packet.seqNum.toNat % newSize]? = some (some packet) := by
  induction cells generalizing newBuffer with
  | nil => cases hin
  | cons a cells ih =>
    have hrest : ∀ p, some p ∈ cells → p.seqNum.toNat % newSize = packet.seqNum.toNat % newSize →
      p = packet := fun p hp => halone p (mem_cons_of_mem _ hp)
    by_cases hlater : some packet ∈ cells
    · cases a with
      | none => exact ih hlater hroom hrest
      | some p => exact ih hlater (by rw [length_set]; exact hroom) hrest
    · have ha : a = some packet := ((mem_cons.mp hin).resolve_right hlater).symm
      have hfree : ∀ p, some p ∈ cells → p.seqNum.toNat % newSize ≠ packet.seqNum.toNat % newSize := by
        intro p hp hslot
        exact hlater (hrest p hp hslot ▸ hp)
      rw [ha, rehash_some, rehash_of_free hfree, getElem?_set_self hroom]

theorem mem_of_rehash {i : Nat} (hp : (rehash newSize newBuffer cells)[i]? = some (some packet)) :
    some packet ∈ cells ∧ packet.seqNum.toNat % newSize = i ∨ newBuffer[i]? = some (some packet) := by
  induction cells generalizing newBuffer with
  | nil => exact .inr hp
  | cons a cells ih =>
    cases a with
    | none => exact (ih hp).imp (fun h => ⟨mem_cons_of_mem _ h.1, h.2⟩) id
    | some p =>
      rcases ih hp with ⟨hin, hslot⟩ | hset
      · exact .inl ⟨mem_cons_of_mem _ hin, hslot⟩
      · rw [getElem?_set] at hset
        split_ifs at hset with hslot hlt
        · cases hset
          exact .inl ⟨mem_cons_self, hslot⟩
        · exact .inr hset

end Rehash

structure Moved (q q' : PacketBuffer β) : Prop where
  sized : Sized q'
  inPlace : InPlace q'
  held : ∀ k, q'.held k = q.held k
  stock : PacketBuffer.stock q' ≤ PacketBuffer.stock q
  first : q'.firstSeqNum = q.firstSeqNum
  received : q'.firstPacketReceived = q.firstPacketReceived
  padding : q'.receivedPadding = q.receivedPadding

theorem Moved.lawful (hmoved : Moved q q') (h : Lawful q) : Lawful q' := by
  refine h.of_held hmoved.sized hmoved.inPlace hmoved.held fun k p hk => ?_
  rw [hmoved.first, hmoved.received]
  exact h.window k p hk

theorem mem_buffer_iff : some packet ∈ q.buffer ↔ ∃ i, q.entry i = some packet := by
  rw [mem_iff_getElem?]
  constructor
  · rintro ⟨i, hi⟩
    exact ⟨i, by rw [entry, hi]; rfl⟩
  · rintro ⟨i, hi⟩
    refine ⟨i, ?_⟩
    exact Option.join_eq_some_iff.mp hi

theorem stockOf_rehash_le {newSize : Nat} {newBuffer cells : List (Option (Packet β))} :
    stockOf (rehash newSize newBuffer cells) ≤ stockOf newBuffer + stockOf cells := by
  induction cells generalizing newBuffer with
  | nil => exact (add_zero _).ge
  | cons a cells ih =>
    cases a with
    | none => exact ih
    | some p =>
      rw [stockOf_cons, ← add_assoc]
      exact ih.trans (Multiset.add_le_add_right (stockOf_set_le _ _ _))

theorem moved_expandBufferSize (hsized : Sized q) (hplace : InPlace q)
    (hsmall : q.buffer.length < 65536) (hexpand : q.expandBufferSize = some q') : Moved q q' := by
  rw [expandBufferSize] at hexpand
  split_ifs at hexpand with hfull
  cases hexpand
  obtain ⟨e, hle, he⟩ := hsized.size
  obtain ⟨m, hm⟩ := hsized.limit
  have hlt : e < m := by
    have := hsized.le
    rw [he, hm] at hfull this
    exact lt_of_le_of_ne ((Nat.pow_le_pow_iff_right (by decide)).mp this) fun heq => hfull (by rw [heq])
  have hlt' : e < 16 := by
    rw [he] at hsmall
    exact (Nat.pow_lt_pow_iff_right (by decide)).mp hsmall
  have hdouble : 2 * q.buffer.length = 2 ^ (e + 1) := by rw [he, Nat.pow_succ, Nat.mul_comm]
  have hmin : min q.maxSize (2 * q.buffer.length) = 2 * q.buffer.length := by
    rw [hdouble, hm]
    exact min_eq_right (Nat.pow_le_pow_right (by decide) hlt)
  rw [hmin]
  have hlength : (rehash (2 * q.buffer.length) (replicate (2 * q.buffer.length) none)
      q.buffer).length = 2 * q.buffer.length := by
    rw [length_rehash, length_replicate]
  have hempty : ∀ (i : Nat) p, ¬ (replicate (2 * q.buffer.length) (none : Option (Packet β)))[i]? =
      some (some p) := by
    intro i p hp
    rw [getElem?_replicate] at hp
    split_ifs at hp
    cases hp
  -- numbers that share a slot of the new buffer shared one of the old buffer
  have hshare : ∀ a b : BitVec 16, a.toNat % (2 * q.buffer.length) = b.toNat % (2 * q.buffer.length) →
      q.index a = q.index b := by
    intro a b hab
    have := congrArg (· % q.buffer.length) hab
    rw [index, index]
    simpa only [Nat.mod_mod_of_dvd _ (Nat.dvd_mul_left q.buffer.length 2)] using this
  have hnew : ∀ i p, (rehash (2 * q.buffer.length) (replicate (2 * q.buffer.length) none)
      q.buffer)[i]?.join = some p ↔
      some p ∈ q.buffer ∧ p.seqNum.toNat % (2 * q.buffer.length) = i := by
    intro i p
    rw [Option.join_eq_some_iff]
    constructor
    · intro hp
      exact (mem_of_rehash hp).resolve_right (hempty i p)
    · rintro ⟨hin, rfl⟩
      refine rehash_of_mem hin ?_ fun p' hp' hslot => ?_
      · rw [length_replicate]
        exact Nat.mod_lt _ (Nat.mul_pos (by decide) hsized.pos)
      · obtain ⟨i, hi⟩ := mem_buffer_iff.mp hin
        obtain ⟨i', hi'⟩ := mem_buffer_iff.mp hp'
        have hsame : i' = i := by
          rw [← hplace i p hi, ← hplace i' p' hi', hshare _ _ hslot]
        rw [hsame, hi] at hi'
        exact (Option.some.inj hi').symm
  refine ⟨⟨⟨e + 1, hlt', hlength.trans hdouble⟩, ⟨m, hm⟩, ?_⟩, ?_, ?_, ?_, rfl, rfl, rfl⟩
  · rw [hlength, ← hmin]
    exact min_le_left _ _
  · intro i p hp
    change p.seqNum.toNat % (rehash _ _ _).length = i
    rw [hlength]
    exact ((hnew i p).mp hp).2
  · intro k
    refine Option.ext fun p => ?_
    rw [held_eq_some, held_eq_some]
    change (rehash _ _ _)[k.toNat % (rehash _ _ _).length]?.join = some p ∧ _ ↔ _
    rw [hlength, hnew, mem_buffer_iff]
    constructor
    · rintro ⟨⟨⟨i, hi⟩, -⟩, rfl⟩
      rw [hplace i p hi]
      exact ⟨hi, rfl⟩
    · rintro ⟨hi, rfl⟩
      exact ⟨⟨⟨_, hi⟩, rfl⟩, rfl⟩
  · refine le_trans stockOf_rehash_le ?_
    have hzero : stockOf (replicate (2 * q.buffer.length) (none : Option (Packet β))) = 0 := by
      rw [stockOf, filterMap_replicate_of_none rfl]
      rfl
    rw [hzero]
    rfl

theorem length_lt_of_conflict (hsized : Sized q) (hplace : InPlace q)
    (hentry : q.entry (q.index s) = some packet) (hne : packet.seqNum ≠ s) :
    q.buffer.length < 65536 := by
  have hle := Nat.le_of_dvd (by decide) hsized.dvd
  refine lt_of_le_of_ne hle fun hlength => hne ?_
  have hindex := hplace _ _ hentry
  have hs := s.isLt
  have hp := packet.seqNum.isLt
  rw [index, index, hlength, Nat.mod_eq_of_lt hs, Nat.mod_eq_of_lt hp] at hindex
  exact BitVec.eq_of_toNat_eq hindex

theorem moved_expandWhileFull (hsized : Sized q) (hplace : InPlace q) (hs : q.held s = none)
    (hfull : q.entry (q.index s) ≠ none) (rounds : Nat) : Moved q (expandWhileFull s rounds q) := by
  induction rounds generalizing q with
  | zero => exact ⟨hsized, hplace, fun _ => rfl, le_refl _, rfl, rfl, rfl⟩
  | succ rounds ih =>
    obtain ⟨other, hother⟩ := Option.ne_none_iff_exists'.mp hfull
    have hne : other.seqNum ≠ s := by
      intro heq
      rw [held_eq_some.mpr ⟨hother, heq⟩] at hs
      cases hs
    rw [expandWhileFull]
    cases hexpand : q.expandBufferSize with
    | none => exact ⟨hsized, hplace, fun _ => rfl, le_refl _, rfl, rfl, rfl⟩
    | some q₁ =>
      have hmoved := moved_expandBufferSize hsized hplace
        (length_lt_of_conflict hsized hplace hother hne) hexpand
      dsimp only
      cases hentry : q₁.entry (q₁.index s) with
      | none => exact hmoved
      | some p =>
        have hrest := ih hmoved.sized hmoved.inPlace ((hmoved.held s).trans hs)
          (by rw [hentry]; exact nofun)
        exact ⟨hrest.sized, hrest.inPlace, fun k => (hrest.held k).trans (hmoved.held k),
          hrest.stock.trans hmoved.stock, hrest.first.trans hmoved.first,
          hrest.received.trans hmoved.received, hrest.padding.trans hmoved.padding⟩

/-- The sequence numbers in use when a call is given a number. -/
def live (q : PacketBuffer β) (s : BitVec 16) : List (BitVec 16) :=
  s :: (if q.firstPacketReceived then [q.firstSeqNum] else []) ++
    (q.buffer.filterMap id).map Packet.seqNum

def Near (q : PacketBuffer β) (s : BitVec 16) : Prop :=
  ∃ base : BitVec 16, ∀ x ∈ q.live s, (x - base).toNat < 2 ^ 15

theorem Near.cases (h : Near q s) : ∃ base : BitVec 16, (s - base).toNat < 32768 ∧
    (q.firstPacketReceived = true → (q.firstSeqNum - base).toNat < 32768) ∧
    ∀ k p, q.held k = some p → (k - base).toNat < 32768 := by
  obtain ⟨base, hbase⟩ := h
  refine ⟨base, hbase s mem_cons_self, fun hreceived => hbase _ ?_, fun k p hk => hbase k ?_⟩
  · rw [live, if_pos hreceived]
    simp
  · obtain ⟨hentry, hseq⟩ := held_eq_some.mp hk
    rw [live, mem_append, mem_map]
    exact .inr ⟨p, mem_filterMap.mpr ⟨_, mem_buffer_iff.mpr ⟨_, hentry⟩, rfl⟩, hseq⟩

structure Shrunk (q q' : PacketBuffer β) : Prop where
  lawful : Lawful q'
  held : ∀ k p, q'.held k = some p → q.held k = some p
  stock : PacketBuffer.stock q' ≤ PacketBuffer.stock q
  padding : ∀ k ∈ q'.receivedPadding, k ∈ q.receivedPadding
  settled : Settled q → Settled q'

theorem Shrunk.refl (h : Lawful q) : Shrunk q q := ⟨h, fun _ _ hk => hk, le_refl _, fun _ hk => hk, id⟩

theorem Shrunk.trans {q'' : PacketBuffer β} (h : Shrunk q q') (h' : Shrunk q' q'') : Shrunk q q'' :=
  ⟨h'.lawful, fun k p hk => h.held k p (h'.held k p hk), h'.stock.trans h.stock,
    fun k hk => h.padding k (h'.padding k hk), fun hsettled => h'.settled (h.settled hsettled)⟩

theorem Moved.shrunk (hmoved : Moved q q') (h : Lawful q) : Shrunk q q' :=
  ⟨hmoved.lawful h, fun k _ hk => (hmoved.held k).symm.trans hk, hmoved.stock,
    fun _ hk => hmoved.padding ▸ hk, fun hsettled => hsettled.of_held hmoved.held⟩

theorem shrunk_clearInternal (h : Sized q) : Shrunk q q.clearInternal where
  lawful := lawful_of_empty (sized_clearInternal h) (entry_clearInternal q)
  held k p hk := by
    cases (held_eq_none_of_entry (entry_clearInternal q) k).symm.trans hk
  stock := (stock_clearInternal q).le.trans (Multiset.zero_le _)
  padding _ hk := absurd hk not_mem_nil
  settled _ := settled_of_empty (entry_clearInternal q)

structure Admitted (q q' : PacketBuffer β) (s : BitVec 16) : Prop extends Shrunk q q' where
  received : q'.firstPacketReceived = true
  window : (s - q'.firstSeqNum).toNat ≤ 32768

theorem Lawful.accept (h : Lawful q) (hnear : Near q s) (haccept : q.accept s = some q') :
    Admitted q q' s := by
  obtain ⟨base, hs, hfirst, hheld⟩ := hnear.cases
  have hself : (s - s).toNat ≤ 32768 := by simp
  unfold PacketBuffer.accept at haccept
  split_ifs at haccept with hreceived hahead hcleared hjump <;> cases haccept
  · refine ⟨{ Shrunk.refl h with lawful := { h with sized := { h.sized with }, window := ?_ } }, rfl,
      hself⟩
    exact fun k p hk => absurd (h.window k p hk).1 (by simpa using hreceived)
  · have hclear := shrunk_clearInternal h.sized
    refine ⟨{ hclear with
      lawful := { hclear.lawful with sized := { hclear.lawful.sized with }, window := ?_ } }, rfl, hself⟩
    exact fun k p hk => absurd (hclear.lawful.window k p hk).1 Bool.false_ne_true
  · have hreceived' : q.firstPacketReceived = true := by simpa using hreceived
    have hfirst' := hfirst hreceived'
    rw [aheadOf_iff_sub] at hahead
    refine ⟨{ Shrunk.refl h with lawful := { h with sized := { h.sized with }, window := ?_ } },
      hreceived', hself⟩
    refine fun k p hk => ⟨hreceived', ?_⟩
    -- the old first number lies between the new one and the packet
    have hwindow := (h.window k p hk).2
    have hk' := hheld k p hk
    bv_omega
  · have hreceived' : q.firstPacketReceived = true := by simpa using hreceived
    rw [aheadOf_iff_sub] at hahead
    exact ⟨Shrunk.refl h, hreceived', by bv_omega⟩

theorem held_put (hsized : Sized q) (hfree : q.entry (q.index packet.seqNum) = none) (k : BitVec 16) :
    (q.put packet).held k =
      if k = packet.seqNum then some (packet.setContinuous false) else q.held k := by
  refine held_setEntry hsized (fun p hp => ?_) ?_ k
  · rw [hfree] at hp
    cases hp
  · rintro p ⟨⟩
    rfl

theorem Lawful.put (h : Lawful q) (hfree : q.entry (q.index packet.seqNum) = none)
    (hcodec : packet.codec ≠ .h264) (hreceived : q.firstPacketReceived = true)
    (hwindow : (packet.seqNum - q.firstSeqNum).toNat ≤ 32768) : Lawful (q.put packet) := by
  have hnone : q.held packet.seqNum = none := by
    rw [held, hfree]
    rfl
  refine ⟨(kept_setEntry q _ _).sized h.sized, h.inPlace.setEntry h.sized ?_, ?_, ?_, ?_⟩
  · rintro p ⟨⟩
    rfl
  · intro k p hk
    rw [held_put h.sized hfree] at hk
    split_ifs at hk with hks
    · cases hk
      exact hcodec
    · exact h.codec k p hk
  · intro k p hk hcontinuous
    rw [held_put h.sized hfree] at hk
    split_ifs at hk with hks
    · cases hk
      cases hcontinuous
    · obtain ⟨hlast, hready⟩ := h.chain k p hk hcontinuous
      refine ⟨hlast, hready.mono fun p' hp' => ?_⟩
      rw [held_put h.sized hfree, if_neg fun heq => ?_]
      · exact hp'
      · rw [heq, hnone] at hp'
        cases hp'
  · intro k p hk
    rw [held_put h.sized hfree] at hk
    split_ifs at hk with hks
    · rw [hks]
      exact ⟨hreceived, hwindow⟩
    · exact h.window k p hk

theorem Settled.put (h : Settled q) (hsized : Sized q)
    (hfree : q.entry (q.index packet.seqNum) = none) :
    SettledBut (q.put packet) fun k => k = packet.seqNum := by
  intro k p hk hready hne
  rw [held_put hsized hfree, if_neg hne] at hk
  refine h k p hk ?_ id
  rcases hready with hfirst | ⟨previous, hprevious, hts, hcontinuous⟩
  · exact .inl hfirst
  · rw [held_put hsized hfree] at hprevious
    split_ifs at hprevious
    · cases hprevious
      cases hcontinuous
    · exact .inr ⟨previous, hprevious, hts, hcontinuous⟩

structure StoredIn (q q' : PacketBuffer β) (packet : Packet β) : Prop where
  lawful : Lawful q'
  held : ∀ k p, q'.held k = some p → k = packet.seqNum ∨ q.held k = some p
  there : q'.entry (q'.index packet.seqNum) = some (packet.setContinuous false)
  stock : PacketBuffer.stock q' ≤ PacketBuffer.stock q + {origin packet}
  padding : ∀ k ∈ q'.receivedPadding, k ∈ q.receivedPadding
  settled : Settled q → SettledBut q' fun k => k = packet.seqNum

theorem Shrunk.storedIn {q'' : PacketBuffer β} (h : Shrunk q q') (h' : StoredIn q' q'' packet) :
    StoredIn q q'' packet :=
  ⟨h'.lawful, fun k p hk => (h'.held k p hk).imp id (h.held k p), h'.there,
    h'.stock.trans (Multiset.add_le_add_right h.stock), fun k hk => h.padding k (h'.padding k hk),
    fun hsettled => h'.settled (h.settled hsettled)⟩

theorem StoredIn.put (h : Lawful q) (hfree : q.entry (q.index packet.seqNum) = none)
    (hcodec : packet.codec ≠ .h264) (hreceived : q.firstPacketReceived = true)
    (hwindow : (packet.seqNum - q.firstSeqNum).toNat ≤ 32768) : StoredIn q (q.put packet) packet where
  lawful := h.put hfree hcodec hreceived hwindow
  held k p hk := by
    rw [held_put h.sized hfree] at hk
    split_ifs at hk with hks
    · exact .inl hks
    · exact .inr hk
  there := by
    rw [PacketBuffer.put, index_setEntry, entry_setEntry (h.sized.index_lt _), if_pos rfl]
  stock := by
    have hslot := stock_setEntry (h.sized.index_lt packet.seqNum) (some (packet.setContinuous false))
    rw [hfree] at hslot
    exact ((add_zero _).symm.trans hslot).le
  padding _ hk := hk
  settled hsettled := hsettled.put h.sized hfree

theorem Lawful.store (h : Lawful q) (hcodec : packet.codec ≠ .h264)
    (hreceived : q.firstPacketReceived = true)
    (hwindow : (packet.seqNum - q.firstSeqNum).toNat ≤ 32768) :
    q.store packet = .ignored q ∨ (∃ q', q.store packet = .cleared q' ∧ Shrunk q q') ∨
      ∃ q', q.store packet = .stored q' ∧ StoredIn q q' packet := by
  rw [PacketBuffer.store]
  cases hentry : q.entry (q.index packet.seqNum) with
  | none => exact .inr (.inr ⟨_, rfl, StoredIn.put h hentry hcodec hreceived hwindow⟩)
  | some other =>
    dsimp only
    split_ifs with hdup
    · exact .inl rfl
    · have hnone : q.held packet.seqNum = none := by
        rw [PacketBuffer.held, hentry, Option.filter_some, if_neg (by simpa using hdup)]
      have hmoved := moved_expandWhileFull h.sized h.inPlace hnone
        (by rw [hentry]; exact Option.some_ne_none _) (q.maxSize - q.buffer.length)
      generalize expandWhileFull packet.seqNum (q.maxSize - q.buffer.length) q = q₁ at hmoved ⊢
      cases hfree : q₁.entry (q₁.index packet.seqNum) with
      | some p =>
        exact .inr (.inl ⟨_, rfl, (hmoved.shrunk h).trans (shrunk_clearInternal hmoved.sized)⟩)
      | none =>
        have hstored := StoredIn.put (hmoved.lawful h) hfree hcodec (hmoved.received.trans hreceived)
          (by rw [hmoved.first]; exact hwindow)
        exact .inr (.inr ⟨_, rfl, (hmoved.shrunk h).storedIn hstored⟩)

theorem Lawful.place (h : Lawful q) (hnear : Near q packet.seqNum) (hcodec : packet.codec ≠ .h264) :
    (∃ q', q.place packet = .ignored q' ∧ Shrunk q q') ∨
      (∃ q', q.place packet = .cleared q' ∧ Shrunk q q') ∨
      ∃ q', q.place packet = .stored q' ∧ StoredIn q q' packet := by
  rw [PacketBuffer.place]
  cases haccept : q.accept packet.seqNum with
  | none => exact .inl ⟨q, rfl, Shrunk.refl h⟩
  | some q₁ =>
    have hadmitted := h.accept hnear haccept
    rcases hadmitted.lawful.store hcodec hadmitted.received hadmitted.window with
      hstore | ⟨q₂, hstore, hshrunk⟩ | ⟨q₂, hstore, hstored⟩
    · exact .inl ⟨q₁, hstore, hadmitted.toShrunk⟩
    · exact .inr (.inl ⟨q₂, hstore, hadmitted.toShrunk.trans hshrunk⟩)
    · exact .inr (.inr ⟨q₂, hstore, hadmitted.toShrunk.storedIn hstored⟩)

/-- The buffer in which `InsertPacket` searches for frames. -/
theorem prepared_eq (q : PacketBuffer β) (s : BitVec 16) : ∃ newest missing n, q.prepared search s =
    { q with
      newestInsertedSeqNum := newest
      missingPackets := missing
      receivedPadding := q.receivedPadding.drop n } := by
  obtain ⟨newest, missing, heq⟩ := updateMissingPackets_eq search q s
  rw [prepared, heq]
  exact ⟨newest, missing, _, rfl⟩

theorem kept_prepared (q : PacketBuffer β) (s : BitVec 16) : Kept q (q.prepared search s) := by
  obtain ⟨newest, missing, n, heq⟩ := prepared_eq search q s
  rw [heq]
  exact ⟨rfl, rfl, rfl, rfl, fun _ hk => mem_of_mem_drop hk⟩

theorem Lawful.prepared (h : Lawful q) (search : Search (BitVec 16)) (s : BitVec 16) :
    Lawful (q.prepared search s) := by
  obtain ⟨newest, missing, n, heq⟩ := prepared_eq search q s
  rw [heq]
  exact { h with sized := { h.sized with } }

theorem StoredIn.searching (hstored : StoredIn q q' packet) (search : Search (BitVec 16))
    (happart : Apart q) (hsettled : Settled q) (hpacket : packet.seqNum ∉ q.receivedPadding) :
    Searching (q'.prepared search packet.seqNum) packet.seqNum
      (q'.prepared search packet.seqNum).buffer.length := by
  obtain ⟨newest, missing, n, heq⟩ := prepared_eq search q' packet.seqNum
  rw [heq]
  refine ⟨fun k p hk hpad => ?_, hstored.settled hsettled, fun p hp => ?_⟩
  · have hpad' := hstored.padding k (mem_of_mem_drop hpad)
    rcases hstored.held k p hk with rfl | hold
    · exact hpacket hpad'
    · exact happart k p hold hpad'
  · have hsized := hstored.lawful.sized
    change q'.held (packet.seqNum + BitVec.ofNat 16 q'.buffer.length) = some p at hp
    obtain ⟨hentry, hseq⟩ := held_eq_some.mp hp
    rw [hsized.index_add_length, hstored.there] at hentry
    cases hentry
    exact .inr ⟨hseq.symm, hsized.pos⟩

structure Effect (q q' : PacketBuffer β) (inserted : Multiset (Int × BitVec 32 × Bool × Bool × β))
    (packets : List (Packet β)) : Prop where
  lawful : Lawful q'
  frames : ∃ frames : List (List (Packet β)), packets = frames.flatten ∧ ∀ frame ∈ frames, IsFrame frame
  stock : PacketBuffer.stock q' + (packets.map origin : List _) ≤ PacketBuffer.stock q + inserted

theorem Shrunk.effect (h : Shrunk q q') (inserted : Multiset (Int × BitVec 32 × Bool × Bool × β)) :
    Effect q q' inserted [] := by
  refine ⟨h.lawful, ⟨[], rfl, nofun⟩, ?_⟩
  rw [map_nil, Multiset.coe_nil, add_zero]
  exact h.stock.trans (Multiset.le_add_right _ _)

theorem Shrunk.apart (h : Shrunk q q') (happart : Apart q) : Apart q' := fun k p hk hpad =>
  happart k p (h.held k p hk) (h.padding k hpad)

variable {search : Search (BitVec 16)} {P : PacketBuffer β → Call β → Prop}

theorem insertPacket_stored {q₂ : PacketBuffer β}
    {packets : List (Packet β)} (hplace : q.place packet = .stored q')
    (hfind : (q'.prepared search packet.seqNum).findFrames search packet.seqNum =
      some (q₂, packets)) : q.insertPacket search packet = some (q₂, ⟨packets, false⟩) := by
  rw [insertPacket, hplace]
  dsimp only
  rw [hfind]

theorem Lawful.insertPacket (h : Lawful q) (search : Search (BitVec 16))
    (hnear : Near q packet.seqNum) (hcodec : packet.codec ≠ .h264) :
    ∃ q' result, q.insertPacket search packet = some (q', result) ∧
      Effect q q' {origin packet} result.packets ∧
      (Apart q → Settled q → packet.seqNum ∉ q.receivedPadding → Apart q' ∧ Settled q') := by
  rcases h.place hnear hcodec with ⟨q', hplace, hshrunk⟩ | ⟨q', hplace, hshrunk⟩ | ⟨q', hplace, hstored⟩
  · refine ⟨q', ⟨[], false⟩, ?_, hshrunk.effect _, fun happart hsettled _ =>
      ⟨hshrunk.apart happart, hshrunk.settled hsettled⟩⟩
    rw [PacketBuffer.insertPacket, hplace]
  · refine ⟨q', ⟨[], true⟩, ?_, hshrunk.effect _, fun happart hsettled _ =>
      ⟨hshrunk.apart happart, hshrunk.settled hsettled⟩⟩
    rw [PacketBuffer.insertPacket, hplace]
  · have hlawful := hstored.lawful.prepared search packet.seqNum
    obtain ⟨q₂, packets, hfind, hfound, hmarked⟩ := hlawful.findFramesFrom_spec search packet.seqNum
      (q'.prepared search packet.seqNum).buffer.length packet.seqNum
    refine ⟨q₂, ⟨packets, false⟩, insertPacket_stored hplace hfind, ⟨hfound.lawful, hfound.frames, ?_⟩,
      fun happart hsettled hpacket => ?_⟩
    · obtain ⟨newest, missing, n, heq⟩ := prepared_eq search q' packet.seqNum
      rw [← hfound.stock, heq]
      exact hstored.stock
    · have hsearch := hstored.searching search happart hsettled hpacket
      refine ⟨fun k p hk hpad => ?_, hmarked hsearch⟩
      obtain ⟨p', hp'⟩ := Option.ne_none_iff_exists'.mp
        (hfound.held k (by rw [hk]; exact nofun))
      exact hsearch.apart k p' hp' (hfound.kept.padding k hpad)

theorem Run.continuous_of_settledBut {start : BitVec 16} (hrun : Run q start frame)
    (hsettled : SettledBut q fun k => k = s) {m : Nat}
    (hbefore : ∀ i < m, start + BitVec.ofNat 16 i ≠ s) {i : Nat} (hi : i < m) {p : Packet β}
    (hp : frame[i]? = some p) : p.continuous = true := by
  induction i generalizing p with
  | zero => exact hsettled _ p (hrun.stored 0 p hp) (.inl ((hrun.first 0 p hp).mpr rfl)) (hbefore 0 hi)
  | succ i ih =>
    have hlt := (List.getElem?_eq_some_iff.mp hp).1
    obtain ⟨previous, hprevious⟩ : ∃ previous, frame[i]? = some previous :=
      ⟨_, List.getElem?_eq_getElem (by omega)⟩
    refine hsettled _ p (hrun.stored _ p hp) (.inr ⟨previous, ?_, ?_, ih (by omega) hprevious⟩)
      (hbefore _ hi)
    · rw [← hrun.stored i previous hprevious]
      congr 1
      bv_omega
    · exact hrun.timestamp _ (List.mem_of_getElem? hprevious) _ (List.mem_of_getElem? hp)

theorem IsFrame.run (hframe : IsFrame frame) (hheld : ∀ p ∈ frame, q.held p.seqNum = some p) :
    ∃ start, Run q start frame := by
  obtain ⟨first, rest, rfl⟩ := List.exists_cons_of_ne_nil hframe.nonempty
  have hnumber : ∀ i p, (first :: rest)[i]? = some p →
      p.seqNum = first.seqNum + BitVec.ofNat 16 i := by
    intro i
    induction i with
    | zero =>
      intro p hp
      cases hp
      exact (BitVec.add_zero _).symm
    | succ i ih =>
      intro p hp
      have hlt := (List.getElem?_eq_some_iff.mp hp).1
      obtain ⟨previous, hprevious⟩ : ∃ previous, (first :: rest)[i]? = some previous :=
        ⟨_, List.getElem?_eq_getElem (by omega)⟩
      rw [hframe.consecutive i previous p hprevious hp, ih previous hprevious]
      bv_omega
  refine ⟨first.seqNum, fun i p hp => ?_, hframe.first, hframe.timestamp⟩
  rw [← hnumber i p hp]
  exact hheld p (List.mem_of_getElem? hp)

theorem Lawful.insertPacket_frame (h : Lawful q) (search : Search (BitVec 16))
    (hnear : Near q packet.seqNum) (hcodec : packet.codec ≠ .h264) (happart : Apart q)
    (hsettled : Settled q) (hpacket : packet.seqNum ∉ q.receivedPadding)
    (hplace : q.place packet = .stored q') (hframe : IsFrame frame)
    (hheld : ∀ p ∈ frame, q'.held p.seqNum = some p) :
    ∃ q₂ packets, q.insertPacket search packet =
      some (q₂, ⟨frame.map (·.setContinuous true) ++ packets, false⟩) := by
  obtain ⟨q₁, hplace', hstored⟩ : ∃ q₁, q.place packet = .stored q₁ ∧ StoredIn q q₁ packet := by
    rcases h.place hnear hcodec with ⟨_, heq, -⟩ | ⟨_, heq, -⟩ | hstored
    · rw [hplace] at heq
      cases heq
    · rw [hplace] at heq
      cases heq
    · exact hstored
  obtain rfl : q' = q₁ := Placed.stored.inj (hplace.symm.trans hplace')
  have hlawful := hstored.lawful.prepared search packet.seqNum
  have hsearch := hstored.searching search happart hsettled hpacket
  have hsame : ∀ k, (q'.prepared search packet.seqNum).held k = q'.held k := by
    obtain ⟨newest, missing, n, heq⟩ := prepared_eq search q' packet.seqNum
    rw [heq]
    exact fun _ => rfl
  obtain ⟨start, hrun⟩ := hframe.run (q := q'.prepared search packet.seqNum)
    fun p hp => (hsame _).trans (hheld p hp)
  have hshort := hrun.length_le fun k p hk => (hlawful.window k p hk).2
  -- the frame has the number of the packet, as it would be continuous to its end otherwise
  obtain ⟨m, hm, hat⟩ : ∃ m < frame.length, start + BitVec.ofNat 16 m = packet.seqNum := by
    by_contra hnone
    have hpos := List.length_pos_iff.mpr hframe.nonempty
    obtain ⟨last, hend⟩ : ∃ last, frame[frame.length - 1]? = some last :=
      ⟨_, List.getElem?_eq_getElem (by omega)⟩
    have hcontinuous := hrun.continuous_of_settledBut hsearch.settled
      (fun i hi heq => hnone ⟨i, hi, heq⟩) (Nat.sub_lt hpos Nat.one_pos) hend
    have hlast := (hframe.last _ _ hend).mpr (Nat.sub_add_cancel hpos)
    have := (hlawful.chain _ _ (hrun.stored _ _ hend) hcontinuous).1
    exact Bool.false_ne_true (this.symm.trans hlast)
  have hsplit := List.take_append_drop m frame
  have hlength := List.length_take_of_le hm.le
  have hback : frame.drop m ≠ [] := by
    rw [ne_eq, List.drop_eq_nil_iff]
    omega
  have hfront : ∀ p ∈ frame.take m, p.continuous = true := by
    intro p hp
    obtain ⟨i, hi⟩ := List.mem_iff_getElem?.mp hp
    have hlt := (List.getElem?_eq_some_iff.mp hi).1
    rw [hlength] at hlt
    rw [List.getElem?_take_of_lt hlt] at hi
    refine hrun.continuous_of_settledBut hsearch.settled (fun j hj heq => ?_) hlt hi
    bv_omega
  have hpadding : ∀ p ∈ frame.drop m, p.seqNum ∉ (q'.prepared search packet.seqNum).receivedPadding :=
    fun p hp => hsearch.apart _ p ((hsame _).trans (hheld p (List.mem_of_mem_drop hp)))
  have hrounds : (frame.drop m).length ≤ (q'.prepared search packet.seqNum).buffer.length := by
    have hfits := hrun.length_le_size hlawful.sized hshort
    rw [List.length_drop]
    omega
  obtain ⟨q₂, packets, hfind⟩ := hlawful.findFramesFrom_frame search packet.seqNum hback
    (hsplit.symm ▸ hrun) hfront (hsplit.symm ▸ hframe.last) hpadding hrounds
  rw [hlength, hat, hsplit] at hfind
  exact ⟨q₂, packets, insertPacket_stored hplace hfind⟩

theorem Lawful.findFramesFrom_settled (h : Lawful q) (hsettled : Settled q)
    (search : Search (BitVec 16)) (begin : BitVec 16) (rounds : Nat) (s : BitVec 16) :
    findFramesFrom search begin rounds s q = some (q, []) := by
  induction rounds generalizing s with
  | zero => rfl
  | succ rounds ih =>
    by_cases hpad : (find search q.receivedPadding s).isSome = true
    · rw [findFramesFrom_padding hpad, ih]
    · cases hpotential : q.potentialNewFrame s with
      | false => exact findFramesFrom_stop hpad hpotential
      | true =>
        obtain ⟨packet, hs, hready⟩ := (potentialNewFrame_iff h.sized).mp hpotential
        have hcontinuous := hsettled s packet hs hready id
        have hlast := (h.chain s packet hs hcontinuous).1
        have hmark : q.mark s packet = q := by
          have hentry := Option.join_eq_some_iff.mp (held_eq_some.mp hs).1
          obtain ⟨hlt, hat⟩ := List.getElem?_eq_some_iff.mp hentry
          rw [PacketBuffer.mark, setContinuous_eq hcontinuous, setEntry, ← hat, List.set_getElem_self]
        rw [findFramesFrom_mark hpad hpotential hs hlast, hmark, ih]

theorem mem_insertKey {keys : List (BitVec 16)} {key : BitVec 16}
    (h : k ∈ insertKey search keys key) : k = key ∨ k ∈ keys := by
  have hinsert : ∀ i, k ∈ keys.insertIdx i key → k = key ∨ k ∈ keys := by
    intro i hk
    rcases Nat.lt_or_ge keys.length i with hlt | hle
    · rw [insertIdx_of_length_lt hlt] at hk
      exact .inr hk
    · exact (mem_insertIdx hle).mp hk
  unfold insertKey at h
  dsimp only at h
  split at h
  · exact hinsert _ h
  · split_ifs at h
    · exact hinsert _ h
    · exact .inr h

theorem Lawful.insertPadding (h : Lawful q) (search : Search (BitVec 16)) (s : BitVec 16) :
    ∃ q' result, q.insertPadding search s = some (q', result) ∧ Effect q q' 0 result.packets ∧
      (Apart q → Settled q → q.held s = none → Apart q' ∧ Settled q') := by
  obtain ⟨newest, missing, heq⟩ := updateMissingPackets_eq search q s
  let q₁ : PacketBuffer β :=
    { q with
      newestInsertedSeqNum := newest
      missingPackets := missing
      receivedPadding := insertKey search q.receivedPadding s }
  have hlawful : Lawful q₁ := { h with sized := { h.sized with } }
  obtain ⟨q', packets, hfind, hfound, -⟩ := hlawful.findFramesFrom_spec search (s + 1) q₁.buffer.length
    (s + 1)
  refine ⟨q', ⟨packets, false⟩, ?_, ⟨hfound.lawful, hfound.frames, ?_⟩, fun happart hsettled hs => ?_⟩
  · unfold PacketBuffer.insertPadding
    rw [heq]
    have hframes : q₁.findFrames search (s + 1) = some (q', packets) := hfind
    dsimp only
    rw [hframes]
  · rw [← hfound.stock, add_zero]
    exact le_refl (PacketBuffer.stock q)
  · have hsettled₁ : Settled q₁ := hsettled
    rw [hlawful.findFramesFrom_settled hsettled₁] at hfind
    cases hfind
    refine ⟨fun k p hk hpad => ?_, hsettled₁⟩
    rcases mem_insertKey hpad with rfl | hold
    · cases hs.symm.trans hk
    · exact happart k p hk hold

structure Cleared (q q' : PacketBuffer β) (s : BitVec 16) (n : Nat) : Prop where
  length : q'.buffer.length = q.buffer.length
  maxSize : q'.maxSize = q.maxSize
  received : q'.firstPacketReceived = q.firstPacketReceived
  stock : PacketBuffer.stock q' ≤ PacketBuffer.stock q
  old : ∀ i p, q'.entry i = some p → q.entry i = some p ∧
    ∀ j < n, i = q.index (q.firstSeqNum + BitVec.ofNat 16 j) → aheadOf s p.seqNum = false
  kept : ∀ i p, q.entry i = some p →
    (∀ j < n, i = q.index (q.firstSeqNum + BitVec.ofNat 16 j) → aheadOf s p.seqNum = false) →
    q'.entry i = some p

theorem kept_clearSlot (s : BitVec 16) (q : PacketBuffer β) : Kept q (q.clearSlot s) := by
  unfold clearSlot
  split
  · exact Kept.refl q
  · split_ifs
    · exact kept_setEntry q _ none
    · exact Kept.refl q

theorem entry_clearSlot (hsized : Sized q) (i : Nat) (p : Packet β) :
    (q.clearSlot s).entry i = some p ↔
      q.entry i = some p ∧ (i = q.index q.firstSeqNum → aheadOf s p.seqNum = false) := by
  unfold clearSlot
  cases hentry : q.entry (q.index q.firstSeqNum) with
  | none =>
    refine ⟨fun hp => ⟨hp, ?_⟩, fun hp => hp.1⟩
    rintro rfl
    rw [hentry] at hp
    cases hp
  | some packet =>
    dsimp only
    split_ifs with hahead
    · rw [entry_setEntry (hsized.index_lt _)]
      split_ifs with hi
      · refine ⟨nofun, fun hp => ?_⟩
        rw [hi, hentry] at hp
        cases hp.1
        exact absurd (hp.2 rfl) (ne_false_of_eq_true hahead)
      · exact ⟨fun hp => ⟨hp, fun heq => absurd heq hi⟩, fun hp => hp.1⟩
    · refine ⟨fun hp => ⟨hp, ?_⟩, fun hp => hp.1⟩
      rintro rfl
      rw [hentry] at hp
      cases hp
      exact eq_false_of_ne_true hahead

theorem stock_clearSlot_le (s : BitVec 16) (q : PacketBuffer β) : stock (q.clearSlot s) ≤ stock q := by
  unfold clearSlot
  split
  · exact le_refl _
  · split_ifs
    · exact (stockOf_set_le _ _ _).trans (add_zero _).le
    · exact le_refl _

theorem cleared_clearSlots (s : BitVec 16) (n : Nat) (hsized : Sized q) :
    Cleared q (clearSlots s n q) s n := by
  induction n generalizing q with
  | zero =>
    exact ⟨rfl, rfl, rfl, le_refl _, fun i p hp => ⟨hp, fun j hj => absurd hj (Nat.not_lt_zero j)⟩,
      fun i p hp _ => hp⟩
  | succ n ih =>
    have hkept := kept_clearSlot s q
    let q₁ : PacketBuffer β := { q.clearSlot s with firstSeqNum := q.firstSeqNum + 1 }
    have hsized₁ : Sized q₁ := { hkept.sized hsized with }
    have hrest := ih hsized₁
    have hindex : ∀ k, q₁.index k = q.index k := fun k => congrArg (k.toNat % ·) hkept.length
    have hnext : ∀ j : Nat, q₁.firstSeqNum + BitVec.ofNat 16 j =
        q.firstSeqNum + BitVec.ofNat 16 (j + 1) := by
      intro j
      change q.firstSeqNum + 1 + BitVec.ofNat 16 j = _
      bv_omega
    refine ⟨hrest.length.trans hkept.length, hrest.maxSize.trans hkept.maxSize,
      hrest.received.trans hkept.received, hrest.stock.trans (stock_clearSlot_le s q), ?_, ?_⟩
    · intro i p hp
      obtain ⟨hp₁, hlater⟩ := hrest.old i p hp
      obtain ⟨hp₀, hfirst⟩ := (entry_clearSlot hsized i p).mp hp₁
      refine ⟨hp₀, fun j hj hi => ?_⟩
      cases j with
      | zero =>
        rw [BitVec.add_zero] at hi
        exact hfirst hi
      | succ j => exact hlater j (by omega) (by rw [hindex, hnext]; exact hi)
    · intro i p hp hall
      refine hrest.kept i p ((entry_clearSlot hsized i p).mpr ⟨hp, fun hi => ?_⟩) fun j hj hi => ?_
      · refine hall 0 (Nat.succ_pos n) ?_
        rw [BitVec.add_zero]
        exact hi
      · rw [hindex, hnext] at hi
        exact hall (j + 1) (by omega) hi

theorem Lawful.visited (h : Lawful q) (hahead : aheadOf q.firstSeqNum s = false)
    (hk : q.held k = some packet) (hbefore : aheadOf (s + 1) k = true) :
    ∃ j < min (forwardDiff q.firstSeqNum (s + 1)).toNat q.buffer.length,
      q.index k = q.index (q.firstSeqNum + BitVec.ofNat 16 j) := by
  have hwindow := (h.window k packet hk).2
  rw [← Bool.not_eq_true, aheadOf_iff_sub] at hahead
  rw [aheadOf_iff_sub] at hbefore
  have hlt : (k - q.firstSeqNum).toNat < (forwardDiff q.firstSeqNum (s + 1)).toNat := by
    rw [forwardDiff]
    bv_omega
  have hnumber : k = q.firstSeqNum + BitVec.ofNat 16 (k - q.firstSeqNum).toNat := by
    bv_omega
  have hpos := h.sized.pos
  refine ⟨(k - q.firstSeqNum).toNat % q.buffer.length, ?_, ?_⟩
  · exact lt_min ((Nat.mod_le _ _).trans_lt hlt) (Nat.mod_lt _ hpos)
  · rw [h.sized.index_add, Nat.add_mod_mod, ← h.sized.index_add, ← hnumber]

theorem Lawful.clearTo (h : Lawful q) (search : Search (BitVec 16))
    (hend : ∀ p, q.held s = some p → p.isLastPacketInFrame = true) : Shrunk q (q.clearTo search s) := by
  rw [PacketBuffer.clearTo]
  split_ifs with hahead hreceived
  · exact Shrunk.refl h
  · exact Shrunk.refl h
  have hcleared := cleared_clearSlots (s + 1)
    (min (forwardDiff q.firstSeqNum (s + 1)).toNat q.buffer.length) h.sized
  have hvisited : ∀ k p, q.held k = some p → aheadOf (s + 1) k = true →
      ∃ j < min (forwardDiff q.firstSeqNum (s + 1)).toNat q.buffer.length,
        q.index k = q.index (q.firstSeqNum + BitVec.ofNat 16 j) :=
    fun k p hk hbefore => h.visited (eq_false_of_ne_true hahead) hk hbefore
  dsimp only
  generalize min (forwardDiff q.firstSeqNum (s + 1)).toNat q.buffer.length = n at hcleared hvisited ⊢
  generalize clearSlots (s + 1) n q = q₁ at hcleared ⊢
  have hindex : ∀ k, q₁.index k = q.index k := fun k => congrArg (k.toNat % ·) hcleared.length
  have hheld : ∀ k p, q₁.held k = some p ↔ q.held k = some p ∧ aheadOf (s + 1) k = false := by
    intro k p
    rw [held_eq_some, held_eq_some, hindex]
    constructor
    · rintro ⟨hentry, rfl⟩
      obtain ⟨hentry', hnot⟩ := hcleared.old _ p hentry
      refine ⟨⟨hentry', rfl⟩, eq_false_of_ne_true fun hbefore => ?_⟩
      obtain ⟨j, hj, hslot⟩ := hvisited _ p (held_eq_some.mpr ⟨hentry', rfl⟩) hbefore
      exact absurd (hnot j hj hslot) (ne_false_of_eq_true hbefore)
    · rintro ⟨⟨hentry, rfl⟩, hnot⟩
      exact ⟨hcleared.kept _ p hentry fun _ _ _ => hnot, rfl⟩
  refine ⟨⟨⟨?_, ?_, ?_⟩, ?_, ?_, ?_, ?_⟩, fun k p hk => ((hheld k p).mp hk).1, hcleared.stock,
    fun k hk => mem_of_mem_drop hk, fun hsettled k p hk hready => ?_⟩
  · exact hcleared.length ▸ h.sized.size
  · exact hcleared.maxSize ▸ h.sized.limit
  · rw [hcleared.length, hcleared.maxSize]
    exact h.sized.le
  · intro i p hp
    exact (hindex _).trans (h.inPlace i p (hcleared.old i p hp).1)
  · exact fun k p hk => h.codec k p ((hheld k p).mp hk).1
  · intro k p hk hcontinuous
    obtain ⟨hk, hnot⟩ := (hheld k p).mp hk
    obtain ⟨hlast, hready⟩ := h.chain k p hk hcontinuous
    refine ⟨hlast, ?_⟩
    rcases hready with hfirst | ⟨previous, hprevious, hts, hcontinuous'⟩
    · exact .inl hfirst
    · refine .inr ⟨previous, (hheld _ _).mpr ⟨hprevious, eq_false_of_ne_true fun hbefore => ?_⟩, hts,
        hcontinuous'⟩
      -- the cut is in front of the packet: the packet before it ends a frame and is not continuous
      have hcut : k - 1 = s := by
        rw [aheadOf_iff_sub] at hbefore
        rw [← Bool.not_eq_true, aheadOf_iff_sub] at hnot
        bv_omega
      have hnot' := (h.chain _ _ hprevious hcontinuous').1
      exact Bool.false_ne_true (hnot'.symm.trans (hend previous (hcut ▸ hprevious)))
  · intro k p hk
    obtain ⟨hk, hnot⟩ := (hheld k p).mp hk
    rw [← Bool.not_eq_true, aheadOf_iff_sub] at hnot
    refine ⟨hcleared.received.trans (h.window k p hk).1, ?_⟩
    bv_omega
  · exact hsettled k p ((hheld k p).mp hk).1 (hready.mono fun p' hp' => ((hheld _ p').mp hp').1)

variable (q)

/-- Packets that are not H.264, in a window of half a turn with the numbers in use, and clearing at
the end of a frame. -/
def Fits (c : Call β) : Prop :=
  match c.op with
  | .insertPacket packet => packet.codec ≠ .h264 ∧ Near q packet.seqNum
  | .clearTo s => ∀ p ∈ q.held s, p.isLastPacketInFrame = true
  | _ => True

/-- No number is given to the buffer as a packet and as a padding at one time. -/
def Separate (c : Call β) : Prop :=
  match c.op with
  | .insertPacket packet => packet.seqNum ∉ q.receivedPadding
  | .insertPadding s => q.held s = none
  | _ => True

def next (c : Call β) : PacketBuffer β :=
  match q.perform c with
  | none => q
  | some (q, _) => q

variable {q}

/-- A property of every call of a run and the buffer before it. -/
def Along (P : PacketBuffer β → Call β → Prop) : PacketBuffer β → List (Call β) → Prop
  | _, [] => True
  | q, c :: calls => P q c ∧ Along P (q.next c) calls

def inserted (calls : List (Call β)) : List (Packet β) :=
  calls.filterMap fun c =>
    match c.op with
    | .insertPacket packet => some packet
    | _ => none

theorem Lawful.perform (h : Lawful q) {c : Call β} (hfits : Fits q c) :
    ∃ q' result, q.perform c = some (q', result) ∧
      Effect q q' ((inserted [c]).map origin : List _) result.packets ∧
      (Apart q → Settled q → Separate q c → Apart q' ∧ Settled q') := by
  obtain ⟨search, op⟩ := c
  have hshrunk : ∀ {q'}, Shrunk q q' → ∃ q'' result, some (q', (⟨[], false⟩ : InsertResult β)) =
      some (q'', result) ∧ Effect q q'' (0 : Multiset (Int × BitVec 32 × Bool × Bool × β)) result.packets ∧
      (Apart q → Settled q → True → Apart q'' ∧ Settled q'') := fun hshrunk =>
    ⟨_, _, rfl, hshrunk.effect 0, fun happart hsettled _ =>
      ⟨hshrunk.apart happart, hshrunk.settled hsettled⟩⟩
  cases op with
  | insertPacket packet => exact h.insertPacket search hfits.2 hfits.1
  | insertPadding s => exact h.insertPadding search s
  | clearTo s => exact hshrunk (h.clearTo search hfits)
  | clear => exact hshrunk (shrunk_clearInternal h.sized)
  | forceSpsPpsIdrIsH264Keyframe =>
    exact hshrunk { Shrunk.refl h with lawful := { h with sized := { h.sized with } } }
  | resetSpsPpsIdrIsH264Keyframe =>
    exact hshrunk { Shrunk.refl h with lawful := { h with sized := { h.sized with } } }

structure RunEffect (q : PacketBuffer β) (calls : List (Call β)) (q' : PacketBuffer β)
    (results : List (InsertResult β)) : Prop where
  lawful : Lawful q'
  frames : ∀ result ∈ results, ∃ frames : List (List (Packet β)), result.packets = frames.flatten ∧
    ∀ frame ∈ frames, IsFrame frame
  stock : PacketBuffer.stock q' + ((results.flatMap InsertResult.packets).map origin : List _) ≤
    PacketBuffer.stock q + ((inserted calls).map origin : List _)

theorem inserted_cons (c : Call β) (calls : List (Call β)) :
    inserted (c :: calls) = inserted [c] ++ inserted calls := by
  rw [inserted, inserted, inserted, ← filterMap_append, singleton_append]

theorem Lawful.run (h : Lawful q) (hfits : Along Fits q calls) :
    ∃ q' results, q.run calls = some (q', results) ∧ RunEffect q calls q' results ∧
      (Apart q → Settled q → Along Separate q calls → Apart q' ∧ Settled q') := by
  induction calls generalizing q with
  | nil =>
    exact ⟨q, [], rfl, ⟨h, nofun, le_refl _⟩, fun happart hsettled _ =>
      ⟨happart, hsettled⟩⟩
  | cons c calls ih =>
    obtain ⟨q₁, result, hperform, heffect, htidy⟩ := h.perform hfits.1
    have hnext : q.next c = q₁ := by rw [next, hperform]
    obtain ⟨q₂, results, hrun, hrest, htidy'⟩ := ih heffect.lawful (hnext ▸ hfits.2)
    refine ⟨q₂, result :: results, ?_, ⟨hrest.lawful, ?_, ?_⟩, fun happart hsettled hseparate => ?_⟩
    · rw [run, hperform]
      dsimp only
      rw [hrun]
    · exact forall_mem_cons.mpr ⟨heffect.frames, hrest.frames⟩
    · rw [flatMap_cons, map_append, ← Multiset.coe_add, inserted_cons, map_append,
        ← Multiset.coe_add, ← add_assoc, ← add_assoc, add_right_comm]
      refine (Multiset.add_le_add_right hrest.stock).trans ?_
      rw [add_right_comm]
      exact Multiset.add_le_add_right heffect.stock
    · obtain ⟨happart₁, hsettled₁⟩ := htidy happart hsettled hseparate.1
      exact htidy' happart₁ hsettled₁ (hnext ▸ hseparate.2)

theorem along_append {before after : List (Call β)} :
    Along P q (before ++ after) ↔ Along P q before ∧ Along P (before.foldl next q) after := by
  induction before generalizing q with
  | nil => exact ⟨fun h => ⟨trivial, h⟩, fun h => h.2⟩
  | cons c before ih =>
    rw [cons_append, Along, ih, Along, and_assoc]
    rfl

theorem foldl_next_of_run {results : List (InsertResult β)}
    (hrun : q.run calls = some (q', results)) : calls.foldl next q = q' := by
  induction calls generalizing q results with
  | nil =>
    cases hrun
    rfl
  | cons c calls ih =>
    rw [run] at hrun
    split at hrun
    · cases hrun
    · rename_i q₁ result hperform
      split at hrun
      · cases hrun
      · rename_i q₂ results₂ hrest
        cases hrun
        rw [foldl_cons, next, hperform]
        exact ih hrest

theorem entry_initial (startBufferSize maxBufferSize i : Nat) :
    (initial startBufferSize maxBufferSize : PacketBuffer β).entry i = none := by
  rw [entry, initial, getElem?_replicate]
  split_ifs
  · rfl
  · rfl

theorem lawful_initial {startBufferSize maxBufferSize : Nat} (hstart : startBufferSize.isPowerOfTwo)
    (hmax : maxBufferSize.isPowerOfTwo) (hle : startBufferSize ≤ maxBufferSize)
    (hsize : startBufferSize ≤ 2 ^ 16) :
    Lawful (initial startBufferSize maxBufferSize : PacketBuffer β) := by
  obtain ⟨e, rfl⟩ := hstart
  have hlength : (initial (2 ^ e) maxBufferSize : PacketBuffer β).buffer.length = 2 ^ e :=
    length_replicate
  have hsized : Sized (initial (2 ^ e) maxBufferSize : PacketBuffer β) :=
    ⟨⟨e, (Nat.pow_le_pow_iff_right (by decide)).mp hsize, hlength⟩, hmax, hlength.trans_le hle⟩
  exact lawful_of_empty hsized (entry_initial _ _)

def bare (sequenceNumber : Int) (timestamp : BitVec 32) (first last : Bool) : Packet Unit :=
  ⟨false, sequenceNumber, timestamp, ⟨.vp8, first, last, false, none, .emptyFrame, 0, 0⟩, ()⟩

/-- A frame of three packets in the wrong order around the end of the numbers, and a call to clear
it. -/
def reorderedCalls : List (Call Unit) :=
  [⟨.leftmost, .insertPacket (bare 65536 7 false false)⟩,
    ⟨.leftmost, .insertPacket (bare 65535 7 true false)⟩,
    ⟨.leftmost, .insertPacket (bare 65535 7 true false)⟩,
    ⟨.leftmost, .insertPacket (bare 65537 7 false true)⟩, ⟨.leftmost, .clearTo 1⟩]

def FitsFrom (base : BitVec 16) (q : PacketBuffer β) (c : Call β) : Prop :=
  match c.op with
  | .insertPacket packet => packet.codec ≠ .h264 ∧ ∀ x ∈ q.live packet.seqNum, (x - base).toNat < 2 ^ 15
  | .clearTo s => ∀ p ∈ q.held s, p.isLastPacketInFrame = true
  | _ => True

instance (base : BitVec 16) (q : PacketBuffer β) (c : Call β) : Decidable (FitsFrom base q c) :=
  match c with
  | ⟨_, .insertPacket packet⟩ => @instDecidableAnd _ _
      (inferInstanceAs (Decidable (packet.codec ≠ .h264)))
      (List.decidableBAll (fun x => (x - base).toNat < 2 ^ 15) (q.live packet.seqNum))
  | ⟨_, .clearTo s⟩ => inferInstanceAs (Decidable (∀ p ∈ q.held s, p.isLastPacketInFrame = true))
  | ⟨_, .insertPadding _⟩ => .isTrue trivial
  | ⟨_, .clear⟩ => .isTrue trivial
  | ⟨_, .forceSpsPpsIdrIsH264Keyframe⟩ => .isTrue trivial
  | ⟨_, .resetSpsPpsIdrIsH264Keyframe⟩ => .isTrue trivial

instance decidableAlong (P : PacketBuffer β → Call β → Prop) [∀ q c, Decidable (P q c)] :
    ∀ (q : PacketBuffer β) (calls : List (Call β)), Decidable (Along P q calls)
  | _, [] => .isTrue trivial
  | q, c :: calls => @instDecidableAnd (P q c) (Along P (q.next c) calls) _
      (decidableAlong P (q.next c) calls)

theorem FitsFrom.fits {base : BitVec 16} {c : Call β} (h : FitsFrom base q c) : Fits q c := by
  obtain ⟨search, op⟩ := c
  cases op with
  | insertPacket packet => exact ⟨h.1, base, h.2⟩
  | clearTo s => exact h
  | insertPadding s => trivial
  | clear => trivial
  | forceSpsPpsIdrIsH264Keyframe => trivial
  | resetSpsPpsIdrIsH264Keyframe => trivial

theorem Along.imp {P' : PacketBuffer β → Call β → Prop} (himp : ∀ {q c}, P q c → P' q c)
    (h : Along P q calls) : Along P' q calls := by
  induction calls generalizing q with
  | nil => trivial
  | cons c calls ih => exact ⟨himp h.1, ih h.2⟩

instance (frame : List (Packet β)) : Decidable (IsFrame frame) :=
  decidable_of_iff
    (frame ≠ [] ∧ (∀ p ∈ frame, ∀ p' ∈ frame, p.timestamp = p'.timestamp) ∧
      ∀ i < frame.length, ∀ p ∈ frame[i]?, (∀ p' ∈ frame[i + 1]?, p'.seqNum = p.seqNum + 1) ∧
        (p.isFirstPacketInFrame = true ↔ i = 0) ∧
        (p.isLastPacketInFrame = true ↔ i + 1 = frame.length))
    ⟨fun h => by
      have hat : ∀ {i p}, frame[i]? = some p → _ := fun {i p} hp =>
        h.2.2 i (List.getElem?_eq_some_iff.mp hp).1 p hp
      exact ⟨h.1, fun i p p' hp => (hat hp).1 p', h.2.1, fun i p hp => (hat hp).2.1,
        fun i p hp => (hat hp).2.2⟩,
    fun h => ⟨h.nonempty, h.timestamp, fun i _ p hp =>
      ⟨fun p' => h.consecutive i p p' hp, h.first i p hp, h.last i p hp⟩⟩⟩

/-- A frame of two packets around the end of the numbers. -/
abbrev wrappedHead := bare 65535 7 true false

abbrev wrappedTail := bare 65536 7 false true

/-- In a buffer with more slots than numbers a frame around the end of the numbers is not found. -/
theorem wrappedFrame_not_returned {size : Nat} (hsize : 65536 < size) :
    ∃ q₂ q₃ q₄ : PacketBuffer Unit,
      (initial size size).insertPacket .leftmost wrappedHead = some (q₂, ⟨[], false⟩) ∧
      q₂.place wrappedTail = .stored q₃ ∧ q₃.held 65535 = some (wrappedHead.setContinuous true) ∧
      q₃.held 0 = some wrappedTail ∧
      q₂.insertPacket .leftmost wrappedTail = some (q₄, ⟨[], false⟩) := by
  obtain ⟨n, rfl⟩ : ∃ n, size = n + 2 := ⟨size - 2, by omega⟩
  let q₀ : PacketBuffer Unit :=
    { initial (n + 2) (n + 2) with firstSeqNum := 65535, firstPacketReceived := true }
  have hlength₀ : q₀.buffer.length = n + 2 := length_replicate
  have hindex : ∀ {q : PacketBuffer Unit}, q.buffer.length = n + 2 → ∀ k, q.index k = k.toNat :=
    fun hlength k => by
      exact Nat.mod_eq_of_lt (k.isLt.trans (by omega))
  have hset : ∀ {q : PacketBuffer Unit}, q.buffer.length = n + 2 → ∀ k a i,
      (q.setEntry (q.index k) a).entry i = if i = k.toNat then a else q.entry i := by
    intro q hlength k a i
    rw [hindex hlength, entry_setEntry (by omega)]
  have hentry₀ : ∀ i, q₀.entry i = none := entry_initial (n + 2) (n + 2)
  have hplace₀ : (initial (n + 2) (n + 2)).place wrappedHead = .stored (q₀.put wrappedHead) := by
    change q₀.store wrappedHead = _
    rw [store, hentry₀]
  let q₁ := (q₀.put wrappedHead).prepared .leftmost 65535
  have hkept₁ : Kept q₀ q₁ := (kept_setEntry q₀ _ _).trans (kept_prepared .leftmost _ _)
  have hlength₁ := hkept₁.length.trans hlength₀
  have hentry₁ : ∀ i, q₁.entry i = if i = 65535 then some wrappedHead else none := by
    intro i
    refine (hset hlength₀ _ _ i).trans ?_
    rw [hentry₀]
    rfl
  have hfree₁ : ∀ k, ¬ (find .leftmost q₁.receivedPadding k).isSome = true := fun k hfind =>
    not_mem_nil (hkept₁.padding k (mem_of_find hfind))
  have hheld₁ : q₁.held 65535 = some wrappedHead := by
    rw [held_eq_some, hindex hlength₁, hentry₁]
    exact ⟨rfl, rfl⟩
  have hpotential₁ : q₁.potentialNewFrame 65535 = true := by
    rw [potentialNewFrame, hindex hlength₁, hentry₁]
    rfl
  let q₂ := q₁.mark 65535 wrappedHead
  have hkept₂ : Kept q₀ q₂ := hkept₁.trans (kept_setEntry q₁ _ _)
  have hlength₂ := hkept₂.length.trans hlength₀
  have hentry₂ : ∀ i, q₂.entry i =
      if i = 65535 then some (wrappedHead.setContinuous true) else none := by
    intro i
    refine (hset hlength₁ _ _ i).trans ?_
    rw [hentry₁]
    exact ite_congr rfl (fun _ => rfl) (fun h => if_neg h)
  have hfree₂ := hfree₁ 0
  have hstop₂ : q₂.potentialNewFrame 0 = false := by
    rw [potentialNewFrame, hentry₂]
    rfl
  have hinsert₁ : (initial (n + 2) (n + 2)).insertPacket .leftmost wrappedHead =
      some (q₂, ⟨[], false⟩) := by
    refine insertPacket_stored hplace₀ ?_
    change findFramesFrom .leftmost 65535 q₁.buffer.length 65535 q₁ = _
    rw [hlength₁, findFramesFrom_mark (hfree₁ _) hpotential₁ hheld₁ rfl]
    exact findFramesFrom_stop hfree₂ hstop₂
  have hplace₂ : q₂.place wrappedTail = .stored (q₂.put wrappedTail) := by
    have haccept : q₂.accept 0 = some q₂ := by
      have hfirst : q₂.firstSeqNum = 65535 := hkept₂.first
      have hreceived : q₂.firstPacketReceived = true := hkept₂.received
      rw [accept, hreceived, hfirst, if_neg (by decide), if_neg (by decide)]
    have hseq : wrappedTail.seqNum = 0 := rfl
    have hfree : q₂.entry (q₂.index wrappedTail.seqNum) = none := by
      rw [hentry₂]
      rfl
    rw [place, hseq, haccept]
    dsimp only
    rw [store, hfree]
  let q₃ := q₂.put wrappedTail
  have hlength₃ : q₃.buffer.length = n + 2 := (kept_setEntry q₂ _ _).length.trans hlength₂
  have hentry₃ : ∀ i, q₃.entry i = if i = 0 then some wrappedTail else q₂.entry i :=
    hset hlength₂ _ _
  let q₄ := q₃.prepared .leftmost 0
  have hlength₄ := (kept_prepared .leftmost q₃ 0).length.trans hlength₃
  have hentry₄ : ∀ i, q₄.entry i = q₃.entry i := fun _ => rfl
  have hstop₄ : q₄.potentialNewFrame 0 = false := by
    have hprevious : q₄.previousIndex 0 = n + 1 := by
      rw [previousIndex, hlength₄]
      rfl
    have hnone : q₄.entry (n + 1) = none := by
      rw [hentry₄, hentry₃, hentry₂, if_neg (by omega), if_neg (by omega)]
    have hhere : q₄.entry 0 = some wrappedTail := by rw [hentry₄, hentry₃, if_pos rfl]
    have hzero : q₄.index 0 = 0 := hindex hlength₄ 0
    rw [potentialNewFrame, hzero, hhere]
    dsimp only
    rw [hprevious, hnone, if_neg (by decide), if_neg (by decide)]
  have hfree₄ : ¬ (find .leftmost q₄.receivedPadding 0).isSome = true := fun hfind =>
    not_mem_nil (hkept₂.padding 0 ((kept_prepared .leftmost q₃ 0).padding 0 (mem_of_find hfind)))
  refine ⟨q₂, q₃, q₄, hinsert₁, hplace₂, ?_, ?_, insertPacket_stored hplace₂ ?_⟩
  · rw [held_eq_some, hindex hlength₃, hentry₃, hentry₂]
    exact ⟨rfl, rfl⟩
  · rw [held_eq_some, hentry₃]
    exact ⟨rfl, rfl⟩
  · change findFramesFrom .leftmost 0 q₄.buffer.length 0 q₄ = _
    rw [hlength₄]
    exact findFramesFrom_stop hfree₄ hstop₄

end PacketBuffer

end Video
