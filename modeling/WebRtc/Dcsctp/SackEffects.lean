import WebRtc.Dcsctp.ChunkValidators
import WebRtc.Dcsctp.OutstandingDataConsistency

/-!
# What a SACK does to each chunk

The chunks that a SACK acknowledges, those that it finds missing and those past all that it
reports, after `OutstandingData::HandleSack`.
-/

namespace Dcsctp

open Window

namespace OutstandingData

def InBlocks (cumulativeTsnAck : Int) (blocks : List GapAckBlock) (tsn : Int) : Prop :=
  ∃ block ∈ blocks, cumulativeTsnAck + block.start.toNat ≤ tsn ∧
    tsn ≤ cumulativeTsnAck + block.last.toNat

/-- A TSN lies past everything that a SACK acknowledges. -/
def PastSack (cumulativeTsnAck : Int) (blocks : List GapAckBlock) (tsn : Int) : Prop :=
  cumulativeTsnAck < tsn ∧ ∀ block ∈ blocks, cumulativeTsnAck + block.last.toNat < tsn

def ackedItem (item : Item) : Item := if item.isAcked then item else item.ack

section Acknowledging

variable {cumulativeTsnAck x : Int}

theorem isAcked_ackedItem (item : Item) : (ackedItem item).isAcked = true := by
  unfold ackedItem
  split_ifs with h
  · exact h
  · exact isAcked_ack item

theorem get?_ackChunk {d : OutstandingData} {tsn : Int} {item : Item} (info : AckInfo)
    (held : d.outstandingData.get? tsn = some item) (x : Int) :
    (d.ackChunk info tsn item).2.outstandingData.get? x =
      if x = tsn then (d.outstandingData.get? x).map ackedItem else d.outstandingData.get? x := by
  rw [outstandingData_ackChunk]
  split_ifs with hacked hx hx
  · rw [hx, held, Option.map_some, ackedItem, if_pos hacked]
  · rfl
  · rw [get?_modify, if_pos hx, hx, held, Option.map_some, Option.map_some, ackedItem,
      if_neg hacked]
  · rw [get?_modify, if_neg hx]

theorem le_highestTsnAcked_ackChunk (d : OutstandingData) (info : AckInfo) (tsn : Int)
    (item : Item) : x ≤ (d.ackChunk info tsn item).1.highestTsnAcked ↔
      x ≤ info.highestTsnAcked ∨ item.isAcked = false ∧ x ≤ tsn := by
  unfold ackChunk
  by_cases hacked : item.isAcked = true <;> simp [hacked]

theorem get?_ackRange : ∀ (n : Nat) (tsn : Int) (s : AckInfo × OutstandingData) (x : Int),
      (ackRange n tsn s).2.outstandingData.get? x =
        if tsn ≤ x ∧ x < tsn + n then (s.2.outstandingData.get? x).map ackedItem
        else s.2.outstandingData.get? x := by
  intro n
  induction n with
  | zero =>
    intro tsn s x
    rw [if_neg (by omega)]
    rfl
  | succ n ih =>
    intro tsn s x
    rw [ackRange]
    split
    · case h_1 item held =>
      rw [ih, get?_ackChunk s.1 held x]
      by_cases hx : x = tsn
      · rw [if_pos hx, if_neg (by omega), if_pos (by omega)]
      · rw [if_neg hx]
        congr 1
        exact propext ⟨fun h => by omega, fun h => by omega⟩
    · case h_2 missing =>
      rw [ih]
      by_cases hx : x = tsn
      · rw [hx, if_neg (by omega), if_pos (by omega), missing]
        rfl
      · congr 1
        exact propext ⟨fun h => by omega, fun h => by omega⟩

theorem get?_ackGapBlocks (cumulativeTsnAck : Int) :
    ∀ (blocks : List GapAckBlock) (s : AckInfo × OutstandingData) (x : Int),
      (InBlocks cumulativeTsnAck blocks x →
        (ackGapBlocks cumulativeTsnAck blocks s).2.outstandingData.get? x =
          (s.2.outstandingData.get? x).map ackedItem) ∧ (¬ InBlocks cumulativeTsnAck blocks x →
        (ackGapBlocks cumulativeTsnAck blocks s).2.outstandingData.get? x =
          s.2.outstandingData.get? x) := by
  intro blocks
  induction blocks with
  | nil =>
    intro s x
    refine ⟨?_, fun _ => rfl⟩
    rintro ⟨block, hmem, -⟩
    cases hmem
  | cons block rest ih =>
    intro s x
    have hcons : InBlocks cumulativeTsnAck (block :: rest) x ↔
        (cumulativeTsnAck + block.start.toNat ≤ x ∧ x ≤ cumulativeTsnAck + block.last.toNat) ∨
          InBlocks cumulativeTsnAck rest x := by
      simp [InBlocks]
    have hrange : (cumulativeTsnAck + block.start.toNat ≤ x ∧
        x < cumulativeTsnAck + block.start.toNat +
          ((block.last.toNat + 1 - block.start.toNat : Nat) : Int)) ↔
        (cumulativeTsnAck + block.start.toNat ≤ x ∧ x ≤ cumulativeTsnAck + block.last.toNat) := by
      omega
    obtain ⟨hin, hout⟩ := ih (ackRange (block.last.toNat + 1 - block.start.toNat)
      (cumulativeTsnAck + block.start.toNat) s) x
    have hstep := get?_ackRange (block.last.toNat + 1 - block.start.toNat)
      (cumulativeTsnAck + block.start.toNat) s x
    rw [ackGapBlocks, hcons]
    by_cases hrest : InBlocks cumulativeTsnAck rest x
    · refine ⟨fun _ => ?_, fun h => absurd (Or.inr hrest) h⟩
      rw [hin hrest, hstep]
      split_ifs
      · cases s.2.outstandingData.get? x with
        | none => rfl
        | some item => exact congrArg some (if_pos (isAcked_ackedItem item))
      · rfl
    · rw [hout hrest, hstep]
      simp only [hrange, hrest, or_false]
      exact ⟨fun h => if_pos h, fun h => if_neg h⟩

theorem get?_removeAckedLoop (past : cumulativeTsnAck < x) :
    ∀ (n : Nat) (s : AckInfo × OutstandingData),
      (removeAckedLoop cumulativeTsnAck n s).2.outstandingData.get? x =
        s.2.outstandingData.get? x := by
  intro n
  induction n with
  | zero => exact fun _ => rfl
  | succ n ih =>
    intro s
    rw [removeAckedLoop]
    split
    · rfl
    · case h_2 item rest front =>
      split_ifs with hbelow
      · have hne : x ≠ s.2.outstandingData.base + 1 := by
          have hlt : s.2.outstandingData.base < cumulativeTsnAck := hbelow
          omega
        have hpop := @get?_tail _ (s.2.ackChunk s.1 (s.2.lastCumulativeTsnAck + 1)
          item).2.outstandingData x
        rw [base_ackChunk, if_neg hne] at hpop
        rw [ih]
        refine Eq.trans ?_ (hpop.trans ?_)
        · simp only [popFront, base_ackChunk]
        · exact (get?_ackChunk s.1 (get?_first front) x).trans (if_neg hne)
      · rfl

theorem get?_acknowledge (d : OutstandingData) (blocks : List GapAckBlock)
    (past : cumulativeTsnAck < x) :
    (InBlocks cumulativeTsnAck blocks x →
      (d.acknowledge cumulativeTsnAck blocks).2.outstandingData.get? x =
        (d.outstandingData.get? x).map ackedItem) ∧ (¬ InBlocks cumulativeTsnAck blocks x →
      (d.acknowledge cumulativeTsnAck blocks).2.outstandingData.get? x =
        d.outstandingData.get? x) := by
  have hremoved : (d.removeAcked cumulativeTsnAck
      { highestTsnAcked := cumulativeTsnAck }).2.outstandingData.get? x =
        d.outstandingData.get? x :=
    get?_removeAckedLoop past d.outstandingData.items.length (_, d)
  rw [← hremoved]
  exact get?_ackGapBlocks cumulativeTsnAck blocks _ x

theorem le_highestTsnAcked_ackRange : ∀ (n : Nat) (tsn : Int) (s : AckInfo × OutstandingData),
      x ≤ (ackRange n tsn s).1.highestTsnAcked ↔ x ≤ s.1.highestTsnAcked ∨
        ∃ t item, (tsn ≤ t ∧ t < tsn + n) ∧ x ≤ t ∧ s.2.outstandingData.get? t = some item ∧
          item.isAcked = false := by
  intro n
  induction n with
  | zero =>
    intro tsn s
    refine (or_iff_left ?_).symm
    rintro ⟨t, item, hrange, -⟩
    omega
  | succ n ih =>
    intro tsn s
    rw [ackRange]
    split
    · case h_1 found held =>
      rw [ih, le_highestTsnAcked_ackChunk, or_assoc]
      refine or_congr_right ⟨?_, ?_⟩
      · rintro (⟨hunacked, hx⟩ | ⟨t, item, hrange, hx, hget, hunacked⟩)
        · exact ⟨tsn, found, by omega, hx, held, hunacked⟩
        · rw [get?_ackChunk s.1 held, if_neg (by omega)] at hget
          exact ⟨t, item, by omega, hx, hget, hunacked⟩
      · rintro ⟨t, item, hrange, hx, hget, hunacked⟩
        by_cases ht : t = tsn
        · subst ht
          obtain rfl := Option.some.inj (held.symm.trans hget)
          exact .inl ⟨hunacked, hx⟩
        · refine .inr ⟨t, item, by omega, hx, ?_, hunacked⟩
          rwa [get?_ackChunk s.1 held, if_neg ht]
    · case h_2 missing =>
      rw [ih]
      refine or_congr_right ⟨?_, ?_⟩
      · rintro ⟨t, item, hrange, hrest⟩
        exact ⟨t, item, by omega, hrest⟩
      · rintro ⟨t, item, hrange, hx, hget, hunacked⟩
        have ht : t ≠ tsn := by
          rintro rfl
          cases missing.symm.trans hget
        exact ⟨t, item, by omega, hx, hget, hunacked⟩

theorem le_highestTsnAcked_ackGapBlocks :
    ∀ (blocks : List GapAckBlock) (s : AckInfo × OutstandingData),
      x ≤ (ackGapBlocks cumulativeTsnAck blocks s).1.highestTsnAcked ↔ x ≤ s.1.highestTsnAcked ∨
        ∃ t item, InBlocks cumulativeTsnAck blocks t ∧ x ≤ t ∧
          s.2.outstandingData.get? t = some item ∧ item.isAcked = false := by
  intro blocks
  induction blocks with
  | nil =>
    intro s
    refine (or_iff_left ?_).symm
    rintro ⟨t, item, ⟨block, hmem, -⟩, -⟩
    cases hmem
  | cons block rest ih =>
    intro s
    rw [ackGapBlocks, ih, le_highestTsnAcked_ackRange, or_assoc]
    refine or_congr_right ⟨?_, ?_⟩
    · rintro (⟨t, item, hrange, hrest⟩ | ⟨t, item, ⟨other, hmem, hin⟩, hx, hget, hunacked⟩)
      · exact ⟨t, item, ⟨block, List.mem_cons_self, by omega, by omega⟩, hrest⟩
      · rw [get?_ackRange] at hget
        split_ifs at hget
        · obtain ⟨before, -, rfl⟩ := Option.map_eq_some_iff.mp hget
          cases (isAcked_ackedItem before).symm.trans hunacked
        · exact ⟨t, item, ⟨other, List.mem_cons_of_mem _ hmem, hin⟩, hx, hget, hunacked⟩
    · rintro ⟨t, item, ⟨other, hmem, hin⟩, hx, hget, hunacked⟩
      by_cases hrange : cumulativeTsnAck + block.start.toNat ≤ t ∧
          t < cumulativeTsnAck + block.start.toNat +
            ((block.last.toNat + 1 - block.start.toNat : Nat) : Int)
      · exact .inl ⟨t, item, hrange, hx, hget, hunacked⟩
      · refine .inr ⟨t, item, ⟨other, ?_, hin⟩, hx, ?_, hunacked⟩
        · rcases List.mem_cons.mp hmem with rfl | hmem
          · omega
          · exact hmem
        · rwa [get?_ackRange, if_neg hrange]

theorem highestTsnAcked_removeAckedLoop_le :
    ∀ (n : Nat) (s : AckInfo × OutstandingData), s.1.highestTsnAcked ≤ cumulativeTsnAck →
      (removeAckedLoop cumulativeTsnAck n s).1.highestTsnAcked ≤ cumulativeTsnAck := by
  intro n
  induction n with
  | zero => exact fun _ h => h
  | succ n ih =>
    intro s hinfo
    rw [removeAckedLoop]
    split
    · exact hinfo
    · case h_2 item _ _ =>
      split_ifs with hbelow
      · refine ih _ ?_
        rw [highestTsnAcked_noteLifecycle]
        rcases highestTsnAcked_ackChunk s.2 s.1 (s.2.lastCumulativeTsnAck + 1) item with h | h
        · exact h ▸ hinfo
        · rw [h]
          exact max_le hinfo hbelow
      · exact hinfo

/-- Past the cumulative TSN, the highest newly acknowledged one is in a gap ack block. -/
theorem le_highestTsnAcked_acknowledge (d : OutstandingData) (blocks : List GapAckBlock)
    (past : cumulativeTsnAck < x) :
    x ≤ (d.acknowledge cumulativeTsnAck blocks).1.highestTsnAcked ↔
      ∃ t item, InBlocks cumulativeTsnAck blocks t ∧ x ≤ t ∧
        d.outstandingData.get? t = some item ∧ item.isAcked = false := by
  have hremoved : (d.removeAcked cumulativeTsnAck
      { highestTsnAcked := cumulativeTsnAck }).1.highestTsnAcked ≤ cumulativeTsnAck :=
    highestTsnAcked_removeAckedLoop_le _ _ le_rfl
  refine ((le_highestTsnAcked_ackGapBlocks blocks _).trans
    (or_iff_right (hremoved.trans_lt past).not_ge)).trans ?_
  refine exists_congr fun t => exists_congr fun item => and_congr_right fun _ =>
    and_congr_right fun hx => and_congr_left fun _ => Eq.congr_left ?_
  exact get?_removeAckedLoop (past.trans_le hx) d.outstandingData.items.length (_, d)

theorem highestTsnAcked_acknowledge_lt (d : OutstandingData) {blocks : List GapAckBlock}
    (past : PastSack cumulativeTsnAck blocks x) :
    (d.acknowledge cumulativeTsnAck blocks).1.highestTsnAcked < x := by
  refine not_le.mp fun hle => ?_
  obtain ⟨t, -, ⟨block, hmem, -, hlast⟩, hx, -⟩ :=
    (le_highestTsnAcked_acknowledge d blocks past.1).mp hle
  have := past.2 block hmem
  omega

end Acknowledging

section Nacking

variable {σ : Type} (discard : σ → StreamID → OutgoingMessageId → Bool × σ) {item : Item}

/-- An item that was not nacked: it may have been abandoned with the others of its message. -/
structure Spared (a b : Item) : Prop where
  ackState : b.ackState = a.ackState
  isAbandoned : a.isAbandoned = true → b.isAbandoned = true

theorem Spared.refl (a : Item) : Spared a a := ⟨rfl, id⟩

/-- An item that was not nacked is what it was, or abandoned with the others of its message. -/
def Untouched (a b : Item) : Prop := b = a ∨ b = a.abandon

theorem Untouched.refl (a : Item) : Untouched a a := Or.inl rfl

theorem Untouched.trans {a b c : Item} (hab : Untouched a b) (hbc : Untouched b c) :
    Untouched a c := by
  rcases hab with rfl | rfl
  · exact hbc
  · rcases hbc with rfl | rfl
    · exact Or.inr rfl
    · exact Or.inr rfl

theorem Untouched.spared {a b : Item} (h : Untouched a b) : Spared a b := by
  rcases h with rfl | rfl
  · exact Spared.refl _
  · exact ⟨rfl, fun _ => rfl⟩

theorem untouched_abandonAllFor (other : Item) (s : OutstandingData × σ) {x : Int}
    (held : s.1.outstandingData.get? x = some item) :
    ∃ item', (abandonAllFor discard other s).1.outstandingData.get? x = some item' ∧
      Untouched item item' := by
  refine abandonAllFor_preserves discard (motive := fun d => ∃ item',
    d.outstandingData.get? x = some item' ∧ Untouched item item') ?_ ?_
    ⟨item, held, Untouched.refl item⟩
  · rintro ⟨item', held', huntouched⟩
    have hne : x ≠ s.1.outstandingData.highest + 1 := by
      have := (bounds_of_get? held).2
      omega
    refine ⟨item', ?_, huntouched⟩
    rw [outstandingData_pushItem, get?_push, if_neg hne, held']
  · rintro d tsn found - - ⟨item', held', huntouched⟩
    rw [outstandingData_abandonItem, get?_modify, held']
    split_ifs
    · exact ⟨item'.abandon, rfl, huntouched.trans (Or.inr rfl)⟩
    · exact ⟨item', rfl, huntouched⟩

theorem untouched_nackItem {tsn x : Int} (hne : x ≠ tsn) (retransmitNow doFast : Bool)
    (s : OutstandingData × σ) (held : s.1.outstandingData.get? x = some item) :
    ∃ item', (nackItem discard tsn retransmitNow doFast s).2.1.outstandingData.get? x =
      some item' ∧ Untouched item item' := by
  have hmodified : ∀ f : Item → Item, (s.1.outstandingData.modify tsn f).get? x = some item := by
    intro f
    rw [get?_modify, if_neg hne]
    exact held
  unfold nackItem
  split
  · exact ⟨item, held, Untouched.refl item⟩
  · case h_2 other _ =>
    split
    · refine ⟨item, ?_, Untouched.refl item⟩
      simp only [outstandingData_modifyItem, outstandingData_takeOutOfFlight, hmodified]
    · refine ⟨item, ?_, Untouched.refl item⟩
      simp [outstandingData_insertInto, outstandingData_modifyItem, outstandingData_takeOutOfFlight,
        hmodified]
    · refine untouched_abandonAllFor discard _ (_, s.2) ?_
      simp only [outstandingData_modifyItem, outstandingData_takeOutOfFlight, hmodified]

theorem nackBetweenLoop_preserves {motive : OutstandingData × σ → Prop} {doFast : Bool}
    {cumulativeTsnAck maxTsnToNack : Int} :
    ∀ (blocks : List GapAckBlock) (prev : Int) (loss : Bool) (s : OutstandingData × σ),
      ChunkValidators.Ordered blocks →
      (∀ block ∈ blocks, prev ≤ cumulativeTsnAck + block.last.toNat) →
      (∀ t s, prev < t → t ≤ maxTsnToNack → ¬ InBlocks cumulativeTsnAck blocks t → motive s →
        motive (nackItem discard t false doFast s).2) → motive s →
      motive (nackBetweenLoop discard cumulativeTsnAck maxTsnToNack doFast blocks prev
        (loss, s)).2 := by
  intro blocks
  induction blocks with
  | nil => exact fun _ _ _ _ _ _ h => h
  | cons block rest ih =>
    rintro prev loss s ⟨hends, hlater, hordered⟩ hprev step hs
    refine ih _ _ _ hordered ?_ ?_ ?_
    · intro other hmem
      have hbefore := hlater other hmem
      have hother := ChunkValidators.Ordered.start_le_last hordered other hmem
      omega
    · intro t s' hlower hupper hbetween hs'
      refine step t s' ((hprev block List.mem_cons_self).trans_lt hlower) hupper ?_ hs'
      rintro ⟨other, hmem, hstart, hlast⟩
      rcases List.mem_cons.mp hmem with rfl | hmem
      · omega
      · exact hbetween ⟨other, hmem, hstart, hlast⟩
    · refine nackRange_preserves discard _ _ _ _ ?_ hs
      intro t s' hlower hupper hs'
      refine step t s' (by omega) (by omega) ?_ hs'
      rintro ⟨other, hmem, hstart, hlast⟩
      rcases List.mem_cons.mp hmem with rfl | hmem
      · omega
      · have hbefore := hlater other hmem
        omega

end Nacking

section HandleSack

variable {σ : Type} (discard : σ → StreamID → OutgoingMessageId → Bool × σ)
  {cumulativeTsnAck : Int} {blocks : List GapAckBlock} {s : OutstandingData × σ}

theorem isOutstanding_handleSack (isInFastRecovery : Bool)
    (lower : s.1.outstandingData.base ≤ cumulativeTsnAck)
    (upper : cumulativeTsnAck ≤ s.1.outstandingData.highest)
    (ordered : ChunkValidators.Ordered blocks) {x : Int} {item : Item}
    (held : s.1.outstandingData.get? x = some item) (inFlight : item.isOutstanding = true)
    (past : PastSack cumulativeTsnAck blocks x) :
    ∃ item', (handleSack discard cumulativeTsnAck blocks isInFastRecovery
      s).2.1.outstandingData.get? x = some item' ∧ item'.isOutstanding = true := by
  have hout : ¬ InBlocks cumulativeTsnAck blocks x := by
    rintro ⟨block, hmem, -, hlast⟩
    have := past.2 block hmem
    omega
  have hacked := (get?_acknowledge s.1 blocks past.1).2 hout
  have hhighest := highestTsnAcked_acknowledge_lt s.1 past
  refine nackBetweenLoop_preserves discard (motive := fun s : OutstandingData × σ =>
    ∃ item', s.1.outstandingData.get? x = some item' ∧ item'.isOutstanding = true) blocks _ _ _
    ordered (fun _ _ => by omega) ?_ ⟨item, hacked.trans held, inFlight⟩
  rintro t s' - hupper - ⟨item', held', hflight⟩
  rw [maxTsnToNack_acknowledge blocks isInFastRecovery lower upper] at hupper
  obtain ⟨item'', held'', huntouched⟩ :=
    untouched_nackItem discard (hupper.trans_lt hhighest).ne' false (!isInFastRecovery) s' held'
  refine ⟨item'', held'', ?_⟩
  rw [Item.isOutstanding, huntouched.spared.ackState]
  exact hflight

/-- Every chunk is acknowledged or abandoned, and abandoned if a SACK misses it. -/
def Settled (cumulativeTsnAck : Int) (blocks : List GapAckBlock) (w : Window Item) : Prop :=
  ∀ x item, w.get? x = some item → (item.isAcked = true ∨ item.isAbandoned = true) ∧
    (¬ InBlocks cumulativeTsnAck blocks x → ¬ PastSack cumulativeTsnAck blocks x →
      item.isAbandoned = true)

/-- Every chunk not abandoned is acknowledged, or this one is, past all that the SACK reports. -/
def Completes (cumulativeTsnAck : Int) (blocks : List GapAckBlock) (w : Window Item) : Prop :=
  ∀ x item, w.get? x = some item →
    item.isAbandoned = true ∨ x ≤ cumulativeTsnAck ∨ InBlocks cumulativeTsnAck blocks x ∨
      (item.isAcked = true ∧ PastSack cumulativeTsnAck blocks x)

theorem settled_acknowledge (lower : s.1.outstandingData.base ≤ cumulativeTsnAck)
    (upper : cumulativeTsnAck ≤ s.1.outstandingData.highest)
    (complete : Completes cumulativeTsnAck blocks s.1.outstandingData) :
    Settled cumulativeTsnAck blocks
      (s.1.acknowledge cumulativeTsnAck blocks).2.outstandingData := by
  have hbase := (acknowledge_spec blocks lower upper).base
  intro x item held
  have hpast := hbase ▸ (bounds_of_get? held).1
  obtain ⟨hin, hout⟩ := get?_acknowledge s.1 blocks hpast
  by_cases hblocks : InBlocks cumulativeTsnAck blocks x
  · rw [hin hblocks] at held
    obtain ⟨before, -, rfl⟩ := Option.map_eq_some_iff.mp held
    exact ⟨Or.inl (isAcked_ackedItem before), fun h => absurd hblocks h⟩
  · rw [hout hblocks] at held
    rcases complete x item held with h | h | h | h
    · exact ⟨Or.inr h, fun _ _ => h⟩
    · omega
    · exact absurd h hblocks
    · exact ⟨Or.inl h.1, fun _ hnot => absurd h.2 hnot⟩

theorem settled_handleSack (isInFastRecovery : Bool)
    (lower : s.1.outstandingData.base ≤ cumulativeTsnAck)
    (upper : cumulativeTsnAck ≤ s.1.outstandingData.highest)
    (ordered : ChunkValidators.Ordered blocks)
    (complete : Completes cumulativeTsnAck blocks s.1.outstandingData) :
    Settled cumulativeTsnAck blocks
      (handleSack discard cumulativeTsnAck blocks isInFastRecovery s).2.1.outstandingData := by
  refine nackBetweenLoop_preserves discard
    (motive := fun s => Settled cumulativeTsnAck blocks s.1.outstandingData) blocks _ _ _ ordered
    (fun _ _ => by omega) ?_ (settled_acknowledge lower upper complete)
  intro t s' hlower hupper hbetween hs' x item' held'
  rw [maxTsnToNack_acknowledge blocks isInFastRecovery lower upper] at hupper
  have habandoned : ∀ item, s'.1.outstandingData.get? t = some item → item.isAbandoned = true := by
    intro item held
    refine (hs' t item held).2 hbetween fun hpast => ?_
    exact absurd (highestTsnAcked_acknowledge_lt s.1 hpast) (not_lt.mpr hupper)
  unfold nackItem at held'
  split at held'
  · exact hs' x item' held'
  · case h_2 item hitem =>
    -- nothing follows from a nack of an abandoned chunk
    obtain ⟨hnothing, hstill⟩ :
        (item.nack false).2 = .nothing ∧ (item.nack false).1.isAbandoned = true := by
      have hlifecycle := of_decide_eq_true (habandoned item hitem)
      simp [Item.nack, Item.isAbandoned, hlifecycle]
    simp only [hnothing, outstandingData_modifyItem, outstandingData_takeOutOfFlight,
      get?_modify] at held'
    split_ifs at held' with hx
    · rw [hx, hitem, Option.map_some, Option.some_inj] at held'
      exact ⟨Or.inr (held' ▸ hstill), fun _ _ => held' ▸ hstill⟩
    · exact hs' x item' held'

end HandleSack

end OutstandingData

end Dcsctp
