import WebRtc.Dcsctp.SackEffects

/-!
# Miss indications

`OutstandingData::NackBetweenAckBlocks` gives a miss indication to the chunks between the gap ack
blocks, in fast recovery to every missing chunk if the cumulative TSN ack advances. It tests the
advance against a member that `RemoveAcked` has moved by then, so that only chunks below the highest
newly acknowledged one are counted.
-/

namespace Dcsctp

namespace OutstandingData

variable {σ : Type} (discard : σ → StreamID → OutgoingMessageId → Bool × σ)

structure MissedOnce (a b : Item) : Prop where
  nackCount : b.nackCount = a.nackCount + 1
  isNacked : b.isNacked = true

theorem MissedOnce.untouched {a b c : Item} (h : MissedOnce a b) (hbc : Untouched b c) :
    MissedOnce a c := by
  rcases hbc with rfl | rfl
  · exact h
  · exact ⟨h.nackCount, h.isNacked⟩

theorem Untouched.missedOnce {a b c : Item} (hab : Untouched a b) (h : MissedOnce b c) :
    MissedOnce a c := by
  rcases hab with rfl | rfl
  · exact h
  · exact ⟨h.nackCount, h.isNacked⟩

/-- A relation between an item and what the operation leaves under its TSN. -/
def Leaves (R : Item → Item → Prop) (x : Int) (d d' : OutstandingData) : Prop :=
  ∀ item, d.outstandingData.get? x = some item →
    ∃ item', d'.outstandingData.get? x = some item' ∧ R item item'

variable {x cumulativeTsnAck maxTsnToNack : Int}

theorem Leaves.trans {R S T : Item → Item → Prop} {d d' d'' : OutstandingData}
    (h : Leaves R x d d') (h' : Leaves S x d' d'')
    (comp : ∀ {a b c}, R a b → S b c → T a c) : Leaves T x d d'' := by
  intro item held
  obtain ⟨item', held', hr⟩ := h item held
  obtain ⟨item'', held'', hs⟩ := h' item' held'
  exact ⟨item'', held'', comp hr hs⟩

theorem missedOnce_nackItem (x : Int) (doFast : Bool) (s : OutstandingData × σ) :
    Leaves MissedOnce x s.1 (nackItem discard x false doFast s).2.1 := by
  intro item held
  have hmodified : (s.1.outstandingData.modify x fun item => (item.nack false).1).get? x =
      some (item.nack false).1 := by
    rw [Window.get?_modify, if_pos rfl, held, Option.map_some]
  have hmissed : MissedOnce item (item.nack false).1 := by
    refine ⟨?_, isNacked_nack item false⟩
    unfold Item.nack
    dsimp only
    split_ifs <;> rfl
  unfold nackItem
  rw [held]
  dsimp only
  split
  · refine ⟨_, ?_, hmissed⟩
    simpa using hmodified
  · refine ⟨_, ?_, hmissed⟩
    simpa using hmodified
  · have hheld : ((s.1.takeOutOfFlight item).modifyItem x
        fun item => (item.nack false).1).outstandingData.get? x = some (item.nack false).1 := by
      simpa using hmodified
    obtain ⟨item', held', huntouched⟩ :=
      untouched_abandonAllFor discard (item.nack false).1 (_, s.2) hheld
    exact ⟨item', held', hmissed.untouched huntouched⟩

theorem Untouched.not_missedOnce {a b : Item} (h : Untouched a b) : ¬ MissedOnce a b := by
  intro hmissed
  have hcount := hmissed.nackCount
  rcases h with rfl | rfl <;> simp [Item.abandon] at hcount

theorem untouched_nackRange (doFast : Bool) {n : Nat} {tsn : Int} (loss : Bool)
    (s : OutstandingData × σ) (outside : x < tsn ∨ tsn + n ≤ x) :
    Leaves Untouched x s.1 (nackRange discard doFast n tsn (loss, s)).2.1 := by
  intro item held
  refine nackRange_preserves discard (motive := fun s' : OutstandingData × σ =>
    ∃ item', s'.1.outstandingData.get? x = some item' ∧ Untouched item item') n tsn loss s ?_
    ⟨item, held, Untouched.refl item⟩
  rintro t s' hlower hupper ⟨item', held', huntouched⟩
  obtain ⟨item'', held'', hstep⟩ :=
    untouched_nackItem discard (show x ≠ t by omega) false doFast s' held'
  exact ⟨item'', held'', huntouched.trans hstep⟩

theorem missedOnce_nackRange (doFast : Bool) :
    ∀ (n : Nat) (tsn : Int) (loss : Bool) (s : OutstandingData × σ), tsn ≤ x → x < tsn + n →
      Leaves MissedOnce x s.1 (nackRange discard doFast n tsn (loss, s)).2.1 := by
  intro n
  induction n with
  | zero =>
    intro tsn loss s hlower hupper
    omega
  | succ n ih =>
    intro tsn loss s hlower hupper
    rcases eq_or_lt_of_le hlower with rfl | hlater
    · refine (missedOnce_nackItem discard tsn doFast s).trans ?_ MissedOnce.untouched
      exact untouched_nackRange discard doFast _ _ (Or.inl (by omega))
    · have hfirst : Leaves Untouched x s.1 (nackItem discard tsn false doFast s).2.1 :=
        fun item held => untouched_nackItem discard hlater.ne' false doFast s held
      exact hfirst.trans (ih (tsn + 1) _ _ (by omega) (by omega)) Untouched.missedOnce

theorem untouched_nackBetweenLoop (doFast : Bool) {blocks : List GapAckBlock} {prev : Int}
    (loss : Bool) (s : OutstandingData × σ) (ordered : ChunkValidators.Ordered blocks)
    (hprev : ∀ block ∈ blocks, prev ≤ cumulativeTsnAck + block.last.toNat)
    (outside : x ≤ prev ∨ maxTsnToNack < x) :
    Leaves Untouched x s.1 (nackBetweenLoop discard cumulativeTsnAck maxTsnToNack doFast blocks
      prev (loss, s)).2.1 := by
  intro item held
  refine nackBetweenLoop_preserves discard (motive := fun s' : OutstandingData × σ =>
    ∃ item', s'.1.outstandingData.get? x = some item' ∧ Untouched item item') blocks _ _ _
    ordered hprev ?_ ⟨item, held, Untouched.refl item⟩
  rintro t s' hlower hupper - ⟨item', held', huntouched⟩
  obtain ⟨item'', held'', hstep⟩ :=
    untouched_nackItem discard (show x ≠ t by omega) false doFast s' held'
  exact ⟨item'', held'', huntouched.trans hstep⟩

theorem missedOnce_nackBetweenLoop (doFast : Bool) (counted : x ≤ maxTsnToNack) :
    ∀ (blocks : List GapAckBlock) (prev : Int) (loss : Bool) (s : OutstandingData × σ),
      ChunkValidators.Ordered blocks → prev < x → ¬ InBlocks cumulativeTsnAck blocks x →
      (∃ block ∈ blocks, x < cumulativeTsnAck + block.last.toNat) → Leaves MissedOnce x s.1
        (nackBetweenLoop discard cumulativeTsnAck maxTsnToNack doFast blocks prev
          (loss, s)).2.1 := by
  intro blocks
  induction blocks with
  | nil =>
    rintro prev loss s - - - ⟨block, hmem, -⟩
    exact absurd hmem List.not_mem_nil
  | cons block rest ih =>
    rintro prev loss s ⟨hends, hlater, hordered⟩ hprev hout hbelow
    rw [nackBetweenLoop]
    by_cases hfirst : x < cumulativeTsnAck + block.start.toNat
    · -- the TSN is missing before this block, and the later ranges start past it
      have hrange := missedOnce_nackRange discard doFast
        (min (cumulativeTsnAck + block.start.toNat - 1) maxTsnToNack - prev).toNat (prev + 1) loss
        s (show prev + 1 ≤ x by omega) (by omega)
      refine hrange.trans (untouched_nackBetweenLoop discard doFast _ _ hordered ?_ ?_)
        MissedOnce.untouched
      · intro other hmem
        have hbefore := hlater other hmem
        have hother := ChunkValidators.Ordered.start_le_last hordered other hmem
        omega
      · omega
    · have hpast : cumulativeTsnAck + block.last.toNat < x := by
        by_contra hin
        exact hout ⟨block, List.mem_cons_self, by omega, by omega⟩
      generalize hcount :
        (min (cumulativeTsnAck + block.start.toNat - 1) maxTsnToNack - prev).toNat = count
      have hrange := untouched_nackRange discard doFast loss s
        (show x < prev + 1 ∨ prev + 1 + count ≤ x by omega)
      refine hrange.trans (ih _ _ _ hordered hpast ?_ ?_) Untouched.missedOnce
      · rintro ⟨other, hmem, hbounds⟩
        exact hout ⟨other, List.mem_cons_of_mem _ hmem, hbounds⟩
      · obtain ⟨other, hmem, hless⟩ := hbelow
        rcases List.mem_cons.mp hmem with rfl | hmem
        · omega
        · exact ⟨other, hmem, hless⟩

/-- A missing chunk gets one miss indication exactly if a chunk above it is newly acknowledged. -/
theorem missedOnce_iff_newly_acked {s : OutstandingData × σ} {cumulativeTsnAck : Int}
    {blocks : List GapAckBlock} (isInFastRecovery : Bool)
    (advances : s.1.lastCumulativeTsnAck < cumulativeTsnAck)
    (sent : cumulativeTsnAck ≤ s.1.highestOutstandingTsn)
    (ordered : ChunkValidators.Ordered blocks) {x : Int} {item : Item}
    (held : s.1.outstandingData.get? x = some item) (past : cumulativeTsnAck < x)
    (reported : ∃ block ∈ blocks, x < cumulativeTsnAck + block.last.toNat)
    (missing : ¬ InBlocks cumulativeTsnAck blocks x) :
    (∃ item', (handleSack discard cumulativeTsnAck blocks isInFastRecovery
      s).2.1.outstandingData.get? x = some item' ∧ MissedOnce item item') ↔
    ∃ t newItem, InBlocks cumulativeTsnAck blocks t ∧ x < t ∧
      s.1.outstandingData.get? t = some newItem ∧ newItem.isAcked = false := by
  have hmax := maxTsnToNack_acknowledge blocks isInFastRecovery advances.le sent
  have hkept := ((get?_acknowledge s.1 blocks past).2 missing).trans held
  have habove : x ≤ (s.1.acknowledge cumulativeTsnAck blocks).1.highestTsnAcked ↔
      ∃ t newItem, InBlocks cumulativeTsnAck blocks t ∧ x < t ∧
        s.1.outstandingData.get? t = some newItem ∧ newItem.isAcked = false := by
    refine (le_highestTsnAcked_acknowledge s.1 blocks past).trans ?_
    refine exists_congr fun t => exists_congr fun newItem => and_congr_right fun hin =>
      and_congr_left fun _ => ⟨fun hle => hle.lt_of_ne ?_, le_of_lt⟩
    rintro rfl
    exact missing hin
  rw [← habove]
  constructor
  · rintro ⟨item', held', hmissed⟩
    by_contra hbelow
    -- nothing above the highest newly acknowledged TSN is nacked
    have hleaves : Leaves Untouched x (s.1.acknowledge cumulativeTsnAck blocks).2
        (handleSack discard cumulativeTsnAck blocks isInFastRecovery s).2.1 :=
      untouched_nackBetweenLoop discard _ _ (_, s.2) ordered (fun _ _ => by omega)
        (.inr (hmax.trans_lt (not_le.mp hbelow)))
    obtain ⟨same, hsame, huntouched⟩ := hleaves item hkept
    obtain rfl := Option.some.inj (hsame.symm.trans held')
    exact huntouched.not_missedOnce hmissed
  · intro hle
    exact missedOnce_nackBetweenLoop discard (!isInFastRecovery) (hle.trans_eq hmax.symm) blocks
      cumulativeTsnAck _ (_, s.2) ordered past missing reported item hkept

section Recovery

def fiveSent : OutstandingData × Unit :=
  [insertSingle 0 [1], insertSingle 1 [2], insertSingle 2 [3], insertSingle 3 [4],
    insertSingle 4 [5]].foldl (perform keepAll) (initial 16 0, ())

/-- The fourth chunk is counted when the fifth is acknowledged for the first time. -/
theorem missedOnce_iff_newly_acked_fiveSent : ∃ item ∈ fiveSent.1.outstandingData.get? 4, ∃ item',
      (handleSack keepAll 1 [⟨2, 2⟩, ⟨4, 4⟩] true fiveSent).2.1.outstandingData.get? 4 =
        some item' ∧ MissedOnce item item' := by
  refine ⟨_, rfl, (missedOnce_iff_newly_acked keepAll true (by decide) (by decide) ?_ rfl
    (by decide) ?_ ?_).mpr ?_⟩
  · exact ⟨by decide, by decide, by decide, by decide, trivial⟩
  · exact ⟨⟨4, 4⟩, by decide, by decide⟩
  · rintro ⟨block, hmem, hlower, hupper⟩
    simp only [List.mem_cons, List.not_mem_nil, or_false] at hmem
    rcases hmem with rfl | rfl
    · exact absurd hupper (by decide)
    · exact absurd hlower (by decide)
  · exact ⟨5, _, ⟨⟨4, 4⟩, by decide, by decide, by decide⟩, by decide, rfl, rfl⟩

/-- A first SACK reports the first, the second and the fourth chunk missing. -/
def gapsReported : OutstandingData × Unit :=
  perform keepAll fiveSent (.handleSack 0 [⟨3, 3⟩, ⟨5, 5⟩] false)

/-- The next SACK reports the same gaps. In fast recovery the missing chunks should be counted. -/
theorem missing_not_counted_in_fast_recovery :
    gapsReported.1.lastCumulativeTsnAck < 1 ∧ 1 ≤ gapsReported.1.highestOutstandingTsn ∧
    ChunkValidators.validateFrom 0 [⟨2, 2⟩, ⟨4, 4⟩] = true ∧
    ∀ x ∈ [(2 : Int), 4], ∃ item ∈ gapsReported.1.outstandingData.get? x,
      (handleSack keepAll 1 [⟨2, 2⟩, ⟨4, 4⟩] true gapsReported).2.1.outstandingData.get? x =
        some item := by
  decide +kernel

end Recovery

end OutstandingData

end Dcsctp
