import WebRtc.Dcsctp.OutstandingDataSteps

/-!
# Accounting of outstanding data

`IsConsistent` holds after every sequence of operations: the counters are the sums over
the chunks in flight, never go below zero, and the two retransmission sets hold exactly
the chunks that are marked for retransmission.
-/

namespace Dcsctp

open Window Item

namespace OutstandingData

open Relation Units

def inFlight (f : Data → Nat) (item : Item) : Nat :=
  if item.isOutstanding then f item.data else 0

/-- The counters are the sums over the chunks in flight, and none has been below zero. -/
structure Counted (d : OutstandingData) : Prop where
  payload : d.unackedPayloadBytes = d.outstandingData.total (inFlight Data.size)
  packet : d.unackedPacketBytes = d.outstandingData.total (inFlight d.getSerializedChunkSize)
  items : d.unackedItems = d.outstandingData.total (inFlight fun _ => 1)
  sound : d.faulted = false

/-- The retransmission sets hold the chunks marked for retransmission, each in one set. -/
structure Marked (d : OutstandingData) : Prop where
  waiting : ∀ tsn, (∃ queue, tsn ∈ d.chunksIn queue) ↔
    ∃ item, d.outstandingData.get? tsn = some item ∧ item.shouldBeRetransmitted = true
  once : ∀ {tsn : Int} {queue queue' : Queue},
    tsn ∈ d.chunksIn queue → tsn ∈ d.chunksIn queue' → queue = queue'
  nacked : ∀ {tsn : Int} {item : Item}, d.outstandingData.get? tsn = some item →
    item.shouldBeRetransmitted = true → item.isNacked = true

structure Accounted (d : OutstandingData) : Prop where
  counted : Counted d
  marked : Marked d

theorem accounted_initial (headerSize : Nat) (tsn : Int) : Accounted (initial headerSize tsn) where
  counted := ⟨rfl, rfl, rfl, rfl⟩
  marked := by
    have hempty : ∀ t, (initial headerSize tsn).outstandingData.get? t = none := by
      intro t
      rw [get?_eq_none_iff]
      simp only [initial, Window.highest, List.length_nil]
      omega
    refine ⟨?_, ?_, ?_⟩
    · intro t
      constructor
      · rintro ⟨queue, hqueue⟩
        cases queue <;> exact absurd hqueue (Finset.notMem_empty t)
      · rintro ⟨item, hget, -⟩
        rw [hempty t] at hget
        exact absurd hget (Option.some_ne_none item).symm
    · intro t queue _ hqueue
      cases queue <;> exact absurd hqueue (Finset.notMem_empty t)
    · intro t item hget
      rw [hempty t] at hget
      exact absurd hget (Option.some_ne_none item).symm

section Counters

variable {d : OutstandingData}

theorem Counted.takeOutOfFlight (h : Counted d) {tsn : Int} {item : Item} {f : Item → Item}
    (held : d.outstandingData.get? tsn = some item) (landed : (f item).isOutstanding = false) :
    Counted ((d.takeOutOfFlight item).modifyItem tsn f) := by
  have hshare : ∀ g : Data → Nat,
      (d.outstandingData.modify tsn f).total (inFlight g) + inFlight g item =
        d.outstandingData.total (inFlight g) ∧
      inFlight g item ≤ d.outstandingData.total (inFlight g) := by
    intro g
    have htotal := total_modify held f (inFlight g)
    have hafter : inFlight g (f item) = 0 := by simp [inFlight, landed]
    exact ⟨by omega, le_total held (inFlight g)⟩
  unfold OutstandingData.takeOutOfFlight
  split_ifs with hout
  · have hvalue : ∀ g : Data → Nat, inFlight g item = g item.data := by
      intro g
      simp [inFlight, hout]
    have hpayload := hshare Data.size
    have hpacket := hshare d.getSerializedChunkSize
    have hitems := hshare fun _ => 1
    rw [hvalue, ← h.payload] at hpayload
    rw [hvalue, ← h.packet] at hpacket
    rw [hvalue, ← h.items] at hitems
    refine ⟨?_, ?_, ?_, ?_⟩
    · exact Nat.sub_eq_of_eq_add hpayload.1.symm
    · exact Nat.sub_eq_of_eq_add hpacket.1.symm
    · exact Nat.sub_eq_of_eq_add hitems.1.symm
    · change (d.faulted || decide (d.unackedPayloadBytes < item.data.size) ||
        decide (d.unackedPacketBytes < d.getSerializedChunkSize item.data) ||
        decide (d.unackedItems < 1)) = false
      simp [h.sound, hpayload.2, hpacket.2, Nat.one_le_iff_ne_zero.mp hitems.2]
  · have hvalue : ∀ g : Data → Nat, inFlight g item = 0 := by
      intro g
      simp [inFlight, hout]
    refine ⟨h.payload.trans ?_, h.packet.trans ?_, h.items.trans ?_, h.sound⟩
    all_goals
      refine (hshare _).1.symm.trans ?_
      rw [hvalue]
      rfl

variable {d' : OutstandingData}

theorem Counted.addUnacked (h : Counted d) {data : Data}
    (share : ∀ g : Data → Nat, d'.outstandingData.total (inFlight g) =
      d.outstandingData.total (inFlight g) + g data)
    (same : d' = { d.addUnacked data with outstandingData := d'.outstandingData }) :
    Counted d' := by
  rw [same]
  refine ⟨?_, ?_, ?_, h.sound⟩
  · change d.unackedPayloadBytes + data.size = _
    rw [h.payload]
    exact (share Data.size).symm
  · change d.unackedPacketBytes + d.getSerializedChunkSize data = _
    rw [h.packet]
    exact (share d.getSerializedChunkSize).symm
  · change d.unackedItems + 1 = _
    rw [h.items]
    exact (share fun _ => 1).symm

theorem Counted.of_window (h : Counted d) (share : ∀ g : Data → Nat,
      d'.outstandingData.total (inFlight g) = d.outstandingData.total (inFlight g))
    (same : d' = { d with
      outstandingData := d'.outstandingData
      toBeFastRetransmitted := d'.toBeFastRetransmitted
      toBeRetransmitted := d'.toBeRetransmitted
      streamResetBreakpointTsns := d'.streamResetBreakpointTsns }) :
    Counted d' := by
  rw [same]
  exact ⟨h.payload.trans (share _).symm, h.packet.trans (share _).symm,
    h.items.trans (share _).symm, h.sound⟩

end Counters

section Sets

variable {d : OutstandingData} {tsn : Int}

theorem mem_eraseFrom {t : Int} {queue queue' : Queue} :
    t ∈ (d.eraseFrom tsn queue).chunksIn queue' ↔
      t ∈ d.chunksIn queue' ∧ ¬ (t = tsn ∧ queue' = queue) := by
  cases queue <;> cases queue' <;> simp [eraseFrom, chunksIn, and_comm]

theorem mem_insertInto {t : Int} {queue queue' : Queue} :
    t ∈ (d.insertInto tsn queue).chunksIn queue' ↔
      t ∈ d.chunksIn queue' ∨ (t = tsn ∧ queue' = queue) := by
  cases queue <;> cases queue' <;> simp [insertInto, chunksIn, or_comm]

theorem mem_union_iff :
    tsn ∈ d.toBeRetransmitted ∪ d.toBeFastRetransmitted ↔ ∃ queue, tsn ∈ d.chunksIn queue := by
  rw [Finset.mem_union]
  constructor
  · rintro (hin | hin)
    · exact ⟨.timer, hin⟩
    · exact ⟨.fast, hin⟩
  · rintro ⟨queue, hqueue⟩
    cases queue with
    | fast => exact Or.inr hqueue
    | timer => exact Or.inl hqueue

@[simp] theorem chunksIn_takeOutOfFlight (item : Item) (queue : Queue) :
    (d.takeOutOfFlight item).chunksIn queue = d.chunksIn queue := by
  unfold takeOutOfFlight
  cases queue <;> split_ifs <;> rfl

@[simp] theorem chunksIn_modifyItem (tsn : Int) (f : Item → Item) (queue : Queue) :
    (d.modifyItem tsn f).chunksIn queue = d.chunksIn queue := by
  cases queue <;> rfl

@[simp] theorem chunksIn_addUnacked (data : Data) (queue : Queue) :
    (d.addUnacked data).chunksIn queue = d.chunksIn queue := by
  cases queue <;> rfl

@[simp] theorem chunksIn_pushItem (item : Item) (queue : Queue) :
    (d.pushItem item).chunksIn queue = d.chunksIn queue := by
  cases queue <;> rfl

variable {item : Item} {d' : OutstandingData} {f : Item → Item}

section Update

variable (h : Marked d) (held : d.outstandingData.get? tsn = some item)
  (window : d'.outstandingData = d.outstandingData.modify tsn f)
  (others : ∀ {t : Int} (queue : Queue), t ≠ tsn → (t ∈ d'.chunksIn queue ↔ t ∈ d.chunksIn queue))
include h held window others

/-- One item changes, and the sets with it under its TSN. -/
theorem Marked.update
    (self : (∃ queue, tsn ∈ d'.chunksIn queue) ↔ (f item).shouldBeRetransmitted = true)
    (single : ∀ {queue queue' : Queue}, tsn ∈ d'.chunksIn queue → tsn ∈ d'.chunksIn queue' →
      queue = queue')
    (lost : (f item).shouldBeRetransmitted = true → (f item).isNacked = true) : Marked d' := by
  have hget : d'.outstandingData.get? tsn = some (f item) := by
    rw [window, get?_modify, if_pos rfl, held, Option.map_some]
  have hother : ∀ {t : Int}, t ≠ tsn → d'.outstandingData.get? t = d.outstandingData.get? t := by
    intro t ht
    rw [window, get?_modify, if_neg ht]
  refine ⟨?_, ?_, ?_⟩
  · intro t
    by_cases ht : t = tsn
    · subst ht
      rw [self, hget]
      simp
    · rw [hother ht, ← h.waiting t]
      exact exists_congr fun queue => others queue ht
  · intro t queue queue' hqueue hqueue'
    by_cases ht : t = tsn
    · subst ht
      exact single hqueue hqueue'
    · exact h.once ((others queue ht).mp hqueue) ((others queue' ht).mp hqueue')
  · intro t item' held' hmarked
    by_cases ht : t = tsn
    · subst ht
      cases hget.symm.trans held'
      exact lost hmarked
    · rw [hother ht] at held'
      exact h.nacked held' hmarked

theorem Marked.unmark (none : ∀ queue, tsn ∉ d'.chunksIn queue)
    (unmarked : (f item).shouldBeRetransmitted = false) : Marked d' := by
  refine h.update held window others ?_ (fun hqueue _ => absurd hqueue (none _)) ?_
  · rw [unmarked]
    exact iff_of_false (fun hin => none hin.choose hin.choose_spec) Bool.false_ne_true
  · rw [unmarked]
    exact nofun

end Update

theorem Marked.push (h : Marked d) {new : Item} (unmarked : new.shouldBeRetransmitted = false) :
    Marked (d.pushItem new) := by
  have hget : ∀ t, (d.pushItem new).outstandingData.get? t =
      if t = d.outstandingData.highest + 1 then some new else d.outstandingData.get? t :=
    fun t => get?_push ..
  have hfresh : d.outstandingData.get? (d.outstandingData.highest + 1) = none := by
    rw [get?_eq_none_iff]
    exact Or.inr (Int.lt_succ _)
  refine ⟨?_, ?_, ?_⟩
  · intro t
    simp only [chunksIn_pushItem]
    rw [h.waiting t, hget]
    split_ifs with ht
    · subst ht
      rw [hfresh]
      simp [unmarked]
    · exact Iff.rfl
  · intro t queue queue' hqueue hqueue'
    exact h.once hqueue hqueue'
  · intro t item held hmarked
    rw [hget] at held
    split_ifs at held with ht
    · cases held
      rw [unmarked] at hmarked
      cases hmarked
    · exact h.nacked held hmarked

theorem Marked.pop (h : Marked d) {rest : List Item}
    (front : d.outstandingData.items = item :: rest)
    (unmarked : item.shouldBeRetransmitted = false) : Marked d.popFront := by
  have hget : ∀ t, d.popFront.outstandingData.get? t =
      if t = d.outstandingData.base + 1 then none else d.outstandingData.get? t :=
    fun t => get?_tail ..
  have hchunks : ∀ queue, d.popFront.chunksIn queue = d.chunksIn queue := by
    intro queue
    cases queue <;> rfl
  refine ⟨?_, ?_, ?_⟩
  · intro t
    simp only [hchunks]
    rw [h.waiting t, hget]
    split_ifs with ht
    · subst ht
      rw [get?_first front]
      simp [unmarked]
    · exact Iff.rfl
  · intro t queue queue' hqueue hqueue'
    exact h.once hqueue hqueue'
  · intro t item' held hmarked
    rw [hget] at held
    split_ifs at held
    exact h.nacked held hmarked

end Sets

section Steps

variable {d d' : OutstandingData} {tsn : Int} {item : Item}

theorem Marked.notMem (h : Marked d) (held : d.outstandingData.get? tsn = some item)
    (unmarked : item.shouldBeRetransmitted = false) (queue : Queue) : tsn ∉ d.chunksIn queue := by
  intro hqueue
  obtain ⟨item', held', hmarked⟩ := (h.waiting tsn).mp ⟨queue, hqueue⟩
  cases held.symm.trans held'
  rw [unmarked] at hmarked
  cases hmarked

theorem shouldBeRetransmitted_ack (item : Item) : item.ack.shouldBeRetransmitted = false := by
  unfold Item.ack shouldBeRetransmitted
  split_ifs <;> rfl

/-- An acknowledged chunk leaves the timer's set; it must not wait for a fast
retransmission. -/
theorem ackChunk_accounted (h : Accounted d) (info : AckInfo)
    (held : d.outstandingData.get? tsn = some item) (slow : tsn ∉ d.chunksIn .fast) :
    Accounted (d.ackChunk info tsn item).2 := by
  unfold ackChunk
  split_ifs with hacked hmarked
  · exact h
  · refine ⟨?_, ?_⟩
    · have hcounted : Counted ((d.takeOutOfFlight item).modifyItem tsn Item.ack) :=
        h.counted.takeOutOfFlight held rfl
      exact { hcounted with }
    · refine h.marked.unmark (f := Item.ack) held (by simp) ?_ ?_ (shouldBeRetransmitted_ack item)
      · intro t queue ht
        simp [mem_eraseFrom, ht]
      · intro queue hqueue
        cases queue
        · exact slow (by simpa [mem_eraseFrom] using hqueue)
        · simp [mem_eraseFrom] at hqueue
  · refine ⟨h.counted.takeOutOfFlight held rfl, ?_⟩
    have hnone := h.marked.notMem held (Bool.not_eq_true _ ▸ hmarked)
    exact h.marked.unmark (f := Item.ack) held (by simp) (fun queue _ => by simp)
      (fun queue hqueue => hnone queue (by simpa using hqueue)) (shouldBeRetransmitted_ack item)

theorem popFront_accounted (h : Accounted d) {rest : List Item}
    (front : d.outstandingData.items = item :: rest) (acked : item.isAcked = true) :
    Accounted d.popFront := by
  have hstate := of_decide_eq_true acked
  have hunmarked : item.shouldBeRetransmitted = false := by
    cases hmarked : item.shouldBeRetransmitted with
    | false => rfl
    | true =>
      have hnacked := h.marked.nacked (get?_first front) hmarked
      rw [Item.isNacked, hstate] at hnacked
      cases hnacked
  refine ⟨h.counted.of_window ?_ rfl, h.marked.pop front hunmarked⟩
  intro g
  have hshare : inFlight g item = 0 := by simp [inFlight, isOutstanding, hstate]
  simp [popFront, Window.total, front, hshare]

theorem AckStep.accounted (hstep : AckStep d d') (h : Accounted d)
    (slow : d.toBeFastRetransmitted = ∅) : Accounted d' ∧ d'.toBeFastRetransmitted = ∅ := by
  cases hstep with
  | @ack tsn _ info held =>
    have hslow : tsn ∉ d.chunksIn .fast := by
      rw [chunksIn, slow]
      exact Finset.notMem_empty tsn
    refine ⟨ackChunk_accounted h info held hslow, ?_⟩
    unfold ackChunk takeOutOfFlight
    split_ifs <;> exact slow
  | pop front acked => exact ⟨popFront_accounted h front acked, slow⟩
  | breakpoints tsns =>
    exact ⟨⟨{ h.counted with }, { h.marked with }⟩, slow⟩

theorem accounted_of_ackSteps (hsteps : ReflTransGen AckStep d d') (h : Accounted d)
    (slow : d.toBeFastRetransmitted = ∅) : Accounted d' ∧ d'.toBeFastRetransmitted = ∅ := by
  induction hsteps with
  | refl => exact ⟨h, slow⟩
  | tail _ hstep ih => exact hstep.accounted ih.1 ih.2

theorem abandonItem_accounted (h : Accounted d) (held : d.outstandingData.get? tsn = some item) :
    Accounted (d.abandonItem tsn item) := by
  have hshare : ∀ g : Data → Nat, (d.outstandingData.modify tsn Item.abandon).total (inFlight g) =
      d.outstandingData.total (inFlight g) := by
    intro g
    exact Nat.add_right_cancel (total_modify held Item.abandon (inFlight g))
  have hnone : ∀ queue, tsn ∉ (d.abandonItem tsn item).chunksIn queue := by
    intro queue hqueue
    unfold abandonItem at hqueue
    split_ifs at hqueue with hmarked
    · cases queue <;> simp [mem_eraseFrom] at hqueue
    · exact h.marked.notMem held (Bool.not_eq_true _ ▸ hmarked) queue (by simpa using hqueue)
  refine ⟨?_, h.marked.unmark (f := Item.abandon) held (outstandingData_abandonItem ..) ?_ hnone rfl⟩
  · unfold abandonItem
    split_ifs
    · exact h.counted.of_window hshare rfl
    · exact h.counted.of_window hshare rfl
  · intro t queue ht
    unfold abandonItem
    split_ifs <;> simp [mem_eraseFrom, ht]

variable {σ : Type} {s : OutstandingData × σ}
  (discard : σ → StreamID → OutgoingMessageId → Bool × σ)

theorem abandonAllFor_accounted (h : Accounted s.1) (item : Item) :
    Accounted (abandonAllFor discard item s).1 := by
  refine abandonAllFor_preserves discard (fun h => ?_)
    (fun _ _ _ held _ h => abandonItem_accounted h held) h
  -- the placeholder for the end of the message is not in flight
  refine ⟨h.counted.of_window ?_ rfl, h.marked.push (shouldBeRetransmitted_ack _)⟩
  intro g
  exact (total_push ..).trans (Nat.add_zero _)

theorem isNacked_nack (item : Item) (retransmitNow : Bool) :
    (item.nack retransmitNow).1.isNacked = true := by
  unfold Item.nack
  dsimp only
  split_ifs <;> rfl

theorem lifecycle_nack (item : Item) (retransmitNow : Bool) : match (item.nack retransmitNow).2 with
    | .nothing => (item.nack retransmitNow).1.lifecycle = item.lifecycle
    | .retransmit => (item.nack retransmitNow).1.lifecycle = .toBeRetransmitted ∧
        item.shouldBeRetransmitted = false
    | .abandon => (item.nack retransmitNow).1.lifecycle = .abandoned ∧
        item.shouldBeRetransmitted = false := by
  unfold Item.nack
  dsimp only
  split_ifs with hlost
  · simp only [Bool.and_eq_true, Bool.not_eq_true'] at hlost
    exact ⟨rfl, hlost.1.1⟩
  · simp only [Bool.and_eq_true, Bool.not_eq_true'] at hlost
    exact ⟨rfl, hlost.1.1⟩
  · rfl

theorem nackItem_accounted (h : Accounted s.1) (held : s.1.outstandingData.get? tsn = some item)
    (retransmitNow doFast : Bool) :
    Accounted (nackItem discard tsn retransmitNow doFast s).2.1 := by
  have hnacked := isNacked_nack item retransmitNow
  have hlanded : (item.nack retransmitNow).1.isOutstanding = false := by
    rw [isOutstanding, of_decide_eq_true hnacked]
    rfl
  have hcounted : Counted ((s.1.takeOutOfFlight item).modifyItem tsn
      fun item => (item.nack retransmitNow).1) :=
    h.counted.takeOutOfFlight held hlanded
  have hlifecycle := lifecycle_nack item retransmitNow
  simp only [nackItem, held]
  split <;> rename_i haction <;> rw [haction] at hlifecycle <;> dsimp only at hlifecycle
  · refine ⟨hcounted, h.marked.update (f := fun item => (item.nack retransmitNow).1) held
      (by simp) ?_ ?_ ?_ fun _ => hnacked⟩
    · intro t queue _
      simp
    · rw [shouldBeRetransmitted, hlifecycle]
      simp only [chunksIn_modifyItem, chunksIn_takeOutOfFlight]
      rw [h.marked.waiting, held]
      simp [shouldBeRetransmitted]
    · intro queue queue' hqueue hqueue'
      simp only [chunksIn_modifyItem, chunksIn_takeOutOfFlight] at hqueue hqueue'
      exact h.marked.once hqueue hqueue'
  · have hnone := h.marked.notMem held hlifecycle.2
    refine ⟨?_, h.marked.update (f := fun item => (item.nack retransmitNow).1) held
      (by simp) ?_ ?_ ?_ fun _ => hnacked⟩
    · cases doFast <;> exact { hcounted with }
    · intro t queue ht
      simp [mem_insertInto, ht]
    · rw [shouldBeRetransmitted, hlifecycle.1]
      refine iff_of_true ⟨if doFast then .fast else .timer, ?_⟩ rfl
      simp [mem_insertInto]
    · intro queue queue' hqueue hqueue'
      simp only [mem_insertInto, chunksIn_modifyItem, chunksIn_takeOutOfFlight, hnone,
        false_or] at hqueue hqueue'
      exact hqueue.2.trans hqueue'.2.symm
  · have hnone := h.marked.notMem held hlifecycle.2
    have hunmarked : (item.nack retransmitNow).1.shouldBeRetransmitted = false := by
      rw [shouldBeRetransmitted, hlifecycle.1]
      rfl
    apply abandonAllFor_accounted
    exact ⟨hcounted, h.marked.unmark (f := fun item => (item.nack retransmitNow).1) held (by simp)
      (fun queue _ => by simp) (fun queue hqueue => hnone queue (by simpa using hqueue)) hunmarked⟩

variable {s' : OutstandingData × σ}

theorem LossStep.accounted (hstep : LossStep discard s s')
    (h : Accounted s.1) : Accounted s'.1 := by
  cases hstep with
  | nack retransmitNow doFast held => exact nackItem_accounted discard h held retransmitNow doFast
  | expire now held _ _ => exact abandonAllFor_accounted discard h _

theorem accounted_of_lossSteps
    (hsteps : ReflTransGen (LossStep discard) s s') (h : Accounted s.1) : Accounted s'.1 := by
  induction hsteps with
  | refl => exact h
  | tail _ hstep ih => exact hstep.accounted discard ih

theorem RetransmitStep.accounted {queue : Queue} (hstep : RetransmitStep queue d d')
    (h : Accounted d) : Accounted d' := by
  cases hstep with
  | @retransmit tsn item held hin =>
  have hmarked : item.shouldBeRetransmitted = true := by
    obtain ⟨item', held', hmarked⟩ := (h.marked.waiting tsn).mp ⟨queue, hin⟩
    cases held.symm.trans held'
    exact hmarked
  have hlanded := of_decide_eq_true (h.marked.nacked held hmarked)
  have hmem : ∀ {t : Int} {queue' : Queue}, t ∈ (d.retransmit queue tsn item).chunksIn queue' ↔
      t ∈ d.chunksIn queue' ∧ ¬ (t = tsn ∧ queue' = queue) := by
    intro t queue'
    rw [OutstandingData.retransmit, mem_eraseFrom, chunksIn_addUnacked, chunksIn_modifyItem]
  refine ⟨?_, h.marked.unmark held (outstandingData_retransmit ..) ?_ (fun queue' hqueue' => ?_) rfl⟩
  · have hshare : ∀ g : Data → Nat,
        (d.outstandingData.modify tsn markAsRetransmitted).total (inFlight g) =
          d.outstandingData.total (inFlight g) + g item.data := by
      intro g
      have htotal := total_modify held markAsRetransmitted (inFlight g)
      have hbefore : inFlight g item = 0 := by simp [inFlight, isOutstanding, hlanded]
      have hafter : inFlight g item.markAsRetransmitted = g item.data := rfl
      omega
    have hcounted : Counted ((d.modifyItem tsn markAsRetransmitted).addUnacked item.data) :=
      h.counted.addUnacked hshare rfl
    cases queue <;> exact { hcounted with }
  · intro t queue' ht
    simp [hmem, ht]
  · obtain ⟨hin', hother⟩ := hmem.mp hqueue'
    exact hother ⟨rfl, h.marked.once hin' hin⟩

end Steps

section Runs

variable {d : OutstandingData}

inductive Call where
  | insert (messageId : OutgoingMessageId) (data : Data) (timeSent : Timestamp)
      (maxRetransmissions : MaxRetransmits) (expiresAt : Timestamp) (lifecycleId : LifecycleId)
  | handleSack (cumulativeTsnAck : Int) (gapAckBlocks : List GapAckBlock)
      (isInFastRecovery : Bool)
  | nackAll
  | expireOutstandingChunks (now : Timestamp)
  | getChunksToBeFastRetransmitted (maxSize : Nat)
  | getChunksToBeRetransmitted (maxSize : Nat)
  | beginResetStreams

variable {σ : Type} {s : OutstandingData × σ}
  (discard : σ → StreamID → OutgoingMessageId → Bool × σ)

def perform (s : OutstandingData × σ) : Call → OutstandingData × σ
  | .insert messageId data timeSent maxRetransmissions expiresAt lifecycleId =>
    (insertChunk discard messageId data timeSent maxRetransmissions expiresAt lifecycleId s).2
  | .handleSack cumulativeTsnAck gapAckBlocks isInFastRecovery =>
    (OutstandingData.handleSack discard cumulativeTsnAck gapAckBlocks isInFastRecovery s).2
  | .nackAll => OutstandingData.nackAll discard s
  | .expireOutstandingChunks now => OutstandingData.expireOutstandingChunks discard now s
  | .getChunksToBeFastRetransmitted maxSize =>
    ((s.1.getChunksToBeFastRetransmitted maxSize).2, s.2)
  | .getChunksToBeRetransmitted maxSize => ((s.1.getChunksToBeRetransmitted maxSize).2, s.2)
  | .beginResetStreams => (s.1.beginResetStreams, s.2)

/-- A SACK is handled only when it acknowledges what was sent and no chunk waits for a fast
retransmission. -/
def Admissible (d : OutstandingData) : Call → Prop
  | .handleSack cumulativeTsnAck _ _ =>
    d.lastCumulativeTsnAck ≤ cumulativeTsnAck ∧ cumulativeTsnAck ≤ d.highestOutstandingTsn ∧
      d.toBeFastRetransmitted = ∅
  | _ => True

/-- The states that sequences of admissible calls lead to. -/
inductive Reachable (headerSize : Nat) (initialTsn : Int) (queue : σ) :
    OutstandingData × σ → Prop
  | initial : Reachable headerSize initialTsn queue (initial headerSize initialTsn, queue)
  | call {s : OutstandingData × σ} (c : Call) (reached : Reachable headerSize initialTsn queue s)
      (admissible : Admissible s.1 c) : Reachable headerSize initialTsn queue (perform discard s c)

theorem insertChunk_accounted (h : Accounted s.1) (messageId : OutgoingMessageId) (data : Data)
    (timeSent : Timestamp) (maxRetransmissions : MaxRetransmits) (expiresAt : Timestamp)
    (lifecycleId : LifecycleId) :
    Accounted (insertChunk discard messageId data timeSent maxRetransmissions expiresAt lifecycleId
      s).2.1 := by
  generalize hitem : ({ messageId, data, timeSent, maxRetransmissions, expiresAt, lifecycleId } :
    Item) = item
  have hpushed : Accounted ((s.1.addUnacked data).pushItem item) := by
    have hmarked : Marked (s.1.pushItem item) := h.marked.push (by rw [← hitem]; rfl)
    refine ⟨h.counted.addUnacked ?_ rfl, ⟨?_, ?_, hmarked.nacked⟩⟩
    · intro g
      refine (total_push ..).trans ?_
      rw [← hitem]
      rfl
    · simpa using hmarked.waiting
    · simpa using @hmarked.once
  unfold insertChunk
  dsimp only
  rw [hitem]
  split_ifs
  · exact abandonAllFor_accounted discard hpushed item
  · exact hpushed

theorem Marked.held (h : Marked d) (queue : Queue) :
    ∀ tsn ∈ d.chunksIn queue, ∃ item, d.outstandingData.get? tsn = some item := by
  intro tsn hin
  obtain ⟨item, held, -⟩ := (h.waiting tsn).mp ⟨queue, hin⟩
  exact ⟨item, held⟩

theorem extractChunksThatCanFit_accounted (h : Accounted d) (queue : Queue) (maxSize : Nat) :
    Accounted (d.extractChunksThatCanFit queue maxSize).2 := by
  have hsteps := (extractChunksThatCanFit_steps queue maxSize (h.marked.held queue)).1
  generalize (d.extractChunksThatCanFit queue maxSize).2 = d' at hsteps ⊢
  induction hsteps with
  | refl => exact h
  | tail _ hstep ih => exact hstep.accounted ih

theorem getChunksToBeFastRetransmitted_accounted (h : Accounted d) (maxSize : Nat) :
    Accounted (d.getChunksToBeFastRetransmitted maxSize).2 := by
  have hextracted := extractChunksThatCanFit_accounted h .fast maxSize
  refine ⟨{ hextracted.counted with }, ⟨?_, ?_, hextracted.marked.nacked⟩⟩
  · intro tsn
    refine Iff.trans ?_ (mem_union_iff.trans (hextracted.marked.waiting tsn))
    constructor
    · rintro ⟨queue, hqueue⟩
      cases queue with
      | fast => exact absurd hqueue (Finset.notMem_empty tsn)
      | timer => exact hqueue
    · exact fun hin => ⟨.timer, hin⟩
  · intro tsn queue queue' hqueue hqueue'
    cases queue with
    | fast => exact absurd hqueue (Finset.notMem_empty tsn)
    | timer =>
      cases queue' with
      | fast => exact absurd hqueue' (Finset.notMem_empty tsn)
      | timer => rfl

theorem perform_accounted (h : Accounted s.1) {c : Call} (admissible : Admissible s.1 c) :
    Accounted (perform discard s c).1 := by
  cases c with
  | insert => exact insertChunk_accounted discard h ..
  | handleSack cumulativeTsnAck blocks isInFastRecovery =>
    obtain ⟨lower, upper, slow⟩ := admissible
    have hack := acknowledge_spec blocks lower upper
    exact accounted_of_lossSteps discard
      (handleSack_steps discard blocks isInFastRecovery lower upper)
      (accounted_of_ackSteps hack.steps h slow).1
  | nackAll => exact accounted_of_lossSteps discard (nackAll_steps discard s) h
  | expireOutstandingChunks now =>
    exact accounted_of_lossSteps discard (expireLoop_steps discard now _ _ s) h
  | getChunksToBeFastRetransmitted maxSize =>
    exact getChunksToBeFastRetransmitted_accounted h maxSize
  | getChunksToBeRetransmitted maxSize => exact extractChunksThatCanFit_accounted h .timer maxSize
  | beginResetStreams =>
    exact ⟨{ h.counted with }, { h.marked with }⟩

theorem Reachable.accounted {headerSize : Nat} {initialTsn : Int} {queue : σ}
    (h : Reachable discard headerSize initialTsn queue s) : Accounted s.1 := by
  induction h with
  | initial => exact accounted_initial headerSize initialTsn
  | call c _ admissible ih => exact perform_accounted discard ih admissible

theorem sum_map_filter (g : Data → Nat) (items : List Item) :
    ((items.filter isOutstanding).map fun item => g item.data).sum =
      (items.map (inFlight g)).sum := by
  induction items with
  | nil => rfl
  | cons item rest ih =>
    rw [List.filter_cons]
    split_ifs with hout
    · simp [ih, inFlight, hout]
    · simp [ih, inFlight, hout]

theorem mem_markedTsns (w : Window Item) (tsn : Int) :
    tsn ∈ ((w.items.zipIdx.filter fun e => e.1.shouldBeRetransmitted).map
        fun e => w.base + 1 + (e.2 : Int)).toFinset ↔
      ∃ item, w.get? tsn = some item ∧ item.shouldBeRetransmitted = true := by
  rw [List.mem_toFinset, List.mem_map]
  constructor
  · rintro ⟨⟨item, i⟩, hmem, rfl⟩
    obtain ⟨hmem, hmarked⟩ := List.mem_filter.mp hmem
    refine ⟨item, ?_, hmarked⟩
    have hindex : (w.base + 1 + (i : Int) - w.base - 1).toNat = i := by omega
    rw [Window.get?, if_pos (by omega), hindex]
    exact List.mem_zipIdx_iff_getElem?.mp hmem
  · rintro ⟨item, hget, hmarked⟩
    have hbase := (bounds_of_get? hget).1
    rw [Window.get?, if_pos hbase] at hget
    refine ⟨(item, (tsn - w.base - 1).toNat), List.mem_filter.mpr ⟨?_, hmarked⟩, by omega⟩
    exact List.mem_zipIdx_iff_getElem?.mpr hget

theorem Accounted.isConsistent (h : Accounted d) : d.isConsistent = true := by
  have hitems : (d.outstandingData.items.filter isOutstanding).length = d.unackedItems := by
    rw [h.counted.items, Window.total, ← sum_map_filter]
    simp
  have hset : ((d.outstandingData.items.zipIdx.filter fun e => e.1.shouldBeRetransmitted).map
      fun e => d.lastCumulativeTsnAck + 1 + (e.2 : Int)).toFinset =
        d.toBeRetransmitted ∪ d.toBeFastRetransmitted := by
    ext tsn
    rw [mem_union_iff, h.marked.waiting]
    exact mem_markedTsns d.outstandingData tsn
  simp only [OutstandingData.isConsistent, Bool.and_eq_true, decide_eq_true_eq]
  refine ⟨⟨⟨?_, ?_⟩, hitems⟩, hset⟩
  · rw [sum_map_filter, h.counted.payload, Window.total]
  · rw [sum_map_filter, h.counted.packet, Window.total]

end Runs

section Witness

def singleFragment (payload : List UInt8) : Data where
  streamId := 1
  ssn := 0
  mid := 0
  fsn := 0
  ppid := 53
  payload := payload
  isBeginning := true
  isEnd := true
  isUnordered := false

def insertSingle (messageId : OutgoingMessageId) (payload : List UInt8) : Call :=
  .insert messageId (singleFragment payload) (.finite 0) MaxRetransmits.noLimit .plusInfinity 0

def keepAll (_ : Unit) (_ : StreamID) (_ : OutgoingMessageId) : Bool × Unit := (false, ())

/-- Two chunks are sent, the second is acknowledged in a gap block, and the timer expires. -/
def stateWithLoss : OutstandingData × Unit :=
  [insertSingle 0 [1], insertSingle 1 [2], .handleSack 0 [⟨2, 2⟩] false, .nackAll].foldl
    (perform keepAll) (initial 16 0, ())

end Witness

end OutstandingData

end Dcsctp
