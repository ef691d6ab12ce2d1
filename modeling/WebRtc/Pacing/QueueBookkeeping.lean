import WebRtc.Pacing.PrioritizedPacketQueue

/-!
# The bookkeeping of the prioritized packet queue

The contents of the queue are the multiset of the packets in its stream queues. The counters are
stated against any multiset, so that they can be followed while a packet is on its way out of a
stream queue or into one.
-/

namespace Pacing

open StreamQueue List Function

variable {β : Type}

namespace StreamQueue

variable {s : StreamQueue β}

def contents (s : StreamQueue β) : Multiset (QueuedPacket β) :=
  ∑ level, (s.packets level : Multiset (QueuedPacket β))

theorem contents_update {s' : StreamQueue β} {level : PrioLevel} {packets : List (QueuedPacket β)}
    (h : s'.packets = Function.update s.packets level packets) :
    s'.contents + s.packets level = s.contents + (packets : Multiset (QueuedPacket β)) := by
  unfold contents
  rw [← Finset.add_sum_erase _ _ (Finset.mem_univ level), h,
    ← Finset.add_sum_erase _ (fun l => (s.packets l : Multiset (QueuedPacket β)))
      (Finset.mem_univ level)]
  have hothers : ∑ l ∈ Finset.univ.erase level,
      (update s.packets level packets l : Multiset (QueuedPacket β)) =
      ∑ l ∈ Finset.univ.erase level, (s.packets l : Multiset (QueuedPacket β)) := by
    refine Finset.sum_congr rfl fun l hl => ?_
    rw [update_of_ne (Finset.ne_of_mem_erase hl)]
  rw [hothers, update_self]
  abel

theorem contents_eq_zero (h : ∀ level, s.packets level = []) : s.contents = 0 := by
  exact Finset.sum_eq_zero fun level _ => by rw [h level]; rfl

theorem isEmpty_iff : s.isEmpty = true ↔ ∀ level, s.packets level = [] := by
  simp [isEmpty]

end StreamQueue

namespace PrioritizedPacketQueue

variable {q q' : PrioritizedPacketQueue β} {ssrc : BitVec 32} {s : StreamQueue β}
  {level : PrioLevel} {x : QueuedPacket β} {rest : List (QueuedPacket β)}
  {all : Multiset (QueuedPacket β)} {extra : Multiset EnqueueNode} {now t : Int}

def queued (q : PrioritizedPacketQueue β) : Multiset (QueuedPacket β) :=
  q.streams.sumOver fun _ s => s.contents

theorem packets_of_find? (h : q.streams.find? ssrc = some s) (level : PrioLevel) :
    q.packets ssrc level = s.packets level := by
  rw [packets, h]

theorem exists_stream (h : q.packets ssrc level ≠ []) : ∃ s, q.streams.find? ssrc = some s := by
  cases hs : q.streams.find? ssrc with
  | none =>
    rw [packets, hs] at h
    exact absurd rfl h
  | some s => exact ⟨s, rfl⟩

variable {g : StreamQueue β → StreamQueue β} {packets : List (QueuedPacket β)}
  {q'' : PrioritizedPacketQueue β} {node : EnqueueNode}

variable (q)

theorem packets_modify (hs : q.streams.find? ssrc = some s)
    (hg : (g s).packets = Function.update s.packets level packets) (ssrc' : BitVec 32)
    (level' : PrioLevel) :
    PrioritizedPacketQueue.packets { q with streams := q.streams.modify ssrc g } ssrc' level' =
      if ssrc' = ssrc ∧ level' = level then packets else q.packets ssrc' level' := by
  unfold PrioritizedPacketQueue.packets
  rw [OrdMap.find?_modify]
  by_cases hssrc : ssrc' = ssrc
  · subst hssrc
    rw [if_pos rfl, hs]
    change (g s).packets level' = _
    rw [hg]
    by_cases hlevel : level' = level
    · rw [hlevel, update_self, if_pos ⟨rfl, rfl⟩]
    · rw [update_of_ne hlevel, if_neg fun h => hlevel h.2]
  · rw [if_neg hssrc, if_neg fun h => hssrc h.1]

theorem queued_modify (hs : q.streams.find? ssrc = some s)
    (hg : (g s).packets = Function.update s.packets level packets) :
    queued { q with streams := q.streams.modify ssrc g } + (s.packets level) =
      q.queued + (packets : Multiset (QueuedPacket β)) := by
  have hmem := (q.streams.find?_eq_some_iff ssrc s).mp hs
  unfold queued
  rw [q.streams.sumOver_modify hmem, q.streams.sumOver_erase hmem, add_right_comm,
    contents_update hg, add_right_comm]

variable {q}

theorem queued_dequeuePacket (h : q.packets ssrc level = x :: rest) :
    q.queued = x ::ₘ (q.dequeuePacket ssrc level x).queued := by
  obtain ⟨s, hs⟩ := exists_stream (q := q) (by rw [h]; exact nofun)
  rw [packets_of_find? hs] at h
  have hsum := q.queued_modify (g := fun s => s.dequeuePacket x level) hs rfl
  rw [h, ← Multiset.cons_coe, Multiset.add_cons, ← Multiset.cons_add] at hsum
  exact (add_right_cancel hsum).symm

theorem packets_dequeuePacket (h : q.packets ssrc level = x :: rest) (ssrc' : BitVec 32)
    (level' : PrioLevel) :
    (q.dequeuePacket ssrc level x).packets ssrc' level' =
      if ssrc' = ssrc ∧ level' = level then rest else q.packets ssrc' level' := by
  obtain ⟨s, hs⟩ := exists_stream (q := q) (by rw [h]; exact nofun)
  have hpackets := q.packets_modify (g := fun s => s.dequeuePacket x level) hs rfl ssrc' level'
  rw [packets_of_find? hs] at h
  rw [h] at hpackets
  exact hpackets

theorem queued_eq_zero (h : ∀ ssrc level, q.packets ssrc level = []) : q.queued = 0 := by
  refine sum_eq_zero fun contents hmem => ?_
  obtain ⟨⟨ssrc, s⟩, he, rfl⟩ := mem_map.mp hmem
  have hs := (q.streams.find?_eq_some_iff ssrc s).mpr he
  exact contents_eq_zero fun level => by rw [← packets_of_find? hs, h]

theorem mem_queued (h : x ∈ q.packets ssrc level) : x ∈ q.queued := by
  obtain ⟨s, hs⟩ := exists_stream (ne_nil_of_mem h)
  rw [packets_of_find? hs] at h
  rw [queued, q.streams.sumOver_erase ((q.streams.find?_eq_some_iff ssrc s).mp hs)]
  refine Multiset.mem_add.mpr (.inl ?_)
  rw [contents, ← Finset.add_sum_erase _ _ (Finset.mem_univ level)]
  exact Multiset.mem_add.mpr (.inl h)

/-- The counters and the enqueue times are those of a multiset of packets, with more nodes. -/
structure Counts (q : PrioritizedPacketQueue β) (all : Multiset (QueuedPacket β))
    (extra : Multiset EnqueueNode) : Prop where
  size : q.sizePackets = all.card
  types : ∀ type, q.sizePacketsPerMediaType type =
    (all.countP fun x => x.packet.packetType = type : Nat)
  payload : q.sizePayload = (all.map QueuedPacket.packetSize).sum
  timeSum : q.queueTimeSum = (all.map q.timeInNonPausedState).sum
  nodes : (q.enqueueTimes : Multiset EnqueueNode) = all.map QueuedPacket.enqueueTimeIterator + extra

theorem Counts.dequeuePacketInternal (h : Counts q (x ::ₘ all) extra) :
    Counts (q.dequeuePacketInternal x) all extra where
  size := by
    have := h.size
    rw [Multiset.card_cons] at this
    change q.sizePackets - 1 = _
    omega
  types type := by
    have := h.types type
    change update q.sizePacketsPerMediaType _ _ type = _
    rw [Multiset.countP_cons] at this
    by_cases htype : x.packet.packetType = type
    · rw [if_pos htype] at this
      rw [htype, update_self]
      omega
    · rw [if_neg htype, Nat.add_zero] at this
      rw [update_of_ne (Ne.symm htype), this]
  payload := by
    have := h.payload
    rw [Multiset.map_cons, Multiset.sum_cons] at this
    change q.sizePayload - x.packetSize = _
    omega
  timeSum := by
    have := h.timeSum
    rw [Multiset.map_cons, Multiset.sum_cons] at this
    change q.queueTimeSum - q.timeInNonPausedState x = (all.map q.timeInNonPausedState).sum
    omega
  nodes := by
    have := h.nodes
    rw [Multiset.map_cons, Multiset.cons_add] at this
    change (q.enqueueTimes.erase x.enqueueTimeIterator : Multiset EnqueueNode) = _
    rw [← Multiset.coe_erase, this, Multiset.erase_cons_head]

theorem Counts.foldl_dequeuePacketInternal {removed : List (QueuedPacket β)}
    (h : Counts q (removed + all) extra) :
    Counts (removed.foldl PrioritizedPacketQueue.dequeuePacketInternal q) all extra := by
  induction removed generalizing q with
  | nil => simpa using h
  | cons x removed ih =>
    apply ih
    apply Counts.dequeuePacketInternal
    rwa [← Multiset.cons_coe, Multiset.cons_add] at h

/-- The part of the time from `t` on in which the queue was not paused. -/
def unpausedSince (timeline : List Period) (t : Int) : Int :=
  (timeline.map fun period =>
    if period.paused then 0 else max 0 (period.stop - max period.start t)).sum

def pushTime (x : QueuedPacket β) : Int := x.enqueueTimeIterator.time

/-- Every packet was pushed before the last update, and the time in non-paused state is right. -/
structure Clock (q : PrioritizedPacketQueue β) : Prop where
  pushed : ∀ x ∈ q.queued, pushTime x ≤ q.lastUpdateTime
  waiting : ∀ x ∈ q.queued, q.timeInNonPausedState x = unpausedSince q.timeline (pushTime x)
  periods : ∀ period ∈ q.timeline, period.start ≤ period.stop ∧ period.stop ≤ q.lastUpdateTime

/-- The stream queues and the enqueue times are in the order of the pushes. -/
structure Ordered (q : PrioritizedPacketQueue β) : Prop where
  fifo : ∀ ssrc level, (q.packets ssrc level).Pairwise fun x y => pushTime x ≤ pushTime y
  times : q.enqueueTimes.Pairwise fun m n => m.time ≤ n.time

structure Shrinks (q q' : PrioritizedPacketQueue β) : Prop where
  lastUpdateTime : q'.lastUpdateTime = q.lastUpdateTime
  pauseTimeSum : q'.pauseTimeSum = q.pauseTimeSum
  timeline : q'.timeline = q.timeline
  queued : q'.queued ≤ q.queued
  enqueueTimes : q'.enqueueTimes.Sublist q.enqueueTimes
  packets : ∀ ssrc level, (q'.packets ssrc level).Sublist (q.packets ssrc level)

theorem Shrinks.refl (q : PrioritizedPacketQueue β) : Shrinks q q :=
  ⟨rfl, rfl, rfl, le_rfl, List.Sublist.refl _, fun _ _ => List.Sublist.refl _⟩

theorem Shrinks.trans (h : Shrinks q q') (h' : Shrinks q' q'') : Shrinks q q'' where
  lastUpdateTime := h'.lastUpdateTime.trans h.lastUpdateTime
  pauseTimeSum := h'.pauseTimeSum.trans h.pauseTimeSum
  timeline := h'.timeline.trans h.timeline
  queued := h'.queued.trans h.queued
  enqueueTimes := h'.enqueueTimes.trans h.enqueueTimes
  packets ssrc level := (h'.packets ssrc level).trans (h.packets ssrc level)

theorem Clock.shrinks (h : Clock q) (hs : Shrinks q q') : Clock q' where
  pushed x hx := by
    rw [hs.lastUpdateTime]
    exact h.pushed x (Multiset.mem_of_le hs.queued hx)
  waiting x hx := by
    have hx' := h.waiting x (Multiset.mem_of_le hs.queued hx)
    rw [timeInNonPausedState, hs.lastUpdateTime, hs.pauseTimeSum, hs.timeline]
    exact hx'
  periods period hmem := by
    rw [hs.timeline] at hmem
    rw [hs.lastUpdateTime]
    exact h.periods period hmem

theorem Ordered.shrinks (h : Ordered q) (hs : Shrinks q q') : Ordered q' where
  fifo ssrc level := (h.fifo ssrc level).sublist (hs.packets ssrc level)
  times := h.times.sublist hs.enqueueTimes

theorem shrinks_dequeue (h : q.packets ssrc level = x :: rest) :
    Shrinks q ((q.dequeuePacket ssrc level x).dequeuePacketInternal x) where
  lastUpdateTime := rfl
  pauseTimeSum := rfl
  timeline := rfl
  queued := by
    rw [queued_dequeuePacket h]
    exact Multiset.le_cons_self _ x
  enqueueTimes := erase_sublist
  packets ssrc' level' := by
    change ((q.dequeuePacket ssrc level x).packets ssrc' level').Sublist _
    rw [packets_dequeuePacket h]
    split
    · rename_i heq
      rw [heq.1, heq.2, h]
      exact sublist_cons_self x rest
    · exact List.Sublist.refl _

/-- A level lists the streams that have packets at it, each once. -/
structure ListedAt (q : PrioritizedPacketQueue β) (level : PrioLevel) : Prop where
  nodup : (q.streamsByPrio level).Nodup
  mem : ∀ ssrc, ssrc ∈ q.streamsByPrio level ↔ q.packets ssrc level ≠ []

theorem ListedAt.packets_eq_nil (h : ListedAt q level) (hempty : q.streamsByPrio level = [])
    (ssrc : BitVec 32) : q.packets ssrc level = [] := by
  by_contra hne
  have := (h.mem ssrc).mpr hne
  rw [hempty] at this
  cases this

theorem ListedAt.eq_nil (h : ListedAt q level) (hempty : ∀ ssrc, q.packets ssrc level = []) :
    q.streamsByPrio level = [] := by
  rw [eq_nil_iff_forall_not_mem]
  intro ssrc hmem
  exact (h.mem ssrc).mp hmem (hempty ssrc)

theorem ListedAt.shrinks_nil (h : ListedAt q level) (h' : ListedAt q' level) (hs : Shrinks q q')
    (hempty : q.streamsByPrio level = []) : q'.streamsByPrio level = [] := by
  refine h'.eq_nil fun ssrc => ?_
  have hsub := hs.packets ssrc level
  rw [h.packets_eq_nil hempty ssrc] at hsub
  exact sublist_nil.mp hsub

structure PurgesAt (level : PrioLevel) (q q' : PrioritizedPacketQueue β) : Prop where
  shrinks : Shrinks q q'
  packets : ∀ ssrc level', level' ≠ level → q'.packets ssrc level' = q.packets ssrc level'
  streamsByPrio : ∀ level', level' ≠ level → q'.streamsByPrio level' = q.streamsByPrio level'
  topActivePrioLevel : q'.topActivePrioLevel = q.topActivePrioLevel
  paused : q'.paused = q.paused
  find? : ∀ ssrc, (q'.streams.find? ssrc).isSome = (q.streams.find? ssrc).isSome

theorem PurgesAt.refl (level : PrioLevel) (q : PrioritizedPacketQueue β) : PurgesAt level q q :=
  ⟨Shrinks.refl q, fun _ _ _ => rfl, fun _ _ => rfl, rfl, rfl, fun _ => rfl⟩

theorem PurgesAt.trans (h : PurgesAt level q q')
    (h' : PurgesAt level q' q'') : PurgesAt level q q'' where
  shrinks := h.shrinks.trans h'.shrinks
  packets ssrc level' hne := (h'.packets ssrc level' hne).trans (h.packets ssrc level' hne)
  streamsByPrio level' hne := (h'.streamsByPrio level' hne).trans (h.streamsByPrio level' hne)
  topActivePrioLevel := h'.topActivePrioLevel.trans h.topActivePrioLevel
  paused := h'.paused.trans h.paused
  find? ssrc := (h'.find? ssrc).trans (h.find? ssrc)

theorem PurgesAt.listedAt (h : PurgesAt level q q') {level' : PrioLevel} (hne : level' ≠ level)
    (hl : ListedAt q level') : ListedAt q' level' where
  nodup := by
    rw [h.streamsByPrio level' hne]
    exact hl.nodup
  mem ssrc := by
    rw [h.streamsByPrio level' hne, h.packets ssrc level' hne]
    exact hl.mem ssrc

theorem purgesAt_dequeue (h : q.packets ssrc level = x :: rest) :
    PurgesAt level q ((q.dequeuePacket ssrc level x).dequeuePacketInternal x) where
  shrinks := shrinks_dequeue h
  packets ssrc' level' hne := by
    change (q.dequeuePacket ssrc level x).packets ssrc' level' = _
    rw [packets_dequeuePacket h, if_neg fun heq => hne heq.2]
  streamsByPrio _ _ := rfl
  topActivePrioLevel := rfl
  paused := rfl
  find? ssrc' := by
    change ((q.streams.modify ssrc _).find? ssrc').isSome = _
    rw [OrdMap.find?_modify]
    split
    · exact Option.isSome_map
    · rfl

theorem counts_dequeue (hc : Counts q q.queued extra) (h : q.packets ssrc level = x :: rest) :
    Counts ((q.dequeuePacket ssrc level x).dequeuePacketInternal x)
      ((q.dequeuePacket ssrc level x).dequeuePacketInternal x).queued extra := by
  rw [queued_dequeuePacket h] at hc
  exact ({ hc with } : Counts (q.dequeuePacket ssrc level x) _ _).dequeuePacketInternal

theorem purgeStream_spec (level : PrioLevel) (now timeToLive : Int) (ssrc : BitVec 32) (fuel : Nat)
    (q : PrioritizedPacketQueue β) (hc : Counts q q.queued extra) :
    let q' := purgeStream level now timeToLive ssrc fuel q
    Counts q' q'.queued extra ∧ PurgesAt level q q' ∧ q'.streamsByPrio = q.streamsByPrio ∧
      ∀ ssrc', ssrc' ≠ ssrc → q'.packets ssrc' level = q.packets ssrc' level := by
  fun_induction purgeStream level now timeToLive ssrc fuel q with
  | case1 q => exact ⟨hc, PurgesAt.refl level q, rfl, fun _ _ => rfl⟩
  | case2 fuel q hnone => exact ⟨hc, PurgesAt.refl level q, rfl, fun _ _ => rfl⟩
  | case3 fuel q x rest hpackets hold ih =>
    obtain ⟨hcounts, hpurges, hlists, hothers⟩ := ih (counts_dequeue hc hpackets)
    refine ⟨hcounts, (purgesAt_dequeue hpackets).trans hpurges, hlists, fun ssrc' hne => ?_⟩
    rw [hothers ssrc' hne]
    change (q.dequeuePacket ssrc level x).packets ssrc' level = _
    rw [packets_dequeuePacket hpackets, if_neg fun heq => hne heq.1]
  | case4 fuel q x rest hpackets hyoung => exact ⟨hc, PurgesAt.refl level q, rfl, fun _ _ => rfl⟩

theorem listedAt_erase (h : ListedAt q level) (hpurged : q'.packets ssrc level = [])
    (hothers : ∀ ssrc', ssrc' ≠ ssrc → q'.packets ssrc' level = q.packets ssrc' level)
    (hlist : q'.streamsByPrio level = (q.streamsByPrio level).erase ssrc) : ListedAt q' level where
  nodup := by
    rw [hlist]
    exact h.nodup.erase ssrc
  mem ssrc' := by
    rw [hlist, h.nodup.mem_erase_iff]
    by_cases heq : ssrc' = ssrc
    · rw [heq, hpurged]
      simp
    · rw [hothers ssrc' heq, h.mem ssrc']
      simp [heq]

theorem purgeQueues_spec (level : PrioLevel) (now timeToLive : Int) (fuel i : Nat)
    (q : PrioritizedPacketQueue β) (hc : Counts q q.queued extra) (hl : ListedAt q level) :
    let q' := purgeQueues level now timeToLive fuel i q
    Counts q' q'.queued extra ∧ PurgesAt level q q' ∧ ListedAt q' level := by
  induction fuel generalizing i q with
  | zero => exact ⟨hc, PurgesAt.refl level q, hl⟩
  | succ fuel ih =>
    rw [purgeQueues]
    split
    · exact ⟨hc, PurgesAt.refl level q, hl⟩
    · rename_i ssrc hat
      obtain ⟨hcounts, hpurges, hlists, hothers⟩ := purgeStream_spec level now timeToLive ssrc
        (q.packets ssrc level).length q hc
      generalize hq₁ : purgeStream level now timeToLive ssrc (q.packets ssrc level).length q = q₁
        at hcounts hpurges hlists hothers
      dsimp only
      rw [hasPacketsAtPrio, Bool.not_not]
      split
      · rename_i hempty
        -- the iterator stands at the only entry of the stream
        obtain ⟨hi, hget⟩ := List.getElem?_eq_some_iff.mp hat
        have herase : (q₁.streamsByPrio level).eraseIdx i = (q.streamsByPrio level).erase ssrc := by
          rw [hlists, ← hget, hl.nodup.erase_getElem]
        generalize hq₂ : ({ q₁ with
          streamsByPrio := update q₁.streamsByPrio level
            ((q₁.streamsByPrio level).eraseIdx i) } : PrioritizedPacketQueue β) = q₂
        have hcounts₂ : Counts q₂ q₂.queued extra := by
          subst hq₂
          exact { hcounts with }
        have hpurges₂ : PurgesAt level q₁ q₂ := by
          subst hq₂
          exact
            { shrinks := { Shrinks.refl q₁ with }
              packets _ _ _ := rfl
              streamsByPrio level' hne := update_of_ne hne _ _
              topActivePrioLevel := rfl
              paused := rfl
              find? _ := rfl }
        have hlisted₂ : ListedAt q₂ level := by
          subst hq₂
          refine listedAt_erase hl (List.isEmpty_iff.mp hempty) hothers ?_
          exact (update_self ..).trans herase
        obtain ⟨hc', hp', hl'⟩ := ih i q₂ hcounts₂ hlisted₂
        exact ⟨hc', (hpurges.trans hpurges₂).trans hp', hl'⟩
      · rename_i hleft
        have hlisted₁ : ListedAt q₁ level := by
          refine ⟨hlists ▸ hl.nodup, fun ssrc' => ?_⟩
          rw [hlists]
          by_cases heq : ssrc' = ssrc
          · subst heq
            have hleft' : q₁.packets ssrc' level ≠ [] := fun h => hleft (List.isEmpty_iff.mpr h)
            exact iff_of_true (List.mem_of_getElem? hat) hleft'
          · rw [hothers ssrc' heq, hl.mem ssrc']
        obtain ⟨hc', hp', hl'⟩ := ih (i + 1) q₁ hcounts hlisted₁
        exact ⟨hc', hpurges.trans hp', hl'⟩

variable (q)

def Listing : Prop := ∀ level, ListedAt q level

theorem purge_spec (level : PrioLevel) (now : Int) (hc : Counts q q.queued extra) (hl : Listing q) :
    let q' := q.purgeOldPacketsAtPriorityLevel level now
    Counts q' q'.queued extra ∧ PurgesAt level q q' ∧ Listing q' := by
  unfold purgeOldPacketsAtPriorityLevel
  split
  · rename_i timeToLive _
    obtain ⟨hcounts, hpurges, hlisted⟩ := purgeQueues_spec level now timeToLive
      (q.streamsByPrio level).length 0 q hc (hl level)
    refine ⟨hcounts, hpurges, fun level' => ?_⟩
    by_cases heq : level' = level
    · rw [heq]
      exact hlisted
    · exact hpurges.listedAt heq (hl level')
  · exact ⟨hc, PurgesAt.refl level q, hl⟩

def TopLaw : Prop :=
  match q.topActivePrioLevel with
  | none => ∀ level, q.streamsByPrio level = []
  | some top => q.streamsByPrio top ≠ [] ∧ ∀ level < top, q.streamsByPrio level = []

def TopBound : Prop :=
  ∀ top ∈ q.topActivePrioLevel, ∀ level < top, q.streamsByPrio level = []

variable {q}

theorem TopLaw.bound (h : TopLaw q) : TopBound q := by
  intro top htop level hlt
  rw [TopLaw, Option.mem_def.mp htop] at h
  exact h.2 level hlt

theorem queued_eq_zero_iff (hl : Listing q) :
    q.queued = 0 ↔ ∀ level, q.streamsByPrio level = [] := by
  constructor
  · intro hzero level
    refine (hl level).eq_nil fun ssrc => ?_
    rw [eq_nil_iff_forall_not_mem]
    intro x hx
    have := mem_queued hx
    rw [hzero] at this
    exact Multiset.notMem_zero x this
  · intro hempty
    exact queued_eq_zero fun ssrc level => (hl level).packets_eq_nil (hempty level) ssrc

theorem sizePackets_eq_zero_iff (hc : Counts q q.queued extra) (hl : Listing q) :
    q.sizePackets = 0 ↔ ∀ level, q.streamsByPrio level = [] := by
  rw [hc.size, ← queued_eq_zero_iff hl, Nat.cast_eq_zero, Multiset.card_eq_zero]

/-- The search through some levels: it stops at the first one with packets left. -/
theorem searchTopPrioLevel_spec (levels : List PrioLevel) (q : PrioritizedPacketQueue β)
    (hc : Counts q q.queued extra) (hl : Listing q) : let q' := searchTopPrioLevel levels q
    Counts q' q'.queued extra ∧ Shrinks q q' ∧ Listing q' ∧
      ((∃ before level after, levels = before ++ level :: after ∧
          q'.topActivePrioLevel = some level ∧ q'.streamsByPrio level ≠ [] ∧
          ∀ level' ∈ before, q'.streamsByPrio level' = []) ∨
        ∀ level ∈ levels, q'.streamsByPrio level = []) := by
  induction levels generalizing q with
  | nil => exact ⟨hc, Shrinks.refl q, hl, .inr nofun⟩
  | cons level levels ih =>
    rw [searchTopPrioLevel]
    obtain ⟨hcounts, hpurges, hlisting⟩ := purge_spec q level q.lastUpdateTime hc hl
    generalize q.purgeOldPacketsAtPriorityLevel level q.lastUpdateTime = q₁
      at hcounts hpurges hlisting
    split
    · rename_i hempty
      have hnil := isEmpty_iff.mp hempty
      obtain ⟨hc', hs', hl', hfound⟩ := ih q₁ hcounts hlisting
      have hstill := (hlisting level).shrinks_nil (hl' level) hs' hnil
      refine ⟨hc', hpurges.shrinks.trans hs', hl', ?_⟩
      rcases hfound with ⟨before, top, after, rfl, htop, hne, hbefore⟩ | hnone
      · refine .inl ⟨level :: before, top, after, rfl, htop, hne, ?_⟩
        rintro level' (_ | ⟨_, hmem⟩)
        · exact hstill
        · exact hbefore level' hmem
      · refine .inr ?_
        rintro level' (_ | ⟨_, hmem⟩)
        · exact hstill
        · exact hnone level' hmem
    · rename_i hne
      have hne' : q₁.streamsByPrio level ≠ [] := fun h => hne (isEmpty_iff.mpr h)
      refine ⟨{ hcounts with }, ?_, fun level' => ?_, ?_⟩
      · exact { hpurges.shrinks with }
      · exact ⟨(hlisting level').nodup, (hlisting level').mem⟩
      · exact .inl ⟨[], level, levels, rfl, rfl, hne', nofun⟩

theorem maybeUpdateTopPrioLevel_spec (q : PrioritizedPacketQueue β) (hc : Counts q q.queued extra)
    (hl : Listing q) (hbound : TopBound q) : let q' := q.maybeUpdateTopPrioLevel
    Counts q' q'.queued extra ∧ Shrinks q q' ∧ Listing q' ∧ TopLaw q' := by
  unfold maybeUpdateTopPrioLevel
  split
  · rename_i hactive
    refine ⟨hc, Shrinks.refl q, hl, ?_⟩
    unfold topIsActive at hactive
    split at hactive
    · cases hactive
    · rename_i top htop
      rw [TopLaw, htop]
      refine ⟨?_, hbound top htop⟩
      simpa using hactive
  · obtain ⟨hcounts, hshrinks, hlisting, hfound⟩ :=
      searchTopPrioLevel_spec (finRange kNumPriorityLevels) q hc hl
    have hsize := sizePackets_eq_zero_iff hcounts hlisting
    dsimp only
    split
    · rename_i hzero
      refine ⟨{ hcounts with }, ?_, fun level => ?_, ?_⟩
      · exact { hshrinks with }
      · exact ⟨(hlisting level).nodup, (hlisting level).mem⟩
      · exact hsize.mp hzero
    · rename_i hsome
      refine ⟨hcounts, hshrinks, hlisting, ?_⟩
      rcases hfound with ⟨before, top, after, hlevels, htop, hne, hbefore⟩ | hnone
      · rw [TopLaw, htop]
        refine ⟨hne, fun level hlt => hbefore level ?_⟩
        -- the levels are visited in increasing order
        have hsorted := hlevels ▸ pairwise_lt_finRange _
        have hmem := hlevels ▸ mem_finRange level
        rcases mem_append.mp hmem with hin | hin
        · exact hin
        · rcases mem_cons.mp hin with rfl | hin
          · exact absurd hlt (lt_irrefl level)
          · have := (pairwise_cons.mp (pairwise_append.mp hsorted).2.1).1 level hin
            exact absurd hlt (lt_asymm this)
      · exact absurd (hsize.mpr fun level => hnone level (mem_finRange level)) hsome

structure Lawful (q : PrioritizedPacketQueue β) : Prop where
  counts : Counts q q.queued 0
  clock : Clock q
  ordered : Ordered q
  listing : Listing q
  top : TopLaw q

structure SameOrder (q q' : PrioritizedPacketQueue β) : Prop where
  packets : q'.packets = q.packets
  enqueueTimes : q'.enqueueTimes = q.enqueueTimes
  streamsByPrio : q'.streamsByPrio = q.streamsByPrio
  topActivePrioLevel : q'.topActivePrioLevel = q.topActivePrioLevel

theorem SameOrder.ordered (hs : SameOrder q q') (h : Ordered q) : Ordered q' :=
  ⟨hs.packets ▸ h.fifo, hs.enqueueTimes ▸ h.times⟩

theorem SameOrder.listing (hs : SameOrder q q') (h : Listing q) : Listing q' := by
  refine fun level => ⟨hs.streamsByPrio ▸ (h level).nodup, ?_⟩
  rw [hs.streamsByPrio, hs.packets]
  exact (h level).mem

theorem SameOrder.topLaw (hs : SameOrder q q') (h : TopLaw q) : TopLaw q' := by
  rw [TopLaw, hs.topActivePrioLevel, hs.streamsByPrio]
  exact h

theorem lawful_initial (creationTime : Int) (prioritize : Bool) (ttl : PacketQueueTTL) :
    Lawful (initial creationTime prioritize ttl : PrioritizedPacketQueue β) where
  counts := ⟨rfl, fun _ => rfl, rfl, rfl, rfl⟩
  clock := ⟨nofun, nofun, nofun⟩
  ordered := ⟨fun _ _ => List.Pairwise.nil, List.Pairwise.nil⟩
  listing _ := ⟨nodup_nil, fun _ => ⟨nofun, fun h => absurd rfl h⟩⟩
  top _ := rfl

theorem updateAverageQueueTime_eq_some (h : q.updateAverageQueueTime now = some q') :
    q.lastUpdateTime ≤ now ∧ q'.lastUpdateTime = now ∧ q'.streams = q.streams ∧
      (q' = q ∨ q' = { q with
        pauseTimeSum := if q.paused then q.pauseTimeSum + (now - q.lastUpdateTime) else q.pauseTimeSum
        queueTimeSum := if q.paused then q.queueTimeSum
          else q.queueTimeSum + (now - q.lastUpdateTime) * q.sizePackets
        lastUpdateTime := now
        timeline := q.timeline ++ [⟨q.lastUpdateTime, now, q.paused⟩] }) := by
  unfold updateAverageQueueTime at h
  split at h
  · cases h
  · rename_i hge
    split at h
    · rename_i heq
      cases h
      exact ⟨Int.not_lt.mp hge, heq.symm, rfl, .inl rfl⟩
    · cases h
      exact ⟨Int.not_lt.mp hge, rfl, rfl, .inr rfl⟩

theorem sameOrder_updateAverageQueueTime (h : q.updateAverageQueueTime now = some q') :
    SameOrder q q' := by
  obtain ⟨-, -, -, rfl | rfl⟩ := updateAverageQueueTime_eq_some h <;> exact ⟨rfl, rfl, rfl, rfl⟩

theorem queued_updateAverageQueueTime (h : q.updateAverageQueueTime now = some q') :
    q'.queued = q.queued := by
  rw [queued, (updateAverageQueueTime_eq_some h).2.2.1, queued]

theorem sum_map_add_const (all : Multiset (QueuedPacket β)) (f : QueuedPacket β → Int) (c : Int) :
    (all.map fun x => f x + c).sum = (all.map f).sum + c * all.card := by
  rw [Multiset.sum_map_add, Multiset.map_const', Multiset.sum_replicate, nsmul_eq_mul, mul_comm]

theorem Counts.updateAverageQueueTime (hc : Counts q all extra)
    (h : q.updateAverageQueueTime now = some q') : Counts q' all extra := by
  obtain ⟨-, -, -, rfl | rfl⟩ := updateAverageQueueTime_eq_some h
  · exact hc
  · refine ⟨hc.size, hc.types, hc.payload, ?_, hc.nodes⟩
    unfold timeInNonPausedState
    dsimp only
    split_ifs with hpaused
    · rw [hc.timeSum]
      refine congrArg Multiset.sum (Multiset.map_congr rfl fun x _ => ?_)
      rw [timeInNonPausedState]
      omega
    · rw [hc.timeSum, hc.size, ← sum_map_add_const]
      refine congrArg Multiset.sum (Multiset.map_congr rfl fun x _ => ?_)
      rw [timeInNonPausedState]
      omega

theorem unpausedSince_append (timeline : List Period) (period : Period) (t : Int) :
    unpausedSince (timeline ++ [period]) t = unpausedSince timeline t +
      if period.paused then 0 else max 0 (period.stop - max period.start t) := by
  unfold unpausedSince
  rw [map_append, sum_append, map_singleton, sum_singleton]

theorem unpausedSince_eq_zero {timeline : List Period} (h : ∀ period ∈ timeline, period.stop ≤ t) :
    unpausedSince timeline t = 0 := by
  refine sum_eq_zero fun value hmem => ?_
  obtain ⟨period, hperiod, rfl⟩ := mem_map.mp hmem
  have hstop := h period hperiod
  split
  · rfl
  · exact max_eq_left (by omega)

theorem Clock.updateAverageQueueTime (hk : Clock q) (h : q.updateAverageQueueTime now = some q') :
    Clock q' := by
  obtain ⟨hle, -, -, rfl | rfl⟩ := updateAverageQueueTime_eq_some h
  · exact hk
  · refine ⟨fun x hx => (hk.pushed x hx).trans hle, fun x hx => ?_, fun period hmem => ?_⟩
    · have hpushed := hk.pushed x hx
      have hwaiting := hk.waiting x hx
      rw [timeInNonPausedState] at hwaiting
      rw [unpausedSince_append, timeInNonPausedState]
      dsimp only
      split <;> omega
    · rcases mem_append.mp hmem with hold | hnew
      · obtain ⟨hspan, hstop⟩ := hk.periods period hold
        exact ⟨hspan, hstop.trans hle⟩
      · rw [mem_singleton.mp hnew]
        exact ⟨hle, le_rfl⟩

theorem Lawful.updateAverageQueueTime (hq : Lawful q) (h : q.updateAverageQueueTime now = some q') :
    Lawful q' := by
  have hcounts := hq.counts.updateAverageQueueTime h
  rw [← queued_updateAverageQueueTime h] at hcounts
  have hsame := sameOrder_updateAverageQueueTime h
  exact ⟨hcounts, hq.clock.updateAverageQueueTime h, hsame.ordered hq.ordered,
    hsame.listing hq.listing, hsame.topLaw hq.top⟩

section

variable (q : PrioritizedPacketQueue β) (t : Int)

theorem packets_register (ssrc ssrc' : BitVec 32) (level : PrioLevel) :
    (q.register t ssrc).packets ssrc' level = q.packets ssrc' level := by
  cases hs : q.streams.find? ssrc with
  | some s =>
    rw [register, q.streams.emplace_of_find? hs]
    rfl
  | none =>
    rw [packets, register, q.streams.find?_emplace hs]
    split_ifs with heq
    · rw [heq, packets, hs]
      rfl
    · rfl

theorem queued_register (ssrc : BitVec 32) : (q.register t ssrc).queued = q.queued := by
  cases hs : q.streams.find? ssrc with
  | some s => rw [queued, register, q.streams.emplace_of_find? hs, queued]
  | none =>
    rw [queued, register, q.streams.sumOver_emplace hs, contents_eq_zero fun _ => rfl,
      zero_add, queued]

theorem find?_register (ssrc : BitVec 32) :
    ((q.register t ssrc).streams.find? ssrc).isSome = true := by
  cases hs : q.streams.find? ssrc with
  | some s =>
    rw [register, q.streams.emplace_of_find? hs, hs]
    rfl
  | none =>
    rw [register, q.streams.find?_emplace hs, if_pos rfl]
    rfl

end

theorem counts_register (h : Counts q q.queued 0) (t : Int) (ssrc : BitVec 32) :
    Counts (q.register t ssrc) (q.register t ssrc).queued {⟨q.nodesCreated, t⟩} := by
  rw [queued_register]
  refine ⟨h.size, h.types, h.payload, h.timeSum, ?_⟩
  have hnodes := h.nodes
  rw [add_zero] at hnodes
  change ((q.enqueueTimes ++ [⟨q.nodesCreated, t⟩] : List EnqueueNode) : Multiset EnqueueNode) = _
  rw [← Multiset.coe_add, hnodes]
  rfl

theorem clock_register (h : Clock q) (t : Int) (ssrc : BitVec 32) : Clock (q.register t ssrc) where
  pushed x hx := h.pushed x (queued_register q t ssrc ▸ hx)
  waiting x hx := h.waiting x (queued_register q t ssrc ▸ hx)
  periods := h.periods

theorem listing_register (h : Listing q) (t : Int) (ssrc : BitVec 32) :
    Listing (q.register t ssrc) := fun level =>
  ⟨(h level).nodup, fun ssrc' => by rw [packets_register]; exact (h level).mem ssrc'⟩

theorem ordered_register (h : Lawful q) (ht : q.lastUpdateTime ≤ t) (ssrc : BitVec 32) :
    Ordered (q.register t ssrc) where
  fifo ssrc' level := by
    rw [packets_register]
    exact h.ordered.fifo ssrc' level
  times := by
    refine pairwise_append.mpr ⟨h.ordered.times, pairwise_singleton _ _, ?_⟩
    intro m hm n hn
    rw [mem_singleton.mp hn]
    have hnode : m ∈ (q.enqueueTimes : Multiset EnqueueNode) := hm
    rw [h.counts.nodes, add_zero] at hnode
    obtain ⟨x, hx, rfl⟩ := Multiset.mem_map.mp hnode
    exact (h.clock.pushed x hx).trans ht

theorem Counts.enqueue (h : Counts q all {x.enqueueTimeIterator})
    (hfresh : q.timeInNonPausedState x = 0) (level : PrioLevel) :
    Counts (q.enqueue level x) (x ::ₘ all) 0 where
  size := by
    change q.sizePackets + 1 = _
    rw [h.size, Multiset.card_cons]
    rfl
  types type := by
    have := h.types type
    change update q.sizePacketsPerMediaType _ _ type = _
    rw [Multiset.countP_cons]
    split_ifs with htype
    · rw [htype, update_self]
      omega
    · rw [Nat.add_zero, update_of_ne (Ne.symm htype), this]
  payload := by
    change q.sizePayload + x.packetSize = _
    rw [h.payload, Multiset.map_cons, Multiset.sum_cons, add_comm]
  timeSum := by
    change q.queueTimeSum = ((x ::ₘ all).map q.timeInNonPausedState).sum
    rw [h.timeSum, Multiset.map_cons, Multiset.sum_cons, hfresh, zero_add]
  nodes := by
    change (q.enqueueTimes : Multiset EnqueueNode) = _
    rw [h.nodes, Multiset.map_cons, add_zero, add_comm, Multiset.singleton_add]

theorem queued_enqueue (hs : q.streams.find? x.packet.ssrc = some s) :
    (q.enqueue level x).queued = x ::ₘ q.queued := by
  have hsum := q.queued_modify (g := fun s => s.enqueuePacket x level) hs rfl
  rw [← Multiset.coe_add, add_comm (s.packets level : Multiset (QueuedPacket β)), ← add_assoc] at hsum
  have hcancel := add_right_cancel hsum
  rw [add_comm] at hcancel
  exact hcancel

theorem packets_enqueue (hs : q.streams.find? x.packet.ssrc = some s) (ssrc' : BitVec 32)
    (level' : PrioLevel) :
    (q.enqueue level x).packets ssrc' level' =
      if ssrc' = x.packet.ssrc ∧ level' = level then q.packets x.packet.ssrc level ++ [x]
      else q.packets ssrc' level' := by
  rw [packets_of_find? hs]
  exact q.packets_modify (g := fun s => s.enqueuePacket x level) hs rfl ssrc' level'

theorem streamsByPrio_enqueue (q : PrioritizedPacketQueue β) (level : PrioLevel)
    (x : QueuedPacket β) (level' : PrioLevel) :
    (q.enqueue level x).streamsByPrio level' =
      if level' = level ∧ q.packets x.packet.ssrc level = [] then
        q.streamsByPrio level ++ [x.packet.ssrc]
      else q.streamsByPrio level' := by
  change (if (q.packets x.packet.ssrc level).isEmpty then
    update q.streamsByPrio level (q.streamsByPrio level ++ [x.packet.ssrc])
    else q.streamsByPrio) level' = _
  by_cases hempty : q.packets x.packet.ssrc level = []
  · rw [if_pos (isEmpty_iff.mpr hempty)]
    by_cases heq : level' = level
    · rw [if_pos ⟨heq, hempty⟩, heq, update_self]
    · rw [if_neg fun h => heq h.1, update_of_ne heq]
  · rw [if_neg fun h => hempty (isEmpty_iff.mp h), if_neg fun h => hempty h.2]

section

variable (hl : Listing q) (hs : q.streams.find? x.packet.ssrc = some s)
include hl hs

theorem listing_enqueue : Listing (q.enqueue level x) := by
  intro level'
  by_cases hlevel : level' = level
  · subst hlevel
    by_cases hempty : q.packets x.packet.ssrc level' = []
    · have hlist : (q.enqueue level' x).streamsByPrio level' =
          q.streamsByPrio level' ++ [x.packet.ssrc] := by
        rw [streamsByPrio_enqueue, if_pos ⟨rfl, hempty⟩]
      have hnew : x.packet.ssrc ∉ q.streamsByPrio level' :=
        fun hmem => ((hl level').mem _).mp hmem hempty
      refine ⟨?_, fun ssrc' => ?_⟩
      · rw [hlist]
        exact (hl level').nodup.append (nodup_singleton _)
          (disjoint_singleton.mpr hnew)
      · rw [hlist, packets_enqueue hs, mem_append, (hl level').mem ssrc']
        by_cases heq : ssrc' = x.packet.ssrc
        · simp [heq]
        · simp [heq]
    · have hlist : (q.enqueue level' x).streamsByPrio level' = q.streamsByPrio level' := by
        rw [streamsByPrio_enqueue, if_neg fun h => hempty h.2]
      refine ⟨hlist ▸ (hl level').nodup, fun ssrc' => ?_⟩
      rw [hlist, packets_enqueue hs, (hl level').mem ssrc']
      by_cases heq : ssrc' = x.packet.ssrc
      · rw [heq]
        simp [hempty]
      · rw [if_neg fun h => heq h.1]
  · have hlist : (q.enqueue level x).streamsByPrio level' = q.streamsByPrio level' := by
      rw [streamsByPrio_enqueue, if_neg fun h => hlevel h.1]
    refine ⟨hlist ▸ (hl level').nodup, fun ssrc' => ?_⟩
    rw [hlist, packets_enqueue hs, if_neg fun h => hlevel h.2]
    exact (hl level').mem ssrc'

theorem topLaw_enqueue (hbound : TopBound q)
    (htop : ∀ top ∈ q.topActivePrioLevel, top ≠ level → q.streamsByPrio top ≠ [])
    (hnone : q.topActivePrioLevel = none → ∀ level', q.streamsByPrio level' = []) :
    TopLaw (q.enqueue level x) := by
  have hlevel : (q.enqueue level x).streamsByPrio level ≠ [] := by
    refine ne_nil_of_mem (a := x.packet.ssrc) ?_
    rw [(listing_enqueue hl hs level).mem, packets_enqueue hs]
    simp
  have hothers : ∀ level', level' ≠ level →
      (q.enqueue level x).streamsByPrio level' = q.streamsByPrio level' := by
    intro level' hne
    rw [streamsByPrio_enqueue, if_neg fun h => hne h.1]
  have hnew : (q.enqueue level x).topActivePrioLevel = match q.topActivePrioLevel with
      | none => some level
      | some top => if level < top then some level else some top := rfl
  cases hq : q.topActivePrioLevel with
  | none =>
    rw [TopLaw, hnew, hq]
    refine ⟨hlevel, fun level' hlt => ?_⟩
    rw [hothers level' hlt.ne]
    exact hnone hq level'
  | some top =>
    rw [TopLaw, hnew, hq]
    dsimp only
    split_ifs with hlt
    · refine ⟨hlevel, fun level' hlt' => ?_⟩
      rw [hothers level' hlt'.ne]
      exact hbound top hq level' (hlt'.trans hlt)
    · constructor
      · by_cases heq : top = level
        · rw [heq]
          exact hlevel
        · rw [hothers top heq]
          exact htop top hq heq
      · intro level' hlt'
        rw [hothers level' fun heq => hlt (heq ▸ hlt')]
        exact hbound top hq level' hlt'

end

variable (q)

theorem cullStreams_eq (t : Int) :
    ∃ streams last, q.cullStreams t = { q with streams := streams, lastCullingTime := last } := by
  unfold cullStreams
  split
  · exact ⟨_, _, rfl⟩
  · exact ⟨q.streams, q.lastCullingTime, rfl⟩

theorem packets_cullStreams (t : Int) : (q.cullStreams t).packets = q.packets := by
  unfold cullStreams
  split
  · funext ssrc level
    unfold packets
    rw [OrdMap.find?_filter]
    cases hs : q.streams.find? ssrc with
    | none => rfl
    | some s =>
      cases hdrop : s.isEmpty && decide (s.lastEnqueueTime + kTimeout < t) with
      | false => simp [Option.filter, hdrop]
      | true =>
        have hempty := isEmpty_iff.mp (Bool.and_eq_true_iff.mp hdrop).1
        simp [Option.filter, hdrop, hempty level]
  · rfl

theorem queued_cullStreams (t : Int) : (q.cullStreams t).queued = q.queued := by
  unfold cullStreams
  split
  · refine q.streams.sumOver_filter fun e _ hdrop => ?_
    have hdropped : (e.2.isEmpty && decide (e.2.lastEnqueueTime + kTimeout < t)) = true := by
      simpa using hdrop
    exact contents_eq_zero (isEmpty_iff.mp (Bool.and_eq_true_iff.mp hdropped).1)
  · rfl

variable {q}

theorem lawful_cullStreams (h : Lawful q) (t : Int) : Lawful (q.cullStreams t) := by
  have hqueued := queued_cullStreams q t
  have hpackets := packets_cullStreams q t
  obtain ⟨streams, last, heq⟩ := cullStreams_eq q t
  rw [heq] at hqueued hpackets ⊢
  have hsame : SameOrder q { q with streams := streams, lastCullingTime := last } :=
    ⟨hpackets, rfl, rfl, rfl⟩
  refine ⟨?_, ⟨?_, ?_, h.clock.periods⟩, hsame.ordered h.ordered, hsame.listing h.listing,
    hsame.topLaw h.top⟩
  · rw [hqueued]
    exact { h.counts with }
  · rw [hqueued]
    exact h.clock.pushed
  · rw [hqueued]
    exact h.clock.waiting

theorem clock_enqueue (h : Clock q) (hs : q.streams.find? x.packet.ssrc = some s)
    (htime : pushTime x = q.lastUpdateTime) (hfresh : q.timeInNonPausedState x = 0) :
    Clock (q.enqueue level x) := by
  refine ⟨fun y hy => ?_, fun y hy => ?_, h.periods⟩
  · rw [queued_enqueue hs, Multiset.mem_cons] at hy
    rcases hy with rfl | hy
    · exact htime.le
    · exact h.pushed y hy
  · rw [queued_enqueue hs, Multiset.mem_cons] at hy
    rcases hy with rfl | hy
    · refine hfresh.trans (unpausedSince_eq_zero fun period hmem => ?_).symm
      rw [htime]
      exact (h.periods period hmem).2
    · exact h.waiting y hy

theorem ordered_enqueue (h : Ordered q) (hclock : Clock q)
    (hs : q.streams.find? x.packet.ssrc = some s) (htime : pushTime x = q.lastUpdateTime) :
    Ordered (q.enqueue level x) := by
  refine ⟨fun ssrc' level' => ?_, h.times⟩
  rw [packets_enqueue hs]
  split
  · refine pairwise_append.mpr ⟨h.fifo _ _, pairwise_singleton _ _, ?_⟩
    intro y hy z hz
    rw [mem_singleton.mp hz, htime]
    exact hclock.pushed y (mem_queued hy)
  · exact h.fifo ssrc' level'

structure Ready (q : PrioritizedPacketQueue β) (level : PrioLevel) (t : Int) (node : EnqueueNode)
    (ssrc : BitVec 32) : Prop where
  counts : Counts q q.queued {node}
  clock : Clock q
  ordered : Ordered q
  listing : Listing q
  stream : ∃ s, q.streams.find? ssrc = some s
  lastUpdateTime : q.lastUpdateTime = t
  bound : TopBound q
  top : ∀ top ∈ q.topActivePrioLevel, top ≠ level → q.streamsByPrio top ≠ []
  none : q.topActivePrioLevel = none → ∀ level', q.streamsByPrio level' = []

theorem Ready.enqueue (h : Ready q level t x.enqueueTimeIterator x.packet.ssrc)
    (htime : pushTime x = t) (henqueue : x.enqueueTime = t - q.pauseTimeSum) :
    Lawful (q.enqueue level x) := by
  obtain ⟨s, hs⟩ := h.stream
  have hpush := htime.trans h.lastUpdateTime.symm
  have hfresh : q.timeInNonPausedState x = 0 := by
    rw [timeInNonPausedState]
    omega
  refine ⟨?_, clock_enqueue h.clock hs hpush hfresh, ordered_enqueue h.ordered h.clock hs hpush,
    listing_enqueue h.listing hs, topLaw_enqueue h.listing hs h.bound h.top h.none⟩
  rw [queued_enqueue hs]
  exact h.counts.enqueue hfresh level

/-- The clock is advanced after the purge of `Push`. -/
theorem ready_of_purged {q₁ q₂ : PrioritizedPacketQueue β}
    (hpurges : PurgesAt level q₁ q₂) (hq : TopLaw q) (hlists : q₁.streamsByPrio = q.streamsByPrio)
    (htop : q₁.topActivePrioLevel = q.topActivePrioLevel)
    (hstream : (q₁.streams.find? ssrc).isSome = true) (hclock : Clock q₁) (hordered : Ordered q₁)
    (hlisting : Listing q₁) (hcounts₂ : Counts q₂ q₂.queued {node}) (hlisting₂ : Listing q₂)
    {q₃ : PrioritizedPacketQueue β} (hupdate : q₂.updateAverageQueueTime t = some q₃) :
    Ready q₃ level t node ssrc := by
  have hcounts₃ := hcounts₂.updateAverageQueueTime hupdate
  have hclock₃ := (hclock.shrinks hpurges.shrinks).updateAverageQueueTime hupdate
  have hsame := sameOrder_updateAverageQueueTime hupdate
  obtain ⟨-, hlast, hstreams₃, -⟩ := updateAverageQueueTime_eq_some hupdate
  have htopq : q₃.topActivePrioLevel = q.topActivePrioLevel := by
    rw [hsame.topActivePrioLevel, hpurges.topActivePrioLevel, htop]
  -- an empty level stays empty, and the purge touches one level only
  have hnil : ∀ level', q.streamsByPrio level' = [] → q₃.streamsByPrio level' = [] := by
    intro level' hempty
    rw [hsame.streamsByPrio]
    refine (hlisting level').shrinks_nil (hlisting₂ level') hpurges.shrinks ?_
    rw [hlists]
    exact hempty
  refine ⟨?_, hclock₃, hsame.ordered (hordered.shrinks hpurges.shrinks), hsame.listing hlisting₂, ?_,
    hlast, ?_, ?_, ?_⟩
  · rw [queued_updateAverageQueueTime hupdate]
    exact hcounts₃
  · rw [hstreams₃]
    exact Option.isSome_iff_exists.mp ((hpurges.find? ssrc).trans hstream)
  · intro top hmem level' hlt
    rw [htopq] at hmem
    exact hnil level' (hq.bound top hmem level' hlt)
  · intro top hmem hne
    rw [htopq] at hmem
    rw [TopLaw, Option.mem_def.mp hmem] at hq
    rw [hsame.streamsByPrio, hpurges.streamsByPrio top hne, hlists]
    exact hq.1
  · intro hnone level'
    rw [htopq] at hnone
    rw [TopLaw, hnone] at hq
    exact hnil level' (hq level')

theorem Lawful.push (h : Lawful q) {packet : RtpPacketToSend β} (hpush : q.push t packet = some q') :
    Lawful q' := by
  obtain ⟨q₃, hupdate, heq⟩ := Option.bind_eq_some_iff.mp hpush
  obtain ⟨hcounts₂, hpurges, hlisting₂⟩ := purge_spec (q.register t packet.ssrc)
    (q.prioLevel packet) t (counts_register h.counts t packet.ssrc) (listing_register h.listing t _)
  have hlast : q.lastUpdateTime ≤ t := by
    have := (updateAverageQueueTime_eq_some hupdate).1
    rwa [hpurges.shrinks.lastUpdateTime] at this
  have hready := ready_of_purged hpurges h.top rfl rfl (find?_register q t packet.ssrc)
    (clock_register h.clock t _) (ordered_register h hlast _) (listing_register h.listing t _)
    hcounts₂ hlisting₂ hupdate
  cases heq
  exact lawful_cullStreams (hready.enqueue
    (x := ⟨packet, t - q₃.pauseTimeSum, ⟨q.nodesCreated, t⟩⟩) rfl rfl) t

end PrioritizedPacketQueue

end Pacing
