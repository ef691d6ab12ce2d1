import WebRtc.Pacing.QueueBookkeeping

/-!
# The order of the prioritized packet queue

Taking packets out of the queue, one at a time or all those of a stream, and the laws of the queue
over whole sequences of calls.
-/

namespace Pacing

open List Function

namespace PrioritizedPacketQueue

variable {β : Type} {q q' : PrioritizedPacketQueue β} {ssrc : BitVec 32}

/-- What `Pop` finds: the lowest level with packets, its first stream, and the first packet of
that. -/
structure Head (q : PrioritizedPacketQueue β) (top : PrioLevel) (ssrc : BitVec 32)
    (others : List (BitVec 32)) (x : QueuedPacket β) (rest : List (QueuedPacket β)) : Prop where
  active : q.topActivePrioLevel = some top
  nonempty : q.sizePackets ≠ 0
  lowest : ∀ level < top, ∀ ssrc, q.packets ssrc level = []
  streams : q.streamsByPrio top = ssrc :: others
  packets : q.packets ssrc top = x :: rest

theorem Lawful.head (h : Lawful q) (hsize : q.sizePackets ≠ 0) :
    ∃ top ssrc others x rest, Head q top ssrc others x rest := by
  have htop := h.top
  cases hq : q.topActivePrioLevel with
  | none =>
    rw [TopLaw, hq] at htop
    exact absurd ((sizePackets_eq_zero_iff h.counts h.listing).mpr htop) hsize
  | some top =>
    rw [TopLaw, hq] at htop
    obtain ⟨ssrc, others, hlist⟩ := exists_cons_of_ne_nil htop.1
    have hne := ((h.listing top).mem ssrc).mp (hlist ▸ mem_cons_self)
    obtain ⟨x, rest, hpackets⟩ := exists_cons_of_ne_nil hne
    exact ⟨top, ssrc, others, x, rest, hq, hsize,
      fun level hlt => (h.listing level).packets_eq_nil (htop.2 level hlt), hlist, hpackets⟩

variable {top : PrioLevel} {rest removed : List (QueuedPacket β)} {others : List (BitVec 32)}
  {x : QueuedPacket β} {all : Multiset (QueuedPacket β)} {s : StreamQueue β} {calls : List (Call β)}

theorem Head.pop_eq (h : Head q top ssrc others x rest) : q.pop =
      let next := (q.dequeuePacket ssrc top x).dequeuePacketInternal x
      if (next.packets ssrc top).isEmpty then
        ({ next with streamsByPrio := update next.streamsByPrio top others
          }.maybeUpdateTopPrioLevel, some (q.leaving x))
      else
        ({ next with streamsByPrio := update next.streamsByPrio top (others ++ [ssrc]) },
          some (q.leaving x)) := by
  rw [pop, if_neg h.nonempty, h.active]
  dsimp only
  rw [h.streams]
  dsimp only
  rw [h.packets]
  dsimp only
  rw [hasPacketsAtPrio, Bool.not_not]

theorem Head.relisted (h : Lawful q) (hhead : Head q top ssrc others x rest)
    {queues : List (BitVec 32)} (hnodup : queues.Nodup)
    (hmem : ∀ ssrc', ssrc' ∈ queues ↔ (if ssrc' = ssrc then rest else q.packets ssrc' top) ≠ [])
    (hq' : q' = { (q.dequeuePacket ssrc top x).dequeuePacketInternal x with
      streamsByPrio := Function.update q.streamsByPrio top queues }) :
    Counts q' q'.queued 0 ∧ Shrinks q q' ∧ Listing q' ∧ TopBound q' ∧
      q'.topActivePrioLevel = some top ∧ q'.streamsByPrio top = queues := by
  have hlists : q'.streamsByPrio = update q.streamsByPrio top queues := by
    rw [hq']
  have hpackets : ∀ ssrc' level, q'.packets ssrc' level =
      if ssrc' = ssrc ∧ level = top then rest else q.packets ssrc' level := by
    intro ssrc' level
    rw [hq']
    exact packets_dequeuePacket hhead.packets ssrc' level
  have hactive : q'.topActivePrioLevel = some top := by
    rw [hq']
    exact hhead.active
  refine ⟨?_, ?_, fun level => ?_, ?_, hactive, ?_⟩
  · rw [hq']
    exact { counts_dequeue h.counts hhead.packets with }
  · rw [hq']
    exact { shrinks_dequeue hhead.packets with }
  · by_cases heq : level = top
    · subst heq
      refine ⟨?_, fun ssrc' => ?_⟩
      · rw [hlists, update_self]
        exact hnodup
      · rw [hlists, update_self, hmem ssrc', hpackets]
        simp
    · refine ⟨?_, fun ssrc' => ?_⟩
      · rw [hlists, update_of_ne heq]
        exact (h.listing level).nodup
      · rw [hlists, update_of_ne heq, hpackets, if_neg fun hboth => heq hboth.2]
        exact (h.listing level).mem ssrc'
  · intro level hlevel level' hlt
    rw [hactive] at hlevel
    cases hlevel
    rw [hlists, update_of_ne hlt.ne]
    exact (h.listing level').eq_nil (hhead.lowest level' hlt)
  · rw [hlists, update_self]

theorem TopBound.topLaw (h : TopBound q)
    (hactive : q.topActivePrioLevel = some top) (hne : q.streamsByPrio top ≠ []) : TopLaw q := by
  rw [TopLaw, hactive]
  exact ⟨hne, h top hactive⟩

theorem lawful_maybeUpdateTopPrioLevel (h : Lawful q) (hs : Shrinks q q')
    (hc : Counts q' q'.queued 0) (hl : Listing q') (hbound : TopBound q') :
    Lawful q'.maybeUpdateTopPrioLevel ∧ Shrinks q q'.maybeUpdateTopPrioLevel := by
  obtain ⟨hc', hs', hl', htop⟩ := maybeUpdateTopPrioLevel_spec q' hc hl hbound
  have hall := hs.trans hs'
  exact ⟨⟨hc', h.clock.shrinks hall, h.ordered.shrinks hall, hl', htop⟩, hall⟩

theorem Lawful.pop (h : Lawful q) : Lawful q.pop.1 ∧ Shrinks q q.pop.1 := by
  by_cases hsize : q.sizePackets = 0
  · rw [PrioritizedPacketQueue.pop, if_pos hsize]
    exact ⟨h, Shrinks.refl q⟩
  · obtain ⟨top, ssrc, others, x, rest, hhead⟩ := h.head hsize
    have hnodup := hhead.streams ▸ (h.listing top).nodup
    have hlisted := hhead.streams ▸ (h.listing top).mem
    have hrest : ((q.dequeuePacket ssrc top x).dequeuePacketInternal x).packets ssrc top = rest := by
      change (q.dequeuePacket ssrc top x).packets ssrc top = rest
      rw [packets_dequeuePacket hhead.packets, if_pos ⟨rfl, rfl⟩]
    rw [hhead.pop_eq]
    dsimp only
    rw [hrest]
    split
    · rename_i hempty
      -- the stream leaves the level
      have hmem : ∀ ssrc', ssrc' ∈ others ↔
          (if ssrc' = ssrc then rest else q.packets ssrc' top) ≠ [] := by
        intro ssrc'
        split_ifs with heq
        · rw [heq, isEmpty_iff.mp hempty]
          exact iff_of_false (nodup_cons.mp hnodup).1 (fun hne => hne rfl)
        · rw [← hlisted ssrc', mem_cons, or_iff_right heq]
      obtain ⟨hc, hs, hl, hbound, -⟩ :=
        hhead.relisted h (nodup_cons.mp hnodup).2 hmem rfl
      exact lawful_maybeUpdateTopPrioLevel h hs hc hl hbound
    · rename_i hleft
      -- the stream goes to the end of the round-robin list
      have hperm : (others ++ [ssrc]).Perm (ssrc :: others) := perm_append_singleton _ _
      have hmem : ∀ ssrc', ssrc' ∈ others ++ [ssrc] ↔
          (if ssrc' = ssrc then rest else q.packets ssrc' top) ≠ [] := by
        intro ssrc'
        rw [hperm.mem_iff]
        split_ifs with heq
        · rw [heq]
          exact iff_of_true mem_cons_self fun hnil => hleft (isEmpty_iff.mpr hnil)
        · rw [hlisted ssrc']
      obtain ⟨hc, hs, hl, hbound, hactive, hqueues⟩ :=
        hhead.relisted h (hperm.nodup_iff.mpr hnodup) hmem rfl
      have hne := ne_of_eq_of_ne hqueues
        (append_ne_nil_of_right_ne_nil others (cons_ne_nil ssrc []))
      exact ⟨⟨hc, h.clock.shrinks hs, h.ordered.shrinks hs, hl, hbound.topLaw hactive hne⟩, hs⟩

theorem Counts.removeLevel (h : Counts q (removed + all) 0) (ssrc : BitVec 32) (level : PrioLevel) :
    Counts (q.removeLevel ssrc level removed) all 0 := by
  unfold PrioritizedPacketQueue.removeLevel
  split
  · rename_i hempty
    rw [isEmpty_iff.mp hempty] at h
    simpa using h
  · exact { h.foldl_dequeuePacketInternal with }

structure SameStreams (q q' : PrioritizedPacketQueue β) : Prop where
  streams : q'.streams = q.streams
  lastUpdateTime : q'.lastUpdateTime = q.lastUpdateTime
  pauseTimeSum : q'.pauseTimeSum = q.pauseTimeSum
  timeline : q'.timeline = q.timeline
  topActivePrioLevel : q'.topActivePrioLevel = q.topActivePrioLevel
  enqueueTimes : q'.enqueueTimes.Sublist q.enqueueTimes

theorem SameStreams.refl (q : PrioritizedPacketQueue β) : SameStreams q q :=
  ⟨rfl, rfl, rfl, rfl, rfl, List.Sublist.refl _⟩

theorem SameStreams.trans {q'' : PrioritizedPacketQueue β} (h : SameStreams q q')
    (h' : SameStreams q' q'') : SameStreams q q'' where
  streams := h'.streams.trans h.streams
  lastUpdateTime := h'.lastUpdateTime.trans h.lastUpdateTime
  pauseTimeSum := h'.pauseTimeSum.trans h.pauseTimeSum
  timeline := h'.timeline.trans h.timeline
  topActivePrioLevel := h'.topActivePrioLevel.trans h.topActivePrioLevel
  enqueueTimes := h'.enqueueTimes.trans h.enqueueTimes

theorem sameStreams_foldl (removed : List (QueuedPacket β)) (q : PrioritizedPacketQueue β) :
    SameStreams q (removed.foldl dequeuePacketInternal q) ∧
      (removed.foldl dequeuePacketInternal q).streamsByPrio = q.streamsByPrio := by
  induction removed generalizing q with
  | nil => exact ⟨SameStreams.refl q, rfl⟩
  | cons x removed ih =>
    obtain ⟨hsame, hlists⟩ := ih (q.dequeuePacketInternal x)
    have hone : SameStreams q (q.dequeuePacketInternal x) :=
      ⟨rfl, rfl, rfl, rfl, rfl, erase_sublist⟩
    exact ⟨hone.trans hsame, hlists⟩

theorem removeLevel_spec {level : PrioLevel} (hmem : ssrc ∈ q.streamsByPrio level ↔ removed ≠ []) :
    SameStreams q (q.removeLevel ssrc level removed) ∧
      (q.removeLevel ssrc level removed).streamsByPrio = Function.update q.streamsByPrio level
          ((q.streamsByPrio level).filter fun other => other ≠ ssrc) := by
  unfold removeLevel
  split
  · rename_i hempty
    have habsent : ssrc ∉ q.streamsByPrio level := fun hin => hmem.mp hin (isEmpty_iff.mp hempty)
    refine ⟨SameStreams.refl q, ?_⟩
    have hfilter : ((q.streamsByPrio level).filter fun other => other ≠ ssrc) =
        q.streamsByPrio level := by
      refine filter_eq_self.mpr fun other hother => ?_
      exact decide_eq_true fun heq => habsent (heq ▸ hother)
    rw [hfilter, update_eq_self]
  · rename_i hsome
    obtain ⟨hsame, hlists⟩ := sameStreams_foldl removed q
    have hin := hmem.mpr fun h => hsome (isEmpty_iff.mpr h)
    refine ⟨{ hsame with }, ?_⟩
    dsimp only
    rw [hlists]
    refine congrArg (update q.streamsByPrio level) ?_
    split
    · rename_i hone
      -- the only stream of the level is the one removed
      obtain ⟨other, hother⟩ := length_eq_one_iff.mp hone
      rw [hother, mem_singleton] at hin
      rw [hother, hin]
      simp
    · rfl

theorem removeLevels_spec {removed : PrioLevel → List (QueuedPacket β)} (levels : List PrioLevel)
    (hnodup : levels.Nodup) (q : PrioritizedPacketQueue β)
    (hc : Counts q ((levels.map fun level => (removed level : Multiset (QueuedPacket β))).sum + all) 0)
    (hmem : ∀ level ∈ levels, ssrc ∈ q.streamsByPrio level ↔ removed level ≠ []) :
    let q' := levels.foldl (fun q level => q.removeLevel ssrc level (removed level)) q
    Counts q' all 0 ∧ SameStreams q q' ∧ (∀ level ∈ levels, q'.streamsByPrio level =
        (q.streamsByPrio level).filter fun other => other ≠ ssrc) ∧
      ∀ level, level ∉ levels → q'.streamsByPrio level = q.streamsByPrio level := by
  induction levels generalizing q with
  | nil =>
    refine ⟨by simpa using hc, SameStreams.refl q, nofun, fun _ _ => rfl⟩
  | cons level levels ih =>
    obtain ⟨hnew, hnodup'⟩ := nodup_cons.mp hnodup
    obtain ⟨hsame, hlists⟩ := removeLevel_spec (hmem level mem_cons_self)
    rw [map_cons, sum_cons, add_assoc] at hc
    have hmem' : ∀ level' ∈ levels,
        ssrc ∈ (q.removeLevel ssrc level (removed level)).streamsByPrio level' ↔
          removed level' ≠ [] := by
      intro level' hin
      have hne : level' ≠ level := fun heq => hnew (heq ▸ hin)
      rw [hlists, update_of_ne hne]
      exact hmem level' (mem_cons_of_mem _ hin)
    obtain ⟨hc', hsame', hin', hout'⟩ := ih hnodup' _ (hc.removeLevel ssrc level) hmem'
    refine ⟨hc', hsame.trans hsame', ?_, ?_⟩
    · rintro level' (_ | ⟨_, hin⟩)
      · rw [foldl_cons, hout' level hnew, hlists, update_self]
      · have hne : level' ≠ level := fun heq => hnew (heq ▸ hin)
        rw [foldl_cons, hin' level' hin, hlists, update_of_ne hne]
    · intro level' hout
      rw [mem_cons, not_or] at hout
      rw [foldl_cons, hout' level' hout.2, hlists, update_of_ne hout.1]

theorem packets_dequeueAll (hs : q.streams.find? ssrc = some s)
    (ssrc' : BitVec 32) (level : PrioLevel) :
    packets { q with streams := q.streams.modify ssrc StreamQueue.dequeueAll } ssrc' level =
      if ssrc' = ssrc then [] else q.packets ssrc' level := by
  unfold packets
  rw [OrdMap.find?_modify]
  by_cases heq : ssrc' = ssrc
  · rw [if_pos heq, if_pos heq, heq, hs]
    rfl
  · rw [if_neg heq, if_neg heq]

theorem queued_dequeueAll (hs : q.streams.find? ssrc = some s) : q.queued = s.contents +
      queued { q with streams := q.streams.modify ssrc StreamQueue.dequeueAll } := by
  have hmem := (q.streams.find?_eq_some_iff ssrc s).mp hs
  have hempty : s.dequeueAll.contents = 0 := StreamQueue.contents_eq_zero fun _ => rfl
  rw [queued, q.streams.sumOver_erase hmem, queued]
  rw [q.streams.sumOver_modify hmem, hempty, zero_add]

theorem Lawful.removePacketsForSsrc (h : Lawful q) (ssrc : BitVec 32) :
    Lawful (q.removePacketsForSsrc ssrc) ∧ Shrinks q (q.removePacketsForSsrc ssrc) := by
  unfold PrioritizedPacketQueue.removePacketsForSsrc
  split
  · exact lawful_maybeUpdateTopPrioLevel h (Shrinks.refl q) h.counts h.listing h.top.bound
  · rename_i s hs
    have hpackets := packets_dequeueAll hs
    have hqueued := queued_dequeueAll hs
    have hcounts := h.counts
    rw [hqueued] at hcounts
    dsimp only
    set q₀ : PrioritizedPacketQueue β :=
      { q with streams := q.streams.modify ssrc StreamQueue.dequeueAll }
    have hcounts₀ : Counts q₀ (((finRange kNumPriorityLevels).map fun level =>
        (s.packets level : Multiset (QueuedPacket β))).sum + q₀.queued) 0 := { hcounts with }
    have hmem : ∀ level ∈ finRange kNumPriorityLevels,
        ssrc ∈ q₀.streamsByPrio level ↔ s.packets level ≠ [] := by
      intro level _
      rw [← packets_of_find? hs]
      exact (h.listing level).mem ssrc
    obtain ⟨hc, hsame, hin, -⟩ := removeLevels_spec (finRange kNumPriorityLevels)
      (nodup_finRange _) q₀ hcounts₀ hmem
    generalize (finRange kNumPriorityLevels).foldl
      (fun q level => q.removeLevel ssrc level (s.packets level)) q₀ = q₁ at hc hsame hin
    have hpackets₁ : ∀ ssrc' level, q₁.packets ssrc' level =
        if ssrc' = ssrc then [] else q.packets ssrc' level := by
      intro ssrc' level
      rw [packets, hsame.streams]
      exact hpackets ssrc' level
    have hqueued₁ : q₁.queued = q₀.queued := by rw [queued, hsame.streams, queued]
    have hlists₁ : ∀ level, q₁.streamsByPrio level =
        (q.streamsByPrio level).filter fun other => other ≠ ssrc := fun level =>
      hin level (mem_finRange level)
    have hshrinks : Shrinks q q₁ :=
      { lastUpdateTime := hsame.lastUpdateTime
        pauseTimeSum := hsame.pauseTimeSum
        timeline := hsame.timeline
        queued := by
          rw [hqueued₁, hqueued]
          exact Multiset.le_add_left _ _
        enqueueTimes := hsame.enqueueTimes
        packets ssrc' level := by
          rw [hpackets₁]
          split
          · exact nil_sublist _
          · exact List.Sublist.refl _ }
    refine lawful_maybeUpdateTopPrioLevel h hshrinks (hqueued₁ ▸ hc) (fun level => ⟨?_, ?_⟩) ?_
    · rw [hlists₁]
      exact (h.listing level).nodup.filter _
    · intro ssrc'
      rw [hlists₁, hpackets₁, mem_filter, (h.listing level).mem ssrc']
      by_cases heq : ssrc' = ssrc
      · simp [heq]
      · simp [heq]
    · intro top hactive level hlt
      rw [hsame.topActivePrioLevel] at hactive
      rw [hlists₁, h.top.bound top hactive level hlt]
      rfl

theorem Lawful.perform (h : Lawful q) {c : Call β} (hc : q.perform c = some q') : Lawful q' := by
  cases c with
  | push t packet => exact h.push hc
  | pop =>
    cases hc
    exact h.pop.1
  | setPauseState paused now =>
    obtain ⟨q₁, hupdate, rfl⟩ := Option.map_eq_some_iff.mp hc
    have h₁ := h.updateAverageQueueTime hupdate
    exact ⟨{ h₁.counts with }, { h₁.clock with }, { h₁.ordered with },
      fun level => ⟨(h₁.listing level).nodup, (h₁.listing level).mem⟩, h₁.top⟩
  | updateAverageQueueTime now => exact h.updateAverageQueueTime hc
  | removePacketsForSsrc ssrc =>
    cases hc
    exact (h.removePacketsForSsrc ssrc).1

theorem Lawful.run (h : Lawful q) (hrun : q.run calls = some q') : Lawful q' := by
  induction calls generalizing q with
  | nil =>
    cases hrun
    exact h
  | cons c calls ih =>
    obtain ⟨q₁, hc, hrest⟩ := Option.bind_eq_some_iff.mp hrun
    exact ih (h.perform hc) hrest

/-- The times of some calls do not decrease, from the time of the last update on. -/
def InOrder : Int → List (Call β) → Prop
  | _, [] => True
  | last, .push t _ :: calls => last ≤ t ∧ InOrder t calls
  | last, .setPauseState _ now :: calls => last ≤ now ∧ InOrder now calls
  | last, .updateAverageQueueTime now :: calls => last ≤ now ∧ InOrder now calls
  | last, .pop :: calls => InOrder last calls
  | last, .removePacketsForSsrc _ :: calls => InOrder last calls

theorem exists_updateAverageQueueTime {now : Int} (h : q.lastUpdateTime ≤ now) :
    ∃ q', q.updateAverageQueueTime now = some q' := by
  unfold updateAverageQueueTime
  rw [if_neg (Int.not_lt.mpr h)]
  split
  · exact ⟨_, rfl⟩
  · exact ⟨_, rfl⟩

theorem exists_push (h : Lawful q) {t : Int} (ht : q.lastUpdateTime ≤ t)
    (packet : RtpPacketToSend β) : ∃ q', q.push t packet = some q' ∧ q'.lastUpdateTime = t := by
  obtain ⟨-, hpurges, -⟩ := purge_spec (q.register t packet.ssrc) (q.prioLevel packet) t
    (counts_register h.counts t packet.ssrc) (listing_register h.listing t _)
  have hlast : ((q.register t packet.ssrc).purgeOldPacketsAtPriorityLevel (q.prioLevel packet) t
      ).lastUpdateTime ≤ t := by
    rw [hpurges.shrinks.lastUpdateTime]
    exact ht
  obtain ⟨q₁, hupdate⟩ := exists_updateAverageQueueTime hlast
  refine ⟨_, Option.bind_eq_some_iff.mpr ⟨q₁, hupdate, rfl⟩, ?_⟩
  have hnow := (updateAverageQueueTime_eq_some hupdate).2.1
  unfold cullStreams
  split
  · exact hnow
  · exact hnow

theorem exists_run (h : Lawful q) (horder : InOrder q.lastUpdateTime calls) :
    ∃ q', q.run calls = some q' := by
  induction calls generalizing q with
  | nil => exact ⟨q, rfl⟩
  | cons c calls ih =>
    have hstep : ∃ q₁, q.perform c = some q₁ ∧ InOrder q₁.lastUpdateTime calls := by
      cases c with
      | push t packet =>
        obtain ⟨q₁, hpush, hlast⟩ := exists_push h horder.1 packet
        exact ⟨q₁, hpush, hlast ▸ horder.2⟩
      | pop => exact ⟨_, rfl, h.pop.2.lastUpdateTime ▸ horder⟩
      | setPauseState paused now =>
        obtain ⟨q₁, hupdate⟩ := exists_updateAverageQueueTime horder.1
        refine ⟨_, Option.map_eq_some_iff.mpr ⟨q₁, hupdate, rfl⟩, ?_⟩
        exact (updateAverageQueueTime_eq_some hupdate).2.1 ▸ horder.2
      | updateAverageQueueTime now =>
        obtain ⟨q₁, hupdate⟩ := exists_updateAverageQueueTime horder.1
        exact ⟨q₁, hupdate, (updateAverageQueueTime_eq_some hupdate).2.1 ▸ horder.2⟩
      | removePacketsForSsrc ssrc =>
        exact ⟨_, rfl, (h.removePacketsForSsrc ssrc).2.lastUpdateTime ▸ horder⟩
    obtain ⟨q₁, hperform, horder₁⟩ := hstep
    obtain ⟨q', hrun⟩ := ih (h.perform hperform) horder₁
    exact ⟨q', Option.bind_eq_some_iff.mpr ⟨q₁, hperform, hrun⟩⟩

/-- The oldest enqueue time is that of a packet pushed first. -/
theorem Lawful.oldestEnqueueTime (h : Lawful q) :
    (q.queued = 0 → q.oldestEnqueueTime = .minusInfinity) ∧
      (q.queued ≠ 0 → ∃ x ∈ q.queued, q.oldestEnqueueTime = .finite (pushTime x) ∧
        ∀ y ∈ q.queued, pushTime x ≤ pushTime y) := by
  have hnodes := h.counts.nodes
  rw [add_zero] at hnodes
  unfold PrioritizedPacketQueue.oldestEnqueueTime
  cases htimes : q.enqueueTimes with
  | nil =>
    rw [htimes] at hnodes
    have hzero : q.queued = 0 := Multiset.map_eq_zero.mp hnodes.symm
    exact ⟨fun _ => rfl, fun hne => absurd hzero hne⟩
  | cons node nodes =>
    have hsorted := h.ordered.times
    rw [htimes] at hnodes hsorted
    have hfirst : node ∈ q.queued.map QueuedPacket.enqueueTimeIterator := by
      rw [← hnodes]
      exact Multiset.mem_coe.mpr mem_cons_self
    obtain ⟨x, hx, rfl⟩ := Multiset.mem_map.mp hfirst
    refine ⟨fun hzero => ?_, fun _ => ⟨x, hx, rfl, fun y hy => ?_⟩⟩
    · rw [hzero] at hx
      exact absurd hx (Multiset.notMem_zero x)
    · have hy' : y.enqueueTimeIterator ∈ (x.enqueueTimeIterator :: nodes : List EnqueueNode) := by
        rw [← Multiset.mem_coe, hnodes]
        exact Multiset.mem_map_of_mem _ hy
      rcases mem_cons.mp hy' with heq | hin
      · exact (congrArg EnqueueNode.time heq).ge
      · exact (pairwise_cons.mp hsorted).1 _ hin

/-- The bookkeeping and the order of the queue, after any calls that fail no `RTC_CHECK`. -/
theorem bookkeeping (creationTime : Int) (prioritizeAudioRetransmission : Bool)
    (packetQueueTtl : PacketQueueTTL) (calls : List (Call β)) :
    (InOrder creationTime calls → ∃ q,
      (initial creationTime prioritizeAudioRetransmission packetQueueTtl).run calls = some q) ∧
    ∀ q, (initial creationTime prioritizeAudioRetransmission packetQueueTtl).run calls = some q →
      (q.sizePackets = q.queued.card ∧ (∀ type, q.sizePacketsPerMediaType type =
          (q.queued.countP fun x => x.packet.packetType = type : Nat)) ∧
        q.sizePayload = (q.queued.map QueuedPacket.packetSize).sum) ∧
      (∀ level, (q.streamsByPrio level).Nodup ∧
        ∀ ssrc, ssrc ∈ q.streamsByPrio level ↔ q.packets ssrc level ≠ []) ∧
      (match q.topActivePrioLevel with
        | none => ∀ level, q.streamsByPrio level = []
        | some top => q.streamsByPrio top ≠ [] ∧ ∀ level < top, q.streamsByPrio level = []) ∧
      q.queueTimeSum = (q.queued.map fun x => unpausedSince q.timeline (pushTime x)).sum ∧
      ((q.queued = 0 → q.oldestEnqueueTime = .minusInfinity) ∧
        (q.queued ≠ 0 → ∃ x ∈ q.queued, q.oldestEnqueueTime = .finite (pushTime x) ∧
          ∀ y ∈ q.queued, pushTime x ≤ pushTime y)) ∧ ((q.queued = 0 → q.pop.2 = none) ∧
        (q.queued ≠ 0 → ∃ top ssrc others x rest, Head q top ssrc others x rest ∧
          q.pop.2 = some (q.leaving x) ∧ ∀ y ∈ rest, pushTime x ≤ pushTime y)) := by
  have hinitial := lawful_initial (β := β) creationTime prioritizeAudioRetransmission packetQueueTtl
  refine ⟨exists_run hinitial, fun q hrun => ?_⟩
  have h := hinitial.run hrun
  refine ⟨⟨h.counts.size, h.counts.types, h.counts.payload⟩,
    fun level => ⟨(h.listing level).nodup, (h.listing level).mem⟩, h.top, ?_, h.oldestEnqueueTime,
    fun hzero => ?_, fun hne => ?_⟩
  · rw [h.counts.timeSum]
    exact congrArg Multiset.sum (Multiset.map_congr rfl h.clock.waiting)
  · have hsize : q.sizePackets = 0 := by
      rw [h.counts.size, hzero]
      rfl
    rw [pop, if_pos hsize]
  · have hsize : q.sizePackets ≠ 0 := by
      rw [h.counts.size]
      exact_mod_cast fun hcard => hne (Multiset.card_eq_zero.mp hcard)
    obtain ⟨top, ssrc, others, x, rest, hhead⟩ := h.head hsize
    refine ⟨top, ssrc, others, x, rest, hhead, ?_, ?_⟩
    · rw [hhead.pop_eq]
      dsimp only
      split <;> rfl
    · have hfifo := h.ordered.fifo ssrc top
      rw [hhead.packets] at hfifo
      exact (pairwise_cons.mp hfifo).1

def bare (ssrc : BitVec 32) (type : RtpPacketMediaType) : RtpPacketToSend Unit :=
  ⟨ssrc, type, none, false, 100, 0, none, ()⟩

/-- A video packet, a pause, an audio packet in the pause, and time after the pause. -/
def pausedCalls : List (Call Unit) :=
  [.push 0 (bare 1 .video), .setPauseState true 10, .push 20 (bare 2 .audio),
    .setPauseState false 30, .updateAverageQueueTime 35]

theorem bookkeeping_pausedCalls :
    ∃ q, (initial 0 false ⟨.plusInfinity, .plusInfinity, .plusInfinity⟩).run pausedCalls = some q ∧
      q.queueTimeSum = 20 ∧
      q.queueTimeSum = (q.queued.map fun x => unpausedSince q.timeline (pushTime x)).sum ∧
      ∀ level, (q.streamsByPrio level).Nodup := by
  have hlaw := bookkeeping 0 false ⟨.plusInfinity, .plusInfinity, .plusInfinity⟩ pausedCalls
  obtain ⟨q, hrun⟩ := hlaw.1 (by simp [pausedCalls, InOrder])
  obtain ⟨-, hlists, -, hsum, -⟩ := hlaw.2 q hrun
  refine ⟨q, hrun, ?_, hsum, fun level => (hlists level).1⟩
  have hvalue : ((initial 0 false ⟨.plusInfinity, .plusInfinity, .plusInfinity⟩).run pausedCalls).map
      queueTimeSum = some 20 := by decide +kernel
  rw [hrun] at hvalue
  exact Option.some.inj hvalue

end PrioritizedPacketQueue

end Pacing
