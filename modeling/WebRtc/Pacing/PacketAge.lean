import WebRtc.Pacing.QueueOrder

/-!
# The age at which the pacer drops a packet

`PurgeOldPacketsAtPriorityLevel` compares the clock with an enqueue time from which the earlier
pause time was subtracted. A packet pushed before the first pause is dropped only when it is old;
after a pause, a packet can be dropped as soon as it is pushed.
-/

namespace Pacing

namespace PrioritizedPacketQueue

variable {β : Type} {q q' : PrioritizedPacketQueue β} {now timeToLive : Int}

/-- The packets that are missing have an enqueue time longer ago than the time to live. -/
def DropsOld (now timeToLive : Int) (q q' : PrioritizedPacketQueue β) : Prop :=
  ∃ removed, q.queued = q'.queued + removed ∧ ∀ x ∈ removed, now - x.enqueueTime > timeToLive

theorem DropsOld.refl (q : PrioritizedPacketQueue β) : DropsOld now timeToLive q q :=
  ⟨0, (add_zero _).symm, fun x hx => absurd hx (Multiset.notMem_zero x)⟩

theorem DropsOld.trans {q'' : PrioritizedPacketQueue β} (h : DropsOld now timeToLive q q')
    (h' : DropsOld now timeToLive q' q'') : DropsOld now timeToLive q q'' := by
  obtain ⟨removed, hqueued, hold⟩ := h
  obtain ⟨removed', hqueued', hold'⟩ := h'
  refine ⟨removed' + removed, by rw [hqueued, hqueued', add_assoc], fun x hx => ?_⟩
  rcases Multiset.mem_add.mp hx with hx | hx
  · exact hold' x hx
  · exact hold x hx

theorem dropsOld_purgeStream (level : PrioLevel) (ssrc : BitVec 32) (fuel : Nat)
    (q : PrioritizedPacketQueue β) :
    DropsOld now timeToLive q (purgeStream level now timeToLive ssrc fuel q) := by
  fun_induction purgeStream level now timeToLive ssrc fuel q with
  | case1 q => exact .refl q
  | case2 fuel q hnone => exact .refl q
  | case3 fuel q x rest hpackets hold ih =>
    refine .trans ⟨{x}, ?_, fun y hy => ?_⟩ ih
    · rw [queued_dequeuePacket hpackets, add_comm]
      rfl
    · rw [Multiset.mem_singleton.mp hy]
      exact hold
  | case4 fuel q x rest hpackets hyoung => exact .refl q

theorem dropsOld_purgeQueues (level : PrioLevel) (fuel i : Nat) (q : PrioritizedPacketQueue β) :
    DropsOld now timeToLive q (purgeQueues level now timeToLive fuel i q) := by
  fun_induction purgeQueues level now timeToLive fuel i q with
  | case1 i q => exact .refl q
  | case2 fuel i q hnone => exact .refl q
  | case3 fuel i q ssrc hat q₁ hempty queues ih =>
    exact (dropsOld_purgeStream level ssrc _ q).trans ih
  | case4 fuel i q ssrc hat q₁ hleft ih => exact (dropsOld_purgeStream level ssrc _ q).trans ih

/-- Time before `t` was spent in a pause. -/
def PausedBefore (timeline : List Period) (t : Int) : Prop :=
  ∃ period ∈ timeline, period.paused = true ∧ period.start < t

theorem PausedBefore.mono {timeline timeline' : List Period} {t t' : Int}
    (h : PausedBefore timeline t) (hsub : timeline ⊆ timeline') (ht : t ≤ t') :
    PausedBefore timeline' t' := by
  obtain ⟨period, hmem, hpaused, hstart⟩ := h
  exact ⟨period, hsub hmem, hpaused, hstart.trans_le ht⟩

/-- Only after a pause can an enqueue time differ from the time of the push. -/
structure Stamped (q : PrioritizedPacketQueue β) : Prop where
  sum : q.pauseTimeSum ≠ 0 → PausedBefore q.timeline q.lastUpdateTime
  times : ∀ x ∈ q.queued, x.enqueueTime ≠ pushTime x → PausedBefore q.timeline (pushTime x)

theorem Stamped.shrinks (h : Stamped q) (hs : Shrinks q q') : Stamped q' := by
  refine ⟨?_, fun x hx => ?_⟩
  · rw [hs.pauseTimeSum, hs.timeline, hs.lastUpdateTime]
    exact h.sum
  · rw [hs.timeline]
    exact h.times x (Multiset.mem_of_le hs.queued hx)

theorem Stamped.updateAverageQueueTime (h : Stamped q)
    (hupdate : q.updateAverageQueueTime now = some q') : Stamped q' := by
  obtain ⟨hle, -, -, rfl | rfl⟩ := updateAverageQueueTime_eq_some hupdate
  · exact h
  · have hsub := List.subset_append_left q.timeline [⟨q.lastUpdateTime, now, q.paused⟩]
    refine ⟨fun hsum => ?_, fun x hx hne => (h.times x hx hne).mono hsub le_rfl⟩
    by_cases hzero : q.pauseTimeSum = 0
    · dsimp only at hsum
      split at hsum
      · rename_i hpaused
        exact ⟨⟨q.lastUpdateTime, now, q.paused⟩, by simp, hpaused, by dsimp only; omega⟩
      · exact absurd hzero hsum
    · exact (h.sum hzero).mono hsub hle

theorem Stamped.push (h : Stamped q) (hq : Lawful q) {t : Int} {packet : RtpPacketToSend β}
    (hpush : q.push t packet = some q') : Stamped q' := by
  obtain ⟨q₁, hupdate, heq⟩ := Option.bind_eq_some_iff.mp hpush
  obtain ⟨-, hpurges, -⟩ := purge_spec (q.register t packet.ssrc) (q.prioLevel packet) t
    (counts_register hq.counts t packet.ssrc) (listing_register hq.listing t _)
  have hregister : Stamped (q.register t packet.ssrc) := by
    refine ⟨h.sum, ?_⟩
    rw [queued_register]
    exact h.times
  have h₁ := (hregister.shrinks hpurges.shrinks).updateAverageQueueTime hupdate
  obtain ⟨-, hlast, hstreams, -⟩ := updateAverageQueueTime_eq_some hupdate
  have hstream : (q₁.streams.find? packet.ssrc).isSome = true := by
    rw [hstreams, hpurges.find?]
    exact find?_register q t packet.ssrc
  obtain ⟨s, hs⟩ := Option.isSome_iff_exists.mp hstream
  cases heq
  have hqueued := queued_cullStreams (q₁.enqueue (q.prioLevel packet)
    ⟨packet, t - q₁.pauseTimeSum, ⟨q.nodesCreated, t⟩⟩) t
  rw [queued_enqueue hs] at hqueued
  obtain ⟨streams, last, hcull⟩ := cullStreams_eq (q₁.enqueue (q.prioLevel packet)
    ⟨packet, t - q₁.pauseTimeSum, ⟨q.nodesCreated, t⟩⟩) t
  refine ⟨?_, fun x hx hne => ?_⟩
  · rw [hcull]
    exact h₁.sum
  · rw [hqueued, Multiset.mem_cons] at hx
    rw [hcull]
    rcases hx with rfl | hx
    · refine (h₁.sum fun hzero => hne ?_).mono (List.Subset.refl _) hlast.le
      simp [hzero, pushTime]
    · exact h₁.times x hx hne

theorem Stamped.perform (h : Stamped q) (hq : Lawful q) {c : Call β} (hc : q.perform c = some q') :
    Stamped q' := by
  cases c with
  | push t packet => exact h.push hq hc
  | pop =>
    cases hc
    exact h.shrinks hq.pop.2
  | setPauseState paused now =>
    obtain ⟨q₁, hupdate, rfl⟩ := Option.map_eq_some_iff.mp hc
    exact ⟨(h.updateAverageQueueTime hupdate).sum, (h.updateAverageQueueTime hupdate).times⟩
  | updateAverageQueueTime now => exact h.updateAverageQueueTime hc
  | removePacketsForSsrc ssrc =>
    cases hc
    exact h.shrinks (hq.removePacketsForSsrc ssrc).2

theorem Stamped.run (h : Stamped q) (hq : Lawful q) {calls : List (Call β)}
    (hrun : q.run calls = some q') : Stamped q' := by
  induction calls generalizing q with
  | nil =>
    cases hrun
    exact h
  | cons c calls ih =>
    obtain ⟨q₁, hc, hrest⟩ := Option.bind_eq_some_iff.mp hrun
    exact ih (h.perform hq hc) (hq.perform hc) hrest

/-- A purge drops a packet that was pushed before the first pause only when the time since the push
exceeds the time to live of the level. -/
theorem purges_only_old (creationTime : Int) (prioritizeAudioRetransmission : Bool)
    (packetQueueTtl : PacketQueueTTL) {calls : List (Call β)}
    (hrun : (initial creationTime prioritizeAudioRetransmission packetQueueTtl).run calls = some q)
    (hqueued : q'.queued ≤ q.queued) (level : PrioLevel) (now : Int) :
    ∃ removed, q'.queued = (q'.purgeOldPacketsAtPriorityLevel level now).queued + removed ∧
      ∀ x ∈ removed, ¬ PausedBefore q.timeline (pushTime x) →
        ∃ timeToLive, q'.timeToLivePerPrio level = .finite timeToLive ∧
          now - pushTime x > timeToLive := by
  have hstamped : Stamped q := by
    refine Stamped.run ⟨fun h => absurd rfl h, fun x hx => ?_⟩ ?_ hrun
    · exact absurd hx (Multiset.notMem_zero x)
    · exact lawful_initial creationTime prioritizeAudioRetransmission packetQueueTtl
  unfold purgeOldPacketsAtPriorityLevel
  split
  · rename_i timeToLive hfinite
    obtain ⟨removed, hsplit, hold⟩ : DropsOld now timeToLive q' _ :=
      dropsOld_purgeQueues level (q'.streamsByPrio level).length 0 q'
    refine ⟨removed, hsplit, fun x hx hnever => ⟨timeToLive, hfinite, ?_⟩⟩
    have hmem : x ∈ q.queued := by
      refine Multiset.mem_of_le hqueued ?_
      rw [hsplit]
      exact Multiset.mem_add.mpr (.inr hx)
    have htime : x.enqueueTime = pushTime x := by
      by_contra hne
      exact hnever (hstamped.times x hmem hne)
    rw [← htime]
    exact hold x hx
  · exact ⟨0, (add_zero _).symm, fun x hx => absurd hx (Multiset.notMem_zero x)⟩

theorem purges_only_old_unpaused :
    ∃ q, (initial 0 false ⟨.plusInfinity, .plusInfinity, .finite 500000⟩).run
        [.push 0 (bare 1 .video)] = some q ∧
      ∃ removed, q.queued = (q.purgeOldPacketsAtPriorityLevel 3 600000).queued + removed ∧
        ∀ x ∈ removed, ¬ PausedBefore q.timeline (pushTime x) →
          ∃ timeToLive, q.timeToLivePerPrio 3 = .finite timeToLive ∧
            600000 - pushTime x > timeToLive := by
  obtain ⟨q, hrun⟩ := exists_run (lawful_initial 0 false ⟨.plusInfinity, .plusInfinity, .finite 500000⟩)
    (show InOrder 0 [.push 0 (bare 1 .video)] by simp [InOrder])
  exact ⟨q, hrun, purges_only_old 0 false _ hrun le_rfl 3 600000⟩

/-- After a pause of one second a video packet with half a second to live is gone when it is
pushed. -/
theorem dropped_when_pushed : ((initial 0 false ⟨.plusInfinity, .plusInfinity, .finite 500000⟩).run
      [.setPauseState true 0, .setPauseState false 1000000, .push 1000000 (bare 1 .video),
        .push 1000000 (bare 2 .video)]).map (fun q => (q.packets 1 3, (q.packets 2 3).length)) =
      some ([], 1) := by
  decide +kernel

end PrioritizedPacketQueue

end Pacing
