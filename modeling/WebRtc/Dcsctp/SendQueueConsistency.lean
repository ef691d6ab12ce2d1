import WebRtc.Dcsctp.OutgoingStreams

/-!
# The send queue stays consistent

The scheduler's active streams are the ones with bytes to send, each under its finish time, and
while a message is being sent its stream is the current one. Every operation keeps this, so that the
loop of `StreamScheduler::Produce` ends.
-/

namespace Dcsctp

open Units OutgoingStream List

namespace RRSendQueue

variable {q r : RRSendQueue} {id : StreamID} {s : OutgoingStream} {item : QueuedMessage}
  {rest : List ((ℚ ×ₗ StreamID) × Unit)} {time : ℚ} {maxSize : Nat} {now : Timestamp}
  {chunk : DataToSend}

variable (q id)

theorem stream_setStream (other : StreamID) (s : OutgoingStream) :
    (q.setStream id s).stream other = if other = id then s else q.stream other := by
  change ((q.streams.set id s).find? other).getD _ = _
  rw [OrdMap.find?_set]
  split_ifs <;> rfl

@[simp] theorem stream_setStream_self (s : OutgoingStream) : (q.setStream id s).stream id = s := by
  rw [stream_setStream, if_pos rfl]

def Active (q : RRSendQueue) (time : ℚ) (id : StreamID) : Prop :=
  (toLex (time, id), ()) ∈ q.scheduler.activeStreams.entries

def buffered (q : RRSendQueue) : Nat := q.streams.total fun _ s => s.bufferedAmount

theorem buffered_setStream (s : OutgoingStream) :
    (q.setStream id s).buffered + (q.stream id).bufferedAmount = q.buffered + s.bufferedAmount :=
  q.streams.total_set_getD id s (fun _ s => s.bufferedAmount) rfl

theorem bufferedAmount_le : (q.stream id).bufferedAmount ≤ q.buffered := by
  have h := q.buffered_setStream id (OutgoingStream.initial q.defaultPriority)
  have hzero : (OutgoingStream.initial q.defaultPriority).bufferedAmount = 0 := rfl
  omega

/-- Between the queues only one stream and its place in the schedule may differ. -/
structure Step (id : StreamID) (q r : RRSendQueue) : Prop where
  stream : ∀ other, other ≠ id → r.stream other = q.stream other
  active : ∀ other, other ≠ id → ∀ time, r.Active time other ↔ q.Active time other
  balance : r.buffered + q.totalBufferedAmount = q.buffered + r.totalBufferedAmount
  interleaving : r.scheduler.enableMessageInterleaving = q.scheduler.enableMessageInterleaving
  currentStream : r.scheduler.currentStream = q.scheduler.currentStream
  currentlySending : r.scheduler.currentlySendingAMessage = q.scheduler.currentlySendingAMessage
  faulted : r.faulted = q.faulted

theorem Step.refl : Step id q q :=
  ⟨fun _ _ => rfl, fun _ _ _ => Iff.rfl, rfl, rfl, rfl, rfl, rfl⟩

variable {q id}

theorem Step.trans {t : RRSendQueue} (first : Step id q r) (second : Step id r t) : Step id q t where
  stream other h := (second.stream other h).trans (first.stream other h)
  active other h time := (second.active other h time).trans (first.active other h time)
  balance := by
    have := first.balance
    have := second.balance
    omega
  interleaving := second.interleaving.trans first.interleaving
  currentStream := second.currentStream.trans first.currentStream
  currentlySending := second.currentlySending.trans first.currentlySending
  faulted := second.faulted.trans first.faulted

def Inactive (q : RRSendQueue) (id : StreamID) : Prop := ∀ time, ¬q.Active time id

/-- The stream is active if it has something to send, and then under its finish time. -/
def ActiveExactly (q : RRSendQueue) (id : StreamID) : Prop :=
  ∀ time, q.Active time id ↔ 0 < (q.stream id).bytesToSendInNextMessage ∧
    (q.stream id).schedulerStream.nextFinishTime = time

theorem ActiveExactly.inactive (h : q.ActiveExactly id)
    (idle : (q.stream id).bytesToSendInNextMessage = 0) : q.Inactive id := by
  intro time hactive
  have := ((h time).mp hactive).1
  omega

theorem Inactive.activeExactly (h : q.Inactive id)
    (idle : (q.stream id).bytesToSendInNextMessage = 0) : q.ActiveExactly id := by
  intro time
  refine iff_of_false (h time) ?_
  rintro ⟨hpos, -⟩
  omega

theorem ActiveExactly.congr (h : q.ActiveExactly id)
    (active : ∀ time, r.Active time id ↔ q.Active time id)
    (bytes : 0 < (r.stream id).bytesToSendInNextMessage ↔ 0 < (q.stream id).bytesToSendInNextMessage)
    (place : (r.stream id).schedulerStream.nextFinishTime =
      (q.stream id).schedulerStream.nextFinishTime) :
    r.ActiveExactly id := by
  intro time
  rw [active, h time, bytes, place]

variable (q id)

theorem step_setStream (s : OutgoingStream) {total : Nat}
    (balance : total + (q.stream id).bufferedAmount = q.totalBufferedAmount + s.bufferedAmount)
    (messageId : OutgoingMessageId) :
    Step id q { q.setStream id s with
      totalBufferedAmount := total, currentMessageId := messageId } where
  stream other h := by
    change (q.setStream id s).stream other = _
    rw [stream_setStream, if_neg h]
  active _ _ _ := Iff.rfl
  balance := by
    change (q.setStream id s).buffered + q.totalBufferedAmount = q.buffered + total
    have := q.buffered_setStream id s
    omega
  interleaving := rfl
  currentStream := rfl
  currentlySending := rfl
  faulted := rfl

theorem step_replace (same : s.bufferedAmount = (q.stream id).bufferedAmount) :
    Step id q (q.setStream id s) :=
  q.step_setStream id s (congrArg (q.totalBufferedAmount + ·) same.symm) q.currentMessageId

theorem step_place (place : StreamScheduler.Stream) :
    Step id q (q.setStream id { q.stream id with schedulerStream := place }) :=
  q.step_replace id rfl

theorem step_activeStreams (activeStreams : OrdMap (ℚ ×ₗ StreamID) Unit)
    (h : ∀ other, other ≠ id → ∀ time,
      (toLex (time, other), ()) ∈ activeStreams.entries ↔ q.Active time other) :
    Step id q { q with scheduler := { q.scheduler with activeStreams := activeStreams } } where
  stream _ _ := rfl
  active := h
  balance := rfl
  interleaving := rfl
  currentStream := rfl
  currentlySending := rfl
  faulted := rfl

theorem makeActive_spec (bytes : Nat) : Step id q (q.makeActive id bytes) ∧ ∃ place,
      (q.makeActive id bytes).stream id = { q.stream id with schedulerStream := place } ∧
      (q.Inactive id → ∀ time,
        (q.makeActive id bytes).Active time id ↔ place.nextFinishTime = time) := by
  refine ⟨(q.step_place id _).trans (step_activeStreams _ id _ ?_), _,
    stream_setStream_self q id _, ?_⟩
  · intro other hother time
    constructor
    · intro hmem
      rcases OrdMap.mem_emplaceEntries hmem with heq | hmem
      · exact absurd (congrArg (fun e => (ofLex e.1).2) heq) hother
      · exact hmem
    · exact OrdMap.mem_emplaceEntries_of_mem
  · intro hinactive time
    constructor
    · intro hmem
      rcases OrdMap.mem_emplaceEntries hmem with heq | hmem
      · exact (congrArg (fun e => (ofLex e.1).1) heq).symm
      · exact absurd hmem (hinactive time)
    · rintro rfl
      refine OrdMap.mem_emplaceEntries_self ?_
      rintro ⟨key, ⟨⟩⟩ hmem rfl
      exact hinactive _ hmem

theorem maybeMakeActive_spec :
    Step id q (q.maybeMakeActive id) ∧ (∃ place, (q.maybeMakeActive id).stream id =
        { q.stream id with schedulerStream := place }) ∧
      (q.Inactive id → (q.maybeMakeActive id).ActiveExactly id) := by
  by_cases hidle : (q.stream id).bytesToSendInNextMessage = 0
  · have hsame : q.maybeMakeActive id = q := if_pos hidle
    rw [hsame]
    exact ⟨.refl q id, ⟨_, rfl⟩, fun h => h.activeExactly hidle⟩
  · have hmake : q.maybeMakeActive id = q.makeActive id _ := if_neg hidle
    rw [hmake]
    obtain ⟨hstep, place, hstream, hactive⟩ := q.makeActive_spec id
      (q.stream id).bytesToSendInNextMessage
    refine ⟨hstep, ⟨place, hstream⟩, fun hinactive time => ?_⟩
    rw [hactive hinactive time, hstream]
    exact ⟨fun h => ⟨Nat.pos_of_ne_zero hidle, h⟩, fun h => h.2⟩

theorem makeInactive_spec : Step id q (q.makeInactive id) ∧
      (∃ place, (q.makeInactive id).stream id = { q.stream id with schedulerStream := place }) ∧
      (q.makeInactive id).Inactive id := by
  refine ⟨(q.step_place id _).trans (step_activeStreams _ id _ ?_),
    ⟨_, stream_setStream_self q id _⟩, ?_⟩
  · intro other hother time
    refine mem_filter.trans (and_iff_left ?_)
    exact decide_eq_true hother
  · intro time hmem
    simpa using (mem_filter.mp hmem).2

/-! ## The operations on one stream

Each says what becomes of the stream apart from its place in the schedule, and that the place is
right again. -/

structure Updated (id : StreamID) (q : RRSendQueue) (s : OutgoingStream) (r : RRSendQueue) :
    Prop where
  step : Step id q r
  content : (r.stream id).content = s.content
  active : r.ActiveExactly id

def queued (q : RRSendQueue) (now : Timestamp) (message : DcSctpMessage) (options : SendOptions) :
    QueuedMessage :=
  { messageId := q.currentMessageId, message, attributes := options.attributes now }

variable {q id}

theorem add_updated (q : RRSendQueue) (now : Timestamp) (message : DcSctpMessage)
    (options : SendOptions) (active : q.ActiveExactly message.streamId) :
    Updated message.streamId q
      ((q.stream message.streamId).append (q.queued now message options))
      (q.add now message options) := by
  have hstep : Step message.streamId q (q.enqueue message (options.attributes now)) := by
    refine q.step_setStream message.streamId
      ((q.stream message.streamId).append (q.queued now message options)) ?_ _
    change _ + message.payload.length + _ = _ + (_ + message.payload.length)
    omega
  have hstream : (q.enqueue message (options.attributes now)).stream message.streamId =
      (q.stream message.streamId).append (q.queued now message options) :=
    stream_setStream_self q message.streamId _
  by_cases hbytes : (q.stream message.streamId).bytesToSendInNextMessage > 0
  · have hadd : q.add now message options = q.enqueue message (options.attributes now) :=
      if_pos hbytes
    rw [hadd]
    refine ⟨hstep, by rw [hstream], active.congr (fun _ => Iff.rfl) ?_ (by rw [hstream]; rfl)⟩
    rw [hstream]
    exact iff_of_true (bytesToSend_append_pos hbytes _) hbytes
  · have hadd : q.add now message options =
        (q.enqueue message (options.attributes now)).maybeMakeActive message.streamId :=
      if_neg hbytes
    rw [hadd]
    obtain ⟨hmake, ⟨place, hplace⟩, hactive⟩ :=
      (q.enqueue message (options.attributes now)).maybeMakeActive_spec message.streamId
    refine ⟨hstep.trans hmake, ?_, hactive (active.inactive (by omega))⟩
    rw [hplace, hstream]
    rfl

theorem updated_maybeMakeActive (step : Step id q r) (inactive : r.Inactive id) :
    Updated id q (r.stream id) (r.maybeMakeActive id) := by
  obtain ⟨hmake, ⟨place, hplace⟩, hactive⟩ := r.maybeMakeActive_spec id
  refine ⟨step.trans hmake, ?_, hactive inactive⟩
  rw [hplace]
  rfl

theorem updated_makeInactive (step : Step id q r)
    (idle : (r.stream id).bytesToSendInNextMessage = 0) :
    Updated id q (r.stream id) (r.makeInactive id) := by
  obtain ⟨hmake, ⟨place, hplace⟩, hinactive⟩ := r.makeInactive_spec id
  have hcontent : ((r.makeInactive id).stream id).content = (r.stream id).content := by
    rw [hplace]
    rfl
  refine ⟨step.trans hmake, hcontent, hinactive.activeExactly ?_⟩
  rw [bytesToSend_congr hcontent, idle]

section

variable (q : RRSendQueue) (id : StreamID) (active : q.ActiveExactly id)
include active

theorem resume_updated (resetting : (q.stream id).pauseState = .resetting) :
    Updated id q { q.stream id with pauseState := .notPaused } (q.resume id) := by
  have hidle : ¬(q.stream id).Running := by simp [OutgoingStream.Running, resetting]
  have hstep : Step id q (q.setStream id { q.stream id with pauseState := .notPaused }) :=
    q.step_replace id rfl
  have h := updated_maybeMakeActive hstep
    (active.inactive (bytesToSend_of_not_running hidle))
  rw [stream_setStream_self] at h
  exact h

theorem setAsResetting_updated (paused : (q.stream id).pauseState = .paused) :
    Updated id q { q.stream id with pauseState := .resetting }
      (q.setStream id { q.stream id with pauseState := .resetting }) := by
  have hidle : ¬(q.stream id).Running := by simp [OutgoingStream.Running, paused]
  refine ⟨q.step_replace id rfl, by rw [stream_setStream_self], ?_⟩
  refine Inactive.activeExactly
    (active.inactive (bytesToSend_of_not_running hidle)) ?_
  exact bytesToSend_of_not_running (by simp [OutgoingStream.Running])

theorem updated_setStream (content : s.content = (q.stream id).content)
    (place : s.schedulerStream.nextFinishTime = (q.stream id).schedulerStream.nextFinishTime) :
    Updated id q (q.stream id) (q.setStream id s) := by
  have hamount := congrArg OutgoingStream.bufferedAmount content
  refine ⟨q.step_replace id hamount, by rw [stream_setStream_self, content],
    active.congr (fun _ => Iff.rfl) ?_ (by rw [stream_setStream_self, place])⟩
  rw [stream_setStream_self, bytesToSend_congr content]

end

theorem Updated.of_running (active : q.ActiveExactly id) (step : Step id q r)
    (same : ∀ time, r.Active time id ↔ q.Active time id) (stream : r.stream id = s)
    (bytes : 0 < s.bytesToSendInNextMessage ↔ 0 < (q.stream id).bytesToSendInNextMessage)
    (place : s.schedulerStream = (q.stream id).schedulerStream) : Updated id q s r := by
  refine ⟨step, by rw [stream], active.congr same (by rw [stream]; exact bytes) ?_⟩
  rw [stream, place]

section

variable (q : RRSendQueue) (id : StreamID)

theorem resetStream_cons {rest : List QueuedMessage} (h : (q.stream id).items = item :: rest) :
    q.resetStream id =
      let r := { q.setStream id (q.stream id).restarted with
        totalBufferedAmount :=
          q.totalBufferedAmount + (item.message.payload.length - item.remainingSize) }
      if (q.stream id).pauseState = .paused ∨ (q.stream id).pauseState = .resetting then
        r.maybeMakeActive id
      else r := by
  simp only [resetStream, restarted, h]

theorem resetStream_updated (wellFormed : (q.stream id).WellFormed) (active : q.ActiveExactly id) :
    Updated id q (q.stream id).restarted (q.resetStream id) := by
  have hplace : (q.stream id).restarted.schedulerStream = (q.stream id).schedulerStream := by
    unfold restarted
    split <;> rfl
  cases hitems : (q.stream id).items with
  | nil =>
    have hreset : q.resetStream id = q.setStream id (q.stream id).restarted := by
      simp only [resetStream, restarted, hitems]
    rw [hreset]
    have hamount : (q.stream id).restarted.bufferedAmount = (q.stream id).bufferedAmount := by
      simp only [restarted, hitems]
    have hrestarted : (q.stream id).restarted.items = [] := by
      simp only [restarted, hitems]
    refine .of_running active (q.step_replace id hamount) (fun _ => Iff.rfl)
      (stream_setStream_self q id _) ?_ hplace
    rw [bytesToSend_of_empty hitems, bytesToSend_of_empty hrestarted]
  | cons item rest =>
    rw [q.resetStream_cons id hitems]
    have hstep : Step id q { q.setStream id (q.stream id).restarted with
        totalBufferedAmount :=
          q.totalBufferedAmount + (item.message.payload.length - item.remainingSize) } := by
      refine q.step_setStream id _ ?_ q.currentMessageId
      simp only [restarted, hitems]
      omega
    have hstream := stream_setStream_self q id (q.stream id).restarted
    split_ifs with hpaused
    · have hidle : ¬(q.stream id).Running := by
        rcases hpaused with h | h <;> simp [OutgoingStream.Running, h]
      have h := updated_maybeMakeActive hstep
        (active.inactive (bytesToSend_of_not_running hidle))
      exact ⟨h.step, h.content.trans (congrArg content hstream), h.active⟩
    · have hrunning : (q.stream id).Running := by
        cases h : (q.stream id).pauseState <;> simp_all [OutgoingStream.Running]
      exact .of_running active hstep (fun _ => Iff.rfl) hstream
        (wellFormed.bytesToSend_restarted hrunning) hplace

theorem pause_eq (h : (q.stream id).pauseState = .notPaused) : q.pause id =
      let r := { q.setStream id (q.stream id).pausing with
        totalBufferedAmount := q.totalBufferedAmount - (q.stream id).unstartedBytes }
      if (q.stream id).items ≠ [] ∧ (q.stream id).pausing.pauseState = .paused then
        r.makeInactive id
      else r := by
  simp [pause, pausing, unstartedBytes, h]

theorem pause_updated (wellFormed : (q.stream id).WellFormed) (active : q.ActiveExactly id)
    (bound : (q.stream id).bufferedAmount ≤ q.totalBufferedAmount) :
    Updated id q (q.stream id).pausing (q.pause id) := by
  by_cases hnotPaused : (q.stream id).pauseState = .notPaused
  · rw [q.pause_eq id hnotPaused]
    have hamount : (q.stream id).pausing.bufferedAmount =
        (q.stream id).bufferedAmount - (q.stream id).unstartedBytes := by
      simp [pausing, hnotPaused]
    have hstep : Step id q { q.setStream id (q.stream id).pausing with
        totalBufferedAmount := q.totalBufferedAmount - (q.stream id).unstartedBytes } := by
      refine q.step_setStream id _ ?_ q.currentMessageId
      have := wellFormed.kept_add_unstartedBytes
      omega
    have hstream := stream_setStream_self q id (q.stream id).pausing
    split_ifs with hgone
    · have hidle : ¬(q.stream id).pausing.Running := by
        simp [OutgoingStream.Running, hgone.2]
      have h := updated_makeInactive hstep (by
        rw [← bytesToSend_of_not_running hidle]
        exact congrArg bytesToSendInNextMessage hstream)
      exact ⟨h.step, h.content.trans (congrArg content hstream), h.active⟩
    · refine .of_running active hstep (fun _ => Iff.rfl) hstream ?_ ?_
      · rcases wellFormed.phase with resting | ⟨item, rest, sending⟩
        · have hempty : (q.stream id).items = [] := by
            by_contra hne
            refine hgone ⟨hne, ?_⟩
            simpa [pausing, hnotPaused] using
              fun item hmem => (resting.fresh item hmem).remainingOffset
          have hpausing : (q.stream id).pausing.items = [] := by
            simp [pausing, hnotPaused, hempty]
          rw [bytesToSend_of_empty hempty, bytesToSend_of_empty hpausing]
        · obtain ⟨rest', hsending, -⟩ := sending.pausing
          rw [hsending.bytesToSend, sending.bytesToSend]
      · unfold pausing
        split <;> rfl
  · have hsame : (q.stream id).pausing = q.stream id := if_pos hnotPaused
    have hpause : q.pause id = q.setStream id (q.stream id) := if_pos hnotPaused
    rw [hsame, hpause]
    exact q.updated_setStream id active rfl rfl

theorem discard_updated {rest : List QueuedMessage} (sending : (q.stream id).Sending item rest)
    (wellFormed : (q.stream id).WellFormed) (active : q.ActiveExactly id)
    (bound : (q.stream id).bufferedAmount ≤ q.totalBufferedAmount) :
    Updated id { q with scheduler := q.scheduler.forceReschedule }
      ((q.stream id).dropFront item rest) ((q.dropFirst id item rest).leaveDiscarded id) := by
  have hamount := wellFormed.amount
  rw [sending.items, map_cons, sum_cons] at hamount
  let r : RRSendQueue := { q.dropFirst id item rest with scheduler := q.scheduler.forceReschedule }
  have hstep : Step id { q with scheduler := q.scheduler.forceReschedule } r := by
    refine step_setStream { q with scheduler := q.scheduler.forceReschedule } id
      { q.stream id with
        items := rest
        bufferedAmount := (q.stream id).bufferedAmount - item.remainingSize } ?_ q.currentMessageId
    change q.totalBufferedAmount - item.remainingSize + (q.stream id).bufferedAmount =
      q.totalBufferedAmount + ((q.stream id).bufferedAmount - item.remainingSize)
    omega
  have hstream : r.stream id = { q.stream id with
      items := rest
      bufferedAmount := (q.stream id).bufferedAmount - item.remainingSize } :=
    stream_setStream_self q id _
  change Updated id _ _ (if (r.stream id).pauseState = .pending then
      (r.setStream id { r.stream id with pauseState := .paused }).makeInactive id
    else if (r.stream id).bytesToSendInNextMessage = 0 then r.makeInactive id else r)
  have hpauseState : (r.stream id).pauseState = (q.stream id).pauseState := by rw [hstream]
  split_ifs with hpending hidle
  · have hpaused : ¬({ r.stream id with pauseState := .paused } : OutgoingStream).Running := by
      simp [OutgoingStream.Running]
    have hset := stream_setStream_self r id { r.stream id with pauseState := .paused }
    have hpause : Step id r (r.setStream id { r.stream id with pauseState := .paused }) :=
      r.step_replace id rfl
    have h := updated_makeInactive (hstep.trans hpause) (by
      rw [hset]
      exact bytesToSend_of_not_running hpaused)
    refine ⟨h.step, ?_, h.active⟩
    rw [h.content, hset, dropFront, if_pos (hpauseState ▸ hpending), hstream]
  · have hdrop : (q.stream id).dropFront item rest = r.stream id := by
      rw [dropFront, if_neg (hpauseState ▸ hpending), hstream]
    rw [hdrop]
    exact updated_makeInactive hstep hidle
  · have hdrop : r.stream id = (q.stream id).dropFront item rest := by
      rw [dropFront, if_neg (hpauseState ▸ hpending), hstream]
    have hactive := active
    refine .of_running hactive hstep (fun _ => Iff.rfl) hdrop ?_ rfl
    rw [← hdrop]
    exact iff_of_true (Nat.pos_of_ne_zero hidle) sending.bytesToSend_pos

end

structure Steady (q : RRSendQueue) : Prop where
  wellFormed : ∀ id, (q.stream id).WellFormed
  amount : q.buffered = q.totalBufferedAmount
  active : ∀ id, q.ActiveExactly id
  running : q.faulted = false

/-- What holds between two calls: a message that is being sent is at the front of the current
stream. -/
structure Consistent (q : RRSendQueue) : Prop extends Steady q where
  sending : q.scheduler.currentlySendingAMessage = true →
    ∃ id item rest, q.scheduler.currentStream = some id ∧ (q.stream id).Sending item rest

theorem Steady.bufferedAmount_le (h : q.Steady) (id : StreamID) :
    (q.stream id).bufferedAmount ≤ q.totalBufferedAmount := by
  rw [← h.amount]
  exact q.bufferedAmount_le id

theorem Steady.updated (h : q.Steady) (updated : Updated id q s r) (wellFormed : s.WellFormed) :
    r.Steady where
  wellFormed other := by
    by_cases hother : other = id
    · subst hother
      exact wellFormed.congr updated.content
    · rw [updated.step.stream other hother]
      exact h.wellFormed other
  amount := by
    have := updated.step.balance
    have := h.amount
    omega
  active other := by
    by_cases hother : other = id
    · subst hother
      exact updated.active
    · refine (h.active other).congr (updated.step.active other hother) ?_ ?_ <;>
        rw [updated.step.stream other hother]
  running := updated.step.faulted.trans h.running

theorem Consistent.updated (h : q.Consistent) (updated : Updated id q s r)
    (wellFormed : s.WellFormed)
    (sending : ∀ item rest, (q.stream id).Sending item rest → ∃ item rest, s.Sending item rest) :
    r.Consistent := by
  refine ⟨h.toSteady.updated updated wellFormed, fun hflag => ?_⟩
  rw [updated.step.currentlySending] at hflag
  obtain ⟨current, item, rest, hcurrent, hsending⟩ := h.sending hflag
  rw [updated.step.currentStream]
  by_cases hother : current = id
  · subst hother
    obtain ⟨item', rest', hsending'⟩ := sending item rest hsending
    exact ⟨current, item', rest', hcurrent, hsending'.congr updated.content⟩
  · refine ⟨current, item, rest, hcurrent, ?_⟩
    rw [updated.step.stream current hother]
    exact hsending

theorem Steady.forceReschedule (h : q.Steady) :
    Consistent { q with scheduler := q.scheduler.forceReschedule } :=
  ⟨{ h with }, nofun⟩

theorem consistent_initial (mtu : Nat) (defaultPriority : StreamPriority) :
    (initial mtu defaultPriority).Consistent := by
  refine ⟨⟨fun id => wellFormed_initial defaultPriority, rfl, fun id => ?_, rfl⟩,
    nofun⟩
  have hinactive : (initial mtu defaultPriority).Inactive id := nofun
  exact hinactive.activeExactly (bytesToSend_of_empty rfl)

theorem Consistent.add (h : q.Consistent) (now : Timestamp) (message : DcSctpMessage)
    (options : SendOptions) : (q.add now message options).Consistent := by
  refine h.updated (q.add_updated now message options (h.active _)) ((h.wellFormed _).append _ ?_)
    fun item rest sending => ⟨_, _, sending.append _ ?_⟩ <;>
  exact ⟨rfl, rfl, rfl, rfl, rfl⟩

theorem Consistent.setStreamPriority (h : q.Consistent) (id : StreamID) (priority : StreamPriority) :
    (q.setStreamPriority id priority).Consistent :=
  h.updated (q.updated_setStream id (h.active id) rfl rfl) (h.wellFormed id)
    fun item rest sending => ⟨item, rest, sending⟩

theorem Consistent.prepareResetStream (h : q.Consistent) (id : StreamID) :
    (q.prepareResetStream id).Consistent := by
  refine h.updated (q.pause_updated id (h.wellFormed id) (h.active id) (h.bufferedAmount_le id))
    (h.wellFormed id).pausing fun item rest sending => ?_
  obtain ⟨rest', hsending, -⟩ := sending.pausing
  exact ⟨item, rest', hsending⟩

/-- The visits of a loop over the streams in a pause state. -/
theorem forEachIn_induction {P : RRSendQueue → Prop} (q : RRSendQueue) (pauseState : PauseState)
    (operation : RRSendQueue → StreamID → RRSendQueue) (start : P q)
    (visit : ∀ r id, P r → (r.stream id).pauseState = pauseState → P (operation r id)) :
    P (q.forEachIn pauseState operation) := by
  refine foldlRecOn (motive := P) _ _ start fun r h id _ => ?_
  split_ifs with hstate
  · exact visit r id h hstate
  · exact h

theorem Steady.resting (h : q.Steady)
    (paused : (q.stream id).pauseState = .paused ∨ (q.stream id).pauseState = .resetting) :
    (q.stream id).Resting := by
  apply (h.wellFormed id).resting_of_not_running
  rcases paused with hstate | hstate <;> simp [OutgoingStream.Running, hstate]

section

variable (h : q.Consistent)
include h

theorem Consistent.updated_of_resting (updated : Updated id q s r) (wellFormed : s.WellFormed)
    (resting : (q.stream id).Resting) : r.Consistent :=
  h.updated updated wellFormed fun _ _ sending => absurd resting sending.not_resting

theorem Consistent.setAsResetting (paused : (q.stream id).pauseState = .paused) :
    (q.setStream id { q.stream id with pauseState := .resetting }).Consistent := by
  have hresting := h.resting (.inl paused)
  exact h.updated_of_resting (q.setAsResetting_updated id (h.active id) paused)
    ⟨.inl ⟨hresting.fresh, nofun⟩, (h.wellFormed id).amount⟩ hresting

theorem Consistent.resume (resetting : (q.stream id).pauseState = .resetting) :
    (q.resume id).Consistent := by
  have hresting := h.resting (.inr resetting)
  exact h.updated_of_resting (q.resume_updated id (h.active id) resetting)
    ⟨.inl ⟨hresting.fresh, nofun⟩, (h.wellFormed id).amount⟩ hresting

theorem Consistent.getStreamsReadyToBeReset : q.getStreamsReadyToBeReset.2.Consistent :=
  q.forEachIn_induction .paused _ h fun _ _ h paused => h.setAsResetting paused

theorem Consistent.rollbackResetStreams : q.rollbackResetStreams.Consistent :=
  q.forEachIn_induction .resetting _ h fun _ _ h resetting => h.resume resetting

theorem Consistent.commitResetStreams : q.commitResetStreams.Consistent := by
  refine q.forEachIn_induction .resetting _ h fun r id h resetting => ?_
  exact h.updated_of_resting (r.resetStream_updated id (h.wellFormed id) (h.active id))
    (h.wellFormed id).restarted (h.resting (.inr resetting))

theorem Consistent.reset : q.reset.Consistent := by
  have hsteady : ((q.streams.entries.map Prod.fst).foldl resetStream q).Steady :=
    foldlRecOn (motive := Steady) _ _ h.toSteady fun r h id _ =>
      h.updated (r.resetStream_updated id (h.wellFormed id) (h.active id))
        (h.wellFormed id).restarted
  exact hsteady.forceReschedule

theorem Consistent.discard (id : StreamID) (messageId : OutgoingMessageId)
    (begun : (q.stream id).items.head?.map QueuedMessage.messageId = some messageId →
      (q.stream id).hasPartiallySentMessage = true) :
    (q.discard id messageId).2.Consistent := by
  have hunchanged := h.updated (q.updated_setStream id (h.active id) rfl rfl) (h.wellFormed id)
      fun item rest sending => ⟨item, rest, sending⟩
  unfold RRSendQueue.discard
  cases hitems : (q.stream id).items with
  | nil => exact hunchanged
  | cons item rest =>
    dsimp only
    split_ifs with hmessage
    · have hsending : (q.stream id).Sending item rest := by
        apply (h.wellFormed id).sending_of_partiallySent hitems
        exact begun (by rw [hitems, ← hmessage]; rfl)
      have hdiscard := q.discard_updated id hsending (h.wellFormed id) (h.active id)
        (h.bufferedAmount_le id)
      refine ⟨h.toSteady.forceReschedule.toSteady.updated hdiscard
        ((h.wellFormed id).dropFront hsending), fun hflag => ?_⟩
      rw [hdiscard.step.currentlySending] at hflag
      cases hflag
    · exact hunchanged

end

def withCurrent (q : RRSendQueue) (id : StreamID) : RRSendQueue :=
  { q with scheduler := { q.scheduler with currentStream := some id } }

def withFlags (q : RRSendQueue) (sending : Bool) (time : ℚ) : RRSendQueue :=
  { q with scheduler := { q.scheduler with
      currentlySendingAMessage := sending, virtualTime := time } }

theorem Step.withFlags (h : Step id q r) (sending : Bool) (time : ℚ) :
    Step id (q.withFlags sending time) (r.withFlags sending time) :=
  ⟨h.stream, h.active, h.balance, h.interleaving, h.currentStream, rfl, h.faulted⟩

theorem Steady.withCurrent (h : q.Steady) (id : StreamID) : (q.withCurrent id).Steady := { h with }

theorem Steady.withFlags (h : q.Steady) (sending : Bool) (time : ℚ) :
    (q.withFlags sending time).Steady := { h with }

abbrev First (q : RRSendQueue) (time : ℚ) (id : StreamID)
    (rest : List ((ℚ ×ₗ StreamID) × Unit)) : Prop :=
  q.scheduler.activeStreams.entries = (toLex (time, id), ()) :: rest

abbrev turn (q : RRSendQueue) (id : StreamID) (now : Timestamp) (maxSize : Nat) :
    Option DataToSend × RRSendQueue := (q.reschedule id).produceFrom id now maxSize

theorem Steady.reschedule (h : q.Steady) (first : q.First time id rest) :
    0 < (q.stream id).bytesToSendInNextMessage ∧ Step id (q.withCurrent id) (q.reschedule id) ∧
      (∃ place, (q.reschedule id).stream id = { q.stream id with schedulerStream := place }) ∧
      (q.reschedule id).Inactive id ∧ (q.reschedule id).scheduler.activeStreams.entries = rest := by
  have hsorted := q.scheduler.activeStreams.sorted
  rw [first] at hsorted
  have hactive : q.Active time id := by
    rw [Active, first]
    exact mem_cons_self
  obtain ⟨hbytes, htime⟩ := (h.active id time).mp hactive
  have hentries : (q.reschedule id).scheduler.activeStreams.entries = rest := by
    change q.scheduler.activeStreams.entries.tail = rest
    rw [first, tail_cons]
  refine ⟨hbytes, ?_, ⟨_, stream_setStream_self _ id _⟩, ?_, hentries⟩
  · refine (step_activeStreams (q.withCurrent id) id _ ?_).trans (step_place _ id _)
    intro other hother time'
    change _ ∈ q.scheduler.activeStreams.entries.tail ↔ _ ∈ q.scheduler.activeStreams.entries
    rw [first, mem_cons]
    refine (or_iff_right ?_).symm
    intro heq
    exact hother (congrArg (fun e => (ofLex e.1).2) heq)
  · intro time' hmem
    rw [Active, hentries] at hmem
    have hold : q.Active time' id := by
      rw [Active, first]
      exact mem_cons_of_mem _ hmem
    -- The stream has one finish time, so its entry would be in the set twice.
    obtain rfl : time' = time := ((h.active id time').mp hold).2.symm.trans htime
    exact absurd ((pairwise_cons.mp hsorted).1 _ hmem) (lt_irrefl _)

theorem produceFrom_spec (q : RRSendQueue) (id : StreamID) (now : Timestamp) (room : 0 < maxSize)
    (wellFormed : (q.stream id).WellFormed) (running : (q.stream id).Running)
    (bound : (q.stream id).bufferedAmount ≤ q.totalBufferedAmount) :
    let r := q.produceFrom id now maxSize
    Step id q r.2 ∧ r.2.scheduler = q.scheduler ∧
      ((r.1 = none ∧ ((q.stream id).skipExpired now).items = [] ∧
          r.2.stream id = (q.stream id).skipExpired now) ∨ ∃ chunk t total, r.1 = some chunk ∧
          (q.stream id).produce now maxSize q.totalBufferedAmount = (some chunk, t, total) ∧
          ((q.stream id).skipExpired now).Advanced chunk t ∧ (r.2.stream id).content = t.content ∧
          (r.2.stream id).schedulerStream.nextFinishTime = t.schedulerStream.nextFinishTime) := by
  have hskipped := wellFormed.skippedBytes_le now
  have hamount : ((q.stream id).skipExpired now).bufferedAmount =
    (q.stream id).bufferedAmount - (q.stream id).skippedBytes now := rfl
  rcases wellFormed.produce running now room q.totalBufferedAmount with
    ⟨hproduce, hitems⟩ | ⟨chunk, t, hproduce, hadvanced⟩
  · have hfrom : q.produceFrom id now maxSize =
        (none, { q.setStream id ((q.stream id).skipExpired now) with
          totalBufferedAmount := q.totalBufferedAmount - (q.stream id).skippedBytes now }) := by
      rw [produceFrom, hproduce]
    rw [hfrom]
    refine ⟨q.step_setStream id _ (by omega) q.currentMessageId, rfl, .inl ⟨rfl, hitems, ?_⟩⟩
    exact stream_setStream_self q id _
  · have hsize := hadvanced.amount
    let s := { t with schedulerStream := { t.schedulerStream with
      currentVirtualTime := q.scheduler.calculateFinishTime t.schedulerStream chunk.data.size } }
    have hfrom : q.produceFrom id now maxSize = (some chunk, { q.setStream id s with
          totalBufferedAmount :=
            q.totalBufferedAmount - (q.stream id).skippedBytes now - chunk.data.size }) := by
      rw [produceFrom, hproduce]
    have hstream := stream_setStream_self q id s
    have hcontent : ((q.setStream id s).stream id).content = t.content := by
      rw [hstream]
      rfl
    have hplace : ((q.setStream id s).stream id).schedulerStream.nextFinishTime =
        t.schedulerStream.nextFinishTime := by
      rw [hstream]
    rw [hfrom]
    refine ⟨q.step_setStream id s ?_ q.currentMessageId, rfl,
      .inr ⟨chunk, t, _, rfl, hproduce, hadvanced, hcontent, hplace⟩⟩
    change _ = q.totalBufferedAmount + t.bufferedAmount
    omega

def asked (q : RRSendQueue) (now : Timestamp) (maxSize : Nat) : List OutgoingStream :=
  (produceLoop q.rescheduling now maxSize q.scheduler.activeStreams.entries.length q).2.2

section Rescheduling

/-- A round without data keeps `P` and uses up an active stream. -/
def Skips (P : RRSendQueue → Prop) (now : Timestamp) (maxSize : Nat) : Prop :=
  ∀ q, P q → ∀ time id rest, q.First time id rest → (q.turn id now maxSize).1 = none →
    P (q.turn id now maxSize).2 ∧ (q.turn id now maxSize).2.scheduler.activeStreams.entries = rest

variable {P : RRSendQueue → Prop} {now : Timestamp} {maxSize : Nat} (skip : Skips P now maxSize)
include skip

theorem produceLoop_rescheduling :
    ∀ (rounds : Nat) (q : RRSendQueue), P q → q.scheduler.activeStreams.entries.length ≤ rounds →
      let loop := produceLoop true now maxSize rounds q
      (loop.1 = none ∧ P loop.2.1 ∧ loop.2.1.scheduler.activeStreams.entries = [] ∨
        ∃ p time id rest chunk, P p ∧ p.First time id rest ∧
          (p.turn id now maxSize).1 = some chunk ∧ loop.1 = some chunk ∧
          loop.2.1 = (p.turn id now maxSize).2) ∧
      ∀ s ∈ loop.2.2, ∃ p time id rest, P p ∧ p.First time id rest ∧
        s = (p.reschedule id).stream id := by
  intro rounds
  induction rounds with
  | zero =>
    intro q hq hrounds
    have hempty := length_eq_zero_iff.mp (Nat.le_zero.mp hrounds)
    have hloop : produceLoop true now maxSize 0 q = (none, q, []) := by
      simp [produceLoop, hempty]
    rw [hloop]
    exact ⟨.inl ⟨rfl, hq, hempty⟩, fun s hs => absurd hs not_mem_nil⟩
  | succ rounds ih =>
    intro q hq hrounds
    cases hentries : q.scheduler.activeStreams.entries with
    | nil =>
      have hloop : produceLoop true now maxSize (rounds + 1) q = (none, q, []) := by
        rw [produceLoop, hentries]
      rw [hloop]
      exact ⟨.inl ⟨rfl, hq, hentries⟩, fun s hs => absurd hs not_mem_nil⟩
    | cons first rest =>
      obtain ⟨id, hid⟩ : ∃ id, (ofLex first.1).2 = id := ⟨_, rfl⟩
      have hfirst : q.First (ofLex first.1).1 id rest := hid ▸ hentries
      have hcurrent : (q.reschedule id).scheduler.currentStream = some id := rfl
      have hthis : ∃ p time' id' rest', P p ∧ p.First time' id' rest' ∧
          (q.reschedule id).stream id = (p.reschedule id').stream id' :=
        ⟨q, _, id, rest, hq, hfirst, rfl⟩
      cases hfrom : (q.turn id now maxSize).1 with
      | some chunk =>
        have hloop : produceLoop true now maxSize (rounds + 1) q =
            (some chunk, (q.turn id now maxSize).2, [(q.reschedule id).stream id]) := by
          simp only [produceLoop, hentries, rescheduleIf, hid, if_true, hcurrent, hfrom]
        rw [hloop]
        refine ⟨.inr ⟨q, _, id, rest, chunk, hq, hfirst, hfrom, rfl, rfl⟩, fun s hs => ?_⟩
        rwa [mem_singleton.mp hs]
      | none =>
        have hloop : produceLoop true now maxSize (rounds + 1) q =
            let later := produceLoop true now maxSize rounds (q.turn id now maxSize).2
            (later.1, later.2.1, (q.reschedule id).stream id :: later.2.2) := by
          simp only [produceLoop, hentries, rescheduleIf, hid, if_true, hcurrent, hfrom]
        rw [hloop]
        obtain ⟨hnext, hrest⟩ := skip q hq _ id rest hfirst hfrom
        rw [hentries, length_cons] at hrounds
        obtain ⟨hresult, hlater⟩ := ih _ hnext (by rw [hrest]; omega)
        exact ⟨hresult, forall_mem_cons.mpr ⟨hthis, hlater⟩⟩

end Rescheduling

theorem produceLoop_sending {rest : List QueuedMessage}
    (current : q.scheduler.currentStream = some id) (sending : (q.stream id).Sending item rest)
    (active : q.ActiveExactly id) (now : Timestamp) (maxSize : Nat) :
    ∃ chunk, (q.produceFrom id now maxSize).1 = some chunk ∧
      produceLoop false now maxSize q.scheduler.activeStreams.entries.length q =
        (some chunk, (q.produceFrom id now maxSize).2, [q.stream id]) := by
  obtain ⟨chunk, hchunk⟩ : ∃ chunk, (q.produceFrom id now maxSize).1 = some chunk := by
    change ∃ chunk, ((q.stream id).produce now maxSize q.totalBufferedAmount).1 = some chunk
    rw [produce_eq, (sending.skipExpired now).2, produceFront, sending.items]
    exact ⟨_, rfl⟩
  have hactive : q.Active _ id := (active _).mpr ⟨sending.bytesToSend_pos, rfl⟩
  refine ⟨chunk, hchunk, ?_⟩
  cases hentries : q.scheduler.activeStreams.entries with
  | nil =>
    rw [Active, hentries] at hactive
    cases hactive
  | cons first others =>
    simp only [length_cons, produceLoop, hentries, rescheduleIf, Bool.false_eq_true, if_false,
      current, hchunk]

theorem Steady.skip (h : q.Steady) (first : q.First time id rest) (now : Timestamp)
    (room : 0 < maxSize) (empty : (q.turn id now maxSize).1 = none) :
    Updated id (q.withCurrent id) ((q.stream id).skipExpired now)
        (q.turn id now maxSize).2 ∧ ((q.stream id).skipExpired now).items = [] ∧
      (q.turn id now maxSize).2.scheduler.activeStreams.entries = rest := by
  obtain ⟨hbytes, hstep, ⟨place, hstream⟩, hinactive, hentries⟩ := h.reschedule first
  have hrunning := running_of_bytesToSend hbytes
  have hcontent : ((q.reschedule id).stream id).content = (q.stream id).content := by
    rw [hstream]
    rfl
  have hskip : (((q.reschedule id).stream id).skipExpired now).content =
      ((q.stream id).skipExpired now).content := by
    rw [hstream]
    rfl
  obtain ⟨hfrom, hscheduler, ⟨-, hitems, hafter⟩ | ⟨chunk, t, total, hsome, -⟩⟩ :=
    (q.reschedule id).produceFrom_spec id now room ((h.wellFormed id).congr hcontent)
      (by rw [hstream]; exact hrunning) (by rw [hstream]; exact h.bufferedAmount_le id)
  · have hidle := bytesToSend_of_empty hitems
    refine ⟨⟨hstep.trans hfrom, by rw [hafter, hskip], ?_⟩, ?_, by rw [hscheduler, hentries]⟩
    · exact Inactive.activeExactly hinactive (by rw [hafter, hidle])
    · rw [hstream] at hitems
      exact hitems
  · rw [hsome] at empty
    cases empty

/-- A chunk of stream `id` is sent from queue `p`, which leads to queue `r`. -/
structure Sent (now : Timestamp) (maxSize : Nat) (p : RRSendQueue) (id : StreamID)
    (chunk : DataToSend) (r : RRSendQueue) : Prop where
  running : (p.stream id).Running
  produced : ∃ (s t : OutgoingStream) (total : Nat) (time : ℚ), s.content = (p.stream id).content ∧
    s.produce now maxSize p.totalBufferedAmount = (some chunk, t, total) ∧
    (s.skipExpired now).Advanced chunk t ∧
    Updated id ((p.withCurrent id).withFlags (!chunk.data.isEnd) time) t r

theorem noteProduced_rescheduling (chunk : DataToSend)
    (current : q.scheduler.currentStream = some id) :
    q.noteProduced true chunk = (q.withFlags (!chunk.data.isEnd)
      (q.stream id).schedulerStream.currentVirtualTime).maybeMakeActive id := by
  have hstream : ∀ sending time, (q.withFlags sending time).stream id = q.stream id :=
    fun _ _ => rfl
  unfold noteProduced maybeMakeActive
  rw [current]
  rw [hstream]
  by_cases hbytes : (q.stream id).bytesToSendInNextMessage = 0
  · simp [hbytes, withFlags]
  · simp [hbytes, withFlags]

theorem noteProduced_sending (chunk : DataToSend) (current : q.scheduler.currentStream = some id) :
    q.noteProduced false chunk =
      let r := q.withFlags (!chunk.data.isEnd) (q.stream id).schedulerStream.currentVirtualTime
      if (q.stream id).bytesToSendInNextMessage = 0 then r.makeInactive id else r := by
  unfold noteProduced
  rw [current]
  simp [withFlags]

theorem Steady.sent_rescheduling (h : q.Steady) (first : q.First time id rest)
    (room : 0 < maxSize) (found : (q.turn id now maxSize).1 = some chunk) :
    Sent now maxSize q id chunk
      ((q.turn id now maxSize).2.noteProduced true chunk) := by
  obtain ⟨hbytes, hstep, ⟨place, hstream⟩, hinactive, -⟩ := h.reschedule first
  have hrunning := running_of_bytesToSend hbytes
  have hcontent : ((q.reschedule id).stream id).content = (q.stream id).content := by
    rw [hstream]
    rfl
  obtain ⟨hfrom, hscheduler, ⟨hnone, -⟩ | ⟨chunk', t, total, hsome, hproduce, hadvanced, hafter, -⟩⟩ :=
    (q.reschedule id).produceFrom_spec id now room ((h.wellFormed id).congr hcontent)
      (by rw [hstream]; exact hrunning) (by rw [hstream]; exact h.bufferedAmount_le id)
  · rw [hnone] at found
    cases found
  · obtain rfl : chunk' = chunk := Option.some.inj (hsome.symm.trans found)
    refine ⟨hrunning, (q.reschedule id).stream id, t, total,
      ((q.turn id now maxSize).2.stream id).schedulerStream.currentVirtualTime,
      hcontent, hproduce, hadvanced, ?_⟩
    rw [noteProduced_rescheduling chunk' rfl]
    have hnote := updated_maybeMakeActive ((hstep.trans hfrom).withFlags (!chunk'.data.isEnd)
      ((q.turn id now maxSize).2.stream id).schedulerStream.currentVirtualTime) hinactive
    exact ⟨hnote.step, hnote.content.trans hafter, hnote.active⟩

theorem Steady.sent_sending (h : q.Steady) {rest : List QueuedMessage}
    (current : q.scheduler.currentStream = some id) (sending : (q.stream id).Sending item rest)
    (room : 0 < maxSize) (found : (q.produceFrom id now maxSize).1 = some chunk) :
    Sent now maxSize q id chunk ((q.produceFrom id now maxSize).2.noteProduced false chunk) := by
  have hwith : q.withCurrent id = q := by
    rw [RRSendQueue.withCurrent, ← current]
  obtain ⟨hfrom, hscheduler,
      ⟨hnone, -⟩ | ⟨chunk', t, total, hsome, hproduce, hadvanced, hafter, hplace⟩⟩ :=
    q.produceFrom_spec id now room (h.wellFormed id) sending.running (h.bufferedAmount_le id)
  · rw [hnone] at found
    cases found
  · obtain rfl : chunk' = chunk := Option.some.inj (hsome.symm.trans found)
    refine ⟨sending.running, q.stream id, t, total,
      ((q.produceFrom id now maxSize).2.stream id).schedulerStream.currentVirtualTime, rfl, hproduce,
      hadvanced, ?_⟩
    have hflags := hfrom.withFlags (!chunk'.data.isEnd)
      ((q.produceFrom id now maxSize).2.stream id).schedulerStream.currentVirtualTime
    rw [noteProduced_sending chunk' (by rw [hscheduler, current]), hwith]
    split_ifs with hidle
    · have hnote := updated_makeInactive hflags hidle
      exact ⟨hnote.step, hnote.content.trans hafter, hnote.active⟩
    · refine ⟨hflags, hafter, ?_⟩
      refine (h.active id).congr (fun _ => Iff.rfl) ?_ ?_
      · exact iff_of_true (Nat.pos_of_ne_zero hidle) sending.bytesToSend_pos
      · refine hplace.trans ?_
        rw [hadvanced.schedulerStream]
        rfl

theorem Sent.consistent {p : RRSendQueue} (h : Sent now maxSize p id chunk r) (steady : p.Steady) :
    r.Consistent := by
  obtain ⟨s, t, total, time, -, -, hadvanced, hupdated⟩ := h.produced
  refine ⟨((steady.withCurrent id).withFlags _ time).updated hupdated hadvanced.wellFormed,
    fun hflag => ?_⟩
  rw [hupdated.step.currentlySending] at hflag
  have hmore : chunk.data.isEnd = false := by
    change (!chunk.data.isEnd) = true at hflag
    simpa using hflag
  obtain ⟨item, rest, hsending⟩ := hadvanced.sending hmore
  exact ⟨id, item, rest, hupdated.step.currentStream, hsending.congr hupdated.content⟩

/-- While the scheduler looks for data, a message that is being sent stays in its stream. -/
structure Searching (q : RRSendQueue) : Prop extends Steady q where
  sending : q.scheduler.currentlySendingAMessage = true →
    ∃ id item rest, (q.stream id).Sending item rest

theorem Searching.skip (h : q.Searching) (first : q.First time id rest)
    (room : 0 < maxSize) (empty : (q.turn id now maxSize).1 = none) :
    (q.turn id now maxSize).2.Searching := by
  obtain ⟨hupdated, hitems, -⟩ := h.toSteady.skip first now room empty
  refine ⟨(h.toSteady.withCurrent id).updated hupdated ((h.wellFormed id).skipExpired now),
    fun hflag => ?_⟩
  obtain ⟨other, item, rest, hsending⟩ := h.sending hflag
  have hother : other ≠ id := by
    rintro rfl
    rw [(hsending.skipExpired now).2, hsending.items] at hitems
    cases hitems
  refine ⟨other, item, rest, ?_⟩
  rw [hupdated.step.stream other hother]
  exact hsending

theorem produce_of_none
    (h : (produceLoop q.rescheduling now maxSize q.scheduler.activeStreams.entries.length q).1 = none) :
    q.produce now maxSize = (none,
      (produceLoop q.rescheduling now maxSize q.scheduler.activeStreams.entries.length q).2.1) := by
  unfold produce
  dsimp only
  rw [h]

theorem produce_of_some
    (h : (produceLoop q.rescheduling now maxSize q.scheduler.activeStreams.entries.length q).1 =
      some chunk) :
    q.produce now maxSize = (some chunk,
      (produceLoop q.rescheduling now maxSize q.scheduler.activeStreams.entries.length
        q).2.1.noteProduced q.rescheduling chunk) := by
  unfold produce
  dsimp only
  rw [h]

theorem Consistent.searching (h : q.Consistent) : q.Searching := by
  refine ⟨h.toSteady, fun hflag => ?_⟩
  obtain ⟨id, item, rest, -, hsending⟩ := h.sending hflag
  exact ⟨id, item, rest, hsending⟩

theorem Searching.consistent_of_empty (h : q.Searching)
    (empty : q.scheduler.activeStreams.entries = []) : q.Consistent := by
  refine ⟨h.toSteady, fun hflag => ?_⟩
  obtain ⟨id, item, rest, hsending⟩ := h.sending hflag
  have hactive : q.Active _ id := (h.active id _).mpr ⟨hsending.bytesToSend_pos, rfl⟩
  rw [Active, empty] at hactive
  cases hactive

theorem Consistent.produce (h : q.Consistent) (now : Timestamp) (room : 0 < maxSize) :
    (q.produce now maxSize).2.Consistent ∧ ∀ s ∈ q.asked now maxSize, s.Running := by
  have hskip : Skips Searching now maxSize := fun p hp time id rest first empty =>
    ⟨hp.skip first room empty, (hp.toSteady.skip first now room empty).2.2⟩
  rw [asked]
  cases hrescheduling : q.rescheduling with
  | true =>
    obtain ⟨hresult, hasked⟩ := produceLoop_rescheduling hskip _ q h.searching le_rfl
    refine ⟨?_, fun s hmem => ?_⟩
    · rw [← hrescheduling] at hresult
      rcases hresult with
        ⟨hnone, hsearching, hempty⟩ | ⟨p, time, id, rest, chunk, hp, first, hfrom, hloop, hafter⟩
      · rw [produce_of_none hnone]
        exact hsearching.consistent_of_empty hempty
      · rw [produce_of_some hloop, hafter, hrescheduling]
        exact (hp.toSteady.sent_rescheduling first room hfrom).consistent hp.toSteady
    · obtain ⟨p, time, id, rest, hp, first, rfl⟩ := hasked s hmem
      obtain ⟨hbytes, -, ⟨place, hstream⟩, -⟩ := hp.toSteady.reschedule first
      rw [hstream]
      exact running_of_bytesToSend hbytes
  | false =>
    have hflag : q.scheduler.currentlySendingAMessage = true := by
      simpa using (Bool.or_eq_false_iff.mp hrescheduling).2
    obtain ⟨id, item, rest, hcurrent, hsending⟩ := h.sending hflag
    obtain ⟨chunk, hfrom, hloop⟩ :=
      produceLoop_sending hcurrent hsending (h.active id) now maxSize
    rw [hloop]
    refine ⟨?_, fun s hmem => ?_⟩
    · rw [← hrescheduling] at hloop
      rw [produce_of_some (congrArg Prod.fst hloop), hloop, hrescheduling]
      exact (h.toSteady.sent_sending hcurrent hsending room hfrom).consistent h.toSteady
    · rw [mem_singleton.mp hmem]
      exact hsending.running

inductive Call where
  | add (now : Timestamp) (message : DcSctpMessage) (options : SendOptions)
  | produce (now : Timestamp) (maxSize : Nat)
  | discard (id : StreamID) (messageId : OutgoingMessageId)
  | prepareResetStream (id : StreamID)
  | getStreamsReadyToBeReset
  | commitResetStreams
  | rollbackResetStreams
  | setStreamPriority (id : StreamID) (priority : StreamPriority)
  | reset
  | enableMessageInterleaving (enabled : Bool)
deriving DecidableEq

def perform (q : RRSendQueue) : Call → RRSendQueue
  | .add now message options => q.add now message options
  | .produce now maxSize => (q.produce now maxSize).2
  | .discard id messageId => (q.discard id messageId).2
  | .prepareResetStream id => q.prepareResetStream id
  | .getStreamsReadyToBeReset => q.getStreamsReadyToBeReset.2
  | .commitResetStreams => q.commitResetStreams
  | .rollbackResetStreams => q.rollbackResetStreams
  | .setStreamPriority id priority => q.setStreamPriority id priority
  | .reset => q.reset
  | .enableMessageInterleaving enabled => q.enableMessageInterleaving enabled

/-- There is room for payload, and a discarded message that is queued was partly produced. -/
def permitted (q : RRSendQueue) : Call → Bool
  | .produce _ maxSize => 0 < maxSize
  | .discard id messageId =>
    (q.stream id).items.head?.map QueuedMessage.messageId ≠ some messageId ||
      (q.stream id).hasPartiallySentMessage
  | _ => true

/-- Every call of the run is one that the caller may make. -/
def permittedRun (q : RRSendQueue) : List Call → Bool
  | [] => true
  | call :: calls => q.permitted call && (q.perform call).permittedRun calls

theorem Consistent.perform (h : q.Consistent) {call : Call} (allowed : q.permitted call = true) :
    (q.perform call).Consistent := by
  cases call with
  | add now message options => exact h.add now message options
  | produce now maxSize => exact (h.produce now (of_decide_eq_true allowed)).1
  | discard id messageId =>
    refine h.discard id messageId fun hfront => ?_
    simpa [permitted, hfront] using allowed
  | prepareResetStream id => exact h.prepareResetStream id
  | getStreamsReadyToBeReset => exact h.getStreamsReadyToBeReset
  | commitResetStreams => exact h.commitResetStreams
  | rollbackResetStreams => exact h.rollbackResetStreams
  | setStreamPriority id priority => exact h.setStreamPriority id priority
  | reset => exact h.reset
  | enableMessageInterleaving enabled =>
    exact ⟨{ h with }, h.sending⟩

theorem Consistent.run (h : q.Consistent) (calls : List Call)
    (allowed : q.permittedRun calls = true) : (calls.foldl RRSendQueue.perform q).Consistent := by
  induction calls generalizing q with
  | nil => exact h
  | cons call calls ih =>
    obtain ⟨hcall, hcalls⟩ := Bool.and_eq_true_iff.mp allowed
    exact ih (h.perform hcall) hcalls

theorem stream_of_mem (hmem : (id, s) ∈ q.streams.entries) : q.stream id = s := by
  rw [stream, (q.streams.find?_eq_some_iff id s).mpr hmem, Option.getD_some]

theorem mem_streams_of_bytesToSend (h : 0 < (q.stream id).bytesToSendInNextMessage) :
    (id, q.stream id) ∈ q.streams.entries := by
  rw [← OrdMap.find?_eq_some_iff]
  unfold stream at h ⊢
  cases hfind : q.streams.find? id with
  | none =>
    rw [hfind, bytesToSend_of_empty rfl] at h
    exact absurd h (Nat.lt_irrefl 0)
  | some s => rfl

theorem Steady.mem_activeStreams_iff (h : q.Steady) (id : StreamID) :
    id ∈ q.scheduler.activeStreams.entries.map (fun e => (ofLex e.1).2) ↔
      0 < (q.stream id).bytesToSendInNextMessage := by
  rw [mem_map]
  constructor
  · rintro ⟨⟨⟨time, id⟩, ⟨⟩⟩, hmem, rfl⟩
    exact ((h.active id time).mp hmem).1
  · intro hbytes
    exact ⟨_, (h.active id _).mpr ⟨hbytes, rfl⟩, rfl⟩

theorem Steady.isConsistent (h : q.Steady) : q.isConsistent = true := by
  refine Bool.and_eq_true_iff.mpr ⟨decide_eq_true ?_, decide_eq_true h.amount⟩
  ext id
  rw [mem_toFinset, mem_toFinset, h.mem_activeStreams_iff, mem_map]
  constructor
  · rintro ⟨⟨id, s⟩, hmem, rfl⟩
    obtain ⟨hentry, hbytes⟩ := mem_filter.mp hmem
    rw [stream_of_mem hentry]
    exact of_decide_eq_true hbytes
  · intro hbytes
    exact ⟨(id, q.stream id), mem_filter.mpr
      ⟨mem_streams_of_bytesToSend hbytes, decide_eq_true hbytes⟩, rfl⟩

/-- After every permitted run the queue is consistent, every `Produce` has returned, and the next
one returns and asks no paused stream. -/
theorem sendQueue_consistent (mtu : Nat) (defaultPriority : StreamPriority) (calls : List Call)
    (allowed : (initial mtu defaultPriority).permittedRun calls = true) :
    let q := calls.foldl perform (initial mtu defaultPriority)
    q.isConsistent = true ∧ (∀ e ∈ q.streams.entries, e.2.isConsistent = true) ∧
      (∀ id, id ∈ q.scheduler.activeStreams.entries.map (fun e => (ofLex e.1).2) ↔
        0 < (q.stream id).bytesToSendInNextMessage) ∧ q.totalBufferedAmount =
        (q.streams.entries.map fun e => (e.2.items.map QueuedMessage.remainingSize).sum).sum ∧
      q.faulted = false ∧ ∀ now maxSize, 0 < maxSize → (q.produce now maxSize).2.faulted = false ∧
        ∀ s ∈ q.asked now maxSize, s.pauseState ≠ .paused ∧ s.pauseState ≠ .resetting := by
  intro q
  have hq : q.Consistent := (consistent_initial mtu defaultPriority).run calls allowed
  have hstreams : ∀ e ∈ q.streams.entries, e.2.isConsistent = true := by
    intro e hmem
    rw [← stream_of_mem hmem]
    exact decide_eq_true (hq.wellFormed e.1).amount
  refine ⟨hq.isConsistent, hstreams, hq.mem_activeStreams_iff, ?_, hq.running, ?_⟩
  · rw [← hq.amount]
    exact congrArg sum (map_congr_left fun e hmem =>
      (of_decide_eq_true (hstreams e hmem)).symm)
  · intro now maxSize room
    obtain ⟨hnext, hasked⟩ := hq.produce now room
    refine ⟨hnext.running, fun s hmem => ?_⟩
    rcases hasked s hmem with h | h <;> rw [h] <;> exact ⟨nofun, nofun⟩

/-- Two streams share the queue: one message is discarded in progress, one stream is reset. -/
theorem sendQueue_consistent_two_streams : let calls : List Call :=
      [.add (.finite 0) ⟨1, 53, [1, 2, 3]⟩ {}, .add (.finite 0) ⟨2, 53, [4, 5]⟩ {},
        .produce (.finite 0) 2, .discard 1 0, .produce (.finite 0) 1, .prepareResetStream 2,
        .produce (.finite 0) 1, .getStreamsReadyToBeReset, .commitResetStreams, .reset]
    (initial 100 256).permittedRun calls = true ∧
      (calls.foldl perform (initial 100 256)).isConsistent = true := by
  intro calls
  have hallowed : (initial 100 256).permittedRun calls = true := by decide +kernel
  exact ⟨hallowed, (sendQueue_consistent 100 256 calls hallowed).1⟩

end RRSendQueue

end Dcsctp
