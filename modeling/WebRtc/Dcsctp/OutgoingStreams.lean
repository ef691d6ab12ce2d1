import WebRtc.Dcsctp.RRSendQueue

/-!
# Outgoing streams

Between two calls a stream either rests, with no message begun, or sends the message at its
front. What each operation makes of a stream is said here for the stream alone; the queue and
its scheduler follow in `SendQueueConsistency`.
-/

namespace Dcsctp

open Units QueuedMessage List

namespace QueuedMessage

structure Fresh (item : QueuedMessage) : Prop where
  mid : item.mid = none
  ssn : item.ssn = none
  currentFsn : item.currentFsn = 0
  remainingOffset : item.remainingOffset = 0
  remainingSize : item.remainingSize = item.message.payload.length

/-- Some fragment of the message has been sent, and some bytes are left. -/
structure Started (item : QueuedMessage) : Prop where
  mid : item.mid.isSome
  ssn : item.ssn.isSome = !item.attributes.unordered
  remainingOffset : 0 < item.remainingOffset
  remainingSize : 0 < item.remainingSize
  size : item.remainingOffset + item.remainingSize = item.message.payload.length

variable {item : QueuedMessage}

theorem Fresh.restart_eq (h : item.Fresh) : item.restart = item := by
  obtain ⟨messageId, message, attributes, offset, size, mid, ssn, fsn⟩ := item
  obtain ⟨rfl, rfl, rfl, rfl, hsize⟩ := h
  dsimp only at hsize
  subst hsize
  rfl

theorem Fresh.size (h : item.Fresh) :
    item.remainingOffset + item.remainingSize = item.message.payload.length := by
  rw [h.remainingOffset, h.remainingSize, Nat.zero_add]

theorem length_fragment (size : item.remainingOffset + item.remainingSize =
    item.message.payload.length) (maxSize : Nat) :
    (item.fragment maxSize).length = min maxSize item.remainingSize := by
  simp only [fragment, length_take, length_drop]
  omega

structure Numbered (item : QueuedMessage) : Prop where
  mid : item.mid.isSome
  ssn : item.ssn.isSome = !item.attributes.unordered
  size : item.remainingOffset + item.remainingSize = item.message.payload.length
  left : item.remainingOffset = 0 ∨ 0 < item.remainingSize

theorem Started.numbered (h : item.Started) : item.Numbered :=
  ⟨h.mid, h.ssn, h.size, .inr h.remainingSize⟩

namespace Numbered

variable (h : item.Numbered) {maxSize : Nat} (room : 0 < maxSize)
include h room

/-- Only an empty fragment of a message that has bytes has no place in its message. -/
theorem comparable : item.comparable maxSize = true := by
  have hlength := length_fragment h.size maxSize
  by_cases hempty : item.message.payload = []
  · simp [QueuedMessage.comparable, hempty]
  · have hpos := length_pos_iff.mpr hempty
    have hne : item.fragment maxSize ≠ [] := by
      apply ne_nil_of_length_pos
      have := h.size
      have := h.left
      omega
    simp [QueuedMessage.comparable, hne]

theorem isBeginning_iff : item.isBeginning maxSize = true ↔ item.remainingOffset = 0 := by
  rw [isBeginning, h.comparable room, Bool.true_and, decide_eq_true_iff]

theorem isEnd_iff : item.isEnd maxSize = true ↔ item.remainingSize ≤ maxSize := by
  rw [isEnd, h.comparable room, Bool.true_and, decide_eq_true_iff, length_fragment h.size]
  have := h.size
  omega

theorem started_advance (more : item.isEnd maxSize = false) : (item.advance maxSize).Started := by
  have hmore : maxSize < item.remainingSize := by
    rw [← Bool.not_eq_true, h.isEnd_iff room] at more
    omega
  have hsize := h.size
  have hlength := length_fragment h.size maxSize
  refine ⟨h.mid, h.ssn, ?_, ?_, ?_⟩
  · change 0 < item.remainingOffset + (item.fragment maxSize).length
    omega
  · change 0 < item.remainingSize - (item.fragment maxSize).length
    omega
  · change item.remainingOffset + (item.fragment maxSize).length +
      (item.remainingSize - (item.fragment maxSize).length) = item.message.payload.length
    omega

end Numbered

end QueuedMessage

namespace OutgoingStream

variable {s t : OutgoingStream} {item : QueuedMessage} {rest : List QueuedMessage} {maxSize : Nat}

variable (s)

def number (item : QueuedMessage) : QueuedMessage × OutgoingStream :=
  let numbered := s.allocateMid item
  numbered.2.allocateSsn numbered.1

theorem number_fresh (fresh : item.Fresh) : s.number item = if item.attributes.unordered then
        ({ item with mid := some s.nextUnorderedMid },
          { s with nextUnorderedMid := s.nextUnorderedMid + 1 })
      else
        ({ item with mid := some s.nextOrderedMid, ssn := some s.nextSsn },
          { s with nextOrderedMid := s.nextOrderedMid + 1, nextSsn := s.nextSsn + 1 }) := by
  cases hunordered : item.attributes.unordered <;>
    simp [number, allocateMid, allocateSsn, fresh.mid, fresh.ssn, hunordered]

theorem number_started (started : item.Started) : s.number item = (item, s) := by
  obtain ⟨mid, hmid⟩ := Option.isSome_iff_exists.mp started.mid
  have hssn : (!item.attributes.unordered && item.ssn.isNone) = false := by
    rw [← Option.not_isSome, started.ssn]
    cases item.attributes.unordered <;> rfl
  simp [number, allocateMid, allocateSsn, hmid, hssn]

theorem number_numbered (h : item.Fresh ∨ item.Started) : (s.number item).1.Numbered := by
  rcases h with fresh | started
  · rw [number_fresh s fresh]
    cases hunordered : item.attributes.unordered
    · exact ⟨rfl, by simp [hunordered], fresh.size, .inl fresh.remainingOffset⟩
    · exact ⟨rfl, by simp [hunordered, fresh.ssn], fresh.size, .inl fresh.remainingOffset⟩
  · rw [number_started s started]
    exact started.numbered

theorem number_eq (h : item.Fresh ∨ item.Started) :
    (∃ mid ssn, (s.number item).1 = { item with mid := mid, ssn := ssn }) ∧
      ∃ unorderedMid orderedMid ssn, (s.number item).2 = { s with
        nextUnorderedMid := unorderedMid, nextOrderedMid := orderedMid, nextSsn := ssn } := by
  rcases h with fresh | started
  · rw [number_fresh s fresh]
    split <;> exact ⟨⟨_, _, rfl⟩, _, _, _, rfl⟩
  · rw [number_started s started]
    exact ⟨⟨_, _, rfl⟩, _, _, _, rfl⟩

def Running : Prop := s.pauseState = .notPaused ∨ s.pauseState = .pending

variable {s}

structure Resting (s : OutgoingStream) : Prop where
  fresh : ∀ item ∈ s.items, item.Fresh
  notPending : s.pauseState ≠ .pending

structure Sending (s : OutgoingStream) (item : QueuedMessage) (rest : List QueuedMessage) :
    Prop where
  items : s.items = item :: rest
  started : item.Started
  fresh : ∀ other ∈ rest, other.Fresh
  running : s.Running

theorem Sending.not_resting (h : s.Sending item rest) : ¬s.Resting := by
  intro resting
  have hmid := h.started.mid
  rw [(resting.fresh item (h.items ▸ mem_cons_self)).mid] at hmid
  cases hmid

structure WellFormed (s : OutgoingStream) : Prop where
  phase : s.Resting ∨ ∃ item rest, s.Sending item rest
  amount : (s.items.map QueuedMessage.remainingSize).sum = s.bufferedAmount

theorem bytesToSend_eq (running : s.Running) :
    s.bytesToSendInNextMessage = (s.items.head?.map remainingSize).getD 0 := by
  apply if_neg
  rcases running with h | h <;> simp [h]

theorem bytesToSend_of_not_running (paused : ¬s.Running) : s.bytesToSendInNextMessage = 0 := by
  apply if_pos
  cases h : s.pauseState <;> simp_all [Running]

theorem running_of_bytesToSend (h : 0 < s.bytesToSendInNextMessage) : s.Running := by
  by_contra paused
  rw [bytesToSend_of_not_running paused] at h
  exact Nat.lt_irrefl 0 h

theorem bytesToSend_of_empty (h : s.items = []) : s.bytesToSendInNextMessage = 0 := by
  simp [bytesToSendInNextMessage, h]

theorem Sending.bytesToSend (h : s.Sending item rest) :
    s.bytesToSendInNextMessage = item.remainingSize := by
  rw [bytesToSend_eq h.running, h.items]
  rfl

theorem Sending.bytesToSend_pos (h : s.Sending item rest) : 0 < s.bytesToSendInNextMessage := by
  rw [h.bytesToSend]
  exact h.started.remainingSize

theorem wellFormed_initial (priority : StreamPriority) : (initial priority).WellFormed := by
  refine ⟨.inl ⟨?_, ?_⟩, rfl⟩
  · exact nofun
  · intro h
    cases h

def expired (now : Timestamp) (item : QueuedMessage) : Bool :=
  item.mid.isNone && item.attributes.expiresAt ≤ now

variable (s)

def skippedBytes (now : Timestamp) : Nat :=
  ((s.items.takeWhile (expired now)).map QueuedMessage.remainingSize).sum

def skipExpired (now : Timestamp) : OutgoingStream :=
  { s with
    items := s.items.dropWhile (expired now)
    bufferedAmount := s.bufferedAmount - s.skippedBytes now }

/-- What `Produce` does after the expired messages were skipped. -/
def produceFront (maxSize totalBufferedAmount : Nat) : Option DataToSend × OutgoingStream × Nat :=
  match s.items with
  | [] => (none, s, totalBufferedAmount)
  | item :: rest =>
    let produced := s.produceFragment item rest maxSize
    (some produced.1, produced.2, totalBufferedAmount - produced.1.data.size)

theorem skipExpired_eq_self (now : Timestamp)
    (h : ∀ item ∈ s.items.head?, expired now item = false) :
    s.skippedBytes now = 0 ∧ s.skipExpired now = s := by
  obtain ⟨schedulerStream, pauseState, unorderedMid, orderedMid, ssn, items, amount⟩ := s
  cases items with
  | nil => exact ⟨rfl, rfl⟩
  | cons item rest =>
    have hitem := h item rfl
    simp [skipExpired, skippedBytes, hitem]

variable {s}

theorem produceLoop_eq (now : Timestamp) (maxSize : Nat) :
    ∀ (items : List QueuedMessage) (s : OutgoingStream) (total : Nat), s.items = items →
      produceLoop now maxSize items (s, total) =
        (s.skipExpired now).produceFront maxSize (total - s.skippedBytes now) := by
  intro items
  induction items with
  | nil =>
    intro s total hitems
    obtain ⟨hskipped, hsame⟩ := s.skipExpired_eq_self now (by simp [hitems])
    rw [hsame, hskipped, produceFront, hitems]
    rfl
  | cons item rest ih =>
    intro s total hitems
    by_cases hexpired : expired now item = true
    · have hskipped : s.skippedBytes now = item.remainingSize + ({ s with
            items := rest
            bufferedAmount := s.bufferedAmount - item.remainingSize } :
              OutgoingStream).skippedBytes now := by
        simp [skippedBytes, hitems, hexpired]
      rw [produceLoop, if_pos (by exact hexpired), ih _ _ rfl]
      simp only [skipExpired, hskipped, hitems, dropWhile_cons_of_pos hexpired, Nat.sub_sub]
    · obtain ⟨hskipped, hsame⟩ := s.skipExpired_eq_self now (by simp [hitems, hexpired])
      rw [produceLoop, if_neg (by exact hexpired), hsame, hskipped, produceFront, hitems]
      rfl

theorem produce_eq (s : OutgoingStream) (now : Timestamp) (maxSize total : Nat) :
    s.produce now maxSize total =
      (s.skipExpired now).produceFront maxSize (total - s.skippedBytes now) :=
  produceLoop_eq now maxSize s.items s total rfl

theorem WellFormed.skippedBytes_le (h : s.WellFormed) (now : Timestamp) :
    s.skippedBytes now ≤ s.bufferedAmount := by
  rw [← h.amount, ← takeWhile_append_dropWhile (p := expired now) (l := s.items),
    map_append, sum_append]
  exact Nat.le_add_right _ _

theorem Sending.skipExpired (h : s.Sending item rest) (now : Timestamp) :
    s.skippedBytes now = 0 ∧ s.skipExpired now = s := by
  refine s.skipExpired_eq_self now ?_
  rw [h.items]
  rintro _ ⟨⟩
  rw [expired, ← Option.not_isSome, h.started.mid]
  rfl

theorem Resting.skipExpired (h : s.Resting) (now : Timestamp) : (s.skipExpired now).Resting :=
  ⟨fun item hmem => h.fresh item ((dropWhile_sublist _).subset hmem), h.notPending⟩

theorem WellFormed.skipExpired (h : s.WellFormed) (now : Timestamp) :
    (s.skipExpired now).WellFormed := by
  refine ⟨?_, ?_⟩
  · rcases h.phase with resting | ⟨item, rest, sending⟩
    · exact .inl (resting.skipExpired now)
    · rw [(sending.skipExpired now).2]
      exact .inr ⟨item, rest, sending⟩
  · have hamount := h.amount
    rw [← takeWhile_append_dropWhile (p := expired now) (l := s.items), map_append,
      sum_append] at hamount
    change ((s.items.dropWhile (expired now)).map remainingSize).sum =
      s.bufferedAmount - s.skippedBytes now
    rw [skippedBytes]
    omega

theorem WellFormed.front (h : s.WellFormed) (hitems : s.items = item :: rest) :
    (item.Fresh ∨ item.Started) ∧ ∀ other ∈ rest, other.Fresh := by
  rcases h.phase with resting | ⟨_, _, sending⟩
  · have hfresh := resting.fresh
    rw [hitems] at hfresh
    exact ⟨.inl (hfresh item mem_cons_self), (forall_mem_cons.mp hfresh).2⟩
  · obtain ⟨rfl, rfl⟩ := cons.inj (hitems.symm.trans sending.items)
    exact ⟨.inr sending.started, sending.fresh⟩

structure Advanced (s : OutgoingStream) (chunk : DataToSend) (t : OutgoingStream) : Prop where
  schedulerStream : t.schedulerStream = s.schedulerStream
  wellFormed : t.WellFormed
  amount : t.bufferedAmount + chunk.data.size = s.bufferedAmount
  resting : chunk.data.isEnd = true → t.Resting
  sending : chunk.data.isEnd = false → ∃ item rest, t.Sending item rest

def cut (s : OutgoingStream) (item : QueuedMessage) (rest : List QueuedMessage) (maxSize : Nat) :
    OutgoingStream :=
  if item.isEnd maxSize then
    { s with
      items := rest
      bufferedAmount := s.bufferedAmount - (item.fragment maxSize).length
      pauseState := if s.pauseState = .pending then .paused else s.pauseState }
  else
    { s with
      items := item.advance maxSize :: rest
      bufferedAmount := s.bufferedAmount - (item.fragment maxSize).length }

theorem advanced_cut (numbered : item.Numbered) (fresh : ∀ other ∈ rest, other.Fresh)
    (running : s.Running)
    (amount : item.remainingSize + (rest.map remainingSize).sum = s.bufferedAmount)
    (room : 0 < maxSize) : s.Advanced (item.chunk maxSize) (s.cut item rest maxSize) := by
  have hlength := length_fragment numbered.size maxSize
  have hsize : (item.chunk maxSize).data.size = (item.fragment maxSize).length := rfl
  have hflag : (item.chunk maxSize).data.isEnd = item.isEnd maxSize := rfl
  cases hend : item.isEnd maxSize with
  | true =>
    have hall := (numbered.isEnd_iff room).mp hend
    have hresting : (s.cut item rest maxSize).Resting := by
      rw [cut, if_pos hend]
      refine ⟨fresh, ?_⟩
      split_ifs with h
      · simp
      · exact h
    have hamount : (s.cut item rest maxSize).bufferedAmount =
        s.bufferedAmount - (item.fragment maxSize).length := by rw [cut, if_pos hend]
    have hitems : (s.cut item rest maxSize).items = rest := by rw [cut, if_pos hend]
    refine ⟨by rw [cut, if_pos hend], ⟨.inl hresting, ?_⟩, ?_, fun _ => hresting, ?_⟩
    · rw [hitems]
      omega
    · omega
    · rw [hflag, hend]
      exact nofun
  | false =>
    have hmore := Bool.eq_false_iff.mp hend
    have hsending : (s.cut item rest maxSize).Sending (item.advance maxSize) rest := by
      rw [cut, if_neg hmore]
      exact ⟨rfl, numbered.started_advance room hend, fresh, running⟩
    have hamount : (s.cut item rest maxSize).bufferedAmount =
        s.bufferedAmount - (item.fragment maxSize).length := by rw [cut, if_neg hmore]
    refine ⟨by rw [cut, if_neg hmore], ⟨.inr ⟨_, _, hsending⟩, ?_⟩, ?_, ?_,
      fun _ => ⟨_, _, hsending⟩⟩
    · rw [hsending.items, map_cons, sum_cons]
      change item.remainingSize - (item.fragment maxSize).length + _ = _
      omega
    · omega
    · rw [hflag, hend]
      exact nofun

theorem WellFormed.produceFragment (h : s.WellFormed) (hitems : s.items = item :: rest)
    (running : s.Running) (room : 0 < maxSize) :
    s.Advanced (s.produceFragment item rest maxSize).1
      (s.produceFragment item rest maxSize).2 := by
  obtain ⟨hfront, hrest⟩ := h.front hitems
  obtain ⟨⟨mid, ssn, hitem⟩, unorderedMid, orderedMid, nextSsn, hstream⟩ := s.number_eq hfront
  have hamount := h.amount
  rw [hitems, map_cons] at hamount
  have hcut : (s.number item).2.Advanced ((s.number item).1.chunk maxSize) _ :=
    advanced_cut (s.number_numbered hfront) hrest (by rw [hstream]; exact running)
      (by rw [hstream, hitem]; exact hamount) room
  have hplace : (s.number item).2.schedulerStream = s.schedulerStream := by rw [hstream]
  have hbuffered : (s.number item).2.bufferedAmount = s.bufferedAmount := by rw [hstream]
  exact ⟨hcut.schedulerStream.trans hplace, hcut.wellFormed, hcut.amount.trans hbuffered,
    hcut.resting, hcut.sending⟩

theorem WellFormed.produce (h : s.WellFormed) (running : s.Running) (now : Timestamp)
    (room : 0 < maxSize) (total : Nat) :
    (s.produce now maxSize total = (none, s.skipExpired now, total - s.skippedBytes now) ∧
        (s.skipExpired now).items = []) ∨ ∃ chunk t, s.produce now maxSize total =
          (some chunk, t, total - s.skippedBytes now - chunk.data.size) ∧
        (s.skipExpired now).Advanced chunk t := by
  rw [produce_eq, produceFront]
  cases hitems : (s.skipExpired now).items with
  | nil => exact .inl ⟨rfl, rfl⟩
  | cons item rest =>
    exact .inr ⟨_, _, rfl, (h.skipExpired now).produceFragment hitems running room⟩

def content (s : OutgoingStream) : OutgoingStream :=
  { s with schedulerStream := { priority := 0 } }

section

variable (h : s.content = t.content)
include h

theorem items_congr : s.items = t.items := by
  have hitems := congrArg items h
  exact hitems

theorem pauseState_congr : s.pauseState = t.pauseState := by
  have hpauseState := congrArg pauseState h
  exact hpauseState

theorem nextSsn_congr : s.nextSsn = t.nextSsn := by
  have hnextSsn := congrArg nextSsn h
  exact hnextSsn

theorem bytesToSend_congr : s.bytesToSendInNextMessage = t.bytesToSendInNextMessage := by
  change s.content.bytesToSendInNextMessage = t.content.bytesToSendInNextMessage
  rw [h]

end

def append (s : OutgoingStream) (item : QueuedMessage) : OutgoingStream :=
  { s with
    bufferedAmount := s.bufferedAmount + item.message.payload.length
    items := s.items ++ [item] }

theorem bytesToSend_append_pos (h : 0 < s.bytesToSendInNextMessage) (item : QueuedMessage) :
    0 < (s.append item).bytesToSendInNextMessage := by
  have hrunning := running_of_bytesToSend h
  have happended : (s.append item).Running := hrunning
  rw [bytesToSend_eq hrunning] at h
  rw [bytesToSend_eq happended]
  cases hitems : s.items with
  | nil =>
    rw [hitems] at h
    exact absurd h (Nat.lt_irrefl 0)
  | cons first rest =>
    simpa [append, hitems] using h

def dropFront (s : OutgoingStream) (item : QueuedMessage) (rest : List QueuedMessage) :
    OutgoingStream :=
  { s with
    items := rest
    bufferedAmount := s.bufferedAmount - item.remainingSize
    pauseState := if s.pauseState = .pending then .paused else s.pauseState }

theorem eq_of_content (same : t.content = s.content) :
    t = { s with schedulerStream := t.schedulerStream } := by
  cases s
  cases t
  cases same
  rfl

theorem Sending.congr (h : s.Sending item rest) (same : t.content = s.content) :
    t.Sending item rest := by
  rw [eq_of_content same]
  exact { h with }

theorem Resting.congr (h : s.Resting) (same : t.content = s.content) : t.Resting := by
  rw [eq_of_content same]
  exact { h with }

theorem WellFormed.congr (h : s.WellFormed) (same : t.content = s.content) : t.WellFormed := by
  constructor
  · exact h.phase.imp (fun resting => resting.congr same)
      fun ⟨item, rest, sending⟩ => ⟨item, rest, sending.congr same⟩
  · have hamount := congrArg bufferedAmount same
    rw [items_congr same, h.amount]
    exact hamount.symm

theorem Resting.append (h : s.Resting) (item : QueuedMessage) (fresh : item.Fresh) :
    (s.append item).Resting :=
  ⟨forall_mem_append.mpr ⟨h.fresh, forall_mem_singleton.mpr fresh⟩, h.notPending⟩

theorem Sending.append (h : s.Sending item rest) (added : QueuedMessage) (fresh : added.Fresh) :
    (s.append added).Sending item (rest ++ [added]) :=
  ⟨congrArg (· ++ [added]) h.items, h.started,
    forall_mem_append.mpr ⟨h.fresh, forall_mem_singleton.mpr fresh⟩, h.running⟩

theorem WellFormed.append (h : s.WellFormed) (item : QueuedMessage) (fresh : item.Fresh) :
    (s.append item).WellFormed := by
  refine ⟨?_, ?_⟩
  · rcases h.phase with resting | ⟨_, _, sending⟩
    · exact .inl (resting.append item fresh)
    · exact .inr ⟨_, _, sending.append item fresh⟩
  · simp [OutgoingStream.append, h.amount, fresh.remainingSize]

theorem WellFormed.resting_of_not_running (h : s.WellFormed) (paused : ¬s.Running) : s.Resting :=
  h.phase.resolve_right fun ⟨_, _, sending⟩ => paused sending.running

theorem WellFormed.sending_of_partiallySent (h : s.WellFormed) (hitems : s.items = item :: rest)
    (begun : s.hasPartiallySentMessage = true) : s.Sending item rest := by
  rcases h.phase with resting | ⟨_, _, sending⟩
  · have hfresh := resting.fresh item (hitems ▸ mem_cons_self)
    simp [hasPartiallySentMessage, hitems, hfresh.mid] at begun
  · obtain ⟨rfl, rfl⟩ := cons.inj (hitems.symm.trans sending.items)
    exact sending

theorem Sending.dropFront (h : s.Sending item rest) : (s.dropFront item rest).Resting := by
  refine ⟨h.fresh, ?_⟩
  unfold OutgoingStream.dropFront
  split_ifs with hpending
  · exact nofun
  · exact hpending

theorem WellFormed.dropFront (h : s.WellFormed) (sending : s.Sending item rest) :
    (s.dropFront item rest).WellFormed := by
  refine ⟨.inl sending.dropFront, ?_⟩
  have hamount := h.amount
  rw [sending.items, map_cons, sum_cons] at hamount
  change (rest.map remainingSize).sum = s.bufferedAmount - item.remainingSize
  omega

variable (s)

def unstartedBytes : Nat :=
  ((s.items.filter fun item => item.remainingOffset = 0).map QueuedMessage.remainingSize).sum

def pausing : OutgoingStream :=
  if s.pauseState ≠ .notPaused then s
  else
    let kept := s.items.filter fun item => item.remainingOffset ≠ 0
    { s with
      items := kept
      bufferedAmount := s.bufferedAmount - s.unstartedBytes
      pauseState := if kept = [] then .paused else .pending }

def restarted : OutgoingStream :=
  let cleared := { s with
    pauseState := .notPaused, nextOrderedMid := 0, nextUnorderedMid := 0, nextSsn := 0 }
  match s.items with
  | [] => cleared
  | item :: rest =>
    { cleared with
      items := item.restart :: rest
      bufferedAmount := s.bufferedAmount + (item.message.payload.length - item.remainingSize) }

variable {s}

theorem Resting.kept (h : s.Resting) :
    s.items.filter (fun item => item.remainingOffset ≠ 0) = [] := by
  refine filter_eq_nil_iff.mpr fun item hmem => ?_
  simp [(h.fresh item hmem).remainingOffset]

theorem Sending.kept (h : s.Sending item rest) :
    s.items.filter (fun item => item.remainingOffset ≠ 0) = [item] := by
  have hstarted := Nat.pos_iff_ne_zero.mp h.started.remainingOffset
  have hrest : rest.filter (fun item => item.remainingOffset ≠ 0) = [] := by
    refine filter_eq_nil_iff.mpr fun other hmem => ?_
    simp [(h.fresh other hmem).remainingOffset]
  rw [h.items, filter_cons_of_pos (by simpa using hstarted), hrest]

theorem Resting.pausing (h : s.Resting) : s.pausing.Resting := by
  unfold OutgoingStream.pausing
  split_ifs with hpaused
  · exact h
  · rw [h.kept]
    exact ⟨nofun, nofun⟩

theorem Sending.pausing (h : s.Sending item rest) :
    ∃ rest', s.pausing.Sending item rest' ∧ rest'.Sublist rest := by
  unfold OutgoingStream.pausing
  split_ifs with hpaused
  · exact ⟨rest, h, .refl rest⟩
  · rw [h.kept]
    exact ⟨[], ⟨rfl, h.started, nofun, .inr rfl⟩, nil_sublist rest⟩

theorem WellFormed.kept_add_unstartedBytes (h : s.WellFormed) :
    ((s.items.filter fun item => item.remainingOffset ≠ 0).map
      remainingSize).sum + s.unstartedBytes = s.bufferedAmount := by
  have hsplit := OrdMap.sum_filter_add s.items (fun item => item.remainingOffset ≠ 0)
    remainingSize
  rw [← h.amount, ← hsplit, unstartedBytes]
  simp

theorem WellFormed.pausing (h : s.WellFormed) : s.pausing.WellFormed := by
  refine ⟨?_, ?_⟩
  · rcases h.phase with resting | ⟨item, rest, sending⟩
    · exact .inl resting.pausing
    · obtain ⟨rest', hsending, -⟩ := sending.pausing
      exact .inr ⟨item, rest', hsending⟩
  · unfold OutgoingStream.pausing
    split_ifs
    · exact h.amount
    · have hsplit := h.kept_add_unstartedBytes
      dsimp only
      omega

theorem Resting.restarted (h : s.Resting) : s.restarted.items = s.items := by
  unfold OutgoingStream.restarted
  cases hitems : s.items with
  | nil => rfl
  | cons item rest =>
    have hfresh := h.fresh item (hitems ▸ mem_cons_self)
    exact congrArg (· :: rest) hfresh.restart_eq

theorem Sending.restarted (h : s.Sending item rest) : s.restarted.items = item.restart :: rest := by
  unfold OutgoingStream.restarted
  rw [h.items]

theorem pauseState_restarted (s : OutgoingStream) : s.restarted.pauseState = .notPaused := by
  unfold restarted
  split <;> rfl

theorem WellFormed.resting_restarted (h : s.WellFormed) : s.restarted.Resting := by
  refine ⟨?_, by rw [pauseState_restarted]; exact nofun⟩
  rcases h.phase with resting | ⟨item, rest, sending⟩
  · rw [resting.restarted]
    exact resting.fresh
  · rw [sending.restarted]
    exact forall_mem_cons.mpr ⟨⟨rfl, rfl, rfl, rfl, rfl⟩, sending.fresh⟩

theorem WellFormed.restarted (h : s.WellFormed) : s.restarted.WellFormed := by
  refine ⟨.inl h.resting_restarted, ?_⟩
  unfold OutgoingStream.restarted
  cases hitems : s.items with
  | nil => simpa [hitems] using h.amount
  | cons item rest =>
    have hamount := h.amount
    have hsize := (h.front hitems).1.elim QueuedMessage.Fresh.size QueuedMessage.Started.size
    rw [hitems, map_cons, sum_cons] at hamount
    simp only [map_cons, sum_cons]
    change item.message.payload.length + _ = _
    omega

theorem WellFormed.bytesToSend_restarted (h : s.WellFormed) (running : s.Running) :
    0 < s.restarted.bytesToSendInNextMessage ↔ 0 < s.bytesToSendInNextMessage := by
  have hrunning : s.restarted.Running := .inl s.pauseState_restarted
  rw [bytesToSend_eq hrunning, bytesToSend_eq running]
  rcases h.phase with resting | ⟨item, rest, sending⟩
  · rw [resting.restarted]
  · rw [sending.restarted, sending.items]
    have hsize := sending.started.size
    have hpos := sending.started.remainingSize
    change 0 < item.message.payload.length ↔ 0 < item.remainingSize
    omega

end OutgoingStream

end Dcsctp
