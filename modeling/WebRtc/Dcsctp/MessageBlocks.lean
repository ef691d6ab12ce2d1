import WebRtc.Dcsctp.SendQueueConsistency

/-!
# Messages are sent in one piece

Without message interleaving the chunks that `Produce` returns come in blocks, one for each message
that is begun. A block ends with the last chunk of its message, when the message is discarded, or
when the queue is reset, which sends the message again. Along a stream the blocks of ordered
messages are numbered consecutively from each reset.
-/

namespace Dcsctp

open Units OutgoingStream List
open Option hiding map map_map

/-- The chunks of one message that have been sent. The origin is the message as it was added. -/
structure Block where
  origin : QueuedMessage
  mid : MID
  ssn : Option SSN
  fragments : List (List UInt8)
deriving DecidableEq

variable {id : StreamID} {b : Block} {rest : List QueuedMessage} {now : Timestamp}

namespace Block

def streamId (b : Block) : StreamID := b.origin.message.streamId

def payload (b : Block) : List UInt8 := b.origin.message.payload

def sent (b : Block) : List UInt8 := b.fragments.flatten

/-- The chunk with a fragment of the message: all chunks of a block share the identifiers. -/
def chunk (b : Block) (index : Nat) (fragment : List UInt8) (last : Bool) : DataToSend where
  messageId := b.origin.messageId
  data :=
    { streamId := b.streamId
      ssn := b.ssn.getD 0
      mid := b.mid
      fsn := BitVec.ofNat 32 index
      ppid := b.origin.message.ppid
      payload := fragment
      isBeginning := index = 0
      isEnd := last
      isUnordered := b.origin.attributes.unordered }
  maxRetransmissions := b.origin.attributes.maxRetransmissions
  expiresAt := b.origin.attributes.expiresAt
  lifecycleId := if last then b.origin.attributes.lifecycleId else 0

/-- The first alone is a beginning, and the last alone is an end if the message is finished. -/
def chunks (b : Block) (finished : Bool) : List DataToSend :=
  b.fragments.zipIdx.map fun f => b.chunk f.2 f.1 (finished && f.2 + 1 = b.fragments.length)

/-- The item in the queue of which these fragments have been sent. -/
def item (b : Block) : QueuedMessage :=
  { b.origin with
    mid := some b.mid
    ssn := b.ssn
    remainingOffset := b.sent.length
    remainingSize := b.payload.length - b.sent.length
    currentFsn := BitVec.ofNat 32 b.fragments.length }

def extend (b : Block) (fragment : List UInt8) : Block :=
  { b with fragments := b.fragments ++ [fragment] }

structure Whole (b : Block) : Prop where
  begun : b.fragments ≠ []
  complete : b.sent = b.payload

/-- The block holds a proper beginning of the message. -/
structure Partial (b : Block) : Prop where
  begun : 0 < b.sent.length
  beginning : b.sent <+: b.payload
  incomplete : b.sent.length < b.payload.length

theorem chunks_extend (b : Block) (fragment : List UInt8) (finished : Bool) :
    (b.extend fragment).chunks finished =
      b.chunks false ++ [b.chunk b.fragments.length fragment finished] := by
  have hbefore : ∀ f ∈ b.fragments.zipIdx,
      (b.extend fragment).chunk f.2 f.1 (finished && f.2 + 1 = (b.extend fragment).fragments.length) =
        b.chunk f.2 f.1 (false && f.2 + 1 = b.fragments.length) := by
    intro f hmem
    have hlt := snd_lt_of_mem_zipIdx hmem
    have hne : ¬f.2 + 1 = (b.extend fragment).fragments.length := by
      rw [extend, length_append, length_singleton]
      omega
    rw [decide_eq_false hne, Bool.and_false]
    rfl
  have hlast : (b.extend fragment).fragments.zipIdx =
      b.fragments.zipIdx ++ [(fragment, b.fragments.length)] := by
    rw [extend, zipIdx_append]
    simp
  rw [chunks, hlast, map_append, map_congr_left hbefore]
  congr 1
  simp [extend, chunk, streamId]

structure Growing (b : Block) : Prop where
  ssn : b.ssn.isSome = !b.origin.attributes.unordered
  beginning : b.sent <+: b.payload
  nonempty : b.fragments = [] ∨ 0 < b.sent.length
  left : b.fragments = [] ∨ b.sent.length < b.payload.length

theorem Growing.numbered (h : b.Growing) : b.item.Numbered := by
  have hle := h.beginning.length_le
  refine ⟨rfl, h.ssn, ?_, ?_⟩
  · change b.sent.length + (b.payload.length - b.sent.length) = b.payload.length
    omega
  · rcases h.left with hnone | hleft
    · exact .inl (by simp [item, sent, hnone])
    · refine .inr ?_
      change 0 < b.payload.length - b.sent.length
      omega

theorem fragment_item (b : Block) (maxSize : Nat) :
    b.item.fragment maxSize = (b.payload.drop b.sent.length).take maxSize := rfl

theorem Growing.sent_extend (h : b.Growing) (maxSize : Nat) :
    (b.extend (b.item.fragment maxSize)).sent = b.payload.take (b.sent.length + maxSize) := by
  have hbeginning := prefix_iff_eq_take.mp h.beginning
  rw [take_add, ← hbeginning, ← fragment_item]
  simp [extend, sent]

section Extend

variable (h : b.Growing) {maxSize : Nat} (room : 0 < maxSize)
include h room

theorem chunk_item : b.item.chunk maxSize =
    b.chunk b.fragments.length (b.item.fragment maxSize) (b.item.isEnd maxSize) := by
  have hbeginning : b.item.isBeginning maxSize = decide (b.fragments.length = 0) := by
    rw [Bool.eq_iff_iff, h.numbered.isBeginning_iff room, decide_eq_true_iff]
    change b.sent.length = 0 ↔ _
    rw [length_eq_zero_iff (l := b.fragments)]
    rcases h.nonempty with hnone | hpos
    · simp [hnone, sent]
    · refine iff_of_false (by omega) fun hnone => ?_
      simp [sent, hnone] at hpos
  rw [QueuedMessage.chunk, hbeginning]
  rfl

theorem whole_extend (last : b.item.isEnd maxSize = true) :
    (b.extend (b.item.fragment maxSize)).Whole := by
  have hall : b.payload.length - b.sent.length ≤ maxSize :=
    (h.numbered.isEnd_iff room).mp last
  refine ⟨by simp [extend], ?_⟩
  rw [h.sent_extend, take_of_length_le (by omega)]
  rfl

theorem partial_extend (more : b.item.isEnd maxSize = false) :
    (b.extend (b.item.fragment maxSize)).Partial ∧
      (b.extend (b.item.fragment maxSize)).item = b.item.advance maxSize := by
  have hmore : maxSize < b.payload.length - b.sent.length := by
    rw [← Bool.not_eq_true, h.numbered.isEnd_iff room] at more
    exact Nat.lt_of_not_le more
  have hsent := h.sent_extend maxSize
  have hlength : (b.extend (b.item.fragment maxSize)).sent.length = b.sent.length + maxSize := by
    rw [hsent, length_take]
    omega
  have hfragment : (b.item.fragment maxSize).length = maxSize := by
    rw [fragment_item, length_take, length_drop]
    omega
  refine ⟨⟨by omega, hsent ▸ take_prefix _ _, ?_⟩, ?_⟩
  · change _ < b.payload.length
    omega
  · rw [item, QueuedMessage.advance, hlength, hfragment]
    have hfsn : BitVec.ofNat 32 (b.extend (b.item.fragment maxSize)).fragments.length =
        BitVec.ofNat 32 b.fragments.length + 1 := by
      rw [extend, length_append, BitVec.ofNat_add]
      rfl
    have hremaining : b.payload.length - (b.sent.length + maxSize) =
        b.payload.length - b.sent.length - maxSize := by omega
    rw [hfsn]
    change ({ b.origin with
      mid := _, ssn := _, remainingOffset := _
      remainingSize := b.payload.length - (b.sent.length + maxSize)
      currentFsn := _ } : QueuedMessage) = _
    rw [hremaining]
    rfl

end Extend

theorem Partial.growing (h : b.Partial)
    (ssn : b.ssn.isSome = !b.origin.attributes.unordered) : b.Growing :=
  ⟨ssn, h.beginning, .inr h.begun, .inr h.incomplete⟩

end Block

variable {item : QueuedMessage}

namespace RRSendQueue

inductive Observation where
  | accepted (item : QueuedMessage)
  | sent (chunk : DataToSend)
  | discarded (id : StreamID) (messageId : OutgoingMessageId)
  | streamReset (id : StreamID)
  | queueReset
deriving DecidableEq

def observe (q : RRSendQueue) : Call → List Observation
  | .add now message options => [.accepted (q.queued now message options)]
  | .produce now maxSize => (q.produce now maxSize).1.toList.map .sent
  | .discard id messageId =>
    if (q.discard id messageId).1 then [.discarded id messageId] else []
  | .commitResetStreams =>
    (q.streams.entries.filter fun e => e.2.pauseState = .resetting).map fun e => .streamReset e.1
  | .reset => [.queueReset]
  | _ => []

def history (q : RRSendQueue) : List Call → List Observation
  | [] => []
  | call :: calls => q.observe call ++ (q.perform call).history calls

/-- The sending of chunks, and what may interrupt it. -/
def Observation.isSending : Observation → Bool
  | .sent _ => true
  | .discarded _ _ => true
  | .queueReset => true
  | _ => false

def Observation.acceptedOn (id : StreamID) : Observation → Option QueuedMessage
  | .accepted item => if item.message.streamId = id then some item else none
  | _ => none

/-- The stream sequence number of a message that is begun on a stream, or a reset of it. -/
def Observation.numberOn (id : StreamID) : Observation → Option (Option SSN)
  | .sent chunk =>
    if chunk.data.streamId = id ∧ chunk.data.isBeginning ∧ !chunk.data.isUnordered then
      some (some chunk.data.ssn)
    else none
  | .streamReset other => if other = id then some none else none
  | .queueReset => some none
  | _ => none

/-- The number that is due after some numbers and resets, if each number was the one due. -/
def numberDue : SSN → List (Option SSN) → Option SSN
  | due, [] => some due
  | due, some ssn :: rest => if ssn = due then numberDue (ssn + 1) rest else none
  | _, none :: rest => numberDue 0 rest

inductive Segment where
  | finished (block : Block)
  | discarded (block : Block)
  | restarted (block : Block)
  | idleReset

namespace Segment

def observations : Segment → List Observation
  | finished b => (b.chunks true).map .sent
  | discarded b => (b.chunks false).map .sent ++ [.discarded b.streamId b.origin.messageId]
  | restarted b => (b.chunks false).map .sent ++ [.queueReset]
  | idleReset => [.queueReset]

def Valid : Segment → Prop
  | finished b => b.Whole
  | discarded b => b.Partial
  | restarted b => b.Partial
  | idleReset => True

def origin : Segment → Option QueuedMessage
  | finished b => some b.origin
  | discarded b => some b.origin
  | _ => none

end Segment

theorem numberDue_append {due next : SSN} {l : List (Option SSN)} (h : numberDue due l = some next)
    (l' : List (Option SSN)) : numberDue due (l ++ l') = numberDue next l' := by
  induction l generalizing due with
  | nil =>
    obtain rfl := some.inj h
    rfl
  | cons number rest ih =>
    cases number with
    | none => exact ih h
    | some ssn =>
      rw [numberDue] at h
      rw [cons_append, numberDue]
      split_ifs at h ⊢ with hdue
      exact ih h

end RRSendQueue

namespace OutgoingStream

variable {s : OutgoingStream}

def waiting (s : OutgoingStream) : List QueuedMessage :=
  s.items.filter fun item => item.mid.isNone

theorem Resting.waiting (h : s.Resting) : s.waiting = s.items := by
  refine filter_eq_self.mpr fun item hmem => ?_
  rw [(h.fresh item hmem).mid]
  rfl

theorem Sending.waiting (h : s.Sending item rest) : s.waiting = rest := by
  have hrest : rest.filter (fun item => item.mid.isNone) = rest := by
    refine filter_eq_self.mpr fun other hmem => ?_
    rw [(h.fresh other hmem).mid]
    rfl
  have hitem : ¬item.mid.isNone = true := by
    rw [← not_isSome, h.started.mid]
    exact nofun
  rw [OutgoingStream.waiting, h.items, filter_cons, if_neg hitem, hrest]

/-- A stream that may have lost some of the messages that wait, and nothing else. -/
structure Quiet (s t : OutgoingStream) : Prop where
  nextSsn : t.nextSsn = s.nextSsn
  resting : s.Resting → t.Resting
  sending : ∀ item rest, s.Sending item rest → ∃ rest', t.Sending item rest'
  items : t.items.Sublist s.items

theorem Quiet.refl (s : OutgoingStream) : Quiet s s :=
  ⟨rfl, fun h => h, fun _ rest h => ⟨rest, h⟩, .refl _⟩

theorem Quiet.waiting {t : OutgoingStream} (h : Quiet s t) : t.waiting.Sublist s.waiting :=
  h.items.filter _

theorem Quiet.congr {t u : OutgoingStream} (h : Quiet s t) (same : u.content = t.content) :
    Quiet s u where
  nextSsn := (nextSsn_congr same).trans h.nextSsn
  resting hs := (h.resting hs).congr same
  sending item rest hs := by
    obtain ⟨rest', ht⟩ := h.sending item rest hs
    exact ⟨rest', ht.congr same⟩
  items := items_congr same ▸ h.items

theorem quiet_pausing (s : OutgoingStream) : Quiet s s.pausing where
  nextSsn := by
    unfold pausing
    split <;> rfl
  resting hs := hs.pausing
  sending item rest hs := by
    obtain ⟨rest', ht, -⟩ := hs.pausing
    exact ⟨rest', ht⟩
  items := by
    unfold pausing
    split_ifs
    · exact .refl _
    · exact filter_sublist

theorem quiet_pauseState (resting : s.Resting) {pauseState : PauseState} (h : pauseState ≠ .pending) :
    Quiet s { s with pauseState := pauseState } where
  nextSsn := rfl
  resting hs := ⟨hs.fresh, h⟩
  sending _ _ hs := absurd resting hs.not_resting
  items := .refl _

theorem quiet_skipExpired (s : OutgoingStream) (now : Timestamp) : Quiet s (s.skipExpired now) where
  nextSsn := rfl
  resting hs := hs.skipExpired now
  sending item rest hs := by
    rw [(hs.skipExpired now).2]
    exact ⟨rest, hs⟩
  items := dropWhile_sublist _

end OutgoingStream

namespace RRSendQueue

theorem Updated.quiet {q r : RRSendQueue} {s : OutgoingStream}
    (h : Updated id q s r) (quiet : (q.stream id).Quiet s) (other : StreamID) :
    (q.stream other).Quiet (r.stream other) := by
  by_cases hother : other = id
  · subst hother
    exact quiet.congr h.content
  · rw [h.step.stream other hother]
    exact .refl _

structure InProgress (q : RRSendQueue) (b : Block) : Prop where
  flag : q.scheduler.currentlySendingAMessage = true
  currentStream : q.scheduler.currentStream = some b.streamId
  origin : b.origin.Fresh
  begun : b.Partial
  sending : ∃ rest, (q.stream b.streamId).Sending b.item rest
  others : ∀ id, id ≠ b.streamId → (q.stream id).Resting

structure Idle (q : RRSendQueue) : Prop where
  flag : q.scheduler.currentlySendingAMessage = false
  resting : ∀ id, (q.stream id).Resting

def Progress (q : RRSendQueue) : Option Block → Prop
  | none => q.Idle
  | some b => q.InProgress b

/-- The messages that have left the queue for a block that was not interrupted by a reset. -/
def origins (segments : List Segment) (current : Option Block) : List QueuedMessage :=
  segments.filterMap Segment.origin ++ current.toList.map Block.origin

/-- What was seen of a run is accounted for by segments and perhaps a block in progress. -/
structure Account (q : RRSendQueue) (history : List Observation) (segments : List Segment)
    (current : Option Block) : Prop where
  consistent : q.Consistent
  plain : q.scheduler.enableMessageInterleaving = false
  sending : history.filter Observation.isSending = segments.flatMap Segment.observations ++
      current.toList.flatMap fun b => (b.chunks false).map .sent
  valid : ∀ s ∈ segments, s.Valid
  progress : q.Progress current
  home : ∀ id, ∀ item ∈ (q.stream id).items, item.message.streamId = id
  messages : ∀ id, ((origins segments current).filter (fun item => item.message.streamId = id) ++
    (q.stream id).waiting).Sublist (history.filterMap (Observation.acceptedOn id))
  numbers : ∀ id, numberDue 0 (history.filterMap (Observation.numberOn id)) =
    some (q.stream id).nextSsn

variable {q r : RRSendQueue} {history : List Observation} {segments : List Segment}
  {current : Option Block}

theorem Progress.keep (h : q.Progress current)
    (flag : r.scheduler.currentlySendingAMessage = q.scheduler.currentlySendingAMessage)
    (stream : r.scheduler.currentStream = q.scheduler.currentStream ∨ current = none)
    (resting : ∀ id, (q.stream id).Resting → (r.stream id).Resting)
    (sending : ∀ id item rest, (q.stream id).Sending item rest →
      ∃ rest', (r.stream id).Sending item rest') : r.Progress current := by
  cases current with
  | none =>
    obtain ⟨hflag, hresting⟩ : q.Idle := h
    exact ⟨flag.trans hflag, fun id => resting id (hresting id)⟩
  | some b =>
    obtain ⟨hflag, hcurrent, horigin, hopen, ⟨rest, hsending⟩, hothers⟩ : q.InProgress b := h
    exact ⟨flag.trans hflag, (stream.resolve_right nofun).trans hcurrent, horigin, hopen,
      sending _ _ rest hsending, fun id hid => resting id (hothers id hid)⟩

theorem Account.quiet (h : Account q history segments current) (consistent : r.Consistent)
    (plain : r.scheduler.enableMessageInterleaving = false)
    (flag : r.scheduler.currentlySendingAMessage = q.scheduler.currentlySendingAMessage)
    (stream : r.scheduler.currentStream = q.scheduler.currentStream ∨ current = none)
    (quiet : ∀ id, (q.stream id).Quiet (r.stream id)) : Account r history segments current where
  consistent := consistent
  plain := plain
  sending := h.sending
  valid := h.valid
  progress := h.progress.keep flag stream (fun id => (quiet id).resting)
    fun id => (quiet id).sending
  home id item hmem := h.home id item ((quiet id).items.subset hmem)
  messages id := ((List.Sublist.refl _).append (quiet id).waiting).trans (h.messages id)
  numbers id := by rw [h.numbers id, (quiet id).nextSsn]

theorem Account.updated (h : Account q history segments current)
    {s : OutgoingStream} (updated : Updated id q s r) (consistent : r.Consistent)
    (quiet : (q.stream id).Quiet s) : Account r history segments current :=
  h.quiet consistent (updated.step.interleaving.trans h.plain) updated.step.currentlySending
    (.inl updated.step.currentStream) (updated.quiet quiet)

theorem Account.add (h : Account q history segments current) (now : Timestamp)
    (message : DcSctpMessage) (options : SendOptions) :
    Account (q.add now message options)
      (history ++ [.accepted (q.queued now message options)]) segments current := by
  have hfresh : (q.queued now message options).Fresh := ⟨rfl, rfl, rfl, rfl, rfl⟩
  have hupdated := q.add_updated now message options (h.consistent.active _)
  have hothers := hupdated.step.stream
  have hitems : ((q.add now message options).stream message.streamId).items =
      (q.stream message.streamId).items ++ [q.queued now message options] :=
    items_congr hupdated.content
  have hnextSsn := nextSsn_congr hupdated.content
  refine ⟨h.consistent.add now message options, hupdated.step.interleaving.trans h.plain, ?_,
    h.valid, ?_, fun id => ?_, fun id => ?_, fun id => ?_⟩
  · rw [filter_append, h.sending]
    exact append_nil _
  · refine h.progress.keep hupdated.step.currentlySending (.inl hupdated.step.currentStream) ?_ ?_
    · intro id hresting
      by_cases hid : id = message.streamId
      · subst hid
        exact (hresting.append _ hfresh).congr hupdated.content
      · rw [hothers id hid]
        exact hresting
    · intro id item rest hsending
      by_cases hid : id = message.streamId
      · subst hid
        exact ⟨_, (hsending.append _ hfresh).congr hupdated.content⟩
      · rw [hothers id hid]
        exact ⟨rest, hsending⟩
  · by_cases hid : id = message.streamId
    · subst hid
      rw [hitems]
      exact forall_mem_append.mpr ⟨h.home _, forall_mem_singleton.mpr rfl⟩
    · rw [hothers id hid]
      exact h.home id
  · rw [filterMap_append]
    by_cases hid : id = message.streamId
    · subst hid
      have hwaiting : ((q.add now message options).stream message.streamId).waiting =
          (q.stream message.streamId).waiting ++ [q.queued now message options] := by
        rw [waiting, hitems, filter_append]
        rfl
      have hnew : [Observation.accepted (q.queued now message options)].filterMap
          (Observation.acceptedOn message.streamId) = [q.queued now message options] := by
        simp [Observation.acceptedOn, queued]
      rw [hwaiting, hnew, ← append_assoc]
      exact (h.messages _).append (.refl _)
    · have hother : ¬message.streamId = id := fun heq => hid heq.symm
      have hnew : [Observation.accepted (q.queued now message options)].filterMap
          (Observation.acceptedOn id) = [] := by
        simp [Observation.acceptedOn, queued, hother]
      rw [hothers id hid, hnew, append_nil]
      exact h.messages id
  · rw [filterMap_append, numberDue_append (h.numbers id)]
    by_cases hid : id = message.streamId
    · subst hid
      rw [hnextSsn]
      rfl
    · rw [hothers id hid]
      rfl

theorem Progress.eq_item (h : q.Progress current) (sending : (q.stream id).Sending item rest) :
    ∃ b, current = some b ∧ b.streamId = id ∧ item = b.item := by
  have hactive := sending.not_resting
  cases current with
  | none => exact absurd (Idle.resting h id) hactive
  | some b =>
    obtain ⟨-, -, -, -, ⟨rest', hsending⟩, hothers⟩ : q.InProgress b := h
    have hid : b.streamId = id := by
      by_contra hne
      exact hactive (hothers id (Ne.symm hne))
    refine ⟨b, rfl, hid, ?_⟩
    rw [hid] at hsending
    exact (cons.inj (sending.items.symm.trans hsending.items)).1

theorem Account.interrupt (h : Account q history segments (some b))
    (sending : (q.stream b.streamId).Sending b.item rest)
    (updated : Updated b.streamId { q with scheduler := q.scheduler.forceReschedule }
      ((q.stream b.streamId).dropFront b.item rest) r)
    (consistent : r.Consistent) :
    Account r (history ++ [.discarded b.streamId b.origin.messageId])
      (segments ++ [.discarded b]) none := by
  have hothers := updated.step.stream
  have hresting := sending.dropFront.congr updated.content
  have hitems : (r.stream b.streamId).items = rest :=
    items_congr updated.content
  have hnextSsn := nextSsn_congr updated.content
  obtain ⟨-, -, -, hopen, -, hrest⟩ : q.InProgress b := h.progress
  refine ⟨consistent, updated.step.interleaving.trans h.plain, ?_, ?_, ⟨?_, fun id => ?_⟩,
    fun id => ?_, fun id => ?_, fun id => ?_⟩
  · have hnew : [Observation.discarded b.streamId b.origin.messageId].filter
        Observation.isSending = [.discarded b.streamId b.origin.messageId] := rfl
    rw [filter_append, h.sending, hnew]
    simp [Segment.observations]
  · exact forall_mem_append.mpr ⟨h.valid, forall_mem_singleton.mpr hopen⟩
  · exact updated.step.currentlySending
  · by_cases hid : id = b.streamId
    · subst hid
      exact hresting
    · rw [hothers id hid]
      exact hrest id hid
  · by_cases hid : id = b.streamId
    · subst hid
      rw [hitems]
      intro item hmem
      apply h.home b.streamId item
      rw [sending.items]
      exact mem_cons_of_mem _ hmem
    · rw [hothers id hid]
      exact h.home id
  · have horigins : origins (segments ++ [.discarded b]) none = origins segments (some b) := by
      simp [origins, Segment.origin]
    have hwaiting : (r.stream id).waiting = (q.stream id).waiting := by
      by_cases hid : id = b.streamId
      · subst hid
        rw [hresting.waiting, hitems, sending.waiting]
      · rw [hothers id hid]
        rfl
    rw [filterMap_append, horigins, hwaiting]
    exact (h.messages id).trans (sublist_append_left _ _)
  · rw [filterMap_append, numberDue_append (h.numbers id)]
    by_cases hid : id = b.streamId
    · subst hid
      rw [hnextSsn]
      rfl
    · rw [hothers id hid]
      rfl

theorem Account.discard (h : Account q history segments current) (id : StreamID)
    (messageId : OutgoingMessageId) (allowed : q.permitted (.discard id messageId) = true) :
    ∃ segments' current', Account (q.discard id messageId).2
      (history ++ q.observe (.discard id messageId)) segments' current' := by
  have hconsistent : (q.discard id messageId).2.Consistent := h.consistent.perform allowed
  have hunchanged := q.updated_setStream id (h.consistent.active id) rfl rfl
  have hsame : q.discard id messageId = (false, q.setStream id (q.stream id)) →
      ∃ segments' current', Account (q.discard id messageId).2
        (history ++ q.observe (.discard id messageId)) segments' current' := by
    intro heq
    have hseen : q.observe (.discard id messageId) = [] := by
      change (if (q.discard id messageId).1 then _ else _) = _
      rw [heq]
      rfl
    rw [heq] at hconsistent
    rw [hseen, heq, append_nil]
    exact ⟨segments, current, h.updated hunchanged hconsistent (.refl _)⟩
  cases hitems : (q.stream id).items with
  | nil => exact hsame (by rw [RRSendQueue.discard, hitems])
  | cons item rest =>
    by_cases hmessage : item.messageId = messageId
    · have hsending : (q.stream id).Sending item rest := by
        apply (h.consistent.wellFormed id).sending_of_partiallySent hitems
        simpa [permitted, hitems, hmessage] using allowed
      obtain ⟨b, rfl, rfl, rfl⟩ := h.progress.eq_item hsending
      have hdiscard : q.discard b.streamId messageId =
          (true, (q.dropFirst b.streamId b.item rest).leaveDiscarded b.streamId) := by
        rw [RRSendQueue.discard, hitems]
        exact if_pos hmessage
      have hupdated := q.discard_updated b.streamId hsending (h.consistent.wellFormed _)
        (h.consistent.active _) (h.consistent.bufferedAmount_le _)
      have hseen : q.observe (.discard b.streamId messageId) =
          [.discarded b.streamId b.origin.messageId] := by
        change (if (q.discard b.streamId messageId).1 then _ else _) = _
        rw [hdiscard, ← hmessage]
        rfl
      rw [hdiscard] at hconsistent
      rw [hseen, hdiscard]
      exact ⟨_, _, h.interrupt hsending hupdated hconsistent⟩
    · apply hsame
      rw [RRSendQueue.discard, hitems]
      exact if_neg hmessage

end RRSendQueue

namespace OutgoingStream

variable {s t u : OutgoingStream}

/-- A stream that starts again: the messages are as they were added. -/
structure Restarted (s t : OutgoingStream) : Prop where
  resting : t.Resting
  nextSsn : t.nextSsn = 0
  items : t.items = s.items.map QueuedMessage.restart

theorem map_restart_of_fresh {items : List QueuedMessage} (h : ∀ item ∈ items, item.Fresh) :
    items.map QueuedMessage.restart = items :=
  (map_congr_left fun item hmem => (h item hmem).restart_eq).trans (map_id _)

theorem nextSsn_restarted (s : OutgoingStream) : s.restarted.nextSsn = 0 := by
  unfold restarted
  split <;> rfl

theorem WellFormed.isRestarted (h : s.WellFormed) : Restarted s s.restarted := by
  refine ⟨h.resting_restarted, s.nextSsn_restarted, ?_⟩
  rcases h.phase with resting | ⟨item, rest, sending⟩
  · rw [resting.restarted, map_restart_of_fresh resting.fresh]
  · rw [sending.restarted, sending.items, map_cons, map_restart_of_fresh sending.fresh]

theorem Restarted.congr (h : Restarted s t) (same : u.content = t.content) : Restarted s u :=
  ⟨h.resting.congr same, (nextSsn_congr same).trans h.nextSsn, (items_congr same).trans h.items⟩

theorem Restarted.trans (first : Restarted s t) (second : Restarted t u) : Restarted s u := by
  refine ⟨second.resting, second.nextSsn, ?_⟩
  rw [second.items, map_restart_of_fresh first.resting.fresh, first.items]

theorem Restarted.congr_left (h : Restarted s t) (same : s.content = u.content) : Restarted u t :=
  ⟨h.resting, h.nextSsn, by rw [h.items, items_congr same]⟩

end OutgoingStream

namespace RRSendQueue

variable {q r : RRSendQueue} {history : List Observation} {segments : List Segment}
  {current : Option Block}

/-- The visit of one stream in a loop that resets streams. -/
def resetIf (select : PauseState → Prop) [DecidablePred select] (q : RRSendQueue)
    (id : StreamID) : RRSendQueue :=
  if select (q.stream id).pauseState then q.resetStream id else q

def ResetOrSame (chosen : Prop) (s t : OutgoingStream) : Prop :=
  (chosen → s.Restarted t) ∧ (¬chosen → t.content = s.content)

structure SameTurn (q r : RRSendQueue) : Prop where
  interleaving : r.scheduler.enableMessageInterleaving = q.scheduler.enableMessageInterleaving
  currentStream : r.scheduler.currentStream = q.scheduler.currentStream
  flag : r.scheduler.currentlySendingAMessage = q.scheduler.currentlySendingAMessage

theorem SameTurn.trans {p : RRSendQueue} (first : SameTurn p q) (second : SameTurn q r) :
    SameTurn p r :=
  ⟨second.interleaving.trans first.interleaving, second.currentStream.trans first.currentStream,
    second.flag.trans first.flag⟩

theorem resetIf_spec (select : PauseState → Prop) [DecidablePred select] (h : q.Steady)
    (id : StreamID) :
    (q.resetIf select id).Steady ∧ SameTurn q (q.resetIf select id) ∧
      ∀ other, ResetOrSame (other = id ∧ select (q.stream other).pauseState)
        (q.stream other) ((q.resetIf select id).stream other) := by
  unfold resetIf
  split_ifs with hselect
  · have hupdated := q.resetStream_updated id (h.wellFormed id) (h.active id)
    have hstep := hupdated.step
    refine ⟨h.updated hupdated (h.wellFormed id).restarted,
      ⟨hstep.interleaving, hstep.currentStream, hstep.currentlySending⟩, fun other => ?_⟩
    by_cases hother : other = id
    · subst hother
      exact ⟨fun _ => (h.wellFormed other).isRestarted.congr hupdated.content,
        fun hnot => absurd ⟨rfl, hselect⟩ hnot⟩
    · rw [hupdated.step.stream other hother]
      exact ⟨fun hchosen => absurd hchosen.1 hother, fun _ => rfl⟩
  · refine ⟨h, ⟨rfl, rfl, rfl⟩, fun other => ⟨?_, fun _ => rfl⟩⟩
    rintro ⟨rfl, hchosen⟩
    exact absurd hchosen hselect

theorem resetAll_spec (select : PauseState → Prop) [DecidablePred select] (ids : List StreamID) :
    ∀ q : RRSendQueue, q.Steady → (ids.foldl (resetIf select) q).Steady ∧
      SameTurn q (ids.foldl (resetIf select) q) ∧
      ∀ id, ResetOrSame (id ∈ ids ∧ select (q.stream id).pauseState) (q.stream id)
        ((ids.foldl (resetIf select) q).stream id) := by
  induction ids with
  | nil =>
    exact fun q h => ⟨h, ⟨rfl, rfl, rfl⟩, fun id =>
      ⟨fun hchosen => absurd hchosen.1 nofun, fun _ => rfl⟩⟩
  | cons first ids ih =>
    intro q h
    obtain ⟨hvisited, hturn, hfirst⟩ := resetIf_spec select h first
    obtain ⟨hsteady, hturn', hrest⟩ := ih _ hvisited
    refine ⟨hsteady, hturn.trans hturn', fun id => ?_⟩
    obtain ⟨hreset, hsame⟩ := hfirst id
    obtain ⟨hreset', hsame'⟩ := hrest id
    constructor
    · rintro ⟨hmem, hselect⟩
      by_cases hid : id = first
      · -- The stream rests now, and another visit would find it as it is.
        have hfirst := hreset ⟨hid, hselect⟩
        by_cases hagain : id ∈ ids ∧ select ((q.resetIf select first).stream id).pauseState
        · exact hfirst.trans (hreset' hagain)
        · exact hfirst.congr (hsame' hagain)
      · have hcontent := hsame fun hchosen => hid hchosen.1
        have hlater : id ∈ ids := (mem_cons.mp hmem).resolve_left hid
        refine (hreset' ⟨hlater, ?_⟩).congr_left hcontent
        rw [pauseState_congr hcontent]
        exact hselect
    · intro hnot
      have hcontent := hsame fun hchosen =>
        hnot ⟨mem_cons.mpr (.inl hchosen.1), hchosen.2⟩
      refine (hsame' ?_).trans hcontent
      rw [pauseState_congr hcontent]
      exact fun hchosen => hnot ⟨mem_cons_of_mem _ hchosen.1, hchosen.2⟩

theorem commitResetStreams_eq (q : RRSendQueue) :
    q.commitResetStreams = (q.streams.entries.map Prod.fst).foldl (resetIf (· = .resetting)) q :=
  rfl

theorem numberDue_streamResets (id : StreamID) (ids : List StreamID) (due : SSN) :
    numberDue due ((ids.map Observation.streamReset).filterMap (Observation.numberOn id)) =
      some (if id ∈ ids then 0 else due) := by
  induction ids generalizing due with
  | nil => rfl
  | cons first ids ih =>
    by_cases hfirst : first = id
    · have hnumber : Observation.numberOn id (.streamReset first) = some none := if_pos hfirst
      rw [map_cons, filterMap_cons_some hnumber, numberDue, ih]
      simp [hfirst]
    · have hnumber : Observation.numberOn id (.streamReset first) = none := if_neg hfirst
      rw [map_cons, filterMap_cons_none hnumber, ih]
      simp [Ne.symm hfirst]

theorem mem_resetting_iff (q : RRSendQueue) (id : StreamID) :
    id ∈ (q.streams.entries.filter fun e => e.2.pauseState = .resetting).map Prod.fst ↔
      id ∈ q.streams.entries.map Prod.fst ∧ (q.stream id).pauseState = .resetting := by
  constructor
  · intro h
    obtain ⟨⟨id, s⟩, hmem, rfl⟩ := mem_map.mp h
    obtain ⟨hentry, hstate⟩ := mem_filter.mp hmem
    refine ⟨mem_map_of_mem hentry, ?_⟩
    rw [stream_of_mem hentry]
    exact of_decide_eq_true hstate
  · rintro ⟨h, hstate⟩
    obtain ⟨⟨id, s⟩, hentry, rfl⟩ := mem_map.mp h
    rw [stream_of_mem hentry] at hstate
    exact mem_map.mpr ⟨(id, s), mem_filter.mpr ⟨hentry, decide_eq_true hstate⟩, rfl⟩

theorem Account.commitResetStreams (h : Account q history segments current) :
    Account q.commitResetStreams (history ++ q.observe .commitResetStreams) segments current := by
  obtain ⟨-, hturn, hstreams⟩ := resetAll_spec (· = .resetting) (q.streams.entries.map Prod.fst) q
    h.consistent.toSteady
  rw [← commitResetStreams_eq] at hturn hstreams
  have hseen : q.observe .commitResetStreams =
      ((q.streams.entries.filter fun e => e.2.pauseState = .resetting).map Prod.fst).map
        .streamReset := (map_map ..).symm
  have hchosen : ∀ id, (q.stream id).pauseState = .resetting → (q.stream id).Resting := by
    intro id hstate
    apply (h.consistent.wellFormed id).resting_of_not_running
    simp [OutgoingStream.Running, hstate]
  -- A stream that is being reset has begun no message, so that no message starts again.
  have hitems : ∀ id, (q.commitResetStreams.stream id).items = (q.stream id).items := by
    intro id
    obtain ⟨hreset, hsame⟩ := hstreams id
    by_cases hstate : id ∈ q.streams.entries.map Prod.fst ∧ (q.stream id).pauseState = .resetting
    · rw [(hreset hstate).items, map_restart_of_fresh (hchosen id hstate.2).fresh]
    · exact items_congr (hsame hstate)
  refine ⟨h.consistent.commitResetStreams, hturn.interleaving.trans h.plain, ?_, h.valid,
    h.progress.keep hturn.flag (.inl hturn.currentStream) ?_ ?_, fun id => ?_, fun id => ?_,
    fun id => ?_⟩
  · have hnone : (q.observe .commitResetStreams).filter Observation.isSending = [] := by
      rw [filter_eq_nil_iff]
      intro observation hmem
      obtain ⟨id, -, rfl⟩ := mem_map.mp hmem
      exact Bool.false_ne_true
    rw [filter_append, hnone, append_nil, h.sending]
  · intro id hresting
    obtain ⟨hreset, hsame⟩ := hstreams id
    by_cases hstate : id ∈ q.streams.entries.map Prod.fst ∧ (q.stream id).pauseState = .resetting
    · exact (hreset hstate).resting
    · exact hresting.congr (hsame hstate)
  · intro id item rest hsending
    refine ⟨rest, hsending.congr ((hstreams id).2 ?_)⟩
    rintro ⟨-, hstate⟩
    rcases hsending.running with hrunning | hrunning <;> rw [hrunning] at hstate <;> cases hstate
  · rw [hitems]
    exact h.home id
  · rw [waiting, hitems, filterMap_append]
    exact (h.messages id).trans (sublist_append_left _ _)
  · rw [filterMap_append, numberDue_append (h.numbers id), hseen, numberDue_streamResets,
      if_congr (q.mem_resetting_iff id) rfl rfl]
    obtain ⟨hreset, hsame⟩ := hstreams id
    split_ifs with hstate
    · rw [(hreset hstate).nextSsn]
    · rw [nextSsn_congr (hsame hstate)]

theorem reset_restarted (h : q.Steady) (id : StreamID) :
    (q.stream id).Restarted (q.reset.stream id) := by
  obtain ⟨-, -, hstreams⟩ := resetAll_spec (fun _ => True) (q.streams.entries.map Prod.fst) q h
  obtain ⟨hreset, hsame⟩ := hstreams id
  by_cases hmem : id ∈ q.streams.entries.map Prod.fst
  · exact hreset ⟨hmem, trivial⟩
  · have hnone : q.streams.find? id = none := by
      rw [OrdMap.find?_eq_none_iff]
      exact fun s hin => hmem (mem_map_of_mem hin)
    have hrestarted : (q.stream id).Restarted (q.stream id) := by
      rw [RRSendQueue.stream, hnone, getD_none]
      exact ⟨⟨forall_mem_nil _, by rintro ⟨⟩⟩, rfl, rfl⟩
    exact hrestarted.congr (hsame fun hchosen => hmem hchosen.1)

theorem restart_item (h : b.origin.Fresh) : b.item.restart = b.origin :=
  h.restart_eq

theorem Account.reset (h : Account q history segments current) :
    Account q.reset (history ++ [.queueReset])
      (segments ++ [current.elim .idleReset .restarted]) none := by
  have hrestarted := reset_restarted h.consistent.toSteady
  obtain ⟨-, hturn, -⟩ := resetAll_spec (fun _ => True) (q.streams.entries.map Prod.fst) q
    h.consistent.toSteady
  refine ⟨h.consistent.reset, hturn.interleaving.trans h.plain, ?_, ?_,
    ⟨rfl, fun id => (hrestarted id).resting⟩, fun id => ?_, fun id => ?_, fun id => ?_⟩
  · have hnew : [Observation.queueReset].filter Observation.isSending = [.queueReset] := rfl
    rw [filter_append, h.sending, hnew]
    cases current <;>
      simp [Segment.observations]
  · refine forall_mem_append.mpr ⟨h.valid, forall_mem_singleton.mpr ?_⟩
    cases current with
    | none => exact trivial
    | some b => exact InProgress.begun h.progress
  · rw [(hrestarted id).items]
    intro item hmem
    obtain ⟨old, hold, rfl⟩ := mem_map.mp hmem
    exact h.home id old hold
  · rw [filterMap_append, (hrestarted id).resting.waiting, (hrestarted id).items]
    refine .trans ?_ ((h.messages id).trans (sublist_append_left _ _))
    cases current with
    | none =>
      have hresting := Idle.resting h.progress id
      rw [map_restart_of_fresh hresting.fresh, hresting.waiting]
      simp [origins, Segment.origin]
    | some b =>
      obtain ⟨-, -, horigin, -, ⟨rest, hsending⟩, hothers⟩ : q.InProgress b := h.progress
      by_cases hid : id = b.streamId
      · subst hid
        rw [hsending.waiting, hsending.items, map_cons, restart_item horigin,
          map_restart_of_fresh hsending.fresh]
        simp [origins, Segment.origin, Block.streamId]
      · have hresting := hothers id hid
        rw [map_restart_of_fresh hresting.fresh, hresting.waiting]
        simp [origins, Segment.origin]
  · rw [filterMap_append, numberDue_append (h.numbers id), (hrestarted id).nextSsn]
    rfl

/-- The next fragment of a block is about to be sent, and the messages `rest` wait behind. -/
structure Ready (p : RRSendQueue) (history : List Observation) (segments : List Segment)
    (b : Block) (rest : List QueuedMessage) (s : OutgoingStream) (maxSize : Nat) : Prop where
  growing : b.Growing
  origin : b.origin.Fresh
  room : 0 < maxSize
  plain : p.scheduler.enableMessageInterleaving = false
  sending : history.filter Observation.isSending =
    segments.flatMap Segment.observations ++ (b.chunks false).map .sent
  valid : ∀ segment ∈ segments, segment.Valid
  resting : ∀ id, id ≠ b.streamId → (p.stream id).Resting
  running : s.Running
  fresh : ∀ item ∈ rest, item.Fresh
  home : ∀ item ∈ rest, item.message.streamId = b.streamId
  homes : ∀ id, id ≠ b.streamId → ∀ item ∈ (p.stream id).items, item.message.streamId = id
  messages : ((segments.filterMap Segment.origin ++ [b.origin]).filter
    (fun item => item.message.streamId = b.streamId) ++ rest).Sublist
      (history.filterMap (Observation.acceptedOn b.streamId))
  messagesOn : ∀ id, id ≠ b.streamId →
    ((segments.filterMap Segment.origin).filter (fun item => item.message.streamId = id) ++
      (p.stream id).waiting).Sublist (history.filterMap (Observation.acceptedOn id))
  number : numberDue 0 ((history ++ [Observation.sent (b.item.chunk maxSize)]).filterMap
    (Observation.numberOn b.streamId)) = some s.nextSsn
  numbers : ∀ id, id ≠ b.streamId →
    numberDue 0 (history.filterMap (Observation.numberOn id)) = some (p.stream id).nextSsn

theorem numberOn_sent (id : StreamID) (chunk : DataToSend) : Observation.numberOn id (.sent chunk) =
      if chunk.data.streamId = id ∧ chunk.data.isBeginning ∧ !chunk.data.isUnordered then
        some (some chunk.data.ssn)
      else none := rfl

section Send

variable {p : RRSendQueue} {s : OutgoingStream} {maxSize : Nat} {time : ℚ}

section

variable (h : Ready p history segments b rest s maxSize)
include h

/-- What does not depend on whether the chunk was the last one. -/
theorem Ready.others (others : ∀ id, id ≠ b.streamId → r.stream id = p.stream id)
    (home : ∀ item ∈ (r.stream b.streamId).items, item.message.streamId = b.streamId)
    (next : (r.stream b.streamId).nextSsn = s.nextSsn) (id : StreamID) :
    (id ≠ b.streamId → (r.stream id).Resting) ∧
      (∀ item ∈ (r.stream id).items, item.message.streamId = id) ∧
      numberDue 0 ((history ++ [Observation.sent (b.item.chunk maxSize)]).filterMap
        (Observation.numberOn id)) = some (r.stream id).nextSsn := by
  by_cases hid : id = b.streamId
  · subst hid
    rw [next]
    exact ⟨fun hne => absurd rfl hne, home, h.number⟩
  · have hnone : Observation.numberOn id (.sent (b.item.chunk maxSize)) = none :=
      if_neg fun hchosen => hid hchosen.1.symm
    rw [others id hid, filterMap_append, numberDue_append (h.numbers id hid),
      filterMap_cons_none hnone]
    exact ⟨fun _ => h.resting id hid, h.homes id hid, rfl⟩

theorem Ready.accepted (others : ∀ id, id ≠ b.streamId → r.stream id = p.stream id)
    (waiting : (r.stream b.streamId).waiting = rest) (id : StreamID) :
    ((segments.filterMap Segment.origin ++ [b.origin]).filter
        (fun item => item.message.streamId = id) ++ (r.stream id).waiting).Sublist
      ((history ++ [Observation.sent (b.item.chunk maxSize)]).filterMap
        (Observation.acceptedOn id)) := by
  rw [filterMap_append]
  refine .trans ?_ (sublist_append_left _ _)
  by_cases hid : id = b.streamId
  · subst hid
    rw [waiting]
    exact h.messages
  · have hother : ¬b.origin.message.streamId = id := fun heq => hid heq.symm
    rw [others id hid]
    simpa [hother] using h.messagesOn id hid

theorem Ready.finish (last : b.item.isEnd maxSize = true)
    (updated : Updated b.streamId ((p.withCurrent b.streamId).withFlags false time)
      (s.cut b.item rest maxSize) r) (consistent : r.Consistent) :
    Account r (history ++ [.sent (b.item.chunk maxSize)])
      (segments ++ [.finished (b.extend (b.item.fragment maxSize))]) none := by
  have hcut : s.cut b.item rest maxSize = _ := if_pos last
  have hresting : (r.stream b.streamId).Resting := by
    refine OutgoingStream.Resting.congr ?_ updated.content
    rw [hcut]
    refine ⟨h.fresh, ?_⟩
    split_ifs with hpending
    · exact nofun
    · exact hpending
  have hitems : (r.stream b.streamId).items = rest := by
    rw [items_congr updated.content, hcut]
  have hothers := h.others updated.step.stream (by rw [hitems]; exact h.home)
    (by rw [nextSsn_congr updated.content, hcut])
  refine ⟨consistent, updated.step.interleaving.trans h.plain, ?_, ?_, ⟨?_, fun id => ?_⟩,
    fun id => ?_, fun id => ?_, fun id => ?_⟩
  · have hnew : [Observation.sent (b.item.chunk maxSize)].filter Observation.isSending =
        [.sent (b.item.chunk maxSize)] := rfl
    rw [filter_append, h.sending, hnew, Block.chunk_item h.growing h.room, last]
    simp [Segment.observations, Block.chunks_extend]
  · exact forall_mem_append.mpr ⟨h.valid, forall_mem_singleton.mpr
      (Block.whole_extend h.growing h.room last)⟩
  · exact updated.step.currentlySending
  · by_cases hid : id = b.streamId
    · exact hid ▸ hresting
    · exact (hothers id).1 hid
  · exact (hothers id).2.1
  · have horigins : origins (segments ++ [.finished (b.extend (b.item.fragment maxSize))]) none =
        segments.filterMap Segment.origin ++ [b.origin] := by
      simp [origins, Segment.origin, Block.extend]
    rw [horigins]
    exact h.accepted updated.step.stream (by rw [hresting.waiting, hitems]) id
  · exact (hothers id).2.2

theorem Ready.continue (more : b.item.isEnd maxSize = false)
    (updated : Updated b.streamId ((p.withCurrent b.streamId).withFlags true time)
      (s.cut b.item rest maxSize) r) (consistent : r.Consistent) :
    Account r (history ++ [.sent (b.item.chunk maxSize)]) segments
      (some (b.extend (b.item.fragment maxSize))) := by
  obtain ⟨hopen, hitem⟩ := Block.partial_extend h.growing h.room more
  have hcut : s.cut b.item rest maxSize = _ := if_neg (Bool.eq_false_iff.mp more)
  have hsending : (r.stream b.streamId).Sending
      (b.extend (b.item.fragment maxSize)).item rest := by
    refine OutgoingStream.Sending.congr ?_ updated.content
    rw [hcut, hitem]
    exact ⟨rfl, h.growing.numbered.started_advance h.room more, h.fresh, h.running⟩
  have hothers := h.others updated.step.stream
    (by rw [hsending.items]; exact forall_mem_cons.mpr ⟨rfl, h.home⟩)
    (by rw [nextSsn_congr updated.content, hcut])
  refine ⟨consistent, updated.step.interleaving.trans h.plain, ?_, h.valid,
    ⟨updated.step.currentlySending, updated.step.currentStream, h.origin, hopen,
      ⟨rest, hsending⟩, fun id => (hothers id).1⟩, fun id => (hothers id).2.1,
    h.accepted updated.step.stream hsending.waiting, fun id => (hothers id).2.2⟩
  have hnew : [Observation.sent (b.item.chunk maxSize)].filter Observation.isSending =
      [.sent (b.item.chunk maxSize)] := rfl
  rw [filter_append, h.sending, hnew, Block.chunk_item h.growing h.room, more]
  simp [Block.chunks_extend]

end

end Send

end RRSendQueue

def Block.start (s : OutgoingStream) (item : QueuedMessage) : Block where
  origin := item
  mid := if item.attributes.unordered then s.nextUnorderedMid else s.nextOrderedMid
  ssn := if item.attributes.unordered then none else some s.nextSsn
  fragments := []

theorem Block.growing_start (s : OutgoingStream) (item : QueuedMessage) :
    (Block.start s item).Growing := by
  refine ⟨?_, nil_prefix, .inl rfl, .inl rfl⟩
  cases h : item.attributes.unordered <;> simp [start, h]

namespace OutgoingStream

theorem number_start (s : OutgoingStream) (fresh : item.Fresh) :
    (s.number item).1 = (Block.start s item).item ∧ (s.number item).2.nextSsn =
        if item.attributes.unordered then s.nextSsn else s.nextSsn + 1 := by
  rw [number_fresh s fresh]
  obtain ⟨messageId, message, attributes, offset, size, mid, ssn, fsn⟩ := item
  obtain ⟨rfl, rfl, rfl, rfl, hsize⟩ := fresh
  dsimp only at hsize
  subst hsize
  cases h : attributes.unordered <;> simp [Block.start, Block.item, Block.sent, Block.payload, h]

theorem produce_eq_some {s t : OutgoingStream} {maxSize total total' : Nat}
    {chunk : DataToSend} (h : s.produce now maxSize total = (some chunk, t, total')) :
    ∃ item rest, (s.skipExpired now).items = item :: rest ∧
      chunk = ((s.skipExpired now).number item).1.chunk maxSize ∧
      t = ((s.skipExpired now).number item).2.cut ((s.skipExpired now).number item).1 rest
        maxSize := by
  rw [produce_eq, produceFront] at h
  cases hitems : (s.skipExpired now).items with
  | nil =>
    rw [hitems] at h
    cases h
  | cons item rest =>
    rw [hitems] at h
    simp only [Prod.mk.injEq, some.injEq] at h
    exact ⟨item, rest, rfl, h.1.symm, h.2.1.symm⟩

end OutgoingStream

namespace RRSendQueue

variable {q r : RRSendQueue} {history : List Observation} {segments : List Segment}
  {current : Option Block} {maxSize : Nat} {s : OutgoingStream}

theorem Account.skip (h : Account q history segments none) {time : ℚ}
    {rest : List ((ℚ ×ₗ StreamID) × Unit)} (first : q.First time id rest) (room : 0 < maxSize)
    (empty : (q.turn id now maxSize).1 = none) :
    Account (q.turn id now maxSize).2 history segments none := by
  obtain ⟨hupdated, -, -⟩ := h.consistent.toSteady.skip first now room empty
  have hsteady := (h.consistent.toSteady.withCurrent id).updated hupdated
    ((h.consistent.wellFormed id).skipExpired now)
  have hflag := hupdated.step.currentlySending
  refine h.quiet ⟨hsteady, fun hsending => ?_⟩ (hupdated.step.interleaving.trans h.plain) hflag
    (.inr rfl) (hupdated.quiet ((q.stream id).quiet_skipExpired now))
  have hidle := Idle.flag h.progress
  rw [hflag.trans hidle] at hsending
  cases hsending

theorem numberOn_start (s : OutgoingStream) (item : QueuedMessage) (room : 0 < maxSize) :
    Observation.numberOn item.message.streamId (.sent ((Block.start s item).item.chunk maxSize)) =
      if item.attributes.unordered then none else some (some s.nextSsn) := by
  rw [Block.chunk_item (Block.growing_start s item) room, numberOn_sent]
  cases hunordered : item.attributes.unordered <;>
    simp [Block.chunk, Block.start, Block.streamId, hunordered]

theorem Account.ready_start (h : Account q history segments none)
    (waiting : s.items.Sublist (q.stream id).items) (due : s.nextSsn = (q.stream id).nextSsn)
    (running : s.Running) (front : s.items = item :: rest) (room : 0 < maxSize) :
    (Block.start s item).streamId = id ∧ (s.number item).1 = (Block.start s item).item ∧
      Ready q history segments (Block.start s item) rest (s.number item).2 maxSize := by
  have hresting := Idle.resting h.progress id
  rw [front] at waiting
  have hmem := waiting.subset mem_cons_self
  have hfresh := hresting.fresh item hmem
  obtain ⟨hitem, hnextSsn⟩ := s.number_start hfresh
  obtain rfl : item.message.streamId = id := h.home id item hmem
  refine ⟨rfl, hitem, ?_⟩
  obtain ⟨-, unorderedMid, orderedMid, nextSsn, hstream⟩ := s.number_eq (.inl hfresh)
  refine ⟨Block.growing_start s item, hfresh, room, h.plain, ?_, h.valid,
    fun other _ => Idle.resting h.progress other, ?_, fun other hother => ?_,
    fun other hother => ?_, fun other _ => h.home other, ?_,
    fun other _ => ?_, ?_, fun other _ => h.numbers other⟩
  · rw [h.sending]
    rfl
  · rw [hstream]
    exact running
  · exact hresting.fresh other (waiting.subset (mem_cons_of_mem _ hother))
  · exact h.home _ other (waiting.subset (mem_cons_of_mem _ hother))
  · have hmessages := h.messages item.message.streamId
    rw [hresting.waiting] at hmessages
    refine .trans ?_ hmessages
    simp only [origins, filter_append, append_assoc]
    refine (List.Sublist.refl _).append ?_
    simpa [Block.start, Block.streamId] using waiting
  · have hmessages := h.messages other
    simpa [origins] using hmessages
  · have hnumber := numberOn_start s item room
    change numberDue 0 ((history ++ _).filterMap (Observation.numberOn item.message.streamId)) = _
    rw [filterMap_append, numberDue_append (h.numbers _), hnextSsn, ← due]
    cases hunordered : item.attributes.unordered with
    | true =>
      rw [hunordered] at hnumber
      rw [filterMap_cons_none hnumber]
      rfl
    | false =>
      rw [hunordered] at hnumber
      rw [filterMap_cons_some hnumber, numberDue, if_pos rfl]
      rfl

theorem Account.ready_continue (h : Account q history segments (some b))
    (sending : (q.stream b.streamId).Sending b.item rest)
    (content : s.content = (q.stream b.streamId).content) (room : 0 < maxSize) :
    Ready q history segments b rest s maxSize := by
  obtain ⟨-, -, horigin, hopen, -, hothers⟩ : q.InProgress b := h.progress
  have hgrowing := hopen.growing sending.started.ssn
  have hbegun : ¬b.fragments.length = 0 := by
    intro hnone
    have hpos := hopen.begun
    rw [Block.sent, length_eq_zero_iff.mp hnone] at hpos
    exact absurd hpos (Nat.lt_irrefl 0)
  refine ⟨hgrowing, horigin, room, h.plain, ?_, h.valid, hothers,
    (sending.congr content).running, sending.fresh,
    fun item hmem => ?_, fun id _ => h.home id, ?_, fun id hid => ?_, ?_,
    fun id _ => h.numbers id⟩
  · rw [h.sending]
    simp
  · apply h.home b.streamId item
    rw [sending.items]
    exact mem_cons_of_mem _ hmem
  · have hmessages := h.messages b.streamId
    rw [sending.waiting] at hmessages
    exact hmessages
  · have hother : ¬b.origin.message.streamId = id := fun heq => hid heq.symm
    have hmessages := h.messages id
    simpa [origins, hother] using hmessages
  · have hnone : Observation.numberOn b.streamId (.sent (b.item.chunk maxSize)) = none := by
      rw [Block.chunk_item hgrowing room]
      refine if_neg ?_
      rintro ⟨-, hbeginning, -⟩
      exact hbegun (of_decide_eq_true hbeginning)
    rw [filterMap_append, numberDue_append (h.numbers _), filterMap_cons_none hnone,
      nextSsn_congr content]
    rfl

theorem Ready.sent {p : RRSendQueue} {time : ℚ} (h : Ready p history segments b rest s maxSize)
    (updated : Updated b.streamId ((p.withCurrent b.streamId).withFlags
      (!b.item.isEnd maxSize) time) (s.cut b.item rest maxSize) r) (consistent : r.Consistent) :
    ∃ segments' current', Account r (history ++ [.sent (b.item.chunk maxSize)]) segments'
      current' := by
  cases hend : b.item.isEnd maxSize with
  | true =>
    rw [hend] at updated
    exact ⟨_, _, h.finish hend updated consistent⟩
  | false =>
    rw [hend] at updated
    exact ⟨_, _, h.continue hend updated consistent⟩

theorem observe_produce_of_eq {chunk : Option DataToSend} (h : q.produce now maxSize = (chunk, r)) :
    q.observe (.produce now maxSize) = chunk.toList.map .sent := by
  change (q.produce now maxSize).1.toList.map _ = _
  rw [h]

theorem Account.produce (h : Account q history segments current) (now : Timestamp)
    (room : 0 < maxSize) :
    ∃ segments' current', Account (q.produce now maxSize).2
      (history ++ q.observe (.produce now maxSize)) segments' current' := by
  cases current with
  | none =>
    have hrescheduling : q.rescheduling = true := by
      have hidle := Idle.flag h.progress
      rw [rescheduling, hidle, Bool.not_false, Bool.or_true]
    have hskip : Skips (Account · history segments none) now maxSize :=
      fun p hp time id rest first empty =>
        ⟨hp.skip first room empty, (hp.consistent.toSteady.skip first now room empty).2.2⟩
    have hresult := (produceLoop_rescheduling hskip _ q h le_rfl).1
    rw [← hrescheduling] at hresult
    rcases hresult with
      ⟨hnone, haccount, -⟩ | ⟨p, time, id, rest, chunk, hp, first, hfrom, hloop, hafter⟩
    · have hproduce := produce_of_none hnone
      rw [observe_produce_of_eq hproduce, hproduce, Option.toList_none, map_nil, append_nil]
      exact ⟨_, _, haccount⟩
    · have hproduce := produce_of_some hloop
      rw [hafter] at hproduce
      rw [observe_produce_of_eq hproduce, hproduce, hrescheduling]
      have hsent := hp.consistent.toSteady.sent_rescheduling first room hfrom
      have hconsistent := hsent.consistent hp.consistent.toSteady
      obtain ⟨s, t, total, time', hcontent, hs, -, hupdated⟩ := hsent.produced
      obtain ⟨item, behind, hfront, rfl, rfl⟩ := produce_eq_some hs
      have hrunning : s.Running := by
        rw [OutgoingStream.Running, pauseState_congr hcontent]
        exact hsent.running
      have hwaiting : (s.skipExpired now).items.Sublist (p.stream id).items := by
        rw [← items_congr hcontent]
        exact dropWhile_sublist _
      have hdue := nextSsn_congr hcontent
      obtain ⟨rfl, hitem, hready⟩ := hp.ready_start hwaiting hdue hrunning hfront room
      rw [hitem] at hupdated hconsistent ⊢
      exact hready.sent hupdated hconsistent
  | some b =>
    obtain ⟨hflag, hcurrent, -, -, ⟨rest, hsending⟩, -⟩ : q.InProgress b := h.progress
    have hrescheduling : q.rescheduling = false := by
      rw [rescheduling, h.plain, hflag]
      rfl
    obtain ⟨chunk, hfrom, hloop⟩ :=
      produceLoop_sending hcurrent hsending (h.consistent.active _) now maxSize
    rw [← hrescheduling] at hloop
    have hproduce := produce_of_some (congrArg Prod.fst hloop)
    rw [hloop] at hproduce
    rw [observe_produce_of_eq hproduce, hproduce, hrescheduling]
    have hsent := h.consistent.toSteady.sent_sending hcurrent hsending room hfrom
    have hconsistent := hsent.consistent h.consistent.toSteady
    obtain ⟨s, t, total, time', hcontent, hs, -, hupdated⟩ := hsent.produced
    obtain ⟨item, behind, hfront, rfl, rfl⟩ := produce_eq_some hs
    have hsame := hsending.congr hcontent
    rw [(hsame.skipExpired now).2] at hfront hupdated hconsistent ⊢
    obtain ⟨rfl, rfl⟩ := cons.inj (hfront.symm.trans hsame.items)
    rw [s.number_started hsending.started] at hupdated hconsistent ⊢
    exact (h.ready_continue hsending hcontent room).sent hupdated hconsistent

theorem account_initial (mtu : Nat) (defaultPriority : StreamPriority) :
    Account (initial mtu defaultPriority) [] [] none where
  consistent := consistent_initial mtu defaultPriority
  plain := rfl
  sending := rfl
  valid := nofun
  progress := ⟨rfl, fun _ => ⟨nofun, nofun⟩⟩
  home := nofun
  messages _ := .refl _
  numbers _ := rfl

theorem Account.getStreamsReadyToBeReset (h : Account q history segments current) :
    Account q.getStreamsReadyToBeReset.2 history segments current := by
  refine q.forEachIn_induction (P := fun r => Account r history segments current) .paused _ h ?_
  intro r id hr paused
  exact hr.updated (r.setAsResetting_updated id (hr.consistent.active id) paused)
    (hr.consistent.setAsResetting paused)
    (quiet_pauseState (hr.consistent.resting (.inl paused)) nofun)

theorem Account.rollbackResetStreams (h : Account q history segments current) :
    Account q.rollbackResetStreams history segments current := by
  refine q.forEachIn_induction (P := fun r => Account r history segments current) .resetting _ h ?_
  intro r id hr resetting
  exact hr.updated (r.resume_updated id (hr.consistent.active id) resetting)
    (hr.consistent.resume resetting)
    (quiet_pauseState (hr.consistent.resting (.inr resetting)) nofun)

theorem Account.perform (h : Account q history segments current) {call : Call}
    (allowed : q.permitted call = true) (plain : call ≠ .enableMessageInterleaving true) :
    ∃ segments' current', Account (q.perform call) (history ++ q.observe call) segments'
      current' := by
  have hconsistent := h.consistent.perform allowed
  have hnone : q.observe call = [] → Account (q.perform call) history segments current →
      ∃ segments' current', Account (q.perform call) (history ++ q.observe call) segments'
        current' := by
    intro hseen haccount
    rw [hseen, append_nil]
    exact ⟨_, _, haccount⟩
  cases call with
  | add now message options => exact ⟨_, _, h.add now message options⟩
  | produce now maxSize => exact h.produce now (of_decide_eq_true allowed)
  | discard id messageId => exact h.discard id messageId allowed
  | prepareResetStream id =>
    refine hnone rfl (h.updated (q.pause_updated id (h.consistent.wellFormed id)
      (h.consistent.active id) (h.consistent.bufferedAmount_le id)) hconsistent ?_)
    exact (q.stream id).quiet_pausing
  | getStreamsReadyToBeReset => exact hnone rfl h.getStreamsReadyToBeReset
  | commitResetStreams => exact ⟨_, _, h.commitResetStreams⟩
  | rollbackResetStreams => exact hnone rfl h.rollbackResetStreams
  | setStreamPriority id priority =>
    exact hnone rfl (h.updated (q.updated_setStream id (h.consistent.active id) rfl rfl)
      hconsistent (.refl _))
  | reset => exact ⟨_, _, h.reset⟩
  | enableMessageInterleaving enabled =>
    cases enabled with
    | true => exact absurd rfl plain
    | false => exact hnone rfl (h.quiet hconsistent rfl rfl (.inl rfl) fun id => .refl _)

theorem Account.run (calls : List Call) :
    ∀ {q : RRSendQueue} {history : List Observation} {segments : List Segment}
      {current : Option Block}, Account q history segments current →
      q.permittedRun calls = true → (∀ call ∈ calls, call ≠ .enableMessageInterleaving true) →
      ∃ segments' current', Account (calls.foldl RRSendQueue.perform q)
        (history ++ q.history calls) segments' current' := by
  induction calls with
  | nil =>
    intro q history segments current h _ _
    exact ⟨segments, current, (append_nil history).symm ▸ h⟩
  | cons call calls ih =>
    intro q history segments current h allowed plain
    obtain ⟨hcall, hcalls⟩ := Bool.and_eq_true_iff.mp allowed
    obtain ⟨segments', current', hnext⟩ := h.perform hcall (plain call mem_cons_self)
    obtain ⟨segments'', current'', hrun⟩ :=
      ih hnext hcalls (forall_mem_cons.mp plain).2
    rw [append_assoc] at hrun
    exact ⟨segments'', current'', hrun⟩

/-- Without interleaving, what a permitted run sends is a sequence of blocks. A block holds the
whole message unless it is discarded, the queue is reset, or it is still in progress. Each message
has at most one block that no reset cuts, in the order of its stream, and the ordered ones are
numbered consecutively from each reset of the stream. -/
theorem messages_whole (mtu : Nat) (defaultPriority : StreamPriority) (calls : List Call)
    (allowed : (initial mtu defaultPriority).permittedRun calls = true)
    (plain : ∀ call ∈ calls, call ≠ .enableMessageInterleaving true) :
    let seen := (initial mtu defaultPriority).history calls
    (∃ (segments : List Segment) (current : Option Block),
      seen.filter Observation.isSending = segments.flatMap Segment.observations ++
        (current.toList.flatMap fun b => (b.chunks false).map .sent) ∧
      (∀ segment ∈ segments, segment.Valid) ∧ (∀ b ∈ current, b.Partial) ∧
      ∀ id, ((origins segments current).filter fun item => item.message.streamId = id).Sublist
        (seen.filterMap (Observation.acceptedOn id))) ∧
    ∀ id, (numberDue 0 (seen.filterMap (Observation.numberOn id))).isSome = true := by
  intro seen
  obtain ⟨segments, current, h⟩ :=
    Account.run calls (account_initial mtu defaultPriority) allowed plain
  refine ⟨⟨segments, current, h.sending, h.valid, ?_, fun id => ?_⟩, fun id => ?_⟩
  · rintro b hb
    obtain rfl : current = some b := hb
    exact InProgress.begun h.progress
  · exact (sublist_append_left _ _).trans (h.messages id)
  · exact isSome_iff_exists.mpr ⟨_, h.numbers id⟩

/-- Two messages share the queue; one is discarded in progress, and its stream is then reset. -/
theorem messages_whole_discarded : let calls : List Call :=
      [.add (.finite 0) ⟨1, 53, [1, 2, 3]⟩ {}, .add (.finite 0) ⟨2, 53, [4, 5]⟩ {},
        .produce (.finite 0) 2, .discard 1 0, .produce (.finite 0) 1, .produce (.finite 0) 1,
        .prepareResetStream 1, .getStreamsReadyToBeReset, .commitResetStreams,
        .add (.finite 0) ⟨1, 53, [6]⟩ {}, .produce (.finite 0) 1]
    (initial 100 256).permittedRun calls = true ∧
      (numberDue 0 (((initial 100 256).history calls).filterMap
        (Observation.numberOn 1))).isSome = true := by
  intro calls
  have hallowed : (initial 100 256).permittedRun calls = true := by decide +kernel
  refine ⟨hallowed, (messages_whole 100 256 calls hallowed ?_).2 1⟩
  decide +kernel

def Observation.chunk? : Observation → Option DataToSend
  | .sent chunk => some chunk
  | _ => none

/-- A reset of a stream numbers its messages from zero again; `Produce` without room returns a first
chunk that is no beginning; and discarding a message that was not begun interrupts the one in
progress. -/
theorem messages_not_whole : (((initial 100 256).history
        [.add (.finite 0) ⟨1, 53, [1]⟩ {}, .produce (.finite 0) 10, .prepareResetStream 1,
          .getStreamsReadyToBeReset, .commitResetStreams, .add (.finite 0) ⟨1, 53, [2]⟩ {},
          .produce (.finite 0) 10]).filterMap Observation.chunk?).map
        (fun chunk => (chunk.data.streamId, chunk.data.isUnordered, chunk.data.ssn)) =
      [(1, false, 0), (1, false, 0)] ∧ (((initial 100 256).history
        [.add (.finite 0) ⟨1, 53, [1, 2]⟩ {}, .produce (.finite 0) 0]).filterMap
        Observation.chunk?).map (fun chunk => chunk.data.isBeginning) = [false] ∧
    (((initial 100 256).history
        [.add (.finite 0) ⟨1, 53, [1, 2]⟩ {}, .add (.finite 0) ⟨2, 53, [3, 4]⟩ {},
          .add (.finite 0) ⟨3, 53, [5, 6]⟩ {}, .produce (.finite 0) 1, .discard 2 1,
          .produce (.finite 0) 1]).filterMap Observation.chunk?).map
        (fun chunk => (chunk.data.streamId, chunk.data.isEnd)) = [(1, false), (3, false)] := by
  decide +kernel

end RRSendQueue

end Dcsctp
