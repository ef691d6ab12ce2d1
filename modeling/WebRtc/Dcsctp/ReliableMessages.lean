import WebRtc.Dcsctp.OutstandingDataConsistency

/-!
# Reliable messages

A message without a retransmission limit and without an expiry is meant to be sent until it is
acknowledged. The limit "none" is the largest value of its 16 bits, and `Item::Nack` compares the
counter of retransmissions with it. The message is therefore kept until a chunk of it has been sent
again 65535 times.
-/

namespace Dcsctp

open List

namespace OutstandingData

open Units

variable {item : Item}

def Every (P : Item → Prop) (d : OutstandingData) : Prop := ∀ item ∈ d.outstandingData.items, P item

section Every

variable {P : Item → Prop} {d : OutstandingData}

theorem every_iff_get? :
    Every P d ↔ ∀ tsn item, d.outstandingData.get? tsn = some item → P item := by
  constructor
  · exact fun h tsn item held => h item (Window.mem_items_iff.mpr ⟨tsn, held⟩)
  · intro h item hmem
    obtain ⟨tsn, held⟩ := Window.mem_items_iff.mp hmem
    exact h tsn item held

variable {d' : OutstandingData}

theorem Every.congr (h : Every P d)
    (same : d'.outstandingData = d.outstandingData) : Every P d' := by
  rw [Every, same]
  exact h

theorem Every.modify (h : Every P d) {tsn : Int} {f : Item → Item}
    (window : d'.outstandingData = d.outstandingData.modify tsn f)
    (step : ∀ item, d.outstandingData.get? tsn = some item → P (f item)) : Every P d' := by
  rw [every_iff_get?] at h ⊢
  intro t item' held
  rw [window, Window.get?_modify] at held
  split_ifs at held with ht
  · obtain ⟨item, hitem, rfl⟩ := Option.map_eq_some_iff.mp held
    exact step item (ht ▸ hitem)
  · exact h t item' held

theorem Every.push (h : Every P d) (new : P item) : Every P (d.pushItem item) := by
  intro other hmem
  rcases mem_append.mp hmem with hmem | hmem
  · exact h other hmem
  · obtain rfl := mem_singleton.mp hmem
    exact new

theorem Every.ackChunk (h : Every P d) (ack : ∀ item, P item → P item.ack) (info : AckInfo)
    (tsn : Int) (item : Item) : Every P (d.ackChunk info tsn item).2 := by
  have hwindow := @outstandingData_ackChunk d info tsn item
  split_ifs at hwindow
  · exact h.congr hwindow
  · exact h.modify hwindow fun other held => ack other (every_iff_get?.mp h tsn other held)

theorem Every.removeAckedLoop (ack : ∀ item, P item → P item.ack) (cumulativeTsnAck : Int) :
    ∀ (n : Nat) (info : AckInfo) {d : OutstandingData}, Every P d →
      Every P (removeAckedLoop cumulativeTsnAck n (info, d)).2 := by
  intro n
  induction n with
  | zero => exact fun _ _ h => h
  | succ n ih =>
    intro info d h
    rw [OutstandingData.removeAckedLoop]
    split
    · exact h
    · split_ifs
      · refine ih _ fun other hmem => ?_
        exact h.ackChunk ack _ _ _ other (mem_of_mem_tail hmem)
      · exact h

theorem Every.ackRange (ack : ∀ item, P item → P item.ack) :
    ∀ (n : Nat) (tsn : Int) (info : AckInfo) {d : OutstandingData}, Every P d →
      Every P (ackRange n tsn (info, d)).2 := by
  intro n
  induction n with
  | zero => exact fun _ _ _ h => h
  | succ n ih =>
    intro tsn info d h
    rw [OutstandingData.ackRange]
    split
    · exact ih _ _ (h.ackChunk ack _ _ _)
    · exact ih _ _ h

theorem Every.acknowledge (h : Every P d) (ack : ∀ item, P item → P item.ack)
    (cumulativeTsnAck : Int) (blocks : List GapAckBlock) :
    Every P (d.acknowledge cumulativeTsnAck blocks).2 := by
  have hblocks : ∀ (blocks : List GapAckBlock) (s : AckInfo × OutstandingData), Every P s.2 →
      Every P (ackGapBlocks cumulativeTsnAck blocks s).2 := by
    intro blocks
    induction blocks with
    | nil => exact fun _ h => h
    | cons block rest ih => exact fun s h => ih _ (Every.ackRange ack _ _ s.1 h)
  exact hblocks blocks _ (Every.removeAckedLoop ack cumulativeTsnAck _ _ h)

theorem Every.extractLoop (h : Every P d) (sent : ∀ item, P item → P item.markAsRetransmitted)
    (queue : Queue) (tsns : List Int) (maxSize : Nat) :
    Every P (extractLoop queue tsns maxSize d).2 := by
  refine extractLoop_preserves (fun _ h => h) (fun d tsn item _ h => ?_) tsns maxSize h
  exact h.modify (outstandingData_retransmit d queue tsn item) fun other held =>
    sent other (every_iff_get?.mp h tsn other held)

variable {σ : Type} (discard : σ → StreamID → OutgoingMessageId → Bool × σ)

theorem Every.abandonAllFor {s : OutstandingData × σ} (h : Every P s.1)
    (other : ∀ a : Item, a.messageId = item.messageId → P a) :
    Every P (abandonAllFor discard item s).1 := by
  refine abandonAllFor_preserves discard (fun h => h.push (other (messageEnd item) rfl))
    (fun d tsn found held hsame h => ?_) h
  refine h.modify (outstandingData_abandonItem d tsn found) fun a ha => ?_
  obtain rfl := Option.some.inj (held.symm.trans ha)
  exact other found.abandon hsame

end Every

section Reliable

/-- An item of the message is reliable and not abandoned. -/
def Kept (messageId : OutgoingMessageId) (item : Item) : Prop :=
  item.messageId = messageId →
    item.maxRetransmissions = MaxRetransmits.noLimit ∧ item.expiresAt = .plusInfinity ∧
      item.isAbandoned = false

/-- An item of the message has not been sent again 65535 times. -/
def Spare (messageId : OutgoingMessageId) (item : Item) : Prop :=
  item.messageId = messageId → item.numRetransmissions ≠ MaxRetransmits.noLimit

instance (messageId : OutgoingMessageId) (item : Item) : Decidable (Spare messageId item) :=
  inferInstanceAs (Decidable (_ → _))

variable {messageId : OutgoingMessageId}

theorem kept_ack (item : Item) (h : Kept messageId item) : Kept messageId item.ack := by
  intro hid
  obtain ⟨hlimit, hexpires, halive⟩ := h hid
  refine ⟨hlimit, hexpires, ?_⟩
  simp [Item.ack, Item.isAbandoned, of_decide_eq_false halive]

theorem kept_markAsRetransmitted (item : Item) (h : Kept messageId item) :
    Kept messageId item.markAsRetransmitted := by
  intro hid
  obtain ⟨hlimit, hexpires, -⟩ := h hid
  exact ⟨hlimit, hexpires, rfl⟩

theorem nack_of_spare (kept : Kept messageId item) (spare : Spare messageId item)
    (same : item.messageId = messageId) (retransmitNow : Bool) :
    (item.nack retransmitNow).2 ≠ .abandon ∧ (item.nack retransmitNow).1.isAbandoned = false ∧
      (item.nack retransmitNow).1.numRetransmissions = item.numRetransmissions := by
  obtain ⟨hlimit, -, halive⟩ := kept same
  have hnum := spare same
  have hless : item.numRetransmissions < item.maxRetransmissions := by
    rw [hlimit]
    unfold MaxRetransmits.noLimit at hnum ⊢
    bv_omega
  have hlifecycle := of_decide_eq_false halive
  unfold Item.nack
  dsimp only
  split_ifs
  · exact ⟨NackAction.noConfusion, rfl, rfl⟩
  · exact ⟨NackAction.noConfusion, decide_eq_false hlifecycle, rfl⟩

def KeptSpare (messageId : OutgoingMessageId) (item : Item) : Prop :=
  Kept messageId item ∧ Spare messageId item

theorem keptSpare_of_ne (ne : item.messageId ≠ messageId) : KeptSpare messageId item :=
  ⟨fun h => absurd h ne, fun h => absurd h ne⟩

variable {σ : Type} (discard : σ → StreamID → OutgoingMessageId → Bool × σ)

variable {s : OutstandingData × σ}

theorem keptSpare_abandonAllFor (h : Every (KeptSpare messageId) s.1)
    (ne : item.messageId ≠ messageId) :
    Every (KeptSpare messageId) (abandonAllFor discard item s).1 :=
  h.abandonAllFor discard fun _ hid => keptSpare_of_ne (hid ▸ ne)

theorem keptSpare_nackItem (h : Every (KeptSpare messageId) s.1)
    (tsn : Int) (retransmitNow doFast : Bool) :
    Every (KeptSpare messageId) (nackItem discard tsn retransmitNow doFast s).2.1 := by
  unfold nackItem
  split
  · exact h.congr rfl
  · case h_2 item held =>
    have hitem := every_iff_get?.mp h tsn item held
    have hchunk := sameChunk_nack item retransmitNow
    have hnacked : KeptSpare messageId (item.nack retransmitNow).1 := by
      by_cases hid : item.messageId = messageId
      · obtain ⟨-, halive, hnum⟩ := nack_of_spare hitem.1 hitem.2 hid retransmitNow
        obtain ⟨hlimit, hexpires, -⟩ := hitem.1 hid
        constructor
        · exact fun _ => ⟨hchunk.maxRetransmissions.trans hlimit,
            hchunk.expiresAt.trans hexpires, halive⟩
        · exact fun _ => hnum ▸ hitem.2 hid
      · exact keptSpare_of_ne (hchunk.messageId ▸ hid)
    have hmodified : Every (KeptSpare messageId) ((s.1.takeOutOfFlight item).modifyItem tsn
        fun item => (item.nack retransmitNow).1) := by
      refine h.modify (congrArg (Window.modify · tsn _) (outstandingData_takeOutOfFlight ..))
        fun other hother => ?_
      obtain rfl := Option.some.inj (held.symm.trans hother)
      exact hnacked
    split
    · exact hmodified
    · exact hmodified.congr (by simp)
    · case h_3 habandon =>
      -- the lost item is of another message, so that the abandoned one is
      refine keptSpare_abandonAllFor discard hmodified fun hid => ?_
      have hid' := hchunk.messageId ▸ hid
      exact (nack_of_spare hitem.1 hitem.2 hid' retransmitNow).1 habandon

theorem keptSpare_expireLoop (h : Every (KeptSpare messageId) s.1)
    (now : Int) (n : Nat) (tsn : Int) :
    Every (KeptSpare messageId) (expireLoop discard (.finite now) n tsn s).1 := by
  refine expireLoop_preserves discard (motive := fun s => Every (KeptSpare messageId) s.1)
    (fun s t item held _ hexpired h => ?_) n tsn h
  -- an item of the message never expires
  refine keptSpare_abandonAllFor discard h fun hid => ?_
  have hexpires := ((every_iff_get?.mp h t item held).1 hid).2.1
  rw [Item.hasExpired, hexpires] at hexpired
  exact Bool.noConfusion hexpired

/-- The chunks of the message are inserted without limit and expiry, and the time is finite. -/
def Call.Lasting (messageId : OutgoingMessageId) : Call → Prop
  | .insert id _ timeSent maxRetransmissions expiresAt _ =>
    (∃ now, timeSent = .finite now) ∧
      (id = messageId → maxRetransmissions = MaxRetransmits.noLimit ∧ expiresAt = .plusInfinity)
  | .expireOutstandingChunks now => ∃ time, now = .finite time
  | _ => True

theorem kept_perform {c : Call} (lasting : c.Lasting messageId)
    (kept : Every (Kept messageId) s.1) (spare : Every (Spare messageId) s.1) :
    Every (Kept messageId) (perform discard s c).1 := by
  have hboth : Every (KeptSpare messageId) s.1 := fun item hmem =>
    ⟨kept item hmem, spare item hmem⟩
  have hleft : ∀ d : OutstandingData, Every (KeptSpare messageId) d → Every (Kept messageId) d :=
    fun d h item hmem => (h item hmem).1
  cases c with
  | insert id data timeSent maxRetransmissions expiresAt lifecycleId =>
    obtain ⟨⟨now, rfl⟩, hlasting⟩ := lasting
    refine hleft _ ?_
    by_cases hid : id = messageId
    · obtain ⟨rfl, rfl⟩ := hlasting hid
      refine Every.push (hboth.congr rfl) ⟨fun _ => ⟨rfl, rfl, rfl⟩, fun _ => ?_⟩
      exact (by decide : (0 : BitVec 16) ≠ MaxRetransmits.noLimit)
    · have hpushed : ∀ item : Item, item.messageId = id →
          Every (KeptSpare messageId) ((s.1.addUnacked data).pushItem item) := fun item hitem =>
        Every.push (hboth.congr rfl) (keptSpare_of_ne (hitem ▸ hid))
      simp only [perform, insertChunk]
      split_ifs
      · exact keptSpare_abandonAllFor discard (hpushed _ rfl) hid
      · exact hpushed _ rfl
  | handleSack cumulativeTsnAck blocks isInFastRecovery =>
    exact hleft _ (handleSack_preserves discard (motive := fun s => Every (KeptSpare messageId) s.1)
      (fun t _ h => keptSpare_nackItem discard h t false _) _ _
      (hboth.acknowledge (fun item h => ⟨kept_ack item h.1, h.2⟩) cumulativeTsnAck blocks))
  | nackAll =>
    exact hleft _ (nackEach_preserves discard (motive := fun s => Every (KeptSpare messageId) s.1)
      (fun t _ h => keptSpare_nackItem discard h t true false) _ hboth)
  | expireOutstandingChunks now =>
    obtain ⟨time, rfl⟩ := lasting
    exact hleft _ (keptSpare_expireLoop discard hboth time _ _)
  | getChunksToBeFastRetransmitted maxSize =>
    exact (kept.extractLoop kept_markAsRetransmitted .fast _ maxSize).congr rfl
  | getChunksToBeRetransmitted maxSize =>
    exact kept.extractLoop kept_markAsRetransmitted .timer _ maxSize
  | beginResetStreams => exact kept.congr rfl

def run (s : OutstandingData × σ) (calls : List Call) : OutstandingData × σ :=
  calls.foldl (perform discard) s

/-- Whenever a call is made, no chunk of the message has been sent again 65535 times. -/
def Spares (messageId : OutgoingMessageId) : OutstandingData × σ → List Call → Prop
  | _, [] => True
  | s, c :: rest => Every (Spare messageId) s.1 ∧ Spares messageId (perform discard s c) rest

theorem kept_run : ∀ (calls : List Call) {s : OutstandingData × σ}, Every (Kept messageId) s.1 →
      (∀ c ∈ calls, c.Lasting messageId) → Spares discard messageId s calls →
        Every (Kept messageId) (run discard s calls).1 := by
  intro calls
  induction calls with
  | nil => exact fun h _ _ => h
  | cons c rest ih =>
    rintro s hkept hlasting ⟨hspare, hspares⟩
    refine ih (kept_perform discard (hlasting c mem_cons_self) hkept hspare) ?_ hspares
    exact fun c' hmem => hlasting c' (mem_cons_of_mem c hmem)

/-- A reliable message is not abandoned as long as none of its chunks has been sent again 65535
times. -/
theorem reliable_not_abandoned (headerSize : Nat) (initialTsn : Int) (queue : σ)
    {calls : List Call} (lasting : ∀ c ∈ calls, c.Lasting messageId)
    (spares : Spares discard messageId (initial headerSize initialTsn, queue) calls) :
    ∀ item ∈ (run discard (initial headerSize initialTsn, queue) calls).1.outstandingData.items,
      item.messageId = messageId → item.lifecycle ≠ .abandoned := by
  intro item hmem hid
  have hempty : Every (Kept messageId) (initial headerSize initialTsn) :=
    fun _ hmem => absurd hmem not_mem_nil
  have hkept := kept_run discard calls hempty lasting spares
  exact of_decide_eq_false (hkept item hmem hid).2.2

/-- The chunk of a reliable message is lost, sent again and lost again. -/
theorem reliable_not_abandoned_lostTwice :
    let items := (run (fun (_ : Unit) _ _ => (false, ())) (initial 16 0, ()) [insertSingle 7 [1],
      .nackAll, .getChunksToBeRetransmitted 20, .nackAll]).1.outstandingData.items
    items.map Item.messageId = [7] ∧
      ∀ item ∈ items, item.messageId = 7 → item.lifecycle ≠ .abandoned := by
  refine ⟨by decide +kernel, ?_⟩
  refine @reliable_not_abandoned 7 Unit (fun _ _ _ => (false, ())) 16 0 () _ ?_ ?_
  · intro c hmem
    simp only [mem_cons, not_mem_nil, or_false] at hmem
    rcases hmem with rfl | rfl | rfl | rfl
    · exact ⟨⟨0, rfl⟩, fun _ => ⟨rfl, rfl⟩⟩
    all_goals trivial
  · refine ⟨?_, ?_, ?_, ?_, trivial⟩
    all_goals
      unfold Every
      decide +kernel

end Reliable

section Exhausted

def resentItem (count : Nat) : Item where
  messageId := 7
  data := singleFragment [1]
  timeSent := .finite 0
  maxRetransmissions := MaxRetransmits.noLimit
  expiresAt := .plusInfinity
  lifecycleId := 0
  numRetransmissions := BitVec.ofNat 16 count

def resending (count : Nat) : OutstandingData where
  dataChunkHeaderSize := 16
  outstandingData := ⟨0, [resentItem count]⟩
  unackedPayloadBytes := 1
  unackedPacketBytes := 20
  unackedItems := 1

def timeout : List Call := [.nackAll, .getChunksToBeRetransmitted 20]

def lostItem (count : Nat) : Item :=
  { resentItem count with ackState := .nacked, lifecycle := .toBeRetransmitted, nackCount := 1 }

def lost (count : Nat) : OutstandingData where
  dataChunkHeaderSize := 16
  outstandingData := ⟨0, [lostItem count]⟩
  toBeRetransmitted := {1}

theorem nackAll_resending {count : Nat} (spare : count < 65535) :
    nackAll keepAll (resending count, ()) = (lost count, ()) := by
  have hless : BitVec.ofNat 16 count < MaxRetransmits.noLimit := by
    unfold MaxRetransmits.noLimit
    bv_omega
  have hnack : (resentItem count).nack true = (lostItem count, .retransmit) := by
    simp [Item.nack, resentItem, Item.shouldBeRetransmitted, Item.isAbandoned, hless, lostItem]
  have hsingle : nackAll keepAll (resending count, ()) =
      (nackItem keepAll 1 true false (resending count, ())).2 := rfl
  have hheld : (resending count).outstandingData.get? 1 = some (resentItem count) := rfl
  have hmodify : ∀ f : Item → Item, f (resentItem count) = lostItem count →
      (((resending count).takeOutOfFlight (resentItem count)).modifyItem 1 f).insertInto 1 .timer =
        lost count := by
    intro f hf
    simp [resending, takeOutOfFlight, resentItem, Item.isOutstanding, subtractUnacked, modifyItem,
      insertInto, lost, Window.modify, getSerializedChunkSize, roundUpTo4, singleFragment, Data.size,
      ← hf]
  rw [hsingle]
  simp [nackItem, hheld, hnack, hmodify]

theorem extract_lost (count : Nat) :
    ((lost count).getChunksToBeRetransmitted 20).2 = resending (count + 1) := by
  have hsort : ((lost count).chunksIn .timer).sort = [1] := Finset.sort_singleton ..
  have hheld : (lost count).outstandingData.get? 1 = some (lostItem count) := rfl
  have hmark : (lostItem count).markAsRetransmitted = resentItem (count + 1) := by
    simp [Item.markAsRetransmitted, lostItem, resentItem, BitVec.ofNat_add]
  simp only [getChunksToBeRetransmitted, extractChunksThatCanFit, hsort, extractLoop, hheld]
  have hdata : (lostItem count).data.size = 1 := rfl
  simp [retransmit, modifyItem, lost, Window.modify, hmark, resending, addUnacked, eraseFrom,
    getSerializedChunkSize, roundUpTo4, hdata]

theorem run_timeouts : ∀ rounds count : Nat, count + rounds ≤ 65535 →
      run keepAll (resending count, ()) (replicate rounds timeout).flatten =
        (resending (count + rounds), ()) := by
  intro rounds
  induction rounds with
  | zero => exact fun _ _ => rfl
  | succ rounds ih =>
    intro count hle
    have hlost := nackAll_resending (show count < 65535 by omega)
    have hround : run keepAll (resending count, ()) timeout = (resending (count + 1), ()) := by
      simp [run, timeout, perform, hlost, extract_lost]
    have hrest := ih (count + 1) (by omega)
    rw [Nat.add_right_comm] at hrest
    rw [replicate_succ, flatten_cons, run, foldl_append]
    rw [run] at hround hrest
    rw [hround, hrest]
    rfl

/-- A reliable message that is sent again 65535 times, and lost once more. -/
def timeouts : List Call :=
  insertSingle 7 [1] :: ((List.replicate 65535 timeout).flatten ++ [.nackAll])

/-- It is abandoned. -/
theorem reliable_abandoned_after_timeouts : (∀ c ∈ timeouts, c.Lasting 7) ∧
    ∃ item ∈ (run keepAll (initial 16 0, ()) timeouts).1.outstandingData.items,
      item.messageId = 7 ∧ item.maxRetransmissions = MaxRetransmits.noLimit ∧
        item.expiresAt = .plusInfinity ∧ item.lifecycle = .abandoned := by
  constructor
  · intro c hmem
    rcases mem_cons.mp hmem with rfl | hmem
    · exact ⟨⟨0, rfl⟩, fun _ => ⟨rfl, rfl⟩⟩
    rcases mem_append.mp hmem with hmem | hmem
    · obtain ⟨round, hround, hc⟩ := mem_flatten.mp hmem
      obtain rfl := eq_of_mem_replicate hround
      rcases mem_pair.mp hc with rfl | rfl <;> trivial
    · obtain rfl := mem_singleton.mp hmem
      trivial
  · have hinserted : perform keepAll (initial 16 0, ()) (insertSingle 7 [1]) = (resending 0, ()) :=
      rfl
    have hrun : run keepAll (initial 16 0, ()) timeouts =
        nackAll keepAll (resending 65535, ()) := by
      have hrounds := run_timeouts 65535 0 le_rfl
      rw [run] at hrounds
      rw [run, timeouts, foldl_cons, hinserted, foldl_append, hrounds]
      rfl
    rw [hrun]
    decide +kernel

end Exhausted

end OutstandingData

end Dcsctp
