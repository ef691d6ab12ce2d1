import WebRtc.Dcsctp.OutstandingData

/-!
# What the operations on outstanding data are made of

Each operation is a sequence of small steps: a chunk is acknowledged or popped, found
lost, or sent again. An invariant that every small step keeps is kept by the operations.
-/

namespace Dcsctp

open Window List

namespace OutstandingData

open Relation Units

variable (d : OutstandingData) {motive : OutstandingData → Prop}

@[simp] theorem outstandingData_subtractUnacked (data : Data) :
    (d.subtractUnacked data).outstandingData = d.outstandingData := rfl

@[simp] theorem outstandingData_addUnacked (data : Data) :
    (d.addUnacked data).outstandingData = d.outstandingData := rfl

@[simp] theorem outstandingData_modifyItem (tsn : Int) (f : Item → Item) :
    (d.modifyItem tsn f).outstandingData = d.outstandingData.modify tsn f := rfl

@[simp] theorem outstandingData_pushItem (item : Item) :
    (d.pushItem item).outstandingData = d.outstandingData.push item := rfl

@[simp] theorem outstandingData_eraseFrom (tsn : Int) (queue : Queue) :
    (d.eraseFrom tsn queue).outstandingData = d.outstandingData := by
  cases queue <;> rfl

@[simp] theorem outstandingData_insertInto (tsn : Int) (queue : Queue) :
    (d.insertInto tsn queue).outstandingData = d.outstandingData := by
  cases queue <;> rfl

@[simp] theorem outstandingData_takeOutOfFlight (item : Item) :
    (d.takeOutOfFlight item).outstandingData = d.outstandingData := by
  unfold takeOutOfFlight
  split_ifs <;> rfl

@[simp] theorem outstandingData_retransmit (queue : Queue) (tsn : Int) (item : Item) :
    (d.retransmit queue tsn item).outstandingData =
      d.outstandingData.modify tsn Item.markAsRetransmitted := by
  simp [retransmit]

theorem outstandingData_abandonItem (tsn : Int) (other : Item) :
    (d.abandonItem tsn other).outstandingData = d.outstandingData.modify tsn Item.abandon := by
  unfold abandonItem
  split_ifs <;> simp

theorem outstandingData_ackChunk (info : AckInfo) {tsn : Int} {item : Item} :
    (d.ackChunk info tsn item).2.outstandingData =
      if item.isAcked then d.outstandingData else d.outstandingData.modify tsn Item.ack := by
  unfold ackChunk
  split_ifs <;> simp

/-- A step of the acknowledging part of `HandleSack`. -/
inductive AckStep : OutstandingData → OutstandingData → Prop
  | ack {d : OutstandingData} {tsn : Int} {item : Item} (info : AckInfo)
      (held : d.outstandingData.get? tsn = some item) : AckStep d (d.ackChunk info tsn item).2
  | pop {d : OutstandingData} {item : Item} {rest : List Item}
      (front : d.outstandingData.items = item :: rest) (acked : item.isAcked = true) :
      AckStep d d.popFront
  | breakpoints {d : OutstandingData} (tsns : Finset Int) :
      AckStep d { d with streamResetBreakpointTsns := tsns }

/-- A step of the operations that look for lost and expired chunks. -/
inductive LossStep {σ : Type} (discard : σ → StreamID → OutgoingMessageId → Bool × σ) :
    OutstandingData × σ → OutstandingData × σ → Prop
  | nack {s : OutstandingData × σ} {tsn : Int} {item : Item} (retransmitNow doFast : Bool)
      (held : s.1.outstandingData.get? tsn = some item) :
      LossStep discard s (nackItem discard tsn retransmitNow doFast s).2
  | expire {s : OutstandingData × σ} {tsn : Int} {item : Item} (now : Timestamp)
      (held : s.1.outstandingData.get? tsn = some item) (nacked : item.isNacked = true)
      (expired : item.hasExpired now = true) : LossStep discard s (abandonAllFor discard item s)

/-- A step of the extraction of chunks to send again. -/
inductive RetransmitStep (queue : Queue) : OutstandingData → OutstandingData → Prop
  | retransmit {d : OutstandingData} {tsn : Int} {item : Item}
      (held : d.outstandingData.get? tsn = some item) (waiting : tsn ∈ d.chunksIn queue) :
      RetransmitStep queue d (d.retransmit queue tsn item)

section Acknowledging

variable (d : OutstandingData) {cumulativeTsnAck : Int}

theorem isAcked_ack (item : Item) : item.ack.isAcked = true := by
  simp [Item.ack, Item.isAcked]

section

variable (info : AckInfo)

theorem get?_ackChunk_self {d : OutstandingData} {tsn : Int} {item : Item}
    (held : d.outstandingData.get? tsn = some item) :
    ∃ acked, (d.ackChunk info tsn item).2.outstandingData.get? tsn = some acked ∧
      acked.isAcked = true := by
  rw [outstandingData_ackChunk]
  split_ifs with hacked
  · exact ⟨item, held, hacked⟩
  · refine ⟨item.ack, ?_, isAcked_ack item⟩
    rw [get?_modify, if_pos rfl, held, Option.map_some]

@[simp] theorem base_ackChunk (tsn : Int) (item : Item) :
    (d.ackChunk info tsn item).2.outstandingData.base = d.outstandingData.base := by
  rw [outstandingData_ackChunk]
  split_ifs
  · rfl
  · exact base_modify ..

@[simp] theorem highest_ackChunk (tsn : Int) (item : Item) :
    (d.ackChunk info tsn item).2.outstandingData.highest = d.outstandingData.highest := by
  rw [outstandingData_ackChunk]
  split_ifs
  · rfl
  · exact highest_modify ..

theorem highestTsnAcked_ackChunk (tsn : Int) (item : Item) :
    (d.ackChunk info tsn item).1.highestTsnAcked = info.highestTsnAcked ∨
      (d.ackChunk info tsn item).1.highestTsnAcked = max info.highestTsnAcked tsn := by
  unfold ackChunk
  split_ifs
  · exact Or.inl rfl
  all_goals exact Or.inr rfl

@[simp] theorem highestTsnAcked_noteLifecycle (item : Item) :
    (noteLifecycle info item).highestTsnAcked = info.highestTsnAcked := by
  unfold noteLifecycle
  split_ifs <;> rfl

end

theorem base_popFront : d.popFront.outstandingData.base = d.outstandingData.base + 1 := rfl

variable {d : OutstandingData}

/-- The window starts after the new cumulative TSN ack and no chunk past its end was
acknowledged. -/
structure Acknowledged (cumulativeTsnAck : Int) (d : OutstandingData)
    (s : AckInfo × OutstandingData) : Prop where
  steps : ReflTransGen AckStep d s.2
  base : s.2.outstandingData.base = cumulativeTsnAck
  highest : s.2.outstandingData.highest = d.outstandingData.highest
  sent : s.1.highestTsnAcked ≤ d.outstandingData.highest

theorem removeAckedLoop_spec (cumulativeTsnAck : Int) :
    ∀ (n : Nat) (info : AckInfo) (d : OutstandingData), d.outstandingData.items.length = n →
      d.outstandingData.base ≤ cumulativeTsnAck → cumulativeTsnAck ≤ d.outstandingData.highest →
      info.highestTsnAcked ≤ d.outstandingData.highest →
      Acknowledged cumulativeTsnAck d (removeAckedLoop cumulativeTsnAck n (info, d)) := by
  intro n
  induction n with
  | zero =>
    intro info d hlength hbase hhighest hsent
    refine ⟨ReflTransGen.refl, ?_, rfl, hsent⟩
    rw [Window.highest] at hhighest
    change d.outstandingData.base = cumulativeTsnAck
    omega
  | succ n ih =>
    intro info d hlength hbase hhighest hsent
    obtain ⟨item, rest, hitems⟩ := exists_cons_of_length_eq_add_one hlength
    simp only [removeAckedLoop, hitems]
    split_ifs with hlt
    · -- the front item is acknowledged, then popped
      have held : d.outstandingData.get? (d.lastCumulativeTsnAck + 1) = some item :=
        get?_first hitems
      generalize hd : d.ackChunk info (d.lastCumulativeTsnAck + 1) item = acked
      have hbase' : acked.2.outstandingData.base = d.outstandingData.base := by
        rw [← hd, base_ackChunk]
      have hhighest' : acked.2.outstandingData.highest = d.outstandingData.highest := by
        rw [← hd, highest_ackChunk]
      have hlength' : acked.2.outstandingData.items.length = n + 1 := by
        rw [← hd, outstandingData_ackChunk, ← hlength]
        split_ifs
        · rfl
        · exact length_modify ..
      obtain ⟨item', rest', hitems'⟩ := exists_cons_of_length_eq_add_one hlength'
      have hnonempty : acked.2.outstandingData.items ≠ [] := by
        rw [hitems']
        exact cons_ne_nil _ _
      have hacked : item'.isAcked = true := by
        obtain ⟨front, hget, hfront⟩ := get?_ackChunk_self info held
        rw [hd] at hget
        have h := get?_first hitems'
        rw [hbase'] at h
        exact Option.some.inj (hget.symm.trans h) ▸ hfront
      have hsteps : ReflTransGen AckStep d acked.2.popFront := by
        have hack := hd ▸ AckStep.ack info held
        exact (ReflTransGen.single hack).tail (AckStep.pop hitems' hacked)
      have hpop : acked.2.popFront.outstandingData.highest = acked.2.outstandingData.highest := by
        have hpos := length_pos_of_ne_nil hnonempty
        simp only [Window.highest, popFront, length_tail]
        omega
      have hsent' : (noteLifecycle acked.1 item).highestTsnAcked ≤ d.outstandingData.highest := by
        rw [highestTsnAcked_noteLifecycle, ← hd]
        have hfirst := (bounds_of_get? held).2
        rcases highestTsnAcked_ackChunk d info (d.lastCumulativeTsnAck + 1) item with h | h <;>
          rw [h]
        · exact hsent
        · exact max_le hsent hfirst
      have hrest := ih (noteLifecycle acked.1 item) acked.2.popFront
        (by rw [popFront, length_tail, hlength']; rfl)
        (by rw [base_popFront, hbase']; exact hlt)
        (by rw [hpop, hhighest']; exact hhighest)
        (by rw [hpop, hhighest']; exact hsent')
      refine ⟨hsteps.trans hrest.steps, hrest.base, ?_, ?_⟩
      · rw [hrest.highest, hpop, hhighest']
      · exact hrest.sent.trans (by rw [hpop, hhighest'])
    · refine ⟨ReflTransGen.refl, ?_, rfl, hsent⟩
      exact le_antisymm hbase (not_lt.mp hlt)

theorem ackRange_spec :
    ∀ (n : Nat) (tsn : Int) (s : AckInfo × OutstandingData), Acknowledged cumulativeTsnAck d s →
      Acknowledged cumulativeTsnAck d (ackRange n tsn s) := by
  intro n
  induction n with
  | zero => exact fun _ _ h => h
  | succ n ih =>
    rintro tsn ⟨info, current⟩ h
    rw [ackRange]
    split
    case h_1 item held =>
      apply ih
      refine ⟨h.steps.tail (AckStep.ack info held), ?_, ?_, ?_⟩
      · rw [base_ackChunk]
        exact h.base
      · rw [highest_ackChunk]
        exact h.highest
      · have hbound := (bounds_of_get? held).2
        rw [h.highest] at hbound
        rcases highestTsnAcked_ackChunk current info tsn item with hh | hh <;> rw [hh]
        · exact h.sent
        · exact max_le h.sent hbound
    case h_2 =>
      exact ih _ _ h

theorem acknowledge_spec (blocks : List GapAckBlock)
    (lower : d.outstandingData.base ≤ cumulativeTsnAck)
    (upper : cumulativeTsnAck ≤ d.outstandingData.highest) :
    Acknowledged cumulativeTsnAck d (d.acknowledge cumulativeTsnAck blocks) := by
  have h := removeAckedLoop_spec cumulativeTsnAck _ { highestTsnAcked := cumulativeTsnAck } d rfl
    lower upper upper
  have hremoved : Acknowledged cumulativeTsnAck d
      (d.removeAcked cumulativeTsnAck { highestTsnAcked := cumulativeTsnAck }) :=
    ⟨h.steps.tail (AckStep.breakpoints _), h.base, h.highest, h.sent⟩
  rw [acknowledge]
  generalize d.removeAcked cumulativeTsnAck _ = s at hremoved
  induction blocks generalizing s with
  | nil => exact hremoved
  | cons block rest ih => exact ih _ (ackRange_spec _ _ s hremoved)

end Acknowledging

section Loops

/-! What every step of a loop preserves, the loop does. -/

variable {d : OutstandingData}

theorem abandonLoop_preserves {streamId : StreamID} {messageId : OutgoingMessageId}
    (step : ∀ d tsn other, d.outstandingData.get? tsn = some other →
      other.messageId = messageId → motive d → motive (d.abandonItem tsn other))
    (n : Nat) (tsn : Int) (h : motive d) :
    motive (abandonLoop streamId messageId n tsn d) := by
  fun_induction abandonLoop streamId messageId n tsn d with
  | case1 => exact h
  | case2 => exact h
  | case3 n tsn d other held same ih =>
    simp only [Bool.and_eq_true, decide_eq_true_eq] at same
    exact ih (step d tsn other held same.2 h)
  | case4 n tsn d other held _ ih => exact ih h

theorem extractLoop_preserves {queue : Queue}
    (fault : ∀ d, motive d → motive { d with faulted := true })
    (step : ∀ d tsn item, d.outstandingData.get? tsn = some item → motive d →
      motive (d.retransmit queue tsn item))
    (tsns : List Int) (maxSize : Nat) (h : motive d) :
    motive (extractLoop queue tsns maxSize d).2 := by
  fun_induction extractLoop queue tsns maxSize d with
  | case1 => exact h
  | case2 => exact fault _ h
  | case3 tsn rest maxSize d item held => exact step d tsn item held h
  | case4 tsn rest maxSize d item held _ _ _ _ ih => exact ih (step d tsn item held h)
  | case5 => exact h
  | case6 tsn rest maxSize d item held _ _ _ ih => exact ih h

variable {σ : Type} (discard : σ → StreamID → OutgoingMessageId → Bool × σ)

variable {s : OutstandingData × σ}

theorem abandonAllFor_preserves {item : Item}
    (push : motive s.1 → motive (s.1.pushItem (messageEnd item)))
    (step : ∀ d tsn other, d.outstandingData.get? tsn = some other →
      other.messageId = item.messageId → motive d → motive (d.abandonItem tsn other))
    (h : motive s.1) : motive (abandonAllFor discard item s).1 := by
  refine abandonLoop_preserves step _ _ ?_
  split_ifs
  · exact push h
  · exact h

variable {motive : OutstandingData × σ → Prop}

theorem nackRange_preserves {doFast : Bool} :
    ∀ (n : Nat) (tsn : Int) (loss : Bool) (s : OutstandingData × σ),
      (∀ t s, tsn ≤ t → t < tsn + n → motive s → motive (nackItem discard t false doFast s).2) →
      motive s → motive (nackRange discard doFast n tsn (loss, s)).2 := by
  intro n
  induction n with
  | zero => exact fun _ _ _ _ h => h
  | succ n ih =>
    intro tsn loss s step hs
    refine ih (tsn + 1) _ _ (fun t s' hlower hupper => step t s' (by omega) (by omega)) ?_
    exact step tsn s le_rfl (by omega) hs

theorem handleSack_preserves {isInFastRecovery : Bool}
    (step : ∀ t s, motive s → motive (nackItem discard t false (!isInFastRecovery) s).2)
    (cumulativeTsnAck : Int) (blocks : List GapAckBlock)
    (h : motive ((s.1.acknowledge cumulativeTsnAck blocks).2, s.2)) :
    motive (handleSack discard cumulativeTsnAck blocks isInFastRecovery s).2 := by
  have hloop : ∀ (maxTsnToNack : Int) (blocks : List GapAckBlock) (prev : Int)
      (s : Bool × OutstandingData × σ), motive s.2 → motive (nackBetweenLoop discard
        cumulativeTsnAck maxTsnToNack (!isInFastRecovery) blocks prev s).2 := by
    intro maxTsnToNack blocks
    induction blocks with
    | nil => exact fun _ _ h => h
    | cons block rest ih =>
      exact fun prev s h => ih _ _ (nackRange_preserves discard _ _ _ _ (fun t s _ _ => step t s) h)
  exact hloop _ _ _ _ h

theorem nackEach_preserves (step : ∀ t s, motive s → motive (nackItem discard t true false s).2)
    (tsns : List Int) (h : motive s) :
    motive (nackEach discard tsns s) := by
  induction tsns generalizing s with
  | nil => exact h
  | cons tsn rest ih => exact ih (step tsn s h)

theorem expireLoop_preserves {now : Timestamp}
    (step : ∀ s tsn item, s.1.outstandingData.get? tsn = some item → item.isNacked = true →
      item.hasExpired now = true → motive s → motive (abandonAllFor discard item s))
    (n : Nat) (tsn : Int) (h : motive s) :
    motive (expireLoop discard now n tsn s) := by
  fun_induction expireLoop discard now n tsn s with
  | case1 => exact h
  | case2 => exact h
  | case3 n tsn s item held _ ih => exact ih h
  | case4 n tsn s item held _ expired ih =>
    rw [Bool.and_eq_true] at expired
    exact ih (step s tsn item held expired.1 expired.2 h)
  | case5 => exact h

end Loops

section Frame

/-- The parts of an item that are fixed when the chunk is inserted. -/
structure SameChunk (a b : Item) : Prop where
  messageId : b.messageId = a.messageId
  data : b.data = a.data
  maxRetransmissions : b.maxRetransmissions = a.maxRetransmissions
  expiresAt : b.expiresAt = a.expiresAt

theorem SameChunk.refl (a : Item) : SameChunk a a := ⟨rfl, rfl, rfl, rfl⟩

theorem SameChunk.trans {a b c : Item} (hab : SameChunk a b) (hbc : SameChunk b c) :
    SameChunk a c where
  messageId := hbc.messageId.trans hab.messageId
  data := hbc.data.trans hab.data
  maxRetransmissions := hbc.maxRetransmissions.trans hab.maxRetransmissions
  expiresAt := hbc.expiresAt.trans hab.expiresAt

theorem sameChunk_nack (item : Item) (retransmitNow : Bool) :
    SameChunk item (item.nack retransmitNow).1 := by
  unfold Item.nack
  dsimp only
  split_ifs <;> exact ⟨rfl, rfl, rfl, rfl⟩

/-- A window that holds the chunks of another under the same TSNs, and perhaps more. -/
structure Extends (w w' : Window Item) : Prop where
  base : w'.base = w.base
  highest : w.highest ≤ w'.highest
  held : ∀ {tsn : Int} {item : Item}, w.get? tsn = some item →
    ∃ item', w'.get? tsn = some item' ∧ SameChunk item item'

theorem Extends.refl (w : Window Item) : Extends w w :=
  ⟨rfl, le_rfl, fun {_ item} h => ⟨item, h, SameChunk.refl item⟩⟩

theorem Extends.trans {u v w : Window Item} (huv : Extends u v) (hvw : Extends v w) :
    Extends u w where
  base := hvw.base.trans huv.base
  highest := huv.highest.trans hvw.highest
  held := by
    intro tsn item h
    obtain ⟨item', h', hsame'⟩ := huv.held h
    obtain ⟨item'', h'', hsame''⟩ := hvw.held h'
    exact ⟨item'', h'', hsame'.trans hsame''⟩

theorem Extends.modify (w : Window Item) (tsn : Int) {f : Item → Item}
    (same : ∀ item, SameChunk item (f item)) : Extends w (w.modify tsn f) where
  base := base_modify ..
  highest := (highest_modify ..).ge
  held := by
    intro t item h
    rw [get?_modify]
    split_ifs
    · exact ⟨f item, by rw [h, Option.map_some], same item⟩
    · exact ⟨item, h, SameChunk.refl item⟩

theorem Extends.push (w : Window Item) (new : Item) : Extends w (w.push new) where
  base := rfl
  highest := by
    rw [highest_push]
    exact (Int.lt_succ _).le
  held := by
    intro t item h
    refine ⟨item, ?_, SameChunk.refl item⟩
    have hbound := (bounds_of_get? h).2
    rw [get?_push, if_neg (by omega), h]

theorem extends_retransmit (queue : Queue) (d : OutstandingData) (tsn : Int) (item : Item) :
    Extends d.outstandingData (d.retransmit queue tsn item).outstandingData := by
  rw [outstandingData_retransmit]
  exact Extends.modify _ _ fun _ => ⟨rfl, rfl, rfl, rfl⟩

variable {σ : Type} (discard : σ → StreamID → OutgoingMessageId → Bool × σ)

theorem extends_abandonAllFor (item : Item) (s : OutstandingData × σ) :
    Extends s.1.outstandingData (abandonAllFor discard item s).1.outstandingData :=
  abandonAllFor_preserves discard
    (motive := fun d => Extends s.1.outstandingData d.outstandingData)
    (fun h => h.trans (Extends.push _ _))
    (fun d tsn other _ _ h => h.trans (by
      rw [outstandingData_abandonItem]
      exact Extends.modify _ _ fun _ => ⟨rfl, rfl, rfl, rfl⟩)) (Extends.refl _)

theorem extends_nackItem (tsn : Int) (retransmitNow doFast : Bool) (s : OutstandingData × σ) :
    Extends s.1.outstandingData
      (nackItem discard tsn retransmitNow doFast s).2.1.outstandingData := by
  have hmodify : Extends s.1.outstandingData
      (s.1.outstandingData.modify tsn fun item => (item.nack retransmitNow).1) :=
    Extends.modify _ _ fun item => sameChunk_nack item retransmitNow
  unfold nackItem
  split
  · exact Extends.refl _
  · split
    · simpa using hmodify
    · simpa using hmodify
    · refine Extends.trans ?_ (extends_abandonAllFor discard _ _)
      simpa using hmodify

theorem extends_handleSack (cumulativeTsnAck : Int) (blocks : List GapAckBlock)
    (isInFastRecovery : Bool) (s : OutstandingData × σ) :
    Extends (s.1.acknowledge cumulativeTsnAck blocks).2.outstandingData
      (handleSack discard cumulativeTsnAck blocks isInFastRecovery s).2.1.outstandingData :=
  handleSack_preserves discard
    (motive := fun s' => Extends (s.1.acknowledge cumulativeTsnAck blocks).2.outstandingData
      s'.1.outstandingData)
    (fun t s' h => h.trans (extends_nackItem discard t false _ s')) _ _ (Extends.refl _)

theorem extends_expireLoop (now : Timestamp) (n : Nat) (tsn : Int) (s : OutstandingData × σ) :
    Extends s.1.outstandingData (expireLoop discard now n tsn s).1.outstandingData :=
  expireLoop_preserves discard
    (motive := fun s' => Extends s.1.outstandingData s'.1.outstandingData)
    (fun s' _ item _ _ _ h => h.trans (extends_abandonAllFor discard item s')) n tsn (Extends.refl _)

theorem extends_nackEach (tsns : List Int) (s : OutstandingData × σ) :
    Extends s.1.outstandingData (nackEach discard tsns s).1.outstandingData :=
  nackEach_preserves discard
    (motive := fun s' => Extends s.1.outstandingData s'.1.outstandingData)
    (fun t s' h => h.trans (extends_nackItem discard t true false s')) tsns (Extends.refl _)

theorem insertChunk_of_alive (messageId : OutgoingMessageId) (data : Data) {timeSent : Timestamp}
    (maxRetransmissions : MaxRetransmits) {expiresAt : Timestamp} (lifecycleId : LifecycleId)
    (alive : ¬ expiresAt ≤ timeSent) (s : OutstandingData × σ) :
    insertChunk discard messageId data timeSent maxRetransmissions expiresAt lifecycleId s =
      (some s.1.nextTsn, (s.1.addUnacked data).pushItem
        { messageId, data, timeSent, maxRetransmissions, expiresAt, lifecycleId }, s.2) := by
  have hexpired : ({ messageId, data, timeSent, maxRetransmissions, expiresAt, lifecycleId } :
      Item).hasExpired timeSent = false := decide_eq_false alive
  simp only [insertChunk, hexpired, Bool.false_eq_true, if_false]

theorem extends_insertChunk (messageId : OutgoingMessageId) (data : Data) (timeSent : Timestamp)
    (maxRetransmissions : MaxRetransmits) (expiresAt : Timestamp) (lifecycleId : LifecycleId)
    (s : OutstandingData × σ) :
    Extends s.1.outstandingData (insertChunk discard messageId data timeSent maxRetransmissions
      expiresAt lifecycleId s).2.1.outstandingData := by
  unfold insertChunk
  dsimp only
  split_ifs
  · refine Extends.trans ?_ (extends_abandonAllFor discard _ _)
    exact Extends.push _ _
  · exact Extends.push _ _

theorem extends_extractLoop (queue : Queue) (tsns : List Int) (maxSize : Nat)
    (d : OutstandingData) :
    Extends d.outstandingData (extractLoop queue tsns maxSize d).2.outstandingData :=
  extractLoop_preserves (motive := fun d' => Extends d.outstandingData d'.outstandingData)
    (fun _ h => h) (fun d' tsn item _ h => h.trans (extends_retransmit queue d' tsn item))
    tsns maxSize (Extends.refl _)

end Frame

section Losing

variable {σ : Type} (discard : σ → StreamID → OutgoingMessageId → Bool × σ)

theorem nackRange_steps (doFast : Bool) :
    ∀ (n : Nat) (tsn : Int) (loss : Bool) (s : OutstandingData × σ),
      s.1.outstandingData.base < tsn → tsn + n ≤ s.1.outstandingData.highest + 1 →
      ReflTransGen (LossStep discard) s (nackRange discard doFast n tsn (loss, s)).2 := by
  intro n
  induction n with
  | zero => exact fun _ _ s _ _ => ReflTransGen.refl
  | succ n ih =>
    intro tsn loss s hlower hupper
    obtain ⟨item, held⟩ := exists_get? hlower (by omega)
    have hbase := (extends_nackItem discard tsn false doFast s).base
    have hhighest := (extends_nackItem discard tsn false doFast s).highest
    exact ReflTransGen.head (LossStep.nack false doFast held)
      (ih (tsn + 1) _ (nackItem discard tsn false doFast s).2 (by omega) (by omega))

theorem nackBetweenLoop_steps (cumulativeTsnAck maxTsnToNack : Int) (doFast : Bool) :
    ∀ (blocks : List GapAckBlock) (prev : Int) (loss : Bool) (s : OutstandingData × σ),
      s.1.outstandingData.base = cumulativeTsnAck → cumulativeTsnAck ≤ prev →
      maxTsnToNack ≤ s.1.outstandingData.highest → ReflTransGen (LossStep discard) s
        (nackBetweenLoop discard cumulativeTsnAck maxTsnToNack doFast blocks prev (loss, s)).2 := by
  intro blocks
  induction blocks with
  | nil => exact fun _ _ s _ _ _ => ReflTransGen.refl
  | cons block rest ih =>
    intro prev loss s hbase hprev hmax
    rw [nackBetweenLoop]
    generalize hcount :
      (min (cumulativeTsnAck + block.start.toNat - 1) maxTsnToNack - prev).toNat = count
    have hext := nackRange_preserves discard
      (motive := fun s' => Extends s.1.outstandingData s'.1.outstandingData) count (prev + 1) loss s
      (fun t s' _ _ h => h.trans (extends_nackItem discard t false doFast s')) (Extends.refl _)
    -- an empty range says nothing about `prev`, a nonempty one ends at a chunk that is held
    have hrange : ReflTransGen (LossStep discard) s
        (nackRange discard doFast count (prev + 1) (loss, s)).2 := by
      cases count with
      | zero => exact ReflTransGen.refl
      | succ n => exact nackRange_steps discard doFast (n + 1) (prev + 1) loss s (by omega) (by omega)
    exact hrange.trans (ih (cumulativeTsnAck + block.last.toNat) _
      (nackRange discard doFast count (prev + 1) (loss, s)).2
      (hext.base.trans hbase) (by omega) (hmax.trans hext.highest))

variable {cumulativeTsnAck : Int}

/-- The branch of `NackBetweenAckBlocks` for fast recovery is dead. -/
theorem maxTsnToNack_acknowledge {d : OutstandingData}
    (blocks : List GapAckBlock) (isInFastRecovery : Bool)
    (lower : d.outstandingData.base ≤ cumulativeTsnAck)
    (upper : cumulativeTsnAck ≤ d.outstandingData.highest) :
    (d.acknowledge cumulativeTsnAck blocks).2.maxTsnToNack cumulativeTsnAck blocks
        isInFastRecovery (d.acknowledge cumulativeTsnAck blocks).1 =
      (d.acknowledge cumulativeTsnAck blocks).1.highestTsnAcked := by
  have hdead : ¬ (d.acknowledge cumulativeTsnAck blocks).2.lastCumulativeTsnAck <
      cumulativeTsnAck := by
    rw [lastCumulativeTsnAck, (acknowledge_spec blocks lower upper).base]
    exact lt_irrefl _
  simp only [maxTsnToNack, hdead, decide_false, Bool.and_false, Bool.false_eq_true, if_false]

theorem handleSack_steps {s : OutstandingData × σ}
    (blocks : List GapAckBlock) (isInFastRecovery : Bool)
    (lower : s.1.outstandingData.base ≤ cumulativeTsnAck)
    (upper : cumulativeTsnAck ≤ s.1.outstandingData.highest) :
    ReflTransGen (LossStep discard) ((s.1.acknowledge cumulativeTsnAck blocks).2, s.2)
      (handleSack discard cumulativeTsnAck blocks isInFastRecovery s).2 := by
  have hack := acknowledge_spec blocks lower upper
  refine nackBetweenLoop_steps discard _ _ _ _ _ _ (_, s.2) hack.base le_rfl ?_
  rw [maxTsnToNack_acknowledge blocks isInFastRecovery lower upper, hack.highest]
  exact hack.sent

theorem expireLoop_steps (now : Timestamp) (n : Nat) (tsn : Int) (s : OutstandingData × σ) :
    ReflTransGen (LossStep discard) s (expireLoop discard now n tsn s) :=
  expireLoop_preserves discard (motive := ReflTransGen (LossStep discard) s)
    (fun _ _ _ held nacked expired h => h.tail (LossStep.expire now held nacked expired)) n tsn
    ReflTransGen.refl

theorem nackEach_steps : ∀ (tsns : List Int) (s : OutstandingData × σ),
      (∀ tsn ∈ tsns, ∃ item, s.1.outstandingData.get? tsn = some item) →
      ReflTransGen (LossStep discard) s (nackEach discard tsns s) := by
  intro tsns
  induction tsns with
  | nil => exact fun _ _ => ReflTransGen.refl
  | cons tsn rest ih =>
    intro s hheld
    obtain ⟨item, held⟩ := hheld tsn mem_cons_self
    refine ReflTransGen.head (LossStep.nack true false held) (ih _ ?_)
    intro t ht
    obtain ⟨item', held'⟩ := hheld t (mem_cons_of_mem tsn ht)
    obtain ⟨item'', held'', -⟩ := (extends_nackItem discard tsn true false s).held held'
    exact ⟨item'', held''⟩

theorem nackAll_steps (s : OutstandingData × σ) :
    ReflTransGen (LossStep discard) s (nackAll discard s) := by
  apply nackEach_steps
  intro tsn htsn
  obtain ⟨⟨item, i⟩, hmem, rfl⟩ := List.mem_map.mp htsn
  have hget := List.mem_zipIdx_iff_getElem?.mp (List.mem_of_mem_filter hmem)
  have hlt := (List.getElem?_eq_some_iff.mp hget).1
  apply exists_get?
  · simp only [lastCumulativeTsnAck]
    omega
  · simp only [Window.highest, lastCumulativeTsnAck]
    omega

end Losing

section Retransmitting

variable (queue : Queue)

theorem extractLoop_steps : ∀ (tsns : List Int) (maxSize : Nat) (d : OutstandingData), tsns.Nodup →
      (∀ tsn ∈ tsns, tsn ∈ d.chunksIn queue ∧ ∃ item, d.outstandingData.get? tsn = some item) →
      ReflTransGen (RetransmitStep queue) d (extractLoop queue tsns maxSize d).2 ∧
      ∀ chunk ∈ (extractLoop queue tsns maxSize d).1,
        ∃ item, d.outstandingData.get? chunk.1 = some item ∧ item.data = chunk.2 := by
  intro tsns
  induction tsns with
  | nil => exact fun _ _ _ _ => ⟨ReflTransGen.refl, fun _ h => absurd h not_mem_nil⟩
  | cons tsn rest ih =>
    intro maxSize d hnodup hwaiting
    obtain ⟨hfresh, hnodup'⟩ := nodup_cons.mp hnodup
    obtain ⟨hin, item, held⟩ := hwaiting tsn mem_cons_self
    have hstep : RetransmitStep queue d (d.retransmit queue tsn item) := .retransmit held hin
    have hwaiting' : ∀ t ∈ rest, t ∈ (d.retransmit queue tsn item).chunksIn queue ∧
        ∃ item', (d.retransmit queue tsn item).outstandingData.get? t = some item' := by
      intro t ht
      obtain ⟨ht', item', held'⟩ := hwaiting t (mem_cons_of_mem tsn ht)
      obtain ⟨item'', held'', -⟩ := (extends_retransmit queue d tsn item).held held'
      refine ⟨?_, item'', held''⟩
      cases queue <;> exact Finset.mem_erase.mpr ⟨fun heq => hfresh (heq ▸ ht), ht'⟩
    simp only [extractLoop, held]
    split_ifs
    · refine ⟨ReflTransGen.single hstep, ?_⟩
      exact forall_mem_singleton.mpr ⟨item, held, rfl⟩
    · obtain ⟨hsteps, hchunks⟩ := ih (maxSize - d.getSerializedChunkSize item.data)
        (d.retransmit queue tsn item) hnodup' hwaiting'
      refine ⟨ReflTransGen.head hstep hsteps, ?_⟩
      intro chunk hchunk
      rcases mem_cons.mp hchunk with rfl | hchunk
      · exact ⟨item, held, rfl⟩
      · -- marking a chunk as sent again does not change what it carries
        obtain ⟨item', held', hdata⟩ := hchunks chunk hchunk
        rw [outstandingData_retransmit, get?_modify] at held'
        split_ifs at held'
        · obtain ⟨item'', held'', rfl⟩ := Option.map_eq_some_iff.mp held'
          exact ⟨item'', held'', hdata⟩
        · exact ⟨item', held', hdata⟩
    · exact ⟨ReflTransGen.refl, fun _ h => absurd h not_mem_nil⟩
    · exact ih maxSize d hnodup' fun t ht => hwaiting t (mem_cons_of_mem tsn ht)

theorem extractChunksThatCanFit_steps {d : OutstandingData} (maxSize : Nat)
    (held : ∀ tsn ∈ d.chunksIn queue, ∃ item, d.outstandingData.get? tsn = some item) :
    ReflTransGen (RetransmitStep queue) d (d.extractChunksThatCanFit queue maxSize).2 ∧
    ∀ chunk ∈ (d.extractChunksThatCanFit queue maxSize).1,
      ∃ item, d.outstandingData.get? chunk.1 = some item ∧ item.data = chunk.2 := by
  refine extractLoop_steps queue _ maxSize d (Finset.sort_nodup ..) ?_
  intro tsn htsn
  have hin := (Finset.mem_sort ..).mp htsn
  exact ⟨hin, held tsn hin⟩

end Retransmitting

end OutstandingData

end Dcsctp
