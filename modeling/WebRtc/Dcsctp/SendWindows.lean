import WebRtc.Dcsctp.RRSendQueue

/-!
# What a packet takes from the windows

`RetransmissionQueue::GetChunksToSend` computes one budget from the congestion window, the receive
window of the peer and the room in the packet, for chunks that are sent again and chunks that the
send queue produces. What a call does to the windows is a sum over the rounds of its loop.
-/

namespace Dcsctp

open Units OutstandingData List

theorem le_roundUpTo4 (val : Nat) : val ≤ roundUpTo4 val := by
  unfold roundUpTo4
  omega

theorem dvd_roundUpTo4 (val : Nat) : 4 ∣ roundUpTo4 val := Nat.dvd_mul_left ..

theorem roundDownTo4_le (val : Nat) : roundDownTo4 val ≤ val := Nat.div_mul_le_self val 4

/-- The contract of `SendQueue::Produce`: the chunk has at most the size that was asked for. -/
def SendQueue.Bounded {σ : Type} (sendQueue : SendQueue σ) : Prop :=
  ∀ queue now maxSize chunk,
    (sendQueue.produce queue now maxSize).1 = some chunk → chunk.data.size ≤ maxSize

namespace RRSendQueue

variable {chunk : DataToSend}

theorem size_streamProduceLoop (now : Timestamp) (maxSize : Nat) :
    ∀ (items : List QueuedMessage) (s : OutgoingStream × Nat),
      (OutgoingStream.produceLoop now maxSize items s).1 = some chunk →
        chunk.data.size ≤ maxSize := by
  intro items
  induction items with
  | nil => exact nofun
  | cons item rest ih =>
    intro s h
    rw [OutgoingStream.produceLoop] at h
    split at h
    · exact ih _ h
    · obtain rfl := Option.some.inj h
      exact length_take_le ..

theorem size_produceLoop (rescheduling : Bool) (now : Timestamp) (maxSize : Nat) :
    ∀ (rounds : Nat) (q : RRSendQueue),
      (produceLoop rescheduling now maxSize rounds q).1 = some chunk →
        chunk.data.size ≤ maxSize := by
  intro rounds
  induction rounds with
  | zero => exact nofun
  | succ rounds ih =>
    intro q h
    rw [produceLoop] at h
    split at h
    · exact nomatch h
    · dsimp only at h
      split at h
      · exact nomatch h
      · split at h
        · case h_1 produced =>
          obtain rfl := Option.some.inj h
          exact size_streamProduceLoop now maxSize _ _ produced
        · exact ih _ h

theorem bounded_sendQueue : SendQueue.Bounded sendQueue := by
  intro q now maxSize chunk h
  change (q.produce now maxSize).1 = some chunk at h
  rw [produce] at h
  split at h
  · exact nomatch h
  · case h_2 produced =>
    obtain rfl := Option.some.inj h
    exact size_produceLoop _ now maxSize _ q produced

end RRSendQueue

namespace OutstandingData

/-- Two states with the same chunks in flight, as far as the packet counter says. -/
structure SameFlight (d d' : OutstandingData) : Prop where
  packetBytes : d'.unackedPacketBytes = d.unackedPacketBytes
  header : d'.dataChunkHeaderSize = d.dataChunkHeaderSize

theorem SameFlight.trans {a b c : OutstandingData} (hab : SameFlight a b) (hbc : SameFlight b c) :
    SameFlight a c :=
  ⟨hbc.packetBytes.trans hab.packetBytes, hbc.header.trans hab.header⟩

theorem sameFlight_eraseFrom (d : OutstandingData) (tsn : Int) (queue : Queue) :
    SameFlight d (d.eraseFrom tsn queue) := by
  cases queue <;> exact ⟨rfl, rfl⟩

theorem sameFlight_abandonItem (d : OutstandingData) (tsn : Int) (other : Item) :
    SameFlight d (d.abandonItem tsn other) := by
  unfold abandonItem
  split_ifs
  · have hfast := sameFlight_eraseFrom d tsn .fast
    have htimer := sameFlight_eraseFrom (d.eraseFrom tsn .fast) tsn .timer
    exact (hfast.trans htimer).trans ⟨rfl, rfl⟩
  · exact ⟨rfl, rfl⟩

/-- Every chunk that `Insert` is given counts as in flight, also one that has expired. -/
theorem packetBytes_insertChunk {σ : Type}
    (discard : σ → StreamID → OutgoingMessageId → Bool × σ) (messageId : OutgoingMessageId)
    (data : Data) (timeSent : Timestamp) (maxRetransmissions : MaxRetransmits)
    (expiresAt : Timestamp) (lifecycleId : LifecycleId) (s : OutstandingData × σ) :
    SameFlight (s.1.addUnacked data)
      (insertChunk discard messageId data timeSent maxRetransmissions expiresAt lifecycleId
        s).2.1 := by
  unfold insertChunk
  dsimp only
  split_ifs
  · exact abandonAllFor_preserves discard (motive := SameFlight (s.1.addUnacked data))
      (fun h => ⟨h.packetBytes, h.header⟩)
      (fun d tsn other _ _ h => h.trans (sameFlight_abandonItem d tsn other)) ⟨rfl, rfl⟩
  · exact ⟨rfl, rfl⟩

theorem packetBytes_retransmit (d : OutstandingData) (queue : Queue) (tsn : Int) (item : Item) :
    SameFlight (d.addUnacked item.data) (d.retransmit queue tsn item) := by
  cases queue <;> exact ⟨rfl, rfl⟩

def serializedSize (d : OutstandingData) (chunks : List (Int × Data)) : Nat :=
  (chunks.map fun chunk => d.getSerializedChunkSize chunk.2).sum

theorem serializedSize_congr {d d' : OutstandingData}
    (header : d'.dataChunkHeaderSize = d.dataChunkHeaderSize) (chunks : List (Int × Data)) :
    d'.serializedSize chunks = d.serializedSize chunks := by
  simp [serializedSize, getSerializedChunkSize, header]

theorem extractLoop_fits (queue : Queue) :
    ∀ (tsns : List Int) (maxSize : Nat) (d : OutstandingData),
      d.serializedSize (extractLoop queue tsns maxSize d).1 ≤ maxSize ∧
      (extractLoop queue tsns maxSize d).2.unackedPacketBytes =
        d.unackedPacketBytes + d.serializedSize (extractLoop queue tsns maxSize d).1 ∧
      (extractLoop queue tsns maxSize d).2.dataChunkHeaderSize = d.dataChunkHeaderSize := by
  intro tsns
  induction tsns with
  | nil => exact fun maxSize d => ⟨Nat.zero_le _, rfl, rfl⟩
  | cons tsn rest ih =>
    intro maxSize d
    rw [extractLoop]
    split
    · exact ⟨Nat.zero_le _, rfl, rfl⟩
    · case h_2 item held =>
      have hsent := packetBytes_retransmit d queue tsn item
      dsimp only
      split_ifs with fits last
      · refine ⟨?_, hsent.packetBytes, hsent.header⟩
        simpa [serializedSize] using fits
      · obtain ⟨hsize, hbytes, hheader⟩ :=
          ih (maxSize - d.getSerializedChunkSize item.data) (d.retransmit queue tsn item)
        have hcongr : ∀ chunks, (d.retransmit queue tsn item).serializedSize chunks =
            d.serializedSize chunks := serializedSize_congr hsent.header
        rw [hcongr] at hsize hbytes
        have hadd : (d.addUnacked item.data).unackedPacketBytes =
            d.unackedPacketBytes + d.getSerializedChunkSize item.data := rfl
        rw [hsent.packetBytes] at hbytes
        simp only [serializedSize, map_cons, sum_cons] at hsize hbytes ⊢
        exact ⟨by omega, by omega, hheader.trans hsent.header⟩
      · exact ⟨Nat.zero_le _, rfl, rfl⟩
      · exact ih maxSize d

end OutstandingData

namespace RetransmissionQueue

section Rounds

variable {σ : Type} (sendQueue : SendQueue σ)

/-- The rounds of `GetChunksToSend`: what is left of the budget, and the chunk produced. -/
def rounds (now : Timestamp) : Nat → Nat → RetransmissionQueue × σ → List (Nat × DataToSend)
  | 0, _, _ => []
  | fuel + 1, maxBytes, s =>
    let headerSize := s.1.outstandingData.dataChunkHeaderSize
    if headerSize < maxBytes then
      let produced := sendQueue.produce s.2 now (maxBytes - headerSize)
      match produced.1 with
      | none => []
      | some chunk =>
        (maxBytes, chunk) :: rounds now fuel
          (maxBytes - s.1.outstandingData.getSerializedChunkSize chunk.data)
          (insertProduced sendQueue now chunk (s.1, produced.2)).2
    else []

def producedBytes (rounds : List (Nat × DataToSend)) : Nat :=
  (rounds.map fun round => round.2.data.size).sum

def producedPacketBytes (d : OutstandingData) (rounds : List (Nat × DataToSend)) : Nat :=
  (rounds.map fun round => d.getSerializedChunkSize round.2.data).sum

theorem insertProduced_windows (now : Timestamp) (chunk : DataToSend)
    (s : RetransmissionQueue × σ) :
    (insertProduced sendQueue now chunk s).2.1.outstandingData.dataChunkHeaderSize =
      s.1.outstandingData.dataChunkHeaderSize ∧
    (insertProduced sendQueue now chunk s).2.1.cwnd = s.1.cwnd ∧
    (insertProduced sendQueue now chunk s).2.1.rwnd =
      (s.1.rwnd + kSizeT - chunk.data.size) % kSizeT ∧
    (insertProduced sendQueue now chunk s).2.1.outstandingData.unackedPacketBytes =
      s.1.outstandingData.unackedPacketBytes +
        s.1.outstandingData.getSerializedChunkSize chunk.data := by
  have hinserted := packetBytes_insertChunk sendQueue.discard chunk.messageId
    chunk.data now
    (if s.1.partialReliability then chunk.maxRetransmissions else MaxRetransmits.noLimit)
    (if s.1.partialReliability then chunk.expiresAt else .plusInfinity) chunk.lifecycleId
    (s.1.outstandingData, s.2)
  obtain ⟨q, queue⟩ := s
  cases q
  exact ⟨hinserted.header, rfl, rfl, hinserted.packetBytes⟩

structure Sent (maxBytes : Nat) (q q' : RetransmissionQueue) (rounds : List (Nat × DataToSend))
    (chunks : List (Int × Data)) : Prop where
  header : q'.outstandingData.dataChunkHeaderSize = q.outstandingData.dataChunkHeaderSize
  cwnd : q'.cwnd = q.cwnd
  exact : ∀ round ∈ rounds, q.outstandingData.getSerializedChunkSize round.2.data ≤ round.1
  total : producedPacketBytes q.outstandingData rounds ≤ maxBytes
  returned : q.outstandingData.serializedSize chunks ≤ producedPacketBytes q.outstandingData rounds
  packetBytes : q'.outstandingData.unackedPacketBytes =
    q.outstandingData.unackedPacketBytes + producedPacketBytes q.outstandingData rounds
  rwnd : maxBytes ≤ kSizeT → q.rwnd < kSizeT →
    (q'.rwnd : Int) = ((q.rwnd : Int) - producedBytes rounds) % kSizeT

theorem Sent.nothing (maxBytes : Nat) (q : RetransmissionQueue) : Sent maxBytes q q [] [] where
  header := rfl
  cwnd := rfl
  exact := nofun
  total := Nat.zero_le _
  returned := Nat.le_refl _
  packetBytes := rfl
  rwnd _ hlt := (Int.emod_eq_of_lt (Int.natCast_nonneg _) (Int.ofNat_lt.mpr hlt)).symm

theorem Sent.round {maxBytes : Nat} {q q' : RetransmissionQueue} {now : Timestamp} {queue : σ}
    {chunk : DataToSend} {rounds : List (Nat × DataToSend)} {chunks : List (Int × Data)}
    (fits : q.outstandingData.getSerializedChunkSize chunk.data ≤ maxBytes)
    (rest : Sent (maxBytes - q.outstandingData.getSerializedChunkSize chunk.data)
      (insertProduced sendQueue now chunk (q, queue)).2.1 q' rounds chunks) :
    Sent maxBytes q q' ((maxBytes, chunk) :: rounds)
      (match (insertProduced sendQueue now chunk (q, queue)).1 with
        | some tsn => (tsn, chunk.data) :: chunks
        | none => chunks) := by
  obtain ⟨hheader, hcwnd, hrwnd, hpacket⟩ :=
    insertProduced_windows sendQueue now chunk (q, queue)
  have hsize : ∀ data,
      (insertProduced sendQueue now chunk (q, queue)).2.1.outstandingData.getSerializedChunkSize data =
        q.outstandingData.getSerializedChunkSize data := by
    intro data
    simp [getSerializedChunkSize, hheader]
  obtain ⟨header, cwnd, exact, total, returned, packetBytes, rwnd⟩ := rest
  simp only [hsize, producedPacketBytes, serializedSize] at exact total returned packetBytes
  constructor
  · exact header.trans hheader
  · exact cwnd.trans hcwnd
  · exact forall_mem_cons.mpr ⟨fits, exact⟩
  · simp only [producedPacketBytes, map_cons, sum_cons]
    omega
  · simp only [producedPacketBytes, map_cons, sum_cons, serializedSize]
    split
    · simp only [map_cons, sum_cons]
      omega
    · omega
  · rw [packetBytes, hpacket]
    simp only [producedPacketBytes, map_cons, sum_cons]
    omega
  · intro hle hlt
    have hsize := le_roundUpTo4 (q.outstandingData.dataChunkHeaderSize + chunk.data.size)
    rw [getSerializedChunkSize] at fits
    have hrest := rwnd ((Nat.sub_le _ _).trans hle) (hrwnd ▸ Nat.mod_lt _ (by decide))
    have hhead : (producedBytes ((maxBytes, chunk) :: rounds) : Int) =
        chunk.data.size + producedBytes rounds := by
      simp [producedBytes]
    rw [hrest, hrwnd, hhead]
    dsimp only
    unfold kSizeT at hle hlt ⊢
    omega

/-- The loop never takes more from the budget than is left of it. -/
theorem sendLoop_sent (bounded : sendQueue.Bounded) (now : Timestamp) :
    ∀ (fuel maxBytes : Nat) (s : RetransmissionQueue × σ), 4 ∣ maxBytes →
      Sent maxBytes s.1 (sendLoop sendQueue now fuel maxBytes s).2.1
        (rounds sendQueue now fuel maxBytes s) (sendLoop sendQueue now fuel maxBytes s).1 := by
  intro fuel
  induction fuel with
  | zero => exact fun maxBytes s _ => Sent.nothing maxBytes s.1
  | succ fuel ih =>
    intro maxBytes s divisible
    rw [sendLoop, rounds]
    dsimp only
    split_ifs with room
    · cases produced :
        (sendQueue.produce s.2 now (maxBytes - s.1.outstandingData.dataChunkHeaderSize)).1 with
      | none => exact Sent.nothing maxBytes s.1
      | some chunk =>
        have hsize := bounded _ _ _ _ produced
        have hfits : s.1.outstandingData.getSerializedChunkSize chunk.data ≤ maxBytes := by
          rw [getSerializedChunkSize, roundUpTo4]
          omega
        have hdivisible : 4 ∣ maxBytes - s.1.outstandingData.getSerializedChunkSize chunk.data :=
          Nat.dvd_sub divisible (dvd_roundUpTo4 _)
        exact Sent.round sendQueue hfits (ih _ _ hdivisible)
    · exact Sent.nothing maxBytes s.1

/-- Every round pays for a header on top of the payload. -/
theorem producedBytes_add_header_le {d : OutstandingData} {rounds : List (Nat × DataToSend)}
    (nonempty : rounds ≠ []) :
    producedBytes rounds + d.dataChunkHeaderSize ≤ producedPacketBytes d rounds := by
  induction rounds with
  | nil => exact absurd rfl nonempty
  | cons round rest ih =>
    have hround := le_roundUpTo4 (d.dataChunkHeaderSize + round.2.data.size)
    simp only [producedBytes, producedPacketBytes, map_cons, sum_cons,
      getSerializedChunkSize] at ih ⊢
    rcases eq_or_ne rest [] with rfl | hrest
    · simp only [map_nil]
      omega
    · have := ih hrest
      omega

end Rounds

section Budget

variable {σ : Type} (sendQueue : SendQueue σ) (q : RetransmissionQueue)

theorem sendBudget_le (n : Nat) :
    q.sendBudget n ≤ n ∧ q.sendBudget n ≤ q.cwnd - q.outstandingData.unackedPacketBytes := by
  have h := roundDownTo4_le (min (min (q.cwnd - q.outstandingData.unackedPacketBytes)
    (if q.outstandingData.unackedItems = 0 then q.options.mtu
      else roundDownTo4 ((q.rwnd + q.outstandingData.dataChunkHeaderSize + 3) % kSizeT))) n)
  exact ⟨h.trans (min_le_right _ _), h.trans ((min_le_left _ _).trans (min_le_left _ _))⟩

theorem bytesRetransmitted_eq (chunks : List (Int × Data))
    (small : q.outstandingData.serializedSize chunks < 2147483648) :
    q.bytesRetransmitted chunks = q.outstandingData.serializedSize chunks := by
  have hfold : ∀ (chunks : List (Int × Data)) (r : Nat),
      r + q.outstandingData.serializedSize chunks < 2147483648 →
        chunks.foldl (fun (r : Int) chunk =>
          (r + q.outstandingData.getSerializedChunkSize chunk.2).bmod 4294967296) r =
        ((r + q.outstandingData.serializedSize chunks : Nat) : Int) := by
    intro chunks
    induction chunks with
    | nil => exact fun r _ => rfl
    | cons chunk rest ih =>
      intro r hr
      have hcons : q.outstandingData.serializedSize (chunk :: rest) =
          q.outstandingData.getSerializedChunkSize chunk.2 +
            q.outstandingData.serializedSize rest := rfl
      rw [hcons] at hr ⊢
      have hstep : ((r : Int) + q.outstandingData.getSerializedChunkSize chunk.2).bmod 4294967296 =
          ((r + q.outstandingData.getSerializedChunkSize chunk.2 : Nat) : Int) := by
        rw [Int.bmod_eq_of_le (by omega) (by omega)]
        omega
      rw [foldl_cons, hstep, ih _ (by omega)]
      omega
  have h := hfold chunks 0 (by omega)
  simpa [bytesRetransmitted] using h

def resent (n : Nat) : List (Int × Data) :=
  (q.retransmitChunks (q.sendBudget n)).1

def roundsOf (now : Timestamp) (n : Nat) (s : RetransmissionQueue × σ) : List (Nat × DataToSend) :=
  let bytesLeft := ((s.1.sendBudget n - s.1.bytesRetransmitted (s.1.resent n)) % kSizeT).toNat
  rounds sendQueue now bytesLeft bytesLeft ((s.1.retransmitChunks (s.1.sendBudget n)).2, s.2)

theorem resent_spec (n : Nat) : q.outstandingData.serializedSize (q.resent n) ≤ q.sendBudget n ∧
    (q.retransmitChunks (q.sendBudget n)).2.outstandingData.unackedPacketBytes =
      q.outstandingData.unackedPacketBytes + q.outstandingData.serializedSize (q.resent n) ∧
    (q.retransmitChunks (q.sendBudget n)).2.outstandingData.dataChunkHeaderSize =
      q.outstandingData.dataChunkHeaderSize :=
  extractLoop_fits .timer _ _ q.outstandingData

theorem dvd_serializedSize (d : OutstandingData) (chunks : List (Int × Data)) :
    4 ∣ d.serializedSize chunks := by
  induction chunks with
  | nil => exact Nat.dvd_zero 4
  | cons chunk rest ih => exact Nat.dvd_add (dvd_roundUpTo4 _) ih

theorem bytesLeft_eq {n : Nat} (small : n < 2147483648) :
    ((q.sendBudget n - q.bytesRetransmitted (q.resent n)) % kSizeT).toNat =
      q.sendBudget n - q.outstandingData.serializedSize (q.resent n) := by
  have hfits := (resent_spec q n).1
  have hbudget := (sendBudget_le q n).1
  rw [bytesRetransmitted_eq q _ (by omega)]
  unfold kSizeT
  omega

theorem getChunksToSend_sent (bounded : sendQueue.Bounded) (now : Timestamp) {n : Nat}
    (small : n < 2147483648) (s : RetransmissionQueue × σ) :
    ∃ new, (getChunksToSend sendQueue now n s).1 = s.1.resent n ++ new ∧
      Sent (s.1.sendBudget n - s.1.outstandingData.serializedSize (s.1.resent n))
        (s.1.retransmitChunks (s.1.sendBudget n)).2
        (getChunksToSend sendQueue now n s).2.1 (roundsOf sendQueue now n s) new := by
  have hleft := bytesLeft_eq s.1 small
  have hdivisible : 4 ∣ s.1.sendBudget n - s.1.outstandingData.serializedSize (s.1.resent n) :=
    Nat.dvd_sub (Nat.dvd_mul_left ..) (dvd_serializedSize ..)
  rw [← hleft] at hdivisible ⊢
  have hloop := sendLoop_sent sendQueue bounded now
    ((s.1.sendBudget n - s.1.bytesRetransmitted (s.1.resent n)) % kSizeT).toNat _
    ((s.1.retransmitChunks (s.1.sendBudget n)).2, s.2) hdivisible
  exact ⟨_, rfl, { hloop with }⟩

/-- What is sent fits into the packet, no subtraction from the budget goes below zero, and the bytes
in flight are at most the congestion window unless they were above it before. -/
theorem packet_within_congestion_window (bounded : sendQueue.Bounded) (now : Timestamp) {n : Nat}
    (small : n < 2147483648) (s : RetransmissionQueue × σ) :
    s.1.outstandingData.serializedSize (getChunksToSend sendQueue now n s).1 ≤ n ∧
    (0 ≤ s.1.bytesRetransmitted (s.1.resent n) ∧
      s.1.bytesRetransmitted (s.1.resent n) ≤ s.1.sendBudget n) ∧
    (∀ round ∈ roundsOf sendQueue now n s,
      s.1.outstandingData.getSerializedChunkSize round.2.data ≤ round.1) ∧
    (getChunksToSend sendQueue now n s).2.1.outstandingData.unackedPacketBytes ≤
      max s.1.outstandingData.unackedPacketBytes (getChunksToSend sendQueue now n s).2.1.cwnd := by
  obtain ⟨hfits, hbytes, hheader⟩ := resent_spec s.1 n
  obtain ⟨hroom, hwindow⟩ := sendBudget_le s.1 n
  obtain ⟨new, hnew, hsent⟩ := getChunksToSend_sent sendQueue bounded now small s
  have hretransmitted := bytesRetransmitted_eq s.1 (s.1.resent n) (by omega)
  have hsize : ∀ data,
      (s.1.retransmitChunks (s.1.sendBudget n)).2.outstandingData.getSerializedChunkSize data =
        s.1.outstandingData.getSerializedChunkSize data := by
    intro data
    simp [getSerializedChunkSize, hheader]
  have hreturned := hsent.returned
  have htotal := hsent.total
  refine ⟨?_, ⟨by omega, by omega⟩, fun round hround => ?_, ?_⟩
  · rw [serializedSize_congr hheader] at hreturned
    have happend : s.1.outstandingData.serializedSize (s.1.resent n ++ new) =
        s.1.outstandingData.serializedSize (s.1.resent n) +
          s.1.outstandingData.serializedSize new := by
      simp [serializedSize]
    rw [hnew]
    omega
  · rw [← hsize]
    exact hsent.exact round hround
  · have hcwnd : (getChunksToSend sendQueue now n s).2.1.cwnd = s.1.cwnd := hsent.cwnd
    rw [hsent.packetBytes, hcwnd, le_max_iff]
    omega

/-- A sender with a message of one byte, and a peer with so large a receive window. -/
def withOneByte (aRwnd : Nat) : RetransmissionQueue × RRSendQueue :=
  (initial {} false 1 aRwnd, (RRSendQueue.initial 1191 256).add (.finite 0) ⟨1, 53, [1]⟩ {})

theorem packet_within_congestion_window_withOneByte :
    (withOneByte 100).1.outstandingData.serializedSize
      (getChunksToSend RRSendQueue.sendQueue (.finite 0) 1000 (withOneByte 100)).1 ≤ 1000 :=
  (packet_within_congestion_window RRSendQueue.sendQueue RRSendQueue.bounded_sendQueue (.finite 0)
    (by decide) (withOneByte 100)).1

end Budget

section Loop

variable {σ : Type} (sendQueue : SendQueue σ) {now : Timestamp} {q : RetransmissionQueue}

theorem sendLoop_full {maxBytes : Nat} (full : maxBytes ≤ q.outstandingData.dataChunkHeaderSize)
    (fuel : Nat) (queue : σ) : sendLoop sendQueue now fuel maxBytes (q, queue) = ([], q, queue) := by
  cases fuel with
  | zero => rfl
  | succ fuel => simp [sendLoop, Nat.not_lt.mpr full]

theorem sendLoop_none {queue : σ}
    (none : ∀ maxSize, sendQueue.produce queue now maxSize = (none, queue)) (fuel maxBytes : Nat) :
    sendLoop sendQueue now fuel maxBytes (q, queue) = ([], q, queue) := by
  cases fuel with
  | zero => rfl
  | succ fuel => simp [sendLoop, none]

theorem sendLoop_single {maxBytes : Nat} {queue queue' : σ} {chunk : DataToSend}
    (room : q.outstandingData.dataChunkHeaderSize < maxBytes)
    (produced : sendQueue.produce queue now
      (maxBytes - q.outstandingData.dataChunkHeaderSize) = (some chunk, queue'))
    {fuel : Nat} {tsn : Int} {s s' : RetransmissionQueue × σ}
    (inserted : insertProduced sendQueue now chunk (q, queue') = (some tsn, s))
    (rest : sendLoop sendQueue now fuel
      (maxBytes - q.outstandingData.getSerializedChunkSize chunk.data) s = ([], s')) :
    sendLoop sendQueue now (fuel + 1) maxBytes (q, queue) = ([(tsn, chunk.data)], s') := by
  simp [sendLoop, room, produced, inserted, rest]

theorem insertProduced_reliable (reliable : q.partialReliability = false) (now : Int)
    (chunk : DataToSend) (queue : σ) :
    ∃ rwnd, insertProduced sendQueue (.finite now) chunk (q, queue) =
      (some q.outstandingData.nextTsn, { q with
          rwnd := rwnd
          outstandingData := (q.outstandingData.addUnacked chunk.data).pushItem
            { messageId := chunk.messageId
              data := chunk.data
              timeSent := .finite now
              maxRetransmissions := MaxRetransmits.noLimit
              expiresAt := .plusInfinity
              lifecycleId := chunk.lifecycleId } },
        queue) := by
  have halive : ¬ (.plusInfinity : Timestamp) ≤ .finite now := Bool.noConfusion
  have hinserted := insertChunk_of_alive sendQueue.discard chunk.messageId
    chunk.data MaxRetransmits.noLimit chunk.lifecycleId halive (q.outstandingData, queue)
  refine ⟨(q.rwnd + kSizeT - chunk.data.size) % kSizeT, ?_⟩
  simp only [insertProduced, reliable, Bool.false_eq_true, if_false, hinserted]

end Loop

section Overflow

/-- A send queue with so many messages that are equal but for their ids. -/
def copiesOf (data : Data) : SendQueue Nat where
  produce queue _ maxSize :=
    if 0 < queue ∧ data.size ≤ maxSize then
      (some { messageId := BitVec.ofNat 32 queue, data := data }, queue - 1)
    else (none, queue)
  discard queue _ _ := (false, queue)

theorem bounded_copiesOf (data : Data) : (copiesOf data).Bounded := by
  intro queue now maxSize chunk h
  simp only [copiesOf] at h
  split_ifs at h with hsize
  · obtain rfl := Option.some.inj h
    exact hsize.2

/-- A sender with two messages that take `2 ^ 31` bytes on the wire. -/
def fresh : RetransmissionQueue := initial { mtu := 2147483648 } false 1 2147483648

/-- The sender when one of the messages is sent and the retransmission timer has expired. -/
def afterTimeout (data : Data) : RetransmissionQueue × Nat :=
  handleT3RtxTimerExpiry (copiesOf data)
    (getChunksToSend (copiesOf data) (.finite 0) 2147483648 (fresh, 2)).2

def sentItem (data : Data) : Item where
  messageId := 2
  data := data
  timeSent := .finite 0
  maxRetransmissions := MaxRetransmits.noLimit
  expiresAt := .plusInfinity
  lifecycleId := 0

variable {data : Data}

theorem send_fresh (size : data.size = 2147483632) :
    ∃ rwnd, (getChunksToSend (copiesOf data) (.finite 0) 2147483648 (fresh, 2)).2 = ({ fresh with
        rwnd := rwnd
        t3RtxRunning := true
        outstandingData := (fresh.outstandingData.addUnacked data).pushItem (sentItem data) }, 1) := by
  have hheader : fresh.outstandingData.dataChunkHeaderSize = 16 := rfl
  have hser : fresh.outstandingData.getSerializedChunkSize data = 2147483648 := by
    rw [getSerializedChunkSize, size]
    rfl
  have hproduced : (copiesOf data).produce 2 (.finite 0)
      (2147483648 - fresh.outstandingData.dataChunkHeaderSize) =
        (some { messageId := 2, data := data }, 1) := by
    simp [copiesOf, size, hheader]
  have hbudget : fresh.sendBudget 2147483648 = 2147483648 := by decide
  have hresent : fresh.retransmitChunks 2147483648 = ([], fresh) := by
    simp [retransmitChunks, getChunksToBeRetransmitted,
      extractChunksThatCanFit, OutstandingData.chunksIn, fresh, initial,
      OutstandingData.initial, extractLoop]
  have hleft : (((2147483648 : Nat) - fresh.bytesRetransmitted []) % kSizeT : Int).toNat =
      2147483647 + 1 := by
    decide
  obtain ⟨rwnd, hinserted⟩ := insertProduced_reliable (copiesOf data) (q := fresh) rfl 0
    { messageId := 2, data := data } 1
  have hloop := sendLoop_single (copiesOf data) (by decide) hproduced hinserted
    (sendLoop_full (copiesOf data) (by rw [hser]; exact Nat.zero_le _) 2147483647 _)
  refine ⟨rwnd, ?_⟩
  simp only [getChunksToSend, hbudget, hresent, hleft, hloop]
  simp [startT3RtxIf, sentItem]

/-- The outstanding data while a message of half the range of an `int` waits to be sent again. -/
structure Waiting (data : Data) (q : RetransmissionQueue) : Prop where
  cwnd : q.cwnd = 2147483648
  mtu : q.options.mtu = 2147483648
  reliable : q.partialReliability = false
  header : q.outstandingData.dataChunkHeaderSize = 16
  packetBytes : q.outstandingData.unackedPacketBytes = 0
  items : q.outstandingData.unackedItems = 0
  waiting : q.outstandingData.toBeRetransmitted = {1}
  held : ∃ item, q.outstandingData.outstandingData.get? 1 = some item ∧ item.data = data

theorem waiting_afterTimeout (size : data.size = 2147483632) :
    Waiting data (afterTimeout data).1 ∧ (afterTimeout data).2 = 1 := by
  obtain ⟨rwnd, hsent⟩ := send_fresh size
  generalize hd : (fresh.outstandingData.addUnacked data).pushItem (sentItem data) = d at hsent
  have hheld : d.outstandingData.get? 1 = some (sentItem data) := by
    rw [← hd]
    rfl
  have hnacked : nackAll (copiesOf data).discard (d, 1) =
      (((d.takeOutOfFlight (sentItem data)).modifyItem 1 fun item => (item.nack true).1).insertInto 1
        .timer, 1) := by
    have hsingle : nackAll (copiesOf data).discard (d, 1) =
        (nackItem (copiesOf data).discard 1 true false (d, 1)).2 := by
      rw [← hd]
      rfl
    have hnack : ((sentItem data).nack true).2 = .retransmit := rfl
    rw [hsingle]
    simp [nackItem, hheld, hnack]
  have hdata : (afterTimeout data).1.outstandingData =
      ((d.takeOutOfFlight (sentItem data)).modifyItem 1 fun item => (item.nack true).1).insertInto 1
        .timer := by
    rw [afterTimeout, hsent]
    exact congrArg Prod.fst hnacked
  have hflight : (d.takeOutOfFlight (sentItem data)).unackedPacketBytes = 0 := by
    rw [← hd]
    change 0 + fresh.outstandingData.getSerializedChunkSize data -
      fresh.outstandingData.getSerializedChunkSize data = 0
    omega
  refine ⟨⟨?_, ?_, ?_, ?_, ?_, ?_, ?_, ?_⟩, ?_⟩
  · rw [afterTimeout, hsent]
    rfl
  · rw [afterTimeout, hsent]
    rfl
  · rw [afterTimeout, hsent]
    rfl
  · rw [hdata, ← hd]
    rfl
  · rw [hdata]
    exact hflight
  · rw [hdata, ← hd]
    rfl
  · rw [hdata, ← hd]
    rfl
  · refine ⟨((sentItem data).nack true).1, ?_, rfl⟩
    rw [hdata]
    simp [Window.get?_modify, hheld]
  · rw [afterTimeout, hsent]
    exact congrArg Prod.snd hnacked

/-- The waiting chunk takes up the whole packet, but the sum has turned negative, and another chunk
is added. -/
theorem Waiting.send {q : RetransmissionQueue} (h : Waiting data q)
    (size : data.size = 2147483632) :
    q.bytesRetransmitted (q.resent 2147483648) = -2147483648 ∧
    (∃ tsn, (getChunksToSend (copiesOf data) (.finite 0) 2147483648 (q, 1)).1 =
      [(1, data), (tsn, data)]) ∧ (getChunksToSend (copiesOf data) (.finite 0) 2147483648
      (q, 1)).2.1.outstandingData.unackedPacketBytes = 4294967296 ∧
    (getChunksToSend (copiesOf data) (.finite 0) 2147483648 (q, 1)).2.1.cwnd = 2147483648 := by
  obtain ⟨item, hheld, hdata⟩ := h.held
  have hser : q.outstandingData.getSerializedChunkSize data = 2147483648 := by
    rw [getSerializedChunkSize, h.header, size]
    rfl
  have hbudget : q.sendBudget 2147483648 = 2147483648 := by
    simp [sendBudget, h.cwnd, h.packetBytes, h.items, h.mtu, roundDownTo4]
  have hsort : (q.outstandingData.chunksIn .timer).sort = [1] := by
    rw [chunksIn, h.waiting, Finset.sort_singleton]
  have hresent : q.retransmitChunks 2147483648 = ([(1, data)],
      { q with outstandingData := q.outstandingData.retransmit .timer 1 item }) := by
    simp only [retransmitChunks, getChunksToBeRetransmitted,
      extractChunksThatCanFit, hsort, extractLoop, hheld, hdata, hser]
    simp
  have hbytes : q.bytesRetransmitted [(1, data)] = -2147483648 := by
    simp [bytesRetransmitted, hser]
  generalize hq : { q with outstandingData := q.outstandingData.retransmit .timer 1 item } = q'
    at hresent
  have hretransmitted := packetBytes_retransmit q.outstandingData .timer 1 item
  have hheader : q'.outstandingData.dataChunkHeaderSize = 16 := by
    rw [← hq]
    exact hretransmitted.header.trans h.header
  have hser' : q'.outstandingData.getSerializedChunkSize data = 2147483648 := by
    rw [getSerializedChunkSize, hheader, size]
    rfl
  have hpacket : q'.outstandingData.unackedPacketBytes = 2147483648 := by
    rw [← hq]
    refine hretransmitted.packetBytes.trans ?_
    change q.outstandingData.unackedPacketBytes + q.outstandingData.getSerializedChunkSize item.data = _
    rw [h.packetBytes, hdata, hser]
  have hleft : (((2147483648 : Nat) - q.bytesRetransmitted [(1, data)]) % kSizeT : Int).toNat =
      4294967295 + 1 := by
    rw [hbytes]
    decide
  have hproduced : (copiesOf data).produce 1 (.finite 0)
      (4294967295 + 1 - q'.outstandingData.dataChunkHeaderSize) =
        (some { messageId := 1, data := data }, 0) := by
    simp [copiesOf, size, hheader]
  have hreliable : q'.partialReliability = false := by
    rw [← hq]
    exact h.reliable
  obtain ⟨rwnd, hinserted⟩ := insertProduced_reliable (copiesOf data) hreliable 0
    { messageId := 1, data := data } 0
  have hdone : ∀ maxSize, (copiesOf data).produce 0 (.finite 0) maxSize = (none, 0) := by
    simp [copiesOf]
  have hloop := sendLoop_single (copiesOf data) (by rw [hheader]; decide) hproduced hinserted
    (sendLoop_none (copiesOf data) hdone 4294967295 _)
  have hcwnd : q'.cwnd = 2147483648 := by
    rw [← hq]
    exact h.cwnd
  have hsend : getChunksToSend (copiesOf data) (.finite 0) 2147483648 (q, 1) =
      ([(1, data), (q'.outstandingData.nextTsn, data)], { q' with
        rwnd := rwnd
        t3RtxRunning := true
        outstandingData := (q'.outstandingData.addUnacked data).pushItem
          { messageId := 1
            data := data
            timeSent := .finite 0
            maxRetransmissions := MaxRetransmits.noLimit
            expiresAt := .plusInfinity
            lifecycleId := 0 } }, 0) := by
    simp only [getChunksToSend, hbudget, hresent, hleft, hloop]
    simp [startT3RtxIf]
  refine ⟨?_, ⟨_, congrArg Prod.fst hsend⟩, ?_, ?_⟩
  · rw [resent, hbudget, hresent, hbytes]
  · rw [hsend]
    change q'.outstandingData.unackedPacketBytes + q'.outstandingData.getSerializedChunkSize data = _
    rw [hpacket, hser']
  · rw [hsend]
    exact hcwnd

def halfRange : Data where
  streamId := 1
  ssn := 0
  mid := 0
  fsn := 0
  ppid := 53
  payload := List.replicate 2147483632 0
  isBeginning := true
  isEnd := true
  isUnordered := false

/-- A packet of `2 ^ 31` bytes gets twice as many, and so does the congestion window. -/
theorem congestion_window_exceeded : 4 ∣ 2147483648 ∧ (copiesOf halfRange).Bounded ∧
    (afterTimeout halfRange).1.bytesRetransmitted ((afterTimeout halfRange).1.resent 2147483648) =
      -2147483648 ∧ (afterTimeout halfRange).1.outstandingData.serializedSize
      (getChunksToSend (copiesOf halfRange) (.finite 0) 2147483648 (afterTimeout halfRange)).1 =
        4294967296 ∧ (afterTimeout halfRange).1.outstandingData.unackedPacketBytes = 0 ∧
    (getChunksToSend (copiesOf halfRange) (.finite 0) 2147483648
      (afterTimeout halfRange)).2.1.outstandingData.unackedPacketBytes = 4294967296 ∧
    (getChunksToSend (copiesOf halfRange) (.finite 0) 2147483648
      (afterTimeout halfRange)).2.1.cwnd = 2147483648 := by
  have hsize : halfRange.size = 2147483632 := length_replicate
  obtain ⟨hwaiting, hqueue⟩ := waiting_afterTimeout hsize
  generalize afterTimeout halfRange = s at hwaiting hqueue ⊢
  obtain ⟨q, queue⟩ := s
  obtain rfl := hqueue
  obtain ⟨hbytes, ⟨tsn, hchunks⟩, hpacket, hcwnd⟩ := hwaiting.send hsize
  refine ⟨by decide, bounded_copiesOf halfRange, hbytes, ?_, hwaiting.packetBytes, hpacket, hcwnd⟩
  have hser : q.outstandingData.getSerializedChunkSize halfRange = 2147483648 := by
    rw [getSerializedChunkSize, hwaiting.header, hsize]
    rfl
  rw [hchunks]
  simp [serializedSize, hser]

end Overflow

section ReceiveWindow

variable {σ : Type} (sendQueue : SendQueue σ)

/-- What `GetChunksToSend` has to do to the sender's view of the receive window. -/
def KeepsWindow (now : Timestamp) (n : Nat) (s : RetransmissionQueue × σ) : Prop :=
  ((getChunksToSend sendQueue now n s).2.1.rwnd : Int) =
    max 0 ((s.1.rwnd : Int) - producedBytes (roundsOf sendQueue now n s)) ∧
  (getChunksToSend sendQueue now n s).2.1.rwnd ≤ s.1.rwnd

theorem keepsWindow_iff (bounded : sendQueue.Bounded) (now : Timestamp) {n : Nat}
    (small : n < 2147483648) {s : RetransmissionQueue × σ} (range : s.1.rwnd < kSizeT) :
    (KeepsWindow sendQueue now n s ↔ producedBytes (roundsOf sendQueue now n s) ≤ s.1.rwnd) ∧
    (roundsOf sendQueue now n s ≠ [] → producedBytes (roundsOf sendQueue now n s) +
      s.1.outstandingData.dataChunkHeaderSize + s.1.outstandingData.serializedSize (s.1.resent n) ≤
        s.1.sendBudget n) := by
  obtain ⟨hresent, -, hheader⟩ := resent_spec s.1 n
  obtain ⟨new, -, hsent⟩ := getChunksToSend_sent sendQueue bounded now small s
  have hbudget := (sendBudget_le s.1 n).1
  have htotal := hsent.total
  have hpaid : roundsOf sendQueue now n s ≠ [] → producedBytes (roundsOf sendQueue now n s) +
      s.1.outstandingData.dataChunkHeaderSize + s.1.outstandingData.serializedSize (s.1.resent n) ≤
        s.1.sendBudget n := by
    intro hsome
    have := producedBytes_add_header_le
      (d := (s.1.retransmitChunks (s.1.sendBudget n)).2.outstandingData) hsome
    rw [hheader] at this
    omega
  have hfew : producedBytes (roundsOf sendQueue now n s) ≤ n := by
    rcases eq_or_ne (roundsOf sendQueue now n s) [] with hnone | hsome
    · simp [hnone, producedBytes]
    · have := hpaid hsome
      omega
  have hrwnd : ((getChunksToSend sendQueue now n s).2.1.rwnd : Int) =
      ((s.1.rwnd : Int) - producedBytes (roundsOf sendQueue now n s)) % kSizeT :=
    hsent.rwnd ((Nat.sub_le _ _).trans (hbudget.trans (small.le.trans (by decide)))) range
  refine ⟨?_, hpaid⟩
  rw [KeepsWindow]
  unfold kSizeT at hrwnd range
  omega

/-- The budget that the chunks that are sent again leave is not above the receive window. -/
def Room (q : RetransmissionQueue) (n : Nat) : Prop :=
  q.sendBudget n ≤ q.rwnd + q.outstandingData.dataChunkHeaderSize +
    q.outstandingData.serializedSize (q.resent n)

/-- A send queue can fill what is left of the budget. -/
theorem exists_produced (now : Timestamp) {n : Nat} (small : n < 2147483648)
    {q : RetransmissionQueue} (h : ¬ q.Room n) :
    ∃ data, q.rwnd < producedBytes (roundsOf (copiesOf data) now n (q, 1)) := by
  rw [Room] at h
  have hheader := (resent_spec q n).2.2
  generalize hleft : q.sendBudget n - q.outstandingData.serializedSize (q.resent n) = left
  obtain ⟨data, hsize⟩ : ∃ data : Data, data.size = left - q.outstandingData.dataChunkHeaderSize :=
    ⟨{ halfRange with payload := replicate _ 0 }, length_replicate⟩
  obtain ⟨fuel, rfl⟩ : ∃ fuel, left = fuel + 1 := Nat.exists_eq_succ_of_ne_zero (by omega)
  have hproduce : (copiesOf data).produce 1 now (fuel + 1 - q.outstandingData.dataChunkHeaderSize) =
      (some { messageId := 1, data := data }, 0) := by
    rw [copiesOf, ← hsize]
    exact if_pos ⟨Nat.one_pos, le_rfl⟩
  have hroom : q.outstandingData.dataChunkHeaderSize < fuel + 1 := by omega
  refine ⟨data, ?_⟩
  rw [roundsOf, bytesLeft_eq q small, hleft, rounds]
  simp only [hheader, if_pos hroom, hproduce, producedBytes, map_cons, sum_cons]
  omega

/-- The sender when the byte is in flight and the application has sent four more. -/
def withFourBytes (aRwnd : Nat) : RetransmissionQueue × RRSendQueue :=
  let sent := getChunksToSend RRSendQueue.sendQueue (.finite 0) 20 (withOneByte aRwnd)
  (sent.2.1, sent.2.2.add (.finite 0) ⟨1, 53, [1, 2, 3, 4]⟩ {})

end ReceiveWindow

end RetransmissionQueue

end Dcsctp
