import WebRtc.Rtp.RtpPacketHistory
import Mathlib.Data.Bool.AllAny

/-!
# The index law of the packet history

Every slot stands at the wrapped distance of its packet from the first one. The primitives that
change the slots remove a packet, pop the first empty slots, add empty slots at the ends, or store a
packet. Each keeps the law, and says what it does to the set of packets held.
-/

namespace Rtp

open SequenceNumbers Units List
open Option hiding ext

variable {β : Type} (log : List (Event β)) {p : RtpPacketToSend β} {slots : List (StoredPacket β)}
  {first : BitVec 16}

def held (slots : List (StoredPacket β)) (i : Nat) : Option (RtpPacketToSend β) :=
  slots[i]?.bind StoredPacket.packet

/-- The packet with a sequence number that was put and not since removed, read off a log. -/
def live (log : List (Event β)) (sequenceNumber : BitVec 16) : Option (RtpPacketToSend β) :=
  log.foldl (fun current event =>
    match event with
    | .put packet => if packet.sequenceNumber = sequenceNumber then some packet else current
    | .removed packet => if packet.sequenceNumber = sequenceNumber then none else current
    | .cleared => none) none

theorem live_append_put (packet : RtpPacketToSend β) (s : BitVec 16) :
    live (log ++ [.put packet]) s =
      if packet.sequenceNumber = s then some packet else live log s := by
  simp [live]

theorem live_append_removed (packet : RtpPacketToSend β) (s : BitVec 16) :
    live (log ++ [.removed packet]) s = if packet.sequenceNumber = s then none else live log s := by
  simp [live]

theorem live_append_cleared (s : BitVec 16) : live (log ++ [.cleared]) s = none := by
  simp [live]

theorem sequenceNumber_of_live {log : List (Event β)} {s : BitVec 16} (h : live log s = some p) :
    p.sequenceNumber = s := by
  induction log using reverseRecOn with
  | nil => cases h
  | append_singleton log event ih =>
    cases event with
    | put packet =>
      rw [live_append_put] at h
      split at h
      · rename_i hs
        exact some.inj h ▸ hs
      · exact ih h
    | removed packet =>
      rw [live_append_removed] at h
      split at h
      · cases h
      · exact ih h
    | cleared =>
      rw [live_append_cleared] at h
      cases h

theorem held_eq_some {i : Nat} :
    held slots i = some p ↔ ∃ stored, slots[i]? = some stored ∧ stored.packet = some p :=
  bind_eq_some_iff

theorem exists_held_iff :
    (∃ i, held slots i = some p) ↔ ∃ stored ∈ slots, stored.packet = some p := by
  constructor
  · rintro ⟨i, h⟩
    obtain ⟨stored, hat, hpacket⟩ := held_eq_some.mp h
    exact ⟨stored, mem_of_getElem? hat, hpacket⟩
  · rintro ⟨stored, hmem, hpacket⟩
    obtain ⟨i, hat⟩ := mem_iff_getElem?.mp hmem
    exact ⟨i, held_eq_some.mpr ⟨stored, hat, hpacket⟩⟩

theorem held_replicate_append (k : Nat) (l : List (StoredPacket β)) (i : Nat) :
    held (replicate k StoredPacket.empty ++ l) i = if i < k then none else held l (i - k) := by
  unfold held
  rw [getElem?_append, length_replicate]
  split
  · rename_i hi
    rw [getElem?_replicate_of_lt hi]
    rfl
  · rfl

theorem held_append_replicate (k : Nat) (l : List (StoredPacket β)) (i : Nat) :
    held (l ++ replicate k StoredPacket.empty) i = held l i := by
  unfold held
  rw [getElem?_append]
  split
  · rfl
  · rw [getElem?_eq_none (by omega : l.length ≤ i), getElem?_replicate]
    split <;> rfl

theorem held_set {index : Nat} (hindex : index < slots.length) (stored : StoredPacket β) (i : Nat) :
    held (slots.set index stored) i = if index = i then stored.packet else held slots i := by
  unfold held
  rw [getElem?_set]
  split
  · rfl
  · rfl

theorem held_modify (f : StoredPacket β → StoredPacket β) (slots : List (StoredPacket β))
    (index i : Nat) :
    held (slots.modify index f) i =
      if index = i then slots[i]?.bind fun a => (f a).packet else held slots i := by
  unfold held
  rw [getElem?_modify]
  split <;> cases slots[i]? <;> rfl

theorem held_modify_of_packet {f : StoredPacket β → StoredPacket β}
    (hf : ∀ a, (f a).packet = a.packet) (slots : List (StoredPacket β)) (index i : Nat) :
    held (slots.modify index f) i = held slots i := by
  rw [held_modify]
  split
  · simp only [hf]
    rfl
  · rfl

theorem held_remove (slots : List (StoredPacket β)) (index i : Nat) :
    held (slots.modify index fun stored => { stored with packet := none }) i =
      if index = i then none else held slots i := by
  rw [held_modify]
  split
  · cases slots[i]? <;> rfl
  · rfl

/-- Every packet stands at its distance from `first`, and that distance is below one half of the
numbers. -/
def Indexed (first : BitVec 16) (slots : List (StoredPacket β)) : Prop :=
  ∀ i p, held slots i = some p → (p.sequenceNumber - first).toNat = i ∧ i < 32768

/-- The slots of a history: indexed from the first one, which is not empty. -/
structure Anchored (first : BitVec 16) (slots : List (StoredPacket β)) : Prop where
  indexed : Indexed first slots
  front : ∀ a ∈ slots.head?, a.packet ≠ none

theorem Indexed.unique (h : Indexed first slots) {i j : Nat} {p' : RtpPacketToSend β}
    (hi : held slots i = some p) (hj : held slots j = some p')
    (hsame : p.sequenceNumber = p'.sequenceNumber) : i = j := by
  rw [← (h i p hi).1, ← (h j p' hj).1, hsame]

theorem Indexed.tail {a : StoredPacket β} {l : List (StoredPacket β)} (h : Indexed first (a :: l)) :
    Indexed (first + 1) l := by
  intro i p hp
  obtain ⟨hat, hlt⟩ := h (i + 1) p hp
  have hsub : (p.sequenceNumber - (first + 1)).toNat = i := by
    bv_omega
  exact ⟨hsub, by omega⟩

theorem Indexed.mono {slots' : List (StoredPacket β)} (h : Indexed first slots)
    (hsub : ∀ i p, held slots' i = some p → held slots i = some p) : Indexed first slots' :=
  fun i p hp => h i p (hsub i p hp)

theorem Indexed.popped (h : Indexed first slots) :
    ∃ first', Anchored first' (slots.dropWhile fun stored => stored.packet.isNone) := by
  induction slots generalizing first with
  | nil => exact ⟨first, h, by simp⟩
  | cons a l ih =>
    cases ha : a.packet with
    | none =>
      have hdrop : dropWhile (fun stored : StoredPacket β => stored.packet.isNone) (a :: l) =
          dropWhile (fun stored => stored.packet.isNone) l := by
        rw [dropWhile_cons_of_pos (by rw [ha]; rfl)]
      rw [hdrop]
      exact ih h.tail
    | some p =>
      have hkeep : dropWhile (fun stored : StoredPacket β => stored.packet.isNone) (a :: l) =
          a :: l := by
        rw [dropWhile_cons_of_neg (by simp [ha])]
      rw [hkeep]
      refine ⟨first, h, ?_⟩
      intro b hb
      rw [← some.inj hb, ha]
      exact nofun

variable {stored : StoredPacket β}

theorem mem_popped (hheld : stored.packet ≠ none) :
    stored ∈ slots.dropWhile (fun stored => stored.packet.isNone) ↔ stored ∈ slots := by
  induction slots with
  | nil => rfl
  | cons a l ih =>
    cases ha : a.packet with
    | none =>
      have hne : stored ≠ a := fun heq => hheld (heq ▸ ha)
      rw [dropWhile_cons_of_pos (by rw [ha]; rfl), ih, mem_cons, or_iff_right hne]
    | some p => rw [dropWhile_cons_of_neg (by simp [ha])]

theorem Indexed.expandFront (h : Indexed first slots) {k : Nat}
    (hfit : ∀ i p, held slots i = some p → i + k < 32768) :
    Indexed (first - BitVec.ofNat 16 k) (replicate k StoredPacket.empty ++ slots) := by
  intro i p hp
  rw [held_replicate_append] at hp
  split at hp
  · cases hp
  · obtain ⟨hat, -⟩ := h _ p hp
    have hlt := hfit _ p hp
    have hsub : (p.sequenceNumber - (first - BitVec.ofNat 16 k)).toNat = i := by
      bv_omega
    exact ⟨hsub, by omega⟩

theorem Indexed.expandBack (h : Indexed first slots) (k : Nat) :
    Indexed first (slots ++ replicate k StoredPacket.empty) :=
  h.mono fun i p hp => by rwa [held_append_replicate] at hp

theorem Indexed.set (h : Indexed first slots) {index : Nat} (hindex : index < slots.length)
    (hpacket : stored.packet = some p)
    (hat : (p.sequenceNumber - first).toNat = index) (hlt : index < 32768) :
    Indexed first (slots.set index stored) := by
  intro i p' hp
  rw [held_set hindex] at hp
  split at hp
  · rename_i hi
    rw [hpacket] at hp
    subst hi
    exact some.inj hp ▸ ⟨hat, hlt⟩
  · exact h i p' hp

namespace RtpPacketHistory

variable {q q' : RtpPacketHistory β} {first s : BitVec 16} {front stored : StoredPacket β}
  {rest slots : List (StoredPacket β)} {p packet : RtpPacketToSend β} {index order : Nat}
  {now : Timestamp} {f : StoredPacket β → StoredPacket β} {calls : List (Call β)}

theorem firstSeq_eq (h : Anchored first q.packetHistory) (hslots : q.packetHistory = front :: rest) :
    (front.packet.map RtpPacketToSend.sequenceNumber).getD 0 = first := by
  obtain ⟨hindexed, hfront⟩ := h
  rw [hslots] at hindexed hfront
  cases hp : front.packet with
  | none => exact absurd hp (hfront front rfl)
  | some p =>
    obtain ⟨hzero, -⟩ := hindexed 0 p hp
    change p.sequenceNumber = first
    bv_omega

/-- The index of a sequence number is its wrapped distance from the first packet, on the shorter
side. -/
theorem getPacketIndex_eq (h : Anchored first q.packetHistory) (hne : q.packetHistory ≠ [])
    (s : BitVec 16) :
    q.getPacketIndex s = if (s - first).toNat < 32768 then ((s - first).toNat : Int)
      else if (s - first).toNat = 32768 ∧ first.toNat < s.toNat then 32768
      else ((s - first).toNat : Int) - 65536 := by
  obtain ⟨front, rest, hslots⟩ := exists_cons_of_ne_nil hne
  have hfirst := firstSeq_eq h hslots
  unfold getPacketIndex
  rw [hslots]
  simp only [hfirst]
  by_cases heq : first = s
  · subst heq
    simp
  · have hnat : first.toNat ≠ s.toNat := fun h => heq (BitVec.eq_of_toNat_eq h)
    have hdist : (s - first).toNat = (65536 - first.toNat + s.toNat) % 65536 := BitVec.toNat_sub _ _
    simp only [isNewerSequenceNumber_iff (Ne.symm heq), BitVec.lt_def]
    split_ifs <;> omega

variable {i : Nat} {q'' : RtpPacketHistory β} {first₀ : BitVec 16} {packetIndex : Int}
  {sendTime : Timestamp} {encapsulate : RtpPacketToSend β → Option (RtpPacketToSend β)}

theorem getStoredPacket_eq_some_iff_held : q.getStoredPacket s = some i ↔
      q.getPacketIndex s = i ∧ ∃ p, held q.packetHistory i = some p := by
  unfold getStoredPacket slot
  dsimp only
  constructor
  · intro h
    split at h
    · cases h
    · rename_i stored hat
      split at hat
      · cases hat
      · cases hp : stored.packet with
        | none => simp [hp] at h
        | some p =>
          have hi : (q.getPacketIndex s).toNat = i := by simpa [hp] using h
          exact ⟨by omega, p, held_eq_some.mpr ⟨stored, hi ▸ hat, hp⟩⟩
  · rintro ⟨hindex, p, hheld⟩
    obtain ⟨stored, hat, hp⟩ := held_eq_some.mp hheld
    rw [hindex, if_neg (by omega), Int.toNat_natCast, hat]
    simp [hp]

theorem ne_nil_of_held (h : held slots i = some p) : slots ≠ [] := by
  rintro rfl
  cases h

theorem getStoredPacket_eq_some (h : Anchored first q.packetHistory) :
    q.getStoredPacket s = some i ↔ ∃ p, held q.packetHistory i = some p ∧ p.sequenceNumber = s := by
  rw [getStoredPacket_eq_some_iff_held]
  constructor
  · rintro ⟨hindex, p, hheld⟩
    refine ⟨p, hheld, ?_⟩
    obtain ⟨hat, hlt⟩ := h.indexed i p hheld
    rw [getPacketIndex_eq h (ne_nil_of_held hheld)] at hindex
    bv_omega
  · rintro ⟨p, hheld, rfl⟩
    obtain ⟨hat, hlt⟩ := h.indexed i p hheld
    refine ⟨?_, p, hheld⟩
    rw [getPacketIndex_eq h (ne_nil_of_held hheld), if_pos (by omega), hat]

structure Shrunk (q q' : RtpPacketHistory β) : Prop where
  mem : ∀ stored ∈ q'.packetHistory, stored.packet ≠ none → stored ∈ q.packetHistory
  packetsInserted : q'.packetsInserted = q.packetsInserted
  mode : q'.mode = q.mode

theorem Shrunk.refl (q : RtpPacketHistory β) : Shrunk q q :=
  ⟨fun _ h _ => h, rfl, rfl⟩

theorem Shrunk.trans (h : Shrunk q q') (h' : Shrunk q' q'') : Shrunk q q'' where
  mem stored hmem hp := h.mem stored (h'.mem stored hmem hp) hp
  packetsInserted := h'.packetsInserted.trans h.packetsInserted
  mode := h'.mode.trans h.mode

structure Lawful (q : RtpPacketHistory β) : Prop where
  anchored : ∃ first, Anchored first q.packetHistory
  live : ∀ p, (∃ i, held q.packetHistory i = some p) ↔ live q.log p.sequenceNumber = some p
  capacity : q.packetHistory.countP (fun stored => stored.packet.isSome) ≤ kMaxCapacity
  orders : ∀ stored ∈ q.packetHistory, stored.packet ≠ none → stored.insertOrder < q.packetsInserted
  distinct : ∀ a ∈ q.packetHistory, a.packet ≠ none → ∀ b ∈ q.packetHistory, b.packet ≠ none →
    a.insertOrder = b.insertOrder → a.packet = b.packet

/-- The slots after the packet of one is moved out, before the front is trimmed. -/
theorem packetHistory_removePacket (q : RtpPacketHistory β) (index : Nat) :
    (q.removePacket index).packetHistory = if index = 0 then
        (vacate q.packetHistory index).dropWhile fun stored => stored.packet.isNone
      else vacate q.packetHistory index := rfl

theorem mem_packetHistory_removePacket (hheld : stored.packet ≠ none) :
    stored ∈ (q.removePacket index).packetHistory ↔ stored ∈ vacate q.packetHistory index := by
  rw [packetHistory_removePacket]
  split
  · exact mem_popped hheld
  · rfl

theorem mem_of_mem_vacate (hmem : stored ∈ vacate slots index) (hheld : stored.packet ≠ none) :
    stored ∈ slots := by
  obtain ⟨i, hat⟩ := mem_iff_getElem?.mp hmem
  rw [vacate, getElem?_modify] at hat
  obtain ⟨a, ha, heq⟩ := map_eq_some_iff.mp hat
  split at heq
  · rw [← heq] at hheld
    exact absurd rfl hheld
  · rw [← heq]
    exact mem_of_getElem? ha

theorem shrunk_removePacket (q : RtpPacketHistory β) (index : Nat) :
    Shrunk q (q.removePacket index) where
  mem _ hmem hp := mem_of_mem_vacate ((mem_packetHistory_removePacket hp).mp hmem) hp
  packetsInserted := rfl
  mode := rfl

theorem exists_held_removePacket : (∃ i, held (q.removePacket index).packetHistory i = some p) ↔
      ∃ i, index ≠ i ∧ held q.packetHistory i = some p := by
  have hvacated : (∃ i, held (q.removePacket index).packetHistory i = some p) ↔
      ∃ i, held (vacate q.packetHistory index) i = some p := by
    rw [exists_held_iff, exists_held_iff]
    refine exists_congr fun stored => and_congr_left fun hp => ?_
    exact mem_packetHistory_removePacket (by rw [hp]; exact nofun)
  rw [hvacated]
  refine exists_congr fun i => ?_
  rw [vacate, held_remove]
  split_ifs with h
  · exact ⟨nofun, fun hboth => absurd h hboth.1⟩
  · exact ⟨fun hheld => ⟨h, hheld⟩, And.right⟩

variable (slots)

theorem countP_vacate_le (index : Nat) :
    (vacate slots index).countP (fun stored => stored.packet.isSome) ≤
      slots.countP fun stored => stored.packet.isSome := by
  induction slots generalizing index with
  | nil => rw [vacate, modify_nil]
  | cons a l ih =>
    cases index with
    | zero =>
      rw [vacate, modify_zero_cons, countP_cons, countP_cons]
      exact Nat.add_le_add_left (Nat.zero_le _) _
    | succ n =>
      rw [vacate, modify_succ_cons, countP_cons, countP_cons]
      exact Nat.add_le_add_right (ih n) _

theorem countP_removePacket_le (q : RtpPacketHistory β) (index : Nat) :
    (q.removePacket index).packetHistory.countP (fun stored => stored.packet.isSome) ≤
      q.packetHistory.countP fun stored => stored.packet.isSome := by
  rw [packetHistory_removePacket]
  refine le_trans ?_ (countP_vacate_le q.packetHistory index)
  split
  · exact (dropWhile_sublist _).countP_le
  · exact le_rfl

theorem anchored_removePacket (h : Anchored first q.packetHistory) (index : Nat) :
    ∃ first', Anchored first' (q.removePacket index).packetHistory := by
  have hindexed : Indexed first (vacate q.packetHistory index) := by
    refine h.indexed.mono fun i p hp => ?_
    rw [vacate, held_remove] at hp
    split at hp
    · cases hp
    · exact hp
  rw [packetHistory_removePacket]
  split
  · exact hindexed.popped
  · rename_i hindex
    refine ⟨first, hindexed, ?_⟩
    intro a ha
    -- the front is another slot than the one vacated
    have hhead : (vacate q.packetHistory index).head? = q.packetHistory.head? := by
      rw [head?_eq_getElem?, head?_eq_getElem?, vacate]
      simp [hindex]
    rw [hhead] at ha
    exact h.front a ha

theorem live_removePacket (h : Lawful q) (index : Nat) (p : RtpPacketToSend β) :
    (∃ i, held (q.removePacket index).packetHistory i = some p) ↔
      live (q.removePacket index).log p.sequenceNumber = some p := by
  obtain ⟨first, hanchored⟩ := h.anchored
  rw [exists_held_removePacket]
  change _ ↔ live (q.log ++ ((held q.packetHistory index).map Event.removed).toList) _ = _
  cases hheld : held q.packetHistory index with
  | none =>
    rw [map_none, toList_none, append_nil, ← h.live p]
    refine exists_congr fun i => and_iff_right_of_imp ?_
    rintro hi rfl
    rw [hheld] at hi
    cases hi
  | some removed =>
    rw [map_some, toList_some, live_append_removed]
    split_ifs with hsame
    · constructor
      · rintro ⟨i, hne, hi⟩
        exact absurd (hanchored.indexed.unique hheld hi hsame) hne
      · intro hnone
        cases hnone
    · rw [← h.live p]
      refine exists_congr fun i => and_iff_right_of_imp ?_
      rintro hi rfl
      rw [hheld] at hi
      exact hsame (some.inj hi ▸ rfl)

theorem Lawful.removePacket (h : Lawful q) (index : Nat) : Lawful (q.removePacket index) where
  anchored := by
    obtain ⟨first, hanchored⟩ := h.anchored
    exact anchored_removePacket hanchored index
  live := live_removePacket h index
  capacity := (countP_removePacket_le q index).trans h.capacity
  orders stored hmem hp :=
    h.orders stored ((shrunk_removePacket q index).mem stored hmem hp) hp
  distinct a ha hpa b hb hpb :=
    h.distinct a ((shrunk_removePacket q index).mem a ha hpa) hpa b
      ((shrunk_removePacket q index).mem b hb hpb) hpb

structure Culled (q q' : RtpPacketHistory β) : Prop where
  lawful : Lawful q → Lawful q'
  shrunk : Shrunk q q'

theorem Culled.refl (q : RtpPacketHistory β) : Culled q q := ⟨id, Shrunk.refl q⟩

theorem Culled.trans (h : Culled q q') (h' : Culled q' q'') : Culled q q'' :=
  ⟨fun hq => h'.lawful (h.lawful hq), h.shrunk.trans h'.shrunk⟩

theorem culled_removePacket (q : RtpPacketHistory β) (index : Nat) :
    Culled q (q.removePacket index) :=
  ⟨fun h => h.removePacket index, shrunk_removePacket q index⟩

theorem culled_cullLoop (now : Timestamp) (fuel : Nat) (q : RtpPacketHistory β) :
    Culled q (cullLoop now fuel q) := by
  fun_induction cullLoop now fuel q with
  | case1 q => exact Culled.refl q
  | case2 fuel q hempty => exact Culled.refl q
  | case3 fuel q front rest hslots hcull ih => exact (culled_removePacket q 0).trans ih
  | case4 fuel q front rest hslots hkeep => exact Culled.refl q

theorem culled_cullOldPackets (q : RtpPacketHistory β) (now : Timestamp) :
    Culled q (q.cullOldPackets now) :=
  culled_cullLoop now _ q

theorem length_removePacket_zero_lt (hne : q.packetHistory ≠ []) :
    (q.removePacket 0).packetHistory.length < q.packetHistory.length := by
  obtain ⟨front, rest, hslots⟩ := exists_cons_of_ne_nil hne
  rw [packetHistory_removePacket, hslots, vacate, modify_zero_cons, dropWhile_cons_of_pos
    rfl]
  exact Nat.lt_succ_of_le (dropWhile_sublist _).length_le

theorem length_cullLoop_lt (now : Timestamp) (fuel : Nat) (q : RtpPacketHistory β)
    (henough : q.packetHistory.length ≤ fuel) :
    (cullLoop now fuel q).packetHistory.length < kMaxCapacity := by
  fun_induction cullLoop now fuel q with
  | case1 q =>
    rw [Nat.le_zero.mp henough]
    decide
  | case2 fuel q hempty =>
    rw [hempty, length_nil]
    decide
  | case3 fuel q front rest hslots hcull ih =>
    apply ih
    have := length_removePacket_zero_lt (q := q) (by rw [hslots]; exact nofun)
    omega
  | case4 fuel q front rest hslots hkeep =>
    by_contra hfull
    apply hkeep
    rw [cullable, if_pos (Nat.not_lt.mp hfull)]

variable (q)

theorem culled_setRtt (now : Timestamp) (rtt : TimeDelta) : Culled q (q.setRtt now rtt) := by
  have hrtt : Culled q { q with rtt := rtt } :=
    ⟨fun h => { h with }, fun _ h _ => h, rfl, rfl⟩
  unfold setRtt
  dsimp only
  split
  · exact hrtt.trans (culled_cullOldPackets _ now)
  · exact hrtt

theorem culled_cullAcknowledgedPacket (s : BitVec 16) : Culled q (q.cullAcknowledgedPacket s) := by
  unfold cullAcknowledgedPacket
  dsimp only
  split
  · exact Culled.refl q
  · exact culled_removePacket q _

theorem culled_cullAcknowledgedPackets (numbers : List (BitVec 16)) :
    Culled q (q.cullAcknowledgedPackets numbers) := by
  induction numbers generalizing q with
  | nil => exact Culled.refl q
  | cons s numbers ih => exact (culled_cullAcknowledgedPacket q s).trans (ih _)

theorem anchored_nil (first : BitVec 16) : Anchored first ([] : List (StoredPacket β)) :=
  ⟨nofun, nofun⟩

theorem culled_clear : Culled q q.clear where
  lawful _ :=
    { anchored := ⟨0, anchored_nil 0⟩
      live p := by
        change (∃ i, held [] i = some p) ↔ live (q.log ++ [.cleared]) _ = _
        rw [live_append_cleared]
        simp [held]
      capacity := Nat.zero_le _
      orders := nofun
      distinct := nofun }
  shrunk := ⟨nofun, rfl, rfl⟩

theorem culled_removeDuplicate (s : BitVec 16) : Culled q (q.removeDuplicate s) := by
  unfold removeDuplicate
  split
  · exact Culled.refl q
  · exact culled_removePacket q _

variable {q}

theorem sequenceNumber_ne_of_held_removeDuplicate (h : Lawful q)
    (hheld : held (q.removeDuplicate s).packetHistory i = some p) : p.sequenceNumber ≠ s := by
  obtain ⟨first, hanchored⟩ := h.anchored
  rintro hs
  cases hfound : q.getStoredPacket s with
  | none =>
    rw [removeDuplicate, hfound] at hheld
    have := (getStoredPacket_eq_some hanchored).mpr ⟨p, hheld, hs⟩
    rw [hfound] at this
    cases this
  | some index =>
    rw [removeDuplicate, hfound] at hheld
    obtain ⟨j, hne, hj⟩ := exists_held_removePacket.mp ⟨i, hheld⟩
    have := (getStoredPacket_eq_some hanchored).mpr ⟨p, hj, hs⟩
    rw [hfound] at this
    exact hne (some.inj this)

/-- The packets of a history and a new number lie in one window of half the numbers. -/
def FitsWindow (s : BitVec 16) : Prop :=
  ∃ w : BitVec 16, (s - w).toNat < 2 ^ 15 ∧
    ∀ stored ∈ slots, ∀ p ∈ stored.packet, (p.sequenceNumber - w).toNat < 2 ^ 15

variable {slots}

theorem exists_anchor (h : Anchored first₀ q.packetHistory) {w : BitVec 16}
    (hs : (s - w).toNat < 2 ^ 15)
    (hslots : ∀ stored ∈ q.packetHistory, ∀ p ∈ stored.packet, (p.sequenceNumber - w).toNat < 2 ^ 15) :
    ∃ first, Anchored first q.packetHistory ∧ (first - w).toNat < 2 ^ 15 ∧
      q.getPacketIndex s = ((s - w).toNat : Int) - (first - w).toNat ∧
      (q.packetHistory = [] → first = s) := by
  cases hq : q.packetHistory with
  | nil =>
    refine ⟨s, anchored_nil s, hs, ?_, fun _ => rfl⟩
    rw [getPacketIndex, hq, Int.sub_self]
  | cons front rest =>
    rw [← hq]
    have hne : q.packetHistory ≠ [] := by
      rw [hq]
      exact nofun
    refine ⟨first₀, h, ?_, ?_, fun hnil => absurd hnil hne⟩
    all_goals
      have hfirst : (first₀ - w).toNat < 2 ^ 15 := by
        have hseq := firstSeq_eq h hq
        obtain ⟨p, hp⟩ : ∃ p, front.packet = some p :=
          ne_none_iff_exists'.mp (h.front front (by rw [hq]; rfl))
        rw [hp] at hseq
        have := hslots front (hq ▸ mem_cons_self) p hp
        exact hseq ▸ this
    · exact hfirst
    · rw [getPacketIndex_eq h hne]
      have hdist : (s - first₀).toNat =
          (65536 - (first₀ - w).toNat + (s - w).toNat) % 65536 := by bv_omega
      split_ifs <;> omega

theorem countP_set_le (hindex : index < slots.length) (stored : StoredPacket β) :
    (slots.set index stored).countP (fun stored => stored.packet.isSome) ≤
      slots.countP (fun stored => stored.packet.isSome) + 1 := by
  rw [countP_set hindex]
  split <;> split <;> omega

theorem mem_expand (hmem : stored ∈ (expand slots packetIndex).1)
    (hp : stored.packet ≠ none) : stored ∈ slots := by
  simp only [expand, mem_append, mem_replicate] at hmem
  rcases hmem with (⟨-, rfl⟩ | hmem) | ⟨-, rfl⟩
  · exact absurd rfl hp
  · exact hmem
  · exact absurd rfl hp

section

variable (slots : List (StoredPacket β)) (packetIndex : Int)

theorem countP_expand : (expand slots packetIndex).1.countP (fun stored => stored.packet.isSome) =
      slots.countP fun stored => stored.packet.isSome := by
  simp [expand, countP_replicate, StoredPacket.empty]

theorem lt_length_expand : (expand slots packetIndex).2 < (expand slots packetIndex).1.length := by
  simp only [expand, length_append, length_replicate]
  omega

theorem held_expand (i : Nat) : held (expand slots packetIndex).1 i =
      if i < (-packetIndex).toNat then none else held slots (i - (-packetIndex).toNat) := by
  simp only [expand]
  rw [held_append_replicate, held_replicate_append]

end

theorem exists_held_expand :
    (∃ i, held (expand slots packetIndex).1 i = some p) ↔ ∃ i, held slots i = some p := by
  constructor
  · rintro ⟨i, hi⟩
    rw [held_expand] at hi
    split at hi
    · cases hi
    · exact ⟨_, hi⟩
  · rintro ⟨i, hi⟩
    refine ⟨i + (-packetIndex).toNat, ?_⟩
    rw [held_expand, if_neg (by omega), Nat.add_sub_cancel, hi]

abbrev expanded (q : RtpPacketHistory β) (s : BitVec 16) := expand q.packetHistory (q.getPacketIndex s)

theorem packetHistory_store (q : RtpPacketHistory β) (packet : RtpPacketToSend β)
    (sendTime : Timestamp) :
    (q.store packet sendTime).packetHistory =
      (q.expanded packet.sequenceNumber).1.set (q.expanded packet.sequenceNumber).2
        (.ofPacket packet sendTime q.packetsInserted) := rfl

theorem indexed_expand {w : BitVec 16} (h : Anchored first q.packetHistory)
    (hs : (s - w).toNat < 2 ^ 15) (hfirst : (first - w).toNat < 2 ^ 15)
    (hslots : ∀ stored ∈ q.packetHistory, ∀ p ∈ stored.packet, (p.sequenceNumber - w).toNat < 2 ^ 15)
    (hindex : q.getPacketIndex s = ((s - w).toNat : Int) - (first - w).toNat) :
    ∃ base, Indexed base (q.expanded s).1 ∧ (s - base).toNat = (q.expanded s).2 := by
  refine ⟨first - BitVec.ofNat 16 (-q.getPacketIndex s).toNat, ?_, ?_⟩
  · apply Indexed.expandBack
    apply h.indexed.expandFront
    intro i p hp
    obtain ⟨hat, hlt⟩ := h.indexed i p hp
    obtain ⟨stored, hmem, hpacket⟩ := exists_held_iff.mp ⟨i, hp⟩
    have hwindow := hslots stored hmem p hpacket
    -- the packet is as far into the window as its slot is behind the first one
    have hplace : (p.sequenceNumber - w).toNat =
        ((p.sequenceNumber - first).toNat + (first - w).toNat) % 65536 := by bv_omega
    omega
  · change _ = (q.getPacketIndex s).toNat
    have hplace : (s - (first - BitVec.ofNat 16 (-q.getPacketIndex s).toNat)).toNat =
        (65536 - (first - w).toNat + (s - w).toNat + (-q.getPacketIndex s).toNat) % 65536 := by
      bv_omega
    omega

theorem exists_held_store
    (hvacant : held (q.expanded packet.sequenceNumber).1 (q.expanded packet.sequenceNumber).2 = none) :
    (∃ i, held (q.store packet sendTime).packetHistory i = some p) ↔
      packet = p ∨ ∃ i, held q.packetHistory i = some p := by
  rw [packetHistory_store]
  constructor
  · rintro ⟨i, hi⟩
    rw [held_set (lt_length_expand _ _)] at hi
    split at hi
    · exact .inl (some.inj hi)
    · exact .inr (exists_held_expand.mp ⟨i, hi⟩)
  · rintro (rfl | hold)
    · refine ⟨(q.expanded packet.sequenceNumber).2, ?_⟩
      rw [held_set (lt_length_expand _ _), if_pos rfl]
      rfl
    · obtain ⟨i, hi⟩ := exists_held_expand.mpr hold
      refine ⟨i, ?_⟩
      rw [held_set (lt_length_expand _ _), if_neg, hi]
      rintro rfl
      rw [hvacant] at hi
      cases hi

theorem mem_store (hmem : stored ∈ (q.store packet sendTime).packetHistory)
    (hp : stored.packet ≠ none) :
    stored ∈ q.packetHistory ∨ stored = .ofPacket packet sendTime q.packetsInserted := by
  rcases mem_or_eq_of_mem_set hmem with hold | hnew
  · exact .inl (mem_expand hold hp)
  · exact .inr hnew

theorem anchored_store (sendTime : Timestamp) (h : Anchored first₀ q.packetHistory)
    (hwindow : FitsWindow q.packetHistory packet.sequenceNumber) :
    ∃ base, Anchored base (q.store packet sendTime).packetHistory ∧
      Indexed base (q.expanded packet.sequenceNumber).1 ∧
      (packet.sequenceNumber - base).toNat = (q.expanded packet.sequenceNumber).2 := by
  obtain ⟨w, hs, hslots⟩ := hwindow
  obtain ⟨first, hanchored, hfirst, hindex, hempty⟩ := exists_anchor h hs hslots
  obtain ⟨base, hindexed, hat⟩ := indexed_expand hanchored hs hfirst hslots hindex
  have hbound : (q.expanded packet.sequenceNumber).2 < 32768 := by
    change (q.getPacketIndex packet.sequenceNumber).toNat < 32768
    omega
  refine ⟨base, ⟨?_, ?_⟩, hindexed, hat⟩
  · exact hindexed.set (lt_length_expand _ _) rfl hat hbound
  · intro a ha
    rw [packetHistory_store, head?_eq_getElem?, getElem?_set] at ha
    by_cases hzero : (q.expanded packet.sequenceNumber).2 = 0
    · rw [if_pos hzero, if_pos (lt_length_expand _ _)] at ha
      rw [← some.inj ha]
      exact nofun
    · have hpositive : 0 < q.getPacketIndex packet.sequenceNumber := by
        change ¬ (q.getPacketIndex packet.sequenceNumber).toNat = 0 at hzero
        omega
      have hne : q.packetHistory ≠ [] := by
        intro hnil
        rw [hempty hnil] at hindex
        omega
      have hhead : (q.expanded packet.sequenceNumber).1.head? = q.packetHistory.head? := by
        have hk : (-q.getPacketIndex packet.sequenceNumber).toNat = 0 := by omega
        simp only [expand, hk]
        exact head?_append_of_ne_nil _ hne
      rw [if_neg hzero, ← head?_eq_getElem?, hhead] at ha
      exact hanchored.front a ha

theorem Lawful.store (h : Lawful q) (sendTime : Timestamp)
    (hfresh : ∀ i p, held q.packetHistory i = some p → p.sequenceNumber ≠ packet.sequenceNumber)
    (hwindow : FitsWindow q.packetHistory packet.sequenceNumber)
    (hroom : q.packetHistory.length < kMaxCapacity) : Lawful (q.store packet sendTime) := by
  obtain ⟨first, hanchored⟩ := h.anchored
  obtain ⟨base, hstored, hindexed, hat⟩ := anchored_store sendTime hanchored hwindow
  have hvacant : held (q.expanded packet.sequenceNumber).1
      (q.expanded packet.sequenceNumber).2 = none := by
    by_contra hheld
    obtain ⟨p, hp⟩ := ne_none_iff_exists'.mp hheld
    obtain ⟨i, hi⟩ := exists_held_expand.mp ⟨_, hp⟩
    have hplace := (hindexed _ p hp).1
    have hsame : p.sequenceNumber = packet.sequenceNumber := by bv_omega
    exact hfresh i p hi hsame
  exact
    { anchored := ⟨base, hstored⟩
      live := by
        intro p
        rw [exists_held_store hvacant]
        change _ ↔ Rtp.live (q.log ++ [.put packet]) _ = _
        rw [live_append_put, h.live p]
        split_ifs with hsame
        · constructor
          · rintro (rfl | hlive)
            · rfl
            · obtain ⟨i, hi⟩ := (h.live p).mpr hlive
              exact absurd hsame.symm (hfresh i p hi)
          · intro heq
            exact .inl (some.inj heq)
        · exact or_iff_right fun heq => hsame (heq ▸ rfl)
      capacity := by
        refine (countP_set_le (lt_length_expand _ _) _).trans ?_
        rw [countP_expand]
        exact Nat.lt_of_le_of_lt countP_le_length hroom
      orders := by
        intro stored hmem hp
        rcases mem_store hmem hp with hold | rfl
        · exact Nat.lt_succ_of_lt (h.orders stored hold hp)
        · exact Nat.lt_succ_self _
      distinct := by
        intro a ha hpa b hb hpb horder
        rcases mem_store ha hpa with hold | rfl
        · rcases mem_store hb hpb with hold' | rfl
          · exact h.distinct a hold hpa b hold' hpb horder
          · exact absurd horder (Nat.ne_of_lt (h.orders a hold hpa))
        · rcases mem_store hb hpb with hold' | rfl
          · exact absurd horder.symm (Nat.ne_of_lt (h.orders b hold' hpb))
          · rfl }

theorem FitsWindow.mono {slots' : List (StoredPacket β)} (h : FitsWindow slots s)
    (hsub : ∀ stored ∈ slots', stored.packet ≠ none → stored ∈ slots) : FitsWindow slots' s := by
  obtain ⟨w, hs, hslots⟩ := h
  refine ⟨w, hs, fun stored hmem p hp => ?_⟩
  exact hslots stored (hsub stored hmem (by rw [hp]; exact nofun)) p hp

theorem length_removeDuplicate_le (q : RtpPacketHistory β) (s : BitVec 16) :
    (q.removeDuplicate s).packetHistory.length ≤ q.packetHistory.length := by
  unfold removeDuplicate
  split
  · exact le_rfl
  · rename_i index _
    have hvacate : (vacate q.packetHistory index).length = q.packetHistory.length :=
      length_modify _ _ _
    rw [packetHistory_removePacket, ← hvacate]
    split
    · exact (dropWhile_sublist _).length_le
    · exact le_rfl

/-- The history without its old packets and without the duplicate of a number. -/
theorem culled_prepared (q : RtpPacketHistory β) (now : Timestamp) (s : BitVec 16) :
    Culled q (q.prepared now s) :=
  (culled_cullOldPackets q now).trans (culled_removeDuplicate _ s)

theorem Lawful.putRtpPacket (h : Lawful q) (sendTime : Timestamp) (hwindow : q.mode ≠ .disabled →
      FitsWindow (q.cullOldPackets now).packetHistory packet.sequenceNumber) :
    Lawful (q.putRtpPacket now packet sendTime) := by
  rw [RtpPacketHistory.putRtpPacket]
  split
  · exact h
  · rename_i hmode
    have hculled := (culled_cullOldPackets q now).lawful h
    refine ((culled_prepared q now packet.sequenceNumber).lawful h).store sendTime ?_ ?_ ?_
    · intro i p hheld
      exact sequenceNumber_ne_of_held_removeDuplicate hculled hheld
    · exact (hwindow hmode).mono (culled_removeDuplicate _ _).shrunk.mem
    · exact lt_of_le_of_lt (length_removeDuplicate_le _ _)
        (length_cullLoop_lt now _ q le_rfl)

/-- A change to a slot that keeps its packet and its order of insertion. -/
structure Keeps (f : StoredPacket β → StoredPacket β) : Prop where
  packet : ∀ a, (f a).packet = a.packet
  insertOrder : ∀ a, (f a).insertOrder = a.insertOrder

theorem mem_modify (hmem : stored ∈ slots.modify index f) :
    (∃ a, slots[index]? = some a ∧ stored = f a) ∨ ∃ i, index ≠ i ∧ slots[i]? = some stored := by
  obtain ⟨i, hat⟩ := mem_iff_getElem?.mp hmem
  rw [getElem?_modify] at hat
  obtain ⟨a, ha, heq⟩ := map_eq_some_iff.mp hat
  split at heq
  · rename_i hi
    exact .inl ⟨a, hi ▸ ha, heq.symm⟩
  · rename_i hi
    exact .inr ⟨i, hi, heq ▸ ha⟩

theorem Keeps.mem (hf : Keeps f) (hmem : stored ∈ slots.modify index f) :
    ∃ a ∈ slots, stored.packet = a.packet ∧ stored.insertOrder = a.insertOrder := by
  rcases mem_modify hmem with ⟨a, ha, rfl⟩ | ⟨i, -, ha⟩
  · exact ⟨a, mem_of_getElem? ha, hf.packet a, hf.insertOrder a⟩
  · exact ⟨stored, mem_of_getElem? ha, rfl, rfl⟩

theorem Keeps.map_packet (hf : Keeps f) (slots : List (StoredPacket β)) (index : Nat) :
    (slots.modify index f).map StoredPacket.packet = slots.map StoredPacket.packet := by
  apply ext_getElem?
  intro i
  rw [getElem?_map, getElem?_map, getElem?_modify]
  cases slots[i]? with
  | none => rfl
  | some a =>
    change some (StoredPacket.packet (if index = i then f a else a)) = some a.packet
    split
    · rw [hf.packet]
    · rfl

theorem Lawful.modify (h : Lawful q) (hf : Keeps f) (index : Nat) :
    Lawful { q with packetHistory := q.packetHistory.modify index f } where
  anchored := by
    obtain ⟨first, hindexed, hfront⟩ := h.anchored
    refine ⟨first, ?_, ?_⟩
    · exact hindexed.mono fun i p hp => by rwa [held_modify_of_packet hf.packet] at hp
    · intro a ha
      have hpackets := congrArg head? (hf.map_packet q.packetHistory index)
      rw [head?_map, head?_map] at hpackets
      rw [mem_def.mp ha] at hpackets
      obtain ⟨b, hb, hsame⟩ := map_eq_some_iff.mp hpackets.symm
      rw [← hsame]
      exact hfront b hb
  live p := by
    rw [← h.live p]
    refine exists_congr fun i => ?_
    rw [held_modify_of_packet hf.packet]
  capacity := by
    have hcount : ∀ slots : List (StoredPacket β),
        slots.countP (fun stored => stored.packet.isSome) =
          (slots.map StoredPacket.packet).countP isSome := by
      intro slots
      rw [countP_map]
      rfl
    have hcapacity := h.capacity
    rw [hcount] at hcapacity ⊢
    rwa [hf.map_packet]
  orders stored hmem hp := by
    obtain ⟨a, ha, hpacket, horder⟩ := hf.mem hmem
    rw [horder]
    exact h.orders a ha (hpacket ▸ hp)
  distinct a ha hpa b hb hpb hsame := by
    obtain ⟨a', ha', hpacket, horder⟩ := hf.mem ha
    obtain ⟨b', hb', hpacket', horder'⟩ := hf.mem hb
    rw [hpacket, hpacket']
    refine h.distinct a' ha' (hpacket ▸ hpa) b' hb' (hpacket' ▸ hpb) ?_
    rw [← horder, ← horder', hsame]

theorem available_spec (h : q.available now s = some (index, stored, packet)) :
    q.getStoredPacket s = some index ∧ q.packetHistory[index]? = some stored ∧
      stored.packet = some packet ∧ stored.pendingTransmission = false := by
  unfold available at h
  split at h
  · cases h
  · obtain ⟨i, hi, h⟩ := bind_eq_some_iff.mp h
    obtain ⟨a, ha, h⟩ := bind_eq_some_iff.mp h
    obtain ⟨p, hp, h⟩ := bind_eq_some_iff.mp h
    split at h
    · cases h
    · rename_i hpending
      split at h
      · cases h
      · cases h
        exact ⟨hi, ha, hp, Bool.not_eq_true _ ▸ hpending⟩

theorem getPacketAndMarkAsPending_cases (q : RtpPacketHistory β) (now : Timestamp) (s : BitVec 16)
    (encapsulate : RtpPacketToSend β → Option (RtpPacketToSend β)) :
    q.getPacketAndMarkAsPending now s encapsulate = (q, none) ∨
      ∃ index stored packet encapsulated, q.available now s = some (index, stored, packet) ∧
        q.getPacketAndMarkAsPending now s encapsulate =
          ({ q with packetHistory := q.packetHistory.modify index setPending },
            some encapsulated) := by
  unfold getPacketAndMarkAsPending
  split
  · exact .inl rfl
  · rename_i index stored packet havailable
    split
    · exact .inl rfl
    · rename_i encapsulated _
      exact .inr ⟨index, stored, packet, encapsulated, havailable, rfl⟩

theorem markPacketAsSent_cases (q : RtpPacketHistory β) (now : Timestamp) (s : BitVec 16) :
    q.markPacketAsSent now s = q ∨ ∃ index, q.getStoredPacket s = some index ∧
        q.markPacketAsSent now s =
          { q with packetHistory := q.packetHistory.modify index (setSent now) } := by
  unfold markPacketAsSent
  split
  · exact .inl rfl
  · split
    · exact .inl rfl
    · rename_i index hfound
      exact .inr ⟨index, hfound, rfl⟩

/-- Every packet put into an enabled history satisfies `P`, which speaks of the history at that
time. -/
def EachPut (P : RtpPacketHistory β → Timestamp → RtpPacketToSend β → Prop) :
    RtpPacketHistory β → List (Call β) → Prop
  | _, [] => True
  | q, c :: calls =>
    (∀ packet sendTime, c.op = .putRtpPacket packet sendTime → q.mode ≠ .disabled →
      P q c.now packet) ∧ EachPut P (q.perform c).1 calls

/-- The numbers left in the history when a packet is stored and its own fit in a window. -/
def InWindow (q : RtpPacketHistory β) (now : Timestamp) (packet : RtpPacketToSend β) : Prop :=
  FitsWindow (q.cullOldPackets now).packetHistory packet.sequenceNumber

theorem eachPut_append {P : RtpPacketHistory β → Timestamp → RtpPacketToSend β → Prop}
    {more : List (Call β)} (h : EachPut P q (calls ++ more)) :
    EachPut P q calls ∧ EachPut P (q.after calls) more := by
  induction calls generalizing q with
  | nil => exact ⟨trivial, h⟩
  | cons c calls ih =>
    obtain ⟨hc, hrest⟩ := h
    obtain ⟨hcalls, hmore⟩ := ih hrest
    exact ⟨⟨hc, hcalls⟩, hmore⟩

theorem lawful_initial (paddingMode : PaddingMode) (mode : StorageMode) (numberToStore : Nat) :
    Lawful (initial paddingMode mode numberToStore : RtpPacketHistory β) where
  anchored := ⟨0, anchored_nil 0⟩
  live p := by
    change (∃ i, held [] i = some p) ↔ none = some p
    simp [held]
  capacity := Nat.zero_le _
  orders := nofun
  distinct := nofun

theorem Lawful.perform (h : Lawful q) {c : Call β}
    (hput : ∀ packet sendTime, c.op = .putRtpPacket packet sendTime → q.mode ≠ .disabled →
      InWindow q c.now packet) :
    Lawful (q.perform c).1 := by
  obtain ⟨now, op⟩ := c
  cases op with
  | putRtpPacket packet sendTime => exact h.putRtpPacket sendTime (hput packet sendTime rfl)
  | getPacketAndMarkAsPending s encapsulate =>
    rcases getPacketAndMarkAsPending_cases q now s encapsulate with
      heq | ⟨index, stored, packet, encapsulated, -, heq⟩
    · change Lawful (q.getPacketAndMarkAsPending now s encapsulate).1
      rw [heq]
      exact h
    · change Lawful (q.getPacketAndMarkAsPending now s encapsulate).1
      rw [heq]
      exact h.modify (f := setPending) ⟨fun _ => rfl, fun _ => rfl⟩ index
  | markPacketAsSent s =>
    change Lawful (q.markPacketAsSent now s)
    rcases markPacketAsSent_cases q now s with heq | ⟨index, -, heq⟩
    · rw [heq]
      exact h
    · rw [heq]
      exact h.modify (f := setSent now) ⟨fun _ => rfl, fun _ => rfl⟩ index
  | cullAcknowledgedPackets numbers => exact (culled_cullAcknowledgedPackets q numbers).lawful h
  | setRtt rtt => exact (culled_setRtt q now rtt).lawful h
  | clear => exact (culled_clear q).lawful h

theorem Lawful.after (h : Lawful q) (hputs : EachPut InWindow q calls) : Lawful (q.after calls) := by
  induction calls generalizing q with
  | nil => exact h
  | cons c calls ih => exact ih (h.perform hputs.1) hputs.2

/-- The packet inserted as number `order` is gone, or it has the number `s` and is pending. -/
structure Pending (order : Nat) (s : BitVec 16) (q : RtpPacketHistory β) : Prop where
  inserted : order < q.packetsInserted
  pending : ∀ stored ∈ q.packetHistory, stored.packet ≠ none → stored.insertOrder = order →
    stored.pendingTransmission = true ∧ ∀ p ∈ stored.packet, p.sequenceNumber = s

section

variable (h : Pending order s q)
include h

theorem Pending.shrunk (hshrunk : Shrunk q q') : Pending order s q' where
  inserted := hshrunk.packetsInserted ▸ h.inserted
  pending stored hmem hp := h.pending stored (hshrunk.mem stored hmem hp) hp

theorem Pending.store (packet : RtpPacketToSend β) (sendTime : Timestamp) :
    Pending order s (q.store packet sendTime) where
  inserted := Nat.lt_succ_of_lt h.inserted
  pending stored hmem hp horder := by
    rcases mem_store hmem hp with hold | rfl
    · exact h.pending stored hold hp horder
    · exact absurd horder.symm (Nat.ne_of_lt h.inserted)

theorem Pending.putRtpPacket (now : Timestamp) (packet : RtpPacketToSend β) (sendTime : Timestamp) :
    Pending order s (q.putRtpPacket now packet sendTime) := by
  rw [RtpPacketHistory.putRtpPacket]
  split
  · exact h
  · exact (h.shrunk (culled_prepared q now packet.sequenceNumber).shrunk).store packet sendTime

theorem Pending.setPending (index : Nat) :
    Pending order s { q with packetHistory := q.packetHistory.modify index setPending } where
  inserted := h.inserted
  pending stored hmem hp horder := by
    rcases mem_modify hmem with ⟨a, ha, rfl⟩ | ⟨i, -, ha⟩
    · exact ⟨rfl, (h.pending a (mem_of_getElem? ha) hp horder).2⟩
    · exact h.pending stored (mem_of_getElem? ha) hp horder

theorem Pending.setSent (hlawful : Lawful q) {s' : BitVec 16} (hne : s' ≠ s)
    (hfound : q.getStoredPacket s' = some index) (now : Timestamp) :
    Pending order s { q with packetHistory := q.packetHistory.modify index (setSent now) } where
  inserted := h.inserted
  pending stored hmem hp horder := by
    obtain ⟨first, hanchored⟩ := hlawful.anchored
    obtain ⟨p, hheld, hnumber⟩ := (getStoredPacket_eq_some hanchored).mp hfound
    rcases mem_modify hmem with ⟨a, ha, rfl⟩ | ⟨i, -, ha⟩
    · obtain ⟨b, hb, hpacket⟩ := held_eq_some.mp hheld
      rw [ha] at hb
      cases hb
      have := (h.pending a (mem_of_getElem? ha) hp horder).2 p hpacket
      exact absurd (hnumber.symm.trans this) hne
    · exact h.pending stored (mem_of_getElem? ha) hp horder

theorem Pending.perform (hlawful : Lawful q) {c : Call β} (hop : c.op ≠ .markPacketAsSent s) :
    Pending order s (q.perform c).1 := by
  obtain ⟨now, op⟩ := c
  cases op with
  | putRtpPacket packet sendTime => exact h.putRtpPacket now packet sendTime
  | getPacketAndMarkAsPending s' encapsulate =>
    change Pending order s (q.getPacketAndMarkAsPending now s' encapsulate).1
    rcases getPacketAndMarkAsPending_cases q now s' encapsulate with
      heq | ⟨index, stored, packet, encapsulated, -, heq⟩
    · rw [heq]
      exact h
    · rw [heq]
      exact h.setPending index
  | markPacketAsSent s' =>
    change Pending order s (q.markPacketAsSent now s')
    rcases markPacketAsSent_cases q now s' with heq | ⟨index, hfound, heq⟩
    · rw [heq]
      exact h
    · rw [heq]
      exact h.setSent hlawful (fun hs => hop (hs ▸ rfl)) hfound now
  | cullAcknowledgedPackets numbers => exact h.shrunk (culled_cullAcknowledgedPackets q numbers).shrunk
  | setRtt rtt => exact h.shrunk (culled_setRtt q now rtt).shrunk
  | clear => exact h.shrunk (culled_clear q).shrunk

theorem Pending.after (hlawful : Lawful q) (hputs : EachPut InWindow q calls)
    (hops : ∀ c ∈ calls, c.op ≠ .markPacketAsSent s) : Pending order s (q.after calls) := by
  induction calls generalizing q with
  | nil => exact h
  | cons c calls ih =>
    have hstep := h.perform hlawful (hops c mem_cons_self)
    exact ih hstep (hlawful.perform hputs.1) hputs.2 (forall_mem_cons.mp hops).2

end

/-- The stored packet with a sequence number, as `GetStoredPacket` points to it. -/
def storedPacket (q : RtpPacketHistory β) (s : BitVec 16) : Option (StoredPacket β) :=
  (q.getStoredPacket s).bind fun index => q.packetHistory[index]?

/-- The stored packet whose copy a call returned is pending. -/
theorem pending_of_returned (h : Lawful q)
    (hreturned : (q.getPacketAndMarkAsPending now s encapsulate).2 ≠ none) :
    ∃ stored, q.storedPacket s = some stored ∧ stored.pendingTransmission = false ∧
      stored ∈ q.packetHistory ∧ stored.packet ≠ none ∧
      Pending stored.insertOrder s (q.getPacketAndMarkAsPending now s encapsulate).1 := by
  rcases getPacketAndMarkAsPending_cases q now s encapsulate with
    heq | ⟨index, stored, packet, encapsulated, havailable, heq⟩
  · rw [heq] at hreturned
    exact absurd rfl hreturned
  · obtain ⟨hfound, hat, hpacket, hpending⟩ := available_spec havailable
    have hmem := mem_of_getElem? hat
    have hsome : stored.packet ≠ none := by
      rw [hpacket]
      exact nofun
    obtain ⟨first, hanchored⟩ := h.anchored
    have hheld := held_eq_some.mpr ⟨stored, hat, hpacket⟩
    have hnumber : packet.sequenceNumber = s := by
      obtain ⟨p, hp, hs⟩ := (getStoredPacket_eq_some hanchored).mp hfound
      rw [hheld] at hp
      exact some.inj hp ▸ hs
    refine ⟨stored, ?_, hpending, hmem, hsome, ?_⟩
    · rw [storedPacket, hfound]
      exact hat
    · rw [heq]
      refine ⟨h.orders stored hmem hsome, ?_⟩
      intro a ha hpa horder
      rcases mem_modify ha with ⟨b, hb, rfl⟩ | ⟨i, hi, hb⟩
      · rw [hat] at hb
        cases hb
        refine ⟨rfl, ?_⟩
        intro p hp
        change stored.packet = some p at hp
        rw [hpacket] at hp
        exact some.inj hp ▸ hnumber
      · -- another slot holds another packet, which was inserted at another time
        have hsame := (h.distinct a (mem_of_getElem? hb) hpa stored hmem hsome horder).trans hpacket
        exact absurd (hanchored.indexed.unique hheld (held_eq_some.mpr ⟨a, hb, hsame⟩) rfl) hi

theorem Lawful.lookup (h : Lawful q) (s : BitVec 16) :
    (q.storedPacket s).bind StoredPacket.packet = Rtp.live q.log s := by
  obtain ⟨first, hanchored⟩ := h.anchored
  have hlookup : ∀ p, (q.storedPacket s).bind StoredPacket.packet = some p ↔
      (∃ i, held q.packetHistory i = some p) ∧ p.sequenceNumber = s := by
    intro p
    rw [storedPacket, Option.bind_assoc]
    constructor
    · intro hp
      obtain ⟨i, hi, hheld⟩ := Option.bind_eq_some_iff.mp hp
      obtain ⟨p', hp', hs⟩ := (getStoredPacket_eq_some hanchored).mp hi
      have hsame : p' = p := Option.some.inj (hp'.symm.trans hheld)
      exact ⟨⟨i, hheld⟩, hsame ▸ hs⟩
    · rintro ⟨⟨i, hi⟩, hs⟩
      rw [(getStoredPacket_eq_some hanchored).mpr ⟨p, hi, hs⟩]
      exact hi
  apply Option.ext
  intro p
  rw [hlookup, h.live p]
  constructor
  · rintro ⟨hlive, rfl⟩
    exact hlive
  · intro hlive
    have hs := sequenceNumber_of_live hlive
    exact ⟨hs ▸ hlive, hs⟩

/-- If the stored numbers stay in a window of half the numbers, the history starts with a packet,
every packet stands at its distance from the first one, lookups find what was put and not removed,
and a packet is handed out again only after it was marked as sent. -/
theorem indexLaw (paddingMode : PaddingMode) (mode : StorageMode) (numberToStore : Nat)
    (calls : List (Call β)) (hputs : EachPut InWindow (initial paddingMode mode numberToStore) calls) :
    let q := (initial paddingMode mode numberToStore).after calls
    (∀ front ∈ q.packetHistory.head?, front.packet ≠ none) ∧
    (∀ front ∈ q.packetHistory.head?, ∀ p₀ ∈ front.packet, ∀ i p, held q.packetHistory i = some p →
      p.sequenceNumber = p₀.sequenceNumber + BitVec.ofNat 16 i) ∧
    (∀ s, (q.storedPacket s).bind StoredPacket.packet = live q.log s) ∧
    q.packetHistory.countP (fun stored => stored.packet.isSome) ≤ kMaxCapacity ∧
    ∀ before between after s now now' encapsulate encapsulate',
      calls = before ++ ⟨now, .getPacketAndMarkAsPending s encapsulate⟩ ::
        (between ++ ⟨now', .getPacketAndMarkAsPending s encapsulate'⟩ :: after) →
      let q₁ := (initial paddingMode mode numberToStore).after before
      let q₂ := (q₁.getPacketAndMarkAsPending now s encapsulate).1.after between
      (q₁.getPacketAndMarkAsPending now s encapsulate).2 ≠ none →
      (q₂.getPacketAndMarkAsPending now' s encapsulate').2 ≠ none →
      (q₁.storedPacket s).map StoredPacket.insertOrder =
        (q₂.storedPacket s).map StoredPacket.insertOrder →
      ∃ c ∈ between, c.op = .markPacketAsSent s := by
  have hinitial := lawful_initial (β := β) paddingMode mode numberToStore
  have hlawful := hinitial.after hputs
  obtain ⟨first, hanchored⟩ := hlawful.anchored
  refine ⟨hanchored.front, ?_, hlawful.lookup, hlawful.capacity, ?_⟩
  · intro front hfront p₀ hp₀ i p hp
    have hzero : held ((initial paddingMode mode numberToStore).after calls).packetHistory 0 =
        some p₀ := by
      rw [held, ← head?_eq_getElem?, hfront]
      exact hp₀
    have hfirst := (hanchored.indexed 0 p₀ hzero).1
    obtain ⟨hat, hlt⟩ := hanchored.indexed i p hp
    bv_omega
  · rintro before between after s now now' encapsulate encapsulate' rfl q₁ q₂ hfirst hsecond hsame
    obtain ⟨hbefore, -, hrest⟩ := eachPut_append hputs
    have hlawful₁ := hinitial.after hbefore
    have hpended := hlawful₁.perform (c := ⟨now, .getPacketAndMarkAsPending s encapsulate⟩) nofun
    have hbetween := (eachPut_append hrest).1
    -- the first call leaves the packet pending, and only `MarkPacketAsSent` ends that
    obtain ⟨stored, hstored, -, -, -, hpending⟩ := pending_of_returned hlawful₁ hfirst
    by_contra hnone
    have hlater := hpending.after hpended hbetween fun c hc hop => hnone ⟨c, hc, hop⟩
    obtain ⟨stored', hstored', hfree, hmem, hpacket, -⟩ :=
      pending_of_returned (q := q₂) (hpended.after hbetween) hsecond
    rw [hstored, hstored'] at hsame
    have hbusy := (hlater.pending stored' hmem hpacket (Option.some.inj hsame).symm).1
    rw [hfree] at hbusy
    cases hbusy

def bare (sequenceNumber : BitVec 16) : RtpPacketToSend Unit := ⟨sequenceNumber, 0, ()⟩

/-- Two packets around the wrap, the second of which is asked for, sent, and asked for again. -/
def wrappingCalls : List (Call Unit) :=
  [⟨.zero, .putRtpPacket (bare 65535) .zero⟩, ⟨.zero, .putRtpPacket (bare 1) .zero⟩,
    ⟨.zero, .getPacketAndMarkAsPending 1 some⟩, ⟨.zero, .markPacketAsSent 1⟩]

theorem indexLaw_wrappingCalls : let q := (initial .default .storeAndCull 600).after wrappingCalls
    (q.storedPacket 1).bind StoredPacket.packet = some (bare 1) ∧
      (q.storedPacket 0).bind StoredPacket.packet = none := by
  have hputs : EachPut InWindow (initial .default .storeAndCull 600) wrappingCalls := by
    refine ⟨?_, ?_, ?_, ?_, trivial⟩
    · rintro packet sendTime hop -
      cases hop
      exact ⟨65535, by decide, nofun⟩
    · rintro packet sendTime hop -
      cases hop
      exact ⟨65535, by decide, by decide +kernel⟩
    · rintro packet sendTime hop -
      cases hop
    · rintro packet sendTime hop -
      cases hop
  have hlookup := (indexLaw .default .storeAndCull 600 wrappingCalls hputs).2.2.1
  constructor
  · rw [hlookup]
    decide +kernel
  · rw [hlookup]
    decide +kernel

/-- The number of a packet is within half the numbers of each number in the history, on either side of
it. -/
def WithinHalf (q : RtpPacketHistory β) (_now : Timestamp) (packet : RtpPacketToSend β) : Prop :=
  ∀ stored ∈ q.packetHistory, ∀ p ∈ stored.packet,
    (packet.sequenceNumber - p.sequenceNumber).toNat ≤ 2 ^ 15 - 1 ∨
      (p.sequenceNumber - packet.sequenceNumber).toNat ≤ 2 ^ 15 - 1

/-- Three packets: each number is within half the numbers of the others, but together they go
around. -/
def roundCalls : List (Call Unit) :=
  [⟨.zero, .putRtpPacket (bare 0) .zero⟩, ⟨.zero, .putRtpPacket (bare 9000) .zero⟩,
    ⟨.zero, .putRtpPacket (bare 35536) .zero⟩]

/-- Any two numbers are within half the numbers, and a packet that was put is not found. -/
theorem lookup_fails_roundCalls :
    EachPut WithinHalf (initial .default .storeAndCull 600) roundCalls ∧
      let q := (initial .default .storeAndCull 600).after roundCalls
      live q.log 9000 = some (bare 9000) ∧ q.storedPacket 9000 = none := by
  refine ⟨⟨?_, ?_, ?_, trivial⟩, by decide +kernel, by decide +kernel⟩
  · rintro packet sendTime hop -
    exact nofun
  · rintro packet sendTime hop -
    cases hop
    unfold WithinHalf
    decide +kernel
  · rintro packet sendTime hop -
    cases hop
    -- the empty slots between the two packets are visited too
    unfold WithinHalf
    rw [← all_iff_forall_prop]
    decide +kernel

end RtpPacketHistory

end Rtp
