import WebRtc.Video.PacketBuffer
import Mathlib.Algebra.Order.Group.Multiset

/-!
# The frames of the packet buffer

The slots are read as a map from sequence numbers to packets. A packet marked continuous has a chain
of marked packets in front of it that goes back to the first packet of its frame, which is why the
walk over the slots finds whole frames.
-/

namespace Video

open SequenceNumbers TreeSearch List

namespace PacketBuffer

variable {β : Type} {q q' : PacketBuffer β} {k s : BitVec 16} {packet : Packet β} {i rounds : Nat}
  {start : BitVec 16} {frame front back : List (Packet β)} {last : Packet β}

/-- The sizes of a buffer: powers of two, and no more slots than sequence numbers. -/
structure Sized (q : PacketBuffer β) : Prop where
  size : ∃ e, e ≤ 16 ∧ q.buffer.length = 2 ^ e
  limit : ∃ m, q.maxSize = 2 ^ m
  le : q.buffer.length ≤ q.maxSize

theorem Sized.pos (h : Sized q) : 0 < q.buffer.length := by
  obtain ⟨e, -, he⟩ := h.size
  rw [he]
  exact Nat.two_pow_pos e

theorem Sized.dvd (h : Sized q) : q.buffer.length ∣ 65536 := by
  obtain ⟨e, hle, he⟩ := h.size
  rw [he]
  exact Nat.pow_dvd_pow 2 hle

section

variable (h : Sized q) (k : BitVec 16)
include h

theorem Sized.index_lt : q.index k < q.buffer.length :=
  Nat.mod_lt _ h.pos

theorem Sized.index_add (n : Nat) :
    q.index (k + BitVec.ofNat 16 n) = (q.index k + n) % q.buffer.length := by
  have hsum : (k + BitVec.ofNat 16 n).toNat = (k.toNat + n) % 65536 := by
    rw [BitVec.toNat_add, BitVec.toNat_ofNat, Nat.add_mod_mod]
  rw [index, hsum, Nat.mod_mod_of_dvd _ h.dvd, index, Nat.mod_add_mod]

theorem Sized.index_add_length : q.index (k + BitVec.ofNat 16 q.buffer.length) = q.index k := by
  rw [h.index_add, Nat.add_mod_right, Nat.mod_eq_of_lt (h.index_lt k)]

theorem Sized.index_sub_one : q.index (k - 1) = q.previousIndex (q.index k) := by
  have hback : q.index k = (q.index (k - 1) + 1) % q.buffer.length := by
    rw [← h.index_add]
    congr 1
    bv_omega
  have hlt := h.index_lt (k - 1)
  rw [hback, previousIndex]
  rcases Nat.lt_or_ge (q.index (k - 1) + 1) q.buffer.length with hin | hend
  · rw [Nat.mod_eq_of_lt hin, if_pos (Nat.succ_pos _), Nat.add_sub_cancel]
  · have hlast : q.index (k - 1) + 1 = q.buffer.length := by omega
    rw [hlast, Nat.mod_self, if_neg (Nat.lt_irrefl 0)]
    omega

end

def held (q : PacketBuffer β) (k : BitVec 16) : Option (Packet β) :=
  (q.entry (q.index k)).filter fun packet => packet.seqNum == k

theorem held_eq_some : q.held k = some packet ↔
    q.entry (q.index k) = some packet ∧ packet.seqNum = k := by
  rw [held, Option.filter_eq_some_iff, beq_iff_eq]

@[simp] theorem index_setEntry (q : PacketBuffer β) (i : Nat) (a : Option (Packet β)) (k : BitVec 16) :
    (q.setEntry i a).index k = q.index k := by
  rw [index, index, setEntry, length_set]

@[simp] theorem length_setEntry (q : PacketBuffer β) (i : Nat) (a : Option (Packet β)) :
    (q.setEntry i a).buffer.length = q.buffer.length :=
  length_set

theorem entry_setEntry (hlt : i < q.buffer.length) (a : Option (Packet β)) (j : Nat) :
    (q.setEntry i a).entry j = if j = i then a else q.entry j := by
  rw [entry, setEntry, getElem?_set]
  by_cases hj : j = i
  · rw [if_pos hj, if_pos hj.symm, if_pos hlt]
    rfl
  · rw [if_neg hj, if_neg (Ne.symm hj)]
    rfl

variable {a : Option (Packet β)} {cells : List (Option (Packet β))} {q'' : PacketBuffer β}
  {packets : List (Packet β)}

theorem held_setEntry (h : Sized q) (hold : ∀ p, q.entry (q.index s) = some p → p.seqNum = s)
    (ha : ∀ p, a = some p → p.seqNum = s) (k : BitVec 16) :
    (q.setEntry (q.index s) a).held k = if k = s then a else q.held k := by
  rw [held, index_setEntry, entry_setEntry (h.index_lt s)]
  have hother : ∀ {o : Option (Packet β)}, (∀ p, o = some p → p.seqNum = s) → k ≠ s →
      o.filter (fun p => p.seqNum == k) = none := by
    intro o ho hne
    rw [Option.filter_eq_none_iff]
    intro p hp hk
    exact hne ((beq_iff_eq.mp hk).symm.trans (ho p hp))
  by_cases hk : k = s
  · subst hk
    rw [if_pos rfl, if_pos rfl]
    cases a with
    | none => rfl
    | some p => rw [Option.filter_some, if_pos (beq_iff_eq.mpr (ha p rfl))]
  · rw [if_neg hk]
    split_ifs with hindex
    · rw [hother ha hk, held, hindex, hother hold hk]
    · rfl

theorem seqNum_of_held (hk : q.held k = some packet) :
    ∀ p, q.entry (q.index k) = some p → p.seqNum = k := by
  intro p hp
  obtain ⟨hentry, hseq⟩ := held_eq_some.mp hk
  rw [hentry] at hp
  cases hp
  exact hseq

/-- A packet that may be continuous: the first one of a frame, or the next one of a chain. -/
def Ready (q : PacketBuffer β) (k : BitVec 16) (packet : Packet β) : Prop :=
  packet.isFirstPacketInFrame = true ∨ ∃ previous, q.held (k - 1) = some previous ∧
    previous.timestamp = packet.timestamp ∧ previous.continuous = true

theorem Ready.mono (hready : Ready q k packet)
    (hsub : ∀ p, q.held (k - 1) = some p → q'.held (k - 1) = some p) : Ready q' k packet := by
  rcases hready with hfirst | ⟨previous, hprevious, hrest⟩
  · exact .inl hfirst
  · exact .inr ⟨previous, hsub previous hprevious, hrest⟩

theorem potentialNewFrame_iff (h : Sized q) :
    q.potentialNewFrame k = true ↔ ∃ packet, q.held k = some packet ∧ Ready q k packet := by
  have hprevious : ∀ previous, q.held (k - 1) = some previous ↔
      q.entry (q.previousIndex (q.index k)) = some previous ∧ previous.seqNum = k - 1 := by
    intro previous
    rw [held_eq_some, h.index_sub_one]
  unfold potentialNewFrame Ready
  constructor
  · intro hpotential
    split at hpotential
    · cases hpotential
    · rename_i packet hentry
      split_ifs at hpotential with hseq hfirst
      · exact ⟨packet, held_eq_some.mpr ⟨hentry, not_not.mp hseq⟩, .inl hfirst⟩
      · have hk := not_not.mp hseq
        refine ⟨packet, held_eq_some.mpr ⟨hentry, hk⟩, .inr ?_⟩
        split at hpotential
        · cases hpotential
        · rename_i previous hbefore
          split_ifs at hpotential with hseq' hts
          refine ⟨previous, (hprevious previous).mpr ⟨hbefore, ?_⟩, not_not.mp hts, hpotential⟩
          rw [not_not.mp hseq', hk]
  · rintro ⟨packet, hheld, hready⟩
    obtain ⟨hentry, hseq⟩ := held_eq_some.mp hheld
    rw [hentry]
    dsimp only
    rw [if_neg (not_not.mpr hseq)]
    split_ifs with hfirst
    · rfl
    · rcases hready with hfirst' | ⟨previous, hheld', hts, hcontinuous⟩
      · exact absurd hfirst' hfirst
      · obtain ⟨hbefore, hseq'⟩ := (hprevious previous).mp hheld'
        rw [hbefore]
        dsimp only
        rw [if_neg (not_not.mpr (by rw [hseq', hseq])), if_neg (not_not.mpr hts)]
        exact hcontinuous

/-- A packet as it was inserted, apart from what the buffer writes. -/
def origin (packet : Packet β) : Int × BitVec 32 × Bool × Bool × β :=
  (packet.sequenceNumber, packet.timestamp, packet.isFirstPacketInFrame, packet.isLastPacketInFrame,
    packet.contents)

def content (a : Option (Packet β)) : Multiset (Int × BitVec 32 × Bool × Bool × β) :=
  (a.toList.map origin : List _)

def stockOf (cells : List (Option (Packet β))) : Multiset (Int × BitVec 32 × Bool × Bool × β) :=
  ((cells.filterMap id).map origin : List _)

def stock (q : PacketBuffer β) : Multiset (Int × BitVec 32 × Bool × Bool × β) := stockOf q.buffer

theorem stockOf_cons (a : Option (Packet β)) (cells : List (Option (Packet β))) :
    stockOf (a :: cells) = content a + stockOf cells := by
  cases a with
  | none => exact (zero_add _).symm
  | some p => rfl

theorem stockOf_perm {cells' : List (Option (Packet β))} (h : cells.Perm cells') :
    stockOf cells = stockOf cells' :=
  Multiset.coe_eq_coe.mpr ((h.filterMap id).map origin)

theorem stockOf_set (hlt : i < cells.length) (a : Option (Packet β)) :
    stockOf (cells.set i a) + content cells[i]?.join = stockOf cells + content a := by
  rw [stockOf_perm (set_perm_cons_eraseIdx hlt a),
    stockOf_perm (getElem_cons_eraseIdx_perm hlt).symm, stockOf_cons, stockOf_cons,
    getElem?_eq_getElem hlt, Option.join_some, add_comm (content a),
    add_comm (content cells[i]), add_right_comm]

theorem stockOf_set_le (cells : List (Option (Packet β))) (i : Nat) (a : Option (Packet β)) :
    stockOf (cells.set i a) ≤ stockOf cells + content a := by
  rcases Nat.lt_or_ge i cells.length with hlt | hge
  · rw [← stockOf_set hlt a]
    exact Multiset.le_add_right _ _
  · rw [set_eq_of_length_le hge]
    exact Multiset.le_add_right _ _

theorem stock_setEntry (hlt : i < q.buffer.length) (a : Option (Packet β)) :
    stock (q.setEntry i a) + content (q.entry i) = stock q + content a :=
  stockOf_set hlt a

structure Kept (q q' : PacketBuffer β) : Prop where
  maxSize : q'.maxSize = q.maxSize
  length : q'.buffer.length = q.buffer.length
  first : q'.firstSeqNum = q.firstSeqNum
  received : q'.firstPacketReceived = q.firstPacketReceived
  padding : ∀ k ∈ q'.receivedPadding, k ∈ q.receivedPadding

theorem Kept.refl (q : PacketBuffer β) : Kept q q := ⟨rfl, rfl, rfl, rfl, fun _ h => h⟩

theorem Kept.trans (h : Kept q q') (h' : Kept q' q'') : Kept q q'' :=
  ⟨h'.maxSize.trans h.maxSize, h'.length.trans h.length, h'.first.trans h.first,
    h'.received.trans h.received, fun k hk => h.padding k (h'.padding k hk)⟩

theorem kept_setEntry (q : PacketBuffer β) (i : Nat) (a : Option (Packet β)) :
    Kept q (q.setEntry i a) :=
  ⟨rfl, length_setEntry q i a, rfl, rfl, fun _ h => h⟩

theorem Kept.sized (hkept : Kept q q') (h : Sized q) : Sized q' := by
  obtain ⟨hmax, hlength, -, -, -⟩ := hkept
  obtain ⟨hsize, hlimit, hle⟩ := h
  exact ⟨hlength ▸ hsize, hmax ▸ hlimit, by rw [hmax, hlength]; exact hle⟩

def InPlace (q : PacketBuffer β) : Prop :=
  ∀ i packet, q.entry i = some packet → q.index packet.seqNum = i

theorem InPlace.setEntry (h : InPlace q) (hsized : Sized q)
    (ha : ∀ p, a = some p → p.seqNum = s) : InPlace (q.setEntry (q.index s) a) := by
  intro i p hp
  rw [entry_setEntry (hsized.index_lt s)] at hp
  rw [index_setEntry]
  split_ifs at hp with hi
  · rw [ha p hp, hi]
  · exact h i p hp

/-- The invariant of the slots, for packets that are not H.264. -/
structure Lawful (q : PacketBuffer β) : Prop where
  sized : Sized q
  inPlace : InPlace q
  codec : ∀ k p, q.held k = some p → p.codec ≠ .h264
  chain : ∀ k p, q.held k = some p → p.continuous = true →
    p.isLastPacketInFrame = false ∧ Ready q k p
  window : ∀ k p, q.held k = some p →
    q.firstPacketReceived = true ∧ (k - q.firstSeqNum).toNat ≤ 32768

/-- Consecutive packets of one timestamp, of which the first one alone starts a frame. -/
structure Run (q : PacketBuffer β) (start : BitVec 16) (frame : List (Packet β)) : Prop where
  stored : ∀ i p, frame[i]? = some p → q.held (start + BitVec.ofNat 16 i) = some p
  first : ∀ i p, frame[i]? = some p → (p.isFirstPacketInFrame = true ↔ i = 0)
  timestamp : ∀ p ∈ frame, ∀ p' ∈ frame, p.timestamp = p'.timestamp

theorem Run.singleton (hk : q.held k = some packet) (hfirst : packet.isFirstPacketInFrame = true) :
    Run q k [packet] := by
  have hzero : ∀ i p, [packet][i]? = some p → i = 0 ∧ p = packet := by
    intro i p hp
    obtain ⟨hlt, hp⟩ := List.getElem?_eq_some_iff.mp hp
    rw [List.length_singleton] at hlt
    obtain rfl : i = 0 := by omega
    exact ⟨rfl, hp.symm⟩
  refine ⟨fun i p hp => ?_, fun i p hp => ?_, ?_⟩
  · obtain ⟨rfl, rfl⟩ := hzero i p hp
    rw [BitVec.add_zero]
    exact hk
  · obtain ⟨rfl, rfl⟩ := hzero i p hp
    exact iff_of_true hfirst rfl
  · intro p hp p' hp'
    rw [List.mem_singleton.mp hp, List.mem_singleton.mp hp']

theorem getElem?_append_singleton {α : Type} {l : List α} {a b : α} (h : (l ++ [a])[i]? = some b) :
    l[i]? = some b ∨ i = l.length ∧ b = a := by
  rcases Nat.lt_trichotomy i l.length with hlt | rfl | hgt
  · rw [getElem?_append_left hlt] at h
    exact .inl h
  · rw [getElem?_concat_length] at h
    exact .inr ⟨rfl, (Option.some.inj h).symm⟩
  · rw [getElem?_eq_none (by rw [length_append, length_singleton]; omega)] at h
    cases h

theorem Run.concat (hrun : Run q start frame) (hne : frame ≠ [])
    (hkeep : ∀ i p, frame[i]? = some p → q'.held (start + BitVec.ofNat 16 i) = some p)
    (hnext : q'.held (start + BitVec.ofNat 16 frame.length) = some packet)
    (hfirst : packet.isFirstPacketInFrame = false)
    (hts : ∀ p ∈ frame, p.timestamp = packet.timestamp) : Run q' start (frame ++ [packet]) := by
  refine ⟨fun i p hp => ?_, fun i p hp => ?_, ?_⟩
  · rcases getElem?_append_singleton hp with hin | ⟨rfl, rfl⟩
    · exact hkeep i p hin
    · exact hnext
  · rcases getElem?_append_singleton hp with hin | ⟨rfl, rfl⟩
    · exact hrun.first i p hin
    · rw [hfirst]
      have := length_pos_iff.mpr hne
      exact iff_of_false Bool.false_ne_true (by omega)
  · have hall : ∀ p ∈ frame ++ [packet], p.timestamp = packet.timestamp := by
      exact forall_mem_append.mpr ⟨hts, forall_mem_singleton.mpr rfl⟩
    intro p hp p' hp'
    rw [hall p hp, hall p' hp']

/-- In front of a continuous packet there is a run of continuous packets. -/
theorem Lawful.exists_run (h : Lawful q) (hk : q.held k = some packet)
    (hcontinuous : packet.continuous = true) :
    ∃ start front, k = start + BitVec.ofNat 16 front.length ∧ Run q start (front ++ [packet]) ∧
      ∀ p ∈ front ++ [packet], p.continuous = true ∧ p.isLastPacketInFrame = false := by
  obtain ⟨n, hn⟩ : ∃ n, (k - q.firstSeqNum).toNat = n := ⟨_, rfl⟩
  induction n using Nat.strongRecOn generalizing k packet with
  | ind n ih =>
    obtain ⟨hlast, hready⟩ := h.chain k packet hk hcontinuous
    by_cases hfirst : packet.isFirstPacketInFrame = true
    · refine ⟨k, [], (BitVec.add_zero k).symm, Run.singleton hk hfirst, ?_⟩
      exact forall_mem_singleton.mpr ⟨hcontinuous, hlast⟩
    · obtain ⟨previous, hprevious, hts, hcontinuous'⟩ := hready.resolve_left hfirst
      have := (h.window _ _ hprevious).2
      obtain ⟨start, front, hstart, hrun, hall⟩ := ih _ (by bv_omega) hprevious hcontinuous' rfl
      have hnumber : k = start + BitVec.ofNat 16 (front ++ [previous]).length := by
        rw [length_append, length_singleton]
        bv_omega
      refine ⟨start, front ++ [previous], hnumber, ?_, ?_⟩
      · refine hrun.concat (append_ne_nil_of_right_ne_nil _ (nofun)) hrun.stored
          (hnumber ▸ hk) (eq_false_of_ne_true hfirst) fun p hp => ?_
        rw [hrun.timestamp p hp previous (mem_append_right _ mem_cons_self), hts]
      · exact forall_mem_append.mpr ⟨hall, forall_mem_singleton.mpr ⟨hcontinuous, hlast⟩⟩

theorem Run.takeFront (h : Run q start (front ++ back)) : Run q start front := by
  have hin : ∀ (i : Nat) p, front[i]? = some p → (front ++ back)[i]? = some p := by
    intro i p hp
    rw [List.getElem?_append_left (List.getElem?_eq_some_iff.mp hp).1]
    exact hp
  refine ⟨fun i p hp => h.stored i p (hin i p hp), fun i p hp => h.first i p (hin i p hp), ?_⟩
  intro p hp p' hp'
  exact h.timestamp p (List.mem_append_left _ hp) p' (List.mem_append_left _ hp')

theorem Run.length_le (h : Run q start frame)
    (hwindow : ∀ k p, q.held k = some p → (k - q.firstSeqNum).toNat ≤ 32768) :
    frame.length ≤ 32769 := by
  by_contra hlong
  have hat : ∀ i, i < frame.length →
      (start + BitVec.ofNat 16 i - q.firstSeqNum).toNat ≤ 32768 := fun i hi =>
    hwindow _ _ (h.stored i _ (getElem?_eq_getElem hi))
  have hover := hat (32769 - (start - q.firstSeqNum).toNat) (by omega)
  bv_omega

theorem Run.length_le_size (h : Run q start frame) (hsized : Sized q)
    (hshort : frame.length ≤ 32769) : frame.length ≤ q.buffer.length := by
  by_contra hlong
  have hpos := hsized.pos
  have hfirst := held_eq_some.mp (h.stored 0 _ (getElem?_eq_getElem (by omega)))
  have hother := held_eq_some.mp
    (h.stored q.buffer.length _ (getElem?_eq_getElem (by omega)))
  rw [hsized.index_add_length, ← BitVec.add_zero start, hfirst.1] at hother
  have hsame : start + BitVec.ofNat 16 0 = start + BitVec.ofNat 16 q.buffer.length := by
    rw [← hfirst.2, Option.some.inj hother.1, hother.2, BitVec.add_zero]
  bv_omega

theorem walkBack_run (hsized : Sized q) (timestamp : BitVec 32) {untested : Nat} {walk : Walk}
    (hrun : Run q start (front ++ [last])) (htest : front.length < untested)
    (hdescriptor : walk.isH264Descriptor = false)
    (hstart : walk.startSeqNum = start + BitVec.ofNat 16 front.length) :
    q.walkBack timestamp untested (q.index (start + BitVec.ofNat 16 front.length)) walk =
      some { walk with startSeqNum := start, fullFrameFound := true } := by
  induction front using reverseRecOn generalizing last untested walk with
  | nil =>
    obtain ⟨u, rfl⟩ := Nat.exists_eq_add_one_of_ne_zero (Nat.ne_of_gt htest)
    have hheld := held_eq_some.mp (hrun.stored 0 last rfl)
    have hfirst := (hrun.first 0 last rfl).mpr rfl
    rw [length_nil] at hstart ⊢
    rw [walkBack, hheld.1]
    dsimp only
    rw [hdescriptor, Bool.false_and, if_neg Bool.false_ne_true, if_pos hfirst, hstart, BitVec.add_zero]
  | append_singleton front previous ih =>
    obtain ⟨u, rfl⟩ := Nat.exists_eq_add_one_of_ne_zero (Nat.ne_of_gt (Nat.zero_lt_of_lt htest))
    rw [length_append, length_singleton] at htest hstart ⊢
    have hat : (front ++ [previous] ++ [last])[front.length + 1]? = some last := by simp
    have hheld := held_eq_some.mp (hrun.stored _ last hat)
    have hfirst : ¬ last.isFirstPacketInFrame = true := fun h => absurd ((hrun.first _ last hat).mp h)
      (Nat.succ_ne_zero _)
    have hback : start + BitVec.ofNat 16 (front.length + 1) - 1 =
        start + BitVec.ofNat 16 front.length := by bv_omega
    rw [walkBack, hheld.1]
    dsimp only
    rw [hdescriptor, Bool.false_and, if_neg Bool.false_ne_true, if_neg hfirst, if_neg (by omega),
      ← hsized.index_sub_one, hback]
    exact ih hrun.takeFront (by omega) rfl (by rw [hstart, hback])

/-- Consecutive packets of one timestamp, of which the first alone starts and the last alone ends a
frame. -/
structure IsFrame (frame : List (Packet β)) : Prop where
  nonempty : frame ≠ []
  consecutive : ∀ i p p', frame[i]? = some p → frame[i + 1]? = some p' → p'.seqNum = p.seqNum + 1
  timestamp : ∀ p ∈ frame, ∀ p' ∈ frame, p.timestamp = p'.timestamp
  first : ∀ i p, frame[i]? = some p → (p.isFirstPacketInFrame = true ↔ i = 0)
  last : ∀ i p, frame[i]? = some p → (p.isLastPacketInFrame = true ↔ i + 1 = frame.length)

/-- What is left in the map when a number of packets from one on are taken out. -/
def Taken (q q' : PacketBuffer β) (j : BitVec 16) (n : Nat) : Prop :=
  ∀ k, q'.held k = if (k - j).toNat < n then none else q.held k

theorem takeFrame_spec (start last : BitVec 16) {j : BitVec 16} (hsized : Sized q)
    (hplace : InPlace q)
    (hstored : ∀ i p, frame[i]? = some p → q.held (j + BitVec.ofNat 16 i) = some p)
    (hflags : ∀ i p, frame[i]? = some p →
      p.isFirstPacketInFrame = (j + BitVec.ofNat 16 i == start) ∧
        p.isLastPacketInFrame = (j + BitVec.ofNat 16 i == last)) (hshort : frame.length < 65536) :
    ∃ q', takeFrame start last frame.length j q = some (q', frame) ∧ Kept q q' ∧ InPlace q' ∧
      Taken q q' j frame.length ∧ stock q = stock q' + (frame.map origin : List _) := by
  induction frame generalizing q j with
  | nil =>
    refine ⟨q, rfl, Kept.refl q, hplace, fun k => ?_, (add_zero _).symm⟩
    rw [List.length_nil, if_neg (Nat.not_lt_zero _)]
  | cons p frame ih =>
    rw [List.length_cons] at hshort
    have hheld : q.held j = some p := by
      have := hstored 0 p rfl
      rwa [BitVec.add_zero] at this
    obtain ⟨hentry, hseq⟩ := held_eq_some.mp hheld
    have hflag := hflags 0 p rfl
    rw [BitVec.add_zero] at hflag
    have hnext : ∀ i : Nat, j + 1 + BitVec.ofNat 16 i = j + BitVec.ofNat 16 (i + 1) := by
      intro i
      bv_omega
    have hnone : ∀ p : Packet β, none = some p → p.seqNum = j := by simp
    have hremoved := held_setEntry hsized (seqNum_of_held hheld) hnone
    obtain ⟨q', htake, hkept, hplace', htaken, hstock⟩ :=
      ih (q := q.setEntry (q.index j) none) (j := j + 1)
        ((kept_setEntry q _ none).sized hsized) (hplace.setEntry hsized hnone)
        (fun i p' hp' => by
          have hlt := (List.getElem?_eq_some_iff.mp hp').1
          rw [hremoved, hnext, if_neg (by bv_omega)]
          exact hstored (i + 1) p' hp')
        (fun i p' hp' => by
          rw [hnext]
          exact hflags (i + 1) p' hp')
        (by omega)
    refine ⟨q', ?_, (kept_setEntry q _ none).trans hkept, hplace', fun k => ?_, ?_⟩
    · rw [List.length_cons, takeFrame, hentry]
      dsimp only
      rw [if_neg (not_not.mpr hseq), htake]
      rw [← hflag.1, ← hflag.2]
      rfl
    · rw [htaken k, hremoved k, List.length_cons]
      by_cases hk : k = j
      · rw [if_pos hk, ite_self, if_pos (by bv_omega)]
      · rw [if_neg hk]
        by_cases hin : (k - (j + 1)).toNat < frame.length
        · rw [if_pos hin, if_pos (by bv_omega)]
        · rw [if_neg hin, if_neg (by bv_omega)]
    · have hslot := stock_setEntry (hsized.index_lt j) (none : Option (Packet β)) (q := q)
      rw [hentry] at hslot
      change _ + {origin p} = stock q + 0 at hslot
      rw [add_zero] at hslot
      rw [← hslot, hstock, List.map_cons, ← Multiset.cons_coe, ← Multiset.singleton_add, add_assoc,
        add_comm _ {origin p}]

structure HandedOut (q q' : PacketBuffer β) (start : BitVec 16) (frame : List (Packet β)) : Prop where
  kept : Kept q q'
  inPlace : InPlace q'
  taken : Taken q q' start frame.length
  stock : stock q = PacketBuffer.stock q' + (frame.map origin : List _)

section

variable (search : Search (BitVec 16)) (begin : BitVec 16) (hsized : Sized q) (hplace : InPlace q)
  (hrun : Run q start (front ++ [last]))
include hsized hplace hrun

theorem handOut_spec (hshort : front.length < 32769)
    (hlast : ∀ i p, (front ++ [last])[i]? = some p → (p.isLastPacketInFrame = true ↔ i = front.length)) :
    ∃ q', handOut search begin (start + BitVec.ofNat 16 front.length) start q =
        some ⟨q', front ++ [last], true⟩ ∧ HandedOut q q' start (front ++ [last]) := by
  have hlength : (front ++ [last]).length = front.length + 1 := by simp
  have hcount : (start + BitVec.ofNat 16 front.length + 1 - start).toNat = (front ++ [last]).length := by
    bv_omega
  have hflags : ∀ i p, (front ++ [last])[i]? = some p →
      p.isFirstPacketInFrame = (start + BitVec.ofNat 16 i == start) ∧
        p.isLastPacketInFrame = (start + BitVec.ofNat 16 i == start + BitVec.ofNat 16 front.length) := by
    intro i p hp
    have hlt := (List.getElem?_eq_some_iff.mp hp).1
    constructor
    · rw [Bool.eq_iff_iff, hrun.first i p hp, beq_iff_eq]
      constructor
      · rintro rfl
        exact BitVec.add_zero start
      · intro heq
        bv_omega
    · rw [Bool.eq_iff_iff, hlast i p hp, beq_iff_eq]
      constructor
      · rintro rfl
        rfl
      · intro heq
        bv_omega
  obtain ⟨q', htake, hkept, hplace', htaken, hstock⟩ :=
    takeFrame_spec start (start + BitVec.ofNat 16 front.length) hsized hplace hrun.stored hflags
      (by omega)
  rw [handOut, hcount, htake]
  refine ⟨_, rfl, ⟨hkept.maxSize, hkept.length, hkept.first, hkept.received, fun k hk => ?_⟩, hplace',
    htaken, hstock⟩
  exact hkept.padding k ((List.mem_append.mp hk).elim List.mem_of_mem_take List.mem_of_mem_drop)

theorem finishFrame_spec (hcodec : last.codec ≠ .h264) (hshort : front.length < 32769)
    (hlast : ∀ i p, (front ++ [last])[i]? = some p → (p.isLastPacketInFrame = true ↔ i = front.length)) :
    ∃ q', finishFrame search begin (start + BitVec.ofNat 16 front.length) last q =
        some ⟨q', front ++ [last], true⟩ ∧ HandedOut q q' start (front ++ [last]) := by
  have hlength : (front ++ [last]).length = front.length + 1 := by simp
  have hfits := hrun.length_le_size hsized (by omega)
  have hwalk : q.walkBack last.timestamp q.buffer.length
      (q.index (start + BitVec.ofNat 16 front.length))
      ⟨start + BitVec.ofNat 16 front.length, false, false, false, false, false, none, false⟩ =
        some ⟨start, false, false, false, false, false, none, true⟩ :=
    walkBack_run hsized last.timestamp hrun (by omega) rfl rfl
  rw [finishFrame, decide_eq_false hcodec, Bool.false_and, hwalk]
  dsimp only
  exact handOut_spec search begin hsized hplace hrun hshort hlast

end

theorem held_mark (hsized : Sized q) (hs : q.held s = some packet) (k : BitVec 16) :
    (q.mark s packet).held k = if k = s then some (packet.setContinuous true) else q.held k := by
  refine held_setEntry hsized (seqNum_of_held hs) ?_ k
  rintro p ⟨⟩
  exact (held_eq_some.mp hs).2

theorem InPlace.mark (h : InPlace q) (hsized : Sized q) (hs : q.held s = some packet) :
    InPlace (q.mark s packet) := by
  refine h.setEntry hsized ?_
  rintro p ⟨⟩
  exact (held_eq_some.mp hs).2

theorem stock_mark (hsized : Sized q) (hs : q.held s = some packet) :
    stock (q.mark s packet) = stock q := by
  have hslot := stock_setEntry (hsized.index_lt s) (some (packet.setContinuous true)) (q := q)
  rw [(held_eq_some.mp hs).1] at hslot
  exact add_right_cancel hslot

theorem Ready.mark (hready : Ready q k packet) (hsized : Sized q) {p : Packet β}
    (hs : q.held s = some p) : Ready (q.mark s p) k packet := by
  rcases hready with hfirst | ⟨previous, hprevious, hts, hcontinuous⟩
  · exact .inl hfirst
  · refine .inr ?_
    by_cases hk : k - 1 = s
    · rw [hk, hs] at hprevious
      cases hprevious
      exact ⟨p.setContinuous true, by rw [held_mark hsized hs, if_pos hk], hts, rfl⟩
    · exact ⟨previous, by rw [held_mark hsized hs, if_neg hk]; exact hprevious, hts, hcontinuous⟩

section

variable (h : Lawful q) (hs : q.held s = some packet)
include h hs

theorem Lawful.mark (hready : Ready q s packet) (hlast : packet.isLastPacketInFrame = false) :
    Lawful (q.mark s packet) := by
  refine ⟨(kept_setEntry q _ _).sized h.sized, h.inPlace.mark h.sized hs, ?_, ?_, ?_⟩
  · intro k p hk
    rw [held_mark h.sized hs] at hk
    split_ifs at hk with hks
    · cases hk
      exact h.codec s packet hs
    · exact h.codec k p hk
  · intro k p hk hcontinuous
    rw [held_mark h.sized hs] at hk
    split_ifs at hk with hks
    · cases hk
      subst hks
      exact ⟨hlast, (hready.mark h.sized hs : Ready (q.mark k packet) k packet)⟩
    · obtain ⟨hend, hchain⟩ := h.chain k p hk hcontinuous
      exact ⟨hend, hchain.mark h.sized hs⟩
  · intro k p hk
    rw [held_mark h.sized hs] at hk
    split_ifs at hk with hks
    · rw [hks]
      exact h.window s packet hs
    · exact h.window k p hk

theorem Lawful.exists_run_mark (hready : Ready q s packet) :
    ∃ start front, s = start + BitVec.ofNat 16 front.length ∧
      Run (q.mark s packet) start (front ++ [packet.setContinuous true]) ∧
      ∀ p ∈ front, p.isLastPacketInFrame = false := by
  have hmarked : (q.mark s packet).held s = some (packet.setContinuous true) := by
    rw [held_mark h.sized hs, if_pos rfl]
  by_cases hfirst : packet.isFirstPacketInFrame = true
  · exact ⟨s, [], (BitVec.add_zero s).symm, Run.singleton hmarked hfirst, by simp⟩
  · obtain ⟨previous, hprevious, hts, hcontinuous⟩ := hready.resolve_left hfirst
    obtain ⟨start, front, hstart, hrun, hall⟩ := h.exists_run hprevious hcontinuous
    have hlength : (front ++ [previous]).length = front.length + 1 := by simp
    have hshort := hrun.length_le fun k p hk => (h.window k p hk).2
    have hnumber : s = start + BitVec.ofNat 16 (front ++ [previous]).length := by
      bv_omega
    refine ⟨start, front ++ [previous], hnumber, ?_, fun p hp => (hall p hp).2⟩
    refine hrun.concat (List.append_ne_nil_of_right_ne_nil _ (nofun)) ?_
      (hnumber ▸ hmarked) (eq_false_of_ne_true hfirst) fun p hp => ?_
    · intro i p hp
      have hlt := (List.getElem?_eq_some_iff.mp hp).1
      rw [held_mark h.sized hs, if_neg (by rw [hnumber]; bv_omega)]
      exact hrun.stored i p hp
    · rw [hrun.timestamp p hp previous (List.mem_append_right _ List.mem_cons_self)]
      exact hts

theorem Lawful.handedOut (hlast : packet.isLastPacketInFrame = true)
    (hstart : s = start + BitVec.ofNat 16 front.length) (hshort : front.length < 32769)
    (hout : HandedOut (q.mark s packet) q' start (front ++ [packet.setContinuous true])) :
    Lawful q' := by
  have hlength : (front ++ [packet.setContinuous true]).length = front.length + 1 := by simp
  have hheld : ∀ k p, q'.held k = some p →
      q.held k = some p ∧ ¬ (k - start).toNat < front.length + 1 := by
    intro k p hk
    rw [hout.taken k, hlength] at hk
    split_ifs at hk with hin
    rw [held_mark h.sized hs, if_neg (by bv_omega)] at hk
    exact ⟨hk, hin⟩
  have hkept := (kept_setEntry q _ _).trans hout.kept
  refine ⟨hkept.sized h.sized, hout.inPlace, fun k p hk => h.codec k p (hheld k p hk).1, ?_, ?_⟩
  · intro k p hk hcontinuous
    obtain ⟨hold, hout'⟩ := hheld k p hk
    obtain ⟨hend, hchain⟩ := h.chain k p hold hcontinuous
    refine ⟨hend, ?_⟩
    rcases hchain with hfirst | ⟨previous, hprevious, hts, hcontinuous'⟩
    · exact .inl hfirst
    · have hne : k - 1 ≠ s := by
        intro heq
        rw [heq, hs] at hprevious
        cases hprevious
        have := (h.chain s packet hs hcontinuous').1
        exact Bool.false_ne_true (this.symm.trans hlast)
      refine .inr ⟨previous, ?_, hts, hcontinuous'⟩
      rw [hout.taken, if_neg (by bv_omega), held_mark h.sized hs, if_neg hne]
      exact hprevious
  · intro k p hk
    rw [hkept.first, hkept.received]
    exact h.window k p (hheld k p hk).1

end

theorem Run.isFrame (hrun : Run q start (front ++ [packet]))
    (hfront : ∀ p ∈ front, p.isLastPacketInFrame = false)
    (hlast : packet.isLastPacketInFrame = true) : IsFrame (front ++ [packet]) where
  nonempty := append_ne_nil_of_right_ne_nil _ (nofun)
  consecutive i p p' hp hp' := by
    rw [(held_eq_some.mp (hrun.stored i p hp)).2, (held_eq_some.mp (hrun.stored _ p' hp')).2]
    bv_omega
  timestamp := hrun.timestamp
  first := hrun.first
  last i p hp := by
    rw [List.length_append, List.length_singleton]
    rcases getElem?_append_singleton hp with hin | ⟨rfl, rfl⟩
    · have hlt := (List.getElem?_eq_some_iff.mp hin).1
      rw [hfront p (List.mem_of_getElem? hin)]
      exact iff_of_false Bool.false_ne_true (by omega)
    · exact iff_of_true hlast rfl

theorem Lawful.finish (h : Lawful q) (search : Search (BitVec 16)) (begin : BitVec 16)
    (hs : q.held s = some packet) (hlast : packet.isLastPacketInFrame = true)
    (hstart : s = start + BitVec.ofNat 16 front.length)
    (hrun : Run (q.mark s packet) start (front ++ [packet.setContinuous true]))
    (hfront : ∀ p ∈ front, p.isLastPacketInFrame = false) :
    ∃ q', finishFrame search begin s (packet.setContinuous true) (q.mark s packet) =
        some ⟨q', front ++ [packet.setContinuous true], true⟩ ∧
      HandedOut (q.mark s packet) q' start (front ++ [packet.setContinuous true]) ∧ Lawful q' ∧
      front.length < 32769 := by
  have hwindow : ∀ k p, (q.mark s packet).held k = some p →
      (k - (q.mark s packet).firstSeqNum).toNat ≤ 32768 := by
    intro k p hk
    rw [held_mark h.sized hs] at hk
    split_ifs at hk with hks
    · rw [hks]
      exact (h.window s packet hs).2
    · exact (h.window k p hk).2
  have hshort : front.length < 32769 := by
    have := hrun.length_le hwindow
    rw [length_append, length_singleton] at this
    omega
  have hends : ∀ i p, (front ++ [packet.setContinuous true])[i]? = some p →
      (p.isLastPacketInFrame = true ↔ i = front.length) := by
    intro i p hp
    have := (hrun.isFrame hfront hlast).last i p hp
    rw [length_append, length_singleton] at this
    rw [this]
    omega
  obtain ⟨q', hfinish, hout⟩ := finishFrame_spec search begin ((kept_setEntry q _ _).sized h.sized)
    (h.inPlace.mark h.sized hs) hrun (h.codec s packet hs) hshort hends
  rw [← hstart] at hfinish
  exact ⟨q', hfinish, hout, h.handedOut hs hlast hstart hshort hout, hshort⟩

variable (q)

/-- No number is a packet in the buffer and a padding. -/
def Apart : Prop := ∀ k p, q.held k = some p → k ∉ q.receivedPadding

/-- Packets that may be continuous are marked, with exceptions. -/
def SettledBut (exception : BitVec 16 → Prop) : Prop :=
  ∀ k p, q.held k = some p → Ready q k p → ¬ exception k → p.continuous = true

/-- Every packet that may be continuous is marked. -/
def Settled : Prop := SettledBut q fun _ => False

variable {q}

theorem mem_of_find {search : Search (BitVec 16)} {keys : List (BitVec 16)} {key : BitVec 16}
    (h : (find search keys key).isSome = true) : key ∈ keys := by
  have hboundary := search.boundary (fun k => descendingSeqNumComp k key) keys
  unfold find lowerBound at h
  dsimp only at h
  split at h
  · cases h
  · rename_i k hk
    have hfront : ¬ descendingSeqNumComp key k = true := by
      intro hfront
      rw [if_pos hfront] at h
      cases h
    have hback : descendingSeqNumComp k key = false := by
      refine hboundary.back k ?_
      rw [head?_drop]
      exact hk
    have hkey : k = key := by
      have htotal : aheadOf key k = false := hback
      have htotal' : aheadOf k key = false := eq_false_of_ne_true hfront
      rw [← Bool.not_eq_true, aheadOf_iff_sub] at htotal htotal'
      bv_omega
    rw [← hkey]
    exact mem_of_getElem? hk

structure Found (q q' : PacketBuffer β) (packets : List (Packet β)) : Prop where
  kept : Kept q q'
  lawful : Lawful q'
  frames : ∃ frames : List (List (Packet β)), packets = frames.flatten ∧ ∀ frame ∈ frames, IsFrame frame
  stock : stock q = PacketBuffer.stock q' + (packets.map origin : List _)
  held : ∀ k, q'.held k ≠ none → q.held k ≠ none

theorem Found.refl (h : Lawful q) : Found q q [] :=
  ⟨Kept.refl q, h, ⟨[], rfl, nofun⟩, (add_zero _).symm, fun _ h => h⟩

theorem Found.mark (hsized : Sized q) (hs : q.held s = some packet)
    (hfound : Found (q.mark s packet) q' packets) : Found q q' packets := by
  obtain ⟨hkept, hlawful, hframes, hstock, hheld⟩ := hfound
  refine ⟨(kept_setEntry q _ _).trans hkept, hlawful, hframes, ?_, fun k hk => ?_⟩
  · rw [← hstock, stock_mark hsized hs]
  · have := hheld k hk
    rw [held_mark hsized hs] at this
    split_ifs at this with hks
    · rw [hks, hs]
      exact nofun
    · exact this

theorem HandedOut.found
    (hout : HandedOut q q' start frame) (hframe : IsFrame frame) (hfound : Found q' q'' packets) :
    Found q q'' (frame ++ packets) := by
  obtain ⟨hkept, hlawful, ⟨frames, hflatten, hframes⟩, hstock, hheld⟩ := hfound
  refine ⟨hout.kept.trans hkept, hlawful, ⟨frame :: frames, ?_, ?_⟩, ?_, fun k hk => ?_⟩
  · rw [flatten_cons, hflatten]
  · exact forall_mem_cons.mpr ⟨hframe, hframes⟩
  · rw [hout.stock, hstock, map_append, add_assoc]
    congr 1
    exact add_comm _ _
  · have := hheld k hk
    rw [hout.taken k] at this
    split_ifs at this with hin
    · exact absurd rfl this
    · exact this

/-- What is still to be known of the number at which the rounds run out. -/
def Wraps (q : PacketBuffer β) (s : BitVec 16) (rounds : Nat) : Prop :=
  ∀ p, q.held (s + BitVec.ofNat 16 rounds) = some p →
    p.continuous = true ∨ s + BitVec.ofNat 16 rounds = s ∧ 0 < rounds

/-- The conditions under which the search for frames marks every packet that may be continuous. -/
structure Searching (q : PacketBuffer β) (s : BitVec 16) (rounds : Nat) : Prop where
  apart : Apart q
  settled : SettledBut q fun k => k = s
  wraps : Wraps q s rounds

theorem Searching.settled_of_not_ready (h : Searching q s rounds)
    (hs : ∀ p, q.held s = some p → Ready q s p → p.continuous = true) : Settled q := by
  intro k p hk hready _
  by_cases hks : k = s
  · subst hks
    exact hs p hk hready
  · exact h.settled k p hk hready hks

theorem Searching.skip (h : Searching q s (rounds + 1)) (hs : q.held s = none) :
    Searching q (s + 1) rounds := by
  have hend : s + 1 + BitVec.ofNat 16 rounds = s + BitVec.ofNat 16 (rounds + 1) := by bv_omega
  refine ⟨h.apart, fun k p hk hready _ => ?_, fun p hp => ?_⟩
  · refine h.settled_of_not_ready (fun p hp => ?_) k p hk hready id
    rw [hs] at hp
    cases hp
  · rw [hend] at hp
    rcases h.wraps p hp with hcontinuous | ⟨heq, -⟩
    · exact .inl hcontinuous
    · rw [heq, hs] at hp
      cases hp

theorem Searching.mark (h : Searching q s (rounds + 1)) (hsized : Sized q)
    (hs : q.held s = some packet) : Searching (q.mark s packet) (s + 1) rounds := by
  have hend : s + 1 + BitVec.ofNat 16 rounds = s + BitVec.ofNat 16 (rounds + 1) := by bv_omega
  refine ⟨fun k p hk => ?_, fun k p hk hready hne => ?_, fun p hp => ?_⟩
  · rw [held_mark hsized hs] at hk
    split_ifs at hk with hks
    · rw [hks]
      exact h.apart s packet hs
    · exact h.apart k p hk
  · rw [held_mark hsized hs] at hk
    split_ifs at hk with hks
    · cases hk
      rfl
    · refine h.settled k p hk (hready.mono fun p' hp' => ?_) hks
      rwa [held_mark hsized hs, if_neg (by bv_omega)] at hp'
  · rw [hend, held_mark hsized hs] at hp
    split_ifs at hp with hks
    · cases hp
      exact .inl rfl
    · rcases h.wraps p hp with hcontinuous | ⟨heq, -⟩
      · exact .inl hcontinuous
      · exact absurd heq hks

theorem Searching.handedOut (h : Searching q s (rounds + 1)) (hsized : Sized q)
    (hs : q.held s = some packet) (hstart : s = start + BitVec.ofNat 16 front.length)
    (hshort : front.length < 32769)
    (hout : HandedOut (q.mark s packet) q' start (front ++ [packet.setContinuous true])) :
    Searching q' (s + 1) rounds := by
  have hend : s + 1 + BitVec.ofNat 16 rounds = s + BitVec.ofNat 16 (rounds + 1) := by bv_omega
  have hheld : ∀ k p, q'.held k = some p → q.held k = some p ∧ k ≠ s := by
    intro k p hk
    rw [hout.taken k, length_append, length_singleton] at hk
    split_ifs at hk with hin
    have hne : k ≠ s := by bv_omega
    rw [held_mark hsized hs, if_neg hne] at hk
    exact ⟨hk, hne⟩
  refine ⟨fun k p hk hpad => ?_, fun k p hk hready _ => ?_, fun p hp => ?_⟩
  · exact h.apart k p (hheld k p hk).1 (hout.kept.padding k hpad)
  · exact h.settled k p (hheld k p hk).1 (hready.mono fun p' hp' => (hheld _ p' hp').1) (hheld k p hk).2
  · rw [hend] at hp
    obtain ⟨hold, hne⟩ := hheld _ p hp
    exact .inl ((h.wraps p hold).resolve_right fun heq => hne heq.1)

/-! The cases of a round. -/

section Rounds

variable {search : Search (BitVec 16)} {begin : BitVec 16} {rounds : Nat}

theorem findFramesFrom_padding (hpad : (find search q.receivedPadding s).isSome = true) :
    findFramesFrom search begin (rounds + 1) s q = findFramesFrom search begin rounds (s + 1) q := by
  rw [findFramesFrom, if_pos hpad]

section

variable (hpad : ¬ (find search q.receivedPadding s).isSome = true)
include hpad

theorem findFramesFrom_stop (hpotential : q.potentialNewFrame s = false) :
    findFramesFrom search begin (rounds + 1) s q = some (q, []) := by
  rw [findFramesFrom, if_neg hpad, hpotential]
  rfl

theorem findFramesFrom_mark (hpotential : q.potentialNewFrame s = true)
    (hs : q.held s = some packet) (hlast : packet.isLastPacketInFrame = false) :
    findFramesFrom search begin (rounds + 1) s q =
      findFramesFrom search begin rounds (s + 1) (q.mark s packet) := by
  have hnot : ¬ (packet.setContinuous true).isLastPacketInFrame = true := ne_true_of_eq_false hlast
  rw [findFramesFrom, if_neg hpad, hpotential, (held_eq_some.mp hs).1]
  dsimp only
  rw [if_neg hnot]
  rfl

theorem findFramesFrom_finish (hpotential : q.potentialNewFrame s = true)
    (hs : q.held s = some packet) (hlast : packet.isLastPacketInFrame = true)
    {frame : List (Packet β)}
    (hfinish : finishFrame search begin s (packet.setContinuous true) (q.mark s packet) =
      some ⟨q', frame, true⟩) {q'' : PacketBuffer β} {packets : List (Packet β)}
    (hrest : findFramesFrom search begin rounds (s + 1) q' = some (q'', packets)) :
    findFramesFrom search begin (rounds + 1) s q = some (q'', frame ++ packets) := by
  have hend : (packet.setContinuous true).isLastPacketInFrame = true := hlast
  rw [findFramesFrom, if_neg hpad, hpotential, if_neg (by decide), (held_eq_some.mp hs).1]
  dsimp only
  rw [if_pos hend, hfinish]
  dsimp only
  rw [if_pos rfl, hrest]

end

end Rounds

theorem Lawful.findFramesFrom_spec (h : Lawful q) (search : Search (BitVec 16)) (begin : BitVec 16)
    (rounds : Nat) (s : BitVec 16) :
    ∃ q' packets, findFramesFrom search begin rounds s q = some (q', packets) ∧ Found q q' packets ∧
      (Searching q s rounds → Settled q') := by
  induction rounds generalizing q s with
  | zero =>
    refine ⟨q, [], rfl, Found.refl h, fun hsearch => hsearch.settled_of_not_ready fun p hp _ => ?_⟩
    refine (hsearch.wraps p ?_).resolve_right fun hwrap => Nat.lt_irrefl 0 hwrap.2
    rw [BitVec.add_zero]
    exact hp
  | succ rounds ih =>
    by_cases hpad : (find search q.receivedPadding s).isSome = true
    · obtain ⟨q', packets, hrest, hfound, hsettled⟩ := ih h (s + 1)
      refine ⟨q', packets, (findFramesFrom_padding hpad).trans hrest, hfound,
        fun hsearch => hsettled (hsearch.skip ?_)⟩
      rw [Option.eq_none_iff_forall_ne_some]
      exact fun p hp => hsearch.apart s p hp (mem_of_find hpad)
    · cases hpotential : q.potentialNewFrame s with
      | false =>
        refine ⟨q, [], findFramesFrom_stop hpad hpotential, Found.refl h,
          fun hsearch => hsearch.settled_of_not_ready ?_⟩
        intro p hp hready
        have := (potentialNewFrame_iff h.sized).mpr ⟨p, hp, hready⟩
        exact absurd this (ne_true_of_eq_false hpotential)
      | true =>
        obtain ⟨packet, hs, hready⟩ := (potentialNewFrame_iff h.sized).mp hpotential
        cases hlast : packet.isLastPacketInFrame with
        | true =>
          obtain ⟨start, front, hstart, hrun, hfront⟩ := h.exists_run_mark hs hready
          obtain ⟨q', hfinish, hout, hlawful, hshort⟩ :=
            h.finish search begin hs hlast hstart hrun hfront
          obtain ⟨q'', packets, hrest, hfound, hsettled⟩ := ih hlawful (s + 1)
          exact ⟨q'', _, findFramesFrom_finish hpad hpotential hs hlast hfinish hrest,
            (hout.found (hrun.isFrame hfront hlast) hfound).mark h.sized hs,
            fun hsearch => hsettled (hsearch.handedOut h.sized hs hstart hshort hout)⟩
        | false =>
          obtain ⟨q', packets, hrest, hfound, hsettled⟩ := ih (h.mark hs hready hlast) (s + 1)
          exact ⟨q', packets, (findFramesFrom_mark hpad hpotential hs hlast).trans hrest,
            hfound.mark h.sized hs, fun hsearch => hsettled (hsearch.mark h.sized hs)⟩

theorem setContinuous_eq {continuous : Bool} (h : packet.continuous = continuous) :
    packet.setContinuous continuous = packet := by
  subst h
  rfl

theorem getElem?_mark {p : Packet β}
    (hp : (front ++ packet.setContinuous true :: back)[i]? = some p) :
    i = front.length ∧ p = packet.setContinuous true ∨
      i ≠ front.length ∧ (front ++ packet :: back)[i]? = some p := by
  have hset : front ++ packet.setContinuous true :: back =
      (front ++ packet :: back).set front.length (packet.setContinuous true) := by
    rw [set_append_right _ _ (Nat.le_refl _), Nat.sub_self, set_cons_zero]
  rw [hset, getElem?_set] at hp
  split_ifs at hp with heq
  · exact .inl ⟨heq.symm, (Option.some.inj hp).symm⟩
  · exact .inr ⟨Ne.symm heq, hp⟩

theorem Run.mark (hsized : Sized q) (hrun : Run q start (front ++ packet :: back))
    (hshort : (front ++ packet :: back).length ≤ 32769) :
    Run (q.mark (start + BitVec.ofNat 16 front.length) packet) start
      (front ++ packet.setContinuous true :: back) := by
  have hat : (front ++ packet :: back)[front.length]? = some packet := by simp
  have hs := hrun.stored _ _ hat
  refine ⟨fun i p hp => ?_, fun i p hp => ?_, ?_⟩
  · rcases getElem?_mark hp with ⟨rfl, rfl⟩ | ⟨hne, hp⟩
    · rw [held_mark hsized hs, if_pos rfl]
    · have hlt := (List.getElem?_eq_some_iff.mp hp).1
      rw [List.length_append] at hlt hshort
      rw [held_mark hsized hs, if_neg (by bv_omega)]
      exact hrun.stored i p hp
  · rcases getElem?_mark hp with ⟨rfl, rfl⟩ | ⟨-, hp⟩
    · exact (hrun.first _ packet hat :)
    · exact hrun.first i p hp
  · have hall : ∀ p ∈ front ++ packet.setContinuous true :: back, p.timestamp = packet.timestamp := by
      intro p hp
      rcases List.mem_append.mp hp with hp | hp
      · exact hrun.timestamp p (List.mem_append_left _ hp) packet (by simp)
      · rcases List.mem_cons.mp hp with rfl | hp
        · rfl
        · exact hrun.timestamp p (by simp [hp]) packet (by simp)
    intro p hp p' hp'
    rw [hall p hp, hall p' hp']

theorem Lawful.findFramesFrom_frame (h : Lawful q) (search : Search (BitVec 16)) (begin : BitVec 16)
    (hne : back ≠ []) (hrun : Run q start (front ++ back))
    (hfront : ∀ p ∈ front, p.continuous = true) (hlast : ∀ i p, (front ++ back)[i]? = some p →
      (p.isLastPacketInFrame = true ↔ i + 1 = (front ++ back).length))
    (hpadding : ∀ p ∈ back, p.seqNum ∉ q.receivedPadding) (hrounds : back.length ≤ rounds) :
    ∃ q' packets, findFramesFrom search begin rounds (start + BitVec.ofNat 16 front.length) q =
      some (q', (front ++ back).map (·.setContinuous true) ++ packets) := by
  induction back generalizing q front rounds with
  | nil => exact absurd rfl hne
  | cons packet back ih =>
    obtain ⟨rounds, rfl⟩ := Nat.exists_eq_add_one_of_ne_zero
      (show rounds ≠ 0 by rw [length_cons] at hrounds; omega)
    have hat : (front ++ packet :: back)[front.length]? = some packet := by simp
    have hs := hrun.stored _ _ hat
    have hshort := hrun.length_le fun k p hk => (h.window k p hk).2
    have hpad : ¬ (find search q.receivedPadding
        (start + BitVec.ofNat 16 front.length)).isSome = true := by
      intro hfind
      refine hpadding packet mem_cons_self ?_
      rw [(held_eq_some.mp hs).2]
      exact mem_of_find hfind
    have hready : Ready q (start + BitVec.ofNat 16 front.length) packet := by
      rcases eq_nil_or_concat front with rfl | ⟨front', previous, rfl⟩
      · exact .inl ((hrun.first 0 packet hat).mpr rfl)
      · rw [concat_eq_append] at hrun hfront ⊢
        have hprevious : (front' ++ [previous] ++ packet :: back)[front'.length]? = some previous := by
          simp
        refine .inr ⟨previous, ?_, ?_, hfront previous (by simp)⟩
        · rw [← hrun.stored _ _ hprevious, length_append, length_singleton]
          congr 1
          bv_omega
        · exact hrun.timestamp previous (by simp) packet (by simp)
    have hpotential := (potentialNewFrame_iff h.sized).mpr ⟨packet, hs, hready⟩
    have hends := hlast _ _ hat
    have hrun' := hrun.mark h.sized hshort
    rw [length_append, length_cons] at hends
    cases back with
    | nil =>
      have hend := hends.mpr rfl
      have hothers : ∀ p ∈ front, p.isLastPacketInFrame = false := by
        intro p hp
        obtain ⟨i, hi, hpi⟩ := mem_iff_getElem.mp hp
        refine eq_false_of_ne_true fun hend' => ?_
        have := (hlast i p (by rw [getElem?_append_left hi, getElem?_eq_getElem hi, hpi])).mp
          hend'
        rw [length_append, length_singleton] at this
        omega
      obtain ⟨q', hfinish, -, hlawful, -⟩ := h.finish search begin hs hend rfl hrun' hothers
      obtain ⟨q'', packets, hrest, -⟩ := hlawful.findFramesFrom_spec search begin rounds
        (start + BitVec.ofNat 16 front.length + 1)
      refine ⟨q'', packets, ?_⟩
      have hmarked : front.map (·.setContinuous true) = front :=
        (map_congr_left fun p hp => setContinuous_eq (hfront p hp)).trans (map_id front)
      rw [findFramesFrom_finish hpad hpotential hs hend hfinish hrest, map_append, hmarked]
      rfl
    | cons next back =>
      have hnot := eq_false_of_ne_true fun hend => by
        have := hends.mp hend
        rw [length_cons] at this
        omega
      have hnumber : start + BitVec.ofNat 16 front.length + 1 =
          start + BitVec.ofNat 16 (front ++ [packet.setContinuous true]).length := by
        rw [length_append, length_singleton]
        bv_omega
      have hsplit : front ++ packet.setContinuous true :: next :: back =
          (front ++ [packet.setContinuous true]) ++ next :: back := by simp
      have hfront' : ∀ p ∈ front ++ [packet.setContinuous true], p.continuous = true := by
        exact forall_mem_append.mpr ⟨hfront, forall_mem_singleton.mpr rfl⟩
      have hlast' : ∀ i p, (front ++ packet.setContinuous true :: next :: back)[i]? = some p →
          (p.isLastPacketInFrame = true ↔
            i + 1 = (front ++ packet.setContinuous true :: next :: back).length) := by
        intro i p hp
        have hlength : (front ++ packet.setContinuous true :: next :: back).length =
          (front ++ packet :: next :: back).length := by simp
        rw [hlength]
        rcases getElem?_mark hp with ⟨rfl, rfl⟩ | ⟨-, hp⟩
        · exact (hlast _ packet hat :)
        · exact hlast i p hp
      rw [hsplit] at hrun' hlast'
      obtain ⟨q', packets, hrest⟩ := ih (h.mark hs hready hnot) (nofun) hrun' hfront'
        hlast' ((forall_mem_cons.mp hpadding).2) (Nat.le_of_succ_le_succ hrounds)
      refine ⟨q', packets, ?_⟩
      rw [findFramesFrom_mark hpad hpotential hs hnot, hnumber, hrest, ← hsplit, map_append,
        map_append]
      rfl

end PacketBuffer

end Video
