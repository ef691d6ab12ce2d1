import WebRtc.Congestion.PacketArrivalMap

/-!
# The circular buffer is a plain map

Every call on `PacketArrivalTimeMap` does to its window what the plain map says, with each
entry of the window in a slot of its own.
-/

namespace Congestion

open Units RingBuffer Function

namespace PacketArrivalTimeMap

/-- The capacity is a power of two, from the least to the greatest one. -/
def Sized (cells : List (Option Timestamp)) : Prop :=
  ∃ k, 7 ≤ k ∧ k ≤ 15 ∧ cells.length = 2 ^ k

section Buffer

variable {m : PacketArrivalTimeMap} {cells : List (Option Timestamp)}

theorem Sized.bounds (h : Sized cells) : 128 ≤ cells.length ∧ cells.length ≤ 32768 := by
  obtain ⟨k, hlow, hhigh, hlength⟩ := h
  rw [hlength]
  exact ⟨Nat.pow_le_pow_right (n := 2) (by norm_num) hlow,
    Nat.pow_le_pow_right (n := 2) (by norm_num) hhigh⟩

theorem index_eq_slot {capacity k : Nat} (hk : k ≤ 15) (hcapacity : capacity = 2 ^ k) (i : Int) :
    index capacity i = slot capacity i := by
  have hmask : ((2 ^ k : Nat) - 1 : Int) % 2 ^ 64 = (2 ^ k : Nat) - 1 := by
    have hle : 2 ^ k ≤ 2 ^ 15 := Nat.pow_le_pow_right (n := 2) (by norm_num) hk
    have hpos : 0 < 2 ^ k := Nat.two_pow_pos k
    apply Int.emod_eq_of_lt <;> omega
  have hnonneg := Int.emod_nonneg i (b := (2 : Int) ^ 64) (by norm_num)
  have hdvd : ((2 ^ k : Nat) : Int) ∣ 2 ^ 64 := by
    exact pow_dvd_pow (2 : Int) (by omega)
  have hmasked : (((2 ^ k : Nat) : Int) - 1).toNat = 2 ^ k - 1 := by omega
  subst hcapacity
  rw [index, BitVec.toNat_and, BitVec.toNat_ofInt, BitVec.toNat_ofInt]
  simp only [Nat.cast_pow, Nat.cast_ofNat] at hmask hdvd hmasked ⊢
  rw [hmask, hmasked, Nat.and_two_pow_sub_one_eq_mod, slot]
  zify
  rw [Int.toNat_of_nonneg hnonneg, Int.emod_emod_of_dvd i hdvd,
    Int.toNat_of_nonneg (Int.emod_nonneg i (by positivity))]

theorem Sized.index_eq (h : Sized cells) (i : Int) : index cells.length i = slot cells.length i := by
  obtain ⟨k, -, hk, hlength⟩ := h
  exact index_eq_slot hk hlength i

section

variable (h : Sized m.arrivalTimes)
include h

theorem arrivalTime_eq (i : Int) : m.arrivalTime i = read m.arrivalTimes i := by
  rw [arrivalTime, h.index_eq]
  rfl

theorem arrivalTimes_setArrivalTime (i : Int) (t : Timestamp) :
    (m.setArrivalTime i t).arrivalTimes = put m.arrivalTimes i (some t) := by
  rw [setArrivalTime, h.index_eq, put]

theorem setNotReceived_eq (first last : Int) : m.setNotReceived first last =
      { m with arrivalTimes := fill .minusInfinity first last m.arrivalTimes } := by
  rw [setNotReceived, h.index_eq, h.index_eq, fill]
  split_ifs <;> rfl

theorem reallocateLoop_eq :
    ∀ (n : Nat) (i : Int) (newBuffer : List (Option Timestamp)), Sized newBuffer →
      m.reallocateLoop n i newBuffer = copyTo m.arrivalTimes n i newBuffer := by
  intro n
  induction n with
  | zero => exact fun _ _ _ => rfl
  | succ n ih =>
    intro i newBuffer hnew
    have hput : newBuffer.set (index newBuffer.length i) (m.arrivalTime i) =
        put newBuffer i (read m.arrivalTimes i) := by
      rw [hnew.index_eq, arrivalTime_eq h, put]
    rw [reallocateLoop, hput]
    apply ih
    obtain ⟨k, hlow, hhigh, hlength⟩ := hnew
    exact ⟨k, hlow, hhigh, (length_put ..).trans hlength⟩

theorem arrivalTimes_reallocate {k : Nat} (hlow : 7 ≤ k) (hk : k ≤ 15) :
    (m.reallocate (2 ^ k)).arrivalTimes =
      RingBuffer.reallocate (2 ^ k) m.beginSequenceNumber m.endSequenceNumber m.arrivalTimes :=
  reallocateLoop_eq h _ _ _ ⟨k, hlow, hk, List.length_replicate⟩

end

theorem grow_spec {newSize : Nat} (hsize : newSize ≤ 32768) :
    ∀ (fuel k : Nat), 7 ≤ k → k ≤ 15 → newSize ≤ 2 ^ k + fuel →
      ∃ k', k ≤ k' ∧ k' ≤ 15 ∧ grow newSize fuel (2 ^ k) = 2 ^ k' ∧ newSize ≤ 2 ^ k' := by
  intro fuel
  induction fuel with
  | zero => exact fun k _ hk henough => ⟨k, le_rfl, hk, rfl, henough⟩
  | succ fuel ih =>
    intro k hlow hk henough
    rw [grow]
    split_ifs with hsmall
    · have hnext : k + 1 ≤ 15 := by
        by_contra hlarge
        have : k = 15 := by omega
        subst this
        omega
      have hpos : 0 < 2 ^ k := Nat.two_pow_pos k
      obtain ⟨k', hle, hk', hgrow, hlarge⟩ := ih (k + 1) (by omega) hnext (by rw [pow_succ]; omega)
      exact ⟨k', by omega, hk', by rw [← pow_succ, hgrow], hlarge⟩
    · exact ⟨k, le_rfl, hk, rfl, by omega⟩

theorem shrink_spec {newSize : Nat} : ∀ (fuel k : Nat), 7 ≤ k → k ≤ 15 → newSize ≤ 2 ^ k →
      ∃ k', 7 ≤ k' ∧ k' ≤ 15 ∧ shrink newSize fuel (2 ^ k) = 2 ^ k' ∧ newSize ≤ 2 ^ k' := by
  intro fuel
  induction fuel with
  | zero => exact fun k hlow hk hlarge => ⟨k, hlow, hk, rfl, hlarge⟩
  | succ fuel ih =>
    intro k hlow hk hlarge
    rw [shrink]
    split_ifs with hwide
    · rw [kMinCapacity] at hwide
      obtain ⟨j, rfl⟩ : ∃ j, k = j + 1 := ⟨k - 1, by omega⟩
      have hj : 7 ≤ j := by
        by_contra hsmall
        have : j = 6 := by omega
        subst this
        omega
      rw [pow_succ, Nat.mul_div_cancel _ (by norm_num)]
      exact ih j hj (by omega) (by rw [pow_succ] at hwide; omega)
    · exact ⟨k, hlow, hk, rfl, hlarge⟩

end Buffer

/-- The buffer holds the values of a function on a window of sequence numbers. -/
structure Holds (m : PacketArrivalTimeMap) (first last : Int) (f : Int → Timestamp) : Prop where
  sized : Sized m.arrivalTimes
  fits : last ≤ first + m.arrivalTimes.length
  reads : ∀ i, first ≤ i → i < last → read m.arrivalTimes i = some (f i)

section Windows

variable {m : PacketArrivalTimeMap} {first last : Int} {f g : Int → Timestamp}

theorem Holds.dropTo (h : Holds m first last f) {i : Int} (lower : first ≤ i) :
    Holds m i last f where
  sized := h.sized
  fits := by
    have := h.fits
    omega
  reads j hj := h.reads j (lower.trans hj)

theorem Holds.congr (h : Holds m first last f) (same : ∀ i, first ≤ i → i < last → g i = f i) :
    Holds m first last g where
  sized := h.sized
  fits := h.fits
  reads i hlower hupper := by rw [h.reads i hlower hupper, same i hlower hupper]

section

variable (h : Holds m m.beginSequenceNumber m.endSequenceNumber f)
include h

theorem Holds.reallocate {k : Nat} (hlow : 7 ≤ k) (hk : k ≤ 15)
    (fits : m.endSequenceNumber ≤ m.beginSequenceNumber + (2 ^ k : Nat)) :
    Holds (m.reallocate (2 ^ k)) m.beginSequenceNumber m.endSequenceNumber f := by
  have hcells := arrivalTimes_reallocate h.sized hlow hk
  constructor
  · rw [hcells]
    exact ⟨k, hlow, hk, length_reallocate ..⟩
  · rw [hcells, length_reallocate]
    exact fits
  · intro i hlower hupper
    rw [hcells, read_reallocate fits hlower hupper]
    exact h.reads i hlower hupper

theorem Holds.growToSize {n : Nat} (hn : m.endSequenceNumber - m.beginSequenceNumber ≤ n)
    (hmax : n ≤ 32768) :
    Holds (m.growToSize n) m.beginSequenceNumber m.endSequenceNumber f ∧
      n ≤ (m.growToSize n).arrivalTimes.length := by
  unfold PacketArrivalTimeMap.growToSize
  split_ifs with hgrow
  · obtain ⟨k, hlow, hk, hlength⟩ := h.sized
    obtain ⟨k', hle, hk', hgrown, hlarge⟩ := grow_spec hmax n k hlow hk (by omega)
    rw [hlength, hgrown]
    refine ⟨h.reallocate (by omega) hk' (by omega), ?_⟩
    rw [arrivalTimes_reallocate h.sized (by omega) hk', length_reallocate]
    exact hlarge
  · exact ⟨h, by omega⟩

theorem Holds.shrinkToSize {n : Nat} (hn : m.endSequenceNumber - m.beginSequenceNumber ≤ n)
    (hlarge : n ≤ m.arrivalTimes.length) :
    Holds (m.shrinkToSize n) m.beginSequenceNumber m.endSequenceNumber f ∧
      n ≤ (m.shrinkToSize n).arrivalTimes.length := by
  unfold PacketArrivalTimeMap.shrinkToSize
  split_ifs with hshrink
  · obtain ⟨k, hlow, hk, hlength⟩ := h.sized
    obtain ⟨k', hlow', hk', hshrunk, hlarge'⟩ :=
      shrink_spec m.arrivalTimes.length k hlow hk (hlength ▸ hlarge)
    rw [← hlength] at hshrunk
    rw [hshrunk]
    refine ⟨h.reallocate hlow' hk' (by omega), ?_⟩
    rw [arrivalTimes_reallocate h.sized hlow' hk', length_reallocate]
    exact hlarge'
  · exact ⟨h, hlarge⟩

end

theorem bounds_growToSize (m : PacketArrivalTimeMap) (n : Nat) :
    (m.growToSize n).beginSequenceNumber = m.beginSequenceNumber ∧
      (m.growToSize n).endSequenceNumber = m.endSequenceNumber := by
  unfold growToSize
  split_ifs <;> exact ⟨rfl, rfl⟩

theorem bounds_adjustToSize (m : PacketArrivalTimeMap) (newSize : Int) :
    (m.adjustToSize newSize).beginSequenceNumber = m.beginSequenceNumber ∧
      (m.adjustToSize newSize).endSequenceNumber = m.endSequenceNumber := by
  unfold adjustToSize shrinkToSize
  split_ifs <;> exact bounds_growToSize m _

theorem Holds.adjustToSize (h : Holds m m.beginSequenceNumber m.endSequenceNumber f) {n : Int}
    (hpos : 0 ≤ n) (hn : m.endSequenceNumber - m.beginSequenceNumber ≤ n) (hmax : n ≤ 32768) :
    Holds (m.adjustToSize n) m.beginSequenceNumber m.endSequenceNumber f ∧
      n ≤ (m.adjustToSize n).arrivalTimes.length := by
  obtain ⟨hgrown, hlarge⟩ := h.growToSize (n := n.toNat) (by omega) (by omega)
  rw [← (bounds_growToSize m n.toNat).1, ← (bounds_growToSize m n.toNat).2] at hgrown hn ⊢
  obtain ⟨hshrunk, hlarge'⟩ := hgrown.shrinkToSize (by omega) hlarge
  exact ⟨hshrunk, by rw [PacketArrivalTimeMap.adjustToSize]; omega⟩

theorem Holds.setArrivalTime (h : Holds m first last f) {i : Int}
    (lower : last ≤ i + m.arrivalTimes.length) (upper : i < first + m.arrivalTimes.length)
    (t : Timestamp) : Holds (m.setArrivalTime i t) first last (Function.update f i t) := by
  have hcells := arrivalTimes_setArrivalTime h.sized i t
  obtain ⟨k, hlow, hk, hlength⟩ := h.sized
  constructor
  · rw [hcells]
    exact ⟨k, hlow, hk, (length_put ..).trans hlength⟩
  · rw [hcells, length_put]
    exact h.fits
  · intro j hj hj'
    rw [hcells, read_put _ (by omega) (by omega)]
    split_ifs with heq
    · rw [heq, update_self]
    · rw [update_of_ne heq, h.reads j hj hj']

theorem holds_setArrivalTime_self (sized : Sized m.arrivalTimes) (i : Int) (t : Timestamp) :
    Holds (m.setArrivalTime i t) i (i + 1) (Function.update f i t) := by
  have hempty : Holds m i i f := by
    refine ⟨sized, by omega, ?_⟩
    intro j hj hj'
    omega
  have hpos := sized.bounds.1
  have hset := hempty.setArrivalTime (i := i) (by omega) (by omega) t
  refine ⟨hset.sized, ?_, ?_⟩
  · have := hset.sized.bounds.1
    omega
  · intro j hj hj'
    obtain rfl : j = i := by omega
    rw [arrivalTimes_setArrivalTime sized, read_put _ (by omega) (by omega), if_pos rfl,
      update_self]

theorem Holds.join {middle : Int} (before : Holds m first middle f) (after : Holds m middle last f)
    (fits : last ≤ first + m.arrivalTimes.length) : Holds m first last f := by
  refine ⟨before.sized, fits, ?_⟩
  intro i hi hi'
  by_cases hmiddle : i < middle
  · exact before.reads i hi hmiddle
  · exact after.reads i (not_lt.mp hmiddle) hi'

theorem Holds.setNotReceived {low a b high : Int} (before : Holds m low a f)
    (after : Holds m b high f) (hlow : low ≤ a) (hab : a ≤ b) (hhigh : b ≤ high)
    (fits : high ≤ low + m.arrivalTimes.length) (short : b < a + m.arrivalTimes.length) :
    Holds (m.setNotReceived a b) low high
      (fun i => if a ≤ i ∧ i < b then .minusInfinity else f i) := by
  rw [setNotReceived_eq before.sized]
  obtain ⟨k, hk, hk', hlength⟩ := before.sized
  constructor
  · exact ⟨k, hk, hk', (length_fill ..).trans hlength⟩
  · exact fits.trans_eq (congrArg _ (congrArg _ (length_fill ..).symm))
  · intro i hi hi'
    rw [read_fill _ hlow hab (by omega) short hi (by omega)]
    split_ifs with hgap
    · rfl
    · by_cases hia : i < a
      · exact before.reads i hi hia
      · exact after.reads i (by omega) hi'

end Windows

structure Refines (m : PacketArrivalTimeMap) (w : ArrivalWindow) : Prop where
  seen : w.seen = m.hasSeenPacket
  first : m.beginSequenceNumber = w.first
  last : m.endSequenceNumber = w.last
  ordered : w.first ≤ w.last
  narrow : w.last ≤ w.first + 32768
  empty : w.seen = false → w.first = w.last
  holds : w.seen = true → Holds m w.first w.last w.get
  inside : ∀ i t, w.times i = some t → w.first ≤ i ∧ i < w.last ∧ UnitBase.zero ≤ t

section Refinement

variable {m : PacketArrivalTimeMap} {w : ArrivalWindow} {i : Int} {t : Timestamp}

theorem refines_initial : Refines {} ArrivalWindow.initial where
  seen := rfl
  first := rfl
  last := rfl
  ordered := le_rfl
  narrow := by decide
  empty _ := rfl
  holds hseen := Bool.noConfusion hseen
  inside := nofun

theorem Sized.seen (h : Sized m.arrivalTimes) : m.hasSeenPacket = true := by
  have hpos := h.bounds.1
  refine decide_eq_true fun hnil => ?_
  rw [hnil] at hpos
  exact absurd hpos (by decide)

theorem refines_update (hfirst : m.beginSequenceNumber = w.first) (hlast : m.endSequenceNumber = w.last)
    (hseen : w.seen = true) (nonneg : UnitBase.zero ≤ t) (lower : w.first ≤ i) (upper : i < w.last)
    (narrow : w.last ≤ w.first + 32768)
    (inside : ∀ j t, w.times j = some t → w.first ≤ j ∧ j < w.last ∧ UnitBase.zero ≤ t)
    (holds : Holds m w.first w.last (Function.update w.get i t)) :
    Refines m { w with times := Function.update w.times i (some t) } := by
  refine ⟨hseen.trans holds.sized.seen.symm, hfirst, hlast, (lower.trans_lt upper).le, narrow,
    fun hfalse => Bool.noConfusion (hseen.symm.trans hfalse), fun _ => holds.congr fun j _ _ => ?_,
    fun j t' htime => ?_⟩
  · change (update w.times i (some t) j).getD .minusInfinity = _
    by_cases heq : j = i
    · rw [heq, update_self, update_self]
      rfl
    · rw [update_of_ne heq, update_of_ne heq]
      rfl
  · dsimp only at htime
    by_cases heq : j = i
    · rw [heq, update_self] at htime
      cases htime
      exact ⟨heq ▸ lower, heq ▸ upper, nonneg⟩
    · rw [update_of_ne heq] at htime
      exact inside j t' htime

section

variable (h : Refines m w)
include h

theorem Refines.addFirst (hseen : w.seen = false) (i : Int) (nonneg : UnitBase.zero ≤ t) :
    Refines (m.addPacket i t) (w.add i t) := by
  have hunseen := h.seen.symm.trans hseen
  have hcells : (m.reallocate kMinCapacity).arrivalTimes = List.replicate 128 none := by
    have hnone : (m.endSequenceNumber - m.beginSequenceNumber).toNat = 0 := by
      rw [h.first, h.last, h.empty hseen]
      omega
    rw [reallocate, hnone]
    rfl
  have hsized : Sized (m.reallocate kMinCapacity).arrivalTimes := by
    rw [hcells]
    exact ⟨7, le_rfl, by norm_num, List.length_replicate⟩
  have hset := holds_setArrivalTime_self (m := { m.reallocate kMinCapacity with
    beginSequenceNumber := i, endSequenceNumber := i + 1 }) (f := fun _ => .minusInfinity) hsized i t
  rw [addPacket, hunseen, ArrivalWindow.add, if_pos hseen]
  exact refines_update (w := ⟨true, i, i + 1, fun _ => none⟩) rfl rfl rfl nonneg le_rfl
    (lt_add_one i) (by dsimp only; omega) nofun hset

theorem Refines.get_outside (outside : i < w.first ∨ w.last ≤ i) : w.get i = .minusInfinity := by
  rw [ArrivalWindow.get]
  cases htime : w.times i with
  | none => rfl
  | some t =>
    have := h.inside i t htime
    omega

theorem Refines.addBefore (hseen : w.seen = true) (nonneg : UnitBase.zero ≤ t)
    (before : i < w.first) :
    Refines (m.addBefore i t) (if ArrivalWindow.limit < w.last - i then w
      else { w with first := i, times := Function.update w.times i (some t) }) := by
  have hordered := h.ordered
  have hlimit : m.endSequenceNumber - i > kMaxNumberOfPackets ↔
      ArrivalWindow.limit < w.last - i := by
    rw [h.last]
    rfl
  unfold PacketArrivalTimeMap.addBefore
  by_cases hold : ArrivalWindow.limit < w.last - i
  · rw [if_pos hold, if_pos (hlimit.mpr hold)]
    exact h
  rw [if_neg hold, if_neg (hold ∘ hlimit.mp)]
  have hmax : w.last - i ≤ 32768 := not_lt.mp hold
  have hholds := h.holds hseen
  have hfirst := h.first
  have hlast := h.last
  rw [← hfirst, ← hlast] at hholds
  obtain ⟨hadjusted, hlarge⟩ := hholds.adjustToSize (n := m.endSequenceNumber - i) (by omega)
    (by omega) (by omega)
  have hend := (bounds_adjustToSize m (m.endSequenceNumber - i)).2
  generalize m.adjustToSize (m.endSequenceNumber - i) = m' at hadjusted hlarge hend ⊢
  simp only [hlast] at hadjusted hlarge hend ⊢
  -- The packet and the old window lie in different slots, and the gap between them is short.
  have hkept := hadjusted.setArrivalTime (i := i) (by omega) (by omega) t
  have hself := holds_setArrivalTime_self (f := w.get) hadjusted.sized i t
  have hlength : (m'.setArrivalTime i t).arrivalTimes.length = m'.arrivalTimes.length :=
    List.length_set
  have hfilled := hself.setNotReceived hkept (by omega) (by omega) (by omega)
    (by rw [hlength]; omega) (by rw [hlength]; omega)
  refine refines_update (w := { w with first := i }) rfl ?_ hseen nonneg le_rfl
    (before.trans_le hordered) (by dsimp only; omega) (fun j t' htime => ?_)
    (Holds.congr { hfilled with } fun j _ _ => ?_)
  · rw [setNotReceived_eq hkept.sized]
    exact hend
  · obtain ⟨hj, hrest⟩ := h.inside j t' htime
    exact ⟨before.le.trans hj, hrest⟩
  · split_ifs with hgap
    · rw [update_of_ne (by omega)]
      exact h.get_outside (Or.inl (by omega))
    · rfl

theorem Refines.dropTo (lower : w.first ≤ i) (upper : i ≤ w.last)
    (hempty : w.seen = false → i = w.last) :
    Refines { m with beginSequenceNumber := i } (w.dropTo i) where
  seen := h.seen
  first := rfl
  last := h.last
  ordered := upper
  narrow := by
    have := h.narrow
    show w.last ≤ i + 32768
    omega
  empty := hempty
  holds := by
    intro hseen
    have hholds := (h.holds hseen).dropTo lower
    refine ⟨hholds.sized, hholds.fits, ?_⟩
    intro j hj hj'
    refine (hholds.reads j hj hj').trans ?_
    have hkept : (w.dropTo i).times j = w.times j := if_neg (not_lt.mpr hj)
    rw [ArrivalWindow.get, ArrivalWindow.get, hkept]
  inside := by
    intro j t htime
    rw [ArrivalWindow.dropTo] at htime
    dsimp only at htime
    split_ifs at htime with hj
    obtain ⟨-, hlast, hnonneg⟩ := h.inside j t htime
    exact ⟨not_lt.mp hj, hlast, hnonneg⟩

section

variable (hseen : w.seen = true) (nonneg : UnitBase.zero ≤ t) (after : w.last ≤ i)
include hseen nonneg after

/-- A packet so far ahead that nothing of the old window stays. -/
theorem Refines.addFar : Refines ({ m with
        beginSequenceNumber := i
        endSequenceNumber := i + 1 }.setArrivalTime i t)
      { w.dropTo i with
        last := i + 1
        times := Function.update (w.dropTo i).times i (some t) } := by
  have hset := holds_setArrivalTime_self (m := { m with
    beginSequenceNumber := i, endSequenceNumber := i + 1 }) (f := (w.dropTo i).get)
    (h.holds hseen).sized i t
  refine refines_update (w := { w.dropTo i with last := i + 1 }) rfl rfl hseen nonneg le_rfl
    (lt_add_one i) (by change i + 1 ≤ i + 32768; omega) (fun j t' htime => ?_) hset
  change (if j < i then none else w.times j) = some t' at htime
  split_ifs at htime with hj
  have := (h.inside j t' htime).2.1
  omega

/-- A packet past the window that fits with it into the limit. -/
theorem Refines.addNear (fits : i + 1 ≤ w.first + 32768) :
    Refines ({ (m.adjustToSize (i + 1 - m.beginSequenceNumber)).setNotReceived
        m.endSequenceNumber i with
        endSequenceNumber := i + 1 }.setArrivalTime i t)
      { w with
        last := i + 1
        times := Function.update w.times i (some t) } := by
  have hordered := h.ordered
  have hfirst := h.first
  have hlast := h.last
  have hholds := h.holds hseen
  rw [← hfirst, ← hlast] at hholds
  obtain ⟨hadjusted, hlarge⟩ := hholds.adjustToSize (n := i + 1 - m.beginSequenceNumber)
    (by omega) (by omega) (by omega)
  have hbegin := (bounds_adjustToSize m (i + 1 - m.beginSequenceNumber)).1
  generalize m.adjustToSize (i + 1 - m.beginSequenceNumber) = m' at hadjusted hlarge hbegin ⊢
  simp only [hfirst, hlast] at hadjusted hlarge hbegin ⊢
  have hnone : Holds m' i i w.get := by
    refine ⟨hadjusted.sized, by omega, ?_⟩
    intro j hj hj'
    omega
  have hfilled := hadjusted.setNotReceived hnone hordered after le_rfl (by omega) (by omega)
  have hsame := setNotReceived_eq hadjusted.sized w.last i
  have hlength : (m'.setNotReceived w.last i).arrivalTimes.length = m'.arrivalTimes.length := by
    rw [hsame]
    exact length_fill ..
  have hbegin' : (m'.setNotReceived w.last i).beginSequenceNumber = w.first := by
    rw [hsame]
    exact hbegin
  generalize m'.setNotReceived w.last i = m'' at hfilled hlength hbegin' ⊢
  have hkept := hfilled.setArrivalTime (i := i) (by omega) (by omega) t
  have hself := holds_setArrivalTime_self
    (f := fun j => if w.last ≤ j ∧ j < i then .minusInfinity else w.get j) hfilled.sized i t
  have hlength' : (m''.setArrivalTime i t).arrivalTimes.length = m''.arrivalTimes.length :=
    List.length_set
  have hjoined := hkept.join hself (by omega)
  refine refines_update (w := { w with last := i + 1 }) hbegin' rfl hseen nonneg
    (hordered.trans after) (lt_add_one i) fits (fun j t' htime => ?_)
    (Holds.congr { hjoined with } fun j _ _ => ?_)
  · obtain ⟨hj, hj', hnonneg⟩ := h.inside j t' htime
    exact ⟨hj, hj'.trans (Int.lt_add_one_of_le after), hnonneg⟩
  · by_cases heq : j = i
    · rw [heq, update_self, update_self]
    · rw [update_of_ne heq, update_of_ne heq]
      split_ifs with hgap
      · exact h.get_outside (Or.inr hgap.1)
      · rfl

theorem Refines.addAfter : Refines (m.addAfter i t) { w.dropTo (w.firstWith i) with
      last := i + 1
      times := Function.update (w.dropTo (w.firstWith i)).times i (some t) } := by
  have hordered := h.ordered
  have hfirst := h.first
  have hwidth : (kMaxNumberOfPackets : Int) = 32768 := rfl
  have hlimit : ArrivalWindow.limit = 32768 := rfl
  unfold PacketArrivalTimeMap.addAfter ArrivalWindow.firstWith
  rw [hwidth, hlimit]
  by_cases hfar : w.last + 32768 ≤ i + 1
  · rw [if_pos hfar, if_pos (by rw [h.last]; exact hfar)]
    exact h.addFar hseen nonneg after
  · rw [if_neg hfar, if_neg (by rw [h.last]; exact hfar)]
    have htrimmed : (if m.beginSequenceNumber < i + 1 - 32768 then
        { m with beginSequenceNumber := i + 1 - 32768 } else m) =
        { m with beginSequenceNumber := max w.first (i + 1 - 32768) } := by
      split_ifs with hold
      · rw [max_eq_right (by omega)]
      · rw [max_eq_left (by omega), ← hfirst]
    have hdrop := h.dropTo (i := max w.first (i + 1 - 32768)) (le_max_left ..) (by omega)
      fun hfalse => Bool.noConfusion (hseen.symm.trans hfalse)
    have hadd := hdrop.addNear hseen nonneg after (by
      show i + 1 ≤ max w.first (i + 1 - 32768) + 32768
      omega)
    rw [htrimmed]
    exact hadd

end

theorem Refines.add (i : Int) (nonneg : UnitBase.zero ≤ t) :
    Refines (m.addPacket i t) (w.add i t) := by
  cases hseen : w.seen with
  | false => exact h.addFirst hseen i nonneg
  | true =>
    have hunseen : ¬ w.seen = false := fun hfalse => Bool.noConfusion (hseen.symm.trans hfalse)
    rw [addPacket, ← h.seen, hseen, ArrivalWindow.add, if_neg hunseen, h.first, h.last]
    simp only [Bool.not_true, Bool.false_eq_true, if_false]
    by_cases hbefore : i < w.first
    · rw [if_neg (fun hin => absurd hbefore (not_lt.mpr hin.1)), if_pos hbefore, if_pos hbefore]
      exact h.addBefore hseen nonneg hbefore
    · rw [if_neg hbefore, if_neg hbefore]
      by_cases hin : i < w.last
      · rw [if_pos ⟨not_lt.mp hbefore, hin⟩, if_pos hin]
        have hholds := h.holds hseen
        have hfits := hholds.fits
        have hset := hholds.setArrivalTime (i := i) (by omega) (by omega) t
        exact refines_update h.first h.last hseen nonneg (not_lt.mp hbefore) hin h.narrow h.inside
          hset
      · rw [if_neg (fun h => hin h.2), if_neg hin]
        exact h.addAfter hseen nonneg (not_lt.mp hin)

end

theorem adjustToSize_of_unseen (unseen : m.hasSeenPacket = false) : m.adjustToSize 0 = m := by
  have hnil := not_not.mp (of_decide_eq_false unseen)
  rw [adjustToSize, growToSize, hnil]
  rw [if_neg (by decide), shrinkToSize, hnil, if_neg (by decide)]

theorem Refines.adjustToSize (h : Refines m w) :
    Refines (m.adjustToSize (m.endSequenceNumber - m.beginSequenceNumber)) w := by
  have hordered := h.ordered
  have hnarrow := h.narrow
  cases hseen : w.seen with
  | false =>
    have hsame : m.endSequenceNumber - m.beginSequenceNumber = 0 := by
      rw [h.first, h.last, h.empty hseen]
      omega
    rw [hsame, adjustToSize_of_unseen (h.seen.symm.trans hseen)]
    exact h
  | true =>
    have hholds := h.holds hseen
    rw [← h.first, ← h.last] at hholds hordered hnarrow
    have hadjusted := (hholds.adjustToSize (n := m.endSequenceNumber - m.beginSequenceNumber)
      (by omega) le_rfl (by omega)).1
    refine ⟨hseen.trans hadjusted.sized.seen.symm, ?_, ?_, h.ordered, h.narrow, h.empty, ?_,
      h.inside⟩
    · rw [(bounds_adjustToSize m _).1, h.first]
    · rw [(bounds_adjustToSize m _).2, h.last]
    · intro _
      rw [← h.first, ← h.last]
      exact hadjusted

theorem Refines.eraseTo (h : Refines m w) (i : Int) : Refines (m.eraseTo i) (w.erase i) := by
  have hordered := h.ordered
  have hfirst := h.first
  have hlast := h.last
  unfold PacketArrivalTimeMap.eraseTo ArrivalWindow.erase
  split_ifs with hbefore hafter
  · rw [max_eq_left (by omega)]
    have hdrop := h.dropTo le_rfl h.ordered h.empty
    rw [← h.first] at hdrop ⊢
    exact hdrop
  · rw [min_eq_right (by omega), max_eq_right (by omega)]
    have hdrop := h.dropTo h.ordered le_rfl fun _ => rfl
    rw [← hlast] at hdrop ⊢
    exact hdrop
  · rw [min_eq_left (by omega), max_eq_right (by omega)]
    have hseen : w.seen = false → i = w.last := fun hunseen => by
      have := h.empty hunseen
      omega
    exact (h.dropTo (by omega) (by omega) hseen).adjustToSize

theorem le_firstKept (old : Int → Bool) :
    ∀ (n : Nat) (i : Int), i ≤ ArrivalWindow.firstKept old n i ∧
      ArrivalWindow.firstKept old n i ≤ i + n := by
  intro n
  induction n with
  | zero => exact fun i => ⟨le_rfl, by rw [ArrivalWindow.firstKept]; omega⟩
  | succ n ih =>
    intro i
    rw [ArrivalWindow.firstKept]
    split_ifs
    · have := ih (i + 1)
      omega
    · omega

theorem Refines.removeLoop (h : Refines m w) (hseen : w.seen = true) (limit : Timestamp) :
    ∀ (n : Nat) (i : Int), w.first ≤ i → i + n ≤ w.last →
      m.removeLoop limit n i = some (ArrivalWindow.firstKept
        (fun j => (w.times j).all fun t => t ≤ limit) n i) := by
  intro n
  induction n with
  | zero => exact fun _ _ _ => rfl
  | succ n ih =>
    intro i hi hi'
    have hread := (h.holds hseen).reads i hi (by omega)
    rw [PacketArrivalTimeMap.removeLoop, arrivalTime_eq (h.holds hseen).sized, hread,
      Option.bind_some, ArrivalWindow.firstKept, ih (i + 1) (by omega) (by omega)]
    have hold : w.get i ≤ limit ↔ ((w.times i).all fun t => t ≤ limit) = true := by
      rw [ArrivalWindow.get]
      cases w.times i with
      | none => exact iff_of_true (by cases limit <;> rfl) rfl
      | some t => exact decide_eq_true_iff.symm
    by_cases hle : w.get i ≤ limit
    · rw [if_pos hle, if_pos (hold.mp hle)]
    · rw [if_neg hle, if_neg fun hall => hle (hold.mpr hall)]

theorem Refines.removeOldPackets (h : Refines m w) (i : Int) (limit : Timestamp) :
    ∃ m', m.removeOldPackets i limit = some m' ∧ Refines m' (w.removeOld i limit) := by
  have hordered := h.ordered
  have hbounds := le_firstKept (fun j => (w.times j).all fun t => t ≤ limit)
    (min i w.last - w.first).toNat w.first
  have hloop : m.removeLoop limit (min i m.endSequenceNumber - m.beginSequenceNumber).toNat
      m.beginSequenceNumber = some (ArrivalWindow.firstKept
        (fun j => (w.times j).all fun t => t ≤ limit) (min i w.last - w.first).toNat w.first) := by
    rw [h.first, h.last]
    cases hseen : w.seen with
    | true => exact h.removeLoop hseen limit _ _ le_rfl (by omega)
    | false =>
      have hnone : (min i w.last - w.first).toNat = 0 := by
        have := h.empty hseen
        omega
      rw [hnone]
      rfl
  have hdrop := (h.dropTo hbounds.1 (by omega) fun hunseen => by
    have := h.empty hunseen
    omega).adjustToSize
  refine ⟨_, ?_, hdrop⟩
  rw [PacketArrivalTimeMap.removeOldPackets]
  rw [hloop]
  rfl

end Refinement

inductive Call where
  | addPacket (sequenceNumber : Int) (arrivalTime : Timestamp)
  | removeOldPackets (sequenceNumber : Int) (arrivalTimeLimit : Timestamp)
  | eraseTo (sequenceNumber : Int)

def Call.valid : Call → Bool
  | .addPacket _ arrivalTime => UnitBase.zero ≤ arrivalTime
  | .removeOldPackets .. | .eraseTo _ => true

def perform (m : PacketArrivalTimeMap) : Call → Option PacketArrivalTimeMap
  | .addPacket sequenceNumber arrivalTime => some (m.addPacket sequenceNumber arrivalTime)
  | .removeOldPackets sequenceNumber arrivalTimeLimit =>
    m.removeOldPackets sequenceNumber arrivalTimeLimit
  | .eraseTo sequenceNumber => some (m.eraseTo sequenceNumber)

def performPlain (w : ArrivalWindow) : Call → ArrivalWindow
  | .addPacket sequenceNumber arrivalTime => w.add sequenceNumber arrivalTime
  | .removeOldPackets sequenceNumber arrivalTimeLimit =>
    w.removeOld sequenceNumber arrivalTimeLimit
  | .eraseTo sequenceNumber => w.erase sequenceNumber

variable {m : PacketArrivalTimeMap} {w : ArrivalWindow}

theorem Refines.perform (h : Refines m w) {call : Call} (valid : call.valid = true) :
    ∃ m', m.perform call = some m' ∧ Refines m' (performPlain w call) := by
  cases call with
  | addPacket sequenceNumber arrivalTime =>
    exact ⟨_, rfl, h.add sequenceNumber (of_decide_eq_true valid)⟩
  | removeOldPackets sequenceNumber arrivalTimeLimit =>
    exact h.removeOldPackets sequenceNumber arrivalTimeLimit
  | eraseTo sequenceNumber => exact ⟨_, rfl, h.eraseTo sequenceNumber⟩

theorem Refines.run : ∀ (calls : List Call) (m : PacketArrivalTimeMap) (w : ArrivalWindow),
    Refines m w → (∀ call ∈ calls, call.valid = true) →
    ∃ m', calls.foldlM PacketArrivalTimeMap.perform m = some m' ∧
      Refines m' (calls.foldl performPlain w) := by
  intro calls
  induction calls with
  | nil => exact fun m w h _ => ⟨m, rfl, h⟩
  | cons call rest ih =>
    intro m w h valid
    obtain ⟨next, hstep, hnext⟩ := h.perform (valid call List.mem_cons_self)
    obtain ⟨m', hrest, hm'⟩ := ih next _ hnext (List.forall_mem_cons.mp valid).2
    refine ⟨m', ?_, hm'⟩
    rw [List.foldlM_cons, hstep]
    exact hrest

theorem Refines.observe (h : Refines m w) {i : Int} (lower : w.first ≤ i) (upper : i < w.last) :
    m.get i = some (w.get i) ∧ m.hasReceived i = w.hasReceived i := by
  have hseen : w.seen = true := by
    cases hseen : w.seen with
    | true => rfl
    | false =>
      have := h.empty hseen
      omega
  have hread : m.arrivalTime i = some (w.get i) := by
    rw [arrivalTime_eq (h.holds hseen).sized]
    exact (h.holds hseen).reads i lower upper
  have hlower := h.first.trans_le lower
  have hupper := upper.trans_eq h.last.symm
  constructor
  · rw [get, if_pos ⟨hlower, hupper⟩, hread]
  · rw [hasReceived, decide_eq_true hlower, decide_eq_true hupper, hread, ArrivalWindow.hasReceived,
      ArrivalWindow.get]
    cases htime : w.times i with
    | none => rfl
    | some t => exact decide_eq_true (h.inside i t htime).2.2

/-- After every run of valid calls the map has the window and the entries of the plain map. -/
theorem refines_plain_map (calls : List Call) (valid : ∀ call ∈ calls, call.valid = true) :
    ∃ m, calls.foldlM perform {} = some m ∧
      m.beginSequenceNumber = (calls.foldl performPlain .initial).first ∧
      m.endSequenceNumber = (calls.foldl performPlain .initial).last ∧
      ∀ i, m.beginSequenceNumber ≤ i → i < m.endSequenceNumber →
        m.get i = some ((calls.foldl performPlain .initial).get i) ∧
        m.hasReceived i = (calls.foldl performPlain .initial).hasReceived i := by
  obtain ⟨m, hrun, h⟩ := Refines.run calls {} .initial refines_initial valid
  refine ⟨m, hrun, h.first, h.last, ?_⟩
  rw [h.first, h.last]
  exact fun i lower upper => h.observe lower upper

/-- Packets on both sides of zero, a gap that makes the buffer grow, and a removal that makes
it shrink. -/
def growAndShrink : List Call :=
  [.addPacket (-3) (.finite 10), .addPacket 300 (.finite 20), .addPacket (-5) (.finite 30),
    .eraseTo 290, .addPacket 280 (.finite 40)]

theorem refines_plain_map_growAndShrink :
    (∀ call ∈ growAndShrink, call.valid = true) ∧ ∃ m, growAndShrink.foldlM perform {} = some m ∧
      m.beginSequenceNumber = (growAndShrink.foldl performPlain .initial).first ∧
      m.endSequenceNumber = (growAndShrink.foldl performPlain .initial).last ∧
      ∀ i, m.beginSequenceNumber ≤ i → i < m.endSequenceNumber →
        m.get i = some ((growAndShrink.foldl performPlain .initial).get i) ∧
        m.hasReceived i = (growAndShrink.foldl performPlain .initial).hasReceived i :=
  ⟨by decide, refines_plain_map growAndShrink (by decide)⟩

end PacketArrivalTimeMap

section LastPacket

open ArrivalWindow List
open Option hiding map map_map mem_map

namespace ArrivalWindow

variable {w : ArrivalWindow}

theorem hasReceived_dropTo {i j : Int} (h : i ≤ j) :
    (w.dropTo i).hasReceived j = w.hasReceived j := by
  have hkept : (w.dropTo i).times j = w.times j := if_neg (not_lt.mpr h)
  rw [hasReceived, hasReceived, hkept]

theorem hasReceived_update {times : Int → Option Timestamp} {seen : Bool} {first last i : Int}
    (t : Timestamp) {j : Int} (h : j = i ∨ (times j).isSome = true) :
    hasReceived ⟨seen, first, last, Function.update times i (some t)⟩ j = true := by
  show (Function.update times i (some t) j).isSome = true
  by_cases heq : j = i
  · rw [heq, Function.update_self]
    rfl
  · rw [Function.update_of_ne heq]
    exact h.resolve_left heq

theorem add_last (i : Int) (t : Timestamp)
    (h : w.seen = true → w.hasReceived (w.last - 1) = true ∨ w.last ≤ i)
    (hordered : w.first ≤ w.last) :
    (w.add i t).seen = true ∧ (w.seen = true → w.last ≤ (w.add i t).last) ∧
      i < (w.add i t).last ∧ (w.add i t).hasReceived ((w.add i t).last - 1) = true := by
  unfold add
  cases hseen : w.seen with
  | false =>
    rw [if_pos rfl]
    refine ⟨rfl, nofun, lt_add_one i, ?_⟩
    exact hasReceived_update t (Or.inl (by dsimp only; omega))
  | true =>
    rw [if_neg Bool.noConfusion]
    split_ifs with hbefore hold hinside
    · refine ⟨hseen, fun _ => le_rfl, by omega, (h hseen).resolve_right (by omega)⟩
    · refine ⟨rfl, fun _ => le_rfl, by dsimp only; omega, hasReceived_update t (Or.inr ?_)⟩
      exact (h hseen).resolve_right (by omega)
    · refine ⟨rfl, fun _ => le_rfl, hinside, hasReceived_update t (Or.inr ?_)⟩
      exact (h hseen).resolve_right (by omega)
    · refine ⟨hseen, fun _ => ?_, lt_add_one i, ?_⟩
      · dsimp only
        omega
      · exact hasReceived_update t (Or.inl (by dsimp only; omega))

end ArrivalWindow

namespace PacketArrivalTimeMap

variable {m : PacketArrivalTimeMap} {w : ArrivalWindow}

theorem Refines.seen_of_lt (h : Refines m w) (hlt : w.first < w.last) : w.seen = true := by
  cases hseen : w.seen with
  | true => rfl
  | false =>
    have := h.empty hseen
    omega

theorem Refines.hasReceived_eq (h : Refines m w) (i : Int) : m.hasReceived i = w.hasReceived i := by
  by_cases hin : w.first ≤ i ∧ i < w.last
  · exact (h.observe hin.1 hin.2).2
  · have hplain : w.hasReceived i = false := by
      rw [ArrivalWindow.hasReceived]
      cases htime : w.times i with
      | none => rfl
      | some t =>
        have := h.inside i t htime
        omega
    rw [hplain, PacketArrivalTimeMap.hasReceived, h.first, h.last, Bool.and_eq_false_iff,
      Bool.and_eq_false_iff, decide_eq_false_iff_not, decide_eq_false_iff_not]
    by_cases hlower : w.first ≤ i
    · exact Or.inl (Or.inr fun hupper => hin ⟨hlower, hupper⟩)
    · exact Or.inl (Or.inl hlower)

theorem Refines.findNextLoop (h : Refines m w) (hlast : w.hasReceived (w.last - 1) = true) :
    ∀ (n : Nat) (i : Int), w.first ≤ i → i < w.last → w.last ≤ i + n →
      ∃ found, i ≤ found ∧ found < w.last ∧ w.hasReceived found = true ∧
        (∀ j, i ≤ j → j < found → w.hasReceived j = false) ∧
        m.findNextLoop n i = some (w.get found, found) := by
  intro n
  induction n with
  | zero =>
    intro i _ hi henough
    omega
  | succ n ih =>
    intro i hfirst hi henough
    have hholds := h.holds (h.seen_of_lt (by omega))
    have hread : m.arrivalTime i = some (w.get i) := by
      rw [arrivalTime_eq hholds.sized]
      exact hholds.reads i hfirst hi
    rw [PacketArrivalTimeMap.findNextLoop, hread, bind_some]
    cases htime : w.times i with
    | some t =>
      have hget : w.get i = t := by
        rw [ArrivalWindow.get, htime]
        rfl
      refine ⟨i, le_rfl, hi, ?_, fun j hj hj' => by omega, ?_⟩
      · rw [ArrivalWindow.hasReceived, htime]
        rfl
      · rw [hget, if_pos (h.inside i t htime).2.2]
    | none =>
      have hreceived : w.hasReceived i = false := by
        rw [ArrivalWindow.hasReceived, htime]
        rfl
      have hget : w.get i = .minusInfinity := by
        rw [ArrivalWindow.get, htime]
        rfl
      have hnext : i + 1 < w.last := by
        by_contra hend
        obtain rfl : i = w.last - 1 := by omega
        rw [hreceived] at hlast
        cases hlast
      obtain ⟨found, hle, hlt, hfound, hnone, hloop⟩ := ih (i + 1) (by omega) hnext (by omega)
      refine ⟨found, by omega, hlt, hfound, ?_, ?_⟩
      · intro j hj hj'
        rcases eq_or_lt_of_le hj with rfl | hj
        · exact hreceived
        · exact hnone j hj hj'
      · rw [hget, if_neg (by decide), hloop]

theorem Refines.findNextAtOrAfter (h : Refines m w) (hlast : w.hasReceived (w.last - 1) = true)
    {i : Int} (lower : w.first ≤ i) (upper : i < w.last) :
    ∃ found, i ≤ found ∧ found < w.last ∧ w.hasReceived found = true ∧
      (∀ j, i ≤ j → j < found → w.hasReceived j = false) ∧
      m.findNextAtOrAfter i = some (w.get found, found) := by
  have hfits := (h.holds (h.seen_of_lt (by omega))).fits
  rw [PacketArrivalTimeMap.findNextAtOrAfter, h.first, h.last, if_pos ⟨lower, upper⟩]
  exact h.findNextLoop hlast _ i lower upper (by omega)

theorem Refines.clamp_eq (h : Refines m w) (i : Int) : m.clamp i = max w.first (min i w.last) := by
  have := h.ordered
  rw [clamp, h.first, h.last]
  split_ifs <;> omega

/-- The packet is put before a window that was emptied: the end of the window stays, and no packet
is there. -/
def beforeEmptied (m : PacketArrivalTimeMap) : Call → Bool
  | .addPacket sequenceNumber _ =>
    m.hasSeenPacket && m.beginSequenceNumber == m.endSequenceNumber &&
      decide (sequenceNumber < m.beginSequenceNumber) &&
      decide (m.endSequenceNumber - sequenceNumber ≤ kMaxNumberOfPackets)
  | .removeOldPackets .. | .eraseTo _ => false

/-- No packet of the run is put before a window that was emptied. -/
def neverBeforeEmptied (m : PacketArrivalTimeMap) : List Call → Bool
  | [] => true
  | call :: calls => !m.beforeEmptied call && (m.perform call).all (·.neverBeforeEmptied calls)

/-- The last packet of a window that is not empty was received. -/
def EndReceived (w : ArrivalWindow) : Prop := w.first < w.last → w.hasReceived (w.last - 1) = true

theorem EndReceived.dropTo (h : EndReceived w) {i : Int} (lower : w.first ≤ i) :
    EndReceived (w.dropTo i) := by
  intro (hlt : i < w.last)
  exact (hasReceived_dropTo (show i ≤ w.last - 1 by omega)).trans (h (by omega))

theorem EndReceived.perform (h : EndReceived w) (hm : Refines m w) {call : Call}
    (kept : m.beforeEmptied call = false) : EndReceived (performPlain w call) := by
  cases call with
  | addPacket i t =>
    have hordered := hm.ordered
    by_cases hold : w.seen = true ∧ w.first = w.last ∧ i < w.first
    · -- the packet is too old, and the window stays empty
      obtain ⟨hseen, hempty, hbefore⟩ := hold
      have hlimit : i < w.last → (kMaxNumberOfPackets : Int) + i < w.last := by
        simpa [beforeEmptied, ← hm.seen, hm.first, hm.last, hseen, hempty] using kept
      have hwide : ArrivalWindow.limit < w.last - i := lt_sub_iff_add_lt.mpr (hlimit (by omega))
      simpa [performPlain, ArrivalWindow.add, hseen, hbefore, hwide] using h
    · intro _
      refine (add_last i t (fun hseen => ?_) hordered).2.2.2
      rcases hordered.lt_or_eq with hlt | heq
      · exact .inl (h hlt)
      · exact .inr (le_of_not_gt fun hbefore => hold ⟨hseen, heq, heq ▸ hbefore⟩)
  | removeOldPackets i limit => exact h.dropTo (le_firstKept _ _ _).1
  | eraseTo i => exact h.dropTo (le_max_left _ _)

theorem EndReceived.run {calls : List Call} (h : EndReceived w) (hm : Refines m w)
    (valid : ∀ call ∈ calls, call.valid = true) (kept : m.neverBeforeEmptied calls = true) :
    EndReceived (calls.foldl performPlain w) := by
  induction calls generalizing m w with
  | nil => exact h
  | cons call calls ih =>
    obtain ⟨hcall, hcalls⟩ := Bool.and_eq_true_iff.mp kept
    obtain ⟨m', hstep, hm'⟩ := hm.perform (valid call mem_cons_self)
    rw [hstep] at hcalls
    exact ih (h.perform hm (by simpa using hcall)) hm'
      ((forall_mem_cons.mp valid).2) hcalls

/-- Unless a packet is put before an emptied window, the last packet of the window was received, and
a search for the next received packet ends inside the window. -/
theorem last_packet_received (calls : List Call) (valid : ∀ call ∈ calls, call.valid = true)
    (kept : neverBeforeEmptied {} calls = true) :
    ∃ m, calls.foldlM perform {} = some m ∧ (m.beginSequenceNumber < m.endSequenceNumber →
      m.hasReceived (m.endSequenceNumber - 1) = true ∧
      ∀ s, m.beginSequenceNumber ≤ s → s < m.endSequenceNumber → ∃ t found,
        m.findNextAtOrAfter s = some (t, found) ∧ s ≤ found ∧ found < m.endSequenceNumber ∧
        m.hasReceived found = true) := by
  obtain ⟨m, hrun, h⟩ := Refines.run calls {} .initial refines_initial valid
  have hend := EndReceived.run (fun hlt => absurd hlt (lt_irrefl 0)) refines_initial valid kept
  refine ⟨m, hrun, ?_⟩
  simp only [h.first, h.last, h.hasReceived_eq]
  refine fun hlt => ⟨hend hlt, fun s lower upper => ?_⟩
  obtain ⟨found, hle, hfound, hreceived, -, hfind⟩ := h.findNextAtOrAfter (hend hlt) lower upper
  exact ⟨_, found, hfind, hle, hfound, hreceived⟩

/-- The window is emptied and filled again from its end on. -/
theorem last_packet_received_refilled :
    let calls := [.addPacket 10 (.finite 1), .eraseTo 11, .addPacket 13 (.finite 2)]
    neverBeforeEmptied {} calls = true ∧ ∃ m, calls.foldlM perform {} = some m ∧
      m.beginSequenceNumber = 11 ∧ m.hasReceived (m.endSequenceNumber - 1) = true := by
  intro calls
  have hkept : neverBeforeEmptied {} calls = true := by decide +kernel
  obtain ⟨m, hrun, hlast⟩ := last_packet_received calls (by decide) hkept
  have hwindow : (calls.foldlM perform {}).map
      (fun m => (m.beginSequenceNumber, m.endSequenceNumber)) = some (11, 14) := by decide +kernel
  simp only [hrun, map_some, some_inj, Prod.mk.injEq] at hwindow
  exact ⟨hkept, m, hrun, hwindow.1, (hlast (by omega)).1⟩

/-- A packet before the emptied window leaves its end without a packet. -/
theorem last_packet_not_received :
    ([Call.addPacket 10 (.finite 1), .eraseTo 11, .addPacket 5 (.finite 2)].foldlM perform {}).map
        (fun m => (m.beginSequenceNumber, m.endSequenceNumber, m.hasReceived 10,
          m.findNextAtOrAfter 6)) = some (5, 11, false, none) := by
  decide +kernel

end PacketArrivalTimeMap

end LastPacket

end Congestion
