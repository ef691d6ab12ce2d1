import WebRtc.Lib.BitPacking
import Mathlib.Data.List.Basic

/-!
# Packet status chunks of transport-wide feedback

Model of `TransportFeedback::LastChunk` (`rtcp_packet/transport_feedback.cc`), which collects status
symbols until they no longer fit in one 16-bit chunk. `Represents` ties the packed state to the list
of symbols it stands for. A failed `RTC_DCHECK` is `none`.
-/

namespace Rtcp.TransportFeedback

open BitPacking List

/-- Bytes used by the receive delta of a packet: 0 (not received), 1 or 2. -/
abbrev DeltaSize := Nat

structure LastChunk where
  deltaSizes : List DeltaSize
  size : Nat
  allSame : Bool
  hasLargeDelta : Bool
deriving DecidableEq, Repr

namespace LastChunk

def kMaxRunLengthCapacity : Nat := 0x1fff

def kMaxOneBitCapacity : Nat := 14

def kMaxTwoBitCapacity : Nat := 7

def kMaxVectorCapacity : Nat := kMaxOneBitCapacity

def kLarge : DeltaSize := 2

/-- The constructor. The array is uninitialised in the source and never read before it
is written. -/
def initial : LastChunk := ⟨List.replicate kMaxVectorCapacity 0, 0, true, false⟩

variable (c : LastChunk)

def isEmpty : Bool := c.size == 0

def clear : LastChunk :=
  { c with size := 0, allSame := true, hasLargeDelta := false }

def first : DeltaSize := c.deltaSizes[0]?.getD 0

def canAdd (deltaSize : DeltaSize) : Bool :=
  decide (c.size < kMaxTwoBitCapacity) ||
    (decide (c.size < kMaxOneBitCapacity) && !c.hasLargeDelta && deltaSize != kLarge) ||
    (decide (c.size < kMaxRunLengthCapacity) && c.allSame && c.first == deltaSize)

def add (deltaSize : DeltaSize) : Option LastChunk :=
  if c.canAdd deltaSize then
    let stored := if c.size < kMaxVectorCapacity then c.deltaSizes.set c.size deltaSize
      else c.deltaSizes
    some
      { deltaSizes := stored
        size := c.size + 1
        allSame := c.allSame && deltaSize == stored[0]?.getD 0
        hasLargeDelta := c.hasLargeDelta || deltaSize == kLarge }
  else none

def addMissingPackets (numMissing : Nat) : Option LastChunk :=
  if c.size = 0 ∧ c.allSame = true ∧ c.hasLargeDelta = false ∧ numMissing < kMaxRunLengthCapacity
  then some { c with deltaSizes := List.replicate kMaxVectorCapacity 0, size := numMissing }
  else none

def encodeRunLength : Nat := c.first <<< 13 ||| c.size % 2 ^ 16

def encodeOneBit : Nat :=
  0x8000 ||| pack 1 kMaxOneBitCapacity (c.deltaSizes.take c.size)

def encodeTwoBit (size : Nat) : Nat :=
  0xc000 ||| pack 2 kMaxTwoBitCapacity (c.deltaSizes.take size)

def emit : Option (Nat × LastChunk) :=
  if c.canAdd 0 && c.canAdd 1 && c.canAdd 2 then none
  else if c.allSame then
    if c.size ≤ kMaxRunLengthCapacity then some (c.encodeRunLength, c.clear) else none
  else if c.size = kMaxOneBitCapacity then
    if c.hasLargeDelta then none else some (c.encodeOneBit, c.clear)
  else if kMaxTwoBitCapacity ≤ c.size then
    let remaining := (c.deltaSizes.drop kMaxTwoBitCapacity).take (c.size - kMaxTwoBitCapacity)
    some (c.encodeTwoBit kMaxTwoBitCapacity,
      { deltaSizes := remaining ++ c.deltaSizes.drop remaining.length
        size := c.size - kMaxTwoBitCapacity
        allSame := remaining.all (fun deltaSize => deltaSize == remaining[0]?.getD 0)
        hasLargeDelta := remaining.any (fun deltaSize => deltaSize == kLarge) })
  else none

def encodeLast : Nat :=
  if c.allSame then c.encodeRunLength
  else if c.size ≤ kMaxTwoBitCapacity then c.encodeTwoBit c.size
  else c.encodeOneBit

def appendTo : List DeltaSize :=
  if c.allSame then List.replicate c.size c.first else c.deltaSizes.take c.size

def decodeOneBit (chunk maxSize : Nat) : LastChunk :=
  let size := min kMaxOneBitCapacity maxSize
  { deltaSizes := unpack 1 chunk kMaxOneBitCapacity size ++ c.deltaSizes.drop size
    size := size
    allSame := false
    hasLargeDelta := false }

def decodeTwoBit (chunk maxSize : Nat) : LastChunk :=
  let size := min kMaxTwoBitCapacity maxSize
  { deltaSizes := unpack 2 chunk kMaxTwoBitCapacity size ++ c.deltaSizes.drop size
    size := size
    allSame := false
    hasLargeDelta := true }

def decodeRunLength (chunk maxCount : Nat) : LastChunk :=
  let size := min (chunk &&& 0x1fff) maxCount
  let deltaSize := (chunk >>> 13) &&& 3
  let filled := min size kMaxVectorCapacity
  { deltaSizes := List.replicate filled deltaSize ++ c.deltaSizes.drop filled
    size := size
    allSame := true
    hasLargeDelta := decide (deltaSize ≥ kLarge) }

def decode (chunk maxSize : Nat) : LastChunk :=
  if chunk &&& 0x8000 = 0 then c.decodeRunLength chunk maxSize
  else if chunk &&& 0x4000 = 0 then c.decodeOneBit chunk maxSize
  else c.decodeTwoBit chunk maxSize

/-- The symbols encoded by a 16-bit chunk, at most `maxSize` of them. -/
def symbols (chunk maxSize : Nat) : List DeltaSize :=
  if chunk &&& 0x8000 = 0 then
    List.replicate (min (chunk &&& 0x1fff) maxSize) ((chunk >>> 13) &&& 3)
  else if chunk &&& 0x4000 = 0 then unpack 1 chunk kMaxOneBitCapacity (min kMaxOneBitCapacity maxSize)
  else unpack 2 chunk kMaxTwoBitCapacity (min kMaxTwoBitCapacity maxSize)

theorem appendTo_decode (chunk maxSize : Nat) :
    (c.decode chunk maxSize).appendTo = symbols chunk maxSize := by
  unfold decode symbols
  split_ifs
  · unfold decodeRunLength appendTo first
    dsimp only
    cases hsize : min (chunk &&& 0x1fff) maxSize with
    | zero => rfl
    | succ n =>
      have hfilled : min (n + 1) kMaxVectorCapacity = min n 13 + 1 := by
        rw [kMaxVectorCapacity, kMaxOneBitCapacity]
        omega
      rw [hfilled]
      rfl
  · unfold decodeOneBit appendTo
    dsimp only
    rw [if_neg Bool.false_ne_true, take_left']
    rw [length_unpack]
    omega
  · unfold decodeTwoBit appendTo
    dsimp only
    rw [if_neg Bool.false_ne_true, take_left']
    rw [length_unpack]
    omega

/-- The lists of symbols that fit in a single chunk. -/
def Encodable (l : List DeltaSize) : Prop :=
  l.length ≤ kMaxTwoBitCapacity ∨ l.length ≤ kMaxOneBitCapacity ∧ kLarge ∉ l ∨
    l.length ≤ kMaxRunLengthCapacity ∧ ∃ s, ∀ x ∈ l, x = s

/-- The class invariant: `c` holds exactly the symbols `l`. -/
structure Represents (c : LastChunk) (l : List DeltaSize) : Prop where
  capacity : c.deltaSizes.length = kMaxVectorCapacity
  size : c.size = l.length
  stored : ∀ i, i < kMaxVectorCapacity → i < l.length → c.deltaSizes[i]? = l[i]?
  allSame : c.allSame = true ↔ ∃ s, ∀ x ∈ l, x = s
  hasLargeDelta : c.hasLargeDelta = true ↔ kLarge ∈ l
  small : ∀ x ∈ l, x ≤ kLarge
  encodable : Encodable l

section

variable {c : LastChunk} {l : List DeltaSize}

theorem represents_nil (capacity : c.deltaSizes.length = kMaxVectorCapacity) (size : c.size = 0)
    (allSame : c.allSame = true) (hasLargeDelta : c.hasLargeDelta = false) : Represents c [] where
  capacity := capacity
  size := size
  stored := by intro i _ h; cases h
  allSame := iff_of_true allSame ⟨0, by simp⟩
  hasLargeDelta := by simp [hasLargeDelta]
  small := by simp
  encodable := Or.inl (Nat.zero_le _)

theorem represents_initial : Represents initial [] := represents_nil rfl rfl rfl rfl

theorem represents_clear (h : Represents c l) : Represents c.clear [] :=
  represents_nil h.capacity rfl rfl rfl

theorem take_deltaSizes (h : Represents c l) {n : Nat} (hn : n ≤ l.length)
    (hcap : n ≤ kMaxVectorCapacity) : c.deltaSizes.take n = l.take n := by
  refine ext_getElem? fun i => ?_
  rw [getElem?_take, getElem?_take]
  split_ifs with hi
  · exact h.stored i (by omega) (by omega)
  · rfl

variable {rest : List DeltaSize} {s deltaSize : DeltaSize}

theorem first_eq (h : Represents c l) (hl : l = s :: rest) : c.first = s := by
  have h0 := h.stored 0 (by decide) (by rw [hl]; exact Nat.succ_pos _)
  rw [first, h0, hl]
  rfl

theorem same_iff_first : (∃ t, ∀ x ∈ s :: rest, x = t) ↔ ∀ x ∈ rest, x = s := by
  constructor
  · rintro ⟨t, ht⟩ x hx
    rw [ht x (mem_cons_of_mem _ hx), ht s mem_cons_self]
  · intro h
    refine ⟨s, fun x hx => ?_⟩
    rcases mem_cons.mp hx with rfl | hx
    · rfl
    · exact h x hx

theorem same_append_iff : (∃ t, ∀ x ∈ s :: rest ++ [deltaSize], x = t) ↔
      (∃ t, ∀ x ∈ s :: rest, x = t) ∧ s = deltaSize := by
  rw [cons_append, same_iff_first, same_iff_first]
  simp only [mem_append, mem_singleton]
  constructor
  · exact fun hall => ⟨fun x hx => hall x (Or.inl hx), (hall deltaSize (Or.inr rfl)).symm⟩
  · rintro ⟨hrest, rfl⟩ x (hx | rfl)
    · exact hrest x hx
    · rfl

theorem canAdd_iff (h : Represents c l) (deltaSize : DeltaSize) :
    c.canAdd deltaSize = true ↔ Encodable (l ++ [deltaSize]) := by
  have hsize := h.size
  have hlen : (l ++ [deltaSize]).length = l.length + 1 := by simp
  have hlarge : (¬ c.hasLargeDelta = true ∧ deltaSize ≠ kLarge) ↔ kLarge ∉ l ++ [deltaSize] := by
    rw [h.hasLargeDelta, mem_append, mem_singleton, not_or, ne_comm]
  have hsame : l ≠ [] → ((c.allSame = true ∧ c.first = deltaSize) ↔
      ∃ s, ∀ x ∈ l ++ [deltaSize], x = s) := by
    intro hne
    obtain ⟨s, rest, rfl⟩ := exists_cons_of_ne_nil hne
    rw [h.allSame, first_eq h rfl, same_append_iff]
  unfold canAdd Encodable
  rw [hlen, hsize]
  simp only [Bool.or_eq_true, Bool.and_eq_true, decide_eq_true_eq, Bool.not_eq_true', bne_iff_ne,
    beq_iff_eq, ← Bool.not_eq_true, Nat.lt_iff_add_one_le, and_assoc, or_assoc]
  rw [hlarge]
  by_cases hne : l = []
  · subst hne
    exact iff_of_true (Or.inl (by decide)) (Or.inl (by decide))
  · rw [hsame hne]

theorem add_represents (h : Represents c l)
    (can : c.canAdd deltaSize = true) (hsmall : deltaSize ≤ kLarge) :
    ∃ c', c.add deltaSize = some c' ∧ Represents c' (l ++ [deltaSize]) := by
  have hencodable := (canAdd_iff h deltaSize).mp can
  have hsize := h.size
  refine ⟨_, if_pos can, ?_⟩
  let stored := if c.size < kMaxVectorCapacity then c.deltaSizes.set c.size deltaSize
    else c.deltaSizes
  have hstored : ∀ i, i < kMaxVectorCapacity → i < (l ++ [deltaSize]).length →
      stored[i]? = (l ++ [deltaSize])[i]? := by
    intro i hi hlen
    rw [length_append, length_singleton] at hlen
    by_cases hcap : c.size < kMaxVectorCapacity
    · have hset : stored = c.deltaSizes.set c.size deltaSize := if_pos hcap
      rw [hset, getElem?_set, hsize]
      by_cases heq : l.length = i
      · subst heq
        rw [if_pos rfl, if_pos (by rw [h.capacity]; omega), getElem?_concat_length]
      · rw [if_neg heq, getElem?_append_left (by omega)]
        exact h.stored i hi (by omega)
    · have hset : stored = c.deltaSizes := if_neg hcap
      rw [hset, getElem?_append_left (by omega)]
      exact h.stored i hi (by omega)
  have hcapacity : stored.length = kMaxVectorCapacity := by
    dsimp only [stored]
    split_ifs
    · rw [length_set, h.capacity]
    · exact h.capacity
  constructor
  · exact hcapacity
  · rw [hsize, length_append, length_singleton]
  · exact hstored
  · rw [Bool.and_eq_true, beq_iff_eq, hstored 0 (by decide) (by simp), h.allSame]
    cases l with
    | nil => exact iff_of_true ⟨⟨0, by simp⟩, rfl⟩ ⟨deltaSize, by simp⟩
    | cons s rest =>
      rw [same_append_iff, eq_comm (a := deltaSize)]
      rfl
  · rw [Bool.or_eq_true, beq_iff_eq, h.hasLargeDelta, mem_append, mem_singleton,
      eq_comm (a := deltaSize)]
  · exact forall_mem_append.mpr ⟨h.small, forall_mem_singleton.mpr hsmall⟩
  · exact hencodable

theorem addMissingPackets_represents (h : Represents c []) {numMissing : Nat}
    (few : numMissing < kMaxRunLengthCapacity) :
    ∃ c', c.addMissingPackets numMissing = some c' ∧ Represents c' (replicate numMissing 0) := by
  have hall : c.allSame = true := h.allSame.mpr ⟨0, by simp⟩
  have hlarge : c.hasLargeDelta = false := by
    rw [← Bool.not_eq_true, h.hasLargeDelta]
    exact not_mem_nil
  have hsame : ∃ s, ∀ x ∈ replicate numMissing 0, x = s :=
    ⟨0, fun x hx => eq_of_mem_replicate hx⟩
  refine ⟨_, if_pos ⟨h.size, hall, hlarge, few⟩, ?_⟩
  constructor
  · exact length_replicate
  · exact length_replicate.symm
  · intro i hi hlen
    rw [length_replicate] at hlen
    rw [getElem?_replicate_of_lt hi, getElem?_replicate_of_lt hlen]
  · exact iff_of_true hall hsame
  · rw [hlarge]
    refine iff_of_false Bool.false_ne_true fun hmem => ?_
    exact absurd (eq_of_mem_replicate hmem) (by decide)
  · intro x hx
    rw [eq_of_mem_replicate hx]
    exact Nat.zero_le _
  · refine Or.inr (Or.inr ⟨?_, hsame⟩)
    rw [length_replicate]
    exact Nat.le_of_lt few

theorem length_le_runLength (h : Represents c l) : l.length ≤ kMaxRunLengthCapacity := by
  rcases h.encodable with hle | ⟨hle, -⟩ | ⟨hle, -⟩
  · exact Nat.le_trans hle (by decide)
  · exact Nat.le_trans hle (by decide)
  · exact hle

theorem length_le_of_not_allSame (h : Represents c l) (hall : c.allSame ≠ true) :
    l.length ≤ kMaxTwoBitCapacity ∨ l.length ≤ kMaxOneBitCapacity ∧ kLarge ∉ l := by
  rcases h.encodable with hle | hle | ⟨-, hsame⟩
  · exact Or.inl hle
  · exact Or.inr hle
  · exact absurd (h.allSame.mpr hsame) hall

theorem length_le_oneBit (h : Represents c l) (hall : c.allSame ≠ true) :
    l.length ≤ kMaxOneBitCapacity := by
  rcases length_le_of_not_allSame h hall with hle | ⟨hle, -⟩
  · exact Nat.le_trans hle (by decide)
  · exact hle

theorem appendTo_eq (h : Represents c l) : c.appendTo = l := by
  unfold appendTo
  split_ifs with hall
  · rw [h.size]
    cases hl : l with
    | nil => rfl
    | cons s rest =>
      subst hl
      have hrest := same_iff_first.mp (h.allSame.mp hall)
      rw [first_eq h rfl, length_cons, replicate_succ]
      rw [eq_replicate_of_mem hrest, length_replicate]
  · rw [h.size, take_deltaSizes h (Nat.le_refl _) (length_le_oneBit h hall), take_length]

end

/-- A 16-bit chunk that stands for the symbols `pre`, also when the reader would accept more. -/
structure Encodes (chunk : Nat) (pre : List DeltaSize) : Prop where
  bounded : chunk < 2 ^ 16
  read : ∀ maxSize, pre.length ≤ maxSize → symbols chunk maxSize = pre

theorem symbols_runLength {s n : Nat} (hs : s ≤ 3) (hn : n ≤ kMaxRunLengthCapacity)
    (maxSize : Nat) :
    s <<< 13 ||| n % 2 ^ 16 < 2 ^ 16 ∧
      symbols (s <<< 13 ||| n % 2 ^ 16) maxSize = replicate (min n maxSize) s := by
  have hlow : n < 2 ^ 13 := Nat.lt_succ_of_le hn
  have hmod : n % 2 ^ 16 = n := Nat.mod_eq_of_lt (Nat.lt_of_lt_of_le hlow (by decide))
  rw [hmod]
  have hrun : (s <<< 13 ||| n) &&& 0x8000 = 0 := by
    refine (tag_or_and_two_pow s hlow 2).mpr (Nat.testBit_lt_two_pow ?_)
    omega
  have hcount : (s <<< 13 ||| n) &&& 0x1fff = n := tag_or_and_mask s hlow
  have hsymbol : (s <<< 13 ||| n) >>> 13 &&& 3 = s := by
    rw [tag_or_shiftRight s hlow]
    exact (Nat.and_two_pow_sub_one_eq_mod s 2).trans (Nat.mod_eq_of_lt (by omega))
  constructor
  · refine Nat.or_lt_two_pow ?_ (Nat.lt_of_lt_of_le hlow (by decide))
    omega
  · rw [symbols, if_pos hrun, hcount, hsymbol]

variable {l : List DeltaSize}

theorem symbols_oneBit (small : ∀ x ∈ l, x < 2)
    (fits : l.length ≤ kMaxOneBitCapacity) (maxSize : Nat)
    (hmax : min kMaxOneBitCapacity maxSize = l.length) :
    0x8000 ||| pack 1 kMaxOneBitCapacity l < 2 ^ 16 ∧
      symbols (0x8000 ||| pack 1 kMaxOneBitCapacity l) maxSize = l := by
  have hpack : pack 1 kMaxOneBitCapacity l < 2 ^ 14 := pack_lt small
  have hlist : ¬ (0x8000 ||| pack 1 kMaxOneBitCapacity l) &&& 0x8000 = 0 := fun h =>
    absurd ((tag_or_and_two_pow 2 hpack 1).mp h) (by decide)
  have hone : (0x8000 ||| pack 1 kMaxOneBitCapacity l) &&& 0x4000 = 0 :=
    (tag_or_and_two_pow 2 hpack 0).mpr (by decide)
  constructor
  · exact Nat.or_lt_two_pow (by decide) (Nat.lt_of_lt_of_le hpack (by decide))
  · rw [symbols, if_neg hlist, if_pos hone, hmax]
    exact unpack_tag_or_pack 1 2 small fits

theorem symbols_twoBit (small : ∀ x ∈ l, x ≤ kLarge)
    (fits : l.length ≤ kMaxTwoBitCapacity) (maxSize : Nat)
    (hmax : min kMaxTwoBitCapacity maxSize = l.length) :
    0xc000 ||| pack 2 kMaxTwoBitCapacity l < 2 ^ 16 ∧
      symbols (0xc000 ||| pack 2 kMaxTwoBitCapacity l) maxSize = l := by
  have hsmall : ∀ x ∈ l, x < 2 ^ 2 := fun x hx =>
    Nat.lt_of_le_of_lt (small x hx) (by decide)
  have hpack : pack 2 kMaxTwoBitCapacity l < 2 ^ 14 := pack_lt hsmall
  have hlist : ¬ (0xc000 ||| pack 2 kMaxTwoBitCapacity l) &&& 0x8000 = 0 := fun h =>
    absurd ((tag_or_and_two_pow 3 hpack 1).mp h) (by decide)
  have htwo : ¬ (0xc000 ||| pack 2 kMaxTwoBitCapacity l) &&& 0x4000 = 0 := fun h =>
    absurd ((tag_or_and_two_pow 3 hpack 0).mp h) (by decide)
  constructor
  · exact Nat.or_lt_two_pow (by decide) (Nat.lt_of_lt_of_le hpack (by decide))
  · rw [symbols, if_neg hlist, if_neg htwo, hmax]
    exact unpack_tag_or_pack 2 3 hsmall fits

section

variable {c : LastChunk} {l : List DeltaSize}

section

variable (h : Represents c l)
include h

theorem symbols_encodeRunLength (all : c.allSame = true) (nonempty : l ≠ []) :
    Encodes c.encodeRunLength l := by
  obtain ⟨s, rest, rfl⟩ := exists_cons_of_ne_nil nonempty
  have hs : s ≤ 3 := Nat.le_trans (h.small s mem_cons_self) (by decide)
  have hsame := eq_replicate_of_mem fun x hx => by
      rcases mem_cons.mp hx with rfl | hx
      · rfl
      · exact same_iff_first.mp (h.allSame.mp all) x hx
  have hcode := symbols_runLength hs (length_le_runLength h)
  rw [encodeRunLength, first_eq h rfl, h.size]
  refine ⟨(hcode 0).1, fun maxSize hmax => ?_⟩
  rw [(hcode maxSize).2, Nat.min_eq_left hmax, ← hsame]

theorem symbols_small (nolarge : kLarge ∉ l) : ∀ x ∈ l, x < 2 := by
  intro x hx
  have hle := h.small x hx
  have hne : x ≠ kLarge := fun heq => nolarge (heq ▸ hx)
  exact Nat.lt_of_le_of_ne hle hne

theorem symbols_encodeLast (nonempty : l ≠ []) :
    c.encodeLast < 2 ^ 16 ∧ symbols c.encodeLast l.length = l := by
  unfold encodeLast
  by_cases hall : c.allSame = true
  · have hcode := symbols_encodeRunLength h hall nonempty
    rw [if_pos hall]
    exact ⟨hcode.bounded, hcode.read l.length (Nat.le_refl _)⟩
  · rw [if_neg hall, h.size]
    by_cases htwo : l.length ≤ kMaxTwoBitCapacity
    · have htake := take_deltaSizes h (Nat.le_refl _) (Nat.le_trans htwo (by decide))
      rw [if_pos htwo, encodeTwoBit, htake, take_length]
      exact symbols_twoBit h.small htwo _ (Nat.min_eq_right htwo)
    · have hone := (length_le_of_not_allSame h hall).resolve_left htwo
      have htake := take_deltaSizes h (Nat.le_refl _) hone.1
      rw [if_neg htwo, encodeOneBit, h.size, htake, take_length]
      exact symbols_oneBit (symbols_small h hone.2) hone.1 _ (Nat.min_eq_right hone.1)

variable {deltaSize : DeltaSize}

theorem not_canAdd_length (full : c.canAdd deltaSize = false) : kMaxTwoBitCapacity ≤ l.length := by
  by_contra hlt
  refine Bool.false_ne_true (full ▸ (canAdd_iff h deltaSize).mpr (Or.inl ?_))
  rw [length_append, length_singleton]
  omega

/-- What is left after the first seven symbols were emitted. -/
theorem represents_remaining (hseven : kMaxTwoBitCapacity ≤ l.length)
    (hone : l.length ≤ kMaxOneBitCapacity) (remaining : List DeltaSize) (hremaining : remaining =
      (c.deltaSizes.drop kMaxTwoBitCapacity).take (c.size - kMaxTwoBitCapacity)) :
    Represents
      { deltaSizes := remaining ++ c.deltaSizes.drop remaining.length
        size := c.size - kMaxTwoBitCapacity
        allSame := remaining.all (fun deltaSize => deltaSize == remaining[0]?.getD 0)
        hasLargeDelta := remaining.any (fun deltaSize => deltaSize == kLarge) }
      (l.drop kMaxTwoBitCapacity) := by
  have htake : remaining = l.drop kMaxTwoBitCapacity := by
    rw [hremaining, h.size, take_drop, Nat.add_sub_cancel' hseven,
      take_deltaSizes h (Nat.le_refl _) hone, take_length]
  have hlength : remaining.length = l.length - kMaxTwoBitCapacity := by
    rw [htake, length_drop]
  rw [← htake]
  constructor
  · simp only [length_append, length_drop, h.capacity]
    have : remaining.length ≤ kMaxVectorCapacity := by
      rw [hlength]
      exact Nat.le_trans (Nat.sub_le _ _) hone
    omega
  · rw [h.size, hlength]
  · exact fun i _ hi => getElem?_append_left hi
  · cases remaining with
    | nil => exact iff_of_true rfl ⟨0, by simp⟩
    | cons s rest =>
      simp
  · rw [any_eq_true]
    constructor
    · rintro ⟨x, hx, heq⟩
      exact beq_iff_eq.mp heq ▸ hx
    · exact fun hmem => ⟨kLarge, hmem, beq_self_eq_true _⟩
  · rw [htake]
    exact fun x hx => h.small x (mem_of_mem_drop hx)
  · refine Or.inl ?_
    rw [hlength]
    exact Nat.sub_le_of_le_add hone

/-- `Emit` on a chunk that refuses some symbol: the emitted chunk stands for the first symbols and
the rest stays. -/
theorem emit_represents (hsmall : deltaSize ≤ kLarge) (full : c.canAdd deltaSize = false) :
    ∃ chunk c' pre post, c.emit = some (chunk, c') ∧ l = pre ++ post ∧ pre ≠ [] ∧
      Encodes chunk pre ∧ Represents c' post ∧ post.length < kMaxTwoBitCapacity ∧
      (c.canAdd 0 = false → post = []) := by
  have hseven := not_canAdd_length h full
  have hne : l ≠ [] := ne_nil_of_length_pos (Nat.lt_of_lt_of_le (by decide) hseven)
  have hcheck : ¬ (c.canAdd 0 && c.canAdd 1 && c.canAdd 2) = true := by
    match deltaSize, hsmall, full with
    | 0, _, full => simp [full]
    | 1, _, full => simp [full]
    | 2, _, full => simp [full]
  unfold emit
  rw [if_neg hcheck]
  by_cases hall : c.allSame = true
  · rw [if_pos hall, h.size, if_pos (length_le_runLength h)]
    exact ⟨_, _, l, [], rfl, (append_nil l).symm, hne, symbols_encodeRunLength h hall hne,
      represents_clear h, by decide, fun _ => rfl⟩
  · rw [if_neg hall]
    by_cases hfourteen : c.size = kMaxOneBitCapacity
    · have hlen := h.size ▸ hfourteen
      have hone := (length_le_of_not_allSame h hall).resolve_left (by rw [hlen]; decide)
      have hlarge : ¬ c.hasLargeDelta = true := fun hl => hone.2 (h.hasLargeDelta.mp hl)
      have htake := take_deltaSizes h (Nat.le_refl _) hone.1
      have hcode := symbols_oneBit (symbols_small h hone.2) hone.1
      rw [if_pos hfourteen, if_neg hlarge]
      refine ⟨_, _, l, [], rfl, (append_nil l).symm, hne, ?_, represents_clear h, by decide,
        fun _ => rfl⟩
      rw [encodeOneBit, h.size, htake, take_length]
      refine ⟨(hcode l.length (Nat.min_eq_right hone.1)).1, fun maxSize hmax => ?_⟩
      exact (hcode maxSize (by rw [hlen] at hmax ⊢; exact Nat.min_eq_left hmax)).2
    · have hlen := h.size ▸ hfourteen
      have hone := length_le_oneBit h hall
      have hpre := length_take_of_le hseven
      have hcode := symbols_twoBit (fun x hx => h.small x (mem_of_mem_take hx))
        (Nat.le_of_eq hpre)
      rw [if_neg hfourteen, if_pos (h.size.symm ▸ hseven)]
      refine ⟨_, _, l.take kMaxTwoBitCapacity, l.drop kMaxTwoBitCapacity, rfl,
        (take_append_drop _ _).symm, ?_, ?_, represents_remaining h hseven hone _ rfl, ?_, ?_⟩
      · exact ne_nil_of_length_pos (by rw [hpre]; decide)
      · rw [encodeTwoBit, take_deltaSizes h hseven (by decide)]
        refine ⟨(hcode kMaxTwoBitCapacity (by rw [hpre]; rfl)).1, fun maxSize hmax => ?_⟩
        exact (hcode maxSize (by rw [hpre] at hmax ⊢; exact Nat.min_eq_left hmax)).2
      · rw [length_drop]
        have : l.length < 14 := Nat.lt_of_le_of_ne hone hlen
        have : kMaxTwoBitCapacity = 7 := rfl
        omega
      · -- A refused zero means a large delta, and then there are only seven symbols.
        intro hzero
        have hlarge : kLarge ∈ l := by
          by_contra hno
          refine Bool.false_ne_true (hzero ▸ (canAdd_iff h 0).mpr (Or.inr (Or.inl ⟨?_, ?_⟩)))
          · rw [length_append]
            exact Nat.lt_of_le_of_ne hone hlen
          · rw [mem_append, not_or]
            exact ⟨hno, by decide⟩
        have hshort : l.length ≤ kMaxTwoBitCapacity := by
          rcases length_le_of_not_allSame h hall with hle | ⟨-, hno⟩
          · exact hle
          · exact absurd hlarge hno
        exact drop_of_length_le hshort

end

end

end LastChunk

end Rtcp.TransportFeedback
