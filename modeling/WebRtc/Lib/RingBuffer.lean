import Mathlib.Data.List.Basic
import Mathlib.Data.Int.ModEq
import Mathlib.Tactic.Ring

/-!
# Circular buffers

A list of cells that is indexed by all integers, where indices that differ by a multiple of
its length share a cell. A cell that was never written holds `none`. As long as the indices in
use span at most the length, the buffer behaves like a map on them.
-/

universe u

namespace RingBuffer

def slot (capacity : Nat) (i : Int) : Nat := (i % capacity).toNat

section Slots

variable {capacity : Nat} {i j : Int}

theorem slot_lt (pos : 0 < capacity) (i : Int) : slot capacity i < capacity := by
  have hlt := Int.emod_lt_of_pos i (b := capacity) (by omega)
  unfold slot
  omega

theorem exists_turn (pos : 0 < capacity) (i : Int) :
    ∃ turn : Int, capacity * turn ≤ i ∧ i < capacity * turn + capacity :=
  ⟨i / capacity, Int.mul_ediv_self_le (by omega), Int.lt_mul_ediv_self_add (by omega)⟩

theorem slot_of_turn {turn : Int} (lower : capacity * turn ≤ i)
    (upper : i < capacity * turn + capacity) :
    (slot capacity i : Int) = i - capacity * turn := by
  have hmod : i % capacity = i - capacity * turn := by
    have hshift : i = i - capacity * turn + capacity * turn := by ring
    conv_lhs => rw [hshift, Int.add_mul_emod_self_left]
    exact Int.emod_eq_of_lt (by omega) (by omega)
  rw [slot, hmod, Int.toNat_of_nonneg (by omega)]

theorem slot_add (above : j < capacity) (below : -(capacity : Int) < j) :
    (slot capacity (i + j) : Int) =
      if (slot capacity i : Int) + j < 0 then slot capacity i + j + capacity
      else if (slot capacity i : Int) + j ≥ capacity then slot capacity i + j - capacity
      else slot capacity i + j := by
  obtain ⟨turn, hlower, hupper⟩ := exists_turn (by omega : 0 < capacity) i
  have hi := slot_of_turn hlower hupper
  have hprevious : (capacity : Int) * (turn - 1) = capacity * turn - capacity := by ring
  have hnext : (capacity : Int) * (turn + 1) = capacity * turn + capacity := by ring
  split_ifs with hneg hbig
  · rw [@slot_of_turn capacity (i + j) (turn - 1) (by omega) (by omega)]
    omega
  · rw [@slot_of_turn capacity (i + j) (turn + 1) (by omega) (by omega)]
    omega
  · rw [@slot_of_turn capacity (i + j) turn (by omega) (by omega)]
    omega

theorem slot_eq_iff (above : i < j + capacity) (below : j < i + capacity) :
    slot capacity i = slot capacity j ↔ i = j := by
  constructor
  · intro hslot
    have hmod : i % capacity = j % capacity := by
      have hi := Int.emod_nonneg i (b := capacity) (by omega)
      have hj := Int.emod_nonneg j (b := capacity) (by omega)
      unfold slot at hslot
      omega
    have hdvd := Int.ModEq.dvd hmod
    have := Int.eq_zero_of_abs_lt_dvd hdvd (abs_lt.mpr ⟨by omega, by omega⟩)
    omega
  · rintro rfl
    rfl

end Slots

variable {α : Type u} {cells target : List (Option α)} {i j : Int}

variable (cells)

def read (i : Int) : Option α := cells[slot cells.length i]?.join

def put (i : Int) (a : Option α) : List (Option α) :=
  cells.set (slot cells.length i) a

@[simp] theorem length_put (i : Int) (a : Option α) : (put cells i a).length = cells.length :=
  List.length_set

variable {cells}

theorem read_put (a : Option α) (above : i < j + cells.length) (below : j < i + cells.length) :
    read (put cells i a) j = if j = i then a else read cells j := by
  have hpos : 0 < cells.length := by omega
  have hlt := slot_lt hpos i
  rw [read, length_put, put, List.getElem?_set]
  by_cases heq : j = i
  · rw [if_pos heq, heq, if_pos rfl, if_pos hlt]
    rfl
  · rw [if_neg heq, if_neg fun hslot => heq ((slot_eq_iff above below).mp hslot).symm]
    rfl

/-- `std::fill` on the slots from `first` to before `last`. -/
def fillSlots (a : α) (first last : Nat) (cells : List (Option α)) : List (Option α) :=
  cells.mapIdx fun k cell => if first ≤ k ∧ k < last then some a else cell

/-- Fills the slots from one index to before another, in one or two segments. -/
def fill (a : α) (first last : Int) (cells : List (Option α)) : List (Option α) :=
  if slot cells.length first ≤ slot cells.length last then
    fillSlots a (slot cells.length first) (slot cells.length last) cells
  else
    fillSlots a 0 (slot cells.length last)
      (fillSlots a (slot cells.length first) cells.length cells)

@[simp] theorem length_fillSlots (a : α) (first last : Nat) (cells : List (Option α)) :
    (fillSlots a first last cells).length = cells.length :=
  List.length_mapIdx

@[simp] theorem length_fill (a : α) (first last : Int) (cells : List (Option α)) :
    (fill a first last cells).length = cells.length := by
  unfold fill
  split_ifs
  · rw [length_fillSlots]
  · rw [length_fillSlots, length_fillSlots]

theorem read_fillSlots (a : α) (first last : Nat) (pos : 0 < cells.length) :
    read (fillSlots a first last cells) j =
      if first ≤ slot cells.length j ∧ slot cells.length j < last then some a
      else read cells j := by
  have hlt := slot_lt pos j
  rw [read, length_fillSlots, fillSlots, List.getElem?_mapIdx, read, List.getElem?_eq_getElem hlt]
  split_ifs
  · simp
  · simp

/-- Filling fills the indices of the range, if with it the indices in use fit the buffer. -/
theorem read_fill (a : α) {low first last : Int} (lower : low ≤ first) (ordered : first ≤ last)
    (fits : last ≤ low + cells.length) (short : last < first + cells.length) (hlow : low ≤ j)
    (hhigh : j < low + cells.length) :
    read (fill a first last cells) j = if first ≤ j ∧ j < last then some a else read cells j := by
  have hpos : 0 < cells.length := by omega
  obtain ⟨turn, hturn, hturn'⟩ := exists_turn hpos low
  -- The slots of the window are its offsets, minus the capacity from the next turn on.
  have hslot : ∀ k, low ≤ k → k ≤ low + cells.length →
      (slot cells.length k : Int) = if k < cells.length * turn + cells.length then
        k - cells.length * turn else k - cells.length * turn - cells.length := by
    intro k hk hk'
    split_ifs with hcase
    · exact slot_of_turn (by omega) hcase
    · have hlower : cells.length * (turn + 1) ≤ k := by
        rw [mul_add]
        omega
      rw [slot_of_turn hlower (by rw [mul_add]; omega)]
      ring
  have hfirst := hslot first lower (by omega)
  have hlast := hslot last (by omega) fits
  have hj := hslot j hlow hhigh.le
  unfold fill
  split_ifs at hfirst hlast hj ⊢ <;>
    simp only [read_fillSlots _ _ _ hpos, length_fillSlots,
      read_fillSlots _ _ _ (lt_of_lt_of_eq hpos (length_fillSlots a _ _ cells).symm)] <;>
    split_ifs <;> first | rfl | omega

/-- Copies the cells of so many indices from `i` on. -/
def copyTo (cells : List (Option α)) : Nat → Int → List (Option α) → List (Option α)
  | 0, _, target => target
  | n + 1, i, target => copyTo cells n (i + 1) (put target i (read cells i))

/-- A buffer of the given capacity with the cells from `first` to before `last`. -/
def reallocate (capacity : Nat) (first last : Int) (cells : List (Option α)) : List (Option α) :=
  copyTo cells (last - first).toNat first (List.replicate capacity none)

@[simp] theorem length_copyTo (cells : List (Option α)) :
    ∀ (n : Nat) (i : Int) (target : List (Option α)),
      (copyTo cells n i target).length = target.length := by
  intro n
  induction n with
  | zero => exact fun _ _ => rfl
  | succ n ih => exact fun i target => (ih _ _).trans (length_put ..)

@[simp] theorem length_reallocate (capacity : Nat) (first last : Int) (cells : List (Option α)) :
    (reallocate capacity first last cells).length = capacity := by
  rw [reallocate, length_copyTo, List.length_replicate]

theorem read_copyTo (cells : List (Option α)) :
    ∀ (n : Nat) (i : Int) (target : List (Option α)), i + n ≤ j + target.length → j < i + n →
      read (copyTo cells n i target) j = if i ≤ j then read cells j else read target j := by
  intro n
  induction n with
  | zero =>
    intro i target _ hbelow
    rw [if_neg (by omega)]
    rfl
  | succ n ih =>
    intro i target habove hbelow
    rw [copyTo, ih _ _ (by rw [length_put]; omega) (by omega)]
    by_cases hnext : i + 1 ≤ j
    · rw [if_pos hnext, if_pos (by omega)]
    · rw [if_neg hnext, read_put _ (by omega) (by omega)]
      by_cases heq : j = i
      · rw [if_pos heq, heq, if_pos le_rfl]
      · rw [if_neg heq, if_neg (by omega)]

theorem read_reallocate {capacity : Nat} {first last : Int} (fits : last ≤ first + capacity)
    (lower : first ≤ j) (upper : j < last) :
    read (reallocate capacity first last cells) j = read cells j := by
  rw [reallocate, read_copyTo _ _ _ _ (by rw [List.length_replicate]; omega) (by omega),
    if_pos lower]

end RingBuffer
