import Mathlib.Algebra.Order.BigOperators.Group.List
import Mathlib.Algebra.Order.Ring.Nat

/-!
# Windows over a numbered sequence

The items with consecutive numbers after a base: they enter at the upper end, are
changed in place under their number, and leave at the lower end, which moves the
base. A total over the items follows each of these.
-/

universe u

structure Window (α : Type u) where
  base : Int
  items : List α

namespace Window

open List

variable {α : Type u} (w : Window α) {a : α}

/-- The number of the last item, or the base of an empty window. -/
def highest (w : Window α) : Int := w.base + w.items.length

def get? (w : Window α) (i : Int) : Option α :=
  if w.base < i then w.items[(i - w.base - 1).toNat]? else none

def modify (w : Window α) (i : Int) (f : α → α) : Window α :=
  if w.base < i then { w with items := w.items.modify (i - w.base - 1).toNat f } else w

def push (w : Window α) (a : α) : Window α := { w with items := w.items ++ [a] }

def total (w : Window α) (f : α → Nat) : Nat := (w.items.map f).sum

@[simp] theorem base_modify (i : Int) (f : α → α) : (w.modify i f).base = w.base := by
  unfold modify
  split_ifs <;> rfl

@[simp] theorem length_modify (i : Int) (f : α → α) :
    (w.modify i f).items.length = w.items.length := by
  unfold modify
  split_ifs
  · exact List.length_modify ..
  · rfl

@[simp] theorem highest_modify (i : Int) (f : α → α) : (w.modify i f).highest = w.highest := by
  rw [highest, highest, base_modify, length_modify]

theorem get?_eq_none_iff (i : Int) : w.get? i = none ↔ i ≤ w.base ∨ w.highest < i := by
  unfold get? highest
  split_ifs with h
  · rw [getElem?_eq_none_iff]
    omega
  · exact iff_of_true rfl (Or.inl (by omega))

variable {w : Window α} {i : Int}

theorem exists_get? (above : w.base < i) (below : i ≤ w.highest) : ∃ a, w.get? i = some a := by
  refine Option.ne_none_iff_exists'.mp fun hnone => ?_
  rcases (w.get?_eq_none_iff i).mp hnone with h | h <;> omega

theorem bounds_of_get? (h : w.get? i = some a) : w.base < i ∧ i ≤ w.highest := by
  have hnot : ¬ (i ≤ w.base ∨ w.highest < i) := by
    rw [← w.get?_eq_none_iff, h]
    exact nofun
  omega

theorem get?_modify (i j : Int) (f : α → α) :
    (w.modify i f).get? j = if j = i then (w.get? j).map f else w.get? j := by
  by_cases hi : w.base < i
  · unfold modify get?
    rw [if_pos hi]
    by_cases hj : w.base < j
    · rw [if_pos hj, if_pos hj, getElem?_modify]
      by_cases heq : j = i
      · subst heq
        simp
      · have hne : ¬ (i - w.base - 1).toNat = (j - w.base - 1).toNat := by omega
        rw [if_neg heq]
        simp only [hne, if_false, Option.map_eq_map, Option.map_id']
    · simp [hj]
  · unfold modify
    split_ifs with heq
    · subst heq
      rw [get?, if_neg hi, Option.map_none]
    · rfl

theorem get?_push (a : α) (j : Int) :
    (w.push a).get? j = if j = w.highest + 1 then some a else w.get? j := by
  unfold push get? highest
  dsimp only
  by_cases hj : w.base < j
  · rw [if_pos hj, if_pos hj]
    by_cases hlast : j = w.base + w.items.length + 1
    · have hindex : (j - w.base - 1).toNat = w.items.length := by omega
      rw [if_pos hlast, hindex, getElem?_concat_length]
    · rw [if_neg hlast]
      by_cases hlt : (j - w.base - 1).toNat < w.items.length
      · rw [getElem?_append_left hlt]
      · rw [getElem?_eq_none (by rw [length_append, length_singleton]; omega),
          getElem?_eq_none (by omega)]
  · rw [if_neg hj, if_neg hj, if_neg (by omega)]

@[simp] theorem highest_push (a : α) : (w.push a).highest = w.highest + 1 := by
  simp [highest, push]
  omega

theorem sum_map_modify (f : α → Nat) (g : α → α) :
    ∀ (l : List α) (i : Nat) (a : α), l[i]? = some a →
      ((l.modify i g).map f).sum + f a = (l.map f).sum + f (g a) := by
  intro l
  induction l with
  | nil =>
    intro i a h
    cases h
  | cons b rest ih =>
    intro i a h
    cases i with
    | zero =>
      cases h
      simp only [modify_zero_cons, map_cons, sum_cons]
      omega
    | succ i =>
      have := ih i a h
      simp only [modify_succ_cons, map_cons, sum_cons]
      omega

theorem total_modify (h : w.get? i = some a) (g : α → α) (f : α → Nat) :
    (w.modify i g).total f + f a = w.total f + f (g a) := by
  have hbase := (bounds_of_get? h).1
  rw [get?, if_pos hbase] at h
  rw [modify, if_pos hbase]
  exact sum_map_modify f g w.items _ a h

theorem total_push (a : α) (f : α → Nat) : (w.push a).total f = w.total f + f a := by
  simp [total, push]

theorem mem_items_iff : a ∈ w.items ↔ ∃ i, w.get? i = some a := by
  constructor
  · intro hmem
    obtain ⟨n, hn⟩ := mem_iff_getElem?.mp hmem
    refine ⟨w.base + 1 + n, ?_⟩
    have hindex : (w.base + 1 + n - w.base - 1).toNat = n := by omega
    rw [get?, if_pos (by omega), hindex]
    exact hn
  · rintro ⟨i, held⟩
    rw [get?, if_pos (bounds_of_get? held).1] at held
    exact mem_of_getElem? held

theorem le_total (h : w.get? i = some a) (f : α → Nat) : f a ≤ w.total f := by
  have hmem : a ∈ w.items := mem_items_iff.mpr ⟨i, h⟩
  exact single_le_sum (fun _ _ => Nat.zero_le _) _ (mem_map_of_mem hmem)

theorem get?_first {rest : List α} (h : w.items = a :: rest) : w.get? (w.base + 1) = some a := by
  have hindex : (w.base + 1 - w.base - 1).toNat = 0 := by omega
  rw [get?, if_pos (Int.lt_succ w.base), hindex, h]
  rfl

theorem get?_tail (j : Int) :
    (Window.mk (w.base + 1) w.items.tail).get? j = if j = w.base + 1 then none else w.get? j := by
  unfold get?
  by_cases hj : w.base + 1 < j
  · have hindex : (j - w.base - 1).toNat = (j - (w.base + 1) - 1).toNat + 1 := by omega
    rw [if_pos hj, if_neg (by omega), if_pos (by omega), hindex, getElem?_tail]
  · rw [if_neg hj]
    split_ifs with heq hlt
    · rfl
    · omega
    · rfl

end Window
