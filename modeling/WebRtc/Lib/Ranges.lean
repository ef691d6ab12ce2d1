import Mathlib.Algebra.Order.Group.Unbundled.Int
import Mathlib.Data.List.Basic

/-!
# Sets of integers as ordered ranges

A set of integers above a bound, as a list of inclusive ranges that are ordered and do not touch
each other or the bound. Adding a number grows a range, joins two or opens a new one; everything up
to a number can be dropped; a first range that touches the bound can be taken into it.
-/

structure Range where
  first : Int
  last : Int
deriving DecidableEq, Repr

namespace Ranges

variable {r : Range} {rest : List Range}

def Covered (t : Int) (l : List Range) : Prop := ∃ r ∈ l, r.first ≤ t ∧ t ≤ r.last

/-- The ranges are nonempty, ordered, and apart from each other and from the bound. -/
def Above : Int → List Range → Prop
  | _, [] => True
  | bound, r :: rest => bound + 1 < r.first ∧ r.first ≤ r.last ∧ Above r.last rest

@[simp] theorem covered_nil (t : Int) : ¬ Covered t [] := by
  rintro ⟨r, hr, -⟩
  exact absurd hr List.not_mem_nil

variable {t bound : Int} {l : List Range}

theorem covered_cons : Covered t (r :: rest) ↔ (r.first ≤ t ∧ t ≤ r.last) ∨ Covered t rest := by
  simp [Covered]

theorem Above.lt_of_covered :
    ∀ {l : List Range} {bound : Int}, Above bound l → Covered t l → bound + 1 < t := by
  intro l
  induction l with
  | nil => exact fun _ h => absurd h (covered_nil t)
  | cons r rest ih =>
    rintro bound ⟨hfirst, hle, hrest⟩ hcovered
    rcases covered_cons.mp hcovered with h | h
    · omega
    · have := ih hrest h
      omega

theorem Above.first_le_last :
    ∀ {l : List Range} {bound : Int}, Above bound l → ∀ r ∈ l, r.first ≤ r.last := by
  intro l
  induction l with
  | nil => exact fun _ r hr => absurd hr List.not_mem_nil
  | cons s rest ih =>
    rintro bound ⟨-, hle, hrest⟩ r hr
    rcases List.mem_cons.mp hr with rfl | hr
    · exact hle
    · exact ih hrest r hr

theorem Above.lt_first (h : Above bound l) (hr : r ∈ l) : bound + 1 < r.first :=
  h.lt_of_covered ⟨r, hr, le_rfl, h.first_le_last r hr⟩

theorem Above.pairwise :
    ∀ {l : List Range} {bound : Int}, Above bound l → l.Pairwise fun r s => r.last + 1 < s.first := by
  intro l
  induction l with
  | nil => exact fun _ => .nil
  | cons r rest ih =>
    rintro bound ⟨-, -, hrest⟩
    exact .cons (fun s hs => hrest.lt_first hs) (ih hrest)

/-- A range of numbers in a set, between two numbers that are not in it. -/
structure Maximal (s : Set Int) (r : Range) : Prop where
  nonempty : r.first ≤ r.last
  inside : ∀ t, r.first ≤ t → t ≤ r.last → t ∈ s
  before : r.first - 1 ∉ s
  behind : r.last + 1 ∉ s

theorem Above.maximal : ∀ {l : List Range} {bound : Int}, Above bound l → r ∈ l →
    Maximal {t | Covered t l} r := by
  intro l
  induction l with
  | nil => exact fun _ hr => absurd hr List.not_mem_nil
  | cons head rest ih =>
    rintro bound ⟨hfirst, hle, hrest⟩ hr
    simp only [covered_cons]
    rcases List.mem_cons.mp hr with rfl | hr
    · refine ⟨hle, fun t hlow hhigh => .inl ⟨hlow, hhigh⟩, ?_, ?_⟩
      all_goals
        rintro (h | h)
        · omega
        · have := hrest.lt_of_covered h
          omega
    · have hmax := ih hrest hr
      have := hrest.lt_first hr
      have := hmax.nonempty
      refine ⟨hmax.nonempty, fun t hlow hhigh => .inr (hmax.inside t hlow hhigh), ?_, ?_⟩
      · rintro (h | h)
        · omega
        · exact hmax.before h
      · rintro (h | h)
        · omega
        · exact hmax.behind h

/-- The ranges are the maximal ones of what they cover. -/
theorem Above.mem_iff (h : Above bound l) : r ∈ l ↔ Maximal {t | Covered t l} r := by
  refine ⟨h.maximal, fun hr => ?_⟩
  obtain ⟨s, hs, hfirst, hlast⟩ := hr.inside r.first le_rfl hr.nonempty
  have hcovered := (h.maximal hs).inside
  -- the range that covers the first number starts there, and ends where the other one ends
  have hstart : s.first = r.first := by
    by_contra hne
    exact hr.before (hcovered _ (by omega) (by omega))
  have hend : s.last = r.last := by
    rcases lt_trichotomy s.last r.last with hlt | heq | hgt
    · exact absurd (hr.inside _ (by omega) hlt) (h.maximal hs).behind
    · exact heq
    · have := hr.nonempty
      exact absurd (hcovered _ (by omega) hgt) hr.behind
  obtain ⟨first, last⟩ := s
  obtain ⟨rfl, rfl⟩ : first = r.first ∧ last = r.last := ⟨hstart, hend⟩
  exact hs

/-- A range grows by one, and is joined with the next range if that closes the gap. -/
def growTo (r : Range) (t : Int) : List Range → List Range
  | [] => [⟨r.first, t⟩]
  | next :: rest =>
    if t + 1 = next.first then ⟨r.first, next.last⟩ :: rest else ⟨r.first, t⟩ :: next :: rest

/-- Adds a number, and says whether it is new. -/
def add (t : Int) : List Range → Bool × List Range
  | [] => (true, [⟨t, t⟩])
  | r :: rest =>
    if r.last + 1 < t then ((add t rest).1, r :: (add t rest).2)
    else if r.first ≤ t ∧ t ≤ r.last then (false, r :: rest)
    else if r.last + 1 = t then (true, growTo r t rest)
    else if r.first = t + 1 then (true, ⟨t, r.last⟩ :: rest)
    else (true, ⟨t, t⟩ :: r :: rest)

theorem growTo_spec (hrest : Above r.last rest)
    (hfirst : bound + 1 < r.first) (hle : r.first ≤ r.last) (next : r.last + 1 = t) :
    Above bound (growTo r t rest) ∧
    ∀ x, Covered x (growTo r t rest) ↔ Covered x (r :: rest) ∨ x = t := by
  cases rest with
  | nil =>
    refine ⟨⟨hfirst, by dsimp only; omega, trivial⟩, ?_⟩
    intro x
    simp only [growTo, covered_cons, covered_nil, or_false]
    omega
  | cons s rest =>
    obtain ⟨hgap, hsle, hrest'⟩ := hrest
    rw [growTo]
    split_ifs with hjoin
    · refine ⟨⟨hfirst, by dsimp only; omega, hrest'⟩, ?_⟩
      intro x
      simp only [covered_cons]
      by_cases hx : Covered x rest
      · simp [hx]
      · simp only [hx, or_false]
        omega
    · refine ⟨⟨hfirst, by dsimp only; omega, by dsimp only; omega, hsle, hrest'⟩, ?_⟩
      intro x
      simp only [covered_cons]
      by_cases hx : Covered x rest
      · simp [hx]
      · simp only [hx, or_false]
        omega

theorem add_spec (t : Int) : ∀ (l : List Range) {bound : Int}, Above bound l → bound + 1 < t →
      Above bound (add t l).2 ∧ (∀ x, Covered x (add t l).2 ↔ Covered x l ∨ x = t) ∧
      ((add t l).1 = true ↔ ¬ Covered t l) := by
  intro l
  induction l with
  | nil =>
    intro bound _ ht
    refine ⟨⟨ht, le_rfl, trivial⟩, ?_, iff_of_true rfl (covered_nil t)⟩
    intro x
    rw [add, covered_cons]
    simp only [covered_nil, or_false, false_or]
    omega
  | cons r rest ih =>
    rintro bound ⟨hfirst, hle, hrest⟩ ht
    rw [add]
    split_ifs with hpassed hin hright hleft
    · -- the range is passed
      obtain ⟨habove, hcovers, hnew⟩ := ih hrest hpassed
      refine ⟨⟨hfirst, hle, habove⟩, ?_, ?_⟩
      · intro x
        rw [covered_cons, covered_cons, hcovers, or_assoc]
      · rw [hnew, covered_cons]
        have : ¬ (r.first ≤ t ∧ t ≤ r.last) := by omega
        simp [this]
    · -- the range holds the number
      refine ⟨⟨hfirst, hle, hrest⟩, ?_, ?_⟩
      · intro x
        refine ⟨Or.inl, ?_⟩
        rintro (h | rfl)
        · exact h
        · exact covered_cons.mpr (Or.inl hin)
      · simp [covered_cons, hin]
    -- from here on the number is new
    all_goals
      have hnew : ¬ Covered t (r :: rest) := by
        rw [covered_cons]
        rintro (h | h)
        · omega
        · have := hrest.lt_of_covered h
          omega
    · exact ⟨(growTo_spec hrest hfirst hle hright).1, (growTo_spec hrest hfirst hle hright).2,
        iff_of_true rfl hnew⟩
    · -- the range starts right after the number
      refine ⟨⟨ht, by dsimp only; omega, hrest⟩, ?_, iff_of_true rfl hnew⟩
      intro x
      simp only [covered_cons]
      by_cases hx : Covered x rest
      · simp [hx]
      · simp only [hx, or_false]
        omega
    · -- the number is in a gap of its own
      refine ⟨⟨ht, le_rfl, by dsimp only; omega, hle, hrest⟩, ?_, iff_of_true rfl hnew⟩
      intro x
      simp only [covered_cons]
      by_cases hx : Covered x rest
      · simp [hx]
      · simp only [hx, or_false]
        omega

/-- Drops everything up to a number; a range that ends there is left empty. -/
def eraseTo (t : Int) : List Range → List Range
  | [] => []
  | r :: rest =>
    if r.last < t then eraseTo t rest
    else if r.first ≤ t then ⟨t + 1, r.last⟩ :: rest
    else r :: rest

/-- A first range that touches the bound is taken into it. -/
def absorb (bound : Int) : List Range → Int × List Range
  | [] => (bound, [])
  | r :: rest => if r.first = bound + 1 then (r.last, rest) else (bound, r :: rest)

theorem absorb_spec (hrest : Above r.last rest) (hfirst : bound < r.first)
    (hlast : r.first ≤ r.last ∨ (r.first = bound + 1 ∧ bound ≤ r.last)) :
    Above (absorb bound (r :: rest)).1 (absorb bound (r :: rest)).2 ∧
    ∀ x, (x ≤ (absorb bound (r :: rest)).1 ∨ Covered x (absorb bound (r :: rest)).2) ↔
      x ≤ bound ∨ Covered x (r :: rest) := by
  rw [absorb]
  split_ifs with htouch
  · refine ⟨hrest, ?_⟩
    intro x
    rw [covered_cons]
    by_cases hx : Covered x rest
    · simp [hx]
    · simp only [hx, or_false]
      omega
  · exact ⟨⟨by omega, by omega, hrest⟩, fun _ => Iff.rfl⟩

/-- The bound moves up by one, over a number that no range covers. -/
theorem absorb_next (h : Above bound l) : Above (absorb (bound + 1) l).1 (absorb (bound + 1) l).2 ∧
    ∀ x, (x ≤ (absorb (bound + 1) l).1 ∨ Covered x (absorb (bound + 1) l).2) ↔
      x ≤ bound + 1 ∨ Covered x l := by
  cases l with
  | nil => exact ⟨trivial, fun _ => Iff.rfl⟩
  | cons r rest => exact absorb_spec h.2.2 h.1 (Or.inl h.2.1)

theorem absorb_eraseTo (t : Int) : ∀ (l : List Range) {bound : Int}, Above bound l →
      Above (absorb t (eraseTo t l)).1 (absorb t (eraseTo t l)).2 ∧
      ∀ x, (x ≤ (absorb t (eraseTo t l)).1 ∨ Covered x (absorb t (eraseTo t l)).2) ↔
        x ≤ t ∨ Covered x l := by
  intro l
  induction l with
  | nil => exact fun _ => ⟨trivial, fun _ => Iff.rfl⟩
  | cons r rest ih =>
    rintro bound ⟨hfirst, hle, hrest⟩
    rw [eraseTo]
    split_ifs with hbelow hwithin
    · obtain ⟨habove, hcovers⟩ := ih hrest
      refine ⟨habove, ?_⟩
      intro x
      rw [hcovers, covered_cons]
      by_cases hx : Covered x rest
      · simp [hx]
      · simp only [hx, or_false]
        omega
    · have hclipped : Above (Range.mk (t + 1) r.last).last rest := hrest
      obtain ⟨habove, hcovers⟩ :=
        absorb_spec hclipped (Int.lt_succ t) (Or.inr ⟨rfl, not_lt.mp hbelow⟩)
      refine ⟨habove, ?_⟩
      intro x
      rw [hcovers, covered_cons, covered_cons]
      by_cases hx : Covered x rest
      · simp [hx]
      · simp only [hx, or_false]
        omega
    · exact absorb_spec hrest (not_le.mp hwithin) (Or.inl hle)

theorem Above.le_bound (h : Above bound l)
    (all : ∀ x, x ≤ t → x ≤ bound ∨ Covered x l) : t ≤ bound := by
  by_contra hlt
  rcases all (bound + 1) (by omega) with hle | hcovered
  · omega
  · exact lt_irrefl _ (h.lt_of_covered hcovered)

end Ranges
