import Mathlib

/-!
# Ordered maps

A finite map kept as its entries in increasing key order. The order is part of the
type, so that the entries a loop visits and the ones it leaves behind are again
maps. Totals of a quantity over all entries follow every operation.
-/

universe u v

structure OrdMap (K : Type u) (V : Type v) [LinearOrder K] where
  entries : List (K × V)
  sorted : entries.Pairwise (fun a b => a.1 < b.1)

namespace OrdMap

open List
open Option hiding map_map

variable {K : Type u} {V : Type v} [LinearOrder K] (m : OrdMap K V) {k : K} {v : V} {e : K × V}
  {l : List (K × V)}

@[ext] theorem ext {m n : OrdMap K V} (h : m.entries = n.entries) : m = n := by
  cases m
  cases n
  cases h
  rfl

instance [DecidableEq V] : DecidableEq (OrdMap K V) := fun m n =>
  decidable_of_iff (m.entries = n.entries) ⟨ext, fun h => h ▸ rfl⟩

def empty : OrdMap K V := ⟨[], List.Pairwise.nil⟩

def find? (m : OrdMap K V) (k : K) : Option V :=
  (m.entries.find? fun e => e.1 = k).map Prod.snd

theorem value_unique {w : V} (hv : (k, v) ∈ m.entries) (hw : (k, w) ∈ m.entries) : v = w := by
  obtain ⟨l, hsorted⟩ := m
  induction l with
  | nil => cases hv
  | cons e rest ih =>
    obtain ⟨hhead, htail⟩ := pairwise_cons.mp hsorted
    rcases mem_cons.mp hv with rfl | hv' <;> rcases mem_cons.mp hw with h | hw'
    · cases h
      rfl
    · exact absurd (hhead _ hw') (lt_irrefl k)
    · subst h
      exact absurd (hhead _ hv') (lt_irrefl k)
    · exact ih htail hv' hw'

theorem find?_eq_some_iff (k : K) (v : V) : m.find? k = some v ↔ (k, v) ∈ m.entries := by
  constructor
  · intro h
    obtain ⟨⟨k', v'⟩, hfind, hvalue⟩ := map_eq_some_iff.mp h
    have hkey : k' = k := by simpa using find?_some hfind
    cases hkey
    cases hvalue
    exact mem_of_find?_eq_some hfind
  · intro h
    cases hfind : m.entries.find? (fun e => e.1 = k) with
    | none =>
      have := find?_eq_none.mp hfind (k, v) h
      simp at this
    | some e =>
      obtain ⟨k', w⟩ := e
      have hkey : k' = k := by simpa using find?_some hfind
      cases hkey
      rw [find?, hfind, map_some, m.value_unique h (mem_of_find?_eq_some hfind)]

theorem find?_eq_none_iff (k : K) : m.find? k = none ↔ ∀ v, (k, v) ∉ m.entries := by
  rw [eq_none_iff_forall_ne_some]
  simp [find?_eq_some_iff]

def filter (m : OrdMap K V) (p : K × V → Bool) : OrdMap K V :=
  ⟨m.entries.filter p, m.sorted.filter p⟩

def erase (m : OrdMap K V) (k : K) : OrdMap K V := m.filter fun e => !decide (e.1 = k)

def dropWhile (m : OrdMap K V) (p : K × V → Bool) : OrdMap K V :=
  ⟨m.entries.dropWhile p, m.sorted.sublist (List.dropWhile_sublist p)⟩

def mapValues {W : Type*} (m : OrdMap K V) (f : V → W) : OrdMap K W where
  entries := m.entries.map fun e => (e.1, f e.2)
  sorted := m.sorted.map _ fun _ _ h => h

def modify (m : OrdMap K V) (k : K) (f : V → V) : OrdMap K V where
  entries := m.entries.map fun e => if e.1 = k then (e.1, f e.2) else e
  sorted := by
    refine List.Pairwise.map _ ?_ m.sorted
    intro a b h
    split_ifs <;> exact h

/-- Sorted insertion that keeps the value of a key already there. -/
def emplaceEntries (k : K) (v : V) : List (K × V) → List (K × V)
  | [] => [(k, v)]
  | e :: rest =>
    if k < e.1 then (k, v) :: e :: rest
    else if k = e.1 then e :: rest
    else e :: emplaceEntries k v rest

theorem mem_emplaceEntries (h : e ∈ emplaceEntries k v l) : e = (k, v) ∨ e ∈ l := by
  induction l with
  | nil => exact Or.inl (mem_singleton.mp h)
  | cons head rest ih =>
    rw [emplaceEntries] at h
    split_ifs at h
    · exact mem_cons.mp h
    · exact Or.inr h
    · rcases mem_cons.mp h with rfl | h
      · exact Or.inr mem_cons_self
      · exact (ih h).imp_right (mem_cons_of_mem _)

theorem mem_emplaceEntries_of_mem (h : e ∈ l) : e ∈ emplaceEntries k v l := by
  induction l with
  | nil => cases h
  | cons head rest ih =>
    rw [emplaceEntries]
    split_ifs
    · exact mem_cons_of_mem _ h
    · exact h
    · rcases mem_cons.mp h with rfl | h
      · exact mem_cons_self
      · exact mem_cons_of_mem _ (ih h)

theorem mem_emplaceEntries_self (absent : ∀ e ∈ l, e.1 ≠ k) : (k, v) ∈ emplaceEntries k v l := by
  induction l with
  | nil => exact mem_singleton_self _
  | cons head rest ih =>
    rw [emplaceEntries]
    split_ifs with hlt heq
    · exact mem_cons_self
    · exact absurd heq.symm (absent head mem_cons_self)
    · exact mem_cons_of_mem _ (ih (forall_mem_cons.mp absent).2)

theorem emplaceEntries_sorted (k : K) (v : V) (h : l.Pairwise (fun a b => a.1 < b.1)) :
    (emplaceEntries k v l).Pairwise (fun a b => a.1 < b.1) := by
  induction l with
  | nil => exact pairwise_singleton _ _
  | cons e rest ih =>
    obtain ⟨hhead, htail⟩ := pairwise_cons.mp h
    rw [emplaceEntries]
    split_ifs with hlt heq
    · refine pairwise_cons.mpr ⟨?_, h⟩
      intro a hmem
      rcases mem_cons.mp hmem with rfl | hmem
      · exact hlt
      · exact hlt.trans (hhead a hmem)
    · exact h
    · refine pairwise_cons.mpr ⟨?_, ih htail⟩
      intro a hmem
      rcases mem_emplaceEntries hmem with rfl | hmem
      · exact lt_of_le_of_ne (not_lt.mp hlt) (Ne.symm heq)
      · exact hhead a hmem

def emplace (m : OrdMap K V) (k : K) (v : V) : OrdMap K V :=
  ⟨emplaceEntries k v m.entries, emplaceEntries_sorted k v m.sorted⟩

/-- `operator[]` with an assignment: adds the entry or replaces its value. -/
def set (m : OrdMap K V) (k : K) (v : V) : OrdMap K V := (m.erase k).emplace k v

theorem entries_eq_around (h : e ∈ m.entries) :
    m.entries = m.entries.takeWhile (fun a => a.1 < e.1) ++
      e :: m.entries.dropWhile fun a => a.1 ≤ e.1 := by
  obtain ⟨l, hsorted⟩ := m
  induction l with
  | nil => cases h
  | cons a rest ih =>
    obtain ⟨hhead, htail⟩ := pairwise_cons.mp hsorted
    rcases mem_cons.mp h with rfl | h
    · have hrest : rest.dropWhile (fun a => decide (a.1 ≤ e.1)) = rest := by
        cases rest with
        | nil => rfl
        | cons b _ => simp [not_le.mpr (hhead b mem_cons_self)]
      simp [hrest]
    · have hlt : a.1 < e.1 := hhead e h
      simp only [takeWhile_cons, dropWhile_cons, hlt, hlt.le, decide_true, if_true, cons_append]
      rw [← ih htail h]

def total (m : OrdMap K V) (f : K → V → Nat) : Nat :=
  (m.entries.map fun e => f e.1 e.2).sum

variable {f : K → V → Nat}

theorem total_congr {g : K → V → Nat} (h : ∀ k v, (k, v) ∈ m.entries → f k v = g k v) :
    m.total f = m.total g := by
  unfold total
  rw [map_congr_left fun e hmem => h e.1 e.2 hmem]

theorem sum_filter_add {α : Type*} (l : List α) (p : α → Bool) (f : α → Nat) :
    ((l.filter p).map f).sum + ((l.filter fun a => !p a).map f).sum = (l.map f).sum := by
  induction l with
  | nil => rfl
  | cons a l ih =>
    cases h : p a <;> simp [h] <;> omega

theorem total_filter_add (p : K × V → Bool) (f : K → V → Nat) :
    (m.filter p).total f + (m.filter fun e => !p e).total f = m.total f :=
  sum_filter_add m.entries p _

theorem mem_erase (k : K) (e : K × V) : e ∈ (m.erase k).entries ↔ e ∈ m.entries ∧ e.1 ≠ k := by
  simp [erase, filter]

theorem length_erase_lt (h : e ∈ m.entries) : (m.erase e.1).entries.length < m.entries.length :=
  length_filter_lt_length_iff_exists.mpr ⟨e, h, by simp⟩

theorem find?_erase (k k' : K) : (m.erase k).find? k' = if k' = k then none else m.find? k' := by
  refine Option.ext fun v => ?_
  rw [find?_eq_some_iff, mem_erase]
  split_ifs with h
  · simp [h]
  · simp [h, find?_eq_some_iff]

theorem mem_set (k : K) (v : V) (e : K × V) :
    e ∈ (m.set k v).entries ↔ e = (k, v) ∨ (e ∈ m.entries ∧ e.1 ≠ k) := by
  rw [← mem_erase]
  constructor
  · exact mem_emplaceEntries
  · rintro (rfl | hmem)
    · exact mem_emplaceEntries_self fun e he => ((m.mem_erase k e).mp he).2
    · exact mem_emplaceEntries_of_mem hmem

theorem find?_set (k k' : K) (v : V) :
    (m.set k v).find? k' = if k' = k then some v else m.find? k' := by
  refine Option.ext fun w => ?_
  rw [find?_eq_some_iff, mem_set]
  split_ifs with h
  · subst h
    simp [eq_comm]
  · rw [find?_eq_some_iff]
    simp [h]

theorem filter_eq_singleton (h : (k, v) ∈ m.entries) :
    m.entries.filter (fun e => e.1 = k) = [(k, v)] := by
  obtain ⟨l, hsorted⟩ := m
  induction l with
  | nil => cases h
  | cons e rest ih =>
    obtain ⟨hhead, htail⟩ := pairwise_cons.mp hsorted
    rcases mem_cons.mp h with rfl | h
    · have hnone : rest.filter (fun e => e.1 = k) = [] := by
        refine filter_eq_nil_iff.mpr fun a hmem => ?_
        simpa using ne_of_gt (hhead a hmem)
      rw [filter_cons_of_pos (by simp), hnone]
    · have hne : e.1 ≠ k := ne_of_lt (hhead _ h)
      rw [filter_cons_of_neg (by simpa using hne), ih htail h]

theorem total_erase (h : (k, v) ∈ m.entries) (f : K → V → Nat) :
    m.total f = f k v + (m.erase k).total f := by
  have hsplit := m.total_filter_add (fun e => e.1 = k) f
  have hone : (m.filter fun e => e.1 = k).total f = f k v := by
    change ((m.entries.filter fun e => e.1 = k).map fun e => f e.1 e.2).sum = f k v
    rw [m.filter_eq_singleton h]
    simp
  rw [hone] at hsplit
  exact hsplit.symm

theorem erase_modify (k : K) (g : V → V) : (m.modify k g).erase k = m.erase k := by
  refine ext ?_
  simp only [erase, filter, modify]
  induction m.entries with
  | nil => rfl
  | cons e rest ih =>
    by_cases h : e.1 = k
    · simp [h, ih]
    · simp [h, ih]

theorem mem_modify (h : (k, v) ∈ m.entries) (g : V → V) : (k, g v) ∈ (m.modify k g).entries :=
  mem_map.mpr ⟨(k, v), h, if_pos rfl⟩

theorem exists_of_mem_modify {g : V → V} (h : e ∈ (m.modify k g).entries) :
    ∃ v, (e.1, v) ∈ m.entries ∧ e.2 = if e.1 = k then g v else v := by
  obtain ⟨⟨key, v⟩, hmem, heq⟩ := mem_map.mp h
  split_ifs at heq with hkey
  · cases heq
    exact ⟨v, hmem, (if_pos hkey).symm⟩
  · cases heq
    exact ⟨v, hmem, (if_neg hkey).symm⟩

section SumOver

variable {A : Type*} [AddCommMonoid A] (m : OrdMap K V)

def sumOver (m : OrdMap K V) (f : K → V → A) : A := (m.entries.map fun e => f e.1 e.2).sum

variable {k : K}

theorem sumOver_erase {v : V} (h : (k, v) ∈ m.entries) (f : K → V → A) :
    m.sumOver f = f k v + (m.erase k).sumOver f := by
  have hsplit := filter_append_perm (fun e : K × V => decide (e.1 = k)) m.entries
  rw [m.filter_eq_singleton h] at hsplit
  rw [sumOver, ← (hsplit.map fun e => f e.1 e.2).sum_eq]
  rfl

theorem sumOver_modify {v : V} (h : (k, v) ∈ m.entries) (g : V → V) (f : K → V → A) :
    (m.modify k g).sumOver f = f k (g v) + (m.erase k).sumOver f := by
  rw [(m.modify k g).sumOver_erase (m.mem_modify h g) f, erase_modify]

theorem perm_emplace (h : m.find? k = none) (v : V) :
    (m.emplace k v).entries.Perm ((k, v) :: m.entries) := by
  have habsent := (m.find?_eq_none_iff k).mp h
  clear h
  obtain ⟨l, hsorted⟩ := m
  dsimp only [emplace] at habsent ⊢
  clear hsorted
  induction l with
  | nil => exact List.Perm.refl _
  | cons e rest ih =>
    have hne : k ≠ e.1 := fun heq => habsent e.2 (heq ▸ mem_cons_self)
    rw [emplaceEntries]
    split_ifs
    · exact List.Perm.refl _
    · have hrest := ih fun w hmem => habsent w (mem_cons_of_mem _ hmem)
      exact (hrest.cons e).trans (List.Perm.swap _ _ _)

theorem sumOver_emplace (h : m.find? k = none) (v : V) (f : K → V → A) :
    (m.emplace k v).sumOver f = f k v + m.sumOver f :=
  ((m.perm_emplace h v).map fun e : K × V => f e.1 e.2).sum_eq

theorem sumOver_filter_add (p : K × V → Bool) (f : K → V → A) :
    (m.filter p).sumOver f + (m.filter fun e => !p e).sumOver f = m.sumOver f := by
  have hsplit := ((filter_append_perm p m.entries).map fun e => f e.1 e.2).sum_eq
  rwa [map_append, sum_append] at hsplit

theorem sumOver_filter {p : K × V → Bool} {f : K → V → A}
    (h : ∀ e ∈ m.entries, p e = false → f e.1 e.2 = 0) : (m.filter p).sumOver f = m.sumOver f := by
  have hdropped : (m.filter fun e => !p e).sumOver f = 0 := by
    refine sum_eq_zero fun a ha => ?_
    obtain ⟨e, he, rfl⟩ := mem_map.mp ha
    obtain ⟨hmem, hp⟩ := mem_filter.mp he
    exact h e hmem (by simpa using hp)
  rw [← m.sumOver_filter_add p f, hdropped, add_zero]

end SumOver

theorem total_modify (h : (k, v) ∈ m.entries) (g : V → V) (f : K → V → Nat) :
    (m.modify k g).total f + f k v = m.total f + f k (g v) := by
  have hbefore := m.total_erase h f
  have hafter := (m.modify k g).total_erase (m.mem_modify h g) f
  rw [erase_modify] at hafter
  omega

theorem total_modify_of_eq (k : K) {g : V → V} (h : ∀ v, f k (g v) = f k v) :
    (m.modify k g).total f = m.total f := by
  rw [total, modify, map_map]
  refine congrArg sum (map_congr_left fun e _ => ?_)
  by_cases hk : e.1 = k
  · subst hk
    simp [h]
  · simp [hk]

theorem total_emplace (h : m.find? k = none) (v : V) (f : K → V → Nat) :
    (m.emplace k v).total f = f k v + m.total f :=
  m.sumOver_emplace h v f

theorem mem_emplace (h : m.find? k = none) (v : V) (e : K × V) :
    e ∈ (m.emplace k v).entries ↔ e = (k, v) ∨ e ∈ m.entries := by
  constructor
  · exact mem_emplaceEntries
  · rintro (rfl | hmem)
    · refine mem_emplaceEntries_self fun e hmem heq => ?_
      exact (m.find?_eq_none_iff k).mp h e.2 (heq ▸ hmem)
    · exact mem_emplaceEntries_of_mem hmem

theorem erase_of_find? (h : m.find? k = none) : m.erase k = m := by
  refine ext (filter_eq_self.mpr fun e hmem => ?_)
  have hne : e.1 ≠ k := fun heq => (m.find?_eq_none_iff k).mp h e.2 (heq ▸ hmem)
  simpa using hne

/-- What a total gains from the new value it loses from the one that is replaced. -/
theorem total_set (k : K) (v : V) (f : K → V → Nat) :
    (m.set k v).total f + (m.find? k).elim 0 (f k) = m.total f + f k v := by
  have hset : (m.set k v).total f = f k v + (m.erase k).total f := by
    refine total_emplace _ ?_ v f
    rw [find?_erase, if_pos rfl]
  cases hfind : m.find? k with
  | none =>
    rw [hset, m.erase_of_find? hfind, elim_none]
    omega
  | some w =>
    rw [m.total_erase ((m.find?_eq_some_iff k w).mp hfind) f, elim_some]
    omega

/-- A total over a map with defaults, where the default counts for nothing. -/
theorem total_set_getD (k : K) (v : V) (f : K → V → Nat) {w : V} (h : f k w = 0) :
    (m.set k v).total f + f k ((m.find? k).getD w) = m.total f + f k v := by
  rw [← m.total_set k v f]
  cases m.find? k with
  | none => rw [getD_none, elim_none, h]
  | some _ => rfl

theorem total_erase_all (f : K → V → Nat) (l : List (K × V)) :
    ∀ m : OrdMap K V, l.Sublist m.entries → m.total f = (l.map fun e => f e.1 e.2).sum +
        (l.foldl (fun m e => m.erase e.1) m).total f := by
  induction l with
  | nil =>
    intro m _
    simp
  | cons e l ih =>
    intro m hsub
    have hmem : e ∈ m.entries := hsub.subset mem_cons_self
    have hkeys : ∀ a ∈ l, a.1 ≠ e.1 := by
      intro a ha
      exact (rel_of_pairwise_cons (m.sorted.sublist hsub) ha).ne'
    have hrest : l.Sublist (m.erase e.1).entries := by
      have hfilter := (sublist_of_cons_sublist hsub).filter fun a => !decide (a.1 = e.1)
      rwa [filter_eq_self.mpr fun a ha => by simpa using hkeys a ha] at hfilter
    have htail := ih (m.erase e.1) hrest
    have hhead := m.total_erase hmem f
    rw [map_cons, sum_cons, foldl_cons]
    omega

theorem total_mapValues {W : Type*} (g : V → W) (f : K → W → Nat) :
    (m.mapValues g).total f = m.total fun k v => f k (g v) := by
  simp [total, mapValues, Function.comp_def]

theorem emplace_of_find? {w : V} (h : m.find? k = some w) (v : V) : m.emplace k v = m := by
  have hmem := (m.find?_eq_some_iff k w).mp h
  refine ext ?_
  clear h
  obtain ⟨l, hsorted⟩ := m
  dsimp only [emplace] at hmem ⊢
  induction l with
  | nil => cases hmem
  | cons e rest ih =>
    obtain ⟨hhead, htail⟩ := pairwise_cons.mp hsorted
    rw [emplaceEntries]
    rcases mem_cons.mp hmem with rfl | hmem
    · rw [if_neg (lt_irrefl k), if_pos rfl]
    · have hlt : e.1 < k := hhead _ hmem
      rw [if_neg (not_lt.mpr hlt.le), if_neg hlt.ne', ih htail hmem]

theorem total_dropWhile (p : K × V → Bool) (f : K → V → Nat) :
    m.total f = ((m.entries.takeWhile p).map fun e => f e.1 e.2).sum + (m.dropWhile p).total f := by
  rw [total, total, dropWhile, ← sum_append, ← map_append, takeWhile_append_dropWhile]

theorem find?_modify (k k' : K) (g : V → V) :
    (m.modify k g).find? k' = if k' = k then (m.find? k').map g else m.find? k' := by
  refine Option.ext fun w => ?_
  rw [find?_eq_some_iff]
  constructor
  · intro h
    obtain ⟨v, hmem, hw⟩ := m.exists_of_mem_modify h
    have hv := (m.find?_eq_some_iff k' v).mpr hmem
    dsimp only at hw
    split_ifs at hw ⊢ with hk
    · rw [hv, hw]
      rfl
    · rw [hv, hw]
  · intro h
    split_ifs at h with hk
    · obtain ⟨v, hv, rfl⟩ := Option.map_eq_some_iff.mp h
      rw [hk] at hv ⊢
      exact m.mem_modify ((m.find?_eq_some_iff k v).mp hv) g
    · exact mem_map.mpr ⟨(k', w), (m.find?_eq_some_iff k' w).mp h, if_neg hk⟩

theorem find?_emplace (h : m.find? k = none) (v : V) (k' : K) :
    (m.emplace k v).find? k' = if k' = k then some v else m.find? k' := by
  rw [← m.find?_set k k' v, set, m.erase_of_find? h]

theorem find?_filter (p : K × V → Bool) (k : K) :
    (m.filter p).find? k = (m.find? k).filter fun v => p (k, v) := by
  refine Option.ext fun v => ?_
  rw [find?_eq_some_iff, Option.filter_eq_some_iff, find?_eq_some_iff]
  exact mem_filter

section Visit

variable {A B R : Type*} {f : B → Option (R × B)}

/-- Replaces every value in order and collects what each replacement gives. -/
def visitEntries (f : B → Option (R × B)) : List (A × B) → Option (List R × List (A × B))
  | [] => some ([], [])
  | e :: rest =>
    (f e.2).bind fun (r, v) =>
      (visitEntries f rest).map fun (rs, es) => (r :: rs, (e.1, v) :: es)

theorem visitEntries_cons_eq_some {e : A × B} {rest es : List (A × B)} {rs : List R}
    (h : visitEntries f (e :: rest) = some (rs, es)) :
    ∃ r v rs' es', f e.2 = some (r, v) ∧ visitEntries f rest = some (rs', es') ∧
      rs = r :: rs' ∧ es = (e.1, v) :: es' := by
  obtain ⟨⟨r, v⟩, hf, h⟩ := bind_eq_some_iff.mp h
  obtain ⟨⟨rs', es'⟩, hrest, h⟩ := map_eq_some_iff.mp h
  cases h
  exact ⟨r, v, rs', es', hf, hrest, rfl, rfl⟩

theorem keys_visitEntries :
    ∀ {l es : List (A × B)} {rs : List R}, visitEntries f l = some (rs, es) →
      es.map Prod.fst = l.map Prod.fst := by
  intro l
  induction l with
  | nil =>
    intro es rs h
    cases h
    rfl
  | cons e rest ih =>
    intro es rs h
    obtain ⟨r, v, rs', es', -, hrest, rfl, rfl⟩ := visitEntries_cons_eq_some h
    rw [map_cons, map_cons, ih hrest]

theorem mem_visitEntries {k : A} {v : B} :
    ∀ {l es : List (A × B)} {rs : List R}, visitEntries f l = some (rs, es) → (k, v) ∈ es →
      ∃ w r, (k, w) ∈ l ∧ f w = some (r, v) := by
  intro l
  induction l with
  | nil =>
    intro es rs h hmem
    cases h
    cases hmem
  | cons e rest ih =>
    intro es rs h hmem
    obtain ⟨r, v', rs', es', hf, hrest, rfl, rfl⟩ := visitEntries_cons_eq_some h
    rcases mem_cons.mp hmem with heq | hmem
    · cases heq
      exact ⟨e.2, r, mem_cons_self, hf⟩
    · obtain ⟨w, r, hw, hf⟩ := ih hrest hmem
      exact ⟨w, r, mem_cons_of_mem _ hw, hf⟩

theorem visitEntries_ok {g : A × B → R} {l : List (A × B)} (h : ∀ e ∈ l, ∃ v, f e.2 = some (g e, v)) :
    ∃ es, visitEntries f l = some (l.map g, es) := by
  induction l with
  | nil => exact ⟨[], rfl⟩
  | cons e rest ih =>
    obtain ⟨v, hf⟩ := h e mem_cons_self
    obtain ⟨es, hrest⟩ := ih (forall_mem_cons.mp h).2
    exact ⟨(e.1, v) :: es, by rw [visitEntries, hf, bind_some, hrest]; rfl⟩

end Visit

section VisitMap

variable {R : Type*}

def visit (m : OrdMap K V) (f : V → Option (R × V)) : Option (List R × OrdMap K V) :=
  match h : visitEntries f m.entries with
  | none => none
  | some (rs, es) => some (rs, ⟨es, by
      have hkeys : (es.map Prod.fst).Pairwise (· < ·) := by
        rw [keys_visitEntries h, List.pairwise_map]
        exact m.sorted
      exact List.pairwise_map.mp hkeys⟩)

variable {f : V → Option (R × V)}

theorem visit_eq_some {m n : OrdMap K V} {rs : List R}
    (h : m.visit f = some (rs, n)) : visitEntries f m.entries = some (rs, n.entries) := by
  unfold visit at h
  split at h
  · cases h
  · rename_i hvisit
    cases h
    exact hvisit

theorem visit_ok {m : OrdMap K V} {g : K × V → R}
    (h : ∀ e ∈ m.entries, ∃ v, f e.2 = some (g e, v)) :
    ∃ n, m.visit f = some (m.entries.map g, n) := by
  obtain ⟨es, hvisit⟩ := visitEntries_ok h
  unfold visit
  split
  · rename_i hnone
    rw [hvisit] at hnone
    cases hnone
  · rename_i hsome
    rw [hvisit] at hsome
    cases hsome
    exact ⟨_, rfl⟩

end VisitMap

end OrdMap

/-- Words are ordered as unsigned numbers. -/
instance BitVec.instLinearOrder {w : Nat} : LinearOrder (BitVec w) where
  le := (· ≤ ·)
  lt := (· < ·)
  le_refl := BitVec.le_refl
  le_trans := fun _ _ _ => BitVec.le_trans
  le_antisymm := fun _ _ => BitVec.le_antisymm
  le_total := BitVec.le_total
  lt_iff_le_not_ge := fun a b => by
    rw [BitVec.lt_def, BitVec.le_def, BitVec.le_def]
    omega
  toDecidableLE _ _ := inferInstance
  toDecidableLT _ _ := inferInstance
