import WebRtc.Lib.OrdMap

/-!
# Numbered fragments

A message in parts whose numbers follow each other, where the first part and the last one are
marked. The parts received so far are a map that has at least one entry. Its ends and its size
tell whether it is the whole message.
-/

universe u

/-- A map from numbers to fragments that is not empty. -/
structure Fragments (V : Type u) where
  map : OrdMap Int V
  nonempty : map.entries ≠ []

namespace Fragments

open List

variable {V : Type u}

instance [DecidableEq V] : DecidableEq (Fragments V) := fun f g =>
  decidable_of_iff (f.map = g.map) ⟨fun h => by cases f; cases g; cases h; rfl, fun h => h ▸ rfl⟩

def first (f : Fragments V) : Int × V := f.map.entries.head f.nonempty

def last (f : Fragments V) : Int × V := f.map.entries.getLast f.nonempty

def size (f : Fragments V) : Nat := f.map.entries.length

def single (k : Int) (v : V) : Fragments V := ⟨⟨[(k, v)], List.pairwise_singleton _ _⟩, by simp⟩

def emplace (f : Fragments V) (k : Int) (v : V) : Fragments V where
  map := f.map.emplace k v
  nonempty := by
    obtain ⟨e, hmem⟩ := List.exists_mem_of_ne_nil _ f.nonempty
    exact List.ne_nil_of_mem (OrdMap.mem_emplaceEntries_of_mem hmem)

theorem first_le_last (f : Fragments V) : f.first.1 ≤ f.last.1 := by
  rw [first, last, head_eq_getElem, getLast_eq_getElem]
  rcases Nat.eq_zero_or_pos (f.map.entries.length - 1) with hone | hmore
  · simp only [hone, le_refl]
  · exact (pairwise_iff_getElem.mp f.map.sorted 0 _ _ _ hmore).le

def total (f : Fragments V) (size : V → Nat) : Nat := f.map.total fun _ v => size v

/-- The parts of a message, numbered from `a` on. -/
def numbered (a : Int) (l : List V) : List (Int × V) :=
  l.zipIdx.map fun p => (a + (p.2 : Nat), p.1)

/-- Only the first part has the one mark, and only the last part the other. -/
structure Delimited (isBeginning isEnd : V → Bool) (l : List V) : Prop where
  nonempty : l ≠ []
  marks : ∀ k v, l[k]? = some v →
    isBeginning v = decide (k = 0) ∧ isEnd v = decide (k + 1 = l.length)

variable {a : Int} {l : List V} {e : Int × V}

theorem forall_getElem?_iff {p : Nat → V → Prop} :
    (∀ k v, l[k]? = some v → p k v) ↔ ∀ q ∈ l.zipIdx, p q.2 q.1 := by
  simp only [Prod.forall, mem_zipIdx_iff_getElem?]
  exact forall_comm

instance (isBeginning isEnd : V → Bool) (l : List V) :
    Decidable (Delimited isBeginning isEnd l) :=
  decidable_of_iff (l.isEmpty = false ∧ ∀ q ∈ l.zipIdx,
      isBeginning q.1 = decide (q.2 = 0) ∧ isEnd q.1 = decide (q.2 + 1 = l.length)) <| by
    rw [← forall_getElem?_iff (p := fun k v =>
      isBeginning v = decide (k = 0) ∧ isEnd v = decide (k + 1 = l.length))]
    exact ⟨fun h => ⟨List.isEmpty_eq_false_iff.mp h.1, h.2⟩,
      fun h => ⟨List.isEmpty_eq_false_iff.mpr h.1, h.2⟩⟩

theorem mem_numbered : e ∈ numbered a l ↔ ∃ k : Nat, e.1 = a + k ∧ l[k]? = some e.2 := by
  simp only [numbered, mem_map, Prod.exists, mem_zipIdx_iff_getElem?]
  constructor
  · rintro ⟨v, k, hget, rfl⟩
    exact ⟨k, rfl, hget⟩
  · rintro ⟨k, hkey, hget⟩
    exact ⟨e.2, k, hget, Prod.ext hkey.symm rfl⟩

@[simp] theorem length_numbered (a : Int) (l : List V) : (numbered a l).length = l.length := by
  simp [numbered]

@[simp] theorem map_snd_numbered (a : Int) (l : List V) : (numbered a l).map Prod.snd = l := by
  simp [numbered, Function.comp_def]

theorem getElem_numbered {i : Nat} (h : i < (numbered a l).length) :
    (numbered a l)[i] = (a + (i : Nat), l.get ⟨i, by simpa using h⟩) := by
  simp [numbered]

theorem numbered_sorted (a : Int) (l : List V) :
    (numbered a l).Pairwise (fun x y => x.1 < y.1) := by
  rw [pairwise_iff_getElem]
  intro i j hi hj hij
  simp only [numbered, getElem_map, getElem_zipIdx]
  omega

theorem eq_of_sorted_of_mem_iff {l₁ l₂ : List (Int × V)}
    (h₁ : l₁.Pairwise (fun x y => x.1 < y.1)) (h₂ : l₂.Pairwise (fun x y => x.1 < y.1))
    (h : ∀ e, e ∈ l₁ ↔ e ∈ l₂) : l₁ = l₂ := by
  have hnodup : ∀ {l : List (Int × V)}, l.Pairwise (fun x y => x.1 < y.1) → l.Nodup :=
    fun hl => hl.imp fun hlt heq => (heq ▸ hlt).false
  refine List.Perm.eq_of_pairwise ?_ h₁ h₂
    ((perm_ext_iff_of_nodup (hnodup h₁) (hnodup h₂)).mpr h)
  intro x y _ _ hxy hyx
  exact absurd hxy hyx.asymm

section Whole

variable {isBeginning isEnd : V → Bool}

theorem Delimited.eq_singleton (h : Delimited isBeginning isEnd l) {v : V} (hmem : v ∈ l)
    (hbeginning : isBeginning v = true) (hend : isEnd v = true) : l = [v] := by
  obtain ⟨k, hget⟩ := getElem?_of_mem hmem
  obtain ⟨hfirst, hlast⟩ := h.marks k v hget
  rw [hbeginning, eq_comm, decide_eq_true_eq] at hfirst
  rw [hend, eq_comm, decide_eq_true_eq, hfirst] at hlast
  obtain ⟨w, rfl⟩ := length_eq_one_iff.mp hlast.symm
  rw [mem_singleton.mp hmem]

/-- Marked ends and as many fragments as numbers between them make a whole message. -/
theorem whole_iff (h : Delimited isBeginning isEnd l) (f : Fragments V)
    (sub : ∀ e ∈ f.map.entries, e ∈ numbered a l) :
    (isBeginning f.first.2 = true ∧ isEnd f.last.2 = true ∧
      f.last.1 - f.first.1 = (f.size : Int) - 1) ↔ f.map.entries = numbered a l := by
  constructor
  · rintro ⟨hbeginning, hend, hspan⟩
    obtain ⟨i, hi, hgeti⟩ := mem_numbered.mp (sub f.first (head_mem f.nonempty))
    obtain ⟨j, hj, hgetj⟩ := mem_numbered.mp (sub f.last (getLast_mem f.nonempty))
    rw [(h.marks i _ hgeti).1, decide_eq_true_eq] at hbeginning
    rw [(h.marks j _ hgetj).2, decide_eq_true_eq] at hend
    have hnodup : f.map.entries.Nodup := f.map.sorted.imp fun hlt heq => (heq ▸ hlt).false
    have hlength : (numbered a l).length ≤ f.map.entries.length := by
      rw [length_numbered]
      change l.length ≤ f.size
      omega
    have hperm := (subperm_of_subset hnodup sub).perm_of_length_le hlength
    exact eq_of_sorted_of_mem_iff f.map.sorted (numbered_sorted a l) fun e => hperm.mem_iff
  · intro heq
    have hpos : 0 < l.length := length_pos_iff.mpr h.nonempty
    have hsize : f.size = l.length := by rw [size, heq, length_numbered]
    have hfirst : f.first = (a, l[0]) := by
      simp only [first, heq, head_eq_getElem, getElem_numbered]
      simp
    have hlast : f.last = (a + (l.length - 1 : Nat), l[l.length - 1]) := by
      simp only [last, heq, getLast_eq_getElem, getElem_numbered, length_numbered]
      rfl
    rw [hfirst, hlast]
    refine ⟨?_, ?_, ?_⟩
    · rw [(h.marks 0 _ (getElem?_eq_getElem hpos)).1]
      rfl
    · rw [(h.marks (l.length - 1) _ (getElem?_eq_getElem (by omega))).2, decide_eq_true_eq]
      omega
    · omega

end Whole

section Groups

variable {m m' : OrdMap Int (Fragments V)} {group k : Int} {v : V}

variable (m)

/-- Adds a fragment to its group, unless the group has one with the same number. -/
def emplaceIn (group k : Int) (v : V) : Option (OrdMap Int (Fragments V)) :=
  match m.find? group with
  | none => some (m.set group (single k v))
  | some f => if (f.map.find? k).isSome then none else some (m.set group (f.emplace k v))

def Held (group : Int) (e : Int × V) : Prop :=
  ∃ f, m.find? group = some f ∧ e ∈ f.map.entries

def totalIn (size : V → Nat) : Nat :=
  m.total fun _ f => f.total size

variable {m}

theorem exists_emplaceIn (absent : ∀ w, ¬ Held m group (k, w)) (v : V) :
    ∃ m', emplaceIn m group k v = some m' := by
  rw [emplaceIn]
  cases hfind : m.find? group with
  | none => exact ⟨_, rfl⟩
  | some f =>
    dsimp only
    split_ifs with hsome
    · obtain ⟨w, hw⟩ := Option.isSome_iff_exists.mp hsome
      exact absurd ⟨f, hfind, (f.map.find?_eq_some_iff k w).mp hw⟩ (absent w)
    · exact ⟨_, rfl⟩

theorem held_emplaceIn (h : emplaceIn m group k v = some m') (g : Int) (e : Int × V) :
    Held m' g e ↔ Held m g e ∨ (g = group ∧ e = (k, v)) := by
  rw [emplaceIn] at h
  by_cases hg : g = group
  · subst hg
    cases hfind : m.find? g with
    | none =>
      rw [hfind] at h
      cases h
      simp [Held, OrdMap.find?_set, hfind, single]
    | some f =>
      simp only [hfind] at h
      split_ifs at h with hsome
      have hnone : f.map.find? k = none := by simpa using hsome
      cases h
      simp only [Held, OrdMap.find?_set, hfind, Option.some.injEq, exists_eq_left', if_true,
        true_and]
      rw [emplace, f.map.mem_emplace hnone, or_comm]
  · have hsame : m'.find? g = m.find? g := by
      cases hfind : m.find? group with
      | none =>
        rw [hfind] at h
        cases h
        rw [OrdMap.find?_set, if_neg hg]
      | some f =>
        simp only [hfind] at h
        split_ifs at h
        cases h
        rw [OrdMap.find?_set, if_neg hg]
    rw [Held, Held, hsame]
    simp [hg]

theorem held_erase (m : OrdMap Int (Fragments V)) (group g : Int) (e : Int × V) :
    Held (m.erase group) g e ↔ Held m g e ∧ g ≠ group := by
  rw [Held, Held, OrdMap.find?_erase]
  split_ifs with hg
  · simp [hg]
  · simp [hg]

theorem find?_eq_none (h : ∀ e, ¬ Held m group e) : m.find? group = none := by
  cases hfind : m.find? group with
  | none => rfl
  | some f =>
    obtain ⟨e, hmem⟩ := exists_mem_of_ne_nil _ f.nonempty
    exact absurd ⟨f, hfind, hmem⟩ (h e)

theorem eq_empty (h : ∀ group e, ¬ Held m group e) : m = OrdMap.empty := by
  refine OrdMap.ext (eq_nil_iff_forall_not_mem.mpr fun e hmem => ?_)
  have hnone := find?_eq_none (h e.1)
  rw [(m.find?_eq_some_iff e.1 e.2).mpr hmem] at hnone
  cases hnone

theorem totalIn_emplaceIn (h : emplaceIn m group k v = some m') (size : V → Nat) :
    totalIn m' size = totalIn m size + size v := by
  rw [emplaceIn] at h
  cases hfind : m.find? group with
  | none =>
    rw [hfind] at h
    cases h
    have hset := m.total_set group (single k v) fun _ f => f.total size
    rw [hfind] at hset
    exact hset.trans (congrArg _ (by simp [total, OrdMap.total, single]))
  | some f =>
    simp only [hfind] at h
    split_ifs at h with hsome
    have hnone : f.map.find? k = none := by simpa using hsome
    cases h
    have hset := m.total_set group (f.emplace k v) fun _ f => f.total size
    have hgroup : (f.emplace k v).total size = size v + f.total size :=
      f.map.total_emplace hnone v _
    rw [hfind, Option.elim_some] at hset
    rw [totalIn, totalIn]
    omega

theorem totalIn_erase {f : Fragments V} (h : m.find? group = some f) (size : V → Nat) :
    totalIn m size = f.total size + totalIn (m.erase group) size :=
  m.total_erase ((m.find?_eq_some_iff group f).mp h) _

end Groups

/-! ## What has arrived of a family of messages

The fragments of message `i` go to the group `key i`. A group is there as long as its message is
pending and some of its fragments have arrived. -/

section Holding

variable {key : Nat → Int} {messages : List (List (Int × V))} {pending pending' : Nat → Prop}
  {got got' : Nat → Int × V → Prop} {m : OrdMap Int (Fragments V)} {i : Nat}
  {parts : List (Int × V)}

/-- The groups have what has arrived of the pending messages, and nothing else. -/
def Holding (key : Nat → Int) (messages : List (List (Int × V))) (pending : Nat → Prop)
    (got : Nat → Int × V → Prop) (m : OrdMap Int (Fragments V)) : Prop :=
  ∀ g e, Held m g e ↔
    ∃ i parts, messages[i]? = some parts ∧ pending i ∧ g = key i ∧ e ∈ parts ∧ got i e

def Separate (key : Nat → Int) (messages : List (List (Int × V))) : Prop :=
  ∀ i j, i < messages.length → j < messages.length → key i = key j → i = j

section

variable (h : Holding key messages pending got m)
include h

theorem Holding.congr (same : ∀ i parts, messages[i]? = some parts → ∀ e ∈ parts,
      (pending i ∧ got i e ↔ pending' i ∧ got' i e)) :
    Holding key messages pending' got' m := by
  intro g e
  rw [h g e]
  constructor
  · rintro ⟨i, parts, hi, hpending, hg, hmem, hgot⟩
    obtain ⟨hpending', hgot'⟩ := (same i parts hi e hmem).mp ⟨hpending, hgot⟩
    exact ⟨i, parts, hi, hpending', hg, hmem, hgot'⟩
  · rintro ⟨i, parts, hi, hpending', hg, hmem, hgot'⟩
    obtain ⟨hpending, hgot⟩ := (same i parts hi e hmem).mpr ⟨hpending', hgot'⟩
    exact ⟨i, parts, hi, hpending, hg, hmem, hgot⟩

section

variable (separate : Separate key messages)
include separate

theorem Holding.held_key (hi : messages[i]? = some parts) (e : Int × V) :
    Held m (key i) e ↔ pending i ∧ e ∈ parts ∧ got i e := by
  rw [h (key i) e]
  constructor
  · rintro ⟨j, parts', hj, hpending, hkey, hmem, hgot⟩
    obtain rfl := separate i j (List.getElem?_eq_some_iff.mp hi).1
      (List.getElem?_eq_some_iff.mp hj).1 hkey
    rw [hi] at hj
    cases hj
    exact ⟨hpending, hmem, hgot⟩
  · rintro ⟨hpending, hmem, hgot⟩
    exact ⟨i, parts, hi, hpending, rfl, hmem, hgot⟩

theorem Holding.mem_iff (hi : messages[i]? = some parts) {f : Fragments V}
    (hf : m.find? (key i) = some f) (e : Int × V) :
    e ∈ f.map.entries ↔ pending i ∧ e ∈ parts ∧ got i e := by
  rw [← h.held_key separate hi e, Held, hf]
  simp

theorem Holding.find?_arrived (hi : messages[i]? = some parts) (hpending : pending i)
    (sorted : parts.Pairwise (fun x y => x.1 < y.1)) (nonempty : parts ≠ [])
    (arrived : ∀ e ∈ parts, got i e) : ∃ f, m.find? (key i) = some f ∧ f.map.entries = parts := by
  obtain ⟨e, hmem⟩ := exists_mem_of_ne_nil _ nonempty
  obtain ⟨f, hf, -⟩ := (h.held_key separate hi e).mpr ⟨hpending, hmem, arrived e hmem⟩
  refine ⟨f, hf, eq_of_sorted_of_mem_iff f.map.sorted sorted fun e => ?_⟩
  rw [h.mem_iff separate hi hf e]
  exact ⟨fun hheld => hheld.2.1, fun hmem => ⟨hpending, hmem, arrived e hmem⟩⟩

theorem Holding.erase (hi : i < messages.length) :
    Holding key messages (fun j => pending j ∧ j ≠ i) got (m.erase (key i)) := by
  intro g e
  rw [held_erase, h g e]
  constructor
  · rintro ⟨⟨j, parts, hj, hpending, rfl, hmem, hgot⟩, hne⟩
    exact ⟨j, parts, hj, ⟨hpending, fun heq => hne (heq ▸ rfl)⟩, rfl, hmem, hgot⟩
  · rintro ⟨j, parts, hj, ⟨hpending, hne⟩, rfl, hmem, hgot⟩
    refine ⟨⟨j, parts, hj, hpending, rfl, hmem, hgot⟩, fun hkey => hne ?_⟩
    exact separate j i (List.getElem?_eq_some_iff.mp hj).1 hi hkey

theorem Holding.emplaceIn (hi : messages[i]? = some parts) (hpending : pending i)
    (sorted : parts.Pairwise (fun x y => x.1 < y.1)) {e : Int × V} (hmem : e ∈ parts)
    (hnew : ¬ got i e) :
    ∃ m', emplaceIn m (key i) e.1 e.2 = some m' ∧
      Holding key messages pending (fun j e' => got j e' ∨ (j = i ∧ e' = e)) m' := by
  have habsent : ∀ w, ¬ Held m (key i) (e.1, w) := by
    intro w hheld
    obtain ⟨-, hw, hgot⟩ := (h.held_key separate hi _).mp hheld
    have hsame : e.2 = w := OrdMap.value_unique ⟨parts, sorted⟩ (k := e.1) hmem hw
    exact hnew (by rwa [← hsame] at hgot)
  obtain ⟨m', hm'⟩ := exists_emplaceIn habsent e.2
  refine ⟨m', hm', fun g e' => ?_⟩
  rw [held_emplaceIn hm' g e', h g e']
  constructor
  · rintro (⟨j, parts', hj, hpending', rfl, hmem', hgot⟩ | ⟨rfl, rfl⟩)
    · exact ⟨j, parts', hj, hpending', rfl, hmem', Or.inl hgot⟩
    · exact ⟨i, parts, hi, hpending, rfl, hmem, Or.inr ⟨rfl, rfl⟩⟩
  · rintro ⟨j, parts', hj, hpending', rfl, hmem', hgot | ⟨rfl, rfl⟩⟩
    · exact Or.inl ⟨j, parts', hj, hpending', rfl, hmem', hgot⟩
    · exact Or.inr ⟨rfl, rfl⟩

end

theorem Holding.eq_empty (done : ∀ i < messages.length, ¬ pending i) : m = OrdMap.empty := by
  refine Fragments.eq_empty fun g e hheld => ?_
  obtain ⟨i, parts, hi, hpending, -⟩ := (h g e).mp hheld
  exact done i (List.getElem?_eq_some_iff.mp hi).1 hpending

end

theorem holding_empty (none : ∀ i e, ¬ got i e) :
    Holding key messages pending got (OrdMap.empty : OrdMap Int (Fragments V)) := by
  intro g e
  constructor
  · rintro ⟨f, hf, -⟩
    cases hf
  · rintro ⟨i, parts, -, -, -, -, hgot⟩
    exact absurd hgot (none i e)

end Holding

theorem drop_take_cons {α : Type*} {l : List α} {a : α} {k n : Nat} (h : l[k]? = some a)
    (hlt : k < n) : (l.take n).drop k = a :: (l.take n).drop (k + 1) := by
  have hget : (l.take n)[k]? = some a := by rw [List.getElem?_take_of_lt hlt, h]
  obtain ⟨hk, heq⟩ := List.getElem?_eq_some_iff.mp hget
  rw [List.drop_eq_getElem_cons hk, heq]

theorem takeWhile_eq_take {α : Type*} {p : α → Bool} (l : List α) (k : Nat)
    (before : ∀ i a, l[i]? = some a → i < k → p a = true)
    (after : ∀ a, l[k]? = some a → p a = false) : l.takeWhile p = l.take k := by
  induction l generalizing k with
  | nil => simp
  | cons a l ih =>
    cases k with
    | zero => simp [after a rfl]
    | succ k =>
      have hrest := ih k (fun i b hb hi => before (i + 1) b hb (Nat.succ_lt_succ hi)) after
      simp [before 0 a rfl (Nat.succ_pos k), hrest]

end Fragments
