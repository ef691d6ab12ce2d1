import WebRtc.Video.FrameBuffer

/-!
# What the frame buffer hands out

The scan for the next temporal unit is compared with a statement about the stored frames. Continuity
is a closure: every frame whose references are decoded or continuous is marked, so that the scan never
stops before a decodable unit.
-/

namespace Video

open List

namespace FrameBuffer

variable {β : Type} {frames : List (EncodedFrame β)} {frame : EncodedFrame β} {q : FrameBuffer β}
  {proper : Int → Prop}

/-- Consecutive frames of one timestamp, as far back as they go, that end in a frame marked last. -/
structure IsUnit (frames unit : List (EncodedFrame β)) : Prop where
  nonempty : unit ≠ []
  stored : ∃ before after, frames = before ++ unit ++ after ∧
    ∀ previous ∈ before.getLast?, ∀ frame ∈ unit, previous.rtpTimestamp ≠ frame.rtpTimestamp
  timestamp : ∀ f ∈ unit, ∀ g ∈ unit, f.rtpTimestamp = g.rtpTimestamp
  last : ∀ frame ∈ unit.getLast?, frame.isLastSpatialLayer = true

/-- The frames of one timestamp at the end of a sequence. -/
structure IsRun (frames run : List (EncodedFrame β)) : Prop where
  nonempty : run ≠ []
  stored : ∃ before, frames = before ++ run ∧
    ∀ previous ∈ before.getLast?, ∀ frame ∈ run, previous.rtpTimestamp ≠ frame.rtpTimestamp
  timestamp : ∀ f ∈ run, ∀ g ∈ run, f.rtpTimestamp = g.rtpTimestamp

variable (frames)

/-- The frames that the scan has in its unit after a sequence of frames. -/
def run : List (EncodedFrame β) := frames.foldl extendUnit []

theorem run_append_singleton (frame : EncodedFrame β) :
    run (frames ++ [frame]) = extendUnit (run frames) frame := by
  rw [run, foldl_append]
  rfl

variable {frames}

theorem isRun_run (hne : frames ≠ []) : IsRun frames (run frames) := by
  induction frames using reverseRecOn with
  | nil => exact absurd rfl hne
  | append_singleton frames frame ih =>
    rw [run_append_singleton]
    by_cases hempty : frames = []
    · subst hempty
      refine ⟨nofun, ⟨[], rfl, nofun⟩, ?_⟩
      rintro f (_ | ⟨_, ⟨⟩⟩) g (_ | ⟨_, ⟨⟩⟩)
      rfl
    · obtain ⟨hrun, ⟨before, hframes, hmaximal⟩, hsame⟩ := ih hempty
      obtain ⟨first, rest, hfirst⟩ := exists_cons_of_ne_nil hrun
      rw [hfirst] at hframes hmaximal hsame ⊢
      rw [extendUnit]
      have hlast : ∀ previous ∈ frames.getLast?, previous.rtpTimestamp = first.rtpTimestamp := by
        intro previous hprevious
        rw [hframes, getLast?_append_of_ne_nil _ (cons_ne_nil _ _)] at hprevious
        exact hsame previous (mem_of_getLast? hprevious) first mem_cons_self
      split_ifs with hts
      · refine ⟨nofun, ⟨frames, rfl, ?_⟩, ?_⟩
        · rintro previous hprevious f (_ | ⟨_, ⟨⟩⟩)
          rw [hlast previous hprevious]
          exact Ne.symm hts
        · rintro f (_ | ⟨_, ⟨⟩⟩) g (_ | ⟨_, ⟨⟩⟩)
          rfl
      · have hframe := not_not.mp hts
        have hall : ∀ f ∈ first :: (rest ++ [frame]), f.rtpTimestamp = first.rtpTimestamp := by
          intro f hf
          rw [← cons_append, mem_append, mem_singleton] at hf
          rcases hf with hf | rfl
          · exact hsame f hf first mem_cons_self
          · exact hframe
        refine ⟨nofun, ⟨before, by rw [hframes]; simp, ?_⟩, ?_⟩
        · intro previous hprevious f hf
          rw [hall f hf]
          exact hmaximal previous hprevious first mem_cons_self
        · intro f hf g hg
          rw [hall f hf, hall g hg]

variable {run' unit : List (EncodedFrame β)} {q' : FrameBuffer β} {id : Int} {ids : Int → Prop}

theorem IsRun.length_le {run : List (EncodedFrame β)} (h : IsRun frames run)
    (h' : IsRun frames run') : run'.length ≤ run.length := by
  obtain ⟨hne, ⟨before, hframes, hmaximal⟩, -⟩ := h
  obtain ⟨-, ⟨before', hframes', -⟩, hsame'⟩ := h'
  rw [hframes] at hframes'
  rcases append_eq_append_iff.mp hframes' with ⟨extra, hbefore, hrun⟩ | ⟨extra, hbefore, hrun⟩
  · rw [hrun, length_append]
    omega
  · -- the longer run reaches a frame before the shorter one
    rcases eq_nil_or_concat extra with rfl | ⟨more, previous, rfl⟩
    · rw [hrun, nil_append]
    · obtain ⟨frame, hframe⟩ := exists_mem_of_ne_nil run hne
      have hprevious : previous ∈ before.getLast? := by
        rw [hbefore]
        simp
      refine absurd (hsame' previous ?_ frame ?_) (hmaximal previous hprevious frame hframe)
      · rw [hrun]
        simp
      · rw [hrun]
        exact mem_append.mpr (.inr hframe)

theorem IsRun.unique {run : List (EncodedFrame β)} (h : IsRun frames run)
    (h' : IsRun frames run') : run = run' := by
  have hlength := Nat.le_antisymm (h'.length_le h) (h.length_le h')
  obtain ⟨before, hframes, -⟩ := h.stored
  obtain ⟨before', hframes', -⟩ := h'.stored
  exact (append_inj' (hframes.symm.trans hframes') hlength).2

theorem IsRun.getLast?_eq {run : List (EncodedFrame β)} (h : IsRun (frames ++ [frame]) run) :
    run.getLast? = some frame := by
  obtain ⟨before, hframes, -⟩ := h.stored
  have := congrArg getLast? hframes
  rw [getLast?_append_of_ne_nil _ h.nonempty, getLast?_concat] at this
  exact this.symm

theorem IsUnit.mem (h : IsUnit frames unit) (hf : frame ∈ unit) : frame ∈ frames := by
  obtain ⟨before, after, rfl, -⟩ := h.stored
  simp [hf]

theorem not_isUnit_nil : ¬ IsUnit [] unit := by
  intro hunit
  obtain ⟨frame, hin⟩ := exists_mem_of_ne_nil unit hunit.nonempty
  exact absurd (hunit.mem hin) not_mem_nil

theorem isUnit_append_singleton : IsUnit (frames ++ [frame]) unit ↔
      IsUnit frames unit ∨ unit = run (frames ++ [frame]) ∧ frame.isLastSpatialLayer = true := by
  constructor
  · rintro ⟨hne, ⟨before, after, hframes, hmaximal⟩, hsame, hlast⟩
    rcases eq_nil_or_concat after with rfl | ⟨after, final, rfl⟩
    · rw [append_nil] at hframes
      have hrun : IsRun (frames ++ [frame]) unit := ⟨hne, ⟨before, hframes, hmaximal⟩, hsame⟩
      exact .inr ⟨hrun.unique (isRun_run (by simp)), hlast frame hrun.getLast?_eq⟩
    · rw [concat_eq_append, ← append_assoc] at hframes
      obtain ⟨hfront, -⟩ := append_inj' hframes rfl
      exact .inl ⟨hne, ⟨before, after, hfront, hmaximal⟩, hsame, hlast⟩
  · rintro (⟨hne, ⟨before, after, hframes, hmaximal⟩, hsame, hlast⟩ | ⟨rfl, hlast⟩)
    · exact ⟨hne, ⟨before, after ++ [frame], by rw [hframes]; simp, hmaximal⟩, hsame, hlast⟩
    · have hrun : IsRun (frames ++ [frame]) (run (frames ++ [frame])) := isRun_run (by simp)
      obtain ⟨before, hframes, hmaximal⟩ := hrun.stored
      refine ⟨hrun.nonempty, ⟨before, [], by rw [append_nil]; exact hframes, hmaximal⟩,
        hrun.timestamp, fun final hfinal => ?_⟩
      rw [hrun.getLast?_eq] at hfinal
      cases hfinal
      exact hlast

/-- The law of the next decodable unit, for a sequence of frames. -/
def NextOf (q : FrameBuffer β) (frames : List (EncodedFrame β)) (next : Option TemporalUnit) : Prop :=
  match next with
  | none => ∀ unit, IsUnit frames unit → q.decodable unit = false
  | some t => ∃ unit, IsUnit frames unit ∧ q.decodable unit = true ∧
      (∀ first ∈ unit.head?, first.id = t.firstFrame) ∧
      (∀ last ∈ unit.getLast?, last.id = t.lastFrame) ∧
      ∀ unit', IsUnit frames unit' → q.decodable unit' = true →
        ∀ last ∈ unit'.getLast?, t.lastFrame ≤ last.id

theorem scan_unit (q : FrameBuffer β) (frames : List (EncodedFrame β)) :
    (frames.foldl q.scanFrame ⟨[], none, 0⟩).unit = run frames := by
  induction frames using reverseRecOn with
  | nil => rfl
  | append_singleton frames frame ih =>
    rw [foldl_append, run_append_singleton, ← ih]
    change (q.scanFrame (frames.foldl q.scanFrame ⟨[], none, 0⟩) frame).unit = _
    unfold scanFrame
    dsimp only
    split <;> rfl

theorem NextOf.concat {t : TemporalUnit} (h : NextOf q frames (some t))
    (hbefore : ∀ f ∈ frames, f.id < frame.id) : NextOf q (frames ++ [frame]) (some t) := by
  obtain ⟨unit, hu, hdec, hfirst, hfin, hmin⟩ := h
  refine ⟨unit, isUnit_append_singleton.mpr (.inl hu), hdec, hfirst, hfin, ?_⟩
  intro unit' hunit' hdec' final hfinal
  rcases isUnit_append_singleton.mp hunit' with hold | ⟨rfl, -⟩
  · exact hmin unit' hold hdec' final hfinal
  · rw [(isRun_run (by simp)).getLast?_eq] at hfinal
    cases hfinal
    have hend := getLast?_eq_some_getLast hu.nonempty
    rw [← hfin _ hend]
    exact (hbefore _ (hu.mem (mem_of_getLast? hend))).le

theorem scan_next (q : FrameBuffer β) (frames : List (EncodedFrame β))
    (hsorted : frames.Pairwise fun f g => f.id < g.id) :
    NextOf q frames (frames.foldl q.scanFrame ⟨[], none, 0⟩).next := by
  induction frames using reverseRecOn with
  | nil => exact fun unit hunit => absurd hunit not_isUnit_nil
  | append_singleton frames frame ih =>
    obtain ⟨hfront, -, hless⟩ := pairwise_append.mp hsorted
    have hbefore : ∀ f ∈ frames, f.id < frame.id :=
      fun f hf => hless f hf frame (mem_singleton_self _)
    have hnext := ih hfront
    have hunit := scan_unit q frames
    rw [foldl_append]
    change NextOf q _ (q.scanFrame (frames.foldl q.scanFrame ⟨[], none, 0⟩) frame).next
    generalize frames.foldl q.scanFrame ⟨[], none, 0⟩ = scan at hnext hunit
    unfold scanFrame
    rw [hunit, ← run_append_singleton]
    dsimp only
    have hlast : (run (frames ++ [frame])).getLast? = some frame := (isRun_run (by simp)).getLast?_eq
    split
    · rename_i hfound
      obtain ⟨hmarked, hdecodable⟩ := Bool.and_eq_true_iff.mp hfound
      have hnew : IsUnit (frames ++ [frame]) (run (frames ++ [frame])) :=
        isUnit_append_singleton.mpr (.inr ⟨rfl, hmarked⟩)
      cases hscan : scan.next with
      | none =>
        rw [hscan] at hnext
        refine ⟨_, hnew, hdecodable, ?_, ?_, ?_⟩
        · intro first hfirst
          rw [headD_eq_head?_getD, Option.mem_def.mp hfirst]
          rfl
        · intro final hfinal
          rw [hlast] at hfinal
          cases hfinal
          rfl
        · intro unit' hunit' hdec' final hfinal
          rcases isUnit_append_singleton.mp hunit' with hold | ⟨rfl, -⟩
          · rw [hnext unit' hold] at hdec'
            cases hdec'
          · rw [hlast] at hfinal
            cases hfinal
            exact le_rfl
      | some t =>
        rw [hscan] at hnext
        exact hnext.concat hbefore
    · rename_i hmissed
      cases hscan : scan.next with
      | none =>
        rw [hscan] at hnext
        intro unit' hunit'
        rcases isUnit_append_singleton.mp hunit' with hold | ⟨rfl, hmarked⟩
        · exact hnext unit' hold
        · rw [hmarked, Bool.not_eq_true] at hmissed
          exact hmissed
      | some t =>
        rw [hscan] at hnext
        exact hnext.concat hbefore

/-- Units of a longer sequence, none of which is decodable beyond the shorter one. -/
theorem NextOf.append {more : List (EncodedFrame β)} {next : Option TemporalUnit}
    (h : NextOf q frames next)
    (hbeyond : ∀ unit, IsUnit (frames ++ more) unit → q.decodable unit = true →
      ∀ last ∈ unit.getLast?, last ∉ more) :
    NextOf q (frames ++ more) next := by
  have hmono : ∀ unit, IsUnit frames unit → IsUnit (frames ++ more) unit := by
    rintro unit ⟨hne, ⟨before, after, hframes, hmaximal⟩, hsame, hlast⟩
    exact ⟨hne, ⟨before, after ++ more, by rw [hframes]; simp, hmaximal⟩, hsame, hlast⟩
  have hback : ∀ unit, IsUnit (frames ++ more) unit → q.decodable unit = true →
      IsUnit frames unit := by
    intro unit hunit hdec
    have hin := hbeyond unit hunit hdec
    obtain ⟨hne, ⟨before, after, hframes, hmaximal⟩, hsame, hlast⟩ := hunit
    refine ⟨hne, ?_, hsame, hlast⟩
    rcases append_eq_append_iff.mp hframes with ⟨extra, hfront, hmore⟩ | ⟨extra, hfront, -⟩
    · -- the unit would end beyond the shorter sequence
      rcases eq_nil_or_concat extra with rfl | ⟨more', final, rfl⟩
      · exact ⟨before, [], by rw [append_nil, hfront, append_nil], hmaximal⟩
      · have hend := congrArg getLast? hfront
        rw [getLast?_append_of_ne_nil _ hne, concat_eq_append, ← append_assoc,
          getLast?_append_of_ne_nil _ (by simp)] at hend
        refine absurd ?_ (hin final (by rw [hend]; rfl))
        rw [hmore]
        simp
    · exact ⟨before, extra, hfront, hmaximal⟩
  cases next with
  | none =>
    intro unit hunit
    cases hdec : q.decodable unit with
    | false => rfl
    | true => exact hdec ▸ h unit (hback unit hunit hdec)
  | some t =>
    obtain ⟨unit, hu, hdec, hfirst, hfin, hmin⟩ := h
    exact ⟨unit, hmono unit hu, hdec, hfirst, hfin,
      fun unit' hunit' hdec' => hmin unit' (hback unit' hunit' hdec') hdec'⟩

def storedFrames (q : FrameBuffer β) : List (EncodedFrame β) :=
  q.frames.entries.map fun e => e.2.encodedFrame

/-- The frames are stored under their ids and their references point backwards, to proper ids. -/
def Keyed (proper : Int → Prop) (q : FrameBuffer β) : Prop :=
  ∀ id info, q.frames.find? id = some info → info.encodedFrame.id = id ∧ proper id ∧
    ∀ reference ∈ info.encodedFrame.references, reference < id ∧ proper reference

variable (q)

/-- Among some ids, a frame whose references are decoded or continuous is marked. -/
def ClosedOn (ids : Int → Prop) : Prop :=
  ∀ id info, ids id → q.frames.find? id = some info → q.isContinuous info.encodedFrame = true →
    info.continuous = true

/-- Every continuous frame that ends a temporal unit was counted. -/
def Marked : Prop :=
  ∀ id info, q.frames.find? id = some info → info.continuous = true →
    info.encodedFrame.isLastSpatialLayer = true →
    ∃ last, q.lastContinuousTemporalUnitFrameId = some last ∧ id ≤ last

theorem getReferences_eq (frame : EncodedFrame β) : frame.getReferences = frame.references :=
  take_of_length_le frame.room

theorem isContinuous_iff (frame : EncodedFrame β) :
    q.isContinuous frame = true ↔ ∀ reference ∈ frame.references,
      q.decodedFrameHistory.wasDecoded reference = true ∨ q.continuousInBuffer reference = true := by
  rw [isContinuous, getReferences_eq, all_eq_true]
  exact forall₂_congr fun _ _ => Bool.or_eq_true_iff

theorem decodable_iff (unit : List (EncodedFrame β)) :
    q.decodable unit = true ↔ ∀ frame ∈ unit, ∀ reference ∈ frame.references,
      q.decodedFrameHistory.wasDecoded reference = true ∨ ∃ other ∈ unit, other.id = reference := by
  rw [decodable, all_eq_true]
  refine forall₂_congr fun frame _ => ?_
  rw [getReferences_eq, all_eq_true]
  refine forall₂_congr fun reference _ => ?_
  rw [Bool.or_eq_true_iff, contains_iff_mem, mem_map]

variable {q}

theorem sorted_storedFrames (h : Keyed proper q) :
    q.storedFrames.Pairwise fun f g => f.id < g.id := by
  refine pairwise_map.mpr (q.frames.sorted.imp_of_mem fun {a b} ha hb hlt => ?_)
  obtain ⟨ka, ia⟩ := a
  obtain ⟨kb, ib⟩ := b
  rw [(h ka ia ((q.frames.find?_eq_some_iff ka ia).mpr ha)).1,
    (h kb ib ((q.frames.find?_eq_some_iff kb ib).mpr hb)).1]
  exact hlt

theorem find?_of_mem_storedFrames (h : Keyed proper q) (hmem : frame ∈ q.storedFrames) :
    ∃ info, q.frames.find? frame.id = some info ∧ info.encodedFrame = frame := by
  obtain ⟨⟨id, info⟩, he, rfl⟩ := mem_map.mp hmem
  have hfind := (q.frames.find?_eq_some_iff id info).mpr he
  refine ⟨info, ?_, rfl⟩
  rw [(h id info hfind).1]
  exact hfind

theorem lt_of_id_lt (hsorted : unit.Pairwise fun f g => f.id < g.id)
    {i j : Nat} {f g : EncodedFrame β} (hi : unit[i]? = some f) (hj : unit[j]? = some g)
    (hlt : g.id < f.id) : j < i := by
  by_contra hge
  rcases Nat.lt_or_eq_of_le (Nat.not_lt.mp hge) with hij | rfl
  · obtain ⟨hi', rfl⟩ := List.getElem?_eq_some_iff.mp hi
    obtain ⟨hj', rfl⟩ := List.getElem?_eq_some_iff.mp hj
    have := List.pairwise_iff_getElem.mp hsorted i j hi' hj' hij
    omega
  · rw [hi] at hj
    cases hj
    omega

theorem continuous_of_decodable (hk : Keyed proper q) (hclosed : ClosedOn q fun _ => True)
    (hsub : ∀ f ∈ unit, f ∈ q.storedFrames)
    (hsorted : unit.Pairwise fun f g => f.id < g.id) (hdec : q.decodable unit = true) (i : Nat)
    (hframe : unit[i]? = some frame) : q.continuousInBuffer frame.id = true := by
  induction i using Nat.strongRecOn generalizing frame with
  | ind i ih =>
    have hmem := mem_of_getElem? hframe
    obtain ⟨info, hfind, rfl⟩ := find?_of_mem_storedFrames hk (hsub frame hmem)
    obtain ⟨-, -, hrefs⟩ := hk _ info hfind
    have hcontinuous : q.isContinuous info.encodedFrame = true := by
      rw [isContinuous_iff]
      intro reference href
      rcases (decodable_iff q unit).mp hdec _ hmem reference href with hdecoded | ⟨other, hother, rfl⟩
      · exact .inl hdecoded
      · obtain ⟨j, hj⟩ := mem_iff_getElem?.mp hother
        exact .inr (ih j (lt_of_id_lt hsorted hframe hj (hrefs other.id href).1) hj)
    rw [continuousInBuffer, hfind]
    exact hclosed _ info trivial hfind hcontinuous

theorem nextOf_find (hk : Keyed proper q) (hclosed : ClosedOn q fun _ => True) (hmarked : Marked q) :
    NextOf q q.storedFrames q.findNextAndLastDecodableTemporalUnit.nextDecodableTemporalUnit := by
  -- the last frame of a decodable unit is continuous, and was counted
  have hcounted : ∀ unit, IsUnit q.storedFrames unit → q.decodable unit = true →
      ∀ final ∈ unit.getLast?, ∃ last, q.lastContinuousTemporalUnitFrameId = some last ∧
        final.id ≤ last := by
    intro unit hunit hdec final hfinal
    obtain ⟨before, after, hframes, -⟩ := hunit.stored
    have hsorted : unit.Pairwise fun f g => f.id < g.id := by
      have := sorted_storedFrames hk
      rw [hframes] at this
      exact (pairwise_append.mp (pairwise_append.mp this).1).2.1
    have hmem := mem_of_getLast? hfinal
    obtain ⟨i, hi⟩ := mem_iff_getElem?.mp hmem
    have hcontinuous := continuous_of_decodable hk hclosed (fun _ => hunit.mem) hsorted hdec i hi
    obtain ⟨info, hfind, rfl⟩ := find?_of_mem_storedFrames hk (hunit.mem hmem)
    rw [continuousInBuffer, hfind] at hcontinuous
    exact hmarked _ info hfind hcontinuous (hunit.last _ hfinal)
  unfold findNextAndLastDecodableTemporalUnit
  split
  · rename_i hnone
    intro unit hunit
    cases hdec : q.decodable unit with
    | false => rfl
    | true =>
      obtain ⟨last, hlast, -⟩ :=
        hcounted unit hunit hdec _ (getLast?_eq_some_getLast hunit.nonempty)
      rw [hnone] at hlast
      cases hlast
  · rename_i last hlast
    have hsplit : q.storedFrames = q.framesUpTo last ++
        (q.frames.entries.dropWhile fun e => e.1 ≤ last).map fun e => e.2.encodedFrame := by
      rw [framesUpTo, ← map_append, takeWhile_append_dropWhile]
      rfl
    have hsorted := sorted_storedFrames hk
    rw [hsplit] at hsorted hcounted ⊢
    refine (scan_next q _ (pairwise_append.mp hsorted).1).append ?_
    intro unit hunit hdec final hfinal hbeyond
    obtain ⟨last', hlast', hle⟩ := hcounted unit hunit hdec final hfinal
    rw [hlast] at hlast'
    cases hlast'
    obtain ⟨⟨id, info⟩, he, rfl⟩ := mem_map.mp hbeyond
    have hfind := (q.frames.find?_eq_some_iff id info).mpr ((dropWhile_sublist _).subset he)
    rw [(hk id info hfind).1] at hle
    -- the frames left out have later ids
    have hlater : last < id := by
      by_contra hnot
      have hall := q.frames.sorted.sublist (dropWhile_sublist fun e => decide (e.1 ≤ last))
      cases hdrop : q.frames.entries.dropWhile fun e => decide (e.1 ≤ last) with
      | nil =>
        rw [hdrop] at he
        cases he
      | cons head tail =>
        have hhead : ¬ head.1 ≤ last := by
          have hne : q.frames.entries.dropWhile (fun e => decide (e.1 ≤ last)) ≠ [] := by
            rw [hdrop]
            exact nofun
          have := head_dropWhile_not _ hne
          simpa [hdrop] using this
        rw [hdrop] at he hall
        rcases mem_cons.mp he with rfl | hin
        · exact hhead (by omega)
        · have := (pairwise_cons.mp hall).1 _ hin
          omega
    omega

structure SameFrames (q q' : FrameBuffer β) : Prop where
  history : q'.decodedFrameHistory = q.decodedFrameHistory
  log : q'.log = q.log
  keys : q'.frames.entries.map Prod.fst = q.frames.entries.map Prod.fst
  frames : ∀ id, (q'.frames.find? id).map FrameInfo.encodedFrame =
    (q.frames.find? id).map FrameInfo.encodedFrame
  stored : q'.storedFrames = q.storedFrames

theorem SameFrames.refl (q : FrameBuffer β) : SameFrames q q := ⟨rfl, rfl, rfl, fun _ => rfl, rfl⟩

theorem SameFrames.trans {q'' : FrameBuffer β} (h : SameFrames q q') (h' : SameFrames q' q'') :
    SameFrames q q'' :=
  ⟨h'.history.trans h.history, h'.log.trans h.log, h'.keys.trans h.keys,
    fun id => (h'.frames id).trans (h.frames id), h'.stored.trans h.stored⟩

theorem SameFrames.keyed (h : SameFrames q q') (hk : Keyed proper q) : Keyed proper q' := by
  intro id info hfind
  have hsame := h.frames id
  rw [hfind] at hsame
  obtain ⟨info', hfind', hframe⟩ := Option.map_eq_some_iff.mp hsame.symm
  rw [← hframe]
  exact hk id info' hfind'

theorem propagateAt_cases (q : FrameBuffer β) (id : Int) :
    (q.propagateAt id = q ∧ ∀ info, q.frames.find? id = some info →
      q.isContinuous info.encodedFrame = true → info.continuous = true) ∨
    ∃ info, q.frames.find? id = some info ∧ q.isContinuous info.encodedFrame = true ∧
      (q.propagateAt id).frames = q.frames.modify id (fun info => { info with continuous := true }) ∧
      (q.propagateAt id).decodedFrameHistory = q.decodedFrameHistory ∧
      (q.propagateAt id).log = q.log ∧ (q.propagateAt id).lastContinuousTemporalUnitFrameId =
        if info.encodedFrame.isLastSpatialLayer &&
          optionalLess q.lastContinuousTemporalUnitFrameId id then some id
        else q.lastContinuousTemporalUnitFrameId := by
  unfold propagateAt
  split
  · rename_i hnone
    exact .inl ⟨rfl, fun info hfind => by rw [hnone] at hfind; cases hfind⟩
  · rename_i info hfind
    split
    · rename_i hcontinuous
      refine .inl ⟨rfl, fun info' hfind' _ => ?_⟩
      rw [hfind] at hfind'
      cases hfind'
      exact hcontinuous
    · split
      · rename_i hcontinuous
        exact .inr ⟨info, hfind, hcontinuous, rfl, rfl, rfl, rfl⟩
      · rename_i hnot
        refine .inl ⟨rfl, fun info' hfind' hcontinuous => ?_⟩
        rw [hfind] at hfind'
        cases hfind'
        exact absurd hcontinuous hnot

theorem sameFrames_propagateAt (q : FrameBuffer β) (id : Int) : SameFrames q (q.propagateAt id) := by
  rcases propagateAt_cases q id with ⟨heq, -⟩ | ⟨info, -, -, hframes, hhistory, hlog, -⟩
  · rw [heq]
    exact SameFrames.refl q
  · refine ⟨hhistory, hlog, ?_, fun id' => ?_, ?_⟩
    · rw [hframes, OrdMap.modify, map_map]
      refine map_congr_left fun e _ => ?_
      change (if e.1 = id then _ else e).1 = e.1
      split <;> rfl
    · rw [hframes, OrdMap.find?_modify]
      split
      · cases q.frames.find? id' <;> rfl
      · rfl
    · rw [storedFrames, hframes, OrdMap.modify, map_map]
      refine map_congr_left fun e _ => ?_
      change (if e.1 = id then _ else e).2.encodedFrame = e.2.encodedFrame
      split <;> rfl

theorem isContinuous_propagateAt (hrefs : ∀ reference ∈ frame.references, reference < id) :
    (q.propagateAt id).isContinuous frame = true ↔ q.isContinuous frame = true := by
  rw [isContinuous_iff, isContinuous_iff, (sameFrames_propagateAt q id).history]
  refine forall₂_congr fun reference href => ?_
  rcases propagateAt_cases q id with ⟨heq, -⟩ | ⟨info, -, -, hframes, -⟩
  · rw [heq]
  · rw [continuousInBuffer, hframes, OrdMap.find?_modify, if_neg (hrefs reference href).ne]
    rfl

theorem ClosedOn.propagateAt (hk : Keyed proper q) (hclosed : ClosedOn q ids)
    (hids : ∀ id', ids id' → id' < id) :
    ClosedOn (q.propagateAt id) fun id' => ids id' ∨ id' = id := by
  intro id' info hin hfind hcontinuous
  obtain ⟨-, -, hrefs⟩ := (sameFrames_propagateAt q id).keyed hk id' info hfind
  rcases hin with hin | rfl
  · -- an earlier frame is not touched
    have hlt := hids id' hin
    have hold := (isContinuous_propagateAt fun r hr => (hrefs r hr).1.trans hlt).mp hcontinuous
    rcases propagateAt_cases q id with ⟨heq, -⟩ | ⟨info', -, -, hframes, -⟩
    · rw [heq] at hfind
      exact hclosed id' info hin hfind hold
    · rw [hframes, OrdMap.find?_modify, if_neg hlt.ne] at hfind
      exact hclosed id' info hin hfind hold
  · have hold := (isContinuous_propagateAt fun r hr => (hrefs r hr).1).mp hcontinuous
    rcases propagateAt_cases q id' with ⟨heq, hdone⟩ | ⟨info', hfind', -, hframes, -⟩
    · rw [heq] at hfind
      exact hdone info hfind hold
    · rw [hframes, OrdMap.find?_modify, if_pos rfl, hfind'] at hfind
      cases hfind
      rfl

theorem Marked.propagateAt (h : Marked q) (id : Int) : Marked (q.propagateAt id) := by
  rcases propagateAt_cases q id with ⟨heq, -⟩ | ⟨info, hfound, -, hframes, -, -, hlast⟩
  · rw [heq]
    exact h
  · intro id' info' hfind hcontinuous hunit
    rw [hframes, OrdMap.find?_modify] at hfind
    rw [hlast]
    by_cases heq : id' = id
    · rw [if_pos heq, heq, hfound] at hfind
      cases hfind
      rw [show info.encodedFrame.isLastSpatialLayer = true from hunit, heq]
      cases hcase : q.lastContinuousTemporalUnitFrameId with
      | none => exact ⟨id, rfl, le_rfl⟩
      | some last =>
        by_cases hless : last < id
        · exact ⟨id, if_pos (decide_eq_true hless), le_rfl⟩
        · exact ⟨last, if_neg (by simpa [optionalLess] using hless), by omega⟩
    · rw [if_neg heq] at hfind
      obtain ⟨last, hold, hle⟩ := h id' info' hfind hcontinuous hunit
      split
      · rename_i hgrow
        obtain ⟨-, hless⟩ := Bool.and_eq_true_iff.mp hgrow
        rw [hold] at hless
        have : last < id := of_decide_eq_true hless
        exact ⟨id, rfl, by omega⟩
      · exact ⟨last, hold, hle⟩

theorem propagate_spec (keys : List Int) (hsorted : keys.Pairwise (· < ·)) (hk : Keyed proper q)
    (hclosed : ClosedOn q ids) (hids : ∀ id', ids id' → ∀ key ∈ keys, id' < key)
    (hmarked : Marked q) :
    SameFrames q (keys.foldl FrameBuffer.propagateAt q) ∧
      ClosedOn (keys.foldl FrameBuffer.propagateAt q) (fun id' => ids id' ∨ id' ∈ keys) ∧
      Marked (keys.foldl FrameBuffer.propagateAt q) := by
  induction keys generalizing q ids with
  | nil =>
    refine ⟨SameFrames.refl q, ?_, hmarked⟩
    intro id info hin
    exact hclosed id info (hin.resolve_right nofun)
  | cons key keys ih =>
    obtain ⟨hfirst, hrest⟩ := pairwise_cons.mp hsorted
    have hstep := hclosed.propagateAt hk fun id' hin => hids id' hin key mem_cons_self
    have hbelow : ∀ id', (ids id' ∨ id' = key) → ∀ key' ∈ keys, id' < key' := by
      rintro id' (hin | rfl) key' hkey'
      · exact hids id' hin key' (mem_cons_of_mem _ hkey')
      · exact hfirst key' hkey'
    obtain ⟨hsame, hclosed', hmarked'⟩ := ih hrest ((sameFrames_propagateAt q key).keyed hk) hstep
      hbelow (hmarked.propagateAt key)
    refine ⟨(sameFrames_propagateAt q key).trans hsame, ?_, hmarked'⟩
    intro id info hin
    refine hclosed' id info ?_
    rw [mem_cons, ← or_assoc] at hin
    exact hin

end FrameBuffer

end Video
