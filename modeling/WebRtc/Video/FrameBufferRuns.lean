import WebRtc.Video.FrameBufferContract

/-!
# The frame buffer over sequences of calls

The log of the frames handed out is read back: what was extracted since the last clear, and whether
every unit could be decoded when it was.
-/

namespace Video

open List

namespace FrameBuffer

variable {β : Type} (log : List (FrameEvent β)) {proper : Int → Prop} {q q' : FrameBuffer β}
  {unit : List (EncodedFrame β)} {frame : EncodedFrame β}

def extractedSince (log : List (FrameEvent β)) : List (EncodedFrame β) :=
  log.foldl (fun extracted event =>
    match event with
    | .inserted _ => extracted
    | .extracted unit => extracted ++ unit
    | .cleared => []) []

def insertedFrames (log : List (FrameEvent β)) : List (EncodedFrame β) :=
  log.flatMap fun
    | .inserted frame => [frame]
    | _ => []

def extractedFrames (log : List (FrameEvent β)) : List (EncodedFrame β) :=
  log.flatMap fun
    | .extracted unit => unit
    | _ => []

/-- A unit that can be decoded after the frames extracted before it. -/
structure UnitOk (earlier unit : List (EncodedFrame β)) : Prop where
  references : ∀ (i : Nat) (frame : EncodedFrame β), unit[i]? = some frame →
    ∀ reference ∈ frame.references, (∃ other ∈ earlier, other.id = reference) ∨
      ∃ (j : Nat) (other : EncodedFrame β), j < i ∧ unit[j]? = some other ∧ other.id = reference
  timestamp : ∀ f ∈ unit, ∀ g ∈ unit, f.rtpTimestamp = g.rtpTimestamp
  increasing : unit.Pairwise fun f g => f.id < g.id
  later : ∀ f ∈ earlier, ∀ g ∈ unit, f.id < g.id

def LogOk (log : List (FrameEvent β)) : Prop :=
  ∀ before unit after, log = before ++ .extracted unit :: after →
    UnitOk (extractedSince before) unit

theorem LogOk.append {log : List (FrameEvent β)} (h : LogOk log) {event : FrameEvent β}
    (hevent : ∀ unit, event = .extracted unit → UnitOk (extractedSince log) unit) :
    LogOk (log ++ [event]) := by
  intro before unit after hlog
  rcases eq_nil_or_concat after with rfl | ⟨after, final, rfl⟩
  · obtain ⟨hbefore, hlast⟩ := append_inj' hlog rfl
    rw [← hbefore]
    exact hevent unit (cons.inj hlast).1
  · rw [concat_eq_append, ← cons_append, ← append_assoc] at hlog
    exact h before unit after (append_inj' hlog rfl).1

theorem extractedSince_append (event : FrameEvent β) :
    extractedSince (log ++ [event]) = match event with
      | .inserted _ => extractedSince log
      | .extracted unit => extractedSince log ++ unit
      | .cleared => [] := by
  rw [extractedSince, foldl_append]
  rfl

theorem LogOk.increasing {log : List (FrameEvent β)} (h : LogOk log) :
    (extractedSince log).Pairwise fun f g => f.id < g.id := by
  induction log using reverseRecOn with
  | nil => exact List.Pairwise.nil
  | append_singleton log event ih =>
    have hfront : LogOk log := fun before unit after hlog =>
      h before unit (after ++ [event]) (by rw [hlog]; simp)
    rw [extractedSince_append]
    cases event with
    | inserted frame => exact ih hfront
    | extracted unit =>
      have hunit := h log unit [] rfl
      exact pairwise_append.mpr ⟨ih hfront, hunit.increasing, hunit.later⟩
    | cleared => exact List.Pairwise.nil

/-- The frames extracted and the frames stored were inserted. -/
def Stocked (log : List (FrameEvent β)) (stored : List (EncodedFrame β)) : Prop :=
  (extractedFrames log : Multiset (EncodedFrame β)) + stored ≤
    (insertedFrames log : Multiset (EncodedFrame β))

theorem Stocked.append {log : List (FrameEvent β)} {stored stored' : List (EncodedFrame β)}
    (h : Stocked log stored) (event : FrameEvent β)
    (le : (extractedFrames [event] ++ stored').Subperm (insertedFrames [event] ++ stored)) :
    Stocked (log ++ [event]) stored' := by
  rw [← Multiset.coe_le, ← Multiset.coe_add, ← Multiset.coe_add] at le
  unfold Stocked extractedFrames insertedFrames at h ⊢
  rw [flatMap_append, flatMap_append, ← Multiset.coe_add, ← Multiset.coe_add, add_assoc]
  refine (Multiset.add_le_add_left le).trans ?_
  rw [add_left_comm, add_comm]
  exact Multiset.add_le_add_right h

/-- The invariant of the buffer, apart from the unit it found. -/
structure Core (proper : Int → Prop) (q : FrameBuffer β) : Prop where
  remembers : q.decodedFrameHistory.Remembers proper ((extractedSince q.log).map EncodedFrame.id)
  above : ∀ frame ∈ extractedSince q.log, ∀ id info, q.frames.find? id = some info → frame.id < id
  keyed : Keyed proper q
  closed : ClosedOn q fun _ => True
  marked : Marked q
  logOk : LogOk q.log
  stock : (extractedFrames q.log : Multiset (EncodedFrame β)) + q.storedFrames ≤
    (insertedFrames q.log : Multiset (EncodedFrame β))

structure Lawful (proper : Int → Prop) (q : FrameBuffer β) : Prop extends Core proper q where
  next : NextOf q q.storedFrames q.nextDecodableTemporalUnit

theorem Core.find (h : Core proper q) : Lawful proper q.findNextAndLastDecodableTemporalUnit := by
  have hnext := nextOf_find h.keyed h.closed h.marked
  obtain ⟨next, info, heq⟩ : ∃ next info, q.findNextAndLastDecodableTemporalUnit =
      { q with nextDecodableTemporalUnit := next, decodableTemporalUnitsInfo := info } := by
    unfold findNextAndLastDecodableTemporalUnit
    split
    · exact ⟨_, _, rfl⟩
    · exact ⟨_, _, rfl⟩
  rw [heq] at hnext ⊢
  exact ⟨{ h with }, hnext⟩

theorem Lawful.clear (h : Lawful proper q) : Lawful proper q.clear where
  remembers := by
    change q.decodedFrameHistory.clear.Remembers proper
      ((extractedSince (q.log ++ [.cleared])).map EncodedFrame.id)
    rw [extractedSince_append]
    exact h.remembers.clear
  above := nofun
  keyed := nofun
  closed := nofun
  marked := nofun
  logOk := h.logOk.append nofun
  stock := Stocked.append h.stock .cleared nil_subperm
  next _ hunit := absurd hunit not_isUnit_nil

theorem lawful_initial (legacy : Bool) (maxSize : Nat) {maxDecodeHistory : Nat}
    (h : (DecodedFramesHistory.initial maxDecodeHistory).Remembers proper []) :
    Lawful proper (initial legacy maxSize maxDecodeHistory : FrameBuffer β) where
  remembers := h
  above := nofun
  keyed := nofun
  closed := nofun
  marked := nofun
  logOk before unit after hlog := by simp [initial] at hlog
  stock := le_rfl
  next _ hunit := absurd hunit not_isUnit_nil

theorem lt_of_validReferencesFrom {id : Int} {references : List Int}
    (h : EncodedFrame.validReferencesFrom id references = true) : ∀ r ∈ references, r < id := by
  induction references with
  | nil => exact nofun
  | cons reference rest ih =>
    rw [EncodedFrame.validReferencesFrom] at h
    split_ifs at h with hge
    rintro r (_ | ⟨_, hr⟩)
    · omega
    · exact ih h r hr

def Newer (q : FrameBuffer β) (frame : EncodedFrame β) : Prop :=
  ∀ other ∈ extractedSince q.log, other.id < frame.id

theorem newer_clear (q : FrameBuffer β) (frame : EncodedFrame β) : Newer q.clear frame := by
  intro other hin
  change other ∈ extractedSince (q.log ++ [.cleared]) at hin
  rw [extractedSince_append] at hin
  cases hin

theorem acceptAge_spec (h : Lawful proper q) (hq' : q.acceptAge frame = some q') :
    Lawful proper q' ∧ Newer q' frame := by
  unfold acceptAge at hq'
  split at hq'
  · rename_i hnone
    cases hq'
    refine ⟨h, fun other hin => ?_⟩
    rw [h.remembers.lastDecodedFrame] at hnone
    have hnil := (h.remembers.nothing hnone).1
    rw [map_eq_nil_iff.mp hnil] at hin
    cases hin
  · rename_i last hlast
    split_ifs at hq' with hold hjump
    · cases hq'
      exact ⟨h.clear, newer_clear q frame⟩
    · cases hq'
      refine ⟨h, fun other hin => ?_⟩
      rw [h.remembers.lastDecodedFrame] at hlast
      obtain ⟨-, -, hle, -⟩ := h.remembers.last last hlast
      have := hle other.id (mem_map_of_mem hin)
      omega

theorem makeRoom_spec (h : Lawful proper q) (hnewer : Newer q frame)
    (hq' : q.makeRoom frame = some q') : Lawful proper q' ∧ Newer q' frame := by
  unfold makeRoom at hq'
  split_ifs at hq' with hfull hkey
  · cases hq'
    exact ⟨h.clear, newer_clear q frame⟩
  · cases hq'
    exact ⟨h, hnewer⟩

theorem Core.emplaced (h : Core proper q) (hnewer : Newer q frame)
    (hfree : q.frames.find? frame.id = none) (hproper : proper frame.id)
    (hrefs : ∀ r ∈ frame.references, r < frame.id ∧ proper r) (hq' : q' = { q with
      frames := q.frames.emplace frame.id ⟨frame, false⟩
      log := q.log ++ [.inserted frame] }) :
    q'.decodedFrameHistory.Remembers proper ((extractedSince q'.log).map EncodedFrame.id) ∧
      (∀ f ∈ extractedSince q'.log, ∀ id info, q'.frames.find? id = some info → f.id < id) ∧
      Keyed proper q' ∧ ClosedOn q' (· < frame.id) ∧ Marked q' ∧ LogOk q'.log ∧
      Stocked q'.log q'.storedFrames := by
  have hfind : ∀ id, q'.frames.find? id =
      if id = frame.id then some ⟨frame, false⟩ else q.frames.find? id := by
    intro id
    rw [hq']
    exact q.frames.find?_emplace hfree _ id
  have hsince : extractedSince q'.log = extractedSince q.log := by
    rw [hq', extractedSince_append]
  have hkeyed : Keyed proper q' := by
    intro id info hinfo
    rw [hfind] at hinfo
    split_ifs at hinfo with heq
    · cases hinfo
      exact ⟨heq.symm, heq ▸ hproper, fun r hr => heq ▸ hrefs r hr⟩
    · exact h.keyed id info hinfo
  refine ⟨?_, ?_, hkeyed, ?_, ?_, ?_, ?_⟩
  · rw [hsince, hq']
    exact h.remembers
  · intro f hf id info hinfo
    rw [hsince] at hf
    rw [hfind] at hinfo
    split_ifs at hinfo with heq
    · rw [heq]
      exact hnewer f hf
    · exact h.above f hf id info hinfo
  · intro id info hlt hinfo hcontinuous
    obtain ⟨-, -, hback⟩ := hkeyed id info hinfo
    rw [hfind, if_neg hlt.ne] at hinfo
    refine h.closed id info trivial hinfo ?_
    rw [isContinuous_iff] at hcontinuous ⊢
    intro r hr
    rcases hcontinuous r hr with hdecoded | hbuffer
    · rw [hq'] at hdecoded
      exact .inl hdecoded
    · right
      rw [continuousInBuffer, hfind, if_neg ((hback r hr).1.trans hlt).ne] at hbuffer
      exact hbuffer
  · intro id info hinfo hcontinuous hunit
    rw [hfind] at hinfo
    rw [hq']
    split_ifs at hinfo with heq
    · cases hinfo
      cases hcontinuous
    · exact h.marked id info hinfo hcontinuous hunit
  · rw [hq']
    refine h.logOk.append fun unit hunit => ?_
    cases hunit
  · rw [hq']
    exact Stocked.append h.stock (.inserted frame) ((q.frames.perm_emplace hfree _).map _).subperm

theorem emplaceFrame_spec (h : Lawful proper q) (hnewer : Newer q frame) (hproper : proper frame.id)
    (hrefs : ∀ r ∈ frame.references, r < frame.id ∧ proper r) :
    Lawful proper (q.emplaceFrame frame).1 := by
  unfold emplaceFrame
  split
  · exact h
  · rename_i hfree
    obtain ⟨hremembers, habove, hkeyed, hclosed, hmarked, hlogOk, hstock⟩ :=
      h.toCore.emplaced hnewer hfree hproper hrefs rfl
    apply Core.find
    generalize hq' : ({ q with
      frames := q.frames.emplace frame.id ⟨frame, false⟩
      log := q.log ++ [.inserted frame] } : FrameBuffer β) = q'
      at hremembers habove hkeyed hclosed hmarked hlogOk hstock
    have hsorted : ((q'.frames.entries.map Prod.fst).filter fun key => frame.id ≤ key).Pairwise
        (· < ·) :=
      (pairwise_map.mpr q'.frames.sorted).sublist filter_sublist
    obtain ⟨hsame, hclosed', hmarked'⟩ := propagate_spec _ hsorted hkeyed hclosed
      (fun id' hlt key hkey => lt_of_lt_of_le hlt (of_decide_eq_true (mem_filter.mp hkey).2))
      hmarked
    rw [propagateContinuity]
    generalize ((q'.frames.entries.map Prod.fst).filter fun key => frame.id ≤ key).foldl
      FrameBuffer.propagateAt q' = q'' at hsame hclosed' hmarked'
    refine ⟨?_, ?_, hsame.keyed hkeyed, ?_, hmarked', ?_, ?_⟩
    · rw [hsame.history, hsame.log]
      exact hremembers
    · rw [hsame.log]
      intro f hf id info hinfo
      have hsome := hsame.frames id
      rw [hinfo] at hsome
      obtain ⟨info', hinfo', -⟩ := Option.map_eq_some_iff.mp hsome.symm
      exact habove f hf id info' hinfo'
    · intro id info _ hinfo
      refine hclosed' id info ?_ hinfo
      by_cases hlt : id < frame.id
      · exact .inl hlt
      · refine .inr (mem_filter.mpr ⟨?_, decide_eq_true (Int.not_lt.mp hlt)⟩)
        rw [← hsame.keys]
        exact mem_map.mpr ⟨(id, info), (q''.frames.find?_eq_some_iff id info).mp hinfo, rfl⟩
    · rw [hsame.log]
      exact hlogOk
    · rw [hsame.log, hsame.stored]
      exact hstock

theorem Lawful.insertFrame (h : Lawful proper q)
    (hproper : ∀ x ∈ frame.id :: frame.references, proper x) :
    Lawful proper (q.insertFrame frame).1 := by
  unfold FrameBuffer.insertFrame
  split
  · exact h
  · rename_i hvalid
    have hvalid' : frame.validReferences = true := by simpa using hvalid
    have hback := lt_of_validReferencesFrom hvalid'
    split
    · exact h
    · rename_i q₁ hage
      obtain ⟨h₁, hnewer₁⟩ := acceptAge_spec h hage
      split
      · exact h₁
      · rename_i q₂ hroom
        obtain ⟨h₂, hnewer₂⟩ := makeRoom_spec h₁ hnewer₁ hroom
        exact emplaceFrame_spec h₂ hnewer₂ (hproper _ mem_cons_self) fun r hr =>
          ⟨hback r hr, hproper r (mem_cons_of_mem _ hr)⟩

variable {t : TemporalUnit} {history : DecodedFramesHistory} {decoded : List Int}

theorem filter_unit {before after : List (EncodedFrame β)}
    (hsorted : (before ++ unit ++ after).Pairwise fun f g => f.id < g.id) (hne : unit ≠ [])
    (hfirst : ∀ first ∈ unit.head?, first.id = t.firstFrame)
    (hlast : ∀ last ∈ unit.getLast?, last.id = t.lastFrame) :
    (before ++ unit ++ after).filter (fun f => t.firstFrame ≤ f.id ∧ f.id ≤ t.lastFrame) = unit ∧
      (before ++ unit ++ after).filter (fun f => !decide (f.id ≤ t.lastFrame)) = after := by
  obtain ⟨hfront, -, hafter⟩ := pairwise_append.mp hsorted
  obtain ⟨-, hunit, hbefore⟩ := pairwise_append.mp hfront
  obtain ⟨first, rest, hcons⟩ := exists_cons_of_ne_nil hne
  have hfirst' := hfirst first (by rw [hcons]; rfl)
  obtain ⟨last, hend⟩ : ∃ last, unit.getLast? = some last :=
    ⟨_, getLast?_eq_some_getLast hne⟩
  have hlast' := hlast last hend
  have hlow : ∀ f ∈ unit, t.firstFrame ≤ f.id := by
    intro f hf
    rw [hcons] at hf hunit
    rcases mem_cons.mp hf with rfl | hf
    · exact hfirst'.ge
    · exact (hfirst' ▸ (pairwise_cons.mp hunit).1 f hf).le
  have hhigh : ∀ f ∈ unit, f.id ≤ t.lastFrame := by
    intro f hf
    obtain ⟨init, hconcat⟩ := getLast?_eq_some_iff.mp hend
    rw [hconcat] at hf hunit
    rcases mem_append.mp hf with hf | hf
    · exact (hlast' ▸ (pairwise_append.mp hunit).2.2 f hf last (mem_singleton_self _)).le
    · rw [mem_singleton.mp hf]
      exact hlast'.le
  have hmemFirst : first ∈ unit := by
    rw [hcons]
    exact mem_cons_self
  have hmemLast := mem_of_getLast? hend
  have hearly : ∀ f ∈ before, f.id < t.firstFrame := fun f hf => hfirst' ▸ hbefore f hf first hmemFirst
  have hlate : ∀ f ∈ after, t.lastFrame < f.id := fun f hf =>
    hlast' ▸ hafter last (mem_append.mpr (.inr hmemLast)) f hf
  constructor
  · rw [filter_append, filter_append, filter_eq_nil_iff.mpr, filter_eq_self.mpr,
      filter_eq_nil_iff.mpr, nil_append, append_nil]
    · intro f hf
      have := hlate f hf
      simp only [decide_eq_true_eq]
      omega
    · exact fun f hf => decide_eq_true ⟨hlow f hf, hhigh f hf⟩
    · intro f hf
      have := hearly f hf
      simp only [decide_eq_true_eq]
      omega
  · rw [filter_append, filter_append, filter_eq_nil_iff.mpr,
      filter_eq_nil_iff.mpr, filter_eq_self.mpr, nil_append, nil_append]
    · intro f hf
      have := hlate f hf
      simp only [Bool.not_eq_true', decide_eq_false_iff_not]
      omega
    · intro f hf
      have := hhigh f hf
      simp [this]
    · intro f hf
      have := hearly f hf
      have := hhigh first hmemFirst
      simp only [Bool.not_eq_true', decide_eq_false_iff_not]
      omega

theorem map_filter_entries (hk : Keyed proper q) (p : Int → Bool) :
    (q.frames.entries.filter fun e => p e.1).map (fun e => e.2.encodedFrame) =
      q.storedFrames.filter fun f => p f.id := by
  rw [storedFrames, filter_map]
  refine congrArg (map _) (filter_congr fun e he => ?_)
  obtain ⟨id, info⟩ := e
  have hid := (hk id info ((q.frames.find?_eq_some_iff id info).mpr he)).1
  change p id = p info.encodedFrame.id
  rw [hid]

structure Found (q : FrameBuffer β) (t : TemporalUnit) (unit after : List (EncodedFrame β)) : Prop where
  isUnit : IsUnit q.storedFrames unit
  decodable : q.decodable unit = true
  unitFrames : q.unitFrames t = unit
  rest : (q.frames.filter fun e => !decide (e.1 ≤ t.lastFrame)).entries.map
    (fun e => e.2.encodedFrame) = after
  split : ∃ before, q.storedFrames = before ++ unit ++ after
  increasing : unit.Pairwise fun f g => f.id < g.id
  high : ∀ f ∈ unit, f.id ≤ t.lastFrame

theorem Lawful.found (h : Lawful proper q)
    (ht : q.nextDecodableTemporalUnit = some t) : ∃ unit after, Found q t unit after := by
  have hnext := h.next
  rw [ht] at hnext
  obtain ⟨unit, hunit, hdec, hfirst, hlast, -⟩ := hnext
  obtain ⟨before, after, hframes, -⟩ := hunit.stored
  have hsorted := sorted_storedFrames h.keyed
  rw [hframes] at hsorted
  obtain ⟨hcut, hrest⟩ := filter_unit hsorted hunit.nonempty hfirst hlast
  have hunitFrames : q.unitFrames t = unit := by
    rw [FrameBuffer.unitFrames, map_filter_entries h.keyed
      (fun k => decide (t.firstFrame ≤ k ∧ k ≤ t.lastFrame)), hframes]
    exact hcut
  refine ⟨unit, after, hunit, hdec, hunitFrames, ?_, ⟨before, hframes⟩,
    (pairwise_append.mp (pairwise_append.mp hsorted).1).2.1, ?_⟩
  · change (q.frames.entries.filter fun e => !decide (e.1 ≤ t.lastFrame)).map _ = after
    rw [map_filter_entries h.keyed (fun k => !decide (k ≤ t.lastFrame)), hframes]
    exact hrest
  · intro f hf
    rw [← hcut] at hf
    exact (of_decide_eq_true (mem_filter.mp hf).2).2

theorem Core.filtered (h : Core proper q) {bound : Int}
    (hframes : q'.frames = q.frames.filter fun e => !decide (e.1 ≤ bound))
    (hlast : q'.lastContinuousTemporalUnitFrameId = q.lastContinuousTemporalUnitFrameId)
    (hremembers : q'.decodedFrameHistory.Remembers proper ((extractedSince q'.log).map EncodedFrame.id))
    (habove : ∀ f ∈ extractedSince q'.log, ∀ id info, bound < id →
      q.frames.find? id = some info → f.id < id)
    (hdecoded : ∀ r, proper r → q'.decodedFrameHistory.wasDecoded r = true →
      q.decodedFrameHistory.wasDecoded r = true ∨ q.continuousInBuffer r = true)
    (hlogOk : LogOk q'.log) (hstock : Stocked q'.log q'.storedFrames) :
    Core proper q' := by
  have hfind : ∀ id info, q'.frames.find? id = some info →
      q.frames.find? id = some info ∧ bound < id := by
    intro id info hinfo
    rw [hframes, OrdMap.find?_filter, Option.filter_eq_some_iff] at hinfo
    refine ⟨hinfo.1, ?_⟩
    have := hinfo.2
    simp only [Bool.not_eq_true', decide_eq_false_iff_not] at this
    omega
  refine ⟨hremembers, fun f hf id info hinfo => ?_, fun id info hinfo => ?_,
    fun id info _ hinfo hcontinuous => ?_, fun id info hinfo hcontinuous hunit => ?_, hlogOk, hstock⟩
  · obtain ⟨hold, hlt⟩ := hfind id info hinfo
    exact habove f hf id info hlt hold
  · exact h.keyed id info (hfind id info hinfo).1
  · obtain ⟨hold, -⟩ := hfind id info hinfo
    refine h.closed id info trivial hold ?_
    rw [isContinuous_iff] at hcontinuous ⊢
    intro r hr
    rcases hcontinuous r hr with hdec | hbuffer
    · exact hdecoded r ((h.keyed id info hold).2.2 r hr).2 hdec
    · right
      unfold continuousInBuffer at hbuffer ⊢
      cases hinfo' : q'.frames.find? r with
      | none =>
        rw [hinfo'] at hbuffer
        cases hbuffer
      | some info' =>
        rw [hinfo'] at hbuffer
        rw [(hfind r info' hinfo').1]
        exact hbuffer
  · rw [hlast]
    exact h.marked id info (hfind id info hinfo).1 hcontinuous hunit

theorem Lawful.dropNext (h : Lawful proper q) : Lawful proper q.dropNextDecodableTemporalUnit := by
  unfold dropNextDecodableTemporalUnit
  split
  · exact h
  · rename_i t ht
    obtain ⟨unit, after, hfound⟩ := h.found ht
    obtain ⟨before, hsplit⟩ := hfound.split
    apply Core.find
    refine h.toCore.filtered rfl rfl h.remembers (fun f hf id info _ => h.above f hf id info)
      (fun r _ hdec => .inl hdec) h.logOk ?_
    refine le_trans (Multiset.add_le_add_left ?_) h.stock
    change (((q.frames.filter fun e => !decide (e.1 ≤ t.lastFrame)).entries.map
      fun e => e.2.encodedFrame : List (EncodedFrame β)) : Multiset (EncodedFrame β)) ≤ q.storedFrames
    rw [hfound.rest, hsplit, ← Multiset.coe_add]
    exact Multiset.le_add_left _ _

theorem remembers_foldl (unit : List (EncodedFrame β))
    (h : history.Remembers proper decoded) (hproper : ∀ f ∈ unit, proper f.id)
    (hincreasing : unit.Pairwise fun f g => f.id < g.id)
    (hlater : ∀ x ∈ decoded, ∀ f ∈ unit, x < f.id) :
    (unit.foldl (fun history frame => history.insertDecoded frame.id frame.rtpTimestamp)
      history).Remembers proper (decoded ++ unit.map EncodedFrame.id) := by
  induction unit generalizing history decoded with
  | nil => simpa using h
  | cons frame unit ih =>
    obtain ⟨hfirst, hrest⟩ := pairwise_cons.mp hincreasing
    have hstep := h.insertDecoded (hproper frame mem_cons_self)
      (fun last hlast => hlater last (h.last last hlast).2.1 frame mem_cons_self)
      frame.rtpTimestamp
    have hall := ih hstep ((forall_mem_cons.mp hproper).2) hrest (by
      intro x hx f hf
      rcases mem_append.mp hx with hx | hx
      · exact hlater x hx f (mem_cons_of_mem _ hf)
      · rw [mem_singleton.mp hx]
        exact hfirst f hf)
    rw [append_assoc] at hall
    exact hall

theorem Found.unitOk (h : Lawful proper q) {after : List (EncodedFrame β)}
    (hfound : Found q t unit after) : UnitOk (extractedSince q.log) unit := by
  have hstored : ∀ f ∈ unit, ∃ info, q.frames.find? f.id = some info ∧ info.encodedFrame = f :=
    fun f hf => find?_of_mem_storedFrames h.keyed (hfound.isUnit.mem hf)
  refine ⟨fun i f hi r hr => ?_, hfound.isUnit.timestamp, hfound.increasing, fun f hf g hg => ?_⟩
  · have hf := mem_of_getElem? hi
    obtain ⟨info, hfind, rfl⟩ := hstored f hf
    obtain ⟨hback, hproper⟩ := (h.keyed _ info hfind).2.2 r hr
    rcases (decodable_iff q unit).mp hfound.decodable _ hf r hr with hdec | ⟨other, hother, rfl⟩
    · obtain ⟨hmem, -⟩ := (h.remembers.wasDecoded_iff hproper).mp hdec
      obtain ⟨other, hother, hid⟩ := mem_map.mp hmem
      exact .inl ⟨other, hother, hid⟩
    · obtain ⟨j, hj⟩ := mem_iff_getElem?.mp hother
      exact .inr ⟨j, other, lt_of_id_lt hfound.increasing hi hj hback, hj, rfl⟩
  · obtain ⟨info, hfind, rfl⟩ := hstored g hg
    exact h.above f hf _ info hfind

theorem length_foldl (unit : List (EncodedFrame β)) (history : DecodedFramesHistory) :
    (unit.foldl (fun history frame => history.insertDecoded frame.id frame.rtpTimestamp)
      history).buffer.length = history.buffer.length := by
  induction unit generalizing history with
  | nil => rfl
  | cons frame unit ih =>
    rw [foldl_cons, ih]
    exact DecodedFramesHistory.length_insertDecoded history _ _

theorem window_mono {history' : DecodedFramesHistory}
    (hlength : history'.buffer.length = history.buffer.length)
    (h : history'.Remembers proper decoded) {last r : Int} (hlast : last ∈ decoded)
    (hwindow : ∀ last', history'.lastFrameId = some last' → last' - history'.buffer.length < r) :
    last - history.buffer.length < r := by
  cases hnew : history'.lastFrameId with
  | none =>
    rw [(h.nothing hnew).1] at hlast
    cases hlast
  | some last' =>
    have hle := (h.last last' hnew).2.2.1 last hlast
    have := hwindow last' hnew
    omega

theorem Lawful.extractNext (h : Lawful proper q) :
    Lawful proper q.extractNextDecodableTemporalUnit.1 := by
  unfold extractNextDecodableTemporalUnit
  split
  · exact h
  · rename_i t ht
    obtain ⟨unit, after, hfound⟩ := h.found ht
    obtain ⟨before, hsplit⟩ := hfound.split
    have hok := hfound.unitOk h
    have hsub : ∀ f ∈ unit, f ∈ q.storedFrames := fun _ => hfound.isUnit.mem
    have hproper : ∀ f ∈ unit, proper f.id := by
      intro f hf
      obtain ⟨info, hfind, -⟩ := find?_of_mem_storedFrames h.keyed (hsub f hf)
      exact (h.keyed _ info hfind).2.1
    have hhistory := remembers_foldl unit h.remembers hproper hfound.increasing (by
      intro x hx f hf
      obtain ⟨other, hother, rfl⟩ := mem_map.mp hx
      exact hok.later other hother f hf)
    have hlog : extractedSince (q.log ++ [.extracted unit]) = extractedSince q.log ++ unit :=
      extractedSince_append q.log _
    rw [← map_append, ← hlog] at hhistory
    rw [hfound.unitFrames]
    apply Core.find
    refine h.toCore.filtered rfl rfl hhistory ?_ ?_ (h.logOk.append ?_) ?_
    · intro f hf id info hlt hinfo
      rw [hlog] at hf
      rcases mem_append.mp hf with hold | hnew
      · exact h.above f hold id info hinfo
      · exact lt_of_le_of_lt (hfound.high f hnew) hlt
    · intro r hr hdec
      -- what is decoded now was decoded before, or is in the unit
      obtain ⟨hmem, hwindow⟩ := (hhistory.wasDecoded_iff hr).mp hdec
      rw [hlog, map_append] at hmem
      rcases mem_append.mp hmem with hold | hnew
      · refine .inl ((h.remembers.wasDecoded_iff hr).mpr ⟨hold, fun last hlast => ?_⟩)
        have hin := (h.remembers.last last hlast).2.1
        exact window_mono (length_foldl unit _) hhistory
          (by rw [hlog, map_append]; exact mem_append_left _ hin) hwindow
      · obtain ⟨f, hf, rfl⟩ := mem_map.mp hnew
        obtain ⟨i, hi⟩ := mem_iff_getElem?.mp hf
        exact .inr (continuous_of_decodable h.keyed h.closed hsub hfound.increasing
          hfound.decodable i hi)
    · intro unit' heq
      cases heq
      exact hok
    · have hsub' : (unit ++ [] ++ after).Subperm q.storedFrames := by
        rw [append_nil, hsplit, append_assoc]
        exact (sublist_append_right _ _).subperm
      rw [← hfound.rest] at hsub'
      exact Stocked.append h.stock (.extracted unit) hsub'

theorem Lawful.perform (h : Lawful proper q) {c : Call β}
    (hproper : ∀ frame, c = .insertFrame frame → ∀ x ∈ frame.id :: frame.references, proper x) :
    Lawful proper (q.perform c) := by
  cases c with
  | insertFrame frame => exact h.insertFrame (hproper frame rfl)
  | extractNextDecodableTemporalUnit => exact h.extractNext
  | dropNextDecodableTemporalUnit => exact h.dropNext
  | clear => exact h.clear

theorem Lawful.after (h : Lawful proper q) {calls : List (Call β)}
    (hproper : ∀ frame, .insertFrame frame ∈ calls → ∀ x ∈ frame.id :: frame.references, proper x) :
    Lawful proper (q.after calls) := by
  induction calls generalizing q with
  | nil => exact h
  | cons c calls ih =>
    refine ih (h.perform fun frame heq => ?_) fun frame hin => ?_
    · exact hproper frame (heq ▸ mem_cons_self)
    · exact hproper frame (mem_cons_of_mem _ hin)

/-- The contract of the frame buffer, for frame ids that its decode history tells apart. -/
theorem decodable_units (legacyFrameIdJumpBehavior : Bool) (maxSize maxDecodeHistory : Nat)
    (hsize : 0 < maxDecodeHistory) (calls : List (Call β))
    (hids : ∀ frame, .insertFrame frame ∈ calls →
      ∀ x ∈ frame.id :: frame.references, DecodedFramesHistory.Told maxDecodeHistory x) :
    let q := (initial legacyFrameIdJumpBehavior maxSize maxDecodeHistory).after calls
    (∀ before unit after, q.log = before ++ .extracted unit :: after →
      UnitOk (extractedSince before) unit) ∧
    ((extractedSince q.log).Pairwise fun f g => f.id < g.id) ∧
    (extractedFrames q.log : Multiset (EncodedFrame β)) ≤ insertedFrames q.log ∧
    (∀ x, DecodedFramesHistory.Told maxDecodeHistory x → (q.decodedFrameHistory.wasDecoded x = true ↔
      (∃ frame ∈ extractedSince q.log, frame.id = x) ∧
        ∀ last, q.decodedFrameHistory.lastFrameId = some last →
          last - q.decodedFrameHistory.buffer.length < x)) ∧
    NextOf q q.storedFrames q.nextDecodableTemporalUnit := by
  have hinitial := lawful_initial (β := β) legacyFrameIdJumpBehavior maxSize
    (DecodedFramesHistory.remembers_initial hsize fun x hx =>
      DecodedFramesHistory.Told.frameIdToIndex_eq hx)
  have h := hinitial.after hids
  refine ⟨h.logOk, h.logOk.increasing, (Multiset.le_add_right _ _).trans h.stock, fun x hx => ?_,
    h.next⟩
  rw [h.remembers.wasDecoded_iff hx, mem_map]

def bare (id : Int) (rtpTimestamp : BitVec 32) (references : List Int)
    (room : references.length ≤ kMaxFrameReferences := by decide)
    (range : ∀ x ∈ id :: references, -2 ^ 63 ≤ x ∧ x < 2 ^ 63 := by decide) : EncodedFrame Unit :=
  ⟨id, rtpTimestamp, references, true, (), room, range⟩

def reorderedCalls : List (Call Unit) :=
  [.insertFrame (bare 1 200 [0]), .insertFrame (bare 0 100 []), .extractNextDecodableTemporalUnit,
    .extractNextDecodableTemporalUnit, .insertFrame (bare 5 300 [1])]

theorem decodable_units_reorderedCalls : let q := (initial true 10 3).after reorderedCalls
    (extractedSince q.log).map EncodedFrame.id = [0, 1] ∧
    (extractedFrames q.log : Multiset (EncodedFrame Unit)) ≤ insertedFrames q.log ∧
    NextOf q q.storedFrames (some ⟨5, 5⟩) := by
  have h := decodable_units true 10 3 (by decide) reorderedCalls ?_
  · have hnext : ((initial true 10 3).after reorderedCalls).nextDecodableTemporalUnit =
        some ⟨5, 5⟩ := by decide +kernel
    refine ⟨by decide +kernel, h.2.2.1, ?_⟩
    exact h.2.2.2.2
  · intro frame hin
    simp only [reorderedCalls, mem_cons, Call.insertFrame.injEq, reduceCtorEq, false_or,
      not_mem_nil, or_false] at hin
    rcases hin with rfl | rfl | rfl <;> simp [bare, DecodedFramesHistory.Told]

/-- In a history of three ids the one before zero has the slot of zero. -/
def negativeReferenceCalls : List (Call Unit) :=
  [.insertFrame (bare 0 100 []), .extractNextDecodableTemporalUnit, .insertFrame (bare 1 200 [-1])]

theorem undecodable_extracted_negativeReferenceCalls :
    let q : FrameBuffer Unit := (initial true 10 3).after negativeReferenceCalls
    (extractedSince q.log).map EncodedFrame.id = [0] ∧
      q.extractNextDecodableTemporalUnit.2 = [bare 1 200 [-1]] ∧
      ¬ UnitOk (extractedSince q.log) q.extractNextDecodableTemporalUnit.2 := by
  have hids : (extractedSince ((initial true 10 3).after negativeReferenceCalls).log).map
      EncodedFrame.id = [0] := by decide +kernel
  have hunit : ((initial true 10 3).after negativeReferenceCalls).extractNextDecodableTemporalUnit.2 =
      [bare 1 200 [-1]] := by decide +kernel
  refine ⟨hids, hunit, fun h => ?_⟩
  rcases h.references 0 (bare 1 200 [-1]) rfl (-1) mem_cons_self with
    ⟨other, hin, hid⟩ | ⟨j, _, hj, -⟩
  · have := mem_map_of_mem (f := EncodedFrame.id) hin
    rw [hid] at this
    exact absurd this (by decide)
  · exact absurd hj (Nat.not_lt_zero j)

end FrameBuffer

end Video
