import Mathlib.Data.Finset.Union
import Mathlib.Data.List.Induction
import Mathlib.Logic.Relation

/-!
# Frame dependencies from the usage of codec buffers

Model of `FrameDependenciesCalculator` (`modules/video_coding/frame_dependencies_calculator.cc`). The
vector of buffers grows on demand with buffers that were never updated, so it is a function of their
ids; ordered sets of frame ids are finite sets.
-/

namespace Video

open List

/-- Steps that can be made in two smaller ones can be left out. -/
theorem transGen_of_cover {reduced full : Int → Int → Prop} (sub : ∀ f x, reduced f x → full f x)
    (lt : ∀ f x, full f x → x < f)
    (cover : ∀ f x, full f x → reduced f x ∨ ∃ g, full f g ∧ full g x) (f x : Int) :
    Relation.TransGen reduced f x ↔ Relation.TransGen full f x := by
  -- both parts of a step are shorter than it is
  have hstep : ∀ n f x, (f - x).toNat = n → full f x → Relation.TransGen reduced f x := by
    intro n
    induction n using Nat.strongRecOn with
    | ind n ih =>
      intro f x hn hfull
      rcases cover f x hfull with hkept | ⟨g, hfg, hgx⟩
      · exact .single hkept
      · have := lt f g hfg
        have := lt g x hgx
        exact (ih _ (by omega) f g rfl hfg).trans (ih _ (by omega) g x rfl hgx)
  exact ⟨Relation.TransGen.mono sub f x,
    Relation.TransGen.lift' id (fun f x => hstep _ f x rfl) f x⟩

structure CodecBufferUsage where
  id : Nat
  referenced : Bool
  updated : Bool

structure BufferUsage where
  frameId : Option Int
  dependencies : Finset Int

structure BuffersUsage where
  frameId : Int
  buffersUsage : List CodecBufferUsage

namespace FrameDependenciesCalculator

def initial : Nat → BufferUsage := fun _ => ⟨none, ∅⟩

/-- The buffers referenced that were updated before, with their frames. -/
def referencedBuffers (buffers : Nat → BufferUsage) (usage : BuffersUsage) :
    List (Int × Finset Int) :=
  (usage.buffersUsage.filter CodecBufferUsage.referenced).filterMap fun buffer =>
    (buffers buffer.id).frameId.map fun frameId => (frameId, (buffers buffer.id).dependencies)

def directDependencies (buffers : Nat → BufferUsage) (usage : BuffersUsage) : Finset Int :=
  (referencedBuffers buffers usage).toFinset.image Prod.fst

def indirectDependencies (buffers : Nat → BufferUsage) (usage : BuffersUsage) : Finset Int :=
  (referencedBuffers buffers usage).toFinset.biUnion Prod.snd

def updates (id : Nat) (usage : BuffersUsage) : Bool :=
  usage.buffersUsage.any fun buffer => buffer.updated && buffer.id == id

/-- `FromBuffersUsage`: the dependencies, and the buffers afterwards. -/
def fromBuffersUsage (buffers : Nat → BufferUsage) (usage : BuffersUsage) :
    Finset Int × (Nat → BufferUsage) :=
  (directDependencies buffers usage \ indirectDependencies buffers usage, fun id =>
    if updates id usage then ⟨usage.frameId, directDependencies buffers usage⟩ else buffers id)

variable (calls : List BuffersUsage)

def after : Nat → BufferUsage :=
  calls.foldl (fun buffers usage => (fromBuffersUsage buffers usage).2) initial

def lastStored (id : Nat) : Option Int :=
  (calls.reverse.find? (updates id)).map BuffersUsage.frameId

/-- A frame was last stored in a buffer that another one references. -/
def References (f x : Int) : Prop :=
  ∃ before usage later, calls = before ++ usage :: later ∧ usage.frameId = f ∧
    ∃ buffer ∈ usage.buffersUsage, buffer.referenced = true ∧ lastStored before buffer.id = some x

/-- A frame is among the dependencies returned for another one. -/
def Depends (f x : Int) : Prop :=
  ∃ before usage later, calls = before ++ usage :: later ∧ usage.frameId = f ∧
    x ∈ (fromBuffersUsage (after before) usage).1

variable {calls : List BuffersUsage} {usage : BuffersUsage} {x : Int}

theorem mem_referencedBuffers {buffers : Nat → BufferUsage} {b : Int × Finset Int} :
    b ∈ referencedBuffers buffers usage ↔ ∃ buffer ∈ usage.buffersUsage, buffer.referenced = true ∧
      (buffers buffer.id).frameId = some b.1 ∧ (buffers buffer.id).dependencies = b.2 := by
  simp [referencedBuffers, Prod.ext_iff, and_assoc]

theorem after_spec (calls : List BuffersUsage) (id : Nat) :
    (after calls id).frameId = lastStored calls id ∧
      ∀ g, (after calls id).frameId = some g → ∃ before usage later,
        calls = before ++ usage :: later ∧ usage.frameId = g ∧
          (after calls id).dependencies = directDependencies (after before) usage := by
  induction calls using reverseRecOn with
  | nil => exact ⟨rfl, nofun⟩
  | append_singleton calls usage ih =>
    have hafter : after (calls ++ [usage]) id = if updates id usage then
        ⟨usage.frameId, directDependencies (after calls) usage⟩ else after calls id := by
      rw [after, foldl_append]
      rfl
    have hlast : lastStored (calls ++ [usage]) id =
        if updates id usage then some usage.frameId else lastStored calls id := by
      rw [lastStored, reverse_append, reverse_singleton, singleton_append, find?_cons]
      cases updates id usage <;> rfl
    rw [hafter, hlast]
    split_ifs with hupdated
    · exact ⟨rfl, fun g hg => ⟨calls, usage, [], rfl, Option.some.inj hg, rfl⟩⟩
    · refine ⟨ih.1, fun g hg => ?_⟩
      obtain ⟨before, usage', later, heq, hframe, hdependencies⟩ := ih.2 g hg
      exact ⟨before, usage', later ++ [usage], by rw [heq]; simp, hframe, hdependencies⟩

theorem mem_directDependencies : x ∈ directDependencies (after calls) usage ↔
    ∃ buffer ∈ usage.buffersUsage, buffer.referenced = true ∧
      lastStored calls buffer.id = some x := by
  simp [directDependencies, mem_referencedBuffers, after_spec]

theorem References.lt {f : Int} (h : References calls f x)
    (increasing : calls.Pairwise fun a b => a.frameId < b.frameId) : x < f := by
  obtain ⟨before, usage, later, rfl, rfl, buffer, -, -, hstored⟩ := h
  obtain ⟨earlier, hfind, rfl⟩ := Option.map_eq_some_iff.mp hstored
  exact (pairwise_append.mp increasing).2.2 earlier
    (mem_reverse.mp (mem_of_find?_eq_some hfind)) usage mem_cons_self

theorem References.cover {f : Int} (h : References calls f x) :
    Depends calls f x ∨ ∃ g, References calls f g ∧ References calls g x := by
  obtain ⟨before, usage, later, rfl, rfl, hbuffer⟩ := h
  by_cases hin : x ∈ indirectDependencies (after before) usage
  · right
    obtain ⟨b, hb, hx⟩ := Finset.mem_biUnion.mp hin
    obtain ⟨buffer, hmem, href, hframe, hdeps⟩ := mem_referencedBuffers.mp (mem_toFinset.mp hb)
    obtain ⟨hstored, hdirect⟩ := after_spec before buffer.id
    obtain ⟨before', usage', later', rfl, hg, hdirect⟩ := hdirect _ hframe
    refine ⟨b.1, ⟨_, usage, later, rfl, rfl, buffer, hmem, href, hstored.symm.trans hframe⟩,
      before', usage', later' ++ usage :: later, by simp, hg, mem_directDependencies.mp ?_⟩
    rw [← hdirect, hdeps]
    exact hx
  · exact .inl ⟨before, usage, later, rfl, rfl,
      Finset.mem_sdiff.mpr ⟨mem_directDependencies.mpr hbuffer, hin⟩⟩

/-- The dependencies returned lead to the same frames as the buffers referenced. -/
theorem depends_reaches_iff (calls : List BuffersUsage)
    (increasing : calls.Pairwise fun a b => a.frameId < b.frameId) (f x : Int) :
    Relation.TransGen (Depends calls) f x ↔ Relation.TransGen (References calls) f x := by
  refine transGen_of_cover (fun f x h => ?_) (fun f x h => h.lt increasing) (fun f x => (·.cover)) f x
  obtain ⟨before, usage, later, heq, hframe, hin⟩ := h
  exact ⟨before, usage, later, heq, hframe, mem_directDependencies.mp (Finset.mem_sdiff.mp hin).1⟩

/-- The third frame references the first one also through the second. -/
theorem depends_reaches_iff_threeFrames : let first : BuffersUsage := ⟨1, [⟨0, false, true⟩]⟩
    let second : BuffersUsage := ⟨2, [⟨0, true, false⟩, ⟨1, false, true⟩]⟩
    let third : BuffersUsage := ⟨3, [⟨0, true, false⟩, ⟨1, true, false⟩]⟩
    (fromBuffersUsage (after [first, second]) third).1 = {2} ∧
      Relation.TransGen (Depends [first, second, third]) 3 1 := by
  intro first second third
  refine ⟨by decide, (depends_reaches_iff [first, second, third] (by decide) 3 1).mpr ?_⟩
  exact .single ⟨[first, second], third, [], rfl, rfl, ⟨0, true, false⟩, by simp [third], rfl, rfl⟩

end FrameDependenciesCalculator

end Video
