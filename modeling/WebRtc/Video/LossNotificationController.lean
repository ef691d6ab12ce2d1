import WebRtc.SequenceNumbers
import Mathlib.Data.Finset.Sort

/-!
# Loss notifications

Model of `LossNotificationController` (`modules/video_coding/loss_notification_controller.cc`),
whose calls return what they send. The frame that a loss notification names may be arbitrarily old,
so its number is behind the received one only as long as the received numbers have moved on by less
than half a turn.
-/

namespace Video

open SequenceNumbers List

structure FrameDetails where
  isKeyframe : Bool
  frameId : Int
  frameDependencies : List Int

/-- What is sent to the `KeyFrameRequestSender` or the `LossNotificationSender`. -/
inductive LossMessage where
  | requestKeyFrame
  | sendLossNotification (lastDecodedSeqNum lastReceivedSeqNum : BitVec 16)
      (decodabilityFlag bufferingAllowed : Bool)
deriving DecidableEq

-- The order of a `std::set<int64_t>`.
local instance isTransLe : IsTrans Int (· ≤ ·) := ⟨fun _ _ _ => Int.le_trans⟩

local instance antisymmLe : Std.Antisymm fun a b : Int => a ≤ b := ⟨fun _ _ => Int.le_antisymm⟩

def pareDown (container : Finset Int) (maxAllowedSize targetSize : Nat) : Finset Int :=
  if container.card > maxAllowedSize then
    ((container.sort (· ≤ ·)).drop (container.card - targetSize)).toFinset
  else container

structure LossNotificationController where
  lastReceivedFrameId : Option Int := none
  lastReceivedSeqNum : Option (BitVec 16) := none
  currentFramePotentiallyDecodable : Bool := true
  lastDecodableNonDiscardable : Option (BitVec 16) := none
  decodableFrameIds : Finset Int := ∅

namespace LossNotificationController

variable (q : LossNotificationController)

def discardOldInformation : LossNotificationController :=
  { q with decodableFrameIds := pareDown q.decodableFrameIds (2 * 3000) 3000 }

def allDependenciesDecodable (frameDependencies : List Int) : Bool :=
  frameDependencies.all (· ∈ q.decodableFrameIds)

def handleLoss (lastReceivedSeqNum : BitVec 16) (decodabilityFlag : Bool) : LossMessage :=
  match q.lastDecodableNonDiscardable with
  | some firstSeqNum => .sendLossNotification firstSeqNum lastReceivedSeqNum decodabilityFlag true
  | none => .requestKeyFrame

def onReceivedPacket (rtpSeqNum : BitVec 16)
    (frame : Option FrameDetails) : LossNotificationController × Option LossMessage :=
  -- repeated and reordered packets are ignored
  if q.lastReceivedSeqNum.any fun last => !aheadOf rtpSeqNum last then (q, none)
  else
    let q := q.discardOldInformation
    let seqNumGap := q.lastReceivedSeqNum.any fun last => rtpSeqNum != last + 1
    let q := { q with lastReceivedSeqNum := some rtpSeqNum }
    match frame with
    | some frame =>
      if q.lastReceivedFrameId.any fun last => frame.frameId ≤ last then (q, none)
      else
        let q := { q with lastReceivedFrameId := some frame.frameId }
        if frame.isKeyframe then
          ({ q with decodableFrameIds := ∅, currentFramePotentiallyDecodable := true }, none)
        else
          let allDecodable := q.allDependenciesDecodable frame.frameDependencies
          let q := { q with currentFramePotentiallyDecodable := allDecodable }
          (q, if seqNumGap || !allDecodable then some (q.handleLoss rtpSeqNum allDecodable) else none)
    | none =>
      if seqNumGap || !q.currentFramePotentiallyDecodable then
        ({ q with currentFramePotentiallyDecodable := false }, some (q.handleLoss rtpSeqNum false))
      else (q, none)

def onAssembledFrame (firstSeqNum : BitVec 16) (frameId : Int)
    (discardable : Bool) (frameDependencies : List Int) : LossNotificationController :=
  let q := q.discardOldInformation
  if discardable then q
  else if !q.allDependenciesDecodable frameDependencies then q
  else
    { q with
      lastDecodableNonDiscardable := some firstSeqNum
      decodableFrameIds := insert frameId q.decodableFrameIds }

inductive Call where
  | onReceivedPacket (rtpSeqNum : BitVec 16) (frame : Option FrameDetails)
  | onAssembledFrame (firstSeqNum : BitVec 16) (frameId : Int) (discardable : Bool)
      (frameDependencies : List Int)

def perform : Call → LossNotificationController × Option LossMessage
  | .onReceivedPacket rtpSeqNum frame => q.onReceivedPacket rtpSeqNum frame
  | .onAssembledFrame firstSeqNum frameId discardable frameDependencies =>
    (q.onAssembledFrame firstSeqNum frameId discardable frameDependencies, none)

def after (calls : List Call) : LossNotificationController :=
  calls.foldl (fun q c => (q.perform c).1) q

/-- A frame is decodable if it was assembled, is not discardable and its dependencies were decodable
before. -/
inductive Decodable : List Call → Int → Prop
  | assembled {before : List Call} {frameDependencies : List Int} (firstSeqNum : BitVec 16)
      (frameId : Int) (dependencies : ∀ id ∈ frameDependencies, Decodable before id)
      (after : List Call) :
      Decodable (before ++ .onAssembledFrame firstSeqNum frameId false frameDependencies :: after)
        frameId

theorem Decodable.append {calls : List Call} {id : Int} (h : Decodable calls id) (c : Call) :
    Decodable (calls ++ [c]) id := by
  obtain ⟨firstSeqNum, _, dependencies, after⟩ := h
  rw [append_assoc, cons_append]
  exact .assembled firstSeqNum id dependencies (after ++ [c])

def lastReceived : BitVec 16 := q.lastReceivedSeqNum.getD 0

def advance (q : LossNotificationController) : List Call → Nat
  | [] => 0
  | c :: calls => ((q.perform c).1.lastReceived - q.lastReceived).toNat + (q.perform c).1.advance calls

variable {q : LossNotificationController} {calls : List Call}

theorem advance_append (q : LossNotificationController) (calls calls' : List Call) :
    q.advance (calls ++ calls') = q.advance calls + (q.after calls).advance calls' := by
  induction calls generalizing q with
  | nil => exact (Nat.zero_add _).symm
  | cons c calls ih =>
    rw [cons_append, advance, advance, ih, Nat.add_assoc]
    rfl

theorem toNat_lastReceived_sub (first : BitVec 16)
    (h : (q.lastReceived - first).toNat + q.advance calls < 2 ^ 16) :
    ((q.after calls).lastReceived - first).toNat =
      (q.lastReceived - first).toNat + q.advance calls := by
  induction calls generalizing q with
  | nil => rfl
  | cons c calls ih =>
    rw [advance] at h ⊢
    have hstep : ((q.perform c).1.lastReceived - first).toNat =
        (q.lastReceived - first).toNat + ((q.perform c).1.lastReceived - q.lastReceived).toNat := by
      bv_omega
    rw [← Nat.add_assoc, ← hstep] at h ⊢
    exact ih h

theorem pareDown_subset (container : Finset Int) (maxAllowedSize targetSize : Nat) :
    pareDown container maxAllowedSize targetSize ⊆ container := by
  unfold pareDown
  split_ifs
  · intro id hid
    exact (Finset.mem_sort _).mp (mem_of_mem_drop (mem_toFinset.mp hid))
  · exact Finset.Subset.refl _

/-- What a received packet does to what is known of the frames, and what is sent for it. -/
structure Receives (q q' : LossNotificationController) (rtpSeqNum : BitVec 16)
    (sent : Option LossMessage) : Prop where
  frameIds : q'.decodableFrameIds ⊆ q.decodableFrameIds
  frame : q'.lastDecodableNonDiscardable = q.lastDecodableNonDiscardable
  names : ∀ d r flag buffering, sent = some (.sendLossNotification d r flag buffering) →
    q.lastDecodableNonDiscardable = some d ∧ r = rtpSeqNum ∧
      q'.lastReceivedSeqNum = some rtpSeqNum ∧ ∀ last ∈ q.lastReceivedSeqNum, rtpSeqNum ≠ last

variable (q)

theorem receives_onReceivedPacket (rtpSeqNum : BitVec 16) (frame : Option FrameDetails) :
    Receives q (q.onReceivedPacket rtpSeqNum frame).1 rtpSeqNum
      (q.onReceivedPacket rtpSeqNum frame).2 := by
  have hsub := pareDown_subset q.decodableFrameIds (2 * 3000) 3000
  unfold onReceivedPacket
  split_ifs with hold
  · exact ⟨Finset.Subset.refl _, rfl, by simp⟩
  · have hnew : ∀ last ∈ q.lastReceivedSeqNum, rtpSeqNum ≠ last := by
      rintro last hlast rfl
      rw [Option.mem_def.mp hlast] at hold
      exact hold (by simp [aheadOf])
    -- whatever is sent names the frame and the packet
    have hloss : ∀ (q' : LossNotificationController) flag d r flag' buffering,
        q'.handleLoss rtpSeqNum flag = .sendLossNotification d r flag' buffering →
          q'.lastDecodableNonDiscardable = some d ∧ r = rtpSeqNum := by
      intro q' flag d r flag' buffering h
      unfold handleLoss at h
      split at h
      · rename_i first hfirst
        cases h
        exact ⟨hfirst, rfl⟩
      · cases h
    cases frame with
    | some frame =>
      dsimp only
      split_ifs
      · exact ⟨hsub, rfl, by simp⟩
      · exact ⟨Finset.empty_subset _, rfl, by simp⟩
      · refine ⟨hsub, rfl, fun d r flag buffering h => ?_⟩
        obtain ⟨hd, hr⟩ := hloss _ _ _ _ _ _ (Option.some.inj h)
        exact ⟨hd, hr, rfl, hnew⟩
      · exact ⟨hsub, rfl, by simp⟩
    | none =>
      dsimp only
      split_ifs
      · refine ⟨hsub, rfl, fun d r flag buffering h => ?_⟩
        obtain ⟨hd, hr⟩ := hloss _ _ _ _ _ _ (Option.some.inj h)
        exact ⟨hd, hr, rfl, hnew⟩
      · exact ⟨hsub, rfl, by simp⟩

theorem perform_cases (c : Call) : ((q.perform c).1.decodableFrameIds ⊆ q.decodableFrameIds ∧
      (q.perform c).1.lastDecodableNonDiscardable = q.lastDecodableNonDiscardable) ∨
    ∃ first frameId dependencies, c = .onAssembledFrame first frameId false dependencies ∧
      (∀ id ∈ dependencies, id ∈ q.decodableFrameIds) ∧
      (q.perform c).1.decodableFrameIds ⊆ insert frameId q.decodableFrameIds ∧
      (q.perform c).1.lastDecodableNonDiscardable = some first := by
  have hsub := pareDown_subset q.decodableFrameIds (2 * 3000) 3000
  cases c with
  | onReceivedPacket rtpSeqNum frame =>
    have h := receives_onReceivedPacket q rtpSeqNum frame
    exact .inl ⟨h.frameIds, h.frame⟩
  | onAssembledFrame first frameId discardable dependencies =>
    rw [perform, onAssembledFrame]
    split_ifs with hdiscardable hmissing
    · exact .inl ⟨hsub, rfl⟩
    · exact .inl ⟨hsub, rfl⟩
    · rw [Bool.not_eq_true] at hdiscardable
      refine .inr ⟨first, frameId, dependencies, by rw [hdiscardable], fun id hid => hsub ?_,
        Finset.insert_subset_insert _ hsub, rfl⟩
      simp only [allDependenciesDecodable, Bool.not_eq_true', Bool.not_eq_false, all_eq_true,
        decide_eq_true_eq] at hmissing
      exact hmissing id hid

theorem after_concat (calls : List Call) (c : Call) :
    q.after (calls ++ [c]) = ((q.after calls).perform c).1 := foldl_concat ..

variable {q}

theorem decodable_of_mem (calls : List Call) :
    ∀ id ∈ (after {} calls).decodableFrameIds, Decodable calls id := by
  induction calls using reverseRecOn with
  | nil => nofun
  | append_singleton calls c ih =>
    intro id hid
    rw [after_concat] at hid
    rcases perform_cases (after {} calls) c with ⟨hsub, -⟩ | ⟨first, _, _, rfl, hall, hsub, -⟩
    · exact (ih id (hsub hid)).append c
    · rcases Finset.mem_insert.mp (hsub hid) with rfl | hold
      · exact .assembled first id (fun d hd => ih d (hall d hd)) []
      · exact (ih id hold).append _

/-- A frame was assembled with decodable dependencies and has been the last such one since. -/
def LastDecodable (before : List Call) (first : BitVec 16) (frameId : Int) (dependencies : List Int)
    (later : List Call) : Prop :=
  (∀ id ∈ dependencies, Decodable before id) ∧
  ∀ calls, calls <+: later → lastDecodableNonDiscardable
    (after {} (before ++ .onAssembledFrame first frameId false dependencies :: calls)) = some first

/-- The named frame is the last decodable one, and behind the received number if that has moved on
by less than half a turn since. -/
def NamesDecodable (calls : List Call) (next : Call) (lastDecoded lastReceived : BitVec 16) : Prop :=
  (∃ before frameId dependencies later,
    calls = before ++ .onAssembledFrame lastDecoded frameId false dependencies :: later ∧
    LastDecodable before lastDecoded frameId dependencies later) ∧
  ∀ before frameId dependencies later,
    calls = before ++ .onAssembledFrame lastDecoded frameId false dependencies :: later →
    (after {} calls).lastReceivedSeqNum ≠ none →
    ((after {} before).lastReceived - lastDecoded).toNat + (after {} before).advance
      (.onAssembledFrame lastDecoded frameId false dependencies :: later ++ [next]) < 2 ^ 15 →
    aheadOf lastReceived lastDecoded = true

theorem exists_assembled {calls : List Call} {first : BitVec 16}
    (h : (after {} calls).lastDecodableNonDiscardable = some first) :
    ∃ before frameId dependencies later,
      calls = before ++ .onAssembledFrame first frameId false dependencies :: later ∧
      LastDecodable before first frameId dependencies later := by
  induction calls using reverseRecOn with
  | nil => cases h
  | append_singleton calls c ih =>
    have hlast := h
    rw [after_concat] at hlast
    rcases perform_cases (after {} calls) c with ⟨-, hkept⟩ | ⟨f, frameId, ds, rfl, hall, -, hnew⟩
    · obtain ⟨before, frameId, ds, later, rfl, hds, hsince⟩ := ih (hkept.symm.trans hlast)
      refine ⟨before, frameId, ds, later ++ [c], by simp, hds, fun calls' hcalls' => ?_⟩
      rcases prefix_concat_iff.mp hcalls' with rfl | hearlier
      · rwa [append_assoc] at h
      · exact hsince calls' hearlier
    · cases hnew.symm.trans hlast
      refine ⟨calls, frameId, ds, [], rfl, fun id hid => decodable_of_mem calls id (hall id hid), ?_⟩
      intro calls' hcalls'
      rwa [prefix_nil.mp hcalls']

/-- Every loss notification of every run names a decodable frame. -/
theorem lossNotification_names {calls : List Call} {rtpSeqNum : BitVec 16}
    {frame : Option FrameDetails} {lastDecoded lastReceived : BitVec 16} {flag buffering : Bool}
    (h : ((after {} calls).onReceivedPacket rtpSeqNum frame).2 =
      some (.sendLossNotification lastDecoded lastReceived flag buffering)) :
    NamesDecodable calls (.onReceivedPacket rtpSeqNum frame) lastDecoded lastReceived := by
  obtain ⟨hnamed, rfl, hnext, hnew⟩ :=
    (receives_onReceivedPacket (after {} calls) rtpSeqNum frame).names _ _ _ _ h
  refine ⟨exists_assembled hnamed, fun before frameId ds later hcalls hsome hless => ?_⟩
  obtain ⟨last, hlast⟩ := Option.ne_none_iff_exists'.mp hsome
  have hrun : (after {} before).after (.onAssembledFrame lastDecoded frameId false ds :: later) =
      after {} calls := by
    rw [hcalls]
    exact (foldl_append ..).symm
  have hmoved := toNat_lastReceived_sub lastDecoded (hless.trans (by decide))
  rw [after_concat, hrun, advance_append, hrun] at hmoved
  rw [advance_append, hrun] at hless
  simp only [perform, advance, LossNotificationController.lastReceived, hnext, hlast,
    Option.getD_some] at hmoved hless
  have hfresh := hnew last hlast
  rw [aheadOf_iff_sub]
  bv_omega

/-- The packet with number 40000 is ahead of 20000 but not of the frame with number 0. -/
theorem lossNotification_overtaken :
    let calls := [.onReceivedPacket 0 (some ⟨true, 0, []⟩), .onAssembledFrame 0 0 false [],
      .onReceivedPacket 20000 none]
    ((after {} calls).onReceivedPacket 40000 none).2 =
        some (.sendLossNotification 0 40000 false true) ∧ aheadOf (40000 : BitVec 16) 0 = false := by
  decide

theorem lossNotification_names_two :
    let calls := [.onReceivedPacket 0 (some ⟨true, 0, []⟩), .onAssembledFrame 0 0 false []]
    ((after {} calls).onReceivedPacket 2 none).2 = some (.sendLossNotification 0 2 false true) ∧
      NamesDecodable calls (.onReceivedPacket 2 none) 0 2 ∧ aheadOf (2 : BitVec 16) 0 = true := by
  intro calls
  have h : NamesDecodable calls (.onReceivedPacket 2 none) 0 2 :=
    @lossNotification_names _ _ _ _ _ false true (by decide)
  exact ⟨by decide, h, h.2 [_] 0 [] [] rfl (by decide) (by decide)⟩

end LossNotificationController

end Video
