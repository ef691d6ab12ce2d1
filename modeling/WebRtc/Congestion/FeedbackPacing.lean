import WebRtc.Congestion.FeedbackTracker

/-!
# The pace of RFC 8888 feedback

Model of `CongestionControlFeedbackGenerator`, which decides when the trackers report. A feedback
that is sent is a debt that is payed at `kMaxFeedbackRate`. Times are finite and in microseconds.
Products do not overflow.
-/

namespace Congestion

open Rtcp List

/-- The field trial parameters, in the order that `std::clamp` needs. -/
structure FeedbackIntervals where
  minTimeBetweenFeedback : Int := 25000
  maxTimeToWaitForPacketWithMarker : Int := 25000
  maxTimeBetweenFeedback : Int := 500000
  nonneg : 0 ≤ minTimeBetweenFeedback
  ordered : minTimeBetweenFeedback ≤ maxTimeBetweenFeedback

def FeedbackIntervals.clamp (i : FeedbackIntervals) (time : Int) : Int :=
  max i.minTimeBetweenFeedback (min time i.maxTimeBetweenFeedback)

structure CongestionControlFeedbackGenerator where
  intervals : FeedbackIntervals
  sendRateDebt : Int := 0
  feedbackTrackers : FeedbackTrackers := FeedbackTrackers.initial
  lastFeedbackSentTime : Int := 0
  firstArrivalTimeSinceFeedback : Option Int := none
  markerBitSeen : Bool := false
  nextPossibleFeedbackSendTime : Int := 0

namespace CongestionControlFeedbackGenerator

abbrev Sent := List (Int × CongestionControlFeedback)

abbrev Result := Option (Sent × CongestionControlFeedbackGenerator)

def kMaxFeedbackRate : Int := 500000

section

variable (g : CongestionControlFeedbackGenerator)

def calculateNextPossibleSendTime (feedbackSize now : Int) : CongestionControlFeedbackGenerator :=
  let debtPayed := (kMaxFeedbackRate * (now - g.lastFeedbackSentTime) + 4000000).tdiv 8000000
  let debt := (if debtPayed > g.sendRateDebt then 0 else g.sendRateDebt - debtPayed) + feedbackSize
  { g with
    sendRateDebt := debt
    lastFeedbackSentTime := now
    nextPossibleFeedbackSendTime :=
      now + g.intervals.clamp ((debt * 8000000).tdiv kMaxFeedbackRate) }

def nextFeedbackTime (currentTime : Int) : Int :=
  match g.firstArrivalTimeSinceFeedback with
  | none => max (currentTime + g.intervals.minTimeBetweenFeedback) g.nextPossibleFeedbackSendTime
  | some first =>
    if g.markerBitSeen then g.nextPossibleFeedbackSendTime
    else max g.nextPossibleFeedbackSendTime (first + g.intervals.maxTimeToWaitForPacketWithMarker)

-- The clock converts timestamps to NTP times.
variable (compactNtp : Int → BitVec 32)

def sendFeedback (now : Int) : Result :=
  if now < g.nextPossibleFeedbackSendTime then none
  else (g.feedbackTrackers.sendFeedback now (compactNtp now)).map fun r =>
    ([(now, r.1)], calculateNextPossibleSendTime
      { g with
        feedbackTrackers := r.2
        markerBitSeen := false
        firstArrivalTimeSinceFeedback := none } r.1.blockLength now)

/-- The first part of `OnReceivedPacket`. -/
def record (packet : RtpPacketReceived) (marker : Bool) : CongestionControlFeedbackGenerator :=
  { g with
    markerBitSeen := g.markerBitSeen || marker
    firstArrivalTimeSinceFeedback :=
      some (g.firstArrivalTimeSinceFeedback.getD packet.arrivalTime)
    feedbackTrackers := g.feedbackTrackers.receivedPacket packet }

inductive Call where
  | onReceivedPacket (packet : RtpPacketReceived) (marker : Bool) (currentTime : Int)
  | process (now currentTime : Int)

/-- No packet arrives in the future. -/
def Call.arrived : Call → Bool
  | onReceivedPacket packet _ currentTime => packet.arrivalTime ≤ currentTime
  | process .. => true

def perform : Call → Result
  | .onReceivedPacket packet marker currentTime =>
    if (g.record packet marker).nextFeedbackTime currentTime < packet.arrivalTime then
      (g.record packet marker).sendFeedback compactNtp currentTime
    else some ([], g.record packet marker)
  | .process now currentTime =>
    if g.nextFeedbackTime currentTime ≤ now then g.sendFeedback compactNtp now else some ([], g)

def run : CongestionControlFeedbackGenerator → Sent → List Call → Result
  | g, sent, [] => some (sent, g)
  | g, sent, call :: calls =>
    (g.perform compactNtp call).bind fun r => run r.2 (sent ++ r.1) calls

def report (now : Int) : CongestionControlFeedback where
  packets := g.feedbackTrackers.reports now
  reportTimestampCompactNtp := compactNtp now

end

structure Paced (sent : Sent) (g : CongestionControlFeedbackGenerator) (i : FeedbackIntervals) :
    Prop where
  same : g.intervals = i
  spaced : sent.IsChain fun a b => a.1 + i.clamp (16 * a.2.blockLength) ≤ b.1
  next : ∀ last ∈ sent.getLast?,
    last.1 + i.clamp (16 * last.2.blockLength) ≤ g.nextPossibleFeedbackSendTime
  due : g.nextPossibleFeedbackSendTime ≤ g.lastFeedbackSentTime + i.maxTimeBetweenFeedback
  reported : g.firstArrivalTimeSinceFeedback = none →
    ∀ e ∈ g.feedbackTrackers.trackers.entries, e.2.packets = []

variable {i : FeedbackIntervals} {compactNtp : Int → BitVec 32} {sent : Sent} {now : Int}
  {g : CongestionControlFeedbackGenerator}

theorem le_nextPossible (g : CongestionControlFeedbackGenerator) (size now : Int) :
    now + g.intervals.clamp (16 * size) ≤
      (g.calculateNextPossibleSendTime size now).nextPossibleFeedbackSendTime := by
  refine Int.add_le_add_left (max_le_max_left _ (min_le_min_right _ ?_)) now
  rw [kMaxFeedbackRate, show (8000000 : Int) = 16 * 500000 by decide, ← mul_assoc,
    Int.mul_tdiv_cancel _ (by decide)]
  split_ifs <;> omega

theorem nextPossible_le_nextFeedbackTime (currentTime : Int) :
    g.nextPossibleFeedbackSendTime ≤ g.nextFeedbackTime currentTime := by
  unfold nextFeedbackTime
  split
  · exact le_max_right _ _
  · split_ifs
    · exact le_rfl
    · exact le_max_left _ _

theorem packets_of_sendFeedback {trackers next : FeedbackTrackers} {ntp : BitVec 32}
    {feedback : CongestionControlFeedback}
    (h : trackers.sendFeedback now ntp = some (feedback, next)) :
    ∀ e ∈ next.trackers.entries, e.2.packets = [] := by
  unfold FeedbackTrackers.sendFeedback at h
  split at h
  · cases h
  · rename_i hvisit
    cases h
    intro e hmem
    obtain ⟨before, report, hbefore, hreport⟩ :=
      OrdMap.mem_visitEntries (OrdMap.visit_eq_some hvisit) hmem
    obtain ⟨after, heq, hnone⟩ := before.addPacketsToFeedback_eq now (trackers.bySsrc _ _ hbefore)
    cases hreport.symm.trans heq
    exact hnone

theorem Paced.sendFeedback (h : Paced sent g i) (hnow : g.nextPossibleFeedbackSendTime ≤ now) :
    ∃ next, g.sendFeedback compactNtp now = some ([(now, g.report compactNtp now)], next) ∧
      Paced (sent ++ [(now, g.report compactNtp now)]) next i := by
  obtain ⟨trackers, hsend⟩ := g.feedbackTrackers.sendFeedback_eq now (compactNtp now)
  obtain rfl := h.same
  rw [CongestionControlFeedbackGenerator.sendFeedback, if_neg (not_lt.mpr hnow), hsend]
  refine ⟨_, rfl, rfl, ?_, ?_, ?_, fun _ => packets_of_sendFeedback hsend⟩
  · refine isChain_append.mpr ⟨h.spaced, .singleton _, fun last hlast first hfirst => ?_⟩
    cases hfirst
    exact (h.next last hlast).trans hnow
  · intro last hlast
    rw [getLast?_append, getLast?_singleton] at hlast
    cases hlast
    exact le_nextPossible _ _ _
  · exact Int.add_le_add_left (max_le g.intervals.ordered (min_le_right _ _)) now

theorem Paced.perform (h : Paced sent g i) (call : Call) (arrived : call.arrived = true) :
    ∃ more next, g.perform compactNtp call = some (more, next) ∧ Paced (sent ++ more) next i := by
  cases call with
  | onReceivedPacket packet marker currentTime =>
    have hrecord : Paced sent (g.record packet marker) i :=
      ⟨h.same, h.spaced, h.next, h.due, fun hnone => absurd hnone (Option.some_ne_none _)⟩
    rw [CongestionControlFeedbackGenerator.perform]
    split_ifs with hdue
    · obtain ⟨next, heq, hnext⟩ := hrecord.sendFeedback
        ((nextPossible_le_nextFeedbackTime currentTime).trans
          (hdue.le.trans (of_decide_eq_true arrived)))
      exact ⟨_, next, heq, hnext⟩
    · exact ⟨[], _, rfl, by rwa [append_nil]⟩
  | process now currentTime =>
    rw [CongestionControlFeedbackGenerator.perform]
    split_ifs with hdue
    · obtain ⟨next, heq, hnext⟩ := h.sendFeedback
        ((nextPossible_le_nextFeedbackTime currentTime).trans hdue)
      exact ⟨_, next, heq, hnext⟩
    · exact ⟨[], g, rfl, by rwa [append_nil]⟩

theorem Paced.run (h : Paced sent g i) (calls : List Call)
    (arrived : ∀ call ∈ calls, call.arrived = true) :
    ∃ all next, g.run compactNtp sent calls = some (all, next) ∧ Paced all next i := by
  induction calls generalizing g sent with
  | nil => exact ⟨sent, g, rfl, h⟩
  | cons call calls ih =>
    obtain ⟨hcall, hcalls⟩ := forall_mem_cons.mp arrived
    obtain ⟨more, next, heq, hnext⟩ := h.perform call hcall
    rw [CongestionControlFeedbackGenerator.run, heq]
    exact ih hnext hcalls

theorem bytes_le {window : Sent}
    (spaced : window.IsChain fun a b => a.1 + i.clamp (16 * a.2.blockLength) ≤ b.1)
    (small : ∀ f ∈ window, (16 * f.2.blockLength : Int) ≤ i.maxTimeBetweenFeedback) :
    ∀ first ∈ window.head?, ∀ last ∈ window.getLast?,
      (16 * (window.dropLast.map fun f => f.2.blockLength).sum : Int) ≤ last.1 - first.1 := by
  induction window with
  | nil => exact fun first hfirst => absurd hfirst (Option.not_mem_none _)
  | cons a rest ih =>
    intro first hfirst last hlast
    cases hfirst
    cases rest with
    | nil =>
      cases hlast
      simp
    | cons b rest =>
      obtain ⟨hab, hrest⟩ := isChain_cons_cons.mp spaced
      obtain ⟨ha, hsmall⟩ := forall_mem_cons.mp small
      rw [getLast?_cons_cons] at hlast
      have htail := ih hrest hsmall b rfl last hlast
      have hclamp := (le_min le_rfl ha).trans (le_max_right i.minTimeBetweenFeedback _)
      rw [FeedbackIntervals.clamp] at hab
      rw [dropLast_cons_cons, map_cons, sum_cons]
      push_cast at htail ⊢
      omega

/-- The check of `SendFeedback` never fails. A feedback is followed by another one only when it is
payed, so they keep to the rate. When packets wait, the first `Process` behind both limits sends the
reports. -/
theorem feedback_paced (i : FeedbackIntervals) (compactNtp : Int → BitVec 32) (calls : List Call)
    (arrived : ∀ call ∈ calls, call.arrived = true) :
    ∃ sent g, run compactNtp { intervals := i } [] calls = some (sent, g) ∧
      sent.IsChain (fun a b => a.1 + i.clamp (16 * a.2.blockLength) ≤ b.1) ∧
      (∀ window, window <:+: sent →
        (∀ f ∈ window, (16 * f.2.blockLength : Int) ≤ i.maxTimeBetweenFeedback) →
        ∀ first ∈ window.head?, ∀ last ∈ window.getLast?,
          (16 * (window.dropLast.map fun f => f.2.blockLength).sum : Int) ≤ last.1 - first.1) ∧
      ∀ e ∈ g.feedbackTrackers.trackers.entries, e.2.packets ≠ [] →
        ∃ first, g.firstArrivalTimeSinceFeedback = some first ∧ ∀ now currentTime,
          g.lastFeedbackSentTime + i.maxTimeBetweenFeedback ≤ now →
          first + i.maxTimeToWaitForPacketWithMarker ≤ now →
          ∃ next, g.perform compactNtp (.process now currentTime) =
            some ([(now, g.report compactNtp now)], next) := by
  have hinitial : Paced [] { intervals := i } i :=
    ⟨rfl, .nil, fun _ hlast => absurd hlast (Option.not_mem_none _),
      by simpa using i.nonneg.trans i.ordered, fun _ _ he => absurd he not_mem_nil⟩
  obtain ⟨sent, g, hrun, h⟩ := hinitial.run calls arrived
  refine ⟨sent, g, hrun, h.spaced, fun window hwindow => bytes_le <| h.spaced.infix hwindow,
    fun e he hwaits => ?_⟩
  cases hfirst : g.firstArrivalTimeSinceFeedback with
  | none => exact absurd (h.reported hfirst e he) hwaits
  | some first =>
    refine ⟨first, rfl, fun now currentTime hlast hwait => ?_⟩
    have hdue := h.due.trans hlast
    rw [perform, if_pos]
    · obtain ⟨next, heq, -⟩ := h.sendFeedback hdue
      exact ⟨next, heq⟩
    · rw [nextFeedbackTime, hfirst, h.same]
      dsimp only
      split_ifs
      · exact hdue
      · exact max_le hdue hwait

theorem feedback_paced_two_packets :
    let i : FeedbackIntervals := { nonneg := by decide, ordered := by decide }
    let calls : List Call := [.onReceivedPacket ⟨7, 1, 90, .ect1⟩ true 100,
      .onReceivedPacket ⟨7, 2, 200, .ce⟩ false 200, .process 25200 25200]
    ∃ sent g, run (fun _ => 0) { intervals := i } [] calls = some (sent, g) ∧
      sent.IsChain fun a b => a.1 + i.clamp (16 * a.2.blockLength) ≤ b.1 := by
  intro i calls
  obtain ⟨sent, g, hrun, hspaced, -⟩ := feedback_paced i (fun _ => 0) calls (by decide)
  exact ⟨sent, g, hrun, hspaced⟩

end CongestionControlFeedbackGenerator

end Congestion
