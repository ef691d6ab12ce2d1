import WebRtc.Congestion.FeedbackTracker

/-!
# What the feedback tracker reports

In every run of `ReceivedPacket` and `AddPacketsToFeedback` for one SSRC, a report covers
consecutive sequence numbers and says of each what arrived since the report before. The checks in
the loop of `AddPacketsToFeedback` never fail.
-/

namespace Congestion

open Units SequenceNumbers Rtcp Wrapping CongestionControlFeedbackTracker List

namespace CongestionControlFeedbackTracker

abbrev Accepted := Int × RtpPacketReceived

/-- A tracker, and the packets that it has accepted since the last report. -/
structure Session where
  tracker : CongestionControlFeedbackTracker
  accepted : List Accepted

inductive Call where
  | receivedPacket (packet : RtpPacketReceived)
  | addPacketsToFeedback (feedbackTime : Int)

def Call.isOf (ssrc : BitVec 32) : Call → Bool
  | .receivedPacket packet => packet.ssrc = ssrc
  | .addPacketsToFeedback _ => true

namespace Session

def initial : Session := ⟨CongestionControlFeedbackTracker.initial, []⟩

def perform (s : Session) : Call → Option Session
  | .receivedPacket packet =>
    some {
      tracker := s.tracker.receivedPacket packet
      accepted :=
        -- `ReceivedPacket` drops packets once too many wait for a report.
        if s.tracker.packets.length > kMaxPacketsPerSsrc then s.accepted
        else s.accepted ++ [(s.tracker.unwrapper.peekUnwrap packet.sequenceNumber, packet)] }
  | .addPacketsToFeedback feedbackTime =>
    (s.tracker.addPacketsToFeedback feedbackTime).map fun reported => ⟨reported.2, []⟩

end Session

def copiesOf (accepted : List Accepted) (sequenceNumber : Int) : List RtpPacketReceived :=
  (accepted.filter fun e => e.1 = sequenceNumber).map Prod.snd

/-- What a report has to say about the copies of one sequence number. -/
inductive Reports (feedbackTime : Int) (copies : List RtpPacketReceived) (info : PacketInfo) : Prop
  | missing (none : copies = []) (offset : info.arrivalTimeOffset = .minusInfinity)
      (ecn : info.ecn = .notEct)
  | received (first : RtpPacketReceived) (mem : first ∈ copies)
      (earliest : ∀ copy ∈ copies, first.arrivalTime ≤ copy.arrivalTime)
      (offset : info.arrivalTimeOffset = .finite (feedbackTime - first.arrivalTime))
      (ecn : info.ecn = if ∃ copy ∈ copies, copy.ecn = .ce then .ce else first.ecn)

/-- A report on consecutive sequence numbers from `start` on. -/
structure Lawful (ssrc : BitVec 32) (feedbackTime : Int) (accepted : List Accepted) (start : Int)
    (report : List PacketInfo) : Prop where
  length : report.length ≤ 16384
  run : ∀ (i : Nat) (info : PacketInfo), report[i]? = some info →
    info.ssrc = ssrc ∧ info.sequenceNumber = wrap 16 (start + i) ∧
      Reports feedbackTime (copiesOf accepted (start + i)) info
  once : ∀ e ∈ accepted, start ≤ e.1 ∧
    (e.1 < start + 16384 → ∃! i : Nat, i < report.length ∧ start + i = e.1)

def tracked (e : Accepted) : TrackedPacket := ⟨e.2.ssrc, e.1, e.2.arrivalTime, e.2.ecn⟩

namespace Session

structure Inv (ssrc : BitVec 32) (s : Session) : Prop where
  packets : s.tracker.packets = s.accepted.map tracked
  bySsrc : ∀ e ∈ s.accepted, e.2.ssrc = ssrc

variable {ssrc : BitVec 32} {s : Session}

theorem Inv.mem_packets (h : Inv ssrc s) {packet : TrackedPacket} :
    packet ∈ s.tracker.packets ↔ ∃ e ∈ s.accepted, tracked e = packet := by
  rw [h.packets, mem_map]

theorem Inv.ssrc_eq (h : Inv ssrc s) : ∀ packet ∈ s.tracker.packets, packet.ssrc = ssrc := by
  intro packet hmem
  obtain ⟨e, he, rfl⟩ := h.mem_packets.mp hmem
  exact h.bySsrc e he

theorem Inv.perform (h : Inv ssrc s) {call : Call} (hof : call.isOf ssrc = true) :
    ∃ s', s.perform call = some s' ∧ Inv ssrc s' := by
  cases call with
  | receivedPacket packet =>
    refine ⟨_, rfl, ?_⟩
    by_cases hfull : s.tracker.packets.length > kMaxPacketsPerSsrc
    · simp only [receivedPacket, if_pos hfull]
      exact ⟨h.packets, h.bySsrc⟩
    · simp only [receivedPacket, if_neg hfull]
      constructor
      · rw [map_append, ← h.packets]
        rfl
      · exact forall_mem_append.mpr ⟨h.bySsrc, forall_mem_singleton.mpr (of_decide_eq_true hof)⟩
  | addPacketsToFeedback feedbackTime =>
    obtain ⟨next, hreport, hempty⟩ := s.tracker.addPacketsToFeedback_eq feedbackTime h.ssrc_eq
    refine ⟨⟨next, []⟩, ?_, hempty, fun _ he => absurd he not_mem_nil⟩
    rw [Session.perform, hreport]
    rfl

theorem Inv.run : ∀ (calls : List Call) (s : Session), Inv ssrc s →
    (∀ call ∈ calls, call.isOf ssrc = true) →
    ∃ s', calls.foldlM Session.perform s = some s' ∧ Inv ssrc s' := by
  intro calls
  induction calls with
  | nil => exact fun s h _ => ⟨s, rfl, h⟩
  | cons call rest ih =>
    intro s h hof
    obtain ⟨next, hstep, hnext⟩ := h.perform (hof call mem_cons_self)
    obtain ⟨s', hrest, hs'⟩ := ih next hnext (forall_mem_cons.mp hof).2
    refine ⟨s', ?_, hs'⟩
    rw [foldlM_cons, hstep]
    exact hrest

theorem mem_copiesOf {accepted : List Accepted} {sequenceNumber : Int} {copy : RtpPacketReceived} :
    copy ∈ copiesOf accepted sequenceNumber ↔ ∃ e ∈ accepted, e.1 = sequenceNumber ∧ e.2 = copy := by
  simp [copiesOf]

theorem Inv.reports (h : Inv ssrc s) (feedbackTime : Int) (sequenceNumber : Int) :
    Reports feedbackTime (copiesOf s.accepted sequenceNumber)
      (reportOn feedbackTime ssrc s.tracker.sortedPackets sequenceNumber) := by
  by_cases hany : ∃ e ∈ s.accepted, e.1 = sequenceNumber
  · obtain ⟨e, he, rfl⟩ := hany
    obtain ⟨first, hfirst, hseq, hearliest, hoffset, hecn⟩ :=
      reportOn_received feedbackTime ssrc (h.mem_packets.mpr ⟨e, he, rfl⟩)
    obtain ⟨f, hf, rfl⟩ := h.mem_packets.mp hfirst
    refine .received f.2 (mem_copiesOf.mpr ⟨f, hf, hseq, rfl⟩) ?_ hoffset (hecn.trans ?_)
    · intro copy hcopy
      obtain ⟨c, hc, hcseq, rfl⟩ := mem_copiesOf.mp hcopy
      exact hearliest (tracked c) (h.mem_packets.mpr ⟨c, hc, rfl⟩) hcseq
    · refine if_congr ?_ rfl rfl
      constructor
      · rintro ⟨copy, hcopy, hcopySeq, hce⟩
        obtain ⟨c, hc, rfl⟩ := h.mem_packets.mp hcopy
        exact ⟨c.2, mem_copiesOf.mpr ⟨c, hc, hcopySeq, rfl⟩, hce⟩
      · rintro ⟨copy, hcopy, hce⟩
        obtain ⟨c, hc, hcseq, rfl⟩ := mem_copiesOf.mp hcopy
        exact ⟨tracked c, h.mem_packets.mpr ⟨c, hc, rfl⟩, hcseq, hce⟩
  · have hreport : reportOn feedbackTime ssrc s.tracker.sortedPackets sequenceNumber =
        ⟨ssrc, wrap 16 sequenceNumber, .minusInfinity, .notEct⟩ := by
      apply reportOn_missing
      intro packet hpacket hseq
      obtain ⟨e, he, rfl⟩ := h.mem_packets.mp hpacket
      exact hany ⟨e, he, hseq⟩
    rw [hreport]
    refine .missing ?_ rfl rfl
    refine eq_nil_iff_forall_not_mem.mpr fun copy hcopy => ?_
    obtain ⟨e, he, hseq, -⟩ := mem_copiesOf.mp hcopy
    exact hany ⟨e, he, hseq⟩

theorem Inv.lawful (h : Inv ssrc s) (feedbackTime : Int) (nonempty : s.tracker.packets ≠ []) :
    Lawful ssrc feedbackTime s.accepted s.tracker.beginSeq
      (s.tracker.report feedbackTime ssrc) := by
  have hreport : s.tracker.report feedbackTime ssrc = (List.range s.tracker.rounds).map fun i =>
      reportOn feedbackTime ssrc s.tracker.sortedPackets (s.tracker.beginSeq + (i : Nat)) := by
    rw [report, if_neg nonempty]
  have hlength : (s.tracker.report feedbackTime ssrc).length = s.tracker.rounds := by
    rw [hreport, List.length_map, List.length_range]
  constructor
  · rw [hlength]
    exact (rounds_bounds nonempty).2
  · intro i info hinfo
    rw [hreport, List.getElem?_map] at hinfo
    obtain ⟨j, hj, rfl⟩ := Option.map_eq_some_iff.mp hinfo
    obtain ⟨hlt, hget⟩ := List.getElem?_eq_some_iff.mp hj
    rw [List.getElem_range] at hget
    subst hget
    exact ⟨reportOn_ssrc .., reportOn_sequenceNumber .., h.reports feedbackTime _⟩
  · intro e he
    have hmem := h.mem_packets.mpr ⟨e, he, rfl⟩
    have hbegin : s.tracker.beginSeq ≤ e.1 :=
      s.tracker.sorted_from_beginSeq.2 _ ((s.tracker.mem_sortedPackets _).mpr hmem)
    have hend : e.1 ≤ s.tracker.endSeq := le_endSeq hmem
    refine ⟨hbegin, fun hlimit => ⟨(e.1 - s.tracker.beginSeq).toNat, ⟨?_, ?_⟩, ?_⟩⟩
    · rw [hlength, rounds, kMaxPacketsPerSsrc]
      omega
    · omega
    · rintro j ⟨-, hj⟩
      omega

end Session

/-- For every run of calls on one SSRC each call succeeds, and the next report is empty exactly if
no packet was accepted since the last one, and otherwise lawful from `begin_seq` on. -/
theorem reporting_law (ssrc : BitVec 32) (calls : List Call)
    (hof : ∀ call ∈ calls, call.isOf ssrc = true) :
    ∃ s, calls.foldlM Session.perform Session.initial = some s ∧ ∀ feedbackTime, ∃ report next,
        s.tracker.addPacketsToFeedback feedbackTime = some (report, next) ∧
        (report = [] ↔ s.accepted = []) ∧
        (report ≠ [] → Lawful ssrc feedbackTime s.accepted s.tracker.beginSeq report) := by
  obtain ⟨s, hrun, h⟩ := Session.Inv.run calls Session.initial
    ⟨rfl, fun _ he => absurd he not_mem_nil⟩ hof
  refine ⟨s, hrun, fun feedbackTime => ?_⟩
  obtain ⟨next, hreport, -⟩ := s.tracker.addPacketsToFeedback_eq feedbackTime h.ssrc_eq
  refine ⟨_, next, hreport, ?_, ?_⟩
  · have hpackets : s.tracker.packets = [] ↔ s.accepted = [] := by
      rw [h.packets, map_eq_nil_iff]
    rw [← hpackets]
    constructor
    · intro hnil
      by_contra hne
      have hpos := (rounds_bounds hne).1
      rw [report, if_neg hne, map_eq_nil_iff, range_eq_nil] at hnil
      omega
    · intro hnil
      rw [report, if_pos hnil]
  · intro hne
    refine h.lawful feedbackTime fun hnil => hne ?_
    rw [report, if_pos hnil]

/-- Reordering across a report and over the wrap, with a copy that is marked CE. -/
def reordered : List Call :=
  [.receivedPacket ⟨7, 65534, 10, .ect1⟩, .receivedPacket ⟨7, 1, 30, .ect1⟩,
    .addPacketsToFeedback 40, .receivedPacket ⟨7, 65535, 50, .ect1⟩,
    .receivedPacket ⟨7, 2, 60, .ect1⟩, .receivedPacket ⟨7, 2, 55, .ce⟩]

theorem reporting_law_reordered : (∀ call ∈ reordered, call.isOf 7 = true) ∧
    ∃ s, reordered.foldlM Session.perform Session.initial = some s ∧ ∀ feedbackTime, ∃ report next,
        s.tracker.addPacketsToFeedback feedbackTime = some (report, next) ∧
        (report = [] ↔ s.accepted = []) ∧
        (report ≠ [] → Lawful 7 feedbackTime s.accepted s.tracker.beginSeq report) :=
  ⟨by decide, reporting_law 7 reordered (by decide)⟩

end CongestionControlFeedbackTracker

end Congestion
