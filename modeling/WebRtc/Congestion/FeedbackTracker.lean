import WebRtc.Lib.OrdMap
import WebRtc.SequenceNumbers
import WebRtc.Rtcp.CongestionControlFeedback

/-!
# Congestion control feedback tracker

Model of `CongestionControlFeedbackTracker`
(`modules/remote_bitrate_estimator/congestion_control_feedback_tracker.cc`) and of the trackers that
`CongestionControlFeedbackGenerator` keeps for the SSRCs. Times are finite and in microseconds. A
failed `RTC_DCHECK` is `none`.
-/

namespace Congestion

open Units SequenceNumbers Rtcp Wrapping List

/-- The fields of `RtpPacketReceived` that the tracker reads. -/
structure RtpPacketReceived where
  ssrc : BitVec 32
  sequenceNumber : BitVec 16
  arrivalTime : Int
  ecn : EcnMarking
deriving DecidableEq, Repr

/-- `CongestionControlFeedbackTracker::PacketInfo`. -/
structure TrackedPacket where
  ssrc : BitVec 32
  unwrappedSequenceNumber : Int
  arrivalTime : Int
  ecn : EcnMarking
deriving DecidableEq, Repr

/-- The tracker, whose packets all lie past the last feedback. -/
structure CongestionControlFeedbackTracker where
  lastSequenceNumberInFeedback : Option Int
  unwrapper : SeqNumUnwrapper 16
  packets : List TrackedPacket
  pending : ∀ last ∈ lastSequenceNumberInFeedback, ∀ packet ∈ packets,
    last < packet.unwrappedSequenceNumber

variable {t : CongestionControlFeedbackTracker} {packet : TrackedPacket}

namespace CongestionControlFeedbackTracker

variable (feedbackTime : Int) {sequenceNumber : Int} {packets : List TrackedPacket}
  {ssrc : BitVec 32}

def kMaxPacketsPerSsrc : Nat := 16384

def initial : CongestionControlFeedbackTracker where
  lastSequenceNumberInFeedback := none
  unwrapper := SeqNumUnwrapper.initial
  packets := []
  pending := nofun

/-- A packet that was received out of order moves the begin of the next feedback back. -/
def reopen (last : Option Int) (unwrappedSequenceNumber : Int) : Option Int :=
  last.map fun last =>
    if unwrappedSequenceNumber < last + 1 then unwrappedSequenceNumber - 1 else last

variable (t)

def receivedPacket (packet : RtpPacketReceived) : CongestionControlFeedbackTracker :=
  if t.packets.length > kMaxPacketsPerSsrc then t
  else
    { lastSequenceNumberInFeedback :=
        reopen t.lastSequenceNumberInFeedback (t.unwrapper.unwrap packet.sequenceNumber).1
      unwrapper := (t.unwrapper.unwrap packet.sequenceNumber).2
      packets := t.packets ++
        [⟨packet.ssrc, (t.unwrapper.unwrap packet.sequenceNumber).1, packet.arrivalTime,
          packet.ecn⟩]
      pending := by
        intro next hnext other hother
        obtain ⟨last, hlast, rfl⟩ := Option.map_eq_some_iff.mp hnext
        rcases List.mem_append.mp hother with hold | hnew
        · have := t.pending last hlast other hold
          split_ifs <;> omega
        · rw [List.mem_singleton.mp hnew]
          dsimp only
          split_ifs <;> omega }

/-- The order of `AddPacketsToFeedback`: by sequence number, then by arrival time. -/
def Before (a b : TrackedPacket) : Prop :=
  a.unwrappedSequenceNumber < b.unwrappedSequenceNumber ∨
    a.unwrappedSequenceNumber = b.unwrappedSequenceNumber ∧ a.arrivalTime ≤ b.arrivalTime

instance : DecidableRel Before := fun a b =>
  inferInstanceAs (Decidable (a.unwrappedSequenceNumber < b.unwrappedSequenceNumber ∨
    a.unwrappedSequenceNumber = b.unwrappedSequenceNumber ∧ a.arrivalTime ≤ b.arrivalTime))

/-- Skips the other copies of a packet, one of which may turn the marking into CE. -/
def skipDuplicates (sequenceNumber : Int) (ecn : EcnMarking) :
    List TrackedPacket → EcnMarking × List TrackedPacket
  | [] => (ecn, [])
  | packet :: rest =>
    if packet.unwrappedSequenceNumber = sequenceNumber then
      skipDuplicates sequenceNumber (if packet.ecn = .ce then .ce else ecn) rest
    else (ecn, packet :: rest)

/-- The outer loop of `AddPacketsToFeedback`, for the given number of rounds. -/
def reportLoop (feedbackTime : Int) (ssrc : BitVec 32) :
    Nat → Int → List TrackedPacket → Option (List PacketInfo)
  | 0, _, _ => some []
  | _ + 1, _, [] => none
  | n + 1, sequenceNumber, packet :: rest =>
    if ssrc ≠ packet.ssrc then none
    else if sequenceNumber = packet.unwrappedSequenceNumber then
      let (ecn, remaining) := skipDuplicates sequenceNumber packet.ecn rest
      (reportLoop feedbackTime ssrc n (sequenceNumber + 1) remaining).map fun report =>
        ⟨ssrc, wrap 16 sequenceNumber, .finite (feedbackTime - packet.arrivalTime), ecn⟩ :: report
    else
      (reportLoop feedbackTime ssrc n (sequenceNumber + 1) (packet :: rest)).map fun report =>
        ⟨ssrc, wrap 16 sequenceNumber, .minusInfinity, .notEct⟩ :: report

def clear (back : Int) : CongestionControlFeedbackTracker where
  lastSequenceNumberInFeedback := some back
  unwrapper := t.unwrapper
  packets := []
  pending := nofun

/-- `AddPacketsToFeedback`; the packets are appended to the feedback by the caller. -/
def addPacketsToFeedback (feedbackTime : Int) :
    Option (List PacketInfo × CongestionControlFeedbackTracker) :=
  match t.packets.insertionSort Before with
  | [] => some ([], t)
  | first :: rest =>
    let last := t.lastSequenceNumberInFeedback.getD (first.unwrappedSequenceNumber - 1)
    let back := ((first :: rest).getLast (List.cons_ne_nil first rest)).unwrappedSequenceNumber
    let rounds := (min (back - last) kMaxPacketsPerSsrc).toNat
    (reportLoop feedbackTime first.ssrc rounds (last + 1) (first :: rest)).map fun report =>
      (report, t.clear back)

/-- The report on one sequence number: the first copy to arrive, marked CE if any copy is. -/
def reportOn (feedbackTime : Int) (ssrc : BitVec 32) (packets : List TrackedPacket)
    (sequenceNumber : Int) : PacketInfo :=
  match packets.filter fun packet => packet.unwrappedSequenceNumber = sequenceNumber with
  | [] => ⟨ssrc, wrap 16 sequenceNumber, .minusInfinity, .notEct⟩
  | first :: copies =>
    ⟨ssrc, wrap 16 sequenceNumber, .finite (feedbackTime - first.arrivalTime),
      if copies.any fun packet => packet.ecn = .ce then .ce else first.ecn⟩

theorem skipDuplicates_eq (sequenceNumber : Int) (packets : List TrackedPacket) :
    ∀ ecn, skipDuplicates sequenceNumber ecn packets =
      let isCopy := fun packet : TrackedPacket =>
        decide (packet.unwrappedSequenceNumber = sequenceNumber)
      (if (packets.takeWhile isCopy).any fun packet => packet.ecn = .ce then .ce else ecn,
        packets.dropWhile isCopy) := by
  induction packets with
  | nil =>
    intro ecn
    rfl
  | cons packet rest ih =>
    intro ecn
    by_cases hcopy : packet.unwrappedSequenceNumber = sequenceNumber
    · by_cases hce : packet.ecn = .ce <;> simp [skipDuplicates, ih, hcopy, hce]
    · simp [skipDuplicates, hcopy]

def SortedFrom (sequenceNumber : Int) (packets : List TrackedPacket) : Prop :=
  packets.Pairwise Before ∧ ∀ packet ∈ packets, sequenceNumber ≤ packet.unwrappedSequenceNumber

theorem takeWhile_copies (h : SortedFrom sequenceNumber packets) :
    packets.takeWhile (fun packet => packet.unwrappedSequenceNumber = sequenceNumber) =
        packets.filter (fun packet => packet.unwrappedSequenceNumber = sequenceNumber) ∧
      SortedFrom (sequenceNumber + 1)
        (packets.dropWhile fun packet => packet.unwrappedSequenceNumber = sequenceNumber) := by
  induction packets with
  | nil => exact ⟨rfl, h.1, fun packet hmem => nomatch hmem⟩
  | cons packet rest ih =>
    obtain ⟨hsorted, hfrom⟩ := h
    obtain ⟨hhead, htail⟩ := pairwise_cons.mp hsorted
    obtain ⟨htake, hdrop⟩ := ih ⟨htail, (forall_mem_cons.mp hfrom).2⟩
    by_cases hcopy : packet.unwrappedSequenceNumber = sequenceNumber
    · rw [takeWhile_cons_of_pos (by simpa using hcopy), htake,
        filter_cons_of_pos (by simpa using hcopy), dropWhile_cons_of_pos (by simpa using hcopy)]
      exact ⟨rfl, hdrop⟩
    · have hlt := lt_of_le_of_ne (hfrom packet mem_cons_self) (Ne.symm hcopy)
      have hall : ∀ other ∈ packet :: rest, sequenceNumber + 1 ≤ other.unwrappedSequenceNumber := by
        intro other hmem
        rcases mem_cons.mp hmem with rfl | hrest
        · omega
        · rcases hhead other hrest with hbefore | ⟨heq, -⟩ <;> omega
      have hnone : (packet :: rest).filter
          (fun packet => packet.unwrappedSequenceNumber = sequenceNumber) = [] := by
        refine filter_eq_nil_iff.mpr fun other hmem => ?_
        have := hall other hmem
        simp only [decide_eq_true_eq]
        omega
      rw [takeWhile_cons_of_neg (by simpa using hcopy), hnone,
        dropWhile_cons_of_neg (by simpa using hcopy)]
      exact ⟨rfl, hsorted, hall⟩

theorem reportOn_dropWhile (ssrc : BitVec 32) (packets : List TrackedPacket) {later : Int}
    (h : sequenceNumber < later) :
    reportOn feedbackTime ssrc
        (packets.dropWhile fun packet => packet.unwrappedSequenceNumber = sequenceNumber) later =
      reportOn feedbackTime ssrc packets later := by
  have hskipped : (packets.takeWhile fun packet =>
      packet.unwrappedSequenceNumber = sequenceNumber).filter
        (fun packet => packet.unwrappedSequenceNumber = later) = [] := by
    refine filter_eq_nil_iff.mpr fun other hmem => ?_
    have := mem_takeWhile_imp hmem
    simp only [decide_eq_true_eq] at this ⊢
    omega
  conv_rhs => rw [← takeWhile_append_dropWhile
    (p := fun packet : TrackedPacket => packet.unwrappedSequenceNumber = sequenceNumber)
    (l := packets), reportOn, filter_append, hskipped, nil_append]
  rfl

theorem reportLoop_succ (rounds : Nat) (nonempty : packets ≠ [])
    (sorted : SortedFrom sequenceNumber packets) (hssrc : ∀ packet ∈ packets, packet.ssrc = ssrc) :
    reportLoop feedbackTime ssrc (rounds + 1) sequenceNumber packets =
      (reportLoop feedbackTime ssrc rounds (sequenceNumber + 1)
        (packets.dropWhile fun packet => packet.unwrappedSequenceNumber = sequenceNumber)).map
          fun report => reportOn feedbackTime ssrc packets sequenceNumber :: report := by
  obtain ⟨packet, rest, rfl⟩ := exists_cons_of_ne_nil nonempty
  have hsame : ¬ ssrc ≠ packet.ssrc := fun h => h (hssrc packet mem_cons_self).symm
  have hcopies := (takeWhile_copies sorted).1
  rw [reportLoop, if_neg hsame]
  by_cases hcopy : packet.unwrappedSequenceNumber = sequenceNumber
  · have htake := takeWhile_cons_of_pos (p := fun packet : TrackedPacket =>
      decide (packet.unwrappedSequenceNumber = sequenceNumber)) (l := rest)
      (by simpa using hcopy)
    rw [if_pos hcopy.symm, skipDuplicates_eq, reportOn, ← hcopies, htake]
    rw [dropWhile_cons_of_pos (by simpa using hcopy)]
  · have htake := takeWhile_cons_of_neg (p := fun packet : TrackedPacket =>
      decide (packet.unwrappedSequenceNumber = sequenceNumber)) (l := rest)
      (by simpa using hcopy)
    rw [if_neg (Ne.symm hcopy), reportOn, ← hcopies, htake]
    rw [dropWhile_cons_of_neg (by simpa using hcopy)]

theorem reportLoop_eq (ssrc : BitVec 32) (rounds : Nat) :
    ∀ (sequenceNumber : Int) (packets : List TrackedPacket),
      SortedFrom sequenceNumber packets → (∀ packet ∈ packets, packet.ssrc = ssrc) →
      (0 < rounds → ∃ packet ∈ packets,
        sequenceNumber + rounds ≤ packet.unwrappedSequenceNumber + 1) →
      reportLoop feedbackTime ssrc rounds sequenceNumber packets = some ((range rounds).map fun i =>
          reportOn feedbackTime ssrc packets (sequenceNumber + (i : Nat))) := by
  induction rounds with
  | zero =>
    intro sequenceNumber packets _ _ _
    cases packets <;> rfl
  | succ rounds ih =>
    intro sequenceNumber packets sorted hssrc hback
    obtain ⟨back, hmem, hlast⟩ := hback (Nat.succ_pos rounds)
    let remaining := packets.dropWhile fun packet =>
      packet.unwrappedSequenceNumber = sequenceNumber
    -- The last packet stays in front of the iterator as long as rounds remain.
    have hstays : 0 < rounds → back ∈ remaining := by
      intro hpos
      have hsplit : back ∈ packets.takeWhile (fun packet =>
          packet.unwrappedSequenceNumber = sequenceNumber) ++ remaining := by
        rwa [takeWhile_append_dropWhile]
      rcases mem_append.mp hsplit with hcopy | hrest
      · have := mem_takeWhile_imp hcopy
        simp only [decide_eq_true_eq] at this
        omega
      · exact hrest
    have hrest := ih (sequenceNumber + 1) remaining (takeWhile_copies sorted).2
      (fun packet hpacket => hssrc packet ((dropWhile_sublist _).subset hpacket))
      (fun hpos => ⟨back, hstays hpos, by push_cast at hlast; omega⟩)
    rw [reportLoop_succ feedbackTime rounds (ne_nil_of_mem hmem) sorted hssrc, hrest,
      range_succ_eq_map, map_cons, map_map]
    refine congrArg some (congrArg₂ cons (by simp) (map_congr_left fun i _ => ?_))
    rw [reportOn_dropWhile feedbackTime ssrc packets (by omega)]
    exact congrArg _ (by omega)

instance : Std.Total Before where
  total a b := by
    unfold Before
    omega

instance : IsTrans TrackedPacket Before where
  trans a b c := by
    unfold Before
    omega

def sortedPackets : List TrackedPacket :=
  t.packets.insertionSort Before

theorem mem_sortedPackets (packet : TrackedPacket) :
    packet ∈ t.sortedPackets ↔ packet ∈ t.packets :=
  mem_insertionSort Before

def beginSeq : Int :=
  t.lastSequenceNumberInFeedback.getD
    ((t.sortedPackets.head?.map TrackedPacket.unwrappedSequenceNumber).getD 0 - 1) + 1

def endSeq : Int :=
  (t.sortedPackets.getLast?.map TrackedPacket.unwrappedSequenceNumber).getD 0

theorem sorted_from_beginSeq : SortedFrom t.beginSeq t.sortedPackets := by
  have hsorted : t.sortedPackets.Pairwise Before := pairwise_insertionSort Before t.packets
  refine ⟨hsorted, fun packet hmem => ?_⟩
  rw [beginSeq]
  cases hlast : t.lastSequenceNumberInFeedback with
  | some last => exact t.pending last hlast packet ((t.mem_sortedPackets packet).mp hmem)
  | none =>
    obtain ⟨first, rest, hcons⟩ := exists_cons_of_ne_nil (ne_nil_of_mem hmem)
    rw [hcons] at hmem hsorted ⊢
    have hfirst : first.unwrappedSequenceNumber ≤ packet.unwrappedSequenceNumber := by
      rcases mem_cons.mp hmem with rfl | hrest
      · exact le_refl _
      · rcases (pairwise_cons.mp hsorted).1 packet hrest with hlt | ⟨heq, -⟩ <;> omega
    simpa using hfirst

def rounds : Nat :=
  (min (t.endSeq + 1 - t.beginSeq) kMaxPacketsPerSsrc).toNat

def report (feedbackTime : Int) (ssrc : BitVec 32) : List PacketInfo :=
  if t.packets = [] then []
  else (List.range t.rounds).map fun i =>
    reportOn feedbackTime ssrc t.sortedPackets (t.beginSeq + (i : Nat))

variable {t}

theorem le_endSeq (h : packet ∈ t.packets) : packet.unwrappedSequenceNumber ≤ t.endSeq := by
  have hmem := (t.mem_sortedPackets packet).mpr h
  have hne := ne_nil_of_mem hmem
  have hsorted := t.sorted_from_beginSeq.1
  rw [endSeq, getLast?_eq_some_getLast hne, Option.map_some, Option.getD_some]
  rw [← dropLast_append_getLast hne] at hmem hsorted
  rcases mem_append.mp hmem with hinit | hlast
  · rcases (pairwise_append.mp hsorted).2.2 packet hinit _ (mem_singleton_self _)
      with hlt | ⟨heq, -⟩ <;> omega
  · rw [mem_singleton.mp hlast]

/-- The tracker reports without a failed check, and starts over. -/
theorem addPacketsToFeedback_eq (t : CongestionControlFeedbackTracker) (feedbackTime : Int)
    (hssrc : ∀ packet ∈ t.packets, packet.ssrc = ssrc) :
    ∃ next, t.addPacketsToFeedback feedbackTime = some (t.report feedbackTime ssrc, next) ∧
      next.packets = [] := by
  have hfrom := t.sorted_from_beginSeq
  have hmem := t.mem_sortedPackets
  cases hsorted : t.sortedPackets with
  | nil =>
    have hempty : t.packets = [] := by
      refine eq_nil_iff_forall_not_mem.mpr fun packet hpacket => ?_
      have := (hmem packet).mpr hpacket
      rw [hsorted] at this
      cases this
    have hunsorted : t.packets.insertionSort Before = [] := hsorted
    refine ⟨t, ?_, hempty⟩
    rw [addPacketsToFeedback, hunsorted, report, if_pos hempty]
  | cons first rest =>
    have hunsorted : t.packets.insertionSort Before = first :: rest := hsorted
    have hfirst := (hmem first).mp (hsorted ▸ mem_cons_self)
    have hback : ((first :: rest).getLast (cons_ne_nil first rest)) ∈ t.sortedPackets := by
      rw [hsorted]
      exact getLast_mem _
    have hend : ((first :: rest).getLast (cons_ne_nil first rest)).unwrappedSequenceNumber =
        t.endSeq := by
      rw [endSeq, hsorted]
      rfl
    have hbegin : t.lastSequenceNumberInFeedback.getD (first.unwrappedSequenceNumber - 1) + 1 =
        t.beginSeq := by
      rw [beginSeq, hsorted]
      rfl
    have hrounds : (min (t.endSeq - t.lastSequenceNumberInFeedback.getD
        (first.unwrappedSequenceNumber - 1)) kMaxPacketsPerSsrc).toNat = t.rounds := by
      exact congrArg (fun n => (min n (kMaxPacketsPerSsrc : Int)).toNat) (by omega)
    have hloop := reportLoop_eq feedbackTime ssrc t.rounds t.beginSeq t.sortedPackets hfrom
      (fun packet hpacket => hssrc packet ((hmem packet).mp hpacket))
      (fun hpos => ⟨_, hback, by
        omega⟩)
    refine ⟨t.clear t.endSeq, ?_, rfl⟩
    rw [addPacketsToFeedback, hunsorted]
    dsimp only
    rw [hend, hbegin, hrounds, hssrc first hfirst, ← hsorted, hloop, report,
      if_neg (ne_nil_of_mem hfirst)]
    rfl

section

variable (ssrc : BitVec 32) (packets : List TrackedPacket)

@[simp] theorem reportOn_ssrc (sequenceNumber : Int) :
    (reportOn feedbackTime ssrc packets sequenceNumber).ssrc = ssrc := by
  rw [reportOn]
  split <;> rfl

@[simp] theorem reportOn_sequenceNumber (sequenceNumber : Int) :
    (reportOn feedbackTime ssrc packets sequenceNumber).sequenceNumber =
      wrap 16 sequenceNumber := by
  rw [reportOn]
  split <;> rfl

theorem map_range_reportOn (n : Nat) : ∀ sequenceNumber : Int, (range n).map (fun i =>
        reportOn feedbackTime ssrc packets (sequenceNumber + (i : Nat))) =
      CongestionControlFeedback.packetsFrom ssrc (wrap 16 sequenceNumber)
        ((range n).map fun i =>
          ((reportOn feedbackTime ssrc packets (sequenceNumber + (i : Nat))).arrivalTimeOffset,
            (reportOn feedbackTime ssrc packets (sequenceNumber + (i : Nat))).ecn)) := by
  induction n with
  | zero =>
    intro sequenceNumber
    rfl
  | succ n ih =>
    intro sequenceNumber
    have hnext : ∀ i : Nat, sequenceNumber + ((i.succ : Nat) : Int) =
        sequenceNumber + 1 + (i : Nat) := by
      intro i
      omega
    have hwrap : wrap 16 (sequenceNumber + 1) = wrap 16 sequenceNumber + 1 := by
      rw [wrap_add]
      rfl
    simp only [range_succ_eq_map, map_cons, map_map, Function.comp_def, hnext,
      CongestionControlFeedback.packetsFrom, ← hwrap, ih]
    congr 1
    rw [PacketInfo.mk.injEq]
    simp

end

theorem rounds_bounds (nonempty : t.packets ≠ []) : 0 < t.rounds ∧ t.rounds ≤ 16384 := by
  obtain ⟨packet, hmem⟩ := exists_mem_of_ne_nil _ nonempty
  have hbegin := t.sorted_from_beginSeq.2 packet ((t.mem_sortedPackets packet).mpr hmem)
  have hend := le_endSeq hmem
  rw [rounds, kMaxPacketsPerSsrc]
  omega

variable (t)

theorem report_block (feedbackTime : Int) (ssrc : BitVec 32) (nonempty : t.packets ≠ []) :
    ∃ block : CongestionControlFeedback.ReportBlock, block.ssrc = ssrc ∧
      t.report feedbackTime ssrc = block.packets := by
  have hrounds := rounds_bounds nonempty
  refine ⟨⟨ssrc, wrap 16 t.beginSeq, (range t.rounds).map fun i =>
    ((reportOn feedbackTime ssrc t.sortedPackets (t.beginSeq + (i : Nat))).arrivalTimeOffset,
      (reportOn feedbackTime ssrc t.sortedPackets (t.beginSeq + (i : Nat))).ecn), ?_, ?_, ?_⟩,
    rfl, ?_⟩
  · rw [Ne, map_eq_nil_iff, range_eq_nil]
    omega
  · rw [length_map, length_range]
    exact hrounds.2
  · intro info hinfo
    obtain ⟨i, -, rfl⟩ := mem_map.mp hinfo
    rw [reportOn]
    split
    · exact Or.inr ⟨rfl, rfl⟩
    · exact Or.inl rfl
  · rw [report, if_neg nonempty, map_range_reportOn]
    rfl

theorem mem_copies (sequenceNumber : Int) (copy : TrackedPacket) :
    copy ∈ t.sortedPackets.filter (fun other => other.unwrappedSequenceNumber = sequenceNumber) ↔
      copy ∈ t.packets ∧ copy.unwrappedSequenceNumber = sequenceNumber := by
  rw [mem_filter, mem_sortedPackets, decide_eq_true_eq]

variable {t}

/-- A received packet is reported with the offset and the marking of its first copy, or CE if some
copy is marked so. -/
theorem reportOn_received (ssrc : BitVec 32) (h : packet ∈ t.packets) :
    ∃ first ∈ t.packets, first.unwrappedSequenceNumber = packet.unwrappedSequenceNumber ∧
      (∀ copy ∈ t.packets, copy.unwrappedSequenceNumber = packet.unwrappedSequenceNumber →
        first.arrivalTime ≤ copy.arrivalTime) ∧ (reportOn feedbackTime ssrc t.sortedPackets
        packet.unwrappedSequenceNumber).arrivalTimeOffset =
          .finite (feedbackTime - first.arrivalTime) ∧
      (reportOn feedbackTime ssrc t.sortedPackets packet.unwrappedSequenceNumber).ecn =
        if ∃ copy ∈ t.packets, copy.unwrappedSequenceNumber = packet.unwrappedSequenceNumber ∧
          copy.ecn = .ce then .ce else first.ecn := by
  have hcopies := t.mem_copies packet.unwrappedSequenceNumber
  have hsorted := t.sorted_from_beginSeq.1.filter fun other =>
    decide (other.unwrappedSequenceNumber = packet.unwrappedSequenceNumber)
  rw [reportOn]
  cases hfilter : t.sortedPackets.filter (fun other =>
      other.unwrappedSequenceNumber = packet.unwrappedSequenceNumber) with
  | nil =>
    have := (hcopies packet).mpr ⟨h, rfl⟩
    rw [hfilter] at this
    cases this
  | cons first copies =>
    rw [hfilter] at hsorted hcopies
    obtain ⟨hfirst, hseq⟩ := (hcopies first).mp mem_cons_self
    refine ⟨first, hfirst, hseq, fun copy hcopy hcopySeq => ?_, rfl, ?_⟩
    · rcases mem_cons.mp ((hcopies copy).mpr ⟨hcopy, hcopySeq⟩) with rfl | hmem
      · exact le_refl _
      · rcases (pairwise_cons.mp hsorted).1 copy hmem with hlt | ⟨-, hle⟩
        · omega
        · exact hle
    · dsimp only
      split_ifs with hlater hany hany
      · rfl
      · obtain ⟨copy, hmem, hce⟩ := any_eq_true.mp hlater
        obtain ⟨hcopy, hcopySeq⟩ := (hcopies copy).mp (mem_cons_of_mem _ hmem)
        exact absurd ⟨copy, hcopy, hcopySeq, of_decide_eq_true hce⟩ hany
      · -- Only the first copy can be the one that is marked.
        obtain ⟨copy, hcopy, hcopySeq, hce⟩ := hany
        rcases mem_cons.mp ((hcopies copy).mpr ⟨hcopy, hcopySeq⟩) with rfl | hmem
        · exact hce
        · exact absurd (any_eq_true.mpr ⟨copy, hmem, decide_eq_true hce⟩) hlater
      · rfl

theorem reportOn_missing (ssrc : BitVec 32)
    (h : ∀ packet ∈ t.packets, packet.unwrappedSequenceNumber ≠ sequenceNumber) :
    reportOn feedbackTime ssrc t.sortedPackets sequenceNumber =
      ⟨ssrc, wrap 16 sequenceNumber, .minusInfinity, .notEct⟩ := by
  have hnone : t.sortedPackets.filter (fun other =>
      other.unwrappedSequenceNumber = sequenceNumber) = [] := by
    refine eq_nil_iff_forall_not_mem.mpr fun copy hcopy => ?_
    obtain ⟨hmem, hseq⟩ := (t.mem_copies sequenceNumber copy).mp hcopy
    exact h copy hmem hseq
  rw [reportOn, hnone]

end CongestionControlFeedbackTracker

/-- `feedback_trackers_`: each tracker only holds packets of its own SSRC. -/
structure FeedbackTrackers where
  trackers : OrdMap (Fin (2 ^ 32)) CongestionControlFeedbackTracker
  bySsrc : ∀ ssrc tracker, (ssrc, tracker) ∈ trackers.entries →
    ∀ packet ∈ tracker.packets, packet.ssrc = BitVec.ofFin ssrc

namespace FeedbackTrackers

open CongestionControlFeedbackTracker

variable {t : CongestionControlFeedbackTracker}

def initial : FeedbackTrackers where
  trackers := OrdMap.empty
  bySsrc := nofun

theorem ssrc_of_mem_receivedPacket {received : RtpPacketReceived}
    (h : packet ∈ (t.receivedPacket received).packets) :
    packet ∈ t.packets ∨ packet.ssrc = received.ssrc := by
  unfold receivedPacket at h
  split_ifs at h
  · exact Or.inl h
  · rcases mem_append.mp h with hold | hnew
    · exact Or.inl hold
    · rw [mem_singleton.mp hnew]
      exact Or.inr rfl

/-- `feedback_trackers_[packet.Ssrc()].ReceivedPacket(packet)`. -/
def receivedPacket (g : FeedbackTrackers) (packet : RtpPacketReceived) : FeedbackTrackers where
  trackers := (g.trackers.emplace packet.ssrc.toFin CongestionControlFeedbackTracker.initial).modify
    packet.ssrc.toFin fun tracker => tracker.receivedPacket packet
  bySsrc := by
    intro ssrc tracker hmem other hother
    obtain ⟨before, hbefore, hcase⟩ := OrdMap.exists_of_mem_modify _ hmem
    dsimp only at hbefore hcase
    -- A tracker that is new to the map holds no packet yet.
    have hold : ∀ other ∈ before.packets, other.ssrc = BitVec.ofFin ssrc := by
      rcases OrdMap.mem_emplaceEntries hbefore with heq | hmem
      · cases heq
        intro other hother
        cases hother
      · exact g.bySsrc ssrc before hmem
    split_ifs at hcase with hkey
    · subst hcase
      rcases ssrc_of_mem_receivedPacket hother with hmem | hnew
      · exact hold other hmem
      · rw [hnew, hkey]
    · subst hcase
      exact hold other hother

theorem addPacketsToFeedback_packets {next : CongestionControlFeedbackTracker} {feedbackTime : Int}
    {report : List PacketInfo} (h : t.addPacketsToFeedback feedbackTime = some (report, next)) :
    ∀ packet ∈ next.packets, packet ∈ t.packets := by
  unfold addPacketsToFeedback at h
  split at h
  · cases h
    exact fun _ hmem => hmem
  · obtain ⟨report', -, heq⟩ := Option.map_eq_some_iff.mp h
    cases heq
    intro packet hmem
    cases hmem

/-- The feedback of `SendFeedback`: the reports of all trackers in the order of their SSRC. -/
def sendFeedback (g : FeedbackTrackers) (now : Int) (compactNtp : BitVec 32) :
    Option (CongestionControlFeedback × FeedbackTrackers) :=
  match h : g.trackers.visit fun tracker => tracker.addPacketsToFeedback now with
  | none => none
  | some (reports, trackers) =>
    some ({ packets := reports.flatten, reportTimestampCompactNtp := compactNtp },
      { trackers := trackers
        bySsrc := by
          intro ssrc tracker hmem packet hpacket
          obtain ⟨before, report, hbefore, hreport⟩ :=
            OrdMap.mem_visitEntries (OrdMap.visit_eq_some h) hmem
          exact g.bySsrc ssrc before hbefore packet
            (addPacketsToFeedback_packets hreport packet hpacket) })

def reports (g : FeedbackTrackers) (now : Int) : List PacketInfo :=
  g.trackers.entries.flatMap fun e => e.2.report now (BitVec.ofFin e.1)

theorem sendFeedback_eq (g : FeedbackTrackers) (now : Int) (compactNtp : BitVec 32) :
    ∃ next, g.sendFeedback now compactNtp = some
      ({ packets := g.reports now, reportTimestampCompactNtp := compactNtp }, next) := by
  obtain ⟨trackers, hvisit⟩ := OrdMap.visit_ok (m := g.trackers)
    (f := fun tracker => tracker.addPacketsToFeedback now)
    (g := fun e => e.2.report now (BitVec.ofFin e.1)) (fun e hmem => by
      obtain ⟨next, heq, -⟩ := e.2.addPacketsToFeedback_eq now (g.bySsrc e.1 e.2 hmem)
      exact ⟨next, heq⟩)
  unfold sendFeedback
  split
  · rename_i hnone
    rw [hvisit] at hnone
    cases hnone
  · rename_i hsome
    rw [hvisit] at hsome
    cases hsome
    exact ⟨_, rfl⟩

/-- The reports are cut into blocks of pairwise different SSRCs. -/
theorem reports_blocks (now : Int) {l : List (Fin (2 ^ 32) × CongestionControlFeedbackTracker)}
    (sorted : l.Pairwise fun a b => a.1 < b.1) :
    ∃ blocks : List CongestionControlFeedback.ReportBlock,
      blocks.Pairwise (fun a b => a.ssrc ≠ b.ssrc) ∧
      (∀ block ∈ blocks, ∃ e ∈ l, block.ssrc = BitVec.ofFin e.1) ∧
      (l.flatMap fun e => e.2.report now (BitVec.ofFin e.1)) =
        blocks.flatMap CongestionControlFeedback.ReportBlock.packets := by
  induction l with
  | nil => exact ⟨[], List.Pairwise.nil, fun _ hmem => (not_mem_nil hmem).elim, rfl⟩
  | cons e rest ih =>
    obtain ⟨hhead, htail⟩ := pairwise_cons.mp sorted
    obtain ⟨blocks, hne, hfrom, hpackets⟩ := ih htail
    have hfrom' : ∀ block ∈ blocks, ∃ e' ∈ e :: rest, block.ssrc = BitVec.ofFin e'.1 := by
      intro block hmem
      obtain ⟨e', hmem', hssrc⟩ := hfrom block hmem
      exact ⟨e', mem_cons_of_mem _ hmem', hssrc⟩
    by_cases hempty : e.2.packets = []
    · refine ⟨blocks, hne, hfrom', ?_⟩
      rw [flatMap_cons, hpackets, report, if_pos hempty, nil_append]
    · obtain ⟨block, hssrc, hreport⟩ := e.2.report_block now (BitVec.ofFin e.1) hempty
      refine ⟨block :: blocks, pairwise_cons.mpr ⟨fun other hmem => ?_, hne⟩, ?_, ?_⟩
      · obtain ⟨e', hmem', hother⟩ := hfrom other hmem
        rw [hssrc, hother]
        intro heq
        exact (hhead e' hmem').ne (congrArg BitVec.toFin heq)
      · exact forall_mem_cons.mpr ⟨⟨e, mem_cons_self, hssrc⟩, hfrom'⟩
      · rw [flatMap_cons, hpackets, hreport, flatMap_cons]

theorem mem_reports {g : FeedbackTrackers} {ssrc : Fin (2 ^ 32)}
    (htracker : (ssrc, t) ∈ g.trackers.entries) (now : Int) (hpacket : packet ∈ t.packets)
    (hlimit : packet.unwrappedSequenceNumber < t.beginSeq + kMaxPacketsPerSsrc) :
    reportOn now (BitVec.ofFin ssrc) t.sortedPackets packet.unwrappedSequenceNumber ∈
      g.reports now := by
  have hbegin := t.sorted_from_beginSeq.2 packet ((t.mem_sortedPackets packet).mpr hpacket)
  have hend := le_endSeq hpacket
  refine mem_flatMap.mpr ⟨(ssrc, t), htracker, ?_⟩
  dsimp only
  rw [report, if_neg (ne_nil_of_mem hpacket)]
  refine mem_map.mpr ⟨(packet.unwrappedSequenceNumber - t.beginSeq).toNat, ?_, ?_⟩
  · rw [mem_range, rounds]
    omega
  · exact congrArg _ (by omega)

end FeedbackTrackers

end Congestion
