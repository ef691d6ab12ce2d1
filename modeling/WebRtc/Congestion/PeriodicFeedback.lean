import WebRtc.Congestion.ArrivalMapRefinement
import WebRtc.Congestion.TransportFeedbackGenerator
import WebRtc.Rtcp.TransportFeedbackConsistency

/-!
# Periodic feedback is complete

The last packet in the map of arrival times was received, in every state that a generator can reach.
Hence the searches for the next received packet end, and a round of periodic feedback reports every
received packet from the begin of its window on, once and in order.
-/

namespace Congestion

open Units SequenceNumbers Wrapping Rtcp ArrivalWindow List
open Option hiding map map_map mem_map

def between (p : Int → Bool) (a b : Int) : List Int :=
  ((List.range (b - a).toNat).map fun k => a + (k : Nat)).filter p

section Between

variable {p : Int → Bool} {a b c : Int}

theorem between_of_le (h : b ≤ a) : between p a b = [] := by
  rw [between, Int.toNat_of_nonpos (by omega)]
  rfl

theorem between_of_lt (h : a < b) :
    between p a b = if p a then a :: between p (a + 1) b else between p (a + 1) b := by
  obtain ⟨n, hn⟩ : ∃ n, (b - a).toNat = n + 1 := ⟨(b - a).toNat - 1, by omega⟩
  have hrest : (b - (a + 1)).toNat = n := by omega
  have hshift : ∀ k : Nat, a + ((k + 1 : Nat) : Int) = a + 1 + (k : Nat) := by
    intro k
    omega
  rw [between, between, hn, hrest, range_succ_eq_map, map_cons, map_map, filter_cons]
  simp only [Function.comp_def, hshift, Nat.cast_zero, add_zero]

theorem between_skip (hle : a ≤ c) (hnone : ∀ j, a ≤ j → j < c → p j = false) :
    between p a b = between p c b := by
  induction c, hle using Int.leInduction with
  | base => rfl
  | succ c hle ih =>
    rw [ih fun j hj hj' => hnone j hj (by omega)]
    by_cases hcb : c < b
    · rw [between_of_lt hcb, hnone c hle (lt_add_one c), if_neg Bool.false_ne_true]
    · rw [between_of_le (by omega), between_of_le (by omega)]

theorem mem_between : c ∈ between p a b ↔ a ≤ c ∧ c < b ∧ p c = true := by
  simp only [between, mem_filter, mem_map, mem_range]
  constructor
  · rintro ⟨⟨k, hk, rfl⟩, hp⟩
    exact ⟨by omega, by omega, hp⟩
  · rintro ⟨ha, hb, hp⟩
    exact ⟨⟨(c - a).toNat, by omega, by omega⟩, hp⟩

end Between

namespace TransportFeedbackGenerator

open PacketArrivalTimeMap TransportFeedback

variable {g : TransportFeedbackGenerator} {w : ArrivalWindow}

def UnderConstruction (fb : TransportFeedback) : Prop := ∃ pieces last, Built fb pieces last

def reportedNumbers (fb : TransportFeedback) : List (BitVec 16) :=
  fb.receivedPackets.map ReceivedPacket.sequenceNumber

theorem addReceivedPacket_reports {fb : TransportFeedback} (h : UnderConstruction fb)
    (sequenceNumber : BitVec 16) (timestamp : Nat) :
    ∃ ok next, fb.addReceivedPacket sequenceNumber timestamp = some (ok, next) ∧
      UnderConstruction next ∧
      reportedNumbers next = reportedNumbers fb ++ if ok then [sequenceNumber] else [] := by
  obtain ⟨pieces, last, hbuilt⟩ := h
  obtain ⟨⟨ok, next⟩, hadd, ⟨-, -, -, -, hrefused, hadded⟩, hnext⟩ :=
    addReceivedPacket_built hbuilt sequenceNumber timestamp
  refine ⟨ok, next, hadd, hnext, ?_⟩
  cases ok with
  | false =>
    rw [reportedNumbers, hrefused rfl]
    exact (append_nil _).symm
  | true =>
    obtain ⟨delta, hpackets⟩ := hadded rfl
    rw [reportedNumbers, hpackets, map_append]
    rfl

theorem newFeedback_accepts (g : TransportFeedbackGenerator) (includeTimestamps : Bool)
    {start seq : Int} (hle : start ≤ seq) (arrivalTime : Timestamp) :
    ∃ next, (g.newFeedback includeTimestamps (max start (seq - kMaxMissingSequenceNumbers))
        arrivalTime).addReceivedPacket (wrap 16 seq) (microseconds arrivalTime) =
          some (true, next) ∧ UnderConstruction next ∧ reportedNumbers next = [wrap 16 seq] := by
  have hwrap : wrap 16 seq = wrap 16 (max start (seq - 0x7FFE)) +
      BitVec.ofNat 16 (seq - max start (seq - 0x7FFE)).toNat := by
    have hsum : seq = max start (seq - 0x7FFE) +
        ((seq - max start (seq - 0x7FFE)).toNat : Nat) := by omega
    conv_lhs => rw [hsum, wrap_add]
    rw [wrap, wrap, BitVec.ofInt_natCast]
  have h := built_setBase includeTimestamps (wrap 16 (max start (seq - 0x7FFE)))
    (microseconds arrivalTime) g.feedbackPacketCount
  have hbuilt : UnderConstruction
      (g.newFeedback includeTimestamps (max start (seq - 0x7FFE)) arrivalTime) :=
    ⟨[], [], { h.packed with }, h.received, h.time, h.ticks, h.untimed⟩
  obtain ⟨ok, next, hadd, hnext, hreported⟩ :=
    addReceivedPacket_reports hbuilt (wrap 16 seq) (microseconds arrivalTime)
  obtain ⟨pieces, last, hbuilt⟩ := hbuilt
  have hnear : (seq - max start (seq - 0x7FFE)).toNat ≤ 0x7FFE := by omega
  obtain ⟨next', haccepted⟩ := addReceivedPacket_base hbuilt rfl rfl rfl rfl hnear
  have hseq : (g.newFeedback includeTimestamps (max start (seq - 0x7FFE)) arrivalTime).baseSeqNo +
      BitVec.ofNat 16 (seq - max start (seq - 0x7FFE)).toNat = wrap 16 seq := hwrap.symm
  rw [hseq, hadd] at haccepted
  cases haccepted
  exact ⟨next, hadd, hnext, hreported⟩

section Building

variable {endSeq : Int}

section

variable (h : Refines g.packetArrivalTimes w) (hlast : w.hasReceived (w.last - 1) = true)
  (hend : endSeq ≤ w.last) (includeTimestamps : Bool)
include h hlast hend

theorem buildLoop_some (start : Int) :
    ∀ (fuel : Nat) (seq : Int) (fb : TransportFeedback) (next : Int), w.first ≤ seq →
      seq ≤ endSeq → endSeq < seq + fuel → UnderConstruction fb → next ≤ seq →
      between w.hasReceived next endSeq = between w.hasReceived seq endSeq →
      ∃ fb' next' reported, g.buildLoop includeTimestamps start endSeq fuel seq ⟨some fb, next⟩ =
          some ⟨some fb', next'⟩ ∧
        reportedNumbers fb' = reportedNumbers fb ++ reported.map (wrap 16) ∧
        between w.hasReceived next endSeq = reported ++ between w.hasReceived next' endSeq ∧
        next ≤ next' ∧ next' ≤ endSeq := by
  intro fuel
  induction fuel with
  | zero =>
    intro seq fb next _ hseq henough
    omega
  | succ fuel ih =>
    intro seq fb next hfirst hseq henough hfb hnext hskip
    have hstay : ∀ fb', reportedNumbers fb' = reportedNumbers fb →
        reportedNumbers fb' = reportedNumbers fb ++ ([] : List Int).map (wrap 16) := by
      intro fb' hsame
      rw [hsame, map_nil, append_nil]
    rw [buildLoop]
    by_cases hloop : seq < endSeq
    · obtain ⟨found, hle, hlt, hfound, hnone, hfind⟩ :=
        h.findNextAtOrAfter hlast hfirst (by omega)
      rw [if_pos hloop, hfind, bind_some]
      dsimp only
      rw [between_skip hle hnone] at hskip
      split_ifs with hpast
      · exact ⟨fb, next, [], rfl, hstay fb rfl, rfl, le_rfl, by omega⟩
      · rw [between_of_lt (not_le.mp hpast), hfound] at hskip
        obtain ⟨ok, fb', hadd, hfb', hreported⟩ :=
          addReceivedPacket_reports hfb (wrap 16 found) (microseconds (w.get found))
        rw [hadd]
        cases ok with
        | false =>
          refine ⟨fb', next, [], rfl, hstay fb' ?_, rfl, le_rfl, by omega⟩
          rw [hreported, if_neg Bool.false_ne_true, append_nil]
        | true =>
          obtain ⟨fb'', next', reported, hrest, hreported', hbetween, hle', hnext'⟩ :=
            ih (found + 1) fb' (found + 1) (by omega) (by omega) (by omega) hfb' le_rfl rfl
          refine ⟨fb'', next', found :: reported, hrest, ?_, ?_, by omega, hnext'⟩
          · rw [hreported', hreported, append_assoc]
            rfl
          · rw [hskip, hbetween]
            rfl
    · rw [if_neg hloop]
      exact ⟨fb, next, [], rfl, hstay fb rfl, rfl, le_rfl, by omega⟩

theorem buildLoop_none {start seq : Int} {fuel : Nat} (hfirst : w.first ≤ seq)
    (hstart : seq < endSeq → start ≤ seq) (henough : endSeq < seq + fuel) (hfuel : 0 < fuel)
    (hskip : between w.hasReceived start endSeq = between w.hasReceived seq endSeq) :
    (g.buildLoop includeTimestamps start endSeq fuel seq ⟨none, start⟩ = some ⟨none, start⟩ ∧
      between w.hasReceived start endSeq = []) ∨
    ∃ fb next reported, g.buildLoop includeTimestamps start endSeq fuel seq ⟨none, start⟩ =
        some ⟨some fb, next⟩ ∧ reportedNumbers fb = reported.map (wrap 16) ∧
      between w.hasReceived start endSeq = reported ++ between w.hasReceived next endSeq ∧
      start < next ∧ next ≤ endSeq := by
  obtain ⟨fuel, rfl⟩ : ∃ n, fuel = n + 1 := ⟨fuel - 1, by omega⟩
  rw [buildLoop]
  by_cases hloop : seq < endSeq
  · obtain ⟨found, hle, hlt, hfound, hnone, hfind⟩ :=
      h.findNextAtOrAfter hlast hfirst (by omega)
    rw [if_pos hloop, hfind, bind_some]
    dsimp only
    rw [between_skip hle hnone] at hskip
    split_ifs with hpast
    · exact Or.inl ⟨rfl, hskip.trans (between_of_le hpast)⟩
    · rw [between_of_lt (not_le.mp hpast), hfound] at hskip
      have hbase := hstart hloop
      obtain ⟨fb, hadd, hfb, hreported⟩ :=
        g.newFeedback_accepts includeTimestamps (hbase.trans hle) (w.get found)
      rw [hadd]
      obtain ⟨fb', next, reported, hrest, hreported', hbetween, hnext, hnext'⟩ :=
        buildLoop_some h hlast hend includeTimestamps start fuel (found + 1) fb (found + 1)
          (by omega) (by omega) (by omega) hfb le_rfl rfl
      refine Or.inr ⟨fb', next, found :: reported, hrest, ?_, ?_, by omega, hnext'⟩
      · rw [hreported', hreported]
        rfl
      · rw [hskip, hbetween]
        rfl
  · rw [if_neg hloop]
    exact Or.inl ⟨rfl, hskip.trans (between_of_le (not_lt.mp hloop))⟩

end

end Building

/-- The begin of the window may lie before the packets in the map. -/
theorem between_clamp (h : Refines g.packetArrivalTimes w) (start endSeq : Int)
    (hend : endSeq ≤ w.last) :
    between w.hasReceived start endSeq =
      between w.hasReceived (max w.first (min start w.last)) endSeq := by
  by_cases hafter : start < w.last
  · refine between_skip (by omega) ?_
    intro j hj hj'
    rw [ArrivalWindow.hasReceived]
    cases htime : w.times j with
    | none => rfl
    | some t =>
      have := h.inside j t htime
      omega
  · rw [between_of_le (by omega), between_of_le (by omega)]

theorem maybeBuildFeedbackPacket_spec (h : Refines g.packetArrivalTimes w)
    (hlast : w.hasReceived (w.last - 1) = true) (includeTimestamps : Bool) {start last : Int}
    (hlt : start < last) (isPeriodicUpdate : Bool) :
    ∃ feedbackPacket next count reported,
      g.maybeBuildFeedbackPacket includeTimestamps start last isPeriodicUpdate =
        some (feedbackPacket, { g with
          feedbackPacketCount := count
          periodicWindowStartSeq :=
            if isPeriodicUpdate then some next else g.periodicWindowStartSeq }) ∧
      between w.hasReceived start (g.packetArrivalTimes.clamp last) =
        reported ++ between w.hasReceived next (g.packetArrivalTimes.clamp last) ∧
      ((feedbackPacket = none ∧ reported = [] ∧ next = start ∧
          between w.hasReceived start (g.packetArrivalTimes.clamp last) = []) ∨
        ∃ fb, feedbackPacket = some fb ∧ reportedNumbers fb = reported.map (wrap 16) ∧
          start < next ∧ next ≤ g.packetArrivalTimes.clamp last) := by
  have hordered := h.ordered
  have hend : g.packetArrivalTimes.clamp last ≤ w.last := by
    rw [h.clamp_eq]
    omega
  have hclamp := h.clamp_eq start
  have hskip := between_clamp h start (g.packetArrivalTimes.clamp last) hend
  rw [← hclamp] at hskip
  rw [maybeBuildFeedbackPacket, if_pos hlt]
  dsimp only
  have hfirst : w.first ≤ g.packetArrivalTimes.clamp start := by omega
  rcases buildLoop_none h hlast hend includeTimestamps hfirst (by omega) (by omega)
      (Nat.succ_pos (g.packetArrivalTimes.clamp last - g.packetArrivalTimes.clamp start).toNat)
      hskip with
    ⟨hbuild, hnothing⟩ | ⟨fb, next, reported, hbuild, hreported, hbetween, hnext, hnext'⟩
  · rw [hbuild]
    exact ⟨none, start, _, [], rfl, rfl, Or.inl ⟨rfl, rfl, rfl, hnothing⟩⟩
  · rw [hbuild]
    exact ⟨some fb, next, _, reported, rfl, hbetween, Or.inr ⟨fb, rfl, hreported, hnext, hnext'⟩⟩

theorem sendLoop_spec (hlast : w.hasReceived (w.last - 1) = true) :
    ∀ (fuel : Nat) (g : TransportFeedbackGenerator) (start : Int),
      Refines g.packetArrivalTimes w → g.periodicWindowStartSeq = some start → start ≤ w.last →
      w.last < start + fuel → ∃ feedbacks count, sendLoop w.last fuel g = some (feedbacks, { g with
          feedbackPacketCount := count
          periodicWindowStartSeq := some w.last }) ∧ feedbacks.flatMap reportedNumbers =
          (between w.hasReceived start w.last).map (wrap 16) := by
  intro fuel
  induction fuel with
  | zero =>
    intro g start _ _ hle henough
    omega
  | succ fuel ih =>
    intro g start h hstart hle henough
    have hordered := h.ordered
    have hclamp : g.packetArrivalTimes.clamp w.last = w.last := by
      rw [h.clamp_eq]
      omega
    rw [sendLoop, hstart]
    dsimp only
    by_cases hloop : start < w.last
    · obtain ⟨feedbackPacket, next, count, reported, hbuild, hbetween, hcases⟩ :=
        maybeBuildFeedbackPacket_spec h hlast true hloop true
      rw [hclamp] at hbetween hcases
      rw [if_pos hloop, hbuild, bind_some]
      rcases hcases with ⟨-, -, -, hnothing⟩ | ⟨fb, rfl, hreported, hnext, hnext'⟩
      · -- The last packet is always left to report.
        have hmem : w.last - 1 ∈ between w.hasReceived start w.last :=
          mem_between.mpr ⟨by omega, by omega, hlast⟩
        rw [hnothing] at hmem
        cases hmem
      · obtain ⟨rest, count', hrest, hnumbers⟩ := ih { g with
          feedbackPacketCount := count
          periodicWindowStartSeq := some next } next h rfl hnext' (by omega)
        rw [if_pos rfl, hrest]
        refine ⟨fb :: rest, count', rfl, ?_⟩
        rw [flatMap_cons, hreported, hnumbers, hbetween, map_append]
    · obtain rfl : start = w.last := by omega
      rw [if_neg hloop]
      refine ⟨[], g.feedbackPacketCount, ?_, ?_⟩
      · rw [← hstart]
      · rw [between_of_le le_rfl]
        rfl

/-- What holds of a generator between two calls, where `w` is the plain map. -/
structure Sound (g : TransportFeedbackGenerator) (w : ArrivalWindow) : Prop where
  map : Refines g.packetArrivalTimes w
  last : w.seen = true → w.hasReceived (w.last - 1) = true
  unset : w.seen = false → g.periodicWindowStartSeq = none
  start : w.seen = true → ∃ start, g.periodicWindowStartSeq = some start ∧ start ≤ w.last

theorem Sound.sendPeriodicFeedbacks (h : Sound g w) :
    ∃ feedbacks count, g.sendPeriodicFeedbacks = some (feedbacks, { g with
        feedbackPacketCount := count
        periodicWindowStartSeq := g.periodicWindowStartSeq.map fun _ => w.last }) ∧
      feedbacks.flatMap reportedNumbers = (g.periodicWindowStartSeq.elim [] fun start =>
        (between w.hasReceived start w.last).map (wrap 16)) := by
  cases hseen : w.seen with
  | false =>
    have hunset := h.unset hseen
    refine ⟨[], g.feedbackPacketCount, ?_, ?_⟩
    · have hround : g.sendPeriodicFeedbacks = some ([], g) := by
        rw [TransportFeedbackGenerator.sendPeriodicFeedbacks, hunset]
      rw [hround, hunset, map_none, ← hunset]
    · rw [hunset]
      rfl
  | true =>
    obtain ⟨start, hstart, hle⟩ := h.start hseen
    obtain ⟨feedbacks, count, hloop, hnumbers⟩ := sendLoop_spec (h.last hseen)
      ((w.last - start).toNat + 1) g start h.map hstart hle (by omega)
    rw [TransportFeedbackGenerator.sendPeriodicFeedbacks, hstart]
    dsimp only
    rw [h.map.last, hloop]
    exact ⟨feedbacks, count, rfl, hnumbers⟩

theorem Sound.process (h : Sound g w) (now : Timestamp) :
    ∃ feedbacks g', g.process now = some (feedbacks, g') ∧ Sound g' w := by
  rw [TransportFeedbackGenerator.process]
  split_ifs
  · have hnow : Sound { g with lastProcessTime := now } w := { h with }
    obtain ⟨feedbacks, count, hsend, -⟩ := hnow.sendPeriodicFeedbacks
    refine ⟨feedbacks, _, hsend, h.map, h.last, ?_, ?_⟩
    · intro hseen
      rw [h.unset hseen]
      rfl
    · intro hseen
      obtain ⟨start, hstart, -⟩ := h.start hseen
      refine ⟨w.last, ?_, le_rfl⟩
      rw [hstart]
      rfl
  · exact ⟨[], g, rfl, h⟩

/-- While a packet is processed: if the map was emptied for it, it goes to the end. -/
structure Receiving (seq : Int) (g : TransportFeedbackGenerator) (w : ArrivalWindow) : Prop where
  map : Refines g.packetArrivalTimes w
  last : w.seen = true → w.hasReceived (w.last - 1) = true ∨ w.last ≤ seq
  unset : w.seen = false → ∀ start ∈ g.periodicWindowStartSeq, start = seq
  start : w.seen = true → ∃ start, g.periodicWindowStartSeq = some start ∧ start ≤ w.last

theorem Sound.receiving (h : Sound g w) (seq : Int) : Receiving seq g w where
  map := h.map
  last hseen := Or.inl (h.last hseen)
  unset := by
    intro hseen start hstart
    rw [h.unset hseen] at hstart
    cases hstart
  start := h.start

/-- Old packets are removed up to the packet that has arrived. -/
theorem Receiving.removeOld {seq : Int} (h : Receiving seq g w)
    (hlast : w.seen = true → w.hasReceived (w.last - 1) = true) (limit : Timestamp) :
    ∃ m, g.packetArrivalTimes.removeOldPackets seq limit = some m ∧
      Receiving seq { g with packetArrivalTimes := m } (w.removeOld seq limit) := by
  obtain ⟨m, hremove, hm⟩ := h.map.removeOldPackets seq limit
  refine ⟨m, hremove, hm, ?_, h.unset, h.start⟩
  intro hseen
  by_cases hend : w.last ≤ seq
  · exact Or.inr hend
  · left
    have hbounds := le_firstKept (fun j => (w.times j).all fun t => t ≤ limit)
      (min seq w.last - w.first).toNat w.first
    have hin : w.first < w.last := by
      have hreceived := hlast hseen
      obtain ⟨t, htime⟩ := isSome_iff_exists.mp hreceived
      have := h.map.inside _ t htime
      omega
    refine (hasReceived_dropTo ?_).trans (hlast hseen)
    show _ ≤ w.last - 1
    omega

theorem Sound.notePeriodic (h : Sound g w) (seq : Int) (arrivalTime : Nat) :
    ∃ g' w', g.notePeriodic seq arrivalTime = some g' ∧ Receiving seq g' w' := by
  have hreceiving := h.receiving seq
  rw [TransportFeedbackGenerator.notePeriodic]
  split_ifs
  · have hcull : ∃ g' w', g.maybeCullOldPackets seq arrivalTime = some g' ∧
        Receiving seq g' w' := by
      rw [maybeCullOldPackets]
      split_ifs
      · obtain ⟨m, hremove, hm⟩ := hreceiving.removeOld h.last (.finite arrivalTime - kBackWindow)
        rw [hremove]
        exact ⟨_, _, rfl, hm⟩
      · exact ⟨g, w, rfl, hreceiving⟩
    obtain ⟨g', w', hculled, hg'⟩ := hcull
    rw [hculled]
    refine ⟨_, w', rfl, ?_⟩
    dsimp only
    split_ifs with hearlier
    · refine ⟨hg'.map, hg'.last, ?_, ?_⟩
      · intro _ start hstart
        cases hstart
        rfl
      · intro hseen
        obtain ⟨start, hstart, hle⟩ := hg'.start hseen
        rw [hstart] at hearlier
        have := of_decide_eq_true hearlier
        exact ⟨seq, rfl, by omega⟩
    · exact hg'
  · exact ⟨g, w, rfl, hreceiving⟩

theorem Receiving.recordArrival {seq : Int} (h : Receiving seq g w) (arrivalTime : Nat) :
    ∃ w', Sound (g.recordArrival seq arrivalTime) w' ∧ w'.seen = true ∧ seq < w'.last := by
  have hnonneg := (UnitBase.finite_le_finite _ _).mpr (Int.natCast_nonneg arrivalTime)
  have hadd := h.map.add seq hnonneg
  obtain ⟨hseen, hgrown, hin, hlast⟩ :=
    add_last seq (.finite arrivalTime) h.last h.map.ordered
  refine ⟨_, ⟨hadd, fun _ => hlast, fun hfalse => ?_, fun _ => ?_⟩, hseen, hin⟩
  · exact Bool.noConfusion (hseen.symm.trans hfalse)
  · rw [TransportFeedbackGenerator.recordArrival]
    split_ifs with hbegin
    · exact ⟨_, rfl, hadd.first.trans_le hadd.ordered⟩
    · cases hstart : g.periodicWindowStartSeq with
      | none =>
        rw [hstart] at hbegin
        exact absurd rfl hbegin
      | some start =>
        refine ⟨start, rfl, ?_⟩
        cases hbefore : w.seen with
        | false =>
          rw [h.unset hbefore start hstart]
          exact hin.le
        | true =>
          obtain ⟨start', hstart', hle⟩ := h.start hbefore
          rw [hstart] at hstart'
          cases hstart'
          exact hle.trans (hgrown hbefore)

theorem Sound.sendFeedbackOnRequest (h : Sound g w) (hseen : w.seen = true) {seq : Int}
    (hin : seq < w.last) (request : FeedbackRequest) :
    ∃ feedbacks g' w', g.sendFeedbackOnRequest seq request = some (feedbacks, g') ∧
      Sound g' w' := by
  rw [TransportFeedbackGenerator.sendFeedbackOnRequest]
  split_ifs with hcount
  · exact ⟨[], g, w, rfl, h⟩
  · have hfirst : seq - request.sequenceCount + 1 < seq + 1 := by omega
    obtain ⟨feedbackPacket, next, count, reported, hbuild, -, -⟩ :=
      maybeBuildFeedbackPacket_spec h.map (h.last hseen) request.includeTimestamps hfirst false
    dsimp only
    rw [hbuild]
    have hkept : Sound { g with
        feedbackPacketCount := count
        periodicWindowStartSeq := g.periodicWindowStartSeq } w :=
      { h with }
    cases feedbackPacket with
    | none => exact ⟨_, _, w, rfl, hkept⟩
    | some feedbackPacket =>
      refine ⟨_, _, w.erase (seq - request.sequenceCount + 1), rfl, ?_, ?_, h.unset, h.start⟩
      · exact h.map.eraseTo _
      · intro _
        refine (hasReceived_dropTo ?_).trans (h.last hseen)
        obtain ⟨t, htime⟩ := isSome_iff_exists.mp (h.last hseen)
        have := h.map.inside _ t htime
        show _ ≤ w.last - 1
        omega

theorem Sound.onReceivedPacket (h : Sound g w) (packet : SequencedPacket) :
    ∃ feedbacks g' w', g.onReceivedPacket packet = some (feedbacks, g') ∧ Sound g' w' := by
  rw [TransportFeedbackGenerator.onReceivedPacket]
  cases packet.arrivalTime with
  | none => exact ⟨[], g, w, rfl, h⟩
  | some arrivalTime =>
    dsimp only
    generalize (g.unwrapper.unwrap packet.transportSequenceNumber).1 = seq
    generalize (g.unwrapper.unwrap packet.transportSequenceNumber).2 = unwrapper
    have hpacket : Sound { g with
        sendPeriodicFeedback := packet.periodic
        mediaSsrc := packet.ssrc
        unwrapper := unwrapper } w := { h with }
    obtain ⟨g', w', hnoted, hg'⟩ := hpacket.notePeriodic seq arrivalTime
    rw [hnoted, bind_some]
    split_ifs with hreceived
    · rw [hg'.map.hasReceived_eq] at hreceived
      obtain ⟨t, htime⟩ := isSome_iff_exists.mp hreceived
      have hin := hg'.map.inside _ t htime
      have hseen := hg'.map.seen_of_lt (by omega)
      refine ⟨[], g', w', rfl, hg'.map, fun _ => ?_, fun hfalse => ?_, hg'.start⟩
      · exact (hg'.last hseen).resolve_right (by omega)
      · exact Bool.noConfusion (hseen.symm.trans hfalse)
    · obtain ⟨w'', hrecorded, hseen, hin⟩ := hg'.recordArrival arrivalTime
      cases packet.feedbackRequest with
      | none => exact ⟨[], _, w'', rfl, hrecorded⟩
      | some request =>
        exact hrecorded.sendFeedbackOnRequest hseen hin request

theorem Sound.perform (h : Sound g w) (call : Call) :
    ∃ g' w', g.perform call = some g' ∧ Sound g' w' := by
  cases call with
  | onReceivedPacket packet =>
    obtain ⟨feedbacks, g', w', hreceived, hg'⟩ := h.onReceivedPacket packet
    refine ⟨g', w', ?_, hg'⟩
    rw [TransportFeedbackGenerator.perform, hreceived]
    rfl
  | process now =>
    obtain ⟨feedbacks, g', hprocessed, hg'⟩ := h.process now
    refine ⟨g', w, ?_, hg'⟩
    rw [TransportFeedbackGenerator.perform, hprocessed]
    rfl
  | setSendInterval sendInterval => exact ⟨_, w, rfl, h.map, h.last, h.unset, h.start⟩

theorem Sound.run (h : Sound g w) (calls : List Call) :
    ∃ g' w', calls.foldlM TransportFeedbackGenerator.perform g = some g' ∧ Sound g' w' := by
  induction calls generalizing g w with
  | nil => exact ⟨g, w, rfl, h⟩
  | cons call calls ih =>
    obtain ⟨g₁, w₁, hperform, h₁⟩ := h.perform call
    rw [foldlM_cons, hperform]
    exact ih h₁

theorem sound_initial : Sound {} ArrivalWindow.initial where
  map := refines_initial
  last hseen := Bool.noConfusion hseen
  unset _ := rfl
  start hseen := Bool.noConfusion hseen

theorem Sound.isSome_eq (h : Sound g w) :
    g.periodicWindowStartSeq.isSome = g.packetArrivalTimes.hasSeenPacket := by
  rw [← h.map.seen]
  cases hseen : w.seen with
  | false =>
    rw [h.unset hseen]
    rfl
  | true =>
    obtain ⟨start, hstart, -⟩ := h.start hseen
    rw [hstart]
    rfl

/-- After any calls on a fresh generator a round of periodic feedback fails no check and ends. Its
packets report, in order, the packets received from the start of the window to the end of the map,
where the window then starts. -/
theorem periodic_feedback_complete (calls : List Call) :
    ∃ g, calls.foldlM TransportFeedbackGenerator.perform {} = some g ∧
      g.periodicWindowStartSeq.isSome = g.packetArrivalTimes.hasSeenPacket ∧
      ∃ feedbacks g', g.sendPeriodicFeedbacks = some (feedbacks, g') ∧
        feedbacks.flatMap reportedNumbers = (g.periodicWindowStartSeq.elim [] fun start =>
          (between g.packetArrivalTimes.hasReceived start
            g.packetArrivalTimes.endSequenceNumber).map (wrap 16)) ∧ g'.periodicWindowStartSeq =
          if g.packetArrivalTimes.hasSeenPacket then
            some g.packetArrivalTimes.endSequenceNumber
          else none := by
  obtain ⟨g, w, hrun, h⟩ := sound_initial.run calls
  obtain ⟨feedbacks, count, hsend, hnumbers⟩ := h.sendPeriodicFeedbacks
  have hreceived := funext h.map.hasReceived_eq
  refine ⟨g, hrun, h.isSome_eq, feedbacks, _, hsend, ?_, ?_⟩
  · rw [hnumbers, hreceived, h.map.last]
  · rw [← h.isSome_eq, h.map.last]
    cases g.periodicWindowStartSeq with
    | none => rfl
    | some start => rfl

/-- Before the first packet a round of periodic feedback sets no window. -/
theorem periodic_feedback_without_packets :
    ∃ g', (sendPeriodicFeedbacks {}) = some ([], g') ∧ g'.periodicWindowStartSeq ≠
        some (packetArrivalTimes {}).endSequenceNumber :=
  ⟨{}, rfl, by decide⟩

end TransportFeedbackGenerator

end Congestion
