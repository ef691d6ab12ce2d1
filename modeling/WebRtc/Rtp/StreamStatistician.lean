import WebRtc.SequenceNumbers

/-!
# Statistics of a received stream

Model of the loss counters of `StreamStatisticianImpl`
(`modules/rtp_rtcp/source/receive_statistics_impl.cc`). The loss counters are of 32 bits and wrap
around. Times are in microseconds. Jitter, bitrate and the detection of retransmissions are left out.
`SetMaxReorderingThreshold` is called before the first packet.
-/

namespace Rtp

open SequenceNumbers

def kStatisticsTimeout : Int := 8000000

def kDefaultMaxReorderingThreshold : Int := 50

/-- The fields of `rtcp::ReportBlock` that depend on the counters. -/
structure ReportBlock where
  fractionLost : BitVec 8
  cumulativeLost : Int
  extHighestSeqNum : BitVec 32
deriving DecidableEq, Repr

structure StreamStatistician where
  maxReorderingThreshold : Int
  /-- `receive_counters_.transmitted.packets` -/
  packets : Nat
  cumulativeLoss : BitVec 32
  cumulativeLossRtcpOffset : BitVec 32
  lastReceiveTime : Option Int
  seqUnwrapper : SeqNumUnwrapper 16
  receivedSeqFirst : Int
  receivedSeqMax : Int
  receivedSeqOutOfOrder : Option (BitVec 16)
  lastReportCumulativeLoss : BitVec 32
  lastReportSeqMax : Int

namespace StreamStatistician

def initial (maxReorderingThreshold : Int) : StreamStatistician where
  maxReorderingThreshold := maxReorderingThreshold
  packets := 0
  cumulativeLoss := 0
  cumulativeLossRtcpOffset := 0
  lastReceiveTime := none
  seqUnwrapper := .initial
  receivedSeqFirst := -1
  receivedSeqMax := -1
  receivedSeqOutOfOrder := none
  lastReportCumulativeLoss := 0
  lastReportSeqMax := -1

variable (s : StreamStatistician)

/-- `UpdateOutOfOrder` for a packet that is not the second one of a stream restart. -/
def checkOrder (seqNum : BitVec 16) (sequenceNumber : Int) : Bool × StreamStatistician :=
  if |sequenceNumber - s.receivedSeqMax| > s.maxReorderingThreshold then
    (true, { s with
      receivedSeqOutOfOrder := some seqNum
      cumulativeLoss := s.cumulativeLoss + 1 })
  else (decide (sequenceNumber ≤ s.receivedSeqMax), s)

def updateOutOfOrder (seqNum : BitVec 16) (sequenceNumber : Int) : Bool × StreamStatistician :=
  match s.receivedSeqOutOfOrder with
  | none => s.checkOrder seqNum sequenceNumber
  | some outOfOrder =>
    let s := { s with cumulativeLoss := s.cumulativeLoss - 1, receivedSeqOutOfOrder := none }
    if seqNum = outOfOrder + 1 then
      (false, { s with
        lastReportSeqMax := sequenceNumber - 2
        receivedSeqMax := sequenceNumber - 2 })
    else s.checkOrder seqNum sequenceNumber

/-- The end of `UpdateCounters`, for a packet in order. -/
def updateInOrder (seqNum : BitVec 16) (sequenceNumber now : Int) : StreamStatistician :=
  { s with
    cumulativeLoss := s.cumulativeLoss + BitVec.ofInt 32 (sequenceNumber - s.receivedSeqMax)
    receivedSeqMax := sequenceNumber
    seqUnwrapper := (s.seqUnwrapper.unwrap seqNum).2
    lastReceiveTime := some now }

def updateCounters (seqNum : BitVec 16) (now : Int) : StreamStatistician :=
  let sequenceNumber := s.seqUnwrapper.peekUnwrap seqNum
  let s := { s with packets := s.packets + 1, cumulativeLoss := s.cumulativeLoss - 1 }
  match s.lastReceiveTime with
  | none =>
    updateInOrder { s with
      receivedSeqFirst := sequenceNumber
      lastReportSeqMax := sequenceNumber - 1
      receivedSeqMax := sequenceNumber - 1 } seqNum sequenceNumber now
  | some _ =>
    match s.updateOutOfOrder seqNum sequenceNumber with
    | (true, s) => s
    | (false, s) => s.updateInOrder seqNum sequenceNumber now

def lostSinceLast : BitVec 32 :=
  s.cumulativeLoss - s.lastReportCumulativeLoss

/-- The value that a report passes to `SetFractionLost`, if any. -/
def fractionLost : Option Int :=
  let expSinceLast := s.receivedSeqMax - s.lastReportSeqMax
  if expSinceLast > 0 ∧ s.lostSinceLast.toInt > 0 then
    some ((255 * s.lostSinceLast).toInt.tdiv expSinceLast)
  else none

def maybeAppendReportBlockAndReset (now : Int) : Option ReportBlock × StreamStatistician :=
  match s.lastReceiveTime with
  | none => (none, s)
  | some last =>
    if now - last ≥ kStatisticsTimeout then (none, s)
    else
      let packetsLost := s.cumulativeLoss + s.cumulativeLossRtcpOffset
      (some {
          fractionLost := (s.fractionLost.map (BitVec.ofInt 8)).getD 0
          cumulativeLost := min (max packetsLost.toInt 0) 0x7fffff
          extHighestSeqNum := BitVec.ofInt 32 s.receivedSeqMax },
        { s with
          cumulativeLossRtcpOffset :=
            if packetsLost.toInt < 0 then -s.cumulativeLoss else s.cumulativeLossRtcpOffset
          lastReportCumulativeLoss := s.cumulativeLoss
          lastReportSeqMax := s.receivedSeqMax })

inductive Call where
  | updateCounters (seqNum : BitVec 16) (now : Int)
  | maybeAppendReportBlockAndReset (now : Int)

def perform : Call → StreamStatistician
  | .updateCounters seqNum now => s.updateCounters seqNum now
  | .maybeAppendReportBlockAndReset now => (s.maybeAppendReportBlockAndReset now).2

def after (calls : List Call) : StreamStatistician := calls.foldl perform s

/-- Whether the call is taken for the second packet of a stream restart. -/
def restarts : Call → Bool
  | .updateCounters seqNum _ =>
    s.lastReceiveTime.isSome && s.receivedSeqOutOfOrder.map (· + 1) == some seqNum
  | _ => false

/-- Whether a test holds in each state in which a stream restart is detected. -/
def atRestarts (test : StreamStatistician → Bool) (s : StreamStatistician) : List Call → Bool
  | [] => true
  | c :: calls => (!s.restarts c || test s) && atRestarts test (s.perform c) calls

def pending : Int := if s.receivedSeqOutOfOrder.isSome then 1 else 0

section Packet

variable {s s' : StreamStatistician} {seqNum : BitVec 16} {sequenceNumber now : Int} {b : Bool}

/-- What packets do not change as long as the stream does not restart. -/
def balance (s : StreamStatistician) : BitVec 32 :=
  s.cumulativeLoss + BitVec.ofNat 32 s.packets - BitVec.ofInt 32 s.pending -
    BitVec.ofInt 32 s.receivedSeqMax

theorem ofInt_sub (x y : Int) :
    BitVec.ofInt 32 (x - y) = BitVec.ofInt 32 x - BitVec.ofInt 32 y := by
  rw [Int.sub_eq_add_neg, BitVec.ofInt_add, BitVec.ofInt_neg]
  grind

theorem cumulativeLoss_of_balance {x : Int} (h : s.balance = BitVec.ofInt 32 x) :
    s.cumulativeLoss = BitVec.ofInt 32 (x - s.packets + s.pending + s.receivedSeqMax) := by
  simp only [balance, BitVec.ofInt_add, ofInt_sub, BitVec.ofInt_natCast] at h ⊢
  grind

structure Counted (s s' : StreamStatistician) : Prop where
  packets : s'.packets = s.packets + 1
  loss : s'.balance = s.balance
  max : s.receivedSeqMax ≤ s'.receivedSeqMax
  first : s'.receivedSeqFirst = s.receivedSeqFirst
  received : s'.lastReceiveTime.isSome = true
  reportLoss : s'.lastReportCumulativeLoss = s.lastReportCumulativeLoss
  reportMax : s'.lastReportSeqMax = s.lastReportSeqMax

theorem counted_of_checkOrder {s₀ : StreamStatistician} (hnone : s.receivedSeqOutOfOrder = none)
    (h : Counted s₀ s) : Counted s₀ (match s.checkOrder seqNum sequenceNumber with
      | (true, s) => s
      | (false, s) => s.updateInOrder seqNum sequenceNumber now) := by
  obtain ⟨hpackets, hloss, hmax, hfirst, hreceived, hreportLoss, hreportMax⟩ := h
  have hpending : s.pending = 0 := by simp [pending, hnone]
  rw [checkOrder]
  split_ifs with hfar
  · refine ⟨hpackets, ?_, hmax, hfirst, hreceived, hreportLoss, hreportMax⟩
    rw [← hloss, balance, balance, hpending]
    simp only [pending, Option.isSome_some, if_true]
    grind
  · by_cases hold : sequenceNumber ≤ s.receivedSeqMax
    · simp only [hold, decide_true]
      exact ⟨hpackets, hloss, hmax, hfirst, hreceived, hreportLoss, hreportMax⟩
    · simp only [hold, decide_false]
      refine ⟨hpackets, ?_, ?_, hfirst, rfl, hreportLoss, hreportMax⟩
      · rw [← hloss, balance, balance]
        simp only [updateInOrder, pending, ofInt_sub]
        grind
      · simp only [updateInOrder]
        omega

theorem counted_updateCounters (received : s.lastReceiveTime.isSome = true)
    (h : s.restarts (.updateCounters seqNum now) = false) :
    Counted s (s.updateCounters seqNum now) := by
  obtain ⟨last, hlast⟩ := Option.isSome_iff_exists.mp received
  simp only [updateCounters, hlast, updateOutOfOrder]
  cases hpending : s.receivedSeqOutOfOrder with
  | none =>
    refine counted_of_checkOrder rfl ⟨rfl, ?_, Int.le_refl _, rfl, rfl, rfl, rfl⟩
    simp only [balance, pending, hpending, BitVec.ofNat_add]
    grind
  | some outOfOrder =>
    have hnot : seqNum ≠ outOfOrder + 1 := by
      rintro rfl
      simp [restarts, received, hpending] at h
    simp only [if_neg hnot]
    refine counted_of_checkOrder rfl ⟨rfl, ?_, Int.le_refl _, rfl, rfl, rfl, rfl⟩
    simp only [balance, pending, hpending, Option.isSome_some, Option.isSome_none,
      Bool.false_eq_true, if_true, if_false, BitVec.ofNat_add]
    grind

theorem updateCounters_restart (h : s.restarts (.updateCounters seqNum now) = true) :
    (s.updateCounters seqNum now).lastReceiveTime.isSome = true ∧
      (s.updateCounters seqNum now).cumulativeLoss = s.cumulativeLoss ∧
      (s.updateCounters seqNum now).lastReportCumulativeLoss = s.lastReportCumulativeLoss ∧
      (s.updateCounters seqNum now).receivedSeqMax =
        (s.updateCounters seqNum now).lastReportSeqMax + 2 := by
  simp only [restarts, Bool.and_eq_true, beq_iff_eq] at h
  obtain ⟨last, hlast⟩ := Option.isSome_iff_exists.mp h.1
  obtain ⟨outOfOrder, hpending, hnext⟩ := Option.map_eq_some_iff.mp h.2
  simp only [updateCounters, hlast, updateOutOfOrder, hpending, hnext, if_true, updateInOrder]
  refine ⟨rfl, ?_, trivial, ?_⟩
  · rw [Int.sub_sub_self]
    grind
  · omega

/-- Before the first packet, the counters are set for it to be the next one. -/
def expecting (threshold first : Int) : StreamStatistician :=
  { initial threshold with
    receivedSeqFirst := first
    lastReportSeqMax := first - 1
    receivedSeqMax := first - 1 }

theorem counted_first (threshold : Int) (seqNum : BitVec 16) (now : Int) :
    ∃ first, Counted (expecting threshold first) ((initial threshold).updateCounters seqNum now) := by
  refine ⟨(initial threshold).seqUnwrapper.peekUnwrap seqNum, rfl, ?_, ?_, rfl, rfl, rfl, rfl⟩
  · simp [updateCounters, updateInOrder, expecting, initial, pending, balance, ofInt_sub]
  · simp [updateCounters, updateInOrder, expecting, initial]

theorem report_cases (s : StreamStatistician) (now : Int) :
    (s.maybeAppendReportBlockAndReset now).2 = s ∨
      ∃ offset, (s.maybeAppendReportBlockAndReset now).2 = { s with
        cumulativeLossRtcpOffset := offset
        lastReportCumulativeLoss := s.cumulativeLoss
        lastReportSeqMax := s.receivedSeqMax } := by
  rw [maybeAppendReportBlockAndReset]
  split
  · exact .inl rfl
  · split
    · exact .inl rfl
    · exact .inr ⟨_, rfl⟩

end Packet

/-- What holds at the start, and packets, restarts and reports keep, holds of every run. -/
theorem after_induction {P : StreamStatistician → Prop} {test : StreamStatistician → Bool}
    {threshold : Int} (start : ∀ first, P (expecting threshold first))
    (packet : ∀ s s', Counted s s' → P s → P s')
    (restart : ∀ s seqNum now, s.restarts (.updateCounters seqNum now) = true → test s = true →
      P (s.updateCounters seqNum now))
    (report : ∀ s now, P s → P (s.maybeAppendReportBlockAndReset now).2)
    {calls : List Call} (s : StreamStatistician)
    (h : s = initial threshold ∨ s.lastReceiveTime.isSome = true ∧ P s)
    (htest : atRestarts test s calls = true) :
    s.after calls = initial threshold ∨
      (s.after calls).lastReceiveTime.isSome = true ∧ P (s.after calls) := by
  induction calls generalizing s with
  | nil => exact h
  | cons c calls ih =>
    obtain ⟨hrestart, hrest⟩ := Bool.and_eq_true_iff.mp htest
    refine ih _ ?_ hrest
    cases c with
    | updateCounters seqNum now =>
      right
      rcases h with rfl | ⟨hreceived, hs⟩
      · obtain ⟨first, hcounted⟩ := counted_first threshold seqNum now
        exact ⟨hcounted.received, packet _ _ hcounted (start first)⟩
      · cases hpacket : s.restarts (.updateCounters seqNum now) with
        | false =>
          have hcounted := counted_updateCounters hreceived hpacket
          exact ⟨hcounted.received, packet _ _ hcounted hs⟩
        | true =>
          rw [hpacket] at hrestart
          exact ⟨(updateCounters_restart hpacket).1, restart s seqNum now hpacket hrestart⟩
    | maybeAppendReportBlockAndReset now =>
      rcases h with rfl | ⟨hreceived, hs⟩
      · exact .inl rfl
      · refine .inr ⟨?_, report s now hs⟩
        rw [perform]
        obtain heq | ⟨offset, heq⟩ := s.report_cases now <;> rwa [heq]

theorem atRestarts_true (calls : List Call) (s : StreamStatistician) :
    atRestarts (fun _ => true) s calls = true := by
  induction calls generalizing s with
  | nil => rfl
  | cons c calls ih =>
    rw [atRestarts, ih, Bool.or_true]
    rfl

theorem lastReportSeqMax_le (threshold : Int) (calls : List Call) :
    ((initial threshold).after calls).lastReportSeqMax ≤
      ((initial threshold).after calls).receivedSeqMax := by
  have hrun := after_induction (P := fun s => s.lastReportSeqMax ≤ s.receivedSeqMax) ?_ ?_ ?_ ?_
    (initial threshold) (.inl rfl) (atRestarts_true calls (initial threshold))
  · obtain heq | ⟨-, h⟩ := hrun
    · rw [heq]
      exact Int.le_refl _
    · exact h
  · exact fun _ => Int.le_refl _
  · intro s s' h hs
    have := h.max
    have := h.reportMax
    omega
  · intro s seqNum now h _
    have := (updateCounters_restart h).2
    omega
  · intro s now hs
    obtain heq | ⟨offset, heq⟩ := s.report_cases now
    · rwa [heq]
    · rw [heq]

def Balanced : Prop :=
  s.balance = BitVec.ofInt 32 (1 - s.receivedSeqFirst) ∧ s.receivedSeqFirst - 1 ≤ s.receivedSeqMax

theorem pending_bounds : 0 ≤ s.pending ∧ s.pending ≤ 1 := by
  simp only [pending]
  split <;> omega

theorem Balanced.loss {s : StreamStatistician} (h : Balanced s) (hpackets : s.packets < 2 ^ 31)
    (hrange : s.receivedSeqMax - s.receivedSeqFirst < 2 ^ 31 - 1) (received : s.packets ≠ 0) :
    s.cumulativeLoss.toInt + s.packets =
      s.receivedSeqMax - s.receivedSeqFirst + 1 + s.pending := by
  obtain ⟨hbalance, hfirst⟩ := h
  have hpending := s.pending_bounds
  rw [cumulativeLoss_of_balance hbalance, BitVec.toInt_ofInt_eq_self (by decide)]
  all_goals omega

/-- Without a stream restart, and while the counters are in range, the loss and the received packets
add up to the range of the numbers, and one more while a packet is held back. The check of a report
never fails. -/
theorem loss_accounting (threshold : Int) (calls : List Call) :
    let s := (initial threshold).after calls
    (s.packets ≠ 0 → atRestarts (fun _ => false) (initial threshold) calls = true →
      s.packets < 2 ^ 31 → s.receivedSeqMax - s.receivedSeqFirst < 2 ^ 31 - 1 →
      s.cumulativeLoss.toInt + s.packets =
        s.receivedSeqMax - s.receivedSeqFirst + 1 + s.pending) ∧
      s.receivedSeqMax - s.lastReportSeqMax ≥ 0 := by
  refine ⟨fun received hnone hpackets hrange => ?_,
    Int.sub_nonneg_of_le (lastReportSeqMax_le threshold calls)⟩
  have hrun := after_induction (P := Balanced) ?_ ?_ ?_ ?_ (initial threshold) (.inl rfl) hnone
  · obtain heq | ⟨-, h⟩ := hrun
    · exact absurd (congrArg packets heq) received
    · exact h.loss hpackets hrange received
  · intro first
    refine ⟨?_, Int.le_refl _⟩
    simp [expecting, initial, pending, balance, ofInt_sub]
  · intro s s' h hs
    rw [Balanced, h.loss, h.first]
    exact ⟨hs.1, hs.2.trans h.max⟩
  · exact fun _ _ _ _ h => Bool.noConfusion h
  · intro s now hs
    obtain heq | ⟨offset, heq⟩ := s.report_cases now <;> rw [heq] <;> exact hs

/-- A packet is lost, the next one is far ahead and held back, and the one after it is in order. -/
def jumpAndBack : List Call :=
  [.updateCounters 1 0, .updateCounters 3 0, .updateCounters 200 0, .updateCounters 4 0]

theorem loss_accounting_jumpAndBack :
    let s := (initial kDefaultMaxReorderingThreshold).after jumpAndBack
    s.cumulativeLoss.toInt + s.packets = 4 := by
  have h := (loss_accounting kDefaultMaxReorderingThreshold jumpAndBack).1 (by decide +kernel)
    (by decide +kernel) (by decide +kernel) (by decide +kernel)
  exact h.trans (by decide +kernel)

theorem nothing_received_unbalanced : let s := (initial kDefaultMaxReorderingThreshold).after []
    s.cumulativeLoss.toInt + s.packets ≠
      s.receivedSeqMax - s.receivedSeqFirst + 1 + s.pending := by
  decide +kernel

/-- What is lost since the last report, as an exact number, is no more than what was expected. -/
def LossBounded : Prop :=
  ∃ lost : Int, s.lostSinceLast = BitVec.ofInt 32 lost ∧
    lost ≤ s.receivedSeqMax - s.lastReportSeqMax ∧ -2 ^ 31 - 1 - s.packets + s.pending ≤ lost

theorem LossBounded.counted {s s' : StreamStatistician} (hs : LossBounded s) (h : Counted s s') :
    LossBounded s' := by
  obtain ⟨lost, hlost, hle, hge⟩ := hs
  obtain ⟨hpackets, hloss, hmax, -, -, hreportLoss, hreportMax⟩ := h
  refine ⟨lost - 1 + s'.pending - s.pending + s'.receivedSeqMax - s.receivedSeqMax, ?_, ?_, ?_⟩
  · simp only [lostSinceLast, balance, hpackets, hreportLoss, BitVec.ofInt_add, ofInt_sub,
      BitVec.ofNat_add] at hlost hloss ⊢
    grind
  · have := s.pending_bounds
    have := s'.pending_bounds
    omega
  · omega

theorem LossBounded.toInt_le {s : StreamStatistician} (h : LossBounded s)
    (hpackets : s.packets ≤ 2 ^ 30) (hfew : s.lostSinceLast.toInt ≤ 8421504)
    (hpos : 0 < s.lostSinceLast.toInt) :
    s.lostSinceLast.toInt ≤ s.receivedSeqMax - s.lastReportSeqMax := by
  obtain ⟨lost, hlost, hle, hge⟩ := h
  have hpending := s.pending_bounds
  rw [hlost, BitVec.toInt_ofInt, Int.bmod_def] at hfew hpos ⊢
  omega

theorem LossBounded.fractionLost {s : StreamStatistician} (h : LossBounded s)
    (hpackets : s.packets ≤ 2 ^ 30) (hfew : s.lostSinceLast.toInt ≤ 8421504) :
    ∀ value ∈ s.fractionLost, 0 ≤ value ∧ value ≤ 255 := by
  intro value hvalue
  simp only [StreamStatistician.fractionLost] at hvalue
  split at hvalue
  · rename_i hpos
    cases hvalue
    have hle := h.toInt_le hpackets hfew hpos.2
    have hproduct : (255 * s.lostSinceLast).toInt = 255 * s.lostSinceLast.toInt := by
      rw [BitVec.toInt_mul, show (255 : BitVec 32).toInt = 255 from rfl]
      exact Int.bmod_eq_of_le (by omega) (by omega)
    rw [hproduct, Int.tdiv_eq_ediv_of_nonneg (by omega)]
    exact ⟨Int.ediv_nonneg (by omega) (by omega), Int.ediv_le_of_le_mul hpos.1 (by omega)⟩
  · cases hvalue

/-- If at most two packets are lost at every restart, and the counters are in range, a report passes
on a fraction of 255. -/
theorem fractionLost_is_fraction (threshold : Int) (calls : List Call)
    (h : atRestarts (fun s => s.lostSinceLast.toInt ≤ 2) (initial threshold) calls = true) :
    let s := (initial threshold).after calls
    s.packets ≤ 2 ^ 30 → s.lostSinceLast.toInt ≤ 8421504 →
      ∀ value ∈ s.fractionLost, 0 ≤ value ∧ value ≤ 255 := by
  intro s hpackets hfew
  have hrun := after_induction (P := LossBounded) ?_ (fun _ _ hcounted hs => hs.counted hcounted)
    ?_ ?_ (initial threshold) (.inl rfl) h
  · obtain heq | ⟨-, hbounded⟩ := hrun
    · intro value hvalue
      rw [show s = _ from heq] at hvalue
      cases hvalue
    · exact hbounded.fractionLost hpackets hfew
  · intro first
    refine ⟨0, ?_, ?_, ?_⟩ <;> simp [lostSinceLast, expecting, initial, pending]
  · intro s seqNum now h htest
    obtain ⟨-, hloss, hreport, hmax⟩ := updateCounters_restart h
    have hle := of_decide_eq_true htest
    have hge := BitVec.le_toInt s.lostSinceLast
    have hpending := (s.updateCounters seqNum now).pending_bounds
    refine ⟨s.lostSinceLast.toInt, ?_, by omega, by omega⟩
    rw [BitVec.ofInt_toInt, lostSinceLast, lostSinceLast, hloss, hreport]
  · intro s now hs
    obtain heq | ⟨offset, heq⟩ := s.report_cases now
    · rwa [heq]
    · have hpending : (s.maybeAppendReportBlockAndReset now).2.pending ≤ 1 := (pending_bounds _).2
      rw [heq] at hpending ⊢
      refine ⟨0, BitVec.sub_self _, (Int.sub_self _).ge, ?_⟩
      omega

/-- Packets are lost, and then the stream restarts at another place. -/
def lossAndRestart : List Call :=
  [.updateCounters 0 0, .updateCounters 50 0, .updateCounters 1000 0, .updateCounters 1001 0]

theorem fractionLost_is_fraction_beforeRestart :
    let s := (initial kDefaultMaxReorderingThreshold).after (lossAndRestart.take 3)
    s.fractionLost = some 245 ∧ ∀ value ∈ s.fractionLost, 0 ≤ value ∧ value ≤ 255 :=
  ⟨by decide +kernel, fractionLost_is_fraction _ (lossAndRestart.take 3) (by decide +kernel)
    (by decide +kernel) (by decide +kernel)⟩

theorem fractionLost_exceeds_afterRestart :
    let s := (initial kDefaultMaxReorderingThreshold).after lossAndRestart
    s.fractionLost = some 6247 ∧
      (s.maybeAppendReportBlockAndReset 0).1.map ReportBlock.fractionLost = some 103 := by
  decide +kernel

end StreamStatistician

end Rtp
