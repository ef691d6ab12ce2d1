import WebRtc.Dcsctp.SackSoundness

/-!
# The tracker holds the set of received TSNs

The last cumulative acked TSN and the blocks past it say exactly which TSNs have been observed
or forwarded over. TSNs before the initial one count as received from the start.
-/

namespace Dcsctp.DataTracker

/-- What a call adds to the received TSNs, unwrapped as the tracker does it. -/
def receivedBy (d : DataTracker) : Call → Set Int
  | .observe tsn _ => {d.tsnUnwrapper.peekUnwrap tsn}
  | .handleForwardTsn newCumulativeAck => {t | t ≤ d.tsnUnwrapper.peekUnwrap newCumulativeAck}
  | .createSelectiveAck _ => ∅

/-- The TSNs that a run observes, and those up to the ones it forwards to. -/
def receivedIn (d : DataTracker) : List Call → Set Int
  | [] => ∅
  | call :: calls => d.receivedBy call ∪ (d.perform call).receivedIn calls

theorem received_perform (d : DataTracker) (call : Call) (t : Int) :
    (d.perform call).Received t ↔ d.Received t ∨ t ∈ d.receivedBy call := by
  cases call with
  | observe tsn immediateAck => exact (d.observe_spec tsn immediateAck).2.1 t
  | handleForwardTsn newCumulativeAck => exact (d.handleForwardTsn_spec newCumulativeAck).1 t
  | createSelectiveAck aRwnd => exact (or_iff_left (Set.notMem_empty t)).symm

theorem received_run (d : DataTracker) (calls : List Call) (t : Int) :
    (calls.foldl perform d).Received t ↔ d.Received t ∨ t ∈ d.receivedIn calls := by
  induction calls generalizing d with
  | nil => exact (or_iff_left (Set.notMem_empty t)).symm
  | cons call calls ih =>
    rw [List.foldl_cons, ih, received_perform, or_assoc]
    rfl

/-- After every run the last cumulative acked TSN is the largest one up to which all TSNs are
received, the blocks are the maximal ranges past it, and `Observe` says that a TSN is new if it is
not before the initial one and was not received. -/
theorem tracks_received (peerInitialTsn : TSN) (calls : List Call) :
    let start := initial peerInitialTsn
    let d := after peerInitialTsn calls
    let received := start.receivedIn calls
    IsGreatest {n | ∀ t, start.lastCumulativeAckedTsn < t → t ≤ n → t ∈ received}
      d.lastCumulativeAckedTsn ∧ d.additionalTsnBlocks.Pairwise (fun a b => a.last + 1 < b.first) ∧
    (∀ block, block ∈ d.additionalTsnBlocks ↔
      d.lastCumulativeAckedTsn + 1 < block.first ∧ Ranges.Maximal received block) ∧
    ∀ tsn immediateAck, (d.observe tsn immediateAck).1 = true ↔
      start.lastCumulativeAckedTsn < d.tsnUnwrapper.peekUnwrap tsn ∧
        d.tsnUnwrapper.peekUnwrap tsn ∉ received := by
  intro start d received
  have hreceived : ∀ t, d.Received t ↔ t ≤ start.lastCumulativeAckedTsn ∨ t ∈ received := by
    intro t
    have hstart : start.Received t ↔ t ≤ start.lastCumulativeAckedTsn :=
      or_iff_left (Ranges.covered_nil t)
    exact (received_run start calls t).trans (or_congr_left hstart)
  have hmono : start.lastCumulativeAckedTsn ≤ d.lastCumulativeAckedTsn :=
    lastCumulativeAckedTsn_mono fun t ht => (received_run start calls t).mpr (.inl ht)
  have hcovered : ∀ t, d.lastCumulativeAckedTsn < t →
      (Ranges.Covered t d.additionalTsnBlocks ↔ t ∈ received) := by
    intro t ht
    have := hreceived t
    rw [Received, or_iff_right (not_le.mpr ht), or_iff_right (by omega)] at this
    exact this
  refine ⟨⟨fun t hfirst hle => ?_, fun n hn => ?_⟩, d.blocksAbove.pairwise, fun block => ?_, ?_⟩
  · exact ((hreceived t).mp (.inl hle)).resolve_left (not_le.mpr hfirst)
  · refine d.blocksAbove.le_bound fun t ht => (hreceived t).mpr ?_
    exact (le_or_gt t _).imp_right fun hfirst => hn t hfirst ht
  · rw [d.blocksAbove.mem_iff]
    constructor
    · intro h
      have hlow := d.blocksAbove.lt_first (d.blocksAbove.mem_iff.mpr h)
      have := h.nonempty
      exact ⟨hlow, h.nonempty, fun t ha hb => (hcovered t (by omega)).mp (h.inside t ha hb),
        mt (hcovered _ (by omega)).mpr h.before, mt (hcovered _ (by omega)).mpr h.behind⟩
    · rintro ⟨hlow, h⟩
      have := h.nonempty
      exact ⟨h.nonempty, fun t ha hb => (hcovered t (by omega)).mpr (h.inside t ha hb),
        mt (hcovered _ (by omega)).mp h.before, mt (hcovered _ (by omega)).mp h.behind⟩
  · intro tsn immediateAck
    rw [(d.observe_spec tsn immediateAck).1, hreceived, not_or, not_le]

/-- TSN 3 arrives after 1: the gap stays, and 2 is still new. -/
theorem tracks_received_gap : let calls := [.observe 1 false, .observe 3 false]
    let d := after 1 calls
    d.lastCumulativeAckedTsn = 1 ∧ (⟨3, 3⟩ ∈ d.additionalTsnBlocks ↔ (1 : Int) + 1 < 3 ∧
        Ranges.Maximal ((initial 1).receivedIn calls) ⟨3, 3⟩) := by
  intro calls d
  have hcumulative : d.lastCumulativeAckedTsn = 1 := by decide +kernel
  refine ⟨hcumulative, ?_⟩
  have h := (tracks_received 1 calls).2.2.1 ⟨3, 3⟩
  rwa [hcumulative] at h

/-- A TSN before the initial one is valid and was not received, but is not new. -/
theorem tsn_before_initial_not_new : (initial 1).isTSNValid 0 = true ∧
      (initial 1).tsnUnwrapper.peekUnwrap 0 ∉ (initial 1).receivedIn [] ∧
      ((initial 1).observe 0 false).1 = false :=
  ⟨by decide +kernel, Set.notMem_empty _, by decide +kernel⟩

end Dcsctp.DataTracker
