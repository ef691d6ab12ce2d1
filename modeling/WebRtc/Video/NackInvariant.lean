import WebRtc.Video.NackRequester

/-!
# The NACK list stays in its window

The numbers in the list are behind the newest one by at most `kMaxPacketAge`, and so far the
comparator is an order on them. When the newest number jumps so far that a search could fail, the
jump alone fills the list, and the list is cleared.
-/

namespace Video

open SequenceNumbers Units TreeSearch List

variable {newest : BitVec 16} {keys : List (BitVec 16)}

def behind (newest seqNum : BitVec 16) : Nat := (newest - seqNum).toNat

section Comparator

variable {n a b : BitVec 16}

theorem behind_eq (n a : BitVec 16) : behind n a = (65536 - a.toNat + n.toNat) % 65536 :=
  BitVec.toNat_sub n a

theorem aheadOf_iff (a b : BitVec 16) : aheadOf a b = true ↔ 0 < behind a b ∧
      (behind a b < 32768 ∨ behind a b = 32768 ∧ b.toNat < a.toNat) := by
  have hne : a ≠ b ↔ 0 < behind a b := by
    rw [ne_eq, ← BitVec.toNat_inj, behind_eq]
    omega
  rw [aheadOf_iff_sub, hne]
  rfl

theorem comp_iff (hnear : behind n a < behind n b + 32768) (hfar : behind n b < behind n a + 32768) :
    descendingSeqNumComp a b = true ↔ behind n b < behind n a := by
  have hdiff : behind b a = (65536 - behind n b + behind n a) % 65536 := by
    rw [behind_eq, behind_eq, behind_eq]
    omega
  have : behind n b < 65536 := (n - b).isLt
  rw [descendingSeqNumComp, aheadOf_iff]
  omega

theorem eq_of_behind_eq (h : behind n a = behind n b) : a = b := by
  rw [← BitVec.toNat_inj]
  rw [behind_eq, behind_eq] at h
  omega

end Comparator

/-- Numbers behind another one within the window, from the oldest on. -/
structure Ordered (newest : BitVec 16) (keys : List (BitVec 16)) : Prop where
  window : ∀ k ∈ keys, 0 < behind newest k ∧ behind newest k ≤ 10000
  sorted : keys.Pairwise fun a b => behind newest b < behind newest a

theorem Ordered.sublist {keys' : List (BitVec 16)} (h : Ordered newest keys)
    (hsub : keys'.Sublist keys) : Ordered newest keys' :=
  ⟨fun k hk => h.window k (hsub.subset hk), h.sorted.sublist hsub⟩

theorem lowerBound_split {key : BitVec 16}
    (sorted : keys.Pairwise fun a b => behind newest b < behind newest a)
    (near : ∀ k ∈ keys, behind newest k < behind newest key + 32768 ∧
      behind newest key < behind newest k + 32768) (search : Search (BitVec 16)) :
    (∀ k ∈ keys.take (lowerBound search keys key), behind newest key < behind newest k) ∧
      ∀ k ∈ keys.drop (lowerBound search keys key), behind newest k ≤ behind newest key := by
  have htest : ∀ k ∈ keys, descendingSeqNumComp k key = true ↔
      behind newest key < behind newest k := fun k hk => comp_iff (near k hk).1 (near k hk).2
  have hboundary := search.boundary (fun k => descendingSeqNumComp k key) keys
  have hmono : keys.Pairwise fun a b =>
      descendingSeqNumComp b key = true → descendingSeqNumComp a key = true := by
    refine sorted.imp_of_mem fun {a b} ha hb hlt => ?_
    rw [htest a ha, htest b hb]
    omega
  constructor
  · intro k hk
    exact (htest k (mem_of_mem_take hk)).mp (hboundary.test_of_mem_take hmono hk)
  · intro k hk
    have hnot := hboundary.not_test_of_mem_drop hmono hk
    by_contra hlt
    have := (htest k (mem_of_mem_drop hk)).mpr (by omega)
    exact Bool.false_ne_true (hnot.symm.trans this)

/-- A number that all the others are behind of is put at the end. -/
theorem Ordered.assign_newest {nackList : List NackInfo}
    (h : Ordered newest (nackList.map NackInfo.seqNum)) (search : Search (BitVec 16))
    (info : NackInfo)
    (hnewer : ∀ k ∈ nackList.map NackInfo.seqNum, behind newest info.seqNum < behind newest k) :
    find search (nackList.map NackInfo.seqNum) info.seqNum = none ∧
      assign search nackList info = nackList ++ [info] := by
  obtain ⟨-, hdrop⟩ := @lowerBound_split _ _ info.seqNum h.sorted (fun k hk => by
    have := hnewer k hk
    have := h.window k hk
    omega) search
  have hlength : lowerBound search (nackList.map NackInfo.seqNum) info.seqNum =
      nackList.length := by
    have hle := (search.boundary (fun k => descendingSeqNumComp k info.seqNum)
      (nackList.map NackInfo.seqNum)).le
    rw [length_map] at hle
    have hnil := eq_nil_iff_forall_not_mem.mpr fun k hk =>
      (hdrop k hk).not_gt (hnewer k (mem_of_mem_drop hk))
    rw [drop_eq_nil_iff, length_map] at hnil
    exact Nat.le_antisymm hle hnil
  constructor
  · rw [find, hlength, getElem?_eq_none (length_map _).le]
  · rw [assign, hlength, getElem?_eq_none le_rfl]
    exact insertIdx_length_self

namespace NackRequester

variable (search : Search (BitVec 16)) {newest seqNum : BitVec 16} {q : NackRequester}
  {e : NackInfo} {options : NackFilterOptions} {now : Timestamp}

structure Fresh (now : Timestamp) (info : NackInfo) : Prop where
  sendAt : info.sendAtSeqNum = info.seqNum
  createdAt : info.createdAtTime = now
  unsent : info.sentAtTime = .minusInfinity
  retries : info.retries = 0

theorem addNewPackets_spec (now : Timestamp) (n : Nat) (seqNum : BitVec 16) (q : NackRequester)
    (hordered : Ordered newest q.keys) (hold : ∀ k ∈ q.keys, n < behind newest k)
    (hseq : behind newest seqNum = n) (hn : n ≤ 10000) (hchecked : q.checked = true) :
    ∃ fresh : List NackInfo,
      addNewPackets search now n seqNum q = { q with nackList := q.nackList ++ fresh } ∧
      fresh.length ≤ n ∧ (∀ e ∈ fresh, Fresh now e ∧ behind newest e.seqNum ≤ n) ∧
      Ordered newest (q.keys ++ fresh.map NackInfo.seqNum) := by
  induction n generalizing seqNum q with
  | zero =>
    refine ⟨[], ?_, Nat.le_refl 0, nofun, ?_⟩
    · rw [append_nil]
      rfl
    · rw [map_nil, append_nil]
      exact hordered
  | succ n ih =>
    have hnext : behind newest (seqNum + 1) = n := by
      rw [behind_eq] at hseq ⊢
      have hone : (1 : BitVec 16).toNat = 1 := rfl
      rw [BitVec.toNat_add]
      omega
    rw [addNewPackets, addPacketToNack]
    split
    · -- recovered by other means: nothing is added for this number
      obtain ⟨fresh, heq, hlength, hfresh, hall⟩ := ih (seqNum + 1) q hordered
        (fun k hk => Nat.lt_of_succ_lt (hold k hk)) hnext (by omega) hchecked
      exact ⟨fresh, heq, by omega, fun e he => ⟨(hfresh e he).1, by have := (hfresh e he).2; omega⟩,
        hall⟩
    · let info : NackInfo := ⟨seqNum, seqNum + waitNumberOfPackets, now, .minusInfinity, 0⟩
      have hpos : 0 < behind newest info.seqNum := by
        change 0 < behind newest seqNum
        omega
      have hnewer : ∀ k ∈ q.keys, behind newest info.seqNum < behind newest k := fun k hk => by
        change behind newest seqNum < _
        have := hold k hk
        omega
      obtain ⟨hfind, hassign⟩ := Ordered.assign_newest hordered search info hnewer
      have hstep : ({ q with
          nackList := assign search q.nackList info
          checked := q.checked && (find search q.keys seqNum).isNone } : NackRequester) =
          { q with nackList := q.nackList ++ [info] } := by
        have hfind' : find search q.keys seqNum = none := hfind
        rw [hassign, hfind', hchecked]
        rfl
      have hkeys : NackRequester.keys { q with nackList := q.nackList ++ [info] } =
          q.keys ++ [seqNum] := map_append
      have hordered' : Ordered newest (q.keys ++ [seqNum]) := by
        refine ⟨fun k hk => ?_, pairwise_append.mpr ⟨hordered.sorted, pairwise_singleton _ _, ?_⟩⟩
        · rcases mem_append.mp hk with hold | hnew
          · exact hordered.window k hold
          · rw [mem_singleton.mp hnew]
            exact ⟨hpos, by omega⟩
        · intro a ha b hb
          rw [mem_singleton.mp hb]
          exact hnewer a ha
      obtain ⟨fresh, heq, hlength, hfresh, hall⟩ := ih (seqNum + 1)
        { q with nackList := q.nackList ++ [info] } (by rw [hkeys]; exact hordered')
        (fun k hk => by
          rw [hkeys] at hk
          rcases mem_append.mp hk with hk | hk
          · exact Nat.lt_of_succ_lt (hold k hk)
          · rw [mem_singleton.mp hk, hseq]
            exact Nat.lt_succ_self n) hnext (by omega) hchecked
      refine ⟨info :: fresh, ?_, Nat.succ_le_succ hlength, fun e he => ?_, ?_⟩
      · rw [hstep, heq, append_assoc]
        rfl
      · rcases mem_cons.mp he with rfl | he
        · exact ⟨⟨BitVec.add_zero seqNum, rfl, rfl, rfl⟩,
            Nat.le_of_eq hseq⟩
        · exact ⟨(hfresh e he).1, Nat.le_succ_of_le (hfresh e he).2⟩
      · rw [hkeys, append_assoc] at hall
        exact hall

structure Valid (q : NackRequester) : Prop where
  ordered : Ordered q.newestSeqNum q.keys
  length : q.nackList.length ≤ kMaxNackPackets
  retries : ∀ e ∈ q.nackList, e.retries < kMaxNackRetries
  uninitialized : q.initialized = false → q.nackList = []
  checked : q.checked = true

variable {e' : NackInfo}

theorem Valid.unique (h : q.Valid) (he : e ∈ q.nackList) (he' : e' ∈ q.nackList)
    (hsame : e.seqNum = e'.seqNum) : e = e' := by
  have hnodup : q.keys.Nodup := h.ordered.sorted.imp fun hlt heq => by
    rw [heq] at hlt
    exact Nat.lt_irrefl _ hlt
  exact inj_on_of_nodup_map hnodup he he' hsame

theorem Valid.shrink (h : q.Valid) {nackList : List NackInfo} (hsub : nackList.Sublist q.nackList) :
    Valid { q with nackList := nackList } where
  ordered := h.ordered.sublist (hsub.map _)
  length := Nat.le_trans hsub.length_le h.length
  retries e he := h.retries e (hsub.subset he)
  uninitialized hq := by
    have hnil := h.uninitialized hq
    rw [hnil] at hsub
    exact sublist_nil.mp hsub
  checked := h.checked

theorem addPacketsToNack_spec (now : Timestamp) (h : q.Valid) (hne : seqNum ≠ q.newestSeqNum) :
    ∃ old fresh : List NackInfo, (q.addPacketsToNack search now (q.newestSeqNum + 1) seqNum).1 =
        { q with nackList := old ++ fresh } ∧
      old.Sublist q.nackList ∧ (∀ e ∈ fresh, Fresh now e ∧ e.seqNum ∉ q.keys) ∧
      Ordered seqNum ((old ++ fresh).map NackInfo.seqNum) ∧
      (old ++ fresh).length ≤ kMaxNackPackets := by
  have hpos : 0 < behind seqNum q.newestSeqNum := by
    rw [behind_eq]
    have : seqNum.toNat ≠ q.newestSeqNum.toNat := fun heq => hne (BitVec.eq_of_toNat_eq heq)
    omega
  have hcount : (forwardDiff (q.newestSeqNum + 1) seqNum).toNat =
      behind seqNum q.newestSeqNum - 1 := by
    change behind seqNum (q.newestSeqNum + 1) = _
    have hone : (1 : BitVec 16).toNat = 1 := rfl
    rw [behind_eq] at hpos
    rw [behind_eq, behind_eq, BitVec.toNat_add]
    omega
  rw [addPacketsToNack, hcount]
  set recent := q.eraseBelow search (seqNum - kMaxPacketAge)
  by_cases hfull : recent.nackList.length + (behind seqNum q.newestSeqNum - 1) > kMaxNackPackets
  · rw [if_pos hfull]
    exact ⟨[], [], rfl, nil_sublist _, nofun, ⟨nofun, List.Pairwise.nil⟩, Nat.zero_le _⟩
  · rw [if_neg hfull]
    have hsmall : behind seqNum q.newestSeqNum ≤ 1001 := by
      rw [kMaxNackPackets] at hfull
      omega
    have hsub : recent.nackList.Sublist q.nackList :=
      drop_sublist _ _
    have hsubKeys : recent.keys.Sublist q.keys := hsub.map _
    -- seen from the new number, every old one is that much further behind
    have hbehind : ∀ k ∈ q.keys, behind seqNum k =
        behind q.newestSeqNum k + behind seqNum q.newestSeqNum := fun k hk => by
      have := h.ordered.window k hk
      rw [behind_eq, behind_eq, behind_eq] at *
      omega
    have hage : behind seqNum (seqNum - kMaxPacketAge) = 10000 := by
      have hold : kMaxPacketAge.toNat = 10000 := rfl
      rw [behind_eq, BitVec.toNat_sub]
      omega
    have hsorted : q.keys.Pairwise fun a b => behind seqNum b < behind seqNum a := by
      refine h.ordered.sorted.imp_of_mem fun {a b} ha hb hlt => ?_
      rw [hbehind a ha, hbehind b hb]
      omega
    have hkeys : recent.keys =
        q.keys.drop (lowerBound search q.keys (seqNum - kMaxPacketAge)) := map_drop
    have hnear : ∀ k ∈ q.keys, behind seqNum k < behind seqNum (seqNum - kMaxPacketAge) + 32768 ∧
        behind seqNum (seqNum - kMaxPacketAge) < behind seqNum k + 32768 := fun k hk => by
      have := h.ordered.window k hk
      rw [hbehind k hk]
      omega
    have hrecent := (lowerBound_split hsorted hnear search).2
    rw [← hkeys, hage] at hrecent
    have hordered : Ordered seqNum recent.keys :=
      ⟨fun k hk => ⟨by rw [hbehind k (hsubKeys.subset hk)]; omega, hrecent k hk⟩,
        hsorted.sublist hsubKeys⟩
    obtain ⟨fresh, heq, hlength, hfresh, hall⟩ := addNewPackets_spec search now
      (behind seqNum q.newestSeqNum - 1) (q.newestSeqNum + 1)
      recent hordered
      (fun k hk => by rw [hbehind k (hsubKeys.subset hk)]; omega) hcount (by omega) h.checked
    refine ⟨_, fresh, heq, hsub, fun e he => ⟨(hfresh e he).1, fun hin => ?_⟩, ?_, ?_⟩
    · have := (hfresh e he).2
      rw [hbehind _ hin] at this
      omega
    · rw [map_append]
      exact hall
    · rw [length_append]
      omega

/-- What `GetNackBatch` leaves of an entry. -/
def kept (q : NackRequester) (options : NackFilterOptions) (now : Timestamp) (info : NackInfo) :
    Option NackInfo :=
  if q.due options now info then
    if info.retries + 1 ≥ kMaxNackRetries then none else some (sent now info)
  else some info

theorem collect_eq (q : NackRequester) (options : NackFilterOptions) (now : Timestamp)
    (nackList : List NackInfo) :
    q.collect options now nackList = ((nackList.filter (q.due options now)).map NackInfo.seqNum,
        nackList.filterMap (q.kept options now)) := by
  induction nackList with
  | nil => rfl
  | cons info rest ih =>
    rw [collect, ih]
    by_cases hdue : q.due options now info = true
    · by_cases hmax : info.retries + 1 ≥ kMaxNackRetries
      · have hkept : q.kept options now info = none := by rw [kept, if_pos hdue, if_pos hmax]
        simp only [hdue, sent, hmax, if_true, filter_cons_of_pos, map_cons, filterMap_cons_none hkept]
      · have hkept : q.kept options now info = some (sent now info) := by
          rw [kept, if_pos hdue, if_neg hmax]
        simp only [hdue, sent, hmax, if_true, if_false, filter_cons_of_pos, map_cons,
          filterMap_cons_some hkept]
    · have hkept : q.kept options now info = some info := by rw [kept, if_neg hdue]
      simp only [hdue, Bool.false_eq_true, if_false, not_false_eq_true, filter_cons_of_neg,
        filterMap_cons_some hkept]

theorem kept_seqNum (h : q.kept options now e = some e') : e'.seqNum = e.seqNum := by
  rw [kept] at h
  split at h
  · split at h
    · cases h
    · rw [← Option.some.inj h]
      rfl
  · rw [Option.some.inj h]

theorem map_filterMap_kept_sublist (q : NackRequester) (options : NackFilterOptions)
    (now : Timestamp) (nackList : List NackInfo) :
    ((nackList.filterMap (q.kept options now)).map NackInfo.seqNum).Sublist
      (nackList.map NackInfo.seqNum) := by
  induction nackList with
  | nil => exact List.Sublist.refl _
  | cons info rest ih =>
    cases hkept : q.kept options now info with
    | none =>
      rw [filterMap_cons_none hkept]
      exact ih.cons _
    | some e =>
      rw [filterMap_cons_some hkept, map_cons, kept_seqNum hkept]
      exact ih.cons_cons _

theorem getNackBatch_eq (q : NackRequester) (options : NackFilterOptions) (now : Timestamp) :
    q.getNackBatch options now = ((q.nackList.filter (q.due options now)).map NackInfo.seqNum,
      { q with nackList := q.nackList.filterMap (q.kept options now) }) := by
  rw [getNackBatch, collect_eq]

theorem mem_batch_iff {k : BitVec 16} : k ∈ (q.getNackBatch options now).1 ↔
      ∃ e ∈ q.nackList, q.due options now e = true ∧ e.seqNum = k := by
  rw [getNackBatch_eq]
  simp only [mem_map, mem_filter, and_assoc]

theorem mem_kept (h : e' ∈ (q.getNackBatch options now).2.nackList) :
    ∃ e ∈ q.nackList, e'.seqNum = e.seqNum ∧ (q.due options now e = false ∧ e' = e ∨
        q.due options now e = true ∧ e.retries + 1 < kMaxNackRetries ∧ e' = sent now e) := by
  rw [getNackBatch_eq] at h
  obtain ⟨e, he, hkept⟩ := mem_filterMap.mp h
  refine ⟨e, he, kept_seqNum hkept, ?_⟩
  rw [kept] at hkept
  split at hkept
  · split at hkept
    · cases hkept
    · exact Or.inr ⟨by assumption, by omega, (Option.some.inj hkept).symm⟩
  · exact Or.inl ⟨Bool.eq_false_iff.mpr (by assumption), (Option.some.inj hkept).symm⟩

theorem Valid.getNackBatch (h : q.Valid) (options : NackFilterOptions) (now : Timestamp) :
    (q.getNackBatch options now).2.Valid := by
  have hsub := map_filterMap_kept_sublist q options now q.nackList
  refine ⟨?_, ?_, ?_, ?_, ?_⟩
  · rw [getNackBatch_eq]
    exact h.ordered.sublist hsub
  · rw [getNackBatch_eq]
    exact Nat.le_trans (length_filterMap_le _ _) h.length
  · intro e' he'
    obtain ⟨e, he, -, ⟨-, rfl⟩ | ⟨-, hlt, rfl⟩⟩ := mem_kept he'
    · exact h.retries e' he
    · exact hlt
  · rw [getNackBatch_eq]
    intro hq
    rw [h.uninitialized hq]
    rfl
  · exact h.checked

/-- What a call leaves of the entry of a number, or makes of a number that had none. -/
inductive Carried (q : NackRequester) (now : Timestamp) (batch : List (BitVec 16)) (e' : NackInfo) :
    Prop where
  | same (h : e' ∈ q.nackList) (unsent : e'.seqNum ∉ batch)
  | sent (e : NackInfo) (h : e ∈ q.nackList) (eq : e' = sent now e) (mem : e'.seqNum ∈ batch)
  | waiting (new : e'.seqNum ∉ q.keys) (delayed : q.sendNackDelay ≠ .zero) (retries : e'.retries = 0)
      (unsent : e'.seqNum ∉ batch)
  | started (new : e'.seqNum ∉ q.keys) (at_ : e'.sentAtTime = now) (retries : e'.retries = 1)
      (mem : e'.seqNum ∈ batch)

structure Step (q : NackRequester) (now : Timestamp) (batch : List (BitVec 16)) (q' : NackRequester) :
    Prop where
  valid : q'.Valid
  delay : q'.sendNackDelay = q.sendNackDelay
  carried : ∀ e' ∈ q'.nackList, Carried q now batch e'

theorem step_of_sublist {q' : NackRequester} (now : Timestamp) (valid : q'.Valid)
    (delay : q'.sendNackDelay = q.sendNackDelay) (hsub : q'.nackList.Sublist q.nackList) :
    Step q now [] q' :=
  ⟨valid, delay, fun _ he' => .same (hsub.subset he') not_mem_nil⟩

theorem not_mem_batch (h : q.Valid) (he : e ∈ q.nackList) (hdue : q.due options now e = false) :
    e.seqNum ∉ (q.getNackBatch options now).1 := by
  intro hmem
  obtain ⟨e', he', hdue', hsame⟩ := mem_batch_iff.mp hmem
  rw [h.unique he' he hsame, hdue] at hdue'
  exact Bool.false_ne_true hdue'

theorem mem_batch_of_due (he : e ∈ q.nackList) (hdue : q.due options now e = true) :
    e.seqNum ∈ (q.getNackBatch options now).1 := mem_batch_iff.mpr ⟨e, he, hdue, rfl⟩

theorem step_processNacks (h : q.Valid) (now : Timestamp) :
    Step q now (q.processNacks now).2.batch (q.processNacks now).1 := by
  refine ⟨h.getNackBatch .timeOnly now, ?_, fun e' he' => ?_⟩
  · change (q.getNackBatch .timeOnly now).2.sendNackDelay = _
    rw [getNackBatch_eq]
  · obtain ⟨e, he, -, ⟨hdue, rfl⟩ | ⟨hdue, -, rfl⟩⟩ := mem_kept he'
    · exact .same he (not_mem_batch h he hdue)
    · have hmem := mem_batch_of_due he hdue
      exact .sent e he rfl hmem

theorem due_of_fresh {t : Int} (hfresh : Fresh (.finite t) e) (hdelay : q.sendNackDelay = .zero)
    (hwindow : behind q.newestSeqNum e.seqNum ≤ 10000) :
    q.due .seqNumOnly (.finite t) e = true := by
  have hahead : aheadOrAt q.newestSeqNum e.seqNum = true := by
    have hlt : (q.newestSeqNum - e.seqNum).toNat ≤ 10000 := hwindow
    rw [aheadOrAt, if_neg (by omega)]
    exact decide_eq_true (show (q.newestSeqNum - e.seqNum).toNat < 32768 by omega)
  have htime : UnitBase.zero ≤ UnitBase.finite t - UnitBase.finite t := by
    rw [UnitBase.finite_sub_finite, Int.sub_self]
    exact (UnitBase.finite_le_finite 0 0).mpr (Int.le_refl 0)
  rw [due, hdelay, hfresh.createdAt, hfresh.unsent, hfresh.sendAt, hahead, decide_eq_true htime]
  rfl

theorem step_receiveNewer (t : Int) (h : q.Valid) (initialized : q.initialized = true)
    (hne : seqNum ≠ q.newestSeqNum) :
    Step q (.finite t) (q.receiveNewer search (.finite t) seqNum).2.batch
      (q.receiveNewer search (.finite t) seqNum).1 := by
  obtain ⟨old, fresh, heq, hold, hfresh, hordered, hlength⟩ :=
    addPacketsToNack_spec search (.finite t) h hne
  let q₂ : NackRequester := { q with nackList := old ++ fresh, newestSeqNum := seqNum }
  have hstate : { (q.addPacketsToNack search (.finite t) (q.newestSeqNum + 1) seqNum).1 with
      newestSeqNum := seqNum } = q₂ := by
    rw [heq]
  have hbatch : (q.receiveNewer search (.finite t) seqNum).2.batch =
      (q₂.getNackBatch .seqNumOnly (.finite t)).1 := by
    rw [← hstate]
    rfl
  have hresult : (q.receiveNewer search (.finite t) seqNum).1 =
      (q₂.getNackBatch .seqNumOnly (.finite t)).2 := by
    rw [← hstate]
    rfl
  have hvalid : q₂.Valid := by
    refine ⟨hordered, hlength, fun e he => ?_, fun hq => ?_, h.checked⟩
    · rcases mem_append.mp he with he | he
      · exact h.retries e (hold.subset he)
      · rw [(hfresh e he).1.retries]
        decide
    · exact absurd (initialized.symm.trans hq) (by decide)
  rw [hbatch, hresult]
  refine ⟨hvalid.getNackBatch .seqNumOnly (.finite t), ?_, fun e' he' => ?_⟩
  · rw [getNackBatch_eq]
  · obtain ⟨e, he, -, hcase⟩ := mem_kept he'
    rcases mem_append.mp he with hin | hin
    · rcases hcase with ⟨hdue, rfl⟩ | ⟨hdue, -, rfl⟩
      · exact .same (hold.subset hin) (not_mem_batch hvalid he hdue)
      · have hmem := mem_batch_of_due he hdue
        exact .sent e (hold.subset hin) rfl hmem
    · obtain ⟨hnew, hkey⟩ := hfresh e hin
      rcases hcase with ⟨hdue, rfl⟩ | ⟨hdue, -, rfl⟩
      · refine .waiting hkey (fun hzero => ?_) hnew.retries (not_mem_batch hvalid he hdue)
        have hwindow := hordered.window e'.seqNum (mem_map_of_mem he)
        have := due_of_fresh (q := q₂) hnew hzero hwindow.2
        exact Bool.false_ne_true (hdue.symm.trans this)
      · have hmem := mem_batch_of_due he hdue
        exact .started hkey rfl (congrArg (· + 1) hnew.retries) hmem

theorem step_perform (h : q.Valid) (c : Call) :
    Step q (.finite c.now) (q.perform c).2.batch (q.perform c).1 := by
  rw [perform]
  cases c.op with
  | onReceivedPacket seqNum isRecovered =>
    dsimp only
    rw [onReceivedPacket]
    cases hinit : q.initialized with
    | false =>
      have hnil := h.uninitialized hinit
      refine step_of_sublist _ ⟨?_, h.length, h.retries, nofun, h.checked⟩ rfl (List.Sublist.refl _)
      rw [hnil]
      exact ⟨nofun, List.Pairwise.nil⟩
    | true =>
      simp only [Bool.not_true, Bool.false_eq_true, if_false]
      by_cases hnewest : seqNum = q.newestSeqNum
      · rw [if_pos hnewest]
        exact step_of_sublist _ h rfl (List.Sublist.refl _)
      · rw [if_neg hnewest]
        by_cases hbehind : aheadOf q.newestSeqNum seqNum = true
        · rw [if_pos hbehind, receiveOutOfOrder]
          split
          · exact step_of_sublist _ h rfl (List.Sublist.refl _)
          · exact step_of_sublist _ (h.shrink (eraseIdx_sublist _ _)) rfl
              (eraseIdx_sublist _ _)
        · rw [if_neg hbehind]
          cases isRecovered with
          | true =>
            exact step_of_sublist _ { h with } rfl
              (List.Sublist.refl _)
          | false => exact step_receiveNewer c.search c.now h hinit hnewest
  | clearUpTo seqNum =>
    have hsub : (q.clearUpTo c.search seqNum).nackList.Sublist q.nackList := drop_sublist _ _
    have hvalid := h.shrink hsub
    exact step_of_sublist _ { hvalid with } rfl hsub
  | updateRtt rttMs =>
    exact step_of_sublist _ { h with } rfl
      (List.Sublist.refl _)
  | processNacks => exact step_processNacks h (.finite c.now)

theorem valid_initial (sendNackDelay : TimeDelta) : (initial sendNackDelay).Valid :=
  ⟨⟨nofun, List.Pairwise.nil⟩, Nat.zero_le _, nofun, fun _ => rfl, rfl⟩

theorem after_append (q : NackRequester) (first second : List Call) :
    q.after (first ++ second) = (q.after first).after second := foldl_append

theorem valid_after (h : q.Valid) (calls : List Call) : (q.after calls).Valid := by
  induction calls generalizing q with
  | nil => exact h
  | cons c calls ih => exact ih (step_perform h c).valid

theorem delay_after (h : q.Valid) (calls : List Call) :
    (q.after calls).sendNackDelay = q.sendNackDelay := by
  induction calls generalizing q with
  | nil => rfl
  | cons c calls ih =>
    have hstep := step_perform h c
    exact (ih hstep.valid).trans hstep.delay

/-- The comparator is a strict total order on these keys. -/
structure StrictTotal (keys : List (BitVec 16)) : Prop where
  irrefl : ∀ a ∈ keys, descendingSeqNumComp a a = false
  trans : ∀ a ∈ keys, ∀ b ∈ keys, ∀ c ∈ keys, descendingSeqNumComp a b = true →
    descendingSeqNumComp b c = true → descendingSeqNumComp a c = true
  total : ∀ a ∈ keys, ∀ b ∈ keys, a ≠ b →
    descendingSeqNumComp a b = true ∨ descendingSeqNumComp b a = true

theorem Ordered.strictTotal {keys : List (BitVec 16)} (h : Ordered newest keys) :
    StrictTotal keys := by
  have hcomp : ∀ a ∈ keys, ∀ b ∈ keys, descendingSeqNumComp a b = true ↔
      behind newest b < behind newest a := fun a ha b hb => by
    have := h.window a ha
    have := h.window b hb
    exact comp_iff (by omega) (by omega)
  refine ⟨fun a ha => ?_, fun a ha b hb c hc hab hbc => ?_, fun a ha b hb hne => ?_⟩
  · exact Bool.eq_false_iff.mpr fun hself => Nat.lt_irrefl _ ((hcomp a ha a ha).mp hself)
  · have := (hcomp a ha b hb).mp hab
    have := (hcomp b hb c hc).mp hbc
    exact (hcomp a ha c hc).mpr (by omega)
  · have hdistinct : behind newest a ≠ behind newest b := fun heq => hne (eq_of_behind_eq heq)
    rcases Nat.lt_or_gt_of_ne hdistinct with hlt | hlt
    · exact Or.inr ((hcomp b hb a ha).mpr hlt)
    · exact Or.inl ((hcomp a ha b hb).mpr hlt)

section Stay

variable (s : BitVec 16) {q : NackRequester}

/-- The entry of the number, if there is one, has been put into this many batches. -/
def RetriesAre (q : NackRequester) (n : Nat) : Prop := ∀ e ∈ q.nackList, e.seqNum = s → e.retries = n

theorem retries_step (h : q.Valid) (c : Call) {n : Nat} (hn : RetriesAre s q n)
    (hstay : s ∈ q.keys ∨ n = 0) :
    n + (if s ∈ (q.perform c).2.batch then 1 else 0) ≤ kMaxNackRetries ∧
      RetriesAre s (q.perform c).1 (n + if s ∈ (q.perform c).2.batch then 1 else 0) := by
  have hstep := step_perform h c
  constructor
  · have hlt : n < kMaxNackRetries := by
      rcases hstay with hin | rfl
      · obtain ⟨e, he, hs⟩ := mem_map.mp hin
        rw [← hn e he hs]
        exact h.retries e he
      · decide
    split <;> omega
  · rintro e' he' rfl
    cases hstep.carried e' he' with
    | same hin hunsent => rw [if_neg hunsent, hn e' hin rfl, Nat.add_zero]
    | sent e hin heq hmem =>
      have hkey : e'.seqNum = e.seqNum := by rw [heq]; rfl
      rw [if_pos hmem, heq, ← hn e hin hkey.symm]
      rfl
    | waiting hnew _ hretries hunsent =>
      rw [if_neg hunsent, hretries, hstay.resolve_left hnew]
    | started hnew _ hretries hmem =>
      rw [if_pos hmem, hretries, hstay.resolve_left hnew]

theorem count_batches_le (h : q.Valid) (stay : List Call) {n : Nat} (hn : RetriesAre s q n)
    (hstart : s ∈ q.keys ∨ n = 0)
    (hstay : ∀ k, 0 < k → k < stay.length → s ∈ (q.after (stay.take k)).keys) :
    n + (q.batches stay).countP (fun batch => decide (s ∈ batch)) ≤ kMaxNackRetries := by
  induction stay generalizing q n with
  | nil =>
    rcases hstart with hin | rfl
    · obtain ⟨e, he, hs⟩ := mem_map.mp hin
      have hlt := h.retries e he
      rw [hn e he hs] at hlt
      exact Nat.le_of_lt hlt
    · exact Nat.zero_le _
  | cons c rest ih =>
    obtain ⟨hle, hnext⟩ := retries_step s h c hn hstart
    have hcount : (q.batches (c :: rest)).countP (fun batch => decide (s ∈ batch)) =
        (if s ∈ (q.perform c).2.batch then 1 else 0) +
          ((q.perform c).1.batches rest).countP (fun batch => decide (s ∈ batch)) := by
      rw [batches, countP_cons, Nat.add_comm]
      simp
    rw [hcount, ← Nat.add_assoc]
    cases rest with
    | nil => exact hle
    | cons c' rest =>
      have hin := hstay 1 Nat.one_pos (Nat.succ_lt_succ (Nat.succ_pos _))
      refine ih (step_perform h c).valid hnext (Or.inl hin) fun k hk hlt => ?_
      exact hstay (k + 1) (Nat.succ_pos k) (Nat.succ_lt_succ hlt)

/-- The entry of the number, if there is one, was put into a batch no earlier than then. -/
def SentSince (q : NackRequester) (t : Int) : Prop :=
  ∀ e ∈ q.nackList, e.seqNum = s → ∃ u, e.sentAtTime = .finite u ∧ t ≤ u

variable {t : Int} {c : Call}

theorem sentSince_step (h : q.Valid) (c : Call) (hsent : SentSince s q t)
    (htime : t ≤ c.now) (hstay : q.sendNackDelay = .zero ∨ s ∈ q.keys) :
    SentSince s (q.perform c).1 t := by
  rintro e' he' rfl
  cases (step_perform h c).carried e' he' with
  | same hin _ => exact hsent e' hin rfl
  | sent e _ heq _ => exact ⟨c.now, by rw [heq]; rfl, htime⟩
  | waiting hnew hdelay _ _ => exact absurd hstay (not_or.mpr ⟨hdelay, hnew⟩)
  | started _ hat _ _ => exact ⟨c.now, hat, htime⟩

theorem sentSince_after (h : q.Valid) (calls : List Call) (hsent : SentSince s q t)
    (htime : ∀ c ∈ calls, t ≤ c.now)
    (hstay : q.sendNackDelay = .zero ∨ ∀ k, k < calls.length → s ∈ (q.after (calls.take k)).keys) :
    SentSince s (q.after calls) t := by
  induction calls generalizing q with
  | nil => exact hsent
  | cons c calls ih =>
    have hstep := step_perform h c
    refine ih hstep.valid (sentSince_step s h c hsent (htime c mem_cons_self) ?_)
      ((forall_mem_cons.mp htime).2) ?_
    · exact hstay.imp_right fun hin => hin 0 (Nat.succ_pos _)
    · rcases hstay with hzero | hin
      · exact Or.inl (hstep.delay.trans hzero)
      · exact Or.inr fun k hk => hin (k + 1) (Nat.succ_lt_succ hk)

theorem perform_processNacks (hop : c.op = .processNacks) :
    q.perform c = q.processNacks (.finite c.now) := by
  rw [perform, hop]

theorem sentSince_processNacks (h : q.Valid) (hop : c.op = .processNacks)
    (hmem : s ∈ (q.perform c).2.batch) : SentSince s (q.perform c).1 c.now := by
  have hin : s ∈ q.keys := by
    rw [perform_processNacks hop] at hmem
    obtain ⟨e, he, -, hs⟩ := mem_batch_iff.mp hmem
    exact mem_map.mpr ⟨e, he, hs⟩
  rintro e' he' rfl
  cases (step_perform h c).carried e' he' with
  | same _ hunsent => exact absurd hmem hunsent
  | sent e _ heq _ => exact ⟨c.now, by rw [heq]; rfl, Int.le_refl _⟩
  | waiting hnew _ _ _ => exact absurd hin hnew
  | started hnew _ _ _ => exact absurd hin hnew

theorem rtt_le_of_processNacks (hop : c.op = .processNacks)
    (hsent : SentSince s q t) (hmem : s ∈ (q.perform c).2.batch) :
    q.rtt ≤ UnitBase.finite c.now - UnitBase.finite t := by
  rw [perform_processNacks hop] at hmem
  obtain ⟨e, he, hdue, hs⟩ := mem_batch_iff.mp hmem
  obtain ⟨u, hu, hle⟩ := hsent e he hs
  have hpassed : q.rtt ≤ UnitBase.finite c.now - e.sentAtTime := by
    simp only [due, Bool.and_eq_true, Bool.or_eq_true, decide_eq_true_eq] at hdue
    rcases hdue.2 with ⟨hoption, -⟩ | ⟨-, hrtt⟩
    · exact absurd hoption (by decide)
    · exact hrtt
  rw [hu, UnitBase.finite_sub_finite] at hpassed
  rw [UnitBase.finite_sub_finite]
  cases hrtt : q.rtt with
  | minusInfinity => rfl
  | finite r =>
    rw [hrtt, UnitBase.finite_le_finite] at hpassed
    rw [UnitBase.finite_le_finite]
    omega
  | plusInfinity =>
    rw [hrtt] at hpassed
    cases hpassed

end Stay

/-- After every run the list holds at most `kMaxNackPackets` numbers, at most `kMaxPacketAge` behind
the newest, the comparator is a strict total order on them, and the check in `AddPacketsToNack` has
not failed. While a number is in the list it is put into at most `kMaxNackRetries` batches, and
batches by time that contain it are at least `rtt_` apart. -/
theorem nackList_lawful (sendNackDelay : TimeDelta) (calls : List Call)
    (times : calls.Pairwise fun c c' => c.now ≤ c'.now) :
    (((initial sendNackDelay).after calls).nackList.length ≤ kMaxNackPackets ∧
      (∀ k ∈ ((initial sendNackDelay).after calls).keys,
        0 < behind ((initial sendNackDelay).after calls).newestSeqNum k ∧
          behind ((initial sendNackDelay).after calls).newestSeqNum k ≤ kMaxPacketAge.toNat) ∧
      StrictTotal ((initial sendNackDelay).after calls).keys ∧
      ((initial sendNackDelay).after calls).checked = true) ∧
    (∀ (before stay later : List Call) (s : BitVec 16), calls = before ++ stay ++ later →
      (∀ k, 0 < k → k < stay.length →
        s ∈ ((initial sendNackDelay).after (before ++ stay.take k)).keys) →
      (((initial sendNackDelay).after before).batches stay).countP (fun batch => decide (s ∈ batch)) ≤
        kMaxNackRetries) ∧
    (∀ (before between later : List Call) (first second : Call) (s : BitVec 16),
      calls = before ++ first :: between ++ second :: later →
      first.op = .processNacks → second.op = .processNacks →
      s ∈ (((initial sendNackDelay).after before).perform first).2.batch →
      s ∈ (((initial sendNackDelay).after (before ++ first :: between)).perform second).2.batch →
      (sendNackDelay = .zero ∨ ∀ k, k < between.length →
        s ∈ ((initial sendNackDelay).after (before ++ first :: between.take k)).keys) →
      ((initial sendNackDelay).after (before ++ first :: between)).rtt ≤
        UnitBase.finite second.now - UnitBase.finite first.now) := by
  have hinit := valid_initial sendNackDelay
  have hvalid := valid_after hinit calls
  refine ⟨⟨hvalid.length, hvalid.ordered.window, Ordered.strictTotal hvalid.ordered, hvalid.checked⟩,
    ?_, ?_⟩
  · intro before stay later s _ hstay
    have hbefore := valid_after hinit before
    have hkeys : ∀ k, 0 < k → k < stay.length →
        s ∈ (((initial sendNackDelay).after before).after (stay.take k)).keys := fun k hk hlt => by
      rw [← after_append]
      exact hstay k hk hlt
    by_cases hin : s ∈ ((initial sendNackDelay).after before).keys
    · obtain ⟨e, he, hs⟩ := mem_map.mp hin
      have hretries : RetriesAre s ((initial sendNackDelay).after before) e.retries :=
        fun e' he' hs' => congrArg NackInfo.retries (hbefore.unique he' he (hs'.trans hs.symm))
      have := count_batches_le s hbefore stay hretries (Or.inl hin) hkeys
      omega
    · have hretries : RetriesAre s ((initial sendNackDelay).after before) 0 :=
        fun e' he' hs' => absurd (mem_map.mpr ⟨e', he', hs'⟩) hin
      have := count_batches_le s hbefore stay hretries (Or.inr rfl) hkeys
      omega
  · intro before between later first second s hcalls hfirst hsecond hmem hmem' hstay
    have hbefore := valid_after hinit before
    have hsent := sentSince_processNacks s hbefore hfirst hmem
    have hstep := step_perform hbefore first
    have htimes : ∀ c ∈ between, first.now ≤ c.now := fun c hc => by
      rw [hcalls] at times
      have hsub : (first :: between).Sublist (before ++ first :: between ++ second :: later) :=
        (sublist_append_right _ _).trans (sublist_append_left _ _)
      exact rel_of_pairwise_cons (times.sublist hsub) hc
    have hafter : (initial sendNackDelay).after (before ++ first :: between) =
        (((initial sendNackDelay).after before).perform first).1.after between := by
      rw [after_append]
      rfl
    have hsince := sentSince_after s hstep.valid between hsent htimes (by
      rcases hstay with hzero | hin
      · exact Or.inl (hstep.delay.trans ((delay_after hinit before).trans hzero))
      · refine Or.inr fun k hk => ?_
        have := hin k hk
        rw [after_append] at this
        exact this)
    rw [← hafter] at hsince
    exact rtt_le_of_processNacks s hsecond hsince hmem'

/-- Packet 1 is lost, and requested again after a round trip each time. -/
def oneLost : List Call :=
  [⟨.leftmost, 0, .onReceivedPacket 0 false⟩, ⟨.leftmost, 0, .onReceivedPacket 2 false⟩,
    ⟨.leftmost, 100000, .processNacks⟩, ⟨.leftmost, 200000, .processNacks⟩]

theorem nackList_lawful_oneLost :
    ((initial .zero).after oneLost).keys = [1] ∧ ((initial .zero).after oneLost).checked = true ∧
      (((initial .zero).after (oneLost.take 1)).batches (oneLost.drop 1)).countP
        (fun batch => decide (1 ∈ batch)) ≤ kMaxNackRetries ∧
      ((initial .zero).after (oneLost.take 3)).rtt ≤
        UnitBase.finite 200000 - UnitBase.finite 100000 := by
  obtain ⟨⟨-, -, -, hchecked⟩, hcount, hspacing⟩ :=
    nackList_lawful .zero oneLost (by unfold oneLost; decide)
  refine ⟨by decide +kernel, hchecked, ?_, ?_⟩
  · refine hcount (oneLost.take 1) (oneLost.drop 1) [] 1 rfl fun k hpos hlt => ?_
    have hk : k = 1 ∨ k = 2 := by
      change k < 3 at hlt
      omega
    rcases hk with rfl | rfl <;> decide +kernel
  · exact hspacing (oneLost.take 2) [] [] ⟨.leftmost, 100000, .processNacks⟩
      ⟨.leftmost, 200000, .processNacks⟩ 1 rfl rfl rfl (by decide +kernel) (by decide +kernel)
      (Or.inl rfl)

end NackRequester

end Video
