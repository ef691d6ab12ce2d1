import WebRtc.Lib.RingBuffer

/-!
# The history of decoded frames

Model of `modules/video_coding/utility/decoded_frames_history.cc`: a cyclic buffer of bits that
remembers which of the last frame ids were decoded. The remainder of a frame id is taken of an
unsigned 64-bit number, as the conversion to `size_t` has it.
-/

namespace Video

open RingBuffer List

structure DecodedFramesHistory where
  buffer : List Bool
  lastFrameId : Option Int
  lastDecodedFrame : Option Int
  lastDecodedFrameTimestamp : Option (BitVec 32)
deriving DecidableEq

namespace DecodedFramesHistory

variable {h : DecodedFramesHistory} {proper : Int → Prop} {decoded : List Int}

def initial (windowSize : Nat) : DecodedFramesHistory :=
  ⟨List.replicate windowSize false, none, none, none⟩

variable (h)

/-- `FrameIdToIndex`: the operands of the remainder are converted to `size_t`, so that it is never
negative. -/
def frameIdToIndex (frameId : Int) : Nat :=
  (frameId % 2 ^ 64).toNat % h.buffer.length

def fillFalse (first last : Nat) (buffer : List Bool) : List Bool :=
  buffer.mapIdx fun k bit => if first ≤ k ∧ k < last then false else bit

def expire (frameId : Int) : List Bool :=
  match h.lastFrameId with
  | none => h.buffer
  | some lastFrameId =>
    let newIndex := h.frameIdToIndex frameId
    let lastIndex := h.frameIdToIndex lastFrameId
    if frameId - lastFrameId ≥ h.buffer.length then fillFalse 0 h.buffer.length h.buffer
    else if newIndex > lastIndex then fillFalse (lastIndex + 1) newIndex h.buffer
    else fillFalse 0 newIndex (fillFalse (lastIndex + 1) h.buffer.length h.buffer)

def insertDecoded (frameId : Int) (timestamp : BitVec 32) : DecodedFramesHistory where
  buffer := (h.expire frameId).set (h.frameIdToIndex frameId) true
  lastFrameId := some frameId
  lastDecodedFrame := some frameId
  lastDecodedFrameTimestamp := some timestamp

def wasDecoded (frameId : Int) : Bool :=
  match h.lastFrameId with
  | none => false
  | some lastFrameId =>
    if frameId ≤ lastFrameId - h.buffer.length then false
    else if frameId > lastFrameId then false
    else h.buffer.getD (h.frameIdToIndex frameId) false

def clear : DecodedFramesHistory :=
  ⟨fillFalse 0 h.buffer.length h.buffer, none, none, none⟩

@[simp] theorem length_fillFalse (first last : Nat) (buffer : List Bool) :
    (fillFalse first last buffer).length = buffer.length :=
  length_mapIdx

theorem getD_fillFalse (first last : Nat) (buffer : List Bool) (k : Nat) :
    (fillFalse first last buffer).getD k false =
      if first ≤ k ∧ k < last then false else buffer.getD k false := by
  rw [fillFalse, getD_eq_getElem?_getD, getD_eq_getElem?_getD, getElem?_mapIdx]
  cases buffer[k]? with
  | none => simp
  | some bit =>
    rfl

@[simp] theorem length_expire (frameId : Int) : (h.expire frameId).length = h.buffer.length := by
  unfold expire
  split
  · rfl
  · dsimp only
    split_ifs <;> simp

@[simp] theorem length_insertDecoded (frameId : Int) (timestamp : BitVec 32) :
    (h.insertDecoded frameId timestamp).buffer.length = h.buffer.length :=
  (length_set ..).trans (length_expire h frameId)

variable {h}

/-- The buffer remembers which of the last ids were decoded, among those that it tells apart. -/
structure Remembers (h : DecodedFramesHistory) (proper : Int → Prop) (decoded : List Int) : Prop where
  pos : 0 < h.buffer.length
  index : ∀ x, proper x → h.frameIdToIndex x = RingBuffer.slot h.buffer.length x
  lastDecodedFrame : h.lastDecodedFrame = h.lastFrameId
  nothing : h.lastFrameId = none → decoded = [] ∧ ∀ k, h.buffer.getD k false = false
  last : ∀ last, h.lastFrameId = some last → proper last ∧ last ∈ decoded ∧
    (∀ x ∈ decoded, x ≤ last) ∧ ∀ x, proper x → last - h.buffer.length < x → x ≤ last →
      (h.buffer.getD (RingBuffer.slot h.buffer.length x) false = true ↔ x ∈ decoded)

theorem Remembers.wasDecoded_iff (hr : Remembers h proper decoded) {x : Int} (hx : proper x) :
    h.wasDecoded x = true ↔
      x ∈ decoded ∧ ∀ last, h.lastFrameId = some last → last - h.buffer.length < x := by
  unfold wasDecoded
  split
  · rename_i hnone
    rw [(hr.nothing hnone).1]
    simp
  · rename_i last hlast
    obtain ⟨-, -, hle, hbits⟩ := hr.last last hlast
    rw [hlast]
    split_ifs with hold hnew
    · refine iff_of_false not_false fun hboth => ?_
      have := hboth.2 last rfl
      omega
    · refine iff_of_false not_false fun hboth => ?_
      have := hle x hboth.1
      omega
    · rw [hr.index x hx, hbits x hx (by omega) (by omega)]
      refine ⟨fun hmem => ⟨hmem, fun last' heq => ?_⟩, And.left⟩
      cases heq
      omega

theorem remembers_initial {windowSize : Nat} (pos : 0 < windowSize) (hindex : ∀ x, proper x →
      (initial windowSize).frameIdToIndex x = slot (initial windowSize).buffer.length x) :
    Remembers (initial windowSize) proper [] where
  pos := by simpa [initial] using pos
  index := hindex
  lastDecodedFrame := rfl
  nothing _ := ⟨rfl, fun k => by simp [initial, getElem?_replicate]; split <;> rfl⟩
  last := nofun

theorem frameIdToIndex_eq_slot {windowSize : Nat} {x : Int}
    (h : windowSize ∣ 2 ^ 64 ∨ 0 ≤ x ∧ x < 2 ^ 63) :
    (initial windowSize).frameIdToIndex x = slot (initial windowSize).buffer.length x := by
  have hmod : x % 2 ^ 64 % windowSize = x % windowSize := by
    rcases h with hdvd | ⟨hnonneg, hlt⟩
    · exact Int.emod_emod_of_dvd x (by exact_mod_cast hdvd)
    · rw [Int.emod_eq_of_lt hnonneg (by omega)]
  obtain ⟨y, hy⟩ := Int.eq_ofNat_of_zero_le (Int.emod_nonneg x (by decide : (2 : Int) ^ 64 ≠ 0))
  rw [frameIdToIndex, slot, initial, length_replicate, ← hmod, hy]
  rfl

theorem Remembers.clear (hr : Remembers h proper decoded) : Remembers h.clear proper [] where
  pos := by
    change 0 < (fillFalse 0 h.buffer.length h.buffer).length
    rw [length_fillFalse]
    exact hr.pos
  index x hx := by
    change (x % 2 ^ 64).toNat % (fillFalse 0 h.buffer.length h.buffer).length =
      slot (fillFalse 0 h.buffer.length h.buffer).length x
    rw [length_fillFalse]
    exact hr.index x hx
  lastDecodedFrame := rfl
  nothing _ := by
    refine ⟨rfl, fun k => ?_⟩
    change (fillFalse 0 h.buffer.length h.buffer).getD k false = false
    rw [getD_fillFalse]
    split_ifs with hk
    · rfl
    · rw [getD_eq_getElem?_getD, getElem?_eq_none (by omega)]
      rfl
  last := nofun

theorem getD_expire (hr : Remembers h proper decoded) {new : Int} (hnew : proper new) {last : Int}
    (hlast : h.lastFrameId = some last) (hlt : last < new) {x : Int}
    (hlow : new - h.buffer.length < x) (hhigh : x < new) :
    (h.expire new).getD (slot h.buffer.length x) false =
      if x ≤ last then h.buffer.getD (slot h.buffer.length x) false else false := by
  obtain ⟨hproper, -⟩ := hr.last last hlast
  have hslotx := slot_lt hr.pos x
  unfold expire
  rw [hlast]
  dsimp only
  rw [hr.index new hnew, hr.index last hproper]
  by_cases hjump : new - last ≥ h.buffer.length
  · rw [if_pos hjump, getD_fillFalse, if_pos ⟨Nat.zero_le _, hslotx⟩, if_neg (by omega)]
  · have hn := @slot_add h.buffer.length last (new - last) (by omega) (by omega)
    have hx := @slot_add h.buffer.length last (x - last) (by omega) (by omega)
    rw [show last + (new - last) = new by ring] at hn
    rw [show last + (x - last) = x by ring] at hx
    have hslotl := slot_lt hr.pos last
    by_cases hkept : x ≤ last
    · split_ifs with hwrap
      · rw [getD_fillFalse, if_neg]
        split_ifs at hn hx <;> omega
      · rw [getD_fillFalse, if_neg, getD_fillFalse, if_neg]
        · split_ifs at hn hx <;> omega
        · split_ifs at hn hx <;> omega
    · split_ifs with hwrap
      · rw [getD_fillFalse, if_pos]
        split_ifs at hn hx <;> omega
      · rw [getD_fillFalse, getD_fillFalse]
        split_ifs with hfirst hsecond
        · rfl
        · rfl
        · split_ifs at hn hx <;> omega

theorem getD_set_true (buffer : List Bool) {k : Nat} (hk : k < buffer.length) (j : Nat) :
    (buffer.set k true).getD j false = if k = j then true else buffer.getD j false := by
  rw [getD_eq_getElem?_getD, getElem?_set]
  split_ifs
  · rfl
  · rw [getD_eq_getElem?_getD]

theorem Remembers.insertDecoded (hr : Remembers h proper decoded) {new : Int} (hnew : proper new)
    (hlater : ∀ last, h.lastFrameId = some last → last < new) (timestamp : BitVec 32) :
    Remembers (h.insertDecoded new timestamp) proper (decoded ++ [new]) := by
  have hlength := length_insertDecoded h new timestamp
  have hslot := slot_lt hr.pos new
  have hbelow : ∀ x ∈ decoded, x < new := by
    intro x hx
    cases hlast : h.lastFrameId with
    | none =>
      rw [(hr.nothing hlast).1] at hx
      cases hx
    | some last =>
      exact lt_of_le_of_lt ((hr.last last hlast).2.2.1 x hx) (hlater last hlast)
  refine ⟨hlength ▸ hr.pos, fun x hx => ?_, rfl, nofun, fun last hlast => ?_⟩
  · have hindex := hr.index x hx
    unfold frameIdToIndex at hindex ⊢
    rw [hlength]
    exact hindex
  · cases hlast
    refine ⟨hnew, by simp, fun x hx => ?_, fun x hx hlow hhigh => ?_⟩
    · rcases mem_append.mp hx with hold | hin
      · exact (hbelow x hold).le
      · exact (mem_singleton.mp hin).le
    · rw [hlength] at hlow ⊢
      change ((h.expire new).set (h.frameIdToIndex new) true).getD _ false = true ↔ _
      have hsame := @slot_eq_iff h.buffer.length new x (by omega) (by omega)
      rw [hr.index new hnew, getD_set_true _ (by rw [length_expire]; exact hslot), mem_append,
        mem_singleton]
      by_cases heq : new = x
      · rw [if_pos (hsame.mpr heq)]
        exact iff_of_true rfl (.inr heq.symm)
      · rw [if_neg fun hslots => heq (hsame.mp hslots), or_iff_left (Ne.symm heq)]
        cases hlast : h.lastFrameId with
        | none =>
          obtain ⟨hnil, hbits⟩ := hr.nothing hlast
          have hexpire : h.expire new = h.buffer := by
            rw [expire, hlast]
          rw [hexpire, hbits, hnil]
          simp
        | some last =>
          rw [getD_expire hr hnew hlast (hlater last hlast) hlow (by omega)]
          obtain ⟨-, -, hle, hbits⟩ := hr.last last hlast
          have hlt := hlater last hlast
          split_ifs with hkept
          · exact hbits x hx (by omega) hkept
          · refine iff_of_false not_false fun hmem => hkept (hle x hmem)

inductive Call where
  | insertDecoded (frameId : Int) (timestamp : BitVec 32)
  | clear

def perform (h : DecodedFramesHistory) : Call → DecodedFramesHistory
  | .insertDecoded frameId timestamp => h.insertDecoded frameId timestamp
  | .clear => h.clear

/-- The ids inserted since the last `Clear`, where some were inserted before the calls. -/
def insertedSince : List Int → List Call → List Int
  | ids, [] => ids
  | ids, .insertDecoded frameId _ :: calls => insertedSince (ids ++ [frameId]) calls
  | _, .clear :: calls => insertedSince [] calls

/-- Every id inserted is later than those before it, and satisfies a condition. -/
def Increasing (proper : Int → Prop) : List Int → List Call → Prop
  | _, [] => True
  | ids, .insertDecoded frameId _ :: calls =>
    proper frameId ∧ (∀ x ∈ ids, x < frameId) ∧ Increasing proper (ids ++ [frameId]) calls
  | _, .clear :: calls => Increasing proper [] calls

/-- Ids that a history tells apart: an index fits into `int`, and a difference of two ids into 64
bits. -/
def Told (windowSize : Nat) (x : Int) : Prop :=
  windowSize ≤ 2 ^ 31 ∧ -2 ^ 62 ≤ x ∧ x < 2 ^ 62 ∧ (windowSize ∣ 2 ^ 64 ∨ 0 ≤ x)

theorem Told.frameIdToIndex_eq {windowSize : Nat} {x : Int} (h : Told windowSize x) :
    (initial windowSize).frameIdToIndex x = slot (initial windowSize).buffer.length x :=
  frameIdToIndex_eq_slot (h.2.2.2.imp_right fun hnonneg => ⟨hnonneg, h.2.2.1.trans (by decide)⟩)

theorem Remembers.run (hr : Remembers h proper decoded) (hlast : h.lastFrameId = decoded.getLast?)
    {calls : List Call} (increasing : Increasing proper decoded calls) :
    Remembers (calls.foldl perform h) proper (insertedSince decoded calls) ∧
      (calls.foldl perform h).buffer.length = h.buffer.length ∧
      (calls.foldl perform h).lastFrameId = (insertedSince decoded calls).getLast? := by
  induction calls generalizing h decoded with
  | nil => exact ⟨hr, rfl, hlast⟩
  | cons call calls ih =>
    cases call with
    | insertDecoded frameId timestamp =>
      obtain ⟨hproper, hlater, hrest⟩ := increasing
      rw [← length_insertDecoded h frameId timestamp]
      exact ih (hr.insertDecoded hproper (fun last heq => hlater last (hr.last last heq).2.1) timestamp)
        (getLast?_concat ..).symm hrest
    | clear =>
      rw [← length_fillFalse 0 h.buffer.length h.buffer]
      exact ih hr.clear rfl increasing

/-- The history is exact, for the ids it tells apart. -/
theorem wasDecoded_run_iff {windowSize : Nat} (pos : 0 < windowSize) (calls : List Call)
    (increasing : Increasing (Told windowSize) [] calls) {f : Int} (hf : Told windowSize f) :
    (calls.foldl perform (initial windowSize)).wasDecoded f = true ↔ f ∈ insertedSince [] calls ∧
      ∀ last ∈ (insertedSince [] calls).getLast?, last - windowSize < f := by
  obtain ⟨hr, hlength, hlast⟩ :=
    (remembers_initial pos fun x hx => Told.frameIdToIndex_eq hx).run rfl increasing
  rw [hr.wasDecoded_iff hf, hlength, hlast, initial, length_replicate]
  rfl

/-- Ids of both signs, and a window that is a power of two. -/
theorem wasDecoded_run_iff_bothSigns :
    let calls : List Call := [.insertDecoded 9 0, .clear, .insertDecoded (-2) 0, .insertDecoded 1 0]
    ([-2, -1, 1, 9].map (calls.foldl perform (initial 4)).wasDecoded) = [true, false, true, false] ∧
      -2 ∈ insertedSince [] calls := by
  refine ⟨by decide +kernel, ((wasDecoded_run_iff (by decide : 0 < 4) _ ?_ ?_).mp ?_).1⟩
  · simp [Increasing, Told]
  · simp [Told]
  · decide +kernel

/-- Zero and the id before it have one index in a window of three. -/
theorem wasDecoded_not_inserted : let calls : List Call := [.insertDecoded 0 0]
    (calls.foldl perform (initial 3)).wasDecoded (-1) = true ∧ -1 ∉ insertedSince [] calls := by
  decide +kernel

end DecodedFramesHistory

end Video
