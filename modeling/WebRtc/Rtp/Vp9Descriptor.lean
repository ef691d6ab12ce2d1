import WebRtc.Rtp.Vp9

/-!
# The bits of a VP9 payload descriptor

The descriptor of a packet is a list of bits that depends on the header and on the place of the
packet in the frame. The packetizer writes exactly these bits, into a buffer of their size, and the
depacketizer makes `receivedHeader` of them.
-/

namespace Rtp.Vp9

open EventLog BitLists List

structure Fits (hdr : RTPVideoHeaderVP9) : Prop where
  maxPictureId : hdr.maxPictureId = kMaxOneBytePictureId ∨ hdr.maxPictureId = kMaxTwoBytePictureId
  pictureId : hdr.pictureId = kNoPictureId ∨ (0 ≤ hdr.pictureId ∧ hdr.pictureId ≤ hdr.maxPictureId)
  layers : (hdr.temporalIdx = kNoTemporalIdx ∧ hdr.spatialIdx = kNoSpatialIdx) ∨
    (hdr.temporalIdx.toNat < 8 ∧ hdr.spatialIdx.toNat < 5 ∧
      (hdr.flexibleMode = false → 0 ≤ hdr.tl0PicIdx ∧ hdr.tl0PicIdx ≤ 255))
  references : hdr.interPicPredicted = true → hdr.flexibleMode = true →
    hdr.pictureId ≠ kNoPictureId ∧ 1 ≤ hdr.numRefPics ∧ hdr.numRefPics ≤ 3 ∧
      ∀ i < hdr.numRefPics, (hdr.pidDiff i).toNat < 128
  scalability : hdr.ssDataAvailable = true →
    1 ≤ hdr.numSpatialLayers ∧ hdr.numSpatialLayers ≤ 8 ∧ hdr.gof.numFramesInGof ≤ 255 ∧
      ∀ i < hdr.gof.numFramesInGof,
        (hdr.gof.temporalIdx i).toNat < 8 ∧ (hdr.gof.numRefPics i).toNat ≤ 3
  firstActiveLayer : hdr.firstActiveLayer = 0
  endOfPicture : hdr.endOfPicture = true ∨ hdr.spatialIdx.toNat + 1 < hdr.numSpatialLayers

variable (hdr : RTPVideoHeaderVP9)

def pictureIdBits : List Bool :=
  [pictureIdLength hdr == 2] ++
    bits (if pictureIdLength hdr == 2 then 15 else 7) hdr.pictureId.toNat

def layerInfoBits : List Bool :=
  (bits 3 hdr.temporalIdx.toNat ++ ([hdr.temporalUpSwitch] ++
    (bits 3 hdr.spatialIdx.toNat ++ [hdr.interLayerPredicted]))) ++
    if !hdr.flexibleMode then bits 8 hdr.tl0PicIdx.toNat else []

def referenceBits (i : Nat) : List Bool :=
  bits 7 (hdr.pidDiff i).toNat ++ [!(i == hdr.numRefPics - 1)]

def resolutionBits (i : Nat) : List Bool :=
  bits 16 (hdr.width i).toNat ++ bits 16 (hdr.height i).toNat

def gofFrameBits (gof : GofInfoVP9) (i : Nat) : List Bool :=
  bits 3 (gof.temporalIdx i).toNat ++ ([gof.temporalUpSwitch i] ++
    (bits 2 (gof.numRefPics i).toNat ++ (bits 2 0 ++
      (List.range (gof.numRefPics i).toNat).flatMap fun r => bits 8 (gof.pidDiff i r).toNat)))

def ssDataBits : List Bool :=
  bits 3 (hdr.numSpatialLayers - 1) ++ ([hdr.spatialLayerResolutionPresent] ++
    ([decide (hdr.gof.numFramesInGof > 0)] ++ (bits 3 0 ++
      ((if hdr.spatialLayerResolutionPresent then
        (List.range hdr.numSpatialLayers).flatMap (resolutionBits hdr) else []) ++
      ((if decide (hdr.gof.numFramesInGof > 0) then bits 8 hdr.gof.numFramesInGof else []) ++
        (List.range hdr.gof.numFramesInGof).flatMap (gofFrameBits hdr.gof))))))

def firstByteBits (layerBegin layerEnd : Bool) : List Bool :=
  [pictureIdPresent hdr, hdr.interPicPredicted, layerInfoPresent hdr, hdr.flexibleMode, layerBegin,
    layerEnd, hdr.ssDataAvailable && layerBegin, hdr.nonRefForInterLayerPred]

/-- The bits of the descriptor in a packet that begins or ends its frame, or not. -/
def descriptorBits (layerBegin layerEnd : Bool) : List Bool :=
  firstByteBits hdr layerBegin layerEnd ++
    ((if pictureIdPresent hdr then pictureIdBits hdr else []) ++
    ((if layerInfoPresent hdr then layerInfoBits hdr else []) ++
    ((if hdr.interPicPredicted && hdr.flexibleMode then
      (List.range hdr.numRefPics).flatMap (referenceBits hdr) else []) ++
    (if hdr.ssDataAvailable && layerBegin then ssDataBits hdr else []))))

section Writing

variable {hdr : RTPVideoHeaderVP9}

theorem pictureIdPresent_iff : pictureIdPresent hdr = true ↔ hdr.pictureId ≠ kNoPictureId := by
  simp only [pictureIdPresent, pictureIdLength]
  split_ifs with hnone hone <;> simp [hnone]

theorem layerInfoPresent_iff : layerInfoPresent hdr = true ↔
    ¬ (hdr.temporalIdx = kNoTemporalIdx ∧ hdr.spatialIdx = kNoSpatialIdx) := by
  simp only [layerInfoPresent, layerInfoLength]
  split_ifs with hnone hflexible <;> simp [hnone]

theorem Fits.pictureId_range (h : Fits hdr) (hpresent : pictureIdPresent hdr = true) :
    0 ≤ hdr.pictureId ∧ hdr.pictureId.toNat < 2 ^ (if pictureIdLength hdr == 2 then 15 else 7) := by
  have hsome := pictureIdPresent_iff.mp hpresent
  obtain ⟨hnonneg, hle⟩ := h.pictureId.resolve_left hsome
  refine ⟨hnonneg, ?_⟩
  rw [pictureIdLength, if_neg hsome]
  rcases h.maxPictureId with hmax | hmax
  · rw [if_pos hmax]
    simp only [hmax, kMaxOneBytePictureId] at hle
    simp
    omega
  · rw [if_neg (show ¬ hdr.maxPictureId = kMaxOneBytePictureId by rw [hmax]; decide)]
    simp only [hmax, kMaxTwoBytePictureId] at hle
    simp
    omega

theorem toNat_ofInt {n : Nat} {v : Int} (hnonneg : 0 ≤ v) (hlt : v.toNat < 2 ^ n) :
    (BitVec.ofInt n v).toNat = v.toNat := by
  obtain ⟨v, rfl⟩ := Int.eq_ofNat_of_zero_le hnonneg
  exact Nat.mod_eq_of_lt hlt

theorem writes_pictureId (h : Fits hdr) (hpresent : pictureIdPresent hdr = true) :
    Writes (writePictureId hdr) (pictureIdBits hdr) := by
  obtain ⟨hnonneg, hlt⟩ := h.pictureId_range hpresent
  have hvalue : (BitVec.ofInt 64 hdr.pictureId).toNat = hdr.pictureId.toNat := by
    apply toNat_ofInt hnonneg
    refine Nat.lt_of_lt_of_le hlt (Nat.pow_le_pow_right (by decide) ?_)
    split <;> decide
  rw [pictureIdBits, ← hvalue]
  refine (Writes.bit _).andThen (Writes.bits _ ?_ ?_) <;> split <;> decide

theorem Fits.layers_range (h : Fits hdr) (hpresent : layerInfoPresent hdr = true) :
    hdr.temporalIdx.toNat < 8 ∧ hdr.spatialIdx.toNat < 5 ∧
      (hdr.flexibleMode = false → 0 ≤ hdr.tl0PicIdx ∧ hdr.tl0PicIdx ≤ 255) :=
  h.layers.resolve_left (layerInfoPresent_iff.mp hpresent)

theorem temporalIdxField_eq (h : hdr.temporalIdx.toNat < 8) :
    temporalIdxField hdr 0 = hdr.temporalIdx := by
  refine if_neg ?_
  rintro heq
  rw [heq] at h
  exact absurd h (by decide)

theorem spatialIdxField_eq (h : hdr.spatialIdx.toNat < 5) :
    spatialIdxField hdr 0 = hdr.spatialIdx := by
  refine if_neg ?_
  rintro heq
  rw [heq] at h
  exact absurd h (by decide)

theorem writes_layerInfo (h : Fits hdr) (hpresent : layerInfoPresent hdr = true) :
    Writes (writeLayerInfo hdr) (layerInfoBits hdr) := by
  obtain ⟨htemporal, hspatial, htl0⟩ := h.layers_range hpresent
  apply Writes.andThen
  · rw [writeLayerInfoCommon, temporalIdxField_eq htemporal, spatialIdxField_eq hspatial]
    exact (Writes.field _).andThen ((Writes.bit _).andThen
      ((Writes.field _).andThen (Writes.bit _)))
  · apply Writes.optional
    intro hfixed
    obtain ⟨hnonneg, hle⟩ := htl0 (by simpa using hfixed)
    have hfield : tl0PicIdxField hdr 0 = hdr.tl0PicIdx := if_neg (by rw [kNoTl0PicIdx]; omega)
    have hvalue : (BitVec.ofInt 8 hdr.tl0PicIdx).toNat = hdr.tl0PicIdx.toNat :=
      toNat_ofInt hnonneg (by omega)
    rw [writeLayerInfoNonFlexibleMode, hfield, ← hvalue]
    exact Writes.field _

theorem writes_refIndices (h : Fits hdr) (hmode : (hdr.interPicPredicted && hdr.flexibleMode) = true) :
    Writes (writeRefIndices hdr) ((range hdr.numRefPics).flatMap (referenceBits hdr)) := by
  rw [Bool.and_eq_true] at hmode
  obtain ⟨hpresent, hone, hthree, -⟩ := h.references hmode.1 hmode.2
  have hcheck : (!(!pictureIdPresent hdr || hdr.numRefPics == 0 ||
      decide (hdr.numRefPics > kMaxVp9RefPics))) = true := by
    rw [pictureIdPresent_iff.mpr hpresent]
    simp [kMaxVp9RefPics]
    omega
  refine Writes.afterCheck hcheck (Writes.loop fun i _ => ?_)
  exact (Writes.field _).andThen (Writes.bit _)

theorem writes_gofFrame (gof : GofInfoVP9) (i : Nat) :
    Writes (writeGofFrame gof i) (gofFrameBits gof i) := by
  refine (Writes.field _).andThen ((Writes.bit _).andThen ((Writes.field _).andThen
    ((Writes.bits 0).andThen (Writes.loop ?_))))
  intro r _
  exact Writes.field _

theorem Fits.ssDataChecks (h : Fits hdr) (hss : hdr.ssDataAvailable = true) :
    ssDataChecks hdr = true := by
  obtain ⟨hone, hmax, hframes, -⟩ := h.scalability hss
  simp only [Vp9.ssDataChecks, Bool.and_eq_true, decide_eq_true_eq]
  exact ⟨⟨hone, hmax⟩, hframes⟩

theorem writes_ssData (h : Fits hdr) (hss : hdr.ssDataAvailable = true) :
    Writes (writeSsData hdr) (ssDataBits hdr) := by
  obtain ⟨hone, hmax, hframes, -⟩ := h.scalability hss
  have hlayers := @Writes.bits (BitVec.ofNat 64 (hdr.numSpatialLayers - 1)) 3 (by decide) (by decide)
  rw [BitVec.toNat_ofNat, Nat.mod_eq_of_lt (by omega)] at hlayers
  have hcount := @Writes.bits (BitVec.ofNat 64 hdr.gof.numFramesInGof) 8 (by decide) (by decide)
  rw [BitVec.toNat_ofNat, Nat.mod_eq_of_lt (by omega)] at hcount
  refine Writes.afterCheck (h.ssDataChecks hss) (hlayers.andThen ((Writes.bit _).andThen
    ((Writes.bit _).andThen ((Writes.bits 0).andThen
    ((Writes.optional fun _ => Writes.loop fun i _ => ?_).andThen
    ((Writes.optional fun _ => hcount).andThen (Writes.loop fun i _ => writes_gofFrame hdr.gof i)))))))
  exact (Writes.field _).andThen (Writes.field _)

theorem writes_descriptor (h : Fits hdr) (layerBegin layerEnd : Bool) :
    Writes (writeDescriptor hdr layerBegin layerEnd) (descriptorBits hdr layerBegin layerEnd) := by
  refine (Writes.bit _).andThen ((Writes.bit _).andThen ((Writes.bit _).andThen
    ((Writes.bit _).andThen ((Writes.bit _).andThen ((Writes.bit _).andThen ((Writes.bit _).andThen
    ((Writes.bit _).andThen ((Writes.optional (writes_pictureId h)).andThen
    ((Writes.optional (writes_layerInfo h)).andThen ((Writes.optional (writes_refIndices h)).andThen
    (Writes.optional fun hss => writes_ssData h ?_)))))))))))
  exact (Bool.and_eq_true _ _ ▸ hss).1

theorem length_pictureIdBits :
    (if pictureIdPresent hdr then pictureIdBits hdr else []).length = 8 * pictureIdLength hdr := by
  by_cases hnone : hdr.pictureId = kNoPictureId
  · simp [pictureIdPresent, pictureIdLength, hnone]
  · by_cases hone : hdr.maxPictureId = kMaxOneBytePictureId <;>
      simp [pictureIdPresent, pictureIdBits, pictureIdLength, hnone, hone]

theorem length_layerInfoBits :
    (if layerInfoPresent hdr then layerInfoBits hdr else []).length = 8 * layerInfoLength hdr := by
  by_cases hnone : hdr.temporalIdx = kNoTemporalIdx ∧ hdr.spatialIdx = kNoSpatialIdx
  · simp [layerInfoPresent, layerInfoLength, hnone]
  · cases hflexible : hdr.flexibleMode <;>
      simp [layerInfoPresent, layerInfoBits, layerInfoLength, hnone, hflexible]

theorem length_flatMap_const {added : Nat → List Bool} {size : Nat} (count : Nat)
    (h : ∀ i < count, (added i).length = size) :
    ((range count).flatMap added).length = size * count := by
  induction count with
  | zero => rfl
  | succ count ih =>
    rw [range_succ, flatMap_append, length_append, ih fun i hi => h i (Nat.lt_succ_of_lt hi)]
    simp [h count (Nat.lt_succ_self count), Nat.mul_succ]

theorem length_referenceBits (h : Fits hdr) :
    ∃ size, refIndicesLength hdr = some size ∧ (if hdr.interPicPredicted && hdr.flexibleMode then
        (range hdr.numRefPics).flatMap (referenceBits hdr) else []).length = 8 * size := by
  by_cases hmode : hdr.interPicPredicted = true ∧ hdr.flexibleMode = true
  · obtain ⟨-, hone, hthree, -⟩ := h.references hmode.1 hmode.2
    refine ⟨hdr.numRefPics, ?_, ?_⟩
    · simp [refIndicesLength, hmode, kMaxVp9RefPics, hthree]
      omega
    · simp only [hmode]
      exact length_flatMap_const _ fun i _ => by simp [referenceBits]
  · refine ⟨0, ?_, ?_⟩
    · cases hinter : hdr.interPicPredicted <;> cases hflexible : hdr.flexibleMode <;>
        simp_all [refIndicesLength]
    · simp [hmode]

theorem length_gofBits (gof : GofInfoVP9) (count : Nat) :
    ((range count).flatMap (gofFrameBits gof)).length =
      8 * (count + ((range count).map fun i => (gof.numRefPics i).toNat).sum) := by
  induction count with
  | zero => rfl
  | succ count ih =>
    have hdiffs := length_flatMap_const (gof.numRefPics count).toNat
      fun r _ => length_bits 8 (gof.pidDiff count r).toNat
    simp only [range_succ, flatMap_append, length_append, map_append,
      sum_append, flatMap_singleton, map_singleton, sum_singleton, gofFrameBits,
      length_bits, length_singleton]
    omega

theorem ssDataLength_eq (h : Fits hdr) (hss : hdr.ssDataAvailable = true) :
    ssDataLength hdr = some (1 +
      (if hdr.spatialLayerResolutionPresent then 4 * hdr.numSpatialLayers else 0) +
      (if hdr.gof.numFramesInGof > 0 then 1 else 0) + hdr.gof.numFramesInGof +
      ((range hdr.gof.numFramesInGof).map fun i => (hdr.gof.numRefPics i).toNat).sum) := by
  have hrefs : ((range hdr.gof.numFramesInGof).all
      fun i => decide ((hdr.gof.numRefPics i).toNat ≤ kMaxVp9RefPics)) = true := by
    simp only [all_eq_true, mem_range, decide_eq_true_eq]
    exact fun i hi => ((h.scalability hss).2.2.2 i hi).2
  simp [ssDataLength, hss, h.ssDataChecks hss, hrefs]

theorem length_ssDataBits (h : Fits hdr) :
    ∃ extra, ssDataLength hdr = some extra ∧ ∀ layerBegin : Bool,
      (if hdr.ssDataAvailable && layerBegin then ssDataBits hdr else []).length =
        8 * if layerBegin then extra else 0 := by
  cases hss : hdr.ssDataAvailable with
  | false => exact ⟨0, by simp [ssDataLength, hss], by simp⟩
  | true =>
    refine ⟨_, ssDataLength_eq h hss, ?_⟩
    rintro (_ | _)
    · rfl
    · have hsizes := length_flatMap_const hdr.numSpatialLayers
        (fun i _ => show (resolutionBits hdr i).length = 32 by simp [resolutionBits])
      have hgof := length_gofBits hdr.gof hdr.gof.numFramesInGof
      simp only [ssDataBits, length_append, hgof, Bool.and_self, if_true]
      cases hdr.spatialLayerResolutionPresent <;> by_cases hframes : hdr.gof.numFramesInGof > 0 <;>
        simp [hframes, hsizes] <;> omega

/-- The lengths that the constructor computes are those of the descriptor. -/
theorem length_descriptorBits (h : Fits hdr) :
    ∃ size extra, payloadDescriptorLengthMinusSsData hdr = some size ∧
      ssDataLength hdr = some extra ∧
      ∀ layerBegin layerEnd, (descriptorBits hdr layerBegin layerEnd).length =
        8 * (size + if layerBegin then extra else 0) := by
  obtain ⟨refs, hrefs, hrefBits⟩ := length_referenceBits h
  obtain ⟨extra, hextra, hssBits⟩ := length_ssDataBits h
  refine ⟨_, extra, by rw [payloadDescriptorLengthMinusSsData, hrefs, Option.map_some], hextra, ?_⟩
  intro layerBegin layerEnd
  rw [descriptorBits, length_append, length_append, length_append,
    length_append, length_pictureIdBits, length_layerInfoBits, hssBits]
  simp only [firstByteBits, length_cons, length_nil, kFixedPayloadDescriptorBytes]
  omega

theorem writeHeader_eq (h : Fits hdr) (layerBegin layerEnd : Bool) {size : Nat}
    (hsize : (descriptorBits hdr layerBegin layerEnd).length = 8 * size) :
    ∃ buffer, writeHeader hdr layerBegin layerEnd size = some buffer ∧ buffer.length = size ∧
      ofBytes buffer = descriptorBits hdr layerBegin layerEnd := by
  have hcount : (BitBufferWriter.ofByteCount size).writableBytes.length = size :=
    length_replicate
  obtain ⟨w, hw, hwrote, hlength⟩ := writes_descriptor h layerBegin layerEnd
    (BitBufferWriter.ofByteCount size) [] (BitBufferWriter.wrote_ofByteCount size) (by
      rw [length_nil]
      omega)
  refine ⟨w.writableBytes, by rw [writeHeader, hw, Option.map_some], hlength.trans hcount, ?_⟩
  refine (hwrote.front.eq_of_length ?_).symm
  rw [nil_append, hsize, length_ofBytes, hlength, hcount]

end Writing

section Reading

variable {hdr : RTPVideoHeaderVP9}

/-- The array `old` with its first `count` entries taken from `new`. -/
def fill {α : Type} (count : Nat) (old new : Nat → α) : Nat → α :=
  fun i => if i < count then new i else old i

theorem fill_zero {α : Type} (old new : Nat → α) : fill 0 old new = old := by
  funext i
  simp [fill]

theorem update_fill {α : Type} (count : Nat) (old new : Nat → α) :
    Function.update (fill count old new) count (new count) = fill (count + 1) old new := by
  funext i
  by_cases hi : i = count
  · subst hi
    simp [fill]
  · have hlt : i < count + 1 ↔ i < count := by omega
    simp [fill, Function.update_of_ne hi, hlt]

theorem fill_of_lt {α : Type} {count i : Nat} (old new : Nat → α) (h : i < count) :
    fill count old new i = new i := if_pos h

theorem reads_pictureId (h : Fits hdr) (hpresent : pictureIdPresent hdr = true)
    (vp9 : RTPVideoHeaderVP9) :
    Reads (parsePictureId vp9) (pictureIdBits hdr)
      { vp9 with pictureId := hdr.pictureId, maxPictureId := hdr.maxPictureId } := by
  obtain ⟨hnonneg, hlt⟩ := h.pictureId_range hpresent
  have hsome := pictureIdPresent_iff.mp hpresent
  have hvalue : ((BitVec.ofNat 64 hdr.pictureId.toNat).toNat : Int) = hdr.pictureId := by
    have hsmall : hdr.pictureId.toNat < 2 ^ 64 := by
      refine Nat.lt_of_lt_of_le hlt (Nat.pow_le_pow_right (by decide) ?_)
      split <;> decide
    rw [BitVec.toNat_ofNat, Nat.mod_eq_of_lt hsmall, Int.toNat_of_nonneg hnonneg]
  refine (Reads.bit _).andThen ?_
  rcases h.maxPictureId with hmax | hmax
  · have hlength : pictureIdLength hdr = 1 := by simp [pictureIdLength, hsome, hmax]
    rw [hlength] at hlt ⊢
    have hread := (Reads.bits (show 7 ≤ 64 by decide) hlt).map fun pictureId =>
      { vp9 with pictureId := pictureId.toNat, maxPictureId := kMaxOneBytePictureId }
    rw [hvalue] at hread
    rw [hmax]
    exact hread
  · have hlength : pictureIdLength hdr = 2 := by
      simp [pictureIdLength, hsome, hmax, kMaxOneBytePictureId, kMaxTwoBytePictureId]
    rw [hlength] at hlt ⊢
    have hread := (Reads.bits (show 15 ≤ 64 by decide) hlt).map fun pictureId =>
      { vp9 with pictureId := pictureId.toNat, maxPictureId := kMaxTwoBytePictureId }
    rw [hvalue] at hread
    rw [hmax]
    exact hread

theorem setWidth_ofNat_toNat {n : Nat} (hn : n ≤ 64) (v : BitVec n) :
    (BitVec.ofNat 64 v.toNat).setWidth n = v := by
  apply BitVec.eq_of_toNat_eq
  have hsmall := Nat.lt_of_lt_of_le v.isLt (Nat.pow_le_pow_right (show 0 < 2 by decide) hn)
  rw [BitVec.toNat_setWidth, BitVec.toNat_ofNat, Nat.mod_eq_of_lt hsmall, Nat.mod_eq_of_lt v.isLt]

theorem reads_layerInfo (h : Fits hdr) (hpresent : layerInfoPresent hdr = true)
    {vp9 : RTPVideoHeaderVP9} (hmode : vp9.flexibleMode = hdr.flexibleMode) :
    Reads (parseLayerInfo vp9) (layerInfoBits hdr)
      { vp9 with
        temporalIdx := hdr.temporalIdx
        temporalUpSwitch := hdr.temporalUpSwitch
        spatialIdx := hdr.spatialIdx
        interLayerPredicted := hdr.interLayerPredicted
        tl0PicIdx := if hdr.flexibleMode then vp9.tl0PicIdx else hdr.tl0PicIdx } := by
  obtain ⟨htemporal, hspatial, htl0⟩ := h.layers_range hpresent
  refine (Reads.bits (by decide) htemporal).andThen ((Reads.bit _).andThen
    ((Reads.bits (by decide) (by omega)).andThen ((Reads.bit _).andThen ?_)))
  rw [← hmode] at htl0 ⊢
  rw [setWidth_ofNat_toNat (by decide), setWidth_ofNat_toNat (by decide),
    if_neg (show ¬ hdr.spatialIdx.toNat ≥ kMaxSpatialLayers by rw [kMaxSpatialLayers]; omega)]
  cases hflexible : vp9.flexibleMode with
  | true => exact Reads.nothing _
  | false =>
    obtain ⟨hnonneg, hle⟩ := htl0 hflexible
    have hbyte := toNat_ofInt hnonneg (show hdr.tl0PicIdx.toNat < 2 ^ 8 by omega)
    have hread := (Reads.byte (BitVec.ofInt 8 hdr.tl0PicIdx)).map fun tl0PicIdx =>
      { vp9 with
        temporalIdx := hdr.temporalIdx
        temporalUpSwitch := hdr.temporalUpSwitch
        spatialIdx := hdr.spatialIdx
        interLayerPredicted := hdr.interLayerPredicted
        tl0PicIdx := tl0PicIdx.toNat }
    rw [hbyte, Int.toNat_of_nonneg hnonneg, hflexible] at hread
    exact hread

theorem addReferences_eq (vp9 : RTPVideoHeaderVP9) (pidDiff : Nat → BitVec 8) (count : Nat) :
    (range count).foldl (fun vp9 i => addReference vp9 (pidDiff i))
        { vp9 with numRefPics := 0 } = { vp9 with
        pidDiff := fill count vp9.pidDiff pidDiff
        refPictureId := fill count vp9.refPictureId
          fun i => referencePictureId vp9.pictureId vp9.maxPictureId (pidDiff i)
        numRefPics := count } := by
  induction count with
  | zero => simp [fill_zero]
  | succ count ih =>
    rw [range_succ, foldl_append, ih]
    simp [addReference, update_fill]

theorem reads_refLoop (hrange : ∀ i < hdr.numRefPics, (hdr.pidDiff i).toNat < 128) (more start : Nat)
    {places : Nat} (hplaces : more < places) (hend : start + more + 1 = hdr.numRefPics)
    (vp9 : RTPVideoHeaderVP9) :
    Reads (parseRefLoop places vp9)
      ((range' start (more + 1)).flatMap (referenceBits hdr))
      ((range' start (more + 1)).foldl (fun vp9 i => addReference vp9 (hdr.pidDiff i)) vp9) := by
  induction more generalizing start places vp9 with
  | zero =>
    obtain ⟨places, rfl⟩ := Nat.exists_eq_add_of_le' hplaces
    have hlast : (start == hdr.numRefPics - 1) = true := by
      rw [beq_iff_eq]
      omega
    have hone : range' start (0 + 1) = [start] := rfl
    rw [hone, flatMap_singleton, referenceBits, hlast]
    refine (Reads.bits (by decide) (hrange start (by omega))).andThen ?_
    rw [setWidth_ofNat_toNat (by decide)]
    exact (Reads.bit false).andDone (Reads.nothing _)
  | succ more ih =>
    obtain ⟨places, rfl⟩ := Nat.exists_eq_add_of_le' (show 1 ≤ places by omega)
    have hnot : (start == hdr.numRefPics - 1) = false := by
      rw [beq_eq_false_iff_ne]
      omega
    rw [range'_succ, flatMap_cons, referenceBits, hnot]
    refine (Reads.bits (by decide) (hrange start (by omega))).andThen ((Reads.bit _).andThen ?_)
    rw [setWidth_ofNat_toNat (by decide)]
    exact ih (start + 1) (by omega) (by omega) _

theorem reads_refIndices (h : Fits hdr)
    (hmode : (hdr.interPicPredicted && hdr.flexibleMode) = true) {vp9 : RTPVideoHeaderVP9}
    (hid : vp9.pictureId = hdr.pictureId) :
    Reads (parseRefIndices vp9) ((range hdr.numRefPics).flatMap (referenceBits hdr))
      { vp9 with
        pidDiff := fill hdr.numRefPics vp9.pidDiff hdr.pidDiff
        refPictureId := fill hdr.numRefPics vp9.refPictureId
          fun i => referencePictureId vp9.pictureId vp9.maxPictureId (hdr.pidDiff i)
        numRefPics := hdr.numRefPics } := by
  rw [Bool.and_eq_true] at hmode
  obtain ⟨hsome, hone, hthree, hrange⟩ := h.references hmode.1 hmode.2
  have hplaces : hdr.numRefPics - 1 < kMaxVp9RefPics := by
    rw [kMaxVp9RefPics]
    omega
  have hloop := reads_refLoop hrange (hdr.numRefPics - 1) 0 hplaces (by omega)
    { vp9 with numRefPics := 0 }
  rw [Nat.sub_add_cancel hone, ← range_eq_range', addReferences_eq] at hloop
  rw [parseRefIndices, if_neg (by rwa [hid])]
  exact hloop

/-- The group `old` with its first `count` frames taken from `gof`. -/
def fillGof (count : Nat) (old gof : GofInfoVP9) : GofInfoVP9 :=
  { old with
    temporalIdx := fill count old.temporalIdx gof.temporalIdx
    temporalUpSwitch := fill count old.temporalUpSwitch gof.temporalUpSwitch
    numRefPics := fill count old.numRefPics gof.numRefPics
    pidDiff := fill count old.pidDiff
      fun i => fill (gof.numRefPics i).toNat (old.pidDiff i) (gof.pidDiff i) }

theorem fillGof_zero (old gof : GofInfoVP9) : fillGof 0 old gof = old := by
  simp only [fillGof, fill_zero]

theorem reads_gofFrame {gof : GofInfoVP9} {i : Nat} (htemporal : (gof.temporalIdx i).toNat < 8)
    (hrefs : (gof.numRefPics i).toNat ≤ 3) (old : GofInfoVP9) :
    Reads (parseGofFrame (fillGof i old gof) i) (gofFrameBits gof i) (fillGof (i + 1) old gof) := by
  have hcount : (BitVec.ofNat 64 (gof.numRefPics i).toNat).toNat = (gof.numRefPics i).toNat := by
    rw [BitVec.toNat_ofNat, Nat.mod_eq_of_lt (by omega)]
  have hold : (fillGof i old gof).pidDiff i = old.pidDiff i := if_neg (Nat.lt_irrefl i)
  have hdiffs : Reads ((range (gof.numRefPics i).toNat).foldlM parsePidDiff (old.pidDiff i))
      ((range (gof.numRefPics i).toNat).flatMap fun r => bits 8 (gof.pidDiff i r).toNat)
      (fill (gof.numRefPics i).toNat (old.pidDiff i) (gof.pidDiff i)) := by
    refine Reads.loop (fill · _ (gof.pidDiff i)) fun r _ => ?_
    rw [← update_fill]
    exact (Reads.byte (gof.pidDiff i r)).map _
  refine (Reads.bits (by decide) htemporal).andThen ((Reads.bit _).andThen
    ((Reads.bits (by decide) (show (gof.numRefPics i).toNat < 2 ^ 2 by omega)).andThen
      ((Reads.consume (bits 2 0)).andThen ?_)))
  rw [hcount, setWidth_ofNat_toNat (by decide), setWidth_ofNat_toNat (by decide), hold]
  simp only [fillGof, ← update_fill]
  exact hdiffs.map _

theorem reads_ssData (h : Fits hdr) (hss : hdr.ssDataAvailable = true) (vp9 : RTPVideoHeaderVP9) :
    Reads (parseSsData vp9) (ssDataBits hdr)
      { vp9 with
        numSpatialLayers := hdr.numSpatialLayers
        spatialLayerResolutionPresent := hdr.spatialLayerResolutionPresent
        width := if hdr.spatialLayerResolutionPresent then
          fill hdr.numSpatialLayers vp9.width hdr.width else vp9.width
        height := if hdr.spatialLayerResolutionPresent then
          fill hdr.numSpatialLayers vp9.height hdr.height else vp9.height
        gof := fillGof hdr.gof.numFramesInGof
          { vp9.gof with numFramesInGof := hdr.gof.numFramesInGof } hdr.gof } := by
  obtain ⟨hone, hmax, hframes, hgof⟩ := h.scalability hss
  have hlayers : (BitVec.ofNat 64 (hdr.numSpatialLayers - 1)).toNat + 1 = hdr.numSpatialLayers := by
    rw [BitVec.toNat_ofNat]
    omega
  have hsizes : Reads ((range hdr.numSpatialLayers).foldlM parseResolution
        (vp9.width, vp9.height))
      ((range hdr.numSpatialLayers).flatMap (resolutionBits hdr))
      (fill hdr.numSpatialLayers vp9.width hdr.width,
        fill hdr.numSpatialLayers vp9.height hdr.height) := by
    have hloop := @Reads.loop _ hdr.numSpatialLayers parseResolution (resolutionBits hdr)
      (fun i => (fill i vp9.width hdr.width, fill i vp9.height hdr.height)) fun i _ => by
        rw [← update_fill, ← update_fill]
        exact (Reads.uint16 (hdr.width i)).andThen ((Reads.uint16 (hdr.height i)).map _)
    simpa only [fill_zero] using hloop
  have hcount : Reads parseNumFramesInGof (bits 8 hdr.gof.numFramesInGof) hdr.gof.numFramesInGof := by
    have hread := (Reads.byte (BitVec.ofNat 8 hdr.gof.numFramesInGof)).map fun frames => frames.toNat
    rw [BitVec.toNat_ofNat, Nat.mod_eq_of_lt (by omega)] at hread
    exact hread
  have hgroup : ∀ old : GofInfoVP9, Reads
      ((range hdr.gof.numFramesInGof).foldlM parseGofFrame old)
      ((range hdr.gof.numFramesInGof).flatMap (gofFrameBits hdr.gof))
      (fillGof hdr.gof.numFramesInGof old hdr.gof) := by
    intro old
    have hloop := Reads.loop (fillGof · old hdr.gof) fun i hi =>
      reads_gofFrame (hgof i hi).1 (hgof i hi).2 old
    rwa [fillGof_zero] at hloop
  have hnumber : decide (hdr.gof.numFramesInGof > 0) = false → 0 = hdr.gof.numFramesInGof := by
    rw [decide_eq_false_iff_not]
    omega
  refine (Reads.bits (by decide) (show hdr.numSpatialLayers - 1 < 2 ^ 3 by omega)).andThen
    ((Reads.bit _).andThen ((Reads.bit _).andThen ((Reads.consume (bits 3 0)).andThen ?_)))
  rw [hlayers]
  cases hdr.spatialLayerResolutionPresent with
  | false => exact (Reads.nothing _).andThen ((Reads.optional (fun _ => hcount) hnumber).andThen
      ((hgroup _).andDone (Reads.nothing _)))
  | true => exact hsizes.andThen ((Reads.optional (fun _ => hcount) hnumber).andThen
      ((hgroup _).andDone (Reads.nothing _)))

variable (hdr)

def receivedFlags (layerBegin layerEnd : Bool) : RTPVideoHeaderVP9 :=
  { interPicPredicted := hdr.interPicPredicted
    flexibleMode := hdr.flexibleMode
    beginningOfFrame := layerBegin
    endOfFrame := layerEnd
    ssDataAvailable := hdr.ssDataAvailable && layerBegin
    nonRefForInterLayerPred := hdr.nonRefForInterLayerPred }

def receivedPictureId (layerBegin layerEnd : Bool) : RTPVideoHeaderVP9 :=
  { receivedFlags hdr layerBegin layerEnd with
    pictureId := hdr.pictureId
    maxPictureId := if pictureIdPresent hdr then hdr.maxPictureId else kMaxTwoBytePictureId }

def receivedLayerInfo (layerBegin layerEnd : Bool) : RTPVideoHeaderVP9 :=
  { receivedPictureId hdr layerBegin layerEnd with
    temporalIdx := hdr.temporalIdx
    temporalUpSwitch := layerInfoPresent hdr && hdr.temporalUpSwitch
    spatialIdx := hdr.spatialIdx
    interLayerPredicted := layerInfoPresent hdr && hdr.interLayerPredicted
    tl0PicIdx :=
      if layerInfoPresent hdr && !hdr.flexibleMode then hdr.tl0PicIdx else kNoTl0PicIdx }

def receivedReferences (layerBegin layerEnd : Bool) : RTPVideoHeaderVP9 :=
  let count := if hdr.interPicPredicted && hdr.flexibleMode then hdr.numRefPics else 0
  let vp9 := receivedLayerInfo hdr layerBegin layerEnd
  { vp9 with
    pidDiff := fill count (fun _ => 0) hdr.pidDiff
    refPictureId := fill count (fun _ => 0)
      fun i => referencePictureId vp9.pictureId vp9.maxPictureId (hdr.pidDiff i)
    numRefPics := count }

/-- The header that the depacketizer makes of the descriptor of `hdr`. -/
def received (layerBegin layerEnd : Bool) : RTPVideoHeaderVP9 :=
  let ssData := hdr.ssDataAvailable && layerBegin
  let sized := ssData && hdr.spatialLayerResolutionPresent
  { receivedReferences hdr layerBegin layerEnd with
    numSpatialLayers := if ssData then hdr.numSpatialLayers else 1
    spatialLayerResolutionPresent := sized
    width := if sized then fill hdr.numSpatialLayers (fun _ => 0) hdr.width else fun _ => 0
    height := if sized then fill hdr.numSpatialLayers (fun _ => 0) hdr.height else fun _ => 0
    gof := if ssData then
      fillGof hdr.gof.numFramesInGof { numFramesInGof := hdr.gof.numFramesInGof } hdr.gof else {} }

def receivedHeader (layerBegin layerEnd : Bool) : RTPVideoHeader :=
  let vp9 := received hdr layerBegin layerEnd
  let sized := hdr.ssDataAvailable && layerBegin && vp9.spatialLayerResolutionPresent
  { width := if sized then vp9.width 0 else 0
    height := if sized then vp9.height 0 else 0
    frameType :=
      if hdr.interPicPredicted || vp9.interLayerPredicted then .videoFrameDelta else .videoFrameKey
    isFirstPacketInFrame := layerBegin
    isLastPacketInFrame := layerEnd
    vp9 := vp9 }

variable {hdr}

theorem firstByte_masks (b : BitVec 8) :
    ((b &&& 0b10000000) != 0) = b.getLsbD 7 ∧ ((b &&& 0b01000000) != 0) = b.getLsbD 6 ∧
    ((b &&& 0b00100000) != 0) = b.getLsbD 5 ∧ ((b &&& 0b00010000) != 0) = b.getLsbD 4 ∧
    ((b &&& 0b00001000) != 0) = b.getLsbD 3 ∧ ((b &&& 0b00000100) != 0) = b.getLsbD 2 ∧
    ((b &&& 0b00000010) != 0) = b.getLsbD 1 ∧ ((b &&& 0b00000001) != 0) = b.getLsbD 0 := by
  revert b
  decide

variable (h : Fits hdr) (layerBegin layerEnd : Bool)
include h

theorem reads_optionalPictureId : Reads (Reading.readIf (pictureIdPresent hdr)
        (parsePictureId (receivedFlags hdr layerBegin layerEnd))
        (receivedFlags hdr layerBegin layerEnd))
      (if pictureIdPresent hdr then pictureIdBits hdr else [])
      (receivedPictureId hdr layerBegin layerEnd) := by
  apply Reads.optional
  · intro hpresent
    have hread := reads_pictureId h hpresent (receivedFlags hdr layerBegin layerEnd)
    simpa only [receivedPictureId, hpresent, if_true] using hread
  · intro habsent
    have hnone : hdr.pictureId = kNoPictureId := by
      simpa [habsent] using @pictureIdPresent_iff hdr
    simp [receivedPictureId, receivedFlags, habsent, hnone]

theorem reads_optionalLayerInfo : Reads (Reading.readIf (layerInfoPresent hdr)
        (parseLayerInfo (receivedPictureId hdr layerBegin layerEnd))
        (receivedPictureId hdr layerBegin layerEnd))
      (if layerInfoPresent hdr then layerInfoBits hdr else [])
      (receivedLayerInfo hdr layerBegin layerEnd) := by
  apply Reads.optional
  · intro hpresent
    have hread := reads_layerInfo h hpresent
      (show (receivedPictureId hdr layerBegin layerEnd).flexibleMode = hdr.flexibleMode from rfl)
    cases hflexible : hdr.flexibleMode <;>
      simpa [receivedLayerInfo, receivedPictureId, receivedFlags, hpresent, hflexible] using hread
  · intro habsent
    have hnone : hdr.temporalIdx = kNoTemporalIdx ∧ hdr.spatialIdx = kNoSpatialIdx := by
      simpa [habsent] using @layerInfoPresent_iff hdr
    simp [receivedLayerInfo, receivedPictureId, receivedFlags, habsent, hnone]

theorem reads_optionalRefIndices : Reads (Reading.readIf (hdr.interPicPredicted && hdr.flexibleMode)
        (parseRefIndices (receivedLayerInfo hdr layerBegin layerEnd))
        (receivedLayerInfo hdr layerBegin layerEnd))
      (if hdr.interPicPredicted && hdr.flexibleMode then
        (range hdr.numRefPics).flatMap (referenceBits hdr) else [])
      (receivedReferences hdr layerBegin layerEnd) := by
  apply Reads.optional
  · intro hmode
    have hread := reads_refIndices h hmode
      (show (receivedLayerInfo hdr layerBegin layerEnd).pictureId = hdr.pictureId from rfl)
    rw [receivedReferences, hmode]
    exact hread
  · intro hmode
    simp only [receivedReferences, hmode]
    rfl

theorem reads_optionalSsData : Reads (Reading.readIf (hdr.ssDataAvailable && layerBegin)
        (parseSsData (receivedReferences hdr layerBegin layerEnd))
        (receivedReferences hdr layerBegin layerEnd))
      (if hdr.ssDataAvailable && layerBegin then ssDataBits hdr else [])
      (received hdr layerBegin layerEnd) := by
  apply Reads.optional
  · intro hss
    have hread := reads_ssData h (Bool.and_eq_true _ _ ▸ hss).1
      (receivedReferences hdr layerBegin layerEnd)
    rw [received, hss]
    exact hread
  · intro hss
    simp only [received, hss]
    rfl

theorem reads_descriptor : Reads parseDescriptor (descriptorBits hdr layerBegin layerEnd)
      (receivedHeader hdr layerBegin layerEnd) := by
  obtain ⟨b, hb⟩ : ∃ b : BitVec 8, bits 8 b.toNat = firstByteBits hdr layerBegin layerEnd := by
    refine ⟨BitVec.ofNat 8 (value (firstByteBits hdr layerBegin layerEnd)), ?_⟩
    have hlt : value (firstByteBits hdr layerBegin layerEnd) < 2 ^ 8 := value_lt _
    rw [BitVec.toNat_ofNat, Nat.mod_eq_of_lt hlt]
    exact bits_value (firstByteBits hdr layerBegin layerEnd)
  have hflags : [b.getLsbD 7, b.getLsbD 6, b.getLsbD 5, b.getLsbD 4, b.getLsbD 3, b.getLsbD 2,
      b.getLsbD 1, b.getLsbD 0] = firstByteBits hdr layerBegin layerEnd := by
    rw [← hb]
    rfl
  obtain ⟨h7, h6, h5, h4, h3, h2, h1, h0⟩ := firstByte_masks b
  simp only [firstByteBits, cons.injEq, and_true] at hflags
  obtain ⟨f7, f6, f5, f4, f3, f2, f1, f0⟩ := hflags
  rw [descriptorBits, ← hb]
  refine (Reads.byte b).andThen ?_
  rw [h7, h6, h5, h4, h3, h2, h1, h0, f7, f6, f5, f4, f3, f2, f1, f0]
  refine (reads_optionalPictureId h layerBegin layerEnd).andThen
    ((reads_optionalLayerInfo h layerBegin layerEnd).andThen
    ((reads_optionalRefIndices h layerBegin layerEnd).andThen
    ((reads_optionalSsData h layerBegin layerEnd).andDone ?_)))
  exact Reads.nothing _

end Reading

end Rtp.Vp9
