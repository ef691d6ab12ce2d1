import WebRtc.EventLog.DeltaEncoding

/-!
# Delta encoding is read back

Every delta between two consecutive existing values fits into the width that `EncodeDeltas` chooses,
so the decoder finds each value again. The tie between the two directions never meets signed deltas,
because it makes them as wide as the values.
-/

namespace EventLog

open BitLists BitstreamReader BitWriter FixedLengthEncodingParameters List Option
open BitVec hiding append_assoc cast

variable (x : BitVec 64) {w : Nat} {previous : Option (BitVec 64)}
  {values : List (Option (BitVec 64))}

theorem countBits_pos (fuel : Nat) (x : BitVec 64) : 0 < countBits (fuel + 1) x := by
  rw [countBits]
  split
  · exact Nat.succ_pos _
  · exact Nat.one_pos

/-- The width is the least one, from one on, that holds the value. -/
theorem countBits_le_iff (fuel : Nat) (x : BitVec 64) (h : x.toNat < 2 ^ (fuel + 1)) (n : Nat) :
    countBits (fuel + 1) x ≤ n + 1 ↔ x.toNat < 2 ^ (n + 1) := by
  induction fuel generalizing x n with
  | zero =>
    have hhalf : x >>> 1 = 0 := by
      apply eq_of_toNat_eq
      exact Nat.div_eq_of_lt h
    have hpow : 2 ^ 1 ≤ 2 ^ (n + 1) := Nat.pow_le_pow_right (by decide) (by omega)
    rw [countBits, hhalf]
    constructor
    · intro _
      exact Nat.lt_of_lt_of_le h hpow
    · intro _
      exact Nat.le_add_left 1 n
  | succ fuel ih =>
    have hhalf : (x >>> 1).toNat = x.toNat / 2 := by
      rw [toNat_ushiftRight, Nat.shiftRight_eq_div_pow]
    rw [countBits]
    split
    · rename_i hne
      have hpos : 0 < x.toNat / 2 := by
        exact Nat.pos_of_ne_zero fun hzero => hne (eq_of_toNat_eq hzero)
      cases n with
      | zero =>
        have := countBits_pos fuel (x >>> 1)
        constructor <;> intro _ <;> omega
      | succ n =>
        have hih := ih (x >>> 1) (by rw [hhalf, pow_succ] at *; omega) n
        constructor <;> intro _ <;> omega
    · rename_i hzero
      have hx : x.toNat / 2 = 0 := by
        rw [← hhalf, not_not.mp hzero]
        rfl
      have hpow : 2 ^ 1 ≤ 2 ^ (n + 1) := Nat.pow_le_pow_right (by decide) (by omega)
      constructor <;> intro _ <;> omega

theorem unsignedBitWidth_pos : 1 ≤ unsignedBitWidth x false := countBits_pos 63 x

theorem unsignedBitWidth_le_iff {n : Nat} (hn : 1 ≤ n) :
    unsignedBitWidth x false ≤ n ↔ x.toNat < 2 ^ n := by
  obtain ⟨m, rfl⟩ := Nat.exists_eq_add_of_le' hn
  exact countBits_le_iff 63 x x.isLt m

theorem lt_two_pow_unsignedBitWidth : x.toNat < 2 ^ unsignedBitWidth x false :=
  (unsignedBitWidth_le_iff x (unsignedBitWidth_pos x)).mp (Nat.le_refl _)

/-- Where zero has width zero, the width still holds the value. -/
theorem lt_two_pow_zeroWidth : x.toNat < 2 ^ unsignedBitWidth x true := by
  rw [unsignedBitWidth]
  split
  · rename_i hzero
    rw [eq_of_beq hzero]
    decide
  · exact lt_two_pow_unsignedBitWidth x

theorem lt_signedBitWidth (p n : BitVec 64) : p.toNat < 2 ^ (signedBitWidth p n - 1) := by
  refine Nat.lt_of_lt_of_le (lt_two_pow_zeroWidth p) (Nat.pow_le_pow_right (by decide) ?_)
  rw [signedBitWidth, Nat.add_sub_cancel_left]
  exact Nat.le_max_left _ _

theorem le_signedBitWidth (p n : BitVec 64) : n.toNat ≤ 2 ^ (signedBitWidth p n - 1) := by
  by_cases hn : n > 0
  · have hpos : 0 < n.toNat := hn
    have hone : (n - 1).toNat = n.toNat - 1 := by
      rw [toNat_sub_of_le (show (1 : BitVec 64) ≤ n from hpos)]
      rfl
    have hlt := lt_two_pow_zeroWidth (n - 1)
    have hle : unsignedBitWidth (n - 1) true ≤ signedBitWidth p n - 1 := by
      rw [signedBitWidth, Nat.add_sub_cancel_left, if_pos hn]
      exact Nat.le_max_right _ _
    have := Nat.pow_le_pow_right (show 0 < 2 by decide) hle
    omega
  · have hzero : n.toNat = 0 := Nat.eq_zero_of_not_pos hn
    rw [hzero]
    exact Nat.zero_le _

theorem toNat_maxUnsignedValue (h : w ≤ 64) : (maxUnsignedValueOfBitWidth w).toNat = 2 ^ w - 1 := by
  rw [maxUnsignedValueOfBitWidth]
  split
  · rename_i hw
    rw [hw, toNat_allOnes]
  · exact toNat_lowMask (by omega)

theorem le_maxUnsignedValue_iff (h : w ≤ 64) (x : BitVec 64) :
    x ≤ maxUnsignedValueOfBitWidth w ↔ x.toNat < 2 ^ w := by
  have := Nat.two_pow_pos w
  rw [le_def, toNat_maxUnsignedValue h]
  omega

theorem toNat_and_maxUnsignedValue (h : w ≤ 64) (x : BitVec 64) :
    (x &&& maxUnsignedValueOfBitWidth w).toNat = x.toNat % 2 ^ w := by
  rw [toNat_and, toNat_maxUnsignedValue h, Nat.and_two_pow_sub_one_eq_mod]

section Modular

variable {w : Nat} {p c : BitVec 64}

theorem exists_words (hw : w ≤ 64) : ∃ k, 2 ^ 64 = 2 ^ w * k ∧ 0 < k := by
  refine ⟨2 ^ (64 - w), ?_, Nat.two_pow_pos _⟩
  rw [← pow_add, Nat.add_sub_cancel' hw]

theorem mod_of_word_minus {w : Nat} (hw : w ≤ 64) {d : Nat} (hpos : 0 < d) (hd : d ≤ 2 ^ w) :
    (2 ^ 64 - d) % 2 ^ w = 2 ^ w - d := by
  obtain ⟨k, hk, hkpos⟩ := exists_words hw
  obtain ⟨m, rfl⟩ := Nat.exists_eq_add_of_le' hkpos
  have hsplit : 2 ^ 64 - d = (2 ^ w - d) + 2 ^ w * m := by
    rw [hk, Nat.mul_add]
    omega
  rw [hsplit, Nat.add_mul_mod_self_left, Nat.mod_eq_of_lt (by omega)]

abbrev delta (w : Nat) (p c : BitVec 64) : BitVec 64 :=
  unsignedDelta p c (maxUnsignedValueOfBitWidth w)

theorem toNat_unsignedDelta (hw : w ≤ 64) (hp : p.toNat < 2 ^ w) (hc : c.toNat < 2 ^ w) :
    (delta w p c).toNat =
      if p.toNat ≤ c.toNat then c.toNat - p.toNat else 2 ^ w - (p.toNat - c.toNat) := by
  rw [delta, unsignedDelta, toNat_and_maxUnsignedValue hw]
  split
  · rename_i hle
    rw [toNat_sub_of_le hle, Nat.mod_eq_of_lt (by omega)]
  · have hsub : (c - p).toNat = 2 ^ 64 - (p.toNat - c.toNat) := by
      rw [toNat_sub_of_lt (show c < p by rw [lt_def]; omega)]
    rw [hsub, mod_of_word_minus hw (by omega) (by omega)]

theorem toNat_unsignedDelta_lt (hw : w ≤ 64) (p c : BitVec 64) : (delta w p c).toNat < 2 ^ w := by
  rw [delta, unsignedDelta, toNat_and_maxUnsignedValue hw]
  exact Nat.mod_lt _ (Nat.two_pow_pos _)

section Unsigned

variable (hw : w ≤ 64) (hp : p.toNat < 2 ^ w) (hc : c.toNat < 2 ^ w)
include hw hp hc

theorem add_unsignedDelta :
    (p + delta w p c) &&& maxUnsignedValueOfBitWidth w = c := by
  apply eq_of_toNat_eq
  obtain ⟨k, hk, -⟩ := exists_words hw
  rw [toNat_and_maxUnsignedValue hw, toNat_add, hk, Nat.mod_mul_right_mod,
    toNat_unsignedDelta hw hp hc]
  split
  · rw [Nat.add_sub_cancel' (by assumption), Nat.mod_eq_of_lt hc]
  · have hsum : p.toNat + (2 ^ w - (p.toNat - c.toNat)) = 2 ^ w + c.toNat := by omega
    rw [hsum, Nat.add_mod_left, Nat.mod_eq_of_lt hc]

theorem sub_unsignedDelta :
    (p - delta w c p) &&& maxUnsignedValueOfBitWidth w = c := by
  apply eq_of_toNat_eq
  have hback := toNat_unsignedDelta hw hc hp
  rw [toNat_and_maxUnsignedValue hw]
  split at hback
  · rename_i hle
    rw [toNat_sub_of_le (by rw [le_def]; omega), hback, Nat.sub_sub_self hle, Nat.mod_eq_of_lt hc]
  · have hsub : (p - delta w c p).toNat = 2 ^ 64 - (2 ^ w - c.toNat) := by
      rw [toNat_sub_of_lt (by rw [lt_def]; omega)]
      omega
    rw [hsub, mod_of_word_minus hw (by omega) (by omega)]
    omega

theorem delta_directions :
    (delta w p c).toNat + (delta w c p).toNat = 2 ^ w ∨ (delta w p c).toNat = 0 ∧
        (delta w c p).toNat = 0 := by
  rw [toNat_unsignedDelta hw hp hc, toNat_unsignedDelta hw hc hp]
  split <;> split <;> omega

end Unsigned

end Modular

open FixedLengthDeltaEncoder FixedLengthDeltaDecoder

def deltaOf (params : FixedLengthEncodingParameters) (previous current : BitVec 64) : BitVec 64 :=
  let forwardDelta := unsignedDelta previous current params.valueMask
  let backwardDelta := unsignedDelta current previous params.valueMask
  if params.signedDeltas = true ∧ backwardDelta < forwardDelta then
    params.deltaMask - backwardDelta + 1
  else forwardDelta

/-- The widths of a header: deltas are no wider than values, and values than words. -/
structure ValidWidths (params : FixedLengthEncodingParameters) : Prop where
  delta_pos : 1 ≤ params.deltaWidthBits
  delta_le : params.deltaWidthBits ≤ params.valueWidthBits
  value_le : params.valueWidthBits ≤ 64

theorem ValidWidths.delta_le_word {params : FixedLengthEncodingParameters}
    (hv : ValidWidths params) : params.deltaWidthBits ≤ 64 := Nat.le_trans hv.delta_le hv.value_le

/-- Two consecutive values and the delta between them fit into the chosen widths. -/
structure StepFits (params : FixedLengthEncodingParameters) (previous current : BitVec 64) : Prop where
  previous_lt : previous.toNat < 2 ^ params.valueWidthBits
  current_lt : current.toNat < 2 ^ params.valueWidthBits
  unsigned : params.signedDeltas = false →
    (unsignedDelta previous current params.valueMask).toNat < 2 ^ params.deltaWidthBits
  positive : params.signedDeltas = true →
    unsignedDelta previous current params.valueMask ≤ unsignedDelta current previous params.valueMask →
    (unsignedDelta previous current params.valueMask).toNat < 2 ^ (params.deltaWidthBits - 1)
  negative : params.signedDeltas = true →
    unsignedDelta current previous params.valueMask < unsignedDelta previous current params.valueMask →
    (unsignedDelta current previous params.valueMask).toNat ≤ 2 ^ (params.deltaWidthBits - 1)

section OneDelta

variable {params : FixedLengthEncodingParameters} {previous current : BitVec 64} {b : BitVec 64}

section

variable (hv : ValidWidths params)
include hv

theorem two_pow_deltaWidth : 2 ^ params.deltaWidthBits = 2 * 2 ^ (params.deltaWidthBits - 1) := by
  obtain ⟨n, hn⟩ := Nat.exists_eq_add_of_le' hv.delta_pos
  rw [hn, Nat.add_sub_cancel, pow_succ, Nat.mul_comm]

theorem toNat_deltaMask : params.deltaMask.toNat = 2 ^ params.deltaWidthBits - 1 :=
  toNat_maxUnsignedValue hv.delta_le_word

theorem toNat_negative (hpos : 0 < b.toNat) (hb : b.toNat ≤ 2 ^ (params.deltaWidthBits - 1)) :
    (params.deltaMask - b).toNat = 2 ^ params.deltaWidthBits - 1 - b.toNat ∧
      (params.deltaMask - b + 1).toNat = 2 ^ params.deltaWidthBits - b.toNat := by
  have hpow := two_pow_deltaWidth hv
  have hmask := toNat_deltaMask hv
  have hsub : (params.deltaMask - b).toNat = 2 ^ params.deltaWidthBits - 1 - b.toNat := by
    rw [toNat_sub_of_le (by rw [le_def]; omega), hmask]
  refine ⟨hsub, ?_⟩
  have hone : (1 : BitVec 64).toNat = 1 := rfl
  rw [toNat_add, Nat.mod_eq_of_lt (by omega)]
  omega

section

variable (hfits : StepFits params previous current)
include hfits

theorem deltaOf_cases : let forwardDelta := unsignedDelta previous current params.valueMask
    let backwardDelta := unsignedDelta current previous params.valueMask
    (params.signedDeltas = false ∧ deltaOf params previous current = forwardDelta ∧
        forwardDelta.toNat < 2 ^ params.deltaWidthBits) ∨
      (params.signedDeltas = true ∧ forwardDelta ≤ backwardDelta ∧
        deltaOf params previous current = forwardDelta ∧
        forwardDelta.toNat < 2 ^ (params.deltaWidthBits - 1)) ∨
      (params.signedDeltas = true ∧ ¬ forwardDelta ≤ backwardDelta ∧
        deltaOf params previous current = params.deltaMask - backwardDelta + 1 ∧
        0 < backwardDelta.toNat ∧ backwardDelta.toNat ≤ 2 ^ (params.deltaWidthBits - 1)) := by
  intro forwardDelta backwardDelta
  cases hsigned : params.signedDeltas with
  | false =>
    refine Or.inl ⟨rfl, if_neg fun h => ?_, hfits.unsigned hsigned⟩
    exact Bool.false_ne_true (hsigned ▸ h.1)
  | true =>
    by_cases hle : forwardDelta ≤ backwardDelta
    · refine Or.inr (Or.inl ⟨rfl, hle, if_neg fun h => ?_, hfits.positive hsigned hle⟩)
      exact BitVec.not_le.mpr h.2 hle
    · have hlt := BitVec.not_le.mp hle
      refine Or.inr (Or.inr ⟨rfl, hle, if_pos ⟨hsigned, hlt⟩, ?_, hfits.negative hsigned hlt⟩)
      -- were the way back empty, so would be the way there
      have hbound : forwardDelta.toNat < 2 ^ params.valueWidthBits :=
        toNat_unsignedDelta_lt hv.value_le previous current
      have hsum : forwardDelta.toNat + backwardDelta.toNat = 2 ^ params.valueWidthBits ∨
          forwardDelta.toNat = 0 ∧ backwardDelta.toNat = 0 :=
        delta_directions hv.value_le hfits.previous_lt hfits.current_lt
      rw [BitVec.lt_def] at hlt
      omega

theorem deltaOf_lt : (deltaOf params previous current).toNat < 2 ^ params.deltaWidthBits := by
  have hpow := two_pow_deltaWidth hv
  obtain ⟨-, heq, hlt⟩ | ⟨-, -, heq, hlt⟩ | ⟨-, -, heq, hpos, hle⟩ := deltaOf_cases hv hfits
  · rwa [heq]
  · rw [heq]
    omega
  · rw [heq, (toNat_negative hv hpos hle).2]
    omega

theorem emits_encodeDelta : BitWriter.Emits (encodeDelta params previous current)
      (bits params.deltaWidthBits (deltaOf params previous current).toNat) := by
  have hwrite := fun delta => emits_writeBits delta hv.delta_pos hv.delta_le_word
  obtain ⟨hsigned, heq, -⟩ | ⟨hsigned, hle, heq, -⟩ | ⟨hsigned, hle, heq, hpos, hbound⟩ :=
    deltaOf_cases hv hfits
  · rw [heq]
    refine (hwrite _).of_eq fun w => ?_
    rw [encodeDelta, if_neg (ne_true_of_eq_false hsigned), encodeUnsignedDelta]
  · rw [heq]
    refine (hwrite _).of_eq fun w => ?_
    rw [encodeDelta, if_pos hsigned, encodeSignedDelta, if_pos hle]
  · obtain ⟨hrest, hvalue⟩ := toNat_negative hv hpos hbound
    have hmask := toNat_deltaMask hv
    have hpow := two_pow_deltaWidth hv
    -- the three checks of the source, in its order
    have hfirst := emits_dcheck (decide_eq_true
      (show params.deltaMask ≥ unsignedDelta current previous params.valueMask by
        rw [ge_iff_le, le_def]; omega))
    have hsecond := emits_dcheck (decide_eq_true
      (show params.deltaMask - unsignedDelta current previous params.valueMask < params.deltaMask by
        rw [lt_def]; omega))
    have hthird := emits_dcheck (decide_eq_true
      (show params.deltaMask - unsignedDelta current previous params.valueMask + 1 ≤
        params.deltaMask by rw [le_def]; omega))
    rw [heq]
    refine (((hfirst.andThen hsecond).andThen hthird).andThen (hwrite _)).of_eq fun w => ?_
    rw [encodeDelta, if_pos hsigned, encodeSignedDelta, if_neg hle]

end

end

theorem and_topBit_eq_zero_iff {x : BitVec 64} {n : Nat} (hn : n < 64) (hx : x.toNat < 2 ^ (n + 1)) :
    x &&& (1#64 <<< n) = 0 ↔ x.toNat < 2 ^ n := by
  have hbit : (1#64 <<< n).toNat = 2 ^ n := by
    change 1 <<< n % 2 ^ 64 = 2 ^ n
    rw [Nat.one_shiftLeft, Nat.mod_eq_of_lt (Nat.pow_lt_pow_right (by decide) hn)]
  have hzero : x &&& (1#64 <<< n) = 0 ↔ x.toNat &&& 2 ^ n = 0 := by
    rw [← toNat_inj, toNat_and, hbit]
    rfl
  rw [hzero, Nat.and_two_pow]
  constructor
  · intro hand
    by_contra hge
    have hset := Nat.testBit_of_two_pow_le_and_two_pow_add_one_gt (Nat.not_lt.mp hge) hx
    rw [hset] at hand
    simp only [Bool.toNat_true] at hand
    omega
  · intro hlt
    rw [Nat.testBit_lt_two_pow hlt, Bool.toNat_false, Nat.zero_mul]

theorem inRange_of_lt (hv : ValidWidths params) {base delta : BitVec 64}
    (hbase : base.toNat < 2 ^ params.valueWidthBits)
    (hdelta : delta.toNat < 2 ^ params.deltaWidthBits) : inRange params base delta = true := by
  rw [inRange, decide_eq_true ((le_maxUnsignedValue_iff hv.value_le base).mpr hbase),
    decide_eq_true ((le_maxUnsignedValue_iff hv.delta_le_word delta).mpr hdelta)]
  rfl

theorem applyUnsignedDelta_unsignedDelta (hv : ValidWidths params)
    (hfits : StepFits params previous current)
    (hlt : (unsignedDelta previous current params.valueMask).toNat < 2 ^ params.deltaWidthBits) :
    applyUnsignedDelta params previous (unsignedDelta previous current params.valueMask) =
      (current, true) :=
  Prod.ext (add_unsignedDelta hv.value_le hfits.previous_lt hfits.current_lt)
    (inRange_of_lt hv hfits.previous_lt hlt)

/-- The complement of a negative delta is its magnitude less one. -/
theorem complement_negative (hv : ValidWidths params) (hpos : 0 < b.toNat)
    (hb : b.toNat ≤ 2 ^ (params.deltaWidthBits - 1)) :
    (~~~(params.deltaMask - b + 1) &&& params.deltaMask) + 1 = b := by
  have hpow := two_pow_deltaWidth hv
  have hwidth := hv.delta_le_word
  have hone : (1 : BitVec 64).toNat = 1 := rfl
  have hlow : (~~~(params.deltaMask - b + 1) &&& params.deltaMask).toNat = b.toNat - 1 := by
    change (_ &&& maxUnsignedValueOfBitWidth params.deltaWidthBits).toNat = _
    rw [toNat_and_maxUnsignedValue hwidth, toNat_not, (toNat_negative hv hpos hb).2,
      Nat.sub_sub, mod_of_word_minus hwidth (by omega) (by omega)]
    omega
  apply eq_of_toNat_eq
  rw [toNat_add, Nat.mod_eq_of_lt (by omega)]
  omega

theorem applyDelta_deltaOf (hv : ValidWidths params) (hfits : StepFits params previous current) :
    applyDelta params previous (deltaOf params previous current) = (current, true) := by
  have hdelta := deltaOf_lt hv hfits
  have hrange := inRange_of_lt hv hfits.previous_lt hdelta
  have hpow := two_pow_deltaWidth hv
  have hwidth := hv.delta_le_word
  have hpos := hv.delta_pos
  have htop := @and_topBit_eq_zero_iff (deltaOf params previous current)
    (params.deltaWidthBits - 1) (by omega) (by rwa [Nat.sub_add_cancel hpos])
  obtain ⟨hsigned, heq, hlt⟩ | ⟨hsigned, -, heq, hlt⟩ | ⟨hsigned, -, heq, hback, hbound⟩ :=
    deltaOf_cases hv hfits <;> rw [heq] at hdelta hrange htop ⊢
  · simp [applyDelta, hsigned, hrange, applyUnsignedDelta_unsignedDelta hv hfits hdelta]
  · simp [applyDelta, applySignedDelta, hrange, htop.mpr hlt, applyUnsignedDelta_unsignedDelta hv
      hfits hdelta]
  · have hvalue := (toNat_negative hv hback hbound).2
    have hset := mt htop.mp (by rw [hvalue]; omega)
    rw [applyDelta, applySignedDelta, if_neg hset, hsigned, hrange, complement_negative hv hback
      hbound]
    exact Prod.ext (sub_unsignedDelta hv.value_le hfits.previous_lt hfits.current_lt) rfl

end OneDelta

/-- The relation holds between any two consecutive existing values. -/
def Steps (P : BitVec 64 → BitVec 64 → Prop) : Option (BitVec 64) → List (Option (BitVec 64)) → Prop
  | _, [] => True
  | previous, none :: values => Steps P previous values
  | none, some value :: values => Steps P (some value) values
  | some previous, some value :: values => P previous value ∧ Steps P (some value) values

variable {P Q : BitVec 64 → BitVec 64 → Prop} {r' : DeltaRange}

theorem Steps.imp (himp : ∀ p v, P p v → Q p v)
    (h : Steps P previous values) : Steps Q previous values := by
  fun_induction Steps P previous values with
  | case1 => exact trivial
  | case2 previous values ih => exact ih h
  | case3 value values ih => exact ih h
  | case4 previous value values ih => exact ⟨himp _ _ h.1, ih h.2⟩

theorem Steps.and (hp : Steps P previous values)
    (hq : Steps Q previous values) : Steps (fun p v => P p v ∧ Q p v) previous values := by
  fun_induction Steps P previous values with
  | case1 => exact trivial
  | case2 previous values ih => exact ih hp hq
  | case3 value values ih => exact ih hp hq
  | case4 previous value values ih => exact ⟨⟨hp.1, hq.1⟩, ih hp.2 hq.2⟩

theorem steps_of_forall {B : BitVec 64 → Prop} (hprevious : ∀ p, previous = some p → B p)
    (hvalues : ∀ v, some v ∈ values → B v) : Steps (fun p v => B p ∧ B v) previous values := by
  induction values generalizing previous with
  | nil => exact trivial
  | cons head values ih =>
    have htail : ∀ v, some v ∈ values → B v := fun v hv => hvalues v (mem_cons_of_mem _ hv)
    cases head with
    | none => exact ih hprevious htail
    | some value =>
      have hvalue : B value := hvalues value mem_cons_self
      have hnext := ih (fun p hp => some.inj hp ▸ hvalue) htail
      cases previous with
      | none => exact hnext
      | some p => exact ⟨⟨hprevious p rfl, hvalue⟩, hnext⟩

theorem toNat_maxWord (a b : BitVec 64) : (maxWord a b).toNat = max a.toNat b.toNat := by
  rw [maxWord]
  split
  · rename_i hlt
    rw [Nat.max_eq_right (Nat.le_of_lt hlt)]
  · rename_i hge
    rw [Nat.max_eq_left (Nat.not_lt.mp hge)]

variable (values)

theorem le_survey (s : Survey) :
    s.maxValueIncludingBase.toNat ≤ (values.foldl Survey.visit s).maxValueIncludingBase.toNat ∧
      ∀ v, some v ∈ values →
        v.toNat ≤ (values.foldl Survey.visit s).maxValueIncludingBase.toNat := by
  induction values generalizing s with
  | nil => exact ⟨Nat.le_refl _, fun v hv => absurd hv not_mem_nil⟩
  | cons head values ih =>
    cases head with
    | none =>
      obtain ⟨hmax, hmem⟩ := ih s
      refine ⟨hmax, fun v hv => hmem v ?_⟩
      rcases mem_cons.mp hv with h | h
      · exact absurd h (nofun)
      · exact h
    | some value =>
      obtain ⟨hmax, hmem⟩ := ih (s.visit (some value))
      have hvisit : (s.visit (some value)).maxValueIncludingBase.toNat =
          max s.maxValueIncludingBase.toNat value.toNat := toNat_maxWord _ _
      rw [foldl_cons]
      constructor
      · omega
      · intro v hv
        rcases mem_cons.mp hv with h | h
        · rw [some.inj h]
          omega
        · exact hmem v h

theorem survey_count (s : Survey) : (values.foldl Survey.visit s).existentValuesCount =
      s.existentValuesCount + values.countP Option.isSome := by
  induction values generalizing s with
  | nil => rfl
  | cons head values ih =>
    rw [foldl_cons, ih, countP_cons]
    cases head with
    | none => rfl
    | some value =>
      change s.existentValuesCount + 1 + _ = s.existentValuesCount + (_ + 1)
      omega

variable {values}

structure Covers (mask : BitVec 64) (r : DeltaRange) (p c : BitVec 64) : Prop where
  unsigned : (unsignedDelta p c mask).toNat ≤ r.maxUnsignedDelta.toNat
  positive : unsignedDelta p c mask < unsignedDelta c p mask →
    (unsignedDelta p c mask).toNat ≤ r.maxPosSignedDelta.toNat
  negative : ¬ unsignedDelta p c mask < unsignedDelta c p mask →
    (unsignedDelta c p mask).toNat ≤ r.minNegSignedDelta.toNat

/-- A range that is at least as wide in each direction. -/
structure DeltaRange.Wider (r r' : DeltaRange) : Prop where
  unsigned : r.maxUnsignedDelta.toNat ≤ r'.maxUnsignedDelta.toNat
  positive : r.maxPosSignedDelta.toNat ≤ r'.maxPosSignedDelta.toNat
  negative : r.minNegSignedDelta.toNat ≤ r'.minNegSignedDelta.toNat

theorem DeltaRange.Wider.trans {r r'' : DeltaRange} (h : DeltaRange.Wider r r')
    (h' : DeltaRange.Wider r' r'') : DeltaRange.Wider r r'' :=
  ⟨Nat.le_trans h.unsigned h'.unsigned, Nat.le_trans h.positive h'.positive,
    Nat.le_trans h.negative h'.negative⟩

theorem Covers.wider {mask p c : BitVec 64} {r : DeltaRange} (h : Covers mask r p c)
    (hw : DeltaRange.Wider r r') : Covers mask r' p c :=
  ⟨Nat.le_trans h.unsigned hw.unsigned, fun hlt => Nat.le_trans (h.positive hlt) hw.positive,
    fun hge => Nat.le_trans (h.negative hge) hw.negative⟩

theorem widen_spec (r : DeltaRange) (mask p c : BitVec 64) :
    DeltaRange.Wider r (r.widen mask p c) ∧ Covers mask (r.widen mask p c) p c ∧
      (r.widen mask p c).prev = some c := by
  by_cases hlt : unsignedDelta p c mask < unsignedDelta c p mask
  · rw [DeltaRange.widen, if_pos hlt]
    refine ⟨⟨?_, ?_, Nat.le_refl _⟩, ⟨?_, fun _ => ?_, fun hge => absurd hlt hge⟩, rfl⟩ <;>
      · rw [toNat_maxWord]
        omega
  · rw [DeltaRange.widen, if_neg hlt]
    refine ⟨⟨?_, Nat.le_refl _, ?_⟩, ⟨?_, fun h => absurd h hlt, fun _ => ?_⟩, rfl⟩ <;>
      · rw [toNat_maxWord]
        omega

theorem visit_spec (mask : BitVec 64) (values : List (Option (BitVec 64))) (r : DeltaRange) :
    DeltaRange.Wider r (values.foldl (DeltaRange.visit mask) r) ∧
      Steps (Covers mask (values.foldl (DeltaRange.visit mask) r)) r.prev values := by
  induction values generalizing r with
  | nil => exact ⟨⟨Nat.le_refl _, Nat.le_refl _, Nat.le_refl _⟩, trivial⟩
  | cons head values ih =>
    rw [foldl_cons]
    cases head with
    | none => exact ih r
    | some c =>
      cases hprev : r.prev with
      | none =>
        have hvisit : DeltaRange.visit mask r (some c) = { r with prev := some c } := by
          rw [DeltaRange.visit, hprev]
        obtain ⟨hrest, hsteps⟩ := ih { r with prev := some c }
        rw [hvisit]
        exact ⟨{ hrest with }, hsteps⟩
      | some p =>
        have hvisit : DeltaRange.visit mask r (some c) = r.widen mask p c := by
          rw [DeltaRange.visit, hprev]
        obtain ⟨hwider, hcovers, hnext⟩ := widen_spec r mask p c
        obtain ⟨hrest, hsteps⟩ := ih (r.widen mask p c)
        rw [hnext] at hsteps
        rw [hvisit]
        exact ⟨hwider.trans hrest, hcovers.wider hrest, hsteps⟩

theorem maxUnsignedDelta_lt (hw : w ≤ 64) (values : List (Option (BitVec 64))) (r : DeltaRange)
    (hr : r.maxUnsignedDelta.toNat < 2 ^ w) :
    (values.foldl (DeltaRange.visit (maxUnsignedValueOfBitWidth w)) r).maxUnsignedDelta.toNat <
      2 ^ w := by
  refine foldlRecOn (motive := fun r : DeltaRange => r.maxUnsignedDelta.toNat < 2 ^ w)
    values _ hr ?_
  intro r hr value _
  cases value with
  | none => exact hr
  | some c =>
    rw [DeltaRange.visit]
    split
    · exact hr
    · rename_i p _
      have hdelta := toNat_unsignedDelta_lt hw p c
      have hmax : (r.widen (maxUnsignedValueOfBitWidth w) p c).maxUnsignedDelta =
          maxWord r.maxUnsignedDelta (delta w p c) := by
        rw [DeltaRange.widen]
        split <;> rfl
      rw [hmax, toNat_maxWord]
      omega

section Chosen

variable (base : Option (BitVec 64)) (values : List (Option (BitVec 64)))

abbrev chosen : FixedLengthEncodingParameters := chooseParameters base values

def chosenRange : DeltaRange :=
  calculateMinAndMaxDeltas base values (chooseParameters base values).valueWidthBits

theorem chooseValueWidthBits_bounds (s : Survey) :
    1 ≤ chooseValueWidthBits s ∧ chooseValueWidthBits s ≤ 64 := by
  rw [chooseValueWidthBits]
  split
  · exact ⟨by decide, Nat.le_refl _⟩
  · exact ⟨unsignedBitWidth_pos _, (unsignedBitWidth_le_iff _ (by decide)).mpr (isLt _)⟩

theorem lt_chooseValueWidthBits (s : Survey) {v : BitVec 64}
    (h : v.toNat ≤ s.maxValueIncludingBase.toNat) : v.toNat < 2 ^ chooseValueWidthBits s := by
  rw [chooseValueWidthBits]
  split
  · exact v.isLt
  · exact Nat.lt_of_le_of_lt h (lt_two_pow_unsignedBitWidth _)

/-- What the widths of a header have to do with the range of deltas they were chosen for. -/
structure ChosenFor (params : FixedLengthEncodingParameters) (r : DeltaRange) : Prop where
  widths : ValidWidths params
  signed : params.signedDeltas = true →
    params.deltaWidthBits = signedBitWidth r.maxPosSignedDelta r.minNegSignedDelta ∧
      params.deltaWidthBits < params.valueWidthBits
  unsigned : params.signedDeltas = false →
    params.deltaWidthBits = unsignedBitWidth r.maxUnsignedDelta false

theorem chooseParameters_chosenFor : ChosenFor (chosen base values) (chosenRange base values) := by
  obtain ⟨hpos, hword⟩ := chooseValueWidthBits_bounds (survey base values)
  have hle : unsignedBitWidth (chosenRange base values).maxUnsignedDelta false ≤
      (chosen base values).valueWidthBits :=
    (unsignedBitWidth_le_iff _ hpos).mpr
      (maxUnsignedDelta_lt hword values ⟨0, 0, 0, base⟩ (Nat.two_pow_pos _))
  cases hsigned : (chosen base values).signedDeltas with
  | true =>
    have hlt : signedBitWidth (chosenRange base values).maxPosSignedDelta
        (chosenRange base values).minNegSignedDelta <
        unsignedBitWidth (chosenRange base values).maxUnsignedDelta false :=
      of_decide_eq_true hsigned
    have hwidth : (chosen base values).deltaWidthBits = signedBitWidth
        (chosenRange base values).maxPosSignedDelta (chosenRange base values).minNegSignedDelta :=
      if_pos hsigned
    exact ⟨⟨hwidth ▸ Nat.le_add_right 1 _, by omega, hword⟩, fun _ => ⟨hwidth, by omega⟩,
      fun h => absurd (hsigned.symm.trans h) (by decide)⟩
  | false =>
    have hwidth : (chosen base values).deltaWidthBits =
        unsignedBitWidth (chosenRange base values).maxUnsignedDelta false :=
      if_neg (ne_true_of_eq_false hsigned)
    exact ⟨⟨hwidth ▸ unsignedBitWidth_pos _, by omega, hword⟩,
      fun h => absurd (hsigned.symm.trans h) (by decide), fun _ => hwidth⟩

theorem chosen_validWidths : ValidWidths (chosen base values) :=
  (chooseParameters_chosenFor base values).widths

theorem ChosenFor.stepFits {params : FixedLengthEncodingParameters} {range : DeltaRange}
    {p c : BitVec 64} (hchosen : ChosenFor params range)
    (hp : p.toNat < 2 ^ params.valueWidthBits) (hc : c.toNat < 2 ^ params.valueWidthBits)
    (h : Covers params.valueMask range p c) : StepFits params p c := by
  refine ⟨hp, hc, fun hunsigned => ?_, fun hsigned hle => ?_, fun hsigned hlt => ?_⟩
  · rw [hchosen.unsigned hunsigned]
    exact Nat.lt_of_le_of_lt h.unsigned (lt_two_pow_unsignedBitWidth _)
  · obtain ⟨hwidth, hnarrow⟩ := hchosen.signed hsigned
    by_cases hlt : unsignedDelta p c params.valueMask < unsignedDelta c p params.valueMask
    · rw [hwidth]
      exact Nat.lt_of_le_of_lt (h.positive hlt) (lt_signedBitWidth _ _)
    · -- the tie: half a turn would make signed deltas as wide as the values
      have hnegative := Nat.le_trans (h.negative hlt)
        (le_signedBitWidth range.maxPosSignedDelta range.minNegSignedDelta)
      rw [← hwidth] at hnegative
      have hdirections : (unsignedDelta p c params.valueMask).toNat +
          (unsignedDelta c p params.valueMask).toNat = 2 ^ params.valueWidthBits ∨
          (unsignedDelta p c params.valueMask).toNat = 0 ∧ _ :=
        delta_directions hchosen.widths.value_le hp hc
      have hpow : 2 * 2 ^ params.deltaWidthBits ≤ 2 ^ params.valueWidthBits := by
        rw [Nat.mul_comm, ← pow_succ]
        exact Nat.pow_le_pow_right (by decide) hnarrow
      have hhalf := two_pow_deltaWidth hchosen.widths
      have hpos := Nat.two_pow_pos (params.deltaWidthBits - 1)
      rw [BitVec.le_def] at hle
      omega
  · rw [(hchosen.signed hsigned).1]
    exact Nat.le_trans (h.negative fun h => BitVec.lt_irrefl _ (BitVec.lt_trans h hlt))
      (le_signedBitWidth _ _)

theorem chosen_fits : Steps (StepFits (chosen base values)) base values := by
  obtain ⟨hbase, hvalues⟩ := le_survey values ⟨true, base.getD 0, 0, base.getD 0⟩
  have hbounded : Steps (fun p v => p.toNat < 2 ^ (chosen base values).valueWidthBits ∧
      v.toNat < 2 ^ (chosen base values).valueWidthBits) base values := by
    apply steps_of_forall
    · intro p hp
      apply lt_chooseValueWidthBits
      rw [hp] at hbase ⊢
      exact hbase
    · intro v hv
      exact lt_chooseValueWidthBits _ (hvalues v hv)
  have hcovered : Steps (Covers (chosen base values).valueMask (chosenRange base values))
      base values := (visit_spec _ values ⟨0, 0, 0, base⟩).2
  exact (hbounded.and hcovered).imp fun p v h =>
    (chooseParameters_chosenFor base values).stepFits h.1.1 h.1.2 h.2

end Chosen

section VarInt

variable {decoded : BitVec 64} {r : BitstreamReader} {rest : List Bool}

theorem varInt_low (b : BitVec 8) (h : b.toNat < 128) :
    b &&& 0x7f = b ∧ b &&& 0x80 = 0 ∧ (b ||| 0x80) &&& 0x7f = b ∧ (b ||| 0x80) &&& 0x80 ≠ 0 := by
  revert b
  decide

theorem toNat_low_seven (x : BitVec 64) : ((x &&& 0x7f).setWidth 8).toNat = x.toNat % 128 := by
  have hmask : (0x7f : BitVec 64).toNat = 2 ^ 7 - 1 := rfl
  rw [toNat_setWidth, toNat_and, hmask, Nat.and_two_pow_sub_one_eq_mod, Nat.mod_eq_of_lt (by omega)]

theorem toNat_add_digit {b : BitVec 8} {i : Nat}
    (h : decoded.toNat + b.toNat * 2 ^ (7 * i) < 2 ^ 64) :
    (decoded + (b.setWidth 64 <<< (7 * i))).toNat = decoded.toNat + b.toNat * 2 ^ (7 * i) := by
  rw [toNat_add, toNat_setWidth_shiftLeft b (by omega), Nat.mod_eq_of_lt h]

theorem toNat_shift_seven (x : BitVec 64) : (x >>> 7).toNat = x.toNat / 128 := by
  rw [toNat_ushiftRight, Nat.shiftRight_eq_div_pow]

theorem pow_seven (i : Nat) : 2 ^ (7 * (i + 1)) = 128 * 2 ^ (7 * i) := by
  rw [Nat.mul_add, pow_add, Nat.mul_comm]
  rfl

/-- A number is its last seven bits and the rest, at any place. -/
theorem digit_split (x : BitVec 64) (i : Nat) :
    x.toNat * 2 ^ (7 * i) = x.toNat % 128 * 2 ^ (7 * i) + (x >>> 7).toNat * 2 ^ (7 * (i + 1)) := by
  rw [toNat_shift_seven, pow_seven, ← Nat.mul_assoc, ← Nat.add_mul]
  congr 1
  omega

variable {x : BitVec 64}

theorem decodeVarIntLoop_last (n i : Nat) (hlast : ¬ x >>> 7 > 0)
    (hsum : decoded.toNat + x.toNat * 2 ^ (7 * i) < 2 ^ 64)
    (hr : r.Unread (ofBytes (encodeVarIntLoop (n + 1) x) ++ rest)) :
    (decodeVarIntLoop (n + 1) i decoded r).1.toNat = decoded.toNat + x.toNat * 2 ^ (7 * i) ∧
      (decodeVarIntLoop (n + 1) i decoded r).2.Unread rest := by
  have hlow := toNat_low_seven x
  obtain ⟨hseven, hend, -, -⟩ := varInt_low ((x &&& 0x7f).setWidth 8) (by omega)
  have hzero := Nat.eq_zero_of_not_pos hlast
  have hsplit := digit_split x i
  rw [hzero, Nat.zero_mul] at hsplit
  rw [encodeVarIntLoop, if_neg hlast, ofBytes_cons] at hr
  obtain ⟨hbyte, hrest⟩ := readByte_spec hr
  rw [hsplit, ← hlow] at hsum ⊢
  rw [decodeVarIntLoop]
  dsimp only
  rw [hbyte, if_pos hend, hseven]
  exact ⟨toNat_add_digit hsum, hrest⟩

theorem decodeVarIntLoop_spec (n i : Nat) (x decoded : BitVec 64) (r : BitstreamReader)
    (rest : List Bool) (hx : x.toNat < 2 ^ (7 * (n + 1)))
    (hsum : decoded.toNat + x.toNat * 2 ^ (7 * i) < 2 ^ 64)
    (hr : r.Unread (ofBytes (encodeVarIntLoop (n + 1) x) ++ rest)) :
    (decodeVarIntLoop (n + 1) i decoded r).1.toNat = decoded.toNat + x.toNat * 2 ^ (7 * i) ∧
      (decodeVarIntLoop (n + 1) i decoded r).2.Unread rest := by
  have hshift := toNat_shift_seven x
  induction n generalizing i x decoded r with
  | zero =>
    refine decodeVarIntLoop_last 0 i (fun hmore => ?_) hsum hr
    have hpos : 0 < (x >>> 7).toNat := hmore
    omega
  | succ n ih =>
    by_cases hmore : x >>> 7 > 0
    · -- the byte holds seven of the bits, and more follow
      have hlow := toNat_low_seven x
      obtain ⟨-, -, hseven, hend⟩ := varInt_low ((x &&& 0x7f).setWidth 8) (by omega)
      have hpow := pow_seven (n + 1)
      rw [encodeVarIntLoop, if_pos hmore] at hr
      obtain ⟨hbyte, hrest⟩ := readByte_spec hr
      rw [digit_split x i, ← hlow, ← Nat.add_assoc] at hsum ⊢
      have htotal := toNat_add_digit (Nat.lt_of_le_of_lt (Nat.le_add_right _ _) hsum)
      rw [← htotal] at hsum ⊢
      rw [decodeVarIntLoop]
      dsimp only
      rw [hbyte, if_neg hend, hseven]
      exact ih (i + 1) (x >>> 7) _ _ (by omega) hsum hrest (toNat_shift_seven _)
    · exact decodeVarIntLoop_last (n + 1) i hmore hsum hr

theorem decodeVarInt_spec (hr : r.Unread (ofBytes (encodeVarInt x) ++ rest)) :
    (decodeVarInt r).1 = x ∧ (decodeVarInt r).2.Unread rest := by
  have hzero : (0 : BitVec 64).toNat = 0 := rfl
  obtain ⟨hvalue, hrest⟩ := decodeVarIntLoop_spec 9 0 x 0 r rest (by omega) (by omega) hr
  refine ⟨eq_of_toNat_eq ?_, hrest⟩
  rw [decodeVarInt, kMaxVarIntLengthBytes, hvalue, hzero, pow_zero, Nat.mul_one, Nat.zero_add]

theorem length_encodeVarIntLoop (n : Nat) (x : BitVec 64) : (encodeVarIntLoop n x).length ≤ n := by
  induction n generalizing x with
  | zero => exact Nat.le_refl 0
  | succ n ih =>
    rw [encodeVarIntLoop]
    split
    · exact Nat.succ_le_succ (ih _)
    · exact Nat.succ_le_succ (Nat.zero_le n)

end VarInt

section Stream

variable {params : FixedLengthEncodingParameters} {base : Option (BitVec 64)}
  (values : List (Option (BitVec 64))) {r : BitstreamReader} {rest : List Bool}

def headerBits (params : FixedLengthEncodingParameters) : List Bool :=
  bits 2 params.encodingType.toBits.toNat ++ (bits 6 (params.deltaWidthBits - 1) ++
    if params.isDefault then []
    else [params.signedDeltas] ++ ([params.valuesOptional] ++ bits 6 (params.valueWidthBits - 1)))

def payload (params : FixedLengthEncodingParameters) :
    Option (BitVec 64) → List (Option (BitVec 64)) → List Bool
  | _, [] => []
  | previous, none :: values => payload params previous values
  | none, some value :: values => ofBytes (encodeVarInt value) ++ payload params (some value) values
  | some previous, some value :: values =>
    bits params.deltaWidthBits (deltaOf params previous value).toNat ++
      payload params (some value) values

theorem bits_one (b : Bool) : bits 1 (BitVec.ofNat 64 b.toNat).toNat = [b] := by
  cases b <;> rfl

theorem toNat_ofNat_width {n : Nat} (h : n ≤ 64) : (BitVec.ofNat 64 (n - 1)).toNat = n - 1 := by
  rw [toNat_ofNat, Nat.mod_eq_of_lt (by omega)]

theorem encodingType_eq_iff : params.encodingType = .fixedSizeUnsignedDeltasNoEarlyWrapNoOpt ↔
    params.isDefault = true := by
  rw [encodingType]
  split
  · exact ⟨fun _ => by assumption, fun _ => rfl⟩
  · exact ⟨nofun, fun h => absurd h (by assumption)⟩

theorem emits_encodeHeader (hv : ValidWidths params) :
    BitWriter.Emits (encodeHeader params) (headerBits params) := by
  have htype := emits_writeBits params.encodingType.toBits (show 0 < 2 by decide) (by decide)
  have hdelta := emits_writeBits (BitVec.ofNat 64 (params.deltaWidthBits - 1))
    (show 0 < 6 by decide) (by decide)
  rw [toNat_ofNat_width hv.delta_le_word] at hdelta
  by_cases hdefault : params.isDefault = true
  · rw [headerBits, if_pos hdefault]
    exact (htype.andThen hdelta).of_eq fun w => if_pos (encodingType_eq_iff.mpr hdefault)
  · have hsigned := emits_writeBits (BitVec.ofNat 64 params.signedDeltas.toNat)
      (show 0 < 1 by decide) (by decide)
    have hoptional := emits_writeBits (BitVec.ofNat 64 params.valuesOptional.toNat)
      (show 0 < 1 by decide) (by decide)
    have hvalue := emits_writeBits (BitVec.ofNat 64 (params.valueWidthBits - 1))
      (show 0 < 6 by decide) (by decide)
    rw [bits_one] at hsigned hoptional
    rw [toNat_ofNat_width hv.value_le] at hvalue
    rw [headerBits, if_neg hdefault]
    exact (htype.andThen (hdelta.andThen (hsigned.andThen (hoptional.andThen hvalue)))).of_eq
      fun w => if_neg fun h => hdefault (encodingType_eq_iff.mp h)

theorem emits_encodeExistence :
    BitWriter.Emits (encodeExistence values) (values.map Option.isSome) := by
  induction values with
  | nil => exact BitWriter.Emits.nothing
  | cons value values ih =>
    have hbit := emits_writeBits (if value.isSome then 1 else 0) (show 0 < 1 by decide)
      (by decide)
    have hone : bits 1 (if value.isSome then (1 : BitVec 64) else 0).toNat = [value.isSome] := by
      cases value with
      | none => rfl
      | some v => exact bits_one true
    rw [hone] at hbit
    exact hbit.andThen ih

variable {previous : Option (BitVec 64)}

theorem emits_encodeValues (hv : ValidWidths params) {values : List (Option (BitVec 64))}
    (hfits : Steps (StepFits params) previous values)
    (hoptional : none ∈ values → params.valuesOptional = true)
    (hbase : previous = none → base = none) :
    BitWriter.Emits (encodeValues params base previous values) (payload params previous values) := by
  induction values generalizing previous with
  | nil => exact BitWriter.Emits.nothing.of_eq fun w => by cases previous <;> rfl
  | cons head values ih =>
    have htail : none ∈ values → params.valuesOptional = true :=
      fun h => hoptional (mem_cons_of_mem _ h)
    cases head with
    | none =>
      have hfits' : Steps (StepFits params) previous values := by
        cases previous <;> exact hfits
      have hcheck := emits_dcheck (hoptional mem_cons_self)
      exact (hcheck.andThen (ih hfits' htail hbase)).of_eq fun w => by cases previous <;> rfl
    | some value =>
      have hsome : some value = none → base = none := fun h => absurd h (nofun)
      cases previous with
      | none =>
        have hcheck := emits_dcheck (show base.isNone = true by rw [hbase rfl]; rfl)
        have hrest := hfits
        exact (hcheck.andThen (emits_writeString (encodeVarInt value))).andThen
          (ih hrest htail hsome)
      | some p =>
        exact (emits_encodeDelta hv hfits.1).andThen (ih hfits.2 htail hsome)

theorem length_payload_some (previous : BitVec 64) :
    (payload params (some previous) values).length =
      values.countP Option.isSome * params.deltaWidthBits := by
  induction values generalizing previous with
  | nil => exact (Nat.zero_mul _).symm
  | cons head values ih =>
    rw [countP_cons]
    cases head with
    | none => exact ih previous
    | some value =>
      rw [payload, length_append, length_bits, ih value]
      simp only [isSome_some, if_true]
      rw [Nat.add_mul, Nat.one_mul, Nat.add_comm]

theorem length_payload_none_le : (payload params none values).length ≤ 8 * kMaxVarIntLengthBytes +
      (values.countP Option.isSome - (decide (values.countP Option.isSome ≥ 1)).toNat) *
        params.deltaWidthBits := by
  induction values with
  | nil => exact Nat.zero_le _
  | cons head values ih =>
    cases head with
    | none => exact ih
    | some value =>
      have hvarint := length_encodeVarIntLoop kMaxVarIntLengthBytes value
      have hcount : (some value :: values).countP isSome = values.countP isSome + 1 :=
        countP_cons_of_pos rfl
      rw [payload, length_append, length_ofBytes, length_payload_some, hcount, decide_eq_true
        (Nat.le_add_left 1 _)]
      exact Nat.add_le_add_right (Nat.mul_le_mul_left 8 hvarint) _

theorem length_headerBits : (headerBits params).length = headerLengthBits params := by
  rw [headerBits, headerLengthBits]
  split
  · rfl
  · rfl

def encodedBits (params : FixedLengthEncodingParameters) (base : Option (BitVec 64))
    (values : List (Option (BitVec 64))) : List Bool :=
  headerBits params ++ ((if params.valuesOptional then values.map Option.isSome else []) ++
    payload params base values)

theorem length_encodedBits_le {values : List (Option (BitVec 64))}
    (hoptional : params.valuesOptional = false →
      base.isSome = true ∧ values.countP Option.isSome = values.length) :
    (encodedBits params base values).length ≤
      8 * outputLengthBytes params base values.length (values.countP Option.isSome) := by
  refine Nat.le_trans ?_ (le_bitsToBytes _)
  rw [encodedBits, length_append, length_append, length_headerBits, encodedDeltasLengthBits]
  cases hvalues : params.valuesOptional with
  | false =>
    obtain ⟨hbase, hcount⟩ := hoptional hvalues
    obtain ⟨b, rfl⟩ := isSome_iff_exists.mp hbase
    rw [length_payload_some, hcount]
    simp only [Bool.false_eq_true, if_false, length_nil, Bool.not_false, if_true]
    omega
  | true =>
    simp only [if_true, length_map, Bool.not_true, Bool.false_eq_true, if_false]
    cases base with
    | none =>
      have hpayload : (payload params none values).length ≤ _ := length_payload_none_le values
      simp only [isNone_none, Bool.true_and]
      omega
    | some b =>
      rw [length_payload_some]
      simp only [isNone_some, Bool.false_and, Bool.toNat_false, Nat.sub_zero]
      omega

theorem readExistence_spec (existing rest : List Bool) (hr : r.Unread (existing ++ rest)) :
    (readExistence existing.length r).1 = existing ∧
      (readExistence existing.length r).2.Unread rest := by
  induction existing generalizing r with
  | nil => exact ⟨rfl, hr⟩
  | cons bit existing ih =>
    obtain ⟨hbit, hnext⟩ := readBit_spec hr
    obtain ⟨hvalues, hrest⟩ := ih hnext
    refine ⟨?_, hrest⟩
    change r.readBit.1 :: (readExistence existing.length r.readBit.2).1 = bit :: existing
    rw [hbit, hvalues]

theorem decodeValues_spec (hv : ValidWidths params) {values : List (Option (BitVec 64))}
    (hfits : Steps (StepFits params) previous values)
    (hoptional : none ∈ values → params.valuesOptional = true)
    (hbase : previous = none → base = none)
    (hr : r.Unread (payload params previous values ++ rest)) :
    ∃ r', decodeValues params base previous (values.map Option.isSome) ⟨r, true⟩ =
      (values, ⟨r', true⟩) ∧ r'.Unread rest := by
  induction values generalizing previous r with
  | nil => cases previous <;> exact ⟨r, rfl, hr⟩
  | cons head values ih =>
    have htail : none ∈ values → params.valuesOptional = true :=
      fun h => hoptional (mem_cons_of_mem _ h)
    cases head with
    | none =>
      have hfits' : Steps (StepFits params) previous values := by
        cases previous <;> exact hfits
      obtain ⟨r', hrest, hr'⟩ := ih hfits' htail hbase (by cases previous <;> exact hr)
      refine ⟨r', ?_, hr'⟩
      cases previous <;>
        simp [decodeValues, Progress.dcheck, hoptional mem_cons_self, hrest]
    | some value =>
      have hsome : some value = none → base = none := fun h => absurd h (nofun)
      cases previous with
      | none =>
        rw [payload, append_assoc] at hr
        obtain ⟨hvalue, hnext⟩ := decodeVarInt_spec hr
        obtain ⟨r', hrest, hr'⟩ := ih (show Steps _ (some value) values from hfits) htail hsome hnext
        exact ⟨r', by simp [decodeValues, hvalue, hbase rfl ▸ hrest, hbase rfl], hr'⟩
      | some p =>
        rw [payload, append_assoc] at hr
        obtain ⟨hdelta, hnext⟩ := readWord_spec hv.delta_le_word
          (deltaOf_lt hv hfits.1) hr
        obtain ⟨r', hrest, hr'⟩ := ih hfits.2 htail hsome hnext
        exact ⟨r', by simp [decodeValues, hdelta, applyDelta_deltaOf hv hfits.1, hrest], hr'⟩

theorem encodingType_bits (params : FixedLengthEncodingParameters) :
    params.encodingType.toBits.toNat < 2 ^ 2 ∧
      EncodingType.ofBits params.encodingType.toBits = params.encodingType ∧
      params.encodingType.supported = true := by
  rw [encodingType]
  split <;> decide

theorem readWidth_spec {n : Nat} (hpos : 1 ≤ n) (hle : n ≤ 64)
    (hr : r.Unread (bits 6 (n - 1) ++ rest)) :
    ((r.readBits 6).1 + 1).toNat = n ∧ (r.readBits 6).2.Unread rest := by
  have hword := toNat_ofNat_width hle
  rw [← hword] at hr
  obtain ⟨hvalue, hrest⟩ := readWord_spec (by decide) (by rw [hword]; omega) hr
  have hone : (1 : BitVec 64).toNat = 1 := rfl
  refine ⟨?_, hrest⟩
  rw [hvalue, toNat_add, Nat.mod_eq_of_lt (by omega)]
  omega

theorem eq_of_isDefault (h : params.isDefault = true) :
    params = ⟨params.deltaWidthBits, kDefaultSignedDeltas, kDefaultValuesOptional,
      kDefaultValueWidthBits⟩ := by
  obtain ⟨deltaWidthBits, signedDeltas, valuesOptional, valueWidthBits⟩ := params
  simp only [isDefault, Bool.and_eq_true, beq_iff_eq] at h
  rw [h.1.1, h.1.2, h.2]

theorem checked_header (hv : ValidWidths params) (hr : r.Unread rest) : (if (!r.ok) = true then none
      else if (!validParameters params.deltaWidthBits
        params.valueWidthBits) = true then none
      else some (params, r)) = some (params, r) := by
  have hvalid : validParameters params.deltaWidthBits params.valueWidthBits = true :=
    decide_eq_true ⟨hv.delta_pos, hv.delta_le_word, Nat.le_trans hv.delta_pos hv.delta_le,
      hv.value_le, hv.delta_le⟩
  rw [hr.ok, hvalid]
  rfl

theorem readLongHeader_spec (hv : ValidWidths params)
    (hr : r.Unread ([params.signedDeltas] ++ ([params.valuesOptional] ++
      bits 6 (params.valueWidthBits - 1)) ++ rest)) :
    (readLongHeader params.deltaWidthBits r).1 = params ∧
      (readLongHeader params.deltaWidthBits r).2.Unread rest := by
  obtain ⟨hsigned, hr₁⟩ := readBit_spec hr
  obtain ⟨hoptional, hr₂⟩ := readBit_spec hr₁
  obtain ⟨hwidth, hr₃⟩ := readWidth_spec (Nat.le_trans hv.delta_pos hv.delta_le) hv.value_le hr₂
  refine ⟨?_, hr₃⟩
  change mk params.deltaWidthBits r.readBit.1 r.readBit.2.readBit.1
    ((r.readBit.2.readBit.2.readBits 6).1 + 1).toNat = params
  rw [hsigned, hoptional, hwidth]

theorem create_spec (hv : ValidWidths params) (hr : r.Unread (headerBits params ++ rest)) :
    ∃ r', create r = some (params, r') ∧ r'.Unread rest := by
  obtain ⟨htype, hofBits, hsupported⟩ := encodingType_bits params
  obtain ⟨hbits, hr₁⟩ := readWord_spec (by decide) htype hr
  obtain ⟨hdelta, hr₂⟩ := readWidth_spec hv.delta_pos hv.delta_le_word hr₁
  have hcreate : create r = readHeader params.encodingType (r.readBits 2).2 := by
    change (if (!(r.readBits 2).2.ok) = true then none
      else if (!(EncodingType.ofBits (r.readBits 2).1).supported) = true then none
      else readHeader (EncodingType.ofBits (r.readBits 2).1) (r.readBits 2).2) = _
    rw [hr₁.ok, hbits, hofBits, hsupported]
    rfl
  rw [hcreate]
  by_cases hdefault : params.isDefault = true
  · rw [if_pos hdefault] at hr₂
    refine ⟨((r.readBits 2).2.readBits 6).2, ?_, hr₂⟩
    have hparams := eq_of_isDefault hdefault
    rw [← hdelta] at hparams
    refine Eq.trans ?_ (checked_header hv hr₂)
    conv_rhs => rw [hparams]
    rw [encodingType_eq_iff.mpr hdefault]
    rfl
  · rw [if_neg hdefault] at hr₂
    obtain ⟨hparams, hr₃⟩ := readLongHeader_spec hv hr₂
    refine ⟨_, ?_, hr₃⟩
    refine Eq.trans ?_ (checked_header hv hr₃)
    have hlong : params.encodingType = .fixedSizeSignedDeltasEarlyWrapAndOptSupported :=
      if_neg hdefault
    rw [hlong]
    conv_rhs => rw [← hparams]
    rw [← hdelta]
    rfl

end Stream

section RoundTrip

variable (base : Option (BitVec 64)) (values : List (Option (BitVec 64)))

def finalWriter : BitWriter :=
  encode (chooseParameters base values) base values (survey base values).existentValuesCount

theorem existentValuesCount_eq :
    (survey base values).existentValuesCount = values.countP Option.isSome := by
  rw [survey, survey_count, Nat.zero_add]

theorem valuesOptional_eq : (chosen base values).valuesOptional =
      (base.isNone || decide (values.countP Option.isSome < values.length)) := by
  rw [← existentValuesCount_eq base values]
  rfl

theorem optional_of_none_mem (h : none ∈ values) : (chosen base values).valuesOptional = true := by
  have hlt : values.countP isSome < values.length := by
    refine Nat.lt_of_le_of_ne countP_le_length fun hall => ?_
    exact absurd (countP_eq_length.mp hall none h) (by decide)
  rw [valuesOptional_eq, decide_eq_true hlt, Bool.or_true]

theorem count_of_not_optional (h : (chosen base values).valuesOptional = false) :
    base.isSome = true ∧ values.countP Option.isSome = values.length := by
  rw [valuesOptional_eq, Bool.or_eq_false_iff] at h
  have hcount := of_decide_eq_false h.2
  have hle : values.countP isSome ≤ values.length := countP_le_length
  exact ⟨isNone_eq_false_iff.mp h.1, by omega⟩

theorem emits_encode (params : FixedLengthEncodingParameters) (hv : ValidWidths params)
    (hfits : Steps (StepFits params) base values)
    (hoptional : none ∈ values → params.valuesOptional = true) :
    BitWriter.Emits (fun w => encodeValues params base base values
        (if params.valuesOptional then encodeExistence values (encodeHeader params w)
          else encodeHeader params w))
      (encodedBits params base values) := by
  have hheader := emits_encodeHeader hv
  have hvalues := emits_encodeValues hv hfits hoptional fun h => h
  rw [encodedBits]
  cases hflag : params.valuesOptional with
  | true =>
    exact hheader.andThen ((emits_encodeExistence values).andThen hvalues)
  | false => exact hheader.andThen hvalues

theorem finalWriter_holds :
    (finalWriter base values).Holds (encodedBits (chosen base values) base values) := by
  have hemits := emits_encode base values (chosen base values)
    (chosen_validWidths base values) (chosen_fits base values) (optional_of_none_mem base values)
  have hroom := length_encodedBits_le (count_of_not_optional base values)
  have hpos : 0 < outputLengthBytes (chosen base values) base values.length
      (values.countP isSome) := by
    have hheader : 2 ≤ (encodedBits (chosen base values) base values).length := by
      rw [encodedBits, headerBits, length_append, length_append, length_bits]
      omega
    omega
  have hfinal := hemits _ [] (holds_ofByteCount hpos) (by
    rw [capacity_ofByteCount, length_nil, Nat.zero_add]
    exact hroom)
  rw [← existentValuesCount_eq base values] at hfinal
  exact hfinal.1

theorem encodeDeltas_of_not_all (h : ¬ (values.all fun val => val == base) = true) :
    encodeDeltas base values =
      ((finalWriter base values).getString, !values.isEmpty && (finalWriter base values).checked) :=
  if_neg h

/-- What the decoder makes of the bits of the encoder. -/
theorem fixedLength_decodeDeltas {input : List (BitVec 8)} {padding : List Bool}
    (hinput : ofBytes input = encodedBits (chosen base values) base values ++ padding)
    (hsize : input.length * 8 < 2 ^ 31) :
    isSuitableDecoderFor input = some true ∧
      FixedLengthDeltaDecoder.decodeDeltas input base values.length = some (values, true) := by
  have hv := chosen_validWidths base values
  obtain ⟨r, hreader, hr⟩ := unread_ofInput hsize
  rw [hinput, encodedBits, append_assoc] at hr
  constructor
  · obtain ⟨htype, hofBits, hsupported⟩ := encodingType_bits (chosen base values)
    obtain ⟨hbits, hr₁⟩ := readWord_spec (by decide) htype hr
    rw [isSuitableDecoderFor, hreader]
    change some ((r.readBits 2).2.ok && (EncodingType.ofBits (r.readBits 2).1).supported) = some true
    rw [hr₁.ok, hbits, hofBits, hsupported]
    rfl
  · obtain ⟨r₁, hcreate, hr₁⟩ := create_spec hv hr
    have hdecode : FixedLengthDeltaDecoder.decodeDeltas input base values.length =
        some (decode (chosen base values) r₁ base values.length) := by
      simp only [FixedLengthDeltaDecoder.decodeDeltas, hreader, Option.bind_eq_bind,
        Option.bind_some, hcreate]
      rfl
    rw [append_assoc] at hr₁
    -- the list of existing values, read or implied, and the reader behind it
    obtain ⟨r₂, hexisting, hr₂⟩ : ∃ r₂, (if (chosen base values).valuesOptional then
        readExistence values.length r₁ else (replicate values.length true, r₁)) =
          (values.map isSome, r₂) ∧
        r₂.Unread (payload (chosen base values) base values ++ padding) := by
      cases hflag : (chosen base values).valuesOptional with
      | true =>
        rw [hflag] at hr₁
        obtain ⟨hbits, hnext⟩ := readExistence_spec (values.map isSome) _ hr₁
        rw [length_map] at hbits hnext
        exact ⟨_, Prod.ext hbits rfl, hnext⟩
      | false =>
        rw [hflag] at hr₁
        refine ⟨r₁, Prod.ext ?_ rfl, hr₁⟩
        have hall := countP_eq_length.mp (count_of_not_optional base values hflag).2
        change replicate values.length true = values.map isSome
        symm
        rw [eq_replicate_iff, length_map]
        refine ⟨rfl, fun b hb => ?_⟩
        obtain ⟨value, hvalue, rfl⟩ := mem_map.mp hb
        exact hall value hvalue
    have hbase : base = none → base = none := fun h => h
    obtain ⟨r₃, hvalues, hend⟩ := decodeValues_spec hv (chosen_fits base values)
      (optional_of_none_mem base values) hbase hr₂
    rw [hdecode, decode, hexisting]
    dsimp only
    rw [hvalues, if_pos hend.ok]

end RoundTrip

/-- Delta encoding is read back. The encoder stays within the bytes it reserved, and if the encoding
has fewer than `2^28` bytes the decoder returns the values. No check fails. -/
theorem decodeDeltas_encodeDeltas (base : Option (BitVec 64)) (values : List (Option (BitVec 64)))
    (nonempty : values ≠ []) :
    (encodeDeltas base values).2 = true ∧ ((encodeDeltas base values).1.length < 2 ^ 28 →
        decodeDeltas (encodeDeltas base values).1 base values.length = some (values, true)) := by
  have hflag : (!values.isEmpty) = true := by
    rw [isEmpty_eq_false_iff.mpr nonempty]
    rfl
  have hnum := decide_eq_true (length_pos_iff.mpr nonempty)
  by_cases hall : (values.all fun val => val == base) = true
  · rw [encodeDeltas, if_pos hall]
    refine ⟨hflag, fun _ => ?_⟩
    have hvalues : replicate values.length base = values := by
      symm
      rw [eq_replicate_iff]
      exact ⟨rfl, fun v hv => eq_of_beq (all_eq_true.mp hall v hv)⟩
    rw [decodeDeltas, if_pos rfl, hvalues, hnum]
  · have hholds := finalWriter_holds base values
    obtain ⟨hlength, padding, hstring⟩ := BitWriter.getString_spec hholds
    rw [encodeDeltas_of_not_all base values hall]
    refine ⟨by rw [hflag, hholds.checked]; rfl, fun hsize => ?_⟩
    dsimp only at hsize ⊢
    obtain ⟨hsuitable, hdecode⟩ := fixedLength_decodeDeltas base values hstring (by omega)
    have hne : (finalWriter base values).getString ≠ [] := by
      intro hnil
      rw [hnil, ofBytes_nil, encodedBits, headerBits] at hstring
      have := congrArg length hstring
      simp only [length_append, length_bits, length_nil] at this
      omega
    rw [decodeDeltas, if_neg hne, hsuitable]
    rw [hdecode, hnum]
    rfl

theorem decodeDeltas_encodeDeltas_wrapping :
    (encodeDeltas (some 8) [some 0, none, some 15]).2 = true ∧
      decodeDeltas (encodeDeltas (some 8) [some 0, none, some 15]).1 (some 8) 3 =
        some ([some 0, none, some 15], true) := by
  obtain ⟨hchecked, hdecode⟩ := decodeDeltas_encodeDeltas (some 8) [some 0, none, some 15] (by decide)
  exact ⟨hchecked, hdecode (by decide +kernel)⟩

theorem count_le_length_encodeDeltas (b : BitVec 64) (values : List (Option (BitVec 64)))
    (h : ¬ (values.all fun val => val == some b) = true) :
    values.countP Option.isSome ≤ 8 * (encodeDeltas (some b) values).1.length := by
  have hwidth := (chosen_validWidths (some b) values).delta_pos
  have hlength := (getString_spec (finalWriter_holds (some b) values)).1
  rw [encodeDeltas_of_not_all (some b) values h]
  rw [hlength]
  refine Nat.le_trans ?_ (le_bitsToBytes _)
  rw [encodedBits, length_append, length_append, length_payload_some]
  have := Nat.le_mul_of_pos_right (values.countP isSome) hwidth
  omega

theorem decodeDeltas_aborts_of_le {n : Nat} (h : 2 ^ 31 ≤ n) :
    decodeDeltas (encodeDeltas (some 0) (replicate n (some 1))).1 (some 0) n = none := by
  have hne : ¬ ((replicate n (some (1 : BitVec 64))).all fun val => val == some 0) = true := by
    intro hall
    have := all_eq_true.mp hall (some 1) (mem_replicate.mpr ⟨by omega, rfl⟩)
    exact absurd this (by decide)
  have hcount : (replicate n (some (1 : BitVec 64))).countP isSome = n := by
    rw [countP_replicate]
    rfl
  have hlength := count_le_length_encodeDeltas 0 _ hne
  rw [decodeDeltas, if_neg (ne_nil_of_length_pos (by omega)), isSuitableDecoderFor, ofInput,
    if_neg (by omega)]
  rfl

/-- An encoding of `2^28` bytes or more aborts the decoder, whose reader counts bits in an `int`. -/
theorem decodeDeltas_aborts :
    decodeDeltas (encodeDeltas (some 0) (List.replicate (2 ^ 31) (some 1))).1 (some 0) (2 ^ 31) =
      none :=
  decodeDeltas_aborts_of_le (Nat.le_refl _)

end EventLog
