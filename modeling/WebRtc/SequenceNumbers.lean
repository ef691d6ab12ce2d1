import WebRtc.Lib.Wrapping

/-!
# Wrapping sequence numbers and their unwrappers

Model of `rtc_base/numerics/{mod_ops,sequence_number_util,sequence_number_unwrapper}.h`
and `net/dcsctp/common/sequence_numbers.h`, generic in the width of the wrapped
type. Unwrapped numbers are `int64_t` in the source and `Int` here.
-/

namespace SequenceNumbers

open Wrapping

variable {w : Nat}

def forwardDiff (a b : BitVec w) : BitVec w := b - a

/-- `AheadOrAt<T, 0>`: at the maximal distance the numerically larger number is ahead. -/
def aheadOrAt (a b : BitVec w) : Bool :=
  if (a - b).toNat = 2 ^ (w - 1) then decide (b.toNat < a.toNat)
  else decide ((forwardDiff b a).toNat < 2 ^ (w - 1))

def aheadOf (a b : BitVec w) : Bool := a != b && aheadOrAt a b

/-- Ahead is less than half a turn ahead; at half a turn the numerically larger number is ahead. -/
theorem aheadOf_iff_sub (a b : BitVec 16) : aheadOf a b = true ↔ a ≠ b ∧
      ((a - b).toNat < 32768 ∨ (a - b).toNat = 32768 ∧ b.toNat < a.toNat) := by
  rw [aheadOf, Bool.and_eq_true, bne_iff_ne]
  apply and_congr_right
  intro _
  change (if (a - b).toNat = 32768 then decide (b.toNat < a.toNat)
    else decide ((a - b).toNat < 32768)) = true ↔ _
  split_ifs with hhalf
  · rw [decide_eq_true_iff]
    omega
  · rw [decide_eq_true_iff]
    omega

/-- `IsNewerSequenceNumber` (`modules/include/module_common_types_public.h`). -/
def isNewerSequenceNumber (value prevValue : BitVec 16) : Bool :=
  if (value.toNat : Int) - prevValue.toNat = 0x8000 then decide (prevValue.toNat < value.toNat)
  else value != prevValue && decide ((value - prevValue).toNat < 0x8000)

/-- Newer is less than half a turn ahead; at half a turn the numerically larger number is newer. -/
theorem isNewerSequenceNumber_iff {value prevValue : BitVec 16} (hne : value ≠ prevValue) :
    isNewerSequenceNumber value prevValue = true ↔ (value - prevValue).toNat < 0x8000 ∨
        (value - prevValue).toNat = 0x8000 ∧ prevValue.toNat < value.toNat := by
  have hdist : (value - prevValue).toNat = (65536 - prevValue.toNat + value.toNat) % 65536 :=
    BitVec.toNat_sub _ _
  rw [isNewerSequenceNumber]
  split
  · rw [decide_eq_true_eq]
    omega
  · rw [Bool.and_eq_true, bne_iff_ne, decide_eq_true_eq, and_iff_right hne]
    omega

def delta (lastValue newValue : BitVec w) : Int :=
  let result : Int := (forwardDiff lastValue newValue).toNat
  if aheadOrAt newValue lastValue then result else result - 2 ^ w

/-- By `consistent` the value kept is the residue of the last unwrapped number. -/
structure SeqNumUnwrapper (w : Nat) where
  lastUnwrapped : Int
  lastValue : Option (BitVec w)
  consistent : ∀ v, lastValue = some v → v = wrap w lastUnwrapped

theorem wrap_delta (a b : BitVec w) : wrap w (delta a b) = b - a := by
  have hresult : wrap w ((forwardDiff a b).toNat : Int) = b - a := by
    rw [wrap_toNat, forwardDiff]
  unfold delta
  split
  · exact hresult
  · rw [← hresult, wrap_eq_iff]
    exact ⟨-1, by ring⟩

theorem two_halves (hw : 0 < w) : (2 : Int) ^ w = 2 ^ (w - 1) + 2 ^ (w - 1) := by
  rw [← two_mul, ← pow_succ', Nat.sub_add_cancel hw]

theorem delta_bounds (hw : 0 < w) (a b : BitVec w) :
    -(2 : Int) ^ (w - 1) ≤ delta a b ∧ delta a b ≤ 2 ^ (w - 1) := by
  have hturn := two_halves hw
  have hlt : ((b - a).toNat : Int) < 2 ^ w := by
    exact_mod_cast (b - a).isLt
  have hhalf : ((2 ^ (w - 1) : Nat) : Int) = 2 ^ (w - 1) := by push_cast; rfl
  unfold delta aheadOrAt
  dsimp only
  have hfd : forwardDiff a b = b - a := rfl
  by_cases heq : (b - a).toNat = 2 ^ (w - 1)
  · rw [hfd, heq]
    split <;> constructor <;> omega
  · rw [if_neg heq, hfd]
    by_cases hsmall : (b - a).toNat < 2 ^ (w - 1)
    · simp only [hsmall, decide_true, if_true]
      constructor <;> omega
    · simp only [hsmall, decide_false, Bool.false_eq_true, if_false]
      constructor <;> omega

namespace SeqNumUnwrapper

def initial : SeqNumUnwrapper w := ⟨0, none, by intro v h; cases h⟩

def peekUnwrap (u : SeqNumUnwrapper w) (value : BitVec w) : Int :=
  match u.lastValue with
  | none => value.toNat
  | some last => u.lastUnwrapped + delta last value

theorem wrap_peekUnwrap (u : SeqNumUnwrapper w) (value : BitVec w) :
    wrap w (u.peekUnwrap value) = value := by
  unfold peekUnwrap
  cases h : u.lastValue with
  | none => exact wrap_toNat value
  | some last =>
    have hlast := u.consistent last h
    rw [wrap_add, wrap_delta, ← hlast, add_sub_cancel]

def unwrap (u : SeqNumUnwrapper w) (value : BitVec w) : Int × SeqNumUnwrapper w :=
  (u.peekUnwrap value, ⟨u.peekUnwrap value, some value, by
    intro v h
    rw [wrap_peekUnwrap]
    exact (Option.some.inj h).symm⟩)

def reset (_ : SeqNumUnwrapper w) : SeqNumUnwrapper w := initial

section

variable (u : SeqNumUnwrapper w) (value : BitVec w)

@[simp] theorem unwrap_fst : (u.unwrap value).1 = u.peekUnwrap value := rfl

@[simp] theorem unwrap_lastUnwrapped : (u.unwrap value).2.lastUnwrapped = u.peekUnwrap value := rfl

end

theorem peekUnwrap_wrap_of_near (hw : 0 < w) (u : SeqNumUnwrapper w)
    (seen : u.lastValue ≠ none) (v : Int)
    (below : u.lastUnwrapped - 2 ^ (w - 1) < v) (above : v < u.lastUnwrapped + 2 ^ (w - 1)) :
    u.peekUnwrap (wrap w v) = v := by
  have hwrap := wrap_peekUnwrap u (wrap w v)
  have hturn := two_halves hw
  unfold peekUnwrap at hwrap ⊢
  cases hlast : u.lastValue with
  | none => exact absurd hlast seen
  | some last =>
    have hdelta := delta_bounds hw last (wrap w v)
    rw [hlast] at hwrap
    exact eq_of_wrap_eq hwrap (by dsimp only; omega) (by dsimp only; omega)

end SeqNumUnwrapper

/-- `UnwrappedSequenceNumber::Difference`: the distance, cast to the wrapped type. -/
def difference (w : Nat) (lhs rhs : Int) : Nat :=
  (wrap w (if lhs > rhs then lhs - rhs else rhs - lhs)).toNat

theorem difference_of_lt_turn {lhs rhs : Int} (below : lhs < rhs + 2 ^ w)
    (above : rhs < lhs + 2 ^ w) : (difference w lhs rhs : Int) = |lhs - rhs| := by
  have habs : (if lhs > rhs then lhs - rhs else rhs - lhs) = |lhs - rhs| := by
    split
    · rw [abs_of_pos (by omega)]
    · rw [abs_of_nonpos (by omega)]
      omega
  have hlt : |lhs - rhs| < 2 ^ w := abs_lt.mpr ⟨by omega, by omega⟩
  rw [difference, habs, toNat_wrap, Int.emod_eq_of_lt (abs_nonneg _) hlt]

end SequenceNumbers
