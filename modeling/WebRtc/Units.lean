import Mathlib.Tactic.Linarith

/-!
# Time units

Model of `rtc_base/units/unit_base.h`, `api/units/{time_delta,timestamp}.h` and the compact NTP
interval of `modules/rtp_rtcp/source/ntp_time_util.cc`. A unit is an `int64_t` number of
microseconds whose two extreme values are read as the infinities; the model keeps them apart.
-/

namespace Units

inductive UnitBase where
  | minusInfinity
  | finite (value : Int)
  | plusInfinity
deriving DecidableEq, Repr

abbrev TimeDelta := UnitBase

abbrev Timestamp := UnitBase

namespace UnitBase

def zero : UnitBase := finite 0

def millis (value : Int) : UnitBase := finite (value * 1000)

def seconds (value : Int) : UnitBase := finite (value * 1000000)

def isFinite : UnitBase → Bool
  | finite _ => true
  | _ => false

def isInfinite (a : UnitBase) : Bool := !a.isFinite

def blt : UnitBase → UnitBase → Bool
  | _, minusInfinity => false
  | minusInfinity, _ => true
  | plusInfinity, _ => false
  | finite _, plusInfinity => true
  | finite a, finite b => decide (a < b)

instance : LT UnitBase := ⟨fun a b => blt a b = true⟩

instance : DecidableRel (fun a b : UnitBase => a < b) :=
  fun a b => inferInstanceAs (Decidable (blt a b = true))

instance : LE UnitBase := ⟨fun a b => blt b a = false⟩

instance : DecidableRel (fun a b : UnitBase => a ≤ b) :=
  fun a b => inferInstanceAs (Decidable (blt b a = false))

/-- `std::max`: the first argument wins a tie. -/
def max (a b : UnitBase) : UnitBase := if a < b then b else a

/-- Adding opposite infinities is a failed check, and gives plus infinity in a release build. -/
def add : UnitBase → UnitBase → UnitBase
  | plusInfinity, _ => plusInfinity
  | _, plusInfinity => plusInfinity
  | minusInfinity, _ => minusInfinity
  | _, minusInfinity => minusInfinity
  | finite a, finite b => finite (a + b)

/-- `operator-`, with the same convention for the infinities. -/
def sub : UnitBase → UnitBase → UnitBase
  | plusInfinity, _ => plusInfinity
  | _, minusInfinity => plusInfinity
  | minusInfinity, _ => minusInfinity
  | _, plusInfinity => minusInfinity
  | finite a, finite b => finite (a - b)

instance : Add UnitBase := ⟨add⟩

instance : Sub UnitBase := ⟨sub⟩

/-- `RoundDownTo`: the division of the source truncates towards zero. -/
def roundDownTo (a : UnitBase) (resolution : Int) : UnitBase :=
  match a with
  | finite v => finite (v.tdiv resolution * resolution)
  | other => other

theorem isFinite_iff (a : UnitBase) : a.isFinite = true ↔ ∃ v, a = finite v := by
  cases a <;> simp [isFinite]

@[simp] theorem finite_lt_finite (a b : Int) : finite a < finite b ↔ a < b := by
  exact decide_eq_true_iff

@[simp] theorem finite_le_finite (a b : Int) : finite a ≤ finite b ↔ a ≤ b := by
  change decide (b < a) = false ↔ a ≤ b
  rw [decide_eq_false_iff_not, not_lt]

@[simp] theorem finite_sub_finite (a b : Int) : finite a - finite b = finite (a - b) := rfl

end UnitBase

/-- `DivideRoundToNearest`: halves are rounded up. -/
def divideRoundToNearest (dividend divisor : Int) : Int :=
  if dividend < 0 then
    if -(dividend.tmod divisor) > divisor.tdiv 2 then dividend.tdiv divisor - 1
    else dividend.tdiv divisor
  else
    if dividend.tmod divisor > (divisor - 1).tdiv 2 then dividend.tdiv divisor + 1
    else dividend.tdiv divisor

/-- `CompactNtpIntervalToTimeDelta`: intervals past `0x80000000` are negative. -/
def compactNtpIntervalToTimeDelta (compactNtpInterval : BitVec 32) : TimeDelta :=
  let value : Int :=
    if compactNtpInterval.toNat > 0x80000000 then compactNtpInterval.toNat - 2 ^ 32
    else compactNtpInterval.toNat
  .finite (divideRoundToNearest (value * 1000000) (2 ^ 16))

end Units
