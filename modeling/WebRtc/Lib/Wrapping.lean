import Mathlib.Data.BitVec
import Mathlib.Tactic.Linarith
import Mathlib.Tactic.Ring

/-!
# Integers and their fixed-width residues

A counter that is never reduced is an integer; what a wire carries of it is its residue in `w` bits.
The lemmas below say when the residue determines the integer again, and how differences of residues
relate to differences of the integers behind them.
-/

namespace Wrapping

variable {w : Nat}

/-- The residue of an integer in `w` bits. -/
def wrap (w : Nat) (v : Int) : BitVec w := BitVec.ofInt w v

theorem toNat_wrap (v : Int) : ((wrap w v).toNat : Int) = v % (2 : Int) ^ w := by
  have hpos : (0 : Int) < 2 ^ w := by positivity
  rw [wrap, BitVec.toNat_ofInt, Int.toNat_of_nonneg]
  · rfl
  · exact Int.emod_nonneg _ hpos.ne'

theorem wrap_eq_iff (a b : Int) : wrap w a = wrap w b ↔ (2 : Int) ^ w ∣ a - b := by
  have key : wrap w a = wrap w b ↔ a % (2 : Int) ^ w = b % (2 : Int) ^ w := by
    rw [← toNat_wrap, ← toNat_wrap, Int.ofNat_inj, BitVec.toNat_inj]
  rw [key, Int.emod_eq_emod_iff_emod_sub_eq_zero]
  exact ⟨Int.dvd_of_emod_eq_zero, Int.emod_eq_zero_of_dvd⟩

/-- Less than one turn apart, the residue determines the integer. -/
theorem eq_of_wrap_eq {a b : Int} (same : wrap w a = wrap w b)
    (below : a < b + 2 ^ w) (above : b < a + 2 ^ w) : a = b := by
  obtain ⟨k, hturns⟩ := (wrap_eq_iff a b).mp same
  have hk : a = b + 2 ^ w * k := by omega
  have hlt : k < 1 := by
    by_contra h
    have : (2 : Int) ^ w * 1 ≤ 2 ^ w * k := by
      apply mul_le_mul_of_nonneg_left <;> omega
    omega
  have hgt : -1 < k := by
    by_contra h
    have : (2 : Int) ^ w * k ≤ 2 ^ w * (-1) := by
      apply mul_le_mul_of_nonneg_left <;> omega
    omega
  have hzero : k = 0 := by omega
  simpa [hzero] using hk

theorem turn_le_of_wrap_eq_of_lt {a b : Int} (same : wrap w a = wrap w b)
    (later : b < a) : b + 2 ^ w ≤ a := by
  by_contra h
  have := eq_of_wrap_eq same (by omega) (by omega)
  omega

theorem wrap_toNat (x : BitVec w) : wrap w (x.toNat : Int) = x := by
  apply BitVec.eq_of_toNat_eq
  have h := toNat_wrap (w := w) (x.toNat : Int)
  have hlt : (x.toNat : Int) < (2 : Int) ^ w := by exact_mod_cast x.isLt
  rw [Int.emod_eq_of_lt (by omega) hlt] at h
  exact_mod_cast h

theorem wrap_add (a b : Int) : wrap w (a + b) = wrap w a + wrap w b :=
  BitVec.ofInt_add _ _

end Wrapping
