import Mathlib.Data.Nat.Bitwise
import Mathlib.Data.List.Basic
import Mathlib.Tactic.Ring

/-!
# Numbers as lists of bits

A number of `n` bits is the list of its bits, the highest first. A stream of bytes is the list of
the bits of its bytes. Cutting such lists corresponds to shifts and remainders of the numbers.
-/

namespace BitLists

open List

variable (bytes : List (BitVec 8)) {n k : Nat}

/-- The low `n` bits of a number, the highest first. -/
def bits : Nat → Nat → List Bool
  | 0, _ => []
  | n + 1, v => v.testBit n :: bits n v

/-- The number with these bits. -/
def value : List Bool → Nat
  | [] => 0
  | b :: rest => b.toNat * 2 ^ rest.length + value rest

@[simp] theorem length_bits (n v : Nat) : (bits n v).length = n := by
  induction n with
  | zero => rfl
  | succ n ih => rw [bits, length_cons, ih]

theorem value_bits (n v : Nat) : value (bits n v) = v % 2 ^ n := by
  induction n with
  | zero => rw [bits, value, pow_zero, Nat.mod_one]
  | succ n ih =>
    rw [bits, value, ih, Nat.testBit_eq_decide_div_mod_eq, Nat.mod_pow_succ, Nat.add_comm]
    rcases Nat.mod_two_eq_zero_or_one (v / 2 ^ n) with h | h <;> simp [h]

variable {v w : Nat} {front : List Bool}

theorem value_bits_of_lt (h : v < 2 ^ n) : value (bits n v) = v := by
  rw [value_bits, Nat.mod_eq_of_lt h]

theorem value_lt (l : List Bool) : value l < 2 ^ l.length := by
  induction l with
  | nil => exact Nat.one_pos
  | cons b rest ih =>
    have hb : b.toNat ≤ 1 := Bool.toNat_le b
    have hle : b.toNat * 2 ^ rest.length ≤ 1 * 2 ^ rest.length := Nat.mul_le_mul_right _ hb
    rw [value, length_cons]
    omega

theorem value_append (l m : List Bool) : value (l ++ m) = value l * 2 ^ m.length + value m := by
  induction l with
  | nil => rw [nil_append, value, Nat.zero_mul, Nat.zero_add]
  | cons b rest ih =>
    rw [cons_append, value, value, ih, length_append]
    ring

theorem bits_add (m n v : Nat) : bits (m + n) v = bits m (v >>> n) ++ bits n v := by
  induction m with
  | zero => rw [Nat.zero_add, bits, nil_append]
  | succ m ih =>
    rw [Nat.succ_add, bits, ih, bits, cons_append, Nat.testBit_shiftRight, Nat.add_comm n m]

theorem take_bits (v : Nat) (h : k ≤ n) : (bits n v).take k = bits k (v >>> (n - k)) := by
  obtain ⟨m, rfl⟩ := Nat.exists_eq_add_of_le h
  rw [bits_add, take_left' (length_bits k _), Nat.add_sub_cancel_left]

theorem drop_bits (v : Nat) (h : k ≤ n) : (bits n v).drop k = bits (n - k) v := by
  obtain ⟨m, rfl⟩ := Nat.exists_eq_add_of_le h
  rw [bits_add, drop_left' (length_bits k _), Nat.add_sub_cancel_left]

theorem bits_congr (h : ∀ i < n, v.testBit i = w.testBit i) : bits n v = bits n w := by
  induction n with
  | zero => rfl
  | succ n ih =>
    rw [bits, bits, h n (Nat.lt_succ_self n), ih fun i hi => h i (Nat.lt_succ_of_lt hi)]

theorem getElem_bits {i : Nat} (h : i < (bits n v).length) :
    (bits n v)[i] = v.testBit (n - 1 - i) := by
  induction n generalizing i with
  | zero => exact absurd h (Nat.not_lt_zero i)
  | succ n ih =>
    cases i with
    | zero => rfl
    | succ i =>
      have hi := Nat.lt_of_succ_lt_succ h
      have hindex : n + 1 - 1 - (i + 1) = n - 1 - i := by omega
      change (bits n v)[i] = _
      rw [ih hi, hindex]

theorem bits_value (l : List Bool) : bits l.length (value l) = l := by
  induction l with
  | nil => rfl
  | cons b rest ih =>
    have hlt := value_lt rest
    have hlow : bits rest.length (b.toNat * 2 ^ rest.length + value rest) = rest := by
      conv_rhs => rw [← ih]
      apply bits_congr
      intro i hi
      rw [Nat.mul_comm, Nat.testBit_two_pow_mul_add _ hlt, if_pos hi]
    have hhigh : (b.toNat * 2 ^ rest.length + value rest).testBit rest.length = b := by
      rw [Nat.mul_comm, Nat.testBit_two_pow_mul_add _ hlt, if_neg (Nat.lt_irrefl _), Nat.sub_self]
      cases b <;> rfl
    rw [length_cons, bits, value, hlow, hhigh]

theorem value_middle (first middle last : List Bool) :
    (value (first ++ (middle ++ last)) >>> last.length) % 2 ^ middle.length = value middle := by
  have hlast : (value middle * 2 ^ last.length + value last) / 2 ^ last.length = value middle := by
    rw [Nat.mul_comm, Nat.mul_add_div (Nat.two_pow_pos _), Nat.div_eq_of_lt (value_lt last),
      Nat.add_zero]
  rw [Nat.shiftRight_eq_div_pow, value_append, value_append, length_append, pow_add,
    ← Nat.mul_assoc, Nat.add_comm, Nat.add_mul_div_right _ _ (Nat.two_pow_pos _), hlast,
    Nat.add_mul_mod_self_right, Nat.mod_eq_of_lt (value_lt middle)]

theorem toNat_lowMask (h : k < w) : ((1#w <<< k) - 1#w).toNat = 2 ^ k - 1 := by
  have hpow : 2 ^ k < 2 ^ w := Nat.pow_lt_pow_right (by decide) h
  have hone : 1 ≤ 2 ^ k := Nat.one_le_two_pow
  have honeNat : (1#w).toNat = 1 := by
    rw [BitVec.toNat_ofNat, Nat.mod_eq_of_lt (by omega)]
  have hshift : (1#w <<< k).toNat = 2 ^ k := by
    rw [BitVec.toNat_shiftLeft, honeNat, Nat.one_shiftLeft, Nat.mod_eq_of_lt hpow]
  have hle : 1#w ≤ 1#w <<< k := by
    rw [BitVec.le_def, hshift, honeNat]
    exact hone
  rw [BitVec.toNat_sub_of_le hle, hshift, honeNat]

theorem toNat_and_lowMask (x : BitVec w) (h : k < w) :
    (x &&& ((1#w <<< k) - 1#w)).toNat = x.toNat % 2 ^ k := by
  rw [BitVec.toNat_and, toNat_lowMask h, Nat.and_two_pow_sub_one_eq_mod]

theorem bits_shiftLeft (v : BitVec n) (h : k ≤ n) :
    ∃ zeros : List Bool, bits n (v <<< k).toNat = (bits n v.toNat).drop k ++ zeros := by
  obtain ⟨m, rfl⟩ := Nat.exists_eq_add_of_le' h
  refine ⟨bits k (v <<< k).toNat, ?_⟩
  rw [bits_add, drop_bits _ h, Nat.add_sub_cancel]
  congr 1
  apply bits_congr
  intro i hi
  rw [Nat.testBit_shiftRight, BitVec.testBit_toNat, BitVec.testBit_toNat, BitVec.getLsbD_shiftLeft,
    Nat.add_sub_cancel_left]
  simp [show k + i < m + k by omega, show ¬ k + i < k by omega]

/-- The bits of a stream of bytes. -/
def ofBytes (bytes : List (BitVec 8)) : List Bool := bytes.flatMap fun b => bits 8 b.toNat

@[simp] theorem ofBytes_nil : ofBytes [] = [] := rfl

@[simp] theorem ofBytes_cons (b : BitVec 8) (bytes : List (BitVec 8)) :
    ofBytes (b :: bytes) = bits 8 b.toNat ++ ofBytes bytes := rfl

theorem ofBytes_append (first second : List (BitVec 8)) :
    ofBytes (first ++ second) = ofBytes first ++ ofBytes second := flatMap_append

@[simp] theorem length_ofBytes : (ofBytes bytes).length = 8 * bytes.length := by
  induction bytes with
  | nil => rfl
  | cons b bytes ih =>
    rw [ofBytes_cons, length_append, length_bits, length_cons]
    omega

theorem ofBytes_take (n : Nat) : ofBytes (bytes.take n) = (ofBytes bytes).take (8 * n) := by
  rcases Nat.le_total n bytes.length with h | h
  · conv_rhs => rw [← take_append_drop n bytes, ofBytes_append]
    rw [take_left']
    rw [length_ofBytes, length_take, Nat.min_eq_left h]
  · rw [take_of_length_le h, take_of_length_le]
    rw [length_ofBytes]
    omega

theorem ofBytes_drop (n : Nat) : ofBytes (bytes.drop n) = (ofBytes bytes).drop (8 * n) := by
  rcases Nat.le_total n bytes.length with h | h
  · conv_rhs => rw [← take_append_drop n bytes, ofBytes_append]
    rw [drop_left']
    rw [length_ofBytes, length_take, Nat.min_eq_left h]
  · rw [drop_of_length_le h, drop_of_length_le, ofBytes_nil]
    rw [length_ofBytes]
    omega

theorem exists_append_of_length_le {back rest more : List Bool} (h : front ++ rest = back ++ more)
    (hle : front.length ≤ back.length) : ∃ mid, back = front ++ mid ∧ rest = mid ++ more := by
  obtain ⟨mid, rfl⟩ := prefix_of_prefix_length_le ⟨rest, h⟩ (prefix_append back more) hle
  rw [append_assoc] at h
  exact ⟨mid, rfl, append_cancel_left h⟩

/-- A change of one byte, seen from the bits in front of it and its own first bits. -/
theorem append_prefix_ofBytes_modify {bytes : List (BitVec 8)} {i o m : Nat} {f : BitVec 8 → BitVec 8}
    {added : List Bool} (hfront : front <+: ofBytes bytes) (hlength : front.length = 8 * i + o)
    (hi : i < bytes.length) (ho : o ≤ 8)
    (hbyte : ∀ b, (bits 8 (f b).toNat).take m = (bits 8 b.toNat).take o ++ added) :
    front ++ added <+: ofBytes (bytes.modify i f) := by
  obtain ⟨before, b, after, rfl, rfl, hmodify⟩ := exists_of_modify f hi
  have hsplit : front = ofBytes before ++ (bits 8 b.toNat).take o := by
    rw [prefix_iff_eq_take.mp hfront, hlength, ofBytes_append, ofBytes_cons,
      take_append, length_ofBytes, Nat.add_sub_cancel_left,
      take_append_of_le_length (by rw [length_bits]; exact ho), take_of_length_le]
    rw [length_ofBytes]
    exact Nat.le_add_right _ _
  rw [hmodify, ofBytes_append, hsplit, append_assoc, ← hbyte b]
  apply (prefix_append_right_inj _).mpr
  exact (List.take_prefix _ _).trans (prefix_append _ _)

end BitLists
