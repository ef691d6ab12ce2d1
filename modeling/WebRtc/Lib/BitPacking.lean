import Mathlib.Data.Nat.Bitwise

/-!
# Packing small symbols into one word

Symbols of `b` bits are packed from the high end of a word of `slots` such fields.
The word may carry a tag above the fields; unpacking is insensitive to it.
-/

namespace BitPacking

/-- The symbols in the fields of a word, the first one in the highest field. -/
def pack (b : Nat) : Nat → List Nat → Nat
  | slots + 1, symbol :: rest => symbol <<< (b * slots) ||| pack b slots rest
  | _, _ => 0

/-- The first `n` fields of a word of `slots` fields. -/
def unpack (b : Nat) (word : Nat) : Nat → Nat → List Nat
  | slots + 1, n + 1 => (word >>> (b * slots) &&& (2 ^ b - 1)) :: unpack b word slots n
  | _, _ => []

variable {low k : Nat} {symbols : List Nat}

theorem tag_or_and_mask (tag : Nat) (h : low < 2 ^ k) :
    (tag <<< k ||| low) &&& (2 ^ k - 1) = low := by
  rw [← Nat.shiftLeft_add_eq_or_of_lt h, Nat.and_two_pow_sub_one_eq_mod, Nat.shiftLeft_eq,
    Nat.add_comm, Nat.add_mul_mod_self_right, Nat.mod_eq_of_lt h]

theorem tag_or_shiftRight (tag : Nat) (h : low < 2 ^ k) : (tag <<< k ||| low) >>> k = tag := by
  rw [← Nat.shiftLeft_add_eq_or_of_lt h, Nat.shiftRight_eq_div_pow, Nat.shiftLeft_eq,
    Nat.mul_comm, Nat.mul_add_div (Nat.two_pow_pos k), Nat.div_eq_of_lt h, Nat.add_zero]

theorem tag_or_and_two_pow (tag : Nat) (h : low < 2 ^ k) (j : Nat) :
    (tag <<< k ||| low) &&& 2 ^ (k + j) = 0 ↔ tag.testBit j = false := by
  have hlow : low.testBit (k + j) = false :=
    Nat.testBit_lt_two_pow (Nat.lt_of_lt_of_le h (Nat.pow_le_pow_right (by decide) (by omega)))
  rw [Nat.and_two_pow, Nat.testBit_or, hlow, Bool.or_false, Nat.mul_eq_zero]
  simp

theorem pack_lt {b slots : Nat} (small : ∀ s ∈ symbols, s < 2 ^ b) :
    pack b slots symbols < 2 ^ (b * slots) := by
  induction slots generalizing symbols with
  | zero => simp [pack]
  | succ slots ih =>
    cases symbols with
    | nil => exact Nat.two_pow_pos _
    | cons symbol rest =>
      have hsymbol : symbol < 2 ^ b := small symbol List.mem_cons_self
      have hrest := ih (List.forall_mem_cons.mp small).2
      have hshift : symbol <<< (b * slots) < 2 ^ (b * (slots + 1)) := by
        rw [Nat.shiftLeft_eq, Nat.mul_succ, Nat.pow_add, Nat.mul_comm (2 ^ (b * slots))]
        exact Nat.mul_lt_mul_of_pos_right hsymbol (Nat.two_pow_pos _)
      have hle : 2 ^ (b * slots) ≤ 2 ^ (b * (slots + 1)) :=
        Nat.pow_le_pow_right (by decide) (Nat.mul_le_mul_left b (Nat.le_succ slots))
      exact Nat.or_lt_two_pow hshift (Nat.lt_of_lt_of_le hrest hle)

@[simp] theorem length_unpack (b word slots n : Nat) :
    (unpack b word slots n).length = min slots n := by
  induction slots generalizing n with
  | zero => simp [unpack]
  | succ slots ih =>
    cases n with
    | zero => simp [unpack]
    | succ n => rw [unpack, List.length_cons, ih, Nat.succ_min_succ]

/-- Unpacking as many fields as were packed gives the symbols back, under any tag. -/
theorem unpack_tag_or_pack (b : Nat) (tag : Nat) {slots : Nat}
    (small : ∀ s ∈ symbols, s < 2 ^ b) (fits : symbols.length ≤ slots) :
    unpack b (tag <<< (b * slots) ||| pack b slots symbols) slots symbols.length = symbols := by
  induction slots generalizing symbols tag with
  | zero =>
    rw [List.eq_nil_of_length_eq_zero (Nat.le_zero.mp fits)]
    rfl
  | succ slots ih =>
    cases symbols with
    | nil => rfl
    | cons symbol rest =>
      have hsymbol : symbol < 2 ^ b := small symbol List.mem_cons_self
      have hrest := (List.forall_mem_cons.mp small).2
      -- The first symbol joins the tag of the remaining fields.
      have hword : tag <<< (b * (slots + 1)) ||| pack b (slots + 1) (symbol :: rest) =
          (tag <<< b ||| symbol) <<< (b * slots) ||| pack b slots rest := by
        rw [pack, ← Nat.or_assoc, Nat.shiftLeft_or_distrib, ← Nat.shiftLeft_add, Nat.mul_succ,
          Nat.add_comm b]
      rw [hword, List.length_cons, unpack, tag_or_shiftRight _ (pack_lt hrest),
        tag_or_and_mask _ hsymbol, ih (tag <<< b ||| symbol) hrest (Nat.le_of_succ_le_succ fits)]

end BitPacking
