import Mathlib.Tactic.Ring

/-!
# Big-endian byte codec

Fixed-width unsigned numbers as byte strings, most significant byte first, with
the laws a reader needs to undo a writer on a longer buffer.
-/

namespace ByteCodec

/-- The `n` low-order bytes of `v`, most significant first. -/
def bytesBE : Nat → Nat → List UInt8
  | 0, _ => []
  | n + 1, v => UInt8.ofNat (v / 256 ^ n) :: bytesBE n v

/-- The number a byte string denotes when it is appended to the digits `acc`. -/
def readFrom (acc : Nat) : List UInt8 → Nat
  | [] => acc
  | b :: rest => readFrom (acc * 256 + b.toNat) rest

def natBE (bytes : List UInt8) : Nat := readFrom 0 bytes

@[simp] theorem length_bytesBE (n v : Nat) : (bytesBE n v).length = n := by
  induction n with
  | zero => rfl
  | succ n ih => rw [bytesBE, List.length_cons, ih]

theorem readFrom_bytesBE (n v acc : Nat) :
    readFrom acc (bytesBE n v) = acc * 256 ^ n + v % 256 ^ n := by
  induction n generalizing acc with
  | zero => simp [bytesBE, readFrom, Nat.mod_one]
  | succ n ih =>
    have hbyte : (UInt8.ofNat (v / 256 ^ n)).toNat = v / 256 ^ n % 256 := rfl
    have hsplit : v % 256 ^ (n + 1) = v % 256 ^ n + 256 ^ n * (v / 256 ^ n % 256) := by
      rw [pow_succ, Nat.mod_mul]
    rw [bytesBE, readFrom, ih, hbyte, hsplit]
    ring

theorem natBE_bytesBE (n v : Nat) : natBE (bytesBE n v) = v % 256 ^ n := by
  rw [natBE, readFrom_bytesBE, Nat.zero_mul, Nat.zero_add]

theorem natBE_bytesBE_of_lt {n v : Nat} (fits : v < 256 ^ n) : natBE (bytesBE n v) = v := by
  rw [natBE_bytesBE, Nat.mod_eq_of_lt fits]

theorem natBE_take_append {n v : Nat} (fits : v < 256 ^ n) (rest : List UInt8) :
    natBE ((bytesBE n v ++ rest).take n) = v := by
  have htake : (bytesBE n v ++ rest).take n = bytesBE n v := by
    rw [List.take_append_of_le_length (by rw [length_bytesBE])]
    exact List.take_of_length_le (by rw [length_bytesBE])
  rw [htake, natBE_bytesBE_of_lt fits]

@[simp] theorem drop_bytesBE_append (n v : Nat) (rest : List UInt8) :
    (bytesBE n v ++ rest).drop n = rest := by
  rw [List.drop_append_of_le_length (by rw [length_bytesBE])]
  rw [List.drop_of_length_le (by rw [length_bytesBE]), List.nil_append]

end ByteCodec
