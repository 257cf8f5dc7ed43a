import Mathlib.Data.Nat.Bitwise
import Mathlib.Tactic

set_option autoImplicit false

/-! # Bit strings

Numbers are written to bit strings most significant bit first (`natBits`), and bit strings
are packed into bytes, the last one filled up with zeros (`packBytes`). `ofBits` is the number
that a bit string spells, and `bitAt` the bit that is found in the packed bytes.
-/

namespace BitString

/-- The `n` lowest bits of `v`, the most significant one first. -/
def natBits : Nat → Nat → List Bool
  | 0, _ => []
  | n + 1, v => v.testBit n :: natBits n v

/-- The number that the bits spell. -/
def ofBits : List Bool → Nat
  | [] => 0
  | b :: l => 2 ^ l.length * b.toNat + ofBits l

/-- The byte `k` of the packed bits. -/
def byteAt (l : List Bool) (k : Nat) : UInt8 :=
  UInt8.ofNat (ofBits ((List.range 8).map fun j => l.getD (8 * k + j) false))

/-- The bits in bytes. -/
def packBytes (l : List Bool) : List UInt8 :=
  (List.range ((l.length + 7) / 8)).map (byteAt l)

/-- The bit `i` of the bytes, as a byte. -/
def bitAt (data : Nat → UInt8) (i : Nat) : UInt8 :=
  (data (i / 8) >>> (7 - i % 8).toUInt8) &&& 1

@[simp] theorem length_natBits (n v : Nat) : (natBits n v).length = n := by
  induction n with
  | zero => rfl
  | succ n ih => rw [natBits, List.length_cons, ih]

@[simp] theorem length_packBytes (l : List Bool) :
    (packBytes l).length = (l.length + 7) / 8 := by
  simp [packBytes]

theorem ofBits_lt (l : List Bool) : ofBits l < 2 ^ l.length := by
  induction l with
  | nil => exact Nat.one_pos
  | cons b l ih =>
      have hb : b.toNat ≤ 1 := Bool.toNat_le b
      calc ofBits (b :: l) = 2 ^ l.length * b.toNat + ofBits l := rfl
        _ < 2 ^ l.length * b.toNat + 2 ^ l.length := Nat.add_lt_add_left ih _
        _ = 2 ^ l.length * (b.toNat + 1) := by ring
        _ ≤ 2 ^ l.length * 2 := Nat.mul_le_mul_left _ (by omega)
        _ = 2 ^ (b :: l).length := by rw [List.length_cons, pow_succ]

/-- One bit more at the end. -/
theorem ofBits_append (l : List Bool) (b : Bool) :
    ofBits (l ++ [b]) = 2 * ofBits l + b.toNat := by
  induction l with
  | nil => simp [ofBits]
  | cons c l ih =>
      have hlen : (l ++ [b]).length = l.length + 1 := by simp
      rw [List.cons_append, ofBits, ofBits, ih, hlen, pow_succ]
      ring

/-- **The bits of a number spell it.** -/
theorem ofBits_natBits {n v : Nat} (h : v < 2 ^ n) : ofBits (natBits n v) = v := by
  have hmod : ∀ n, ofBits (natBits n v) = v % 2 ^ n := by
    intro n
    induction n with
    | zero => simp [natBits, ofBits, Nat.mod_one]
    | succ n ih =>
        have hbit : (v.testBit n).toNat = v / 2 ^ n % 2 := Nat.toNat_testBit v n
        rw [natBits, ofBits, length_natBits, ih, hbit, pow_succ, Nat.mod_mul, add_comm]
  rw [hmod n, Nat.mod_eq_of_lt h]

theorem testBit_ofBits (l : List Bool) {i : Nat} (h : i < l.length) :
    (ofBits l).testBit (l.length - 1 - i) = l[i] := by
  induction l generalizing i with
  | nil => simp at h
  | cons b l ih =>
      rw [ofBits, Nat.testBit_two_pow_mul_add b.toNat (ofBits_lt l)]
      cases i with
      | zero => cases b <;> simp
      | succ i =>
          have hi : i < l.length := by simpa using h
          have hpos : (b :: l).length - 1 - (i + 1) = l.length - 1 - i := by
            rw [List.length_cons]
            omega
          rw [hpos, if_pos (by omega), ih hi, List.getElem_cons_succ]

/-- A bit of a byte. -/
theorem bit_toNat (b : UInt8) {j : Nat} (hj : j < 8) :
    ((b >>> j.toUInt8) &&& 1).toNat = (b.toNat.testBit j).toNat := by
  have hshift : j.toUInt8.toNat % 8 = j := by
    rw [Nat.toUInt8_eq, UInt8.toNat_ofNat']
    omega
  rw [UInt8.toNat_and, UInt8.toNat_shiftRight, hshift, Nat.toNat_testBit,
    Nat.shiftRight_eq_div_pow]
  exact Nat.and_one_is_mod _

/-- **The bits are found in the packed bytes.** -/
theorem bitAt_packBytes (l : List Bool) {i : Nat} (h : i < l.length) :
    bitAt (fun k => (packBytes l).getD k 0) i = l[i].toUInt8 := by
  have hk : i / 8 < (l.length + 7) / 8 := by omega
  have hbyte : (packBytes l).getD (i / 8) 0 = byteAt l (i / 8) := by
    simp [packBytes, List.getD_eq_getElem?_getD, hk]
  have hbits := testBit_ofBits ((List.range 8).map fun j => l.getD (8 * (i / 8) + j) false)
    (i := i % 8) (by simpa using Nat.mod_lt i (by decide))
  have hlt := ofBits_lt ((List.range 8).map fun j => l.getD (8 * (i / 8) + j) false)
  simp only [List.length_map, List.length_range, List.getElem_map, List.getElem_range,
    Nat.div_add_mod] at hbits hlt
  unfold bitAt
  simp only [hbyte]
  apply UInt8.toNat_inj.mp
  rw [bit_toNat _ (by omega), byteAt, UInt8.toNat_ofNat', Nat.mod_eq_of_lt hlt, hbits,
    List.getD_eq_getElem l false h]
  cases l[i] <;> rfl

end BitString
