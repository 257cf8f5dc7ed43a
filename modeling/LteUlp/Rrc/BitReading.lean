import LteUlp.Basic.Bits
import LteUlp.Rrc.Asn1

set_option autoImplicit false

/-! # Reading bits

`Spells bits p l` says that the bits `l` stand in the buffer from the position `p` on. An
element of a message that is spelled out is read back by `bits2Value`, and leaves what
follows it. What is read depends on the bits that are read only (`bits2Value_congr`). The
longest of the messages is cut into its parts here, which read one after the other.
-/

namespace LteUlp.Rrc

open BitString LteUlp.Nas

/-- The bits `l` stand in the buffer from the position `p` on. -/
def Spells (bits : Nat → UInt8) (p : Nat) (l : List Bool) : Prop :=
  ∀ (i : Nat) (h : i < l.length), bits (p + i) = l[i].toUInt8

section Reading

variable {bits bits' : Nat → UInt8} {p n : Nat} {l l' : List Bool}

theorem Spells.left (h : Spells bits p (l ++ l')) : Spells bits p l := by
  intro i hi
  rw [h i (by rw [List.length_append]; omega), List.getElem_append_left hi]

theorem Spells.right (h : Spells bits p (l ++ l')) : Spells bits (p + l.length) l' := by
  intro i hi
  have hlt : l.length + i < (l ++ l').length := by
    rw [List.length_append]
    omega
  rw [add_assoc, h (l.length + i) hlt, List.getElem_append_right (Nat.le_add_right _ i)]
  simp

theorem bits2Value_congr (h : ∀ i < n, bits (p + i) = bits' (p + i)) :
    bits2Value bits p n = bits2Value bits' p n := by
  unfold bits2Value
  apply List.foldl_ext
  intro value i hi
  rw [h i (List.mem_range.mp hi)]

/-- The first bits of a value, with the weight that they have in `n` bits. -/
theorem bits2Value_prefix (hn : n ≤ 32) (hl : l.length ≤ n) (h : Spells bits p l) :
    ((List.range l.length).foldl
      (fun value i => value ||| (bits (p + i)).toUInt32 <<< (n - i - 1).toUInt32) 0).toNat
      = 2 ^ (n - l.length) * ofBits l := by
  induction l using List.reverseRecOn with
  | nil => simp [ofBits]
  | append_singleton l b ih =>
      have hlen : (l ++ [b]).length = l.length + 1 := by simp
      rw [hlen] at hl
      have hb : bits (p + l.length) = b.toUInt8 := by
        have hlast := h l.length (by rw [hlen]; omega)
        rw [hlast, List.getElem_append_right le_rfl]
        simp
      have hshift : (n - l.length - 1).toUInt32.toNat % 32 = n - l.length - 1 := by
        rw [Nat.toUInt32_eq, UInt32.toNat_ofNat']
        omega
      have hbit : b.toUInt8.toUInt32.toNat = b.toNat := by cases b <;> rfl
      have hpow : 2 ^ (n - l.length) = 2 * 2 ^ (n - l.length - 1) := by
        rw [← pow_succ', Nat.sub_add_cancel (by omega)]
      have hle : b.toNat ≤ 1 := Bool.toNat_le b
      have hlow : b.toNat * 2 ^ (n - l.length - 1) < 2 ^ (n - l.length) := by
        have hpos := Nat.two_pow_pos (n - l.length - 1)
        rw [hpow]
        nlinarith
      have htotal : 2 ^ (n - l.length) ≤ 2 ^ 32 := Nat.pow_le_pow_right (by decide) (by omega)
      rw [hlen, List.range_succ, List.foldl_append, List.foldl_cons, List.foldl_nil,
        UInt32.toNat_or, ih (by omega) h.left, UInt32.toNat_shiftLeft, hb, hbit, hshift,
        Nat.shiftLeft_eq, Nat.mod_eq_of_lt (by omega), ← Nat.two_pow_add_eq_or_of_lt hlow,
        ofBits_append, hpow, ← Nat.sub_sub]
      ring

theorem bits2Value_spells (hl : l.length ≤ 32) (h : Spells bits p l) :
    bits2Value bits p l.length = UInt32.ofNat (ofBits l) := by
  have hlt : ofBits l < 2 ^ 32 :=
    (ofBits_lt l).trans_le (Nat.pow_le_pow_right (by decide) hl)
  apply UInt32.toNat_inj.mp
  rw [UInt32.toNat_ofNat', Nat.mod_eq_of_lt hlt]
  have hvalue := bits2Value_prefix hl le_rfl h
  rw [Nat.sub_self, pow_zero, one_mul] at hvalue
  exact hvalue

/-- **An element is read back**, and leaves what follows it. -/
theorem Spells.element {v : Nat} {rest : List Bool} (h : Spells bits p (natBits n v ++ rest))
    (hn : n ≤ 32) (hv : v < 2 ^ n) :
    bits2Value bits p n = UInt32.ofNat v ∧ Spells bits (p + n) rest := by
  have hright := h.right
  rw [length_natBits] at hright
  refine ⟨?_, hright⟩
  have hread := bits2Value_spells (by rwa [length_natBits]) h.left
  rwa [length_natBits, ofBits_natBits hv] at hread

theorem Spells.zero {rest : List Bool} (h : Spells bits p (natBits 1 0 ++ rest)) :
    bits2Value bits p 1 = 0 ∧ Spells bits (p + 1) rest :=
  h.element (by decide) (by decide)

theorem Spells.one {rest : List Bool} (h : Spells bits p (natBits 1 1 ++ rest)) :
    bits2Value bits p 1 = 1 ∧ Spells bits (p + 1) rest :=
  h.element (by decide) (by decide)

/-- What is spelled out in the bytes of a message stands in its bits. -/
theorem spells_convertBytesToBitsVector (bits : Nat → UInt8) (l : List Bool) :
    Spells (convertBytesToBitsVector bits (fun k => (packBytes l).getD k 0)
      ((packBytes l).length * 8)) 0 l := by
  intro i hi
  have hlt : i < (packBytes l).length * 8 := by
    rw [length_packBytes]
    omega
  rw [zero_add, convertBytesToBitsVector, if_pos hlt]
  exact bitAt_packBytes l hi

end Reading

/-! ## The parts of an RRC connection setup complete -/

/-- What an RRC connection setup complete begins with. -/
def unpackSetupHead (bits : Nat → UInt8) (p : Nat) (msg : RrcConnectionSetupComplete) :
    RrcConnectionSetupComplete :=
  { msg with
    rrcTransactionId := (bits2Value bits p 2).toUInt8
    registeredMmePresent := decide (bits2Value bits (p + 5) 1 ≠ 0)
    selectedPlmnId := (bits2Value bits (p + 7) 3).toUInt8 + 1 }

/-- The registered MME of an RRC connection setup complete: the structure, the pointer and the
bits left behind it. -/
def unpackMme (bits : Nat → UInt8) (p : Nat) (nBits : Int) (msg : RrcConnectionSetupComplete) :
    RrcConnectionSetupComplete × Nat × Int :=
  let msg := { msg with plmnIdPresent := decide (bits2Value bits p 1 ≠ 0) }
  let plmn : RrcConnectionSetupComplete × Nat × Int :=
    if msg.plmnIdPresent then
      match rrcUnpackPlmnIdentityIe bits (p + 1) (nBits - 1) with
      | (plmn, p, nBits) => ({ msg with plmnId := plmn }, p, nBits)
    else (msg, p + 1, nBits - 1)
  ({ plmn.1 with
      mmegi := (bits2Value bits plmn.2.1 16).toUInt16
      mmec := (bits2Value bits (plmn.2.1 + 16) 8).toUInt8 }, plmn.2.1 + 24, plmn.2.2 - 16 - 8)

/-- The parts in a row. -/
theorem rrcUnpackRrcConnectionSetupCompleteMsg_eq (bits : Nat → UInt8) (p : Nat) (nBits : Int)
    (msg : RrcConnectionSetupComplete) :
    rrcUnpackRrcConnectionSetupCompleteMsg bits p nBits msg =
      let head := unpackSetupHead bits p msg
      let left := nBits - 2 - 1 - 2 - 2 - 3
      let mme := if head.registeredMmePresent then unpackMme bits (p + 10) left head
        else (head, p + 10, left)
      let nas := rrcUnpackDedicatedInfoNasIe bits mme.2.1 mme.1.dedicatedInfoNas mme.2.2
      (decide (nas.2 ≥ 0), { mme.1 with dedicatedInfoNas := nas.1 }) := rfl

end LteUlp.Rrc
