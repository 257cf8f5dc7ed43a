import Mathlib.Tactic

set_option autoImplicit false

/-! # Octets made of fields

An octet of a message is a row of fields, each of a width in bits, the most significant one
first. `octet` packs such a row, and `field_octet` finds a field of it again: it is shifted
by the width of the fields behind it and cut to its own.
-/

namespace ByteString

/-- The number of bits of a row of fields. -/
def width : List (Nat × UInt8) → Nat
  | [] => 0
  | f :: row => f.1 + width row

/-- The number that a row of fields makes. -/
def packed : List (Nat × UInt8) → Nat
  | [] => 0
  | f :: row => f.2.toNat * 2 ^ width row + packed row

/-- The octet that a row of fields makes. -/
def octet (row : List (Nat × UInt8)) : UInt8 := UInt8.ofNat (packed row)

/-- Each field fits into its width. -/
def Fits (row : List (Nat × UInt8)) : Prop := ∀ f ∈ row, f.2.toNat < 2 ^ f.1

instance (row : List (Nat × UInt8)) : Decidable (Fits row) :=
  inferInstanceAs (Decidable (∀ f ∈ row, f.2.toNat < 2 ^ f.1))

theorem fits_cons {w : Nat} {x : UInt8} {row : List (Nat × UInt8)} :
    Fits ((w, x) :: row) ↔ x.toNat < 2 ^ w ∧ Fits row := List.forall_mem_cons

theorem fits_nil : Fits [] := fun _ h => absurd h List.not_mem_nil

theorem Fits.left {l row : List (Nat × UInt8)} (h : Fits (l ++ row)) : Fits l :=
  fun f hf => h f (List.mem_append_left row hf)

theorem Fits.right {l row : List (Nat × UInt8)} (h : Fits (l ++ row)) : Fits row :=
  fun f hf => h f (List.mem_append_right l hf)

@[simp] theorem width_append (l row : List (Nat × UInt8)) :
    width (l ++ row) = width l + width row := by
  induction l with
  | nil => simp [width]
  | cons f l ih => rw [List.cons_append, width, width, ih, Nat.add_assoc]

/-- The row in front stands above the one behind it. -/
theorem packed_append (l row : List (Nat × UInt8)) :
    packed (l ++ row) = packed l * 2 ^ width row + packed row := by
  induction l with
  | nil => simp [packed]
  | cons f l ih =>
      rw [List.cons_append, packed, packed, ih, width_append, pow_add]
      ring

theorem packed_lt {row : List (Nat × UInt8)} (h : Fits row) : packed row < 2 ^ width row := by
  induction row with
  | nil => exact Nat.one_pos
  | cons f row ih =>
      have hf : f.2.toNat < 2 ^ f.1 := h f List.mem_cons_self
      have hrow : packed row < 2 ^ width row := ih fun g hg => h g (List.mem_cons_of_mem f hg)
      calc packed (f :: row) = f.2.toNat * 2 ^ width row + packed row := rfl
        _ < f.2.toNat * 2 ^ width row + 2 ^ width row := Nat.add_lt_add_left hrow _
        _ = (f.2.toNat + 1) * 2 ^ width row := by ring
        _ ≤ 2 ^ f.1 * 2 ^ width row := Nat.mul_le_mul_right _ hf
        _ = 2 ^ width (f :: row) := by rw [width, pow_add]

theorem toNat_octet {row : List (Nat × UInt8)} (h : Fits row) (hw : width row ≤ 8) :
    (octet row).toNat = packed row := by
  have hlt : packed row < 2 ^ 8 :=
    Nat.lt_of_lt_of_le (packed_lt h) (Nat.pow_le_pow_right (by decide) hw)
  rw [octet, UInt8.toNat_ofNat', Nat.mod_eq_of_lt hlt]

/-- **A field of an octet is found again.** -/
theorem field_octet (l : List (Nat × UInt8)) (w : Nat) (x : UInt8) (row : List (Nat × UInt8))
    (h : Fits (l ++ (w, x) :: row)) (hw : width (l ++ (w, x) :: row) ≤ 8) :
    (octet (l ++ (w, x) :: row)).toNat / 2 ^ width row % 2 ^ w = x.toNat := by
  obtain ⟨hx, hrow⟩ := fits_cons.mp h.right
  have hpos : 0 < 2 ^ width row := Nat.two_pow_pos _
  have hdiv : (packed l * 2 ^ w + x.toNat) * 2 ^ width row + packed row
      = packed row + 2 ^ width row * (packed l * 2 ^ w + x.toNat) := by ring
  have hpacked : packed (l ++ (w, x) :: row)
      = packed row + 2 ^ width row * (packed l * 2 ^ w + x.toNat) := by
    rw [← hdiv, packed_append, packed, width, pow_add]
    ring
  rw [toNat_octet h hw, hpacked, Nat.add_mul_div_left _ _ hpos,
    Nat.div_eq_of_lt (packed_lt hrow), Nat.zero_add, Nat.mul_add_mod',
    Nat.mod_eq_of_lt hx]

/-! ## Shifts and masks -/

theorem toNat_shift_mask (b : UInt8) {k w : Nat} (hk : k < 8) (hw : w ≤ 8) :
    ((b >>> UInt8.ofNat k) &&& UInt8.ofNat (2 ^ w - 1)).toNat = b.toNat / 2 ^ k % 2 ^ w := by
  have hshift : (UInt8.ofNat k).toNat % 8 = k := by
    rw [UInt8.toNat_ofNat']
    omega
  have hpow : 2 ^ w ≤ 2 ^ 8 := Nat.pow_le_pow_right (by decide) hw
  have hmask : (UInt8.ofNat (2 ^ w - 1)).toNat = 2 ^ w - 1 := by
    rw [UInt8.toNat_ofNat']
    exact Nat.mod_eq_of_lt (by have := Nat.two_pow_pos w; omega)
  rw [UInt8.toNat_and, UInt8.toNat_shiftRight, hshift, hmask, Nat.and_two_pow_sub_one_eq_mod,
    Nat.shiftRight_eq_div_pow]

section Field

variable (l : List (Nat × UInt8)) (w : Nat) (x : UInt8) (row : List (Nat × UInt8))

/-- A field, by a shift and a mask. -/
theorem shift_mask_octet (h : Fits (l ++ (w, x) :: row)) (hw : width (l ++ (w, x) :: row) = 8)
    (hpos : 0 < w) :
    (octet (l ++ (w, x) :: row) >>> UInt8.ofNat (width row)) &&& UInt8.ofNat (2 ^ w - 1) = x := by
  have hsum : width l + (w + width row) = 8 := by
    rw [← hw, width_append, width]
  apply UInt8.toNat_inj.mp
  rw [toNat_shift_mask _ (by omega) (by omega), field_octet l w x row h (by omega)]

/-- The last field needs no shift. -/
theorem mask_octet (h : Fits (l ++ [(w, x)])) (hw : width (l ++ [(w, x)]) = 8) (hpos : 0 < w) :
    octet (l ++ [(w, x)]) &&& UInt8.ofNat (2 ^ w - 1) = x := by
  have hzero : octet (l ++ [(w, x)]) >>> UInt8.ofNat (width []) = octet (l ++ [(w, x)]) := by
    apply UInt8.toNat_inj.mp
    simp [width]
  have := shift_mask_octet l w x [] h hw hpos
  rwa [hzero] at this

/-- The first field needs no mask. -/
theorem shift_octet (h : Fits ((w, x) :: row)) (hw : width ((w, x) :: row) = 8) (hpos : 0 < w) :
    octet ((w, x) :: row) >>> UInt8.ofNat (width row) = x := by
  have hsum : w + width row = 8 := hw
  have hx : x.toNat < 2 ^ w := (fits_cons.mp h).1
  have hfield : (octet ((w, x) :: row)).toNat / 2 ^ width row % 2 ^ w = x.toNat :=
    field_octet [] w x row h hw.le
  have hshift : (UInt8.ofNat (width row)).toNat % 8 = width row := by
    rw [UInt8.toNat_ofNat']
    omega
  have hlt : (octet ((w, x) :: row)).toNat / 2 ^ width row < 2 ^ w := by
    rw [Nat.div_lt_iff_lt_mul (Nat.two_pow_pos _), ← pow_add, hsum]
    exact UInt8.toNat_lt _
  apply UInt8.toNat_inj.mp
  rw [UInt8.toNat_shiftRight, hshift, Nat.shiftRight_eq_div_pow, ← hfield, Nat.mod_eq_of_lt hlt]

end Field

end ByteString
