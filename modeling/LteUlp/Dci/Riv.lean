import Mathlib.Tactic

set_option autoImplicit false

/-! # Resource indication values

A contiguous allocation of resource blocks is told by one number, the RIV
(`calcRivByRb`). `calcRbByRiv` finds the allocation again, unless it is short and ends with
the last block of the bandwidth: the test for the second formula takes this for an allocation
that is too long (`calcRbByRiv_inverts_iff`).
-/

namespace LteUlp.Dci

/-- The first block and the number of blocks. -/
def calcRbByRiv (bw : UInt8) (riv : UInt32) : UInt8 × UInt8 :=
  let rbStart := (riv % bw.toUInt32).toUInt8
  let numOfRb := (riv / bw.toUInt32 + 1).toUInt8
  let tmp := bw.toUInt32 * bw.toUInt32 + bw.toUInt32 - 1
  if rbStart.toNat + numOfRb.toNat ≥ bw.toNat then
    (((tmp - riv) % bw.toUInt32).toUInt8, ((tmp - riv) / bw.toUInt32 + 1).toUInt8)
  else (rbStart, numOfRb)

/-- The test is one of signed numbers. -/
def calcRivByRb (bw rbStart numOfRb : UInt8) : UInt32 :=
  if (numOfRb.toNat : Int) - 1 ≤ (bw >>> 1).toNat then
    (numOfRb.toUInt32 - 1) * bw.toUInt32 + rbStart.toUInt32
  else (bw.toUInt32 - numOfRb.toUInt32 + 1) * bw.toUInt32
    + (bw.toUInt32 - 1 - rbStart.toUInt32)

/-- An allocation within the bandwidth. -/
structure InBand (bw rbStart numOfRb : UInt8) : Prop where
  some_block : 1 ≤ numOfRb.toNat
  within : rbStart.toNat + numOfRb.toNat ≤ bw.toNat

section Riv

variable {bw rbStart numOfRb : UInt8} {riv : UInt32} {q r : Nat}

/-! ## Rows

A RIV is the place of an allocation in a table with a row for each length. -/

/-- A place in the table is a 32-bit number. -/
theorem place_lt (hq : q ≤ bw.toNat) (hr : r < bw.toNat) : q * bw.toNat + r < 2 ^ 32 := by
  have hbw : bw.toNat < 256 := bw.toNat_lt
  calc q * bw.toNat + r ≤ 255 * 255 + 255 :=
        Nat.add_le_add (Nat.mul_le_mul (by omega) (by omega)) (by omega)
    _ < 2 ^ 32 := by decide

/-- The row of an allocation, and the place in the row. The long allocations stand, turned
around, in the rows of the short ones. -/
def rowOf (bw rbStart numOfRb : UInt8) : Nat × Nat :=
  if numOfRb.toNat ≤ bw.toNat / 2 + 1 then (numOfRb.toNat - 1, rbStart.toNat)
  else (bw.toNat - numOfRb.toNat + 1, bw.toNat - 1 - rbStart.toNat)

theorem rowOf_short (h : numOfRb.toNat ≤ bw.toNat / 2 + 1) :
    rowOf bw rbStart numOfRb = (numOfRb.toNat - 1, rbStart.toNat) := if_pos h

theorem rowOf_long (h : ¬numOfRb.toNat ≤ bw.toNat / 2 + 1) :
    rowOf bw rbStart numOfRb
      = (bw.toNat - numOfRb.toNat + 1, bw.toNat - 1 - rbStart.toNat) := if_neg h

theorem rowOf_lt (h : InBand bw rbStart numOfRb) :
    (rowOf bw rbStart numOfRb).1 ≤ bw.toNat ∧ (rowOf bw rbStart numOfRb).2 < bw.toNat := by
  obtain ⟨hpos, hin⟩ := h
  unfold rowOf
  split <;> constructor <;> simp only <;> omega

theorem calcRivByRb_eq (h : InBand bw rbStart numOfRb) :
    calcRivByRb bw rbStart numOfRb
      = UInt32.ofNat ((rowOf bw rbStart numOfRb).1 * bw.toNat
        + (rowOf bw rbStart numOfRb).2) := by
  obtain ⟨hpos, hin⟩ := h
  have hhalf : (bw >>> 1).toNat = bw.toNat / 2 := by
    rw [UInt8.toNat_shiftRight, Nat.shiftRight_eq_div_pow]
    rfl
  have htest : (numOfRb.toNat : Int) - 1 ≤ (bw >>> 1).toNat
      ↔ numOfRb.toNat ≤ bw.toNat / 2 + 1 := by
    rw [hhalf]
    omega
  unfold calcRivByRb rowOf
  by_cases hle : numOfRb.toNat ≤ bw.toNat / 2 + 1
  · rw [if_pos (htest.mpr hle), if_pos hle, UInt32.ofNat_add, UInt32.ofNat_mul,
      UInt32.ofNat_sub hpos]
    simp only [UInt32.ofNat_uInt8ToNat, UInt32.ofNat_one]
  · rw [if_neg (mt htest.mp hle), if_neg hle, UInt32.ofNat_add, UInt32.ofNat_mul,
      UInt32.ofNat_add, UInt32.ofNat_sub (by omega), UInt32.ofNat_sub (by omega),
      UInt32.ofNat_sub (by omega)]
    simp only [UInt32.ofNat_uInt8ToNat, UInt32.ofNat_one]

/-- Quotient and remainder of a place. -/
theorem place_div (hr : r < bw.toNat) : (q * bw.toNat + r) / bw.toNat = q := by
  rw [Nat.mul_comm, Nat.mul_add_div (by omega), Nat.div_eq_of_lt hr, Nat.add_zero]

theorem place_mod (hr : r < bw.toNat) : (q * bw.toNat + r) % bw.toNat = r := by
  rw [Nat.mul_comm, Nat.mul_add_mod, Nat.mod_eq_of_lt hr]

/-- The two parts of a reading. -/
theorem reading_eq (hq : q ≤ bw.toNat) (hr : r < bw.toNat) :
    (UInt32.ofNat (q * bw.toNat + r) % bw.toUInt32).toUInt8 = UInt8.ofNat r ∧
      (UInt32.ofNat (q * bw.toNat + r) / bw.toUInt32 + 1).toUInt8 = UInt8.ofNat (q + 1) := by
  have hlt := place_lt hq hr
  have hn : (UInt32.ofNat (q * bw.toNat + r)).toNat = q * bw.toNat + r := by
    rw [UInt32.toNat_ofNat', Nat.mod_eq_of_lt hlt]
  have hmod : UInt32.ofNat (q * bw.toNat + r) % bw.toUInt32 = UInt32.ofNat r := by
    apply UInt32.toNat_inj.mp
    rw [UInt32.toNat_mod, hn, UInt8.toNat_toUInt32, place_mod hr, UInt32.toNat_ofNat',
      Nat.mod_eq_of_lt (by have := bw.toNat_lt; omega)]
  have hdiv : UInt32.ofNat (q * bw.toNat + r) / bw.toUInt32 = UInt32.ofNat q := by
    apply UInt32.toNat_inj.mp
    rw [UInt32.toNat_div, hn, UInt8.toNat_toUInt32, place_div hr, UInt32.toNat_ofNat',
      Nat.mod_eq_of_lt (by have := bw.toNat_lt; omega)]
  rw [hmod, hdiv, ← UInt32.ofNat_one, ← UInt32.ofNat_add, UInt32.toUInt8_ofNat',
    UInt32.toUInt8_ofNat']
  exact ⟨rfl, rfl⟩

/-- **What the decoder finds** at a place of the table. -/
theorem calcRbByRiv_eq (hq : q ≤ bw.toNat) (hr : r < bw.toNat) :
    calcRbByRiv bw (UInt32.ofNat (q * bw.toNat + r))
      = if bw.toNat ≤ r + (q + 1) % 256 then
          (UInt8.ofNat (bw.toNat - 1 - r), UInt8.ofNat (bw.toNat - q + 1))
        else (UInt8.ofNat r, UInt8.ofNat (q + 1)) := by
  have hbw : bw.toNat < 256 := bw.toNat_lt
  obtain ⟨hstart, hnum⟩ := reading_eq hq hr
  obtain ⟨hstart', hnum'⟩ := reading_eq (show bw.toNat - q ≤ bw.toNat by omega)
    (show bw.toNat - 1 - r < bw.toNat by omega)
  -- the place from the other end of the table
  have hturned : bw.toUInt32 * bw.toUInt32 + bw.toUInt32 - 1 - UInt32.ofNat (q * bw.toNat + r)
      = UInt32.ofNat ((bw.toNat - q) * bw.toNat + (bw.toNat - 1 - r)) := by
    have hsum : bw.toNat * bw.toNat + bw.toNat - 1 - (q * bw.toNat + r)
        = (bw.toNat - q) * bw.toNat + (bw.toNat - 1 - r) := by
      have := Nat.mul_le_mul_right bw.toNat hq
      rw [Nat.sub_mul]
      omega
    have hle : q * bw.toNat + r ≤ bw.toNat * bw.toNat + bw.toNat - 1 := by
      have := Nat.mul_le_mul_right bw.toNat hq
      omega
    have htmp : bw.toUInt32 * bw.toUInt32 + bw.toUInt32 - 1
        = UInt32.ofNat (bw.toNat * bw.toNat + bw.toNat - 1) := by
      rw [UInt32.ofNat_sub (by omega), UInt32.ofNat_add, UInt32.ofNat_mul]
      simp only [UInt32.ofNat_uInt8ToNat, UInt32.ofNat_one]
    rw [← hsum, UInt32.ofNat_sub hle, htmp]
  have hr8 : (UInt8.ofNat r).toNat = r := by
    rw [UInt8.toNat_ofNat', Nat.mod_eq_of_lt (by omega)]
  unfold calcRbByRiv
  simp only [hstart, hnum, hturned, hstart', hnum', hr8, UInt8.toNat_ofNat', ge_iff_le]

/-! ## Both ways -/

/-- Different allocations have different places. -/
theorem calcRivByRb_injective {rbStart' numOfRb' : UInt8} (h : InBand bw rbStart numOfRb)
    (h' : InBand bw rbStart' numOfRb')
    (heq : calcRivByRb bw rbStart numOfRb = calcRivByRb bw rbStart' numOfRb') :
    (rbStart, numOfRb) = (rbStart', numOfRb') := by
  obtain ⟨hq, hr⟩ := rowOf_lt h
  obtain ⟨hq', hr'⟩ := rowOf_lt h'
  rw [calcRivByRb_eq h, calcRivByRb_eq h', ← UInt32.toNat_inj, UInt32.toNat_ofNat',
    UInt32.toNat_ofNat', Nat.mod_eq_of_lt (place_lt hq hr), Nat.mod_eq_of_lt (place_lt hq' hr')]
    at heq
  have hrow : rowOf bw rbStart numOfRb = rowOf bw rbStart' numOfRb' := by
    refine Prod.ext ?_ ?_
    · rw [← place_div (q := (rowOf bw rbStart numOfRb).1) hr, heq, place_div hr']
    · rw [← place_mod (q := (rowOf bw rbStart numOfRb).1) hr, heq, place_mod hr']
  obtain ⟨hpos, hin⟩ := h
  obtain ⟨hpos', hin'⟩ := h'
  -- a turned allocation stands behind the others of its row
  have hall : rbStart.toNat = rbStart'.toNat ∧ numOfRb.toNat = numOfRb'.toNat := by
    by_cases hn : numOfRb.toNat ≤ bw.toNat / 2 + 1 <;>
      by_cases hn' : numOfRb'.toNat ≤ bw.toNat / 2 + 1
    · rw [rowOf_short hn, rowOf_short hn', Prod.mk.injEq] at hrow
      omega
    · rw [rowOf_short hn, rowOf_long hn', Prod.mk.injEq] at hrow
      omega
    · rw [rowOf_long hn, rowOf_short hn', Prod.mk.injEq] at hrow
      omega
    · rw [rowOf_long hn, rowOf_long hn', Prod.mk.injEq] at hrow
      omega
  rw [UInt8.toNat_inj.mp hall.1, UInt8.toNat_inj.mp hall.2]

/-- **When the decoder finds an allocation**: it does not end with the last block, or it is
one of the long ones. -/
theorem calcRbByRiv_calcRivByRb_iff (h : InBand bw rbStart numOfRb) :
    calcRbByRiv bw (calcRivByRb bw rbStart numOfRb) = (rbStart, numOfRb) ↔
      rbStart.toNat + numOfRb.toNat < bw.toNat ∨ bw.toNat / 2 + 1 < numOfRb.toNat := by
  obtain ⟨hq, hr⟩ := rowOf_lt h
  have hbw : bw.toNat < 256 := bw.toNat_lt
  rw [calcRivByRb_eq h, calcRbByRiv_eq hq hr]
  obtain ⟨hpos, hin⟩ := h
  by_cases hn : numOfRb.toNat ≤ bw.toNat / 2 + 1
  · have hlen : (numOfRb.toNat - 1 + 1) % 256 = numOfRb.toNat := by omega
    rw [rowOf_short hn, hlen]
    by_cases hedge : bw.toNat ≤ rbStart.toNat + numOfRb.toNat
    · -- the second formula gives another allocation
      rw [if_pos hedge]
      refine ⟨fun heq => ?_, fun hor => by omega⟩
      have hstart := congrArg UInt8.toNat (Prod.mk.inj heq).1
      have hnum := congrArg UInt8.toNat (Prod.mk.inj heq).2
      rw [UInt8.toNat_ofNat'] at hstart hnum
      omega
    · rw [if_neg hedge, Nat.sub_add_cancel hpos, UInt8.ofNat_toNat, UInt8.ofNat_toNat]
      exact ⟨fun _ => Or.inl (by omega), fun _ => rfl⟩
  · have hstart : bw.toNat - 1 - (bw.toNat - 1 - rbStart.toNat) = rbStart.toNat := by omega
    have hnum : bw.toNat - (bw.toNat - numOfRb.toNat + 1) + 1 = numOfRb.toNat := by omega
    rw [rowOf_long hn, if_pos (by omega)]
    simp only [hstart, hnum, UInt8.ofNat_toNat]
    exact ⟨fun _ => Or.inr (by omega), fun _ => trivial⟩

/-- The decoder undoes the encoder at an allocation, stays within the bandwidth, and no other
allocation has the same number. -/
def Inverts (bw rbStart numOfRb : UInt8) : Prop :=
  calcRbByRiv bw (calcRivByRb bw rbStart numOfRb) = (rbStart, numOfRb) ∧
    (calcRbByRiv bw (calcRivByRb bw rbStart numOfRb)).1.toNat
      + (calcRbByRiv bw (calcRivByRb bw rbStart numOfRb)).2.toNat ≤ bw.toNat ∧
    ∀ rbStart' numOfRb', InBand bw rbStart' numOfRb' →
      calcRivByRb bw rbStart' numOfRb' = calcRivByRb bw rbStart numOfRb →
        (rbStart', numOfRb') = (rbStart, numOfRb)

/-- **RIVs are inverted** unless the allocation is short and ends with the last block. -/
theorem calcRbByRiv_inverts_iff (h : InBand bw rbStart numOfRb) :
    Inverts bw rbStart numOfRb ↔
      rbStart.toNat + numOfRb.toNat < bw.toNat ∨ bw.toNat / 2 + 1 < numOfRb.toNat := by
  constructor
  · rintro ⟨heq, -, -⟩
    exact (calcRbByRiv_calcRivByRb_iff h).mp heq
  · intro hor
    have heq := (calcRbByRiv_calcRivByRb_iff h).mpr hor
    refine ⟨heq, ?_, fun rbStart' numOfRb' h' hriv => calcRivByRb_injective h' h hriv⟩
    rw [heq]
    exact h.within

/-- Two blocks in the middle of 25. -/
theorem calcRbByRiv_inverts_middle :
    Inverts 25 16 2 ↔ 16 + 2 < 25 ∨ 25 / 2 + 1 < 2 :=
  calcRbByRiv_inverts_iff ⟨by decide, by decide⟩

/-- The last block of 100 is taken for 101 blocks from the first one on. -/
theorem not_inverts_lastBlock :
    ¬ ∀ bw rbStart numOfRb : UInt8, InBand bw rbStart numOfRb → Inverts bw rbStart numOfRb := by
  intro hall
  have hlast : InBand 100 99 1 := ⟨by decide, by decide⟩
  have hne : calcRbByRiv 100 (calcRivByRb 100 99 1) ≠ (99, 1) := by decide
  exact hne (hall 100 99 1 hlast).1

end Riv

end LteUlp.Dci
