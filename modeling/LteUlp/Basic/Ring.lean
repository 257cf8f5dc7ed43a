import Mathlib.Data.Fin.Basic
import Mathlib.Algebra.Group.Fin.Basic
import Mathlib.Logic.Function.Basic
import Mathlib.Algebra.Order.Ring.Int
import Mathlib.Algebra.Order.Ring.Nat

set_option autoImplicit false

/-! # A ring of slots

`n` slots in a ring, seen from one of them: slot `i` of the ring is the one that `i` steps
along the ring lead to.
-/

namespace LteUlp

/-- The number of steps from `a` to `b`. -/
def stepsTo {n : Nat} (a b : Fin n) : Nat := (b - a).val

theorem stepsTo_lt {n : Nat} (a b : Fin n) : stepsTo a b < n := (b - a).isLt

section Ring

variable {n : Nat} [NeZero n] {β : Type} (slot : Fin n → β) (a : Fin n)

/-- The slot `i` steps after `a`. -/
def ringAt (i : Nat) : β := slot (a + Fin.ofNat n i)

theorem ringAt_zero : ringAt slot a 0 = slot a := by
  unfold ringAt
  rw [show Fin.ofNat n 0 = 0 from rfl, add_zero]

theorem ofNat_succ (i : Nat) : Fin.ofNat n (i + 1) = 1 + Fin.ofNat n i := by
  apply Fin.ext
  simp [Fin.val_add, Nat.add_comm i 1]

/-- Seen from the next slot. -/
theorem ringAt_next (i : Nat) : ringAt slot (a + 1) i = ringAt slot a (i + 1) := by
  unfold ringAt
  rw [ofNat_succ, add_assoc]

/-- Once around the ring. -/
theorem ringAt_around : ringAt slot a n = slot a := by
  unfold ringAt
  have h : Fin.ofNat n n = 0 := Fin.ext (by simp)
  rw [h, add_zero]

variable {a}

theorem ring_inj {i j : Nat} (hi : i < n) (hj : j < n) :
    a + Fin.ofNat n i = a + Fin.ofNat n j ↔ i = j := by
  rw [add_right_inj, Fin.ext_iff, Fin.val_ofNat, Fin.val_ofNat, Nat.mod_eq_of_lt hi,
    Nat.mod_eq_of_lt hj]

/-- One slot is replaced. -/
theorem ringAt_update {i j : Nat} (hi : i < n) (hj : j < n) (v : β) :
    ringAt (Function.update slot (a + Fin.ofNat n j) v) a i
      = if i = j then v else ringAt slot a i := by
  unfold ringAt
  by_cases h : i = j
  · rw [h, if_pos rfl, Function.update_self]
  · rw [if_neg h, Function.update_of_ne fun he => h ((ring_inj hi hj).mp he)]

theorem ringAt_stepsTo (a b : Fin n) : ringAt slot a (stepsTo a b) = slot b := by
  unfold ringAt stepsTo
  rw [Fin.ofNat_val_eq_self, add_sub_cancel]

theorem stepsTo_ring {i : Nat} (hi : i < n) : stepsTo a (a + Fin.ofNat n i) = i := by
  unfold stepsTo
  rw [add_sub_cancel_left, Fin.val_ofNat, Nat.mod_eq_of_lt hi]

end Ring

end LteUlp
