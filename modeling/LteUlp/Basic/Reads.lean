import Mathlib.Tactic

set_option autoImplicit false

/-! # Byte strings in memory

`Reads m i l` says that the memory `m`, a function of the offset, holds the bytes `l` from the
offset `i` on.
-/

namespace ByteString

/-- The memory holds the bytes from the offset on. -/
def Reads (m : Nat → UInt8) (i : Nat) (l : List UInt8) : Prop :=
  ∀ k (hk : k < l.length), m (i + k) = l[k]

section Reads

variable {m : Nat → UInt8} {i : Nat} {l l' : List UInt8} {b : UInt8}

theorem Reads.left (h : Reads m i (l ++ l')) : Reads m i l := by
  intro k hk
  rw [h k (by rw [List.length_append]; omega), List.getElem_append_left hk]

theorem Reads.right (h : Reads m i (l ++ l')) : Reads m (i + l.length) l' := by
  intro k hk
  have hk' : l.length + k < (l ++ l').length := by
    rw [List.length_append]
    omega
  rw [add_assoc, h _ hk', List.getElem_append_right (Nat.le_add_right _ _)]
  simp

theorem Reads.head (h : Reads m i (b :: l)) : m i = b := h 0 (Nat.succ_pos _)

theorem Reads.tail (h : Reads m i (b :: l)) : Reads m (i + 1) l :=
  Reads.right (l := [b]) h

/-- The bytes that are read are those that were written. -/
theorem Reads.map_range (h : Reads m i l) :
    (List.range l.length).map (fun k => m (i + k)) = l := by
  apply List.ext_getElem
  · simp
  · intro k hk _
    have hk' : k < l.length := by simpa using hk
    rw [List.getElem_map, List.getElem_range, h k hk']

theorem reads_getD (l : List UInt8) : Reads (fun k => l.getD k 0) 0 l := by
  intro k hk
  rw [zero_add]
  simp [List.getD_eq_getElem?_getD, hk]

end Reads

end ByteString
