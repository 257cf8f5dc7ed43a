import Mathlib.Data.List.TakeWhile
import Mathlib.Data.Int.Basic
import Mathlib.Algebra.Order.Ring.Int
import Mathlib.Algebra.Order.Ring.Nat

set_option autoImplicit false

/-! # Texts in an array of bytes

An array of characters is the list of its bytes. A text in it is ended by a `0`. The
functions of the C library that fill such an array are defined on a position `p` of the
array; `Stored` says that a text has been put at `p`, byte after byte, with everything
before it left as it was.
-/

namespace LteUlp

/-- A C string: bytes without the terminator. -/
abbrev CString := {s : List UInt8 // (0 : UInt8) ∉ s}

/-- The empty text. -/
def CString.empty : CString := ⟨[], List.not_mem_nil⟩

/-- The first `n` bytes of a text. -/
def CString.cut (s : CString) (n : Nat) : CString :=
  ⟨s.1.take n, fun h => s.2 (List.mem_of_mem_take h)⟩

/-- The text of a literal. -/
def ascii (s : List Char) : List UInt8 := s.map fun c => UInt8.ofNat c.toNat

/-- An `int` passed as a `size_t`. -/
def sizeT (n : Int) : Nat := (n % 2 ^ 64).toNat

/-- `memcpy`, or one assignment after the other, at position `p`. -/
def copyText (m : List UInt8) (p : Nat) (s : List UInt8) : List UInt8 :=
  m.take p ++ s ++ m.drop (p + s.length)

/-- `strlen` of what begins an array. -/
def strlen (m : List UInt8) : Nat := (m.takeWhile (· != 0)).length

/-- `snprintf` at position `p`, for the text that the format and its arguments make: at
most `size` bytes, the last of them the terminator. -/
def snprintf (m : List UInt8) (p size : Nat) (s : List UInt8) : List UInt8 :=
  if size = 0 then m else copyText m p (s.take (size - 1) ++ [0])

theorem sizeT_of_nonneg {n : Int} (h : 0 ≤ n) (hlt : n < 2 ^ 64) : sizeT n = n.toNat := by
  unfold sizeT
  rw [Int.emod_eq_of_lt h hlt]

theorem length_copyText {m : List UInt8} {p : Nat} {s : List UInt8}
    (h : p + s.length ≤ m.length) : (copyText m p s).length = m.length := by
  unfold copyText
  simp only [List.length_append, List.length_take, List.length_drop]
  omega

theorem take_copyText {m : List UInt8} {p : Nat} {s : List UInt8} (h : p ≤ m.length) :
    (copyText m p s).take (p + s.length) = m.take p ++ s := by
  unfold copyText
  have hlen : (m.take p ++ s).length = p + s.length := by
    rw [List.length_append, List.length_take, Nat.min_eq_left h]
  rw [← hlen, List.take_left]

theorem strlen_text {s : List UInt8} (h : (0 : UInt8) ∉ s) (r : List UInt8) :
    strlen (s ++ 0 :: r) = s.length := by
  unfold strlen
  rw [List.takeWhile_append_of_pos, List.takeWhile_cons_of_neg (by simp), List.append_nil]
  intro b hb
  have : b ≠ 0 := fun h0 => h (h0 ▸ hb)
  simpa using this

/-- The text that begins an array. -/
theorem take_strlen (m : List UInt8) : m.take (strlen m) = m.takeWhile (· != 0) :=
  (List.prefix_iff_eq_take.mp (List.takeWhile_prefix _)).symm

theorem zero_notMem_take_strlen (m : List UInt8) : (0 : UInt8) ∉ m.take (strlen m) := by
  rw [take_strlen]
  intro h
  have := List.mem_takeWhile_imp h
  simp at this

theorem strlen_le (m : List UInt8) : strlen m ≤ m.length := (List.takeWhile_prefix _).length_le

/-- `m'` is `m` with the text `s` at `p`. What follows the text is not described. -/
structure Stored (m m' : List UInt8) (p : Nat) (s : List UInt8) : Prop where
  length : m'.length = m.length
  take : m'.take (p + s.length) = m.take p ++ s

theorem Stored.nil (m : List UInt8) (p : Nat) : Stored m m p [] :=
  ⟨rfl, by rw [List.length_nil, Nat.add_zero, List.append_nil]⟩

variable {m m' : List UInt8} {p : Nat} {s t : List UInt8}

theorem Stored.append (h : Stored m m' p s) (hfit : p + s.length + t.length ≤ m.length) :
    Stored m (copyText m' (p + s.length) t) p (s ++ t) := by
  have hlen : m'.length = m.length := h.length
  refine ⟨?_, ?_⟩
  · rw [length_copyText (by omega), hlen]
  · rw [List.length_append, ← Nat.add_assoc, take_copyText (by omega), h.take,
      List.append_assoc]

/-- A longer text begins with every shorter one. -/
theorem Stored.of_append (h : Stored m m' p (s ++ t)) (hp : p ≤ m.length) :
    Stored m m' p s := by
  refine ⟨h.length, ?_⟩
  have hlen : (m.take p ++ s).length = p + s.length := by
    rw [List.length_append, List.length_take, Nat.min_eq_left hp]
  have hle : p + s.length ≤ p + (s ++ t).length := by
    rw [List.length_append]
    omega
  calc m'.take (p + s.length)
      = (m'.take (p + (s ++ t).length)).take (p + s.length) := by
        rw [List.take_take, Nat.min_eq_left hle]
    _ = (m.take p ++ s ++ t).take (p + s.length) := by rw [h.take, List.append_assoc]
    _ = m.take p ++ s := by rw [← hlen, List.take_left]

/-- Everything from `p` on. -/
theorem Stored.drop (h : Stored m m' p s) (hp : p ≤ m.length) :
    m'.drop p = s ++ m'.drop (p + s.length) := by
  have hlen : (m.take p).length = p := by rw [List.length_take, Nat.min_eq_left hp]
  have hsplit : m' = m.take p ++ (s ++ m'.drop (p + s.length)) := by
    rw [← List.append_assoc, ← h.take, List.take_append_drop]
  calc m'.drop p
      = (m.take p ++ (s ++ m'.drop (p + s.length))).drop p := congrArg (List.drop p) hsplit
    _ = s ++ m'.drop (p + s.length) := List.drop_left' hlen

/-- Behind `s` there is the text `t` with its terminator: `strlen` finds its end. -/
theorem Stored.strlen (h : Stored m m' p (s ++ (t ++ [0]))) (hp : p ≤ m.length)
    (ht : (0 : UInt8) ∉ t) : strlen (m'.drop (p + s.length)) = t.length := by
  have hdrop : m'.drop (p + s.length)
      = t ++ 0 :: m'.drop (p + (s ++ (t ++ [0])).length) := by
    rw [← List.drop_drop, h.drop hp, List.append_assoc, List.drop_left, List.append_assoc]
    rfl
  rw [hdrop]
  exact strlen_text ht _

/-- `snprintf` with room for the text and its terminator. -/
theorem Stored.snprintf (h : Stored m m' p s) (size : Nat) (hsize : t.length < size)
    (hfit : p + s.length + t.length < m.length) :
    Stored m (snprintf m' (p + s.length) size t) p (s ++ (t ++ [0])) := by
  unfold LteUlp.snprintf
  rw [if_neg (by omega), List.take_of_length_le (by omega)]
  apply h.append
  rw [List.length_append, List.length_singleton]
  omega

end LteUlp
