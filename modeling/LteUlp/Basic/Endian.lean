import Mathlib.Data.Nat.Bitwise

set_option autoImplicit false

/-! # Byte orders

A number of `w` bytes in memory, least or most significant byte first, and the exchange of
its bytes. What one byte order has stored the other one reads with the bytes exchanged.
-/

namespace LteUlp.Endian

inductive ByteOrder
  | little
  | big
  deriving DecidableEq

/-- The byte order that is not `o`. -/
def ByteOrder.other : ByteOrder → ByteOrder
  | .little => .big
  | .big => .little

/-- The `w` low bytes of `n`, least significant first. -/
def lowBytes : Nat → Nat → List UInt8
  | 0, _ => []
  | w + 1, n => UInt8.ofNat n :: lowBytes w (n / 256)

/-- The number with these bytes, least significant first. -/
def ofLowBytes : List UInt8 → Nat
  | [] => 0
  | b :: bs => b.toNat + 256 * ofLowBytes bs

/-- `n` in memory, as `w` bytes. -/
def store (o : ByteOrder) (w n : Nat) : List UInt8 :=
  match o with
  | .little => lowBytes w n
  | .big => (lowBytes w n).reverse

/-- The number these bytes of memory are. -/
def load (o : ByteOrder) (bs : List UInt8) : Nat :=
  match o with
  | .little => ofLowBytes bs
  | .big => ofLowBytes bs.reverse

/-- The number with the `w` bytes of `n` exchanged. -/
def swapBytes (w n : Nat) : Nat := ofLowBytes (lowBytes w n).reverse

/-- A shifted number above a smaller one. -/
theorem shiftLeft_or (a : Nat) {b k : Nat} (hb : b < 2 ^ k) : a <<< k ||| b = a * 2 ^ k + b := by
  rw [← Nat.shiftLeft_add_eq_or_of_lt hb, Nat.shiftLeft_eq]

@[simp] theorem length_lowBytes (w n : Nat) : (lowBytes w n).length = w := by
  induction w generalizing n with
  | zero => rfl
  | succ w ih => rw [lowBytes, List.length_cons, ih]

@[simp] theorem length_store (o : ByteOrder) (w n : Nat) : (store o w n).length = w := by
  cases o <;> simp [store]

theorem ofLowBytes_lowBytes (w n : Nat) : ofLowBytes (lowBytes w n) = n % 256 ^ w := by
  induction w generalizing n with
  | zero => simp [lowBytes, ofLowBytes, Nat.mod_one]
  | succ w ih =>
      have hbyte : (UInt8.ofNat n).toNat = n % 256 := by simp
      rw [lowBytes, ofLowBytes, ih, hbyte, pow_succ', Nat.mod_mul]

theorem lowBytes_ofLowBytes (bs : List UInt8) : lowBytes bs.length (ofLowBytes bs) = bs := by
  induction bs with
  | nil => rfl
  | cons b bs ih =>
      have hb : b.toNat < 256 := b.toNat_lt
      have hdiv : (b.toNat + 256 * ofLowBytes bs) / 256 = ofLowBytes bs := by omega
      rw [List.length_cons, ofLowBytes, lowBytes, hdiv, ih]
      congr 1
      apply UInt8.toNat_inj.mp
      simp only [UInt8.toNat_ofNat']
      omega

theorem load_store (o : ByteOrder) (w n : Nat) : load o (store o w n) = n % 256 ^ w := by
  cases o <;> simp [load, store, ofLowBytes_lowBytes]

theorem lowBytes_swapBytes (w n : Nat) : lowBytes w (swapBytes w n) = (lowBytes w n).reverse := by
  have := lowBytes_ofLowBytes (lowBytes w n).reverse
  rwa [List.length_reverse, length_lowBytes] at this

/-- A number with exchanged bytes lies in memory as the number does in the other order. -/
theorem store_swapBytes (o : ByteOrder) (w n : Nat) :
    store o w (swapBytes w n) = store o.other w n := by
  cases o with
  | little => exact lowBytes_swapBytes w n
  | big =>
      show (lowBytes w (swapBytes w n)).reverse = lowBytes w n
      rw [lowBytes_swapBytes, List.reverse_reverse]

/-- **Across byte orders, a number with exchanged bytes arrives.** -/
theorem load_store_swapBytes {o o' : ByteOrder} (hne : o ≠ o') (w n : Nat) :
    load o' (store o w (swapBytes w n)) = n % 256 ^ w := by
  have hother : o.other = o' := by
    cases o <;> cases o' <;> first | exact absurd rfl hne | rfl
  rw [store_swapBytes, hother, load_store]

end LteUlp.Endian
