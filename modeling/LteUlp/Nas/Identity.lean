import LteUlp.Basic.Octets
import LteUlp.Basic.Reads
import LteUlp.Basic.Endian
import LteUlp.Nas.Model

set_option autoImplicit false

/-! # Encoded identities

The identities as a UE encodes them, an EPS mobile identity (`EpsIdentity`) and a mobile
identity (`MobileIdentity`): a length octet and a value whose first octet has the type of the
identity. Digits are semi-octets, the earlier one in the lower half. The unpackers find what
was encoded, whatever is in memory behind it (`identities_unpacked`).
-/

namespace LteUlp.Nas

open ByteString Endian

/-! ## Digits -/

/-- `n` decimal digits. -/
structure Digits (n : Nat) where
  toList : List UInt8
  length_eq : toList.length = n
  lt_ten : ∀ d ∈ toList, d.toNat < 10

namespace Digits

variable {n : Nat} (ds : Digits n)

/-- The digit at `i`. -/
def digit (i : Nat) : UInt8 := ds.toList.getD i 0

/-- The number the digits spell. -/
def value : Nat := ds.toList.foldl (fun v d => 10 * v + d.toNat) 0

theorem digit_lt (i : Nat) : (ds.digit i).toNat < 10 := by
  by_cases hi : i < ds.toList.length
  · rw [digit, List.getD_eq_getElem ds.toList 0 hi]
    exact ds.lt_ten _ (List.getElem_mem hi)
  · rw [digit, List.getD_eq_default ds.toList 0 (Nat.le_of_not_lt hi)]
    decide

theorem digit_fits (i : Nat) : (ds.digit i).toNat < 2 ^ 4 :=
  Nat.lt_trans (ds.digit_lt i) (by decide)

/-- The filler is no digit. -/
theorem digit_ne (i : Nat) : ds.digit i ≠ 0xF := by
  intro h
  have hlt := ds.digit_lt i
  rw [h] at hlt
  exact absurd hlt (by decide)

theorem value_two (ds : Digits 2) : ds.value = 10 * (ds.digit 0).toNat + (ds.digit 1).toNat := by
  obtain ⟨l, hlen, hlt⟩ := ds
  obtain ⟨a, b, rfl⟩ := List.length_eq_two.mp hlen
  simp [value, digit]

theorem value_three (ds : Digits 3) :
    ds.value = 100 * (ds.digit 0).toNat + 10 * (ds.digit 1).toNat + (ds.digit 2).toNat := by
  obtain ⟨l, hlen, hlt⟩ := ds
  obtain ⟨a, b, c, rfl⟩ := List.length_eq_three.mp hlen
  simp [value, digit]
  ring

end Digits

/-! ## Formats -/

/-- Digits in semi-octets, two in an octet, an odd one at the end with a filler. -/
def semiOctets : List UInt8 → List UInt8
  | [] => []
  | [lo] => [octet [(4, 0xF), (4, lo)]]
  | lo :: hi :: ds => octet [(4, hi), (4, lo)] :: semiOctets ds

/-- The value of an identity that consists of digits. The first digit shares its octet with
the parity of their number and with the type. -/
def digitsValue (typeOfId : UInt8) : List UInt8 → List UInt8
  | [] => []
  | d :: ds =>
      octet [(4, d), (1, UInt8.ofNat ((ds.length + 1) % 2)), (3, typeOfId)] :: semiOctets ds

/-- A value behind its length octet. -/
def withLength (value : List UInt8) : List UInt8 := UInt8.ofNat value.length :: value

/-- A mobile network code has two or three digits. -/
inductive Mnc where
  | two (ds : Digits 2)
  | three (ds : Digits 3)

namespace Mnc

def value : Mnc → Nat
  | .two ds => ds.value
  | .three ds => ds.value

/-- The first two digits are in the third octet of a PLMN. -/
def digit (i : Nat) : Mnc → UInt8
  | .two ds => ds.digit i
  | .three ds => ds.digit i

/-- The last digit, or the filler in its place. -/
def last : Mnc → UInt8
  | .two _ => 0xF
  | .three ds => ds.digit 2

end Mnc

structure Plmn where
  mcc : Digits 3
  mnc : Mnc

/-- The three octets of a PLMN. -/
def Plmn.octets (plmn : Plmn) : List UInt8 :=
  [octet [(4, plmn.mcc.digit 1), (4, plmn.mcc.digit 0)],
   octet [(4, plmn.mnc.last), (4, plmn.mcc.digit 2)],
   octet [(4, plmn.mnc.digit 1), (4, plmn.mnc.digit 0)]]

/-- The identities of an EPS mobile identity element. -/
inductive EpsIdentity where
  | guti (plmn : Plmn) (mmeGroupId : UInt16) (mmeCode : UInt8) (mTmsi : UInt32)
  | tmsi (mTmsi : UInt32)
  | imsi (ds : Digits 15)
  | imei (ds : Digits 15)

namespace EpsIdentity

/-- The value of the element. An identity without digits has the filler in place of the first
one, and its parity is even. -/
def octets : EpsIdentity → List UInt8
  | .guti plmn mmeGroupId mmeCode mTmsi =>
      octet [(4, 0xF), (1, 0), (3, epsMobileIdTypeGuti)] :: (plmn.octets
        ++ store .big 2 mmeGroupId.toNat ++ [mmeCode] ++ store .big 4 mTmsi.toNat)
  | .tmsi mTmsi =>
      octet [(4, 0xF), (1, 0), (3, epsMobileIdTypeTmsi)] :: store .big 4 mTmsi.toNat
  | .imsi ds => digitsValue epsMobileIdTypeImsi ds.toList
  | .imei ds => digitsValue 0x3 ds.toList

/-- The element from its length octet on. -/
def encode (id : EpsIdentity) : List UInt8 := withLength id.octets

/-- The structure with this identity in it. -/
def record (old : EpsMobileId) : EpsIdentity → EpsMobileId
  | .guti plmn mmeGroupId mmeCode mTmsi =>
      { old with
        typeOfId := epsMobileIdTypeGuti
        guti := ⟨mTmsi, UInt16.ofNat plmn.mcc.value, UInt16.ofNat plmn.mnc.value, mmeGroupId,
          mmeCode⟩ }
  | .tmsi mTmsi => { old with typeOfId := epsMobileIdTypeTmsi, mTmsi := mTmsi }
  | .imsi ds => { old with typeOfId := epsMobileIdTypeImsi, imsi := ds.toList }
  | .imei ds => { old with typeOfId := 0x3, imei := ds.toList }

end EpsIdentity

/-- The identities of a mobile identity element. -/
inductive MobileIdentity where
  | imsi (ds : Digits 15)
  | imei (ds : Digits 15)
  | imeisv (ds : Digits 16)

namespace MobileIdentity

/-- The value of the element. -/
def octets : MobileIdentity → List UInt8
  | .imsi ds => digitsValue mobileIdTypeImsi ds.toList
  | .imei ds => digitsValue mobileIdTypeImei ds.toList
  | .imeisv ds => digitsValue mobileIdTypeImeisv ds.toList

/-- The element from its length octet on. -/
def encode (id : MobileIdentity) : List UInt8 := withLength id.octets

/-- The structure with this identity in it. -/
def record (old : MobileId) : MobileIdentity → MobileId
  | .imsi ds => { old with typeOfId := mobileIdTypeImsi, imsi := ds.toList }
  | .imei ds => { old with typeOfId := mobileIdTypeImei, imei := ds.toList }
  | .imeisv ds => { old with typeOfId := mobileIdTypeImeisv, imeisv := ds.toList }

end MobileIdentity

/-! ## Semi-octets -/

theorem fits_semiOctets {hi lo : UInt8} (hhi : hi.toNat < 2 ^ 4) (hlo : lo.toNat < 2 ^ 4) :
    Fits [(4, hi), (4, lo)] :=
  fits_cons.mpr ⟨hhi, fits_cons.mpr ⟨hlo, fits_nil⟩⟩

theorem low_octet {hi lo : UInt8} (hhi : hi.toNat < 2 ^ 4) (hlo : lo.toNat < 2 ^ 4) :
    octet [(4, hi), (4, lo)] &&& 0x0F = lo :=
  mask_octet [(4, hi)] 4 lo (fits_semiOctets hhi hlo) rfl (by decide)

theorem high_octet {hi lo : UInt8} (hhi : hi.toNat < 2 ^ 4) (hlo : lo.toNat < 2 ^ 4) :
    octet [(4, hi), (4, lo)] >>> 4 = hi :=
  shift_octet 4 hi [(4, lo)] (fits_semiOctets hhi hlo) rfl (by decide)

theorem high_mask_octet {hi lo : UInt8} (hhi : hi.toNat < 2 ^ 4) (hlo : lo.toNat < 2 ^ 4) :
    (octet [(4, hi), (4, lo)] >>> 4) &&& 0x0F = hi :=
  shift_mask_octet [] 4 hi [(4, lo)] (fits_semiOctets hhi hlo) rfl (by decide)

/-- Before an even number of digits ends, the octets of the rest begin. -/
theorem semiOctets_append (l l' : List UInt8) (h : l.length % 2 = 0) :
    semiOctets (l ++ l') = semiOctets l ++ semiOctets l' := by
  induction l using semiOctets.induct with
  | case1 => rfl
  | case2 lo => exact absurd h (by simp)
  | case3 lo hi ds ih =>
      have hds : ds.length % 2 = 0 := by
        simp only [List.length_cons] at h
        omega
      rw [List.cons_append, List.cons_append, semiOctets, semiOctets, ih hds, List.cons_append]

theorem length_semiOctets (ds : List UInt8) : (semiOctets ds).length = (ds.length + 1) / 2 := by
  induction ds using semiOctets.induct with
  | case1 => rfl
  | case2 lo => simp [semiOctets]
  | case3 lo hi ds ih =>
      rw [semiOctets, List.length_cons, ih, List.length_cons, List.length_cons]
      omega

/-- The loop over the octets finds the digits. -/
theorem semiOctets_read (n : Nat) (m : Nat → UInt8) (p : Nat) (ds : List UInt8)
    (hlen : ds.length = 2 * n) (hlt : ∀ d ∈ ds, d.toNat < 10) (h : Reads m p (semiOctets ds)) :
    ((List.range n).flatMap fun i => [m (p + i) &&& 0x0F, m (p + i) >>> 4]) = ds := by
  induction n generalizing p ds with
  | zero => rw [List.length_eq_zero_iff.mp hlen]; rfl
  | succ n ih =>
      obtain ⟨lo, hi, rest, rfl⟩ : ∃ lo hi rest, ds = lo :: hi :: rest := by
        match ds, hlen with
        | lo :: hi :: rest, _ => exact ⟨lo, hi, rest, rfl⟩
        | [lo], hlen => simp at hlen; omega
      have hlo : lo.toNat < 2 ^ 4 := Nat.lt_trans (hlt lo (by simp)) (by decide)
      have hhi : hi.toNat < 2 ^ 4 := Nat.lt_trans (hlt hi (by simp)) (by decide)
      have hrest := ih (p + 1) rest (by simp only [List.length_cons] at hlen; omega)
        (fun d hd => hlt d (by simp [hd])) h.tail
      have hfirst : m p = octet [(4, hi), (4, lo)] := h.head
      have hshift : ∀ i, p + 1 + i = p + (i + 1) := fun i => by omega
      simp only [hshift] at hrest
      rw [List.range_succ_eq_map, List.flatMap_cons, List.flatMap_map, hrest, Nat.add_zero,
        hfirst, low_octet hhi hlo, high_octet hhi hlo]
      rfl

section Unpack

variable {m : Nat → UInt8} {p : Nat}

theorem fits_first {d t par : UInt8} (hd : d.toNat < 2 ^ 4) (hpar : par.toNat < 2 ^ 1)
    (ht : t.toNat < 2 ^ 3) : Fits [(4, d), (1, par), (3, t)] :=
  fits_cons.mpr ⟨hd, fits_cons.mpr ⟨hpar, fits_cons.mpr ⟨ht, fits_nil⟩⟩⟩

/-- The first octet of a value gives the type. -/
theorem type_octet {d t par : UInt8} (hd : d.toNat < 2 ^ 4) (hpar : par.toNat < 2 ^ 1)
    (ht : t.toNat < 2 ^ 3) : octet [(4, d), (1, par), (3, t)] &&& 0x07 = t :=
  mask_octet [(4, d), (1, par)] 3 t (fits_first hd hpar ht) rfl (by decide)

/-- Fifteen digits are read, and behind them there is what follows in the value. -/
theorem digitsValue_read {t d : UInt8} {ds l : List UInt8} (ht : t.toNat < 2 ^ 3)
    (hlen : ds.length = 14) (hlt : ∀ x ∈ d :: ds, x.toNat < 10)
    (h : Reads m p (digitsValue t (d :: (ds ++ l)))) :
    m p &&& 0x07 = t ∧ digits m p = d :: ds ∧ Reads m (p + 8) (semiOctets l) := by
  have hd : d.toNat < 2 ^ 4 := Nat.lt_trans (hlt d List.mem_cons_self) (by decide)
  have hpar : ∀ n, (UInt8.ofNat (n % 2)).toNat < 2 ^ 1 := by
    intro n
    rw [UInt8.toNat_ofNat']
    omega
  have hfirst := h.head
  have hrest : Reads m (p + 1) (semiOctets ds ++ semiOctets l) := by
    rw [← semiOctets_append ds l (by omega)]
    exact h.tail
  have hhigh : m p >>> 4 = d := by
    rw [hfirst]
    exact shift_octet 4 d _ (fits_first hd (hpar _) ht) rfl (by decide)
  have hloop := semiOctets_read 7 m (p + 1) ds hlen
    (fun x hx => hlt x (List.mem_cons_of_mem d hx)) hrest.left
  refine ⟨?_, ?_, ?_⟩
  · rw [hfirst]
    exact type_octet hd (hpar _) ht
  · rw [digits, hhigh, hloop]
  · have hright := hrest.right
    rwa [length_semiOctets, hlen] at hright

theorem digits_read {t : UInt8} (ds : Digits 15) (ht : t.toNat < 2 ^ 3)
    (h : Reads m p (digitsValue t ds.toList)) :
    m p &&& 0x07 = t ∧ digits m p = ds.toList := by
  obtain ⟨l, hlen, hlt⟩ := ds
  match l, hlen with
  | d :: rest, hlen =>
      have h' : Reads m p (digitsValue t (d :: (rest ++ []))) := by
        rwa [List.append_nil]
      obtain ⟨htype, hdigits, -⟩ := digitsValue_read ht (by simpa using hlen) hlt h'
      exact ⟨htype, hdigits⟩

/-! ## Numbers -/

theorem toNat_be16 (m : Nat → UInt8) (p : Nat) :
    (be16 m p).toNat = (m p).toNat * 2 ^ 8 + (m (p + 1)).toNat := by
  have h0 := (m p).toNat_lt
  have h1 := (m (p + 1)).toNat_lt
  have hshift : (m p).toNat <<< 8 % 2 ^ 16 = (m p).toNat <<< 8 := by
    rw [Nat.shiftLeft_eq]
    omega
  rw [← shiftLeft_or _ h1, ← hshift]
  simp [be16]

theorem toNat_be32 (m : Nat → UInt8) (p : Nat) :
    (be32 m p).toNat = (m p).toNat * 2 ^ 24 + ((m (p + 1)).toNat * 2 ^ 16
      + ((m (p + 2)).toNat * 2 ^ 8 + (m (p + 3)).toNat)) := by
  have h0 := (m p).toNat_lt
  have h1 := (m (p + 1)).toNat_lt
  have h2 := (m (p + 2)).toNat_lt
  have h3 := (m (p + 3)).toNat_lt
  have hshift : ∀ (b : UInt8) (k : Nat), k ≤ 24 → b.toNat <<< k % 2 ^ 32 = b.toNat <<< k := by
    intro b k hk
    have hpow : 2 ^ k ≤ 2 ^ 24 := Nat.pow_le_pow_right (by decide) hk
    have hb : b.toNat * 2 ^ k < 2 ^ 8 * 2 ^ 24 :=
      Nat.mul_lt_mul_of_lt_of_le b.toNat_lt hpow (by decide)
    rw [Nat.shiftLeft_eq]
    exact Nat.mod_eq_of_lt hb
  have h24 := hshift (m p) 24 (by decide)
  have h16 := hshift (m (p + 1)) 16 (by decide)
  have h8 := hshift (m (p + 2)) 8 (by decide)
  rw [← shiftLeft_or (m (p + 2)).toNat h3, ← shiftLeft_or (m (p + 1)).toNat, ← shiftLeft_or,
    ← h24, ← h16, ← h8]
  · simp [be32, Nat.or_assoc]
  · rw [shiftLeft_or _ h3, shiftLeft_or] <;> omega
  · rw [shiftLeft_or _ h3]
    omega

theorem be16_read (v : UInt16) (h : Reads m p (store .big 2 v.toNat)) : be16 m p = v := by
  have h0 : m p = UInt8.ofNat (v.toNat / 256) := h.head
  have h1 : m (p + 1) = UInt8.ofNat v.toNat := h.tail.head
  have hv := v.toNat_lt
  apply UInt16.toNat_inj.mp
  rw [toNat_be16, h0, h1, UInt8.toNat_ofNat', UInt8.toNat_ofNat']
  omega

theorem be32_read (v : UInt32) (h : Reads m p (store .big 4 v.toNat)) : be32 m p = v := by
  have h0 : m p = UInt8.ofNat (v.toNat / 256 / 256 / 256) := h.head
  have h1 : m (p + 1) = UInt8.ofNat (v.toNat / 256 / 256) := h.tail.head
  have h2 : m (p + 2) = UInt8.ofNat (v.toNat / 256) := h.tail.tail.head
  have h3 : m (p + 3) = UInt8.ofNat v.toNat := h.tail.tail.tail.head
  have hv := v.toNat_lt
  apply UInt32.toNat_inj.mp
  rw [toNat_be32, h0, h1, h2, h3]
  simp only [UInt8.toNat_ofNat']
  omega

theorem Mnc.digit_fits (mnc : Mnc) (i : Nat) : (mnc.digit i).toNat < 2 ^ 4 := by
  cases mnc with
  | two ds => exact ds.digit_fits i
  | three ds => exact ds.digit_fits i

theorem Mnc.last_fits (mnc : Mnc) : mnc.last.toNat < 2 ^ 4 := by
  cases mnc with
  | two ds => exact (by decide : (0xF : UInt8).toNat < 2 ^ 4)
  | three ds => exact ds.digit_fits 2

theorem mccAt_read (plmn : Plmn) (h : Reads m p plmn.octets) :
    mccAt m p = UInt16.ofNat plmn.mcc.value := by
  have h0 : m p = octet [(4, plmn.mcc.digit 1), (4, plmn.mcc.digit 0)] := h.head
  have h1 : m (p + 1) = octet [(4, plmn.mnc.last), (4, plmn.mcc.digit 2)] := h.tail.head
  have hd := plmn.mcc.digit_fits
  rw [mccAt, h0, h1, low_octet (hd 1) (hd 0), high_mask_octet (hd 1) (hd 0),
    low_octet plmn.mnc.last_fits (hd 2), plmn.mcc.value_three]
  apply UInt16.toNat_inj.mp
  simp
  omega

/-- **The MNC is read, in both of its forms.** -/
theorem mncAt_read (plmn : Plmn) (h : Reads m p plmn.octets) :
    mncAt m p = UInt16.ofNat plmn.mnc.value := by
  have h1 : m (p + 1) = octet [(4, plmn.mnc.last), (4, plmn.mcc.digit 2)] := h.tail.head
  have h2 : m (p + 2) = octet [(4, plmn.mnc.digit 1), (4, plmn.mnc.digit 0)] := h.tail.tail.head
  have hd := plmn.mnc.digit_fits
  rw [mncAt, h1, h2, high_mask_octet plmn.mnc.last_fits (plmn.mcc.digit_fits 2),
    low_octet (hd 1) (hd 0), high_mask_octet (hd 1) (hd 0)]
  apply UInt16.toNat_inj.mp
  cases plmn.mnc with
  | two ds =>
      simp only [Mnc.last, Mnc.digit, Mnc.value, if_true, ds.value_two]
      simp
      omega
  | three ds =>
      simp only [Mnc.last, Mnc.digit, Mnc.value, ds.digit_ne 2, if_false, ds.value_three]
      simp
      omega

end Unpack

/-! ## The unpackers -/

theorem length_digitsValue {n : Nat} (t : UInt8) (ds : Digits n) :
    (digitsValue t ds.toList).length = n / 2 + if n = 0 then 0 else 1 := by
  obtain ⟨l, rfl, -⟩ := ds
  cases l with
  | nil => rfl
  | cons d l =>
      rw [digitsValue, List.length_cons, length_semiOctets, List.length_cons,
        if_neg (Nat.succ_ne_zero _)]

theorem length_withLength (value : List UInt8) : (withLength value).length = value.length + 1 :=
  rfl

/-- **The EPS mobile identity is unpacked.** The structure has the identity and is otherwise
as before, and the pointer is behind the element. -/
theorem mmeUnpackEpsMobileIdIe_encode (id : EpsIdentity) {m : Nat → UInt8} {p : Nat}
    (old : EpsMobileId) (h : Reads m p id.encode) :
    mmeUnpackEpsMobileIdIe m p old = (id.record old, p + id.encode.length) := by
  have hvalue : Reads m (p + 1) id.octets := h.tail
  have hfiller : (0xF : UInt8).toNat < 2 ^ 4 := by decide
  cases id with
  | guti plmn mmeGroupId mmeCode mTmsi =>
      have htype : m (p + 1) &&& 0x07 = epsMobileIdTypeGuti := by
        rw [hvalue.head]
        exact type_octet hfiller (by decide) (by decide)
      have hrest := hvalue.tail
      have hplmn : Reads m (p + 1 + 1) plmn.octets := hrest.left.left.left
      have hgroup : Reads m (p + 1 + 1 + 3) (store .big 2 mmeGroupId.toNat) :=
        hrest.left.left.right
      have hcode : m (p + 1 + 1 + 5) = mmeCode := hrest.left.right.head
      have htmsi : Reads m (p + 1 + 1 + 6) (store .big 4 mTmsi.toNat) := hrest.right
      simp only [mmeUnpackEpsMobileIdIe, htype, if_true, mccAt_read plmn hplmn,
        mncAt_read plmn hplmn, be16_read mmeGroupId hgroup, hcode, be32_read mTmsi htmsi]
      rfl
  | tmsi mTmsi =>
      have htype : m (p + 1) &&& 0x07 = epsMobileIdTypeTmsi := by
        rw [hvalue.head]
        exact type_octet hfiller (by decide) (by decide)
      have hne : epsMobileIdTypeTmsi ≠ epsMobileIdTypeGuti := by decide
      have htmsi : Reads m (p + 1 + 1) (store .big 4 mTmsi.toNat) := hvalue.tail
      simp only [mmeUnpackEpsMobileIdIe, htype, if_neg hne, if_true, be32_read mTmsi htmsi]
      rfl
  | imsi ds =>
      obtain ⟨htype, hdigits⟩ := digits_read ds (by decide) hvalue
      have hlen := length_digitsValue epsMobileIdTypeImsi ds
      have hguti : epsMobileIdTypeImsi ≠ epsMobileIdTypeGuti := by decide
      have htmsi : epsMobileIdTypeImsi ≠ epsMobileIdTypeTmsi := by decide
      simp only [mmeUnpackEpsMobileIdIe, htype, if_neg hguti, if_neg htmsi, if_true, hdigits]
      simp only [EpsIdentity.record, EpsIdentity.encode, EpsIdentity.octets, length_withLength,
        hlen]
      rfl
  | imei ds =>
      obtain ⟨htype, hdigits⟩ := digits_read ds (by decide) hvalue
      have hlen := length_digitsValue 0x3 ds
      have hguti : (0x3 : UInt8) ≠ epsMobileIdTypeGuti := by decide
      have htmsi : (0x3 : UInt8) ≠ epsMobileIdTypeTmsi := by decide
      have himsi : (0x3 : UInt8) ≠ epsMobileIdTypeImsi := by decide
      simp only [mmeUnpackEpsMobileIdIe, htype, if_neg hguti, if_neg htmsi, if_neg himsi,
        hdigits]
      simp only [EpsIdentity.record, EpsIdentity.encode, EpsIdentity.octets, length_withLength,
        hlen]
      rfl

/-- **The mobile identity is unpacked.** -/
theorem mmeUnpackMobileIdIe_encode (id : MobileIdentity) {m : Nat → UInt8} {p : Nat}
    (old : MobileId) (h : Reads m p id.encode) :
    mmeUnpackMobileIdIe m p old = (true, id.record old, p + id.encode.length) := by
  have hvalue : Reads m (p + 1) id.octets := h.tail
  cases id with
  | imsi ds =>
      obtain ⟨htype, hdigits⟩ := digits_read ds (by decide) hvalue
      have hlen := length_digitsValue mobileIdTypeImsi ds
      simp only [mmeUnpackMobileIdIe, htype, if_true, hdigits]
      simp only [MobileIdentity.record, MobileIdentity.encode, MobileIdentity.octets,
        length_withLength, hlen]
      rfl
  | imei ds =>
      obtain ⟨htype, hdigits⟩ := digits_read ds (by decide) hvalue
      have hlen := length_digitsValue mobileIdTypeImei ds
      have himsi : mobileIdTypeImei ≠ mobileIdTypeImsi := by decide
      simp only [mmeUnpackMobileIdIe, htype, if_neg himsi, if_true, hdigits]
      simp only [MobileIdentity.record, MobileIdentity.encode, MobileIdentity.octets,
        length_withLength, hlen]
      rfl
  | imeisv ds =>
      have hlen := length_digitsValue mobileIdTypeImeisv ds
      have himsi : mobileIdTypeImeisv ≠ mobileIdTypeImsi := by decide
      have himei : mobileIdTypeImeisv ≠ mobileIdTypeImei := by decide
      obtain ⟨d, front, last, hds, hfront⟩ :
          ∃ d front last, ds.toList = d :: (front ++ [last]) ∧ front.length = 14 := by
        obtain ⟨l, hl, -⟩ := ds
        match l, hl with
        | d :: rest, hl =>
            have hne : rest ≠ [] := fun hnil => by simp [hnil] at hl
            refine ⟨d, rest.dropLast, rest.getLast hne, ?_, ?_⟩
            · rw [List.dropLast_append_getLast hne]
            · rw [List.length_dropLast]
              simp only [List.length_cons] at hl
              omega
      have hlt := ds.lt_ten
      rw [hds] at hlt hlen
      simp only [MobileIdentity.octets, hds] at hvalue
      obtain ⟨htype, hdigits, hlast⟩ := digitsValue_read (by decide) hfront
        (fun x hx => hlt x (List.mem_append_left [last] hx)) hvalue
      have hlow : m (p + 1 + 1 + 7) &&& 0x0F = last := by
        have hhead : m (p + 1 + 8) = octet [(4, 0xF), (4, last)] := hlast.head
        rw [hhead]
        exact low_octet (by decide) (Nat.lt_trans (hlt last (by simp)) (by decide))
      simp only [mmeUnpackMobileIdIe, htype, if_neg himsi, if_neg himei, if_true, hdigits, hlow]
      simp only [MobileIdentity.record, MobileIdentity.encode, MobileIdentity.octets,
        length_withLength, hds, hlen]
      rfl

/-- **Encoded identities are unpacked**: the type, the numbers and the digits are those of the
identity, and the pointer moves by the length of the element, whatever is in memory around. -/
theorem identities_unpacked (m : Nat → UInt8) (p : Nat) :
    (∀ (id : EpsIdentity) (old : EpsMobileId), Reads m p id.encode →
      mmeUnpackEpsMobileIdIe m p old = (id.record old, p + id.encode.length)) ∧
    (∀ (id : MobileIdentity) (old : MobileId), Reads m p id.encode →
      mmeUnpackMobileIdIe m p old = (true, id.record old, p + id.encode.length)) :=
  ⟨fun id old h => mmeUnpackEpsMobileIdIe_encode id old h,
    fun id old h => mmeUnpackMobileIdIe_encode id old h⟩

/-- A network whose MNC has two digits. -/
def samplePlmn : Plmn := ⟨⟨[4, 6, 0], rfl, by simp⟩, .two ⟨[0, 1], rfl, by simp⟩⟩

/-- A GUTI of that network. -/
def sampleGuti : EpsIdentity := .guti samplePlmn 0x8001 0x2A 0xC0FFEE01

example : sampleGuti.encode
    = [0x0B, 0xF6, 0x64, 0xF0, 0x10, 0x80, 0x01, 0x2A, 0xC0, 0xFF, 0xEE, 0x01] := by decide

/-- The software version of a device. -/
def sampleImeisv : MobileIdentity :=
  .imeisv ⟨[3, 5, 1, 7, 5, 6, 0, 5, 1, 5, 2, 3, 9, 9, 0, 1], rfl, by simp⟩

/-- Both lie in a memory that goes on behind them. -/
theorem identities_unpacked_samples :
    mmeUnpackEpsMobileIdIe (fun k => (sampleGuti.encode ++ [0x5D]).getD k 0) 0 default
        = (sampleGuti.record default, 0 + sampleGuti.encode.length) ∧
      mmeUnpackMobileIdIe (fun k => (sampleImeisv.encode ++ [0x5D]).getD k 0) 0 default
        = (true, sampleImeisv.record default, 0 + sampleImeisv.encode.length) :=
  ⟨(identities_unpacked _ 0).1 sampleGuti default (reads_getD _).left,
    (identities_unpacked _ 0).2 sampleImeisv default (reads_getD _).left⟩

end LteUlp.Nas
