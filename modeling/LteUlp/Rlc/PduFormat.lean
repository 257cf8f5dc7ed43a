import LteUlp.Basic.Endian
import LteUlp.Rlc.LengthIndicators
import LteUlp.Rlc.Segmentation

set_option autoImplicit false

/-! # The octets of an AMD PDU

A PDU begins with its type (D/C), the resegmentation flag (RF), the polling bit (P), two bits
that say whether the data begins and whether it ends with an SDU (FI), a bit that says
whether pairs of E and LI follow (E), and ten bits with the number (SN). The pairs have an
extension bit and the length of a field in eleven bits, for every field but the last one, and
are filled up to whole octets. The data follows (`encodePdu`). The decoder finds the fields
(`encodePdu_decodes`).
-/

namespace LteUlp.Rlc

open BitString Fragments RlcSduStatus

/-! ## Encoding -/

/-- The pairs of E and LI. -/
def pairBits : List Nat → List Bool
  | [] => []
  | li :: lis => (!lis.isEmpty) :: natBits 11 li ++ pairBits lis

section Encoding

variable {α : Type}

/-- Whether the data begins with an SDU, and whether it ends with one. -/
def begins (pdu : List (Fragment α)) : Bool := pdu.head?.elim true Fragment.first
def ends (pdu : List (Fragment α)) : Bool := pdu.getLast?.elim true Fragment.last

/-- The LIs. -/
def lisOf (pdu : List (Fragment α)) : List Nat := pdu.dropLast.map fun f => f.data.length

/-- The header. -/
def headerBits (sn : Nat) (p : Bool) (pdu : List (Fragment α)) : List Bool :=
  [true, false, p, !begins pdu, !ends pdu, !(lisOf pdu).isEmpty] ++ natBits 10 sn
    ++ pairBits (lisOf pdu)

end Encoding

/-- A PDU with these data fields. -/
def encodePdu (sn : Nat) (p : Bool) (pdu : List (Fragment UInt8)) : List UInt8 :=
  packBytes (headerBits sn p pdu) ++ symbols pdu

/-- The PDU `i` of a segmentation. -/
def Segmentation.encode (g : Segmentation) (i : Nat) : List UInt8 :=
  encodePdu (g.sn i) (g.poll i) (g.pdu i)

/-- The decoder finds these data fields in a PDU with this number. -/
def Decodes (data : Nat → UInt8) (length sn : Nat) (fs : List (RlcSduStatus × List UInt8)) :
    Prop :=
  ∃ h, rlcDecodeAmdHeader data length = some h ∧ h.dc ≠ 0 ∧ h.rf = 0 ∧ h.sn = sn ∧
    Fits data length h ∧ fields data length h = fs

/-- The PDU is ignored: it is a status PDU, a segment, or one whose LIs are not a chain. -/
def Ignored (data : Nat → UInt8) (length : Nat) : Prop :=
  ∀ h, rlcDecodeAmdHeader data length = some h →
    h.dc = 0 ∨ h.rf ≠ 0 ∨ h.e ≠ 0 ∧ rlcGetConcatenationHeaderInfo data = none

section Bits

variable {data : Nat → UInt8} {l : List Bool}

/-! ## Bits -/

@[simp] theorem length_pairBits (lis : List Nat) : (pairBits lis).length = 12 * lis.length := by
  induction lis with
  | nil => rfl
  | cons li lis ih =>
      simp [pairBits, ih]
      ring

@[simp] theorem length_headerBits {α : Type} (sn : Nat) (p : Bool) (pdu : List (Fragment α)) :
    (headerBits sn p pdu).length = 16 + 12 * (lisOf pdu).length := by
  simp only [headerBits, List.length_append, List.length_cons, List.length_nil,
    length_natBits, length_pairBits]

theorem pairBits_drop {lis : List Nat} {i : Nat} (hi : i < lis.length) :
    (pairBits lis).drop (12 * i)
      = (decide (i + 1 < lis.length)) :: natBits 11 lis[i] ++ pairBits (lis.drop (i + 1)) := by
  induction lis generalizing i with
  | nil => simp at hi
  | cons li lis ih =>
      cases i with
      | zero => cases lis <;> simp [pairBits]
      | succ i =>
          have hlen : ((!lis.isEmpty) :: natBits 11 li).length = 12 := by simp
          rw [pairBits, show 12 * (i + 1) = 12 + 12 * i by ring, ← List.drop_drop, ← hlen,
            List.drop_left, hlen, ih (by simpa using hi)]
          simp

/-- The bits that the PDU begins with. -/
def HasBits (data : Nat → UInt8) (l : List Bool) : Prop :=
  ∀ k < (packBytes l).length, data k = (packBytes l).getD k 0

theorem HasBits.pduBit (h : HasBits data l) {i : Nat} (hi : i < l.length) :
    Rlc.pduBit data i = l[i] := by
  have hbyte : data (i / 8) = (packBytes l).getD (i / 8) 0 :=
    h (i / 8) (by rw [length_packBytes]; omega)
  have hbit := congrArg UInt8.toNat (bitAt_packBytes l hi)
  unfold bitAt at hbit
  beta_reduce at hbit
  rw [bit_toNat _ (by omega), ← hbyte] at hbit
  have hinj : ∀ x y : Bool, x.toNat = y.toUInt8.toNat → x = y := by decide
  exact hinj _ _ hbit

theorem HasBits.byte (h : HasBits data l) {k : Nat} (hk : k < (l.length + 7) / 8) :
    data k = byteAt l k := by
  rw [h k (by rwa [length_packBytes])]
  simp [packBytes, List.getD_eq_getElem?_getD, hk]

/-- Bits in a row. -/
theorem HasBits.range (h : HasBits data l) {n m : Nat} (hle : n + m ≤ l.length) :
    (List.range m).map (fun j => Rlc.pduBit data (n + j)) = (l.drop n).take m := by
  apply List.ext_getElem
  · simp
    omega
  · intro i h1 h2
    have hi : i < m := by simpa using h1
    simp only [List.getElem_map, List.getElem_range, List.getElem_take, List.getElem_drop]
    exact h.pduBit (by omega)

/-! ## The header -/

/-- The first octet. -/
theorem octet_bits : ∀ p a b e c d : Bool,
    let o := UInt8.ofNat (ofBits [true, false, p, a, b, e, c, d])
    (o >>> 7) &&& 0x01 = 1 ∧ (o >>> 6) &&& 0x01 = 0 ∧
      (o >>> 3) &&& 0x03 = UInt8.ofNat (2 * a.toNat + b.toNat) ∧
      (o >>> 2) &&& 0x01 = UInt8.ofNat e.toNat ∧ (o &&& 0x03).toNat = 2 * c.toNat + d.toNat := by
  decide

/-- **The fixed part of the header.** -/
theorem header_decodes {α : Type} {sn length : Nat} {p : Bool} {pdu : List (Fragment α)}
    (hsn : sn < 1024) (hlen : 2 ≤ length) (h : HasBits data (headerBits sn p pdu)) :
    ∃ hd, rlcDecodeAmdHeader data length = some hd ∧ hd.dc = 1 ∧ hd.rf = 0 ∧ hd.sn = sn ∧
      hd.fi = UInt8.ofNat (2 * (!begins pdu).toNat + (!ends pdu).toNat) ∧
      hd.e = UInt8.ofNat (!(lisOf pdu).isEmpty).toNat := by
  have h0 : data 0 = UInt8.ofNat (ofBits [true, false, p, !begins pdu, !ends pdu,
      !(lisOf pdu).isEmpty, sn.testBit 9, sn.testBit 8]) := by
    rw [h.byte (by rw [length_headerBits]; omega)]
    rfl
  have h1 : data 1 = UInt8.ofNat (ofBits (natBits 8 sn)) := by
    rw [h.byte (by rw [length_headerBits]; omega)]
    rfl
  obtain ⟨hdc, hrf, hfi, he, hhigh⟩ := octet_bits p (!begins pdu) (!ends pdu)
    (!(lisOf pdu).isEmpty) (sn.testBit 9) (sn.testBit 8)
  rw [← h0] at hdc hrf hfi he hhigh
  have hlow : (data 1 &&& 0xff).toNat = ofBits (natBits 8 sn) := by
    have hlt := ofBits_lt (natBits 8 sn)
    rw [length_natBits] at hlt
    rw [h1, UInt8.toNat_and, UInt8.toNat_ofNat', Nat.mod_eq_of_lt hlt]
    exact Nat.and_two_pow_sub_one_of_lt_two_pow (n := 8) hlt
  have hnumber : ((data 0 &&& 0x03).toNat <<< 8) ||| (data 1 &&& 0xff).toNat = sn := by
    have hlt := ofBits_lt (natBits 8 sn)
    rw [length_natBits] at hlt
    have hall : ofBits (natBits 10 sn) = sn := ofBits_natBits hsn
    simp only [natBits, ofBits, List.length_cons, List.length_nil] at hall
    rw [hhigh, hlow, Endian.shiftLeft_or _ hlt]
    simp only [natBits, ofBits, List.length_cons, List.length_nil]
    omega
  refine ⟨⟨1, 0, (data 0 >>> 5) &&& 0x01, (data 0 >>> 3) &&& 0x03, (data 0 >>> 2) &&& 0x01, sn,
    0, 0⟩, ?_, rfl, rfl, rfl, hfi, he⟩
  unfold rlcDecodeAmdHeader
  rw [if_neg (by omega), if_neg (by omega)]
  simp only [hdc, hrf, hnumber]
  rfl

/-- **The pairs.** -/
theorem pairs_decode {α : Type} {sn : Nat} {p : Bool} {pdu : List (Fragment α)}
    (h : HasBits data (headerBits sn p pdu)) (hne : lisOf pdu ≠ [])
    (hli : ∀ li ∈ lisOf pdu, 0 < li ∧ li < 2048) (hroom : (lisOf pdu).length ≤ 256) :
    rlcGetConcatenationHeaderInfo data
      = some ⟨(packBytes (headerBits sn p pdu)).length, lisOf pdu⟩ := by
  have hbits : ∀ i (hi : i < (lisOf pdu).length), (headerBits sn p pdu).drop (16 + 12 * i)
      = (decide (i + 1 < (lisOf pdu).length)) :: natBits 11 (lisOf pdu)[i]
        ++ pairBits ((lisOf pdu).drop (i + 1)) := by
    intro i hi
    have hlen : ([true, false, p, !begins pdu, !ends pdu, !(lisOf pdu).isEmpty]
        ++ natBits 10 sn).length = 16 := by simp
    rw [← List.drop_drop, headerBits, List.drop_left' hlen, pairBits_drop hi]
  have hpair : ∀ i (hi : i < (lisOf pdu).length),
      eBit data i = decide (i + 1 < (lisOf pdu).length) ∧ liField data i = (lisOf pdu)[i] := by
    intro i hi
    have hrow := h.range (n := 16 + 12 * i) (m := 12) (by rw [length_headerBits]; omega)
    rw [hbits i hi, List.range_succ_eq_map, List.map_cons, List.map_map, List.cons_append,
      List.take_succ_cons, List.take_left' (length_natBits 11 _)] at hrow
    obtain ⟨he, hl⟩ := List.cons.inj hrow
    refine ⟨he, ?_⟩
    have hbitsLi : (List.range 11).map (fun j => Rlc.pduBit data (16 + 12 * i + 1 + j))
        = natBits 11 (lisOf pdu)[i] := by
      rw [← hl]
      apply List.map_congr_left
      intro j _
      rw [Function.comp_apply, add_assoc, add_comm 1 j]
    rw [liField, hbitsLi, ofBits_natBits (hli _ (List.getElem_mem hi)).2]
  obtain ⟨m, hm⟩ : ∃ m, (lisOf pdu).length = m + 1 :=
    Nat.exists_eq_succ_of_ne_zero fun h0 => hne (List.length_eq_zero_iff.mp h0)
  have hgo : ∀ j < m, ¬Stops data (0 + j) := by
    intro j hj hstop
    rw [Nat.zero_add] at hstop
    obtain ⟨he, hl⟩ := hpair j (by omega)
    rcases hstop with hstop | hstop
    · rw [he, decide_eq_true (by omega)] at hstop
      exact absurd hstop (by decide)
    · have := (hli _ (List.getElem_mem (by omega : j < (lisOf pdu).length))).1
      omega
  obtain ⟨hlast, hlastLi⟩ := hpair m (by omega)
  have hstop : Stops data (0 + m) := by
    rw [Nat.zero_add]
    left
    rw [hlast]
    exact decide_eq_false (by omega)
  have hpos : ¬liField data (0 + m) = 0 := by
    rw [Nat.zero_add, hlastLi]
    have := (hli _ (List.getElem_mem (by omega : m < (lisOf pdu).length))).1
    omega
  have hlis : liFields data 0 (m + 1) = lisOf pdu := by
    apply List.ext_getElem
    · simp [liFields, hm]
    · intro i h1 h2
      simp only [liFields, List.getElem_map, List.getElem_range, Nat.zero_add]
      exact (hpair i h2).2
  unfold rlcGetConcatenationHeaderInfo
  rw [(lengthIndicators_stop (by rw [rlcMaxDfeInUlPdu]; omega) hgo hstop).1, if_neg hpos, hlis,
    Option.map_some, getVarHeaderSize_eq, length_packBytes, length_headerBits]
  congr 2
  omega

end Bits

/-! ## The fields -/

section Fields

variable {α : Type} {f : Fragment α} {pdu : List (Fragment α)} {fi : UInt8}

theorem lisOf_cons (f : Fragment α) (h : pdu ≠ []) :
    lisOf (f :: pdu) = f.data.length :: lisOf pdu := by
  rw [lisOf, List.dropLast_cons_of_ne_nil h, List.map_cons, lisOf]

theorem ends_cons (f : Fragment α) (h : pdu ≠ []) : ends (f :: pdu) = ends pdu := by
  unfold ends
  rw [List.getLast?_cons_of_ne_nil h]

theorem lisOf_sum (pdu : List (Fragment α)) : (lisOf pdu).sum ≤ (symbols pdu).length := by
  induction pdu with
  | nil => simp [lisOf]
  | cons f pdu ih =>
      rw [symbols_cons, List.length_append]
      by_cases h : pdu = []
      · simp [h, lisOf]
      · rw [lisOf_cons f h, List.sum_cons]
        omega

/-- The two bits of FI. -/
theorem framing_statuses : ∀ b e : Bool,
    wholeStatus (UInt8.ofNat (2 * (!b).toNat + (!e).toNat))
        = (fieldStatus (⟨b, e, []⟩ : Fragment Unit)) ∧
      firstStatus (UInt8.ofNat (2 * (!b).toNat + (!e).toNat))
        = (fieldStatus (⟨b, true, []⟩ : Fragment Unit)) ∧
      lastStatus (UInt8.ofNat (2 * (!b).toNat + (!e).toNat))
        = (fieldStatus (⟨true, e, []⟩ : Fragment Unit)) := by
  decide

theorem fieldStatus_congr {γ : Type} {x : Fragment γ} (h1 : x.first = f.first)
    (h2 : x.last = f.last) : fieldStatus x = fieldStatus f := by
  rw [fieldStatus, fieldStatus, h1, h2]

end Fields

section Split

variable {f : Fragment UInt8} {pdu : List (Fragment UInt8)} {fi : UInt8}

/-- Fields that begin an SDU each. -/
theorem splitFields_fresh (hne : pdu ≠ []) (hal : Aligned true pdu)
    (hlast : ∀ x ∈ pdu.dropLast, x.last = true)
    (hfi : lastStatus fi = fieldStatus (⟨true, ends pdu, []⟩ : Fragment Unit)) :
    splitFields fi (lisOf pdu) amPduMapSduFull (symbols pdu)
      = pdu.map fun f => (fieldStatus f, f.data) := by
  induction pdu with
  | nil => exact absurd rfl hne
  | cons f pdu ih =>
      obtain ⟨hfirst, hal⟩ := hal
      by_cases hnil : pdu = []
      · rw [hnil] at hfi ⊢
        have hst : lastStatus fi = fieldStatus f := by
          rw [hfi]
          exact fieldStatus_congr hfirst.symm rfl
        simp [lisOf, splitFields, hst]
      · have hf : f.last = true := by
          cases h : f.last with
          | true => rfl
          | false => exact absurd (open_last hlast h) hnil
        have hst : fieldStatus f = amPduMapSduFull := by simp [fieldStatus, hfirst, hf]
        rw [hf] at hal
        rw [ends_cons f hnil] at hfi
        rw [lisOf_cons f hnil, splitFields, symbols_cons, List.take_left, List.drop_left,
          ih hnil hal (dropLast_tail hlast) hfi, List.map_cons, hst]

/-- All fields of several. -/
theorem splitFields_pdu {b : Bool} (hne : pdu ≠ []) (hal : Aligned b (f :: pdu))
    (hlast : ∀ x ∈ (f :: pdu).dropLast, x.last = true)
    (hfirst : firstStatus fi = fieldStatus (⟨f.first, true, []⟩ : Fragment Unit))
    (hfi : lastStatus fi = fieldStatus (⟨true, ends (f :: pdu), []⟩ : Fragment Unit)) :
    splitFields fi (lisOf (f :: pdu)) (firstStatus fi) (symbols (f :: pdu))
      = (f :: pdu).map fun f => (fieldStatus f, f.data) := by
  have hf : f.last = true := by
    cases h : f.last with
    | true => rfl
    | false => exact absurd (open_last hlast h) hne
  obtain ⟨-, hal⟩ := hal
  rw [hf] at hal
  rw [ends_cons f hne] at hfi
  have hst : firstStatus fi = fieldStatus f := by
    rw [hfirst]
    exact fieldStatus_congr rfl hf.symm
  rw [lisOf_cons f hne, splitFields, symbols_cons, List.take_left, List.drop_left,
    splitFields_fresh hne hal (dropLast_tail hlast) hfi, List.map_cons, hst]

end Split

/-- The bytes of a PDU in memory. -/
theorem range_map_getD {l : List UInt8} {data : Nat → UInt8}
    (h : ∀ k < l.length, data k = l.getD k 0) : (List.range l.length).map data = l := by
  apply List.ext_getElem
  · simp
  · intro i h1 h2
    rw [List.getElem_map, List.getElem_range, h i h2, List.getD_eq_getElem l 0 h2]

/-- **An encoded PDU is decoded to its fields.** -/
theorem encodePdu_decodes {sn : Nat} {p b : Bool} {pdu : List (Fragment UInt8)}
    {data : Nat → UInt8} (hsn : sn < 1024) (hne : pdu ≠ []) (hal : Aligned b pdu)
    (hlast : ∀ x ∈ pdu.dropLast, x.last = true)
    (hli : ∀ x ∈ pdu.dropLast, 0 < x.data.length ∧ x.data.length < 2048)
    (hcount : pdu.length ≤ 257)
    (hdata : ∀ k < (encodePdu sn p pdu).length, data k = (encodePdu sn p pdu).getD k 0) :
    Decodes data (encodePdu sn p pdu).length sn (pdu.map fun f => (fieldStatus f, f.data)) := by
  obtain ⟨f, rest, rfl⟩ := List.exists_cons_of_ne_nil hne
  have hbits : HasBits data (headerBits sn p (f :: rest)) := by
    intro k hk
    rw [hdata k (by rw [encodePdu, List.length_append]; omega), encodePdu,
      List.getD_append _ _ _ _ hk]
  have hhead : 2 ≤ (packBytes (headerBits sn p (f :: rest))).length := by
    rw [length_packBytes, length_headerBits]
    omega
  have hlen : (encodePdu sn p (f :: rest)).length
      = (packBytes (headerBits sn p (f :: rest))).length + (symbols (f :: rest)).length := by
    rw [encodePdu, List.length_append]
  have hall : (List.range (encodePdu sn p (f :: rest)).length).map data
      = encodePdu sn p (f :: rest) := range_map_getD hdata
  obtain ⟨hd, hdecode, hdc, hrf, hnum, hfi, he⟩ := header_decodes hsn
    (by omega : 2 ≤ (encodePdu sn p (f :: rest)).length) hbits
  obtain ⟨hwhole, hfirst, hlastStatus⟩ := framing_statuses f.first (ends (f :: rest))
  have hbegins : begins (f :: rest) = f.first := rfl
  rw [← hbegins, ← hfi] at hwhole hfirst hlastStatus
  refine ⟨hd, hdecode, by rw [hdc]; decide, hrf, hnum, ?_⟩
  unfold Fits fields
  simp only [hall]
  by_cases hrest : rest = []
  · -- a single field
    have hzero : hd.e = 0 := by
      rw [he, hrest]
      rfl
    have htwo : (packBytes (headerBits sn p (f :: rest))).length = 2 := by
      simp [hrest, lisOf]
    have hst : wholeStatus hd.fi = fieldStatus f := by
      have hends : ends (f :: rest) = f.last := by
        rw [hrest]
        rfl
      rw [hwhole, hbegins, hends]
      exact fieldStatus_congr rfl rfl
    refine ⟨Or.inl ⟨hzero, by omega⟩, ?_⟩
    rw [if_pos hzero, encodePdu, List.drop_left' htwo, hst, hrest]
    simp
  · have hlis : lisOf (f :: rest) ≠ [] := by
      rw [lisOf_cons f hrest]
      exact List.cons_ne_nil _ _
    have hone : ¬hd.e = 0 := by
      rw [he, List.isEmpty_eq_false_iff.mpr hlis]
      decide
    have hpairs := pairs_decode hbits hlis
      (fun li hmem => by
        obtain ⟨x, hx, rfl⟩ := List.mem_map.mp hmem
        exact hli x hx)
      (by
        rw [lisOf, List.length_map, List.length_dropLast]
        omega)
    refine ⟨Or.inr ⟨hone, _, hpairs, ?_⟩, ?_⟩
    · have hsum := lisOf_sum (f :: rest)
      rw [hlen]
      exact Nat.add_le_add_left hsum _
    · rw [if_neg hone, hpairs, Option.elim_some, encodePdu, List.drop_left' rfl]
      exact splitFields_pdu hrest hal hlast hfirst hlastStatus

/-- **The PDUs of a segmentation are decoded to their fields.** -/
theorem Segmentation.encode_decodes (g : Segmentation) {i : Nat} (hi : i < g.pdus.length)
    {data : Nat → UInt8} (hdata : ∀ k < (g.encode i).length, data k = (g.encode i).getD k 0) :
    Decodes data (g.encode i).length (g.sn i)
      ((g.pdu i).map fun f => (fieldStatus f, f.data)) := by
  have hmem := pdu_mem hi
  refine encodePdu_decodes (Nat.mod_lt _ (by decide)) (g.fields_ne _ hmem) (pdu_aligned hi)
    (g.completes _ hmem) (fun x hx => ⟨?_, ?_⟩) (g.count _ hmem) hdata
  · have hx' : x ∈ stream g.pieces := by
      rw [← g.carried]
      exact List.mem_flatten_of_mem hmem (List.mem_of_mem_dropLast hx)
    obtain ⟨m, hm, hxm⟩ := List.mem_flatMap.mp hx'
    exact List.length_pos_iff.mpr ((g.pieces_ne m hm).2 _ (cut_data hxm))
  · have := g.lengths _ hmem x hx
    omega

end LteUlp.Rlc
