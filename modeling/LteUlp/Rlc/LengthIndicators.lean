import LteUlp.Basic.Bits
import LteUlp.Rlc.Model

set_option autoImplicit false

/-! # The chain of length indicators

A PDU that holds more than one data field has pairs of an extension bit (E) and a length
indicator (LI) behind its header of two bytes, twelve bits a pair. `IsChain` says which pairs
of a PDU are a chain, `bytesRead` how many bytes the parser looks at. The parser reads no
length, so it goes on behind the end of the PDU, and it accepts a chain that is longer than
its table.
-/

namespace LteUlp.Rlc

open BitString

/-! ## Pairs -/

/-- The bit `i` of the PDU. -/
def pduBit (data : Nat → UInt8) (i : Nat) : Bool := (data (i / 8)).toNat.testBit (7 - i % 8)

/-- The extension bit of the pair `i`, and its length indicator of eleven bits. -/
def eBit (data : Nat → UInt8) (i : Nat) : Bool := pduBit data (16 + 12 * i)

def liField (data : Nat → UInt8) (i : Nat) : Nat :=
  ofBits ((List.range 11).map fun j => pduBit data (16 + 12 * i + 1 + j))

/-- The pairs from the third byte on are a chain with these length indicators, which lies
within the `length` bytes of the PDU and has room in the table. -/
structure IsChain (data : Nat → UInt8) (length : Nat) (lis : List Nat) : Prop where
  nonempty : lis ≠ []
  value : ∀ (i : Nat) (h : i < lis.length), lis[i] = liField data i
  nonzero : ∀ li ∈ lis, li ≠ 0
  extended : ∀ i, i + 1 < lis.length → eBit data i = true
  last : eBit data (lis.length - 1) = false
  within : 16 + 12 * lis.length ≤ 8 * length
  room : lis.length ≤ rlcMaxDfeInUlPdu

/-- The pair is the last one that is looked at, unless the table is full before. -/
def Stops (data : Nat → UInt8) (i : Nat) : Prop := eBit data i = false ∨ liField data i = 0

instance (data : Nat → UInt8) : DecidablePred (Stops data) := fun _ =>
  inferInstanceAs (Decidable (_ ∨ _))

/-- How many pairs `rlcLengthIndicators` looks at. -/
def pairsRead (data : Nat → UInt8) : Nat → Nat → Nat
  | 0, _ => 0
  | room + 1, i => if Stops data i ∨ room = 0 then 1 else pairsRead data room (i + 1) + 1

/-- The bytes that `RlcGetConcatenationHeaderInfo` looks at are those before this one. -/
def bytesRead (data : Nat → UInt8) : Nat := 2 + (12 * pairsRead data rlcMaxDfeInUlPdu 0 + 7) / 8

section Pairs

variable {data data' : Nat → UInt8}

theorem getEBit_eq (data : Nat → UInt8) (i : Nat) :
    getEBit (data (2 + (12 * i) >>> 3)) ((12 * i) &&& 0x7) = (eBit data i).toNat := by
  have hbyte : (16 + 12 * i) / 8 = 2 + (12 * i) >>> 3 := by
    rw [Nat.shiftRight_eq_div_pow]
    omega
  have hbit : (16 + 12 * i) % 8 = (12 * i) &&& 0x7 := by
    rw [show (0x7 : Nat) = 2 ^ 3 - 1 from rfl, Nat.and_two_pow_sub_one_eq_mod]
    omega
  unfold getEBit eBit pduBit
  rw [hbyte, hbit, Nat.toNat_testBit, Nat.shiftRight_eq_div_pow]
  exact Nat.and_one_is_mod _

/-- Eleven bits, of which the first `n` are the lowest ones of a byte. -/
theorem getLi_testBit (b b' : UInt8) {off t : Nat} (hoff : off = 0 ∨ off = 4) (ht : t < 11) :
    (getLi b b' off).testBit t
      = if t < 4 + off then b'.toNat.testBit (t + 4 - off)
        else b.toNat.testBit (t - (4 + off)) := by
  have hmask : (0x7ff : Nat).testBit t = true := by
    interval_cases t <;> rfl
  unfold getLi
  rw [Nat.testBit_and, hmask, Bool.and_true, Nat.testBit_or, Nat.testBit_shiftLeft,
    Nat.testBit_shiftRight]
  have hb' := b'.toNat_lt
  by_cases hlow : t < 4 + off
  · rw [if_pos hlow, decide_eq_false (by omega), Bool.false_and, Bool.false_or]
    congr 1
    omega
  · have hhigh : b'.toNat.testBit (4 - off + t) = false :=
      Nat.testBit_lt_two_pow (hb'.trans_le (Nat.pow_le_pow_right (by decide) (by omega)))
    rw [if_neg hlow, decide_eq_true (by omega), Bool.true_and, hhigh, Bool.or_false]

theorem getLi_lt (b b' : UInt8) (off : Nat) : getLi b b' off < 2 ^ 11 := by
  unfold getLi
  exact Nat.and_lt_two_pow _ (by decide)

theorem liField_lt (data : Nat → UInt8) (i : Nat) : liField data i < 2 ^ 11 := by
  have h := ofBits_lt ((List.range 11).map fun j => pduBit data (16 + 12 * i + 1 + j))
  rwa [List.length_map, List.length_range] at h

theorem liField_testBit (data : Nat → UInt8) (i : Nat) {t : Nat} (ht : t < 11) :
    (liField data i).testBit t = pduBit data (16 + 12 * i + 1 + (10 - t)) := by
  have h := testBit_ofBits ((List.range 11).map fun j => pduBit data (16 + 12 * i + 1 + j))
    (i := 10 - t) (by rw [List.length_map, List.length_range]; omega)
  have hpos : 11 - 1 - (10 - t) = t := by omega
  simp only [List.length_map, List.length_range, List.getElem_map, List.getElem_range, hpos] at h
  exact h

/-- **The macros read the pairs**, at both alignments. -/
theorem getLi_eq (data : Nat → UInt8) (i : Nat) :
    getLi (data (2 + (12 * i) >>> 3)) (data (2 + (12 * i) >>> 3 + 1)) ((12 * i) &&& 0x7)
      = liField data i := by
  have hstart : (12 * i) >>> 3 = 12 * i / 8 := Nat.shiftRight_eq_div_pow ..
  have hoff : (12 * i) &&& 0x7 = 12 * i % 8 := by
    rw [show (0x7 : Nat) = 2 ^ 3 - 1 from rfl, Nat.and_two_pow_sub_one_eq_mod]
  apply Nat.eq_of_testBit_eq
  intro t
  by_cases ht : t < 11
  · rw [liField_testBit data i ht, hoff, hstart, getLi_testBit _ _ (by omega) ht]
    unfold pduBit
    by_cases hlow : t < 4 + 12 * i % 8
    · have hbyte : (16 + 12 * i + 1 + (10 - t)) / 8 = 2 + 12 * i / 8 + 1 := by omega
      have hbit : 7 - (16 + 12 * i + 1 + (10 - t)) % 8 = t + 4 - 12 * i % 8 := by omega
      rw [if_pos hlow, hbyte, hbit]
    · have hbyte : (16 + 12 * i + 1 + (10 - t)) / 8 = 2 + 12 * i / 8 := by omega
      have hbit : 7 - (16 + 12 * i + 1 + (10 - t)) % 8 = t - (4 + 12 * i % 8) := by omega
      rw [if_neg hlow, hbyte, hbit]
  · have hbound : (2 : Nat) ^ 11 ≤ 2 ^ t := Nat.pow_le_pow_right (by decide) (by omega)
    rw [Nat.testBit_lt_two_pow ((getLi_lt _ _ _).trans_le hbound),
      Nat.testBit_lt_two_pow ((liField_lt data i).trans_le hbound)]

/-! ## The loop -/

/-- One pass of the loop. -/
theorem rlcLengthIndicators_succ (data : Nat → UInt8) (room i : Nat) :
    rlcLengthIndicators data (room + 1) i =
      if liField data i = 0 then none
      else if Stops data i ∨ room = 0 then some [liField data i]
      else (rlcLengthIndicators data room (i + 1)).map fun lis => liField data i :: lis := by
  rw [rlcLengthIndicators, getEBit_eq, getLi_eq]
  by_cases hli : liField data i = 0
  · rw [if_pos hli, if_pos hli]
  · have hstops : (eBit data i).toNat = 0 ↔ Stops data i := by
      unfold Stops
      cases eBit data i <;> simp [hli]
    rw [if_neg hli, if_neg hli]
    simp only [hstops]

/-- The length indicators of `n` pairs. -/
def liFields (data : Nat → UInt8) (i n : Nat) : List Nat :=
  (List.range n).map fun j => liField data (i + j)

theorem liFields_succ (data : Nat → UInt8) (i n : Nat) :
    liFields data i (n + 1) = liField data i :: liFields data (i + 1) n := by
  unfold liFields
  rw [List.range_succ_eq_map, List.map_cons, List.map_map]
  congr 1
  apply List.map_congr_left
  intro j _
  simp only [Function.comp_apply, Nat.succ_eq_add_one]
  congr 1
  ring

/-- **The loop up to the pair that stops it.** -/
theorem lengthIndicators_stop {m room i : Nat} (hm : m < room)
    (hgo : ∀ j < m, ¬Stops data (i + j)) (hstop : Stops data (i + m)) :
    rlcLengthIndicators data room i =
        (if liField data (i + m) = 0 then none else some (liFields data i (m + 1))) ∧
      pairsRead data room i = m + 1 := by
  induction m generalizing room i with
  | zero =>
      obtain ⟨room, rfl⟩ : ∃ r, room = r + 1 := ⟨room - 1, by omega⟩
      rw [add_zero] at hstop
      rw [rlcLengthIndicators_succ, pairsRead, if_pos (Or.inl hstop), if_pos (Or.inl hstop)]
      exact ⟨rfl, rfl⟩
  | succ m ih =>
      obtain ⟨room, rfl⟩ : ∃ r, room = r + 1 := ⟨room - 1, by omega⟩
      have hfirst := hgo 0 (Nat.succ_pos m)
      have hli : ¬liField data i = 0 := fun h => hfirst (Or.inr h)
      have hnot : ¬(Stops data i ∨ room = 0) := by
        rintro (h | h)
        · exact hfirst h
        · omega
      have hidx : i + (m + 1) = i + 1 + m := by ring
      obtain ⟨hlis, hread⟩ := @ih room (i + 1) (by omega)
        (fun j hj => by
          have h := hgo (j + 1) (by omega)
          rwa [show i + (j + 1) = i + 1 + j by ring] at h)
        (hidx ▸ hstop)
      rw [rlcLengthIndicators_succ, pairsRead, if_neg hli, if_neg hnot, if_neg hnot, hlis, hread,
        hidx]
      refine ⟨?_, rfl⟩
      split
      · rfl
      · rw [Option.map_some, ← liFields_succ]

/-- The loop when no pair stops it. -/
theorem lengthIndicators_full {room i : Nat} (hroom : 0 < room)
    (hgo : ∀ j < room, ¬Stops data (i + j)) :
    rlcLengthIndicators data room i = some (liFields data i room) := by
  induction room generalizing i with
  | zero => omega
  | succ room ih =>
      have hfirst := hgo 0 (Nat.succ_pos room)
      have hli : ¬liField data i = 0 := fun h => hfirst (Or.inr h)
      rw [rlcLengthIndicators_succ, if_neg hli]
      by_cases hlast : room = 0
      · subst hlast
        rw [if_pos (Or.inr rfl)]
        rfl
      · have hnot : ¬(Stops data i ∨ room = 0) := by
          rintro (h | h)
          · exact hfirst h
          · exact hlast h
        rw [if_neg hnot, ih (by omega) fun j hj => ?_, Option.map_some, liFields_succ]
        have h := hgo (j + 1) (by omega)
        rwa [show i + (j + 1) = i + 1 + j by ring] at h

/-- The loop looks at `pairsRead` pairs. -/
theorem lengthIndicators_congr (room i : Nat)
    (h : ∀ j < pairsRead data room i, eBit data (i + j) = eBit data' (i + j) ∧
      liField data (i + j) = liField data' (i + j)) :
    rlcLengthIndicators data' room i = rlcLengthIndicators data room i := by
  induction room generalizing i with
  | zero => rfl
  | succ room ih =>
      have hpos : 0 < pairsRead data (room + 1) i := by
        rw [pairsRead]
        split <;> omega
      obtain ⟨he, hli⟩ := h 0 hpos
      rw [add_zero] at he hli
      have hstops : Stops data' i ↔ Stops data i := by
        unfold Stops
        rw [he, hli]
      rw [rlcLengthIndicators_succ, rlcLengthIndicators_succ, ← hli]
      simp only [hstops]
      by_cases hlast : Stops data i ∨ room = 0
      · rw [if_pos hlast, if_pos hlast]
      · rw [if_neg hlast, if_neg hlast, ih (i + 1) fun j hj => ?_]
        have hmore := h (j + 1) (by rw [pairsRead, if_neg hlast]; omega)
        rwa [show i + (j + 1) = i + 1 + j by ring] at hmore

/-- **No byte behind `bytesRead` is looked at.** -/
theorem rlcGetConcatenationHeaderInfo_congr (h : ∀ k < bytesRead data, data k = data' k) :
    rlcGetConcatenationHeaderInfo data' = rlcGetConcatenationHeaderInfo data := by
  have hbit : ∀ i, i < 8 * bytesRead data → pduBit data i = pduBit data' i := by
    intro i hi
    unfold pduBit
    rw [h (i / 8) (by omega)]
  unfold rlcGetConcatenationHeaderInfo
  rw [lengthIndicators_congr rlcMaxDfeInUlPdu 0 fun j hj => ?_]
  unfold bytesRead at hbit
  refine ⟨hbit _ (by omega), ?_⟩
  unfold liField
  congr 1
  apply List.map_congr_left
  intro k hk
  exact hbit _ (by have := List.mem_range.mp hk; omega)

/-! ## Chains -/

/-- The bytes that are looked at lie within the PDU, and exactly the chains are accepted, with
their length indicators and the size of the header. -/
structure ReadsChains (data : Nat → UInt8) (length : Nat) : Prop where
  within : bytesRead data ≤ length
  accepts : ∀ h, rlcGetConcatenationHeaderInfo data = some h ↔
    ∃ lis, IsChain data length lis ∧ h = ⟨2 + (12 * lis.length + 7) / 8, lis⟩

theorem getVarHeaderSize_eq (k : Nat) : getVarHeaderSize (k + 1) + 2 = 2 + (12 * k + 7) / 8 := by
  unfold getVarHeaderSize
  rw [Nat.add_sub_cancel, Nat.shiftLeft_eq, Nat.shiftLeft_eq, Nat.shiftRight_eq_div_pow]
  omega

/-- The last pair of a chain stops the loop. -/
theorem IsChain.stops {length : Nat} {lis : List Nat} (h : IsChain data length lis) :
    lis.length - 1 < rlcMaxDfeInUlPdu ∧ Stops data (lis.length - 1) := by
  have hpos := List.length_pos_iff.mpr h.nonempty
  have hroom := h.room
  exact ⟨by omega, Or.inl h.last⟩

/-- A chain is what lies up to the first pair that stops the loop. -/
theorem IsChain.eq {length i : Nat} {lis : List Nat} (h : IsChain data length lis)
    (hgo : ∀ j < i, ¬Stops data j) (hstop : Stops data i) :
    liField data i ≠ 0 ∧ lis = liFields data 0 (i + 1) := by
  have hpos := List.length_pos_iff.mpr h.nonempty
  have hle : i ≤ lis.length - 1 := by
    by_contra hlt
    exact hgo _ (by omega) h.stops.2
  have hnonzero : liField data i ≠ 0 := by
    rw [← h.value i (by omega)]
    exact h.nonzero _ (List.getElem_mem _)
  have heq : lis.length = i + 1 := by
    by_contra hne
    rcases hstop with he | hli
    · rw [h.extended i (by omega)] at he
      exact absurd he (by decide)
    · exact hnonzero hli
  refine ⟨hnonzero, List.ext_getElem ?_ fun j h1 h2 => ?_⟩
  · simp [liFields, heq]
  · rw [h.value j h1]
    simp [liFields]

/-- What lies up to the first pair that stops the loop is a chain, unless it ends with an LI
of 0. -/
theorem isChain_liFields {length i : Nat} (hroom : i < rlcMaxDfeInUlPdu)
    (hgo : ∀ j < i, ¬Stops data j) (hstop : Stops data i) (hli : liField data i ≠ 0)
    (hwithin : 16 + 12 * (i + 1) ≤ 8 * length) : IsChain data length (liFields data 0 (i + 1)) := by
  have hlen : (liFields data 0 (i + 1)).length = i + 1 := by simp [liFields]
  constructor
  · exact List.ne_nil_of_length_eq_add_one hlen
  · intro j hj
    simp [liFields]
  · intro li hmem
    obtain ⟨j, hj, rfl⟩ := List.mem_map.mp hmem
    rw [Nat.zero_add]
    rcases Nat.lt_succ_iff_lt_or_eq.mp (List.mem_range.mp hj) with hlt | rfl
    · exact fun h => hgo j hlt (Or.inr h)
    · exact hli
  · intro j hj
    rw [hlen] at hj
    by_contra he
    exact hgo j (by omega) (Or.inl (by simpa using he))
  · rw [hlen, Nat.add_sub_cancel]
    exact hstop.resolve_right hli
  · rwa [hlen]
  · rw [hlen]
    exact hroom

/-- **The chain is read exactly** if one of the pairs that lie within the PDU and have room in
the table stops the loop, and in no other case. -/
theorem readsChains_iff (data : Nat → UInt8) (length : Nat) :
    ReadsChains data length ↔
      ∃ i < rlcMaxDfeInUlPdu, Stops data i ∧ 16 + 12 * (i + 1) ≤ 8 * length := by
  by_cases hex : ∃ i, i < rlcMaxDfeInUlPdu ∧ Stops data i
  · -- the first pair that stops the loop
    obtain ⟨i, ⟨hroom, hstop⟩, hmin⟩ : ∃ i, (i < rlcMaxDfeInUlPdu ∧ Stops data i) ∧
        ∀ j < i, ¬Stops data j := by
      refine ⟨Nat.find hex, Nat.find_spec hex, fun j hj hs => Nat.find_min hex hj ⟨?_, hs⟩⟩
      exact hj.trans (Nat.find_spec hex).1
    obtain ⟨hlis, hread⟩ := lengthIndicators_stop (i := 0) hroom
      (fun j hj => by rw [Nat.zero_add]; exact hmin j hj) (by rwa [Nat.zero_add])
    rw [Nat.zero_add] at hlis
    have hbytes : bytesRead data ≤ length ↔ 16 + 12 * (i + 1) ≤ 8 * length := by
      unfold bytesRead
      rw [hread]
      omega
    constructor
    · intro h
      exact ⟨i, hroom, hstop, hbytes.mp h.within⟩
    · rintro ⟨k, hk, hks, hkl⟩
      have hik : i ≤ k := by
        by_contra hlt
        exact hmin k (by omega) hks
      have hwithin : 16 + 12 * (i + 1) ≤ 8 * length := by omega
      refine ⟨hbytes.mpr hwithin, fun h => ?_⟩
      unfold rlcGetConcatenationHeaderInfo
      rw [hlis]
      by_cases hli : liField data i = 0
      · rw [if_pos hli]
        constructor
        · simp
        · rintro ⟨lis, hchain, -⟩
          exact absurd hli (hchain.eq hmin hstop).1
      · have hchain := isChain_liFields hroom hmin hstop hli hwithin
        rw [if_neg hli, Option.map_some, getVarHeaderSize_eq]
        constructor
        · intro hh
          exact ⟨_, hchain, (Option.some.inj hh).symm⟩
        · rintro ⟨lis, hlisChain, rfl⟩
          rw [(hlisChain.eq hmin hstop).2]
  · have hgo : ∀ j < rlcMaxDfeInUlPdu, ¬Stops data (0 + j) := fun j hj hs =>
      hex ⟨j, hj, by rwa [Nat.zero_add] at hs⟩
    refine iff_of_false (fun h => ?_) fun ⟨i, hi, hs, _⟩ => hex ⟨i, hi, hs⟩
    have hfull := lengthIndicators_full (by decide) hgo
    obtain ⟨lis, hchain, -⟩ := (h.accepts _).mp (by
      unfold rlcGetConcatenationHeaderInfo
      rw [hfull]
      rfl)
    exact hex ⟨_, hchain.stops⟩

end Pairs

/-- A chain of one pair that ends behind a PDU of three bytes, and a chain without an end. -/
theorem readsChains_truncated :
    ¬ReadsChains (fun k => [0x84, 0x00, 0x00, 0x1f].getD k 0) 3 ∧
      ¬ReadsChains (fun _ => 0xff) 1000 := by
  refine ⟨fun h => absurd h.within (by decide +kernel), fun h => ?_⟩
  have hsome : (rlcGetConcatenationHeaderInfo fun _ => 0xff).isSome := by decide +kernel
  obtain ⟨lis, hchain, -⟩ := (h.accepts _).mp (Option.some_get hsome).symm
  have hbits : ∀ j < 8, (255 : Nat).testBit j = true := by decide
  have hone : eBit (fun _ => 0xff) (lis.length - 1) = true := hbits _ (by omega)
  rw [hchain.last] at hone
  exact absurd hone (by decide)

end LteUlp.Rlc
