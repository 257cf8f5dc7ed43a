import LteUlp.Basic.BitFields
import LteUlp.Dci.Riv

set_option autoImplicit false

/-! # DCI format 0

The uplink grant of a UE is a word of 32 bits: from the top a flag for the format, which is
zero, the hopping flag, the allocation with or without hopping bits, and the other fields. The
width of the allocation depends on the bandwidth. `encodeDci0` and `decodeDci0` list the fields
each on its own, and each of them undoes the other (`dci0_roundTrip`).
-/

namespace LteUlp.Dci

open BitFields

/-! ## The functions -/

def nRb1p4M : UInt8 := 6
def nRb3M : UInt8 := 15
def nRb5M : UInt8 := 25
def nRb10M : UInt8 := 50
def nRb15M : UInt8 := 75
def nRb20M : UInt8 := 100

def bitMask1 : UInt32 := 0x00000001
def bitMask2 : UInt32 := 0x00000003
def bitMask3 : UInt32 := 0x00000007
def bitMask4 : UInt32 := 0x0000000f
def bitMask5 : UInt32 := 0x0000001f
def bitMask6 : UInt32 := 0x0000003f
def bitMask7 : UInt32 := 0x0000007f
def bitMask8 : UInt32 := 0x000000ff
def bitMask9 : UInt32 := 0x000001ff
def bitMask10 : UInt32 := 0x000003ff
def bitMask11 : UInt32 := 0x000007ff
def bitMask12 : UInt32 := 0x00000fff
def bitMask13 : UInt32 := 0x00001fff

def getBitsValFromInt32 (intVal : UInt32) (offset : Nat) (bitMask : UInt32) : UInt32 :=
  (intVal >>> UInt32.ofNat (32 - offset)) &&& bitMask

def addBitsValToInt32 (intVal bitVal : UInt32) (offset : Nat) (bitMask : UInt32) : UInt32 :=
  intVal ||| ((bitVal &&& bitMask) <<< UInt32.ofNat (32 - offset))

/-- `ulIndexOrDai` is a field of the TDD build only. -/
@[ext]
structure UlDciMsg where
  freqEnabledFlag : UInt8
  freqHoppingBits : UInt8
  rbStart : UInt8
  numOfRb : UInt8
  mcs : UInt8
  ndi : UInt8
  tpc : UInt8
  cyclicShift2forDmrs : UInt8
  ulIndexOrDai : UInt8
  cqiReq : UInt8
  deriving DecidableEq

/-- The bytes of a message are zero. -/
def UlDciMsg.zero : UlDciMsg := ⟨0, 0, 0, 0, 0, 0, 0, 0, 0, 0⟩

/-- By how many bits to go on, and the mask, for the RIV without hopping, for the hopping bits,
and for the RIV behind these. -/
structure RivBits where
  plain : Nat × UInt32
  hop : Nat × UInt32
  hopRiv : Nat × UInt32

/-- The cases of the decoder. -/
def decodedRivBits (bw : UInt8) : Option RivBits :=
  if bw = nRb20M then some ⟨(13, bitMask13), (2, bitMask2), (11, bitMask11)⟩
  else if bw = nRb15M then some ⟨(12, bitMask12), (2, bitMask2), (10, bitMask10)⟩
  else if bw = nRb10M then some ⟨(11, bitMask11), (2, bitMask2), (9, bitMask9)⟩
  else if bw = nRb5M then some ⟨(9, bitMask9), (1, bitMask1), (8, bitMask8)⟩
  else if bw = nRb3M then some ⟨(7, bitMask7), (1, bitMask1), (6, bitMask6)⟩
  else if bw = nRb1p4M then some ⟨(5, bitMask5), (1, bitMask1), (4, bitMask4)⟩
  else none

/-- The offset behind the RIV, the RIV, and the message with the hopping bits. -/
def decodeRiv (dciData : UInt32) (offset : Nat) (msg : UlDciMsg) :
    Option RivBits → Nat × UInt32 × UlDciMsg
  | none => (offset, 0, msg)
  | some b =>
      if msg.freqEnabledFlag = 0 then
        (offset + b.plain.1, getBitsValFromInt32 dciData (offset + b.plain.1) b.plain.2, msg)
      else
        (offset + b.hop.1 + b.hopRiv.1,
          getBitsValFromInt32 dciData (offset + b.hop.1 + b.hopRiv.1) b.hopRiv.2,
          { msg with
            freqHoppingBits := (getBitsValFromInt32 dciData (offset + b.hop.1) b.hop.2).toUInt8 })

/-- The fields behind the RIV. -/
def decodeRest (tdd : Bool) (dciData : UInt32) (offset : Nat) (msg : UlDciMsg) : UlDciMsg :=
  let offset := offset + 5
  let msg := { msg with mcs := (getBitsValFromInt32 dciData offset bitMask5).toUInt8 }
  let offset := offset + 1
  let msg := { msg with ndi := (getBitsValFromInt32 dciData offset bitMask1).toUInt8 }
  let offset := offset + 2
  let msg := { msg with tpc := (getBitsValFromInt32 dciData offset bitMask2).toUInt8 }
  let offset := offset + 3
  let msg :=
    { msg with cyclicShift2forDmrs := (getBitsValFromInt32 dciData offset bitMask3).toUInt8 }
  let offset := if tdd then offset + 2 else offset
  let msg :=
    if tdd then
      { msg with ulIndexOrDai := (getBitsValFromInt32 dciData offset bitMask2).toUInt8 }
    else msg
  let offset := offset + 1
  { msg with cqiReq := (getBitsValFromInt32 dciData offset bitMask1).toUInt8 }

/-- A word of another format leaves the message as it is. -/
def decodeDci0 (tdd : Bool) (bw : UInt8) (dciData : UInt32) (msg : UlDciMsg) : UlDciMsg :=
  let dciFlag := (getBitsValFromInt32 dciData 1 bitMask1).toUInt8
  if dciFlag ≠ 0 then msg
  else
    let msg := { msg with freqEnabledFlag := (getBitsValFromInt32 dciData 2 bitMask1).toUInt8 }
    let r := decodeRiv dciData 2 msg (decodedRivBits bw)
    let rb := calcRbByRiv bw r.2.1
    decodeRest tdd dciData r.1 { r.2.2 with rbStart := rb.1, numOfRb := rb.2 }

/-- The RIV that is read from a word. -/
def rivRead (bw : UInt8) (dciData : UInt32) : UInt32 :=
  (decodeRiv dciData 2
    { UlDciMsg.zero with
      freqEnabledFlag := (getBitsValFromInt32 dciData 2 bitMask1).toUInt8 }
    (decodedRivBits bw)).2.1

/-- The cases of the encoder, with the length of the message. -/
def encodedRivBits (tdd : Bool) (bw : UInt8) : Option (Nat × RivBits) :=
  if bw = nRb20M then
    some (if tdd then 31 else 28, ⟨(13, bitMask13), (2, bitMask2), (11, bitMask11)⟩)
  else if bw = nRb15M then
    some (if tdd then 30 else 27, ⟨(12, bitMask12), (2, bitMask2), (10, bitMask10)⟩)
  else if bw = nRb10M then
    some (if tdd then 29 else 27, ⟨(11, bitMask11), (2, bitMask2), (9, bitMask9)⟩)
  else if bw = nRb5M then
    some (if tdd then 27 else 25, ⟨(9, bitMask9), (1, bitMask1), (8, bitMask8)⟩)
  else if bw = nRb3M then
    some (if tdd then 25 else 22, ⟨(7, bitMask7), (1, bitMask1), (6, bitMask6)⟩)
  else if bw = nRb1p4M then
    some (if tdd then 23 else 21, ⟨(5, bitMask5), (1, bitMask1), (4, bitMask4)⟩)
  else none

/-- The offset behind the RIV, and the word with the RIV. -/
def encodeRiv (msg : UlDciMsg) (riv : UInt32) (offset : Nat) (encodedData : UInt32) :
    Option RivBits → Nat × UInt32
  | none => (offset, encodedData)
  | some b =>
      if msg.freqEnabledFlag = 0 then
        (offset + b.plain.1, addBitsValToInt32 encodedData riv (offset + b.plain.1) b.plain.2)
      else
        (offset + b.hop.1 + b.hopRiv.1,
          addBitsValToInt32
            (addBitsValToInt32 encodedData msg.freqHoppingBits.toUInt32 (offset + b.hop.1)
              b.hop.2)
            riv (offset + b.hop.1 + b.hopRiv.1) b.hopRiv.2)

/-- The fields behind the RIV. -/
def encodeRest (tdd : Bool) (msg : UlDciMsg) (offset : Nat) (encodedData : UInt32) : UInt32 :=
  let offset := offset + 5
  let encodedData := addBitsValToInt32 encodedData msg.mcs.toUInt32 offset bitMask5
  let offset := offset + 1
  let encodedData := addBitsValToInt32 encodedData msg.ndi.toUInt32 offset bitMask1
  let offset := offset + 2
  let encodedData := addBitsValToInt32 encodedData msg.tpc.toUInt32 offset bitMask2
  let offset := offset + 3
  let encodedData :=
    addBitsValToInt32 encodedData msg.cyclicShift2forDmrs.toUInt32 offset bitMask3
  let offset := if tdd then offset + 2 else offset
  let encodedData :=
    if tdd then addBitsValToInt32 encodedData msg.ulIndexOrDai.toUInt32 offset bitMask2
    else encodedData
  let offset := offset + 1
  addBitsValToInt32 encodedData msg.cqiReq.toUInt32 offset bitMask1

/-- The word, and the length, which is not written for another bandwidth. -/
def encodeDci0 (tdd : Bool) (bw : UInt8) (msg : UlDciMsg) : UInt32 × Option Nat :=
  let offset := 2
  let riv := calcRivByRb bw msg.rbStart msg.numOfRb
  let encodedData := addBitsValToInt32 0 msg.freqEnabledFlag.toUInt32 offset bitMask1
  let b := encodedRivBits tdd bw
  let r := encodeRiv msg riv offset encodedData (b.map Prod.snd)
  (encodeRest tdd msg r.1 r.2, b.map Prod.fst)

/-! ## The layout -/

/-- The bandwidths of LTE. -/
def bandwidths : List UInt8 := [nRb1p4M, nRb3M, nRb5M, nRb10M, nRb15M, nRb20M]

/-- The width of the RIV without hopping, and the number of hopping bits. -/
def rivWidth (bw : UInt8) : Nat :=
  if bw = nRb20M then 13 else if bw = nRb15M then 12 else if bw = nRb10M then 11
  else if bw = nRb5M then 9 else if bw = nRb3M then 7 else 5

def hopWidth (bw : UInt8) : Nat := if bw.toNat < 50 then 1 else 2

/-- The widths and the values of the fields: of the allocation, and of those behind it. -/
def rivFields (bw : UInt8) (msg : UlDciMsg) (riv : Nat) : List (Nat × Nat) :=
  if msg.freqEnabledFlag = 0 then [(rivWidth bw, riv)]
  else [(hopWidth bw, msg.freqHoppingBits.toNat), (rivWidth bw - hopWidth bw, riv)]

def restFields (tdd : Bool) (msg : UlDciMsg) : List (Nat × Nat) :=
  [(5, msg.mcs.toNat), (1, msg.ndi.toNat), (2, msg.tpc.toNat), (3, msg.cyclicShift2forDmrs.toNat)]
    ++ if tdd then [(2, msg.ulIndexOrDai.toNat), (1, msg.cqiReq.toNat)]
      else [(1, msg.cqiReq.toNat)]

/-- The fields below the top bit. -/
def fieldsOf (tdd : Bool) (bw : UInt8) (msg : UlDciMsg) (riv : Nat) : List (Nat × Nat) :=
  (1, msg.freqEnabledFlag.toNat) :: (rivFields bw msg riv ++ restFields tdd msg)

/-! ## Bits of a word -/

section Bits

variable {n v mask : UInt32} {offset w : Nat}

theorem toNat_getBits (hpos : 1 ≤ offset) (hle : offset ≤ 32) (hmask : mask.toNat = 2 ^ w - 1) :
    (getBitsValFromInt32 n offset mask).toNat = read n.toNat (32 - offset) w := by
  have hshift : (UInt32.ofNat (32 - offset)).toNat % 32 = 32 - offset := by
    rw [UInt32.toNat_ofNat']
    omega
  rw [getBitsValFromInt32, UInt32.toNat_and, UInt32.toNat_shiftRight, hshift, hmask,
    Nat.and_two_pow_sub_one_eq_mod, Nat.shiftRight_eq_div_pow, BitFields.read]

theorem read_lt (n pos width : Nat) : read n pos width < 2 ^ width :=
  Nat.mod_lt _ (Nat.two_pow_pos width)

/-- A field that is kept in a byte. -/
theorem toNat_getByte (hpos : 1 ≤ offset) (hle : offset ≤ 32) (hw : w ≤ 8)
    (hmask : mask.toNat = 2 ^ w - 1) :
    (getBitsValFromInt32 n offset mask).toUInt8.toNat = read n.toNat (32 - offset) w := by
  have hlt : read n.toNat (32 - offset) w < 2 ^ 8 :=
    (read_lt _ _ _).trans_le (Nat.pow_le_pow_right (by decide) hw)
  rw [UInt32.toNat_toUInt8, toNat_getBits hpos hle hmask, Nat.mod_eq_of_lt hlt]

theorem toNat_addBits (hpos : 1 ≤ offset) (hw : w ≤ offset) (hle : offset ≤ 32)
    (hmask : mask.toNat = 2 ^ w - 1) :
    (addBitsValToInt32 n v offset mask).toNat = add n.toNat ⟨32 - offset, w, v.toNat⟩ := by
  have hshift : (UInt32.ofNat (32 - offset)).toNat % 32 = 32 - offset := by
    rw [UInt32.toNat_ofNat']
    omega
  have hlt : (v.toNat % 2 ^ w) <<< (32 - offset) < 2 ^ 32 := by
    rw [Nat.shiftLeft_eq]
    calc v.toNat % 2 ^ w * 2 ^ (32 - offset)
        < 2 ^ w * 2 ^ (32 - offset) :=
          Nat.mul_lt_mul_of_pos_right (Nat.mod_lt _ (Nat.two_pow_pos w)) (Nat.two_pow_pos _)
      _ = 2 ^ (w + (32 - offset)) := (pow_add 2 _ _).symm
      _ ≤ 2 ^ 32 := Nat.pow_le_pow_right (by decide) (by omega)
  rw [addBitsValToInt32, UInt32.toNat_or, UInt32.toNat_shiftLeft, hshift, UInt32.toNat_and, hmask,
    Nat.and_two_pow_sub_one_eq_mod, Nat.mod_eq_of_lt hlt, add]

end Bits

/-! ## The two lists -/

/-- The cases for a bandwidth list the same bits, as many as in the layout. -/
structure RivBits.Layout (b : RivBits) (r h : Nat) : Prop where
  plain : b.plain.1 = r ∧ b.plain.2.toNat = 2 ^ r - 1
  hop : b.hop.1 = h ∧ b.hop.2.toNat = 2 ^ h - 1
  hopRiv : b.hopRiv.1 = r - h ∧ b.hopRiv.2.toNat = 2 ^ (r - h) - 1
  pos : 1 ≤ h ∧ h < r
  short : h ≤ 8 ∧ r ≤ 13

section Layout

variable {tdd : Bool} {bw : UInt8} {b : RivBits} {msg : UlDciMsg} {riv n acc : UInt32}
  {offset : Nat}

theorem rivBits_layout (tdd : Bool) (hbw : bw ∈ bandwidths) :
    ∃ b length, decodedRivBits bw = some b ∧ encodedRivBits tdd bw = some (length, b) ∧
      b.Layout (rivWidth bw) (hopWidth bw) := by
  simp only [bandwidths, List.mem_cons, List.not_mem_nil, or_false] at hbw
  rcases hbw with rfl | rfl | rfl | rfl | rfl | rfl <;>
    exact ⟨_, _, rfl, rfl, by decide, by decide, by decide, by decide, by decide⟩

theorem rowWidth_rivFields (hb : b.Layout (rivWidth bw) (hopWidth bw)) (msg : UlDciMsg)
    (riv : Nat) : rowWidth (rivFields bw msg riv) = rivWidth bw := by
  have hlt := hb.pos.2
  unfold rivFields
  split
  · rfl
  · rw [rowWidth_cons, rowWidth_cons, rowWidth_nil, Nat.add_zero]
    omega

/-- The fields of the allocation, as the encoder adds them. -/
theorem encodeRiv_eq (msg : UlDciMsg) (riv acc : UInt32) (hb : b.Layout (rivWidth bw) (hopWidth bw)) (hpos : 1 ≤ offset)
    (hle : offset + rivWidth bw ≤ 32) :
    (encodeRiv msg riv offset acc (some b)).1 = offset + rivWidth bw ∧
      (encodeRiv msg riv offset acc (some b)).2.toNat
        = (row (32 - offset) (rivFields bw msg riv.toNat)).foldl add acc.toNat := by
  obtain ⟨⟨hp, hpm⟩, ⟨hh, hhm⟩, ⟨hr, hrm⟩, ⟨hh1, hhr⟩, -⟩ := hb
  unfold encodeRiv rivFields
  by_cases hflag : msg.freqEnabledFlag = 0
  · simp only [if_pos hflag, hp, true_and]
    rw [toNat_addBits (w := rivWidth bw) (by omega) (by omega) hle hpm, Nat.sub_add_eq]
    rfl
  · have hsum : offset + hopWidth bw + (rivWidth bw - hopWidth bw) = offset + rivWidth bw := by
      omega
    simp only [if_neg hflag, hh, hr]
    refine ⟨hsum, ?_⟩
    rw [toNat_addBits (w := rivWidth bw - hopWidth bw) (by omega) (by omega) (by omega) hrm,
      toNat_addBits (w := hopWidth bw) (by omega) (by omega) (by omega) hhm]
    simp only [Nat.sub_add_eq]
    rfl

/-- Those behind it. -/
theorem encodeRest_eq (hpos : 1 ≤ offset) (hle : offset + 14 ≤ 32) :
    (encodeRest tdd msg offset acc).toNat
      = (row (32 - offset) (restFields tdd msg)).foldl add acc.toNat := by
  cases tdd with
  | false =>
      simp only [encodeRest, Bool.false_eq_true, if_false]
      rw [toNat_addBits (w := 1) (by omega) (by omega) (by omega) (by decide),
        toNat_addBits (w := 3) (by omega) (by omega) (by omega) (by decide),
        toNat_addBits (w := 2) (by omega) (by omega) (by omega) (by decide),
        toNat_addBits (w := 1) (by omega) (by omega) (by omega) (by decide),
        toNat_addBits (w := 5) (by omega) (by omega) (by omega) (by decide)]
      simp only [Nat.sub_add_eq]
      rfl
  | true =>
      simp only [encodeRest, if_true]
      rw [toNat_addBits (w := 1) (by omega) (by omega) (by omega) (by decide),
        toNat_addBits (w := 2) (by omega) (by omega) (by omega) (by decide),
        toNat_addBits (w := 3) (by omega) (by omega) (by omega) (by decide),
        toNat_addBits (w := 2) (by omega) (by omega) (by omega) (by decide),
        toNat_addBits (w := 1) (by omega) (by omega) (by omega) (by decide),
        toNat_addBits (w := 5) (by omega) (by omega) (by omega) (by decide)]
      simp only [Nat.sub_add_eq]
      rfl

/-- **The encoder makes the word of the fields.** -/
theorem encodeDci0_eq (tdd : Bool) (hbw : bw ∈ bandwidths) (msg : UlDciMsg) :
    (encodeDci0 tdd bw msg).1.toNat
      = word (row 31 (fieldsOf tdd bw msg (calcRivByRb bw msg.rbStart msg.numOfRb).toNat)) := by
  obtain ⟨b, length, -, henc, hb⟩ := rivBits_layout tdd hbw
  have hr := hb.short.2
  unfold encodeDci0
  simp only [henc, Option.map_some]
  obtain ⟨hoff, hriv⟩ := encodeRiv_eq msg (calcRivByRb bw msg.rbStart msg.numOfRb)
    (addBitsValToInt32 0 msg.freqEnabledFlag.toUInt32 2 bitMask1) hb (show 1 ≤ 2 by omega)
    (by omega)
  rw [encodeRest_eq (by omega) (by omega), hoff, hriv,
    toNat_addBits (w := 1) (by omega) (by omega) (by omega) (by decide), word, fieldsOf, row,
    List.foldl_cons, row_append, List.foldl_append, rowWidth_rivFields hb, Nat.sub_add_eq]
  rfl

/-- What the decoder finds of the allocation. -/
theorem decodeRiv_reads (n : UInt32) (msg : UlDciMsg) (hb : b.Layout (rivWidth bw) (hopWidth bw)) (hpos : 1 ≤ offset)
    (hle : offset + rivWidth bw ≤ 32) :
    (decodeRiv n offset msg (some b)).1 = offset + rivWidth bw ∧
      ∀ f ∈ row (32 - offset) (rivFields bw (decodeRiv n offset msg (some b)).2.2
        (decodeRiv n offset msg (some b)).2.1.toNat), read n.toNat f.pos f.width = f.value := by
  obtain ⟨⟨hp, hpm⟩, ⟨hh, hhm⟩, ⟨hr, hrm⟩, ⟨hh1, hhr⟩, ⟨hh8, -⟩⟩ := hb
  unfold decodeRiv rivFields
  by_cases hflag : msg.freqEnabledFlag = 0
  · simp only [if_pos hflag, hp, row, List.forall_mem_singleton, true_and]
    rw [toNat_getBits (w := rivWidth bw) (by omega) hle hpm, Nat.sub_add_eq]
  · have hsum : offset + hopWidth bw + (rivWidth bw - hopWidth bw) = offset + rivWidth bw := by
      omega
    simp only [if_neg hflag, hh, hr, row, List.forall_mem_cons, List.not_mem_nil,
      false_implies, implies_true, and_true]
    refine ⟨hsum, ?_, ?_⟩
    · rw [toNat_getByte (w := hopWidth bw) (by omega) (by omega) hh8 hhm, Nat.sub_add_eq]
    · rw [toNat_getBits (w := rivWidth bw - hopWidth bw) (by omega) (by omega) hrm,
        Nat.sub_add_eq, Nat.sub_add_eq]

/-- And of the fields behind it. -/
theorem decodeRest_reads (n : UInt32) (msg : UlDciMsg) (hpos : 1 ≤ offset) (hle : offset + 14 ≤ 32) :
    ∀ f ∈ row (32 - offset) (restFields tdd (decodeRest tdd n offset msg)),
      read n.toNat f.pos f.width = f.value := by
  cases tdd with
  | false =>
      simp only [decodeRest, restFields, row, Bool.false_eq_true, if_false, List.cons_append,
        List.nil_append, List.forall_mem_cons, List.not_mem_nil, false_implies, implies_true,
        and_true]
      rw [toNat_getByte (w := 5) (by omega) (by omega) (by omega) (by decide),
        toNat_getByte (w := 1) (by omega) (by omega) (by omega) (by decide),
        toNat_getByte (w := 2) (by omega) (by omega) (by omega) (by decide),
        toNat_getByte (w := 3) (by omega) (by omega) (by omega) (by decide),
        toNat_getByte (w := 1) (by omega) (by omega) (by omega) (by decide)]
      simp only [Nat.sub_add_eq, and_self]
  | true =>
      simp only [decodeRest, restFields, row, if_true, List.cons_append, List.nil_append,
        List.forall_mem_cons, List.not_mem_nil, false_implies, implies_true, and_true]
      rw [toNat_getByte (w := 5) (by omega) (by omega) (by omega) (by decide),
        toNat_getByte (w := 1) (by omega) (by omega) (by omega) (by decide),
        toNat_getByte (w := 2) (by omega) (by omega) (by omega) (by decide),
        toNat_getByte (w := 3) (by omega) (by omega) (by omega) (by decide),
        toNat_getByte (w := 2) (by omega) (by omega) (by omega) (by decide),
        toNat_getByte (w := 1) (by omega) (by omega) (by omega) (by decide)]
      simp only [Nat.sub_add_eq, and_self]

/-- The fields that are read before stay. -/
theorem decodeRest_keeps (tdd : Bool) (n : UInt32) (offset : Nat) (msg : UlDciMsg) :
    (decodeRest tdd n offset msg).freqEnabledFlag = msg.freqEnabledFlag ∧
      (decodeRest tdd n offset msg).freqHoppingBits = msg.freqHoppingBits ∧
      (decodeRest tdd n offset msg).rbStart = msg.rbStart ∧
      (decodeRest tdd n offset msg).numOfRb = msg.numOfRb ∧
      (tdd = false → (decodeRest tdd n offset msg).ulIndexOrDai = msg.ulIndexOrDai) := by
  cases tdd <;> exact ⟨rfl, rfl, rfl, rfl, fun h => by cases h <;> rfl⟩

theorem decodeRiv_keeps (n : UInt32) (offset : Nat) (msg : UlDciMsg) (o : Option RivBits) :
    (decodeRiv n offset msg o).2.2.freqEnabledFlag = msg.freqEnabledFlag ∧
      (msg.freqEnabledFlag = 0 →
        (decodeRiv n offset msg o).2.2.freqHoppingBits = msg.freqHoppingBits) ∧
      (decodeRiv n offset msg o).2.2.ulIndexOrDai = msg.ulIndexOrDai := by
  cases o with
  | none => exact ⟨rfl, fun _ => rfl, rfl⟩
  | some b =>
      rw [decodeRiv]
      by_cases hflag : msg.freqEnabledFlag = 0
      · rw [if_pos hflag]
        exact ⟨rfl, fun _ => rfl, rfl⟩
      · rw [if_neg hflag]
        exact ⟨rfl, fun h => absurd h hflag, rfl⟩

/-- **The decoder reads the fields of the word.** -/
theorem decodeDci0_reads (tdd : Bool) (hbw : bw ∈ bandwidths) (hn : n.toNat < 2 ^ 31) :
    (∀ f ∈ row 31 (fieldsOf tdd bw (decodeDci0 tdd bw n .zero) (rivRead bw n).toNat),
        read n.toNat f.pos f.width = f.value) ∧
      calcRbByRiv bw (rivRead bw n)
        = ((decodeDci0 tdd bw n .zero).rbStart, (decodeDci0 tdd bw n .zero).numOfRb) ∧
      ((decodeDci0 tdd bw n .zero).freqEnabledFlag = 0 →
        (decodeDci0 tdd bw n .zero).freqHoppingBits = 0) ∧
      (tdd = false → (decodeDci0 tdd bw n .zero).ulIndexOrDai = 0) := by
  obtain ⟨b, length, hdec, -, hb⟩ := rivBits_layout tdd hbw
  have hr := hb.short.2
  have hzero : (getBitsValFromInt32 n 1 bitMask1).toUInt8 = 0 := by
    apply UInt8.toNat_inj.mp
    rw [toNat_getByte (w := 1) (by omega) (by omega) (by omega) (by decide), BitFields.read,
      Nat.div_eq_of_lt hn]
    rfl
  -- the message with the hopping flag, and what is found of the allocation
  obtain ⟨first, hfirst⟩ : ∃ m : UlDciMsg, m = { UlDciMsg.zero with
    freqEnabledFlag := (getBitsValFromInt32 n 2 bitMask1).toUInt8 } := ⟨_, rfl⟩
  have hfound : decodeDci0 tdd bw n .zero
      = decodeRest tdd n (decodeRiv n 2 first (some b)).1
        { (decodeRiv n 2 first (some b)).2.2 with
          rbStart := (calcRbByRiv bw (decodeRiv n 2 first (some b)).2.1).1
          numOfRb := (calcRbByRiv bw (decodeRiv n 2 first (some b)).2.1).2 } := by
    unfold decodeDci0
    simp only [hzero, ne_eq, not_true_eq_false, if_false, hdec, hfirst]
  have hriv : rivRead bw n = (decodeRiv n 2 first (some b)).2.1 := by
    rw [rivRead, hdec, hfirst]
  obtain ⟨hoff, hreads⟩ := decodeRiv_reads n first hb (show 1 ≤ 2 by omega)
    (by omega)
  obtain ⟨hflag, hhop, hdai⟩ := decodeRiv_keeps n 2 first (some b)
  obtain ⟨kflag, khop, kstart, knum, kdai⟩ := decodeRest_keeps tdd n
    (decodeRiv n 2 first (some b)).1
    { (decodeRiv n 2 first (some b)).2.2 with
      rbStart := (calcRbByRiv bw (decodeRiv n 2 first (some b)).2.1).1
      numOfRb := (calcRbByRiv bw (decodeRiv n 2 first (some b)).2.1).2 }
  rw [← hfound] at kflag khop kstart knum kdai
  have hfirstFlag : first.freqEnabledFlag = (getBitsValFromInt32 n 2 bitMask1).toUInt8 := by
    rw [hfirst]
  refine ⟨?_, ?_, fun h => ?_, fun h => ?_⟩
  · have hsame : rivFields bw (decodeDci0 tdd bw n .zero) (rivRead bw n).toNat
        = rivFields bw (decodeRiv n 2 first (some b)).2.2
          (decodeRiv n 2 first (some b)).2.1.toNat := by
      rw [rivFields, rivFields, kflag, khop, hriv]
    rw [fieldsOf, row, List.forall_mem_cons, row_append, List.forall_mem_append]
    refine ⟨?_, ?_, ?_⟩
    · show read n.toNat 30 1 = (decodeDci0 tdd bw n .zero).freqEnabledFlag.toNat
      rw [kflag, hflag, hfirstFlag,
        toNat_getByte (w := 1) (by omega) (by omega) (by omega) (by decide)]
    · rw [hsame]
      exact hreads
    · rw [rowWidth_rivFields hb, hfound]
      rw [hoff, show 31 - 1 - rivWidth bw = 32 - (2 + rivWidth bw) by omega]
      exact decodeRest_reads n _ (by omega) (by omega)
  · rw [kstart, knum, hriv]
  · rw [kflag, hflag] at h
    rw [khop, hhop h, hfirst]
    rfl
  · rw [kdai h, hdai, hfirst]
    rfl

theorem rowWidth_fieldsOf_eq (tdd : Bool) (hbw : bw ∈ bandwidths) (msg : UlDciMsg) (riv : Nat) :
    rowWidth (fieldsOf tdd bw msg riv) = rivWidth bw + if tdd then 15 else 13 := by
  obtain ⟨b, length, -, -, hb⟩ := rivBits_layout false hbw
  have hriv := rowWidth_rivFields hb msg riv
  have hrest : rowWidth (restFields tdd msg) = if tdd then 14 else 12 := by cases tdd <;> rfl
  have happend : rowWidth (rivFields bw msg riv ++ restFields tdd msg)
      = rowWidth (rivFields bw msg riv) + rowWidth (restFields tdd msg) := by
    rw [rowWidth, List.map_append, List.sum_append, rowWidth, rowWidth]
  rw [fieldsOf, rowWidth_cons, happend, hriv, hrest]
  cases tdd <;> simp <;> omega

theorem rowWidth_fieldsOf (tdd : Bool) (hbw : bw ∈ bandwidths) (msg : UlDciMsg) (riv : Nat) :
    rowWidth (fieldsOf tdd bw msg riv) ≤ 31 := by
  obtain ⟨b, length, -, -, hb⟩ := rivBits_layout false hbw
  have hr := hb.short.2
  rw [rowWidth_fieldsOf_eq tdd hbw]
  split <;> omega

/-- The announced length has room for all fields. -/
theorem encodeDci0_length (tdd : Bool) (hbw : bw ∈ bandwidths) (msg : UlDciMsg) (riv : Nat) :
    ∃ length, (encodeDci0 tdd bw msg).2 = some length ∧
      1 + rowWidth (fieldsOf tdd bw msg riv) ≤ length := by
  rw [rowWidth_fieldsOf_eq tdd hbw]
  simp only [bandwidths, List.mem_cons, List.not_mem_nil, or_false] at hbw
  rcases hbw with rfl | rfl | rfl | rfl | rfl | rfl <;> cases tdd <;>
    exact ⟨_, rfl, by decide⟩

/-- The widths of the fields are told by the hopping flag. -/
theorem map_fst_fieldsOf (tdd : Bool) (bw : UInt8) {msg msg' : UlDciMsg} (riv riv' : Nat)
    (h : msg.freqEnabledFlag = msg'.freqEnabledFlag) :
    (fieldsOf tdd bw msg riv).map Prod.fst = (fieldsOf tdd bw msg' riv').map Prod.fst := by
  unfold fieldsOf rivFields
  rw [h]
  cases tdd <;> split <;> rfl

/-- The fields tell the message, but for those that are not sent and for the allocation. -/
theorem fieldsOf_inj {d : UlDciMsg} {riv' : Nat} {riv : Nat}
    (hflag : d.freqEnabledFlag = msg.freqEnabledFlag)
    (h : fieldsOf tdd bw d riv' = fieldsOf tdd bw msg riv) :
    riv' = riv ∧ (msg.freqEnabledFlag ≠ 0 → d.freqHoppingBits = msg.freqHoppingBits) ∧
      d.mcs = msg.mcs ∧ d.ndi = msg.ndi ∧ d.tpc = msg.tpc ∧
      d.cyclicShift2forDmrs = msg.cyclicShift2forDmrs ∧
      (tdd = true → d.ulIndexOrDai = msg.ulIndexOrDai) ∧ d.cqiReq = msg.cqiReq := by
  unfold fieldsOf rivFields restFields at h
  rw [hflag] at h
  by_cases h0 : msg.freqEnabledFlag = 0 <;> cases tdd <;>
    simp_all [UInt8.toNat_inj]

end Layout

/-! ## Both ways -/

/-- The fields fit into their bits, those that are not sent are zero, and the allocation is
found again. -/
structure Encodable (tdd : Bool) (bw : UInt8) (msg : UlDciMsg) : Prop where
  fits : ∀ x ∈ fieldsOf tdd bw msg (calcRivByRb bw msg.rbStart msg.numOfRb).toNat, x.2 < 2 ^ x.1
  hopping : msg.freqEnabledFlag = 0 → msg.freqHoppingBits = 0
  absent : tdd = false → msg.ulIndexOrDai = 0
  inverted : calcRbByRiv bw (calcRivByRb bw msg.rbStart msg.numOfRb) = (msg.rbStart, msg.numOfRb)

section RoundTrip

variable {tdd : Bool} {bw : UInt8} {msg : UlDciMsg} {n : UInt32}

theorem encodeDci0_laid (hbw : bw ∈ bandwidths) (h : Encodable tdd bw msg) :
    Laid 31 (encodeDci0 tdd bw msg).1.toNat
      (row 31 (fieldsOf tdd bw msg (calcRivByRb bw msg.rbStart msg.numOfRb).toNat)) := by
  rw [encodeDci0_eq tdd hbw]
  exact word_row h.fits (rowWidth_fieldsOf tdd hbw msg _)

theorem decodeDci0_encodeDci0 (hbw : bw ∈ bandwidths) (h : Encodable tdd bw msg) :
    decodeDci0 tdd bw (encodeDci0 tdd bw msg).1 .zero = msg := by
  have hlaid := encodeDci0_laid hbw h
  obtain ⟨hreads, hrb, hhop, hdai⟩ := decodeDci0_reads tdd hbw hlaid.lt
  obtain ⟨d, hd⟩ : ∃ d, d = decodeDci0 tdd bw (encodeDci0 tdd bw msg).1 .zero := ⟨_, rfl⟩
  rw [← hd] at hreads hrb hhop hdai ⊢
  have hflag : d.freqEnabledFlag = msg.freqEnabledFlag := by
    apply UInt8.toNat_inj.mp
    have h1 := hreads ⟨30, 1, d.freqEnabledFlag.toNat⟩ List.mem_cons_self
    have h2 := hlaid.holds ⟨30, 1, msg.freqEnabledFlag.toNat⟩ List.mem_cons_self
    exact h1.symm.trans h2
  obtain ⟨hriv, hhopEq, hmcs, hndi, htpc, hcs, hdaiEq, hcqi⟩ := fieldsOf_inj hflag
    (row_unique (map_fst_fieldsOf tdd bw _ _ hflag) hreads hlaid.holds)
  rw [UInt32.toNat_inj.mp hriv, h.inverted] at hrb
  obtain ⟨hstart, hnum⟩ := Prod.mk.inj hrb
  have hhopAll : d.freqHoppingBits = msg.freqHoppingBits := by
    by_cases h0 : msg.freqEnabledFlag = 0
    · rw [hhop (hflag.trans h0), h.hopping h0]
    · exact hhopEq h0
  have hdaiAll : d.ulIndexOrDai = msg.ulIndexOrDai := by
    cases tdd with
    | false => rw [hdai rfl, h.absent rfl]
    | true => exact hdaiEq rfl
  exact UlDciMsg.ext hflag hhopAll hstart.symm hnum.symm hmcs hndi htpc hcs hdaiAll hcqi

/-- A word with no bit behind the last field. -/
theorem encodeDci0_decodeDci0 (hbw : bw ∈ bandwidths) (hn : n.toNat < 2 ^ 31)
    (hriv : calcRivByRb bw (decodeDci0 tdd bw n .zero).rbStart
      (decodeDci0 tdd bw n .zero).numOfRb = rivRead bw n)
    (hend : ∀ i < 31 - rowWidth (fieldsOf tdd bw (decodeDci0 tdd bw n .zero)
      (rivRead bw n).toNat), n.toNat.testBit i = false) :
    (encodeDci0 tdd bw (decodeDci0 tdd bw n .zero)).1 = n := by
  apply UInt32.toNat_inj.mp
  rw [encodeDci0_eq tdd hbw, hriv]
  refine word_read (decodeDci0_reads tdd hbw hn).1 fun i hi => ?_
  refine row_covers (rowWidth_fieldsOf tdd hbw _ _) ?_ ?_
  · by_contra hlt
    rw [hend i (by omega)] at hi
    cases hi
  · by_contra hge
    have hle : 2 ^ 31 ≤ 2 ^ i := Nat.pow_le_pow_right (by decide) (by omega)
    rw [Nat.testBit_lt_two_pow (hn.trans_le hle)] at hi
    cases hi

/-- **Encoder and decoder undo each other**, for every bandwidth, FDD and TDD. The fields of a
word are apart from each other and from the top bit. -/
theorem dci0_roundTrip (tdd : Bool) (hbw : bw ∈ bandwidths) :
    (∀ msg, Encodable tdd bw msg →
      decodeDci0 tdd bw (encodeDci0 tdd bw msg).1 .zero = msg ∧
      Laid 31 (encodeDci0 tdd bw msg).1.toNat
        (row 31 (fieldsOf tdd bw msg (calcRivByRb bw msg.rbStart msg.numOfRb).toNat)) ∧
      (encodeDci0 tdd bw msg).1.toNat < 2 ^ 31) ∧
    ∀ n : UInt32, n.toNat < 2 ^ 31 →
      calcRivByRb bw (decodeDci0 tdd bw n .zero).rbStart (decodeDci0 tdd bw n .zero).numOfRb
        = rivRead bw n →
      (∀ i < 31 - rowWidth (fieldsOf tdd bw (decodeDci0 tdd bw n .zero) (rivRead bw n).toNat),
        n.toNat.testBit i = false) →
      (encodeDci0 tdd bw (decodeDci0 tdd bw n .zero)).1 = n := by
  refine ⟨fun msg h => ?_, fun n hn hriv hend => encodeDci0_decodeDci0 hbw hn hriv hend⟩
  have hlaid := encodeDci0_laid hbw h
  exact ⟨decodeDci0_encodeDci0 hbw h, hlaid, hlaid.lt⟩

/-- A grant of 5 blocks of 50 with hopping, in TDD. -/
def hoppingGrant : UlDciMsg := ⟨1, 2, 10, 5, 18, 1, 1, 3, 2, 1⟩

theorem hoppingGrant_encodable : Encodable true nRb10M hoppingGrant :=
  ⟨by decide +kernel, by decide, by decide, by decide +kernel⟩

/-- The grant, and a word of FDD with 25 blocks of 50 without hopping. -/
theorem dci0_roundTrip_10M :
    decodeDci0 true nRb10M (encodeDci0 true nRb10M hoppingGrant).1 .zero = hoppingGrant ∧
      decodeDci0 false nRb10M 0x2584A800 .zero = ⟨0, 0, 0, 25, 18, 1, 1, 0, 0, 0⟩ ∧
      (encodeDci0 false nRb10M (decodeDci0 false nRb10M 0x2584A800 .zero)).1 = 0x2584A800 :=
  ⟨((dci0_roundTrip true (by decide)).1 hoppingGrant hoppingGrant_encodable).1, by decide +kernel,
    (dci0_roundTrip false (by decide)).2 _ (by decide) (by decide +kernel) (by decide +kernel)⟩

end RoundTrip

end LteUlp.Dci
