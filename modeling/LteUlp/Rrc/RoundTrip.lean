import LteUlp.Rrc.BitReading
import LteUlp.Rrc.Model

set_option autoImplicit false

/-! # Uplink messages in unaligned PER

The two messages on the dedicated control channel are encoded as the specification of RRC
prescribes, and what the parsers return is compared with what was encoded. The identities are
returned as the parsers represent them: digits of four bits each, behind ones for those that
are missing.
-/

namespace LteUlp.Rrc

open BitString LteUlp.Nas

/-! ## Messages -/

abbrev Digit := Fin 10

/-- A PLMN identity. The MCC is optional, and so is the third digit of the MNC. -/
structure Plmn where
  mcc : Option (Digit × Digit × Digit)
  mnc : Digit × Digit × Option Digit

structure RegisteredMme where
  plmnIdentity : Option Plmn
  mmegi : UInt16
  mmec : UInt8

/-- A NAS message, with a length that one or two bytes can hold. -/
structure NasPayload where
  bytes : List UInt8
  nonempty : 1 ≤ bytes.length
  short : bytes.length < 16384

/-- An RRC connection setup complete. The selected PLMN counts from 0 here, from 1 in the
message. -/
structure SetupComplete where
  rrcTransactionId : Fin 4
  selectedPlmn : Fin 6
  registeredMme : Option RegisteredMme
  nas : NasPayload

/-! ## Encoding -/

def encodeDigits (a b c : Digit) : List Bool := natBits 4 a ++ (natBits 4 b ++ natBits 4 c)

def encodeMcc : Option (Digit × Digit × Digit) → List Bool
  | none => natBits 1 0
  | some (a, b, c) => natBits 1 1 ++ encodeDigits a b c

def encodeMnc : Digit × Digit × Option Digit → List Bool
  | (a, b, none) => natBits 1 0 ++ (natBits 4 a ++ natBits 4 b)
  | (a, b, some c) => natBits 1 1 ++ encodeDigits a b c

def encodePlmn (plmn : Plmn) : List Bool := encodeMcc plmn.mcc ++ encodeMnc plmn.mnc

/-- A presence bit, and what it announces. -/
def encodeOption {α : Type} (encode : α → List Bool) : Option α → List Bool
  | none => natBits 1 0
  | some x => natBits 1 1 ++ encode x

def encodeMme (mme : RegisteredMme) : List Bool :=
  encodeOption encodePlmn mme.plmnIdentity
    ++ (natBits 16 mme.mmegi.toNat ++ natBits 8 mme.mmec.toNat)

/-- The length determinant: one byte for lengths below 128, two bytes for the others. -/
def encodeLength (n : Nat) : List Bool :=
  if n < 128 then natBits 1 0 ++ natBits 7 n else natBits 1 1 ++ (natBits 1 0 ++ natBits 14 n)

def encodeBytes (l : List UInt8) : List Bool := l.flatMap fun b => natBits 8 b.toNat

def encodeNas (nas : NasPayload) : List Bool :=
  encodeLength nas.bytes.length ++ encodeBytes nas.bytes

/-- `UL-DCCH-Message`: the first alternative, and the message type. -/
def encodeUlDcchHeader (msgType : UInt8) : List Bool := natBits 1 0 ++ natBits 4 msgType.toNat

/-- Header, critical extensions (1), the first message of four (2), no non-critical
extensions (1), the first kind of information of three (2). -/
def encodeUlInfoTransfer (nas : NasPayload) : List Bool :=
  encodeUlDcchHeader rrcUlDcchMsgTypeUlInfoTransfer
    ++ (natBits 1 0 ++ (natBits 2 0 ++ (natBits 1 0 ++ (natBits 2 0 ++ encodeNas nas))))

/-- What follows the optional indicators of an RRC connection setup complete. -/
def encodeSetupRest (m : SetupComplete) : List Bool :=
  natBits 3 m.selectedPlmn.val
    ++ ((m.registeredMme.elim [] encodeMme) ++ encodeNas m.nas)

/-- Header, transaction, critical extensions (1), the first message of four (2), whether
there is a registered MME (1), no non-critical extensions (1). -/
def encodeSetupComplete (m : SetupComplete) : List Bool :=
  encodeUlDcchHeader rrcUlDcchMsgTypeRrcConSetupComplete
    ++ (natBits 2 m.rrcTransactionId.val ++ (natBits 1 0 ++ (natBits 2 0
    ++ (natBits 1 (m.registeredMme.isSome).toNat ++ (natBits 1 0 ++ encodeSetupRest m)))))

/-! ## What the parsers return -/

def mccValue : Option (Digit × Digit × Digit) → UInt16
  | none => 0xFFFF
  | some (a, b, c) => UInt16.ofNat (0xF000 + 256 * a.val + 16 * b.val + c.val)

def mncValue : Digit × Digit × Option Digit → UInt16
  | (a, b, none) => UInt16.ofNat (0xFF00 + 16 * a.val + b.val)
  | (a, b, some c) => UInt16.ofNat (0xF000 + 256 * a.val + 16 * b.val + c.val)

/-- The structure holds the payload. -/
structure HoldsNas (x : SimpleByteMsg) (nas : NasPayload) : Prop where
  nBytes : x.nBytes = nas.bytes.length
  msg : ∀ (i : Nat) (h : i < nas.bytes.length), x.msg i = nas.bytes[i]

/-- The structure holds the MME. -/
structure HoldsMme (x : RrcConnectionSetupComplete) (mme : RegisteredMme) : Prop where
  plmnIdPresent : x.plmnIdPresent = mme.plmnIdentity.isSome
  plmnId : ∀ plmn ∈ mme.plmnIdentity, x.plmnId = ⟨mccValue plmn.mcc, mncValue plmn.mnc⟩
  mmegi : x.mmegi = mme.mmegi
  mmec : x.mmec = mme.mmec

/-- The structure holds the message. -/
structure HoldsSetupComplete (x : RrcConnectionSetupComplete) (m : SetupComplete) : Prop where
  rrcTransactionId : x.rrcTransactionId = UInt8.ofNat m.rrcTransactionId.val
  selectedPlmnId : x.selectedPlmnId = UInt8.ofNat (m.selectedPlmn.val + 1)
  registeredMmePresent : x.registeredMmePresent = m.registeredMme.isSome
  mme : ∀ mme ∈ m.registeredMme, HoldsMme x mme
  nas : HoldsNas x.dedicatedInfoNas m.nas

/-! ## Reading the elements -/

section Reading

variable {bits : Nat → UInt8} {p : Nat} {rest : List Bool} {nBits : Int}

theorem digits_value : ∀ a b c : Digit,
    (0xF000 : UInt16) ||| ((UInt32.ofNat a.val).toUInt16 <<< 8)
      ||| ((UInt32.ofNat b.val).toUInt16 <<< 4) ||| (UInt32.ofNat c.val).toUInt16
      = UInt16.ofNat (0xF000 + 256 * a.val + 16 * b.val + c.val) := by decide +kernel

theorem twoDigits_value : ∀ a b : Digit,
    (0xFF00 : UInt16) ||| ((UInt32.ofNat a.val).toUInt16 <<< 4)
      ||| (UInt32.ofNat b.val).toUInt16 = UInt16.ofNat (0xFF00 + 16 * a.val + b.val) := by
  decide +kernel

theorem digit_lt (a : Digit) : a.val < 2 ^ 4 := by omega

theorem threeDigits_spells (a b c : Digit) (h : Spells bits p (encodeDigits a b c ++ rest)) :
    threeDigits bits p = UInt16.ofNat (0xF000 + 256 * a.val + 16 * b.val + c.val) ∧
      Spells bits (p + 12) rest := by
  simp only [encodeDigits, List.append_assoc] at h
  obtain ⟨ha, h⟩ := h.element (by decide) (digit_lt a)
  obtain ⟨hb, h⟩ := h.element (by decide) (digit_lt b)
  obtain ⟨hc, h⟩ := h.element (by decide) (digit_lt c)
  refine ⟨?_, h⟩
  rw [← digits_value a b c, ← ha, ← hb, ← hc]
  rfl

/-- The MCC, as `liblte_rrc_unpack_plmn_identity_ie` begins. -/
theorem mcc_spells (mcc : Option (Digit × Digit × Digit))
    (h : Spells bits p (encodeMcc mcc ++ rest)) :
    (if bits2Value bits p 1 = 1 then (threeDigits bits (p + 1), p + 13, nBits - 1 - 12)
      else ((0xFFFF, p + 1, nBits - 1) : UInt16 × Nat × Int))
      = (mccValue mcc, p + (encodeMcc mcc).length, nBits - (encodeMcc mcc).length) := by
  cases mcc with
  | none =>
      obtain ⟨h0, -⟩ := h.zero
      rw [if_neg (by rw [h0]; decide)]
      rfl
  | some d =>
      obtain ⟨a, b, c⟩ := d
      simp only [encodeMcc, List.append_assoc] at h
      obtain ⟨h1, h⟩ := h.one
      obtain ⟨hd, -⟩ := threeDigits_spells a b c h
      rw [if_pos h1, hd]
      show (_, p + 13, nBits - 1 - 12) = (_, p + 13, nBits - 13)
      rw [sub_sub]
      rfl

/-- The MNC, as it ends. -/
theorem mnc_spells (mnc : Digit × Digit × Option Digit) (mcc : UInt16)
    (h : Spells bits p (encodeMnc mnc ++ rest)) :
    (if bits2Value bits p 1 = 0 then
        ((⟨mcc, (0xFF00 : UInt16) ||| ((bits2Value bits (p + 1) 4).toUInt16 <<< 4)
          ||| (bits2Value bits (p + 5) 4).toUInt16⟩, p + 9, nBits - 1 - 8) :
            PlmnIdentity × Nat × Int)
      else (⟨mcc, threeDigits bits (p + 1)⟩, p + 13, nBits - 1 - 12))
      = (⟨mcc, mncValue mnc⟩, p + (encodeMnc mnc).length, nBits - (encodeMnc mnc).length) := by
  obtain ⟨a, b, third⟩ := mnc
  cases third with
  | none =>
      simp only [encodeMnc, List.append_assoc] at h
      obtain ⟨h0, h⟩ := h.zero
      obtain ⟨ha, h⟩ := h.element (by decide) (digit_lt a)
      obtain ⟨hb, -⟩ := h.element (by decide) (digit_lt b)
      rw [if_pos h0, ha, hb, twoDigits_value a b]
      show (_, p + 9, nBits - 1 - 8) = (_, p + 9, nBits - 9)
      rw [sub_sub]
      rfl
  | some c =>
      simp only [encodeMnc, List.append_assoc] at h
      obtain ⟨h1, h⟩ := h.one
      obtain ⟨hd, -⟩ := threeDigits_spells a b c h
      rw [if_neg (by rw [h1]; decide), hd]
      show (_, p + 13, nBits - 1 - 12) = (_, p + 13, nBits - 13)
      rw [sub_sub]
      rfl

/-- **The PLMN identity** is read back, and the bits left are counted down by its length. -/
theorem plmnIdentity_spells (plmn : Plmn) (h : Spells bits p (encodePlmn plmn ++ rest)) :
    rrcUnpackPlmnIdentityIe bits p nBits =
      (⟨mccValue plmn.mcc, mncValue plmn.mnc⟩, p + (encodePlmn plmn).length,
        nBits - (encodePlmn plmn).length) := by
  simp only [encodePlmn, List.append_assoc] at h
  unfold rrcUnpackPlmnIdentityIe
  simp only [mcc_spells plmn.mcc h, mnc_spells plmn.mnc (mccValue plmn.mcc) h.right]
  simp only [encodePlmn, List.length_append, Nat.cast_add, add_assoc, sub_sub]

theorem length_spells (nBits : Int) {n : Nat} (hn : n < 16384) (h : Spells bits p (encodeLength n ++ rest)) :
    dedicatedInfoNasLength bits p nBits =
      (n, p + (encodeLength n).length, nBits - (encodeLength n).length) := by
  have hvalue : (UInt32.ofNat n).toNat = n := by
    rw [UInt32.toNat_ofNat', Nat.mod_eq_of_lt (by omega)]
  unfold dedicatedInfoNasLength
  unfold encodeLength at h ⊢
  by_cases hshort : n < 128
  · rw [if_pos hshort, List.append_assoc] at h
    obtain ⟨h0, h⟩ := h.zero
    obtain ⟨hlen, -⟩ := h.element (by decide) hshort
    rw [if_pos h0, hlen, hvalue, if_pos hshort]
    simp only [List.length_append, length_natBits, Nat.cast_add, Prod.mk.injEq, true_and]
    push_cast
    ring
  · rw [if_neg hshort, List.append_assoc, List.append_assoc] at h
    obtain ⟨h1, h⟩ := h.one
    obtain ⟨h0, h⟩ := h.zero
    obtain ⟨hlen, -⟩ := h.element (by decide) hn
    rw [if_neg (by rw [h1]; decide), if_pos h0, hlen, hvalue, if_neg hshort]
    simp only [List.length_append, length_natBits, Nat.cast_add, Prod.mk.injEq, true_and]
    push_cast
    ring

theorem length_encodeBytes (l : List UInt8) : (encodeBytes l).length = 8 * l.length := by
  unfold encodeBytes
  induction l with
  | nil => rfl
  | cons b l ih =>
      rw [List.flatMap_cons, List.length_append, length_natBits, ih, List.length_cons]
      ring

theorem bytes_spells (l : List UInt8) (h : Spells bits p (encodeBytes l)) {i : Nat}
    (hi : i < l.length) : (bits2Value bits (p + 8 * i) 8).toUInt8 = l[i] := by
  induction l generalizing p i with
  | nil => simp at hi
  | cons b l ih =>
      rw [encodeBytes, List.flatMap_cons] at h
      obtain ⟨hb, h⟩ := h.element (by decide) b.toNat_lt
      cases i with
      | zero =>
          rw [Nat.mul_zero, add_zero, hb]
          simp
      | succ i =>
          have hpos : p + 8 * (i + 1) = p + 8 + 8 * i := by ring
          rw [hpos, ih h (by simpa using hi), List.getElem_cons_succ]

/-- **The NAS message** is read back if as many bits are left as it takes. -/
theorem nas_spells (nBits : Int) (nas : NasPayload) (x : SimpleByteMsg) (h : Spells bits p (encodeNas nas))
    (hfit : ((encodeNas nas).length : Int) ≤ nBits)
    (hmax : nas.bytes.length ≤ liblteMaxMsgSizeBytes) :
    ∃ y k, rrcUnpackDedicatedInfoNasIe bits p x nBits = (y, k) ∧ 0 ≤ k ∧ HoldsNas y nas := by
  have hlen := length_spells nBits nas.short h
  have hpos := nas.nonempty
  have hbytes := h.right
  rw [encodeNas, List.length_append, length_encodeBytes, Nat.cast_add] at hfit
  unfold rrcUnpackDedicatedInfoNasIe
  rw [hlen]
  simp only
  rw [if_neg (by omega)]
  refine ⟨_, _, rfl, by omega, rfl, fun i hi => ?_⟩
  simp only [if_pos hi]
  exact bytes_spells nas.bytes hbytes hi

theorem length_encodeNas_ge (nas : NasPayload) :
    8 * nas.bytes.length ≤ (encodeNas nas).length := by
  rw [encodeNas, List.length_append, length_encodeBytes]
  exact Nat.le_add_left _ _

/-- The structure with the MME in it. -/
def withMme (msg : RrcConnectionSetupComplete) (mme : RegisteredMme) :
    RrcConnectionSetupComplete :=
  { msg with
    plmnIdPresent := mme.plmnIdentity.isSome
    plmnId := mme.plmnIdentity.elim msg.plmnId fun plmn =>
      ⟨mccValue plmn.mcc, mncValue plmn.mnc⟩
    mmegi := mme.mmegi
    mmec := mme.mmec }

theorem withMme_holds (msg : RrcConnectionSetupComplete) (mme : RegisteredMme) :
    HoldsMme (withMme msg mme) mme := by
  refine ⟨rfl, fun plmn hplmn => ?_, rfl, rfl⟩
  rw [withMme, Option.mem_def.mp hplmn]
  rfl

theorem mme_spells (nBits : Int) (mme : RegisteredMme) (msg : RrcConnectionSetupComplete)
    (h : Spells bits p (encodeMme mme ++ rest)) :
    unpackMme bits p nBits msg =
      (withMme msg mme, p + (encodeMme mme).length, nBits - (encodeMme mme).length) := by
  obtain ⟨plmnIdentity, mmegi, mmec⟩ := mme
  -- the group id and the code, wherever they begin
  have hcode : ∀ q, Spells bits q (natBits 16 mmegi.toNat ++ (natBits 8 mmec.toNat ++ rest)) →
      (bits2Value bits q 16).toUInt16 = mmegi ∧ (bits2Value bits (q + 16) 8).toUInt8 = mmec := by
    intro q hq
    obtain ⟨h1, hq⟩ := hq.element (by decide) mmegi.toNat_lt
    obtain ⟨h2, -⟩ := hq.element (by decide) mmec.toNat_lt
    rw [h1, h2]
    constructor <;> simp
  simp only [encodeMme, List.append_assoc] at h
  cases plmnIdentity with
  | none =>
      obtain ⟨h0, h⟩ := h.zero
      obtain ⟨hgi, hc⟩ := hcode _ h
      have hlen : (encodeMme ⟨none, mmegi, mmec⟩).length = 25 := rfl
      simp [unpackMme, withMme, h0, hgi, hc, hlen]
      ring
  | some plmn =>
      simp only [encodeOption, List.append_assoc] at h
      obtain ⟨h1, h⟩ := h.one
      obtain ⟨hgi, hc⟩ := hcode _ h.right
      have hlen : (encodeMme ⟨some plmn, mmegi, mmec⟩).length
          = (encodePlmn plmn).length + 25 := by
        simp only [encodeMme, encodeOption, List.length_append, length_natBits]
        ring
      simp [unpackMme, withMme, h1, plmnIdentity_spells plmn h, hgi, hc, hlen]
      constructor <;> ring

/-- **An UL information transfer** is unpacked as it was encoded. -/
theorem ulInfoTransfer_spells (nas : NasPayload) (info : UlInformationTransfer) {n : Nat}
    (h : Spells bits 0 (encodeUlInfoTransfer nas))
    (hlen : (encodeUlInfoTransfer nas).length ≤ n) (hmax : n ≤ liblteMaxMsgSizeBits) :
    ∃ x, rrcUnpackUlInformationTransferMsg bits 5 (n - 5) info = (true, x) ∧
      x.dedicatedInfoType = ulInformationTransferTypeNas ∧ HoldsNas x.dedicatedInfo nas := by
  have hnas := length_encodeNas_ge nas
  have htotal : (encodeUlInfoTransfer nas).length = 11 + (encodeNas nas).length := by
    simp only [encodeUlInfoTransfer, encodeUlDcchHeader, List.length_append, length_natBits]
    ring
  have h := h.right
  obtain ⟨-, h⟩ := h.zero
  obtain ⟨-, h⟩ := h.element (by decide) (by decide)
  obtain ⟨-, h⟩ := h.zero
  obtain ⟨htype, h⟩ := h.element (by decide) (by decide)
  have htype' : bits2Value bits (5 + 4) 2 = ulInformationTransferTypeNas := htype
  obtain ⟨y, k, hy, hk, hholds⟩ := nas_spells (n - 5 - 1 - 2 - 1 - 2) nas
    info.dedicatedInfo h (by omega) (by unfold liblteMaxMsgSizeBits at hmax; omega)
  have hy' : rrcUnpackDedicatedInfoNasIe bits (5 + 6) info.dedicatedInfo
      ((n : Int) - 5 - 1 - 2 - 1 - 2) = (y, k) := hy
  unfold rrcUnpackUlInformationTransferMsg
  simp only [htype', if_true, hy']
  exact ⟨_, by rw [decide_eq_true hk], rfl, hholds⟩

/-- **An RRC connection setup complete** is unpacked as it was encoded. -/
theorem setupComplete_spells (m : SetupComplete) (msg : RrcConnectionSetupComplete) {n : Nat}
    (h : Spells bits 0 (encodeSetupComplete m))
    (hlen : (encodeSetupComplete m).length ≤ n) (hmax : n ≤ liblteMaxMsgSizeBits) :
    ∃ x, rrcUnpackRrcConnectionSetupCompleteMsg bits 5 (n - 5) msg = (true, x) ∧
      HoldsSetupComplete x m := by
  obtain ⟨tid, plmn, mme, nas⟩ := m
  have hnas := length_encodeNas_ge nas
  have htotal : (encodeSetupComplete ⟨tid, plmn, mme, nas⟩).length
      = 15 + (mme.elim [] encodeMme).length + (encodeNas nas).length := by
    simp only [encodeSetupComplete, encodeSetupRest, encodeUlDcchHeader, List.length_append,
      length_natBits]
    ring
  have h := h.right
  obtain ⟨htid, h⟩ := h.element (by decide) (tid.isLt.trans_le (by decide))
  obtain ⟨-, h⟩ := h.zero
  obtain ⟨-, h⟩ := h.element (by decide) (by decide)
  obtain ⟨hpresent, h⟩ := h.element (by decide) (Bool.toNat_lt mme.isSome)
  obtain ⟨-, h⟩ := h.zero
  obtain ⟨hplmn, h⟩ := h.element (by decide) (plmn.isLt.trans_le (by decide))
  -- the fields of the head
  have hhead : (unpackSetupHead bits 5 msg).rrcTransactionId = UInt8.ofNat tid.val ∧
      (unpackSetupHead bits 5 msg).selectedPlmnId = UInt8.ofNat (plmn.val + 1) ∧
      (unpackSetupHead bits 5 msg).registeredMmePresent = mme.isSome := by
    refine ⟨?_, ?_, ?_⟩
    · show (bits2Value bits 5 2).toUInt8 = _
      rw [show bits2Value bits 5 2 = _ from htid]
      simp
    · show (bits2Value bits (5 + 7) 3).toUInt8 + 1 = _
      rw [show bits2Value bits (5 + 7) 3 = _ from hplmn]
      simp
    · show decide (bits2Value bits (5 + 5) 1 ≠ 0) = _
      rw [show bits2Value bits (5 + 5) 1 = _ from hpresent]
      cases mme <;> rfl
  obtain ⟨h1, h2, h3⟩ := hhead
  rw [rrcUnpackRrcConnectionSetupCompleteMsg_eq]
  generalize unpackSetupHead bits 5 msg = head at h1 h2 h3 ⊢
  simp only [h3]
  unfold liblteMaxMsgSizeBits at hmax
  cases mme with
  | none =>
      simp only [Option.elim_none, List.nil_append, List.length_nil] at h htotal
      obtain ⟨y, k, hy, hk, hholds⟩ := nas_spells (n - 5 - 2 - 1 - 2 - 2 - 3) nas
        head.dedicatedInfoNas h (by omega) (by omega)
      have hy' : rrcUnpackDedicatedInfoNasIe bits (5 + 10) head.dedicatedInfoNas
          ((n : Int) - 5 - 2 - 1 - 2 - 2 - 3) = (y, k) := hy
      simp only [Option.isSome_none, Bool.false_eq_true, if_false, hy']
      exact ⟨{ head with dedicatedInfoNas := y }, by rw [decide_eq_true hk], h1, h2, h3, by simp,
        hholds⟩
  | some x =>
      simp only [Option.elim_some] at h htotal
      have hmme := mme_spells (n - 5 - 2 - 1 - 2 - 2 - 3) x head h
      have hmme' : unpackMme bits (5 + 10) ((n : Int) - 5 - 2 - 1 - 2 - 2 - 3) head
          = (withMme head x, 5 + 10 + (encodeMme x).length,
              (n : Int) - 5 - 2 - 1 - 2 - 2 - 3 - (encodeMme x).length) := hmme
      obtain ⟨y, k, hy, hk, hholds⟩ := nas_spells
        (n - 5 - 2 - 1 - 2 - 2 - 3 - (encodeMme x).length) nas
        (withMme head x).dedicatedInfoNas h.right (by omega) (by omega)
      have hy' : rrcUnpackDedicatedInfoNasIe bits (5 + 10 + (encodeMme x).length)
          (withMme head x).dedicatedInfoNas
          ((n : Int) - 5 - 2 - 1 - 2 - 2 - 3 - (encodeMme x).length) = (y, k) := hy
      simp only [Option.isSome_some, if_true, hmme', hy']
      have hmmeHolds := withMme_holds head x
      refine ⟨{ withMme head x with dedicatedInfoNas := y }, by rw [decide_eq_true hk], h1, h2,
        h3, fun z hz => ?_, hholds⟩
      obtain rfl := Option.some.inj (Option.mem_def.mp hz)
      exact ⟨hmmeHolds.plmnIdPresent, hmmeHolds.plmnId, hmmeHolds.mmegi, hmmeHolds.mmec⟩

end Reading

/-! ## The round trip -/

/-- **The messages are parsed as they were encoded**, whatever the bit buffer and the
structure held before. -/
theorem rrcRoundTrip (buff : Nat → UInt8) :
    (∀ (nas : NasPayload) (info : UlInformationTransfer),
      let l := packBytes (encodeUlInfoTransfer nas)
      l.length ≤ liblteMaxMsgSizeBytes →
        ∃ x, (asn1ParseUlInfoTransMsg buff (fun k => l.getD k 0) l.length info).2 = some x ∧
          x.dedicatedInfoType = ulInformationTransferTypeNas ∧ HoldsNas x.dedicatedInfo nas) ∧
    ∀ (m : SetupComplete) (msg : RrcConnectionSetupComplete),
      let l := packBytes (encodeSetupComplete m)
      l.length ≤ liblteMaxMsgSizeBytes →
        ∃ x, (asn1ParseRrcSetupComplMsg buff (fun k => l.getD k 0) l.length msg).2 = some x ∧
          HoldsSetupComplete x m := by
  constructor
  · intro nas info l hmax
    have hbits : l.length * 8 ≤ liblteMaxMsgSizeBits := Nat.mul_le_mul_right 8 hmax
    have hlen : (encodeUlInfoTransfer nas).length ≤ l.length * 8 := by
      rw [length_packBytes]
      omega
    obtain ⟨x, hx, hholds⟩ := ulInfoTransfer_spells nas info
      (spells_convertBytesToBitsVector buff (encodeUlInfoTransfer nas)) hlen hbits
    refine ⟨x, ?_, hholds⟩
    unfold asn1ParseUlInfoTransMsg
    simp only
    rw [if_neg (by omega)]
    simp only [hx, if_true, l]
  · intro m msg l hmax
    have hbits : l.length * 8 ≤ liblteMaxMsgSizeBits := Nat.mul_le_mul_right 8 hmax
    have hlen : (encodeSetupComplete m).length ≤ l.length * 8 := by
      rw [length_packBytes]
      omega
    obtain ⟨x, hx, hholds⟩ := setupComplete_spells m msg
      (spells_convertBytesToBitsVector buff (encodeSetupComplete m)) hlen hbits
    refine ⟨x, ?_, hholds⟩
    unfold asn1ParseRrcSetupComplMsg
    simp only
    rw [if_neg (by omega)]
    simp only [hx, if_true, l]

/-- A message with an MME of a foreign network and a NAS message of three bytes. -/
def foreignSetup : SetupComplete where
  rrcTransactionId := 1
  selectedPlmn := ⟨0, by decide⟩
  registeredMme := some ⟨some ⟨none, 0, 1, some 2⟩, 0x8001, 1⟩
  nas := ⟨[0x07, 0x41, 0x71], by decide, by decide⟩

theorem rrcRoundTrip_foreignSetup :
    ∃ x, (asn1ParseRrcSetupComplMsg (fun _ => 0)
      (fun k => (packBytes (encodeSetupComplete foreignSetup)).getD k 0)
      (packBytes (encodeSetupComplete foreignSetup)).length default).2 = some x ∧
        HoldsSetupComplete x foreignSetup :=
  (rrcRoundTrip fun _ => 0).2 foreignSetup default (by decide +kernel)

end LteUlp.Rrc
