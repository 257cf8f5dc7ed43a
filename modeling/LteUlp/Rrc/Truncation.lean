import LteUlp.Rrc.BitReading

set_option autoImplicit false

/-! # Truncated messages

`ulInfoTransEnd`, `setupComplEnd` and `connReqEnd` are the positions behind the last bit that
the unpackers consume; what they return is decided by the bits before. A message that is
accepted need not reach as far: the request is not checked at all, and a NAS message may lack
its last octet if it is not aligned to the octets (`LacksOctet`).
-/

namespace LteUlp.Rrc

open LteUlp.Nas

/-! ## Where the elements end -/

/-- The length of a NAS message, and where its octets begin, if its length begins at `p`. -/
def nasBytes (bits : Nat → UInt8) (p : Nat) : Nat := (dedicatedInfoNasLength bits p 0).1
def nasStart (bits : Nat → UInt8) (p : Nat) : Nat := (dedicatedInfoNasLength bits p 0).2.1

def nasEnd (bits : Nat → UInt8) (p : Nat) : Nat := nasStart bits p + 8 * nasBytes bits p

def mccEnd (bits : Nat → UInt8) (p : Nat) : Nat :=
  if bits2Value bits p 1 = 1 then p + 13 else p + 1

def plmnEnd (bits : Nat → UInt8) (p : Nat) : Nat :=
  if bits2Value bits (mccEnd bits p) 1 = 0 then mccEnd bits p + 9 else mccEnd bits p + 13

def mmeEnd (bits : Nat → UInt8) (p : Nat) : Nat :=
  (if bits2Value bits p 1 ≠ 0 then plmnEnd bits (p + 1) else p + 1) + 24

/-- The MCC and the MNC. -/
def unpackMcc (bits : Nat → UInt8) (p : Nat) : UInt16 :=
  if bits2Value bits p 1 = 1 then threeDigits bits (p + 1) else 0xFFFF

def unpackMnc (bits : Nat → UInt8) (p : Nat) : UInt16 :=
  if bits2Value bits p 1 = 0 then
    (0xFF00 : UInt16) ||| ((bits2Value bits (p + 1) 4).toUInt16 <<< 4)
      ||| (bits2Value bits (p + 5) 4).toUInt16
  else threeDigits bits (p + 1)

/-- Where the length of the NAS message begins in an RRC connection setup complete. -/
def setupNasStart (bits : Nat → UInt8) : Nat :=
  if bits2Value bits 10 1 ≠ 0 then mmeEnd bits 15 else 15

/-- Behind the last bit that is consumed, in an UL information transfer. -/
def ulInfoTransEnd (bits : Nat → UInt8) : Nat :=
  if bits2Value bits 9 2 = ulInformationTransferTypeNas then nasEnd bits 11 else 11

/-- In an RRC connection setup complete. -/
def setupComplEnd (bits : Nat → UInt8) : Nat := nasEnd bits (setupNasStart bits)

/-- In an RRC connection request. -/
def connReqEnd : Nat := 2 + 1 + 1 + 8 + 32 + 3

/-- A message of `length` octets lacks the last octet of its NAS message, of which some bits
are there. -/
def LacksOctet (bits : Nat → UInt8) (p length : Nat) : Prop :=
  nasStart bits p % 8 ≠ 0 ∧ nasBytes bits p ≠ 0 ∧ nasStart bits p / 8 + nasBytes bits p = length

instance (bits : Nat → UInt8) (p length : Nat) : Decidable (LacksOctet bits p length) :=
  inferInstanceAs (Decidable (_ ∧ _))

section Ends

variable (bits : Nat → UInt8) (p : Nat) (nBits : Int)

theorem dedicatedInfoNasLength_eq :
    dedicatedInfoNasLength bits p nBits
      = (nasBytes bits p, nasStart bits p, nBits + p - nasStart bits p) := by
  unfold nasBytes nasStart dedicatedInfoNasLength
  split
  · simp only [Prod.mk.injEq, true_and]
    push_cast
    ring
  · split
    · simp only [Prod.mk.injEq, true_and]
      push_cast
      ring
    · simp only [Prod.mk.injEq, true_and]
      push_cast
      ring

theorem nasStart_ge : p + 2 ≤ nasStart bits p := by
  unfold nasStart dedicatedInfoNasLength
  split
  · simp
  · split <;> simp

/-- **A NAS message is accepted** if its length is there, and at most seven bits of its octets
are missing. -/
theorem rrcUnpackDedicatedInfoNasIe_left (x : SimpleByteMsg) {n : Nat}
    (hn : n ≤ liblteMaxMsgSizeBits) :
    (rrcUnpackDedicatedInfoNasIe bits p x ((n : Int) - p)).2 ≥ 0 ↔
      nasBytes bits p ≠ 0 ∧ nasStart bits p ≤ n ∧ nasEnd bits p ≤ n + 7 := by
  have hge := nasStart_ge bits p
  unfold rrcUnpackDedicatedInfoNasIe nasEnd
  rw [dedicatedInfoNasLength_eq]
  unfold liblteMaxMsgSizeBits at hn
  simp only
  split
  · simp only
    omega
  · simp only
    omega

/-- The PLMN identity, part by part. -/
theorem rrcUnpackPlmnIdentityIe_eq :
    rrcUnpackPlmnIdentityIe bits p nBits =
      (⟨unpackMcc bits p, unpackMnc bits (mccEnd bits p)⟩, plmnEnd bits p,
        nBits + p - plmnEnd bits p) := by
  unfold rrcUnpackPlmnIdentityIe plmnEnd unpackMcc unpackMnc mccEnd
  simp only
  split <;> split <;> simp only [Prod.mk.injEq, true_and] <;> push_cast <;> ring

theorem unpackMme_pointer (msg : RrcConnectionSetupComplete) :
    (unpackMme bits p nBits msg).2 = (mmeEnd bits p, nBits + p - mmeEnd bits p) := by
  unfold unpackMme mmeEnd
  simp only
  have hplmn := rrcUnpackPlmnIdentityIe_eq bits (p + 1) (nBits - 1)
  by_cases hpresent : bits2Value bits p 1 ≠ 0
  · simp only [hpresent, decide_true, if_true, ne_eq, not_false_eq_true, hplmn, Prod.mk.injEq,
      true_and]
    push_cast
    ring
  · simp only [hpresent, decide_false, Bool.false_eq_true, if_false, Prod.mk.injEq, true_and]
    push_cast
    ring

end Ends

/-! ## What is read

What the unpackers return for a message that they accept is decided by the bits before the
end. -/

section Reads

variable {bits bits' : Nat → UInt8} {e : Nat}

theorem value_congr (h : ∀ i < e, bits i = bits' i) {p n : Nat} (hle : p + n ≤ e) :
    bits2Value bits p n = bits2Value bits' p n :=
  bits2Value_congr fun i hi => h (p + i) (by omega)

theorem nasLength_congr {p : Nat} (h : ∀ i < nasStart bits p, bits i = bits' i) :
    nasBytes bits' p = nasBytes bits p ∧ nasStart bits' p = nasStart bits p := by
  have hge := nasStart_ge bits p
  have h1 := value_congr h (p := p) (n := 1) (by omega)
  have h2 := value_congr h (p := p + 1) (n := 1) (by omega)
  unfold nasStart dedicatedInfoNasLength at h
  unfold nasBytes nasStart dedicatedInfoNasLength
  rw [← h1, ← h2]
  split_ifs at h ⊢
  · exact ⟨by rw [value_congr h (p := p + 1) (n := 7) (by simp only; omega)], rfl⟩
  · exact ⟨by rw [value_congr h (p := p + 2) (n := 14) (by simp only; omega)], rfl⟩
  · exact ⟨rfl, rfl⟩

theorem nas_congr {p : Nat} (h : ∀ i < nasEnd bits p, bits i = bits' i) (x : SimpleByteMsg)
    (nBits : Int) :
    rrcUnpackDedicatedInfoNasIe bits' p x nBits = rrcUnpackDedicatedInfoNasIe bits p x nBits := by
  obtain ⟨hbytes, hstart⟩ := nasLength_congr (p := p) fun i hi => h i (by unfold nasEnd; omega)
  unfold rrcUnpackDedicatedInfoNasIe
  rw [dedicatedInfoNasLength_eq, dedicatedInfoNasLength_eq, hbytes, hstart]
  simp only
  split
  · rfl
  · refine Prod.ext ?_ rfl
    simp only [SimpleByteMsg.mk.injEq, true_and]
    funext i
    split
    · rw [value_congr h (p := nasStart bits p + 8 * i) (n := 8) (by unfold nasEnd; omega)]
    · rfl

theorem threeDigits_congr (h : ∀ i < e, bits i = bits' i) {p : Nat} (hle : p + 12 ≤ e) :
    threeDigits bits' p = threeDigits bits p := by
  unfold threeDigits
  rw [value_congr h (p := p) (by omega), value_congr h (p := p + 4) (by omega),
    value_congr h (p := p + 8) (by omega)]

theorem mccEnd_ge (bits : Nat → UInt8) (p : Nat) : p + 1 ≤ mccEnd bits p := by
  unfold mccEnd
  split <;> omega

theorem plmnEnd_ge (bits : Nat → UInt8) (p : Nat) : mccEnd bits p + 9 ≤ plmnEnd bits p := by
  unfold plmnEnd
  split <;> omega

theorem mmeEnd_ge (bits : Nat → UInt8) (p : Nat) : p + 25 ≤ mmeEnd bits p := by
  have hplmn := plmnEnd_ge bits (p + 1)
  have hmcc := mccEnd_ge bits (p + 1)
  unfold mmeEnd
  split <;> omega

theorem mcc_congr {p : Nat} (h : ∀ i < mccEnd bits p, bits i = bits' i) :
    unpackMcc bits' p = unpackMcc bits p ∧ mccEnd bits' p = mccEnd bits p := by
  have hge := mccEnd_ge bits p
  have h1 := value_congr h (p := p) (n := 1) (by omega)
  unfold mccEnd at h
  unfold unpackMcc mccEnd
  rw [← h1]
  split_ifs at h ⊢
  · exact ⟨threeDigits_congr h (by omega), rfl⟩
  · exact ⟨rfl, rfl⟩

theorem plmn_congr {p : Nat} (h : ∀ i < plmnEnd bits p, bits i = bits' i) (nBits : Int) :
    rrcUnpackPlmnIdentityIe bits' p nBits = rrcUnpackPlmnIdentityIe bits p nBits ∧
      plmnEnd bits' p = plmnEnd bits p := by
  have hge := plmnEnd_ge bits p
  obtain ⟨hmcc, hend⟩ := mcc_congr (p := p) fun i hi => h i (by omega)
  have h1 := value_congr h (p := mccEnd bits p) (n := 1) (by omega)
  have hmnc : unpackMnc bits' (mccEnd bits p) = unpackMnc bits (mccEnd bits p) ∧
      plmnEnd bits' p = plmnEnd bits p := by
    unfold plmnEnd at h
    unfold unpackMnc plmnEnd
    rw [hend, ← h1]
    split_ifs at h ⊢
    · rw [value_congr h (p := mccEnd bits p + 1) (by omega),
        value_congr h (p := mccEnd bits p + 5) (by omega)]
      exact ⟨rfl, rfl⟩
    · exact ⟨threeDigits_congr h (by omega), rfl⟩
  rw [rrcUnpackPlmnIdentityIe_eq, rrcUnpackPlmnIdentityIe_eq, hmcc, hend, hmnc.1, hmnc.2]
  exact ⟨rfl, rfl⟩

theorem mme_congr {p : Nat} (h : ∀ i < mmeEnd bits p, bits i = bits' i) (nBits : Int)
    (msg : RrcConnectionSetupComplete) :
    unpackMme bits' p nBits msg = unpackMme bits p nBits msg ∧
      mmeEnd bits' p = mmeEnd bits p := by
  have hge := mmeEnd_ge bits p
  have h1 := value_congr h (p := p) (n := 1) (by omega)
  unfold mmeEnd at h
  unfold unpackMme mmeEnd
  rw [← h1]
  by_cases hpresent : bits2Value bits p 1 ≠ 0
  · rw [if_pos hpresent] at h
    obtain ⟨hplmn, hend⟩ := plmn_congr (p := p + 1) (fun i hi => h i (by omega)) (nBits - 1)
    have hpointer : (rrcUnpackPlmnIdentityIe bits (p + 1) (nBits - 1)).2.1
        = plmnEnd bits (p + 1) := by rw [rrcUnpackPlmnIdentityIe_eq]
    simp only [hpresent, ne_eq, not_false_eq_true, decide_true, if_true, hplmn, hend, hpointer,
      and_true]
    rw [value_congr h (p := plmnEnd bits (p + 1)) (by omega),
      value_congr h (p := plmnEnd bits (p + 1) + 16) (by omega)]
  · rw [if_neg hpresent] at h
    simp only [hpresent, decide_false, Bool.false_eq_true, if_false, and_true]
    rw [value_congr h (p := p + 1) (by omega), value_congr h (p := p + 1 + 16) (by omega)]

/-- **The bits behind the end are not read**, in an UL information transfer, -/
theorem ulInfoTransfer_congr (h : ∀ i < ulInfoTransEnd bits, bits i = bits' i) (nBits : Int)
    (info : UlInformationTransfer) :
    rrcUnpackUlInformationTransferMsg bits' 5 nBits info
      = rrcUnpackUlInformationTransferMsg bits 5 nBits info := by
  have hge : 11 ≤ ulInfoTransEnd bits := by
    have hnas := nasStart_ge bits 11
    unfold ulInfoTransEnd nasEnd
    split <;> omega
  have htype := value_congr h (p := 9) (n := 2) (by omega)
  unfold ulInfoTransEnd at h
  unfold rrcUnpackUlInformationTransferMsg
  simp only [Nat.reduceAdd, ← htype]
  split_ifs at h ⊢
  · rw [nas_congr h]
  · rfl

/-- in an RRC connection setup complete, -/
theorem setupComplete_congr (h : ∀ i < setupComplEnd bits, bits i = bits' i) (nBits : Int)
    (msg : RrcConnectionSetupComplete) :
    rrcUnpackRrcConnectionSetupCompleteMsg bits' 5 nBits msg
      = rrcUnpackRrcConnectionSetupCompleteMsg bits 5 nBits msg := by
  have hnas := nasStart_ge bits (setupNasStart bits)
  have hstart : setupNasStart bits ≤ setupComplEnd bits := by
    unfold setupComplEnd nasEnd
    omega
  have hge : 15 ≤ setupNasStart bits := by
    have hmme := mmeEnd_ge bits 15
    unfold setupNasStart
    split <;> omega
  have hhead : unpackSetupHead bits' 5 msg = unpackSetupHead bits 5 msg := by
    unfold unpackSetupHead
    rw [value_congr h (p := 5) (by omega), value_congr h (p := 5 + 5) (by omega),
      value_congr h (p := 5 + 7) (by omega)]
  rw [rrcUnpackRrcConnectionSetupCompleteMsg_eq, rrcUnpackRrcConnectionSetupCompleteMsg_eq, hhead]
  have hpresent : (unpackSetupHead bits 5 msg).registeredMmePresent
      = decide (bits2Value bits 10 1 ≠ 0) := rfl
  simp only [hpresent, decide_eq_true_iff, Nat.reduceAdd]
  unfold setupComplEnd at h
  split
  · rename_i hp
    have hmme : setupNasStart bits = mmeEnd bits 15 := if_pos hp
    have hbefore : ∀ i < mmeEnd bits 15, bits i = bits' i := fun i hi => h i (by
      unfold nasEnd
      omega)
    rw [(mme_congr hbefore _ _).1, unpackMme_pointer, ← hmme, nas_congr h]
  · rename_i hp
    have hfifteen : setupNasStart bits = 15 := if_neg hp
    rw [hfifteen] at h
    simp only [nas_congr h]

/-- and in an RRC connection request. -/
theorem connectionRequest_congr (h : ∀ i < connReqEnd, bits i = bits' i)
    (req : RrcConnectionRequest) :
    rrcUnpackRrcConnectionRequestMsg bits' 2 req = rrcUnpackRrcConnectionRequestMsg bits 2 req := by
  unfold connReqEnd at h
  unfold rrcUnpackRrcConnectionRequestMsg
  rw [value_congr h (p := 2 + 1) (by omega), value_congr h (p := 2 + 2) (by omega),
    value_congr h (p := 2 + 10) (by omega), value_congr h (p := 2 + 42) (by omega)]

end Reads

/-! ## What is accepted -/

section Accepted

variable {bits : Nat → UInt8} {length : Nat}

theorem ulInfoTransfer_accepted (info : UlInformationTransfer) {n : Nat}
    (hn : n ≤ liblteMaxMsgSizeBits) :
    (rrcUnpackUlInformationTransferMsg bits 5 ((n : Int) - 5) info).1 = true ↔
      if bits2Value bits 9 2 = ulInformationTransferTypeNas then
        nasBytes bits 11 ≠ 0 ∧ nasStart bits 11 ≤ n ∧ nasEnd bits 11 ≤ n + 7
      else 11 ≤ n := by
  have hleft : ((n : Int) - 5 - 1 - 2 - 1 - 2) = n - (11 : Nat) := by
    push_cast
    ring
  unfold rrcUnpackUlInformationTransferMsg
  simp only [Nat.reduceAdd, hleft]
  split
  · rw [decide_eq_true_iff]
    exact rrcUnpackDedicatedInfoNasIe_left bits 11 info.dedicatedInfo hn
  · rw [decide_eq_true_iff]
    omega

theorem setupComplete_accepted (msg : RrcConnectionSetupComplete) {n : Nat}
    (hn : n ≤ liblteMaxMsgSizeBits) :
    (rrcUnpackRrcConnectionSetupCompleteMsg bits 5 ((n : Int) - 5) msg).1 = true ↔
      nasBytes bits (setupNasStart bits) ≠ 0 ∧ nasStart bits (setupNasStart bits) ≤ n ∧
        nasEnd bits (setupNasStart bits) ≤ n + 7 := by
  have hleft : ((n : Int) - 5 - 2 - 1 - 2 - 2 - 3) = n - (15 : Nat) := by
    push_cast
    ring
  rw [rrcUnpackRrcConnectionSetupCompleteMsg_eq]
  have hpresent : (unpackSetupHead bits 5 msg).registeredMmePresent
      = decide (bits2Value bits 10 1 ≠ 0) := rfl
  simp only [hpresent, hleft, decide_eq_true_iff, Nat.reduceAdd]
  unfold setupNasStart
  split
  · have hpointer := unpackMme_pointer bits 15 ((n : Int) - (15 : Nat)) (unpackSetupHead bits 5 msg)
    rw [sub_add_cancel] at hpointer
    rw [hpointer]
    exact rrcUnpackDedicatedInfoNasIe_left bits (mmeEnd bits 15) _ hn
  · exact rrcUnpackDedicatedInfoNasIe_left bits 15 _ hn

/-- What is accepted is there, unless the last octet is missing. -/
theorem nasEnd_le_iff (p : Nat) :
    (nasBytes bits p ≠ 0 ∧ nasStart bits p ≤ length * 8 ∧ nasEnd bits p ≤ length * 8 + 7 →
      nasEnd bits p ≤ length * 8) ↔ ¬LacksOctet bits p length := by
  unfold LacksOctet nasEnd
  constructor
  · rintro h ⟨haligned, hpos, hlen⟩
    have := h ⟨hpos, by omega, by omega⟩
    omega
  · rintro h ⟨hpos, hstart, hend⟩
    by_contra hlt
    exact h ⟨by omega, hpos, by omega⟩

end Accepted

/-- **No bit behind the message is consumed** exactly if the message is too long and refused,
or else does not lack the last octet of its NAS message, for a request if it has six octets. -/
theorem asn1Parse_within_iff (buff data : Nat → UInt8) (length : Nat) :
    let bits := convertBytesToBitsVector buff data (length * 8)
    (∀ info, ((asn1ParseUlInfoTransMsg buff data length info).2.isSome →
        ulInfoTransEnd bits ≤ length * 8) ↔
      (length > liblteMaxMsgSizeBytes ∨
        bits2Value bits 9 2 ≠ ulInformationTransferTypeNas ∨ ¬LacksOctet bits 11 length)) ∧
    (∀ msg, ((asn1ParseRrcSetupComplMsg buff data length msg).2.isSome →
        setupComplEnd bits ≤ length * 8) ↔
      (length > liblteMaxMsgSizeBytes ∨ ¬LacksOctet bits (setupNasStart bits) length)) ∧
    ∀ req, ((asn1ParseRrcConnReqMsg buff data length req).2.isSome →
        connReqEnd ≤ length * 8) ↔ (length > liblteMaxMsgSizeBytes ∨ 6 ≤ length) := by
  intro bits
  have hsome : ∀ {α : Type} (c : Bool) (x : α), (if c then some x else none).isSome ↔ c = true := by
    intro α c x
    cases c <;> simp
  by_cases hlong : length * 8 > liblteMaxMsgSizeBits
  · have hlong' : length > liblteMaxMsgSizeBytes := by
      unfold liblteMaxMsgSizeBits at hlong
      omega
    refine ⟨fun info => ?_, fun msg => ?_, fun req => ?_⟩
    · simp [asn1ParseUlInfoTransMsg, hlong, hlong']
    · simp [asn1ParseRrcSetupComplMsg, hlong, hlong']
    · simp [asn1ParseRrcConnReqMsg, hlong, hlong']
  · have hlong' : ¬length > liblteMaxMsgSizeBytes := by
      unfold liblteMaxMsgSizeBits at hlong
      omega
    have hfit : length * 8 ≤ liblteMaxMsgSizeBits := by omega
    refine ⟨fun info => ?_, fun msg => ?_, fun req => ?_⟩
    · unfold asn1ParseUlInfoTransMsg
      simp only [if_neg hlong, hsome, hlong', false_or]
      rw [ulInfoTransfer_accepted info hfit]
      unfold ulInfoTransEnd
      by_cases htype : bits2Value bits 9 2 = ulInformationTransferTypeNas
      · rw [if_pos htype, if_pos htype, nasEnd_le_iff 11]
        simp only [bits, htype, ne_eq, not_true_eq_false, false_or]
      · rw [if_neg htype, if_neg htype]
        exact iff_of_true id (Or.inl htype)
    · unfold asn1ParseRrcSetupComplMsg
      simp only [if_neg hlong, hsome, hlong', false_or]
      rw [setupComplete_accepted msg hfit]
      exact nasEnd_le_iff (setupNasStart bits)
    · unfold asn1ParseRrcConnReqMsg connReqEnd
      simp only [if_neg hlong, hlong', false_or, Option.isSome_some, true_implies]
      omega

/-- A NAS message of one octet that lacks five bits, and a request of one octet. -/
theorem asn1Parse_behind :
    (¬∀ (data : Nat → UInt8) (length : Nat) (info : UlInformationTransfer), 1 ≤ length →
      (asn1ParseUlInfoTransMsg (fun _ => 0) data length info).2.isSome →
        ulInfoTransEnd (convertBytesToBitsVector (fun _ => 0) data (length * 8)) ≤ length * 8) ∧
    ¬∀ (data : Nat → UInt8) (length : Nat) (req : RrcConnectionRequest), 1 ≤ length →
      (asn1ParseRrcConnReqMsg (fun _ => 0) data length req).2.isSome →
        connReqEnd ≤ length * 8 := by
  constructor
  · intro h
    have hend := h (fun k => [0x48, 0x00, 0x3f].getD k 0) 3 default (by decide)
      (by decide +kernel)
    exact absurd hend (by decide +kernel)
  · intro h
    exact absurd (h (fun _ => 0x40) 1 default (by decide) rfl) (by decide)

end LteUlp.Rrc
