import LteUlp.Basic.Endian
import LteUlp.Nas.Attach

set_option autoImplicit false

/-! # What the NAS decoders read

`decoded` is what the RRC layer takes from a NAS message: the message type and the identity
the handler of that type looks at. It does not depend on what the decode structures held
before. `Decided n` says that all bytes it depends on are among the first `n`, and this is
exact: if it fails, then there are two continuations of the message that are decoded
differently (`exists_decoded_ne`).
-/

namespace LteUlp.Nas

/-! ## The decoded message -/

/-- The identity that a handler records. -/
inductive Identity where
  | mTmsi (v : UInt32)
  | imsi (digits : List UInt8)
  | other
  deriving DecidableEq

/-- The identity in the EPS mobile identity at `p`, for a handler that records the M-TMSI of
an identity of type `tmsiType`, which begins at `p + off`. -/
def epsIdentityAt (tmsiType : UInt8) (off : Nat) (m : Nat → UInt8) (p : Nat) : Identity :=
  if m (p + 1) &&& 0x07 = tmsiType then .mTmsi (be32 m (p + off))
  else if m (p + 1) &&& 0x07 = epsMobileIdTypeImsi then .imsi (digits m (p + 1))
  else .other

/-- The identity in a GUTI or IMSI, and in a TMSI or IMSI. -/
def gutiIdentityAt : (Nat → UInt8) → Nat → Identity := epsIdentityAt epsMobileIdTypeGuti 8
def tmsiIdentityAt : (Nat → UInt8) → Nat → Identity := epsIdentityAt epsMobileIdTypeTmsi 2

/-- The identity in an identity response. -/
def mobileIdentityAt (m : Nat → UInt8) (p : Nat) : Option Identity :=
  let t := m (p + 1) &&& 0x07
  if t = mobileIdTypeImsi then some (.imsi (digits m (p + 1)))
  else if t = mobileIdTypeImei ∨ t = mobileIdTypeImeisv then some .other
  else none

/-- Where the UE network capability of an attach request begins. -/
def capabilityOffset (m : Nat → UInt8) : Nat :=
  let t := m (bodyOffset m + 2) &&& 0x07
  bodyOffset m +
    (if t = epsMobileIdTypeGuti then 13 else if t = epsMobileIdTypeTmsi then 7 else 10)

/-- Where the ESM message container of an attach request begins. -/
def esmOffset (m : Nat → UInt8) : Nat :=
  capabilityOffset m + 1 + max (m (capabilityOffset m)).toNat 2

/-- The length of the ESM message container is accepted. -/
def EsmFits (m : Nat → UInt8) : Prop :=
  ((m (esmOffset m)).toNat <<< 8) ||| (m (esmOffset m + 1)).toNat ≤ liblteMaxMsgSizeBytes

instance (m : Nat → UInt8) : Decidable (EsmFits m) := by
  unfold EsmFits
  infer_instance

/-- The identity that the handler of a message type takes from the message; `none` if the
message is refused or if there is no handler that looks at one. -/
def decodedBody (t : UInt8) (m : Nat → UInt8) : Option Identity :=
  let p := bodyOffset m
  if t = nasMsgTypeIdentityResponse then mobileIdentityAt m p
  else if t = nasMsgTypeAttachRequest then
    if EsmFits m then some (gutiIdentityAt m (p + 1)) else none
  else if t = nasMsgTypeTrackingAreaUpdateRequest then some (gutiIdentityAt m (p + 1))
  else if t = nasMsgTypeDetachRequest then some (gutiIdentityAt m (p + 1))
  else if t = nasMsgTypeExtendedServiceRequest then some (tmsiIdentityAt m (p + 1))
  else none

/-- The message type and the identity that the handler of this type takes. -/
def decoded (m : Nat → UInt8) : UInt8 × Option Identity :=
  ((mmeParseMsgHeader m).2, decodedBody (mmeParseMsgHeader m).2 m)

/-! ### The unpackers -/

theorem mmeUnpackEpsMobileIdIe_guti (m : Nat → UInt8) (p : Nat) (id : EpsMobileId) :
    let r := (mmeUnpackEpsMobileIdIe m p id).1
    (if r.typeOfId = epsMobileIdTypeGuti then Identity.mTmsi r.guti.mTmsi
      else if r.typeOfId = epsMobileIdTypeImsi then .imsi r.imsi else .other)
      = gutiIdentityAt m p := by
  intro r
  simp only [r, mmeUnpackEpsMobileIdIe, gutiIdentityAt, epsIdentityAt]
  by_cases hg : m (p + 1) &&& 0x07 = epsMobileIdTypeGuti
  · rw [if_pos hg, if_pos hg, if_pos hg]
  by_cases ht : m (p + 1) &&& 0x07 = epsMobileIdTypeTmsi
  · have hi : m (p + 1) &&& 0x07 ≠ epsMobileIdTypeImsi := by rw [ht]; decide
    rw [if_neg hg, if_neg hg, if_pos ht, if_neg hg, if_neg hi, if_neg hi]
  by_cases hi : m (p + 1) &&& 0x07 = epsMobileIdTypeImsi
  · rw [if_neg hg, if_neg hg, if_neg ht, if_pos hi, if_neg hg, if_pos hi]
  · rw [if_neg hg, if_neg hg, if_neg ht, if_neg hi, if_neg hg, if_neg hi, if_neg hi]

theorem mmeUnpackEpsMobileIdIe_tmsi (m : Nat → UInt8) (p : Nat) (id : EpsMobileId) :
    let r := (mmeUnpackEpsMobileIdIe m p id).1
    (if r.typeOfId = epsMobileIdTypeTmsi then Identity.mTmsi r.mTmsi
      else if r.typeOfId = epsMobileIdTypeImsi then .imsi r.imsi else .other)
      = tmsiIdentityAt m p := by
  intro r
  simp only [r, mmeUnpackEpsMobileIdIe, tmsiIdentityAt, epsIdentityAt]
  by_cases hg : m (p + 1) &&& 0x07 = epsMobileIdTypeGuti
  · have ht : m (p + 1) &&& 0x07 ≠ epsMobileIdTypeTmsi := by rw [hg]; decide
    have hi : m (p + 1) &&& 0x07 ≠ epsMobileIdTypeImsi := by rw [hg]; decide
    rw [if_pos hg, if_neg ht, if_neg ht, if_neg hi, if_neg hi]
  by_cases ht : m (p + 1) &&& 0x07 = epsMobileIdTypeTmsi
  · rw [if_neg hg, if_pos ht, if_pos ht, if_pos ht]
  by_cases hi : m (p + 1) &&& 0x07 = epsMobileIdTypeImsi
  · rw [if_neg hg, if_neg ht, if_pos hi, if_neg ht, if_neg ht, if_pos hi]
  · rw [if_neg hg, if_neg ht, if_neg hi, if_neg ht, if_neg ht, if_neg hi, if_neg hi]

theorem mmeUnpackEpsMobileIdIe_pointer (m : Nat → UInt8) (p : Nat) (id : EpsMobileId) :
    (mmeUnpackEpsMobileIdIe m p id).2 = p +
      (if m (p + 1) &&& 0x07 = epsMobileIdTypeGuti then 12
       else if m (p + 1) &&& 0x07 = epsMobileIdTypeTmsi then 6 else 9) := by
  simp only [mmeUnpackEpsMobileIdIe]
  split
  · rfl
  · split
    · rfl
    · split <;> rfl

theorem mmeUnpackUeNetworkCapabilityIe_pointer (m : Nat → UInt8) (p : Nat)
    (cap : UeNetworkCapability) :
    (mmeUnpackUeNetworkCapabilityIe m p cap).2 = p + 1 + max (m p).toNat 2 := by
  simp only [mmeUnpackUeNetworkCapabilityIe]
  by_cases h2 : (m p).toNat > 2
  · by_cases h3 : (m p).toNat > 3
    · by_cases h4 : (m p).toNat > 4
      · by_cases h5 : (m p).toNat > 5
        · simp only [if_pos h2, if_pos h3, if_pos h4, if_pos h5]
          omega
        · simp only [if_pos h2, if_pos h3, if_pos h4, if_neg h5]
          omega
      · simp only [if_pos h2, if_pos h3, if_neg h4, if_neg (show ¬(m p).toNat > 5 by omega)]
        omega
    · simp only [if_pos h2, if_neg h3, if_neg (show ¬(m p).toNat > 4 by omega),
        if_neg (show ¬(m p).toNat > 5 by omega)]
      omega
  · simp only [if_neg h2, if_neg (show ¬(m p).toNat > 3 by omega),
      if_neg (show ¬(m p).toNat > 4 by omega), if_neg (show ¬(m p).toNat > 5 by omega)]
    omega

/-- The attach request is accepted if the ESM message container fits, and then its identity
is the one behind the first body byte. -/
theorem mmeUnpackAttachRequestMsg_spec (m : Nat → UInt8) (req : AttachRequest) :
    (mmeUnpackAttachRequestMsg m req).1 = decide (EsmFits m) ∧
      (EsmFits m → (mmeUnpackAttachRequestMsg m req).2.epsMobileId
        = (mmeUnpackEpsMobileIdIe m (bodyOffset m + 1) req.epsMobileId).1) := by
  have hq : (mmeUnpackEpsMobileIdIe m (bodyOffset m + 1) req.epsMobileId).2
      = capabilityOffset m := by
    rw [mmeUnpackEpsMobileIdIe_pointer]
    unfold capabilityOffset
    simp only
    split
    · rfl
    · split <;> rfl
  have he : (mmeUnpackUeNetworkCapabilityIe m (capabilityOffset m) req.ueNetworkCap).2
      = esmOffset m := mmeUnpackUeNetworkCapabilityIe_pointer m _ _
  unfold mmeUnpackAttachRequestMsg attachMandatory
  simp only [hq, he, mmeUnpackEsmMessageContainerIe]
  by_cases hf : EsmFits m
  · have hn : ¬((m (esmOffset m)).toNat <<< 8) ||| (m (esmOffset m + 1)).toNat
        > liblteMaxMsgSizeBytes := Nat.not_lt.mpr hf
    rw [if_neg hn]
    refine ⟨by simp [hf], fun _ => ?_⟩
    rw [attachOptional_epsMobileId]
  · have hn : ((m (esmOffset m)).toNat <<< 8) ||| (m (esmOffset m + 1)).toNat
        > liblteMaxMsgSizeBytes := Nat.lt_of_not_le hf
    rw [if_pos hn]
    exact ⟨by simp [hf], fun h => absurd h hf⟩

/-! ## Messages that agree on their first bytes -/

/-- The first `n` bytes are the same. -/
def Agree (n : Nat) (m m' : Nat → UInt8) : Prop := ∀ i < n, m i = m' i

/-- Where the message type is, except in a service request, whose header has none. -/
def typeOffset (m : Nat → UInt8) : Nat :=
  if m 0 &&& 0x0F = mmePdEpsSessionManagement then 2
  else if secHdrType m = mmeSecurityHdrTypePlainNas then 1
  else if m 6 &&& 0x0F = mmePdEpsSessionManagement then 8 else 7

/-- The bytes that give the message type are among the first `n`. -/
def HeaderDecided (n : Nat) (m : Nat → UInt8) : Prop :=
  0 < n ∧ (secHdrType m = mmeSecurityHdrTypeServiceRequest ∨ typeOffset m < n)

/-- So are the bytes of an EPS mobile identity that are recorded. -/
def IdentityDecided (n : Nat) (tmsiType : UInt8) (off : Nat) (m : Nat → UInt8) (p : Nat) :
    Prop :=
  p + 1 < n ∧ (m (p + 1) &&& 0x07 = tmsiType → p + off + 3 < n) ∧
    (m (p + 1) &&& 0x07 = epsMobileIdTypeImsi → p + 8 < n)

/-- So are the bytes of a mobile identity that are recorded. -/
def MobileIdentityDecided (n : Nat) (m : Nat → UInt8) (p : Nat) : Prop :=
  p + 1 < n ∧ (m (p + 1) &&& 0x07 = mobileIdTypeImsi → p + 8 < n)

/-- The bytes that decide whether the ESM message container fits are among the first `n`. The
first one is enough unless it is the upper half of the largest length. -/
def EsmDecided (n : Nat) (m : Nat → UInt8) : Prop :=
  esmOffset m < n ∧ (esmOffset m + 1 < n ∨ m (esmOffset m) ≠ 0x31)

/-- So are the bytes that the handler of a message type reads. -/
def BodyDecided (n : Nat) (t : UInt8) (m : Nat → UInt8) : Prop :=
  let p := bodyOffset m
  if t = nasMsgTypeIdentityResponse then MobileIdentityDecided n m p
  else if t = nasMsgTypeAttachRequest then EsmDecided n m
  else if t = nasMsgTypeTrackingAreaUpdateRequest then
    IdentityDecided n epsMobileIdTypeGuti 8 m (p + 1)
  else if t = nasMsgTypeDetachRequest then IdentityDecided n epsMobileIdTypeGuti 8 m (p + 1)
  else if t = nasMsgTypeExtendedServiceRequest then
    IdentityDecided n epsMobileIdTypeTmsi 2 m (p + 1)
  else True

/-- **All that is read is there.** What the decoders take from a message is among its first
`n` bytes. -/
def Decided (n : Nat) (m : Nat → UInt8) : Prop :=
  HeaderDecided n m ∧ BodyDecided n (mmeParseMsgHeader m).2 m

section Congruence

variable {n : Nat} {m m' : Nat → UInt8}

theorem Agree.secHdrType (h : Agree n m m') (hn : 0 < n) :
    Nas.secHdrType m = Nas.secHdrType m' := by
  unfold Nas.secHdrType
  rw [h 0 hn]

theorem Agree.bodyOffset (h : Agree n m m') (hn : 0 < n) :
    Nas.bodyOffset m = Nas.bodyOffset m' := by
  unfold Nas.bodyOffset
  rw [h.secHdrType hn]

/-- The header parser reads the message type at `typeOffset`. -/
theorem mmeParseMsgHeader_snd (m : Nat → UInt8) :
    (mmeParseMsgHeader m).2 =
      if Nas.secHdrType m = mmeSecurityHdrTypeServiceRequest then
        mmeSecurityHdrTypeServiceRequest
      else m (typeOffset m) := by
  simp only [mmeParseMsgHeader, typeOffset]
  split_ifs <;> rfl

theorem typeOffset_congr (h0 : m 0 = m' 0) (h6 : m 6 = m' 6) : typeOffset m = typeOffset m' := by
  unfold typeOffset Nas.secHdrType
  rw [h0, h6]

/-- The bytes before the message type give its position. -/
theorem Agree.typeOffset (h : Agree n m m') (hn : typeOffset m < n) :
    Nas.typeOffset m = Nas.typeOffset m' := by
  have h0 : m 0 = m' 0 := h 0 (Nat.lt_of_le_of_lt (Nat.zero_le _) hn)
  unfold Nas.typeOffset at hn ⊢
  unfold Nas.secHdrType at hn ⊢
  rw [← h0]
  split
  · rfl
  · rename_i hpd
    rw [if_neg hpd] at hn
    split
    · rfl
    · rename_i hplain
      rw [if_neg hplain] at hn
      have h6 : m 6 = m' 6 := by
        apply h
        split at hn <;> omega
      rw [← h6]

theorem Agree.header (h : Agree n m m') (hd : HeaderDecided n m) :
    (mmeParseMsgHeader m).2 = (mmeParseMsgHeader m').2 := by
  rw [mmeParseMsgHeader_snd, mmeParseMsgHeader_snd, ← h.secHdrType hd.1]
  by_cases hs : Nas.secHdrType m = mmeSecurityHdrTypeServiceRequest
  · rw [if_pos hs, if_pos hs]
  · have ht : Nas.typeOffset m < n := hd.2.resolve_left hs
    rw [if_neg hs, if_neg hs, ← h.typeOffset ht, h _ ht]

theorem Agree.be32 (h : Agree n m m') {p : Nat} (hp : p + 3 < n) : Nas.be32 m p = Nas.be32 m' p := by
  unfold Nas.be32
  rw [h p (by omega), h (p + 1) (by omega), h (p + 2) (by omega), h (p + 3) hp]

theorem Agree.digits (h : Agree n m m') {p : Nat} (hp : p + 7 < n) :
    Nas.digits m p = Nas.digits m' p := by
  unfold Nas.digits
  rw [h p (by omega)]
  congr 1
  apply List.flatMap_congr
  intro i hi
  rw [h (p + 1 + i) (by have := List.mem_range.mp hi; omega)]

theorem Agree.epsIdentityAt (h : Agree n m m') {t : UInt8} {off p : Nat}
    (hd : IdentityDecided n t off m p) :
    Nas.epsIdentityAt t off m p = Nas.epsIdentityAt t off m' p := by
  obtain ⟨h1, ht, hi⟩ := hd
  unfold Nas.epsIdentityAt
  rw [← h (p + 1) h1]
  by_cases hct : m (p + 1) &&& 0x07 = t
  · rw [if_pos hct, if_pos hct, h.be32 (ht hct)]
  · rw [if_neg hct, if_neg hct]
    by_cases hci : m (p + 1) &&& 0x07 = epsMobileIdTypeImsi
    · rw [if_pos hci, if_pos hci, h.digits (by have := hi hci; omega)]
    · rw [if_neg hci, if_neg hci]

theorem Agree.mobileIdentityAt (h : Agree n m m') {p : Nat} (hd : MobileIdentityDecided n m p) :
    Nas.mobileIdentityAt m p = Nas.mobileIdentityAt m' p := by
  obtain ⟨h1, hi⟩ := hd
  unfold Nas.mobileIdentityAt
  simp only
  rw [← h (p + 1) h1]
  by_cases hci : m (p + 1) &&& 0x07 = mobileIdTypeImsi
  · rw [if_pos hci, if_pos hci, h.digits (by have := hi hci; omega)]
  · rw [if_neg hci, if_neg hci]

theorem capabilityOffset_le (m : Nat → UInt8) :
    Nas.bodyOffset m + 7 ≤ capabilityOffset m ∧
      (m (Nas.bodyOffset m + 2) &&& 0x07 = epsMobileIdTypeGuti →
        capabilityOffset m = Nas.bodyOffset m + 13) ∧
      (m (Nas.bodyOffset m + 2) &&& 0x07 = epsMobileIdTypeImsi →
        capabilityOffset m = Nas.bodyOffset m + 10) := by
  unfold capabilityOffset
  simp only
  refine ⟨by split <;> [omega; (split <;> omega)], fun h => by rw [if_pos h], fun h => ?_⟩
  rw [h, if_neg (by decide), if_neg (by decide)]

theorem esmOffset_ge (m : Nat → UInt8) : capabilityOffset m + 3 ≤ esmOffset m := by
  unfold esmOffset
  omega

/-- Messages that agree up to the ESM message container have it at the same place. -/
theorem Agree.esmOffset (h : Agree n m m') (hn : 0 < n) (he : esmOffset m ≤ n) :
    Nas.esmOffset m = Nas.esmOffset m' := by
  have hge := esmOffset_ge m
  have hle := (capabilityOffset_le m).1
  have hb := h.bodyOffset hn
  have hq : capabilityOffset m = capabilityOffset m' := by
    unfold capabilityOffset
    simp only
    rw [← hb, h (Nas.bodyOffset m + 2) (by omega)]
  unfold Nas.esmOffset
  rw [← hq, h (capabilityOffset m) (by omega)]

theorem esmLength_eq (a b : UInt8) :
    (a.toNat <<< 8) ||| b.toNat = a.toNat * 256 + b.toNat :=
  Endian.shiftLeft_or a.toNat b.toNat_lt

theorem Agree.esmFits (h : Agree n m m') (hn : 0 < n) (hd : EsmDecided n m) :
    EsmFits m ↔ EsmFits m' := by
  obtain ⟨he, hd⟩ := hd
  unfold EsmFits
  rw [← h.esmOffset hn he.le, ← h _ he, esmLength_eq, esmLength_eq]
  rcases hd with hd | hd
  · rw [h _ hd]
  · have h1 : (m (Nas.esmOffset m)).toNat ≠ 0x31 := fun hc => hd (UInt8.toNat_inj.mp hc)
    have h2 := (m (Nas.esmOffset m + 1)).toNat_lt
    have h3 := (m' (Nas.esmOffset m + 1)).toNat_lt
    unfold liblteMaxMsgSizeBytes
    omega

/-- The identity of an attach request is behind the ESM message container. -/
theorem EsmDecided.identity (hd : EsmDecided n m) :
    IdentityDecided n epsMobileIdTypeGuti 8 m (Nas.bodyOffset m + 1) := by
  have hge := esmOffset_ge m
  obtain ⟨hle, hg, hi⟩ := capabilityOffset_le m
  have he := hd.1
  refine ⟨by omega, fun h => ?_, fun h => ?_⟩
  · have := hg h
    omega
  · have := hi h
    omega

theorem Agree.decodedBody (h : Agree n m m') (hn : 0 < n) {t : UInt8}
    (hd : BodyDecided n t m) : Nas.decodedBody t m = Nas.decodedBody t m' := by
  have hb := h.bodyOffset hn
  have heps : ∀ {ty : UInt8} {off : Nat}, IdentityDecided n ty off m (Nas.bodyOffset m + 1) →
      some (Nas.epsIdentityAt ty off m (Nas.bodyOffset m + 1))
        = some (Nas.epsIdentityAt ty off m' (Nas.bodyOffset m + 1)) :=
    fun hd => congrArg some (h.epsIdentityAt hd)
  unfold Nas.decodedBody
  unfold BodyDecided at hd
  simp only at hd ⊢
  rw [← hb]
  by_cases h1 : t = nasMsgTypeIdentityResponse
  · rw [if_pos h1] at hd ⊢
    rw [if_pos h1, h.mobileIdentityAt hd]
  rw [if_neg h1] at hd ⊢
  rw [if_neg h1]
  by_cases h2 : t = nasMsgTypeAttachRequest
  · rw [if_pos h2] at hd ⊢
    rw [if_pos h2]
    exact if_congr (h.esmFits hn hd) (heps hd.identity) rfl
  rw [if_neg h2] at hd ⊢
  rw [if_neg h2]
  by_cases h3 : t = nasMsgTypeTrackingAreaUpdateRequest
  · rw [if_pos h3] at hd ⊢
    rw [if_pos h3]
    exact heps hd
  rw [if_neg h3] at hd ⊢
  rw [if_neg h3]
  by_cases h4 : t = nasMsgTypeDetachRequest
  · rw [if_pos h4] at hd ⊢
    rw [if_pos h4]
    exact heps hd
  rw [if_neg h4] at hd ⊢
  rw [if_neg h4]
  by_cases h5 : t = nasMsgTypeExtendedServiceRequest
  · rw [if_pos h5] at hd ⊢
    rw [if_pos h5]
    exact heps hd
  · rw [if_neg h5, if_neg h5]

/-- **What is decoded depends on the first bytes only**, when all that is read is there. -/
theorem Agree.decoded (h : Agree n m m') (hd : Decided n m) : Nas.decoded m = Nas.decoded m' := by
  unfold Nas.decoded
  rw [← h.header hd.1, h.decodedBody hd.1.1 hd.2]

end Congruence

/-! ## Messages that are decoded differently

`z` is a message of `n` bytes followed by zeros. Where `n` bytes do not decide what is
decoded, another continuation gives something else. -/

/-- The identity that is recorded: the IMEI of an identity response is not. -/
def recorded (d : UInt8 × Option Identity) : UInt8 × Option Identity :=
  (d.1, if d.1 = nasMsgTypeIdentityResponse ∧ d.2 = some .other then none else d.2)

section Separation

variable {n : Nat} {z : Nat → UInt8}

theorem agree_update {k : Nat} (hk : n ≤ k) (v : UInt8) : Agree n z (Function.update z k v) := by
  intro i hi
  rw [Function.update_of_ne (by omega)]

theorem exists_header_ne (hz : ∀ i, n ≤ i → z i = 0) (hd : ¬HeaderDecided n z) :
    ∃ m, Agree n z m ∧ (mmeParseMsgHeader z).2 ≠ (mmeParseMsgHeader m).2 := by
  by_cases hn : n = 0
  · -- nothing is there: the header of a service request is one continuation
    refine ⟨Function.update z 0 0xC0, agree_update hn.le _, ?_⟩
    have h0 : z 0 = 0 := hz 0 hn.le
    have h1 : z 1 = 0 := hz 1 (by omega)
    have hs : Nas.secHdrType (Function.update z 0 0xC0) = mmeSecurityHdrTypeServiceRequest := by
      unfold Nas.secHdrType
      rw [Function.update_self]
      decide
    have hs' : Nas.secHdrType z ≠ mmeSecurityHdrTypeServiceRequest := by
      unfold Nas.secHdrType
      rw [h0]
      decide
    have ht : Nas.typeOffset z = 1 := by
      unfold Nas.typeOffset Nas.secHdrType
      rw [h0, if_neg (by decide), if_pos (by decide)]
    rw [mmeParseMsgHeader_snd, mmeParseMsgHeader_snd, if_neg hs', if_pos hs, ht, h1]
    decide
  · have hpos : 0 < n := Nat.pos_of_ne_zero hn
    have hd' := not_or.mp fun h => hd ⟨hpos, h⟩
    have hk : n ≤ Nas.typeOffset z := Nat.le_of_not_lt hd'.2
    -- the message type is behind the end
    have hne : Nas.typeOffset z ≠ 0 ∧ Nas.typeOffset z ≠ 6 := by
      unfold Nas.typeOffset
      split_ifs <;> decide
    refine ⟨Function.update z (Nas.typeOffset z) 1, agree_update hk _, ?_⟩
    have h0 : Function.update z (Nas.typeOffset z) 1 0 = z 0 :=
      Function.update_of_ne hne.1.symm _ _
    have h6 : Function.update z (Nas.typeOffset z) 1 6 = z 6 :=
      Function.update_of_ne hne.2.symm _ _
    have hs : Nas.secHdrType (Function.update z (Nas.typeOffset z) 1) = Nas.secHdrType z := by
      unfold Nas.secHdrType
      rw [h0]
    rw [mmeParseMsgHeader_snd, mmeParseMsgHeader_snd, hs, if_neg hd'.1, if_neg hd'.1,
      typeOffset_congr h0 h6, Function.update_self, hz _ hk]
    decide

/-- The last digit is the upper half of the last byte. -/
theorem digits_ne {m m' : Nat → UInt8} {p : Nat} (h : m (p + 7) >>> 4 ≠ m' (p + 7) >>> 4) :
    Nas.digits m p ≠ Nas.digits m' p := by
  intro he
  have hl : ∀ f : Nat → UInt8, (Nas.digits f p).getLast? = some (f (p + 7) >>> 4) := by
    intro f
    unfold Nas.digits
    simp [List.range_succ]
  have := hl m
  rw [he, hl m'] at this
  exact h (Option.some.inj this).symm

theorem testBit_shiftLeft_zero (x : Nat) {k : Nat} (hk : 0 < k) :
    (x <<< k % 4294967296).testBit 0 = false := by
  rw [show 4294967296 = 2 ^ 32 from rfl, Nat.testBit_mod_two_pow, Nat.testBit_shiftLeft]
  simp
  omega

/-- The last byte gives the lowest bit. -/
theorem be32_ne {m m' : Nat → UInt8} {p : Nat} (h : m (p + 3) = 0) (h' : m' (p + 3) = 1) :
    Nas.be32 m p ≠ Nas.be32 m' p := by
  intro he
  have hl : ∀ f : Nat → UInt8,
      (Nas.be32 f p).toNat.testBit 0 = (f (p + 3)).toNat.testBit 0 := by
    intro f
    unfold Nas.be32
    simp [UInt32.toNat_or, UInt32.toNat_shiftLeft, Nat.testBit_or, testBit_shiftLeft_zero,
      -Nat.testBit_zero]
  have := hl m
  rw [he, hl m', h, h'] at this
  exact absurd this (by decide)

theorem exists_epsIdentityAt_ne (hz : ∀ i, n ≤ i → z i = 0) {t : UInt8} {off p : Nat}
    (ht : t &&& 0x07 = t) (h0 : t ≠ 0) (hi : t ≠ epsMobileIdTypeImsi) (hoff : 2 ≤ off)
    (hd : ¬IdentityDecided n t off z p) :
    ∃ m, Agree n z m ∧ epsIdentityAt t off z p ≠ epsIdentityAt t off m p := by
  by_cases h1 : p + 1 < n
  · by_cases hct : z (p + 1) &&& 0x07 = t
    · -- the last byte of the M-TMSI is behind the end
      have hci : z (p + 1) &&& 0x07 ≠ epsMobileIdTypeImsi := by rw [hct]; exact hi
      have hk : n ≤ p + off + 3 := by
        by_contra hc
        exact hd ⟨h1, fun _ => by omega, fun h => absurd h hci⟩
      refine ⟨Function.update z (p + off + 3) 1, agree_update hk _, ?_⟩
      have hp : Function.update z (p + off + 3) 1 (p + 1) = z (p + 1) :=
        Function.update_of_ne (by omega) _ _
      unfold epsIdentityAt
      rw [hp, if_pos hct, if_pos hct]
      intro he
      exact be32_ne (hz _ hk) (Function.update_self ..) (Identity.mTmsi.inj he)
    · by_cases hci : z (p + 1) &&& 0x07 = epsMobileIdTypeImsi
      · -- the last digits are behind the end
        have hk : n ≤ p + 8 := by
          by_contra hc
          exact hd ⟨h1, fun h => absurd h hct, fun _ => by omega⟩
        refine ⟨Function.update z (p + 8) 0x10, agree_update hk _, ?_⟩
        have hp : Function.update z (p + 8) 0x10 (p + 1) = z (p + 1) :=
          Function.update_of_ne (by omega) _ _
        unfold epsIdentityAt
        rw [hp, if_neg hct, if_neg hct, if_pos hci, if_pos hci]
        intro he
        refine digits_ne ?_ (Identity.imsi.inj he)
        rw [show p + 1 + 7 = p + 8 by omega, hz _ hk, Function.update_self]
        decide
      · exact absurd ⟨h1, fun h => absurd h hct, fun h => absurd h hci⟩ hd
  · -- the type is behind the end
    refine ⟨Function.update z (p + 1) t, agree_update (by omega) _, ?_⟩
    unfold epsIdentityAt
    rw [Function.update_self, ht, if_pos rfl, hz (p + 1) (by omega),
      if_neg (show ¬(0 : UInt8) &&& 0x07 = t from fun h => h0 h.symm),
      if_neg (show ¬(0 : UInt8) &&& 0x07 = epsMobileIdTypeImsi by decide)]
    exact fun h => Identity.noConfusion h

theorem exists_mobileIdentityAt_ne (hz : ∀ i, n ≤ i → z i = 0) {p : Nat}
    (hd : ¬MobileIdentityDecided n z p) :
    ∃ m, Agree n z m ∧ mobileIdentityAt z p ≠ mobileIdentityAt m p ∧
      (mobileIdentityAt z p ≠ some .other ∧ mobileIdentityAt m p ≠ some .other) := by
  by_cases h1 : p + 1 < n
  · by_cases hci : z (p + 1) &&& 0x07 = mobileIdTypeImsi
    · have hk : n ≤ p + 8 := by
        by_contra hc
        exact hd ⟨h1, fun _ => by omega⟩
      have hp : Function.update z (p + 8) 0x10 (p + 1) = z (p + 1) :=
        Function.update_of_ne (by omega) _ _
      refine ⟨Function.update z (p + 8) 0x10, agree_update hk _, ?_⟩
      unfold mobileIdentityAt
      simp only
      rw [hp, if_pos hci, if_pos hci]
      refine ⟨fun he => ?_, by simp, by simp⟩
      refine digits_ne ?_ (Identity.imsi.inj (Option.some.inj he))
      rw [show p + 1 + 7 = p + 8 by omega, hz _ hk, Function.update_self]
      decide
    · exact absurd ⟨h1, fun h => absurd h hci⟩ hd
  · refine ⟨Function.update z (p + 1) 1, agree_update (by omega) _, ?_⟩
    unfold mobileIdentityAt
    simp only
    rw [Function.update_self, hz (p + 1) (by omega), if_neg (by decide), if_neg (by decide),
      if_pos (by decide)]
    simp

theorem exists_esmFits_ne (hz : ∀ i, n ≤ i → z i = 0) (hd : ¬EsmDecided n z) :
    EsmFits z ∧ ∃ m, Agree n z m ∧ ¬EsmFits m := by
  have hpos : 0 < Nas.esmOffset z := by
    have := esmOffset_ge z
    omega
  -- a byte at or behind the length leaves the length where it is
  have hoff : ∀ k v, Nas.esmOffset z ≤ k →
      Nas.esmOffset (Function.update z k v) = Nas.esmOffset z := fun k v hk =>
    ((agree_update le_rfl v).esmOffset (by omega) hk).symm
  by_cases he : Nas.esmOffset z < n
  · have hd' := not_or.mp fun h => hd ⟨he, h⟩
    have h31 : z (Nas.esmOffset z) = 0x31 := not_not.mp hd'.2
    have hk : n ≤ Nas.esmOffset z + 1 := Nat.le_of_not_lt hd'.1
    constructor
    · unfold EsmFits
      rw [h31, hz _ hk]
      decide
    · refine ⟨Function.update z (Nas.esmOffset z + 1) 0xFF, agree_update hk _, ?_⟩
      unfold EsmFits
      rw [hoff _ _ (by omega), Function.update_self, Function.update_of_ne (by omega), h31]
      decide
  · have hk : n ≤ Nas.esmOffset z := Nat.le_of_not_lt he
    constructor
    · unfold EsmFits
      rw [hz _ hk, hz _ (by omega)]
      decide
    · refine ⟨Function.update z (Nas.esmOffset z) 0xFF, agree_update hk _, ?_⟩
      unfold EsmFits
      rw [hoff _ _ le_rfl, Function.update_self, esmLength_eq,
        show (0xFF : UInt8).toNat = 255 from rfl]
      unfold liblteMaxMsgSizeBytes
      omega

theorem exists_decodedBody_ne (hz : ∀ i, n ≤ i → z i = 0) (hn : 0 < n) {t : UInt8}
    (hd : ¬BodyDecided n t z) :
    ∃ m, Agree n z m ∧ recorded (t, decodedBody t z) ≠ recorded (t, decodedBody t m) := by
  have hguti : ¬IdentityDecided n epsMobileIdTypeGuti 8 z (bodyOffset z + 1) →
      ∃ m, Agree n z m ∧ some (gutiIdentityAt z (bodyOffset z + 1))
        ≠ some (gutiIdentityAt m (bodyOffset m + 1)) := by
    intro h
    obtain ⟨m, ha, hne⟩ := exists_epsIdentityAt_ne hz (by decide) (by decide) (by decide)
      (by decide) h
    exact ⟨m, ha, fun he => hne (by rw [← ha.bodyOffset hn] at he; exact Option.some.inj he)⟩
  have htmsi : ¬IdentityDecided n epsMobileIdTypeTmsi 2 z (bodyOffset z + 1) →
      ∃ m, Agree n z m ∧ some (tmsiIdentityAt z (bodyOffset z + 1))
        ≠ some (tmsiIdentityAt m (bodyOffset m + 1)) := by
    intro h
    obtain ⟨m, ha, hne⟩ := exists_epsIdentityAt_ne hz (by decide) (by decide) (by decide)
      (by decide) h
    exact ⟨m, ha, fun he => hne (by rw [← ha.bodyOffset hn] at he; exact Option.some.inj he)⟩
  unfold BodyDecided at hd
  unfold decodedBody recorded
  simp only at hd ⊢
  by_cases h1 : t = nasMsgTypeIdentityResponse
  · rw [if_pos h1] at hd
    obtain ⟨m, ha, hne, ho, ho'⟩ := exists_mobileIdentityAt_ne hz hd
    refine ⟨m, ha, fun he => hne ?_⟩
    rw [← ha.bodyOffset hn, if_pos h1, if_pos h1, if_neg (fun h => ho h.2),
      if_neg (fun h => ho' h.2)] at he
    exact congrArg Prod.snd he
  -- from here on the identity is recorded as it is
  have hrec : ∀ x y : Option Identity, x ≠ y →
      (t, if t = nasMsgTypeIdentityResponse ∧ x = some .other then none else x)
        ≠ (t, if t = nasMsgTypeIdentityResponse ∧ y = some .other then none else y) := by
    intro x y hxy he
    rw [if_neg (fun h => h1 h.1), if_neg (fun h => h1 h.1)] at he
    exact hxy (congrArg Prod.snd he)
  rw [if_neg h1] at hd
  by_cases h2 : t = nasMsgTypeAttachRequest
  · rw [if_pos h2] at hd
    obtain ⟨hf, m, ha, hf'⟩ := exists_esmFits_ne hz hd
    refine ⟨m, ha, hrec _ _ ?_⟩
    rw [if_neg h1, if_neg h1, if_pos h2, if_pos h2, if_pos hf, if_neg hf']
    exact Option.some_ne_none _
  rw [if_neg h2] at hd
  by_cases h3 : t = nasMsgTypeTrackingAreaUpdateRequest
  · rw [if_pos h3] at hd
    obtain ⟨m, ha, hne⟩ := hguti hd
    refine ⟨m, ha, hrec _ _ ?_⟩
    rw [if_neg h1, if_neg h1, if_neg h2, if_neg h2, if_pos h3, if_pos h3]
    exact hne
  rw [if_neg h3] at hd
  by_cases h4 : t = nasMsgTypeDetachRequest
  · rw [if_pos h4] at hd
    obtain ⟨m, ha, hne⟩ := hguti hd
    refine ⟨m, ha, hrec _ _ ?_⟩
    rw [if_neg h1, if_neg h1, if_neg h2, if_neg h2, if_neg h3, if_neg h3, if_pos h4, if_pos h4]
    exact hne
  rw [if_neg h4] at hd
  by_cases h5 : t = nasMsgTypeExtendedServiceRequest
  · rw [if_pos h5] at hd
    obtain ⟨m, ha, hne⟩ := htmsi hd
    refine ⟨m, ha, hrec _ _ ?_⟩
    rw [if_neg h1, if_neg h1, if_neg h2, if_neg h2, if_neg h3, if_neg h3, if_neg h4, if_neg h4,
      if_pos h5, if_pos h5]
    exact hne
  · rw [if_neg h5] at hd
    exact absurd trivial hd

/-- **The footprint is exact.** If the first `n` bytes do not decide what is decoded, then
two messages with these bytes are recorded differently. -/
theorem exists_recorded_ne (hz : ∀ i, n ≤ i → z i = 0) (hd : ¬Decided n z) :
    ∃ m, Agree n z m ∧ recorded (decoded z) ≠ recorded (decoded m) := by
  by_cases hh : HeaderDecided n z
  · obtain ⟨m, ha, hne⟩ := exists_decodedBody_ne hz hh.1 fun h => hd ⟨hh, h⟩
    refine ⟨m, ha, fun he => hne ?_⟩
    unfold decoded at he
    rw [← ha.header hh] at he
    exact he
  · obtain ⟨m, ha, hne⟩ := exists_header_ne hz hh
    exact ⟨m, ha, fun he => hne (congrArg Prod.fst he)⟩

end Separation

end LteUlp.Nas
