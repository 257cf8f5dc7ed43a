import LteUlp.Nas.AttachDecoding
import LteUlp.Nas.Header
import LteUlp.Rrc.Isolation
import LteUlp.Rrc.RoundTrip
import LteUlp.Worker.Retention

set_option autoImplicit false
set_option linter.unusedSectionVars false

/-! # Messages that tell an identity

The messages from which the worker collects, as they are sent: the RRC connection request on
the common channel, and on SRB 1 the NAS messages that carry an identity, plain or behind a
security header, in an RRC connection setup complete or an UL information transfer behind a
PDCP header. Each tells the identity that was written into it, in every state of the receiver
(`connectionRequest_tells`, `rrcMessage_tells`).
-/

namespace LteUlp.Worker

open BitString ByteString BlockStore Endian LteUlp.Nas LteUlp.Rrc

/-! ## NAS messages -/

/-- What precedes a NAS message: nothing, or a security header with five bytes of
authentication code and sequence number. -/
inductive NasProtection where
  | plain
  | secured (headerType : UInt8) (mac : List UInt8)
      (valid : 0 < headerType.toNat ∧ headerType.toNat < 12) (length_eq : mac.length = 5)

namespace NasProtection

def octets : NasProtection → List UInt8
  | plain => []
  | secured headerType mac _ _ => octet [(4, headerType), (4, mmePdEpsMobilityManagement)] :: mac

end NasProtection

/-- The messages of mobility management from which an identity is collected. A request begins
with one octet of its own, and what follows the identity is not looked at. -/
inductive MobilityMessage where
  | identityResponse (id : MobileIdentity)
  | attachRequest (contents : AttachContents)
  | trackingAreaUpdateRequest (first : UInt8) (id : EpsIdentity) (rest : List UInt8)
  | detachRequest (first : UInt8) (id : EpsIdentity) (rest : List UInt8)
  | extendedServiceRequest (first : UInt8) (id : EpsIdentity) (rest : List UInt8)

namespace MobilityMessage

def msgType : MobilityMessage → UInt8
  | identityResponse _ => nasMsgTypeIdentityResponse
  | attachRequest _ => nasMsgTypeAttachRequest
  | trackingAreaUpdateRequest _ _ _ => nasMsgTypeTrackingAreaUpdateRequest
  | detachRequest _ _ _ => nasMsgTypeDetachRequest
  | extendedServiceRequest _ _ _ => nasMsgTypeExtendedServiceRequest

def body : MobilityMessage → List UInt8
  | identityResponse id => id.encode
  | attachRequest contents => contents.encode
  | trackingAreaUpdateRequest first id rest => first :: (id.encode ++ rest)
  | detachRequest first id rest => first :: (id.encode ++ rest)
  | extendedServiceRequest first id rest => first :: (id.encode ++ rest)

/-- The message as it is sent. -/
def encode (protection : NasProtection) (message : MobilityMessage) : List UInt8 :=
  protection.octets ++ (mmePdEpsMobilityManagement :: message.msgType :: message.body)

end MobilityMessage

/-- What is collected of an identity where the M-TMSI is that of a GUTI. -/
def collectedOfGuti : EpsIdentity → Option Collected
  | .guti _ _ _ mTmsi => some (.mTmsi mTmsi)
  | .imsi ds => some (.imsi ⟨ds.toList, ds.length_eq⟩)
  | _ => none

/-- What is collected of an identity where the M-TMSI stands alone. -/
def collectedOfTmsi : EpsIdentity → Option Collected
  | .tmsi mTmsi => some (.mTmsi mTmsi)
  | .imsi ds => some (.imsi ⟨ds.toList, ds.length_eq⟩)
  | _ => none

/-- The identity that the message carries. -/
def MobilityMessage.collected : MobilityMessage → Option Collected
  | .identityResponse (.imsi ds) => some (.imsi ⟨ds.toList, ds.length_eq⟩)
  | .identityResponse _ => none
  | .attachRequest contents => collectedOfGuti contents.epsMobileId
  | .trackingAreaUpdateRequest _ id _ => collectedOfGuti id
  | .detachRequest _ id _ => collectedOfGuti id
  | .extendedServiceRequest _ id _ => collectedOfTmsi id

section Nas

variable {m : Nat → UInt8} {p : Nat}

/-- The digits of an IMSI are those that were written. -/
theorem collectedOf_imsi (ds : Digits 15) :
    collectedOf (.imsi ds.toList) = some (.imsi ⟨ds.toList, ds.length_eq⟩) := by
  simp only [collectedOf, dif_pos ds.length_eq]

/-- **An EPS mobile identity** in a request with a GUTI. -/
theorem gutiIdentityAt_encode (id : EpsIdentity) (h : Reads m p id.encode) :
    collectedOf (gutiIdentityAt m p) = collectedOfGuti id := by
  rw [← mmeUnpackEpsMobileIdIe_guti m p default, mmeUnpackEpsMobileIdIe_encode id default h]
  cases id with
  | guti plmn mmeGroupId mmeCode mTmsi => rfl
  | tmsi mTmsi => rfl
  | imsi ds => exact collectedOf_imsi ds
  | imei ds => rfl

/-- **An EPS mobile identity** in a request with a TMSI. -/
theorem tmsiIdentityAt_encode (id : EpsIdentity) (h : Reads m p id.encode) :
    collectedOf (tmsiIdentityAt m p) = collectedOfTmsi id := by
  rw [← mmeUnpackEpsMobileIdIe_tmsi m p default, mmeUnpackEpsMobileIdIe_encode id default h]
  cases id with
  | guti plmn mmeGroupId mmeCode mTmsi => rfl
  | tmsi mTmsi => rfl
  | imsi ds => exact collectedOf_imsi ds
  | imei ds => rfl

/-- **A mobile identity** in an identity response. -/
theorem mobileIdentityAt_encode (id : MobileIdentity)
    (h : Reads m p id.encode) :
    (mobileIdentityAt m p).bind collectedOf
      = (MobilityMessage.identityResponse id).collected := by
  have htype : m (p + 1) &&& 0x07 = (id.record default).typeOfId := by
    have hunpack := mmeUnpackMobileIdIe_encode id default h
    have hread : (mmeUnpackMobileIdIe m p default).2.1.typeOfId = m (p + 1) &&& 0x07 := by
      unfold mmeUnpackMobileIdIe
      simp only
      split_ifs <;> rfl
    rw [← hread, hunpack]
  unfold mobileIdentityAt
  simp only [htype]
  cases id with
  | imsi ds =>
      obtain ⟨-, hdigits⟩ := digits_read ds (by decide) h.tail
      rw [hdigits]
      exact collectedOf_imsi ds
  | imei ds => rfl
  | imeisv ds => rfl

/-- The fields of the first octet of a security header. -/
theorem secured_fields : ∀ n < 16,
    (octet [(4, UInt8.ofNat n), (4, mmePdEpsMobilityManagement)] &&& 0xF0) >>> 4 = UInt8.ofNat n ∧
      octet [(4, UInt8.ofNat n), (4, mmePdEpsMobilityManagement)] &&& 0x0F
        = mmePdEpsMobilityManagement := by decide

/-- **The header is skipped**: the type is found, and the body begins where it was written. -/
theorem header_encode (protection : NasProtection) (message : MobilityMessage)
    (h : Reads m 0 (message.encode protection)) :
    (mmeParseMsgHeader m).2 = message.msgType ∧ Reads m (bodyOffset m) message.body := by
  have hmsg := h.right
  rw [zero_add] at hmsg
  cases protection with
  | plain =>
      have h0 : m 0 = mmePdEpsMobilityManagement := hmsg.head
      have htype : m 1 = message.msgType := hmsg.tail.head
      have hplain : secHdrType m = mmeSecurityHdrTypePlainNas := by
        rw [secHdrType, h0]
        decide
      have hpd : m 0 &&& 0x0F ≠ mmePdEpsSessionManagement := by
        rw [h0]
        decide
      constructor
      · have hno : secHdrType m ≠ mmeSecurityHdrTypeServiceRequest := by
          rw [hplain]
          decide
        rw [mmeParseMsgHeader_snd, if_neg hno, typeOffset, if_neg hpd, if_pos hplain, htype]
      · rw [bodyOffset, if_pos hplain]
        exact hmsg.tail.tail
  | secured headerType mac valid length_eq =>
      have hfields := secured_fields headerType.toNat (by omega)
      rw [UInt8.ofNat_toNat] at hfields
      have h0 : m 0 = octet [(4, headerType), (4, mmePdEpsMobilityManagement)] := h.left.head
      have hlen : (NasProtection.secured headerType mac valid length_eq).octets.length = 6 := by
        show mac.length + 1 = 6
        rw [length_eq]
      rw [hlen] at hmsg
      have h6 : m 6 = mmePdEpsMobilityManagement := hmsg.head
      have htype : m 7 = message.msgType := hmsg.tail.head
      have hsec : secHdrType m = headerType := by
        rw [secHdrType, h0]
        exact hfields.1
      have hpd : m 0 &&& 0x0F ≠ mmePdEpsSessionManagement := by
        rw [h0, hfields.2]
        decide
      have hpd' : m 6 &&& 0x0F ≠ mmePdEpsSessionManagement := by
        rw [h6]
        decide
      -- it is neither plain nor a service request
      have hplain : headerType ≠ mmeSecurityHdrTypePlainNas := by
        rintro rfl
        exact absurd valid.1 (by decide)
      have hno : headerType ≠ mmeSecurityHdrTypeServiceRequest := by
        rintro rfl
        exact absurd valid.2 (by decide)
      constructor
      · rw [mmeParseMsgHeader_snd, hsec, if_neg hno, typeOffset, if_neg hpd, hsec, if_neg hplain,
          if_neg hpd', htype]
      · rw [bodyOffset, hsec, if_neg hplain]
        exact hmsg.tail.tail

/-- An attach request that is encoded is accepted. -/
theorem esmFits_encode (c : AttachContents) (h : Reads m (bodyOffset m) c.encode) : EsmFits m := by
  obtain ⟨hok, -, -⟩ := attachMandatory_encode c default h.left
  obtain ⟨haccepts, -⟩ := mmeUnpackAttachRequestMsg_spec m default
  have htrue : (mmeUnpackAttachRequestMsg m default).1 = true := by
    unfold mmeUnpackAttachRequestMsg
    rcases hr : attachMandatory m default with ⟨ok, r, q⟩
    rw [hr] at hok
    cases hok
    rfl
  rw [haccepts] at htrue
  exact of_decide_eq_true htrue

/-- **A NAS message tells its identity.** -/
theorem nasTold_encode (protection : NasProtection) (message : MobilityMessage)
    (h : Reads m 0 (message.encode protection)) :
    nasTold m = message.collected.toList := by
  obtain ⟨htype, hbody⟩ := header_encode protection message h
  unfold nasTold decoded
  simp only [htype]
  congr 1
  unfold decodedBody
  cases message with
  | identityResponse id => exact mobileIdentityAt_encode id hbody
  | attachRequest contents =>
      have hid : Reads m (bodyOffset m + 1) contents.epsMobileId.encode := hbody.left.tail.left
      show ((if EsmFits m then some (gutiIdentityAt m (bodyOffset m + 1)) else none).bind
        collectedOf) = _
      rw [if_pos (esmFits_encode contents hbody)]
      exact gutiIdentityAt_encode contents.epsMobileId hid
  | trackingAreaUpdateRequest first id rest => exact gutiIdentityAt_encode id hbody.tail.left
  | detachRequest first id rest => exact gutiIdentityAt_encode id hbody.tail.left
  | extendedServiceRequest first id rest => exact tmsiIdentityAt_encode id hbody.tail.left

end Nas

/-! ## RRC messages -/

/-- A RRC connection request with an S-TMSI. -/
structure ConnectionRequest where
  mmec : UInt8
  mTmsi : UInt32
  establishmentCause : Fin 8

/-- `UL-CCCH-Message`: the first alternative, the second message, the first critical
extension, the first kind of identity, the S-TMSI (40), the cause (3) and a spare bit. -/
def encodeConnectionRequest (m : ConnectionRequest) : List Bool :=
  natBits 1 0 ++ (natBits 1 1 ++ (natBits 1 0 ++ (natBits 1 0 ++ (natBits 8 m.mmec.toNat
    ++ (natBits 32 m.mTmsi.toNat ++ (natBits 3 m.establishmentCause.val ++ natBits 1 0))))))

/-- The messages on SRB 1 that hold a NAS message. -/
inductive DcchMessage where
  | ulInformationTransfer
  | rrcConnectionSetupComplete (rrcTransactionId : Fin 4) (selectedPlmn : Fin 6)
      (registeredMme : Option RegisteredMme)

/-- The message with the NAS message in it. -/
def DcchMessage.bits (nas : NasPayload) : DcchMessage → List Bool
  | ulInformationTransfer => encodeUlInfoTransfer nas
  | rrcConnectionSetupComplete tid plmn mme => encodeSetupComplete ⟨tid, plmn, mme, nas⟩

/-- The SDU of RLC: the header of PDCP and the bytes of the message. -/
def DcchMessage.sdu (header : UInt8) (nas : NasPayload) (m : DcchMessage) : List UInt8 :=
  header :: packBytes (m.bits nas)

section Rrc

variable {β : Type} [DecidableEq β] {buff data : Nat → UInt8} {l : List Bool}

/-- The bits are those of the message where the bytes are. -/
theorem spells_of_reads (buff : Nat → UInt8) (h : Reads data 0 (packBytes l)) :
    Spells (convertBytesToBitsVector buff data ((packBytes l).length * 8)) 0 l := by
  have hbytes : ∀ k < (packBytes l).length, data k = (packBytes l).getD k 0 := by
    intro k hk
    have hread := h k hk
    rw [zero_add] at hread
    rw [hread, List.getD_eq_getElem _ _ hk]
  rw [convertBytesToBitsVector_congr buff hbytes]
  exact spells_convertBytesToBitsVector buff l

theorem length_encodeConnectionRequest (m : ConnectionRequest) :
    (encodeConnectionRequest m).length = 48 := by
  simp [encodeConnectionRequest]

/-- **A connection request is parsed as it was encoded.** -/
theorem asn1ParseRrcConnReqMsg_encode (buff : Nat → UInt8) (m : ConnectionRequest)
    (req : RrcConnectionRequest)
    (h : Reads data 0 (packBytes (encodeConnectionRequest m))) :
    ∃ x, (asn1ParseRrcConnReqMsg buff data (packBytes (encodeConnectionRequest m)).length req).2
        = some x ∧ x.ueIdType = conReqUeIdTypeSTmsi ∧ x.mmec = m.mmec ∧ x.mTmsi = m.mTmsi := by
  have hspells := spells_of_reads buff h
  have hlen : (packBytes (encodeConnectionRequest m)).length = 6 := by
    rw [length_packBytes, length_encodeConnectionRequest]
  obtain ⟨-, hspells'⟩ := hspells.zero
  obtain ⟨-, hspells'⟩ := hspells'.one
  obtain ⟨-, hspells'⟩ := hspells'.zero
  obtain ⟨hkind, hspells'⟩ := hspells'.zero
  obtain ⟨hmmec, hspells'⟩ := hspells'.element (by decide) m.mmec.toNat_lt
  obtain ⟨htmsi, -⟩ := hspells'.element (by decide) m.mTmsi.toNat_lt
  unfold asn1ParseRrcConnReqMsg
  simp only
  rw [hlen] at hkind hmmec htmsi ⊢
  rw [if_neg (by decide)]
  refine ⟨_, rfl, ?_⟩
  unfold rrcUnpackRrcConnectionRequestMsg
  have hkind' : bits2Value (convertBytesToBitsVector buff data (6 * 8)) (2 + 1) 1
      = conReqUeIdTypeSTmsi := hkind
  simp only [hkind', if_true]
  refine ⟨trivial, ?_, ?_⟩
  · have hmmec' : bits2Value (convertBytesToBitsVector buff data (6 * 8)) (2 + 2) 8
        = UInt32.ofNat m.mmec.toNat := hmmec
    rw [hmmec']
    simp
  · have htmsi' : bits2Value (convertBytesToBitsVector buff data (6 * 8)) (2 + 10) 32
        = UInt32.ofNat m.mTmsi.toNat := htmsi
    rw [htmsi']
    simp

/-- What a connection request with an S-TMSI tells, whatever follows it in memory. -/
theorem connectionRequest_told (env : Platform β) (m : ConnectionRequest) {s : RrcState β} {b : β}
    (hbytes : ∀ k (h : k < (packBytes (encodeConnectionRequest m)).length),
      s.mem.bytes b k = (packBytes (encodeConnectionRequest m))[k]) :
    ccchTold env s (s.mem.bytes b) (packBytes (encodeConnectionRequest m)).length
      = [.mTmsi m.mTmsi] := by
  have hread : Reads (s.mem.bytes b) 0 (packBytes (encodeConnectionRequest m)) := by
    intro k hk
    rw [zero_add]
    exact hbytes k hk
  have hlen : (packBytes (encodeConnectionRequest m)).length = 6 := by
    rw [length_packBytes, length_encodeConnectionRequest]
  -- the second bit says which message it is
  have hkind : (s.mem.bytes b 0 >>> 6) &&& 0x01 = rrcUlCcchMsgTypeRrcConReq := by
    have hspells := spells_of_reads s.gMsgBitBuffer hread 1 (by simp [encodeConnectionRequest])
    rw [hlen] at hspells
    exact hspells
  obtain ⟨x, hx, htype, -, htmsi⟩ := asn1ParseRrcConnReqMsg_encode s.gMsgBitBuffer m
    (env.leftover s.mem.clock).rrcConnectionRequest hread
  unfold ccchTold
  rw [if_neg (by rw [hlen]; decide), if_pos hkind, hx]
  simp only
  rw [if_pos htype, htmsi]

/-- **A connection request with an S-TMSI tells it.** -/
theorem connectionRequest_tells (env : Platform β) (m : ConnectionRequest) :
    CcchTells env (packBytes (encodeConnectionRequest m)) (.mTmsi m.mTmsi) := by
  intro s b hbytes
  rw [connectionRequest_told env m hbytes]
  exact List.mem_singleton_self _

/-- It tells nothing else. -/
theorem connectionRequest_mayTell (env : Platform β) (m : ConnectionRequest) {x : Collected}
    (h : CcchMayTell env (packBytes (encodeConnectionRequest m)) x) : x = .mTmsi m.mTmsi := by
  obtain ⟨s, b, hbytes, htold⟩ := h
  rw [connectionRequest_told env m hbytes] at htold
  exact List.mem_singleton.mp htold

/-- The message type in the first byte of a message on the DCCH is one of those with a NAS
message. -/
def CarriesNas (byte : UInt8) : Prop :=
  (byte >>> 3) &&& 0x0f = rrcUlDcchMsgTypeUlInfoTransfer ∨
    (byte >>> 3) &&& 0x0f = rrcUlDcchMsgTypeRrcConSetupComplete

instance (byte : UInt8) : Decidable (CarriesNas byte) := inferInstanceAs (Decidable (_ ∨ _))

/-- **An SDU without a NAS message tells nothing**, whatever is in memory. -/
theorem not_mayTell (env : Platform β) {lcId : Nat} {first second : UInt8} {rest : List UInt8}
    (hlc : 0 < lcId) (hfirst : ¬CarriesNas first) (hsecond : ¬CarriesNas second) (x : Collected) :
    ¬MayTell env lcId (first :: second :: rest) x := by
  rintro ⟨s, b, hbytes, htold⟩
  have h0 : s.mem.bytes b 0 = first := hbytes 0 (Nat.zero_lt_succ _)
  have h1 : s.mem.bytes b 1 = second := hbytes 1 (Nat.succ_lt_succ (Nat.zero_lt_succ _))
  -- the byte that is taken for the first one of the message
  have hbyte : ¬CarriesNas ((s.mem.dropFront b 1).bytes b 0) := by
    unfold Store.dropFront
    split
    · rwa [h0]
    · split
      · show ¬CarriesNas (s.mem.bytes b 0)
        rwa [h0]
      · simp only [Function.update_self]
        split
        · rwa [h1]
        · rwa [h0]
  have hnone : ∀ size, dcchTold env { s with mem := s.mem.dropFront b 1 }
      ((s.mem.dropFront b 1).bytes b) size = [] := by
    intro size
    unfold dcchTold
    simp only
    rw [if_neg fun h => hbyte (Or.inl h), if_neg fun h => hbyte (Or.inr h)]
  unfold sduTold at htold
  simp only [gt_iff_lt, hlc, if_true, hnone, ite_self, List.not_mem_nil] at htold

/-- The message type in the first byte. -/
theorem dcchType_encode {msgType : UInt8}
    (h : msgType = rrcUlDcchMsgTypeUlInfoTransfer ∨ msgType = rrcUlDcchMsgTypeRrcConSetupComplete)
    (rest : List Bool) :
    (byteAt (encodeUlDcchHeader msgType ++ rest) 0 >>> 3) &&& 0x0f = msgType := by
  have hbits : ∀ a b c : Bool,
      (UInt8.ofNat (ofBits (encodeUlDcchHeader rrcUlDcchMsgTypeUlInfoTransfer ++ [a, b, c])) >>> 3)
          &&& 0x0f = rrcUlDcchMsgTypeUlInfoTransfer ∧
        (UInt8.ofNat (ofBits (encodeUlDcchHeader rrcUlDcchMsgTypeRrcConSetupComplete
          ++ [a, b, c])) >>> 3) &&& 0x0f = rrcUlDcchMsgTypeRrcConSetupComplete := by decide
  have hbyte := hbits (rest.getD 0 false) (rest.getD 1 false) (rest.getD 2 false)
  rcases h with rfl | rfl
  · exact hbyte.1
  · exact hbyte.2

/-- The byte `0` of packed bits. -/
theorem reads_byteAt (h : Reads data 0 (packBytes l)) (hl : 0 < l.length) :
    data 0 = byteAt l 0 := by
  have hlen : 0 < (packBytes l).length := by
    rw [length_packBytes]
    omega
  have hread := h 0 hlen
  rw [zero_add] at hread
  rw [hread]
  simp [packBytes]

/-- The NAS message is found where it was copied to. -/
theorem reads_of_holds {x : SimpleByteMsg} {nas : NasPayload} (h : HoldsNas x nas) :
    Reads x.msg 0 nas.bytes := by
  intro k hk
  rw [zero_add]
  exact h.msg k hk

/-- **A message on the DCCH tells what its NAS message tells.** -/
theorem dcchTold_encode (env : Platform β) (s : RrcState β) (nas : NasPayload)
    (m : DcchMessage) {x : Collected} (hnas : ∀ msg, Reads msg 0 nas.bytes → x ∈ nasTold msg)
    (hmax : (packBytes (m.bits nas)).length ≤ liblteMaxMsgSizeBytes)
    (h : Reads data 0 (packBytes (m.bits nas))) :
    x ∈ dcchTold env s data (packBytes (m.bits nas)).length := by
  have hspells := spells_of_reads s.gMsgBitBuffer h
  have hbits : (packBytes (m.bits nas)).length * 8 ≤ liblteMaxMsgSizeBits :=
    Nat.mul_le_mul_right 8 hmax
  have hlen : (m.bits nas).length ≤ (packBytes (m.bits nas)).length * 8 := by
    rw [length_packBytes]
    omega
  unfold dcchTold
  simp only
  cases m with
  | ulInformationTransfer =>
      have htype : (data 0 >>> 3) &&& 0x0f = rrcUlDcchMsgTypeUlInfoTransfer := by
        rw [reads_byteAt h (by simp [DcchMessage.bits, encodeUlInfoTransfer])]
        exact dcchType_encode (Or.inl rfl) _
      rw [if_pos htype]
      obtain ⟨y, hy, hkind, hholds⟩ := ulInfoTransfer_spells nas
        (env.leftover s.mem.clock).ulInformationTransfer hspells hlen hbits
      have hparse : (asn1ParseUlInfoTransMsg s.gMsgBitBuffer data
          (packBytes (DcchMessage.bits nas .ulInformationTransfer)).length
          (env.leftover s.mem.clock).ulInformationTransfer).2 = some y := by
        unfold asn1ParseUlInfoTransMsg
        simp only
        rw [if_neg (Nat.not_lt.mpr hbits)]
        simp only [hy, if_true]
      unfold ulInfoTold
      rw [hparse]
      simp only
      rw [if_pos hkind]
      exact hnas _ (reads_of_holds hholds)
  | rrcConnectionSetupComplete tid plmn mme =>
      have htype : (data 0 >>> 3) &&& 0x0f = rrcUlDcchMsgTypeRrcConSetupComplete := by
        rw [reads_byteAt h (by simp [DcchMessage.bits, encodeSetupComplete])]
        exact dcchType_encode (Or.inr rfl) _
      rw [if_neg (by rw [htype]; decide), if_pos htype]
      obtain ⟨y, hy, hholds⟩ := setupComplete_spells ⟨tid, plmn, mme, nas⟩
        (env.leftover s.mem.clock).rrcConnectionSetupComplete hspells hlen hbits
      have hparse : (asn1ParseRrcSetupComplMsg s.gMsgBitBuffer data
          (packBytes (DcchMessage.bits nas (.rrcConnectionSetupComplete tid plmn mme))).length
          (env.leftover s.mem.clock).rrcConnectionSetupComplete).2 = some y := by
        unfold asn1ParseRrcSetupComplMsg
        simp only
        rw [if_neg (Nat.not_lt.mpr hbits)]
        simp only [hy, if_true]
      unfold setupComplTold
      rw [hparse]
      exact hnas _ (reads_of_holds hholds.nas)

/-- The bytes behind those that are removed. -/
theorem dropFront_bytes {m : Store β} {b : β} {k : Nat} (h : 0 < m.length b)
    (hk : k < m.length b - 1) : (m.dropFront b 1).bytes b k = m.bytes b (1 + k) := by
  unfold Store.dropFront
  rw [if_neg h.ne', if_neg (by omega)]
  simp only [Function.update_self]
  rw [if_pos hk]

/-- **An SDU on SRB 1 tells the identity of its NAS message**, in every state and whichever
block it is in. -/
theorem rrcMessage_tells (env : Platform β) (header : UInt8) (nas : NasPayload)
    (m : DcchMessage) (protection : NasProtection) (message : MobilityMessage)
    (hnas : nas.bytes = message.encode protection) {x : Collected}
    (hx : message.collected = some x)
    (hmax : (packBytes (m.bits nas)).length ≤ liblteMaxMsgSizeBytes) :
    Tells env 1 (m.sdu header nas) x := by
  intro s b hlen hbytes
  have hsdu : (m.sdu header nas).length = (packBytes (m.bits nas)).length + 1 := rfl
  have hpos : 0 < (packBytes (m.bits nas)).length := by
    rw [length_packBytes]
    cases m <;>
      simp [DcchMessage.bits, encodeUlInfoTransfer, encodeSetupComplete, encodeUlDcchHeader]
  have hlt : (m.sdu header nas).length < 2 ^ 16 := by
    rw [hsdu]
    exact lt_of_le_of_lt (Nat.succ_le_succ hmax) (by decide)
  have hsize : (UInt16.ofNat (m.sdu header nas).length).toNat
      = (packBytes (m.bits nas)).length + 1 := by
    rw [UInt16.toNat_ofNat', Nat.mod_eq_of_lt hlt, hsdu]
  have hless : (UInt16.ofNat (m.sdu header nas).length - 1).toNat
      = (packBytes (m.bits nas)).length := by
    rw [UInt16.toNat_sub_of_le, hsize]
    · rfl
    · rw [UInt16.le_iff_toNat_le, hsize]
      exact Nat.le_add_left 1 _
  have hcond : ¬(UInt16.ofNat (m.sdu header nas).length = 0 ∨ 2 ≤ 1 ∨
      (UInt16.ofNat (m.sdu header nas).length - 1).toNat = 0) := by
    rintro (h | h | h)
    · rw [h] at hsize
      cases hsize
    · omega
    · omega
  -- without the header the message is left
  have hread : Reads ((s.mem.dropFront b 1).bytes b) 0 (packBytes (m.bits nas)) := by
    intro k hk
    have hk' : k + 1 < (m.sdu header nas).length := by omega
    rw [zero_add, dropFront_bytes (by omega) (by omega), add_comm]
    exact hbytes (k + 1) hk'
  unfold sduTold
  simp only
  rw [if_neg hcond, if_pos (by decide), hless]
  refine dcchTold_encode env _ nas m (fun msg hmsg => ?_) hmax hread
  rw [hnas] at hmsg
  rw [nasTold_encode protection message hmsg, hx]
  exact List.mem_singleton_self x

end Rrc

end LteUlp.Worker
