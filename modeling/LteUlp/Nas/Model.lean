import Mathlib.Tactic

set_option autoImplicit false

/-! # The NAS unpackers of `asn1Lib.c`

The unpackers walk a NAS message with a pointer. Here the message is the memory from
`msg->msg[0]` on, a function of the offset, and a pointer is an offset. No unpacker looks
at `N_bytes`, so the memory goes on after the message: what is read there is whatever the
buffer held before. The structures an unpacker fills are not cleared either, so each
function takes the structure it writes to.
-/

namespace LteUlp.Nas

def liblteMaxMsgSizeBytes : Nat := 12756

/-- `LIBLTE_SIMPLE_BYTE_MSG_STRUCT`. -/
structure SimpleByteMsg where
  nBytes : Nat
  msg : Nat → UInt8
  deriving Inhabited

/-! ## Constants -/

def mmePdEpsSessionManagement : UInt8 := 0x2
def mmeSecurityHdrTypePlainNas : UInt8 := 0x0
def mmeSecurityHdrTypeServiceRequest : UInt8 := 0xC

def nasMsgTypeAttachRequest : UInt8 := 0x41
def nasMsgTypeDetachRequest : UInt8 := 0x45
def nasMsgTypeTrackingAreaUpdateRequest : UInt8 := 0x48
def nasMsgTypeExtendedServiceRequest : UInt8 := 0x4C
def nasMsgTypeIdentityResponse : UInt8 := 0x56

def mobileIdTypeImsi : UInt8 := 0x1
def mobileIdTypeImei : UInt8 := 0x2
def mobileIdTypeImeisv : UInt8 := 0x3

def epsMobileIdTypeImsi : UInt8 := 0x1
def epsMobileIdTypeTmsi : UInt8 := 0x4
def epsMobileIdTypeGuti : UInt8 := 0x6

def pTmsiSignatureIei : UInt8 := 0x19
def additionalGutiIei : UInt8 := 0x50
def lastVisitedRegisteredTaiIei : UInt8 := 0x52
def drxParameterIei : UInt8 := 0x5C
def msNetworkCapabilityIei : UInt8 := 0x31
def locationAreaIdentificationIei : UInt8 := 0x13
def tmsiStatusIei : UInt8 := 0x9
def msClassmark2Iei : UInt8 := 0x11
def msClassmark3Iei : UInt8 := 0x20
def supportedCodecListIei : UInt8 := 0x40
def additionalUpdateTypeIei : UInt8 := 0xF
def voiceDomainPrefAndUeUsageSettingIei : UInt8 := 0x5D
def attachRequestDevicePropertiesIei : UInt8 := 0xD
def gutiTypeIei : UInt8 := 0xE

/-! ## The message header -/

/-- `(msg->msg[0] & 0xF0) >> 4`. -/
def secHdrType (m : Nat → UInt8) : UInt8 := (m 0 &&& 0xF0) >>> 4

/-- `liblte_mme_parse_msg_header`: the protocol discriminator and the message type. -/
def mmeParseMsgHeader (m : Nat → UInt8) : UInt8 × UInt8 :=
  let pd := m 0 &&& 0x0F
  if secHdrType m = mmeSecurityHdrTypeServiceRequest then
    (pd, mmeSecurityHdrTypeServiceRequest)
  else if pd = mmePdEpsSessionManagement then (pd, m 2)
  else if secHdrType m = mmeSecurityHdrTypePlainNas then (pd, m 1)
  else
    let pd := m 6 &&& 0x0F
    if pd = mmePdEpsSessionManagement then (pd, m 8) else (pd, m 7)

/-- The offset of the message body: past the header and the message type. -/
def bodyOffset (m : Nat → UInt8) : Nat :=
  (if secHdrType m = mmeSecurityHdrTypePlainNas then 1 else 7) + 1

/-! ## Identities -/

/-- `LIBLTE_MME_MOBILE_ID_STRUCT`. -/
structure MobileId where
  typeOfId : UInt8
  imsi : List UInt8
  imei : List UInt8
  imeisv : List UInt8
  deriving Inhabited

/-- The fifteen digits that begin with the high half of the byte at `p`. -/
def digits (m : Nat → UInt8) (p : Nat) : List UInt8 :=
  (m p >>> 4) ::
    (List.range 7).flatMap fun i => [m (p + 1 + i) &&& 0x0F, m (p + 1 + i) >>> 4]

/-- `liblte_mme_unpack_mobile_id_ie`: whether it succeeds, the structure, the pointer. -/
def mmeUnpackMobileIdIe (m : Nat → UInt8) (p : Nat) (id : MobileId) : Bool × MobileId × Nat :=
  let p := p + 1
  let id := { id with typeOfId := m p &&& 0x07 }
  if id.typeOfId = mobileIdTypeImsi then (true, { id with imsi := digits m p }, p + 1 + 7)
  else if id.typeOfId = mobileIdTypeImei then
    (true, { id with imei := digits m p }, p + 1 + 7)
  else if id.typeOfId = mobileIdTypeImeisv then
    (true, { id with imeisv := digits m p ++ [m (p + 1 + 7) &&& 0x0F] }, p + 1 + 8)
  else (false, id, p)

/-- `liblte_mme_unpack_identity_response_msg`. -/
def mmeUnpackIdentityResponseMsg (m : Nat → UInt8) (id : MobileId) : Bool × MobileId :=
  let r := mmeUnpackMobileIdIe m (bodyOffset m) id
  (r.1, r.2.1)

/-- `LIBLTE_MME_EPS_MOBILE_ID_GUTI_STRUCT`. -/
structure Guti where
  mTmsi : UInt32
  mcc : UInt16
  mnc : UInt16
  mmeGroupId : UInt16
  mmeCode : UInt8
  deriving DecidableEq, Inhabited

/-- `LIBLTE_MME_EPS_MOBILE_ID_STRUCT`. -/
structure EpsMobileId where
  guti : Guti
  typeOfId : UInt8
  imsi : List UInt8
  imei : List UInt8
  mTmsi : UInt32
  deriving DecidableEq, Inhabited

/-- Four bytes, most significant first. -/
def be32 (m : Nat → UInt8) (p : Nat) : UInt32 :=
  ((m p).toUInt32 <<< 24) ||| ((m (p + 1)).toUInt32 <<< 16) ||| ((m (p + 2)).toUInt32 <<< 8)
    ||| (m (p + 3)).toUInt32

/-- Two bytes, most significant first. -/
def be16 (m : Nat → UInt8) (p : Nat) : UInt16 :=
  ((m p).toUInt16 <<< 8) ||| (m (p + 1)).toUInt16

/-- The MCC in the bytes at `p`, which the identities with a PLMN share. -/
def mccAt (m : Nat → UInt8) (p : Nat) : UInt16 :=
  (m p &&& 0x0F).toUInt16 * (100 : UInt16) + ((m p >>> 4) &&& 0x0F).toUInt16 * (10 : UInt16)
    + (m (p + 1) &&& 0x0F).toUInt16

/-- The MNC of two or three digits in the bytes at `p`. -/
def mncAt (m : Nat → UInt8) (p : Nat) : UInt16 :=
  if (m (p + 1) >>> 4) &&& 0x0F = 0x0F then
    (m (p + 2) &&& 0x0F).toUInt16 * (10 : UInt16) + ((m (p + 2) >>> 4) &&& 0x0F).toUInt16
  else
    ((m (p + 1) >>> 4) &&& 0x0F).toUInt16 + (m (p + 2) &&& 0x0F).toUInt16 * (100 : UInt16)
      + ((m (p + 2) >>> 4) &&& 0x0F).toUInt16 * (10 : UInt16)

/-- `liblte_mme_unpack_eps_mobile_id_ie`. -/
def mmeUnpackEpsMobileIdIe (m : Nat → UInt8) (p : Nat) (id : EpsMobileId) :
    EpsMobileId × Nat :=
  let p := p + 1
  let id := { id with typeOfId := m p &&& 0x07 }
  if id.typeOfId = epsMobileIdTypeGuti then
    let p := p + 1
    ({ id with guti :=
        { mcc := mccAt m p
          mnc := mncAt m p
          mmeGroupId := be16 m (p + 3)
          mmeCode := m (p + 5)
          mTmsi := be32 m (p + 6) } }, p + 10)
  else if id.typeOfId = epsMobileIdTypeTmsi then
    let p := p + 1
    ({ id with mTmsi := be32 m p }, p + 4)
  else if id.typeOfId = epsMobileIdTypeImsi then ({ id with imsi := digits m p }, p + 1 + 7)
  else ({ id with imei := digits m p }, p + 1 + 7)

/-! ## Short requests -/

/-- `LIBLTE_MME_NAS_KEY_SET_ID_STRUCT`. -/
structure NasKeySetId where
  tscFlag : UInt8
  nasKsi : UInt8
  deriving DecidableEq, Inhabited

/-- `liblte_mme_unpack_nas_key_set_id_ie` with the bit offset `4`, as all callers have it. -/
def mmeUnpackNasKeySetIdIe (m : Nat → UInt8) (p : Nat) : NasKeySetId :=
  ⟨(m p >>> 7) &&& 0x01, (m p >>> 4) &&& 0x07⟩

/-- `LIBLTE_MME_DETACH_REQUEST_MSG_STRUCT`, with the detach type inlined. -/
structure DetachRequest where
  switchOff : UInt8
  typeOfDetach : UInt8
  nasKsi : NasKeySetId
  epsMobileId : EpsMobileId
  deriving Inhabited

/-- `liblte_mme_unpack_detach_request_msg`. -/
def mmeUnpackDetachRequestMsg (m : Nat → UInt8) (req : DetachRequest) : DetachRequest :=
  let p := bodyOffset m
  { switchOff := (m p >>> 3) &&& 0x01
    typeOfDetach := m p &&& 0x07
    nasKsi := mmeUnpackNasKeySetIdIe m p
    epsMobileId := (mmeUnpackEpsMobileIdIe m (p + 1) req.epsMobileId).1 }

/-- `LIBLTE_MME_EXTENDED_SERVICE_REQUEST_STRUCT`. -/
structure ExtServiceRequest where
  serviceType : UInt8
  nasKsi : NasKeySetId
  epsMobileId : EpsMobileId
  deriving Inhabited

/-- `liblte_mme_unpack_ext_service_request_msg`. -/
def mmeUnpackExtServiceRequestMsg (m : Nat → UInt8) (req : ExtServiceRequest) :
    ExtServiceRequest :=
  let p := bodyOffset m
  { serviceType := m p &&& 0x0F
    nasKsi := mmeUnpackNasKeySetIdIe m p
    epsMobileId := (mmeUnpackEpsMobileIdIe m (p + 1) req.epsMobileId).1 }

/-- `LIBLTE_MME_TAU_REQ_STRUCT`, with the update type inlined. -/
structure TauRequest where
  updateType : UInt8
  activeFlag : UInt8
  nasKsi : NasKeySetId
  epsMobileId : EpsMobileId
  deriving Inhabited

/-- `liblte_mme_unpack_tau_request_msg`. -/
def mmeUnpackTauRequestMsg (m : Nat → UInt8) (req : TauRequest) : TauRequest :=
  let p := bodyOffset m
  { updateType := m p &&& 0x07
    activeFlag := (m p &&& 0x08) >>> 3
    nasKsi := mmeUnpackNasKeySetIdIe m p
    epsMobileId := (mmeUnpackEpsMobileIdIe m (p + 1) req.epsMobileId).1 }

end LteUlp.Nas
