import LteUlp.Nas.Model

set_option autoImplicit false

/-! # `liblte_mme_unpack_attach_request_msg`

The attach request has a mandatory part (type, key set, identity, UE network capability and
the ESM message container) and fourteen optional elements in a fixed order. Each unpacker of
an element is a function of the memory and the pointer, as in `Nas/Model.lean`.
-/

namespace LteUlp.Nas

/-- Bit `k` of a byte. -/
def bit (b : UInt8) (k : UInt8) : UInt8 := (b >>> k) &&& 0x01

/-! ## Mandatory elements -/

/-- `LIBLTE_MME_UE_NETWORK_CAPABILITY_STRUCT`. The algorithm flags are listed from index
`0`; `uia` from index `1`. -/
structure UeNetworkCapability where
  eea : List UInt8
  eia : List UInt8
  uea : List UInt8
  ueaPresent : Bool
  ucs2 : UInt8
  ucs2Present : Bool
  uia : List UInt8
  uiaPresent : Bool
  lpp : UInt8
  lppPresent : Bool
  lcs : UInt8
  lcsPresent : Bool
  onexsrvcc : UInt8
  onexsrvccPresent : Bool
  nf : UInt8
  nfPresent : Bool
  deriving Inhabited

/-- The eight bits of a byte, most significant first. -/
def bits8 (b : UInt8) : List UInt8 :=
  [bit b 7, bit b 6, bit b 5, bit b 4, bit b 3, bit b 2, bit b 1, bit b 0]

/-- `liblte_mme_unpack_ue_network_capability_ie`. -/
def mmeUnpackUeNetworkCapabilityIe (m : Nat → UInt8) (p : Nat) (cap : UeNetworkCapability) :
    UeNetworkCapability × Nat :=
  let length := (m p).toNat
  let cap := { cap with eea := bits8 (m (p + 1)), eia := bits8 (m (p + 2)) }
  let p := p + 3
  let (cap, p) :=
    if length > 2 then ({ cap with uea := bits8 (m p), ueaPresent := true }, p + 1)
    else ({ cap with ueaPresent := false }, p)
  let (cap, p) :=
    if length > 3 then
      ({ cap with
          ucs2 := bit (m p) 7
          ucs2Present := true
          uia := (bits8 (m p)).tail
          uiaPresent := true }, p + 1)
    else ({ cap with ucs2Present := false, uiaPresent := false }, p)
  let (cap, p) :=
    if length > 4 then
      ({ cap with
          lpp := bit (m p) 3
          lppPresent := true
          lcs := bit (m p) 2
          lcsPresent := true
          onexsrvcc := bit (m p) 1
          onexsrvccPresent := true
          nf := m p >>> 1
          nfPresent := true }, p + 1)
    else
      ({ cap with
          lppPresent := false
          lcsPresent := false
          onexsrvccPresent := false
          nfPresent := false }, p)
  (cap, if length > 5 then p + (length - 5) else p)

/-- `liblte_mme_unpack_esm_message_container_ie`: whether it succeeds, the container and the
pointer. -/
def mmeUnpackEsmMessageContainerIe (m : Nat → UInt8) (p : Nat) (esm : SimpleByteMsg) :
    Bool × SimpleByteMsg × Nat :=
  let nBytes := ((m p).toNat <<< 8) ||| (m (p + 1)).toNat
  if nBytes > liblteMaxMsgSizeBytes then (false, { esm with nBytes := 0 }, p)
  else
    (true, ⟨nBytes, fun i => if i < nBytes then m (p + 2 + i) else esm.msg i⟩, p + (nBytes + 2))

/-! ## Optional elements -/

/-- A tracking or location area: `LIBLTE_MME_TRACKING_AREA_ID_STRUCT` and
`LIBLTE_MME_LOCATION_AREA_ID_STRUCT`, with the `tac` or `lac` as `code`. -/
structure AreaId where
  mcc : UInt16
  mnc : UInt16
  code : UInt16
  deriving DecidableEq, Inhabited

/-- What the unpackers of a tracking and of a location area share. -/
def unpackAreaId (m : Nat → UInt8) (p : Nat) : AreaId := ⟨mccAt m p, mncAt m p, be16 m (p + 3)⟩

/-- `liblte_mme_unpack_tracking_area_id_ie`. -/
def mmeUnpackTrackingAreaIdIe (m : Nat → UInt8) (p : Nat) : AreaId × Nat :=
  (unpackAreaId m p, p + 5)

/-- `liblte_mme_unpack_location_area_id_ie`. -/
def mmeUnpackLocationAreaIdIe (m : Nat → UInt8) (p : Nat) : AreaId × Nat :=
  (unpackAreaId m p, p + 5)

/-- `LIBLTE_MME_DRX_PARAMETER_STRUCT`. -/
structure DrxParameter where
  nonDrxTimer : UInt8
  splitPgCycleCode : UInt8
  drxCycleLenCoeffAndValue : UInt8
  splitOnCcch : UInt8
  deriving DecidableEq, Inhabited

/-- `liblte_mme_unpack_drx_parameter_ie`. -/
def mmeUnpackDrxParameterIe (m : Nat → UInt8) (p : Nat) : DrxParameter × Nat :=
  ({ splitPgCycleCode := m p
     drxCycleLenCoeffAndValue := (m (p + 1) >>> 4) &&& 0x0F
     splitOnCcch := bit (m (p + 1)) 3
     nonDrxTimer := m (p + 1) &&& 0x07 }, p + 2)

/-- `LIBLTE_MME_MS_NETWORK_CAPABILITY_STRUCT`; `gea` from index `1`. -/
structure MsNetworkCapability where
  ssScreening : UInt8
  gea : List UInt8
  smCapDed : UInt8
  smCapGprs : UInt8
  ucs2 : UInt8
  solsa : UInt8
  revision : UInt8
  pfc : UInt8
  lcsva : UInt8
  hoG2uViaIu : UInt8
  hoG2eViaS1 : UInt8
  emmComb : UInt8
  isr : UInt8
  srvcc : UInt8
  epc : UInt8
  nf : UInt8
  deriving DecidableEq, Inhabited

/-- `liblte_mme_unpack_ms_network_capability_ie`. -/
def mmeUnpackMsNetworkCapabilityIe (m : Nat → UInt8) (p : Nat) : MsNetworkCapability × Nat :=
  let b1 := m (p + 1)
  let b2 := m (p + 2)
  let b3 := m (p + 3)
  ({ gea := [bit b1 7, bit b2 6, bit b2 5, bit b2 4, bit b2 3, bit b2 2, bit b2 1]
     smCapDed := bit b1 6
     smCapGprs := bit b1 5
     ucs2 := bit b1 4
     ssScreening := (b1 >>> 2) &&& 0x03
     solsa := bit b1 1
     revision := bit b1 0
     pfc := bit b2 7
     lcsva := bit b2 0
     hoG2uViaIu := bit b3 7
     hoG2eViaS1 := bit b3 6
     emmComb := bit b3 5
     isr := bit b3 4
     srvcc := bit b3 3
     epc := bit b3 2
     nf := bit b3 1 }, p + ((m p).toNat + 1))

/-- `LIBLTE_MME_MOBILE_STATION_CLASSMARK_2_STRUCT`. -/
structure MobileStationClassmark2 where
  revLev : UInt8
  rfPowerCap : UInt8
  ssScreenInd : UInt8
  esInd : UInt8
  a5_1 : UInt8
  psCap : UInt8
  smCap : UInt8
  vbs : UInt8
  vgcs : UInt8
  fc : UInt8
  cm3 : UInt8
  lcsvaCap : UInt8
  ucs2 : UInt8
  solsa : UInt8
  cmsp : UInt8
  a5_3 : UInt8
  a5_2 : UInt8
  deriving DecidableEq, Inhabited

/-- `liblte_mme_unpack_mobile_station_classmark_2_ie`. -/
def mmeUnpackMobileStationClassmark2Ie (m : Nat → UInt8) (p : Nat) :
    MobileStationClassmark2 × Nat :=
  let b1 := m (p + 1)
  let b2 := m (p + 2)
  let b3 := m (p + 3)
  ({ revLev := (b1 >>> 5) &&& 0x03
     esInd := bit b1 4
     a5_1 := bit b1 3
     rfPowerCap := b1 &&& 0x07
     psCap := bit b2 6
     ssScreenInd := (b2 >>> 4) &&& 0x03
     smCap := bit b2 3
     vbs := bit b2 2
     vgcs := bit b2 1
     fc := bit b2 0
     cm3 := bit b3 7
     lcsvaCap := bit b3 5
     ucs2 := bit b3 4
     solsa := bit b3 3
     cmsp := bit b3 2
     a5_3 := bit b3 1
     a5_2 := bit b3 0 }, p + 4)

/-- `LIBLTE_MME_SUPPORTED_CODEC_STRUCT`. -/
structure SupportedCodec where
  sysId : UInt8
  codecBitmap : UInt16
  deriving DecidableEq, Inhabited

/-- `liblte_mme_unpack_supported_codec_list_ie`. -/
def mmeUnpackSupportedCodecListIe (m : Nat → UInt8) (p : Nat) : List SupportedCodec × Nat :=
  let n := (m p).toNat / 4
  ((List.range n).map fun i => ⟨m (p + 1 + i * 4), be16 m (p + 1 + i * 4 + 2)⟩, p + (n * 4 + 1))

/-- `LIBLTE_MME_VOICE_DOMAIN_PREF_AND_UE_USAGE_SETTING_STRUCT`. -/
structure VoiceDomainPref where
  ueUsageSetting : UInt8
  voiceDomainPref : UInt8
  deriving DecidableEq, Inhabited

/-- `liblte_mme_unpack_voice_domain_pref_and_ue_usage_setting_ie`. -/
def mmeUnpackVoiceDomainPrefIe (m : Nat → UInt8) (p : Nat) : VoiceDomainPref × Nat :=
  (⟨bit (m (p + 1)) 2, m (p + 1) &&& 0x03⟩, p + 2)

/-! ## The message -/

/-- `LIBLTE_MME_ATTACH_REQUEST_MSG_STRUCT`. An element whose flag says that it is not present
keeps the value the structure held before. Classmark 3 has no fields. -/
structure AttachRequest where
  nasKsi : NasKeySetId
  epsMobileId : EpsMobileId
  ueNetworkCap : UeNetworkCapability
  esmMsg : SimpleByteMsg
  epsAttachType : UInt8
  oldPTmsiSignature : UInt32
  oldPTmsiSignaturePresent : Bool
  additionalGuti : EpsMobileId
  additionalGutiPresent : Bool
  lastVisitedRegisteredTai : AreaId
  lastVisitedRegisteredTaiPresent : Bool
  drxParam : DrxParameter
  drxParamPresent : Bool
  msNetworkCap : MsNetworkCapability
  msNetworkCapPresent : Bool
  oldLai : AreaId
  oldLaiPresent : Bool
  tmsiStatus : UInt8
  tmsiStatusPresent : Bool
  msCm2 : MobileStationClassmark2
  msCm2Present : Bool
  msCm3Present : Bool
  supportedCodecs : List SupportedCodec
  supportedCodecsPresent : Bool
  additionalUpdateType : UInt8
  additionalUpdateTypePresent : Bool
  voiceDomainPref : VoiceDomainPref
  voiceDomainPrefPresent : Bool
  deviceProperties : UInt8
  devicePropertiesPresent : Bool
  oldGutiType : UInt8
  oldGutiTypePresent : Bool
  deriving Inhabited

/-- The mandatory part, up to the ESM message container. -/
def attachMandatory (m : Nat → UInt8) (req : AttachRequest) : Bool × AttachRequest × Nat :=
  let p := bodyOffset m
  let req := { req with
    epsAttachType := m p &&& 0x07
    nasKsi := mmeUnpackNasKeySetIdIe m p }
  let (id, p) := mmeUnpackEpsMobileIdIe m (p + 1) req.epsMobileId
  let (cap, p) := mmeUnpackUeNetworkCapabilityIe m p req.ueNetworkCap
  let (ok, esm, p) := mmeUnpackEsmMessageContainerIe m p req.esmMsg
  (ok, { req with epsMobileId := id, ueNetworkCap := cap, esmMsg := esm }, p)

/-- What the unpacker does at the place of an optional element: with the structure so far and
the pointer, whether or not the element is there. -/
abbrev OptionalElement := (Nat → UInt8) → AttachRequest → Nat → AttachRequest × Nat

def oldPTmsiSignature : OptionalElement := fun m req p =>
  if m p = pTmsiSignatureIei then
    ({ req with
        oldPTmsiSignature := be32 m (p + 1), oldPTmsiSignaturePresent := true }, p + 1 + 4)
  else ({ req with oldPTmsiSignaturePresent := false }, p)

def additionalGuti : OptionalElement := fun m req p =>
  if m p = additionalGutiIei then
    let r := mmeUnpackEpsMobileIdIe m (p + 1) req.additionalGuti
    ({ req with additionalGuti := r.1, additionalGutiPresent := true }, r.2)
  else ({ req with additionalGutiPresent := false }, p)

def lastVisitedRegisteredTai : OptionalElement := fun m req p =>
  if m p = lastVisitedRegisteredTaiIei then
    let r := mmeUnpackTrackingAreaIdIe m (p + 1)
    ({ req with
        lastVisitedRegisteredTai := r.1, lastVisitedRegisteredTaiPresent := true }, r.2)
  else ({ req with lastVisitedRegisteredTaiPresent := false }, p)

def drxParam : OptionalElement := fun m req p =>
  if m p = drxParameterIei then
    let r := mmeUnpackDrxParameterIe m (p + 1)
    ({ req with drxParam := r.1, drxParamPresent := true }, r.2)
  else ({ req with drxParamPresent := false }, p)

def msNetworkCap : OptionalElement := fun m req p =>
  if m p = msNetworkCapabilityIei then
    let r := mmeUnpackMsNetworkCapabilityIe m (p + 1)
    ({ req with msNetworkCap := r.1, msNetworkCapPresent := true }, r.2)
  else ({ req with msNetworkCapPresent := false }, p)

def oldLai : OptionalElement := fun m req p =>
  if m p = locationAreaIdentificationIei then
    let r := mmeUnpackLocationAreaIdIe m (p + 1)
    ({ req with oldLai := r.1, oldLaiPresent := true }, r.2)
  else ({ req with oldLaiPresent := false }, p)

def tmsiStatus : OptionalElement := fun m req p =>
  if m p &&& (0xF0 : UInt8) = tmsiStatusIei <<< 4 then
    ({ req with tmsiStatus := bit (m p) 0, tmsiStatusPresent := true }, p + 1)
  else ({ req with tmsiStatusPresent := false }, p)

def msCm2 : OptionalElement := fun m req p =>
  if m p = msClassmark2Iei then
    let r := mmeUnpackMobileStationClassmark2Ie m (p + 1)
    ({ req with msCm2 := r.1, msCm2Present := true }, r.2)
  else ({ req with msCm2Present := false }, p)

/-- The unpacker of classmark 3 neither reads nor skips the element: the pointer stays after
its tag. -/
def msCm3 : OptionalElement := fun m req p =>
  if m p = msClassmark3Iei then ({ req with msCm3Present := true }, p + 1)
  else ({ req with msCm3Present := false }, p)

def supportedCodecs : OptionalElement := fun m req p =>
  if m p = supportedCodecListIei then
    let r := mmeUnpackSupportedCodecListIe m (p + 1)
    ({ req with supportedCodecs := r.1, supportedCodecsPresent := true }, r.2)
  else ({ req with supportedCodecsPresent := false }, p)

def additionalUpdateType : OptionalElement := fun m req p =>
  if m p &&& (0xF0 : UInt8) = additionalUpdateTypeIei <<< 4 then
    ({ req with additionalUpdateType := bit (m p) 0, additionalUpdateTypePresent := true },
      p + 1)
  else ({ req with additionalUpdateTypePresent := false }, p)

def voiceDomainPref : OptionalElement := fun m req p =>
  if m p = voiceDomainPrefAndUeUsageSettingIei then
    let r := mmeUnpackVoiceDomainPrefIe m (p + 1)
    ({ req with voiceDomainPref := r.1, voiceDomainPrefPresent := true }, r.2)
  else ({ req with voiceDomainPrefPresent := false }, p)

def deviceProperties : OptionalElement := fun m req p =>
  if m p &&& (0xF0 : UInt8) = attachRequestDevicePropertiesIei <<< 4 then
    ({ req with deviceProperties := bit (m p) 0, devicePropertiesPresent := true }, p + 1)
  else ({ req with devicePropertiesPresent := false }, p)

def oldGutiType : OptionalElement := fun m req p =>
  if m p &&& (0xF0 : UInt8) = gutiTypeIei <<< 4 then
    ({ req with oldGutiType := bit (m p) 0, oldGutiTypePresent := true }, p + 1)
  else ({ req with oldGutiTypePresent := false }, p)

/-- The optional elements in the order of the message. -/
def optionalElements : List OptionalElement :=
  [oldPTmsiSignature, additionalGuti, lastVisitedRegisteredTai, drxParam, msNetworkCap, oldLai,
    tmsiStatus, msCm2, msCm3, supportedCodecs, additionalUpdateType, voiceDomainPref,
    deviceProperties, oldGutiType]

/-- The optional part, one element after the other from the pointer `p`. -/
def attachOptional (m : Nat → UInt8) (req : AttachRequest) (p : Nat) : AttachRequest :=
  (optionalElements.foldl (fun r element => element m r.1 r.2) (req, p)).1

/-- `liblte_mme_unpack_attach_request_msg`: whether it succeeds, and the structure. -/
def mmeUnpackAttachRequestMsg (m : Nat → UInt8) (req : AttachRequest) : Bool × AttachRequest :=
  match attachMandatory m req with
  | (false, req, _) => (false, req)
  | (true, req, p) => (true, attachOptional m req p)

/-- What the mandatory part writes. -/
def AttachRequest.mandatory (req : AttachRequest) :
    UInt8 × NasKeySetId × EpsMobileId × UeNetworkCapability × SimpleByteMsg :=
  (req.epsAttachType, req.nasKsi, req.epsMobileId, req.ueNetworkCap, req.esmMsg)

/-- No optional element writes to the mandatory part. -/
theorem optionalElement_mandatory (m : Nat → UInt8) (req : AttachRequest) (p : Nat) :
    ∀ element ∈ optionalElements, (element m req p).1.mandatory = req.mandatory := by
  intro element h
  simp only [optionalElements, List.mem_cons, List.not_mem_nil, or_false] at h
  rcases h with rfl | rfl | rfl | rfl | rfl | rfl | rfl | rfl | rfl | rfl | rfl | rfl | rfl | rfl
  · unfold oldPTmsiSignature; split <;> rfl
  · unfold additionalGuti; split <;> rfl
  · unfold lastVisitedRegisteredTai; split <;> rfl
  · unfold drxParam; split <;> rfl
  · unfold msNetworkCap; split <;> rfl
  · unfold oldLai; split <;> rfl
  · unfold tmsiStatus; split <;> rfl
  · unfold msCm2; split <;> rfl
  · unfold msCm3; split <;> rfl
  · unfold supportedCodecs; split <;> rfl
  · unfold additionalUpdateType; split <;> rfl
  · unfold voiceDomainPref; split <;> rfl
  · unfold deviceProperties; split <;> rfl
  · unfold oldGutiType; split <;> rfl

/-- The optional part leaves the mandatory part as it is. -/
theorem attachOptional_mandatory (m : Nat → UInt8) (req : AttachRequest) (p : Nat) :
    (attachOptional m req p).mandatory = req.mandatory := by
  have run : ∀ (elements : List OptionalElement) (req : AttachRequest) (p : Nat),
      (∀ element ∈ elements, element ∈ optionalElements) →
        (elements.foldl (fun r element => element m r.1 r.2) (req, p)).1.mandatory
          = req.mandatory := by
    intro elements
    induction elements with
    | nil => intro req p _; rfl
    | cons element rest ih =>
        intro req p h
        rw [List.foldl_cons, ih _ _ fun e he => h e (List.mem_cons_of_mem _ he)]
        exact optionalElement_mandatory m req p element (h element List.mem_cons_self)
  exact run optionalElements req p fun _ h => h

theorem attachOptional_epsMobileId (m : Nat → UInt8) (req : AttachRequest) (p : Nat) :
    (attachOptional m req p).epsMobileId = req.epsMobileId :=
  congrArg (fun fields => fields.2.2.1) (attachOptional_mandatory m req p)

end LteUlp.Nas
