import LteUlp.Basic.BlockStore
import LteUlp.Nas.Attach
import LteUlp.Rrc.Asn1

set_option autoImplicit false
set_option linter.unusedSectionVars false

/-! # The RRC layer: UE contexts and the messages that update them

The state holds the memory store, the counters, the bit buffer and the two context lists.
A context lives at the address of its block; a list is the sequence of these addresses. The
structures a message is decoded to come from `MemAlloc` and are not cleared: what they hold
before is given by `Platform.leftover`, at the time of the allocation.
-/

namespace LteUlp.Rrc

open BlockStore LteUlp.Nas

/-! ## The platform -/

/-- The structures that are allocated. -/
inductive CStruct where
  | rrcUeContext
  | macUeContext
  | rlcUeContext
  | rxAMEntity
  | amdPdu
  | amdPduSegment
  | amdDFE
  | macUeDataInd
  | rlcUlData
  | ulInformationTransfer
  | rrcConnectionSetupComplete
  | rrcConnectionRequest
  | idResponse
  | attachRequest
  | detachRequest
  | extServiceRequest
  | tauRequest
  deriving DecidableEq

/-- `RlcAmPduStatus`. -/
inductive RlcAmPduStatus where
  | complete
  | segment
  | segmentComplete
  deriving DecidableEq, Inhabited

/-- What the structures that are not cleared hold before they are written to. -/
structure Leftover where
  amdPduStatus : RlcAmPduStatus
  ulInformationTransfer : UlInformationTransfer
  rrcConnectionSetupComplete : RrcConnectionSetupComplete
  rrcConnectionRequest : RrcConnectionRequest
  idResponse : MobileId
  attachRequest : AttachRequest
  detachRequest : DetachRequest
  extServiceRequest : ExtServiceRequest
  tauRequest : TauRequest
  deriving Inhabited

/-- What the code is compiled for and runs on: the allocator, the sizes of the structures and
the contents of memory that was never written. -/
structure Platform (β : Type) extends Policy β where
  sizeof : CStruct → Nat
  leftover : Nat → Leftover

/-! ## Data -/

/-- `LteUeRrcEstabType`. -/
def attachRequestType : UInt8 := 1
def tauRequestType : UInt8 := 2
def serviceRequestType : UInt8 := 3
def extServiceRequestType : UInt8 := 4
def detachRequestType : UInt8 := 5

/-- The message type that leaves the recorded one as it is. -/
def noMsgType : UInt8 := 0xff

def rrcUlDcchMsgTypeRrcConSetupComplete : UInt8 := 4
def rrcUlDcchMsgTypeUlInfoTransfer : UInt8 := 9
def rrcUlCcchMsgTypeRrcConReq : UInt8 := 1

/-- `UeIdentity`. The `imsi` has sixteen bytes. -/
structure UeIdentity where
  rnti : UInt16
  imsiPresent : Bool
  mTmsiPresent : Bool
  msgType : UInt8
  mTmsi : UInt32
  imsi : List UInt8
  deriving DecidableEq, Inhabited

/-- A cleared `UeIdentity`. -/
def UeIdentity.zero : UeIdentity := ⟨0, false, false, 0, 0, List.replicate 16 0⟩

/-- `RrcUeContext`. -/
structure RrcUeContext where
  idleCount : UInt16
  rnti : UInt16
  deleteFlag : Bool
  ueIdentity : UeIdentity
  deriving DecidableEq, Inhabited

/-- `LteKpi`, with the counters that the modelled code increments. -/
structure LteKpi where
  imsi : UInt32
  mTmsi : UInt32
  idResp : UInt32
  rrcConnReq : UInt32
  rrcSetupCompl : UInt32
  attachReq : UInt32
  tauReq : UInt32
  servReq : UInt32
  extServReq : UInt32
  detachReq : UInt32
  lcIdArray : Nat → UInt32
  crcCorrect : UInt32
  crcError : UInt32
  heartbeatResp : UInt32
  rrcSetupComplRbNum : Nat → UInt32
  idRespRbNum : Nat → UInt32
  deriving Inhabited

/-- One more in an array of counters. -/
def bump (a : Nat → UInt32) (k : Nat) : Nat → UInt32 := Function.update a k (a k + 1)

/-- `rrcSetupComplRbNum[rbNum - 1]++`. At index `-1` is the field before the array. -/
def LteKpi.countRrcSetupComplRb (kpi : LteKpi) (rbNum : Nat) : LteKpi :=
  if rbNum = 0 then { kpi with heartbeatResp := kpi.heartbeatResp + 1 }
  else { kpi with rrcSetupComplRbNum := bump kpi.rrcSetupComplRbNum (rbNum - 1) }

/-- `idRespRbNum[rbNum - 1]++`. At index `-1` is the last element of the array before. -/
def LteKpi.countIdRespRb (kpi : LteKpi) (rbNum : Nat) : LteKpi :=
  if rbNum = 0 then { kpi with rrcSetupComplRbNum := bump kpi.rrcSetupComplRbNum 19 }
  else { kpi with idRespRbNum := bump kpi.idRespRbNum (rbNum - 1) }

/-- `UlReportInfo`. -/
structure UlReportInfo where
  rbNum : UInt8
  ta : Int
  prbPower : Int
  deriving DecidableEq

/-- `UlReportInfoList`, ten entries of which `count` are in use. -/
structure UlReportInfoList where
  count : Nat
  ulRptInfo : Nat → UlReportInfo

/-- The entries in use. -/
def UlReportInfoList.entries (l : UlReportInfoList) : List UlReportInfo :=
  (List.range l.count).map l.ulRptInfo

/-- The globals of the RRC layer, and those that all layers share. `badDerefs` counts the
accesses through a null pointer, and the log calls that give a number to `%s`, which reads it
as the address of a text. The process does not survive them. -/
structure RrcState (β : Type) where
  mem : Store β
  gLteKpi : LteKpi
  gMsgBitBuffer : Nat → UInt8
  rrcUeContext : β → RrcUeContext
  gRrcUeContextList : List β
  gReadyRrcUeContextList : List β
  badDerefs : Nat

variable {β : Type} [DecidableEq β] (env : Platform β)

namespace RrcState

/-- `MemAlloc`. -/
def alloc (s : RrcState β) (n : Nat) : RrcState β × Option β :=
  let r := s.mem.alloc env.toPolicy n
  ({ s with mem := r.1 }, r.2)

/-- `MemFree`. -/
def free (s : RrcState β) (a : β) : RrcState β := { s with mem := s.mem.release a }

/-- Increment counters. -/
def countKpi (s : RrcState β) (f : LteKpi → LteKpi) : RrcState β :=
  { s with gLteKpi := f s.gLteKpi }

/-- Write to a context. -/
def setContext (s : RrcState β) (a : β) (c : RrcUeContext) : RrcState β :=
  { s with rrcUeContext := Function.update s.rrcUeContext a c }

/-- Write to the identity of a context. -/
def setIdentity (s : RrcState β) (a : β) (id : UeIdentity) : RrcState β :=
  s.setContext a { s.rrcUeContext a with ueIdentity := id }

/-- Write to the log; `misread` says that `%s` is given a number. -/
def log (s : RrcState β) (misread : Bool) : RrcState β :=
  { s with badDerefs := s.badDerefs + misread.toNat }

end RrcState

/-- A platform that never runs out of memory. -/
def freshPlatform : Platform Nat :=
  { freshPolicy with
    sizeof := fun _ => 0
    leftover := fun _ => default }

/-- No context, and nothing allocated. -/
def freshState : RrcState Nat :=
  ⟨default, default, fun _ => 0, default, [], [], 0⟩

/-! ## UE contexts -/

/-- `RrcGetUeContext`: the first context with the RNTI. -/
def rrcGetUeContext (s : RrcState β) (rnti : UInt16) : Option β :=
  s.gRrcUeContextList.find? fun a => (s.rrcUeContext a).rnti == rnti

/-- The context of the RNTI is pending deletion. -/
def pendingDeletion (s : RrcState β) (rnti : UInt16) : Bool :=
  (rrcGetUeContext s rnti).any fun a => (s.rrcUeContext a).deleteFlag

/-- `RrcCreateUeContext`. -/
def rrcCreateUeContext (s : RrcState β) (rnti : UInt16) : RrcState β × Option β :=
  match s.alloc env (env.sizeof .rrcUeContext) with
  | (s, none) => (s, none)
  | (s, some a) =>
      ({ s.setContext a ⟨0, rnti, false, UeIdentity.zero⟩ with
          gRrcUeContextList := s.gRrcUeContextList ++ [a] }, some a)

/-- `RrcDeleteUeContext`. -/
def rrcDeleteUeContext (s : RrcState β) (a : β) : RrcState β :=
  { s with gRrcUeContextList := s.gRrcUeContextList.erase a }.free a

/-- `RrcUpdateUeContextTime`. -/
def rrcUpdateUeContextTime (s : RrcState β) (o : Option β) (value : UInt16) : RrcState β :=
  match o with
  | none => s
  | some a =>
      let c := s.rrcUeContext a
      s.setContext a { c with idleCount := if value = 0 then 0 else c.idleCount + value }

/-- What the decoders do first: find the context of the RNTI or create it. -/
def rrcFindOrCreate (s : RrcState β) (rnti : UInt16) : RrcState β × Option β :=
  match rrcGetUeContext s rnti with
  | some a => (s, some a)
  | none => rrcCreateUeContext env s rnti

/-! ## Identities

`RrcUpdateImsi` and `RrcUpdateMTmsi` do the same with another identity. A context that holds
a different identity of the kind is copied to the ready list before it is overwritten. -/

/-- The digits as text, with the terminating zero. -/
def tmpImsi (imsi : List UInt8) : List UInt8 := imsi.map (· + 0x30) ++ [0]

/-- What both updates begin with: a context that is about to be deleted is replaced by a new
one. When there is none, the message that reports it reads the RNTI through the null
pointer. -/
def rrcLiveContext (s : RrcState β) (a : β) : RrcState β × Option β :=
  if (s.rrcUeContext a).deleteFlag then
    match rrcCreateUeContext env s (s.rrcUeContext a).rnti with
    | (s, none) => ({ s with badDerefs := s.badDerefs + 1 }, none)
    | (s, some a) => (s, some a)
  else (s, some a)

/-- Copy a context to the ready list. Without memory the old identity is dropped, and
reported. -/
def rrcCopyToReady (misread : Bool) (s : RrcState β) (a : β) : RrcState β :=
  match s.alloc env (env.sizeof .rrcUeContext) with
  | (s, none) => s.log misread
  | (s, some old) =>
      { s.setContext old (s.rrcUeContext a) with
        gReadyRrcUeContextList := s.gReadyRrcUeContextList ++ [old] }

/-- The common part of the updates of an identity: `present` and `same` say what the context
holds, `count` and `write` record the new identity. `misread` says that the report of an
identity that is dropped gives a number to `%s`. -/
def rrcUpdateIdentity (misread : Bool) (present same : UeIdentity → Bool) (count : LteKpi → LteKpi)
    (write : UeIdentity → UeIdentity) (s : RrcState β) (a : β) (msgType : UInt8) :
    RrcState β × Option β :=
  match rrcLiveContext env s a with
  | (s, none) => (s, none)
  | (s, some a) =>
      let id := (s.rrcUeContext a).ueIdentity
      if present id && same id then (s, some a)
      else
        let s := if present id then rrcCopyToReady env misread s a else s
        let s := s.countKpi count
        let id := write id
        (s.setIdentity a
          (if msgType ≠ noMsgType then { id with msgType := msgType } else id), some a)

/-- `RrcUpdateImsi`. -/
def rrcUpdateImsi (s : RrcState β) (a : β) (imsi : List UInt8) (msgType : UInt8) :
    RrcState β × Option β :=
  rrcUpdateIdentity env false UeIdentity.imsiPresent
    (fun id => id.imsi.take 15 == (tmpImsi imsi).take 15)
    (fun kpi => { kpi with imsi := kpi.imsi + 1 })
    (fun id => { id with imsiPresent := true, imsi := tmpImsi imsi }) s a msgType

/-- `RrcUpdateMTmsi`. The report of a dropped M-TMSI prints it with `%s`. -/
def rrcUpdateMTmsi (s : RrcState β) (a : β) (mTmsi : UInt32) (msgType : UInt8) :
    RrcState β × Option β :=
  rrcUpdateIdentity env true UeIdentity.mTmsiPresent (fun id => id.mTmsi == mTmsi)
    (fun kpi => { kpi with mTmsi := kpi.mTmsi + 1 })
    (fun id => { id with mTmsiPresent := true, mTmsi := mTmsi }) s a msgType

/-! ## NAS messages -/

/-- `RrcDecodeIdentityResponse`. -/
def rrcDecodeIdentityResponse (s : RrcState β) (rnti : UInt16) (m : Nat → UInt8) : RrcState β :=
  match s.alloc env (env.sizeof .idResponse) with
  | (t, none) => t
  | (t, some idResp) =>
      let r := mmeUnpackIdentityResponseMsg m (env.leftover s.mem.clock).idResponse
      if r.1 then
        let t := t.countKpi fun kpi => { kpi with idResp := kpi.idResp + 1 }
        if r.2.typeOfId = mobileIdTypeImsi then
          match rrcFindOrCreate env t rnti with
          | (t, none) => t.free idResp
          | (t, some a) => (rrcUpdateImsi env t a r.2.imsi noMsgType).1.free idResp
        else t.free idResp
      else t.free idResp

/-- What the decoders of the four requests share: `decoded` is the unpacked identity, if the
unpacker succeeds, and `mTmsi` is the M-TMSI that the handler takes from it. -/
def rrcDecodeRequest (size : Nat) (count : LteKpi → LteKpi)
    (mTmsi : EpsMobileId → Option UInt32) (msgType : UInt8) (s : RrcState β) (rnti : UInt16)
    (decoded : Option EpsMobileId) : RrcState β :=
  match s.alloc env size with
  | (s, none) => s
  | (s, some req) =>
      match decoded with
      | none => s.free req
      | some id =>
          match rrcFindOrCreate env (s.countKpi count) rnti with
          | (s, none) => s.free req
          | (s, some a) =>
              match mTmsi id with
              | some v => (rrcUpdateMTmsi env s a v msgType).1.free req
              | none =>
                  if id.typeOfId = epsMobileIdTypeImsi then
                    (rrcUpdateImsi env s a id.imsi msgType).1.free req
                  else s.free req

/-- The M-TMSI of a GUTI. -/
def gutiMTmsi (id : EpsMobileId) : Option UInt32 :=
  if id.typeOfId = epsMobileIdTypeGuti then some id.guti.mTmsi else none

/-- The M-TMSI of a TMSI. -/
def tmsiMTmsi (id : EpsMobileId) : Option UInt32 :=
  if id.typeOfId = epsMobileIdTypeTmsi then some id.mTmsi else none

/-- `RrcDecodeAttachReq`. -/
def rrcDecodeAttachReq (s : RrcState β) (rnti : UInt16) (m : Nat → UInt8) : RrcState β :=
  let r := mmeUnpackAttachRequestMsg m (env.leftover s.mem.clock).attachRequest
  rrcDecodeRequest env (env.sizeof .attachRequest)
    (fun kpi => { kpi with attachReq := kpi.attachReq + 1 }) gutiMTmsi attachRequestType s rnti
    (if r.1 then some r.2.epsMobileId else none)

/-- `RrcDecodeDetachReq`. -/
def rrcDecodeDetachReq (s : RrcState β) (rnti : UInt16) (m : Nat → UInt8) : RrcState β :=
  rrcDecodeRequest env (env.sizeof .detachRequest)
    (fun kpi => { kpi with detachReq := kpi.detachReq + 1 }) gutiMTmsi detachRequestType s rnti
    (some (mmeUnpackDetachRequestMsg m (env.leftover s.mem.clock).detachRequest).epsMobileId)

/-- `RrcDecodeExtServiceReq`. It takes a TMSI where the others take a GUTI. -/
def rrcDecodeExtServiceReq (s : RrcState β) (rnti : UInt16) (m : Nat → UInt8) : RrcState β :=
  rrcDecodeRequest env (env.sizeof .extServiceRequest)
    (fun kpi => { kpi with extServReq := kpi.extServReq + 1 }) tmsiMTmsi extServiceRequestType
    s rnti
    (some (mmeUnpackExtServiceRequestMsg m
      (env.leftover s.mem.clock).extServiceRequest).epsMobileId)

/-- `RrcDecodeTauReq`. -/
def rrcDecodeTauReq (s : RrcState β) (rnti : UInt16) (m : Nat → UInt8) : RrcState β :=
  rrcDecodeRequest env (env.sizeof .tauRequest)
    (fun kpi => { kpi with tauReq := kpi.tauReq + 1 }) gutiMTmsi tauRequestType s rnti
    (some (mmeUnpackTauRequestMsg m (env.leftover s.mem.clock).tauRequest).epsMobileId)

/-- `RrcDecodeServiceReq`. -/
def rrcDecodeServiceReq (s : RrcState β) (rnti : UInt16) : RrcState β :=
  match rrcFindOrCreate env
      (s.countKpi fun kpi => { kpi with servReq := kpi.servReq + 1 }) rnti with
  | (s, none) => s
  | (s, some a) =>
      s.setIdentity a { (s.rrcUeContext a).ueIdentity with msgType := serviceRequestType }

/-- `RrcParseNasMsg`: the state and the message type. -/
def rrcParseNasMsg (s : RrcState β) (rnti : UInt16) (nas : SimpleByteMsg) : RrcState β × UInt8 :=
  let msgType := (mmeParseMsgHeader nas.msg).2
  (if msgType = nasMsgTypeIdentityResponse then rrcDecodeIdentityResponse env s rnti nas.msg
   else if msgType = nasMsgTypeAttachRequest then rrcDecodeAttachReq env s rnti nas.msg
   else if msgType = nasMsgTypeTrackingAreaUpdateRequest then
     rrcDecodeTauReq env s rnti nas.msg
   else if msgType = nasMsgTypeDetachRequest then rrcDecodeDetachReq env s rnti nas.msg
   else if msgType = nasMsgTypeExtendedServiceRequest then
     rrcDecodeExtServiceReq env s rnti nas.msg
   else if msgType = mmeSecurityHdrTypeServiceRequest then rrcDecodeServiceReq env s rnti
   else s, msgType)

/-! ## RRC messages -/

/-- Count the resource blocks of the reports, those with at most nineteen. -/
def countRbNums (count : LteKpi → Nat → LteKpi) (s : RrcState β) (rpt : UlReportInfoList) :
    RrcState β :=
  rpt.entries.foldl
    (fun s info =>
      if info.rbNum.toNat ≤ 19 then s.countKpi (count · info.rbNum.toNat) else s) s

/-- The branch of `RrcParseUlDcchMsg` for an UL information transfer. -/
def rrcParseUlInfoTransfer (s : RrcState β) (rnti : UInt16) (data : Nat → UInt8) (size : Nat)
    (rpt : UlReportInfoList) : RrcState β :=
  match s.alloc env (env.sizeof .ulInformationTransfer) with
  | (t, none) => t
  | (t, some msg) =>
      let r := asn1ParseUlInfoTransMsg t.gMsgBitBuffer data size
        (env.leftover s.mem.clock).ulInformationTransfer
      let t := { t with gMsgBitBuffer := r.1 }
      match r.2 with
      | none => t.free msg
      | some info =>
          if info.dedicatedInfoType = ulInformationTransferTypeNas then
            let p := rrcParseNasMsg env t rnti info.dedicatedInfo
            (if p.2 = nasMsgTypeIdentityResponse then
              countRbNums LteKpi.countIdRespRb p.1 rpt else p.1).free msg
          else t.free msg

/-- The branch of `RrcParseUlDcchMsg` for an RRC connection setup complete. -/
def rrcParseRrcSetupComplete (s : RrcState β) (rnti : UInt16) (data : Nat → UInt8) (size : Nat)
    (rpt : UlReportInfoList) : RrcState β :=
  match s.alloc env (env.sizeof .rrcConnectionSetupComplete) with
  | (t, none) => t
  | (t, some msg) =>
      let r := asn1ParseRrcSetupComplMsg t.gMsgBitBuffer data size
        (env.leftover s.mem.clock).rrcConnectionSetupComplete
      let t := { t with gMsgBitBuffer := r.1 }
      match r.2 with
      | none => t.free msg
      | some compl =>
          let t := t.countKpi fun kpi => { kpi with rrcSetupCompl := kpi.rrcSetupCompl + 1 }
          let t := (rrcParseNasMsg env t rnti compl.dedicatedInfoNas).1
          (countRbNums LteKpi.countRrcSetupComplRb t rpt).free msg

/-- `RrcParseUlDcchMsg`. It releases the message. -/
def rrcParseUlDcchMsg (s : RrcState β) (rnti : UInt16) (pData : β) (size : Nat)
    (rpt : UlReportInfoList) : RrcState β :=
  let data := s.mem.bytes pData
  let rrcMsgType := (data 0 >>> 3) &&& 0x0f
  (if rrcMsgType = rrcUlDcchMsgTypeUlInfoTransfer then
    rrcParseUlInfoTransfer env s rnti data size rpt
   else if rrcMsgType = rrcUlDcchMsgTypeRrcConSetupComplete then
    rrcParseRrcSetupComplete env s rnti data size rpt
   else s).free pData

/-- `RrcParseUlCcchMsg`. It releases the message, except when there is no memory for a
context: then it returns early. -/
def rrcParseUlCcchMsg (s : RrcState β) (rnti : UInt16) (pData : β) (size : Nat) : RrcState β :=
  if size = 0 then s
  else
    let data := s.mem.bytes pData
    if (data 0 >>> 6) &&& 0x01 = rrcUlCcchMsgTypeRrcConReq then
      match s.alloc env (env.sizeof .rrcConnectionRequest) with
      | (t, none) => t.free pData
      | (t, some msg) =>
          let r := asn1ParseRrcConnReqMsg t.gMsgBitBuffer data size
            (env.leftover s.mem.clock).rrcConnectionRequest
          let t := { t with gMsgBitBuffer := r.1 }
          match r.2 with
          | none => (t.free msg).free pData
          | some req =>
              let t := t.countKpi fun kpi => { kpi with rrcConnReq := kpi.rrcConnReq + 1 }
              if req.ueIdType = conReqUeIdTypeSTmsi then
                match rrcFindOrCreate env t rnti with
                | (t, none) => t.free msg
                | (t, some a) =>
                    ((rrcUpdateMTmsi env t a req.mTmsi serviceRequestType).1.free msg).free
                      pData
              else (t.free msg).free pData
    else s.free pData

/-! ## Data indications -/

/-- `MacUeCcchDataInd`. -/
def macUeCcchDataInd (s : RrcState β) (rnti : UInt16) (pData : β) (size : Nat) : RrcState β :=
  if size = 0 then s else rrcParseUlCcchMsg env s rnti pData size

/-- `PdcpUeSrbDataInd`. An empty message is not released. -/
def pdcpUeSrbDataInd (s : RrcState β) (rnti : UInt16) (lcId : Nat) (pData : β) (size : Nat)
    (rpt : UlReportInfoList) : RrcState β :=
  if size = 0 then s
  else if lcId > 0 then rrcParseUlDcchMsg env s rnti pData size rpt
  else rrcParseUlCcchMsg env s rnti pData size

end LteUlp.Rrc
