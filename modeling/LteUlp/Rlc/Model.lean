import LteUlp.Mac.Context
import LteUlp.Pdcp.Model

set_option autoImplicit false
set_option linter.unusedSectionVars false

/-! # The RLC layer: acknowledged mode reception

A UE context has an AM entity for each logical channel. An AMD PDU is decoded to a queue of
data field elements, put into the ring of the entity and reassembled at once. An entity keeps
one incomplete SDU. A context and an entity live at the addresses of their blocks; an AMD
PDU, its segments and their elements are in one place each, so they are values that carry
their addresses.

`rlcUeDataInds` records the calls of `RlcUeDataInd`, `refusedJoins` counts the calls of
`MemJoin` that found no memory, and `pendingDeletions` the packets and messages for an RNTI
whose context is pending deletion; nothing in the code depends on them.
-/

namespace LteUlp.Rlc

open BlockStore LteUlp.Rrc LteUlp.Mac LteUlp.Pdcp

def srb2LcId : Nat := 2
def maxLcId : Nat := 11
def rlcMaxDfeInUlPdu : Nat := 256
def maxRlcSegmentsNum : Nat := 10

/-! ## Data -/

/-- `RlcUlDataInfo`. -/
structure RlcUlDataInfo (β : Type) where
  lcId : Nat
  length : Nat
  rlcdataBuffer : Option β

/-- `AmdHeader`. -/
structure AmdHeader where
  dc : UInt8
  rf : UInt8
  p : UInt8
  fi : UInt8
  e : UInt8
  sn : Nat
  lsf : UInt8
  so : Nat
  deriving DecidableEq

/-- `RlcConcatenatePduHeader`; `numDfe` is the length of the list. -/
structure RlcConcatenatePduHeader where
  hdrSize : Nat
  dfeLength : List Nat
  deriving DecidableEq

inductive RingNodeStatus where
  | free
  | inUse
  | ready
  deriving DecidableEq

inductive RlcSduStatus where
  | amPduMapSduFull
  | amPduMapSduStart
  | amPduMapSduEnd
  | amPduMapSduMid
  deriving DecidableEq

open RlcSduStatus

/-- `RlcAmBuffer`. -/
structure RlcAmBuffer (β : Type) where
  size : UInt32
  pData : Option β

/-- `AmdDFE`. -/
structure AmdDfe (β : Type) where
  addr : β
  status : RlcSduStatus
  buffer : RlcAmBuffer β

/-- `AmdPduSegment`. -/
structure AmdPduSegment (β : Type) where
  addr : β
  dfeQ : List (AmdDfe β)

/-- `AmdPdu`. -/
structure AmdPdu (β : Type) where
  addr : β
  status : RlcAmPduStatus
  segList : List (AmdPduSegment β)

structure RingNode (β : Type) where
  status : RingNodeStatus
  data : Option (AmdPdu β)

/-- `RlcAmRawSdu`. -/
structure RlcAmRawSdu (β : Type) where
  sn : Nat
  rawSdu : RlcAmBuffer β

/-- `RxAMEntity`. -/
structure RxAmEntity (β : Type) where
  rnti : UInt16
  lcId : Nat
  amdPduRing : Nat → RingNode β
  ulRptInfoList : UlReportInfoList
  rxRawSdu : RlcAmRawSdu β

/-- `RlcUeContext`. -/
structure RlcUeContext (β : Type) where
  idleCount : UInt32
  deleteFlag : Bool
  rnti : UInt16
  rxAmEntityArray : Nat → Option β

/-- A call of `RlcUeDataInd`: its arguments, and the bytes that `pData` points to. -/
structure SduInd (β : Type) where
  rnti : UInt16
  lcId : Nat
  pData : Option β
  size : UInt16
  data : List UInt8
  ulRptInfo : List UlReportInfo

/-- The RLC contexts, over the state of the MAC layer. -/
structure RlcState (β : Type) extends MacState β where
  rlcUeContext : β → RlcUeContext β
  gRlcUeContextList : List β
  rxAmEntity : β → RxAmEntity β
  rlcUeDataInds : List (SduInd β)
  refusedJoins : Nat
  pendingDeletions : Nat

variable {β : Type} [DecidableEq β] (env : Platform β)

namespace RlcState

/-- Let the RRC layer do something. -/
def onRrc (s : RlcState β) (f : RrcState β → RrcState β) : RlcState β :=
  { s with toRrcState := f s.toRrcState }

/-- Write to the log; `misread` says that `%s` is given a number. -/
def log (s : RlcState β) (misread : Bool) : RlcState β := s.onRrc fun t => t.log misread

/-- Do something to the memory. -/
def onMem (s : RlcState β) (f : Store β → Store β) : RlcState β :=
  s.onRrc fun t => { t with mem := f t.mem }

/-- `MemAlloc`. -/
def alloc (s : RlcState β) (n : Nat) : RlcState β × Option β :=
  let r := s.toRrcState.alloc env n
  ({ s with toRrcState := r.1 }, r.2)

/-- `MemFree`. -/
def free (s : RlcState β) (a : β) : RlcState β := s.onMem fun m => m.release a

/-- `MemFree` of a pointer that may be null. -/
def free? (s : RlcState β) (o : Option β) : RlcState β := s.onMem fun m => m.release? o

def setUeContext (s : RlcState β) (a : β) (c : RlcUeContext β) : RlcState β :=
  { s with rlcUeContext := Function.update s.rlcUeContext a c }

def setEntity (s : RlcState β) (e : β) (x : RxAmEntity β) : RlcState β :=
  { s with rxAmEntity := Function.update s.rxAmEntity e x }

/-- Count a packet or a message, if a context is pending deletion. -/
def countPending (s : RlcState β) (pending : Bool) : RlcState β :=
  { s with pendingDeletions := s.pendingDeletions + pending.toNat }

/-- `RLC_SET_RX_AMD_PDU` and `RLC_SET_RX_AMD_PDU_STATUS`. -/
def setRing (s : RlcState β) (e : β) (ringSn : Nat) (node : RingNode β) : RlcState β :=
  let x := s.rxAmEntity e
  s.setEntity e { x with amdPduRing := Function.update x.amdPduRing ringSn node }

/-- Write to the incomplete SDU. -/
def setRaw (s : RlcState β) (e : β) (raw : RlcAmRawSdu β) : RlcState β :=
  s.setEntity e { s.rxAmEntity e with rxRawSdu := raw }

/-- Write to the list of reports. -/
def setRpt (s : RlcState β) (e : β) (rpt : UlReportInfoList) : RlcState β :=
  s.setEntity e { s.rxAmEntity e with ulRptInfoList := rpt }

end RlcState

/-! ## UE contexts and AM entities -/

/-- `RlcGetUeContext`. -/
def rlcGetUeContext (s : RlcState β) (rnti : UInt16) : Option β :=
  s.gRlcUeContextList.find? fun a => (s.rlcUeContext a).rnti == rnti

/-- `RlcCreateUeContext`. -/
def rlcCreateUeContext (s : RlcState β) (rnti : UInt16) : RlcState β × Option β :=
  match s.alloc env (env.sizeof .rlcUeContext) with
  | (s, none) => (s, none)
  | (s, some a) =>
      ({ s.setUeContext a ⟨0, false, rnti, fun _ => none⟩ with
          gRlcUeContextList := s.gRlcUeContextList ++ [a] }, some a)

/-- `RlcUpdateUeContextTime`. -/
def rlcUpdateUeContextTime (s : RlcState β) (a : β) (value : UInt32) : RlcState β :=
  let c := s.rlcUeContext a
  s.setUeContext a { c with idleCount := if value = 0 then 0 else c.idleCount + value }

/-- `RlcGetRxAmEntity`. -/
def rlcGetRxAmEntity (s : RlcState β) (a : β) (lcId : Nat) : Option β :=
  if lcId < maxLcId then (s.rlcUeContext a).rxAmEntityArray lcId else none

/-- An entity after `memset`, with its ring cleared. -/
def RxAmEntity.fresh (rnti : UInt16) (lcId : Nat) : RxAmEntity β :=
  ⟨rnti, lcId, fun _ => ⟨.free, none⟩, ⟨0, fun _ => ⟨0, 0, 0⟩⟩, ⟨0, ⟨0, none⟩⟩⟩

/-- `RlcCreateRxAmEntity`. -/
def rlcCreateRxAmEntity (s : RlcState β) (a : β) (lcId : Nat) : RlcState β × Option β :=
  if lcId < maxLcId then
    match s.alloc env (env.sizeof .rxAMEntity) with
    | (s, none) => (s, none)
    | (s, some e) =>
        let c := s.rlcUeContext a
        let s := s.setUeContext a
          { c with rxAmEntityArray := Function.update c.rxAmEntityArray lcId (some e) }
        (s.setEntity e (.fresh c.rnti lcId), some e)
  else (s, none)

/-! ## AMD PDUs -/

/-- `RlcCreateAmdPdu`. The status is not initialised. -/
def rlcCreateAmdPdu (s : RlcState β) : RlcState β × Option (AmdPdu β) :=
  match s.alloc env (env.sizeof .amdPdu) with
  | (t, none) => (t, none)
  | (t, some a) => (t, some ⟨a, (env.leftover s.mem.clock).amdPduStatus, []⟩)

/-- Release an element and its data. -/
def rlcDeleteAmdDfe (s : RlcState β) (dfe : AmdDfe β) : RlcState β :=
  (s.free? dfe.buffer.pData).free dfe.addr

/-- `RlcDeleteAmdPduSegment`. -/
def rlcDeleteAmdPduSegment (s : RlcState β) (seg : AmdPduSegment β) : RlcState β :=
  (seg.dfeQ.foldl rlcDeleteAmdDfe s).free seg.addr

/-- `RlcDeleteAmdPdu`. -/
def rlcDeleteAmdPdu (s : RlcState β) (pdu : AmdPdu β) : RlcState β :=
  (pdu.segList.foldl rlcDeleteAmdPduSegment s).free pdu.addr

/-! ## Decoding -/

/-- `RlcDecodeAmdHeader`, for a buffer that is there. A status PDU has no further fields. -/
def rlcDecodeAmdHeader (data : Nat → UInt8) (length : Nat) : Option AmdHeader :=
  if length = 0 then none
  else if length < 2 then none
  else
    let dc := (data 0 >>> 7) &&& 0x01
    if dc = 0 then some ⟨0, 0, 0, 0, 0, 0, 0, 0⟩
    else
      let rf := (data 0 >>> 6) &&& 0x01
      let p := (data 0 >>> 5) &&& 0x01
      let fi := (data 0 >>> 3) &&& 0x03
      let e := (data 0 >>> 2) &&& 0x01
      let sn := ((data 0 &&& 0x03).toNat <<< 8) ||| (data 1 &&& 0xff).toNat
      if rf = 0 then some ⟨dc, rf, p, fi, e, sn, 0, 0⟩
      else if length < 4 then none
      else
        some ⟨dc, rf, p, fi, e, sn, (data 2 >>> 7) &&& 0x01,
          ((data 2 &&& 0x7f).toNat <<< 8) ||| (data 3 &&& 0xff).toNat⟩

/-- `GET_E_BIT`. -/
def getEBit (b : UInt8) (eliOffset : Nat) : Nat := (b.toNat >>> (7 - eliOffset)) &&& 0x01

/-- `GET_LI`. -/
def getLi (b b' : UInt8) (eliOffset : Nat) : Nat :=
  ((b.toNat <<< (4 + eliOffset)) ||| (b'.toNat >>> (4 - eliOffset))) &&& 0x7ff

/-- The loop of `RlcGetConcatenationHeaderInfo`: the LIs from the pair with index `byteNum`
on. It gives up at an LI of 0 and stops when the array is full. -/
def rlcLengthIndicators (data : Nat → UInt8) : Nat → Nat → Option (List Nat)
  | 0, _ => some []
  | room + 1, byteNum =>
      let eliStart := 2 + (12 * byteNum) >>> 3
      let eliOffset := (12 * byteNum) &&& 0x7
      let ext := getEBit (data eliStart) eliOffset
      let li := getLi (data eliStart) (data (eliStart + 1)) eliOffset
      if li = 0 then none
      else if ext = 0 ∨ room = 0 then some [li]
      else (rlcLengthIndicators data room (byteNum + 1)).map fun lis => li :: lis

/-- `GET_VAR_HEADER_SIZE`. -/
def getVarHeaderSize (coutSdu : Nat) : Nat :=
  (((coutSdu - 1) <<< 3) + ((coutSdu - 1) <<< 2) + 7) >>> 3

/-- `RlcGetConcatenationHeaderInfo`. -/
def rlcGetConcatenationHeaderInfo (data : Nat → UInt8) : Option RlcConcatenatePduHeader :=
  (rlcLengthIndicators data rlcMaxDfeInUlPdu 0).map fun dfeLength =>
    ⟨getVarHeaderSize (dfeLength.length + 1) + 2, dfeLength⟩

/-- `RlcDecodeAndEnqueueAMSegment`, from an element of the array on: the queue is returned as
it is when the function returns, and whether it has succeeded. An LI that is larger than the
data is reported before anything is released, by a call that gives the LI to `%s`. -/
def rlcDecodeAndEnqueueAmSegment (fi : UInt8) :
    List Nat → RlcState β → List (AmdDfe β) → AmdDfe β → RlcState β × List (AmdDfe β) × Bool
  | [], s, dfeQ, dfe =>
      let status := if fi &&& 0x01 = 0 then amPduMapSduFull else amPduMapSduStart
      (s, dfeQ ++ [{ dfe with status := status }], true)
  | li :: rest, s, dfeQ, dfe =>
      let li := UInt32.ofNat li
      if li > dfe.buffer.size then
        (((s.log true).free? dfe.buffer.pData).free dfe.addr, dfeQ, false)
      else
        match s.alloc env (env.sizeof .amdDFE) with
        | (s, none) => ((s.free? dfe.buffer.pData).free dfe.addr, dfeQ, false)
        | (s, some next) =>
            match s.alloc env (dfe.buffer.size - li).toNat with
            | (s, none) => (((s.free? dfe.buffer.pData).free next).free dfe.addr, dfeQ, false)
            | (s, some pData) =>
                let data := dfe.buffer.pData.elim (fun _ => 0) s.mem.bytes
                let s := s.onMem fun m =>
                  m.write pData (fun k => data (li.toNat + k)) (dfe.buffer.size - li).toNat
                rlcDecodeAndEnqueueAmSegment fi rest s
                  (dfeQ ++ [{ dfe with buffer := { dfe.buffer with size := li } }])
                  ⟨next, amPduMapSduFull, dfe.buffer.size - li, some pData⟩

/-- `RlcSetAmdPduAndDfeStatus`. -/
def rlcSetAmdPduAndDfeStatus (pdu : AmdPdu β) (h : AmdHeader) (dfe : AmdDfe β) :
    AmdPdu β × AmdDfe β :=
  (if h.rf = 1 ∧ h.lsf = 0 then { pdu with status := .segment }
   else if h.rf = 1 ∧ h.lsf = 1 then { pdu with status := .segmentComplete }
   else pdu,
   if h.fi = 0x01 then { dfe with status := amPduMapSduStart }
   else if h.fi = 0x03 then { dfe with status := amPduMapSduMid }
   else if h.fi = 0x02 then { dfe with status := amPduMapSduEnd }
   else dfe)

/-- `RlcDecodeAmdPdu`. When it fails, the data has been released. -/
def rlcDecodeAmdPdu (s : RlcState β) (pdu : AmdPdu β) (h : AmdHeader)
    (info : RlcUlDataInfo β) : RlcState β × Option (AmdPdu β) :=
  let data := info.rlcdataBuffer.elim (fun _ => 0) s.mem.bytes
  let size : UInt32 := UInt32.ofNat info.length - 2
  if pdu.segList.length ≠ 0 then (s.free? info.rlcdataBuffer, none)
  else
    match s.alloc env (env.sizeof .amdPduSegment) with
    | (s, none) => (s.free? info.rlcdataBuffer, none)
    | (s, some seg) =>
        if h.e = 0 then
          match s.alloc env (env.sizeof .amdDFE) with
          | (s, none) =>
              (rlcDeleteAmdPduSegment (s.free? info.rlcdataBuffer) ⟨seg, []⟩, none)
          | (s, some a) =>
              let s := s.onMem fun m => info.rlcdataBuffer.elim m fun b => m.dropFront b 2
              let r := rlcSetAmdPduAndDfeStatus pdu h
                ⟨a, amPduMapSduFull, size, info.rlcdataBuffer⟩
              (s, some { r.1 with segList := r.1.segList ++ [⟨seg, [r.2]⟩] })
        else
          match rlcGetConcatenationHeaderInfo data with
          | none => (rlcDeleteAmdPduSegment (s.free? info.rlcdataBuffer) ⟨seg, []⟩, none)
          | some pduHeader =>
              match s.alloc env (env.sizeof .amdDFE) with
              | (s, none) =>
                  (rlcDeleteAmdPduSegment (s.free? info.rlcdataBuffer) ⟨seg, []⟩, none)
              | (s, some a) =>
                  let s := s.onMem fun m =>
                    info.rlcdataBuffer.elim m fun b => m.dropFront b pduHeader.hdrSize
                  let status :=
                    if h.fi &&& 0x02 ≠ 0 then amPduMapSduEnd else amPduMapSduFull
                  match rlcDecodeAndEnqueueAmSegment env h.fi pduHeader.dfeLength s []
                    ⟨a, status, UInt32.ofNat info.length - UInt32.ofNat pduHeader.hdrSize,
                      info.rlcdataBuffer⟩ with
                  | (s, dfeQ, false) => (rlcDeleteAmdPduSegment s ⟨seg, dfeQ⟩, none)
                  | (s, dfeQ, true) =>
                      (s, some { pdu with segList := pdu.segList ++ [⟨seg, dfeQ⟩] })

/-- `RlcProcessAmdPduSegment`, which is not implemented: it releases the data and fails. -/
def rlcProcessAmdPduSegment (s : RlcState β) (info : RlcUlDataInfo β) : RlcState β × Bool :=
  (s.free? info.rlcdataBuffer, false)

/-! ## Reassembly -/

/-- `isSNEqual`. -/
def isSnEqual (x y : Nat) : Bool := x &&& 1023 == y &&& 1023

/-- The report about the PDU that is being processed. -/
def macReport (s : RlcState β) (rnti : UInt16) : Option UlReportInfo :=
  (macGetUeContext s.toMacState rnti).map fun a =>
    ⟨(s.macUeContext a).rbNum, (s.macUeContext a).ta, (s.macUeContext a).prbPower⟩

/-- Make the report the only one. -/
def reportFirst (s : RlcState β) (e : β) : RlcState β :=
  match macReport s (s.rxAmEntity e).rnti with
  | none => s
  | some info =>
      s.setRpt e ⟨1, Function.update (s.rxAmEntity e).ulRptInfoList.ulRptInfo 0 info⟩

/-- Append the report, if there is room. -/
def reportNext (s : RlcState β) (e : β) : RlcState β :=
  match macReport s (s.rxAmEntity e).rnti with
  | none => s
  | some info =>
      let rpt := (s.rxAmEntity e).ulRptInfoList
      if rpt.count < maxRlcSegmentsNum then
        s.setRpt e ⟨rpt.count + 1, Function.update rpt.ulRptInfo rpt.count info⟩
      else s

/-- `pRxAmEntity->ulRptInfoList.count = 0`. -/
def clearReports (s : RlcState β) (e : β) : RlcState β :=
  s.setRpt e { (s.rxAmEntity e).ulRptInfoList with count := 0 }

/-- The bytes of a buffer. -/
def RlcAmBuffer.data (b : RlcAmBuffer β) (m : Store β) (n : Nat) : List UInt8 :=
  b.pData.elim [] fun a => (List.range n).map (m.bytes a)

/-- `RlcDeliverAmSduToPdcp`. The size becomes 16 bits wide. The callers clear the buffer, or
release the element that it belongs to. -/
def rlcDeliverAmSduToPdcp (s : RlcState β) (e : β) (buffer : RlcAmBuffer β) : RlcState β :=
  let x := s.rxAmEntity e
  let size := buffer.size.toUInt16
  let ind : SduInd β :=
    ⟨x.rnti, x.lcId, buffer.pData, size, buffer.data s.mem size.toNat,
      x.ulRptInfoList.entries⟩
  let s := { s with rlcUeDataInds := s.rlcUeDataInds ++ [ind] }
  let s := s.countPending (pendingDeletion s.toRrcState x.rnti)
  s.onRrc fun t => rlcUeDataInd env t x.rnti x.lcId buffer.pData size x.ulRptInfoList

/-- `RlcReassembleFirstSduSegment`. -/
def rlcReassembleFirstSduSegment (s : RlcState β) (sn : Nat) (e : β) (dfe : AmdDfe β) :
    RlcState β :=
  match dfe.status with
  | amPduMapSduFull =>
      clearReports (rlcDeliverAmSduToPdcp env (reportFirst s e) e dfe.buffer) e
  | amPduMapSduStart => reportFirst (s.setRaw e ⟨sn, dfe.buffer⟩) e
  | _ => s.free? dfe.buffer.pData

/-- `MemJoin` of the incomplete SDU and an element. -/
def joinRaw (s : RlcState β) (raw : RlcAmRawSdu β) (dfe : AmdDfe β) :
    RlcState β × Option (RlcAmBuffer β) :=
  match raw.rawSdu.pData, dfe.buffer.pData with
  | some a, some b =>
      match s.mem.join env.toPolicy a b with
      | (m, some c) =>
          (s.onMem fun _ => m, some ⟨raw.rawSdu.size + dfe.buffer.size, some c⟩)
      | (m, none) => ({ s.onMem fun _ => m with refusedJoins := s.refusedJoins + 1 }, none)
  | _, _ => (s, none)

/-- `RlcReassembleInCmpAMSdu`. When `MemJoin` fails, the entity keeps the pointer to the
block that is released. -/
def rlcReassembleInCmpAmSdu (s : RlcState β) (sn : Nat) (e : β) (dfe : AmdDfe β) : RlcState β :=
  let raw := (s.rxAmEntity e).rxRawSdu
  if isSnEqual sn (raw.sn + 1) || isSnEqual sn raw.sn then
    match dfe.status with
    | amPduMapSduEnd =>
        match joinRaw env s raw dfe with
        | (s, none) => s
        | (s, some buffer) =>
            let s := reportNext (s.setRaw e ⟨raw.sn, buffer⟩) e
            let s := clearReports (rlcDeliverAmSduToPdcp env s e buffer) e
            s.setRaw e ⟨raw.sn, ⟨0, none⟩⟩
    | amPduMapSduMid =>
        if isSnEqual sn raw.sn = false then
          match joinRaw env s raw dfe with
          | (s, none) => s
          | (s, some buffer) => reportNext (s.setRaw e ⟨sn, buffer⟩) e
        else s.free? dfe.buffer.pData
    | amPduMapSduFull =>
        let s := (s.free? raw.rawSdu.pData).setRaw e ⟨raw.sn, ⟨0, none⟩⟩
        clearReports (rlcDeliverAmSduToPdcp env (reportFirst s e) e dfe.buffer) e
    | amPduMapSduStart => (s.free? raw.rawSdu.pData).setRaw e ⟨sn, dfe.buffer⟩
  else if dfe.status = amPduMapSduFull ∨ dfe.status = amPduMapSduStart then
    let s := (s.free? raw.rawSdu.pData).setRaw e ⟨raw.sn, ⟨0, none⟩⟩
    rlcReassembleFirstSduSegment env s sn e dfe
  else s.free? dfe.buffer.pData

/-- The body of the loop of `RlcReassembleAmdDfeQ`. -/
def rlcReassembleAmdDfe (sn : Nat) (e : β) (s : RlcState β) (dfe : AmdDfe β) : RlcState β :=
  (if dfe.buffer.pData.isSome then
    if (s.rxAmEntity e).rxRawSdu.rawSdu.pData.isSome then
      rlcReassembleInCmpAmSdu env s sn e dfe
    else rlcReassembleFirstSduSegment env s sn e dfe
  else s).free dfe.addr

/-- `RlcReassembleAmdDfeQ`. -/
def rlcReassembleAmdDfeQ (s : RlcState β) (sn : Nat) (e : β) (seg : AmdPduSegment β) :
    RlcState β := seg.dfeQ.foldl (rlcReassembleAmdDfe env sn e) s

/-- `RlcReassembleRlcSdu`. -/
def rlcReassembleRlcSdu (s : RlcState β) (sn : Nat) (e : β) : RlcState β :=
  let ringSn := sn &&& 511
  let node := (s.rxAmEntity e).amdPduRing ringSn
  if node.status = .inUse then
    match node.data with
    | none => s.setRing e ringSn ⟨.free, none⟩
    | some pdu =>
        if pdu.status = .complete ∨ pdu.status = .segmentComplete then
          let s := s.setRing e ringSn ⟨.ready, some pdu⟩
          let s := pdu.segList.foldl
            (fun s seg => (rlcReassembleAmdDfeQ env s sn e seg).free seg.addr) s
          (s.free pdu.addr).setRing e ringSn ⟨.free, none⟩
        else s
  else s

/-! ## Reception -/

/-- The context of the RNTI, or a new one. There is none without memory, or if the context
is about to be deleted. -/
def rlcContextFor (s : RlcState β) (rnti : UInt16) : RlcState β × Option β :=
  match rlcGetUeContext s rnti with
  | none => rlcCreateUeContext env s rnti
  | some a =>
      if (s.rlcUeContext a).deleteFlag then (s.countPending true, none)
      else (rlcUpdateUeContextTime s a 0, some a)

/-- The entity of the channel, or a new one. -/
def rlcEntityFor (s : RlcState β) (a : β) (lcId : Nat) : RlcState β × Option β :=
  match rlcGetRxAmEntity s a lcId with
  | some e => (s, some e)
  | none => rlcCreateRxAmEntity env s a lcId

/-- The branch of `RlcProcessAMRxPacket` for a slot of the ring that is free. -/
def rlcProcessNewAmdPdu (s : RlcState β) (e : β) (h : AmdHeader) (info : RlcUlDataInfo β) :
    RlcState β :=
  let ringSn := h.sn &&& 511
  let s :=
    match ((s.rxAmEntity e).amdPduRing ringSn).data with
    | none => s
    | some pdu => (rlcDeleteAmdPdu s pdu).setRing e ringSn ⟨.free, none⟩
  match rlcCreateAmdPdu env s with
  | (s, none) => s.free? info.rlcdataBuffer
  | (s, some pdu) =>
      if h.rf ≠ 0 then rlcDeleteAmdPdu (rlcProcessAmdPduSegment s info).1 pdu
      else
        match rlcDecodeAmdPdu env s pdu h info with
        | (s, none) => rlcDeleteAmdPdu s pdu
        | (s, some pdu) =>
            let s := s.setRing e ringSn ⟨.inUse, some { pdu with status := .complete }⟩
            rlcReassembleRlcSdu env s h.sn e

/-- The branch for a slot that is in use. The data is released here also when
`RlcProcessAmdPduSegment` has released it. -/
def rlcProcessNextAmdPdu (s : RlcState β) (e : β) (h : AmdHeader) (info : RlcUlDataInfo β) :
    RlcState β :=
  let ringSn := h.sn &&& 511
  let node := (s.rxAmEntity e).amdPduRing ringSn
  match node.data with
  | none => s.free? info.rlcdataBuffer
  | some pdu =>
      if h.rf ≠ 0 then (rlcProcessAmdPduSegment s info).1.free? info.rlcdataBuffer
      else
        let s := s.setRing e ringSn ⟨node.status, some { pdu with status := .complete }⟩
        rlcReassembleRlcSdu env (s.free? info.rlcdataBuffer) h.sn e

/-- `RlcProcessAMRxPacket`. -/
def rlcProcessAmRxPacket (s : RlcState β) (info : RlcUlDataInfo β) (rnti : UInt16) :
    RlcState β :=
  if info.lcId > srb2LcId then s.free? info.rlcdataBuffer
  else
    match info.rlcdataBuffer.bind fun b => rlcDecodeAmdHeader (s.mem.bytes b) info.length with
    | none => s.free? info.rlcdataBuffer
    | some h =>
        if h.dc = 0 then s.free? info.rlcdataBuffer
        else
          match rlcContextFor env s rnti with
          | (s, none) => s.free? info.rlcdataBuffer
          | (s, some a) =>
              match rlcEntityFor env s a info.lcId with
              | (s, none) => s.free? info.rlcdataBuffer
              | (s, some e) =>
                  if ((s.rxAmEntity e).amdPduRing (h.sn &&& 511)).status = .free then
                    rlcProcessNewAmdPdu env s e h info
                  else rlcProcessNextAmdPdu env s e h info

/-- `RlcProcessUmOrTmRxPacket`. -/
def rlcProcessUmOrTmRxPacket (s : RlcState β) (info : RlcUlDataInfo β) : RlcState β :=
  s.free? info.rlcdataBuffer

end LteUlp.Rlc
