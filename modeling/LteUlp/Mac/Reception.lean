import LteUlp.Basic.Endian
import LteUlp.Mac.Decode
import LteUlp.Rlc.Model

set_option autoImplicit false
set_option linter.unusedSectionVars false

/-! # Reception of PHY indications

`MacProcessPhyDataInd` walks the PDUs of an indication. The subheaders of a PDU with a
correct CRC are decoded to the table `demuxData`; `MacDeMultiplexAndSend` then copies the
SDUs to blocks of their own, passes those of the common channel to RRC one by one and the
others to RLC in one call. The state logs these calls; nothing in the code depends on it.

The memory of the indication is a function of the offset from `pBuffer`, which the code reads
without regard to the end of the indication. The loop over the subheaders may not end, so it
is given fuel, and so is what calls it.
-/

namespace LteUlp.Mac

open BlockStore Endian LteUlp.Rrc LteUlp.Rlc

/-- `MAX_NUM_UL_PKTS`. -/
def maxNumUlPkts : Nat := 106

/-- `RlcUlData`, at the address `addr`; `numLCInfo` is the length of the array in use. -/
structure RlcUlData (β : Type) where
  addr : β
  rlcDataArray : List (RlcUlDataInfo β)

/-- A call of `MacUeCcchDataInd`, with the bytes that `pData` points to. -/
structure CcchInd where
  rnti : UInt16
  data : List UInt8
  size : Nat
  deriving DecidableEq

/-- An entry of `rlcDataArray`, with the bytes that `rlcdataBuffer` points to. -/
structure RlcSdu where
  lcId : Nat
  length : Nat
  data : Option (List UInt8)
  deriving DecidableEq

/-- A call of `MacUeDataInd`; there are no entries where `rlcData` is a null pointer. -/
structure DataInd where
  rnti : UInt16
  rlcData : Option (List RlcSdu)
  deriving DecidableEq

/-- The state of all layers, with the calls that MAC has made. -/
structure UlState (β : Type) extends RlcState β where
  macUeCcchDataInds : List CcchInd
  macUeDataInds : List DataInd

/-- The platform, and what an entry of `rlcDataArray` holds before it is written to. -/
structure MacPlatform (β : Type) extends Platform β where
  staleInfo : Nat → RlcUlDataInfo β

variable {β : Type} [DecidableEq β] (env : MacPlatform β)

namespace UlState

/-- Let the layers above do something. -/
def onRlc (s : UlState β) (f : RlcState β → RlcState β) : UlState β :=
  { s with toRlcState := f s.toRlcState }

/-- `MemAlloc`. -/
def alloc (s : UlState β) (n : Nat) : UlState β × Option β :=
  let r := s.toRlcState.alloc env.toPlatform n
  ({ s with toRlcState := r.1 }, r.2)

/-- `memcpy` to a block. -/
def memcpy (s : UlState β) (dst : β) (src : Nat → UInt8) (n : Nat) : UlState β :=
  s.onRlc fun t => t.onMem fun m => m.write dst src n

/-- Increment counters. -/
def countKpi (s : UlState β) (f : LteKpi → LteKpi) : UlState β :=
  s.onRlc fun t => t.onRrc fun u => u.countKpi f

/-- Write to a MAC context. -/
def setMacContext (s : UlState β) (a : β) (c : MacUeContext) : UlState β :=
  s.onRlc fun t => { t with toMacState := t.toMacState.setMacContext a c }

end UlState

/-! ## Demultiplexing -/

/-- The block for the SDUs of a PDU, allocated with the first of them. -/
def rlcUlDataFor (s : UlState β) (rlcData : Option (RlcUlData β)) :
    UlState β × Option (RlcUlData β) :=
  match rlcData with
  | some d => (s, some d)
  | none =>
      match s.alloc env (env.sizeof .rlcUlData) with
      | (s, none) => (s, none)
      | (s, some a) => (s, some ⟨a, []⟩)

/-- `MacDemuxOneToTenLchMsg`; `src` are the bytes at `*dataPtr_p`. `*lcIdx` is the number of
entries so far. An entry whose buffer cannot be allocated is counted, and nothing else of it
is written. -/
def macDemuxOneToTenLchMsg (s : UlState β) (rlcData : Option (RlcUlData β)) (lchId : Nat)
    (src : Nat → UInt8) (length : Nat) : UlState β × Option (RlcUlData β) :=
  if rlcData.elim 0 (fun d => d.rlcDataArray.length) ≥ maxNumUlPkts then (s, rlcData)
  else
    match rlcUlDataFor env s rlcData with
    | (s, none) => (s, none)
    | (s, some d) =>
        match s.alloc env length with
        | (t, none) =>
            let info := { env.staleInfo s.mem.clock with rlcdataBuffer := none }
            (t, some { d with rlcDataArray := d.rlcDataArray ++ [info] })
        | (t, some buffer) =>
            (t.memcpy buffer src length,
              some { d with
                rlcDataArray := d.rlcDataArray ++ [⟨lchId, length, some buffer⟩] })

/-- `MacUeCcchDataInd`, logged. -/
def ccchDataInd (s : UlState β) (rnti : UInt16) (pData : β) (size : Nat) : UlState β :=
  let size := size % 2 ^ 16
  let ind : CcchInd := ⟨rnti, (List.range size).map (s.mem.bytes pData), size⟩
  let s := { s with macUeCcchDataInds := s.macUeCcchDataInds ++ [ind] }
  let s := s.onRlc fun t => t.countPending (pendingDeletion t.toRrcState rnti)
  s.onRlc fun t => t.onRrc fun u => macUeCcchDataInd env.toPlatform u rnti pData size

/-- The case of the `switch` of `MacDeMultiplexAndSend` for the common channel. -/
def macDemuxCcch (s : UlState β) (rnti : UInt16) (src : Nat → UInt8) (length : Nat) :
    UlState β :=
  match s.alloc env length with
  | (s, none) => s
  | (s, some pCcchData) => ccchDataInd env (s.memcpy pCcchData src length) rnti pCcchData length

/-- `gLteKpi.lcIdArray[lchId]++`. -/
def countLcId (s : UlState β) (lchId : Nat) : UlState β :=
  s.countKpi fun kpi => { kpi with lcIdArray := bump kpi.lcIdArray lchId }

/-- An iteration of the loop of `MacDeMultiplexAndSend`: the state, the SDUs for RLC and
`dataPtr_p`, as an offset. -/
def macDemuxEntry (m : Nat → UInt8) (rnti : UInt16)
    (r : UlState β × Option (RlcUlData β) × Nat) (entry : DemuxDataBase) :
    UlState β × Option (RlcUlData β) × Nat :=
  let (s, rlcData, dataPtr) := r
  let src := fun k => m (dataPtr + k)
  if entry.lchId = macUlCcchLch then
    (countLcId (macDemuxCcch env s rnti src entry.length) entry.lchId, rlcData,
      dataPtr + entry.length)
  else if entry.lchId ≤ macLcid10 then
    let (s, rlcData) := macDemuxOneToTenLchMsg env s rlcData entry.lchId src entry.length
    (countLcId s entry.lchId, rlcData, dataPtr + entry.length)
  else if entry.lchId = macTruncatedBsr ∨ entry.lchId = macSBsrLch then
    (s, rlcData, dataPtr + 1)
  else if entry.lchId = macLBsrLch then (s, rlcData, dataPtr + 3)
  else if entry.lchId = macPowerHeadLch then (s, rlcData, dataPtr + 1)
  else (s, rlcData, dataPtr + entry.length)

/-- The body of the loop of `MacUeDataInd`. -/
def macUeDataIndEntry (rnti : UInt16) (s : RlcState β) (info : RlcUlDataInfo β) :
    RlcState β :=
  if info.lcId ≤ srb2LcId then rlcProcessAmRxPacket env.toPlatform s info rnti
  else rlcProcessUmOrTmRxPacket s info

/-- `MacUeDataInd`, for the indication at `addr`. -/
def macUeDataInd (s : RlcState β) (addr : β) (rnti : UInt16)
    (rlcData : Option (RlcUlData β)) : RlcState β :=
  match rlcData with
  | none => s.free addr
  | some d => ((d.rlcDataArray.foldl (macUeDataIndEntry env rnti) s).free d.addr).free addr

/-- The entry with its bytes. -/
def sduOf (mem : Store β) (info : RlcUlDataInfo β) : RlcSdu :=
  ⟨info.lcId, info.length,
    info.rlcdataBuffer.map fun b => (List.range info.length).map (mem.bytes b)⟩

/-- `MacUeDataInd`, logged. -/
def dataInd (s : UlState β) (addr : β) (rnti : UInt16) (rlcData : Option (RlcUlData β)) :
    UlState β :=
  let ind : DataInd := ⟨rnti, rlcData.map fun d => d.rlcDataArray.map (sduOf s.mem)⟩
  let s := { s with macUeDataInds := s.macUeDataInds ++ [ind] }
  s.onRlc fun t => macUeDataInd env t addr rnti rlcData

/-- `MacDeMultiplexAndSend`. -/
def macDeMultiplexAndSend (s : UlState β) (m : Nat → UInt8) (dataPtr : Nat) (rnti : UInt16)
    (demuxData : List DemuxDataBase) : UlState β :=
  match s.alloc env (env.sizeof .macUeDataInd) with
  | (s, none) => s
  | (s, some addr) =>
      let r := demuxData.foldl (macDemuxEntry env m rnti) (s, none, dataPtr)
      dataInd env r.1 addr rnti r.2.1

/-- `MacProcessUlSchPdu`; `none` where the loop over the subheaders has not ended. -/
def macProcessUlSchPdu (fuel : Nat) (s : UlState β) (m : Nat → UInt8) (length : Nat)
    (rnti : UInt16) : Option (UlState β) :=
  if length = 0 then some s
  else
    (macLoop m fuel (Decode.start length)).map fun st =>
      if st.successDecodeFlag then macDeMultiplexAndSend env s m st.pData rnti st.demuxData
      else s

/-! ## PHY indications -/

/-- `RX_ULSCH_INDICATION`. -/
def rxUlSchIndication : Nat := 0x87

/-- `sizeof(S_PhyHlMsgHead)`. -/
def phyHlMsgHeadSize : Nat := 32

/-- `sizeof(S_UlIndHead)`. -/
def ulIndHeadSize : Nat := 4

/-- `sizeof(S_RxUlschIndHeadPdu)`. -/
def rxUlSchIndHeadPduSize : Nat := 28

/-- A field of `w` bytes. -/
def phyField (data : Nat → UInt8) (offset w : Nat) : Nat :=
  load .little ((List.range w).map fun k => data (offset + k))

/-- The part of `S_RxUlschIndHeadPdu` that is used. -/
structure RxUlSchIndHeadPdu where
  rnti : UInt16
  bitLen : UInt32
  wordLen : UInt16
  crcFlag : UInt8
  ta : Int
  rbNum : UInt8
  prbPower : Int
  deriving DecidableEq

/-- The fields at an offset. -/
def rxUlSchIndHeadPdu (data : Nat → UInt8) (offset : Nat) : RxUlSchIndHeadPdu where
  rnti := UInt16.ofNat (phyField data (offset + 4) 2)
  bitLen := UInt32.ofNat (phyField data (offset + 8) 4)
  wordLen := UInt16.ofNat (phyField data (offset + 12) 2)
  crcFlag := data (offset + 14)
  ta := (BitVec.ofNat 16 (phyField data (offset + 16) 2)).toInt
  rbNum := data (offset + 18)
  prbPower := (BitVec.ofNat 32 (phyField data (offset + 20) 4)).toInt

/-- The context of the RNTI, or a new one. -/
def macFindOrCreate (s : UlState β) (rnti : UInt16) : UlState β × Option β :=
  match macGetUeContext s.toMacState rnti with
  | some a => (s, some a)
  | none =>
      let r := macCreateUeContext env.toPlatform s.toMacState rnti
      (s.onRlc fun t => { t with toMacState := r.1 }, r.2)

/-- Record the radio values of a PDU. -/
def macRecordPdu (s : UlState β) (head : RxUlSchIndHeadPdu) : UlState β :=
  match macFindOrCreate env s head.rnti with
  | (s, none) => s
  | (s, some a) =>
      s.setMacContext a
        { s.macUeContext a with
          rbNum := head.rbNum, prbPower := head.prbPower, ta := head.ta }

/-- A PDU whose data begin at `tempLen`. -/
def macProcessPdu (fuel : Nat) (s : UlState β) (data : Nat → UInt8) (head : RxUlSchIndHeadPdu)
    (tempLen : UInt16) : Option (UlState β) :=
  if head.crcFlag = 1 then
    let s := s.countKpi fun kpi => { kpi with crcCorrect := kpi.crcCorrect + 1 }
    macProcessUlSchPdu env fuel (macRecordPdu env s head) (fun k => data (tempLen.toNat + k))
      ((head.bitLen + 7) >>> 3).toUInt16.toNat head.rnti
  else some (s.countKpi fun kpi => { kpi with crcError := kpi.crcError + 1 })

/-- The loop of `MacProcessPhyDataInd`, for at most as many PDUs as are left. `tempLen` is 16
bits wide. -/
def macProcessPdus (fuel : Nat) (data : Nat → UInt8) (length : UInt16) :
    Nat → UInt16 → UlState β → Option (UlState β)
  | 0, _, s => some s
  | left + 1, tempLen, s =>
      if tempLen < length then
        let head := rxUlSchIndHeadPdu data tempLen.toNat
        let tempLen := tempLen + UInt16.ofNat rxUlSchIndHeadPduSize
        if tempLen > length then some s
        else
          (macProcessPdu env fuel s data head tempLen).bind fun s =>
            macProcessPdus fuel data length left (tempLen + (head.wordLen <<< 2)) s
      else some s

/-- `MacProcessPhyDataInd`; `data` are the bytes from `pBuffer` on. -/
def macProcessPhyDataInd (fuel : Nat) (s : UlState β) (pBuffer : Option (Nat → UInt8))
    (length : UInt16) : Option (UlState β) :=
  match pBuffer with
  | none => some s
  | some data =>
      if phyField data 14 2 = rxUlSchIndication then
        macProcessPdus env fuel data length (data (phyHlMsgHeadSize + 3)).toNat
          (UInt16.ofNat (phyHlMsgHeadSize + ulIndHeadSize)) s
      else some s

end LteUlp.Mac
