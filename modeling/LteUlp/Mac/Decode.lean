import Mathlib.Tactic

set_option autoImplicit false

/-! # The subheader loop of `MacProcessUlSchPdu`

The loop walks the subheaders of a MAC PDU, and one helper per kind of subheader moves the
header cursor `pData`, the count `dataPtrPos` of header bytes, `remainingPayloadLength` and
the table `demuxData`. The memory is a function of the offset from `pPdu->buffer`: the
helpers read where the cursor points, whether or not that is inside the PDU. `extent` is one
past the highest offset read so far; nothing in the code depends on it.

Every subtraction from `remainingPayloadLength` is guarded by a comparison, so it is a `Nat`
and the check for a negative value at the end of an iteration has nothing to find.
-/

namespace LteUlp.Mac

/-! ## Logical channels -/

def maxNumChannels : Nat := 17
def macUlCcchLch : Nat := 0
def macLcid10 : Nat := 10
def macPowerHeadLch : Nat := 26
def macCrntiLch : Nat := 27
def macTruncatedBsr : Nat := 28
def macSBsrLch : Nat := 29
def macLBsrLch : Nat := 30
def macPaddingLch : Nat := 31

def powerHeadroomMacCeLength : Nat := 1
def crntiMacCeLength : Nat := 2
def shortBsrMacCeLength : Nat := 1
def longBsrMacCeLength : Nat := 3

/-- `*pData & 0x1f`. -/
def lcIdOf (b : UInt8) : Nat := (b &&& 0x1f).toNat

/-- `*pData & MAC_UL_PDU_EXTN_FLAG`. -/
def extnOf (b : UInt8) : Bool := b &&& 0x20 ≠ 0

structure DemuxDataBase where
  lchId : Nat
  length : Nat
  deriving DecidableEq

/-! ## The state of the loop -/

/-- The local variables of `MacProcessUlSchPdu`. `pData` is an offset into the PDU, and
`demuxData` holds the first `pos` entries of the table. -/
structure Decode where
  extnFlag : Bool
  successDecodeFlag : Bool
  startPaddingFlag : Bool
  pData : Nat
  dataPtrPos : Nat
  localLength : Nat
  remainingPayloadLength : Nat
  demuxData : List DemuxDataBase
  extent : Nat
  deriving DecidableEq

namespace Decode

/-- The variables before the loop, for a PDU of `length` bytes. -/
def start (length : Nat) : Decode :=
  ⟨false, true, false, 0, 0, 0, length, [], 0⟩

/-- Read `*pData`. -/
def peek (st : Decode) (m : Nat → UInt8) : UInt8 × Decode :=
  (m st.pData, { st with extent := max st.extent (st.pData + 1) })

/-- `*sucessDecodeFlag = FALSE`. -/
def refuse (st : Decode) : Decode := { st with successDecodeFlag := false }

/-- Append an entry to `demuxData`, while there is room. -/
def record (st : Decode) (lcId length : Nat) : Decode :=
  if st.demuxData.length < maxNumChannels then
    { st with demuxData := st.demuxData ++ [⟨lcId, length⟩] }
  else st

end Decode

/-! ## The helpers -/

/-- `MacCalculateSubHeaderLength`. The length goes to `localLength`. -/
def macCalculateSubHeaderLength (m : Nat → UInt8) (st : Decode) : Decode :=
  let (b, st) := st.peek m
  if b &&& 0x80 ≠ 0 then
    let st := { st with pData := st.pData + 1 }
    let (b', st) := st.peek m
    { st with
      localLength := ((b &&& 0x7f).toNat <<< 8) ||| b'.toNat
      dataPtrPos := st.dataPtrPos + 3 }
  else
    { st with localLength := (b &&& 0x7f).toNat, dataPtrPos := st.dataPtrPos + 2 }

/-- The checks on the length of an SDU and its entry in `demuxData`. -/
def acceptSdu (lcId : Nat) (tooLong : Nat → Bool) (st : Decode) : Decode :=
  if st.localLength = 0 ∨ st.remainingPayloadLength < st.localLength
      ∨ tooLong st.localLength = true then
    st.refuse
  else
    let st := st.record lcId st.localLength
    { st with remainingPayloadLength := st.remainingPayloadLength - st.localLength }

/-- What `MacProcessMacLcId` and `MacProcessUlCcchLch` share: the length of an SDU is read
or, in the last subheader, inferred; `tooLong` is the extra check of the second one. -/
def processSdu (m : Nat → UInt8) (lcId : Nat) (tooLong : Nat → Bool) (st : Decode) : Decode :=
  if st.extnFlag = false then
    let st := { st with dataPtrPos := st.dataPtrPos + 1 }
    if st.remainingPayloadLength ≤ st.dataPtrPos then st.refuse
    else
      acceptSdu lcId tooLong
        { st with localLength := st.remainingPayloadLength - st.dataPtrPos }
  else
    acceptSdu lcId tooLong
      (macCalculateSubHeaderLength m { st with pData := st.pData + 1 })

/-- `MacProcessMacLcId`. -/
def macProcessMacLcId (m : Nat → UInt8) (lcId : Nat) (st : Decode) : Decode :=
  processSdu m lcId (fun _ => false) st

/-- `MacProcessUlCcchLch`. -/
def macProcessUlCcchLch (m : Nat → UInt8) (st : Decode) : Decode :=
  processSdu m macUlCcchLch (fun length => decide (100 < length)) st

/-- What the helpers for control elements share. -/
def processCe (lcId length : Nat) (st : Decode) : Decode :=
  if st.remainingPayloadLength < length then st.refuse
  else
    let st := st.record lcId length
    { st with
      remainingPayloadLength := st.remainingPayloadLength - length
      dataPtrPos := st.dataPtrPos + 1 }

/-- `MacProcessPowerHeadLch`. -/
def macProcessPowerHeadLch (st : Decode) : Decode :=
  processCe macPowerHeadLch powerHeadroomMacCeLength st

/-- `MacProcessCrntiLch`. -/
def macProcessCrntiLch (st : Decode) : Decode := processCe macCrntiLch crntiMacCeLength st

/-- `MacProcessShortOrTruncatedBsr`. -/
def macProcessShortOrTruncatedBsr (lcId : Nat) (st : Decode) : Decode :=
  processCe lcId shortBsrMacCeLength st

/-- `MacProcessLongBsrLch`. -/
def macProcessLongBsrLch (st : Decode) : Decode := processCe macLBsrLch longBsrMacCeLength st

/-- The bytes left after the last subheader, or missing for it. -/
def paddingLength (remainingPayloadLength dataPtrPos : Nat) : Nat :=
  if remainingPayloadLength > dataPtrPos then remainingPayloadLength - dataPtrPos
  else dataPtrPos - remainingPayloadLength

/-- `MacProcessPaddingLch`. The entry it clears is past the end of the table in use. -/
def macProcessPaddingLch (st : Decode) : Decode :=
  if st.extnFlag = false then
    let st := { st with dataPtrPos := st.dataPtrPos + 1 }
    let st := { st with localLength := paddingLength st.remainingPayloadLength st.dataPtrPos }
    if st.remainingPayloadLength ≥ st.localLength then
      { st with remainingPayloadLength := st.remainingPayloadLength - st.localLength }
    else st.refuse
  else { st with startPaddingFlag := true, dataPtrPos := st.dataPtrPos + 1 }

/-! ## The loop -/

/-- The `switch` of `MacProcessUlSchPdu`. -/
def macDispatch (m : Nat → UInt8) (lcId : Nat) (st : Decode) : Decode :=
  if lcId = macUlCcchLch then macProcessUlCcchLch m st
  else if lcId ≤ macLcid10 then macProcessMacLcId m lcId st
  else if lcId = macPowerHeadLch then macProcessPowerHeadLch st
  else if lcId = macCrntiLch then macProcessCrntiLch st
  else if lcId = macTruncatedBsr ∨ lcId = macSBsrLch then macProcessShortOrTruncatedBsr lcId st
  else if lcId = macLBsrLch then macProcessLongBsrLch st
  else if lcId = macPaddingLch then macProcessPaddingLch st
  else st

/-- One iteration of the loop. -/
def macSubheader (m : Nat → UInt8) (st : Decode) : Decode :=
  let (b, st) := st.peek m
  let st := macDispatch m (lcIdOf b) { st with extnFlag := extnOf b, localLength := 0 }
  { st with pData := st.pData + 1 }

/-- The loop, for at most `fuel` iterations; `none` where it has not ended by then. -/
def macLoop (m : Nat → UInt8) : Nat → Decode → Option Decode
  | 0, _ => none
  | fuel + 1, st =>
      let st := macSubheader m st
      if st.extnFlag = true ∧ st.successDecodeFlag = true then macLoop m fuel st else some st

end LteUlp.Mac
