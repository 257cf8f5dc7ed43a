import LteUlp.Nas.Model

set_option autoImplicit false

/-! # The unaligned PER parsers of the RRC messages

`asn1.c` spreads a message into the bits of `gMsgBitBuffer`, one bit a byte, hands the buffer
to an unpacker of `asn1Lib.c` and clears the part it wrote. Here the buffer is a function of
the bit position and a bit pointer is a position. The unpackers count the bits left in
`nBits`, which may get negative: the verdict is taken from it at the end.
-/

namespace LteUlp.Rrc

open LteUlp.Nas

def liblteMaxMsgSizeBits : Nat := liblteMaxMsgSizeBytes * 8

def ulInformationTransferTypeNas : UInt32 := 0
def conReqUeIdTypeSTmsi : UInt32 := 0

/-! ## Bits -/

/-- `convert_bytes_to_bits_vector`. -/
def convertBytesToBitsVector (bits : Nat → UInt8) (data : Nat → UInt8) (numBits : Nat) :
    Nat → UInt8 :=
  fun i => if i < numBits then (data (i / 8) >>> (7 - i % 8).toUInt8) &&& 1 else bits i

/-- `memset(bits, 0, numBits)`. -/
def clearBits (bits : Nat → UInt8) (numBits : Nat) : Nat → UInt8 :=
  fun i => if i < numBits then 0 else bits i

/-- `liblte_bits_2_value`: the value of `n` bits from position `p` on. The caller moves its
pointer by `n`. -/
def bits2Value (bits : Nat → UInt8) (p n : Nat) : UInt32 :=
  (List.range n).foldl
    (fun value i => value ||| (bits (p + i)).toUInt32 <<< (n - i - 1).toUInt32) 0

/-! ## Information elements -/

/-- The length that `liblte_rrc_unpack_dedicated_info_nas_ie` reads: `N_bytes`, the pointer
behind it and the bits left. -/
def dedicatedInfoNasLength (bits : Nat → UInt8) (p : Nat) (nBits : Int) : Nat × Nat × Int :=
  if bits2Value bits p 1 = 0 then ((bits2Value bits (p + 1) 7).toNat, p + 8, nBits - 7 - 1)
  else if bits2Value bits (p + 1) 1 = 0 then
    ((bits2Value bits (p + 2) 14).toNat, p + 16, nBits - 14 - 1 - 1)
  else (0, p + 2, nBits - 1 - 1)

/-- `liblte_rrc_unpack_dedicated_info_nas_ie`: the structure it writes to and the bits left.
The payload is not counted against the bits left. -/
def rrcUnpackDedicatedInfoNasIe (bits : Nat → UInt8) (p : Nat) (nas : SimpleByteMsg)
    (nBits : Int) : SimpleByteMsg × Int :=
  match dedicatedInfoNasLength bits p nBits with
  | (nBytes, p, nBits) =>
      if nBits < 0 ∨ nBytes = 0 ∨ nBytes > liblteMaxMsgSizeBytes ∨
          ((nBytes * 8 : Nat) : Int) > nBits + 7 then
        ({ nas with nBytes := 0 }, -1)
      else
        (⟨nBytes, fun i =>
          if i < nBytes then (bits2Value bits (p + 8 * i) 8).toUInt8 else nas.msg i⟩, nBits)

/-- `LIBLTE_RRC_PLMN_IDENTITY_STRUCT`. -/
structure PlmnIdentity where
  mcc : UInt16
  mnc : UInt16
  deriving DecidableEq, Inhabited

/-- Three digits of four bits each, after a prefix. -/
def threeDigits (bits : Nat → UInt8) (p : Nat) : UInt16 :=
  (0xF000 : UInt16) ||| ((bits2Value bits p 4).toUInt16 <<< 8)
    ||| ((bits2Value bits (p + 4) 4).toUInt16 <<< 4) ||| (bits2Value bits (p + 8) 4).toUInt16

/-- `liblte_rrc_unpack_plmn_identity_ie`: the identity, the pointer and the bits left. -/
def rrcUnpackPlmnIdentityIe (bits : Nat → UInt8) (p : Nat) (nBits : Int) :
    PlmnIdentity × Nat × Int :=
  let mcc : UInt16 × Nat × Int :=
    if bits2Value bits p 1 = 1 then (threeDigits bits (p + 1), p + 13, nBits - 1 - 12)
    else (0xFFFF, p + 1, nBits - 1)
  let p := mcc.2.1
  let nBits := mcc.2.2
  if bits2Value bits p 1 = 0 then
    (⟨mcc.1, (0xFF00 : UInt16) ||| ((bits2Value bits (p + 1) 4).toUInt16 <<< 4)
      ||| (bits2Value bits (p + 5) 4).toUInt16⟩, p + 9, nBits - 1 - 8)
  else (⟨mcc.1, threeDigits bits (p + 1)⟩, p + 13, nBits - 1 - 12)

/-! ## Messages -/

/-- `LIBLTE_RRC_UL_INFORMATION_TRANSFER_STRUCT`. -/
structure UlInformationTransfer where
  dedicatedInfo : SimpleByteMsg
  dedicatedInfoType : UInt32
  deriving Inhabited

/-- `liblte_rrc_unpack_ul_information_transfer_msg`: whether it succeeds, and the structure. -/
def rrcUnpackUlInformationTransferMsg (bits : Nat → UInt8) (p : Nat) (nBits : Int)
    (info : UlInformationTransfer) : Bool × UlInformationTransfer :=
  -- extension (1), C1 choice (2), optional indicator (1), dedicated info type (2)
  let nBits := nBits - 1 - 2 - 1 - 2
  let info := { info with dedicatedInfoType := bits2Value bits (p + 4) 2 }
  if info.dedicatedInfoType = ulInformationTransferTypeNas then
    match rrcUnpackDedicatedInfoNasIe bits (p + 6) info.dedicatedInfo nBits with
    | (nas, nBits) => (decide (nBits ≥ 0), { info with dedicatedInfo := nas })
  else (decide (nBits ≥ 0), info)

/-- `LIBLTE_RRC_CONNECTION_SETUP_COMPLETE_STRUCT`, with the registered MME inlined. -/
structure RrcConnectionSetupComplete where
  plmnId : PlmnIdentity
  mmegi : UInt16
  mmec : UInt8
  plmnIdPresent : Bool
  dedicatedInfoNas : SimpleByteMsg
  rrcTransactionId : UInt8
  selectedPlmnId : UInt8
  registeredMmePresent : Bool
  deriving Inhabited

/-- `liblte_rrc_unpack_rrc_connection_setup_complete_msg`: whether it succeeds, and the
structure. -/
def rrcUnpackRrcConnectionSetupCompleteMsg (bits : Nat → UInt8) (p : Nat) (nBits : Int)
    (msg : RrcConnectionSetupComplete) : Bool × RrcConnectionSetupComplete :=
  -- transaction id (2), extension (1), C1 choice (2), optional indicators (2), PLMN (3)
  let nBits := nBits - 2 - 1 - 2 - 2 - 3
  let msg := { msg with
    rrcTransactionId := (bits2Value bits p 2).toUInt8
    registeredMmePresent := decide (bits2Value bits (p + 5) 1 ≠ 0)
    selectedPlmnId := (bits2Value bits (p + 7) 3).toUInt8 + 1 }
  let p := p + 10
  let mme : RrcConnectionSetupComplete × Nat × Int :=
    if msg.registeredMmePresent then
      let nBits := nBits - 1
      let msg := { msg with plmnIdPresent := decide (bits2Value bits p 1 ≠ 0) }
      let p := p + 1
      let plmn : RrcConnectionSetupComplete × Nat × Int :=
        if msg.plmnIdPresent then
          match rrcUnpackPlmnIdentityIe bits p nBits with
          | (plmn, p, nBits) => ({ msg with plmnId := plmn }, p, nBits)
        else (msg, p, nBits)
      let p := plmn.2.1
      ({ plmn.1 with
          mmegi := (bits2Value bits p 16).toUInt16
          mmec := (bits2Value bits (p + 16) 8).toUInt8 }, p + 24, plmn.2.2 - 16 - 8)
    else (msg, p, nBits)
  match rrcUnpackDedicatedInfoNasIe bits mme.2.1 mme.1.dedicatedInfoNas mme.2.2 with
  | (nas, nBits) => (decide (nBits ≥ 0), { mme.1 with dedicatedInfoNas := nas })

/-- `LIBLTE_RRC_CONNECTION_REQUEST_STRUCT`. The union of the S-TMSI and the random value is a
record of both. -/
structure RrcConnectionRequest where
  mTmsi : UInt32
  mmec : UInt8
  random : UInt64
  ueIdType : UInt32
  cause : UInt32
  deriving DecidableEq, Inhabited

/-- `liblte_rrc_unpack_rrc_connection_request_msg`. It succeeds on every input. -/
def rrcUnpackRrcConnectionRequestMsg (bits : Nat → UInt8) (p : Nat)
    (req : RrcConnectionRequest) : RrcConnectionRequest :=
  let req := { req with ueIdType := bits2Value bits (p + 1) 1 }
  let req :=
    if req.ueIdType = conReqUeIdTypeSTmsi then
      { req with
        mmec := (bits2Value bits (p + 2) 8).toUInt8, mTmsi := bits2Value bits (p + 10) 32 }
    else
      { req with
        random := (bits2Value bits (p + 2) 8).toUInt64 <<< 32
          ||| (bits2Value bits (p + 10) 32).toUInt64 }
  { req with cause := bits2Value bits (p + 42) 3 }

/-! ## Entry points

Each takes the bit buffer and returns it; the result is `none` for an error. A message that
is too long is refused before anything is written. -/

/-- `Asn1ParseUlInfoTransMsg`. -/
def asn1ParseUlInfoTransMsg (buff : Nat → UInt8) (data : Nat → UInt8) (length : Nat)
    (info : UlInformationTransfer) : (Nat → UInt8) × Option UlInformationTransfer :=
  let bitLen := length * 8
  if bitLen > liblteMaxMsgSizeBits then (buff, none)
  else
    let buff := convertBytesToBitsVector buff data bitLen
    let r := rrcUnpackUlInformationTransferMsg buff 5 (bitLen - 5) info
    (clearBits buff bitLen, if r.1 then some r.2 else none)

/-- `Asn1ParseRrcSetupComplMsg`. -/
def asn1ParseRrcSetupComplMsg (buff : Nat → UInt8) (data : Nat → UInt8) (length : Nat)
    (msg : RrcConnectionSetupComplete) :
    (Nat → UInt8) × Option RrcConnectionSetupComplete :=
  let bitLen := length * 8
  if bitLen > liblteMaxMsgSizeBits then (buff, none)
  else
    let buff := convertBytesToBitsVector buff data bitLen
    let r := rrcUnpackRrcConnectionSetupCompleteMsg buff 5 (bitLen - 5) msg
    (clearBits buff bitLen, if r.1 then some r.2 else none)

/-- `Asn1ParseRrcConnReqMsg`. -/
def asn1ParseRrcConnReqMsg (buff : Nat → UInt8) (data : Nat → UInt8) (length : Nat)
    (req : RrcConnectionRequest) : (Nat → UInt8) × Option RrcConnectionRequest :=
  let bitLen := length * 8
  if bitLen > liblteMaxMsgSizeBits then (buff, none)
  else
    let buff := convertBytesToBitsVector buff data bitLen
    let r := rrcUnpackRrcConnectionRequestMsg buff 2 req
    (clearBits buff bitLen, some r)

end LteUlp.Rrc
