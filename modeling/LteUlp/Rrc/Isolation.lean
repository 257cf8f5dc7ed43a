import LteUlp.Rrc.BitReading

set_option autoImplicit false

/-! # Messages do not see earlier ones

The parsers share one bit buffer, and the unpackers read behind the end of a short message.
Each parser clears the bits that it has written, so that the buffer is as `Asn1Init` left it
between two calls, and what a parser returns and writes depends on its own message only. The
entries of `gMsgBitBuffer` from `LIBLTE_MAX_MSG_SIZE_BITS` on are the memory behind `buff`,
where no bit is written. In the structure this is the pointer `msg`, which every parser sets to
`buff` before it reads a bit, so that what a call finds there depends on the call alone too; it
stands for that value.
-/

namespace LteUlp.Rrc

open LteUlp.Nas

/-! ## Calls -/

/-- `Asn1Init`. -/
def asn1Init (buff : Nat → UInt8) : Nat → UInt8 := clearBits buff liblteMaxMsgSizeBits

/-- A call of one of the parsers: the message, its length and the structure for the result. -/
inductive Asn1Call where
  | ulInfoTrans (data : Nat → UInt8) (length : Nat) (info : UlInformationTransfer)
  | rrcSetupCompl (data : Nat → UInt8) (length : Nat) (msg : RrcConnectionSetupComplete)
  | rrcConnReq (data : Nat → UInt8) (length : Nat) (req : RrcConnectionRequest)

/-- The bit buffer after a call. -/
def Asn1Call.buffer (buff : Nat → UInt8) : Asn1Call → Nat → UInt8
  | .ulInfoTrans data length info => (asn1ParseUlInfoTransMsg buff data length info).1
  | .rrcSetupCompl data length msg => (asn1ParseRrcSetupComplMsg buff data length msg).1
  | .rrcConnReq data length req => (asn1ParseRrcConnReqMsg buff data length req).1

/-- The bit buffer after `Asn1Init` and some calls. -/
def bufferAfter (buff : Nat → UInt8) (calls : List Asn1Call) : Nat → UInt8 :=
  calls.foldl (fun buff call => call.buffer buff) (asn1Init buff)

/-! ## What a call leaves in the structure

In case of an error the parsers do not say what they have written; these functions do. -/

def ulInfoTransResult (buff data : Nat → UInt8) (length : Nat) (info : UlInformationTransfer) :
    Bool × UlInformationTransfer :=
  if length * 8 > liblteMaxMsgSizeBits then (false, info)
  else rrcUnpackUlInformationTransferMsg (convertBytesToBitsVector buff data (length * 8)) 5
    ((length * 8 : Nat) - 5) info

def rrcSetupComplResult (buff data : Nat → UInt8) (length : Nat)
    (msg : RrcConnectionSetupComplete) : Bool × RrcConnectionSetupComplete :=
  if length * 8 > liblteMaxMsgSizeBits then (false, msg)
  else rrcUnpackRrcConnectionSetupCompleteMsg
    (convertBytesToBitsVector buff data (length * 8)) 5 ((length * 8 : Nat) - 5) msg

def rrcConnReqResult (buff data : Nat → UInt8) (length : Nat) (req : RrcConnectionRequest) :
    Bool × RrcConnectionRequest :=
  if length * 8 > liblteMaxMsgSizeBits then (false, req)
  else (true, rrcUnpackRrcConnectionRequestMsg
    (convertBytesToBitsVector buff data (length * 8)) 2 req)

/-- The result of a parser, if it succeeds. -/
def ofResult {σ : Type} (r : Bool × σ) : Option σ := if r.1 then some r.2 else none

section Calls

variable (buff data : Nat → UInt8) (length : Nat)

theorem asn1ParseUlInfoTransMsg_result (info : UlInformationTransfer) :
    (asn1ParseUlInfoTransMsg buff data length info).2
      = ofResult (ulInfoTransResult buff data length info) := by
  unfold asn1ParseUlInfoTransMsg ulInfoTransResult
  simp only
  split <;> rfl

theorem asn1ParseRrcSetupComplMsg_result (msg : RrcConnectionSetupComplete) :
    (asn1ParseRrcSetupComplMsg buff data length msg).2
      = ofResult (rrcSetupComplResult buff data length msg) := by
  unfold asn1ParseRrcSetupComplMsg rrcSetupComplResult
  simp only
  split <;> rfl

theorem asn1ParseRrcConnReqMsg_result (req : RrcConnectionRequest) :
    (asn1ParseRrcConnReqMsg buff data length req).2
      = ofResult (rrcConnReqResult buff data length req) := by
  unfold asn1ParseRrcConnReqMsg rrcConnReqResult
  simp only
  split <;> rfl

/-! ## The buffer -/

/-- Writing a message that fits to a cleared buffer and clearing it again. -/
theorem clearBits_convert {n : Nat} (hn : n ≤ liblteMaxMsgSizeBits) :
    clearBits (convertBytesToBitsVector (asn1Init buff) data n) n = asn1Init buff := by
  funext i
  unfold clearBits convertBytesToBitsVector
  by_cases hi : i < n
  · rw [if_pos hi, asn1Init, clearBits, if_pos (by omega)]
  · rw [if_neg hi, if_neg hi]

/-- A parser that writes and clears the bits of a message that fits leaves the buffer as it
was. -/
theorem Asn1Call.buffer_asn1Init (call : Asn1Call) :
    call.buffer (asn1Init buff) = asn1Init buff := by
  cases call with
  | ulInfoTrans data length info =>
      unfold Asn1Call.buffer asn1ParseUlInfoTransMsg
      simp only
      split
      · rfl
      · exact clearBits_convert buff data (by omega)
  | rrcSetupCompl data length msg =>
      unfold Asn1Call.buffer asn1ParseRrcSetupComplMsg
      simp only
      split
      · rfl
      · exact clearBits_convert buff data (by omega)
  | rrcConnReq data length req =>
      unfold Asn1Call.buffer asn1ParseRrcConnReqMsg
      simp only
      split
      · rfl
      · exact clearBits_convert buff data (by omega)

/-- **Between two calls the buffer is as `Asn1Init` left it.** -/
theorem bufferAfter_eq (calls : List Asn1Call) : bufferAfter buff calls = asn1Init buff := by
  unfold bufferAfter
  induction calls with
  | nil => rfl
  | cons call calls ih => rw [List.foldl_cons, call.buffer_asn1Init, ih]

end Calls

/-! ## The structures -/

/-- A value of two structures `x` and `x'` is the same after a call, or both are as before. -/
def Isolated {α : Type} (x x' y y' : α) : Prop := y = y' ∨ (y = x ∧ y' = x')

structure NasIsolated (x x' y y' : SimpleByteMsg) : Prop where
  nBytes : Isolated x.nBytes x'.nBytes y.nBytes y'.nBytes
  msg : ∀ i, Isolated (x.msg i) (x'.msg i) (y.msg i) (y'.msg i)

structure UlInfoIsolated (x x' y y' : UlInformationTransfer) : Prop where
  dedicatedInfo : NasIsolated x.dedicatedInfo x'.dedicatedInfo y.dedicatedInfo y'.dedicatedInfo
  dedicatedInfoType : Isolated x.dedicatedInfoType x'.dedicatedInfoType y.dedicatedInfoType
    y'.dedicatedInfoType

structure SetupIsolated (x x' y y' : RrcConnectionSetupComplete) : Prop where
  plmnId : Isolated x.plmnId x'.plmnId y.plmnId y'.plmnId
  mmegi : Isolated x.mmegi x'.mmegi y.mmegi y'.mmegi
  mmec : Isolated x.mmec x'.mmec y.mmec y'.mmec
  plmnIdPresent : Isolated x.plmnIdPresent x'.plmnIdPresent y.plmnIdPresent y'.plmnIdPresent
  dedicatedInfoNas : NasIsolated x.dedicatedInfoNas x'.dedicatedInfoNas y.dedicatedInfoNas
    y'.dedicatedInfoNas
  rrcTransactionId : Isolated x.rrcTransactionId x'.rrcTransactionId y.rrcTransactionId
    y'.rrcTransactionId
  selectedPlmnId : Isolated x.selectedPlmnId x'.selectedPlmnId y.selectedPlmnId
    y'.selectedPlmnId
  registeredMmePresent : Isolated x.registeredMmePresent x'.registeredMmePresent
    y.registeredMmePresent y'.registeredMmePresent

structure ConnReqIsolated (x x' y y' : RrcConnectionRequest) : Prop where
  mTmsi : Isolated x.mTmsi x'.mTmsi y.mTmsi y'.mTmsi
  mmec : Isolated x.mmec x'.mmec y.mmec y'.mmec
  random : Isolated x.random x'.random y.random y'.random
  ueIdType : Isolated x.ueIdType x'.ueIdType y.ueIdType y'.ueIdType
  cause : Isolated x.cause x'.cause y.cause y'.cause

section Structures

variable {α : Type}

theorem Isolated.kept (x x' : α) : Isolated x x' x x' := Or.inr ⟨rfl, rfl⟩

theorem Isolated.written (x x' y : α) : Isolated x x' y y := Or.inl rfl

theorem NasIsolated.kept (x x' : SimpleByteMsg) : NasIsolated x x' x x' :=
  ⟨.kept _ _, fun _ => .kept _ _⟩

theorem UlInfoIsolated.kept (x x' : UlInformationTransfer) : UlInfoIsolated x x' x x' :=
  ⟨.kept _ _, .kept _ _⟩

theorem SetupIsolated.kept (x x' : RrcConnectionSetupComplete) : SetupIsolated x x' x x' :=
  ⟨.kept _ _, .kept _ _, .kept _ _, .kept _ _, .kept _ _, .kept _ _, .kept _ _, .kept _ _⟩

theorem ConnReqIsolated.kept (x x' : RrcConnectionRequest) : ConnReqIsolated x x' x x' :=
  ⟨.kept _ _, .kept _ _, .kept _ _, .kept _ _, .kept _ _⟩

variable (bits : Nat → UInt8) (p : Nat) (nBits : Int)

/-- The bits left do not depend on the structure, and the payload is written or kept. -/
theorem rrcUnpackDedicatedInfoNasIe_isolated (x x' : SimpleByteMsg) :
    let r := rrcUnpackDedicatedInfoNasIe bits p x nBits
    let r' := rrcUnpackDedicatedInfoNasIe bits p x' nBits
    r.2 = r'.2 ∧ NasIsolated x x' r.1 r'.1 := by
  unfold rrcUnpackDedicatedInfoNasIe
  simp only
  split
  · exact ⟨rfl, .written _ _ _, fun i => .kept _ _⟩
  · refine ⟨rfl, .written _ _ _, fun i => ?_⟩
    simp only
    split
    · exact .written _ _ _
    · exact .kept _ _

theorem rrcUnpackUlInformationTransferMsg_isolated (x x' : UlInformationTransfer) :
    let r := rrcUnpackUlInformationTransferMsg bits p nBits x
    let r' := rrcUnpackUlInformationTransferMsg bits p nBits x'
    r.1 = r'.1 ∧ UlInfoIsolated x x' r.2 r'.2 := by
  unfold rrcUnpackUlInformationTransferMsg
  simp only
  split
  · obtain ⟨hleft, hnas⟩ := rrcUnpackDedicatedInfoNasIe_isolated bits (p + 6)
      (nBits - 1 - 2 - 1 - 2) x.dedicatedInfo x'.dedicatedInfo
    simp only [hleft, true_and]
    exact ⟨hnas, .written _ _ _⟩
  · exact ⟨rfl, .kept _ _, .written _ _ _⟩

theorem rrcUnpackRrcConnectionRequestMsg_isolated (x x' : RrcConnectionRequest) :
    ConnReqIsolated x x' (rrcUnpackRrcConnectionRequestMsg bits p x)
      (rrcUnpackRrcConnectionRequestMsg bits p x') := by
  unfold rrcUnpackRrcConnectionRequestMsg
  simp only
  split
  · exact ⟨.written _ _ _, .written _ _ _, .kept _ _, .written _ _ _, .written _ _ _⟩
  · exact ⟨.kept _ _, .kept _ _, .written _ _ _, .written _ _ _, .written _ _ _⟩

/-- The fields that the MME is not written to. -/
structure MmeKeeps (x y : RrcConnectionSetupComplete) : Prop where
  dedicatedInfoNas : y.dedicatedInfoNas = x.dedicatedInfoNas
  rrcTransactionId : y.rrcTransactionId = x.rrcTransactionId
  selectedPlmnId : y.selectedPlmnId = x.selectedPlmnId
  registeredMmePresent : y.registeredMmePresent = x.registeredMmePresent

theorem unpackMme_keeps (x : RrcConnectionSetupComplete) :
    MmeKeeps x (unpackMme bits p nBits x).1 := by
  unfold unpackMme
  simp only
  split <;> exact ⟨rfl, rfl, rfl, rfl⟩

theorem unpackMme_isolated (x x' : RrcConnectionSetupComplete) :
    let r := unpackMme bits p nBits x
    let r' := unpackMme bits p nBits x'
    r.2 = r'.2 ∧ Isolated x.plmnId x'.plmnId r.1.plmnId r'.1.plmnId ∧ r.1.mmegi = r'.1.mmegi ∧
      r.1.mmec = r'.1.mmec ∧ r.1.plmnIdPresent = r'.1.plmnIdPresent := by
  unfold unpackMme
  simp only
  split
  · exact ⟨rfl, .written _ _ _, rfl, rfl, rfl⟩
  · exact ⟨rfl, .kept _ _, rfl, rfl, rfl⟩

/-- The parts have the same verdict and write the same values, one after the other. -/
theorem rrcUnpackRrcConnectionSetupCompleteMsg_isolated (x x' : RrcConnectionSetupComplete) :
    let r := rrcUnpackRrcConnectionSetupCompleteMsg bits p nBits x
    let r' := rrcUnpackRrcConnectionSetupCompleteMsg bits p nBits x'
    r.1 = r'.1 ∧ SetupIsolated x x' r.2 r'.2 := by
  rw [rrcUnpackRrcConnectionSetupCompleteMsg_eq, rrcUnpackRrcConnectionSetupCompleteMsg_eq]
  have hpresent : (unpackSetupHead bits p x').registeredMmePresent
      = (unpackSetupHead bits p x).registeredMmePresent := rfl
  simp only [hpresent]
  split
  · have hkept := unpackMme_keeps bits (p + 10) (nBits - 2 - 1 - 2 - 2 - 3)
      (unpackSetupHead bits p x)
    have hkept' := unpackMme_keeps bits (p + 10) (nBits - 2 - 1 - 2 - 2 - 3)
      (unpackSetupHead bits p x')
    obtain ⟨hpointer, hplmn, hgi, hc, hplmnPresent⟩ := unpackMme_isolated bits (p + 10)
      (nBits - 2 - 1 - 2 - 2 - 3) (unpackSetupHead bits p x) (unpackSetupHead bits p x')
    generalize unpackMme bits (p + 10) (nBits - 2 - 1 - 2 - 2 - 3) (unpackSetupHead bits p x)
      = r at hkept hpointer hplmn hgi hc hplmnPresent ⊢
    generalize unpackMme bits (p + 10) (nBits - 2 - 1 - 2 - 2 - 3) (unpackSetupHead bits p x')
      = r' at hkept' hpointer hplmn hgi hc hplmnPresent ⊢
    have hnas := rrcUnpackDedicatedInfoNasIe_isolated bits r.2.1 r.2.2 x.dedicatedInfoNas
      x'.dedicatedInfoNas
    have hold : r.1.dedicatedInfoNas = x.dedicatedInfoNas := hkept.dedicatedInfoNas
    have hold' : r'.1.dedicatedInfoNas = x'.dedicatedInfoNas := hkept'.dedicatedInfoNas
    simp only [← hpointer, hold, hold', hnas.1, true_and]
    refine ⟨hplmn, Or.inl hgi, Or.inl hc, Or.inl hplmnPresent, hnas.2, Or.inl ?_, Or.inl ?_,
      Or.inl ?_⟩
    · exact hkept.rrcTransactionId.trans hkept'.rrcTransactionId.symm
    · exact hkept.selectedPlmnId.trans hkept'.selectedPlmnId.symm
    · exact hkept.registeredMmePresent.trans hkept'.registeredMmePresent.symm
  · obtain ⟨hleft, hnas⟩ := rrcUnpackDedicatedInfoNasIe_isolated bits (p + 10)
      (nBits - 2 - 1 - 2 - 2 - 3) x.dedicatedInfoNas x'.dedicatedInfoNas
    have hold : ∀ y, (unpackSetupHead bits p y).dedicatedInfoNas = y.dedicatedInfoNas :=
      fun _ => rfl
    simp only [hold, hleft, true_and]
    exact ⟨.kept _ _, .kept _ _, .kept _ _, .kept _ _, hnas, .written _ _ _, .written _ _ _,
      .written _ _ _⟩

end Structures

/-! ## Isolation -/

/-- The bits depend on the bytes of the message only. -/
theorem convertBytesToBitsVector_congr (buff : Nat → UInt8) {data data' : Nat → UInt8}
    {length : Nat} (h : ∀ k < length, data k = data' k) :
    convertBytesToBitsVector buff data (length * 8)
      = convertBytesToBitsVector buff data' (length * 8) := by
  funext i
  unfold convertBytesToBitsVector
  by_cases hi : i < length * 8
  · rw [if_pos hi, if_pos hi, h (i / 8) (by omega)]
  · rw [if_neg hi, if_neg hi]

/-- **Messages do not see earlier ones.** The buffer is cleared between the calls; whatever was
parsed before, a message with the same bytes has the same status, and writes the same values to
its structure. -/
theorem asn1_isolated (buff : Nat → UInt8) (calls calls' : List Asn1Call) :
    (∀ i < liblteMaxMsgSizeBits, bufferAfter buff calls i = 0) ∧
    ∀ (data data' : Nat → UInt8) (length : Nat), (∀ k < length, data k = data' k) →
      (∀ x x', let r := ulInfoTransResult (bufferAfter buff calls) data length x
        let r' := ulInfoTransResult (bufferAfter buff calls') data' length x'
        r.1 = r'.1 ∧ UlInfoIsolated x x' r.2 r'.2) ∧
      (∀ x x', let r := rrcSetupComplResult (bufferAfter buff calls) data length x
        let r' := rrcSetupComplResult (bufferAfter buff calls') data' length x'
        r.1 = r'.1 ∧ SetupIsolated x x' r.2 r'.2) ∧
      ∀ x x', let r := rrcConnReqResult (bufferAfter buff calls) data length x
        let r' := rrcConnReqResult (bufferAfter buff calls') data' length x'
        r.1 = r'.1 ∧ ConnReqIsolated x x' r.2 r'.2 := by
  rw [bufferAfter_eq, bufferAfter_eq]
  constructor
  · intro i hi
    rw [asn1Init, clearBits, if_pos hi]
  · intro data data' length h
    refine ⟨fun x x' => ?_, fun x x' => ?_, fun x x' => ?_⟩
    · unfold ulInfoTransResult
      rw [convertBytesToBitsVector_congr (asn1Init buff) h]
      split
      · exact ⟨rfl, .kept x x'⟩
      · exact rrcUnpackUlInformationTransferMsg_isolated _ 5 _ x x'
    · unfold rrcSetupComplResult
      rw [convertBytesToBitsVector_congr (asn1Init buff) h]
      split
      · exact ⟨rfl, .kept x x'⟩
      · exact rrcUnpackRrcConnectionSetupCompleteMsg_isolated _ 5 _ x x'
    · unfold rrcConnReqResult
      rw [convertBytesToBitsVector_congr (asn1Init buff) h]
      split
      · exact ⟨rfl, .kept x x'⟩
      · exact ⟨rfl, rrcUnpackRrcConnectionRequestMsg_isolated _ 2 x x'⟩

/-- A request of one byte, of which most is read behind its end, after a longer message and
as the first one. -/
theorem asn1_isolated_shortRequest :
    let r := rrcConnReqResult (bufferAfter (fun _ => 0) [.ulInfoTrans (fun _ => 0xff) 8 default])
      (fun _ => 0x4f) 1 default
    let r' := rrcConnReqResult (bufferAfter (fun _ => 0) []) (fun k => if k = 0 then 0x4f else 1)
      1 default
    r.1 = r'.1 ∧ ConnReqIsolated default default r.2 r'.2 := by
  refine ((asn1_isolated (fun _ => 0) [.ulInfoTrans (fun _ => 0xff) 8 default] []).2 _ _ 1
    fun k hk => ?_).2.2 default default
  rw [if_pos (by omega)]

end LteUlp.Rrc
