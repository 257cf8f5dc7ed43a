import LteUlp.Dpe.Datagram
import LteUlp.Worker.Report

set_option autoImplicit false

/-! # The indications between ULP and DPE

`target.c` collects establishments in a static `LteUlpDataInd` and sends it, with its fields
converted where the build says so; `UlpRecvAndHandleOamData` sends the identities of a report
pass, unconverted. The receiver reads both with the handlers of `Dpe/Datagram.lean`.

In the documented deployment ULP is little-endian and built with `ENDIAN_CONVERT`, DPE is
big-endian and built without it. `agrees_iff` says which indications arrive.
-/

namespace LteUlp.Wire

open Endian Dpe
open LteUlp.Rrc (UlReportInfoList)

/-! ## The conversion macros -/

theorem and_shiftLeft_byte (v k : Nat) : v &&& (0xff <<< k) = ((v >>> k) % 256) <<< k := by
  apply Nat.eq_of_testBit_eq
  intro i
  have hff : (0xff : Nat) = 2 ^ 8 - 1 := rfl
  rw [Nat.testBit_and, Nat.testBit_shiftLeft, Nat.testBit_shiftLeft, hff,
    show (256 : Nat) = 2 ^ 8 from rfl, Nat.testBit_two_pow_sub_one, Nat.testBit_mod_two_pow,
    Nat.testBit_shiftRight]
  by_cases hk : k ≤ i
  · rw [Nat.add_sub_cancel' hk]
    cases v.testBit i <;> simp [hk]
  · simp [hk]

/-- **`CONVERT_INT16_ENDIAN` exchanges the bytes.** -/
theorem convertInt16Endian_true (v : Nat) : convertInt16Endian true v = swapBytes 2 v := by
  have h0 := and_shiftLeft_byte v 0
  have h8 := and_shiftLeft_byte v 8
  simp only [Nat.shiftLeft_zero, Nat.shiftRight_zero] at h0
  have hff : (0xff00 : Nat) = 0xff <<< 8 := rfl
  have hlt : v >>> 8 % 256 < 2 ^ 8 := Nat.mod_lt _ (by decide)
  rw [convertInt16Endian, if_pos rfl, h0, hff, h8, Nat.shiftLeft_shiftRight,
    shiftLeft_or _ hlt, Nat.shiftRight_eq_div_pow]
  simp only [swapBytes, lowBytes, ofLowBytes, List.reverse_cons, List.reverse_nil,
    List.nil_append, List.cons_append, UInt8.toNat_ofNat']
  omega

/-- A byte placed above the bits of `x`. -/
theorem or_shiftLeft {x i : Nat} (hx : x < 2 ^ i) (y : Nat) :
    x ||| (y <<< i) = y * 2 ^ i + x := by
  rw [Nat.or_comm, shiftLeft_or y hx]

/-- **`CONVERT_INT32_ENDIAN` exchanges the bytes.** -/
theorem convertInt32Endian_true (v : Nat) : convertInt32Endian true v = swapBytes 4 v := by
  have h0 := and_shiftLeft_byte v 0
  have h8 := and_shiftLeft_byte v 8
  have h16 := and_shiftLeft_byte v 16
  have h24 := and_shiftLeft_byte v 24
  simp only [Nat.shiftLeft_zero, Nat.shiftRight_zero] at h0
  have hff8 : (0x0000ff00 : Nat) = 0xff <<< 8 := rfl
  have hff16 : (0x00ff0000 : Nat) = 0xff <<< 16 := rfl
  have hff24 : (0xff000000 : Nat) = 0xff <<< 24 := rfl
  have hdown : ∀ x : Nat, x <<< 16 >>> 8 = x <<< 8 := fun x => by
    rw [show 16 = 8 + 8 from rfl, Nat.shiftLeft_add, Nat.shiftLeft_shiftRight]
  have hup : ∀ x : Nat, x <<< 8 <<< 8 = x <<< 16 := fun x => (Nat.shiftLeft_add x 8 8).symm
  have hd1 : v >>> 8 % 256 < 256 := Nat.mod_lt _ (by decide)
  have hd2 : v >>> 16 % 256 < 256 := Nat.mod_lt _ (by decide)
  have hd3 : v >>> 24 % 256 < 256 := Nat.mod_lt _ (by decide)
  rw [convertInt32Endian, if_pos rfl, h0, hff8, h8, hff16, h16, hff24, h24,
    Nat.shiftLeft_shiftRight, hdown, hup, or_shiftLeft (i := 8) (by omega),
    or_shiftLeft (i := 16) (by omega), or_shiftLeft (i := 24) (by omega)]
  simp only [swapBytes, lowBytes, ofLowBytes, List.reverse_cons, List.reverse_nil,
    List.nil_append, List.cons_append, UInt8.toNat_ofNat', Nat.div_div_eq_div_mul,
    Nat.reduceMul]
  rw [show v >>> 8 = v / 256 from Nat.shiftRight_eq_div_pow v 8,
    show v >>> 16 = v / 65536 from Nat.shiftRight_eq_div_pow v 16,
    show v >>> 24 = v / 16777216 from Nat.shiftRight_eq_div_pow v 24]
  omega

/-! ## Datagrams -/

/-- A `LteUlpDataInd` in memory: its three numbers, an array of 32 entries of `size` bytes,
and whatever follows it. -/
def layout (order : ByteOrder) (msgType length count size : Nat) (entry : Nat → List UInt8)
    (behind : Nat → UInt8) : Nat → UInt8 := fun k =>
  if k < arrayOffset then
    (store order 2 msgType ++ store order 2 length ++ store order 4 count).getD k 0
  else if k < arrayOffset + size * Dpe.maxNumUeInfoReport then
    (entry ((k - arrayOffset) / size)).getD ((k - arrayOffset) % size) 0
  else behind k

/-- What `SocketUdpSend` is given: the first `length` bytes of a memory. -/
structure Datagram where
  length : Nat
  mem : Nat → UInt8

/-- `MAX_UDP_RECV_BUFFER_LENGTH`, `sizeof(LteUlpDataInd) + 4`. -/
def maxUdpRecvBufferLength : Nat := 908

/-- What `SocketUdpRecv` returns. -/
def Datagram.byteRecvd (d : Datagram) : Nat := min d.length maxUdpRecvBufferLength

/-- The receive buffer after it. Behind what was received it keeps its contents. -/
def Datagram.received (d : Datagram) (old : Nat → UInt8) : Nat → UInt8 := fun k =>
  if k < d.byteRecvd then d.mem k else old k

theorem bytesAt_received {d : Datagram} {old : Nat → UInt8} {off w : Nat}
    (h : off + w ≤ d.byteRecvd) : bytesAt (d.received old) off w = bytesAt d.mem off w := by
  refine List.map_congr_left fun k hk => ?_
  rw [List.mem_range] at hk
  exact if_pos (by omega)

/-- A field, read from memory that holds the list `a ++ b ++ c` at `base`. -/
theorem bytesAt_slice (mem : Nat → UInt8) (base : Nat) (a b c : List UInt8)
    (h : ∀ k < (a ++ b ++ c).length, mem (base + k) = (a ++ b ++ c).getD k 0) :
    bytesAt mem (base + a.length) b.length = b := by
  refine List.ext_getElem (by simp [bytesAt]) fun k hk hk' => ?_
  have hlt : a.length + k < (a ++ b ++ c).length := by
    simp only [List.length_append]
    omega
  have hmem := h (a.length + k) hlt
  rw [← Nat.add_assoc] at hmem
  simp only [bytesAt, List.getElem_map, List.getElem_range]
  rw [hmem, List.getD_eq_getElem _ _ hlt, List.getElem_append_left (by simp; omega),
    List.getElem_append_right (by omega)]
  simp

section

variable {order : ByteOrder} {msgType length count size : Nat} {entry : Nat → List UInt8}
  {behind : Nat → UInt8}

theorem layout_head {k : Nat} (hk : k < 8) :
    layout order msgType length count size entry behind (0 + k) =
      (store order 2 msgType ++ store order 2 length ++ store order 4 count).getD k 0 := by
  rw [Nat.zero_add]
  exact if_pos hk

theorem layout_msgType :
    bytesAt (layout order msgType length count size entry behind) 0 2
      = store order 2 msgType := by
  have h := bytesAt_slice (layout order msgType length count size entry behind) 0 []
    (store order 2 msgType) (store order 2 length ++ store order 4 count) fun k hk => by
      rw [layout_head (by simpa using hk), List.nil_append, List.append_assoc]
  simpa using h

theorem layout_count :
    bytesAt (layout order msgType length count size entry behind) 4 4
      = store order 4 count := by
  have h := bytesAt_slice (layout order msgType length count size entry behind) 0
    (store order 2 msgType ++ store order 2 length) (store order 4 count) [] fun k hk => by
      rw [layout_head (by simpa using hk), List.append_nil]
  simpa using h

/-- The entries of the array. -/
theorem layout_entry {i : Nat} (hi : i < Dpe.maxNumUeInfoReport)
    (hlen : (entry i).length = size) {k : Nat} (hk : k < (entry i).length) :
    layout order msgType length count size entry behind (arrayOffset + size * i + k)
      = (entry i).getD k 0 := by
  rw [hlen] at hk
  have hlt : size * i + k < size * Dpe.maxNumUeInfoReport := by
    have hmul : size * i + size ≤ size * Dpe.maxNumUeInfoReport := by
      rw [← Nat.mul_succ]
      exact Nat.mul_le_mul_left size hi
    omega
  have hoff : arrayOffset + size * i + k - arrayOffset = size * i + k := by omega
  have hdiv : (size * i + k) / size = i := by
    rw [Nat.mul_add_div (by omega), Nat.div_eq_of_lt hk, Nat.add_zero]
  have hmod : (size * i + k) % size = k := by
    rw [Nat.mul_add_mod, Nat.mod_eq_of_lt hk]
  rw [layout, if_neg (by omega), if_pos (by omega), hoff, hdiv, hmod]

end

/-! ## `target.c` -/

/-- The static `gUeEstablishDataInd`. Its fields are bit patterns, as they stand in memory;
`written` is what the entries were made from: RNTI, power and timing advance. -/
structure TargetState where
  msgType : Nat
  length : Nat
  count : Nat
  prbPower : Nat → Nat
  rnti : Nat → Nat
  ta : Nat → Nat
  written : List (UInt16 × Int × Int)

/-- The bits of a signed field of `w` bytes. -/
def bits (w : Nat) (x : Int) : Nat := (x % 256 ^ w).toNat

/-- `LTE_ULP_DATA_IND_HEAD_LEHGTH + LTE_UE_ESTAB_IND_MSG_HEAD_LEHGTH`. -/
def establishHeadLength : Nat := 8

/-- `ueEstabInfoArray[i]`. The timestamp is never written. -/
def TargetState.entry (order : ByteOrder) (t : TargetState) (i : Nat) : List UInt8 :=
  store order 8 0 ++ store order 4 (t.prbPower i) ++ store order 2 (t.rnti i) ++
    store order 2 (t.ta i)

end LteUlp.Wire

namespace LteUlp.Target

open Endian Dpe Wire
open LteUlp.Rrc (UlReportInfoList)

/-! ### The functions, in both builds -/

/-- `TgtInit`. -/
def tgtInit (endianConvert : Bool) : TargetState where
  msgType := convertInt16Endian endianConvert msgUlpUeEstablishInd
  length := establishHeadLength
  count := 0
  prbPower _ := 0
  rnti _ := 0
  ta _ := 0
  written := []

/-- `TgtProcessUeEstablishInfo`. -/
def tgtProcessUeEstablishInfo (endianConvert : Bool) (t : TargetState) (rnti : UInt16)
    (pUlRptInfoList : Option UlReportInfoList) : TargetState :=
  match pUlRptInfoList with
  | none => t
  | some list =>
      if list.count = 0 then t
      else if t.count ≥ maxNumUeInfoReport then t
      else
        -- the values of the last RLC segment
        let info := list.ulRptInfo (list.count - 1)
        { t with
          count := t.count + 1
          length := (t.length + ueEstablishInfoSize) % 2 ^ 16
          rnti := Function.update t.rnti t.count (convertInt16Endian endianConvert rnti.toNat)
          prbPower := Function.update t.prbPower t.count
            (convertInt32Endian endianConvert (bits 4 info.prbPower))
          ta := Function.update t.ta t.count
            (convertInt16Endian endianConvert (bits 2 info.ta))
          written := t.written ++ [(rnti, i32 info.prbPower, i16 info.ta)] }

/-- `TgtSendUeEstablishInd`: the state after it, and the bytes that `SocketUdpSend` is given.
`hasAddr` says that `pRemoteAddr` is not null. -/
def tgtSendUeEstablishInd (endianConvert : Bool) (order : ByteOrder) (t : TargetState)
    (socketFd : Int) (hasAddr : Bool) (behind : Nat → UInt8) : TargetState × Option Datagram :=
  if socketFd = -1 ∨ hasAddr = false then (t, none)
  else if t.count > 0 then
    let count := convertInt32Endian endianConvert t.count
    let length := convertInt16Endian endianConvert t.length
    ({ t with length := establishHeadLength, count := 0, written := [] },
      some ⟨length, layout order t.msgType length count ueEstablishInfoSize (t.entry order)
        behind⟩)
  else (t, none)

end LteUlp.Target

namespace LteUlp.Wire

open Endian Dpe
open LteUlp.Rrc (UlReportInfoList)

/-! ### The build with `ENDIAN_CONVERT` -/

def tgtInit : TargetState := Target.tgtInit true

def tgtProcessUeEstablishInfo (t : TargetState) (rnti : UInt16)
    (pUlRptInfoList : Option UlReportInfoList) : TargetState :=
  Target.tgtProcessUeEstablishInfo true t rnti pUlRptInfoList

/-- `TgtSendUeEstablishInd` with a valid socket and address. The number of bytes to send is the
converted length, so the datagram goes on behind the structure, into the memory `behind`. -/
def tgtSendUeEstablishInd (order : ByteOrder) (t : TargetState) (behind : Nat → UInt8) :
    TargetState × Option Datagram :=
  Target.tgtSendUeEstablishInd true order t 0 true behind

/-- The states of `gUeEstablishDataInd` in a run of calls, in any order. -/
inductive TargetRun (order : ByteOrder) : TargetState → Prop
  | init : TargetRun order tgtInit
  | process {t : TargetState} (rnti : UInt16) (list : Option UlReportInfoList) :
      TargetRun order t → TargetRun order (tgtProcessUeEstablishInfo t rnti list)
  | send {t : TargetState} (behind : Nat → UInt8) :
      TargetRun order t → TargetRun order (tgtSendUeEstablishInd order t behind).1

/-! ## The identity indication -/

/-- A presence flag in memory. -/
def flagByte (b : Bool) : UInt8 := if b then 1 else 0

/-- A `UeIdentity` in memory. In the entry for an RRC context `spare` is cleared, with the
context that it is copied from; in that for a MAC context it is not written. -/
def identityBytes (order : ByteOrder) (id : Rrc.UeIdentity) (spare : Nat → UInt8) : List UInt8 :=
  store order 2 id.rnti.toNat ++ [flagByte id.imsiPresent, flagByte id.mTmsiPresent] ++
    [id.msgType, spare 0, spare 1, spare 2] ++ store order 4 id.mTmsi.toNat ++ id.imsi

/-- The datagram that `UlpRecvAndHandleOamData` sends to DPE, for the entries of a report
pass. Its buffer is on the stack. -/
def identityInd (order : ByteOrder) (entries : List Rrc.UeIdentity)
    (spare : Nat → Nat → UInt8) (behind : Nat → UInt8) : Datagram where
  length := arrayOffset + ueIdentitySize * entries.length
  mem := layout order msgUlpUeIdentityInd (arrayOffset + ueIdentitySize * entries.length)
    entries.length ueIdentitySize
    (fun i => ((entries[i]?).map fun id => identityBytes order id (spare i)).getD []) behind

/-! ## Agreement -/

/-- What ULP sends to DPE, with what it was made from. -/
inductive Indication
  | ueEstablish (written : List (UInt16 × Int × Int)) (d : Datagram)
  | ueIdentity (entries : List Rrc.UeIdentity) (d : Datagram)

/-- The indications that ULP sends, in any run of `target.c` and in any report pass. -/
inductive Sent (order : ByteOrder) : Indication → Prop
  | ueEstablish {t : TargetState} {behind : Nat → UInt8} {d : Datagram} :
      TargetRun order t → (tgtSendUeEstablishInd order t behind).2 = some d →
      Sent order (.ueEstablish t.written d)
  | ueIdentity (cfg : Worker.ReportConfig) (s : Mac.MacState Nat) (spare : Nat → Nat → UInt8)
      (behind : Nat → UInt8) :
      (Worker.reportPass cfg s).2 ≠ [] →
      Sent order (.ueIdentity (Worker.reportPass cfg s).2
        (identityInd order (Worker.reportPass cfg s).2 spare behind))

/-- DPE, whatever its buffer held before, recognises the message and reads its count and the
fields of its entries as ULP wrote them. -/
def Indication.Agrees (cfg : DpEngineConfig) (order : ByteOrder) : Indication → Prop
  | .ueEstablish written d => ∀ (old : Nat → UInt8) (clock : Int),
      d.byteRecvd ≥ dataIndHeadLength ∧
      convertInt16Endian cfg.endianConvert (msgTypeAt order (d.received old))
        = msgUlpUeEstablishInd ∧
      convertInt32Endian cfg.endianConvert (countAt order (d.received old)) = written.length ∧
      ∀ (i : Nat) (hi : i < written.length),
        let e := receiveEntry cfg clock (establishAt order (d.received old) i)
        e.rnti = (written[i]).1.toNat ∧ e.prbPower = (written[i]).2.1 ∧
          e.ta = (written[i]).2.2
  | .ueIdentity entries d => ∀ old : Nat → UInt8,
      d.byteRecvd ≥ dataIndHeadLength ∧
      convertInt16Endian cfg.endianConvert (msgTypeAt order (d.received old))
        = msgUlpUeIdentityInd ∧
      countAt order (d.received old) = entries.length ∧
      ∀ (i : Nat) (hi : i < entries.length),
        let id := identityAt order (d.received old) i
        id.rnti = (entries[i]).rnti.toNat ∧
          id.imsiPresent = flagByte (entries[i]).imsiPresent ∧
          id.mTmsiPresent = flagByte (entries[i]).mTmsiPresent ∧ id.imsi = (entries[i]).imsi

/-- The message is an establishment indication. -/
def Indication.IsEstablish : Indication → Prop
  | .ueEstablish _ _ => True
  | .ueIdentity _ _ => False

/-! ### The establishment indication arrives -/

theorem bits_cast (w : Nat) (x : Int) : ((bits w x : Nat) : Int) = x % 256 ^ w := by
  rw [bits, Int.toNat_of_nonneg (Int.emod_nonneg _ (by positivity))]

theorem bits_lt (w : Nat) (x : Int) : bits w x < 256 ^ w := by
  have h : x % 256 ^ w < 256 ^ w := Int.emod_lt_of_pos _ (by positivity)
  have := bits_cast w x
  zify
  omega

/-- The bits of an `int`, as an `int`. -/
theorem i32_bits (x : Int) : i32 (bits 4 x) = i32 x := by
  rw [bits_cast]
  exact Int.emod_bmod x (2 ^ 32)

theorem i16_bits (x : Int) : i16 (bits 2 x) = i16 x := by
  rw [bits_cast]
  exact Int.emod_bmod x (2 ^ 16)

theorem bits_i32 (x : Int) : bits 4 (i32 x) = bits 4 x := by
  have h : i32 x % 256 ^ 4 = x % 256 ^ 4 := Int.bmod_emod (x := x) (m := 2 ^ 32)
  rw [bits, bits, h]

theorem bits_i16 (x : Int) : bits 2 (i16 x) = bits 2 x := by
  have h : i16 x % 256 ^ 2 = x % 256 ^ 2 := Int.bmod_emod (x := x) (m := 2 ^ 16)
  rw [bits, bits, h]

theorem i32_i32 (x : Int) : i32 (i32 x) = i32 x := Int.bmod_bmod

theorem i16_i16 (x : Int) : i16 (i16 x) = i16 x := Int.bmod_bmod

/-- What the structure holds while it is filled. -/
structure Filled (t : TargetState) : Prop where
  msgType : t.msgType = convertInt16Endian true msgUlpUeEstablishInd
  count : t.count = t.written.length
  bound : t.count ≤ Dpe.maxNumUeInfoReport
  length : t.length = establishHeadLength + ueEstablishInfoSize * t.count
  entry : ∀ i w, t.written[i]? = some w →
    t.rnti i = convertInt16Endian true w.1.toNat ∧
      t.prbPower i = convertInt32Endian true (bits 4 w.2.1) ∧
      t.ta i = convertInt16Endian true (bits 2 w.2.2) ∧ i32 w.2.1 = w.2.1 ∧ i16 w.2.2 = w.2.2

theorem filled_init : Filled tgtInit :=
  ⟨rfl, rfl, Nat.zero_le _, rfl, by simp [tgtInit, Target.tgtInit]⟩

theorem Filled.process {t : TargetState} (h : Filled t) (rnti : UInt16)
    (list : Option UlReportInfoList) : Filled (tgtProcessUeEstablishInfo t rnti list) := by
  cases list with
  | none => exact h
  | some list =>
      simp only [tgtProcessUeEstablishInfo, Target.tgtProcessUeEstablishInfo]
      split_ifs with hempty hfull
      · exact h
      · exact h
      · have hcount := h.count
        have hmax : Dpe.maxNumUeInfoReport = 32 := rfl
        refine ⟨h.msgType, by simp [hcount], Nat.not_le.mp hfull, ?_, fun i w hw => ?_⟩
        · have hlen := h.length
          simp only [establishHeadLength, ueEstablishInfoSize] at hlen ⊢
          omega
        · rw [List.getElem?_append] at hw
          by_cases hi : i < t.written.length
          · rw [if_pos hi] at hw
            have hne : i ≠ t.count := by omega
            simp only [Function.update_of_ne hne]
            exact h.entry i w hw
          · rw [if_neg hi] at hw
            obtain ⟨hi', rfl⟩ : i - t.written.length = 0 ∧ _ = w := by
              rw [List.getElem?_singleton] at hw
              split_ifs at hw with hz
              exact ⟨hz, Option.some.inj hw⟩
            obtain rfl : i = t.count := by omega
            simp only [Function.update_self, bits_i32, bits_i16, i32_i32, i16_i16, and_self]

theorem Filled.send {t : TargetState} (h : Filled t) (order : ByteOrder)
    (behind : Nat → UInt8) : Filled (tgtSendUeEstablishInd order t behind).1 := by
  rw [tgtSendUeEstablishInd, Target.tgtSendUeEstablishInd, if_neg (by decide)]
  split_ifs
  · exact ⟨h.msgType, rfl, Nat.zero_le _, rfl, by simp⟩
  · exact h

/-- **Every run fills the structure correctly**, by induction on the run. -/
theorem TargetRun.filled {order : ByteOrder} {t : TargetState} (h : TargetRun order t) :
    Filled t := by
  induction h with
  | init => exact filled_init
  | process rnti list _ ih => exact ih.process rnti list
  | send behind _ ih => exact ih.send order behind

/-- Reading a field in one byte order that was converted and stored in the other one. -/
theorem fieldAt_converted {o o' : ByteOrder} (hne : o ≠ o') {mem : Nat → UInt8} {off w n : Nat}
    (hmem : bytesAt mem off w = store o w (swapBytes w n)) (hn : n < 256 ^ w) :
    fieldAt o' mem off w = n := by
  rw [fieldAt, hmem, load_store_swapBytes hne, Nat.mod_eq_of_lt hn]

/-- The byte-exchanged length sends the whole structure, and more. -/
theorem byteRecvd_establish {t : TargetState} (h : Filled t) (mem : Nat → UInt8) :
    (Datagram.mk (convertInt16Endian true t.length) mem).byteRecvd = maxUdpRecvBufferLength := by
  have hb := h.bound
  have hlen := h.length
  have hmax : Dpe.maxNumUeInfoReport = 32 := rfl
  simp only [establishHeadLength, ueEstablishInfoSize] at hlen
  have hswap : swapBytes 2 t.length = t.length / 256 % 256 + 256 * (t.length % 256) := by
    simp only [swapBytes, lowBytes, ofLowBytes, List.reverse_cons, List.reverse_nil,
      List.nil_append, List.cons_append, UInt8.toNat_ofNat']
    omega
  rw [Datagram.byteRecvd, convertInt16Endian_true, hswap]
  simp only [maxUdpRecvBufferLength]
  omega

/-- The fields of an entry, as the other byte order reads them. -/
theorem establishAt_layout {t : TargetState} (h : Filled t) {mem : Nat → UInt8} {i : Nat}
    {w : UInt16 × Int × Int} (hw : t.written[i]? = some w)
    (hmem : ∀ k < (t.entry .little i).length,
      mem (arrayOffset + ueEstablishInfoSize * i + k) = (t.entry .little i).getD k 0) :
    let e := establishAt .big mem i
    e.rnti = w.1.toNat ∧ e.prbPower = w.2.1 ∧ e.ta = w.2.2 := by
  obtain ⟨hrnti, hpower, hta, hp32, ht16⟩ := h.entry i w hw
  have hne : ByteOrder.little ≠ ByteOrder.big := by decide
  rw [convertInt16Endian_true] at hrnti hta
  rw [convertInt32Endian_true] at hpower
  set base := arrayOffset + ueEstablishInfoSize * i with hbase
  set a := store .little 8 0 with ha
  set b := store .little 4 (t.prbPower i) with hb
  set c := store .little 2 (t.rnti i) with hc
  set d := store .little 2 (t.ta i) with hd
  have hentry : t.entry .little i = a ++ b ++ c ++ d := rfl
  rw [hentry] at hmem
  have hpower' : fieldAt .big mem (base + 8) 4 = bits 4 w.2.1 := by
    refine fieldAt_converted hne ?_ (bits_lt 4 _)
    rw [← hpower]
    have := bytesAt_slice mem base a b (c ++ d) (by simpa only [List.append_assoc] using hmem)
    simpa [ha, hb] using this
  have hrnti' : fieldAt .big mem (base + 12) 2 = w.1.toNat := by
    refine fieldAt_converted hne ?_ w.1.toNat_lt
    rw [← hrnti]
    have := bytesAt_slice mem base (a ++ b) c d (by simpa only [List.append_assoc] using hmem)
    simpa [ha, hb, hc] using this
  have hta' : fieldAt .big mem (base + 14) 2 = bits 2 w.2.2 := by
    refine fieldAt_converted hne ?_ (bits_lt 2 _)
    rw [← hta]
    have := bytesAt_slice mem base (a ++ b ++ c) d []
      (by simpa only [List.append_assoc, List.append_nil] using hmem)
    simpa [ha, hb, hc, hd] using this
  refine ⟨hrnti', ?_, ?_⟩
  · simp only [establishAt]
    rw [hpower', i32_bits, hp32]
  · simp only [establishAt]
    rw [hta', i16_bits, ht16]

/-- Without a conversion on the side of DPE, an entry is used as it is read. -/
theorem receiveEntry_unconverted {cfg : DpEngineConfig} (hcfg : cfg.endianConvert = false)
    (clock : Int) (e : UeEstablishInfo) (h32 : i32 e.prbPower = e.prbPower)
    (h16 : i16 e.ta = e.ta) : receiveEntry cfg clock e = { e with timestamp := clock } := by
  have hp : i32 ((u32 e.prbPower).toNat : Int) = e.prbPower := (i32_bits e.prbPower).trans h32
  have ht : i16 ((e.ta % 2 ^ 16).toNat : Int) = e.ta := (i16_bits e.ta).trans h16
  simp only [receiveEntry, hcfg, convertInt32Endian, convertInt16Endian, Bool.false_eq_true,
    if_false, hp, ht]

/-- **Every establishment indication arrives.** -/
theorem ueEstablish_agrees {cfg : DpEngineConfig} (hcfg : cfg.endianConvert = false)
    {t : TargetState} (ht : TargetRun .little t) {behind : Nat → UInt8} {d : Datagram}
    (hd : (tgtSendUeEstablishInd .little t behind).2 = some d) :
    (Indication.ueEstablish t.written d).Agrees cfg .big := by
  have h := ht.filled
  have hmax : Dpe.maxNumUeInfoReport = 32 := rfl
  have hcount := h.count
  have hbound := h.bound
  have hne : ByteOrder.little ≠ ByteOrder.big := by decide
  have hrecv : d.byteRecvd = maxUdpRecvBufferLength ∧ d.mem = layout .little t.msgType
      (convertInt16Endian true t.length) (convertInt32Endian true t.count) ueEstablishInfoSize
      (t.entry .little) behind := by
    rw [tgtSendUeEstablishInd, Target.tgtSendUeEstablishInd, if_neg (by decide)] at hd
    split_ifs at hd
    obtain rfl := Option.some.inj hd
    exact ⟨byteRecvd_establish h _, rfl⟩
  obtain ⟨hlen, hmem⟩ := hrecv
  have hlen' : d.byteRecvd = 908 := hlen
  intro old clock
  refine ⟨by rw [hlen']; decide, ?_, ?_, fun i hi => ?_⟩
  · rw [hcfg]
    refine fieldAt_converted hne ?_ (by decide)
    rw [bytesAt_received (by omega), hmem, layout_msgType, h.msgType, convertInt16Endian_true]
  · rw [hcfg, ← hcount]
    refine fieldAt_converted hne ?_ (by omega)
    rw [bytesAt_received (by omega), hmem, layout_count, convertInt32Endian_true]
  · have hlen16 : (t.entry .little i).length = ueEstablishInfoSize := by
      simp [TargetState.entry, ueEstablishInfoSize]
    have hread : ∀ k < (t.entry .little i).length,
        d.received old (arrayOffset + ueEstablishInfoSize * i + k)
          = (t.entry .little i).getD k 0 := by
      intro k hk
      have hin : arrayOffset + ueEstablishInfoSize * i + k < d.byteRecvd := by
        rw [hlen16] at hk
        simp only [arrayOffset, ueEstablishInfoSize] at hk ⊢
        omega
      rw [Datagram.received, if_pos hin, hmem]
      exact layout_entry (by omega) hlen16 hk
    have hfields := establishAt_layout h (List.getElem?_eq_getElem hi) hread
    obtain ⟨-, -, -, h32, h16⟩ := h.entry i _ (List.getElem?_eq_getElem hi)
    generalize establishAt .big (d.received old) i = e at hfields ⊢
    obtain ⟨hrnti, hpower, hta⟩ := hfields
    rw [receiveEntry_unconverted hcfg clock _ (by rw [hpower, h32]) (by rw [hta, h16])]
    exact ⟨hrnti, hpower, hta⟩

/-! ### The identity indication does not -/

/-- `MSG_ULP_UE_IDENTITY_IND` is sent as it is, so DPE reads `0x8200`. -/
theorem ueIdentity_not_agrees {cfg : DpEngineConfig} (hcfg : cfg.endianConvert = false)
    (entries : List Rrc.UeIdentity) (spare : Nat → Nat → UInt8) (behind : Nat → UInt8) :
    ¬ (Indication.ueIdentity entries (identityInd .little entries spare behind)).Agrees cfg .big := by
  intro h
  obtain ⟨-, htype, -⟩ := h fun _ => 0
  have hlen : 0 + 2 ≤ (identityInd .little entries spare behind).byteRecvd := by
    simp only [identityInd, Datagram.byteRecvd, arrayOffset, maxUdpRecvBufferLength]
    omega
  have hread : msgTypeAt .big ((identityInd .little entries spare behind).received fun _ => 0)
      = 0x8200 := by
    rw [msgTypeAt, fieldAt, bytesAt_received hlen]
    rw [identityInd, layout_msgType]
    decide +kernel
  rw [hcfg, hread] at htype
  revert htype
  decide

/-- **Which indications arrive at DPE.** For a little-endian ULP built with `ENDIAN_CONVERT`
and a big-endian DPE built without it. -/
theorem agrees_iff {cfg : DpEngineConfig} (hcfg : cfg.endianConvert = false) {m : Indication}
    (h : Sent .little m) : m.Agrees cfg .big ↔ m.IsEstablish := by
  cases h with
  | ueEstablish ht hd => exact iff_of_true (ueEstablish_agrees hcfg ht hd) trivial
  | ueIdentity rcfg s spare behind hne =>
      exact iff_of_false (ueIdentity_not_agrees hcfg _ spare behind) id

/-- One establishment, collected and sent. -/
theorem agrees_iff_one_establishment : ∃ t d, t.written = [(0x3d, -75, 12)] ∧
    (tgtSendUeEstablishInd .little t fun _ => 0).2 = some d ∧
    ((Indication.ueEstablish t.written d).Agrees ⟨20000, 1200, false⟩ .big ↔
      (Indication.ueEstablish t.written d).IsEstablish) := by
  have hrun : TargetRun .little tgtInit := .init
  have hrun1 := hrun.process 0x3d (some ⟨1, fun _ => ⟨4, 12, -75⟩⟩)
  exact ⟨_, _, rfl, rfl, agrees_iff rfl (.ueEstablish hrun1 rfl)⟩

/-- The identity indication for one idle MAC context is not recognised. -/
theorem not_agrees_idle_context : ∃ m, Sent .little m ∧ ¬ m.Agrees ⟨20000, 1200, false⟩ .big := by
  let s : Mac.MacState Nat :=
    { toRrcState := Rrc.freshState, macUeContext := fun _ => default, gMacUeContext := [1] }
  have hne : (Worker.reportPass ⟨200, 0, fun _ => default⟩ s).2 ≠ [] := by decide
  exact ⟨_, .ueIdentity ⟨200, 0, fun _ => default⟩ s (fun _ _ => 0) (fun _ => 0) hne,
    ueIdentity_not_agrees rfl _ _ _⟩

end LteUlp.Wire
