import LteUlp.Basic.Elements
import LteUlp.Nas.Attach
import LteUlp.Nas.Identity

set_option autoImplicit false

/-! # The elements of an attach request

The optional elements as a UE encodes them. A `Format` is the encoding of one element next to
what the code does with it: its unpacker, and where the pointer is behind it. A format is
sound if the code reads what was encoded. Three are not: the old P-TMSI signature has three
octets and is read as four, classmark 3 is not skipped, and a codec is taken for four octets
though its bitmap has a length of its own.
-/

namespace LteUlp.Nas

open ByteString Endian

/-! ## Tags -/

/-- The tag in the first octet of an element: the upper half alone if it has the highest
bit. -/
def tagOf (b : UInt8) : UInt8 := if b &&& 0x80 = 0 then b else b &&& 0xF0

/-- The upper half has the highest bit of the octet. -/
theorem and_F0_and_80 (b : UInt8) : b &&& 0xF0 &&& 0x80 = b &&& 0x80 := by
  rw [UInt8.and_assoc]
  rfl

theorem tagOf_eq_octet {t : UInt8} (ht : t &&& 0x80 = 0) (b : UInt8) : tagOf b = t ↔ b = t := by
  unfold tagOf
  split
  · rfl
  · rename_i hb
    constructor
    · intro h
      rw [← h, and_F0_and_80] at ht
      exact absurd ht hb
    · intro h
      rw [h] at hb
      exact absurd ht hb

theorem tagOf_eq_half {t : UInt8} (ht : t &&& 0x80 ≠ 0) (b : UInt8) :
    tagOf b = t ↔ b &&& 0xF0 = t := by
  unfold tagOf
  split
  · rename_i hb
    constructor
    · intro h
      rw [h] at hb
      exact absurd hb ht
    · intro h
      rw [← h, and_F0_and_80] at ht
      exact absurd hb ht
  · rfl

/-! ## Formats -/

/-- An element with contents `α` from which the code takes a `β`. -/
structure Format (α β : Type) where
  tag : UInt8
  encode : α → List UInt8
  read : (Nat → UInt8) → Nat → β
  next : (Nat → UInt8) → Nat → Nat
  Is : α → β → Prop

/-- The flag of an element says whether it was encoded, and its value is then the encoded
one. -/
def Found {α β : Type} (Is : α → β → Prop) (c : Option α) (present : Bool) (value : β) : Prop :=
  present = c.isSome ∧ ∀ a ∈ c, Is a value

namespace Format

variable {α β : Type} (f : Format α β)

def element (c : Option α) : Element UInt8 where
  tag := f.tag
  octets := c.map f.encode
  next := f.next
  Right := fun m p => ∀ a ∈ c, f.Is a (f.read m p)

/-- What the code finds at the place of the element. -/
def found (m : Nat → UInt8) (p : Nat) : Option β :=
  if tagOf (m p) = f.tag then some (f.read m p) else none

/-- Where the code goes on after the place of the element. -/
def after (m : Nat → UInt8) (p : Nat) : Nat := if tagOf (m p) = f.tag then f.next m p else p

/-- The encoding begins with the tag. -/
def Tagged : Prop := ∀ a, ∃ b rest, f.encode a = b :: rest ∧ tagOf b = f.tag

/-- The code reads what was encoded. -/
structure Sound : Prop where
  tagged : f.Tagged
  read : ∀ a m p, Reads m p (f.encode a) →
    f.Is a (f.read m p) ∧ f.next m p = p + (f.encode a).length

variable {f}

theorem Tagged.element (h : f.Tagged) (c : Option α) : (f.element c).Tagged tagOf := by
  intro l hl
  obtain ⟨a, rfl, rfl⟩ := Option.map_eq_some_iff.mp hl
  exact h a

/-- An element with these contents is sound if the code reads them. -/
theorem Sound.element_of {c : Option α} (ht : f.Tagged) (h : ∀ a ∈ c, ∀ m p,
    Reads m p (f.encode a) → f.Is a (f.read m p) ∧ f.next m p = p + (f.encode a).length) :
    (f.element c).Sound tagOf := by
  refine ⟨ht.element c, fun l hl m p hr => ?_, fun l hl m p hr => ?_⟩
  · obtain ⟨a, ha, rfl⟩ := Option.map_eq_some_iff.mp hl
    intro a' ha'
    obtain rfl := Option.some.inj (ha.symm.trans ha')
    exact (h a ha m p hr).1
  · obtain ⟨a, ha, rfl⟩ := Option.map_eq_some_iff.mp hl
    exact (h a ha m p hr).2

theorem Sound.element (h : f.Sound) (c : Option α) : (f.element c).Sound tagOf :=
  Sound.element_of h.tagged fun a _ => h.read a

/-- What is found is right if and only if the reader is right about the element. -/
theorem found_iff (f : Format α β) (c : Option α) (m : Nat → UInt8) (p : Nat) (old : β) :
    Found f.Is c (f.found m p).isSome ((f.found m p).getD old)
      ↔ (f.element c).RightAt tagOf m p := by
  unfold Found Format.found Element.RightAt
  by_cases h : tagOf (m p) = f.tag
  · rw [if_pos h, if_pos (show tagOf (m p) = (f.element c).tag from h)]
    cases c <;> simp [Format.element]
  · rw [if_neg h, if_neg (show tagOf (m p) ≠ (f.element c).tag from h)]
    cases c <;> simp [Format.element]

theorem element_after (f : Format α β) (c : Option α) (m : Nat → UInt8) (p : Nat) :
    (f.element c).after tagOf m p = f.after m p := rfl

end Format

/-! ## Bits -/

/-- `n` bits, a byte for each. -/
structure Bits (n : Nat) where
  toList : List UInt8
  length_eq : toList.length = n
  lt_two : ∀ b ∈ toList, b.toNat < 2

/-- The bits as fields. -/
def Bits.row {n : Nat} (bs : Bits n) : List (Nat × UInt8) := bs.toList.map fun b => (1, b)

theorem Bits.fits {n : Nat} (bs : Bits n) : Fits bs.row := by
  intro f hf
  obtain ⟨b, hb, rfl⟩ := List.mem_map.mp hf
  exact bs.lt_two b hb

/-- A field of one bit. -/
theorem bit_octet (l : List (Nat × UInt8)) (x : UInt8) (row : List (Nat × UInt8))
    (h : Fits (l ++ (1, x) :: row)) (hw : width (l ++ (1, x) :: row) = 8) :
    bit (octet (l ++ (1, x) :: row)) (UInt8.ofNat (width row)) = x :=
  shift_mask_octet l 1 x row h hw Nat.one_pos

/-- Eight bits. -/
theorem octet_bits {x7 x6 x5 x4 x3 x2 x1 x0 : UInt8}
    (h : Fits [(1, x7), (1, x6), (1, x5), (1, x4), (1, x3), (1, x2), (1, x1), (1, x0)]) :
    bits8 (octet [(1, x7), (1, x6), (1, x5), (1, x4), (1, x3), (1, x2), (1, x1), (1, x0)])
      = [x7, x6, x5, x4, x3, x2, x1, x0] := by
  have h7 := bit_octet [] x7 [(1, x6), (1, x5), (1, x4), (1, x3), (1, x2), (1, x1), (1, x0)] h rfl
  have h6 := bit_octet [(1, x7)] x6 [(1, x5), (1, x4), (1, x3), (1, x2), (1, x1), (1, x0)] h rfl
  have h5 := bit_octet [(1, x7), (1, x6)] x5 [(1, x4), (1, x3), (1, x2), (1, x1), (1, x0)] h rfl
  have h4 := bit_octet [(1, x7), (1, x6), (1, x5)] x4 [(1, x3), (1, x2), (1, x1), (1, x0)] h rfl
  have h3 := bit_octet [(1, x7), (1, x6), (1, x5), (1, x4)] x3 [(1, x2), (1, x1), (1, x0)] h rfl
  have h2 := bit_octet [(1, x7), (1, x6), (1, x5), (1, x4), (1, x3)] x2 [(1, x1), (1, x0)] h rfl
  have h1 := bit_octet [(1, x7), (1, x6), (1, x5), (1, x4), (1, x3), (1, x2)] x1 [(1, x0)] h rfl
  have h0 := bit_octet [(1, x7), (1, x6), (1, x5), (1, x4), (1, x3), (1, x2), (1, x1)] x0 [] h rfl
  simp only [bits8, List.cons.injEq, and_true]
  exact ⟨h7, h6, h5, h4, h3, h2, h1, h0⟩

theorem bits8_row (bs : Bits 8) : bits8 (octet bs.row) = bs.toList := by
  obtain ⟨l, hl, hlt⟩ := bs
  match l, hl with
  | [_, _, _, _, _, _, _, _], _ =>
      exact octet_bits (Bits.fits ⟨_, rfl, hlt⟩)

/-! ## Contents -/

/-- The second octet of the DRX parameter. -/
def DrxParameter.row (x : DrxParameter) : List (Nat × UInt8) :=
  [(4, x.drxCycleLenCoeffAndValue), (1, x.splitOnCcch), (3, x.nonDrxTimer)]

structure DrxContents where
  fields : DrxParameter
  fits : Fits fields.row

/-- The rows of the first three octets of the MS network capability, whose last bit is a spare
one. -/
def MsNetworkCapability.row1 (x : MsNetworkCapability) : List (Nat × UInt8) :=
  [(1, x.gea.getD 0 0), (1, x.smCapDed), (1, x.smCapGprs), (1, x.ucs2), (2, x.ssScreening),
    (1, x.solsa), (1, x.revision)]

def MsNetworkCapability.row2 (x : MsNetworkCapability) : List (Nat × UInt8) :=
  [(1, x.pfc), (1, x.gea.getD 1 0), (1, x.gea.getD 2 0), (1, x.gea.getD 3 0),
    (1, x.gea.getD 4 0), (1, x.gea.getD 5 0), (1, x.gea.getD 6 0), (1, x.lcsva)]

def MsNetworkCapability.row3 (x : MsNetworkCapability) (spare : UInt8) : List (Nat × UInt8) :=
  [(1, x.hoG2uViaIu), (1, x.hoG2eViaS1), (1, x.emmComb), (1, x.isr), (1, x.srvcc), (1, x.epc),
    (1, x.nf), (1, spare)]

/-- The fields of the first two octets. -/
def MsNetworkCapability.firstTwo (x : MsNetworkCapability) : MsNetworkCapability :=
  { x with
    hoG2uViaIu := 0, hoG2eViaS1 := 0, emmComb := 0, isr := 0, srvcc := 0, epc := 0, nf := 0 }

/-- The MS network capability. It may end after the second octet; otherwise there is a third
one, given by its spare bit, and further octets. -/
structure MsNetworkCapabilityContents where
  fields : MsNetworkCapability
  third : Option (UInt8 × List UInt8)
  length_gea : fields.gea.length = 7
  fits1 : Fits fields.row1
  fits2 : Fits fields.row2
  fits3 : ∀ t ∈ third, Fits (fields.row3 t.1)
  length_le : ∀ t ∈ third, t.2.length ≤ 5

/-- The octets behind the second one. -/
def MsNetworkCapability.rest (x : MsNetworkCapability) : Option (UInt8 × List UInt8) → List UInt8
  | none => []
  | some t => octet (x.row3 t.1) :: t.2

/-- The octets of the value. -/
def MsNetworkCapabilityContents.octets (c : MsNetworkCapabilityContents) : List UInt8 :=
  [octet c.fields.row1, octet c.fields.row2] ++ c.fields.rest c.third

/-- A tracking or location area. -/
structure AreaContents where
  plmn : Plmn
  code : UInt16

def AreaContents.octets (c : AreaContents) : List UInt8 :=
  c.plmn.octets ++ store .big 2 c.code.toNat

/-- The rows of classmark 2. -/
def MobileStationClassmark2.row1 (x : MobileStationClassmark2) : List (Nat × UInt8) :=
  [(1, 0), (2, x.revLev), (1, x.esInd), (1, x.a5_1), (3, x.rfPowerCap)]

def MobileStationClassmark2.row2 (x : MobileStationClassmark2) : List (Nat × UInt8) :=
  [(1, 0), (1, x.psCap), (2, x.ssScreenInd), (1, x.smCap), (1, x.vbs), (1, x.vgcs), (1, x.fc)]

def MobileStationClassmark2.row3 (x : MobileStationClassmark2) : List (Nat × UInt8) :=
  [(1, x.cm3), (1, 0), (1, x.lcsvaCap), (1, x.ucs2), (1, x.solsa), (1, x.cmsp), (1, x.a5_3),
    (1, x.a5_2)]

structure Classmark2Contents where
  fields : MobileStationClassmark2
  fits1 : Fits fields.row1
  fits2 : Fits fields.row2
  fits3 : Fits fields.row3

/-- Classmark 3, of any length that a length octet can say. -/
structure Classmark3Contents where
  octets : List UInt8
  length_le : octets.length ≤ 255

/-- A codec of the list: the identity of its system, and its bitmap, which has a length octet
of its own. -/
structure Codec where
  sysId : UInt8
  bitmap : List UInt8
  deriving DecidableEq

def Codec.octets (c : Codec) : List UInt8 := c.sysId :: withLength c.bitmap

/-- As many codecs as a length octet can say. -/
structure CodecsContents where
  codecs : List Codec
  length_le : (codecs.flatMap Codec.octets).length ≤ 255

/-- The codec is decoded: the bits of the bitmap that one of the two leaves out are zero. -/
def Codec.Is (c : Codec) (x : SupportedCodec) : Prop :=
  x = ⟨c.sysId, be16 (fun i => c.bitmap.getD i 0) 0⟩ ∧ ∀ b ∈ c.bitmap.drop 2, b = 0

instance (c : Codec) (x : SupportedCodec) : Decidable (c.Is x) :=
  inferInstanceAs (Decidable (_ ∧ _))

namespace CodecsContents

variable (c : CodecsContents)

/-- The value of the element. -/
def octets : List UInt8 := c.codecs.flatMap Codec.octets

/-- Every bitmap has two octets, so that every codec has four. -/
def Plain : Prop := ∀ x ∈ c.codecs, x.bitmap.length = 2

instance : Decidable c.Plain := inferInstanceAs (Decidable (∀ x ∈ c.codecs, _))

end CodecsContents

/-- A list cut into fours, each with the octets of a codec whose bitmap has two; what is left is
dropped. -/
def inFours : List UInt8 → List SupportedCodec
  | sysId :: _ :: b :: b' :: l => ⟨sysId, be16 (fun i => [b, b'].getD i 0) 0⟩ :: inFours l
  | _ => []

/-- Cut into fours, the value of the element has the codecs. -/
def CodecsContents.ReadInFours (c : CodecsContents) : Prop :=
  List.Forall₂ Codec.Is c.codecs (inFours c.octets)

def VoiceDomainPref.row (x : VoiceDomainPref) : List (Nat × UInt8) :=
  [(5, 0), (1, x.ueUsageSetting), (2, x.voiceDomainPref)]

structure VoiceDomainContents where
  fields : VoiceDomainPref
  fits : Fits fields.row

/-! ## The elements -/

namespace Format

/-- The signature has 24 bits, and the code reads 32. -/
def oldPTmsiSignature : Format (Fin (2 ^ 24)) UInt32 where
  tag := pTmsiSignatureIei
  encode v := pTmsiSignatureIei :: store .big 3 v
  read m p := be32 m (p + 1)
  next _ p := p + 1 + 4
  Is v x := x.toNat = v

/-- `old` is what the structure held before. -/
def additionalGuti (old : EpsMobileId) : Format EpsIdentity EpsMobileId where
  tag := additionalGutiIei
  encode id := additionalGutiIei :: id.encode
  read m p := (mmeUnpackEpsMobileIdIe m (p + 1) old).1
  next m p := (mmeUnpackEpsMobileIdIe m (p + 1) old).2
  Is id x := id.record x = x

/-- A tracking and a location area differ in their tag only. -/
def area (iei : UInt8) : Format AreaContents AreaId where
  tag := iei
  encode c := iei :: c.octets
  read m p := unpackAreaId m (p + 1)
  next _ p := p + 1 + 5
  Is c x := x = ⟨UInt16.ofNat c.plmn.mcc.value, UInt16.ofNat c.plmn.mnc.value, c.code⟩

def lastVisitedRegisteredTai : Format AreaContents AreaId := area lastVisitedRegisteredTaiIei
def oldLai : Format AreaContents AreaId := area locationAreaIdentificationIei

def drxParam : Format DrxContents DrxParameter where
  tag := drxParameterIei
  encode c := [drxParameterIei, c.fields.splitPgCycleCode, octet c.fields.row]
  read m p := (mmeUnpackDrxParameterIe m (p + 1)).1
  next m p := (mmeUnpackDrxParameterIe m (p + 1)).2
  Is c x := x = c.fields

def msNetworkCap : Format MsNetworkCapabilityContents MsNetworkCapability where
  tag := msNetworkCapabilityIei
  encode c := msNetworkCapabilityIei :: withLength c.octets
  read m p := (mmeUnpackMsNetworkCapabilityIe m (p + 1)).1
  next m p := (mmeUnpackMsNetworkCapabilityIe m (p + 1)).2
  Is c x := x.firstTwo = c.fields.firstTwo ∧ (c.third.isSome → x = c.fields)

/-- An element of one octet, with the tag in its upper half and one bit of contents. -/
def halfOctet (iei : UInt8) : Format Bool UInt8 where
  tag := iei <<< 4
  encode v := [octet [(4, iei), (3, 0), (1, v.toUInt8)]]
  read m p := bit (m p) 0
  next _ p := p + 1
  Is v x := x = v.toUInt8

def tmsiStatus : Format Bool UInt8 := halfOctet tmsiStatusIei
def additionalUpdateType : Format Bool UInt8 := halfOctet additionalUpdateTypeIei
def deviceProperties : Format Bool UInt8 := halfOctet attachRequestDevicePropertiesIei
def oldGutiType : Format Bool UInt8 := halfOctet gutiTypeIei

def msCm2 : Format Classmark2Contents MobileStationClassmark2 where
  tag := msClassmark2Iei
  encode c := msClassmark2Iei ::
    withLength [octet c.fields.row1, octet c.fields.row2, octet c.fields.row3]
  read m p := (mmeUnpackMobileStationClassmark2Ie m (p + 1)).1
  next m p := (mmeUnpackMobileStationClassmark2Ie m (p + 1)).2
  Is c x := x = c.fields

/-- Classmark 3 is not skipped: the code goes on at its length octet. -/
def msCm3 : Format Classmark3Contents Unit where
  tag := msClassmark3Iei
  encode c := msClassmark3Iei :: withLength c.octets
  read _ _ := ()
  next _ p := p + 1
  Is _ _ := True

/-- The code takes every codec for four octets. -/
def supportedCodecs : Format CodecsContents (List SupportedCodec) where
  tag := supportedCodecListIei
  encode c := supportedCodecListIei :: withLength c.octets
  read m p := (mmeUnpackSupportedCodecListIe m (p + 1)).1
  next m p := (mmeUnpackSupportedCodecListIe m (p + 1)).2
  Is c x := List.Forall₂ Codec.Is c.codecs x

def voiceDomainPref : Format VoiceDomainContents VoiceDomainPref where
  tag := voiceDomainPrefAndUeUsageSettingIei
  encode c := voiceDomainPrefAndUeUsageSettingIei ::
    withLength [octet c.fields.row]
  read m p := (mmeUnpackVoiceDomainPrefIe m (p + 1)).1
  next m p := (mmeUnpackVoiceDomainPrefIe m (p + 1)).2
  Is c x := x = c.fields

end Format

/-! ## What is read -/

theorem EpsIdentity.record_record (id : EpsIdentity) (old : EpsMobileId) :
    id.record (id.record old) = id.record old := by
  cases id <;> rfl

namespace Format

theorem additionalGuti_sound (old : EpsMobileId) : (additionalGuti old).Sound where
  tagged id := ⟨_, _, rfl, rfl⟩
  read id m p h := by
    have hread := mmeUnpackEpsMobileIdIe_encode id old h.tail
    refine ⟨?_, ?_⟩
    · show id.record (mmeUnpackEpsMobileIdIe m (p + 1) old).1
        = (mmeUnpackEpsMobileIdIe m (p + 1) old).1
      rw [hread]
      exact id.record_record old
    · show (mmeUnpackEpsMobileIdIe m (p + 1) old).2 = _
      rw [hread]
      exact Nat.add_right_comm p 1 id.encode.length

theorem area_sound {iei : UInt8} (ht : tagOf iei = iei) : (area iei).Sound where
  tagged c := ⟨_, _, rfl, ht⟩
  read c m p h := by
    have hplmn : Reads m (p + 1) c.plmn.octets := h.tail.left
    have hcode : Reads m (p + 1 + 3) (store .big 2 c.code.toNat) := h.tail.right
    refine ⟨?_, rfl⟩
    show unpackAreaId m (p + 1) = _
    rw [unpackAreaId, mccAt_read c.plmn hplmn, mncAt_read c.plmn hplmn, be16_read c.code hcode]

theorem drxParam_sound : drxParam.Sound where
  tagged c := ⟨_, _, rfl, rfl⟩
  read c m p h := by
    refine ⟨?_, rfl⟩
    show (mmeUnpackDrxParameterIe m (p + 1)).1 = c.fields
    have hcode : m (p + 1) = c.fields.splitPgCycleCode := h.tail.head
    have hlast : m (p + 1 + 1) = octet c.fields.row := h.tail.tail.head
    have hcycle : (octet c.fields.row >>> 4) &&& 0x0F = c.fields.drxCycleLenCoeffAndValue :=
      shift_mask_octet [] 4 c.fields.drxCycleLenCoeffAndValue _ c.fits rfl (by decide)
    have hsplit : bit (octet c.fields.row) 3 = c.fields.splitOnCcch :=
      bit_octet [(4, c.fields.drxCycleLenCoeffAndValue)] c.fields.splitOnCcch
        [(3, c.fields.nonDrxTimer)] c.fits rfl
    have htimer : octet c.fields.row &&& 0x07 = c.fields.nonDrxTimer :=
      mask_octet [(4, c.fields.drxCycleLenCoeffAndValue), (1, c.fields.splitOnCcch)] 3
        c.fields.nonDrxTimer c.fits rfl (by decide)
    rw [mmeUnpackDrxParameterIe, hlast, hcode, hcycle, hsplit, htimer]

theorem halfOctet_sound {iei : UInt8} (hi : iei.toNat < 2 ^ 4)
    (ht : ∀ v : Bool, tagOf (octet [(4, iei), (3, 0), (1, v.toUInt8)]) = iei <<< 4) :
    (halfOctet iei).Sound where
  tagged v := ⟨_, [], rfl, ht v⟩
  read v m p h := by
    refine ⟨?_, rfl⟩
    have hv : v.toUInt8.toNat < 2 ^ 1 := by cases v <;> decide
    have hfit : Fits [(4, iei), (3, 0), (1, v.toUInt8)] :=
      fits_cons.mpr ⟨hi, fits_cons.mpr ⟨by decide, fits_cons.mpr ⟨hv, fits_nil⟩⟩⟩
    show bit (m p) 0 = v.toUInt8
    rw [h.head]
    exact bit_octet [(4, iei), (3, 0)] v.toUInt8 [] hfit rfl

theorem voiceDomainPref_sound : voiceDomainPref.Sound where
  tagged c := ⟨_, _, rfl, rfl⟩
  read c m p h := by
    refine ⟨?_, rfl⟩
    show (mmeUnpackVoiceDomainPrefIe m (p + 1)).1 = c.fields
    have hvalue : m (p + 1 + 1) = octet c.fields.row := h.tail.tail.head
    have hsetting : bit (octet c.fields.row) 2 = c.fields.ueUsageSetting :=
      bit_octet [(5, 0)] c.fields.ueUsageSetting [(2, c.fields.voiceDomainPref)] c.fits rfl
    have hpref : octet c.fields.row &&& 0x03 = c.fields.voiceDomainPref :=
      mask_octet [(5, 0), (1, c.fields.ueUsageSetting)] 2 c.fields.voiceDomainPref c.fits rfl
        (by decide)
    rw [mmeUnpackVoiceDomainPrefIe, hvalue, hsetting, hpref]

theorem msCm2_sound : msCm2.Sound where
  tagged c := ⟨_, _, rfl, rfl⟩
  read c m p h := by
    refine ⟨?_, rfl⟩
    show (mmeUnpackMobileStationClassmark2Ie m (p + 1)).1 = c.fields
    obtain ⟨x, fits1, fits2, fits3⟩ := c
    have h1 : m (p + 1 + 1) = octet x.row1 := h.tail.tail.head
    have h2 : m (p + 1 + 2) = octet x.row2 := h.tail.tail.tail.head
    have h3 : m (p + 1 + 3) = octet x.row3 := h.tail.tail.tail.tail.head
    have revLev : (octet x.row1 >>> 5) &&& 0x03 = x.revLev :=
      shift_mask_octet [(1, 0)] 2 x.revLev [(1, x.esInd), (1, x.a5_1), (3, x.rfPowerCap)] fits1
        rfl (by decide)
    have esInd : bit (octet x.row1) 4 = x.esInd :=
      bit_octet [(1, 0), (2, x.revLev)] x.esInd [(1, x.a5_1), (3, x.rfPowerCap)] fits1 rfl
    have a5_1 : bit (octet x.row1) 3 = x.a5_1 :=
      bit_octet [(1, 0), (2, x.revLev), (1, x.esInd)] x.a5_1 [(3, x.rfPowerCap)] fits1 rfl
    have rfPowerCap : octet x.row1 &&& 0x07 = x.rfPowerCap :=
      mask_octet [(1, 0), (2, x.revLev), (1, x.esInd), (1, x.a5_1)] 3 x.rfPowerCap fits1 rfl
        (by decide)
    have psCap : bit (octet x.row2) 6 = x.psCap :=
      bit_octet [(1, 0)] x.psCap [(2, x.ssScreenInd), (1, x.smCap), (1, x.vbs), (1, x.vgcs),
        (1, x.fc)] fits2 rfl
    have ssScreenInd : (octet x.row2 >>> 4) &&& 0x03 = x.ssScreenInd :=
      shift_mask_octet [(1, 0), (1, x.psCap)] 2 x.ssScreenInd [(1, x.smCap), (1, x.vbs),
        (1, x.vgcs), (1, x.fc)] fits2 rfl (by decide)
    have smCap : bit (octet x.row2) 3 = x.smCap :=
      bit_octet [(1, 0), (1, x.psCap), (2, x.ssScreenInd)] x.smCap [(1, x.vbs), (1, x.vgcs),
        (1, x.fc)] fits2 rfl
    have vbs : bit (octet x.row2) 2 = x.vbs :=
      bit_octet [(1, 0), (1, x.psCap), (2, x.ssScreenInd), (1, x.smCap)] x.vbs [(1, x.vgcs),
        (1, x.fc)] fits2 rfl
    have vgcs : bit (octet x.row2) 1 = x.vgcs :=
      bit_octet [(1, 0), (1, x.psCap), (2, x.ssScreenInd), (1, x.smCap), (1, x.vbs)] x.vgcs
        [(1, x.fc)] fits2 rfl
    have fc : bit (octet x.row2) 0 = x.fc :=
      bit_octet [(1, 0), (1, x.psCap), (2, x.ssScreenInd), (1, x.smCap), (1, x.vbs),
        (1, x.vgcs)] x.fc [] fits2 rfl
    have row3 := octet_bits fits3
    simp only [bits8, List.cons.injEq, and_true] at row3
    obtain ⟨cm3, -, lcsvaCap, ucs2, solsa, cmsp, a5_3, a5_2⟩ := row3
    simp only [mmeUnpackMobileStationClassmark2Ie, h1, h2, h3, revLev, esInd, a5_1, rfPowerCap,
      psCap, ssScreenInd, smCap, vbs, vgcs, fc]
    simp only [MobileStationClassmark2.row3, cm3, lcsvaCap, ucs2, solsa, cmsp, a5_3, a5_2]

theorem gea_eq {l : List UInt8} (h : l.length = 7) :
    [l.getD 0 0, l.getD 1 0, l.getD 2 0, l.getD 3 0, l.getD 4 0, l.getD 5 0, l.getD 6 0] = l := by
  match l, h with
  | [_, _, _, _, _, _, _], _ => rfl

/-- The fields of the first two octets are read, and those of the third one if it is there. -/
theorem msNetworkCap_read (c : MsNetworkCapabilityContents) {m : Nat → UInt8} {p : Nat} :
    Reads m (p + 1) c.octets → msNetworkCap.Is c (mmeUnpackMsNetworkCapabilityIe m p).1 := by
  obtain ⟨x, third, length_gea, fits1, fits2, fits3, -⟩ := c
  intro (h : Reads m (p + 1) ([octet x.row1, octet x.row2] ++ x.rest third))
  have h1 : m (p + 1) = octet x.row1 := h.left.head
  have h2 : m (p + 2) = octet x.row2 := h.left.tail.head
  have hgea := gea_eq length_gea
  have gea0 : bit (octet x.row1) 7 = x.gea.getD 0 0 :=
    bit_octet [] _ [(1, x.smCapDed), (1, x.smCapGprs), (1, x.ucs2), (2, x.ssScreening),
      (1, x.solsa), (1, x.revision)] fits1 rfl
  have smCapDed : bit (octet x.row1) 6 = x.smCapDed :=
    bit_octet [(1, x.gea.getD 0 0)] _ [(1, x.smCapGprs), (1, x.ucs2), (2, x.ssScreening),
      (1, x.solsa), (1, x.revision)] fits1 rfl
  have smCapGprs : bit (octet x.row1) 5 = x.smCapGprs :=
    bit_octet [(1, x.gea.getD 0 0), (1, x.smCapDed)] _ [(1, x.ucs2), (2, x.ssScreening),
      (1, x.solsa), (1, x.revision)] fits1 rfl
  have ucs2 : bit (octet x.row1) 4 = x.ucs2 :=
    bit_octet [(1, x.gea.getD 0 0), (1, x.smCapDed), (1, x.smCapGprs)] _ [(2, x.ssScreening),
      (1, x.solsa), (1, x.revision)] fits1 rfl
  have ssScreening : (octet x.row1 >>> 2) &&& 0x03 = x.ssScreening :=
    shift_mask_octet [(1, x.gea.getD 0 0), (1, x.smCapDed), (1, x.smCapGprs), (1, x.ucs2)] 2
      x.ssScreening [(1, x.solsa), (1, x.revision)] fits1 rfl (by decide)
  have solsa : bit (octet x.row1) 1 = x.solsa :=
    bit_octet [(1, x.gea.getD 0 0), (1, x.smCapDed), (1, x.smCapGprs), (1, x.ucs2),
      (2, x.ssScreening)] _ [(1, x.revision)] fits1 rfl
  have revision : bit (octet x.row1) 0 = x.revision :=
    bit_octet [(1, x.gea.getD 0 0), (1, x.smCapDed), (1, x.smCapGprs), (1, x.ucs2),
      (2, x.ssScreening), (1, x.solsa)] _ [] fits1 rfl
  have row2 := octet_bits fits2
  simp only [bits8, List.cons.injEq, and_true] at row2
  obtain ⟨pfc, gea1, gea2, gea3, gea4, gea5, gea6, lcsva⟩ := row2
  refine ⟨?_, fun hthird => ?_⟩
  · simp only [mmeUnpackMsNetworkCapabilityIe, MsNetworkCapability.firstTwo, h1, h2, gea0,
      smCapDed, smCapGprs, ucs2, ssScreening, solsa, revision]
    simp only [MsNetworkCapability.row2, pfc, gea1, gea2, gea3, gea4, gea5, gea6, lcsva, hgea]
  · obtain ⟨t, rfl⟩ := Option.isSome_iff_exists.mp hthird
    have h3 : m (p + 3) = octet (x.row3 t.1) := h.right.head
    have row3 := octet_bits (fits3 t rfl)
    simp only [bits8, List.cons.injEq, and_true] at row3
    obtain ⟨hoG2uViaIu, hoG2eViaS1, emmComb, isr, srvcc, epc, nf, -⟩ := row3
    simp only [mmeUnpackMsNetworkCapabilityIe, h1, h2, h3, gea0, smCapDed, smCapGprs, ucs2,
      ssScreening, solsa, revision]
    simp only [MsNetworkCapability.row2, MsNetworkCapability.row3, pfc, gea1, gea2, gea3, gea4,
      gea5, gea6, lcsva, hgea, hoG2uViaIu, hoG2eViaS1, emmComb, isr, srvcc, epc, nf]

theorem msNetworkCap_sound : msNetworkCap.Sound where
  tagged c := ⟨_, _, rfl, rfl⟩
  read c m p h := by
    have hlen : c.octets.length < 2 ^ 8 := by
      have hle := c.length_le
      rw [MsNetworkCapabilityContents.octets, List.length_append]
      cases ht : c.third with
      | none => exact (by decide : 2 + 0 < 2 ^ 8)
      | some t =>
          have := hle t ht
          simp only [MsNetworkCapability.rest, List.length_cons, List.length_nil]
          omega
    have hfirst : (m (p + 1)).toNat = c.octets.length := by
      rw [h.tail.head, UInt8.toNat_ofNat', Nat.mod_eq_of_lt hlen]
    refine ⟨msNetworkCap_read c h.tail.tail, ?_⟩
    show p + 1 + ((m (p + 1)).toNat + 1) = p + (msNetworkCap.encode c).length
    rw [hfirst]
    simp only [msNetworkCap, List.length_cons, length_withLength]
    omega

/-- The loop over the codecs cuts the value into fours. -/
theorem codecs_read (m : Nat → UInt8) (p : Nat) (l : List UInt8) (h : Reads m p l) :
    ((List.range (l.length / 4)).map fun i =>
      (⟨m (p + i * 4), be16 m (p + i * 4 + 2)⟩ : SupportedCodec)) = inFours l := by
  induction l using inFours.induct generalizing p with
  | case1 sysId n b b' l ih =>
      have hid : m p = sysId := h.head
      have hb : m (p + 2) = b := h.tail.tail.head
      have hb' : m (p + 2 + 1) = b' := h.tail.tail.tail.head
      have hbitmap : be16 m (p + 2) = be16 (fun i => [b, b'].getD i 0) 0 := by
        unfold be16
        rw [hb, hb']
        rfl
      have hrest := ih (p + 4) h.tail.tail.tail.tail
      have hshift : ∀ i, p + 4 + i * 4 = p + (i + 1) * 4 := fun i => by omega
      simp only [hshift] at hrest
      have hlength : (sysId :: n :: b :: b' :: l).length / 4 = l.length / 4 + 1 := by
        simp only [List.length_cons]
        omega
      rw [hlength, List.range_succ_eq_map, List.map_cons, List.map_map, inFours]
      show _ :: _ = _
      simp only [Nat.zero_mul, Nat.add_zero, hid, hbitmap]
      congr 1
  | case2 l hl =>
      have hshort : l.length / 4 = 0 := by
        match l, hl with
        | [], _ => rfl
        | [_], _ => simp
        | [_, _], _ => simp
        | [_, _, _], _ => simp
        | _ :: _ :: _ :: _ :: _, hl => exact absurd rfl (hl _ _ _ _ _)
      rw [hshort]
      unfold inFours
      split
      · exact absurd rfl (hl _ _ _ _ _)
      · rfl

/-- What is read of a codec list, and where the code goes on. -/
theorem supportedCodecs_read (c : CodecsContents) {m : Nat → UInt8} {p : Nat}
    (h : Reads m p (supportedCodecs.encode c)) :
    supportedCodecs.read m p = inFours c.octets ∧
      supportedCodecs.next m p = p + 2 + c.octets.length / 4 * 4 := by
  have hle : c.octets.length ≤ 255 := c.length_le
  have hlength : (m (p + 1)).toNat = c.octets.length := by
    rw [h.tail.head, UInt8.toNat_ofNat']
    omega
  refine ⟨?_, ?_⟩
  · rw [← codecs_read m (p + 1 + 1) c.octets h.tail.tail, ← hlength]
    rfl
  · show p + 1 + ((m (p + 1)).toNat / 4 * 4 + 1) = _
    rw [hlength]
    omega

/-- With bitmaps of two octets, the codecs are found, and there are as many fours. -/
theorem codecs_plain {l : List Codec} (h : ∀ x ∈ l, x.bitmap.length = 2) :
    List.Forall₂ Codec.Is l (inFours (l.flatMap Codec.octets)) ∧
      (l.flatMap Codec.octets).length / 4 * 4 = (l.flatMap Codec.octets).length := by
  induction l with
  | nil => exact ⟨.nil, rfl⟩
  | cons x l ih =>
      obtain ⟨hx, hl⟩ := List.forall_mem_cons.mp h
      obtain ⟨hread, hlength⟩ := ih hl
      obtain ⟨sysId, bitmap⟩ := x
      match bitmap, hx with
      | [b, b'], _ =>
          refine ⟨.cons ⟨rfl, by simp⟩ hread, ?_⟩
          rw [List.flatMap_cons, List.length_append]
          simp only [Codec.octets, withLength, List.length_cons, List.length_nil]
          omega

theorem supportedCodecs_sound {c : Option CodecsContents} (h : ∀ a ∈ c, a.Plain) :
    (supportedCodecs.element c).Sound tagOf := by
  refine Sound.element_of (fun a => ⟨_, _, rfl, rfl⟩) fun a ha m p hr => ?_
  obtain ⟨hread, hnext⟩ := supportedCodecs_read a hr
  obtain ⟨hcodecs, hlength⟩ := codecs_plain (h a ha)
  refine ⟨?_, ?_⟩
  · show List.Forall₂ Codec.Is a.codecs (supportedCodecs.read m p)
    rw [hread]
    exact hcodecs
  · rw [hnext]
    simp only [supportedCodecs, List.length_cons, length_withLength]
    have : a.octets.length / 4 * 4 = a.octets.length := hlength
    omega

end Format

end LteUlp.Nas
