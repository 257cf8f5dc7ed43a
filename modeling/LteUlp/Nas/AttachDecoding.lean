import LteUlp.Nas.Elements
import LteUlp.Nas.Footprint

set_option autoImplicit false

/-! # Which attach requests are decoded as they were encoded

`AttachContents` is an attach request as a UE encodes it, with any of the optional elements.
The unpacker is right about an optional element if it finds it at its place. This is so for
all of them if `Clear` holds (`attachRequest_decoded_iff`): the code does not skip classmark
3, takes an octet too many for the signature, and looks for more elements behind the message.
-/

namespace LteUlp.Nas

open ByteString Endian

/-! ## The optional part -/

/-- The optional elements of an attach request, each with its contents if it is there. -/
structure OptionalContents where
  oldPTmsiSignature : Option (Fin (2 ^ 24))
  additionalGuti : Option EpsIdentity
  lastVisitedRegisteredTai : Option AreaContents
  drxParam : Option DrxContents
  msNetworkCap : Option MsNetworkCapabilityContents
  oldLai : Option AreaContents
  tmsiStatus : Option Bool
  msCm2 : Option Classmark2Contents
  msCm3 : Option Classmark3Contents
  supportedCodecs : Option CodecsContents
  additionalUpdateType : Option Bool
  voiceDomainPref : Option VoiceDomainContents
  deviceProperties : Option Bool
  oldGutiType : Option Bool

namespace OptionalContents

variable (c : OptionalContents)

/-- The elements between the signature and classmark 3. -/
def beforeCm3 (old : EpsMobileId) : List (Element UInt8) :=
  [(Format.additionalGuti old).element c.additionalGuti,
   Format.lastVisitedRegisteredTai.element c.lastVisitedRegisteredTai,
   Format.drxParam.element c.drxParam,
   Format.msNetworkCap.element c.msNetworkCap,
   Format.oldLai.element c.oldLai,
   Format.tmsiStatus.element c.tmsiStatus,
   Format.msCm2.element c.msCm2]

/-- The elements behind the codecs. -/
def behindCodecs : List (Element UInt8) :=
  [Format.additionalUpdateType.element c.additionalUpdateType,
   Format.voiceDomainPref.element c.voiceDomainPref,
   Format.deviceProperties.element c.deviceProperties,
   Format.oldGutiType.element c.oldGutiType]

/-- The elements behind classmark 3. -/
def behindCm3 : List (Element UInt8) :=
  Format.supportedCodecs.element c.supportedCodecs :: c.behindCodecs

/-- The elements behind the signature. -/
def behindSignature (old : EpsMobileId) : List (Element UInt8) :=
  c.beforeCm3 old ++ Format.msCm3.element c.msCm3 :: c.behindCm3

/-- All elements in the order of the message. -/
def elements (old : EpsMobileId) : List (Element UInt8) :=
  Format.oldPTmsiSignature.element c.oldPTmsiSignature :: c.behindSignature old

/-- The optional part of the message. -/
def encode : List UInt8 := encoding (c.elements default)

end OptionalContents

/-- The tags in the order of the message. -/
def optionalTags : List UInt8 :=
  [0x19, 0x50, 0x52, 0x5C, 0x31, 0x13, 0x90, 0x11, 0x20, 0x40, 0xF0, 0x5D, 0xD0, 0xE0]

/-- **The optional elements can be read** from the pointer `q`, if there is neither a signature
nor classmark 3. The octet behind the message has not the tag of an element behind the last
one. With a codec whose bitmap has not two octets, the codecs are there when the list is cut
into fours, and the elements behind them can be read from the octet behind the last four. -/
def OptionalContents.PlainClear (c : OptionalContents) (m : Nat → UInt8) (q : Nat) : Prop :=
  match c.supportedCodecs with
  | some list =>
      if list.Plain then Behind tagOf (m (q + c.encode.length)) (c.elements default)
      else
        list.ReadInFours ∧ Recognised tagOf c.behindCodecs m
          (q + (encoding (c.beforeCm3 default)).length + 2 + list.octets.length / 4 * 4)
  | none => Behind tagOf (m (q + c.encode.length)) (c.elements default)

/-- **The optional elements can be read** from the pointer `q`.

With a signature, it is zero, no element follows, the octet behind the message is zero too
and the one behind it is no tag. With classmark 3, none of the five elements behind it is
there, or its length octet is itself a tag and they can be read from this octet on. -/
def OptionalContents.Clear (c : OptionalContents) (m : Nat → UInt8) (q : Nat) : Prop :=
  match c.oldPTmsiSignature, c.msCm3 with
  | some v, _ =>
      v = 0 ∧ AllAbsent (c.behindSignature default) ∧ m (q + 4) = 0 ∧
        tagOf (m (q + 5)) ∉ optionalTags.tail
  | none, some cm3 =>
      if cm3.octets.length < 0x40 then AllAbsent c.behindCm3
      else Recognised tagOf c.behindCm3 m (q + (encoding (c.beforeCm3 default)).length + 1)
  | none, none => c.PlainClear m q

/-- The optional part is decoded: the flags say which elements are there, and these have the
encoded values. -/
@[mk_iff]
structure OptionalDecoded (c : OptionalContents) (r : AttachRequest) : Prop where
  oldPTmsiSignature : Found Format.oldPTmsiSignature.Is c.oldPTmsiSignature
    r.oldPTmsiSignaturePresent r.oldPTmsiSignature
  additionalGuti : Found (fun id x => id.record x = x) c.additionalGuti
    r.additionalGutiPresent r.additionalGuti
  lastVisitedRegisteredTai : Found Format.lastVisitedRegisteredTai.Is c.lastVisitedRegisteredTai
    r.lastVisitedRegisteredTaiPresent r.lastVisitedRegisteredTai
  drxParam : Found Format.drxParam.Is c.drxParam r.drxParamPresent r.drxParam
  msNetworkCap : Found Format.msNetworkCap.Is c.msNetworkCap r.msNetworkCapPresent r.msNetworkCap
  oldLai : Found Format.oldLai.Is c.oldLai r.oldLaiPresent r.oldLai
  tmsiStatus : Found Format.tmsiStatus.Is c.tmsiStatus r.tmsiStatusPresent r.tmsiStatus
  msCm2 : Found Format.msCm2.Is c.msCm2 r.msCm2Present r.msCm2
  msCm3 : Found Format.msCm3.Is c.msCm3 r.msCm3Present ()
  supportedCodecs : Found Format.supportedCodecs.Is c.supportedCodecs
    r.supportedCodecsPresent r.supportedCodecs
  additionalUpdateType : Found Format.additionalUpdateType.Is c.additionalUpdateType
    r.additionalUpdateTypePresent r.additionalUpdateType
  voiceDomainPref : Found Format.voiceDomainPref.Is c.voiceDomainPref
    r.voiceDomainPrefPresent r.voiceDomainPref
  deviceProperties : Found Format.deviceProperties.Is c.deviceProperties
    r.devicePropertiesPresent r.deviceProperties
  oldGutiType : Found Format.oldGutiType.Is c.oldGutiType r.oldGutiTypePresent r.oldGutiType

/-! ## The places of the elements -/

/-! What is written at the place of an element: its flag, and its value if it is found. -/

namespace Write

variable (r : AttachRequest)

def oldPTmsiSignature (found : Option UInt32) : AttachRequest :=
  { r with
    oldPTmsiSignature := found.getD r.oldPTmsiSignature
    oldPTmsiSignaturePresent := found.isSome }

def additionalGuti (found : Option EpsMobileId) : AttachRequest :=
  { r with additionalGuti := found.getD r.additionalGuti, additionalGutiPresent := found.isSome }

def lastVisitedRegisteredTai (found : Option AreaId) : AttachRequest :=
  { r with
    lastVisitedRegisteredTai := found.getD r.lastVisitedRegisteredTai
    lastVisitedRegisteredTaiPresent := found.isSome }

def drxParam (found : Option DrxParameter) : AttachRequest :=
  { r with drxParam := found.getD r.drxParam, drxParamPresent := found.isSome }

def msNetworkCap (found : Option MsNetworkCapability) : AttachRequest :=
  { r with msNetworkCap := found.getD r.msNetworkCap, msNetworkCapPresent := found.isSome }

def oldLai (found : Option AreaId) : AttachRequest :=
  { r with oldLai := found.getD r.oldLai, oldLaiPresent := found.isSome }

def tmsiStatus (found : Option UInt8) : AttachRequest :=
  { r with tmsiStatus := found.getD r.tmsiStatus, tmsiStatusPresent := found.isSome }

def msCm2 (found : Option MobileStationClassmark2) : AttachRequest :=
  { r with msCm2 := found.getD r.msCm2, msCm2Present := found.isSome }

def msCm3 (found : Option Unit) : AttachRequest := { r with msCm3Present := found.isSome }

def supportedCodecs (found : Option (List SupportedCodec)) : AttachRequest :=
  { r with supportedCodecs := found.getD r.supportedCodecs, supportedCodecsPresent := found.isSome }

def additionalUpdateType (found : Option UInt8) : AttachRequest :=
  { r with
    additionalUpdateType := found.getD r.additionalUpdateType
    additionalUpdateTypePresent := found.isSome }

def voiceDomainPref (found : Option VoiceDomainPref) : AttachRequest :=
  { r with voiceDomainPref := found.getD r.voiceDomainPref, voiceDomainPrefPresent := found.isSome }

def deviceProperties (found : Option UInt8) : AttachRequest :=
  { r with
    deviceProperties := found.getD r.deviceProperties
    devicePropertiesPresent := found.isSome }

def oldGutiType (found : Option UInt8) : AttachRequest :=
  { r with oldGutiType := found.getD r.oldGutiType, oldGutiTypePresent := found.isSome }

end Write

section Places

variable (m : Nat → UInt8) (r : AttachRequest) (p : Nat)

/-- A place of an element, as the code has it: the test of the tag, and what is written in
either case. -/
theorem Format.place_eq {α β γ : Type} (f : Format α β) (write : Option β → γ) {cond : Prop}
    [Decidable cond] (hcond : tagOf (m p) = f.tag ↔ cond) :
    (if cond then (write (some (f.read m p)), f.next m p) else (write none, p))
      = (write (f.found m p), f.after m p) := by
  unfold Format.found Format.after
  by_cases h : cond
  · rw [if_pos h, if_pos (hcond.mpr h), if_pos (hcond.mpr h)]
  · rw [if_neg h, if_neg (mt hcond.mp h), if_neg (mt hcond.mp h)]

theorem oldPTmsiSignature_eq : oldPTmsiSignature m r p =
    (Write.oldPTmsiSignature r (Format.oldPTmsiSignature.found m p),
      Format.oldPTmsiSignature.after m p) :=
  Format.oldPTmsiSignature.place_eq m p (Write.oldPTmsiSignature r) (tagOf_eq_octet rfl _)

theorem additionalGuti_eq : additionalGuti m r p =
    (Write.additionalGuti r ((Format.additionalGuti r.additionalGuti).found m p),
      (Format.additionalGuti r.additionalGuti).after m p) :=
  (Format.additionalGuti r.additionalGuti).place_eq m p (Write.additionalGuti r)
    (tagOf_eq_octet (t := additionalGutiIei) rfl _)

theorem lastVisitedRegisteredTai_eq : lastVisitedRegisteredTai m r p =
    (Write.lastVisitedRegisteredTai r (Format.lastVisitedRegisteredTai.found m p),
      Format.lastVisitedRegisteredTai.after m p) :=
  Format.lastVisitedRegisteredTai.place_eq m p (Write.lastVisitedRegisteredTai r)
    (tagOf_eq_octet rfl _)

theorem drxParam_eq : drxParam m r p =
    (Write.drxParam r (Format.drxParam.found m p), Format.drxParam.after m p) :=
  Format.drxParam.place_eq m p (Write.drxParam r) (tagOf_eq_octet rfl _)

theorem msNetworkCap_eq : msNetworkCap m r p =
    (Write.msNetworkCap r (Format.msNetworkCap.found m p), Format.msNetworkCap.after m p) :=
  Format.msNetworkCap.place_eq m p (Write.msNetworkCap r) (tagOf_eq_octet rfl _)

theorem oldLai_eq : oldLai m r p =
    (Write.oldLai r (Format.oldLai.found m p), Format.oldLai.after m p) :=
  Format.oldLai.place_eq m p (Write.oldLai r) (tagOf_eq_octet rfl _)

theorem tmsiStatus_eq : tmsiStatus m r p =
    (Write.tmsiStatus r (Format.tmsiStatus.found m p), Format.tmsiStatus.after m p) :=
  Format.tmsiStatus.place_eq m p (Write.tmsiStatus r) (tagOf_eq_half (by decide) _)

theorem msCm2_eq : msCm2 m r p =
    (Write.msCm2 r (Format.msCm2.found m p), Format.msCm2.after m p) :=
  Format.msCm2.place_eq m p (Write.msCm2 r) (tagOf_eq_octet rfl _)

theorem msCm3_eq : msCm3 m r p =
    (Write.msCm3 r (Format.msCm3.found m p), Format.msCm3.after m p) :=
  Format.msCm3.place_eq m p (Write.msCm3 r) (tagOf_eq_octet rfl _)

theorem supportedCodecs_eq : supportedCodecs m r p =
    (Write.supportedCodecs r (Format.supportedCodecs.found m p),
      Format.supportedCodecs.after m p) :=
  Format.supportedCodecs.place_eq m p (Write.supportedCodecs r) (tagOf_eq_octet rfl _)

theorem additionalUpdateType_eq : additionalUpdateType m r p =
    (Write.additionalUpdateType r (Format.additionalUpdateType.found m p),
      Format.additionalUpdateType.after m p) :=
  Format.additionalUpdateType.place_eq m p (Write.additionalUpdateType r)
    (tagOf_eq_half (by decide) _)

theorem voiceDomainPref_eq : voiceDomainPref m r p =
    (Write.voiceDomainPref r (Format.voiceDomainPref.found m p),
      Format.voiceDomainPref.after m p) :=
  Format.voiceDomainPref.place_eq m p (Write.voiceDomainPref r) (tagOf_eq_octet rfl _)

theorem deviceProperties_eq : deviceProperties m r p =
    (Write.deviceProperties r (Format.deviceProperties.found m p),
      Format.deviceProperties.after m p) :=
  Format.deviceProperties.place_eq m p (Write.deviceProperties r) (tagOf_eq_half (by decide) _)

theorem oldGutiType_eq : oldGutiType m r p =
    (Write.oldGutiType r (Format.oldGutiType.found m p), Format.oldGutiType.after m p) :=
  Format.oldGutiType.place_eq m p (Write.oldGutiType r) (tagOf_eq_half (by decide) _)

end Places

/-- **The optional part is decoded if and only if every element is recognised.** -/
theorem optionalDecoded_iff_recognised (c : OptionalContents) (m : Nat → UInt8)
    (r : AttachRequest) (q : Nat) :
    OptionalDecoded c (attachOptional m r q)
      ↔ Recognised tagOf (c.elements r.additionalGuti) m q := by
  rw [optionalDecoded_iff]
  simp only [attachOptional, optionalElements, List.foldl_cons, List.foldl_nil,
    oldPTmsiSignature_eq, additionalGuti_eq, lastVisitedRegisteredTai_eq, drxParam_eq,
    msNetworkCap_eq, oldLai_eq, tmsiStatus_eq, msCm2_eq, msCm3_eq, supportedCodecs_eq,
    additionalUpdateType_eq, voiceDomainPref_eq, deviceProperties_eq, oldGutiType_eq]
  simp only [Write.oldPTmsiSignature, Write.additionalGuti, Write.lastVisitedRegisteredTai,
    Write.drxParam, Write.msNetworkCap, Write.oldLai, Write.tmsiStatus, Write.msCm2,
    Write.msCm3, Write.supportedCodecs, Write.additionalUpdateType, Write.voiceDomainPref,
    Write.deviceProperties, Write.oldGutiType]
  simp only [OptionalContents.elements, OptionalContents.behindSignature,
    OptionalContents.beforeCm3, OptionalContents.behindCm3, OptionalContents.behindCodecs,
    List.cons_append, List.nil_append, Recognised, Format.element_after, and_true]
  refine and_congr (Format.found_iff Format.oldPTmsiSignature _ _ _ _) ?_
  refine and_congr (Format.found_iff (Format.additionalGuti _) _ _ _ _) ?_
  refine and_congr (Format.found_iff Format.lastVisitedRegisteredTai _ _ _ _) ?_
  refine and_congr (Format.found_iff Format.drxParam _ _ _ _) ?_
  refine and_congr (Format.found_iff Format.msNetworkCap _ _ _ _) ?_
  refine and_congr (Format.found_iff Format.oldLai _ _ _ _) ?_
  refine and_congr (Format.found_iff Format.tmsiStatus _ _ _ _) ?_
  refine and_congr (Format.found_iff Format.msCm2 _ _ _ _) ?_
  refine and_congr (Format.found_iff Format.msCm3 _ _ _ ()) ?_
  refine and_congr (Format.found_iff Format.supportedCodecs _ _ _ _) ?_
  refine and_congr (Format.found_iff Format.additionalUpdateType _ _ _ _) ?_
  refine and_congr (Format.found_iff Format.voiceDomainPref _ _ _ _) ?_
  refine and_congr (Format.found_iff Format.deviceProperties _ _ _ _) ?_
  exact Format.found_iff Format.oldGutiType _ _ _ _

/-! ## Which optional parts are recognised -/

namespace OptionalContents

variable (c : OptionalContents) (old : EpsMobileId)

theorem nodup_optionalTags : optionalTags.Nodup := by decide

theorem beforeCm3_sound : ∀ e ∈ c.beforeCm3 old, e.Sound tagOf := by
  simp only [beforeCm3, List.forall_mem_cons]
  exact ⟨(Format.additionalGuti_sound old).element _, (Format.area_sound rfl).element _,
    Format.drxParam_sound.element _, Format.msNetworkCap_sound.element _,
    (Format.area_sound rfl).element _, (Format.halfOctet_sound (by decide) (by decide)).element _,
    Format.msCm2_sound.element _, fun _ h => absurd h List.not_mem_nil⟩

theorem behindCodecs_sound : ∀ e ∈ c.behindCodecs, e.Sound tagOf := by
  simp only [behindCodecs, List.forall_mem_cons]
  exact ⟨(Format.halfOctet_sound (by decide) (by decide)).element _,
    Format.voiceDomainPref_sound.element _,
    (Format.halfOctet_sound (by decide) (by decide)).element _,
    (Format.halfOctet_sound (by decide) (by decide)).element _,
    fun _ h => absurd h List.not_mem_nil⟩

theorem behindSignature_tagged : ∀ e ∈ c.behindSignature old, e.Tagged tagOf := by
  intro e he
  rcases List.mem_append.mp he with hbefore | hbehind
  · exact (c.beforeCm3_sound old e hbefore).tagged
  · rcases List.mem_cons.mp hbehind with rfl | hbehind
    · exact Format.Tagged.element (fun a => ⟨_, _, rfl, rfl⟩) c.msCm3
    rcases List.mem_cons.mp hbehind with rfl | hbehind
    · exact Format.Tagged.element (fun a => ⟨_, _, rfl, rfl⟩) c.supportedCodecs
    · exact (c.behindCodecs_sound e hbehind).tagged

theorem forall_tag_ne {t : UInt8} {es : List (Element UInt8)} :
    (∀ e ∈ es, t ≠ e.tag) ↔ t ∉ es.map Element.tag := by
  constructor
  · intro h hmem
    obtain ⟨e, he, htag⟩ := List.mem_map.mp hmem
    exact h e he htag.symm
  · intro h e he htag
    exact h (List.mem_map.mpr ⟨e, he, htag.symm⟩)

/-- Neither signature nor classmark 3, and all bitmaps have two octets: all elements are read
as they were written. -/
theorem recognised_sound {m : Nat → UInt8} {q : Nat} (hsig : c.oldPTmsiSignature = none)
    (hcm3 : c.msCm3 = none) (hcodecs : ∀ list ∈ c.supportedCodecs, list.Plain)
    (h : Reads m q c.encode) :
    Recognised tagOf (c.elements old) m q
      ↔ Behind tagOf (m (q + c.encode.length)) (c.elements default) := by
  have hsound : ∀ e ∈ c.elements old, e.Sound tagOf := by
    intro e he
    rcases List.mem_cons.mp he with rfl | he
    · rw [hsig]
      exact Element.sound_of_absent rfl
    rcases List.mem_append.mp he with hbefore | hbehind
    · exact c.beforeCm3_sound old e hbefore
    rcases List.mem_cons.mp hbehind with rfl | hbehind
    · rw [hcm3]
      exact Element.sound_of_absent rfl
    rcases List.mem_cons.mp hbehind with rfl | hbehind
    · exact Format.supportedCodecs_sound hcodecs
    · exact c.behindCodecs_sound e hbehind
  exact recognised_iff hsound nodup_optionalTags h

/-- **With a codec list** and neither signature nor classmark 3, the code cuts it into fours
and goes on behind the last one. -/
theorem recognised_codecs {m : Nat → UInt8} {q : Nat} {list : CodecsContents}
    (hsig : c.oldPTmsiSignature = none) (hcm3 : c.msCm3 = none)
    (hcodecs : c.supportedCodecs = some list) (h : Reads m q c.encode) :
    Recognised tagOf (c.elements old) m q
      ↔ list.ReadInFours ∧ Recognised tagOf c.behindCodecs m
          (q + (encoding (c.beforeCm3 old)).length + 2 + list.octets.length / 4 * 4) := by
  have hoctets : (Format.supportedCodecs.element c.supportedCodecs).octets
      = some (Format.supportedCodecs.encode list) := by
    rw [hcodecs]
    rfl
  have hsigNone : (Format.oldPTmsiSignature.element c.oldPTmsiSignature).octets = none := by
    rw [hsig]
    rfl
  have hcm3None : (Format.msCm3.element c.msCm3).octets = none := by
    rw [hcm3]
    rfl
  let front := Format.oldPTmsiSignature.element c.oldPTmsiSignature
    :: (c.beforeCm3 old ++ [Format.msCm3.element c.msCm3])
  have hfront : encoding front = encoding (c.beforeCm3 old) := by
    rw [encoding_cons_none hsigNone, encoding_append, encoding_cons_none hcm3None]
    exact List.append_nil _
  have helements : c.elements old
      = front ++ Format.supportedCodecs.element c.supportedCodecs :: c.behindCodecs := by
    simp [front, elements, behindSignature, behindCm3]
  have henc : Reads m q (encoding front
      ++ (Format.supportedCodecs.encode list ++ encoding c.behindCodecs)) := by
    rw [← encoding_cons_some hoctets, ← encoding_append, ← helements]
    exact h
  have hat : m (q + (encoding front).length) = supportedCodecListIei := henc.right.left.head
  have hsound : ∀ e ∈ front, e.Sound tagOf := by
    refine List.forall_mem_cons.mpr ⟨Element.sound_of_absent hsigNone, fun e he => ?_⟩
    rcases List.mem_append.mp he with he | he
    · exact c.beforeCm3_sound old e he
    · rw [List.mem_singleton.mp he]
      exact Element.sound_of_absent hcm3None
  have hnd : (front.map Element.tag).Nodup := (by decide : (optionalTags.take 9).Nodup)
  have hend : ∀ e ∈ front, tagOf (m (q + (encoding front).length)) ≠ e.tag := by
    rw [hat, forall_tag_ne]
    exact (by decide : tagOf supportedCodecListIei ∉ optionalTags.take 9)
  have htag : tagOf (m (q + (encoding front).length))
      = (Format.supportedCodecs.element c.supportedCodecs).tag := by
    rw [hat]
    rfl
  obtain ⟨hread, hnext⟩ := Format.supportedCodecs_read list henc.right.left
  rw [helements, recognised_append hsound hnd henc.left hend, recognised_cons_of_tag htag, hoctets]
  have hright : (Format.supportedCodecs.element c.supportedCodecs).Right m
      (q + (encoding front).length) ↔ list.ReadInFours := by
    rw [hcodecs]
    show (∀ a ∈ some list, List.Forall₂ Codec.Is a.codecs
      (Format.supportedCodecs.read m (q + (encoding front).length))) ↔ _
    rw [hread]
    exact ⟨fun hall => hall list rfl, fun hfours a ha => Option.some.inj ha ▸ hfours⟩
  have hgo : (Format.supportedCodecs.element c.supportedCodecs).next m
      (q + (encoding front).length)
        = q + (encoding (c.beforeCm3 old)).length + 2 + list.octets.length / 4 * 4 := by
    rw [← hfront]
    exact hnext
  rw [hright, hgo]
  exact and_congr_left' (and_iff_right rfl)

/-- **Neither signature nor classmark 3.** -/
theorem recognised_plain {m : Nat → UInt8} {q : Nat} (hsig : c.oldPTmsiSignature = none)
    (hcm3 : c.msCm3 = none) (h : Reads m q c.encode) :
    Recognised tagOf (c.elements old) m q ↔ c.PlainClear m q := by
  unfold PlainClear
  cases hcodecs : c.supportedCodecs with
  | none => exact c.recognised_sound old hsig hcm3 (by simp [hcodecs]) h
  | some list =>
      by_cases hplain : list.Plain
      · simp only [if_pos hplain]
        exact c.recognised_sound old hsig hcm3 (by simpa [hcodecs] using hplain) h
      · simp only [if_neg hplain]
        exact c.recognised_codecs old hsig hcm3 hcodecs h

/-- The three octets of a signature and the one behind them are read as a number. -/
theorem signature_read {m : Nat → UInt8} {p : Nat} (v : Fin (2 ^ 24))
    (h : Reads m p (store .big 3 v)) :
    (be32 m p).toNat = v ↔ v = 0 ∧ m (p + 3) = 0 := by
  have h0 : m p = UInt8.ofNat (v.val / 256 / 256) := h.head
  have h1 : m (p + 1) = UInt8.ofNat (v.val / 256) := h.tail.head
  have h2 : m (p + 2) = UInt8.ofNat v.val := h.tail.tail.head
  have hv := v.isLt
  rw [toNat_be32, h0, h1, h2, Fin.ext_iff, ← UInt8.toNat_inj]
  simp only [UInt8.toNat_ofNat', Fin.val_zero, UInt8.toNat_zero]
  omega

/-- **With a signature.** It is read together with the octet behind it. -/
theorem recognised_signature {m : Nat → UInt8} {q : Nat} {v : Fin (2 ^ 24)}
    (hsig : c.oldPTmsiSignature = some v) (h : Reads m q c.encode) :
    Recognised tagOf (c.elements old) m q
      ↔ v = 0 ∧ AllAbsent (c.behindSignature old) ∧ m (q + 4) = 0 ∧
        tagOf (m (q + 5)) ∉ optionalTags.tail := by
  have hoctets : (Format.oldPTmsiSignature.element c.oldPTmsiSignature).octets
      = some (pTmsiSignatureIei :: store .big 3 v) := by
    rw [hsig]
    rfl
  have henc : Reads m q ((pTmsiSignatureIei :: store .big 3 v)
      ++ encoding (c.behindSignature old)) := by
    rw [← encoding_cons_some hoctets]
    exact h
  have htag : tagOf (m q) = (Format.oldPTmsiSignature.element c.oldPTmsiSignature).tag := by
    rw [henc.head]
    rfl
  have hread := signature_read v henc.left.tail
  have hlater : Reads m (q + 4) (encoding (c.behindSignature old)) := by
    have := henc.right
    rwa [List.length_cons, length_store] at this
  have hright : (Format.oldPTmsiSignature.element c.oldPTmsiSignature).octets.isSome ∧
      (Format.oldPTmsiSignature.element c.oldPTmsiSignature).Right m q
        ↔ v = 0 ∧ m (q + 4) = 0 := by
    rw [← hread, hoctets, hsig]
    constructor
    · exact fun h => h.2 v rfl
    · intro h
      refine ⟨rfl, fun a ha => ?_⟩
      rw [← Option.some.inj ha]
      exact h
  rw [elements, recognised_cons_of_tag htag, hright]
  show (v = 0 ∧ m (q + 4) = 0) ∧ Recognised tagOf (c.behindSignature old) m (q + 5) ↔ _
  constructor
  · rintro ⟨⟨hv, hzero⟩, hrest⟩
    have habs : AllAbsent (c.behindSignature old) := by
      by_contra hne
      obtain ⟨e, he, htag⟩ := exists_first_tag (c.behindSignature_tagged old) hne hlater
      have hmem : tagOf (m (q + 4)) ∈ optionalTags.tail := by
        rw [htag]
        exact List.mem_map_of_mem he
      rw [hzero] at hmem
      exact absurd hmem (by decide)
    rw [habs.recognised_iff, forall_tag_ne] at hrest
    exact ⟨hv, habs, hzero, hrest⟩
  · rintro ⟨hv, habs, hzero, hrest⟩
    rw [habs.recognised_iff, forall_tag_ne]
    exact ⟨⟨hv, hzero⟩, hrest⟩

/-- **With classmark 3** and no signature, what the code finds behind the elements in front of
it depends on the octets from its length octet on. -/
theorem recognised_cm3 {m : Nat → UInt8} {q : Nat} {cm3 : Classmark3Contents}
    (hsig : c.oldPTmsiSignature = none) (hcm3 : c.msCm3 = some cm3) (h : Reads m q c.encode) :
    m (q + (encoding (c.beforeCm3 old)).length + 1) = UInt8.ofNat cm3.octets.length ∧
      (Recognised tagOf (c.elements old) m q
        ↔ Recognised tagOf c.behindCm3 m (q + (encoding (c.beforeCm3 old)).length + 1)) := by
  have hoctets : (Format.msCm3.element c.msCm3).octets
      = some (msClassmark3Iei :: withLength cm3.octets) := by
    rw [hcm3]
    rfl
  have hsigNone : (Format.oldPTmsiSignature.element c.oldPTmsiSignature).octets = none := by
    rw [hsig]
    rfl
  have henc : Reads m q (encoding (c.beforeCm3 old)
      ++ ((msClassmark3Iei :: withLength cm3.octets) ++ encoding c.behindCm3)) := by
    rw [← encoding_cons_some hoctets, ← encoding_append, ← encoding_cons_none hsigNone]
    exact h
  have hcm3At : m (q + (encoding (c.beforeCm3 old)).length) = msClassmark3Iei :=
    henc.right.left.head
  have hsound : ∀ e ∈ Format.oldPTmsiSignature.element c.oldPTmsiSignature :: c.beforeCm3 old,
      e.Sound tagOf :=
    List.forall_mem_cons.mpr ⟨Element.sound_of_absent hsigNone, c.beforeCm3_sound old⟩
  have hnd : ((Format.oldPTmsiSignature.element c.oldPTmsiSignature
      :: c.beforeCm3 old).map Element.tag).Nodup :=
    (by decide : (optionalTags.take 8).Nodup)
  have hfront : encoding (Format.oldPTmsiSignature.element c.oldPTmsiSignature
      :: c.beforeCm3 old) = encoding (c.beforeCm3 old) := encoding_cons_none hsigNone
  have hend : ∀ e ∈ Format.oldPTmsiSignature.element c.oldPTmsiSignature :: c.beforeCm3 old,
      tagOf (m (q + (encoding (c.beforeCm3 old)).length)) ≠ e.tag := by
    rw [hcm3At, forall_tag_ne]
    exact (by decide : tagOf msClassmark3Iei ∉ optionalTags.take 8)
  have hsplit : Recognised tagOf (c.elements old) m q
      ↔ Recognised tagOf (Format.msCm3.element c.msCm3 :: c.behindCm3) m
          (q + (encoding (Format.oldPTmsiSignature.element c.oldPTmsiSignature
            :: c.beforeCm3 old)).length) :=
    recognised_append hsound hnd (by rw [hfront]; exact henc.left) (by rw [hfront]; exact hend)
  refine ⟨henc.right.left.tail.head, ?_⟩
  have htag : tagOf (m (q + (encoding (c.beforeCm3 old)).length))
      = (Format.msCm3.element c.msCm3).tag := by
    rw [hcm3At]
    rfl
  rw [hfront, recognised_cons_of_tag htag, hoctets] at hsplit
  exact hsplit.trans (and_iff_right ⟨rfl, fun _ _ => trivial⟩)

/-- A small length octet is no tag of an element behind classmark 3. -/
theorem length_not_tag : ∀ n < 0x40, tagOf (UInt8.ofNat n) ∉ optionalTags.drop 9 := by decide

/-- **The optional elements are recognised if and only if they can be read.** -/
theorem recognised_elements {m : Nat → UInt8} {q : Nat} (h : Reads m q c.encode) :
    Recognised tagOf (c.elements old) m q ↔ c.Clear m q := by
  unfold Clear
  cases hsig : c.oldPTmsiSignature with
  | some v =>
      rw [c.recognised_signature old hsig h]
      rfl
  | none =>
      cases hcm3 : c.msCm3 with
      | none => exact c.recognised_plain old hsig hcm3 h
      | some cm3 =>
          obtain ⟨hlength, hiff⟩ := c.recognised_cm3 old hsig hcm3 h
          rw [hiff]
          by_cases hsmall : cm3.octets.length < 0x40
          · simp only [if_pos hsmall]
            apply recognised_of_ne
            rw [hlength, forall_tag_ne]
            exact length_not_tag _ hsmall
          · simp only [if_neg hsmall]
            rfl

end OptionalContents

/-! ## The mandatory part -/

/-- The octets of the UE network capability behind the second one. Each of them may be left
out together with those behind it, and behind the last one there may be spare ones. -/
inductive CapabilityRest where
  | nothing
  | upToUea (uea : Bits 8)
  | upToUia (uea uia : Bits 8)
  | upToNf (uea uia : Bits 8) (spare lpp lcs onexsrvcc nf : UInt8)
      (fits : Fits [(4, spare), (1, lpp), (1, lcs), (1, onexsrvcc), (1, nf)])
      (more : List UInt8) (length_le : more.length ≤ 8)

namespace CapabilityRest

def octets : CapabilityRest → List UInt8
  | nothing => []
  | upToUea uea => [octet uea.row]
  | upToUia uea uia => [octet uea.row, octet uia.row]
  | upToNf uea uia spare lpp lcs onexsrvcc nf _ more _ =>
      [octet uea.row, octet uia.row,
        octet [(4, spare), (1, lpp), (1, lcs), (1, onexsrvcc), (1, nf)]] ++ more

/-- The structure with these contents in it. The first flag of the octet with UIA is UCS2. -/
def record (old : UeNetworkCapability) : CapabilityRest → UeNetworkCapability
  | nothing =>
      { old with
        ueaPresent := false, ucs2Present := false, uiaPresent := false, lppPresent := false,
        lcsPresent := false, onexsrvccPresent := false, nfPresent := false }
  | upToUea uea =>
      { old with
        uea := uea.toList, ueaPresent := true, ucs2Present := false, uiaPresent := false,
        lppPresent := false, lcsPresent := false, onexsrvccPresent := false,
        nfPresent := false }
  | upToUia uea uia =>
      { old with
        uea := uea.toList, ueaPresent := true, ucs2 := uia.toList.getD 0 0, ucs2Present := true,
        uia := uia.toList.tail, uiaPresent := true, lppPresent := false, lcsPresent := false,
        onexsrvccPresent := false, nfPresent := false }
  | upToNf uea uia _ lpp lcs onexsrvcc nf _ _ _ =>
      { old with
        uea := uea.toList, ueaPresent := true, ucs2 := uia.toList.getD 0 0, ucs2Present := true,
        uia := uia.toList.tail, uiaPresent := true, lpp := lpp, lppPresent := true, lcs := lcs,
        lcsPresent := true, onexsrvcc := onexsrvcc, onexsrvccPresent := true, nf := nf,
        nfPresent := true }

/-- The code takes all of the octet but its last bit for the NF flag, which is that bit. -/
def NfRead : CapabilityRest → Prop
  | upToNf _ _ spare lpp lcs onexsrvcc nf _ _ _ =>
      spare = 0 ∧ lpp = 0 ∧ lcs = 0 ∧ onexsrvcc = nf
  | _ => True

end CapabilityRest

structure CapabilityContents where
  eea : Bits 8
  eia : Bits 8
  rest : CapabilityRest

namespace CapabilityContents

def octets (c : CapabilityContents) : List UInt8 :=
  [octet c.eea.row, octet c.eia.row] ++ c.rest.octets

/-- The structure with these contents in it. -/
def record (c : CapabilityContents) (old : UeNetworkCapability) : UeNetworkCapability :=
  c.rest.record { old with eea := c.eea.toList, eia := c.eia.toList }

theorem length_octets (c : CapabilityContents) :
    2 ≤ c.octets.length ∧ c.octets.length < 2 ^ 8 := by
  obtain ⟨eea, eia, rest⟩ := c
  cases rest with
  | nothing => exact (by decide : 2 ≤ 2 ∧ 2 < 2 ^ 8)
  | upToUea uea => exact (by decide : 2 ≤ 3 ∧ 3 < 2 ^ 8)
  | upToUia uea uia => exact (by decide : 2 ≤ 4 ∧ 4 < 2 ^ 8)
  | upToNf uea uia spare lpp lcs onexsrvcc nf fits more length_le =>
      simp only [octets, CapabilityRest.octets, List.length_append, List.length_cons,
        List.length_nil]
      omega

end CapabilityContents

/-- The last octet without its last bit is that bit only if the flags are so. -/
theorem shift_one_eq_nf {spare lpp lcs onexsrvcc nf : UInt8}
    (fits : Fits [(4, spare), (1, lpp), (1, lcs), (1, onexsrvcc), (1, nf)]) :
    nf = octet [(4, spare), (1, lpp), (1, lcs), (1, onexsrvcc), (1, nf)] >>> 1
      ↔ spare = 0 ∧ lpp = 0 ∧ lcs = 0 ∧ onexsrvcc = nf := by
  have hoctet : (octet [(4, spare), (1, lpp), (1, lcs), (1, onexsrvcc), (1, nf)]).toNat
      = spare.toNat * 16 + (lpp.toNat * 8 + (lcs.toNat * 4 + (onexsrvcc.toNat * 2
        + (nf.toNat * 1 + 0)))) := toNat_octet fits (Nat.le_refl 8)
  simp only [fits_cons] at fits
  obtain ⟨hspare, hlpp, hlcs, hsrvcc, hnf, -⟩ := fits
  have hone : (1 : UInt8).toNat % 8 = 1 := rfl
  simp only [← UInt8.toNat_inj, UInt8.toNat_shiftRight, hoctet, hone, UInt8.toNat_zero,
    Nat.shiftRight_eq_div_pow]
  omega

/-- **The UE network capability is unpacked**, and the NF flag if all of the octet but its
last bit is that flag. -/
theorem mmeUnpackUeNetworkCapabilityIe_encode (c : CapabilityContents) {m : Nat → UInt8} {p : Nat}
    (old : UeNetworkCapability) (h : Reads m p (withLength c.octets)) :
    (mmeUnpackUeNetworkCapabilityIe m p old).2 = p + (withLength c.octets).length ∧
      (c.record (mmeUnpackUeNetworkCapabilityIe m p old).1
          = (mmeUnpackUeNetworkCapabilityIe m p old).1 ↔ c.rest.NfRead) := by
  obtain ⟨htwo, hlt⟩ := c.length_octets
  have hlength : (m p).toNat = c.octets.length := by
    rw [h.head, UInt8.toNat_ofNat', Nat.mod_eq_of_lt hlt]
  refine ⟨?_, ?_⟩
  · rw [mmeUnpackUeNetworkCapabilityIe_pointer, hlength, length_withLength, max_eq_left htwo]
    omega
  obtain ⟨eea, eia, rest⟩ := c
  have heea : bits8 (m (p + 1)) = eea.toList := by
    rw [h.tail.head]
    exact bits8_row eea
  have heia : bits8 (m (p + 2)) = eia.toList := by
    rw [h.tail.tail.head]
    exact bits8_row eia
  have hrest : Reads m (p + 3) rest.octets := h.tail.tail.tail
  cases rest with
  | nothing =>
      have hn : (m p).toNat = 2 := hlength
      simp only [mmeUnpackUeNetworkCapabilityIe, hn, heea, heia, CapabilityContents.record,
        CapabilityRest.record, CapabilityRest.NfRead]
      simp
  | upToUea uea =>
      have hn : (m p).toNat = 3 := hlength
      have huea : bits8 (m (p + 3)) = uea.toList := by
        rw [hrest.head]
        exact bits8_row uea
      simp only [mmeUnpackUeNetworkCapabilityIe, hn, heea, heia, CapabilityContents.record,
        CapabilityRest.record, CapabilityRest.NfRead]
      simp [huea]
  | upToUia uea uia =>
      have hn : (m p).toNat = 4 := hlength
      have huea : bits8 (m (p + 3)) = uea.toList := by
        rw [hrest.head]
        exact bits8_row uea
      have huia : bits8 (m (p + 4)) = uia.toList := by
        rw [hrest.tail.head]
        exact bits8_row uia
      have hucs2 : bit (m (p + 4)) 7 = uia.toList.getD 0 0 := by
        rw [← huia]
        rfl
      simp only [mmeUnpackUeNetworkCapabilityIe, hn, heea, heia, CapabilityContents.record,
        CapabilityRest.record, CapabilityRest.NfRead]
      simp [huea, huia, hucs2]
  | upToNf uea uia spare lpp lcs onexsrvcc nf fits more length_le =>
      have hn : (m p).toNat = 5 + more.length := by
        rw [hlength]
        simp only [CapabilityContents.octets, CapabilityRest.octets, List.length_append,
          List.length_cons, List.length_nil]
        omega
      have huea : bits8 (m (p + 3)) = uea.toList := by
        rw [hrest.head]
        exact bits8_row uea
      have huia : bits8 (m (p + 4)) = uia.toList := by
        rw [hrest.tail.head]
        exact bits8_row uia
      have hucs2 : bit (m (p + 4)) 7 = uia.toList.getD 0 0 := by
        rw [← huia]
        rfl
      have hlast : m (p + 5) = octet [(4, spare), (1, lpp), (1, lcs), (1, onexsrvcc), (1, nf)] :=
        hrest.tail.tail.head
      have hlpp : bit (m (p + 5)) 3 = lpp := by
        rw [hlast]
        exact bit_octet [(4, spare)] lpp [(1, lcs), (1, onexsrvcc), (1, nf)] fits rfl
      have hlcs : bit (m (p + 5)) 2 = lcs := by
        rw [hlast]
        exact bit_octet [(4, spare), (1, lpp)] lcs [(1, onexsrvcc), (1, nf)] fits rfl
      have hsrvcc : bit (m (p + 5)) 1 = onexsrvcc := by
        rw [hlast]
        exact bit_octet [(4, spare), (1, lpp), (1, lcs)] onexsrvcc [(1, nf)] fits rfl
      have hnf := shift_one_eq_nf fits
      rw [← hlast] at hnf
      have h2 : 2 < 5 + more.length := by omega
      have h3 : 3 < 5 + more.length := by omega
      have h4 : 4 < 5 + more.length := by omega
      simp only [mmeUnpackUeNetworkCapabilityIe, hn, heea, heia, CapabilityContents.record,
        CapabilityRest.record, CapabilityRest.NfRead, gt_iff_lt, if_pos h2, if_pos h3, if_pos h4,
        huea, huia, hucs2, hlpp, hlcs, hsrvcc]
      rw [← hnf]
      simp

/-! ## The message -/

/-- The body of an attach request. -/
structure AttachContents where
  tscFlag : UInt8
  nasKsi : UInt8
  epsAttachType : UInt8
  fits : Fits [(1, tscFlag), (3, nasKsi), (1, 0), (3, epsAttachType)]
  epsMobileId : EpsIdentity
  ueNetworkCap : CapabilityContents
  esmMsg : List UInt8
  length_le : esmMsg.length ≤ liblteMaxMsgSizeBytes
  optional : OptionalContents

namespace AttachContents

/-- The mandatory part. -/
def mandatory (c : AttachContents) : List UInt8 :=
  octet [(1, c.tscFlag), (3, c.nasKsi), (1, 0), (3, c.epsAttachType)] ::
    (c.epsMobileId.encode ++ (withLength c.ueNetworkCap.octets
      ++ (store .big 2 c.esmMsg.length ++ c.esmMsg)))

def encode (c : AttachContents) : List UInt8 := c.mandatory ++ c.optional.encode

end AttachContents

/-- The mandatory part is decoded. -/
@[mk_iff]
structure MandatoryDecoded (c : AttachContents) (r : AttachRequest) : Prop where
  epsAttachType : r.epsAttachType = c.epsAttachType
  nasKsi : r.nasKsi = ⟨c.tscFlag, c.nasKsi⟩
  epsMobileId : c.epsMobileId.record r.epsMobileId = r.epsMobileId
  esmMsg : r.esmMsg.nBytes = c.esmMsg.length ∧ Reads r.esmMsg.msg 0 c.esmMsg
  ueNetworkCap : c.ueNetworkCap.record r.ueNetworkCap = r.ueNetworkCap

/-- The unpacker of the ESM message container copies it. -/
theorem mmeUnpackEsmMessageContainerIe_encode {l : List UInt8}
    (hl : l.length ≤ liblteMaxMsgSizeBytes) {m : Nat → UInt8} {p : Nat} (old : SimpleByteMsg)
    (h : Reads m p (store .big 2 l.length ++ l)) :
    let r := mmeUnpackEsmMessageContainerIe m p old
    r.1 = true ∧ r.2.1.nBytes = l.length ∧ Reads r.2.1.msg 0 l ∧ r.2.2 = p + (l.length + 2) := by
  have h0 : m p = UInt8.ofNat (l.length / 256) := h.left.head
  have h1 : m (p + 1) = UInt8.ofNat l.length := h.left.tail.head
  have hbytes : Reads m (p + 2) l := h.right
  have hlength : ((m p).toNat <<< 8) ||| (m (p + 1)).toNat = l.length := by
    unfold liblteMaxMsgSizeBytes at hl
    rw [esmLength_eq, h0, h1, UInt8.toNat_ofNat', UInt8.toNat_ofNat']
    omega
  have hfits : ¬l.length > liblteMaxMsgSizeBytes := Nat.not_lt.mpr hl
  simp only [mmeUnpackEsmMessageContainerIe, hlength, if_neg hfits]
  refine ⟨trivial, trivial, ?_, trivial⟩
  intro k hk
  rw [Nat.zero_add]
  simp only [if_pos hk]
  exact hbytes k hk

/-- **The mandatory part is unpacked**, and the optional part begins behind it. -/
theorem attachMandatory_encode (c : AttachContents) {m : Nat → UInt8} (old : AttachRequest)
    (h : Reads m (bodyOffset m) c.mandatory) :
    let r := attachMandatory m old
    r.1 = true ∧ (MandatoryDecoded c r.2.1 ↔ c.ueNetworkCap.rest.NfRead) ∧
      r.2.2 = bodyOffset m + c.mandatory.length := by
  have hfirst : m (bodyOffset m)
      = octet [(1, c.tscFlag), (3, c.nasKsi), (1, 0), (3, c.epsAttachType)] := h.head
  have htype : m (bodyOffset m) &&& 0x07 = c.epsAttachType := by
    rw [hfirst]
    exact mask_octet [(1, c.tscFlag), (3, c.nasKsi), (1, 0)] 3 c.epsAttachType c.fits rfl
      (by decide)
  have hksi : mmeUnpackNasKeySetIdIe m (bodyOffset m) = ⟨c.tscFlag, c.nasKsi⟩ := by
    have htsc := shift_mask_octet [] 1 c.tscFlag [(3, c.nasKsi), (1, 0), (3, c.epsAttachType)]
      c.fits rfl (by decide)
    have hksi := shift_mask_octet [(1, c.tscFlag)] 3 c.nasKsi [(1, 0), (3, c.epsAttachType)]
      c.fits rfl (by decide)
    rw [mmeUnpackNasKeySetIdIe, hfirst, NasKeySetId.mk.injEq]
    exact ⟨htsc, hksi⟩
  have hid := mmeUnpackEpsMobileIdIe_encode c.epsMobileId old.epsMobileId h.tail.left
  obtain ⟨hcap, hnf⟩ := mmeUnpackUeNetworkCapabilityIe_encode c.ueNetworkCap old.ueNetworkCap
    h.tail.right.left
  obtain ⟨hok, hbytes, hmsg, hend⟩ := mmeUnpackEsmMessageContainerIe_encode c.length_le
    old.esmMsg h.tail.right.right
  simp only [attachMandatory, hid, hcap]
  refine ⟨hok, ?_, ?_⟩
  · rw [mandatoryDecoded_iff, ← hnf]
    constructor
    · rintro ⟨-, -, -, -, hrecord⟩
      exact hrecord
    · intro hrecord
      exact ⟨htype, hksi, c.epsMobileId.record_record _, ⟨hbytes, hmsg⟩, hrecord⟩
  · rw [hend]
    simp only [AttachContents.mandatory, List.length_cons, List.length_append, length_store]
    omega

/-- It depends on what the mandatory part writes only. -/
theorem MandatoryDecoded.congr {c : AttachContents} {r r' : AttachRequest}
    (h : r.mandatory = r'.mandatory) : MandatoryDecoded c r ↔ MandatoryDecoded c r' := by
  simp only [AttachRequest.mandatory, Prod.mk.injEq] at h
  obtain ⟨htype, hksi, hid, hcap, hesm⟩ := h
  rw [mandatoryDecoded_iff, mandatoryDecoded_iff, htype, hksi, hid, hcap, hesm]

/-- **The attach request is decoded**: it is accepted, and both parts are decoded. -/
def AttachDecoded (c : AttachContents) (r : Bool × AttachRequest) : Prop :=
  r.1 = true ∧ MandatoryDecoded c r.2 ∧ OptionalDecoded c.optional r.2

/-- **When an attach request is decoded.** The optional part is decoded if and only if its
elements can be read, and everything is if moreover the NF flag is read. -/
theorem attachRequest_decoded_iff (c : AttachContents) (m : Nat → UInt8) (old : AttachRequest)
    (h : Reads m (bodyOffset m) c.encode) :
    (OptionalDecoded c.optional (mmeUnpackAttachRequestMsg m old).2
      ↔ c.optional.Clear m (bodyOffset m + c.mandatory.length)) ∧
    (AttachDecoded c (mmeUnpackAttachRequestMsg m old)
      ↔ c.ueNetworkCap.rest.NfRead ∧
        c.optional.Clear m (bodyOffset m + c.mandatory.length)) := by
  obtain ⟨hok, hmandatory, hend⟩ := attachMandatory_encode c old h.left
  have hunpack : mmeUnpackAttachRequestMsg m old
      = (true, attachOptional m (attachMandatory m old).2.1
          (bodyOffset m + c.mandatory.length)) := by
    rw [← hend]
    unfold mmeUnpackAttachRequestMsg
    rcases hr : attachMandatory m old with ⟨ok, r, q⟩
    rw [hr] at hok
    cases hok
    rfl
  have hoptional : OptionalDecoded c.optional (mmeUnpackAttachRequestMsg m old).2
      ↔ c.optional.Clear m (bodyOffset m + c.mandatory.length) := by
    rw [hunpack, optionalDecoded_iff_recognised]
    exact c.optional.recognised_elements _ h.right
  refine ⟨hoptional, ?_⟩
  rw [AttachDecoded, hoptional, hunpack, MandatoryDecoded.congr (attachOptional_mandatory m _ _),
    hmandatory]
  exact and_iff_right rfl

/-! ## Samples -/

/-- A request with some optional part. -/
def sampleRequest (optional : OptionalContents) : AttachContents where
  tscFlag := 0
  nasKsi := 7
  epsAttachType := 1
  fits := by decide
  epsMobileId := sampleGuti
  ueNetworkCap :=
    ⟨⟨[1, 1, 1, 0, 0, 0, 0, 0], rfl, by simp⟩, ⟨[0, 1, 1, 0, 0, 0, 0, 0], rfl, by simp⟩,
      .nothing⟩
  esmMsg := [0x02, 0x01, 0xD0, 0x11]
  length_le := by decide
  optional := optional

/-- No optional element. -/
def noOptional : OptionalContents :=
  ⟨none, none, none, none, none, none, none, none, none, none, none, none, none, none⟩

/-- The request as a plain message, and behind it zeros. -/
def sampleMessage (c : AttachContents) : Nat → UInt8 :=
  fun k => ([0x07, nasMsgTypeAttachRequest] ++ c.encode).getD k 0

theorem sampleMessage_reads (c : AttachContents) :
    Reads (sampleMessage c) (bodyOffset (sampleMessage c)) c.encode := by
  have hfirst : sampleMessage c 0 = 0x07 := rfl
  have hoffset : bodyOffset (sampleMessage c) = 0 + [0x07, nasMsgTypeAttachRequest].length := by
    rw [bodyOffset, secHdrType, hfirst]
    rfl
  rw [hoffset]
  exact (reads_getD ([0x07, nasMsgTypeAttachRequest] ++ c.encode)).right

/-- Two codecs whose bitmaps have two octets. -/
def plainCodecs : CodecsContents := ⟨[⟨0x04, [0x60, 0x00]⟩, ⟨0x00, [0x1F, 0x02]⟩], by decide⟩

/-- A visited area, two codecs and the type of the old GUTI. -/
def plainOptional : OptionalContents :=
  { noOptional with
    lastVisitedRegisteredTai := some ⟨samplePlmn, 0x1234⟩
    supportedCodecs := some plainCodecs
    oldGutiType := some true }

/-- A request that is decoded. -/
theorem attachRequest_decoded_iff_plain :
    AttachDecoded (sampleRequest plainOptional)
      (mmeUnpackAttachRequestMsg (sampleMessage (sampleRequest plainOptional)) default) := by
  refine (attachRequest_decoded_iff (sampleRequest plainOptional) _ default
    (sampleMessage_reads _)).2.mpr ⟨trivial, ?_⟩
  have hlist : plainOptional.supportedCodecs = some plainCodecs := rfl
  show plainOptional.PlainClear _ _
  simp only [OptionalContents.PlainClear, hlist, if_pos (by decide : plainCodecs.Plain)]
  simp [plainOptional, noOptional, OptionalContents.elements, OptionalContents.behindSignature,
    OptionalContents.beforeCm3, OptionalContents.behindCm3, OptionalContents.behindCodecs,
    Format.element, Behind, AllAbsent]

/-- Classmark 3, and behind it the additional update type. -/
def cm3Optional : OptionalContents :=
  { noOptional with
    msCm3 := some ⟨[0x60, 0x14], by decide⟩
    additionalUpdateType := some true }

/-- The additional update type is not found behind classmark 3. -/
theorem not_decoded_behind_cm3 :
    ¬∀ (c : AttachContents) (m : Nat → UInt8) (old : AttachRequest),
      Reads m (bodyOffset m) c.encode →
        OptionalDecoded c.optional (mmeUnpackAttachRequestMsg m old).2 := by
  intro h
  have hflag := (h (sampleRequest cm3Optional) _ default
    (sampleMessage_reads _)).additionalUpdateType.1
  exact absurd hflag (by decide +kernel)

end LteUlp.Nas
