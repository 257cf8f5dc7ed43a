import LteUlp.Nas.Footprint

set_option autoImplicit false

/-! # Where the header ends and the body begins

The header parser finds the message type by the security header and the protocol
discriminators; the unpackers find the body by the security header alone. So a header of
session management, whose message type is one octet later, is dispatched to an unpacker that
takes this octet for the first one of the body.
-/

namespace LteUlp.Nas

def mmePdEpsMobilityManagement : UInt8 := 0x7

/-- Where the unpacker starts that `RrcParseNasMsg` calls for a message type. There is none
for a service request. -/
def unpackerStart (t : UInt8) (m : Nat → UInt8) : Option Nat :=
  if t = nasMsgTypeIdentityResponse ∨ t = nasMsgTypeAttachRequest ∨
      t = nasMsgTypeTrackingAreaUpdateRequest ∨ t = nasMsgTypeDetachRequest ∨
      t = nasMsgTypeExtendedServiceRequest then
    some (bodyOffset m)
  else none

/-- The message type was read right before the body, in a header of mobility management. -/
structure HeaderAgrees (m : Nat → UInt8) (start : Nat) : Prop where
  offset : typeOffset m + 1 = start
  discriminator : m (start - 2) &&& 0x0F = mmePdEpsMobilityManagement

/-- The discriminators are those of a message of mobility management: the one of the plain
header, and in front of a protected message the outer one is not that of session
management. -/
def MobilityHeader (m : Nat → UInt8) : Prop :=
  if secHdrType m = mmeSecurityHdrTypePlainNas then m 0 &&& 0x0F = mmePdEpsMobilityManagement
  else m 0 &&& 0x0F ≠ mmePdEpsSessionManagement ∧ m 6 &&& 0x0F = mmePdEpsMobilityManagement

section Header

variable {m : Nat → UInt8} {start : Nat}

theorem unpackerStart_eq {t : UInt8} (h : unpackerStart t m = some start) :
    start = bodyOffset m := by
  unfold unpackerStart at h
  split at h
  · exact (Option.some.inj h).symm
  · simp at h

/-- An outer discriminator of session management puts the type at the octet 2, where a plain
message has its body. -/
theorem typeOffset_session (h : m 0 &&& 0x0F = mmePdEpsSessionManagement) :
    typeOffset m = 2 := by
  unfold typeOffset
  rw [if_pos h]

theorem headerAgrees_plain (hplain : secHdrType m = mmeSecurityHdrTypePlainNas) :
    HeaderAgrees m (bodyOffset m) ↔ m 0 &&& 0x0F = mmePdEpsMobilityManagement := by
  have hstart : bodyOffset m = 2 := by
    unfold bodyOffset
    rw [if_pos hplain]
  rw [hstart]
  constructor
  · exact fun h => h.discriminator
  · intro h
    have hpd : m 0 &&& 0x0F ≠ mmePdEpsSessionManagement := by
      rw [h]
      decide
    refine ⟨?_, h⟩
    unfold typeOffset
    rw [if_neg hpd, if_pos hplain]

theorem headerAgrees_protected (hsec : secHdrType m ≠ mmeSecurityHdrTypePlainNas) :
    HeaderAgrees m (bodyOffset m) ↔ m 0 &&& 0x0F ≠ mmePdEpsSessionManagement ∧
      m 6 &&& 0x0F = mmePdEpsMobilityManagement := by
  have hstart : bodyOffset m = 8 := by
    unfold bodyOffset
    rw [if_neg hsec]
  rw [hstart]
  constructor
  · rintro ⟨hoffset, hpd⟩
    refine ⟨fun hsession => ?_, hpd⟩
    rw [typeOffset_session hsession] at hoffset
    omega
  · rintro ⟨houter, hpd⟩
    have hinner : m 6 &&& 0x0F ≠ mmePdEpsSessionManagement := by
      rw [hpd]
      decide
    refine ⟨?_, hpd⟩
    unfold typeOffset
    rw [if_neg houter, if_neg hsec, if_neg hinner]

/-- **Header and body agree** exactly for the discriminators of mobility management. -/
theorem headerAgrees_iff (h : unpackerStart (mmeParseMsgHeader m).2 m = some start) :
    ((mmeParseMsgHeader m).2 = m (typeOffset m) ∧ HeaderAgrees m start) ↔ MobilityHeader m := by
  obtain rfl := unpackerStart_eq h
  -- a service request has no message type of its own, and no unpacker
  have htype : (mmeParseMsgHeader m).2 = m (typeOffset m) := by
    rw [mmeParseMsgHeader_snd] at h ⊢
    by_cases hs : secHdrType m = mmeSecurityHdrTypeServiceRequest
    · rw [if_pos hs] at h
      exact absurd h (by simp [unpackerStart, mmeSecurityHdrTypeServiceRequest,
        nasMsgTypeIdentityResponse, nasMsgTypeAttachRequest,
        nasMsgTypeTrackingAreaUpdateRequest, nasMsgTypeDetachRequest,
        nasMsgTypeExtendedServiceRequest])
    · rw [if_neg hs]
  rw [and_iff_right htype]
  unfold MobilityHeader
  by_cases hplain : secHdrType m = mmeSecurityHdrTypePlainNas
  · rw [if_pos hplain]
    exact headerAgrees_plain hplain
  · rw [if_neg hplain]
    exact headerAgrees_protected hplain

end Header

/-- A protected attach request. -/
theorem headerAgrees_attach :
    let m : Nat → UInt8 := fun k => [0x17, 0, 0, 0, 0, 0, 0x07, 0x41].getD k 0
    HeaderAgrees m 8 :=
  ((headerAgrees_iff (m := fun k => [0x17, 0, 0, 0, 0, 0, 0x07, 0x41].getD k 0)
    (by decide)).mpr (by simp [MobilityHeader]; decide)).2

/-- The octet 2 of a plain session management message is taken for the type of an attach
request, and for the first octet of its body. -/
theorem headerAgrees_session :
    ¬∀ (m : Nat → UInt8) (start : Nat), unpackerStart (mmeParseMsgHeader m).2 m = some start →
      HeaderAgrees m start := by
  intro h
  have hagrees := h (fun k => [0x02, 0x01, 0x41, 0x08].getD k 0) 2 (by decide)
  exact absurd hagrees.offset (by decide)

end LteUlp.Nas
