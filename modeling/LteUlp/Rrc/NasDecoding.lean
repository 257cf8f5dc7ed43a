import LteUlp.Nas.Footprint
import LteUlp.Rrc.Model

set_option autoImplicit false
set_option linter.unusedSectionVars false

/-! # What a NAS message does to the RRC contexts

`rrcParseNasMsg` works on a buffer and on structures that are not cleared. `nasEffect` is
what it does in terms of the decoded message alone, and `rrcParseNasMsg_eq` says that the
two are the same. So the effect depends on the payload if what is decoded does: that is,
exactly if all that the decoders read is part of the payload.
-/

namespace LteUlp.Rrc

open BlockStore LteUlp.Nas

section Effect

variable {β : Type} [DecidableEq β] (env : Platform β)

/-! ## The effect of a decoded message -/

/-- Record an identity in a context. -/
def recordIdentity (msgType : UInt8) (s : RrcState β) (a : β) :
    Identity → RrcState β × Option β
  | .mTmsi v => rrcUpdateMTmsi env s a v msgType
  | .imsi digits => rrcUpdateImsi env s a digits msgType
  | .other => (s, some a)

/-- The effect of a request that carries an identity, or is refused. -/
def requestEffect (size : Nat) (count : LteKpi → LteKpi) (msgType : UInt8) (s : RrcState β)
    (rnti : UInt16) (identity : Option Identity) : RrcState β :=
  match s.alloc env size with
  | (s, none) => s
  | (s, some req) =>
      match identity with
      | none => s.free req
      | some i =>
          match rrcFindOrCreate env (s.countKpi count) rnti with
          | (s, none) => s.free req
          | (s, some a) => (recordIdentity env msgType s a i).1.free req

/-- The effect of an identity response. Only an IMSI is recorded. -/
def identityResponseEffect (s : RrcState β) (rnti : UInt16) (identity : Option Identity) :
    RrcState β :=
  match s.alloc env (env.sizeof .idResponse) with
  | (s, none) => s
  | (s, some idResp) =>
      match identity with
      | none => s.free idResp
      | some i =>
          let s := s.countKpi fun kpi => { kpi with idResp := kpi.idResp + 1 }
          match i with
          | .imsi digits =>
              match rrcFindOrCreate env s rnti with
              | (s, none) => s.free idResp
              | (s, some a) => (rrcUpdateImsi env s a digits noMsgType).1.free idResp
          | _ => s.free idResp

/-- **The effect of a NAS message** of the given type with the given identity. -/
def nasEffect (s : RrcState β) (rnti : UInt16) (d : UInt8 × Option Identity) : RrcState β :=
  if d.1 = nasMsgTypeIdentityResponse then identityResponseEffect env s rnti d.2
  else if d.1 = nasMsgTypeAttachRequest then
    requestEffect env (env.sizeof .attachRequest)
      (fun kpi => { kpi with attachReq := kpi.attachReq + 1 }) attachRequestType s rnti d.2
  else if d.1 = nasMsgTypeTrackingAreaUpdateRequest then
    requestEffect env (env.sizeof .tauRequest)
      (fun kpi => { kpi with tauReq := kpi.tauReq + 1 }) tauRequestType s rnti d.2
  else if d.1 = nasMsgTypeDetachRequest then
    requestEffect env (env.sizeof .detachRequest)
      (fun kpi => { kpi with detachReq := kpi.detachReq + 1 }) detachRequestType s rnti d.2
  else if d.1 = nasMsgTypeExtendedServiceRequest then
    requestEffect env (env.sizeof .extServiceRequest)
      (fun kpi => { kpi with extServReq := kpi.extServReq + 1 }) extServiceRequestType s rnti d.2
  else if d.1 = mmeSecurityHdrTypeServiceRequest then rrcDecodeServiceReq env s rnti
  else s

/-! ### The handlers -/

/-- The identity that a handler takes from an unpacked EPS mobile identity. -/
def chosen (mTmsi : EpsMobileId → Option UInt32) (id : EpsMobileId) : Identity :=
  match mTmsi id with
  | some v => .mTmsi v
  | none => if id.typeOfId = epsMobileIdTypeImsi then .imsi id.imsi else .other

theorem chosen_guti (m : Nat → UInt8) (p : Nat) (id : EpsMobileId) :
    chosen gutiMTmsi (mmeUnpackEpsMobileIdIe m p id).1 = gutiIdentityAt m p := by
  rw [← mmeUnpackEpsMobileIdIe_guti m p id]
  unfold chosen gutiMTmsi
  by_cases h : (mmeUnpackEpsMobileIdIe m p id).1.typeOfId = epsMobileIdTypeGuti
  · rw [if_pos h, if_pos h]
  · rw [if_neg h, if_neg h]

theorem chosen_tmsi (m : Nat → UInt8) (p : Nat) (id : EpsMobileId) :
    chosen tmsiMTmsi (mmeUnpackEpsMobileIdIe m p id).1 = tmsiIdentityAt m p := by
  rw [← mmeUnpackEpsMobileIdIe_tmsi m p id]
  unfold chosen tmsiMTmsi
  by_cases h : (mmeUnpackEpsMobileIdIe m p id).1.typeOfId = epsMobileIdTypeTmsi
  · rw [if_pos h, if_pos h]
  · rw [if_neg h, if_neg h]

theorem rrcDecodeRequest_eq (size : Nat) (count : LteKpi → LteKpi)
    (mTmsi : EpsMobileId → Option UInt32) (msgType : UInt8) (s : RrcState β) (rnti : UInt16)
    (decoded : Option EpsMobileId) :
    rrcDecodeRequest env size count mTmsi msgType s rnti decoded
      = requestEffect env size count msgType s rnti (decoded.map (chosen mTmsi)) := by
  unfold rrcDecodeRequest requestEffect
  rcases s.alloc env size with ⟨s, _ | req⟩
  · rfl
  cases decoded with
  | none => rfl
  | some id =>
      simp only [Option.map_some]
      rcases rrcFindOrCreate env (s.countKpi count) rnti with ⟨s, _ | a⟩
      · rfl
      simp only [chosen]
      cases mTmsi id with
      | some v => rfl
      | none =>
          by_cases hi : id.typeOfId = epsMobileIdTypeImsi
          · simp only [if_pos hi, recordIdentity]
          · simp only [if_neg hi, recordIdentity]

theorem rrcDecodeAttachReq_eq (s : RrcState β) (rnti : UInt16) (m : Nat → UInt8) :
    rrcDecodeAttachReq env s rnti m
      = requestEffect env (env.sizeof .attachRequest)
          (fun kpi => { kpi with attachReq := kpi.attachReq + 1 }) attachRequestType s rnti
          (if EsmFits m then some (gutiIdentityAt m (bodyOffset m + 1)) else none) := by
  obtain ⟨hok, hid⟩ := mmeUnpackAttachRequestMsg_spec m (env.leftover s.mem.clock).attachRequest
  unfold rrcDecodeAttachReq
  rw [rrcDecodeRequest_eq]
  congr 1
  simp only [hok]
  by_cases hf : EsmFits m
  · simp only [hf, decide_true, if_true, Option.map_some]
    rw [hid hf, chosen_guti]
  · simp [hf]

theorem rrcDecodeIdentityResponse_eq (s : RrcState β) (rnti : UInt16) (m : Nat → UInt8) :
    rrcDecodeIdentityResponse env s rnti m
      = identityResponseEffect env s rnti (mobileIdentityAt m (bodyOffset m)) := by
  unfold rrcDecodeIdentityResponse identityResponseEffect
  rcases s.alloc env (env.sizeof .idResponse) with ⟨t, _ | idResp⟩
  · rfl
  simp only [mmeUnpackIdentityResponseMsg, mmeUnpackMobileIdIe, mobileIdentityAt]
  by_cases h1 : m (bodyOffset m + 1) &&& 0x07 = mobileIdTypeImsi
  · rcases rrcFindOrCreate env
        (t.countKpi fun kpi => { kpi with idResp := kpi.idResp + 1 }) rnti with ⟨u, _ | a⟩
    · simp only [if_pos h1, if_true]
    · simp only [if_pos h1, if_true]
  by_cases h2 : m (bodyOffset m + 1) &&& 0x07 = mobileIdTypeImei
  · have hor : m (bodyOffset m + 1) &&& 0x07 = mobileIdTypeImei ∨
        m (bodyOffset m + 1) &&& 0x07 = mobileIdTypeImeisv := Or.inl h2
    simp only [if_neg h1, if_pos h2, if_pos hor, if_true]
  by_cases h3 : m (bodyOffset m + 1) &&& 0x07 = mobileIdTypeImeisv
  · have hor : m (bodyOffset m + 1) &&& 0x07 = mobileIdTypeImei ∨
        m (bodyOffset m + 1) &&& 0x07 = mobileIdTypeImeisv := Or.inr h3
    simp only [if_neg h1, if_neg h2, if_pos h3, if_pos hor, if_true]
  · simp [h1, h2, h3]

/-- **The handlers depend on the decoded message only.** -/
theorem rrcParseNasMsg_eq (s : RrcState β) (rnti : UInt16) (nas : SimpleByteMsg) :
    rrcParseNasMsg env s rnti nas
      = (nasEffect env s rnti (decoded nas.msg), (decoded nas.msg).1) := by
  have hreq : ∀ (size : Nat) (count : LteKpi → LteKpi) (msgType : UInt8) (id : EpsMobileId),
      rrcDecodeRequest env size count gutiMTmsi msgType s rnti
          (some (mmeUnpackEpsMobileIdIe nas.msg (bodyOffset nas.msg + 1) id).1)
        = requestEffect env size count msgType s rnti
            (some (gutiIdentityAt nas.msg (bodyOffset nas.msg + 1))) := by
    intro size count msgType id
    rw [rrcDecodeRequest_eq, Option.map_some, chosen_guti]
  unfold rrcParseNasMsg nasEffect decoded decodedBody
  simp only [Prod.mk.injEq, and_true]
  by_cases h1 : (mmeParseMsgHeader nas.msg).2 = nasMsgTypeIdentityResponse
  · rw [if_pos h1, if_pos h1, if_pos h1]
    exact rrcDecodeIdentityResponse_eq env s rnti nas.msg
  rw [if_neg h1, if_neg h1]
  by_cases h2 : (mmeParseMsgHeader nas.msg).2 = nasMsgTypeAttachRequest
  · rw [if_pos h2, if_pos h2, if_neg h1, if_pos h2]
    exact rrcDecodeAttachReq_eq env s rnti nas.msg
  rw [if_neg h2, if_neg h2]
  by_cases h3 : (mmeParseMsgHeader nas.msg).2 = nasMsgTypeTrackingAreaUpdateRequest
  · rw [if_pos h3, if_pos h3, if_neg h1, if_neg h2, if_pos h3]
    exact hreq _ _ _ _
  rw [if_neg h3, if_neg h3]
  by_cases h4 : (mmeParseMsgHeader nas.msg).2 = nasMsgTypeDetachRequest
  · rw [if_pos h4, if_pos h4, if_neg h1, if_neg h2, if_neg h3, if_pos h4]
    exact hreq _ _ _ _
  rw [if_neg h4, if_neg h4]
  by_cases h5 : (mmeParseMsgHeader nas.msg).2 = nasMsgTypeExtendedServiceRequest
  · rw [if_pos h5, if_pos h5, if_neg h1, if_neg h2, if_neg h3, if_neg h4, if_pos h5]
    unfold rrcDecodeExtServiceReq
    rw [rrcDecodeRequest_eq, Option.map_some]
    exact congrArg _ (congrArg some (chosen_tmsi nas.msg _ _))
  · rw [if_neg h5, if_neg h5]

end Effect

/-! ## A fresh run -/

/-- The identities in the contexts of the main list. -/
def listed {β : Type} (s : RrcState β) : List UeIdentity :=
  s.gRrcUeContextList.map fun a => (s.rrcUeContext a).ueIdentity

/-- The identity of a new context after an update. -/
def written (msgType : UInt8) : Identity → UeIdentity
  | .mTmsi v => { UeIdentity.zero with mTmsiPresent := true, mTmsi := v, msgType := msgType }
  | .imsi digits =>
      { UeIdentity.zero with
        imsiPresent := true, imsi := tmpImsi digits, msgType := msgType }
  | .other => UeIdentity.zero

theorem tmpImsi_injective : Function.Injective tmpImsi := by
  intro x y h
  have hm : x.map (· + 0x30) = y.map (· + 0x30) := List.append_cancel_right h
  exact List.map_injective_iff.mpr (fun a b hab => by simpa using hab) hm

theorem written_injective (msgType : UInt8) : Function.Injective (written msgType) := by
  intro x y h
  cases x <;> cases y <;> simp [written, UeIdentity.zero, tmpImsi_injective.eq_iff] at h ⊢ <;>
    exact h

theorem listed_requestEffect (size : Nat) (count : LteKpi → LteKpi) {msgType : UInt8}
    (ht : msgType ≠ noMsgType) (rnti : UInt16) (i : Option Identity) :
    listed (requestEffect freshPlatform size count msgType freshState rnti i)
      = (i.map (written msgType)).toList := by
  rcases i with _ | _ | _ | _
  · rfl
  all_goals
    simp [listed, requestEffect, rrcFindOrCreate, rrcGetUeContext, rrcCreateUeContext,
      recordIdentity, rrcUpdateMTmsi, rrcUpdateImsi, rrcUpdateIdentity, rrcLiveContext,
      RrcState.alloc, RrcState.free, RrcState.countKpi, RrcState.setContext,
      RrcState.setIdentity, Store.alloc, freshPlatform, freshPolicy, freshState, written, ht,
      UeIdentity.zero]

theorem listed_identityResponseEffect (rnti : UInt16) {i : Option Identity}
    (hi : ∀ v, i ≠ some (.mTmsi v)) :
    listed (identityResponseEffect freshPlatform freshState rnti i)
      = ((if i = some .other then none else i).map (written 0)).toList := by
  rcases i with _ | v | _ | _
  · rfl
  · exact absurd rfl (hi v)
  all_goals
    simp [listed, identityResponseEffect, rrcFindOrCreate, rrcGetUeContext, rrcCreateUeContext,
      rrcUpdateImsi, rrcUpdateIdentity, rrcLiveContext, noMsgType, RrcState.alloc,
      RrcState.free, RrcState.countKpi, RrcState.setContext, RrcState.setIdentity, Store.alloc,
      freshPlatform, freshPolicy, freshState, written, UeIdentity.zero]

theorem mobileIdentityAt_ne_mTmsi (m : Nat → UInt8) (p : Nat) (v : UInt32) :
    mobileIdentityAt m p ≠ some (.mTmsi v) := by
  unfold mobileIdentityAt
  simp only
  split_ifs <;> simp

/-- In a fresh run the contexts tell what was recorded. -/
theorem recorded_of_listed (rnti : UInt16) {m m' : Nat → UInt8}
    (ht : (decoded m).1 = (decoded m').1)
    (h : listed (nasEffect freshPlatform freshState rnti (decoded m))
      = listed (nasEffect freshPlatform freshState rnti (decoded m'))) :
    recorded (decoded m) = recorded (decoded m') := by
  have hinj : ∀ (k : UInt8) {x y : Option Identity},
      (x.map (written k)).toList = (y.map (written k)).toList → x = y := by
    intro k x y he
    have hm : x.map (written k) = y.map (written k) := by
      cases x <;> cases y <;> simp_all
    exact Option.map_injective (written_injective k) hm
  have ht' : (mmeParseMsgHeader m).2 = (mmeParseMsgHeader m').2 := ht
  unfold nasEffect at h
  unfold recorded
  rw [← ht] at h ⊢
  by_cases h1 : (decoded m).1 = nasMsgTypeIdentityResponse
  · have hm : ∀ f : Nat → UInt8, (mmeParseMsgHeader f).2 = nasMsgTypeIdentityResponse →
        ∀ v, (decoded f).2 ≠ some (.mTmsi v) := by
      intro f hf v
      unfold decoded decodedBody
      simp only
      rw [if_pos hf]
      exact mobileIdentityAt_ne_mTmsi f _ v
    rw [if_pos h1, if_pos h1, listed_identityResponseEffect _ (hm m h1),
      listed_identityResponseEffect _ (hm m' (ht'.symm.trans h1))] at h
    simp only [h1, true_and]
    rw [hinj 0 h]
  simp only [h1, false_and, if_false, Prod.mk.injEq, true_and] at h ⊢
  by_cases h2 : (decoded m).1 = nasMsgTypeAttachRequest
  · rw [if_pos h2, if_pos h2, listed_requestEffect _ _ (by decide),
      listed_requestEffect _ _ (by decide)] at h
    exact hinj _ h
  rw [if_neg h2, if_neg h2] at h
  by_cases h3 : (decoded m).1 = nasMsgTypeTrackingAreaUpdateRequest
  · rw [if_pos h3, if_pos h3, listed_requestEffect _ _ (by decide),
      listed_requestEffect _ _ (by decide)] at h
    exact hinj _ h
  rw [if_neg h3, if_neg h3] at h
  by_cases h4 : (decoded m).1 = nasMsgTypeDetachRequest
  · rw [if_pos h4, if_pos h4, listed_requestEffect _ _ (by decide),
      listed_requestEffect _ _ (by decide)] at h
    exact hinj _ h
  rw [if_neg h4, if_neg h4] at h
  by_cases h5 : (decoded m).1 = nasMsgTypeExtendedServiceRequest
  · rw [if_pos h5, if_pos h5, listed_requestEffect _ _ (by decide),
      listed_requestEffect _ _ (by decide)] at h
    exact hinj _ h
  · -- no handler looks at an identity
    have hnone : ∀ f : Nat → UInt8, (mmeParseMsgHeader f).2 = (decoded m).1 →
        (decoded f).2 = none := by
      intro f hf
      unfold decoded decodedBody
      simp only
      rw [hf, if_neg h1, if_neg h2, if_neg h3, if_neg h4, if_neg h5]
    rw [hnone m rfl, hnone m' ht'.symm]

/-! ## Dependence on the payload -/

/-- What a parsed message leaves: the type that was dispatched, and the contexts of both
lists with what is recorded in them. -/
def outcome {β : Type} (r : RrcState β × UInt8) :
    UInt8 × List (β × UInt16 × UeIdentity) × List (β × UInt16 × UeIdentity) :=
  let entry a := (a, (r.1.rrcUeContext a).rnti, (r.1.rrcUeContext a).ueIdentity)
  (r.2, r.1.gRrcUeContextList.map entry, r.1.gReadyRrcUeContextList.map entry)

/-- A message buffer that holds the payload, followed by anything. -/
def Carries (nas : SimpleByteMsg) (payload : List UInt8) : Prop :=
  nas.nBytes = payload.length ∧ ∀ i (h : i < payload.length), nas.msg i = payload[i]

/-- **Nothing but the payload matters.** Whatever follows the payload in the message buffer,
and whatever the decode structures hold, the outcome is the same. -/
def DependsOnPayload (payload : List UInt8) : Prop :=
  ∀ (β : Type) [DecidableEq β] (env env' : Platform β) (s : RrcState β) (rnti : UInt16)
    (nas nas' : SimpleByteMsg), env'.toPolicy = env.toPolicy → env'.sizeof = env.sizeof →
      Carries nas payload → Carries nas' payload →
        outcome (rrcParseNasMsg env s rnti nas) = outcome (rrcParseNasMsg env' s rnti nas')

/-- The payload followed by zeros. -/
def padded (payload : List UInt8) : Nat → UInt8 := fun i => payload.getD i 0

/-- All bytes that the decoders consult are part of the payload. -/
def DecidedBy (payload : List UInt8) : Prop := Decided payload.length (padded payload)

theorem carries_padded (payload : List UInt8) :
    Carries ⟨payload.length, padded payload⟩ payload := by
  refine ⟨rfl, fun i h => ?_⟩
  simp [padded, h]

theorem Carries.agree {nas : SimpleByteMsg} {payload : List UInt8} (h : Carries nas payload) :
    Agree payload.length (padded payload) nas.msg := by
  intro i hi
  rw [h.2 i hi]
  simp [padded, hi]

theorem dependsOnPayload_of_decidedBy {payload : List UInt8} (hd : DecidedBy payload) :
    DependsOnPayload payload := by
  intro β _ env env' s rnti nas nas' hp hs h h'
  have hdec : decoded nas.msg = decoded nas'.msg :=
    (h.agree.decoded hd).symm.trans (h'.agree.decoded hd)
  have heff : nasEffect env' s rnti (decoded nas.msg) = nasEffect env s rnti (decoded nas.msg) := by
    obtain ⟨P, f, l⟩ := env
    obtain ⟨P', f', l'⟩ := env'
    obtain rfl : P' = P := hp
    obtain rfl : f' = f := hs
    rfl
  rw [rrcParseNasMsg_eq, rrcParseNasMsg_eq, ← hdec, heff]

theorem not_dependsOnPayload {payload : List UInt8} (hd : ¬DecidedBy payload) :
    ¬DependsOnPayload payload := by
  intro hdep
  have hz : ∀ i, payload.length ≤ i → padded payload i = 0 := by
    intro i hi
    simp [padded, hi]
  obtain ⟨m, ha, hne⟩ := exists_recorded_ne hz hd
  have hcarry : Carries ⟨payload.length, m⟩ payload :=
    ⟨rfl, fun i h => (ha i h).symm.trans ((carries_padded payload).2 i h)⟩
  have h := hdep Nat freshPlatform freshPlatform freshState 0 _ _ rfl rfl
    (carries_padded payload) hcarry
  rw [rrcParseNasMsg_eq, rrcParseNasMsg_eq] at h
  have ht := congrArg Prod.fst h
  have hl := congrArg (fun o => (Prod.fst (Prod.snd o)).map fun e => e.2.2) h
  simp only [outcome, List.map_map] at hl
  exact hne (recorded_of_listed 0 (show (decoded _).1 = (decoded _).1 from ht) hl)

/-- **NAS decoding depends on the received bytes only if these decide it.** The outcome of a
NAS message is a function of the payload exactly if the payload contains every byte that the
decoders consult: the header up to the message type and, for the five messages whose body
is decoded, the identity that is recorded (for an attach request, all up to the length of
the ESM message container). -/
theorem dependsOnPayload_iff (payload : List UInt8) :
    DependsOnPayload payload ↔ DecidedBy payload := by
  constructor
  · intro h
    by_contra hd
    exact not_dependsOnPayload hd h
  · exact dependsOnPayload_of_decidedBy

/-- An attach request that ends after its type: the identity is read behind the end. -/
theorem not_dependsOnPayload_attach_header : ¬DependsOnPayload [0x07, 0x41] := by
  apply not_dependsOnPayload
  intro h
  have he : esmOffset (padded [0x07, 0x41]) < 2 := by
    have hb := h.2
    rw [show (mmeParseMsgHeader (padded [0x07, 0x41])).2 = nasMsgTypeAttachRequest from rfl] at hb
    exact hb.1
  have hge := esmOffset_ge (padded [0x07, 0x41])
  omega

end LteUlp.Rrc
