import LteUlp.Rrc.Ownership

set_option autoImplicit false
set_option linter.unusedSectionVars false

/-! # The RRC layer without memory

What the entry points of the layer do when allocations are refused. All blocks are accounted
for by `RrcTransfer`; what is left is to count the accesses through what is no pointer. There
are two, both in reports: an update that finds its context pending deletion and gets no memory
for another one reads the RNTI through the null pointer, and an update that gets no memory for
the copy of an old M-TMSI prints this with `%s`.
-/

namespace LteUlp.Rrc

open BlockStore LteUlp.Nas

variable {β : Type} [DecidableEq β] {env : Platform β} {s t : RrcState β} {a : β}
variable {o : Option β} {rnti : UInt16}

/-! ## Accesses through no pointer -/

/-- The context is pending deletion, and there is no memory for another one. -/
def replacementRefused (env : Platform β) (s : RrcState β) (a : β) : Bool :=
  (s.rrcUeContext a).deleteFlag && (s.alloc env (env.sizeof .rrcUeContext)).2.isNone

/-- The context holds another identity of the kind, and there is no memory for a copy. -/
def copyRefused (env : Platform β) (present same : UeIdentity → Bool) (s : RrcState β) (a : β) :
    Bool :=
  let id := (s.rrcUeContext a).ueIdentity
  !(s.rrcUeContext a).deleteFlag && present id && !same id &&
    (s.alloc env (env.sizeof .rrcUeContext)).2.isNone

/-- The context holds another M-TMSI. -/
def holdsOther (mTmsi : UInt32) (c : RrcUeContext) : Bool :=
  c.ueIdentity.mTmsiPresent && c.ueIdentity.mTmsi != mTmsi

/-- The context of the RNTI is not pending deletion, and holds another M-TMSI. -/
def replacesMTmsi (s : RrcState β) (rnti : UInt16) (mTmsi : UInt32) : Bool :=
  (rrcGetUeContext s rnti).any fun a =>
    !(s.rrcUeContext a).deleteFlag && holdsOther mTmsi (s.rrcUeContext a)

theorem alloc_badDerefs {n : Nat} (h : s.alloc env n = (t, o)) : t.badDerefs = s.badDerefs := by
  rw [alloc_eq h]

theorem rrcCreateUeContext_badDerefs (env : Platform β) (s : RrcState β) (rnti : UInt16) :
    (rrcCreateUeContext env s rnti).1.badDerefs = s.badDerefs := by
  unfold rrcCreateUeContext
  cases ha : s.alloc env (env.sizeof .rrcUeContext) with
  | mk t o =>
      have ht := alloc_badDerefs ha
      cases o <;> exact ht

theorem rrcFindOrCreate_badDerefs (h : rrcFindOrCreate env s rnti = (t, o)) :
    t.badDerefs = s.badDerefs := by
  obtain rfl : (rrcFindOrCreate env s rnti).1 = t := congrArg Prod.fst h
  unfold rrcFindOrCreate
  split
  · rfl
  · exact rrcCreateUeContext_badDerefs env s rnti

/-- Whether a context is created. -/
theorem rrcCreateUeContext_isNone (env : Platform β) (s : RrcState β) (rnti : UInt16) :
    (rrcCreateUeContext env s rnti).2.isNone
      = (s.alloc env (env.sizeof .rrcUeContext)).2.isNone := by
  unfold rrcCreateUeContext
  rcases s.alloc env (env.sizeof .rrcUeContext) with ⟨t, _ | b⟩ <;> rfl

theorem rrcLiveContext_badDerefs (env : Platform β) (s : RrcState β) (a : β) :
    (rrcLiveContext env s a).1.badDerefs
      = s.badDerefs + (replacementRefused env s a).toNat := by
  unfold rrcLiveContext replacementRefused
  cases hd : (s.rrcUeContext a).deleteFlag with
  | false => rfl
  | true =>
      have hn := rrcCreateUeContext_badDerefs env s (s.rrcUeContext a).rnti
      have ho := rrcCreateUeContext_isNone env s (s.rrcUeContext a).rnti
      rw [if_pos rfl, Bool.true_and, ← ho]
      cases hc : rrcCreateUeContext env s (s.rrcUeContext a).rnti with
      | mk t o =>
          rw [hc] at hn
          cases o with
          | none => exact congrArg (· + 1) hn
          | some b => exact hn

theorem rrcCopyToReady_badDerefs (env : Platform β) (misread : Bool) (s : RrcState β) (a : β) :
    (rrcCopyToReady env misread s a).badDerefs = s.badDerefs
      + (misread && (s.alloc env (env.sizeof .rrcUeContext)).2.isNone).toNat := by
  unfold rrcCopyToReady
  cases ha : s.alloc env (env.sizeof .rrcUeContext) with
  | mk t o =>
      have ht := alloc_badDerefs ha
      cases o with
      | none =>
          rw [Option.isNone_none, Bool.and_true, ← ht]
          rfl
      | some old =>
          rw [Option.isNone_some, Bool.and_false]
          exact ht

/-- A context that replaces another holds no identity. -/
theorem rrcLiveContext_created {b : β} (hd : (s.rrcUeContext a).deleteFlag = true)
    (hl : rrcLiveContext env s a = (t, some b)) :
    (t.rrcUeContext b).ueIdentity = UeIdentity.zero := by
  unfold rrcLiveContext rrcCreateUeContext at hl
  rw [if_pos hd] at hl
  cases ha : s.alloc env (env.sizeof .rrcUeContext) with
  | mk u o =>
      rw [ha] at hl
      cases o with
      | none => simp at hl
      | some c =>
          simp only [Prod.mk.injEq, Option.some.injEq] at hl
          obtain ⟨rfl, rfl⟩ := hl
          simp [RrcState.setContext]

variable (env) in
/-- **An update reads through no pointer** exactly when its context is pending deletion and
there is no memory for another one, or the identity that it replaces is misread and there is
no memory for the copy. -/
theorem rrcUpdateIdentity_badDerefs (misread : Bool) (present same : UeIdentity → Bool)
    (count : LteKpi → LteKpi) (write : UeIdentity → UeIdentity) (s : RrcState β) (a : β)
    (msgType : UInt8) (hzero : present UeIdentity.zero = false) :
    (rrcUpdateIdentity env misread present same count write s a msgType).1.badDerefs
      = s.badDerefs
        + (replacementRefused env s a || misread && copyRefused env present same s a).toNat := by
  have hlive := rrcLiveContext_badDerefs env s a
  unfold rrcUpdateIdentity
  cases hd : (s.rrcUeContext a).deleteFlag with
  | true =>
      -- the new context holds no identity, so nothing is copied
      have hcopy : copyRefused env present same s a = false := by simp [copyRefused, hd]
      rw [hcopy, Bool.and_false, Bool.or_false, ← hlive]
      cases hc : rrcLiveContext env s a with
      | mk t o =>
          cases o with
          | none => rfl
          | some b =>
              have hb := rrcLiveContext_created hd hc
              simp only [hb, hzero, Bool.false_and, Bool.false_eq_true, if_false]
              rfl
  | false =>
      have hnot : replacementRefused env s a = false := by
        simp [replacementRefused, hd]
      have hsame : rrcLiveContext env s a = (s, some a) := by
        unfold rrcLiveContext
        rw [if_neg (by simp [hd])]
      have hcopy : copyRefused env present same s a
          = (present (s.rrcUeContext a).ueIdentity && !same (s.rrcUeContext a).ueIdentity &&
            (s.alloc env (env.sizeof .rrcUeContext)).2.isNone) := by
        simp [copyRefused, hd]
      rw [hsame, hnot, Bool.false_or, hcopy]
      simp only
      cases hp : present (s.rrcUeContext a).ueIdentity with
      | false => simp [RrcState.setIdentity, RrcState.setContext, RrcState.countKpi]
      | true =>
          cases same (s.rrcUeContext a).ueIdentity with
          | true => simp
          | false => exact rrcCopyToReady_badDerefs env misread s a

theorem rrcUpdateImsi_badDerefs (env : Platform β) (s : RrcState β) (a : β) (imsi : List UInt8)
    (msgType : UInt8) :
    (rrcUpdateImsi env s a imsi msgType).1.badDerefs
      = s.badDerefs + (replacementRefused env s a).toNat := by
  have h := rrcUpdateIdentity_badDerefs env false UeIdentity.imsiPresent
    (fun id => id.imsi.take 15 == (tmpImsi imsi).take 15)
    (fun kpi => { kpi with imsi := kpi.imsi + 1 })
    (fun id => { id with imsiPresent := true, imsi := tmpImsi imsi }) s a msgType rfl
  rwa [Bool.false_and, Bool.or_false] at h

/-- The update of an M-TMSI misreads: no context replaces the one that is pending deletion, or
the old M-TMSI is not copied. -/
def mTmsiMisread (env : Platform β) (s : RrcState β) (a : β) (mTmsi : UInt32) : Bool :=
  ((s.rrcUeContext a).deleteFlag || holdsOther mTmsi (s.rrcUeContext a)) &&
    (s.alloc env (env.sizeof .rrcUeContext)).2.isNone

theorem rrcUpdateMTmsi_badDerefs (env : Platform β) (s : RrcState β) (a : β) (mTmsi : UInt32)
    (msgType : UInt8) :
    (rrcUpdateMTmsi env s a mTmsi msgType).1.badDerefs
      = s.badDerefs + (mTmsiMisread env s a mTmsi).toNat := by
  have h := rrcUpdateIdentity_badDerefs env true UeIdentity.mTmsiPresent
    (fun id => id.mTmsi == mTmsi) (fun kpi => { kpi with mTmsi := kpi.mTmsi + 1 })
    (fun id => { id with mTmsiPresent := true, mTmsi := mTmsi }) s a msgType rfl
  have heq : mTmsiMisread env s a mTmsi = (replacementRefused env s a ||
      true && copyRefused env UeIdentity.mTmsiPresent (fun id => id.mTmsi == mTmsi) s a) := by
    unfold mTmsiMisread replacementRefused copyRefused holdsOther
    cases (s.rrcUeContext a).deleteFlag <;> simp [bne]
  rw [heq]
  exact h

/-- Only a context that has been found can be pending deletion or hold an M-TMSI. -/
theorem mTmsiMisread_found (h : rrcFindOrCreate env s rnti = (t, some a)) (mTmsi : UInt32) :
    mTmsiMisread env t a mTmsi = ((pendingDeletion s rnti || replacesMTmsi s rnti mTmsi) &&
      (s.alloc env (env.sizeof .rrcUeContext)).2.isNone) := by
  unfold rrcFindOrCreate at h
  unfold pendingDeletion replacesMTmsi
  cases hg : rrcGetUeContext s rnti with
  | some b =>
      rw [hg] at h
      obtain ⟨rfl, hb⟩ := Prod.mk.inj h
      obtain rfl := Option.some.inj hb
      unfold mTmsiMisread
      cases hd : (s.rrcUeContext b).deleteFlag <;> simp [hd]
  | none =>
      rw [hg] at h
      simp only [rrcCreateUeContext] at h
      cases ha : s.alloc env (env.sizeof .rrcUeContext) with
      | mk u o =>
          rw [ha] at h
          cases o with
          | none => simp at h
          | some b =>
              simp only [Prod.mk.injEq, Option.some.injEq] at h
              obtain ⟨rfl, rfl⟩ := h
              simp [mTmsiMisread, holdsOther, UeIdentity.zero, RrcState.setContext]

/-- Only a context that has been found can be pending deletion. -/
theorem replacementRefused_found (h : rrcFindOrCreate env s rnti = (t, some a)) :
    replacementRefused env t a
      = (pendingDeletion s rnti && (s.alloc env (env.sizeof .rrcUeContext)).2.isNone) := by
  unfold rrcFindOrCreate at h
  unfold pendingDeletion
  cases hg : rrcGetUeContext s rnti with
  | some b =>
      rw [hg] at h
      obtain ⟨rfl, hb⟩ := Prod.mk.inj h
      obtain rfl := Option.some.inj hb
      rfl
  | none =>
      rw [hg] at h
      simp only [rrcCreateUeContext] at h
      cases ha : s.alloc env (env.sizeof .rrcUeContext) with
      | mk u o =>
          rw [ha] at h
          cases o with
          | none => simp at h
          | some b =>
              simp only [Prod.mk.injEq, Option.some.injEq] at h
              obtain ⟨rfl, rfl⟩ := h
              simp [replacementRefused, RrcState.setContext]

/-- After an allocation in `s`, a context is found or created in `u`, which has the contexts
of `s`. -/
structure After (s t u : RrcState β) : Prop where
  mem : u.mem = t.mem
  context : u.rrcUeContext = s.rrcUeContext
  list : u.gRrcUeContextList = s.gRrcUeContextList
  badDerefs : u.badDerefs = s.badDerefs

theorem After.pendingDeletion {u : RrcState β} (h : After s t u) (rnti : UInt16) :
    Rrc.pendingDeletion u rnti = Rrc.pendingDeletion s rnti := by
  unfold Rrc.pendingDeletion rrcGetUeContext
  rw [h.context, h.list]

theorem After.replacesMTmsi {u : RrcState β} (h : After s t u) (rnti : UInt16)
    (mTmsi : UInt32) : Rrc.replacesMTmsi u rnti mTmsi = Rrc.replacesMTmsi s rnti mTmsi := by
  unfold Rrc.replacesMTmsi rrcGetUeContext
  rw [h.context, h.list]

/-- There is no context, so none is pending deletion or holds an M-TMSI. -/
theorem After.found_none {u v : RrcState β} (h : After s t u)
    (hf : rrcFindOrCreate env u rnti = (v, none)) :
    v.badDerefs = s.badDerefs ∧ Rrc.pendingDeletion s rnti = false ∧
      ∀ mTmsi, Rrc.replacesMTmsi s rnti mTmsi = false := by
  have hg := (Bool.and_eq_true_iff.mp (rrcFindOrCreate_isNone hf).symm).1
  refine ⟨(rrcFindOrCreate_badDerefs hf).trans h.badDerefs, ?_, fun mTmsi => ?_⟩
  · rw [← h.pendingDeletion, Rrc.pendingDeletion, Option.isNone_iff_eq_none.mp hg]
    rfl
  · rw [← h.replacesMTmsi, Rrc.replacesMTmsi, Option.isNone_iff_eq_none.mp hg]
    rfl

/-- What decides whether the update of the context reads through no pointer. -/
theorem After.found_some {u v : RrcState β} {n : Nat} {msg : β} (h : After s t u)
    (ha : s.alloc env n = (t, some msg)) (hf : rrcFindOrCreate env u rnti = (v, some a)) :
    v.badDerefs = s.badDerefs ∧
      replacementRefused env v a = (Rrc.pendingDeletion s rnti && contextRefused env s n) ∧
      ∀ mTmsi, mTmsiMisread env v a mTmsi
        = ((Rrc.pendingDeletion s rnti || Rrc.replacesMTmsi s rnti mTmsi)
          && contextRefused env s n) := by
  have halloc : (u.alloc env (env.sizeof .rrcUeContext)).2
      = (t.alloc env (env.sizeof .rrcUeContext)).2 := by
    show (u.mem.alloc _ _).2 = (t.mem.alloc _ _).2
    rw [h.mem]
  refine ⟨(rrcFindOrCreate_badDerefs hf).trans h.badDerefs, ?_, fun mTmsi => ?_⟩
  · rw [replacementRefused_found hf, halloc, h.pendingDeletion, contextRefused, ha]
  · rw [mTmsiMisread_found hf, halloc, h.pendingDeletion, h.replacesMTmsi, contextRefused, ha]

/-- Nothing but the memory, a counter and the bit buffer has changed. -/
theorem after_alloc {n : Nat} (ha : s.alloc env n = (t, o)) (buf : Nat → UInt8)
    (count : LteKpi → LteKpi) :
    After s t ({ t with gMsgBitBuffer := buf }.countKpi count) := by
  rw [alloc_eq ha]
  exact ⟨rfl, rfl, rfl, rfl⟩

/-- The decoder of a request gets to the update of a context that it cannot replace, or of an
M-TMSI that it cannot copy. -/
def requestMisread (mTmsi : EpsMobileId → Option UInt32) (s : RrcState β) (rnti : UInt16)
    (decoded : Option EpsMobileId) : Bool :=
  decoded.any fun id =>
    match mTmsi id with
    | some v => pendingDeletion s rnti || replacesMTmsi s rnti v
    | none => id.typeOfId == epsMobileIdTypeImsi && pendingDeletion s rnti

theorem rrcDecodeRequest_badDerefs (size : Nat) (count : LteKpi → LteKpi)
    (mTmsi : EpsMobileId → Option UInt32) (msgType : UInt8) (s : RrcState β) (rnti : UInt16)
    (decoded : Option EpsMobileId) :
    (rrcDecodeRequest env size count mTmsi msgType s rnti decoded).badDerefs
      = s.badDerefs
        + (requestMisread mTmsi s rnti decoded && contextRefused env s size).toNat := by
  unfold rrcDecodeRequest
  cases ha : s.alloc env size with
  | mk t o =>
      have ht := alloc_badDerefs ha
      cases o with
      | none => simpa [contextRefused, ha] using ht
      | some req =>
          cases decoded with
          | none => exact ht
          | some id =>
              simp only
              have hafter := after_alloc ha t.gMsgBitBuffer count
              split
              · rename_i u hf
                obtain ⟨hu, hpending, hother⟩ := hafter.found_none hf
                have hnone : requestMisread mTmsi s rnti (some id) = false := by
                  simp only [requestMisread, hpending, hother, Option.any_some]
                  split <;> simp
                rw [hnone, Bool.false_and]
                exact hu
              · rename_i u b hf
                obtain ⟨hu, hrefused, hmisread⟩ := hafter.found_some ha hf
                cases hm : mTmsi id with
                | some v =>
                    have hall : requestMisread mTmsi s rnti (some id)
                        = (pendingDeletion s rnti || replacesMTmsi s rnti v) := by
                      simp [requestMisread, hm]
                    have hup := rrcUpdateMTmsi_badDerefs env u b v msgType
                    rw [hall, ← hmisread, ← hu]
                    exact hup
                | none =>
                    by_cases hid : id.typeOfId = epsMobileIdTypeImsi
                    · have hall : requestMisread mTmsi s rnti (some id)
                          = pendingDeletion s rnti := by
                        simp [requestMisread, hm, hid]
                      have hup := rrcUpdateImsi_badDerefs env u b id.imsi msgType
                      rw [hall, ← hrefused, ← hu]
                      simp only [if_pos hid]
                      exact hup
                    · have hall : requestMisread mTmsi s rnti (some id) = false := by
                        simp [requestMisread, hm, hid]
                      rw [hall, Bool.false_and]
                      simp only [if_neg hid]
                      exact hu

/-- The identity response gets to the update of an IMSI. -/
def responseUpdates (env : Platform β) (s : RrcState β) (m : Nat → UInt8) : Bool :=
  let r := mmeUnpackIdentityResponseMsg m (env.leftover s.mem.clock).idResponse
  r.1 && r.2.typeOfId == mobileIdTypeImsi

theorem rrcDecodeIdentityResponse_badDerefs (env : Platform β) (s : RrcState β)
    (rnti : UInt16) (m : Nat → UInt8) :
    (rrcDecodeIdentityResponse env s rnti m).badDerefs
      = s.badDerefs + (responseUpdates env s m &&
          (pendingDeletion s rnti && contextRefused env s (env.sizeof .idResponse))).toNat := by
  unfold rrcDecodeIdentityResponse responseUpdates
  cases ha : s.alloc env (env.sizeof .idResponse) with
  | mk t o =>
      have ht := alloc_badDerefs ha
      cases o with
      | none => simpa [contextRefused, ha] using ht
      | some idResp =>
          simp only
          split
          · rename_i hok
            rw [hok, Bool.true_and]
            split
            · rename_i hid
              rw [beq_iff_eq.mpr hid, Bool.true_and]
              have hafter := after_alloc ha t.gMsgBitBuffer
                fun kpi => { kpi with idResp := kpi.idResp + 1 }
              split
              · rename_i u hf
                obtain ⟨hu, hpending, -⟩ := hafter.found_none hf
                rw [hpending, Bool.false_and]
                exact hu
              · rename_i u b hf
                obtain ⟨hu, hrefused, -⟩ := hafter.found_some ha hf
                rw [← hrefused, ← hu]
                exact rrcUpdateImsi_badDerefs env u b _ noMsgType
            · rename_i hid
              rw [beq_eq_false_iff_ne.mpr hid, Bool.false_and]
              exact ht
          · rename_i hok
            rw [Bool.eq_false_of_not_eq_true hok, Bool.false_and, Bool.false_and]
            exact ht

theorem rrcDecodeServiceReq_badDerefs (env : Platform β) (s : RrcState β) (rnti : UInt16) :
    (rrcDecodeServiceReq env s rnti).badDerefs = s.badDerefs := by
  unfold rrcDecodeServiceReq
  split
  · rename_i u hf
    have hn := rrcFindOrCreate_badDerefs hf
    exact hn
  · rename_i u b hf
    have hn := rrcFindOrCreate_badDerefs hf
    exact hn

/-- The M-TMSI in a connection request. -/
def requestedMTmsi (env : Platform β) (s : RrcState β) (pData : β) (size : Nat) :
    Option UInt32 :=
  if (s.mem.bytes pData 0 >>> 6) &&& 0x01 = rrcUlCcchMsgTypeRrcConReq then
    (asn1ParseRrcConnReqMsg s.gMsgBitBuffer (s.mem.bytes pData) size
      (env.leftover s.mem.clock).rrcConnectionRequest).2.bind
        fun req => if req.ueIdType = conReqUeIdTypeSTmsi then some req.mTmsi else none
  else none

theorem rrcParseUlCcchMsg_badDerefs (env : Platform β) (s : RrcState β) (rnti : UInt16)
    (pData : β) (size : Nat) :
    (rrcParseUlCcchMsg env s rnti pData size).badDerefs
      = s.badDerefs + (size != 0 && (requestedMTmsi env s pData size).any (fun v =>
          pendingDeletion s rnti || replacesMTmsi s rnti v) &&
            contextRefused env s (env.sizeof .rrcConnectionRequest)).toNat := by
  unfold rrcParseUlCcchMsg
  by_cases hsize : size = 0
  · simp [hsize]
  rw [if_neg hsize, bne_iff_ne.mpr hsize, Bool.true_and]
  simp only
  split
  · rename_i htype
    cases ha : s.alloc env (env.sizeof .rrcConnectionRequest) with
    | mk t o =>
        have ht := alloc_badDerefs ha
        have hparse : t.gMsgBitBuffer = s.gMsgBitBuffer := by rw [alloc_eq ha]
        cases o with
        | none =>
            have hrefused : contextRefused env s (env.sizeof .rrcConnectionRequest) = false := by
              simp [contextRefused, ha]
            rw [hrefused, Bool.and_false]
            exact ht
        | some msg =>
            simp only [hparse]
            split
            · rename_i hp
              have hreq : requestedMTmsi env s pData size = none := by
                simp [requestedMTmsi, hp]
              rw [hreq, Option.any_none, Bool.false_and]
              exact ht
            · rename_i req hp
              split
              · rename_i hid
                have hreq : requestedMTmsi env s pData size = some req.mTmsi := by
                  simp [requestedMTmsi, htype, hp, hid]
                rw [hreq, Option.any_some]
                have hafter := after_alloc ha (asn1ParseRrcConnReqMsg s.gMsgBitBuffer
                  (s.mem.bytes pData) size (env.leftover s.mem.clock).rrcConnectionRequest).1
                  fun kpi => { kpi with rrcConnReq := kpi.rrcConnReq + 1 }
                split
                · rename_i u hf
                  obtain ⟨hu, hpending, hother⟩ := hafter.found_none hf
                  rw [hpending, hother, Bool.or_false, Bool.false_and]
                  exact hu
                · rename_i u b hf
                  obtain ⟨hu, -, hmisread⟩ := hafter.found_some ha hf
                  rw [← hmisread, ← hu]
                  exact rrcUpdateMTmsi_badDerefs env u b _ serviceRequestType
              · rename_i hid
                have hreq : requestedMTmsi env s pData size = none := by
                  simp [requestedMTmsi, hp, hid]
                rw [hreq, Option.any_none, Bool.false_and]
                exact ht
  · rename_i htype
    simp [requestedMTmsi, htype, RrcState.free]

end LteUlp.Rrc
