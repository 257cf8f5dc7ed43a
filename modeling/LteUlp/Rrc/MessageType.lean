import LteUlp.Rrc.Contexts
import LteUlp.Rrc.NasDecoding

set_option autoImplicit false
set_option linter.unusedSectionVars false

/-! # The message type of a request

A NAS request records its type together with the identity that it carries. The update of an
identity returns early if the context holds this identity already, and then the context keeps
the message type it had, which another message may have set. So does a context that is pending
deletion, as the new one that takes the identity comes after it in the list.
-/

namespace LteUlp.Rrc

open BlockStore LteUlp.Nas

variable {β : Type} [DecidableEq β] {env : Platform β} {s t u : RrcState β} {a b : β}
variable {o : Option β} {rnti : UInt16}

/-! ## Requests -/

/-- The requests that carry an EPS mobile identity. -/
inductive NasRequest where
  | attach
  | tau
  | detach
  | extService
  deriving DecidableEq

namespace NasRequest

def msgType : NasRequest → UInt8
  | attach => attachRequestType
  | tau => tauRequestType
  | detach => detachRequestType
  | extService => extServiceRequestType

/-- The handler of a request. -/
def decode (env : Platform β) (s : RrcState β) (rnti : UInt16) (m : Nat → UInt8) :
    NasRequest → RrcState β
  | attach => rrcDecodeAttachReq env s rnti m
  | tau => rrcDecodeTauReq env s rnti m
  | detach => rrcDecodeDetachReq env s rnti m
  | extService => rrcDecodeExtServiceReq env s rnti m

/-- The identity that the handler takes from the message; there is none if it is refused. -/
def identity (m : Nat → UInt8) : NasRequest → Option Identity
  | attach => if EsmFits m then some (gutiIdentityAt m (bodyOffset m + 1)) else none
  | tau => some (gutiIdentityAt m (bodyOffset m + 1))
  | detach => some (gutiIdentityAt m (bodyOffset m + 1))
  | extService => some (tmsiIdentityAt m (bodyOffset m + 1))

theorem msgType_ne (request : NasRequest) : request.msgType ≠ noMsgType := by
  cases request <;> decide

def size (env : Platform β) : NasRequest → Nat
  | attach => env.sizeof .attachRequest
  | tau => env.sizeof .tauRequest
  | detach => env.sizeof .detachRequest
  | extService => env.sizeof .extServiceRequest

def count : NasRequest → LteKpi → LteKpi
  | attach => fun kpi => { kpi with attachReq := kpi.attachReq + 1 }
  | tau => fun kpi => { kpi with tauReq := kpi.tauReq + 1 }
  | detach => fun kpi => { kpi with detachReq := kpi.detachReq + 1 }
  | extService => fun kpi => { kpi with extServReq := kpi.extServReq + 1 }

/-- The handlers differ in what they allocate and count, in the type and in the identity. -/
theorem decode_eq (env : Platform β) (s : RrcState β) (rnti : UInt16) (m : Nat → UInt8)
    (request : NasRequest) :
    decode env s rnti m request = requestEffect env (request.size env) request.count
      request.msgType s rnti (request.identity m) := by
  have guti : ∀ (size : Nat) (count : LteKpi → LteKpi) (msgType : UInt8) (id : EpsMobileId),
      rrcDecodeRequest env size count gutiMTmsi msgType s rnti
          (some (mmeUnpackEpsMobileIdIe m (bodyOffset m + 1) id).1)
        = requestEffect env size count msgType s rnti
            (some (gutiIdentityAt m (bodyOffset m + 1))) := by
    intro size count msgType id
    rw [rrcDecodeRequest_eq, Option.map_some, chosen_guti]
  cases request with
  | attach => exact rrcDecodeAttachReq_eq env s rnti m
  | tau => exact guti _ _ tauRequestType _
  | detach => exact guti _ _ detachRequestType _
  | extService =>
      show rrcDecodeExtServiceReq env s rnti m = _
      unfold rrcDecodeExtServiceReq
      rw [rrcDecodeRequest_eq, Option.map_some]
      exact congrArg (fun i => requestEffect env _ _ _ s rnti (some i)) (chosen_tmsi m _ _)

end NasRequest

/-! ## The context of an RNTI -/

/-- The message type that is recorded for an RNTI. -/
def recordedType (s : RrcState β) (rnti : UInt16) : Option UInt8 :=
  (rrcGetUeContext s rnti).map fun a => (s.rrcUeContext a).ueIdentity.msgType

/-- The identity is there already. -/
def UeIdentity.holds (id : UeIdentity) : Identity → Bool
  | .mTmsi v => id.mTmsiPresent && id.mTmsi == v
  | .imsi digits => id.imsiPresent && id.imsi.take 15 == (tmpImsi digits).take 15
  | .other => false

/-- The message type of the context is not written: it is pending deletion, or holds the
identity. -/
def keepsType (s : RrcState β) (a : β) (i : Identity) : Bool :=
  (s.rrcUeContext a).deleteFlag || (s.rrcUeContext a).ueIdentity.holds i

/-- The contexts in the list are as before. -/
structure SameContexts (s t : RrcState β) : Prop where
  list : t.gRrcUeContextList = s.gRrcUeContextList
  context : ∀ a ∈ s.gRrcUeContextList, t.rrcUeContext a = s.rrcUeContext a

theorem SameContexts.trans (h : SameContexts s t) (h' : SameContexts t u) : SameContexts s u :=
  ⟨h'.list.trans h.list, fun a ha =>
    (h'.context a (h.list ▸ ha)).trans (h.context a ha)⟩

theorem SameContexts.get (h : SameContexts s t) (rnti : UInt16) :
    rrcGetUeContext t rnti = rrcGetUeContext s rnti := by
  unfold rrcGetUeContext
  rw [h.list]
  exact List.find?_congr fun a ha => by rw [h.context a ha]

theorem SameContexts.recordedType (h : SameContexts s t) (rnti : UInt16) :
    recordedType t rnti = recordedType s rnti := by
  unfold Rrc.recordedType
  rw [h.get rnti]
  cases hg : rrcGetUeContext s rnti with
  | none => rfl
  | some a => rw [Option.map_some, Option.map_some, h.context a (List.mem_of_find?_eq_some hg)]

theorem alloc_sameContexts {n : Nat} (h : s.alloc env n = (t, o)) : SameContexts s t := by
  rw [alloc_eq h]
  exact ⟨rfl, fun _ _ => rfl⟩

theorem free_sameContexts (s : RrcState β) (b : β) : SameContexts s (s.free b) :=
  ⟨rfl, fun _ _ => rfl⟩

theorem countKpi_sameContexts (s : RrcState β) (f : LteKpi → LteKpi) :
    SameContexts s (s.countKpi f) := ⟨rfl, fun _ _ => rfl⟩

/-- A new block is not one of a context in use. -/
theorem alloc_notListed {n : Nat} (h : s.alloc env n = (t, some b))
    (huse : ∀ a ∈ s.gRrcUeContextList, a ∈ s.mem.inUse) : b ∉ s.gRrcUeContextList := by
  intro hb
  have h1 : (s.mem.alloc env.toPolicy n).2 = some b := congrArg Prod.snd h
  exact (alloc_some h1).2.2 (huse b hb)

/-- The blocks in use stay in use, and so does the new one. -/
theorem alloc_inUse {n : Nat} (h : s.alloc env n = (t, o)) :
    (∀ a ∈ s.mem.inUse, a ∈ t.mem.inUse) ∧ ∀ b, o = some b → b ∈ t.mem.inUse := by
  obtain rfl : (s.alloc env n).1 = t := congrArg Prod.fst h
  obtain rfl : (s.mem.alloc env.toPolicy n).2 = o := congrArg Prod.snd h
  show (∀ a ∈ _, a ∈ (s.mem.alloc env.toPolicy n).1.inUse) ∧
    ∀ b, _ → b ∈ (s.mem.alloc env.toPolicy n).1.inUse
  cases ho : (s.mem.alloc env.toPolicy n).2 with
  | none =>
      unfold Store.alloc at ho ⊢
      split at ho
      · simp at ho
      · exact ⟨fun a ha => ha, by simp⟩
  | some b =>
      rw [(alloc_some_inUse ho).1]
      refine ⟨fun a ha => Multiset.mem_cons_of_mem ha, fun c hc => ?_⟩
      rw [Option.some.inj hc]
      exact Multiset.mem_cons_self c _

/-! ## Updates -/

/-- A copy to the ready list is a new block. -/
theorem rrcCopyToReady_sameContexts (huse : ∀ a ∈ s.gRrcUeContextList, a ∈ s.mem.inUse)
    (misread : Bool) (a : β) : SameContexts s (rrcCopyToReady env misread s a) := by
  unfold rrcCopyToReady
  cases ha : s.alloc env (env.sizeof .rrcUeContext) with
  | mk v o =>
      have hsame := alloc_sameContexts ha
      cases o with
      | none => exact hsame.trans ⟨rfl, fun _ _ => rfl⟩
      | some old =>
          refine ⟨hsame.list, fun b hb => ?_⟩
          have hne : b ≠ old := fun h => alloc_notListed ha huse (h ▸ hb)
          show Function.update v.rrcUeContext old _ b = _
          rw [Function.update_of_ne hne]
          exact hsame.context b hb

/-- Writing to the identity of the context of the RNTI. -/
theorem setIdentity_recordedType (hg : rrcGetUeContext s rnti = some a) (id : UeIdentity) :
    recordedType (s.setIdentity a id) rnti = some id.msgType := by
  have hget : rrcGetUeContext (s.setIdentity a id) rnti = some a := by
    rw [← hg]
    unfold rrcGetUeContext
    refine List.find?_congr fun b _ => ?_
    unfold RrcState.setIdentity RrcState.setContext
    by_cases hba : b = a
    · subst hba
      simp
    · simp [Function.update_of_ne hba]
  unfold recordedType
  rw [hget]
  simp [RrcState.setIdentity, RrcState.setContext]

/-! ## Creation -/

/-- The contexts in the list are as before, and others may follow. -/
structure Extends (s t : RrcState β) : Prop where
  list : ∃ l, t.gRrcUeContextList = s.gRrcUeContextList ++ l
  context : ∀ a ∈ s.gRrcUeContextList, t.rrcUeContext a = s.rrcUeContext a

theorem Extends.same (h : Extends s t) (h' : SameContexts t u) : Extends s u := by
  obtain ⟨l, hl⟩ := h.list
  refine ⟨⟨l, h'.list.trans hl⟩, fun a ha => ?_⟩
  rw [h'.context a (by rw [hl]; exact List.mem_append_left l ha), h.context a ha]

theorem Extends.setIdentity (h : Extends s t) (hb : b ∉ s.gRrcUeContextList) (id : UeIdentity) :
    Extends s (t.setIdentity b id) := by
  refine ⟨h.list, fun a ha => ?_⟩
  have hne : a ≠ b := ne_of_mem_of_not_mem ha hb
  show Function.update t.rrcUeContext b _ a = _
  rw [Function.update_of_ne hne]
  exact h.context a ha

/-- The first context of the RNTI stays the first one. -/
theorem Extends.recordedType (h : Extends s t) (hg : rrcGetUeContext s rnti = some a) :
    recordedType t rnti = recordedType s rnti := by
  have hold : (s.gRrcUeContextList.find? fun c => (t.rrcUeContext c).rnti == rnti) = some a := by
    rw [← hg]
    exact List.find?_congr fun c hc => by rw [h.context c hc]
  obtain ⟨l, hl⟩ := h.list
  have hget : rrcGetUeContext t rnti = some a := by
    unfold rrcGetUeContext
    rw [hl, List.find?_append, hold]
    rfl
  unfold Rrc.recordedType
  rw [hget, hg, Option.map_some, Option.map_some,
    h.context a (List.mem_of_find?_eq_some hg)]

/-- A context has been created for the RNTI, at the end of the list. -/
structure Created (s t : RrcState β) (b : β) (rnti : UInt16) : Prop where
  notListed : b ∉ s.gRrcUeContextList
  list : t.gRrcUeContextList = s.gRrcUeContextList ++ [b]
  old : ∀ a ∈ s.gRrcUeContextList, t.rrcUeContext a = s.rrcUeContext a
  new : t.rrcUeContext b = ⟨0, rnti, false, UeIdentity.zero⟩
  inUse : ∀ a ∈ t.gRrcUeContextList, a ∈ t.mem.inUse

theorem Created.extends (h : Created s t b rnti) : Extends s t := ⟨⟨[b], h.list⟩, h.old⟩

theorem rrcCreateUeContext_created (huse : ∀ a ∈ s.gRrcUeContextList, a ∈ s.mem.inUse)
    (hc : rrcCreateUeContext env s rnti = (t, some b)) : Created s t b rnti := by
  unfold rrcCreateUeContext at hc
  cases ha : s.alloc env (env.sizeof .rrcUeContext) with
  | mk v o =>
      have hsame := alloc_sameContexts ha
      rw [ha] at hc
      cases o with
      | none => simp at hc
      | some c =>
          have hnot := alloc_notListed ha huse
          obtain ⟨hkeep, hin⟩ := alloc_inUse ha
          obtain ⟨rfl, hcb⟩ := Prod.mk.inj hc
          obtain rfl := Option.some.inj hcb
          refine ⟨hnot, ?_, fun a ha' => ?_, Function.update_self .., fun a ha' => ?_⟩
          · rw [← hsame.list]
          · show Function.update v.rrcUeContext c _ a = _
            rw [Function.update_of_ne (ne_of_mem_of_not_mem ha' hnot)]
            exact hsame.context a ha'
          · have hmem : a ∈ s.gRrcUeContextList ++ [c] := by
              rw [← hsame.list]
              exact ha'
            rcases List.mem_append.mp hmem with h | h
            · exact hkeep a (huse a h)
            · rw [List.mem_singleton.mp h]
              exact hin c rfl

theorem rrcCreateUeContext_none (hc : rrcCreateUeContext env s rnti = (t, none)) :
    SameContexts s t := by
  unfold rrcCreateUeContext at hc
  cases ha : s.alloc env (env.sizeof .rrcUeContext) with
  | mk v o =>
      have hsame := alloc_sameContexts ha
      rw [ha] at hc
      cases o with
      | none => exact (Prod.mk.inj hc).1 ▸ hsame
      | some c => simp at hc

/-- A context that is created for an RNTI that has none is the one that is found. -/
theorem Created.get (h : Created s t b rnti) (hnone : rrcGetUeContext s rnti = none) :
    rrcGetUeContext t rnti = some b := by
  have hold : (s.gRrcUeContextList.find? fun c => (t.rrcUeContext c).rnti == rnti) = none := by
    rw [← hnone]
    exact List.find?_congr fun c hc => by rw [h.old c hc]
  unfold rrcGetUeContext
  rw [h.list, List.find?_append, hold, Option.none_or, List.find?_singleton, h.new]
  simp

/-! ## The update of an identity -/

section Update

variable (misread : Bool) (present same : UeIdentity → Bool) (count : LteKpi → LteKpi)
  (write : UeIdentity → UeIdentity)

/-- **An update of a live context** writes the message type, unless it holds the identity. -/
theorem rrcUpdateIdentity_live (huse : ∀ a ∈ s.gRrcUeContextList, a ∈ s.mem.inUse)
    (hg : rrcGetUeContext s rnti = some a) (hlive : (s.rrcUeContext a).deleteFlag = false)
    {msgType : UInt8} (ht : msgType ≠ noMsgType) :
    let id := (s.rrcUeContext a).ueIdentity
    recordedType (rrcUpdateIdentity env misread present same count write s a msgType).1 rnti
      = if present id && same id then recordedType s rnti else some msgType := by
  intro id
  unfold rrcUpdateIdentity
  rw [rrcLiveContext_live hlive]
  simp only
  split
  · rfl
  · have hsame : SameContexts s ((if present id then rrcCopyToReady env misread s a else s).countKpi
        count) := by
      refine SameContexts.trans ?_ (countKpi_sameContexts _ count)
      split
      · exact rrcCopyToReady_sameContexts huse misread a
      · exact ⟨rfl, fun _ _ => rfl⟩
    exact setIdentity_recordedType ((hsame.get rnti).trans hg) _

/-- **An update of a context that is pending deletion** writes to a new one, which is not the
one that is found. -/
theorem rrcUpdateIdentity_pending (huse : ∀ a ∈ s.gRrcUeContextList, a ∈ s.mem.inUse)
    (hg : rrcGetUeContext s rnti = some a) (hflag : (s.rrcUeContext a).deleteFlag = true)
    (msgType : UInt8) :
    recordedType (rrcUpdateIdentity env misread present same count write s a msgType).1 rnti
      = recordedType s rnti := by
  unfold rrcUpdateIdentity rrcLiveContext
  rw [if_pos hflag]
  cases hc : rrcCreateUeContext env s (s.rrcUeContext a).rnti with
  | mk v o =>
      cases o with
      | none => exact (rrcCreateUeContext_none hc).recordedType rnti
      | some b =>
          have hcreated := rrcCreateUeContext_created huse hc
          have hsame : SameContexts v ((if present (v.rrcUeContext b).ueIdentity then
              rrcCopyToReady env misread v b else v).countKpi count) := by
            refine SameContexts.trans ?_ (countKpi_sameContexts _ count)
            split
            · exact rrcCopyToReady_sameContexts hcreated.inUse misread b
            · exact ⟨rfl, fun _ _ => rfl⟩
          simp only
          split
          · exact hcreated.extends.recordedType hg
          · exact ((hcreated.extends.same hsame).setIdentity hcreated.notListed _).recordedType hg

end Update

/-- **Recording an identity** writes the message type unless the context keeps it. -/
theorem recordIdentity_recordedType (huse : ∀ a ∈ s.gRrcUeContextList, a ∈ s.mem.inUse)
    (hg : rrcGetUeContext s rnti = some a) {msgType : UInt8} (ht : msgType ≠ noMsgType)
    {i : Identity} (hi : i ≠ .other) :
    recordedType (recordIdentity env msgType s a i).1 rnti
      = if keepsType s a i then recordedType s rnti else some msgType := by
  unfold keepsType
  cases hflag : (s.rrcUeContext a).deleteFlag with
  | true =>
      rw [Bool.true_or, if_pos rfl]
      cases i with
      | mTmsi v => exact rrcUpdateIdentity_pending _ _ _ _ _ huse hg hflag msgType
      | imsi digits => exact rrcUpdateIdentity_pending _ _ _ _ _ huse hg hflag msgType
      | other => exact absurd rfl hi
  | false =>
      rw [Bool.false_or]
      cases i with
      | mTmsi v => exact rrcUpdateIdentity_live _ _ _ _ _ huse hg hflag ht
      | imsi digits => exact rrcUpdateIdentity_live _ _ _ _ _ huse hg hflag ht
      | other => exact absurd rfl hi

/-! ## Requests -/

/-- **The message type after a request** whose allocations succeed: a new context has it, and
the one of the RNTI has it unless it keeps the one it had. -/
theorem requestEffect_recordedType {size : Nat} {count : LteKpi → LteKpi} {msgType : UInt8}
    (huse : ∀ a ∈ s.gRrcUeContextList, a ∈ s.mem.inUse) (ht : msgType ≠ noMsgType)
    {i : Identity} (hi : i ≠ .other)
    (hf : (requestEffect env size count msgType s rnti (some i)).mem.failures
      = s.mem.failures) :
    recordedType (requestEffect env size count msgType s rnti (some i)) rnti
      = if (rrcGetUeContext s rnti).any (keepsType s · i) then recordedType s rnti
        else some msgType := by
  unfold requestEffect at hf ⊢
  cases ha : s.alloc env size with
  | mk v o =>
      rw [ha] at hf
      cases o with
      | none => exact absurd hf (alloc_refused ha).ne'
      | some req =>
          have hsame := (alloc_sameContexts ha).trans (countKpi_sameContexts v count)
          have huse' : ∀ a ∈ (v.countKpi count).gRrcUeContextList,
              a ∈ (v.countKpi count).mem.inUse := fun a h =>
            (alloc_inUse ha).1 a (huse a (hsame.list ▸ h))
          have hgrow : s.mem.failures ≤ v.mem.failures := (alloc_rrcTransfer ha).failures
          simp only at hf ⊢
          unfold rrcFindOrCreate at hf ⊢
          rw [hsame.get rnti] at hf ⊢
          cases hg : rrcGetUeContext s rnti with
          | some a =>
              have hga := (hsame.get rnti).trans hg
              simp only
              rw [(free_sameContexts _ req).recordedType rnti,
                recordIdentity_recordedType huse' hga ht hi, hsame.recordedType rnti]
              have hctx := hsame.context a (List.mem_of_find?_eq_some hg)
              simp only [Option.any_some, keepsType, hctx]
              rfl
          | none =>
              rw [hg] at hf
              simp only at hf ⊢
              cases hc : rrcCreateUeContext env (v.countKpi count) rnti with
              | mk w o =>
                  rw [hc] at hf
                  cases o with
                  | none =>
                      have hw : w.mem.failures = s.mem.failures :=
                        (release_failures w.mem req).symm.trans hf
                      have hlt : v.mem.failures < w.mem.failures :=
                        rrcCreateUeContext_refused (s := v.countKpi count) hc
                      omega
                  | some b =>
                      have hcreated := rrcCreateUeContext_created huse' hc
                      have hgb := hcreated.get ((hsame.get rnti).trans hg)
                      simp only
                      rw [(free_sameContexts _ req).recordedType rnti,
                        recordIdentity_recordedType hcreated.inUse hgb ht hi]
                      have hkeeps : keepsType w b i = false := by
                        unfold keepsType
                        rw [hcreated.new]
                        cases i <;> rfl
                      rw [hkeeps]
                      rfl

/-- **The message type is that of the request** exactly if the context of the RNTI, if there
is one, has this type already, or is not pending deletion and does not hold the identity. -/
theorem msgType_iff (env : Platform β) (s : RrcState β) (rnti : UInt16) (m : Nat → UInt8)
    (request : NasRequest) {i : Identity} (hid : request.identity m = some i) (hi : i ≠ .other)
    (huse : ∀ a ∈ s.gRrcUeContextList, a ∈ s.mem.inUse)
    (hf : (request.decode env s rnti m).mem.failures = s.mem.failures) :
    recordedType (request.decode env s rnti m) rnti = some request.msgType ↔
      ∀ a ∈ rrcGetUeContext s rnti, keepsType s a i = true →
        (s.rrcUeContext a).ueIdentity.msgType = request.msgType := by
  rw [request.decode_eq, hid] at hf ⊢
  rw [requestEffect_recordedType huse request.msgType_ne hi hf]
  cases hg : rrcGetUeContext s rnti with
  | none => simp
  | some a =>
      have htype : recordedType s rnti = some (s.rrcUeContext a).ueIdentity.msgType := by
        unfold recordedType
        rw [hg, Option.map_some]
      rw [Option.any_some, htype]
      cases hk : keepsType s a i with
      | false => simp [hk]
      | true => simp [hk]

/-! ## Two messages with the same S-TMSI -/

/-- A TAU request with the M-TMSI `n`. -/
def tauRequest (n : UInt8) : Nat → UInt8 := fun k =>
  [0x07, 0x48, 0, 11, 0xf6, 0, 0, 0, 0, 0, 0, 0, 0, 0, n].getD k 0

/-- An RRC connection request with the M-TMSI 1 has been processed for the RNTI 61. -/
def connectionRequested : RrcState Nat :=
  rrcParseUlCcchMsg freshPlatform
    { freshState with
      mem := { freshState.mem with
        inUse := {7}
        bytes := fun _ k => [0x40, 0, 0, 0, 0, 0x10].getD k 0 } } 61 7 6

/-- The first message of an RNTI, and one with another M-TMSI after the connection request. -/
theorem msgType_tauRequests :
    recordedType (NasRequest.tau.decode freshPlatform freshState 61 (tauRequest 1)) 61
        = some tauRequestType ∧
      recordedType (NasRequest.tau.decode freshPlatform connectionRequested 61 (tauRequest 2)) 61
        = some tauRequestType := by
  constructor
  · exact (msgType_iff freshPlatform freshState 61 (tauRequest 1) .tau (i := .mTmsi 1)
      (by decide +kernel) (by simp) (by simp [freshState]) (by decide +kernel)).mpr
        (by simp [rrcGetUeContext, freshState])
  · exact (msgType_iff freshPlatform connectionRequested 61 (tauRequest 2) .tau (i := .mTmsi 2)
      (by decide +kernel) (by simp) (by decide +kernel) (by decide +kernel)).mpr
        (by decide +kernel)

/-- After the connection request, the TAU request leaves the type of a service request. -/
theorem msgType_connectionRequested :
    ¬∀ (s : RrcState Nat) (rnti : UInt16) (m : Nat → UInt8) (request : NasRequest) (i : Identity),
      request.identity m = some i → i ≠ .other → (∀ a ∈ s.gRrcUeContextList, a ∈ s.mem.inUse) →
      (request.decode freshPlatform s rnti m).mem.failures = s.mem.failures →
        recordedType (request.decode freshPlatform s rnti m) rnti = some request.msgType := by
  intro h
  have htype := h connectionRequested 61 (tauRequest 1) .tau (.mTmsi 1) (by decide +kernel)
    (by simp) (by decide +kernel) (by decide +kernel)
  exact absurd htype (by decide +kernel)

end LteUlp.Rrc
