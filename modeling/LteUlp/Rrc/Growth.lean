import LteUlp.Pdcp.Model

set_option autoImplicit false
set_option linter.unusedSectionVars false

/-! # What messages do to the lists of contexts

Only the report pass takes a context out of a list or counts it idle. A message appends
contexts to both lists, and the contexts it appends are the only ones whose idle count it
writes: it is 0 in a context that is created, and a copy in one that goes to the ready list.
This holds in every state, whether or not the blocks of the contexts are in use.
-/

namespace LteUlp.Rrc

open BlockStore LteUlp.Nas LteUlp.Pdcp

variable {β : Type} [DecidableEq β] {env : Platform β}

/-- From `s` to `t`, the contexts `new` are appended to the main list and `moved` to the ready
list. -/
structure Appended (s t : RrcState β) (new moved : List β) : Prop where
  contexts : t.gRrcUeContextList = s.gRrcUeContextList ++ new
  ready : t.gReadyRrcUeContextList = s.gReadyRrcUeContextList ++ moved
  old : ∀ a, a ∉ new → a ∉ moved → (t.rrcUeContext a).idleCount = (s.rrcUeContext a).idleCount
  fresh : ∀ a ∈ new, a ∉ moved → (t.rrcUeContext a).idleCount = 0

/-- From `s` to `t`, contexts are appended. -/
def Grown (s t : RrcState β) : Prop := ∃ new moved, Appended s t new moved

section Rules

variable {s t u : RrcState β} {a : β} {o : Option β} {rnti : UInt16}

/-- The contexts and their lists are the same. -/
theorem Grown.of_eq (hl : t.gRrcUeContextList = s.gRrcUeContextList)
    (hr : t.gReadyRrcUeContextList = s.gReadyRrcUeContextList)
    (hc : ∀ a, (t.rrcUeContext a).idleCount = (s.rrcUeContext a).idleCount) : Grown s t := by
  refine ⟨[], [], ?_, ?_, fun a _ _ => hc a, fun a ha => absurd ha List.not_mem_nil⟩
  · rw [hl, List.append_nil]
  · rw [hr, List.append_nil]

theorem Grown.refl (s : RrcState β) : Grown s s := .of_eq rfl rfl fun _ => rfl

theorem Grown.trans (h : Grown s t) (h' : Grown t u) : Grown s u := by
  obtain ⟨new, moved, h⟩ := h
  obtain ⟨new', moved', h'⟩ := h'
  refine ⟨new ++ new', moved ++ moved', ?_, ?_, fun a ha hm => ?_, fun a ha hm => ?_⟩
  · rw [h'.contexts, h.contexts, List.append_assoc]
  · rw [h'.ready, h.ready, List.append_assoc]
  · rw [List.mem_append, not_or] at ha hm
    rw [h'.old a ha.2 hm.2, h.old a ha.1 hm.1]
  · rw [List.mem_append, not_or] at hm
    by_cases hnew : a ∈ new'
    · exact h'.fresh a hnew hm.2
    · have hfirst : a ∈ new := (List.mem_append.mp ha).resolve_right hnew
      rw [h'.old a hnew hm.2]
      exact h.fresh a hfirst hm.1

theorem alloc_grown {n : Nat} (ha : s.alloc env n = (t, o)) : Grown s t := by
  rw [alloc_eq ha]
  exact .of_eq rfl rfl fun _ => rfl

theorem free_grown (s : RrcState β) (a : β) : Grown s (s.free a) :=
  .of_eq rfl rfl fun _ => rfl

theorem countKpi_grown (s : RrcState β) (count : LteKpi → LteKpi) :
    Grown s (s.countKpi count) := .of_eq rfl rfl fun _ => rfl

theorem setBuffer_grown (s : RrcState β) (buf : Nat → UInt8) :
    Grown s { s with gMsgBitBuffer := buf } := .of_eq rfl rfl fun _ => rfl

theorem setIdentity_grown (s : RrcState β) (b : β) (id : UeIdentity) :
    Grown s (s.setIdentity b id) := by
  refine .of_eq rfl rfl fun a => ?_
  show (Function.update s.rrcUeContext b { s.rrcUeContext b with ueIdentity := id } a).idleCount
    = (s.rrcUeContext a).idleCount
  by_cases hab : a = b
  · subst hab
    rw [Function.update_self]
  · rw [Function.update_of_ne hab]

/-! ## Finding and creating -/

/-- **A context is created** with idle count 0. -/
theorem rrcCreateUeContext_grown (hc : rrcCreateUeContext env s rnti = (t, o)) : Grown s t := by
  unfold rrcCreateUeContext at hc
  cases ha : s.alloc env (env.sizeof .rrcUeContext) with
  | mk u o' =>
      have hu := alloc_grown ha
      rw [ha] at hc
      cases o' with
      | none =>
          obtain ⟨rfl, rfl⟩ := Prod.mk.inj hc
          exact hu
      | some b =>
          obtain ⟨rfl, rfl⟩ := Prod.mk.inj hc
          refine hu.trans ⟨[b], [], rfl, (List.append_nil _).symm, fun a hne _ => ?_,
            fun a hmem _ => ?_⟩
          · have hab : a ≠ b := fun h => hne (List.mem_singleton.mpr h)
            exact congrArg RrcUeContext.idleCount (Function.update_of_ne hab _ _)
          · obtain rfl := List.mem_singleton.mp hmem
            show (Function.update u.rrcUeContext a ⟨0, rnti, false, UeIdentity.zero⟩ a).idleCount
              = 0
            rw [Function.update_self]

theorem rrcFindOrCreate_grown (hf : rrcFindOrCreate env s rnti = (t, o)) : Grown s t := by
  unfold rrcFindOrCreate at hf
  cases hg : rrcGetUeContext s rnti with
  | none =>
      rw [hg] at hf
      exact rrcCreateUeContext_grown hf
  | some b =>
      rw [hg] at hf
      obtain ⟨rfl, rfl⟩ := Prod.mk.inj hf
      exact .refl s

/-! ## Updates -/

theorem rrcLiveContext_grown (hf : rrcLiveContext env s a = (t, o)) : Grown s t := by
  unfold rrcLiveContext at hf
  split at hf
  · split at hf
    · rename_i u hc
      obtain ⟨rfl, rfl⟩ := Prod.mk.inj hf
      exact (rrcCreateUeContext_grown hc).trans (.of_eq rfl rfl fun _ => rfl)
    · rename_i u b hc
      obtain ⟨rfl, rfl⟩ := Prod.mk.inj hf
      exact rrcCreateUeContext_grown hc
  · obtain ⟨rfl, rfl⟩ := Prod.mk.inj hf
    exact .refl s

/-- **A copy goes to the ready list.** -/
theorem rrcCopyToReady_grown (misread : Bool) (s : RrcState β) (a : β) :
    Grown s (rrcCopyToReady env misread s a) := by
  unfold rrcCopyToReady
  cases ha : s.alloc env (env.sizeof .rrcUeContext) with
  | mk u o =>
      have hu := alloc_grown ha
      cases o with
      | none => exact hu.trans (.of_eq rfl rfl fun _ => rfl)
      | some old =>
          refine hu.trans ⟨[], [old], (List.append_nil _).symm, rfl, fun b _ hne => ?_,
            fun b hb => absurd hb List.not_mem_nil⟩
          have hb : b ≠ old := fun h => hne (List.mem_singleton.mpr h)
          exact congrArg RrcUeContext.idleCount (Function.update_of_ne hb _ _)

theorem rrcUpdateIdentity_grown (misread : Bool) (present same : UeIdentity → Bool)
    (count : LteKpi → LteKpi) (write : UeIdentity → UeIdentity) (s : RrcState β) (a : β) (msgType : UInt8) :
    Grown s (rrcUpdateIdentity env misread present same count write s a msgType).1 := by
  unfold rrcUpdateIdentity
  cases hl : rrcLiveContext env s a with
  | mk t o =>
      have ht := rrcLiveContext_grown hl
      cases o with
      | none => exact ht
      | some b =>
          simp only
          split
          · exact ht
          · have hcopy : Grown t (if present (t.rrcUeContext b).ueIdentity = true then
                rrcCopyToReady env misread t b else t) := by
              split
              · exact rrcCopyToReady_grown misread t b
              · exact .refl t
            exact ((ht.trans hcopy).trans (countKpi_grown _ count)).trans
              (setIdentity_grown _ b _)

/-! ## NAS messages -/

theorem rrcDecodeIdentityResponse_grown (s : RrcState β) (rnti : UInt16) (m : Nat → UInt8) :
    Grown s (rrcDecodeIdentityResponse env s rnti m) := by
  unfold rrcDecodeIdentityResponse
  cases ha : s.alloc env (env.sizeof .idResponse) with
  | mk t o =>
      have ht := alloc_grown ha
      cases o with
      | none => exact ht
      | some idResp =>
          simp only
          split
          · have hk := ht.trans
              (countKpi_grown t fun kpi => { kpi with idResp := kpi.idResp + 1 })
            split
            · split
              · rename_i u hf
                exact (hk.trans (rrcFindOrCreate_grown hf)).trans (free_grown u idResp)
              · rename_i u b hf
                exact ((hk.trans (rrcFindOrCreate_grown hf)).trans
                  (rrcUpdateIdentity_grown _ _ _ _ _ u b _)).trans (free_grown _ idResp)
            · exact hk.trans (free_grown _ idResp)
          · exact ht.trans (free_grown t idResp)

theorem rrcDecodeRequest_grown (size : Nat) (count : LteKpi → LteKpi)
    (mTmsi : EpsMobileId → Option UInt32) (msgType : UInt8) (s : RrcState β) (rnti : UInt16)
    (decoded : Option EpsMobileId) :
    Grown s (rrcDecodeRequest env size count mTmsi msgType s rnti decoded) := by
  unfold rrcDecodeRequest
  cases ha : s.alloc env size with
  | mk t o =>
      have ht := alloc_grown ha
      cases o with
      | none => exact ht
      | some req =>
          cases decoded with
          | none => exact ht.trans (free_grown t req)
          | some id =>
              have hk := ht.trans (countKpi_grown t count)
              simp only
              split
              · rename_i u hf
                exact (hk.trans (rrcFindOrCreate_grown hf)).trans (free_grown u req)
              · rename_i u b hf
                have hu := hk.trans (rrcFindOrCreate_grown hf)
                split
                · exact (hu.trans (rrcUpdateIdentity_grown _ _ _ _ _ u b _)).trans
                    (free_grown _ req)
                · split
                  · exact (hu.trans (rrcUpdateIdentity_grown _ _ _ _ _ u b _)).trans
                      (free_grown _ req)
                  · exact hu.trans (free_grown u req)

theorem rrcDecodeServiceReq_grown (s : RrcState β) (rnti : UInt16) :
    Grown s (rrcDecodeServiceReq env s rnti) := by
  have hk := countKpi_grown s fun kpi => { kpi with servReq := kpi.servReq + 1 }
  unfold rrcDecodeServiceReq
  split
  · rename_i u hf
    exact hk.trans (rrcFindOrCreate_grown hf)
  · rename_i u b hf
    exact (hk.trans (rrcFindOrCreate_grown hf)).trans (setIdentity_grown u b _)

theorem rrcParseNasMsg_grown (s : RrcState β) (rnti : UInt16) (nas : SimpleByteMsg) :
    Grown s (rrcParseNasMsg env s rnti nas).1 := by
  unfold rrcParseNasMsg
  simp only
  split
  · exact rrcDecodeIdentityResponse_grown s rnti nas.msg
  · split
    · exact rrcDecodeRequest_grown _ _ _ _ s rnti _
    · split
      · exact rrcDecodeRequest_grown _ _ _ _ s rnti _
      · split
        · exact rrcDecodeRequest_grown _ _ _ _ s rnti _
        · split
          · exact rrcDecodeRequest_grown _ _ _ _ s rnti _
          · split
            · exact rrcDecodeServiceReq_grown s rnti
            · exact .refl s

/-! ## RRC messages -/

theorem countRbNums_grown (count : LteKpi → Nat → LteKpi) (s : RrcState β)
    (rpt : UlReportInfoList) : Grown s (countRbNums count s rpt) := by
  unfold countRbNums
  generalize rpt.entries = entries
  induction entries generalizing s with
  | nil => exact .refl s
  | cons info rest ih =>
      rw [List.foldl_cons]
      split
      · exact (countKpi_grown s _).trans (ih _)
      · exact ih s

theorem rrcParseUlInfoTransfer_grown (s : RrcState β) (rnti : UInt16) (data : Nat → UInt8)
    (size : Nat) (rpt : UlReportInfoList) :
    Grown s (rrcParseUlInfoTransfer env s rnti data size rpt) := by
  unfold rrcParseUlInfoTransfer
  cases ha : s.alloc env (env.sizeof .ulInformationTransfer) with
  | mk t o =>
      have ht := alloc_grown ha
      cases o with
      | none => exact ht
      | some msg =>
          have hb := fun buf => ht.trans (setBuffer_grown t buf)
          simp only
          split
          · exact (hb _).trans (free_grown _ msg)
          · split
            · have hnas : ∀ buf nas,
                  Grown s (rrcParseNasMsg env { t with gMsgBitBuffer := buf } rnti nas).1 :=
                fun buf nas => (hb buf).trans (rrcParseNasMsg_grown _ rnti nas)
              refine Grown.trans ?_ (free_grown _ msg)
              split
              · exact (hnas _ _).trans (countRbNums_grown _ _ rpt)
              · exact hnas _ _
            · exact (hb _).trans (free_grown _ msg)

theorem rrcParseRrcSetupComplete_grown (s : RrcState β) (rnti : UInt16) (data : Nat → UInt8)
    (size : Nat) (rpt : UlReportInfoList) :
    Grown s (rrcParseRrcSetupComplete env s rnti data size rpt) := by
  unfold rrcParseRrcSetupComplete
  cases ha : s.alloc env (env.sizeof .rrcConnectionSetupComplete) with
  | mk t o =>
      have ht := alloc_grown ha
      cases o with
      | none => exact ht
      | some msg =>
          have hb := fun buf => ht.trans (setBuffer_grown t buf)
          simp only
          split
          · exact (hb _).trans (free_grown _ msg)
          · refine Grown.trans ?_ (free_grown _ msg)
            refine Grown.trans ?_ (countRbNums_grown _ _ rpt)
            refine Grown.trans ?_ (rrcParseNasMsg_grown _ rnti _)
            exact (hb _).trans (countKpi_grown _ _)

theorem rrcParseUlDcchMsg_grown (s : RrcState β) (rnti : UInt16) (b : β) (size : Nat)
    (rpt : UlReportInfoList) : Grown s (rrcParseUlDcchMsg env s rnti b size rpt) := by
  unfold rrcParseUlDcchMsg
  refine Grown.trans ?_ (free_grown _ b)
  split
  · exact rrcParseUlInfoTransfer_grown s rnti _ size rpt
  · split
    · exact rrcParseRrcSetupComplete_grown s rnti _ size rpt
    · exact .refl s

theorem rrcParseUlCcchMsg_grown (s : RrcState β) (rnti : UInt16) (b : β) (size : Nat) :
    Grown s (rrcParseUlCcchMsg env s rnti b size) := by
  unfold rrcParseUlCcchMsg
  simp only
  split
  · exact .refl s
  · split
    · cases ha : s.alloc env (env.sizeof .rrcConnectionRequest) with
      | mk t o =>
          have ht := alloc_grown ha
          cases o with
          | none => exact ht.trans (free_grown t b)
          | some msg =>
              have hb := fun buf => ht.trans (setBuffer_grown t buf)
              simp only
              split
              · exact ((hb _).trans (free_grown _ msg)).trans (free_grown _ b)
              · have hk := fun buf => (hb buf).trans (countKpi_grown _ fun kpi =>
                  { kpi with rrcConnReq := kpi.rrcConnReq + 1 })
                split
                · split
                  · rename_i u hf
                    exact ((hk _).trans (rrcFindOrCreate_grown hf)).trans (free_grown u msg)
                  · rename_i u c hf
                    exact ((((hk _).trans (rrcFindOrCreate_grown hf)).trans
                      (rrcUpdateIdentity_grown _ _ _ _ _ u c _)).trans (free_grown _ msg)).trans
                      (free_grown _ b)
                · exact ((hk _).trans (free_grown _ msg)).trans (free_grown _ b)
    · exact free_grown s b

/-! ## Data indications -/

theorem macUeCcchDataInd_grown (s : RrcState β) (rnti : UInt16) (b : β) (size : Nat) :
    Grown s (macUeCcchDataInd env s rnti b size) := by
  unfold macUeCcchDataInd
  split
  · exact .refl s
  · exact rrcParseUlCcchMsg_grown s rnti b size

theorem pdcpUeSrbDataInd_grown (s : RrcState β) (rnti : UInt16) (lcId : Nat) (b : β)
    (size : Nat) (rpt : UlReportInfoList) :
    Grown s (pdcpUeSrbDataInd env s rnti lcId b size rpt) := by
  unfold pdcpUeSrbDataInd
  split
  · exact .refl s
  · split
    · exact rrcParseUlDcchMsg_grown s rnti b size rpt
    · exact rrcParseUlCcchMsg_grown s rnti b size

/-- **An SDU of RLC**: contexts are appended. -/
theorem rlcUeDataInd_grown (env : Platform β) (s : RrcState β) (rnti : UInt16) (lcId : Nat)
    (pData : Option β) (size : UInt16) (rpt : UlReportInfoList) :
    Grown s (rlcUeDataInd env s rnti lcId pData size rpt) := by
  unfold rlcUeDataInd
  cases pData with
  | none => exact .refl s
  | some b =>
      simp only
      split
      · exact .refl s
      · split
        · unfold pdcpProcessRxSrb
          split
          · have hdrop : Grown s { s with mem := s.mem.dropFront b 1 } :=
              .of_eq rfl rfl fun _ => rfl
            exact hdrop.trans (pdcpUeSrbDataInd_grown _ rnti lcId b _ rpt)
          · exact free_grown s b
        · exact free_grown s b

end Rules

end LteUlp.Rrc
