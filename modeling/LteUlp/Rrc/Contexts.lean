import LteUlp.Rrc.Ownership

set_option autoImplicit false
set_option linter.unusedSectionVars false

/-! # The contexts of the RRC layer

A context is created only for an RNTI that has none, and only the report pass sets the flag
of a context that it then deletes. So the contexts in the main list have different RNTIs, and
none of them is pending deletion. `RrcSound s xs` says so, and that the blocks of the contexts
and the blocks `xs` in the hand of the caller are in use, each once. Every decoder keeps this,
whichever allocations are refused.
-/

namespace LteUlp.Rrc

open BlockStore LteUlp.Nas

variable {β : Type} [DecidableEq β] {env : Platform β}

/-- The contexts are sound, and the blocks `xs` are in hand. -/
structure RrcSound (s : RrcState β) (xs : Multiset β) : Prop where
  nodup : s.mem.inUse.Nodup
  owned : s.owned + xs ≤ s.mem.inUse
  live : ∀ a ∈ s.gRrcUeContextList, (s.rrcUeContext a).deleteFlag = false
  unique : (s.gRrcUeContextList.map fun a => (s.rrcUeContext a).rnti).Nodup

section Rules

variable {s s' t : RrcState β} {xs ys f : Multiset β} {a : β} {o : Option β} {rnti : UInt16}

theorem RrcSound.inUse (h : RrcSound s xs) (ha : a ∈ s.gRrcUeContextList) :
    a ∈ s.mem.inUse := by
  refine Multiset.mem_of_le h.owned ?_
  unfold RrcState.owned
  simp [ha]

theorem RrcSound.pendingDeletion (h : RrcSound s xs) (rnti : UInt16) :
    Rrc.pendingDeletion s rnti = false := by
  unfold Rrc.pendingDeletion
  cases hg : rrcGetUeContext s rnti with
  | none => rfl
  | some a => exact h.live a (List.mem_of_find?_eq_some hg)

/-- After a transfer the blocks are accounted for, so what is left is to look at the
contexts. -/
theorem RrcSound.transfer (h : RrcSound s (xs + f)) (ht : RrcTransfer s s' xs ys)
    (hlive : ∀ a ∈ s'.gRrcUeContextList, (s'.rrcUeContext a).deleteFlag = false)
    (hunique : (s'.gRrcUeContextList.map fun a => (s'.rrcUeContext a).rnti).Nodup) :
    RrcSound s' (ys + f) := by
  have hle : s.owned + xs + f ≤ s.mem.inUse := by
    rw [add_assoc]
    exact h.owned
  have hrest : s.mem.inUse = s.owned + xs + (s.mem.inUse - (s.owned + xs)) :=
    (add_tsub_cancel_of_le (le_trans (Multiset.le_add_right _ _) hle)).symm
  have hk := Transfer.keeps ht _ h.nodup hrest
  refine ⟨hk.nodup, ?_, hlive, hunique⟩
  rw [hk.inUse, ← add_assoc]
  exact add_le_add_right (le_tsub_of_add_le_left hle) _

/-- The contexts in the list are what they were. -/
theorem RrcSound.same (h : RrcSound s (xs + f)) (ht : RrcTransfer s s' xs ys)
    (hl : s'.gRrcUeContextList = s.gRrcUeContextList)
    (hc : ∀ a ∈ s.gRrcUeContextList, (s'.rrcUeContext a).deleteFlag
      = (s.rrcUeContext a).deleteFlag ∧ (s'.rrcUeContext a).rnti = (s.rrcUeContext a).rnti) :
    RrcSound s' (ys + f) := by
  refine h.transfer ht ?_ ?_
  · intro a ha
    rw [hl] at ha
    rw [(hc a ha).1]
    exact h.live a ha
  · rw [hl, List.map_congr_left fun a ha => (hc a ha).2]
    exact h.unique

theorem alloc_sound {n : Nat} (h : RrcSound s xs) (ha : s.alloc env n = (t, o)) :
    RrcSound t ((o.elim 0 fun b => {b}) + xs) := by
  have hx : RrcSound s (0 + xs) := by rwa [zero_add]
  have ht := alloc_rrcTransfer ha
  rw [alloc_eq ha] at ht ⊢
  exact hx.same ht rfl fun _ _ => ⟨rfl, rfl⟩

theorem free_sound (h : RrcSound s (xs + {a})) : RrcSound (s.free a) xs := by
  rw [add_comm] at h
  have hs := h.same (free_rrcTransfer s a) rfl fun _ _ => ⟨rfl, rfl⟩
  rwa [zero_add] at hs

theorem countKpi_sound (h : RrcSound s xs) (count : LteKpi → LteKpi) :
    RrcSound (s.countKpi count) xs := ⟨h.nodup, h.owned, h.live, h.unique⟩

theorem setBuffer_sound (h : RrcSound s xs) (buf : Nat → UInt8) :
    RrcSound { s with gMsgBitBuffer := buf } xs := ⟨h.nodup, h.owned, h.live, h.unique⟩

/-- Writing to the identity of a context leaves its RNTI and its flag. -/
theorem setIdentity_sound (h : RrcSound s xs) (b : β) (id : UeIdentity) :
    RrcSound (s.setIdentity b id) xs := by
  have hx : RrcSound s (0 + xs) := by rwa [zero_add]
  have hs : RrcSound (s.setIdentity b id) (0 + xs) :=
    hx.same (.of_eq rfl rfl rfl 0) rfl fun a _ => ?_
  · rwa [zero_add] at hs
  · unfold RrcState.setIdentity RrcState.setContext
    by_cases hab : a = b
    · subst hab
      simp
    · simp [Function.update_of_ne hab]

/-- A new block is not one of a context. -/
theorem RrcSound.fresh {n : Nat} (h : RrcSound s xs) (ha : s.alloc env n = (t, some a)) :
    ∀ b ∈ s.gRrcUeContextList, b ≠ a := by
  intro b hb
  have h1 : (s.mem.alloc env.toPolicy n).2 = some a := congrArg Prod.snd ha
  exact ne_of_mem_of_not_mem (h.inUse hb) (alloc_some h1).2.2

/-! ## Finding and creating -/

theorem rrcCreateUeContext_sound (h : RrcSound s xs) (hnone : rrcGetUeContext s rnti = none)
    (hc : rrcCreateUeContext env s rnti = (t, o)) :
    RrcSound t xs ∧ ∀ a, o = some a → a ∈ t.gRrcUeContextList := by
  have hx : RrcSound s (0 + xs) := by rwa [zero_add]
  have ht := rrcCreateUeContext_transfer env s rnti
  rw [hc] at ht
  unfold rrcCreateUeContext at hc
  cases ha : s.alloc env (env.sizeof .rrcUeContext) with
  | mk u o' =>
      rw [ha] at hc
      cases o' with
      | none =>
          obtain ⟨rfl, rfl⟩ := Prod.mk.inj hc
          have hs := alloc_sound h ha
          exact ⟨by simpa using hs, by simp⟩
      | some b =>
          have hfresh := h.fresh ha
          have hu := alloc_eq ha
          obtain ⟨rfl, rfl⟩ := Prod.mk.inj hc
          have hold : ∀ c ∈ s.gRrcUeContextList,
              Function.update s.rrcUeContext b ⟨0, rnti, false, UeIdentity.zero⟩ c
                = s.rrcUeContext c := fun c hc => Function.update_of_ne (hfresh c hc) _ _
          refine ⟨?_, fun a ha => ?_⟩
          · have hs := hx.transfer ht ?_ ?_
            · rwa [zero_add] at hs
            · intro c hc
              rw [hu] at hc ⊢
              show (Function.update s.rrcUeContext b _ c).deleteFlag = false
              rcases List.mem_append.mp hc with hc | hc
              · rw [hold c hc]
                exact h.live c hc
              · obtain rfl := List.mem_singleton.mp hc
                rw [Function.update_self]
            · rw [hu]
              show ((s.gRrcUeContextList ++ [b]).map fun c =>
                (Function.update s.rrcUeContext b _ c).rnti).Nodup
              rw [List.map_append, List.map_congr_left fun c hc => congrArg _ (hold c hc)]
              refine List.nodup_append.mpr ⟨h.unique, by simp, ?_⟩
              intro x hx y hy
              obtain ⟨c, hc, rfl⟩ := List.mem_map.mp hx
              simp only [List.map_cons, Function.update_self, List.map_nil,
                List.mem_singleton] at hy
              rw [hy]
              have hall := List.find?_eq_none.mp hnone c hc
              simpa using hall
          · obtain rfl := Option.some.inj ha
            simp

/-- **The context of an RNTI is found, or created if there is none.** -/
theorem rrcFindOrCreate_sound (h : RrcSound s xs) (hf : rrcFindOrCreate env s rnti = (t, o)) :
    RrcSound t xs ∧ ∀ a, o = some a → a ∈ t.gRrcUeContextList := by
  unfold rrcFindOrCreate at hf
  cases hg : rrcGetUeContext s rnti with
  | none =>
      rw [hg] at hf
      exact rrcCreateUeContext_sound h hg hf
  | some b =>
      rw [hg] at hf
      obtain ⟨rfl, rfl⟩ := Prod.mk.inj hf
      refine ⟨h, fun a ha => ?_⟩
      obtain rfl := Option.some.inj ha
      exact List.mem_of_find?_eq_some hg

/-! ## Updates -/

theorem rrcLiveContext_live (hlive : (s.rrcUeContext a).deleteFlag = false) :
    rrcLiveContext env s a = (s, some a) := by
  unfold rrcLiveContext
  rw [hlive]
  exact if_neg Bool.false_ne_true

theorem rrcCopyToReady_sound (misread : Bool) (h : RrcSound s xs) (a : β) :
    RrcSound (rrcCopyToReady env misread s a) xs := by
  have hx : RrcSound s (0 + xs) := by rwa [zero_add]
  have ht : RrcTransfer s (rrcCopyToReady env misread s a) 0 0 :=
    rrcCopyToReady_transfer misread s a
  suffices hs : RrcSound (rrcCopyToReady env misread s a) (0 + xs) by rwa [zero_add] at hs
  unfold rrcCopyToReady at ht ⊢
  cases ha : s.alloc env (env.sizeof .rrcUeContext) with
  | mk u o =>
      rw [ha] at ht
      have hu := alloc_eq ha
      cases o with
      | none =>
          refine hx.same ht ?_ fun c hc => ?_ <;> rw [hu]
          · rfl
          · exact ⟨rfl, rfl⟩
      | some old =>
          refine hx.same ht ?_ fun c hc => ?_ <;> rw [hu]
          · rfl
          · simp [RrcState.setContext, Function.update_of_ne (h.fresh ha c hc)]

/-- **An update** of a context in the list does not get to the branch for one that is pending
deletion. -/
theorem rrcUpdateIdentity_sound (misread : Bool) (present same : UeIdentity → Bool)
    (count : LteKpi → LteKpi) (write : UeIdentity → UeIdentity) (h : RrcSound s xs) (ha : a ∈ s.gRrcUeContextList)
    (msgType : UInt8) :
    RrcSound (rrcUpdateIdentity env misread present same count write s a msgType).1 xs := by
  unfold rrcUpdateIdentity
  rw [rrcLiveContext_live (h.live a ha)]
  simp only
  split
  · exact h
  · apply setIdentity_sound
    apply countKpi_sound
    split
    · exact rrcCopyToReady_sound misread h a
    · exact h

/-! ## NAS messages -/

theorem rrcDecodeIdentityResponse_sound (h : RrcSound s xs) (rnti : UInt16)
    (m : Nat → UInt8) : RrcSound (rrcDecodeIdentityResponse env s rnti m) xs := by
  unfold rrcDecodeIdentityResponse
  cases ha : s.alloc env (env.sizeof .idResponse) with
  | mk t o =>
      have ht := alloc_sound h ha
      cases o with
      | none => simpa using ht
      | some idResp =>
          rw [Option.elim_some, add_comm] at ht
          simp only
          split
          · have hk := countKpi_sound ht fun kpi => { kpi with idResp := kpi.idResp + 1 }
            split
            · split
              · rename_i u hf
                exact free_sound (rrcFindOrCreate_sound hk hf).1
              · rename_i u b hf
                obtain ⟨hu, hmem⟩ := rrcFindOrCreate_sound hk hf
                exact free_sound (rrcUpdateIdentity_sound _ _ _ _ _ hu (hmem b rfl) _)
            · exact free_sound hk
          · exact free_sound ht

theorem rrcDecodeRequest_sound (size : Nat) (count : LteKpi → LteKpi)
    (mTmsi : EpsMobileId → Option UInt32) (msgType : UInt8) (h : RrcSound s xs) (rnti : UInt16)
    (decoded : Option EpsMobileId) :
    RrcSound (rrcDecodeRequest env size count mTmsi msgType s rnti decoded) xs := by
  unfold rrcDecodeRequest
  cases ha : s.alloc env size with
  | mk t o =>
      have ht := alloc_sound h ha
      cases o with
      | none => simpa using ht
      | some req =>
          rw [Option.elim_some, add_comm] at ht
          cases decoded with
          | none => exact free_sound ht
          | some id =>
              have hk := countKpi_sound ht count
              simp only
              split
              · rename_i u hf
                exact free_sound (rrcFindOrCreate_sound hk hf).1
              · rename_i u b hf
                obtain ⟨hu, hmem⟩ := rrcFindOrCreate_sound hk hf
                have hb := hmem b rfl
                split
                · exact free_sound (rrcUpdateIdentity_sound _ _ _ _ _ hu hb _)
                · split
                  · exact free_sound (rrcUpdateIdentity_sound _ _ _ _ _ hu hb _)
                  · exact free_sound hu

theorem rrcDecodeServiceReq_sound (h : RrcSound s xs) (rnti : UInt16) :
    RrcSound (rrcDecodeServiceReq env s rnti) xs := by
  have hk := countKpi_sound h fun kpi => { kpi with servReq := kpi.servReq + 1 }
  unfold rrcDecodeServiceReq
  split
  · rename_i u hf
    exact (rrcFindOrCreate_sound hk hf).1
  · rename_i u b hf
    exact setIdentity_sound (rrcFindOrCreate_sound hk hf).1 b _

theorem rrcParseNasMsg_sound (h : RrcSound s xs) (rnti : UInt16) (nas : SimpleByteMsg) :
    RrcSound (rrcParseNasMsg env s rnti nas).1 xs := by
  unfold rrcParseNasMsg
  simp only
  split
  · exact rrcDecodeIdentityResponse_sound h rnti nas.msg
  · split
    · exact rrcDecodeRequest_sound _ _ _ _ h rnti _
    · split
      · exact rrcDecodeRequest_sound _ _ _ _ h rnti _
      · split
        · exact rrcDecodeRequest_sound _ _ _ _ h rnti _
        · split
          · exact rrcDecodeRequest_sound _ _ _ _ h rnti _
          · split
            · exact rrcDecodeServiceReq_sound h rnti
            · exact h

/-! ## RRC messages -/

theorem countRbNums_sound (count : LteKpi → Nat → LteKpi) (h : RrcSound s xs)
    (rpt : UlReportInfoList) : RrcSound (countRbNums count s rpt) xs := by
  unfold countRbNums
  generalize rpt.entries = entries
  induction entries generalizing s with
  | nil => exact h
  | cons info rest ih =>
      rw [List.foldl_cons]
      apply ih
      split
      · exact countKpi_sound h _
      · exact h

theorem rrcParseUlInfoTransfer_sound (h : RrcSound s xs) (rnti : UInt16) (data : Nat → UInt8)
    (size : Nat) (rpt : UlReportInfoList) :
    RrcSound (rrcParseUlInfoTransfer env s rnti data size rpt) xs := by
  unfold rrcParseUlInfoTransfer
  cases ha : s.alloc env (env.sizeof .ulInformationTransfer) with
  | mk t o =>
      have ht := alloc_sound h ha
      cases o with
      | none => simpa using ht
      | some msg =>
          rw [Option.elim_some, add_comm] at ht
          simp only
          split
          · exact free_sound (setBuffer_sound ht _)
          · split
            · apply free_sound
              split
              · apply countRbNums_sound
                exact rrcParseNasMsg_sound (setBuffer_sound ht _) rnti _
              · exact rrcParseNasMsg_sound (setBuffer_sound ht _) rnti _
            · exact free_sound (setBuffer_sound ht _)

theorem rrcParseRrcSetupComplete_sound (h : RrcSound s xs) (rnti : UInt16)
    (data : Nat → UInt8) (size : Nat) (rpt : UlReportInfoList) :
    RrcSound (rrcParseRrcSetupComplete env s rnti data size rpt) xs := by
  unfold rrcParseRrcSetupComplete
  cases ha : s.alloc env (env.sizeof .rrcConnectionSetupComplete) with
  | mk t o =>
      have ht := alloc_sound h ha
      cases o with
      | none => simpa using ht
      | some msg =>
          rw [Option.elim_some, add_comm] at ht
          simp only
          split
          · exact free_sound (setBuffer_sound ht _)
          · apply free_sound
            apply countRbNums_sound
            apply rrcParseNasMsg_sound
            exact countKpi_sound (setBuffer_sound ht _) _

theorem rrcParseUlDcchMsg_sound (h : RrcSound s (xs + {a})) (rnti : UInt16) (size : Nat)
    (rpt : UlReportInfoList) : RrcSound (rrcParseUlDcchMsg env s rnti a size rpt) xs := by
  unfold rrcParseUlDcchMsg
  apply free_sound
  split
  · exact rrcParseUlInfoTransfer_sound h rnti _ size rpt
  · split
    · exact rrcParseRrcSetupComplete_sound h rnti _ size rpt
    · exact h

/-- A block in hand may be left behind. -/
theorem RrcSound.drop (h : RrcSound s (xs + ys)) : RrcSound s xs :=
  ⟨h.nodup, le_trans (add_le_add_right (Multiset.le_add_right xs ys) _) h.owned, h.live,
    h.unique⟩

theorem rrcParseUlCcchMsg_sound (h : RrcSound s (xs + {a})) (rnti : UInt16) (size : Nat) :
    RrcSound (rrcParseUlCcchMsg env s rnti a size) xs := by
  unfold rrcParseUlCcchMsg
  simp only
  split
  · exact h.drop
  · split
    · cases ha : s.alloc env (env.sizeof .rrcConnectionRequest) with
      | mk t o =>
          have ht := alloc_sound h ha
          cases o with
          | none => exact free_sound (by simpa using ht)
          | some msg =>
              rw [Option.elim_some, add_comm] at ht
              have hb := fun buf => setBuffer_sound ht buf
              simp only
              split
              · exact free_sound (free_sound (hb _))
              · have hk := fun buf => countKpi_sound (hb buf) fun kpi =>
                  { kpi with rrcConnReq := kpi.rrcConnReq + 1 }
                split
                · split
                  · rename_i u hf
                    exact (free_sound (rrcFindOrCreate_sound (hk _) hf).1).drop
                  · rename_i u b hf
                    obtain ⟨hu, hmem⟩ := rrcFindOrCreate_sound (hk _) hf
                    exact free_sound (free_sound
                      (rrcUpdateIdentity_sound _ _ _ _ _ hu (hmem b rfl) _))
                · exact free_sound (free_sound (hk _))
    · exact free_sound h

/-! ## Data indications -/

theorem pdcpUeSrbDataInd_sound (h : RrcSound s (xs + {a})) (rnti : UInt16) (lcId : Nat)
    (size : Nat) (rpt : UlReportInfoList) :
    RrcSound (pdcpUeSrbDataInd env s rnti lcId a size rpt) xs := by
  unfold pdcpUeSrbDataInd
  split
  · exact h.drop
  · split
    · exact rrcParseUlDcchMsg_sound h rnti size rpt
    · exact rrcParseUlCcchMsg_sound h rnti size

end Rules

end LteUlp.Rrc
