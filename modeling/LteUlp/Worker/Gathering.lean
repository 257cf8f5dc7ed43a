import LteUlp.Pdcp.Model
import LteUlp.Rrc.NasDecoding
import LteUlp.Worker.Collection

set_option autoImplicit false
set_option linter.unusedSectionVars false

/-! # What an SDU tells is gathered

`sduTold` is the list of identities that an SDU tells, read off from what the decoders make of
it. `Gathers s t xs ys told` says what a part of the RRC layer does when no allocation is
refused: the blocks `xs` in hand turn into `ys`, the contexts stay sound, every identity is
carried by at least as many contexts as before, and those that are carried are those that were
carried before and those that are told. The main result is `rlcUeDataInd_gathers`, for an SDU
of any bytes.
-/

namespace LteUlp.Worker

open BlockStore LteUlp.Nas LteUlp.Rrc LteUlp.Pdcp

/-! ## What is told -/

/-- What is collected of an identity in a message. -/
def collectedOf : Identity → Option Collected
  | .mTmsi v => some (.mTmsi v)
  | .imsi digits => if h : digits.length = 15 then some (.imsi ⟨digits, h⟩) else none
  | .other => none

/-- What a NAS message tells. -/
def nasTold (m : Nat → UInt8) : List Collected := ((decoded m).2.bind collectedOf).toList

section Told

variable {β : Type} [DecidableEq β] (env : Platform β)

/-- What an UL information transfer tells. -/
def ulInfoTold (s : RrcState β) (data : Nat → UInt8) (size : Nat) : List Collected :=
  match (asn1ParseUlInfoTransMsg s.gMsgBitBuffer data size
    (env.leftover s.mem.clock).ulInformationTransfer).2 with
  | none => []
  | some info =>
      if info.dedicatedInfoType = ulInformationTransferTypeNas then
        nasTold info.dedicatedInfo.msg
      else []

/-- What an RRC connection setup complete tells. -/
def setupComplTold (s : RrcState β) (data : Nat → UInt8) (size : Nat) : List Collected :=
  match (asn1ParseRrcSetupComplMsg s.gMsgBitBuffer data size
    (env.leftover s.mem.clock).rrcConnectionSetupComplete).2 with
  | none => []
  | some compl => nasTold compl.dedicatedInfoNas.msg

/-- What a message on the DCCH tells. -/
def dcchTold (s : RrcState β) (data : Nat → UInt8) (size : Nat) : List Collected :=
  let rrcMsgType := (data 0 >>> 3) &&& 0x0f
  if rrcMsgType = rrcUlDcchMsgTypeUlInfoTransfer then ulInfoTold env s data size
  else if rrcMsgType = rrcUlDcchMsgTypeRrcConSetupComplete then setupComplTold env s data size
  else []

/-- What a message on the CCCH tells. -/
def ccchTold (s : RrcState β) (data : Nat → UInt8) (size : Nat) : List Collected :=
  if size = 0 then []
  else if (data 0 >>> 6) &&& 0x01 = rrcUlCcchMsgTypeRrcConReq then
    match (asn1ParseRrcConnReqMsg s.gMsgBitBuffer data size
      (env.leftover s.mem.clock).rrcConnectionRequest).2 with
    | none => []
    | some req => if req.ueIdType = conReqUeIdTypeSTmsi then [.mTmsi req.mTmsi] else []
  else []

/-- What an SDU tells. On SRB 1 the header of PDCP comes first. -/
def sduTold (s : RrcState β) (lcId : Nat) (b : β) (size : UInt16) : List Collected :=
  let t := { s with mem := s.mem.dropFront b 1 }
  if size = 0 ∨ 2 ≤ lcId ∨ (size - 1).toNat = 0 then []
  else if lcId > 0 then dcchTold env t (t.mem.bytes b) (size - 1).toNat
  else ccchTold env t (t.mem.bytes b) (size - 1).toNat

end Told

/-! ## Gathering -/

section Rules

variable {β : Type} [DecidableEq β] {env : Platform β} {s t u : RrcState β}
variable {xs ys zs : Multiset β} {told told' : List (UInt16 × Collected)}
variable {a : β} {o : Option β} {rnti : UInt16}

/-- The contexts are sound, with the blocks `xs` in hand, and those that are ready hold an
identity. -/
structure Gathered (s : RrcState β) (xs : Multiset β) : Prop extends RrcSound s xs where
  ready : ∀ a ∈ s.gReadyRrcUeContextList,
    ((s.rrcUeContext a).ueIdentity.imsiPresent || (s.rrcUeContext a).ueIdentity.mTmsiPresent)
      = true

/-- The blocks `xs` turn into `ys`. If no allocation is refused, the identities that are
carried stay carried, and those that are told, and no others, come in addition. -/
structure Gathers (s t : RrcState β) (xs ys : Multiset β) (told : List (UInt16 × Collected)) :
    Prop where
  failures : s.mem.failures ≤ t.mem.failures
  after : t.mem.failures = s.mem.failures → Gathered s xs →
    Gathered t ys ∧ (∀ r x, tally r x s ≤ tally r x t) ∧
      ∀ r x, 1 ≤ tally r x t ↔ 1 ≤ tally r x s ∨ (r, x) ∈ told

theorem Gathered.ok (h : Gathered s xs) : RrcOk s := by
  have hle : s.owned ≤ s.mem.inUse := le_trans (Multiset.le_add_right _ _) h.owned
  exact ⟨⟨s.mem.inUse - s.owned, (add_tsub_cancel_of_le hle).symm⟩, h.nodup, h.live, h.unique,
    h.ready⟩

theorem Gathers.refl (s : RrcState β) (xs : Multiset β) : Gathers s s xs xs [] :=
  ⟨le_rfl, fun _ h => ⟨h, fun _ _ => le_rfl, by simp⟩⟩

theorem Gathers.seq (h : Gathers s t xs ys told) (h' : Gathers t u ys zs told') :
    Gathers s u xs zs (told ++ told') := by
  have hle := h.failures
  have hle' := h'.failures
  refine ⟨hle.trans hle', fun hf hs => ?_⟩
  obtain ⟨ht, htally, htold⟩ := h.after (by omega) hs
  obtain ⟨hu, htally', htold'⟩ := h'.after (by omega) ht
  refine ⟨hu, fun r x => (htally r x).trans (htally' r x), fun r x => ?_⟩
  rw [htold', htold, List.mem_append, or_assoc]

/-- First a part that tells nothing. -/
theorem Gathers.after_quiet (h : Gathers s t xs ys []) (h' : Gathers t u ys zs told) :
    Gathers s u xs zs told := h.seq h'

/-- Last a part that tells nothing. -/
theorem Gathers.then_quiet (h : Gathers s t xs ys told) (h' : Gathers t u ys zs []) :
    Gathers s u xs zs told := List.append_nil told ▸ h.seq h'

/-- Nothing is promised once an allocation was refused. -/
theorem Gathers.refused (h : s.mem.failures < t.mem.failures) : Gathers s t xs ys told :=
  ⟨h.le, fun hf _ => absurd hf h.ne'⟩

/-- What is carried stays the same. -/
theorem Gathers.same (hf : s.mem.failures ≤ t.mem.failures)
    (hs : t.mem.failures = s.mem.failures → Gathered s xs →
      Gathered t ys ∧ ∀ r x, tally r x t = tally r x s) : Gathers s t xs ys [] := by
  refine ⟨hf, fun hfail hg => ?_⟩
  obtain ⟨ht, htally⟩ := hs hfail hg
  refine ⟨ht, fun r x => (htally r x).ge, fun r x => ?_⟩
  rw [htally]
  simp

/-- The contexts are left as they are. -/
theorem Gathers.quiet (hf : s.mem.failures ≤ t.mem.failures)
    (hsound : RrcSound s xs → RrcSound t ys) (hc : t.rrcUeContext = s.rrcUeContext)
    (hl : t.gRrcUeContextList = s.gRrcUeContextList)
    (hr : t.gReadyRrcUeContextList = s.gReadyRrcUeContextList) : Gathers s t xs ys [] := by
  refine .same hf fun _ hs => ⟨⟨hsound hs.toRrcSound, ?_⟩, fun r x => ?_⟩
  · rw [hr, hc]
    exact hs.ready
  · unfold tally
    rw [hl, hr, hc]

/-! ### Memory -/

theorem alloc_gathers {n : Nat} (ha : s.alloc env n = (t, o)) :
    Gathers s t xs ((o.elim 0 fun b => {b}) + xs) [] := by
  have hu := alloc_eq ha
  have hfail : s.mem.failures ≤ t.mem.failures := by
    have h1 : (s.alloc env n).1.mem = t.mem := by rw [ha]
    rw [← h1]
    exact (alloc_transfer env.toPolicy s.mem n).failures
  refine .quiet hfail (fun h => alloc_sound h ha) ?_ ?_ ?_
  all_goals rw [hu]

theorem free_gathers (s : RrcState β) (a : β) : Gathers s (s.free a) (xs + {a}) xs [] :=
  .quiet (release_failures s.mem a).ge free_sound rfl rfl rfl

theorem countKpi_gathers (s : RrcState β) (count : LteKpi → LteKpi) :
    Gathers s (s.countKpi count) xs xs [] :=
  .quiet le_rfl (fun h => countKpi_sound h count) rfl rfl rfl

theorem setBuffer_gathers (s : RrcState β) (buf : Nat → UInt8) :
    Gathers s { s with gMsgBitBuffer := buf } xs xs [] :=
  .quiet le_rfl (fun h => setBuffer_sound h buf) rfl rfl rfl

/-- A block in hand may be left behind. -/
theorem Gathers.drop (h : Gathers s t xs (ys + zs) told) : Gathers s t xs ys told := by
  refine ⟨h.failures, fun hf hs => ?_⟩
  obtain ⟨ht, hrest⟩ := h.after hf hs
  exact ⟨⟨ht.toRrcSound.drop, ht.ready⟩, hrest⟩

/-! ### Contexts -/

theorem find_gathers (hf : rrcFindOrCreate env s rnti = (t, o)) : Gathers s t xs xs [] := by
  cases o with
  | none => exact .refused (rrcFindOrCreate_refused hf)
  | some a =>
      have hmoves := rrcFindOrCreate_moves hf
      have hfound := rrcFindOrCreate_found hf
      refine .same hmoves.failures fun hfail hs => ⟨⟨?_, ?_⟩, fun r x => ?_⟩
      · exact (rrcFindOrCreate_sound hs.toRrcSound hf).1
      · exact (hfound.ok hs.ok hmoves hfail).1.ready
      · exact hfound.tally hs.ok r x

/-- A copy carries what the context has carried. -/
theorem copied_tally {x y : Collected} {id : UeIdentity} {r : UInt16}
    (hid : replacedIdentity s rnti x = some id) (hc : copies r y (rnti, x, id) = true) :
    1 ≤ tally r y s := by
  unfold replacedIdentity at hid
  cases hg : rrcGetUeContext s rnti with
  | none =>
      rw [hg] at hid
      cases hid
  | some a =>
      rw [hg] at hid
      simp only [Option.ite_none_right_eq_some, Option.some.injEq] at hid
      obtain ⟨ha, hr⟩ := rrcGetUeContext_some hg
      simp only [copies, Bool.and_eq_true, beq_iff_eq] at hc
      refine one_le_tally ha ?_
      simp only [carries, Bool.and_eq_true, beq_iff_eq]
      exact ⟨hr.trans hc.1.1, hid.2 ▸ hc.2⟩

/-- **An identity is recorded.** -/
theorem collect_gathers (env : Platform β) (s : RrcState β) (rnti : UInt16) (x : Collected)
    (msgType : UInt8) : Gathers s (collect env s rnti x msgType) xs xs [(rnti, x)] := by
  have hsound : RrcSound s xs → RrcSound (collect env s rnti x msgType) xs := by
    intro h
    unfold collect
    cases hf : rrcFindOrCreate env s rnti with
    | mk t o =>
        obtain ⟨ht, hmem⟩ := rrcFindOrCreate_sound h hf
        cases o with
        | none => exact ht
        | some a =>
            simp only
            rw [rrcUpdate_eq]
            exact rrcUpdateIdentity_sound _ _ _ _ _ ht (hmem a rfl) msgType
  refine ⟨(collect_moves s rnti x msgType).failures, fun hf hs => ?_⟩
  obtain ⟨hok, hone, htally⟩ := collect_spec hs.ok hf
  refine ⟨⟨hsound hs.toRrcSound, hok.ready⟩, fun r y => ?_, fun r y => ⟨fun h => ?_, ?_⟩⟩
  · rw [htally]
    omega
  · -- what is new is the identity itself, or a copy of what was there
    rw [List.mem_singleton, Prod.mk.injEq]
    by_contra hno
    rw [not_or] at hno
    have hcount := htally r y
    have hother : ¬(rnti = r ∧ y = x) := fun hy => hno.2 ⟨hy.1.symm, hy.2⟩
    simp only [if_neg hother, ite_self] at hcount
    cases hid : replacedIdentity s rnti x with
    | none =>
        rw [hid, Option.elim_none] at hcount
        omega
    | some id =>
        rw [hid, Option.elim_some] at hcount
        cases hc : copies r y (rnti, x, id) with
        | true => exact hno.1 (copied_tally hid hc)
        | false =>
            rw [hc, Bool.toNat_false] at hcount
            omega
  · intro h
    rcases h with h | h
    · have hcount := htally r y
      omega
    · obtain ⟨rfl, rfl⟩ := Prod.mk.inj (List.mem_singleton.mp h)
      exact hone

/-- A service request writes its type to the context, which carries what it carried. -/
theorem rrcDecodeServiceReq_gathers (s : RrcState β) (rnti : UInt16) :
    Gathers s (rrcDecodeServiceReq env s rnti) xs xs [] := by
  have hk : Gathers s (s.countKpi fun kpi => { kpi with servReq := kpi.servReq + 1 }) xs xs [] :=
    countKpi_gathers s _
  unfold rrcDecodeServiceReq
  cases hf : rrcFindOrCreate env
      (s.countKpi fun kpi => { kpi with servReq := kpi.servReq + 1 }) rnti with
  | mk t o =>
      refine hk.after_quiet ((find_gathers hf).after_quiet ?_)
      cases o with
      | none => exact .refl t xs
      | some a =>
          have hid : ∀ b, (Function.update t.rrcUeContext a
              { t.rrcUeContext a with ueIdentity :=
                { (t.rrcUeContext a).ueIdentity with msgType := serviceRequestType } } b)
              = { t.rrcUeContext b with ueIdentity :=
                  { (t.rrcUeContext b).ueIdentity with
                    msgType := if b = a then serviceRequestType
                      else (t.rrcUeContext b).ueIdentity.msgType } } := by
            intro b
            by_cases hb : b = a
            · rw [hb, Function.update_self, if_pos rfl]
            · rw [Function.update_of_ne hb, if_neg hb]
          refine .same le_rfl fun _ hs => ⟨⟨setIdentity_sound hs.toRrcSound a _, ?_⟩,
            fun r x => ?_⟩
          · intro b hb
            show ((Function.update t.rrcUeContext a _ b).ueIdentity.imsiPresent ||
              (Function.update t.rrcUeContext a _ b).ueIdentity.mTmsiPresent) = true
            rw [hid]
            exact hs.ready b hb
          · have hcount : ∀ l : List β, (l.map (Function.update t.rrcUeContext a
                { t.rrcUeContext a with ueIdentity :=
                  { (t.rrcUeContext a).ueIdentity with msgType := serviceRequestType } })).countP
                  (carries r x) = (l.map t.rrcUeContext).countP (carries r x) := by
              intro l
              rw [List.countP_map, List.countP_map]
              apply List.countP_congr
              intro b _
              simp only [Function.comp_apply, hid, carries, Collected.heldBy_msgType]
            unfold tally
            show (t.gRrcUeContextList.map (Function.update t.rrcUeContext a _)).countP _
              + (t.gReadyRrcUeContextList.map (Function.update t.rrcUeContext a _)).countP _ = _
            rw [hcount, hcount]

/-! ## NAS messages -/

/-- The identities of a list, for the UE. -/
def forUe (rnti : UInt16) (l : List Collected) : List (UInt16 × Collected) :=
  l.map fun x => (rnti, x)

/-- What the handlers do with an identity that they have taken from a message. -/
def recordFound (env : Platform β) (msgType : UInt8) (s : RrcState β) (rnti : UInt16)
    (i : Identity) (req : β) : RrcState β :=
  match rrcFindOrCreate env s rnti with
  | (t, none) => t.free req
  | (t, some a) => (recordIdentity env msgType t a i).1.free req

theorem recordFound_gathers (s : RrcState β) (rnti : UInt16) (msgType : UInt8) (i : Identity)
    (hi : ∀ digits, i = .imsi digits → digits.length = 15) (req : β) :
    Gathers s (recordFound env msgType s rnti i req) (xs + {req}) xs
      (forUe rnti (collectedOf i).toList) := by
  have hcollect : ∀ x : Collected, (∀ (t : RrcState β) (a : β),
      recordIdentity env msgType t a i = rrcUpdate env x t a msgType) →
      Gathers s (recordFound env msgType s rnti i req) (xs + {req}) xs [(rnti, x)] := by
    intro x hx
    have hcoll : Gathers s _ (xs + {req}) (xs + {req}) _ := collect_gathers env s rnti x msgType
    have hboth := hcoll.then_quiet (free_gathers _ req)
    unfold collect at hboth
    unfold recordFound
    cases hf : rrcFindOrCreate env s rnti with
    | mk t o =>
        rw [hf] at hboth
        cases o with
        | none => exact hboth
        | some a =>
            simp only at hboth ⊢
            rw [hx]
            exact hboth
  cases i with
  | mTmsi v => exact hcollect (.mTmsi v) fun _ _ => rfl
  | imsi digits =>
      have hlen := hi digits rfl
      have htold : (collectedOf (.imsi digits)).toList = [.imsi ⟨digits, hlen⟩] := by
        simp only [collectedOf, dif_pos hlen, Option.toList_some]
      rw [htold]
      exact hcollect (.imsi ⟨digits, hlen⟩) fun _ _ => rfl
  | other =>
      unfold recordFound
      cases hf : rrcFindOrCreate env s rnti with
      | mk t o =>
          have hfind : Gathers s t (xs + {req}) (xs + {req}) [] := find_gathers hf
          have ht := hfind.after_quiet (free_gathers t req)
          cases o with
          | none => exact ht
          | some a => exact ht

theorem requestEffect_gathers (size : Nat) (count : LteKpi → LteKpi) (msgType : UInt8)
    (s : RrcState β) (rnti : UInt16) (identity : Option Identity)
    (hi : ∀ digits, identity = some (.imsi digits) → digits.length = 15) :
    Gathers s (requestEffect env size count msgType s rnti identity) xs xs
      (forUe rnti (identity.bind collectedOf).toList) := by
  unfold requestEffect
  cases ha : s.alloc env size with
  | mk t o =>
      cases o with
      | none => exact .refused (alloc_refused ha)
      | some req =>
          have ht : Gathers s t xs (xs + {req}) [] := by
            rw [add_comm]
            exact alloc_gathers ha
          cases identity with
          | none => exact ht.after_quiet (free_gathers t req)
          | some i =>
              refine ht.after_quiet ((countKpi_gathers t count).after_quiet ?_)
              exact recordFound_gathers _ rnti msgType i (fun d hd => hi d (congrArg some hd)) req

theorem identityResponseEffect_gathers (s : RrcState β) (rnti : UInt16)
    (identity : Option Identity)
    (hi : ∀ digits, identity = some (.imsi digits) → digits.length = 15)
    (hno : ∀ v, identity ≠ some (.mTmsi v)) :
    Gathers s (identityResponseEffect env s rnti identity) xs xs
      (forUe rnti (identity.bind collectedOf).toList) := by
  unfold identityResponseEffect
  cases ha : s.alloc env (env.sizeof .idResponse) with
  | mk t o =>
      cases o with
      | none => exact .refused (alloc_refused ha)
      | some req =>
          have ht : Gathers s t xs (xs + {req}) [] := by
            rw [add_comm]
            exact alloc_gathers ha
          cases identity with
          | none => exact ht.after_quiet (free_gathers t req)
          | some i =>
              have hk := ht.after_quiet
                (countKpi_gathers t fun kpi => { kpi with idResp := kpi.idResp + 1 })
              cases i with
              | mTmsi v => exact absurd rfl (hno v)
              | imsi digits =>
                  exact hk.after_quiet (recordFound_gathers _ rnti noMsgType (.imsi digits)
                    (fun d hd => hi d (congrArg some hd)) req)
              | other => exact hk.after_quiet (free_gathers _ req)

theorem digits_length (m : Nat → UInt8) (p : Nat) : (digits m p).length = 15 := rfl

theorem epsIdentityAt_imsi {tmsiType : UInt8} {off : Nat} {m : Nat → UInt8} {p : Nat}
    {ds : List UInt8} (h : epsIdentityAt tmsiType off m p = .imsi ds) : ds.length = 15 := by
  unfold epsIdentityAt at h
  split at h
  · simp at h
  · split at h
    · obtain rfl := Identity.imsi.inj h
      exact digits_length m (p + 1)
    · simp at h

/-- The digits of an IMSI that is decoded are fifteen. -/
theorem decodedBody_imsi {t : UInt8} {m : Nat → UInt8} {ds : List UInt8}
    (h : decodedBody t m = some (.imsi ds)) : ds.length = 15 := by
  have heps : ∀ {tmsiType : UInt8} {off p : Nat},
      some (epsIdentityAt tmsiType off m p) = some (.imsi ds) → ds.length = 15 :=
    fun h => epsIdentityAt_imsi (Option.some.inj h)
  unfold decodedBody at h
  simp only at h
  split at h
  · unfold mobileIdentityAt at h
    simp only at h
    split at h
    · obtain rfl := Identity.imsi.inj (Option.some.inj h)
      exact digits_length m _
    · split at h <;> simp at h
  · split at h
    · split at h
      · exact heps h
      · simp at h
    · split at h
      · exact heps h
      · split at h
        · exact heps h
        · split at h
          · exact heps h
          · simp at h

/-- **A NAS message.** -/
theorem rrcParseNasMsg_gathers (env : Platform β) (s : RrcState β) (rnti : UInt16)
    (nas : SimpleByteMsg) :
    Gathers s (rrcParseNasMsg env s rnti nas).1 xs xs (forUe rnti (nasTold nas.msg)) := by
  have hd : ∀ digits, (decoded nas.msg).2 = some (.imsi digits) → digits.length = 15 :=
    fun _ h => decodedBody_imsi h
  -- no handler looks at an identity
  have hnone : ∀ {t : RrcState β}, Gathers s t xs xs [] → (decoded nas.msg).2 = none →
      Gathers s t xs xs (forUe rnti (nasTold nas.msg)) := by
    intro t ht hn
    unfold nasTold
    rw [hn]
    exact ht
  rw [rrcParseNasMsg_eq]
  show Gathers s (nasEffect env s rnti (decoded nas.msg)) xs xs _
  unfold nasEffect
  split
  · rename_i h1
    refine identityResponseEffect_gathers s rnti _ hd ?_
    intro v
    show decodedBody (decoded nas.msg).1 nas.msg ≠ _
    unfold decodedBody
    simp only
    rw [if_pos h1]
    exact mobileIdentityAt_ne_mTmsi nas.msg _ v
  · rename_i h1
    split
    · exact requestEffect_gathers _ _ _ s rnti _ hd
    · rename_i h2
      split
      · exact requestEffect_gathers _ _ _ s rnti _ hd
      · rename_i h3
        split
        · exact requestEffect_gathers _ _ _ s rnti _ hd
        · rename_i h4
          split
          · exact requestEffect_gathers _ _ _ s rnti _ hd
          · rename_i h5
            have hn : decodedBody (decoded nas.msg).1 nas.msg = none := by
              unfold decodedBody
              simp only
              rw [if_neg h1, if_neg h2, if_neg h3, if_neg h4, if_neg h5]
            split
            · exact hnone (rrcDecodeServiceReq_gathers s rnti) hn
            · exact hnone (.refl s xs) hn

/-! ## RRC messages -/

theorem countRbNums_gathers (count : LteKpi → Nat → LteKpi) (s : RrcState β)
    (rpt : UlReportInfoList) : Gathers s (countRbNums count s rpt) xs xs [] := by
  unfold countRbNums
  generalize rpt.entries = entries
  induction entries generalizing s with
  | nil => exact .refl s xs
  | cons info rest ih =>
      rw [List.foldl_cons]
      split
      · exact (countKpi_gathers s _).after_quiet (ih _)
      · exact ih s

/-- The structure that a message is decoded to. -/
theorem decodeTo_gathers (xs : Multiset β) {n : Nat} {msg : β}
    (ha : s.alloc env n = (t, some msg)) :
    Gathers s t xs (xs + {msg}) [] ∧ t.gMsgBitBuffer = s.gMsgBitBuffer := by
  constructor
  · rw [add_comm]
    exact alloc_gathers ha
  · rw [alloc_eq ha]

theorem rrcParseUlInfoTransfer_gathers (s : RrcState β) (rnti : UInt16) (data : Nat → UInt8)
    (size : Nat) (rpt : UlReportInfoList) :
    Gathers s (rrcParseUlInfoTransfer env s rnti data size rpt) xs xs
      (forUe rnti (ulInfoTold env s data size)) := by
  unfold rrcParseUlInfoTransfer ulInfoTold
  cases ha : s.alloc env (env.sizeof .ulInformationTransfer) with
  | mk t o =>
      cases o with
      | none => exact .refused (alloc_refused ha)
      | some msg =>
          obtain ⟨ht, hbuf⟩ := decodeTo_gathers xs ha
          simp only
          rw [hbuf]
          have hb := ht.after_quiet (setBuffer_gathers t (asn1ParseUlInfoTransMsg
            s.gMsgBitBuffer data size (env.leftover s.mem.clock).ulInformationTransfer).1)
          cases (asn1ParseUlInfoTransMsg s.gMsgBitBuffer data size
              (env.leftover s.mem.clock).ulInformationTransfer).2 with
          | none => exact hb.after_quiet (free_gathers _ msg)
          | some info =>
              simp only
              split
              · have hnas := hb.after_quiet
                  (rrcParseNasMsg_gathers env _ rnti info.dedicatedInfo)
                refine Gathers.then_quiet ?_ (free_gathers _ msg)
                split
                · exact hnas.then_quiet (countRbNums_gathers _ _ rpt)
                · exact hnas
              · exact hb.after_quiet (free_gathers _ msg)

theorem rrcParseRrcSetupComplete_gathers (s : RrcState β) (rnti : UInt16)
    (data : Nat → UInt8) (size : Nat) (rpt : UlReportInfoList) :
    Gathers s (rrcParseRrcSetupComplete env s rnti data size rpt) xs xs
      (forUe rnti (setupComplTold env s data size)) := by
  unfold rrcParseRrcSetupComplete setupComplTold
  cases ha : s.alloc env (env.sizeof .rrcConnectionSetupComplete) with
  | mk t o =>
      cases o with
      | none => exact .refused (alloc_refused ha)
      | some msg =>
          obtain ⟨ht, hbuf⟩ := decodeTo_gathers xs ha
          simp only
          rw [hbuf]
          have hb := ht.after_quiet (setBuffer_gathers t (asn1ParseRrcSetupComplMsg
            s.gMsgBitBuffer data size (env.leftover s.mem.clock).rrcConnectionSetupComplete).1)
          cases (asn1ParseRrcSetupComplMsg s.gMsgBitBuffer data size
              (env.leftover s.mem.clock).rrcConnectionSetupComplete).2 with
          | none => exact hb.after_quiet (free_gathers _ msg)
          | some compl =>
              have hk := hb.after_quiet (countKpi_gathers _ fun kpi =>
                { kpi with rrcSetupCompl := kpi.rrcSetupCompl + 1 })
              have hnas := hk.after_quiet
                (rrcParseNasMsg_gathers env _ rnti compl.dedicatedInfoNas)
              exact (hnas.then_quiet (countRbNums_gathers _ _ rpt)).then_quiet
                (free_gathers _ msg)

theorem rrcParseUlDcchMsg_gathers (s : RrcState β) (rnti : UInt16) (b : β) (size : Nat)
    (rpt : UlReportInfoList) :
    Gathers s (rrcParseUlDcchMsg env s rnti b size rpt) (xs + {b}) xs
      (forUe rnti (dcchTold env s (s.mem.bytes b) size)) := by
  unfold rrcParseUlDcchMsg dcchTold
  simp only
  refine Gathers.then_quiet ?_ (free_gathers _ b)
  split
  · exact rrcParseUlInfoTransfer_gathers s rnti _ size rpt
  · split
    · exact rrcParseRrcSetupComplete_gathers s rnti _ size rpt
    · exact .refl s _

theorem rrcParseUlCcchMsg_gathers (s : RrcState β) (rnti : UInt16) (b : β) (size : Nat) :
    Gathers s (rrcParseUlCcchMsg env s rnti b size) (xs + {b}) xs
      (forUe rnti (ccchTold env s (s.mem.bytes b) size)) := by
  unfold rrcParseUlCcchMsg ccchTold
  simp only
  split
  · exact (Gathers.refl s _).drop
  · split
    · cases ha : s.alloc env (env.sizeof .rrcConnectionRequest) with
      | mk t o =>
          cases o with
          | none => exact .refused (lt_of_lt_of_eq (alloc_refused ha)
              (release_failures t.mem b).symm)
          | some msg =>
              obtain ⟨ht, hbuf⟩ := decodeTo_gathers (xs + {b}) ha
              simp only
              rw [hbuf]
              have hb := ht.after_quiet (setBuffer_gathers t (asn1ParseRrcConnReqMsg
                s.gMsgBitBuffer (s.mem.bytes b) size
                (env.leftover s.mem.clock).rrcConnectionRequest).1)
              cases (asn1ParseRrcConnReqMsg s.gMsgBitBuffer (s.mem.bytes b) size
                  (env.leftover s.mem.clock).rrcConnectionRequest).2 with
              | none =>
                  exact (hb.after_quiet (free_gathers _ msg)).after_quiet (free_gathers _ b)
              | some req =>
                  have hk := hb.after_quiet (countKpi_gathers _ fun kpi =>
                    { kpi with rrcConnReq := kpi.rrcConnReq + 1 })
                  simp only
                  split
                  · have hcollect := hk.after_quiet
                      (collect_gathers env _ rnti (.mTmsi req.mTmsi) serviceRequestType)
                    unfold collect at hcollect
                    split
                    · rename_i u hf
                      have hlt := rrcFindOrCreate_refused hf
                      exact .refused (lt_of_le_of_lt hk.failures
                        (lt_of_lt_of_eq hlt (release_failures u.mem msg).symm))
                    · rename_i u a hf
                      rw [hf] at hcollect
                      exact (hcollect.then_quiet (free_gathers _ msg)).then_quiet
                        (free_gathers _ b)
                  · exact (hk.after_quiet (free_gathers _ msg)).after_quiet (free_gathers _ b)
    · exact free_gathers s b

/-! ## Data indications -/

theorem macUeCcchDataInd_gathers (s : RrcState β) (rnti : UInt16) (b : β) (size : Nat) :
    Gathers s (macUeCcchDataInd env s rnti b size) (xs + {b}) xs
      (forUe rnti (ccchTold env s (s.mem.bytes b) size)) := by
  unfold macUeCcchDataInd
  split
  · rename_i hsize
    unfold ccchTold
    rw [if_pos hsize]
    exact (Gathers.refl s _).drop
  · exact rrcParseUlCcchMsg_gathers s rnti b size

theorem dropFront_gathers (s : RrcState β) (b : β) (n : Nat) :
    Gathers s { s with mem := s.mem.dropFront b n } (xs + {b}) (xs + {b}) [] := by
  have ht : RrcTransfer s { s with mem := s.mem.dropFront b n } {b} {b} :=
    ((dropFront_transfer s.mem b n).frame s.owned).congr (add_comm _ _) (add_comm _ _)
  refine .quiet ht.failures (fun h => ?_) rfl rfl rfl
  rw [add_comm] at h ⊢
  exact h.same ht rfl fun _ _ => ⟨rfl, rfl⟩

/-- **An SDU of RLC**: what it tells is gathered. -/
theorem rlcUeDataInd_gathers (s : RrcState β) (rnti : UInt16) (lcId : Nat) (b : β)
    (size : UInt16) (rpt : UlReportInfoList) :
    Gathers s (rlcUeDataInd env s rnti lcId (some b) size rpt) (xs + {b}) xs
      (forUe rnti (sduTold env s lcId b size)) := by
  unfold rlcUeDataInd sduTold
  simp only
  by_cases hsize : size = 0
  · rw [if_pos hsize, if_pos (Or.inl hsize)]
    exact (Gathers.refl s _).drop
  rw [if_neg hsize]
  by_cases hsrb : lcId < 2
  · rw [if_pos (by omega)]
    unfold pdcpProcessRxSrb
    rw [if_pos hsrb]
    refine (dropFront_gathers s b 1).after_quiet ?_
    unfold pdcpUeSrbDataInd
    by_cases hone : (size - 1).toNat = 0
    · rw [if_pos hone, if_pos (Or.inr (Or.inr hone))]
      exact (Gathers.refl _ _).drop
    · have hnot : ¬(size = 0 ∨ 2 ≤ lcId ∨ (size - 1).toNat = 0) := by
        rw [not_or, not_or, not_le]
        exact ⟨hsize, hsrb, hone⟩
      rw [if_neg hone, if_neg hnot]
      split
      · exact rrcParseUlDcchMsg_gathers _ rnti b _ rpt
      · exact rrcParseUlCcchMsg_gathers _ rnti b _
  · rw [if_pos (Or.inr (Or.inl (by omega)))]
    split
    · unfold pdcpProcessRxSrb
      rw [if_neg hsrb]
      exact free_gathers s b
    · exact free_gathers s b

end Rules

end LteUlp.Worker
