import LteUlp.Rrc.Ownership

set_option autoImplicit false
set_option linter.unusedSectionVars false

/-! # What a message of UL-DCCH counts

A message counts itself, the NAS message it carries, at most one identity, and in one of two
arrays the resource blocks of the reports it came with. The array is indexed by `rbNum - 1`
after a test of `rbNum <= 19`: the number 0 passes the test, and its increment goes to the
counter that lies before the array. Apart from that every increment is where it should be.
-/

namespace LteUlp.Rrc

open BlockStore LteUlp.Nas

/-- Increments of an array of counters, one for every element of a list: a counter grows by
the number of elements that lead to it. -/
theorem foldl_bump {α : Type} (f : α → Nat) (l : List α) (a : Nat → UInt32) :
    l.foldl (fun a x => bump a (f x)) a
      = fun i => a i + UInt32.ofNat (l.countP fun x => f x == i) := by
  induction l generalizing a with
  | nil =>
      funext i
      simp
  | cons x l ih =>
      rw [List.foldl_cons, ih]
      funext i
      rw [List.countP_cons]
      by_cases hx : f x = i
      · subst hx
        simp only [bump, Function.update_self, beq_self_eq_true, if_true]
        rw [UInt32.ofNat_add, UInt32.add_assoc, UInt32.add_comm (UInt32.ofNat _)]
        rfl
      · have hi : i ≠ f x := fun h => hx h.symm
        simp [bump, Function.update_of_ne hi, hx]

/-- The same where only some of the elements count. -/
theorem foldl_bump_if {α : Type} (p : α → Prop) [DecidablePred p] (f : α → Nat) (l : List α)
    (a : Nat → UInt32) :
    l.foldl (fun a x => if p x then bump a (f x) else a) a
      = fun i => a i + UInt32.ofNat (l.countP fun x => decide (p x) && f x == i) := by
  have hfilter : l.foldl (fun a x => if p x then bump a (f x) else a) a
      = (l.filter p).foldl (fun a x => bump a (f x)) a := by
    rw [List.foldl_filter]
    simp only [decide_eq_true_eq]
  rw [hfilter, foldl_bump]
  funext i
  rw [List.countP_filter]
  simp only [Bool.and_comm]

theorem bump_succ_zero (c : Nat → UInt32) (n : Nat) : bump c (n + 1) 0 = c 0 :=
  Function.update_of_ne (Nat.succ_ne_zero n).symm _ _

/-- An increment behind the first counter. -/
theorem bump_succ (c : Nat → UInt32) (n : Nat) :
    (fun i => bump c (n + 1) (i + 1)) = bump (fun i => c (i + 1)) n := by
  funext i
  by_cases hi : i = n
  · subst hi
    simp only [bump, Function.update_self]
  · have hsucc : i + 1 ≠ n + 1 := fun h => hi (Nat.succ_injective h)
    simp only [bump, Function.update_of_ne hi, Function.update_of_ne hsucc]

/-! ## The resource blocks of the reports -/

/-- How many reports have the number of resource blocks. -/
def UlReportInfoList.rbCount (rpt : UlReportInfoList) (rbNum : Nat) : Nat :=
  rpt.entries.countP fun info => info.rbNum.toNat == rbNum

/-- How many reports are counted in the cell. -/
def UlReportInfoList.inCell (rpt : UlReportInfoList) (i : Nat) : Nat :=
  if i ≤ 19 then rpt.rbCount i else 0

theorem UlReportInfoList.entries_length (rpt : UlReportInfoList) :
    rpt.entries.length = rpt.count := by
  rw [UlReportInfoList.entries, List.length_map, List.length_range]

theorem UlReportInfoList.rbCount_le (rpt : UlReportInfoList) (rbNum : Nat) :
    rpt.rbCount rbNum ≤ rpt.count := by
  rw [← rpt.entries_length]
  exact List.countP_le_length

theorem UlReportInfoList.countP_inCell (rpt : UlReportInfoList) (i : Nat) :
    rpt.entries.countP (fun info =>
        decide (info.rbNum.toNat ≤ 19) && info.rbNum.toNat == i) = rpt.inCell i := by
  unfold UlReportInfoList.inCell
  split
  · rename_i hi
    refine List.countP_congr fun info _ => ?_
    simp only [Bool.and_eq_true, decide_eq_true_eq, beq_iff_eq, and_iff_right_iff_imp]
    intro h
    omega
  · rename_i hi
    refine List.countP_eq_zero.mpr fun info _ => ?_
    simp only [Bool.and_eq_true, decide_eq_true_eq, beq_iff_eq, not_and]
    intro hle
    omega

/-- The array that the resource blocks are counted in. -/
inductive RbHistogram where
  | rrcSetupComplRbNum
  | idRespRbNum
  deriving DecidableEq

/-- `++` at index `rbNum - 1`. -/
def RbHistogram.count : RbHistogram → LteKpi → Nat → LteKpi
  | .rrcSetupComplRbNum => LteKpi.countRrcSetupComplRb
  | .idRespRbNum => LteKpi.countIdRespRb

/-- The counter that lies before the array, and then the array. -/
def RbHistogram.cells (h : RbHistogram) (kpi : LteKpi) : Nat → UInt32
  | 0 => match h with
      | .rrcSetupComplRbNum => kpi.heartbeatResp
      | .idRespRbNum => kpi.rrcSetupComplRbNum 19
  | i + 1 => match h with
      | .rrcSetupComplRbNum => kpi.rrcSetupComplRbNum i
      | .idRespRbNum => kpi.idRespRbNum i

/-- The counters with other contents of the cells. -/
def RbHistogram.withCells (h : RbHistogram) (kpi : LteKpi) (c : Nat → UInt32) : LteKpi :=
  match h with
  | .rrcSetupComplRbNum =>
      { kpi with heartbeatResp := c 0, rrcSetupComplRbNum := fun i => c (i + 1) }
  | .idRespRbNum =>
      { kpi with
        rrcSetupComplRbNum := Function.update kpi.rrcSetupComplRbNum 19 (c 0)
        idRespRbNum := fun i => c (i + 1) }

@[simp] theorem RbHistogram.withCells_cells (h : RbHistogram) (kpi : LteKpi) :
    h.withCells kpi (h.cells kpi) = kpi := by
  cases h with
  | rrcSetupComplRbNum => rfl
  | idRespRbNum =>
      show { kpi with
        rrcSetupComplRbNum := Function.update kpi.rrcSetupComplRbNum 19 _ } = kpi
      rw [RbHistogram.cells, Function.update_eq_self]

@[simp] theorem RbHistogram.cells_withCells (h : RbHistogram) (kpi : LteKpi)
    (c : Nat → UInt32) : h.cells (h.withCells kpi c) = c := by
  funext i
  cases h <;> cases i <;> simp [RbHistogram.cells, RbHistogram.withCells]

@[simp] theorem RbHistogram.withCells_withCells (h : RbHistogram) (kpi : LteKpi)
    (c c' : Nat → UInt32) : h.withCells (h.withCells kpi c) c' = h.withCells kpi c' := by
  cases h <;> simp [RbHistogram.withCells]

/-- **Index `rbNum - 1` of the array** is cell `rbNum`. -/
theorem RbHistogram.count_eq (h : RbHistogram) (kpi : LteKpi) (rbNum : Nat) :
    h.count kpi rbNum = h.withCells kpi (bump (h.cells kpi) rbNum) := by
  cases rbNum with
  | zero => cases h <;> rfl
  | succ n =>
      cases h with
      | rrcSetupComplRbNum =>
          simp only [RbHistogram.withCells, bump_succ_zero, bump_succ]
          rfl
      | idRespRbNum =>
          simp only [RbHistogram.withCells, bump_succ_zero, bump_succ, RbHistogram.cells,
            Function.update_eq_self]
          rfl

variable {β : Type} [DecidableEq β] {env : Platform β}

/-- **The loop over the reports**: a cell grows by the number of its reports. -/
theorem countRbNums_gLteKpi (h : RbHistogram) (s : RrcState β) (rpt : UlReportInfoList) :
    (countRbNums h.count s rpt).gLteKpi
      = h.withCells s.gLteKpi fun i => h.cells s.gLteKpi i + UInt32.ofNat (rpt.inCell i) := by
  have hloop : ∀ (entries : List UlReportInfo) (s : RrcState β),
      (entries.foldl (fun s info =>
          if info.rbNum.toNat ≤ 19 then s.countKpi (h.count · info.rbNum.toNat) else s)
        s).gLteKpi
        = h.withCells s.gLteKpi (entries.foldl (fun c info =>
            if info.rbNum.toNat ≤ 19 then bump c info.rbNum.toNat else c)
          (h.cells s.gLteKpi)) := by
    intro entries
    induction entries with
    | nil =>
        intro s
        exact (h.withCells_cells s.gLteKpi).symm
    | cons info rest ih =>
        intro s
        rw [List.foldl_cons, List.foldl_cons, ih]
        split
        · simp only [RrcState.countKpi, h.count_eq, h.cells_withCells, h.withCells_withCells]
        · rfl
  unfold countRbNums
  rw [hloop, foldl_bump_if (fun info : UlReportInfo => info.rbNum.toNat ≤ 19)]
  simp only [rpt.countP_inCell]

/-! ## The message itself -/

/-- At most one identity is counted. -/
def IdentityCounted (k k' : LteKpi) : Prop :=
  k' = k ∨ k' = { k with imsi := k.imsi + 1 } ∨ k' = { k with mTmsi := k.mTmsi + 1 }

/-- The counter of a NAS message. -/
def countNas (msgType : UInt8) (k : LteKpi) : LteKpi :=
  if msgType = nasMsgTypeIdentityResponse then { k with idResp := k.idResp + 1 }
  else if msgType = nasMsgTypeAttachRequest then { k with attachReq := k.attachReq + 1 }
  else if msgType = nasMsgTypeTrackingAreaUpdateRequest then { k with tauReq := k.tauReq + 1 }
  else if msgType = nasMsgTypeDetachRequest then { k with detachReq := k.detachReq + 1 }
  else if msgType = nasMsgTypeExtendedServiceRequest then
    { k with extServReq := k.extServReq + 1 }
  else if msgType = mmeSecurityHdrTypeServiceRequest then { k with servReq := k.servReq + 1 }
  else k

/-- A NAS message counts nothing, or itself and at most one identity. -/
def NasCounted (msgType : UInt8) (k k' : LteKpi) : Prop :=
  k' = k ∨ IdentityCounted (countNas msgType k) k'

/-- The RRC message that a NAS message comes in. -/
inductive NasCarrier where
  | ulInformationTransfer
  | rrcConnectionSetupComplete
  deriving DecidableEq

/-- What a message of UL-DCCH is decoded to: its kind and the type of the NAS message. -/
abbrev Decoded := Option (NasCarrier × UInt8)

/-- A decoded message counts itself and what its NAS message counts. -/
def MessageCounted : Decoded → LteKpi → LteKpi → Prop
  | none, k, k' => k' = k
  | some (.ulInformationTransfer, msgType), k, k' => NasCounted msgType k k'
  | some (.rrcConnectionSetupComplete, msgType), k, k' =>
      NasCounted msgType { k with rrcSetupCompl := k.rrcSetupCompl + 1 } k'

/-- The array that the reports of a message are counted in. -/
def histogram : Decoded → Option RbHistogram
  | none => none
  | some (.ulInformationTransfer, msgType) =>
      if msgType = nasMsgTypeIdentityResponse then some .idRespRbNum else none
  | some (.rrcConnectionSetupComplete, _) => some .rrcSetupComplRbNum

section Counting

variable {s t : RrcState β} {o : Option β}

theorem alloc_gLteKpi {n : Nat} (h : s.alloc env n = (t, o)) : t.gLteKpi = s.gLteKpi := by
  rw [alloc_eq h]

theorem rrcCreateUeContext_gLteKpi (env : Platform β) (s : RrcState β) (rnti : UInt16) :
    (rrcCreateUeContext env s rnti).1.gLteKpi = s.gLteKpi := by
  unfold rrcCreateUeContext
  cases ha : s.alloc env (env.sizeof .rrcUeContext) with
  | mk t o =>
      have ht := alloc_gLteKpi ha
      cases o <;> exact ht

theorem rrcFindOrCreate_gLteKpi {rnti : UInt16} (h : rrcFindOrCreate env s rnti = (t, o)) :
    t.gLteKpi = s.gLteKpi := by
  obtain rfl : (rrcFindOrCreate env s rnti).1 = t := congrArg Prod.fst h
  unfold rrcFindOrCreate
  split
  · rfl
  · exact rrcCreateUeContext_gLteKpi env s rnti

theorem rrcLiveContext_gLteKpi (env : Platform β) (s : RrcState β) (a : β) :
    (rrcLiveContext env s a).1.gLteKpi = s.gLteKpi := by
  unfold rrcLiveContext
  split
  · have hc := rrcCreateUeContext_gLteKpi env s (s.rrcUeContext a).rnti
    split
    · rename_i t heq
      rwa [heq] at hc
    · rename_i t b heq
      rwa [heq] at hc
  · rfl

theorem rrcCopyToReady_gLteKpi (env : Platform β) (misread : Bool) (s : RrcState β) (a : β) :
    (rrcCopyToReady env misread s a).gLteKpi = s.gLteKpi := by
  unfold rrcCopyToReady
  cases ha : s.alloc env (env.sizeof .rrcUeContext) with
  | mk t o =>
      have ht := alloc_gLteKpi ha
      cases o <;> exact ht

/-- **An update counts its identity or nothing.** -/
theorem rrcUpdateIdentity_gLteKpi (misread : Bool) (present same : UeIdentity → Bool)
    (count : LteKpi → LteKpi) (write : UeIdentity → UeIdentity) (s : RrcState β) (a : β) (msgType : UInt8) :
    (rrcUpdateIdentity env misread present same count write s a msgType).1.gLteKpi = s.gLteKpi
      ∨ (rrcUpdateIdentity env misread present same count write s a msgType).1.gLteKpi
        = count s.gLteKpi := by
  have hlive := rrcLiveContext_gLteKpi env s a
  unfold rrcUpdateIdentity
  cases hl : rrcLiveContext env s a with
  | mk t o =>
      rw [hl] at hlive
      cases o with
      | none => exact Or.inl hlive
      | some b =>
          simp only
          split
          · exact Or.inl hlive
          · have hcopy : (if present (t.rrcUeContext b).ueIdentity = true then
                rrcCopyToReady env misread t b else t).gLteKpi = t.gLteKpi := by
              split
              · exact rrcCopyToReady_gLteKpi env misread t b
              · rfl
            refine Or.inr ?_
            show count _ = count s.gLteKpi
            rw [hcopy, hlive]

theorem rrcUpdateImsi_counted (s : RrcState β) (a : β) (imsi : List UInt8) (msgType : UInt8) :
    IdentityCounted s.gLteKpi (rrcUpdateImsi env s a imsi msgType).1.gLteKpi :=
  (rrcUpdateIdentity_gLteKpi _ _ _ _ _ s a msgType).imp_right Or.inl

theorem rrcUpdateMTmsi_counted (s : RrcState β) (a : β) (mTmsi : UInt32) (msgType : UInt8) :
    IdentityCounted s.gLteKpi (rrcUpdateMTmsi env s a mTmsi msgType).1.gLteKpi :=
  (rrcUpdateIdentity_gLteKpi _ _ _ _ _ s a msgType).imp_right Or.inr

/-! ## NAS messages -/

theorem rrcDecodeIdentityResponse_counted (s : RrcState β) (rnti : UInt16) (m : Nat → UInt8) :
    NasCounted nasMsgTypeIdentityResponse s.gLteKpi
      (rrcDecodeIdentityResponse env s rnti m).gLteKpi := by
  unfold rrcDecodeIdentityResponse
  cases ha : s.alloc env (env.sizeof .idResponse) with
  | mk t o =>
      have ht := alloc_gLteKpi ha
      cases o with
      | none => exact Or.inl ht
      | some idResp =>
          simp only
          split
          · have hk : (t.countKpi fun kpi => { kpi with idResp := kpi.idResp + 1 }).gLteKpi
                = countNas nasMsgTypeIdentityResponse s.gLteKpi := by
              rw [← ht]
              rfl
            refine Or.inr ?_
            rw [← hk]
            split
            · split
              · rename_i u hf
                have hu := rrcFindOrCreate_gLteKpi hf
                exact Or.inl hu
              · rename_i u b hf
                rw [← rrcFindOrCreate_gLteKpi hf]
                exact rrcUpdateImsi_counted u b _ _
            · exact Or.inl rfl
          · exact Or.inl ht

/-- **A request counts itself**, when it is unpacked, and at most one identity. -/
theorem rrcDecodeRequest_counted (size : Nat) (count : LteKpi → LteKpi)
    (mTmsi : EpsMobileId → Option UInt32) (msgType : UInt8) (s : RrcState β) (rnti : UInt16)
    (decoded : Option EpsMobileId) :
    (rrcDecodeRequest env size count mTmsi msgType s rnti decoded).gLteKpi = s.gLteKpi
      ∨ IdentityCounted (count s.gLteKpi)
        (rrcDecodeRequest env size count mTmsi msgType s rnti decoded).gLteKpi := by
  unfold rrcDecodeRequest
  cases ha : s.alloc env size with
  | mk t o =>
      have ht := alloc_gLteKpi ha
      cases o with
      | none => exact Or.inl ht
      | some req =>
          cases decoded with
          | none => exact Or.inl ht
          | some id =>
              have hk : (t.countKpi count).gLteKpi = count s.gLteKpi := congrArg count ht
              refine Or.inr ?_
              rw [← hk]
              simp only
              split
              · rename_i u hf
                have hu := rrcFindOrCreate_gLteKpi hf
                exact Or.inl hu
              · rename_i u b hf
                rw [← rrcFindOrCreate_gLteKpi hf]
                split
                · exact rrcUpdateMTmsi_counted u b _ _
                · split
                  · exact rrcUpdateImsi_counted u b _ _
                  · exact Or.inl rfl

theorem rrcDecodeServiceReq_counted (s : RrcState β) (rnti : UInt16) :
    NasCounted mmeSecurityHdrTypeServiceRequest s.gLteKpi
      (rrcDecodeServiceReq env s rnti).gLteKpi := by
  refine Or.inr (Or.inl ?_)
  have hk : (s.countKpi fun kpi => { kpi with servReq := kpi.servReq + 1 }).gLteKpi
      = countNas mmeSecurityHdrTypeServiceRequest s.gLteKpi := rfl
  rw [← hk]
  unfold rrcDecodeServiceReq
  split
  · rename_i u hf
    exact rrcFindOrCreate_gLteKpi hf
  · rename_i u b hf
    have hu := rrcFindOrCreate_gLteKpi hf
    exact hu

/-- **A NAS message counts nothing, or itself and at most one identity.** -/
theorem rrcParseNasMsg_counted (env : Platform β) (s : RrcState β) (rnti : UInt16) (nas : SimpleByteMsg) :
    NasCounted (mmeParseMsgHeader nas.msg).2 s.gLteKpi
      (rrcParseNasMsg env s rnti nas).1.gLteKpi := by
  unfold rrcParseNasMsg
  generalize (mmeParseMsgHeader nas.msg).2 = msgType
  simp only
  split
  · subst msgType
    exact rrcDecodeIdentityResponse_counted s rnti nas.msg
  · split
    · subst msgType
      exact rrcDecodeRequest_counted _ _ _ _ s rnti _
    · split
      · subst msgType
        exact rrcDecodeRequest_counted _ _ _ _ s rnti _
      · split
        · subst msgType
          exact rrcDecodeRequest_counted _ _ _ _ s rnti _
        · split
          · subst msgType
            exact rrcDecodeRequest_counted _ _ _ _ s rnti _
          · split
            · subst msgType
              exact rrcDecodeServiceReq_counted s rnti
            · exact Or.inl rfl

/-! ## RRC messages -/

/-- The NAS message of an UL information transfer, when there is memory to decode it. -/
def ulInfoTransferNas (env : Platform β) (s : RrcState β) (data : Nat → UInt8) (size : Nat) :
    Option SimpleByteMsg :=
  if (s.alloc env (env.sizeof .ulInformationTransfer)).2.isSome then
    match (asn1ParseUlInfoTransMsg s.gMsgBitBuffer data size
        (env.leftover s.mem.clock).ulInformationTransfer).2 with
    | none => none
    | some info =>
        if info.dedicatedInfoType = ulInformationTransferTypeNas then some info.dedicatedInfo
        else none
  else none

/-- The NAS message of an RRC connection setup complete, when there is memory to decode it. -/
def rrcSetupCompleteNas (env : Platform β) (s : RrcState β) (data : Nat → UInt8)
    (size : Nat) : Option SimpleByteMsg :=
  if (s.alloc env (env.sizeof .rrcConnectionSetupComplete)).2.isSome then
    ((asn1ParseRrcSetupComplMsg s.gMsgBitBuffer data size
      (env.leftover s.mem.clock).rrcConnectionSetupComplete).2).map (·.dedicatedInfoNas)
  else none

/-- What the bytes are decoded to. -/
def decodedUlDcch (env : Platform β) (s : RrcState β) (data : Nat → UInt8) (size : Nat) :
    Decoded :=
  let rrcMsgType := (data 0 >>> 3) &&& 0x0f
  if rrcMsgType = rrcUlDcchMsgTypeUlInfoTransfer then
    (ulInfoTransferNas env s data size).map fun nas =>
      (.ulInformationTransfer, (mmeParseMsgHeader nas.msg).2)
  else if rrcMsgType = rrcUlDcchMsgTypeRrcConSetupComplete then
    (rrcSetupCompleteNas env s data size).map fun nas =>
      (.rrcConnectionSetupComplete, (mmeParseMsgHeader nas.msg).2)
  else none

/-- The counters after the reports are counted in the array, if there is one. -/
def withReports (h : Option RbHistogram) (rpt : UlReportInfoList) (k : LteKpi) : LteKpi :=
  match h with
  | none => k
  | some h => h.withCells k fun i => h.cells k i + UInt32.ofNat (rpt.inCell i)

/-- A message is counted, and then its reports. -/
def Counted (d : Decoded) (rpt : UlReportInfoList) (k k' : LteKpi) : Prop :=
  ∃ k₁, MessageCounted d k k₁ ∧ k' = withReports (histogram d) rpt k₁

/-- The reports of an identity response are counted. -/
theorem countIdResp_gLteKpi (r : RrcState β × UInt8) (rpt : UlReportInfoList) :
    (if r.2 = nasMsgTypeIdentityResponse then countRbNums LteKpi.countIdRespRb r.1 rpt
      else r.1).gLteKpi
      = withReports (histogram (some (.ulInformationTransfer, r.2))) rpt r.1.gLteKpi := by
  unfold histogram
  simp only
  split
  · exact countRbNums_gLteKpi .idRespRbNum r.1 rpt
  · rfl

theorem rrcParseUlInfoTransfer_counted (s : RrcState β) (rnti : UInt16) (data : Nat → UInt8)
    (size : Nat) (rpt : UlReportInfoList) :
    Counted ((ulInfoTransferNas env s data size).map fun nas =>
        (.ulInformationTransfer, (mmeParseMsgHeader nas.msg).2)) rpt s.gLteKpi
      (rrcParseUlInfoTransfer env s rnti data size rpt).gLteKpi := by
  unfold rrcParseUlInfoTransfer ulInfoTransferNas
  cases ha : s.alloc env (env.sizeof .ulInformationTransfer) with
  | mk t o =>
      have ht := alloc_gLteKpi ha
      have hbuf : t.gMsgBitBuffer = s.gMsgBitBuffer := by rw [alloc_eq ha]
      cases o with
      | none => exact ⟨s.gLteKpi, rfl, ht⟩
      | some msg =>
          simp only [hbuf, Option.isSome_some, if_true]
          cases asn1ParseUlInfoTransMsg s.gMsgBitBuffer data size
              (env.leftover s.mem.clock).ulInformationTransfer with
          | mk buf r =>
              cases r with
              | none => exact ⟨s.gLteKpi, rfl, ht⟩
              | some info =>
                  simp only
                  split
                  · let u : RrcState β := { t with gMsgBitBuffer := buf }
                    have hu : u.gLteKpi = s.gLteKpi := ht
                    have hnas := rrcParseNasMsg_counted env u rnti info.dedicatedInfo
                    rw [hu] at hnas
                    exact ⟨_, hnas, countIdResp_gLteKpi (rrcParseNasMsg env u rnti _) rpt⟩
                  · exact ⟨s.gLteKpi, rfl, ht⟩

theorem rrcParseRrcSetupComplete_counted (s : RrcState β) (rnti : UInt16)
    (data : Nat → UInt8) (size : Nat) (rpt : UlReportInfoList) :
    Counted ((rrcSetupCompleteNas env s data size).map fun nas =>
        (.rrcConnectionSetupComplete, (mmeParseMsgHeader nas.msg).2)) rpt s.gLteKpi
      (rrcParseRrcSetupComplete env s rnti data size rpt).gLteKpi := by
  unfold rrcParseRrcSetupComplete rrcSetupCompleteNas
  cases ha : s.alloc env (env.sizeof .rrcConnectionSetupComplete) with
  | mk t o =>
      have ht := alloc_gLteKpi ha
      have hbuf : t.gMsgBitBuffer = s.gMsgBitBuffer := by rw [alloc_eq ha]
      cases o with
      | none => exact ⟨s.gLteKpi, rfl, ht⟩
      | some msg =>
          simp only [hbuf, Option.isSome_some, if_true]
          cases asn1ParseRrcSetupComplMsg s.gMsgBitBuffer data size
              (env.leftover s.mem.clock).rrcConnectionSetupComplete with
          | mk buf r =>
              cases r with
              | none => exact ⟨s.gLteKpi, rfl, ht⟩
              | some compl =>
                  let u : RrcState β := ({ t with gMsgBitBuffer := buf } : RrcState β).countKpi
                    fun kpi => { kpi with rrcSetupCompl := kpi.rrcSetupCompl + 1 }
                  have hu : u.gLteKpi
                      = { s.gLteKpi with rrcSetupCompl := s.gLteKpi.rrcSetupCompl + 1 } := by
                    rw [← ht]
                    rfl
                  have hnas := rrcParseNasMsg_counted env u rnti compl.dedicatedInfoNas
                  rw [hu] at hnas
                  exact ⟨_, hnas, countRbNums_gLteKpi .rrcSetupComplRbNum _ rpt⟩

/-- **What a message of UL-DCCH counts.** -/
theorem rrcParseUlDcchMsg_counted (env : Platform β) (s : RrcState β) (rnti : UInt16)
    (pData : β) (size : Nat) (rpt : UlReportInfoList) :
    Counted (decodedUlDcch env s (s.mem.bytes pData) size) rpt s.gLteKpi
      (rrcParseUlDcchMsg env s rnti pData size rpt).gLteKpi := by
  unfold decodedUlDcch rrcParseUlDcchMsg
  simp only
  split
  · exact rrcParseUlInfoTransfer_counted s rnti _ size rpt
  · split
    · exact rrcParseRrcSetupComplete_counted s rnti _ size rpt
    · exact ⟨s.gLteKpi, rfl, rfl⟩

end Counting

/-! ## The histograms -/

/-- The resource blocks are counted where they should be. Element `i` of the array of the
message grows by the number of reports with `i + 1` resource blocks, up to nineteen, and the
other array stays as it is; the other counters change as the message says. -/
structure HistogramsExact (d : Decoded) (rpt : UlReportInfoList) (k k' : LteKpi) : Prop where
  rrcSetupComplRbNum : ∀ i, k'.rrcSetupComplRbNum i = k.rrcSetupComplRbNum i
    + UInt32.ofNat (if histogram d = some .rrcSetupComplRbNum then rpt.inCell (i + 1) else 0)
  idRespRbNum : ∀ i, k'.idRespRbNum i = k.idRespRbNum i
    + UInt32.ofNat (if histogram d = some .idRespRbNum then rpt.inCell (i + 1) else 0)
  others : MessageCounted d k { k' with
    rrcSetupComplRbNum := k.rrcSetupComplRbNum
    idRespRbNum := k.idRespRbNum }

/-- The two arrays and the counter before them are the same. -/
structure SameCells (k k' : LteKpi) : Prop where
  heartbeatResp : k'.heartbeatResp = k.heartbeatResp
  rrcSetupComplRbNum : k'.rrcSetupComplRbNum = k.rrcSetupComplRbNum
  idRespRbNum : k'.idRespRbNum = k.idRespRbNum

theorem countNas_sameCells (msgType : UInt8) (k : LteKpi) : SameCells k (countNas msgType k) := by
  have hif : ∀ {p : Prop} [Decidable p] {k₁ k₂ : LteKpi}, SameCells k k₁ → SameCells k k₂ →
      SameCells k (if p then k₁ else k₂) := by
    intro p _ k₁ k₂ h₁ h₂
    split
    · exact h₁
    · exact h₂
  unfold countNas
  exact hif ⟨rfl, rfl, rfl⟩ <| hif ⟨rfl, rfl, rfl⟩ <| hif ⟨rfl, rfl, rfl⟩ <|
    hif ⟨rfl, rfl, rfl⟩ <| hif ⟨rfl, rfl, rfl⟩ <| hif ⟨rfl, rfl, rfl⟩ ⟨rfl, rfl, rfl⟩

theorem NasCounted.sameCells {msgType : UInt8} {k k' : LteKpi} (h : NasCounted msgType k k') :
    SameCells k k' := by
  have hnas := countNas_sameCells msgType k
  rcases h with rfl | rfl | rfl | rfl
  · exact ⟨rfl, rfl, rfl⟩
  · exact hnas
  · exact ⟨hnas.1, hnas.2, hnas.3⟩
  · exact ⟨hnas.1, hnas.2, hnas.3⟩

/-- **What a message counts of itself is in none of the cells.** -/
theorem MessageCounted.sameCells {d : Decoded} {k k' : LteKpi} (h : MessageCounted d k k') :
    SameCells k k' := by
  match d, h with
  | none, rfl => exact ⟨rfl, rfl, rfl⟩
  | some (.ulInformationTransfer, _), h =>
      have hnas : NasCounted _ k k' := h
      exact hnas.sameCells
  | some (.rrcConnectionSetupComplete, _), h =>
      have hcells := NasCounted.sameCells h
      exact ⟨hcells.1, hcells.2, hcells.3⟩

/-- A cell that the reports of ten entries are counted in is unchanged only if there are
none. -/
theorem UlReportInfoList.inCell_eq_zero {rpt : UlReportInfoList} (hcount : rpt.count ≤ 10)
    {i : Nat} {a : UInt32} (h : a + UInt32.ofNat (rpt.inCell i) = a) : rpt.inCell i = 0 := by
  have hle : rpt.inCell i ≤ 10 := by
    unfold UlReportInfoList.inCell
    have := rpt.rbCount_le i
    split <;> omega
  have hzero : UInt32.ofNat (rpt.inCell i) = 0 := by simpa using h
  have hnat : (UInt32.ofNat (rpt.inCell i)).toNat = rpt.inCell i :=
    UInt32.toNat_ofNat_of_lt' (by simp only [UInt32.size]; omega)
  rw [← hnat, hzero]
  rfl

theorem UlReportInfoList.inCell_zero (rpt : UlReportInfoList) :
    rpt.inCell 0 = 0 ↔ ∀ info ∈ rpt.entries, info.rbNum ≠ 0 := by
  show rpt.entries.countP _ = 0 ↔ _
  rw [List.countP_eq_zero]
  refine forall₂_congr fun info _ => ?_
  rw [beq_iff_eq, ne_eq, ← UInt8.toNat_inj]
  rfl

/-! What `withReports` does to the fields: in `rrcSetupComplRbNum` and outside the two arrays
it depends on the cell before the array. -/

section WithReports

variable {x : Option RbHistogram} {rpt : UlReportInfoList}

theorem withReports_rrcSetupComplRbNum (k : LteKpi) (h : x = none ∨ rpt.inCell 0 = 0)
    (i : Nat) : (withReports x rpt k).rrcSetupComplRbNum i = k.rrcSetupComplRbNum i
      + UInt32.ofNat (if x = some .rrcSetupComplRbNum then rpt.inCell (i + 1) else 0) := by
  match x, h with
  | none, _ => exact (UInt32.add_zero _).symm
  | some .rrcSetupComplRbNum, _ => rfl
  | some .idRespRbNum, Or.inr hzero =>
      have hsame : k.rrcSetupComplRbNum 19 + UInt32.ofNat (rpt.inCell 0)
          = k.rrcSetupComplRbNum 19 := by
        rw [hzero]
        exact UInt32.add_zero _
      show Function.update k.rrcSetupComplRbNum 19
        (k.rrcSetupComplRbNum 19 + UInt32.ofNat (rpt.inCell 0)) i = k.rrcSetupComplRbNum i + 0
      rw [hsame, Function.update_eq_self, UInt32.add_zero]

theorem withReports_idRespRbNum (k : LteKpi) (i : Nat) :
    (withReports x rpt k).idRespRbNum i = k.idRespRbNum i
      + UInt32.ofNat (if x = some .idRespRbNum then rpt.inCell (i + 1) else 0) := by
  match x with
  | none => exact (UInt32.add_zero _).symm
  | some .rrcSetupComplRbNum => exact (UInt32.add_zero _).symm
  | some .idRespRbNum => rfl

theorem withReports_others (k : LteKpi) (h : x = none ∨ rpt.inCell 0 = 0) :
    { withReports x rpt k with
      rrcSetupComplRbNum := k.rrcSetupComplRbNum
      idRespRbNum := k.idRespRbNum } = k := by
  match x, h with
  | none, _ => rfl
  | some .rrcSetupComplRbNum, Or.inr hzero =>
      show { k with heartbeatResp := k.heartbeatResp + UInt32.ofNat (rpt.inCell 0) } = k
      rw [hzero]
      exact congrArg (fun n => { k with heartbeatResp := n }) (UInt32.add_zero _)
  | some .idRespRbNum, _ => rfl

end WithReports

/-- **The histograms are exact** unless the reports of a message are counted and one of them
has no resource block. -/
theorem rrcParseUlDcchMsg_histograms_iff {β : Type} [DecidableEq β] (env : Platform β)
    (s : RrcState β) (rnti : UInt16) (pData : β) (size : Nat) (rpt : UlReportInfoList)
    (hcount : rpt.count ≤ 10) :
    HistogramsExact (decodedUlDcch env s (s.mem.bytes pData) size) rpt s.gLteKpi
        (rrcParseUlDcchMsg env s rnti pData size rpt).gLteKpi ↔
      histogram (decodedUlDcch env s (s.mem.bytes pData) size) = none
        ∨ ∀ info ∈ rpt.entries, info.rbNum ≠ 0 := by
  obtain ⟨k, hmsg, hk⟩ := rrcParseUlDcchMsg_counted env s rnti pData size rpt
  rw [hk]
  generalize decodedUlDcch env s (s.mem.bytes pData) size = d at hmsg ⊢
  generalize s.gLteKpi = k₀ at hmsg ⊢
  have hcells := hmsg.sameCells
  rw [← rpt.inCell_zero]
  constructor
  · intro h
    have hothers := h.others.sameCells
    cases hd : histogram d with
    | none => exact Or.inl rfl
    | some x =>
        refine Or.inr ?_
        rw [hd] at h hothers
        cases x with
        | rrcSetupComplRbNum =>
            have hbefore : k.heartbeatResp + UInt32.ofNat (rpt.inCell 0) = k.heartbeatResp :=
              hothers.heartbeatResp.trans hcells.heartbeatResp.symm
            exact rpt.inCell_eq_zero hcount hbefore
        | idRespRbNum =>
            have hlast := h.rrcSetupComplRbNum 19
            rw [hd, if_neg (by decide)] at hlast
            have hbefore : k.rrcSetupComplRbNum 19 + UInt32.ofNat (rpt.inCell 0)
                = k.rrcSetupComplRbNum 19 := by
              calc k.rrcSetupComplRbNum 19 + UInt32.ofNat (rpt.inCell 0)
                  = (withReports (some .idRespRbNum) rpt k).rrcSetupComplRbNum 19 :=
                    (Function.update_self 19 _ k.rrcSetupComplRbNum).symm
                _ = k₀.rrcSetupComplRbNum 19 + 0 := hlast
                _ = k.rrcSetupComplRbNum 19 := by
                    rw [hcells.rrcSetupComplRbNum, UInt32.add_zero]
            exact rpt.inCell_eq_zero hcount hbefore
  · intro h
    refine ⟨fun i => ?_, fun i => ?_, ?_⟩
    · rw [withReports_rrcSetupComplRbNum k h, hcells.rrcSetupComplRbNum]
    · rw [withReports_idRespRbNum, hcells.idRespRbNum]
    · rw [← hcells.rrcSetupComplRbNum, ← hcells.idRespRbNum, withReports_others k h]
      exact hmsg

/-- A state with an RRC connection setup complete in block 0. -/
def setupCompleteState : RrcState Nat :=
  { freshState with
    mem := { freshState.mem with
      bytes := fun _ i => [0x20, 0x00, 0x04, 0x02, 0x07, 0x41].getD i 0 } }

/-- One report. -/
def oneReport (rbNum : UInt8) : UlReportInfoList := ⟨1, fun _ => ⟨rbNum, 0, 0⟩⟩

theorem setupComplete_histograms :
    HistogramsExact
      (decodedUlDcch freshPlatform setupCompleteState (setupCompleteState.mem.bytes 0) 6)
      (oneReport 3) setupCompleteState.gLteKpi
      (rrcParseUlDcchMsg freshPlatform setupCompleteState 61 0 6 (oneReport 3)).gLteKpi :=
  (rrcParseUlDcchMsg_histograms_iff freshPlatform setupCompleteState 61 0 6 (oneReport 3)
    (by decide)).mpr (Or.inr (by decide))

/-- A report without a resource block is counted as a heartbeat. -/
theorem setupComplete_countsHeartbeat :
    ¬ HistogramsExact
      (decodedUlDcch freshPlatform setupCompleteState (setupCompleteState.mem.bytes 0) 6)
      (oneReport 0) setupCompleteState.gLteKpi
      (rrcParseUlDcchMsg freshPlatform setupCompleteState 61 0 6 (oneReport 0)).gLteKpi := by
  intro h
  have hsame := h.others.sameCells.heartbeatResp
  revert hsame
  decide +kernel

end LteUlp.Rrc
