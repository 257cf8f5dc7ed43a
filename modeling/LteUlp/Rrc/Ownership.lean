import LteUlp.Rrc.Model

set_option autoImplicit false
set_option linter.unusedSectionVars false

/-! # The blocks of the RRC layer

The RRC layer owns the contexts in its two lists. `RrcTransfer s s' xs ys` says that from `s`
to `s'` the blocks `xs`, which the caller handed over, turned into `ys`, and that apart from
these exactly the contexts are the layer's, before and after. Every decoder takes nothing and
leaves nothing, whichever allocations are refused. The two entry points take the message: the
one for the common channel leaves it when it has no memory for a context. `RrcMoves` is the
same promise for runs without refusals.
-/

namespace LteUlp.Rrc

open BlockStore LteUlp.Nas

variable {β : Type} [DecidableEq β] {env : Platform β}

/-- The blocks of the contexts. -/
def RrcState.owned (s : RrcState β) : Multiset β :=
  (s.gRrcUeContextList : Multiset β) + (s.gReadyRrcUeContextList : Multiset β)

/-- From `s` to `s'` the blocks `xs` turned into `ys`, apart from the contexts. -/
def RrcTransfer (s s' : RrcState β) (xs ys : Multiset β) : Prop :=
  Transfer s.mem s'.mem (s.owned + xs) (s'.owned + ys)

/-- From `s` to `s'` the blocks `xs` turned into `ys`, apart from the contexts. -/
def RrcMoves (s s' : RrcState β) (xs ys : Multiset β) : Prop :=
  Moves s.mem s'.mem (s.owned + xs) (s'.owned + ys)

section Rules

variable {s s' s'' t : RrcState β} {xs ys zs : Multiset β} {a : β} {o : Option β}

theorem RrcTransfer.moves (h : RrcTransfer s s' xs ys) : RrcMoves s s' xs ys :=
  Transfer.moves h

theorem RrcTransfer.failures (h : RrcTransfer s s' xs ys) :
    s.mem.failures ≤ s'.mem.failures := Transfer.failures h

theorem RrcTransfer.refl (s : RrcState β) (xs : Multiset β) : RrcTransfer s s xs xs :=
  Transfer.refl s.mem _

theorem RrcTransfer.seq (h : RrcTransfer s s' xs ys) (h' : RrcTransfer s' s'' ys zs) :
    RrcTransfer s s'' xs zs := Transfer.seq h h'

theorem RrcTransfer.frame (h : RrcTransfer s s' xs ys) (f : Multiset β) :
    RrcTransfer s s' (xs + f) (ys + f) := by
  unfold RrcTransfer at *
  rw [← add_assoc, ← add_assoc]
  exact Transfer.frame h f

/-- Writing to anything but the memory and the lists. -/
theorem RrcTransfer.of_eq (hm : s'.mem = s.mem)
    (hl : s'.gRrcUeContextList = s.gRrcUeContextList)
    (hr : s'.gReadyRrcUeContextList = s.gReadyRrcUeContextList) (xs : Multiset β) :
    RrcTransfer s s' xs xs := by
  unfold RrcTransfer RrcState.owned
  rw [hm, hl, hr]
  exact Transfer.refl _ _

theorem RrcMoves.failures (h : RrcMoves s s' xs ys) : s.mem.failures ≤ s'.mem.failures :=
  Moves.failures h

theorem RrcMoves.refl (s : RrcState β) (xs : Multiset β) : RrcMoves s s xs xs :=
  Moves.refl s.mem _

theorem RrcMoves.seq (h : RrcMoves s s' xs ys) (h' : RrcMoves s' s'' ys zs) :
    RrcMoves s s'' xs zs := Moves.seq h h'

theorem RrcMoves.refused (h : s.mem.failures < s'.mem.failures) : RrcMoves s s' xs ys :=
  Moves.refused h

/-! ### Allocation and release -/

/-- What an allocation asks for is what it gets, or nothing. -/
theorem alloc_rrcTransfer {n : Nat} (h : s.alloc env n = (t, o)) :
    RrcTransfer s t 0 (o.elim 0 fun b => {b}) := by
  obtain rfl : (s.alloc env n).1 = t := congrArg Prod.fst h
  obtain rfl : (s.mem.alloc env.toPolicy n).2 = o := congrArg Prod.snd h
  have ht := (alloc_transfer env.toPolicy s.mem n).frame s.owned
  exact ht.congr (add_comm _ _) (add_comm _ _)

theorem alloc_refused {n : Nat} (h : s.alloc env n = (t, none)) :
    s.mem.failures < t.mem.failures := by
  have h1 : (s.alloc env n).2 = none := by rw [h]
  have h2 : t = (s.alloc env n).1 := by rw [h]
  rw [h2]
  exact BlockStore.alloc_refused h1

theorem alloc_moves {n : Nat} (h : s.alloc env n = (t, some a)) : RrcMoves s t 0 {a} :=
  (alloc_rrcTransfer h).moves

theorem free_rrcTransfer (s : RrcState β) (a : β) : RrcTransfer s (s.free a) {a} 0 :=
  ((release_transfer s.mem a).frame s.owned).congr (add_comm _ _) (add_comm _ _)

theorem RrcTransfer.free (h : RrcTransfer s s' xs (ys + {a})) :
    RrcTransfer s (s'.free a) xs ys := by
  have hfree := (free_rrcTransfer s' a).frame ys
  rw [zero_add, add_comm] at hfree
  exact h.seq hfree

/-- What is allocated at the beginning and released at the end. -/
theorem RrcTransfer.scratch {n : Nat} (h : s.alloc env n = (t, some a))
    (hm : RrcTransfer t s' xs ys) : RrcTransfer s (s'.free a) xs ys := by
  have h1 : RrcTransfer s t xs (xs + {a}) := by
    simpa [add_comm] using (alloc_rrcTransfer h).frame xs
  exact (h1.seq (hm.frame {a})).free

theorem RrcTransfer.countKpi (h : RrcTransfer s s' xs ys) (f : LteKpi → LteKpi) :
    RrcTransfer s (s'.countKpi f) xs ys := h.seq (.of_eq rfl rfl rfl ys)

theorem RrcTransfer.after_countKpi {f : LteKpi → LteKpi}
    (h : RrcTransfer (s.countKpi f) s' xs ys) : RrcTransfer s s' xs ys :=
  (RrcTransfer.of_eq rfl rfl rfl xs).seq h

theorem RrcTransfer.setIdentity (h : RrcTransfer s s' xs ys) (b : β) (id : UeIdentity) :
    RrcTransfer s (s'.setIdentity b id) xs ys := h.seq (.of_eq rfl rfl rfl ys)

/-! ### Contexts -/

theorem rrcCreateUeContext_refused {rnti : UInt16}
    (h : rrcCreateUeContext env s rnti = (t, none)) : s.mem.failures < t.mem.failures := by
  unfold rrcCreateUeContext at h
  cases ha : s.alloc env (env.sizeof .rrcUeContext) with
  | mk s1 o =>
      rw [ha] at h
      cases o with
      | none =>
          obtain rfl : s1 = t := congrArg Prod.fst h
          exact alloc_refused ha
      | some b => simp at h

/-- A new block becomes one of the layer's own. -/
theorem RrcTransfer.adopt (h : RrcTransfer s t 0 {a}) (hm : s'.mem = t.mem)
    (ho : s'.owned = t.owned + {a}) : RrcTransfer s s' 0 0 := by
  unfold RrcTransfer at h ⊢
  rw [hm, ho, add_zero, add_zero]
  rwa [add_zero] at h

theorem rrcCreateUeContext_transfer (env : Platform β) (s : RrcState β) (rnti : UInt16) :
    RrcTransfer s (rrcCreateUeContext env s rnti).1 0 0 := by
  unfold rrcCreateUeContext
  cases ha : s.alloc env (env.sizeof .rrcUeContext) with
  | mk t o =>
      have ht := alloc_rrcTransfer ha
      cases o with
      | none => exact ht
      | some a =>
          refine ht.adopt rfl ?_
          unfold RrcState.owned
          simp only [RrcState.setContext, ← Multiset.coe_add, Multiset.coe_singleton]
          abel

theorem rrcFindOrCreate_refused {rnti : UInt16} (h : rrcFindOrCreate env s rnti = (t, none)) :
    s.mem.failures < t.mem.failures := by
  unfold rrcFindOrCreate at h
  cases hg : rrcGetUeContext s rnti with
  | none =>
      rw [hg] at h
      exact rrcCreateUeContext_refused h
  | some b =>
      rw [hg] at h
      simp at h

theorem rrcFindOrCreate_transfer {rnti : UInt16} (h : rrcFindOrCreate env s rnti = (t, o)) :
    RrcTransfer s t 0 0 := by
  unfold rrcFindOrCreate at h
  cases hg : rrcGetUeContext s rnti with
  | none =>
      rw [hg] at h
      have ht := rrcCreateUeContext_transfer env s rnti
      rwa [show (rrcCreateUeContext env s rnti).1 = t from congrArg Prod.fst h] at ht
  | some b =>
      rw [hg] at h
      obtain rfl : s = t := congrArg Prod.fst h
      exact .refl s 0

theorem rrcFindOrCreate_moves {rnti : UInt16} (h : rrcFindOrCreate env s rnti = (t, some a)) :
    RrcMoves s t 0 0 := (rrcFindOrCreate_transfer h).moves

theorem rrcLiveContext_transfer (s : RrcState β) (a : β) :
    RrcTransfer s (rrcLiveContext env s a).1 0 0 := by
  unfold rrcLiveContext
  split
  · have ht := rrcCreateUeContext_transfer env s (s.rrcUeContext a).rnti
    cases hc : rrcCreateUeContext env s (s.rrcUeContext a).rnti with
    | mk t o =>
        rw [hc] at ht
        cases o with
        | none => exact ht.seq (.of_eq rfl rfl rfl 0)
        | some b => exact ht
  · exact .refl s 0

theorem rrcCopyToReady_transfer (misread : Bool) (s : RrcState β) (a : β) :
    RrcTransfer s (rrcCopyToReady env misread s a) 0 0 := by
  unfold rrcCopyToReady
  cases ha : s.alloc env (env.sizeof .rrcUeContext) with
  | mk t o =>
      have ht := alloc_rrcTransfer ha
      cases o with
      | none => exact ht.seq (.of_eq rfl rfl rfl 0)
      | some old =>
          refine ht.adopt rfl ?_
          unfold RrcState.owned
          simp only [RrcState.setContext, ← Multiset.coe_add, Multiset.coe_singleton]
          abel

/-! ### Updates -/

theorem rrcUpdateIdentity_transfer (misread : Bool) (present same : UeIdentity → Bool)
    (count : LteKpi → LteKpi) (write : UeIdentity → UeIdentity) (s : RrcState β) (a : β)
    (msgType : UInt8) :
    RrcTransfer s (rrcUpdateIdentity env misread present same count write s a msgType).1 0 0 := by
  unfold rrcUpdateIdentity
  have hlive : RrcTransfer s (rrcLiveContext env s a).1 0 0 := rrcLiveContext_transfer s a
  cases hc : rrcLiveContext env s a with
  | mk t o =>
      rw [hc] at hlive
      cases o with
      | none => exact hlive
      | some b =>
          simp only
          split
          · exact hlive
          · apply RrcTransfer.setIdentity
            apply RrcTransfer.countKpi
            split
            · exact hlive.seq (rrcCopyToReady_transfer misread t b)
            · exact hlive

theorem rrcUpdateIdentity_moves (misread : Bool) (present same : UeIdentity → Bool)
    (count : LteKpi → LteKpi) (write : UeIdentity → UeIdentity) (s : RrcState β) (a : β) (msgType : UInt8) :
    RrcMoves s (rrcUpdateIdentity env misread present same count write s a msgType).1 0 0 :=
  (rrcUpdateIdentity_transfer misread present same count write s a msgType).moves

/-! ### NAS messages -/

theorem rrcDecodeIdentityResponse_transfer (s : RrcState β) (rnti : UInt16)
    (m : Nat → UInt8) : RrcTransfer s (rrcDecodeIdentityResponse env s rnti m) 0 0 := by
  unfold rrcDecodeIdentityResponse
  cases ha : s.alloc env (env.sizeof .idResponse) with
  | mk t o =>
      cases o with
      | none => exact alloc_rrcTransfer ha
      | some idResp =>
          simp only
          split
          · split
            · split
              · rename_i u hf
                exact RrcTransfer.scratch ha (rrcFindOrCreate_transfer hf).after_countKpi
              · rename_i u b hf
                apply RrcTransfer.scratch ha
                exact ((rrcFindOrCreate_transfer hf).seq
                  (rrcUpdateIdentity_transfer _ _ _ _ _ u b _)).after_countKpi
            · exact RrcTransfer.scratch ha ((RrcTransfer.refl t 0).countKpi _)
          · exact RrcTransfer.scratch ha (.refl t 0)

theorem rrcDecodeRequest_transfer (size : Nat) (count : LteKpi → LteKpi)
    (mTmsi : EpsMobileId → Option UInt32) (msgType : UInt8) (s : RrcState β) (rnti : UInt16)
    (decoded : Option EpsMobileId) :
    RrcTransfer s (rrcDecodeRequest env size count mTmsi msgType s rnti decoded) 0 0 := by
  unfold rrcDecodeRequest
  cases ha : s.alloc env size with
  | mk t o =>
      cases o with
      | none => exact alloc_rrcTransfer ha
      | some req =>
          cases decoded with
          | none => exact RrcTransfer.scratch ha (.refl t 0)
          | some id =>
              simp only
              split
              · rename_i u hf
                exact RrcTransfer.scratch ha (rrcFindOrCreate_transfer hf).after_countKpi
              · rename_i u b hf
                have hfound := (rrcFindOrCreate_transfer hf).after_countKpi
                split
                · exact RrcTransfer.scratch ha
                    (hfound.seq (rrcUpdateIdentity_transfer _ _ _ _ _ u b _))
                · split
                  · exact RrcTransfer.scratch ha
                      (hfound.seq (rrcUpdateIdentity_transfer _ _ _ _ _ u b _))
                  · exact RrcTransfer.scratch ha hfound

theorem rrcDecodeServiceReq_transfer (s : RrcState β) (rnti : UInt16) :
    RrcTransfer s (rrcDecodeServiceReq env s rnti) 0 0 := by
  unfold rrcDecodeServiceReq
  split
  · rename_i u hf
    exact (rrcFindOrCreate_transfer hf).after_countKpi
  · rename_i u b hf
    exact ((rrcFindOrCreate_transfer hf).setIdentity b _).after_countKpi

theorem rrcParseNasMsg_transfer (s : RrcState β) (rnti : UInt16) (nas : SimpleByteMsg) :
    RrcTransfer s (rrcParseNasMsg env s rnti nas).1 0 0 := by
  unfold rrcParseNasMsg
  simp only
  split
  · exact rrcDecodeIdentityResponse_transfer s rnti nas.msg
  · split
    · exact rrcDecodeRequest_transfer _ _ _ _ s rnti _
    · split
      · exact rrcDecodeRequest_transfer _ _ _ _ s rnti _
      · split
        · exact rrcDecodeRequest_transfer _ _ _ _ s rnti _
        · split
          · exact rrcDecodeRequest_transfer _ _ _ _ s rnti _
          · split
            · exact rrcDecodeServiceReq_transfer s rnti
            · exact .refl s 0

/-! ### RRC messages -/

theorem countRbNums_transfer (count : LteKpi → Nat → LteKpi) (s : RrcState β)
    (rpt : UlReportInfoList) (xs : Multiset β) :
    RrcTransfer s (countRbNums count s rpt) xs xs := by
  unfold countRbNums
  generalize rpt.entries = entries
  induction entries generalizing s with
  | nil => exact .refl s xs
  | cons info rest ih =>
      rw [List.foldl_cons]
      refine RrcTransfer.seq ?_ (ih _)
      split
      · exact (RrcTransfer.refl s xs).countKpi _
      · exact .refl s xs

theorem rrcParseUlInfoTransfer_transfer (s : RrcState β) (rnti : UInt16)
    (data : Nat → UInt8) (size : Nat) (rpt : UlReportInfoList) :
    RrcTransfer s (rrcParseUlInfoTransfer env s rnti data size rpt) 0 0 := by
  unfold rrcParseUlInfoTransfer
  cases ha : s.alloc env (env.sizeof .ulInformationTransfer) with
  | mk t o =>
      cases o with
      | none => exact alloc_rrcTransfer ha
      | some msg =>
          simp only
          have hbuf : ∀ b, RrcTransfer t { t with gMsgBitBuffer := b } 0 0 := fun b =>
            .of_eq rfl rfl rfl 0
          split
          · exact RrcTransfer.scratch ha (hbuf _)
          · split
            · have hnas : ∀ b nas,
                  RrcTransfer t (rrcParseNasMsg env { t with gMsgBitBuffer := b } rnti nas).1 0 0 :=
                fun b nas => (hbuf b).seq (rrcParseNasMsg_transfer _ rnti nas)
              split
              · exact RrcTransfer.scratch ha ((hnas _ _).seq (countRbNums_transfer _ _ rpt 0))
              · exact RrcTransfer.scratch ha (hnas _ _)
            · exact RrcTransfer.scratch ha (hbuf _)

theorem rrcParseRrcSetupComplete_transfer (s : RrcState β) (rnti : UInt16)
    (data : Nat → UInt8) (size : Nat) (rpt : UlReportInfoList) :
    RrcTransfer s (rrcParseRrcSetupComplete env s rnti data size rpt) 0 0 := by
  unfold rrcParseRrcSetupComplete
  cases ha : s.alloc env (env.sizeof .rrcConnectionSetupComplete) with
  | mk t o =>
      cases o with
      | none => exact alloc_rrcTransfer ha
      | some msg =>
          simp only
          have hbuf : ∀ b, RrcTransfer t { t with gMsgBitBuffer := b } 0 0 := fun b =>
            .of_eq rfl rfl rfl 0
          split
          · exact RrcTransfer.scratch ha (hbuf _)
          · apply RrcTransfer.scratch ha
            refine RrcTransfer.seq ?_ (countRbNums_transfer _ _ rpt 0)
            exact ((hbuf _).countKpi _).seq (rrcParseNasMsg_transfer _ rnti _)

/-- **A message on a dedicated channel is used up.** -/
theorem rrcParseUlDcchMsg_transfer (s : RrcState β) (rnti : UInt16) (pData : β) (size : Nat)
    (rpt : UlReportInfoList) :
    RrcTransfer s (rrcParseUlDcchMsg env s rnti pData size rpt) {pData} 0 := by
  have key : ∀ t, RrcTransfer s t 0 0 → RrcTransfer s (t.free pData) {pData} 0 := by
    intro t h
    apply RrcTransfer.free
    exact h.frame {pData}
  unfold rrcParseUlDcchMsg
  simp only
  apply key
  split
  · exact rrcParseUlInfoTransfer_transfer s rnti _ size rpt
  · split
    · exact rrcParseRrcSetupComplete_transfer s rnti _ size rpt
    · exact .refl s 0

/-- The message is a connection request with an S-TMSI. -/
def requestsConnection (env : Platform β) (s : RrcState β) (pData : β) (size : Nat) : Bool :=
  (s.mem.bytes pData 0 >>> 6) &&& 0x01 == rrcUlCcchMsgTypeRrcConReq &&
    (asn1ParseRrcConnReqMsg s.gMsgBitBuffer (s.mem.bytes pData) size
      (env.leftover s.mem.clock).rrcConnectionRequest).2.any
        fun req => req.ueIdType == conReqUeIdTypeSTmsi

/-- The first allocation of `n` bytes succeeds, and that of a context after it does not. -/
def contextRefused (env : Platform β) (s : RrcState β) (n : Nat) : Bool :=
  match s.alloc env n with
  | (t, some _) => (t.alloc env (env.sizeof .rrcUeContext)).2.isNone
  | (_, none) => false

/-- The message stays allocated: it is empty, or there is no memory for a context. -/
def ccchMsgKept (env : Platform β) (s : RrcState β) (rnti : UInt16) (pData : β) (size : Nat) :
    Bool :=
  size == 0 || (requestsConnection env s pData size &&
    contextRefused env s (env.sizeof .rrcConnectionRequest) &&
      (rrcGetUeContext s rnti).isNone)

/-- Where an allocation leaves everything but the memory. -/
theorem alloc_eq {n : Nat} (h : s.alloc env n = (t, o)) :
    t = { s with mem := (s.mem.alloc env.toPolicy n).1 } := (congrArg Prod.fst h).symm

/-- Whether a context is found or created. -/
theorem rrcFindOrCreate_isNone {rnti : UInt16} (h : rrcFindOrCreate env s rnti = (t, o)) :
    o.isNone = ((rrcGetUeContext s rnti).isNone &&
      (s.alloc env (env.sizeof .rrcUeContext)).2.isNone) := by
  obtain rfl : (rrcFindOrCreate env s rnti).2 = o := congrArg Prod.snd h
  unfold rrcFindOrCreate
  cases hg : rrcGetUeContext s rnti with
  | some b => rfl
  | none =>
      simp only [rrcCreateUeContext, Option.isNone_none, Bool.true_and]
      rcases s.alloc env (env.sizeof .rrcUeContext) with ⟨u, _ | b⟩ <;> rfl

/-- **A message on the common channel is used up**, or it stays allocated. -/
theorem rrcParseUlCcchMsg_transfer (env : Platform β) (s : RrcState β) (rnti : UInt16)
    (pData : β) (size : Nat) :
    RrcTransfer s (rrcParseUlCcchMsg env s rnti pData size) {pData}
      (if ccchMsgKept env s rnti pData size then {pData} else 0) := by
  unfold rrcParseUlCcchMsg ccchMsgKept
  by_cases hsize : size = 0
  · simpa [hsize] using RrcTransfer.refl s {pData}
  rw [if_neg hsize]
  simp only [beq_eq_false_iff_ne.mpr hsize, Bool.false_or]
  split
  · rename_i htype
    cases ha : s.alloc env (env.sizeof .rrcConnectionRequest) with
    | mk t o =>
        have ht := (alloc_rrcTransfer ha).frame {pData}
        cases o with
        | none => simpa [contextRefused, ha] using ht.free
        | some msg =>
            have hta := alloc_eq ha
            have hbuf : ∀ b, RrcTransfer t { t with gMsgBitBuffer := b } 0 0 := fun b =>
              .of_eq rfl rfl rfl 0
            have hend : ∀ u, RrcTransfer t u 0 0 →
                RrcTransfer s ((u.free msg).free pData) {pData} 0 := fun u h =>
              RrcTransfer.free ((RrcTransfer.scratch ha h).frame {pData})
            have hparse : t.gMsgBitBuffer = s.gMsgBitBuffer := by rw [hta]
            simp only [hparse]
            split
            · rename_i hp
              simpa [requestsConnection, hp] using hend _ (hbuf _)
            · rename_i req hp
              split
              · rename_i hid
                have hreq : requestsConnection env s pData size = true := by
                  simp [requestsConnection, htype, hp, hid]
                -- the context is looked for in a state with the contexts of `s`
                have hkept : ∀ {u v : RrcState β} {o : Option β},
                    rrcFindOrCreate env u rnti = (v, o) →
                    rrcGetUeContext u rnti = rrcGetUeContext s rnti →
                    (u.alloc env (env.sizeof .rrcUeContext)).2
                      = (t.alloc env (env.sizeof .rrcUeContext)).2 →
                    (requestsConnection env s pData size
                      && contextRefused env s (env.sizeof .rrcConnectionRequest)
                      && (rrcGetUeContext s rnti).isNone) = o.isNone := by
                  intro u v o hf hget halloc
                  have hnone := rrcFindOrCreate_isNone hf
                  rw [hget, halloc] at hnone
                  rw [hreq, contextRefused, ha, Bool.true_and, hnone, Bool.and_comm]
                have hget : rrcGetUeContext t rnti = rrcGetUeContext s rnti := by
                  rw [hta]
                  rfl
                split
                · rename_i u hf
                  rw [hkept hf hget rfl]
                  simp only [Option.isNone_none, if_true]
                  have hu := ((hbuf _).countKpi _).seq (rrcFindOrCreate_transfer hf)
                  simpa using (RrcTransfer.scratch ha hu).frame {pData}
                · rename_i u b hf
                  rw [hkept hf hget rfl]
                  simp only [Option.isNone_some, Bool.false_eq_true, if_false]
                  have h1 := ((hbuf _).countKpi _).seq (rrcFindOrCreate_transfer hf)
                  exact hend _ (h1.seq (rrcUpdateIdentity_transfer _ _ _ _ _ u b _))
              · rename_i hid
                simpa [requestsConnection, hp, hid] using hend _ ((hbuf _).countKpi _)
  · rename_i htype
    simpa [requestsConnection, htype] using free_rrcTransfer s pData

/-- A message that is not empty only stays allocated when there is no memory. -/
theorem ccchMsgKept_refused {rnti : UInt16} {pData : β} {size : Nat}
    (h : ccchMsgKept env s rnti pData size = true) (hsize : size ≠ 0) :
    s.mem.failures < (rrcParseUlCcchMsg env s rnti pData size).mem.failures := by
  simp only [ccchMsgKept, requestsConnection, beq_eq_false_iff_ne.mpr hsize, Bool.false_or,
    Bool.and_eq_true, beq_iff_eq, Option.any_eq_true] at h
  obtain ⟨⟨⟨htype, req, hreq, hid⟩, href⟩, hget⟩ := h
  unfold rrcParseUlCcchMsg
  rw [if_neg hsize, if_pos htype]
  unfold contextRefused at href
  cases ha : s.alloc env (env.sizeof .rrcConnectionRequest) with
  | mk t o =>
      rw [ha] at href
      cases o with
      | none => simp at href
      | some msg =>
          have hta := alloc_eq ha
          have hparse : t.gMsgBitBuffer = s.gMsgBitBuffer := by rw [hta]
          have hle := (alloc_rrcTransfer ha).failures
          simp only [hparse, hreq, if_pos hid]
          split
          · rename_i u hf
            have hlt := rrcFindOrCreate_refused hf
            exact (hle.trans_lt hlt).trans_le (free_rrcTransfer u msg).failures
          · rename_i u b hf
            have hnone := rrcFindOrCreate_isNone hf
            have hget' : (rrcGetUeContext t rnti).isNone = true := by
              rw [hta]
              exact hget
            exact absurd (hnone.trans (Bool.and_eq_true_iff.mpr ⟨hget', href⟩)) (by simp)

end Rules

end LteUlp.Rrc
