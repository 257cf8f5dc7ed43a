import LteUlp.Rlc.Reception

set_option autoImplicit false
set_option linter.unusedSectionVars false

/-! # Packets that are not reassembled

`rlcBeforeReassembly` is `RlcProcessAMRxPacket` up to its call of `RlcReassembleRlcSdu`. If
the function gives up before, whatever the reason and whichever allocations are refused, it
releases the buffer of the packet and all that it has allocated, except for the context and
the entity that it has created; these are in the list of the contexts. The entities that were
there are as before. An LI that is larger than the data is different: the function gives its
value to `%s` before it releases anything.
-/

namespace LteUlp.Rlc

open BlockStore LteUlp.Rrc LteUlp.Mac RlcSduStatus

variable {β : Type} [DecidableEq β] {env : Platform β}

/-! ## Up to the reassembly -/

/-- The branch for a slot of the ring that is free. What is returned besides the state is the
node to be put into the slot; there is none if the function gives up. -/
def rlcNewAmdPduNode (env : Platform β) (s : RlcState β) (e : β) (h : AmdHeader)
    (info : RlcUlDataInfo β) : RlcState β × Option (RingNode β) :=
  let ringSn := h.sn &&& 511
  let s :=
    match ((s.rxAmEntity e).amdPduRing ringSn).data with
    | none => s
    | some pdu => (rlcDeleteAmdPdu s pdu).setRing e ringSn ⟨.free, none⟩
  match rlcNewAmdPdu env s h info with
  | (s, none) => (s, none)
  | (s, some pdu) => (s, some ⟨.inUse, some pdu⟩)

/-- The branch for a slot that is in use. -/
def rlcNextAmdPduNode (s : RlcState β) (e : β) (h : AmdHeader) (info : RlcUlDataInfo β) :
    RlcState β × Option (RingNode β) :=
  let node := (s.rxAmEntity e).amdPduRing (h.sn &&& 511)
  match node.data with
  | none => (s.free? info.rlcdataBuffer, none)
  | some pdu =>
      if h.rf ≠ 0 then ((rlcProcessAmdPduSegment s info).1.free? info.rlcdataBuffer, none)
      else (s.free? info.rlcdataBuffer, some ⟨node.status, some { pdu with status := .complete }⟩)

/-- What comes before the reassembly: the state, and the entity, the sequence number and the
node that `RlcReassembleRlcSdu` is called with. -/
def rlcBeforeReassembly (env : Platform β) (s : RlcState β) (info : RlcUlDataInfo β)
    (rnti : UInt16) : RlcState β × Option (β × Nat × RingNode β) :=
  if info.lcId > srb2LcId then (s.free? info.rlcdataBuffer, none)
  else
    match info.rlcdataBuffer.bind fun b => rlcDecodeAmdHeader (s.mem.bytes b) info.length with
    | none => (s.free? info.rlcdataBuffer, none)
    | some h =>
        if h.dc = 0 then (s.free? info.rlcdataBuffer, none)
        else
          match rlcContextFor env s rnti with
          | (s, none) => (s.free? info.rlcdataBuffer, none)
          | (s, some a) =>
              match rlcEntityFor env s a info.lcId with
              | (s, none) => (s.free? info.rlcdataBuffer, none)
              | (s, some e) =>
                  let r :=
                    if ((s.rxAmEntity e).amdPduRing (h.sn &&& 511)).status = .free then
                      rlcNewAmdPduNode env s e h info
                    else rlcNextAmdPduNode s e h info
                  (r.1, r.2.map fun node => (e, h.sn, node))

/-- The call of `RlcReassembleRlcSdu`, once the node is in its slot. -/
def rlcReassembleNode (env : Platform β) : RlcState β × Option (β × Nat × RingNode β) → RlcState β
  | (s, none) => s
  | (s, some (e, sn, node)) => rlcReassembleRlcSdu env (s.setRing e (sn &&& 511) node) sn e

section Rules

variable {s t u : RlcState β} {a b e : β} {info : RlcUlDataInfo β} {rnti : UInt16}
  {h : AmdHeader} {new : Multiset β}

theorem rlcProcessNewAmdPdu_node (env : Platform β) (s : RlcState β) (e : β) (h : AmdHeader)
    (info : RlcUlDataInfo β) :
    rlcProcessNewAmdPdu env s e h info = rlcReassembleNode env
      ((rlcNewAmdPduNode env s e h info).1,
        (rlcNewAmdPduNode env s e h info).2.map fun node => (e, h.sn, node)) := by
  have hempty : ∀ u : RlcState β, ((u.rxAmEntity e).amdPduRing (h.sn &&& 511)).data = none →
      rlcProcessNewAmdPdu env u e h info = rlcReassembleNode env
        ((rlcNewAmdPduNode env u e h info).1,
          (rlcNewAmdPduNode env u e h info).2.map fun node => (e, h.sn, node)) := by
    intro u hu
    rw [rlcProcessNewAmdPdu_eq env h info hu]
    unfold rlcNewAmdPduNode
    simp only [hu]
    rcases rlcNewAmdPdu env u h info with ⟨v, _ | pdu⟩ <;> rfl
  cases hdata : ((s.rxAmEntity e).amdPduRing (h.sn &&& 511)).data with
  | none => exact hempty s hdata
  | some pdu =>
      have hnone : ((((rlcDeleteAmdPdu s pdu).setRing e (h.sn &&& 511)
          ⟨.free, none⟩).rxAmEntity e).amdPduRing (h.sn &&& 511)).data = none := by
        simp [RlcState.setRing, RlcState.setEntity]
      have hclear : rlcNewAmdPduNode env s e h info = rlcNewAmdPduNode env
          ((rlcDeleteAmdPdu s pdu).setRing e (h.sn &&& 511) ⟨.free, none⟩) e h info := by
        conv_rhs => rw [rlcNewAmdPduNode]
        rw [rlcNewAmdPduNode]
        simp only [hdata, hnone]
      rw [rlcProcessNewAmdPdu_clear env h info hdata, hclear]
      exact hempty _ hnone

theorem rlcProcessNextAmdPdu_node (env : Platform β) (s : RlcState β) (e : β) (h : AmdHeader)
    (info : RlcUlDataInfo β) :
    rlcProcessNextAmdPdu env s e h info = rlcReassembleNode env
      ((rlcNextAmdPduNode s e h info).1,
        (rlcNextAmdPduNode s e h info).2.map fun node => (e, h.sn, node)) := by
  unfold rlcProcessNextAmdPdu rlcNextAmdPduNode
  simp only
  cases ((s.rxAmEntity e).amdPduRing (h.sn &&& 511)).data with
  | none => rfl
  | some pdu =>
      by_cases hrf : h.rf ≠ 0
      · simp only [if_pos hrf]
        rfl
      · simp only [if_neg hrf]
        rfl

/-- `RlcProcessAMRxPacket` gives up, or calls `RlcReassembleRlcSdu`. -/
theorem rlcProcessAmRxPacket_eq (env : Platform β) (s : RlcState β) (info : RlcUlDataInfo β)
    (rnti : UInt16) :
    rlcProcessAmRxPacket env s info rnti
      = rlcReassembleNode env (rlcBeforeReassembly env s info rnti) := by
  unfold rlcProcessAmRxPacket rlcBeforeReassembly
  split
  · rfl
  cases info.rlcdataBuffer.bind fun b => rlcDecodeAmdHeader (s.mem.bytes b) info.length with
  | none => rfl
  | some h =>
      simp only
      split
      · rfl
      rcases rlcContextFor env s rnti with ⟨t, _ | a⟩
      · rfl
      simp only
      rcases rlcEntityFor env t a info.lcId with ⟨u, _ | e⟩
      · rfl
      simp only
      split
      · exact rlcProcessNewAmdPdu_node env u e h info
      · exact rlcProcessNextAmdPdu_node env u e h info

/-! ## What is created -/

/-- Only contexts and entities are new, the blocks `new`, and the entities in use are as
before. -/
structure Creates (s t : RlcState β) (new : Multiset β) : Prop where
  transfer : Transfer s.mem t.mem 0 new
  listed : ∀ b ∈ new, b ∈ t.gRlcUeContextList ∨ b ∈ t.entities
  entity : ∀ e ∈ s.mem.inUse, t.rxAmEntity e = s.rxAmEntity e

theorem Creates.refl (s : RlcState β) : Creates s s 0 :=
  ⟨.refl _ 0, by simp, fun _ _ => rfl⟩

theorem Creates.of_alloc_none {n : Nat} (h : s.alloc env n = (t, none)) : Creates s t 0 := by
  refine ⟨(alloc_memWorks h).transfer, by simp, fun e _ => ?_⟩
  rw [alloc_onMem h]
  rfl

/-- What has been created stays listed if no context is taken off the list. -/
theorem Creates.trans {new' : Multiset β} (h : Creates s t new) (h' : Creates t u new')
    (hn : s.mem.inUse.Nodup) (hctx : ∀ b ∈ new, b ∈ t.gRlcUeContextList)
    (hlist : u.gRlcUeContextList = t.gRlcUeContextList) : Creates s u (new' + new) := by
  refine ⟨h.transfer.trans h'.transfer (zero_add new).symm, fun b hb => ?_, fun e he => ?_⟩
  · rcases Multiset.mem_add.mp hb with hb | hb
    · exact h'.listed b hb
    · rw [hlist]
      exact Or.inl (hctx b hb)
  · have hkeeps := h.transfer.keeps s.mem.inUse hn (zero_add _).symm
    have het : e ∈ t.mem.inUse := by
      rw [hkeeps.inUse]
      exact Multiset.mem_add.mpr (Or.inr he)
    rw [h'.entity e het, h.entity e he]

/-- The context is listed; an entity that it has was there before. -/
theorem rlcContextFor_creates {o : Option β} (h : rlcContextFor env s rnti = (t, o)) :
    ∃ new, Creates s t new ∧ (∀ b ∈ new, b ∈ t.gRlcUeContextList) ∧
      ∀ a, o = some a → a ∈ t.gRlcUeContextList ∧ t.rxAmEntity = s.rxAmEntity ∧
        ∀ i < maxLcId, ∀ e, (t.rlcUeContext a).rxAmEntityArray i = some e → e ∈ s.entities := by
  unfold rlcContextFor at h
  cases hg : rlcGetUeContext s rnti with
  | none =>
      rw [hg] at h
      simp only [rlcCreateUeContext] at h
      cases ha : s.alloc env (env.sizeof .rlcUeContext) with
      | mk v o' =>
          rw [ha] at h
          cases o' with
          | none =>
              obtain ⟨rfl, rfl⟩ := Prod.mk.inj h
              exact ⟨0, .of_alloc_none ha, by simp, by simp⟩
          | some b =>
              have hv := (alloc_memWorks ha).transfer
              have hmem : v.rxAmEntity = s.rxAmEntity := by
                rw [alloc_onMem ha]
                rfl
              obtain ⟨rfl, rfl⟩ := Prod.mk.inj h
              refine ⟨{b}, ⟨hv, fun c hc => Or.inl ?_, fun e _ => congrFun hmem e⟩, ?_, ?_⟩
              · simp [Multiset.mem_singleton.mp hc]
              · intro c hc
                simp [Multiset.mem_singleton.mp hc]
              · intro c hc
                obtain rfl := Option.some.inj hc
                refine ⟨by simp, hmem, fun i _ e he => ?_⟩
                simp [RlcState.setUeContext] at he
  | some b =>
      have hb : b ∈ s.gRlcUeContextList := List.mem_of_find?_eq_some hg
      rw [hg] at h
      simp only at h
      split at h
      · obtain ⟨rfl, rfl⟩ := Prod.mk.inj h
        exact ⟨0, ⟨.refl _ 0, by simp, fun _ _ => rfl⟩, by simp, by simp⟩
      · obtain ⟨rfl, rfl⟩ := Prod.mk.inj h
        refine ⟨0, ⟨.refl _ 0, by simp, fun _ _ => rfl⟩, by simp, fun c hc => ?_⟩
        obtain rfl := Option.some.inj hc
        refine ⟨hb, rfl, fun i hi e he => ?_⟩
        refine mem_entities.mpr ⟨b, hb, mem_contextEntities.mpr ⟨i, hi, ?_⟩⟩
        simpa [rlcUpdateUeContextTime, RlcState.setUeContext] using he

/-- The entity is one that the context has, or a fresh one. -/
theorem rlcEntityFor_creates {lcId : Nat} {o : Option β} (hlc : lcId < maxLcId)
    (ha : a ∈ s.gRlcUeContextList) (h : rlcEntityFor env s a lcId = (t, o)) :
    t.gRlcUeContextList = s.gRlcUeContextList ∧ (∃ new, Creates s t new) ∧
      ∀ e, o = some e → t = s ∧ (s.rlcUeContext a).rxAmEntityArray lcId = some e ∨
        ∀ k, (t.rxAmEntity e).amdPduRing k = ⟨.free, none⟩ := by
  unfold rlcEntityFor rlcGetRxAmEntity at h
  rw [if_pos hlc] at h
  cases hg : (s.rlcUeContext a).rxAmEntityArray lcId with
  | some x =>
      rw [hg] at h
      obtain ⟨rfl, rfl⟩ := Prod.mk.inj h
      exact ⟨rfl, ⟨0, .refl s⟩, fun e he => Or.inl ⟨rfl, he⟩⟩
  | none =>
      rw [hg] at h
      simp only [rlcCreateRxAmEntity, if_pos hlc] at h
      cases halloc : s.alloc env (env.sizeof .rxAMEntity) with
      | mk v o' =>
          have hv := alloc_onMem halloc
          have hlist : v.gRlcUeContextList = s.gRlcUeContextList := by
            rw [hv]
            rfl
          rw [halloc] at h
          cases o' with
          | none =>
              obtain ⟨rfl, rfl⟩ := Prod.mk.inj h
              exact ⟨hlist, ⟨0, .of_alloc_none halloc⟩, by simp⟩
          | some x =>
              have hfresh := (alloc_fresh halloc).1
              have ht : t = addEntity v a lcId x := (Prod.mk.inj h).1.symm
              have ho : o = some x := (Prod.mk.inj h).2.symm
              subst ht ho
              refine ⟨hlist, ⟨{x}, (alloc_memWorks halloc).transfer, fun b hb => ?_,
                fun e he => ?_⟩, fun e he => Or.inr fun k => ?_⟩
              · obtain rfl := Multiset.mem_singleton.mp hb
                have hav : a ∈ (addEntity v a lcId b).gRlcUeContextList := hlist ▸ ha
                refine Or.inr (mem_entities.mpr ⟨a, hav, mem_contextEntities.mpr
                  ⟨lcId, hlc, ?_⟩⟩)
                rw [addEntity_context]
                exact Function.update_self ..
              · rw [addEntity_entity_ne v a lcId (ne_of_mem_of_not_mem he hfresh), hv]
                rfl
              · obtain rfl := Option.some.inj he
                rw [addEntity_entity]
                rfl

/-! ## Packets that are not reassembled -/

/-- A packet comes in: its buffer is in use, `rest` is what else is in use. The entities are
in use, and their rings are empty. -/
structure Arrives (s : RlcState β) (info : RlcUlDataInfo β) (rest : Multiset β) : Prop where
  nodup : s.mem.inUse.Nodup
  inUse : s.mem.inUse = blockOf info.rlcdataBuffer + rest
  entities : ∀ e ∈ s.entities, e ∈ s.mem.inUse
  rings : ∀ e ∈ s.entities, ∀ k, (s.rxAmEntity e).amdPduRing k = ⟨.free, none⟩

/-- A packet for a sound state. -/
theorem RlcSound.arrives {f : Multiset β} (hs : RlcSound s)
    (hr : RrcSound s.toRrcState (s.rlcOwned + (blockOf info.rlcdataBuffer + f))) :
    ∃ rest, Arrives s info rest := by
  have hle : blockOf info.rlcdataBuffer ≤ s.mem.inUse :=
    le_trans (le_trans (Multiset.le_add_right _ f) (Multiset.le_add_left _ s.rlcOwned))
      (inHand_le hr)
  obtain ⟨rest, hrest⟩ := Multiset.le_iff_exists_add.mp hle
  exact ⟨rest, hr.nodup, hrest, fun e he => entity_inUse hr he, hs.rings⟩

/-- What has been created is all that is left. -/
structure GaveUp (s t : RlcState β) (info : RlcUlDataInfo β) (new : Multiset β) : Prop where
  transfer : Transfer s.mem t.mem (blockOf info.rlcdataBuffer) new
  listed : ∀ b ∈ new, b ∈ t.gRlcUeContextList ∨ b ∈ t.entities
  entity : ∀ e ∈ s.mem.inUse, t.rxAmEntity e = s.rxAmEntity e

/-- The function gives up after creating, and what it then does turns the buffer to
nothing. -/
theorem Creates.gaveUp (h : Creates s t new) (hw : MemWorks t u (blockOf info.rlcdataBuffer) 0) :
    GaveUp s u info new := by
  have h1 := h.transfer.frame (blockOf info.rlcdataBuffer)
  rw [zero_add, add_comm] at h1
  have h2 := h1.trans hw.transfer rfl
  rw [zero_add] at h2
  refine ⟨h2, fun b hb => ?_, fun e he => ?_⟩
  · rw [hw.only]
    exact h.listed b hb
  · rw [hw.only]
    exact h.entity e he

theorem rlcNewAmdPduNode_memWorks
    (hring : (s.rxAmEntity e).amdPduRing (h.sn &&& 511) = ⟨.free, none⟩)
    (hn : rlcNewAmdPduNode env s e h info = (t, none)) :
    MemWorks s t (blockOf info.rlcdataBuffer) 0 := by
  unfold rlcNewAmdPduNode at hn
  simp only [hring] at hn
  cases hp : rlcNewAmdPdu env s h info with
  | mk v o =>
      rw [hp] at hn
      cases o with
      | none =>
          obtain ⟨rfl, -⟩ := Prod.mk.inj hn
          exact (rlcNewAmdPdu_memWorks hp).1
      | some pdu => simp at hn

theorem rlcBeforeReassembly_gaveUp {rest : Multiset β} (harr : Arrives s info rest)
    (hb : rlcBeforeReassembly env s info rnti = (t, none)) : ∃ new, GaveUp s t info new := by
  have hfree : ∀ v : RlcState β, MemWorks v (v.free? info.rlcdataBuffer)
      (blockOf info.rlcdataBuffer) 0 := fun v => free?_memWorks v _
  unfold rlcBeforeReassembly at hb
  split at hb
  · obtain ⟨rfl, -⟩ := Prod.mk.inj hb
    exact ⟨0, (Creates.refl s).gaveUp (hfree s)⟩
  rename_i hlc
  have hlc' : info.lcId < maxLcId := by
    simp only [srb2LcId, maxLcId] at hlc ⊢
    omega
  split at hb
  · obtain ⟨rfl, -⟩ := Prod.mk.inj hb
    exact ⟨0, (Creates.refl s).gaveUp (hfree s)⟩
  rename_i h _
  split at hb
  · obtain ⟨rfl, -⟩ := Prod.mk.inj hb
    exact ⟨0, (Creates.refl s).gaveUp (hfree s)⟩
  cases hctx : rlcContextFor env s rnti with
  | mk v o =>
      obtain ⟨new, hnew, hlisted, ho⟩ := rlcContextFor_creates hctx
      rw [hctx] at hb
      cases o with
      | none =>
          obtain ⟨rfl, -⟩ := Prod.mk.inj hb
          exact ⟨new, hnew.gaveUp (hfree v)⟩
      | some a =>
          obtain ⟨ha, hold, harray⟩ := ho a rfl
          simp only at hb
          cases hent : rlcEntityFor env v a info.lcId with
          | mk w o =>
              obtain ⟨hlist, ⟨new', hnew'⟩, hring⟩ := rlcEntityFor_creates hlc' ha hent
              have hboth := hnew.trans hnew' harr.nodup hlisted hlist
              rw [hent] at hb
              cases o with
              | none =>
                  obtain ⟨rfl, -⟩ := Prod.mk.inj hb
                  exact ⟨_, hboth.gaveUp (hfree w)⟩
              | some e =>
                  -- the ring of the entity is empty, whether it was there or not
                  have hempty : (w.rxAmEntity e).amdPduRing (h.sn &&& 511) = ⟨.free, none⟩ := by
                    rcases hring e rfl with ⟨rfl, hmem⟩ | hfresh
                    · rw [hold]
                      exact harr.rings e (harray _ hlc' e hmem) _
                    · exact hfresh _
                  simp only [hempty, if_true] at hb
                  cases hn : rlcNewAmdPduNode env w e h info with
                  | mk x o =>
                      rw [hn] at hb
                      obtain ⟨rfl, ho⟩ := Prod.mk.inj hb
                      have hnone : o = none := by simpa using ho
                      subst hnone
                      exact ⟨_, hboth.gaveUp (rlcNewAmdPduNode_memWorks hempty hn)⟩

/-! ## LIs that are larger than the data -/

/-- The data is cut at one LI after the other, until an LI is larger than what is left of it:
the sizes of the blocks that are asked for before. There are none if all LIs fit. -/
def beforeLargeLi (env : Platform β) : UInt32 → List Nat → Option (List Nat)
  | _, [] => none
  | size, li :: lis =>
      if UInt32.ofNat li > size then some []
      else (beforeLargeLi env (size - UInt32.ofNat li) lis).map fun ns =>
        env.sizeof .amdDFE :: (size - UInt32.ofNat li).toNat :: ns

/-- The same for the LIs of a PDU of this length. -/
def chainLargeLi (env : Platform β) (data : Nat → UInt8) (length : Nat) : Option (List Nat) :=
  (rlcGetConcatenationHeaderInfo data).bind fun pduHeader =>
    beforeLargeLi env (UInt32.ofNat length - UInt32.ofNat pduHeader.hdrSize) pduHeader.dfeLength

/-- An AMD PDU, not a segment of one, with an LI that is larger than its data, and what is
asked for before this LI is reached, once there is an entity. -/
def packetLargeLi (env : Platform β) (data : Nat → UInt8) (length : Nat) : Option (List Nat) :=
  (rlcDecodeAmdHeader data length).bind fun h =>
    if h.dc = 0 ∨ h.rf ≠ 0 ∨ h.e = 0 then none
    else (chainLargeLi env data length).map fun ns =>
      env.sizeof .amdPdu :: env.sizeof .amdPduSegment :: env.sizeof .amdDFE :: ns

/-- What is asked for to have an entity for the channel; a context that is pending deletion
has none. -/
def entitySizes (env : Platform β) (s : RlcState β) (rnti : UInt16) (lcId : Nat) :
    Option (List Nat) :=
  match rlcGetUeContext s rnti with
  | none => some [env.sizeof .rlcUeContext, env.sizeof .rxAMEntity]
  | some a =>
      if (s.rlcUeContext a).deleteFlag then none
      else if ((s.rlcUeContext a).rxAmEntityArray lcId).isSome then some []
      else some [env.sizeof .rxAMEntity]

/-- The packet has an LI that is larger than its data, and it is reached: no allocation before
is refused. -/
def reachesLargeLi (env : Platform β) (s : RlcState β) (info : RlcUlDataInfo β)
    (rnti : UInt16) : Bool :=
  decide (info.lcId ≤ srb2LcId) &&
    (info.rlcdataBuffer.bind fun b => packetLargeLi env (s.mem.bytes b) info.length).any fun ns =>
      (entitySizes env s rnti info.lcId).any fun ms => s.mem.grants env.toPolicy (ms ++ ns)

theorem grants_cons_none {n : Nat} (h : s.alloc env n = (t, none)) (ns : List Nat) :
    s.mem.grants env.toPolicy (n :: ns) = false := by
  have hnone : (s.mem.alloc env.toPolicy n).2 = none := congrArg Prod.snd h
  rw [Store.grants, hnone]
  rfl

theorem grants_cons_some {n : Nat} (h : s.alloc env n = (t, some b)) (ns : List Nat) :
    s.mem.grants env.toPolicy (n :: ns) = t.mem.grants env.toPolicy ns := by
  have hsome : (s.mem.alloc env.toPolicy n).2 = some b := congrArg Prod.snd h
  have hmem : (s.mem.alloc env.toPolicy n).1 = t.mem :=
    congrArg (fun r : RlcState β × Option β => r.1.mem) h
  rw [Store.grants, hsome, hmem]
  rfl

theorem rlcAlloc_bytes {n : Nat} {o : Option β} (h : s.alloc env n = (t, o)) :
    t.mem.bytes = s.mem.bytes := by
  have hmem : (s.mem.alloc env.toPolicy n).1 = t.mem :=
    congrArg (fun r : RlcState β × Option β => r.1.mem) h
  rw [← hmem]
  unfold Store.alloc
  split <;> rfl

theorem any_false (o : Option (List Nat)) : o.any (fun _ => false) = false := by
  cases o <;> rfl

variable (env) in
/-- **An LI that is larger than the data** is given to `%s` if it is reached. -/
theorem rlcDecodeAndEnqueueAmSegment_badDerefs (fi : UInt8) (lis : List Nat) (s : RlcState β)
    (dfeQ : List (AmdDfe β)) (dfe : AmdDfe β) :
    (rlcDecodeAndEnqueueAmSegment env fi lis s dfeQ dfe).1.badDerefs = s.badDerefs
      + ((beforeLargeLi env dfe.buffer.size lis).any (s.mem.grants env.toPolicy)).toNat := by
  induction lis generalizing s dfeQ dfe with
  | nil => rfl
  | cons li lis ih =>
      unfold rlcDecodeAndEnqueueAmSegment beforeLargeLi
      simp only
      by_cases hli : UInt32.ofNat li > dfe.buffer.size
      · rw [if_pos hli, if_pos hli]
        rfl
      rw [if_neg hli, if_neg hli, Option.any_map]
      cases ha : s.alloc env (env.sizeof .amdDFE) with
      | mk t o =>
          have ht := rlcAlloc_badDerefs ha
          cases o with
          | none =>
              simp only [grants_cons_none ha, any_false]
              exact ht
          | some next =>
              simp only [grants_cons_some ha]
              cases hb : t.alloc env (dfe.buffer.size - UInt32.ofNat li).toNat with
              | mk u o =>
                  have hu := rlcAlloc_badDerefs hb
                  cases o with
                  | none =>
                      simp only [grants_cons_none hb, any_false]
                      exact hu.trans ht
                  | some pData =>
                      simp only [grants_cons_some hb]
                      rw [← ht, ← hu]
                      refine (ih _ _ _).trans ?_
                      -- writing to a block leaves the clock and the blocks in use
                      exact congrArg (fun p => u.badDerefs + (Option.any p _).toNat)
                        (funext fun ns => grants_congr rfl rfl)

theorem dropHeader_grants {P : Policy β} (m : Store β) (o : Option β) (n : Nat) (ns : List Nat) :
    (o.elim m fun b => m.dropFront b n).grants P ns = m.grants P ns := by
  cases o with
  | none => rfl
  | some b =>
      refine grants_congr ?_ ?_
      · show (m.dropFront b n).clock = m.clock
        unfold Store.dropFront
        split_ifs <;> rfl
      · show (m.dropFront b n).inUse = m.inUse
        unfold Store.dropFront
        split_ifs <;> rfl

theorem rlcDecodeAmdPdu_badDerefs (s : RlcState β) {pdu : AmdPdu β} (hpdu : pdu.segList = [])
    (h : AmdHeader) (info : RlcUlDataInfo β) :
    (rlcDecodeAmdPdu env s pdu h info).1.badDerefs = s.badDerefs
      + (decide (h.e ≠ 0) && (chainLargeLi env (info.rlcdataBuffer.elim (fun _ => 0) s.mem.bytes)
          info.length).any fun ns => s.mem.grants env.toPolicy
            (env.sizeof .amdPduSegment :: env.sizeof .amdDFE :: ns)).toNat := by
  unfold rlcDecodeAmdPdu chainLargeLi
  simp only
  rw [if_neg (by simp [hpdu])]
  cases hseg : s.alloc env (env.sizeof .amdPduSegment) with
  | mk t o =>
      have ht := rlcAlloc_badDerefs hseg
      cases o with
      | none =>
          simp only [grants_cons_none hseg, any_false, Bool.and_false]
          exact ht
      | some seg =>
          simp only [grants_cons_some hseg]
          by_cases he : h.e = 0
          · rw [if_pos he, decide_eq_false (not_not.mpr he), Bool.false_and]
            cases ha : t.alloc env (env.sizeof .amdDFE) with
            | mk u o =>
                have hu := rlcAlloc_badDerefs ha
                cases o with
                | none => exact (rlcDeleteAmdPduSegment_badDerefs _ _).trans (hu.trans ht)
                | some a => exact hu.trans ht
          rw [if_neg he, decide_eq_true he, Bool.true_and]
          cases rlcGetConcatenationHeaderInfo
              (info.rlcdataBuffer.elim (fun _ => 0) s.mem.bytes) with
          | none => exact (rlcDeleteAmdPduSegment_badDerefs _ _).trans ht
          | some pduHeader =>
              simp only [Option.bind_some]
              cases ha : t.alloc env (env.sizeof .amdDFE) with
              | mk u o =>
                  have hu := rlcAlloc_badDerefs ha
                  cases o with
                  | none =>
                      simp only [grants_cons_none ha, any_false]
                      exact (rlcDeleteAmdPduSegment_badDerefs _ _).trans (hu.trans ht)
                  | some a =>
                      simp only [grants_cons_some ha]
                      have hdecode := rlcDecodeAndEnqueueAmSegment_badDerefs env h.fi
                        pduHeader.dfeLength (u.onMem fun m =>
                          info.rlcdataBuffer.elim m fun b => m.dropFront b pduHeader.hdrSize) []
                        ⟨a, if h.fi &&& 0x02 ≠ 0 then amPduMapSduEnd else amPduMapSduFull,
                          UInt32.ofNat info.length - UInt32.ofNat pduHeader.hdrSize,
                          info.rlcdataBuffer⟩
                      rw [show (u.onMem fun m => info.rlcdataBuffer.elim m fun b =>
                          m.dropFront b pduHeader.hdrSize).badDerefs = s.badDerefs from
                        hu.trans ht, show (u.onMem fun m => info.rlcdataBuffer.elim m fun b =>
                          m.dropFront b pduHeader.hdrSize).mem.grants env.toPolicy
                            = u.mem.grants env.toPolicy from
                        funext (dropHeader_grants u.mem info.rlcdataBuffer _)] at hdecode
                      refine Eq.trans ?_ hdecode
                      split
                      · rename_i hr
                        rw [hr]
                        exact rlcDeleteAmdPduSegment_badDerefs _ _
                      · rename_i hr
                        rw [hr]

theorem rlcNewAmdPduNode_badDerefs
    (hring : (s.rxAmEntity e).amdPduRing (h.sn &&& 511) = ⟨.free, none⟩) :
    (rlcNewAmdPduNode env s e h info).1.badDerefs = s.badDerefs
      + (decide (h.rf = 0) && (decide (h.e ≠ 0) && (chainLargeLi env
          (info.rlcdataBuffer.elim (fun _ => 0) s.mem.bytes) info.length).any fun ns =>
            s.mem.grants env.toPolicy (env.sizeof .amdPdu :: env.sizeof .amdPduSegment ::
              env.sizeof .amdDFE :: ns))).toNat := by
  have hnew : (rlcNewAmdPduNode env s e h info).1 = (rlcNewAmdPdu env s h info).1 := by
    unfold rlcNewAmdPduNode
    simp only [hring]
    split
    · rename_i hr
      rw [hr]
    · rename_i hr
      rw [hr]
  rw [hnew]
  unfold rlcNewAmdPdu
  cases hc : rlcCreateAmdPdu env s with
  | mk t o =>
      cases o with
      | none =>
          have ha := rlcCreateAmdPdu_none hc
          have ht := rlcAlloc_badDerefs ha
          simp only [grants_cons_none ha, any_false, Bool.and_false]
          exact ht
      | some pdu =>
          obtain ⟨ha, hpdu⟩ := rlcCreateAmdPdu_some hc
          have ht := rlcAlloc_badDerefs ha
          have hbytes : t.mem.bytes = s.mem.bytes := rlcAlloc_bytes ha
          simp only [grants_cons_some ha]
          by_cases hrf : h.rf = 0
          · rw [if_neg (not_not.mpr hrf), decide_eq_true hrf, Bool.true_and, ← ht, ← hbytes]
            refine Eq.trans ?_ (rlcDecodeAmdPdu_badDerefs t hpdu h info)
            split
            · rename_i hr
              rw [hr]
              exact rlcDeleteAmdPdu_badDerefs _ _
            · rename_i hr
              rw [hr]
          · rw [if_pos hrf, decide_eq_false hrf, Bool.false_and]
            exact (rlcDeleteAmdPdu_badDerefs _ _).trans ht

/-- What is asked for to have the entity, once there is the context. -/
def ownEntitySizes (env : Platform β) (s : RlcState β) (a : β) (lcId : Nat) : List Nat :=
  if ((s.rlcUeContext a).rxAmEntityArray lcId).isSome then [] else [env.sizeof .rxAMEntity]

theorem rlcContextFor_grants {o : Option β} (h : rlcContextFor env s rnti = (t, o))
    (lcId : Nat) (ns : List Nat) :
    (t.badDerefs = s.badDerefs ∧ t.mem.bytes = s.mem.bytes) ∧
      ((entitySizes env s rnti lcId).any fun ms => s.mem.grants env.toPolicy (ms ++ ns))
        = o.elim false fun a =>
          t.mem.grants env.toPolicy (ownEntitySizes env t a lcId ++ ns) := by
  unfold rlcContextFor at h
  unfold entitySizes
  cases hg : rlcGetUeContext s rnti with
  | none =>
      rw [hg] at h
      simp only [rlcCreateUeContext] at h
      cases ha : s.alloc env (env.sizeof .rlcUeContext) with
      | mk v o' =>
          have hv := And.intro (rlcAlloc_badDerefs ha) (rlcAlloc_bytes ha)
          rw [ha] at h
          cases o' with
          | none =>
              obtain ⟨rfl, rfl⟩ := Prod.mk.inj h
              exact ⟨hv, grants_cons_none ha _⟩
          | some b =>
              obtain ⟨rfl, rfl⟩ := Prod.mk.inj h
              refine ⟨hv, (grants_cons_some ha _).trans ?_⟩
              simp [ownEntitySizes, RlcState.setUeContext]
  | some b =>
      rw [hg] at h
      simp only at h ⊢
      by_cases hdel : (s.rlcUeContext b).deleteFlag = true
      · rw [if_pos hdel] at h ⊢
        obtain ⟨rfl, rfl⟩ := Prod.mk.inj h
        exact ⟨⟨rfl, rfl⟩, rfl⟩
      · rw [if_neg hdel] at h ⊢
        obtain ⟨rfl, rfl⟩ := Prod.mk.inj h
        have harray : ((rlcUpdateUeContextTime s b 0).rlcUeContext b).rxAmEntityArray
            = (s.rlcUeContext b).rxAmEntityArray := by
          simp [rlcUpdateUeContextTime, RlcState.setUeContext]
        refine ⟨⟨rfl, rfl⟩, ?_⟩
        unfold ownEntitySizes
        rw [Option.elim_some, harray]
        split <;> rfl

theorem rlcEntityFor_grants {lcId : Nat} {o : Option β} (hlc : lcId < maxLcId)
    (h : rlcEntityFor env s a lcId = (t, o)) (ns : List Nat) :
    (t.badDerefs = s.badDerefs ∧ t.mem.bytes = s.mem.bytes) ∧
      s.mem.grants env.toPolicy (ownEntitySizes env s a lcId ++ ns)
        = o.elim false fun _ => t.mem.grants env.toPolicy ns := by
  unfold rlcEntityFor rlcGetRxAmEntity at h
  unfold ownEntitySizes
  rw [if_pos hlc] at h
  cases hg : (s.rlcUeContext a).rxAmEntityArray lcId with
  | some x =>
      rw [hg] at h
      obtain ⟨rfl, rfl⟩ := Prod.mk.inj h
      exact ⟨⟨rfl, rfl⟩, rfl⟩
  | none =>
      rw [hg] at h
      simp only [rlcCreateRxAmEntity, if_pos hlc] at h
      cases ha : s.alloc env (env.sizeof .rxAMEntity) with
      | mk v o' =>
          have hv := And.intro (rlcAlloc_badDerefs ha) (rlcAlloc_bytes ha)
          rw [ha] at h
          cases o' with
          | none =>
              obtain ⟨rfl, rfl⟩ := Prod.mk.inj h
              exact ⟨hv, grants_cons_none ha _⟩
          | some x =>
              obtain ⟨rfl, rfl⟩ := Prod.mk.inj h
              exact ⟨hv, grants_cons_some ha _⟩

variable (env rnti) in
/-- Up to the reassembly `%s` is given a number exactly if an LI that is larger than the data
is reached. -/
theorem rlcBeforeReassembly_badDerefs {rest : Multiset β} (harr : Arrives s info rest) :
    (rlcBeforeReassembly env s info rnti).1.badDerefs
      = s.badDerefs + (reachesLargeLi env s info rnti).toNat := by
  unfold rlcBeforeReassembly reachesLargeLi
  by_cases hlc : info.lcId > srb2LcId
  · rw [if_pos hlc, decide_eq_false (Nat.not_le.mpr hlc)]
    rfl
  rw [if_neg hlc, decide_eq_true (Nat.not_lt.mp hlc), Bool.true_and]
  have hlc' : info.lcId < maxLcId := by
    simp only [srb2LcId, maxLcId] at hlc ⊢
    omega
  cases hbuf : info.rlcdataBuffer with
  | none => rfl
  | some b =>
      rw [Option.bind_some, Option.bind_some]
      unfold packetLargeLi
      cases hdec : rlcDecodeAmdHeader (s.mem.bytes b) info.length with
      | none => rfl
      | some h =>
          simp only [Option.bind_some]
          by_cases hdc : h.dc = 0
          · rw [if_pos hdc, if_pos (Or.inl hdc)]
            rfl
          rw [if_neg hdc]
          cases hctx : rlcContextFor env s rnti with
          | mk v o =>
              have hany := fun ns => (rlcContextFor_grants hctx info.lcId ns).2
              obtain ⟨⟨hbad, hbytes⟩, -⟩ := rlcContextFor_grants hctx info.lcId []
              simp only [hany]
              cases o with
              | none =>
                  simp only [Option.elim_none, any_false]
                  exact hbad
              | some a =>
                  obtain ⟨-, -, -, ho⟩ := rlcContextFor_creates hctx
                  obtain ⟨ha, hold, harray⟩ := ho a rfl
                  simp only [Option.elim_some]
                  cases hent : rlcEntityFor env v a info.lcId with
                  | mk w o =>
                      have hown := fun ns => (rlcEntityFor_grants hlc' hent ns).2
                      obtain ⟨⟨hbad', hbytes'⟩, -⟩ := rlcEntityFor_grants hlc' hent []
                      obtain ⟨-, -, hring⟩ := rlcEntityFor_creates hlc' ha hent
                      simp only [hown]
                      cases o with
                      | none =>
                          simp only [Option.elim_none, any_false]
                          exact hbad'.trans hbad
                      | some e =>
                          have hempty : (w.rxAmEntity e).amdPduRing (h.sn &&& 511)
                              = ⟨.free, none⟩ := by
                            rcases hring e rfl with ⟨rfl, hmem⟩ | hfresh
                            · rw [hold]
                              exact harr.rings e (harray _ hlc' e hmem) _
                            · exact hfresh _
                          simp only [hempty, if_true, Option.elim_some]
                          refine (rlcNewAmdPduNode_badDerefs hempty).trans ?_
                          rw [hbuf, Option.elim_some, hbytes', hbytes, hbad', hbad]
                          by_cases hrf : h.rf = 0
                          · by_cases he : h.e = 0
                            · simp [he]
                            · simp [hdc, hrf, he, Option.any_map]
                          · simp [hrf]

/-- What is left of a packet that is not reassembled: its buffer and what was allocated for it
have been released, each once, all but a context and an entity that have been created. -/
theorem rlcProcessAmRxPacket_gaveUp (env : Platform β) (s : RlcState β)
    (info : RlcUlDataInfo β) (rnti : UInt16) {rest : Multiset β} (harr : Arrives s info rest)
    (hreach : (rlcBeforeReassembly env s info rnti).2 = none) :
    let t := rlcProcessAmRxPacket env s info rnti
    (∃ new, Keeps s.mem t.mem new rest ∧
      ∀ b ∈ new, b ∈ t.gRlcUeContextList ∨ b ∈ t.entities) ∧
    (∀ e ∈ s.entities, t.rxAmEntity e = s.rxAmEntity e) ∧
    t.badDerefs = s.badDerefs + (reachesLargeLi env s info rnti).toNat := by
  have hbad := rlcBeforeReassembly_badDerefs env rnti harr
  cases hb : rlcBeforeReassembly env s info rnti with
  | mk u o =>
      rw [hb] at hreach hbad
      obtain rfl : o = none := hreach
      have hu : rlcProcessAmRxPacket env s info rnti = u := by
        rw [rlcProcessAmRxPacket_eq, hb]
        rfl
      obtain ⟨new, hgave⟩ := rlcBeforeReassembly_gaveUp harr hb
      rw [hu]
      exact ⟨⟨new, hgave.transfer.keeps rest harr.nodup harr.inUse, hgave.listed⟩,
        fun e he => hgave.entity e (harr.entities e he), hbad⟩

/-- From `s` to `t` the function has given up a packet: every call returns, the buffer and all
that was allocated are released, each once, but for contexts and entities that are listed, and
no entity has changed. -/
structure FailsAtomically (s t : RlcState β) (rest : Multiset β) : Prop where
  returns : t.badDerefs = s.badDerefs
  released : ∃ new, Keeps s.mem t.mem new rest ∧
    ∀ b ∈ new, b ∈ t.gRlcUeContextList ∨ b ∈ t.entities
  entity : ∀ e ∈ s.entities, t.rxAmEntity e = s.rxAmEntity e

/-- **Decoding fails atomically** unless an LI that is larger than the data is reached. -/
theorem rlcProcessAmRxPacket_failsAtomically_iff (env : Platform β) (s : RlcState β)
    (info : RlcUlDataInfo β) (rnti : UInt16) {rest : Multiset β} (harr : Arrives s info rest)
    (hreach : (rlcBeforeReassembly env s info rnti).2 = none) :
    FailsAtomically s (rlcProcessAmRxPacket env s info rnti) rest
      ↔ reachesLargeLi env s info rnti = false := by
  obtain ⟨hreleased, hentity, hbad⟩ := rlcProcessAmRxPacket_gaveUp env s info rnti harr hreach
  constructor
  · intro h
    have hreturns := h.returns
    rw [hbad] at hreturns
    cases hlarge : reachesLargeLi env s info rnti with
    | false => rfl
    | true => simp [hlarge] at hreturns
  · intro hlarge
    refine ⟨?_, hreleased, hentity⟩
    rw [hbad, hlarge]
    rfl

end Rules

/-- No context yet, and the block 7 holds a packet. -/
def arrivedState (packet : List UInt8) : RlcState Nat where
  toRrcState := { freshState with
    mem := { freshState.mem with inUse := {7}, bytes := fun _ k => packet.getD k 0 } }
  macUeContext _ := default
  gMacUeContext := []
  rlcUeContext _ := ⟨0, false, 0, fun _ => none⟩
  gRlcUeContextList := []
  rxAmEntity _ := .fresh 0 0
  rlcUeDataInds := []
  refusedJoins := 0
  pendingDeletions := 0

theorem arrivedState_arrives (packet : List UInt8) (n : Nat) :
    Arrives (arrivedState packet) ⟨1, n, some 7⟩ 0 := by
  refine ⟨Multiset.nodup_singleton 7, rfl, ?_, ?_⟩
  · intro e he
    simp [RlcState.entities, arrivedState] at he
  · intro e he
    simp [RlcState.entities, arrivedState] at he

/-- A PDU with a length indicator of 0 is given up after its segment has been allocated; the
context and the entity stay. -/
theorem rlcProcessAmRxPacket_zeroLi :
    let s := arrivedState [0x84, 0, 0, 0, 1, 2]
    let t := rlcProcessAmRxPacket freshPlatform s ⟨1, 6, some 7⟩ 61
    t.gRlcUeContextList.length = 1 ∧ FailsAtomically s t 0 :=
  ⟨by decide +kernel, (rlcProcessAmRxPacket_failsAtomically_iff freshPlatform _ ⟨1, 6, some 7⟩ 61
    (arrivedState_arrives _ 6) (Option.isNone_iff_eq_none.mp (by decide +kernel))).mpr
      (by decide +kernel)⟩

/-- An LI of 3 with two bytes of data. -/
theorem rlcProcessAmRxPacket_largeLi :
    let s := arrivedState [0x84, 0, 0, 0x30, 1, 2]
    (rlcBeforeReassembly freshPlatform s ⟨1, 6, some 7⟩ 61).2 = none ∧
      ¬ FailsAtomically s (rlcProcessAmRxPacket freshPlatform s ⟨1, 6, some 7⟩ 61) 0 := by
  refine ⟨Option.isNone_iff_eq_none.mp (by decide +kernel), fun h => ?_⟩
  exact absurd h.returns (by decide +kernel)

end LteUlp.Rlc
