import LteUlp.Rlc.Reception
import LteUlp.Rrc.Growth

set_option autoImplicit false
set_option linter.unusedSectionVars false

/-! # What a packet leaves alone

A packet of RLC does not touch the contexts of MAC, and the contexts of RRC grow with it as a
message makes them grow (`Rrc/Growth.lean`). What follows the search for the context and the
entity of a packet does not touch the contexts of RLC either. Nothing is assumed of the state:
this holds also after a refused join, when blocks may be released twice.
-/

namespace LteUlp.Rlc

open BlockStore LteUlp.Rrc LteUlp.Pdcp

variable {β : Type} [DecidableEq β]

/-- The contexts of MAC are the same, and those of RRC grow. -/
structure MacKept (s t : RlcState β) : Prop where
  macUeContext : t.macUeContext = s.macUeContext
  gMacUeContext : t.gMacUeContext = s.gMacUeContext
  grown : Grown s.toRrcState t.toRrcState

/-- The contexts of RLC are the same too. -/
structure RlcKept (s t : RlcState β) : Prop extends MacKept s t where
  rlcUeContext : t.rlcUeContext = s.rlcUeContext
  gRlcUeContextList : t.gRlcUeContextList = s.gRlcUeContextList

section Rules

variable {env : Platform β} {s t u : RlcState β} {a e : β} {o : Option β} {rnti : UInt16}

theorem MacKept.refl (s : RlcState β) : MacKept s s := ⟨rfl, rfl, .refl _⟩

theorem MacKept.trans (h : MacKept s t) (h' : MacKept t u) : MacKept s u :=
  ⟨h'.macUeContext.trans h.macUeContext, h'.gMacUeContext.trans h.gMacUeContext,
    h.grown.trans h'.grown⟩

theorem RlcKept.refl (s : RlcState β) : RlcKept s s := ⟨.refl s, rfl, rfl⟩

theorem RlcKept.trans (h : RlcKept s t) (h' : RlcKept t u) : RlcKept s u :=
  ⟨h.toMacKept.trans h'.toMacKept, h'.rlcUeContext.trans h.rlcUeContext,
    h'.gRlcUeContextList.trans h.gRlcUeContextList⟩

theorem RlcKept.foldl {α : Type} {f : RlcState β → α → RlcState β}
    (h : ∀ s x, RlcKept s (f s x)) (l : List α) (s : RlcState β) :
    RlcKept s (l.foldl f s) := by
  apply List.foldlRecOn (motive := RlcKept s) l f (.refl s)
  exact fun u hu x _ => hu.trans (h u x)

theorem MacKept.foldl {α : Type} {f : RlcState β → α → RlcState β}
    (h : ∀ s x, MacKept s (f s x)) (l : List α) (s : RlcState β) :
    MacKept s (l.foldl f s) := by
  apply List.foldlRecOn (motive := MacKept s) l f (.refl s)
  exact fun u hu x _ => hu.trans (h u x)

/-! ## What RLC writes to -/

theorem onlyMem_kept (h : OnlyMem s t) : RlcKept s t := by
  rw [h]
  exact ⟨⟨rfl, rfl, .of_eq rfl rfl fun _ => rfl⟩, rfl, rfl⟩

theorem onMem_kept (s : RlcState β) (f : Store β → Store β) : RlcKept s (s.onMem f) :=
  onlyMem_kept rfl

theorem setEntity_kept (s : RlcState β) (e : β) (x : RxAmEntity β) :
    RlcKept s (s.setEntity e x) := ⟨⟨rfl, rfl, .of_eq rfl rfl fun _ => rfl⟩, rfl, rfl⟩

theorem free?_kept (s : RlcState β) (o : Option β) : RlcKept s (s.free? o) := onMem_kept s _

theorem free_kept (s : RlcState β) (a : β) : RlcKept s (s.free a) := onMem_kept s _

theorem setRaw_kept (s : RlcState β) (e : β) (raw : RlcAmRawSdu β) :
    RlcKept s (s.setRaw e raw) := setEntity_kept s e _

theorem setRing_kept (s : RlcState β) (e : β) (k : Nat) (node : RingNode β) :
    RlcKept s (s.setRing e k node) := setEntity_kept s e _

theorem reportFirst_kept (s : RlcState β) (e : β) : RlcKept s (reportFirst s e) := by
  obtain ⟨rpt, h⟩ := reportFirst_eq s e
  rw [h]
  exact setEntity_kept s e _

theorem reportNext_kept (s : RlcState β) (e : β) : RlcKept s (reportNext s e) := by
  obtain ⟨rpt, h⟩ := reportNext_eq s e
  rw [h]
  exact setEntity_kept s e _

theorem clearReports_kept (s : RlcState β) (e : β) : RlcKept s (clearReports s e) :=
  setEntity_kept s e _

/-! ## Reassembly -/

/-- **A delivered SDU** reaches the contexts of RRC only. -/
theorem rlcDeliverAmSduToPdcp_kept (env : Platform β) (s : RlcState β) (e : β)
    (buffer : RlcAmBuffer β) : RlcKept s (rlcDeliverAmSduToPdcp env s e buffer) := by
  unfold rlcDeliverAmSduToPdcp
  exact ⟨⟨rfl, rfl, rlcUeDataInd_grown env s.toRrcState _ _ _ _ _⟩, rfl, rfl⟩

/-- An SDU is delivered, and the reports are cleared. -/
theorem deliver_kept (env : Platform β) (s : RlcState β) (e : β) (buffer : RlcAmBuffer β) :
    RlcKept s (clearReports (rlcDeliverAmSduToPdcp env s e buffer) e) :=
  (rlcDeliverAmSduToPdcp_kept env s e buffer).trans (clearReports_kept _ e)

theorem rlcReassembleFirstSduSegment_kept (env : Platform β) (s : RlcState β) (sn : Nat)
    (e : β) (dfe : AmdDfe β) : RlcKept s (rlcReassembleFirstSduSegment env s sn e dfe) := by
  unfold rlcReassembleFirstSduSegment
  split
  · exact (reportFirst_kept s e).trans (deliver_kept env _ e dfe.buffer)
  · exact (setRaw_kept s e _).trans (reportFirst_kept _ e)
  · exact free?_kept s _

theorem joinRaw_kept {raw : RlcAmRawSdu β} {dfe : AmdDfe β} {r : Option (RlcAmBuffer β)}
    (hj : joinRaw env s raw dfe = (t, r)) : RlcKept s t := by
  unfold joinRaw at hj
  split at hj
  · split at hj
    · obtain ⟨rfl, rfl⟩ := Prod.mk.inj hj
      exact onMem_kept s _
    · obtain ⟨rfl, rfl⟩ := Prod.mk.inj hj
      exact ⟨⟨rfl, rfl, .of_eq rfl rfl fun _ => rfl⟩, rfl, rfl⟩
  · obtain ⟨rfl, rfl⟩ := Prod.mk.inj hj
    exact .refl s

theorem rlcReassembleInCmpAmSdu_kept (env : Platform β) (s : RlcState β) (sn : Nat) (e : β)
    (dfe : AmdDfe β) : RlcKept s (rlcReassembleInCmpAmSdu env s sn e dfe) := by
  have hdrop : ∀ raw, RlcKept s ((s.free? (s.rxAmEntity e).rxRawSdu.rawSdu.pData).setRaw e raw) :=
    fun raw => (free?_kept s _).trans (setRaw_kept _ e raw)
  unfold rlcReassembleInCmpAmSdu
  simp only
  split
  · split
    · split
      · rename_i u hj
        exact joinRaw_kept hj
      · rename_i u buffer hj
        have hnext := ((joinRaw_kept hj).trans (setRaw_kept u e
          ⟨(s.rxAmEntity e).rxRawSdu.sn, buffer⟩)).trans (reportNext_kept _ e)
        exact (hnext.trans (deliver_kept env _ e buffer)).trans (setRaw_kept _ e _)
    · split
      · split
        · rename_i u hj
          exact joinRaw_kept hj
        · rename_i u buffer hj
          exact ((joinRaw_kept hj).trans (setRaw_kept u e _)).trans (reportNext_kept _ e)
      · exact free?_kept s _
    · exact ((hdrop _).trans (reportFirst_kept _ e)).trans (deliver_kept env _ e dfe.buffer)
    · exact hdrop _
  · split
    · exact (hdrop _).trans (rlcReassembleFirstSduSegment_kept env _ sn e dfe)
    · exact free?_kept s _

theorem rlcReassembleAmdDfe_kept (env : Platform β) (sn : Nat) (e : β) (s : RlcState β)
    (dfe : AmdDfe β) : RlcKept s (rlcReassembleAmdDfe env sn e s dfe) := by
  unfold rlcReassembleAmdDfe
  refine RlcKept.trans ?_ (free_kept _ dfe.addr)
  split
  · split
    · exact rlcReassembleInCmpAmSdu_kept env s sn e dfe
    · exact rlcReassembleFirstSduSegment_kept env s sn e dfe
  · exact .refl s

theorem rlcReassembleRlcSdu_kept (env : Platform β) (s : RlcState β) (sn : Nat) (e : β) :
    RlcKept s (rlcReassembleRlcSdu env s sn e) := by
  unfold rlcReassembleRlcSdu
  simp only
  split
  · split
    · exact setRing_kept s e _ _
    · rename_i pdu _
      split
      · have hseg : ∀ u seg, RlcKept u
            ((rlcReassembleAmdDfeQ env u sn e seg).free seg.addr) := fun u seg =>
          (RlcKept.foldl (rlcReassembleAmdDfe_kept env sn e) seg.dfeQ u).trans
            (free_kept _ seg.addr)
        exact (((setRing_kept s e (sn &&& 511) ⟨.ready, some pdu⟩).trans
          (RlcKept.foldl hseg pdu.segList _)).trans (free_kept _ pdu.addr)).trans
          (setRing_kept _ e _ _)
      · exact .refl s
  · exact .refl s

/-! ## A packet -/

theorem rlcProcessNewAmdPdu_kept (env : Platform β) (s : RlcState β) (e : β) (h : AmdHeader)
    (info : RlcUlDataInfo β) : RlcKept s (rlcProcessNewAmdPdu env s e h info) := by
  -- with an empty slot, the PDU is decoded and reassembled
  have hempty : ∀ u : RlcState β, ((u.rxAmEntity e).amdPduRing (h.sn &&& 511)).data = none →
      RlcKept u (rlcProcessNewAmdPdu env u e h info) := by
    intro u hu
    rw [rlcProcessNewAmdPdu_eq env h info hu]
    cases hn : rlcNewAmdPdu env u h info with
    | mk v r =>
        have hmem := onlyMem_kept (rlcNewAmdPdu_memWorks hn).1.only
        cases r with
        | none => exact hmem
        | some pdu =>
            exact (hmem.trans (setRing_kept v e _ _)).trans
              (rlcReassembleRlcSdu_kept env _ h.sn e)
  cases hdata : ((s.rxAmEntity e).amdPduRing (h.sn &&& 511)).data with
  | none => exact hempty s hdata
  | some pdu =>
      rw [rlcProcessNewAmdPdu_clear env h info hdata]
      have hdel := onlyMem_kept (rlcDeleteAmdPdu_memWorks s pdu).only
      refine (hdel.trans (setRing_kept _ e (h.sn &&& 511) ⟨.free, none⟩)).trans (hempty _ ?_)
      simp [RlcState.setRing, RlcState.setEntity]

theorem rlcProcessNextAmdPdu_kept (env : Platform β) (s : RlcState β) (e : β) (h : AmdHeader)
    (info : RlcUlDataInfo β) : RlcKept s (rlcProcessNextAmdPdu env s e h info) := by
  unfold rlcProcessNextAmdPdu
  simp only
  split
  · exact free?_kept s _
  · split
    · exact (free?_kept s _).trans (free?_kept _ _)
    · exact ((setRing_kept s e _ _).trans (free?_kept _ _)).trans
        (rlcReassembleRlcSdu_kept env _ h.sn e)

theorem alloc_kept {n : Nat} (ha : s.alloc env n = (t, o)) : RlcKept s t :=
  onlyMem_kept (alloc_onlyMem ha)

theorem rlcContextFor_kept (hc : rlcContextFor env s rnti = (t, o)) : MacKept s t := by
  unfold rlcContextFor at hc
  cases hg : rlcGetUeContext s rnti with
  | none =>
      rw [hg] at hc
      simp only at hc
      unfold rlcCreateUeContext at hc
      cases ha : s.alloc env (env.sizeof .rlcUeContext) with
      | mk u o' =>
          have hu := (alloc_kept ha).toMacKept
          rw [ha] at hc
          cases o' with
          | none =>
              obtain ⟨rfl, rfl⟩ := Prod.mk.inj hc
              exact hu
          | some b =>
              obtain ⟨rfl, rfl⟩ := Prod.mk.inj hc
              exact hu.trans ⟨rfl, rfl, .refl _⟩
  | some b =>
      rw [hg] at hc
      simp only at hc
      split at hc
      · obtain ⟨rfl, rfl⟩ := Prod.mk.inj hc
        exact ⟨rfl, rfl, .refl _⟩
      · obtain ⟨rfl, rfl⟩ := Prod.mk.inj hc
        exact ⟨rfl, rfl, .refl _⟩

theorem rlcEntityFor_kept {lcId : Nat} (he : rlcEntityFor env s a lcId = (t, o)) :
    MacKept s t := by
  unfold rlcEntityFor at he
  split at he
  · obtain ⟨rfl, rfl⟩ := Prod.mk.inj he
    exact .refl s
  · unfold rlcCreateRxAmEntity at he
    split at he
    · cases ha : s.alloc env (env.sizeof .rxAMEntity) with
      | mk u o' =>
          have hu := (alloc_kept ha).toMacKept
          rw [ha] at he
          cases o' with
          | none =>
              obtain ⟨rfl, rfl⟩ := Prod.mk.inj he
              exact hu
          | some b =>
              obtain ⟨rfl, rfl⟩ := Prod.mk.inj he
              exact hu.trans ⟨rfl, rfl, .refl _⟩
    · obtain ⟨rfl, rfl⟩ := Prod.mk.inj he
      exact .refl s

/-- **A packet of RLC.** -/
theorem rlcProcessAmRxPacket_kept (env : Platform β) (s : RlcState β)
    (info : RlcUlDataInfo β) (rnti : UInt16) :
    MacKept s (rlcProcessAmRxPacket env s info rnti) := by
  have hfree : ∀ u : RlcState β, MacKept u (u.free? info.rlcdataBuffer) := fun u =>
    (free?_kept u _).toMacKept
  unfold rlcProcessAmRxPacket
  split
  · exact hfree s
  · split
    · exact hfree s
    · rename_i h _
      split
      · exact hfree s
      · split
        · rename_i u hc
          exact (rlcContextFor_kept hc).trans (hfree u)
        · rename_i u b hc
          split
          · rename_i v he
            exact ((rlcContextFor_kept hc).trans (rlcEntityFor_kept he)).trans (hfree v)
          · rename_i v e he
            refine ((rlcContextFor_kept hc).trans (rlcEntityFor_kept he)).trans ?_
            split
            · exact (rlcProcessNewAmdPdu_kept env v e h info).toMacKept
            · exact (rlcProcessNextAmdPdu_kept env v e h info).toMacKept

end Rules

end LteUlp.Rlc
