import LteUlp.Mac.Ownership
import LteUlp.Rlc.Frames

set_option autoImplicit false
set_option linter.unusedSectionVars false

/-! # What a PDU leaves alone

MAC finds or creates the context of a PDU, and nothing that it calls then touches a MAC
context. The contexts of RRC grow as a message makes them grow (`Rrc/Growth.lean`). Nothing is
assumed of the state: this holds also after a refused join, when blocks may be released twice.
So an indication writes no idle count of a MAC or RRC context but the 0 of a context it creates
(`macProcessPhyDataInd_grown`).
-/

namespace LteUlp.Mac

open BlockStore LteUlp.Rrc LteUlp.Pdcp LteUlp.Rlc

variable {β : Type} [DecidableEq β]

/-! ## A PDU of MAC -/

section Pdu

variable {env : MacPlatform β} {s t : UlState β} {o : Option β} {rnti : UInt16}

theorem ulAlloc_kept {n : Nat} (ha : s.alloc env n = (t, o)) :
    MacKept s.toRlcState t.toRlcState := (onlyMem_kept (ulAlloc_onlyMem ha)).toMacKept

theorem memcpy_kept (s : UlState β) (b : β) (src : Nat → UInt8) (n : Nat) :
    MacKept s.toRlcState (s.memcpy b src n).toRlcState :=
  (onMem_kept s.toRlcState fun m => m.write b src n).toMacKept

theorem ulCountKpi_kept (s : UlState β) (f : LteKpi → LteKpi) :
    MacKept s.toRlcState (s.countKpi f).toRlcState := ⟨rfl, rfl, .of_eq rfl rfl fun _ => rfl⟩

theorem ccchDataInd_kept (env : MacPlatform β) (s : UlState β) (rnti : UInt16) (b : β)
    (size : Nat) : MacKept s.toRlcState (ccchDataInd env s rnti b size).toRlcState :=
  ⟨rfl, rfl, macUeCcchDataInd_grown s.toRrcState rnti b _⟩

theorem macDemuxCcch_kept (env : MacPlatform β) (s : UlState β) (rnti : UInt16)
    (src : Nat → UInt8) (length : Nat) :
    MacKept s.toRlcState (macDemuxCcch env s rnti src length).toRlcState := by
  unfold macDemuxCcch
  split
  · rename_i u ha
    exact ulAlloc_kept ha
  · rename_i u b ha
    exact ((ulAlloc_kept ha).trans (memcpy_kept u b src length)).trans
      (ccchDataInd_kept env _ rnti b length)

theorem macDemuxEntry_kept (env : MacPlatform β) (m : Nat → UInt8) (rnti : UInt16)
    (r : UlState β × Option (RlcUlData β) × Nat) (entry : DemuxDataBase) :
    MacKept r.1.toRlcState (macDemuxEntry env m rnti r entry).1.toRlcState := by
  obtain ⟨s, rlcData, dataPtr⟩ := r
  unfold macDemuxEntry
  simp only
  split
  · exact (macDemuxCcch_kept env s rnti _ _).trans (ulCountKpi_kept _ _)
  · split
    · have honly := macDemuxOneToTenLchMsg_onlyMem env s rlcData entry.lchId
        (fun k => m (dataPtr + k)) entry.length
      exact (onlyMem_kept honly).toMacKept.trans (ulCountKpi_kept _ _)
    · repeat' split
      all_goals exact .refl s.toRlcState

theorem macUeDataInd_kept (env : MacPlatform β) (s : RlcState β) (addr : β) (rnti : UInt16)
    (rlcData : Option (RlcUlData β)) : MacKept s (macUeDataInd env s addr rnti rlcData) := by
  unfold macUeDataInd
  cases rlcData with
  | none => exact (free_kept s addr).toMacKept
  | some d =>
      have hentry : ∀ (u : RlcState β) info, MacKept u (macUeDataIndEntry env rnti u info) := by
        intro u info
        unfold macUeDataIndEntry
        split
        · exact rlcProcessAmRxPacket_kept env.toPlatform u info rnti
        · exact (free?_kept u _).toMacKept
      exact ((MacKept.foldl hentry d.rlcDataArray s).trans (free_kept _ d.addr).toMacKept).trans
        (free_kept _ addr).toMacKept

theorem macDeMultiplexAndSend_kept (env : MacPlatform β) (s : UlState β) (m : Nat → UInt8)
    (dataPtr : Nat) (rnti : UInt16) (demuxData : List DemuxDataBase) :
    MacKept s.toRlcState
      (macDeMultiplexAndSend env s m dataPtr rnti demuxData).toRlcState := by
  unfold macDeMultiplexAndSend
  split
  · rename_i u ha
    exact ulAlloc_kept ha
  · rename_i u addr ha
    have hloop : ∀ (l : List DemuxDataBase) (r : UlState β × Option (RlcUlData β) × Nat),
        MacKept r.1.toRlcState (l.foldl (macDemuxEntry env m rnti) r).1.toRlcState := by
      intro l
      induction l with
      | nil => exact fun r => .refl _
      | cons entry l ih =>
          exact fun r => (macDemuxEntry_kept env m rnti r entry).trans (ih _)
    exact ((ulAlloc_kept ha).trans (hloop demuxData (u, none, dataPtr))).trans
      (macUeDataInd_kept env _ addr rnti _)

/-- **The SDUs of a PDU** leave the contexts of MAC alone. -/
theorem macProcessUlSchPdu_kept {fuel length : Nat} {m : Nat → UInt8}
    (h : macProcessUlSchPdu env fuel s m length rnti = some t) :
    MacKept s.toRlcState t.toRlcState := by
  unfold macProcessUlSchPdu at h
  split at h
  · obtain rfl := Option.some.inj h
    exact .refl _
  · obtain ⟨st, _, hst⟩ := Option.map_eq_some_iff.mp h
    rw [← hst]
    split
    · exact macDeMultiplexAndSend_kept env s m st.pData rnti st.demuxData
    · exact .refl _

end Pdu

/-! ## An indication -/

/-- From `s` to `t` MAC contexts are created, with idle count 0, and radio values are written
to; the contexts of RRC grow. -/
structure PhyGrown (s t : UlState β) : Prop where
  context : ∀ a ∈ t.gMacUeContext, (t.macUeContext a).idleCount = 0 ∨
    a ∈ s.gMacUeContext ∧ (t.macUeContext a).rnti = (s.macUeContext a).rnti ∧
      (t.macUeContext a).idleCount = (s.macUeContext a).idleCount
  grown : Grown s.toRrcState t.toRrcState

section Indication

variable {env : MacPlatform β} {s t u : UlState β} {o : Option β} {rnti : UInt16}

theorem PhyGrown.of_kept (h : MacKept s.toRlcState t.toRlcState) : PhyGrown s t := by
  refine ⟨fun a ha => .inr ?_, h.grown⟩
  rw [h.gMacUeContext] at ha
  rw [h.macUeContext]
  exact ⟨ha, rfl, rfl⟩

theorem PhyGrown.refl (s : UlState β) : PhyGrown s s := .of_kept (.refl _)

theorem PhyGrown.trans (h : PhyGrown s t) (h' : PhyGrown t u) : PhyGrown s u := by
  refine ⟨fun a ha => ?_, h.grown.trans h'.grown⟩
  rcases h'.context a ha with hzero | ⟨hmem, hrnti, hidle⟩
  · exact .inl hzero
  · rw [hrnti, hidle]
    exact h.context a hmem

theorem macFindOrCreate_grown (h : macFindOrCreate env s rnti = (t, o)) : PhyGrown s t := by
  unfold macFindOrCreate at h
  cases hg : macGetUeContext s.toMacState rnti with
  | some a =>
      rw [hg] at h
      obtain ⟨rfl, rfl⟩ := Prod.mk.inj h
      exact .refl s
  | none =>
      rw [hg] at h
      obtain ⟨rfl, rfl⟩ := Prod.mk.inj h
      unfold macCreateUeContext
      cases ha : s.toMacState.alloc env.toPlatform (env.sizeof .macUeContext) with
      | mk v o' =>
          obtain ⟨rfl, rfl⟩ := Prod.mk.inj ha
          have hrrc : Grown s.toRrcState
              (s.toRrcState.alloc env.toPlatform (env.sizeof .macUeContext)).1 :=
            alloc_grown rfl
          cases ho : (s.toRrcState.alloc env.toPlatform (env.sizeof .macUeContext)).2 with
          | none =>
              simp only
              exact ⟨fun a ha => .inr ⟨ha, rfl, rfl⟩, hrrc⟩
          | some b =>
              simp only
              refine ⟨fun a ha => ?_, hrrc⟩
              show (Function.update s.macUeContext b _ a).idleCount = 0 ∨ _ ∧
                (Function.update s.macUeContext b _ a).rnti = _ ∧
                  (Function.update s.macUeContext b _ a).idleCount = _
              by_cases hab : a = b
              · subst hab
                rw [Function.update_self]
                exact .inl rfl
              · rw [Function.update_of_ne hab]
                have hmem : a ∈ s.gMacUeContext :=
                  (List.mem_append.mp ha).resolve_right fun h => hab (List.mem_singleton.mp h)
                exact .inr ⟨hmem, rfl, rfl⟩

theorem macRecordPdu_grown (env : MacPlatform β) (s : UlState β) (head : RxUlSchIndHeadPdu) :
    PhyGrown s (macRecordPdu env s head) := by
  unfold macRecordPdu
  split
  · rename_i u hf
    exact macFindOrCreate_grown hf
  · rename_i u b hf
    refine (macFindOrCreate_grown hf).trans ⟨fun a ha => .inr ⟨ha, ?_⟩, .refl _⟩
    show (Function.update u.macUeContext b _ a).rnti = _ ∧
      (Function.update u.macUeContext b _ a).idleCount = _
    by_cases hab : a = b
    · subst hab
      rw [Function.update_self]
      exact ⟨rfl, rfl⟩
    · rw [Function.update_of_ne hab]
      exact ⟨rfl, rfl⟩

theorem macProcessPdu_grown {fuel : Nat} {data : Nat → UInt8} {head : RxUlSchIndHeadPdu}
    {tempLen : UInt16} (h : macProcessPdu env fuel s data head tempLen = some t) :
    PhyGrown s t := by
  unfold macProcessPdu at h
  split at h
  · exact ((PhyGrown.of_kept (ulCountKpi_kept s _)).trans (macRecordPdu_grown env _ head)).trans
      (.of_kept (macProcessUlSchPdu_kept h))
  · obtain rfl := Option.some.inj h
    exact .of_kept (ulCountKpi_kept s _)

theorem macProcessPdus_grown {fuel : Nat} {data : Nat → UInt8} {length : UInt16} {left : Nat}
    {tempLen : UInt16} (h : macProcessPdus env fuel data length left tempLen s = some t) :
    PhyGrown s t := by
  induction left generalizing s tempLen with
  | zero =>
      obtain rfl := Option.some.inj h
      exact .refl s
  | succ left ih =>
      unfold macProcessPdus at h
      split at h
      · simp only at h
        split at h
        · obtain rfl := Option.some.inj h
          exact .refl s
        · obtain ⟨u, hu, hrest⟩ := Option.bind_eq_some_iff.mp h
          exact (macProcessPdu_grown hu).trans (ih hrest)
      · obtain rfl := Option.some.inj h
        exact .refl s

/-- **An indication.** -/
theorem macProcessPhyDataInd_grown {fuel : Nat} {pBuffer : Option (Nat → UInt8)}
    {length : UInt16} (h : macProcessPhyDataInd env fuel s pBuffer length = some t) :
    PhyGrown s t := by
  unfold macProcessPhyDataInd at h
  split at h
  · obtain rfl := Option.some.inj h
    exact .refl s
  · split at h
    · exact macProcessPdus_grown h
    · obtain rfl := Option.some.inj h
      exact .refl s

end Indication

end LteUlp.Mac
