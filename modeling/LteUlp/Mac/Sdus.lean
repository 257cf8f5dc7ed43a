import LteUlp.Mac.Bounds
import LteUlp.Mac.RoundTrip

set_option autoImplicit false
set_option linter.unusedSectionVars false

/-! # The SDUs of an indication

Which SDUs `MacProcessPhyDataInd` passes on to RLC is a matter of the bytes from `pBuffer` on:
`phySdus` walks over them and looks at no state. Unless memory runs out, the calls of
`MacUeDataInd` are made with the SDUs that it finds (`macProcessPhyDataInd_sends`).
-/

namespace LteUlp.Mac

open BlockStore LteUlp.Rrc LteUlp.Rlc LteUlp.Worker

variable {β : Type} [DecidableEq β] {env : MacPlatform β}

/-! ## The walk -/

/-- An entry of `demuxData`, after some SDUs, its bytes being at `dataPtr`. -/
def demuxSdu (m : Nat → UInt8) (r : List RlcSdu × Nat) (entry : DemuxDataBase) :
    List RlcSdu × Nat :=
  let (sdus, dataPtr) := r
  if entry.lchId = macUlCcchLch then (sdus, dataPtr + entry.length)
  else if entry.lchId ≤ macLcid10 then
    (if sdus.length ≥ maxNumUlPkts then sdus
      else sdus ++ [⟨entry.lchId, entry.length,
        some ((List.range entry.length).map fun k => m (dataPtr + k))⟩],
      dataPtr + entry.length)
  else if entry.lchId = macTruncatedBsr ∨ entry.lchId = macSBsrLch then (sdus, dataPtr + 1)
  else if entry.lchId = macLBsrLch then (sdus, dataPtr + 3)
  else if entry.lchId = macPowerHeadLch then (sdus, dataPtr + 1)
  else (sdus, dataPtr + entry.length)

/-- The SDUs of a PDU of `length` bytes; `none` where the loop over the subheaders has not
ended. -/
def schSdus (fuel : Nat) (m : Nat → UInt8) (length : Nat) : Option (List RlcSdu) :=
  if length = 0 then some []
  else
    (macLoop m fuel (Decode.start length)).map fun st =>
      if st.successDecodeFlag then (st.demuxData.foldl (demuxSdu m) ([], st.pData)).1 else []

/-- The SDUs of a PDU whose data begin at `tempLen`, with the RNTI. -/
def pduSdus (fuel : Nat) (data : Nat → UInt8) (head : RxUlSchIndHeadPdu) (tempLen : UInt16) :
    Option (List (UInt16 × RlcSdu)) :=
  if head.crcFlag = 1 then
    (schSdus fuel (fun k => data (tempLen.toNat + k))
      ((head.bitLen + 7) >>> 3).toUInt16.toNat).map fun sdus => sdus.map fun sdu =>
        (head.rnti, sdu)
  else some []

/-- The SDUs of the PDUs that are left. -/
def pdusSdus (fuel : Nat) (data : Nat → UInt8) (length : UInt16) :
    Nat → UInt16 → Option (List (UInt16 × RlcSdu))
  | 0, _ => some []
  | left + 1, tempLen =>
      if tempLen < length then
        let head := rxUlSchIndHeadPdu data tempLen.toNat
        let tempLen := tempLen + UInt16.ofNat rxUlSchIndHeadPduSize
        if tempLen > length then some []
        else
          (pduSdus fuel data head tempLen).bind fun sdus =>
            (pdusSdus fuel data length left (tempLen + (head.wordLen <<< 2))).map fun rest =>
              sdus ++ rest
      else some []

/-- The SDUs of an indication. -/
def phySdus (fuel : Nat) (pBuffer : Option (Nat → UInt8)) (length : UInt16) :
    Option (List (UInt16 × RlcSdu)) :=
  match pBuffer with
  | none => some []
  | some data =>
      if phyField data 14 2 = rxUlSchIndication then
        pdusSdus fuel data length (data (phyHlMsgHeadSize + 3)).toNat
          (UInt16.ofNat (phyHlMsgHeadSize + ulIndHeadSize))
      else some []

/-! ### More fuel -/

section Fuel

variable {i k : Nat} {m data : Nat → UInt8} {n left : Nat} {length tempLen : UInt16}
variable {head : RxUlSchIndHeadPdu} {sdus : List RlcSdu} {sent : List (UInt16 × RlcSdu)}

theorem schSdus_mono (h : schSdus i m n = some sdus) (hik : i ≤ k) : schSdus k m n = some sdus := by
  unfold schSdus at h ⊢
  split at h
  · rename_i hzero
    rw [if_pos hzero]
    exact h
  · rename_i hpos
    obtain ⟨st, hst, rfl⟩ := Option.map_eq_some_iff.mp h
    rw [if_neg hpos, macLoop_mono hst hik]
    rfl

theorem pduSdus_mono (h : pduSdus i data head tempLen = some sent) (hik : i ≤ k) :
    pduSdus k data head tempLen = some sent := by
  unfold pduSdus at h ⊢
  split at h
  · rename_i hcrc
    obtain ⟨sdus, hsdus, rfl⟩ := Option.map_eq_some_iff.mp h
    rw [if_pos hcrc, schSdus_mono hsdus hik]
    rfl
  · rename_i hcrc
    rw [if_neg hcrc]
    exact h

theorem pdusSdus_mono (h : pdusSdus i data length left tempLen = some sent) (hik : i ≤ k) :
    pdusSdus k data length left tempLen = some sent := by
  -- on the PDUs that are left, along the branches of the walk
  induction left generalizing tempLen sent with
  | zero => exact h
  | succ left ih =>
      unfold pdusSdus at h ⊢
      simp only at h ⊢
      split at h
      · rename_i hlt
        rw [if_pos hlt]
        split at h
        · rename_i hout
          rw [if_pos hout]
          exact h
        · rename_i hin
          rw [if_neg hin]
          obtain ⟨first, hfirst, h⟩ := Option.bind_eq_some_iff.mp h
          obtain ⟨rest, hrest, rfl⟩ := Option.map_eq_some_iff.mp h
          rw [pduSdus_mono hfirst hik, Option.bind_some, ih hrest]
          rfl
      · rename_i hge
        rw [if_neg hge]
        exact h

theorem phySdus_mono {pBuffer : Option (Nat → UInt8)} (h : phySdus i pBuffer length = some sent)
    (hik : i ≤ k) : phySdus k pBuffer length = some sent := by
  unfold phySdus at h ⊢
  cases pBuffer with
  | none => exact h
  | some data =>
      simp only at h ⊢
      split at h
      · rename_i hkind
        rw [if_pos hkind]
        exact pdusSdus_mono h hik
      · rename_i hkind
        rw [if_neg hkind]
        exact h

end Fuel

/-! ## The calls -/

/-- The SDUs of a call of `MacUeDataInd`, with the RNTI. -/
def DataInd.sdus (ind : DataInd) : List (UInt16 × RlcSdu) :=
  (ind.rlcData.getD []).map fun sdu => (ind.rnti, sdu)

/-- From `s` to `t` the SDUs are passed on. -/
def Sends (s t : UlState β) (sent : List (UInt16 × RlcSdu)) : Prop :=
  ∃ inds, t.macUeDataInds = s.macUeDataInds ++ inds ∧ inds.flatMap DataInd.sdus = sent

section Calls

variable {s t u : UlState β} {rlcData : Option (RlcUlData β)} {f : Multiset β} {rnti : UInt16}
variable {m : Nat → UInt8} {dataPtr : Nat} {sent sent' : List (UInt16 × RlcSdu)}

theorem Sends.of_eq (h : t.macUeDataInds = s.macUeDataInds) : Sends s t [] :=
  ⟨[], by rw [h, List.append_nil], rfl⟩

theorem Sends.trans (h : Sends s t sent) (h' : Sends t u sent') : Sends s u (sent ++ sent') := by
  obtain ⟨inds, hinds, rfl⟩ := h
  obtain ⟨inds', hinds', rfl⟩ := h'
  exact ⟨inds ++ inds', by rw [hinds', hinds, List.append_assoc], List.flatMap_append⟩

/-- What the loop of `MacDeMultiplexAndSend` has done up to an entry. -/
structure Walked (s t : UlState β) (rlcData : Option (RlcUlData β)) (f : Multiset β)
    (sdus : List RlcSdu) : Prop where
  copied : copies t.mem rlcData = sdus
  inds : t.macUeDataInds = s.macUeDataInds
  accounted : Accounted t rlcData f

/-- **An entry of the table**: the walk says what is copied. -/
theorem Walked.step {sdus : List RlcSdu} (h : Walked s t rlcData f sdus) {entry : DemuxDataBase}
    (hv : entry.Valid) {r : UlState β × Option (RlcUlData β) × Nat}
    (hr : macDemuxEntry env m rnti (t, rlcData, dataPtr) entry = r)
    (hf : r.1.mem.failures = t.mem.failures) :
    Walked s r.1 r.2.1 f (demuxSdu m (sdus, dataPtr) entry).1 ∧
      r.2.2 = (demuxSdu m (sdus, dataPtr) entry).2 := by
  have hacc := h.accounted.step hv hr hf
  unfold macDemuxEntry at hr
  unfold demuxSdu
  simp only at hr ⊢
  by_cases hch : entry.lchId = macUlCcchLch
  · -- the message is processed, and the copies stay
    obtain ⟨hpos, hle⟩ := hv hch
    rw [if_pos hch] at hr ⊢
    obtain rfl := hr
    have hcopies := copies_ccch h.accounted (show entry.length % 2 ^ 16 ≠ 0 by omega) hf
    have hcalls := (macDemuxCcch_calls (show entry.length < 2 ^ 16 by omega) hf).2
    exact ⟨⟨hcopies.trans h.copied, hcalls.trans h.inds, hacc⟩, rfl⟩
  rw [if_neg hch] at hr ⊢
  by_cases hlow : entry.lchId ≤ macLcid10
  · rw [if_pos hlow] at hr ⊢
    cases hone : macDemuxOneToTenLchMsg env t rlcData entry.lchId (fun k => m (dataPtr + k))
        entry.length with
    | mk u o =>
        rw [hone] at hr
        obtain rfl := hr
        refine ⟨⟨?_, ?_, hacc⟩, rfl⟩
        · -- the code compares the number of copies, the walk that of the SDUs
          by_cases hroom : sdus.length ≥ maxNumUlPkts
          · have hfull := hroom
            rw [← h.copied, length_copies] at hfull
            unfold macDemuxOneToTenLchMsg at hone
            rw [if_pos hfull] at hone
            obtain ⟨rfl, rfl⟩ := Prod.mk.inj hone
            rw [if_pos hroom]
            exact h.copied
          · have hfree := Nat.not_le.mp hroom
            rw [← h.copied, length_copies] at hfree
            obtain ⟨hsome, -⟩ := macDemuxOneToTenLchMsg_some hone hf h.accounted.blocks.nodup hfree
              h.accounted.copies_le
            obtain ⟨d, rfl, hd⟩ := Option.map_eq_some_iff.mp hsome
            rw [if_neg hroom]
            refine hd.trans ?_
            rw [← h.copied]
            rfl
        · exact (congrArg (fun r => r.1.macUeDataInds) hone).symm.trans
            ((macDemuxOneToTenLchMsg_sameCalls env t rlcData entry.lchId
              (fun k => m (dataPtr + k)) entry.length).2.trans h.inds)
  rw [if_neg hlow] at hr ⊢
  -- the control elements are skipped, by as many bytes as in the walk
  split_ifs at hr ⊢
  all_goals
    obtain rfl := hr
    exact ⟨⟨h.copied, h.inds, hacc⟩, rfl⟩

/-- **The loop of `MacDeMultiplexAndSend`.** -/
theorem Walked.loop {l : List DemuxDataBase} {sdus : List RlcSdu}
    (h : Walked s t rlcData f sdus) (hl : ∀ entry ∈ l, entry.Valid)
    {r : UlState β × Option (RlcUlData β) × Nat}
    (hr : l.foldl (macDemuxEntry env m rnti) (t, rlcData, dataPtr) = r)
    (hf : r.1.mem.failures = t.mem.failures) :
    Walked s r.1 r.2.1 f (l.foldl (demuxSdu m) (sdus, dataPtr)).1 := by
  -- on the entries that are left: `Walked.step` says what one leaves to the next
  induction l generalizing t rlcData dataPtr sdus with
  | nil =>
      obtain rfl := hr
      exact h
  | cons entry l ih =>
      rw [List.foldl_cons] at hr
      have hvalid := hl entry List.mem_cons_self
      have hrest : ∀ y ∈ l, y.Valid := fun y hy => hl y (List.mem_cons_of_mem entry hy)
      cases hx : macDemuxEntry env m rnti (t, rlcData, dataPtr) entry with
      | mk u r' =>
          obtain ⟨o, dataPtr'⟩ := r'
          rw [hx] at hr
          -- neither the entry nor the rest has a refused allocation
          have h1 : t.mem.failures ≤ u.mem.failures := by
            have hreceives := macDemuxEntry_receives env m rnti (t, rlcData, dataPtr) hvalid
            rw [hx] at hreceives
            exact hreceives.failures
          have h2 : u.mem.failures ≤ r.1.mem.failures := by
            rw [← hr]
            exact (macDemuxLoop_receives env m rnti l hrest (u, o, dataPtr')).failures
          have hu : u.mem.failures = t.mem.failures := by omega
          obtain ⟨hstep, hptr⟩ := h.step hvalid hx hu
          have hnext := ih hstep hrest hr (hf.trans hu.symm)
          rw [show dataPtr' = _ from hptr] at hnext
          exact hnext

/-- **A PDU is demultiplexed**: its SDUs are passed on in one call. -/
theorem macDeMultiplexAndSend_sends (hs : UlSound s.toRlcState) {l : List DemuxDataBase}
    (hl : ∀ entry ∈ l, entry.Valid) (ht : macDeMultiplexAndSend env s m dataPtr rnti l = t)
    (hf : t.mem.failures = s.mem.failures) :
    Sends s t ((l.foldl (demuxSdu m) ([], dataPtr)).1.map fun sdu => (rnti, sdu)) := by
  obtain ⟨u, addr, ⟨v, rlcData, dataPtr'⟩, hcalls, hacc, hr, hv, ht⟩ :=
    macDeMultiplexAndSend_granted hs hl ht hf
  have hstart : Walked u u (none : Option (RlcUlData β)) {addr} [] := ⟨rfl, rfl, hacc⟩
  have hdone := hstart.loop hl hr hv
  refine ⟨[⟨rnti, rlcData.map fun d => d.rlcDataArray.map (sduOf v.mem)⟩], ?_, ?_⟩
  · rw [← ht]
    show v.macUeDataInds ++ _ = _
    rw [hdone.inds, hcalls.2]
  · rw [List.flatMap_singleton, ← hdone.copied]
    cases rlcData <;> rfl

theorem macProcessUlSchPdu_sends (hs : UlSound s.toRlcState) {fuel length : Nat}
    (h : macProcessUlSchPdu env fuel s m length rnti = some t)
    (hf : t.mem.failures = s.mem.failures) :
    ∃ sdus, schSdus fuel m length = some sdus ∧
      Sends s t (sdus.map fun sdu => (rnti, sdu)) := by
  unfold macProcessUlSchPdu at h
  unfold schSdus
  split at h
  · rename_i hzero
    obtain rfl := Option.some.inj h
    exact ⟨[], if_pos hzero, .of_eq rfl⟩
  · rename_i hpos
    obtain ⟨st, hst, rfl⟩ := Option.map_eq_some_iff.mp h
    have hvalid := valid_macLoop (by simp [Decode.start]) hst
    rw [if_neg hpos, hst, Option.map_some]
    refine ⟨_, rfl, ?_⟩
    split
    · rename_i hok
      rw [if_pos hok] at hf
      exact macDeMultiplexAndSend_sends hs hvalid rfl hf
    · exact .of_eq rfl

theorem macRecordPdu_inds (env : MacPlatform β) (s : UlState β) (head : RxUlSchIndHeadPdu) :
    (macRecordPdu env s head).macUeDataInds = s.macUeDataInds := by
  unfold macRecordPdu macFindOrCreate
  split
  · rename_i hf
    split at hf
    · cases (Prod.mk.inj hf).2
    · obtain ⟨rfl, -⟩ := Prod.mk.inj hf
      rfl
  · rename_i hf
    split at hf
    all_goals
      obtain ⟨rfl, -⟩ := Prod.mk.inj hf
      rfl

theorem macProcessPdu_sends (hs : UlSound s.toRlcState) {fuel : Nat} {data : Nat → UInt8}
    {head : RxUlSchIndHeadPdu} {tempLen : UInt16}
    (h : macProcessPdu env fuel s data head tempLen = some t)
    (hf : t.mem.failures = s.mem.failures) :
    ∃ sent, pduSdus fuel data head tempLen = some sent ∧ Sends s t sent := by
  unfold macProcessPdu at h
  unfold pduSdus
  split at h
  · rename_i hcrc
    have hcount := countKpi_receives s (fun kpi => { kpi with crcCorrect := kpi.crcCorrect + 1 }) 0
    have hrecord := hcount.seq (macRecordPdu_receives env _ head)
    have hle1 := hrecord.failures
    have hle2 := (macProcessUlSchPdu_receives h).failures
    have hu : (macRecordPdu env (s.countKpi fun kpi =>
        { kpi with crcCorrect := kpi.crcCorrect + 1 }) head).mem.failures = s.mem.failures := by
      omega
    obtain ⟨hsu, -⟩ := receives_sound hrecord (hrecord.joined hu) hs
    obtain ⟨sdus, hsdus, hsends⟩ := macProcessUlSchPdu_sends hsu h (hf.trans hu.symm)
    rw [if_pos hcrc, hsdus, Option.map_some]
    refine ⟨_, rfl, ?_⟩
    have hsame := Sends.of_eq (macRecordPdu_inds env (s.countKpi fun kpi =>
      { kpi with crcCorrect := kpi.crcCorrect + 1 }) head)
    exact hsame.trans hsends
  · rename_i hcrc
    obtain rfl := Option.some.inj h
    exact ⟨[], if_neg hcrc, .of_eq rfl⟩

/-- **The PDUs that are left.** -/
theorem macProcessPdus_sends {fuel : Nat} {data : Nat → UInt8} {length : UInt16} {left : Nat}
    {tempLen : UInt16} (hs : UlSound s.toRlcState)
    (h : macProcessPdus env fuel data length left tempLen s = some t)
    (hf : t.mem.failures = s.mem.failures) :
    ∃ sent, pdusSdus fuel data length left tempLen = some sent ∧ Sends s t sent := by
  -- on the PDUs that are left: the state after one of them is sound again
  induction left generalizing s tempLen with
  | zero =>
      obtain rfl := Option.some.inj h
      exact ⟨[], rfl, .of_eq rfl⟩
  | succ left ih =>
      rw [macProcessPdus] at h
      rw [pdusSdus]
      simp only at h ⊢
      split at h
      · rename_i hlt
        rw [if_pos hlt]
        split at h
        · rename_i hout
          obtain rfl := Option.some.inj h
          exact ⟨[], if_pos hout, .of_eq rfl⟩
        · rename_i hin
          rw [if_neg hin]
          obtain ⟨u, hu, h⟩ := Option.bind_eq_some_iff.mp h
          have hfirst := macProcessPdu_receives hu
          have hle1 := hfirst.failures
          have hle2 := (macProcessPdus_receives h).failures
          have hfu : u.mem.failures = s.mem.failures := by omega
          obtain ⟨hsu, -⟩ := receives_sound hfirst (hfirst.joined hfu) hs
          obtain ⟨sent, hsent, hsends⟩ := macProcessPdu_sends hs hu hfu
          obtain ⟨rest, hrest, hsends'⟩ := ih hsu h (hf.trans hfu.symm)
          rw [hsent, Option.bind_some, hrest]
          exact ⟨_, rfl, hsends.trans hsends'⟩
      · rename_i hge
        obtain rfl := Option.some.inj h
        exact ⟨[], if_neg hge, .of_eq rfl⟩

/-- **An indication** of any contents: where no allocation is refused, the SDUs of the walk are
passed on. -/
theorem macProcessPhyDataInd_sends {fuel : Nat} {pBuffer : Option (Nat → UInt8)}
    {length : UInt16} (hs : UlSound s.toRlcState)
    (h : macProcessPhyDataInd env fuel s pBuffer length = some t)
    (hf : t.mem.failures = s.mem.failures) :
    ∃ sent, phySdus fuel pBuffer length = some sent ∧ Sends s t sent := by
  unfold macProcessPhyDataInd at h
  unfold phySdus
  cases pBuffer with
  | none =>
      obtain rfl := Option.some.inj h
      exact ⟨[], rfl, .of_eq rfl⟩
  | some data =>
      simp only at h ⊢
      split at h
      · rename_i hkind
        rw [if_pos hkind]
        exact macProcessPdus_sends hs h hf
      · rename_i hkind
        obtain rfl := Option.some.inj h
        exact ⟨[], if_neg hkind, .of_eq rfl⟩

end Calls

end LteUlp.Mac
