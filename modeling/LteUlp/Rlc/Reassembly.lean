import LteUlp.Rlc.Decoding

set_option autoImplicit false
set_option linter.unusedSectionVars false

/-! # The reassembler, abstractly

An entity keeps at most one incomplete SDU and the sequence number of the PDU that last
contributed to it. `reassemble` says what one data field does to it and what is delivered,
for data of any kind that can be joined. The code is an instance of it in two ways: on the
sizes of the buffers, always (`reassembled_sizes`), and on their bytes as long as no recorded
length is truncated (`FieldEffect.bytes`).
-/

namespace LteUlp.Rlc

open BlockStore LteUlp.Rrc LteUlp.Mac LteUlp.Pdcp RlcSduStatus

/-! ## The abstract reassembler -/

/-- An incomplete SDU. -/
structure Partial (γ : Type) where
  sn : Nat
  data : γ
  deriving DecidableEq

/-- A field with this status in the PDU `sn` continues an SDU whose last fragment so far was
in the PDU `sn'`. A last fragment may be in the same PDU. -/
def continues (sn : Nat) (status : RlcSduStatus) (sn' : Nat) : Bool :=
  match status with
  | amPduMapSduEnd => isSnEqual sn (sn' + 1) || isSnEqual sn sn'
  | amPduMapSduMid => isSnEqual sn (sn' + 1) && !isSnEqual sn sn'
  | _ => false

section Abstract

variable {γ : Type} (join : γ → γ → γ) (sn : Nat)

/-- What a field of the PDU with number `sn` does to the incomplete SDU, and the SDU that is
delivered. -/
def reassemble (raw : Option (Partial γ)) (status : RlcSduStatus) (data : γ) :
    Option (Partial γ) × Option γ :=
  match status, raw with
  | amPduMapSduFull, _ => (none, some data)
  | amPduMapSduStart, _ => (some ⟨sn, data⟩, none)
  | _, none => (none, none)
  | amPduMapSduEnd, some p =>
      if continues sn amPduMapSduEnd p.sn then (none, some (join p.data data)) else (some p, none)
  | amPduMapSduMid, some p =>
      if continues sn amPduMapSduMid p.sn then (some ⟨sn, join p.data data⟩, none)
      else (some p, none)

/-- All fields of the PDU, one after the other. -/
def reassembleAll : Option (Partial γ) → List (RlcSduStatus × γ) → Option (Partial γ) × List γ
  | raw, [] => (raw, [])
  | raw, f :: fs =>
      let r := reassemble join sn raw f.1 f.2
      let rs := reassembleAll r.1 fs
      (rs.1, r.2.toList ++ rs.2)

end Abstract

variable {β : Type} [DecidableEq β] {env : Platform β} {s t : RlcState β} {e : β} {sn : Nat}
variable {dfe : AmdDfe β}

/-! ## One field -/

/-- The call for a buffer, with some reports. -/
def sduInd (x : RxAmEntity β) (m : Store β) (buffer : RlcAmBuffer β)
    (rpt : List UlReportInfo) : SduInd β :=
  ⟨x.rnti, x.lcId, buffer.pData, buffer.size.toUInt16,
    buffer.data m buffer.size.toUInt16.toNat, rpt⟩

/-- What a field does to the incomplete SDU of the entity and to the calls of `RlcUeDataInd`,
when there is memory. -/
inductive FieldEffect (env : Platform β) (sn : Nat) (e : β) (dfe : AmdDfe β) (s t : RlcState β) :
    Prop where
  /-- The field is released. -/
  | dropped : dfe.status = amPduMapSduEnd ∨ dfe.status = amPduMapSduMid →
      ((s.rxAmEntity e).rxRawSdu.rawSdu.pData.isSome →
        continues sn dfe.status (s.rxAmEntity e).rxRawSdu.sn = false) →
      (t.rxAmEntity e).rxRawSdu = (s.rxAmEntity e).rxRawSdu →
      t.rlcUeDataInds = s.rlcUeDataInds →
      t.mem = s.mem.release? dfe.buffer.pData → FieldEffect env sn e dfe s t
  /-- A whole SDU is delivered. -/
  | delivered {m : Store β} {l : List UlReportInfo} : dfe.status = amPduMapSduFull →
      (t.rxAmEntity e).rxRawSdu.rawSdu.pData = none → m.bytes = s.mem.bytes →
      t.rlcUeDataInds = s.rlcUeDataInds ++ [sduInd (s.rxAmEntity e) m dfe.buffer l] →
      FieldEffect env sn e dfe s t
  /-- A first fragment is kept. -/
  | kept : dfe.status = amPduMapSduStart → (t.rxAmEntity e).rxRawSdu = ⟨sn, dfe.buffer⟩ →
      t.rlcUeDataInds = s.rlcUeDataInds →
      t.mem = s.mem.release? (s.rxAmEntity e).rxRawSdu.rawSdu.pData →
      FieldEffect env sn e dfe s t
  /-- A middle fragment is joined to the incomplete SDU. -/
  | joined {a b c : β} : dfe.status = amPduMapSduMid →
      (s.rxAmEntity e).rxRawSdu.rawSdu.pData = some a → dfe.buffer.pData = some b →
      continues sn amPduMapSduMid (s.rxAmEntity e).rxRawSdu.sn = true →
      s.mem.join env.toPolicy a b = (t.mem, some c) →
      (t.rxAmEntity e).rxRawSdu
        = ⟨sn, ⟨(s.rxAmEntity e).rxRawSdu.rawSdu.size + dfe.buffer.size, some c⟩⟩ →
      t.rlcUeDataInds = s.rlcUeDataInds → FieldEffect env sn e dfe s t
  /-- A last fragment is joined to the incomplete SDU, which is delivered. -/
  | completed {a b c : β} {m : Store β} {l : List UlReportInfo} :
      dfe.status = amPduMapSduEnd →
      (s.rxAmEntity e).rxRawSdu.rawSdu.pData = some a → dfe.buffer.pData = some b →
      continues sn amPduMapSduEnd (s.rxAmEntity e).rxRawSdu.sn = true →
      s.mem.join env.toPolicy a b = (m, some c) →
      (t.rxAmEntity e).rxRawSdu.rawSdu.pData = none →
      t.rlcUeDataInds = s.rlcUeDataInds ++ [sduInd (s.rxAmEntity e) m
        ⟨(s.rxAmEntity e).rxRawSdu.rawSdu.size + dfe.buffer.size, some c⟩ l] →
      FieldEffect env sn e dfe s t

/-- The entity of a state whose reports were written to. -/
theorem sduInd_setRpt (s : RlcState β) (e : β) (rpt : UlReportInfoList) (m : Store β)
    (buffer : RlcAmBuffer β) (l : List UlReportInfo) :
    sduInd ((s.setRpt e rpt).rxAmEntity e) m buffer l = sduInd (s.rxAmEntity e) m buffer l := by
  simp [sduInd, RlcState.setRpt, RlcState.setEntity]

theorem sduInd_setRaw (s : RlcState β) (e : β) (raw : RlcAmRawSdu β) (m : Store β)
    (buffer : RlcAmBuffer β) (l : List UlReportInfo) :
    sduInd ((s.setRaw e raw).rxAmEntity e) m buffer l = sduInd (s.rxAmEntity e) m buffer l := by
  simp [sduInd, RlcState.setRaw, RlcState.setEntity]

/-- Delivery of a whole SDU. -/
theorem deliver_inds (env : Platform β) (s : RlcState β) (e : β) (buffer : RlcAmBuffer β) :
    ∃ rpt, (clearReports (rlcDeliverAmSduToPdcp env (reportFirst s e) e buffer) e).rlcUeDataInds
      = s.rlcUeDataInds ++ [sduInd (s.rxAmEntity e) s.mem buffer rpt] := by
  obtain ⟨rpt, hrpt⟩ := reportFirst_eq s e
  rw [hrpt]
  exact ⟨_, congrArg (fun i => s.rlcUeDataInds ++ [i])
    (sduInd_setRpt s e rpt s.mem buffer _)⟩

theorem rlcReassembleFirstSduSegment_effect (env : Platform β) (s : RlcState β) (sn : Nat)
    (dfe : AmdDfe β) (hraw : (s.rxAmEntity e).rxRawSdu.rawSdu.pData = none) :
    FieldEffect env sn e dfe s (rlcReassembleFirstSduSegment env s sn e dfe) := by
  have hdrop : dfe.status = amPduMapSduEnd ∨ dfe.status = amPduMapSduMid →
      FieldEffect env sn e dfe s (s.free? dfe.buffer.pData) :=
    fun h => .dropped h (by simp [hraw]) rfl rfl rfl
  unfold rlcReassembleFirstSduSegment
  cases hst : dfe.status with
  | amPduMapSduFull =>
      obtain ⟨rpt, hi⟩ := deliver_inds env s e dfe.buffer
      simp only
      apply FieldEffect.delivered hst _ rfl hi
      rw [(deliver_works env s e dfe.buffer).2, hraw]
  | amPduMapSduStart =>
      obtain ⟨rpt, hrpt⟩ := reportFirst_eq (s.setRaw e ⟨sn, dfe.buffer⟩) e
      simp only
      rw [hrpt]
      apply FieldEffect.kept hst
      · rw [rxRawSdu_setRpt, rxRawSdu_setRaw]
      · rfl
      · rw [hraw]
        rfl
  | amPduMapSduEnd => exact hdrop (Or.inl hst)
  | amPduMapSduMid => exact hdrop (Or.inr hst)

/-- The incomplete SDU is dropped and a whole one delivered. -/
theorem dropRaw_deliver_effect (env : Platform β) (s : RlcState β) (sn sn' : Nat)
    (dfe : AmdDfe β) (hst : dfe.status = amPduMapSduFull) {u : RlcState β}
    (hu : u = (s.free? (s.rxAmEntity e).rxRawSdu.rawSdu.pData).setRaw e ⟨sn', ⟨0, none⟩⟩) :
    FieldEffect env sn e dfe s
      (clearReports (rlcDeliverAmSduToPdcp env (reportFirst u e) e dfe.buffer) e) := by
  obtain ⟨rpt, hi⟩ := deliver_inds env u e dfe.buffer
  have hinds : sduInd (u.rxAmEntity e) u.mem dfe.buffer rpt
      = sduInd (s.rxAmEntity e) u.mem dfe.buffer rpt := by
    rw [hu]
    exact sduInd_setRaw _ e _ _ _ _
  apply FieldEffect.delivered (m := u.mem) (l := rpt) hst
  · rw [(deliver_works env u e dfe.buffer).2, hu, rxRawSdu_setRaw]
  · rw [hu]
    exact release?_bytes s.mem _
  · rw [hi, hinds, hu]
    rfl

theorem rlcReassembleInCmpAmSdu_effect {a b : β}
    (hraw : (s.rxAmEntity e).rxRawSdu.rawSdu.pData = some a) (hb : dfe.buffer.pData = some b)
    (hf : (rlcReassembleInCmpAmSdu env s sn e dfe).refusedJoins = s.refusedJoins) :
    FieldEffect env sn e dfe s (rlcReassembleInCmpAmSdu env s sn e dfe) := by
  unfold rlcReassembleInCmpAmSdu at hf ⊢
  simp only at hf ⊢
  by_cases hseq : (isSnEqual sn ((s.rxAmEntity e).rxRawSdu.sn + 1)
      || isSnEqual sn (s.rxAmEntity e).rxRawSdu.sn) = true
  · rw [if_pos hseq] at hf ⊢
    cases hst : dfe.status with
    | amPduMapSduFull => exact dropRaw_deliver_effect env s sn _ dfe hst rfl
    | amPduMapSduStart =>
        apply FieldEffect.kept hst
        · exact rxRawSdu_setRaw _ e _
        · rfl
        · rfl
    | amPduMapSduEnd =>
        rw [hst] at hf
        cases hj : joinRaw env s (s.rxAmEntity e).rxRawSdu dfe with
        | mk u o =>
            simp only [hj] at hf ⊢
            cases o with
            | none =>
                have hlt := (joinRaw_none hraw hb hj e).2.2
                exact absurd hf hlt.ne'
            | some buffer =>
                obtain ⟨a', b', c, ha', hb', hjoin, hu, hbuf, -⟩ := joinRaw_some hj e
                obtain ⟨rpt, hrpt⟩ :=
                  reportNext_eq (u.setRaw e ⟨(s.rxAmEntity e).rxRawSdu.sn, buffer⟩) e
                simp only
                rw [hrpt, hbuf]
                refine .completed (m := u.mem) (l := ((((u.setRaw e
                  ⟨(s.rxAmEntity e).rxRawSdu.sn,
                    ⟨(s.rxAmEntity e).rxRawSdu.rawSdu.size + dfe.buffer.size, some c⟩⟩).setRpt e
                  rpt).rxAmEntity e).ulRptInfoList.entries)) hst ha' hb' hseq hjoin ?_ ?_
                · rw [rxRawSdu_setRaw]
                · show u.rlcUeDataInds ++ [sduInd (((u.setRaw e _).setRpt e rpt).rxAmEntity e)
                    u.mem _ _] = _
                  rw [sduInd_setRpt, sduInd_setRaw, hu]
                  rfl
    | amPduMapSduMid =>
        rw [hst] at hf
        simp only at hf ⊢
        cases hsame : isSnEqual sn (s.rxAmEntity e).rxRawSdu.sn with
        | true =>
            rw [if_neg (by simp)]
            refine .dropped (Or.inr hst) (fun _ => ?_) rfl rfl rfl
            rw [hst, continues, hsame, Bool.not_true, Bool.and_false]
        | false =>
            rw [hsame, if_pos rfl] at hf
            rw [if_pos rfl]
            cases hj : joinRaw env s (s.rxAmEntity e).rxRawSdu dfe with
            | mk u o =>
                simp only [hj] at hf ⊢
                cases o with
                | none =>
                    have hlt := (joinRaw_none hraw hb hj e).2.2
                    exact absurd hf hlt.ne'
                | some buffer =>
                    obtain ⟨a', b', c, ha', hb', hjoin, hu, hbuf, -⟩ := joinRaw_some hj e
                    obtain ⟨rpt, hrpt⟩ := reportNext_eq (u.setRaw e ⟨sn, buffer⟩) e
                    simp only
                    rw [hrpt, hbuf]
                    refine .joined hst ha' hb' ?_ hjoin ?_ ?_
                    · rw [hsame, Bool.or_false] at hseq
                      rw [continues, hsame, hseq]
                      rfl
                    · rw [rxRawSdu_setRpt, rxRawSdu_setRaw]
                    · rw [hu]
                      rfl
  · rw [if_neg hseq]
    have hno : ∀ status, status = amPduMapSduEnd ∨ status = amPduMapSduMid →
        continues sn status (s.rxAmEntity e).rxRawSdu.sn = false := by
      have hfalse := Bool.not_eq_true _ ▸ hseq
      rintro status (rfl | rfl)
      · exact hfalse
      · rw [continues, (Bool.or_eq_false_iff.mp hfalse).1, Bool.false_and]
    by_cases hnew : dfe.status = amPduMapSduFull ∨ dfe.status = amPduMapSduStart
    · rw [if_pos hnew]
      rcases hnew with hst | hst
      · unfold rlcReassembleFirstSduSegment
        rw [hst]
        exact dropRaw_deliver_effect env s sn _ dfe hst rfl
      · unfold rlcReassembleFirstSduSegment
        rw [hst]
        simp only
        obtain ⟨rpt, hrpt⟩ := reportFirst_eq (((s.free?
          (s.rxAmEntity e).rxRawSdu.rawSdu.pData).setRaw e
            ⟨(s.rxAmEntity e).rxRawSdu.sn, ⟨0, none⟩⟩).setRaw e ⟨sn, dfe.buffer⟩) e
        rw [hrpt]
        apply FieldEffect.kept hst
        · rw [rxRawSdu_setRpt, rxRawSdu_setRaw]
        · rfl
        · rfl
    · rw [if_neg hnew]
      have hst : dfe.status = amPduMapSduEnd ∨ dfe.status = amPduMapSduMid := by
        cases hs : dfe.status <;> simp [hs] at hnew ⊢
      exact .dropped hst (fun _ => hno _ hst) rfl rfl rfl

/-- **What the body of the loop does**, when no join is refused. The element itself is
released at the end. -/
theorem rlcReassembleAmdDfe_effect (hb : dfe.buffer.pData.isSome)
    (hf : (rlcReassembleAmdDfe env sn e s dfe).refusedJoins = s.refusedJoins) :
    ∃ t, rlcReassembleAmdDfe env sn e s dfe = t.free dfe.addr ∧
      FieldEffect env sn e dfe s t ∧
        Works s t e (rawBlock s e + blockOf dfe.buffer.pData) (rawBlock t e) := by
  obtain ⟨b, hb⟩ := Option.isSome_iff_exists.mp hb
  unfold rlcReassembleAmdDfe at hf ⊢
  refine ⟨_, rfl, ?_⟩
  rw [if_pos (by rw [hb]; rfl)] at hf ⊢
  cases hr : (s.rxAmEntity e).rxRawSdu.rawSdu.pData with
  | none =>
      rw [if_neg (by simp)]
      have hw := rlcReassembleFirstSduSegment_works env s sn dfe hr
      refine ⟨rlcReassembleFirstSduSegment_effect env s sn dfe hr, hw.congr ?_ rfl⟩
      rw [rawBlock, hr, blockOf_none, zero_add]
  | some a =>
      rw [hr, if_pos (by simp)] at hf
      rw [if_pos (by simp)]
      have hw : Works s (rlcReassembleInCmpAmSdu env s sn e dfe) e (rawBlock s e + {b})
          (rawBlock (rlcReassembleInCmpAmSdu env s sn e dfe) e) :=
        rlcReassembleInCmpAmSdu_works s sn hr hb
      refine ⟨rlcReassembleInCmpAmSdu_effect hr hb hf, ?_⟩
      rw [hb, blockOf_some]
      exact hw

/-! ## Sizes -/

/-- The incomplete SDU, with its size. -/
def rawSizes (s : RlcState β) (e : β) : Option (Partial UInt32) :=
  (s.rxAmEntity e).rxRawSdu.rawSdu.pData.map fun _ =>
    ⟨(s.rxAmEntity e).rxRawSdu.sn, (s.rxAmEntity e).rxRawSdu.rawSdu.size⟩

/-- For which channel a call is, and the size. -/
def SduInd.sized (ind : SduInd β) : UInt16 × Nat × UInt16 := (ind.rnti, ind.lcId, ind.size)

/-- The channel of an entity. -/
def channel (s : RlcState β) (e : β) : UInt16 × Nat :=
  ((s.rxAmEntity e).rnti, (s.rxAmEntity e).lcId)

/-- The calls that deliver SDUs of these sizes. -/
def sizedCalls (ch : UInt16 × Nat) (l : List UInt32) : List (UInt16 × Nat × UInt16) :=
  l.map fun n => (ch.1, ch.2, n.toUInt16)

theorem FieldEffect.sizes (h : FieldEffect env sn e dfe s t) (hsome : dfe.buffer.pData.isSome) :
    rawSizes t e
        = (reassemble (· + ·) sn (rawSizes s e) dfe.status dfe.buffer.size).1 ∧
      t.rlcUeDataInds.map SduInd.sized = s.rlcUeDataInds.map SduInd.sized
        ++ sizedCalls (channel s e)
          (reassemble (· + ·) sn (rawSizes s e) dfe.status dfe.buffer.size).2.toList := by
  unfold rawSizes
  cases h with
  | dropped hst hno hraw hinds hmem =>
      rw [hraw, hinds]
      cases hr : (s.rxAmEntity e).rxRawSdu.rawSdu.pData with
      | none => rcases hst with hst | hst <;> simp [hst, reassemble, sizedCalls]
      | some a =>
          rw [hr] at hno
          rcases hst with hst | hst <;> rw [hst] at hno ⊢ <;>
            simp [reassemble, sizedCalls, hno rfl]
  | delivered hst hraw hbytes hinds =>
      rw [hraw, hinds]
      simp [hst, reassemble, sizedCalls, sduInd, SduInd.sized, channel]
  | @kept hst hraw hinds hmem =>
      obtain ⟨b, hb⟩ := Option.isSome_iff_exists.mp hsome
      rw [hraw, hinds, hst]
      simp [reassemble, sizedCalls, hb]
  | joined hst ha hb hseq hjoin hraw hinds =>
      rw [hraw, hinds, ha]
      simp [hst, reassemble, sizedCalls, hseq]
  | completed hst ha hb hseq hjoin hraw hinds =>
      rw [hraw, hinds, ha]
      simp [hst, reassemble, sizedCalls, hseq, sduInd, SduInd.sized, channel]

/-- **The code reassembles sizes.** -/
theorem reassembled_sizes {q : List (AmdDfe β)} (hq : ∀ d ∈ q, d.buffer.pData.isSome)
    (hf : (q.foldl (rlcReassembleAmdDfe env sn e) s).mem.failures = s.mem.failures) :
    rawSizes (q.foldl (rlcReassembleAmdDfe env sn e) s) e
        = (reassembleAll (· + ·) sn (rawSizes s e) (q.map AmdDfe.sized)).1 ∧
      (q.foldl (rlcReassembleAmdDfe env sn e) s).rlcUeDataInds.map SduInd.sized
        = s.rlcUeDataInds.map SduInd.sized ++ sizedCalls (channel s e)
            (reassembleAll (· + ·) sn (rawSizes s e) (q.map AmdDfe.sized)).2 := by
  induction q generalizing s with
  | nil => exact ⟨rfl, by simp [reassembleAll, sizedCalls]⟩
  | cons dfe q ih =>
      have hsome := hq dfe List.mem_cons_self
      have hrest : ∀ d ∈ q, d.buffer.pData.isSome := fun d hd =>
        hq d (List.mem_cons_of_mem dfe hd)
      have h1 := rlcReassembleAmdDfe_works env sn e s dfe
      have h2 := (rlcReassembleAmdDfeQ_works env sn e q
        (rlcReassembleAmdDfe env sn e s dfe)).failures
      rw [List.foldl_cons] at hf ⊢
      have hf1 : (rlcReassembleAmdDfe env sn e s dfe).mem.failures = s.mem.failures := by
        have := h1.failures
        omega
      obtain ⟨u, hu, heffect, -⟩ := rlcReassembleAmdDfe_effect hsome (h1.leaves.joined hf1)
      obtain ⟨hraw, hinds⟩ := heffect.sizes hsome
      obtain ⟨ihraw, ihinds⟩ := ih hrest (hf.trans hf1.symm)
      have hch : channel (rlcReassembleAmdDfe env sn e s dfe) e = channel s e :=
        Prod.ext h1.only.rnti h1.only.lcId
      have hraw' : rawSizes (rlcReassembleAmdDfe env sn e s dfe) e
          = (reassemble (· + ·) sn (rawSizes s e) dfe.status dfe.buffer.size).1 := by
        rw [hu]
        exact hraw
      have hinds' : (rlcReassembleAmdDfe env sn e s dfe).rlcUeDataInds.map SduInd.sized
          = s.rlcUeDataInds.map SduInd.sized ++ sizedCalls (channel s e)
            (reassemble (· + ·) sn (rawSizes s e) dfe.status dfe.buffer.size).2.toList := by
        rw [hu]
        exact hinds
      rw [ihraw, ihinds, hraw', hinds', hch]
      refine ⟨rfl, ?_⟩
      rw [List.append_assoc]
      congr 1
      simp only [sizedCalls, List.map_cons, reassembleAll, List.map_append, AmdDfe.sized]

/-! ## Bytes -/

/-- The incomplete SDU, with its bytes. -/
def rawBytes (s : RlcState β) (e : β) : Option (Partial (List UInt8)) :=
  (s.rxAmEntity e).rxRawSdu.rawSdu.pData.map fun _ =>
    ⟨(s.rxAmEntity e).rxRawSdu.sn, (s.rxAmEntity e).rxRawSdu.rawSdu.bytes s.mem⟩

/-- The block of the incomplete SDU is as long as the SDU. -/
def RawExact (s : RlcState β) (e : β) : Prop :=
  ∀ a, (s.rxAmEntity e).rxRawSdu.rawSdu.pData = some a →
    s.mem.length a = (s.rxAmEntity e).rxRawSdu.rawSdu.size.toNat

/-- The calls that deliver SDUs of these bytes. -/
def bytesCalls (ch : UInt16 × Nat) (l : List (List UInt8)) :
    List (UInt16 × Nat × UInt16 × List UInt8) :=
  l.map fun bytes => (ch.1, ch.2, UInt16.ofNat bytes.length, bytes)

/-- What a call delivers. -/
def SduInd.delivery (ind : SduInd β) : UInt16 × Nat × UInt16 × List UInt8 :=
  (ind.rnti, ind.lcId, ind.size, ind.data)

theorem toUInt16_of_lt {n : UInt32} (h : n.toNat < 2 ^ 16) : n.toUInt16.toNat = n.toNat := by
  rw [UInt32.toNat_toUInt16, Nat.mod_eq_of_lt h]

theorem delivery_sduInd (x : RxAmEntity β) (m : Store β) {buffer : RlcAmBuffer β}
    (l : List UInt8) (rpt : List UlReportInfo) (hsize : buffer.size.toNat < 2 ^ 16)
    (hl : buffer.bytes m = l) (hlen : l.length = buffer.size.toNat) :
    (sduInd x m buffer rpt).delivery = (x.rnti, x.lcId, UInt16.ofNat l.length, l) := by
  unfold sduInd SduInd.delivery
  simp only [toUInt16_of_lt hsize, hlen]
  refine Prod.ext rfl (Prod.ext rfl (Prod.ext ?_ hl))
  apply UInt16.toNat.inj
  rw [toUInt16_of_lt hsize, UInt16.toNat_ofNat', Nat.mod_eq_of_lt hsize]

/-- The bytes of a joined buffer. -/
theorem bytes_join {m m' : Store β} {P : Policy β} {a b c : β} {x y : UInt32}
    (ha : a ∈ m.inUse) (hb : b ∈ m.inUse) (hab : a ≠ b)
    (hjoin : m.join P a b = (m', some c)) (hx : m.length a = x.toNat)
    (hy : y.toNat ≤ m.length b) (hlim : x.toNat + y.toNat < 2 ^ 16) :
    (RlcAmBuffer.mk (x + y) (some c)).bytes m'
        = (RlcAmBuffer.mk x (some a)).bytes m ++ (RlcAmBuffer.mk y (some b)).bytes m ∧
      (x + y).toNat = x.toNat + y.toNat ∧
      m'.length c = (m.length a + m.length b) % 2 ^ 16 := by
  obtain ⟨hbytes, hlen⟩ := join_contents ha hb hab hjoin
  have hadd : (x + y).toNat = x.toNat + y.toNat := by
    rw [UInt32.toNat_add]
    apply Nat.mod_eq_of_lt
    omega
  refine ⟨?_, hadd, hlen⟩
  rw [bytes_some, bytes_some, bytes_some, hadd, List.range_add, List.map_append, List.map_map]
  congr 1
  · apply List.map_congr_left
    intro k hk
    have hk := List.mem_range.mp hk
    rw [hbytes k (by omega)]
    unfold Store.joined
    rw [if_pos (by omega)]
  · apply List.map_congr_left
    intro k hk
    have hk := List.mem_range.mp hk
    rw [Function.comp_apply, hbytes _ (by omega)]
    unfold Store.joined
    rw [if_neg (by omega)]
    congr 1
    omega

theorem bytes_length {buffer : RlcAmBuffer β} {m : Store β} (h : buffer.pData.isSome) :
    (buffer.bytes m).length = buffer.size.toNat := by
  obtain ⟨b, hb⟩ := Option.isSome_iff_exists.mp h
  simp [RlcAmBuffer.bytes, RlcAmBuffer.data, hb]

/-- A buffer whose block is left alone. -/
theorem bytes_congr {buffer : RlcAmBuffer β} {m m' : Store β}
    (h : ∀ b, buffer.pData = some b → m'.bytes b = m.bytes b) :
    buffer.bytes m' = buffer.bytes m := by
  unfold RlcAmBuffer.bytes RlcAmBuffer.data
  cases hb : buffer.pData with
  | none => rfl
  | some b =>
      simp only [Option.elim_some]
      rw [h b hb]

theorem rawBytes_none (h : (s.rxAmEntity e).rxRawSdu.rawSdu.pData = none) :
    rawBytes s e = none := by
  rw [rawBytes, h, Option.map_none]

theorem rawBytes_some {a : β} (h : (s.rxAmEntity e).rxRawSdu.rawSdu.pData = some a) :
    rawBytes s e = some ⟨(s.rxAmEntity e).rxRawSdu.sn,
      (s.rxAmEntity e).rxRawSdu.rawSdu.bytes s.mem⟩ := by
  rw [rawBytes, h, Option.map_some]

/-- **The code reassembles bytes**: one field, if the SDU does not become longer than 65535
bytes. -/
theorem FieldEffect.bytes (h : FieldEffect env sn e dfe s t)
    (ha : ∀ a b, (s.rxAmEntity e).rxRawSdu.rawSdu.pData = some a →
      dfe.buffer.pData = some b → a ∈ s.mem.inUse ∧ b ∈ s.mem.inUse ∧ a ≠ b)
    (hraw : RawExact s e) (hd : dfe.Sound s.mem)
    (hshort : ∀ p ∈ rawBytes s e, continues sn dfe.status p.sn = true →
      p.data.length + (dfe.buffer.bytes s.mem).length < 2 ^ 16) :
    RawExact t e ∧
      rawBytes t e
        = (reassemble (· ++ ·) sn (rawBytes s e) dfe.status (dfe.buffer.bytes s.mem)).1 ∧
      t.rlcUeDataInds.map SduInd.delivery = s.rlcUeDataInds.map SduInd.delivery
        ++ bytesCalls (channel s e)
          (reassemble (· ++ ·) sn (rawBytes s e) dfe.status
            (dfe.buffer.bytes s.mem)).2.toList := by
  obtain ⟨b, hb⟩ := Option.isSome_iff_exists.mp hd.isSome
  have hlen := bytes_length (m := s.mem) hd.isSome
  cases h with
  | dropped hst hno hsame hinds hmem =>
      have hne : ∀ a, (s.rxAmEntity e).rxRawSdu.rawSdu.pData = some a →
          dfe.buffer.pData ≠ some a := by
        intro a hpa hpb
        exact (ha a a hpa hpb).2.2 rfl
      have hbytes : rawBytes t e = rawBytes s e := by
        unfold rawBytes
        rw [hsame]
        congr 1
        funext _
        congr 1
        apply bytes_congr
        intro _ _
        rw [hmem, release?_bytes]
      refine ⟨fun a hpa => ?_, ?_, ?_⟩
      · rw [hsame] at hpa ⊢
        rw [hmem, release?_length (hne a hpa)]
        exact hraw a hpa
      · rw [hbytes]
        cases hr : (s.rxAmEntity e).rxRawSdu.rawSdu.pData with
        | none =>
            rw [rawBytes_none hr]
            rcases hst with hst | hst <;> rw [hst] <;> rfl
        | some a =>
            have hno := hno (by rw [hr]; rfl)
            rw [rawBytes_some hr]
            rcases hst with hst | hst <;> rw [hst] at hno ⊢ <;> simp [reassemble, hno]
      · rw [hinds]
        cases hr : (s.rxAmEntity e).rxRawSdu.rawSdu.pData with
        | none =>
            rw [rawBytes_none hr]
            rcases hst with hst | hst <;> rw [hst] <;> simp [reassemble, bytesCalls]
        | some a =>
            have hno := hno (by rw [hr]; rfl)
            rw [rawBytes_some hr]
            rcases hst with hst | hst <;> rw [hst] at hno ⊢ <;>
              simp [reassemble, hno, bytesCalls]
  | @delivered m l hst hnone hbytes hinds =>
      have hsame : dfe.buffer.bytes m = dfe.buffer.bytes s.mem :=
        bytes_congr fun _ _ => by rw [hbytes]
      refine ⟨fun a hpa => ?_, ?_, ?_⟩
      · rw [hnone] at hpa
        cases hpa
      · rw [rawBytes_none hnone, hst]
        cases rawBytes s e <;> rfl
      · have hcall := delivery_sduInd (s.rxAmEntity e) m _ l hd.size hsame hlen
        rw [hinds, List.map_append, List.map_singleton, hcall, hst]
        cases rawBytes s e <;> rfl
  | kept hst hnew hinds hmem =>
      have hne : (s.rxAmEntity e).rxRawSdu.rawSdu.pData ≠ some b := by
        intro hpa
        exact (ha b b hpa hb).2.2 rfl
      refine ⟨fun a hpa => ?_, ?_, ?_⟩
      · rw [hnew] at hpa ⊢
        obtain rfl : b = a := Option.some.inj (hb.symm.trans hpa)
        rw [hmem, release?_length hne]
        exact hd.exact (Or.inl hst) b hb
      · have hpt : (t.rxAmEntity e).rxRawSdu.rawSdu.pData = some b := by rw [hnew, hb]
        have hsame : dfe.buffer.bytes t.mem = dfe.buffer.bytes s.mem :=
          bytes_congr fun _ _ => by rw [hmem, release?_bytes]
        rw [rawBytes_some hpt, hnew, hsame, hst]
        cases rawBytes s e <;> rfl
      · rw [hinds, hst]
        cases rawBytes s e <;> simp [reassemble, bytesCalls]
  | @joined a b' c hst hpa hpb hseq hjoin hnew hinds =>
      obtain rfl : b = b' := Option.some.inj (hb.symm.trans hpb)
      obtain ⟨hua, hub, hne⟩ := ha a b hpa hb
      have hs := hshort _ (rawBytes_some hpa) (by rw [hst]; exact hseq)
      rw [hlen, bytes_length (by rw [hpa]; rfl)] at hs
      obtain ⟨hbytes, hadd, hlc⟩ := bytes_join hua hub hne hjoin (hraw a hpa) (hd.fits b hb) hs
      have hpt : (t.rxAmEntity e).rxRawSdu.rawSdu.pData = some c := by rw [hnew]
      refine ⟨fun x hpx => ?_, ?_, ?_⟩
      · rw [hnew] at hpx ⊢
        obtain rfl : c = x := Option.some.inj hpx
        have hlb := hd.exact (Or.inr hst) b hb
        show t.mem.length c = ((s.rxAmEntity e).rxRawSdu.rawSdu.size + dfe.buffer.size).toNat
        rw [hlc, hadd, hraw a hpa, hlb, Nat.mod_eq_of_lt hs]
      · rw [rawBytes_some hpt, rawBytes_some hpa, hnew, hst]
        simp only [reassemble, hseq, if_true, hbytes]
        rw [← hpa, ← hb]
      · rw [hinds, rawBytes_some hpa, hst]
        simp [reassemble, hseq, bytesCalls]
  | @completed a b' c m l hst hpa hpb hseq hjoin hnone hinds =>
      obtain rfl : b = b' := Option.some.inj (hb.symm.trans hpb)
      obtain ⟨hua, hub, hne⟩ := ha a b hpa hb
      have hs := hshort _ (rawBytes_some hpa) (by rw [hst]; exact hseq)
      rw [hlen, bytes_length (by rw [hpa]; rfl)] at hs
      obtain ⟨hbytes, hadd, -⟩ := bytes_join hua hub hne hjoin (hraw a hpa) (hd.fits b hb) hs
      refine ⟨fun x hpx => ?_, ?_, ?_⟩
      · rw [hnone] at hpx
        cases hpx
      · rw [rawBytes_none hnone, rawBytes_some hpa, hst]
        simp [reassemble, hseq]
      · have hsize : ((s.rxAmEntity e).rxRawSdu.rawSdu.size + dfe.buffer.size).toNat < 2 ^ 16 := by
          omega
        have hcall := delivery_sduInd (s.rxAmEntity e) m _ l hsize hbytes (by
          rw [List.length_append, bytes_length rfl, bytes_length rfl]
          exact hadd.symm)
        rw [hinds, List.map_append, List.map_singleton, hcall, rawBytes_some hpa, hst]
        simp only [reassemble, hseq, if_true, Option.toList_some, bytesCalls, List.map_cons,
          List.map_nil]
        rw [← hpa, ← hb]
        rfl

end LteUlp.Rlc
