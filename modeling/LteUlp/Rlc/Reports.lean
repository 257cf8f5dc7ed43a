import LteUlp.Rlc.Failures
import LteUlp.Rlc.Reassembly

set_option autoImplicit false
set_option linter.unusedSectionVars false

/-! # The reports of an SDU

An entity lists the radio values of the PDUs that have contributed to its SDU. What the list
should be is said by the abstract reassembler, run on lists of reports instead of bytes: every
fragment brings the report of its PDU. `ReportRun` follows one entity from its creation through any
packets, together with the reports that the delivered SDUs should have. The list goes wrong
where a first fragment replaces an incomplete SDU that it might have continued, and where an
SDU has more fragments than the list has entries.
-/

namespace LteUlp.Rlc

open BlockStore LteUlp.Rrc LteUlp.Mac LteUlp.Pdcp RlcSduStatus

variable {β : Type} [DecidableEq β] {env : Platform β}

/-! ## Packets of an entity -/

/-- What `RlcProcessAMRxPacket` does before it looks at the ring: the header of the packet and
the entity, which may be new. -/
def rlcFindEntity (env : Platform β) (s : RlcState β) (info : RlcUlDataInfo β) (rnti : UInt16) :
    RlcState β × Option (β × AmdHeader) :=
  if info.lcId > srb2LcId then (s, none)
  else
    match info.rlcdataBuffer.bind fun b => rlcDecodeAmdHeader (s.mem.bytes b) info.length with
    | none => (s, none)
    | some h =>
        if h.dc = 0 then (s, none)
        else
          match rlcContextFor env s rnti with
          | (s, none) => (s, none)
          | (s, some a) =>
              match rlcEntityFor env s a info.lcId with
              | (s, none) => (s, none)
              | (s, some e) => (s, some (e, h))

/-- `RlcProcessAMRxPacket` from there on. -/
def rlcProcessAmdPdu (env : Platform β) (s : RlcState β) (e : β) (h : AmdHeader)
    (info : RlcUlDataInfo β) : RlcState β :=
  if ((s.rxAmEntity e).amdPduRing (h.sn &&& 511)).status = .free then
    rlcProcessNewAmdPdu env s e h info
  else rlcProcessNextAmdPdu env s e h info

theorem rlcProcessAmRxPacket_findEntity (env : Platform β) (s : RlcState β)
    (info : RlcUlDataInfo β) (rnti : UInt16) :
    rlcProcessAmRxPacket env s info rnti = match rlcFindEntity env s info rnti with
      | (t, none) => t.free? info.rlcdataBuffer
      | (t, some (e, h)) => rlcProcessAmdPdu env t e h info := by
  unfold rlcProcessAmRxPacket rlcFindEntity
  split
  · rfl
  cases info.rlcdataBuffer.bind fun b => rlcDecodeAmdHeader (s.mem.bytes b) info.length with
  | none => rfl
  | some h =>
      simp only
      split
      · rfl
      rcases rlcContextFor env s rnti with ⟨t, _ | a⟩
      · rfl
      simp only
      rcases rlcEntityFor env t a info.lcId with ⟨u, _ | e⟩ <;> rfl

/-- The data fields that reach the reassembler. -/
def pduFields (env : Platform β) (s : RlcState β) (h : AmdHeader) (info : RlcUlDataInfo β) :
    List (AmdDfe β) :=
  (rlcNewAmdPdu env s h info).2.elim [] fun pdu => pdu.segList.flatMap AmdPduSegment.dfeQ

/-! ### Their statuses -/

/-- The statuses after the first one. -/
def laterStatuses (fi : UInt8) : List Nat → List RlcSduStatus
  | [] => [lastStatus fi]
  | _ :: lis => amPduMapSduFull :: laterStatuses fi lis

/-- The statuses of an element and those that are split off it. -/
def splitStatuses (fi : UInt8) : List Nat → RlcSduStatus → List RlcSduStatus
  | [], _ => [lastStatus fi]
  | _ :: lis, status => status :: laterStatuses fi lis

/-- The statuses a PDU can have: those of a single field, or a first one and those that
follow. -/
def StatusesOk (l : List RlcSduStatus) : Prop :=
  (∃ fi, l = [wholeStatus fi]) ∨ ∃ fi lis, l = firstStatus fi :: laterStatuses fi lis

theorem rlcDecodeAndEnqueueAmSegment_statuses {fi : UInt8} {lis : List Nat} {s t : RlcState β}
    {dfeQ q : List (AmdDfe β)} {dfe : AmdDfe β} (hb : dfe.buffer.pData.isSome)
    (hdec : rlcDecodeAndEnqueueAmSegment env fi lis s dfeQ dfe = (t, q, true)) :
    ∃ q', q = dfeQ ++ q' ∧ (∀ d ∈ q', d.buffer.pData.isSome) ∧
      q'.map AmdDfe.status = splitStatuses fi lis dfe.status := by
  induction lis generalizing s dfeQ dfe with
  | nil =>
      rw [rlcDecodeAndEnqueueAmSegment] at hdec
      simp only [Prod.mk.injEq, and_true] at hdec
      obtain ⟨-, rfl⟩ := hdec
      exact ⟨_, rfl, by simpa using hb, rfl⟩
  | cons li lis ih =>
      rw [rlcDecodeAndEnqueueAmSegment] at hdec
      simp only at hdec
      split at hdec
      · simp at hdec
      · split at hdec
        · simp at hdec
        · split at hdec
          · simp at hdec
          · obtain ⟨q', rfl, hsome, hst⟩ := ih rfl hdec
            refine ⟨{ dfe with buffer := { dfe.buffer with size := UInt32.ofNat li } } :: q',
              by simp, ?_, ?_⟩
            · intro d hd
              rcases List.mem_cons.mp hd with rfl | hd
              · exact hb
              · exact hsome d hd
            · rw [List.map_cons, hst]
              cases lis <;> rfl

theorem rlcGetConcatenationHeaderInfo_ne_nil {data : Nat → UInt8}
    {p : RlcConcatenatePduHeader} (h : rlcGetConcatenationHeaderInfo data = some p) :
    p.dfeLength ≠ [] := by
  obtain ⟨lis, hlis, rfl⟩ := Option.map_eq_some_iff.mp h
  rw [rlcMaxDfeInUlPdu, rlcLengthIndicators] at hlis
  split at hlis
  · simp at hlis
  · split at hlis
    · obtain rfl := Option.some.inj hlis
      simp
    · obtain ⟨lis', -, rfl⟩ := Option.map_eq_some_iff.mp hlis
      simp

/-- **The fields of a PDU**: one segment, whose elements have data. -/
theorem rlcDecodeAmdPdu_statuses {s t : RlcState β} {pdu p : AmdPdu β} {h : AmdHeader}
    {info : RlcUlDataInfo β} (hpdu : pdu.segList = []) (hb : info.rlcdataBuffer.isSome)
    (hdec : rlcDecodeAmdPdu env s pdu h info = (t, some p)) :
    ∃ seg q, p.segList = [⟨seg, q⟩] ∧ (∀ d ∈ q, d.buffer.pData.isSome) ∧
      StatusesOk (q.map AmdDfe.status) := by
  unfold rlcDecodeAmdPdu at hdec
  simp only at hdec
  split at hdec
  · simp at hdec
  · split at hdec
    · simp at hdec
    · rename_i u seg _
      split at hdec
      · split at hdec
        · simp at hdec
        · rename_i v a _
          obtain ⟨hdfe, hsegs, -⟩ := rlcSetAmdPduAndDfeStatus_eq pdu h a
            ⟨UInt32.ofNat info.length - 2, info.rlcdataBuffer⟩
          simp only [Prod.mk.injEq, Option.some.injEq] at hdec
          obtain ⟨-, rfl⟩ := hdec
          refine ⟨seg, _, by rw [hsegs, hpdu]; rfl, ?_, Or.inl ⟨h.fi, ?_⟩⟩
          · rw [hdfe]
            simpa using hb
          · rw [hdfe]
            rfl
      · split at hdec
        · simp at hdec
        · rename_i pduHeader hhead
          split at hdec
          · simp at hdec
          · split at hdec
            · simp at hdec
            · rename_i w q hq
              simp only [Prod.mk.injEq, Option.some.injEq] at hdec
              obtain ⟨-, rfl⟩ := hdec
              obtain ⟨q', hq', hsome, hst⟩ := rlcDecodeAndEnqueueAmSegment_statuses hb hq
              rw [List.nil_append] at hq'
              subst hq'
              refine ⟨seg, q, by rw [hpdu]; rfl, hsome, Or.inr ?_⟩
              have hne := rlcGetConcatenationHeaderInfo_ne_nil hhead
              cases hl : pduHeader.dfeLength with
              | nil => exact absurd hl hne
              | cons li lis =>
                  rw [hl] at hst
                  exact ⟨h.fi, lis, hst⟩

theorem rlcNewAmdPdu_statuses {s t : RlcState β} {p : AmdPdu β} {h : AmdHeader}
    {info : RlcUlDataInfo β} (hb : info.rlcdataBuffer.isSome)
    (hn : rlcNewAmdPdu env s h info = (t, some p)) :
    ∃ seg q, p.segList = [⟨seg, q⟩] ∧ (∀ d ∈ q, d.buffer.pData.isSome) ∧
      StatusesOk (q.map AmdDfe.status) := by
  unfold rlcNewAmdPdu at hn
  split at hn
  · simp at hn
  · rename_i u pdu hc
    obtain ⟨-, hseg⟩ := rlcCreateAmdPdu_some hc
    split at hn
    · simp at hn
    · split at hn
      · simp at hn
      · rename_i v q hd
        simp only [Prod.mk.injEq, Option.some.injEq] at hn
        obtain ⟨-, rfl⟩ := hn
        exact rlcDecodeAmdPdu_statuses (p := q) hseg hb hd

/-! ## The list -/

/-- The reports that fit: all, or the first ones and the last one. -/
def cappedReports (l : List UlReportInfo) : List UlReportInfo :=
  if l.length ≤ maxRlcSegmentsNum then l
  else l.take (maxRlcSegmentsNum - 1) ++ l.getLast?.toList

section List

variable {s : RlcState β} {e : β} {r : UlReportInfo}

/-- The entries of the list of an entity. -/
def reportsOf (s : RlcState β) (e : β) : List UlReportInfo :=
  (s.rxAmEntity e).ulRptInfoList.entries

@[simp] theorem length_entries (l : UlReportInfoList) : l.entries.length = l.count := by
  simp [UlReportInfoList.entries]

theorem reportsOf_setRpt (s : RlcState β) (e : β) (rpt : UlReportInfoList) :
    reportsOf (s.setRpt e rpt) e = rpt.entries := by
  simp [reportsOf, RlcState.setRpt, RlcState.setEntity]

theorem reportsOf_setRaw (s : RlcState β) (e : β) (raw : RlcAmRawSdu β) :
    reportsOf (s.setRaw e raw) e = reportsOf s e := by
  simp [reportsOf, RlcState.setRaw, RlcState.setEntity]

theorem reportsOf_reportFirst (hr : macReport s (s.rxAmEntity e).rnti = some r) :
    reportsOf (reportFirst s e) e = [r] := by
  unfold reportFirst
  rw [hr]
  simp only
  rw [reportsOf_setRpt]
  simp [UlReportInfoList.entries]

theorem reportsOf_clearReports (s : RlcState β) (e : β) : reportsOf (clearReports s e) e = [] :=
  reportsOf_setRpt s e _

/-- The report is appended while there is room. -/
theorem reportsOf_reportNext (hr : macReport s (s.rxAmEntity e).rnti = some r)
    (hle : (reportsOf s e).length ≤ maxRlcSegmentsNum) :
    reportsOf (reportNext s e) e = (reportsOf s e ++ [r]).take maxRlcSegmentsNum := by
  have hlen : (reportsOf s e).length = (s.rxAmEntity e).ulRptInfoList.count := length_entries _
  unfold reportNext
  rw [hr]
  simp only
  by_cases hroom : (s.rxAmEntity e).ulRptInfoList.count < maxRlcSegmentsNum
  · rw [if_pos hroom, reportsOf_setRpt, List.take_of_length_le (by simp; omega)]
    simp only [UlReportInfoList.entries, reportsOf, List.range_succ, List.map_append,
      List.map_cons, List.map_nil, Function.update_self]
    congr 1
    apply List.map_congr_left
    intro i hi
    have := List.mem_range.mp hi
    exact Function.update_of_ne (by omega) _ _
  · rw [if_neg hroom, List.take_append_of_le_length (by omega), List.take_of_length_le (by omega)]

end List

/-! ## One field -/

/-- The entity keeps an SDU of these fragments, if any, and lists the first ones of them. -/
structure Tracks (s : RlcState β) (e : β) (parts : Option (Partial (List UlReportInfo))) :
    Prop where
  isSome : (s.rxAmEntity e).rxRawSdu.rawSdu.pData.isSome = parts.isSome
  sn : ∀ p, parts = some p → (s.rxAmEntity e).rxRawSdu.sn = p.sn
  reports : reportsOf s e = parts.elim [] fun p => p.data.take maxRlcSegmentsNum

/-- The field does not replace an SDU that it might have continued, the list has room for the
report of a last fragment, and `MemJoin` finds memory. -/
structure Reported (env : Platform β) (s : RlcState β) (e : β) (sn : Nat) (dfe : AmdDfe β) :
    Prop where
  first : dfe.status = amPduMapSduStart → (s.rxAmEntity e).rxRawSdu.rawSdu.pData.isSome →
    continues sn amPduMapSduEnd (s.rxAmEntity e).rxRawSdu.sn = false
  last : dfe.status = amPduMapSduEnd → (s.rxAmEntity e).rxRawSdu.rawSdu.pData.isSome →
    continues sn amPduMapSduEnd (s.rxAmEntity e).rxRawSdu.sn = true →
      (s.rxAmEntity e).ulRptInfoList.count < maxRlcSegmentsNum
  joined : (s.rxAmEntity e).rxRawSdu.rawSdu.pData.isSome →
    continues sn dfe.status (s.rxAmEntity e).rxRawSdu.sn = true →
      (joinRaw env s (s.rxAmEntity e).rxRawSdu dfe).2.isSome

/-- The reports of the SDUs delivered from `s` to `t` are these, and fit the list. -/
structure DeliversReports (s t : RlcState β) (l : List (List UlReportInfo)) : Prop where
  calls : ∃ calls, t.rlcUeDataInds = s.rlcUeDataInds ++ calls ∧ calls.map SduInd.ulRptInfo = l
  fit : ∀ x ∈ l, x.length ≤ maxRlcSegmentsNum

theorem DeliversReports.nil {s t : RlcState β} (h : t.rlcUeDataInds = s.rlcUeDataInds) :
    DeliversReports s t [] := ⟨⟨[], by rw [h, List.append_nil], rfl⟩, by simp⟩

theorem DeliversReports.single {s t : RlcState β} {ind : SduInd β} {l : List UlReportInfo}
    (h : t.rlcUeDataInds = s.rlcUeDataInds ++ [ind]) (hl : ind.ulRptInfo = l)
    (hfit : l.length ≤ maxRlcSegmentsNum) : DeliversReports s t [l] :=
  ⟨⟨[ind], h, congrArg (fun x => [x]) hl⟩, by simpa using hfit⟩

theorem DeliversReports.congr {s t u v : RlcState β} {l : List (List UlReportInfo)}
    (h : DeliversReports s t l) (hu : u.rlcUeDataInds = s.rlcUeDataInds)
    (hv : v.rlcUeDataInds = t.rlcUeDataInds) : DeliversReports u v l := by
  constructor
  · rw [hu, hv]
    exact h.calls
  · exact h.fit

theorem DeliversReports.trans {s t u : RlcState β} {l l' : List (List UlReportInfo)}
    (h : DeliversReports s t l) (h' : DeliversReports t u l') : DeliversReports s u (l ++ l') := by
  obtain ⟨calls, hc, rfl⟩ := h.calls
  obtain ⟨calls', hc', rfl⟩ := h'.calls
  refine ⟨⟨calls ++ calls', by rw [hc', hc, List.append_assoc], List.map_append ..⟩, ?_⟩
  intro x hx
  rcases List.mem_append.mp hx with hx | hx
  · exact h.fit x hx
  · exact h'.fit x hx

section Field

variable {s t : RlcState β} {e : β} {r : UlReportInfo} {sn : Nat} {dfe : AmdDfe β}
  {parts : Option (Partial (List UlReportInfo))}

theorem Tracks.length_le (h : Tracks s e parts) :
    (reportsOf s e).length ≤ maxRlcSegmentsNum := by
  rw [h.reports]
  cases parts with
  | none => exact Nat.zero_le _
  | some p => exact List.length_take_le _ _

/-- Only the incomplete SDU and the list matter. -/
theorem Tracks.congr (h : Tracks s e parts)
    (hraw : (t.rxAmEntity e).rxRawSdu = (s.rxAmEntity e).rxRawSdu)
    (hrpt : (t.rxAmEntity e).ulRptInfoList = (s.rxAmEntity e).ulRptInfoList) :
    Tracks t e parts := by
  constructor
  · rw [hraw]
    exact h.isSome
  · rw [hraw]
    exact h.sn
  · unfold reportsOf
    rw [hrpt]
    exact h.reports

/-- The MAC context of the UE has these radio values. -/
def Radio (s : RlcState β) (e : β) (r : UlReportInfo) : Prop :=
  macReport s (s.rxAmEntity e).rnti = some r

theorem Radio.setRaw (h : Radio s e r) (raw : RlcAmRawSdu β) : Radio (s.setRaw e raw) e r := by
  unfold Radio at h ⊢
  rw [← h]
  simp [RlcState.setRaw, RlcState.setEntity, macReport]

theorem Radio.of_onlyMem (h : Radio s e r) (ho : OnlyMem s t) : Radio t e r := by
  rw [ho]
  exact h

/-- A whole SDU is delivered with the report of its PDU. -/
theorem deliver_reports (env : Platform β) (hr : Radio s e r) (hraw : (s.rxAmEntity e).rxRawSdu.rawSdu.pData = none)
    (buffer : RlcAmBuffer β) :
    Tracks (clearReports (rlcDeliverAmSduToPdcp env (reportFirst s e) e buffer) e) e none ∧
      DeliversReports s (clearReports (rlcDeliverAmSduToPdcp env (reportFirst s e) e buffer) e)
        [[r]] := by
  constructor
  · constructor
    · rw [(deliver_works env s e buffer).2, hraw]
      rfl
    · simp
    · exact reportsOf_clearReports _ e
  · have hrep := reportsOf_reportFirst hr
    obtain ⟨rpt, hrpt⟩ := reportFirst_eq s e
    rw [hrpt] at hrep ⊢
    exact .single rfl hrep (Nat.le_of_ble_eq_true rfl)

/-- A first fragment is kept, and its report is the only one. -/
theorem keepFirst_reports (sn : Nat) (hr : Radio s e r) (hb : dfe.buffer.pData.isSome) :
    Tracks (reportFirst (s.setRaw e ⟨sn, dfe.buffer⟩) e) e (some ⟨sn, [r]⟩) ∧
      DeliversReports s (reportFirst (s.setRaw e ⟨sn, dfe.buffer⟩) e) [] := by
  have hrep := reportsOf_reportFirst (hr.setRaw ⟨sn, dfe.buffer⟩)
  obtain ⟨rpt, hrpt⟩ := reportFirst_eq (s.setRaw e ⟨sn, dfe.buffer⟩) e
  rw [hrpt] at hrep ⊢
  constructor
  · constructor
    · rw [rxRawSdu_setRpt, rxRawSdu_setRaw]
      exact hb
    · rw [rxRawSdu_setRpt, rxRawSdu_setRaw]
      rintro p hp
      obtain rfl := Option.some.inj hp
      rfl
    · exact hrep
  · exact .nil rfl

/-- The report of a fragment that is joined. -/
theorem reportNext_tracks {p : Partial (List UlReportInfo)} (sn' : Nat) {buffer : RlcAmBuffer β}
    (hr : Radio s e r) (ht : Tracks s e (some p)) (hb : buffer.pData.isSome) :
    Tracks (reportNext (s.setRaw e ⟨sn', buffer⟩) e) e (some ⟨sn', p.data ++ [r]⟩) := by
  have hle : (reportsOf (s.setRaw e ⟨sn', buffer⟩) e).length ≤ maxRlcSegmentsNum := by
    rw [reportsOf_setRaw]
    exact ht.length_le
  have hrep := reportsOf_reportNext (hr.setRaw ⟨sn', buffer⟩) hle
  obtain ⟨rpt, hrpt⟩ := reportNext_eq (s.setRaw e ⟨sn', buffer⟩) e
  rw [hrpt] at hrep ⊢
  constructor
  · rw [rxRawSdu_setRpt, rxRawSdu_setRaw]
    exact hb
  · rw [rxRawSdu_setRpt, rxRawSdu_setRaw]
    rintro q hq
    obtain rfl := Option.some.inj hq
    rfl
  · rw [hrep, reportsOf_setRaw, ht.reports, Option.elim_some, Option.elim_some]
    rcases Nat.le_total p.data.length maxRlcSegmentsNum with hlen | hlen
    · rw [List.take_of_length_le hlen]
    · rw [List.take_append_of_le_length hlen, List.take_append_of_le_length (by simpa using hlen),
        List.take_take, min_self]

theorem rlcReassembleFirstSduSegment_reports (env : Platform β) (sn : Nat) (hr : Radio s e r)
    (ht : Tracks s e none) (hb : dfe.buffer.pData.isSome) :
    Tracks (rlcReassembleFirstSduSegment env s sn e dfe) e
        (reassemble (· ++ ·) sn none dfe.status [r]).1 ∧
      DeliversReports s (rlcReassembleFirstSduSegment env s sn e dfe)
        (reassemble (· ++ ·) sn none dfe.status [r]).2.toList := by
  have hraw : (s.rxAmEntity e).rxRawSdu.rawSdu.pData = none := by simpa using ht.isSome
  have hdrop : Tracks (s.free? dfe.buffer.pData) e none ∧
      DeliversReports s (s.free? dfe.buffer.pData) [] :=
    ⟨ht.congr rfl rfl, .nil rfl⟩
  unfold rlcReassembleFirstSduSegment
  cases dfe.status with
  | amPduMapSduFull => exact deliver_reports env hr hraw dfe.buffer
  | amPduMapSduStart => exact keepFirst_reports sn hr hb
  | amPduMapSduEnd => exact hdrop
  | amPduMapSduMid => exact hdrop

/-- The state in which a field finds that the incomplete SDU has been dropped. -/
def dropRaw (s : RlcState β) (e : β) : RlcState β :=
  (s.free? (s.rxAmEntity e).rxRawSdu.rawSdu.pData).setRaw e
    ⟨(s.rxAmEntity e).rxRawSdu.sn, ⟨0, none⟩⟩

theorem Radio.dropRaw (hr : Radio s e r) : Radio (dropRaw s e) e r :=
  (hr.of_onlyMem (t := s.free? (s.rxAmEntity e).rxRawSdu.rawSdu.pData) rfl).setRaw _

theorem dropRaw_pData (s : RlcState β) (e : β) :
    ((dropRaw s e).rxAmEntity e).rxRawSdu.rawSdu.pData = none := by
  unfold dropRaw
  rw [rxRawSdu_setRaw]

theorem joinRaw_isSome {raw : RlcAmRawSdu β} (h : (joinRaw env s raw dfe).2.isSome) (e : β) :
    ∃ u buffer, joinRaw env s raw dfe = (u, some buffer) ∧ buffer.pData.isSome ∧
      OnlyMem s u := by
  cases hj : joinRaw env s raw dfe with
  | mk u o =>
      rw [hj] at h
      obtain ⟨buffer, rfl⟩ := Option.isSome_iff_exists.mp h
      obtain ⟨-, -, c, -, -, -, hu, rfl, -⟩ := joinRaw_some hj e
      exact ⟨u, _, rfl, rfl, .of_eq hu⟩

/-- **A field and an incomplete SDU.** -/
theorem rlcReassembleInCmpAmSdu_reports {p : Partial (List UlReportInfo)} (hr : Radio s e r)
    (ht : Tracks s e (some p)) (hb : dfe.buffer.pData.isSome) (hok : Reported env s e sn dfe) :
    Tracks (rlcReassembleInCmpAmSdu env s sn e dfe) e
        (reassemble (· ++ ·) sn (some p) dfe.status [r]).1 ∧
      DeliversReports s (rlcReassembleInCmpAmSdu env s sn e dfe)
        (reassemble (· ++ ·) sn (some p) dfe.status [r]).2.toList := by
  have hraw : (s.rxAmEntity e).rxRawSdu.rawSdu.pData.isSome := ht.isSome
  have hsn := ht.sn p rfl
  have hkeep : Tracks (s.free? dfe.buffer.pData) e (some p) ∧
      DeliversReports s (s.free? dfe.buffer.pData) [] := ⟨ht.congr rfl rfl, .nil rfl⟩
  obtain ⟨hdrop, hdeliver⟩ := deliver_reports env hr.dropRaw (dropRaw_pData s e) dfe.buffer
  unfold rlcReassembleInCmpAmSdu
  simp only
  by_cases hseq : (isSnEqual sn ((s.rxAmEntity e).rxRawSdu.sn + 1)
      || isSnEqual sn (s.rxAmEntity e).rxRawSdu.sn) = true
  · rw [if_pos hseq]
    have hend : continues sn amPduMapSduEnd (s.rxAmEntity e).rxRawSdu.sn = true := hseq
    cases hst : dfe.status with
    | amPduMapSduFull => exact ⟨hdrop, hdeliver.congr rfl rfl⟩
    | amPduMapSduStart =>
        rw [hok.first hst hraw] at hend
        exact absurd hend Bool.false_ne_true
    | amPduMapSduEnd =>
        obtain ⟨u, buffer, hj, hbuf, hu⟩ := joinRaw_isSome (hok.joined hraw (by rw [hst, hend])) e
        have htu : Tracks u e (some p) := ht.congr (by rw [hu]; rfl) (by rw [hu]; rfl)
        have hnext := reportNext_tracks (s.rxAmEntity e).rxRawSdu.sn
          (hr.of_onlyMem hu) htu hbuf
        have hroom : p.data.length < maxRlcSegmentsNum := by
          have hcount := hok.last hst hraw hend
          rw [← length_entries, ← reportsOf, ht.reports, Option.elim_some,
            List.length_take] at hcount
          omega
        have hall : (p.data ++ [r]).take maxRlcSegmentsNum = p.data ++ [r] :=
          List.take_of_length_le (by simpa using hroom)
        rw [hsn] at hend
        simp only [hj, reassemble, hend, if_true]
        constructor
        · constructor
          · rw [rxRawSdu_setRaw]
            rfl
          · simp
          · rw [reportsOf_setRaw, reportsOf_clearReports]
            rfl
        · have hrep := hnext.reports
          obtain ⟨rpt, hrpt⟩ := reportNext_eq
            (u.setRaw e ⟨(s.rxAmEntity e).rxRawSdu.sn, buffer⟩) e
          rw [hrpt] at hrep ⊢
          have hinds : s.rlcUeDataInds = u.rlcUeDataInds := by
            rw [hu]
            rfl
          have hone : DeliversReports u (rlcDeliverAmSduToPdcp env ((u.setRaw e
              ⟨(s.rxAmEntity e).rxRawSdu.sn, buffer⟩).setRpt e rpt) e buffer) [p.data ++ [r]] :=
            .single rfl (hrep.trans hall) (by simpa using hroom)
          exact hone.congr hinds rfl
    | amPduMapSduMid =>
        simp only [reassemble]
        cases hsame : isSnEqual sn (s.rxAmEntity e).rxRawSdu.sn with
        | true =>
            have hno : continues sn amPduMapSduMid p.sn = false := by
              rw [← hsn, continues, hsame, Bool.not_true, Bool.and_false]
            rw [if_neg (by simp), hno]
            exact hkeep
        | false =>
            have hmid : continues sn amPduMapSduMid (s.rxAmEntity e).rxRawSdu.sn = true := by
              rw [hsame, Bool.or_false] at hseq
              rw [continues, hsame, hseq]
              rfl
            obtain ⟨u, buffer, hj, hbuf, hu⟩ :=
              joinRaw_isSome (hok.joined hraw (by rw [hst, hmid])) e
            have htu : Tracks u e (some p) := ht.congr (by rw [hu]; rfl) (by rw [hu]; rfl)
            have hnext := reportNext_tracks sn (hr.of_onlyMem hu) htu hbuf
            rw [hsn] at hmid
            simp only [if_true, hj, hmid]
            refine ⟨hnext, .nil ?_⟩
            obtain ⟨rpt, hrpt⟩ := reportNext_eq (u.setRaw e ⟨sn, buffer⟩) e
            rw [hrpt, hu]
            rfl
  · rw [if_neg hseq]
    have hno : ∀ status, status = amPduMapSduEnd ∨ status = amPduMapSduMid →
        continues sn status p.sn = false := by
      have hfalse := Bool.not_eq_true _ ▸ hseq
      rw [hsn] at hfalse
      rintro status (rfl | rfl)
      · exact hfalse
      · rw [continues, (Bool.or_eq_false_iff.mp hfalse).1, Bool.false_and]
    cases hst : dfe.status with
    | amPduMapSduFull =>
        rw [if_pos (Or.inl rfl)]
        unfold rlcReassembleFirstSduSegment
        rw [hst]
        exact ⟨hdrop, hdeliver.congr rfl rfl⟩
    | amPduMapSduStart =>
        rw [if_pos (Or.inr rfl)]
        unfold rlcReassembleFirstSduSegment
        rw [hst]
        obtain ⟨hkept, hnone⟩ := keepFirst_reports sn hr.dropRaw hb
        exact ⟨hkept, hnone.congr rfl rfl⟩
    | amPduMapSduEnd =>
        rw [if_neg (by simp)]
        simp only [reassemble, hno _ (Or.inl rfl)]
        exact hkeep
    | amPduMapSduMid =>
        rw [if_neg (by simp)]
        simp only [reassemble, hno _ (Or.inr rfl)]
        exact hkeep

/-- **One field**, with or without an incomplete SDU. -/
theorem rlcReassembleAmdDfe_reports (hr : Radio s e r) (ht : Tracks s e parts)
    (hb : dfe.buffer.pData.isSome) (hok : Reported env s e sn dfe) :
    Tracks (rlcReassembleAmdDfe env sn e s dfe) e
        (reassemble (· ++ ·) sn parts dfe.status [r]).1 ∧
      DeliversReports s (rlcReassembleAmdDfe env sn e s dfe)
        (reassemble (· ++ ·) sn parts dfe.status [r]).2.toList := by
  unfold rlcReassembleAmdDfe
  rw [if_pos hb]
  cases parts with
  | none =>
      have hraw := ht.isSome
      rw [if_neg (by rw [hraw]; simp)]
      obtain ⟨h1, h2⟩ := rlcReassembleFirstSduSegment_reports env sn hr ht hb
      exact ⟨h1.congr rfl rfl, h2.congr rfl rfl⟩
  | some p =>
      rw [if_pos (by rw [ht.isSome]; rfl)]
      obtain ⟨h1, h2⟩ := rlcReassembleInCmpAmSdu_reports hr ht hb hok
      exact ⟨h1.congr rfl rfl, h2.congr rfl rfl⟩

end Field

/-! ## The fields of a PDU -/

section Pdu

variable {s t u : RlcState β} {e : β} {r : UlReportInfo} {sn : Nat}
  {parts : Option (Partial (List UlReportInfo))}

/-- There is no SDU that a field of the PDU might continue. -/
def Loose {γ : Type} (sn : Nat) (parts : Option (Partial γ)) : Prop :=
  ∀ p, parts = some p → continues sn amPduMapSduEnd p.sn = false

theorem loose_reassemble {γ : Type} (join : γ → γ → γ) (sn : Nat) (parts : Option (Partial γ))
    (data : γ) {status : RlcSduStatus}
    (h : status = amPduMapSduEnd ∨ status = amPduMapSduFull) :
    Loose sn (reassemble join sn parts status data).1 := by
  rcases h with rfl | rfl
  · cases parts with
    | none => simp [Loose, reassemble]
    | some p =>
        cases hc : continues sn amPduMapSduEnd p.sn with
        | true => simp [Loose, reassemble, hc]
        | false =>
            simp only [Loose, reassemble, hc]
            rintro q hq
            obtain rfl := Option.some.inj hq
            exact hc
  · simp [Loose, reassemble]

/-- Fields that deliver an SDU of their own or begin one do not need more. -/
theorem Loose.reported (h : Loose sn parts) (ht : Tracks s e parts) {dfe : AmdDfe β}
    (hst : dfe.status = amPduMapSduFull ∨ dfe.status = amPduMapSduStart) :
    Reported env s e sn dfe := by
  have hloose : (s.rxAmEntity e).rxRawSdu.rawSdu.pData.isSome →
      continues sn amPduMapSduEnd (s.rxAmEntity e).rxRawSdu.sn = false := by
    intro hsome
    rw [ht.isSome] at hsome
    obtain ⟨p, hp⟩ := Option.isSome_iff_exists.mp hsome
    rw [ht.sn p hp]
    exact h p hp
  refine ⟨fun _ => hloose, fun hend => ?_, fun _ hc => ?_⟩
  · rcases hst with hst | hst <;> simp [hst] at hend
  · rcases hst with hst | hst <;> simp [hst, continues] at hc

theorem Radio.of_only (h : Radio s e r) (ho : Only s t e) : Radio t e r := by
  unfold Radio macReport macGetUeContext at h ⊢
  rw [ho.rnti, ho.macUeContext, ho.gMacUeContext]
  exact h

/-- What the fields bring to the abstract reassembler. -/
def reportFields (r : UlReportInfo) (q : List (AmdDfe β)) :
    List (RlcSduStatus × List UlReportInfo) := q.map fun d => (d.status, [r])

/-- The list describes the fields of a queue. -/
def QueueReports (env : Platform β) (s : RlcState β) (e : β) (sn : Nat) (r : UlReportInfo)
    (parts : Option (Partial (List UlReportInfo))) (q : List (AmdDfe β)) : Prop :=
  Tracks (q.foldl (rlcReassembleAmdDfe env sn e) s) e
      (reassembleAll (· ++ ·) sn parts (reportFields r q)).1 ∧
    DeliversReports s (q.foldl (rlcReassembleAmdDfe env sn e) s)
      (reassembleAll (· ++ ·) sn parts (reportFields r q)).2

theorem queueReports_cons {dfe : AmdDfe β} {q : List (AmdDfe β)} (hr : Radio s e r)
    (ht : Tracks s e parts) (hb : dfe.buffer.pData.isSome) (hok : Reported env s e sn dfe)
    (hq : ∀ t, Radio t e r → Tracks t e (reassemble (· ++ ·) sn parts dfe.status [r]).1 →
      QueueReports env t e sn r (reassemble (· ++ ·) sn parts dfe.status [r]).1 q) :
    QueueReports env s e sn r parts (dfe :: q) := by
  obtain ⟨ht', hd⟩ := rlcReassembleAmdDfe_reports hr ht hb hok
  obtain ⟨htq, hdq⟩ :=
    hq _ (hr.of_only (rlcReassembleAmdDfe_works env sn e s dfe).only) ht'
  exact ⟨htq, hd.trans hdq⟩

theorem queueReports_nil (ht : Tracks s e parts) : QueueReports env s e sn r parts [] :=
  ⟨ht, .nil rfl⟩

/-- The fields after the first one. -/
theorem later_reports {fi : UInt8} {lis : List Nat} {q : List (AmdDfe β)}
    (hst : q.map AmdDfe.status = laterStatuses fi lis)
    (hq : ∀ d ∈ q, d.buffer.pData.isSome) (hr : Radio s e r) (ht : Tracks s e parts)
    (hl : Loose sn parts) : QueueReports env s e sn r parts q := by
  induction lis generalizing q s parts with
  | nil =>
      obtain ⟨dfe, rest, rfl, hd, hrest⟩ := List.map_eq_cons_iff.mp hst
      obtain rfl := List.map_eq_nil_iff.mp hrest
      have hok : Reported env s e sn dfe := hl.reported ht (by rw [hd]; exact lastStatus_or fi)
      exact queueReports_cons hr ht (hq dfe List.mem_cons_self) hok
        fun _ _ ht' => queueReports_nil ht'
  | cons li lis ih =>
      obtain ⟨dfe, rest, rfl, hd, hrest⟩ := List.map_eq_cons_iff.mp hst
      have hok : Reported env s e sn dfe := hl.reported ht (Or.inl hd)
      refine queueReports_cons hr ht (hq dfe List.mem_cons_self) hok fun t hr' ht' => ?_
      exact ih hrest (fun d hd' => hq d (List.mem_cons_of_mem _ hd')) hr' ht'
        (loose_reassemble _ sn parts [r] (Or.inr hd))

/-- **All fields of a PDU**: only the first one can meet an SDU that it might continue. -/
theorem queue_reports {q : List (AmdDfe β)} (hst : StatusesOk (q.map AmdDfe.status))
    (hq : ∀ d ∈ q, d.buffer.pData.isSome) (hr : Radio s e r) (ht : Tracks s e parts)
    (hok : ∀ d ∈ q.head?, Reported env s e sn d) : QueueReports env s e sn r parts q := by
  rcases hst with ⟨fi, hst⟩ | ⟨fi, lis, hst⟩
  · obtain ⟨dfe, rest, rfl, -, hrest⟩ := List.map_eq_cons_iff.mp hst
    obtain rfl := List.map_eq_nil_iff.mp hrest
    exact queueReports_cons hr ht (hq dfe List.mem_cons_self) (hok dfe rfl)
      fun _ _ ht' => queueReports_nil ht'
  · obtain ⟨dfe, rest, rfl, hd, hrest⟩ := List.map_eq_cons_iff.mp hst
    refine queueReports_cons hr ht (hq dfe List.mem_cons_self) (hok dfe rfl)
      fun t hr' ht' => ?_
    exact later_reports hrest (fun d hd' => hq d (List.mem_cons_of_mem _ hd')) hr' ht'
      (loose_reassemble _ sn parts [r] (by rw [hd]; exact firstStatus_or fi))

/-! ### The packet -/

theorem joinRaw_snd_congr (h : t.mem = s.mem) (raw : RlcAmRawSdu β) (dfe : AmdDfe β) :
    (joinRaw env t raw dfe).2 = (joinRaw env s raw dfe).2 := by
  unfold joinRaw
  rw [h]
  cases raw.rawSdu.pData with
  | none => rfl
  | some a =>
      cases dfe.buffer.pData with
      | none => rfl
      | some b =>
          simp only
          rcases s.mem.join env.toPolicy a b with ⟨m, _ | c⟩ <;> rfl

theorem Reported.setRing {dfe : AmdDfe β} (h : Reported env s e sn dfe) (k : Nat)
    (node : RingNode β) : Reported env (s.setRing e k node) e sn dfe := by
  have hraw : ((s.setRing e k node).rxAmEntity e).rxRawSdu = (s.rxAmEntity e).rxRawSdu := by
    simp [RlcState.setRing, RlcState.setEntity]
  have hrpt : ((s.setRing e k node).rxAmEntity e).ulRptInfoList
      = (s.rxAmEntity e).ulRptInfoList := by
    simp [RlcState.setRing, RlcState.setEntity]
  constructor
  · rw [hraw]
    exact h.first
  · rw [hraw, hrpt]
    exact h.last
  · rw [hraw, joinRaw_snd_congr (t := s.setRing e k node) (s := s) rfl]
    exact h.joined

theorem Radio.setRing (h : Radio s e r) (k : Nat) (node : RingNode β) :
    Radio (s.setRing e k node) e r := by
  unfold Radio at h ⊢
  rw [← h]
  simp [RlcState.setRing, RlcState.setEntity, macReport]

theorem Tracks.setRing (h : Tracks s e parts) (k : Nat) (node : RingNode β) :
    Tracks (s.setRing e k node) e parts :=
  h.congr (by simp [RlcState.setRing, RlcState.setEntity])
    (by simp [RlcState.setRing, RlcState.setEntity])

/-- The packet does not go wrong: the condition on its first field, when it is about to be
reassembled. -/
def PacketReported (env : Platform β) (s : RlcState β) (e : β) (h : AmdHeader)
    (info : RlcUlDataInfo β) : Prop :=
  ∀ d ∈ (pduFields env s h info).head?, Reported env (rlcNewAmdPdu env s h info).1 e h.sn d

/-- The ring is empty. -/
def RingFree (s : RlcState β) (e : β) : Prop :=
  ∀ k, (s.rxAmEntity e).amdPduRing k = ⟨.free, none⟩

theorem RingFree.setRing (h : RingFree s e) (k : Nat) (node : RingNode β) :
    RingFree ((s.setRing e k node).setRing e k ⟨.free, none⟩) e := by
  intro i
  simp only [RlcState.setRing, RlcState.setEntity, Function.update_self, Function.update_idem]
  by_cases hi : i = k
  · rw [hi, Function.update_self]
  · rw [Function.update_of_ne hi]
    exact h i

/-- **A packet of the entity.** -/
theorem rlcProcessAmdPdu_reports {h : AmdHeader} {info : RlcUlDataInfo β}
    (hb : info.rlcdataBuffer.isSome) (hring : RingFree s e) (hr : Radio s e r)
    (ht : Tracks s e parts) (hok : PacketReported env s e h info) :
    RingFree (rlcProcessAmdPdu env s e h info) e ∧
      Tracks (rlcProcessAmdPdu env s e h info) e
        (reassembleAll (· ++ ·) h.sn parts (reportFields r (pduFields env s h info))).1 ∧
      DeliversReports s (rlcProcessAmdPdu env s e h info)
        (reassembleAll (· ++ ·) h.sn parts (reportFields r (pduFields env s h info))).2 := by
  have hslot := hring (h.sn &&& 511)
  unfold rlcProcessAmdPdu PacketReported pduFields at *
  rw [if_pos (by rw [hslot]), rlcProcessNewAmdPdu_eq env h info (by rw [hslot])]
  cases hn : rlcNewAmdPdu env s h info with
  | mk t o =>
      obtain ⟨hw, hcomplete⟩ := rlcNewAmdPdu_memWorks hn
      have hent : t.rxAmEntity = s.rxAmEntity := by
        rw [hw.only]
        rfl
      have hinds : t.rlcUeDataInds = s.rlcUeDataInds := by
        rw [hw.only]
        rfl
      have htt : Tracks t e parts := ht.congr (by rw [hent]) (by rw [hent])
      have hringt : RingFree t e := by
        unfold RingFree
        rw [hent]
        exact hring
      cases o with
      | none => exact ⟨hringt, htt, .nil hinds⟩
      | some pdu =>
          obtain ⟨seg, q, hsegs, hsome, hst⟩ := rlcNewAmdPdu_statuses hb hn
          rw [hn] at hok
          simp only [Option.elim_some, hsegs, List.flatMap_cons, List.flatMap_nil,
            List.append_nil] at hok ⊢
          -- the state in which the fields are reassembled
          let v := (t.setRing e (h.sn &&& 511) ⟨.inUse, some pdu⟩).setRing e (h.sn &&& 511)
            ⟨.ready, some pdu⟩
          have hqueue : QueueReports env v e h.sn r parts q := by
            apply queue_reports hst hsome
            · exact ((hr.of_onlyMem hw.only).setRing _ _).setRing _ _
            · exact (htt.setRing _ _).setRing _ _
            · intro d hd
              exact ((hok d hd).setRing _ _).setRing _ _
          have hrec : rlcReassembleRlcSdu env
              (t.setRing e (h.sn &&& 511) ⟨.inUse, some pdu⟩) h.sn e
              = (((q.foldl (rlcReassembleAmdDfe env h.sn e) v).free seg).free pdu.addr).setRing e
                (h.sn &&& 511) ⟨.free, none⟩ := by
            rw [rlcReassembleRlcSdu_eq (by simp [RlcState.setRing, RlcState.setEntity])
              (hcomplete pdu rfl), hsegs]
            rfl
          have honly := (rlcReassembleAmdDfeQ_works env h.sn e q v).only
          have hringv : ((((q.foldl (rlcReassembleAmdDfe env h.sn e) v).free seg).free
              pdu.addr).rxAmEntity e).amdPduRing = (v.rxAmEntity e).amdPduRing := honly.ring
          obtain ⟨hqt, ⟨calls, hcalls, hmap⟩, hfit⟩ := hqueue
          have hqt' : Tracks (((q.foldl (rlcReassembleAmdDfe env h.sn e) v).free seg).free
              pdu.addr) e _ := hqt.congr rfl rfl
          rw [hrec]
          refine ⟨?_, hqt'.setRing _ _, ⟨calls, ?_, hmap⟩, hfit⟩
          · intro i
            have hclear := hringt.setRing (h.sn &&& 511) ⟨.ready, some pdu⟩ i
            simp only [RlcState.setRing, RlcState.setEntity, Function.update_self,
              Function.update_idem] at hclear hringv ⊢
            rw [hringv]
            simp only [v, RlcState.setRing, RlcState.setEntity, Function.update_self,
              Function.update_idem]
            exact hclear
          · exact hcalls.trans (congrArg (· ++ calls) hinds)

end Pdu

/-! ## Runs -/

/-- An entity so far: the fragments of its incomplete SDU, the reports that the delivered SDUs
should have, and their calls of `RlcUeDataInd`. -/
structure ReportHistory (β : Type) where
  parts : Option (Partial (List UlReportInfo))
  sent : List (List UlReportInfo)
  calls : List (SduInd β)

/-- The history of the entity after a packet with these fields and this report. -/
def ReportHistory.receive (H : ReportHistory β) (sn : Nat) (r : UlReportInfo) (q : List (AmdDfe β))
    (calls : List (SduInd β)) : ReportHistory β :=
  let rs := reassembleAll (· ++ ·) sn H.parts (reportFields r q)
  ⟨rs.1, H.sent ++ rs.2, H.calls ++ calls⟩

/-- The runs of an entity: it is created, and then come packets for it, which meet the
condition `P` when their entity has been found, and anything that leaves the entity alone.
There is a MAC context with each packet. -/
inductive ReportRun (env : Platform β) (e : β)
    (P : RlcState β → AmdHeader → RlcUlDataInfo β → Prop) : RlcState β → ReportHistory β → Prop
  | created {s : RlcState β} {rnti : UInt16} {lcId : Nat} :
      s.rxAmEntity e = .fresh rnti lcId → ReportRun env e P s ⟨none, [], []⟩
  | other {s t : RlcState β} {H : ReportHistory β} :
      ReportRun env e P s H → t.rxAmEntity e = s.rxAmEntity e → ReportRun env e P t H
  | packet {s t : RlcState β} {H : ReportHistory β} {info : RlcUlDataInfo β} {rnti : UInt16}
      {h : AmdHeader} {r : UlReportInfo} :
      rlcFindEntity env s info rnti = (t, some (e, h)) → ReportRun env e P t H → Radio t e r →
      P t h info →
      ReportRun env e P (rlcProcessAmRxPacket env s info rnti)
        (H.receive h.sn r (pduFields env t h info)
          ((rlcProcessAmRxPacket env s info rnti).rlcUeDataInds.drop t.rlcUeDataInds.length))

/-- **The reports**: each SDU was delivered with those of its own fragments, and the list
holds those of the incomplete SDU that fit. -/
structure Described (s : RlcState β) (e : β) (H : ReportHistory β) : Prop where
  delivered : H.calls.map SduInd.ulRptInfo = H.sent.map cappedReports
  kept : reportsOf s e = H.parts.elim [] fun p => p.data.take maxRlcSegmentsNum

section Runs

variable {s t : RlcState β} {e : β} {H : ReportHistory β}

/-- The packet that comes next. -/
theorem rlcFindEntity_data {info : RlcUlDataInfo β} {rnti : UInt16} {h : AmdHeader}
    (hf : rlcFindEntity env s info rnti = (t, some (e, h))) : info.rlcdataBuffer.isSome := by
  unfold rlcFindEntity at hf
  split at hf
  · simp at hf
  · cases hb : info.rlcdataBuffer with
    | none => simp [hb] at hf
    | some b => rfl

/-- **Runs**: the history and the entity go together. -/
theorem run_tracks (hrun : ReportRun env e (fun s h info => PacketReported env s e h info) s H) :
    RingFree s e ∧ Tracks s e H.parts ∧ H.calls.map SduInd.ulRptInfo = H.sent ∧
      ∀ l ∈ H.sent, l.length ≤ maxRlcSegmentsNum := by
  induction hrun with
  | @created s rnti lcId hfresh =>
      refine ⟨fun k => by rw [hfresh]; rfl, ⟨by rw [hfresh]; rfl, by simp, ?_⟩, rfl, by simp⟩
      unfold reportsOf
      rw [hfresh]
      rfl
  | @other s t H hrun he ih =>
      obtain ⟨hring, ht, hcalls⟩ := ih
      exact ⟨fun k => by rw [he]; exact hring k, ht.congr (by rw [he]) (by rw [he]), hcalls⟩
  | @packet s t H info rnti h r hf hrun hr hok ih =>
      obtain ⟨hring, ht, hcalls, hfit⟩ := ih
      have hpdu : rlcProcessAmRxPacket env s info rnti = rlcProcessAmdPdu env t e h info := by
        rw [rlcProcessAmRxPacket_findEntity, hf]
      obtain ⟨hring', ht', ⟨calls, hinds, hmap⟩, hfit'⟩ :=
        rlcProcessAmdPdu_reports (rlcFindEntity_data hf) hring hr ht hok
      rw [hpdu]
      refine ⟨hring', ht', ?_, ?_⟩
      · simp only [ReportHistory.receive, hinds, List.drop_left, List.map_append, hcalls, hmap]
      · intro l hl
        rcases List.mem_append.mp hl with hl | hl
        · exact hfit l hl
        · exact hfit' l hl

/-- **The list describes the SDU**, in every run in which no first fragment replaces an SDU
that it might have continued, no last one comes when the list is full, and no join is
refused. -/
theorem run_described (env : Platform β) (e : β) (s : RlcState β) (H : ReportHistory β)
    (hrun : ReportRun env e (fun s h info => PacketReported env s e h info) s H) :
    Described s e H := by
  obtain ⟨-, ht, hcalls, hfit⟩ := run_tracks hrun
  refine ⟨?_, ht.reports⟩
  rw [hcalls]
  conv_lhs => rw [← List.map_id H.sent]
  apply List.map_congr_left
  intro l hl
  rw [cappedReports, if_pos (hfit l hl)]
  rfl

end Runs

/-! ### Two runs -/

/-- A context for the RNTI 61 in each layer, with an entity for SRB 1 at 2. -/
def entityState : RlcState Nat where
  toRrcState := { freshState with mem := { freshState.mem with inUse := {1, 2, 3} } }
  macUeContext _ := default
  gMacUeContext := [3]
  rlcUeContext _ := ⟨0, false, 61, fun lcId => if lcId = 1 then some 2 else none⟩
  gRlcUeContextList := [1]
  rxAmEntity _ := .fresh 61 1
  rlcUeDataInds := []
  refusedJoins := 0
  pendingDeletions := 0

/-- The report of a PDU on `rbNum` resource blocks. -/
def reportOn (rbNum : UInt8) : UlReportInfo := ⟨rbNum, 0, 0⟩

/-- A packet has come in the block `b`, on `rbNum` resource blocks. -/
def pduArrived (s : RlcState Nat) (b : Nat) (packet : List UInt8) (rbNum : UInt8) : RlcState Nat :=
  { s.onMem fun m =>
      { m with
        inUse := b ::ₘ m.inUse
        length := Function.update m.length b packet.length
        bytes := Function.update m.bytes b fun k => packet.getD k 0 } with
    macUeContext := fun _ => ⟨0, 61, rbNum, false, 0, 0⟩ }

/-- The state after the packet. -/
def afterPdu (s : RlcState Nat) (b : Nat) (packet : List UInt8) (rbNum : UInt8) :
    RlcState Nat :=
  rlcProcessAmRxPacket freshPlatform (pduArrived s b packet rbNum) ⟨1, packet.length, some b⟩ 61

/-- The state in which the packet meets its entity. -/
def atEntity (s : RlcState Nat) (b : Nat) (packet : List UInt8) (rbNum : UInt8) : RlcState Nat :=
  (rlcFindEntity freshPlatform (pduArrived s b packet rbNum) ⟨1, packet.length, some b⟩ 61).1

/-- The history with the packet. -/
def withPdu (H : ReportHistory Nat) (s : RlcState Nat) (b : Nat) (packet : List UInt8)
    (rbNum : UInt8) (h : AmdHeader) : ReportHistory Nat :=
  H.receive h.sn (reportOn rbNum)
    (pduFields freshPlatform (atEntity s b packet rbNum) h ⟨1, packet.length, some b⟩)
    ((afterPdu s b packet rbNum).rlcUeDataInds.drop
      (atEntity s b packet rbNum).rlcUeDataInds.length)

/-- A packet for the entity, as a step of a run. -/
theorem ReportRun.arrived {P : RlcState Nat → AmdHeader → RlcUlDataInfo Nat → Prop}
    {s : RlcState Nat} {H : ReportHistory Nat} (hrun : ReportRun freshPlatform 2 P s H) (b : Nat)
    (packet : List UInt8) (rbNum : UInt8) (h : AmdHeader)
    (hf : (rlcFindEntity freshPlatform (pduArrived s b packet rbNum)
      ⟨1, packet.length, some b⟩ 61).2 = some (2, h))
    (he : (atEntity s b packet rbNum).rxAmEntity 2 = s.rxAmEntity 2)
    (hr : macReport (atEntity s b packet rbNum)
      ((atEntity s b packet rbNum).rxAmEntity 2).rnti = some (reportOn rbNum))
    (hP : P (atEntity s b packet rbNum) h ⟨1, packet.length, some b⟩) :
    ReportRun freshPlatform 2 P (afterPdu s b packet rbNum) (withPdu H s b packet rbNum h) :=
  .packet (Prod.ext rfl hf) (hrun.other he) hr hP

/-- Two first fragments with successive numbers, and a last one for each. -/
def first0 : List UInt8 := [0x88, 0, 0xaa]
def first1 : List UInt8 := [0x88, 1, 0xbb]
def last1 : List UInt8 := [0x90, 1, 0xcc]
def last2 : List UInt8 := [0x90, 2, 0xcc]

instance (s : RlcState Nat) (sn : Nat) (dfe : AmdDfe Nat) :
    Decidable (Reported freshPlatform s 2 sn dfe) :=
  decidable_of_iff
    ((dfe.status = amPduMapSduStart → (s.rxAmEntity 2).rxRawSdu.rawSdu.pData.isSome →
        continues sn amPduMapSduEnd (s.rxAmEntity 2).rxRawSdu.sn = false) ∧
      (dfe.status = amPduMapSduEnd → (s.rxAmEntity 2).rxRawSdu.rawSdu.pData.isSome →
        continues sn amPduMapSduEnd (s.rxAmEntity 2).rxRawSdu.sn = true →
          (s.rxAmEntity 2).ulRptInfoList.count < maxRlcSegmentsNum) ∧
      ((s.rxAmEntity 2).rxRawSdu.rawSdu.pData.isSome →
        continues sn dfe.status (s.rxAmEntity 2).rxRawSdu.sn = true →
          (joinRaw freshPlatform s (s.rxAmEntity 2).rxRawSdu dfe).2.isSome))
    ⟨fun ⟨h1, h2, h3⟩ => ⟨h1, h2, h3⟩, fun h => ⟨h.first, h.last, h.joined⟩⟩

instance (s : RlcState Nat) (h : AmdHeader) (info : RlcUlDataInfo Nat) :
    Decidable (PacketReported freshPlatform s 2 h info) :=
  inferInstanceAs (Decidable (∀ d ∈ (pduFields freshPlatform s h info).head?, _))

/-- An SDU of two fragments is delivered with two reports. -/
theorem run_described_twoFragments :
    ∃ s H, Described s 2 H ∧ H.sent = [[reportOn 1, reportOn 2]] := by
  have h0 : ReportRun freshPlatform 2 (fun s h info => PacketReported freshPlatform s 2 h info)
      entityState ⟨none, [], []⟩ := .created rfl
  have h1 := h0.arrived 10 first0 1 ⟨1, 0, 0, 1, 0, 0, 0, 0⟩
    (by decide +kernel) rfl (by decide +kernel) (by decide +kernel)
  have h2 := h1.arrived 20 last1 2 ⟨1, 0, 0, 2, 0, 1, 0, 0⟩
    (by decide +kernel) rfl (by decide +kernel) (by decide +kernel)
  exact ⟨_, _, run_described freshPlatform 2 _ _ h2, by decide +kernel⟩

/-- The fragment that is replaced leaves its report behind. -/
theorem reports_replacedFirst :
    ¬ ∀ (s : RlcState Nat) (H : ReportHistory Nat),
      ReportRun freshPlatform 2 (fun _ _ _ => True) s H → Described s 2 H := by
  intro hall
  have h0 : ReportRun freshPlatform 2 (fun _ _ _ => True) entityState ⟨none, [], []⟩ :=
    .created rfl
  have h1 := h0.arrived 10 first0 1 ⟨1, 0, 0, 1, 0, 0, 0, 0⟩
    (by decide +kernel) rfl (by decide +kernel) trivial
  have h2 := h1.arrived 20 first1 2 ⟨1, 0, 0, 1, 0, 1, 0, 0⟩
    (by decide +kernel) rfl (by decide +kernel) trivial
  have h3 := h2.arrived 30 last2 3 ⟨1, 0, 0, 2, 0, 2, 0, 0⟩
    (by decide +kernel) rfl (by decide +kernel) trivial
  exact absurd (hall _ _ h3).delivered (by decide +kernel)

end LteUlp.Rlc
