import LteUlp.Mac.Bounds
import LteUlp.Mac.RoundTrip
import LteUlp.Worker.Announcements
import LteUlp.Worker.PhyBounds

set_option autoImplicit false
set_option linter.unusedSectionVars false

/-! # From the indication to the report

A message that is sent in a MAC PDU, in an indication of the PHY, is followed through all
layers. The indication may hold other PDUs of any contents, and any events come before and
after. If no allocation is refused, the identity in the message is reported or carried in every
later state (`connectionRequest_known`).
-/

namespace LteUlp.Worker

open BitString ByteString BlockStore LteUlp.Nas LteUlp.Rrc LteUlp.Pdcp LteUlp.Rlc LteUlp.Mac

variable {β : Type} [DecidableEq β]

/-! ## What is known -/

/-- The identity is in a report, or in a context of the UE. -/
def Known (s : UlState β) (reported : List UeIdentity) (r : UInt16) (x : Collected) : Prop :=
  (∃ id ∈ reported, id.rnti = r ∧ x.heldBy id = true) ∨
    ∃ a ∈ s.gRrcUeContextList ++ s.gReadyRrcUeContextList,
      (s.rrcUeContext a).rnti = r ∧ x.heldBy (s.rrcUeContext a).ueIdentity = true

/-- The identity is known if it is counted. -/
theorem known_iff (s : UlState β) (reported : List UeIdentity) (r : UInt16) (x : Collected) :
    Known s reported r x ↔ 1 ≤ reported.countP (reports r x) + tally r x s.toRrcState := by
  have htally : tally r x s.toRrcState
      = ((s.gRrcUeContextList ++ s.gReadyRrcUeContextList).map s.rrcUeContext).countP
        (carries r x) := by
    unfold tally
    rw [List.map_append, List.countP_append]
  have hreported : (∃ id ∈ reported, id.rnti = r ∧ x.heldBy id = true)
      ↔ 0 < reported.countP (reports r x) := by
    rw [List.countP_pos_iff]
    simp [reports]
  have hcarried : (∃ a ∈ s.gRrcUeContextList ++ s.gReadyRrcUeContextList,
      (s.rrcUeContext a).rnti = r ∧ x.heldBy (s.rrcUeContext a).ueIdentity = true)
      ↔ 0 < tally r x s.toRrcState := by
    rw [htally, List.countP_map, List.countP_pos_iff]
    simp [carries]
  unfold Known
  rw [hreported, hcarried]
  omega

section Known

variable {env : MacPlatform β} {r : UInt16} {x : Collected} {s t u : UlState β}
variable {events : List UlEvent} {reported : List UeIdentity}

/-- **What is carried stays known.** -/
theorem known_of_tally (hs : UlGathered s.toRlcState) (h : ReportRun env s events reported t)
    (hx : 1 ≤ tally r x s.toRrcState) : Known t reported r x := by
  obtain ⟨-, hb⟩ := run_balanced h hs (r := r) (x := x)
  exact (known_iff t reported r x).mpr (hx.trans hb.tally)

/-- **What an indication tells is known ever after.** -/
theorem known_of_tells (hs : UlGathered s.toRlcState) {fuel : Nat}
    {pBuffer : Option (Nat → UInt8)} {length : UInt16}
    (hind : macProcessPhyDataInd env fuel s pBuffer length = some t)
    (hf : t.mem.failures = s.mem.failures)
    (htells : IndicationTells env fuel s pBuffer length r x)
    (h : ReportRun env t events reported u) : Known u reported r x := by
  obtain ⟨ht, -, htold⟩ := (macProcessPhyDataInd_retains hind).balanced hf hs
  exact known_of_tally ht h (htold htells)

end Known

/-! ## Nothing is made up -/

/-- One of the messages or SDUs that were passed on is of the UE, and its bytes tell the
identity, whatever follows them in memory. -/
def ToldBy (env : Platform β) (s : UlState β) (r : UInt16) (x : Collected) : Prop :=
  (∃ ind ∈ s.rlcUeDataInds, ind.rnti = r ∧ Tells env ind.lcId ind.data x) ∨
    ∃ ind ∈ s.macUeCcchDataInds, ind.rnti = r ∧ CcchTells env ind.data x

/-- What the messages and SDUs of the UE tell, they tell whatever follows them in memory. A
message is not self-contained if a decoder reads on behind its end. -/
structure SelfContained (env : Platform β) (s : UlState β) (r : UInt16) : Prop where
  sdus : ∀ ind ∈ s.rlcUeDataInds, ind.rnti = r →
    ∀ x, MayTell env ind.lcId ind.data x → Tells env ind.lcId ind.data x
  ccch : ∀ ind ∈ s.macUeCcchDataInds, ind.rnti = r →
    ∀ x, CcchMayTell env ind.data x → CcchTells env ind.data x

section Told

variable {env : Platform β} {r : UInt16} {x : Collected} {s : UlState β}

theorem PassedOn.toldBy (h : PassedOn env s r x) (hs : SelfContained env s r) :
    ToldBy env s r x := by
  rcases h with ⟨ind, hind, hr, hmay⟩ | ⟨ind, hind, hr, hmay⟩
  · exact Or.inl ⟨ind, hind, hr, hs.sdus ind hind hr x hmay⟩
  · exact Or.inr ⟨ind, hind, hr, hs.ccch ind hind hr x hmay⟩

/-- A connection request is self-contained. -/
theorem connectionRequest_selfContained (m : ConnectionRequest)
    (h : CcchMayTell env (packBytes (encodeConnectionRequest m)) x) :
    CcchTells env (packBytes (encodeConnectionRequest m)) x := by
  rw [connectionRequest_mayTell env m h]
  exact connectionRequest_tells env m

end Told

/-- The PDU `k` of the indication is for the UE, has a correct CRC, and these are its bytes. -/
structure PduSent (data : Nat → UInt8) (length : UInt16) (k : Nat) (rnti : UInt16)
    (bytes : List UInt8) : Prop where
  message : phyField data 14 2 = rxUlSchIndication
  announced : k < (data (phyHlMsgHeadSize + 3)).toNat
  whole : headOffset data k + rxUlSchIndHeadPduSize ≤ length.toNat
  crcFlag : (headAt data k).crcFlag = 1
  rnti : (headAt data k).rnti = rnti
  size : (pduAt data k).length = bytes.length
  reads : Reads data (pduAt data k).buffer bytes

section Indication

variable {env : MacPlatform β} {r rnti : UInt16} {x : Collected} {s t u v : UlState β}
variable {data : Nat → UInt8} {length tempLen : UInt16} {fuel i k left : Nat}
variable {bytes : List UInt8}

/-- The loop comes to the PDU. -/
theorem pdusTell_sent (hsent : PduSent data length k rnti bytes)
    (hpdu : ∀ (u v : UlState β) (tempLen : UInt16), UlGathered u.toRlcState →
      tempLen.toNat = (pduAt data k).buffer →
        macProcessPdu env fuel u data (headAt data k) tempLen = some v →
          v.mem.failures = u.mem.failures →
            PhyPduTells env fuel u data (headAt data k) tempLen r x)
    (hs : UlGathered s.toRlcState)
    (hrun : macProcessPdus env fuel data length left tempLen s = some t)
    (hf : t.mem.failures = s.mem.failures) (hat : tempLen.toNat = headOffset data i)
    (hleft : i + left = (data (phyHlMsgHeadSize + 3)).toNat) (hik : i ≤ k) :
    PdusTell env fuel data length r x left tempLen s := by
  have hwhole := hsent.whole
  have hlength := length.toNat_lt
  induction left generalizing s tempLen i with
  | zero =>
      have := hsent.announced
      omega
  | succ left ih =>
      -- the header is whole, whether the PDU is the one or comes before it
      have hhead : headOffset data i + rxUlSchIndHeadPduSize ≤ length.toNat := by
        rcases Nat.lt_or_eq_of_le hik with hlt | rfl
        · have := headOffset_lt data hlt
          omega
        · exact hwhole
      have hbegins : tempLen < length := by
        rw [UInt16.lt_iff_toNat_lt, hat]
        unfold rxUlSchIndHeadPduSize at hhead
        omega
      have hstart := pduStart_toNat hat (lt_of_le_of_lt hhead hlength)
      have hroom : ¬tempLen + UInt16.ofNat rxUlSchIndHeadPduSize > length := by
        rw [gt_iff_lt, UInt16.lt_iff_toNat_lt, hstart]
        exact Nat.not_lt.mpr hhead
      rw [macProcessPdus, if_pos hbegins] at hrun
      simp only at hrun
      rw [if_neg hroom] at hrun
      obtain ⟨w, hw, hrest⟩ := Option.bind_eq_some_iff.mp hrun
      have hheadAt : rxUlSchIndHeadPdu data tempLen.toNat = headAt data i := by
        rw [hat]
        rfl
      rw [hheadAt] at hw hrest
      have hle1 := (macProcessPdu_receives hw).failures
      have hle2 := (macProcessPdus_receives hrest).failures
      have hfw : w.mem.failures = s.mem.failures := by omega
      refine ⟨hbegins, hroom, ?_⟩
      rw [hheadAt]
      rcases Nat.lt_or_eq_of_le hik with hlt | rfl
      · right
        obtain ⟨hgw, -, -⟩ := (macProcessPdu_retains hw (r := r) (x := x)).balanced hfw hs
        have hnext : headOffset data (i + 1) ≤ headOffset data k := by
          rcases Nat.lt_or_eq_of_le (show i + 1 ≤ k from hlt) with h | h
          · exact (Nat.le_add_right _ _).trans (headOffset_lt data h)
          · exact (congrArg (headOffset data) h).le
        have hwidth : headOffset data (i + 1) < 2 ^ 16 := by omega
        exact ⟨w, hw, ih hgw hrest (by omega) (nextHead_toNat hstart hwidth) (by omega)
          (Nat.succ_le_of_lt hlt)⟩
      · left
        exact hpdu s w _ hs hstart hw hfw

/-- **The indication tells what the PDU tells.** -/
theorem indicationTells_sent (hsent : PduSent data length k rnti bytes)
    (hpdu : ∀ (u v : UlState β) (tempLen : UInt16), UlGathered u.toRlcState →
      tempLen.toNat = (pduAt data k).buffer →
        macProcessPdu env fuel u data (headAt data k) tempLen = some v →
          v.mem.failures = u.mem.failures →
            PhyPduTells env fuel u data (headAt data k) tempLen r x)
    (hs : UlGathered s.toRlcState)
    (hrun : macProcessPhyDataInd env fuel s (some data) length = some t)
    (hf : t.mem.failures = s.mem.failures) :
    IndicationTells env fuel s (some data) length r x := by
  refine ⟨data, rfl, hsent.message, ?_⟩
  unfold macProcessPhyDataInd at hrun
  simp only at hrun
  rw [if_pos hsent.message] at hrun
  exact pdusTell_sent hsent hpdu hs hrun hf rfl (Nat.zero_add _) (Nat.zero_le k)

/-! ## MAC PDUs -/

/-- What the decoder finds in a PDU, whatever the fuel is that it ends with. -/
theorem macLoop_macPdu (p : MacPdu) {m : Nat → UInt8} (hm : Reads m 0 p.bytes) {st : Decode}
    (h : macLoop m fuel (Decode.start p.bytes.length) = some st) :
    st.successDecodeFlag = true ∧ st.pData = p.header.length ∧
      st.demuxData = p.elements.map MacElement.entry := by
  have hmore := macLoop_mono h (Nat.le_max_left fuel p.heads.length)
  obtain ⟨st', hrun, hrest⟩ := macLoop_decodes p hm (Nat.le_max_right fuel p.heads.length)
  rw [hmore] at hrun
  obtain rfl := Option.some.inj hrun
  exact hrest

/-- **A PDU that was sent tells what its elements tell.** -/
theorem phyPduTells_sent (p : MacPdu) (hsent : PduSent data length k rnti p.bytes)
    (helements : ∀ (u : UlState β) (m : Nat → UInt8), UlGathered u.toRlcState →
      Reads m 0 p.bytes →
        (macDeMultiplexAndSend env u m p.header.length rnti
          (p.elements.map MacElement.entry)).mem.failures = u.mem.failures →
          ElementsTell env u m p.header.length rnti (p.elements.map MacElement.entry) r x)
    (hs : UlGathered s.toRlcState) (hat : tempLen.toNat = (pduAt data k).buffer)
    (hrun : macProcessPdu env fuel s data (headAt data k) tempLen = some t)
    (hf : t.mem.failures = s.mem.failures) :
    PhyPduTells env fuel s data (headAt data k) tempLen r x := by
  refine ⟨hsent.crcFlag, ?_⟩
  unfold macProcessPdu at hrun
  rw [if_pos hsent.crcFlag] at hrun
  simp only at hrun
  have hsize : (((headAt data k).bitLen + 7) >>> 3).toUInt16.toNat = p.bytes.length := hsent.size
  have hm : Reads (fun i => data (tempLen.toNat + i)) 0 p.bytes := by
    intro i hi
    show data (tempLen.toNat + (0 + i)) = _
    rw [zero_add, hat]
    exact hsent.reads i hi
  -- the radio values are recorded first
  have hrecord : Retains env.toPlatform r x s (macRecordPdu env (s.countKpi fun kpi =>
      { kpi with crcCorrect := kpi.crcCorrect + 1 }) (headAt data k)) 0 0 False :=
    (countKpi_retains env.toPlatform s _ 0).after_quiet (macRecordPdu_retains env _ _)
  generalize macRecordPdu env (s.countKpi fun kpi =>
      { kpi with crcCorrect := kpi.crcCorrect + 1 }) (headAt data k) = u at hrun hrecord ⊢
  have hle1 := hrecord.failures
  have hle2 := (macProcessUlSchPdu_retains hrun (r := r) (x := x)).failures
  have hfu : u.mem.failures = s.mem.failures := by omega
  obtain ⟨hu, -, -⟩ := hrecord.balanced hfu hs
  have hne : p.bytes.length ≠ 0 := by
    have hlen := p.length_bytes
    have hsize := p.ending_size
    omega
  rw [hsize, hsent.rnti] at hrun ⊢
  unfold macProcessUlSchPdu at hrun
  rw [if_neg hne] at hrun
  obtain ⟨st, hst, rfl⟩ := Option.map_eq_some_iff.mp hrun
  obtain ⟨hok, hptr, hdemux⟩ := macLoop_macPdu p hm hst
  rw [if_pos hok, hptr, hdemux] at hf
  refine ⟨hne, st, hst, hok, ?_⟩
  rw [hptr, hdemux]
  exact helements u _ hu hm (hf.trans hfu.symm)

/-! ## The common channel -/

/-- The entries of the table are taken from one place after the other. -/
theorem macDemuxEntry_dataPtr (m : Nat → UInt8) (rnti : UInt16)
    (st : UlState β × Option (RlcUlData β) × Nat) (y : MacElement) :
    (macDemuxEntry env m rnti st y.entry).2.2 = st.2.2 + y.data.length := by
  obtain ⟨u, rlcData, dataPtr⟩ := st
  by_cases hch : y.lcId ≤ macLcid10
  · unfold macDemuxEntry
    simp only
    split
    · rfl
    · rw [if_pos (show y.entry.lchId ≤ macLcid10 from hch)]
      rfl
  · rw [macDemuxEntry_ce m rnti u rlcData dataPtr hch]

/-- A message of the common channel is found where the elements before it end. -/
theorem entriesTell_ccch {l : List MacElement} {m : Nat → UInt8} {y : MacElement}
    {st : UlState β × Option (RlcUlData β) × Nat}
    (hm : Reads m st.2.2 (l.flatMap MacElement.data)) (hy : y ∈ l) (hch : y.lcId = macUlCcchLch)
    (htells : CcchTells env.toPlatform y.data x) :
    EntriesTell env m rnti rnti x st (l.map MacElement.entry) := by
  induction l generalizing st with
  | nil => cases hy
  | cons z l ih =>
      rw [List.flatMap_cons] at hm
      rcases List.mem_cons.mp hy with rfl | hy
      · left
        refine ⟨hch, rfl, ?_⟩
        have hdata := hm.left.map_range
        rwa [show y.entry.length = y.data.length from rfl, hdata]
      · right
        refine ih ?_ hy
        rw [macDemuxEntry_dataPtr]
        exact hm.right

theorem elementsTell_ccch (p : MacPdu) {m : Nat → UInt8} {y : MacElement}
    (hm : Reads m 0 p.bytes) (hy : y ∈ p.elements) (hch : y.lcId = macUlCcchLch)
    (htells : CcchTells env.toPlatform y.data x)
    (hf : (macDeMultiplexAndSend env s m p.header.length rnti
      (p.elements.map MacElement.entry)).mem.failures = s.mem.failures) :
    ElementsTell env s m p.header.length rnti (p.elements.map MacElement.entry) rnti x := by
  cases ha : s.alloc env (env.sizeof .macUeDataInd) with
  | mk u o =>
      cases o with
      | none =>
          unfold macDeMultiplexAndSend at hf
          rw [ha] at hf
          obtain ⟨b, hb, -⟩ := ulAlloc_some ha hf
          cases hb
      | some addr =>
          exact ⟨u, addr, ha, Or.inl (entriesTell_ccch (p.elements_read hm) hy hch htells)⟩

end Indication

/-- **A connection request arrives.** -/
theorem connectionRequest_known (env : MacPlatform β) {s t u : UlState β}
    {before after : List UlEvent} {earlier reported : List UeIdentity} {s₀ : UlState β}
    (hs : UlInitial s₀) (hbefore : ReportRun env s₀ before earlier s)
    {data : Nat → UInt8} {length : UInt16} {fuel k : Nat} {rnti : UInt16} {p : MacPdu}
    {y : MacElement} {m : ConnectionRequest}
    (hsent : PduSent data length k rnti p.bytes) (hy : y ∈ p.elements)
    (hch : y.lcId = macUlCcchLch) (hdata : y.data = packBytes (encodeConnectionRequest m))
    (hind : macProcessPhyDataInd env fuel s (some data) length = some t)
    (hf : t.mem.failures = s.mem.failures) (hafter : ReportRun env t after reported u) :
    Known u reported rnti (.mTmsi m.mTmsi) := by
  obtain ⟨hgathered, -⟩ := run_balanced hbefore (initial_gathered hs) (r := rnti)
    (x := .mTmsi m.mTmsi)
  refine known_of_tells hgathered hind hf ?_ hafter
  refine indicationTells_sent hsent ?_ hgathered hind hf
  intro v w tempLen hv hat hrun hfail
  refine phyPduTells_sent p hsent ?_ hv hat hrun hfail
  intro v m' _ hm hfail
  refine elementsTell_ccch p hm hy hch ?_ hfail
  rw [hdata]
  exact connectionRequest_tells env.toPlatform m

/-! ### A connection request among other PDUs -/

/-- The bytes of an indication with two PDUs for the RNTI 61, the first of at most 8 bytes. -/
def twoPdus (first second : List UInt8) (k : Nat) : UInt8 :=
  if k = 35 then 2 else if k < 72 then indicationOf first k else indicationOf second (k - 36)

/-- A connection request of the S-TMSI `0xc0ffee01`. -/
def requestElement : MacElement := ⟨macUlCcchLch, [0x41, 0x2c, 0x0f, 0xfe, 0xe0, 0x16], by decide⟩

/-- A PDU with a buffer status report, the connection request and padding. -/
def requestPdu : MacPdu where
  lead := 0
  body := [⟨macSBsrLch, [0x12], by decide⟩, requestElement]
  ending := .padding [0, 0]
  lead_le := by decide
  elements_le := by decide
  fields := by decide
  bytes_le := by decide

/-- The indication, with another PDU in front. -/
def requestIndication : UlEvent := .phyDataInd (some (twoPdus wholeSdu requestPdu.bytes)) 116

def beforeRequest : List UlEvent := [.phyDataInd (some (indicationOf wholeSdu)) 72, .cleanup 10]

/-- A report pass that takes contexts which have been idle for a pass. -/
def reportIdle : UlEvent := .report ⟨1, 10, fun _ => UeIdentity.zero⟩

def afterRequest : List UlEvent := [reportIdle, .cleanup 10, reportIdle]

def requestBefore : Option (UlState Nat × List UeIdentity) :=
  ulReports freshMacPlatform 8 freshUlState beforeRequest

theorem requestBefore_isSome : requestBefore.isSome := by decide +kernel

/-- The state in which the indication arrives. -/
def stateBeforeRequest : UlState Nat := (requestBefore.get requestBefore_isSome).1

def requestDone : Option (UlState Nat) :=
  ulNext freshMacPlatform 8 stateBeforeRequest requestIndication

theorem requestDone_isSome : requestDone.isSome := by decide +kernel

def requestAfter : Option (UlState Nat × List UeIdentity) :=
  ulReports freshMacPlatform 8 (requestDone.get requestDone_isSome) afterRequest

theorem requestAfter_isSome : requestAfter.isSome := by decide +kernel

theorem request_before : ReportRun freshMacPlatform freshUlState beforeRequest
    (requestBefore.get requestBefore_isSome).2 stateBeforeRequest :=
  ulReports_run .start (Option.some_get requestBefore_isSome).symm

theorem request_step :
    UlStep freshMacPlatform stateBeforeRequest requestIndication (requestDone.get requestDone_isSome) :=
  ulNext_step (Option.some_get requestDone_isSome).symm

theorem request_after : ReportRun freshMacPlatform (requestDone.get requestDone_isSome)
    afterRequest (requestAfter.get requestAfter_isSome).2
    (requestAfter.get requestAfter_isSome).1 :=
  ulReports_run .start (Option.some_get requestAfter_isSome).symm

theorem request_refusesNothing :
    (requestDone.get requestDone_isSome).mem.failures = stateBeforeRequest.mem.failures := by
  decide +kernel

theorem request_sent :
    PduSent (twoPdus wholeSdu requestPdu.bytes) 116 1 61 requestPdu.bytes := by
  refine ⟨by decide, by decide, by decide, by decide, by decide, by decide, ?_⟩
  unfold Reads
  decide

/-- The S-TMSI has been reported when no context holds it any more. -/
theorem connectionRequest_known_sample :
    (requestAfter.get requestAfter_isSome).1.gRrcUeContextList = [] ∧
      Known (requestAfter.get requestAfter_isSome).1 (requestAfter.get requestAfter_isSome).2 61
        (.mTmsi 0xc0ffee01) := by
  obtain ⟨fuel, hstep⟩ := request_step
  refine ⟨by decide +kernel, ?_⟩
  exact connectionRequest_known freshMacPlatform freshUlState_initial request_before request_sent
    (y := requestElement) (m := ⟨0x12, 0xc0ffee01, 3⟩) (by simp [MacLayout.elements, requestPdu]) rfl
    (by decide) hstep request_refusesNothing request_after

/-- What was passed on in this run. -/
theorem request_passedOn :
    (∀ ind ∈ (requestAfter.get requestAfter_isSome).1.rlcUeDataInds,
      ind.lcId = 1 ∧ ind.data = [0xff, 0xff, 0xff, 0xff]) ∧
    ∀ ind ∈ (requestAfter.get requestAfter_isSome).1.macUeCcchDataInds,
      ind.data = requestElement.data := by
  decide +kernel

end LteUlp.Worker
