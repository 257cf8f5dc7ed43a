import LteUlp.Mac.RoundTrip
import LteUlp.Rlc.Channels
import LteUlp.Worker.Retention

set_option autoImplicit false
set_option linter.unusedSectionVars false

/-! # What a UE sends to RLC

`Serves env rnti lcId s t xs ys pdus` says what a part of the uplink path does for one channel:
of all PDUs that are received, for whatever UE, only `pdus` are for this channel. They go
through the abstract reassembler, and what it delivers is delivered, and tells what it tells.
Everything else leaves the channel alone.
-/

namespace LteUlp.Worker

open BlockStore ByteString LteUlp.Rrc LteUlp.Pdcp LteUlp.Rlc LteUlp.Mac RlcSduStatus

variable {β : Type} [DecidableEq β]

/-! ## What is delivered is told -/

section Told

variable {env : Platform β} {s : RlcState β} {e b : β} {sn n lcId : Nat} {rnti : UInt16}
variable {dfe : AmdDfe β} {xs : Multiset β} {sdu : List UInt8} {x : Collected} {h : AmdHeader}

/-- A field that completes an SDU tells what the SDU tells. -/
theorem fieldTells_of_delivered (hu : InHand s e (dfe.blocks + xs)) (hraw : RawExact s e)
    (hd : dfe.Sound s.mem)
    (hf : (rlcReassembleAmdDfe env sn e s dfe).mem.failures = s.mem.failures)
    (hshort : dfe.status = amPduMapSduEnd → ∀ p ∈ rawBytes s e, ∀ b, dfe.buffer.pData = some b →
      p.data.length + s.mem.length b < 2 ^ 16)
    (hsdu : (reassemble (· ++ ·) sn (rawBytes s e) dfe.status (dfe.buffer.bytes s.mem)).2
      = some sdu)
    (hch : channel s e = (rnti, lcId)) (htells : Tells env lcId sdu x) :
    FieldTells env sn e s dfe rnti x := by
  obtain ⟨hrnti, hlc⟩ := Prod.mk.inj hch
  have hj := (rlcReassembleAmdDfe_works env sn e s dfe).leaves.joined hf
  obtain ⟨t, ht, heffect, -⟩ := rlcReassembleAmdDfe_effect hd.isSome hj
  cases heffect with
  | dropped hst hno _ _ _ =>
      -- nothing is delivered
      exfalso
      cases hr : (s.rxAmEntity e).rxRawSdu.rawSdu.pData with
      | none =>
          rw [rawBytes_none hr] at hsdu
          rcases hst with hst | hst <;> rw [hst] at hsdu <;> cases hsdu
      | some a =>
          rw [rawBytes_some hr] at hsdu
          have hcont := hno (by rw [hr]; rfl)
          rcases hst with hst | hst
          · rw [hst] at hsdu hcont
            simp only [reassemble, hcont] at hsdu
            cases hsdu
          · rw [hst] at hsdu hcont
            simp only [reassemble, hcont] at hsdu
            cases hsdu
  | delivered hst _ _ _ =>
      left
      rw [hst] at hsdu
      obtain rfl := Option.some.inj hsdu
      refine ⟨hst, hrnti, hd.size, hd.fits, hd.isSome, ?_⟩
      rw [show (s.rxAmEntity e).lcId = lcId from hlc]
      exact htells
  | kept hst _ _ _ =>
      rw [hst] at hsdu
      cases hsdu
  | joined hst ha _ hcont _ _ _ =>
      rw [hst, rawBytes_some ha] at hsdu
      simp only [reassemble, hcont, if_true] at hsdu
      cases hsdu
  | @completed a c d m l hst ha hc hcont hjoin _ _ =>
      right
      have hab : a ∈ rawBlock s e := mem_rawBlock.mpr ha
      have hcb : c ∈ dfe.blocks + xs := by
        rw [AmdDfe.blocks, hc]
        simp
      have hbound := hshort hst _ (rawBytes_some ha) c hc
      rw [bytes_length (by rw [ha]; rfl)] at hbound
      have hfits := hd.fits c hc
      have hexact := hraw a ha
      obtain ⟨hbytes, hadd, hlen⟩ := bytes_join (hu.mem_raw hab) (hu.mem hcb) (hu.ne hab hcb) hjoin
        hexact hfits (by omega)
      rw [hst, rawBytes_some ha] at hsdu
      simp only [reassemble, hcont, if_true] at hsdu
      obtain rfl := Option.some.inj hsdu
      have hjoinRaw : joinRaw env s (s.rxAmEntity e).rxRawSdu dfe
          = (s.onMem fun _ => m,
              some ⟨(s.rxAmEntity e).rxRawSdu.rawSdu.size + dfe.buffer.size, some d⟩) := by
        unfold joinRaw
        rw [ha, hc]
        simp only [hjoin]
      refine ⟨hst, hcont, _, _, hjoinRaw, hrnti, ?_, fun b hb => ?_, rfl, ?_⟩
      · show ((s.rxAmEntity e).rxRawSdu.rawSdu.size + dfe.buffer.size).toNat < 2 ^ 16
        omega
      · obtain rfl : d = b := Option.some.inj hb
        show ((s.rxAmEntity e).rxRawSdu.rawSdu.size + dfe.buffer.size).toNat ≤ m.length d
        rw [hlen, Nat.mod_eq_of_lt (by omega)]
        omega
      · show Tells env (s.rxAmEntity e).lcId (RlcAmBuffer.bytes ⟨_, some d⟩ m) x
        rw [hbytes, show (s.rxAmEntity e).lcId = lcId from hlc, ← ha, ← hc]
        exact htells

/-- **The fields of a PDU** tell what the SDUs that they complete tell. Only the first one may
continue an SDU. -/
theorem queueTells_of_delivered {q : List (AmdDfe β)} (hu : InHand s e (queueBlocks q + xs))
    (hraw : RawExact s e) (hq : ∀ d ∈ q, d.Sound s.mem)
    (hf : (q.foldl (rlcReassembleAmdDfe env sn e) s).mem.failures = s.mem.failures)
    (hfields : ShortFields sn (rawBytes s e) (q.map (AmdDfe.field s.mem)))
    (hlater : ∀ d ∈ q.tail, d.status ≠ amPduMapSduEnd)
    (hshort : ∀ d ∈ q.head?, d.status = amPduMapSduEnd → ∀ p ∈ rawBytes s e, ∀ b,
      d.buffer.pData = some b → p.data.length + s.mem.length b < 2 ^ 16)
    (hsdu : sdu ∈ (reassembleAll (· ++ ·) sn (rawBytes s e) (q.map (AmdDfe.field s.mem))).2)
    (hch : channel s e = (rnti, lcId)) (htells : Tells env lcId sdu x) :
    QueueTells env sn e rnti x s q := by
  -- on the fields: `rlcReassembleAmdDfe_delivers` says what a field leaves to the next one
  induction q generalizing s xs with
  | nil => cases hsdu
  | cons dfe q ih =>
      rw [queueBlocks_cons, add_assoc] at hu
      rw [List.foldl_cons] at hf
      rw [List.map_cons] at hfields hsdu
      have h1 := (rlcReassembleAmdDfe_works env sn e s dfe).failures
      have h2 := (rlcReassembleAmdDfeQ_works env sn e q
        (rlcReassembleAmdDfe env sn e s dfe)).failures
      have hf1 : (rlcReassembleAmdDfe env sn e s dfe).mem.failures = s.mem.failures := by
        omega
      have hd := hq dfe List.mem_cons_self
      have hfirst := rlcReassembleAmdDfe_delivers hu hraw hd hf1 hfields.1
      have hkept : ∀ d ∈ q, ∀ b ∈ d.blocks, b ∈ queueBlocks q + xs := fun d hd b hb =>
        Multiset.mem_add.mpr (Or.inl (blocks_mem_queue hd hb))
      -- the fields that follow are in blocks of their own, and are not written to
      have hsame : q.map (AmdDfe.field (rlcReassembleAmdDfe env sn e s dfe).mem)
          = q.map (AmdDfe.field s.mem) :=
        List.map_congr_left fun d hd =>
          field_congr fun b hb => (hfirst.kept b (hkept d hd b hb)).2
      rcases List.mem_append.mp hsdu with hsdu | hsdu
      · left
        exact fieldTells_of_delivered hu hraw hd hf1 (hshort dfe rfl)
          (Option.mem_toList.mp hsdu) hch htells
      · right
        obtain ⟨l, hl⟩ := hfirst.inHand
        have hl' : InHand (rlcReassembleAmdDfe env sn e s dfe) e (queueBlocks q + (xs + l)) := by
          refine ⟨hl.nodup, ?_⟩
          rw [hl.inUse]
          ac_rfl
        refine ih hl' hfirst.exact (fun d hd => ?_) (hf.trans hf1.symm) ?_ (fun d hd => ?_)
          (fun d hd hend => ?_) ?_ (hfirst.channel.trans hch)
        · exact (hq d (List.mem_cons_of_mem dfe hd)).congr
            fun b hb => (hfirst.kept b (hkept d hd b hb)).1
        · rw [hsame, hfirst.raw]
          exact hfields.2
        · exact hlater d (List.mem_of_mem_tail hd)
        -- only the first field may be an end, so that there is no bound to show
        · exact absurd hend (hlater d (List.mem_of_mem_head? hd))
        · rw [hsame, hfirst.raw]
          exact hsdu

/-- Only the first field of a PDU may be the end of an SDU. -/
theorem later_not_end {q : List (AmdDfe β)} (hst : StatusesOk (q.map AmdDfe.status)) :
    ∀ d ∈ q.tail, d.status ≠ amPduMapSduEnd := by
  intro d hd
  have hmem : d.status ∈ (q.map AmdDfe.status).tail := by
    rw [← List.map_tail]
    exact List.mem_map_of_mem hd
  rcases hst with ⟨fi, hst⟩ | ⟨fi, lis, hst⟩
  · rw [hst] at hmem
    cases hmem
  · rw [hst] at hmem
    rcases laterStatuses_or hmem with h | h <;> rw [h] <;> decide

/-- **A PDU in the ring**: its blocks are in hand, and the entity keeps its incomplete SDU. -/
theorem setRing_inHand {t : RlcState β} {pdu : AmdPdu β} {seg : β} {q : List (AmdDfe β)}
    (hw : MemWorks s t {b} pdu.blocks) (hu : InHand s e ({b} + xs)) (hraw : RawExact s e)
    (hsegs : pdu.segList = [⟨seg, q⟩]) (k : Nat) (node : RingNode β) :
    InHand (t.setRing e k node) e (queueBlocks q + ({seg} + ({pdu.addr} + xs))) ∧
      rawBytes (t.setRing e k node) e = rawBytes s e ∧ RawExact (t.setRing e k node) e ∧
      channel (t.setRing e k node) e = channel s e := by
  have hall : s.mem.inUse = {b} + (s.toRrcState.owned + rawBlock s e + xs) := by
    rw [hu.inUse]
    ac_rfl
  have hk := hw.transfer.keeps (s.toRrcState.owned + rawBlock s e + xs) hu.nodup hall
  have honly := hw.only
  have hsame : ((t.setRing e k node).rxAmEntity e).rxRawSdu = (s.rxAmEntity e).rxRawSdu := by
    have hrawt : (t.rxAmEntity e).rxRawSdu = (s.rxAmEntity e).rxRawSdu := by
      rw [honly]
      rfl
    rw [← hrawt]
    simp [RlcState.setRing, RlcState.setEntity]
  have hkept : ∀ a ∈ rawBlock s e, a ∈ s.toRrcState.owned + rawBlock s e + xs := by
    intro a ha
    simp [ha]
  refine ⟨?_, ?_, ?_, ?_⟩
  · have hblocks : pdu.blocks + xs = queueBlocks q + ({seg} + ({pdu.addr} + xs)) := by
      rw [AmdPdu.blocks, hsegs, segBlocks_cons, segBlocks_nil]
      show {pdu.addr} + ({seg} + queueBlocks q + 0) + xs = _
      rw [add_zero]
      ac_rfl
    obtain ⟨ht, -⟩ := hu.memWorks hw
    rw [hblocks] at ht
    exact ht.setRing k node
  · exact rawBytes_congr hsame fun a ha => hk.bytes a (hkept a ha)
  · exact rawExact_congr hsame (fun a ha => hk.length a (hkept a ha)) hraw
  · rw [setRing_channel, channel, channel, honly]
    rfl

/-- **A packet of the entity** tells what the SDUs that it completes tell. -/
theorem pduTells_of_delivered (hring : RingFree s e) (hu : InHand s e ({b} + xs))
    (hraw : RawExact s e) (hlen : s.mem.length b = n) (hlt : n < 2 ^ 16) (hrf : h.rf = 0)
    (hfit : Fits (s.mem.bytes b) n h)
    (hf : (rlcProcessAmdPdu env s e h ⟨lcId, n, some b⟩).mem.failures = s.mem.failures)
    (hfields : ShortFields h.sn (rawBytes s e) (fields (s.mem.bytes b) n h))
    (hshort : ∀ p ∈ rawBytes s e, p.data.length + n < 2 ^ 16)
    (hsdu : sdu ∈ (reassembleAll (· ++ ·) h.sn (rawBytes s e) (fields (s.mem.bytes b) n h)).2)
    (hch : channel s e = (rnti, lcId)) (htells : Tells env lcId sdu x) :
    PduTells env s e h ⟨lcId, n, some b⟩ rnti x := by
  have hslot := hring (h.sn &&& 511)
  unfold rlcProcessAmdPdu at hf
  rw [if_pos (by rw [hslot]), rlcProcessNewAmdPdu_eq env h _ (by rw [hslot])] at hf
  cases hn : rlcNewAmdPdu env s h ⟨lcId, n, some b⟩ with
  | mk t o =>
      obtain ⟨hw, hcomplete⟩ := rlcNewAmdPdu_memWorks hn
      rw [hn] at hf
      have hle := hw.transfer.failures
      have hle' : t.mem.failures ≤ s.mem.failures := by
        cases o with
        | none => exact hf.le
        | some pdu =>
            have hgrows := rlcReassembleRlcSdu_grows env
              (t.setRing e (h.sn &&& 511) ⟨.inUse, some pdu⟩) h.sn e
            exact hgrows.failures.trans hf.le
      have hall : s.mem.inUse = {b} + (s.toRrcState.owned + rawBlock s e + xs) := by
        rw [hu.inUse]
        ac_rfl
      obtain ⟨pdu, seg, q, rfl, hsegs, hmap, hsound⟩ :=
        rlcNewAmdPdu_fields hn (by omega) hu.nodup hall hrf hlen hlt hfit
      have hlengths := rlcNewAmdPdu_lengths hn (by omega) hu.nodup hall hlen hlt hfit
      obtain ⟨seg', q', hsegs', -, hst⟩ := rlcNewAmdPdu_statuses rfl hn
      obtain ⟨rfl, rfl⟩ : seg = seg' ∧ q = q' := by
        have heq := List.singleton_inj.mp (hsegs.symm.trans hsegs')
        exact ⟨congrArg AmdPduSegment.addr heq, congrArg AmdPduSegment.dfeQ heq⟩
      simp only at hf
      rw [blockOf_some] at hw
      obtain ⟨hv, hbytesv, hexactv, hchv⟩ :=
        setRing_inHand hw hu hraw hsegs (h.sn &&& 511) ⟨.ready, some pdu⟩
      -- the state in which the fields are reassembled
      let v := t.setRing e (h.sn &&& 511) ⟨.ready, some pdu⟩
      rw [rlcReassembleRlcSdu_eq (by simp [RlcState.setRing, RlcState.setEntity])
        (hcomplete pdu rfl), hsegs, setRing_setRing] at hf
      have hfq : (q.foldl (rlcReassembleAmdDfe env h.sn e) v).mem.failures = v.mem.failures := by
        have h1 := (rlcReassembleAmdDfeQ_works env h.sn e q v).failures
        have h2 := (free_works (q.foldl (rlcReassembleAmdDfe env h.sn e) v) e seg).failures
        have h3 := (free_works ((q.foldl (rlcReassembleAmdDfe env h.sn e) v).free seg) e
          pdu.addr).failures
        have h4 : (((q.foldl (rlcReassembleAmdDfe env h.sn e) v).free seg).free
            pdu.addr).mem.failures = s.mem.failures := hf
        have h5 : s.mem.failures ≤ v.mem.failures := hle
        omega
      refine ⟨t, pdu, hn, ?_⟩
      rw [hsegs]
      left
      refine queueTells_of_delivered (s := v) hv hexactv hsound hfq ?_ (later_not_end hst)
        (fun d hd _ p hp c hc => ?_) ?_ (hchv.trans hch) htells
      · rw [hbytesv, show v.mem = t.mem from rfl, hmap]
        exact hfields
      · rw [hbytesv] at hp
        have hdq : d ∈ q := List.mem_of_mem_head? hd
        have hlc := hlengths ⟨seg, q⟩ (by rw [hsegs]; exact List.mem_singleton_self _) d hdq c hc
        have hbound := hshort p hp
        show p.data.length + t.mem.length c < 2 ^ 16
        omega
      · rw [hbytesv, show v.mem = t.mem from rfl, hmap]
        exact hsdu

/-- **A packet of the channel** tells what the SDUs that it completes tell. -/
theorem packetTells_of_delivered {raw : Option (Partial (List UInt8))} {ys : Multiset β}
    {fs : List (RlcSduStatus × List UInt8)} (hs : RlcSound s)
    (hr : RrcSound s.toRrcState (s.rlcOwned + ({b} + ys))) (hlc : lcId ≤ srb2LcId)
    (hlen : s.mem.length b = n) (hlt : n < 2 ^ 16) (hdec : Rlc.Decodes (s.mem.bytes b) n sn fs)
    (hk : ChannelKeeps s rnti lcId raw)
    (hf : (rlcProcessAmRxPacket env s ⟨lcId, n, some b⟩ rnti).mem.failures = s.mem.failures)
    (hfields : ShortFields sn raw fs) (hshort : ∀ p ∈ raw, p.data.length + n < 2 ^ 16)
    (hsdu : sdu ∈ (reassembleAll (· ++ ·) sn raw fs).2) (htells : Tells env lcId sdu x) :
    PacketTells env s ⟨lcId, n, some b⟩ rnti rnti x := by
  obtain ⟨h, hheader, hdc, hrf, rfl, hfit, rfl⟩ := hdec
  rw [rlcProcessAmRxPacket_findEntity] at hf
  cases hfind : rlcFindEntity env s ⟨lcId, n, some b⟩ rnti with
  | mk u r =>
      obtain ⟨hreceives, hextends, hent⟩ := rlcFindEntity_spec hs hr hfind
      have hle1 := hreceives.failures
      rw [hfind] at hf
      have hle2 : u.mem.failures ≤ s.mem.failures := by
        rw [← hf]
        cases r with
        | none => exact (free?_receives u (some b)).failures
        | some found =>
            exact (rlcEntityPacket_receives env u found.2 ⟨lcId, n, some b⟩
              (hent _ _ rfl).1).failures
      obtain ⟨e, rfl, hfinds⟩ := rlcFindEntity_finds hs hr hlc rfl hheader hdc hfind (by omega)
      simp only at hf
      obtain ⟨hu, hru⟩ :=
        hreceives.sound (zero_add _).symm (hreceives.joined (by omega)) hs hr
      rw [zero_add] at hru
      obtain ⟨hexact, hraw⟩ := hfinds.keeps hk hr fun c hc => (hextends.mem c hc).1
      -- the block of the PDU and the incomplete SDU are in use besides all others
      obtain ⟨rest, hrest⟩ := Multiset.exists_cons_of_mem hfinds.mem
      obtain ⟨w, hw⟩ := Multiset.le_iff_exists_add.mp hru.owned
      have hraws : u.entities.bind (rawBlock u) = rawBlock u e + rest.bind (rawBlock u) := by
        rw [hrest, Multiset.cons_bind]
      have hin : InHand u e ({b} + ((u.gMacUeContext : Multiset β)
          + ((u.gRlcUeContextList : Multiset β) + u.entities) + rest.bind (rawBlock u)
          + ys + w)) := by
        refine ⟨hru.nodup, ?_⟩
        rw [hw, RlcState.rlcOwned, hraws]
        ac_rfl
      have hbin : b ∈ s.mem.inUse := Multiset.mem_of_le (inHand_le hr) (by simp)
      have hub : u.mem.bytes b = s.mem.bytes b := by rw [hfinds.silent.2]
      refine ⟨u, e, h, hfind, pduTells_of_delivered (hu.rings e hfinds.mem) hin hexact
        ((hextends.mem b hbin).1.trans hlen) hlt hrf ?_ (by omega) ?_ ?_ ?_ hfinds.channel htells⟩
      · rw [hub]
        exact hfit
      · rw [hub, hraw]
        exact hfields
      · rw [hraw]
        exact hshort
      · rw [hub, hraw]
        exact hsdu

end Told

/-! ## Serving a channel -/

/-- What a step does for a channel that keeps `raw`: the PDUs go through the reassembler, and
what this delivers is delivered, and tells what it tells. -/
structure Converses (env : Platform β) (rnti : UInt16) (lcId : Nat) (s t : RlcState β)
    (raw : Option (Partial (List UInt8))) (pdus : List (List UInt8)) : Prop where
  keeps : ChannelKeeps t rnti lcId (receivePdus raw pdus).1
  sdus : channelSdus t rnti lcId = channelSdus s rnti lcId ++ (receivePdus raw pdus).2
  told : ∀ sdu ∈ (receivePdus raw pdus).2, ∀ x, Tells env lcId sdu x →
    1 ≤ tally rnti x t.toRrcState

/-- What a step does for a channel, whatever this keeps, and for the identities of the UE. All
calls of `RlcUeDataInd` are for signalling channels. -/
structure Served (env : Platform β) (rnti : UInt16) (lcId : Nat) (s t : RlcState β)
    (pdus : List (List UInt8)) : Prop where
  ready : ∀ a ∈ t.gReadyRrcUeContextList,
    ((t.rrcUeContext a).ueIdentity.imsiPresent || (t.rrcUeContext a).ueIdentity.mTmsiPresent)
      = true
  tally : ∀ x, tally rnti x s.toRrcState ≤ tally rnti x t.toRrcState
  calls : Logged s t
  converses : ∀ raw, ChannelKeeps s rnti lcId raw → (∀ pdu ∈ pdus, Readable pdu) →
    ShortPdus raw pdus → Converses env rnti lcId s t raw pdus

/-- A step of the uplink path, from a sound state, and what it does for a channel. -/
structure Serves (env : Platform β) (rnti : UInt16) (lcId : Nat) (s t : RlcState β)
    (xs ys : Multiset β) (pdus : List (List UInt8)) : Prop extends Receives s t xs ys where
  served : t.mem.failures = s.mem.failures → ∀ f, RlcSound s →
    Gathered s.toRrcState (s.rlcOwned + (xs + f)) → Served env rnti lcId s t pdus

section Rules

variable {env : Platform β} {rnti : UInt16} {lcId : Nat} {s t u : RlcState β}
variable {xs ys zs f : Multiset β} {raw : Option (Partial (List UInt8))}
variable {pdus pdus' : List (List UInt8)}

theorem Converses.trans (h : Converses env rnti lcId s t raw pdus)
    (h' : Converses env rnti lcId t u (receivePdus raw pdus).1 pdus')
    (ht : ∀ x, tally rnti x t.toRrcState ≤ tally rnti x u.toRrcState) :
    Converses env rnti lcId s u raw (pdus ++ pdus') := by
  have happend := receivePdus_append raw pdus pdus'
  constructor
  · rw [happend]
    exact h'.keeps
  · rw [happend, h'.sdus, h.sdus, List.append_assoc]
  · intro sdu hsdu x htells
    rw [happend] at hsdu
    rcases List.mem_append.mp hsdu with hsdu | hsdu
    · exact (h.told sdu hsdu x htells).trans (ht x)
    · exact h'.told sdu hsdu x htells

theorem Served.trans (h : Served env rnti lcId s t pdus) (h' : Served env rnti lcId t u pdus') :
    Served env rnti lcId s u (pdus ++ pdus') := by
  refine ⟨h'.ready, fun x => (h.tally x).trans (h'.tally x), h.calls.trans h'.calls,
    fun raw hk hread hshort => ?_⟩
  obtain ⟨hshort1, hshort2⟩ := shortPdus_append.mp hshort
  have hfirst := h.converses raw hk (fun p hp => hread p (List.mem_append_left _ hp)) hshort1
  have hrest := h'.converses _ hfirst.keeps (fun p hp => hread p (List.mem_append_right _ hp))
    hshort2
  exact hfirst.trans hrest h'.tally

/-- A step that leaves the channel alone. -/
theorem Served.of_leavesAlone (hready : ∀ a ∈ t.gReadyRrcUeContextList,
      ((t.rrcUeContext a).ueIdentity.imsiPresent || (t.rrcUeContext a).ueIdentity.mTmsiPresent)
        = true)
    (htally : ∀ x, Worker.tally rnti x s.toRrcState ≤ Worker.tally rnti x t.toRrcState)
    (hcalls : Logged s t) (h : LeavesAlone s t rnti lcId) : Served env rnti lcId s t [] := by
  refine ⟨hready, htally, hcalls, fun raw hk _ _ => ⟨h.keeps hk, ?_, fun sdu hsdu => ?_⟩⟩
  · rw [h.sdus]
    exact (List.append_nil _).symm
  · cases hsdu

/-- The state after a step that refuses nothing. -/
theorem Serves.gathered (h : Serves env rnti lcId s t xs ys pdus)
    (hf : t.mem.failures = s.mem.failures) (hs : RlcSound s)
    (hg : Gathered s.toRrcState (s.rlcOwned + (xs + f))) :
    RlcSound t ∧ Gathered t.toRrcState (t.rlcOwned + (ys + f)) := by
  obtain ⟨h1, h2⟩ := h.sound rfl (h.joined hf) hs hg.toRrcSound
  exact ⟨h1, h2, (h.served hf f hs hg).ready⟩

theorem Serves.seq (h : Serves env rnti lcId s t xs ys pdus)
    (h' : Serves env rnti lcId t u ys zs pdus') :
    Serves env rnti lcId s u xs zs (pdus ++ pdus') := by
  have hle := h.failures
  have hle' := h'.failures
  refine ⟨h.toReceives.seq h'.toReceives, fun hf f hs hg => ?_⟩
  have hft : t.mem.failures = s.mem.failures := by omega
  obtain ⟨ht, hgt⟩ := h.gathered hft hs hg
  exact (h.served hft f hs hg).trans (h'.served (by omega) f ht hgt)

theorem Serves.frame (h : Serves env rnti lcId s t xs ys pdus) (f : Multiset β) :
    Serves env rnti lcId s t (xs + f) (ys + f) pdus := by
  refine ⟨h.toReceives.frame f, fun hf f' hs hg => ?_⟩
  rw [add_assoc xs] at hg
  exact h.served hf (f + f') hs hg

theorem Serves.congr {xs' ys' : Multiset β} (h : Serves env rnti lcId s t xs ys pdus)
    (hx : xs = xs') (hy : ys = ys') : Serves env rnti lcId s t xs' ys' pdus := hx ▸ hy ▸ h

/-- A step of the RLC layer that leaves the channel alone. -/
theorem Serves.of_collects {told : Collected → Prop}
    (h : ∀ x, Collects env rnti x s t xs ys (told x))
    (ha : t.mem.failures = s.mem.failures → ∀ f, RlcSound s →
      RrcSound s.toRrcState (s.rlcOwned + (xs + f)) →
        Logged s t ∧ LeavesAlone s t rnti lcId) :
    Serves env rnti lcId s t xs ys [] := by
  refine ⟨(h (.mTmsi 0)).toReceives, fun hf f hs hg => ?_⟩
  obtain ⟨hcalls, halone⟩ := ha hf f hs hg.toRrcSound
  exact .of_leavesAlone ((h (.mTmsi 0)).carried hf f hs hg).ready
    (fun x => ((h x).carried hf f hs hg).tally) hcalls halone

theorem Serves.refl (env : Platform β) (rnti : UInt16) (lcId : Nat) (s : RlcState β)
    (xs : Multiset β) : Serves env rnti lcId s s xs xs [] :=
  .of_collects (fun x => .refl env rnti x s xs) fun _ _ _ _ => ⟨.of_eq rfl, .refl s rnti lcId⟩

end Rules

/-! ## The SDUs of an indication -/

/-- The PDU that an entry of `rlcDataArray` brings to the channel. -/
def pduFor (rnti : UInt16) (lcId : Nat) (rnti' : UInt16) (sdu : RlcSdu) : List (List UInt8) :=
  if (rnti', sdu.lcId) = (rnti, lcId) then sdu.data.toList else []

/-- The PDUs that a call of `MacUeDataInd` brings to the channel. -/
def pdusFor (rnti : UInt16) (lcId : Nat) (ind : DataInd) : List (List UInt8) :=
  (ind.rlcData.getD []).flatMap (pduFor rnti lcId ind.rnti)

/-- The entry has a buffer, as long as the SDU. -/
def Filled (mem : Store β) (info : RlcUlDataInfo β) : Prop :=
  ∃ b, info.rlcdataBuffer = some b ∧ mem.length b = info.length % 2 ^ 16

section Packets

variable {env : MacPlatform β} {rnti rnti' : UInt16} {lcId : Nat} {s t : RlcState β}
variable {xs ys f : Multiset β} {info : RlcUlDataInfo β} {l : List (RlcUlDataInfo β)}

/-- **A packet of the channel** goes through the reassembler. -/
theorem rlcProcessAmRxPacket_converses {env : Platform β} {n : Nat} {b : β}
    {raw : Option (Partial (List UInt8))} (hlc : lcId ≤ srb2LcId) (hs : RlcSound s)
    (hg : Gathered s.toRrcState (s.rlcOwned + ({b} + f))) (hlen : s.mem.length b = n % 2 ^ 16)
    (hf : (rlcProcessAmRxPacket env s ⟨lcId, n, some b⟩ rnti).mem.failures = s.mem.failures)
    (hk : ChannelKeeps s rnti lcId raw) (hread : Readable ((List.range n).map (s.mem.bytes b)))
    (hshort : ShortPdus raw [(List.range n).map (s.mem.bytes b)]) :
    Converses env rnti lcId s (rlcProcessAmRxPacket env s ⟨lcId, n, some b⟩ rnti) raw
      [(List.range n).map (s.mem.bytes b)] := by
  have hn : ((List.range n).map (s.mem.bytes b)).length = n := by simp
  have hlt : n < 2 ^ 16 := hn ▸ hread.short
  have hlenb : s.mem.length b = n := by rw [hlen, Nat.mod_eq_of_lt hlt]
  have hbytes : Reads (s.mem.bytes b) 0 ((List.range n).map (s.mem.bytes b)) :=
    fun k hk => by simp
  have hr := hg.toRrcSound
  rcases hread.decides with hdec | hignored
  · have hdec := hdec _ hbytes
    rw [hn] at hdec
    have hfit : ∀ p ∈ raw, p.data.length + n < 2 ^ 16 := by
      intro p hp
      have := hshort.1 p hp
      rwa [hn] at this
    have hfields := shortFields_of_readable hread hshort.1
    obtain ⟨-, hkeeps, hcalls⟩ := rlcProcessAmRxPacket_delivers hs hr hlc hlenb hlt hdec hk hf
      hfields rfl
    rw [← receivePdus_single] at hkeeps hcalls
    refine ⟨hkeeps, channelSdus_calls hcalls, fun sdu hsdu x htells => ?_⟩
    rw [receivePdus_single] at hsdu
    have hpacket := packetTells_of_delivered hs hr hlc hlenb hlt hdec hk hf hfields hfit hsdu
      htells
    have hcollects := rlcProcessAmRxPacket_collects env rnti x s ⟨lcId, n, some b⟩ rnti
    exact (hcollects.carried hf f hs hg).told hpacket
  · -- nothing is received
    have hi := hignored _ hbytes
    rw [hn] at hi
    obtain ⟨hkeeps, hsdus⟩ := rlcProcessAmRxPacket_ignored hs hr hlc hi hk hf rfl
    have hnothing := receivePdus_of_ignored raw (hignored _ (reads_getD _))
    constructor
    · rw [hnothing]
      exact hkeeps
    · rw [hnothing, hsdus, List.append_nil]
    · intro sdu hsdu
      rw [hnothing] at hsdu
      cases hsdu

/-- **A packet**, of whatever channel. -/
theorem rlcProcessAmRxPacket_serves (env : Platform β) (hlc : lcId ≤ srb2LcId)
    (hfilled : Filled s.mem info) :
    Serves env rnti lcId s (rlcProcessAmRxPacket env s info rnti') (blockOf info.rlcdataBuffer) 0
      (pduFor rnti lcId rnti' (sduOf s.mem info)) := by
  obtain ⟨lcId', n, buffer⟩ := info
  obtain ⟨b, hb, hlen⟩ := hfilled
  obtain rfl : buffer = some b := hb
  have hcollects := fun x => rlcProcessAmRxPacket_collects env rnti x s ⟨lcId', n, some b⟩ rnti'
  by_cases hch : (rnti', lcId') = (rnti, lcId)
  · obtain ⟨rfl, rfl⟩ := Prod.mk.inj hch
    refine ⟨rlcProcessAmRxPacket_receives env s _ rnti', fun hf f hs hg => ?_⟩
    have hcarried := fun x => (hcollects x).carried hf f hs hg
    have hpdu : pduFor rnti' lcId' rnti' (sduOf s.mem ⟨lcId', n, some b⟩)
        = [(List.range n).map (s.mem.bytes b)] := if_pos rfl
    rw [hpdu]
    have hr : RrcSound s.toRrcState (s.rlcOwned + (blockOf (some b) + f)) := hg.toRrcSound
    refine ⟨(hcarried (.mTmsi 0)).ready, fun x => (hcarried x).tally,
      rlcProcessAmRxPacket_logged hs hr hf, fun raw hk hread hshort => ?_⟩
    exact rlcProcessAmRxPacket_converses hlc hs hg hlen hf hk (hread _ (List.mem_singleton_self _))
      hshort
  · have hpdu : pduFor rnti lcId rnti' (sduOf s.mem ⟨lcId', n, some b⟩) = [] := if_neg hch
    rw [hpdu]
    exact .of_collects hcollects fun hf f hs hr =>
      ⟨rlcProcessAmRxPacket_logged hs hr hf, rlcProcessAmRxPacket_leavesAlone hs hr hf hch⟩

theorem free_serves (env : Platform β) (s : RlcState β) (b : β) :
    Serves env rnti lcId s (s.free b) {b} 0 [] := by
  refine .of_collects (fun x => free_collects env s b) fun hf f hs hr => ?_
  exact ⟨.of_eq rfl, .onMem (release_transfer s.mem b) hr rnti lcId⟩

/-- An entry of `rlcDataArray`. -/
theorem macUeDataIndEntry_serves (env : MacPlatform β) (hlc : lcId ≤ srb2LcId)
    (hfilled : Filled s.mem info) :
    Serves env.toPlatform rnti lcId s (macUeDataIndEntry env rnti' s info)
      (blockOf info.rlcdataBuffer) 0 (pduFor rnti lcId rnti' (sduOf s.mem info)) := by
  unfold macUeDataIndEntry
  split
  · exact rlcProcessAmRxPacket_serves env.toPlatform hlc hfilled
  · rename_i hup
    have hother : (rnti', info.lcId) ≠ (rnti, lcId) := by
      intro h
      obtain ⟨-, rfl⟩ := Prod.mk.inj h
      exact hup hlc
    rw [show pduFor rnti lcId rnti' (sduOf s.mem info) = [] from if_neg hother]
    refine .of_collects (fun x => free?_collects s _) fun hf f hs hr => ⟨.of_eq rfl, ?_⟩
    show LeavesAlone s (s.free? info.rlcdataBuffer) rnti lcId
    exact .onMem (release?_transfer s.mem info.rlcdataBuffer) hr rnti lcId

/-- Blocks in hand keep their bytes and their length. -/
theorem receives_keepsBlocks (h : Receives s t xs ys) (hj : t.refusedJoins = s.refusedJoins)
    (hs : RlcSound s) (hr : RrcSound s.toRrcState (s.rlcOwned + (xs + f))) :
    ∀ b ∈ f, t.mem.length b = s.mem.length b ∧ t.mem.bytes b = s.mem.bytes b := by
  obtain ⟨l, ht, -⟩ := (h.after hj f hs hr).leaves.transfer hj
  obtain ⟨r, hrest⟩ := Multiset.le_iff_exists_add.mp hr.owned
  have hk := ht.keeps (f + r) hr.nodup (by rw [hrest]; ac_rfl)
  intro b hb
  have hin : b ∈ f + r := Multiset.mem_add.mpr (Or.inl hb)
  exact ⟨hk.length b hin, hk.bytes b hin⟩

/-- **The loop of `MacUeDataInd`**: the PDUs are received one after the other. -/
theorem macUeDataIndLoop_serves (hlc : lcId ≤ srb2LcId) (hfilled : ∀ info ∈ l, Filled s.mem info) :
    Serves env.toPlatform rnti lcId s (l.foldl (macUeDataIndEntry env rnti') s)
      (l.filterMap (·.rlcdataBuffer) : List β) 0
      ((l.map (sduOf s.mem)).flatMap (pduFor rnti lcId rnti')) := by
  -- on the SDUs: the PDUs are read in `s`, though the later ones are received in later states
  induction l generalizing s with
  | nil => exact .refl env.toPlatform rnti lcId s 0
  | cons info l ih =>
      obtain ⟨b, hb, -⟩ := hfilled info List.mem_cons_self
      have hfirst : Serves env.toPlatform rnti lcId s (macUeDataIndEntry env rnti' s info) _ _ _ :=
        (macUeDataIndEntry_serves env hlc (hfilled info List.mem_cons_self)).frame
          ((l.filterMap (·.rlcdataBuffer) : List β))
      rw [zero_add] at hfirst
      have hblocks : blockOf info.rlcdataBuffer + ((l.filterMap (·.rlcdataBuffer) : List β))
          = (((info :: l).filterMap (·.rlcdataBuffer) : List β) : Multiset β) := by
        rw [hb, List.filterMap_cons_some hb, blockOf_some, Multiset.singleton_add,
          Multiset.cons_coe]
      have hall := macUeDataIndLoop_receives env rnti' (info :: l) s
      refine ⟨hall, fun hf f hs hg => ?_⟩
      rw [← hblocks] at hg
      have hrest := macUeDataIndLoop_receives env rnti' l (macUeDataIndEntry env rnti' s info)
      have h1 := hfirst.failures
      have h2 := hrest.failures
      rw [List.foldl_cons] at hf
      have hfu : (macUeDataIndEntry env rnti' s info).mem.failures = s.mem.failures := by omega
      obtain ⟨hu, hgu⟩ := hfirst.gathered hfu hs hg
      -- the other blocks are in hand, and so are kept
      have hkept := receives_keepsBlocks (macUeDataIndEntry_receives env rnti' s info)
        (hfirst.joined hfu) hs (by rw [← add_assoc (blockOf _)]; exact hg.toRrcSound)
      have hmem : ∀ i ∈ l, ∀ c, i.rlcdataBuffer = some c →
          c ∈ (((l.filterMap (·.rlcdataBuffer) : List β)) : Multiset β) + f := by
        intro i hi c hc
        refine Multiset.mem_add.mpr (Or.inl (Multiset.mem_coe.mpr ?_))
        exact List.mem_filterMap.mpr ⟨i, hi, hc⟩
      have hsame : l.map (sduOf (macUeDataIndEntry env rnti' s info).mem) = l.map (sduOf s.mem) :=
        sduOf_congr fun i hi c hc => (hkept c (hmem i hi c hc)).2
      have hnext := ih (s := macUeDataIndEntry env rnti' s info) fun i hi => by
        obtain ⟨c, hc, hlen⟩ := hfilled i (List.mem_cons_of_mem info hi)
        exact ⟨c, hc, (hkept c (hmem i hi c hc)).1.trans hlen⟩
      rw [hsame] at hnext
      exact (hfirst.served hfu f hs hg).trans (hnext.served (by omega) f hu hgu)

end Packets

/-! ## From MAC to RLC -/

/-- A part of the uplink path, with the calls of `MacUeDataInd` that are made in it: the PDUs
in these are what it brings to the channel. -/
def Handles (env : MacPlatform β) (rnti : UInt16) (lcId : Nat) (s t : UlState β)
    (xs ys : Multiset β) : Prop :=
  ∃ inds, t.macUeDataInds = s.macUeDataInds ++ inds ∧
    Serves env.toPlatform rnti lcId s.toRlcState t.toRlcState xs ys
      (inds.flatMap (pdusFor rnti lcId))

/-- All SDUs for RLC have their buffers. -/
def AllFilled (mem : Store β) (rlcData : Option (RlcUlData β)) : Prop :=
  ∀ d ∈ rlcData, ∀ info ∈ d.rlcDataArray, Filled mem info

section Handling

variable {env : MacPlatform β} {rnti rnti' : UInt16} {lcId : Nat} {s t u : UlState β}
variable {xs ys zs f : Multiset β} {o : Option β} {entry : DemuxDataBase}

theorem Handles.seq (h : Handles env rnti lcId s t xs ys) (h' : Handles env rnti lcId t u ys zs) :
    Handles env rnti lcId s u xs zs := by
  obtain ⟨inds, hlog, hserves⟩ := h
  obtain ⟨inds', hlog', hserves'⟩ := h'
  refine ⟨inds ++ inds', ?_, ?_⟩
  · rw [hlog', hlog, List.append_assoc]
  · rw [List.flatMap_append]
    exact hserves.seq hserves'

theorem Handles.receives (h : Handles env rnti lcId s t xs ys) :
    Receives s.toRlcState t.toRlcState xs ys := by
  obtain ⟨_, _, hserves⟩ := h
  exact hserves.toReceives

theorem Handles.frame (h : Handles env rnti lcId s t xs ys) (f : Multiset β) :
    Handles env rnti lcId s t (xs + f) (ys + f) := by
  obtain ⟨inds, hlog, hserves⟩ := h
  exact ⟨inds, hlog, hserves.frame f⟩

/-- A step that makes no call and leaves the channel alone. -/
theorem Handles.of_retains {told : Collected → Prop}
    (h : ∀ x, Retains env.toPlatform rnti x s t xs ys (told x))
    (hlog : t.macUeDataInds = s.macUeDataInds) (hcalls : t.rlcUeDataInds = s.rlcUeDataInds)
    (ha : ∀ f, RrcSound s.toRrcState (s.rlcOwned + (xs + f)) →
      LeavesAlone s.toRlcState t.toRlcState rnti lcId) : Handles env rnti lcId s t xs ys := by
  refine ⟨[], ?_, (h (.mTmsi 0)).toReceives, fun hf f hs hg => ?_⟩
  · rw [hlog, List.append_nil]
  · exact .of_leavesAlone ((h (.mTmsi 0)).kept hf f hs hg).ready
      (fun x => ((h x).kept hf f hs hg).tally) (.of_eq hcalls) (ha f hg.toRrcSound)

theorem Handles.of_onlyMem {told : Collected → Prop}
    (h : ∀ x, Retains env.toPlatform rnti x s t xs ys (told x))
    (hlog : t.macUeDataInds = s.macUeDataInds) (honly : OnlyMem s.toRlcState t.toRlcState)
    (ht : Transfer s.mem t.mem xs ys) : Handles env rnti lcId s t xs ys := by
  refine .of_retains h hlog honly.calls fun f hr => ?_
  have hframe := ht.frame s.toRrcState.owned
  rw [add_comm xs] at hframe
  refine .of_transfer hframe hr ?_ ?_ ?_ rnti lcId
  all_goals
    rw [honly]
    rfl

theorem Handles.refl (env : MacPlatform β) (rnti : UInt16) (lcId : Nat) (s : UlState β)
    (xs : Multiset β) : Handles env rnti lcId s s xs xs :=
  .of_retains (fun x => .refl env.toPlatform rnti x s xs) rfl rfl fun _ _ => .refl _ rnti lcId

/-! ### Demultiplexing -/

theorem ulAlloc_handles {n : Nat} (h : s.alloc env n = (t, o)) :
    Handles env rnti lcId s t 0 (blockOf o) := by
  have hlog : t.macUeDataInds = s.macUeDataInds := by
    obtain rfl : (s.alloc env n).1 = t := congrArg Prod.fst h
    rfl
  exact .of_onlyMem (fun x => ulAlloc_retains h) hlog (ulAlloc_onlyMem h) (ulAlloc_transfer h).2

theorem memcpy_handles (env : MacPlatform β) (s : UlState β) (b : β) (src : Nat → UInt8)
    (n : Nat) : Handles env rnti lcId s (s.memcpy b src n) {b} {b} :=
  .of_onlyMem (fun _ => memcpy_retains env.toPlatform s b src n) rfl rfl
    (write_transfer s.mem b src n)

theorem countKpi_handles (env : MacPlatform β) (s : UlState β) (f : LteKpi → LteKpi)
    (xs : Multiset β) : Handles env rnti lcId s (s.countKpi f) xs xs :=
  .of_retains (fun _ => countKpi_retains env.toPlatform s f xs) rfl rfl fun _ hr =>
    .of_transfer (t := (s.countKpi f).toRlcState) (.refl s.mem _) hr rfl rfl rfl rnti lcId

/-- A message of the common channel is no business of RLC. -/
theorem ccchDataInd_handles (env : MacPlatform β) (s : UlState β) (rnti' : UInt16) (b : β)
    {size : Nat} (hpos : 0 < size) (hlt : size < 2 ^ 16) :
    Handles env rnti lcId s (ccchDataInd env s rnti' b size) {b} 0 := by
  have hsize : size % 2 ^ 16 ≠ 0 := by
    rw [Nat.mod_eq_of_lt hlt]
    exact hpos.ne'
  have hend : (ccchDataInd env s rnti' b size).toRrcState
      = rrcParseUlCcchMsg env.toPlatform s.toRrcState rnti' b (size % 2 ^ 16) := if_neg hsize
  have ht : RrcTransfer s.toRrcState (ccchDataInd env s rnti' b size).toRrcState {b} _ :=
    hend ▸ rrcParseUlCcchMsg_transfer env.toPlatform s.toRrcState rnti' b (size % 2 ^ 16)
  refine .of_retains (fun x => ccchDataInd_retains env s rnti' b hpos hlt) rfl rfl fun f hr => ?_
  exact .of_transfer ht hr rfl rfl rfl rnti lcId

theorem macDemuxCcch_handles (env : MacPlatform β) (s : UlState β) (rnti' : UInt16)
    (src : Nat → UInt8) {length : Nat} (hpos : 0 < length) (hlt : length < 2 ^ 16) :
    Handles env rnti lcId s (macDemuxCcch env s rnti' src length) 0 0 := by
  unfold macDemuxCcch
  cases ha : s.alloc env length with
  | mk t o =>
      have halloc : Handles env rnti lcId s t 0 (blockOf o) := ulAlloc_handles ha
      cases o with
      | none => exact halloc
      | some b =>
          have hcopied := halloc.seq (memcpy_handles env t b src length)
          exact hcopied.seq (ccchDataInd_handles env _ rnti' b hpos hlt)

/-- **An entry of the table** brings nothing to RLC yet. -/
theorem macDemuxEntry_handles (env : MacPlatform β) (m : Nat → UInt8) (rnti' : UInt16)
    (st : UlState β × Option (RlcUlData β) × Nat) (hv : entry.Valid) :
    Handles env rnti lcId st.1 (macDemuxEntry env m rnti' st entry).1 (sduBlocks st.2.1)
      (sduBlocks (macDemuxEntry env m rnti' st entry).2.1) := by
  obtain ⟨s, rlcData, dataPtr⟩ := st
  unfold macDemuxEntry
  simp only
  split
  · rename_i hch
    obtain ⟨hpos, hle⟩ := hv hch
    have hccch : Handles env rnti lcId s _ (0 + sduBlocks rlcData) (0 + sduBlocks rlcData) :=
      (macDemuxCcch_handles env s rnti' (fun k => m (dataPtr + k)) hpos
        (show entry.length < 2 ^ 16 by omega)).frame (sduBlocks rlcData)
    rw [zero_add] at hccch
    exact hccch.seq (countKpi_handles env _ _ _)
  · split
    · have honly := macDemuxOneToTenLchMsg_onlyMem env s rlcData entry.lchId
        (fun k => m (dataPtr + k)) entry.length
      have ht := (macDemuxOneToTenLchMsg_transfer env s rlcData entry.lchId
        (fun k => m (dataPtr + k)) entry.length).2
      obtain ⟨hccch, hinds⟩ := macDemuxOneToTenLchMsg_sameCalls env s rlcData entry.lchId
        (fun k => m (dataPtr + k)) entry.length
      have hone : Handles env rnti lcId s (macDemuxOneToTenLchMsg env s rlcData entry.lchId
          (fun k => m (dataPtr + k)) entry.length).1 (sduBlocks rlcData) _ :=
        .of_onlyMem (fun x => .quiet (receives_onlyMem honly ht) (OnlyMem.sameRrc honly)
          (hccch ▸ List.Subset.refl _)) hinds honly ht
      exact hone.seq (countKpi_handles env _ _ _)
    · repeat' split
      all_goals exact .refl env rnti lcId s _

theorem macDemuxLoop_handles (env : MacPlatform β) (m : Nat → UInt8) (rnti' : UInt16)
    (l : List DemuxDataBase) (hl : ∀ entry ∈ l, entry.Valid)
    (st : UlState β × Option (RlcUlData β) × Nat) :
    Handles env rnti lcId st.1 (l.foldl (macDemuxEntry env m rnti') st).1 (sduBlocks st.2.1)
      (sduBlocks (l.foldl (macDemuxEntry env m rnti') st).2.1) := by
  induction l generalizing st with
  | nil => exact .refl env rnti lcId st.1 _
  | cons entry l ih =>
      have hfirst : Handles env rnti lcId st.1 _ (sduBlocks st.2.1) _ :=
        macDemuxEntry_handles env m rnti' st (hl entry List.mem_cons_self)
      exact hfirst.seq (ih (fun y hy => hl y (List.mem_cons_of_mem entry hy)) _)

/-! ### The buffers are filled -/

theorem AllFilled.congr {mem mem' : Store β} {rlcData : Option (RlcUlData β)}
    (h : AllFilled mem rlcData) (hk : ∀ b ∈ sduBlocks rlcData, mem'.length b = mem.length b) :
    AllFilled mem' rlcData := by
  intro d hd info hinfo
  obtain rfl : rlcData = some d := hd
  obtain ⟨b, hb, hlen⟩ := h d rfl info hinfo
  exact ⟨b, hb, (hk b (buffer_mem hinfo hb)).trans hlen⟩

/-- An SDU that is copied has a buffer of its length. -/
theorem macDemuxOneToTenLchMsg_filled {rlcData r : Option (RlcUlData β)} {lchId length : Nat}
    {src : Nat → UInt8} (h : macDemuxOneToTenLchMsg env s rlcData lchId src length = (t, r))
    (hf : t.mem.failures = s.mem.failures) (hin : sduBlocks rlcData ≤ s.mem.inUse)
    (hfilled : AllFilled s.mem rlcData) : AllFilled t.mem r := by
  unfold macDemuxOneToTenLchMsg at h
  split at h
  · obtain ⟨rfl, rfl⟩ := Prod.mk.inj h
    exact hfilled
  cases hfor : rlcUlDataFor env s rlcData with
  | mk u o =>
      have hle1 := (rlcUlDataFor_transfer hfor).2.failures
      rw [hfor] at h
      cases o with
      | none =>
          obtain ⟨rfl, rfl⟩ := Prod.mk.inj h
          intro d hd
          cases hd
      | some d =>
          cases hua : u.alloc env length with
          | mk v o =>
              have hle2 := (ulAlloc_transfer hua).2.failures
              simp only [hua] at h
              cases o with
              | none =>
                  obtain ⟨rfl, rfl⟩ := Prod.mk.inj h
                  have hfv : v.mem.failures = s.mem.failures := hf
                  obtain ⟨b, hb, -⟩ := ulAlloc_some hua (by omega)
                  cases hb
              | some buffer =>
                  obtain ⟨rfl, rfl⟩ := Prod.mk.inj h
                  have hfv : v.mem.failures = s.mem.failures := hf
                  obtain ⟨d', hd, harray, -⟩ := rlcUlDataFor_some hfor (by omega)
                  obtain rfl := Option.some.inj hd
                  have halloc : u.toRlcState.alloc env.toPlatform length
                      = (v.toRlcState, some buffer) :=
                    Prod.ext (congrArg (fun p => p.1.toRlcState) hua)
                      (congrArg (fun p => p.2) hua)
                  intro d' hd' info hinfo
                  obtain rfl := Option.some.inj hd'
                  rcases List.mem_append.mp hinfo with hinfo | hinfo
                  · -- an entry from before
                    obtain ⟨hrlc, rfl⟩ : rlcData = some d ∧ s = u := by
                      cases rlcData with
                      | none =>
                          rw [harray] at hinfo
                          cases hinfo
                      | some d' =>
                          obtain ⟨hsu, hd'⟩ := Prod.mk.inj hfor
                          exact ⟨hd', hsu⟩
                    obtain ⟨b, hb, hlen⟩ := hfilled d hrlc info hinfo
                    have hbin : b ∈ s.mem.inUse := by
                      refine Multiset.mem_of_le hin ?_
                      rw [hrlc]
                      exact buffer_mem hinfo hb
                    exact ⟨b, hb, (alloc_keepsLength halloc hbin).1.trans hlen⟩
                  · obtain rfl := List.mem_singleton.mp hinfo
                    exact ⟨buffer, rfl, (alloc_fresh halloc).2.1⟩

theorem macDemuxEntry_filled {m : Nat → UInt8} {st st' : UlState β × Option (RlcUlData β) × Nat}
    (h : macDemuxEntry env m rnti' st entry = st') (hv : entry.Valid)
    (hf : st'.1.mem.failures = st.1.mem.failures) (hs : RlcSound st.1.toRlcState)
    (hr : RrcSound st.1.toRrcState (st.1.rlcOwned + (sduBlocks st.2.1 + f)))
    (hfilled : AllFilled st.1.mem st.2.1) : AllFilled st'.1.mem st'.2.1 := by
  obtain ⟨s, rlcData, dataPtr⟩ := st
  subst h
  unfold macDemuxEntry at hf ⊢
  simp only at hf ⊢
  by_cases hch : entry.lchId = macUlCcchLch
  · obtain ⟨hpos, hle⟩ := hv hch
    rw [if_pos hch] at hf ⊢
    have hreceives := macDemuxCcch_receives env s rnti' (fun k => m (dataPtr + k))
      (show entry.length % 2 ^ 16 ≠ 0 by omega)
    have hkept := receives_keepsBlocks (f := sduBlocks rlcData + f) hreceives
      (hreceives.joined hf) hs (by rw [zero_add]; exact hr)
    exact hfilled.congr fun b hb => (hkept b (Multiset.mem_add.mpr (Or.inl hb))).1
  rw [if_neg hch] at hf ⊢
  by_cases hle : entry.lchId ≤ macLcid10
  · rw [if_pos hle] at hf ⊢
    have hin : sduBlocks rlcData ≤ s.mem.inUse := calc
      sduBlocks rlcData ≤ sduBlocks rlcData + f := Multiset.le_add_right _ f
      _ ≤ s.rlcOwned + (sduBlocks rlcData + f) := Multiset.le_add_left _ _
      _ ≤ s.mem.inUse := inHand_le hr
    exact macDemuxOneToTenLchMsg_filled (t := (macDemuxOneToTenLchMsg env s rlcData entry.lchId
      (fun k => m (dataPtr + k)) entry.length).1) rfl hf hin hfilled
  rw [if_neg hle]
  repeat' split
  all_goals exact hfilled

theorem macDemuxLoop_filled {m : Nat → UInt8} {l : List DemuxDataBase}
    {st : UlState β × Option (RlcUlData β) × Nat} (hl : ∀ entry ∈ l, entry.Valid)
    (hf : (l.foldl (macDemuxEntry env m rnti') st).1.mem.failures = st.1.mem.failures)
    (hs : RlcSound st.1.toRlcState)
    (hr : RrcSound st.1.toRrcState (st.1.rlcOwned + (sduBlocks st.2.1 + f)))
    (hfilled : AllFilled st.1.mem st.2.1) :
    AllFilled (l.foldl (macDemuxEntry env m rnti') st).1.mem
      (l.foldl (macDemuxEntry env m rnti') st).2.1 := by
  induction l generalizing st with
  | nil => exact hfilled
  | cons entry l ih =>
      have hvalid := hl entry List.mem_cons_self
      have hrest : ∀ y ∈ l, y.Valid := fun y hy => hl y (List.mem_cons_of_mem entry hy)
      have hfirst := macDemuxEntry_receives env m rnti' st hvalid
      have hle1 := hfirst.failures
      have hle2 := (macDemuxLoop_receives env m rnti' l hrest
        (macDemuxEntry env m rnti' st entry)).failures
      rw [List.foldl_cons] at hf ⊢
      have hfu : (macDemuxEntry env m rnti' st entry).1.mem.failures = st.1.mem.failures := by
        omega
      obtain ⟨hu, hru⟩ := hfirst.sound rfl (hfirst.joined hfu) hs hr
      exact ih hrest (hf.trans hfu.symm) hu hru (macDemuxEntry_filled rfl hvalid hfu hs hr hfilled)

/-! ### PDUs -/

/-- **The SDUs of a PDU are received.** -/
theorem macUeDataInd_serves (env : MacPlatform β) (hlc : lcId ≤ srb2LcId) {s : RlcState β}
    (addr : β) (rnti' : UInt16) {rlcData : Option (RlcUlData β)}
    (hfilled : AllFilled s.mem rlcData) :
    Serves env.toPlatform rnti lcId s (macUeDataInd env s addr rnti' rlcData)
      (sduBlocks rlcData + {addr}) 0
      (pdusFor rnti lcId ⟨rnti', rlcData.map fun d => d.rlcDataArray.map (sduOf s.mem)⟩) := by
  unfold macUeDataInd
  cases rlcData with
  | none =>
      refine (free_serves env.toPlatform s addr).congr ?_ rfl
      exact (zero_add _).symm
  | some d =>
      have hloop : Serves env.toPlatform rnti lcId s
          (d.rlcDataArray.foldl (macUeDataIndEntry env rnti') s) _ _ _ :=
        (macUeDataIndLoop_serves hlc (hfilled d rfl)).frame ({d.addr} + {addr})
      have hfree : Serves env.toPlatform rnti lcId
          (d.rlcDataArray.foldl (macUeDataIndEntry env rnti') s) _ _ _ [] :=
        (free_serves env.toPlatform _ d.addr).frame ({addr} : Multiset β)
      rw [zero_add] at hloop hfree
      have hend := (hloop.seq hfree).seq (free_serves env.toPlatform _ addr)
      rw [List.append_nil, List.append_nil] at hend
      refine hend.congr ?_ rfl
      unfold sduBlocks
      rw [Option.elim_some]
      ac_rfl

/-- **A PDU is split**, and its SDUs are received. -/
theorem macDeMultiplexAndSend_handles (env : MacPlatform β) (hlc : lcId ≤ srb2LcId)
    (s : UlState β) (m : Nat → UInt8) (dataPtr : Nat) (rnti' : UInt16) (l : List DemuxDataBase)
    (hl : ∀ entry ∈ l, entry.Valid) :
    Handles env rnti lcId s (macDeMultiplexAndSend env s m dataPtr rnti' l) 0 0 := by
  unfold macDeMultiplexAndSend
  cases ha : s.alloc env (env.sizeof .macUeDataInd) with
  | mk t o =>
      have halloc : Handles env rnti lcId s t 0 (blockOf o) := ulAlloc_handles ha
      cases o with
      | none => exact halloc
      | some addr =>
          have hloop : Handles env rnti lcId t _ (0 + {addr}) _ :=
            (macDemuxLoop_handles env m rnti' l hl (t, none, dataPtr)).frame {addr}
          have hfilled : ∀ f,
              (l.foldl (macDemuxEntry env m rnti') (t, none, dataPtr)).1.mem.failures
                = t.mem.failures → RlcSound t.toRlcState →
                RrcSound t.toRrcState (t.rlcOwned + (0 + f)) → AllFilled _ _ :=
            fun f hf hs hr => macDemuxLoop_filled (f := f) hl hf hs hr fun d hd => by cases hd
          simp only
          -- from here on only the outcome of the loop matters
          generalize l.foldl (macDemuxEntry env m rnti') (t, none, dataPtr) = st
            at hloop hfilled ⊢
          rw [zero_add] at hloop
          obtain ⟨inds, hlog, hserves⟩ := halloc.seq hloop
          obtain ⟨inds', hlog', hserves'⟩ := halloc
          have hreceives := macUeDataInd_receives env st.1.toRlcState addr rnti' st.2.1
          refine ⟨inds ++ [⟨rnti', st.2.1.map fun d => d.rlcDataArray.map (sduOf st.1.mem)⟩], ?_,
            hserves.toReceives.seq hreceives, fun hf f hs hg => ?_⟩
          · show st.1.macUeDataInds ++ _ = _
            rw [hlog, List.append_assoc]
          · have hle1 : s.mem.failures ≤ t.mem.failures := hserves'.failures
            have hle2 : t.mem.failures ≤ st.1.mem.failures := hloop.receives.failures
            have hle3 : st.1.mem.failures ≤ s.mem.failures := hreceives.failures.trans hf.le
            have hft : t.mem.failures = s.mem.failures := by omega
            have hfst : st.1.mem.failures = t.mem.failures := by omega
            obtain ⟨ht, hgt⟩ := hserves'.gathered hft hs hg
            obtain ⟨hst, hgst⟩ := hserves.gathered (hfst.trans hft) hs hg
            have hall : AllFilled st.1.mem st.2.1 := by
              refine hfilled ({addr} + f) hfst ht ?_
              rw [zero_add]
              exact hgt.toRrcSound
            rw [List.flatMap_append, List.flatMap_singleton]
            refine (hserves.served (hfst.trans hft) f hs hg).trans ?_
            exact (macUeDataInd_serves env hlc addr rnti' hall).served
              (hf.trans (hfst.trans hft).symm) f hst hgst

theorem macProcessUlSchPdu_handles (hlc : lcId ≤ srb2LcId) {fuel length : Nat}
    {m : Nat → UInt8} (h : macProcessUlSchPdu env fuel s m length rnti' = some t) :
    Handles env rnti lcId s t 0 0 := by
  unfold macProcessUlSchPdu at h
  split at h
  · obtain rfl := Option.some.inj h
    exact .refl env rnti lcId s 0
  · obtain ⟨st, hst, rfl⟩ := Option.map_eq_some_iff.mp h
    have hvalid := valid_macLoop (by simp [Decode.start]) hst
    split
    · exact macDeMultiplexAndSend_handles env hlc s m st.pData rnti' st.demuxData hvalid
    · exact .refl env rnti lcId s 0

/-- A MAC context is no business of RLC. -/
theorem macFindOrCreate_leavesAlone (h : macFindOrCreate env s rnti' = (t, o)) (rnti : UInt16)
    (lcId : Nat) :
    t.macUeDataInds = s.macUeDataInds ∧ t.rlcUeDataInds = s.rlcUeDataInds ∧
      ∀ f, RrcSound s.toRrcState (s.rlcOwned + (0 + f)) →
        LeavesAlone s.toRlcState t.toRlcState rnti lcId := by
  unfold macFindOrCreate at h
  cases hg : macGetUeContext s.toMacState rnti' with
  | some a =>
      rw [hg] at h
      obtain ⟨rfl, rfl⟩ := Prod.mk.inj h
      exact ⟨rfl, rfl, fun _ _ => .refl _ rnti lcId⟩
  | none =>
      rw [hg] at h
      obtain ⟨rfl, rfl⟩ := Prod.mk.inj h
      refine ⟨rfl, rfl, fun f hr => ?_⟩
      have ht := (alloc_transfer env.toPolicy s.mem (env.sizeof .macUeContext)).frame
        s.toRrcState.owned
      rw [add_comm 0] at ht
      have hmem : (macCreateUeContext env.toPlatform s.toMacState rnti').1.mem
          = (s.mem.alloc env.toPolicy (env.sizeof .macUeContext)).1 := by
        unfold macCreateUeContext
        cases ha : s.toMacState.alloc env.toPlatform (env.sizeof .macUeContext) with
        | mk u o' =>
            obtain rfl : (s.toMacState.alloc env.toPlatform (env.sizeof .macUeContext)).1 = u :=
              congrArg Prod.fst ha
            cases o' <;> rfl
      rw [← hmem] at ht
      exact .of_transfer (t := (s.onRlc fun t => { t with toMacState :=
        (macCreateUeContext env.toPlatform s.toMacState rnti').1 }).toRlcState) ht hr rfl rfl rfl
        rnti lcId

theorem macRecordPdu_handles (env : MacPlatform β) (s : UlState β) (head : RxUlSchIndHeadPdu) :
    Handles env rnti lcId s (macRecordPdu env s head) 0 0 := by
  have hretains := fun x => macRecordPdu_retains env s head (r := rnti) (x := x)
  unfold macRecordPdu at hretains ⊢
  cases hf : macFindOrCreate env s head.rnti with
  | mk t o =>
      obtain ⟨hlog, hcalls, halone⟩ := macFindOrCreate_leavesAlone hf rnti lcId
      rw [hf] at hretains
      cases o with
      | none => exact .of_retains hretains hlog hcalls halone
      | some a =>
          refine .of_retains hretains hlog hcalls fun f hr => ?_
          exact ⟨(halone f hr).old, (halone f hr).kept, (halone f hr).sdus⟩

theorem macProcessPdu_handles (hlc : lcId ≤ srb2LcId) {fuel : Nat} {data : Nat → UInt8}
    {head : RxUlSchIndHeadPdu} {tempLen : UInt16}
    (h : macProcessPdu env fuel s data head tempLen = some t) :
    Handles env rnti lcId s t 0 0 := by
  unfold macProcessPdu at h
  split at h
  · have hcount : Handles env rnti lcId s _ 0 0 := countKpi_handles env s
      (fun kpi => { kpi with crcCorrect := kpi.crcCorrect + 1 }) 0
    exact (hcount.seq (macRecordPdu_handles env _ head)).seq (macProcessUlSchPdu_handles hlc h)
  · obtain rfl := Option.some.inj h
    exact countKpi_handles env s _ 0

theorem macProcessPdus_handles (hlc : lcId ≤ srb2LcId) {fuel : Nat} {data : Nat → UInt8}
    {length : UInt16} {left : Nat} {tempLen : UInt16}
    (h : macProcessPdus env fuel data length left tempLen s = some t) :
    Handles env rnti lcId s t 0 0 := by
  -- on the PDUs that are left, as for `macProcessPdus_retains`
  induction left generalizing s tempLen with
  | zero =>
      obtain rfl := Option.some.inj h
      exact .refl env rnti lcId s 0
  | succ left ih =>
      rw [macProcessPdus] at h
      split at h
      · simp only at h
        split at h
        · obtain rfl := Option.some.inj h
          exact .refl env rnti lcId s 0
        · obtain ⟨u, hu, h⟩ := Option.bind_eq_some_iff.mp h
          exact (macProcessPdu_handles hlc hu).seq (ih h)
      · obtain rfl := Option.some.inj h
        exact .refl env rnti lcId s 0

/-- **An indication** of any contents. -/
theorem macProcessPhyDataInd_handles (hlc : lcId ≤ srb2LcId) {fuel : Nat}
    {pBuffer : Option (Nat → UInt8)} {length : UInt16}
    (h : macProcessPhyDataInd env fuel s pBuffer length = some t) :
    Handles env rnti lcId s t 0 0 := by
  unfold macProcessPhyDataInd at h
  split at h
  · obtain rfl := Option.some.inj h
    exact .refl env rnti lcId s 0
  · split at h
    · exact macProcessPdus_handles hlc h
    · obtain rfl := Option.some.inj h
      exact .refl env rnti lcId s 0

end Handling

end LteUlp.Worker
