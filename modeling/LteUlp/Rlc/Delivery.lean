import LteUlp.Rlc.PduFormat
import LteUlp.Rlc.RawSdu

set_option autoImplicit false
set_option linter.unusedSectionVars false

/-! # What is delivered on a channel

The bytes of the fields of a packet go through the abstract reassembler: what is delivered is
handed to `RlcUeDataInd`, and what is kept are the bytes of the incomplete SDU of the entity
(`Delivers`). This is shown for a field, for the fields of a PDU and for a packet, and then
for the packets of one channel, one after the other (`channelRun_receives`). No allocation is
refused, and no SDU becomes longer than 65535 bytes.
-/

namespace LteUlp.Rlc

open BlockStore LteUlp.Rrc LteUlp.Mac LteUlp.Pdcp RlcSduStatus

variable {β : Type} [DecidableEq β] {env : Platform β}

/-! ## Fields -/

/-- From `s` to `t` the entity delivers and keeps what `r` says, and the blocks `xs` besides
are left as they are. -/
structure Delivers (s t : RlcState β) (e : β) (xs : Multiset β)
    (r : Option (Partial (List UInt8)) × List (List UInt8)) : Prop where
  raw : rawBytes t e = r.1
  exact : RawExact t e
  calls : t.rlcUeDataInds.map SduInd.delivery
    = s.rlcUeDataInds.map SduInd.delivery ++ bytesCalls (channel s e) r.2
  channel : channel t e = channel s e
  inHand : ∃ l, InHand t e (l + xs)
  kept : ∀ b ∈ xs, t.mem.length b = s.mem.length b ∧ t.mem.bytes b = s.mem.bytes b

/-- An SDU that a field continues does not become longer than 65535 bytes. -/
def ShortField (sn : Nat) (raw : Option (Partial (List UInt8)))
    (f : RlcSduStatus × List UInt8) : Prop :=
  ∀ p ∈ raw, continues sn f.1 p.sn = true → p.data.length + f.2.length < 2 ^ 16

/-- The same for fields, one after the other. -/
def ShortFields (sn : Nat) :
    Option (Partial (List UInt8)) → List (RlcSduStatus × List UInt8) → Prop
  | _, [] => True
  | raw, f :: fs =>
      ShortField sn raw f ∧ ShortFields sn (reassemble (· ++ ·) sn raw f.1 f.2).1 fs

section Fields

variable {s t u : RlcState β} {e b : β} {sn : Nat} {dfe : AmdDfe β} {xs ys : Multiset β}
  {r r' : Option (Partial (List UInt8)) × List (List UInt8)}

theorem Delivers.trans (h : Delivers s t e (ys + xs) r)
    (h' : ∀ l, InHand t e (ys + (l + xs)) → Delivers t u e (l + xs) r') :
    Delivers s u e xs (r'.1, r.2 ++ r'.2) := by
  obtain ⟨l, hl⟩ := h.inHand
  have hl' : InHand t e (ys + (l + xs)) := ⟨hl.nodup, by rw [hl.inUse]; ac_rfl⟩
  have hk := h' l hl'
  obtain ⟨l', hu⟩ := hk.inHand
  refine ⟨hk.raw, hk.exact, ?_, hk.channel.trans h.channel, ⟨l' + l, ?_⟩, fun b hb => ?_⟩
  · rw [hk.calls, h.calls, h.channel, List.append_assoc]
    simp only [bytesCalls, List.map_append]
  · rwa [add_assoc]
  · obtain ⟨h1, h2⟩ := hk.kept b (by simp [hb])
    obtain ⟨h3, h4⟩ := h.kept b (by simp [hb])
    exact ⟨h1.trans h3, h2.trans h4⟩

/-- The incomplete SDU, when its block is left alone. -/
theorem rawBytes_congr (hraw : (t.rxAmEntity e).rxRawSdu = (s.rxAmEntity e).rxRawSdu)
    (hb : ∀ a ∈ rawBlock s e, t.mem.bytes a = s.mem.bytes a) : rawBytes t e = rawBytes s e := by
  unfold rawBytes
  rw [hraw]
  cases hp : (s.rxAmEntity e).rxRawSdu.rawSdu.pData with
  | none => rfl
  | some a =>
      rw [Option.map_some, Option.map_some]
      congr 2
      apply bytes_congr
      intro c hc
      exact hb c (mem_rawBlock.mpr hc)

theorem rawExact_congr (hraw : (t.rxAmEntity e).rxRawSdu = (s.rxAmEntity e).rxRawSdu)
    (hl : ∀ a ∈ rawBlock s e, t.mem.length a = s.mem.length a) (h : RawExact s e) :
    RawExact t e := by
  intro a ha
  rw [hraw] at ha ⊢
  rw [hl a (mem_rawBlock.mpr ha)]
  exact h a ha

/-- A block in hand is released. -/
theorem Delivers.free (h : Delivers s t e ({b} + xs) r) : Delivers s (t.free b) e xs r := by
  obtain ⟨l, hl⟩ := h.inHand
  have hl' : InHand t e ({b} + (l + xs)) := ⟨hl.nodup, by rw [hl.inUse]; ac_rfl⟩
  obtain ⟨hfree, hlen⟩ := hl'.free
  have hbytes : (t.free b).mem.bytes = t.mem.bytes := release_bytes t.mem b
  have hkeep : ∀ c ∈ rawBlock t e, (t.free b).mem.length c = t.mem.length c :=
    fun c hc => hlen c (Multiset.mem_add.mpr (Or.inl hc))
  refine ⟨?_, rawExact_congr (s := t) rfl hkeep h.exact, h.calls, h.channel, ⟨l, hfree⟩,
    fun c hc => ?_⟩
  · rw [← h.raw]
    exact rawBytes_congr rfl fun c _ => by rw [hbytes]
  · obtain ⟨h1, h2⟩ := h.kept c (by simp [hc])
    refine ⟨?_, ?_⟩
    · rw [hlen c (by simp [hc]), h1]
    · rw [hbytes, h2]

/-- **One field**, with the blocks `xs` besides its own. -/
theorem rlcReassembleAmdDfe_delivers (hu : InHand s e (dfe.blocks + xs)) (hraw : RawExact s e)
    (hd : dfe.Sound s.mem)
    (hf : (rlcReassembleAmdDfe env sn e s dfe).mem.failures = s.mem.failures)
    (hshort : ShortField sn (rawBytes s e) (dfe.field s.mem)) :
    Delivers s (rlcReassembleAmdDfe env sn e s dfe) e xs
      ((reassemble (· ++ ·) sn (rawBytes s e) dfe.status (dfe.buffer.bytes s.mem)).1,
        (reassemble (· ++ ·) sn (rawBytes s e) dfe.status
          (dfe.buffer.bytes s.mem)).2.toList) := by
  have hj := (rlcReassembleAmdDfe_works env sn e s dfe).leaves.joined hf
  obtain ⟨u, ht, heffect, hw⟩ := rlcReassembleAmdDfe_effect hd.isSome hj
  rw [ht] at hj ⊢
  have hju : u.refusedJoins = s.refusedJoins := hj
  -- the data is used up, and the element itself is left
  obtain ⟨l, htransfer, -⟩ := hw.leaves.transfer hju
  have hk := htransfer.keeps ({dfe.addr} + xs) hu.nodup (by
    rw [hu.inUse, AmdDfe.blocks]
    ac_rfl)
  have huser : InHand u e (l + ({dfe.addr} + xs)) := by
    refine ⟨hk.nodup, ?_⟩
    rw [hk.inUse]
    ac_rfl
  have hblocks : ∀ a c, (s.rxAmEntity e).rxRawSdu.rawSdu.pData = some a →
      dfe.buffer.pData = some c → a ∈ s.mem.inUse ∧ c ∈ s.mem.inUse ∧ a ≠ c := by
    intro a c ha hc
    have ha' : a ∈ rawBlock s e := mem_rawBlock.mpr ha
    have hc' : c ∈ dfe.blocks + xs := by
      rw [AmdDfe.blocks, hc]
      simp
    exact ⟨hu.mem_raw ha', hu.mem hc', hu.ne ha' hc'⟩
  obtain ⟨hexact, hbytes, hcalls⟩ := heffect.bytes hblocks hraw hd hshort
  apply Delivers.free
  refine ⟨hbytes, hexact, hcalls, Prod.ext hw.only.rnti hw.only.lcId, ⟨l, huser⟩, fun b hb => ?_⟩
  exact ⟨hk.length b hb, hk.bytes b hb⟩

/-- An element that is left alone. -/
theorem field_congr {m m' : Store β} (h : ∀ b ∈ dfe.blocks, m'.bytes b = m.bytes b) :
    dfe.field m' = dfe.field m := by
  unfold AmdDfe.field
  congr 1
  apply bytes_congr
  intro b hb
  apply h
  rw [AmdDfe.blocks, hb]
  simp

theorem AmdDfe.Sound.congr {m m' : Store β} (hd : dfe.Sound m)
    (h : ∀ b ∈ dfe.blocks, m'.length b = m.length b) : dfe.Sound m' := by
  have hlen : ∀ b, dfe.buffer.pData = some b → m'.length b = m.length b := by
    intro b hb
    apply h
    rw [AmdDfe.blocks, hb]
    simp
  refine ⟨hd.isSome, hd.size, fun b hb => ?_, fun hst b hb => ?_⟩
  · rw [hlen b hb]
    exact hd.fits b hb
  · rw [hlen b hb]
    exact hd.exact hst b hb

theorem blocks_mem_queue {q : List (AmdDfe β)} {d : AmdDfe β} (hd : d ∈ q) {c : β}
    (hc : c ∈ d.blocks) : c ∈ queueBlocks q :=
  Multiset.mem_of_le (Multiset.single_le_sum (fun _ _ => zero_le) _
    (Multiset.mem_coe.mpr (List.mem_map_of_mem hd))) hc

/-- **The fields of a PDU.** -/
theorem queue_delivers {q : List (AmdDfe β)} (hq : ∀ d ∈ q, d.Sound s.mem)
    (hu : InHand s e (queueBlocks q + xs)) (hraw : RawExact s e)
    (hf : (q.foldl (rlcReassembleAmdDfe env sn e) s).mem.failures = s.mem.failures)
    (hshort : ShortFields sn (rawBytes s e) (q.map (AmdDfe.field s.mem))) :
    Delivers s (q.foldl (rlcReassembleAmdDfe env sn e) s) e xs
      (reassembleAll (· ++ ·) sn (rawBytes s e) (q.map (AmdDfe.field s.mem))) := by
  induction q generalizing s xs with
  | nil =>
      rw [queueBlocks_nil, zero_add] at hu
      exact ⟨rfl, hraw, (List.append_nil _).symm, rfl, ⟨0, by rwa [zero_add]⟩,
        fun _ _ => ⟨rfl, rfl⟩⟩
  | cons dfe q ih =>
      rw [queueBlocks_cons, add_assoc] at hu
      rw [List.foldl_cons] at hf ⊢
      have h1 := (rlcReassembleAmdDfe_works env sn e s dfe).failures
      have h2 := (rlcReassembleAmdDfeQ_works env sn e q
        (rlcReassembleAmdDfe env sn e s dfe)).failures
      have hf1 : (rlcReassembleAmdDfe env sn e s dfe).mem.failures = s.mem.failures := by
        omega
      have hfirst := rlcReassembleAmdDfe_delivers hu hraw (hq dfe List.mem_cons_self) hf1
        hshort.1
      have hkept : ∀ d ∈ q, ∀ b ∈ d.blocks, b ∈ queueBlocks q + xs := fun d hd b hb =>
        Multiset.mem_add.mpr (Or.inl (blocks_mem_queue hd hb))
      have hfields : q.map (AmdDfe.field (rlcReassembleAmdDfe env sn e s dfe).mem)
          = q.map (AmdDfe.field s.mem) :=
        List.map_congr_left fun d hd =>
          field_congr fun b hb => (hfirst.kept b (hkept d hd b hb)).2
      refine hfirst.trans fun l hl => ?_
      have hrest := ih
        (fun d hd => (hq d (List.mem_cons_of_mem dfe hd)).congr
          fun b hb => (hfirst.kept b (hkept d hd b hb)).1)
        hl hfirst.exact (hf.trans hf1.symm) (by rw [hfields, hfirst.raw]; exact hshort.2)
      rw [hfields, hfirst.raw] at hrest
      exact hrest

end Fields

/-! ## A packet -/

section Packet

variable {s t : RlcState β} {e b : β} {xs : Multiset β} {h : AmdHeader} {lcId length : Nat}
  {o : Option (AmdPdu β)} {r : Option (Partial (List UInt8)) × List (List UInt8)}

/-- What comes before the reassembly, when no allocation is refused: the elements of the PDU
are its fields. -/
theorem rlcNewAmdPdu_fields (hn : rlcNewAmdPdu env s h ⟨lcId, length, some b⟩ = (t, o))
    (hf : t.mem.failures = s.mem.failures) (hnd : s.mem.inUse.Nodup)
    (hu : s.mem.inUse = {b} + xs) (hrf : h.rf = 0) (hlen : s.mem.length b = length)
    (hlt : length < 2 ^ 16) (hfit : Fits (s.mem.bytes b) length h) :
    ∃ p seg q, o = some p ∧ p.segList = [⟨seg, q⟩] ∧
      q.map (AmdDfe.field t.mem) = fields (s.mem.bytes b) length h ∧
      ∀ d ∈ q, d.Sound t.mem := by
  unfold rlcNewAmdPdu at hn
  cases hc : rlcCreateAmdPdu env s with
  | mk u c =>
      rw [hc] at hn
      cases c with
      | none =>
          obtain rfl : u.free? (some b) = t := congrArg Prod.fst hn
          have hlt := (alloc_refused (rlcCreateAmdPdu_none hc) b).2
          have hfree := (free?_works u b (some b)).failures
          exact absurd hf (hlt.trans_le hfree).ne'
      | some pdu =>
          obtain ⟨ha, hseg⟩ := rlcCreateAmdPdu_some hc
          have hw := alloc_memWorks ha
          have hku := hw.transfer.keeps ({b} + xs) hnd (by rw [hu, zero_add])
          have hbmem : b ∈ {b} + xs := by simp
          have hbytes := hku.bytes b hbmem
          simp only [hrf, ne_eq, not_true_eq_false, if_false] at hn
          cases hd : rlcDecodeAmdPdu env u pdu h ⟨lcId, length, some b⟩ with
          | mk v c =>
              have hdw := rlcDecodeAmdPdu_memWorks env u h ⟨lcId, length, some b⟩ hseg
              rw [hd] at hdw hn
              have hle1 := hw.transfer.failures
              have hle2 : u.mem.failures ≤ v.mem.failures := hdw.transfer.failures
              have hle3 : v.mem.failures ≤ t.mem.failures := by
                cases c with
                | none =>
                    obtain rfl : rlcDeleteAmdPdu v pdu = t := congrArg Prod.fst hn
                    exact (rlcDeleteAmdPdu_works v b pdu).failures
                | some p =>
                    obtain rfl : v = t := congrArg Prod.fst hn
                    exact le_rfl
              have huu : u.mem.inUse = {b} + ({pdu.addr} + xs) := by
                rw [hku.inUse, blockOf_some]
                ac_rfl
              obtain ⟨p, seg, q, rfl, -, hsegs, hfields, hsound⟩ :=
                rlcDecodeAmdPdu_fields hseg hd (by omega) hku.nodup huu
                  ((hku.length b hbmem).trans hlen) hlt (by rw [hbytes]; exact hfit)
              obtain ⟨rfl, rfl⟩ := Prod.mk.inj hn
              exact ⟨_, seg, q, rfl, hsegs, by rw [hfields, hbytes], hsound⟩

/-- Writing to the ring. -/
theorem Delivers.setRing (h : Delivers s t e xs r) (k : Nat) (node : RingNode β) :
    Delivers s (t.setRing e k node) e xs r := by
  have hraw : ((t.setRing e k node).rxAmEntity e).rxRawSdu = (t.rxAmEntity e).rxRawSdu := by
    simp [RlcState.setRing, RlcState.setEntity]
  have hch : Rlc.channel (t.setRing e k node) e = Rlc.channel t e := by
    simp [Rlc.channel, RlcState.setRing, RlcState.setEntity]
  obtain ⟨l, hl⟩ := h.inHand
  refine ⟨?_, rawExact_congr hraw (fun _ _ => rfl) h.exact, h.calls, hch.trans h.channel,
    ⟨l, hl.setRing k node⟩, h.kept⟩
  rw [rawBytes_congr hraw fun _ _ => rfl, h.raw]

/-- From a state that differs in the ring or in blocks that are not left alone. -/
theorem Delivers.after {u : RlcState β} (h : Delivers s t e xs r)
    (hinds : s.rlcUeDataInds = u.rlcUeDataInds) (hch : Rlc.channel s e = Rlc.channel u e)
    (hkept : ∀ b ∈ xs, s.mem.length b = u.mem.length b ∧ s.mem.bytes b = u.mem.bytes b) :
    Delivers u t e xs r := by
  refine ⟨h.raw, h.exact, ?_, h.channel.trans hch, h.inHand, fun b hb => ?_⟩
  · rw [h.calls, hinds, hch]
  · obtain ⟨h1, h2⟩ := h.kept b hb
    obtain ⟨h3, h4⟩ := hkept b hb
    exact ⟨h1.trans h3, h2.trans h4⟩

/-- **A packet of the entity**, with the blocks `xs` besides its own. -/
theorem rlcProcessAmdPdu_delivers (hring : RingFree s e) (hu : InHand s e ({b} + xs))
    (hraw : RawExact s e) (hlen : s.mem.length b = length) (hlt : length < 2 ^ 16)
    (hrf : h.rf = 0) (hfit : Fits (s.mem.bytes b) length h)
    (hf : (rlcProcessAmdPdu env s e h ⟨lcId, length, some b⟩).mem.failures = s.mem.failures)
    (hshort : ShortFields h.sn (rawBytes s e) (fields (s.mem.bytes b) length h)) :
    Delivers s (rlcProcessAmdPdu env s e h ⟨lcId, length, some b⟩) e xs
      (reassembleAll (· ++ ·) h.sn (rawBytes s e) (fields (s.mem.bytes b) length h)) := by
  have hslot := hring (h.sn &&& 511)
  unfold rlcProcessAmdPdu at hf ⊢
  rw [if_pos (by rw [hslot]), rlcProcessNewAmdPdu_eq env h _ (by rw [hslot])] at hf ⊢
  cases hn : rlcNewAmdPdu env s h ⟨lcId, length, some b⟩ with
  | mk t o =>
      obtain ⟨hw, hcomplete⟩ := rlcNewAmdPdu_memWorks hn
      rw [hn] at hf
      have hle := hw.transfer.failures
      -- the decoding does not fail
      have hle' : t.mem.failures ≤ s.mem.failures := by
        cases o with
        | none => exact hf.le
        | some pdu =>
            have hgrows := rlcReassembleRlcSdu_grows env
              (t.setRing e (h.sn &&& 511) ⟨.inUse, some pdu⟩) h.sn e
            exact hgrows.failures.trans hf.le
      have hall : s.mem.inUse = {b} + (s.toRrcState.owned + rawBlock s e + xs) := by
        rw [hu.inUse]
        ac_rfl
      obtain ⟨pdu, seg, q, rfl, hsegs, hfields, hsound⟩ :=
        rlcNewAmdPdu_fields hn (by omega) hu.nodup hall hrf hlen hlt hfit
      simp only at hf ⊢
      rw [blockOf_some] at hw
      obtain ⟨ht, -⟩ := hu.memWorks hw
      have hk := hw.transfer.keeps (s.toRrcState.owned + rawBlock s e + xs) hu.nodup hall
      have honly := hw.only
      have hrawt : (t.rxAmEntity e).rxRawSdu = (s.rxAmEntity e).rxRawSdu := by
        rw [honly]
        rfl
      have hkraw : ∀ a ∈ rawBlock s e, a ∈ s.toRrcState.owned + rawBlock s e + xs := by
        intro a ha
        simp [ha]
      -- the state in which the fields are reassembled
      let v := (t.setRing e (h.sn &&& 511) ⟨.inUse, some pdu⟩).setRing e (h.sn &&& 511)
        ⟨.ready, some pdu⟩
      have hrawv : (v.rxAmEntity e).rxRawSdu = (s.rxAmEntity e).rxRawSdu := by
        rw [← hrawt]
        simp [v, RlcState.setRing, RlcState.setEntity]
      have hchv : channel v e = channel s e := by
        have hcht : channel t e = channel s e := by
          rw [honly]
          rfl
        rw [← hcht]
        simp [v, channel, RlcState.setRing, RlcState.setEntity]
      have hbytesv : rawBytes v e = rawBytes s e :=
        rawBytes_congr hrawv fun a ha => hk.bytes a (hkraw a ha)
      have hv : InHand v e (queueBlocks q + ({seg} + ({pdu.addr} + xs))) := by
        have hblocks : pdu.blocks + xs = queueBlocks q + ({seg} + ({pdu.addr} + xs)) := by
          rw [AmdPdu.blocks, hsegs, segBlocks_cons, segBlocks_nil]
          show {pdu.addr} + ({seg} + queueBlocks q + 0) + xs = _
          rw [add_zero]
          ac_rfl
        rw [Option.elim_some, hblocks] at ht
        exact (ht.setRing _ _).setRing _ _
      rw [rlcReassembleRlcSdu_eq (by simp [RlcState.setRing, RlcState.setEntity])
        (hcomplete pdu rfl), hsegs] at hf ⊢
      have hfq : (q.foldl (rlcReassembleAmdDfe env h.sn e) v).mem.failures = v.mem.failures := by
        have h1 := (rlcReassembleAmdDfeQ_works env h.sn e q v).failures
        have h2 := (free_works (q.foldl (rlcReassembleAmdDfe env h.sn e) v) e seg).failures
        have h3 := (free_works ((q.foldl (rlcReassembleAmdDfe env h.sn e) v).free seg) e
          pdu.addr).failures
        have h4 : (((q.foldl (rlcReassembleAmdDfe env h.sn e) v).free seg).free
            pdu.addr).mem.failures = s.mem.failures := hf
        have h5 : s.mem.failures ≤ v.mem.failures := hle
        omega
      have hqueue := queue_delivers (s := v) hsound hv
        (rawExact_congr hrawv (fun a ha => hk.length a (hkraw a ha)) hraw) hfq
        (by rw [hbytesv, show v.mem = t.mem from rfl, hfields]; exact hshort)
      rw [hbytesv, show v.mem = t.mem from rfl, hfields] at hqueue
      have hdone := (hqueue.free.free.setRing (h.sn &&& 511) ⟨.free, none⟩).after
        (u := s) (by rw [show v.rlcUeDataInds = t.rlcUeDataInds from rfl, honly]; rfl) hchv
        fun c hc => ⟨hk.length c (by simp [hc]), hk.bytes c (by simp [hc])⟩
      exact hdone

/-- No PDU is made of a segment, nor of one whose LIs are not a chain. -/
theorem rlcNewAmdPdu_ignored (env : Platform β) (lcId length : Nat)
    (hi : h.rf ≠ 0 ∨ h.e ≠ 0 ∧ rlcGetConcatenationHeaderInfo (s.mem.bytes b) = none) :
    (rlcNewAmdPdu env s h ⟨lcId, length, some b⟩).2 = none := by
  unfold rlcNewAmdPdu
  cases hc : rlcCreateAmdPdu env s with
  | mk u c =>
      cases c with
      | none => rfl
      | some pdu =>
          simp only
          by_cases hrf : h.rf ≠ 0
          · rw [if_pos hrf]
          rw [if_neg hrf]
          obtain ⟨he, hchain⟩ := hi.resolve_left hrf
          obtain ⟨ha, -⟩ := rlcCreateAmdPdu_some hc
          have hbytes : u.mem.bytes = s.mem.bytes := (alloc_fresh ha).2.2.1
          have hdecode : (rlcDecodeAmdPdu env u pdu h ⟨lcId, length, some b⟩).2 = none := by
            unfold rlcDecodeAmdPdu
            simp only [Option.elim_some, hbytes, hchain, if_neg he]
            split
            · rfl
            · split <;> rfl
          cases hd : rlcDecodeAmdPdu env u pdu h ⟨lcId, length, some b⟩ with
          | mk v o =>
              rw [hd] at hdecode
              obtain rfl : o = none := hdecode
              rfl

/-- **A PDU that is ignored** leaves the incomplete SDU as it is. -/
theorem rlcProcessAmdPdu_ignores (hring : RingFree s e) (hu : InHand s e ({b} + xs))
    (hraw : RawExact s e)
    (hi : h.rf ≠ 0 ∨ h.e ≠ 0 ∧ rlcGetConcatenationHeaderInfo (s.mem.bytes b) = none) :
    Delivers s (rlcProcessAmdPdu env s e h ⟨lcId, length, some b⟩) e xs (rawBytes s e, []) := by
  have hslot := hring (h.sn &&& 511)
  have hnone := rlcNewAmdPdu_ignored env lcId length hi
  unfold rlcProcessAmdPdu
  rw [if_pos (by rw [hslot]), rlcProcessNewAmdPdu_eq env h _ (by rw [hslot])]
  cases hn : rlcNewAmdPdu env s h ⟨lcId, length, some b⟩ with
  | mk t o =>
      rw [hn] at hnone
      obtain rfl : o = none := hnone
      obtain ⟨hw, -⟩ := rlcNewAmdPdu_memWorks hn
      rw [blockOf_some] at hw
      obtain ⟨ht, -⟩ := hu.memWorks hw
      have hk := hw.transfer.keeps (s.toRrcState.owned + rawBlock s e + xs) hu.nodup (by
        rw [hu.inUse]
        ac_rfl)
      have hsame : (t.rxAmEntity e).rxRawSdu = (s.rxAmEntity e).rxRawSdu := by
        rw [hw.only]
        rfl
      have hkraw : ∀ a ∈ rawBlock s e, a ∈ s.toRrcState.owned + rawBlock s e + xs := by
        intro a ha
        simp [ha]
      refine ⟨rawBytes_congr hsame fun a ha => hk.bytes a (hkraw a ha),
        rawExact_congr hsame (fun a ha => hk.length a (hkraw a ha)) hraw, ?_, ?_, ⟨0, ht⟩,
        fun c hc => ⟨hk.length c (by simp [hc]), hk.bytes c (by simp [hc])⟩⟩
      · rw [hw.only]
        exact (List.append_nil _).symm
      · rw [hw.only]
        rfl

end Packet

/-! ## The channel -/

/-- What the entity of a channel keeps, if there is one yet. -/
structure ChannelKeeps (s : RlcState β) (rnti : UInt16) (lcId : Nat)
    (raw : Option (Partial (List UInt8))) : Prop where
  entity : ∀ e ∈ s.entities, channel s e = (rnti, lcId) → RawExact s e ∧ rawBytes s e = raw
  isSome : raw ≠ none → ∃ e ∈ s.entities, channel s e = (rnti, lcId)

/-- Nothing is delivered, and all bytes stay as they are. -/
def Silent (s t : RlcState β) : Prop :=
  t.rlcUeDataInds = s.rlcUeDataInds ∧ t.mem.bytes = s.mem.bytes

section Channel

variable {s t u : RlcState β} {a b e x y : β} {ys : Multiset β} {rnti : UInt16} {lcId : Nat}
  {o : Option β} {raw : Option (Partial (List UInt8))}

theorem Silent.refl (s : RlcState β) : Silent s s := ⟨rfl, rfl⟩

theorem Silent.trans (h : Silent s t) (h' : Silent t u) : Silent s u :=
  ⟨h'.1.trans h.1, h'.2.trans h.2⟩

theorem Silent.foldl {α : Type} {f : RlcState β → α → RlcState β}
    (h : ∀ s x, Silent s (f s x)) (l : List α) (s : RlcState β) : Silent s (l.foldl f s) := by
  apply List.foldlRecOn (motive := Silent s) l f (.refl s)
  exact fun u hu x _ => hu.trans (h u x)

theorem free_silent (s : RlcState β) (b : β) : Silent s (s.free b) :=
  ⟨rfl, release_bytes s.mem b⟩

theorem free?_silent (s : RlcState β) (o : Option β) : Silent s (s.free? o) :=
  ⟨rfl, release?_bytes s.mem o⟩

theorem rlcDeleteAmdPdu_silent (s : RlcState β) (pdu : AmdPdu β) :
    Silent s (rlcDeleteAmdPdu s pdu) := by
  have hdfe : ∀ (u : RlcState β) (dfe : AmdDfe β), Silent u (rlcDeleteAmdDfe u dfe) :=
    fun u dfe => (free?_silent u _).trans (free_silent _ dfe.addr)
  have hseg : ∀ (u : RlcState β) (seg : AmdPduSegment β),
      Silent u (rlcDeleteAmdPduSegment u seg) :=
    fun u seg => (Silent.foldl hdfe seg.dfeQ u).trans (free_silent _ seg.addr)
  exact (Silent.foldl hseg pdu.segList s).trans (free_silent _ pdu.addr)

theorem rlcDeleteRxAmEntity_silent (s : RlcState β) (o : Option β) :
    Silent s (rlcDeleteRxAmEntity s o) := by
  cases o with
  | none => exact .refl s
  | some e =>
      have hring : ∀ (u : RlcState β) (i : Nat), Silent u (rlcDeleteRingPdu e u i) := by
        intro u i
        unfold rlcDeleteRingPdu
        simp only
        split
        · split
          · exact .refl u
          · exact rlcDeleteAmdPdu_silent u _
        · exact .refl u
      exact ((Silent.foldl hring (List.range ringSize) s).trans (free?_silent _ _)).trans
        (free_silent _ e)

theorem executeCleanup_silent (g : UInt32) (s : RlcState β) : Silent s (executeCleanup g s) := by
  have hat : ∀ (a : β) (u : RlcState β) (i : Nat), Silent u (rlcDeleteEntityAt a u i) :=
    fun a u i => (rlcDeleteRxAmEntity_silent u _).trans ⟨rfl, rfl⟩
  refine Silent.foldl (fun u a => ?_) s.gRlcUeContextList s
  unfold cleanupContext
  simp only
  split
  · have hloop := Silent.foldl (hat a) (List.range maxLcId)
      { u.setUeContext a { u.rlcUeContext a with deleteFlag := true } with
        gRlcUeContextList := u.gRlcUeContextList.erase a }
    exact hloop.trans (free_silent _ a)
  · exact ⟨rfl, rfl⟩

/-! ### Entities -/

/-- Where the entity of a channel is. -/
theorem entity_of_channel (hs : RlcSound s) (hx : x ∈ s.entities)
    (hch : channel s x = (rnti, lcId)) :
    ∃ a ∈ s.gRlcUeContextList, (s.rlcUeContext a).rnti = rnti ∧
      (s.rlcUeContext a).rxAmEntityArray lcId = some x := by
  obtain ⟨a, ha, hxa⟩ := mem_entities.mp hx
  obtain ⟨i, -, hi⟩ := mem_contextEntities.mp hxa
  obtain ⟨-, hrnti, hlc⟩ := hs.entity a ha i x hi
  obtain ⟨h1, h2⟩ := Prod.mk.inj hch
  refine ⟨a, ha, hrnti.symm.trans h1, ?_⟩
  rw [← h2, hlc]
  exact hi

theorem context_unique (hs : RlcSound s) (ha : a ∈ s.gRlcUeContextList)
    (hb : b ∈ s.gRlcUeContextList) (h : (s.rlcUeContext a).rnti = (s.rlcUeContext b).rnti) :
    a = b := List.inj_on_of_nodup_map hs.unique ha hb h

theorem entity_unique (hs : RlcSound s) (hx : x ∈ s.entities) (hy : y ∈ s.entities)
    (h : channel s x = channel s y) : x = y := by
  have hch : channel s x = ((s.rxAmEntity y).rnti, (s.rxAmEntity y).lcId) := h
  obtain ⟨a, ha, hra, hia⟩ := entity_of_channel hs hx hch
  obtain ⟨b, hb, hrb, hib⟩ := entity_of_channel hs hy rfl
  obtain rfl := context_unique hs ha hb (hra.trans hrb.symm)
  exact Option.some.inj (hia.symm.trans hib)

/-- The entity at its place. -/
theorem channel_of_entity (hs : RlcSound s) (ha : a ∈ s.gRlcUeContextList)
    (he : (s.rlcUeContext a).rxAmEntityArray lcId = some e) :
    e ∈ s.entities ∧ channel s e = ((s.rlcUeContext a).rnti, lcId) := by
  obtain ⟨hlt, hrnti, hlc⟩ := hs.entity a ha lcId e he
  refine ⟨mem_entities.mpr ⟨a, ha, mem_contextEntities.mpr ⟨lcId, hlt, he⟩⟩, ?_⟩
  exact Prod.ext hrnti hlc

/-! ### The lookup -/

/-- The context of a packet: the entities stay as they are. -/
structure FindsContext (s t : RlcState β) (rnti : UInt16) (a : β) : Prop where
  mem : a ∈ t.gRlcUeContextList
  rnti : (t.rlcUeContext a).rnti = rnti
  entities : t.entities = s.entities
  entity : t.rxAmEntity = s.rxAmEntity
  silent : Silent s t

/-- An allocation that is not refused. -/
theorem alloc_granted {n : Nat} (h : s.alloc env n = (t, o))
    (hf : t.mem.failures = s.mem.failures) : ∃ b, o = some b := by
  cases o with
  | some b => exact ⟨b, rfl⟩
  | none =>
      have hnone : (s.mem.alloc env.toPolicy n).2 = none := congrArg Prod.snd h
      obtain rfl : (s.alloc env n).1 = t := congrArg Prod.fst h
      exact absurd hf (BlockStore.alloc_refused hnone).ne'

theorem alloc_silent {n : Nat} (h : s.alloc env n = (t, some b)) : Silent s t := by
  obtain ⟨-, -, hbytes, hmem⟩ := alloc_fresh h
  exact ⟨by rw [hmem]; rfl, hbytes⟩

theorem rlcContextFor_finds (hs : RlcSound s) (hr : RrcSound s.toRrcState (s.rlcOwned + ys))
    (h : rlcContextFor env s rnti = (t, o)) (hf : t.mem.failures = s.mem.failures) :
    ∃ a, o = some a ∧ FindsContext s t rnti a := by
  unfold rlcContextFor at h
  cases hg : rlcGetUeContext s rnti with
  | none =>
      rw [hg] at h
      simp only [rlcCreateUeContext] at h
      cases ha : s.alloc env (env.sizeof .rlcUeContext) with
      | mk v c =>
          rw [ha] at h
          cases c with
          | none =>
              obtain ⟨rfl, -⟩ := Prod.mk.inj h
              obtain ⟨b, hb⟩ := alloc_granted ha hf
              cases hb
          | some a =>
              obtain ⟨rfl, rfl⟩ := Prod.mk.inj h
              have hv := alloc_onMem ha
              have hnot : a ∉ v.gRlcUeContextList := by
                rw [hv]
                exact fun hmem => (alloc_fresh ha).1 (context_inUse hr hmem)
              refine ⟨a, rfl, ?_, congrArg RlcUeContext.rnti (pushContext_new v a rnti), ?_, ?_,
                (alloc_silent ha).trans ⟨rfl, rfl⟩⟩
              · exact List.mem_append.mpr (Or.inr (List.mem_singleton_self a))
              · have hent : (pushContext v a rnti).entities = v.entities :=
                  pushContext_entities v rnti hnot
                have hvs : v.entities = s.entities := by
                  rw [hv]
                  rfl
                exact hent.trans hvs
              · show v.rxAmEntity = s.rxAmEntity
                rw [hv]
                rfl
  | some a =>
      have ha : a ∈ s.gRlcUeContextList := List.mem_of_find?_eq_some hg
      have hrnti : (s.rlcUeContext a).rnti = rnti := by
        simpa using List.find?_some hg
      rw [hg] at h
      simp only [hs.live a ha, Bool.false_eq_true, if_false] at h
      obtain ⟨rfl, rfl⟩ := Prod.mk.inj h
      refine ⟨a, rfl, ha, ?_, rlcUpdateUeContextTime_entities s a 0, rfl, ⟨rfl, rfl⟩⟩
      rw [← hrnti]
      simp [rlcUpdateUeContextTime, RlcState.setUeContext]

/-- The entity of a packet: it is the one of the channel, which is new or was there before. -/
structure FindsEntity (s t : RlcState β) (rnti : UInt16) (lcId : Nat) (e : β) : Prop where
  mem : e ∈ t.entities
  channel : Rlc.channel t e = (rnti, lcId)
  old : e ∈ s.entities ∧ t.rxAmEntity e = s.rxAmEntity e ∨
    (rawBuffer t e).pData = none ∧ ∀ x ∈ s.entities, Rlc.channel s x ≠ (rnti, lcId)
  silent : Silent s t

theorem rlcEntityFor_finds (hs : RlcSound s) (hr : RrcSound s.toRrcState (s.rlcOwned + ys))
    (ha : a ∈ s.gRlcUeContextList) (hlc : lcId < maxLcId)
    (h : rlcEntityFor env s a lcId = (t, o)) (hf : t.mem.failures = s.mem.failures) :
    ∃ e, o = some e ∧ FindsEntity s t (s.rlcUeContext a).rnti lcId e := by
  unfold rlcEntityFor rlcGetRxAmEntity at h
  rw [if_pos hlc] at h
  cases hg : (s.rlcUeContext a).rxAmEntityArray lcId with
  | some e =>
      rw [hg] at h
      obtain ⟨rfl, rfl⟩ := Prod.mk.inj h
      obtain ⟨hmem, hch⟩ := channel_of_entity hs ha hg
      exact ⟨e, rfl, hmem, hch, Or.inl ⟨hmem, rfl⟩, .refl s⟩
  | none =>
      rw [hg] at h
      simp only [rlcCreateRxAmEntity, if_pos hlc] at h
      cases he : s.alloc env (env.sizeof .rxAMEntity) with
      | mk v c =>
          rw [he] at h
          cases c with
          | none =>
              obtain ⟨rfl, -⟩ := Prod.mk.inj h
              obtain ⟨b, hb⟩ := alloc_granted he hf
              cases hb
          | some e =>
              obtain ⟨rfl, rfl⟩ := Prod.mk.inj h
              have hv := alloc_onMem he
              have hctx : v.rlcUeContext = s.rlcUeContext := by
                rw [hv]
                rfl
              have hnone : (v.rlcUeContext a).rxAmEntityArray lcId = none := by
                rw [hctx]
                exact hg
              have hav : a ∈ v.gRlcUeContextList := by
                rw [hv]
                exact ha
              have hn : v.gRlcUeContextList.Nodup := by
                rw [hv]
                exact (contexts_nodup hr : s.gRlcUeContextList.Nodup)
              have hent : (addEntity v a lcId e).entities = {e} + v.entities :=
                addEntity_entities hn hav hlc hnone e
              have hnew : (addEntity v a lcId e).rxAmEntity e
                  = .fresh (v.rlcUeContext a).rnti lcId := addEntity_entity v a lcId e
              refine ⟨e, rfl, ?_, ?_, Or.inr ⟨?_, fun x hx hch => ?_⟩,
                (alloc_silent he).trans ⟨rfl, rfl⟩⟩
              · show e ∈ (addEntity v a lcId e).entities
                rw [hent]
                simp
              · show Rlc.channel (addEntity v a lcId e) e = _
                unfold Rlc.channel
                rw [hnew, hctx]
                rfl
              · show (rawBuffer (addEntity v a lcId e) e).pData = none
                rw [rawBuffer, hnew]
                rfl
              · obtain ⟨c, hc, hrc, hic⟩ := entity_of_channel hs hx hch
                obtain rfl := context_unique hs hc ha hrc
                rw [hg] at hic
                cases hic

/-- **The lookup**, when no allocation is refused. -/
theorem rlcFindEntity_finds {info : RlcUlDataInfo β} {h : AmdHeader} {r : Option (β × AmdHeader)}
    (hs : RlcSound s) (hr : RrcSound s.toRrcState (s.rlcOwned + ys))
    (hlc : info.lcId ≤ srb2LcId) (hbuf : info.rlcdataBuffer = some b)
    (hdec : rlcDecodeAmdHeader (s.mem.bytes b) info.length = some h) (hdc : h.dc ≠ 0)
    (hfind : rlcFindEntity env s info rnti = (t, r)) (hf : t.mem.failures = s.mem.failures) :
    ∃ e, r = some (e, h) ∧ FindsEntity s t rnti info.lcId e := by
  have hlc' : info.lcId < maxLcId := by
    simp only [srb2LcId, maxLcId] at hlc ⊢
    omega
  unfold rlcFindEntity at hfind
  rw [if_neg (by omega), hbuf] at hfind
  simp only [Option.bind_some, hdec, if_neg hdc] at hfind
  cases hctx : rlcContextFor env s rnti with
  | mk v o =>
      obtain ⟨h1, hmem⟩ := rlcContextFor_receives hctx
      have hle1 := h1.failures
      rw [hctx] at hfind
      cases o with
      | none =>
          obtain ⟨rfl, -⟩ := Prod.mk.inj hfind
          obtain ⟨a, ha, -⟩ := rlcContextFor_finds hs hr hctx hf
          cases ha
      | some a =>
          simp only at hfind
          have ha := hmem a rfl
          cases hent : rlcEntityFor env v a info.lcId with
          | mk w o =>
              obtain ⟨h2, -⟩ := rlcEntityFor_receives ha hlc' hent
              have hle2 := h2.failures
              rw [hent] at hfind
              have hw : w = t := by
                cases o with
                | none => exact (Prod.mk.inj hfind).1
                | some e => exact (Prod.mk.inj hfind).1
              subst hw
              have hfv : v.mem.failures = s.mem.failures := by omega
              obtain ⟨a', ha', hfinds⟩ := rlcContextFor_finds hs hr hctx hfv
              obtain rfl : a = a' := Option.some.inj ha'
              -- the state in between is sound
              have hr' : RrcSound s.toRrcState (s.rlcOwned + (0 + ys)) := by rwa [zero_add]
              have hv := h1.after (h1.joined hfv) ys hs hr'
              have hrv := (hv.rrcSound (h1.joined hfv) hr').1
              obtain ⟨e, rfl, hentity⟩ := rlcEntityFor_finds hv.sound hrv ha hlc' hent (by omega)
              refine ⟨e, (Prod.mk.inj hfind).2.symm, hentity.mem, ?_, ?_,
                hfinds.silent.trans hentity.silent⟩
              · rw [hentity.channel, hfinds.rnti]
              · have hchan : ∀ x, Rlc.channel v x = Rlc.channel s x := by
                  intro x
                  rw [Rlc.channel, hfinds.entity]
                  rfl
                rcases hentity.old with ⟨hmem, heq⟩ | ⟨hnone, hno⟩
                · left
                  rw [hfinds.entities] at hmem
                  exact ⟨hmem, by rw [heq, hfinds.entity]⟩
                · right
                  refine ⟨hnone, fun x hx => ?_⟩
                  rw [← hchan x, ← hfinds.rnti]
                  apply hno x
                  rwa [hfinds.entities]

/-! ### A packet of the channel -/

/-- What the lookup finds keeps what the channel keeps. -/
theorem FindsEntity.keeps (h : FindsEntity s t rnti lcId e) (hk : ChannelKeeps s rnti lcId raw)
    (hr : RrcSound s.toRrcState (s.rlcOwned + ys))
    (hlen : ∀ b ∈ s.mem.inUse, t.mem.length b = s.mem.length b) :
    RawExact t e ∧ rawBytes t e = raw := by
  rcases h.old with ⟨he, heq⟩ | ⟨hnone, hno⟩
  · have hch : Rlc.channel s e = (rnti, lcId) := by
      rw [← h.channel, Rlc.channel, Rlc.channel, heq]
    obtain ⟨hexact, hraw⟩ := hk.entity e he hch
    have hsame : (t.rxAmEntity e).rxRawSdu = (s.rxAmEntity e).rxRawSdu := by rw [heq]
    refine ⟨rawExact_congr hsame (fun a ha => hlen a ?_) hexact, ?_⟩
    · exact raw_inUse hr he (mem_rawBlock.mp ha)
    · rw [rawBytes_congr hsame fun a _ => by rw [h.silent.2], hraw]
  · constructor
    · intro a ha
      rw [rawBuffer] at hnone
      rw [hnone] at ha
      cases ha
    · rw [rawBytes_none hnone]
      by_contra hne
      obtain ⟨x, hx, hch⟩ := hk.isSome fun h => hne h.symm
      exact hno x hx hch

/-- What a packet of the channel does, in a block `b` besides which blocks `ys` are in hand, is
what its PDU does to the entity of the channel. -/
theorem rlcProcessAmRxPacket_channel {n : Nat} {h : AmdHeader}
    {r : Option (Partial (List UInt8)) × List (List UInt8)}
    (hs : RlcSound s) (hr : RrcSound s.toRrcState (s.rlcOwned + ({b} + ys)))
    (hlc : lcId ≤ srb2LcId) (hheader : rlcDecodeAmdHeader (s.mem.bytes b) n = some h)
    (hdc : h.dc ≠ 0) (hk : ChannelKeeps s rnti lcId raw)
    (hf : (rlcProcessAmRxPacket env s ⟨lcId, n, some b⟩ rnti).mem.failures = s.mem.failures)
    (hpdu : ∀ (u : RlcState β) (e : β) (xs : Multiset β), RingFree u e → InHand u e ({b} + xs) →
      RawExact u e → rawBytes u e = raw → u.mem.length b = s.mem.length b →
        u.mem.bytes b = s.mem.bytes b →
          (rlcProcessAmdPdu env u e h ⟨lcId, n, some b⟩).mem.failures = u.mem.failures →
            Delivers u (rlcProcessAmdPdu env u e h ⟨lcId, n, some b⟩) e xs r)
    (ht : rlcProcessAmRxPacket env s ⟨lcId, n, some b⟩ rnti = t) :
    ChannelKeeps t rnti lcId r.1 ∧
      t.rlcUeDataInds.map SduInd.delivery
        = s.rlcUeDataInds.map SduInd.delivery ++ bytesCalls (rnti, lcId) r.2 := by
  rw [ht] at hf
  rw [rlcProcessAmRxPacket_findEntity] at ht
  cases hfind : rlcFindEntity env s ⟨lcId, n, some b⟩ rnti with
  | mk u r =>
      obtain ⟨hreceives, hextends, hent⟩ := rlcFindEntity_spec hs hr hfind
      have hle1 := hreceives.failures
      -- no allocation is refused before the PDU is looked at
      have hle2 : u.mem.failures ≤ t.mem.failures := by
        rw [hfind] at ht
        cases r with
        | none =>
            obtain rfl : u.free? (some b) = t := ht
            exact (free?_works u b (some b)).failures
        | some found =>
            obtain rfl : rlcProcessAmdPdu env u found.1 found.2 ⟨lcId, n, some b⟩ = t := ht
            exact (rlcEntityPacket_receives env u found.2 ⟨lcId, n, some b⟩
              (hent _ _ rfl).1).failures
      obtain ⟨e, rfl, hfinds⟩ := rlcFindEntity_finds hs hr hlc rfl hheader hdc hfind (by omega)
      rw [hfind] at ht
      simp only at ht
      obtain ⟨hu, hru⟩ :=
        hreceives.sound (zero_add _).symm (hreceives.joined (by omega)) hs hr
      rw [zero_add] at hru
      obtain ⟨hexact, hraw⟩ := hfinds.keeps hk hr fun c hc => (hextends.mem c hc).1
      have hring := hu.rings e hfinds.mem
      -- all other blocks
      obtain ⟨rest, hrest⟩ := Multiset.exists_cons_of_mem hfinds.mem
      obtain ⟨w, hw⟩ := Multiset.le_iff_exists_add.mp hru.owned
      have hraws : u.entities.bind (rawBlock u) = rawBlock u e + rest.bind (rawBlock u) := by
        rw [hrest, Multiset.cons_bind]
      have hin : InHand u e ({b} + ((u.gMacUeContext : Multiset β)
          + ((u.gRlcUeContextList : Multiset β) + u.entities) + rest.bind (rawBlock u)
          + ys + w)) := by
        refine ⟨hru.nodup, ?_⟩
        rw [hw, RlcState.rlcOwned, hraws]
        ac_rfl
      have hbin : b ∈ s.mem.inUse :=
        Multiset.mem_of_le (inHand_le hr) (by simp)
      have hub : u.mem.bytes b = s.mem.bytes b := by rw [hfinds.silent.2]
      have hfu : (rlcProcessAmdPdu env u e h ⟨lcId, n, some b⟩).mem.failures
          = u.mem.failures := by
        rw [ht]
        omega
      have hdelivers := hpdu u e _ hring hin hexact hraw (hextends.mem b hbin).1 hub hfu
      rw [ht] at hdelivers
      have huses : Uses u t e {b} := by
        rw [← ht, rlcProcessAmdPdu, if_pos (by rw [hring])]
        exact rlcProcessNewAmdPdu_uses env h ⟨lcId, n, some b⟩ (hring _)
      have hents : t.entities = u.entities := by
        unfold RlcState.entities
        rw [huses.only.rlcUeContext, huses.only.gRlcUeContextList]
      refine ⟨⟨fun x hx hch => ?_, fun _ => ⟨e, ?_, ?_⟩⟩, ?_⟩
      · have hxe : x = e := by
          by_contra hne
          apply hne
          rw [hents] at hx
          apply entity_unique hu hx hfinds.mem
          rw [hfinds.channel, ← hch, Rlc.channel, Rlc.channel, huses.only.entity x hne]
        rw [hxe]
        exact ⟨hdelivers.exact, hdelivers.raw⟩
      · rw [hents]
        exact hfinds.mem
      · rw [hdelivers.channel, hfinds.channel]
      · rw [hdelivers.calls, hfinds.silent.1, hfinds.channel]

/-- **A packet of the channel** that is decoded. -/
theorem rlcProcessAmRxPacket_delivers {n sn : Nat} {fs : List (RlcSduStatus × List UInt8)}
    (hs : RlcSound s) (hr : RrcSound s.toRrcState (s.rlcOwned + ({b} + ys)))
    (hlc : lcId ≤ srb2LcId) (hlen : s.mem.length b = n) (hlt : n < 2 ^ 16)
    (hdec : Decodes (s.mem.bytes b) n sn fs) (hk : ChannelKeeps s rnti lcId raw)
    (hf : (rlcProcessAmRxPacket env s ⟨lcId, n, some b⟩ rnti).mem.failures = s.mem.failures)
    (hshort : ShortFields sn raw fs)
    (ht : rlcProcessAmRxPacket env s ⟨lcId, n, some b⟩ rnti = t) :
    (RlcSound t ∧ RrcSound t.toRrcState (t.rlcOwned + ys)) ∧
      ChannelKeeps t rnti lcId (reassembleAll (· ++ ·) sn raw fs).1 ∧
      t.rlcUeDataInds.map SduInd.delivery = s.rlcUeDataInds.map SduInd.delivery
        ++ bytesCalls (rnti, lcId) (reassembleAll (· ++ ·) sn raw fs).2 := by
  obtain ⟨h, hheader, hdc, hrf, rfl, hfit, rfl⟩ := hdec
  have hsound : RlcSound t ∧ RrcSound t.toRrcState (t.rlcOwned + ys) := by
    have hreceives := rlcProcessAmRxPacket_receives env s ⟨lcId, n, some b⟩ rnti
    have hjoined := hreceives.joined hf
    rw [ht] at hreceives hjoined
    obtain ⟨hst, hrt⟩ := hreceives.sound rfl hjoined hs hr
    rw [zero_add] at hrt
    exact ⟨hst, hrt⟩
  refine ⟨hsound, rlcProcessAmRxPacket_channel hs hr hlc hheader hdc hk hf
    (fun u e xs hring hin hexact hraw hlenb hub hfu => ?_) ht⟩
  have hdelivers := rlcProcessAmdPdu_delivers hring hin hexact (hlenb.trans hlen) hlt hrf
    (by rw [hub]; exact hfit) hfu (by rw [hub, hraw]; exact hshort)
  rwa [hub, hraw] at hdelivers

end Channel

/-! ## Runs of one channel -/

/-- The runs in which PDUs of one channel are received. MAC allocates a buffer, fills it with
the PDU and hands it over. Cleanup passes come in between, as long as they do not delete the
context. The PDUs so far are told by their indices. -/
inductive ChannelRun (env : Platform β) (rnti : UInt16) (lcId : Nat) (encode : Nat → List UInt8)
    (s₀ : RlcState β) : List Nat → RlcState β → Prop
  | start : ChannelRun env rnti lcId encode s₀ [] s₀
  | pdu {is : List Nat} {s t : RlcState β} {b : β} (i : Nat) :
      ChannelRun env rnti lcId encode s₀ is s → (encode i).length < 2 ^ 16 →
      s.alloc env (encode i).length = (t, some b) →
      ChannelRun env rnti lcId encode s₀ (is ++ [i])
        (rlcProcessAmRxPacket env
          (t.onMem fun m => m.write b (fun k => (encode i).getD k 0) (encode i).length)
          ⟨lcId, (encode i).length, some b⟩ rnti)
  | cleanup {is : List Nat} {s : RlcState β} (gMaxIdleCount : UInt32) :
      ChannelRun env rnti lcId encode s₀ is s →
      (∀ a ∈ s.gRlcUeContextList, (s.rlcUeContext a).rnti = rnti →
        a ∈ (executeCleanup gMaxIdleCount s).gRlcUeContextList) →
      ChannelRun env rnti lcId encode s₀ is (executeCleanup gMaxIdleCount s)

/-- A sound state, besides whose blocks `ys` are in hand, in which the channel has no entity
yet, or one without an incomplete SDU. -/
structure FreshChannel (s : RlcState β) (ys : Multiset β) (rnti : UInt16) (lcId : Nat) : Prop where
  rlc : RlcSound s
  rrc : RrcSound s.toRrcState (s.rlcOwned + ys)
  fresh : ∀ e ∈ s.entities, channel s e = (rnti, lcId) → (rawBuffer s e).pData = none

/-- What holds in every state of such a run: `r` is what the reassembler keeps and what it has
delivered. -/
structure ChannelOk (s₀ s : RlcState β) (ys : Multiset β) (rnti : UInt16) (lcId : Nat)
    (r : Option (Partial (List UInt8)) × List (List UInt8)) : Prop where
  rlc : RlcSound s
  rrc : RrcSound s.toRrcState (s.rlcOwned + ys)
  keeps : ChannelKeeps s rnti lcId r.1
  calls : s.rlcUeDataInds.map SduInd.delivery
    = s₀.rlcUeDataInds.map SduInd.delivery ++ bytesCalls (rnti, lcId) r.2

section Runs

variable {s₀ s t : RlcState β} {b : β} {ys : Multiset β} {rnti : UInt16} {lcId : Nat}
  {encode : Nat → List UInt8} {is : List Nat}
  {r : Option (Partial (List UInt8)) × List (List UInt8)}

theorem FreshChannel.channelOk (h : FreshChannel s ys rnti lcId) :
    ChannelOk s s ys rnti lcId (none, []) := by
  refine ⟨h.rlc, h.rrc, ⟨fun e he hch => ?_, fun hne => absurd rfl hne⟩, ?_⟩
  · have hnone : (s.rxAmEntity e).rxRawSdu.rawSdu.pData = none := h.fresh e he hch
    refine ⟨fun a ha => ?_, rawBytes_none hnone⟩
    rw [hnone] at ha
    cases ha
  · simp [bytesCalls]

/-- A buffer with a PDU. -/
theorem ChannelOk.buffer (h : ChannelOk s₀ s ys rnti lcId r) {n : Nat} (data : Nat → UInt8)
    (ha : s.alloc env n = (t, some b)) (hn : n < 2 ^ 16) :
    ChannelOk s₀ (t.onMem fun m => m.write b data n) ({b} + ys) rnti lcId r ∧
      (t.onMem fun m => m.write b data n).mem.length b = n ∧
      ∀ k < n, (t.onMem fun m => m.write b data n).mem.bytes b k = data k := by
  have hw : MemWorks s (t.onMem fun m => m.write b data n) 0 {b} :=
    (alloc_memWorks ha).seq (.onMem (write_transfer t.mem b data n))
  obtain ⟨hfresh, hlen, hbytes, ht⟩ := alloc_fresh ha
  have hfail : (t.onMem fun m => m.write b data n).refusedJoins = s.refusedJoins := by
    rw [ht]
    rfl
  obtain ⟨hst, hrt⟩ := hw.receives.sound (zero_add _).symm hfail h.rlc h.rrc
  have hents : (t.onMem fun m => m.write b data n).entities = s.entities := by
    rw [ht]
    rfl
  have hkept : ∀ c ∈ s.mem.inUse, (t.onMem fun m => m.write b data n).mem.length c
      = s.mem.length c ∧ (t.onMem fun m => m.write b data n).mem.bytes c = s.mem.bytes c := by
    intro c hc
    have hk := hw.transfer.keeps s.mem.inUse h.rrc.nodup (zero_add _).symm
    exact ⟨hk.length c hc, hk.bytes c hc⟩
  refine ⟨⟨hst, hrt, ⟨fun e he hch => ?_, fun hne => ?_⟩, ?_⟩,
    ?_, fun k hk => ?_⟩
  · have hraw : ((t.onMem fun m => m.write b data n).rxAmEntity e).rxRawSdu
        = (s.rxAmEntity e).rxRawSdu := by
      rw [ht]
      rfl
    rw [hents] at he
    rw [ht] at hch
    obtain ⟨hexact, hbytes⟩ := h.keeps.entity e he hch
    have hin : ∀ a ∈ rawBlock s e, a ∈ s.mem.inUse := fun a ha =>
      raw_inUse h.rrc he (mem_rawBlock.mp ha)
    refine ⟨rawExact_congr hraw (fun a ha => (hkept a (hin a ha)).1) hexact, ?_⟩
    rw [rawBytes_congr hraw fun a ha => (hkept a (hin a ha)).2, hbytes]
  · obtain ⟨e, he, hch⟩ := h.keeps.isSome hne
    refine ⟨e, by rwa [hents], ?_⟩
    rw [ht]
    exact hch
  · rw [← h.calls, ht]
    rfl
  · show t.mem.length b = n
    rw [hlen, Nat.mod_eq_of_lt hn]
  · show Function.update t.mem.bytes b _ b k = data k
    rw [Function.update_self, if_pos hk]

/-- A cleanup pass that leaves the context. -/
theorem ChannelOk.cleanup (h : ChannelOk s₀ s ys rnti lcId r) (g : UInt32)
    (hleft : ∀ a ∈ s.gRlcUeContextList, (s.rlcUeContext a).rnti = rnti →
      a ∈ (executeCleanup g s).gRlcUeContextList) :
    ChannelOk s₀ (executeCleanup g s) ys rnti lcId r := by
  have hshrinks := executeCleanup_shrinks g (contexts_nodup h.rrc)
  obtain ⟨hinds, hbytes⟩ := executeCleanup_silent g s
  obtain ⟨hst, hrt⟩ := (executeCleanup_receives g s).sound (zero_add _).symm hshrinks.joins
    h.rlc h.rrc
  rw [zero_add] at hrt
  have hents : ∀ e ∈ (executeCleanup g s).entities, e ∈ s.entities := by
    intro e he
    obtain ⟨a, ha, hea⟩ := mem_entities.mp he
    refine mem_entities.mpr ⟨a, hshrinks.list.subset ha, ?_⟩
    rw [mem_contextEntities] at hea ⊢
    rwa [hshrinks.array a ha] at hea
  have hch : ∀ e, channel (executeCleanup g s) e = channel s e := by
    intro e
    rw [channel, hshrinks.entity, channel]
  refine ⟨hst, hrt, ⟨fun e he hche => ?_, fun hne => ?_⟩, ?_⟩
  · rw [hch] at hche
    obtain ⟨hexact, hraw⟩ := h.keeps.entity e (hents e he) hche
    have hsame : ((executeCleanup g s).rxAmEntity e).rxRawSdu = (s.rxAmEntity e).rxRawSdu := by
      rw [hshrinks.entity]
    refine ⟨fun a ha => ?_, ?_⟩
    · have hin : a ∈ (executeCleanup g s).mem.inUse := raw_inUse hrt he ha
      rw [((hshrinks.mem h.rrc.nodup).2 a hin).2, hsame]
      rw [hsame] at ha
      exact hexact a ha
    · rw [rawBytes_congr hsame fun a _ => by rw [hbytes], hraw]
  · obtain ⟨e, he, hche⟩ := h.keeps.isSome hne
    obtain ⟨a, ha, hrnti, hea⟩ := entity_of_channel h.rlc he hche
    have ha' := hleft a ha hrnti
    have hea' : ((executeCleanup g s).rlcUeContext a).rxAmEntityArray lcId = some e := by
      rw [hshrinks.array a ha']
      exact hea
    exact ⟨e, (channel_of_entity hst ha' hea').1, (hch e).trans hche⟩
  · rw [hinds]
    exact h.calls

/-- A run only counts more failures. -/
theorem channelRun_failures (hrun : ChannelRun env rnti lcId encode s₀ is s) :
    s₀.mem.failures ≤ s.mem.failures := by
  induction hrun with
  | start => exact le_rfl
  | @pdu is s t b i _ _ ha ih =>
      have h1 := alloc_failures_le ha
      have h2 := (rlcProcessAmRxPacket_receives env
        (t.onMem fun m => m.write b (fun k => (encode i).getD k 0) (encode i).length)
        ⟨lcId, (encode i).length, some b⟩ rnti).failures
      exact (ih.trans h1).trans h2
  | cleanup g _ _ ih => exact ih.trans (executeCleanup_receives g _).failures

/-- **The PDUs of a channel go through the abstract reassembler**, in every run in which no
allocation is refused, if `dec` are the numbers and the fields of the PDUs and no SDU that is
put together becomes longer than 65535 bytes. -/
theorem channelRun_receives {dec : Nat → Nat × List (RlcSduStatus × List UInt8)}
    (hlc : lcId ≤ srb2LcId) (h₀ : FreshChannel s₀ ys rnti lcId)
    (hrun : ChannelRun env rnti lcId encode s₀ is s) (hf : s.mem.failures = s₀.mem.failures)
    (hdec : ∀ i ∈ is, ∀ data : Nat → UInt8,
      (∀ k < (encode i).length, data k = (encode i).getD k 0) →
        Decodes data (encode i).length (dec i).1 (dec i).2)
    (hshort : ∀ l i, l ++ [i] <+: is →
      ShortFields (dec i).1 (receiveAll (· ++ ·) none (l.map dec)).1 (dec i).2) :
    ChannelOk s₀ s ys rnti lcId (receiveAll (· ++ ·) none (is.map dec)) := by
  induction hrun with
  | start => exact h₀.channelOk
  | @pdu is s t b i hrun hlen ha ih =>
      have h1 := channelRun_failures hrun
      have h2 := alloc_failures_le ha
      have h3 := (rlcProcessAmRxPacket_receives env
        (t.onMem fun m => m.write b (fun k => (encode i).getD k 0) (encode i).length)
        ⟨lcId, (encode i).length, some b⟩ rnti).failures
      have h4 : (t.onMem fun m => m.write b (fun k => (encode i).getD k 0)
          (encode i).length).mem.failures = t.mem.failures := rfl
      have hs := ih (by omega) (fun j hj => hdec j (by simp [hj])) fun l j hl =>
        hshort l j (hl.trans (List.prefix_append is [i]))
      obtain ⟨hbuf, hbl, hbb⟩ := hs.buffer (fun k => (encode i).getD k 0) ha hlen
      have hff : (rlcProcessAmRxPacket env
          (t.onMem fun m => m.write b (fun k => (encode i).getD k 0) (encode i).length)
          ⟨lcId, (encode i).length, some b⟩ rnti).mem.failures
          = (t.onMem fun m => m.write b (fun k => (encode i).getD k 0)
            (encode i).length).mem.failures := by omega
      obtain ⟨⟨hrlc, hrrc⟩, hkeeps, hcalls⟩ := rlcProcessAmRxPacket_delivers hbuf.rlc hbuf.rrc hlc
        hbl hlen (hdec i (by simp) _ hbb) hbuf.keeps hff (hshort is i (List.prefix_refl _)) rfl
      rw [List.map_append, List.map_singleton, receiveAll_snoc]
      refine ⟨hrlc, hrrc, hkeeps, ?_⟩
      rw [hcalls, hbuf.calls, List.append_assoc]
      simp only [bytesCalls, List.map_append]
  | @cleanup is s g hrun hleft ih =>
      have h1 := channelRun_failures hrun
      have h2 := (executeCleanup_receives g s).failures
      exact (ih (by omega) hdec hshort).cleanup g hleft

end Runs

end LteUlp.Rlc
