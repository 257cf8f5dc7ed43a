import LteUlp.Basic.Reads
import LteUlp.Rlc.Sending

set_option autoImplicit false
set_option linter.unusedSectionVars false

/-! # A channel among others

The PDUs of all UEs are received one after the other, in whatever order. Each one is for one
channel, that is the entity of an RNTI and an LCID.

* A PDU of another channel leaves the channel alone: the entity keeps its incomplete SDU, and
  nothing is delivered for it (`rlcProcessAmRxPacket_leavesAlone`).
* A PDU of the channel does what the abstract reassembler does
  (`rlcProcessAmRxPacket_delivers`).
-/

namespace LteUlp.Rlc

open BlockStore ByteString Fragments LteUlp.Rrc LteUlp.Mac RlcSduStatus

variable {β : Type} [DecidableEq β] {env : Platform β}

/-! ## PDUs of a channel -/

/-- The number of a PDU and the fields in it, of which a PDU that is ignored has none. -/
def readPdu (pdu : List UInt8) : Nat × List (RlcSduStatus × List UInt8) :=
  (rlcDecodeAmdHeader (fun k => pdu.getD k 0) pdu.length).elim (0, []) fun h =>
    (h.sn, if h.dc = 0 ∨ h.rf ≠ 0 then []
      else fields (fun k => pdu.getD k 0) pdu.length h)

/-- What becomes of the PDU does not depend on the bytes that follow it in memory: it is decoded,
its LIs being within it and not larger than its data, or it is ignored. -/
structure Readable (pdu : List UInt8) : Prop where
  short : pdu.length < 2 ^ 16
  decides : (∀ data, Reads data 0 pdu →
      Decodes data pdu.length (readPdu pdu).1 (readPdu pdu).2) ∨
    ∀ data, Reads data 0 pdu → Ignored data pdu.length

/-- What is kept and delivered after PDUs. -/
def receivePdus (raw : Option (Partial (List UInt8))) (pdus : List (List UInt8)) :
    Option (Partial (List UInt8)) × List (List UInt8) :=
  receiveAll (· ++ ·) raw (pdus.map readPdu)

/-- No incomplete SDU is, together with the next PDU, longer than 65535 bytes. -/
def ShortPdus : Option (Partial (List UInt8)) → List (List UInt8) → Prop
  | _, [] => True
  | raw, pdu :: pdus =>
      (∀ p ∈ raw, p.data.length + pdu.length < 2 ^ 16) ∧ ShortPdus (receivePdus raw [pdu]).1 pdus

instance decidableShortPdus (raw : Option (Partial (List UInt8))) :
    (pdus : List (List UInt8)) → Decidable (ShortPdus raw pdus)
  | [] => .isTrue trivial
  | pdu :: pdus => by
      have := decidableShortPdus (receivePdus raw [pdu]).1 pdus
      unfold ShortPdus
      infer_instance

/-- The SDUs that were delivered for the channel. -/
def channelSdus (s : RlcState β) (rnti : UInt16) (lcId : Nat) : List (List UInt8) :=
  (s.rlcUeDataInds.filter fun ind => ind.rnti = rnti ∧ ind.lcId = lcId).map SduInd.data

section Abstract

variable {raw : Option (Partial (List UInt8))} {pdu : List UInt8} {pdus pdus' : List (List UInt8)}
variable {s t : RlcState β} {rnti : UInt16} {lcId sn : Nat}
variable {fs : List (RlcSduStatus × List UInt8)} {data : Nat → UInt8} {h : AmdHeader}

theorem receivePdus_append (raw : Option (Partial (List UInt8))) (pdus pdus' : List (List UInt8)) :
    receivePdus raw (pdus ++ pdus')
      = ((receivePdus (receivePdus raw pdus).1 pdus').1,
          (receivePdus raw pdus).2 ++ (receivePdus (receivePdus raw pdus).1 pdus').2) := by
  unfold receivePdus
  rw [List.map_append, receiveAll_append]

theorem receivePdus_single (raw : Option (Partial (List UInt8))) (pdu : List UInt8) :
    receivePdus raw [pdu] = reassembleAll (· ++ ·) (readPdu pdu).1 raw (readPdu pdu).2 := by
  show ((reassembleAll _ _ _ _).1, (reassembleAll _ _ _ _).2 ++ []) = _
  rw [List.append_nil]

theorem shortPdus_append : ShortPdus raw (pdus ++ pdus')
    ↔ ShortPdus raw pdus ∧ ShortPdus (receivePdus raw pdus).1 pdus' := by
  induction pdus generalizing raw with
  | nil => exact (iff_of_eq (true_and _)).symm
  | cons pdu pdus ih =>
      have hsplit := receivePdus_append raw [pdu] pdus
      rw [List.singleton_append] at hsplit
      rw [List.cons_append, ShortPdus, ShortPdus, ih, hsplit, and_assoc]

/-- The PDU is read as the decoder does, which does not depend on the memory. -/
theorem readPdu_of_decodes (h : Decodes (fun k => pdu.getD k 0) pdu.length sn fs) :
    readPdu pdu = (sn, fs) := by
  obtain ⟨hd, hheader, hdc, hrf, rfl, -, rfl⟩ := h
  unfold readPdu
  rw [hheader, Option.elim_some, if_neg (not_or.mpr ⟨hdc, not_not.mpr hrf⟩)]

theorem readable_of_decodes (hlt : pdu.length < 2 ^ 16)
    (h : ∀ data, Reads data 0 pdu → Decodes data pdu.length sn fs) :
    Readable pdu ∧ readPdu pdu = (sn, fs) := by
  have hread := readPdu_of_decodes (h _ (reads_getD pdu))
  refine ⟨⟨hlt, Or.inl ?_⟩, hread⟩
  rw [hread]
  exact h

/-- A PDU that is ignored has no fields. -/
theorem readPdu_of_ignored (h : Ignored (fun k => pdu.getD k 0) pdu.length) :
    (readPdu pdu).2 = [] := by
  unfold readPdu
  cases hheader : rlcDecodeAmdHeader (fun k => pdu.getD k 0) pdu.length with
  | none => rfl
  | some hd =>
      rw [Option.elim_some]
      show (if hd.dc = 0 ∨ hd.rf ≠ 0 then [] else fields _ _ hd) = []
      by_cases hno : hd.dc = 0 ∨ hd.rf ≠ 0
      · exact if_pos hno
      · obtain ⟨he, hchain⟩ :=
          ((h hd hheader).resolve_left fun h0 => hno (Or.inl h0)).resolve_left
            fun h1 => hno (Or.inr h1)
        rw [if_neg hno, fields]
        simp only [if_neg he, hchain, Option.elim_none]

/-- A PDU that is ignored changes nothing. -/
theorem receivePdus_of_ignored (raw : Option (Partial (List UInt8)))
    (h : Ignored (fun k => pdu.getD k 0) pdu.length) : receivePdus raw [pdu] = (raw, []) := by
  show ((reassembleAll _ _ raw (readPdu pdu).2).1, (reassembleAll _ _ raw (readPdu pdu).2).2 ++ [])
    = _
  rw [readPdu_of_ignored h]
  rfl

/-- A PDU whose first bit is 0 is a status PDU. -/
theorem readable_status {first : UInt8} {rest : List UInt8} (hdc : (first >>> 7) &&& 0x01 = 0)
    (hlt : (first :: rest).length < 2 ^ 16) : Readable (first :: rest) := by
  refine ⟨hlt, Or.inr fun data hdata h hheader => Or.inl ?_⟩
  have h0 : data 0 = first := hdata 0 (Nat.zero_lt_succ _)
  unfold rlcDecodeAmdHeader at hheader
  split at hheader
  · cases hheader
  · split at hheader
    · cases hheader
    · simp only [h0, hdc, if_true] at hheader
      obtain rfl := Option.some.inj hheader
      rfl

/-- The fields that are cut off have the bytes of the data. -/
theorem length_splitFields (fi : UInt8) (lis : List Nat) (status : RlcSduStatus)
    (data : List UInt8) :
    ((splitFields fi lis status data).map fun f => f.2.length).sum = data.length := by
  -- on the length indicators: each cuts a field off the front, the last field is the rest
  induction lis generalizing status data with
  | nil => simp [splitFields]
  | cons li lis ih =>
      rw [splitFields, List.map_cons, List.sum_cons, ih, List.length_take, List.length_drop]
      omega

/-- The fields are not longer than the PDU. -/
theorem length_fields_le (data : Nat → UInt8) (n : Nat) (h : AmdHeader) :
    ((fields data n h).map fun f => f.2.length).sum ≤ n := by
  unfold fields
  simp only
  split
  · simp
  · cases rlcGetConcatenationHeaderInfo data with
    | none => exact Nat.zero_le n
    | some pduHeader =>
        rw [Option.elim_some, length_splitFields, List.length_drop, List.length_map,
          List.length_range]
        exact Nat.sub_le n _

/-- An SDU that is kept consists of what was kept and of fields. -/
theorem shortFields_of_sum (hraw : ∀ p ∈ raw, p.data.length
      + (fs.map fun f => f.2.length).sum < 2 ^ 16)
    (hfs : (fs.map fun f => f.2.length).sum < 2 ^ 16) : ShortFields sn raw fs := by
  -- what is kept and the fields that are left never exceed the sum at the start
  induction fs generalizing raw with
  | nil => trivial
  | cons f fs ih =>
      rw [List.map_cons, List.sum_cons] at hraw hfs
      refine ⟨fun p hp _ => ?_, ih (fun p hp => ?_) (by omega)⟩
      · have := hraw p hp
        omega
      · -- the field begins the SDU, continues it or leaves it
        obtain ⟨status, bytes⟩ := f
        cases raw with
        | none =>
            cases status with
            | amPduMapSduStart =>
                obtain rfl := Option.some.inj hp
                exact hfs
            | _ => cases hp
        | some q =>
            have hq := hraw q rfl
            simp only at hq
            cases status with
            | amPduMapSduFull => cases hp
            | amPduMapSduStart =>
                obtain rfl := Option.some.inj hp
                exact hfs
            | amPduMapSduEnd =>
                simp only [reassemble] at hp
                split at hp
                · cases hp
                · obtain rfl := Option.some.inj hp
                  omega
            | amPduMapSduMid =>
                simp only [reassemble] at hp
                split at hp
                · obtain rfl := Option.some.inj hp
                  simp only [List.length_append]
                  omega
                · obtain rfl := Option.some.inj hp
                  omega

/-- The fields of a PDU make no SDU too long. -/
theorem shortFields_of_readable (hp : Readable pdu)
    (h : ∀ p ∈ raw, p.data.length + pdu.length < 2 ^ 16) :
    ShortFields (readPdu pdu).1 raw (readPdu pdu).2 := by
  have hsum : ((readPdu pdu).2.map fun f => f.2.length).sum ≤ pdu.length := by
    unfold readPdu
    cases rlcDecodeAmdHeader (fun k => pdu.getD k 0) pdu.length with
    | none => exact Nat.zero_le _
    | some hd =>
        simp only [Option.elim_some]
        split
        · exact Nat.zero_le _
        · exact length_fields_le _ pdu.length hd
  have hlt := hp.short
  refine shortFields_of_sum (fun p hp => ?_) (by omega)
  have := h p hp
  omega

/-- What was delivered for a channel, from the record. -/
theorem channelSdus_eq (s : RlcState β) (rnti : UInt16) (lcId : Nat) :
    channelSdus s rnti lcId = ((s.rlcUeDataInds.map SduInd.delivery).filter
      fun d => d.1 = rnti ∧ d.2.1 = lcId).map fun d => d.2.2.2 := by
  unfold channelSdus
  rw [List.filter_map, List.map_map]
  rfl

theorem channelSdus_calls {l : List (List UInt8)}
    (h : t.rlcUeDataInds.map SduInd.delivery
      = s.rlcUeDataInds.map SduInd.delivery ++ bytesCalls (rnti, lcId) l) :
    channelSdus t rnti lcId = channelSdus s rnti lcId ++ l := by
  have hnew : ((bytesCalls (rnti, lcId) l).filter fun d => d.1 = rnti ∧ d.2.1 = lcId).map
      (fun d => d.2.2.2) = l := by
    rw [List.filter_eq_self.mpr]
    · unfold bytesCalls
      rw [List.map_map]
      exact List.map_id l
    · intro d hd
      obtain ⟨bytes, -, rfl⟩ := List.mem_map.mp hd
      simp
  rw [channelSdus_eq, h, List.filter_append, List.map_append, hnew, ← channelSdus_eq]

/-! ### PDUs that were sent -/

section Sent

variable {g : Segmentation} {i k : Nat}

theorem readable_encode (hi : i < g.pdus.length) (hlt : (g.encode i).length < 2 ^ 16) :
    Readable (g.encode i) ∧ readPdu (g.encode i) = g.decoded i := by
  refine readable_of_decodes hlt fun data hdata => g.encode_decodes hi fun j hj => ?_
  have hread := hdata j hj
  rwa [zero_add, ← List.getD_eq_getElem (g.encode i) 0 hj] at hread

theorem receivePdus_encode (hk : k ≤ g.pdus.length)
    (hlt : ∀ i < g.pdus.length, (g.encode i).length < 2 ^ 16) :
    receivePdus none ((List.range k).map g.encode)
      = receiveAll (· ++ ·) none ((List.range k).map g.decoded) := by
  unfold receivePdus
  rw [List.map_map]
  congr 1
  refine List.map_congr_left fun i hi => ?_
  have hik : i < g.pdus.length := (List.mem_range.mp hi).trans_le hk
  exact (readable_encode hik (hlt i hik)).2

/-- The PDUs of an SDU make it no longer than it is. -/
theorem shortPdus_encode (hk : k ≤ g.pdus.length)
    (hsizes : ∀ sdu ∈ g.sdus, ∀ i < g.pdus.length, sdu.length + (g.encode i).length ≤ 65000)
    (hlt : ∀ i < g.pdus.length, (g.encode i).length < 2 ^ 16) :
    ShortPdus none ((List.range k).map g.encode) := by
  induction k with
  | zero => trivial
  | succ k ih =>
      have hk' : k ≤ g.pdus.length := Nat.le_of_succ_le hk
      -- the last PDU meets what the first `k` ones have left
      rw [List.range_succ, List.map_append]
      refine shortPdus_append.mpr ⟨ih hk', fun p hp => ?_, trivial⟩
      rw [receivePdus_encode hk' hlt, receiveAll_inOrder hk'] at hp
      by_cases hcur : g.current k = []
      · rw [hcur, keptOf_nil] at hp
        cases hp
      -- what is kept is a part of an SDU
      have hne : (arrived g.sdus (symbols (g.before k)).length).2 ≠ [] := by
        rwa [← (symbols_current g k).2, Ne, current_eq_nil]
      obtain ⟨sdu, hsdu, hpre⟩ := arrived_short _ hne
      rw [keptOf_ne g _ hcur] at hp
      obtain rfl := Option.some.inj hp
      have hlen : (symbols (g.current k)).length ≤ sdu.length := by
        rw [(symbols_current g k).2]
        exact hpre.length_le
      calc (symbols (g.current k)).length + (g.encode k).length
          ≤ sdu.length + (g.encode k).length := Nat.add_le_add_right hlen _
        _ ≤ 65000 := hsizes sdu hsdu k hk
        _ < 2 ^ 16 := by decide

end Sent

end Abstract

/-! ## What is delivered -/

/-- The record has all bytes of the SDU. -/
def SduInd.Sized (ind : SduInd β) : Prop := ind.pData.isSome → ind.data.length = ind.size.toNat

/-- Calls are added for one channel. -/
def CallsFor (ch : UInt16 × Nat) (s t : RlcState β) : Prop :=
  ∃ l, t.rlcUeDataInds = s.rlcUeDataInds ++ l ∧
    ∀ ind ∈ l, (ind.rnti, ind.lcId) = ch ∧ ind.Sized

section Calls

variable {s t u : RlcState β} {e : β} {ch : UInt16 × Nat} {o : Option (RlcAmBuffer β)}

theorem CallsFor.of_eq (h : t.rlcUeDataInds = s.rlcUeDataInds) : CallsFor ch s t :=
  ⟨[], by rw [h, List.append_nil], by simp⟩

theorem CallsFor.trans (h : CallsFor ch s t) (h' : CallsFor ch t u) : CallsFor ch s u := by
  obtain ⟨l, hl, hall⟩ := h
  obtain ⟨l', hl', hall'⟩ := h'
  refine ⟨l ++ l', by rw [hl', hl, List.append_assoc], fun ind hind => ?_⟩
  rcases List.mem_append.mp hind with hind | hind
  · exact hall ind hind
  · exact hall' ind hind

/-- The calls are not for another channel. -/
theorem CallsFor.channelSdus {rnti : UInt16} {lcId : Nat} (h : CallsFor ch s t)
    (hne : ch ≠ (rnti, lcId)) : channelSdus t rnti lcId = channelSdus s rnti lcId := by
  obtain ⟨l, hl, hall⟩ := h
  have hnone : l.filter (fun ind => ind.rnti = rnti ∧ ind.lcId = lcId) = [] := by
    rw [List.filter_eq_nil_iff]
    intro ind hind hch
    obtain ⟨h1, h2⟩ := of_decide_eq_true hch
    apply hne
    rw [← (hall ind hind).1, h1, h2]
  unfold Rlc.channelSdus
  rw [hl, List.filter_append, hnone, List.append_nil]

theorem OnlyMem.calls (h : OnlyMem s t) : t.rlcUeDataInds = s.rlcUeDataInds := by
  rw [h]
  rfl

theorem reportFirst_calls (s : RlcState β) (e : β) :
    (reportFirst s e).rlcUeDataInds = s.rlcUeDataInds ∧
      channel (reportFirst s e) e = channel s e := by
  obtain ⟨rpt, hrpt⟩ := reportFirst_eq s e
  rw [hrpt]
  exact ⟨rfl, by simp [channel, RlcState.setRpt, RlcState.setEntity]⟩

theorem reportNext_calls (s : RlcState β) (e : β) :
    (reportNext s e).rlcUeDataInds = s.rlcUeDataInds ∧
      channel (reportNext s e) e = channel s e := by
  obtain ⟨rpt, hrpt⟩ := reportNext_eq s e
  rw [hrpt]
  exact ⟨rfl, by simp [channel, RlcState.setRpt, RlcState.setEntity]⟩

/-- An SDU is delivered for the channel of the entity. -/
theorem deliver_calls (env : Platform β) (s : RlcState β) (e : β) (buffer : RlcAmBuffer β) :
    CallsFor (channel s e) s (clearReports (rlcDeliverAmSduToPdcp env s e buffer) e) := by
  refine ⟨_, rfl, fun ind hind => ?_⟩
  obtain rfl := List.mem_singleton.mp hind
  refine ⟨rfl, fun hsome => ?_⟩
  obtain ⟨b, hb⟩ := Option.isSome_iff_exists.mp (show buffer.pData.isSome from hsome)
  show (buffer.data s.mem buffer.size.toUInt16.toNat).length = _
  unfold RlcAmBuffer.data
  rw [hb, Option.elim_some, List.length_map, List.length_range]

theorem rlcReassembleFirstSduSegment_calls (env : Platform β) (s : RlcState β) (sn : Nat)
    (e : β) (dfe : AmdDfe β) :
    CallsFor (channel s e) s (rlcReassembleFirstSduSegment env s sn e dfe) := by
  unfold rlcReassembleFirstSduSegment
  split
  · obtain ⟨hinds, hch⟩ := reportFirst_calls s e
    have hdeliver := deliver_calls env (reportFirst s e) e dfe.buffer
    rw [hch] at hdeliver
    exact (CallsFor.of_eq hinds).trans hdeliver
  · exact .of_eq (reportFirst_calls (s.setRaw e _) e).1
  · exact .of_eq rfl

theorem joinRaw_calls {raw : RlcAmRawSdu β} {dfe : AmdDfe β}
    (hj : joinRaw env s raw dfe = (t, o)) (e : β) :
    t.rlcUeDataInds = s.rlcUeDataInds ∧ channel t e = channel s e := by
  unfold joinRaw at hj
  split at hj
  · split at hj
    all_goals
      obtain ⟨rfl, rfl⟩ := Prod.mk.inj hj
      exact ⟨rfl, rfl⟩
  · obtain ⟨rfl, rfl⟩ := Prod.mk.inj hj
    exact ⟨rfl, rfl⟩

theorem setRaw_channel (s : RlcState β) (e : β) (raw : RlcAmRawSdu β) :
    channel (s.setRaw e raw) e = channel s e := by
  simp [channel, RlcState.setRaw, RlcState.setEntity]

theorem rlcReassembleInCmpAmSdu_calls (env : Platform β) (s : RlcState β) (sn : Nat) (e : β)
    (dfe : AmdDfe β) : CallsFor (channel s e) s (rlcReassembleInCmpAmSdu env s sn e dfe) := by
  -- the incomplete SDU is dropped first
  have hdrop : ∀ raw, channel ((s.free? (s.rxAmEntity e).rxRawSdu.rawSdu.pData).setRaw e raw) e
      = channel s e := fun raw => setRaw_channel _ e raw
  unfold rlcReassembleInCmpAmSdu
  simp only
  split
  · split
    · split
      · rename_i u hj
        exact .of_eq (joinRaw_calls hj e).1
      · rename_i u buffer hj
        obtain ⟨hinds, hch⟩ := joinRaw_calls hj e
        obtain ⟨hinds', hch'⟩ := reportNext_calls (u.setRaw e
          ⟨(s.rxAmEntity e).rxRawSdu.sn, buffer⟩) e
        have hdeliver := deliver_calls env (reportNext (u.setRaw e
          ⟨(s.rxAmEntity e).rxRawSdu.sn, buffer⟩) e) e buffer
        rw [hch', setRaw_channel, hch] at hdeliver
        exact ((CallsFor.of_eq (hinds'.trans hinds)).trans hdeliver).trans (.of_eq rfl)
    · split
      · split
        · rename_i u hj
          exact .of_eq (joinRaw_calls hj e).1
        · rename_i u buffer hj
          exact .of_eq ((reportNext_calls _ e).1.trans (joinRaw_calls hj e).1)
      · exact .of_eq rfl
    · obtain ⟨hinds, hch⟩ := reportFirst_calls ((s.free?
        (s.rxAmEntity e).rxRawSdu.rawSdu.pData).setRaw e
          ⟨(s.rxAmEntity e).rxRawSdu.sn, ⟨0, none⟩⟩) e
      have hdeliver := deliver_calls env (reportFirst ((s.free?
        (s.rxAmEntity e).rxRawSdu.rawSdu.pData).setRaw e
          ⟨(s.rxAmEntity e).rxRawSdu.sn, ⟨0, none⟩⟩) e) e dfe.buffer
      rw [hch, hdrop] at hdeliver
      exact (CallsFor.of_eq hinds).trans hdeliver
    · exact .of_eq rfl
  · split
    · have hfirst := rlcReassembleFirstSduSegment_calls env ((s.free?
        (s.rxAmEntity e).rxRawSdu.rawSdu.pData).setRaw e
          ⟨(s.rxAmEntity e).rxRawSdu.sn, ⟨0, none⟩⟩) sn e dfe
      rw [hdrop] at hfirst
      exact hfirst
    · exact .of_eq rfl

/-- **A field** is delivered for the channel of the entity, if at all. -/
theorem rlcReassembleAmdDfe_calls (env : Platform β) (sn : Nat) (e : β) (s : RlcState β)
    (dfe : AmdDfe β) : CallsFor (channel s e) s (rlcReassembleAmdDfe env sn e s dfe) := by
  unfold rlcReassembleAmdDfe
  refine CallsFor.trans ?_ (.of_eq rfl)
  split
  · split
    · exact rlcReassembleInCmpAmSdu_calls env s sn e dfe
    · exact rlcReassembleFirstSduSegment_calls env s sn e dfe
  · exact .of_eq rfl

theorem Only.channel (h : Only s t e) : Rlc.channel t e = Rlc.channel s e := Prod.ext h.rnti h.lcId

theorem queue_calls (env : Platform β) (sn : Nat) (e : β) (q : List (AmdDfe β)) (s : RlcState β) :
    CallsFor (channel s e) s (q.foldl (rlcReassembleAmdDfe env sn e) s) := by
  induction q generalizing s with
  | nil => exact .of_eq rfl
  | cons dfe q ih =>
      have hrest := ih (rlcReassembleAmdDfe env sn e s dfe)
      rw [(rlcReassembleAmdDfe_works env sn e s dfe).only.channel] at hrest
      exact (rlcReassembleAmdDfe_calls env sn e s dfe).trans hrest

theorem segments_calls (env : Platform β) (sn : Nat) (e : β) (l : List (AmdPduSegment β))
    (s : RlcState β) : CallsFor (channel s e) s
      (l.foldl (fun s seg => (rlcReassembleAmdDfeQ env s sn e seg).free seg.addr) s) := by
  induction l generalizing s with
  | nil => exact .of_eq rfl
  | cons seg l ih =>
      have hrest := ih ((rlcReassembleAmdDfeQ env s sn e seg).free seg.addr)
      have hch : channel ((rlcReassembleAmdDfeQ env s sn e seg).free seg.addr) e = channel s e :=
        (rlcReassembleAmdDfeQ_works env sn e seg.dfeQ s).only.channel
      rw [hch] at hrest
      exact ((queue_calls env sn e seg.dfeQ s).trans (.of_eq rfl)).trans hrest

theorem setRing_channel (s : RlcState β) (e : β) (k : Nat) (node : RingNode β) :
    channel (s.setRing e k node) e = channel s e := by
  simp [channel, RlcState.setRing, RlcState.setEntity]

theorem rlcReassembleRlcSdu_calls (env : Platform β) (s : RlcState β) (sn : Nat) (e : β) :
    CallsFor (channel s e) s (rlcReassembleRlcSdu env s sn e) := by
  unfold rlcReassembleRlcSdu
  simp only
  split
  · split
    · exact .of_eq rfl
    · rename_i pdu _
      split
      · have hsegments := segments_calls env sn e pdu.segList
          (s.setRing e (sn &&& 511) ⟨.ready, some pdu⟩)
        rw [setRing_channel] at hsegments
        exact (hsegments.trans (.of_eq rfl)).trans (.of_eq rfl)
      · exact .of_eq rfl
  · exact .of_eq rfl

/-- **A PDU** delivers for the channel of its entity only. -/
theorem rlcProcessNewAmdPdu_calls (env : Platform β) (s : RlcState β) (h : AmdHeader)
    (info : RlcUlDataInfo β) (hring : (s.rxAmEntity e).amdPduRing (h.sn &&& 511) = ⟨.free, none⟩) :
    CallsFor (channel s e) s (rlcProcessNewAmdPdu env s e h info) := by
  rw [rlcProcessNewAmdPdu_eq env h info (by rw [hring])]
  cases hn : rlcNewAmdPdu env s h info with
  | mk t o =>
      have honly := (rlcNewAmdPdu_memWorks hn).1.only
      have hch : channel t e = channel s e := by
        rw [honly]
        rfl
      cases o with
      | none => exact .of_eq honly.calls
      | some pdu =>
          have hsdu := rlcReassembleRlcSdu_calls env
            (t.setRing e (h.sn &&& 511) ⟨.inUse, some pdu⟩) h.sn e
          rw [setRing_channel, hch] at hsdu
          exact (CallsFor.of_eq honly.calls).trans hsdu

end Calls

/-! ## Leaving a channel alone -/

/-- The channel keeps its entity, if it has one, and this its incomplete SDU, and nothing is
delivered for it. -/
structure LeavesAlone (s t : RlcState β) (rnti : UInt16) (lcId : Nat) : Prop where
  old : ∀ e ∈ t.entities, channel t e = (rnti, lcId) →
    e ∈ s.entities ∧ t.rxAmEntity e = s.rxAmEntity e ∧
      ∀ a ∈ rawBlock s e, t.mem.length a = s.mem.length a ∧ t.mem.bytes a = s.mem.bytes a
  kept : ∀ e ∈ s.entities, channel s e = (rnti, lcId) →
    e ∈ t.entities ∧ channel t e = (rnti, lcId)
  sdus : channelSdus t rnti lcId = channelSdus s rnti lcId

section Alone

variable {s t u : RlcState β} {a b e : β} {xs ys f : Multiset β} {rnti rnti' : UInt16}
variable {lcId lcId' : Nat} {o : Option β} {raw : Option (Partial (List UInt8))}
variable {info : RlcUlDataInfo β}

theorem LeavesAlone.refl (s : RlcState β) (rnti : UInt16) (lcId : Nat) :
    LeavesAlone s s rnti lcId :=
  ⟨fun _ he _ => ⟨he, rfl, fun _ _ => ⟨rfl, rfl⟩⟩, fun _ he hch => ⟨he, hch⟩, rfl⟩

theorem LeavesAlone.trans (h : LeavesAlone s t rnti lcId) (h' : LeavesAlone t u rnti lcId) :
    LeavesAlone s u rnti lcId := by
  refine ⟨fun e he hch => ?_, fun e he hch => ?_, h'.sdus.trans h.sdus⟩
  · obtain ⟨het, hxt, hmt⟩ := h'.old e he hch
    have hcht : channel t e = (rnti, lcId) := by
      rw [← hch, channel, channel, hxt]
    obtain ⟨hes, hxs, hms⟩ := h.old e het hcht
    refine ⟨hes, hxt.trans hxs, fun a ha => ?_⟩
    have hat : a ∈ rawBlock t e := by
      unfold rawBlock
      rw [hxs]
      exact ha
    obtain ⟨hl, hb⟩ := hmt a hat
    obtain ⟨hl', hb'⟩ := hms a ha
    exact ⟨hl.trans hl', hb.trans hb'⟩
  · obtain ⟨het, hcht⟩ := h.kept e he hch
    exact h'.kept e het hcht

/-- **What the channel keeps it still keeps.** -/
theorem LeavesAlone.keeps (h : LeavesAlone s t rnti lcId) (hk : ChannelKeeps s rnti lcId raw) :
    ChannelKeeps t rnti lcId raw := by
  refine ⟨fun e he hch => ?_, fun hne => ?_⟩
  · obtain ⟨hes, hx, hm⟩ := h.old e he hch
    have hchs : channel s e = (rnti, lcId) := by
      rw [← hch, channel, channel, hx]
    obtain ⟨hexact, hbytes⟩ := hk.entity e hes hchs
    have hraw : (t.rxAmEntity e).rxRawSdu = (s.rxAmEntity e).rxRawSdu := by rw [hx]
    refine ⟨rawExact_congr hraw (fun a ha => (hm a ha).1) hexact, ?_⟩
    rw [rawBytes_congr hraw fun a ha => (hm a ha).2, hbytes]
  · obtain ⟨e, he, hch⟩ := hk.isSome hne
    exact ⟨e, h.kept e he hch⟩

theorem rawBlock_le_rlcOwned (he : e ∈ s.entities) : rawBlock s e ≤ s.rlcOwned := by
  obtain ⟨rest, hrest⟩ := Multiset.exists_cons_of_mem he
  have hbind : s.entities.bind (rawBlock s) = rawBlock s e + rest.bind (rawBlock s) := by
    rw [hrest, Multiset.cons_bind]
  unfold RlcState.rlcOwned
  rw [hbind]
  refine le_trans ?_ (Multiset.le_add_left _ _)
  refine le_trans ?_ (Multiset.le_add_left _ _)
  exact le_trans (Multiset.le_add_right _ _) (Multiset.le_add_left _ _)

/-- A step that does nothing to the entities leaves all channels alone, if the blocks it works
on are none of theirs. -/
theorem LeavesAlone.of_transfer {zs : Multiset β}
    (ht : Transfer s.mem t.mem (s.toRrcState.owned + xs) zs)
    (hr : RrcSound s.toRrcState (s.rlcOwned + (xs + f))) (hent : t.entities = s.entities)
    (hx : t.rxAmEntity = s.rxAmEntity) (hinds : t.rlcUeDataInds = s.rlcUeDataInds)
    (rnti : UInt16) (lcId : Nat) : LeavesAlone s t rnti lcId := by
  have hch : ∀ e, channel t e = channel s e := fun e => by rw [channel, channel, hx]
  refine ⟨fun e he _ => ?_, fun e he hche => ?_, ?_⟩
  · rw [hent] at he
    refine ⟨he, by rw [hx], fun a ha => ?_⟩
    obtain ⟨rest, hrest⟩ := Multiset.le_iff_exists_add.mp hr.owned
    have hk := ht.keeps (s.rlcOwned + f + rest) hr.nodup (by rw [hrest]; ac_rfl)
    have hin : a ∈ s.rlcOwned + f + rest := by
      rw [add_assoc]
      exact Multiset.mem_add.mpr (Or.inl (Multiset.mem_of_le (rawBlock_le_rlcOwned he) ha))
    exact ⟨hk.length a hin, hk.bytes a hin⟩
  · rw [hent, hch]
    exact ⟨he, hche⟩
  · unfold channelSdus
    rw [hinds]

/-- A change of the memory only. -/
theorem LeavesAlone.onMem {m : Store β → Store β} (ht : Transfer s.mem (m s.mem) xs ys)
    (hr : RrcSound s.toRrcState (s.rlcOwned + (xs + f))) (rnti : UInt16) (lcId : Nat) :
    LeavesAlone s (s.onMem m) rnti lcId := by
  have hframe := ht.frame s.toRrcState.owned
  rw [add_comm xs] at hframe
  exact .of_transfer (t := s.onMem m) hframe hr rfl rfl rfl rnti lcId

/-- **A packet of the channel that is ignored** changes nothing. -/
theorem rlcProcessAmRxPacket_ignored {n : Nat} (hs : RlcSound s)
    (hr : RrcSound s.toRrcState (s.rlcOwned + ({b} + f))) (hlc : lcId ≤ srb2LcId)
    (hi : Ignored (s.mem.bytes b) n) (hk : ChannelKeeps s rnti lcId raw)
    (hf : (rlcProcessAmRxPacket env s ⟨lcId, n, some b⟩ rnti).mem.failures = s.mem.failures)
    (ht : rlcProcessAmRxPacket env s ⟨lcId, n, some b⟩ rnti = t) :
    ChannelKeeps t rnti lcId raw ∧ channelSdus t rnti lcId = channelSdus s rnti lcId := by
  by_cases hdata : ∃ h, rlcDecodeAmdHeader (s.mem.bytes b) n = some h ∧ h.dc ≠ 0
  · obtain ⟨h, hheader, hdc⟩ := hdata
    have hrest := (hi h hheader).resolve_left hdc
    obtain ⟨hkeeps, hcalls⟩ := rlcProcessAmRxPacket_channel (r := (raw, [])) hs hr hlc hheader hdc
      hk hf (fun u e xs hring hin hexact hraw _ hub _ => by
        rw [← hraw]
        exact rlcProcessAmdPdu_ignores hring hin hexact (by rwa [hub])) ht
    exact ⟨hkeeps, (channelSdus_calls hcalls).trans (List.append_nil _)⟩
  · -- no entity is looked for
    have hfind : rlcFindEntity env s ⟨lcId, n, some b⟩ rnti = (s, none) := by
      unfold rlcFindEntity
      rw [if_neg (Nat.not_lt.mpr hlc)]
      simp only [Option.bind_some]
      cases hheader : rlcDecodeAmdHeader (s.mem.bytes b) n with
      | none => rfl
      | some h =>
          have hdc : h.dc = 0 := by
            by_contra hne
            exact hdata ⟨h, hheader, hne⟩
          simp only [if_pos hdc]
    rw [rlcProcessAmRxPacket_findEntity, hfind] at ht
    obtain rfl : s.free b = t := ht
    have halone : LeavesAlone s (s.free b) rnti lcId :=
      .onMem (release_transfer s.mem b) hr rnti lcId
    exact ⟨halone.keeps hk, halone.sdus⟩

/-- The work for an entity leaves the channels of the others alone. -/
theorem Uses.leavesAlone (hu : Uses s t e xs) (hf : t.mem.failures = s.mem.failures)
    (hr : RrcSound s.toRrcState (s.rlcOwned + (xs + f))) (he : e ∈ s.entities)
    (hcalls : CallsFor (channel s e) s t) (hne : channel s e ≠ (rnti, lcId)) :
    LeavesAlone s t rnti lcId := by
  have hent : t.entities = s.entities := by
    unfold RlcState.entities
    rw [hu.only.rlcUeContext, hu.only.gRlcUeContextList]
  -- the entity at work keeps its channel, which is another one
  have hother : ∀ x, channel t x = (rnti, lcId) ∨ channel s x = (rnti, lcId) → x ≠ e := by
    rintro x hx rfl
    rw [hu.only.channel, or_self] at hx
    exact hne hx
  refine ⟨fun x hx hch => ?_, fun x hx hch => ?_, hcalls.channelSdus hne⟩
  · have hxe := hother x (Or.inl hch)
    rw [hent] at hx
    refine ⟨hx, hu.only.entity x hxe, fun a ha => ?_⟩
    -- all other blocks are left as they are
    obtain ⟨l, ht, -⟩ := hu.leaves.transfer (hu.leaves.joined hf)
    obtain ⟨rest, hrest⟩ := Multiset.le_iff_exists_add.mp hr.owned
    obtain ⟨ents, hents⟩ := Multiset.exists_cons_of_mem he
    have hraws : s.entities.bind (rawBlock s) = rawBlock s e + ents.bind (rawBlock s) := by
      rw [hents, Multiset.cons_bind]
    have hk := ht.keeps ((s.gMacUeContext : Multiset β) + ((s.gRlcUeContextList : Multiset β)
      + s.entities) + ents.bind (rawBlock s) + f + rest) hr.nodup (by
        rw [hrest, RlcState.rlcOwned, hraws]
        ac_rfl)
    have hxents : x ∈ ents := by
      rw [hents] at hx
      exact (Multiset.mem_cons.mp hx).resolve_left hxe
    have hin : a ∈ ents.bind (rawBlock s) := Multiset.mem_bind.mpr ⟨x, hxents, ha⟩
    constructor
    · apply hk.length
      simp [hin]
    · apply hk.bytes
      simp [hin]
  · rw [hent, channel, hu.only.entity x (hother x (Or.inr hch))]
    exact ⟨hx, hch⟩

/-! ### The lookup -/

theorem LeavesAlone.of_silent (hent : t.entities = s.entities) (hx : t.rxAmEntity = s.rxAmEntity)
    (hsilent : Silent s t) (hlen : ∀ b ∈ s.mem.inUse, t.mem.length b = s.mem.length b)
    (hr : RrcSound s.toRrcState (s.rlcOwned + ys)) (rnti : UInt16) (lcId : Nat) :
    LeavesAlone s t rnti lcId := by
  have hch : ∀ e, channel t e = channel s e := fun e => by rw [channel, channel, hx]
  refine ⟨fun e he _ => ?_, fun e he hche => ?_, ?_⟩
  · rw [hent] at he
    refine ⟨he, by rw [hx], fun a ha => ?_⟩
    exact ⟨hlen a (raw_inUse hr he (mem_rawBlock.mp ha)), by rw [hsilent.2]⟩
  · rw [hent, hch]
    exact ⟨he, hche⟩
  · unfold channelSdus
    rw [hsilent.1]

theorem rlcContextFor_leavesAlone (hs : RlcSound s)
    (hr : RrcSound s.toRrcState (s.rlcOwned + ys)) (h : rlcContextFor env s rnti' = (t, o))
    (hf : t.mem.failures = s.mem.failures) (rnti : UInt16) (lcId : Nat) :
    LeavesAlone s t rnti lcId := by
  obtain ⟨a, -, hfinds⟩ := rlcContextFor_finds hs hr h hf
  have hlen := (rlcContextFor_extends hr h).mem
  exact .of_silent hfinds.entities hfinds.entity hfinds.silent (fun b hb => (hlen b hb).1) hr
    rnti lcId

/-- An entity that is new is for its channel, in a block no entity was in. -/
theorem addEntity_leavesAlone {v : RlcState β} {e : β}
    (hr : RrcSound s.toRrcState (s.rlcOwned + ys)) (ha : a ∈ s.gRlcUeContextList)
    (hlc : lcId' < maxLcId) (hnew : (s.rlcUeContext a).rxAmEntityArray lcId' = none)
    (he : s.alloc env (env.sizeof .rxAMEntity) = (v, some e))
    (hne : ((s.rlcUeContext a).rnti, lcId') ≠ (rnti, lcId)) :
    LeavesAlone s (addEntity v a lcId' e) rnti lcId := by
  have hv := alloc_onMem he
  have hctx : v.rlcUeContext = s.rlcUeContext := by
    rw [hv]
    rfl
  have hvent : v.entities = s.entities := by
    rw [hv]
    rfl
  have hvx : v.rxAmEntity = s.rxAmEntity := by
    rw [hv]
    rfl
  have hnone : (v.rlcUeContext a).rxAmEntityArray lcId' = none := by
    rw [hctx]
    exact hnew
  have hav : a ∈ v.gRlcUeContextList := by
    rw [hv]
    exact ha
  have hn : v.gRlcUeContextList.Nodup := by
    rw [hv]
    exact (contexts_nodup hr : s.gRlcUeContextList.Nodup)
  have hent : (addEntity v a lcId' e).entities = {e} + v.entities :=
    addEntity_entities hn hav hlc hnone e
  -- entities are in blocks that are in use, so the allocator returns none of these
  have hfresh : ∀ x ∈ s.entities, x ≠ e := by
    rintro x hx rfl
    exact (alloc_fresh he).1 (entity_inUse hr hx)
  have hchan : Rlc.channel (addEntity v a lcId' e) e = ((s.rlcUeContext a).rnti, lcId') := by
    rw [Rlc.channel, addEntity_entity, hctx]
    rfl
  have hsilent := alloc_silent he
  refine ⟨fun x hx hch => ?_, fun x hx hch => ?_, ?_⟩
  · have hx' : x ∈ ({e} : Multiset β) + v.entities := hent ▸ hx
    rcases Multiset.mem_add.mp hx' with heq | hold
    · obtain rfl := Multiset.mem_singleton.mp heq
      exact absurd (hchan.symm.trans hch) hne
    · rw [hvent] at hold
      have hsame : (addEntity v a lcId' e).rxAmEntity x = s.rxAmEntity x := by
        rw [addEntity_entity_ne v a lcId' (hfresh x hold), hvx]
      refine ⟨hold, hsame, fun c hc => ⟨?_, ?_⟩⟩
      · exact (alloc_keepsLength he (raw_inUse hr hold (mem_rawBlock.mp hc))).1
      · exact congrFun hsilent.2 c
  · refine ⟨?_, ?_⟩
    · show x ∈ (addEntity v a lcId' e).entities
      rw [hent, hvent]
      exact Multiset.mem_add.mpr (Or.inr hx)
    · show Rlc.channel (addEntity v a lcId' e) x = _
      rw [Rlc.channel, addEntity_entity_ne v a lcId' (hfresh x hx), hvx]
      exact hch
  · exact congrArg (fun inds => (inds.filter fun ind : SduInd β =>
      ind.rnti = rnti ∧ ind.lcId = lcId).map SduInd.data) hsilent.1

theorem rlcEntityFor_leavesAlone (hr : RrcSound s.toRrcState (s.rlcOwned + ys))
    (ha : a ∈ s.gRlcUeContextList) (hlc : lcId' < maxLcId)
    (h : rlcEntityFor env s a lcId' = (t, o)) (hf : t.mem.failures = s.mem.failures)
    (hne : ((s.rlcUeContext a).rnti, lcId') ≠ (rnti, lcId)) : LeavesAlone s t rnti lcId := by
  unfold rlcEntityFor rlcGetRxAmEntity at h
  rw [if_pos hlc] at h
  cases hg : (s.rlcUeContext a).rxAmEntityArray lcId' with
  | some e =>
      rw [hg] at h
      obtain ⟨rfl, -⟩ := Prod.mk.inj h
      exact .refl s rnti lcId
  | none =>
      rw [hg] at h
      simp only [rlcCreateRxAmEntity, if_pos hlc] at h
      cases he : s.alloc env (env.sizeof .rxAMEntity) with
      | mk v c =>
          rw [he] at h
          cases c with
          | none =>
              obtain ⟨rfl, -⟩ := Prod.mk.inj h
              obtain ⟨b, hb⟩ := alloc_granted he hf
              cases hb
          | some e =>
              obtain ⟨rfl, -⟩ := Prod.mk.inj h
              exact addEntity_leavesAlone hr ha hlc hg he hne

/-- **The lookup for a packet** leaves the other channels alone, and finds the entity of its
own one. -/
theorem rlcFindEntity_leavesAlone {r : Option (β × AmdHeader)} (hs : RlcSound s)
    (hr : RrcSound s.toRrcState (s.rlcOwned + ys))
    (hfind : rlcFindEntity env s info rnti' = (t, r)) (hf : t.mem.failures = s.mem.failures)
    (hne : (rnti', info.lcId) ≠ (rnti, lcId)) :
    LeavesAlone s t rnti lcId ∧
      ∀ e h, r = some (e, h) → channel t e = (rnti', info.lcId) := by
  unfold rlcFindEntity at hfind
  split at hfind
  · obtain ⟨rfl, rfl⟩ := Prod.mk.inj hfind
    exact ⟨.refl s rnti lcId, by simp⟩
  rename_i hlc
  have hlc' : info.lcId < maxLcId := by
    simp only [srb2LcId, maxLcId] at hlc ⊢
    omega
  split at hfind
  · obtain ⟨rfl, rfl⟩ := Prod.mk.inj hfind
    exact ⟨.refl s rnti lcId, by simp⟩
  split at hfind
  · obtain ⟨rfl, rfl⟩ := Prod.mk.inj hfind
    exact ⟨.refl s rnti lcId, by simp⟩
  cases hctx : rlcContextFor env s rnti' with
  | mk v o =>
      obtain ⟨h1, hmem⟩ := rlcContextFor_receives hctx
      have hle1 := h1.failures
      rw [hctx] at hfind
      cases o with
      | none =>
          obtain ⟨rfl, rfl⟩ := Prod.mk.inj hfind
          exact ⟨rlcContextFor_leavesAlone hs hr hctx hf rnti lcId, by simp⟩
      | some a =>
          simp only at hfind
          have ha := hmem a rfl
          cases hent : rlcEntityFor env v a info.lcId with
          | mk w o =>
              obtain ⟨h2, -⟩ := rlcEntityFor_receives ha hlc' hent
              have hle2 := h2.failures
              rw [hent] at hfind
              have hw : w = t := by
                cases o with
                | none => exact (Prod.mk.inj hfind).1
                | some e => exact (Prod.mk.inj hfind).1
              subst hw
              have hfv : v.mem.failures = s.mem.failures := by omega
              obtain ⟨a', ha', hfinds⟩ := rlcContextFor_finds hs hr hctx hfv
              obtain rfl : a = a' := Option.some.inj ha'
              have hr' : RrcSound s.toRrcState (s.rlcOwned + (0 + ys)) := by rwa [zero_add]
              have hv := h1.after (h1.joined hfv) ys hs hr'
              have hrv := (hv.rrcSound (h1.joined hfv) hr').1
              have hne' : ((v.rlcUeContext a).rnti, info.lcId) ≠ (rnti, lcId) := by
                rw [hfinds.rnti]
                exact hne
              obtain ⟨e, rfl, hentity⟩ := rlcEntityFor_finds hv.sound hrv ha hlc' hent (by omega)
              refine ⟨(rlcContextFor_leavesAlone hs hr hctx hfv rnti lcId).trans
                (rlcEntityFor_leavesAlone hrv ha hlc' hent (by omega) hne'), fun x hd hx => ?_⟩
              obtain ⟨-, hsome⟩ := Prod.mk.inj hfind
              obtain rfl : e = x := (Prod.mk.inj (Option.some.inj (hsome.trans hx))).1
              rw [hentity.channel, hfinds.rnti]

/-- The lookup makes no call. -/
theorem rlcFindEntity_silentLog (env : Platform β) (s : RlcState β) (info : RlcUlDataInfo β)
    (rnti : UInt16) :
    (rlcFindEntity env s info rnti).1.rlcUeDataInds = s.rlcUeDataInds := by
  have hcontext : (rlcContextFor env s rnti).1.rlcUeDataInds = s.rlcUeDataInds := by
    unfold rlcContextFor rlcCreateUeContext
    split
    · cases ha : s.alloc env (env.sizeof .rlcUeContext) with
      | mk t o =>
          have ht : t.rlcUeDataInds = s.rlcUeDataInds := by
            rw [alloc_onMem ha]
            rfl
          cases o <;> exact ht
    · split <;> rfl
  have hentity : ∀ (t : RlcState β) a, (rlcEntityFor env t a info.lcId).1.rlcUeDataInds
      = t.rlcUeDataInds := by
    intro t a
    unfold rlcEntityFor rlcCreateRxAmEntity
    split
    · rfl
    · split
      · cases he : t.alloc env (env.sizeof .rxAMEntity) with
        | mk v o =>
            have hv : v.rlcUeDataInds = t.rlcUeDataInds := by
              rw [alloc_onMem he]
              rfl
            cases o <;> exact hv
      · rfl
  unfold rlcFindEntity
  split
  · rfl
  split
  · rfl
  split
  · rfl
  cases hctx : rlcContextFor env s rnti with
  | mk t o =>
      rw [hctx] at hcontext
      cases o with
      | none => exact hcontext
      | some a =>
          have hfor := hentity t a
          simp only
          cases hent : rlcEntityFor env t a info.lcId with
          | mk u o =>
              rw [hent] at hfor
              cases o <;> exact hfor.trans hcontext

/-- **A packet of another channel.** -/
theorem rlcProcessAmRxPacket_leavesAlone (hs : RlcSound s)
    (hr : RrcSound s.toRrcState (s.rlcOwned + (blockOf info.rlcdataBuffer + f)))
    (hf : (rlcProcessAmRxPacket env s info rnti').mem.failures = s.mem.failures)
    (hne : (rnti', info.lcId) ≠ (rnti, lcId)) :
    LeavesAlone s (rlcProcessAmRxPacket env s info rnti') rnti lcId := by
  rw [rlcProcessAmRxPacket_findEntity] at hf ⊢
  cases hfind : rlcFindEntity env s info rnti' with
  | mk t r =>
      obtain ⟨hreceives, -, hmem⟩ := rlcFindEntity_spec hs hr hfind
      have hle := hreceives.failures
      rw [hfind] at hf
      have hle' : t.mem.failures ≤ s.mem.failures := by
        rw [← hf]
        cases r with
        | none => exact (free?_receives t info.rlcdataBuffer).failures
        | some found =>
            exact (rlcEntityPacket_receives env t found.2 info (hmem _ _ rfl).1).failures
      obtain ⟨hlook, hch⟩ := rlcFindEntity_leavesAlone hs hr hfind (by omega) hne
      obtain ⟨hts, htr⟩ := hreceives.sound (zero_add _).symm (hreceives.joined (by omega)) hs hr
      rw [zero_add] at htr
      cases r with
      | none =>
          simp only at hf ⊢
          exact hlook.trans (.onMem (release?_transfer t.mem info.rlcdataBuffer) htr rnti lcId)
      | some found =>
          obtain ⟨e, h⟩ := found
          have he := (hmem e h rfl).1
          have hche := hch e h rfl
          have hring := hts.rings e he (h.sn &&& 511)
          have huses := rlcProcessNewAmdPdu_uses env h info hring
          have hcalls := rlcProcessNewAmdPdu_calls env t h info hring
          simp only at hf ⊢
          unfold rlcProcessAmdPdu at hf ⊢
          rw [if_pos (by rw [hring])] at hf ⊢
          refine hlook.trans (huses.leavesAlone (by omega) htr he hcalls ?_)
          rw [hche]
          exact hne

end Alone

/-! ## The calls of a packet -/

/-- Calls are added for the signalling channels. -/
def Logged (s t : RlcState β) : Prop :=
  ∃ l, t.rlcUeDataInds = s.rlcUeDataInds ++ l ∧ ∀ ind ∈ l, ind.lcId ≤ srb2LcId ∧ ind.Sized

section Log

variable {s t u : RlcState β} {info : RlcUlDataInfo β} {rnti : UInt16} {f : Multiset β}

theorem Logged.of_eq (h : t.rlcUeDataInds = s.rlcUeDataInds) : Logged s t :=
  ⟨[], by rw [h, List.append_nil], by simp⟩

theorem Logged.trans (h : Logged s t) (h' : Logged t u) : Logged s u := by
  obtain ⟨l, hl, hall⟩ := h
  obtain ⟨l', hl', hall'⟩ := h'
  refine ⟨l ++ l', by rw [hl', hl, List.append_assoc], fun ind hind => ?_⟩
  rcases List.mem_append.mp hind with hind | hind
  · exact hall ind hind
  · exact hall' ind hind

/-- **A packet** adds calls for its own channel. -/
theorem rlcProcessAmRxPacket_logged (hs : RlcSound s)
    (hr : RrcSound s.toRrcState (s.rlcOwned + (blockOf info.rlcdataBuffer + f)))
    (hf : (rlcProcessAmRxPacket env s info rnti).mem.failures = s.mem.failures) :
    Logged s (rlcProcessAmRxPacket env s info rnti) := by
  rw [rlcProcessAmRxPacket_findEntity] at hf ⊢
  have hlook := rlcFindEntity_silentLog env s info rnti
  cases hfind : rlcFindEntity env s info rnti with
  | mk t r =>
      obtain ⟨hreceives, -, hmem⟩ := rlcFindEntity_spec hs hr hfind
      have hle := hreceives.failures
      rw [hfind] at hf hlook
      cases r with
      | none => exact .of_eq hlook
      | some found =>
          obtain ⟨e, h⟩ := found
          have he := (hmem e h rfl).1
          have hft : t.mem.failures = s.mem.failures := by
            refine le_antisymm ?_ hle
            rw [← hf]
            exact (rlcEntityPacket_receives env t h info he).failures
          simp only at hlook ⊢
          obtain ⟨hts, -⟩ := hreceives.sound (zero_add _).symm (hreceives.joined hft) hs hr
          have hring := hts.rings e he (h.sn &&& 511)
          -- the packet is for a signalling channel, and the entity is that of its channel
          have hlc : info.lcId ≤ srb2LcId := by
            unfold rlcFindEntity at hfind
            split at hfind
            · cases (Prod.mk.inj hfind).2
            · rename_i hlc
              exact Nat.not_lt.mp hlc
          have hne : (rnti, info.lcId) ≠ (rnti, info.lcId + 1) := by simp
          have hch := (rlcFindEntity_leavesAlone hs hr hfind hft hne).2 e h rfl
          obtain ⟨l, hl, hall⟩ := rlcProcessNewAmdPdu_calls env t h info hring
          unfold rlcProcessAmdPdu
          rw [if_pos (by rw [hring])]
          refine ⟨l, by rw [hl, hlook], fun ind hind => ?_⟩
          obtain ⟨hind, hsized⟩ := hall ind hind
          rw [hch] at hind
          refine ⟨?_, hsized⟩
          rw [(Prod.mk.inj hind).2]
          exact hlc

end Log

/-! ## The blocks of the fields -/

section Lengths

variable {s t : RlcState β} {b : β} {xs : Multiset β} {n lcId : Nat} {h : AmdHeader}

/-- An element that is cut off has a block as long as what was left. -/
theorem rlcDecodeAndEnqueueAmSegment_lengths {fi : UInt8} {lis : List Nat} {dfe : AmdDfe β}
    {q : List (AmdDfe β)} {ok : Bool}
    (hr : rlcDecodeAndEnqueueAmSegment env fi lis s [] dfe = (t, q, ok))
    (hf : t.mem.failures = s.mem.failures) (hn : s.mem.inUse.Nodup)
    (hu : s.mem.inUse = dfe.blocks + xs) (hb : dfe.buffer.pData = some b)
    (hlen : s.mem.length b ≤ n) (hsize : dfe.buffer.size.toNat ≤ n) :
    ∀ d ∈ q, ∀ c, d.buffer.pData = some c → t.mem.length c ≤ n := by
  -- on the length indicators: the element that is left over is split again, and is smaller
  induction lis generalizing s dfe q b xs with
  | nil =>
      obtain ⟨rfl, rfl, rfl⟩ : s = t ∧ _ = q ∧ true = ok := by
        simpa [rlcDecodeAndEnqueueAmSegment] using hr
      intro d hd c hc
      obtain rfl := List.mem_singleton.mp hd
      obtain rfl : b = c := Option.some.inj (hb.symm.trans hc)
      exact hlen
  | cons li lis ih =>
      rcases rlcDecodeAndEnqueueAmSegment_inv hr hf with
        ⟨-, -, rfl⟩ | ⟨hli, u, v, next, pData, q', ha, hp, hrest, rfl, huf, hvf⟩
      · simp
      have hsub : (dfe.buffer.size - UInt32.ofNat li).toNat ≤ n := by
        rw [UInt32.toNat_sub_of_le _ _ (UInt32.not_lt.mp hli)]
        omega
      -- the two allocations leave the block alone
      have hku := (alloc_memWorks ha).transfer.keeps (dfe.blocks + xs) hn (by rw [hu, zero_add])
      have hkv := (alloc_memWorks hp).transfer.keeps ({next} + (dfe.blocks + xs)) hku.nodup (by
        rw [hku.inUse, zero_add, blockOf_some])
      have huw : (splitState v dfe (UInt32.ofNat li) pData).mem.inUse
          = {next} + blockOf (some pData) + (dfe.blocks + xs) := by
        show v.mem.inUse = _
        rw [hkv.inUse]
        ac_rfl
      have hbmem : b ∈ dfe.blocks + xs := by
        unfold AmdDfe.blocks
        rw [hb]
        simp
      have hw := rlcDecodeAndEnqueueAmSegment_memWorks env fi lis
        (splitState v dfe (UInt32.ofNat li) pData) []
        ⟨next, amPduMapSduFull, dfe.buffer.size - UInt32.ofNat li, some pData⟩
      rw [hrest] at hw
      have hkt := hw.transfer.keeps (dfe.blocks + xs) hkv.nodup
        (by rw [queueBlocks_nil, zero_add]; exact huw)
      have hnew : (splitState v dfe (UInt32.ofNat li) pData).mem.length pData ≤ n := by
        show v.mem.length pData ≤ n
        rw [(alloc_fresh hp).2.1]
        exact (Nat.mod_le _ _).trans hsub
      intro d hd c hc
      rcases List.mem_cons.mp hd with rfl | hd
      · obtain rfl : b = c := Option.some.inj (hb.symm.trans hc)
        rw [hkt.length b hbmem]
        show v.mem.length b ≤ n
        rw [hkv.length b (Multiset.mem_add.mpr (Or.inr hbmem)), hku.length b hbmem]
        exact hlen
      · exact ih hrest (hf.trans hvf.symm) hkv.nodup huw rfl hnew hsub d hd c hc

theorem rlcDecodeAmdPdu_lengths {pdu p : AmdPdu β} (hpdu : pdu.segList = [])
    (hr : rlcDecodeAmdPdu env s pdu h ⟨lcId, n, some b⟩ = (t, some p))
    (hf : t.mem.failures = s.mem.failures) (hn : s.mem.inUse.Nodup)
    (hu : s.mem.inUse = {b} + xs) (hlen : s.mem.length b = n) (hlt : n < 2 ^ 16)
    (hfit : Fits (s.mem.bytes b) n h) :
    ∀ seg ∈ p.segList, ∀ d ∈ seg.dfeQ, ∀ c, d.buffer.pData = some c → t.mem.length c ≤ n := by
  rcases rlcDecodeAmdPdu_inv hpdu hr hf with
    ⟨-, -, hno⟩ | ⟨seg, a, u, v, hseg, ha, huf, hvf, hcase⟩
  · cases hno
  have hku := (alloc_memWorks hseg).transfer.keeps ({b} + xs) hn (by rw [hu, zero_add])
  have hkv := (alloc_memWorks ha).transfer.keeps ({seg} + ({b} + xs)) hku.nodup (by
    rw [hku.inUse, zero_add, blockOf_some])
  have hbmem : b ∈ {b} + xs := by simp
  have hlv : v.mem.length b = n := by
    rw [hkv.length b (Multiset.mem_add.mpr (Or.inr hbmem)), hku.length b hbmem, hlen]
  rcases hcase with ⟨he, rfl, p', hp, -, hq⟩ | ⟨he, pduHeader, w, q, ok, hsome, hq, hw, hend⟩
  · obtain rfl := Option.some.inj hp
    have hle : 2 ≤ n := by
      rcases hfit with ⟨-, h2⟩ | ⟨he', -⟩
      · exact h2
      · exact absurd he he'
    obtain ⟨-, hl, -⟩ := bytes_removeHeader hlv hle hlt
    intro seg' hseg' d hd c hc
    rw [hq] at hseg'
    obtain rfl := List.mem_singleton.mp hseg'
    obtain rfl := List.mem_singleton.mp hd
    obtain rfl : b = c := Option.some.inj hc
    rw [hl]
    exact Nat.sub_le n 2
  · obtain ⟨ph, hph, hle⟩ : ∃ pduHeader, rlcGetConcatenationHeaderInfo (s.mem.bytes b)
        = some pduHeader ∧ pduHeader.hdrSize + pduHeader.dfeLength.sum ≤ n := by
      rcases hfit with ⟨he', -⟩ | ⟨-, hfit⟩
      · exact absurd he' he
      · exact hfit
    obtain rfl : ph = pduHeader := Option.some.inj (hph.symm.trans hsome)
    have hhdr : ph.hdrSize ≤ n := by omega
    obtain ⟨-, hl, hsub⟩ := bytes_removeHeader hlv hhdr hlt
    have hwv : w.mem.failures = (removeHeader v b ph.hdrSize).mem.failures := by
      rw [hw, ← hvf]
      exact (dropFront_failures v.mem b _).symm
    have hrm := (dropFront_transfer v.mem b ph.hdrSize).keeps ({a} + ({seg} + xs)) hkv.nodup
      (by rw [hkv.inUse, blockOf_some]; ac_rfl)
    have hrmUse : (removeHeader v b ph.hdrSize).mem.inUse = {a} + {b} + ({seg} + xs) := by
      show (v.mem.dropFront b ph.hdrSize).inUse = _
      rw [hrm.inUse]
      ac_rfl
    have hall := rlcDecodeAndEnqueueAmSegment_lengths hq hwv hrm.nodup hrmUse rfl
      (show (removeHeader v b ph.hdrSize).mem.length b ≤ n by rw [hl]; exact Nat.sub_le _ _)
      (by rw [hsub]; exact Nat.sub_le _ _)
    rcases hend with ⟨-, hno⟩ | ⟨-, rfl, p', hp, -, hpseg⟩
    · cases hno
    · obtain rfl := Option.some.inj hp
      intro seg' hseg'
      rw [hpseg] at hseg'
      obtain rfl := List.mem_singleton.mp hseg'
      exact hall

/-- **The blocks of the fields** are not longer than the PDU. -/
theorem rlcNewAmdPdu_lengths {p : AmdPdu β}
    (hn : rlcNewAmdPdu env s h ⟨lcId, n, some b⟩ = (t, some p))
    (hf : t.mem.failures = s.mem.failures) (hnd : s.mem.inUse.Nodup)
    (hu : s.mem.inUse = {b} + xs) (hlen : s.mem.length b = n) (hlt : n < 2 ^ 16)
    (hfit : Fits (s.mem.bytes b) n h) :
    ∀ seg ∈ p.segList, ∀ d ∈ seg.dfeQ, ∀ c, d.buffer.pData = some c → t.mem.length c ≤ n := by
  unfold rlcNewAmdPdu at hn
  cases hc : rlcCreateAmdPdu env s with
  | mk u o =>
      rw [hc] at hn
      cases o with
      | none => cases (Prod.mk.inj hn).2
      | some pdu =>
          obtain ⟨ha, hseg⟩ := rlcCreateAmdPdu_some hc
          have hw := alloc_memWorks ha
          have hku := hw.transfer.keeps ({b} + xs) hnd (by rw [hu, zero_add])
          have hbmem : b ∈ {b} + xs := by simp
          have hbytes := hku.bytes b hbmem
          simp only at hn
          split at hn
          · cases (Prod.mk.inj hn).2
          cases hd : rlcDecodeAmdPdu env u pdu h ⟨lcId, n, some b⟩ with
          | mk v o =>
              rw [hd] at hn
              cases o with
              | none => cases (Prod.mk.inj hn).2
              | some p' =>
                  obtain ⟨rfl, hp⟩ := Prod.mk.inj hn
                  obtain rfl := Option.some.inj hp
                  have hdw := rlcDecodeAmdPdu_memWorks env u h ⟨lcId, n, some b⟩ hseg
                  rw [hd] at hdw
                  have hle1 := hw.transfer.failures
                  have hle2 : u.mem.failures ≤ v.mem.failures := hdw.transfer.failures
                  have huu : u.mem.inUse = {b} + ({pdu.addr} + xs) := by
                    rw [hku.inUse, blockOf_some]
                    ac_rfl
                  have hall := rlcDecodeAmdPdu_lengths hseg hd (by omega) hku.nodup huu
                    ((hku.length b hbmem).trans hlen) hlt (by rw [hbytes]; exact hfit)
                  exact hall

end Lengths

end LteUlp.Rlc
