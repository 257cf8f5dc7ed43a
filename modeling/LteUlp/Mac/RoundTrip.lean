import LteUlp.Mac.Encoding
import LteUlp.Worker.Runs

set_option autoImplicit false
set_option linter.unusedSectionVars false

/-! # MAC decoding undoes MAC encoding

`MacDeMultiplexAndSend` walks over the payload of a PDU with the table of the decoder. What it
has done after some of the elements is `Demuxed`: the SDUs of the common channel are passed
on, the others are in blocks of their own that nothing writes to before they are passed on.
A message of the common channel is processed between two copies, so the blocks in hand must
be accounted for: they are, in every state that a run reaches.
-/

namespace LteUlp.Mac

open BlockStore ByteString LteUlp.Rrc LteUlp.Rlc LteUlp.Worker

variable {β : Type} [DecidableEq β] {env : MacPlatform β}

/-! ## What is to be passed on -/

/-- The calls of `MacUeCcchDataInd` for the elements. -/
def ccchInds (rnti : UInt16) (l : List MacElement) : List CcchInd :=
  (l.filter fun x => x.lcId = macUlCcchLch).map fun x => ⟨rnti, x.data, x.data.length⟩

/-- The SDUs on the channels 1 to 10. -/
def rlcSdus (l : List MacElement) : List RlcSdu :=
  (l.filter fun x => x.lcId ≠ macUlCcchLch ∧ x.lcId ≤ macLcid10).map fun x =>
    ⟨x.lcId, x.data.length, some x.data⟩

/-- `rlcData`, a null pointer where there are no SDUs. -/
def rlcDataOf (sdus : List RlcSdu) : Option (List RlcSdu) :=
  if sdus = [] then none else some sdus

/-- What kind of element it is says where it goes. -/
theorem passed_concat (rnti : UInt16) (l : List MacElement) (x : MacElement) :
    ccchInds rnti (l ++ [x]) = ccchInds rnti l ++
        (if x.lcId = macUlCcchLch then [⟨rnti, x.data, x.data.length⟩] else []) ∧
      rlcSdus (l ++ [x]) = rlcSdus l ++
        (if x.lcId ≠ macUlCcchLch ∧ x.lcId ≤ macLcid10 then
          [⟨x.lcId, x.data.length, some x.data⟩] else []) := by
  unfold ccchInds rlcSdus
  rw [List.filter_append, List.filter_append, List.map_append, List.map_append]
  constructor
  · by_cases h : x.lcId = macUlCcchLch <;> simp [h]
  · by_cases h : x.lcId ≠ macUlCcchLch ∧ x.lcId ≤ macLcid10 <;> simp [h]

theorem length_rlcSdus_le (l : List MacElement) : (rlcSdus l).length ≤ l.length := by
  unfold rlcSdus
  rw [List.length_map]
  exact List.length_filter_le _ _

/-! ## Blocks in hand -/

/-- **What is in hand is not written to** by a step that does not use it up. -/
theorem receives_keeps {s t : RlcState β} {xs ys f : Multiset β} (h : Receives s t xs ys)
    (hj : t.refusedJoins = s.refusedJoins) (hs : RlcSound s)
    (hr : RrcSound s.toRrcState (s.rlcOwned + (xs + f))) :
    ∀ b ∈ f, t.mem.bytes b = s.mem.bytes b := by
  obtain ⟨l, ht, -⟩ := (h.after hj f hs hr).leaves.transfer hj
  obtain ⟨r, hrest⟩ := Multiset.le_iff_exists_add.mp hr.owned
  have hk := ht.keeps (f + r) hr.nodup (by rw [hrest]; ac_rfl)
  exact fun b hb => hk.bytes b (Multiset.mem_add.mpr (Or.inl hb))

/-- Entries whose blocks are not written to. -/
theorem sduOf_congr {mem mem' : Store β} {l : List (RlcUlDataInfo β)}
    (h : ∀ info ∈ l, ∀ b, info.rlcdataBuffer = some b → mem'.bytes b = mem.bytes b) :
    l.map (sduOf mem') = l.map (sduOf mem) := by
  refine List.map_congr_left fun info hinfo => ?_
  unfold sduOf
  cases hb : info.rlcdataBuffer with
  | none => rfl
  | some b => rw [Option.map_some, Option.map_some, h info hinfo b hb]

theorem buffer_mem {d : RlcUlData β} {info : RlcUlDataInfo β} {b : β}
    (hinfo : info ∈ d.rlcDataArray) (hb : info.rlcdataBuffer = some b) :
    b ∈ sduBlocks (some d) := by
  unfold sduBlocks
  rw [Option.elim_some]
  refine Multiset.mem_add.mpr (Or.inr (Multiset.mem_coe.mpr ?_))
  exact List.mem_filterMap.mpr ⟨info, hinfo, hb⟩

/-! ## One element -/

/-- What has been passed on or copied after the elements `done`, from the state `s` on. -/
structure Demuxed (s : UlState β) (rnti : UInt16) (done : List MacElement) (t : UlState β)
    (rlcData : Option (RlcUlData β)) : Prop where
  ccch : t.macUeCcchDataInds = s.macUeCcchDataInds ++ ccchInds rnti done
  inds : t.macUeDataInds = s.macUeDataInds
  sdus : rlcData.elim [] (fun d => d.rlcDataArray.map (sduOf t.mem)) = rlcSdus done
  null : rlcData = none ↔ rlcSdus done = []

/-- The contexts are sound, and the copies and the blocks `f` are in hand. -/
structure Accounted (t : UlState β) (rlcData : Option (RlcUlData β)) (f : Multiset β) : Prop where
  sound : RlcSound t.toRlcState
  blocks : RrcSound t.toRrcState (t.rlcOwned + (sduBlocks rlcData + f))

/-- The calls made so far are the same. -/
def SameCalls (s t : UlState β) : Prop :=
  t.macUeCcchDataInds = s.macUeCcchDataInds ∧ t.macUeDataInds = s.macUeDataInds

theorem SameCalls.trans {s t u : UlState β} (h : SameCalls s t) (h' : SameCalls t u) :
    SameCalls s u := ⟨h'.1.trans h.1, h'.2.trans h.2⟩

/-- Copying an SDU calls nobody. -/
theorem macDemuxOneToTenLchMsg_sameCalls (env : MacPlatform β) (s : UlState β)
    (rlcData : Option (RlcUlData β)) (lchId : Nat) (src : Nat → UInt8) (length : Nat) :
    SameCalls s (macDemuxOneToTenLchMsg env s rlcData lchId src length).1 := by
  have hfor : SameCalls s (rlcUlDataFor env s rlcData).1 := by
    unfold rlcUlDataFor
    cases rlcData with
    | some d => exact ⟨rfl, rfl⟩
    | none =>
        cases ha : s.alloc env (env.sizeof .rlcUlData) with
        | mk t o =>
            obtain rfl : (s.alloc env (env.sizeof .rlcUlData)).1 = t := congrArg Prod.fst ha
            cases o <;> exact ⟨rfl, rfl⟩
  unfold macDemuxOneToTenLchMsg
  split
  · exact ⟨rfl, rfl⟩
  cases hr : rlcUlDataFor env s rlcData with
  | mk t o =>
      rw [hr] at hfor
      cases o with
      | none => exact hfor
      | some d =>
          simp only
          cases ha : t.alloc env length with
          | mk u o' =>
              obtain rfl : (t.alloc env length).1 = u := congrArg Prod.fst ha
              cases o' <;> exact hfor

/-- An allocation that is not refused. -/
theorem ulAlloc_some {s t : UlState β} {o : Option β} {n : Nat} (h : s.alloc env n = (t, o))
    (hf : t.mem.failures = s.mem.failures) :
    ∃ b, o = some b ∧ b ∉ s.mem.inUse ∧ t.mem.bytes = s.mem.bytes ∧ SameCalls s t := by
  obtain rfl : (s.alloc env n).1 = t := congrArg Prod.fst h
  obtain rfl : (s.mem.alloc env.toPolicy n).2 = o := congrArg Prod.snd h
  cases ho : (s.mem.alloc env.toPolicy n).2 with
  | none =>
      have := BlockStore.alloc_refused ho
      exact absurd hf this.ne'
  | some b =>
      obtain ⟨-, hb, hfresh⟩ := alloc_some ho
      exact ⟨b, rfl, hfresh, hb, rfl, rfl⟩

theorem rlcUlDataFor_some {s t : UlState β} {rlcData o : Option (RlcUlData β)}
    (h : rlcUlDataFor env s rlcData = (t, o)) (hf : t.mem.failures = s.mem.failures) :
    ∃ d, o = some d ∧ d.rlcDataArray = rlcData.elim [] (fun d => d.rlcDataArray) ∧
      t.mem.bytes = s.mem.bytes ∧ SameCalls s t := by
  unfold rlcUlDataFor at h
  cases rlcData with
  | some d =>
      obtain ⟨rfl, rfl⟩ := Prod.mk.inj h
      exact ⟨d, rfl, rfl, rfl, rfl, rfl⟩
  | none =>
      cases ha : s.alloc env (env.sizeof .rlcUlData) with
      | mk u o' =>
          rw [ha] at h
          cases o' with
          | none =>
              obtain ⟨rfl, rfl⟩ := Prod.mk.inj h
              obtain ⟨b, hb, -⟩ := ulAlloc_some ha hf
              exact absurd hb (by simp)
          | some a =>
              obtain ⟨rfl, rfl⟩ := Prod.mk.inj h
              obtain ⟨-, -, -, hbytes, hcalls⟩ := ulAlloc_some ha hf
              exact ⟨⟨a, []⟩, rfl, rfl, hbytes, hcalls⟩

/-- **An SDU on the channels 1 to 10** joins the others, which keep their bytes. -/
theorem macDemuxOneToTenLchMsg_some {s t : UlState β} {rlcData o : Option (RlcUlData β)}
    {lchId length : Nat} {src : Nat → UInt8}
    (h : macDemuxOneToTenLchMsg env s rlcData lchId src length = (t, o))
    (hf : t.mem.failures = s.mem.failures) (hn : s.mem.inUse.Nodup)
    (hroom : rlcData.elim 0 (fun d => d.rlcDataArray.length) < maxNumUlPkts)
    (hin : sduBlocks rlcData ≤ s.mem.inUse) :
    o.map (fun d => d.rlcDataArray.map (sduOf t.mem))
        = some (rlcData.elim [] (fun d => d.rlcDataArray.map (sduOf s.mem))
          ++ [⟨lchId, length, some ((List.range length).map src)⟩]) ∧
      SameCalls s t := by
  unfold macDemuxOneToTenLchMsg at h
  rw [if_neg (Nat.not_le.mpr hroom)] at h
  cases hfor : rlcUlDataFor env s rlcData with
  | mk u o1 =>
      obtain ⟨-, hu⟩ := rlcUlDataFor_transfer hfor
      rw [hfor] at h
      cases hua : u.alloc env length with
      | mk v o2 =>
          obtain ⟨-, hv⟩ := ulAlloc_transfer hua
          have hle1 := hu.failures
          have hle2 := hv.failures
          cases o1 with
          | none =>
              obtain ⟨rfl, rfl⟩ := Prod.mk.inj h
              obtain ⟨d, hd, -⟩ := rlcUlDataFor_some hfor hf
              exact absurd hd (by simp)
          | some d =>
              simp only [hua] at h
              cases o2 with
              | none =>
                  obtain ⟨rfl, rfl⟩ := Prod.mk.inj h
                  have hf' : v.mem.failures = s.mem.failures := hf
                  obtain ⟨b, hb, -⟩ := ulAlloc_some hua (by omega)
                  exact absurd hb (by simp)
              | some buffer =>
                  obtain ⟨rfl, rfl⟩ := Prod.mk.inj h
                  have hf' : v.mem.failures = s.mem.failures := hf
                  obtain ⟨d', hd, harray, hbytes1, hcalls1⟩ :=
                    rlcUlDataFor_some hfor (by omega)
                  obtain ⟨b, hb, hfresh, hbytes2, hcalls2⟩ := ulAlloc_some hua (by omega)
                  obtain rfl := Option.some.inj hd
                  obtain rfl := Option.some.inj hb
                  -- the blocks in hand are in use, so the new one is another
                  obtain ⟨r, hr⟩ := Multiset.le_iff_exists_add.mp hin
                  have hk := hu.keeps r hn hr
                  have hne : ∀ info ∈ d.rlcDataArray, ∀ c, info.rlcdataBuffer = some c →
                      c ≠ buffer := by
                    rintro info hinfo c hc rfl
                    refine hfresh ?_
                    rw [hk.inUse]
                    exact Multiset.mem_add.mpr (Or.inl (buffer_mem hinfo hc))
                  refine ⟨?_, hcalls1.trans (hcalls2.trans ⟨rfl, rfl⟩)⟩
                  have hold : d.rlcDataArray.map (sduOf (v.memcpy buffer src length).mem)
                      = rlcData.elim [] fun d => d.rlcDataArray.map (sduOf s.mem) := by
                    have hsame : ∀ info ∈ d.rlcDataArray, ∀ c, info.rlcdataBuffer = some c →
                        (v.memcpy buffer src length).mem.bytes c = s.mem.bytes c := by
                      intro info hinfo c hc
                      have hwrite : (v.memcpy buffer src length).mem.bytes c = v.mem.bytes c :=
                        Function.update_of_ne (hne info hinfo c hc) _ _
                      rw [hwrite, hbytes2, hbytes1]
                    rw [sduOf_congr hsame, harray]
                    cases rlcData <;> rfl
                  have hnew : sduOf (v.memcpy buffer src length).mem
                      ⟨lchId, length, some buffer⟩
                      = ⟨lchId, length, some ((List.range length).map src)⟩ := by
                    have hwritten : ∀ k ∈ List.range length,
                        (v.memcpy buffer src length).mem.bytes buffer k = src k := by
                      intro k hk
                      show Function.update v.mem.bytes buffer _ buffer k = _
                      rw [Function.update_self, if_pos (List.mem_range.mp hk)]
                    simp only [sduOf, Option.map_some, List.map_congr_left hwritten]
                  rw [Option.map_some, List.map_append, hold, List.map_singleton, hnew]

theorem entry_valid (x : MacElement) : x.entry.Valid := by
  intro h
  have hv := x.valid
  have h0 : x.lcId = macUlCcchLch := h
  rw [if_pos (by rw [h0]; decide)] at hv
  exact ⟨hv.1, hv.2 h0⟩

/-- The message of the common channel is logged with its bytes. -/
theorem macDemuxCcch_calls {s : UlState β} {rnti : UInt16} {src : Nat → UInt8} {length : Nat}
    (hlen : length < 2 ^ 16)
    (hf : (macDemuxCcch env s rnti src length).mem.failures = s.mem.failures) :
    (macDemuxCcch env s rnti src length).macUeCcchDataInds = s.macUeCcchDataInds
        ++ [⟨rnti, (List.range length).map src, length⟩] ∧
      (macDemuxCcch env s rnti src length).macUeDataInds = s.macUeDataInds := by
  unfold macDemuxCcch at hf ⊢
  cases ha : s.alloc env length with
  | mk t o =>
      simp only [ha] at hf ⊢
      cases o with
      | none =>
          obtain ⟨b, hb, -⟩ := ulAlloc_some ha hf
          exact absurd hb (by simp)
      | some b =>
          have hcalls : SameCalls s t := by
            obtain rfl : (s.alloc env length).1 = t := congrArg Prod.fst ha
            exact ⟨rfl, rfl⟩
          have hwritten : ∀ k ∈ List.range length,
              (t.memcpy b src length).mem.bytes b k = src k := by
            intro k hk
            show Function.update t.mem.bytes b _ b k = _
            rw [Function.update_self, if_pos (List.mem_range.mp hk)]
          constructor
          · show t.macUeCcchDataInds ++ [⟨rnti, (List.range (length % 2 ^ 16)).map
              ((t.memcpy b src length).mem.bytes b), length % 2 ^ 16⟩] = _
            rw [Nat.mod_eq_of_lt hlen, List.map_congr_left hwritten, hcalls.1]
          · exact hcalls.2

/-- A control element is skipped. -/
theorem macDemuxEntry_ce (m : Nat → UInt8) (rnti : UInt16) (t : UlState β)
    (rlcData : Option (RlcUlData β)) (dataPtr : Nat) {x : MacElement}
    (hx : ¬ x.lcId ≤ macLcid10) :
    macDemuxEntry env m rnti (t, rlcData, dataPtr) x.entry
      = (t, rlcData, dataPtr + x.data.length) := by
  have hce := ceLength_data hx
  have h0 : x.lcId ≠ macUlCcchLch := fun h => hx (by rw [h]; decide)
  unfold macDemuxEntry MacElement.entry
  simp only [if_neg h0, if_neg hx]
  unfold ceLength at hce
  by_cases hbsr : x.lcId = macTruncatedBsr ∨ x.lcId = macSBsrLch
  · have h26 : x.lcId ≠ macPowerHeadLch := by rcases hbsr with h | h <;> rw [h] <;> decide
    have h27 : x.lcId ≠ macCrntiLch := by rcases hbsr with h | h <;> rw [h] <;> decide
    rw [if_neg h26, if_neg h27, if_pos hbsr] at hce
    rw [if_pos hbsr, ← Option.some.inj hce]
    rfl
  rw [if_neg hbsr]
  by_cases h30 : x.lcId = macLBsrLch
  · rw [h30] at hce
    rw [if_pos h30, ← Option.some.inj hce]
    rfl
  rw [if_neg h30]
  by_cases h26 : x.lcId = macPowerHeadLch
  · rw [if_pos h26] at hce
    rw [if_pos h26, ← Option.some.inj hce]
    rfl
  · rw [if_neg h26]

/-- The SDUs that have been copied. -/
def copies (mem : Store β) (rlcData : Option (RlcUlData β)) : List RlcSdu :=
  rlcData.elim [] fun d => d.rlcDataArray.map (sduOf mem)

theorem length_copies (mem : Store β) (rlcData : Option (RlcUlData β)) :
    (copies mem rlcData).length = rlcData.elim 0 fun d => d.rlcDataArray.length := by
  cases rlcData with
  | none => rfl
  | some d => exact List.length_map _

section Steps

variable {s t : UlState β} {rnti : UInt16} {done : List MacElement}
  {rlcData : Option (RlcUlData β)} {f : Multiset β} {m : Nat → UInt8} {dataPtr : Nat}
  {x : MacElement}

/-- The copies are in use. -/
theorem Accounted.copies_le (ha : Accounted t rlcData f) : sduBlocks rlcData ≤ t.mem.inUse := calc
  sduBlocks rlcData ≤ sduBlocks rlcData + f := Multiset.le_add_right _ f
  _ ≤ t.rlcOwned + (sduBlocks rlcData + f) := Multiset.le_add_left _ _
  _ ≤ t.mem.inUse := inHand_le ha.blocks

/-- A message of the common channel leaves the copies alone. -/
theorem copies_ccch (ha : Accounted t rlcData f) {src : Nat → UInt8} {length : Nat}
    (hsize : length % 2 ^ 16 ≠ 0)
    (hf : (macDemuxCcch env t rnti src length).mem.failures = t.mem.failures) :
    copies (macDemuxCcch env t rnti src length).mem rlcData = copies t.mem rlcData := by
  have hreceives := macDemuxCcch_receives env t rnti src hsize
  have hkeeps := receives_keeps (f := sduBlocks rlcData + f) hreceives
    (hreceives.joined hf) ha.sound (by rw [zero_add]; exact ha.blocks)
  unfold copies
  cases rlcData with
  | none => rfl
  | some d =>
      refine sduOf_congr fun info hinfo b hb => ?_
      exact hkeeps b (Multiset.mem_add.mpr (Or.inl (buffer_mem hinfo hb)))

/-- An SDU of the common channel is passed on. Its processing leaves the copies alone. -/
theorem Demuxed.ccchStep (h : Demuxed s rnti done t rlcData) (ha : Accounted t rlcData f)
    (h0 : x.lcId = macUlCcchLch) (hm : Reads m dataPtr x.data)
    (hf : (macDemuxCcch env t rnti (fun k => m (dataPtr + k)) x.data.length).mem.failures
      = t.mem.failures) :
    Demuxed s rnti (done ++ [x])
      (macDemuxCcch env t rnti (fun k => m (dataPtr + k)) x.data.length) rlcData := by
  obtain ⟨hccch, hrlc⟩ := passed_concat rnti done x
  rw [if_pos h0] at hccch
  rw [if_neg fun hc => hc.1 h0, List.append_nil] at hrlc
  obtain ⟨hpos, hle⟩ : 0 < x.data.length ∧ x.data.length ≤ 100 := entry_valid x h0
  obtain ⟨h1, h2⟩ := macDemuxCcch_calls (by omega) hf
  constructor
  · rw [h1, hm.map_range, h.ccch, hccch, List.append_assoc]
  · exact h2.trans h.inds
  · rw [hrlc]
    exact (copies_ccch ha (show x.data.length % 2 ^ 16 ≠ 0 by omega) hf).trans h.sdus
  · rw [hrlc]
    exact h.null

/-- An SDU on the channels 1 to 10 is copied. -/
theorem Demuxed.rlcStep (h : Demuxed s rnti done t rlcData) (ha : Accounted t rlcData f)
    (hx : x.lcId ≠ macUlCcchLch ∧ x.lcId ≤ macLcid10) (hm : Reads m dataPtr x.data)
    (hcount : done.length < maxNumUlPkts) {u : UlState β} {o : Option (RlcUlData β)}
    (hstep : macDemuxOneToTenLchMsg env t rlcData x.lcId (fun k => m (dataPtr + k))
      x.data.length = (u, o)) (hf : u.mem.failures = t.mem.failures) :
    Demuxed s rnti (done ++ [x]) u o := by
  obtain ⟨hccch, hrlc⟩ := passed_concat rnti done x
  rw [if_neg hx.1, List.append_nil] at hccch
  rw [if_pos hx] at hrlc
  -- there is room for one more
  have hlength : rlcData.elim 0 (fun d => d.rlcDataArray.length) = (rlcSdus done).length := by
    rw [← h.sdus]
    exact (length_copies t.mem rlcData).symm
  have hroom : rlcData.elim 0 (fun d => d.rlcDataArray.length) < maxNumUlPkts := by
    have := length_rlcSdus_le done
    omega
  obtain ⟨hsdus, hcalls⟩ := macDemuxOneToTenLchMsg_some hstep hf ha.blocks.nodup hroom ha.copies_le
  rw [hm.map_range, h.sdus, ← hrlc] at hsdus
  obtain ⟨d, rfl, hd⟩ := Option.map_eq_some_iff.mp hsdus
  constructor
  · rw [hcalls.1, h.ccch, hccch]
  · exact hcalls.2.trans h.inds
  · exact hd
  · rw [hrlc]
    simp

/-- **An element is demultiplexed**: the step lemma of the loop. -/
theorem Demuxed.step (h : Demuxed s rnti done t rlcData) (ha : Accounted t rlcData f)
    (x : MacElement) (hm : Reads m dataPtr x.data) (hcount : done.length < maxNumUlPkts)
    {r : UlState β × Option (RlcUlData β) × Nat}
    (hr : macDemuxEntry env m rnti (t, rlcData, dataPtr) x.entry = r)
    (hf : r.1.mem.failures = t.mem.failures) :
    Demuxed s rnti (done ++ [x]) r.1 r.2.1 ∧ r.2.2 = dataPtr + x.data.length := by
  by_cases hx : x.lcId ≤ macLcid10
  · by_cases h0 : x.lcId = macUlCcchLch
    · have hstep : macDemuxEntry env m rnti (t, rlcData, dataPtr) x.entry
          = (countLcId (macDemuxCcch env t rnti (fun k => m (dataPtr + k)) x.data.length) x.lcId,
            rlcData, dataPtr + x.data.length) := by
        unfold macDemuxEntry MacElement.entry
        simp only [if_pos h0]
      obtain rfl := hr.symm.trans hstep
      have hnext := h.ccchStep ha h0 hm hf
      exact ⟨⟨hnext.ccch, hnext.inds, hnext.sdus, hnext.null⟩, rfl⟩
    · cases hone : macDemuxOneToTenLchMsg env t rlcData x.lcId (fun k => m (dataPtr + k))
        x.data.length with
      | mk u o =>
          have hstep : macDemuxEntry env m rnti (t, rlcData, dataPtr) x.entry
              = (countLcId u x.lcId, o, dataPtr + x.data.length) := by
            unfold macDemuxEntry MacElement.entry
            simp only [if_neg h0, if_pos hx, hone]
          obtain rfl := hr.symm.trans hstep
          have hnext := h.rlcStep ha ⟨h0, hx⟩ hm hcount hone hf
          exact ⟨⟨hnext.ccch, hnext.inds, hnext.sdus, hnext.null⟩, rfl⟩
  · obtain rfl := hr.symm.trans (macDemuxEntry_ce m rnti t rlcData dataPtr hx)
    obtain ⟨hccch, hrlc⟩ := passed_concat rnti done x
    rw [if_neg fun h0 => hx (by rw [h0]; decide), List.append_nil] at hccch
    rw [if_neg fun hc => hx hc.2, List.append_nil] at hrlc
    refine ⟨⟨?_, h.inds, ?_, ?_⟩, rfl⟩
    · rw [hccch]
      exact h.ccch
    · rw [hrlc]
      exact h.sdus
    · rw [hrlc]
      exact h.null

/-- The blocks are accounted for whatever the entry is. -/
theorem Accounted.step (ha : Accounted t rlcData f) {entry : DemuxDataBase} (hv : entry.Valid)
    {r : UlState β × Option (RlcUlData β) × Nat}
    (hr : macDemuxEntry env m rnti (t, rlcData, dataPtr) entry = r)
    (hf : r.1.mem.failures = t.mem.failures) : Accounted r.1 r.2.1 f := by
  have hreceives := macDemuxEntry_receives env m rnti (t, rlcData, dataPtr) hv
  rw [hr] at hreceives
  obtain ⟨hsound, hblocks⟩ := hreceives.sound rfl (hreceives.joined hf) ha.sound ha.blocks
  exact ⟨hsound, hblocks⟩

/-- **The loop of `MacDeMultiplexAndSend`**, over the elements that are left. -/
theorem macDemuxLoop_demuxes (l : List MacElement) (h : Demuxed s rnti done t rlcData)
    (ha : Accounted t rlcData f) (hm : Reads m dataPtr (l.flatMap MacElement.data))
    (hcount : (done ++ l).length ≤ maxNumUlPkts)
    {r : UlState β × Option (RlcUlData β) × Nat}
    (hr : (l.map MacElement.entry).foldl (macDemuxEntry env m rnti) (t, rlcData, dataPtr) = r)
    (hf : r.1.mem.failures = t.mem.failures) :
    Demuxed s rnti (done ++ l) r.1 r.2.1 ∧ Accounted r.1 r.2.1 f := by
  induction l generalizing done t rlcData dataPtr with
  | nil =>
      obtain rfl := hr
      rw [List.append_nil]
      exact ⟨h, ha⟩
  | cons x l ih =>
      rw [List.map_cons, List.foldl_cons] at hr
      rw [List.flatMap_cons] at hm
      cases hx : macDemuxEntry env m rnti (t, rlcData, dataPtr) x.entry with
      | mk u r' =>
          obtain ⟨o, dataPtr'⟩ := r'
          rw [hx] at hr
          have hvalid : ∀ entry ∈ l.map MacElement.entry, entry.Valid := by
            intro entry hentry
            obtain ⟨y, -, rfl⟩ := List.mem_map.mp hentry
            exact entry_valid y
          -- neither the element nor the rest has a refused allocation
          have h1 : t.mem.failures ≤ u.mem.failures := by
            have := macDemuxEntry_receives env m rnti (t, rlcData, dataPtr) (entry_valid x)
            rw [hx] at this
            exact this.failures
          have h2 : u.mem.failures ≤ r.1.mem.failures := by
            rw [← hr]
            exact (macDemuxLoop_receives env m rnti _ hvalid (u, o, dataPtr')).failures
          have hu : u.mem.failures = t.mem.failures := by omega
          have hlen : done.length + (l.length + 1) ≤ maxNumUlPkts := by
            rwa [List.length_append, List.length_cons] at hcount
          obtain ⟨hstep, hptr⟩ := h.step ha x hm.left (by omega) hx hu
          have hread : Reads m dataPtr' (l.flatMap MacElement.data) := by
            rw [show dataPtr' = dataPtr + x.data.length from hptr]
            exact hm.right
          have hcount' : (done ++ [x] ++ l).length ≤ maxNumUlPkts := by
            rwa [List.append_assoc, List.singleton_append]
          have hnext := ih hstep (ha.step (entry_valid x) hx hu) hread hcount' hr (hf.trans hu.symm)
          rwa [List.append_assoc, List.singleton_append] at hnext

end Steps

/-! ## A whole PDU -/

/-- The elements follow the header. -/
theorem MacPdu.elements_read (p : MacPdu) {m : Nat → UInt8} (hm : Reads m 0 p.bytes) :
    Reads m p.header.length (p.elements.flatMap MacElement.data) := by
  have hpayload : Reads m p.header.length p.payload := by
    have h := hm.right
    rwa [zero_add] at h
  unfold MacLayout.payload at hpayload
  unfold MacLayout.elements
  rw [List.flatMap_append]
  cases hend : p.ending with
  | element x =>
      rw [hend] at hpayload
      show Reads m _ (_ ++ [x].flatMap MacElement.data)
      rw [List.flatMap_singleton]
      exact hpayload
  | padding l =>
      show Reads m _ (_ ++ [].flatMap MacElement.data)
      rw [List.flatMap_nil, List.append_nil]
      exact hpayload.left

/-- Where no allocation is refused, the loop is run with a block for the indication in hand. -/
theorem macDeMultiplexAndSend_granted {s t : UlState β} (hs : UlSound s.toRlcState)
    {m : Nat → UInt8} {dataPtr : Nat} {rnti : UInt16} {l : List DemuxDataBase}
    (hl : ∀ entry ∈ l, entry.Valid) (ht : macDeMultiplexAndSend env s m dataPtr rnti l = t)
    (hf : t.mem.failures = s.mem.failures) :
    ∃ u addr r, SameCalls s u ∧ Accounted u none {addr} ∧
      l.foldl (macDemuxEntry env m rnti) (u, none, dataPtr) = r ∧
      r.1.mem.failures = u.mem.failures ∧ dataInd env r.1 addr rnti r.2.1 = t := by
  unfold macDeMultiplexAndSend at ht
  cases ha : s.alloc env (env.sizeof .macUeDataInd) with
  | mk u o =>
      have hreceives := ulAlloc_receives ha
      rw [ha] at ht
      cases o with
      | none =>
          obtain rfl := ht
          obtain ⟨b, hb, -⟩ := ulAlloc_some ha hf
          cases hb
      | some addr =>
          simp only at ht
          have hloop := macDemuxLoop_receives env m rnti l hl (u, none, dataPtr)
          generalize hr : l.foldl (macDemuxEntry env m rnti) (u, none, dataPtr) = r at ht hloop
          -- no allocation is refused in any of the three parts
          have h1 : s.mem.failures ≤ u.mem.failures := hreceives.failures
          have h2 : u.mem.failures ≤ r.1.mem.failures := hloop.failures
          have h3 : r.1.mem.failures ≤ t.mem.failures := by
            rw [← ht]
            exact (macUeDataInd_receives env r.1.toRlcState addr rnti r.2.1).failures
          have hu : u.mem.failures = s.mem.failures := by omega
          obtain ⟨-, -, -, -, hcalls⟩ := ulAlloc_some ha hu
          have hreceived := hreceives.after (hreceives.joined hu) 0 hs.rlc hs.inHand
          have hblocks := (hreceived.rrcSound (hreceives.joined hu) hs.inHand).1
          rw [add_comm (blockOf (some addr)) 0] at hblocks
          exact ⟨u, addr, r, hcalls, ⟨hreceived.sound, hblocks⟩, hr, by omega, ht⟩

/-- **A PDU is demultiplexed**, from any sound state. -/
theorem macDeMultiplexAndSend_calls {s : UlState β} (hs : UlSound s.toRlcState) (p : MacPdu)
    {m : Nat → UInt8} (hm : Reads m 0 p.bytes) {rnti : UInt16} {t : UlState β}
    (ht : macDeMultiplexAndSend env s m p.header.length rnti (p.elements.map MacElement.entry)
      = t) (hf : t.mem.failures = s.mem.failures) :
    t.macUeCcchDataInds = s.macUeCcchDataInds ++ ccchInds rnti p.elements ∧
      t.macUeDataInds = s.macUeDataInds ++ [⟨rnti, rlcDataOf (rlcSdus p.elements)⟩] := by
  have hvalid : ∀ entry ∈ p.elements.map MacElement.entry, entry.Valid := by
    intro entry hentry
    obtain ⟨y, -, rfl⟩ := List.mem_map.mp hentry
    exact entry_valid y
  obtain ⟨u, addr, ⟨v, rlcData, dataPtr⟩, hcalls, hacc, hr, hv, ht⟩ :=
    macDeMultiplexAndSend_granted hs hvalid ht hf
  have hstart : Demuxed s rnti [] u (none : Option (RlcUlData β)) := by
    refine ⟨?_, hcalls.2, rfl, by simp [rlcSdus]⟩
    rw [hcalls.1]
    exact (List.append_nil _).symm
  obtain ⟨hdone, -⟩ := macDemuxLoop_demuxes p.elements hstart hacc
    (p.elements_read hm) (le_trans p.elements_le (by decide)) hr hv
  rw [List.nil_append] at hdone
  have hdata : rlcData.map (fun d => d.rlcDataArray.map (sduOf v.mem))
      = rlcDataOf (rlcSdus p.elements) := by
    have hnull := hdone.null
    have hsdus := hdone.sdus
    unfold rlcDataOf
    cases rlcData with
    | none => rw [if_pos (hnull.mp rfl), Option.map_none]
    | some d =>
        rw [if_neg fun hc => absurd (hnull.mpr hc) (by simp), ← hsdus]
        rfl
  rw [← ht]
  refine ⟨hdone.ccch, ?_⟩
  show v.macUeDataInds ++ [⟨rnti, rlcData.map _⟩] = _
  rw [hdata, hdone.inds]

/-- **MAC decoding undoes MAC encoding.** In every state that a run without a refused join
reaches, a PDU is decoded, and unless memory runs out its SDUs are passed on: those of the
common channel one by one, the others together. -/
theorem macProcessUlSchPdu_inverts (env : MacPlatform β) {s0 s : UlState β}
    {events : List UlEvent} (hs : UlInitial s0) (hrun : UlRun env s0 events s)
    (hj : s.refusedJoins = s0.refusedJoins) (p : MacPdu) {m : Nat → UInt8}
    (hm : Reads m 0 p.bytes) (rnti : UInt16) {fuel : Nat} (hfuel : p.bytes.length ≤ fuel) :
    ∃ t, macProcessUlSchPdu env fuel s m p.bytes.length rnti = some t ∧
      (t.mem.failures = s.mem.failures →
        t.macUeCcchDataInds = s.macUeCcchDataInds ++ ccchInds rnti p.elements ∧
          t.macUeDataInds = s.macUeDataInds ++ [⟨rnti, rlcDataOf (rlcSdus p.elements)⟩]) := by
  have hsound := (run_sound (initial_sound hs) hrun hj).1
  have hlen := p.length_bytes
  have hsize := p.ending_size
  have hheads : p.heads.length ≤ fuel := by
    have h1 : p.heads.length ≤ headerBytes p.heads := by
      have := le_headerBytes_subheaders m p.bytes.length p.heads.length
      rwa [p.subheaders_eq hm le_rfl, List.take_length] at this
    have h2 : headerBytes p.heads = headerBytes p.leadingHeads + p.ending.head.size :=
      headerBytes_concat _ _
    omega
  obtain ⟨st, hloop, hok, hptr, hdemux⟩ := macLoop_decodes p hm hheads
  refine ⟨macDeMultiplexAndSend env s m p.header.length rnti (p.elements.map MacElement.entry),
    ?_, fun hf => macDeMultiplexAndSend_calls hsound p hm rfl hf⟩
  unfold macProcessUlSchPdu
  rw [if_neg (by omega), hloop, Option.map_some, if_pos hok, hptr, hdemux]

/-- A padding subheader, an SDU of the common channel, one for RLC and a short BSR. -/
def mixedPdu : MacPdu where
  lead := 1
  body := [⟨0, [0x20, 0], by decide⟩, ⟨3, [7, 8, 9], by decide⟩]
  ending := .element ⟨29, [5], by decide⟩
  lead_le := by decide
  elements_le := by decide
  fields := by decide
  bytes_le := by decide

/-- The PDU is sent as 12 bytes and decoded. -/
theorem macProcessUlSchPdu_inverts_mixed :
    ∃ t, macProcessUlSchPdu freshMacPlatform 12 freshUlState
        (fun k => [0x3f, 0x20, 2, 0x23, 3, 29, 0x20, 0, 7, 8, 9, 5].getD k 0) 12 61 = some t ∧
      t.macUeCcchDataInds = [⟨61, [0x20, 0], 2⟩] ∧
      t.macUeDataInds = [⟨61, some [⟨3, 3, some [7, 8, 9]⟩]⟩] := by
  have hm : Reads (fun k => [0x3f, 0x20, 2, 0x23, 3, 29, 0x20, 0, 7, 8, 9, 5].getD k 0) 0
      mixedPdu.bytes := by
    unfold Reads
    decide
  obtain ⟨t, hrun, hcalls⟩ := macProcessUlSchPdu_inverts freshMacPlatform freshUlState_initial
    .start rfl mixedPdu hm 61 (show mixedPdu.bytes.length ≤ 12 by decide)
  have hfail : (macProcessUlSchPdu freshMacPlatform 12 freshUlState
      (fun k => [0x3f, 0x20, 2, 0x23, 3, 29, 0x20, 0, 7, 8, 9, 5].getD k 0) 12 61).map
      (fun t => t.mem.failures) = some 0 := by
    decide +kernel
  have hf : t.mem.failures = freshUlState.mem.failures := by
    have hlen : mixedPdu.bytes.length = 12 := by decide
    rw [hlen] at hrun
    rw [hrun, Option.map_some] at hfail
    exact Option.some.inj hfail
  exact ⟨t, hrun, hcalls hf⟩

end LteUlp.Mac
