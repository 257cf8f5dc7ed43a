import LteUlp.Mac.Reception
import LteUlp.Rlc.Reception

set_option autoImplicit false
set_option linter.unusedSectionVars false

/-! # The blocks of the uplink path

Every function of the MAC layer is a step in the sense of `Receives`: what it allocates it
hands over or releases, and the contexts stay sound. The steps compose to one for a whole PHY
indication, of any contents.
-/

namespace LteUlp.Mac

open BlockStore LteUlp.Rrc LteUlp.Rlc

variable {β : Type} [DecidableEq β]

/-! ## The SDUs for RLC -/

/-- The blocks that go to RLC. -/
def sduBlocks (rlcData : Option (RlcUlData β)) : Multiset β :=
  rlcData.elim 0 fun d => {d.addr} + (d.rlcDataArray.filterMap (·.rlcdataBuffer) : List β)

/-- An entry brings its buffer, if there is one. -/
theorem sduBlocks_append (d : RlcUlData β) (info : RlcUlDataInfo β) :
    sduBlocks (some { d with rlcDataArray := d.rlcDataArray ++ [info] })
      = (info.rlcdataBuffer.elim 0 fun b => {b}) + sduBlocks (some d) := by
  simp only [sduBlocks, Option.elim_some, List.filterMap_append, ← Multiset.coe_add]
  cases hb : info.rlcdataBuffer with
  | none => simp [hb]
  | some b =>
      simp only [List.filterMap_cons_some hb, List.filterMap_nil, Multiset.coe_singleton,
        Option.elim_some]
      abel

theorem ulAlloc_transfer {env : MacPlatform β} {s t : UlState β} {o : Option β} {n : Nat}
    (h : s.alloc env n = (t, o)) :
    t.badDerefs = s.badDerefs ∧ Transfer s.mem t.mem 0 (o.elim 0 fun b => {b}) := by
  obtain rfl : (s.alloc env n).1 = t := congrArg Prod.fst h
  obtain rfl : (s.mem.alloc env.toPolicy n).2 = o := congrArg Prod.snd h
  exact ⟨rfl, alloc_transfer env.toPolicy s.mem n⟩

theorem ulAlloc_onlyMem {env : MacPlatform β} {s t : UlState β} {o : Option β} {n : Nat}
    (h : s.alloc env n = (t, o)) : OnlyMem s.toRlcState t.toRlcState := by
  obtain rfl : (s.alloc env n).1 = t := congrArg Prod.fst h
  rfl

theorem rlcUlDataFor_transfer {env : MacPlatform β} {s t : UlState β}
    {rlcData o : Option (RlcUlData β)} (h : rlcUlDataFor env s rlcData = (t, o)) :
    t.badDerefs = s.badDerefs ∧ Transfer s.mem t.mem (sduBlocks rlcData) (sduBlocks o) := by
  unfold rlcUlDataFor at h
  cases rlcData with
  | some d =>
      obtain ⟨rfl, rfl⟩ := Prod.mk.inj h
      exact ⟨rfl, .refl _ _⟩
  | none =>
      cases ha : s.alloc env (env.sizeof .rlcUlData) with
      | mk u o' =>
          have hu := ulAlloc_transfer ha
          rw [ha] at h
          cases o' with
          | none =>
              obtain ⟨rfl, rfl⟩ := Prod.mk.inj h
              exact hu
          | some a =>
              obtain ⟨rfl, rfl⟩ := Prod.mk.inj h
              exact hu

/-- **The demultiplexer loses nothing**, whichever allocations are refused. -/
theorem macDemuxOneToTenLchMsg_transfer (env : MacPlatform β) (s : UlState β)
    (rlcData : Option (RlcUlData β)) (lchId : Nat) (src : Nat → UInt8) (length : Nat) :
    let r := macDemuxOneToTenLchMsg env s rlcData lchId src length
    r.1.badDerefs = s.badDerefs ∧
      Transfer s.mem r.1.mem (sduBlocks rlcData) (sduBlocks r.2) := by
  unfold macDemuxOneToTenLchMsg
  split
  · exact ⟨rfl, .refl _ _⟩
  cases hf : rlcUlDataFor env s rlcData with
  | mk t o =>
      obtain ⟨hnull, ht⟩ := rlcUlDataFor_transfer hf
      cases o with
      | none => exact ⟨hnull, ht⟩
      | some d =>
          cases ha : t.alloc env length with
          | mk u o' =>
              obtain ⟨hnull', hu⟩ := ulAlloc_transfer ha
              have hframe := hu.frame (sduBlocks (some d))
              rw [zero_add] at hframe
              simp only [ha]
              cases o' with
              | none =>
                  refine ⟨hnull'.trans hnull, (ht.seq hframe).congr rfl ?_⟩
                  exact (sduBlocks_append d
                    { env.staleInfo t.mem.clock with rlcdataBuffer := none }).symm
              | some buffer =>
                  have hw := (write_transfer u.mem buffer src length).frame
                    (sduBlocks (some d))
                  refine ⟨hnull'.trans hnull, ((ht.seq hframe).seq hw).congr rfl ?_⟩
                  exact (sduBlocks_append d ⟨lchId, length, some buffer⟩).symm

section Rules

variable {env : MacPlatform β} {s t : UlState β} {xs ys : Multiset β} {o : Option β}
  {rnti : UInt16}

theorem rlcUlDataFor_onlyMem {rlcData r : Option (RlcUlData β)}
    (h : rlcUlDataFor env s rlcData = (t, r)) : OnlyMem s.toRlcState t.toRlcState := by
  unfold rlcUlDataFor at h
  cases rlcData with
  | some d =>
      obtain ⟨rfl, rfl⟩ := Prod.mk.inj h
      exact .refl _
  | none =>
      cases ha : s.alloc env (env.sizeof .rlcUlData) with
      | mk u o' =>
          have hu := ulAlloc_onlyMem ha
          rw [ha] at h
          cases o' with
          | none =>
              obtain ⟨rfl, rfl⟩ := Prod.mk.inj h
              exact hu
          | some a =>
              obtain ⟨rfl, rfl⟩ := Prod.mk.inj h
              exact hu

theorem macDemuxOneToTenLchMsg_onlyMem (env : MacPlatform β) (s : UlState β)
    (rlcData : Option (RlcUlData β)) (lchId : Nat) (src : Nat → UInt8) (length : Nat) :
    OnlyMem s.toRlcState
      (macDemuxOneToTenLchMsg env s rlcData lchId src length).1.toRlcState := by
  unfold macDemuxOneToTenLchMsg
  split
  · exact .refl _
  cases hf : rlcUlDataFor env s rlcData with
  | mk t r =>
      have ht := rlcUlDataFor_onlyMem hf
      cases r with
      | none => exact ht
      | some d =>
          simp only
          cases ha : t.alloc env length with
          | mk u o =>
              have hu := ht.trans (ulAlloc_onlyMem ha)
              cases o with
              | none => exact hu
              | some buffer =>
                  have hw : OnlyMem u.toRlcState (u.memcpy buffer src length).toRlcState := rfl
                  exact hu.trans hw

/-! ## Steps -/

/-- The contexts and entities of the MAC and RLC layers are the same. -/
structure SameContexts (s t : RlcState β) : Prop where
  macUeContext : t.macUeContext = s.macUeContext
  gMacUeContext : t.gMacUeContext = s.gMacUeContext
  rlcUeContext : t.rlcUeContext = s.rlcUeContext
  gRlcUeContextList : t.gRlcUeContextList = s.gRlcUeContextList
  rxAmEntity : t.rxAmEntity = s.rxAmEntity

/-- A step of the layers above. -/
theorem receives_above {s t : RlcState β} (h : SameContexts s t) (hl : Leaves s t xs ys) :
    Receives s t xs ys := by
  have hent : t.entities = s.entities := by
    unfold RlcState.entities
    rw [h.rlcUeContext, h.gRlcUeContextList]
  have hraw : rawBlock t = rawBlock s := by
    funext e
    unfold rawBlock
    rw [h.rxAmEntity]
  have howned : t.rlcOwned = s.rlcOwned := by
    unfold RlcState.rlcOwned
    rw [h.gMacUeContext, h.gRlcUeContextList, hent, hraw]
  refine .of_leaves ?_ fun hs => ⟨?_, ?_, ?_, ?_, ?_⟩
  · rw [howned]
    exact (hl.frame s.rlcOwned).congr (add_comm _ _) (add_comm _ _)
  · refine hs.mac.same h.gMacUeContext fun a _ => ?_
    rw [h.macUeContext]
    exact ⟨rfl, rfl⟩
  · rw [h.gRlcUeContextList, h.rlcUeContext]
    exact hs.live
  · rw [h.gRlcUeContextList, h.rlcUeContext]
    exact hs.unique
  · rw [h.gRlcUeContextList, h.rlcUeContext, h.rxAmEntity]
    exact hs.entity
  · rw [hent, h.rxAmEntity]
    exact hs.rings

theorem receives_onlyMem {s t : RlcState β} (h : OnlyMem s t)
    (ht : Transfer s.mem t.mem xs ys) : Receives s t xs ys := MemWorks.receives ⟨h, ht⟩

theorem ulAlloc_receives {n : Nat} (h : s.alloc env n = (t, o)) :
    Receives s.toRlcState t.toRlcState 0 (blockOf o) :=
  receives_onlyMem (ulAlloc_onlyMem h) (ulAlloc_transfer h).2

theorem memcpy_receives (s : UlState β) (b : β) (src : Nat → UInt8) (n : Nat) :
    Receives s.toRlcState (s.memcpy b src n).toRlcState {b} {b} :=
  receives_onlyMem rfl (write_transfer s.mem b src n)

theorem countKpi_receives (s : UlState β) (f : LteKpi → LteKpi) (xs : Multiset β) :
    Receives s.toRlcState (s.countKpi f).toRlcState xs xs := by
  refine receives_above ⟨rfl, rfl, rfl, rfl, rfl⟩ ?_
  exact .of_transfer (.refl _ _) rfl rfl rfl rfl rfl

/-! ## Demultiplexing -/

/-- The message of the common channel is released, or left behind if memory runs out. -/
theorem ccchDataInd_receives (env : MacPlatform β) (s : UlState β) (rnti : UInt16) (b : β)
    {size : Nat} (hsize : size % 2 ^ 16 ≠ 0) :
    Receives s.toRlcState (ccchDataInd env s rnti b size).toRlcState {b} 0 := by
  have hcall : macUeCcchDataInd env.toPlatform s.toRrcState rnti b (size % 2 ^ 16)
      = rrcParseUlCcchMsg env.toPlatform s.toRrcState rnti b (size % 2 ^ 16) := if_neg hsize
  have ht := rrcParseUlCcchMsg_transfer env.toPlatform s.toRrcState rnti b (size % 2 ^ 16)
  have hrefused : ccchMsgKept env.toPlatform s.toRrcState rnti b (size % 2 ^ 16) = true →
      s.mem.failures < (rrcParseUlCcchMsg env.toPlatform s.toRrcState rnti b
        (size % 2 ^ 16)).mem.failures := fun hk => ccchMsgKept_refused hk hsize
  have hend : (ccchDataInd env s rnti b size).toRrcState
      = rrcParseUlCcchMsg env.toPlatform s.toRrcState rnti b (size % 2 ^ 16) := hcall
  refine receives_above ⟨rfl, rfl, rfl, rfl, rfl⟩ ⟨⟨?_, le_rfl, fun _ => rfl⟩, fun _ => ?_, ?_⟩
  · rw [hend]
    exact ht.failures
  · refine ⟨if ccchMsgKept env.toPlatform s.toRrcState rnti b (size % 2 ^ 16) then {b} else 0,
      ?_, fun hf => ?_⟩
    · rw [hend, zero_add]
      exact ht
    · rw [hend] at hf
      rw [if_neg fun hk => (hrefused hk).ne' hf, add_zero]
      rfl
  · intro _ hs
    rw [hend]
    refine ⟨rrcParseUlCcchMsg_sound (by rwa [zero_add]) rnti _, ?_⟩
    show s.pendingDeletions + _ = _
    rw [RrcSound.pendingDeletion (s := s.toRrcState) hs]
    rfl

theorem macDemuxCcch_receives (env : MacPlatform β) (s : UlState β) (rnti : UInt16)
    (src : Nat → UInt8) {length : Nat} (hlen : length % 2 ^ 16 ≠ 0) :
    Receives s.toRlcState (macDemuxCcch env s rnti src length).toRlcState 0 0 := by
  unfold macDemuxCcch
  cases ha : s.alloc env length with
  | mk t o =>
      have hs := ulAlloc_receives ha
      cases o with
      | none => exact hs
      | some b =>
          exact (hs.seq (memcpy_receives t b src length)).seq (ccchDataInd_receives env _ rnti b hlen)

/-- What the decoder promises about an entry: a message of the common channel is not empty
and not too long. -/
def DemuxDataBase.Valid (entry : DemuxDataBase) : Prop :=
  entry.lchId = macUlCcchLch → 0 < entry.length ∧ entry.length ≤ 100

/-- **An entry of the table**: its SDU joins those for RLC, or is passed on at once. -/
theorem macDemuxEntry_receives (env : MacPlatform β) (m : Nat → UInt8) (rnti : UInt16)
    (r : UlState β × Option (RlcUlData β) × Nat) {entry : DemuxDataBase} (hv : entry.Valid) :
    Receives r.1.toRlcState (macDemuxEntry env m rnti r entry).1.toRlcState (sduBlocks r.2.1)
      (sduBlocks (macDemuxEntry env m rnti r entry).2.1) := by
  obtain ⟨s, rlcData, dataPtr⟩ := r
  unfold macDemuxEntry
  simp only
  split
  · rename_i hch
    obtain ⟨hpos, hle⟩ := hv hch
    have h1 := (macDemuxCcch_receives env s rnti (fun k => m (dataPtr + k))
      (show entry.length % 2 ^ 16 ≠ 0 by omega)).frame (sduBlocks rlcData)
    have h2 := countKpi_receives (macDemuxCcch env s rnti (fun k => m (dataPtr + k))
      entry.length) (fun kpi => { kpi with lcIdArray := bump kpi.lcIdArray entry.lchId })
      (sduBlocks rlcData)
    rw [zero_add] at h1
    exact h1.seq h2
  · split
    · have h1 := receives_onlyMem
        (macDemuxOneToTenLchMsg_onlyMem env s rlcData entry.lchId (fun k => m (dataPtr + k))
          entry.length)
        (macDemuxOneToTenLchMsg_transfer env s rlcData entry.lchId
          (fun k => m (dataPtr + k)) entry.length).2
      exact h1.seq (countKpi_receives _ _ _)
    · split
      · exact .refl _ _
      · split
        · exact .refl _ _
        · split
          · exact .refl _ _
          · exact .refl _ _

theorem macDemuxLoop_receives (env : MacPlatform β) (m : Nat → UInt8) (rnti : UInt16)
    (l : List DemuxDataBase) (hl : ∀ entry ∈ l, entry.Valid)
    (r : UlState β × Option (RlcUlData β) × Nat) :
    Receives r.1.toRlcState (l.foldl (macDemuxEntry env m rnti) r).1.toRlcState
      (sduBlocks r.2.1) (sduBlocks (l.foldl (macDemuxEntry env m rnti) r).2.1) := by
  induction l generalizing r with
  | nil => exact .refl _ _
  | cons entry l ih =>
      have h1 := macDemuxEntry_receives env m rnti r (hl entry List.mem_cons_self)
      exact h1.seq (ih (fun x hx => hl x (List.mem_cons_of_mem entry hx)) _)

/-! ## The SDUs for RLC are received -/

theorem macUeDataIndEntry_receives (env : MacPlatform β) (rnti : UInt16) (s : RlcState β)
    (info : RlcUlDataInfo β) :
    Receives s (macUeDataIndEntry env rnti s info) (blockOf info.rlcdataBuffer) 0 := by
  unfold macUeDataIndEntry
  split
  · exact rlcProcessAmRxPacket_receives env.toPlatform s info rnti
  · exact free?_receives s _

theorem macUeDataIndLoop_receives (env : MacPlatform β) (rnti : UInt16)
    (l : List (RlcUlDataInfo β)) (s : RlcState β) :
    Receives s (l.foldl (macUeDataIndEntry env rnti) s)
      (l.filterMap (·.rlcdataBuffer) : List β) 0 := by
  induction l generalizing s with
  | nil => exact .refl s 0
  | cons info l ih =>
      have h1 := (macUeDataIndEntry_receives env rnti s info).frame
        ((l.filterMap (·.rlcdataBuffer) : List β) : Multiset β)
      rw [zero_add] at h1
      refine (h1.seq (ih _)).congr ?_ rfl
      cases hb : info.rlcdataBuffer with
      | none => rw [List.filterMap_cons_none hb, blockOf_none, zero_add]
      | some b => rw [List.filterMap_cons_some hb, blockOf_some, Multiset.singleton_add,
          Multiset.cons_coe]

theorem macUeDataInd_receives (env : MacPlatform β) (s : RlcState β) (addr : β) (rnti : UInt16)
    (rlcData : Option (RlcUlData β)) :
    Receives s (macUeDataInd env s addr rnti rlcData) (sduBlocks rlcData + {addr}) 0 := by
  unfold macUeDataInd
  cases rlcData with
  | none =>
      refine (free_receives s addr).congr ?_ rfl
      exact (zero_add _).symm
  | some d =>
      have h1 := (macUeDataIndLoop_receives env rnti d.rlcDataArray s).frame
        ({d.addr} + {addr})
      have h2 := (free_receives (d.rlcDataArray.foldl (macUeDataIndEntry env rnti) s)
        d.addr).frame ({addr} : Multiset β)
      rw [zero_add] at h1 h2
      refine ((h1.seq h2).seq (free_receives _ addr)).congr ?_ rfl
      unfold sduBlocks
      rw [Option.elim_some]
      ac_rfl

/-- **A PDU is split**, and nothing of it is left. -/
theorem macDeMultiplexAndSend_receives (env : MacPlatform β) (s : UlState β) (m : Nat → UInt8)
    (dataPtr : Nat) (rnti : UInt16) (l : List DemuxDataBase)
    (hl : ∀ entry ∈ l, entry.Valid) :
    Receives s.toRlcState
      (macDeMultiplexAndSend env s m dataPtr rnti l).toRlcState 0 0 := by
  unfold macDeMultiplexAndSend
  cases ha : s.alloc env (env.sizeof .macUeDataInd) with
  | mk t o =>
      have hs := ulAlloc_receives ha
      cases o with
      | none => exact hs
      | some addr =>
          have h1 := (macDemuxLoop_receives env m rnti l hl (t, none, dataPtr)).frame
            ({addr} : Multiset β)
          have h2 : Receives t.toRlcState _ {addr} _ := h1.congr (zero_add _) rfl
          exact (hs.seq h2).seq (macUeDataInd_receives env _ addr rnti _)

/-! ## The table of the decoder -/

theorem valid_record {st : Decode} (h : ∀ entry ∈ st.demuxData, entry.Valid) {lcId length : Nat}
    (hv : DemuxDataBase.Valid ⟨lcId, length⟩) :
    ∀ entry ∈ (st.record lcId length).demuxData, entry.Valid := by
  unfold Decode.record
  split
  · intro entry hentry
    rcases List.mem_append.mp hentry with hentry | hentry
    · exact h entry hentry
    · obtain rfl := List.mem_singleton.mp hentry
      exact hv
  · exact h

theorem valid_acceptSdu {st : Decode} (h : ∀ entry ∈ st.demuxData, entry.Valid) {lcId : Nat}
    {tooLong : Nat → Bool} (hch : lcId = macUlCcchLch → ∀ n, tooLong n = false → n ≤ 100) :
    ∀ entry ∈ (acceptSdu lcId tooLong st).demuxData, entry.Valid := by
  unfold acceptSdu
  split
  · exact h
  · rename_i hok
    have hok' : st.localLength ≠ 0 ∧ tooLong st.localLength = false := by
      simp only [not_or, Bool.not_eq_true] at hok
      exact ⟨hok.1, hok.2.2⟩
    refine valid_record h fun hlc => ⟨Nat.pos_of_ne_zero hok'.1, hch hlc _ hok'.2⟩

theorem valid_processSdu {st : Decode} (h : ∀ entry ∈ st.demuxData, entry.Valid)
    (m : Nat → UInt8) {lcId : Nat} {tooLong : Nat → Bool}
    (hch : lcId = macUlCcchLch → ∀ n, tooLong n = false → n ≤ 100) :
    ∀ entry ∈ (processSdu m lcId tooLong st).demuxData, entry.Valid := by
  unfold processSdu
  simp only
  split
  · split
    · exact h
    · exact valid_acceptSdu (by exact h) hch
  · refine valid_acceptSdu ?_ hch
    unfold macCalculateSubHeaderLength Decode.peek
    simp only
    split <;> exact h

theorem valid_processCe {st : Decode} (h : ∀ entry ∈ st.demuxData, entry.Valid) {lcId : Nat}
    (length : Nat) (hch : lcId ≠ macUlCcchLch) :
    ∀ entry ∈ (processCe lcId length st).demuxData, entry.Valid := by
  unfold processCe
  split
  · exact h
  · exact valid_record h fun hlc => absurd hlc hch

theorem valid_macSubheader {st : Decode} (h : ∀ entry ∈ st.demuxData, entry.Valid)
    (m : Nat → UInt8) : ∀ entry ∈ (macSubheader m st).demuxData, entry.Valid := by
  have hce : ∀ (u : Decode) (lcId length : Nat), u.demuxData = st.demuxData →
      lcId ≠ macUlCcchLch → ∀ entry ∈ (processCe lcId length u).demuxData, entry.Valid :=
    fun u lcId length hu hne => valid_processCe (by rwa [hu]) length hne
  unfold macSubheader Decode.peek macDispatch
  simp only
  split
  · refine valid_processSdu (by exact h) m fun _ n hn => ?_
    simpa using hn
  split
  · rename_i hne _
    exact valid_processSdu (by exact h) m fun hlc => absurd hlc hne
  split
  · exact hce _ _ _ rfl (by decide)
  split
  · exact hce _ _ _ rfl (by decide)
  split
  · rename_i hne _ _ _ _
    exact hce _ _ _ rfl hne
  split
  · exact hce _ _ _ rfl (by decide)
  split
  · unfold macProcessPaddingLch
    simp only
    split
    · split <;> exact h
    · exact h
  · exact h

theorem valid_macLoop {m : Nat → UInt8} {fuel : Nat} {st st' : Decode}
    (h : ∀ entry ∈ st.demuxData, entry.Valid) (hl : macLoop m fuel st = some st') :
    ∀ entry ∈ st'.demuxData, entry.Valid := by
  induction fuel generalizing st with
  | zero => simp [macLoop] at hl
  | succ fuel ih =>
      rw [macLoop] at hl
      have h1 := valid_macSubheader h m
      split at hl
      · exact ih h1 hl
      · obtain rfl := Option.some.inj hl
        exact h1

theorem macProcessUlSchPdu_receives {fuel length : Nat} {m : Nat → UInt8}
    (h : macProcessUlSchPdu env fuel s m length rnti = some t) :
    Receives s.toRlcState t.toRlcState 0 0 := by
  unfold macProcessUlSchPdu at h
  split at h
  · obtain rfl := Option.some.inj h
    exact .refl _ _
  · obtain ⟨st, hst, rfl⟩ := Option.map_eq_some_iff.mp h
    have hvalid := valid_macLoop (by simp [Decode.start]) hst
    split
    · exact macDeMultiplexAndSend_receives env s m st.pData rnti st.demuxData hvalid
    · exact .refl _ _

/-! ## MAC contexts -/

/-- Writing to the radio values of a context. -/
theorem setMacContext_receives (s : UlState β) (a : β) (c : MacUeContext)
    (hc : c.deleteFlag = (s.macUeContext a).deleteFlag ∧ c.rnti = (s.macUeContext a).rnti)
    (xs : Multiset β) : Receives s.toRlcState (s.setMacContext a c).toRlcState xs xs := by
  have hl : Leaves s.toRlcState (s.setMacContext a c).toRlcState (s.rlcOwned + xs)
      (s.rlcOwned + xs) := by
    apply Leaves.of_rrc <;> rfl
  refine .of_leaves hl fun hs => ⟨hs.mac.same rfl fun b _ => ?_, hs.live, hs.unique, hs.entity,
    hs.rings⟩
  show ((Function.update s.macUeContext a c) b).deleteFlag = _ ∧
    ((Function.update s.macUeContext a c) b).rnti = _
  by_cases hb : b = a
  · subst hb
    rw [Function.update_self]
    exact hc
  · rw [Function.update_of_ne hb]
    exact ⟨rfl, rfl⟩

/-- A new context at the end of the list. -/
def pushMacContext (s : RlcState β) (a : β) (rnti : UInt16) : RlcState β :=
  { s with
    macUeContext := Function.update s.macUeContext a
      ⟨0, rnti, 0, false, 0, (s.macUeContext a).ta⟩
    gMacUeContext := s.gMacUeContext ++ [a] }

theorem pushMacContext_sound {s : RlcState β} {a : β} (hs : RlcSound s)
    (ha : a ∉ s.gMacUeContext) (hnone : macGetUeContext s.toMacState rnti = none) :
    RlcSound (pushMacContext s a rnti) ∧ (pushMacContext s a rnti).rlcOwned = {a} + s.rlcOwned := by
  have hold : ∀ b ∈ s.gMacUeContext,
      (pushMacContext s a rnti).macUeContext b = s.macUeContext b := fun b hb =>
    Function.update_of_ne (ne_of_mem_of_not_mem hb ha) _ _
  have hnew : (pushMacContext s a rnti).macUeContext a
      = ⟨0, rnti, 0, false, 0, (s.macUeContext a).ta⟩ := Function.update_self ..
  refine ⟨⟨⟨?_, ?_⟩, hs.live, hs.unique, hs.entity, hs.rings⟩, ?_⟩
  · intro b hb
    rcases List.mem_append.mp hb with hb | hb
    · rw [hold b hb]
      exact hs.mac.live b hb
    · obtain rfl := List.mem_singleton.mp hb
      rw [hnew]
  · show ((s.gMacUeContext ++ [a]).map fun b =>
      ((pushMacContext s a rnti).macUeContext b).rnti).Nodup
    rw [List.map_append, List.map_congr_left fun b hb => by rw [hold b hb], List.map_singleton,
      hnew]
    refine List.nodup_append.mpr ⟨hs.mac.unique, by simp, ?_⟩
    rintro x hx y hy rfl
    obtain ⟨b, hb, hbx⟩ := List.mem_map.mp hx
    rw [List.mem_singleton] at hy
    have hall := List.find?_eq_none.mp hnone b hb
    exact hall (by rw [hbx, hy]; exact beq_self_eq_true rnti)
  · unfold RlcState.rlcOwned
    show ((s.gMacUeContext ++ [a] : List β) : Multiset β)
      + (_ + (s.entities + s.entities.bind (rawBlock s))) = _
    rw [← Multiset.coe_add, Multiset.coe_singleton]
    show _ + ((s.gRlcUeContextList : Multiset β) + _) = _
    ac_rfl

theorem macFindOrCreate_receives (h : macFindOrCreate env s rnti = (t, o)) :
    Receives s.toRlcState t.toRlcState 0 0 := by
  unfold macFindOrCreate at h
  cases hg : macGetUeContext s.toMacState rnti with
  | some a =>
      rw [hg] at h
      obtain ⟨rfl, rfl⟩ := Prod.mk.inj h
      exact .refl _ _
  | none =>
      rw [hg] at h
      simp only [macCreateUeContext] at h
      cases ha : s.toRlcState.alloc env.toPlatform (env.sizeof .macUeContext) with
      | mk u o' =>
          have hl := (alloc_leaves ha).frame s.rlcOwned
          have hu := alloc_onMem ha
          have halloc : s.toMacState.alloc env.toPlatform (env.sizeof .macUeContext)
              = ((s.toRlcState.alloc env.toPlatform (env.sizeof .macUeContext)).1.toMacState,
                (s.toRlcState.alloc env.toPlatform (env.sizeof .macUeContext)).2) := rfl
          rw [halloc, ha] at h
          cases o' with
          | none =>
              have hend : t.toRlcState = u := by
                rw [hu] at h ⊢
                exact (congrArg (fun r => UlState.toRlcState r.1) h).symm
              rw [hend]
              exact alloc_none_receives ha
          | some a =>
              rw [hu, zero_add] at hl
              have hend : t.toRlcState = pushMacContext (s.toRlcState.onMem fun _ => u.mem) a
                  rnti := by
                rw [hu] at h
                exact (congrArg (fun r => UlState.toRlcState r.1) h).symm
              have hpush : Leaves (s.toRlcState.onMem fun _ => u.mem)
                  (pushMacContext (s.toRlcState.onMem fun _ => u.mem) a rnti) ({a} + s.rlcOwned)
                  ({a} + s.rlcOwned) := by
                apply Leaves.of_rrc <;> rfl
              have hboth := hl.seq hpush
              rw [hend]
              refine ⟨hboth.toGrows, fun _ f hs hr => ?_⟩
              have hnot : a ∉ s.gMacUeContext := fun hmem => (alloc_fresh ha).1
                (Multiset.mem_of_le (le_trans (macContexts_le_rlcOwned _) (rlcOwned_le hr))
                  (Multiset.mem_coe.mpr hmem))
              obtain ⟨hsound, howned⟩ := pushMacContext_sound
                (s := s.toRlcState.onMem fun _ => u.mem) (hs.onMem _) hnot hg
              refine ⟨hsound, hboth.congr (add_zero _).symm ?_⟩
              rw [add_zero]
              exact howned.symm

theorem macRecordPdu_receives (env : MacPlatform β) (s : UlState β) (head : RxUlSchIndHeadPdu) :
    Receives s.toRlcState (macRecordPdu env s head).toRlcState 0 0 := by
  unfold macRecordPdu
  cases hf : macFindOrCreate env s head.rnti with
  | mk t o =>
      have h1 := macFindOrCreate_receives hf
      cases o with
      | none => exact h1
      | some a =>
          have h2 := setMacContext_receives t a { t.macUeContext a with
            rbNum := head.rbNum, prbPower := head.prbPower, ta := head.ta } ⟨rfl, rfl⟩ 0
          exact h1.seq h2

/-! ## Indications -/

theorem macProcessPdu_receives {fuel : Nat} {data : Nat → UInt8} {head : RxUlSchIndHeadPdu}
    {tempLen : UInt16} (h : macProcessPdu env fuel s data head tempLen = some t) :
    Receives s.toRlcState t.toRlcState 0 0 := by
  unfold macProcessPdu at h
  split at h
  · have h1 := countKpi_receives s (fun kpi => { kpi with crcCorrect := kpi.crcCorrect + 1 }) 0
    have h2 := macRecordPdu_receives env
      (s.countKpi fun kpi => { kpi with crcCorrect := kpi.crcCorrect + 1 }) head
    exact (h1.seq h2).seq (macProcessUlSchPdu_receives h)
  · obtain rfl := Option.some.inj h
    exact countKpi_receives s _ 0

theorem macProcessPdus_receives {fuel : Nat} {data : Nat → UInt8} {length : UInt16} {left : Nat}
    {tempLen : UInt16} (h : macProcessPdus env fuel data length left tempLen s = some t) :
    Receives s.toRlcState t.toRlcState 0 0 := by
  induction left generalizing s tempLen with
  | zero =>
      obtain rfl := Option.some.inj h
      exact .refl _ _
  | succ left ih =>
      rw [macProcessPdus] at h
      split at h
      · simp only at h
        split at h
        · obtain rfl := Option.some.inj h
          exact .refl _ _
        · obtain ⟨u, hu, h⟩ := Option.bind_eq_some_iff.mp h
          exact (macProcessPdu_receives hu).seq (ih h)
      · obtain rfl := Option.some.inj h
        exact .refl _ _

/-- **An indication** of any contents is a step that leaves nothing in hand. -/
theorem macProcessPhyDataInd_receives {fuel : Nat} {pBuffer : Option (Nat → UInt8)}
    {length : UInt16} (h : macProcessPhyDataInd env fuel s pBuffer length = some t) :
    Receives s.toRlcState t.toRlcState 0 0 := by
  unfold macProcessPhyDataInd at h
  split at h
  · obtain rfl := Option.some.inj h
    exact .refl _ _
  · split at h
    · exact macProcessPdus_receives h
    · obtain rfl := Option.some.inj h
      exact .refl _ _

end Rules

end LteUlp.Mac
