import LteUlp.Mac.RoundTrip
import LteUlp.Worker.Conveying
import LteUlp.Worker.Runs

set_option autoImplicit false
set_option linter.unusedSectionVars false

/-! # What the worker collects is kept

`Retains env r x s t xs ys told` says of a part of the uplink path, from the PHY indication
down, what `Collects` says of the RLC layer: as long as no allocation is refused, the identity
`x` of the UE `r` is carried by at least as many contexts as before, by one if `told` holds, and
only if a message or an SDU of the UE was passed on that tells it. For an indication of any
bytes `IndicationTells` goes through the PDUs and their elements. With the report pass this
gives what a run does: an identity that was told is reported or carried ever after, and no other
one is (`run_balanced`).
-/

namespace LteUlp.Worker

open BlockStore LteUlp.Rrc LteUlp.Pdcp LteUlp.Rlc LteUlp.Mac

variable {β : Type} [DecidableEq β]

/-! ## Steps -/

/-- A message of the common channel of these bytes tells the identity, whichever block it is
in and whatever else the state holds. -/
def CcchTells (env : Platform β) (data : List UInt8) (x : Collected) : Prop :=
  ∀ (s : RrcState β) (b : β), (∀ k (h : k < data.length), s.mem.bytes b k = data[k]) →
    x ∈ ccchTold env s (s.mem.bytes b) data.length

/-- It tells the identity in some state of the memory. -/
def CcchMayTell (env : Platform β) (data : List UInt8) (x : Collected) : Prop :=
  ∃ (s : RrcState β) (b : β), (∀ k (h : k < data.length), s.mem.bytes b k = data[k]) ∧
    x ∈ ccchTold env s (s.mem.bytes b) data.length

/-- One of the messages or SDUs that were passed on is of the UE, and tells the identity in
some state of the memory. -/
def PassedOn (env : Platform β) (s : UlState β) (r : UInt16) (x : Collected) : Prop :=
  Heard env s.rlcUeDataInds r x ∨
    ∃ ind ∈ s.macUeCcchDataInds, ind.rnti = r ∧ CcchMayTell env ind.data x

/-- What a part of the uplink path does to an identity. -/
structure Kept (env : Platform β) (r : UInt16) (x : Collected) (s t : UlState β)
    (told : Prop) : Prop where
  ready : ∀ a ∈ t.gReadyRrcUeContextList,
    ((t.rrcUeContext a).ueIdentity.imsiPresent || (t.rrcUeContext a).ueIdentity.mTmsiPresent)
      = true
  tally : tally r x s.toRrcState ≤ tally r x t.toRrcState
  told : told → 1 ≤ Worker.tally r x t.toRrcState
  sdus : s.rlcUeDataInds ⊆ t.rlcUeDataInds
  ccch : s.macUeCcchDataInds ⊆ t.macUeCcchDataInds
  heard : 1 ≤ Worker.tally r x t.toRrcState → 1 ≤ Worker.tally r x s.toRrcState ∨
    PassedOn env t r x

/-- A step of the uplink path, from a sound state, and what it does to an identity. -/
structure Retains (env : Platform β) (r : UInt16) (x : Collected) (s t : UlState β)
    (xs ys : Multiset β) (told : Prop) : Prop
    extends Receives s.toRlcState t.toRlcState xs ys where
  kept : t.mem.failures = s.mem.failures → ∀ f, RlcSound s.toRlcState →
    Gathered s.toRrcState (s.rlcOwned + (xs + f)) → Kept env r x s t told

section Rules

variable {env : Platform β} {r : UInt16} {x : Collected} {s t u : UlState β}
variable {xs ys zs f : Multiset β} {told told' : Prop}

theorem PassedOn.mono (h : PassedOn env s r x) (hs : s.rlcUeDataInds ⊆ t.rlcUeDataInds)
    (hc : s.macUeCcchDataInds ⊆ t.macUeCcchDataInds) : PassedOn env t r x := by
  rcases h with h | ⟨ind, hind, hrest⟩
  · exact Or.inl (h.mono hs)
  · exact Or.inr ⟨ind, hc hind, hrest⟩

theorem Kept.trans (h : Kept env r x s t told) (h' : Kept env r x t u told') :
    Kept env r x s u (told ∨ told') := by
  refine ⟨h'.ready, h.tally.trans h'.tally, fun ht => ?_, List.Subset.trans h.sdus h'.sdus,
    List.Subset.trans h.ccch h'.ccch, fun hu => ?_⟩
  · rcases ht with ht | ht
    · exact (h.told ht).trans h'.tally
    · exact h'.told ht
  · rcases h'.heard hu with ht | ht
    · exact (h.heard ht).imp id fun hs => hs.mono h'.sdus h'.ccch
    · exact Or.inr ht

theorem Kept.mono (h : Kept env r x s t told') (himp : told → told') : Kept env r x s t told :=
  ⟨h.ready, h.tally, fun ht => h.told (himp ht), h.sdus, h.ccch, h.heard⟩

/-- The state after a step that refuses nothing. -/
theorem Retains.gathered (h : Retains env r x s t xs ys told)
    (hf : t.mem.failures = s.mem.failures) (hs : RlcSound s.toRlcState)
    (hg : Gathered s.toRrcState (s.rlcOwned + (xs + f))) :
    RlcSound t.toRlcState ∧ Gathered t.toRrcState (t.rlcOwned + (ys + f)) := by
  obtain ⟨h1, h2⟩ := h.sound rfl (h.joined hf) hs hg.toRrcSound
  exact ⟨h1, h2, (h.kept hf f hs hg).ready⟩

theorem Retains.seq (h : Retains env r x s t xs ys told)
    (h' : Retains env r x t u ys zs told') : Retains env r x s u xs zs (told ∨ told') := by
  have hle := h.failures
  have hle' := h'.failures
  refine ⟨h.toReceives.seq h'.toReceives, fun hf f hs hg => ?_⟩
  have hft : t.mem.failures = s.mem.failures := by omega
  obtain ⟨ht, hgt⟩ := h.gathered hft hs hg
  exact (h.kept hft f hs hg).trans (h'.kept (by omega) f ht hgt)

theorem Retains.mono (h : Retains env r x s t xs ys told') (himp : told → told') :
    Retains env r x s t xs ys told :=
  ⟨h.toReceives, fun hf f hs hg => (h.kept hf f hs hg).mono himp⟩

theorem Retains.frame (h : Retains env r x s t xs ys told) (f : Multiset β) :
    Retains env r x s t (xs + f) (ys + f) told := by
  refine ⟨h.toReceives.frame f, fun hf f' hs hg => ?_⟩
  rw [add_assoc xs] at hg
  exact h.kept hf (f + f') hs hg

theorem Retains.congr {xs' ys' : Multiset β} (h : Retains env r x s t xs ys told)
    (hx : xs = xs') (hy : ys = ys') : Retains env r x s t xs' ys' told := hx ▸ hy ▸ h

theorem Retains.after_quiet (h : Retains env r x s t xs ys False)
    (h' : Retains env r x t u ys zs told) : Retains env r x s u xs zs told := (h.seq h').mono .inr

theorem Retains.then_quiet (h : Retains env r x s t xs ys told)
    (h' : Retains env r x t u ys zs False) : Retains env r x s u xs zs told := (h.seq h').mono .inl

/-- A step of the RLC layer. -/
theorem Retains.of_collects (h : Collects env r x s.toRlcState t.toRlcState xs ys told)
    (hc : s.macUeCcchDataInds ⊆ t.macUeCcchDataInds) : Retains env r x s t xs ys told := by
  refine ⟨h.toReceives, fun hf f hs hg => ?_⟩
  have hcarried := h.carried hf f hs hg
  exact ⟨hcarried.ready, hcarried.tally, hcarried.told, hcarried.log, hc,
    fun ht => (hcarried.heard ht).imp id .inl⟩

theorem Retains.quiet (hr : Receives s.toRlcState t.toRlcState xs ys)
    (h : SameRrc s.toRlcState t.toRlcState) (hc : s.macUeCcchDataInds ⊆ t.macUeCcchDataInds) :
    Retains env r x s t xs ys False := .of_collects (.quiet hr h) hc

theorem Retains.refl (env : Platform β) (r : UInt16) (x : Collected) (s : UlState β)
    (xs : Multiset β) : Retains env r x s s xs xs False :=
  .of_collects (.refl env r x s.toRlcState xs) (List.Subset.refl _)

end Rules

/-! ## Demultiplexing -/

section Demux

variable {env : MacPlatform β} {r : UInt16} {x : Collected} {s t : UlState β} {o : Option β}
variable {rnti : UInt16}

theorem ulAlloc_retains {n : Nat} (h : s.alloc env n = (t, o)) :
    Retains env.toPlatform r x s t 0 (blockOf o) False := by
  have hccch : t.macUeCcchDataInds = s.macUeCcchDataInds := by
    obtain rfl : (s.alloc env n).1 = t := congrArg Prod.fst h
    rfl
  exact .quiet (ulAlloc_receives h) (OnlyMem.sameRrc (ulAlloc_onlyMem h))
    (hccch ▸ List.Subset.refl _)

theorem memcpy_retains (env : Platform β) (s : UlState β) (b : β) (src : Nat → UInt8) (n : Nat) :
    Retains env r x s (s.memcpy b src n) {b} {b} False :=
  .quiet (memcpy_receives s b src n) ⟨rfl, rfl, rfl, fun _ h => h⟩ (List.Subset.refl _)

theorem countKpi_retains (env : Platform β) (s : UlState β) (f : LteKpi → LteKpi)
    (xs : Multiset β) : Retains env r x s (s.countKpi f) xs xs False :=
  .quiet (countKpi_receives s f xs) ⟨rfl, rfl, rfl, fun _ h => h⟩ (List.Subset.refl _)

/-- **A message of the common channel** is passed on to RRC. -/
theorem ccchDataInd_retains (env : MacPlatform β) (s : UlState β) (rnti : UInt16) (b : β)
    {size : Nat} (hpos : 0 < size) (hlt : size < 2 ^ 16) :
    Retains env.toPlatform r x s (ccchDataInd env s rnti b size) {b} 0
      (rnti = r ∧ x ∈ ccchTold env.toPlatform s.toRrcState (s.mem.bytes b) size) := by
  have hmod : size % 2 ^ 16 = size := Nat.mod_eq_of_lt hlt
  refine ⟨ccchDataInd_receives env s rnti b (by omega), fun hf f _ hg => ?_⟩
  have hcall : (ccchDataInd env s rnti b size).toRrcState
      = macUeCcchDataInd env.toPlatform s.toRrcState rnti b size := by
    unfold ccchDataInd
    rw [hmod]
    rfl
  have hlog : (ccchDataInd env s rnti b size).macUeCcchDataInds
      = s.macUeCcchDataInds ++ [⟨rnti, (List.range size).map (s.mem.bytes b), size⟩] := by
    unfold ccchDataInd
    rw [hmod]
    rfl
  have hblocks : s.rlcOwned + ({b} + f) = s.rlcOwned + f + {b} := by
    ac_rfl
  rw [hblocks] at hg
  have hgathers : Gathers s.toRrcState (ccchDataInd env s rnti b size).toRrcState
      (s.rlcOwned + f + {b}) (s.rlcOwned + f)
      (forUe rnti (ccchTold env.toPlatform s.toRrcState (s.mem.bytes b) size)) := by
    rw [hcall]
    exact macUeCcchDataInd_gathers s.toRrcState rnti b size
  obtain ⟨hready, htally, htold⟩ := hgathers.after hf hg
  refine ⟨hready.ready, htally r x, fun h => ?_, fun _ h => h, ?_, fun h => ?_⟩
  · exact (htold r x).mpr (Or.inr (List.mem_map.mpr ⟨x, h.2, by rw [h.1]⟩))
  · rw [hlog]
    exact List.subset_append_left _ _
  · refine ((htold r x).mp h).imp id fun hmem => ?_
    obtain ⟨y, hy, hpair⟩ := List.mem_map.mp hmem
    obtain ⟨hr, rfl⟩ := Prod.mk.inj hpair
    right
    rw [hlog]
    refine ⟨_, List.mem_append_right _ (List.mem_singleton_self _), hr, s.toRrcState, b, ?_, ?_⟩
    · intro k hk
      simp
    · rw [List.length_map, List.length_range]
      exact hy

/-- The message is copied to a block of its own first. -/
theorem macDemuxCcch_retains (env : MacPlatform β) (s : UlState β) (rnti : UInt16)
    (src : Nat → UInt8) {length : Nat} (hpos : 0 < length) (hlt : length < 2 ^ 16) :
    Retains env.toPlatform r x s (macDemuxCcch env s rnti src length) 0 0
      (rnti = r ∧ CcchTells env.toPlatform ((List.range length).map src) x) := by
  unfold macDemuxCcch
  cases ha : s.alloc env length with
  | mk t o =>
      have halloc := ulAlloc_retains ha (r := r) (x := x)
      cases o with
      | none =>
          refine ⟨halloc.toReceives, fun hf => ?_⟩
          obtain rfl : (s.alloc env length).1 = t := congrArg Prod.fst ha
          exact absurd hf (BlockStore.alloc_refused (congrArg Prod.snd ha)).ne'
      | some b =>
          have hcopied := halloc.after_quiet (memcpy_retains env.toPlatform t b src length)
          refine (hcopied.after_quiet (ccchDataInd_retains env _ rnti b hpos hlt)).mono ?_
          intro h
          refine ⟨h.1, ?_⟩
          have htells := h.2 (t.memcpy b src length).toRrcState b ?_
          · rwa [List.length_map, List.length_range] at htells
          · intro k hk
            rw [List.length_map, List.length_range] at hk
            have hwritten : (t.memcpy b src length).mem.bytes b k = src k := by
              show Function.update t.mem.bytes b _ b k = _
              rw [Function.update_self, if_pos hk]
            rw [List.getElem_map, List.getElem_range]
            exact hwritten

/-- The entry at `dataPtr` is a message of the common channel of the UE that tells the
identity. -/
def EntryTells (env : Platform β) (m : Nat → UInt8) (rnti : UInt16) (dataPtr : Nat)
    (entry : DemuxDataBase) (r : UInt16) (x : Collected) : Prop :=
  entry.lchId = macUlCcchLch ∧ rnti = r ∧
    CcchTells env ((List.range entry.length).map fun k => m (dataPtr + k)) x

/-- One of the entries does, each at its place. -/
def EntriesTell (env : MacPlatform β) (m : Nat → UInt8) (rnti : UInt16) (r : UInt16)
    (x : Collected) : UlState β × Option (RlcUlData β) × Nat → List DemuxDataBase → Prop
  | _, [] => False
  | st, entry :: l =>
      EntryTells env.toPlatform m rnti st.2.2 entry r x ∨
        EntriesTell env m rnti r x (macDemuxEntry env m rnti st entry) l

/-- **An entry of the table.** -/
theorem macDemuxEntry_retains (env : MacPlatform β) (m : Nat → UInt8) (rnti : UInt16)
    (st : UlState β × Option (RlcUlData β) × Nat) {entry : DemuxDataBase} (hv : entry.Valid) :
    Retains env.toPlatform r x st.1 (macDemuxEntry env m rnti st entry).1 (sduBlocks st.2.1)
      (sduBlocks (macDemuxEntry env m rnti st entry).2.1)
      (EntryTells env.toPlatform m rnti st.2.2 entry r x) := by
  obtain ⟨s, rlcData, dataPtr⟩ := st
  by_cases hch : entry.lchId = macUlCcchLch
  · obtain ⟨hpos, hle⟩ := hv hch
    have hccch := (macDemuxCcch_retains env s rnti (fun k => m (dataPtr + k)) hpos
      (show entry.length < 2 ^ 16 by omega) (r := r) (x := x)).frame (sduBlocks rlcData)
    have hcount := countKpi_retains env.toPlatform (macDemuxCcch env s rnti
      (fun k => m (dataPtr + k)) entry.length)
      (fun kpi => { kpi with lcIdArray := bump kpi.lcIdArray entry.lchId }) (sduBlocks rlcData)
      (r := r) (x := x)
    rw [zero_add] at hccch
    unfold macDemuxEntry
    simp only [if_pos hch]
    exact (hccch.then_quiet hcount).mono And.right
  · -- no message of the common channel, so nothing is passed on yet
    have hquiet : Retains env.toPlatform r x s (macDemuxEntry env m rnti (s, rlcData, dataPtr)
        entry).1 (sduBlocks rlcData) (sduBlocks (macDemuxEntry env m rnti (s, rlcData, dataPtr)
        entry).2.1) False := by
      refine .quiet (macDemuxEntry_receives env m rnti (s, rlcData, dataPtr) hv) ?_ ?_
      all_goals
        unfold macDemuxEntry
        simp only [if_neg hch]
        split
      · have hone := OnlyMem.sameRrc (macDemuxOneToTenLchMsg_onlyMem env s rlcData entry.lchId
          (fun k => m (dataPtr + k)) entry.length)
        exact hone.trans ⟨rfl, rfl, rfl, fun _ h => h⟩
      · repeat' split
        all_goals exact ⟨rfl, rfl, rfl, fun _ h => h⟩
      · exact (macDemuxOneToTenLchMsg_sameCalls env s rlcData entry.lchId
          (fun k => m (dataPtr + k)) entry.length).1 ▸ List.Subset.refl _
      · repeat' split
        all_goals exact List.Subset.refl _
    exact hquiet.mono fun h => hch h.1

/-- **The loop of `MacDeMultiplexAndSend`.** -/
theorem macDemuxLoop_retains (env : MacPlatform β) (m : Nat → UInt8) (rnti : UInt16)
    (l : List DemuxDataBase) (hl : ∀ entry ∈ l, entry.Valid)
    (st : UlState β × Option (RlcUlData β) × Nat) :
    Retains env.toPlatform r x st.1 (l.foldl (macDemuxEntry env m rnti) st).1 (sduBlocks st.2.1)
      (sduBlocks (l.foldl (macDemuxEntry env m rnti) st).2.1)
      (EntriesTell env m rnti r x st l) := by
  -- each entry tells in the state that the entries before it have left
  induction l generalizing st with
  | nil => exact .refl env.toPlatform r x st.1 _
  | cons entry l ih =>
      have hfirst := macDemuxEntry_retains env m rnti st (hl entry List.mem_cons_self)
        (r := r) (x := x)
      exact hfirst.seq (ih (fun y hy => hl y (List.mem_cons_of_mem entry hy)) _)

/-! ## The SDUs for RLC -/

/-- One of the SDUs tells the identity when its turn comes. -/
def SdusTell (env : MacPlatform β) (rnti : UInt16) (r : UInt16) (x : Collected) :
    RlcState β → List (RlcUlDataInfo β) → Prop
  | _, [] => False
  | s, info :: l =>
      (info.lcId ≤ srb2LcId ∧ PacketTells env.toPlatform s info rnti r x) ∨
        SdusTell env rnti r x (macUeDataIndEntry env rnti s info) l

theorem macUeDataIndEntry_collects (env : MacPlatform β) (rnti : UInt16) (s : RlcState β)
    (info : RlcUlDataInfo β) :
    Collects env.toPlatform r x s (macUeDataIndEntry env rnti s info)
      (blockOf info.rlcdataBuffer) 0
      (info.lcId ≤ srb2LcId ∧ PacketTells env.toPlatform s info rnti r x) := by
  unfold macUeDataIndEntry
  split
  · exact (rlcProcessAmRxPacket_collects env.toPlatform r x s info rnti).mono And.right
  · rename_i hlc
    exact (free?_collects s _).mono fun h => hlc h.1

theorem macUeDataIndLoop_collects (env : MacPlatform β) (rnti : UInt16)
    (l : List (RlcUlDataInfo β)) (s : RlcState β) :
    Collects env.toPlatform r x s (l.foldl (macUeDataIndEntry env rnti) s)
      (l.filterMap (·.rlcdataBuffer) : List β) 0 (SdusTell env rnti r x s l) := by
  induction l generalizing s with
  | nil => exact .refl env.toPlatform r x s 0
  | cons info l ih =>
      -- the buffers of the SDUs that follow are a frame
      have hfirst := (macUeDataIndEntry_collects env rnti s info (r := r) (x := x)).frame
        ((l.filterMap (·.rlcdataBuffer) : List β) : Multiset β)
      rw [zero_add] at hfirst
      refine (hfirst.seq (ih _)).congr ?_ rfl
      cases hb : info.rlcdataBuffer with
      | none => rw [List.filterMap_cons_none hb, blockOf_none, zero_add]
      | some b => rw [List.filterMap_cons_some hb, blockOf_some, Multiset.singleton_add,
          Multiset.cons_coe]

theorem free_sameRrc (s : RlcState β) (b : β) : SameRrc s (s.free b) :=
  ⟨rfl, rfl, rfl, fun _ h => h⟩

theorem free_collects (env : Platform β) (s : RlcState β) (b : β) :
    Collects env r x s (s.free b) {b} 0 False :=
  .quiet (free_receives s b) (free_sameRrc s b)

/-- **The SDUs of a PDU are received.** -/
theorem macUeDataInd_collects (env : MacPlatform β) (s : RlcState β) (addr : β) (rnti : UInt16)
    (rlcData : Option (RlcUlData β)) :
    Collects env.toPlatform r x s (macUeDataInd env s addr rnti rlcData)
      (sduBlocks rlcData + {addr}) 0
      (SdusTell env rnti r x s (rlcData.elim [] fun d => d.rlcDataArray)) := by
  unfold macUeDataInd
  cases rlcData with
  | none =>
      refine ((free_collects env.toPlatform s addr).congr ?_ rfl).mono id
      exact (zero_add _).symm
  | some d =>
      have hloop := (macUeDataIndLoop_collects env rnti d.rlcDataArray s (r := r) (x := x)).frame
        ({d.addr} + {addr})
      have hfree := (free_collects env.toPlatform (d.rlcDataArray.foldl
        (macUeDataIndEntry env rnti) s) d.addr (r := r) (x := x)).frame ({addr} : Multiset β)
      rw [zero_add] at hloop hfree
      have hend := free_collects env.toPlatform ((d.rlcDataArray.foldl
        (macUeDataIndEntry env rnti) s).free d.addr) addr (r := r) (x := x)
      refine ((hloop.then_quiet hfree).then_quiet hend).congr ?_ rfl
      unfold sduBlocks
      rw [Option.elim_some]
      ac_rfl

/-! ## PDUs -/

/-- The elements of a PDU that is decoded, from `dataPtr` on, tell the identity: one of the
messages of the common channel, or one of the SDUs for RLC. -/
def ElementsTell (env : MacPlatform β) (s : UlState β) (m : Nat → UInt8) (dataPtr : Nat)
    (rnti : UInt16) (l : List DemuxDataBase) (r : UInt16) (x : Collected) : Prop :=
  ∃ t addr, s.alloc env (env.sizeof .macUeDataInd) = (t, some addr) ∧
    (EntriesTell env m rnti r x (t, none, dataPtr) l ∨
      SdusTell env rnti r x (l.foldl (macDemuxEntry env m rnti) (t, none, dataPtr)).1.toRlcState
        ((l.foldl (macDemuxEntry env m rnti) (t, none, dataPtr)).2.1.elim []
          fun d => d.rlcDataArray))

/-- **A PDU is split.** -/
theorem macDeMultiplexAndSend_retains (env : MacPlatform β) (s : UlState β) (m : Nat → UInt8)
    (dataPtr : Nat) (rnti : UInt16) (l : List DemuxDataBase)
    (hl : ∀ entry ∈ l, entry.Valid) :
    Retains env.toPlatform r x s (macDeMultiplexAndSend env s m dataPtr rnti l) 0 0
      (ElementsTell env s m dataPtr rnti l r x) := by
  unfold macDeMultiplexAndSend
  cases ha : s.alloc env (env.sizeof .macUeDataInd) with
  | mk t o =>
      have halloc := ulAlloc_retains ha (r := r) (x := x)
      cases o with
      | none =>
          refine halloc.mono ?_
          rintro ⟨u, addr, hu, -⟩
          rw [ha] at hu
          cases hu
      | some addr =>
          have hloop := (macDemuxLoop_retains env m rnti l hl (t, none, dataPtr)
            (r := r) (x := x)).frame ({addr} : Multiset β)
          have hloop' := hloop.congr (zero_add _) rfl
          simp only
          generalize hst : l.foldl (macDemuxEntry env m rnti) (t, none, dataPtr) = st at hloop' ⊢
          have hind : Retains env.toPlatform r x st.1 (dataInd env st.1 addr rnti st.2.1)
              (sduBlocks st.2.1 + {addr}) 0
              (SdusTell env rnti r x st.1.toRlcState (st.2.1.elim [] fun d => d.rlcDataArray)) :=
            .of_collects (macUeDataInd_collects env st.1.toRlcState addr rnti st.2.1)
              (List.Subset.refl _)
          refine (halloc.after_quiet (hloop'.seq hind)).mono ?_
          rintro ⟨u, addr', hu, htells⟩
          rw [ha] at hu
          obtain ⟨rfl, -⟩ := Prod.mk.inj hu
          rwa [hst] at htells

/-- The PDU at `m` tells the identity, from the state `s` on. -/
def UlSchPduTells (env : MacPlatform β) (fuel : Nat) (s : UlState β) (m : Nat → UInt8)
    (length : Nat) (rnti : UInt16) (r : UInt16) (x : Collected) : Prop :=
  length ≠ 0 ∧ ∃ st, macLoop m fuel (Decode.start length) = some st ∧
    st.successDecodeFlag = true ∧ ElementsTell env s m st.pData rnti st.demuxData r x

theorem macProcessUlSchPdu_retains {fuel length : Nat} {m : Nat → UInt8}
    (h : macProcessUlSchPdu env fuel s m length rnti = some t) :
    Retains env.toPlatform r x s t 0 0 (UlSchPduTells env fuel s m length rnti r x) := by
  unfold macProcessUlSchPdu at h
  split at h
  · rename_i hzero
    obtain rfl := Option.some.inj h
    exact (Retains.refl _ r x s 0).mono fun htells => htells.1 hzero
  · obtain ⟨st, hst, rfl⟩ := Option.map_eq_some_iff.mp h
    have hvalid := valid_macLoop (by simp [Decode.start]) hst
    split
    · refine (macDeMultiplexAndSend_retains env s m st.pData rnti st.demuxData hvalid).mono ?_
      rintro ⟨-, st', hst', -, htells⟩
      rw [hst] at hst'
      obtain rfl := Option.some.inj hst'
      exact htells
    · rename_i hno
      refine (Retains.refl _ r x s 0).mono ?_
      rintro ⟨-, st', hst', hok, -⟩
      rw [hst] at hst'
      obtain rfl := Option.some.inj hst'
      exact hno hok

/-! ## Indications -/

theorem macFindOrCreate_sameRrc (h : macFindOrCreate env s rnti = (t, o)) :
    SameRrc s.toRlcState t.toRlcState ∧ t.macUeCcchDataInds = s.macUeCcchDataInds := by
  unfold macFindOrCreate at h
  cases hg : macGetUeContext s.toMacState rnti with
  | some a =>
      rw [hg] at h
      obtain ⟨rfl, rfl⟩ := Prod.mk.inj h
      exact ⟨⟨rfl, rfl, rfl, fun _ h => h⟩, rfl⟩
  | none =>
      rw [hg] at h
      obtain ⟨rfl, rfl⟩ := Prod.mk.inj h
      refine ⟨?_, rfl⟩
      unfold macCreateUeContext
      cases ha : s.toMacState.alloc env.toPlatform (env.sizeof .macUeContext) with
      | mk u o' =>
          obtain rfl : (s.toMacState.alloc env.toPlatform (env.sizeof .macUeContext)).1 = u :=
            congrArg Prod.fst ha
          cases o' <;> exact ⟨rfl, rfl, rfl, fun _ h => h⟩

theorem macRecordPdu_retains (env : MacPlatform β) (s : UlState β) (head : RxUlSchIndHeadPdu) :
    Retains env.toPlatform r x s (macRecordPdu env s head) 0 0 False := by
  have hreceives := macRecordPdu_receives env s head
  unfold macRecordPdu at hreceives ⊢
  cases hf : macFindOrCreate env s head.rnti with
  | mk t o =>
      obtain ⟨hsame, hccch⟩ := macFindOrCreate_sameRrc hf
      have hsub : s.macUeCcchDataInds ⊆ t.macUeCcchDataInds := hccch ▸ List.Subset.refl _
      rw [hf] at hreceives
      cases o with
      | none => exact .quiet hreceives hsame hsub
      | some a => exact .quiet hreceives (hsame.trans ⟨rfl, rfl, rfl, fun _ h => h⟩) hsub

/-- A PDU of an indication tells the identity. -/
def PhyPduTells (env : MacPlatform β) (fuel : Nat) (s : UlState β) (data : Nat → UInt8)
    (head : RxUlSchIndHeadPdu) (tempLen : UInt16) (r : UInt16) (x : Collected) : Prop :=
  head.crcFlag = 1 ∧
    UlSchPduTells env fuel
      (macRecordPdu env (s.countKpi fun kpi => { kpi with crcCorrect := kpi.crcCorrect + 1 }) head)
      (fun k => data (tempLen.toNat + k)) ((head.bitLen + 7) >>> 3).toUInt16.toNat head.rnti r x

theorem macProcessPdu_retains {fuel : Nat} {data : Nat → UInt8} {head : RxUlSchIndHeadPdu}
    {tempLen : UInt16} (h : macProcessPdu env fuel s data head tempLen = some t) :
    Retains env.toPlatform r x s t 0 0 (PhyPduTells env fuel s data head tempLen r x) := by
  unfold macProcessPdu at h
  split at h
  · have hcount := countKpi_retains env.toPlatform s
      (fun kpi => { kpi with crcCorrect := kpi.crcCorrect + 1 }) 0 (r := r) (x := x)
    have hrecord := hcount.after_quiet (macRecordPdu_retains env _ head)
    exact (hrecord.after_quiet (macProcessUlSchPdu_retains h)).mono And.right
  · rename_i hcrc
    obtain rfl := Option.some.inj h
    exact (countKpi_retains env.toPlatform s _ 0).mono fun htells => hcrc htells.1

/-- One of the PDUs of an indication tells the identity when its turn comes. -/
def PdusTell (env : MacPlatform β) (fuel : Nat) (data : Nat → UInt8) (length : UInt16)
    (r : UInt16) (x : Collected) : Nat → UInt16 → UlState β → Prop
  | 0, _, _ => False
  | left + 1, tempLen, s =>
      tempLen < length ∧ ¬tempLen + UInt16.ofNat rxUlSchIndHeadPduSize > length ∧
        (PhyPduTells env fuel s data (rxUlSchIndHeadPdu data tempLen.toNat)
            (tempLen + UInt16.ofNat rxUlSchIndHeadPduSize) r x ∨
          ∃ t, macProcessPdu env fuel s data (rxUlSchIndHeadPdu data tempLen.toNat)
              (tempLen + UInt16.ofNat rxUlSchIndHeadPduSize) = some t ∧
            PdusTell env fuel data length r x left
              (tempLen + UInt16.ofNat rxUlSchIndHeadPduSize
                + ((rxUlSchIndHeadPdu data tempLen.toNat).wordLen <<< 2)) t)

theorem macProcessPdus_retains {fuel : Nat} {data : Nat → UInt8} {length : UInt16} {left : Nat}
    {tempLen : UInt16} (h : macProcessPdus env fuel data length left tempLen s = some t) :
    Retains env.toPlatform r x s t 0 0 (PdusTell env fuel data length r x left tempLen s) := by
  -- on the PDUs that are left; the loop stops early where the indication ends
  induction left generalizing s tempLen with
  | zero =>
      obtain rfl := Option.some.inj h
      exact .refl env.toPlatform r x s 0
  | succ left ih =>
      rw [macProcessPdus] at h
      split at h
      · simp only at h
        split at h
        · rename_i hend
          obtain rfl := Option.some.inj h
          exact (Retains.refl env.toPlatform r x s 0).mono fun htells => htells.2.1 hend
        · obtain ⟨u, hu, h⟩ := Option.bind_eq_some_iff.mp h
          refine ((macProcessPdu_retains hu).seq (ih h)).mono ?_
          rintro ⟨-, -, htells | ⟨v, hv, htells⟩⟩
          · exact Or.inl htells
          · rw [hu] at hv
            obtain rfl := Option.some.inj hv
            exact Or.inr htells
      · rename_i hend
        obtain rfl := Option.some.inj h
        exact (Retains.refl env.toPlatform r x s 0).mono fun htells => hend htells.1

/-- The indication tells the identity. -/
def IndicationTells (env : MacPlatform β) (fuel : Nat) (s : UlState β)
    (pBuffer : Option (Nat → UInt8)) (length : UInt16) (r : UInt16) (x : Collected) : Prop :=
  ∃ data, pBuffer = some data ∧ phyField data 14 2 = rxUlSchIndication ∧
    PdusTell env fuel data length r x (data (phyHlMsgHeadSize + 3)).toNat
      (UInt16.ofNat (phyHlMsgHeadSize + ulIndHeadSize)) s

/-- **An indication** of any contents: what it tells is collected. -/
theorem macProcessPhyDataInd_retains {fuel : Nat} {pBuffer : Option (Nat → UInt8)}
    {length : UInt16} (h : macProcessPhyDataInd env fuel s pBuffer length = some t) :
    Retains env.toPlatform r x s t 0 0 (IndicationTells env fuel s pBuffer length r x) := by
  have hno : ∀ {u : UlState β}, (IndicationTells env fuel s pBuffer length r x → False) →
      s = u → Retains env.toPlatform r x s u 0 0
        (IndicationTells env fuel s pBuffer length r x) := by
    rintro u hnot rfl
    exact (Retains.refl env.toPlatform r x s 0).mono hnot
  unfold macProcessPhyDataInd at h
  split at h
  · refine hno ?_ (Option.some.inj h)
    rintro ⟨data, hdata, -⟩
    cases hdata
  · rename_i data
    split at h
    · refine (macProcessPdus_retains h).mono ?_
      rintro ⟨data', hdata, -, htells⟩
      obtain rfl := Option.some.inj hdata
      exact htells
    · rename_i hmsg
      refine hno ?_ (Option.some.inj h)
      rintro ⟨data', hdata, hmsg', -⟩
      obtain rfl := Option.some.inj hdata
      exact hmsg hmsg'

end Demux

/-! ## Events -/

/-- The contexts of all layers are sound, and those of RRC that are ready hold an identity. -/
structure UlGathered (s : RlcState β) : Prop where
  rlc : RlcSound s
  rrc : Gathered s.toRrcState s.rlcOwned

/-- The entries that an event puts into a report. -/
def reportedBy (s : UlState β) : UlEvent → List UeIdentity
  | .report cfg => (reportPass cfg s.toMacState).2
  | _ => []

section Events

variable {env : MacPlatform β} {r : UInt16} {x : Collected} {s t u : UlState β}
variable {event : UlEvent} {events : List UlEvent} {reported : List UeIdentity}

theorem UlGathered.sound {s : RlcState β} (h : UlGathered s) : UlSound s :=
  ⟨h.rlc, h.rrc.toRrcSound⟩

/-- Nothing is in hand between the events. -/
theorem UlGathered.inHand {s : RlcState β} (h : UlGathered s) :
    Gathered s.toRrcState (s.rlcOwned + (0 + 0)) := by
  rw [add_zero, add_zero]
  exact h.rrc

theorem UlGathered.macOk {s : RlcState β} (h : UlGathered s) : MacOk s.toMacState := by
  refine ⟨h.rrc.ok, ?_⟩
  obtain ⟨rest, hrest⟩ := Multiset.le_iff_exists_add.mp h.rrc.owned
  refine ⟨↑s.gRlcUeContextList + (s.entities + s.entities.bind (rawBlock s)) + rest, ?_⟩
  rw [hrest, RlcState.rlcOwned]
  ac_rfl

theorem SameRrc.foldl {α : Type} {f : RlcState β → α → RlcState β}
    (h : ∀ s y, SameRrc s (f s y)) (l : List α) (s : RlcState β) : SameRrc s (l.foldl f s) := by
  induction l generalizing s with
  | nil => exact ⟨rfl, rfl, rfl, fun _ h => h⟩
  | cons y l ih => exact (h s y).trans (ih (f s y))

/-- The cleanup is about RLC contexts. -/
theorem executeCleanup_sameRrc (g : UInt32) (s : RlcState β) : SameRrc s (executeCleanup g s) := by
  have hat : ∀ (a : β) (v : RlcState β) (i : Nat), SameRrc v (rlcDeleteEntityAt a v i) := by
    intro a v i
    have hdel := OnlyMem.sameRrc (rlcDeleteRxAmEntity_onlyMem v
      ((v.rlcUeContext a).rxAmEntityArray i))
    exact hdel.trans ⟨rfl, rfl, rfl, fun _ h => h⟩
  refine SameRrc.foldl (fun v a => ?_) s.gRlcUeContextList s
  unfold cleanupContext
  simp only
  split
  · have hunlink : SameRrc v
        { v.setUeContext a { v.rlcUeContext a with deleteFlag := true } with
          gRlcUeContextList := v.gRlcUeContextList.erase a } := ⟨rfl, rfl, rfl, fun _ h => h⟩
    exact (hunlink.trans (SameRrc.foldl (hat a) (List.range maxLcId) _)).trans (free_sameRrc _ a)
  · exact ⟨rfl, rfl, rfl, fun _ h => h⟩

/-- What happens to an identity until later, with the entries reported in between. -/
structure Balanced (env : Platform β) (r : UInt16) (x : Collected) (s : UlState β)
    (reported : List UeIdentity) (t : UlState β) : Prop where
  tally : tally r x s.toRrcState ≤ reported.countP (reports r x) + tally r x t.toRrcState
  sdus : s.rlcUeDataInds ⊆ t.rlcUeDataInds
  ccch : s.macUeCcchDataInds ⊆ t.macUeCcchDataInds
  heard : 1 ≤ reported.countP (reports r x) + Worker.tally r x t.toRrcState →
    1 ≤ Worker.tally r x s.toRrcState ∨ PassedOn env t r x

/-- A step that reports nothing. -/
theorem Retains.balanced {told : Prop} (h : Retains env.toPlatform r x s t 0 0 told)
    (hf : t.mem.failures = s.mem.failures) (hs : UlGathered s.toRlcState) :
    UlGathered t.toRlcState ∧ Balanced env.toPlatform r x s [] t ∧
      (told → 1 ≤ Worker.tally r x t.toRrcState) := by
  have hkept := h.kept hf 0 hs.rlc hs.inHand
  obtain ⟨hrlc, hrrc⟩ := h.gathered hf hs.rlc hs.inHand
  rw [add_zero, add_zero] at hrrc
  have hzero : ([] : List UeIdentity).countP (reports r x) = 0 := rfl
  refine ⟨⟨hrlc, hrrc⟩, ⟨?_, hkept.sdus, hkept.ccch, ?_⟩, hkept.told⟩
  · rw [hzero, zero_add]
    exact hkept.tally
  · rw [hzero, zero_add]
    exact hkept.heard

/-- **What one event does to an identity.** -/
theorem step_balanced (h : UlStep env s event t) (hf : t.mem.failures = s.mem.failures)
    (hs : UlGathered s.toRlcState) :
    UlGathered t.toRlcState ∧ Balanced env.toPlatform r x s (reportedBy s event) t := by
  cases event with
  | phyDataInd pBuffer length =>
      obtain ⟨fuel, h⟩ := h
      obtain ⟨ht, hb, -⟩ := (macProcessPhyDataInd_retains h).balanced hf hs
      exact ⟨ht, hb⟩
  | cleanup gMaxIdleCount =>
      obtain rfl := h
      have hquiet : Retains env.toPlatform r x s (s.onRlc (executeCleanup gMaxIdleCount)) 0 0
          False := .quiet (executeCleanup_receives gMaxIdleCount s.toRlcState)
        (executeCleanup_sameRrc gMaxIdleCount s.toRlcState) (List.Subset.refl _)
      obtain ⟨ht, hb, -⟩ := hquiet.balanced hf hs
      exact ⟨ht, hb⟩
  | report cfg =>
      have hpassed := reportPass_passed cfg hs.macOk
      have hjoins : t.refusedJoins = s.refusedJoins := by
        rw [h]
        rfl
      obtain ⟨hsound, -⟩ := step_sound h hjoins hs.sound
      have hbalance := hpassed.balance r x
      rw [List.countP_nil, zero_add] at hbalance
      have hready := hpassed.ok.rrc.ready
      obtain rfl := h
      refine ⟨⟨hsound.rlc, hsound.rrc, hready⟩, hbalance.ge, List.Subset.refl _,
        List.Subset.refl _, fun hone => Or.inl ?_⟩
      exact hone.trans_eq hbalance

/-! ## Runs -/

/-- A sequence of events in which no allocation is refused, with the entries that were
reported. -/
inductive ReportRun (env : MacPlatform β) (s : UlState β) :
    List UlEvent → List UeIdentity → UlState β → Prop where
  | start : ReportRun env s [] [] s
  | step {events : List UlEvent} {event : UlEvent} {reported : List UeIdentity} {t u : UlState β} :
      ReportRun env s events reported t → UlStep env t event u →
        u.mem.failures = t.mem.failures →
          ReportRun env s (events ++ [event]) (reported ++ reportedBy t event) u

/-- The state that a sequence of events leads to, and the entries that are reported; `none` too
where an allocation is refused. -/
def ulReports (env : MacPlatform β) (fuel : Nat) :
    UlState β → List UlEvent → Option (UlState β × List UeIdentity)
  | s, [] => some (s, [])
  | s, event :: events =>
      (ulNext env fuel s event).bind fun t =>
        if t.mem.failures = s.mem.failures then
          (ulReports env fuel t events).map fun r => (r.1, reportedBy s event ++ r.2)
        else none

theorem ulReports_run {fuel : Nat} {pre : List UlEvent} {earlier : List UeIdentity}
    (hrun : ReportRun env s pre earlier t)
    (h : ulReports env fuel t events = some (u, reported)) :
    ReportRun env s (pre ++ events) (earlier ++ reported) u := by
  induction events generalizing pre earlier t reported with
  | nil =>
      obtain ⟨rfl, rfl⟩ := Prod.mk.inj (Option.some.inj h)
      rwa [List.append_nil, List.append_nil]
  | cons event events ih =>
      obtain ⟨v, hv, hrest⟩ := Option.bind_eq_some_iff.mp h
      split at hrest
      · rename_i hf
        obtain ⟨r, hr, heq⟩ := Option.map_eq_some_iff.mp hrest
        obtain ⟨rfl, rfl⟩ := Prod.mk.inj heq
        rw [List.append_cons, ← List.append_assoc]
        exact ih (hrun.step (ulNext_step hv) hf) hr
      · cases hrest

theorem Balanced.refl (env : Platform β) (r : UInt16) (x : Collected) (s : UlState β) :
    Balanced env r x s [] s := by
  refine ⟨?_, List.Subset.refl _, List.Subset.refl _, fun h => Or.inl ?_⟩
  · simp
  · simpa using h

theorem Balanced.trans {env : Platform β} {reported' : List UeIdentity}
    (h : Balanced env r x s reported t) (h' : Balanced env r x t reported' u) :
    Balanced env r x s (reported ++ reported') u := by
  have htally := h.tally
  have htally' := h'.tally
  refine ⟨?_, List.Subset.trans h.sdus h'.sdus, List.Subset.trans h.ccch h'.ccch, ?_⟩
  · rw [List.countP_append]
    omega
  · intro hone
    rw [List.countP_append] at hone
    -- reported before, or reported or carried after
    -- it is heard in the second part, or was reported or carried before it
    by_cases hpos : 1 ≤ reported'.countP (reports r x) + Worker.tally r x u.toRrcState
    · rcases h'.heard hpos with ht | ht
      · refine (h.heard ?_).imp id fun hp => hp.mono h'.sdus h'.ccch
        omega
      · exact Or.inr ht
    · refine (h.heard ?_).imp id fun hp => hp.mono h'.sdus h'.ccch
      omega

/-- **What a run does to an identity.** -/
theorem run_balanced (h : ReportRun env s events reported t) (hs : UlGathered s.toRlcState) :
    UlGathered t.toRlcState ∧ Balanced env.toPlatform r x s reported t := by
  -- `UlGathered` is what the next event needs of the state
  induction h with
  | start => exact ⟨hs, .refl env.toPlatform r x s⟩
  | step _ hstep hf ih =>
      obtain ⟨ht, hb⟩ := ih
      obtain ⟨hu, hb'⟩ := step_balanced hstep hf ht
      exact ⟨hu, hb.trans hb'⟩

/-- Before the first event nothing is carried. -/
theorem initial_gathered (h : UlInitial s) : UlGathered s.toRlcState := by
  have hsound := initial_sound h
  refine ⟨hsound.rlc, hsound.rrc, ?_⟩
  rw [h.gReadyRrcUeContextList]
  simp

theorem initial_tally (h : UlInitial s) (r : UInt16) (x : Collected) :
    tally r x s.toRrcState = 0 := by
  unfold tally
  rw [h.gRrcUeContextList, h.gReadyRrcUeContextList]
  rfl

end Events

end LteUlp.Worker
