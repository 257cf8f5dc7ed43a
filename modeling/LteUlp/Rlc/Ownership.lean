import LteUlp.Rlc.Model

set_option autoImplicit false
set_option linter.unusedSectionVars false

/-! # The blocks that the RLC layer works on

`Works s s' e xs ys` says what a part of the reception of a packet for the entity `e` does:
apart from the reports and the incomplete SDU of `e` it changes nothing of the MAC and RLC
layers, and the blocks `xs` turn into `ys`, while the layers above keep theirs. The
incomplete SDU is one of the blocks in `xs` and `ys`. Some blocks may be left behind; if no
allocation is refused, these are the blocks of the SDUs that PDCP and RRC do not release
(`lost`). Nothing is promised about the blocks once a `MemJoin` was refused: it leaves the
entity a pointer to a block that has been released.
-/

namespace LteUlp.Rlc

open BlockStore LteUlp.Rrc LteUlp.Mac LteUlp.Pdcp RlcSduStatus

variable {β : Type} [DecidableEq β] {env : Platform β}

/-! ## What is worked on -/

/-- The blocks of the SDUs that were delivered and never released. -/
def lost (inds : List (SduInd β)) : Multiset β :=
  (inds.map fun ind => lostBlock ind.lcId ind.size ind.pData).sum

@[simp] theorem lost_nil : lost ([] : List (SduInd β)) = 0 := rfl

@[simp] theorem lost_append (l l' : List (SduInd β)) : lost (l ++ l') = lost l + lost l' := by
  simp [lost]

/-- The blocks of the layers above. -/
def RlcState.above (s : RlcState β) : Multiset β := s.toRrcState.owned + lost s.rlcUeDataInds

/-- A pointer, as the blocks that it points to. -/
def blockOf (o : Option β) : Multiset β := o.elim 0 fun b => {b}

@[simp] theorem blockOf_none : blockOf (none : Option β) = 0 := rfl
@[simp] theorem blockOf_some (b : β) : blockOf (some b) = {b} := rfl

/-- The block of the incomplete SDU. -/
def rawBlock (s : RlcState β) (e : β) : Multiset β :=
  blockOf (s.rxAmEntity e).rxRawSdu.rawSdu.pData

/-- The blocks of an element. -/
def AmdDfe.blocks (dfe : AmdDfe β) : Multiset β := {dfe.addr} + blockOf dfe.buffer.pData

/-- The blocks of a queue of elements. -/
def queueBlocks (q : List (AmdDfe β)) : Multiset β := (q.map AmdDfe.blocks).sum

@[simp] theorem queueBlocks_nil : queueBlocks ([] : List (AmdDfe β)) = 0 := rfl

@[simp] theorem queueBlocks_cons (dfe : AmdDfe β) (q : List (AmdDfe β)) :
    queueBlocks (dfe :: q) = dfe.blocks + queueBlocks q := by
  simp [queueBlocks]

@[simp] theorem queueBlocks_append (q q' : List (AmdDfe β)) :
    queueBlocks (q ++ q') = queueBlocks q + queueBlocks q' := by
  simp [queueBlocks]

/-- The blocks of a segment. -/
def AmdPduSegment.blocks (seg : AmdPduSegment β) : Multiset β := {seg.addr} + queueBlocks seg.dfeQ

/-- The blocks of the segments of a PDU. -/
def segBlocks (l : List (AmdPduSegment β)) : Multiset β := (l.map AmdPduSegment.blocks).sum

@[simp] theorem segBlocks_nil : segBlocks ([] : List (AmdPduSegment β)) = 0 := rfl

@[simp] theorem segBlocks_cons (seg : AmdPduSegment β) (l : List (AmdPduSegment β)) :
    segBlocks (seg :: l) = seg.blocks + segBlocks l := by
  simp [segBlocks]

/-- The blocks of a PDU. -/
def AmdPdu.blocks (pdu : AmdPdu β) : Multiset β := {pdu.addr} + segBlocks pdu.segList

/-! ## Works -/

/-- Nothing but the state of the layers above and the reports and the incomplete SDU of `e`
has changed. -/
structure Only (s s' : RlcState β) (e : β) : Prop where
  macUeContext : s'.macUeContext = s.macUeContext
  gMacUeContext : s'.gMacUeContext = s.gMacUeContext
  rlcUeContext : s'.rlcUeContext = s.rlcUeContext
  gRlcUeContextList : s'.gRlcUeContextList = s.gRlcUeContextList
  entity : ∀ b, b ≠ e → s'.rxAmEntity b = s.rxAmEntity b
  rnti : (s'.rxAmEntity e).rnti = (s.rxAmEntity e).rnti
  lcId : (s'.rxAmEntity e).lcId = (s.rxAmEntity e).lcId
  ring : (s'.rxAmEntity e).amdPduRing = (s.rxAmEntity e).amdPduRing

/-- The counters grow, and a refused join is also a refused allocation. -/
structure Grows (s s' : RlcState β) : Prop where
  failures : s.mem.failures ≤ s'.mem.failures
  joins : s.refusedJoins ≤ s'.refusedJoins
  joined : s'.mem.failures = s.mem.failures → s'.refusedJoins = s.refusedJoins

/-- From `s` to `s'` the blocks `xs` turned into `ys`, apart from those of the RRC layer, and
some were left behind; the contexts of the RRC layer stayed sound, so none of them was found
pending deletion. -/
structure Leaves (s s' : RlcState β) (xs ys : Multiset β) : Prop extends Grows s s' where
  transfer : s'.refusedJoins = s.refusedJoins →
    ∃ l, Transfer s.mem s'.mem (s.toRrcState.owned + xs) (s'.toRrcState.owned + (ys + l)) ∧
      (s'.mem.failures = s.mem.failures →
        lost s'.rlcUeDataInds = lost s.rlcUeDataInds + l)
  sound : s'.refusedJoins = s.refusedJoins → RrcSound s.toRrcState xs →
    RrcSound s'.toRrcState ys ∧ s'.pendingDeletions = s.pendingDeletions

/-- Nothing but the memory has changed, and what has been read through no pointer. -/
def OnlyMem (s t : RlcState β) : Prop :=
  t = s.onRrc fun u => { u with mem := t.mem, badDerefs := t.badDerefs }

/-- Nothing but the memory changes, and nothing is left behind: the blocks `xs` turn into
`ys`. -/
structure MemWorks (s t : RlcState β) (xs ys : Multiset β) : Prop where
  only : OnlyMem s t
  transfer : Transfer s.mem t.mem xs ys

/-- What a part of the reception does. -/
structure Works (s s' : RlcState β) (e : β) (xs ys : Multiset β) : Prop where
  only : Only s s' e
  leaves : Leaves s s' xs ys

section Rules

variable {s s' s'' t : RlcState β} {e : β} {xs ys zs : Multiset β} {o : Option β} {a : β}

theorem Only.refl (s : RlcState β) (e : β) : Only s s e :=
  ⟨rfl, rfl, rfl, rfl, fun _ _ => rfl, rfl, rfl, rfl⟩

theorem Only.trans (h : Only s s' e) (h' : Only s' s'' e) : Only s s'' e where
  macUeContext := h'.macUeContext.trans h.macUeContext
  gMacUeContext := h'.gMacUeContext.trans h.gMacUeContext
  rlcUeContext := h'.rlcUeContext.trans h.rlcUeContext
  gRlcUeContextList := h'.gRlcUeContextList.trans h.gRlcUeContextList
  entity b hb := (h'.entity b hb).trans (h.entity b hb)
  rnti := h'.rnti.trans h.rnti
  lcId := h'.lcId.trans h.lcId
  ring := h'.ring.trans h.ring

theorem Grows.refl (s : RlcState β) : Grows s s := ⟨le_rfl, le_rfl, fun _ => rfl⟩

theorem Grows.trans (h : Grows s s') (h' : Grows s' s'') : Grows s s'' := by
  have hf := h.failures
  have hf' := h'.failures
  refine ⟨hf.trans hf', h.joins.trans h'.joins, fun he => ?_⟩
  exact (h'.joined (by omega)).trans (h.joined (by omega))

/-! ### Blocks that are left -/

/-- Only the memory and the lists of the RLC layer and below change: nothing is left behind. -/
theorem Leaves.of_transfer (h : Transfer s.mem s'.mem (s.toRrcState.owned + xs)
    (s'.toRrcState.owned + ys)) (hc : s'.rrcUeContext = s.rrcUeContext)
    (hl : s'.gRrcUeContextList = s.gRrcUeContextList)
    (hi : s'.rlcUeDataInds = s.rlcUeDataInds) (hj : s'.refusedJoins = s.refusedJoins)
    (hp : s'.pendingDeletions = s.pendingDeletions) : Leaves s s' xs ys where
  toGrows := ⟨h.failures, hj.ge, fun _ => hj⟩
  transfer _ := by
    refine ⟨0, ?_, fun _ => ?_⟩
    · rwa [add_zero]
    · rw [hi, add_zero]
  sound _ hs := by
    refine ⟨?_, hp⟩
    have hs0 : RrcSound s.toRrcState (xs + 0) := by rwa [add_zero]
    have hsame : RrcSound s'.toRrcState (ys + 0) := hs0.same h hl fun _ _ => by simp [hc]
    rwa [add_zero] at hsame

theorem Leaves.refl (s : RlcState β) (xs : Multiset β) : Leaves s s xs xs :=
  .of_transfer (.refl _ _) rfl rfl rfl rfl rfl

theorem Leaves.seq (h : Leaves s s' xs ys) (h' : Leaves s' s'' ys zs) : Leaves s s'' xs zs := by
  have hf := h.failures
  have hf' := h'.failures
  have hj := h.joins
  have hj' := h'.joins
  constructor
  · exact h.toGrows.trans h'.toGrows
  · intro he
    obtain ⟨l, ht, hl⟩ := h.transfer (by omega)
    obtain ⟨l', ht', hl'⟩ := h'.transfer (by omega)
    refine ⟨l' + l, ?_, fun hfail => ?_⟩
    · have hframe := (ht'.frame l).congr (add_assoc _ _ _) rfl
      refine (ht.seq hframe).congr rfl ?_
      ac_rfl
    · rw [hl' (by omega), hl (by omega)]
      ac_rfl
  · intro he hs
    obtain ⟨h1, hp1⟩ := h.sound (by omega) hs
    obtain ⟨h2, hp2⟩ := h'.sound (by omega) h1
    exact ⟨h2, hp2.trans hp1⟩

theorem Leaves.frame (h : Leaves s s' xs ys) (f : Multiset β) :
    Leaves s s' (xs + f) (ys + f) where
  toGrows := h.toGrows
  transfer hj := by
    obtain ⟨l, ht, hl⟩ := h.transfer hj
    refine ⟨l, (ht.frame f).congr (add_assoc _ _ _) ?_, hl⟩
    ac_rfl
  sound hj hs := by
    obtain ⟨l, ht, -⟩ := h.transfer hj
    obtain ⟨h1, hp⟩ := h.sound hj hs.drop
    have h2 := hs.transfer ht h1.live h1.unique
    rw [add_assoc, add_comm l, ← add_assoc] at h2
    exact ⟨h2.drop, hp⟩

theorem Leaves.congr {xs' ys' : Multiset β} (h : Leaves s s' xs ys) (hx : xs = xs')
    (hy : ys = ys') : Leaves s s' xs' ys' := hx ▸ hy ▸ h

/-- When no allocation is refused, only the blocks of lost SDUs are left behind. -/
theorem Leaves.moves (h : Leaves s s' xs ys) :
    Moves s.mem s'.mem (s.above + xs) (s'.above + ys) := by
  refine ⟨h.failures, fun hf => ?_⟩
  obtain ⟨l, ht, hl⟩ := h.transfer (h.joined hf)
  refine (ht.frame (lost s.rlcUeDataInds)).congr ?_ ?_
  · unfold RlcState.above
    ac_rfl
  · unfold RlcState.above
    rw [hl hf]
    ac_rfl

/-- A change of the memory only. -/
theorem Leaves.onMem {f : Store β → Store β} (h : Transfer s.mem (f s.mem) xs ys) :
    Leaves s (s.onMem f) xs ys :=
  .of_transfer ((h.frame s.toRrcState.owned).congr (add_comm _ _) (add_comm _ _)) rfl rfl rfl
    rfl rfl

/-- Nothing but the RLC layer and below changes. -/
theorem Leaves.of_rrc (hr : s'.toRrcState = s.toRrcState)
    (hi : s'.rlcUeDataInds = s.rlcUeDataInds) (hj : s'.refusedJoins = s.refusedJoins)
    (hp : s'.pendingDeletions = s.pendingDeletions) (xs : Multiset β) : Leaves s s' xs xs := by
  refine .of_transfer ?_ ?_ ?_ hi hj hp
  · rw [hr]
    exact .refl _ _
  · rw [hr]
  · rw [hr]

theorem alloc_leaves {n : Nat} (h : s.alloc env n = (t, o)) : Leaves s t 0 (blockOf o) := by
  obtain rfl : (s.alloc env n).1 = t := congrArg Prod.fst h
  obtain rfl : (s.mem.alloc env.toPolicy n).2 = o := congrArg Prod.snd h
  exact .onMem (f := fun m => (m.alloc env.toPolicy n).1) (alloc_transfer env.toPolicy s.mem n)

/-! ### Parts of the reception -/

theorem Works.failures (h : Works s s' e xs ys) : s.mem.failures ≤ s'.mem.failures :=
  h.leaves.failures

theorem Works.refl (s : RlcState β) (e : β) (xs : Multiset β) : Works s s e xs xs :=
  ⟨.refl s e, .refl s xs⟩

theorem Works.seq (h : Works s s' e xs ys) (h' : Works s' s'' e ys zs) : Works s s'' e xs zs :=
  ⟨h.only.trans h'.only, h.leaves.seq h'.leaves⟩

theorem Works.congr {xs' ys' : Multiset β} (h : Works s s' e xs ys) (hx : xs = xs')
    (hy : ys = ys') : Works s s' e xs' ys' := hx ▸ hy ▸ h

theorem Works.frame (h : Works s s' e xs ys) (f : Multiset β) :
    Works s s' e (xs + f) (ys + f) := ⟨h.only, h.leaves.frame f⟩

theorem Works.trans {ys' f : Multiset β} (h : Works s s' e xs ys) (h' : Works s' s'' e ys' zs)
    (hy : ys = ys' + f) : Works s s'' e xs (zs + f) := (hy ▸ h).seq (h'.frame f)

/-- After a refused join nothing is promised about the blocks. -/
theorem Works.refused (ho : Only s s' e) (hf : s.mem.failures < s'.mem.failures)
    (hj : s.refusedJoins < s'.refusedJoins) : Works s s' e xs ys where
  only := ho
  leaves := ⟨⟨hf.le, hj.le, fun he => absurd he hf.ne'⟩, fun he => absurd he hj.ne',
    fun he => absurd he hj.ne'⟩

/-- A change of the memory only. -/
theorem Works.onMem {f : Store β → Store β} (h : Transfer s.mem (f s.mem) xs ys) (e : β) :
    Works s (s.onMem f) e xs ys :=
  ⟨⟨rfl, rfl, rfl, rfl, fun _ _ => rfl, rfl, rfl, rfl⟩, .onMem h⟩

theorem free_works (s : RlcState β) (e a : β) : Works s (s.free a) e {a} 0 :=
  .onMem (release_transfer s.mem a) e

theorem free?_works (s : RlcState β) (e : β) (o : Option β) :
    Works s (s.free? o) e (blockOf o) 0 := .onMem (release?_transfer s.mem o) e

theorem alloc_works {n : Nat} (h : s.alloc env n = (t, o)) (e : β) :
    Works s t e 0 (blockOf o) := by
  refine ⟨?_, alloc_leaves h⟩
  obtain rfl : (s.alloc env n).1 = t := congrArg Prod.fst h
  exact ⟨rfl, rfl, rfl, rfl, fun _ _ => rfl, rfl, rfl, rfl⟩

/-- What follows a refused allocation. -/
theorem Works.after_none {n : Nat} (h : s.alloc env n = (t, none))
    (hw : Works t s' e xs ys) : Works s s' e xs ys := by
  have ha := (alloc_works h e).frame xs
  rw [blockOf_none, zero_add] at ha
  exact ha.seq hw

theorem alloc_refused {n : Nat} (h : s.alloc env n = (t, none)) (e : β) :
    Only s t e ∧ s.mem.failures < t.mem.failures := by
  have h1 : (s.mem.alloc env.toPolicy n).2 = none := congrArg Prod.snd h
  obtain rfl : (s.alloc env n).1 = t := congrArg Prod.fst h
  exact ⟨⟨rfl, rfl, rfl, rfl, fun _ _ => rfl, rfl, rfl, rfl⟩, BlockStore.alloc_refused h1⟩

/-- **What is left alone**: all blocks that are neither handed over nor of the layers
above. -/
theorem Works.keeps (h : Works s s' e xs ys) (hf : s'.mem.failures = s.mem.failures)
    (hn : s.mem.inUse.Nodup) {r : Multiset β} (hu : s.mem.inUse = s.above + xs + r) :
    Keeps s.mem s'.mem (s'.above + ys) r := (h.leaves.moves.transfer hf).keeps r hn hu

theorem alloc_failures_le {n : Nat} (h : s.alloc env n = (t, o)) :
    s.mem.failures ≤ t.mem.failures := by
  obtain rfl : (s.alloc env n).1 = t := congrArg Prod.fst h
  exact (alloc_transfer env.toPolicy s.mem n).failures

/-- The block that was allocated. -/
theorem alloc_fresh {n : Nat} (h : s.alloc env n = (t, some a)) :
    a ∉ s.mem.inUse ∧ t.mem.length a = n % 2 ^ 16 ∧ t.mem.bytes = s.mem.bytes ∧
      t = s.onMem fun _ => t.mem := by
  have h1 : (s.mem.alloc env.toPolicy n).2 = some a := congrArg Prod.snd h
  obtain rfl : (s.alloc env n).1 = t := congrArg Prod.fst h
  obtain ⟨hl, hb, hfresh⟩ := alloc_some h1
  exact ⟨hfresh, hl, hb, rfl⟩

/-- Writing to the reports. -/
theorem setRpt_works (s : RlcState β) (e : β) (rpt : UlReportInfoList) (xs : Multiset β) :
    Works s (s.setRpt e rpt) e xs xs := by
  constructor
  · constructor
    all_goals try rfl
    · intro b hb
      exact Function.update_of_ne hb _ _
    all_goals simp [RlcState.setRpt, RlcState.setEntity]
  · exact .of_transfer (.refl s.mem _) rfl rfl rfl rfl rfl

/-- Writing to the incomplete SDU. -/
theorem setRaw_works (s : RlcState β) (e : β) (raw : RlcAmRawSdu β) (xs : Multiset β) :
    Works s (s.setRaw e raw) e xs xs := by
  constructor
  · constructor
    all_goals try rfl
    · intro b hb
      exact Function.update_of_ne hb _ _
    all_goals simp [RlcState.setRaw, RlcState.setEntity]
  · exact .of_transfer (.refl s.mem _) rfl rfl rfl rfl rfl

@[simp] theorem rxRawSdu_setRaw (s : RlcState β) (e : β) (raw : RlcAmRawSdu β) :
    ((s.setRaw e raw).rxAmEntity e).rxRawSdu = raw := by
  simp [RlcState.setRaw, RlcState.setEntity]

@[simp] theorem rxRawSdu_setRpt (s : RlcState β) (e : β) (rpt : UlReportInfoList) :
    ((s.setRpt e rpt).rxAmEntity e).rxRawSdu = (s.rxAmEntity e).rxRawSdu := by
  simp [RlcState.setRpt, RlcState.setEntity]

/-! ### Reports -/

theorem setRpt_self (s : RlcState β) (e : β) :
    s.setRpt e (s.rxAmEntity e).ulRptInfoList = s := by
  unfold RlcState.setRpt RlcState.setEntity
  rw [show { s.rxAmEntity e with ulRptInfoList := (s.rxAmEntity e).ulRptInfoList }
    = s.rxAmEntity e from rfl, Function.update_eq_self]

theorem reportFirst_eq (s : RlcState β) (e : β) : ∃ rpt, reportFirst s e = s.setRpt e rpt := by
  unfold reportFirst
  split
  · exact ⟨_, (setRpt_self s e).symm⟩
  · exact ⟨_, rfl⟩

theorem reportNext_eq (s : RlcState β) (e : β) : ∃ rpt, reportNext s e = s.setRpt e rpt := by
  unfold reportNext
  split
  · exact ⟨_, (setRpt_self s e).symm⟩
  · simp only
    split
    · exact ⟨_, rfl⟩
    · exact ⟨_, (setRpt_self s e).symm⟩

theorem clearReports_works (s : RlcState β) (e : β) (xs : Multiset β) :
    Works s (clearReports s e) e xs xs := setRpt_works s e _ xs

@[simp] theorem rxRawSdu_clearReports (s : RlcState β) (e : β) :
    ((clearReports s e).rxAmEntity e).rxRawSdu = (s.rxAmEntity e).rxRawSdu :=
  rxRawSdu_setRpt s e _

/-! ### Delivery -/

/-- The block of a delivered SDU is released, or left behind. -/
theorem rlcDeliverAmSduToPdcp_works (env : Platform β) (s : RlcState β) (e : β)
    (buffer : RlcAmBuffer β) :
    Works s (rlcDeliverAmSduToPdcp env s e buffer) e (blockOf buffer.pData) 0 := by
  unfold rlcDeliverAmSduToPdcp
  refine ⟨⟨rfl, rfl, rfl, rfl, fun _ _ => rfl, rfl, rfl, rfl⟩, ?_⟩
  obtain ⟨l, ht, hl⟩ := (rlcUeDataInd_delivers env s.toRrcState (s.rxAmEntity e).rnti
    (s.rxAmEntity e).lcId buffer.pData buffer.size.toUInt16
    (s.rxAmEntity e).ulRptInfoList).leaves
  refine ⟨⟨ht.failures, le_rfl, fun _ => rfl⟩, fun _ => ⟨l, ?_, fun hf => ?_⟩,
    fun _ hs => ?_⟩
  · rw [zero_add]
    exact ht
  · rw [hl hf]
    show lost (s.rlcUeDataInds ++ [_]) = _
    rw [lost_append]
    simp [lost]
  · constructor
    · apply rlcUeDataInd_sound
      rw [zero_add]
      exact hs
    · show s.pendingDeletions + _ = _
      rw [RrcSound.pendingDeletion (s := s.toRrcState) hs]
      rfl

/-! ### Reassembly -/

theorem rawBlock_setRpt (s : RlcState β) (e : β) (rpt : UlReportInfoList) :
    rawBlock (s.setRpt e rpt) e = rawBlock s e := by
  unfold rawBlock
  rw [rxRawSdu_setRpt]

/-- A whole SDU is delivered, with the reports set before and cleared after. -/
theorem deliver_works (env : Platform β) (s : RlcState β) (e : β) (buffer : RlcAmBuffer β) :
    Works s (clearReports (rlcDeliverAmSduToPdcp env (reportFirst s e) e buffer) e) e
        (blockOf buffer.pData) 0 ∧
      ((clearReports (rlcDeliverAmSduToPdcp env (reportFirst s e) e buffer) e).rxAmEntity
        e).rxRawSdu = (s.rxAmEntity e).rxRawSdu := by
  obtain ⟨rpt, hrpt⟩ := reportFirst_eq s e
  rw [hrpt]
  constructor
  · apply (setRpt_works s e rpt _).seq
    apply (rlcDeliverAmSduToPdcp_works env _ e buffer).seq
    exact clearReports_works _ e 0
  · rw [rxRawSdu_clearReports]
    exact rxRawSdu_setRpt s e rpt

theorem rlcReassembleFirstSduSegment_works (env : Platform β) (s : RlcState β) (sn : Nat)
    (dfe : AmdDfe β) (hraw : (s.rxAmEntity e).rxRawSdu.rawSdu.pData = none) :
    Works s (rlcReassembleFirstSduSegment env s sn e dfe) e (blockOf dfe.buffer.pData)
      (rawBlock (rlcReassembleFirstSduSegment env s sn e dfe) e) := by
  have hdrop : Works s (s.free? dfe.buffer.pData) e (blockOf dfe.buffer.pData)
      (rawBlock (s.free? dfe.buffer.pData) e) := by
    apply (free?_works s e dfe.buffer.pData).congr rfl
    unfold rawBlock
    show 0 = blockOf (s.rxAmEntity e).rxRawSdu.rawSdu.pData
    rw [hraw, blockOf_none]
  unfold rlcReassembleFirstSduSegment
  cases dfe.status with
  | amPduMapSduFull =>
      obtain ⟨hw, hr⟩ := deliver_works env s e dfe.buffer
      apply hw.congr rfl
      unfold rawBlock
      rw [hr, hraw, blockOf_none]
  | amPduMapSduStart =>
      simp only
      obtain ⟨rpt, hrpt⟩ := reportFirst_eq (s.setRaw e ⟨sn, dfe.buffer⟩) e
      rw [hrpt, rawBlock_setRpt]
      apply ((setRaw_works s e ⟨sn, dfe.buffer⟩ _).seq (setRpt_works _ e rpt _)).congr rfl
      unfold rawBlock
      rw [rxRawSdu_setRaw]
  | amPduMapSduEnd => exact hdrop
  | amPduMapSduMid => exact hdrop

theorem joinRaw_some {raw : RlcAmRawSdu β} {dfe : AmdDfe β} {buffer : RlcAmBuffer β}
    (h : joinRaw env s raw dfe = (t, some buffer)) (e : β) :
    ∃ a b c, raw.rawSdu.pData = some a ∧ dfe.buffer.pData = some b ∧
      s.mem.join env.toPolicy a b = (t.mem, some c) ∧ t = s.onMem (fun _ => t.mem) ∧
      buffer = ⟨raw.rawSdu.size + dfe.buffer.size, some c⟩ ∧
      Works s t e ({a} + {b}) (blockOf buffer.pData) := by
  unfold joinRaw at h
  split at h
  · rename_i a b ha hb
    have hj := join_transfer env.toPolicy s.mem a b
    split at h
    · rename_i m c hm
      obtain ⟨rfl, hbuf⟩ := Prod.mk.inj h
      obtain rfl := Option.some.inj hbuf
      rw [hm] at hj
      exact ⟨a, b, c, ha, hb, hm, rfl, rfl, .onMem (f := fun _ => m) hj e⟩
    · simp at h
  · simp at h

theorem joinRaw_none {raw : RlcAmRawSdu β} {dfe : AmdDfe β} {b : β}
    (ha : raw.rawSdu.pData = some a) (hb : dfe.buffer.pData = some b)
    (h : joinRaw env s raw dfe = (t, none)) (e : β) :
    Only s t e ∧ s.mem.failures < t.mem.failures ∧ s.refusedJoins < t.refusedJoins := by
  unfold joinRaw at h
  simp only [ha, hb] at h
  split at h
  · simp at h
  · rename_i m hm
    obtain rfl := (Prod.mk.inj h).1
    have hlt := join_refused (congrArg Prod.snd hm)
    rw [hm] at hlt
    exact ⟨⟨rfl, rfl, rfl, rfl, fun _ _ => rfl, rfl, rfl, rfl⟩, hlt, Nat.lt_succ_self _⟩

/-- The incomplete SDU is dropped. -/
theorem dropRaw_works (s : RlcState β) (e : β) (sn : Nat) :
    Works s ((s.free? (s.rxAmEntity e).rxRawSdu.rawSdu.pData).setRaw e ⟨sn, ⟨0, none⟩⟩) e
      (rawBlock s e) 0 :=
  (free?_works s e _).seq (setRaw_works _ e _ 0)

theorem rlcReassembleInCmpAmSdu_works (s : RlcState β) (sn : Nat) {dfe : AmdDfe β} {a b : β}
    (hraw : (s.rxAmEntity e).rxRawSdu.rawSdu.pData = some a)
    (hb : dfe.buffer.pData = some b) :
    Works s (rlcReassembleInCmpAmSdu env s sn e dfe) e (rawBlock s e + {b})
      (rawBlock (rlcReassembleInCmpAmSdu env s sn e dfe) e) := by
  have hblock : rawBlock s e = {a} := by
    unfold rawBlock
    rw [hraw, blockOf_some]
  -- the element is dropped
  have hdrop : Works s (s.free? dfe.buffer.pData) e (rawBlock s e + {b})
      (rawBlock (s.free? dfe.buffer.pData) e) := by
    have h := (free?_works s e dfe.buffer.pData).frame (rawBlock s e)
    rw [hb, blockOf_some] at h
    rw [hb]
    apply h.congr (add_comm _ _)
    rw [zero_add]
    rfl
  -- the incomplete SDU is dropped and the element delivered
  have hfull : ∀ (sn' : Nat) (u : RlcState β),
      u = (s.free? (s.rxAmEntity e).rxRawSdu.rawSdu.pData).setRaw e ⟨sn', ⟨0, none⟩⟩ →
      Works s (clearReports (rlcDeliverAmSduToPdcp env (reportFirst u e) e dfe.buffer) e) e
        (rawBlock s e + {b})
        (rawBlock (clearReports (rlcDeliverAmSduToPdcp env (reportFirst u e) e dfe.buffer) e)
          e) := by
    intro sn' u hu
    obtain ⟨hw, hr⟩ := deliver_works env u e dfe.buffer
    rw [hb, blockOf_some] at hw
    have hd := ((dropRaw_works s e sn').frame {b})
    rw [zero_add, ← hu] at hd
    apply (hd.seq hw).congr rfl
    unfold rawBlock
    rw [hr, hu, rxRawSdu_setRaw, blockOf_none]
  -- two fragments are joined
  have hjoin : ∀ {t : RlcState β} {buffer : RlcAmBuffer β},
      joinRaw env s (s.rxAmEntity e).rxRawSdu dfe = (t, some buffer) →
      Works s t e (rawBlock s e + {b}) (blockOf buffer.pData) := by
    intro t buffer hj
    obtain ⟨a', b', c, ha', hb', -, -, -, hw⟩ := joinRaw_some hj e
    rw [hraw, Option.some.injEq] at ha'
    rw [hb, Option.some.injEq] at hb'
    rw [hblock, ha', hb']
    exact hw
  unfold rlcReassembleInCmpAmSdu
  simp only
  split
  · cases dfe.status with
    | amPduMapSduFull => exact hfull _ _ rfl
    | amPduMapSduStart =>
        simp only
        have h := ((free?_works s e (s.rxAmEntity e).rxRawSdu.rawSdu.pData).frame {b}).seq
          (setRaw_works _ e ⟨sn, dfe.buffer⟩ _)
        apply h.congr rfl
        unfold rawBlock
        rw [rxRawSdu_setRaw, hb, zero_add, blockOf_some]
    | amPduMapSduEnd =>
        simp only
        cases hj : joinRaw env s (s.rxAmEntity e).rxRawSdu dfe with
        | mk t o =>
            cases o with
            | none =>
                obtain ⟨ho, hlt, hjoins⟩ := joinRaw_none hraw hb hj e
                exact .refused ho hlt hjoins
            | some buffer =>
                simp only
                obtain ⟨rpt, hrpt⟩ :=
                  reportNext_eq (t.setRaw e ⟨(s.rxAmEntity e).rxRawSdu.sn, buffer⟩) e
                rw [hrpt]
                have h1 := ((hjoin hj).seq (setRaw_works t e
                  ⟨(s.rxAmEntity e).rxRawSdu.sn, buffer⟩ _)).seq (setRpt_works _ e rpt _)
                have h2 := h1.seq (rlcDeliverAmSduToPdcp_works env _ e buffer)
                have h3 := (h2.seq (clearReports_works _ e 0)).seq
                  (setRaw_works _ e ⟨(s.rxAmEntity e).rxRawSdu.sn, ⟨0, none⟩⟩ 0)
                apply h3.congr rfl
                unfold rawBlock
                rw [rxRawSdu_setRaw, blockOf_none]
    | amPduMapSduMid =>
        simp only
        split
        · cases hj : joinRaw env s (s.rxAmEntity e).rxRawSdu dfe with
          | mk t o =>
              cases o with
              | none =>
                  obtain ⟨ho, hlt, hjoins⟩ := joinRaw_none hraw hb hj e
                  exact .refused ho hlt hjoins
              | some buffer =>
                  simp only
                  obtain ⟨rpt, hrpt⟩ := reportNext_eq (t.setRaw e ⟨sn, buffer⟩) e
                  rw [hrpt, rawBlock_setRpt]
                  have h1 := ((hjoin hj).seq (setRaw_works t e ⟨sn, buffer⟩ _)).seq
                    (setRpt_works _ e rpt _)
                  apply h1.congr rfl
                  unfold rawBlock
                  rw [rxRawSdu_setRaw]
        · exact hdrop
  · split
    · rename_i hst
      have hraw' : (((s.free? (s.rxAmEntity e).rxRawSdu.rawSdu.pData).setRaw e
          ⟨(s.rxAmEntity e).rxRawSdu.sn, ⟨0, none⟩⟩).rxAmEntity e).rxRawSdu.rawSdu.pData
          = none := by
        rw [rxRawSdu_setRaw]
      have hd := (dropRaw_works s e (s.rxAmEntity e).rxRawSdu.sn).frame {b}
      rw [zero_add] at hd
      have hf := rlcReassembleFirstSduSegment_works env _ sn dfe hraw'
      rw [hb, blockOf_some] at hf
      exact hd.seq hf
    · exact hdrop

theorem rlcReassembleAmdDfe_works (env : Platform β) (sn : Nat) (e : β) (s : RlcState β)
    (dfe : AmdDfe β) :
    Works s (rlcReassembleAmdDfe env sn e s dfe) e (rawBlock s e + dfe.blocks)
      (rawBlock (rlcReassembleAmdDfe env sn e s dfe) e) := by
  have hfree : ∀ {t : RlcState β},
      Works s t e (rawBlock s e + blockOf dfe.buffer.pData) (rawBlock t e) →
      Works s (t.free dfe.addr) e (rawBlock s e + dfe.blocks)
        (rawBlock (t.free dfe.addr) e) := by
    intro t h
    have h1 := (h.frame {dfe.addr}).trans (free_works t e dfe.addr) (add_comm _ _)
    unfold AmdDfe.blocks
    apply h1.congr
    · ac_rfl
    · rw [zero_add]
      rfl
  unfold rlcReassembleAmdDfe
  apply hfree
  cases hb : dfe.buffer.pData with
  | none =>
      rw [if_neg (by simp), blockOf_none, add_zero]
      exact .refl s e _
  | some b =>
      rw [if_pos (by simp), blockOf_some]
      cases hr : (s.rxAmEntity e).rxRawSdu.rawSdu.pData with
      | none =>
          rw [if_neg (by simp)]
          apply (rlcReassembleFirstSduSegment_works env s sn dfe hr).congr
          · unfold rawBlock
            rw [hb, hr, blockOf_none, zero_add, blockOf_some]
          · rfl
      | some a =>
          rw [if_pos (by simp)]
          exact rlcReassembleInCmpAmSdu_works s sn hr hb

/-- **Reassembly of a queue**: its blocks are used up, except that of the incomplete SDU. -/
theorem rlcReassembleAmdDfeQ_works (env : Platform β) (sn : Nat) (e : β)
    (q : List (AmdDfe β)) (s : RlcState β) :
    Works s (q.foldl (rlcReassembleAmdDfe env sn e) s) e (rawBlock s e + queueBlocks q)
      (rawBlock (q.foldl (rlcReassembleAmdDfe env sn e) s) e) := by
  induction q generalizing s with
  | nil => simpa using Works.refl s e (rawBlock s e)
  | cons dfe q ih =>
      have h1 := (rlcReassembleAmdDfe_works env sn e s dfe).frame (queueBlocks q)
      have h2 := ih (rlcReassembleAmdDfe env sn e s dfe)
      rw [queueBlocks_cons, ← add_assoc, List.foldl_cons]
      exact h1.seq h2

/-! ### Changes of the memory only -/

theorem OnlyMem.refl (s : RlcState β) : OnlyMem s s := rfl

theorem OnlyMem.of_eq (h : t = s.onMem fun _ => t.mem) : OnlyMem s t := by
  rw [h]
  rfl

theorem OnlyMem.trans (h : OnlyMem s s') (h' : OnlyMem s' s'') : OnlyMem s s'' := by
  unfold OnlyMem at h h' ⊢
  rw [h', h]
  rfl

/-- What an allocation leaves of the RLC layer. -/
theorem alloc_onMem {n : Nat} (h : s.alloc env n = (t, o)) : t = s.onMem fun _ => t.mem := by
  obtain rfl : (s.alloc env n).1 = t := congrArg Prod.fst h
  rfl

theorem alloc_onlyMem {n : Nat} (h : s.alloc env n = (t, o)) : OnlyMem s t :=
  .of_eq (alloc_onMem h)

theorem OnlyMem.rawBlock (h : OnlyMem s t) (e : β) : Rlc.rawBlock t e = Rlc.rawBlock s e := by
  rw [h]
  rfl

theorem MemWorks.leaves (h : MemWorks s t xs ys) : Leaves s t xs ys := by
  have hl : Leaves s (s.onRrc fun u => { u with mem := t.mem, badDerefs := t.badDerefs }) xs ys :=
    .of_transfer ((h.transfer.frame s.toRrcState.owned).congr (add_comm _ _) (add_comm _ _))
      rfl rfl rfl rfl rfl
  rwa [← h.only] at hl

theorem OnlyMem.only (h : OnlyMem s t) (e : β) : Only s t e := by
  rw [h]
  exact ⟨rfl, rfl, rfl, rfl, fun _ _ => rfl, rfl, rfl, rfl⟩

theorem MemWorks.works (h : MemWorks s t xs ys) (e : β) : Works s t e xs ys :=
  ⟨h.only.only e, h.leaves⟩

theorem MemWorks.refl (s : RlcState β) (xs : Multiset β) : MemWorks s s xs xs :=
  ⟨.refl s, .refl s.mem xs⟩

theorem MemWorks.seq (h : MemWorks s s' xs ys) (h' : MemWorks s' s'' ys zs) :
    MemWorks s s'' xs zs := ⟨h.only.trans h'.only, h.transfer.seq h'.transfer⟩

theorem MemWorks.frame (h : MemWorks s s' xs ys) (f : Multiset β) :
    MemWorks s s' (xs + f) (ys + f) := ⟨h.only, h.transfer.frame f⟩

theorem MemWorks.congr {xs' ys' : Multiset β} (h : MemWorks s s' xs ys) (hx : xs = xs')
    (hy : ys = ys') : MemWorks s s' xs' ys' := hx ▸ hy ▸ h

theorem MemWorks.trans {ys' f : Multiset β} (h : MemWorks s s' xs ys)
    (h' : MemWorks s' s'' ys' zs) (hy : ys = ys' + f) : MemWorks s s'' xs (zs + f) :=
  (hy ▸ h).seq (h'.frame f)

theorem MemWorks.onMem {f : Store β → Store β} (h : Transfer s.mem (f s.mem) xs ys) :
    MemWorks s (s.onMem f) xs ys := ⟨rfl, h⟩

theorem log_memWorks (s : RlcState β) (misread : Bool) (xs : Multiset β) :
    MemWorks s (s.log misread) xs xs := ⟨rfl, .refl s.mem xs⟩

theorem free_memWorks (s : RlcState β) (a : β) : MemWorks s (s.free a) {a} 0 :=
  .onMem (release_transfer s.mem a)

theorem free?_memWorks (s : RlcState β) (o : Option β) : MemWorks s (s.free? o) (blockOf o) 0 :=
  .onMem (release?_transfer s.mem o)

theorem alloc_memWorks {n : Nat} (h : s.alloc env n = (t, o)) : MemWorks s t 0 (blockOf o) := by
  refine ⟨alloc_onlyMem h, ?_⟩
  obtain rfl : (s.alloc env n).1 = t := congrArg Prod.fst h
  obtain rfl : (s.mem.alloc env.toPolicy n).2 = o := congrArg Prod.snd h
  exact alloc_transfer env.toPolicy s.mem n

/-- What follows a refused allocation. -/
theorem MemWorks.after_none {n : Nat} (h : s.alloc env n = (t, none))
    (hw : MemWorks t s' xs ys) : MemWorks s s' xs ys := by
  have ha := (alloc_memWorks h).frame xs
  rw [blockOf_none, zero_add] at ha
  exact ha.seq hw

/-! ### Decoding -/

theorem rlcDeleteAmdDfe_memWorks (s : RlcState β) (dfe : AmdDfe β) :
    MemWorks s (rlcDeleteAmdDfe s dfe) dfe.blocks 0 := by
  have h := ((free?_memWorks s dfe.buffer.pData).frame {dfe.addr}).trans
    (free_memWorks _ dfe.addr) (add_comm _ _)
  exact h.congr (add_comm _ _) (add_zero 0)

theorem rlcDeleteAmdPduSegment_memWorks (s : RlcState β) (seg : AmdPduSegment β) :
    MemWorks s (rlcDeleteAmdPduSegment s seg) seg.blocks 0 := by
  have hq : ∀ (q : List (AmdDfe β)) (u : RlcState β),
      MemWorks u (q.foldl rlcDeleteAmdDfe u) (queueBlocks q) 0 := by
    intro q
    induction q with
    | nil => exact fun u => .refl u 0
    | cons dfe q ih =>
        intro u
        have h1 := (rlcDeleteAmdDfe_memWorks u dfe).frame (queueBlocks q)
        rw [zero_add] at h1
        rw [queueBlocks_cons, List.foldl_cons]
        exact h1.seq (ih _)
  have h := ((hq seg.dfeQ s).frame {seg.addr}).trans (free_memWorks _ seg.addr) (add_comm _ _)
  exact h.congr (add_comm _ _) (add_zero 0)

theorem rlcDeleteAmdPdu_memWorks (s : RlcState β) (pdu : AmdPdu β) :
    MemWorks s (rlcDeleteAmdPdu s pdu) pdu.blocks 0 := by
  have hl : ∀ (l : List (AmdPduSegment β)) (u : RlcState β),
      MemWorks u (l.foldl rlcDeleteAmdPduSegment u) (segBlocks l) 0 := by
    intro l
    induction l with
    | nil => exact fun u => .refl u 0
    | cons seg l ih =>
        intro u
        have h1 := (rlcDeleteAmdPduSegment_memWorks u seg).frame (segBlocks l)
        rw [zero_add] at h1
        rw [segBlocks_cons, List.foldl_cons]
        exact h1.seq (ih _)
  have h := ((hl pdu.segList s).frame {pdu.addr}).trans (free_memWorks _ pdu.addr)
    (add_comm _ _)
  exact h.congr (add_comm _ _) (add_zero 0)

theorem rlcCreateAmdPdu_none (h : rlcCreateAmdPdu env s = (t, none)) :
    s.alloc env (env.sizeof .amdPdu) = (t, none) := by
  unfold rlcCreateAmdPdu at h
  cases ha : s.alloc env (env.sizeof .amdPdu) with
  | mk u o =>
      rw [ha] at h
      cases o with
      | none =>
          obtain rfl : u = t := congrArg Prod.fst h
          rfl
      | some a => simp at h

theorem rlcCreateAmdPdu_some {pdu : AmdPdu β} (h : rlcCreateAmdPdu env s = (t, some pdu)) :
    s.alloc env (env.sizeof .amdPdu) = (t, some pdu.addr) ∧ pdu.segList = [] := by
  unfold rlcCreateAmdPdu at h
  cases ha : s.alloc env (env.sizeof .amdPdu) with
  | mk u o =>
      rw [ha] at h
      cases o with
      | none => simp at h
      | some a =>
          simp only [Prod.mk.injEq, Option.some.injEq] at h
          obtain ⟨rfl, rfl⟩ := h
          exact ⟨rfl, rfl⟩

/-! ### What is read through no pointer -/

theorem badDerefs_foldl {α : Type} {f : RlcState β → α → RlcState β}
    (h : ∀ s x, (f s x).badDerefs = s.badDerefs) (l : List α) (s : RlcState β) :
    (l.foldl f s).badDerefs = s.badDerefs := by
  apply List.foldlRecOn (motive := fun u => u.badDerefs = s.badDerefs) l f rfl
  exact fun u hu x _ => (h u x).trans hu

theorem rlcDeleteAmdPduSegment_badDerefs (s : RlcState β) (seg : AmdPduSegment β) :
    (rlcDeleteAmdPduSegment s seg).badDerefs = s.badDerefs :=
  badDerefs_foldl (f := rlcDeleteAmdDfe) (fun _ _ => rfl) seg.dfeQ s

theorem rlcDeleteAmdPdu_badDerefs (s : RlcState β) (pdu : AmdPdu β) :
    (rlcDeleteAmdPdu s pdu).badDerefs = s.badDerefs :=
  badDerefs_foldl rlcDeleteAmdPduSegment_badDerefs pdu.segList s

theorem rlcAlloc_badDerefs {n : Nat} (h : s.alloc env n = (t, o)) :
    t.badDerefs = s.badDerefs := by
  rw [alloc_onMem h]
  rfl

/-- Splitting the data into elements. When it fails for want of data, the element that was to
be split has been released. -/
theorem rlcDecodeAndEnqueueAmSegment_memWorks (env : Platform β) (fi : UInt8)
    (lis : List Nat) (s : RlcState β) (dfeQ : List (AmdDfe β)) (dfe : AmdDfe β) :
    MemWorks s (rlcDecodeAndEnqueueAmSegment env fi lis s dfeQ dfe).1
      (queueBlocks dfeQ + dfe.blocks)
      (queueBlocks (rlcDecodeAndEnqueueAmSegment env fi lis s dfeQ dfe).2.1) := by
  induction lis generalizing s dfeQ dfe with
  | nil =>
      unfold rlcDecodeAndEnqueueAmSegment
      simp only [queueBlocks_append, queueBlocks_cons, queueBlocks_nil, add_zero]
      exact .refl s _
  | cons li rest ih =>
      have hdel : ∀ u, MemWorks u ((u.free? dfe.buffer.pData).free dfe.addr)
          (queueBlocks dfeQ + dfe.blocks) (queueBlocks dfeQ) := by
        intro u
        have h := (rlcDeleteAmdDfe_memWorks u dfe).frame (queueBlocks dfeQ)
        exact h.congr (add_comm _ _) (zero_add _)
      unfold rlcDecodeAndEnqueueAmSegment
      simp only
      split
      · exact (log_memWorks s true _).seq (hdel _)
      · cases ha : s.alloc env (env.sizeof .amdDFE) with
        | mk t o =>
            cases o with
            | none => exact (hdel t).after_none ha
            | some next =>
                simp only
                cases hb : t.alloc env (dfe.buffer.size - UInt32.ofNat li).toNat with
                | mk u o =>
                    cases o with
                    | none =>
                        have h1 := (alloc_memWorks ha).frame (queueBlocks dfeQ + dfe.blocks)
                        have h2 := ((free?_memWorks u dfe.buffer.pData).frame
                          ({next} + {dfe.addr})).trans (free_memWorks _ next) (zero_add _)
                        have h3 := h2.trans (free_memWorks _ dfe.addr) (add_comm _ _)
                        have h4 := h3.frame (queueBlocks dfeQ)
                        rw [zero_add] at h1
                        apply h1.seq
                        apply (h4.after_none hb).congr
                        · unfold AmdDfe.blocks
                          rw [blockOf_some]
                          ac_rfl
                        · simp
                    | some pData =>
                        simp only
                        have h1 := (alloc_memWorks ha).frame (queueBlocks dfeQ + dfe.blocks)
                        have h2 := (alloc_memWorks hb).frame
                          ({next} + (queueBlocks dfeQ + dfe.blocks))
                        have hwrite : ∀ (g : Nat → UInt8) (n : Nat),
                            MemWorks u (u.onMem fun m => m.write pData g n) {pData} {pData} :=
                          fun g n => .onMem (write_transfer u.mem pData g n)
                        have h3 := (hwrite
                          (fun k => dfe.buffer.pData.elim (fun _ => 0) u.mem.bytes
                            ((UInt32.ofNat li).toNat + k))
                          (dfe.buffer.size - UInt32.ofNat li).toNat).frame
                          ({next} + (queueBlocks dfeQ + dfe.blocks))
                        rw [zero_add] at h1 h2
                        apply ((h1.seq h2).seq h3).seq
                        apply (ih _ _ _).congr _ rfl
                        simp only [queueBlocks_append, queueBlocks_cons, queueBlocks_nil,
                          AmdDfe.blocks, blockOf_some, add_zero]
                        ac_rfl

theorem rlcDecodeAmdPdu_memWorks (env : Platform β) (s : RlcState β) {pdu : AmdPdu β}
    (h : AmdHeader) (info : RlcUlDataInfo β) (hpdu : pdu.segList = []) :
    MemWorks s (rlcDecodeAmdPdu env s pdu h info).1 (blockOf info.rlcdataBuffer)
      ((rlcDecodeAmdPdu env s pdu h info).2.elim 0 fun p => segBlocks p.segList) := by
  have hremove : ∀ (u : RlcState β) (n : Nat),
      MemWorks u (u.onMem fun m => info.rlcdataBuffer.elim m fun b => m.dropFront b n)
        (blockOf info.rlcdataBuffer) (blockOf info.rlcdataBuffer) := by
    intro u n
    apply MemWorks.onMem
    cases info.rlcdataBuffer with
    | none => exact Transfer.refl u.mem 0
    | some b => exact dropFront_transfer u.mem b n
  unfold rlcDecodeAmdPdu
  simp only [hpdu, List.length_nil, ne_eq, not_true_eq_false, if_false, List.nil_append]
  cases hseg : s.alloc env (env.sizeof .amdPduSegment) with
  | mk t o =>
      cases o with
      | none => exact (free?_memWorks t info.rlcdataBuffer).after_none hseg
      | some seg =>
          simp only
          have h1 := (alloc_memWorks hseg).frame (blockOf info.rlcdataBuffer)
          rw [zero_add] at h1
          -- the data and the segment are released
          have hdel : ∀ u, MemWorks u
              (rlcDeleteAmdPduSegment (u.free? info.rlcdataBuffer) ⟨seg, []⟩)
              ({seg} + blockOf info.rlcdataBuffer) 0 := by
            intro u
            have hf := (free?_memWorks u info.rlcdataBuffer).frame {seg}
            have hd := rlcDeleteAmdPduSegment_memWorks (u.free? info.rlcdataBuffer)
              ⟨seg, []⟩
            rw [zero_add, add_comm] at hf
            exact hf.seq (hd.congr (by simp [AmdPduSegment.blocks]) rfl)
          split
          · cases ha : t.alloc env (env.sizeof .amdDFE) with
            | mk u o =>
                cases o with
                | none => exact h1.seq ((hdel u).after_none ha)
                | some a =>
                    simp only
                    have h2 := (alloc_memWorks ha).frame ({seg} + blockOf info.rlcdataBuffer)
                    have h3 := (hremove u 2).frame ({a} + {seg})
                    rw [zero_add, blockOf_some] at h2
                    apply h1.seq
                    apply h2.seq
                    apply h3.congr (by ac_rfl)
                    have hblocks : (rlcSetAmdPduAndDfeStatus pdu h
                        ⟨a, amPduMapSduFull, UInt32.ofNat info.length - 2,
                          info.rlcdataBuffer⟩).2.blocks = {a} + blockOf info.rlcdataBuffer := by
                      unfold rlcSetAmdPduAndDfeStatus AmdDfe.blocks
                      simp only
                      split_ifs <;> rfl
                    have hsegs : (rlcSetAmdPduAndDfeStatus pdu h
                        ⟨a, amPduMapSduFull, UInt32.ofNat info.length - 2,
                          info.rlcdataBuffer⟩).1.segList = [] := by
                      unfold rlcSetAmdPduAndDfeStatus
                      simp only
                      split_ifs <;> exact hpdu
                    simp only [Option.elim_some, hsegs, List.nil_append, segBlocks_cons,
                      segBlocks_nil, AmdPduSegment.blocks, queueBlocks_cons, queueBlocks_nil,
                      hblocks, add_zero]
                    ac_rfl
          · cases hlis : rlcGetConcatenationHeaderInfo
                (info.rlcdataBuffer.elim (fun _ => 0) s.mem.bytes) with
            | none => exact h1.seq (hdel t)
            | some pduHeader =>
                simp only
                cases ha : t.alloc env (env.sizeof .amdDFE) with
                | mk u o =>
                    cases o with
                    | none => exact h1.seq ((hdel u).after_none ha)
                    | some a =>
                        simp only
                        have h2 := (alloc_memWorks ha).frame
                          ({seg} + blockOf info.rlcdataBuffer)
                        have h3 := (hremove u pduHeader.hdrSize).frame ({a} + {seg})
                        rw [zero_add, blockOf_some] at h2
                        apply h1.seq
                        apply h2.seq
                        apply (h3.congr (by ac_rfl) rfl).seq
                        have h4 := (rlcDecodeAndEnqueueAmSegment_memWorks env h.fi
                          pduHeader.dfeLength
                          (u.onMem fun m => info.rlcdataBuffer.elim m
                            fun b => m.dropFront b pduHeader.hdrSize) []
                          ⟨a, if h.fi &&& 0x02 ≠ 0 then amPduMapSduEnd else amPduMapSduFull,
                            UInt32.ofNat info.length - UInt32.ofNat pduHeader.hdrSize,
                            info.rlcdataBuffer⟩).frame {seg}
                        have hxs : (0 : Multiset β) + ({a} + blockOf info.rlcdataBuffer) + {seg}
                            = blockOf info.rlcdataBuffer + ({a} + {seg}) := by
                          rw [zero_add]
                          ac_rfl
                        have h5 := h4.congr hxs rfl
                        split
                        · rename_i v q hq
                          simp only [hq] at h5
                          apply h5.seq
                          apply (rlcDeleteAmdPduSegment_memWorks v ⟨seg, q⟩).congr _ rfl
                          exact add_comm _ _
                        · rename_i v q hq
                          simp only [hq] at h5
                          apply h5.congr rfl
                          simp only [Option.elim_some, segBlocks_cons, segBlocks_nil,
                            AmdPduSegment.blocks, add_zero]
                          exact add_comm _ _

theorem rlcDeleteAmdDfe_works (s : RlcState β) (e : β) (dfe : AmdDfe β) :
    Works s (rlcDeleteAmdDfe s dfe) e dfe.blocks 0 := (rlcDeleteAmdDfe_memWorks s dfe).works e

theorem rlcDeleteAmdPduSegment_works (s : RlcState β) (e : β) (seg : AmdPduSegment β) :
    Works s (rlcDeleteAmdPduSegment s seg) e seg.blocks 0 :=
  (rlcDeleteAmdPduSegment_memWorks s seg).works e

theorem rlcDeleteAmdPdu_works (s : RlcState β) (e : β) (pdu : AmdPdu β) :
    Works s (rlcDeleteAmdPdu s pdu) e pdu.blocks 0 := (rlcDeleteAmdPdu_memWorks s pdu).works e

theorem rlcDecodeAndEnqueueAmSegment_works (env : Platform β) (fi : UInt8) (e : β)
    (lis : List Nat) (s : RlcState β) (dfeQ : List (AmdDfe β)) (dfe : AmdDfe β) :
    Works s (rlcDecodeAndEnqueueAmSegment env fi lis s dfeQ dfe).1 e
      (queueBlocks dfeQ + dfe.blocks)
      (queueBlocks (rlcDecodeAndEnqueueAmSegment env fi lis s dfeQ dfe).2.1) :=
  (rlcDecodeAndEnqueueAmSegment_memWorks env fi lis s dfeQ dfe).works e

end Rules

end LteUlp.Rlc
