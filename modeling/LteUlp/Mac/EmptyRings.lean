import LteUlp.Mac.Ownership
import LteUlp.Rlc.RawSdu

set_option autoImplicit false

/-! # The receive rings between packets

A PDU is put into the slot of its number, which is marked in use, then ready, and free again
before the next packet is looked at. `RingRun` are the runs of the RLC layer with any calls of
`MacUeDataInd` and any cleanup passes. As long as no join is refused, the rings are empty
between the packets, so a packet finds its slot free and without data, and
`RlcReassembleRlcSdu`, where it is called, finds a complete PDU in use (`ring_empty`). What
these functions find is told by following the branches of the reception with another function
in place of the reassembly (`rlcProcessAmdPduWith`).
-/

namespace LteUlp.Mac

open BlockStore LteUlp.Rrc LteUlp.Rlc

variable {β : Type} [DecidableEq β]

/-! ## What is found in a slot -/

section Found

variable {α : Type}

/-- The branches of the reception from the look at the ring on. Where `RlcReassembleRlcSdu` is
called, `reassemble` says what comes of it, and elsewhere `done`. -/
def rlcProcessAmdPduWith (done : RlcState β → α) (reassemble : RlcState β → Nat → β → α)
    (env : Platform β) (s : RlcState β) (e : β) (h : AmdHeader) (info : RlcUlDataInfo β) : α :=
  let ringSn := h.sn &&& 511
  let node := (s.rxAmEntity e).amdPduRing ringSn
  if node.status = .free then
    let s :=
      match node.data with
      | none => s
      | some pdu => (rlcDeleteAmdPdu s pdu).setRing e ringSn ⟨.free, none⟩
    match rlcCreateAmdPdu env s with
    | (s, none) => done (s.free? info.rlcdataBuffer)
    | (s, some pdu) =>
        if h.rf ≠ 0 then done (rlcDeleteAmdPdu (rlcProcessAmdPduSegment s info).1 pdu)
        else
          match rlcDecodeAmdPdu env s pdu h info with
          | (s, none) => done (rlcDeleteAmdPdu s pdu)
          | (s, some pdu) =>
              reassemble (s.setRing e ringSn ⟨.inUse, some { pdu with status := .complete }⟩)
                h.sn e
  else
    match node.data with
    | none => done (s.free? info.rlcdataBuffer)
    | some pdu =>
        if h.rf ≠ 0 then
          done ((rlcProcessAmdPduSegment s info).1.free? info.rlcdataBuffer)
        else
          reassemble ((s.setRing e ringSn ⟨node.status, some { pdu with status := .complete }⟩).free?
            info.rlcdataBuffer) h.sn e

/-- With the reassembly itself, these are the branches of the reception. -/
theorem rlcProcessAmdPduWith_self (env : Platform β) (s : RlcState β) (e : β) (h : AmdHeader)
    (info : RlcUlDataInfo β) :
    rlcProcessAmdPduWith id (rlcReassembleRlcSdu env) env s e h info
      = rlcProcessAmdPdu env s e h info := by
  unfold rlcProcessAmdPduWith rlcProcessAmdPdu rlcProcessNewAmdPdu rlcProcessNextAmdPdu
  rfl

/-- The slot as `RlcReassembleRlcSdu` finds it, if it is called. -/
def reassembledNode (env : Platform β) (s : RlcState β) (e : β) (h : AmdHeader)
    (info : RlcUlDataInfo β) : Option (RingNode β) :=
  rlcProcessAmdPduWith (fun _ => none)
    (fun t sn e => some ((t.rxAmEntity e).amdPduRing (sn &&& 511))) env s e h info

/-- A complete PDU in use. -/
def Ready (node : RingNode β) : Prop :=
  node.status = .inUse ∧ ∃ pdu, node.data = some pdu ∧ pdu.status = .complete

theorem reassembledNode_ready {env : Platform β} {s : RlcState β} {e : β} {h : AmdHeader}
    {info : RlcUlDataInfo β} (hslot : (s.rxAmEntity e).amdPduRing (h.sn &&& 511) = ⟨.free, none⟩) :
    ∀ node ∈ reassembledNode env s e h info, Ready node := by
  intro node hnode
  unfold reassembledNode rlcProcessAmdPduWith at hnode
  simp only [hslot, if_true] at hnode
  cases hc : rlcCreateAmdPdu env s with
  | mk t o =>
      rw [hc] at hnode
      cases o with
      | none => cases hnode
      | some pdu =>
          simp only at hnode
          split at hnode
          · cases hnode
          · cases hd : rlcDecodeAmdPdu env t pdu h info with
            | mk u o =>
                rw [hd] at hnode
                cases o with
                | none => cases hnode
                | some p =>
                    obtain rfl := Option.some.inj hnode
                    simp [Ready, RlcState.setRing, RlcState.setEntity]

end Found

/-! ## Runs -/

/-- The runs of the layer: blocks are allocated and filled, `MacUeDataInd` is called with any
RLC data in them, and cleanup passes come in between. `pending` are the blocks that are not
handed over yet. -/
inductive RingRun (env : MacPlatform β) (s₀ : RlcState β) : RlcState β → Multiset β → Prop
  | start : RingRun env s₀ s₀ 0
  | alloc {s t : RlcState β} {pending : Multiset β} {n : Nat} {o : Option β} :
      RingRun env s₀ s pending → s.alloc env.toPlatform n = (t, o) →
      RingRun env s₀ t (blockOf o + pending)
  | write {s : RlcState β} {pending : Multiset β} (b : β) (data : Nat → UInt8) (n : Nat) :
      RingRun env s₀ s ({b} + pending) →
      RingRun env s₀ (s.onMem fun m => m.write b data n) ({b} + pending)
  | dataInd {s : RlcState β} {pending : Multiset β} (addr : β) (rnti : UInt16)
      (rlcData : Option (RlcUlData β)) :
      RingRun env s₀ s (sduBlocks rlcData + {addr} + pending) →
      RingRun env s₀ (macUeDataInd env s addr rnti rlcData) pending
  | cleanup {s : RlcState β} {pending : Multiset β} (gMaxIdleCount : UInt32) :
      RingRun env s₀ s pending → RingRun env s₀ (executeCleanup gMaxIdleCount s) pending

/-- The layer is sound, with these blocks in hand. -/
structure InOrder (s : RlcState β) (pending : Multiset β) : Prop where
  rlc : RlcSound s
  rrc : RrcSound s.toRrcState (s.rlcOwned + pending)

section Runs

variable {env : MacPlatform β} {s₀ s t : RlcState β} {pending xs ys : Multiset β}

theorem InOrder.receives (h : InOrder s (xs + pending)) (hr : Receives s t xs ys)
    (hj : t.refusedJoins = s.refusedJoins) : InOrder t (ys + pending) := by
  obtain ⟨hrlc, hrrc⟩ := hr.sound rfl hj h.rlc h.rrc
  exact ⟨hrlc, hrrc⟩

theorem RingRun.joins (hrun : RingRun env s₀ s pending) : s₀.refusedJoins ≤ s.refusedJoins := by
  induction hrun with
  | start => exact le_rfl
  | alloc _ ha ih => exact ih.trans (alloc_memWorks ha).receives.joins
  | write b data n _ ih => exact ih
  | dataInd addr rnti rlcData _ ih =>
      exact ih.trans (macUeDataInd_receives env _ addr rnti rlcData).joins
  | cleanup g _ ih => exact ih.trans (executeCleanup_receives g _).joins

/-- **What a run preserves**, as long as no join is refused. -/
theorem RingRun.inOrder (h₀ : FirstState s₀) (hrun : RingRun env s₀ s pending)
    (hj : s.refusedJoins = s₀.refusedJoins) : InOrder s pending := by
  induction hrun with
  | start =>
      refine ⟨h₀.rlc, ?_⟩
      rw [add_zero]
      exact h₀.rrc
  | @alloc s t pending n o hrun ha ih =>
      have h1 := hrun.joins
      have h2 := (alloc_memWorks ha).receives.joins
      have hs : InOrder s (0 + pending) := by
        rw [zero_add]
        exact ih (by omega)
      exact hs.receives (alloc_memWorks ha).receives (by omega)
  | @write s pending b data n hrun ih =>
      have hw : MemWorks s (s.onMem fun m => m.write b data n) {b} {b} :=
        .onMem (write_transfer s.mem b data n)
      exact (ih hj).receives hw.receives rfl
  | @dataInd s pending addr rnti rlcData hrun ih =>
      have h1 := hrun.joins
      have h2 := (macUeDataInd_receives env s addr rnti rlcData).joins
      have ht := (ih (by omega)).receives (macUeDataInd_receives env s addr rnti rlcData)
        (by omega)
      rwa [zero_add] at ht
  | @cleanup s pending g hrun ih =>
      have h1 := hrun.joins
      have h2 := (executeCleanup_receives g s).joins
      have hs : InOrder s (0 + pending) := by
        rw [zero_add]
        exact ih (by omega)
      have ht := hs.receives (executeCleanup_receives g s) (by omega)
      rwa [zero_add] at ht

/-- The entries of a call before one of them. -/
theorem InOrder.entries (rnti : UInt16) (done rest : List (RlcUlDataInfo β))
    (h : InOrder s (((done ++ rest).filterMap (·.rlcdataBuffer) : List β) + pending))
    (hj : (done.foldl (macUeDataIndEntry env rnti) s).refusedJoins = s.refusedJoins) :
    InOrder (done.foldl (macUeDataIndEntry env rnti) s)
      ((rest.filterMap (·.rlcdataBuffer) : List β) + pending) := by
  rw [List.filterMap_append, ← Multiset.coe_add, add_assoc] at h
  have ht := h.receives (macUeDataIndLoop_receives env rnti done s) hj
  rwa [zero_add] at ht

/-- **The rings are empty between packets.** In every state of a run all slots are free and
without data. A packet of a call of `MacUeDataInd` finds its slot so, and if
`RlcReassembleRlcSdu` is called, it finds a complete PDU in use. -/
theorem ring_empty (h₀ : FirstState s₀) (hrun : RingRun env s₀ s pending)
    (hj : s.refusedJoins = s₀.refusedJoins) :
    (∀ e ∈ s.entities, ∀ k < ringSize, (s.rxAmEntity e).amdPduRing k = ⟨.free, none⟩) ∧
    ∀ (addr : β) (rnti : UInt16) (d : RlcUlData β) (done rest : List (RlcUlDataInfo β))
      (info : RlcUlDataInfo β), d.rlcDataArray = done ++ info :: rest →
      sduBlocks (some d) + {addr} ≤ pending →
      (done.foldl (macUeDataIndEntry env rnti) s).refusedJoins = s.refusedJoins →
      ∀ u e h, rlcFindEntity env.toPlatform (done.foldl (macUeDataIndEntry env rnti) s) info rnti
          = (u, some (e, h)) →
        (u.rxAmEntity e).amdPduRing (h.sn &&& 511) = ⟨.free, none⟩ ∧
          ∀ node ∈ reassembledNode env.toPlatform u e h info, Ready node := by
  have hs := hrun.inOrder h₀ hj
  refine ⟨fun e he k _ => hs.rlc.rings e he k, ?_⟩
  intro addr rnti d done rest info hd hle hjoins u e h hfind
  obtain ⟨others, hothers⟩ := Multiset.le_iff_exists_add.mp hle
  have hblocks : pending = ((done ++ info :: rest).filterMap (·.rlcdataBuffer) : List β)
      + ({d.addr} + {addr} + others) := by
    rw [hothers, sduBlocks, Option.elim_some, hd]
    ac_rfl
  rw [hblocks] at hs
  have hbefore := InOrder.entries rnti done (info :: rest) hs hjoins
  obtain ⟨hreceives, hextends, hent⟩ := rlcFindEntity_spec hbefore.rlc hbefore.rrc hfind
  -- the lookup keeps the rings empty
  obtain ⟨hsound, -⟩ := hreceives.sound (zero_add _).symm hextends.joins hbefore.rlc
    hbefore.rrc
  have hslot := hsound.rings e (hent e h rfl).1 (h.sn &&& 511)
  exact ⟨hslot, reassembledNode_ready hslot⟩

end Runs

/-! ### A packet for SRB 1 -/

def ringPlatform : MacPlatform Nat :=
  { poolPlatform fun _ => false with staleInfo := fun _ => ⟨0, 0, none⟩ }

/-- A block, and the state with it. -/
def withBlock (s : RlcState Nat) (n : Nat) : RlcState Nat × Nat :=
  ((s.alloc ringPlatform.toPlatform n).1, (s.alloc ringPlatform.toPlatform n).2.getD 0)

theorem RingRun.withBlock {s₀ s : RlcState Nat} {pending : Multiset Nat}
    (hrun : RingRun ringPlatform s₀ s pending) (n : Nat)
    (ha : (s.alloc ringPlatform.toPlatform n).2.isSome) :
    RingRun ringPlatform s₀ (Mac.withBlock s n).1 ({(Mac.withBlock s n).2} + pending) := by
  obtain ⟨b, hb⟩ := Option.isSome_iff_exists.mp ha
  have h := hrun.alloc (Prod.ext rfl hb : s.alloc ringPlatform.toPlatform n = (_, some b))
  rw [Mac.withBlock, hb]
  exact h

/-- The blocks of a call: the indication, the RLC data and the packet. -/
def indState : RlcState Nat × Nat := withBlock emptyState 64
def dataState : RlcState Nat × Nat := withBlock indState.1 64
def bufferState : RlcState Nat × Nat := withBlock dataState.1 122

def srb1Data : RlcUlData Nat := ⟨dataState.2, [⟨1, 122, some bufferState.2⟩]⟩

/-- The state before the call, with a first fragment in the packet. -/
def beforeCall : RlcState Nat := bufferState.1.onMem fun m => m.write bufferState.2 startPdu 122

theorem beforeCall_run : RingRun ringPlatform emptyState beforeCall
    ({bufferState.2} + ({dataState.2} + ({indState.2} + 0))) := by
  have h0 : RingRun ringPlatform emptyState emptyState 0 := .start
  have h3 := ((h0.withBlock 64 (by decide +kernel)).withBlock 64 (by decide +kernel)).withBlock
    122 (by decide +kernel)
  exact h3.write bufferState.2 startPdu 122

/-- What the call looks up. -/
def srb1Found : RlcState Nat × Option (Nat × AmdHeader) :=
  rlcFindEntity ringPlatform.toPlatform beforeCall ⟨1, 122, some bufferState.2⟩ 61

def afterCall : RlcState Nat := macUeDataInd ringPlatform beforeCall indState.2 61 (some srb1Data)

theorem afterCall_run : RingRun ringPlatform emptyState afterCall 0 := by
  have hblocks : ({bufferState.2} + ({dataState.2} + ({indState.2} + 0)) : Multiset Nat)
      = sduBlocks (some srb1Data) + {indState.2} + 0 := by
    show _ = {dataState.2} + ({bufferState.2} : Multiset Nat) + {indState.2} + 0
    ac_rfl
  have h := beforeCall_run
  rw [hblocks] at h
  exact h.dataInd indState.2 61 (some srb1Data)

/-- The packet makes an entity. Its ring is empty before and after the call, and in it the
reassembly finds a complete PDU. -/
theorem ring_empty_srb1 :
    (srb1Entity afterCall ∈ afterCall.entities ∧
      ∀ k < ringSize, (afterCall.rxAmEntity (srb1Entity afterCall)).amdPduRing k = ⟨.free, none⟩) ∧
    ∃ u e h, rlcFindEntity ringPlatform.toPlatform beforeCall ⟨1, 122, some bufferState.2⟩ 61
        = (u, some (e, h)) ∧
      (reassembledNode ringPlatform.toPlatform u e h ⟨1, 122, some bufferState.2⟩).isSome ∧
      ∀ node ∈ reassembledNode ringPlatform.toPlatform u e h ⟨1, 122, some bufferState.2⟩,
        Ready node := by
  have hmem : srb1Entity afterCall ∈ afterCall.entities := by decide +kernel
  have hafter := (ring_empty emptyState_first afterCall_run (by decide +kernel)).1
  refine ⟨⟨hmem, hafter _ hmem⟩, ?_⟩
  have hfound : srb1Found.2.isSome := by decide +kernel
  obtain ⟨⟨e, h⟩, hfind⟩ := Option.isSome_iff_exists.mp hfound
  have hall := (ring_empty emptyState_first beforeCall_run (by decide +kernel)).2 indState.2 61
    srb1Data [] [] ⟨1, 122, some bufferState.2⟩ rfl (by decide +kernel) rfl srb1Found.1 e h
    (Prod.ext rfl hfind)
  refine ⟨srb1Found.1, e, h, Prod.ext rfl hfind, ?_, hall.2⟩
  have hnode : ∀ x ∈ srb1Found.2, (reassembledNode ringPlatform.toPlatform srb1Found.1 x.1 x.2
      ⟨1, 122, some bufferState.2⟩).isSome := by decide +kernel
  exact hnode (e, h) hfind

end LteUlp.Mac
