import LteUlp.Mac.Ownership
import LteUlp.Rrc.Failures
import LteUlp.Worker.PhyQueue

set_option autoImplicit false
set_option linter.unusedSectionVars false

/-! # The uplink path without memory

What the entry points do when allocations are refused, each of them on its own. The
allocator is a `Policy`, so every pattern of refusals is covered. A call survives if it reads
and writes through no null pointer, gives no number to `%s`, and leaves nothing behind but
what its layer holds.

`MacDemuxOneToTenLchMsg` always survives. `PhyUlDataInd` tests the wrong pointer after its
second allocation, and copies to a null pointer where that one is refused. The decoders of
the RRC layer release what they allocate; the message of the common channel is left behind
where there is no memory for a context, a context that is pending deletion must get another
one, and an M-TMSI that is replaced must be copied.
-/

namespace LteUlp.Worker

open BlockStore Intrusive LteUlp.Rrc LteUlp.Rlc LteUlp.Mac LteUlp.Nas
open PhyList

variable {β ρ : Type} [DecidableEq β]

/-- Of the blocks `given`, those allocated in the meantime included, only `kept` are left; all
others are as before. `nulls` and `nulls'` count the uses of what is no pointer. -/
structure Survives (nulls nulls' : Nat) (m m' : Store β) (given kept : Multiset β) : Prop where
  nulls : nulls' = nulls
  blocks : m'.inUse = kept + (m.inUse - given)

theorem Survives.null_eq_false {nulls nulls' : Nat} {m m' : Store β} {given kept : Multiset β}
    {null : Bool} (h : Survives nulls nulls' m m' given kept)
    (hnull : nulls' = nulls + null.toNat) : null = false := by
  have h0 := h.nulls.symm.trans hnull
  cases null with
  | false => rfl
  | true => simp at h0

theorem survives_iff {nulls nulls' : Nat} {m m' : Store β} {given kept lost : Multiset β}
    {null : Bool} (hn : m.inUse.Nodup) (hle : given ≤ m.inUse)
    (hnull : nulls' = nulls + null.toNat) (ht : Transfer m m' given (kept + lost)) :
    Survives nulls nulls' m m' given kept ↔ null = false ∧ lost = 0 := by
  have hrest : m.inUse = given + (m.inUse - given) := (add_tsub_cancel_of_le hle).symm
  have huse := (ht.keeps _ hn hrest).inUse
  constructor
  · intro hs
    constructor
    · exact hs.null_eq_false hnull
    · have h1 := hs.blocks.symm.trans huse
      rw [add_right_cancel_iff] at h1
      exact (left_eq_add.mp h1)
  · rintro ⟨rfl, rfl⟩
    exact ⟨hnull, by rw [huse, add_zero]⟩

/-! ## The RRC layer -/

/-- A call of an entry point of the RRC layer. -/
inductive RrcCall (β : Type) where
  | rrcParseUlCcchMsg (rnti : UInt16) (pData : Option β) (size : Nat)
  | rrcDecodeIdentityResponse (rnti : UInt16) (m : Nat → UInt8)
  | rrcDecodeAttachReq (rnti : UInt16) (m : Nat → UInt8)
  | rrcDecodeDetachReq (rnti : UInt16) (m : Nat → UInt8)
  | rrcDecodeExtServiceReq (rnti : UInt16) (m : Nat → UInt8)
  | rrcDecodeTauReq (rnti : UInt16) (m : Nat → UInt8)
  | rrcDecodeServiceReq (rnti : UInt16)
  | rrcUpdateImsi (pUeCtx : β) (imsi : List UInt8) (msgType : UInt8)
  | rrcUpdateMTmsi (pUeCtx : β) (mTmsi : UInt32) (msgType : UInt8)

namespace RrcCall

variable (env : Platform β) (s : RrcState β)

/-- The state after the call. -/
def run : RrcCall β → RrcState β
  | .rrcParseUlCcchMsg rnti pData size =>
      pData.elim s fun b => Rrc.rrcParseUlCcchMsg env s rnti b size
  | .rrcDecodeIdentityResponse rnti m => Rrc.rrcDecodeIdentityResponse env s rnti m
  | .rrcDecodeAttachReq rnti m => Rrc.rrcDecodeAttachReq env s rnti m
  | .rrcDecodeDetachReq rnti m => Rrc.rrcDecodeDetachReq env s rnti m
  | .rrcDecodeExtServiceReq rnti m => Rrc.rrcDecodeExtServiceReq env s rnti m
  | .rrcDecodeTauReq rnti m => Rrc.rrcDecodeTauReq env s rnti m
  | .rrcDecodeServiceReq rnti => Rrc.rrcDecodeServiceReq env s rnti
  | .rrcUpdateImsi a imsi msgType => (Rrc.rrcUpdateImsi env s a imsi msgType).1
  | .rrcUpdateMTmsi a mTmsi msgType => (Rrc.rrcUpdateMTmsi env s a mTmsi msgType).1

/-- The input buffer. -/
def input : RrcCall β → Multiset β
  | .rrcParseUlCcchMsg _ (some b) _ => {b}
  | _ => 0

/-- The input buffer stays allocated. -/
def keepsInput : RrcCall β → Bool
  | .rrcParseUlCcchMsg rnti (some b) size => ccchMsgKept env s rnti b size
  | _ => false

/-- A null pointer is read, or a number as the address of a text. -/
def misreads : RrcCall β → Bool
  | .rrcParseUlCcchMsg rnti (some b) size =>
      size != 0 && (requestedMTmsi env s b size).any (fun v =>
        pendingDeletion s rnti || replacesMTmsi s rnti v) &&
          contextRefused env s (env.sizeof .rrcConnectionRequest)
  | .rrcParseUlCcchMsg _ none _ => false
  | .rrcDecodeIdentityResponse rnti m =>
      responseUpdates env s m &&
        (pendingDeletion s rnti && contextRefused env s (env.sizeof .idResponse))
  | .rrcDecodeAttachReq rnti m =>
      let r := mmeUnpackAttachRequestMsg m (env.leftover s.mem.clock).attachRequest
      requestMisread gutiMTmsi s rnti (if r.1 then some r.2.epsMobileId else none) &&
        contextRefused env s (env.sizeof .attachRequest)
  | .rrcDecodeDetachReq rnti m =>
      let r := mmeUnpackDetachRequestMsg m (env.leftover s.mem.clock).detachRequest
      requestMisread gutiMTmsi s rnti (some r.epsMobileId) &&
        contextRefused env s (env.sizeof .detachRequest)
  | .rrcDecodeExtServiceReq rnti m =>
      let r := mmeUnpackExtServiceRequestMsg m (env.leftover s.mem.clock).extServiceRequest
      requestMisread tmsiMTmsi s rnti (some r.epsMobileId) &&
        contextRefused env s (env.sizeof .extServiceRequest)
  | .rrcDecodeTauReq rnti m =>
      let r := mmeUnpackTauRequestMsg m (env.leftover s.mem.clock).tauRequest
      requestMisread gutiMTmsi s rnti (some r.epsMobileId) &&
        contextRefused env s (env.sizeof .tauRequest)
  | .rrcDecodeServiceReq _ => false
  | .rrcUpdateImsi a _ _ => replacementRefused env s a
  | .rrcUpdateMTmsi a mTmsi _ => mTmsiMisread env s a mTmsi

theorem run_transfer (call : RrcCall β) :
    RrcTransfer s (call.run env s) call.input
      (if call.keepsInput env s then call.input else 0) := by
  cases call with
  | rrcParseUlCcchMsg rnti pData size =>
      cases pData with
      | none => exact .refl s 0
      | some b => exact rrcParseUlCcchMsg_transfer env s rnti b size
  | rrcDecodeIdentityResponse rnti m => exact rrcDecodeIdentityResponse_transfer s rnti m
  | rrcDecodeAttachReq rnti m => exact rrcDecodeRequest_transfer _ _ _ _ s rnti _
  | rrcDecodeDetachReq rnti m => exact rrcDecodeRequest_transfer _ _ _ _ s rnti _
  | rrcDecodeExtServiceReq rnti m => exact rrcDecodeRequest_transfer _ _ _ _ s rnti _
  | rrcDecodeTauReq rnti m => exact rrcDecodeRequest_transfer _ _ _ _ s rnti _
  | rrcDecodeServiceReq rnti => exact rrcDecodeServiceReq_transfer s rnti
  | rrcUpdateImsi a imsi msgType => exact rrcUpdateIdentity_transfer _ _ _ _ _ s a msgType
  | rrcUpdateMTmsi a mTmsi msgType => exact rrcUpdateIdentity_transfer _ _ _ _ _ s a msgType

theorem run_badDerefs (call : RrcCall β) :
    (call.run env s).badDerefs = s.badDerefs + (call.misreads env s).toNat := by
  cases call with
  | rrcParseUlCcchMsg rnti pData size =>
      cases pData with
      | none => rfl
      | some b => exact rrcParseUlCcchMsg_badDerefs env s rnti b size
  | rrcDecodeIdentityResponse rnti m => exact rrcDecodeIdentityResponse_badDerefs env s rnti m
  | rrcDecodeAttachReq rnti m => exact rrcDecodeRequest_badDerefs _ _ _ _ s rnti _
  | rrcDecodeDetachReq rnti m => exact rrcDecodeRequest_badDerefs _ _ _ _ s rnti _
  | rrcDecodeExtServiceReq rnti m => exact rrcDecodeRequest_badDerefs _ _ _ _ s rnti _
  | rrcDecodeTauReq rnti m => exact rrcDecodeRequest_badDerefs _ _ _ _ s rnti _
  | rrcDecodeServiceReq rnti => exact rrcDecodeServiceReq_badDerefs env s rnti
  | rrcUpdateImsi a imsi msgType => exact rrcUpdateImsi_badDerefs env s a imsi msgType
  | rrcUpdateMTmsi a mTmsi msgType => exact rrcUpdateMTmsi_badDerefs env s a mTmsi msgType

/-- The call survives: of the contexts and the input buffer, the contexts are left. -/
def Survives (call : RrcCall β) : Prop :=
  Worker.Survives s.badDerefs (call.run env s).badDerefs s.mem (call.run env s).mem
    (s.owned + call.input) (call.run env s).owned

/-- **When an entry point of the RRC layer survives.** -/
theorem survives_iff_of_owned (call : RrcCall β) (hn : s.mem.inUse.Nodup)
    (howned : s.owned + call.input ≤ s.mem.inUse) :
    call.Survives env s ↔
      call.misreads env s = false ∧ call.keepsInput env s = false := by
  have hs := survives_iff hn howned (run_badDerefs env s call) (run_transfer env s call)
  have hkeep : (if call.keepsInput env s then call.input else 0) = 0
      ↔ call.keepsInput env s = false := by
    cases hk : call.keepsInput env s with
    | false => simp
    | true =>
        cases call with
        | rrcParseUlCcchMsg rnti pData size =>
            cases pData with
            | none => simp [keepsInput] at hk
            | some b => simp [input]
        | _ => simp [keepsInput] at hk
  rwa [hkeep] at hs

end RrcCall

/-! ## The queue of indications -/

/-- The list holds the nodes `xs`; before the worker is initialised there are none. -/
def PhyPath.Holds (s : PhyPath β ρ) (xs : List β) : Prop :=
  if s.gUlpWorkerInitilized then Repr s.lists fun _ => some xs else xs = []

/-- The nodes and their buffers. -/
def PhyPath.nodeBlocks (s : PhyPath β ρ) (xs : List β) : Multiset β :=
  (xs : Multiset β) + (xs.filterMap fun a => (s.phyDataIndNode a).pBuffer : List β)

/-- The node of an indication is allocated, and its buffer, which is not empty, is not. -/
def phyBufferRefused (P : Policy β) (nodeSize : Nat) (s : PhyPath β ρ) (pBuffer : Option ρ)
    (length : UInt16) : Bool :=
  s.gUlpWorkerInitilized && pBuffer.isSome && length != 0 &&
    match s.alloc P nodeSize with
    | (t, some _) => (t.alloc P length.toNat).2.isNone
    | (_, none) => false

/-- What happens once there is a node. -/
theorem phyUlDataInd_node {P : Policy β} {nodeSize : Nat} {s : PhyPath β ρ} {t u : Store β}
    {node : β} {o : Option β} {length : UInt16} (hinit : s.gUlpWorkerInitilized = true)
    (ha : s.mem.alloc P nodeSize = (t, some node)) (hb : t.alloc P length.toNat = (u, o))
    (p : ρ) :
    phyUlDataInd P nodeSize s (some p) length =
      { s with
        mem := o.elim u fun b => u.write b (s.callerBuffer p) length.toNat
        badDerefs := s.badDerefs + (length != 0 && o.isNone).toNat
        phyDataIndNode := Function.update s.phyDataIndNode node ⟨length.toUInt32, o⟩
        lists := listPushNode s.lists (some gRecvdPhyDataList) (some node) } := by
  simp only [phyUlDataInd, hinit, PhyPath.alloc, ha, hb, if_true]
  cases o with
  | some b => simp [PhyPath.setNode, PhyPath.memcpy]
  | none =>
      by_cases hl : length = 0
      · simp [PhyPath.setNode, PhyPath.memcpy, hl]
      · have hne : length.toNat ≠ 0 := fun h => hl (UInt16.toNat_inj.mp h)
        simp [PhyPath.setNode, PhyPath.memcpy, bne_iff_ne.mpr hl, hne]

/-- The list with a new node. -/
theorem nodeBlocks_push (s : PhyPath β ρ) {xs : List β} {node : β} (v : PhyDataIndNode β)
    (hnew : node ∉ xs) :
    (s.setNode node v).nodeBlocks (xs ++ [node])
      = (v.pBuffer.elim 0 fun b => {b}) + ({node} + s.nodeBlocks xs) := by
  have hold : xs.filterMap (fun a => ((s.setNode node v).phyDataIndNode a).pBuffer)
      = xs.filterMap fun a => (s.phyDataIndNode a).pBuffer := by
    refine List.filterMap_congr fun a ha => ?_
    show (Function.update s.phyDataIndNode node v a).pBuffer = _
    rw [Function.update_of_ne (ne_of_mem_of_not_mem ha hnew)]
  have hlast : ([node].filterMap fun a => ((s.setNode node v).phyDataIndNode a).pBuffer)
      = v.pBuffer.toList := by
    cases hb : v.pBuffer <;> simp [PhyPath.setNode, hb]
  simp only [PhyPath.nodeBlocks, List.filterMap_append, hold, hlast, ← Multiset.coe_add,
    Multiset.coe_singleton]
  cases v.pBuffer with
  | none =>
      simp only [Option.toList_none, Multiset.coe_nil, Option.elim_none]
      abel
  | some b =>
      simp only [Option.toList_some, Multiset.coe_singleton, Option.elim_some]
      abel

/-- **`PhyUlDataInd` loses no block**, and copies to a null pointer where the buffer is
refused. -/
theorem phyUlDataInd_transfer (P : Policy β) (nodeSize : Nat) (s : PhyPath β ρ)
    (pBuffer : Option ρ) (length : UInt16) {xs : List β} (hx : s.Holds xs)
    (hin : ∀ a ∈ xs, a ∈ s.mem.inUse) :
    let s' := phyUlDataInd P nodeSize s pBuffer length
    s'.badDerefs = s.badDerefs + (phyBufferRefused P nodeSize s pBuffer length).toNat ∧
      ∃ ys, s'.Holds ys ∧ Transfer s.mem s'.mem (s.nodeBlocks xs) (s'.nodeBlocks ys) := by
  cases pBuffer with
  | none => exact ⟨by simp [phyUlDataInd, phyBufferRefused], xs, hx, .refl _ _⟩
  | some p =>
  cases hinit : s.gUlpWorkerInitilized with
  | false =>
      simp only [phyUlDataInd, phyBufferRefused, hinit, Bool.false_and]
      exact ⟨rfl, xs, hx, .refl _ _⟩
  | true =>
  have hrepr : Repr s.lists fun _ => some xs := by
    unfold PhyPath.Holds at hx
    rwa [if_pos hinit] at hx
  have hnode := alloc_transfer P s.mem nodeSize
  cases ha : s.mem.alloc P nodeSize with
  | mk t o =>
  rw [ha] at hnode
  cases o with
  | none =>
      have hs : phyUlDataInd P nodeSize s (some p) length = { s with mem := t } := by
        simp [phyUlDataInd, hinit, PhyPath.alloc, ha]
      have hrefused : phyBufferRefused P nodeSize s (some p) length = false := by
        simp [phyBufferRefused, PhyPath.alloc, ha]
      have hframe := hnode.frame (s.nodeBlocks xs)
      rw [hs, hrefused]
      exact ⟨rfl, xs, hx, hframe.congr (zero_add _) (zero_add _)⟩
  | some node =>
  have hbuf := alloc_transfer P t length.toNat
  cases hb : t.alloc P length.toNat with
  | mk u o =>
  rw [hb] at hbuf
  have hfresh := (BlockStore.alloc_some (show (s.mem.alloc P nodeSize).2 = some node by
    rw [ha])).2.2
  have hrefused : phyBufferRefused P nodeSize s (some p) length
      = (length != 0 && o.isNone) := by
    simp [phyBufferRefused, PhyPath.alloc, ha, hb, hinit]
  rw [phyUlDataInd_node hinit ha hb p, hrefused]
  refine ⟨rfl, xs ++ [node], ?_, ?_⟩
  · have hpush := hrepr.pushNode (i := gRecvdPhyDataList) rfl
      (fun _ zs hz => Option.some.inj hz ▸ fun hmem => hfresh (hin node hmem))
    rw [update_phyList] at hpush
    unfold PhyPath.Holds
    rw [if_pos hinit]
    exact hpush.1
  · have hframe := ((hnode.frame (s.nodeBlocks xs)).congr (zero_add _) rfl).seq
      ((hbuf.frame ({node} + s.nodeBlocks xs)).congr (zero_add _) rfl)
    have hpush := nodeBlocks_push s ⟨length.toUInt32, o⟩ fun h => hfresh (hin node h)
    cases o with
    | none => exact hframe.congr rfl hpush.symm
    | some b =>
        have hw := (write_transfer u b (s.callerBuffer p) length.toNat).frame
          ({node} + s.nodeBlocks xs)
        exact (hframe.seq hw).congr rfl hpush.symm

/-- `PhyUlDataInd` survives: the nodes of the list and their buffers are left. -/
def PhyUlDataIndSurvives (P : Policy β) (nodeSize : Nat) (s : PhyPath β ρ)
    (pBuffer : Option ρ) (length : UInt16) (xs : List β) : Prop :=
  let s' := phyUlDataInd P nodeSize s pBuffer length
  ∃ ys, s'.Holds ys ∧ Survives s.badDerefs s'.badDerefs s.mem s'.mem (s.nodeBlocks xs)
    (s'.nodeBlocks ys)

/-- **When `PhyUlDataInd` survives.** -/
theorem phyUlDataIndSurvives_iff (P : Policy β) (nodeSize : Nat) (s : PhyPath β ρ)
    (pBuffer : Option ρ) (length : UInt16) {xs : List β} (hx : s.Holds xs)
    (hn : s.mem.inUse.Nodup) (hle : s.nodeBlocks xs ≤ s.mem.inUse) :
    PhyUlDataIndSurvives P nodeSize s pBuffer length xs
      ↔ phyBufferRefused P nodeSize s pBuffer length = false := by
  have hin : ∀ a ∈ xs, a ∈ s.mem.inUse := fun a ha =>
    Multiset.mem_of_le hle (Multiset.mem_add.mpr (Or.inl ha))
  obtain ⟨hnull, ys, hy, ht⟩ := phyUlDataInd_transfer P nodeSize s pBuffer length hx hin
  have hs := survives_iff hn hle hnull (ht.congr rfl (add_zero _).symm)
  constructor
  · rintro ⟨zs, -, hsurvives⟩
    exact hsurvives.null_eq_false hnull
  · exact fun h => ⟨ys, hy, hs.mpr ⟨h, rfl⟩⟩

/-! ## All entry points -/

/-- **When the entry points survive refused allocations.** The blocks that a call may leave
are in use and accounted for before it, with the input buffer of a message. A decoder
survives unless it misreads or keeps its message, `PhyUlDataInd` unless its buffer is refused,
and `MacDemuxOneToTenLchMsg` does always. -/
theorem entry_points_survive_iff (env : MacPlatform β) (nodeSize : Nat) :
    (∀ (s : RrcState β) (call : RrcCall β), s.mem.inUse.Nodup →
      s.owned + call.input ≤ s.mem.inUse →
      (call.Survives env.toPlatform s ↔ call.misreads env.toPlatform s = false
        ∧ call.keepsInput env.toPlatform s = false)) ∧
    (∀ (s : PhyPath β ρ) (pBuffer : Option ρ) (length : UInt16) (xs : List β),
      s.mem.inUse.Nodup → s.Holds xs → s.nodeBlocks xs ≤ s.mem.inUse →
      (PhyUlDataIndSurvives env.toPolicy nodeSize s pBuffer length xs
        ↔ phyBufferRefused env.toPolicy nodeSize s pBuffer length = false)) ∧
    (∀ (s : UlState β) (rlcData : Option (RlcUlData β)) (lchId : Nat) (src : Nat → UInt8)
      (length : Nat), s.mem.inUse.Nodup → sduBlocks rlcData ≤ s.mem.inUse →
      let r := macDemuxOneToTenLchMsg env s rlcData lchId src length
      Survives s.badDerefs r.1.badDerefs s.mem r.1.mem (sduBlocks rlcData)
        (sduBlocks r.2)) := by
  refine ⟨fun s call hn hle => ?_, fun s pBuffer length xs hn hx hle => ?_,
    fun s rlcData lchId src length hn hle => ?_⟩
  · exact call.survives_iff_of_owned env.toPlatform s hn hle
  · exact phyUlDataIndSurvives_iff env.toPolicy nodeSize s pBuffer length hx hn hle
  · obtain ⟨hnull, ht⟩ := macDemuxOneToTenLchMsg_transfer env s rlcData lchId src length
    exact ⟨hnull, by
      simpa using (ht.keeps _ hn (add_tsub_cancel_of_le hle).symm).inUse⟩

theorem refusing_fresh {t t' n b : Nat} {us : Multiset Nat}
    (h : (if t' = t then none else freshPolicy.choose t' us n) = some b) : b ∉ us := by
  split at h
  · simp at h
  · exact freshPolicy.fresh h

/-- A platform that refuses the allocation at the time `t`. -/
def refusingPlatform (t : Nat) : MacPlatform Nat where
  choose t' us n := if t' = t then none else freshPolicy.choose t' us n
  size := freshPolicy.size
  fresh := refusing_fresh
  sizeof _ := 0
  leftover _ := default
  staleInfo _ := ⟨0, 0, none⟩

/-- One message in use, a connection request with an S-TMSI. -/
def requestState : RrcState Nat :=
  { freshState with
    mem := { (default : Store Nat) with
      inUse := {7}
      bytes := fun _ k => if k = 0 then 0x40 else 0 } }

/-- The same for all layers, without contexts. -/
def requestUlState : UlState Nat where
  toRrcState := requestState
  macUeContext _ := default
  gMacUeContext := []
  rlcUeContext _ := ⟨0, false, 0, fun _ => none⟩
  gRlcUeContextList := []
  rxAmEntity _ := .fresh 0 0
  rlcUeDataInds := []
  refusedJoins := 0
  pendingDeletions := 0
  macUeCcchDataInds := []
  macUeDataInds := []

/-- With a refusal that comes later, the message is used up and the indication is queued; one
that comes at once leaves the demultiplexer without a block. -/
theorem entry_points_survive_refusal :
    (RrcCall.rrcParseUlCcchMsg 61 (some 7) 6).Survives
        (refusingPlatform 5).toPlatform requestState
      ∧ PhyUlDataIndSurvives (refusingPlatform 5).toPolicy 32 (initUlpWorker startPath true)
        (some ()) 4 []
      ∧ let r := macDemuxOneToTenLchMsg (refusingPlatform 0) requestUlState none 3 (fun _ => 0) 4
        Survives 0 r.1.badDerefs requestState.mem r.1.mem 0 (sduBlocks r.2) := by
  obtain ⟨hrrc, hphy, -⟩ := @entry_points_survive_iff Nat Unit _ (refusingPlatform 5) 32
  obtain ⟨-, -, hmac⟩ := @entry_points_survive_iff Nat Unit _ (refusingPlatform 0) 32
  refine ⟨?_, ?_, ?_⟩
  · exact (hrrc _ _ (by decide +kernel) (by decide +kernel)).mpr (by decide +kernel)
  · refine (hphy _ _ _ _ (by decide +kernel) ?_ (by decide +kernel)).mpr (by decide +kernel)
    exact initUlpWorker_repr startPath
  · exact hmac requestUlState none _ _ _ (by decide +kernel) (by decide +kernel)

/-- Where the second allocation is refused, `PhyUlDataInd` copies to a null pointer, and the
message of the common channel is left behind. -/
theorem second_allocation_refused :
    ¬ PhyUlDataIndSurvives (refusingPlatform 1).toPolicy 32 (initUlpWorker startPath true)
        (some ()) 4 [] ∧
      ¬ (RrcCall.rrcParseUlCcchMsg 61 (some 7) 6).Survives
        (refusingPlatform 1).toPlatform requestState := by
  constructor
  · rintro ⟨ys, -, h⟩
    exact absurd h.nulls (by decide +kernel)
  · intro h
    exact absurd h.blocks (by decide +kernel)

end LteUlp.Worker
