import LteUlp.Rlc.Frames
import LteUlp.Rlc.RawSdu

set_option autoImplicit false
set_option linter.unusedSectionVars false

/-! # The idle contexts of RLC

A cleanup pass walks over `gRlcUeContextList` and takes out of it what it walks over: the next
node is read before the context is looked at. `cleanupWalk` is that walk, node by node, and
`cleanupLoop_swept` says that it comes to every context of the list once, whichever of them are
deleted on the way.

The idle count of a context is the number of passes since it was created or since its last
data PDU (`run_counts`), so a pass deletes the contexts for which these were at least
`gMaxIdleCount`, with all they hold, and leaves the others as they are (`run_cleansIdle`).
-/

namespace LteUlp.Rlc

open BlockStore LteUlp.Rrc LteUlp.Mac

variable {β : Type} [DecidableEq β]

/-! ## The walk -/

/-- The node after `a` in a list. -/
def nextNode (l : List β) (a : β) : Option β := (l.dropWhile (· ≠ a)).tail.head?

/-- The loop of `ExecuteCleanup` from a node on, with the nodes that it comes to; `none` where
it has not ended by then. -/
def cleanupWalk (gMaxIdleCount : UInt32) :
    Nat → RlcState β → Option β → Option (List β × RlcState β)
  | _, s, none => some ([], s)
  | 0, _, some _ => none
  | fuel + 1, s, some pRlcUeCtx =>
      let pNextRlcUeCtx := nextNode s.gRlcUeContextList pRlcUeCtx
      (cleanupWalk gMaxIdleCount fuel (cleanupContext gMaxIdleCount s pRlcUeCtx)
        pNextRlcUeCtx).map fun r => (pRlcUeCtx :: r.1, r.2)

/-! ## The property -/

/-- The blocks of a context: its own, those of its AM entities and of their incomplete SDUs. -/
def contextBlocks (s : RlcState β) (a : β) : Multiset β :=
  {a} + ((s.rlcUeContext a).entities + (s.rlcUeContext a).entities.bind (rawBlock s))

/-- What a context is after a pass that it survives. -/
def RlcUeContext.idle (c : RlcUeContext β) : RlcUeContext β :=
  { c with idleCount := c.idleCount + 1 }

/-- Nothing but the memory, the list and the contexts have changed. -/
def OnlyContexts (s t : RlcState β) : Prop :=
  t = { s.onMem fun _ => t.mem with
    rlcUeContext := t.rlcUeContext, gRlcUeContextList := t.gRlcUeContextList }

/-- **A pass removes exactly the idle contexts.** `quiet a` is the number of passes since the
context was created or got its last data PDU. -/
structure CleansIdle (g : UInt32) (s : RlcState β) (quiet : β → Nat) : Prop where
  distinct : s.gRlcUeContextList.Nodup
  visits : ∀ fuel, s.gRlcUeContextList.length ≤ fuel →
    cleanupWalk g fuel s s.gRlcUeContextList.head?
      = some (s.gRlcUeContextList, executeCleanup g s)
  deletes : (executeCleanup g s).gRlcUeContextList
    = s.gRlcUeContextList.filter fun a => decide (quiet a < g.toNat)
  frees : s.mem.inUse.Nodup ∧ s.mem.inUse = (executeCleanup g s).mem.inUse
    + ((s.gRlcUeContextList.filter fun a => decide (g.toNat ≤ quiet a) : List β) :
        Multiset β).bind (contextBlocks s)
  freesOnce : (executeCleanup g s).mem.misuses = s.mem.misuses
  keeps : ∀ b ∈ (executeCleanup g s).mem.inUse,
    (executeCleanup g s).mem.length b = s.mem.length b ∧
      (executeCleanup g s).mem.bytes b = s.mem.bytes b
  counts : ∀ a ∈ (executeCleanup g s).gRlcUeContextList,
    (executeCleanup g s).rlcUeContext a = (s.rlcUeContext a).idle
  only : OnlyContexts s (executeCleanup g s)

/-! ## Runs -/

/-- The packet is an AMD data PDU with a valid header. -/
def isDataPdu (s : RlcState β) (info : RlcUlDataInfo β) : Bool :=
  decide (info.lcId ≤ srb2LcId) &&
    (info.rlcdataBuffer.bind fun b => rlcDecodeAmdHeader (s.mem.bytes b) info.length).any
      fun h => h.dc ≠ 0

/-- The passes that count for a context after a packet from `s` to `t`. -/
def quietAfter (s t : RlcState β) (info : RlcUlDataInfo β) (rnti : UInt16)
    (quiet : β → Nat) (a : β) : Nat :=
  if isDataPdu s info = true ∧ (t.rlcUeContext a).rnti = rnti then 0 else quiet a

/-- The runs of the layer in which no allocation is refused: MAC allocates buffers and fills
them, hands them over as packets, and cleanup passes come in between, in any order. `pending`
are the packets that are still to be handed over, with their lengths. -/
inductive CleanerRun (env : Platform β) :
    RlcState β → List (β × UInt16) → (β → Nat) → Prop
  | first {s : RlcState β} : FirstState s → CleanerRun env s [] fun _ => 0
  | buffer {s t : RlcState β} {pending : List (β × UInt16)} {quiet : β → Nat} {n : UInt16}
      {b : β} : CleanerRun env s pending quiet → s.alloc env n.toNat = (t, some b) →
      (data : Nat → UInt8) →
      CleanerRun env (t.onMem fun m => m.write b data n.toNat) ((b, n) :: pending) quiet
  | packet {s : RlcState β} {pending : List (β × UInt16)} {quiet : β → Nat} {b : β}
      {n : UInt16} (lcId : Nat) (rnti : UInt16) : CleanerRun env s pending quiet →
      (b, n) ∈ pending →
      (rlcProcessAmRxPacket env s ⟨lcId, n.toNat, some b⟩ rnti).mem.failures
        = s.mem.failures →
      CleanerRun env (rlcProcessAmRxPacket env s ⟨lcId, n.toNat, some b⟩ rnti)
        (pending.erase (b, n))
        (quietAfter s (rlcProcessAmRxPacket env s ⟨lcId, n.toNat, some b⟩ rnti)
          ⟨lcId, n.toNat, some b⟩ rnti quiet)
  | noPacket {s : RlcState β} {pending : List (β × UInt16)} {quiet : β → Nat}
      (lcId : Nat) (n rnti : UInt16) : CleanerRun env s pending quiet →
      CleanerRun env (rlcProcessAmRxPacket env s ⟨lcId, n.toNat, none⟩ rnti) pending quiet
  | otherPacket {s : RlcState β} {pending : List (β × UInt16)} {quiet : β → Nat} {b : β}
      {n : UInt16} (lcId : Nat) : CleanerRun env s pending quiet → (b, n) ∈ pending →
      CleanerRun env (rlcProcessUmOrTmRxPacket s ⟨lcId, n.toNat, some b⟩)
        (pending.erase (b, n)) quiet
  | cleanup {s : RlcState β} {pending : List (β × UInt16)} {quiet : β → Nat}
      (gMaxIdleCount : UInt32) : CleanerRun env s pending quiet →
      CleanerRun env (executeCleanup gMaxIdleCount s) pending fun a => quiet a + 1

section Rules

variable {env : Platform β} {s t u : RlcState β} {a b e : β} {xs ys : Multiset β} {g : UInt32}

theorem OnlyContexts.refl (s : RlcState β) : OnlyContexts s s := rfl

theorem OnlyContexts.trans (h : OnlyContexts s t) (h' : OnlyContexts t u) :
    OnlyContexts s u := by
  unfold OnlyContexts at h h' ⊢
  rw [h', h]
  rfl

theorem OnlyContexts.of_onlyMem (h : OnlyMem s t) (hb : t.badDerefs = s.badDerefs) :
    OnlyContexts s t := by
  have hmem : t = s.onMem fun _ => t.mem := by
    unfold OnlyMem at h
    rw [hb] at h
    exact h
  unfold OnlyContexts
  rw [hmem]
  rfl

theorem OnlyContexts.rxAmEntity (h : OnlyContexts s t) : t.rxAmEntity = s.rxAmEntity := by
  rw [h]
  rfl

/-! ## Deleting a context -/

/-- A part of the deletion of `a`, which has been unlinked: the blocks `xs` are released. -/
structure Deletes (a : β) (s t : RlcState β) (xs : Multiset β) : Prop where
  only : OnlyContexts s t
  list : t.gRlcUeContextList = s.gRlcUeContextList
  other : ∀ b, b ≠ a → t.rlcUeContext b = s.rlcUeContext b
  mem : Transfer s.mem t.mem xs 0

theorem Deletes.trans (h : Deletes a s t xs) (h' : Deletes a t u ys) :
    Deletes a s u (xs + ys) := by
  refine ⟨h.only.trans h'.only, h'.list.trans h.list,
    fun b hb => (h'.other b hb).trans (h.other b hb), ?_⟩
  have hfirst := h.mem.frame ys
  rw [zero_add] at hfirst
  exact hfirst.seq h'.mem

/-- The blocks of the entity of a channel. -/
def channelBlocks (s : RlcState β) (a : β) (i : Nat) : Multiset β :=
  ((s.rlcUeContext a).rxAmEntityArray i).elim 0 fun e => {e} + rawBlock s e

theorem channels_blocks (s : RlcState β) (a : β) (l : List Nat) :
    (l.map (channelBlocks s a)).sum = heldAt s a l := by
  induction l with
  | nil => rfl
  | cons i l ih =>
      rw [List.map_cons, List.sum_cons, ih]
      unfold channelBlocks heldAt entitiesAt
      cases hx : (s.rlcUeContext a).rxAmEntityArray i with
      | none => rw [List.filterMap_cons_none hx, Option.elim_none, zero_add]
      | some e =>
          rw [List.filterMap_cons_some hx, Option.elim_some]
          simp only [← Multiset.cons_coe, Multiset.cons_bind]
          rw [← Multiset.singleton_add]
          ac_rfl

/-- The entity of a channel is deleted; its ring is empty. -/
theorem rlcDeleteEntityAt_deletes (i : Nat)
    (hring : ∀ e, (s.rlcUeContext a).rxAmEntityArray i = some e →
      ∀ k, (s.rxAmEntity e).amdPduRing k = ⟨.free, none⟩) :
    Deletes a s (rlcDeleteEntityAt a s i) (channelBlocks s a i) ∧
      ∀ j, j ≠ i → ((rlcDeleteEntityAt a s i).rlcUeContext a).rxAmEntityArray j
        = (s.rlcUeContext a).rxAmEntityArray j := by
  have hset : ∀ (v : RlcState β) c, OnlyContexts v (v.setUeContext a c) ∧
      (∀ b, b ≠ a → (v.setUeContext a c).rlcUeContext b = v.rlcUeContext b) :=
    fun v c => ⟨rfl, fun b hb => Function.update_of_ne hb _ _⟩
  have hmem := rlcDeleteRxAmEntity_onlyMem s ((s.rlcUeContext a).rxAmEntityArray i)
  have hbad := rlcDeleteRxAmEntity_badDerefs s ((s.rlcUeContext a).rxAmEntityArray i)
  have htransfer : Transfer s.mem
      (rlcDeleteRxAmEntity s ((s.rlcUeContext a).rxAmEntityArray i)).mem
      (channelBlocks s a i) 0 := by
    unfold channelBlocks
    cases hx : (s.rlcUeContext a).rxAmEntityArray i with
    | none => exact .refl _ _
    | some e =>
        rw [rlcDeleteRxAmEntity_some (hring e hx), Option.elim_some]
        have h1 := (free?_memWorks s (s.rxAmEntity e).rxRawSdu.rawSdu.pData).transfer.frame {e}
        have h2 := (free_memWorks
          (s.free? (s.rxAmEntity e).rxRawSdu.rawSdu.pData) e).transfer
        rw [zero_add, add_comm] at h1
        exact h1.seq h2
  unfold rlcDeleteEntityAt
  simp only
  generalize rlcDeleteRxAmEntity s ((s.rlcUeContext a).rxAmEntityArray i) = v
    at hmem hbad htransfer
  have hctx : v.rlcUeContext = s.rlcUeContext := by
    rw [hmem]
    rfl
  have hlist : v.gRlcUeContextList = s.gRlcUeContextList := by
    rw [hmem]
    rfl
  refine ⟨⟨(OnlyContexts.of_onlyMem hmem hbad).trans (hset v _).1, hlist, fun b hb => ?_,
    htransfer⟩, fun j hj => ?_⟩
  · rw [(hset v _).2 b hb, hctx]
  · show (Function.update v.rlcUeContext a _ a).rxAmEntityArray j = _
    rw [Function.update_self]
    show Function.update (v.rlcUeContext a).rxAmEntityArray i none j = _
    rw [Function.update_of_ne hj, hctx]

/-- The loop over the channels. -/
theorem rlcDeleteEntities_deletes (l : List Nat) (hl : l.Nodup) (s : RlcState β)
    (hring : ∀ j ∈ l, ∀ e, (s.rlcUeContext a).rxAmEntityArray j = some e →
      ∀ k, (s.rxAmEntity e).amdPduRing k = ⟨.free, none⟩) :
    Deletes a s (l.foldl (rlcDeleteEntityAt a) s) (l.map (channelBlocks s a)).sum := by
  induction l generalizing s with
  | nil => exact ⟨rfl, rfl, fun _ _ => rfl, .refl _ _⟩
  | cons i l ih =>
      obtain ⟨hi, hl⟩ := List.nodup_cons.mp hl
      obtain ⟨hdel, harray⟩ := rlcDeleteEntityAt_deletes i (hring i List.mem_cons_self)
      have hent := hdel.only.rxAmEntity
      have hsame : ∀ j ∈ l, ((rlcDeleteEntityAt a s i).rlcUeContext a).rxAmEntityArray j
          = (s.rlcUeContext a).rxAmEntityArray j := fun j hj =>
        harray j (ne_of_mem_of_not_mem hj hi)
      have hblocks : l.map (channelBlocks (rlcDeleteEntityAt a s i) a)
          = l.map (channelBlocks s a) := by
        refine List.map_congr_left fun j hj => ?_
        unfold channelBlocks rawBlock
        rw [hsame j hj, hent]
      have hrest := ih hl (rlcDeleteEntityAt a s i) fun j hj e he k => by
        rw [hsame j hj] at he
        rw [hent]
        exact hring j (List.mem_cons_of_mem i hj) e he k
      rw [hblocks] at hrest
      rw [List.map_cons, List.sum_cons, List.foldl_cons]
      exact hdel.trans hrest

/-- **A context is deleted**: its blocks are released, and it is out of the list. -/
theorem rlcDeleteUeContext_deletes (s : RlcState β) (c : RlcUeContext β)
    (hc : c.rxAmEntityArray = (s.rlcUeContext a).rxAmEntityArray)
    (hring : ∀ e ∈ (s.rlcUeContext a).entities,
      ∀ k, (s.rxAmEntity e).amdPduRing k = ⟨.free, none⟩) :
    OnlyContexts s (rlcDeleteUeContext (s.setUeContext a c) a) ∧
      (rlcDeleteUeContext (s.setUeContext a c) a).gRlcUeContextList
        = s.gRlcUeContextList.erase a ∧
      (∀ b, b ≠ a →
        (rlcDeleteUeContext (s.setUeContext a c) a).rlcUeContext b = s.rlcUeContext b) ∧
      Transfer s.mem (rlcDeleteUeContext (s.setUeContext a c) a).mem (contextBlocks s a) 0 := by
  -- the state when the context has been unlinked
  obtain ⟨v, hv⟩ : ∃ v, v = { s.setUeContext a c with
    gRlcUeContextList := s.gRlcUeContextList.erase a } := ⟨_, rfl⟩
  have hself : v.rlcUeContext a = c := by
    rw [hv]
    exact Function.update_self ..
  have hother : ∀ b, b ≠ a → v.rlcUeContext b = s.rlcUeContext b := fun b hb => by
    rw [hv]
    exact Function.update_of_ne hb _ _
  have hent : v.rxAmEntity = s.rxAmEntity := by rw [hv]; rfl
  have hloop := rlcDeleteEntities_deletes (List.range maxLcId) List.nodup_range v
    fun j hj e he k => by
      rw [hself, hc] at he
      rw [hent]
      exact hring e (mem_contextEntities.mpr ⟨j, List.mem_range.mp hj, he⟩) k
  have hblocks : {a} + heldAt v a (List.range maxLcId) = contextBlocks s a := by
    unfold heldAt entitiesAt contextBlocks RlcUeContext.entities rawBlock
    rw [hself, hc, hent]
  rw [channels_blocks] at hloop
  have hend : rlcDeleteUeContext (s.setUeContext a c) a
      = ((List.range maxLcId).foldl (rlcDeleteEntityAt a) v).free a := by
    rw [hv]
    rfl
  rw [hend]
  have hfirst : OnlyContexts s v := by rw [hv]; rfl
  refine ⟨(hfirst.trans hloop.only).trans (.of_onlyMem (free_memWorks _ a).only rfl), ?_,
    fun b hb => (hloop.other b hb).trans (hother b hb), ?_⟩
  · show ((List.range maxLcId).foldl (rlcDeleteEntityAt a) v).gRlcUeContextList = _
    rw [hloop.list, hv]
  · have hmem : v.mem = s.mem := by rw [hv]; rfl
    have hframe := hloop.mem.frame {a}
    rw [zero_add, hmem, add_comm, hblocks] at hframe
    exact hframe.seq (free_memWorks _ a).transfer

/-! ## The pass -/

theorem nextNode_append {pre l : List β} (hn : (pre ++ a :: l).Nodup) :
    nextNode (pre ++ a :: l) a = l.head? := by
  have hpre : ∀ b ∈ pre, b ≠ a := fun b hb =>
    (List.nodup_append.mp hn).2.2 b hb a List.mem_cons_self
  unfold nextNode
  rw [List.dropWhile_append_of_pos fun b hb => decide_eq_true (hpre b hb),
    List.dropWhile_cons_of_neg (by simp), List.tail_cons]

theorem erase_middle {pre l : List β} (hn : (pre ++ a :: l).Nodup) :
    (pre ++ a :: l).erase a = pre ++ l := by
  have ha : a ∉ pre := fun h =>
    (List.nodup_append.mp hn).2.2 a h a List.mem_cons_self rfl
  rw [List.erase_append_right _ ha, List.erase_cons_head]

/-- The context is old enough to be deleted. -/
def RlcUeContext.expired (g : UInt32) (c : RlcUeContext β) : Bool := decide (g ≤ c.idleCount)

/-- The blocks of those of the contexts `l` that are. -/
def expiredBlocks (g : UInt32) (s : RlcState β) (l : List β) : Multiset β :=
  (l.filter fun a => (s.rlcUeContext a).expired g : Multiset β).bind (contextBlocks s)

theorem expiredBlocks_cons (g : UInt32) (s : RlcState β) (a : β) (l : List β) :
    expiredBlocks g s (a :: l)
      = (if (s.rlcUeContext a).expired g then contextBlocks s a else 0) + expiredBlocks g s l := by
  unfold expiredBlocks
  rw [List.filter_cons]
  split
  · rw [← Multiset.cons_coe, Multiset.cons_bind]
  · rw [zero_add]

/-- The contexts `l` at the end of the list have been looked at, from `s` to `t`. -/
structure Swept (g : UInt32) (s t : RlcState β) (pre l : List β) : Prop where
  only : OnlyContexts s t
  list : t.gRlcUeContextList = pre ++ l.filter fun a => !(s.rlcUeContext a).expired g
  other : ∀ b, b ∉ l → t.rlcUeContext b = s.rlcUeContext b
  kept : ∀ b ∈ l, (s.rlcUeContext b).expired g = false →
    t.rlcUeContext b = (s.rlcUeContext b).idle
  mem : Transfer s.mem t.mem (expiredBlocks g s l) 0

/-- **One context is looked at.** -/
theorem cleanupContext_swept {pre l : List β} (hlist : s.gRlcUeContextList = pre ++ a :: l)
    (hn : s.gRlcUeContextList.Nodup)
    (hring : ∀ e ∈ (s.rlcUeContext a).entities,
      ∀ k, (s.rxAmEntity e).amdPduRing k = ⟨.free, none⟩) :
    OnlyContexts s (cleanupContext g s a) ∧
      (cleanupContext g s a).gRlcUeContextList
        = pre ++ (if (s.rlcUeContext a).expired g then l else a :: l) ∧
      (∀ b, b ≠ a → (cleanupContext g s a).rlcUeContext b = s.rlcUeContext b) ∧
      ((s.rlcUeContext a).expired g = false →
        (cleanupContext g s a).rlcUeContext a = (s.rlcUeContext a).idle) ∧
      Transfer s.mem (cleanupContext g s a).mem
        (if (s.rlcUeContext a).expired g then contextBlocks s a else 0) 0 := by
  rw [hlist] at hn
  unfold cleanupContext RlcUeContext.expired
  simp only
  by_cases hg : g ≤ (s.rlcUeContext a).idleCount
  · obtain ⟨honly, herase, hother, hmem⟩ := rlcDeleteUeContext_deletes s
      { s.rlcUeContext a with deleteFlag := true } rfl hring
    rw [hlist, erase_middle hn] at herase
    rw [if_pos hg, decide_eq_true hg, if_pos rfl, if_pos rfl]
    exact ⟨honly, herase, hother, fun h => absurd h (by decide), hmem⟩
  · rw [if_neg hg, decide_eq_false hg, if_neg (by decide), if_neg (by decide)]
    refine ⟨rfl, hlist, fun b hb => Function.update_of_ne hb _ _, fun _ => ?_, .refl _ _⟩
    exact Function.update_self ..

/-- **The walk**: from the nodes `l` on, it comes to each of them, and does to them what the
loop over them does. -/
theorem cleanupLoop_swept (g : UInt32) (l : List β) (pre : List β) (s : RlcState β)
    (hlist : s.gRlcUeContextList = pre ++ l) (hn : s.gRlcUeContextList.Nodup)
    (hring : ∀ a ∈ l, ∀ e ∈ (s.rlcUeContext a).entities,
      ∀ k, (s.rxAmEntity e).amdPduRing k = ⟨.free, none⟩) :
    Swept g s (l.foldl (cleanupContext g) s) pre l ∧
      ∀ fuel, l.length ≤ fuel →
        cleanupWalk g fuel s l.head? = some (l, l.foldl (cleanupContext g) s) := by
  induction l generalizing pre s with
  | nil =>
      refine ⟨⟨rfl, by simpa using hlist, fun _ _ => rfl, by simp, .refl _ _⟩, ?_⟩
      intro fuel _
      cases fuel <;> rfl
  | cons a l ih =>
      have hnodup := hn
      rw [hlist] at hnodup
      have hal : a ∉ l := (List.nodup_cons.mp (List.nodup_append.mp hnodup).2.1).1
      obtain ⟨honly, hnext, hother, hself, hmem⟩ := cleanupContext_swept (g := g) hlist hn
        (hring a List.mem_cons_self)
      -- what the rest of the loop finds
      have hsame : ∀ b ∈ l, (cleanupContext g s a).rlcUeContext b = s.rlcUeContext b :=
        fun b hb => hother b (ne_of_mem_of_not_mem hb hal)
      have hent := honly.rxAmEntity
      have hblocks : ∀ b ∈ l, contextBlocks (cleanupContext g s a) b = contextBlocks s b := by
        intro b hb
        unfold contextBlocks rawBlock
        rw [hsame b hb, hent]
      obtain ⟨pre', hpre'⟩ : ∃ pre', (cleanupContext g s a).gRlcUeContextList = pre' ++ l ∧
          pre' = pre ++ (if (s.rlcUeContext a).expired g then [] else [a]) := by
        refine ⟨_, ?_, rfl⟩
        rw [hnext]
        split <;> simp
      have hn' : (cleanupContext g s a).gRlcUeContextList.Nodup := by
        rw [hnext]
        split
        · exact hnodup.sublist (List.Sublist.append_left (List.sublist_cons_self a l) pre)
        · exact hnodup
      obtain ⟨hrest, hwalk⟩ := ih pre' (cleanupContext g s a) hpre'.1 hn'
        fun b hb e he k => by
          rw [hsame b hb] at he
          rw [hent]
          exact hring b (List.mem_cons_of_mem a hb) e he k
      have hfilter : ∀ p : RlcUeContext β → Bool,
          l.filter (fun b => p ((cleanupContext g s a).rlcUeContext b))
            = l.filter fun b => p (s.rlcUeContext b) := fun p =>
        List.filter_congr fun b hb => by rw [hsame b hb]
      refine ⟨⟨honly.trans hrest.only, ?_, fun b hb => ?_, fun b hb hexp => ?_, ?_⟩, ?_⟩
      · rw [List.foldl_cons, hrest.list, hfilter fun c => !c.expired g, hpre'.2,
          List.append_assoc]
        cases hexp : (s.rlcUeContext a).expired g <;> simp [hexp]
      · rw [List.mem_cons, not_or] at hb
        rw [List.foldl_cons, hrest.other b hb.2, hother b hb.1]
      · rw [List.foldl_cons]
        rcases List.mem_cons.mp hb with rfl | hb
        · rw [hrest.other b hal, hself hexp]
        · rw [hrest.kept b hb (by rw [hsame b hb]; exact hexp), hsame b hb]
      · have hlast : expiredBlocks g (cleanupContext g s a) l = expiredBlocks g s l := by
          unfold expiredBlocks
          rw [hfilter fun c => c.expired g]
          exact Multiset.bind_congr fun b hb => hblocks b (List.mem_of_mem_filter hb)
        have hframe := hmem.frame (expiredBlocks g s l)
        rw [zero_add, ← expiredBlocks_cons] at hframe
        exact hframe.seq (hlast ▸ hrest.mem)
      · intro fuel hfuel
        cases fuel with
        | zero => simp at hfuel
        | succ fuel =>
            show (cleanupWalk g fuel (cleanupContext g s a)
              (nextNode s.gRlcUeContextList a)).map _ = _
            rw [hlist, nextNode_append hnodup, hwalk fuel (by simpa using hfuel)]
            rfl

/-- The idle counts are the numbers of passes. -/
def Counted (s : RlcState β) (quiet : β → Nat) : Prop :=
  ∀ a ∈ s.gRlcUeContextList, (s.rlcUeContext a).idleCount.toNat = quiet a

theorem Counted.expired {quiet : β → Nat} (h : Counted s quiet)
    (ha : a ∈ s.gRlcUeContextList) :
    (s.rlcUeContext a).expired g = decide (g.toNat ≤ quiet a) := by
  unfold RlcUeContext.expired
  rw [← h a ha]
  exact decide_eq_decide.mpr UInt32.le_iff_toNat_le

/-- The blocks of some of the contexts are blocks of the layer. -/
theorem contextBlocks_le {l : List β} (hl : l.Sublist s.gRlcUeContextList) :
    (l : Multiset β).bind (contextBlocks s) ≤ s.rlcOwned := by
  have hle : ((l : Multiset β)).bind (contextBlocks s)
      ≤ (s.gRlcUeContextList : Multiset β).bind (contextBlocks s) := by
    obtain ⟨rest, hrest⟩ := Multiset.le_iff_exists_add.mp (Multiset.coe_le.mpr hl.subperm)
    rw [hrest, Multiset.add_bind]
    exact Multiset.le_add_right _ _
  refine hle.trans ?_
  have hall : (s.gRlcUeContextList : Multiset β).bind (contextBlocks s)
      = (s.gRlcUeContextList : Multiset β) + (s.entities + s.entities.bind (rawBlock s)) := by
    unfold contextBlocks RlcState.entities
    rw [Multiset.bind_add, Multiset.bind_add, Multiset.bind_singleton, Multiset.map_id',
      Multiset.bind_assoc]
  rw [hall, RlcState.rlcOwned]
  exact Multiset.le_add_left _ _

/-- **A pass**, when the idle counts are the numbers of passes. -/
theorem executeCleanup_cleansIdle {quiet : β → Nat} (g : UInt32) (hs : RlcSound s)
    (hr : RrcSound s.toRrcState (s.rlcOwned + ys)) (hq : Counted s quiet) :
    CleansIdle g s quiet := by
  have hn := contexts_nodup hr
  obtain ⟨hswept, hwalk⟩ := cleanupLoop_swept g s.gRlcUeContextList [] s rfl hn
    fun a ha e he => hs.rings e (mem_entities.mpr ⟨a, ha, he⟩)
  rw [← executeCleanup] at hswept hwalk
  have hexpired : s.gRlcUeContextList.filter (fun a => (s.rlcUeContext a).expired g)
      = s.gRlcUeContextList.filter fun a => decide (g.toNat ≤ quiet a) :=
    List.filter_congr fun a ha => hq.expired ha
  have hlist : (executeCleanup g s).gRlcUeContextList
      = s.gRlcUeContextList.filter fun a => decide (quiet a < g.toNat) := by
    rw [hswept.list, List.nil_append]
    refine List.filter_congr fun a ha => ?_
    rw [hq.expired ha, ← decide_not]
    exact decide_eq_decide.mpr Nat.not_le
  have hmem : Transfer s.mem (executeCleanup g s).mem
      ((s.gRlcUeContextList.filter fun a => decide (g.toNat ≤ quiet a) :
        Multiset β).bind (contextBlocks s)) 0 := by
    rw [← hexpired]
    exact hswept.mem
  obtain ⟨rest, hrest⟩ := Multiset.le_iff_exists_add.mp
    ((contextBlocks_le List.filter_sublist).trans (rlcOwned_le hr))
  have hkeeps := hmem.keeps rest hr.nodup hrest
  have hinUse : (executeCleanup g s).mem.inUse = rest := by
    rw [hkeeps.inUse, zero_add]
  refine ⟨hn, hwalk, hlist, ⟨hr.nodup, ?_⟩, hkeeps.misuses, fun b hb => ?_, fun a ha => ?_,
    hswept.only⟩
  · rw [hinUse, add_comm]
    exact hrest
  · rw [hinUse] at hb
    exact ⟨hkeeps.length b hb, hkeeps.bytes b hb⟩
  · rw [hlist] at ha
    obtain ⟨hmem, hlt⟩ := List.mem_filter.mp ha
    refine hswept.kept a hmem ?_
    rw [hq.expired hmem]
    have := of_decide_eq_true hlt
    exact decide_eq_false (by omega)

theorem CleansIdle.counted {quiet : β → Nat} (h : CleansIdle g s quiet)
    (hq : Counted s quiet) : Counted (executeCleanup g s) fun a => quiet a + 1 := by
  intro a ha
  have hmem := ha
  rw [h.deletes] at hmem
  obtain ⟨hmem, hlt⟩ := List.mem_filter.mp hmem
  have hlt := of_decide_eq_true hlt
  have hidle := hq a hmem
  have hg := g.toNat_lt
  rw [h.counts a ha]
  show ((s.rlcUeContext a).idleCount + 1).toNat = quiet a + 1
  rw [UInt32.toNat_add, UInt32.toNat_one]
  omega

/-! ## The packets -/

/-- From `s` to `t` the context of `rnti` has been found or created, and the other contexts
count as they did. -/
structure Heard (s t : RlcState β) (rnti : UInt16) : Prop where
  zero : ∀ a ∈ t.gRlcUeContextList, (t.rlcUeContext a).rnti = rnti →
    (t.rlcUeContext a).idleCount = 0
  other : ∀ a ∈ t.gRlcUeContextList, (t.rlcUeContext a).rnti ≠ rnti →
    a ∈ s.gRlcUeContextList ∧ (t.rlcUeContext a).idleCount = (s.rlcUeContext a).idleCount

/-- The contexts are the same but for their entities. -/
structure SameCounts (s t : RlcState β) : Prop where
  list : t.gRlcUeContextList = s.gRlcUeContextList
  rnti : ∀ a, (t.rlcUeContext a).rnti = (s.rlcUeContext a).rnti
  idleCount : ∀ a, (t.rlcUeContext a).idleCount = (s.rlcUeContext a).idleCount

theorem SameCounts.of_kept (h : RlcKept s t) : SameCounts s t :=
  ⟨h.gRlcUeContextList, fun a => by rw [h.rlcUeContext], fun a => by rw [h.rlcUeContext]⟩

theorem Heard.after {rnti : UInt16} (h : Heard s t rnti) (h' : SameCounts t u) :
    Heard s u rnti := by
  constructor
  · intro a ha hrnti
    rw [h'.list] at ha
    rw [h'.rnti] at hrnti
    rw [h'.idleCount]
    exact h.zero a ha hrnti
  · intro a ha hrnti
    rw [h'.list] at ha
    rw [h'.rnti] at hrnti
    rw [h'.idleCount]
    exact h.other a ha hrnti

theorem Counted.same {quiet : β → Nat} (h : Counted s quiet) (h' : SameCounts s t) :
    Counted t quiet := by
  intro a ha
  rw [h'.list] at ha
  rw [h'.idleCount]
  exact h a ha

theorem Counted.heard {quiet : β → Nat} {rnti : UInt16} (h : Counted s quiet)
    (h' : Heard s t rnti) :
    Counted t fun a => if (t.rlcUeContext a).rnti = rnti then 0 else quiet a := by
  intro a ha
  simp only
  split
  · rename_i hrnti
    rw [h'.zero a ha hrnti]
    rfl
  · rename_i hrnti
    obtain ⟨hmem, hidle⟩ := h'.other a ha hrnti
    rw [hidle]
    exact h a hmem

theorem rlcContextFor_heard {rnti : UInt16} {o : Option β} (hs : RlcSound s)
    (hr : RrcSound s.toRrcState (s.rlcOwned + ys)) (hc : rlcContextFor env s rnti = (t, o)) :
    Heard s t rnti := by
  unfold rlcContextFor at hc
  cases hg : rlcGetUeContext s rnti with
  | none =>
      have hno : ∀ c ∈ s.gRlcUeContextList, (s.rlcUeContext c).rnti ≠ rnti := fun c hmem => by
        simpa using List.find?_eq_none.mp hg c hmem
      rw [hg] at hc
      simp only at hc
      unfold rlcCreateUeContext at hc
      cases ha : s.alloc env (env.sizeof .rlcUeContext) with
      | mk v o' =>
          have hsame := SameCounts.of_kept (alloc_kept ha)
          have hnone : Heard s s rnti :=
            ⟨fun c hmem hrnti => absurd hrnti (hno c hmem), fun c hmem _ => ⟨hmem, rfl⟩⟩
          have hv := hnone.after hsame
          rw [ha] at hc
          cases o' with
          | none =>
              obtain ⟨rfl, rfl⟩ := Prod.mk.inj hc
              exact hv
          | some b =>
              have hb : b ∉ v.gRlcUeContextList := by
                rw [hsame.list]
                exact fun hmem => (alloc_fresh ha).1 (context_inUse hr hmem)
              obtain ⟨rfl, rfl⟩ := Prod.mk.inj hc
              -- the new context is the last one
              have hmem : ∀ c ∈ (pushContext v b rnti).gRlcUeContextList, c ≠ b →
                  c ∈ v.gRlcUeContextList := fun c hmem hcb =>
                (List.mem_append.mp hmem).resolve_right fun h => hcb (List.mem_singleton.mp h)
              constructor
              · intro c hc hrnti
                by_cases hcb : c = b
                · subst hcb
                  exact congrArg RlcUeContext.idleCount (pushContext_new v c rnti)
                · have hold := pushContext_old v rnti hb (hmem c hc hcb)
                  have hsay := (hold ▸ hrnti : (v.rlcUeContext c).rnti = rnti)
                  rw [hsame.rnti] at hsay
                  exact absurd hsay (hno c (hsame.list ▸ hmem c hc hcb))
              · intro c hc hrnti
                have hcb : c ≠ b := by
                  rintro rfl
                  exact hrnti (congrArg RlcUeContext.rnti (pushContext_new v c rnti))
                have hold := pushContext_old v rnti hb (hmem c hc hcb)
                refine ⟨hsame.list ▸ hmem c hc hcb, ?_⟩
                exact (congrArg RlcUeContext.idleCount hold).trans (hsame.idleCount c)
  | some b =>
      have hb : b ∈ s.gRlcUeContextList := List.mem_of_find?_eq_some hg
      have hbrnti : (s.rlcUeContext b).rnti = rnti := by
        simpa using List.find?_some hg
      have hlive := hs.live b hb
      rw [hg] at hc
      simp only [hlive, Bool.false_eq_true, if_false] at hc
      obtain ⟨rfl, rfl⟩ := Prod.mk.inj hc
      have hself : (rlcUpdateUeContextTime s b 0).rlcUeContext b
          = { s.rlcUeContext b with idleCount := 0 } := Function.update_self ..
      have hother : ∀ c, c ≠ b →
          (rlcUpdateUeContextTime s b 0).rlcUeContext c = s.rlcUeContext c :=
        fun c hcb => Function.update_of_ne hcb _ _
      constructor
      · intro c hc hrnti
        by_cases hcb : c = b
        · rw [hcb, hself]
        · rw [hother c hcb] at hrnti
          exact absurd (List.inj_on_of_nodup_map hs.unique hc hb (hrnti.trans hbrnti.symm)) hcb
      · intro c hc hrnti
        have hcb : c ≠ b := by
          rintro rfl
          rw [hself] at hrnti
          exact hrnti hbrnti
        rw [hother c hcb]
        exact ⟨hc, rfl⟩

theorem rlcEntityFor_same {lcId : Nat} {o : Option β}
    (he : rlcEntityFor env s a lcId = (t, o)) : SameCounts s t := by
  unfold rlcEntityFor at he
  split at he
  · obtain ⟨rfl, rfl⟩ := Prod.mk.inj he
    exact .of_kept (.refl s)
  · unfold rlcCreateRxAmEntity at he
    split at he
    · cases ha : s.alloc env (env.sizeof .rxAMEntity) with
      | mk v o' =>
          have hv := SameCounts.of_kept (alloc_kept ha)
          rw [ha] at he
          cases o' with
          | none =>
              obtain ⟨rfl, rfl⟩ := Prod.mk.inj he
              exact hv
          | some e =>
              obtain ⟨rfl, rfl⟩ := Prod.mk.inj he
              -- of the context, only the array of entities is written to
              have hctx : ∀ c : β, let c' := ((v.setUeContext a { v.rlcUeContext a with
                  rxAmEntityArray := Function.update (v.rlcUeContext a).rxAmEntityArray lcId
                    (some e) }).rlcUeContext c)
                  c'.rnti = (v.rlcUeContext c).rnti ∧
                    c'.idleCount = (v.rlcUeContext c).idleCount := by
                intro c
                unfold RlcState.setUeContext
                by_cases hca : c = a
                · subst hca
                  simp
                · simp [Function.update_of_ne hca]
              exact ⟨hv.list, fun c => (hctx c).1.trans (hv.rnti c),
                fun c => (hctx c).2.trans (hv.idleCount c)⟩
    · obtain ⟨rfl, rfl⟩ := Prod.mk.inj he
      exact .of_kept (.refl s)

/-- **The lookup of the entity** happens for the AMD data PDUs with a valid header. -/
theorem rlcFindEntity_heard {info : RlcUlDataInfo β} {rnti : UInt16}
    {r : Option (β × AmdHeader)} (hs : RlcSound s)
    (hr : RrcSound s.toRrcState (s.rlcOwned + ys))
    (hf : rlcFindEntity env s info rnti = (t, r)) :
    if isDataPdu s info then Heard s t rnti else SameCounts s t := by
  have hsame : SameCounts s s := .of_kept (.refl s)
  unfold rlcFindEntity at hf
  unfold isDataPdu
  by_cases hlc : info.lcId > srb2LcId
  · rw [if_pos hlc] at hf
    obtain ⟨rfl, rfl⟩ := Prod.mk.inj hf
    rw [decide_eq_false (by omega), Bool.false_and]
    exact hsame
  rw [if_neg hlc] at hf
  rw [decide_eq_true (by omega), Bool.true_and]
  cases hd : info.rlcdataBuffer.bind fun b => rlcDecodeAmdHeader (s.mem.bytes b) info.length with
  | none =>
      rw [hd] at hf
      obtain ⟨rfl, rfl⟩ := Prod.mk.inj hf
      exact hsame
  | some h =>
      rw [hd] at hf
      simp only at hf
      by_cases hdc : h.dc = 0
      · rw [if_pos hdc] at hf
        obtain ⟨rfl, rfl⟩ := Prod.mk.inj hf
        simpa [hdc] using hsame
      rw [if_neg hdc] at hf
      have hdata : (some h).any (fun h => decide (h.dc ≠ 0)) = true := by simpa using hdc
      rw [hdata, if_pos rfl]
      cases hc : rlcContextFor env s rnti with
      | mk v o =>
          have hheard := rlcContextFor_heard hs hr hc
          rw [hc] at hf
          cases o with
          | none =>
              obtain ⟨rfl, rfl⟩ := Prod.mk.inj hf
              exact hheard
          | some b =>
              simp only at hf
              cases he : rlcEntityFor env v b info.lcId with
              | mk w o =>
                  have hw := hheard.after (rlcEntityFor_same he)
                  rw [he] at hf
                  cases o with
                  | none =>
                      obtain ⟨rfl, rfl⟩ := Prod.mk.inj hf
                      exact hw
                  | some e =>
                      obtain ⟨rfl, rfl⟩ := Prod.mk.inj hf
                      exact hw

/-- **A packet** resets the idle count of the context that it is for, if it is an AMD data PDU
with a valid header, and leaves the idle counts of the others alone. -/
theorem rlcProcessAmRxPacket_counted {quiet : β → Nat} {info : RlcUlDataInfo β}
    {rnti : UInt16} (hs : RlcSound s) (hr : RrcSound s.toRrcState (s.rlcOwned + ys))
    (hq : Counted s quiet) :
    Counted (rlcProcessAmRxPacket env s info rnti)
      (quietAfter s (rlcProcessAmRxPacket env s info rnti) info rnti quiet) := by
  cases hf : rlcFindEntity env s info rnti with
  | mk t r =>
      have hfound := rlcFindEntity_heard hs hr hf
      have hrest : SameCounts t (rlcProcessAmRxPacket env s info rnti) := by
        rw [rlcProcessAmRxPacket_findEntity, hf]
        cases r with
        | none => exact .of_kept (free?_kept t _)
        | some found =>
            obtain ⟨e, h⟩ := found
            simp only
            unfold rlcProcessAmdPdu
            split
            · exact .of_kept (rlcProcessNewAmdPdu_kept env t e h info)
            · exact .of_kept (rlcProcessNextAmdPdu_kept env t e h info)
      unfold quietAfter
      by_cases hd : isDataPdu s info = true
      · rw [if_pos hd] at hfound
        simp only [hd, true_and]
        exact hq.heard (hfound.after hrest)
      · rw [if_neg hd] at hfound
        simp only [hd]
        exact (hq.same hfound).same hrest

/-! ## The runs -/

/-- What holds in every state of a run. -/
structure RunCounted (s : RlcState β) (pending : List (β × UInt16)) (quiet : β → Nat) :
    Prop where
  rlc : RlcSound s
  rrc : RrcSound s.toRrcState (s.rlcOwned + pendingBlocks pending)
  counted : Counted s quiet

variable {pending : List (β × UInt16)} {quiet : β → Nat}

theorem RunCounted.first (h : FirstState s) : RunCounted s [] fun _ => 0 := by
  refine ⟨h.rlc, ?_, ?_⟩
  · show RrcSound s.toRrcState (s.rlcOwned + 0)
    rw [add_zero]
    exact h.rrc
  · intro a ha
    rw [h.empty] at ha
    cases ha

theorem RunCounted.buffer (h : RunCounted s pending quiet) {n : UInt16} (data : Nat → UInt8)
    (ha : s.alloc env n.toNat = (t, some b)) :
    RunCounted (t.onMem fun m => m.write b data n.toNat) ((b, n) :: pending) quiet := by
  have hw : MemWorks s (t.onMem fun m => m.write b data n.toNat) 0 {b} :=
    (alloc_memWorks ha).seq (.onMem (write_transfer t.mem b data n.toNat))
  have hpending : pendingBlocks ((b, n) :: pending) = {b} + pendingBlocks pending := by
    simp [pendingBlocks]
  have hkept := (alloc_kept ha).trans (onMem_kept t fun m => m.write b data n.toNat)
  obtain ⟨hs, hr⟩ := hw.receives.sound (zero_add _).symm (alloc_extends ha).joins h.rlc h.rrc
  rw [← hpending] at hr
  exact ⟨hs, hr, h.counted.same (.of_kept hkept)⟩

theorem RunCounted.packet (h : RunCounted s pending quiet) {n : UInt16} {lcId : Nat}
    {rnti : UInt16} (hx : (b, n) ∈ pending)
    (hf : (rlcProcessAmRxPacket env s ⟨lcId, n.toNat, some b⟩ rnti).mem.failures
      = s.mem.failures) :
    RunCounted (rlcProcessAmRxPacket env s ⟨lcId, n.toNat, some b⟩ rnti)
      (pending.erase (b, n))
      (quietAfter s (rlcProcessAmRxPacket env s ⟨lcId, n.toNat, some b⟩ rnti)
        ⟨lcId, n.toNat, some b⟩ rnti quiet) := by
  have hreceives := rlcProcessAmRxPacket_receives env s ⟨lcId, n.toNat, some b⟩ rnti
  obtain ⟨hs, hr⟩ := hreceives.sound (pendingBlocks_erase hx) (hreceives.joined hf) h.rlc h.rrc
  rw [zero_add] at hr
  exact ⟨hs, hr, rlcProcessAmRxPacket_counted h.rlc h.rrc h.counted⟩

theorem RunCounted.otherPacket (h : RunCounted s pending quiet) {n : UInt16}
    (hx : (b, n) ∈ pending) : RunCounted (s.free b) (pending.erase (b, n)) quiet := by
  obtain ⟨hs, hr⟩ := (free_receives s b).sound (pendingBlocks_erase hx) rfl h.rlc h.rrc
  rw [zero_add] at hr
  exact ⟨hs, hr, h.counted.same (.of_kept (free_kept s b))⟩

theorem RunCounted.cleanup (h : RunCounted s pending quiet) (g : UInt32) :
    RunCounted (executeCleanup g s) pending fun a => quiet a + 1 := by
  have hcleans := executeCleanup_cleansIdle g h.rlc h.rrc h.counted
  have hshrinks := executeCleanup_shrinks g (contexts_nodup h.rrc)
  obtain ⟨hs, hr⟩ :=
    (executeCleanup_receives g s).sound (zero_add _).symm hshrinks.joins h.rlc h.rrc
  rw [zero_add] at hr
  exact ⟨hs, hr, hcleans.counted h.counted⟩

/-- **Runs.** The idle count of a context is the number of passes since it was created or got
its last data PDU. -/
theorem run_counts (h : CleanerRun env s pending quiet) : RunCounted s pending quiet := by
  induction h with
  | first hs => exact .first hs
  | buffer _ ha data ih => exact ih.buffer data ha
  | packet lcId rnti _ hx hf ih => exact ih.packet hx hf
  | noPacket lcId n rnti _ ih =>
      rw [rlcProcessAmRxPacket_noData]
      exact ih
  | otherPacket lcId _ hx ih => exact ih.otherPacket hx
  | cleanup g _ ih => exact ih.cleanup g

end Rules

/-- **The cleaner removes exactly the idle contexts**: in every run, at every pass. -/
theorem run_cleansIdle (env : Platform β) (s : RlcState β) (pending : List (β × UInt16))
    (quiet : β → Nat) (h : CleanerRun env s pending quiet) (gMaxIdleCount : UInt32) :
    CleansIdle gMaxIdleCount s quiet :=
  executeCleanup_cleansIdle gMaxIdleCount (run_counts h).rlc (run_counts h).rrc
    (run_counts h).counted

/-- A buffer is allocated and handed over as a packet for SRB 1 of the RNTI 61. -/
theorem CleanerRun.srb1 {env : Platform Nat} {s : RlcState Nat} {quiet : Nat → Nat}
    (hrun : CleanerRun env s [] quiet) (n : UInt16) (data : Nat → UInt8)
    (ha : (s.alloc env n.toNat).2.isSome)
    (hf : (afterSrb1 env s n data).mem.failures = (packetState env s n data).mem.failures) :
    ∃ quiet', CleanerRun env (afterSrb1 env s n data) [] quiet' := by
  obtain ⟨b, hblock, hb, hstate⟩ := packet_of_alloc data ha
  have h1 := hrun.buffer hb data
  rw [← hstate] at h1
  rw [afterSrb1, hblock] at hf ⊢
  have h2 := h1.packet 1 61 List.mem_cons_self hf
  rw [List.erase_cons_head] at h2
  exact ⟨_, h2⟩

/-- A context with an incomplete SDU, which is deleted in the second pass. -/
theorem run_cleansIdle_secondPass :
    ∃ (s : RlcState Nat) (quiet : Nat → Nat), CleansIdle 1 s quiet ∧
      s.gRlcUeContextList.length = 1 ∧ s.mem.inUse.card = 3 ∧
      ∀ a ∈ s.gRlcUeContextList, (s.rlcUeContext a).idleCount = 1 := by
  have h0 : CleanerRun (poolPlatform fun _ => false) emptyState [] fun _ => 0 :=
    .first emptyState_first
  obtain ⟨quiet, h1⟩ := h0.srb1 122 startPdu (by decide +kernel) (by decide +kernel)
  exact ⟨_, _, run_cleansIdle _ _ _ _ (h1.cleanup 1) 1, by decide +kernel, by decide +kernel,
    by decide +kernel⟩

end LteUlp.Rlc
