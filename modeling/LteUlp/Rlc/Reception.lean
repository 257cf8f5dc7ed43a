import LteUlp.Rlc.Decoding

set_option autoImplicit false
set_option linter.unusedSectionVars false

/-! # Reception of packets

The RLC layer holds its UE contexts, their AM entities and the incomplete SDUs, over the
contexts of the MAC layer. `RlcSound` says that the contexts have different RNTIs, that none
is pending deletion, that each entity knows its context and channel, and that the rings are
empty between two packets. The blocks are accounted for by `RrcSound`, in which those of this
layer are blocks in hand; so no two contexts share an entity.
-/

namespace LteUlp.Rlc

open BlockStore LteUlp.Rrc LteUlp.Mac LteUlp.Pdcp RlcSduStatus

variable {β : Type} [DecidableEq β] {env : Platform β}

/-! ## What the layer holds -/

/-- The entities of a context. -/
def RlcUeContext.entities (c : RlcUeContext β) : Multiset β :=
  ((List.range maxLcId).filterMap c.rxAmEntityArray : List β)

/-- The entities of all contexts. -/
def RlcState.entities (s : RlcState β) : Multiset β :=
  (s.gRlcUeContextList : Multiset β).bind fun a => (s.rlcUeContext a).entities

/-- The blocks of the layer and of the one below: contexts, entities and incomplete SDUs. -/
def RlcState.rlcOwned (s : RlcState β) : Multiset β :=
  (s.gMacUeContext : Multiset β)
    + ((s.gRlcUeContextList : Multiset β) + (s.entities + s.entities.bind (rawBlock s)))

/-- The contexts are sound, and the rings of their entities are empty. -/
structure RlcSound (s : RlcState β) : Prop where
  mac : MacSound s.toMacState
  live : ∀ a ∈ s.gRlcUeContextList, (s.rlcUeContext a).deleteFlag = false
  unique : (s.gRlcUeContextList.map fun a => (s.rlcUeContext a).rnti).Nodup
  entity : ∀ a ∈ s.gRlcUeContextList, ∀ i e, (s.rlcUeContext a).rxAmEntityArray i = some e →
    i < maxLcId ∧ (s.rxAmEntity e).rnti = (s.rlcUeContext a).rnti ∧ (s.rxAmEntity e).lcId = i
  rings : ∀ e ∈ s.entities, ∀ k, (s.rxAmEntity e).amdPduRing k = ⟨.free, none⟩

section Rules

variable {s s' t : RlcState β} {a b e : β} {o : Option β} {xs ys : Multiset β} {rnti : UInt16}

theorem mem_contextEntities {c : RlcUeContext β} :
    e ∈ c.entities ↔ ∃ i < maxLcId, c.rxAmEntityArray i = some e := by
  unfold RlcUeContext.entities
  rw [Multiset.mem_coe, List.mem_filterMap]
  simp

theorem mem_entities :
    e ∈ s.entities ↔ ∃ a ∈ s.gRlcUeContextList, e ∈ (s.rlcUeContext a).entities := by
  unfold RlcState.entities
  rw [Multiset.mem_bind]
  rfl

theorem macContexts_le_rlcOwned (s : RlcState β) :
    (s.gMacUeContext : Multiset β) ≤ s.rlcOwned := Multiset.le_add_right _ _

theorem contexts_le_rlcOwned (s : RlcState β) :
    (s.gRlcUeContextList : Multiset β) ≤ s.rlcOwned :=
  le_trans (Multiset.le_add_right _ _) (Multiset.le_add_left _ _)

theorem entities_le_rlcOwned (s : RlcState β) : s.entities ≤ s.rlcOwned := by
  unfold RlcState.rlcOwned
  rw [add_left_comm (s.gRlcUeContextList : Multiset β), add_left_comm]
  exact Multiset.le_add_right _ _

/-- Blocks in hand are in use, each once. -/
theorem inHand_le {r : RrcState β} (h : RrcSound r xs) : xs ≤ r.mem.inUse :=
  le_trans (Multiset.le_add_left _ _) h.owned

theorem rlcOwned_le (h : RrcSound s.toRrcState (s.rlcOwned + ys)) :
    s.rlcOwned ≤ s.mem.inUse := inHand_le h.drop

theorem contexts_nodup (h : RrcSound s.toRrcState (s.rlcOwned + ys)) :
    s.gRlcUeContextList.Nodup :=
  Multiset.coe_nodup.mp (Multiset.nodup_of_le
    (le_trans (contexts_le_rlcOwned s) (rlcOwned_le h)) h.nodup)

theorem entities_nodup (h : RrcSound s.toRrcState (s.rlcOwned + ys)) : s.entities.Nodup :=
  Multiset.nodup_of_le (le_trans (entities_le_rlcOwned s) (rlcOwned_le h)) h.nodup

theorem context_inUse (h : RrcSound s.toRrcState (s.rlcOwned + ys))
    (ha : a ∈ s.gRlcUeContextList) : a ∈ s.mem.inUse :=
  Multiset.mem_of_le (le_trans (contexts_le_rlcOwned s) (rlcOwned_le h)) ha

theorem entity_inUse (h : RrcSound s.toRrcState (s.rlcOwned + ys)) (he : e ∈ s.entities) :
    e ∈ s.mem.inUse :=
  Multiset.mem_of_le (le_trans (entities_le_rlcOwned s) (rlcOwned_le h)) he

/-- What the layer holds is read off from its list, the entities of the contexts in it, and
their incomplete SDUs. -/
theorem rlcOwned_congr (hm : t.gMacUeContext = s.gMacUeContext)
    (hl : t.gRlcUeContextList = s.gRlcUeContextList)
    (hc : ∀ a ∈ s.gRlcUeContextList, (t.rlcUeContext a).entities = (s.rlcUeContext a).entities)
    (hraw : ∀ e ∈ s.entities, rawBlock t e = rawBlock s e) :
    t.entities = s.entities ∧ t.rlcOwned = s.rlcOwned := by
  have hent : t.entities = s.entities := by
    unfold RlcState.entities
    rw [hl]
    exact Multiset.bind_congr fun a ha => hc a ha
  refine ⟨hent, ?_⟩
  unfold RlcState.rlcOwned
  rw [hm, hl, hent, Multiset.bind_congr hraw]

/-! ## Steps -/

/-- What a step from a sound state establishes. -/
structure Received (s t : RlcState β) (xs ys : Multiset β) : Prop where
  sound : RlcSound t
  leaves : Leaves s t (s.rlcOwned + xs) (t.rlcOwned + ys)

/-- **A step of the reception**: as long as no join is refused, the blocks `xs` in hand turn
into `ys`, whatever else, `f`, is in hand. -/
structure Receives (s t : RlcState β) (xs ys : Multiset β) : Prop extends Grows s t where
  after : t.refusedJoins = s.refusedJoins → ∀ f, RlcSound s →
    RrcSound s.toRrcState (s.rlcOwned + (xs + f)) → Received s t xs ys

theorem Received.rrcSound {f : Multiset β} (h : Received s t xs ys)
    (hj : t.refusedJoins = s.refusedJoins)
    (hr : RrcSound s.toRrcState (s.rlcOwned + (xs + f))) :
    RrcSound t.toRrcState (t.rlcOwned + (ys + f)) ∧
      t.pendingDeletions = s.pendingDeletions := by
  rw [← add_assoc] at hr ⊢
  exact (h.leaves.frame f).sound hj hr

/-- **The layers stay sound** when no join is refused. In hand are the blocks `xs`, which turn
into `ys`, and others. -/
theorem Receives.sound {f blocks : Multiset β} (h : Receives s t xs ys)
    (hblocks : blocks = xs + f) (hj : t.refusedJoins = s.refusedJoins) (hs : RlcSound s)
    (hr : RrcSound s.toRrcState (s.rlcOwned + blocks)) :
    RlcSound t ∧ RrcSound t.toRrcState (t.rlcOwned + (ys + f)) := by
  rw [hblocks] at hr
  have hafter := h.after hj f hs hr
  exact ⟨hafter.sound, (hafter.rrcSound hj hr).1⟩

theorem Receives.seq {u : RlcState β} {zs : Multiset β} (h : Receives s t xs ys)
    (h' : Receives t u ys zs) : Receives s u xs zs := by
  refine ⟨h.toGrows.trans h'.toGrows, fun hj f hs hr => ?_⟩
  have hle := h.joins
  have hle' := h'.joins
  have h1 := h.after (by omega) f hs hr
  have h2 := h'.after (by omega) f h1.sound (h1.rrcSound (by omega) hr).1
  exact ⟨h2.sound, h1.leaves.seq h2.leaves⟩

theorem Receives.frame (h : Receives s t xs ys) (f : Multiset β) :
    Receives s t (xs + f) (ys + f) := by
  refine ⟨h.toGrows, fun hj f' hs hr => ?_⟩
  have h1 := h.after hj (f + f') hs (by rwa [← add_assoc xs])
  have hl := h1.leaves.frame f
  rw [add_assoc, add_assoc] at hl
  exact ⟨h1.sound, hl⟩

theorem Receives.congr {xs' ys' : Multiset β} (h : Receives s t xs ys) (hx : xs = xs')
    (hy : ys = ys') : Receives s t xs' ys' := hx ▸ hy ▸ h

theorem Receives.trans {u : RlcState β} {ys' f zs : Multiset β} (h : Receives s t xs ys)
    (h' : Receives t u ys' zs) (hy : ys = ys' + f) : Receives s u xs (zs + f) :=
  (hy ▸ h).seq (h'.frame f)

theorem Receives.refl (s : RlcState β) (xs : Multiset β) : Receives s s xs xs :=
  ⟨.refl s, fun _ _ hs _ => ⟨hs, .refl s _⟩⟩

/-- A step that is sound whenever it starts from a sound state. -/
theorem Receives.of_leaves (hl : Leaves s t (s.rlcOwned + xs) (t.rlcOwned + ys))
    (hs : RlcSound s → RlcSound t) : Receives s t xs ys :=
  ⟨hl.toGrows, fun _ _ h _ => ⟨hs h, hl⟩⟩

/-- A change of the memory only. -/
theorem RlcSound.onMem (hs : RlcSound s) (f : Store β → Store β) : RlcSound (s.onMem f) :=
  ⟨hs.mac.same rfl fun _ _ => ⟨rfl, rfl⟩, hs.live, hs.unique, hs.entity, hs.rings⟩

theorem OnlyMem.sound (h : OnlyMem s t) (hs : RlcSound s) : RlcSound t := by
  rw [h]
  exact ⟨hs.mac.same rfl fun _ _ => ⟨rfl, rfl⟩, hs.live, hs.unique, hs.entity, hs.rings⟩

theorem MemWorks.receives (hw : MemWorks s t xs ys) : Receives s t xs ys := by
  have hl : Leaves s t (xs + s.rlcOwned) (ys + t.rlcOwned) := by
    have hown : t.rlcOwned = s.rlcOwned := by
      rw [hw.only]
      rfl
    rw [hown]
    exact (hw.leaves).frame s.rlcOwned
  exact .of_leaves (hl.congr (add_comm _ _) (add_comm _ _)) hw.only.sound

theorem Receives.onMem {f : Store β → Store β} (h : Transfer s.mem (f s.mem) xs ys) :
    Receives s (s.onMem f) xs ys := (MemWorks.onMem h).receives

theorem free?_receives (s : RlcState β) (o : Option β) : Receives s (s.free? o) (blockOf o) 0 :=
  .onMem (release?_transfer s.mem o)

theorem free_receives (s : RlcState β) (b : β) : Receives s (s.free b) {b} 0 :=
  .onMem (release_transfer s.mem b)

/-! ## Contexts -/

/-- A context that is new has no entities. -/
theorem entities_empty (idle : UInt32) (flag : Bool) (rnti : UInt16) :
    (RlcUeContext.mk idle flag rnti fun _ => (none : Option β)).entities = 0 := by
  unfold RlcUeContext.entities
  rw [List.filterMap_none]
  rfl

/-- A new context at the end of the list. -/
def pushContext (s : RlcState β) (b : β) (rnti : UInt16) : RlcState β :=
  { s.setUeContext b ⟨0, false, rnti, fun _ => none⟩ with
    gRlcUeContextList := s.gRlcUeContextList ++ [b] }

theorem pushContext_old (s : RlcState β) (rnti : UInt16) (hb : b ∉ s.gRlcUeContextList)
    (ha : a ∈ s.gRlcUeContextList) :
    (pushContext s b rnti).rlcUeContext a = s.rlcUeContext a :=
  Function.update_of_ne (ne_of_mem_of_not_mem ha hb) _ _

theorem pushContext_new (s : RlcState β) (b : β) (rnti : UInt16) :
    (pushContext s b rnti).rlcUeContext b = ⟨0, false, rnti, fun _ => none⟩ :=
  Function.update_self ..

theorem pushContext_entities (s : RlcState β) (rnti : UInt16)
    (hb : b ∉ s.gRlcUeContextList) : (pushContext s b rnti).entities = s.entities := by
  unfold RlcState.entities
  show ((s.gRlcUeContextList ++ [b] : List β) : Multiset β).bind _ = _
  rw [← Multiset.coe_add, Multiset.add_bind, Multiset.coe_singleton, Multiset.singleton_bind,
    pushContext_new, entities_empty, add_zero]
  exact Multiset.bind_congr fun c hc => by rw [pushContext_old s rnti hb hc]

theorem pushContext_owned (s : RlcState β) (rnti : UInt16) (hb : b ∉ s.gRlcUeContextList) :
    (pushContext s b rnti).rlcOwned = {b} + s.rlcOwned := by
  have hraw : s.entities.bind (rawBlock (pushContext s b rnti))
      = s.entities.bind (rawBlock s) := rfl
  unfold RlcState.rlcOwned
  rw [pushContext_entities s rnti hb, hraw]
  show (s.gMacUeContext : Multiset β)
    + (((s.gRlcUeContextList ++ [b] : List β) : Multiset β) + _) = _
  rw [← Multiset.coe_add, Multiset.coe_singleton]
  ac_rfl

theorem pushContext_sound (hs : RlcSound s) (hb : b ∉ s.gRlcUeContextList)
    (hnone : rlcGetUeContext s rnti = none) : RlcSound (pushContext s b rnti) := by
  have hmem : ∀ c ∈ (pushContext s b rnti).gRlcUeContextList,
      c ∈ s.gRlcUeContextList ∨ c = b := fun c hc => by
    simpa using List.mem_append.mp hc
  constructor
  · exact hs.mac.same rfl fun _ _ => ⟨rfl, rfl⟩
  · intro c hc
    rcases hmem c hc with hc | rfl
    · rw [pushContext_old s rnti hb hc]
      exact hs.live c hc
    · rw [pushContext_new]
  · have hmap : (s.gRlcUeContextList.map fun c => ((pushContext s b rnti).rlcUeContext c).rnti)
        = s.gRlcUeContextList.map fun c => (s.rlcUeContext c).rnti :=
      List.map_congr_left fun c hc => by rw [pushContext_old s rnti hb hc]
    show ((s.gRlcUeContextList ++ [b]).map _).Nodup
    rw [List.map_append, hmap, List.map_singleton, pushContext_new]
    refine List.nodup_append.mpr ⟨hs.unique, by simp, ?_⟩
    rintro x hx y hy rfl
    obtain ⟨c, hc, hcx⟩ := List.mem_map.mp hx
    rw [List.mem_singleton] at hy
    have hall := List.find?_eq_none.mp hnone c hc
    exact hall (by rw [hcx, hy]; exact beq_self_eq_true rnti)
  · intro c hc i e he
    rcases hmem c hc with hc | rfl
    · rw [pushContext_old s rnti hb hc] at he ⊢
      exact hs.entity c hc i e he
    · rw [pushContext_new] at he
      simp at he
  · intro e he k
    rw [pushContext_entities s rnti hb] at he
    exact hs.rings e he k

/-- A refused allocation. -/
theorem alloc_none_receives {n : Nat} (h : s.alloc env n = (t, none)) : Receives s t 0 0 := by
  have ht := alloc_transfer env.toPolicy s.mem n
  have hm : (s.alloc env n).1.mem = t.mem := by rw [h]
  have h2 : (s.mem.alloc env.toPolicy n).2 = none := congrArg Prod.snd h
  rw [alloc_onMem h]
  refine .onMem ?_
  rw [h2] at ht
  exact hm ▸ ht

theorem rlcCreateUeContext_receives (hnone : rlcGetUeContext s rnti = none)
    (h : rlcCreateUeContext env s rnti = (t, o)) :
    Receives s t 0 0 ∧ ∀ a, o = some a → a ∈ t.gRlcUeContextList := by
  unfold rlcCreateUeContext at h
  cases ha : s.alloc env (env.sizeof .rlcUeContext) with
  | mk u o' =>
      have hl := (alloc_leaves ha).frame s.rlcOwned
      rw [ha] at h
      cases o' with
      | none =>
          obtain ⟨rfl, rfl⟩ := Prod.mk.inj h
          exact ⟨alloc_none_receives ha, by simp⟩
      | some b =>
          rw [alloc_onMem ha, zero_add] at hl
          rw [alloc_onMem ha] at h
          have hpush : Leaves (s.onMem fun _ => u.mem)
              (pushContext (s.onMem fun _ => u.mem) b rnti) ({b} + s.rlcOwned)
              ({b} + s.rlcOwned) := by
            apply Leaves.of_rrc <;> rfl
          have hboth := hl.seq hpush
          obtain ⟨rfl, rfl⟩ := Prod.mk.inj h
          refine ⟨⟨hboth.toGrows, fun _ f hs hr => ?_⟩, ?_⟩
          · have hb : b ∉ s.gRlcUeContextList := fun h =>
              (alloc_fresh ha).1 (context_inUse hr h)
            have howned := pushContext_owned (s.onMem fun _ => u.mem) rnti hb
            refine ⟨pushContext_sound (hs.onMem _) hb hnone, ?_⟩
            refine hboth.congr (add_zero _).symm ?_
            rw [add_zero]
            exact howned.symm
          · rintro c hc
            obtain rfl := Option.some.inj hc
            simp

/-- Writing to the idle count of a context. -/
theorem rlcUpdateUeContextTime_receives (s : RlcState β) (b : β) (value : UInt32)
    (xs : Multiset β) : Receives s (rlcUpdateUeContextTime s b value) xs xs := by
  have hctx : ∀ c, let c' := (rlcUpdateUeContextTime s b value).rlcUeContext c
      c'.deleteFlag = (s.rlcUeContext c).deleteFlag ∧ c'.rnti = (s.rlcUeContext c).rnti ∧
        c'.rxAmEntityArray = (s.rlcUeContext c).rxAmEntityArray := by
    intro c
    unfold rlcUpdateUeContextTime RlcState.setUeContext
    by_cases hcb : c = b
    · subst hcb
      simp
    · simp [Function.update_of_ne hcb]
  have hctxEnt : ∀ c ∈ s.gRlcUeContextList,
      ((rlcUpdateUeContextTime s b value).rlcUeContext c).entities
        = (s.rlcUeContext c).entities := by
    intro c _
    unfold RlcUeContext.entities
    rw [(hctx c).2.2]
  obtain ⟨hent, howned⟩ := rlcOwned_congr (s := s) (t := rlcUpdateUeContextTime s b value) rfl
    rfl hctxEnt fun _ _ => rfl
  refine .of_leaves ?_ fun hs => ⟨hs.mac.same rfl fun _ _ => ⟨rfl, rfl⟩, ?_, ?_, ?_, ?_⟩
  · rw [howned]
    apply Leaves.of_rrc <;> rfl
  · exact fun c hc => ((hctx c).1).trans (hs.live c hc)
  · show (s.gRlcUeContextList.map _).Nodup
    rw [List.map_congr_left fun c _ => (hctx c).2.1]
    exact hs.unique
  · intro c hc i e he
    rw [(hctx c).2.2] at he
    rw [(hctx c).2.1]
    exact hs.entity c hc i e he
  · intro e he k
    rw [hent] at he
    exact hs.rings e he k

/-- **The context for a packet**: found or created, so none is pending deletion. -/
theorem rlcContextFor_receives (h : rlcContextFor env s rnti = (t, o)) :
    Receives s t 0 0 ∧ ∀ a, o = some a → a ∈ t.gRlcUeContextList := by
  unfold rlcContextFor at h
  cases hg : rlcGetUeContext s rnti with
  | none =>
      rw [hg] at h
      exact rlcCreateUeContext_receives hg h
  | some b =>
      have hb : b ∈ s.gRlcUeContextList := List.mem_of_find?_eq_some hg
      rw [hg] at h
      simp only at h
      by_cases hd : (s.rlcUeContext b).deleteFlag = true
      · rw [if_pos hd] at h
        obtain ⟨rfl, rfl⟩ := Prod.mk.inj h
        refine ⟨⟨⟨le_rfl, le_rfl, fun _ => rfl⟩, fun _ f hs _ => ?_⟩, by simp⟩
        have hlive := hs.live b hb
        rw [hd] at hlive
        exact absurd hlive (by decide)
      · rw [if_neg hd] at h
        obtain ⟨rfl, rfl⟩ := Prod.mk.inj h
        refine ⟨rlcUpdateUeContextTime_receives s b 0 0, fun a ha => ?_⟩
        obtain rfl := Option.some.inj ha
        exact hb

/-! ## Entities -/

/-- Another entity in the array of a context. -/
theorem entities_update (c : RlcUeContext β) {i : Nat} (hi : i < maxLcId)
    (hnone : c.rxAmEntityArray i = none) (e : β) :
    RlcUeContext.entities
        { c with rxAmEntityArray := Function.update c.rxAmEntityArray i (some e) }
      = {e} + c.entities := by
  unfold RlcUeContext.entities
  obtain ⟨l, l', hl⟩ := List.append_of_mem (List.mem_range.mpr hi)
  have hnd := List.nodup_range (n := maxLcId)
  rw [hl] at hnd
  have hnot : i ∉ l ∧ i ∉ l' := by
    have h1 := (List.nodup_cons.mp (List.nodup_middle.mp hnd)).1
    simpa using h1
  have hkeep : ∀ k : List Nat, i ∉ k →
      k.filterMap (Function.update c.rxAmEntityArray i (some e))
        = k.filterMap c.rxAmEntityArray := fun k hk =>
    List.filterMap_congr fun j hj =>
      Function.update_of_ne (ne_of_mem_of_not_mem hj hk) _ _
  rw [hl, List.filterMap_append, List.filterMap_append,
    List.filterMap_cons_some (Function.update_self i (some e) c.rxAmEntityArray),
    List.filterMap_cons_none hnone, hkeep l hnot.1, hkeep l' hnot.2, Multiset.singleton_add,
    Multiset.cons_coe]
  exact Multiset.coe_eq_coe.mpr List.perm_middle

/-- A new entity of a context. -/
def addEntity (s : RlcState β) (a : β) (lcId : Nat) (e : β) : RlcState β :=
  let c := s.rlcUeContext a
  (s.setUeContext a
    { c with rxAmEntityArray := Function.update c.rxAmEntityArray lcId (some e) }).setEntity e
      (.fresh c.rnti lcId)

theorem addEntity_context_ne (s : RlcState β) (lcId : Nat) (e : β) (h : b ≠ a) :
    (addEntity s a lcId e).rlcUeContext b = s.rlcUeContext b := Function.update_of_ne h _ _

theorem addEntity_context (s : RlcState β) (a : β) (lcId : Nat) (e : β) :
    (addEntity s a lcId e).rlcUeContext a = { s.rlcUeContext a with
      rxAmEntityArray := Function.update (s.rlcUeContext a).rxAmEntityArray lcId (some e) } :=
  Function.update_self ..

theorem addEntity_entity (s : RlcState β) (a : β) (lcId : Nat) (e : β) :
    (addEntity s a lcId e).rxAmEntity e = .fresh (s.rlcUeContext a).rnti lcId :=
  Function.update_self ..

theorem addEntity_entity_ne (s : RlcState β) (a : β) (lcId : Nat) (h : b ≠ e) :
    (addEntity s a lcId e).rxAmEntity b = s.rxAmEntity b := Function.update_of_ne h _ _

variable {lcId : Nat}

theorem addEntity_entities (hn : s.gRlcUeContextList.Nodup) (ha : a ∈ s.gRlcUeContextList)
    (hlc : lcId < maxLcId) (hnone : (s.rlcUeContext a).rxAmEntityArray lcId = none) (e : β) :
    (addEntity s a lcId e).entities = {e} + s.entities := by
  unfold RlcState.entities
  show (s.gRlcUeContextList : Multiset β).bind _ = _
  obtain ⟨rest, hrest⟩ := Multiset.exists_cons_of_mem (Multiset.mem_coe.mpr ha)
  have hnot : a ∉ rest := by
    have h1 := Multiset.coe_nodup.mpr hn
    rw [hrest] at h1
    exact (Multiset.nodup_cons.mp h1).1
  rw [hrest, Multiset.cons_bind, Multiset.cons_bind, addEntity_context,
    entities_update _ hlc hnone, Multiset.bind_congr fun b hb => by
      rw [addEntity_context_ne s lcId e (ne_of_mem_of_not_mem hb hnot)]]
  exact add_assoc _ _ _

theorem addEntity_owned (hn : s.gRlcUeContextList.Nodup) (ha : a ∈ s.gRlcUeContextList)
    (hlc : lcId < maxLcId) (hnone : (s.rlcUeContext a).rxAmEntityArray lcId = none)
    (he : e ∉ s.entities) : (addEntity s a lcId e).rlcOwned = {e} + s.rlcOwned := by
  have hnew : rawBlock (addEntity s a lcId e) e = 0 := by
    unfold rawBlock
    rw [addEntity_entity]
    rfl
  have hold : s.entities.bind (rawBlock (addEntity s a lcId e)) = s.entities.bind (rawBlock s) :=
    Multiset.bind_congr fun b hb => by
      unfold rawBlock
      rw [addEntity_entity_ne s a lcId (ne_of_mem_of_not_mem hb he)]
  unfold RlcState.rlcOwned
  rw [addEntity_entities hn ha hlc hnone, Multiset.add_bind, Multiset.singleton_bind, hnew,
    zero_add, hold]
  show (s.gMacUeContext : Multiset β) + ((s.gRlcUeContextList : Multiset β) + _) = _
  ac_rfl

theorem addEntity_sound (hs : RlcSound s) (hn : s.gRlcUeContextList.Nodup)
    (ha : a ∈ s.gRlcUeContextList) (hlc : lcId < maxLcId)
    (hnone : (s.rlcUeContext a).rxAmEntityArray lcId = none) (he : e ∉ s.entities) :
    RlcSound (addEntity s a lcId e) := by
  have hflag : ∀ c, ((addEntity s a lcId e).rlcUeContext c).deleteFlag
      = (s.rlcUeContext c).deleteFlag ∧ ((addEntity s a lcId e).rlcUeContext c).rnti
      = (s.rlcUeContext c).rnti := by
    intro c
    by_cases hca : c = a
    · subst hca
      rw [addEntity_context]
      exact ⟨rfl, rfl⟩
    · rw [addEntity_context_ne s lcId e hca]
      exact ⟨rfl, rfl⟩
  constructor
  · exact hs.mac.same rfl fun _ _ => ⟨rfl, rfl⟩
  · exact fun c hc => (hflag c).1.trans (hs.live c hc)
  · show (s.gRlcUeContextList.map _).Nodup
    rw [List.map_congr_left fun c _ => (hflag c).2]
    exact hs.unique
  · intro c hc i x hx
    rw [(hflag c).2]
    -- an entity that was there before
    have old : (s.rlcUeContext c).rxAmEntityArray i = some x →
        i < maxLcId ∧ ((addEntity s a lcId e).rxAmEntity x).rnti = (s.rlcUeContext c).rnti ∧
          ((addEntity s a lcId e).rxAmEntity x).lcId = i := by
      intro hold
      have h1 := hs.entity c hc i x hold
      have hxe : x ≠ e := by
        rintro rfl
        exact he (mem_entities.mpr ⟨c, hc, mem_contextEntities.mpr ⟨i, h1.1, hold⟩⟩)
      rw [addEntity_entity_ne s a lcId hxe]
      exact h1
    by_cases hca : c = a
    · subst hca
      rw [addEntity_context] at hx
      by_cases hi : i = lcId
      · subst hi
        simp only [Function.update_self, Option.some.injEq] at hx
        subst hx
        rw [addEntity_entity]
        exact ⟨hlc, rfl, rfl⟩
      · simp only [Function.update_of_ne hi] at hx
        exact old hx
    · rw [addEntity_context_ne s lcId e hca] at hx
      exact old hx
  · intro x hx k
    rw [addEntity_entities hn ha hlc hnone, Multiset.mem_add, Multiset.mem_singleton] at hx
    by_cases hxe : x = e
    · subst hxe
      rw [addEntity_entity]
      rfl
    · rw [addEntity_entity_ne s a lcId hxe]
      exact hs.rings x (hx.resolve_left hxe) k

/-- **The entity for a packet**, found or created. -/
theorem rlcEntityFor_receives (ha : a ∈ s.gRlcUeContextList) (hlc : lcId < maxLcId)
    (h : rlcEntityFor env s a lcId = (t, o)) :
    Receives s t 0 0 ∧ ∀ e, o = some e → e ∈ t.entities := by
  unfold rlcEntityFor rlcGetRxAmEntity at h
  rw [if_pos hlc] at h
  cases hg : (s.rlcUeContext a).rxAmEntityArray lcId with
  | some x =>
      rw [hg] at h
      obtain ⟨rfl, rfl⟩ := Prod.mk.inj h
      refine ⟨.refl s 0, fun e he => ?_⟩
      obtain rfl := Option.some.inj he
      exact mem_entities.mpr ⟨a, ha, mem_contextEntities.mpr ⟨lcId, hlc, hg⟩⟩
  | none =>
      rw [hg] at h
      simp only [rlcCreateRxAmEntity, if_pos hlc] at h
      cases halloc : s.alloc env (env.sizeof .rxAMEntity) with
      | mk u o' =>
          have hl := (alloc_leaves halloc).frame s.rlcOwned
          rw [halloc] at h
          cases o' with
          | none =>
              obtain ⟨rfl, rfl⟩ := Prod.mk.inj h
              exact ⟨alloc_none_receives halloc, by simp⟩
          | some x =>
              rw [alloc_onMem halloc, zero_add] at hl
              rw [alloc_onMem halloc] at h
              have hadd : Leaves (s.onMem fun _ => u.mem)
                  (addEntity (s.onMem fun _ => u.mem) a lcId x) ({x} + s.rlcOwned)
                  ({x} + s.rlcOwned) := by
                apply Leaves.of_rrc <;> rfl
              have hboth := hl.seq hadd
              obtain ⟨rfl, rfl⟩ := Prod.mk.inj h
              refine ⟨⟨hboth.toGrows, fun _ f hs hr => ?_⟩, fun e he => ?_⟩
              · have hx : x ∉ s.entities := fun h =>
                  (alloc_fresh halloc).1 (entity_inUse hr h)
                have hn := contexts_nodup hr
                have howned := addEntity_owned (s := s.onMem fun _ => u.mem) hn ha hlc hg hx
                refine ⟨addEntity_sound (hs.onMem _) hn ha hlc hg hx, ?_⟩
                refine hboth.congr (add_zero _).symm ?_
                rw [add_zero]
                exact howned.symm
              · obtain rfl := Option.some.inj he
                refine mem_entities.mpr ⟨a, ha, mem_contextEntities.mpr ⟨lcId, hlc, ?_⟩⟩
                show ((addEntity (s.onMem fun _ => u.mem) a lcId x).rlcUeContext
                  a).rxAmEntityArray lcId = some x
                rw [addEntity_context]
                exact Function.update_self ..

/-! ## Packets -/

theorem setRing_leaves (s : RlcState β) (e : β) (k : Nat) (node : RingNode β)
    (xs : Multiset β) : Leaves s (s.setRing e k node) xs xs := by
  apply Leaves.of_rrc <;> rfl

theorem rawBlock_setRing (s : RlcState β) (e : β) (k : Nat) (node : RingNode β) :
    rawBlock (s.setRing e k node) e = rawBlock s e := by
  simp [rawBlock, RlcState.setRing, RlcState.setEntity]

/-! ### Decoding -/

/-- The PDU keeps its address. -/
theorem rlcDecodeAmdPdu_addr {pdu p : AmdPdu β} {h : AmdHeader} {info : RlcUlDataInfo β}
    (hd : rlcDecodeAmdPdu env s pdu h info = (t, some p)) : p.addr = pdu.addr := by
  unfold rlcDecodeAmdPdu at hd
  simp only at hd
  split at hd
  · simp at hd
  split at hd
  · simp at hd
  split at hd
  · split at hd
    · simp at hd
    · rename_i a _
      obtain rfl := Option.some.inj (Prod.mk.inj hd).2
      exact (rlcSetAmdPduAndDfeStatus_eq pdu h a
        ⟨UInt32.ofNat info.length - 2, info.rlcdataBuffer⟩).2.2
  split at hd
  · simp at hd
  split at hd
  · simp at hd
  split at hd
  · simp at hd
  · obtain rfl := Option.some.inj (Prod.mk.inj hd).2
    rfl

/-! ### Reassembly of a PDU -/

theorem setRing_setRing (s : RlcState β) (e : β) (k : Nat) (n n' : RingNode β) :
    (s.setRing e k n).setRing e k n' = s.setRing e k n' := by
  simp [RlcState.setRing, RlcState.setEntity, Function.update_idem]

/-- Work with a PDU in the ring, from when it is put there to when it is taken out. -/
theorem Only.around {s' : RlcState β} {k : Nat} {node node' : RingNode β} (h : Only s s' e)
    (h' : Only (s'.setRing e k node) t e) (hk : (s.rxAmEntity e).amdPduRing k = node') :
    Only s (t.setRing e k node') e := by
  have hx : ∀ x : RxAmEntity β, (s'.setRing e k node).rxAmEntity e = x →
      x.rnti = (s'.rxAmEntity e).rnti ∧ x.lcId = (s'.rxAmEntity e).lcId ∧
        x.amdPduRing = Function.update (s'.rxAmEntity e).amdPduRing k node := by
    rintro x rfl
    simp [RlcState.setRing, RlcState.setEntity]
  obtain ⟨h1, h2, h3⟩ := hx _ rfl
  have ht : ∀ x : RxAmEntity β, (t.setRing e k node').rxAmEntity e = x →
      x.rnti = (t.rxAmEntity e).rnti ∧ x.lcId = (t.rxAmEntity e).lcId ∧
        x.amdPduRing = Function.update (t.rxAmEntity e).amdPduRing k node' := by
    rintro x rfl
    simp [RlcState.setRing, RlcState.setEntity]
  obtain ⟨t1, t2, t3⟩ := ht _ rfl
  constructor
  · exact h'.macUeContext.trans h.macUeContext
  · exact h'.gMacUeContext.trans h.gMacUeContext
  · exact h'.rlcUeContext.trans h.rlcUeContext
  · exact h'.gRlcUeContextList.trans h.gRlcUeContextList
  · intro b hb
    have hset : ∀ u : RlcState β, ∀ n, (u.setRing e k n).rxAmEntity b = u.rxAmEntity b :=
      fun u n => Function.update_of_ne hb _ _
    rw [hset, h'.entity b hb, hset, h.entity b hb]
  · rw [t1, h'.rnti, h1, h.rnti]
  · rw [t2, h'.lcId, h2, h.lcId]
  · rw [t3, h'.ring, h3, h.ring, Function.update_idem, ← hk, Function.update_eq_self]

variable {sn : Nat} {pdu : AmdPdu β} {r : Option (AmdPdu β)}

/-- A PDU that is complete is reassembled at once, segment by segment. -/
theorem rlcReassembleRlcSdu_eq
    (hnode : (s.rxAmEntity e).amdPduRing (sn &&& 511) = ⟨.inUse, some pdu⟩)
    (hst : pdu.status = .complete) :
    rlcReassembleRlcSdu env s sn e = ((pdu.segList.foldl
      (fun s seg => (rlcReassembleAmdDfeQ env s sn e seg).free seg.addr)
      (s.setRing e (sn &&& 511) ⟨.ready, some pdu⟩)).free pdu.addr).setRing e (sn &&& 511)
        ⟨.free, none⟩ := by
  unfold rlcReassembleRlcSdu
  simp only [hnode, hst, true_or, if_true]

/-- **Reassembly of a PDU**: its blocks are used up, except that of the incomplete SDU. -/
theorem segments_works (env : Platform β) (sn : Nat) (e : β) (l : List (AmdPduSegment β))
    (s : RlcState β) :
    let t := l.foldl (fun s seg => (rlcReassembleAmdDfeQ env s sn e seg).free seg.addr) s
    Works s t e (rawBlock s e + segBlocks l) (rawBlock t e) := by
  induction l generalizing s with
  | nil => simpa using Works.refl s e (rawBlock s e)
  | cons seg l ih =>
      intro t
      have h1 := (rlcReassembleAmdDfeQ_works env sn e seg.dfeQ s).frame ({seg.addr} : Multiset β)
      have h2 := h1.trans (free_works _ e seg.addr) (add_comm _ _)
      rw [zero_add] at h2
      have h3 := (h2.frame (segBlocks l)).seq (ih _)
      refine h3.congr ?_ rfl
      rw [segBlocks_cons, AmdPduSegment.blocks]
      ac_rfl

theorem rlcReassembleRlcSdu_grows (env : Platform β) (s : RlcState β) (sn : Nat) (e : β) :
    Grows s (rlcReassembleRlcSdu env s sn e) := by
  unfold rlcReassembleRlcSdu
  simp only
  split
  · split
    · exact (setRing_leaves s e _ _ 0).toGrows
    · rename_i pdu _
      split
      · have h1 := (setRing_leaves s e (sn &&& 511) ⟨.ready, some pdu⟩ 0).toGrows
        have h2 := (segments_works env sn e pdu.segList
          (s.setRing e (sn &&& 511) ⟨.ready, some pdu⟩)).leaves.toGrows
        have h3 := (free_works (pdu.segList.foldl
          (fun s seg => (rlcReassembleAmdDfeQ env s sn e seg).free seg.addr)
          (s.setRing e (sn &&& 511) ⟨.ready, some pdu⟩)) e pdu.addr).leaves.toGrows
        exact ((h1.trans h2).trans h3).trans (setRing_leaves _ e _ _ 0).toGrows
      · exact .refl s
  · exact .refl s

/-! ### A PDU for a free slot -/

variable {h : AmdHeader} {info : RlcUlDataInfo β}

/-- What comes before the reassembly: there is no PDU if the function gives up. -/
def rlcNewAmdPdu (env : Platform β) (s : RlcState β) (h : AmdHeader) (info : RlcUlDataInfo β) :
    RlcState β × Option (AmdPdu β) :=
  match rlcCreateAmdPdu env s with
  | (s, none) => (s.free? info.rlcdataBuffer, none)
  | (s, some pdu) =>
      if h.rf ≠ 0 then (rlcDeleteAmdPdu (rlcProcessAmdPduSegment s info).1 pdu, none)
      else
        match rlcDecodeAmdPdu env s pdu h info with
        | (s, none) => (rlcDeleteAmdPdu s pdu, none)
        | (s, some pdu) => (s, some { pdu with status := .complete })

theorem rlcProcessNewAmdPdu_eq (env : Platform β) (h : AmdHeader) (info : RlcUlDataInfo β)
    (hdata : ((s.rxAmEntity e).amdPduRing (h.sn &&& 511)).data = none) :
    rlcProcessNewAmdPdu env s e h info = match rlcNewAmdPdu env s h info with
      | (s, none) => s
      | (s, some pdu) =>
          rlcReassembleRlcSdu env (s.setRing e (h.sn &&& 511) ⟨.inUse, some pdu⟩) h.sn e := by
  unfold rlcProcessNewAmdPdu rlcNewAmdPdu
  simp only [hdata]
  rcases rlcCreateAmdPdu env s with ⟨t, _ | pdu⟩
  · rfl
  by_cases hrf : h.rf ≠ 0
  · simp only [if_pos hrf]
  simp only [if_neg hrf]
  rcases rlcDecodeAmdPdu env t pdu h info with ⟨u, _ | p⟩ <;> rfl

/-- **Decoding a PDU**: the data and what was allocated are the blocks of the PDU, or have
been released. -/
theorem rlcNewAmdPdu_memWorks (hn : rlcNewAmdPdu env s h info = (t, r)) :
    MemWorks s t (blockOf info.rlcdataBuffer) (r.elim 0 AmdPdu.blocks) ∧
      ∀ pdu, r = some pdu → pdu.status = .complete := by
  unfold rlcNewAmdPdu at hn
  cases hc : rlcCreateAmdPdu env s with
  | mk u o =>
      rw [hc] at hn
      cases o with
      | none =>
          have ha := rlcCreateAmdPdu_none hc
          obtain ⟨rfl, rfl⟩ := Prod.mk.inj hn
          exact ⟨(free?_memWorks u info.rlcdataBuffer).after_none ha, by simp⟩
      | some pdu =>
          obtain ⟨ha, hseg⟩ := rlcCreateAmdPdu_some hc
          have hcreate := (alloc_memWorks ha).frame (blockOf info.rlcdataBuffer)
          rw [zero_add] at hcreate
          -- the PDU is deleted, after what was in hand
          have hdel : ∀ {v : RlcState β}, MemWorks u v (blockOf info.rlcdataBuffer) 0 →
              MemWorks s (rlcDeleteAmdPdu v pdu) (blockOf info.rlcdataBuffer) 0 := by
            intro v hw
            have hblocks : pdu.blocks = 0 + {pdu.addr} := by
              rw [AmdPdu.blocks, hseg, segBlocks_nil, add_comm]
            have h1 := hcreate.seq ((hw.frame {pdu.addr}).congr (add_comm _ _) rfl)
            exact h1.seq ((rlcDeleteAmdPdu_memWorks v pdu).congr hblocks rfl)
          simp only at hn
          split at hn
          · obtain ⟨rfl, rfl⟩ := Prod.mk.inj hn
            exact ⟨hdel (free?_memWorks u info.rlcdataBuffer), by simp⟩
          · have hdecode := rlcDecodeAmdPdu_memWorks env u h info hseg
            cases hd : rlcDecodeAmdPdu env u pdu h info with
            | mk v o =>
                rw [hd] at hn hdecode
                cases o with
                | none =>
                    obtain ⟨rfl, rfl⟩ := Prod.mk.inj hn
                    exact ⟨hdel hdecode, by simp⟩
                | some p =>
                    have hp := rlcDecodeAmdPdu_addr hd
                    obtain ⟨rfl, rfl⟩ := Prod.mk.inj hn
                    refine ⟨?_, fun q hq => ?_⟩
                    · have h1 := (hdecode.frame {pdu.addr}).congr (add_comm _ _) (add_comm _ _)
                      refine (hcreate.seq h1).congr rfl ?_
                      show _ = ({p.addr} : Multiset β) + segBlocks p.segList
                      rw [hp]
                      rfl
                    · obtain rfl := Option.some.inj hq
                      rfl

/-- The blocks `xs` are used up, except that of the incomplete SDU. -/
def Uses (s t : RlcState β) (e : β) (xs : Multiset β) : Prop :=
  Works s t e (rawBlock s e + xs) (rawBlock t e)

/-- **A PDU goes through the ring**: it is put into an empty slot, and the slot is empty
again. -/
theorem ring_uses (env : Platform β) (sn : Nat) (pdu : AmdPdu β) (hst : pdu.status = .complete)
    (hring : (s.rxAmEntity e).amdPduRing (sn &&& 511) = ⟨.free, none⟩) :
    Uses s (rlcReassembleRlcSdu env (s.setRing e (sn &&& 511) ⟨.inUse, some pdu⟩) sn e) e
      pdu.blocks := by
  have hnode : ((s.setRing e (sn &&& 511) ⟨.inUse, some pdu⟩).rxAmEntity e).amdPduRing
      (sn &&& 511) = ⟨.inUse, some pdu⟩ := by
    simp [RlcState.setRing, RlcState.setEntity]
  rw [rlcReassembleRlcSdu_eq hnode hst, setRing_setRing]
  have h1 := (segments_works env sn e pdu.segList
    (s.setRing e (sn &&& 511) ⟨.ready, some pdu⟩)).frame {pdu.addr}
  have h2 := h1.trans (free_works _ e pdu.addr) (add_comm _ _)
  rw [zero_add, rawBlock_setRing] at h2
  have h3 := (setRing_leaves s e (sn &&& 511) ⟨.ready, some pdu⟩ _).seq h2.leaves
  refine ⟨(Only.refl s e).around h2.only hring, ?_⟩
  refine (h3.congr ?_ rfl).seq ((setRing_leaves _ e _ _ _).congr rfl ?_)
  · rw [AmdPdu.blocks]
    ac_rfl
  · rw [rawBlock_setRing]
    rfl

/-- **The branch for a free slot.** -/
theorem rlcProcessNewAmdPdu_uses (env : Platform β) (h : AmdHeader) (info : RlcUlDataInfo β)
    (hring : (s.rxAmEntity e).amdPduRing (h.sn &&& 511) = ⟨.free, none⟩) :
    Uses s (rlcProcessNewAmdPdu env s e h info) e (blockOf info.rlcdataBuffer) := by
  rw [rlcProcessNewAmdPdu_eq env h info (by rw [hring])]
  cases hn : rlcNewAmdPdu env s h info with
  | mk t r =>
      obtain ⟨hw, hst⟩ := rlcNewAmdPdu_memWorks hn
      have hmem := hw.only
      have h1 := (hw.works e).frame (rawBlock s e)
      cases r with
      | none =>
          refine h1.congr (add_comm _ _) ?_
          rw [Option.elim_none, zero_add]
          exact (hmem.rawBlock e).symm
      | some pdu =>
          have hring' : (t.rxAmEntity e).amdPduRing (h.sn &&& 511) = ⟨.free, none⟩ := by
            rw [hmem]
            exact hring
          refine (h1.congr (add_comm _ _) (add_comm _ _)).seq ?_
          rw [Option.elim_some, ← hmem.rawBlock e]
          exact ring_uses env h.sn pdu (hst pdu rfl) hring'

/-- A PDU that is left in a slot is deleted first. -/
theorem rlcProcessNewAmdPdu_clear (env : Platform β) (h : AmdHeader) (info : RlcUlDataInfo β)
    (hdata : ((s.rxAmEntity e).amdPduRing (h.sn &&& 511)).data = some pdu) :
    rlcProcessNewAmdPdu env s e h info = rlcProcessNewAmdPdu env
      ((rlcDeleteAmdPdu s pdu).setRing e (h.sn &&& 511) ⟨.free, none⟩) e h info := by
  have hnone : ((((rlcDeleteAmdPdu s pdu).setRing e (h.sn &&& 511) ⟨.free, none⟩).rxAmEntity
      e).amdPduRing (h.sn &&& 511)).data = none := by
    simp [RlcState.setRing, RlcState.setEntity]
  conv_rhs => rw [rlcProcessNewAmdPdu]
  rw [rlcProcessNewAmdPdu]
  simp only [hdata, hnone]

theorem rlcProcessNewAmdPdu_grows (env : Platform β) (s : RlcState β) (e : β) (h : AmdHeader)
    (info : RlcUlDataInfo β) : Grows s (rlcProcessNewAmdPdu env s e h info) := by
  have hempty : ∀ u : RlcState β, ((u.rxAmEntity e).amdPduRing (h.sn &&& 511)).data = none →
      Grows u (rlcProcessNewAmdPdu env u e h info) := by
    intro u hu
    rw [rlcProcessNewAmdPdu_eq env h info hu]
    cases hn : rlcNewAmdPdu env u h info with
    | mk t r =>
        have hw := ((rlcNewAmdPdu_memWorks hn).1.works e).leaves.toGrows
        cases r with
        | none => exact hw
        | some pdu =>
            exact (hw.trans (setRing_leaves t e _ _ 0).toGrows).trans
              (rlcReassembleRlcSdu_grows env _ h.sn e)
  cases hdata : ((s.rxAmEntity e).amdPduRing (h.sn &&& 511)).data with
  | none => exact hempty s hdata
  | some pdu =>
      rw [rlcProcessNewAmdPdu_clear env h info hdata]
      have h1 := (rlcDeleteAmdPdu_works s e pdu).leaves.toGrows
      have h2 := (setRing_leaves (rlcDeleteAmdPdu s pdu) e (h.sn &&& 511) ⟨.free, none⟩ 0).toGrows
      refine (h1.trans h2).trans (hempty _ ?_)
      simp [RlcState.setRing, RlcState.setEntity]

theorem rlcProcessNextAmdPdu_grows (env : Platform β) (s : RlcState β) (e : β) (h : AmdHeader)
    (info : RlcUlDataInfo β) : Grows s (rlcProcessNextAmdPdu env s e h info) := by
  have hfree : ∀ u : RlcState β, Grows u (u.free? info.rlcdataBuffer) := fun u =>
    (free?_works u e info.rlcdataBuffer).leaves.toGrows
  unfold rlcProcessNextAmdPdu
  simp only
  split
  · exact hfree s
  · split
    · exact (hfree s).trans (hfree _)
    · rename_i pdu _ _
      have h1 := (setRing_leaves s e (h.sn &&& 511)
        ⟨((s.rxAmEntity e).amdPduRing (h.sn &&& 511)).status,
          some { pdu with status := .complete }⟩ 0).toGrows
      exact (h1.trans (hfree _)).trans (rlcReassembleRlcSdu_grows env _ h.sn e)

/-! ### The whole packet -/

/-- The work for one entity, as a step of the reception. -/
theorem Uses.received (hu : Uses s t e xs) (hs : RlcSound s)
    (hr : RrcSound s.toRrcState (s.rlcOwned + ys)) (he : e ∈ s.entities) :
    Received s t xs 0 := by
  have hnd := entities_nodup hr
  obtain ⟨rest, hrest⟩ := Multiset.exists_cons_of_mem he
  rw [hrest] at hnd
  have hother : ∀ b ∈ rest, t.rxAmEntity b = s.rxAmEntity b := fun b hb =>
    hu.only.entity b (ne_of_mem_of_not_mem hb (Multiset.nodup_cons.mp hnd).1)
  have hctx : t.rlcUeContext = s.rlcUeContext := hu.only.rlcUeContext
  have hlist : t.gRlcUeContextList = s.gRlcUeContextList := hu.only.gRlcUeContextList
  have hent : t.entities = s.entities := by
    unfold RlcState.entities
    rw [hctx, hlist]
  -- the fields of every entity that the invariant is about
  have hfields : ∀ b, (t.rxAmEntity b).rnti = (s.rxAmEntity b).rnti ∧
      (t.rxAmEntity b).lcId = (s.rxAmEntity b).lcId ∧
      (t.rxAmEntity b).amdPduRing = (s.rxAmEntity b).amdPduRing := by
    intro b
    by_cases hb : b = e
    · subst hb
      exact ⟨hu.only.rnti, hu.only.lcId, hu.only.ring⟩
    · rw [hu.only.entity b hb]
      exact ⟨rfl, rfl, rfl⟩
  have hmac : MacSound t.toMacState := hs.mac.same hu.only.gMacUeContext fun a _ => by
    rw [hu.only.macUeContext]
    exact ⟨rfl, rfl⟩
  refine ⟨⟨hmac, ?_, ?_, ?_, ?_⟩, ?_⟩
  · rw [hctx, hlist]
    exact hs.live
  · rw [hctx, hlist]
    exact hs.unique
  · intro c hc i x hx
    rw [hlist] at hc
    rw [hctx] at hx ⊢
    rw [(hfields x).1, (hfields x).2.1]
    exact hs.entity c hc i x hx
  · intro x hx k
    rw [hent] at hx
    rw [(hfields x).2.2]
    exact hs.rings x hx k
  · have hraw : rest.bind (rawBlock t) = rest.bind (rawBlock s) :=
      Multiset.bind_congr fun b hb => by
        unfold rawBlock
        rw [hother b hb]
    refine (hu.leaves.frame (s.gMacUeContext
      + (s.gRlcUeContextList + (s.entities + rest.bind (rawBlock s))))).congr ?_ ?_
    · unfold RlcState.rlcOwned
      nth_rewrite 3 [hrest]
      rw [Multiset.cons_bind]
      ac_rfl
    · unfold RlcState.rlcOwned
      rw [hlist, hent, hu.only.gMacUeContext]
      nth_rewrite 3 [hrest]
      rw [Multiset.cons_bind, hraw, add_zero]
      ac_rfl

/-- The branch for the slot of the PDU. -/
theorem rlcEntityPacket_receives (env : Platform β) (s : RlcState β) (h : AmdHeader)
    (info : RlcUlDataInfo β) (he : e ∈ s.entities) :
    Receives s (if ((s.rxAmEntity e).amdPduRing (h.sn &&& 511)).status = .free then
        rlcProcessNewAmdPdu env s e h info else rlcProcessNextAmdPdu env s e h info)
      (blockOf info.rlcdataBuffer) 0 := by
  constructor
  · split
    · exact rlcProcessNewAmdPdu_grows env s e h info
    · exact rlcProcessNextAmdPdu_grows env s e h info
  · intro _ f hs hr
    have hring := hs.rings e he (h.sn &&& 511)
    rw [if_pos (by rw [hring])]
    exact (rlcProcessNewAmdPdu_uses env h info hring).received hs hr he

/-- **Reception of a packet**: it is released, or becomes a part of what the layer holds. -/
theorem rlcProcessAmRxPacket_receives (env : Platform β) (s : RlcState β)
    (info : RlcUlDataInfo β) (rnti : UInt16) :
    Receives s (rlcProcessAmRxPacket env s info rnti) (blockOf info.rlcdataBuffer) 0 := by
  unfold rlcProcessAmRxPacket
  split
  · exact free?_receives s _
  · rename_i hlc
    have hlc' : info.lcId < maxLcId := by
      simp only [srb2LcId, maxLcId] at hlc ⊢
      omega
    cases hd : info.rlcdataBuffer.bind fun b => rlcDecodeAmdHeader (s.mem.bytes b) info.length with
    | none => exact free?_receives s _
    | some h =>
        simp only
        split
        · exact free?_receives s _
        · cases hctx : rlcContextFor env s rnti with
          | mk t o =>
              obtain ⟨h1, hmem⟩ := rlcContextFor_receives hctx
              have h1' := h1.frame (blockOf info.rlcdataBuffer)
              rw [zero_add] at h1'
              cases o with
              | none => exact h1'.seq (free?_receives t _)
              | some a =>
                  simp only
                  cases hent : rlcEntityFor env t a info.lcId with
                  | mk u o =>
                      obtain ⟨h2, hmem2⟩ := rlcEntityFor_receives (hmem a rfl) hlc' hent
                      have h2' := h2.frame (blockOf info.rlcdataBuffer)
                      rw [zero_add] at h2'
                      cases o with
                      | none => exact (h1'.seq h2').seq (free?_receives u _)
                      | some e =>
                          exact (h1'.seq h2').seq
                            (rlcEntityPacket_receives env u h info (hmem2 e rfl))

end Rules

end LteUlp.Rlc
