import LteUlp.Rlc.Reception

set_option autoImplicit false
set_option linter.unusedSectionVars false

/-! # The cleanup of idle contexts

`ExecuteCleanup` deletes the RLC contexts that have been idle for too long, with their
entities and incomplete SDUs, and counts the others idle. A context is unlinked before it is
taken apart, so what is left is sound at every moment.
-/

namespace LteUlp.Rlc

open BlockStore LteUlp.Rrc LteUlp.Mac LteUlp.Pdcp

variable {β : Type} [DecidableEq β]

/-! ## Deleting -/

/-- The size of the ring of an entity. -/
def ringSize : Nat := 512

/-- The body of the loop of `RlcDeleteRxAmEntity`. -/
def rlcDeleteRingPdu (e : β) (s : RlcState β) (i : Nat) : RlcState β :=
  let node := (s.rxAmEntity e).amdPduRing i
  if node.status ≠ .free then
    match node.data with
    | none => s
    | some pdu => rlcDeleteAmdPdu s pdu
  else s

/-- `RlcDeleteRxAmEntity`. -/
def rlcDeleteRxAmEntity (s : RlcState β) : Option β → RlcState β
  | none => s
  | some e =>
      let s := (List.range ringSize).foldl (rlcDeleteRingPdu e) s
      (s.free? (s.rxAmEntity e).rxRawSdu.rawSdu.pData).free e

/-- The body of the loop of `RlcDeleteUeContext`. -/
def rlcDeleteEntityAt (a : β) (s : RlcState β) (i : Nat) : RlcState β :=
  let s := rlcDeleteRxAmEntity s ((s.rlcUeContext a).rxAmEntityArray i)
  let c := s.rlcUeContext a
  s.setUeContext a { c with rxAmEntityArray := Function.update c.rxAmEntityArray i none }

/-- `RlcDeleteUeContext`. -/
def rlcDeleteUeContext (s : RlcState β) (a : β) : RlcState β :=
  let s := { s with gRlcUeContextList := s.gRlcUeContextList.erase a }
  ((List.range maxLcId).foldl (rlcDeleteEntityAt a) s).free a

/-- The body of the loop of `ExecuteCleanup`. -/
def cleanupContext (gMaxIdleCount : UInt32) (s : RlcState β) (a : β) : RlcState β :=
  let c := s.rlcUeContext a
  if c.idleCount ≥ gMaxIdleCount then
    rlcDeleteUeContext (s.setUeContext a { c with deleteFlag := true }) a
  else rlcUpdateUeContextTime s a 1

/-- `ExecuteCleanup`. The next node is read before a context may be deleted, so the loop is
over the nodes that the list has when it begins. -/
def executeCleanup (gMaxIdleCount : UInt32) (s : RlcState β) : RlcState β :=
  s.gRlcUeContextList.foldl (cleanupContext gMaxIdleCount) s

section Rules

variable {s t : RlcState β} {a b e : β} {ys : Multiset β}

/-! ## An entity -/

theorem OnlyMem.foldl {α : Type} {f : RlcState β → α → RlcState β}
    (h : ∀ s x, OnlyMem s (f s x)) (l : List α) (s : RlcState β) : OnlyMem s (l.foldl f s) := by
  apply List.foldlRecOn (motive := OnlyMem s) l f (.refl s)
  exact fun u hu x _ => hu.trans (h u x)

theorem rlcDeleteRingPdu_onlyMem (e : β) (s : RlcState β) (i : Nat) :
    OnlyMem s (rlcDeleteRingPdu e s i) := by
  unfold rlcDeleteRingPdu
  simp only
  split
  · split
    · exact .refl s
    · exact (rlcDeleteAmdPdu_memWorks s _).only
  · exact .refl s

theorem rlcDeleteRxAmEntity_onlyMem (s : RlcState β) (o : Option β) :
    OnlyMem s (rlcDeleteRxAmEntity s o) := by
  cases o with
  | none => exact .refl s
  | some e =>
      have h1 := OnlyMem.foldl (rlcDeleteRingPdu_onlyMem e) (List.range ringSize) s
      exact (h1.trans (free?_memWorks _ _).only).trans (free_memWorks _ e).only

/-- Nothing is logged when an entity is deleted. -/
theorem rlcDeleteRxAmEntity_badDerefs (s : RlcState β) (o : Option β) :
    (rlcDeleteRxAmEntity s o).badDerefs = s.badDerefs := by
  cases o with
  | none => rfl
  | some e =>
      have hring : ∀ (u : RlcState β) (i : Nat),
          (rlcDeleteRingPdu e u i).badDerefs = u.badDerefs := by
        intro u i
        unfold rlcDeleteRingPdu
        simp only
        split
        · split
          · rfl
          · exact rlcDeleteAmdPdu_badDerefs u _
        · rfl
      have hall := badDerefs_foldl hring (List.range ringSize) s
      have hlast : ∀ (u : RlcState β) (o : Option β),
          ((u.free? o).free e).badDerefs = u.badDerefs := fun _ _ => rfl
      exact (hlast _ _).trans hall

theorem Grows.foldl {α : Type} {f : RlcState β → α → RlcState β} (h : ∀ s x, Grows s (f s x))
    (l : List α) (s : RlcState β) : Grows s (l.foldl f s) := by
  apply List.foldlRecOn (motive := Grows s) l f (.refl s)
  exact fun u hu x _ => hu.trans (h u x)

theorem rlcDeleteRxAmEntity_grows (s : RlcState β) (o : Option β) :
    Grows s (rlcDeleteRxAmEntity s o) := by
  cases o with
  | none => exact .refl s
  | some e =>
      have hring : ∀ (u : RlcState β) (i : Nat), Grows u (rlcDeleteRingPdu e u i) := by
        intro u i
        unfold rlcDeleteRingPdu
        simp only
        split
        · split
          · exact .refl u
          · exact (rlcDeleteAmdPdu_works u e _).leaves.toGrows
        · exact .refl u
      have h1 := Grows.foldl hring (List.range ringSize) s
      have h2 := (free?_receives ((List.range ringSize).foldl (rlcDeleteRingPdu e) s)
        (((List.range ringSize).foldl (rlcDeleteRingPdu e) s).rxAmEntity
          e).rxRawSdu.rawSdu.pData).toGrows
      exact (h1.trans h2).trans (free_receives _ e).toGrows

/-- Between two packets the ring is empty, so only the incomplete SDU and the entity itself
are released. -/
theorem rlcDeleteRxAmEntity_some (hring : ∀ k, (s.rxAmEntity e).amdPduRing k = ⟨.free, none⟩) :
    rlcDeleteRxAmEntity s (some e)
      = (s.free? (s.rxAmEntity e).rxRawSdu.rawSdu.pData).free e := by
  have hloop : ∀ l : List Nat, l.foldl (rlcDeleteRingPdu e) s = s := by
    intro l
    induction l with
    | nil => rfl
    | cons i l ih =>
        have hi : rlcDeleteRingPdu e s i = s := by
          unfold rlcDeleteRingPdu
          simp [hring i]
        rw [List.foldl_cons, hi, ih]
  unfold rlcDeleteRxAmEntity
  simp only [hloop]

/-! ## A context that is unlinked -/

/-- Writing to a context that is not in the list. -/
theorem setUnlinked_receives (ha : a ∉ s.gRlcUeContextList) (c : RlcUeContext β)
    (xs : Multiset β) : Receives s (s.setUeContext a c) xs xs := by
  have hctx : ∀ b ∈ s.gRlcUeContextList,
      (s.setUeContext a c).rlcUeContext b = s.rlcUeContext b := fun b hb =>
    Function.update_of_ne (ne_of_mem_of_not_mem hb ha) _ _
  obtain ⟨hent, howned⟩ := rlcOwned_congr (s := s) (t := s.setUeContext a c) rfl rfl
    (fun b hb => by rw [hctx b hb]) fun _ _ => rfl
  refine .of_leaves ?_ fun hs => ⟨hs.mac.same rfl fun _ _ => ⟨rfl, rfl⟩, ?_, ?_, ?_, ?_⟩
  · rw [howned]
    apply Leaves.of_rrc <;> rfl
  · intro b hb
    rw [hctx b hb]
    exact hs.live b hb
  · show (s.gRlcUeContextList.map _).Nodup
    rw [List.map_congr_left fun b hb => by rw [hctx b hb]]
    exact hs.unique
  · intro b hb i x hx
    rw [hctx b hb] at hx ⊢
    exact hs.entity b hb i x hx
  · intro x hx k
    rw [hent] at hx
    exact hs.rings x hx k

/-- The entities of a context on the channels of a list. -/
def entitiesAt (c : RlcUeContext β) (l : List Nat) : Multiset β :=
  (l.filterMap c.rxAmEntityArray : List β)

/-- These entities and their incomplete SDUs. -/
def heldAt (s : RlcState β) (a : β) (l : List Nat) : Multiset β :=
  let x := entitiesAt (s.rlcUeContext a) l
  x + x.bind (rawBlock s)

theorem rlcDeleteEntityAt_receives (ha : a ∉ s.gRlcUeContextList) (i : Nat) (l : List Nat)
    (hi : i ∉ l) (hring : ∀ j ∈ i :: l, ∀ e, (s.rlcUeContext a).rxAmEntityArray j = some e →
      ∀ k, (s.rxAmEntity e).amdPduRing k = ⟨.free, none⟩) :
    let t := rlcDeleteEntityAt a s i
    Receives s t (heldAt s a (i :: l)) (heldAt t a l) ∧
      t.gRlcUeContextList = s.gRlcUeContextList ∧ t.rxAmEntity = s.rxAmEntity ∧
      ∀ j ∈ l, (t.rlcUeContext a).rxAmEntityArray j = (s.rlcUeContext a).rxAmEntityArray j := by
  intro t
  have hmem := rlcDeleteRxAmEntity_onlyMem s ((s.rlcUeContext a).rxAmEntityArray i)
  have hlist : t.gRlcUeContextList = s.gRlcUeContextList := by
    show (rlcDeleteRxAmEntity s _).gRlcUeContextList = _
    rw [hmem]
    rfl
  have hent : t.rxAmEntity = s.rxAmEntity := by
    show (rlcDeleteRxAmEntity s _).rxAmEntity = _
    rw [hmem]
    rfl
  have harray : ∀ j ∈ l,
      (t.rlcUeContext a).rxAmEntityArray j = (s.rlcUeContext a).rxAmEntityArray j := by
    intro j hj
    have hji : j ≠ i := ne_of_mem_of_not_mem hj hi
    have hself : ∀ (u : RlcState β) c, (u.setUeContext a c).rlcUeContext a = c := fun u c =>
      Function.update_self ..
    show ((rlcDeleteEntityAt a s i).rlcUeContext a).rxAmEntityArray j = _
    unfold rlcDeleteEntityAt
    simp only [hself, Function.update_of_ne hji]
    rw [hmem]
    rfl
  have hheld : heldAt t a l = heldAt s a l := by
    have h1 : entitiesAt (t.rlcUeContext a) l = entitiesAt (s.rlcUeContext a) l := by
      unfold entitiesAt
      rw [List.filterMap_congr harray]
    have h2 : rawBlock t = rawBlock s := by
      funext b
      unfold rawBlock
      rw [hent]
    unfold heldAt
    rw [h1, h2]
  refine ⟨?_, hlist, hent, harray⟩
  rw [hheld]
  have hset : ∀ u : RlcState β, u.gRlcUeContextList = s.gRlcUeContextList →
      ∀ c xs, Receives u (u.setUeContext a c) xs xs := fun u hu c xs =>
    setUnlinked_receives (by rwa [hu]) c xs
  cases hx : (s.rlcUeContext a).rxAmEntityArray i with
  | none =>
      have ht : t = s.setUeContext a { s.rlcUeContext a with
          rxAmEntityArray := Function.update (s.rlcUeContext a).rxAmEntityArray i none } := by
        show rlcDeleteEntityAt a s i = _
        unfold rlcDeleteEntityAt
        rw [hx]
        rfl
      have hsame : heldAt s a (i :: l) = heldAt s a l := by
        unfold heldAt entitiesAt
        rw [List.filterMap_cons_none hx]
      rw [hsame, ht]
      exact hset s rfl _ _
  | some e =>
      have ht : t = ((s.free? (s.rxAmEntity e).rxRawSdu.rawSdu.pData).free
          e).setUeContext a { s.rlcUeContext a with
            rxAmEntityArray := Function.update (s.rlcUeContext a).rxAmEntityArray i none } := by
        show rlcDeleteEntityAt a s i = _
        unfold rlcDeleteEntityAt
        rw [hx, rlcDeleteRxAmEntity_some (hring i List.mem_cons_self e hx)]
        rfl
      have hheld' : heldAt s a (i :: l) = rawBlock s e + ({e} + heldAt s a l) := by
        unfold heldAt entitiesAt
        simp only [List.filterMap_cons_some hx, ← Multiset.cons_coe, Multiset.cons_bind]
        rw [← Multiset.singleton_add]
        ac_rfl
      have h1 := (free?_receives s (s.rxAmEntity e).rxRawSdu.rawSdu.pData).frame
        ({e} + heldAt s a l)
      have h2 := (free_receives (s.free? (s.rxAmEntity e).rxRawSdu.rawSdu.pData) e).frame
        (heldAt s a l)
      rw [zero_add] at h1 h2
      rw [hheld', ht]
      exact (h1.seq h2).seq (hset ((s.free? _).free e) rfl _ _)

/-- The loop over the channels. -/
theorem rlcDeleteEntities_receives (l : List Nat) (hl : l.Nodup) (s : RlcState β)
    (ha : a ∉ s.gRlcUeContextList)
    (hring : ∀ j ∈ l, ∀ e, (s.rlcUeContext a).rxAmEntityArray j = some e →
      ∀ k, (s.rxAmEntity e).amdPduRing k = ⟨.free, none⟩) :
    Receives s (l.foldl (rlcDeleteEntityAt a) s) (heldAt s a l) 0 := by
  induction l generalizing s with
  | nil => exact (Receives.refl s 0).congr (by simp [heldAt, entitiesAt]) rfl
  | cons i l ih =>
      obtain ⟨hi, hl⟩ := List.nodup_cons.mp hl
      obtain ⟨h1, hlist, hent, harray⟩ := rlcDeleteEntityAt_receives ha i l hi hring
      refine h1.seq (ih hl _ (by rwa [hlist]) fun j hj e he => ?_)
      rw [harray j hj] at he
      rw [hent]
      exact hring j (List.mem_cons_of_mem i hj) e he

/-! ## Unlinking -/

/-- A context taken out of the list, with the blocks that were its own. -/
theorem unlink_sound (hs : RlcSound s)
    (ha : a ∈ s.gRlcUeContextList) :
    let t := { s with gRlcUeContextList := s.gRlcUeContextList.erase a }
    RlcSound t ∧ s.rlcOwned = t.rlcOwned + ({a} + heldAt s a (List.range maxLcId)) := by
  intro t
  have hsub : ∀ b ∈ t.gRlcUeContextList, b ∈ s.gRlcUeContextList := fun b hb =>
    List.mem_of_mem_erase hb
  have hperm : (s.gRlcUeContextList : Multiset β) = a ::ₘ (t.gRlcUeContextList : Multiset β) := by
    rw [Multiset.cons_coe]
    exact Multiset.coe_eq_coe.mpr (List.perm_cons_erase ha)
  have hent : s.entities = (s.rlcUeContext a).entities + t.entities := by
    unfold RlcState.entities
    rw [hperm, Multiset.cons_bind]
  refine ⟨⟨hs.mac.same rfl fun _ _ => ⟨rfl, rfl⟩, fun b hb => hs.live b (hsub b hb), ?_, fun b hb => hs.entity b (hsub b hb), ?_⟩, ?_⟩
  · exact hs.unique.sublist (List.erase_sublist.map _)
  · intro e he k
    refine hs.rings e ?_ k
    rw [hent]
    exact Multiset.mem_add.mpr (Or.inr he)
  · unfold RlcState.rlcOwned
    rw [hent, Multiset.add_bind, hperm, ← Multiset.singleton_add]
    show _ = (s.gMacUeContext : Multiset β) + _ + ({a} + ((s.rlcUeContext a).entities
      + (s.rlcUeContext a).entities.bind (rawBlock s)))
    have hraw : t.entities.bind (rawBlock s) = t.entities.bind (rawBlock t) := rfl
    rw [hraw]
    ac_rfl

theorem setUeContext_grows (s : RlcState β) (a : β) (c : RlcUeContext β) :
    Grows s (s.setUeContext a c) := ⟨le_rfl, le_rfl, fun _ => rfl⟩

theorem rlcDeleteUeContext_grows (s : RlcState β) (a : β) : Grows s (rlcDeleteUeContext s a) := by
  have hat : ∀ (u : RlcState β) (i : Nat), Grows u (rlcDeleteEntityAt a u i) := fun u i =>
    (rlcDeleteRxAmEntity_grows u _).trans (setUeContext_grows _ a _)
  have h1 : Grows s { s with gRlcUeContextList := s.gRlcUeContextList.erase a } :=
    ⟨le_rfl, le_rfl, fun _ => rfl⟩
  exact (h1.trans (Grows.foldl hat _ _)).trans (free_receives _ a).toGrows

/-- **A context is deleted**, with all that it holds. Its flag has been set before. -/
theorem rlcDeleteUeContext_received (hs : RlcSound s)
    (hr : RrcSound s.toRrcState (s.rlcOwned + ys)) (ha : a ∈ s.gRlcUeContextList)
    (c : RlcUeContext β) (hc : c.rxAmEntityArray = (s.rlcUeContext a).rxAmEntityArray)
    (hj : (rlcDeleteUeContext (s.setUeContext a c) a).refusedJoins = s.refusedJoins) :
    Received s (rlcDeleteUeContext (s.setUeContext a c) a) 0 0 := by
  have hn := contexts_nodup hr
  obtain ⟨hsound, howned⟩ := unlink_sound hs ha
  have hnot : a ∉ s.gRlcUeContextList.erase a := hn.not_mem_erase
  -- the state when the context has been unlinked
  have hstep : ∃ u, u = { s with gRlcUeContextList := s.gRlcUeContextList.erase a } := ⟨_, rfl⟩
  obtain ⟨u, hu⟩ := hstep
  rw [← hu] at hsound howned
  have hua : a ∉ u.gRlcUeContextList := by rwa [hu]
  have hself : (u.setUeContext a c).rlcUeContext a = c := Function.update_self ..
  have hheld : heldAt (u.setUeContext a c) a (List.range maxLcId)
      = heldAt s a (List.range maxLcId) := by
    unfold heldAt entitiesAt
    rw [hself, hc, hu]
    rfl
  have hring : ∀ j ∈ List.range maxLcId, ∀ e,
      ((u.setUeContext a c).rlcUeContext a).rxAmEntityArray j = some e →
      ∀ k, ((u.setUeContext a c).rxAmEntity e).amdPduRing k = ⟨.free, none⟩ := by
    intro j hj e he k
    rw [hself, hc] at he
    have hmem : e ∈ s.entities := mem_entities.mpr
      ⟨a, ha, mem_contextEntities.mpr ⟨j, List.mem_range.mp hj, he⟩⟩
    rw [hu]
    exact hs.rings e hmem k
  have hfirst : Leaves s u (s.rlcOwned + 0)
      (u.rlcOwned + ({a} + heldAt s a (List.range maxLcId))) := by
    rw [add_zero, howned]
    rw [hu]
    apply Leaves.of_rrc <;> rfl
  have hset := setUnlinked_receives hua c ({a} + heldAt s a (List.range maxLcId))
  have hloop := (rlcDeleteEntities_receives (List.range maxLcId) List.nodup_range
    (u.setUeContext a c) hua hring).frame ({a} : Multiset β)
  rw [zero_add, hheld, add_comm] at hloop
  have htail := (hset.seq hloop).seq (free_receives _ a)
  have hend : ((List.range maxLcId).foldl (rlcDeleteEntityAt a) (u.setUeContext a c)).free a
      = rlcDeleteUeContext (s.setUeContext a c) a := by
    rw [hu]
    rfl
  rw [hend] at htail
  have hru : RrcSound u.toRrcState
      (u.rlcOwned + (({a} + heldAt s a (List.range maxLcId)) + ys)) := by
    rw [← add_assoc, ← howned, hu]
    exact hr
  have hlast := htail.after (by rw [hj, hu]) ys hsound hru
  exact ⟨hlast.sound, hfirst.seq hlast.leaves⟩

/-! ## The whole cleanup -/

/-- The list after a context has been looked at: only that one may be gone. -/
theorem mem_cleanupContext (g : UInt32) (s : RlcState β) (hb : b ∈ s.gRlcUeContextList)
    (hba : b ≠ a) : b ∈ (cleanupContext g s a).gRlcUeContextList := by
  have hlist : ∀ (l : List Nat) (u : RlcState β),
      (l.foldl (rlcDeleteEntityAt a) u).gRlcUeContextList = u.gRlcUeContextList := by
    intro l
    induction l with
    | nil => exact fun u => rfl
    | cons i l ih =>
        intro u
        rw [List.foldl_cons, ih]
        show (rlcDeleteRxAmEntity u _).gRlcUeContextList = _
        rw [rlcDeleteRxAmEntity_onlyMem u]
        rfl
  unfold cleanupContext
  simp only
  split
  · show b ∈ ((List.range maxLcId).foldl (rlcDeleteEntityAt a) _).gRlcUeContextList
    rw [hlist]
    exact (List.mem_erase_of_ne hba).mpr hb
  · exact hb

theorem cleanupContext_grows (g : UInt32) (s : RlcState β) (a : β) :
    Grows s (cleanupContext g s a) := by
  unfold cleanupContext
  simp only
  split
  · exact (setUeContext_grows s a _).trans (rlcDeleteUeContext_grows _ a)
  · exact (rlcUpdateUeContextTime_receives s a 1 0).toGrows

theorem cleanupContext_receives (g : UInt32) (s : RlcState β) (ha : a ∈ s.gRlcUeContextList) :
    Receives s (cleanupContext g s a) 0 0 := by
  refine ⟨cleanupContext_grows g s a, fun hj f hs hr => ?_⟩
  unfold cleanupContext at hj ⊢
  simp only at hj ⊢
  split at hj
  · rename_i hidle
    rw [if_pos hidle]
    exact rlcDeleteUeContext_received hs hr ha _ rfl hj
  · rename_i hidle
    rw [if_neg hidle]
    exact (rlcUpdateUeContextTime_receives s a 1 0).after rfl f hs hr

theorem cleanupLoop_receives (g : UInt32) (l : List β) (s : RlcState β) (hn : l.Nodup)
    (hl : ∀ a ∈ l, a ∈ s.gRlcUeContextList) :
    Receives s (l.foldl (cleanupContext g) s) 0 0 := by
  induction l generalizing s with
  | nil => exact .refl s 0
  | cons a l ih =>
      obtain ⟨ha, hn⟩ := List.nodup_cons.mp hn
      have h1 := cleanupContext_receives g s (hl a List.mem_cons_self)
      refine h1.seq (ih _ hn fun b hb => ?_)
      exact mem_cleanupContext g s (hl b (List.mem_cons_of_mem a hb))
        (ne_of_mem_of_not_mem hb ha)

/-- **The cleanup** keeps the layer sound. -/
theorem executeCleanup_receives (g : UInt32) (s : RlcState β) :
    Receives s (executeCleanup g s) 0 0 := by
  refine ⟨Grows.foldl (cleanupContext_grows g) _ s, fun hj f hs hr => ?_⟩
  exact (cleanupLoop_receives g s.gRlcUeContextList s (contexts_nodup hr)
    fun _ ha => ha).after hj f hs hr

end Rules

end LteUlp.Rlc
