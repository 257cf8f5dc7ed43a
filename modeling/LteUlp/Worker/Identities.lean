import LteUlp.Rrc.Ownership

set_option autoImplicit false
set_option linter.unusedSectionVars false

/-! # Collected identities and where they are kept

An identity that has been collected is carried by contexts: the one in the main list, and
copies in the ready list. `tally` counts the contexts that carry an identity for an RNTI. The
main result is `collect_cases`: what one update does, from which `tally_collect` gives the
effect on the tally. An update adds one carrier of the identity it records, and when it
replaces another identity of the same kind, the copy it makes of the context is one more
carrier of the identity of the other kind.
-/

namespace LteUlp.Worker

open BlockStore LteUlp.Rrc

/-! ## Identities -/

/-- The fifteen digits of an IMSI. -/
abbrev Imsi := { digits : List UInt8 // digits.length = 15 }

/-- An identity that is collected. -/
inductive Collected where
  | imsi (x : Imsi)
  | mTmsi (v : UInt32)
  deriving DecidableEq

namespace Collected

/-- An identity of this kind is recorded. -/
def present : Collected → UeIdentity → Bool
  | imsi _, id => id.imsiPresent
  | mTmsi _, id => id.mTmsiPresent

/-- The recorded value is this one. -/
def same : Collected → UeIdentity → Bool
  | imsi x, id => id.imsi.take 15 == (tmpImsi x.1).take 15
  | mTmsi v, id => id.mTmsi == v

/-- Record it. -/
def write : Collected → UeIdentity → UeIdentity
  | imsi x, id => { id with imsiPresent := true, imsi := tmpImsi x.1 }
  | mTmsi v, id => { id with mTmsiPresent := true, mTmsi := v }

/-- The counter of its kind. -/
def counter : Collected → LteKpi → UInt32
  | imsi _, kpi => kpi.imsi
  | mTmsi _, kpi => kpi.mTmsi

/-- Count one of its kind. -/
def count : Collected → LteKpi → LteKpi
  | imsi _, kpi => { kpi with imsi := kpi.imsi + 1 }
  | mTmsi _, kpi => { kpi with mTmsi := kpi.mTmsi + 1 }

/-- Both are IMSIs, or both M-TMSIs. -/
def sameKind : Collected → Collected → Bool
  | imsi _, imsi _ => true
  | mTmsi _, mTmsi _ => true
  | _, _ => false

/-- It is what is recorded. -/
def heldBy (x : Collected) (id : UeIdentity) : Bool := x.present id && x.same id

@[simp] theorem heldBy_msgType (x : Collected) (id : UeIdentity) (t : UInt8) :
    x.heldBy { id with msgType := t } = x.heldBy id := by cases x <;> rfl

@[simp] theorem heldBy_rnti (x : Collected) (id : UeIdentity) (r : UInt16) :
    x.heldBy { id with rnti := r } = x.heldBy id := by cases x <;> rfl

@[simp] theorem heldBy_zero (x : Collected) : x.heldBy UeIdentity.zero = false := by
  cases x <;> rfl

theorem heldBy_of_not_present {x : Collected} {id : UeIdentity} (h : x.present id = false) :
    x.heldBy id = false := by simp [heldBy, h]

theorem present_of_sameKind {x y : Collected} (h : x.sameKind y = true) (id : UeIdentity) :
    x.present id = y.present id := by
  cases x <;> cases y <;> first | rfl | simp [sameKind] at h

theorem heldBy_hasIdentity {x : Collected} {id : UeIdentity} (h : x.heldBy id = true) :
    (id.imsiPresent || id.mTmsiPresent) = true := by
  cases x <;> simp_all [heldBy, present]

theorem tmpImsi_take {x y : Imsi} :
    ((tmpImsi x.1).take 15 == (tmpImsi y.1).take 15) = decide (y = x) := by
  obtain ⟨x, hx⟩ := x
  obtain ⟨y, hy⟩ := y
  have htake : ∀ l : List UInt8, l.length = 15 → (tmpImsi l).take 15 = l.map (· + 0x30) := by
    intro l hl
    unfold tmpImsi
    rw [List.take_left' (by simp [hl])]
  simp only [htake x hx, htake y hy, Subtype.mk.injEq]
  rw [Bool.eq_iff_iff, beq_iff_eq, decide_eq_true_iff]
  constructor
  · intro h
    exact (List.map_injective_iff.mpr (fun a b hab => by simpa using hab) h).symm
  · rintro rfl
    rfl

/-- After a write, of its kind only the written identity is held. -/
theorem heldBy_write (x y : Collected) (id : UeIdentity) :
    y.heldBy (x.write id) = if x.sameKind y then decide (y = x) else y.heldBy id := by
  cases x with
  | imsi x =>
      cases y with
      | imsi y =>
          show (true && ((tmpImsi x.1).take 15 == (tmpImsi y.1).take 15)) = decide _
          rw [tmpImsi_take, Bool.true_and]
          simp
      | mTmsi v => rfl
  | mTmsi v =>
      cases y with
      | imsi y => rfl
      | mTmsi w =>
          show (true && (v == w)) = decide _
          rw [Bool.true_and, Bool.eq_iff_iff, beq_iff_eq, decide_eq_true_iff]
          simp [eq_comm]

/-- `%s` is given a number in the report of an M-TMSI that is dropped. -/
def misread : Collected → Bool
  | .imsi _ => false
  | .mTmsi _ => true

theorem counter_count (x : Collected) (kpi : LteKpi) :
    x.counter (x.count kpi) ≠ x.counter kpi := by
  cases x <;> simp [counter, count]

end Collected

/-! ## Updates -/

section Updates

variable {β : Type} [DecidableEq β] {env : Platform β}

/-- `RrcUpdateImsi` or `RrcUpdateMTmsi`. -/
def rrcUpdate (env : Platform β) (x : Collected) (s : RrcState β) (a : β) (msgType : UInt8) :
    RrcState β × Option β :=
  match x with
  | .imsi x => rrcUpdateImsi env s a x.1 msgType
  | .mTmsi v => rrcUpdateMTmsi env s a v msgType

theorem rrcUpdate_eq (x : Collected) (s : RrcState β) (a : β) (msgType : UInt8) :
    rrcUpdate env x s a msgType
      = rrcUpdateIdentity env x.misread x.present x.same x.count x.write s a msgType := by
  cases x <;> rfl

/-- An update as the decoders make it: of the context that is found or created. -/
def collect (env : Platform β) (s : RrcState β) (rnti : UInt16) (x : Collected)
    (msgType : UInt8) : RrcState β :=
  match rrcFindOrCreate env s rnti with
  | (s, none) => s
  | (s, some a) => (rrcUpdate env x s a msgType).1

theorem collect_moves (s : RrcState β) (rnti : UInt16) (x : Collected) (msgType : UInt8) :
    RrcMoves s (collect env s rnti x msgType) 0 0 := by
  unfold collect
  split
  · rename_i t hf
    exact .refused (rrcFindOrCreate_refused hf)
  · rename_i t a hf
    rw [rrcUpdate_eq]
    exact (rrcFindOrCreate_moves hf).seq (rrcUpdateIdentity_moves _ _ _ _ _ t a msgType)

/-! ## Sound contexts -/

/-- The contexts are blocks in use, none of them twice; those in the main list are not being
deleted and have different RNTIs; those in the ready list hold an identity. -/
structure RrcOk (s : RrcState β) : Prop where
  owned : ∃ rest, s.mem.inUse = s.owned + rest
  memNodup : s.mem.inUse.Nodup
  live : ∀ a ∈ s.gRrcUeContextList, (s.rrcUeContext a).deleteFlag = false
  unique : (s.gRrcUeContextList.map fun a => (s.rrcUeContext a).rnti).Nodup
  ready : ∀ a ∈ s.gReadyRrcUeContextList,
    ((s.rrcUeContext a).ueIdentity.imsiPresent || (s.rrcUeContext a).ueIdentity.mTmsiPresent)
      = true

variable {s t : RrcState β} {a : β} {rnti : UInt16}

theorem RrcOk.nodup (h : RrcOk s) :
    (s.gRrcUeContextList ++ s.gReadyRrcUeContextList).Nodup := by
  obtain ⟨rest, hr⟩ := h.owned
  have hn := h.memNodup
  rw [hr] at hn
  exact Multiset.coe_nodup.mp (Multiset.nodup_add.mp hn).1

theorem RrcOk.inUse (h : RrcOk s)
    (ha : a ∈ s.gRrcUeContextList ∨ a ∈ s.gReadyRrcUeContextList) : a ∈ s.mem.inUse := by
  obtain ⟨rest, hr⟩ := h.owned
  rw [hr]
  unfold RrcState.owned
  simpa [or_assoc] using Or.inl ha

/-- In a store without refusals, the contexts stay blocks in use. -/
theorem RrcMoves.owned (hm : RrcMoves s t 0 0) (hf : t.mem.failures = s.mem.failures)
    (h : ∃ rest, s.mem.inUse = s.owned + rest) (hn : s.mem.inUse.Nodup) :
    (∃ rest, t.mem.inUse = t.owned + rest) ∧ t.mem.inUse.Nodup := by
  obtain ⟨rest, hr⟩ := h
  have hk := (Moves.transfer hm hf).keeps rest hn (by rw [hr, add_zero])
  exact ⟨⟨rest, by rw [hk.inUse, add_zero]⟩, hk.nodup⟩

/-! ### Finding a context -/

theorem rrcGetUeContext_some (h : rrcGetUeContext s rnti = some a) :
    a ∈ s.gRrcUeContextList ∧ (s.rrcUeContext a).rnti = rnti := by
  unfold rrcGetUeContext at h
  exact ⟨List.mem_of_find?_eq_some h, by simpa using List.find?_some h⟩

theorem rrcGetUeContext_none (h : rrcGetUeContext s rnti = none) :
    ∀ a ∈ s.gRrcUeContextList, (s.rrcUeContext a).rnti ≠ rnti := by
  unfold rrcGetUeContext at h
  simpa using h

/-- The context of an RNTI is the one that is found. -/
theorem RrcOk.rrcGetUeContext (h : RrcOk s) (ha : a ∈ s.gRrcUeContextList)
    (hr : (s.rrcUeContext a).rnti = rnti) : Rrc.rrcGetUeContext s rnti = some a := by
  cases hg : Rrc.rrcGetUeContext s rnti with
  | none => exact absurd hr (rrcGetUeContext_none hg a ha)
  | some b =>
      obtain ⟨hb, hrb⟩ := rrcGetUeContext_some hg
      rw [List.inj_on_of_nodup_map h.unique hb ha (hrb.trans hr.symm)]

theorem alloc_some {n : Nat} (h : s.alloc env n = (t, some a)) :
    a ∉ s.mem.inUse ∧ t = { s with mem := t.mem } := by
  have h1 : (s.mem.alloc env.toPolicy n).2 = some a := congrArg Prod.snd h
  have h2 : (s.alloc env n).1 = t := congrArg Prod.fst h
  refine ⟨(BlockStore.alloc_some h1).2.2, ?_⟩
  rw [← h2]
  rfl

/-- The context `a` of the RNTI has been found in `s`, or is new in `t` and the only change. -/
inductive Found (s : RrcState β) (rnti : UInt16) : RrcState β → β → Prop where
  | there {a : β} : rrcGetUeContext s rnti = some a → Found s rnti s a
  | new {a : β} {m : Store β} : rrcGetUeContext s rnti = none → a ∉ s.mem.inUse →
      Found s rnti
        { s with
          mem := m
          rrcUeContext := Function.update s.rrcUeContext a ⟨0, rnti, false, UeIdentity.zero⟩
          gRrcUeContextList := s.gRrcUeContextList ++ [a] } a

theorem rrcFindOrCreate_found (h : rrcFindOrCreate env s rnti = (t, some a)) :
    Found s rnti t a := by
  unfold rrcFindOrCreate at h
  cases hg : rrcGetUeContext s rnti with
  | some b =>
      rw [hg] at h
      simp only [Prod.mk.injEq, Option.some.injEq] at h
      obtain ⟨rfl, rfl⟩ := h
      exact .there hg
  | none =>
      rw [hg] at h
      unfold rrcCreateUeContext at h
      cases ha : s.alloc env (env.sizeof .rrcUeContext) with
      | mk u o =>
          rw [ha] at h
          cases o with
          | none => simp at h
          | some b =>
              simp only [Prod.mk.injEq, Option.some.injEq] at h
              obtain ⟨rfl, rfl⟩ := h
              obtain ⟨hb, hu⟩ := alloc_some ha
              rw [hu]
              exact .new hg hb

/-! ## The tally -/

/-- The context carries the identity for the RNTI. -/
def carries (r : UInt16) (x : Collected) (c : RrcUeContext) : Bool :=
  c.rnti == r && x.heldBy c.ueIdentity

/-- How many contexts carry the identity for the RNTI. -/
def tally (r : UInt16) (x : Collected) (s : RrcState β) : Nat :=
  (s.gRrcUeContextList.map s.rrcUeContext).countP (carries r x)
    + (s.gReadyRrcUeContextList.map s.rrcUeContext).countP (carries r x)

theorem map_update_of_not_mem {γ : Type} (f : β → γ) {l : List β} (h : a ∉ l) (c : γ) :
    l.map (Function.update f a c) = l.map f := by
  apply List.map_congr_left
  intro b hb
  exact Function.update_of_ne (ne_of_mem_of_not_mem hb h) _ _

theorem countP_singleton_toNat {γ : Type} (p : γ → Bool) (c : γ) :
    [c].countP p = (p c).toNat := by
  cases h : p c <;> simp [h]

/-- Writing to one of the elements. -/
theorem countP_map_update {γ : Type} (p : γ → Bool) (f : β → γ) (c : γ) {l : List β}
    (hn : l.Nodup) (ha : a ∈ l) :
    (l.map (Function.update f a c)).countP p + (p (f a)).toNat
      = (l.map f).countP p + (p c).toNat := by
  obtain ⟨l₁, l₂, rfl⟩ := List.append_of_mem ha
  have hnot : a ∉ l₁ ∧ a ∉ l₂ := by
    have := List.nodup_middle.mp hn
    simpa using (List.nodup_cons.mp this).1
  rw [List.map_append, List.map_append, List.map_cons, List.map_cons, Function.update_self,
    map_update_of_not_mem f hnot.1, map_update_of_not_mem f hnot.2, List.countP_append,
    List.countP_append, ← List.singleton_append (x := c), ← List.singleton_append (x := f a),
    List.countP_append, List.countP_append, countP_singleton_toNat, countP_singleton_toNat]
  omega

/-- A new context carries nothing, so the tally is the same. -/
theorem Found.tally (h : Found s rnti t a) (hs : RrcOk s) (r : UInt16) (x : Collected) :
    Worker.tally r x t = Worker.tally r x s := by
  cases h with
  | there _ => rfl
  | new _ hfresh =>
      have h1 : a ∉ s.gRrcUeContextList := fun h => hfresh (hs.inUse (Or.inl h))
      have h2 : a ∉ s.gReadyRrcUeContextList := fun h => hfresh (hs.inUse (Or.inr h))
      unfold Worker.tally
      rw [List.map_append, map_update_of_not_mem _ h1, map_update_of_not_mem _ h2,
        List.countP_append]
      simp [carries]

/-- What is found in a sound state is a context of the RNTI, and the state is sound. -/
theorem Found.ok (h : Found s rnti t a) (hs : RrcOk s) (hm : RrcMoves s t 0 0)
    (hf : t.mem.failures = s.mem.failures) :
    RrcOk t ∧ a ∈ t.gRrcUeContextList ∧ (t.rrcUeContext a).rnti = rnti := by
  obtain ⟨howned, hnodup⟩ := RrcMoves.owned hm hf hs.owned hs.memNodup
  cases h with
  | there hg => exact ⟨hs, rrcGetUeContext_some hg⟩
  | new hg hfresh =>
      have h1 : a ∉ s.gRrcUeContextList := fun h => hfresh (hs.inUse (Or.inl h))
      have h2 : a ∉ s.gReadyRrcUeContextList := fun h => hfresh (hs.inUse (Or.inr h))
      refine ⟨⟨howned, hnodup, ?_, ?_, ?_⟩, by simp, by simp⟩
      · intro b hb
        show (Function.update s.rrcUeContext a _ b).deleteFlag = false
        rcases List.mem_append.mp hb with hb | hb
        · rw [Function.update_of_ne (ne_of_mem_of_not_mem hb h1)]
          exact hs.live b hb
        · obtain rfl := List.mem_singleton.mp hb
          rw [Function.update_self]
      · have hmap : s.gRrcUeContextList.map (fun b => (Function.update s.rrcUeContext a
            ⟨0, rnti, false, UeIdentity.zero⟩ b).rnti)
            = s.gRrcUeContextList.map fun b => (s.rrcUeContext b).rnti := by
          apply List.map_congr_left
          intro b hb
          rw [Function.update_of_ne (ne_of_mem_of_not_mem hb h1)]
        rw [List.map_append, hmap]
        refine List.nodup_append.mpr ⟨hs.unique, by simp, ?_⟩
        intro x hx y hy
        obtain ⟨b, hb, rfl⟩ := List.mem_map.mp hx
        simp only [List.map_cons, Function.update_self, List.map_nil, List.mem_singleton] at hy
        rw [hy]
        exact rrcGetUeContext_none hg b hb
      · intro b hb
        simp only
        rw [Function.update_of_ne (ne_of_mem_of_not_mem hb h2)]
        exact hs.ready b hb

/-! ### The cases of an update -/

/-- A context with another identity written to it. -/
def rewritten (x : Collected) (msgType : UInt8) (c : RrcUeContext) : RrcUeContext :=
  let id := x.write c.ueIdentity
  { c with ueIdentity := if msgType ≠ noMsgType then { id with msgType := msgType } else id }

@[simp] theorem carries_rewritten (r : UInt16) (x y : Collected) (msgType : UInt8)
    (c : RrcUeContext) :
    carries r y (rewritten x msgType c)
      = (c.rnti == r && if x.sameKind y then decide (y = x) else y.heldBy c.ueIdentity) := by
  unfold carries rewritten
  rw [← Collected.heldBy_write x y c.ueIdentity]
  simp only
  split <;> simp

/-- What an update does to a context that is not being deleted, if there is memory: nothing
when the identity is already recorded; otherwise the identity is counted and written, and a
context with another one of the kind is copied to the ready list before. -/
inductive Updated (x : Collected) (msgType : UInt8) (s : RrcState β) (a : β) :
    RrcState β → Prop where
  | kept : x.heldBy (s.rrcUeContext a).ueIdentity = true → Updated x msgType s a s
  | added : x.present (s.rrcUeContext a).ueIdentity = false →
      Updated x msgType s a
        { s with
          gLteKpi := x.count s.gLteKpi
          rrcUeContext :=
            Function.update s.rrcUeContext a (rewritten x msgType (s.rrcUeContext a)) }
  | replaced {old : β} {m : Store β} : x.present (s.rrcUeContext a).ueIdentity = true →
      x.heldBy (s.rrcUeContext a).ueIdentity = false → old ∉ s.mem.inUse →
      Updated x msgType s a
        { s with
          mem := m
          gLteKpi := x.count s.gLteKpi
          rrcUeContext :=
            Function.update (Function.update s.rrcUeContext old (s.rrcUeContext a)) a
              (rewritten x msgType (s.rrcUeContext a))
          gReadyRrcUeContextList := s.gReadyRrcUeContextList ++ [old] }

theorem rrcUpdate_updated {x : Collected} {msgType : UInt8}
    (hlive : (s.rrcUeContext a).deleteFlag = false)
    (hf : (rrcUpdate env x s a msgType).1.mem.failures = s.mem.failures) :
    Updated x msgType s a (rrcUpdate env x s a msgType).1 := by
  have hl : rrcLiveContext env s a = (s, some a) := by
    unfold rrcLiveContext
    rw [if_neg (by rw [hlive]; decide)]
  rw [rrcUpdate_eq] at hf ⊢
  unfold rrcUpdateIdentity at hf ⊢
  simp only [hl] at hf ⊢
  by_cases hheld : x.heldBy (s.rrcUeContext a).ueIdentity = true
  · have hb : (x.present (s.rrcUeContext a).ueIdentity
        && x.same (s.rrcUeContext a).ueIdentity) = true := hheld
    rw [if_pos hb]
    exact .kept hheld
  · have hb : ¬(x.present (s.rrcUeContext a).ueIdentity
        && x.same (s.rrcUeContext a).ueIdentity) = true := hheld
    rw [if_neg hb] at hf ⊢
    by_cases hp : x.present (s.rrcUeContext a).ueIdentity = true
    · rw [if_pos hp] at hf ⊢
      unfold rrcCopyToReady at hf ⊢
      cases ha : s.alloc env (env.sizeof .rrcUeContext) with
      | mk u o =>
          rw [ha] at hf
          cases o with
          | none =>
              have hlt := alloc_refused ha
              exact absurd hf hlt.ne'
          | some old =>
              obtain ⟨hold, hu⟩ := alloc_some ha
              have hsame : Function.update s.rrcUeContext old (s.rrcUeContext a) a
                  = s.rrcUeContext a := by
                by_cases he : a = old
                · rw [he, Function.update_self]
                · rw [Function.update_of_ne he]
              have hupd : Updated x msgType s a _ :=
                .replaced (m := u.mem) hp (Bool.not_eq_true _ ▸ hheld) hold
              rw [hu]
              simpa only [RrcState.setIdentity, RrcState.setContext, RrcState.countKpi, hsame,
                rewritten] using hupd
    · rw [if_neg hp]
      exact .added (Bool.not_eq_true _ ▸ hp)

theorem Updated.ok {x : Collected} {msgType : UInt8} (h : Updated x msgType s a t)
    (hs : RrcOk s) (ha : a ∈ s.gRrcUeContextList) (hm : RrcMoves s t 0 0)
    (hf : t.mem.failures = s.mem.failures) : RrcOk t := by
  obtain ⟨howned, hnodup⟩ := RrcMoves.owned hm hf hs.owned hs.memNodup
  have hready : a ∉ s.gReadyRrcUeContextList := by
    intro hr
    exact (List.nodup_append.mp hs.nodup).2.2 a ha a hr rfl
  -- the context keeps its RNTI and its flag
  have hflag : ∀ f : β → RrcUeContext,
      (∀ b ∈ s.gRrcUeContextList, f b = s.rrcUeContext b) →
      (∀ b ∈ s.gRrcUeContextList,
        (Function.update f a (rewritten x msgType (s.rrcUeContext a)) b).deleteFlag = false) ∧
      (s.gRrcUeContextList.map fun b =>
        (Function.update f a (rewritten x msgType (s.rrcUeContext a)) b).rnti).Nodup := by
    intro f hfs
    constructor
    · intro b hb
      by_cases hba : b = a
      · rw [hba, Function.update_self]
        exact hs.live a ha
      · rw [Function.update_of_ne hba, hfs b hb]
        exact hs.live b hb
    · have hmap : s.gRrcUeContextList.map (fun b =>
          (Function.update f a (rewritten x msgType (s.rrcUeContext a)) b).rnti)
          = s.gRrcUeContextList.map fun b => (s.rrcUeContext b).rnti := by
        apply List.map_congr_left
        intro b hb
        by_cases hba : b = a
        · rw [hba, Function.update_self]
          rfl
        · rw [Function.update_of_ne hba, hfs b hb]
      rw [hmap]
      exact hs.unique
  cases h with
  | kept _ => exact hs
  | added _ =>
      obtain ⟨h1, h2⟩ := hflag s.rrcUeContext fun _ _ => rfl
      refine ⟨howned, hnodup, h1, h2, ?_⟩
      intro b hb
      simp only
      rw [Function.update_of_ne (ne_of_mem_of_not_mem hb hready)]
      exact hs.ready b hb
  | @replaced old m hp _ hold =>
      have hmain : ∀ b ∈ s.gRrcUeContextList, b ≠ old := fun b hb =>
        ne_of_mem_of_not_mem (hs.inUse (Or.inl hb)) hold
      obtain ⟨h1, h2⟩ := hflag (Function.update s.rrcUeContext old (s.rrcUeContext a))
        fun b hb => Function.update_of_ne (hmain b hb) _ _
      refine ⟨howned, hnodup, h1, h2, ?_⟩
      intro b hb
      simp only at hb ⊢
      rcases List.mem_append.mp hb with hb | hb
      · have hbo : b ≠ old := ne_of_mem_of_not_mem (hs.inUse (Or.inr hb)) hold
        rw [Function.update_of_ne (ne_of_mem_of_not_mem hb hready), Function.update_of_ne hbo]
        exact hs.ready b hb
      · obtain rfl := List.mem_singleton.mp hb
        rw [Function.update_of_ne (hmain a ha).symm, Function.update_self]
        cases x with
        | imsi x =>
            have : (s.rrcUeContext a).ueIdentity.imsiPresent = true := hp
            rw [this, Bool.true_or]
        | mTmsi v =>
            have : (s.rrcUeContext a).ueIdentity.mTmsiPresent = true := hp
            rw [this, Bool.or_true]

@[simp] theorem sameKind_self (x : Collected) : x.sameKind x = true := by cases x <;> rfl

/-- What a context carries after another identity has been written to it. -/
theorem toNat_carries_rewritten (r : UInt16) (x y : Collected) (msgType : UInt8)
    (c : RrcUeContext) :
    (carries r y (rewritten x msgType c)).toNat
      = (if c.rnti = r ∧ y = x then 1 else 0)
        + (if c.rnti = r ∧ x.sameKind y = false ∧ y.heldBy c.ueIdentity = true then 1
           else 0) := by
  rw [carries_rewritten]
  by_cases hr : c.rnti = r
  · by_cases hk : x.sameKind y = true
    · by_cases hxy : y = x
      · simp [hr, hxy]
      · simp [hr, hk, hxy]
    · have hxy : y ≠ x := fun he => hk (he ▸ sameKind_self x)
      cases hy : y.heldBy c.ueIdentity <;> simp [hr, hk, hxy]
  · simp [hr]

/-- The same, compared with what the context carried before, if it held no identity of the
kind that is written. -/
theorem toNat_carries_added {x : Collected} {c : RrcUeContext}
    (hp : x.present c.ueIdentity = false) (r : UInt16) (y : Collected) (msgType : UInt8) :
    (carries r y (rewritten x msgType c)).toNat
      = (carries r y c).toNat + (if c.rnti = r ∧ y = x then 1 else 0) := by
  rw [carries_rewritten]
  unfold carries
  by_cases hr : c.rnti = r
  · by_cases hk : x.sameKind y = true
    · have hy : y.heldBy c.ueIdentity = false :=
        Collected.heldBy_of_not_present (Collected.present_of_sameKind hk _ ▸ hp)
      rw [if_pos hk, hy]
      by_cases hxy : y = x <;> simp [hr, hxy]
    · have hxy : y ≠ x := fun he => hk (he ▸ sameKind_self x)
      simp [hr, hk, hxy]
  · have hb : (c.rnti == r) = false := by simpa using hr
    simp [hb, hr]

/-- **What an update does to the tally** of any identity: one more for the identity that is
recorded, unless it already is; one more for an identity of the other kind that the context
holds, if another of the kind of the recorded one is replaced. -/
theorem Updated.tally {x : Collected} {msgType : UInt8} (h : Updated x msgType s a t)
    (hs : RrcOk s) (ha : a ∈ s.gRrcUeContextList) {c : RrcUeContext}
    (hc : s.rrcUeContext a = c) (r : UInt16) (y : Collected) :
    Worker.tally r y t = Worker.tally r y s
      + (if x.heldBy c.ueIdentity = false then if c.rnti = r ∧ y = x then 1 else 0 else 0)
      + (if (x.present c.ueIdentity && !x.same c.ueIdentity) = true then
          if c.rnti = r ∧ x.sameKind y = false ∧ y.heldBy c.ueIdentity = true then 1 else 0
         else 0) := by
  have hready : a ∉ s.gReadyRrcUeContextList := by
    intro hr
    exact (List.nodup_append.mp hs.nodup).2.2 a ha a hr rfl
  have hnodup : s.gRrcUeContextList.Nodup := (List.nodup_append.mp hs.nodup).1
  cases h with
  | kept hheld =>
      rw [hc] at hheld
      have hsame : x.same c.ueIdentity = true := (Bool.and_eq_true_iff.mp hheld).2
      simp [hheld, hsame]
  | added hp =>
      have hmain := countP_map_update (carries r y) s.rrcUeContext
        (rewritten x msgType (s.rrcUeContext a)) hnodup ha
      rw [hc] at hp hmain
      rw [toNat_carries_added hp] at hmain
      unfold Worker.tally
      simp only [map_update_of_not_mem _ hready, hc, hp, Collected.heldBy_of_not_present hp,
        Bool.false_and, Bool.false_eq_true, if_false, if_true]
      omega
  | @replaced old m hp hheld hold =>
      have hao : a ≠ old := ne_of_mem_of_not_mem (hs.inUse (Or.inl ha)) hold
      have hmain := countP_map_update (carries r y)
        (Function.update s.rrcUeContext old (s.rrcUeContext a))
        (rewritten x msgType (s.rrcUeContext a)) hnodup ha
      have h1 : old ∉ s.gRrcUeContextList := fun h => hold (hs.inUse (Or.inl h))
      have h2 : old ∉ s.gReadyRrcUeContextList := fun h => hold (hs.inUse (Or.inr h))
      rw [Function.update_of_ne hao, map_update_of_not_mem _ h1] at hmain
      rw [hc] at hp hheld hmain
      rw [toNat_carries_rewritten] at hmain
      have hsame : x.same c.ueIdentity = false := by
        simpa [Collected.heldBy, hp] using hheld
      have hreplaced : (x.present c.ueIdentity && !x.same c.ueIdentity) = true := by
        rw [hp, hsame]
        rfl
      unfold Worker.tally
      simp only [List.map_append, List.map_cons, List.map_nil, List.countP_append]
      rw [map_update_of_not_mem _ hready, map_update_of_not_mem _ h2,
        Function.update_of_ne hao.symm, Function.update_self, hc, countP_singleton_toNat,
        if_pos hheld, if_pos hreplaced]
      omega

end Updates

end LteUlp.Worker
