import LteUlp.Mac.Ownership
import LteUlp.Rlc.Cleanup
import LteUlp.Worker.Report

set_option autoImplicit false
set_option linter.unusedSectionVars false

/-! # Runs of the uplink path

PHY indications, cleanup passes and report passes, one after the other. Contexts are created
by the indications and deleted by the two passes. A pass sets the flag of a context just
before it unlinks it, so between two events no context has the flag, and no RNTI has two
contexts in one layer.

In a run of indications the blocks in use are those of the contexts, the entities and the
incomplete SDUs, and those of the SDUs that PDCP and RRC return from early with.
-/

namespace LteUlp.Worker

open BlockStore LteUlp.Rrc LteUlp.Pdcp LteUlp.Rlc LteUlp.Mac

variable {β : Type} [DecidableEq β]

/-! ## The report pass -/

/-- The contexts of the MAC and RRC layers are sound, and the blocks `xs` are in use too. -/
structure ReportSound (s : MacState β) (xs : Multiset β) : Prop where
  mac : MacSound s
  rrc : RrcSound s.toRrcState (s.gMacUeContext + xs)

section Report

variable {s t : MacState β} {xs : Multiset β} {a b : β} {cfg : ReportConfig}

/-- A context is taken out of the list; its block is in hand. -/
theorem rrcUnlink_sound {s : RrcState β} (h : RrcSound s xs) (ha : a ∈ s.gRrcUeContextList)
    (c : RrcUeContext) :
    RrcSound { s.setContext a c with gRrcUeContextList := s.gRrcUeContextList.erase a }
      (xs + {a}) := by
  have hn : s.gRrcUeContextList.Nodup := h.unique.of_map
  have hold : ∀ b ∈ s.gRrcUeContextList.erase a, Function.update s.rrcUeContext a c b
      = s.rrcUeContext b := fun b hb =>
    Function.update_of_ne (ne_of_mem_of_not_mem hb hn.not_mem_erase) _ _
  have hperm : (s.gRrcUeContextList : Multiset β) = {a} + (s.gRrcUeContextList.erase a : List β) :=
    Multiset.coe_eq_coe.mpr (List.perm_cons_erase ha)
  have howned : s.owned + xs = ((s.gRrcUeContextList.erase a : List β) : Multiset β)
      + (s.gReadyRrcUeContextList : Multiset β) + (xs + {a}) := by
    unfold RrcState.owned
    rw [hperm]
    ac_rfl
  refine ⟨h.nodup, ?_, fun b hb => ?_, ?_⟩
  · exact howned ▸ h.owned
  · show (Function.update s.rrcUeContext a c b).deleteFlag = false
    rw [hold b hb]
    exact h.live b (List.mem_of_mem_erase hb)
  · show ((s.gRrcUeContextList.erase a).map fun b =>
      (Function.update s.rrcUeContext a c b).rnti).Nodup
    rw [List.map_congr_left fun b hb => congrArg RrcUeContext.rnti (hold b hb)]
    exact h.unique.sublist (List.erase_sublist.map _)

theorem reportReady_sound (count : Nat) (h : ReportSound s xs) (entries : List UeIdentity) :
    ReportSound (reportReady count s entries).1 xs := by
  induction count generalizing s entries with
  | zero => exact h
  | succ count ih =>
      unfold reportReady
      cases hl : s.gReadyRrcUeContextList with
      | nil => exact h
      | cons a rest =>
          have hpop : RrcSound { s.toRrcState with gReadyRrcUeContextList := rest }
              (s.gMacUeContext + xs + {a}) := by
            refine ⟨h.rrc.nodup, ?_, h.rrc.live, h.rrc.unique⟩
            have howned := h.rrc.owned
            unfold RrcState.owned at howned ⊢
            rw [hl, ← Multiset.cons_coe, ← Multiset.singleton_add] at howned
            refine le_of_eq_of_le ?_ howned
            show (s.gRrcUeContextList : Multiset β) + (rest : Multiset β)
              + (s.gMacUeContext + xs + {a}) = _
            ac_rfl
          have hmac : MacSound (s.onRrc fun t => { t with gReadyRrcUeContextList := rest }) :=
            h.mac.same rfl fun _ _ => ⟨rfl, rfl⟩
          have hfree : ReportSound
              ((s.onRrc fun t => { t with gReadyRrcUeContextList := rest }).free a) xs :=
            ⟨h.mac.same rfl fun _ _ => ⟨rfl, rfl⟩, free_sound hpop⟩
          simp only
          split
          · split
            · exact hfree
            · exact ih hfree _
          · exact ih ⟨hmac, hpop.drop⟩ entries

theorem reportContext_sound (h : ReportSound s xs) (ha : a ∈ s.gRrcUeContextList)
    (entries : List UeIdentity) : ReportSound (reportContext cfg s entries a).1 xs := by
  unfold reportContext
  simp only
  split
  · exact ⟨h.mac.same rfl fun _ _ => ⟨rfl, rfl⟩, free_sound (rrcUnlink_sound h.rrc ha _)⟩
  · refine ⟨h.mac.same rfl fun _ _ => ⟨rfl, rfl⟩, ?_⟩
    have hx : RrcSound s.toRrcState (0 + (s.gMacUeContext + xs)) := by
      rw [zero_add]
      exact h.rrc
    have hs : RrcSound (rrcUpdateUeContextTime s.toRrcState (some a) 1)
        (0 + (s.gMacUeContext + xs)) := hx.same (.of_eq rfl rfl rfl 0) rfl fun b _ => ?_
    · rw [zero_add] at hs
      exact hs
    · unfold rrcUpdateUeContextTime RrcState.setContext
      by_cases hba : b = a
      · subst hba
        simp
      · simp [Function.update_of_ne hba]

theorem mem_reportContext (s : MacState β) (entries : List UeIdentity)
    (hb : b ∈ s.gRrcUeContextList) (hba : b ≠ a) :
    b ∈ (reportContext cfg s entries a).1.gRrcUeContextList := by
  unfold reportContext
  simp only
  split
  · exact (List.mem_erase_of_ne hba).mpr hb
  · exact hb

theorem reportContexts_sound (l : List β) (hn : l.Nodup) (h : ReportSound s xs)
    (hl : ∀ a ∈ l, a ∈ s.gRrcUeContextList) (entries : List UeIdentity) :
    ReportSound (reportContexts cfg l s entries).1 xs := by
  induction l generalizing s entries with
  | nil => exact h
  | cons a l ih =>
      obtain ⟨ha, hn⟩ := List.nodup_cons.mp hn
      refine ih hn (reportContext_sound h (hl a List.mem_cons_self) entries) (fun b hb => ?_) _
      exact mem_reportContext s entries (hl b (List.mem_cons_of_mem a hb))
        (ne_of_mem_of_not_mem hb ha)

theorem reportMacContext_sound (h : ReportSound s xs) (ha : a ∈ s.gMacUeContext)
    (entries : List UeIdentity) : ReportSound (reportMacContext cfg s entries a).1 xs := by
  -- a context whose idle count is written to
  have hidle : ∀ (c : MacUeContext) (b : β), (Function.update s.macUeContext a
        { s.macUeContext a with idleCount := c.idleCount } b).deleteFlag
        = (s.macUeContext b).deleteFlag ∧ (Function.update s.macUeContext a
        { s.macUeContext a with idleCount := c.idleCount } b).rnti = (s.macUeContext b).rnti := by
    intro c b
    by_cases hba : b = a
    · subst hba
      simp
    · simp [Function.update_of_ne hba]
  unfold reportMacContext
  simp only
  split
  · have hn : s.gMacUeContext.Nodup := h.mac.unique.of_map
    have hperm : (s.gMacUeContext : Multiset β) = {a} + (s.gMacUeContext.erase a : List β) :=
      Multiset.coe_eq_coe.mpr (List.perm_cons_erase ha)
    constructor
    · have hsub : MacSound { s with gMacUeContext := s.gMacUeContext.erase a } :=
        ⟨fun b hb => h.mac.live b (List.mem_of_mem_erase hb),
          h.mac.unique.sublist (List.erase_sublist.map _)⟩
      refine hsub.same rfl fun b hb => ?_
      have hba : b ≠ a := ne_of_mem_of_not_mem hb hn.not_mem_erase
      simp [macUpdateUeContextTime, macDeleteUeContext, MacState.setMacContext, MacState.free,
        MacState.onRrc, Function.update_of_ne hba]
    · refine free_sound ?_
      have hx := h.rrc
      rw [hperm] at hx
      have heq : ({a} : Multiset β) + ((s.gMacUeContext.erase a : List β) : Multiset β) + xs
          = ((s.gMacUeContext.erase a : List β) : Multiset β) + xs + {a} := by
        ac_rfl
      rw [heq] at hx
      exact hx
  · exact ⟨h.mac.same rfl fun b _ => hidle ⟨_, 0, 0, false, 0, 0⟩ b, h.rrc⟩

theorem mem_reportMacContext (s : MacState β) (entries : List UeIdentity)
    (hb : b ∈ s.gMacUeContext) (hba : b ≠ a) :
    b ∈ (reportMacContext cfg s entries a).1.gMacUeContext := by
  unfold reportMacContext
  simp only
  split
  · exact (List.mem_erase_of_ne hba).mpr hb
  · exact hb

theorem reportMacContexts_sound (l : List β) (hn : l.Nodup) (h : ReportSound s xs)
    (hl : ∀ a ∈ l, a ∈ s.gMacUeContext) (entries : List UeIdentity) :
    ReportSound (reportMacContexts cfg l s entries).1 xs := by
  induction l generalizing s entries with
  | nil => exact h
  | cons a l ih =>
      obtain ⟨ha, hn⟩ := List.nodup_cons.mp hn
      refine ih hn (reportMacContext_sound h (hl a List.mem_cons_self) entries)
        (fun b hb => ?_) _
      exact mem_reportMacContext s entries (hl b (List.mem_cons_of_mem a hb))
        (ne_of_mem_of_not_mem hb ha)

/-- **The report pass** deletes contexts, and leaves the others sound. -/
theorem reportPass_sound (cfg : ReportConfig) (h : ReportSound s xs) :
    ReportSound (reportPass cfg s).1 xs := by
  unfold reportPass
  have h1 := reportReady_sound s.gReadyRrcUeContextList.length h []
  have h2 : ReportSound (reportContexts cfg _ _ _).1 xs :=
    reportContexts_sound _ h1.rrc.unique.of_map h1 (fun _ ha => ha)
      (reportReady s.gReadyRrcUeContextList.length s []).2
  exact reportMacContexts_sound _ h2.mac.unique.of_map h2 (fun _ ha => ha) _

end Report

/-! ## Events -/

/-- What happens to the uplink path: an indication, a cleanup of the RLC layer or a report
pass. -/
inductive UlEvent where
  | phyDataInd (pBuffer : Option (Nat → UInt8)) (length : UInt16)
  | cleanup (gMaxIdleCount : UInt32)
  | report (cfg : ReportConfig)

/-- The event leads from `s` to `t`. An indication whose subheaders go on for ever leads
nowhere. -/
def UlStep (env : MacPlatform β) (s : UlState β) : UlEvent → UlState β → Prop
  | .phyDataInd pBuffer length, t => ∃ fuel, macProcessPhyDataInd env fuel s pBuffer length = some t
  | .cleanup gMaxIdleCount, t => t = s.onRlc (executeCleanup gMaxIdleCount)
  | .report cfg, t =>
      t = s.onRlc fun u => { u with toMacState := (reportPass cfg u.toMacState).1 }

/-- A sequence of events. -/
inductive UlRun (env : MacPlatform β) (s : UlState β) : List UlEvent → UlState β → Prop where
  | start : UlRun env s [] s
  | step {events : List UlEvent} {event : UlEvent} {t u : UlState β} :
      UlRun env s events t → UlStep env t event u → UlRun env s (events ++ [event]) u

/-- The state that an event leads to; `none` where an indication takes more than `fuel`
subheaders. -/
def ulNext (env : MacPlatform β) (fuel : Nat) (s : UlState β) : UlEvent → Option (UlState β)
  | .phyDataInd pBuffer length => macProcessPhyDataInd env fuel s pBuffer length
  | .cleanup gMaxIdleCount => some (s.onRlc (executeCleanup gMaxIdleCount))
  | .report cfg =>
      some (s.onRlc fun u => { u with toMacState := (reportPass cfg u.toMacState).1 })

theorem ulNext_step {env : MacPlatform β} {fuel : Nat} {s t : UlState β} {event : UlEvent}
    (h : ulNext env fuel s event = some t) : UlStep env s event t := by
  cases event with
  | phyDataInd pBuffer length => exact ⟨fuel, h⟩
  | cleanup gMaxIdleCount => exact (Option.some.inj h).symm
  | report cfg => exact (Option.some.inj h).symm

/-- The state that a sequence of events leads to. -/
def ulNexts (env : MacPlatform β) (fuel : Nat) (s : UlState β) (events : List UlEvent) :
    Option (UlState β) := events.foldlM (ulNext env fuel) s

theorem ulNexts_run {env : MacPlatform β} {fuel : Nat} {s t u : UlState β}
    {pre events : List UlEvent} (hrun : UlRun env s pre t)
    (h : ulNexts env fuel t events = some u) : UlRun env s (pre ++ events) u := by
  induction events generalizing pre t with
  | nil =>
      obtain rfl := Option.some.inj h
      rwa [List.append_nil]
  | cons event events ih =>
      obtain ⟨v, hv, hrest⟩ := Option.bind_eq_some_iff.mp h
      rw [List.append_cons]
      exact ih (hrun.step (ulNext_step hv)) hrest

/-- Before the first event there are no contexts. -/
structure UlInitial (s : UlState β) : Prop where
  gMacUeContext : s.gMacUeContext = []
  gRlcUeContextList : s.gRlcUeContextList = []
  gRrcUeContextList : s.gRrcUeContextList = []
  gReadyRrcUeContextList : s.gReadyRrcUeContextList = []
  nodup : s.mem.inUse.Nodup

/-- The contexts of all layers are sound, and their blocks are in use, each once. -/
structure UlSound (s : RlcState β) : Prop where
  rlc : RlcSound s
  rrc : RrcSound s.toRrcState s.rlcOwned

/-- Nothing is in hand between the events. -/
theorem UlSound.inHand {s : RlcState β} (h : UlSound s) :
    RrcSound s.toRrcState (s.rlcOwned + (0 + 0)) := by
  rw [add_zero, add_zero]
  exact h.rrc

section Events

variable {env : MacPlatform β} {s t u : UlState β} {event : UlEvent} {events : List UlEvent}

/-- A step that leaves nothing in hand. -/
theorem receives_sound {s t : RlcState β} (h : Receives s t 0 0)
    (hj : t.refusedJoins = s.refusedJoins) (hs : UlSound s) :
    UlSound t ∧ t.pendingDeletions = s.pendingDeletions := by
  have h1 := h.after hj 0 hs.rlc hs.inHand
  obtain ⟨h2, hp⟩ := h1.rrcSound hj hs.inHand
  rw [add_zero, add_zero] at h2
  exact ⟨⟨h1.sound, h2⟩, hp⟩

theorem step_joins (h : UlStep env s event t) : s.refusedJoins ≤ t.refusedJoins := by
  cases event with
  | phyDataInd pBuffer length =>
      obtain ⟨fuel, h⟩ := h
      exact (macProcessPhyDataInd_receives h).joins
  | cleanup gMaxIdleCount =>
      rw [h]
      exact (executeCleanup_receives gMaxIdleCount s.toRlcState).joins
  | report cfg =>
      rw [h]
      exact le_rfl

/-- **What one event preserves.** -/
theorem step_sound (h : UlStep env s event t) (hj : t.refusedJoins = s.refusedJoins)
    (hs : UlSound s.toRlcState) :
    UlSound t.toRlcState ∧ t.pendingDeletions = s.pendingDeletions := by
  cases event with
  | phyDataInd pBuffer length =>
      obtain ⟨fuel, h⟩ := h
      exact receives_sound (macProcessPhyDataInd_receives h) hj hs
  | cleanup gMaxIdleCount =>
      obtain rfl := h
      exact receives_sound (executeCleanup_receives gMaxIdleCount s.toRlcState) hj hs
  | report cfg =>
      obtain rfl := h
      have hreport : ReportSound s.toMacState ((s.gRlcUeContextList : Multiset β)
          + (s.entities + s.entities.bind (rawBlock s.toRlcState))) :=
        ⟨hs.rlc.mac, hs.rrc⟩
      have hend := reportPass_sound cfg hreport
      exact ⟨⟨⟨hend.mac, hs.rlc.live, hs.rlc.unique, hs.rlc.entity, hs.rlc.rings⟩, hend.rrc⟩,
        rfl⟩

theorem initial_sound (h : UlInitial s) : UlSound s.toRlcState := by
  have hent : s.entities = 0 := by
    unfold RlcState.entities
    rw [h.gRlcUeContextList]
    rfl
  refine ⟨⟨⟨?_, ?_⟩, ?_, ?_, ?_, ?_⟩, ⟨h.nodup, ?_, ?_, ?_⟩⟩
  · rw [h.gMacUeContext]
    simp
  · rw [h.gMacUeContext]
    exact List.nodup_nil
  · rw [h.gRlcUeContextList]
    simp
  · rw [h.gRlcUeContextList]
    exact List.nodup_nil
  · rw [h.gRlcUeContextList]
    simp
  · rw [hent]
    simp
  · unfold RrcState.owned RlcState.rlcOwned
    rw [hent, h.gMacUeContext, h.gRlcUeContextList, h.gRrcUeContextList,
      h.gReadyRrcUeContextList]
    simp
  · rw [h.gRrcUeContextList]
    simp
  · rw [h.gRrcUeContextList]
    exact List.nodup_nil

theorem run_joins (h : UlRun env s events t) : s.refusedJoins ≤ t.refusedJoins := by
  induction h with
  | start => exact le_rfl
  | step _ hstep ih => exact ih.trans (step_joins hstep)

/-- **What a run preserves**, as long as no join is refused. -/
theorem run_sound (hs : UlSound s.toRlcState) (h : UlRun env s events t)
    (hj : t.refusedJoins = s.refusedJoins) :
    UlSound t.toRlcState ∧ t.pendingDeletions = s.pendingDeletions := by
  induction h with
  | start => exact ⟨hs, rfl⟩
  | step hrun hstep ih =>
      have h1 := run_joins hrun
      have h2 := step_joins hstep
      obtain ⟨hsound, hp⟩ := ih (by omega)
      obtain ⟨hsound', hp'⟩ := step_sound hstep (by omega) hsound
      exact ⟨hsound', hp'.trans hp⟩

end Events

/-! ## One context for an RNTI -/

/-- The RNTIs in a list of contexts are different, and no flag is set. -/
def OnePerRnti (l : List β) (rnti : β → UInt16) (deleteFlag : β → Bool) : Prop :=
  l.Nodup ∧ (∀ a ∈ l, ∀ b ∈ l, rnti a = rnti b → a = b) ∧ ∀ a ∈ l, deleteFlag a = false

/-- An entry of the array of a context is null, or an entity in use with the RNTI of the
context and the channel of the entry that no other entry of a context refers to. -/
def EntityOwned (s : RlcState β) (a : β) (i : Nat) : Prop :=
  match (s.rlcUeContext a).rxAmEntityArray i with
  | none => True
  | some e =>
      e ∈ s.mem.inUse ∧ (s.rxAmEntity e).rnti = (s.rlcUeContext a).rnti ∧
        (s.rxAmEntity e).lcId = i ∧ ∀ b ∈ s.gRlcUeContextList, ∀ j < maxLcId,
          (s.rlcUeContext b).rxAmEntityArray j = some e → b = a ∧ j = i

theorem onePerRnti_of_nodup {l : List β} {rnti : β → UInt16} {deleteFlag : β → Bool}
    (hn : (l.map rnti).Nodup) (hlive : ∀ a ∈ l, deleteFlag a = false) :
    OnePerRnti l rnti deleteFlag :=
  ⟨hn.of_map, fun _ ha _ hb h => List.inj_on_of_nodup_map hn ha hb h, hlive⟩

/-- No two contexts share an entity, and no context has it on two channels. -/
theorem entity_unique {s : RlcState β} (hs : UlSound s) {a b e : β} {i j : Nat}
    (ha : a ∈ s.gRlcUeContextList) (hb : b ∈ s.gRlcUeContextList)
    (hi : (s.rlcUeContext a).rxAmEntityArray i = some e)
    (hj : (s.rlcUeContext b).rxAmEntityArray j = some e) : b = a ∧ j = i := by
  obtain ⟨-, hra, hla⟩ := hs.rlc.entity a ha i e hi
  obtain ⟨-, hrb, hlb⟩ := hs.rlc.entity b hb j e hj
  exact ⟨List.inj_on_of_nodup_map hs.rlc.unique hb ha (hrb.symm.trans hra), hlb.symm.trans hla⟩

theorem entityOwned_of_sound {s : RlcState β} (hs : UlSound s) {a : β}
    (ha : a ∈ s.gRlcUeContextList) (i : Nat) : EntityOwned s a i := by
  unfold EntityOwned
  cases he : (s.rlcUeContext a).rxAmEntityArray i with
  | none => trivial
  | some e =>
      obtain ⟨hi, hr, hl⟩ := hs.rlc.entity a ha i e he
      have hmem : e ∈ s.entities := mem_entities.mpr
        ⟨a, ha, mem_contextEntities.mpr ⟨i, hi, he⟩⟩
      refine ⟨?_, hr, hl, fun b hb j _ hj => entity_unique hs ha hb he hj⟩
      exact Multiset.mem_of_le (le_trans (entities_le_rlcOwned s) (inHand_le hs.rrc)) hmem

/-- **Context uniqueness across layers.** In every run in which no join is refused, whatever
other allocations are, each layer has one live context for an RNTI, no entity is shared, and
no packet or message was for a context pending deletion. -/
theorem contexts_unique (env : MacPlatform β) {s t : UlState β} {events : List UlEvent}
    (hs : UlInitial s) (h : UlRun env s events t) (hj : t.refusedJoins = s.refusedJoins) :
    OnePerRnti t.gMacUeContext (fun a => (t.macUeContext a).rnti)
        (fun a => (t.macUeContext a).deleteFlag) ∧
      OnePerRnti t.gRlcUeContextList (fun a => (t.rlcUeContext a).rnti)
        (fun a => (t.rlcUeContext a).deleteFlag) ∧
      OnePerRnti t.gRrcUeContextList (fun a => (t.rrcUeContext a).rnti)
        (fun a => (t.rrcUeContext a).deleteFlag) ∧
      (∀ a ∈ t.gRlcUeContextList, ∀ i < maxLcId, EntityOwned t.toRlcState a i) ∧
      t.pendingDeletions = s.pendingDeletions := by
  obtain ⟨hsound, hp⟩ := run_sound (initial_sound hs) h hj
  exact ⟨onePerRnti_of_nodup hsound.rlc.mac.unique hsound.rlc.mac.live,
    onePerRnti_of_nodup hsound.rlc.unique hsound.rlc.live,
    onePerRnti_of_nodup hsound.rrc.unique hsound.rrc.live,
    fun a ha i _ => entityOwned_of_sound hsound ha i, hp⟩

/-- A platform that never runs out of memory. -/
def freshMacPlatform : MacPlatform Nat where
  toPlatform := freshPlatform
  staleInfo _ := ⟨0, 0, none⟩

/-- No context, and nothing allocated. -/
def freshUlState : UlState Nat where
  toRrcState := freshState
  macUeContext _ := default
  gMacUeContext := []
  rlcUeContext _ := ⟨0, false, 0, fun _ => none⟩
  gRlcUeContextList := []
  rxAmEntity _ := .fresh 0 0
  rlcUeDataInds := []
  refusedJoins := 0
  pendingDeletions := 0
  macUeCcchDataInds := []
  macUeDataInds := []

theorem freshUlState_initial : UlInitial freshUlState := ⟨rfl, rfl, rfl, rfl, Multiset.nodup_zero⟩

/-- The state after some events. -/
def afterEvents (events : List UlEvent) : Option (UlState Nat) :=
  ulNexts freshMacPlatform 8 freshUlState events

/-- The bytes of an indication with one PDU for the RNTI 61, of at most 8 bytes. -/
def indicationOf (pdu : List UInt8) (k : Nat) : UInt8 :=
  if k = 14 then 0x87
  else if k = 35 then 1
  else if k = 40 then 61
  else if k = 44 then UInt8.ofNat (8 * pdu.length)
  else if k = 48 then 2
  else if k = 50 then 1
  else if k < 64 then 0
  else pdu.getD (k - 64) 0

/-- A packet on SRB 1 that holds one SDU of 4 bytes. -/
def wholeSdu : List UInt8 := [0x01, 0x80, 0x00, 0xff, 0xff, 0xff, 0xff]

/-- A packet whose SDU is empty. -/
def emptySdu : List UInt8 := [0x01, 0x80, 0x00]

/-- The state after an indication with this packet. -/
def afterPacket (pdu : List UInt8) : Option (UlState Nat) :=
  macProcessPhyDataInd freshMacPlatform 8 freshUlState (some (indicationOf pdu)) 72

theorem afterPacket_run {pdu : List UInt8} (h : (afterPacket pdu).isSome) :
    UlRun freshMacPlatform freshUlState [.phyDataInd (some (indicationOf pdu)) 72]
      ((afterPacket pdu).get h) := by
  have hstep : UlStep freshMacPlatform freshUlState (.phyDataInd (some (indicationOf pdu)) 72)
      ((afterPacket pdu).get h) := ⟨8, (Option.some_get h).symm⟩
  exact .step .start hstep

theorem wholeSdu_isSome : (afterPacket wholeSdu).isSome := by decide +kernel

theorem emptySdu_isSome : (afterPacket emptySdu).isSome := by decide +kernel

/-- A packet makes a context in the MAC and RLC layers, which the passes keep. -/
theorem contexts_unique_packet :
    ∃ t, UlRun freshMacPlatform freshUlState
        [.phyDataInd (some (indicationOf wholeSdu)) 72, .cleanup 10,
          .report ⟨10, 10, fun _ => UeIdentity.zero⟩] t ∧
      t.gMacUeContext.length = 1 ∧ t.gRlcUeContextList.length = 1 ∧
      OnePerRnti t.gMacUeContext (fun a => (t.macUeContext a).rnti)
        (fun a => (t.macUeContext a).deleteFlag) := by
  have hclean : UlStep freshMacPlatform ((afterPacket wholeSdu).get wholeSdu_isSome)
      (.cleanup 10) _ := rfl
  have hreport : UlStep freshMacPlatform
      (((afterPacket wholeSdu).get wholeSdu_isSome).onRlc (executeCleanup 10))
      (.report ⟨10, 10, fun _ => UeIdentity.zero⟩) _ := rfl
  have hrun := ((afterPacket_run wholeSdu_isSome).step hclean).step hreport
  refine ⟨_, hrun, by decide +kernel, by decide +kernel, ?_⟩
  exact (contexts_unique freshMacPlatform freshUlState_initial hrun (by decide +kernel)).1

end LteUlp.Worker
