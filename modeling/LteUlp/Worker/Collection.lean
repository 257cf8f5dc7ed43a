import LteUlp.Worker.Identities
import LteUlp.Worker.Report

set_option autoImplicit false
set_option linter.unusedSectionVars false

/-! # No collected identity is lost

Updates of identities and report passes follow each other in any order. What a pass takes
from a context it puts into the report, so the number of entries that carry an identity, and
of contexts that do, is the same before and after it (`reportPass_passed`). With what an
update does to the tally this gives the balance of a whole run (`Reachable.balance`), from
which both results are read off: an identity that was accepted is always somewhere, and it is
not reported more often than it was counted, apart from the copies that a replacement of the
other identity of the context makes.
-/

namespace LteUlp.Worker

open BlockStore LteUlp.Rrc LteUlp.Mac

/-! ## The report pass -/

section Pass

variable {β : Type} [DecidableEq β] {s s' s'' : MacState β} {a : β}
variable {entries entries' entries'' : List UeIdentity} (cfg : ReportConfig)

/-- The entry reports the identity for the RNTI. -/
def reports (r : UInt16) (x : Collected) (id : UeIdentity) : Bool :=
  id.rnti == r && x.heldBy id

theorem reports_reportEntry (r : UInt16) (x : Collected) (c : RrcUeContext) :
    reports r x (reportEntry c) = carries r x c := by
  unfold reports carries reportEntry
  rw [Collected.heldBy_rnti]

/-- The RRC contexts are sound, and the MAC contexts are other blocks in use. -/
structure MacOk (s : MacState β) : Prop where
  rrc : RrcOk s.toRrcState
  owned : ∃ rest, s.mem.inUse = s.toRrcState.owned + (↑s.gMacUeContext + rest)

/-- What every part of the pass does: the state stays sound, no memory is asked for, and the
entries and contexts that carry an identity are as many as before. -/
structure Passed (s : MacState β) (entries : List UeIdentity) (s' : MacState β)
    (entries' : List UeIdentity) : Prop where
  ok : MacOk s'
  failures : s'.mem.failures = s.mem.failures
  balance : ∀ r x, entries'.countP (reports r x) + tally r x s'.toRrcState
    = entries.countP (reports r x) + tally r x s.toRrcState

theorem Passed.refl (h : MacOk s) (entries : List UeIdentity) : Passed s entries s entries :=
  ⟨h, rfl, fun _ _ => rfl⟩

theorem Passed.trans (h : Passed s entries s' entries') (h' : Passed s' entries' s'' entries'') :
    Passed s entries s'' entries'' :=
  ⟨h'.ok, h'.failures.trans h.failures, fun r x => (h'.balance r x).trans (h.balance r x)⟩

/-! ### Blocks given back -/

theorem release_inUse {m : Store β} {rest : Multiset β} (hn : m.inUse.Nodup)
    (he : m.inUse = {a} + rest) : (m.release a).inUse = rest ∧ (m.release a).inUse.Nodup := by
  have hk := (release_transfer m a).keeps rest hn he
  exact ⟨by rw [hk.inUse, zero_add], hk.nodup⟩

theorem coe_eq_add_erase {l : List β} (ha : a ∈ l) :
    (l : Multiset β) = {a} + ↑(l.erase a) := by
  rw [Multiset.singleton_add, ← Multiset.coe_erase]
  exact (Multiset.cons_erase ha).symm

theorem countP_map_erase {γ : Type} (p : γ → Bool) (f : β → γ) {l : List β} (ha : a ∈ l) :
    (l.map f).countP p = ((l.erase a).map f).countP p + (p (f a)).toNat := by
  have hp := ((List.perm_cons_erase ha).map f).countP_eq p
  rw [hp, List.map_cons, List.countP_cons]
  cases p (f a) <;> rfl

/-- A context is reported and given back. -/
theorem MacOk.report_ready {rest : List β} (h : MacOk s)
    (hl : s.gReadyRrcUeContextList = a :: rest) (entries : List UeIdentity) :
    Passed s entries
      ((s.onRrc fun t => { t with gReadyRrcUeContextList := rest }).free a)
      (entries ++ [reportEntry (s.rrcUeContext a)]) := by
  obtain ⟨others, ho⟩ := h.owned
  have he : s.mem.inUse
      = {a} + ((s.gRrcUeContextList : Multiset β) + ↑rest + (↑s.gMacUeContext + others)) := by
    rw [ho]
    unfold RrcState.owned
    rw [hl, ← Multiset.cons_coe, ← Multiset.singleton_add]
    ac_rfl
  obtain ⟨hu, hn⟩ := release_inUse h.rrc.memNodup he
  constructor
  · refine ⟨⟨⟨_, hu⟩, hn, h.rrc.live, h.rrc.unique, ?_⟩, ⟨others, hu⟩⟩
    intro b hb
    exact h.rrc.ready b (hl ▸ List.mem_cons_of_mem a hb)
  · exact release_failures s.mem a
  · intro r x
    have ht : tally r x s.toRrcState
        = (s.gRrcUeContextList.map s.rrcUeContext).countP (carries r x)
          + ((rest.map s.rrcUeContext).countP (carries r x)
            + (carries r x (s.rrcUeContext a)).toNat) := by
      unfold tally
      rw [hl, List.map_cons, List.countP_cons]
      cases carries r x (s.rrcUeContext a) <;> rfl
    rw [List.countP_append, countP_singleton_toNat, reports_reportEntry, ht]
    show _ + ((s.gRrcUeContextList.map s.rrcUeContext).countP (carries r x)
      + (rest.map s.rrcUeContext).countP (carries r x)) = _
    omega

/-- The first loop. -/
theorem reportReady_passed (count : Nat) (h : MacOk s) (entries : List UeIdentity) :
    Passed s entries (reportReady count s entries).1 (reportReady count s entries).2 := by
  induction count generalizing s entries with
  | zero => exact .refl h entries
  | succ count ih =>
      unfold reportReady
      split
      · exact .refl h entries
      · rename_i a rest hl
        have hid : hasIdentity (s.rrcUeContext a).ueIdentity = true :=
          h.rrc.ready a (hl ▸ List.mem_cons_self)
        have hp := h.report_ready hl entries
        simp only [hid, if_true]
        split
        · exact hp
        · exact hp.trans (ih hp.ok _)

/-- Writing to a context, but not to its identity. -/
theorem MacOk.setContext {c : RrcUeContext} (h : MacOk s) (hr : c.rnti = (s.rrcUeContext a).rnti)
    (hd : c.deleteFlag = (s.rrcUeContext a).deleteFlag)
    (hi : c.ueIdentity = (s.rrcUeContext a).ueIdentity) (entries : List UeIdentity) :
    Passed s entries (s.onRrc fun t => t.setContext a c) entries := by
  have hf : ∀ b, (Function.update s.rrcUeContext a c b).rnti = (s.rrcUeContext b).rnti ∧
      (Function.update s.rrcUeContext a c b).deleteFlag = (s.rrcUeContext b).deleteFlag ∧
      (Function.update s.rrcUeContext a c b).ueIdentity = (s.rrcUeContext b).ueIdentity := by
    intro b
    by_cases hb : b = a
    · rw [hb, Function.update_self]
      exact ⟨hr, hd, hi⟩
    · rw [Function.update_of_ne hb]
      exact ⟨rfl, rfl, rfl⟩
  constructor
  · refine ⟨⟨h.rrc.owned, h.rrc.memNodup, ?_, ?_, ?_⟩, h.owned⟩
    · intro b hb
      exact (hf b).2.1.trans (h.rrc.live b hb)
    · have hm : s.gRrcUeContextList.map (fun b => (Function.update s.rrcUeContext a c b).rnti)
          = s.gRrcUeContextList.map fun b => (s.rrcUeContext b).rnti :=
        List.map_congr_left fun b _ => (hf b).1
      show (s.gRrcUeContextList.map fun b => (Function.update s.rrcUeContext a c b).rnti).Nodup
      rw [hm]
      exact h.rrc.unique
    · intro b hb
      show ((Function.update s.rrcUeContext a c b).ueIdentity.imsiPresent ||
        (Function.update s.rrcUeContext a c b).ueIdentity.mTmsiPresent) = true
      rw [(hf b).2.2]
      exact h.rrc.ready b hb
  · rfl
  · intro r x
    have hc : ∀ l : List β, (l.map (Function.update s.rrcUeContext a c)).countP (carries r x)
        = (l.map s.rrcUeContext).countP (carries r x) := by
      intro l
      rw [List.countP_map, List.countP_map]
      apply List.countP_congr
      intro b _
      simp only [Function.comp_apply, carries, (hf b).1, (hf b).2.2]
    show _ + ((s.gRrcUeContextList.map (Function.update s.rrcUeContext a c)).countP _
      + (s.gReadyRrcUeContextList.map (Function.update s.rrcUeContext a c)).countP _) = _
    rw [hc, hc]
    rfl

theorem MacOk.updateTime (h : MacOk s) (a : β) (value : UInt16) (entries : List UeIdentity) :
    Passed s entries (s.onRrc fun t => rrcUpdateUeContextTime t (some a) value) entries :=
  let c := s.rrcUeContext a
  h.setContext (a := a)
    (c := { c with idleCount := if value = 0 then 0 else c.idleCount + value })
    rfl rfl rfl entries

/-- A context of the main list is given back, after it has been reported if it holds an
identity. -/
theorem MacOk.report_main (h : MacOk s) (ha : a ∈ s.gRrcUeContextList) (c : RrcUeContext)
    (entries : List UeIdentity) :
    Passed s entries (s.onRrc fun t => rrcDeleteUeContext (t.setContext a c) a)
      (if hasIdentity (s.rrcUeContext a).ueIdentity then
        entries ++ [reportEntry (s.rrcUeContext a)] else entries) := by
  obtain ⟨others, ho⟩ := h.owned
  have hnodup : s.gRrcUeContextList.Nodup := (List.nodup_append.mp h.rrc.nodup).1
  have hmain : a ∉ s.gRrcUeContextList.erase a := hnodup.not_mem_erase
  have hready : a ∉ s.gReadyRrcUeContextList := by
    intro hr
    exact (List.nodup_append.mp h.rrc.nodup).2.2 a ha a hr rfl
  have he : s.mem.inUse = {a} + (((s.gRrcUeContextList.erase a : List β) : Multiset β)
      + ↑s.gReadyRrcUeContextList + (↑s.gMacUeContext + others)) := by
    rw [ho]
    unfold RrcState.owned
    rw [coe_eq_add_erase ha]
    ac_rfl
  obtain ⟨hu, hn⟩ := release_inUse h.rrc.memNodup he
  constructor
  · refine ⟨⟨⟨_, hu⟩, hn, ?_, ?_, ?_⟩, ⟨others, hu⟩⟩
    · intro b hb
      show (Function.update s.rrcUeContext a c b).deleteFlag = false
      rw [Function.update_of_ne (ne_of_mem_of_not_mem hb hmain)]
      exact h.rrc.live b (List.mem_of_mem_erase hb)
    · show ((s.gRrcUeContextList.erase a).map fun b =>
        (Function.update s.rrcUeContext a c b).rnti).Nodup
      have hm : (s.gRrcUeContextList.erase a).map
          (fun b => (Function.update s.rrcUeContext a c b).rnti)
          = (s.gRrcUeContextList.erase a).map fun b => (s.rrcUeContext b).rnti := by
        apply List.map_congr_left
        intro b hb
        rw [Function.update_of_ne (ne_of_mem_of_not_mem hb hmain)]
      rw [hm]
      exact (List.erase_sublist.map _).nodup h.rrc.unique
    · intro b hb
      show ((Function.update s.rrcUeContext a c b).ueIdentity.imsiPresent ||
        (Function.update s.rrcUeContext a c b).ueIdentity.mTmsiPresent) = true
      rw [Function.update_of_ne (ne_of_mem_of_not_mem hb hready)]
      exact h.rrc.ready b hb
  · exact release_failures s.mem a
  · intro r x
    have herase := countP_map_erase (carries r x) s.rrcUeContext ha
    -- a context without an identity carries nothing
    have hentries : (if hasIdentity (s.rrcUeContext a).ueIdentity then
        entries ++ [reportEntry (s.rrcUeContext a)] else entries).countP (reports r x)
        = entries.countP (reports r x) + (carries r x (s.rrcUeContext a)).toNat := by
      split
      · rw [List.countP_append, countP_singleton_toNat, reports_reportEntry]
      · rename_i hno
        have hnot : x.heldBy (s.rrcUeContext a).ueIdentity = false := by
          by_contra hx
          exact hno (Collected.heldBy_hasIdentity (Bool.not_eq_false _ ▸ hx))
        simp [carries, hnot]
    rw [hentries]
    show _ + (((s.gRrcUeContextList.erase a).map (Function.update s.rrcUeContext a c)).countP _
      + (s.gReadyRrcUeContextList.map (Function.update s.rrcUeContext a c)).countP _) = _
    rw [map_update_of_not_mem _ hmain, map_update_of_not_mem _ hready]
    unfold tally
    omega

/-- The body of the second loop. It deletes no other context than the one it is at. -/
theorem reportContext_passed (h : MacOk s) (ha : a ∈ s.gRrcUeContextList)
    (entries : List UeIdentity) :
    Passed s entries (reportContext cfg s entries a).1 (reportContext cfg s entries a).2 ∧
      ∀ b ∈ s.gRrcUeContextList, b ≠ a →
        b ∈ (reportContext cfg s entries a).1.gRrcUeContextList := by
  unfold reportContext
  simp only
  split
  · refine ⟨h.report_main ha _ entries, ?_⟩
    intro b hb hne
    exact (List.mem_erase_of_ne hne).mpr hb
  · exact ⟨h.updateTime a 1 entries, fun b hb _ => hb⟩

/-- The second loop. -/
theorem reportContexts_passed {l : List β} (h : MacOk s) (hn : l.Nodup)
    (hl : ∀ a ∈ l, a ∈ s.gRrcUeContextList) (entries : List UeIdentity) :
    Passed s entries (reportContexts cfg l s entries).1 (reportContexts cfg l s entries).2 := by
  induction l generalizing s entries with
  | nil => exact .refl h entries
  | cons a rest ih =>
      obtain ⟨hp, hstay⟩ := reportContext_passed cfg h (hl a List.mem_cons_self) entries
      obtain ⟨hnot, hnodup⟩ := List.nodup_cons.mp hn
      apply hp.trans
      apply ih hp.ok hnodup
      intro b hb
      exact hstay b (hl b (List.mem_cons_of_mem a hb)) (ne_of_mem_of_not_mem hb hnot)

/-- A MAC context is given back. -/
theorem MacOk.delete_mac (h : MacOk s) (ha : a ∈ s.gMacUeContext) (entries : List UeIdentity) :
    Passed s entries (macDeleteUeContext s a) entries := by
  obtain ⟨others, ho⟩ := h.owned
  have he : s.mem.inUse
      = {a} + (s.toRrcState.owned + (((s.gMacUeContext.erase a : List β) : Multiset β) + others))
      := by
    rw [ho, coe_eq_add_erase ha]
    ac_rfl
  obtain ⟨hu, hn⟩ := release_inUse h.rrc.memNodup he
  refine ⟨⟨⟨⟨_, hu⟩, hn, h.rrc.live, h.rrc.unique, h.rrc.ready⟩, ⟨others, hu⟩⟩, ?_, ?_⟩
  · exact release_failures s.mem a
  · exact fun _ _ => rfl

/-- The body of the third loop. Its entries report no identity. -/
theorem reportMacContext_passed (h : MacOk s) (ha : a ∈ s.gMacUeContext)
    (entries : List UeIdentity) :
    Passed s entries (reportMacContext cfg s entries a).1
        (reportMacContext cfg s entries a).2 ∧
      ∀ b ∈ s.gMacUeContext, b ≠ a →
        b ∈ (reportMacContext cfg s entries a).1.gMacUeContext := by
  have hwrite : ∀ {t : MacState β} (c : MacUeContext), MacOk t → MacOk (t.setMacContext a c) :=
    fun _ ht => ⟨ht.rrc, ht.owned⟩
  unfold reportMacContext
  simp only
  split
  · have hp := (hwrite { s.macUeContext a with deleteFlag := true } h).delete_mac ha entries
    refine ⟨⟨hwrite _ hp.ok, hp.failures, ?_⟩, ?_⟩
    · intro r x
      have hnot : reports r x
          { cfg.stale entries.length with
            rnti := (s.macUeContext a).rnti, imsiPresent := false, mTmsiPresent := false }
          = false := by
        cases x <;> simp [reports, Collected.heldBy, Collected.present]
      rw [List.countP_append, countP_singleton_toNat, hnot]
      exact hp.balance r x
    · intro b hb hne
      exact (List.mem_erase_of_ne hne).mpr hb
  · exact ⟨⟨hwrite _ h, rfl, fun _ _ => rfl⟩, fun b hb _ => hb⟩

/-- The third loop. -/
theorem reportMacContexts_passed {l : List β} (h : MacOk s) (hn : l.Nodup)
    (hl : ∀ a ∈ l, a ∈ s.gMacUeContext) (entries : List UeIdentity) :
    Passed s entries (reportMacContexts cfg l s entries).1
      (reportMacContexts cfg l s entries).2 := by
  induction l generalizing s entries with
  | nil => exact .refl h entries
  | cons a rest ih =>
      obtain ⟨hp, hstay⟩ :=
        reportMacContext_passed cfg h (hl a List.mem_cons_self) entries
      obtain ⟨hnot, hnodup⟩ := List.nodup_cons.mp hn
      apply hp.trans
      apply ih hp.ok hnodup
      intro b hb
      exact hstay b (hl b (List.mem_cons_of_mem a hb)) (ne_of_mem_of_not_mem hb hnot)

theorem MacOk.nodup_mac (h : MacOk s) : s.gMacUeContext.Nodup := by
  obtain ⟨others, ho⟩ := h.owned
  have hn := h.rrc.memNodup
  rw [ho] at hn
  have hmac := (Multiset.nodup_add.mp (Multiset.nodup_add.mp hn).2.1).1
  exact Multiset.coe_nodup.mp hmac

/-- **What a report pass does**: nothing is lost, and nothing is added. -/
theorem reportPass_passed (h : MacOk s) :
    Passed s [] (reportPass cfg s).1 (reportPass cfg s).2 := by
  have h1 := reportReady_passed s.gReadyRrcUeContextList.length h []
  have hnodup := (List.nodup_append.mp h1.ok.rrc.nodup).1
  apply h1.trans
  have h2 := fun entries =>
    reportContexts_passed cfg h1.ok hnodup (fun _ ha => ha) entries
  apply (h2 _).trans
  exact reportMacContexts_passed cfg (h2 _).ok (h2 _).ok.nodup_mac (fun _ ha => ha) _

end Pass

/-! ## Runs -/

section Run

variable {β : Type} [DecidableEq β]

/-- What the worker is asked to do: record an identity, or report. A MAC context is created
when data of a new RNTI arrives. -/
inductive Event where
  | update (rnti : UInt16) (x : Collected) (msgType : UInt8)
  | pass (cfg : ReportConfig)
  | macContext (rnti : UInt16)

/-- The state, and what has happened so far: the entries that were reported, the updates that
were accepted and those of them that were counted, and the identities that an update found in
a context whose identity of the same kind it replaced. -/
structure Collector (β : Type) where
  state : MacState β
  reported : List UeIdentity
  accepted : List (UInt16 × Collected)
  counted : List (UInt16 × Collected)
  replaced : List (UInt16 × Collected × UeIdentity)

/-- What the context of the RNTI holds, if the update replaces another identity. -/
def replacedIdentity (s : RrcState β) (rnti : UInt16) (x : Collected) : Option UeIdentity :=
  match rrcGetUeContext s rnti with
  | some a =>
      let id := (s.rrcUeContext a).ueIdentity
      if x.present id && !x.same id then some id else none
  | none => none

/-- One event. An update is counted if it changes the counter of its kind. -/
def Collector.step (env : Platform β) (c : Collector β) : Event → Collector β
  | .update rnti x msgType =>
      let s := c.state.toRrcState
      let t := collect env s rnti x msgType
      { state := { c.state with toRrcState := t }
        reported := c.reported
        accepted := c.accepted ++ [(rnti, x)]
        counted :=
          if x.counter t.gLteKpi ≠ x.counter s.gLteKpi then c.counted ++ [(rnti, x)]
          else c.counted
        replaced :=
          match replacedIdentity s rnti x with
          | some id => c.replaced ++ [(rnti, x, id)]
          | none => c.replaced }
  | .pass cfg =>
      let r := reportPass cfg c.state
      { c with state := r.1, reported := c.reported ++ r.2 }
  | .macContext rnti =>
      match macGetUeContext c.state rnti with
      | some _ => c
      | none => { c with state := (macCreateUeContext env c.state rnti).1 }

/-- After initialisation: no context yet. -/
structure Started (s : MacState β) : Prop where
  rrc : s.gRrcUeContextList = []
  ready : s.gReadyRrcUeContextList = []
  mac : s.gMacUeContext = []
  nodup : s.mem.inUse.Nodup

/-- The runs in which no allocation is refused. -/
inductive Reachable (env : Platform β) : Collector β → Prop where
  | start {s : MacState β} : Started s → Reachable env ⟨s, [], [], [], []⟩
  | step {c : Collector β} (e : Event) : Reachable env c →
      (c.step env e).state.mem.failures = c.state.mem.failures → Reachable env (c.step env e)

variable {env : Platform β} {s t u : RrcState β} {a : β} {rnti : UInt16}
variable {x : Collected} {msgType : UInt8}

/-! ### One update -/

theorem Found.replacedIdentity (h : Found s rnti u a) (x : Collected) :
    Worker.replacedIdentity s rnti x =
      if x.present (u.rrcUeContext a).ueIdentity && !x.same (u.rrcUeContext a).ueIdentity then
        some (u.rrcUeContext a).ueIdentity
      else none := by
  unfold Worker.replacedIdentity
  cases h with
  | there hg => rw [hg]
  | new hg _ =>
      have hzero : x.present UeIdentity.zero = false := by cases x <;> rfl
      rw [hg]
      simp [hzero]

theorem Found.gLteKpi (h : Found s rnti u a) : u.gLteKpi = s.gLteKpi := by
  cases h <;> rfl

/-- An update counts unless the identity is already recorded. -/
theorem Updated.counter (h : Updated x msgType u a t) :
    x.counter t.gLteKpi ≠ x.counter u.gLteKpi ↔
      x.heldBy (u.rrcUeContext a).ueIdentity = false := by
  cases h with
  | kept hheld => simp [hheld]
  | added hp =>
      simp only [Collected.heldBy_of_not_present hp, iff_true]
      exact Collected.counter_count x _
  | replaced _ hheld _ =>
      simp only [hheld, iff_true]
      exact Collected.counter_count x _

/-- Afterwards the context carries the identity. -/
theorem Updated.carries (h : Updated x msgType u a t) (ha : a ∈ u.gRrcUeContextList)
    (hr : (u.rrcUeContext a).rnti = rnti) :
    a ∈ t.gRrcUeContextList ∧ Worker.carries rnti x (t.rrcUeContext a) = true := by
  cases h with
  | kept hheld => exact ⟨ha, by simp [Worker.carries, hr, hheld]⟩
  | added _ => exact ⟨ha, by simp [hr]⟩
  | replaced _ _ _ => exact ⟨ha, by simp [hr]⟩

theorem one_le_tally (ha : a ∈ s.gRrcUeContextList)
    (hc : carries rnti x (s.rrcUeContext a) = true) : 1 ≤ tally rnti x s := by
  have hpos : 0 < (s.gRrcUeContextList.map s.rrcUeContext).countP (carries rnti x) :=
    List.countP_pos_iff.mpr ⟨_, List.mem_map_of_mem ha, hc⟩
  unfold tally
  omega

/-- The update made a copy of a context that holds the identity, and replaced another one in
the original. -/
def copies (r : UInt16) (y : Collected) (e : UInt16 × Collected × UeIdentity) : Bool :=
  e.1 == r && !e.2.1.sameKind y && y.heldBy e.2.2

/-- **One update**: the contexts stay sound, the identity is carried afterwards, and the
tally grows by what is counted and what is copied. -/
theorem collect_spec (hs : RrcOk s)
    (hf : (collect env s rnti x msgType).mem.failures = s.mem.failures) :
    RrcOk (collect env s rnti x msgType) ∧
    1 ≤ tally rnti x (collect env s rnti x msgType) ∧
    ∀ r y, tally r y (collect env s rnti x msgType) = tally r y s
      + (if x.counter (collect env s rnti x msgType).gLteKpi ≠ x.counter s.gLteKpi then
          if rnti = r ∧ y = x then 1 else 0 else 0)
      + (replacedIdentity s rnti x).elim 0 fun id => (copies r y (rnti, x, id)).toNat := by
  unfold collect at hf ⊢
  cases hfc : rrcFindOrCreate env s rnti with
  | mk u o =>
      rw [hfc] at hf
      cases o with
      | none =>
          have hlt := rrcFindOrCreate_refused hfc
          exact absurd hf hlt.ne'
      | some a =>
          have hfound := rrcFindOrCreate_found hfc
          have hmoves := rrcFindOrCreate_moves hfc
          have hupdate : RrcMoves u (rrcUpdate env x u a msgType).1 0 0 := by
            rw [rrcUpdate_eq]
            exact rrcUpdateIdentity_moves _ _ _ _ _ u a msgType
          have hfu : u.mem.failures = s.mem.failures :=
            le_antisymm (hf ▸ hupdate.failures) hmoves.failures
          have hft : (rrcUpdate env x u a msgType).1.mem.failures = u.mem.failures :=
            hf.trans hfu.symm
          obtain ⟨hu, ha, hr⟩ := hfound.ok hs hmoves hfu
          have hupd := rrcUpdate_updated (hu.live a ha) hft
          obtain ⟨hat, hcarry⟩ := hupd.carries ha hr
          refine ⟨hupd.ok hu ha hupdate hft, one_le_tally hat hcarry, fun r y => ?_⟩
          have htally := hupd.tally hu ha rfl r y
          rw [hr, hfound.tally hs r y] at htally
          show tally r y (rrcUpdate env x u a msgType).1 = _
          rw [htally, ← hfound.gLteKpi, hfound.replacedIdentity x]
          congr 1
          · simp only [hupd.counter]
          · split
            · simp only [Option.elim_some, copies]
              by_cases hrr : rnti = r
              · cases x.sameKind y <;>
                  cases y.heldBy (u.rrcUeContext a).ueIdentity <;> simp [hrr]
              · have hb : (rnti == r) = false := by simpa using hrr
                simp [hrr, hb]
            · rfl

/-! ### The invariant of a run -/

/-- **What holds after every event.** Every identity is carried by as many entries and
contexts together as its updates were counted, and copies of it were made. An accepted
identity has been counted or copied. -/
structure Collector.Ok (c : Collector β) : Prop where
  state : MacOk c.state
  balance : ∀ r x, c.reported.countP (reports r x) + tally r x c.state.toRrcState
    = c.counted.count (r, x) + c.replaced.countP (copies r x)
  accepted : ∀ r x, (r, x) ∈ c.accepted →
    1 ≤ c.counted.count (r, x) + c.replaced.countP (copies r x)

/-- Soundness of the whole from that of the RRC layer, after something that only the RRC
layer did. -/
theorem MacOk.of_moves {s : MacState β} {t : RrcState β} (h : MacOk s)
    (hm : RrcMoves s.toRrcState t 0 0) (hf : t.mem.failures = s.mem.failures) (ht : RrcOk t) :
    MacOk { s with toRrcState := t } := by
  obtain ⟨others, ho⟩ := h.owned
  have hk := (Moves.transfer hm hf).keeps (↑s.gMacUeContext + others) h.rrc.memNodup
    (by rw [ho, add_zero])
  exact ⟨ht, others, by rw [← add_zero t.owned]; exact hk.inUse⟩

theorem Collector.Ok.update {c : Collector β} (h : c.Ok)
    (hf : (c.step env (.update rnti x msgType)).state.mem.failures = c.state.mem.failures) :
    (c.step env (.update rnti x msgType)).Ok := by
  obtain ⟨hrrc, hone, htally⟩ := collect_spec h.state.rrc hf
  -- what the two logs gain
  have hcounted : ∀ r y, (c.step env (.update rnti x msgType)).counted.count (r, y)
      = c.counted.count (r, y)
        + (if x.counter (collect env c.state.toRrcState rnti x msgType).gLteKpi
              ≠ x.counter c.state.gLteKpi then
            if rnti = r ∧ y = x then 1 else 0 else 0) := by
    intro r y
    show List.count (r, y) (if _ then _ else _) = _
    split
    · have hpair : ((rnti, x) == (r, y)) = true ↔ rnti = r ∧ y = x := by
        rw [beq_iff_eq, Prod.mk.injEq, @eq_comm _ x y]
      rw [List.count_append, List.count_singleton]
      simp only [hpair]
    · rfl
  have hreplaced : ∀ r y, (c.step env (.update rnti x msgType)).replaced.countP (copies r y)
      = c.replaced.countP (copies r y)
        + (replacedIdentity c.state.toRrcState rnti x).elim 0
            fun id => (copies r y (rnti, x, id)).toNat := by
    intro r y
    simp only [Collector.step]
    cases replacedIdentity c.state.toRrcState rnti x with
    | none => rfl
    | some id => rw [List.countP_append, countP_singleton_toNat, Option.elim_some]
  have hbalance : ∀ r y, (c.step env (.update rnti x msgType)).reported.countP (reports r y)
        + tally r y (c.step env (.update rnti x msgType)).state.toRrcState
      = (c.step env (.update rnti x msgType)).counted.count (r, y)
        + (c.step env (.update rnti x msgType)).replaced.countP (copies r y) := by
    intro r y
    have hb := h.balance r y
    have ht := htally r y
    rw [hcounted, hreplaced]
    show c.reported.countP _ + tally r y (collect env c.state.toRrcState rnti x msgType) = _
    rw [ht]
    omega
  constructor
  · exact h.state.of_moves (collect_moves _ _ _ _) hf hrrc
  · exact hbalance
  · intro r y hy
    rcases List.mem_append.mp (show (r, y) ∈ c.accepted ++ [(rnti, x)] from hy) with hy | hy
    · have h1 := h.accepted r y hy
      rw [hcounted, hreplaced]
      omega
    · obtain ⟨rfl, rfl⟩ := Prod.mk.inj (List.mem_singleton.mp hy)
      have hb := hbalance r y
      have hone' : 1 ≤ tally r y (c.step env (.update r y msgType)).state.toRrcState := hone
      omega

theorem Collector.Ok.pass {c : Collector β} (h : c.Ok) (cfg : ReportConfig) :
    (c.step env (.pass cfg)).Ok := by
  have hp := reportPass_passed cfg h.state
  constructor
  · exact hp.ok
  · intro r x
    have hb := h.balance r x
    have hpass := hp.balance r x
    show (c.reported ++ (reportPass cfg c.state).2).countP _
      + tally r x (reportPass cfg c.state).1.toRrcState = _
    rw [List.countP_append, add_assoc, hpass, List.countP_nil, zero_add]
    exact hb
  · exact h.accepted

theorem Collector.Ok.macContext {c : Collector β} (h : c.Ok) (rnti : UInt16)
    (hf : (c.step env (.macContext rnti)).state.mem.failures = c.state.mem.failures) :
    (c.step env (.macContext rnti)).Ok := by
  simp only [Collector.step] at hf ⊢
  cases hg : macGetUeContext c.state rnti with
  | some _ => exact h
  | none =>
      rw [hg] at hf
      simp only at hf ⊢
      unfold macCreateUeContext at hf ⊢
      cases ha : c.state.toRrcState.alloc env (env.sizeof .macUeContext) with
      | mk t o =>
          simp only [MacState.alloc, ha] at hf ⊢
          cases o with
          | none =>
              have hlt := alloc_refused ha
              exact absurd hf hlt.ne'
          | some a =>
              obtain ⟨others, ho⟩ := h.state.owned
              obtain ⟨hfresh, ht⟩ := alloc_some ha
              have hk := (Moves.transfer (alloc_moves ha) hf).keeps
                (↑c.state.gMacUeContext + others) h.state.rrc.memNodup (by rw [ho, add_zero])
              have howned : t.owned = c.state.toRrcState.owned := by rw [ht]; rfl
              have huse : t.mem.inUse
                  = c.state.toRrcState.owned
                    + (((c.state.gMacUeContext ++ [a] : List β) : Multiset β) + others) := by
                rw [hk.inUse, howned, ← Multiset.coe_add, Multiset.coe_singleton]
                ac_rfl
              have hrrc : RrcOk t := by
                rw [ht] at huse hk ⊢
                exact ⟨⟨_, huse⟩, hk.nodup, h.state.rrc.live, h.state.rrc.unique,
                  h.state.rrc.ready⟩
              refine ⟨⟨hrrc, others, ?_⟩, ?_, h.accepted⟩
              · show t.mem.inUse = t.owned + _
                rw [howned]
                exact huse
              · intro r x
                have htally : tally r x t = tally r x c.state.toRrcState := by rw [ht]; rfl
                show _ + tally r x t = _
                rw [htally]
                exact h.balance r x

theorem Reachable.ok {c : Collector β} (h : Reachable env c) : c.Ok := by
  induction h with
  | @start s hs =>
      have howned : s.toRrcState.owned = 0 := by
        unfold RrcState.owned
        rw [hs.rrc, hs.ready]
        rfl
      refine ⟨⟨⟨⟨s.mem.inUse, by rw [howned, zero_add]⟩, hs.nodup, ?_, ?_, ?_⟩,
        ⟨s.mem.inUse, ?_⟩⟩, ?_, ?_⟩
      · simp [hs.rrc]
      · simp [hs.rrc]
      · simp [hs.ready]
      · simp [howned, hs.mac]
      · intro r x
        simp [tally, hs.rrc, hs.ready]
      · simp
  | step e _ hf ih =>
      cases e with
      | update rnti x msgType => exact ih.update hf
      | pass cfg => exact ih.pass cfg
      | macContext rnti => exact ih.macContext rnti hf

/-- A report pass asks for no memory, so it can always follow. -/
theorem Reachable.pass {c : Collector β} (h : Reachable env c) (cfg : ReportConfig) :
    Reachable env (c.step env (.pass cfg)) :=
  h.step (.pass cfg) (reportPass_passed cfg h.ok.state).failures

/-! ### A run

An IMSI and an M-TMSI are recorded for one RNTI, the M-TMSI changes, and the contexts are
reported: the one with the new M-TMSI, and the copy with the old one. -/

/-- The digits of the IMSI. -/
def someImsi : Imsi := ⟨[4, 6, 0, 0, 4, 1, 1, 4, 3, 7, 0, 2, 9, 4, 7], rfl⟩

def someConfig : ReportConfig := ⟨10, 10, fun _ => UeIdentity.zero⟩

def startedCollector : Collector Nat := ⟨⟨freshState, default, []⟩, [], [], [], []⟩

/-- The collector after the run. -/
def reportedCollector : Collector Nat :=
  (((startedCollector.step freshPlatform (.update 61 (.imsi someImsi) noMsgType)).step
    freshPlatform (.update 61 (.mTmsi 1) attachRequestType)).step
    freshPlatform (.update 61 (.mTmsi 2) attachRequestType)).step
    freshPlatform (.pass someConfig)

theorem reportedCollector_reachable : Reachable freshPlatform reportedCollector := by
  have h0 : Reachable freshPlatform startedCollector :=
    .start ⟨rfl, rfl, rfl, Multiset.nodup_zero⟩
  have h1 := h0.step (.update 61 (.imsi someImsi) noMsgType) (by decide +kernel)
  have h2 := h1.step (.update 61 (.mTmsi 1) attachRequestType) (by decide +kernel)
  have h3 := h2.step (.update 61 (.mTmsi 2) attachRequestType) (by decide +kernel)
  exact h3.pass someConfig

/-! ### The two results -/

/-- **No collected identity is lost.** After every run, an identity that was accepted is in an
entry that has been reported, in the context of its RNTI or in one that is ready. -/
theorem accepted_identity_kept {c : Collector β} (h : Reachable env c) {r : UInt16}
    {x : Collected} (hx : (r, x) ∈ c.accepted) :
    (∃ id ∈ c.reported, id.rnti = r ∧ x.heldBy id = true) ∨
    (∃ a, rrcGetUeContext c.state.toRrcState r = some a ∧
      x.heldBy (c.state.rrcUeContext a).ueIdentity = true) ∨
    (∃ a ∈ c.state.gReadyRrcUeContextList, (c.state.rrcUeContext a).rnti = r ∧
      x.heldBy (c.state.rrcUeContext a).ueIdentity = true) := by
  have hok := h.ok
  have hpos : 0 < c.reported.countP (reports r x) + tally r x c.state.toRrcState := by
    rw [hok.balance]
    exact hok.accepted r x hx
  have hsome : ∀ {l : List β},
      0 < (l.map c.state.rrcUeContext).countP (carries r x) →
      ∃ a ∈ l, (c.state.rrcUeContext a).rnti = r ∧
        x.heldBy (c.state.rrcUeContext a).ueIdentity = true := by
    intro l hl
    obtain ⟨ctx, hmem, hctx⟩ := List.countP_pos_iff.mp hl
    obtain ⟨a, ha, rfl⟩ := List.mem_map.mp hmem
    exact ⟨a, ha, by simpa [carries] using hctx⟩
  rcases Nat.eq_zero_or_pos (c.reported.countP (reports r x)) with hrep | hrep
  · right
    unfold tally at hpos
    rcases Nat.eq_zero_or_pos
      ((c.state.gRrcUeContextList.map c.state.rrcUeContext).countP (carries r x)) with hm | hm
    · right
      apply hsome
      omega
    · left
      obtain ⟨a, ha, hr, hheld⟩ := hsome hm
      exact ⟨a, hok.state.rrc.rrcGetUeContext ha hr, hheld⟩
  · left
    obtain ⟨id, hid, hrep⟩ := List.countP_pos_iff.mp hrep
    exact ⟨id, hid, by simpa [reports] using hrep⟩

/-- The first IMSI of the run is in a reported entry. -/
theorem accepted_identity_kept_reported :
    (61, Collected.imsi someImsi) ∈ reportedCollector.accepted ∧
      ((∃ id ∈ reportedCollector.reported, id.rnti = 61 ∧
        (Collected.imsi someImsi).heldBy id = true) ∨
      (∃ a, rrcGetUeContext reportedCollector.state.toRrcState 61 = some a ∧
        (Collected.imsi someImsi).heldBy (reportedCollector.state.rrcUeContext a).ueIdentity
          = true) ∨
      (∃ a ∈ reportedCollector.state.gReadyRrcUeContextList,
        (reportedCollector.state.rrcUeContext a).rnti = 61 ∧
        (Collected.imsi someImsi).heldBy (reportedCollector.state.rrcUeContext a).ueIdentity
          = true)) := by
  have hx : (61, Collected.imsi someImsi) ∈ reportedCollector.accepted := by decide +kernel
  exact ⟨hx, accepted_identity_kept reportedCollector_reachable hx⟩

/-- **How often an identity is reported**: at most as often as it was counted, and once more
for every update that replaced the other identity of a context that held it. -/
theorem reported_le_counted_add_copied {c : Collector β} (h : Reachable env c) (r : UInt16)
    (x : Collected) :
    c.reported.countP (reports r x) ≤ c.counted.count (r, x) + c.replaced.countP (copies r x) := by
  have hb := h.ok.balance r x
  omega

/-- The IMSI of the run is reported twice, and one of the two is the copy. -/
theorem reported_le_counted_add_copied_reported :
    reportedCollector.reported.countP (reports 61 (.imsi someImsi))
      ≤ reportedCollector.counted.count (61, .imsi someImsi)
        + reportedCollector.replaced.countP (copies 61 (.imsi someImsi)) :=
  reported_le_counted_add_copied reportedCollector_reachable 61 (.imsi someImsi)

/-- It was counted once. -/
theorem reported_twice_counted_once :
    ¬ ∀ c : Collector Nat, Reachable freshPlatform c → ∀ r x,
      c.reported.countP (reports r x) ≤ c.counted.count (r, x) := by
  intro h
  have hle := h reportedCollector reportedCollector_reachable 61 (.imsi someImsi)
  have hreported : reportedCollector.reported.countP (reports 61 (.imsi someImsi)) = 2 := by
    decide +kernel
  have hcounted : reportedCollector.counted.count (61, .imsi someImsi) = 1 := by
    decide +kernel
  omega

end Run

end LteUlp.Worker
