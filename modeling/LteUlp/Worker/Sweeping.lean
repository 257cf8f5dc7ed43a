import LteUlp.Basic.Sweep
import LteUlp.Rrc.Ownership
import LteUlp.Worker.Report

set_option autoImplicit false
set_option linter.unusedSectionVars false

/-! # The report pass as three sweeps

The three loops of the report pass share one array of 32 entries. Each walks over a list of
contexts and takes out those that are due as long as there is room in the array; the next
one goes on with the entries that the one before has left. So a pass is three sweeps
(`Basic/Sweep.lean`), and `reportPass_eq` says what it leaves and what it reports in terms of
the lists as they were before it.
-/

namespace LteUlp.Worker

open Sweep LteUlp.Rrc LteUlp.Mac

variable {β : Type} [DecidableEq β]

/-- The second loop deletes the context if there is room. -/
def contextDue (cfg : ReportConfig) (c : RrcUeContext) : Bool :=
  (c.ueIdentity.imsiPresent && c.ueIdentity.mTmsiPresent)
    || decide (c.idleCount.toNat ≥ cfg.gMaxRrcCtxIdleCount)

/-- The third loop deletes the context if there is room. -/
def macContextDue (cfg : ReportConfig) (c : MacUeContext) : Bool :=
  decide (c.idleCount.toNat ≥ cfg.gMaxIdleCount)

/-- The context gets an entry when it is deleted. -/
def reported (s : MacState β) (a : β) : Bool := hasIdentity (s.rrcUeContext a).ueIdentity

/-- The contexts that the first loop pops. -/
def readySweep (s : MacState β) (used : Nat) (l : List β) : Outcome β :=
  sweep (fun _ => true) (reported s) maxNumUeInfoReport used l

/-- The contexts that the second loop deletes. -/
def contextSweep (cfg : ReportConfig) (s : MacState β) (used : Nat) (l : List β) : Outcome β :=
  sweep (fun a => contextDue cfg (s.rrcUeContext a)) (reported s) maxNumUeInfoReport used l

/-- The contexts that the third loop deletes. -/
def macSweep (cfg : ReportConfig) (s : MacState β) (used : Nat) (l : List β) : Outcome β :=
  sweep (fun a => macContextDue cfg (s.macUeContext a)) (fun _ => true) maxNumUeInfoReport
    used l

/-- The entries for the contexts of a list that hold an identity. -/
def reportEntries (s : MacState β) (l : List β) : List UeIdentity :=
  (l.filter (reported s)).map fun a => reportEntry (s.rrcUeContext a)

/-- The entry for a MAC context, at a place of the array. -/
def macEntry (cfg : ReportConfig) (c : MacUeContext) (i : Nat) : UeIdentity :=
  { cfg.stale i with rnti := c.rnti, imsiPresent := false, mTmsiPresent := false }

/-- The entries for MAC contexts, from a place of the array on. -/
def macEntries (cfg : ReportConfig) (s : MacState β) : Nat → List β → List UeIdentity
  | _, [] => []
  | i, a :: l => macEntry cfg (s.macUeContext a) i :: macEntries cfg s (i + 1) l

section Loops

variable {cfg : ReportConfig} {s t : MacState β} {a b : β} {l pre : List β}
variable {entries : List UeIdentity} {used : Nat}

theorem length_reportEntries (s : MacState β) (l : List β) :
    (reportEntries s l).length = l.countP (reported s) := by
  rw [reportEntries, List.length_map, List.countP_eq_length_filter]

theorem reportEntries_append (s : MacState β) (l m : List β) :
    reportEntries s (l ++ m) = reportEntries s l ++ reportEntries s m := by
  simp [reportEntries]

theorem reportEntries_cons_of_reported (h : reported s a = true) (l : List β) :
    reportEntries s (a :: l) = reportEntry (s.rrcUeContext a) :: reportEntries s l := by
  rw [reportEntries, List.filter_cons_of_pos h]
  rfl

theorem reportEntries_cons_of_not (h : reported s a = false) (l : List β) :
    reportEntries s (a :: l) = reportEntries s l := by
  rw [reportEntries, List.filter_cons_of_neg (by simp [h])]
  rfl

/-- The entries depend on the contexts of the list. -/
theorem reportEntries_congr (h : ∀ b ∈ l, t.rrcUeContext b = s.rrcUeContext b) :
    reportEntries t l = reportEntries s l := by
  unfold reportEntries
  have hf : l.filter (reported t) = l.filter (reported s) :=
    List.filter_congr fun b hb => by rw [reported, reported, h b hb]
  rw [hf]
  refine List.map_congr_left fun b hb => ?_
  rw [h b (List.mem_of_mem_filter hb)]

/-- How the second loop adds an entry. -/
theorem append_reportEntries (s : MacState β) (entries : List UeIdentity) (a : β) :
    (if hasIdentity (s.rrcUeContext a).ueIdentity = true then
        entries ++ [reportEntry (s.rrcUeContext a)] else entries)
      = entries ++ reportEntries s [a] := by
  cases hr : reported s a with
  | false =>
      have hno : hasIdentity (s.rrcUeContext a).ueIdentity = false := hr
      rw [hno, if_neg Bool.false_ne_true, reportEntries_cons_of_not hr]
      exact (List.append_nil entries).symm
  | true =>
      have hyes : hasIdentity (s.rrcUeContext a).ueIdentity = true := hr
      rw [hyes, if_pos rfl, reportEntries_cons_of_reported hr]
      rfl

theorem macEntries_congr (i : Nat) (h : ∀ b ∈ l, t.macUeContext b = s.macUeContext b) :
    macEntries cfg t i l = macEntries cfg s i l := by
  induction l generalizing i with
  | nil => rfl
  | cons a l ih =>
      obtain ⟨ha, hl⟩ := List.forall_mem_cons.mp h
      rw [macEntries, macEntries, ha, ih (i + 1) hl]

/-! ## The first loop -/

/-- **The first loop** pops contexts until the array is full. It releases those that it
reports. -/
theorem reportReady_eq (l : List β) (s : MacState β) (hl : s.gReadyRrcUeContextList = l)
    (entries : List UeIdentity) (hroom : entries.length < maxNumUeInfoReport) :
    reportReady l.length s entries
      = (s.onRrc fun t => { t with
          gReadyRrcUeContextList := (readySweep s entries.length l).kept
          mem := ((readySweep s entries.length l).taken.filter (reported s)).foldl
            BlockStore.Store.release t.mem },
        entries ++ reportEntries s (readySweep s entries.length l).taken) := by
  induction l generalizing s entries with
  | nil =>
      show (s, entries)
        = (s.onRrc fun t => { t with gReadyRrcUeContextList := [], mem := t.mem }, entries ++ [])
      rw [List.append_nil, ← hl]
      rfl
  | cons a l ih =>
      rw [List.length_cons, reportReady]
      simp only [hl]
      have hsweep : readySweep s entries.length (a :: l)
          = { readySweep s (entries.length + (reported s a).toNat) l with
              taken := a :: (readySweep s (entries.length + (reported s a).toNat) l).taken } :=
        sweep_cons_taken hroom rfl
      rw [hsweep]
      cases hr : reported s a with
      | false =>
          have hno : hasIdentity (s.rrcUeContext a).ueIdentity = false := hr
          rw [hno, if_neg Bool.false_ne_true, ih _ rfl entries hroom,
            reportEntries_cons_of_not hr, List.filter_cons_of_neg (by simp [hr])]
          rfl
      | true =>
          have hyes : hasIdentity (s.rrcUeContext a).ueIdentity = true := hr
          rw [hyes, if_pos rfl, reportEntries_cons_of_reported hr,
            List.filter_cons_of_pos hr]
          have hlen : (entries ++ [reportEntry (s.rrcUeContext a)]).length
              = entries.length + 1 := by simp
          by_cases hfull : entries.length + 1 = maxNumUeInfoReport
          · -- the array is full, and the loop ends
            have hnone : readySweep s (entries.length + true.toNat) l
                = ⟨l, [], entries.length + true.toNat⟩ :=
              sweep_full (by rw [Bool.toNat_true, hfull]) l
            rw [if_pos (by rw [hlen, hfull]), hnone]
            rfl
          · rw [if_neg (by rw [hlen]; exact hfull), ih _ rfl _ (by rw [hlen]; omega), hlen,
              List.append_assoc]
            rfl

/-! ## The second loop -/

/-- What the second loop does to a context that it deletes. -/
def deletedContext (c : RrcUeContext) : RrcUeContext := { c with deleteFlag := true }

/-- What it does to the others. -/
def idleContext (c : RrcUeContext) : RrcUeContext := { c with idleCount := c.idleCount + 1 }

/-- The contexts after the second loop. -/
def sweptContext (s : MacState β) (o : Outcome β) : β → RrcUeContext :=
  o.after deletedContext idleContext s.rrcUeContext

theorem contextSweep_congr (h : ∀ b ∈ l, t.rrcUeContext b = s.rrcUeContext b) :
    contextSweep cfg t used l = contextSweep cfg s used l :=
  sweep_congr used l fun b hb => by simp only [reported, h b hb, and_self]

theorem contextSweep_cons_taken (h : used < maxNumUeInfoReport)
    (ha : contextDue cfg (s.rrcUeContext a) = true) :
    contextSweep cfg s used (a :: l)
      = { contextSweep cfg s (used + (reported s a).toNat) l with
          taken := a :: (contextSweep cfg s (used + (reported s a).toNat) l).taken } :=
  sweep_cons_taken h ha

theorem contextSweep_cons_kept
    (h : ¬(used < maxNumUeInfoReport ∧ contextDue cfg (s.rrcUeContext a) = true)) :
    contextSweep cfg s used (a :: l)
      = { contextSweep cfg s used l with kept := a :: (contextSweep cfg s used l).kept } :=
  sweep_cons_kept h

theorem mem_contextSweep (hb : b ∉ l) :
    b ∉ (contextSweep cfg s used l).taken ∧ b ∉ (contextSweep cfg s used l).kept :=
  ⟨fun h => hb ((taken_sublist used l).mem h), fun h => hb ((kept_sublist used l).mem h)⟩

/-- What is asked of a context, as the source has it. -/
theorem contextDue_iff (cfg : ReportConfig) (c : RrcUeContext) :
    contextDue cfg c = true ↔
      (c.ueIdentity.imsiPresent && c.ueIdentity.mTmsiPresent) = true ∨
        c.idleCount.toNat ≥ cfg.gMaxRrcCtxIdleCount := by
  simp [contextDue]

theorem reportContext_taken (h : entries.length < maxNumUeInfoReport)
    (hd : contextDue cfg (s.rrcUeContext a) = true) (hl : s.gRrcUeContextList = pre ++ a :: l)
    (hn : (pre ++ a :: l).Nodup) :
    reportContext cfg s entries a
      = (s.onRrc fun t => { t with
          gRrcUeContextList := pre ++ l
          rrcUeContext := Function.update s.rrcUeContext a (deletedContext (s.rrcUeContext a))
          mem := t.mem.release a },
        entries ++ reportEntries s [a]) := by
  have hpre : a ∉ pre := fun hmem =>
    (List.nodup_append.mp hn).2.2 a hmem a List.mem_cons_self rfl
  have herase : s.gRrcUeContextList.erase a = pre ++ l := by
    rw [hl, List.erase_append_right _ hpre, List.erase_cons_head]
  unfold reportContext
  simp only
  rw [if_pos ⟨h, (contextDue_iff cfg _).mp hd⟩, append_reportEntries, ← herase]
  rfl

theorem reportContext_kept
    (h : ¬(entries.length < maxNumUeInfoReport ∧ contextDue cfg (s.rrcUeContext a) = true)) :
    reportContext cfg s entries a
      = (s.onRrc fun t => { t with
          rrcUeContext := Function.update s.rrcUeContext a (idleContext (s.rrcUeContext a)) },
        entries) := by
  rw [contextDue_iff] at h
  unfold reportContext
  simp only
  rw [if_neg h]
  rfl

/-- **The second loop** deletes the contexts that are due while there is room, and counts the
others idle. -/
theorem reportContexts_eq (cfg : ReportConfig) (l pre : List β) (s : MacState β)
    (hl : s.gRrcUeContextList = pre ++ l) (hn : (pre ++ l).Nodup) (entries : List UeIdentity) :
    reportContexts cfg l s entries
      = (s.onRrc fun t => { t with
          gRrcUeContextList := pre ++ (contextSweep cfg s entries.length l).kept
          rrcUeContext := sweptContext s (contextSweep cfg s entries.length l)
          mem := (contextSweep cfg s entries.length l).taken.foldl
            BlockStore.Store.release t.mem },
        entries ++ reportEntries s (contextSweep cfg s entries.length l).taken) := by
  induction l generalizing pre s entries with
  | nil =>
      have hsame : sweptContext s (contextSweep cfg s entries.length []) = s.rrcUeContext :=
        funext fun b => after_of_not_mem List.not_mem_nil
      rw [hsame]
      show (s, entries)
        = (s.onRrc fun t => { t with
            gRrcUeContextList := pre ++ [], rrcUeContext := s.rrcUeContext, mem := t.mem },
          entries ++ [])
      rw [← hl, List.append_nil]
      rfl
  | cons a l ih =>
      have hal : a ∉ l := (List.nodup_cons.mp (List.nodup_append.mp hn).2.1).1
      have hpre : a ∉ pre := fun hmem =>
        (List.nodup_append.mp hn).2.2 a hmem a List.mem_cons_self rfl
      have hother : ∀ c, ∀ b ∈ l, Function.update s.rrcUeContext a c b = s.rrcUeContext b :=
        fun c b hb => Function.update_of_ne (ne_of_mem_of_not_mem hb hal) _ _
      rw [reportContexts]
      by_cases h : entries.length < maxNumUeInfoReport ∧
          contextDue cfg (s.rrcUeContext a) = true
      · have hlen : (entries ++ reportEntries s [a]).length
            = entries.length + (reported s a).toNat := by
          rw [List.length_append, length_reportEntries, List.countP_singleton]
          cases reported s a <;> rfl
        have hsub : (pre ++ l).Nodup :=
          hn.sublist (List.Sublist.append_left (List.sublist_cons_self a l) pre)
        rw [reportContext_taken h.1 h.2 hl hn, contextSweep_cons_taken h.1 h.2]
        simp only
        -- the rest of the loop, as the sweep of the state before it
        generalize ht : s.onRrc _ = t
        rw [ih pre t (by rw [← ht]; rfl) hsub, hlen]
        have hctx : t.rrcUeContext
            = Function.update s.rrcUeContext a (deletedContext (s.rrcUeContext a)) := by
          rw [← ht]; rfl
        have hsame : ∀ b ∈ l, t.rrcUeContext b = s.rrcUeContext b := fun b hb => by
          rw [hctx, hother _ b hb]
        rw [contextSweep_congr hsame]
        generalize ho : contextSweep cfg s (entries.length + (reported s a).toNat) l = o
        have htaken : ∀ b ∈ o.taken, t.rrcUeContext b = s.rrcUeContext b := fun b hb =>
          hsame b ((taken_sublist _ l).mem (ho ▸ hb))
        have hswept : sweptContext t o = sweptContext s { o with taken := a :: o.taken } :=
          after_step_taken hctx (ho ▸ mem_contextSweep hal)
        have hentries : reportEntries s (a :: o.taken)
            = reportEntries s [a] ++ reportEntries s o.taken := reportEntries_append s [a] o.taken
        rw [hswept, reportEntries_congr htaken, hentries, List.append_assoc, ← ht]
        rfl
      · rw [reportContext_kept h]
        have hl' : s.gRrcUeContextList = (pre ++ [a]) ++ l := by simpa using hl
        rw [contextSweep_cons_kept h]
        simp only
        generalize ht : s.onRrc _ = t
        rw [ih (pre ++ [a]) t (by rw [← ht]; exact hl') (by simpa using hn)]
        have hctx : t.rrcUeContext
            = Function.update s.rrcUeContext a (idleContext (s.rrcUeContext a)) := by
          rw [← ht]; rfl
        have hsame : ∀ b ∈ l, t.rrcUeContext b = s.rrcUeContext b := fun b hb => by
          rw [hctx, hother _ b hb]
        rw [contextSweep_congr hsame]
        generalize ho : contextSweep cfg s entries.length l = o
        have htaken : ∀ b ∈ o.taken, t.rrcUeContext b = s.rrcUeContext b := fun b hb =>
          hsame b ((taken_sublist _ l).mem (ho ▸ hb))
        have hswept : sweptContext t o = sweptContext s { o with kept := a :: o.kept } :=
          after_step_kept hctx (ho ▸ mem_contextSweep hal)
        rw [hswept, reportEntries_congr htaken, ← ht, List.append_assoc]
        rfl

/-! ## The third loop -/

/-- What the third loop does to a context that it deletes: it counts it idle too, after it
has been released. -/
def deletedMacContext (c : MacUeContext) : MacUeContext :=
  { c with deleteFlag := true, idleCount := c.idleCount + 1 }

/-- What it does to the others. -/
def idleMacContext (c : MacUeContext) : MacUeContext := { c with idleCount := c.idleCount + 1 }

/-- The contexts after the third loop. -/
def sweptMacContext (s : MacState β) (o : Outcome β) : β → MacUeContext :=
  o.after deletedMacContext idleMacContext s.macUeContext

theorem macSweep_congr (h : ∀ b ∈ l, t.macUeContext b = s.macUeContext b) :
    macSweep cfg t used l = macSweep cfg s used l :=
  sweep_congr used l fun b hb => by simp only [h b hb, and_self]

theorem macSweep_cons_taken (h : used < maxNumUeInfoReport)
    (ha : macContextDue cfg (s.macUeContext a) = true) :
    macSweep cfg s used (a :: l)
      = { macSweep cfg s (used + 1) l with taken := a :: (macSweep cfg s (used + 1) l).taken } :=
  sweep_cons_taken h ha

theorem macSweep_cons_kept
    (h : ¬(used < maxNumUeInfoReport ∧ macContextDue cfg (s.macUeContext a) = true)) :
    macSweep cfg s used (a :: l)
      = { macSweep cfg s used l with kept := a :: (macSweep cfg s used l).kept } :=
  sweep_cons_kept h

theorem mem_macSweep (hb : b ∉ l) :
    b ∉ (macSweep cfg s used l).taken ∧ b ∉ (macSweep cfg s used l).kept :=
  ⟨fun h => hb ((taken_sublist used l).mem h), fun h => hb ((kept_sublist used l).mem h)⟩

theorem macContextDue_iff (cfg : ReportConfig) (c : MacUeContext) :
    macContextDue cfg c = true ↔ c.idleCount.toNat ≥ cfg.gMaxIdleCount := by
  simp [macContextDue]

theorem reportMacContext_taken (h : entries.length < maxNumUeInfoReport)
    (hd : macContextDue cfg (s.macUeContext a) = true) (hl : s.gMacUeContext = pre ++ a :: l)
    (hn : (pre ++ a :: l).Nodup) :
    reportMacContext cfg s entries a
      = ({ s.onRrc fun t => { t with mem := t.mem.release a } with
            gMacUeContext := pre ++ l
            macUeContext :=
              Function.update s.macUeContext a (deletedMacContext (s.macUeContext a)) },
        entries ++ [macEntry cfg (s.macUeContext a) entries.length]) := by
  have hpre : a ∉ pre := fun hmem =>
    (List.nodup_append.mp hn).2.2 a hmem a List.mem_cons_self rfl
  have herase : s.gMacUeContext.erase a = pre ++ l := by
    rw [hl, List.erase_append_right _ hpre, List.erase_cons_head]
  have hupdate : Function.update
      (Function.update s.macUeContext a { s.macUeContext a with deleteFlag := true }) a
        { Function.update s.macUeContext a { s.macUeContext a with deleteFlag := true } a with
          idleCount := (Function.update s.macUeContext a
            { s.macUeContext a with deleteFlag := true } a).idleCount + 1 }
      = Function.update s.macUeContext a (deletedMacContext (s.macUeContext a)) := by
    rw [Function.update_idem, Function.update_self]
    rfl
  unfold reportMacContext
  simp only
  rw [if_pos ⟨h, (macContextDue_iff cfg _).mp hd⟩, ← herase, ← hupdate]
  rfl

theorem reportMacContext_kept
    (h : ¬(entries.length < maxNumUeInfoReport ∧
      macContextDue cfg (s.macUeContext a) = true)) :
    reportMacContext cfg s entries a
      = ({ s with macUeContext :=
            Function.update s.macUeContext a (idleMacContext (s.macUeContext a)) },
        entries) := by
  rw [macContextDue_iff] at h
  unfold reportMacContext
  simp only
  rw [if_neg h]
  rfl

/-- **The third loop** deletes the MAC contexts that are due while there is room, and counts
all of them idle. -/
theorem reportMacContexts_eq (cfg : ReportConfig) (l pre : List β) (s : MacState β)
    (hl : s.gMacUeContext = pre ++ l) (hn : (pre ++ l).Nodup) (entries : List UeIdentity) :
    reportMacContexts cfg l s entries
      = ({ s.onRrc fun t => { t with
              mem := (macSweep cfg s entries.length l).taken.foldl
                BlockStore.Store.release t.mem } with
            gMacUeContext := pre ++ (macSweep cfg s entries.length l).kept
            macUeContext := sweptMacContext s (macSweep cfg s entries.length l) },
        entries ++ macEntries cfg s entries.length (macSweep cfg s entries.length l).taken) := by
  induction l generalizing pre s entries with
  | nil =>
      have hsame : sweptMacContext s (macSweep cfg s entries.length []) = s.macUeContext :=
        funext fun b => after_of_not_mem List.not_mem_nil
      rw [hsame]
      show (s, entries)
        = ({ s with gMacUeContext := pre ++ [], macUeContext := s.macUeContext }, entries ++ [])
      rw [← hl, List.append_nil]
  | cons a l ih =>
      have hal : a ∉ l := (List.nodup_cons.mp (List.nodup_append.mp hn).2.1).1
      have hother : ∀ c, ∀ b ∈ l, Function.update s.macUeContext a c b = s.macUeContext b :=
        fun c b hb => Function.update_of_ne (ne_of_mem_of_not_mem hb hal) _ _
      rw [reportMacContexts]
      by_cases h : entries.length < maxNumUeInfoReport ∧
          macContextDue cfg (s.macUeContext a) = true
      · have hsub : (pre ++ l).Nodup :=
          hn.sublist (List.Sublist.append_left (List.sublist_cons_self a l) pre)
        rw [reportMacContext_taken h.1 h.2 hl hn, macSweep_cons_taken h.1 h.2]
        simp only
        generalize ht : ({ s.onRrc _ with gMacUeContext := _, macUeContext := _ } : MacState β) = t
        have hctx : t.macUeContext
            = Function.update s.macUeContext a (deletedMacContext (s.macUeContext a)) := by
          rw [← ht]
        have hsame : ∀ b ∈ l, t.macUeContext b = s.macUeContext b := fun b hb => by
          rw [hctx, hother _ b hb]
        have hlen : (entries ++ [macEntry cfg (s.macUeContext a) entries.length]).length
            = entries.length + 1 := by simp
        rw [ih pre t (by rw [← ht]) hsub, hlen, macSweep_congr hsame]
        generalize ho : macSweep cfg s (entries.length + 1) l = o
        have htaken : ∀ b ∈ o.taken, t.macUeContext b = s.macUeContext b := fun b hb =>
          hsame b ((taken_sublist _ l).mem (ho ▸ hb))
        have hswept : sweptMacContext t o = sweptMacContext s { o with taken := a :: o.taken } :=
          after_step_taken hctx (ho ▸ mem_macSweep hal)
        rw [hswept, macEntries_congr _ htaken, ← ht, List.append_assoc]
        rfl
      · have hl' : s.gMacUeContext = (pre ++ [a]) ++ l := by simpa using hl
        rw [reportMacContext_kept h, macSweep_cons_kept h]
        simp only
        generalize ht : ({ s with macUeContext := _ } : MacState β) = t
        have hctx : t.macUeContext
            = Function.update s.macUeContext a (idleMacContext (s.macUeContext a)) := by
          rw [← ht]
        have hsame : ∀ b ∈ l, t.macUeContext b = s.macUeContext b := fun b hb => by
          rw [hctx, hother _ b hb]
        rw [ih (pre ++ [a]) t (by rw [← ht]; exact hl') (by simpa using hn), macSweep_congr hsame]
        generalize ho : macSweep cfg s entries.length l = o
        have htaken : ∀ b ∈ o.taken, t.macUeContext b = s.macUeContext b := fun b hb =>
          hsame b ((taken_sublist _ l).mem (ho ▸ hb))
        have hswept : sweptMacContext t o = sweptMacContext s { o with kept := a :: o.kept } :=
          after_step_kept hctx (ho ▸ mem_macSweep hal)
        rw [hswept, macEntries_congr _ htaken, ← ht, List.append_assoc]
        rfl

end Loops

/-! ## The pass -/

/-- The contexts in the three lists are blocks in use, and each is in one list once. -/
structure Linked (s : MacState β) : Prop where
  nodup : s.mem.inUse.Nodup
  owned : s.toRrcState.owned + (s.gMacUeContext : Multiset β) ≤ s.mem.inUse

/-- The sweep of `gReadyRrcUeContextList` by a pass. -/
def readyOutcome (s : MacState β) : Outcome β := readySweep s 0 s.gReadyRrcUeContextList

/-- The sweep of `gRrcUeContextList` by a pass. -/
def contextOutcome (cfg : ReportConfig) (s : MacState β) : Outcome β :=
  contextSweep cfg s (readyOutcome s).used s.gRrcUeContextList

/-- The sweep of `gMacUeContext` by a pass. -/
def macOutcome (cfg : ReportConfig) (s : MacState β) : Outcome β :=
  macSweep cfg s (contextOutcome cfg s).used s.gMacUeContext

/-- The blocks that a pass releases, in this order. -/
def releasedBlocks (cfg : ReportConfig) (s : MacState β) : List β :=
  (readyOutcome s).taken.filter (reported s) ++ (contextOutcome cfg s).taken
    ++ (macOutcome cfg s).taken

section Pass

variable {cfg : ReportConfig} {s : MacState β} {a b : β}

theorem Linked.blocks_nodup (h : Linked s) :
    (s.gRrcUeContextList ++ s.gReadyRrcUeContextList ++ s.gMacUeContext).Nodup := by
  have hn := Multiset.nodup_of_le h.owned h.nodup
  unfold RrcState.owned at hn
  simpa only [Multiset.coe_add, Multiset.coe_nodup] using hn

theorem Linked.contexts_nodup (h : Linked s) : s.gRrcUeContextList.Nodup :=
  (List.nodup_append.mp (List.nodup_append.mp h.blocks_nodup).1).1

theorem Linked.macContexts_nodup (h : Linked s) : s.gMacUeContext.Nodup :=
  (List.nodup_append.mp h.blocks_nodup).2.1

theorem readyOutcome_used (s : MacState β) :
    (readyOutcome s).used = (reportEntries s (readyOutcome s).taken).length := by
  rw [length_reportEntries, readyOutcome, readySweep, used_eq_add, Nat.zero_add]

theorem contextOutcome_used (cfg : ReportConfig) (s : MacState β) :
    (contextOutcome cfg s).used
      = (reportEntries s (readyOutcome s).taken
        ++ reportEntries s (contextOutcome cfg s).taken).length := by
  rw [List.length_append, ← readyOutcome_used, length_reportEntries, contextOutcome,
    contextSweep, used_eq_add]

/-- The first two loops of a pass. -/
theorem firstLoops_eq (cfg : ReportConfig) (h : Linked s) :
    reportContexts cfg (reportReady s.gReadyRrcUeContextList.length s []).1.gRrcUeContextList
        (reportReady s.gReadyRrcUeContextList.length s []).1
        (reportReady s.gReadyRrcUeContextList.length s []).2
      = (s.onRrc fun t => { t with
            gReadyRrcUeContextList := (readyOutcome s).kept
            gRrcUeContextList := (contextOutcome cfg s).kept
            rrcUeContext := sweptContext s (contextOutcome cfg s)
            mem := ((readyOutcome s).taken.filter (reported s)
              ++ (contextOutcome cfg s).taken).foldl BlockStore.Store.release t.mem },
        reportEntries s (readyOutcome s).taken
          ++ reportEntries s (contextOutcome cfg s).taken) := by
  rw [reportReady_eq s.gReadyRrcUeContextList s rfl [] (by decide)]
  simp only [List.nil_append]
  generalize ht : s.onRrc _ = t
  have hctx : t.rrcUeContext = s.rrcUeContext := by rw [← ht]; rfl
  have hmain : t.gRrcUeContextList = [] ++ s.gRrcUeContextList := by rw [← ht]; rfl
  have hsame : ∀ l : List β, ∀ b ∈ l, t.rrcUeContext b = s.rrcUeContext b := fun _ b _ => by
    rw [hctx]
  have hlist : t.gRrcUeContextList = s.gRrcUeContextList := hmain
  have hused : (reportEntries s (readySweep s ([] : List UeIdentity).length
      s.gReadyRrcUeContextList).taken).length = (readyOutcome s).used :=
    (readyOutcome_used s).symm
  rw [hlist, reportContexts_eq cfg s.gRrcUeContextList [] t hmain h.contexts_nodup, hused,
    contextSweep_congr (hsame _), reportEntries_congr (hsame _)]
  have hswept : sweptContext t (contextSweep cfg s (readyOutcome s).used s.gRrcUeContextList)
      = sweptContext s (contextOutcome cfg s) := by
    unfold sweptContext
    rw [hctx]
    rfl
  simp only [List.foldl_append]
  rw [hswept, ← ht]
  rfl

/-- **The pass**: the state it leaves and the entries it reports, from the state before it. -/
theorem reportPass_eq (cfg : ReportConfig) (h : Linked s) :
    reportPass cfg s
      = ({ s.onRrc fun t => { t with
              gReadyRrcUeContextList := (readyOutcome s).kept
              gRrcUeContextList := (contextOutcome cfg s).kept
              rrcUeContext := sweptContext s (contextOutcome cfg s)
              mem := (releasedBlocks cfg s).foldl BlockStore.Store.release t.mem } with
            gMacUeContext := (macOutcome cfg s).kept
            macUeContext := sweptMacContext s (macOutcome cfg s) },
        reportEntries s (readyOutcome s).taken ++ reportEntries s (contextOutcome cfg s).taken
          ++ macEntries cfg s (contextOutcome cfg s).used (macOutcome cfg s).taken) := by
  unfold reportPass
  simp only
  rw [firstLoops_eq cfg h]
  simp only
  generalize hu : s.onRrc _ = u
  have hmac : u.gMacUeContext = [] ++ s.gMacUeContext := by rw [← hu]; rfl
  have hsame : ∀ l : List β, ∀ b ∈ l, u.macUeContext b = s.macUeContext b := fun _ b _ => by
    rw [← hu]; rfl
  have hlist : u.gMacUeContext = s.gMacUeContext := hmac
  rw [hlist, reportMacContexts_eq cfg s.gMacUeContext [] u hmac h.macContexts_nodup,
    ← contextOutcome_used, macSweep_congr (hsame _), macEntries_congr _ (hsame _)]
  have hswept : sweptMacContext u
      (macSweep cfg s (contextOutcome cfg s).used s.gMacUeContext)
      = sweptMacContext s (macOutcome cfg s) := by
    unfold sweptMacContext
    rw [← hu]
    rfl
  rw [hswept, ← hu]
  unfold releasedBlocks
  simp only [List.foldl_append]
  rfl

end Pass

end LteUlp.Worker
