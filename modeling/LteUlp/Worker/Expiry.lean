import LteUlp.Worker.Eviction
import LteUlp.Worker.Touches

set_option autoImplicit false
set_option linter.unusedSectionVars false

/-! # The expiry of RRC contexts

A report pass deletes an RRC context whose idle count has reached `gMaxRrcCtxIdleCount`, if
there is still room in the report when it comes to it; if not, the context is counted idle
and waits for the next pass. The count has 16 bits, and the threshold is a quotient of two
configured times that has 32. As long as no pass counts on from 65535, a context is there for
at most `gMaxRrcCtxIdleCount` passes that find room (`expires_of_counted`). With a threshold
of 65536 or more it never expires: the count goes back to 0 (`not_expires_long_wait`).

`Ages` keeps, for every context, how many passes there were since it was created, and how many
of them came to it with room in the report.
-/

namespace LteUlp.Worker

open BlockStore LteUlp.Rrc LteUlp.Rlc LteUlp.Mac

variable {β : Type} [DecidableEq β]

/-- The threshold that `InitUlpWorker` computes: `ueIdentityWaitTime` and `pollingInterval` are
of type `int`, the quotient is stored in an `unsigned int`. -/
def initMaxRrcCtxIdleCount (ueIdentityWaitTime pollingInterval : Int) : Nat :=
  let gMaxRrcCtxIdleCount := (ueIdentityWaitTime.tdiv pollingInterval % 2 ^ 32).toNat
  if gMaxRrcCtxIdleCount = 0 then 200 else gMaxRrcCtxIdleCount

/-! ## Ages -/

/-- The passes since each context was created, and those that came to it with room. -/
structure Ages (β : Type) where
  passes : β → Nat
  roomy : β → Nat

/-- The entries used when the second loop of a pass comes to a context. -/
def entriesAt (cfg : ReportConfig) (s : MacState β) (a : β) : Nat :=
  let r := reportReady s.gReadyRrcUeContextList.length s []
  (reportContexts cfg (r.1.gRrcUeContextList.takeWhile (· ≠ a)) r.1 r.2).2.length

/-- The contexts that an event from `s` to `t` has appended to `gRrcUeContextList`. -/
def createdContexts (s t : UlState β) : List β :=
  t.gRrcUeContextList.drop s.gRrcUeContextList.length

/-- Start to count for the contexts of a list. -/
def Ages.restart (ages : Ages β) (l : List β) : Ages β where
  passes a := if a ∈ l then 0 else ages.passes a
  roomy a := if a ∈ l then 0 else ages.roomy a

/-- The ages after an event from `s` to `t`. -/
def Ages.next (ages : Ages β) (s t : UlState β) : UlEvent → Ages β
  | .report cfg =>
      { passes := fun a => ages.passes a + 1
        roomy := fun a => ages.roomy a
          + (decide (entriesAt cfg s.toMacState a < maxNumUeInfoReport)).toNat }
  | _ => ages.restart (createdContexts s t)

/-- A sequence of events under a condition, with the ages of the contexts. -/
inductive AgedRun (env : MacPlatform β) (cond : UlState β → UlEvent → Prop) (s : UlState β) :
    List UlEvent → UlState β → Ages β → Prop where
  | start : AgedRun env cond s [] s ⟨fun _ => 0, fun _ => 0⟩
  | step {events : List UlEvent} {event : UlEvent} {t u : UlState β} {ages : Ages β} :
      AgedRun env cond s events t ages → cond t event → UlStep env t event u →
        AgedRun env cond s (events ++ [event]) u (ages.next t u event)

/-! ## The property -/

/-- **The contexts expire**: a context that has seen more than `maxIdle` passes with room is
not in the list any more, and no count has wrapped. -/
structure Expires (maxIdle : Nat) (s : UlState β) (ages : Ages β) : Prop where
  roomy : ∀ a ∈ s.gRrcUeContextList, ages.roomy a ≤ maxIdle
  counted : ∀ a ∈ s.gRrcUeContextList, (s.rrcUeContext a).idleCount.toNat = ages.passes a

/-- A context that a pass takes out of the list is reported if it holds an identity. -/
def ReportsRemoved (cfg : ReportConfig) (s : UlState β) : Prop :=
  ∀ a ∈ s.gRrcUeContextList, a ∉ (reportPass cfg s.toMacState).1.gRrcUeContextList →
    hasIdentity (s.rrcUeContext a).ueIdentity = true →
      reportEntry (s.rrcUeContext a) ∈ (reportPass cfg s.toMacState).2

/-- **The events that count on from no full counter**: where the idle count of a context is
65535, a pass deletes it, since it is due and there is room. -/
def CountsOn (s : UlState β) : UlEvent → Prop
  | .report cfg => ∀ a ∈ s.gRrcUeContextList, (s.rrcUeContext a).idleCount.toNat = 2 ^ 16 - 1 →
      contextDue cfg (s.rrcUeContext a) = true ∧
        entriesAt cfg s.toMacState a < maxNumUeInfoReport
  | _ => True

instance (s : UlState β) : (event : UlEvent) → Decidable (CountsOn s event)
  | .report cfg => inferInstanceAs (Decidable (∀ a ∈ s.gRrcUeContextList,
      (s.rrcUeContext a).idleCount.toNat = 2 ^ 16 - 1 →
        contextDue cfg (s.rrcUeContext a) = true ∧
          entriesAt cfg s.toMacState a < maxNumUeInfoReport))
  | .phyDataInd _ _ => .isTrue trivial
  | .cleanup _ => .isTrue trivial

section Proofs

variable {env : MacPlatform β} {s t u : UlState β} {events : List UlEvent} {event : UlEvent}
variable {ages : Ages β} {cfg : ReportConfig} {maxIdle : Nat}

theorem AgedRun.run {cond : UlState β → UlEvent → Prop}
    (h : AgedRun env cond s events t ages) : UlRun env s events t := by
  induction h with
  | start => exact .start
  | step _ _ hstep ih => exact ih.step hstep

/-! ## The entries used -/

/-- What the body of the second loop adds to the report. -/
theorem reportContext_entries (cfg : ReportConfig) (s : MacState β)
    (entries : List UeIdentity) (a : β) :
    (reportContext cfg s entries a).2
      = if entries.length < maxNumUeInfoReport ∧ contextDue cfg (s.rrcUeContext a) = true then
          entries ++ reportEntries s [a] else entries := by
  by_cases h : entries.length < maxNumUeInfoReport ∧ contextDue cfg (s.rrcUeContext a) = true
  · rw [if_pos h, ← append_reportEntries]
    rw [contextDue_iff] at h
    unfold reportContext
    simp only
    rw [if_pos h]
  · rw [if_neg h]
    rw [contextDue_iff] at h
    unfold reportContext
    simp only
    rw [if_neg h]

/-- The body of the second loop writes to the context that it is at. -/
theorem reportContext_other (cfg : ReportConfig) (s : MacState β) (entries : List UeIdentity)
    {a b : β} (hba : b ≠ a) :
    (reportContext cfg s entries a).1.rrcUeContext b = s.rrcUeContext b := by
  unfold reportContext
  simp only
  split
  · exact Function.update_of_ne hba _ _
  · exact Function.update_of_ne hba _ _

/-- The entries for the contexts of a list, whichever contexts come after them. -/
theorem reportContexts_entries (cfg : ReportConfig) (l : List β) (hn : l.Nodup)
    (s : MacState β) (entries : List UeIdentity) :
    (reportContexts cfg l s entries).2
      = entries ++ reportEntries s (contextSweep cfg s entries.length l).taken := by
  induction l generalizing s entries with
  | nil => exact (List.append_nil entries).symm
  | cons a l ih =>
      obtain ⟨hal, hl⟩ := List.nodup_cons.mp hn
      have hsame : ∀ b ∈ l, (reportContext cfg s entries a).1.rrcUeContext b
          = s.rrcUeContext b := fun b hb =>
        reportContext_other cfg s entries (ne_of_mem_of_not_mem hb hal)
      have htaken : ∀ used, ∀ b ∈ (contextSweep cfg s used l).taken,
          (reportContext cfg s entries a).1.rrcUeContext b = s.rrcUeContext b :=
        fun used b hb => hsame b ((Sweep.taken_sublist _ _).mem hb)
      rw [reportContexts, ih hl, contextSweep_congr hsame, reportEntries_congr (htaken _),
        reportContext_entries]
      by_cases h : entries.length < maxNumUeInfoReport ∧
          contextDue cfg (s.rrcUeContext a) = true
      · have hlen : (entries ++ reportEntries s [a]).length
            = entries.length + (reported s a).toNat := by
          rw [List.length_append, length_reportEntries, List.countP_singleton]
          cases reported s a <;> rfl
        rw [if_pos h, contextSweep_cons_taken h.1 h.2, hlen, List.append_assoc,
          ← reportEntries_append]
        rfl
      · rw [if_neg h, contextSweep_cons_kept h]

/-- The entries used, as the sweeps have them. -/
theorem entriesAt_eq (cfg : ReportConfig) {s : MacState β} (hn : s.gRrcUeContextList.Nodup)
    (a : β) : entriesAt cfg s a = (contextSweep cfg s (readyOutcome s).used
      (s.gRrcUeContextList.takeWhile (· ≠ a))).used := by
  have hready := reportReady_eq s.gReadyRrcUeContextList s rfl [] (by decide)
  have hused : (reportEntries s (readySweep s 0 s.gReadyRrcUeContextList).taken).length
      = (readyOutcome s).used := (readyOutcome_used s).symm
  have hpre : (s.gRrcUeContextList.takeWhile (· ≠ a)).Nodup :=
    hn.sublist (List.takeWhile_sublist _)
  unfold entriesAt
  simp only
  rw [hready]
  simp only [List.nil_append, List.length_nil]
  generalize ht : s.onRrc _ = t
  have hlist : t.gRrcUeContextList = s.gRrcUeContextList := by rw [← ht]; rfl
  have hsame : ∀ l : List β, ∀ b ∈ l, t.rrcUeContext b = s.rrcUeContext b := fun _ b _ => by
    rw [← ht]; rfl
  rw [hlist, reportContexts_entries cfg _ hpre, List.length_append, hused,
    contextSweep_congr (hsame _), reportEntries_congr (hsame _), length_reportEntries,
    contextSweep, Sweep.used_eq_add]

/-- **Which contexts survive a pass**: those that are not due, or for which there is no
room. -/
theorem mem_kept_iff_entriesAt (cfg : ReportConfig) {s : MacState β}
    (hn : s.gRrcUeContextList.Nodup) {a : β} (ha : a ∈ s.gRrcUeContextList) :
    a ∈ (contextOutcome cfg s).kept ↔
      ¬(contextDue cfg (s.rrcUeContext a) = true ∧ entriesAt cfg s a < maxNumUeInfoReport) := by
  obtain ⟨pre, post, hl, hpre⟩ := List.eq_append_cons_of_mem ha
  have htake : s.gRrcUeContextList.takeWhile (· ≠ a) = pre := by
    have hall : ∀ b ∈ pre, (decide (b ≠ a)) = true := fun b hb =>
      decide_eq_true (ne_of_mem_of_not_mem hb hpre)
    rw [hl, List.takeWhile_append_of_pos hall, List.takeWhile_cons_of_neg (by simp),
      List.append_nil]
  have hn' : (pre ++ a :: post).Nodup := hl ▸ hn
  rw [entriesAt_eq cfg hn, htake, contextOutcome, contextSweep, hl, Sweep.mem_kept_iff hn',
    and_comm]
  rfl

/-! ## Steps -/

theorem linked_of_sound (hs : UlSound s.toRlcState) : Linked s.toMacState := by
  refine ⟨hs.rrc.nodup, le_trans ?_ hs.rrc.owned⟩
  exact add_le_add_right (macContexts_le_rlcOwned s.toRlcState) _

/-- A context created by a message begins at 0, and the others keep their count. -/
theorem grown_counted (hg : Grown s.toRrcState t.toRrcState) (ht : Linked t.toMacState)
    (hs : Expires maxIdle s ages) :
    Expires maxIdle t (ages.restart (createdContexts s t)) := by
  obtain ⟨new, moved, hg⟩ := hg
  have hcreated : createdContexts s t = new := by
    unfold createdContexts
    rw [hg.contexts, List.drop_left]
  have hn := (List.nodup_append.mp ht.blocks_nodup).1
  rw [hg.contexts, hg.ready] at hn
  -- no context is in both lists, and none is in the main list twice
  have hready : ∀ a ∈ s.gRrcUeContextList ++ new, a ∉ moved := fun a ha hm =>
    (List.nodup_append.mp hn).2.2 a ha a (List.mem_append_right _ hm) rfl
  have hold : ∀ a ∈ s.gRrcUeContextList, a ∉ new := fun a ha hnew =>
    (List.nodup_append.mp (List.nodup_append.mp hn).1).2.2 a ha a hnew rfl
  rw [hcreated]
  refine ⟨fun a ha => ?_, fun a ha => ?_⟩
  · rw [hg.contexts] at ha
    show (if a ∈ new then 0 else ages.roomy a) ≤ maxIdle
    rcases List.mem_append.mp ha with hmem | hnew
    · rw [if_neg (hold a hmem)]
      exact hs.roomy a hmem
    · rw [if_pos hnew]
      exact Nat.zero_le _
  · rw [hg.contexts] at ha
    show _ = if a ∈ new then 0 else ages.passes a
    rcases List.mem_append.mp ha with hmem | hnew
    · rw [if_neg (hold a hmem), hg.old a (hold a hmem) (hready a ha)]
      exact hs.counted a hmem
    · rw [if_pos hnew, hg.fresh a hnew (hready a ha)]
      rfl

/-- **A pass.** The invariant `roomy ≤ passes` carries it: a context with room for the last
time has been counted `maxIdle` times, so it is due. -/
theorem report_counted (hl : Linked s.toMacState) (hc : CountsOn s (.report cfg))
    (hmax : cfg.gMaxRrcCtxIdleCount = maxIdle) (hle : ∀ a, ages.roomy a ≤ ages.passes a)
    (hs : Expires maxIdle s ages) (h : UlStep env s (.report cfg) t) :
    Expires maxIdle t (ages.next s t (.report cfg)) := by
  obtain rfl := h
  have hlist : (reportPass cfg s.toMacState).1.gRrcUeContextList
      = (contextOutcome cfg s.toMacState).kept := by
    rw [reportPass_eq cfg hl]
    rfl
  refine ⟨fun a ha => ?_, fun a ha => ?_⟩
  · have hkept : a ∈ (contextOutcome cfg s.toMacState).kept := hlist ▸ ha
    have hmem : a ∈ s.gRrcUeContextList := (Sweep.kept_sublist _ _).mem hkept
    have hnot := (mem_kept_iff_entriesAt cfg hl.contexts_nodup hmem).mp hkept
    have hroomy := hs.roomy a hmem
    show ages.roomy a + (decide (entriesAt cfg s.toMacState a < maxNumUeInfoReport)).toNat
      ≤ maxIdle
    by_cases hroom : entriesAt cfg s.toMacState a < maxNumUeInfoReport
    · have hdue : ¬(s.rrcUeContext a).idleCount.toNat ≥ cfg.gMaxRrcCtxIdleCount := fun h =>
        hnot ⟨(contextDue_iff cfg _).mpr (.inr h), hroom⟩
      rw [decide_eq_true hroom, Bool.toNat_true]
      have hcount := hs.counted a hmem
      have := hle a
      omega
    · rw [decide_eq_false hroom, Bool.toNat_false]
      exact hroomy
  · have hkept : a ∈ (contextOutcome cfg s.toMacState).kept := hlist ▸ ha
    have hmem : a ∈ s.gRrcUeContextList := (Sweep.kept_sublist _ _).mem hkept
    have hnot := (mem_kept_iff_entriesAt cfg hl.contexts_nodup hmem).mp hkept
    have hctx : (reportPass cfg s.toMacState).1.rrcUeContext a
        = idleContext (s.rrcUeContext a) := reportPass_rrcUeContext cfg hl hkept
    show ((reportPass cfg s.toMacState).1.rrcUeContext a).idleCount.toNat = ages.passes a + 1
    have hlast : (s.rrcUeContext a).idleCount.toNat ≠ 2 ^ 16 - 1 := fun h =>
      hnot (hc a hmem h)
    rw [hctx, ← hs.counted a hmem]
    exact (idleCount16_add_one _).mpr hlast

/-- **No weaker condition will do**: a pass after which the contexts still expire has counted
on from no full counter. -/
theorem countsOn_of_expires (hl : Linked s.toMacState) (hs : Expires maxIdle s ages)
    (h : UlStep env s (.report cfg) t) (ht : Expires maxIdle t (ages.next s t (.report cfg))) :
    CountsOn s (.report cfg) := by
  obtain rfl := h
  intro a ha hfull
  by_contra hnot
  have hkept := (mem_kept_iff_entriesAt cfg hl.contexts_nodup ha).mpr hnot
  have hmem : a ∈ (reportPass cfg s.toMacState).1.gRrcUeContextList := by
    rw [reportPass_eq cfg hl]
    exact hkept
  have hcount : ((reportPass cfg s.toMacState).1.rrcUeContext a).idleCount.toNat
      = ages.passes a + 1 := ht.counted a hmem
  rw [reportPass_rrcUeContext cfg hl hkept, ← hs.counted a ha] at hcount
  exact (idleCount16_add_one _).mp hcount hfull

theorem roomy_le_passes {cond : UlState β → UlEvent → Prop}
    (h : AgedRun env cond s events t ages) (a : β) : ages.roomy a ≤ ages.passes a := by
  induction h with
  | start => exact le_rfl
  | @step events event t u ages _ _ _ ih =>
      have hrestart : ∀ l : List β, (ages.restart l).roomy a ≤ (ages.restart l).passes a := by
        intro l
        show (if a ∈ l then 0 else ages.roomy a) ≤ if a ∈ l then 0 else ages.passes a
        split
        · exact le_rfl
        · exact ih
      cases event with
      | phyDataInd pBuffer length => exact hrestart _
      | cleanup gMaxIdleCount => exact hrestart _
      | report cfg => exact Nat.add_le_add ih (Bool.toNat_le _)

/-- A pass reports what it takes out of the list. -/
theorem reportsRemoved_of_linked (cfg : ReportConfig) (hl : Linked s.toMacState) :
    ReportsRemoved cfg s := by
  intro a ha hgone hid
  rw [reportPass_eq cfg hl] at hgone ⊢
  have htaken : a ∈ (contextOutcome cfg s.toMacState).taken :=
    (Sweep.mem_kept_or_taken _ ha).resolve_left hgone
  have hentry : reportEntry (s.rrcUeContext a)
      ∈ reportEntries s.toMacState (contextOutcome cfg s.toMacState).taken :=
    List.mem_map_of_mem (List.mem_filter.mpr ⟨htaken, hid⟩)
  exact List.mem_append_left _ (List.mem_append_right _ hentry)

/-- **What a run preserves.** -/
theorem run_expires (hs : UlInitial s) (h : AgedRun env CountsOn s events t ages)
    (hj : t.refusedJoins = s.refusedJoins)
    (hmax : ∀ cfg, UlEvent.report cfg ∈ events → cfg.gMaxRrcCtxIdleCount = maxIdle) :
    Expires maxIdle t ages := by
  induction h with
  | start =>
      have hnone : ∀ a, a ∉ s.gRrcUeContextList := fun a ha => by
        rw [hs.gRrcUeContextList] at ha
        exact List.not_mem_nil ha
      exact ⟨fun a ha => absurd ha (hnone a), fun a ha => absurd ha (hnone a)⟩
  | @step events event t u ages hrun hcond hstep ih =>
      have hj1 := run_joins hrun.run
      have hj2 := step_joins hstep
      have hbefore := ih (by omega) fun cfg hcfg => hmax cfg (List.mem_append_left _ hcfg)
      have hsound := (run_sound (initial_sound hs) hrun.run (by omega)).1
      have hafter := linked_of_sound
        (run_sound (initial_sound hs) (hrun.run.step hstep) hj).1
      cases event with
      | phyDataInd pBuffer length =>
          obtain ⟨fuel, hstep⟩ := hstep
          exact grown_counted (macProcessPhyDataInd_grown hstep).grown hafter hbefore
      | cleanup gMaxIdleCount =>
          obtain rfl := hstep
          exact grown_counted (executeCleanup_kept gMaxIdleCount t.toRlcState).grown hafter
            hbefore
      | report cfg =>
          have hcfg := hmax cfg (List.mem_append_right _ (List.mem_singleton_self _))
          exact report_counted (linked_of_sound hsound) hcond hcfg (roomy_le_passes hrun)
            hbefore hstep

/-- **RRC contexts expire** in every run whose passes count on from no full counter, whatever
the configured times are. -/
theorem expires_of_counted (env : MacPlatform β) {s t : UlState β} {events : List UlEvent}
    {ages : Ages β} (ueIdentityWaitTime pollingInterval : Int) (hs : UlInitial s)
    (h : AgedRun env CountsOn s events t ages) (hj : t.refusedJoins = s.refusedJoins)
    (hmax : ∀ cfg, UlEvent.report cfg ∈ events →
      cfg.gMaxRrcCtxIdleCount = initMaxRrcCtxIdleCount ueIdentityWaitTime pollingInterval) :
    Expires (initMaxRrcCtxIdleCount ueIdentityWaitTime pollingInterval) t ages ∧
      ∀ cfg, ReportsRemoved cfg t :=
  ⟨run_expires hs h hj hmax, fun cfg =>
    reportsRemoved_of_linked cfg (linked_of_sound (run_sound (initial_sound hs) h.run hj).1)⟩

/-! ## A threshold that is not reached -/

/-- One context that lacks an identity, after `n` passes. -/
structure Waiting (a : β) (n : Nat) (s : UlState β) (ages : Ages β) : Prop where
  contexts : s.gRrcUeContextList = [a]
  ready : s.gReadyRrcUeContextList = []
  incomplete : ((s.rrcUeContext a).ueIdentity.imsiPresent
    && (s.rrcUeContext a).ueIdentity.mTmsiPresent) = false
  idle : (s.rrcUeContext a).idleCount.toNat = n % 2 ^ 16
  roomy : ages.roomy a = n

/-- The third loop leaves the RRC contexts alone. -/
theorem reportMacContexts_rrc (cfg : ReportConfig) (l : List β) (s : MacState β)
    (entries : List UeIdentity) :
    (reportMacContexts cfg l s entries).1.gRrcUeContextList = s.gRrcUeContextList ∧
      (reportMacContexts cfg l s entries).1.gReadyRrcUeContextList
        = s.gReadyRrcUeContextList ∧
      (reportMacContexts cfg l s entries).1.rrcUeContext = s.rrcUeContext := by
  induction l generalizing s entries with
  | nil => exact ⟨rfl, rfl, rfl⟩
  | cons a l ih =>
      obtain ⟨h1, h2, h3⟩ := ih (reportMacContext cfg s entries a).1
        (reportMacContext cfg s entries a).2
      have hstep : (reportMacContext cfg s entries a).1.gRrcUeContextList = s.gRrcUeContextList ∧
          (reportMacContext cfg s entries a).1.gReadyRrcUeContextList
            = s.gReadyRrcUeContextList ∧
          (reportMacContext cfg s entries a).1.rrcUeContext = s.rrcUeContext := by
        unfold reportMacContext
        simp only
        split
        · exact ⟨rfl, rfl, rfl⟩
        · exact ⟨rfl, rfl, rfl⟩
      exact ⟨h1.trans hstep.1, h2.trans hstep.2.1, h3.trans hstep.2.2⟩

/-- A count of 16 bits does not reach a threshold of 17. -/
theorem contextDue_of_long_wait {c : RrcUeContext} (hcfg : 2 ^ 16 ≤ cfg.gMaxRrcCtxIdleCount)
    (hc : (c.ueIdentity.imsiPresent && c.ueIdentity.mTmsiPresent) = false) :
    contextDue cfg c = false := by
  have hlt := c.idleCount.toNat_lt
  rw [contextDue, hc, Bool.false_or]
  exact decide_eq_false (by omega)

/-- The context survives a pass that has room for it. -/
theorem waiting_report {a : β} {n : Nat} (hcfg : 2 ^ 16 ≤ cfg.gMaxRrcCtxIdleCount)
    (hs : Waiting a n s ages) (h : UlStep env s (.report cfg) t) :
    Waiting a (n + 1) t (ages.next s t (.report cfg)) := by
  obtain rfl := h
  have hnot : ¬(([] : List UeIdentity).length < maxNumUeInfoReport ∧
      contextDue cfg (s.rrcUeContext a) = true) := by
    rw [contextDue_of_long_wait hcfg hs.incomplete]
    simp
  have hready : reportReady s.gReadyRrcUeContextList.length s.toMacState []
      = (s.toMacState, []) := by rw [hs.ready]; rfl
  -- the state after the second loop
  have hpass : reportPass cfg s.toMacState
      = reportMacContexts cfg s.gMacUeContext (s.toMacState.onRrc fun u => { u with
          rrcUeContext := Function.update s.rrcUeContext a (idleContext (s.rrcUeContext a)) })
          [] := by
    unfold reportPass
    simp only [hready, hs.contexts]
    rw [reportContexts, reportContext_kept hnot]
    rfl
  obtain ⟨h1, h2, h3⟩ := reportMacContexts_rrc cfg s.gMacUeContext
    (s.toMacState.onRrc fun u => { u with
      rrcUeContext := Function.update s.rrcUeContext a (idleContext (s.rrcUeContext a)) }) []
  rw [← hpass] at h1 h2 h3
  have hctx : (reportPass cfg s.toMacState).1.rrcUeContext a
      = idleContext (s.rrcUeContext a) := by
    rw [h3]
    exact Function.update_self ..
  have hroom : entriesAt cfg s.toMacState a = 0 := by
    unfold entriesAt
    simp only [hready, hs.contexts]
    rw [List.takeWhile_cons_of_neg (by simp)]
    rfl
  refine ⟨h1.trans hs.contexts, h2.trans hs.ready, ?_, ?_, ?_⟩
  · show (((reportPass cfg s.toMacState).1.rrcUeContext a).ueIdentity.imsiPresent
      && ((reportPass cfg s.toMacState).1.rrcUeContext a).ueIdentity.mTmsiPresent) = false
    rw [hctx]
    exact hs.incomplete
  · show ((reportPass cfg s.toMacState).1.rrcUeContext a).idleCount.toNat = _
    have hadd : ((s.rrcUeContext a).idleCount + 1).toNat
        = ((s.rrcUeContext a).idleCount.toNat + 1) % 2 ^ 16 := UInt16.toNat_add _ _
    rw [hctx]
    show ((s.rrcUeContext a).idleCount + 1).toNat = _
    rw [hadd, hs.idle]
    omega
  · show ages.roomy a + (decide (entriesAt cfg s.toMacState a < maxNumUeInfoReport)).toNat = _
    rw [hroom, hs.roomy]
    rfl

/-- The context survives any number of passes. -/
theorem waiting_reports (cfg : ReportConfig) {a : β} {pre : List UlEvent}
    (hcfg : 2 ^ 16 ≤ cfg.gMaxRrcCtxIdleCount)
    (hrun : AgedRun env (fun _ _ => True) s pre t ages) (ht : Waiting a 0 t ages) (n : Nat) :
    ∃ u ages', AgedRun env (fun _ _ => True) s (pre ++ List.replicate n (.report cfg)) u ages' ∧
      Waiting a n u ages' ∧ u.refusedJoins = t.refusedJoins := by
  induction n with
  | zero => exact ⟨t, ages, by simpa using hrun, ht, rfl⟩
  | succ n ih =>
      obtain ⟨u, ages', hu, hw, hj⟩ := ih
      have hstep : UlStep env u (.report cfg) _ := rfl
      have hnext := hu.step trivial hstep
      rw [List.append_assoc, ← List.replicate_succ'] at hnext
      exact ⟨_, _, hnext, waiting_report hcfg hw hstep, hj⟩

end Proofs

/-! ## A connection request -/

/-- A PDU of the RNTI 61 with a connection request that holds an M-TMSI. -/
def requested : UlEvent :=
  .phyDataInd (some (indicationOf [0x00, 0x40, 0x00, 0x00, 0x00, 0x00, 0x10])) 72

theorem requested_isSome : (afterEvents [requested]).isSome := by decide +kernel

theorem requested_step : UlStep freshMacPlatform freshUlState requested
    ((afterEvents [requested]).get requested_isSome) := by
  have hnext : ulNext freshMacPlatform 8 freshUlState requested = afterEvents [requested] :=
    (Option.bind_fun_some _).symm
  exact ulNext_step (hnext.trans (Option.some_get _).symm)

/-- A wait of two polling intervals. -/
def waitTwo : ReportConfig := ⟨2, 10, fun _ => UeIdentity.zero⟩

/-- The context is there after two passes, and the third one takes it out and reports it. -/
theorem expires_waitTwo : ∃ (t : UlState Nat) (ages : Ages Nat),
    t.gRrcUeContextList.map ages.roomy = [2] ∧
    (reportPass waitTwo t.toMacState).1.gRrcUeContextList = [] ∧
    (reportPass waitTwo t.toMacState).2.length = 1 ∧
    Expires (initMaxRrcCtxIdleCount 10 5) t ages ∧ ∀ cfg, ReportsRemoved cfg t := by
  have hpass : ∀ s : UlState Nat, UlStep freshMacPlatform s (.report waitTwo) _ := fun _ => rfl
  have hone : AgedRun freshMacPlatform CountsOn freshUlState ([] ++ [requested]) _ _ :=
    .step .start trivial requested_step
  have htwo := hone.step (by decide +kernel) (hpass _)
  have hthree := htwo.step (by decide +kernel) (hpass _)
  refine ⟨_, _, ?_, ?_, ?_, expires_of_counted freshMacPlatform 10 5 freshUlState_initial hthree
    ?_ fun cfg hcfg => ?_⟩
  · decide +kernel
  · decide +kernel
  · decide +kernel
  · decide +kernel
  · have hmem : cfg = waitTwo := by simpa [requested] using hcfg
    rw [hmem]
    decide +kernel

/-- A wait of 65536 polling intervals. -/
def waitLong : ReportConfig := ⟨2 ^ 16, 10, fun _ => UeIdentity.zero⟩

/-- With a wait of 65536 polling intervals a context is there after any number of passes. -/
theorem not_expires_long_wait :
    ¬ ∀ (ueIdentityWaitTime pollingInterval : Int) (s t : UlState Nat)
        (events : List UlEvent) (ages : Ages Nat), 0 < ueIdentityWaitTime →
      0 < pollingInterval → UlInitial s →
      AgedRun freshMacPlatform (fun _ _ => True) s events t ages →
      t.refusedJoins = s.refusedJoins →
      (∀ cfg, UlEvent.report cfg ∈ events →
        cfg.gMaxRrcCtxIdleCount = initMaxRrcCtxIdleCount ueIdentityWaitTime pollingInterval) →
      Expires (initMaxRrcCtxIdleCount ueIdentityWaitTime pollingInterval) t ages := by
  intro h
  have hrequested : AgedRun freshMacPlatform (fun _ _ => True) freshUlState
      ([] ++ [requested]) _ _ := .step .start trivial requested_step
  have hwaiting : Waiting 16 0 ((afterEvents [requested]).get requested_isSome)
      (Ages.next ⟨fun _ => 0, fun _ => 0⟩ freshUlState
        ((afterEvents [requested]).get requested_isSome) requested) :=
    ⟨by decide +kernel, by decide +kernel, by decide +kernel, by decide +kernel, by decide +kernel⟩
  obtain ⟨t, ages, hrun, ht, hj⟩ := waiting_reports waitLong le_rfl hrequested hwaiting
    (2 ^ 16 + 1)
  have hjoins : ((afterEvents [requested]).get requested_isSome).refusedJoins
      = freshUlState.refusedJoins := by decide +kernel
  have hexpires := h (2 ^ 16) 1 freshUlState t _ ages (by decide) (by decide)
    freshUlState_initial hrun (hj.trans hjoins) fun cfg hcfg => ?_
  · have hle := hexpires.roomy 16 (by rw [ht.contexts]; exact List.mem_singleton_self 16)
    rw [ht.roomy] at hle
    exact absurd hle (by decide)
  · have hmem : cfg = waitLong := by
      rcases List.mem_append.mp hcfg with hfirst | hreport
      · simp [requested] at hfirst
      · exact UlEvent.report.inj (List.eq_of_mem_replicate hreport)
    rw [hmem]
    decide

end LteUlp.Worker
