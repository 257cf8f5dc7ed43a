import LteUlp.Mac.Frames
import LteUlp.Worker.Runs
import LteUlp.Worker.Sweeping

set_option autoImplicit false
set_option linter.unusedSectionVars false

/-! # The eviction of MAC contexts

A report pass deletes a MAC context when its idle count has reached `gMaxIdleCount`. The
passes count it up, and nothing counts it down: `MacProcessPhyDataInd` writes the radio values
of a context that it finds and leaves the idle count as it is, where RLC sets that of its own
context to 0 for every packet (`rlcContextFor`). So the count is the age of the context, not
the time since it was last heard of.

`passesSince` is the number of report passes since the last PDU of an RNTI. The count of a
context is at most that, in every run in which a PDU only comes for a context whose count is
0 (`evictsIdle_of_undisturbed`); a UE that is heard of after every second pass is evicted all
the same (`not_evictsIdle_active`).
-/

namespace LteUlp.Worker

open BlockStore LteUlp.Rrc LteUlp.Rlc LteUlp.Mac

variable {β : Type} [DecidableEq β]

/-! ## Runs under a condition -/

/-- A sequence of events each of which meets a condition, in the state that it finds. -/
inductive UlRunUnder (env : MacPlatform β) (cond : UlState β → UlEvent → Prop)
    (s : UlState β) : List UlEvent → UlState β → Prop where
  | start : UlRunUnder env cond s [] s
  | step {events : List UlEvent} {event : UlEvent} {t u : UlState β} :
      UlRunUnder env cond s events t → cond t event → UlStep env t event u →
        UlRunUnder env cond s (events ++ [event]) u

/-! ## The property -/

/-- The RNTIs of the PDUs with a correct CRC, in the walk of `macProcessPdus`. -/
def crcCorrectRntis (data : Nat → UInt8) (length : UInt16) : Nat → UInt16 → List UInt16
  | 0, _ => []
  | left + 1, tempLen =>
      if tempLen < length then
        let head := rxUlSchIndHeadPdu data tempLen.toNat
        let tempLen := tempLen + UInt16.ofNat rxUlSchIndHeadPduSize
        if tempLen > length then []
        else
          (if head.crcFlag = 1 then [head.rnti] else [])
            ++ crcCorrectRntis data length left (tempLen + (head.wordLen <<< 2))
      else []

/-- The RNTIs that `macProcessPhyDataInd` processes a PDU of. -/
def receivedRntis (pBuffer : Option (Nat → UInt8)) (length : UInt16) : List UInt16 :=
  match pBuffer with
  | none => []
  | some data =>
      if phyField data 14 2 = rxUlSchIndication then
        crcCorrectRntis data length (data (phyHlMsgHeadSize + 3)).toNat
          (UInt16.ofNat (phyHlMsgHeadSize + ulIndHeadSize))
      else []

/-- An event, in the count of the passes since the last PDU of the RNTI. -/
def countPass (rnti : UInt16) (n : Nat) : UlEvent → Nat
  | .phyDataInd pBuffer length => if rnti ∈ receivedRntis pBuffer length then 0 else n
  | .cleanup _ => n
  | .report _ => n + 1

/-- The report passes since the last PDU of the RNTI with a correct CRC, or since the first
event if there was none. -/
def passesSince (rnti : UInt16) (events : List UlEvent) : Nat :=
  events.foldl (countPass rnti) 0

/-- **No active UE is evicted**: where a pass after the events deletes a MAC context, there
were `gMaxIdleCount` passes since the last PDU of its RNTI. -/
def EvictsIdle (cfg : ReportConfig) (s : UlState β) (events : List UlEvent) : Prop :=
  ∀ a ∈ s.gMacUeContext, a ∉ (reportPass cfg s.toMacState).1.gMacUeContext →
    cfg.gMaxIdleCount ≤ passesSince (s.macUeContext a).rnti events

/-- **The events that count no active UE**: no PDU is for a context whose idle count is not 0,
and a pass finds a list in which no context is linked twice. -/
def Undisturbed (s : UlState β) : UlEvent → Prop
  | .phyDataInd pBuffer length => ∀ a ∈ s.gMacUeContext,
      (s.macUeContext a).rnti ∈ receivedRntis pBuffer length → (s.macUeContext a).idleCount = 0
  | .cleanup _ => True
  | .report _ => s.gMacUeContext.Nodup

instance (s : UlState β) : (event : UlEvent) → Decidable (Undisturbed s event)
  | .phyDataInd pBuffer length => inferInstanceAs (Decidable (∀ a ∈ s.gMacUeContext,
      (s.macUeContext a).rnti ∈ receivedRntis pBuffer length →
        (s.macUeContext a).idleCount = 0))
  | .cleanup _ => .isTrue trivial
  | .report _ => inferInstanceAs (Decidable s.gMacUeContext.Nodup)

section Proofs

variable {env : MacPlatform β} {s t u : UlState β} {events : List UlEvent} {event : UlEvent}
variable {cfg : ReportConfig}

theorem passesSince_append (rnti : UInt16) (events : List UlEvent) (event : UlEvent) :
    passesSince rnti (events ++ [event]) = countPass rnti (passesSince rnti events) event := by
  simp [passesSince]

theorem UlRunUnder.run {cond : UlState β → UlEvent → Prop}
    (h : UlRunUnder env cond s events t) : UlRun env s events t := by
  induction h with
  | start => exact .start
  | step _ _ hstep ih => exact ih.step hstep

/-! ## The passes -/

/-- The first two loops leave the MAC contexts alone. -/
theorem reportReady_mac (count : Nat) (s : MacState β) (entries : List UeIdentity) :
    (reportReady count s entries).1.gMacUeContext = s.gMacUeContext ∧
      (reportReady count s entries).1.macUeContext = s.macUeContext := by
  induction count generalizing s entries with
  | zero => exact ⟨rfl, rfl⟩
  | succ count ih =>
      unfold reportReady
      split
      · exact ⟨rfl, rfl⟩
      · simp only
        split
        · split
          · exact ⟨rfl, rfl⟩
          · exact ih _ _
        · exact ih _ _

theorem reportContexts_mac (cfg : ReportConfig) (l : List β) (s : MacState β)
    (entries : List UeIdentity) :
    (reportContexts cfg l s entries).1.gMacUeContext = s.gMacUeContext ∧
      (reportContexts cfg l s entries).1.macUeContext = s.macUeContext := by
  induction l generalizing s entries with
  | nil => exact ⟨rfl, rfl⟩
  | cons a l ih =>
      obtain ⟨hl, hc⟩ := ih (reportContext cfg s entries a).1 (reportContext cfg s entries a).2
      have hstep : (reportContext cfg s entries a).1.gMacUeContext = s.gMacUeContext ∧
          (reportContext cfg s entries a).1.macUeContext = s.macUeContext := by
        unfold reportContext
        simp only
        split
        · exact ⟨rfl, rfl⟩
        · exact ⟨rfl, rfl⟩
      exact ⟨hl.trans hstep.1, hc.trans hstep.2⟩

/-- **What a pass does to the MAC contexts**: the third loop is a sweep of them, whatever the
first two have left of the array. -/
theorem reportPass_mac (cfg : ReportConfig) {s : MacState β} (hn : s.gMacUeContext.Nodup) :
    ∃ used, (reportPass cfg s).1.gMacUeContext = (macSweep cfg s used s.gMacUeContext).kept ∧
      (reportPass cfg s).1.macUeContext
        = sweptMacContext s (macSweep cfg s used s.gMacUeContext) := by
  obtain ⟨hl1, hc1⟩ := reportReady_mac s.gReadyRrcUeContextList.length s []
  unfold reportPass
  generalize reportReady s.gReadyRrcUeContextList.length s [] = r1 at hl1 hc1
  obtain ⟨hl2, hc2⟩ := reportContexts_mac cfg r1.1.gRrcUeContextList r1.1 r1.2
  simp only
  generalize reportContexts cfg r1.1.gRrcUeContextList r1.1 r1.2 = r2 at hl2 hc2
  have hlist : r2.1.gMacUeContext = [] ++ s.gMacUeContext := hl2.trans hl1
  have hctx : r2.1.macUeContext = s.macUeContext := hc2.trans hc1
  have hsweep : macSweep cfg r2.1 r2.2.length s.gMacUeContext
      = macSweep cfg s r2.2.length s.gMacUeContext :=
    macSweep_congr fun b _ => congrFun hctx b
  have heq := reportMacContexts_eq cfg s.gMacUeContext [] r2.1 hlist hn r2.2
  refine ⟨r2.2.length, ?_, ?_⟩
  · rw [show r2.1.gMacUeContext = s.gMacUeContext from hlist, heq, hsweep]
    rfl
  · rw [show r2.1.gMacUeContext = s.gMacUeContext from hlist, heq, hsweep]
    unfold sweptMacContext
    rw [hctx]

/-- A context that survives a pass is counted once at most. -/
theorem reportPass_survivor (cfg : ReportConfig) {s : MacState β} (hn : s.gMacUeContext.Nodup)
    {a : β} (ha : a ∈ (reportPass cfg s).1.gMacUeContext) :
    a ∈ s.gMacUeContext ∧
      ((reportPass cfg s).1.macUeContext a).rnti = (s.macUeContext a).rnti ∧
      ((reportPass cfg s).1.macUeContext a).idleCount.toNat
        ≤ (s.macUeContext a).idleCount.toNat + 1 := by
  obtain ⟨used, hl, hc⟩ := reportPass_mac cfg hn
  rw [hl] at ha
  have hkept : sweptMacContext s (macSweep cfg s used s.gMacUeContext) a
      = idleMacContext (s.macUeContext a) :=
    Sweep.after_of_kept ha (Sweep.not_mem_taken_of_kept hn ha)
  rw [hc, hkept]
  refine ⟨(Sweep.kept_sublist _ _).mem ha, rfl, ?_⟩
  show ((s.macUeContext a).idleCount + 1).toNat ≤ _
  rw [UInt32.toNat_add]
  exact Nat.mod_le _ _

/-- A context that a pass deletes is due. -/
theorem reportPass_deleted (cfg : ReportConfig) {s : MacState β} (hn : s.gMacUeContext.Nodup)
    {a : β} (ha : a ∈ s.gMacUeContext) (hgone : a ∉ (reportPass cfg s).1.gMacUeContext) :
    cfg.gMaxIdleCount ≤ (s.macUeContext a).idleCount.toNat := by
  obtain ⟨used, hl, -⟩ := reportPass_mac cfg hn
  rw [hl] at hgone
  have htaken : a ∈ (macSweep cfg s used s.gMacUeContext).taken :=
    (Sweep.mem_kept_or_taken used ha).resolve_left hgone
  unfold macSweep at htaken
  have hdue := Sweep.due_of_taken used htaken
  exact (macContextDue_iff cfg _).mp hdue

/-! ## Runs -/

/-- **The invariant**: the idle count of a context is at most the number of passes since the
last PDU of its RNTI. -/
def CountsPasses (s : UlState β) (events : List UlEvent) : Prop :=
  ∀ a ∈ s.gMacUeContext,
    (s.macUeContext a).idleCount.toNat ≤ passesSince (s.macUeContext a).rnti events

/-- The cleanup is about RLC contexts. -/
theorem executeCleanup_kept (g : UInt32) (s : RlcState β) : MacKept s (executeCleanup g s) := by
  have hat : ∀ (a : β) (u : RlcState β) (i : Nat), MacKept u (rlcDeleteEntityAt a u i) := by
    intro a u i
    have hdel := onlyMem_kept (rlcDeleteRxAmEntity_onlyMem u
      ((u.rlcUeContext a).rxAmEntityArray i))
    exact hdel.toMacKept.trans ⟨rfl, rfl, .refl _⟩
  refine MacKept.foldl (fun u a => ?_) s.gRlcUeContextList s
  unfold cleanupContext
  simp only
  split
  · have hunlink : MacKept u
        { u.setUeContext a { u.rlcUeContext a with deleteFlag := true } with
          gRlcUeContextList := u.gRlcUeContextList.erase a } := ⟨rfl, rfl, .refl _⟩
    exact (hunlink.trans (MacKept.foldl (hat a) (List.range maxLcId) _)).trans
      (free_kept _ a).toMacKept
  · exact ⟨rfl, rfl, .refl _⟩

/-- **What one event preserves.** -/
theorem step_countsPasses (h : UlStep env s event t) (hu : Undisturbed s event)
    (hs : CountsPasses s events) : CountsPasses t (events ++ [event]) := by
  intro a ha
  rw [passesSince_append]
  cases event with
  | phyDataInd pBuffer length =>
      obtain ⟨fuel, h⟩ := h
      rcases (macProcessPhyDataInd_grown h).context a ha with hzero | ⟨hmem, hrnti, hidle⟩
      · rw [hzero]
        exact Nat.zero_le _
      · rw [hrnti, hidle]
        unfold countPass
        simp only
        split
        · rename_i hreceived
          rw [hu a hmem hreceived]
          exact le_rfl
        · exact hs a hmem
  | cleanup gMaxIdleCount =>
      obtain rfl := h
      have hkept := executeCleanup_kept gMaxIdleCount s.toRlcState
      have hlist : (s.onRlc (executeCleanup gMaxIdleCount)).gMacUeContext = s.gMacUeContext :=
        hkept.gMacUeContext
      have hctx : (s.onRlc (executeCleanup gMaxIdleCount)).macUeContext = s.macUeContext :=
        hkept.macUeContext
      rw [hlist] at ha
      rw [hctx]
      exact hs a ha
  | report cfg =>
      obtain rfl := h
      obtain ⟨hmem, hrnti, hidle⟩ := reportPass_survivor cfg hu ha
      show ((reportPass cfg s.toMacState).1.macUeContext a).idleCount.toNat
        ≤ passesSince ((reportPass cfg s.toMacState).1.macUeContext a).rnti events + 1
      rw [hrnti]
      exact hidle.trans (Nat.succ_le_succ (hs a hmem))

/-- **What a run preserves.** -/
theorem run_countsPasses (hs : s.gMacUeContext = [])
    (h : UlRunUnder env Undisturbed s events t) : CountsPasses t events := by
  induction h with
  | start =>
      intro a ha
      rw [hs] at ha
      exact absurd ha List.not_mem_nil
  | step _ hcond hstep ih => exact step_countsPasses hstep hcond ih

/-- **A pass evicts UEs that have been idle long enough**, after any undisturbed run from a
state without MAC contexts. -/
theorem evictsIdle_of_undisturbed (env : MacPlatform β) {s t : UlState β}
    {events : List UlEvent} (hs : s.gMacUeContext = [])
    (h : UlRunUnder env Undisturbed s events t) (cfg : ReportConfig)
    (hpass : Undisturbed t (.report cfg)) : EvictsIdle cfg t events :=
  fun a ha hgone => (reportPass_deleted cfg hpass ha hgone).trans (run_countsPasses hs h a ha)

/-- Without a refused join, no context is linked twice. -/
theorem run_nodup (hs : UlInitial s) (h : UlRun env s events t)
    (hj : t.refusedJoins = s.refusedJoins) : t.gMacUeContext.Nodup :=
  (run_sound (initial_sound hs) h hj).1.rlc.mac.unique.of_map

end Proofs

/-! ## A UE -/

/-- A PDU of the RNTI 61 that is padding only. -/
def heardOf : UlEvent := .phyDataInd (some (indicationOf [0x1f])) 72

/-- A pass that evicts contexts which have been idle for two passes. -/
def evictAfterTwo : ReportConfig := ⟨200, 2, fun _ => UeIdentity.zero⟩

/-- The UE is heard of, and idle for two passes. -/
def heardOnce : List UlEvent := [heardOf, .report evictAfterTwo, .report evictAfterTwo]

/-- It is heard of again. -/
def heardTwice : List UlEvent := heardOnce ++ [heardOf]

theorem heardOf_isSome : (afterEvents [heardOf]).isSome := by decide +kernel

theorem heardTwice_isSome : (afterEvents heardTwice).isSome := by decide +kernel

/-- A UE that is heard of once is evicted by the third pass. -/
theorem evictsIdle_heardOnce : ∃ t : UlState Nat, t.gMacUeContext = [1] ∧
    (reportPass evictAfterTwo t.toMacState).1.gMacUeContext = [] ∧
    EvictsIdle evictAfterTwo t heardOnce := by
  have hfirst : UlStep freshMacPlatform freshUlState heardOf
      ((afterEvents [heardOf]).get heardOf_isSome) := by
    have hnext : ulNext freshMacPlatform 8 freshUlState heardOf = afterEvents [heardOf] :=
      (Option.bind_fun_some _).symm
    exact ulNext_step (hnext.trans (Option.some_get _).symm)
  have hone : UlRunUnder freshMacPlatform Undisturbed freshUlState ([] ++ [heardOf])
      ((afterEvents [heardOf]).get heardOf_isSome) :=
    .step .start (fun _ ha => absurd ha List.not_mem_nil) hfirst
  have hpass : ∀ s : UlState Nat, UlStep freshMacPlatform s (.report evictAfterTwo) _ :=
    fun _ => rfl
  have htwo := hone.step (by decide +kernel) (hpass _)
  have hthree := htwo.step (by decide +kernel) (hpass _)
  refine ⟨_, ?_, ?_, evictsIdle_of_undisturbed freshMacPlatform rfl hthree evictAfterTwo ?_⟩
  · decide +kernel
  · decide +kernel
  · decide +kernel

/-- A UE that is heard of after two passes is evicted by the next one. -/
theorem not_evictsIdle_active :
    ¬ ∀ (s t : UlState Nat) (events : List UlEvent) (cfg : ReportConfig), UlInitial s →
      UlRun freshMacPlatform s events t → 1 ≤ cfg.gMaxIdleCount → EvictsIdle cfg t events := by
  intro h
  have hrun : UlRun freshMacPlatform freshUlState ([] ++ heardTwice)
      ((afterEvents heardTwice).get heardTwice_isSome) :=
    ulNexts_run .start (Option.some_get _).symm
  have hall := h freshUlState _ _ evictAfterTwo freshUlState_initial hrun (by decide)
  have hle := hall 1 (by decide +kernel) (by decide +kernel)
  exact absurd hle (by decide +kernel)

end LteUlp.Worker
