import LteUlp.Worker.Sweeping

set_option autoImplicit false
set_option linter.unusedSectionVars false

/-! # What the report pass touches

The two loops over linked contexts look alike. Each remembers the next node, may delete the
context it is at, and then counts a context idle. The loop over the RRC contexts clears its
pointer after a deletion, so that nothing is counted. The loop over the MAC contexts clears
the pointer of the other loop, and counts the context that it has just released.

`passTouches` lists what a pass reads and writes, each time with what the block is at that
moment. `touchesSafely_iff` says in which states all is well.
-/

namespace LteUlp.Worker

open Sweep BlockStore LteUlp.Rrc LteUlp.Mac

/-- What the pass does to a context. -/
inductive Act where
  | read
  | write
  /-- `RrcUpdateUeContextTime` or `MacUpdateUeContextTime` is applied. -/
  | updateTime
  deriving DecidableEq

/-- The pass reads or writes a context. The two flags say whether, at that moment, the
context is linked in its list and its block is in use. -/
structure Touch (β : Type) where
  block : β
  act : Act
  linked : Bool
  inUse : Bool
  deriving DecidableEq

variable {β : Type} [DecidableEq β]

/-- Touching a context of `gReadyRrcUeContextList`. -/
def touchReady (s : MacState β) (a : β) (act : Act) : Touch β :=
  ⟨a, act, decide (a ∈ s.gReadyRrcUeContextList), decide (a ∈ s.mem.inUse)⟩

/-- Touching a context of `gRrcUeContextList`. -/
def touchRrc (s : MacState β) (a : β) (act : Act) : Touch β :=
  ⟨a, act, decide (a ∈ s.gRrcUeContextList), decide (a ∈ s.mem.inUse)⟩

/-- Touching a context of `gMacUeContext`. -/
def touchMac (s : MacState β) (a : β) (act : Act) : Touch β :=
  ⟨a, act, decide (a ∈ s.gMacUeContext), decide (a ∈ s.mem.inUse)⟩

/-! ## The touches of the loops

Each list follows the body of the loop in `Worker/Report.lean`. The neighbours of a node that
is unlinked are linked themselves, and are left out. -/

/-- The first loop: `ListPopNode` writes to the node, then the identity is read. -/
def readyTouches : Nat → MacState β → List UeIdentity → List (Touch β)
  | 0, _, _ => []
  | count + 1, s, entries =>
      match s.gReadyRrcUeContextList with
      | [] => []
      | a :: rest =>
          let c := s.rrcUeContext a
          let t := s.onRrc fun t => { t with gReadyRrcUeContextList := rest }
          touchReady s a .write :: touchReady t a .read ::
            if hasIdentity c.ueIdentity then
              let entries := entries ++ [reportEntry c]
              if entries.length = maxNumUeInfoReport then []
              else readyTouches count (t.free a) entries
            else readyTouches count t entries

/-- The body of the second loop: the next node, the presence flags and the count are read. A
context that is due is flagged, copied and unlinked; `pRrcUeCtx` is null then. -/
def contextTouches (cfg : ReportConfig) (s : MacState β) (entries : List UeIdentity) (a : β) :
    List (Touch β) :=
  let c := s.rrcUeContext a
  touchRrc s a .read ::
    if entries.length < maxNumUeInfoReport ∧
        ((c.ueIdentity.imsiPresent && c.ueIdentity.mTmsiPresent) = true ∨
          c.idleCount.toNat ≥ cfg.gMaxRrcCtxIdleCount) then
      let t := s.onRrc fun t => t.setContext a { c with deleteFlag := true }
      [touchRrc s a .write, touchRrc t a .read, touchRrc t a .write]
    else [touchRrc s a .updateTime]

def contextsTouches (cfg : ReportConfig) :
    List β → MacState β → List UeIdentity → List (Touch β)
  | [], _, _ => []
  | a :: rest, s, entries =>
      let r := reportContext cfg s entries a
      contextTouches cfg s entries a ++ contextsTouches cfg rest r.1 r.2

/-- The body of the third loop. `pMacUeCtx` still points to the context after
`MacDeleteUeContext`. -/
def macContextTouches (cfg : ReportConfig) (s : MacState β) (entries : List UeIdentity)
    (a : β) : List (Touch β) :=
  let c := s.macUeContext a
  touchMac s a .read ::
    if entries.length < maxNumUeInfoReport ∧ c.idleCount.toNat ≥ cfg.gMaxIdleCount then
      let t := s.setMacContext a { c with deleteFlag := true }
      [touchMac s a .write, touchMac t a .read, touchMac t a .write,
        touchMac (macDeleteUeContext t a) a .updateTime]
    else [touchMac s a .updateTime]

def macContextsTouches (cfg : ReportConfig) :
    List β → MacState β → List UeIdentity → List (Touch β)
  | [], _, _ => []
  | a :: rest, s, entries =>
      let r := reportMacContext cfg s entries a
      macContextTouches cfg s entries a ++ macContextsTouches cfg rest r.1 r.2

/-- **What a pass touches**, in this order. -/
def passTouches (cfg : ReportConfig) (s : MacState β) : List (Touch β) :=
  let n := s.gReadyRrcUeContextList.length
  let r1 := reportReady n s []
  let r2 := reportContexts cfg r1.1.gRrcUeContextList r1.1 r1.2
  readyTouches n s [] ++ contextsTouches cfg r1.1.gRrcUeContextList r1.1 r1.2
    ++ macContextsTouches cfg r2.1.gMacUeContext r2.1 r2.2

/-! ## The property -/

/-- The block is in use, and a context is counted idle only while it is linked. -/
def Touch.Safe (x : Touch β) : Prop :=
  x.inUse = true ∧ (x.act = .updateTime → x.linked = true)

instance (x : Touch β) : Decidable x.Safe := inferInstanceAs (Decidable (_ ∧ _))

/-- **The pass touches no deleted context**, and counts those that survive it once. -/
structure TouchesSafely (cfg : ReportConfig) (s : MacState β) : Prop where
  touches : ∀ x ∈ passTouches cfg s, x.Safe
  contexts : ∀ a ∈ (reportPass cfg s).1.gRrcUeContextList,
    ((reportPass cfg s).1.rrcUeContext a).idleCount.toNat
      = (s.rrcUeContext a).idleCount.toNat + 1
  macContexts : ∀ a ∈ (reportPass cfg s).1.gMacUeContext,
    ((reportPass cfg s).1.macUeContext a).idleCount.toNat
      = (s.macUeContext a).idleCount.toNat + 1

/-- The entries that the ready contexts ask for, and with them the contexts in the part `pre`
of `gRrcUeContextList` that are due. -/
def entriesAsked (cfg : ReportConfig) (s : MacState β) (pre : List β) : Nat :=
  s.gReadyRrcUeContextList.countP (reported s)
    + pre.countP fun a => contextDue cfg (s.rrcUeContext a) && reported s a

/-- **The states in which a pass is safe**: no MAC context is due unless the array is full
before the third loop, and no counter that is at its maximum is counted on. -/
structure PassSafe (cfg : ReportConfig) (s : MacState β) : Prop where
  mac : (∀ a ∈ s.gMacUeContext, (s.macUeContext a).idleCount.toNat < cfg.gMaxIdleCount) ∨
    maxNumUeInfoReport ≤ entriesAsked cfg s s.gRrcUeContextList
  count : ∀ pre a post, s.gRrcUeContextList = pre ++ a :: post →
    (s.rrcUeContext a).idleCount.toNat = 2 ^ 16 - 1 →
      contextDue cfg (s.rrcUeContext a) = true ∧ entriesAsked cfg s pre < maxNumUeInfoReport
  macCount : ∀ a ∈ s.gMacUeContext, (s.macUeContext a).idleCount.toNat ≠ 2 ^ 32 - 1

section Proofs

variable {cfg : ReportConfig} {s t : MacState β} {a b : β} {l pre : List β}
variable {entries : List UeIdentity}

/-! ## What stays linked -/

theorem Linked.ready_inUse (h : Linked s) (ha : a ∈ s.gReadyRrcUeContextList) :
    a ∈ s.mem.inUse := by
  refine Multiset.mem_of_le h.owned ?_
  unfold RrcState.owned
  simp [ha]

theorem Linked.context_inUse (h : Linked s) (ha : a ∈ s.gRrcUeContextList) :
    a ∈ s.mem.inUse := by
  refine Multiset.mem_of_le h.owned ?_
  unfold RrcState.owned
  simp [ha]

theorem Linked.macContext_inUse (h : Linked s) (ha : a ∈ s.gMacUeContext) :
    a ∈ s.mem.inUse := by
  refine Multiset.mem_of_le h.owned ?_
  simp [ha]

/-- Blocks that stay linked when another one is released. -/
theorem release_owned {m : Store β} {xs : Multiset β} (hn : m.inUse.Nodup)
    (h : a ::ₘ xs ≤ m.inUse) : (m.release a).inUse.Nodup ∧ xs ≤ (m.release a).inUse := by
  have ha : a ∈ m.inUse := Multiset.mem_of_le h (Multiset.mem_cons_self a xs)
  have hrel : (m.release a).inUse = m.inUse.erase a := by
    rw [Store.release, if_pos ha]
  rw [hrel]
  refine ⟨hn.erase a, ?_⟩
  have hle := Multiset.erase_le_erase a h
  rwa [Multiset.erase_cons_head] at hle

/-- The first node is popped; its block is in hand. -/
theorem Linked.pop {rest : List β} (h : Linked s) (hl : s.gReadyRrcUeContextList = a :: rest) :
    a ::ₘ ((s.gRrcUeContextList : Multiset β) + ↑rest + ↑s.gMacUeContext) ≤ s.mem.inUse := by
  have ho := h.owned
  unfold RrcState.owned at ho
  rw [hl, ← Multiset.cons_coe, Multiset.add_cons, Multiset.cons_add] at ho
  exact ho

theorem Linked.popped {rest : List β} (h : Linked s)
    (hl : s.gReadyRrcUeContextList = a :: rest) :
    Linked (s.onRrc fun t => { t with gReadyRrcUeContextList := rest }) :=
  ⟨h.nodup, le_trans (Multiset.le_cons_self _ a) (h.pop hl)⟩

theorem Linked.popped_free {rest : List β} (h : Linked s)
    (hl : s.gReadyRrcUeContextList = a :: rest) :
    Linked ((s.onRrc fun t => { t with gReadyRrcUeContextList := rest }).free a) := by
  obtain ⟨hn, ho⟩ := release_owned h.nodup (h.pop hl)
  exact ⟨hn, ho⟩

/-- **The body of the second loop** deletes no other context than the one it is at. -/
theorem reportContext_linked (cfg : ReportConfig) (h : Linked s) (ha : a ∈ s.gRrcUeContextList)
    (entries : List UeIdentity) :
    Linked (reportContext cfg s entries a).1 ∧
      ∀ b ∈ s.gRrcUeContextList, b ≠ a →
        b ∈ (reportContext cfg s entries a).1.gRrcUeContextList := by
  unfold reportContext
  simp only
  split
  · have ho := h.owned
    unfold RrcState.owned at ho
    have hperm : (s.gRrcUeContextList : Multiset β)
        = a ::ₘ ((s.gRrcUeContextList.erase a : List β) : Multiset β) := by
      rw [Multiset.cons_coe]
      exact Multiset.coe_eq_coe.mpr (List.perm_cons_erase ha)
    rw [hperm, Multiset.cons_add, Multiset.cons_add] at ho
    obtain ⟨hn, ho⟩ := release_owned h.nodup ho
    exact ⟨⟨hn, ho⟩, fun b hb hne => (List.mem_erase_of_ne hne).mpr hb⟩
  · exact ⟨⟨h.nodup, h.owned⟩, fun b hb _ => hb⟩

/-- **The body of the third loop.** -/
theorem reportMacContext_linked (cfg : ReportConfig) (h : Linked s) (ha : a ∈ s.gMacUeContext)
    (entries : List UeIdentity) :
    Linked (reportMacContext cfg s entries a).1 ∧
      ∀ b ∈ s.gMacUeContext, b ≠ a →
        b ∈ (reportMacContext cfg s entries a).1.gMacUeContext := by
  unfold reportMacContext
  simp only
  split
  · have ho := h.owned
    have hperm : (s.gMacUeContext : Multiset β)
        = a ::ₘ ((s.gMacUeContext.erase a : List β) : Multiset β) := by
      rw [Multiset.cons_coe]
      exact Multiset.coe_eq_coe.mpr (List.perm_cons_erase ha)
    rw [hperm, Multiset.add_cons] at ho
    obtain ⟨hn, ho⟩ := release_owned h.nodup ho
    exact ⟨⟨hn, ho⟩, fun b hb hne => (List.mem_erase_of_ne hne).mpr hb⟩
  · exact ⟨⟨h.nodup, h.owned⟩, fun b hb _ => hb⟩

/-! ## Safe touches -/

theorem touchReady_safe {act : Act} (h : a ∈ s.mem.inUse) (hact : act ≠ .updateTime) :
    (touchReady s a act).Safe := ⟨decide_eq_true h, fun he => absurd he hact⟩

/-- The first loop. -/
theorem readyTouches_safe (count : Nat) (h : Linked s) (entries : List UeIdentity) :
    (∀ x ∈ readyTouches count s entries, x.Safe) ∧
      Linked (reportReady count s entries).1 := by
  induction count generalizing s entries with
  | zero => exact ⟨fun x hx => absurd hx List.not_mem_nil, h⟩
  | succ count ih =>
      unfold readyTouches reportReady
      cases hl : s.gReadyRrcUeContextList with
      | nil => exact ⟨fun x hx => absurd hx List.not_mem_nil, h⟩
      | cons a rest =>
          have hin : a ∈ s.mem.inUse := h.ready_inUse (hl ▸ List.mem_cons_self)
          have hwrite : (touchReady s a .write).Safe :=
            touchReady_safe hin (by decide)
          have hread : (touchReady (s.onRrc fun t => { t with gReadyRrcUeContextList := rest })
              a .read).Safe := touchReady_safe hin (by decide)
          have hfree := h.popped_free hl
          simp only [List.forall_mem_cons]
          split
          · split
            · exact ⟨⟨hwrite, hread, fun x hx => absurd hx List.not_mem_nil⟩, hfree⟩
            · obtain ⟨hsafe, hlinked⟩ := ih hfree (entries ++ [reportEntry (s.rrcUeContext a)])
              exact ⟨⟨hwrite, hread, hsafe⟩, hlinked⟩
          · obtain ⟨hsafe, hlinked⟩ := ih (h.popped hl) entries
            exact ⟨⟨hwrite, hread, hsafe⟩, hlinked⟩

theorem contextTouches_safe (h : Linked s) (ha : a ∈ s.gRrcUeContextList)
    (entries : List UeIdentity) : ∀ x ∈ contextTouches cfg s entries a, x.Safe := by
  have hin : a ∈ s.mem.inUse := h.context_inUse ha
  have hsafe : ∀ act, (touchRrc s a act).Safe := fun act =>
    ⟨decide_eq_true hin, fun _ => decide_eq_true ha⟩
  unfold contextTouches
  simp only
  split
  · intro x hx
    simp only [List.mem_cons, List.not_mem_nil, or_false] at hx
    rcases hx with rfl | rfl | rfl | rfl
    · exact hsafe .read
    · exact hsafe .write
    · exact hsafe .read
    · exact hsafe .write
  · intro x hx
    simp only [List.mem_cons, List.not_mem_nil, or_false] at hx
    rcases hx with rfl | rfl
    · exact hsafe .read
    · exact hsafe .updateTime

/-- The second loop. -/
theorem contextsTouches_safe (cfg : ReportConfig) (h : Linked s) (hn : l.Nodup)
    (hl : ∀ a ∈ l, a ∈ s.gRrcUeContextList) (entries : List UeIdentity) :
    (∀ x ∈ contextsTouches cfg l s entries, x.Safe) ∧
      Linked (reportContexts cfg l s entries).1 := by
  induction l generalizing s entries with
  | nil => exact ⟨fun x hx => absurd hx List.not_mem_nil, h⟩
  | cons a rest ih =>
      obtain ⟨hnot, hnodup⟩ := List.nodup_cons.mp hn
      have ha := hl a List.mem_cons_self
      obtain ⟨hlinked, hstay⟩ := reportContext_linked cfg h ha entries
      obtain ⟨hsafe, hend⟩ := ih hlinked hnodup (fun b hb =>
        hstay b (hl b (List.mem_cons_of_mem a hb)) (ne_of_mem_of_not_mem hb hnot))
        (reportContext cfg s entries a).2
      refine ⟨fun x hx => ?_, hend⟩
      rcases List.mem_append.mp hx with hx | hx
      · exact contextTouches_safe h ha entries x hx
      · exact hsafe x hx

/-- The body of the third loop is safe exactly if it deletes nothing. -/
theorem macContextTouches_safe_iff (cfg : ReportConfig) (h : Linked s) (ha : a ∈ s.gMacUeContext)
    (entries : List UeIdentity) :
    (∀ x ∈ macContextTouches cfg s entries a, x.Safe) ↔
      ¬(entries.length < maxNumUeInfoReport ∧ macContextDue cfg (s.macUeContext a) = true) := by
  have hin : a ∈ s.mem.inUse := h.macContext_inUse ha
  rw [macContextDue_iff]
  unfold macContextTouches
  simp only
  split
  · rename_i hdue
    refine iff_of_false (fun hall => ?_) (not_not_intro hdue)
    -- the context that has been deleted is counted idle
    have hlast := hall (touchMac (macDeleteUeContext
      (s.setMacContext a { s.macUeContext a with deleteFlag := true }) a) a .updateTime)
      (by simp)
    have hlinked : a ∈ s.gMacUeContext.erase a := of_decide_eq_true (hlast.2 rfl)
    exact h.macContexts_nodup.not_mem_erase hlinked
  · rename_i hdue
    refine iff_of_true (fun x hx => ?_) hdue
    simp only [List.mem_cons, List.not_mem_nil, or_false] at hx
    rcases hx with rfl | rfl
    · exact ⟨decide_eq_true hin, fun _ => decide_eq_true ha⟩
    · exact ⟨decide_eq_true hin, fun _ => decide_eq_true ha⟩

/-- **The third loop is safe exactly if it deletes nothing.** -/
theorem macContextsTouches_safe_iff (cfg : ReportConfig) (h : Linked s) (hn : l.Nodup)
    (hl : ∀ a ∈ l, a ∈ s.gMacUeContext) (entries : List UeIdentity) :
    (∀ x ∈ macContextsTouches cfg l s entries, x.Safe) ↔
      (macSweep cfg s entries.length l).taken = [] := by
  induction l generalizing s entries with
  | nil => exact iff_of_true (fun x hx => absurd hx List.not_mem_nil) rfl
  | cons a rest ih =>
      obtain ⟨hnot, hnodup⟩ := List.nodup_cons.mp hn
      have ha := hl a List.mem_cons_self
      have hfirst := macContextTouches_safe_iff cfg h ha entries
      rw [macContextsTouches]
      simp only [List.forall_mem_append, hfirst]
      by_cases hdue : entries.length < maxNumUeInfoReport ∧
          macContextDue cfg (s.macUeContext a) = true
      · rw [macSweep_cons_taken hdue.1 hdue.2]
        exact iff_of_false (fun hall => hall.1 hdue) (List.cons_ne_nil _ _)
      · obtain ⟨hlinked, hstay⟩ := reportMacContext_linked cfg h ha entries
        have hrest := ih hlinked hnodup (fun b hb =>
          hstay b (hl b (List.mem_cons_of_mem a hb)) (ne_of_mem_of_not_mem hb hnot))
          (reportMacContext cfg s entries a).2
        rw [hrest, macSweep_cons_kept hdue, reportMacContext_kept hdue]
        simp only
        rw [macSweep_congr fun b hb =>
          Function.update_of_ne (ne_of_mem_of_not_mem hb hnot) _ _]
        exact and_iff_right hdue

/-- **A pass touches deleted contexts exactly if it deletes a MAC context.** -/
theorem passTouches_safe_iff (cfg : ReportConfig) (h : Linked s) :
    (∀ x ∈ passTouches cfg s, x.Safe) ↔ (macOutcome cfg s).taken = [] := by
  obtain ⟨hready, h1⟩ := readyTouches_safe s.gReadyRrcUeContextList.length h []
  obtain ⟨hcontexts, h2⟩ := contextsTouches_safe cfg h1 h1.contexts_nodup
    (fun _ ha => ha) (reportReady s.gReadyRrcUeContextList.length s []).2
  have h3 := macContextsTouches_safe_iff cfg h2 h2.macContexts_nodup (fun _ ha => ha)
    (reportContexts cfg (reportReady s.gReadyRrcUeContextList.length s []).1.gRrcUeContextList
      (reportReady s.gReadyRrcUeContextList.length s []).1
      (reportReady s.gReadyRrcUeContextList.length s []).2).2
  unfold passTouches
  simp only [List.forall_mem_append]
  rw [and_iff_right ⟨hready, hcontexts⟩, h3, firstLoops_eq cfg h]
  simp only
  rw [← contextOutcome_used]
  exact Iff.of_eq (congrArg (fun o : Outcome β => o.taken = [])
    (macSweep_congr fun _ _ => rfl))

/-! ## The entries used -/

theorem readyOutcome_used_eq (s : MacState β) :
    (readyOutcome s).used
      = min maxNumUeInfoReport (s.gReadyRrcUeContextList.countP (reported s)) := by
  rw [readyOutcome, readySweep, used_eq_min (Nat.zero_le _), Nat.zero_add]
  simp only [Bool.true_and]

/-- The entries that are used when the second loop reaches the context after `pre`. -/
theorem contextSweep_used (cfg : ReportConfig) (s : MacState β) (pre : List β) :
    (contextSweep cfg s (readyOutcome s).used pre).used
      = min maxNumUeInfoReport (entriesAsked cfg s pre) := by
  have hle : (readyOutcome s).used ≤ maxNumUeInfoReport := by
    rw [readyOutcome_used_eq]
    exact Nat.min_le_left _ _
  rw [contextSweep, used_eq_min hle, readyOutcome_used_eq, entriesAsked]
  omega

/-- No MAC context is deleted. -/
theorem macOutcome_taken_eq_nil_iff (cfg : ReportConfig) (s : MacState β) :
    (macOutcome cfg s).taken = [] ↔
      (∀ a ∈ s.gMacUeContext, (s.macUeContext a).idleCount.toNat < cfg.gMaxIdleCount) ∨
        maxNumUeInfoReport ≤ entriesAsked cfg s s.gRrcUeContextList := by
  have hfull : maxNumUeInfoReport ≤ (contextOutcome cfg s).used ↔
      maxNumUeInfoReport ≤ entriesAsked cfg s s.gRrcUeContextList := by
    rw [contextOutcome, contextSweep_used]
    omega
  have hdue : ∀ a, macContextDue cfg (s.macUeContext a) = false ↔
      (s.macUeContext a).idleCount.toNat < cfg.gMaxIdleCount := fun a => by
    simp [macContextDue]
  rw [macOutcome, macSweep, taken_eq_nil_iff, hfull, or_comm]
  simp only [hdue]

/-- **Which RRC contexts survive**, by their position in the list. -/
theorem forall_survivor_iff (cfg : ReportConfig) (h : Linked s) (p : β → Prop) :
    (∀ a ∈ (contextOutcome cfg s).kept, p a) ↔
      ∀ pre a post, s.gRrcUeContextList = pre ++ a :: post → ¬p a →
        contextDue cfg (s.rrcUeContext a) = true ∧
          entriesAsked cfg s pre < maxNumUeInfoReport := by
  have hkept : ∀ {pre post : List β} {a : β}, s.gRrcUeContextList = pre ++ a :: post →
      (a ∈ (contextOutcome cfg s).kept ↔ ¬(contextDue cfg (s.rrcUeContext a) = true ∧
        entriesAsked cfg s pre < maxNumUeInfoReport)) := by
    intro pre post a hl
    have hn : (pre ++ a :: post).Nodup := hl ▸ h.contexts_nodup
    have hused : (contextSweep cfg s (readyOutcome s).used pre).used < maxNumUeInfoReport ↔
        entriesAsked cfg s pre < maxNumUeInfoReport := by
      rw [contextSweep_used]
      omega
    rw [contextOutcome, contextSweep, hl, mem_kept_iff hn, ← hused, and_comm]
    rfl
  constructor
  · intro hall pre a post hl hp
    by_contra hnot
    exact hp (hall a ((hkept hl).mpr hnot))
  · intro hall a ha
    by_contra hp
    have hmem : a ∈ s.gRrcUeContextList := (kept_sublist _ _).mem ha
    obtain ⟨pre, post, hl⟩ := List.append_of_mem hmem
    exact (hkept hl).mp ha (hall pre a post hl hp)

/-! ## The counters -/

theorem idleCount16_add_one (c : UInt16) :
    (c + 1).toNat = c.toNat + 1 ↔ c.toNat ≠ 2 ^ 16 - 1 := by
  have hlt := c.toNat_lt
  rw [UInt16.toNat_add]
  show (c.toNat + 1) % 2 ^ 16 = _ ↔ _
  omega

theorem idleCount32_add_one (c : UInt32) :
    (c + 1).toNat = c.toNat + 1 ↔ c.toNat ≠ 2 ^ 32 - 1 := by
  have hlt := c.toNat_lt
  rw [UInt32.toNat_add]
  show (c.toNat + 1) % 2 ^ 32 = _ ↔ _
  omega

/-- A context that survives is counted once. -/
theorem reportPass_rrcUeContext (cfg : ReportConfig) (h : Linked s)
    (ha : a ∈ (contextOutcome cfg s).kept) :
    (reportPass cfg s).1.rrcUeContext a = idleContext (s.rrcUeContext a) := by
  rw [reportPass_eq cfg h]
  exact after_of_kept ha (not_mem_taken_of_kept h.contexts_nodup ha)

theorem reportPass_macUeContext (cfg : ReportConfig) (h : Linked s)
    (ha : a ∈ (macOutcome cfg s).kept) :
    (reportPass cfg s).1.macUeContext a = idleMacContext (s.macUeContext a) := by
  rw [reportPass_eq cfg h]
  exact after_of_kept ha (not_mem_taken_of_kept h.macContexts_nodup ha)

theorem contexts_counted_iff (cfg : ReportConfig) (h : Linked s) :
    (∀ a ∈ (reportPass cfg s).1.gRrcUeContextList,
      ((reportPass cfg s).1.rrcUeContext a).idleCount.toNat
        = (s.rrcUeContext a).idleCount.toNat + 1) ↔
      ∀ pre a post, s.gRrcUeContextList = pre ++ a :: post →
        (s.rrcUeContext a).idleCount.toNat = 2 ^ 16 - 1 →
          contextDue cfg (s.rrcUeContext a) = true ∧
            entriesAsked cfg s pre < maxNumUeInfoReport := by
  have hlist : (reportPass cfg s).1.gRrcUeContextList = (contextOutcome cfg s).kept := by
    rw [reportPass_eq cfg h]
    rfl
  have hcount : ∀ a ∈ (contextOutcome cfg s).kept,
      (((reportPass cfg s).1.rrcUeContext a).idleCount.toNat
        = (s.rrcUeContext a).idleCount.toNat + 1 ↔
        (s.rrcUeContext a).idleCount.toNat ≠ 2 ^ 16 - 1) := by
    intro a ha
    rw [reportPass_rrcUeContext cfg h ha]
    exact idleCount16_add_one _
  rw [hlist, forall₂_congr hcount, forall_survivor_iff cfg h]
  simp only [not_not]

/-- **The report pass touches no deleted context exactly in these states.** -/
theorem touchesSafely_iff (cfg : ReportConfig) (h : Linked s) :
    TouchesSafely cfg s ↔ PassSafe cfg s := by
  have htouches := (passTouches_safe_iff cfg h).trans (macOutcome_taken_eq_nil_iff cfg s)
  have hcontexts := contexts_counted_iff cfg h
  have hlist : (reportPass cfg s).1.gMacUeContext = (macOutcome cfg s).kept := by
    rw [reportPass_eq cfg h]
  -- when no MAC context is deleted, all of them are counted
  have hmac : (macOutcome cfg s).taken = [] →
      ((∀ a ∈ (reportPass cfg s).1.gMacUeContext,
        ((reportPass cfg s).1.macUeContext a).idleCount.toNat
          = (s.macUeContext a).idleCount.toNat + 1) ↔
      ∀ a ∈ s.gMacUeContext, (s.macUeContext a).idleCount.toNat ≠ 2 ^ 32 - 1) := by
    intro hnone
    have hkept : (macOutcome cfg s).kept = s.gMacUeContext := kept_eq_of_taken_eq_nil hnone
    rw [hlist, hkept]
    refine forall₂_congr fun a ha => ?_
    rw [reportPass_macUeContext cfg h (hkept.symm ▸ ha)]
    exact idleCount32_add_one _
  constructor
  · rintro ⟨h1, h2, h3⟩
    have hnone := (passTouches_safe_iff cfg h).mp h1
    exact ⟨htouches.mp h1, hcontexts.mp h2, (hmac hnone).mp h3⟩
  · rintro ⟨h1, h2, h3⟩
    have hnone := (macOutcome_taken_eq_nil_iff cfg s).mpr h1
    exact ⟨htouches.mpr h1, hcontexts.mpr h2, (hmac hnone).mpr h3⟩

end Proofs

/-! ## Two states -/

/-- An RRC context and a MAC context that have both been idle for a pass. -/
def onceIdle : MacState Nat where
  toRrcState := { freshState with
    mem := { freshState.mem with inUse := {1, 2} }
    rrcUeContext := fun _ => ⟨1, 61, false, UeIdentity.zero⟩
    gRrcUeContextList := [1] }
  macUeContext _ := ⟨1, 61, 0, false, 0, 0⟩
  gMacUeContext := [2]

theorem onceIdle_linked : Linked onceIdle := ⟨by decide, by decide⟩

/-- A pass is safe where neither is due before two passes, and it is not where they are due. -/
theorem touchesSafely_iff_onceIdle : Linked onceIdle ∧
    TouchesSafely ⟨200, 2, fun _ => UeIdentity.zero⟩ onceIdle ∧
      ¬ TouchesSafely ⟨200, 1, fun _ => UeIdentity.zero⟩ onceIdle := by
  have hsafe : PassSafe ⟨200, 2, fun _ => UeIdentity.zero⟩ onceIdle := by
    refine ⟨Or.inl (by decide), fun _ a _ _ hcount => ?_, by decide⟩
    have hone : (onceIdle.rrcUeContext a).idleCount.toNat = 1 := rfl
    omega
  have hunsafe : ¬ PassSafe ⟨200, 1, fun _ => UeIdentity.zero⟩ onceIdle := fun h =>
    absurd h.mac (by decide)
  exact ⟨onceIdle_linked, (touchesSafely_iff _ onceIdle_linked).mpr hsafe,
    fun h => hunsafe ((touchesSafely_iff _ onceIdle_linked).mp h)⟩

/-- A MAC context that is due after one pass is counted idle when it has been released. -/
theorem not_touchesSafely_idle_context :
    ¬ ∀ (cfg : ReportConfig) (s : MacState Nat), Linked s → TouchesSafely cfg s := by
  intro h
  have hsafe := (h ⟨200, 1, fun _ => UeIdentity.zero⟩ onceIdle onceIdle_linked).touches
  exact absurd hsafe (by decide +kernel)

end LteUlp.Worker
