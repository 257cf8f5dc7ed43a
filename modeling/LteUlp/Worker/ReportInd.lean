import LteUlp.Worker.Touches

set_option autoImplicit false
set_option linter.unusedSectionVars false

/-! # The datagram of a report pass

`UlpRecvAndHandleOamData` fills a `LteUlpDataInd` on its stack. The three loops share the
local `ueIndex` and the field `length`, and each compares the index with the size of the
array in its own way. Here the message is as the source has it; `ulpHandleUeIdentity_eq` says
that what it holds is the list of entries of `Worker/Report.lean`.

From the closed form of the pass follows what a datagram is: its entries are at the indices
from `0` on, each from another context that the pass has taken out of its list, and no other
context has gone except RRC contexts without an identity whose time is over.
-/

namespace LteUlp.Worker

open Sweep LteUlp.Rrc LteUlp.Mac

/-- `MSG_ULP_UE_IDENTITY_IND`. -/
def msgUlpUeIdentityInd : UInt16 := 0x82

/-- `LTE_ULP_DATA_IND_HEAD_LEHGTH + LTE_UE_ID_IND_MSG_HEAD_LEHGTH`. -/
def identityIndHeadLength : UInt16 := 8

/-- `sizeof(UeIdentity)`: two bytes for the RNTI, the two flags, four for the message type and
`spare`, four for the M-TMSI and sixteen digits. -/
def sizeofUeIdentity : UInt16 := 28

/-- The `LteUlpDataInd` that a pass fills, with the local `ueIndex` and the indices of the
array in the order in which they are written. -/
structure UlpDataInd where
  msgType : UInt16
  length : UInt16
  count : UInt32
  ueIdentityArray : Nat → UeIdentity
  ueIndex : Nat
  written : List Nat

/-- Fill the entry at `ueIndex`. -/
def UlpDataInd.put (d : UlpDataInd) (id : UeIdentity) : UlpDataInd :=
  { d with
    ueIdentityArray := Function.update d.ueIdentityArray d.ueIndex id
    length := d.length + sizeofUeIdentity
    ueIndex := d.ueIndex + 1
    written := d.written ++ [d.ueIndex] }

variable {β : Type} [DecidableEq β]

/-! ## The loops -/

/-- The loop over `gReadyRrcUeContextList`. -/
def fillReady : Nat → MacState β → UlpDataInd → MacState β × UlpDataInd
  | 0, s, d => (s, d)
  | rrcCtxCount + 1, s, d =>
      match s.gReadyRrcUeContextList with
      | [] => (s, d)
      | a :: rest =>
          let c := s.rrcUeContext a
          let s := s.onRrc fun t => { t with gReadyRrcUeContextList := rest }
          if c.ueIdentity.imsiPresent || c.ueIdentity.mTmsiPresent then
            let d := d.put { c.ueIdentity with rnti := c.rnti }
            let s := s.free a
            if d.ueIndex = maxNumUeInfoReport then (s, d) else fillReady rrcCtxCount s d
          else fillReady rrcCtxCount s d

/-- The body of the loop over `gRrcUeContextList`. -/
def fillContext (cfg : ReportConfig) (s : MacState β) (d : UlpDataInd) (a : β) :
    MacState β × UlpDataInd :=
  let c := s.rrcUeContext a
  if d.ueIndex < maxNumUeInfoReport ∧
      ((c.ueIdentity.imsiPresent && c.ueIdentity.mTmsiPresent) = true ∨
        c.idleCount.toNat ≥ cfg.gMaxRrcCtxIdleCount) then
    let s := s.onRrc fun t => t.setContext a { c with deleteFlag := true }
    let d :=
      if c.ueIdentity.imsiPresent || c.ueIdentity.mTmsiPresent then
        d.put { c.ueIdentity with rnti := c.rnti }
      else d
    (s.onRrc fun t => rrcDeleteUeContext t a, d)
  else (s.onRrc fun t => rrcUpdateUeContextTime t (some a) 1, d)

def fillContexts (cfg : ReportConfig) :
    List β → MacState β → UlpDataInd → MacState β × UlpDataInd
  | [], s, d => (s, d)
  | a :: rest, s, d =>
      let r := fillContext cfg s d a
      fillContexts cfg rest r.1 r.2

/-- The body of the loop over `gMacUeContext`. Of the entry only the flags and the RNTI are
written. -/
def fillMacContext (cfg : ReportConfig) (s : MacState β) (d : UlpDataInd) (a : β) :
    MacState β × UlpDataInd :=
  let c := s.macUeContext a
  if d.ueIndex < maxNumUeInfoReport ∧ c.idleCount.toNat ≥ cfg.gMaxIdleCount then
    let s := s.setMacContext a { c with deleteFlag := true }
    let d := d.put { d.ueIdentityArray d.ueIndex with
      imsiPresent := false, mTmsiPresent := false, rnti := c.rnti }
    (macUpdateUeContextTime (macDeleteUeContext s a) a 1, d)
  else (macUpdateUeContextTime s a 1, d)

def fillMacContexts (cfg : ReportConfig) :
    List β → MacState β → UlpDataInd → MacState β × UlpDataInd
  | [], s, d => (s, d)
  | a :: rest, s, d =>
      let r := fillMacContext cfg s d a
      fillMacContexts cfg rest r.1 r.2

/-- **The identity part of `UlpRecvAndHandleOamData`**: the state it leaves, the message on
the stack, and the one that is sent, if any. -/
def ulpHandleUeIdentity (cfg : ReportConfig) (s : MacState β) (count : UInt32) :
    MacState β × UlpDataInd × Option UlpDataInd :=
  let d : UlpDataInd :=
    { msgType := msgUlpUeIdentityInd
      length := identityIndHeadLength
      count := count
      ueIdentityArray := cfg.stale
      ueIndex := 0
      written := [] }
  let r := fillReady s.gReadyRrcUeContextList.length s d
  let r := fillContexts cfg r.1.gRrcUeContextList r.1 r.2
  let r := fillMacContexts cfg r.1.gMacUeContext r.1 r.2
  (r.1, r.2,
    if r.2.ueIndex > 0 then some { r.2 with count := UInt32.ofNat r.2.ueIndex } else none)

/-! ## The message holds the entries -/

/-- The message holds the entries, from index `0` on, and the rest of its array is as it
was. -/
structure Holds (cfg : ReportConfig) (d : UlpDataInd) (entries : List UeIdentity) : Prop where
  ueIndex : d.ueIndex = entries.length
  length : d.length.toNat = (8 + 28 * entries.length) % 2 ^ 16
  array : ∀ i, d.ueIdentityArray i = (entries[i]?).getD (cfg.stale i)
  written : d.written = List.range entries.length

section Filling

variable {cfg : ReportConfig} {s : MacState β} {d : UlpDataInd} {entries : List UeIdentity}
variable {id : UeIdentity}

/-- **One more entry.** -/
theorem Holds.put (h : Holds cfg d entries) (id : UeIdentity) :
    Holds cfg (d.put id) (entries ++ [id]) := by
  have hlen : (entries ++ [id]).length = entries.length + 1 := by simp
  constructor
  · show d.ueIndex + 1 = _
    rw [h.ueIndex, hlen]
  · show (d.length + sizeofUeIdentity).toNat = _
    have hsize : sizeofUeIdentity.toNat = 28 := rfl
    rw [UInt16.toNat_add, h.length, hsize, hlen]
    omega
  · intro i
    show Function.update d.ueIdentityArray d.ueIndex id i = _
    rw [h.ueIndex]
    by_cases hi : i = entries.length
    · subst hi
      rw [Function.update_self, List.getElem?_concat_length]
      rfl
    · rw [Function.update_of_ne hi, h.array, List.getElem?_append]
      split
      · rfl
      · have hout : ([id] : List UeIdentity)[i - entries.length]? = none :=
          List.getElem?_eq_none (by simp; omega)
        have hout' : entries[i]? = none := List.getElem?_eq_none (by omega)
        rw [hout, hout']
  · show d.written ++ [d.ueIndex] = _
    rw [h.written, h.ueIndex, hlen, List.range_succ]

/-- The first loop. -/
theorem fillReady_eq (count : Nat) (s : MacState β) (h : Holds cfg d entries) :
    (fillReady count s d).1 = (reportReady count s entries).1 ∧
      Holds cfg (fillReady count s d).2 (reportReady count s entries).2 := by
  induction count generalizing s d entries with
  | zero => exact ⟨rfl, h⟩
  | succ count ih =>
      unfold fillReady reportReady
      cases s.gReadyRrcUeContextList with
      | nil => exact ⟨rfl, h⟩
      | cons a rest =>
          have hput : Holds cfg
              (d.put { (s.rrcUeContext a).ueIdentity with rnti := (s.rrcUeContext a).rnti })
              (entries ++ [reportEntry (s.rrcUeContext a)]) := h.put _
          simp only
          by_cases hid : hasIdentity (s.rrcUeContext a).ueIdentity = true
          · have hsrc : ((s.rrcUeContext a).ueIdentity.imsiPresent
                || (s.rrcUeContext a).ueIdentity.mTmsiPresent) = true := hid
            rw [if_pos hsrc, if_pos hid]
            by_cases hfull : (entries ++ [reportEntry (s.rrcUeContext a)]).length
                = maxNumUeInfoReport
            · rw [if_pos (hput.ueIndex.trans hfull), if_pos hfull]
              exact ⟨rfl, hput⟩
            · rw [if_neg fun hx => hfull (hput.ueIndex.symm.trans hx), if_neg hfull]
              exact ih _ hput
          · have hsrc : ¬((s.rrcUeContext a).ueIdentity.imsiPresent
                || (s.rrcUeContext a).ueIdentity.mTmsiPresent) = true := hid
            rw [if_neg hsrc, if_neg hid]
            exact ih _ h

theorem fillContext_eq (s : MacState β) (a : β) (h : Holds cfg d entries) :
    (fillContext cfg s d a).1 = (reportContext cfg s entries a).1 ∧
      Holds cfg (fillContext cfg s d a).2 (reportContext cfg s entries a).2 := by
  unfold fillContext reportContext
  simp only [h.ueIndex]
  split
  · refine ⟨rfl, ?_⟩
    by_cases hid : hasIdentity (s.rrcUeContext a).ueIdentity = true
    · have hsrc : ((s.rrcUeContext a).ueIdentity.imsiPresent
          || (s.rrcUeContext a).ueIdentity.mTmsiPresent) = true := hid
      rw [if_pos hsrc, if_pos hid]
      exact h.put (reportEntry (s.rrcUeContext a))
    · have hsrc : ¬((s.rrcUeContext a).ueIdentity.imsiPresent
          || (s.rrcUeContext a).ueIdentity.mTmsiPresent) = true := hid
      rw [if_neg hsrc, if_neg hid]
      exact h
  · exact ⟨rfl, h⟩

/-- The second loop. -/
theorem fillContexts_eq (l : List β) (s : MacState β) (h : Holds cfg d entries) :
    (fillContexts cfg l s d).1 = (reportContexts cfg l s entries).1 ∧
      Holds cfg (fillContexts cfg l s d).2 (reportContexts cfg l s entries).2 := by
  induction l generalizing s d entries with
  | nil => exact ⟨rfl, h⟩
  | cons a l ih =>
      obtain ⟨hstate, hholds⟩ := fillContext_eq s a h
      rw [fillContexts, reportContexts, ← hstate]
      exact ih _ hholds

theorem fillMacContext_eq (s : MacState β) (a : β) (h : Holds cfg d entries) :
    (fillMacContext cfg s d a).1 = (reportMacContext cfg s entries a).1 ∧
      Holds cfg (fillMacContext cfg s d a).2 (reportMacContext cfg s entries a).2 := by
  -- the array is still as it was at the index of the entry
  have hstale : d.ueIdentityArray d.ueIndex = cfg.stale entries.length := by
    rw [h.array, h.ueIndex, List.getElem?_eq_none (Nat.le_refl _)]
    rfl
  unfold fillMacContext reportMacContext
  simp only [hstale]
  rw [h.ueIndex]
  split
  · exact ⟨rfl, h.put _⟩
  · exact ⟨rfl, h⟩

/-- The third loop. -/
theorem fillMacContexts_eq (l : List β) (s : MacState β) (h : Holds cfg d entries) :
    (fillMacContexts cfg l s d).1 = (reportMacContexts cfg l s entries).1 ∧
      Holds cfg (fillMacContexts cfg l s d).2 (reportMacContexts cfg l s entries).2 := by
  induction l generalizing s d entries with
  | nil => exact ⟨rfl, h⟩
  | cons a l ih =>
      obtain ⟨hstate, hholds⟩ := fillMacContext_eq s a h
      rw [fillMacContexts, reportMacContexts, ← hstate]
      exact ih _ hholds

/-- **The identity part is the report pass**, and its message holds the entries. -/
theorem ulpHandleUeIdentity_eq (cfg : ReportConfig) (s : MacState β) (count : UInt32) :
    (ulpHandleUeIdentity cfg s count).1 = (reportPass cfg s).1 ∧
      Holds cfg (ulpHandleUeIdentity cfg s count).2.1 (reportPass cfg s).2 ∧
      (ulpHandleUeIdentity cfg s count).2.2
        = if 0 < (reportPass cfg s).2.length then
            some { (ulpHandleUeIdentity cfg s count).2.1 with
              count := UInt32.ofNat (reportPass cfg s).2.length }
          else none := by
  have h0 : Holds cfg ⟨msgUlpUeIdentityInd, identityIndHeadLength, count, cfg.stale, 0, []⟩ [] :=
    ⟨rfl, rfl, fun _ => rfl, rfl⟩
  obtain ⟨hs1, h1⟩ := fillReady_eq s.gReadyRrcUeContextList.length s h0
  obtain ⟨hs2, h2⟩ := fillContexts_eq
    (reportReady s.gReadyRrcUeContextList.length s []).1.gRrcUeContextList
    (reportReady s.gReadyRrcUeContextList.length s []).1 h1
  obtain ⟨hs3, h3⟩ := fillMacContexts_eq
    (reportContexts cfg (reportReady s.gReadyRrcUeContextList.length s []).1.gRrcUeContextList
      (reportReady s.gReadyRrcUeContextList.length s []).1
      (reportReady s.gReadyRrcUeContextList.length s []).2).1.gMacUeContext
    (reportContexts cfg (reportReady s.gReadyRrcUeContextList.length s []).1.gRrcUeContextList
      (reportReady s.gReadyRrcUeContextList.length s []).1
      (reportReady s.gReadyRrcUeContextList.length s []).2).1 h2
  unfold ulpHandleUeIdentity reportPass
  simp only [hs1, hs2]
  rw [h3.ueIndex]
  exact ⟨hs3, h3, rfl⟩

end Filling

/-! ## Where the entries come from -/

/-- The context that an entry is made from, by the list it was in. -/
inductive Source (β : Type) where
  | ready (a : β)
  | rrc (a : β)
  | mac (a : β)
  deriving DecidableEq

def Source.block : Source β → β
  | .ready a => a
  | .rrc a => a
  | .mac a => a

/-- The context was in its list before the pass, and is not afterwards. -/
def Source.Removed (s t : MacState β) : Source β → Prop
  | .ready a => a ∈ s.gReadyRrcUeContextList ∧ a ∉ t.gReadyRrcUeContextList
  | .rrc a => a ∈ s.gRrcUeContextList ∧ a ∉ t.gRrcUeContextList
  | .mac a => a ∈ s.gMacUeContext ∧ a ∉ t.gMacUeContext

/-- The entry carries what the context held before the pass. -/
def Source.CarriedBy (s : MacState β) (id : UeIdentity) : Source β → Prop
  | .ready a =>
      id = { (s.rrcUeContext a).ueIdentity with rnti := (s.rrcUeContext a).rnti } ∧
        hasIdentity id = true
  | .rrc a =>
      id = { (s.rrcUeContext a).ueIdentity with rnti := (s.rrcUeContext a).rnti } ∧
        hasIdentity id = true
  | .mac a =>
      id.rnti = (s.macUeContext a).rnti ∧ id.imsiPresent = false ∧ id.mTmsiPresent = false

/-- **A well formed datagram** for the pass from `s` to `t`: the message `d` on the stack, the
one that is sent, and the contexts that its entries come from. -/
structure WellFormed (cfg : ReportConfig) (s t : MacState β) (d : UlpDataInd)
    (sent : Option UlpDataInd) (sources : List (Source β)) : Prop where
  bound : sources.length ≤ maxNumUeInfoReport
  written : d.written = List.range sources.length
  isSome : sent.isSome = true ↔ 0 < sources.length
  sent : ∀ m, sent = some m →
    m = { d with count := UInt32.ofNat sources.length } ∧ m.count.toNat = sources.length ∧
      m.length.toNat = 8 + sources.length * sizeofUeIdentity.toNat
  distinct : (sources.map Source.block).Nodup
  removed : ∀ x ∈ sources, x.Removed s t
  entries : ∀ (i : Nat) (hi : i < sources.length),
    (sources[i]).CarriedBy s (d.ueIdentityArray i)
  readyOrder : t.gReadyRrcUeContextList <:+ s.gReadyRrcUeContextList
  rrcOrder : t.gRrcUeContextList.Sublist s.gRrcUeContextList
  macOrder : t.gMacUeContext.Sublist s.gMacUeContext
  ready : ∀ a ∈ s.gReadyRrcUeContextList, a ∉ t.gReadyRrcUeContextList → .ready a ∈ sources
  rrc : ∀ a ∈ s.gRrcUeContextList, a ∉ t.gRrcUeContextList →
    .rrc a ∈ sources ∨ hasIdentity (s.rrcUeContext a).ueIdentity = false ∧
      (s.rrcUeContext a).idleCount.toNat ≥ cfg.gMaxRrcCtxIdleCount
  mac : ∀ a ∈ s.gMacUeContext, a ∉ t.gMacUeContext → .mac a ∈ sources

/-- The sources of the entries of a pass. -/
def passSources (cfg : ReportConfig) (s : MacState β) : List (Source β) :=
  ((readyOutcome s).taken.filter (reported s)).map .ready
    ++ ((contextOutcome cfg s).taken.filter (reported s)).map .rrc
    ++ (macOutcome cfg s).taken.map .mac

section Sources

variable {cfg : ReportConfig} {s : MacState β} {a : β}

theorem reportEntries_carried (s : MacState β) (mk : β → Source β) (l : List β)
    (hmk : ∀ a id, (mk a).CarriedBy s id ↔
      id = { (s.rrcUeContext a).ueIdentity with rnti := (s.rrcUeContext a).rnti } ∧
        hasIdentity id = true) :
    List.Forall₂ (fun x id => x.CarriedBy s id) ((l.filter (reported s)).map mk)
      (reportEntries s l) := by
  unfold reportEntries
  rw [List.forall₂_map_left_iff, List.forall₂_map_right_iff, List.forall₂_same]
  intro a ha
  have hid : hasIdentity (s.rrcUeContext a).ueIdentity = true := (List.mem_filter.mp ha).2
  exact (hmk a _).mpr ⟨rfl, hid⟩

theorem macEntries_carried (i : Nat) (l : List β) :
    List.Forall₂ (fun x id => x.CarriedBy s id) (l.map Source.mac) (macEntries cfg s i l) := by
  induction l generalizing i with
  | nil => exact .nil
  | cons a l ih => exact .cons ⟨rfl, rfl, rfl⟩ (ih (i + 1))

/-- Each entry of the pass carries what its source held. -/
theorem reportPass_carried (cfg : ReportConfig) (h : Linked s) :
    List.Forall₂ (fun x id => x.CarriedBy s id) (passSources cfg s) (reportPass cfg s).2 := by
  rw [reportPass_eq cfg h]
  have h1 := reportEntries_carried s Source.ready (readyOutcome s).taken
    fun _ _ => Iff.rfl
  have h2 := reportEntries_carried s Source.rrc (contextOutcome cfg s).taken
    fun _ _ => Iff.rfl
  exact List.rel_append (List.rel_append h1 h2) (macEntries_carried _ _)

theorem macOutcome_used_le (cfg : ReportConfig) (s : MacState β) :
    (macOutcome cfg s).used ≤ maxNumUeInfoReport := by
  refine used_le ?_ _
  rw [contextOutcome, contextSweep_used]
  exact Nat.min_le_left _ _

theorem length_passSources (cfg : ReportConfig) (s : MacState β) :
    (passSources cfg s).length = (macOutcome cfg s).used := by
  have hmac : (macOutcome cfg s).used
      = (contextOutcome cfg s).used + (macOutcome cfg s).taken.length := by
    rw [macOutcome, macSweep, used_eq_add, List.countP_true]
  rw [hmac, contextOutcome_used, List.length_append, length_reportEntries,
    length_reportEntries, List.countP_eq_length_filter, List.countP_eq_length_filter]
  simp only [passSources, List.length_append, List.length_map]

theorem passSources_distinct (cfg : ReportConfig) (h : Linked s) :
    ((passSources cfg s).map Source.block).Nodup := by
  have hblocks : (s.gReadyRrcUeContextList ++ s.gRrcUeContextList ++ s.gMacUeContext).Nodup :=
    (List.perm_append_comm.append_right s.gMacUeContext).nodup_iff.mp h.blocks_nodup
  refine hblocks.sublist ?_
  have hmap : ∀ (mk : β → Source β), (∀ a, (mk a).block = a) → ∀ l : List β,
      (l.map mk).map Source.block = l := by
    intro mk hmk l
    rw [List.map_map]
    exact (List.map_congr_left fun a _ => hmk a).trans (List.map_id l)
  unfold passSources
  rw [List.map_append, List.map_append, hmap _ fun _ => rfl, hmap _ fun _ => rfl,
    hmap _ fun _ => rfl]
  refine List.Sublist.append (List.Sublist.append ?_ ?_) (taken_sublist _ _)
  · exact List.filter_sublist.trans (taken_sublist _ _)
  · exact List.filter_sublist.trans (taken_sublist _ _)

theorem Linked.ready_nodup (h : Linked s) : s.gReadyRrcUeContextList.Nodup :=
  (List.nodup_append.mp (List.nodup_append.mp h.blocks_nodup).1).2.1

theorem passSources_removed (cfg : ReportConfig) (h : Linked s) :
    ∀ x ∈ passSources cfg s, x.Removed s (reportPass cfg s).1 := by
  rw [reportPass_eq cfg h]
  intro x hx
  rcases List.mem_append.mp hx with hx | hx
  · rcases List.mem_append.mp hx with hx | hx
    · obtain ⟨a, ha, rfl⟩ := List.mem_map.mp hx
      have ht := List.mem_of_mem_filter ha
      exact ⟨(taken_sublist _ _).mem ht, not_mem_kept_of_taken h.ready_nodup ht⟩
    · obtain ⟨a, ha, rfl⟩ := List.mem_map.mp hx
      have ht := List.mem_of_mem_filter ha
      exact ⟨(taken_sublist _ _).mem ht, not_mem_kept_of_taken h.contexts_nodup ht⟩
  · obtain ⟨a, ht, rfl⟩ := List.mem_map.mp hx
    exact ⟨(taken_sublist _ _).mem ht, not_mem_kept_of_taken h.macContexts_nodup ht⟩

/-- An RRC context that is deleted without an entry holds no identity, and its time is over. -/
theorem contextOutcome_taken (ha : a ∈ (contextOutcome cfg s).taken) :
    .rrc a ∈ passSources cfg s ∨ hasIdentity (s.rrcUeContext a).ueIdentity = false ∧
      (s.rrcUeContext a).idleCount.toNat ≥ cfg.gMaxRrcCtxIdleCount := by
  cases hr : reported s a with
  | true =>
      left
      refine List.mem_append_left _ (List.mem_append_right _ (List.mem_map_of_mem ?_))
      exact List.mem_filter.mpr ⟨ha, hr⟩
  | false =>
      have hno : hasIdentity (s.rrcUeContext a).ueIdentity = false := hr
      refine Or.inr ⟨hno, ?_⟩
      have htaken : a ∈ (sweep (fun b => contextDue cfg (s.rrcUeContext b)) (reported s)
        maxNumUeInfoReport (readyOutcome s).used s.gRrcUeContextList).taken := ha
      have hdue := due_of_taken _ htaken
      rcases (contextDue_iff cfg _).mp hdue with hboth | hidle
      · unfold hasIdentity at hno
        obtain ⟨himsi, hmTmsi⟩ := Bool.or_eq_false_iff.mp hno
        rw [himsi, hmTmsi] at hboth
        exact absurd hboth Bool.false_ne_true
      · exact hidle

end Sources

/-- **Every report datagram is well formed.** The contexts that are ready hold an identity. -/
theorem ulpHandleUeIdentity_wellFormed (cfg : ReportConfig) (s : MacState β) (count : UInt32)
    (h : Linked s)
    (hready : ∀ a ∈ s.gReadyRrcUeContextList, hasIdentity (s.rrcUeContext a).ueIdentity = true) :
    ∃ sources, WellFormed cfg s (ulpHandleUeIdentity cfg s count).1
      (ulpHandleUeIdentity cfg s count).2.1 (ulpHandleUeIdentity cfg s count).2.2 sources := by
  obtain ⟨hstate, hholds, hsent⟩ := ulpHandleUeIdentity_eq cfg s count
  have hcarried := reportPass_carried cfg h
  have hlen : (reportPass cfg s).2.length = (passSources cfg s).length :=
    hcarried.length_eq.symm
  have hbound : (passSources cfg s).length ≤ 32 := by
    rw [length_passSources]
    exact macOutcome_used_le cfg s
  have hlists : (reportPass cfg s).1.gReadyRrcUeContextList = (readyOutcome s).kept ∧
      (reportPass cfg s).1.gRrcUeContextList = (contextOutcome cfg s).kept ∧
      (reportPass cfg s).1.gMacUeContext = (macOutcome cfg s).kept := by
    rw [reportPass_eq cfg h]
    exact ⟨rfl, rfl, rfl⟩
  have hkept : ∀ {o : Outcome β} {l : List β}, (o.kept ++ o.taken).Perm l →
      ∀ a ∈ l, a ∉ o.kept → a ∈ o.taken := fun hp a ha hno =>
    (List.mem_append.mp (hp.mem_iff.mpr ha)).resolve_left hno
  refine ⟨passSources cfg s, ?_⟩
  rw [hstate, hsent, hlen]
  refine
    { bound := hbound
      written := hlen ▸ hholds.written
      isSome := ?_
      sent := fun m hm => ?_
      distinct := passSources_distinct cfg h
      removed := passSources_removed cfg h
      entries := fun i hi => ?_
      readyOrder := ?_
      rrcOrder := hlists.2.1 ▸ kept_sublist _ _
      macOrder := hlists.2.2 ▸ kept_sublist _ _
      ready := fun a ha hno => ?_
      rrc := fun a ha hno => ?_
      mac := fun a ha hno => ?_ }
  · split
    · rename_i hpos
      exact iff_of_true rfl hpos
    · rename_i hpos
      exact iff_of_false (by simp) hpos
  · split at hm
    · obtain rfl := Option.some.inj hm
      refine ⟨rfl, ?_, ?_⟩
      · show (UInt32.ofNat _).toNat = _
        rw [UInt32.toNat_ofNat']
        omega
      · show (ulpHandleUeIdentity cfg s count).2.1.length.toNat = _
        have hsize : sizeofUeIdentity.toNat = 28 := rfl
        rw [hholds.length, hlen, hsize]
        omega
    · exact absurd hm (Option.some_ne_none m).symm
  · have hi' : i < (reportPass cfg s).2.length := by omega
    rw [hholds.array, List.getElem?_eq_getElem hi']
    exact hcarried.get hi hi'
  · rw [hlists.1]
    exact ⟨(readyOutcome s).taken, taken_append_kept 0 fun _ _ => rfl⟩
  · rw [hlists.1] at hno
    have ht := hkept (kept_append_taken_perm _ _) a ha hno
    refine List.mem_append_left _ (List.mem_append_left _ (List.mem_map_of_mem ?_))
    exact List.mem_filter.mpr ⟨ht, hready a ha⟩
  · rw [hlists.2.1] at hno
    exact contextOutcome_taken (hkept (kept_append_taken_perm _ _) a ha hno)
  · rw [hlists.2.2] at hno
    have ht := hkept (kept_append_taken_perm _ _) a ha hno
    exact List.mem_append_right _ (List.mem_map_of_mem ht)

/-- A ready context with an IMSI, an RRC context that is still waiting and an idle MAC
context. -/
def threeContexts : MacState Nat where
  toRrcState := { freshState with
    mem := { freshState.mem with inUse := {1, 2, 3} }
    rrcUeContext := fun a => ⟨1, 61, false, { UeIdentity.zero with imsiPresent := a == 1 }⟩
    gReadyRrcUeContextList := [1]
    gRrcUeContextList := [2] }
  macUeContext _ := ⟨7, 62, 0, false, 0, 0⟩
  gMacUeContext := [3]

/-- Two entries are reported. -/
theorem ulpHandleUeIdentity_wellFormed_two :
    (ulpHandleUeIdentity ⟨200, 2, fun _ => UeIdentity.zero⟩ threeContexts 0).2.1.ueIndex = 2 ∧
      ∃ sources, WellFormed ⟨200, 2, fun _ => UeIdentity.zero⟩ threeContexts
        (ulpHandleUeIdentity ⟨200, 2, fun _ => UeIdentity.zero⟩ threeContexts 0).1
        (ulpHandleUeIdentity ⟨200, 2, fun _ => UeIdentity.zero⟩ threeContexts 0).2.1
        (ulpHandleUeIdentity ⟨200, 2, fun _ => UeIdentity.zero⟩ threeContexts 0).2.2 sources :=
  ⟨by decide +kernel,
    ulpHandleUeIdentity_wellFormed _ threeContexts 0 ⟨by decide, by decide⟩ (by decide +kernel)⟩

end LteUlp.Worker
