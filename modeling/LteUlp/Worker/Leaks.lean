import LteUlp.Mac.Sdus
import LteUlp.Worker.Isolation

set_option autoImplicit false
set_option linter.unusedSectionVars false

/-! # Leaks

The block of an SDU is passed on by a bare pointer, and whoever has it last releases it.
`RlcUeDataInd` does not where the SDU is empty, nor does `PdcpUeSrbDataInd` where it is the
header of PDCP alone.

* In a run of indications the blocks in use are those of the contexts, the entities and the
  incomplete SDUs, and those of such SDUs (`noLeak_iff_released`).
* Whether there are such SDUs can be told from the bytes of the indications (`Harmless`). Where
  there are none, nothing leaks (`noLeak_of_harmless`).
-/

namespace LteUlp.Worker

open BlockStore LteUlp.Rrc LteUlp.Pdcp LteUlp.Rlc LteUlp.Mac

variable {β : Type} [DecidableEq β]

/-! ## The blocks of a run -/

/-- The event is an indication. -/
def UlEvent.isPhyDataInd : UlEvent → Bool
  | .phyDataInd _ _ => true
  | _ => false

theorem phyDataInd_receives {env : MacPlatform β} {s t : UlState β} {event : UlEvent}
    (h : UlStep env s event t) (he : event.isPhyDataInd = true) :
    Receives s.toRlcState t.toRlcState 0 0 := by
  cases event with
  | phyDataInd pBuffer length =>
      obtain ⟨fuel, h⟩ := h
      exact macProcessPhyDataInd_receives h
  | cleanup _ => exact absurd he Bool.false_ne_true
  | report _ => exact absurd he Bool.false_ne_true

/-- A run of indications, as one transfer of blocks. -/
theorem run_leaves {env : MacPlatform β} {s t : UlState β} {events : List UlEvent}
    (hs : UlSound s.toRlcState) (h : UlRun env s events t)
    (hphy : ∀ event ∈ events, event.isPhyDataInd = true)
    (hj : t.refusedJoins = s.refusedJoins) :
    Leaves s.toRlcState t.toRlcState s.rlcOwned t.rlcOwned := by
  induction h with
  | start => exact .refl _ _
  | @step events event t u hrun hstep ih =>
      have h1 := run_joins hrun
      have h2 := step_joins hstep
      have hleaves := ih (fun x hx => hphy x (List.mem_append_left _ hx)) (by omega)
      obtain ⟨hsound, -⟩ := run_sound hs hrun (by omega)
      have hreceives := phyDataInd_receives hstep
        (hphy event (List.mem_append_right _ (List.mem_singleton_self event)))
      have hl := (hreceives.after (by omega) 0 hsound.rlc hsound.inHand).leaves
      rw [add_zero, add_zero] at hl
      exact hleaves.seq hl

/-- The counter of refused allocations grows with that of refused joins. -/
theorem run_grows {env : MacPlatform β} {s t : UlState β} {events : List UlEvent}
    (h : UlRun env s events t) (hphy : ∀ event ∈ events, event.isPhyDataInd = true) :
    Grows s.toRlcState t.toRlcState := by
  induction h with
  | start => exact .refl _
  | @step events event t u hrun hstep ih =>
      have hgrows := ih fun x hx => hphy x (List.mem_append_left _ hx)
      exact hgrows.trans (phyDataInd_receives hstep
        (hphy event (List.mem_append_right _ (List.mem_singleton_self event)))).toGrows

/-- The blocks in use are those of the contexts, the entities and the incomplete SDUs, each
once. -/
def NoLeak (s : UlState β) : Prop :=
  s.mem.inUse = s.toRrcState.owned + s.rlcOwned ∧ s.mem.misuses = 0

theorem lost_eq_zero_iff (inds : List (SduInd β)) :
    lost inds = 0 ↔
      ∀ ind ∈ inds, ind.pData.isSome → neverReleased ind.lcId ind.size = false := by
  induction inds with
  | nil => simp
  | cons ind inds ih =>
      have hcons : lost (ind :: inds)
          = lostBlock ind.lcId ind.size ind.pData + lost inds := by
        simp [lost]
      rw [hcons, add_eq_zero, ih, List.forall_mem_cons]
      refine and_congr_left fun _ => ?_
      unfold lostBlock
      cases neverReleased ind.lcId ind.size with
      | false => simp
      | true => cases ind.pData <;> simp

/-- **What is left behind**: in a run of indications in which no allocation is refused, no
block leaks and none is released twice exactly if no SDU has been delivered that PDCP and RRC
return from early with. -/
theorem noLeak_iff_released (env : MacPlatform β) {s t : UlState β} {events : List UlEvent}
    (hs : UlInitial s) (hempty : s.mem.inUse = 0 ∧ s.mem.misuses = 0 ∧ s.rlcUeDataInds = [])
    (h : UlRun env s events t) (hphy : ∀ event ∈ events, event.isPhyDataInd = true)
    (hf : t.mem.failures = s.mem.failures) :
    NoLeak t ↔
      ∀ ind ∈ t.rlcUeDataInds, ind.pData.isSome → neverReleased ind.lcId ind.size = false := by
  have hsound := initial_sound hs
  have hj := (run_grows h hphy).joined hf
  have hmoves := (run_leaves hsound h hphy hj).moves.transfer hf
  have hzero : s.toRlcState.above + s.rlcOwned = 0 := by
    have hle := hsound.rrc.owned
    rw [hempty.1, Multiset.le_zero] at hle
    unfold RlcState.above
    rw [hempty.2.2, lost_nil, add_zero]
    exact hle
  have hkeeps := hmoves.keeps 0 hs.nodup (by rw [hzero, hempty.1, add_zero])
  have huse : t.mem.inUse = lost t.rlcUeDataInds + (t.toRrcState.owned + t.rlcOwned) := by
    rw [hkeeps.inUse, add_zero]
    unfold RlcState.above
    ac_rfl
  rw [← lost_eq_zero_iff]
  constructor
  · intro hno
    have h1 := hno.1
    rw [huse] at h1
    exact add_eq_right.mp h1
  · intro hlost
    refine ⟨?_, hkeeps.misuses.trans hempty.2.1⟩
    rw [huse, hlost, zero_add]

instance (s : UlState β) : Decidable (NoLeak s) := inferInstanceAs (Decidable (_ ∧ _))

/-! ## What is sent -/

/-- The SDUs for RLC in an event. -/
def UlEvent.sdus (fuel : Nat) : UlEvent → Option (List (UInt16 × RlcSdu))
  | .phyDataInd pBuffer length => phySdus fuel pBuffer length
  | _ => some []

/-- The SDUs for RLC in a sequence of events; `none` where a loop over subheaders has not
ended. -/
def sentBy (fuel : Nat) : List UlEvent → Option (List (UInt16 × RlcSdu))
  | [] => some []
  | event :: events =>
      (event.sdus fuel).bind fun sdus => (sentBy fuel events).map fun rest => sdus ++ rest

/-- The PDUs among them that are for a channel. -/
def sentTo (rnti : UInt16) (lcId : Nat) (sent : List (UInt16 × RlcSdu)) : List (List UInt8) :=
  sent.flatMap fun p => pduFor rnti lcId p.1 p.2

/-- RLC can read the PDUs of a channel, and no SDU that they complete is empty or, on SRB 1,
of one byte. -/
structure HarmlessPdus (lcId : Nat) (pdus : List (List UInt8)) : Prop where
  receivable : Receivable pdus
  sdus : ∀ sdu ∈ (receivePdus none pdus).2, sdu ≠ [] ∧ (lcId < 2 → sdu.length ≠ 1)

/-- The PDUs in the indications are harmless on each channel. -/
def Harmless (events : List UlEvent) : Prop :=
  ∃ fuel sent, sentBy fuel events = some sent ∧
    ∀ rnti lcId, lcId ≤ srb2LcId → HarmlessPdus lcId (sentTo rnti lcId sent)

section Sent

variable {i k fuel : Nat} {event : UlEvent} {events more : List UlEvent} {rnti : UInt16}
variable {lcId : Nat} {sdus sent sent' : List (UInt16 × RlcSdu)} {pdus pdus' : List (List UInt8)}

theorem UlEvent.sdus_mono (h : event.sdus i = some sdus) (hik : i ≤ k) :
    event.sdus k = some sdus := by
  cases event with
  | phyDataInd pBuffer length => exact phySdus_mono h hik
  | cleanup g => exact h
  | report cfg => exact h

theorem sentBy_mono (h : sentBy i events = some sent) (hik : i ≤ k) :
    sentBy k events = some sent := by
  induction events generalizing sent with
  | nil => exact h
  | cons event events ih =>
      obtain ⟨sdus, hsdus, h⟩ := Option.bind_eq_some_iff.mp h
      obtain ⟨rest, hrest, rfl⟩ := Option.map_eq_some_iff.mp h
      rw [sentBy, UlEvent.sdus_mono hsdus hik, Option.bind_some, ih hrest]
      rfl

/-- What is sent does not depend on the fuel. -/
theorem sentBy_unique (h : sentBy i events = some sent) (h' : sentBy k events = some sent') :
    sent = sent' := by
  have hi := sentBy_mono h (Nat.le_max_left i k)
  have hk := sentBy_mono h' (Nat.le_max_right i k)
  exact Option.some.inj (hi.symm.trans hk)

theorem sentBy_append (fuel : Nat) (events more : List UlEvent) :
    sentBy fuel (events ++ more)
      = (sentBy fuel events).bind fun sdus => (sentBy fuel more).map fun rest => sdus ++ rest := by
  induction events with
  | nil => cases h : sentBy fuel more <;> simp [sentBy, h]
  | cons event events ih =>
      rw [List.cons_append, sentBy, sentBy, ih]
      cases event.sdus fuel with
      | none => rfl
      | some sdus =>
          cases sentBy fuel events with
          | none => rfl
          | some sent => cases sentBy fuel more <;> simp

theorem HarmlessPdus.left (h : HarmlessPdus lcId (pdus ++ pdus')) : HarmlessPdus lcId pdus := by
  refine ⟨h.receivable.left, fun sdu hsdu => h.sdus sdu ?_⟩
  rw [receivePdus_append]
  exact List.mem_append_left _ hsdu

/-- What is harmless is harmless at any time before its end. -/
theorem Harmless.left (h : Harmless (events ++ more)) : Harmless events := by
  obtain ⟨fuel, sent, hsent, hall⟩ := h
  rw [sentBy_append] at hsent
  obtain ⟨sdus, hsdus, hsent⟩ := Option.bind_eq_some_iff.mp hsent
  obtain ⟨rest, -, rfl⟩ := Option.map_eq_some_iff.mp hsent
  refine ⟨fuel, sdus, hsdus, fun rnti lcId hlc => ?_⟩
  have hpdus := hall rnti lcId hlc
  rw [sentTo, List.flatMap_append] at hpdus
  exact hpdus.left

/-- The PDUs for a channel in calls of `MacUeDataInd`. -/
theorem sentTo_sdus (rnti : UInt16) (lcId : Nat) (inds : List DataInd) :
    sentTo rnti lcId (inds.flatMap DataInd.sdus) = inds.flatMap (pdusFor rnti lcId) := by
  unfold sentTo
  rw [List.flatMap_assoc]
  refine List.flatMap_congr fun ind _ => ?_
  unfold DataInd.sdus pdusFor
  rw [List.flatMap_map]

end Sent

/-! ## Runs of indications -/

section Runs

variable {env : MacPlatform β} {s t : UlState β} {events more : List UlEvent} {rnti : UInt16}
variable {lcId : Nat}

/-- **The calls of a run** are made with what is sent. -/
theorem run_sends (hs : UlSound s.toRlcState) (h : UlRun env s events t)
    (hphy : ∀ event ∈ events, event.isPhyDataInd = true)
    (hf : t.mem.failures = s.mem.failures) :
    ∃ fuel sent, sentBy fuel events = some sent ∧ Sends s t sent := by
  -- on the events: each may need more fuel than those before, which changes nothing for them
  induction h with
  | start => exact ⟨0, [], rfl, .of_eq rfl⟩
  | @step events event t u hrun hstep ih =>
      have hbefore : ∀ x ∈ events, x.isPhyDataInd = true := fun x hx =>
        hphy x (List.mem_append_left _ hx)
      have hevent := hphy event (List.mem_append_right _ (List.mem_singleton_self event))
      have hle1 := (run_grows hrun hbefore).failures
      have hle2 := (phyDataInd_receives hstep hevent).failures
      have hft : t.mem.failures = s.mem.failures := by omega
      obtain ⟨i, sent, hsent, hsends⟩ := ih hbefore hft
      obtain ⟨hst, -⟩ := run_sound hs hrun ((run_grows hrun hbefore).joined hft)
      cases event with
      | phyDataInd pBuffer length =>
          obtain ⟨k, hstep⟩ := hstep
          obtain ⟨sdus, hsdus, hsends'⟩ := macProcessPhyDataInd_sends hst hstep (by omega)
          have hlast : sentBy (max i k) [.phyDataInd pBuffer length] = some sdus := by
            show (phySdus (max i k) pBuffer length).bind _ = _
            rw [phySdus_mono hsdus (Nat.le_max_right i k)]
            simp [sentBy]
          refine ⟨max i k, sent ++ sdus, ?_, hsends.trans hsends'⟩
          rw [sentBy_append, sentBy_mono hsent (Nat.le_max_left i k), Option.bind_some, hlast]
          rfl
      | cleanup g => exact absurd hevent Bool.false_ne_true
      | report cfg => exact absurd hevent Bool.false_ne_true

/-- A run of indications brings PDUs to a channel. -/
theorem run_handles (rnti : UInt16) (hlc : lcId ≤ srb2LcId) (h : UlRun env s events t)
    (hphy : ∀ event ∈ events, event.isPhyDataInd = true) : Handles env rnti lcId s t 0 0 := by
  induction h with
  | start => exact .refl env rnti lcId s 0
  | @step events event t u hrun hstep ih =>
      have hbefore := ih fun x hx => hphy x (List.mem_append_left _ hx)
      have hevent := hphy event (List.mem_append_right _ (List.mem_singleton_self event))
      cases event with
      | phyDataInd pBuffer length =>
          obtain ⟨fuel, hstep⟩ := hstep
          exact hbefore.seq (macProcessPhyDataInd_handles hlc hstep)
      | cleanup g => exact absurd hevent Bool.false_ne_true
      | report cfg => exact absurd hevent Bool.false_ne_true

/-- **What a run delivers** on a channel is what the reassembler makes of the PDUs that are
sent to it. -/
theorem run_delivers (hs : UlInitial s) (h : UlRun env s events t)
    (hphy : ∀ event ∈ events, event.isPhyDataInd = true)
    (hf : t.mem.failures = s.mem.failures) {fuel : Nat} {sent : List (UInt16 × RlcSdu)}
    (hsent : sentBy fuel events = some sent) (hlc : lcId ≤ srb2LcId)
    (hr : Receivable (sentTo rnti lcId sent)) :
    channelSdus t.toRlcState rnti lcId
      = channelSdus s.toRlcState rnti lcId ++ (receivePdus none (sentTo rnti lcId sent)).2 := by
  have hgathered := initial_gathered hs
  obtain ⟨k, sent', hsent', inds, hinds, rfl⟩ := run_sends hgathered.sound h hphy hf
  obtain rfl := sentBy_unique hsent' hsent
  obtain ⟨inds', hinds', hserves⟩ := run_handles rnti hlc h hphy
  obtain rfl : inds = inds' := List.append_cancel_left (hinds.symm.trans hinds')
  have hnothing : Receivable [] := ⟨fun p hp => absurd hp List.not_mem_nil, trivial⟩
  have hkeeps := (initial_isolated env hs rnti lcId).keeps hnothing
  rw [sentTo_sdus] at hr ⊢
  exact ((hserves.served hf 0 hgathered.rlc hgathered.inHand).converses none hkeeps hr.1 hr.2).sdus

/-- **Nothing leaks** in a run of indications in which no allocation is refused, at any time
before harmless indications end. -/
theorem noLeak_of_harmless (env : MacPlatform β) {s t : UlState β} {events more : List UlEvent}
    (hs : UlInitial s) (hempty : s.mem.inUse = 0 ∧ s.mem.misuses = 0 ∧ s.rlcUeDataInds = [])
    (h : UlRun env s events t) (hphy : ∀ event ∈ events, event.isPhyDataInd = true)
    (hf : t.mem.failures = s.mem.failures) (hharmless : Harmless (events ++ more)) :
    NoLeak t := by
  refine (noLeak_iff_released env hs hempty h hphy hf).mpr fun ind hind hsome => ?_
  obtain ⟨fuel, sent, hsent, hall⟩ := hharmless.left
  have hgathered := initial_gathered hs
  -- the call is for a signalling channel
  obtain ⟨inds, -, hserves⟩ := run_handles ind.rnti (le_refl srb2LcId) h hphy
  obtain ⟨l, hl, hlogged⟩ := (hserves.served hf 0 hgathered.rlc hgathered.inHand).calls
  rw [hempty.2.2, List.nil_append] at hl
  obtain ⟨hlc, hsized⟩ := hlogged ind (hl ▸ hind)
  have hlength := hsized hsome
  -- and so the SDU is one of those that the reassembler completes
  have hpdus := hall ind.rnti ind.lcId hlc
  have hdelivers := run_delivers hs h hphy hf hsent hlc hpdus.receivable
  have hmem : ind.data ∈ channelSdus t.toRlcState ind.rnti ind.lcId :=
    List.mem_map_of_mem (List.mem_filter.mpr ⟨hind, by simp⟩)
  rw [hdelivers] at hmem
  have hnone : channelSdus s.toRlcState ind.rnti ind.lcId = [] := by
    unfold channelSdus
    rw [hempty.2.2]
    rfl
  rw [hnone, List.nil_append] at hmem
  obtain ⟨hne, hone⟩ := hpdus.sdus ind.data hmem
  refine decide_eq_false ?_
  rintro (hzero | ⟨hlt, hsize⟩)
  · rw [hzero] at hlength
    exact hne (List.eq_nil_of_length_eq_zero hlength)
  · rw [hsize] at hlength
    exact hone hlt hlength

end Runs

/-! ### An SDU in three PDUs -/

/-- The PDUs of an SDU on SRB 1, a status PDU, and one PDU on SRB 2. -/
def harmlessEvents : List UlEvent :=
  [indicationFor 1 (servicePdus.encode 0), indicationFor 2 (servicePdus.encode 0),
    indicationFor 1 statusPdu, indicationFor 1 (servicePdus.encode 1),
    indicationFor 1 (servicePdus.encode 2)]

/-- Another PDU on SRB 2. -/
def harmlessMore : List UlEvent := [indicationFor 2 (servicePdus.encode 1)]

def harmlessSent : List (UInt16 × RlcSdu) :=
  [(1, servicePdus.encode 0), (2, servicePdus.encode 0), (1, statusPdu),
    (1, servicePdus.encode 1), (1, servicePdus.encode 2), (2, servicePdus.encode 1)].map
      fun p => (61, ⟨p.1, p.2.length, some p.2⟩)

theorem harmlessEvents_sent : sentBy 8 (harmlessEvents ++ harmlessMore) = some harmlessSent := by
  decide +kernel

theorem harmlessEvents_harmless : Harmless (harmlessEvents ++ harmlessMore) := by
  refine ⟨8, harmlessSent, harmlessEvents_sent, fun rnti lcId hlc => ?_⟩
  by_cases hrnti : rnti = 61
  · obtain rfl := hrnti
    have hpdus : ∀ lcId < 3, sentTo 61 lcId harmlessSent
        ⊆ statusPdu :: (List.range 3).map servicePdus.encode := by decide +kernel
    have hshort : ∀ lcId < 3, ShortPdus none (sentTo 61 lcId harmlessSent) := by decide +kernel
    have hsdus : ∀ lcId < 3, ∀ sdu ∈ (receivePdus none (sentTo 61 lcId harmlessSent)).2,
        sdu ≠ [] ∧ (lcId < 2 → sdu.length ≠ 1) := by decide +kernel
    have hlt : lcId < 3 := Nat.lt_succ_of_le hlc
    exact ⟨⟨fun pdu hpdu => service_readable (hpdus lcId hlt hpdu), hshort lcId hlt⟩,
      hsdus lcId hlt⟩
  · -- nothing is sent to the others
    have hnone : sentTo rnti lcId harmlessSent = [] := by
      refine List.flatMap_eq_nil_iff.mpr fun p hp => ?_
      obtain ⟨q, -, rfl⟩ := List.mem_map.mp hp
      exact if_neg fun h => hrnti (Prod.mk.inj h).1.symm
    rw [hnone]
    exact ⟨⟨fun p hp => absurd hp List.not_mem_nil, trivial⟩,
      fun sdu hsdu => absurd hsdu List.not_mem_nil⟩

theorem harmlessEvents_failures :
    (afterEvents harmlessEvents).map (fun t => t.mem.failures) = some 0 := by
  decide +kernel

/-- Nothing has leaked after the five PDUs. -/
theorem noLeak_service : ∃ t, afterEvents harmlessEvents = some t ∧ NoLeak t := by
  obtain ⟨t, ht, hf⟩ := Option.map_eq_some_iff.mp harmlessEvents_failures
  refine ⟨t, ht, ?_⟩
  exact noLeak_of_harmless freshMacPlatform freshUlState_initial ⟨rfl, rfl, rfl⟩
    (ulNexts_run .start ht) (by decide) hf harmlessEvents_harmless

/-- `RlcUeDataInd` returns early from an SDU that is empty, and its block stays in use. -/
theorem leak_emptySdu : ∃ t, UlRun freshMacPlatform freshUlState
    [.phyDataInd (some (indicationOf emptySdu)) 72] t ∧
      t.mem.failures = freshUlState.mem.failures ∧ ¬NoLeak t :=
  ⟨_, afterPacket_run emptySdu_isSome, by decide +kernel, by decide +kernel⟩

end LteUlp.Worker
