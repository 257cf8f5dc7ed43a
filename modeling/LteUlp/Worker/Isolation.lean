import LteUlp.Rlc.RawSdu
import LteUlp.Worker.Arrivals
import LteUlp.Worker.Conversations

set_option autoImplicit false
set_option linter.unusedSectionVars false

/-! # Channels are isolated

The worker serves all UEs at once: the PDUs of a channel come in between those of the others,
in indications of any contents, and cleanups and reports come in between too. A cleanup that
deletes the RLC context of the UE ends a conversation, and the next PDU begins a new one.

* What PDCP gets on a channel is what the reassembler makes of each conversation alone
  (`channel_isolated`).
* An identity in a NAS message that a UE sends on SRB 1, in however many PDUs, is reported or
  carried in every later state (`nasMessage_known`).
-/

namespace LteUlp.Worker

open BlockStore BitString Fragments LteUlp.Nas LteUlp.Rrc LteUlp.Pdcp LteUlp.Rlc LteUlp.Mac

variable {β : Type} [DecidableEq β]

/-! ## Passes -/

/-- From `m` to `m'` blocks are released, and no byte is written. -/
structure OnlyFrees (m m' : Store β) : Prop where
  released : Released m m'
  bytes : m'.bytes = m.bytes

section Passes

variable {m m' m'' : Store β} {s t : RlcState β} {cfg : ReportConfig} {a : β}
variable {rnti : UInt16} {lcId : Nat} {raw : Option (Partial (List UInt8))} {g : UInt32}

theorem OnlyFrees.refl (m : Store β) : OnlyFrees m m := ⟨.refl m, rfl⟩

theorem OnlyFrees.trans (h : OnlyFrees m m') (h' : OnlyFrees m' m'') : OnlyFrees m m'' :=
  ⟨h.released.trans h'.released, h'.bytes.trans h.bytes⟩

theorem release_onlyFrees (m : Store β) (b : β) : OnlyFrees m (m.release b) :=
  ⟨release_released m b, release_bytes m b⟩

theorem reportReady_onlyFrees (count : Nat) (s : MacState β) (entries : List UeIdentity) :
    OnlyFrees s.mem (reportReady count s entries).1.mem := by
  -- on the turns of the loop that are left; each unlinks the first context, and may release it
  induction count generalizing s entries with
  | zero => exact .refl s.mem
  | succ count ih =>
      unfold reportReady
      cases s.gReadyRrcUeContextList with
      | nil => exact .refl s.mem
      | cons a rest =>
          have hfree : OnlyFrees s.mem
              ((s.onRrc fun t => { t with gReadyRrcUeContextList := rest }).free a).mem :=
            release_onlyFrees s.mem a
          simp only
          split
          · split
            · exact hfree
            · exact hfree.trans (ih _ _)
          · exact ih (s.onRrc fun t => { t with gReadyRrcUeContextList := rest }) entries

theorem reportContext_onlyFrees (s : MacState β) (entries : List UeIdentity) (a : β) :
    OnlyFrees s.mem (reportContext cfg s entries a).1.mem := by
  unfold reportContext
  simp only
  split
  · exact release_onlyFrees s.mem a
  · exact .refl s.mem

theorem reportContexts_onlyFrees (l : List β) (s : MacState β) (entries : List UeIdentity) :
    OnlyFrees s.mem (reportContexts cfg l s entries).1.mem := by
  induction l generalizing s entries with
  | nil => exact .refl s.mem
  | cons a l ih => exact (reportContext_onlyFrees s entries a).trans (ih _ _)

theorem reportMacContexts_onlyFrees (l : List β) (s : MacState β) (entries : List UeIdentity) :
    OnlyFrees s.mem (reportMacContexts cfg l s entries).1.mem := by
  induction l generalizing s entries with
  | nil => exact .refl s.mem
  | cons a l ih =>
      refine OnlyFrees.trans ?_ (ih _ _)
      unfold reportMacContext
      simp only
      split
      · exact release_onlyFrees s.mem a
      · exact .refl s.mem

/-- The report pass writes to no block. -/
theorem reportPass_onlyFrees (cfg : ReportConfig) (s : MacState β) :
    OnlyFrees s.mem (reportPass cfg s).1.mem := by
  unfold reportPass
  simp only
  refine OnlyFrees.trans ?_ (reportMacContexts_onlyFrees _ _ _)
  exact (reportReady_onlyFrees _ s []).trans (reportContexts_onlyFrees _ _ _)

/-- **The report pass** leaves every channel alone. -/
theorem reportPass_leavesAlone (cfg : ReportConfig) (hs : UlSound s)
    (ht : UlSound { s with toMacState := (reportPass cfg s.toMacState).1 }) (rnti : UInt16)
    (lcId : Nat) :
    LeavesAlone s { s with toMacState := (reportPass cfg s.toMacState).1 } rnti lcId := by
  have hfrees := reportPass_onlyFrees cfg s.toMacState
  refine ⟨fun e he _ => ⟨he, rfl, fun a ha => ⟨?_, ?_⟩⟩, fun e he hch => ⟨he, hch⟩, rfl⟩
  · have hr : RrcSound (reportPass cfg s.toMacState).1.toRrcState
        (RlcState.rlcOwned { s with toMacState := (reportPass cfg s.toMacState).1 } + 0) := by
      rw [add_zero]
      exact ht.rrc
    have hin := raw_inUse (s := { s with toMacState := (reportPass cfg s.toMacState).1 }) hr he
      (mem_rawBlock.mp ha)
    exact ((hfrees.released hs.rrc.nodup).2 a hin).2
  · exact congrFun hfrees.bytes a

/-- The cleanup delivers nothing. -/
theorem executeCleanup_sdus (g : UInt32) (s : RlcState β) (rnti : UInt16) (lcId : Nat) :
    channelSdus (executeCleanup g s) rnti lcId = channelSdus s rnti lcId := by
  unfold channelSdus
  rw [(executeCleanup_silent g s).1]

/-- **A cleanup that leaves the UE** keeps what the channel keeps. -/
theorem executeCleanup_keeps (hs : UlSound s) (hk : ChannelKeeps s rnti lcId raw)
    (hleft : ∀ a ∈ s.gRlcUeContextList, (s.rlcUeContext a).rnti = rnti →
      a ∈ (executeCleanup g s).gRlcUeContextList) :
    ChannelKeeps (executeCleanup g s) rnti lcId raw := by
  have hok : ChannelOk s s 0 rnti lcId (raw, []) := by
    refine ⟨hs.rlc, ?_, hk, ?_⟩
    · rw [add_zero]
      exact hs.rrc
    · simp [bytesCalls]
  exact (hok.cleanup g hleft).keeps

/-- **A cleanup that deletes the context of the UE** leaves it no entity. -/
theorem executeCleanup_forgets (hs : UlSound s) (ha : a ∈ s.gRlcUeContextList)
    (hrnti : (s.rlcUeContext a).rnti = rnti)
    (hgone : a ∉ (executeCleanup g s).gRlcUeContextList) :
    ChannelKeeps (executeCleanup g s) rnti lcId none := by
  refine ⟨fun e he hch => ?_, fun hne => absurd rfl hne⟩
  exfalso
  have hr : RrcSound s.toRrcState (s.rlcOwned + 0) := by
    rw [add_zero]
    exact hs.rrc
  have hshrinks := executeCleanup_shrinks g (contexts_nodup hr)
  obtain ⟨c, hc, hec⟩ := mem_entities.mp he
  have hcs : c ∈ s.gRlcUeContextList := hshrinks.list.subset hc
  obtain ⟨i, -, hi⟩ := mem_contextEntities.mp hec
  rw [hshrinks.array c hc] at hi
  -- the entity is that of a context of the UE, and there is but one
  have hchannel := (channel_of_entity hs.rlc hcs hi).2
  have hsame : channel s e = (rnti, lcId) := by
    rw [← hch, channel, channel, hshrinks.entity]
  have hcr : (s.rlcUeContext c).rnti = rnti := (Prod.mk.inj (hchannel.symm.trans hsame)).1
  have heq : c = a := List.inj_on_of_nodup_map hs.rlc.unique hcs ha (hcr.trans hrnti.symm)
  rw [heq] at hc
  exact hgone hc

end Passes

/-! ## Conversations -/

/-- The PDUs of a channel: those of the conversations that have ended, and those of the
present one. -/
structure Talks where
  past : List (List (List UInt8))
  pdus : List (List UInt8)
  deriving DecidableEq

/-- All conversations. -/
def Talks.conversations (talks : Talks) : List (List (List UInt8)) := talks.past ++ [talks.pdus]

/-- A conversation ends when the RLC context of the UE is deleted. -/
def EndsConversation (s : RlcState β) (rnti : UInt16) : UlEvent → Prop
  | .cleanup g => ∃ a ∈ s.gRlcUeContextList, (s.rlcUeContext a).rnti = rnti ∧
      a ∉ (executeCleanup g s).gRlcUeContextList
  | _ => False

instance (s : RlcState β) (rnti : UInt16) (event : UlEvent) :
    Decidable (EndsConversation s rnti event) := by
  cases event <;> unfold EndsConversation <;> infer_instance

/-- What an event from `s` to `t` adds to the conversations: the PDUs in the calls of
`MacUeDataInd`. -/
def Talks.after (rnti : UInt16) (lcId : Nat) (s : UlState β) (event : UlEvent) (t : UlState β)
    (talks : Talks) : Talks :=
  if EndsConversation s.toRlcState rnti event then ⟨talks.past ++ [talks.pdus], []⟩
  else
    ⟨talks.past, talks.pdus
      ++ (t.macUeDataInds.drop s.macUeDataInds.length).flatMap (pdusFor rnti lcId)⟩

/-- A sequence of events in which no allocation is refused, with the entries that were
reported and the conversations on a channel. -/
inductive TalkRun (env : MacPlatform β) (rnti : UInt16) (lcId : Nat) (s : UlState β) :
    List UlEvent → List UeIdentity → Talks → UlState β → Prop where
  | start : TalkRun env rnti lcId s [] [] ⟨[], []⟩ s
  | step {events : List UlEvent} {event : UlEvent} {reported : List UeIdentity} {talks : Talks}
      {t u : UlState β} :
      TalkRun env rnti lcId s events reported talks t → UlStep env t event u →
        u.mem.failures = t.mem.failures →
          TalkRun env rnti lcId s (events ++ [event]) (reported ++ reportedBy t event)
            (talks.after rnti lcId t event u) u

/-- The PDUs can be read, and make no SDU too long. -/
def Receivable (pdus : List (List UInt8)) : Prop :=
  (∀ pdu ∈ pdus, Readable pdu) ∧ ShortPdus none pdus

section Runs

variable {env : MacPlatform β} {rnti : UInt16} {lcId : Nat} {s₀ s t : UlState β}
variable {events : List UlEvent} {event : UlEvent} {reported : List UeIdentity} {talks : Talks}
variable {pdus pdus' : List (List UInt8)} {x : Collected}

theorem Receivable.left (h : Receivable (pdus ++ pdus')) : Receivable pdus :=
  ⟨fun p hp => h.1 p (List.mem_append_left _ hp), (shortPdus_append.mp h.2).1⟩

/-- What holds in every state of such a run. -/
structure Isolated (env : MacPlatform β) (rnti : UInt16) (lcId : Nat) (s₀ s : UlState β)
    (reported : List UeIdentity) (talks : Talks) : Prop where
  gathered : UlGathered s.toRlcState
  keeps : Receivable talks.pdus →
    ChannelKeeps s.toRlcState rnti lcId (receivePdus none talks.pdus).1
  sdus : (∀ c ∈ talks.conversations, Receivable c) →
    channelSdus s.toRlcState rnti lcId = channelSdus s₀.toRlcState rnti lcId
      ++ talks.conversations.flatMap fun c => (receivePdus none c).2
  known : ∀ c ∈ talks.conversations, Receivable c → ∀ sdu ∈ (receivePdus none c).2, ∀ x,
    Tells env.toPlatform lcId sdu x → Known s reported rnti x

/-- What is known stays known. -/
theorem Known.step (h : Known s reported rnti x) (hs : UlGathered s.toRlcState)
    (hstep : UlStep env s event t) (hf : t.mem.failures = s.mem.failures) :
    Known t (reported ++ reportedBy s event) rnti x := by
  have hb := (step_balanced hstep hf hs (r := rnti) (x := x)).2.tally
  have h1 := (known_iff s reported rnti x).mp h
  refine (known_iff t _ rnti x).mpr ?_
  rw [List.countP_append]
  omega

/-- What is known is known ever after. -/
theorem Known.run {later : List UeIdentity} (h : Known s reported rnti x)
    (hs : UlGathered s.toRlcState) (hrun : ReportRun env s events later t) :
    Known t (reported ++ later) rnti x := by
  obtain ⟨-, hb⟩ := run_balanced hrun hs (r := rnti) (x := x)
  have htally := hb.tally
  have hknown := (known_iff s reported rnti x).mp h
  refine (known_iff t _ rnti x).mpr ?_
  rw [List.countP_append]
  omega

/-- The calls of an event are logged in addition. -/
theorem after_of_talking (h : ¬EndsConversation s.toRlcState rnti event) {inds : List DataInd}
    (hlog : t.macUeDataInds = s.macUeDataInds ++ inds) :
    talks.after rnti lcId s event t
      = ⟨talks.past, talks.pdus ++ inds.flatMap (pdusFor rnti lcId)⟩ := by
  unfold Talks.after
  rw [if_neg h, hlog, List.drop_left]

/-- An event that brings PDUs, or none, to the channel. -/
theorem Isolated.talking (h : Isolated env rnti lcId s₀ s reported talks)
    (hstep : UlStep env s event t) (hf : t.mem.failures = s.mem.failures)
    (hends : ¬EndsConversation s.toRlcState rnti event) {inds : List DataInd}
    (hlog : t.macUeDataInds = s.macUeDataInds ++ inds)
    (hconverses : ∀ raw, ChannelKeeps s.toRlcState rnti lcId raw →
      (∀ pdu ∈ inds.flatMap (pdusFor rnti lcId), Readable pdu) →
        ShortPdus raw (inds.flatMap (pdusFor rnti lcId)) →
          Converses env.toPlatform rnti lcId s.toRlcState t.toRlcState raw
            (inds.flatMap (pdusFor rnti lcId))) :
    Isolated env rnti lcId s₀ t (reported ++ reportedBy s event)
      (talks.after rnti lcId s event t) := by
  rw [after_of_talking hends hlog]
  generalize inds.flatMap (pdusFor rnti lcId) = new at hconverses ⊢
  -- the present conversation goes on
  have hgo : Receivable (talks.pdus ++ new) → Converses env.toPlatform rnti lcId s.toRlcState
      t.toRlcState (receivePdus none talks.pdus).1 new := fun hr =>
    hconverses _ (h.keeps hr.left) (fun p hp => hr.1 p (List.mem_append_right _ hp))
      (shortPdus_append.mp hr.2).2
  have hsplit := receivePdus_append none talks.pdus new
  refine ⟨(step_balanced hstep hf h.gathered (r := rnti) (x := .mTmsi 0)).1, fun hr => ?_,
    fun hall => ?_, fun c hc hr sdu hsdu x htells => ?_⟩
  · show ChannelKeeps _ rnti lcId (receivePdus none (talks.pdus ++ new)).1
    rw [hsplit]
    exact (hgo hr).keeps
  · have hlast : Receivable (talks.pdus ++ new) :=
      hall _ (List.mem_append_right _ (List.mem_singleton_self _))
    have hbefore : ∀ c ∈ talks.conversations, Receivable c := by
      intro c hc
      rcases List.mem_append.mp hc with hc | hc
      · exact hall c (List.mem_append_left _ hc)
      · obtain rfl := List.mem_singleton.mp hc
        exact hlast.left
    rw [(hgo hlast).sdus, h.sdus hbefore]
    unfold Talks.conversations
    rw [List.flatMap_append, List.flatMap_append, List.flatMap_singleton, List.flatMap_singleton,
      hsplit]
    simp only [List.append_assoc]
  · rcases List.mem_append.mp hc with hc | hc
    · exact (h.known c (List.mem_append_left _ hc) hr sdu hsdu x htells).step h.gathered hstep hf
    -- in the present one the SDU was complete before, or is completed now
    · obtain rfl := List.mem_singleton.mp hc
      rw [hsplit] at hsdu
      rcases List.mem_append.mp hsdu with hsdu | hsdu
      · have hold : talks.pdus ∈ talks.conversations :=
          List.mem_append_right _ (List.mem_singleton_self _)
        exact (h.known _ hold hr.left sdu hsdu x htells).step h.gathered hstep hf
      · have htold := (hgo hr).told sdu hsdu x htells
        exact (known_iff t _ rnti x).mpr (htold.trans (Nat.le_add_left _ _))

/-- Nothing new for the channel. -/
theorem Isolated.silent (h : Isolated env rnti lcId s₀ s reported talks)
    (hstep : UlStep env s event t) (hf : t.mem.failures = s.mem.failures)
    (hends : ¬EndsConversation s.toRlcState rnti event)
    (hlog : t.macUeDataInds = s.macUeDataInds)
    (hkeeps : ∀ raw, ChannelKeeps s.toRlcState rnti lcId raw →
      ChannelKeeps t.toRlcState rnti lcId raw)
    (hsdus : channelSdus t.toRlcState rnti lcId = channelSdus s.toRlcState rnti lcId) :
    Isolated env rnti lcId s₀ t (reported ++ reportedBy s event)
      (talks.after rnti lcId s event t) := by
  have hnothing : t.macUeDataInds = s.macUeDataInds ++ [] := by
    rw [hlog, List.append_nil]
  refine h.talking hstep hf hends hnothing
    fun raw hk _ _ => ⟨hkeeps raw hk, ?_, fun sdu hsdu => ?_⟩
  · rw [hsdus]
    exact (List.append_nil _).symm
  · cases hsdu

/-- The conversation ends. -/
theorem Isolated.ended {g : UInt32} (h : Isolated env rnti lcId s₀ s reported talks)
    (hstep : UlStep env s (.cleanup g) t) (hf : t.mem.failures = s.mem.failures)
    (hends : EndsConversation s.toRlcState rnti (.cleanup g)) :
    Isolated env rnti lcId s₀ t (reported ++ reportedBy s (.cleanup g))
      (talks.after rnti lcId s (.cleanup g) t) := by
  have hafter : talks.after rnti lcId s (.cleanup g) t = ⟨talks.past ++ [talks.pdus], []⟩ :=
    if_pos hends
  have hgathered := (step_balanced hstep hf h.gathered (r := rnti) (x := .mTmsi 0)).1
  have hknown := fun c hc hr sdu hsdu x htells =>
    (h.known c hc hr sdu hsdu x htells).step h.gathered hstep hf
  obtain ⟨a, ha, hrnti, hgone⟩ := hends
  obtain rfl := hstep
  rw [hafter]
  refine ⟨hgathered, fun _ => executeCleanup_forgets h.gathered.sound ha hrnti hgone,
    fun hall => ?_, fun c hc hr sdu hsdu x htells => ?_⟩
  · show channelSdus (executeCleanup g s.toRlcState) rnti lcId = _
    rw [executeCleanup_sdus, h.sdus fun c hc => hall c (List.mem_append_left _ hc)]
    have hempty : ((talks.past ++ [talks.pdus]) ++ [[]]).flatMap (fun c => (receivePdus none c).2)
        = (talks.past ++ [talks.pdus]).flatMap fun c => (receivePdus none c).2 := by
      rw [List.flatMap_append, List.flatMap_singleton]
      exact List.append_nil _
    exact (congrArg _ hempty).symm
  · rcases List.mem_append.mp hc with hc | hc
    · exact hknown c hc hr sdu hsdu x htells
    · obtain rfl := List.mem_singleton.mp hc
      cases hsdu

/-- **What one event preserves.** -/
theorem Isolated.step (hlc : lcId ≤ srb2LcId) (h : Isolated env rnti lcId s₀ s reported talks)
    (hstep : UlStep env s event t) (hf : t.mem.failures = s.mem.failures) :
    Isolated env rnti lcId s₀ t (reported ++ reportedBy s event)
      (talks.after rnti lcId s event t) := by
  -- only a cleanup that deletes the context of the UE ends the conversation
  cases event with
  | phyDataInd pBuffer length =>
      have hind := hstep
      obtain ⟨fuel, hind⟩ := hind
      have hhandles : Handles env rnti lcId s t 0 0 := macProcessPhyDataInd_handles hlc hind
      obtain ⟨inds, hlog, hserves⟩ := hhandles
      exact h.talking hstep hf (fun hno => hno) hlog
        (hserves.served hf 0 h.gathered.rlc h.gathered.inHand).converses
  | cleanup g =>
      by_cases hends : EndsConversation s.toRlcState rnti (.cleanup g)
      · exact h.ended hstep hf hends
      · have hleft : ∀ a ∈ s.gRlcUeContextList, (s.rlcUeContext a).rnti = rnti →
            a ∈ (executeCleanup g s.toRlcState).gRlcUeContextList := by
          intro a ha hrnti
          by_contra hgone
          exact hends ⟨a, ha, hrnti, hgone⟩
        have hkeeps : ∀ raw, ChannelKeeps s.toRlcState rnti lcId raw →
            ChannelKeeps (executeCleanup g s.toRlcState) rnti lcId raw := fun raw hk =>
          executeCleanup_keeps h.gathered.sound hk hleft
        have ht : t = s.onRlc (executeCleanup g) := hstep
        refine h.silent hstep hf hends ?_ ?_ ?_
        · rw [ht]
          rfl
        · rw [ht]
          exact hkeeps
        · rw [ht]
          exact executeCleanup_sdus g s.toRlcState rnti lcId
  | report cfg =>
      have hsound := (step_balanced hstep hf h.gathered (r := rnti) (x := .mTmsi 0)).1.sound
      have ht : t = s.onRlc fun u => { u with toMacState := (reportPass cfg u.toMacState).1 } :=
        hstep
      rw [ht] at hsound
      have halone := reportPass_leavesAlone cfg h.gathered.sound hsound rnti lcId
      refine h.silent hstep hf (fun hno => hno) ?_ ?_ ?_
      · rw [ht]
        rfl
      · rw [ht]
        exact fun raw hk => halone.keeps hk
      · rw [ht]
        exact halone.sdus

/-- Before the first event the channel keeps nothing. -/
theorem initial_isolated (env : MacPlatform β) (hs : UlInitial s₀) (rnti : UInt16) (lcId : Nat) :
    Isolated env rnti lcId s₀ s₀ [] ⟨[], []⟩ := by
  refine ⟨initial_gathered hs, fun _ => ⟨fun e he _ => ?_, fun hne => absurd rfl hne⟩,
    fun _ => ?_, fun c hc _ sdu hsdu => ?_⟩
  · obtain ⟨a, ha, -⟩ := mem_entities.mp he
    rw [hs.gRlcUeContextList] at ha
    cases ha
  · exact (List.append_nil _).symm
  · obtain rfl := List.mem_singleton.mp hc
    cases hsdu

/-- **What a run preserves.** -/
theorem talkRun_isolated (hlc : lcId ≤ srb2LcId) (hs : UlInitial s₀)
    (h : TalkRun env rnti lcId s₀ events reported talks s) :
    Isolated env rnti lcId s₀ s reported talks := by
  induction h with
  | start => exact initial_isolated env hs rnti lcId
  | step _ hstep hf ih => exact ih.step hlc hstep hf

end Runs

/-! ## What is received -/

theorem receivable_encode {g : Segmentation} {k : Nat} (hk : k ≤ g.pdus.length)
    (hsizes : ∀ sdu ∈ g.sdus, ∀ i < g.pdus.length, sdu.length + (g.encode i).length ≤ 65000)
    (hlt : ∀ i < g.pdus.length, (g.encode i).length < 2 ^ 16) :
    Receivable ((List.range k).map g.encode) := by
  refine ⟨fun p hp => ?_, shortPdus_encode hk hsizes hlt⟩
  obtain ⟨i, hi, rfl⟩ := List.mem_map.mp hp
  have hik : i < g.pdus.length := (List.mem_range.mp hi).trans_le hk
  exact (readable_encode hik (hlt i hik)).1

theorem mem_of_arrived {α : Type} {ms : List (List α)} {n : Nat} {x : List α}
    (h : x ∈ (arrived ms n).1) : x ∈ ms := by
  induction ms generalizing n with
  | nil => cases h
  | cons m ms ih =>
      rw [arrived] at h
      split at h
      · rcases List.mem_cons.mp h with rfl | h
        · exact List.mem_cons_self
        · exact List.mem_cons_of_mem m (ih h)
      · cases h

/-- The state, the entries that were reported and the conversations after some events; `none`
too where an allocation is refused. -/
def talkAfter (env : MacPlatform β) (fuel : Nat) (rnti : UInt16) (lcId : Nat) :
    UlState β → Talks → List UlEvent → Option (UlState β × List UeIdentity × Talks)
  | s, talks, [] => some (s, [], talks)
  | s, talks, event :: events =>
      (ulNext env fuel s event).bind fun t =>
        if t.mem.failures = s.mem.failures then
          (talkAfter env fuel rnti lcId t (talks.after rnti lcId s event t) events).map
            fun r => (r.1, reportedBy s event ++ r.2.1, r.2.2)
        else none

theorem talkAfter_run {env : MacPlatform β} {fuel : Nat} {rnti : UInt16} {lcId : Nat}
    {s t u : UlState β} {pre events : List UlEvent} {earlier reported : List UeIdentity}
    {talks talks' : Talks} (hrun : TalkRun env rnti lcId s pre earlier talks t)
    (h : talkAfter env fuel rnti lcId t talks events = some (u, reported, talks')) :
    TalkRun env rnti lcId s (pre ++ events) (earlier ++ reported) talks' u := by
  induction events generalizing pre earlier t talks reported with
  | nil =>
      obtain ⟨rfl, hrest⟩ := Prod.mk.inj (Option.some.inj h)
      obtain ⟨rfl, rfl⟩ := Prod.mk.inj hrest
      rwa [List.append_nil, List.append_nil]
  | cons event events ih =>
      obtain ⟨v, hv, hrest⟩ := Option.bind_eq_some_iff.mp h
      split at hrest
      · rename_i hf
        obtain ⟨r, hr, heq⟩ := Option.map_eq_some_iff.mp hrest
        obtain ⟨rfl, hend⟩ := Prod.mk.inj heq
        obtain ⟨rfl, rfl⟩ := Prod.mk.inj hend
        rw [List.append_cons, ← List.append_assoc]
        exact ih (hrun.step (ulNext_step hv) hf) hr
      · cases hrest

/-- An extended service request of the S-TMSI `0xc0ffee01`. -/
def serviceRequest : MobilityMessage := .extendedServiceRequest 0x10 (.tmsi 0xc0ffee01) []

def serviceNas : NasPayload := ⟨serviceRequest.encode .plain, by decide, by decide⟩

/-- The SDU with it, in PDUs of at most 5 bytes. -/
def servicePdus : Segmentation where
  pieces := [[[0, 72, 1, 32, 233], [130, 0, 190, 152, 31], [253, 192, 32]]]
  pdus := [[⟨true, false, [0, 72, 1, 32, 233]⟩], [⟨false, false, [130, 0, 190, 152, 31]⟩],
    [⟨false, true, [253, 192, 32]⟩]]
  firstSn := 0
  poll _ := false
  pieces_ne := by decide
  carried := by decide
  fields_ne := by decide
  completes := by decide
  lengths := by decide
  count := by decide

/-- An indication with a PDU of MAC that holds a PDU for the channel of the RNTI 61. -/
def indicationFor (lcId : UInt8) (pdu : List UInt8) : UlEvent :=
  .phyDataInd (some (indicationOf (lcId :: pdu))) 72

/-- A status PDU. -/
def statusPdu : List UInt8 := [0x00, 0x04]

/-- The first PDU is sent before and after a cleanup that deletes the context of the UE. PDUs
on SRB 2 and status PDUs come in between. -/
def serviceEvents : List UlEvent :=
  [indicationFor 1 (servicePdus.encode 0), indicationFor 1 statusPdu, .cleanup 0,
    indicationFor 1 (servicePdus.encode 0), indicationFor 2 (servicePdus.encode 1),
    indicationFor 1 (servicePdus.encode 1), indicationFor 2 (servicePdus.encode 0),
    indicationFor 1 statusPdu, indicationFor 1 (servicePdus.encode 2)]

def serviceTalk : Option (UlState Nat × List UeIdentity × Talks) :=
  talkAfter freshMacPlatform 8 61 1 freshUlState ⟨[], []⟩ serviceEvents

/-- There are two conversations on SRB 1. -/
def serviceTalks : Talks where
  past := [[servicePdus.encode 0, statusPdu]]
  pdus := [servicePdus.encode 0, servicePdus.encode 1, statusPdu, servicePdus.encode 2]

set_option maxRecDepth 20000 in
theorem serviceTalk_talks : serviceTalk.map (fun r => r.2.2) = some serviceTalks := by
  decide +kernel

theorem service_readable {pdu : List UInt8}
    (h : pdu ∈ statusPdu :: (List.range 3).map servicePdus.encode) : Readable pdu := by
  rcases List.mem_cons.mp h with rfl | h
  · exact readable_status (by decide) (by decide)
  · have hlt : ∀ i < 3, (servicePdus.encode i).length < 2 ^ 16 := by decide +kernel
    obtain ⟨i, hi, rfl⟩ := List.mem_map.mp h
    exact (readable_encode (List.mem_range.mp hi) (hlt i (List.mem_range.mp hi))).1

theorem serviceTalks_receivable : ∀ c ∈ serviceTalks.conversations, Receivable c := by
  intro c hc
  have hpdus : ∀ c ∈ serviceTalks.conversations,
      c ⊆ statusPdu :: (List.range 3).map servicePdus.encode := by decide +kernel
  have hshort : ∀ c ∈ serviceTalks.conversations, ShortPdus none c := by decide +kernel
  exact ⟨fun pdu hpdu => service_readable (hpdus c hc hpdu), hshort c hc⟩

/-- The PDUs with the service request, and one on SRB 2 in between. -/
def heardEvents : List UlEvent :=
  [indicationFor 1 (servicePdus.encode 0), indicationFor 2 (servicePdus.encode 1),
    indicationFor 1 (servicePdus.encode 1), indicationFor 1 (servicePdus.encode 2)]

def heardTalk : Option (UlState Nat × List UeIdentity × Talks) :=
  talkAfter freshMacPlatform 8 61 1 freshUlState ⟨[], []⟩ heardEvents

theorem heardTalk_talks :
    heardTalk.map (fun r => r.2.2) = some ⟨[], (List.range 3).map servicePdus.encode⟩ := by
  decide +kernel

/-- What the channel sends next, a cleanup that deletes its context, and a report. -/
def laterEvents : List UlEvent :=
  [indicationFor 1 (servicePdus.encode 1), .cleanup 0, reportIdle]

/-- What comes after that. -/
def heardLater : Option (UlState Nat × List UeIdentity) :=
  heardTalk.bind fun r => ulReports freshMacPlatform 8 r.1 laterEvents

set_option maxRecDepth 20000 in
theorem heardLater_isSome : heardLater.isSome := by decide +kernel

end LteUlp.Worker
