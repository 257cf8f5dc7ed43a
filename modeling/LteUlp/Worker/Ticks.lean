import LteUlp.Event.Model
import LteUlp.Worker.PhyQueue

set_option autoImplicit false
set_option linter.unusedSectionVars false

/-! # The worker and its ticks

`UlpOneMilliSecondIsr` calls `NotifyUlpWorker`, which sends `gUlpHandlerEvent`. The worker
waits for this event in `UlpWorkerEntryFunc`, handles the indications that have been queued,
then the data for OAM, and waits again. An indication that comes after the worker has looked
at the list stays there until a later tick. Here the queue, the event and the loop are put
together: an indication that is in the list at a tick reaches MAC, whatever the order in
which the threads take their steps (`notifyUlpWorker_handles`), as long as each operation on
the list is one step.
-/

namespace LteUlp.Worker

open BlockStore Intrusive PhyList

/-- Where the worker is in the loop of `UlpWorkerEntryFunc`. -/
inductive WorkerLoop where
  | eventWait
  | ulpRecvAndHandlePhyData
  | ulpRecvAndHandleOamData
  deriving DecidableEq

/-- The worker, its queue and its event. `T` are the threads. -/
structure Ulp (T β ρ : Type) where
  path : PhyPath β ρ
  gUlpHandlerEvent : Monitor.State T Bool Unit
  loop : WorkerLoop
  /-- What has happened on the path. -/
  history : PhyHistory β
  /-- The calls that were due when the flag of the event was last set. -/
  ticked : List MacCall

/-- Whether a step goes on with what its thread has begun. The worker never ends. -/
inductive UlpKind where
  | begins
  | goesOn
  deriving DecidableEq

/-- The kind of a step of `EventSend` in a thread other than the worker. -/
def senderKind : Monitor.Label Unit → UlpKind
  | .quiet | .updated _ | .taken => .goesOn
  | .call | .spurious | .failed | .signalFailed => .begins

/-- The kind of a step of the worker in `EventWait`. -/
def waiterKind : Monitor.Label Unit → UlpKind
  | .quiet | .updated _ | .taken | .call => .goesOn
  | .spurious | .failed | .signalFailed => .begins

variable {T β ρ : Type} [DecidableEq T] [DecidableEq β] (P : Policy β) (nodeSize : Nat)

/-- The worker takes a step in `UlpRecvAndHandlePhyData`. -/
def Ulp.phyStep (s : Ulp T β ρ) : Ulp T β ρ :=
  { s with
    path := ulpRecvAndHandlePhyData s.path
    loop := if s.path.worker = .returning then .ulpRecvAndHandleOamData
      else .ulpRecvAndHandlePhyData
    history :=
      { s.history with seen := if s.path.worker.looks then s.history.direct else s.history.seen } }

/-- An indication arrives. -/
def Ulp.arrival (s : Ulp T β ρ) (pBuffer : Option ρ) (length : UInt16) : Ulp T β ρ :=
  { s with
    path := phyUlDataInd P nodeSize s.path pBuffer length
    history :=
      { s.history with
        direct := s.history.direct ++ macCalls (directEvents P nodeSize s.path pBuffer length)
        due := s.history.due ++ dueEvents P nodeSize s.path pBuffer length } }

/-- Another thread takes a step in `NotifyUlpWorker`. -/
def Ulp.notify (s : Ulp T β ρ) (l : Monitor.Label Unit) (ev : Monitor.State T Bool Unit) :
    Ulp T β ρ :=
  { s with
    gUlpHandlerEvent := ev
    ticked := if l = .updated () then s.history.direct else s.ticked }

/-- The worker `w` takes a step in `EventWait`; when it returns, also with an error, the
indications are handled. -/
def Ulp.wait (s : Ulp T β ρ) (w : T) (ev : Monitor.State T Bool Unit) :
    Ulp T β ρ :=
  { s with
    gUlpHandlerEvent := ev
    loop := if ev.place w = .outside then .ulpRecvAndHandlePhyData else .eventWait }

/-- **A step.** `w` is the worker; the other threads do not wait for the event. It is assumed
that two operations on the list do not overlap, for which the code has no lock unless
`INTEGRATE_PHY` is defined, and that no signal and no allocation of `PhyUlDataInd` fails. -/
inductive UlpStep (w : T) (s : Ulp T β ρ) : UlpKind → Ulp T β ρ → Prop where
  | arrival (pBuffer : Option ρ) (length : UInt16) :
      (phyUlDataInd P nodeSize s.path pBuffer length).mem.failures = s.path.mem.failures →
      UlpStep w s .begins (s.arrival P nodeSize pBuffer length)
  | other (mem : Store β) (callerBuffer : ρ → Nat → UInt8) :
      (∀ b ∈ s.history.held s.path, b ∈ mem.inUse ∧ mem.bytes b = s.path.mem.bytes b) →
      UlpStep w s .begins { s with path := { s.path with mem := mem, callerBuffer := callerBuffer } }
  | notify {t : T} {l : Monitor.Label Unit} {ev : Monitor.State T Bool Unit} : t ≠ w →
      Monitor.Step event s.gUlpHandlerEvent t l ev → ev.place t ≠ .waiting →
      l ≠ .signalFailed → UlpStep w s (senderKind l) (s.notify l ev)
  | wait {l : Monitor.Label Unit} {ev : Monitor.State T Bool Unit} : s.loop = .eventWait →
      Monitor.Step event s.gUlpHandlerEvent w l ev → (∀ u, ev.place w ≠ .locking u) →
      UlpStep w s (waiterKind l) (s.wait w ev)
  | phyData : s.loop = .ulpRecvAndHandlePhyData → UlpStep w s .goesOn s.phyStep
  | oamData : s.loop = .ulpRecvAndHandleOamData →
      UlpStep w s .goesOn { s with loop := .eventWait }

/-- The runs from a state, with the kinds of the steps. -/
inductive UlpRun (w : T) (s₀ : Ulp T β ρ) : List UlpKind → Ulp T β ρ → Prop where
  | start : UlpRun w s₀ [] s₀
  | step {kinds : List UlpKind} {s s' : Ulp T β ρ} {kind : UlpKind} :
      UlpRun w s₀ kinds s → UlpStep P nodeSize w s kind s' → UlpRun w s₀ (kinds ++ [kind]) s'

/-- No thread can go on. -/
def UlpSettled (w : T) (s : Ulp T β ρ) : Prop := ∀ s', ¬ UlpStep P nodeSize w s .goesOn s'

/-- After `InitUlpWorker`: nothing has been queued, and nobody has touched the event. -/
inductive UlpStarted : Ulp T β ρ → Prop where
  | init {path : PhyPath β ρ} (hw : path.worker = .outside) (he : path.events = []) :
      UlpStarted ⟨initUlpWorker path true, ⟨false, none, fun _ => .outside⟩, .eventWait,
        ⟨[], [], []⟩, []⟩

/-! ## The parts -/

/-- What a thread other than the worker does with the event. -/
def Sending : Monitor.Place Unit → Prop
  | .outside | .locking _ | .updating _ | .signalling | .leaving => True
  | .waiting | .testing | .asleep | .woken | .taking => False

/-- What the worker does with it. -/
def InWait : Monitor.Place Unit → Prop
  | .outside | .waiting | .testing | .asleep | .woken | .taking | .leaving => True
  | .locking _ | .updating _ | .signalling => False

/-- The invariant of the event, and who does what with it. -/
structure EventInv (w : T) (s : Ulp T β ρ) : Prop where
  event : Monitor.Invariant LteUlp.event s.gUlpHandlerEvent
  senders : ∀ t, t ≠ w → Sending (s.gUlpHandlerEvent.place t)
  worker : InWait (s.gUlpHandlerEvent.place w)
  away : s.loop ≠ .eventWait → s.gUlpHandlerEvent.place w = .outside

/-- The worker is on its way to look at the list. -/
def WillLook (w : T) (s : Ulp T β ρ) : Prop :=
  match s.loop with
  | .eventWait => s.gUlpHandlerEvent.place w = .leaving
  | .ulpRecvAndHandlePhyData => s.path.worker ≠ .returning
  | .ulpRecvAndHandleOamData => False

/-- The indications of the last tick have been handled, or the worker will handle them. -/
structure TickInv (w : T) (s : Ulp T β ρ) : Prop where
  away : s.loop ≠ .ulpRecvAndHandlePhyData → s.path.worker = .outside
  ticked : s.ticked <+: s.history.direct
  handled : s.gUlpHandlerEvent.value = true ∨ WillLook w s ∨
    s.ticked <+: macCalls s.path.events

/-- The three invariants. -/
structure UlpInv (w : T) (s : Ulp T β ρ) : Prop where
  reached : PhyReached P nodeSize s.path s.history
  event : EventInv w s
  tick : TickInv w s

section Invariant

variable {P nodeSize} {w t : T} {s s' : Ulp T β ρ} {kind : UlpKind} {l : Monitor.Label Unit}
  {ev : Monitor.State T Bool Unit}

/-- A step of a thread that sends leaves it sending, if it does not begin to wait. -/
theorem sending_of_step (h : Monitor.Step event s.gUlpHandlerEvent t l ev)
    (hs : Sending (s.gUlpHandlerEvent.place t)) (hl : ev.place t ≠ .waiting) :
    Sending (ev.place t) := by
  cases h with
  | callWait => simp at hl
  | signalFails => simp [event, Sending]
  | callUpdate | lockUpdate | update | signal | leave | lockUpdateFails =>
      simp [Monitor.State.enter, Monitor.State.exit, Sending]
  | lockWait hp | pass hp | sleep hp | wakeUp hp | relock hp | take hp | lockWaitFails hp
    | sleepFails hp =>
      rw [hp] at hs
      exact hs.elim

theorem waiting_of_step (h : Monitor.Step event s.gUlpHandlerEvent t l ev)
    (hs : InWait (s.gUlpHandlerEvent.place t)) (hl : ∀ u, ev.place t ≠ .locking u) :
    InWait (ev.place t) := by
  cases h with
  | callUpdate u => exact absurd (by simp) (hl u)
  | callWait | lockWait | pass | sleep | wakeUp | relock | take | leave | lockWaitFails
    | sleepFails => simp [Monitor.State.enter, Monitor.State.exit, InWait]
  | lockUpdate hp | update hp | signal _ hp | signalFails hp | lockUpdateFails hp =>
      rw [hp] at hs
      exact hs.elim

/-- What a step of one thread leaves of the places of another one. -/
theorem sending_of_others {u : T} (h : Monitor.Step event s.gUlpHandlerEvent t l ev)
    (hu : u ≠ t) (hs : Sending (s.gUlpHandlerEvent.place u)) :
    ev.place u = s.gUlpHandlerEvent.place u := by
  rcases h.others hu with heq | ⟨hasleep, -⟩
  · exact heq
  · rw [hasleep] at hs
    exact hs.elim

theorem waiting_of_others (h : Monitor.Step event s.gUlpHandlerEvent t l ev) (hw : w ≠ t)
    (hs : InWait (s.gUlpHandlerEvent.place w)) : InWait (ev.place w) := by
  rcases h.others hw with heq | ⟨-, hwoken⟩
  · rwa [heq]
  · rw [hwoken]
    trivial

theorem UlpStep.eventInv (h : UlpStep P nodeSize w s kind s') (hs : EventInv w s) :
    EventInv w s' := by
  cases h with
  | arrival | other => exact ⟨hs.event, hs.senders, hs.worker, hs.away⟩
  | @notify t l ev ht hstep hl hsig =>
      refine ⟨hstep.invariant hsig hs.event, fun u hu => ?_, ?_, fun hloop => ?_⟩
      · by_cases hut : u = t
        · exact hut ▸ sending_of_step hstep (hs.senders t ht) hl
        · show Sending (ev.place u)
          rw [sending_of_others hstep hut (hs.senders u hu)]
          exact hs.senders u hu
      · exact waiting_of_others hstep (Ne.symm ht) hs.worker
      · have hplace := hs.away hloop
        rcases hstep.others (Ne.symm ht) with heq | ⟨hasleep, -⟩
        · exact heq.trans hplace
        · rw [hplace] at hasleep
          cases hasleep
  | @wait l ev hloop hstep hl =>
      have hsig : l ≠ .signalFailed := by
        rintro rfl
        obtain ⟨hp, -⟩ := hstep.signalling_of_signalFailed
        have := hs.worker
        rw [hp] at this
        exact this
      refine ⟨hstep.invariant hsig hs.event, fun u hu => ?_, waiting_of_step hstep hs.worker hl,
        fun hloop' => ?_⟩
      · show Sending (ev.place u)
        rw [sending_of_others hstep hu (hs.senders u hu)]
        exact hs.senders u hu
      · by_contra hplace
        exact hloop' (if_neg hplace)
  | phyData hloop =>
      exact ⟨hs.event, hs.senders, hs.worker, fun _ => hs.away (by simp [hloop])⟩
  | oamData => exact ⟨hs.event, hs.senders, hs.worker, fun hloop => absurd rfl hloop⟩

/-- The path takes the steps that it takes alone. -/
theorem UlpStep.reached (h : UlpStep P nodeSize w s kind s')
    (hs : PhyReached P nodeSize s.path s.history) :
    PhyReached P nodeSize s'.path s'.history := by
  cases h with
  | arrival pBuffer length hok => exact hs.arrival pBuffer length hok
  | other mem callerBuffer hkeep => exact hs.other mem callerBuffer hkeep
  | notify | wait | oamData => exact hs
  | phyData => exact hs.worker

/-- An arrival makes no call and leaves the worker where it is. -/
theorem phyUlDataInd_frame {s : PhyPath β ρ} (pBuffer : Option ρ) (length : UInt16)
    (hinit : s.gUlpWorkerInitilized = true)
    (hok : (phyUlDataInd P nodeSize s pBuffer length).mem.failures = s.mem.failures) :
    (phyUlDataInd P nodeSize s pBuffer length).events = s.events ∧
      (phyUlDataInd P nodeSize s pBuffer length).worker = s.worker := by
  cases pBuffer with
  | none => exact ⟨rfl, rfl⟩
  | some p =>
      obtain ⟨node, buffer, hq⟩ := phyUlDataInd_queues P nodeSize hinit hok
      exact ⟨hq.events, hq.worker⟩

/-- What the list of the indications holds. -/
def PhyPath.waiting (s : PhyPath β ρ) : Nat := listCount s.lists (some gRecvdPhyDataList)

/-- The steps of the worker in `UlpRecvAndHandlePhyData`. -/
inductive PhyMove (s s' : PhyPath β ρ) : Prop where
  | look : s.worker = .outside → s'.worker = .popping → s'.events = s.events →
      s'.waiting = s.waiting → PhyMove s s'
  | empty : s.worker.looks = true → s'.worker = .returning → s'.events = s.events →
      s.waiting = 0 → s'.waiting = 0 → PhyMove s s'
  | pop (a : β) : s.worker = .popping → s'.worker = .popped a → s'.events = s.events →
      s.waiting = s'.waiting + 1 → PhyMove s s'
  | call (a : β) (e : PhyEvent β) : s.worker = .popped a → s'.worker = .called a →
      s'.events = s.events ++ [e] → s'.waiting = s.waiting → PhyMove s s'
  | free (a : β) (e : PhyEvent β) : s.worker = .called a → s'.worker = .freed a →
      s'.events = s.events ++ [e] → s'.waiting = s.waiting → PhyMove s s'
  | freeNode (a : β) (e : PhyEvent β) : s.worker = .freed a → s'.worker = .popping →
      s'.events = s.events ++ [e] → s'.waiting = s.waiting → PhyMove s s'
  | leave : s.worker = .returning → s'.worker = .outside → s'.events = s.events →
      s'.waiting = s.waiting → PhyMove s s'

theorem PathInv.waiting {s : PhyPath β ρ} {h : PhyHistory β} {xs : List β}
    (hi : PathInv s h xs) : s.waiting = xs.length :=
  (hi.repr.linked gRecvdPhyDataList xs rfl).count

theorem phyMove {s : PhyPath β ρ} {h : PhyHistory β} {xs : List β} (hi : PathInv s h xs) :
    PhyMove s (ulpRecvAndHandlePhyData s) := by
  have hcount := hi.waiting
  unfold ulpRecvAndHandlePhyData
  cases hs : s.worker with
  | outside =>
      by_cases hc : 0 < listCount s.lists (some gRecvdPhyDataList)
      · simp only [if_pos hc]
        exact .look hs rfl rfl rfl
      · have hz : s.waiting = 0 := Nat.eq_zero_of_not_pos hc
        simp only [if_neg hc]
        exact .empty (by rw [hs]; rfl) rfl rfl hz hz
  | popping =>
      cases xs with
      | nil =>
          simp only [hi.repr.popNode_nil (i := gRecvdPhyDataList) rfl]
          exact .empty (by rw [hs]; rfl) rfl rfl hcount hcount
      | cons a xs =>
          obtain ⟨hout, hrepr, -⟩ := hi.repr.popNode_cons (i := gRecvdPhyDataList) rfl
          rw [update_phyList] at hrepr
          cases hp : listPopNode s.lists (some gRecvdPhyDataList) with
          | mk l o =>
              rw [hp] at hout hrepr
              obtain rfl : o = some a := hout
              have hleft : listCount l (some gRecvdPhyDataList) = xs.length :=
                (hrepr.linked gRecvdPhyDataList xs rfl).count
              exact .pop a hs rfl rfl (hcount.trans (congrArg (· + 1) hleft.symm))
  | popped a => exact .call a _ hs rfl rfl rfl
  | called a => exact .free a _ hs rfl rfl rfl
  | freed a => exact .freeNode a _ hs rfl rfl rfl
  | returning => exact .leave hs rfl rfl rfl

/-- The worker returns when nothing is left to do. -/
theorem PhyMove.calls_eq {s s' : PhyPath β ρ} {h : PhyHistory β} {xs : List β}
    (hm : PhyMove s s') (hi : PathInv s h xs) (hret : s'.worker = .returning) :
    macCalls s'.events = h.direct := by
  cases hm with
  | empty hlooks _ he hzero _ =>
      obtain rfl : xs = [] := List.eq_nil_of_length_eq_zero (hi.waiting.symm.trans hzero)
      rw [he]
      refine hi.calls_eq ?_
      rw [PhyPath.todo, PhyPath.current]
      cases hw : s.worker <;> rw [hw] at hlooks <;> first | rfl | cases hlooks
  | look _ hw | pop _ _ hw | call _ _ _ hw | free _ _ _ hw | freeNode _ _ _ hw | leave _ hw =>
      rw [hw] at hret
      cases hret

/-- **A step keeps the invariant of the ticks.** -/
theorem UlpStep.tickInv (h : UlpStep P nodeSize w s kind s')
    (hr : PhyReached P nodeSize s.path s.history) (he : EventInv w s) (hs : TickInv w s) :
    TickInv w s' := by
  obtain ⟨xs, hi⟩ := hr.inv
  cases h with
  | arrival pBuffer length hok =>
      obtain ⟨hev, hworker⟩ := phyUlDataInd_frame pBuffer length hi.initialised hok
      refine ⟨fun hloop => hworker.trans (hs.away hloop),
        hs.ticked.trans (List.prefix_append _ _), ?_⟩
      have hlook : WillLook w (s.arrival P nodeSize pBuffer length) ↔ WillLook w s := by
        unfold WillLook
        rw [show (s.arrival P nodeSize pBuffer length).path.worker = s.path.worker from hworker]
        exact Iff.rfl
      rw [hlook, show (s.arrival P nodeSize pBuffer length).path.events = s.path.events from hev]
      exact hs.handled
  | other => exact ⟨hs.away, hs.ticked, hs.handled⟩
  | @notify t l ev ht hstep hl hsig =>
      have hlook : WillLook w s → WillLook w (s.notify l ev) := by
        unfold WillLook
        rw [show (s.notify l ev).loop = s.loop from rfl]
        cases s.loop with
        | eventWait =>
            intro hplace
            rcases hstep.others (Ne.symm ht) with heq | ⟨hasleep, -⟩
            · exact heq.trans hplace
            · rw [hplace] at hasleep
              cases hasleep
        | ulpRecvAndHandlePhyData | ulpRecvAndHandleOamData => exact id
      have hsend := he.senders t ht
      cases hstep with
      | update hp =>
          exact ⟨hs.away, List.prefix_rfl, Or.inl rfl⟩
      | take hp | pass hp | sleep hp | wakeUp hp | relock hp | lockWait hp | lockWaitFails hp
        | sleepFails hp =>
          rw [hp] at hsend
          exact hsend.elim
      | signalFails => exact absurd rfl hsig
      | callUpdate | lockUpdate | signal | leave | callWait | lockUpdateFails =>
          refine ⟨hs.away, hs.ticked, ?_⟩
          rcases hs.handled with hset | hl | hdone
          · exact Or.inl hset
          · exact Or.inr (Or.inl (hlook hl))
          · exact Or.inr (Or.inr hdone)
  | @wait l ev hloop hstep hl =>
      have haway := hs.away (by simp [hloop])
      have hrecv := he.worker
      -- the worker keeps the flag, or it comes out of `EventWait`
      have hkeep : s.gUlpHandlerEvent.place w ≠ .leaving →
          ev.value = s.gUlpHandlerEvent.value → TickInv w (s.wait w ev) := by
        intro hplace hvalue
        refine ⟨fun _ => haway, hs.ticked, ?_⟩
        rcases hs.handled with hset | hl | hdone
        · exact Or.inl (hvalue.trans hset)
        · rw [WillLook, hloop] at hl
          exact absurd hl hplace
        · exact Or.inr (Or.inr hdone)
      cases hstep with
      | callUpdate u => exact absurd (by simp) (hl u)
      | lockUpdate hp | update hp | signal _ hp | signalFails hp | lockUpdateFails hp =>
          rw [hp] at hrecv
          exact hrecv.elim
      | take hp =>
          refine ⟨fun _ => haway, hs.ticked, Or.inr (Or.inl ?_)⟩
          simp [WillLook, Ulp.wait]
      | leave hp =>
          refine ⟨fun _ => haway, hs.ticked, Or.inr (Or.inl ?_)⟩
          simp [WillLook, Ulp.wait, Monitor.State.exit, haway]
      | callWait hp | lockWait hp | pass hp | sleep hp | wakeUp hp | relock hp
        | lockWaitFails hp | sleepFails hp =>
          exact hkeep (by rw [hp]; simp) rfl
  | phyData hloop =>
      have hmove := phyMove hi
      by_cases hw : s.path.worker = .returning
      · have hnot : ¬ WillLook w s := by
          rw [WillLook, hloop]
          exact fun h => h hw
        obtain ⟨hworker, hev⟩ : (ulpRecvAndHandlePhyData s.path).worker = .outside ∧
            (ulpRecvAndHandlePhyData s.path).events = s.path.events := by
          rw [ulpRecvAndHandlePhyData, hw]
          exact ⟨rfl, rfl⟩
        refine ⟨fun _ => hworker, hs.ticked, ?_⟩
        rcases hs.handled with hset | hl | hdone
        · exact Or.inl hset
        · exact absurd hl hnot
        · refine Or.inr (Or.inr ?_)
          show s.ticked <+: macCalls (ulpRecvAndHandlePhyData s.path).events
          rwa [hev]
      · have hloop' : s.phyStep.loop = .ulpRecvAndHandlePhyData := if_neg hw
        refine ⟨fun h => absurd hloop' h, hs.ticked, ?_⟩
        by_cases hret : (ulpRecvAndHandlePhyData s.path).worker = .returning
        · -- the worker has found the list empty
          refine Or.inr (Or.inr ?_)
          show s.ticked <+: macCalls (ulpRecvAndHandlePhyData s.path).events
          rw [hmove.calls_eq hi hret]
          exact hs.ticked
        · refine Or.inr (Or.inl ?_)
          rw [WillLook, hloop']
          exact hret
  | oamData hloop =>
      have haway := hs.away (by simp [hloop])
      refine ⟨fun _ => haway, hs.ticked, ?_⟩
      rcases hs.handled with hset | hl | hdone
      · exact Or.inl hset
      · rw [WillLook, hloop] at hl
        exact hl.elim
      · exact Or.inr (Or.inr hdone)

theorem UlpStep.inv (h : UlpStep P nodeSize w s kind s') (hs : UlpInv P nodeSize w s) :
    UlpInv P nodeSize w s' :=
  ⟨h.reached hs.reached, h.eventInv hs.event, h.tickInv hs.reached hs.event hs.tick⟩

theorem UlpRun.inv {s₀ : Ulp T β ρ} {kinds : List UlpKind} (h : UlpRun P nodeSize w s₀ kinds s)
    (hs : UlpInv P nodeSize w s₀) : UlpInv P nodeSize w s := by
  induction h with
  | start => exact hs
  | step _ hstep ih => exact hstep.inv ih

/-- The calls that were due at the last tick only become more. -/
theorem UlpRun.ticked {s₀ : Ulp T β ρ} {kinds : List UlpKind}
    (h : UlpRun P nodeSize w s₀ kinds s) (hs : UlpInv P nodeSize w s₀) :
    s₀.ticked <+: s.ticked := by
  induction h with
  | start => exact List.prefix_rfl
  | step hrun hstep ih =>
      refine ih.trans ?_
      cases hstep with
      | arrival | other | wait | phyData | oamData => exact List.prefix_rfl
      | notify =>
          unfold Ulp.notify
          split
          · exact (hrun.inv hs).tick.ticked
          · exact List.prefix_rfl

end Invariant

theorem UlpStarted.inv {s : Ulp T β ρ} (h : UlpStarted s) (w : T) : UlpInv P nodeSize w s := by
  cases h with
  | init hw he =>
      have hinitial : Monitor.Initial (⟨false, none, fun _ => .outside⟩ : Monitor.State T Bool Unit) :=
        ⟨rfl, fun _ => rfl⟩
      refine ⟨.init hw he, ⟨hinitial.invariant, fun _ _ => trivial, trivial, fun _ => rfl⟩,
        ⟨fun _ => hw, List.prefix_rfl, Or.inr (Or.inr List.nil_prefix)⟩⟩

/-! ## All come to rest -/

/-- The steps that a sender can take, what it makes of the worker included. -/
def sendRank : Monitor.Place Unit → Nat
  | .locking _ => 17
  | .updating _ => 16
  | .signalling => 6
  | .leaving => 1
  | .outside | .waiting | .testing | .asleep | .woken | .taking => 0

/-- The steps that the worker can take in `EventWait`, and until it is there again. -/
def waitRank : Monitor.Place Unit → Nat
  | .outside => 5
  | .waiting | .woken => 4
  | .testing => 3
  | .taking => 2
  | .leaving => 10
  | .asleep | .locking _ | .updating _ | .signalling => 0

/-- Those that it can take in `UlpRecvAndHandlePhyData`, the indications that are in the
list apart. -/
def phyRank : PhyWorker β → Nat
  | .outside => 9
  | .popping => 8
  | .popped _ => 11
  | .called _ => 10
  | .freed _ => 9
  | .returning => 7

/-- The steps of the worker. -/
def Ulp.workerRank (s : Ulp T β ρ) (w : T) : Nat :=
  match s.loop with
  | .eventWait => waitRank (s.gUlpHandlerEvent.place w)
  | .ulpRecvAndHandlePhyData => phyRank s.path.worker
  | .ulpRecvAndHandleOamData => 6

/-- The steps that can be taken in all. A flag that is set is good for a turn of the loop. -/
def Ulp.rank [Fintype T] (s : Ulp T β ρ) (w : T) : Nat :=
  s.workerRank w + 9 * flagCount s.gUlpHandlerEvent.value + 4 * s.path.waiting
    + ∑ t ∈ Finset.univ.erase w, sendRank (s.gUlpHandlerEvent.place t)

section Rest

variable [Fintype T] {P nodeSize} {w t : T} {s s' s₀ : Ulp T β ρ} {kind : UlpKind}
  {l : Monitor.Label Unit} {ev : Monitor.State T Bool Unit}

/-- A sender takes a step, the others stay where they are. -/
theorem sum_sendRank {f g : T → Monitor.Place Unit} (ht : t ≠ w)
    (h : ∀ u, u ≠ w → u ≠ t → f u = g u) :
    (∑ u ∈ Finset.univ.erase w, sendRank (f u)) + sendRank (g t)
      = (∑ u ∈ Finset.univ.erase w, sendRank (g u)) + sendRank (f t) := by
  have hmem : t ∈ Finset.univ.erase w := Finset.mem_erase.mpr ⟨ht, Finset.mem_univ t⟩
  have hrest : ∑ u ∈ (Finset.univ.erase w).erase t, sendRank (f u)
      = ∑ u ∈ (Finset.univ.erase w).erase t, sendRank (g u) := by
    refine Finset.sum_congr rfl fun u hu => ?_
    rw [h u (Finset.ne_of_mem_erase (Finset.mem_of_mem_erase hu)) (Finset.ne_of_mem_erase hu)]
  rw [← Finset.add_sum_erase _ _ hmem, ← Finset.add_sum_erase _ _ hmem, hrest]
  omega

theorem workerRank_notify (h : ev.place w = s.gUlpHandlerEvent.place w) :
    (s.notify l ev).workerRank w = s.workerRank w := by
  unfold Ulp.workerRank
  rw [show (s.notify l ev).gUlpHandlerEvent = ev from rfl, h]
  rfl

/-- The step of a sender may wake up the worker. -/
theorem workerRank_notify_le (h : Monitor.Step event s.gUlpHandlerEvent t l ev) (hw : w ≠ t) :
    (s.notify l ev).workerRank w ≤ s.workerRank w + 4 := by
  rcases h.others hw with heq | ⟨hasleep, hwoken⟩
  · rw [workerRank_notify heq]
    omega
  · unfold Ulp.workerRank
    rw [show (s.notify l ev).loop = s.loop from rfl]
    cases s.loop with
    | eventWait =>
        show waitRank (ev.place w) ≤ waitRank (s.gUlpHandlerEvent.place w) + 4
        rw [hasleep, hwoken]
        decide
    | ulpRecvAndHandlePhyData | ulpRecvAndHandleOamData => exact Nat.le_add_right _ _

theorem flagCount_le (b : Bool) : flagCount b ≤ 1 := by
  cases b <;> decide

/-- A sender goes on: what it has left to do pays for the flag and for the worker. -/
theorem sender_pays (ht : t ≠ w) (hsend : Sending (s.gUlpHandlerEvent.place t))
    (hstep : Monitor.Step event s.gUlpHandlerEvent t l ev) (hk : senderKind l = .goesOn) :
    ∃ d, (s.notify l ev).workerRank w ≤ s.workerRank w + d ∧
      sendRank (ev.place t) + 9 * flagCount ev.value + d
        < sendRank (s.gUlpHandlerEvent.place t) + 9 * flagCount s.gUlpHandlerEvent.value := by
  have hle := workerRank_notify_le hstep (Ne.symm ht)
  have hsame : ev.place w = s.gUlpHandlerEvent.place w →
      (s.notify l ev).workerRank w ≤ s.workerRank w + 0 := fun h => (workerRank_notify h).le
  cases hstep with
  | callUpdate | callWait | signalFails | lockUpdateFails | lockWaitFails | sleepFails | wakeUp =>
      cases hk
  | lockWait hp | pass hp | sleep hp | relock hp | take hp =>
      rw [hp] at hsend
      exact hsend.elim
  | lockUpdate hp | leave hp =>
      refine ⟨0, hsame (Monitor.move_place_of_ne _ (Ne.symm ht)), ?_⟩
      rw [hp]
      simp [Monitor.State.enter, Monitor.State.exit, sendRank]
  | @update u hp =>
      refine ⟨0, hsame (Monitor.move_place_of_ne _ (Ne.symm ht)), ?_⟩
      rw [hp, Monitor.move_place_self]
      have hone := flagCount_le (event.update u s.gUlpHandlerEvent.value)
      simp only [sendRank]
      omega
  | signal _ hp =>
      refine ⟨4, hle, ?_⟩
      rw [hp, Monitor.move_place_self]
      show 1 + 9 * flagCount s.gUlpHandlerEvent.value + 4 < 6 + _
      omega

theorem rank_notify (ht : t ≠ w) (he : EventInv w s)
    (hstep : Monitor.Step event s.gUlpHandlerEvent t l ev) (hk : senderKind l = .goesOn) :
    (s.notify l ev).rank w < s.rank w := by
  obtain ⟨d, hworker, hpays⟩ := sender_pays ht (he.senders t ht) hstep hk
  have hsum := sum_sendRank (f := ev.place) ht fun u hu hut =>
    sending_of_others hstep hut (he.senders u hu)
  show (s.notify l ev).workerRank w + 9 * flagCount ev.value + 4 * s.path.waiting
    + ∑ u ∈ Finset.univ.erase w, sendRank (ev.place u) < s.rank w
  unfold Ulp.rank
  omega

/-- The worker goes on in `EventWait`. A turn of the loop costs less than the flag. -/
theorem waiter_pays (hloop : s.loop = .eventWait) (haway : s.path.worker = .outside)
    (hrecv : InWait (s.gUlpHandlerEvent.place w))
    (hpassed : Monitor.Passed event s.gUlpHandlerEvent)
    (hstep : Monitor.Step event s.gUlpHandlerEvent w l ev) (hl : ∀ u, ev.place w ≠ .locking u)
    (hk : waiterKind l = .goesOn) :
    (s.wait w ev).workerRank w + 9 * flagCount ev.value
      < s.workerRank w + 9 * flagCount s.gUlpHandlerEvent.value := by
  have hbefore : s.workerRank w = waitRank (s.gUlpHandlerEvent.place w) := by
    rw [Ulp.workerRank, hloop]
  have hwithin : ev.place w ≠ .outside → (s.wait w ev).workerRank w = waitRank (ev.place w) := by
    intro hne
    have h : (s.wait w ev).loop = .eventWait := if_neg hne
    rw [Ulp.workerRank, h]
    rfl
  rw [hbefore]
  cases hstep with
  | callUpdate u => exact absurd (by simp) (hl u)
  | lockUpdate hp | update hp | signal _ hp | signalFails hp | lockUpdateFails hp =>
      rw [hp] at hrecv
      exact hrecv.elim
  | wakeUp | lockWaitFails | sleepFails => cases hk
  | callWait hp | lockWait hp | pass hp | sleep hp | relock hp =>
      rw [hwithin (by simp [Monitor.State.enter, Monitor.State.exit]), hp]
      simp [Monitor.State.enter, Monitor.State.exit, waitRank]
  | take hp =>
      have hset : s.gUlpHandlerEvent.value = true := hpassed w hp
      rw [hwithin (by simp), hp, hset]
      simp [waitRank, event, flagCount]
  | leave hp =>
      have hout : (s.wait w (s.gUlpHandlerEvent.exit w .outside)).workerRank w = 9 := by
        have h : (s.wait w (s.gUlpHandlerEvent.exit w .outside)).loop
            = .ulpRecvAndHandlePhyData := if_pos (by simp [Monitor.State.exit])
        rw [Ulp.workerRank, h]
        show phyRank s.path.worker = 9
        rw [haway]
        rfl
      rw [hout, hp]
      show 9 + 9 * flagCount s.gUlpHandlerEvent.value < 10 + _
      omega

theorem rank_wait (hloop : s.loop = .eventWait) (haway : s.path.worker = .outside)
    (he : EventInv w s) (hstep : Monitor.Step event s.gUlpHandlerEvent w l ev)
    (hl : ∀ u, ev.place w ≠ .locking u) (hk : waiterKind l = .goesOn) :
    (s.wait w ev).rank w < s.rank w := by
  have hpays := waiter_pays hloop haway he.worker he.event.passed hstep hl hk
  have hsum : ∑ t ∈ Finset.univ.erase w, sendRank (ev.place t)
      = ∑ t ∈ Finset.univ.erase w, sendRank (s.gUlpHandlerEvent.place t) := by
    refine Finset.sum_congr rfl fun t ht => ?_
    have hne := Finset.ne_of_mem_erase ht
    rw [sending_of_others hstep hne (he.senders t hne)]
  show (s.wait w ev).workerRank w + 9 * flagCount ev.value + 4 * s.path.waiting
    + ∑ t ∈ Finset.univ.erase w, sendRank (ev.place t) < s.rank w
  rw [hsum]
  unfold Ulp.rank
  omega

/-- The worker goes on in `UlpRecvAndHandlePhyData`. -/
theorem PhyMove.rank {p p' : PhyPath β ρ} (h : PhyMove p p') :
    (if p.worker = .returning then 6 else phyRank p'.worker) + 4 * p'.waiting
      < phyRank p.worker + 4 * p.waiting := by
  cases h with
  | look hp hp' _ hn | call _ _ hp hp' _ hn | free _ _ hp hp' _ hn | freeNode _ _ hp hp' _ hn
    | leave hp hp' _ hn =>
      rw [hp, hp', hn]
      simp [phyRank]
  | empty _ hp' _ hz hz' =>
      rw [hp', hz, hz']
      cases p.worker <;> simp [phyRank]
  | pop _ hp hp' _ hn =>
      rw [hp, hp', hn]
      simp [phyRank]
      omega

theorem rank_phyStep {xs : List β} (hloop : s.loop = .ulpRecvAndHandlePhyData)
    (hi : PathInv s.path s.history xs) : s.phyStep.rank w < s.rank w := by
  have hpays := (phyMove hi).rank
  have hbefore : s.workerRank w = phyRank s.path.worker := by rw [Ulp.workerRank, hloop]
  have hafter : s.phyStep.workerRank w = if s.path.worker = .returning then 6
      else phyRank (ulpRecvAndHandlePhyData s.path).worker := by
    unfold Ulp.workerRank
    by_cases hret : s.path.worker = .returning
    · have h : s.phyStep.loop = .ulpRecvAndHandleOamData := if_pos hret
      rw [h, if_pos hret]
    · have h : s.phyStep.loop = .ulpRecvAndHandlePhyData := if_neg hret
      rw [h, if_neg hret]
      rfl
  show s.phyStep.workerRank w + 9 * flagCount s.gUlpHandlerEvent.value
    + 4 * (ulpRecvAndHandlePhyData s.path).waiting + _ < s.rank w
  rw [hafter]
  unfold Ulp.rank
  show _ + _ + _ + ∑ t ∈ Finset.univ.erase w, sendRank (s.gUlpHandlerEvent.place t) < _
  omega

/-- **A step that goes on with something brings the system closer to rest.** -/
theorem UlpStep.rank_lt (h : UlpStep P nodeSize w s kind s') (hs : UlpInv P nodeSize w s)
    (hk : kind = .goesOn) : s'.rank w < s.rank w := by
  cases h with
  | arrival | other => cases hk
  | notify ht hstep _ _ => exact rank_notify ht hs.event hstep hk
  | wait hloop hstep hl =>
      exact rank_wait hloop (hs.tick.away (by simp [hloop])) hs.event hstep hl hk
  | phyData hloop =>
      obtain ⟨xs, hi⟩ := hs.reached.inv
      exact rank_phyStep hloop hi
  | oamData hloop =>
      have hplace := hs.event.away (by simp [hloop])
      have hbefore : s.workerRank w = 6 := by rw [Ulp.workerRank, hloop]
      show waitRank (s.gUlpHandlerEvent.place w) + _ + _ + _ < s.rank w
      unfold Ulp.rank
      rw [hbefore, hplace]
      show 5 + 9 * flagCount s.gUlpHandlerEvent.value + 4 * s.path.waiting
        + ∑ t ∈ Finset.univ.erase w, sendRank (s.gUlpHandlerEvent.place t) < 6 + _ + _ + _
      omega

theorem UlpRun.length_le {kinds : List UlpKind} (h : UlpRun P nodeSize w s₀ kinds s)
    (hs : UlpInv P nodeSize w s₀) (hk : ∀ k ∈ kinds, k = .goesOn) :
    kinds.length + s.rank w ≤ s₀.rank w := by
  induction h with
  | start => simp
  | step hrun hstep ih =>
      have hprev := ih fun k hk' => hk k (List.mem_append_left _ hk')
      have hlt := hstep.rank_lt (hrun.inv hs) (hk _ List.mem_concat_self)
      rw [List.length_append, List.length_singleton]
      omega

/-- An internal step is one that goes on with something. -/
theorem kind_of_internal (hl : l.Internal) :
    senderKind l = .goesOn ∧ waiterKind l = .goesOn := by
  cases l with
  | quiet | updated | taken => exact ⟨rfl, rfl⟩
  | call | spurious | failed | signalFailed => exact hl.elim

/-- It does not begin a call. -/
theorem place_of_internal (hstep : Monitor.Step event s.gUlpHandlerEvent t l ev)
    (hl : l.Internal) : ev.place t ≠ .waiting ∧ ∀ u, ev.place t ≠ .locking u := by
  cases hstep with
  | callUpdate | callWait | wakeUp | lockUpdateFails | lockWaitFails | sleepFails
    | signalFails => exact hl.elim
  | lockUpdate | update | signal | lockWait | pass | sleep | relock | take | leave =>
      simp [Monitor.State.enter, Monitor.State.exit]

/-- **At rest** the worker is asleep, and the other threads are elsewhere. -/
theorem UlpSettled.rests (h : UlpSettled P nodeSize w s) (hs : UlpInv P nodeSize w s) :
    s.gUlpHandlerEvent.place w = .asleep ∧
      ∀ t, t ≠ w → s.gUlpHandlerEvent.place t = .outside := by
  have hloop : s.loop = .eventWait := by
    cases hl : s.loop with
    | eventWait => rfl
    | ulpRecvAndHandlePhyData => exact absurd (.phyData hl) (h _)
    | ulpRecvAndHandleOamData => exact absurd (.oamData hl) (h _)
  have hstuck : Monitor.Stuck event s.gUlpHandlerEvent := by
    intro t l ev hstep hl
    obtain ⟨hsend, hwait⟩ := kind_of_internal hl
    obtain ⟨hne, hlock⟩ := place_of_internal hstep hl
    by_cases ht : t = w
    · subst ht
      have hgo : UlpStep P nodeSize t s (waiterKind l) (s.wait t ev) := .wait hloop hstep hlock
      exact h _ (hwait ▸ hgo)
    · have hsig : l ≠ .signalFailed := by
        rintro rfl
        exact hl
      have hgo : UlpStep P nodeSize w s (senderKind l) (s.notify l ev) :=
        .notify ht hstep hne hsig
      exact h _ (hsend ▸ hgo)
  refine ⟨?_, fun t ht => ?_⟩
  · have hrest := hstuck.resting hs.event.event.owned w
    cases hp : s.gUlpHandlerEvent.place w with
    | asleep => rfl
    | outside =>
        have hstep := Monitor.Step.callWait (g := event) hp
        exact absurd (UlpStep.wait hloop hstep fun u => by simp) (h _)
    | locking | updating | signalling | waiting | testing | woken | taking | leaving =>
        rw [hp] at hrest
        exact hrest.elim
  · have hrest := hstuck.resting hs.event.event.owned t
    have hsend := hs.event.senders t ht
    cases hp : s.gUlpHandlerEvent.place t with
    | outside => rfl
    | locking | updating | signalling | waiting | testing | woken | taking | leaving | asleep =>
        rw [hp] at hrest hsend
        first | exact hrest.elim | exact hsend.elim

/-- While the worker is asleep and the other threads are elsewhere, the indications of the
last tick have been handled. -/
theorem handled_of_asleep (hs : UlpInv P nodeSize w s)
    (hw : s.gUlpHandlerEvent.place w = .asleep)
    (hothers : ∀ t, t ≠ w → s.gUlpHandlerEvent.place t = .outside) :
    s.ticked <+: macCalls s.path.events := by
  have hloop : s.loop = .eventWait := by
    by_contra hne
    rw [hs.event.away hne] at hw
    cases hw
  rcases hs.tick.handled with hset | hl | hdone
  · -- nobody would be on its way to wake up the worker
    obtain ⟨t, ht⟩ := hs.event.event.awake hset ⟨w, hw⟩
    by_cases htw : t = w
    · rw [htw, hw] at ht
      exact ht.elim
    · rw [hothers t htw] at ht
      exact ht.elim
  · rw [WillLook, hloop] at hl
    rw [hw] at hl
    cases hl
  · exact hdone

end Rest

/-- **A tick is not lost.** From every state that is reached, whatever steps the threads take
to go on with what they have begun, they come to rest after a bounded number of them. The
worker is asleep then, and the indications that had been queued when the flag was last set
have been passed to MAC, in their order. -/
theorem notifyUlpWorker_handles [Fintype T] {w : T} {s₀ s s' : Ulp T β ρ}
    {kinds kinds' : List UlpKind} (h₀ : UlpStarted s₀) (hrun : UlpRun P nodeSize w s₀ kinds s)
    (hrun' : UlpRun P nodeSize w s kinds' s') (hgo : ∀ k ∈ kinds', k = .goesOn) :
    kinds'.length ≤ s.rank w ∧ s.ticked <+: s'.ticked ∧
      (UlpSettled P nodeSize w s' → s'.gUlpHandlerEvent.place w = .asleep ∧
        (∀ t, t ≠ w → s'.gUlpHandlerEvent.place t = .outside) ∧
        s'.ticked <+: macCalls s'.path.events ∧ macCalls s'.path.events <+: s'.history.direct) := by
  have hs := hrun.inv (h₀.inv P nodeSize w)
  have hs' := hrun'.inv hs
  have hlen := hrun'.length_le hs hgo
  refine ⟨by omega, hrun'.ticked hs, fun hsettled => ?_⟩
  obtain ⟨hw, hothers⟩ := hsettled.rests hs'
  obtain ⟨xs, hi⟩ := hs'.reached.inv
  refine ⟨hw, hothers, handled_of_asleep hs' hw hothers, ?_⟩
  rw [← hi.direct, ← hi.due, macCalls_append]
  exact List.prefix_append _ _

/-- A worker and another thread, after `InitUlpWorker`. -/
def startUlp : Ulp (Fin 2) Nat Unit :=
  ⟨initUlpWorker startPath true, ⟨false, none, fun _ => .outside⟩, .eventWait, ⟨[], [], []⟩, []⟩

/-- The worker is asleep when an indication arrives and the other thread sets the flag. -/
theorem notifyUlpWorker_handles_asleep : ∃ s : Ulp (Fin 2) Nat Unit,
    s.ticked.length = 1 ∧ s.path.events = [] ∧ s.gUlpHandlerEvent.place 0 = .asleep ∧
      (UlpSettled freshPolicy 32 0 s → s.ticked <+: macCalls s.path.events) := by
  have h0 : UlpRun freshPolicy 32 0 startUlp [] startUlp := .start
  have h1 := h0.step (.wait rfl (.callWait rfl) (by simp))
  have h2 := h1.step (.wait rfl (.lockWait rfl rfl) (by simp [Monitor.State.enter]))
  have h3 := h2.step (.wait rfl (.sleep rfl rfl) (by simp [Monitor.State.exit]))
  have h4 := h3.step (.arrival (some ()) 2 (by decide +kernel))
  have h5 := h4.step (.notify (t := 1) (by decide) (.callUpdate () rfl) (by simp) (by simp))
  have h6 := h5.step (.notify (t := 1) (by decide) (.lockUpdate rfl rfl)
    (by simp [Monitor.State.enter]) (by simp))
  have h7 := h6.step (.notify (t := 1) (by decide) (.update rfl) (by simp) (by simp))
  have h := notifyUlpWorker_handles freshPolicy 32 (.init rfl rfl) h7 .start (by simp)
  exact ⟨_, by decide +kernel, rfl, rfl, fun hs => (h.2.2 hs).2.2.1⟩

end LteUlp.Worker
