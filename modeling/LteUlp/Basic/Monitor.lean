import Mathlib.Algebra.BigOperators.Fin
import Mathlib.Algebra.Order.BigOperators.Group.Finset
import Mathlib.Data.Fintype.BigOperators
import Mathlib.Tactic

set_option autoImplicit false
set_option linter.unusedSectionVars false

/-! # A value behind a mutex and a condition variable

Any number of threads share a value. Some of them change it and signal the condition, others
wait until it is ready and take it. A step is one call of the thread library, or one access
to the value by the thread that owns the mutex, so all interleavings are covered. Waking up
without a signal is a step of its own, and so is a call that fails.

* The mutex works (`Run.unique_inside`).
* As long as no signal fails, no wake-up is lost: a thread stays asleep while the value is
  ready only if another one is on its way to it (`Step.awake`, `Run.invariant`).
* Once no thread begins anything new, all come to rest after a bounded number of steps, in
  whatever order these are taken (`Run.length_le`, `Stuck.not_ready`).
-/

namespace Monitor

/-- The shared value: what an update does to it, for which values no thread has to wait, and
what is left of it when it is taken. -/
structure Guarded (σ U : Type) where
  update : U → σ → σ
  ready : σ → Bool
  take : σ → σ
  taken : ∀ x, ready x = true → ready (take x) = false
  /-- Whether an update whose signal fails unlocks the mutex. -/
  unlocks : Bool

/-- Where a thread is, in an update or in waiting. -/
inductive Place (U : Type) where
  | outside
  /-- Before the mutex, to change the value. -/
  | locking (u : U)
  | updating (u : U)
  | signalling
  /-- Before the mutex, to wait. -/
  | waiting
  | testing
  /-- In the queue of the condition variable, without the mutex. -/
  | asleep
  /-- Woken up, before the mutex again. -/
  | woken
  | taking
  | leaving
  deriving DecidableEq

/-- The thread has the mutex. -/
def Place.Inside {U : Type} : Place U → Prop
  | .updating _ | .signalling | .testing | .taking | .leaving => True
  | .outside | .locking _ | .waiting | .asleep | .woken => False

/-- The thread will come to the test, or has passed it, or wakes up another one. -/
def Place.Arriving {U : Type} : Place U → Prop
  | .signalling | .woken | .testing | .taking => True
  | .outside | .locking _ | .updating _ | .waiting | .asleep | .leaving => False

structure State (T σ U : Type) where
  value : σ
  owner : Option T
  place : T → Place U

/-- What a step is, seen from outside. -/
inductive Label (U : Type) where
  /-- A thread begins to change the value or to wait. -/
  | call
  | quiet
  | updated (u : U)
  | taken
  /-- A thread wakes up without a signal. -/
  | spurious
  /-- A thread gives up, because a call other than the signal has failed. -/
  | failed
  | signalFailed
  deriving DecidableEq

/-- The steps of a thread that goes on with what it has begun. -/
def Label.Internal {U : Type} : Label U → Prop
  | .quiet | .updated _ | .taken => True
  | .call | .spurious | .failed | .signalFailed => False

/-- The steps of threads that begin nothing new, in which calls may fail. A thread that is asleep
wakes up by a signal only. -/
def Label.Onward {U : Type} : Label U → Prop
  | .quiet | .updated _ | .taken | .failed | .signalFailed => True
  | .call | .spurious => False

theorem Label.Internal.onward {U : Type} {l : Label U} (h : l.Internal) : l.Onward := by
  cases l <;> trivial

variable {T σ U : Type} [DecidableEq T] {g : Guarded σ U} {s s' : State T σ U} {t w : T}
  {l : Label U}

def State.move (s : State T σ U) (t : T) (p : Place U) : State T σ U :=
  { s with place := Function.update s.place t p }

/-- The thread takes the mutex. -/
def State.enter (s : State T σ U) (t : T) (p : Place U) : State T σ U :=
  { s.move t p with owner := some t }

/-- The thread gives the mutex back. -/
def State.exit (s : State T σ U) (t : T) (p : Place U) : State T σ U :=
  { s.move t p with owner := none }

open Classical in
/-- The threads in `woken` are taken out of the queue of the condition variable. -/
noncomputable def State.wake (s : State T σ U) (woken : Set T) : State T σ U :=
  { s with place := fun w => if w ∈ woken then .woken else s.place w }

/-- **A step of the thread `t`.** A signal wakes up at least one thread, if any is asleep. -/
inductive Step (g : Guarded σ U) (s : State T σ U) (t : T) : Label U → State T σ U → Prop where
  | callUpdate (u : U) : s.place t = .outside → Step g s t .call (s.move t (.locking u))
  | callWait : s.place t = .outside → Step g s t .call (s.move t .waiting)
  | lockUpdate {u : U} : s.place t = .locking u → s.owner = none →
      Step g s t .quiet (s.enter t (.updating u))
  | update {u : U} : s.place t = .updating u →
      Step g s t (.updated u) { s.move t .signalling with value := g.update u s.value }
  | signal (woken : Set T) : s.place t = .signalling → (∀ w ∈ woken, s.place w = .asleep) →
      ((∃ w, s.place w = .asleep) → woken.Nonempty) →
      Step g s t .quiet ((s.wake woken).move t .leaving)
  | lockWait : s.place t = .waiting → s.owner = none → Step g s t .quiet (s.enter t .testing)
  | pass : s.place t = .testing → g.ready s.value = true → Step g s t .quiet (s.move t .taking)
  | sleep : s.place t = .testing → g.ready s.value = false →
      Step g s t .quiet (s.exit t .asleep)
  | wakeUp : s.place t = .asleep → Step g s t .spurious (s.move t .woken)
  | relock : s.place t = .woken → s.owner = none → Step g s t .quiet (s.enter t .testing)
  | take : s.place t = .taking →
      Step g s t .taken { s.move t .leaving with value := g.take s.value }
  | leave : s.place t = .leaving → Step g s t .quiet (s.exit t .outside)
  | lockUpdateFails {u : U} : s.place t = .locking u → Step g s t .failed (s.move t .outside)
  | lockWaitFails : s.place t = .waiting → Step g s t .failed (s.move t .outside)
  | sleepFails : s.place t = .testing → g.ready s.value = false →
      Step g s t .failed (s.move t .leaving)
  | signalFails : s.place t = .signalling →
      Step g s t .signalFailed (s.move t (if g.unlocks then .leaving else .outside))

/-- The runs from a state, with the threads and the labels of the steps. -/
inductive Run (g : Guarded σ U) (s₀ : State T σ U) :
    List (T × Label U) → State T σ U → Prop where
  | start : Run g s₀ [] s₀
  | step {trace : List (T × Label U)} {s s' : State T σ U} {t : T} {l : Label U} :
      Run g s₀ trace s → Step g s t l s' → Run g s₀ (trace ++ [(t, l)]) s'

/-- Before anything has begun. -/
structure Initial (s : State T σ U) : Prop where
  owner : s.owner = none
  outside : ∀ t, s.place t = .outside

/-! ## Places -/

@[simp] theorem move_place_self (p : Place U) : (s.move t p).place t = p := by
  show Function.update s.place t p t = p
  rw [Function.update_self]

theorem move_place_of_ne (p : Place U) (h : w ≠ t) : (s.move t p).place w = s.place w := by
  show Function.update s.place t p w = s.place w
  rw [Function.update_of_ne h]

@[simp] theorem move_value (p : Place U) : (s.move t p).value = s.value := rfl

@[simp] theorem move_owner (p : Place U) : (s.move t p).owner = s.owner := rfl

@[simp] theorem enter_value (p : Place U) : (s.enter t p).value = s.value := rfl

@[simp] theorem exit_value (p : Place U) : (s.exit t p).value = s.value := rfl

@[simp] theorem wake_value (woken : Set T) : (s.wake woken).value = s.value := rfl

theorem wake_place_of_mem {woken : Set T} (h : w ∈ woken) : (s.wake woken).place w = .woken :=
  if_pos h

theorem wake_place_of_notMem {woken : Set T} (h : w ∉ woken) :
    (s.wake woken).place w = s.place w := if_neg h

/-- What a step does to the other threads: some of those asleep are woken up. -/
theorem Step.others (h : Step g s t l s') (hw : w ≠ t) :
    s'.place w = s.place w ∨ (s.place w = .asleep ∧ s'.place w = .woken) := by
  cases h with
  | signal woken _ hasleep _ =>
      rw [move_place_of_ne _ hw]
      by_cases hmem : w ∈ woken
      · exact Or.inr ⟨hasleep w hmem, wake_place_of_mem hmem⟩
      · exact Or.inl (wake_place_of_notMem hmem)
  | _ => exact Or.inl (move_place_of_ne _ hw)

theorem Step.inside_iff (h : Step g s t l s') (hw : w ≠ t) :
    (s'.place w).Inside ↔ (s.place w).Inside := by
  rcases h.others hw with heq | ⟨hasleep, hwoken⟩
  · rw [heq]
  · rw [hasleep, hwoken]
    exact iff_of_false id id

/-! ## The mutex -/

/-- The threads that have the mutex are its owner. The owner has it, unless it has returned
without unlocking. -/
def Excludes (s : State T σ U) : Prop := ∀ t, (s.place t).Inside → s.owner = some t

theorem Initial.excludes (h : Initial s) : Excludes s := by
  intro t ht
  rw [h.outside t] at ht
  exact ht.elim

theorem Step.excludes (h : Step g s t l s') (hs : Excludes s) : Excludes s' := by
  intro w hw
  by_cases hwt : w = t
  · -- the thread itself
    subst hwt
    cases h with
    | lockUpdate | lockWait | relock => rfl
    | update hp | pass hp | take hp | sleepFails hp =>
        exact hs w (by rw [hp]; trivial)
    | signal woken hp => exact hs w (by rw [hp]; trivial)
    | signalFails hp => exact hs w (by rw [hp]; trivial)
    | callUpdate | callWait | wakeUp | sleep | leave | lockUpdateFails | lockWaitFails =>
        simp [State.exit, Place.Inside] at hw
  · rw [h.inside_iff hwt] at hw
    have hown := hs w hw
    cases h with
    | lockUpdate _ hfree | lockWait _ hfree | relock _ hfree =>
        rw [hfree] at hown
        cases hown
    | sleep hp | leave hp =>
        have ht := hs t (by rw [hp]; trivial)
        exact absurd (Option.some.inj (hown.symm.trans ht)) hwt
    | _ => exact hown

theorem Run.excludes {s₀ : State T σ U} {trace : List (T × Label U)} (h : Run g s₀ trace s)
    (h₀ : Excludes s₀) : Excludes s := by
  induction h with
  | start => exact h₀
  | step _ hstep ih => exact hstep.excludes ih

/-- **The mutex**: there is never more than one thread inside. -/
theorem Run.unique_inside {s₀ : State T σ U} {trace : List (T × Label U)}
    (h : Run g s₀ trace s) (h₀ : Initial s₀) (ht : (s.place t).Inside)
    (hw : (s.place w).Inside) : t = w := by
  have hs := h.excludes h₀.excludes
  exact Option.some.inj ((hs t ht).symm.trans (hs w hw))

/-- The owner has the mutex. -/
def Owned (s : State T σ U) : Prop := ∀ t, s.owner = some t → (s.place t).Inside

theorem Initial.owned (h : Initial s) : Owned s := by
  intro t ht
  rw [h.owner] at ht
  cases ht

/-- Nobody returns with the mutex, except when a signal fails. -/
theorem Step.owned (h : Step g s t l s') (hl : l = .signalFailed → g.unlocks = true)
    (hs : Owned s) : Owned s' := by
  intro w hw
  by_cases hwt : w = t
  · -- the thread itself: it has taken the mutex, or it had it before
    subst hwt
    cases h with
    | lockUpdate | lockWait | relock | update | signal | pass | take | sleepFails =>
        simp [State.enter, Place.Inside]
    | sleep | leave => cases hw
    | callUpdate _ hp | callWait hp | wakeUp hp | lockUpdateFails hp | lockWaitFails hp =>
        have hin := hs w hw
        rw [hp] at hin
        exact hin.elim
    | signalFails => simp [hl rfl, Place.Inside]
  · rw [h.inside_iff hwt]
    cases h with
    | lockUpdate | lockWait | relock => exact absurd (Option.some.inj hw).symm hwt
    | sleep | leave => cases hw
    | _ => exact hs w hw

theorem Run.owned {s₀ : State T σ U} {trace : List (T × Label U)} (h : Run g s₀ trace s)
    (h₀ : Owned s₀) (hg : g.unlocks = true) : Owned s := by
  induction h with
  | start => exact h₀
  | step _ hstep ih => exact hstep.owned (fun _ => hg) ih

/-! ## No wake-up is lost -/

/-- A thread that is about to take the value finds it ready. -/
def Passed (g : Guarded σ U) (s : State T σ U) : Prop :=
  ∀ t, s.place t = .taking → g.ready s.value = true

theorem Step.passed (h : Step g s t l s') (hx : Excludes s) (hs : Passed g s) :
    Passed g s' := by
  intro w hw
  by_cases hwt : w = t
  · subst hwt
    cases h with
    | pass _ hready => exact hready
    | signalFails => split at hw <;> simp at hw
    | callUpdate | callWait | lockUpdate | update | signal | lockWait | sleep | wakeUp | relock
      | take | leave | lockUpdateFails | lockWaitFails | sleepFails =>
        simp [State.enter, State.exit] at hw
  · have hbefore : s.place w = .taking := by
      rcases h.others hwt with heq | ⟨-, hwoken⟩
      · rw [← heq, hw]
      · rw [hw] at hwoken
        cases hwoken
    -- nobody else has the mutex, so the value stays as it is
    have hown : s.owner = some w := hx w (by rw [hbefore]; trivial)
    cases h with
    | update hp | take hp =>
        have ht := hx t (by rw [hp]; trivial)
        exact absurd (Option.some.inj (hown.symm.trans ht)) hwt
    | _ => exact hs w hbefore

theorem Run.passed {s₀ : State T σ U} {trace : List (T × Label U)} (h : Run g s₀ trace s)
    (h₀ : Initial s₀) : Passed g s := by
  induction h with
  | start =>
      intro t ht
      rw [h₀.outside t] at ht
      cases ht
  | step hrun hstep ih => exact hstep.passed (hrun.excludes h₀.excludes) ih

/-- A thread that is about to signal has just changed the value. -/
def Updated (g : Guarded σ U) (s : State T σ U) : Prop :=
  ∀ t, s.place t = .signalling → ∃ u x, s.value = g.update u x

theorem Step.updated (h : Step g s t l s') (hx : Excludes s) (hs : Updated g s) :
    Updated g s' := by
  intro w hw
  by_cases hwt : w = t
  · subst hwt
    cases h with
    | update => exact ⟨_, s.value, rfl⟩
    | signalFails => split at hw <;> simp at hw
    | callUpdate | callWait | lockUpdate | signal | lockWait | pass | sleep | wakeUp | relock
      | take | leave | lockUpdateFails | lockWaitFails | sleepFails =>
        simp [State.enter, State.exit] at hw
  · have hbefore : s.place w = .signalling := by
      rcases h.others hwt with heq | ⟨-, hwoken⟩
      · rw [← heq, hw]
      · rw [hw] at hwoken
        cases hwoken
    have hown : s.owner = some w := hx w (by rw [hbefore]; trivial)
    cases h with
    | update hp | take hp =>
        have ht := hx t (by rw [hp]; trivial)
        exact absurd (Option.some.inj (hown.symm.trans ht)) hwt
    | _ => exact hs w hbefore

theorem Run.updated {s₀ : State T σ U} {trace : List (T × Label U)} (h : Run g s₀ trace s)
    (h₀ : Initial s₀) : Updated g s := by
  induction h with
  | start =>
      intro t ht
      rw [h₀.outside t] at ht
      cases ht
  | step hrun hstep ih => exact hstep.updated (hrun.excludes h₀.excludes) ih

/-- If the value is ready and a thread is asleep, then another one is on its way. -/
def Awake (g : Guarded σ U) (s : State T σ U) : Prop :=
  g.ready s.value = true → (∃ w, s.place w = .asleep) → ∃ t, (s.place t).Arriving

/-- A thread falls asleep only if the value is not ready. -/
theorem Step.asleep (h : Step g s t l s') (hw : s'.place w = .asleep) :
    s.place w = .asleep ∨ (g.ready s.value = false ∧ s'.value = s.value) := by
  by_cases hwt : w = t
  · subst hwt
    cases h with
    | sleep _ hready => exact Or.inr ⟨hready, rfl⟩
    | signalFails => split at hw <;> simp at hw
    | callUpdate | callWait | lockUpdate | update | signal | lockWait | pass | wakeUp | relock
      | take | leave | lockUpdateFails | lockWaitFails | sleepFails =>
        simp [State.enter, State.exit] at hw
  · rcases h.others hwt with heq | ⟨-, hwoken⟩
    · exact Or.inl (heq ▸ hw)
    · rw [hw] at hwoken
      cases hwoken

/-- A thread that does nothing stays on its way. -/
theorem Step.arriving (h : Step g s t l s') (hw : w ≠ t) (hs : (s.place w).Arriving) :
    (s'.place w).Arriving := by
  rcases h.others hw with heq | ⟨hasleep, -⟩
  · rwa [heq]
  · rw [hasleep] at hs
    exact hs.elim

/-- **No step loses a wake-up**, if no signal fails. -/
theorem Step.awake (h : Step g s t l s') (hl : l ≠ .signalFailed) (hp : Passed g s)
    (hs : Awake g s) : Awake g s' := by
  rintro hready ⟨w, hw⟩
  rcases h.asleep hw with hbefore | ⟨hnot, hvalue⟩
  swap
  · rw [hvalue, hnot] at hready
    cases hready
  -- what happens if the value was ready before, and `t` was on its way, is left
  have hother : g.ready s.value = true → ((s.place t).Arriving → ∃ t, (s'.place t).Arriving) →
      ∃ t, (s'.place t).Arriving := by
    intro hr ht
    obtain ⟨a, ha⟩ := hs hr ⟨w, hbefore⟩
    by_cases hat : a = t
    · exact ht (hat ▸ ha)
    · exact ⟨a, h.arriving hat ha⟩
  cases h with
  | update => exact ⟨t, by simp [Place.Arriving]⟩
  | take htaking =>
      have := g.taken s.value (hp t htaking)
      rw [show g.ready (g.take s.value) = true from hready] at this
      cases this
  | signal woken hsignal hasleep hwoken =>
      obtain ⟨x, hx⟩ := hwoken ⟨w, hbefore⟩
      have hxt : x ≠ t := by
        rintro rfl
        rw [hasleep x hx] at hsignal
        cases hsignal
      refine ⟨x, ?_⟩
      rw [move_place_of_ne _ hxt, wake_place_of_mem hx]
      trivial
  | pass => exact ⟨t, by simp [Place.Arriving]⟩
  | relock => exact ⟨t, by simp [State.enter, Place.Arriving]⟩
  | wakeUp => exact ⟨t, by simp [Place.Arriving]⟩
  | sleep _ hnot | sleepFails _ hnot =>
      rw [show g.ready s.value = true from hready] at hnot
      cases hnot
  | signalFails => exact absurd rfl hl
  | callUpdate _ hplace | callWait hplace | lockUpdate hplace | lockWait hplace | leave hplace
    | lockUpdateFails hplace | lockWaitFails hplace =>
      refine hother hready fun harr => ?_
      rw [hplace] at harr
      exact harr.elim

/-- No signal of the run has failed. -/
def Signalled (trace : List (T × Label U)) : Prop := ∀ x ∈ trace, x.2 ≠ .signalFailed

/-- What holds in every state of a run in which no signal fails. -/
structure Invariant (g : Guarded σ U) (s : State T σ U) : Prop where
  excludes : Excludes s
  owned : Owned s
  passed : Passed g s
  awake : Awake g s

theorem Initial.invariant (h : Initial s) : Invariant g s where
  excludes := h.excludes
  owned := h.owned
  passed := Run.start.passed h
  awake _ hw := by
    obtain ⟨w, hw⟩ := hw
    rw [h.outside w] at hw
    cases hw

theorem Step.invariant (h : Step g s t l s') (hl : l ≠ .signalFailed) (hs : Invariant g s) :
    Invariant g s' where
  excludes := h.excludes hs.excludes
  owned := h.owned (fun hfail => absurd hfail hl) hs.owned
  passed := h.passed hs.excludes hs.passed
  awake := h.awake hl hs.passed hs.awake

theorem Run.invariant {s₀ : State T σ U} {trace : List (T × Label U)} (h : Run g s₀ trace s)
    (h₀ : Invariant g s₀) (hsig : Signalled trace) : Invariant g s := by
  induction h with
  | start => exact h₀
  | step _ hstep ih =>
      have hs := ih fun x hx => hsig x (List.mem_append_left _ hx)
      exact hstep.invariant (hsig _ List.mem_concat_self) hs

/-! ## All come to rest -/

/-- The thread has nothing to do, or waits for a signal. -/
def Place.Resting : Place U → Prop
  | .outside | .asleep => True
  | _ => False

/-- The steps that the thread can still take, those of the threads that it wakes up
included: there are `n` of them at most. -/
def Place.rank (n : Nat) : Place U → Nat
  | .outside | .asleep => 0
  | .leaving => 1
  | .taking => 2
  | .testing => 3
  | .waiting | .woken => 4
  | .signalling => 4 * n + 2
  | .updating _ => 4 * n + 3
  | .locking _ => 4 * n + 4

theorem Place.rank_le (n : Nat) (p : Place U) : p.rank n ≤ 4 * n + 4 := by
  cases p <;> simp only [Place.rank] <;> omega

section Rest

variable [Fintype T]

/-- The steps that can be taken in all. -/
def State.rank (s : State T σ U) : Nat := ∑ t, (s.place t).rank (Fintype.card T)

theorem State.rank_le (s : State T σ U) :
    s.rank ≤ Fintype.card T * (4 * Fintype.card T + 4) := by
  unfold State.rank
  calc ∑ t, (s.place t).rank (Fintype.card T)
      ≤ ∑ _t : T, (4 * Fintype.card T + 4) := Finset.sum_le_sum fun t _ => Place.rank_le _ _
    _ = Fintype.card T * (4 * Fintype.card T + 4) := by
        rw [Finset.sum_const, Finset.card_univ, smul_eq_mul]

/-- One thread comes closer to its end, and the others stay where they are. -/
theorem rank_lt_of_others (hothers : ∀ w, w ≠ t → s'.place w = s.place w)
    (ht : (s'.place t).rank (Fintype.card T) < (s.place t).rank (Fintype.card T)) :
    s'.rank < s.rank := by
  refine Finset.sum_lt_sum (fun w _ => ?_) ⟨t, Finset.mem_univ t, ht⟩
  by_cases hw : w = t
  · exact hw ▸ ht.le
  · rw [hothers w hw]

/-- A signal wakes up all of the others at most. -/
theorem rank_signal {woken : Set T} (ht : s.place t = .signalling)
    (hasleep : ∀ w ∈ woken, s.place w = .asleep) :
    ((s.wake woken).move t .leaving).rank < s.rank := by
  have hle : ∀ w, w ≠ t → (((s.wake woken).move t .leaving).place w).rank (Fintype.card T)
      ≤ (s.place w).rank (Fintype.card T) + 4 := by
    intro w hw
    rw [move_place_of_ne _ hw]
    by_cases hmem : w ∈ woken
    · rw [wake_place_of_mem hmem, hasleep w hmem]
      simp [Place.rank]
    · rw [wake_place_of_notMem hmem]
      omega
  have hsplit : ∀ f : T → Nat, ∑ w, f w = f t + ∑ w ∈ Finset.univ.erase t, f w := fun f =>
    (Finset.add_sum_erase _ f (Finset.mem_univ t)).symm
  unfold State.rank
  rw [hsplit, hsplit fun w => (s.place w).rank _, move_place_self, ht]
  have hothers : ∑ w ∈ Finset.univ.erase t,
        (((s.wake woken).move t .leaving).place w).rank (Fintype.card T)
      ≤ ∑ w ∈ Finset.univ.erase t, ((s.place w).rank (Fintype.card T) + 4) :=
    Finset.sum_le_sum fun w hw => hle w (Finset.ne_of_mem_erase hw)
  have hcard : (Finset.univ.erase t).card ≤ Fintype.card T := Finset.card_erase_le
  rw [Finset.sum_add_distrib, Finset.sum_const, smul_eq_mul] at hothers
  have hleaving : (Place.leaving : Place U).rank (Fintype.card T) = 1 := rfl
  have hsignalling : (Place.signalling : Place U).rank (Fintype.card T)
      = 4 * Fintype.card T + 2 := rfl
  omega

/-- **Steps that begin nothing new bring the threads closer to rest.** -/
theorem Step.rank_lt (h : Step g s t l s') (hl : l.Onward) : s'.rank < s.rank := by
  cases h with
  | signal woken hp hasleep _ => exact rank_signal hp hasleep
  | lockUpdate hp | update hp | lockWait hp | pass hp | sleep hp | relock hp | take hp
    | leave hp | lockUpdateFails hp | lockWaitFails hp | sleepFails hp =>
      refine rank_lt_of_others (t := t) (fun w hw => move_place_of_ne _ hw) ?_
      rw [hp]
      simp [State.enter, State.exit, Place.rank]
  | signalFails hp =>
      refine rank_lt_of_others (t := t) (fun w hw => move_place_of_ne _ hw) ?_
      rw [hp, move_place_self]
      split <;> simp [Place.rank]
  | callUpdate | callWait | wakeUp => exact hl.elim

/-- **A run in which nothing new begins is short.** -/
theorem Run.length_le {trace : List (T × Label U)} (h : Run g s trace s')
    (hl : ∀ x ∈ trace, x.2.Onward) : trace.length + s'.rank ≤ s.rank := by
  induction h with
  | start => simp
  | step _ hstep ih =>
      have hprev := ih fun x hx => hl x (List.mem_append_left _ hx)
      have hlt := hstep.rank_lt (hl _ List.mem_concat_self)
      rw [List.length_append, List.length_singleton]
      omega

end Rest

/-- No internal step is possible. -/
def Stuck (g : Guarded σ U) (s : State T σ U) : Prop :=
  ∀ t l s', Step g s t l s' → ¬ l.Internal

/-- A thread inside can always go on. -/
theorem exists_step_of_inside (h : (s.place t).Inside) :
    ∃ l s', Step g s t l s' ∧ l.Internal := by
  cases hp : s.place t with
  | updating u => exact ⟨_, _, .update hp, trivial⟩
  | signalling =>
      exact ⟨_, _, .signal {w | s.place w = .asleep} hp (fun w hw => hw) (fun hw => hw), trivial⟩
  | testing =>
      cases hr : g.ready s.value with
      | true => exact ⟨_, _, .pass hp hr, trivial⟩
      | false => exact ⟨_, _, .sleep hp hr, trivial⟩
  | taking => exact ⟨_, _, .take hp, trivial⟩
  | leaving => exact ⟨_, _, .leave hp, trivial⟩
  | outside | locking | waiting | asleep | woken =>
      rw [hp] at h
      exact h.elim

/-- **No deadlock**: if no step is possible, then all threads rest. -/
theorem Stuck.resting (h : Stuck g s) (hs : Owned s) (t : T) : (s.place t).Resting := by
  have hfree : s.owner = none := by
    cases hown : s.owner with
    | none => rfl
    | some a =>
        obtain ⟨l, s', hstep, hl⟩ := exists_step_of_inside (g := g) (hs a hown)
        exact absurd hl (h a l s' hstep)
  have hin : ¬ (s.place t).Inside := fun hin => by
    obtain ⟨l, s', hstep, hl⟩ := exists_step_of_inside (g := g) hin
    exact h t l s' hstep hl
  cases hp : s.place t with
  | outside | asleep => trivial
  | locking u => exact absurd trivial (h t _ _ (.lockUpdate hp hfree))
  | waiting => exact absurd trivial (h t _ _ (.lockWait hp hfree))
  | woken => exact absurd trivial (h t _ _ (.relock hp hfree))
  | updating | signalling | testing | taking | leaving =>
      rw [hp] at hin
      exact absurd trivial hin

/-- **Nobody sleeps while the value is ready**, once all threads rest. -/
theorem Stuck.not_ready (h : Stuck g s) (hs : Invariant g s) (hw : s.place w = .asleep) :
    g.ready s.value = false := by
  by_contra hready
  obtain ⟨t, ht⟩ := hs.awake (Bool.not_eq_false _ ▸ hready) ⟨w, hw⟩
  have hrest := h.resting hs.owned t
  cases hp : s.place t <;> rw [hp] at ht hrest <;> first | exact ht | exact hrest

/-! ## A mutex that is not given back -/

/-- Somebody has returned with the mutex. -/
structure Dead (s : State T σ U) : Prop where
  owner : s.owner ≠ none
  outside : ∀ t, ¬ (s.place t).Inside

theorem Step.signalling_of_signalFailed (h : Step g s t .signalFailed s') :
    s.place t = .signalling ∧ s'.value = s.value := by
  cases h with
  | signalFails hp => exact ⟨hp, rfl⟩

/-- A signal that fails kills the monitor, if the update does not unlock the mutex then. -/
theorem Step.dead_of_signalFailed (h : Step g s t .signalFailed s') (hg : g.unlocks = false)
    (hs : Excludes s) : Dead s' := by
  cases h with
  | signalFails hp =>
      have hown := hs t (by rw [hp]; trivial)
      constructor
      · rw [move_owner, hown]
        simp
      · intro w hw
        by_cases hwt : w = t
        · subst hwt
          simp [hg, Place.Inside] at hw
        · rw [move_place_of_ne _ hwt] at hw
          exact hwt (Option.some.inj ((hs w hw).symm.trans hown))

/-- In a dead monitor the value stays as it is, and so does the mutex. -/
theorem Step.dead (h : Step g s t l s') (hs : Dead s) :
    Dead s' ∧ s'.value = s.value ∧ (l = .call ∨ l = .spurious ∨ l = .failed) := by
  have houtside : ∀ p : Place U, ¬ p.Inside → Dead (s.move t p) := fun p hp => by
    refine ⟨hs.owner, fun w => ?_⟩
    by_cases hwt : w = t
    · subst hwt
      rwa [move_place_self]
    · rw [move_place_of_ne _ hwt]
      exact hs.outside w
  have hnot := hs.outside t
  cases h with
  | callUpdate | callWait | wakeUp | lockUpdateFails | lockWaitFails =>
      exact ⟨houtside _ id, rfl, by simp⟩
  | lockUpdate _ hfree | lockWait _ hfree | relock _ hfree => exact absurd hfree hs.owner
  | update hp | signal _ hp | pass hp | sleep hp | take hp | leave hp | sleepFails hp
    | signalFails hp =>
      rw [hp] at hnot
      exact absurd trivial hnot

theorem Run.dead {trace : List (T × Label U)} (h : Run g s trace s') (hs : Dead s) :
    Dead s' ∧ s'.value = s.value ∧
      ∀ x ∈ trace, x.2 = .call ∨ x.2 = .spurious ∨ x.2 = .failed := by
  induction h with
  | start => exact ⟨hs, rfl, by simp⟩
  | step _ hstep ih =>
      obtain ⟨hdead, hvalue, hlabels⟩ := ih
      obtain ⟨hdead', hvalue', hlabel⟩ := hstep.dead hdead
      refine ⟨hdead', hvalue'.trans hvalue, fun x hx => ?_⟩
      rcases List.mem_append.mp hx with hx | hx
      · exact hlabels x hx
      · obtain rfl := List.mem_singleton.mp hx
        exact hlabel

end Monitor
