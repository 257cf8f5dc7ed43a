import LteUlp.Basic.Monitor

set_option autoImplicit false
set_option linter.unusedSectionVars false

/-! # Events

The ULP threads are woken up by an `Event` (`event.c`), those of the DPE by an
`EventIndicator`. Both are a flag behind a mutex and a condition variable. The places of a
thread stand for the calls that follow:

* `EventSend`, `EventIndicator::set` and `EventIndicator::reset`: `pthread_mutex_lock` at
  `locking`, the assignment to the flag at `updating`, `pthread_cond_signal` at `signalling`,
  `pthread_mutex_unlock` at `leaving`.
* `EventWait` and `EventIndicator::wait`: `pthread_mutex_lock` at `waiting`, the test of the
  flag at `testing`, `pthread_cond_wait` at `asleep` and `woken`, the flag is cleared at
  `taking`, `pthread_mutex_unlock` at `leaving`.

A call of the thread library that fails ends the function. `EventSend` returns without
unlocking the mutex if the signal fails; nobody gets past the mutex from then on
(`eventSend_signalFails`).
-/

namespace LteUlp

open Monitor

/-- `Event`: `EventSend` sets the flag, and `EventWait` clears it. -/
def event : Guarded Bool Unit where
  update _ _ := true
  ready setFlag := setFlag
  take _ := false
  taken _ _ := rfl
  unlocks := false

/-- `EventIndicator`: the update `true` is `set`, and `false` is `reset`. -/
def eventIndicator : Guarded Bool Bool where
  update b _ := b
  ready m_eventIsSet := m_eventIsSet
  take _ := false
  taken _ _ := rfl
  unlocks := true

section Event

variable {T U : Type} [DecidableEq T] {g : Guarded Bool U} {s s₀ s' : State T Bool U}
  {trace : List (T × Label U)}

/-- What becomes of the threads when none of them begins anything new: they come to rest in a
bounded number of steps, and then nobody waits for an event that has been sent. -/
structure Settles [Fintype T] (g : Guarded Bool U) (s : State T Bool U) : Prop where
  bounded : ∀ (trace : List (T × Label U)) (s' : State T Bool U), Run g s trace s' →
    (∀ x ∈ trace, x.2.Internal) → trace.length ≤ Fintype.card T * (4 * Fintype.card T + 4)
  resting : ∀ (trace : List (T × Label U)) (s' : State T Bool U), Run g s trace s' →
    (∀ x ∈ trace, x.2.Internal) → Stuck g s' →
      ∀ t, s'.place t = .outside ∨ (s'.place t = .asleep ∧ g.ready s'.value = false)

theorem signalled_of_internal (h : ∀ x ∈ trace, x.2.Internal) : Signalled trace := by
  intro x hx hfail
  have := h x hx
  rw [hfail] at this
  exact this

theorem settles_of_invariant [Fintype T] (hs : Invariant g s) : Settles g s where
  bounded trace s' hrun hint := by
    have h1 := hrun.length_le fun x hx => (hint x hx).onward
    have h2 := s.rank_le
    omega
  resting trace s' hrun hint hstuck t := by
    have hinv := hrun.invariant hs (signalled_of_internal hint)
    have hrest := hstuck.resting hinv.owned t
    cases hp : s'.place t with
    | outside => exact Or.inl rfl
    | asleep => exact Or.inr ⟨rfl, hstuck.not_ready hinv hp⟩
    | locking | updating | signalling | waiting | testing | woken | taking | leaving =>
        rw [hp] at hrest
        exact hrest.elim

/-- How often the flag has been set in a run. -/
def sends (trace : List (T × Label Unit)) : Nat := trace.countP fun x => x.2 = .updated ()

/-- How often it has been cleared by a thread that waited for it. -/
def receipts (trace : List (T × Label Unit)) : Nat := trace.countP fun x => x.2 = .taken

theorem receipts_concat (trace : List (T × Label Unit)) (x : T × Label Unit) :
    receipts (trace ++ [x]) = receipts trace + if x.2 = .taken then 1 else 0 := by
  simp [receipts, List.countP_append, List.countP_cons]

theorem sends_concat (trace : List (T × Label Unit)) (x : T × Label Unit) :
    sends (trace ++ [x]) = sends trace + if x.2 = .updated () then 1 else 0 := by
  simp [sends, List.countP_append, List.countP_cons]

/-- The flag counts for one event. -/
def flagCount (b : Bool) : Nat := if b then 1 else 0

/-- **No event is received twice**: a waiting thread clears a flag that has been set. -/
theorem receipts_le {trace : List (T × Label Unit)} {s s₀ : State T Bool Unit}
    (hrun : Run event s₀ trace s) (h₀ : Initial s₀) :
    receipts trace + flagCount s.value ≤ sends trace + flagCount s₀.value := by
  induction hrun with
  | start => simp [receipts, sends]
  | @step trace s s' t l hrun hstep ih =>
      rw [receipts_concat, sends_concat]
      have hpassed := hrun.passed h₀
      cases hstep with
      | update =>
          have h1 : flagCount true = 1 := rfl
          have h2 : flagCount s.value ≤ 1 := by
            unfold flagCount
            split <;> omega
          simp only [if_true, reduceCtorEq, if_false]
          show receipts trace + 0 + flagCount true ≤ sends trace + 1 + _
          omega
      | take hp =>
          have hset : s.value = true := hpassed t hp
          rw [hset] at ih
          simpa [flagCount, event] using ih
      | _ => simpa using ih

/-- **`EventSend` and `EventWait`**, in any interleaving of any calls of any number of threads,
as long as no signal fails: no two threads are inside, no event is received twice, and no
event is lost. -/
theorem eventSend_received [Fintype T] {trace : List (T × Label Unit)}
    {s s₀ : State T Bool Unit} (h₀ : Initial s₀) (hrun : Run event s₀ trace s)
    (hsig : Signalled trace) :
    (∀ t w, (s.place t).Inside → (s.place w).Inside → t = w) ∧
      receipts trace + flagCount s.value ≤ sends trace + flagCount s₀.value ∧
      Settles event s :=
  ⟨fun _ _ ht hw => hrun.unique_inside h₀ ht hw, receipts_le hrun h₀,
    settles_of_invariant (hrun.invariant h₀.invariant hsig)⟩

/-- **A signal of `EventSend` that fails**: the thread returns with the mutex. The flag stays
set, and no thread gets past the mutex any more, neither to send nor to receive. -/
theorem eventSend_signalFails {trace trace' : List (T × Label Unit)}
    {s₀ s s' s'' : State T Bool Unit} {t : T} (h₀ : Initial s₀) (hrun : Run event s₀ trace s)
    (hstep : Step event s t .signalFailed s') (hrun' : Run event s' trace' s'') :
    s''.value = true ∧ (∀ w, ¬ (s''.place w).Inside) ∧ sends trace' = 0
      ∧ receipts trace' = 0 := by
  have hdead := hstep.dead_of_signalFailed rfl (hrun.excludes h₀.excludes)
  obtain ⟨hdead', hvalue, hlabels⟩ := hrun'.dead hdead
  obtain ⟨hp, hsame⟩ := hstep.signalling_of_signalFailed
  have hset : s.value = true := by
    obtain ⟨u, x, hx⟩ := hrun.updated h₀ t hp
    exact hx
  have hnone : ∀ l : Label Unit, l ≠ .call → l ≠ .spurious → l ≠ .failed →
      trace'.countP (fun x => x.2 = l) = 0 := by
    intro l h1 h2 h3
    refine List.countP_eq_zero.mpr fun x hx => ?_
    rcases hlabels x hx with h | h | h <;> rw [h] <;> simp [Ne.symm h1, Ne.symm h2, Ne.symm h3]
  refine ⟨hvalue.trans (hsame.trans hset), hdead'.outside, ?_, ?_⟩
  · exact hnone _ (by simp) (by simp) (by simp)
  · exact hnone _ (by simp) (by simp) (by simp)

/-- **`EventIndicator`**, whatever calls fail: no two threads are inside, and once no thread
begins anything new or wakes up without a signal, all come to rest, whatever calls fail then.
If no signal has failed, then nobody waits for an event that is set. -/
theorem eventIndicator_rests [Fintype T] {trace : List (T × Label Bool)}
    {s s₀ : State T Bool Bool} (h₀ : Initial s₀) (hrun : Run eventIndicator s₀ trace s) :
    (∀ t w, (s.place t).Inside → (s.place w).Inside → t = w) ∧
      (∀ (trace' : List (T × Label Bool)) (s' : State T Bool Bool),
        Run eventIndicator s trace' s' → (∀ x ∈ trace', x.2.Onward) →
          trace'.length ≤ Fintype.card T * (4 * Fintype.card T + 4) ∧
          (Stuck eventIndicator s' → ∀ t, (s'.place t).Resting)) ∧
      (Signalled trace → Settles eventIndicator s) := by
  refine ⟨fun _ _ ht hw => hrun.unique_inside h₀ ht hw, ?_, fun hsig =>
    settles_of_invariant (hrun.invariant h₀.invariant hsig)⟩
  intro trace' s' hrun' hint
  have h1 := hrun'.length_le hint
  have h2 := s.rank_le
  have howned := hrun'.owned (hrun.owned h₀.owned rfl) rfl
  exact ⟨by omega, fun hstuck => hstuck.resting howned⟩

end Event

/-- The event of two threads, before anything has begun. -/
def freshEvent : State (Fin 2) Bool Unit := ⟨false, none, fun _ => .outside⟩

theorem freshEvent_initial : Initial freshEvent := ⟨rfl, fun _ => rfl⟩

/-- One thread is asleep when the other one sets the flag. -/
theorem eventSend_received_asleep : ∃ s : State (Fin 2) Bool Unit,
    s.value = true ∧ s.place 0 = .asleep ∧ Settles event s := by
  have h0 : Run event freshEvent [] freshEvent := .start
  have h1 := h0.step (.callWait (t := 0) rfl)
  have h2 := h1.step (.lockWait (t := 0) rfl rfl)
  have h3 := h2.step (.sleep (t := 0) rfl rfl)
  have h4 := h3.step (.callUpdate (t := 1) () rfl)
  have h5 := h4.step (.lockUpdate (t := 1) rfl rfl)
  have h6 := h5.step (.update (t := 1) rfl)
  exact ⟨_, rfl, rfl, (eventSend_received freshEvent_initial h6 (by simp [Signalled])).2.2⟩

/-- The signal of one thread fails when the other one has begun to wait. -/
theorem eventSend_signalFails_waiting : ∃ s : State (Fin 2) Bool Unit,
    s.place 0 = .waiting ∧ s.value = true ∧ ∀ w, ¬ (s.place w).Inside := by
  have h0 : Run event freshEvent [] freshEvent := .start
  have h1 := h0.step (.callUpdate (t := 1) () rfl)
  have h2 := h1.step (.lockUpdate (t := 1) rfl rfl)
  have h3 := h2.step (.update (t := 1) rfl)
  obtain ⟨hset, hnobody, -⟩ := eventSend_signalFails (t := 1) freshEvent_initial h3
    (.signalFails rfl) (Run.start.step (.callWait (t := 0) rfl))
  exact ⟨_, rfl, hset, hnobody⟩

/-- A set whose signal fails, while another thread is asleep. -/
theorem eventIndicator_rests_asleep : ∃ s : State (Fin 2) Bool Bool,
    s.value = true ∧ s.place 0 = .asleep ∧
      ∀ trace' s', Run eventIndicator s trace' s' → (∀ x ∈ trace', x.2.Onward) →
        Stuck eventIndicator s' → ∀ t, (s'.place t).Resting := by
  let s₀ : State (Fin 2) Bool Bool := ⟨false, none, fun _ => .outside⟩
  have h0 : Run eventIndicator s₀ [] s₀ := .start
  have h1 := h0.step (.callWait (t := 0) rfl)
  have h2 := h1.step (.lockWait (t := 0) rfl rfl)
  have h3 := h2.step (.sleep (t := 0) rfl rfl)
  have h4 := h3.step (.callUpdate (t := 1) true rfl)
  have h5 := h4.step (.lockUpdate (t := 1) rfl rfl)
  have h6 := h5.step (.update (t := 1) rfl)
  have h7 := h6.step (.signalFails (t := 1) rfl)
  have h := (eventIndicator_rests ⟨rfl, fun _ => rfl⟩ h7).2.1
  exact ⟨_, rfl, rfl, fun trace' s' hrun hint => (h trace' s' hrun hint).2⟩

end LteUlp
