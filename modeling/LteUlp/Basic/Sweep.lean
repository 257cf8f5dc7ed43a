import Mathlib.Data.List.Basic
import Mathlib.Data.List.Count
import Mathlib.Data.List.Nodup
import Mathlib.Logic.Function.Basic
import Mathlib.Tactic.Common

set_option autoImplicit false

/-! # Sweeps with a capacity

A loop walks over a list and takes elements out of it while it walks. It takes an element
that is due as long as fewer than `cap` places are used, and some of the elements that it
takes use up a place. What is left is the list without the elements taken, in the old order.

Nothing here depends on what the elements are.
-/

namespace Sweep

variable {α : Type} (due counted : α → Bool) (cap : Nat)

/-- What a sweep leaves in the list, what it takes out of it, and the places used at its
end. -/
structure Outcome (α : Type) where
  kept : List α
  taken : List α
  used : Nat

/-- The sweep over a list, with some places used at its beginning. -/
def sweep : Nat → List α → Outcome α
  | used, [] => ⟨[], [], used⟩
  | used, a :: l =>
      if used < cap ∧ due a = true then
        let r := sweep (used + (counted a).toNat) l
        { r with taken := a :: r.taken }
      else
        let r := sweep used l
        { r with kept := a :: r.kept }

variable {due counted : α → Bool} {cap used : Nat} {a : α} {l m : List α}

@[simp] theorem sweep_nil : sweep due counted cap used [] = ⟨[], [], used⟩ := rfl

theorem sweep_cons_taken (h : used < cap) (ha : due a = true) :
    sweep due counted cap used (a :: l)
      = { sweep due counted cap (used + (counted a).toNat) l with
          taken := a :: (sweep due counted cap (used + (counted a).toNat) l).taken } := by
  rw [sweep, if_pos ⟨h, ha⟩]

theorem sweep_cons_kept (h : ¬(used < cap ∧ due a = true)) :
    sweep due counted cap used (a :: l)
      = { sweep due counted cap used l with
          kept := a :: (sweep due counted cap used l).kept } := by
  rw [sweep, if_neg h]

/-- A sweep depends on what is asked about the elements of the list only. -/
theorem sweep_congr {due' counted' : α → Bool} (used : Nat) (l : List α)
    (h : ∀ a ∈ l, due a = due' a ∧ counted a = counted' a) :
    sweep due counted cap used l = sweep due' counted' cap used l := by
  induction l generalizing used with
  | nil => rfl
  | cons a l ih =>
      obtain ⟨⟨hd, hc⟩, hl⟩ := List.forall_mem_cons.mp h
      rw [sweep, sweep, hd, hc, ih _ hl, ih _ hl]

/-- When all places are used, nothing is taken. -/
theorem sweep_full (h : cap ≤ used) (l : List α) :
    sweep due counted cap used l = ⟨l, [], used⟩ := by
  induction l with
  | nil => rfl
  | cons a l ih =>
      rw [sweep_cons_kept fun hlt => by omega, ih]

/-! ## What is kept and what is taken -/

theorem kept_append_taken_perm (used : Nat) (l : List α) :
    ((sweep due counted cap used l).kept ++ (sweep due counted cap used l).taken).Perm l := by
  induction l generalizing used with
  | nil => exact .refl _
  | cons a l ih =>
      by_cases h : used < cap ∧ due a = true
      · rw [sweep_cons_taken h.1 h.2]
        exact List.perm_middle.trans ((ih _).cons a)
      · rw [sweep_cons_kept h]
        exact (ih used).cons a

theorem kept_sublist (used : Nat) (l : List α) :
    (sweep due counted cap used l).kept.Sublist l := by
  induction l generalizing used with
  | nil => exact .refl _
  | cons a l ih =>
      by_cases h : used < cap ∧ due a = true
      · rw [sweep_cons_taken h.1 h.2]
        exact (ih _).cons a
      · rw [sweep_cons_kept h]
        exact (ih used).cons_cons a

theorem taken_sublist (used : Nat) (l : List α) :
    (sweep due counted cap used l).taken.Sublist l := by
  induction l generalizing used with
  | nil => exact .refl _
  | cons a l ih =>
      by_cases h : used < cap ∧ due a = true
      · rw [sweep_cons_taken h.1 h.2]
        exact (ih _).cons_cons a
      · rw [sweep_cons_kept h]
        exact (ih used).cons a

theorem mem_kept_or_taken (used : Nat) (ha : a ∈ l) :
    a ∈ (sweep due counted cap used l).kept ∨ a ∈ (sweep due counted cap used l).taken :=
  List.mem_append.mp ((kept_append_taken_perm used l).mem_iff.mpr ha)

/-- Without repetitions, nothing is both kept and taken. -/
theorem not_mem_taken_of_kept (hl : l.Nodup)
    (ha : a ∈ (sweep due counted cap used l).kept) :
    a ∉ (sweep due counted cap used l).taken := by
  have hperm : ((sweep due counted cap used l).kept ++ (sweep due counted cap used l).taken).Perm
      l := kept_append_taken_perm used l
  have hn := hperm.nodup_iff.mpr hl
  exact fun ht => (List.nodup_append.mp hn).2.2 a ha a ht rfl

theorem not_mem_kept_of_taken (hl : l.Nodup)
    (ha : a ∈ (sweep due counted cap used l).taken) :
    a ∉ (sweep due counted cap used l).kept :=
  fun hk => not_mem_taken_of_kept hl hk ha

/-- Where everything is due, the elements at the front are taken. -/
theorem taken_append_kept (used : Nat) (h : ∀ a ∈ l, due a = true) :
    (sweep due counted cap used l).taken ++ (sweep due counted cap used l).kept = l := by
  induction l generalizing used with
  | nil => rfl
  | cons a l ih =>
      obtain ⟨ha, hl⟩ := List.forall_mem_cons.mp h
      rcases Nat.lt_or_ge used cap with hlt | hge
      · rw [sweep_cons_taken hlt ha]
        exact congrArg (a :: ·) (ih _ hl)
      · rw [sweep_full hge]
        rfl

theorem due_of_taken (used : Nat) (ha : a ∈ (sweep due counted cap used l).taken) :
    due a = true := by
  induction l generalizing used with
  | nil => exact absurd ha List.not_mem_nil
  | cons b l ih =>
      by_cases h : used < cap ∧ due b = true
      · rw [sweep_cons_taken h.1 h.2] at ha
        rcases List.mem_cons.mp ha with rfl | ha
        · exact h.2
        · exact ih _ ha
      · rw [sweep_cons_kept h] at ha
        exact ih used ha

/-! ## The places used -/

theorem used_eq_add (used : Nat) (l : List α) :
    (sweep due counted cap used l).used
      = used + (sweep due counted cap used l).taken.countP counted := by
  induction l generalizing used with
  | nil => rfl
  | cons a l ih =>
      by_cases h : used < cap ∧ due a = true
      · rw [sweep_cons_taken h.1 h.2]
        show (sweep due counted cap (used + (counted a).toNat) l).used = _
        rw [ih, List.countP_cons]
        cases counted a with
        | false => simp
        | true => simp only [Bool.toNat_true, if_true]; omega
      · rw [sweep_cons_kept h]
        exact ih used

/-- **The places used at the end**: those of all the elements that are due, up to the
capacity. -/
theorem used_eq_min (h : used ≤ cap) (l : List α) :
    (sweep due counted cap used l).used
      = min cap (used + l.countP fun a => due a && counted a) := by
  induction l generalizing used with
  | nil => simp [h]
  | cons a l ih =>
      rw [List.countP_cons]
      by_cases hd : used < cap ∧ due a = true
      · rw [sweep_cons_taken hd.1 hd.2]
        have hle : used + (counted a).toNat ≤ cap := by
          have hone : (counted a).toNat ≤ 1 := Bool.toNat_le _
          omega
        show (sweep due counted cap (used + (counted a).toNat) l).used = _
        rw [ih hle, hd.2]
        cases counted a with
        | false => simp
        | true => simp only [Bool.toNat_true, Bool.true_and, if_true]; omega
      · rw [sweep_cons_kept hd]
        show (sweep due counted cap used l).used = _
        rw [ih h]
        by_cases hfull : used < cap
        · have hnot : due a = false := by simpa [hfull] using hd
          simp [hnot]
        · omega

theorem used_le (h : used ≤ cap) (l : List α) : (sweep due counted cap used l).used ≤ cap := by
  rw [used_eq_min h]
  exact Nat.min_le_left _ _

/-! ## Positions -/

/-- A sweep over two lists, one after the other. -/
theorem sweep_append (used : Nat) (l m : List α) :
    sweep due counted cap used (l ++ m)
      = ⟨(sweep due counted cap used l).kept
          ++ (sweep due counted cap (sweep due counted cap used l).used m).kept,
        (sweep due counted cap used l).taken
          ++ (sweep due counted cap (sweep due counted cap used l).used m).taken,
        (sweep due counted cap (sweep due counted cap used l).used m).used⟩ := by
  induction l generalizing used with
  | nil => rfl
  | cons a l ih =>
      rw [List.cons_append]
      by_cases h : used < cap ∧ due a = true
      · rw [sweep_cons_taken h.1 h.2, sweep_cons_taken h.1 h.2, ih]
        rfl
      · rw [sweep_cons_kept h, sweep_cons_kept h, ih]
        rfl

/-- **Which elements are kept**: an element is kept exactly if it is not due, or if all places
are used when the sweep reaches it. -/
theorem mem_kept_iff (hn : (l ++ a :: m).Nodup) :
    a ∈ (sweep due counted cap used (l ++ a :: m)).kept ↔
      ¬((sweep due counted cap used l).used < cap ∧ due a = true) := by
  have hl : a ∉ l := fun hmem =>
    (List.nodup_append.mp hn).2.2 a hmem a List.mem_cons_self rfl
  have hm : a ∉ m := (List.nodup_cons.mp (List.nodup_append.mp hn).2.1).1
  have hfirst : a ∉ (sweep due counted cap used l).kept := fun hmem =>
    hl ((kept_sublist used l).mem hmem)
  rw [sweep_append, List.mem_append, or_iff_right hfirst]
  by_cases h : (sweep due counted cap used l).used < cap ∧ due a = true
  · rw [sweep_cons_taken h.1 h.2]
    refine iff_of_false (fun hmem => hm ((kept_sublist _ m).mem hmem)) ?_
    exact not_not_intro h
  · rw [sweep_cons_kept h]
    exact iff_of_true List.mem_cons_self h

/-- **When nothing is taken.** -/
theorem taken_eq_nil_iff :
    (sweep due counted cap used l).taken = [] ↔ cap ≤ used ∨ ∀ a ∈ l, due a = false := by
  induction l with
  | nil => simp
  | cons a l ih =>
      by_cases h : used < cap ∧ due a = true
      · rw [sweep_cons_taken h.1 h.2]
        refine iff_of_false (List.cons_ne_nil _ _) ?_
        rintro (hfull | hnone)
        · omega
        · exact absurd (hnone a List.mem_cons_self) (by simp [h.2])
      · rw [sweep_cons_kept h, List.forall_mem_cons]
        show (sweep due counted cap used l).taken = [] ↔ _
        rw [ih]
        rcases Nat.lt_or_ge used cap with hlt | hge
        · have hnot : due a = false := by simpa [hlt] using h
          simp [hnot]
        · simp [hge]

theorem kept_eq_of_taken_eq_nil (h : (sweep due counted cap used l).taken = []) :
    (sweep due counted cap used l).kept = l := by
  have hperm : ((sweep due counted cap used l).kept ++ (sweep due counted cap used l).taken).Perm
      l := kept_append_taken_perm used l
  rw [h, List.append_nil] at hperm
  exact (kept_sublist used l).eq_of_length hperm.length_eq

/-! ## Values

A loop that sweeps a list also writes to what belongs to the elements. -/

section Values

variable [DecidableEq α] {γ : Type} {onTaken onKept : γ → γ} {f g : α → γ} {o o' : Outcome α}

/-- The values after a sweep that changes those of the elements it takes and those of the
elements it keeps. -/
def Outcome.after (o : Outcome α) (onTaken onKept : γ → γ) (f : α → γ) (b : α) : γ :=
  if b ∈ o.taken then onTaken (f b) else if b ∈ o.kept then onKept (f b) else f b

theorem after_of_kept (h : a ∈ o.kept) (ht : a ∉ o.taken) :
    o.after onTaken onKept f a = onKept (f a) := by
  rw [Outcome.after, if_neg ht, if_pos h]

theorem after_of_not_mem (h : a ∉ l) :
    (sweep due counted cap used l).after onTaken onKept f a = f a := by
  rw [Outcome.after, if_neg fun hm => h ((taken_sublist used l).mem hm),
    if_neg fun hm => h ((kept_sublist used l).mem hm)]

/-- **One step of the loop**: after the element `a`, the loop goes on as if the value of `a`
had been changed before. -/
theorem after_step {c : γ} (hg : g = Function.update f a c)
    (hnot : a ∉ o.taken ∧ a ∉ o.kept) (hc : o'.after onTaken onKept f a = c)
    (hrest : ∀ b, b ≠ a → (b ∈ o'.taken ↔ b ∈ o.taken) ∧ (b ∈ o'.kept ↔ b ∈ o.kept)) :
    o.after onTaken onKept g = o'.after onTaken onKept f := by
  funext b
  by_cases hb : b = a
  · subst hb
    rw [Outcome.after, if_neg hnot.1, if_neg hnot.2, hg, Function.update_self, hc]
  · obtain ⟨h1, h2⟩ := hrest b hb
    have hsame : g b = f b := by rw [hg, Function.update_of_ne hb]
    simp only [Outcome.after, hsame, h1, h2]

theorem after_step_taken (hg : g = Function.update f a (onTaken (f a)))
    (hnot : a ∉ o.taken ∧ a ∉ o.kept) :
    o.after onTaken onKept g
      = ({ o with taken := a :: o.taken } : Outcome α).after onTaken onKept f :=
  after_step hg hnot (if_pos List.mem_cons_self) fun _ hb =>
    ⟨⟨fun hm => (List.mem_cons.mp hm).resolve_left hb, List.mem_cons_of_mem a⟩, Iff.rfl⟩

theorem after_step_kept (hg : g = Function.update f a (onKept (f a)))
    (hnot : a ∉ o.taken ∧ a ∉ o.kept) :
    o.after onTaken onKept g
      = ({ o with kept := a :: o.kept } : Outcome α).after onTaken onKept f := by
  refine after_step hg hnot ?_ fun _ hb =>
    ⟨Iff.rfl, ⟨fun hm => (List.mem_cons.mp hm).resolve_left hb, List.mem_cons_of_mem a⟩⟩
  exact after_of_kept List.mem_cons_self hnot.1

end Values

end Sweep
