import Mathlib.Data.List.Infix
import Mathlib.Data.List.Basic

set_option autoImplicit false

/-! # Messages in fragments

A message is cut into pieces, and each piece is sent as a fragment that says whether it is
the first and whether it is the last one of its message (`cut`, `stream`). `regroup` puts a
sequence of fragments together by these flags: the messages that are complete, and the
fragments of the one that is not. On the fragments of messages it undoes the cutting
(`regroup_stream`), and on any first part of them it finds what has arrived by the number of
its symbols (`regroup_arrived`).
-/

namespace Fragments

/-- A piece of a message. -/
structure Fragment (α : Type) where
  first : Bool
  last : Bool
  data : List α
  deriving DecidableEq

variable {α : Type}

/-- The symbols of fragments. -/
def symbols (l : List (Fragment α)) : List α := l.flatMap Fragment.data

/-- The fragments of a message in these pieces; the first of them has the flag `first`. -/
def cut : Bool → List (List α) → List (Fragment α)
  | _, [] => []
  | first, [d] => [⟨first, true, d⟩]
  | first, d :: e :: ds => ⟨first, false, d⟩ :: cut false (e :: ds)

/-- The fragments of messages. -/
def stream (messages : List (List (List α))) : List (Fragment α) := messages.flatMap (cut true)

/-- Put together by the flags, with the fragments `cur` of the current message before. -/
def regroup : List (Fragment α) → List (Fragment α) → List (List (Fragment α)) × List (Fragment α)
  | cur, [] => ([], cur)
  | cur, f :: l =>
      if f.last then ((cur ++ [f]) :: (regroup [] l).1, (regroup [] l).2)
      else regroup (cur ++ [f]) l

/-- A message begins where, and only where, the one before has ended. The flag says whether
one begins with the first fragment. -/
def Aligned : Bool → List (Fragment α) → Prop
  | _, [] => True
  | b, f :: l => f.first = b ∧ Aligned f.last l

/-- Whether a message begins behind the fragments. -/
def between (b : Bool) (l : List (Fragment α)) : Bool := l.foldl (fun _ f => f.last) b

/-- Of messages of which `n` symbols have arrived, those that are complete, and what there is
of the next one. -/
def arrived : List (List α) → Nat → List (List α) × List α
  | [], _ => ([], [])
  | m :: ms, n =>
      if m.length ≤ n then (m :: (arrived ms (n - m.length)).1, (arrived ms (n - m.length)).2)
      else ([], m.take n)

variable {b : Bool} {f : Fragment α} {cur l l' : List (Fragment α)} {ds : List (List α)}
  {messages : List (List (List α))}

/-! ## Symbols -/

@[simp] theorem symbols_nil : symbols ([] : List (Fragment α)) = [] := rfl

@[simp] theorem symbols_cons (f : Fragment α) (l : List (Fragment α)) :
    symbols (f :: l) = f.data ++ symbols l := rfl

@[simp] theorem symbols_append (l l' : List (Fragment α)) :
    symbols (l ++ l') = symbols l ++ symbols l' := by
  simp [symbols]

theorem cut_ne_nil (h : ds ≠ []) : cut b ds ≠ [] := by
  match ds with
  | [] => exact absurd rfl h
  | [d] => simp [cut]
  | d :: e :: ds => simp [cut]

@[simp] theorem symbols_cut (b : Bool) (ds : List (List α)) : symbols (cut b ds) = ds.flatten := by
  fun_induction cut b ds with
  | case1 => rfl
  | case2 b d => simp
  | case3 b d e ds ih => simp [ih]

theorem cut_data (h : f ∈ cut b ds) : f.data ∈ ds := by
  fun_induction cut b ds with
  | case1 => simp at h
  | case2 b d =>
      obtain rfl := List.mem_singleton.mp h
      exact List.mem_singleton_self d
  | case3 b d e ds ih =>
      rcases List.mem_cons.mp h with rfl | h
      · exact List.mem_cons_self
      · exact List.mem_cons_of_mem d (ih h)

/-- A first part of the fragments of a message does not complete it. -/
theorem cut_open {r : List (Fragment α)} (h : cut b ds = l ++ r) (hr : r ≠ []) :
    ∀ f ∈ l, f.last = false := by
  fun_induction cut b ds generalizing l with
  | case1 =>
      obtain ⟨rfl, -⟩ := List.append_eq_nil_iff.mp h.symm
      simp
  | case2 b d =>
      rcases List.singleton_eq_append_iff.mp h with ⟨rfl, -⟩ | ⟨-, rfl⟩
      · simp
      · exact absurd rfl hr
  | case3 b d e ds ih =>
      rcases List.cons_eq_append_iff.mp h with ⟨rfl, -⟩ | ⟨l', rfl, h'⟩
      · simp
      · intro f hf
        rcases List.mem_cons.mp hf with rfl | hf
        · rfl
        · exact ih h' f hf

/-! ## Putting together -/

theorem regroup_append (cur l l' : List (Fragment α)) :
    regroup cur (l ++ l')
      = ((regroup cur l).1 ++ (regroup (regroup cur l).2 l').1,
          (regroup (regroup cur l).2 l').2) := by
  induction l generalizing cur with
  | nil => rfl
  | cons f l ih =>
      rw [List.cons_append, regroup, regroup]
      by_cases hf : f.last = true
      · simp only [if_pos hf, ih, List.cons_append]
      · simp only [if_neg hf, ih]

theorem regroup_open (h : ∀ f ∈ l, f.last = false) : regroup cur l = ([], cur ++ l) := by
  induction l generalizing cur with
  | nil => rw [regroup, List.append_nil]
  | cons f l ih =>
      have hf : ¬f.last = true := by simp [h f List.mem_cons_self]
      rw [regroup, if_neg hf, ih fun g hg => h g (List.mem_cons_of_mem f hg),
        List.append_assoc, List.singleton_append]

theorem regroup_cut (h : ds ≠ []) : regroup cur (cut b ds) = ([cur ++ cut b ds], []) := by
  fun_induction cut b ds generalizing cur with
  | case1 => exact absurd rfl h
  | case2 b d => rfl
  | case3 b d e ds ih =>
      rw [regroup, if_neg (by simp), ih (List.cons_ne_nil e ds), List.append_assoc,
        List.singleton_append]

/-- **The fragments of messages are put together again.** -/
theorem regroup_stream (h : ∀ m ∈ messages, m ≠ []) :
    regroup [] (stream messages) = (messages.map (cut true), []) := by
  unfold stream
  induction messages with
  | nil => rfl
  | cons m ms ih =>
      rw [List.flatMap_cons, regroup_append, regroup_cut (h m List.mem_cons_self),
        ih fun m' hm => h m' (List.mem_cons_of_mem m hm)]
      rfl

/-- The fragments of an incomplete message are the last ones. -/
theorem regroup_suffix (cur l : List (Fragment α)) : (regroup cur l).2 <:+ cur ++ l := by
  induction l generalizing cur with
  | nil => rw [regroup, List.append_nil]
  | cons f l ih =>
      rw [regroup]
      by_cases hf : f.last = true
      · rw [if_pos hf]
        have hl : l <:+ cur ++ f :: l := ⟨cur ++ [f], by simp⟩
        exact (ih []).trans hl
      · rw [if_neg hf]
        have h := ih (cur ++ [f])
        rwa [List.append_assoc, List.singleton_append] at h

/-- There are fragments of an incomplete message unless a message begins behind them. -/
theorem regroup_between (cur l : List (Fragment α)) :
    (regroup cur l).2 = [] ↔ between cur.isEmpty l = true := by
  induction l generalizing cur with
  | nil => simp [regroup, between]
  | cons f l ih =>
      rw [regroup, between, List.foldl_cons]
      by_cases hf : f.last = true
      · rw [if_pos hf, hf]
        exact ih []
      · have hne : (cur ++ [f]).isEmpty = false := by simp
        have hopen : f.last = false := by simpa using hf
        rw [if_neg hf, ih, between, hne, hopen]

/-! ## Alignment -/

theorem aligned_append : Aligned b (l ++ l') ↔ Aligned b l ∧ Aligned (between b l) l' := by
  induction l generalizing b with
  | nil => simp [Aligned, between]
  | cons f l ih =>
      rw [List.cons_append, Aligned, Aligned, ih, and_assoc]
      rfl

theorem aligned_cut (h : ds ≠ []) : Aligned b (cut b ds) ∧ between b (cut b ds) = true := by
  fun_induction cut b ds with
  | case1 => exact absurd rfl h
  | case2 b d => simp [Aligned, between]
  | case3 b d e ds ih =>
      obtain ⟨ha, hb⟩ := ih (List.cons_ne_nil e ds)
      exact ⟨⟨rfl, ha⟩, hb⟩

theorem aligned_stream (h : ∀ m ∈ messages, m ≠ []) : Aligned true (stream messages) := by
  unfold stream
  induction messages with
  | nil => trivial
  | cons m ms ih =>
      obtain ⟨ha, hb⟩ := aligned_cut (b := true) (h m List.mem_cons_self)
      rw [List.flatMap_cons, aligned_append, hb]
      exact ⟨ha, ih fun m' hm => h m' (List.mem_cons_of_mem m hm)⟩

/-! ## What has arrived -/

/-- **What the fragments so far make up** is told by the number of their symbols. -/
theorem regroup_arrived (h : ∀ m ∈ messages, m ≠ [] ∧ ∀ d ∈ m, d ≠ [])
    (hl : l <+: stream messages) :
    (regroup [] l).1.map symbols
        = (arrived (messages.map List.flatten) (symbols l).length).1 ∧
      symbols (regroup [] l).2
        = (arrived (messages.map List.flatten) (symbols l).length).2 := by
  unfold stream at hl
  induction messages generalizing l with
  | nil =>
      obtain rfl := List.prefix_nil.mp hl
      exact ⟨rfl, rfl⟩
  | cons m ms ih =>
      obtain ⟨hne, hpieces⟩ := h m List.mem_cons_self
      rw [List.map_cons, arrived]
      obtain ⟨r, hr⟩ := hl
      rw [List.flatMap_cons] at hr
      rcases List.append_eq_append_iff.mp hr with ⟨l', hcut, -⟩ | ⟨l', rfl, hrest⟩
      · by_cases hempty : l' = []
        · -- the message is complete, and there is no more
          rw [hempty, List.append_nil] at hcut
          have hall : (symbols l).length = m.flatten.length := by rw [← hcut, symbols_cut]
          obtain ⟨h1, h2⟩ := ih (fun m' hm => h m' (List.mem_cons_of_mem m hm))
            List.nil_prefix
          rw [if_pos hall.ge, hall, Nat.sub_self, ← hcut, regroup_cut hne, List.map_cons,
            List.nil_append, symbols_cut]
          exact ⟨congrArg _ h1, h2⟩
        · have hlen : m.flatten = symbols l ++ symbols l' := by
            rw [← symbols_cut true m, hcut, symbols_append]
          have hpos : symbols l' ≠ [] := by
            obtain ⟨f, l'', rfl⟩ := List.exists_cons_of_ne_nil hempty
            have hf : f.data ≠ [] := hpieces _ (cut_data (by rw [hcut]; simp))
            simp [hf]
          have hlt : ¬m.flatten.length ≤ (symbols l).length := by
            have := List.length_pos_iff.mpr hpos
            rw [hlen, List.length_append]
            omega
          rw [if_neg hlt, regroup_open (cut_open hcut hempty), hlen, List.take_left]
          exact ⟨rfl, rfl⟩
      · have hlen : (symbols (cut true m ++ l')).length
            = m.flatten.length + (symbols l').length := by
          rw [symbols_append, symbols_cut, List.length_append]
        obtain ⟨h1, h2⟩ := ih (fun m' hm => h m' (List.mem_cons_of_mem m hm)) ⟨r, hrest.symm⟩
        rw [hlen, if_pos (Nat.le_add_right _ _), Nat.add_sub_cancel_left, regroup_append,
          regroup_cut hne]
        simp only [List.nil_append, List.singleton_append, List.map_cons, symbols_cut]
        exact ⟨congrArg _ h1, h2⟩

/-- What has arrived of the next message is not all of it. -/
theorem arrived_short {ms : List (List α)} (n : Nat) (h : (arrived ms n).2 ≠ []) :
    ∃ m ∈ ms, (arrived ms n).2 <+: m := by
  induction ms generalizing n with
  | nil => exact absurd rfl h
  | cons m ms ih =>
      rw [arrived] at h ⊢
      by_cases hle : m.length ≤ n
      · rw [if_pos hle] at h ⊢
        obtain ⟨m', hm, hp⟩ := ih _ h
        exact ⟨m', List.mem_cons_of_mem m hm, hp⟩
      · rw [if_neg hle]
        exact ⟨m, List.mem_cons_self, List.take_prefix n m⟩

end Fragments
