import Mathlib.Tactic

set_option autoImplicit false
set_option linter.unusedSectionVars false

/-! # Stores of blocks and the transfer of their ownership

A store hands out blocks of memory and takes them back. Which block an allocation returns,
and whether it succeeds, is up to a `Policy`: it may depend on everything that has happened
so far, and only must not return a block in use.

A program that passes buffers on by pointers is described by what it gives up and what it
keeps: `Transfer s s' xs ys` says that from `s` to `s'` the blocks `xs` were used up, the
blocks `ys` are left in their place, and **every other block in use is untouched**. Transfers
compose (`Transfer.trans`) and extend to a larger context (`Transfer.frame`).
-/

namespace BlockStore

/-- A store: the blocks in use, and for each block the recorded length, 16 bits wide, and the
bytes. The counters are the number of allocations asked for, of those refused, and of
releases of a block that was not in use. -/
structure Store (β : Type) where
  inUse : Multiset β
  length : β → Nat
  bytes : β → Nat → UInt8
  clock : Nat
  failures : Nat
  misuses : Nat
  deriving Inhabited

/-- What an allocation returns at a time, given the blocks in use and the size asked for, and
how many bytes each block has. -/
structure Policy (β : Type) where
  choose : Nat → Multiset β → Nat → Option β
  size : β → Nat
  fresh : ∀ {t us n b}, choose t us n = some b → b ∉ us

/-- How many bytes the blocks really have: as many as were asked for, at least as many as
`size` says, and never as many as half of the address space. -/
structure Capacity {β : Type} (P : Policy β) where
  of : β → Nat
  alloc : ∀ {t us n b}, P.choose t us n = some b → n ≤ of b
  size : ∀ b, P.size b ≤ of b
  bound : ∀ b, of b < 2 ^ 31

/-- A policy that never refuses: it returns an address above those in use. -/
def freshPolicy : Policy Nat where
  choose _ us _ := some (us.sum + 1)
  size _ := 2 ^ 16 - 1
  fresh := by
    intro t us n b h hb
    have hle : b ≤ us.sum := Multiset.le_sum_of_mem hb
    have : us.sum + 1 = b := Option.some.inj h
    omega

variable {β : Type} [DecidableEq β]

namespace Store

/-! ## Operations -/

/-- Ask for a block of `n` bytes. Its bytes are what they were. -/
def alloc (P : Policy β) (s : Store β) (n : Nat) : Store β × Option β :=
  match P.choose s.clock s.inUse n with
  | some b =>
      ({ s with
          inUse := b ::ₘ s.inUse
          length := Function.update s.length b (n % 2 ^ 16)
          clock := s.clock + 1 }, some b)
  | none => ({ s with clock := s.clock + 1, failures := s.failures + 1 }, none)

/-- Give a block back. -/
def release (s : Store β) (b : β) : Store β :=
  if b ∈ s.inUse then
    { s with inUse := s.inUse.erase b, length := Function.update s.length b 0 }
  else { s with misuses := s.misuses + 1 }

/-- Give a block back, if there is one. -/
def release? (s : Store β) : Option β → Store β
  | some b => s.release b
  | none => s

/-- Overwrite the first `n` bytes of a block. -/
def write (s : Store β) (b : β) (f : Nat → UInt8) (n : Nat) : Store β :=
  { s with
    bytes := Function.update s.bytes b fun k => if k < n then f k else s.bytes b k }

def setLength (s : Store β) (b : β) (n : Nat) : Store β :=
  { s with length := Function.update s.length b n }

/-- Remove the first `n` of the recorded bytes of a block, or all of them. -/
def dropFront (s : Store β) (b : β) (n : Nat) : Store β :=
  if s.length b = 0 then s
  else if n > s.length b then s.setLength b 0
  else
    let len := s.length b
    { s with
      bytes := Function.update s.bytes b fun k =>
        if k < len - n then s.bytes b (n + k) else s.bytes b k
      length := Function.update s.length b (len - n) }

/-- The bytes of `a` followed by those of `b`. -/
def joined (s : Store β) (a b : β) : Nat → UInt8 :=
  fun k => if k < s.length a then s.bytes a k else s.bytes b (k - s.length a)

/-- Join two blocks: into the first, into the second, or into a new one. What is not the
result is given back. -/
def join (P : Policy β) (s : Store β) (a b : β) : Store β × Option β :=
  let n := s.length a + s.length b
  if P.size a ≥ n then
    (((s.write a (s.joined a b) n).setLength a (n % 2 ^ 16)).release b, some a)
  else if P.size b ≥ n then
    (((s.write b (s.joined a b) n).setLength b (n % 2 ^ 16)).release a, some b)
  else
    match s.alloc P n with
    | (s', some c) => (((s'.write c (s.joined a b) n).release a).release b, some c)
    | (s', none) => ((s'.release a).release b, none)

/-- Blocks of these sizes would be handed out, one after the other. -/
def grants (P : Policy β) : Store β → List Nat → Bool
  | _, [] => true
  | s, n :: ns => (s.alloc P n).2.isSome && grants P (s.alloc P n).1 ns

/-- The recorded bytes of a block. -/
def contents (s : Store β) (b : β) : List UInt8 :=
  (List.range (s.length b)).map (s.bytes b)

end Store

open Store

/-! ## Transfers -/

/-- The blocks `rest` are untouched, and `ys` are the others in use. -/
structure Keeps (s s' : Store β) (ys rest : Multiset β) : Prop where
  inUse : s'.inUse = ys + rest
  nodup : s'.inUse.Nodup
  misuses : s'.misuses = s.misuses
  length : ∀ b ∈ rest, s'.length b = s.length b
  bytes : ∀ b ∈ rest, s'.bytes b = s.bytes b

/-- From `s` to `s'` the blocks `xs` turned into `ys`, whatever else is in use. -/
structure Transfer (s s' : Store β) (xs ys : Multiset β) : Prop where
  failures : s.failures ≤ s'.failures
  keeps : ∀ rest, s.inUse.Nodup → s.inUse = xs + rest → Keeps s s' ys rest

section Rules

variable {s s' s'' : Store β} {xs ys zs : Multiset β} {b : β}

theorem Transfer.refl (s : Store β) (xs : Multiset β) : Transfer s s xs xs :=
  ⟨le_rfl, fun _ hn he => ⟨he, hn, rfl, fun _ _ => rfl, fun _ _ => rfl⟩⟩

/-- **Sequencing.** The second transfer uses up `ys'` out of what the first one left; the
others, `f`, are left as well. -/
theorem Transfer.trans {ys' f : Multiset β} (h : Transfer s s' xs ys)
    (h' : Transfer s' s'' ys' zs) (hy : ys = ys' + f) : Transfer s s'' xs (zs + f) := by
  refine ⟨h.failures.trans h'.failures, fun rest hn he => ?_⟩
  have h1 := h.keeps rest hn he
  have he1 : s'.inUse = ys' + (f + rest) := by rw [h1.inUse, hy, add_assoc]
  have h2 := h'.keeps (f + rest) h1.nodup he1
  constructor
  · rw [h2.inUse, add_assoc]
  · exact h2.nodup
  · exact h2.misuses.trans h1.misuses
  · intro b hb
    rw [h2.length b (Multiset.mem_add.mpr (Or.inr hb)), h1.length b hb]
  · intro b hb
    rw [h2.bytes b (Multiset.mem_add.mpr (Or.inr hb)), h1.bytes b hb]

/-- Sequencing where the second transfer uses up all that the first one left. -/
theorem Transfer.seq (h : Transfer s s' xs ys) (h' : Transfer s' s'' ys zs) :
    Transfer s s'' xs zs := by
  simpa using h.trans h' (add_zero ys).symm

/-- **The frame rule.** -/
theorem Transfer.frame (h : Transfer s s' xs ys) (f : Multiset β) :
    Transfer s s' (xs + f) (ys + f) := by
  refine ⟨h.failures, fun rest hn he => ?_⟩
  have h1 := h.keeps (f + rest) hn (by rw [he, add_assoc])
  constructor
  · rw [h1.inUse, add_assoc]
  · exact h1.nodup
  · exact h1.misuses
  · exact fun b hb => h1.length b (Multiset.mem_add.mpr (Or.inr hb))
  · exact fun b hb => h1.bytes b (Multiset.mem_add.mpr (Or.inr hb))

/-- `xs` and `ys` are only given up to equality. -/
theorem Transfer.congr {xs' ys' : Multiset β} (h : Transfer s s' xs ys) (hx : xs = xs')
    (hy : ys = ys') : Transfer s s' xs' ys' := hx ▸ hy ▸ h

/-- Stores that agree on everything but the clock. -/
theorem Transfer.of_eq (hu : s'.inUse = s.inUse) (hl : s'.length = s.length)
    (hb : s'.bytes = s.bytes) (hf : s.failures ≤ s'.failures) (hm : s'.misuses = s.misuses)
    (xs : Multiset β) : Transfer s s' xs xs :=
  ⟨hf, fun _ hn he =>
    ⟨hu.trans he, hu ▸ hn, hm, fun _ _ => by rw [hl], fun _ _ => by rw [hb]⟩⟩

/-! ### The operations -/

theorem alloc_transfer (P : Policy β) (s : Store β) (n : Nat) :
    Transfer s (s.alloc P n).1 0 ((s.alloc P n).2.elim 0 fun b => {b}) := by
  cases hc : P.choose s.clock s.inUse n with
  | none =>
      have he : s.alloc P n
          = ({ s with clock := s.clock + 1, failures := s.failures + 1 }, none) := by
        rw [alloc, hc]
      rw [he]
      apply Transfer.of_eq
      · rfl
      · rfl
      · rfl
      · exact Nat.le_succ s.failures
      · rfl
  | some b =>
      have he : s.alloc P n = ({ s with
          inUse := b ::ₘ s.inUse
          length := Function.update s.length b (n % 2 ^ 16)
          clock := s.clock + 1 }, some b) := by
        rw [alloc, hc]
      have hb := P.fresh hc
      rw [he]
      refine ⟨le_rfl, fun rest hn hrest => ?_⟩
      rw [zero_add] at hrest
      constructor
      · show b ::ₘ s.inUse = {b} + rest
        rw [hrest, Multiset.singleton_add]
      · exact Multiset.nodup_cons.mpr ⟨hb, hn⟩
      · rfl
      · intro c hc
        have hne : c ≠ b := fun h => hb (by rw [hrest, ← h]; exact hc)
        exact Function.update_of_ne hne _ _
      · exact fun _ _ => rfl

theorem alloc_failures (P : Policy β) (s : Store β) (n : Nat) :
    (s.alloc P n).1.failures = s.failures + if (s.alloc P n).2 = none then 1 else 0 := by
  unfold alloc
  split <;> rfl

theorem alloc_some {P : Policy β} {n : Nat} (h : (s.alloc P n).2 = some b) :
    (s.alloc P n).1.length b = n % 2 ^ 16 ∧ (s.alloc P n).1.bytes = s.bytes ∧
      b ∉ s.inUse := by
  cases hc : P.choose s.clock s.inUse n with
  | none => simp [alloc, hc] at h
  | some c =>
      simp only [alloc, hc, Option.some.injEq] at h ⊢
      subst h
      exact ⟨Function.update_self .., trivial, P.fresh hc⟩

theorem alloc_some_inUse {P : Policy β} {n : Nat} (h : (s.alloc P n).2 = some b) :
    (s.alloc P n).1.inUse = b ::ₘ s.inUse ∧ (s.alloc P n).1.failures = s.failures := by
  cases hc : P.choose s.clock s.inUse n with
  | none => simp [alloc, hc] at h
  | some c =>
      simp only [alloc, hc, Option.some.injEq] at h ⊢
      subst h
      exact ⟨rfl, trivial⟩

/-- Whether a block is handed out depends on the blocks in use and on the clock. -/
theorem grants_congr {P : Policy β} {ns : List Nat} (hc : s'.clock = s.clock)
    (hu : s'.inUse = s.inUse) : s'.grants P ns = s.grants P ns := by
  induction ns generalizing s s' with
  | nil => rfl
  | cons n ns ih =>
      unfold grants alloc
      rw [hc, hu]
      cases P.choose s.clock s.inUse n with
      | none => rfl
      | some b => exact congrArg (true && ·) (ih rfl rfl)

/-- A change of the bytes and of the recorded length of one block. -/
theorem Transfer.of_local (hu : s'.inUse = s.inUse) (hf : s'.failures = s.failures)
    (hm : s'.misuses = s.misuses) (hl : ∀ c, c ≠ b → s'.length c = s.length c)
    (hb : ∀ c, c ≠ b → s'.bytes c = s.bytes c) : Transfer s s' {b} {b} := by
  refine ⟨hf.ge, fun rest hn he => ?_⟩
  have hne : ∀ c ∈ rest, c ≠ b := by
    rintro c hc rfl
    rw [he, Multiset.singleton_add] at hn
    exact (Multiset.nodup_cons.mp hn).1 hc
  exact ⟨hu.trans he, hu ▸ hn, hm, fun c hc => hl c (hne c hc), fun c hc => hb c (hne c hc)⟩

theorem write_transfer (s : Store β) (b : β) (f : Nat → UInt8) (n : Nat) :
    Transfer s (s.write b f n) {b} {b} :=
  .of_local rfl rfl rfl (fun _ _ => rfl) fun _ hc => Function.update_of_ne hc _ _

theorem setLength_transfer (s : Store β) (b : β) (n : Nat) :
    Transfer s (s.setLength b n) {b} {b} :=
  .of_local rfl rfl rfl (fun _ hc => Function.update_of_ne hc _ _) fun _ _ => rfl

theorem dropFront_transfer (s : Store β) (b : β) (n : Nat) :
    Transfer s (s.dropFront b n) {b} {b} := by
  unfold dropFront
  split
  · exact .refl s _
  · split
    · exact setLength_transfer s b 0
    · exact .of_local rfl rfl rfl (fun _ hc => Function.update_of_ne hc _ _)
        fun _ hc => Function.update_of_ne hc _ _

theorem release_transfer (s : Store β) (b : β) : Transfer s (s.release b) {b} 0 := by
  refine ⟨?_, fun rest hn he => ?_⟩
  · unfold release
    split <;> exact le_rfl
  · have hmem : b ∈ s.inUse := by rw [he]; simp
    have hns : b ∉ rest := by
      rw [he, Multiset.singleton_add] at hn
      exact (Multiset.nodup_cons.mp hn).1
    rw [release, if_pos hmem]
    constructor
    · show s.inUse.erase b = 0 + rest
      rw [he, Multiset.singleton_add, Multiset.erase_cons_head, zero_add]
    · exact hn.erase b
    · rfl
    · intro c hc
      have hne : c ≠ b := fun h => hns (h ▸ hc)
      exact Function.update_of_ne hne _ _
    · exact fun _ _ => rfl

theorem release?_transfer (s : Store β) (o : Option β) :
    Transfer s (s.release? o) (o.elim 0 fun b => {b}) 0 := by
  cases o with
  | none => exact .refl s 0
  | some b => exact release_transfer s b

/-- Releasing two blocks. -/
theorem release_two_transfer (s : Store β) (a b : β) :
    Transfer s ((s.release a).release b) ({a} + {b}) 0 := by
  have h := ((release_transfer s a).frame {b}).trans (release_transfer (s.release a) b)
    (show (0 : Multiset β) + {b} = {b} + 0 by simp)
  simpa using h

theorem join_transfer (P : Policy β) (s : Store β) (a b : β) :
    Transfer s (s.join P a b).1 ({a} + {b}) ((s.join P a b).2.elim 0 fun c => {c}) := by
  -- write and set the length of one of the two, release the other
  have into : ∀ (x y : β) (f : Nat → UInt8) (n m : Nat),
      Transfer s (((s.write x f n).setLength x m).release y) ({x} + {y}) {x} := by
    intro x y f n m
    have h1 : Transfer s ((s.write x f n).setLength x m) {x} {x} :=
      (write_transfer s x f n).seq (setLength_transfer _ x m)
    have h2 := (h1.frame {y}).trans (release_transfer _ y) (add_comm _ _)
    simpa using h2
  unfold join
  simp only
  split
  · exact into a b _ _ _
  · split
    · exact (into b a _ _ _).congr (add_comm _ _) rfl
    · have ha := alloc_transfer P s (s.length a + s.length b)
      have hframe := ha.frame ({a} + {b})
      cases hr : s.alloc P (s.length a + s.length b) with
      | mk s1 o =>
          rw [hr] at hframe
          cases o with
          | none =>
              have h := hframe.trans (release_two_transfer s1 a b)
                (show (0 : Multiset β) + ({a} + {b}) = {a} + {b} + 0 by simp)
              simpa using h
          | some c =>
              have hw := (write_transfer s1 c (s.joined a b) (s.length a + s.length b)).frame
                ({a} + {b})
              have h := (hframe.seq hw).trans (release_two_transfer _ a b) (add_comm _ _)
              simpa using h

/-! ## Transfers without refused allocations

What a program does with its blocks when an allocation is refused is often different.
`Moves` promises a transfer only if none was. -/

/-- From `s` to `s'` the blocks `xs` turned into `ys`, if no allocation was refused. -/
structure Moves (s s' : Store β) (xs ys : Multiset β) : Prop where
  failures : s.failures ≤ s'.failures
  transfer : s'.failures = s.failures → Transfer s s' xs ys

theorem Transfer.moves (h : Transfer s s' xs ys) : Moves s s' xs ys :=
  ⟨h.failures, fun _ => h⟩

/-- A refused allocation: nothing is promised. -/
theorem Moves.refused (h : s.failures < s'.failures) : Moves s s' xs ys :=
  ⟨h.le, fun he => absurd he h.ne'⟩

theorem Moves.refl (s : Store β) (xs : Multiset β) : Moves s s xs xs :=
  (Transfer.refl s xs).moves

theorem Moves.trans {ys' f : Multiset β} (h : Moves s s' xs ys) (h' : Moves s' s'' ys' zs)
    (hy : ys = ys' + f) : Moves s s'' xs (zs + f) := by
  refine ⟨h.failures.trans h'.failures, fun he => ?_⟩
  have h1 := h.failures
  have h2 := h'.failures
  exact (h.transfer (by omega)).trans (h'.transfer (by omega)) hy

theorem Moves.seq (h : Moves s s' xs ys) (h' : Moves s' s'' ys zs) : Moves s s'' xs zs := by
  simpa using h.trans h' (add_zero ys).symm

theorem Moves.frame (h : Moves s s' xs ys) (f : Multiset β) :
    Moves s s' (xs + f) (ys + f) :=
  ⟨h.failures, fun he => (h.transfer he).frame f⟩

theorem Moves.congr {xs' ys' : Multiset β} (h : Moves s s' xs ys) (hx : xs = xs')
    (hy : ys = ys') : Moves s s' xs' ys' := hx ▸ hy ▸ h

theorem alloc_moves {P : Policy β} {n : Nat} (h : (s.alloc P n).2 = some b) :
    Moves s (s.alloc P n).1 0 {b} := by
  have ht := alloc_transfer P s n
  rw [h] at ht
  exact ht.moves

theorem alloc_refused {P : Policy β} {n : Nat} (h : (s.alloc P n).2 = none) :
    s.failures < (s.alloc P n).1.failures := by
  rw [alloc_failures, if_pos h]
  exact Nat.lt_succ_self _

theorem release_failures (s : Store β) (b : β) : (s.release b).failures = s.failures := by
  unfold release
  split <;> rfl

theorem release_bytes (s : Store β) (b : β) : (s.release b).bytes = s.bytes := by
  unfold release
  split <;> rfl

theorem release?_bytes (s : Store β) (o : Option β) : (s.release? o).bytes = s.bytes := by
  cases o with
  | none => rfl
  | some b => exact release_bytes s b

theorem dropFront_failures (s : Store β) (b : β) (n : Nat) :
    (s.dropFront b n).failures = s.failures := by
  unfold dropFront
  split_ifs <;> rfl

/-- Without memory for the result, the join of two blocks is refused. -/
theorem join_refused {P : Policy β} {a : β} (h : (s.join P a b).2 = none) :
    s.failures < (s.join P a b).1.failures := by
  unfold join at h ⊢
  simp only at h ⊢
  by_cases ha : P.size a ≥ s.length a + s.length b
  · rw [if_pos ha] at h
    simp at h
  · rw [if_neg ha] at h ⊢
    by_cases hb : P.size b ≥ s.length a + s.length b
    · rw [if_pos hb] at h
      simp at h
    · rw [if_neg hb] at h ⊢
      cases hr : s.alloc P (s.length a + s.length b) with
      | mk t o =>
          rw [hr] at h
          cases o with
          | none =>
              have hlt := alloc_refused (show (s.alloc P (s.length a + s.length b)).2 = none by
                rw [hr])
              rw [hr] at hlt
              simpa only [release_failures] using hlt
          | some c => simp at h

theorem release_length {s : Store β} {b c : β} (h : c ≠ b) :
    (s.release b).length c = s.length c := by
  unfold release
  split
  · exact Function.update_of_ne h _ _
  · rfl

theorem release?_length {s : Store β} {o : Option β} {c : β} (h : o ≠ some c) :
    (s.release? o).length c = s.length c := by
  cases o with
  | none => rfl
  | some b =>
      apply release_length
      rintro rfl
      exact h rfl

/-- **What a join makes**: the bytes of the two blocks one after the other. -/
theorem join_contents {P : Policy β} {a b c : β} (ha : a ∈ s.inUse) (hb : b ∈ s.inUse)
    (hab : a ≠ b) (h : s.join P a b = (s', some c)) :
    (∀ k < s.length a + s.length b, s'.bytes c k = s.joined a b k) ∧
      s'.length c = (s.length a + s.length b) % 2 ^ 16 := by
  -- into one of the two blocks
  have into : ∀ x y : β, x ≠ y →
      let t := ((s.write x (s.joined a b) (s.length a + s.length b)).setLength x
        ((s.length a + s.length b) % 2 ^ 16)).release y
      (∀ k < s.length a + s.length b, t.bytes x k = s.joined a b k) ∧
        t.length x = (s.length a + s.length b) % 2 ^ 16 := by
    intro x y hxy t
    constructor
    · intro k hk
      rw [show t.bytes = _ from release_bytes _ y]
      show Function.update s.bytes x _ x k = _
      rw [Function.update_self, if_pos hk]
    · rw [show t.length x = _ from release_length hxy]
      exact Function.update_self ..
  unfold join at h
  simp only at h
  by_cases h1 : P.size a ≥ s.length a + s.length b
  · rw [if_pos h1] at h
    obtain ⟨rfl, hc⟩ := Prod.mk.inj h
    obtain rfl : a = c := Option.some.inj hc
    exact into a b hab
  rw [if_neg h1] at h
  by_cases h2 : P.size b ≥ s.length a + s.length b
  · rw [if_pos h2] at h
    obtain ⟨rfl, hc⟩ := Prod.mk.inj h
    obtain rfl : b = c := Option.some.inj hc
    exact into b a hab.symm
  rw [if_neg h2] at h
  cases hr : s.alloc P (s.length a + s.length b) with
  | mk t o =>
      rw [hr] at h
      cases o with
      | none => simp at h
      | some d =>
          obtain ⟨rfl, hc⟩ := Prod.mk.inj h
          obtain rfl : d = c := Option.some.inj hc
          have hsome : (s.alloc P (s.length a + s.length b)).2 = some d := by rw [hr]
          obtain ⟨hl, -, hfresh⟩ := alloc_some hsome
          rw [hr] at hl
          constructor
          · intro k hk
            rw [release_bytes, release_bytes]
            show Function.update t.bytes d _ d k = _
            rw [Function.update_self, if_pos hk]
          · rw [release_length (ne_of_mem_of_not_mem hb hfresh).symm,
              release_length (ne_of_mem_of_not_mem ha hfresh).symm]
            exact hl

/-- What is in use keeps its length when a block is allocated. -/
theorem alloc_length {P : Policy β} {n : Nat} {c : β} (hc : c ∈ s.inUse) :
    (s.alloc P n).1.length c = s.length c ∧ c ∈ (s.alloc P n).1.inUse := by
  cases hch : P.choose s.clock s.inUse n with
  | none => simp [alloc, hch, hc]
  | some b =>
      have hne : c ≠ b := fun h => P.fresh hch (h ▸ hc)
      simp [alloc, hch, hc, Function.update_of_ne hne]

/-! ### Capacities -/

theorem alloc_capacity {P : Policy β} (room : Capacity P) {n : Nat}
    (h : (s.alloc P n).2 = some b) : n ≤ room.of b := by
  cases hc : P.choose s.clock s.inUse n with
  | none => simp [alloc, hc] at h
  | some c =>
      simp only [alloc, hc, Option.some.injEq] at h
      subst h
      exact room.alloc hc

/-- The result of a join has room for both. -/
theorem join_capacity {P : Policy β} (room : Capacity P) {a b c : β}
    (h : s.join P a b = (s', some c)) : s.length a + s.length b ≤ room.of c := by
  unfold join at h
  simp only at h
  by_cases h1 : P.size a ≥ s.length a + s.length b
  · rw [if_pos h1] at h
    obtain rfl : a = c := Option.some.inj (Prod.mk.inj h).2
    exact h1.trans (room.size a)
  rw [if_neg h1] at h
  by_cases h2 : P.size b ≥ s.length a + s.length b
  · rw [if_pos h2] at h
    obtain rfl : b = c := Option.some.inj (Prod.mk.inj h).2
    exact h2.trans (room.size b)
  rw [if_neg h2] at h
  cases hr : s.alloc P (s.length a + s.length b) with
  | mk t o =>
      rw [hr] at h
      cases o with
      | none => simp at h
      | some d =>
          obtain rfl : d = c := Option.some.inj (Prod.mk.inj h).2
          exact alloc_capacity room (by rw [hr])

end Rules

/-! ## Releases -/

/-- From `m` to `m'` blocks are only released. -/
def Released (m m' : Store β) : Prop :=
  m.inUse.Nodup → m'.inUse.Nodup ∧ ∀ b ∈ m'.inUse, b ∈ m.inUse ∧ m'.length b = m.length b

theorem Released.refl (m : Store β) : Released m m :=
  fun hn => ⟨hn, fun _ hb => ⟨hb, rfl⟩⟩

theorem Released.trans {m m' m'' : Store β} (h : Released m m') (h' : Released m' m'') :
    Released m m'' := by
  intro hn
  obtain ⟨hn1, h1⟩ := h hn
  obtain ⟨hn2, h2⟩ := h' hn1
  refine ⟨hn2, fun b hb => ?_⟩
  obtain ⟨hin2, hl2⟩ := h2 b hb
  obtain ⟨hin1, hl1⟩ := h1 b hin2
  exact ⟨hin1, hl2.trans hl1⟩

theorem release_released (m : Store β) (b : β) : Released m (m.release b) := by
  intro hn
  unfold Store.release
  by_cases hb : b ∈ m.inUse
  · rw [if_pos hb]
    refine ⟨hn.erase b, fun c hc => ?_⟩
    have hne : c ≠ b := by
      rintro rfl
      exact hn.notMem_erase hc
    exact ⟨Multiset.mem_of_mem_erase hc, Function.update_of_ne hne _ _⟩
  · rw [if_neg hb]
    exact ⟨hn, fun c hc => ⟨hc, rfl⟩⟩

theorem release?_released (m : Store β) (o : Option β) : Released m (m.release? o) := by
  cases o with
  | none => exact .refl m
  | some b => exact release_released m b

end BlockStore
