import LteUlp.Mempool.Selection

set_option autoImplicit false

/-! # The sizes that the headers record

A header records the capacity of its block and the number of data bytes in it, each in 16
bits. Over a run of calls, `held b` counts the data bytes of the buffer `b`: what was asked
for, joined and removed. `HeldRun.faithful_iff` says that in all states of a run all headers
record the capacities and these numbers, exactly if each call meets the condition `Records`: it
takes no block of 65536 bytes or more, and no more than 65535 bytes of it.
-/

namespace LteUlp.Mempool

open Intrusive

/-! ## Data bytes -/

/-- The data bytes left of `n` after `MemRemove` of `count` bytes at `wher`. -/
def leftAfter (n wher count : Nat) : Nat := if wher ≥ n then n else n - min count (n - wher)

/-- The data bytes of the buffers after a call that returned `out`. -/
def heldAfter (held : Block → Nat) (out : Option Block) : MemOp → Block → Nat
  | .memAlloc n => out.elim held fun b => Function.update held b n
  | .memFree _ => held
  | .memJoin (some a) (some b) => out.elim held fun r => Function.update held r (held a + held b)
  | .memJoin _ _ => held
  | .memRemove pBuffer wher count =>
      pBuffer.elim held fun b => Function.update held b (leftAfter (held b) wher count)

/-- The pool, the buffers that the callers hold, and the data bytes in them. -/
structure Buffers where
  pool : Pool
  owned : List Block
  held : Block → Nat

/-- The headers tell the capacities and the numbers of data bytes. -/
def Faithful (config : Nat → MemPoolConfig) (s : Buffers) : Prop :=
  ∀ b ∈ s.owned, memGetLength s.pool (some b) = s.held b ∧
    memGetSize s.pool (some b) = capacity config b

/-! ## Runs -/

/-- The buffers that are joined are different ones. -/
def MemOp.Apart : MemOp → Prop
  | .memJoin (some a) (some b) => a ≠ b
  | _ => True

/-- Runs from `InitMemPool` on: calls of the pool, and writes of the callers to their buffers.
`calls` are the calls with the states in which they were made, `states` the states that were
reached, the last one first. -/
inductive HeldRun (config : Nat → MemPoolConfig) (order : Nat → List Nat) (p0 : Pool) :
    List (Pool × MemOp) → List Buffers → Prop
  | init : HeldRun config order p0 [] [⟨initMemPool config p0, [], fun _ => 0⟩]
  | call {calls : List (Pool × MemOp)} {s : Buffers} {past : List Buffers} {op : MemOp}
      {p' : Pool} {out : Option Block} : HeldRun config order p0 calls (s :: past) →
      op.Legal config s.owned → op.Apart → memStep config order s.pool op = some (p', out) →
      HeldRun config order p0 ((s.pool, op) :: calls)
        (⟨p', ownedAfter s.owned p' out op, heldAfter s.held out op⟩ :: s :: past)
  | write {calls : List (Pool × MemOp)} {s : Buffers} {past : List Buffers}
      (bytes : Block → Nat → UInt8) : HeldRun config order p0 calls (s :: past) →
      HeldRun config order p0 calls
        ({ s with pool := { s.pool with bytes := bytes } } :: s :: past)

/-! ## The condition -/

/-- There is no block for `n` bytes, or they fit into 16 bits and there is a block for them
whose capacity does as well. -/
def RecordsAlloc (config : Nat → MemPoolConfig) (p : Pool) (n : Nat) : Prop :=
  NoBlockFor config p n ∨ n < 2 ^ 16 ∧
    ∃ i < maxNumPoolSize, n ≤ (config i).size ∧ (config i).size < 2 ^ 16 ∧
      listCount p.lists (some i) ≠ 0

/-- The call can be recorded: it allocates nothing, or what it allocates can be. -/
def Records (config : Nat → MemPoolConfig) (p : Pool) : MemOp → Prop
  | .memAlloc n => RecordsAlloc config p n
  | .memJoin (some a) (some b) =>
      (p.node a).length + (p.node b).length ≤ (p.node a).size ∨
        (p.node a).length + (p.node b).length ≤ (p.node b).size ∨
        RecordsAlloc config p ((p.node a).length + (p.node b).length)
  | _ => True

section Calls

variable {config : Nat → MemPoolConfig} {p p' : Pool} {free : Nat → List Block}
  {owned : List Block} {held : Block → Nat} {a b c : Block}

theorem PoolInv.faithful_iff (h : PoolInv config p free owned) :
    Faithful config ⟨p, owned, held⟩ ↔
      ∀ b ∈ owned, (p.node b).length = held b ∧ capacity config b < 2 ^ 16 := by
  refine forall₂_congr fun b hb => ?_
  have hv := h.ownedValid b hb
  have hsize : (p.node b).size = capacity config b % 2 ^ 16 := (h.header b hv).size
  simp only [memGetLength, memGetSize, h.checkNode_valid hv, hsize]
  refine and_congr_right fun _ => ⟨fun hmod => ?_, Nat.mod_eq_of_lt⟩
  rw [← hmod]
  exact Nat.mod_lt _ (by decide)

/-! ### Allocation -/

/-- The block that `MemAlloc` has taken can be recorded. -/
theorem Taken.records_iff {n : Nat} {xs : List Block} (h : Taken config p n p' b free xs)
    (hcount : ∀ i < maxNumPoolSize, listCount p.lists (some i) = (free i).length) :
    RecordsAlloc config p n ↔ n < 2 ^ 16 ∧ capacity config b < 2 ^ 16 := by
  have hpool : listCount p.lists (some b.pool) ≠ 0 := by
    rw [hcount b.pool h.pool, h.head]
    simp
  constructor
  · rintro (hno | ⟨hlt, i, hi, hn, hsize, hfree⟩)
    · exact absurd (hno b.pool h.pool h.enough) hpool
    · have hle := h.smallest i hi hn (by
        rw [hcount i hi] at hfree
        exact fun hnil => hfree (by rw [hnil]; rfl))
      exact ⟨hlt, by omega⟩
  · rintro ⟨hlt, hcap⟩
    exact .inr ⟨hlt, b.pool, h.pool, h.enough, hcap, hpool⟩

theorem memAlloc_faithful_iff (hinc : Increasing config) (h : PoolInv config p free owned)
    (hf : Faithful config ⟨p, owned, held⟩) (n : Nat) :
    Faithful config ⟨(memAlloc config p n).1,
        ownedAfter owned (memAlloc config p n).1 (memAlloc config p n).2 (.memAlloc n),
        heldAfter held (memAlloc config p n).2 (.memAlloc n)⟩ ↔ RecordsAlloc config p n := by
  rcases memAlloc_spec hinc h n with hnone | ⟨p', b, hsome, hal⟩
  · have hno : NoBlockFor config p n := (memAlloc_none_iff hinc h n).mp (by rw [hnone])
    rw [hnone]
    exact iff_of_true hf (.inl hno)
  · obtain ⟨free', hinv⟩ := hal.inv
    obtain ⟨free1, xs, htaken⟩ := memAlloc_taken hinc h hsome
    have hrecords := htaken.records_iff fun i hi => (htaken.lists i hi).count
    have hin : (p'.node b).isInUsed = 1 := hinv.isInUsed_of_owned (by simp)
    have howned : ownedAfter owned p' (some b) (.memAlloc n) = b :: owned := if_neg (by omega)
    have hself : heldAfter held (some b) (.memAlloc n) b = n := Function.update_self ..
    rw [hsome, hrecords, howned, hinv.faithful_iff, List.forall_mem_cons, hself, hal.length]
    have hold := h.faithful_iff.mp hf
    constructor
    · rintro ⟨⟨hmod, hcap⟩, -⟩
      exact ⟨by omega, hcap⟩
    · rintro ⟨hlt, hcap⟩
      refine ⟨⟨Nat.mod_eq_of_lt hlt, hcap⟩, fun c hc => ?_⟩
      have hcb : c ≠ b := ne_of_mem_of_not_mem hc hal.notOwned
      have hkept : heldAfter held (some b) (.memAlloc n) c = held c :=
        Function.update_of_ne hcb _ _
      rw [hkept, hal.node c hcb]
      exact hold c hc

/-! ### Release and removal -/

theorem memFree_node (p : Pool) (hcb : c ≠ b) : (memFree p (some b)).node c = p.node c := by
  unfold memFree
  split
  · rfl
  · rename_i d hd
    obtain rfl : d = b := by
      unfold checkNode at hd
      split at hd
      · cases hd
      · rename_i d' hd'
        obtain rfl := Option.some.inj hd'
        split at hd
        · cases hd
        · exact (Option.some.inj hd).symm
    simp only
    split
    · exact Function.update_of_ne hcb _ _
    · rfl

/-- A buffer is given away, the headers of the others are the same. -/
theorem Faithful.give (h : PoolInv config p free owned)
    (hf : Faithful config ⟨p, owned, held⟩) {owned' : List Block} {free' : Nat → List Block}
    (h' : PoolInv config p' free' owned') (hsub : ∀ c ∈ owned', c ∈ owned)
    (hnode : ∀ c ∈ owned', (p'.node c).length = (p.node c).length) :
    Faithful config ⟨p', owned', held⟩ := by
  refine h'.faithful_iff.mpr fun c hc => ?_
  rw [hnode c hc]
  exact h.faithful_iff.mp hf c (hsub c hc)

theorem memFree_faithful (h : PoolInv config p free owned)
    (hf : Faithful config ⟨p, owned, held⟩) {pBuffer : Option Block}
    (hb : ∀ b, pBuffer = some b → Valid config b) :
    Faithful config ⟨memFree p pBuffer, give owned pBuffer, held⟩ := by
  cases pBuffer with
  | none => exact hf
  | some b =>
      obtain ⟨free', hinv⟩ := memFree_inv h (hb b rfl)
      refine hf.give h hinv (fun c hc => List.mem_of_mem_erase hc) fun c hc => ?_
      have hcb : c ≠ b := by
        rintro rfl
        exact h.ownedNodup.not_mem_erase hc
      rw [memFree_node p hcb]

theorem memRemove_node (h : PoolInv config p free owned) (hb : Valid config b)
    {wher count n : Nat} (hr : memRemove config p (some b) wher count = some (p', n)) :
    (p'.node b).length = leftAfter (p.node b).length wher count ∧
      ∀ c, c ≠ b → p'.node c = p.node c := by
  have hset : ∀ (q : Pool) (m : Nat), q.node = p.node →
      ((q.setNode b { q.node b with length := m }).node b).length = m ∧
        ∀ c, c ≠ b → (q.setNode b { q.node b with length := m }).node c = p.node c := by
    intro q m hq
    constructor
    · show (Function.update q.node b { q.node b with length := m } b).length = m
      rw [Function.update_self]
    · intro c hc
      rw [← hq]
      exact Function.update_of_ne hc _ _
  unfold leftAfter
  simp only [memRemove, h.checkNode_valid hb] at hr
  by_cases hw : wher ≥ (p.node b).length
  · rw [if_pos hw] at hr ⊢
    obtain ⟨rfl, -⟩ := Prod.mk.inj (Option.some.inj hr)
    exact ⟨rfl, fun _ _ => rfl⟩
  rw [if_neg hw] at hr ⊢
  by_cases hc : count > (p.node b).length - wher
  · rw [if_pos hc] at hr
    obtain ⟨rfl, -⟩ := Prod.mk.inj (Option.some.inj hr)
    rw [Nat.min_eq_right (by omega)]
    exact hset p _ rfl
  · rw [if_neg hc] at hr
    obtain ⟨q, hq, hres⟩ := Option.map_eq_some_iff.mp hr
    obtain ⟨rfl, -⟩ := Prod.mk.inj hres
    have hnode : q.node = p.node := by
      unfold memmove at hq
      split at hq
      · obtain rfl := Option.some.inj hq
        rfl
      · cases hq
    have hlen := hset q ((p.node b).length - count) hnode
    rw [hnode] at hlen
    rw [Nat.min_eq_left (by omega), hnode]
    exact hlen

theorem memRemove_faithful (h : PoolInv config p free owned)
    (hf : Faithful config ⟨p, owned, held⟩) (hb : Valid config b) {wher count n : Nat}
    (hr : memRemove config p (some b) wher count = some (p', n)) :
    Faithful config ⟨p', owned, Function.update held b (leftAfter (held b) wher count)⟩ := by
  obtain ⟨q, m, hq, hinv⟩ := memRemove_spec h hb wher count
  obtain rfl : q = p' := (Prod.mk.inj (Option.some.inj (hq.symm.trans hr))).1
  obtain ⟨hself, hother⟩ := memRemove_node h hb hr
  refine hinv.faithful_iff.mpr fun c hc => ?_
  obtain ⟨hlen, hcap⟩ := h.faithful_iff.mp hf c hc
  refine ⟨?_, hcap⟩
  by_cases hcb : c = b
  · subst hcb
    rw [hself, hlen, Function.update_self]
  · rw [hother c hcb, hlen, Function.update_of_ne hcb]

/-! ### Joining -/

theorem memcpy_node {order : Nat → List Nat} {dst src : Block} {dstOff srcOff n : Nat}
    (hc : memcpy config order p dst dstOff src srcOff n = some p') : p'.node = p.node := by
  unfold memcpy at hc
  split at hc
  · obtain rfl := Option.some.inj hc
    exact (copyLoop_bytesOnly dst src dstOff srcOff (order n) p).node
  · cases hc

/-- **The headers after a join**: those of the buffers in use that take no part in it are the
same. A join in a third block returns what `MemAlloc` returns. -/
theorem memJoin_node (hinc : Increasing config) (order : Nat → List Nat)
    (h : PoolInv config p free owned) (ha : a ∈ owned) (hb : b ∈ owned) {out : Option Block}
    (hj : memJoin config order p (some a) (some b) = some (p', out)) :
    (∀ c ∈ owned, c ≠ a → c ≠ b → p'.node c = p.node c) ∧
      ((p.node a).size < (p.node a).length + (p.node b).length →
        (p.node b).size < (p.node a).length + (p.node b).length →
        out = (memAlloc config p ((p.node a).length + (p.node b).length)).2) := by
  have hset : ∀ (q : Pool) (x y c : Block) (v : MemNode), c ≠ x → c ≠ y →
      (memFree (q.setNode x v) (some y)).node c = q.node c := fun q x y c v hx hy => by
    rw [memFree_node _ hy]
    exact Function.update_of_ne hx _ _
  have hfrees : ∀ (q : Pool) c, c ≠ a → c ≠ b →
      (memFree (memFree q (some a)) (some b)).node c = q.node c := fun q c hca hcb => by
    rw [memFree_node _ hcb, memFree_node _ hca]
  simp only [memJoin, h.checkNode_valid (h.ownedValid a ha),
    h.checkNode_valid (h.ownedValid b hb)] at hj
  split at hj
  · rename_i hfit
    obtain ⟨q, hq, hres⟩ := Option.map_eq_some_iff.mp hj
    obtain ⟨rfl, rfl⟩ := Prod.mk.inj hres
    refine ⟨fun c _ hca hcb => ?_, fun hfull => by omega⟩
    rw [hset q a b c _ hca hcb, memcpy_node hq]
  · split at hj
    · rename_i hfit
      obtain ⟨q, hq, hrest⟩ := Option.bind_eq_some_iff.mp hj
      obtain ⟨q', hq', hres⟩ := Option.map_eq_some_iff.mp hrest
      obtain ⟨rfl, rfl⟩ := Prod.mk.inj hres
      refine ⟨fun c _ hca hcb => ?_, fun _ hfull => by omega⟩
      rw [hset q' b a c _ hcb hca, memcpy_node hq', memcpy_node hq]
    · rcases memAlloc_spec hinc h ((p.node a).length + (p.node b).length) with
        hnone | ⟨p1, r, hsome, hal⟩
      · rw [hnone] at hj ⊢
        obtain ⟨rfl, rfl⟩ := Prod.mk.inj (Option.some.inj hj)
        exact ⟨fun c _ hca hcb => hfrees p c hca hcb, fun _ _ => rfl⟩
      · rw [hsome] at hj ⊢
        obtain ⟨q, hq, hrest⟩ := Option.bind_eq_some_iff.mp hj
        obtain ⟨q', hq', hres⟩ := Option.map_eq_some_iff.mp hrest
        obtain ⟨rfl, rfl⟩ := Prod.mk.inj hres
        refine ⟨fun c hc hca hcb => ?_, fun _ _ => rfl⟩
        rw [hfrees q' c hca hcb, memcpy_node hq', memcpy_node hq,
          hal.node c (ne_of_mem_of_not_mem hc hal.notOwned)]

/-- The joined buffer, if there is one, is as long as the two are together, in 16 bits. -/
theorem memJoin_length (hinc : Increasing config) {order : Nat → List Nat}
    (hord : ∀ n, (order n).Perm (List.range n)) (h : PoolInv config p free owned)
    (ha : a ∈ owned) (hb : b ∈ owned) (hab : a ≠ b) {r : Block}
    (hj : memJoin config order p (some a) (some b) = some (p', some r)) :
    (p'.node r).length = ((p.node a).length + (p.node b).length) % 2 ^ 16 ∧
      ((p.node a).length + (p.node b).length ≤ (p.node a).size ∧ r = a ∨
        (p.node a).length + (p.node b).length ≤ (p.node b).size ∧ r = b ∨
        (p.node a).size < (p.node a).length + (p.node b).length ∧
          (p.node b).size < (p.node a).length + (p.node b).length ∧
          (memAlloc config p ((p.node a).length + (p.node b).length)).2 = some r) := by
  by_cases h1 : (p.node a).length + (p.node b).length ≤ (p.node a).size
  · obtain ⟨q, hq, hm⟩ := memJoin_first order hord h ha hb hab h1
    obtain ⟨rfl, hr⟩ := Prod.mk.inj (Option.some.inj (hq.symm.trans hj))
    obtain rfl := Option.some.inj hr
    exact ⟨hm.length, .inl ⟨h1, rfl⟩⟩
  by_cases h2 : (p.node a).length + (p.node b).length ≤ (p.node b).size
  · obtain ⟨q, hq, hm⟩ := memJoin_second order hord h ha hb hab (by omega) h2
    obtain ⟨rfl, hr⟩ := Prod.mk.inj (Option.some.inj (hq.symm.trans hj))
    obtain rfl := Option.some.inj hr
    exact ⟨hm.length, .inr (.inl ⟨h2, rfl⟩)⟩
  have hthird := memJoin_third order hinc hord h ha hb hab (by omega) (by omega)
  have hout := (memJoin_node hinc order h ha hb hj).2 (by omega) (by omega)
  have hblock : ¬ NoBlockFor config p ((p.node a).length + (p.node b).length) := fun hno => by
    obtain ⟨q, hq, -⟩ := hthird.1 hno
    cases (Prod.mk.inj (Option.some.inj (hq.symm.trans hj))).2
  obtain ⟨q, r', hq, hm⟩ := hthird.2 hblock
  obtain ⟨rfl, hr⟩ := Prod.mk.inj (Option.some.inj (hq.symm.trans hj))
  obtain rfl := Option.some.inj hr
  exact ⟨hm.length, .inr (.inr ⟨by omega, by omega, hout.symm⟩)⟩

/-- **The header of a joined buffer** tells the truth exactly if the join can be recorded. -/
theorem memJoin_faithful_iff (hinc : Increasing config) {order : Nat → List Nat}
    (hord : ∀ n, (order n).Perm (List.range n)) (h : PoolInv config p free owned)
    (hf : Faithful config ⟨p, owned, held⟩) (ha : a ∈ owned) (hb : b ∈ owned)
    (hab : a ≠ b) {out : Option Block}
    (hj : memJoin config order p (some a) (some b) = some (p', out)) :
    Faithful config ⟨p', ownedAfter owned p' out (.memJoin (some a) (some b)),
        heldAfter held out (.memJoin (some a) (some b))⟩ ↔
      Records config p (.memJoin (some a) (some b)) := by
  have hold := h.faithful_iff.mp hf
  obtain ⟨q, out', hq, ⟨free', hinv⟩, huse⟩ := memJoin_spec hinc order h ha hb
  obtain ⟨rfl, rfl⟩ := Prod.mk.inj (Option.some.inj (hq.symm.trans hj))
  obtain ⟨hnode, hthird⟩ := memJoin_node hinc order h ha hb hj
  -- the buffers that are neither `a` nor `b`
  have hrest : ∀ c ∈ (owned.erase a).erase b, c ∈ owned ∧ c ≠ a ∧ c ≠ b := by
    intro c hc
    have hca := List.mem_of_mem_erase hc
    refine ⟨List.mem_of_mem_erase hca, ?_, ?_⟩
    · rintro rfl
      exact h.ownedNodup.not_mem_erase hca
    · rintro rfl
      exact (h.ownedNodup.erase a).not_mem_erase hc
  cases out' with
  | none =>
      refine iff_of_true ?_ ?_
      · refine hf.give h hinv (fun c hc => (hrest c hc).1) fun c hc => ?_
        obtain ⟨hc, hca, hcb⟩ := hrest c hc
        rw [hnode c hc hca hcb]
      · by_cases h1 : (p.node a).length + (p.node b).length ≤ (p.node a).size
        · exact .inl h1
        by_cases h2 : (p.node a).length + (p.node b).length ≤ (p.node b).size
        · exact .inr (.inl h2)
        have hnone := (hthird (by omega) (by omega)).symm
        exact .inr (.inr (.inl ((memAlloc_none_iff hinc h _).mp hnone)))
  | some r =>
      obtain ⟨hlen, hway⟩ := memJoin_length hinc hord h ha hb hab hj
      have hin := huse hab r rfl
      have howned : ownedAfter owned q (some r) (.memJoin (some a) (some b))
          = r :: (owned.erase a).erase b := if_neg (by omega)
      have hinv' : PoolInv config q free' (r :: (owned.erase a).erase b) := howned ▸ hinv
      have hnew : r ∉ (owned.erase a).erase b := (List.nodup_cons.mp hinv'.ownedNodup).1
      have hself : heldAfter held (some r) (.memJoin (some a) (some b)) r = held a + held b :=
        Function.update_self ..
      have hother : ∀ c ∈ (owned.erase a).erase b, (q.node c).length
          = heldAfter held (some r) (.memJoin (some a) (some b)) c ∧
            capacity config c < 2 ^ 16 := by
        intro c hc
        have hcr : c ≠ r := ne_of_mem_of_not_mem hc hnew
        have hkept : heldAfter held (some r) (.memJoin (some a) (some b)) c = held c :=
          Function.update_of_ne hcr _ _
        obtain ⟨hc, hca, hcb⟩ := hrest c hc
        rw [hkept, hnode c hc hca hcb]
        exact hold c hc
      rw [howned, hinv'.faithful_iff, List.forall_mem_cons, hself, hlen, ← (hold a ha).1,
        ← (hold b hb).1, and_iff_left hother]
      have hsa := h.size_lt ha
      have hsb := h.size_lt hb
      have hca := (hold a ha).2
      have hcb := (hold b hb).2
      rcases hway with ⟨hfit, rfl⟩ | ⟨hfit, rfl⟩ | ⟨hfullA, hfullB, hsome⟩
      · exact iff_of_true ⟨Nat.mod_eq_of_lt (by omega), hca⟩ (.inl hfit)
      · exact iff_of_true ⟨Nat.mod_eq_of_lt (by omega), hcb⟩ (.inr (.inl hfit))
      · obtain ⟨free1, xs, htaken⟩ := memAlloc_taken hinc h
          (Prod.ext rfl hsome : memAlloc config p _ = (_, some r))
        have hrecords := htaken.records_iff fun i hi => (htaken.lists i hi).count
        have hiff : Records config p (.memJoin (some a) (some b)) ↔
            RecordsAlloc config p ((p.node a).length + (p.node b).length) := by
          refine ⟨fun hr => ?_, fun hr => .inr (.inr hr)⟩
          rcases hr with hfit | hfit | hr
          · omega
          · omega
          · exact hr
        rw [hiff, hrecords]
        refine and_congr_left fun _ => ⟨fun hmod => ?_, Nat.mod_eq_of_lt⟩
        omega

/-! ## The runs -/

/-- **One call** from a state in which the headers tell the truth. -/
theorem memStep_faithful_iff (hinc : Increasing config) {order : Nat → List Nat}
    (hord : ∀ n, (order n).Perm (List.range n)) (h : PoolInv config p free owned)
    (hf : Faithful config ⟨p, owned, held⟩) {op : MemOp} (hop : op.Legal config owned)
    (hapart : op.Apart) {out : Option Block}
    (hs : memStep config order p op = some (p', out)) :
    Faithful config ⟨p', ownedAfter owned p' out op, heldAfter held out op⟩ ↔
      Records config p op := by
  cases op with
  | memAlloc n =>
      have hiff := memAlloc_faithful_iff hinc h hf n
      have hs : memAlloc config p n = (p', out) := Option.some.inj hs
      rw [hs] at hiff
      exact hiff
  | memFree pBuffer =>
      obtain ⟨rfl, rfl⟩ := Prod.mk.inj (Option.some.inj hs)
      exact iff_of_true (memFree_faithful h hf hop) trivial
  | memRemove pBuffer wher count =>
      obtain ⟨r, hr, hres⟩ := Option.map_eq_some_iff.mp hs
      obtain ⟨rfl, rfl⟩ := Prod.mk.inj hres
      refine iff_of_true ?_ trivial
      cases pBuffer with
      | none =>
          obtain rfl := Option.some.inj hr
          exact hf
      | some b => exact memRemove_faithful h hf (hop b rfl) hr
  | memJoin src dst =>
      cases src with
      | none =>
          obtain ⟨q, hq, free', hinv⟩ := memJoin_none h order hop.1 hop.2 (.inl rfl)
          obtain ⟨rfl, rfl⟩ := Prod.mk.inj (Option.some.inj (hq.symm.trans hs))
          have hfree : q = memFree p dst := by
            cases dst with
            | none => exact (Prod.mk.inj (Option.some.inj hs)).1.symm
            | some d =>
                simp only [memStep, memJoin, checkNode_none,
                  h.checkNode_valid (h.ownedValid d (hop.2 d rfl))] at hs
                exact (Prod.mk.inj (Option.some.inj hs)).1.symm
          rw [hfree]
          exact iff_of_true
            (memFree_faithful h hf fun d hd => h.ownedValid d (hop.2 d hd)) trivial
      | some a =>
          cases dst with
          | none =>
              have ha := h.ownedValid a (hop.1 a rfl)
              simp only [memStep, memJoin, checkNode_none, h.checkNode_valid ha] at hs
              obtain ⟨rfl, rfl⟩ := Prod.mk.inj (Option.some.inj hs)
              exact iff_of_true
                (memFree_faithful h hf fun d hd => h.ownedValid d (hop.1 d hd)) trivial
          | some b =>
              exact memJoin_faithful_iff hinc hord h hf (hop.1 a rfl) (hop.2 b rfl) hapart hs

end Calls

section Runs

variable {config : Nat → MemPoolConfig} {order : Nat → List Nat} {p0 : Pool}
  {calls : List (Pool × MemOp)} {states : List Buffers}

/-- Every state of a run keeps the invariant of the pool. -/
theorem HeldRun.inv (hinc : Increasing config) (h : HeldRun config order p0 calls states) :
    ∀ s ∈ states, ∃ free, PoolInv config s.pool free s.owned := by
  induction h with
  | init =>
      intro s hs
      obtain rfl := List.mem_singleton.mp hs
      exact ⟨_, initMemPool_inv config p0⟩
  | call _ hop _ hs ih =>
      refine List.forall_mem_cons.mpr ⟨?_, ih⟩
      obtain ⟨free, hinv⟩ := ih _ List.mem_cons_self
      obtain ⟨p', out, hs', hinv'⟩ := memStep_inv hinc order hinv _ hop
      obtain ⟨rfl, rfl⟩ := Prod.mk.inj (Option.some.inj (hs'.symm.trans hs))
      exact hinv'
  | write bytes _ ih =>
      refine List.forall_mem_cons.mpr ⟨?_, ih⟩
      obtain ⟨free, hinv⟩ := ih _ List.mem_cons_self
      exact ⟨free, hinv.congr rfl rfl rfl⟩

/-- **A run**: the headers tell the truth in all its states exactly if each of its calls can be
recorded. -/
theorem HeldRun.faithful_iff (hinc : Increasing config)
    (hord : ∀ n, (order n).Perm (List.range n)) (h : HeldRun config order p0 calls states) :
    (∀ s ∈ states, Faithful config s) ↔ ∀ c ∈ calls, Records config c.1 c.2 := by
  induction h with
  | init =>
      refine iff_of_true (fun s hs => ?_) (by simp)
      obtain rfl := List.mem_singleton.mp hs
      exact fun b hb => nomatch hb
  | @call calls s past op p' out hrun hop hapart hs ih =>
      obtain ⟨free, hinv⟩ := hrun.inv hinc s List.mem_cons_self
      refine List.forall_mem_cons.trans (Iff.trans ?_ List.forall_mem_cons.symm)
      rw [← ih]
      refine and_congr_left fun hall => ?_
      exact memStep_faithful_iff hinc hord hinv (hall s List.mem_cons_self) hop hapart hs
  | @write calls s past bytes hrun ih =>
      refine List.forall_mem_cons.trans (Iff.trans ?_ ih)
      exact and_iff_right_of_imp fun hall => hall s List.mem_cons_self

end Runs

/-- **When the recorded sizes are faithful**, in both builds and whatever the order in which
`memcpy` copies. -/
theorem recorded_iff (x86_64 : Bool) (order : Nat → List Nat)
    (hord : ∀ n, (order n).Perm (List.range n)) (p0 : Pool) (calls : List (Pool × MemOp))
    (states : List Buffers) (h : HeldRun (gMemPoolConfig x86_64) order p0 calls states) :
    (∀ s ∈ states, Faithful (gMemPoolConfig x86_64) s) ↔
      ∀ c ∈ calls, Records (gMemPoolConfig x86_64) c.1 c.2 :=
  h.faithful_iff (gMemPoolConfig_increasing x86_64) hord

/-- The first call asks for `n` bytes. -/
theorem HeldRun.first (n : Nat) : ∃ states,
    HeldRun (gMemPoolConfig true) List.range zeroMemory
      [(initMemPool (gMemPoolConfig true) zeroMemory, .memAlloc n)] states :=
  have hop : (MemOp.memAlloc n).Legal (gMemPoolConfig true) [] := trivial
  ⟨_, .call .init hop trivial rfl⟩

theorem recorded_iff_first : ∃ calls states,
    HeldRun (gMemPoolConfig true) List.range zeroMemory calls states ∧ calls.length = 1 ∧
      ((∀ s ∈ states, Faithful (gMemPoolConfig true) s) ↔
        ∀ c ∈ calls, Records (gMemPoolConfig true) c.1 c.2) := by
  obtain ⟨states, hrun⟩ := HeldRun.first 100
  exact ⟨_, states, hrun, rfl,
    recorded_iff true List.range (fun _ => .refl _) zeroMemory _ states hrun⟩

/-- The first call asks for 70000 bytes, of which the header records 4464. -/
theorem not_faithful_large :
    ¬ ∀ calls states, HeldRun (gMemPoolConfig true) List.range zeroMemory calls states →
      ∀ s ∈ states, Faithful (gMemPoolConfig true) s := by
  intro hall
  obtain ⟨states, hrun⟩ := HeldRun.first 70000
  have hrecords := (hrun.faithful_iff (gMemPoolConfig_increasing true) fun _ => .refl _).mp
    (hall _ _ hrun) _ List.mem_cons_self
  rcases hrecords with hno | ⟨hlt, -⟩
  · have hcount := hno 9 (by decide) (by decide)
    rw [(initMemPool_inv (gMemPoolConfig true) zeroMemory).listCount_eq (by decide)] at hcount
    revert hcount
    decide
  · omega

end LteUlp.Mempool
