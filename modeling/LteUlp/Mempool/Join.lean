import LteUlp.Mempool.Conservation

set_option autoImplicit false

/-! # What `MemJoin` returns

`MemJoin` has three ways to concatenate: into the first buffer, into the second one, whose
own bytes it first shifts with `memcpy`, and into a third block. The shift copies within one
data area, where the order of the bytes matters: it keeps them, for every order, exactly if
they repeat with the length of the first buffer as the period. The third way records the
joined length in 16 bits.

`joinsAlways_iff` puts these conditions together.
-/

namespace LteUlp.Mempool

open Intrusive

/-! ## Copies byte by byte

A copy between two areas and a shift within one, as loops over the offsets in any order. -/

section Copy

variable {β : Type}

/-- The copy of the offsets `ks` from the area `g` into the area `f`, `d` bytes behind. -/
def copyLoop (g : Nat → β) (d : Nat) (ks : List Nat) (f : Nat → β) : Nat → β :=
  ks.foldl (fun f k => Function.update f (d + k) (g k)) f

/-- The shift of the offsets `ks` within the area `f` by `d`. -/
def shiftLoop (d : Nat) (ks : List Nat) (f : Nat → β) : Nat → β :=
  ks.foldl (fun f k => Function.update f (d + k) (f k)) f

/-- `n` bytes repeat with the period `d`. -/
def Periodic (f : Nat → β) (d n : Nat) : Prop := ∀ k, d ≤ k → k < n → f k = f (k - d)

theorem copyLoop_not_mem (g : Nat → β) (d : Nat) {ks : List Nat} (f : Nat → β) {q : Nat}
    (hq : ∀ k ∈ ks, q ≠ d + k) : copyLoop g d ks f q = f q := by
  induction ks generalizing f with
  | nil => rfl
  | cons k ks ih =>
      rw [copyLoop, List.foldl_cons]
      refine (ih _ fun j hj => hq j (by simp [hj])).trans ?_
      exact Function.update_of_ne (hq k (by simp)) _ _

theorem copyLoop_mem (g : Nat → β) (d : Nat) {ks : List Nat} (f : Nat → β) {k : Nat}
    (hk : k ∈ ks) : copyLoop g d ks f (d + k) = g k := by
  induction ks generalizing f with
  | nil => simp at hk
  | cons j ks ih =>
      rw [copyLoop, List.foldl_cons]
      by_cases hmem : k ∈ ks
      · exact ih _ hmem
      · have hkj : k = j := by simpa [hmem] using hk
        subst hkj
        refine (copyLoop_not_mem g d _ fun i hi => ?_).trans (Function.update_self _ _ _)
        rintro hc
        exact hmem ((by omega : i = k) ▸ hi)

/-- **Periodic bytes survive a shift by their period**, in any order: a byte that is
overwritten before it is read gets the value it had. -/
theorem shiftLoop_periodic {d n : Nat} {ks : List Nat} (f0 f : Nat → β)
    (hper : Periodic f0 d n) (hks : ∀ k ∈ ks, k < n) (hf : ∀ q < n, f q = f0 q) :
    (∀ q < n, shiftLoop d ks f q = f0 q) ∧
      ∀ k < n, k ∈ ks ∨ f (d + k) = f0 k → shiftLoop d ks f (d + k) = f0 k := by
  induction ks generalizing f with
  | nil => exact ⟨hf, fun k _ hk => hk.resolve_left (by simp)⟩
  | cons j ks ih =>
      have hj : j < n := hks j (by simp)
      have hf' : ∀ q < n, Function.update f (d + j) (f j) q = f0 q := by
        intro q hq
        by_cases hqj : q = d + j
        · subst hqj
          rw [Function.update_self, hf j hj, hper (d + j) (by omega) hq]
          congr 1
          omega
        · rw [Function.update_of_ne hqj, hf q hq]
      obtain ⟨hkept, hmoved⟩ := ih (Function.update f (d + j) (f j))
        (fun k hk => hks k (by simp [hk])) hf'
      refine ⟨hkept, fun k hk hor => hmoved k hk ?_⟩
      by_cases hkj : k = j
      · subst hkj
        exact Or.inr (by rw [Function.update_self, hf k hk])
      · rw [Function.update_of_ne (by omega)]
        simpa [hkj] using hor

theorem shiftLoop_range_succ (d n : Nat) (f : Nat → β) :
    shiftLoop d (List.range (n + 1)) f = Function.update (shiftLoop d (List.range n) f) (d + n)
      (shiftLoop d (List.range n) f n) := by
  rw [shiftLoop, List.range_succ, List.foldl_append]
  rfl

/-- In ascending order, the steps from `m` on leave what is before `d + m`. -/
theorem shiftLoop_range_before (d : Nat) (f : Nat → β) {q m n : Nat} (hq : q < d + m)
    (hmn : m ≤ n) : shiftLoop d (List.range n) f q = shiftLoop d (List.range m) f q := by
  induction n, hmn using Nat.le_induction with
  | base => rfl
  | succ n hmn ih =>
      rw [shiftLoop_range_succ, Function.update_of_ne (by omega)]
      exact ih

/-- A shift in ascending order copies, from `d` on, what it has left there itself. -/
theorem shiftLoop_range_shifted (d : Nat) (f : Nat → β) {k n : Nat} (hk : k < n) (hd : d ≤ k) :
    shiftLoop d (List.range n) f (d + k) = shiftLoop d (List.range n) f k := by
  cases d with
  | zero => rw [Nat.zero_add]
  | succ d =>
      have hread : shiftLoop (d + 1) (List.range n) f k = shiftLoop (d + 1) (List.range k) f k :=
        shiftLoop_range_before (d + 1) f (by omega) (by omega)
      rw [shiftLoop_range_before (d + 1) f (m := k + 1) (by omega) hk, shiftLoop_range_succ,
        Function.update_self, hread]

/-- **A shift keeps its bytes in every order exactly if they are periodic.** The ascending
order is the one that fails where any does. -/
theorem shift_kept_iff (d n : Nat) (f : Nat → β) :
    (∀ ks : List Nat, ks.Perm (List.range n) → ∀ k < n, shiftLoop d ks f (d + k) = f k) ↔
      Periodic f d n := by
  constructor
  · intro h k hd hk
    have hall := h (List.range n) (List.Perm.refl _)
    calc f k = shiftLoop d (List.range n) f (d + k) := (hall k hk).symm
      _ = shiftLoop d (List.range n) f k := shiftLoop_range_shifted d f hk hd
      _ = shiftLoop d (List.range n) f (d + (k - d)) := by rw [Nat.add_sub_cancel' hd]
      _ = f (k - d) := hall (k - d) (by omega)
  · intro h ks hks k hk
    have hmem : ∀ j ∈ ks, j < n := fun j hj => List.mem_range.mp (hks.mem_iff.mp hj)
    have hin : k ∈ ks := hks.mem_iff.mpr (List.mem_range.mpr hk)
    exact (shiftLoop_periodic f f h hmem fun _ _ => rfl).2 k hk (Or.inl hin)

end Copy

/-! ## The copies of the pool -/

variable {config : Nat → MemPoolConfig} {p : Pool} {free : Nat → List Block}
  {owned : List Block} {a b : Block}

/-- The bytes a buffer holds: as many as its recorded length says. -/
def contents (p : Pool) (b : Block) : List UInt8 :=
  (List.range (p.node b).length).map (p.bytes b)

/-- A `memcpy` from another area. -/
theorem memcpy_copyLoop (config : Nat → MemPoolConfig) (order : Nat → List Nat) (p : Pool)
    {dst src : Block} (hne : dst ≠ src) {d n : Nat} (hd : d + n ≤ capacity config dst)
    (hs : n ≤ capacity config src) :
    ∃ p', memcpy config order p dst d src 0 n = some p' ∧ BytesOnly p p' dst ∧
      p'.bytes dst = copyLoop (p.bytes src) d (order n) (p.bytes dst) := by
  obtain ⟨p', hp', hb⟩ := memcpy_spec order p dst d src 0 n hd (by omega)
  refine ⟨p', hp', hb, ?_⟩
  obtain rfl : (order n).foldl
      (fun p k => p.setByte dst (d + k) (p.bytes src (0 + k))) p = p' :=
    Option.some.inj ((if_pos ⟨hd, by omega⟩).symm.trans hp')
  clear hp' hb hd hs
  induction order n generalizing p with
  | nil => rfl
  | cons k ks ih =>
      rw [List.foldl_cons, ih]
      simp [copyLoop, Pool.setByte, hne.symm]

/-- A `memcpy` within an area, from its beginning. -/
theorem memcpy_shiftLoop (config : Nat → MemPoolConfig) (order : Nat → List Nat) (p : Pool)
    (dst : Block) {d n : Nat}
    (hd : d + n ≤ capacity config dst) :
    ∃ p', memcpy config order p dst d dst 0 n = some p' ∧ BytesOnly p p' dst ∧
      p'.bytes dst = shiftLoop d (order n) (p.bytes dst) := by
  obtain ⟨p', hp', hb⟩ := memcpy_spec order p dst d dst 0 n hd (by omega)
  refine ⟨p', hp', hb, ?_⟩
  obtain rfl : (order n).foldl
      (fun p k => p.setByte dst (d + k) (p.bytes dst (0 + k))) p = p' :=
    Option.some.inj ((if_pos ⟨hd, by omega⟩).symm.trans hp')
  clear hp' hb hd
  induction order n generalizing p with
  | nil => rfl
  | cons k ks ih =>
      rw [List.foldl_cons, ih]
      simp [shiftLoop, Pool.setByte]

/-! ## The allocation of the third way -/

/-- No pool with blocks of at least `n` bytes has a free one. -/
def NoBlockFor (config : Nat → MemPoolConfig) (p : Pool) (n : Nat) : Prop :=
  ∀ i < maxNumPoolSize, n ≤ (config i).size → listCount p.lists (some i) = 0

theorem PoolInv.listCount_eq (h : PoolInv config p free owned) {i : Nat}
    (hi : i < maxNumPoolSize) : listCount p.lists (some i) = (free i).length :=
  (h.repr.linked i (free i) (poolLists_of_lt hi free)).count

theorem allocFrom_none (h : PoolInv config p free owned) :
    ∀ (fuel poolId : Nat), poolId + fuel = maxNumPoolSize →
      ((allocFrom p fuel poolId).2 = none ↔
        ∀ i, poolId ≤ i → i < maxNumPoolSize → listCount p.lists (some i) = 0)
  | 0, poolId, hf => by
      constructor
      · intro _ i hle hlt
        omega
      · intro _
        rfl
  | fuel + 1, poolId, hf => by
      have hlt : poolId < maxNumPoolSize := by omega
      have hi := poolLists_of_lt hlt free
      have hcount := h.listCount_eq hlt
      rw [allocFrom]
      cases hx : free poolId with
      | nil =>
          rw [hx] at hi hcount
          rw [h.repr.popNode_nil hi]
          refine (allocFrom_none h fuel (poolId + 1) (by omega)).trans ?_
          constructor
          · intro hall i hle hlt'
            rcases Nat.eq_or_lt_of_le hle with rfl | hgt
            · exact hcount
            · exact hall i hgt hlt'
          · intro hall i hle hlt'
            exact hall i (by omega) hlt'
      | cons c xs =>
          rw [hx] at hi hcount
          obtain ⟨hret, -, -⟩ := h.repr.popNode_cons hi
          have hpop : listPopNode p.lists (some poolId)
              = ((listPopNode p.lists (some poolId)).1, some c) := by rw [← hret]
          rw [hpop]
          constructor
          · intro hc
            cases hc
          · intro hall
            have := hall poolId (Nat.le_refl _) hlt
            rw [hcount] at this
            cases this

/-- A pool that the search for the capacity passes over is too small. -/
theorem findMatchPool_le {n poolId i : Nat} (hfind : findMatchPool config n = some poolId)
    (hn : n ≤ (config i).size) : poolId ≤ i := by
  by_contra hlt
  have hbefore := (List.find?_range_eq_some.mp hfind).2.2 i (by omega)
  simp [hn] at hbefore

/-- `MemAlloc` fails exactly if no large enough pool has a free block. -/
theorem memAlloc_none_iff (hinc : Increasing config) (h : PoolInv config p free owned)
    (n : Nat) : (memAlloc config p n).2 = none ↔ NoBlockFor config p n := by
  cases hfind : findMatchPool config n with
  | none =>
      simp only [memAlloc, hfind, true_iff]
      intro i hi hle
      have := List.find?_eq_none.mp hfind i (List.mem_range.mpr hi)
      simp [hle] at this
  | some poolId =>
      have hle : n ≤ (config poolId).size := by simpa using List.find?_some hfind
      have hlt : poolId < maxNumPoolSize := List.mem_range.mp (List.mem_of_find?_eq_some hfind)
      have hfrom := allocFrom_none h (maxNumPoolSize - poolId) poolId (by omega)
      have hmem : (memAlloc config p n).2 = none ↔
          (allocFrom p (maxNumPoolSize - poolId) poolId).2 = none := by
        rcases hall : allocFrom p (maxNumPoolSize - poolId) poolId with ⟨p', _ | c⟩
        · simp only [memAlloc, hfind, hall]
        · simp only [memAlloc, hfind, hall, reduceCtorEq]
      rw [hmem, hfrom]
      constructor
      · intro hall i hi hn
        exact hall i (findMatchPool_le hfind hn) hi
      · intro hall i hle' hi
        exact hall i hi (hle.trans (hinc poolId i hle' hi))

/-! ## The three ways -/

/-- What a `MemJoin` that returns `r` has done, the bytes behind the first buffer's apart:
they are given by `tail`. -/
structure Moved (config : Nat → MemPoolConfig) (p : Pool) (a b : Block) (tail : Nat → UInt8)
    (p' : Pool) (r : Block) : Prop where
  length : (p'.node r).length = ((p.node a).length + (p.node b).length) % 2 ^ 16
  capacity : (p.node a).length + (p.node b).length ≤ capacity config r
  head : ∀ k < (p.node a).length, p'.bytes r k = p.bytes a k
  tail : ∀ k < (p.node b).length, p'.bytes r ((p.node a).length + k) = tail k
  inUse : (p'.node r).isInUsed = 1
  released : (r = a ∧ (p'.node b).isInUsed = 0) ∨ (r = b ∧ (p'.node a).isInUsed = 0) ∨
    ((p.node r).isInUsed = 0 ∧ (p'.node a).isInUsed = 0 ∧ (p'.node b).isInUsed = 0)

/-- The end of two ways: `x` gets its new length and `y` is freed. -/
theorem join_end (h : PoolInv config p free owned) {x y : Block} (hx : x ∈ owned)
    (hy : y ∈ owned) (hxy : x ≠ y) {n : Nat} (hn : n ≤ capacity config x) {p' : Pool}
    (hp' : p' = memFree (p.setNode x { p.node x with length := n }) (some y)) :
    (p'.node x).length = n ∧ (p'.node x).isInUsed = 1 ∧ (p'.node y).isInUsed = 0 ∧
      p'.bytes = p.bytes := by
  have hhead := h.header x (h.ownedValid x hx)
  have h1 : PoolInv config (p.setNode x { p.node x with length := n }) free owned :=
    h.setNode _ ⟨hhead.magicNo, hhead.poolId, hhead.size, hhead.pData⟩ rfl hn
  have huy := h1.isInUsed_of_owned hy
  have hf := memFree_spec h1 (h.ownedValid y hy) (by omega)
  rw [← hp'] at hf
  refine ⟨?_, ?_, hf.isFree, hf.bytes⟩
  · rw [hf.node x hxy]
    simp [Pool.setNode]
  · rw [hf.node x hxy]
    exact h1.isInUsed_of_owned hx

variable (order : Nat → List Nat)

/-- Into the first buffer. -/
theorem memJoin_first (hord : ∀ n, (order n).Perm (List.range n))
    (h : PoolInv config p free owned) (ha : a ∈ owned) (hb : b ∈ owned) (hab : a ≠ b)
    (hfit : (p.node a).length + (p.node b).length ≤ (p.node a).size) :
    ∃ p', memJoin config order p (some a) (some b) = some (p', some a) ∧
      Moved config p a b (p.bytes b) p' a := by
  have hva := h.ownedValid a ha
  have hvb := h.ownedValid b hb
  have hsz := h.size_le ha
  have hlb := h.length b hvb
  obtain ⟨p1, hcp, hb1, hbytes⟩ := memcpy_copyLoop config order p hab
    (d := (p.node a).length) (n := (p.node b).length) (by omega) (by omega)
  have hi1 := h.bytesOnly hb1
  have hn : ((p1.node a).length + (p1.node b).length) % 2 ^ 16 ≤ capacity config a := by
    rw [hb1.node]
    exact (Nat.mod_le _ _).trans (hfit.trans hsz)
  obtain ⟨p', hp'⟩ : ∃ p', p' = memFree (p1.setNode a { p1.node a with
    length := ((p1.node a).length + (p1.node b).length) % 2 ^ 16 }) (some b) := ⟨_, rfl⟩
  obtain ⟨hlen, huse, hfree, hbytes'⟩ := join_end hi1 ha hb hab hn hp'
  refine ⟨p', ?_, ?_⟩
  · simp only [memJoin, h.checkNode_valid hva, h.checkNode_valid hvb]
    rw [if_pos hfit, hcp, hp']
    rfl
  refine ⟨by rw [hlen, hb1.node], hfit.trans hsz, fun k hk => ?_, fun k hk => ?_, huse,
    Or.inl ⟨rfl, hfree⟩⟩
  · rw [hbytes', hbytes, copyLoop_not_mem]
    intro j _
    omega
  · rw [hbytes', hbytes, copyLoop_mem]
    exact (hord _).mem_iff.mpr (List.mem_range.mpr hk)

/-- Into the second buffer: its bytes are first shifted within it. -/
theorem memJoin_second (hord : ∀ n, (order n).Perm (List.range n))
    (h : PoolInv config p free owned) (ha : a ∈ owned) (hb : b ∈ owned) (hab : a ≠ b)
    (hfull : (p.node a).size < (p.node a).length + (p.node b).length)
    (hfit : (p.node a).length + (p.node b).length ≤ (p.node b).size) :
    ∃ p', memJoin config order p (some a) (some b) = some (p', some b) ∧
      Moved config p a b (fun k => shiftLoop (p.node a).length (order (p.node b).length)
        (p.bytes b) ((p.node a).length + k)) p' b := by
  have hva := h.ownedValid a ha
  have hvb := h.ownedValid b hb
  have hsz := h.size_le hb
  have hla := h.length a hva
  obtain ⟨p1, hcp1, hb1, hbytes1⟩ := memcpy_shiftLoop config order p b
    (d := (p.node a).length) (n := (p.node b).length) (by omega)
  obtain ⟨p2, hcp2, hb2, hbytes2⟩ := memcpy_copyLoop config order p1 hab.symm
    (d := 0) (n := (p.node a).length) (by omega) (by omega)
  have hi2 := (h.bytesOnly hb1).bytesOnly hb2
  have hn : ((p2.node b).length + (p2.node a).length) % 2 ^ 16 ≤ capacity config b := by
    rw [hb2.node, hb1.node]
    exact (Nat.mod_le _ _).trans (by omega)
  obtain ⟨p', hp'⟩ : ∃ p', p' = memFree (p2.setNode b { p2.node b with
    length := ((p2.node b).length + (p2.node a).length) % 2 ^ 16 }) (some a) := ⟨_, rfl⟩
  obtain ⟨hlen, huse, hfree, hbytes'⟩ := join_end hi2 hb ha hab.symm hn hp'
  refine ⟨p', ?_, ?_⟩
  · simp only [memJoin, h.checkNode_valid hva, h.checkNode_valid hvb]
    rw [if_neg (by omega), if_pos hfit, hcp1, Option.bind_some, hcp2, hp']
    rfl
  refine ⟨by rw [hlen, hb2.node, hb1.node, Nat.add_comm], hfit.trans hsz, fun k hk => ?_,
    fun k hk => ?_, huse, Or.inr (Or.inl ⟨rfl, hfree⟩)⟩
  · have hmem : k ∈ order (p.node a).length := (hord _).mem_iff.mpr (List.mem_range.mpr hk)
    rw [hbytes', hbytes2, ← Nat.zero_add k, copyLoop_mem _ _ _ hmem, hb1.bytes a hab,
      Nat.zero_add]
  · rw [hbytes', hbytes2, copyLoop_not_mem, hbytes1]
    intro j hj
    have := List.mem_range.mp ((hord _).mem_iff.mp hj)
    omega

/-- Into a third block, or nothing. -/
theorem memJoin_third (hinc : Increasing config) (hord : ∀ n, (order n).Perm (List.range n))
    (h : PoolInv config p free owned) (ha : a ∈ owned) (hb : b ∈ owned) (hab : a ≠ b)
    (hfullA : (p.node a).size < (p.node a).length + (p.node b).length)
    (hfullB : (p.node b).size < (p.node a).length + (p.node b).length) :
    (NoBlockFor config p ((p.node a).length + (p.node b).length) →
      ∃ p', memJoin config order p (some a) (some b) = some (p', none) ∧
        (p'.node a).isInUsed = 0 ∧ (p'.node b).isInUsed = 0) ∧
    (¬ NoBlockFor config p ((p.node a).length + (p.node b).length) →
      ∃ p' r, memJoin config order p (some a) (some b) = some (p', some r) ∧
        Moved config p a b (p.bytes b) p' r) := by
  have hva := h.ownedValid a ha
  have hvb := h.ownedValid b hb
  have hla := h.length a hva
  have hlb := h.length b hvb
  have hnone := memAlloc_none_iff hinc h ((p.node a).length + (p.node b).length)
  -- both buffers are freed at the end, whatever the allocation gave
  have hfreed : ∀ {q : Pool} {free' owned'}, PoolInv config q free' owned' → a ∈ owned' →
      b ∈ owned' → Freed config q owned' a (memFree q (some a)) ∧
        Freed config (memFree q (some a)) (owned'.erase a) b
          (memFree (memFree q (some a)) (some b)) := by
    intro q free' owned' hq ha' hb'
    have hua := hq.isInUsed_of_owned ha'
    have hf := memFree_spec hq hva (by omega)
    obtain ⟨free1, hq1⟩ := hf.inv
    have hub := hq1.isInUsed_of_owned ((List.mem_erase_of_ne hab.symm).mpr hb')
    exact ⟨hf, memFree_spec hq1 hvb (by omega)⟩
  constructor
  · intro hno
    have he : memAlloc config p ((p.node a).length + (p.node b).length) = (p, none) := by
      rcases memAlloc_spec hinc h ((p.node a).length + (p.node b).length) with
        he | ⟨p1, r, he, -⟩
      · exact he
      · rw [he] at hnone
        exact absurd (hnone.mpr hno) (by simp)
    obtain ⟨hfa, hfb⟩ := hfreed h ha hb
    refine ⟨memFree (memFree p (some a)) (some b), ?_, ?_, hfb.isFree⟩
    · simp only [memJoin, h.checkNode_valid hva, h.checkNode_valid hvb]
      rw [if_neg (by omega), if_neg (by omega), he]
    · rw [hfb.node a hab]
      exact hfa.isFree
  · intro hsome
    obtain ⟨p1, r, he, hal⟩ : ∃ p1 r, memAlloc config p
        ((p.node a).length + (p.node b).length) = (p1, some r) ∧
        Allocated config p free owned ((p.node a).length + (p.node b).length) p1 r := by
      rcases memAlloc_spec hinc h ((p.node a).length + (p.node b).length) with he | hal
      · rw [he] at hnone
        exact absurd (hnone.mp rfl) hsome
      · exact hal
    obtain ⟨free1, hi1⟩ := hal.inv
    have har : a ≠ r := fun hc => hal.notOwned (hc ▸ ha)
    have hbr : b ≠ r := fun hc => hal.notOwned (hc ▸ hb)
    have hcap := hal.capacity
    have hpa : (p1.node a).pData = a := hi1.pData (by simp [ha])
    obtain ⟨p2, hcp2, hb2, hbytes2⟩ := memcpy_copyLoop config order p1 har.symm
      (d := 0) (n := (p1.node a).length) (by rw [hal.node a har]; omega)
      (by rw [hal.node a har]; omega)
    have hi2 := hi1.bytesOnly hb2
    have hpb : (p2.node b).pData = b := hi2.pData (by simp [hb])
    have hna : (p2.node a).length = (p.node a).length := by rw [hb2.node, hal.node a har]
    have hnb : (p2.node b).length = (p.node b).length := by rw [hb2.node, hal.node b hbr]
    obtain ⟨p3, hcp3, hb3, hbytes3⟩ := memcpy_copyLoop config order p2 hbr.symm
      (d := (p2.node a).length) (n := (p2.node b).length) (by omega) (by omega)
    have hi3 := hi2.bytesOnly hb3
    obtain ⟨hfa, hfb⟩ := hfreed hi3 (by simp [ha]) (by simp [hb])
    have hlen : ((memFree (memFree p3 (some a)) (some b)).node r) = p1.node r := by
      rw [hfb.node r hbr.symm, hfa.node r har.symm, hb3.node, hb2.node]
    refine ⟨memFree (memFree p3 (some a)) (some b), r, ?_, ?_⟩
    · simp only [memJoin, h.checkNode_valid hva, h.checkNode_valid hvb]
      rw [if_neg (by omega), if_neg (by omega), he]
      simp only [hpa, hcp2, Option.bind_some, hpb, hcp3]
      rfl
    refine ⟨by rw [hlen, hal.length], hcap, fun k hk => ?_, fun k hk => ?_, ?_,
      Or.inr (Or.inr ⟨hal.wasFree, ?_, hfb.isFree⟩)⟩
    · have hmem : k ∈ order (p1.node a).length := by
        rw [hal.node a har]
        exact (hord _).mem_iff.mpr (List.mem_range.mpr hk)
      rw [hfb.bytes, hfa.bytes, hbytes3, copyLoop_not_mem _ _ _ (by omega), hbytes2,
        ← Nat.zero_add k, copyLoop_mem _ _ _ hmem, Nat.zero_add, hal.bytes]
    · have hmem : k ∈ order (p2.node b).length := by
        rw [hnb]
        exact (hord _).mem_iff.mpr (List.mem_range.mpr hk)
      rw [hfb.bytes, hfa.bytes, hbytes3, ← hna, copyLoop_mem _ _ _ hmem, hb2.bytes b hbr,
        hal.bytes]
    · rw [hlen]
      exact hi1.isInUsed_of_owned (by simp)
    · rw [hfb.node a hab]
      exact hfa.isFree

/-! ## Concatenation -/

/-- What a `MemJoin` that returns `r` has to leave behind: `r` is in use and holds the bytes
of `a` followed by those of `b`, within its block. One of the two is `r` and the other one
is released, or `r` is a block that was free and both are released. -/
structure Joined (config : Nat → MemPoolConfig) (p : Pool) (a b : Block) (p' : Pool)
    (r : Block) : Prop where
  length : (p'.node r).length = (p.node a).length + (p.node b).length
  capacity : (p'.node r).length ≤ capacity config r
  contents : contents p' r = contents p a ++ contents p b
  inUse : (p'.node r).isInUsed = 1
  released : (r = a ∧ (p'.node b).isInUsed = 0) ∨ (r = b ∧ (p'.node a).isInUsed = 0) ∨
    ((p.node r).isInUsed = 0 ∧ (p'.node a).isInUsed = 0 ∧ (p'.node b).isInUsed = 0)

/-- `MemJoin(a, b)` does what its callers rely on, in whatever order `memcpy` copies. -/
def JoinsAlways (config : Nat → MemPoolConfig) (p : Pool) (a b : Block) : Prop :=
  ∀ order : Nat → List Nat, (∀ n, (order n).Perm (List.range n)) →
    ∃ p' out, memJoin config order p (some a) (some b) = some (p', out) ∧
      (∀ r, out = some r → Joined config p a b p' r) ∧
      (out = none → (p'.node a).isInUsed = 0 ∧ (p'.node b).isInUsed = 0)

/-- The joined contents fit into the first block; or into the second one, whose own bytes
repeat with the length of the first; or into neither, and their length fits into 16 bits
or there is no block for them. -/
def Joinable (config : Nat → MemPoolConfig) (p : Pool) (a b : Block) : Prop :=
  if (p.node a).length + (p.node b).length ≤ (p.node a).size then True
  else if (p.node a).length + (p.node b).length ≤ (p.node b).size then
    Periodic (p.bytes b) (p.node a).length (p.node b).length
  else (p.node a).length + (p.node b).length < 2 ^ 16 ∨
    NoBlockFor config p ((p.node a).length + (p.node b).length)

/-- The bytes of a buffer of length `m + n`, read in two parts. -/
theorem contents_append {p' : Pool} {r : Block}
    (hlen : (p'.node r).length = (p.node a).length + (p.node b).length) :
    contents p' r = contents p a ++ contents p b ↔
      (∀ k < (p.node a).length, p'.bytes r k = p.bytes a k) ∧
        ∀ k < (p.node b).length, p'.bytes r ((p.node a).length + k) = p.bytes b k := by
  have hsplit : contents p' r = (List.range (p.node a).length).map (p'.bytes r) ++
      (List.range (p.node b).length).map fun k => p'.bytes r ((p.node a).length + k) := by
    rw [contents, hlen, List.range_add, List.map_append, List.map_map]
    rfl
  rw [hsplit, List.append_eq_append_iff_of_size_eq_left (by simp [contents])]
  simp [contents, List.map_inj_left]

theorem Moved.joined_iff {tail : Nat → UInt8} {p' : Pool} {r : Block}
    (h : Moved config p a b tail p' r) :
    Joined config p a b p' r ↔ (p.node a).length + (p.node b).length < 2 ^ 16 ∧
      ∀ k < (p.node b).length, tail k = p.bytes b k := by
  constructor
  · intro hj
    have hlen := hj.length
    rw [h.length] at hlen
    refine ⟨by omega, fun k hk => ?_⟩
    rw [← h.tail k hk]
    exact ((contents_append hj.length).mp hj.contents).2 k hk
  · rintro ⟨hlt, htail⟩
    have hlen : (p'.node r).length = (p.node a).length + (p.node b).length := by
      rw [h.length, Nat.mod_eq_of_lt hlt]
    refine ⟨hlen, hlen ▸ h.capacity, ?_, h.inUse, h.released⟩
    exact (contents_append hlen).mpr
      ⟨h.head, fun k hk => (h.tail k hk).trans (htail k hk)⟩

/-- A recorded size has 16 bits. -/
theorem PoolInv.size_lt (h : PoolInv config p free owned) (hb : b ∈ owned) :
    (p.node b).size < 2 ^ 16 := by
  rw [(h.header b (h.ownedValid b hb)).size]
  exact Nat.mod_lt _ (by decide)

/-- **When `MemJoin` concatenates**, in a pool that keeps its invariant. -/
theorem PoolInv.joins_iff (hinc : Increasing config) (h : PoolInv config p free owned)
    (ha : a ∈ owned) (hb : b ∈ owned) (hab : a ≠ b) :
    JoinsAlways config p a b ↔ Joinable config p a b := by
  have hsa := h.size_lt ha
  have hsb := h.size_lt hb
  by_cases h1 : (p.node a).length + (p.node b).length ≤ (p.node a).size
  · rw [Joinable, if_pos h1]
    refine iff_true_intro fun order hord => ?_
    obtain ⟨p', hj, hm⟩ := memJoin_first order hord h ha hb hab h1
    refine ⟨p', some a, hj, fun r hr => ?_, fun hc => nomatch hc⟩
    obtain rfl := Option.some.inj hr
    exact hm.joined_iff.mpr ⟨by omega, fun _ _ => rfl⟩
  by_cases h2 : (p.node a).length + (p.node b).length ≤ (p.node b).size
  · rw [Joinable, if_neg h1, if_pos h2, ← shift_kept_iff]
    constructor
    · intro hall ks hks k hk
      -- the order `ks` for the shift and the ascending one for the other copies
      have hord : ∀ n, (Function.update List.range (p.node b).length ks n).Perm
          (List.range n) := by
        intro n
        by_cases hn : n = (p.node b).length
        · subst hn
          rw [Function.update_self]
          exact hks
        · rw [Function.update_of_ne hn]
      obtain ⟨p', hj, hm⟩ := memJoin_second _ hord h ha hb hab (by omega) h2
      obtain ⟨p1, out, hj1, hjoined, -⟩ := hall _ hord
      obtain ⟨rfl, rfl⟩ := Prod.mk.inj (Option.some.inj (hj.symm.trans hj1))
      have htail := (hm.joined_iff.mp (hjoined b rfl)).2 k hk
      rwa [Function.update_self] at htail
    · intro hkept order hord
      obtain ⟨p', hj, hm⟩ := memJoin_second order hord h ha hb hab (by omega) h2
      refine ⟨p', some b, hj, fun r hr => ?_, fun hc => nomatch hc⟩
      obtain rfl := Option.some.inj hr
      exact hm.joined_iff.mpr ⟨by omega, hkept _ (hord _)⟩
  · rw [Joinable, if_neg h1, if_neg h2]
    constructor
    · intro hall
      by_contra hc
      rw [not_or] at hc
      obtain ⟨p', r, hj, hm⟩ := (memJoin_third List.range hinc (fun _ => List.Perm.refl _) h
        ha hb hab (by omega) (by omega)).2 hc.2
      obtain ⟨p1, out, hj1, hjoined, -⟩ := hall List.range fun _ => List.Perm.refl _
      obtain ⟨rfl, rfl⟩ := Prod.mk.inj (Option.some.inj (hj.symm.trans hj1))
      exact hc.1 (hm.joined_iff.mp (hjoined r rfl)).1
    · intro hor order hord
      obtain ⟨hnone, hsome⟩ :=
        memJoin_third order hinc hord h ha hb hab (by omega) (by omega)
      by_cases hno : NoBlockFor config p ((p.node a).length + (p.node b).length)
      · obtain ⟨p', hj, hfree⟩ := hnone hno
        exact ⟨p', none, hj, fun r hr => absurd hr (by simp), fun _ => hfree⟩
      · obtain ⟨p', r, hj, hm⟩ := hsome hno
        refine ⟨p', some r, hj, fun r' hr => ?_, fun hc => nomatch hc⟩
        obtain rfl := Option.some.inj hr
        exact hm.joined_iff.mpr ⟨hor.resolve_right hno, fun _ _ => rfl⟩

/-- **When `MemJoin` is concatenation.** In every reachable state of the pool, whatever bytes
the callers have stored in their buffers, for two different buffers they hold. -/
theorem joinsAlways_iff (x86_64 : Bool) (order : Nat → List Nat) (p0 : Pool)
    {p : Pool} {owned : List Block}
    (h : Reachable (gMemPoolConfig x86_64) order p0 p owned) (bytes : Block → Nat → UInt8)
    {a b : Block} (ha : a ∈ owned) (hb : b ∈ owned) (hab : a ≠ b) :
    JoinsAlways (gMemPoolConfig x86_64) { p with bytes := bytes } a b ↔
      Joinable (gMemPoolConfig x86_64) { p with bytes := bytes } a b := by
  have hinc := gMemPoolConfig_increasing x86_64
  obtain ⟨free, hinv⟩ := h.inv hinc
  have hinv' : PoolInv (gMemPoolConfig x86_64) { p with bytes := bytes } free owned :=
    hinv.congr rfl rfl rfl
  exact hinv'.joins_iff hinc ha hb hab

/-! ## A shift that loses bytes -/

/-- `MemAlloc` takes a block of the first pool that is large enough, if it has a free one. -/
theorem memAlloc_pool (hinc : Increasing config) (h : PoolInv config p free owned) {n i : Nat}
    (hfind : findMatchPool config n = some i) (hne : free i ≠ []) :
    ∃ p' b, memAlloc config p n = (p', some b) ∧ b.pool = i ∧
      Allocated config p free owned n p' b := by
  have hlt : i < maxNumPoolSize := List.mem_range.mp (List.mem_of_find?_eq_some hfind)
  obtain ⟨c, xs, hx⟩ := List.exists_cons_of_ne_nil hne
  obtain ⟨hvc, hpc⟩ := h.member i hlt c (by simp [hx])
  have hi := poolLists_of_lt hlt free
  rw [hx] at hi
  obtain ⟨hret, -, -⟩ := h.repr.popNode_cons hi
  have hpop : listPopNode p.lists (some i)
      = ((listPopNode p.lists (some i)).1, some c) := by rw [← hret]
  obtain ⟨m, hm⟩ : ∃ m, maxNumPoolSize - i = m + 1 := ⟨maxNumPoolSize - i - 1, by omega⟩
  have hsecond : (memAlloc config p n).2 = some c := by
    simp only [memAlloc, hfind, hm, allocFrom]
    rw [hpop]
    simp only [(h.header c hvc).pData]
  rcases memAlloc_spec hinc h n with he | ⟨p', b, he, hal⟩
  · rw [he] at hsecond
    cases hsecond
  · rw [he] at hsecond
    obtain rfl := Option.some.inj hsecond
    exact ⟨p', b, he, hpc, hal⟩

/-- An allocation that succeeds, as a step of a run. -/
theorem Reachable.memAlloc_some {order : Nat → List Nat} {p0 p' : Pool}
    (hr : Reachable config order p0 p owned) {n : Nat}
    (he : Mempool.memAlloc config p n = (p', some b))
    (hal : Allocated config p free owned n p' b) :
    Reachable config order p0 p' (b :: owned) := by
  have hstep := hr.memAlloc n
  obtain ⟨free', hinv⟩ := hal.inv
  have hin : (p'.node b).isInUsed = 1 := hinv.isInUsed_of_owned (by simp)
  rw [he] at hstep
  have hheld : receive p' owned (some b) = b :: owned := if_neg (by omega)
  exact hheld ▸ hstep

/-- Buffers of 100 and 300 bytes, allocated first of all in a 64-bit build: the joined bytes
fit into the second block only. -/
theorem exists_buffers : ∃ p a b,
    Reachable (gMemPoolConfig true) List.range zeroMemory p [b, a] ∧ a ≠ b ∧
      (p.node a).length = 100 ∧ (p.node b).length = 300 ∧ (p.node a).size < 400 ∧
      400 ≤ (p.node b).size := by
  have hinc := gMemPoolConfig_increasing true
  have h0 := initMemPool_inv (gMemPoolConfig true) zeroMemory
  have hr0 : Reachable (gMemPoolConfig true) List.range zeroMemory _ _ := Reachable.init
  have hmem : (⟨0, 0⟩ : Block) ∈ poolBlocks 0 (gMemPoolConfig true 0).num := by
    rw [mem_poolBlocks]
    decide
  obtain ⟨p1, a, he1, hpool, hal1⟩ :=
    memAlloc_pool hinc h0 (n := 100) (i := 0) (by decide) (List.ne_nil_of_mem hmem)
  have hr1 := hr0.memAlloc_some he1 hal1
  obtain ⟨free1, h1⟩ := hal1.inv
  -- the second pool is as it was
  have hsome : (memAlloc (gMemPoolConfig true) p1 300).2 ≠ none := by
    rw [Ne, memAlloc_none_iff hinc h1]
    intro hno
    have hcount := hno 1 (by decide) (by decide)
    rw [h1.listCount_eq (by decide), List.length_eq_zero_iff] at hcount
    have hv : Valid (gMemPoolConfig true) ⟨1, 0⟩ := by decide
    rcases h1.account ⟨1, 0⟩ hv with ⟨-, hf, -⟩ | ⟨-, -, ho⟩
    · rw [hcount] at hf
      cases hf
    · obtain rfl := List.mem_singleton.mp ho
      cases hpool
  rcases memAlloc_spec hinc h1 300 with he2 | ⟨p2, b, he2, hal2⟩
  · rw [he2] at hsome
    exact absurd rfl hsome
  have hr2 := hr1.memAlloc_some he2 hal2
  obtain ⟨free2, h2⟩ := hal2.inv
  have hab : a ≠ b := fun hc => hal2.notOwned (by simp [hc])
  have hsa := (h2.header a (h2.ownedValid a (by simp))).size
  have hsb := (h2.header b (h2.ownedValid b (by simp))).size
  have hcap := hal2.capacity
  have hbpool := (h2.ownedValid b (by simp)).1
  refine ⟨p2, a, b, hr2, hab, ?_, hal2.length, ?_, ?_⟩
  · rw [hal2.node a hab]
    exact hal1.length
  · rw [hsa, hpool]
    decide
  · rw [hsb]
    have hall : ∀ i < maxNumPoolSize, 300 ≤ (gMemPoolConfig true i).size →
        400 ≤ (gMemPoolConfig true i).size % 2 ^ 16 := by decide
    exact hall b.pool hbpool hcap

theorem joinsAlways_iff_buffers : ∃ p a b,
    Reachable (gMemPoolConfig true) List.range zeroMemory p [b, a] ∧
      (JoinsAlways (gMemPoolConfig true) { p with bytes := fun _ _ => 7 } a b ↔
        Joinable (gMemPoolConfig true) { p with bytes := fun _ _ => 7 } a b) := by
  obtain ⟨p, a, b, hr, hab, -⟩ := exists_buffers
  exact ⟨p, a, b, hr, joinsAlways_iff true List.range zeroMemory hr (fun _ _ => 7)
    (by simp) (by simp) hab⟩

/-- 100 bytes joined with 300 bytes that count upwards: an ascending `memcpy` repeats the
first 100 of them. -/
theorem not_joinsAlways_counting_bytes : ∃ p a b,
    Reachable (gMemPoolConfig true) List.range zeroMemory p [b, a] ∧ a ≠ b ∧
      (p.node a).length = 100 ∧ (p.node b).length = 300 ∧
      ¬ JoinsAlways (gMemPoolConfig true)
        { p with bytes := fun _ k => UInt8.ofNat k } a b := by
  obtain ⟨p, a, b, hr, hab, hla, hlb, hsa, hsb⟩ := exists_buffers
  have hinc := gMemPoolConfig_increasing true
  obtain ⟨free, hinv⟩ := hr.inv hinc
  refine ⟨p, a, b, hr, hab, hla, hlb, ?_⟩
  have h : PoolInv (gMemPoolConfig true) { p with bytes := fun _ k => UInt8.ofNat k }
    free [b, a] := hinv.congr rfl rfl rfl
  rw [h.joins_iff hinc (by simp) (by simp) hab, Joinable, if_neg (by simp only; omega),
    if_pos (by simp only; omega)]
  intro hper
  have := hper 100 (by simp only; omega) (by simp only; omega)
  simp only [hla] at this
  revert this
  decide

end LteUlp.Mempool
