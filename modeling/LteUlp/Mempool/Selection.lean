import LteUlp.Mempool.Join

set_option autoImplicit false

/-! # Which block `MemAlloc` takes

`MemAlloc` looks for the first pool with large enough blocks, and goes on to the next pools as
long as it finds an empty list. As the capacities grow from pool to pool, no pool that it skips
could have served the request, and the one that it takes a block of is the smallest that can.
-/

namespace LteUlp.Mempool

open Intrusive

/-- The capacities grow from pool to pool. -/
def StrictlyIncreasing (config : Nat → MemPoolConfig) : Prop :=
  ∀ i j, i < j → j < maxNumPoolSize → (config i).size < (config j).size

theorem gMemPoolConfig_strictlyIncreasing (x86_64 : Bool) :
    StrictlyIncreasing (gMemPoolConfig x86_64) := by
  have hall : ∀ x : Bool, ∀ j < maxNumPoolSize, ∀ i < j,
      (gMemPoolConfig x i).size < (gMemPoolConfig x j).size := by decide
  exact fun i j hij hj => hall x86_64 j hj i hij

/-- A block of at least `n` bytes is free. -/
def Available (config : Nat → MemPoolConfig) (p : Pool) (n : Nat) : Prop :=
  ∃ i < maxNumPoolSize, n ≤ (config i).size ∧ listCount p.lists (some i) ≠ 0

/-- `MemAlloc(n)` has taken the block `b` out of the free lists `free`: the first one of the
smallest pool that has a free block of at least `n` bytes. Nothing else has changed. -/
structure Taken (config : Nat → MemPoolConfig) (p : Pool) (n : Nat) (p' : Pool) (b : Block)
    (free : Nat → List Block) (xs : List Block) : Prop where
  lists : ∀ i < maxNumPoolSize, Spells p.lists i (free i)
  pool : b.pool < maxNumPoolSize
  head : free b.pool = b :: xs
  enough : n ≤ capacity config b
  smallest : ∀ i < maxNumPoolSize, n ≤ (config i).size → free i ≠ [] →
    capacity config b ≤ (config i).size
  listsAfter : ∀ i < maxNumPoolSize, Spells p'.lists i (Function.update free b.pool xs i)
  node : p'.node b = { p.node b with length := n % 2 ^ 16, isInUsed := 1 }
  others : ∀ c, c ≠ b → p'.node c = p.node c
  bytes : p'.bytes = p.bytes
  numMemBlock : p'.numMemBlock = p.numMemBlock

/-- **`MemAlloc` is complete** and takes a block of the smallest pool that has one. -/
structure AllocComplete (config : Nat → MemPoolConfig) (p : Pool) (n : Nat) : Prop where
  complete : (memAlloc config p n).2.isSome ↔ Available config p n
  takes : ∀ p' b, memAlloc config p n = (p', some b) →
    ∃ free xs, Taken config p n p' b free xs
  fails : (memAlloc config p n).2 = none → (memAlloc config p n).1 = p

variable {config : Nat → MemPoolConfig} {p : Pool} {free : Nat → List Block}
  {owned : List Block}

theorem StrictlyIncreasing.increasing (h : StrictlyIncreasing config) : Increasing config := by
  intro i j hij hj
  rcases Nat.eq_or_lt_of_le hij with rfl | hlt
  · exact Nat.le_refl _
  · exact Nat.le_of_lt (h i j hlt hj)

theorem not_noBlockFor_iff {n : Nat} : ¬ NoBlockFor config p n ↔ Available config p n := by
  unfold NoBlockFor Available
  constructor
  · intro h
    by_contra hno
    refine h fun i hi hle => ?_
    by_contra hcount
    exact hno ⟨i, hi, hle, hcount⟩
  · rintro ⟨i, hi, hle, hcount⟩ hno
    exact hcount (hno i hi hle)

/-- The loop of `MemAlloc` has found the pools before that of the block empty. -/
theorem allocFrom_skips (h : PoolInv config p free owned) {b : Block} :
    ∀ (fuel poolId : Nat), poolId + fuel = maxNumPoolSize → ∀ q,
      allocFrom p fuel poolId = (q, some b) → ∀ i, poolId ≤ i → i < b.pool → free i = []
  | 0, _, _, q, hr => by cases hr
  | fuel + 1, poolId, hf, q, hr => by
      intro i hle hlt
      have hid : poolId < maxNumPoolSize := by omega
      have hi := poolLists_of_lt hid free
      rw [allocFrom] at hr
      cases hx : free poolId with
      | nil =>
          rw [hx] at hi
          rw [h.repr.popNode_nil hi] at hr
          rcases Nat.eq_or_lt_of_le hle with rfl | hgt
          · exact hx
          · exact allocFrom_skips h fuel (poolId + 1) (by omega) q hr i hgt hlt
      | cons c xs =>
          rw [hx] at hi
          obtain ⟨hret, -, -⟩ := h.repr.popNode_cons hi
          have hpop : listPopNode p.lists (some poolId)
              = ((listPopNode p.lists (some poolId)).1, some c) := by rw [← hret]
          rw [hpop] at hr
          have hcb : c = b := Option.some.inj (Prod.mk.inj hr).2
          have hc : c.pool = poolId := (h.member poolId hid c (by simp [hx])).2
          rw [← hcb, hc] at hlt
          omega

theorem memAlloc_taken (hinc : Increasing config) (h : PoolInv config p free owned) {n : Nat}
    {p' : Pool} {b : Block} (ha : memAlloc config p n = (p', some b)) :
    ∃ free xs, Taken config p n p' b free xs := by
  cases hfind : findMatchPool config n with
  | none =>
      rw [memAlloc, hfind] at ha
      cases ha
  | some poolId =>
      have hle : n ≤ (config poolId).size := by simpa using List.find?_some hfind
      have hlt : poolId < maxNumPoolSize := List.mem_range.mp (List.mem_of_find?_eq_some hfind)
      rcases allocFrom_spec h (maxNumPoolSize - poolId) poolId (by omega) with
        hr | ⟨lists, c, xs, hr, hpc, hc, hfree, hrep⟩
      · simp only [memAlloc, hfind, hr] at ha
        cases ha
      · have hmem : c ∈ free c.pool := by rw [hfree]; simp
        have hval : Valid config c := (h.member c.pool hc c hmem).1
        simp only [memAlloc, hfind, hr] at ha
        obtain ⟨rfl, hb⟩ := Prod.mk.inj ha
        have hcb : c = b := by
          rw [← (h.header c hval).pData]
          exact Option.some.inj hb
        subst hcb
        have hskips := allocFrom_skips h (maxNumPoolSize - poolId) poolId (by omega) _ hr
        refine ⟨free, xs, fun i hi => (h.repr.linked i _ (poolLists_of_lt hi free)).spells, hc,
          hfree, hle.trans (hinc poolId c.pool hpc hc), fun i hi hn hne => ?_,
          fun i hi => ?_, ?_, fun d hd => ?_, rfl, rfl⟩
        · have hafter : c.pool ≤ i := by
            by_contra hbefore
            exact hne (hskips i (findMatchPool_le hfind hn) (by omega))
          exact hinc c.pool i hafter hi
        · exact (hrep.linked i _ (poolLists_of_lt hi _)).spells
        · exact Function.update_self ..
        · exact Function.update_of_ne hd _ _

theorem memAlloc_fails (hinc : Increasing config) (h : PoolInv config p free owned) {n : Nat}
    (ha : (memAlloc config p n).2 = none) : (memAlloc config p n).1 = p := by
  rcases memAlloc_spec hinc h n with hnone | ⟨p', b, hsome, -⟩
  · rw [hnone]
  · rw [hsome] at ha
    cases ha

theorem PoolInv.allocComplete (hinc : Increasing config) (h : PoolInv config p free owned)
    (n : Nat) : AllocComplete config p n := by
  refine ⟨?_, fun p' b ha => memAlloc_taken hinc h ha, memAlloc_fails hinc h⟩
  rw [← not_noBlockFor_iff, Option.isSome_iff_ne_none]
  exact not_congr (memAlloc_none_iff hinc h n)

/-- **For every configuration with growing capacities** and in every reachable state of the
pool, whatever the callers have stored in their buffers. -/
theorem memAlloc_complete (config : Nat → MemPoolConfig) (hinc : StrictlyIncreasing config)
    (order : Nat → List Nat) (p0 p : Pool) (owned : List Block)
    (h : Reachable config order p0 p owned) (bytes : Block → Nat → UInt8) (n : Nat) :
    AllocComplete config { p with bytes := bytes } n := by
  obtain ⟨free, hinv⟩ := h.inv hinc.increasing
  have hinv' : PoolInv config { p with bytes := bytes } free owned := hinv.congr rfl rfl rfl
  exact hinv'.allocComplete hinc.increasing n

/-- The first call after `InitMemPool`, with both tables. -/
theorem memAlloc_complete_first :
    AllocComplete (gMemPoolConfig true)
        { initMemPool (gMemPoolConfig true) zeroMemory with bytes := fun _ _ => 7 } 300 ∧
      AllocComplete (gMemPoolConfig false)
        { initMemPool (gMemPoolConfig false) zeroMemory with bytes := fun _ _ => 7 } 300 :=
  ⟨memAlloc_complete _ (gMemPoolConfig_strictlyIncreasing true) List.range zeroMemory _ [] .init
      (fun _ _ => 7) 300,
    memAlloc_complete _ (gMemPoolConfig_strictlyIncreasing false) List.range zeroMemory _ []
      .init (fun _ _ => 7) 300⟩

end LteUlp.Mempool
