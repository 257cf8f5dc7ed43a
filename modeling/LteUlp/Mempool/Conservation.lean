import LteUlp.Mempool.Model

set_option autoImplicit false

/-! # Conservation and exclusivity of the pool blocks

`PoolInv config p free owned` is the invariant of the memory pool: the free lists hold the
sequences `free`, every block is either free and in the list of its own pool or in use and
in `owned`, and the fixed header fields are those `InitMemPool` stored. `owned` is the list
of buffers that callers hold; a caller gets a buffer from `MemAlloc` or `MemJoin` and gives
it back with `MemFree` or `MemJoin`.

Each operation has one lemma that says what it does to `free` and `owned`; the invariant of
a run follows by induction (`Reachable.inv`).
-/

namespace LteUlp.Mempool

open Intrusive

/-- A block of one of the ten pools. -/
def Valid (config : Nat → MemPoolConfig) (b : Block) : Prop :=
  b.pool < maxNumPoolSize ∧ b.idx < (config b.pool).num

instance (config : Nat → MemPoolConfig) (b : Block) : Decidable (Valid config b) :=
  inferInstanceAs (Decidable (_ ∧ _))

/-- The free lists as list contents: the ten pools are initialised. -/
def poolLists (free : Nat → List Block) : Abs Nat Block :=
  fun i => if i < maxNumPoolSize then some (free i) else none

theorem poolLists_update {free : Nat → List Block} {i : Nat} (hi : i < maxNumPoolSize)
    (xs : List Block) :
    Function.update (poolLists free) i (some xs) = poolLists (Function.update free i xs) := by
  funext j
  by_cases hj : j = i
  · subst hj; simp [poolLists, hi]
  · simp [poolLists, Function.update_of_ne hj]

theorem poolLists_of_lt {i : Nat} (hi : i < maxNumPoolSize) (free : Nat → List Block) :
    poolLists free i = some (free i) := if_pos hi

/-- The header fields that never change. -/
structure HeaderOf (config : Nat → MemPoolConfig) (b : Block) (nd : MemNode) : Prop where
  magicNo : nd.magicNo = magicNumber
  poolId : nd.poolId = b.pool
  size : nd.size = (config b.pool).size % 2 ^ 16
  pData : nd.pData = b

/-- A free block is in the list of its pool, a block in use is owned. -/
def Accounted (free : Nat → List Block) (owned : List Block) (b : Block) (nd : MemNode) :
    Prop :=
  (nd.isInUsed = 0 ∧ b ∈ free b.pool ∧ b ∉ owned) ∨
    (nd.isInUsed = 1 ∧ b ∉ free b.pool ∧ b ∈ owned)

/-- The invariant of the memory pool. -/
structure PoolInv (config : Nat → MemPoolConfig) (p : Pool) (free : Nat → List Block)
    (owned : List Block) : Prop where
  repr : Repr p.lists (poolLists free)
  member : ∀ i < maxNumPoolSize, ∀ b ∈ free i, Valid config b ∧ b.pool = i
  header : ∀ b, Valid config b → HeaderOf config b (p.node b)
  account : ∀ b, Valid config b → Accounted free owned b (p.node b)
  ownedValid : ∀ b ∈ owned, Valid config b
  ownedNodup : owned.Nodup
  length : ∀ b, Valid config b → (p.node b).length ≤ capacity config b
  num : p.numMemBlock = ((List.range maxNumPoolSize).map fun i => (config i).num).sum

/-- The capacities do not decrease from pool to pool, as in both tables of `mempool.h`. -/
def Increasing (config : Nat → MemPoolConfig) : Prop :=
  ∀ i j, i ≤ j → j < maxNumPoolSize → (config i).size ≤ (config j).size

theorem gMemPoolConfig_increasing (x86_64 : Bool) : Increasing (gMemPoolConfig x86_64) := by
  have key : ∀ x : Bool, ∀ j < maxNumPoolSize, ∀ i < j + 1,
      (gMemPoolConfig x i).size ≤ (gMemPoolConfig x j).size := by decide
  exact fun i j hij hj => key x86_64 j hj i (by omega)

variable {config : Nat → MemPoolConfig} {p : Pool} {free : Nat → List Block}
  {owned : List Block}

/-! ## Facts about a state that keeps the invariant -/

theorem PoolInv.free_nodup (h : PoolInv config p free owned) {i : Nat}
    (hi : i < maxNumPoolSize) : (free i).Nodup :=
  (h.repr.linked i _ (poolLists_of_lt hi free)).nodup

theorem PoolInv.isInUsed_of_owned (h : PoolInv config p free owned) {b : Block}
    (hb : b ∈ owned) : (p.node b).isInUsed = 1 := by
  rcases h.account b (h.ownedValid b hb) with ⟨-, -, hn⟩ | ⟨hu, -, -⟩
  · exact absurd hb hn
  · exact hu

theorem checkNode_none (p : Pool) : checkNode p none = none := rfl

theorem PoolInv.checkNode_valid (h : PoolInv config p free owned) {b : Block}
    (hb : Valid config b) : checkNode p (some b) = some b := by
  have hh := h.header b hb
  have hlt : ¬ b.pool ≥ maxNumPoolSize := by have := hb.1; omega
  simp [checkNode, hh.magicNo, hh.poolId, hlt]

/-- A change of a header that keeps the fixed fields, the use flag and the bound on the
recorded length keeps the invariant. -/
theorem PoolInv.setNode (h : PoolInv config p free owned) {b : Block} (v : MemNode)
    (hv : HeaderOf config b v) (hu : v.isInUsed = (p.node b).isInUsed)
    (hlen : v.length ≤ capacity config b) : PoolInv config (p.setNode b v) free owned := by
  have hnode : ∀ c, (p.setNode b v).node c = if c = b then v else p.node c := by
    intro c
    by_cases hc : c = b <;> simp [Pool.setNode, hc]
  refine ⟨h.repr, h.member, fun c hc => ?_, fun c hc => ?_, h.ownedValid, h.ownedNodup,
    fun c hc => ?_, h.num⟩
  · rw [hnode]
    split
    · next he => exact he ▸ hv
    · exact h.header c hc
  · rw [hnode]
    split
    · next he =>
        subst he
        have := h.account c hc
        simpa only [Accounted, hu] using this
    · exact h.account c hc
  · rw [hnode]
    split
    · next he => exact he ▸ hlen
    · exact h.length c hc

/-- Only the data areas differ. -/
theorem PoolInv.congr {p' : Pool} (h : PoolInv config p free owned)
    (hl : p'.lists = p.lists) (hn : p'.node = p.node) (hm : p'.numMemBlock = p.numMemBlock) :
    PoolInv config p' free owned :=
  ⟨hl ▸ h.repr, h.member, hn ▸ h.header, hn ▸ h.account, h.ownedValid, h.ownedNodup,
    hn ▸ h.length, hm.trans h.num⟩

/-! ## `MemAlloc` -/

/-- What the loop of `MemAlloc` does: nothing, or it unlinks the first free block of a pool
that is not before `poolId`. -/
theorem allocFrom_spec (h : PoolInv config p free owned) :
    ∀ (fuel poolId : Nat), poolId + fuel = maxNumPoolSize →
      allocFrom p fuel poolId = (p, none) ∨
      ∃ lists b xs, allocFrom p fuel poolId = ({ p with lists := lists }, some b) ∧
        poolId ≤ b.pool ∧ b.pool < maxNumPoolSize ∧ free b.pool = b :: xs ∧
        Repr lists (poolLists (Function.update free b.pool xs))
  | 0, _, _ => Or.inl rfl
  | fuel + 1, poolId, hf => by
      have hlt : poolId < maxNumPoolSize := by omega
      have hi := poolLists_of_lt hlt free
      rw [allocFrom]
      cases hx : free poolId with
      | nil =>
          rw [hx] at hi
          rw [h.repr.popNode_nil hi]
          rcases allocFrom_spec h fuel (poolId + 1) (by omega) with hr | ⟨lists, b, xs, hr, hle, hrest⟩
          · exact Or.inl hr
          · exact Or.inr ⟨lists, b, xs, hr, by omega, hrest⟩
      | cons b xs =>
          rw [hx] at hi
          obtain ⟨hret, hrep, -⟩ := h.repr.popNode_cons hi
          have hb : b.pool = poolId := (h.member poolId hlt b (by rw [hx]; simp)).2
          right
          refine ⟨(listPopNode p.lists (some poolId)).1, b, xs, ?_, by omega, by omega,
            by rw [hb, hx], ?_⟩
          · have : listPopNode p.lists (some poolId)
                = ((listPopNode p.lists (some poolId)).1, some b) := by rw [← hret]
            rw [this]
          · rw [hb, ← poolLists_update hlt]
            exact hrep

/-- What `MemAlloc` does: nothing, or it takes one free block, which is large enough, out of
its list. -/
structure Allocated (config : Nat → MemPoolConfig) (p : Pool) (free : Nat → List Block)
    (owned : List Block) (n : Nat) (p' : Pool) (b : Block) : Prop where
  valid : Valid config b
  wasFree : (p.node b).isInUsed = 0
  notOwned : b ∉ owned
  capacity : n ≤ capacity config b
  length : (p'.node b).length = n % 2 ^ 16
  node : ∀ c, c ≠ b → p'.node c = p.node c
  bytes : p'.bytes = p.bytes
  inv : ∃ free', PoolInv config p' free' (b :: owned)

theorem memAlloc_spec (hinc : Increasing config) (h : PoolInv config p free owned) (n : Nat) :
    memAlloc config p n = (p, none) ∨
      ∃ p' b, memAlloc config p n = (p', some b) ∧ Allocated config p free owned n p' b := by
  cases hfind : findMatchPool config n with
  | none =>
      left
      simp only [memAlloc, hfind]
  | some poolId =>
      have hle : n ≤ (config poolId).size := by simpa using List.find?_some hfind
      have hlt : poolId < maxNumPoolSize := List.mem_range.mp (List.mem_of_find?_eq_some hfind)
      rcases allocFrom_spec h (maxNumPoolSize - poolId) poolId (by omega) with
        hr | ⟨lists, b, xs, hr, hpb, hb, hfree, hrep⟩
      · left
        simp only [memAlloc, hfind, hr]
      · right
        have hmem : b ∈ free b.pool := by rw [hfree]; simp
        have hval : Valid config b := (h.member b.pool hb b hmem).1
        have hhead := h.header b hval
        have hnd : (b :: xs).Nodup := hfree ▸ h.free_nodup hb
        have hcap : n ≤ capacity config b := hle.trans (hinc poolId b.pool hpb hb)
        obtain ⟨hu, -, hno⟩ : (p.node b).isInUsed = 0 ∧ b ∈ free b.pool ∧ b ∉ owned := by
          rcases h.account b hval with hacc | ⟨-, hnf, -⟩
          · exact hacc
          · exact absurd hmem hnf
        set p' := ({ p with lists := lists } : Pool).setNode b
          { p.node b with length := n % 2 ^ 16, isInUsed := 1 } with hp'
        have hnode : ∀ c, c ≠ b → p'.node c = p.node c := by
          intro c hc
          simp [hp', Pool.setNode, hc]
        have hself : p'.node b = { p.node b with length := n % 2 ^ 16, isInUsed := 1 } := by
          simp [hp', Pool.setNode]
        have hres : memAlloc config p n = (p', some b) := by
          simp only [memAlloc, hfind, hr]
          show (p', some (p.node b).pData) = (p', some b)
          rw [hhead.pData]
        refine ⟨p', b, hres, hval, hu, hno, hcap,
          by rw [hself], hnode, rfl, Function.update free b.pool xs, ?_⟩
        refine ⟨hrep, fun i hi c hc => ?_, fun c hc => ?_, fun c hc => ?_, fun c hc => ?_,
          List.nodup_cons.mpr ⟨hno, h.ownedNodup⟩, fun c hc => ?_, h.num⟩
        · by_cases hib : i = b.pool
          · subst hib
            rw [Function.update_self] at hc
            exact h.member _ hi c (by rw [hfree]; simp [hc])
          · rw [Function.update_of_ne hib] at hc
            exact h.member i hi c hc
        · by_cases hcb : c = b
          · subst hcb
            rw [hself]
            exact ⟨hhead.magicNo, hhead.poolId, hhead.size, hhead.pData⟩
          · rw [hnode c hcb]
            exact h.header c hc
        · by_cases hcb : c = b
          · subst hcb
            right
            rw [hself, Function.update_self]
            exact ⟨rfl, (List.nodup_cons.mp hnd).1, by simp⟩
          · rw [hnode c hcb]
            have hf : c ∈ Function.update free b.pool xs c.pool ↔ c ∈ free c.pool := by
              by_cases hp : c.pool = b.pool
              · rw [hp, Function.update_self, hfree]
                simp [hcb]
              · rw [Function.update_of_ne hp]
            have := h.account c hc
            simpa only [Accounted, hf, List.mem_cons, hcb, false_or] using this
        · rcases List.mem_cons.mp hc with rfl | hc
          · exact hval
          · exact h.ownedValid c hc
        · by_cases hcb : c = b
          · subst hcb
            rw [hself]
            exact (Nat.mod_le _ _).trans hcap
          · rw [hnode c hcb]
            exact h.length c hc

/-! ## `MemFree` -/

/-- Freeing a block that is already free, or a null pointer, changes nothing. -/
theorem memFree_of_free (h : PoolInv config p free owned) {b : Block} (hb : Valid config b)
    (hu : (p.node b).isInUsed = 0) : memFree p (some b) = p := by
  rw [memFree, h.checkNode_valid hb]
  simp [hu]

/-- What `MemFree` does to a block in use: it goes to the end of the list of its pool. -/
structure Freed (config : Nat → MemPoolConfig) (p : Pool) (owned : List Block) (b : Block)
    (p' : Pool) : Prop where
  node : ∀ c, c ≠ b → p'.node c = p.node c
  isFree : (p'.node b).isInUsed = 0
  bytes : p'.bytes = p.bytes
  inv : ∃ free', PoolInv config p' free' (owned.erase b)

theorem memFree_spec (h : PoolInv config p free owned) {b : Block} (hb : Valid config b)
    (hu : (p.node b).isInUsed ≠ 0) : Freed config p owned b (memFree p (some b)) := by
  have hhead := h.header b hb
  have hlt := hb.1
  obtain ⟨-, hnf, -⟩ : (p.node b).isInUsed = 1 ∧ b ∉ free b.pool ∧ b ∈ owned := by
    rcases h.account b hb with ⟨hz, -, -⟩ | hacc
    · exact absurd hz hu
    · exact hacc
  have hunl : (poolLists free).Unlinked b := by
    intro i xs hi hmem
    by_cases hil : i < maxNumPoolSize
    · rw [poolLists_of_lt hil free] at hi
      obtain rfl := Option.some.inj hi
      have hp := (h.member i hil b hmem).2
      subst hp
      exact hnf hmem
    · simp [poolLists, hil] at hi
  have hrep := (h.repr.pushNode (poolLists_of_lt hlt free) hunl).1
  rw [poolLists_update hlt] at hrep
  set p' : Pool := { (p.setNode b { p.node b with length := 0, isInUsed := 0 }) with
    lists := listPushNode p.lists (some (p.node b).poolId) (some b) } with hp'
  have he : memFree p (some b) = p' := by
    rw [memFree, h.checkNode_valid hb]
    exact if_pos hu
  have hlists : p'.lists = listPushNode p.lists (some b.pool) (some b) := by
    rw [← hhead.poolId]
  have hnode : ∀ c, c ≠ b → p'.node c = p.node c := by
    intro c hc
    simp [hp', Pool.setNode, hc]
  have hself : p'.node b = { p.node b with length := 0, isInUsed := 0 } := by
    simp [hp', Pool.setNode]
  rw [he]
  refine ⟨hnode, by rw [hself], rfl, Function.update free b.pool (free b.pool ++ [b]), ?_⟩
  refine ⟨hlists ▸ hrep, fun i hi c hc => ?_, fun c hc => ?_, fun c hc => ?_,
    fun c hc => h.ownedValid c (List.mem_of_mem_erase hc), h.ownedNodup.erase b,
    fun c hc => ?_, h.num⟩
  · by_cases hib : i = b.pool
    · subst hib
      rw [Function.update_self] at hc
      rcases List.mem_append.mp hc with hc | hc
      · exact h.member _ hi c hc
      · obtain rfl := List.mem_singleton.mp hc
        exact ⟨hb, rfl⟩
    · rw [Function.update_of_ne hib] at hc
      exact h.member i hi c hc
  · by_cases hcb : c = b
    · subst hcb
      rw [hself]
      exact ⟨hhead.magicNo, hhead.poolId, hhead.size, hhead.pData⟩
    · rw [hnode c hcb]
      exact h.header c hc
  · by_cases hcb : c = b
    · subst hcb
      left
      rw [hself, Function.update_self]
      exact ⟨rfl, by simp, h.ownedNodup.not_mem_erase⟩
    · rw [hnode c hcb]
      have hf : c ∈ Function.update free b.pool (free b.pool ++ [b]) c.pool ↔
          c ∈ free c.pool := by
        by_cases hp : c.pool = b.pool
        · rw [hp, Function.update_self]
          simp [hcb]
        · rw [Function.update_of_ne hp]
      have := h.account c hc
      simpa only [Accounted, hf, List.mem_erase_of_ne hcb] using this
  · by_cases hcb : c = b
    · subst hcb
      rw [hself]
      exact Nat.zero_le _
    · rw [hnode c hcb]
      exact h.length c hc

/-- `MemFree` of a null pointer or of any block of the pools keeps the invariant; the block
is no longer owned. -/
theorem memFree_inv (h : PoolInv config p free owned) {b : Block} (hb : Valid config b) :
    ∃ free', PoolInv config (memFree p (some b)) free' (owned.erase b) := by
  by_cases hu : (p.node b).isInUsed = 0
  · rw [memFree_of_free h hb hu]
    have hno : b ∉ owned := by
      rcases h.account b hb with ⟨-, -, hno⟩ | ⟨hu', -, -⟩
      · exact hno
      · omega
    rw [List.erase_of_not_mem hno]
    exact ⟨free, h⟩
  · exact (memFree_spec h hb hu).inv

/-! ## Copies -/

/-- A change of the data area of `dst` only. -/
structure BytesOnly (p p' : Pool) (dst : Block) : Prop where
  lists : p'.lists = p.lists
  node : p'.node = p.node
  numMemBlock : p'.numMemBlock = p.numMemBlock
  bytes : ∀ b, b ≠ dst → p'.bytes b = p.bytes b

theorem PoolInv.bytesOnly {p' : Pool} {dst : Block} (h : PoolInv config p free owned)
    (hc : BytesOnly p p' dst) : PoolInv config p' free owned :=
  h.congr hc.lists hc.node hc.numMemBlock

theorem copyLoop_bytesOnly (dst src : Block) (dstOff srcOff : Nat) (ks : List Nat)
    (p : Pool) : BytesOnly p (ks.foldl
      (fun p k => p.setByte dst (dstOff + k) (p.bytes src (srcOff + k))) p) dst := by
  induction ks generalizing p with
  | nil => exact ⟨rfl, rfl, rfl, fun _ _ => rfl⟩
  | cons k ks ih =>
      obtain ⟨hl, hn, hm, hb⟩ := ih (p.setByte dst (dstOff + k) (p.bytes src (srcOff + k)))
      refine ⟨hl, hn, hm, fun b hne => ?_⟩
      rw [List.foldl_cons, hb b hne]
      simp [Pool.setByte, hne]

/-- A copy within the data areas does not fault. -/
theorem memcpy_spec (order : Nat → List Nat) (p : Pool) (dst : Block) (dstOff : Nat)
    (src : Block) (srcOff n : Nat) (hd : dstOff + n ≤ capacity config dst)
    (hs : srcOff + n ≤ capacity config src) :
    ∃ p', memcpy config order p dst dstOff src srcOff n = some p' ∧ BytesOnly p p' dst :=
  ⟨_, if_pos ⟨hd, hs⟩, copyLoop_bytesOnly dst src dstOff srcOff (order n) p⟩

theorem memmove_spec (p : Pool) {b : Block} {dstOff srcOff n : Nat}
    (hd : dstOff + n ≤ capacity config b) (hs : srcOff + n ≤ capacity config b) :
    ∃ p', memmove config p b dstOff srcOff n = some p' ∧ BytesOnly p p' b := by
  refine ⟨_, if_pos ⟨hd, hs⟩, rfl, rfl, rfl, fun c hc => ?_⟩
  simp [hc]

/-! ## `MemRemove` -/

/-- `MemRemove` shortens the recorded length and moves bytes of the block at most. -/
theorem memRemove_spec (h : PoolInv config p free owned) {b : Block} (hb : Valid config b)
    (wher count : Nat) :
    ∃ p' n, memRemove config p (some b) wher count = some (p', n) ∧
      PoolInv config p' free owned := by
  have hlen := h.length b hb
  have shorten : ∀ {p' : Pool} (n : Nat), PoolInv config p' free owned →
      PoolInv config (p'.setNode b { p'.node b with length := (p.node b).length - n })
        free owned := by
    intro p' n h'
    have hh := h'.header b hb
    exact h'.setNode _ ⟨hh.magicNo, hh.poolId, hh.size, hh.pData⟩ rfl
      ((Nat.sub_le _ _).trans hlen)
  simp only [memRemove, h.checkNode_valid hb]
  by_cases hw : wher ≥ (p.node b).length
  · exact ⟨p, 0, by simp [hw], h⟩
  · by_cases hc : count > (p.node b).length - wher
    · exact ⟨_, _, by rw [if_neg hw, if_pos hc], shorten _ h⟩
    · have hd : wher + ((p.node b).length - wher - count) ≤ capacity config b := by omega
      have hs : wher + count + ((p.node b).length - wher - count) ≤ capacity config b := by
        omega
      obtain ⟨p', hm, hby⟩ := memmove_spec p hd hs
      exact ⟨_, _, by rw [if_neg hw, if_neg hc, hm]; rfl, shorten _ (h.bytesOnly hby)⟩

/-! ## `MemJoin` -/

/-- The buffers held after giving a buffer (or a null pointer) away. -/
def give (owned : List Block) : Option Block → List Block
  | none => owned
  | some b => owned.erase b

/-- The buffers held after receiving the result of `MemJoin`. Joining a buffer with itself
returns a buffer that has just been freed, and nothing is received. -/
def receive (p : Pool) (owned : List Block) : Option Block → List Block
  | none => owned
  | some b => if (p.node b).isInUsed = 0 then owned else b :: owned

/-- The order in which the buffers in use are listed does not matter. -/
theorem PoolInv.perm {owned' : List Block} (h : PoolInv config p free owned)
    (hp : owned.Perm owned') : PoolInv config p free owned' := by
  refine ⟨h.repr, h.member, h.header, fun b hb => ?_, fun b hb => ?_,
    hp.nodup_iff.mp h.ownedNodup, h.length, h.num⟩
  · have := h.account b hb
    simpa only [Accounted, hp.mem_iff] using this
  · exact h.ownedValid b (hp.mem_iff.mpr hb)

theorem PoolInv.pData (h : PoolInv config p free owned) {b : Block} (hb : b ∈ owned) :
    (p.node b).pData = b := (h.header b (h.ownedValid b hb)).pData

/-- The recorded size never exceeds the data area, which may be larger than 16 bits. -/
theorem PoolInv.size_le (h : PoolInv config p free owned) {b : Block} (hb : b ∈ owned) :
    (p.node b).size ≤ capacity config b := by
  rw [(h.header b (h.ownedValid b hb)).size]
  exact Nat.mod_le _ _

/-- The end of two branches of `MemJoin`: the joined contents are in `x`, its recorded
length is set and `y` is freed. -/
theorem join_into (h : PoolInv config p free owned) {x y : Block} (hx : x ∈ owned)
    (hy : y ∈ owned) {n : Nat} (hn : n ≤ capacity config x) {p' : Pool}
    (hp' : p' = memFree (p.setNode x { p.node x with length := n }) (some y)) :
    (∃ free', PoolInv config p' free' (receive p' ((owned.erase x).erase y) (some x))) ∧
      (x ≠ y → (p'.node x).isInUsed = 1) := by
  have hhead := h.header x (h.ownedValid x hx)
  have h1 : PoolInv config (p.setNode x { p.node x with length := n }) free owned :=
    h.setNode _ ⟨hhead.magicNo, hhead.poolId, hhead.size, hhead.pData⟩ rfl hn
  have huy := h1.isInUsed_of_owned hy
  have hf := memFree_spec h1 (h.ownedValid y hy) (by omega)
  rw [← hp'] at hf
  obtain ⟨free', hinv⟩ := hf.inv
  by_cases hxy : x = y
  · subst hxy
    refine ⟨⟨free', ?_⟩, fun hne => absurd rfl hne⟩
    rw [receive, if_pos hf.isFree, List.erase_of_not_mem h.ownedNodup.not_mem_erase]
    exact hinv
  · have hin : (p'.node x).isInUsed = 1 := by
      rw [hf.node x hxy]
      exact h1.isInUsed_of_owned hx
    refine ⟨⟨free', ?_⟩, fun _ => hin⟩
    have hmem : x ∈ owned.erase y := (List.mem_erase_of_ne hxy).mpr hx
    rw [receive, if_neg (by omega), List.erase_comm]
    exact hinv.perm (List.perm_cons_erase hmem)

/-- **`MemJoin` of two buffers in use.** It copies within the data areas only, frees what it
does not return, and returns one buffer in use or none; all three branches are covered. -/
theorem memJoin_spec (hinc : Increasing config) (order : Nat → List Nat)
    (h : PoolInv config p free owned) {src dst : Block} (hs : src ∈ owned) (hd : dst ∈ owned) :
    ∃ p' out, memJoin config order p (some src) (some dst) = some (p', out) ∧
      (∃ free', PoolInv config p' free' (receive p' ((owned.erase src).erase dst) out)) ∧
      (src ≠ dst → ∀ b, out = some b → (p'.node b).isInUsed = 1) := by
  have hvs := h.ownedValid src hs
  have hvd := h.ownedValid dst hd
  have hls := h.length src hvs
  have hld := h.length dst hvd
  simp only [memJoin, h.checkNode_valid hvs, h.checkNode_valid hvd]
  by_cases h1 : (p.node src).size ≥ (p.node src).length + (p.node dst).length
  · have hsz := h.size_le hs
    obtain ⟨p1, hcp, hb1⟩ := memcpy_spec order p src (p.node src).length dst 0
      (p.node dst).length (show _ ≤ capacity config src by omega)
      (show _ ≤ capacity config dst by omega)
    have hi1 := h.bytesOnly hb1
    have hn : ((p1.node src).length + (p1.node dst).length) % 2 ^ 16 ≤ capacity config src := by
      rw [hb1.node]
      exact (Nat.mod_le _ _).trans (h1.le.trans hsz)
    obtain ⟨hinv, huse⟩ := join_into hi1 hs hd hn rfl
    refine ⟨_, _, by rw [if_pos h1, hcp]; rfl, hinv, fun hne b hb => ?_⟩
    obtain rfl := Option.some.inj hb
    exact huse hne
  · by_cases h2 : (p.node dst).size ≥ (p.node src).length + (p.node dst).length
    · have hsz := h.size_le hd
      obtain ⟨p1, hcp1, hb1⟩ := memcpy_spec order p dst (p.node src).length dst 0
        (p.node dst).length (show _ ≤ capacity config dst by omega)
        (show _ ≤ capacity config dst by omega)
      obtain ⟨p2, hcp2, hb2⟩ := memcpy_spec order p1 dst 0 src 0 (p.node src).length
        (show _ ≤ capacity config dst by omega) (show _ ≤ capacity config src by omega)
      have hi2 := (h.bytesOnly hb1).bytesOnly hb2
      have hn : ((p2.node dst).length + (p2.node src).length) % 2 ^ 16
          ≤ capacity config dst := by
        rw [hb2.node, hb1.node]
        exact (Nat.mod_le _ _).trans (by omega)
      obtain ⟨hinv, huse⟩ := join_into hi2 hd hs hn rfl
      rw [List.erase_comm] at hinv
      refine ⟨_, _, by rw [if_neg h1, if_pos h2, hcp1, Option.bind_some, hcp2]; rfl, hinv,
        fun hne b hb => ?_⟩
      obtain rfl := Option.some.inj hb
      exact huse hne.symm
    · rw [if_neg h1, if_neg h2]
      rcases memAlloc_spec hinc h ((p.node src).length + (p.node dst).length) with
        ha | ⟨p1, b, ha, hal⟩
      · rw [ha]
        obtain ⟨free1, hf1⟩ := memFree_inv h hvs
        obtain ⟨free2, hf2⟩ := memFree_inv hf1 hvd
        exact ⟨_, none, rfl, ⟨free2, hf2⟩, fun _ b hb => nomatch hb⟩
      · obtain ⟨free1, hi1⟩ := hal.inv
        have hsb : src ≠ b := fun hc => hal.notOwned (hc ▸ hs)
        have hdb : dst ≠ b := fun hc => hal.notOwned (hc ▸ hd)
        have hcap := hal.capacity
        have hps : (p1.node src).pData = src := hi1.pData (by simp [hs])
        have hns : (p1.node src).length = (p.node src).length := by rw [hal.node src hsb]
        have hnd : (p1.node dst).length = (p.node dst).length := by rw [hal.node dst hdb]
        obtain ⟨p2, hcp2, hb2⟩ := memcpy_spec order p1 b 0 src 0 (p1.node src).length
          (show _ ≤ capacity config b by omega) (show _ ≤ capacity config src by omega)
        have hi2 := hi1.bytesOnly hb2
        have hpd : (p2.node dst).pData = dst := hi2.pData (by simp [hd])
        obtain ⟨p3, hcp3, hb3⟩ := memcpy_spec order p2 b (p2.node src).length dst 0
          (p2.node dst).length (show _ ≤ capacity config b by rw [hb2.node]; omega)
          (show _ ≤ capacity config dst by rw [hb2.node]; omega)
        have hi3 := hi2.bytesOnly hb3
        obtain ⟨free4, hi4⟩ := memFree_inv hi3 hvs
        obtain ⟨free5, hi5⟩ := memFree_inv hi4 hvd
        have herase : ((b :: owned).erase src).erase dst
            = b :: (owned.erase src).erase dst := by
          rw [List.erase_cons_tail (by simpa using hsb.symm),
            List.erase_cons_tail (by simpa using hdb.symm)]
        rw [herase] at hi5
        have hin := hi5.isInUsed_of_owned (b := b) (by simp)
        refine ⟨_, some b, by rw [ha]; simp only [hps, hcp2, Option.bind_some, hpd, hcp3]; rfl,
          ⟨free5, ?_⟩, fun _ c hc => ?_⟩
        · rw [receive, if_neg (by omega)]
          exact hi5
        · obtain rfl := Option.some.inj hc
          exact hin

/-- `MemJoin` with a null pointer frees the other buffer. -/
theorem memJoin_none (h : PoolInv config p free owned) (order : Nat → List Nat)
    {src dst : Option Block} (hs : ∀ b, src = some b → b ∈ owned)
    (hd : ∀ b, dst = some b → b ∈ owned) (hnone : src = none ∨ dst = none) :
    ∃ p', memJoin config order p src dst = some (p', none) ∧
      ∃ free', PoolInv config p' free' (give (give owned src) dst) := by
  cases src with
  | none =>
      cases dst with
      | none => exact ⟨p, rfl, free, h⟩
      | some d =>
          have hv := h.ownedValid d (hd d rfl)
          exact ⟨_, by simp only [memJoin, checkNode_none, h.checkNode_valid hv], memFree_inv h hv⟩
  | some s =>
      have hv := h.ownedValid s (hs s rfl)
      cases dst with
      | none => exact ⟨_, by simp only [memJoin, checkNode_none, h.checkNode_valid hv], memFree_inv h hv⟩
      | some d => simp at hnone

/-! ## `InitMemPool` -/

/-- The blocks of a pool, as far as the inner loop of `InitMemPool` has come. -/
def poolBlocks (i j : Nat) : List Block := (List.range j).map (Block.mk i)

theorem mem_poolBlocks {i j : Nat} {b : Block} :
    b ∈ poolBlocks i j ↔ b.pool = i ∧ b.idx < j := by
  simp only [poolBlocks, List.mem_map, List.mem_range]
  constructor
  · rintro ⟨k, hk, rfl⟩
    exact ⟨rfl, hk⟩
  · rintro ⟨rfl, hj⟩
    exact ⟨b.idx, hj, rfl⟩

theorem poolBlocks_nodup (i j : Nat) : (poolBlocks i j).Nodup :=
  List.nodup_range.map fun _ _ h => (Block.mk.inj h).2

/-- The rule of a loop that counts from `0` to `n`. -/
theorem foldl_range_induction {β : Type} {f : β → Nat → β} {inv : Nat → β → Prop} {s : β}
    {n : Nat} (h0 : inv 0 s) (hstep : ∀ i < n, ∀ s, inv i s → inv (i + 1) (f s i)) :
    inv n ((List.range n).foldl f s) := by
  induction n with
  | zero => exact h0
  | succ n ih =>
      rw [List.range_succ, List.foldl_append]
      exact hstep n (by omega) _ (ih fun i hi => hstep i (by omega))

/-- The header `InitMemPool` stores in a block. -/
def initNode (config : Nat → MemPoolConfig) (b : Block) : MemNode :=
  ⟨magicNumber, b.pool % 2 ^ 16, 0, (config b.pool).size % 2 ^ 16, 0, b⟩

/-- The free lists while `InitMemPool` runs: pools before `i` are complete. -/
def listsUpTo (config : Nat → MemPoolConfig) (i : Nat) : Abs Nat Block :=
  fun k => if k < i then some (poolBlocks k (config k).num) else none

/-- The free lists inside the inner loop: the pool `i` has its first `j` blocks. -/
def listsWithin (config : Nat → MemPoolConfig) (i j : Nat) : Abs Nat Block :=
  Function.update (listsUpTo config i) i (some (poolBlocks i j))

/-- The invariant of the outer loop of `InitMemPool`. -/
structure InitUpTo (config : Nat → MemPoolConfig) (i : Nat) (p : Pool) : Prop where
  repr : Repr p.lists (listsUpTo config i)
  node : ∀ b, b.pool < i → b.idx < (config b.pool).num → p.node b = initNode config b
  num : p.numMemBlock = ((List.range i).map fun k => (config k).num).sum

/-- The invariant of the inner loop, in the pool `i`. -/
structure InitWithin (config : Nat → MemPoolConfig) (i n j : Nat) (p : Pool) : Prop where
  repr : Repr p.lists (listsWithin config i j)
  before : ∀ b, b.pool < i → b.idx < (config b.pool).num → p.node b = initNode config b
  node : ∀ b, b.pool = i → b.idx < j → p.node b = initNode config b
  num : p.numMemBlock = n

theorem initBlock_inv {i n j : Nat} {p : Pool} (h : InitWithin config i n j p) :
    InitWithin config i n (j + 1) (initBlock config i p j) := by
  have hunl : (listsWithin config i j).Unlinked ⟨i, j⟩ := by
    intro k xs hk hmem
    rw [listsWithin] at hk
    by_cases hki : k = i
    · subst hki
      rw [Function.update_self, Option.some.injEq] at hk
      subst hk
      exact absurd (mem_poolBlocks.mp hmem).2 (by simp)
    · rw [Function.update_of_ne hki, listsUpTo] at hk
      split at hk
      · obtain rfl := Option.some.inj hk
        exact hki (mem_poolBlocks.mp hmem).1.symm
      · simp at hk
  have hclear : Repr (p.lists.clearNode ⟨i, j⟩) (listsWithin config i j) := by
    refine ⟨fun k xs hk => ?_, h.repr.disjoint⟩
    refine (h.repr.linked k xs hk).congr rfl fun b hb => ?_
    rw [clearNode_node, if_neg]
    rintro rfl
    exact hunl k xs hk hb
  have hrep := (hclear.pushNode (Function.update_self ..) hunl).1
  have hblocks : poolBlocks i j ++ [⟨i, j⟩] = poolBlocks i (j + 1) := by
    simp [poolBlocks, List.range_succ]
  rw [hblocks, listsWithin, Function.update_idem] at hrep
  have hnode : ∀ b, (initBlock config i p j).node b
      = if b = ⟨i, j⟩ then initNode config ⟨i, j⟩ else p.node b := by
    intro b
    by_cases hb : b = ⟨i, j⟩ <;> simp [initBlock, Pool.setNode, initNode, hb]
  refine ⟨hrep, fun b hb hn => ?_, fun b hb hn => ?_, h.num⟩
  · rw [hnode, if_neg]
    · exact h.before b hb hn
    · rintro rfl
      simp at hb
  · rw [hnode]
    split
    · next he => rw [he]
    · next he =>
        refine h.node b hb ?_
        have : b.idx ≠ j := fun hj => he (by cases b; simp_all)
        omega

theorem initPool_inv {i : Nat} {p : Pool} (h : InitUpTo config i p) :
    InitUpTo config (i + 1) (initPool config p i) := by
  obtain ⟨h', out, hs, href⟩ := step_refines h.repr (.init (some i)) trivial
  obtain ⟨rfl, rfl⟩ := Prod.mk.inj (Option.some.inj hs)
  have h0 : InitWithin config i p.numMemBlock 0 { p with lists := listInit p.lists (some i) } :=
    ⟨href.repr, h.node, fun b _ hb => absurd hb (Nat.not_lt_zero _), rfl⟩
  have hn := foldl_range_induction (n := (config i).num) h0
    fun j _ p hp => initBlock_inv hp
  refine ⟨?_, fun b hb hi => ?_, ?_⟩
  · have hl : Function.update (listsUpTo config i) i (some (poolBlocks i (config i).num))
        = listsUpTo config (i + 1) := by
      funext k
      by_cases hk : k = i
      · subst hk
        simp [listsUpTo]
      · have : k < i + 1 ↔ k < i := by omega
        simp [listsUpTo, Function.update_of_ne hk, this]
    exact hl ▸ hn.repr
  · rcases Nat.lt_succ_iff_lt_or_eq.mp hb with hb | hb
    · exact hn.before b hb hi
    · exact hn.node b hb (hb ▸ hi)
  · rw [List.range_succ, List.map_append, List.sum_append, ← h.num]
    simp only [initPool, List.map_cons, List.map_nil, List.sum_cons, List.sum_nil, add_zero]
    rw [hn.num]

/-- **`InitMemPool` establishes the invariant**, whatever the memory held before. -/
theorem initMemPool_inv (config : Nat → MemPoolConfig) (p : Pool) :
    PoolInv config (initMemPool config p) (fun i => poolBlocks i (config i).num) [] := by
  have h0 : InitUpTo config 0 { p with numMemBlock := 0 } :=
    ⟨⟨fun _ _ hi => by simp [listsUpTo] at hi, fun _ _ _ _ _ hi => by simp [listsUpTo] at hi⟩,
      fun b hb => absurd hb (Nat.not_lt_zero _), rfl⟩
  have h := foldl_range_induction (n := maxNumPoolSize) h0 fun i _ p hp => initPool_inv hp
  have hnode : ∀ b, Valid config b → (initMemPool config p).node b = initNode config b :=
    fun b hb => h.node b hb.1 hb.2
  refine ⟨h.repr, fun i hi b hb => ?_, fun b hb => ?_, fun b hb => Or.inl ?_,
    by simp, List.nodup_nil, fun b hb => ?_, h.num⟩
  · obtain ⟨rfl, hidx⟩ := mem_poolBlocks.mp hb
    exact ⟨⟨hi, hidx⟩, rfl⟩
  · have hlt : b.pool < 2 ^ 16 := lt_trans hb.1 (by decide)
    rw [hnode b hb]
    exact ⟨rfl, Nat.mod_eq_of_lt hlt, rfl, rfl⟩
  · rw [hnode b hb]
    exact ⟨rfl, mem_poolBlocks.mpr ⟨rfl, hb.2⟩, by simp⟩
  · rw [hnode b hb]
    exact Nat.zero_le _

/-! ## Runs of calls -/

/-- A call of one of the functions that change the pool. -/
inductive MemOp
  | memAlloc (length : Nat)
  | memFree (pBuffer : Option Block)
  | memJoin (pSrcBuffer pDstBuffer : Option Block)
  | memRemove (pBuffer : Option Block) (wher count : Nat)

/-- One call: the memory after it and the buffer it returns; `none` is a copy that left its
data area. -/
def memStep (config : Nat → MemPoolConfig) (order : Nat → List Nat) (p : Pool) :
    MemOp → Option (Pool × Option Block)
  | .memAlloc length => some (memAlloc config p length)
  | .memFree pBuffer => some (memFree p pBuffer, none)
  | .memJoin src dst => memJoin config order p src dst
  | .memRemove pBuffer wher count =>
      (memRemove config p pBuffer wher count).map fun r => (r.1, none)

/-- The buffers the callers hold after a call that led to `p'` and returned `out`. -/
def ownedAfter (owned : List Block) (p' : Pool) (out : Option Block) : MemOp → List Block
  | .memAlloc _ => receive p' owned out
  | .memFree pBuffer => give owned pBuffer
  | .memJoin src dst => receive p' (give (give owned src) dst) out
  | .memRemove _ _ _ => owned

/-- The calls the callers may make. `MemFree` may be given a null pointer and any buffer,
free or not; `MemJoin` is given buffers that are held, or null pointers. -/
def MemOp.Legal (config : Nat → MemPoolConfig) (owned : List Block) : MemOp → Prop
  | .memAlloc _ => True
  | .memFree pBuffer | .memRemove pBuffer _ _ => ∀ b, pBuffer = some b → Valid config b
  | .memJoin src dst =>
      (∀ b, src = some b → b ∈ owned) ∧ ∀ b, dst = some b → b ∈ owned

/-- The states of the pool after `InitMemPool` and any number of calls, with the buffers
held there. -/
inductive Reachable (config : Nat → MemPoolConfig) (order : Nat → List Nat) (p0 : Pool) :
    Pool → List Block → Prop
  | init : Reachable config order p0 (initMemPool config p0) []
  | step {p p' : Pool} {owned : List Block} {op : MemOp} {out : Option Block} :
      Reachable config order p0 p owned → op.Legal config owned →
      memStep config order p op = some (p', out) →
      Reachable config order p0 p' (ownedAfter owned p' out op)

theorem Reachable.memAlloc {order : Nat → List Nat} {p0 : Pool}
    (h : Reachable config order p0 p owned) (n : Nat) :
    Reachable config order p0 (memAlloc config p n).1
      (receive (memAlloc config p n).1 owned (memAlloc config p n).2) :=
  have hop : (MemOp.memAlloc n).Legal config owned := trivial
  .step h hop rfl

theorem Reachable.memFree {order : Nat → List Nat} {p0 : Pool}
    (h : Reachable config order p0 p owned) {b : Block} (hb : Valid config b) :
    Reachable config order p0 (memFree p (some b)) (give owned (some b)) :=
  have hop : (MemOp.memFree (some b)).Legal config owned :=
    fun _ hc => Option.some.inj hc ▸ hb
  .step h hop rfl

/-- **One call keeps the invariant** and does not fault. -/
theorem memStep_inv (hinc : Increasing config) (order : Nat → List Nat)
    (h : PoolInv config p free owned) (op : MemOp) (hop : op.Legal config owned) :
    ∃ p' out, memStep config order p op = some (p', out) ∧
      ∃ free', PoolInv config p' free' (ownedAfter owned p' out op) := by
  cases op with
  | memAlloc n =>
      rcases memAlloc_spec hinc h n with ha | ⟨p', b, ha, hal⟩
      · exact ⟨p, none, congrArg some ha, free, h⟩
      · obtain ⟨free', hinv⟩ := hal.inv
        have hin := hinv.isInUsed_of_owned (b := b) (by simp)
        refine ⟨p', some b, congrArg some ha, free', ?_⟩
        rw [ownedAfter, receive, if_neg (by omega)]
        exact hinv
  | memFree pBuffer =>
      refine ⟨_, _, rfl, ?_⟩
      cases pBuffer with
      | none => exact ⟨free, h⟩
      | some b => exact memFree_inv h (hop b rfl)
  | memJoin src dst =>
      by_cases hnone : src = none ∨ dst = none
      · obtain ⟨p', hj, hinv⟩ := memJoin_none h order hop.1 hop.2 hnone
        exact ⟨p', none, hj, hinv⟩
      · rw [not_or] at hnone
        obtain ⟨s, rfl⟩ := Option.ne_none_iff_exists'.mp hnone.1
        obtain ⟨d, rfl⟩ := Option.ne_none_iff_exists'.mp hnone.2
        obtain ⟨p', out, hj, hinv, -⟩ := memJoin_spec hinc order h (hop.1 s rfl) (hop.2 d rfl)
        exact ⟨p', out, hj, hinv⟩
  | memRemove pBuffer wher count =>
      cases pBuffer with
      | none => exact ⟨p, none, rfl, free, h⟩
      | some b =>
          obtain ⟨p', n, hm, hinv⟩ := memRemove_spec h (hop b rfl) wher count
          exact ⟨p', none, by rw [memStep, hm]; rfl, free, hinv⟩

/-- **Every reachable state keeps the invariant**, by induction on the run. -/
theorem Reachable.inv (hinc : Increasing config) {order : Nat → List Nat} {p0 : Pool}
    (h : Reachable config order p0 p owned) : ∃ free, PoolInv config p free owned := by
  induction h with
  | init => exact ⟨_, initMemPool_inv config p0⟩
  | step _ hop hs ih =>
      obtain ⟨free, hinv⟩ := ih
      obtain ⟨p', out, hs', hinv'⟩ := memStep_inv hinc order hinv _ hop
      obtain ⟨rfl, rfl⟩ := Prod.mk.inj (Option.some.inj (hs'.symm.trans hs))
      exact hinv'

/-! ## What the invariant says -/

/-- All blocks of the ten pools. -/
def allBlocks (config : Nat → MemPoolConfig) : List Block :=
  (List.range maxNumPoolSize).flatMap fun i => poolBlocks i (config i).num

/-- The number of blocks in use. -/
def numInUse (config : Nat → MemPoolConfig) (p : Pool) : Nat :=
  (allBlocks config).countP fun b => decide ((p.node b).isInUsed ≠ 0)

/-- In one pool, the blocks in use and the free ones are all its blocks. -/
theorem PoolInv.pool_count (h : PoolInv config p free owned) {i : Nat}
    (hi : i < maxNumPoolSize) :
    (free i).length
      + (poolBlocks i (config i).num).countP (fun b => decide ((p.node b).isInUsed ≠ 0))
      = (config i).num := by
  set blocks := poolBlocks i (config i).num with hblocks
  have hlen : blocks.length = (config i).num := by simp [hblocks, poolBlocks]
  have hperm : (blocks.filter fun b => decide ((p.node b).isInUsed = 0)).Perm (free i) := by
    refine (List.perm_ext_iff_of_nodup ((poolBlocks_nodup _ _).filter _)
      (h.free_nodup hi)).mpr fun b => ?_
    rw [List.mem_filter, decide_eq_true_iff, mem_poolBlocks]
    constructor
    · rintro ⟨⟨rfl, hidx⟩, hu⟩
      rcases h.account b ⟨hi, hidx⟩ with ⟨-, hf, -⟩ | ⟨hu', -, -⟩
      · exact hf
      · omega
    · intro hb
      obtain ⟨hv, rfl⟩ := h.member i hi b hb
      rcases h.account b hv with ⟨hu, -, -⟩ | ⟨-, hnf, -⟩
      · exact ⟨⟨rfl, hv.2⟩, hu⟩
      · exact absurd hb hnf
  have hsplit := List.length_eq_countP_add_countP
    (fun b => decide ((p.node b).isInUsed = 0)) (l := blocks)
  rw [List.countP_eq_length_filter, hperm.length_eq, hlen] at hsplit
  simpa using hsplit.symm

theorem PoolInv.available (h : PoolInv config p free owned) :
    memGetAvailableMemBlock p + numInUse config p = memGetNumMemBlock p := by
  have hcount : ∀ i < maxNumPoolSize, listCount p.lists (some i) = (free i).length :=
    fun i hi => (h.repr.linked i _ (poolLists_of_lt hi free)).count
  rw [memGetAvailableMemBlock, numInUse, allBlocks, memGetNumMemBlock, h.num,
    List.countP_flatMap]
  have hsum : ∀ n ≤ maxNumPoolSize,
      ((List.range n).map fun i => listCount p.lists (some i)).sum
        + ((List.range n).map ((List.countP fun b => decide ((p.node b).isInUsed ≠ 0)) ∘
            fun i => poolBlocks i (config i).num)).sum
        = ((List.range n).map fun i => (config i).num).sum := by
    intro n
    induction n with
    | zero => simp
    | succ n ih =>
        intro hn
        have hp := h.pool_count (i := n) (by omega)
        rw [← hcount n (by omega)] at hp
        have := ih (by omega)
        simp only [List.range_succ, List.map_append, List.sum_append, List.map_cons,
          List.map_nil, List.sum_cons, List.sum_nil, Function.comp] at this ⊢
        omega
  exact hsum _ le_rfl

/-- What holds of the pool in every state of a run that began in `p0`. -/
structure Conserved (config : Nat → MemPoolConfig) (order : Nat → List Nat) (p0 p : Pool)
    (owned : List Block) : Prop where
  /-- Each block is linked exactly once, in the list of its own pool, and free; or it is
  in no list, in use and held exactly once. -/
  exclusive : ∃ free : Nat → List Block,
    (∀ i < maxNumPoolSize, Spells p.lists i (free i)) ∧
    ∀ b, Valid config b →
      ((p.node b).isInUsed = 0 ∧ (p.node b).poolId = b.pool ∧ owned.count b = 0 ∧
        ∀ i < maxNumPoolSize, (free i).count b = if i = b.pool then 1 else 0) ∨
      ((p.node b).isInUsed = 1 ∧ owned.count b = 1 ∧
        ∀ i < maxNumPoolSize, (free i).count b = 0)
  header : ∀ b, Valid config b →
    (p.node b).poolId = ((initMemPool config p0).node b).poolId ∧
    (p.node b).size = ((initMemPool config p0).node b).size ∧
    (p.node b).magicNo = ((initMemPool config p0).node b).magicNo ∧
    (p.node b).pData = ((initMemPool config p0).node b).pData
  available : memGetAvailableMemBlock p + numInUse config p = memGetNumMemBlock p
  /-- `MemAlloc` returns no block in use. -/
  alloc : ∀ n p' b, memAlloc config p n = (p', some b) →
    Valid config b ∧ (p.node b).isInUsed = 0
  /-- Freeing a free block changes nothing. -/
  free : ∀ b, Valid config b → (p.node b).isInUsed = 0 → memFree p (some b) = p
  /-- No call leaves a data area. -/
  safe : ∀ op : MemOp, op.Legal config owned → (memStep config order p op).isSome
  /-- The result of joining two different buffers is in use: its caller holds it. -/
  joined : ∀ src ∈ owned, ∀ dst ∈ owned, src ≠ dst → ∀ p' b,
    memJoin config order p (some src) (some dst) = some (p', some b) →
      b ∈ ownedAfter owned p' (some b) (.memJoin (some src) (some dst))

theorem PoolInv.conserved (hinc : Increasing config) (order : Nat → List Nat) (p0 : Pool)
    (h : PoolInv config p free owned) : Conserved config order p0 p owned := by
  have h0 := initMemPool_inv config p0
  refine ⟨⟨free, fun i hi => (h.repr.linked i _ (poolLists_of_lt hi free)).spells, fun b hb => ?_⟩,
    fun b hb => ?_, h.available, fun n p' b ha => ?_, fun b hb hu => memFree_of_free h hb hu,
    fun op hop => ?_, fun src hs dst hd hne p' b hj => ?_⟩
  · have hother : ∀ i < maxNumPoolSize, i ≠ b.pool → (free i).count b = 0 := fun i hi hne =>
      List.count_eq_zero.mpr fun hm => hne (h.member i hi b hm).2.symm
    rcases h.account b hb with ⟨hu, hf, hno⟩ | ⟨hu, hnf, ho⟩
    · refine Or.inl ⟨hu, (h.header b hb).poolId, List.count_eq_zero.mpr hno, fun i hi => ?_⟩
      by_cases hib : i = b.pool
      · subst hib
        rw [if_pos rfl]
        exact List.count_eq_one_of_mem (h.free_nodup hi) hf
      · rw [if_neg hib]
        exact hother i hi hib
    · refine Or.inr ⟨hu, List.count_eq_one_of_mem h.ownedNodup ho, fun i hi => ?_⟩
      by_cases hib : i = b.pool
      · subst hib
        exact List.count_eq_zero.mpr hnf
      · exact hother i hi hib
  · have hh := h.header b hb
    have hh0 := h0.header b hb
    exact ⟨hh.poolId.trans hh0.poolId.symm, hh.size.trans hh0.size.symm,
      hh.magicNo.trans hh0.magicNo.symm, hh.pData.trans hh0.pData.symm⟩
  · rcases memAlloc_spec hinc h n with hn | ⟨p1, b1, hn, hal⟩
    · rw [hn] at ha
      simp at ha
    · rw [hn] at ha
      obtain ⟨-, hb⟩ := Prod.mk.inj ha
      obtain rfl := Option.some.inj hb
      exact ⟨hal.valid, hal.wasFree⟩
  · obtain ⟨p', out, hs, -⟩ := memStep_inv hinc order h op hop
    rw [hs]
    rfl
  · obtain ⟨p1, out, hj', -, huse⟩ := memJoin_spec hinc order h hs hd
    obtain ⟨rfl, rfl⟩ := Prod.mk.inj (Option.some.inj (hj'.symm.trans hj))
    have hu := huse hne b rfl
    rw [ownedAfter, receive, if_neg (by omega)]
    simp

/-- **The memory pool conserves its blocks.** In both builds, from any contents of the
memory before `InitMemPool` and after any calls of `MemAlloc`, `MemFree`, `MemJoin` and
`MemRemove`, whatever the order in which `memcpy` copies. -/
theorem memory_pool_conserves_blocks (x86_64 : Bool) (order : Nat → List Nat) (p0 : Pool)
    {p : Pool} {owned : List Block}
    (h : Reachable (gMemPoolConfig x86_64) order p0 p owned) :
    Conserved (gMemPoolConfig x86_64) order p0 p owned := by
  obtain ⟨free, hinv⟩ := h.inv (gMemPoolConfig_increasing x86_64)
  exact hinv.conserved (gMemPoolConfig_increasing x86_64) order p0

/-- The static buffers before the program starts. -/
def zeroMemory : Pool where
  lists := ⟨fun _ => ⟨none, none, 0⟩, fun _ => ⟨none, none⟩, 0⟩
  node b := ⟨0, 0, 0, 0, 0, b⟩
  bytes _ _ := 0
  numMemBlock := 0

/-- One allocation and a release of the very first block, from zeroed memory. -/
theorem memory_pool_conserves_blocks_alloc_free :
    ∃ p owned, Reachable (gMemPoolConfig true) List.range zeroMemory p owned ∧
      Conserved (gMemPoolConfig true) List.range zeroMemory (memFree p (some ⟨0, 0⟩))
        (owned.erase ⟨0, 0⟩) := by
  have hb : Valid (gMemPoolConfig true) ⟨0, 0⟩ := by decide
  have h0 : Reachable (gMemPoolConfig true) List.range zeroMemory _ _ := Reachable.init
  have h1 := h0.memAlloc 100
  exact ⟨_, _, h1, memory_pool_conserves_blocks true List.range zeroMemory (h1.memFree hb)⟩

/-- **What the pool promises of capacities**: an allocated block has room for what was asked,
a header records no more than the room of its block, and that is less than half of the
address space. -/
theorem memory_pool_capacity (x86_64 : Bool) (order : Nat → List Nat) (p0 : Pool) {p : Pool}
    {owned : List Block} (h : Reachable (gMemPoolConfig x86_64) order p0 p owned) :
    (∀ n p' b, memAlloc (gMemPoolConfig x86_64) p n = (p', some b) →
      n ≤ capacity (gMemPoolConfig x86_64) b) ∧
    (∀ b ∈ owned, (p.node b).size ≤ capacity (gMemPoolConfig x86_64) b) ∧
    ∀ b, capacity (gMemPoolConfig x86_64) b < 2 ^ 31 := by
  obtain ⟨free, hinv⟩ := h.inv (gMemPoolConfig_increasing x86_64)
  refine ⟨fun n p' b ha => ?_, fun b hb => hinv.size_le hb, fun b => ?_⟩
  · rcases memAlloc_spec (gMemPoolConfig_increasing x86_64) hinv n with
      hnone | ⟨p'', b', hsome, hal⟩
    · rw [hnone] at ha
      cases ha
    · obtain rfl : b' = b := Option.some.inj (Prod.mk.inj (hsome.symm.trans ha)).2
      exact hal.capacity
  · have hsmall : ∀ x : Bool, ∀ i < maxNumPoolSize, (gMemPoolConfig x i).size < 2 ^ 31 := by
      decide
    by_cases hlt : b.pool < maxNumPoolSize
    · exact hsmall x86_64 b.pool hlt
    · have hnone : (blockSize x86_64).getD b.pool 0 = 0 := by
        have hlen : (blockSize x86_64).length ≤ b.pool := by
          cases x86_64 <;> exact Nat.le_of_not_lt hlt
        rw [List.getD_eq_getElem?_getD, List.getElem?_eq_none hlen, Option.getD_none]
      show (blockSize x86_64).getD b.pool 0 - memNodeSize x86_64 < 2 ^ 31
      omega

end LteUlp.Mempool
