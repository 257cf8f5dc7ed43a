import LteUlp.List.Refinement

set_option autoImplicit false

/-! # The memory pool of `mempool.c`

Ten pools of equally sized blocks. A block begins with a `MemNode` header, whose first
member is its list node, and continues with the data area the caller gets; the two are at a
fixed distance, so a block and the pointer to its data area have one address here, `Block`.
The free blocks of a pool are linked in an intrusive list (`List/Model.lean`).

`memcpy` and `memmove` between data areas are checked: a copy that would leave a data area
(and so reach the header of the next block) makes the operation fault, which is `none`.
The order in which `memcpy` copies its bytes is the parameter `order`; it matters where the
source and the destination overlap, as they do in one branch of `MemJoin`.
-/

namespace LteUlp.Mempool

open Intrusive

def maxNumPoolSize : Nat := 10
def magicNumber : Nat := 0x86868686

/-- An entry of `gMemPoolConfig`: the data bytes of a block and the number of blocks. -/
structure MemPoolConfig where
  size : Nat
  num : Nat

/-- `NUM_SIZE_0` .. `NUM_SIZE_9`. -/
def numSize : List Nat :=
  [20 * 1024, 8 * 1024, 2 * 1024, 2 * 1024, 2 * 1024, 2 * 1024, 128, 32, 16, 8]

/-- `SIZE_0` .. `SIZE_9`, in the 64-bit build (`x86_64`) and in the 32-bit ones. -/
def blockSize (x86_64 : Bool) : List Nat :=
  if x86_64 then
    [128 * 2, 512 * 2, 1024 * 2, 1536 * 2, 3 * 1024 * 2, 5 * 1024 * 2, 8 * 1024 * 2,
      10 * 1024 * 2, 32 * 1024 * 2, 128 * 1024 * 2]
  else
    [128, 512, 1024, 1536, 3 * 1024, 5 * 1024, 8 * 1024, 16 * 1024, 48 * 1024, 128 * 1024]

/-- `sizeof(MemNode)`. -/
def memNodeSize (x86_64 : Bool) : Nat := if x86_64 then 40 else 24

/-- `gMemPoolConfig`. -/
def gMemPoolConfig (x86_64 : Bool) (i : Nat) : MemPoolConfig :=
  ⟨(blockSize x86_64).getD i 0 - memNodeSize x86_64, numSize.getD i 0⟩

/-- The address of a block: its pool and its position in `gMemBufSizeN`. -/
structure Block where
  pool : Nat
  idx : Nat
  deriving DecidableEq

/-- `MemNode` without its list node, which is in the memory of the lists. `poolId`, `size`
and `length` are 16 bits wide. -/
structure MemNode where
  magicNo : Nat
  poolId : Nat
  isInUsed : Nat
  size : Nat
  length : Nat
  pData : Block
  deriving DecidableEq

/-- The memory of the pools: free lists and list nodes, headers, data areas and
`NUM_MEM_BLOCK`. -/
structure Pool where
  lists : Intrusive.Heap Nat Block
  node : Block → MemNode
  bytes : Block → Nat → UInt8
  numMemBlock : Nat

namespace Pool

def setNode (p : Pool) (b : Block) (v : MemNode) : Pool :=
  { p with node := Function.update p.node b v }

/-- Store one byte of a data area. -/
def setByte (p : Pool) (b : Block) (off : Nat) (v : UInt8) : Pool :=
  { p with bytes := Function.update p.bytes b (Function.update (p.bytes b) off v) }

end Pool

section

variable (config : Nat → MemPoolConfig)

/-! ## Initialisation -/

/-- The body of the inner loop of `InitMemPool`. -/
def initBlock (i : Nat) (p : Pool) (j : Nat) : Pool :=
  let b : Block := ⟨i, j⟩
  let p := p.setNode b ⟨magicNumber, i % 2 ^ 16, 0, (config i).size % 2 ^ 16, 0, b⟩
  -- `memset` clears the list node too
  { p with lists := listPushNode (p.lists.clearNode b) (some i) (some b) }

/-- The body of the outer loop of `InitMemPool`. -/
def initPool (p : Pool) (i : Nat) : Pool :=
  let p := { p with lists := listInit p.lists (some i) }
  let p := (List.range (config i).num).foldl (initBlock config i) p
  { p with numMemBlock := p.numMemBlock + (config i).num }

/-- `InitMemPool`, from any contents of the memory. -/
def initMemPool (p : Pool) : Pool :=
  (List.range maxNumPoolSize).foldl (initPool config) { p with numMemBlock := 0 }

/-- `MemGetNumMemBlock`. -/
def memGetNumMemBlock (p : Pool) : Nat := p.numMemBlock

/-- `MemGetAvailableMemBlock`. -/
def memGetAvailableMemBlock (p : Pool) : Nat :=
  ((List.range maxNumPoolSize).map fun i => listCount p.lists (some i)).sum

/-! ## Allocation and release -/

/-- `findMatchPool`; `none` is `-1`. -/
def findMatchPool (size : Nat) : Option Nat :=
  (List.range maxNumPoolSize).find? fun i => size ≤ (config i).size

/-- The loop of `MemAlloc`: pop from the pool `poolId` or, where it is empty, from the
following ones; `fuel` is the number of pools left. -/
def allocFrom (p : Pool) : Nat → Nat → Pool × Option Block
  | 0, _ => (p, none)
  | fuel + 1, poolId =>
      match listPopNode p.lists (some poolId) with
      | (lists, some b) => ({ p with lists := lists }, some b)
      | (lists, none) => allocFrom { p with lists := lists } fuel (poolId + 1)

/-- `MemAlloc`. -/
def memAlloc (p : Pool) (length : Nat) : Pool × Option Block :=
  match findMatchPool config length with
  | none => (p, none)
  | some poolId =>
      match allocFrom p (maxNumPoolSize - poolId) poolId with
      | (p, none) => (p, none)
      | (p, some b) =>
          let nd := p.node b
          (p.setNode b { nd with length := length % 2 ^ 16, isInUsed := 1 }, some nd.pData)

/-- `CheckNode`. -/
def checkNode (p : Pool) (pBuffer : Option Block) : Option Block :=
  match pBuffer with
  | none => none
  | some b =>
      if (p.node b).magicNo ≠ magicNumber ∨ (p.node b).poolId ≥ maxNumPoolSize then none
      else some b

/-- `MemFree`. -/
def memFree (p : Pool) (pBuffer : Option Block) : Pool :=
  match checkNode p pBuffer with
  | none => p
  | some b =>
      let nd := p.node b
      if nd.isInUsed ≠ 0 then
        let p := p.setNode b { nd with length := 0, isInUsed := 0 }
        { p with lists := listPushNode p.lists (some nd.poolId) (some b) }
      else p

/-- `MemGetLength`. -/
def memGetLength (p : Pool) (pBuffer : Option Block) : Nat :=
  match checkNode p pBuffer with
  | some b => (p.node b).length
  | none => 0

/-- `MemGetSize`. -/
def memGetSize (p : Pool) (pBuffer : Option Block) : Nat :=
  match checkNode p pBuffer with
  | some b => (p.node b).size
  | none => 0

/-! ## Copies -/

/-- The data bytes of a block. -/
def capacity (b : Block) : Nat := (config b.pool).size

/-- `memcpy(dst + dstOff, src + srcOff, n)`, the bytes taken in the order `order n`. -/
def memcpy (order : Nat → List Nat) (p : Pool) (dst : Block) (dstOff : Nat) (src : Block)
    (srcOff n : Nat) : Option Pool :=
  if dstOff + n ≤ capacity config dst ∧ srcOff + n ≤ capacity config src then
    some ((order n).foldl
      (fun p k => p.setByte dst (dstOff + k) (p.bytes src (srcOff + k))) p)
  else none

/-- `memmove(b + dstOff, b + srcOff, n)` within one block: all bytes are read first. -/
def memmove (p : Pool) (b : Block) (dstOff srcOff n : Nat) : Option Pool :=
  if dstOff + n ≤ capacity config b ∧ srcOff + n ≤ capacity config b then
    some { p with bytes := Function.update p.bytes b fun k =>
      if dstOff ≤ k ∧ k < dstOff + n then p.bytes b (srcOff + (k - dstOff)) else p.bytes b k }
  else none

/-- `MemJoin`. -/
def memJoin (order : Nat → List Nat) (p : Pool) (pSrcBuffer pDstBuffer : Option Block) :
    Option (Pool × Option Block) :=
  match checkNode p pSrcBuffer, checkNode p pDstBuffer with
  | some src, some dst =>
      let srcLen := (p.node src).length
      let dstLen := (p.node dst).length
      if (p.node src).size ≥ srcLen + dstLen then
        (memcpy config order p src srcLen dst 0 dstLen).map fun p =>
          -- `pSrcNode->length += pDstNode->length`, both read now
          let p := p.setNode src
            { p.node src with length := ((p.node src).length + (p.node dst).length) % 2 ^ 16 }
          (memFree p pDstBuffer, pSrcBuffer)
      else if (p.node dst).size ≥ srcLen + dstLen then
        (memcpy config order p dst srcLen dst 0 dstLen).bind fun p =>
        (memcpy config order p dst 0 src 0 srcLen).map fun p =>
          let p := p.setNode dst
            { p.node dst with length := ((p.node dst).length + (p.node src).length) % 2 ^ 16 }
          (memFree p pSrcBuffer, pDstBuffer)
      else
        match memAlloc config p (srcLen + dstLen) with
        | (p, some b) =>
            (memcpy config order p b 0 (p.node src).pData 0 (p.node src).length).bind fun p =>
            (memcpy config order p b (p.node src).length (p.node dst).pData 0
              (p.node dst).length).map fun p =>
              (memFree (memFree p pSrcBuffer) pDstBuffer, some b)
        | (p, none) => some (memFree (memFree p pSrcBuffer) pDstBuffer, none)
  | some _, none => some (memFree p pSrcBuffer, none)
  | none, some _ => some (memFree p pDstBuffer, none)
  | none, none => some (p, none)

/-- `MemRemove`. The returned number is the bytes removed. -/
def memRemove (p : Pool) (pBuffer : Option Block) (wher count : Nat) : Option (Pool × Nat) :=
  match checkNode p pBuffer with
  | none => some (p, 0)
  | some b =>
      let len := (p.node b).length
      if wher ≥ len then some (p, 0)
      else if count > len - wher then
        let count := len - wher
        some (p.setNode b { p.node b with length := len - count }, count)
      else
        (memmove config p b wher (wher + count) (len - wher - count)).map fun p =>
          (p.setNode b { p.node b with length := len - count }, count)

end

end LteUlp.Mempool
