import LteUlp.Basic.BlockStore
import LteUlp.List.Refinement

set_option autoImplicit false
set_option linter.unusedSectionVars false

/-! # The queue of PHY indications

`PhyUlDataInd` copies the data of an indication to a buffer of the pool and puts a node with
it on `gRecvdPhyDataList`, if the ULP worker is initialised. Without the worker it calls
`MacProcessPhyDataInd` itself. The worker empties the list in `UlpRecvAndHandlePhyData`.

An access to the list is made under its lock, so the worker takes one step from one access
to the next, and one for each call and each release in between. `PhyUlDataInd` makes one
access to the list, after all that it does to memory: it is one step. Between these steps the
rest of the program does what it wants to memory, to the blocks of the queue excepted, and
the callers of `PhyUlDataInd` reuse their buffers.
-/

namespace LteUlp.Worker

open BlockStore Intrusive

/-- The list of the received indications. -/
inductive PhyList where
  | gRecvdPhyDataList
  deriving DecidableEq

open PhyList

/-- `PhyDataIndNode`, apart from its links. -/
structure PhyDataIndNode (β : Type) where
  length : UInt32
  pBuffer : Option β
  deriving DecidableEq

/-- A call of `MacProcessPhyDataInd`: the bytes in the buffer, if there is one, and the
length. -/
structure MacCall where
  data : Option (List UInt8)
  length : UInt16
  deriving DecidableEq

/-- What the path does with the data. -/
inductive PhyEvent (β : Type) where
  | macProcessPhyDataInd (c : MacCall)
  | memFree (p : Option β)
  deriving DecidableEq

/-- Where the worker is: not in `UlpRecvAndHandlePhyData`, at a `ListPopNode`, with a node at
the call of MAC, after it, with the buffer released, or at the return. -/
inductive PhyWorker (β : Type) where
  | outside
  | popping
  | popped (pPhyDataNode : β)
  | called (pPhyDataNode : β)
  | freed (pPhyDataNode : β)
  | returning
  deriving DecidableEq

/-- The state of the path. `ρ` are the addresses of the callers' buffers, and `badDerefs`
counts the copies to a null pointer. -/
structure PhyPath (β ρ : Type) where
  mem : Store β
  callerBuffer : ρ → Nat → UInt8
  gUlpWorkerInitilized : Bool
  lists : Heap PhyList β
  phyDataIndNode : β → PhyDataIndNode β
  badDerefs : Nat
  events : List (PhyEvent β)
  worker : PhyWorker β

variable {β ρ : Type} [DecidableEq β] (P : Policy β) (nodeSize : Nat)

namespace PhyPath

/-- `MemAlloc`. -/
def alloc (s : PhyPath β ρ) (n : Nat) : PhyPath β ρ × Option β :=
  let r := s.mem.alloc P n
  ({ s with mem := r.1 }, r.2)

/-- `MemFree`. -/
def memFree (s : PhyPath β ρ) (p : Option β) : PhyPath β ρ :=
  { s with mem := s.mem.release? p, events := s.events ++ [.memFree p] }

/-- `memcpy`. -/
def memcpy (s : PhyPath β ρ) (dst : Option β) (src : Nat → UInt8) (n : Nat) : PhyPath β ρ :=
  match dst with
  | some b => { s with mem := s.mem.write b src n }
  | none => if n = 0 then s else { s with badDerefs := s.badDerefs + 1 }

/-- Write to a node. -/
def setNode (s : PhyPath β ρ) (a : β) (v : PhyDataIndNode β) : PhyPath β ρ :=
  { s with phyDataIndNode := Function.update s.phyDataIndNode a v }

/-- The worker goes on at `w`. -/
def goto (s : PhyPath β ρ) (w : PhyWorker β) : PhyPath β ρ := { s with worker := w }

/-- The call of `MacProcessPhyDataInd` for a buffer with the bytes `bytes`. -/
def callMac (s : PhyPath β ρ) (bytes : Option (Nat → UInt8)) (length : UInt16) :
    PhyPath β ρ :=
  { s with
    events := s.events ++
      [.macProcessPhyDataInd ⟨bytes.map fun f => (List.range length.toNat).map f, length⟩] }

end PhyPath

open PhyPath

/-- `InitUlpWorker`, as far as this path uses what it sets up. -/
def initUlpWorker (s : PhyPath β ρ) (startUlpWorkerFlag : Bool) : PhyPath β ρ :=
  if startUlpWorkerFlag then
    { s with
      gUlpWorkerInitilized := true
      lists := listInit s.lists (some gRecvdPhyDataList) }
  else s

/-- `PhyUlDataInd`; `nodeSize` is `sizeof(PhyDataIndNode)`. -/
def phyUlDataInd (s : PhyPath β ρ) (pBuffer : Option ρ) (length : UInt16) : PhyPath β ρ :=
  match pBuffer with
  | none => s
  | some p =>
      if s.gUlpWorkerInitilized then
        match s.alloc P nodeSize with
        | (s, none) => s
        | (s, some pPhyDataInd) =>
            -- the test after this allocation is one of `pPhyDataInd` again
            match s.alloc P length.toNat with
            | (s, buffer) =>
                let s := s.setNode pPhyDataInd ⟨length.toUInt32, buffer⟩
                let s := s.memcpy buffer (s.callerBuffer p) length.toNat
                { s with
                  lists := listPushNode s.lists (some gRecvdPhyDataList) (some pPhyDataInd) }
      else s.callMac (some (s.callerBuffer p)) length

/-- The next step of the worker in `UlpRecvAndHandlePhyData`. -/
def ulpRecvAndHandlePhyData (s : PhyPath β ρ) : PhyPath β ρ :=
  match s.worker with
  | .outside =>
      if 0 < listCount s.lists (some gRecvdPhyDataList) then s.goto .popping
      else s.goto .returning
  | .popping =>
      match listPopNode s.lists (some gRecvdPhyDataList) with
      | (l, some a) => { s with lists := l, worker := .popped a }
      | (l, none) => { s with lists := l, worker := .returning }
  | .popped a =>
      let node := s.phyDataIndNode a
      (s.callMac (node.pBuffer.map s.mem.bytes) node.length.toUInt16).goto (.called a)
  | .called a => (s.memFree (s.phyDataIndNode a).pBuffer).goto (.freed a)
  | .freed a => (s.memFree (some a)).goto .popping
  | .returning => s.goto .outside

/-! ## Runs -/

/-- The call that an event is. -/
def PhyEvent.call? : PhyEvent β → Option MacCall
  | .macProcessPhyDataInd c => some c
  | .memFree _ => none

/-- The block that an event releases. -/
def PhyEvent.freed? : PhyEvent β → Option β
  | .macProcessPhyDataInd _ => none
  | .memFree p => p

/-- The calls of `MacProcessPhyDataInd`. -/
def macCalls (es : List (PhyEvent β)) : List MacCall := es.filterMap PhyEvent.call?

/-- The blocks that are released. -/
def freedBlocks (es : List (PhyEvent β)) : List β := es.filterMap PhyEvent.freed?

/-- What `PhyUlDataInd` does without the worker. -/
def directEvents (s : PhyPath β ρ) (pBuffer : Option ρ) (length : UInt16) :
    List (PhyEvent β) :=
  (phyUlDataInd P nodeSize { s with gUlpWorkerInitilized := false, events := [] } pBuffer
    length).events

/-- The node and the buffer that `PhyUlDataInd` allocates with the worker. -/
def takenBlocks (s : PhyPath β ρ) (pBuffer : Option ρ) (length : UInt16) : Option (β × β) :=
  match pBuffer, s.alloc P nodeSize with
  | some _, (s, some node) => (s.alloc P length.toNat).2.map fun buffer => (node, buffer)
  | _, _ => none

/-- What has to happen for an indication that is queued: what the direct path does, then the
release of the buffer and of the node. -/
def dueEvents (s : PhyPath β ρ) (pBuffer : Option ρ) (length : UInt16) : List (PhyEvent β) :=
  match takenBlocks P nodeSize s pBuffer length with
  | some (node, buffer) =>
      directEvents P nodeSize s pBuffer length ++ [.memFree (some buffer), .memFree (some node)]
  | none => []

/-- What has happened in a run: the calls that the direct path makes on the same inputs, what
is due for them in the queued path, and the direct calls when the worker last looked at the
list. -/
structure PhyHistory (β : Type) where
  direct : List MacCall
  due : List (PhyEvent β)
  seen : List MacCall

/-- The blocks that are still to be released. -/
def PhyHistory.held (h : PhyHistory β) (s : PhyPath β ρ) : List β :=
  freedBlocks (h.due.drop s.events.length)

/-- The next step of the worker looks at the list. -/
def PhyWorker.looks : PhyWorker β → Bool
  | .outside | .popping => true
  | _ => false

/-- The states of a run with an initialised worker in which every allocation of
`PhyUlDataInd` succeeds. -/
inductive PhyReached : PhyPath β ρ → PhyHistory β → Prop
  | init {s : PhyPath β ρ} (hw : s.worker = .outside) (he : s.events = []) :
      PhyReached (initUlpWorker s true) ⟨[], [], []⟩
  | arrival {s : PhyPath β ρ} {h : PhyHistory β} (hr : PhyReached s h) (pBuffer : Option ρ)
      (length : UInt16)
      (hok : (phyUlDataInd P nodeSize s pBuffer length).mem.failures = s.mem.failures) :
      PhyReached (phyUlDataInd P nodeSize s pBuffer length)
        { h with
          direct := h.direct ++ macCalls (directEvents P nodeSize s pBuffer length)
          due := h.due ++ dueEvents P nodeSize s pBuffer length }
  | worker {s : PhyPath β ρ} {h : PhyHistory β} (hr : PhyReached s h) :
      PhyReached (ulpRecvAndHandlePhyData s)
        { h with seen := if s.worker.looks then h.direct else h.seen }
  | other {s : PhyPath β ρ} {h : PhyHistory β} (hr : PhyReached s h) (mem : Store β)
      (callerBuffer : ρ → Nat → UInt8)
      (hkeep : ∀ b ∈ h.held s, b ∈ mem.inUse ∧ mem.bytes b = s.mem.bytes b) :
      PhyReached { s with mem := mem, callerBuffer := callerBuffer } h

/-! ## The invariant -/

/-- What is done for a node. -/
def PhyPath.handle (s : PhyPath β ρ) (a : β) : List (PhyEvent β) :=
  let node := s.phyDataIndNode a
  let n := node.length.toUInt16
  [.macProcessPhyDataInd
      ⟨(node.pBuffer.map s.mem.bytes).map fun f => (List.range n.toNat).map f, n⟩,
    .memFree node.pBuffer, .memFree (some a)]

/-- What is left to do for the node that the worker has taken. -/
def PhyPath.current (s : PhyPath β ρ) : List (PhyEvent β) :=
  match s.worker with
  | .outside | .popping | .returning => []
  | .popped a => s.handle a
  | .called a => [.memFree (s.phyDataIndNode a).pBuffer, .memFree (some a)]
  | .freed a => [.memFree (some a)]

/-- What is left to do when the list holds the nodes `xs`. -/
def PhyPath.todo (s : PhyPath β ρ) (xs : List β) : List (PhyEvent β) :=
  s.current ++ xs.flatMap s.handle

/-- The list holds the nodes `xs`, and all that is due has been done or is left to do. -/
structure PathInv (s : PhyPath β ρ) (h : PhyHistory β) (xs : List β) : Prop where
  repr : Repr s.lists fun _ => some xs
  initialised : s.gUlpWorkerInitilized = true
  due : s.events ++ s.todo xs = h.due
  direct : macCalls h.due = h.direct
  nodup : (freedBlocks (s.todo xs)).Nodup
  inUse : ∀ b ∈ freedBlocks (s.todo xs), b ∈ s.mem.inUse
  seen : s.worker = .returning → macCalls s.events = h.seen

section Invariant

variable {s s' : PhyPath β ρ} {h : PhyHistory β} {xs : List β} {a b : β}

theorem macCalls_append (es es' : List (PhyEvent β)) :
    macCalls (es ++ es') = macCalls es ++ macCalls es' := List.filterMap_append

theorem freedBlocks_append (es es' : List (PhyEvent β)) :
    freedBlocks (es ++ es') = freedBlocks es ++ freedBlocks es' := List.filterMap_append

theorem mem_freedBlocks {es : List (PhyEvent β)} :
    b ∈ freedBlocks es ↔ PhyEvent.memFree (some b) ∈ es := by
  rw [freedBlocks, List.mem_filterMap]
  constructor
  · rintro ⟨e, he, hf⟩
    cases e with
    | macProcessPhyDataInd c => simp [PhyEvent.freed?] at hf
    | memFree p =>
        obtain rfl : p = some b := hf
        exact he
  · exact fun he => ⟨_, he, rfl⟩

theorem PathInv.held (hi : PathInv s h xs) : h.held s = freedBlocks (s.todo xs) := by
  rw [PhyHistory.held, ← hi.due, List.drop_left]

/-- What is done for a node only depends on this node and on its buffer. -/
theorem handle_congr (hn : s'.phyDataIndNode a = s.phyDataIndNode a)
    (hb : ∀ b, (s.phyDataIndNode a).pBuffer = some b → s'.mem.bytes b = s.mem.bytes b) :
    s'.handle a = s.handle a := by
  have hm : (s.phyDataIndNode a).pBuffer.map s'.mem.bytes
      = (s.phyDataIndNode a).pBuffer.map s.mem.bytes := by
    cases hp : (s.phyDataIndNode a).pBuffer with
    | none => rfl
    | some b => exact congrArg some (hb b hp)
  simp only [PhyPath.handle, hn, hm]

/-- What is left to do only depends on the blocks that are still to be released. -/
theorem todo_congr (hw : s'.worker = s.worker)
    (hkeep : ∀ b ∈ freedBlocks (s.todo xs),
      s'.phyDataIndNode b = s.phyDataIndNode b ∧ s'.mem.bytes b = s.mem.bytes b) :
    s'.todo xs = s.todo xs := by
  simp only [mem_freedBlocks] at hkeep
  -- a node for which the worker has everything left to do
  have node : ∀ a, (∀ e ∈ s.handle a, e ∈ s.todo xs) → s'.handle a = s.handle a := by
    intro a ha
    refine handle_congr (hkeep a (ha _ (by simp [PhyPath.handle]))).1 fun b hb => ?_
    exact (hkeep b (ha _ (by simp [PhyPath.handle, hb]))).2
  have hcur : s'.current = s.current := by
    have hsub : ∀ e ∈ s.current, e ∈ s.todo xs := fun e he => List.mem_append_left _ he
    unfold PhyPath.current at hsub ⊢
    rw [hw]
    cases hs : s.worker with
    | outside => rfl
    | popping => rfl
    | returning => rfl
    | freed a => rfl
    | popped a =>
        rw [hs] at hsub
        exact node a hsub
    | called a =>
        rw [hs] at hsub
        show [_, _] = [_, _]
        rw [(hkeep a (hsub _ (by simp))).1]
  have hqueue : xs.flatMap s'.handle = xs.flatMap s.handle := by
    refine List.flatMap_congr fun a ha => node a fun e he => ?_
    exact List.mem_append_right _ (List.mem_flatMap.mpr ⟨a, ha, he⟩)
  rw [PhyPath.todo, hcur, hqueue, PhyPath.todo]

/-! ### Arrivals -/

/-- Without a buffer nothing happens; otherwise the two allocations have succeeded. -/
theorem phyUlDataInd_ok {p : ρ} {length : UInt16} (hinit : s.gUlpWorkerInitilized = true)
    (hok : (phyUlDataInd P nodeSize s (some p) length).mem.failures = s.mem.failures) :
    ∃ node buffer t u, s.mem.alloc P nodeSize = (t, some node)
      ∧ t.alloc P length.toNat = (u, some buffer)
      ∧ takenBlocks P nodeSize s (some p) length = some (node, buffer)
      ∧ phyUlDataInd P nodeSize s (some p) length =
        { s with
          mem := u.write buffer (s.callerBuffer p) length.toNat
          phyDataIndNode :=
            Function.update s.phyDataIndNode node ⟨length.toUInt32, some buffer⟩
          lists := listPushNode s.lists (some gRecvdPhyDataList) (some node) } := by
  cases ha : s.mem.alloc P nodeSize with
  | mk t o =>
      have hlt := BlockStore.alloc_refused (s := s.mem) (P := P) (n := nodeSize)
      rw [ha] at hlt
      cases o with
      | none =>
          have hf : t.failures = s.mem.failures := by
            simpa [phyUlDataInd, hinit, PhyPath.alloc, ha] using hok
          exact absurd hf (hlt rfl).ne'
      | some node =>
          have hsome := BlockStore.alloc_some_inUse (s := s.mem) (P := P) (n := nodeSize) (b := node)
          rw [ha] at hsome
          cases hb : t.alloc P length.toNat with
          | mk u o =>
              cases o with
              | none =>
                  have hlt' := BlockStore.alloc_refused (s := t) (P := P) (n := length.toNat)
                  rw [hb] at hlt'
                  have hf : u.failures = s.mem.failures := by
                    simp only [phyUlDataInd, hinit, PhyPath.alloc, ha, hb, setNode,
                      PhyPath.memcpy, if_true] at hok
                    split at hok <;> exact hok
                  exact absurd (hf.trans (hsome rfl).2.symm) (hlt' rfl).ne'
              | some buffer =>
                  refine ⟨node, buffer, t, u, rfl, hb, ?_, ?_⟩
                  · simp [takenBlocks, PhyPath.alloc, ha, hb]
                  · simp [phyUlDataInd, hinit, PhyPath.alloc, ha, hb, setNode, PhyPath.memcpy]

/-- The direct path makes one call, with the bytes that are copied. -/
theorem directEvents_some (s : PhyPath β ρ) (p : ρ) (length : UInt16) :
    directEvents P nodeSize s (some p) length = [.macProcessPhyDataInd
      ⟨some ((List.range length.toNat).map (s.callerBuffer p)), length⟩] := rfl

/-- What an indication with two new blocks leaves. -/
structure Queued (s s' : PhyPath β ρ) (p : ρ) (length : UInt16) (node buffer : β) : Prop where
  inUse : s'.mem.inUse = buffer ::ₘ node ::ₘ s.mem.inUse
  freshNode : node ∉ s.mem.inUse
  freshBuffer : buffer ∉ s.mem.inUse
  ne : buffer ≠ node
  copied : ∀ k < length.toNat, s'.mem.bytes buffer k = s.callerBuffer p k
  bytes : ∀ b, b ≠ buffer → s'.mem.bytes b = s.mem.bytes b
  newNode : s'.phyDataIndNode node = ⟨length.toUInt32, some buffer⟩
  nodes : ∀ a, a ≠ node → s'.phyDataIndNode a = s.phyDataIndNode a
  lists : s'.lists = listPushNode s.lists (some gRecvdPhyDataList) (some node)
  initialised : s'.gUlpWorkerInitilized = s.gUlpWorkerInitilized
  events : s'.events = s.events
  worker : s'.worker = s.worker
  due : dueEvents P nodeSize s (some p) length =
    directEvents P nodeSize s (some p) length ++ [.memFree (some buffer), .memFree (some node)]

theorem phyUlDataInd_queues {p : ρ} {length : UInt16} (hinit : s.gUlpWorkerInitilized = true)
    (hok : (phyUlDataInd P nodeSize s (some p) length).mem.failures = s.mem.failures) :
    ∃ node buffer,
      Queued P nodeSize s (phyUlDataInd P nodeSize s (some p) length) p length node buffer := by
  obtain ⟨node, buffer, t, u, ha, hb, htaken, hs⟩ := phyUlDataInd_ok P nodeSize hinit hok
  have hnode : (s.mem.alloc P nodeSize).2 = some node := by rw [ha]
  have hbuf : (t.alloc P length.toNat).2 = some buffer := by rw [hb]
  obtain ⟨-, hbytes, hfresh⟩ := BlockStore.alloc_some hnode
  obtain ⟨huse, -⟩ := BlockStore.alloc_some_inUse hnode
  obtain ⟨-, hbytes', hfresh'⟩ := BlockStore.alloc_some hbuf
  obtain ⟨huse', -⟩ := BlockStore.alloc_some_inUse hbuf
  rw [ha] at hbytes huse
  rw [hb] at hbytes' huse'
  simp only at hbytes huse hbytes' huse'
  rw [huse, Multiset.mem_cons, not_or] at hfresh'
  refine ⟨node, buffer, ?_⟩
  rw [hs]
  constructor
  · rw [← huse]
    exact huse'
  · exact hfresh
  · exact hfresh'.2
  · exact hfresh'.1
  · intro k hk
    show Function.update u.bytes buffer _ buffer k = _
    rw [Function.update_self, if_pos hk]
  · intro b hne
    show Function.update u.bytes buffer _ b = _
    rw [Function.update_of_ne hne, hbytes', hbytes]
  · exact Function.update_self ..
  · exact fun a hne => Function.update_of_ne hne _ _
  · rfl
  · rfl
  · rfl
  · rfl
  · rw [dueEvents, htaken]

variable {s' : PhyPath β ρ} {p : ρ} {length : UInt16} {node buffer : β}

/-- For the new node all that is due is left to do. -/
theorem Queued.handle (hq : Queued P nodeSize s s' p length node buffer) :
    s'.handle node = dueEvents P nodeSize s (some p) length := by
  have hl : length.toUInt32.toUInt16 = length := by simp
  have hdata : (List.range length.toNat).map (s'.mem.bytes buffer)
      = (List.range length.toNat).map (s.callerBuffer p) :=
    List.map_congr_left fun k hk => hq.copied k (List.mem_range.mp hk)
  simp only [PhyPath.handle, hq.newNode, hl, Option.map_some, hdata, hq.due, directEvents_some]
  rfl

/-- What was left to do for the other nodes still is. -/
theorem Queued.todo (hq : Queued P nodeSize s s' p length node buffer) (hi : PathInv s h xs) :
    s'.todo (xs ++ [node]) = s.todo xs ++ dueEvents P nodeSize s (some p) length := by
  have hold : s'.todo xs = s.todo xs := by
    refine todo_congr hq.worker fun b hb => ?_
    have hin := hi.inUse b hb
    exact ⟨hq.nodes b fun he => hq.freshNode (he ▸ hin),
      hq.bytes b fun he => hq.freshBuffer (he ▸ hin)⟩
  rw [← hold, ← hq.handle]
  simp [PhyPath.todo]

theorem Queued.freed (hq : Queued P nodeSize s s' p length node buffer) :
    freedBlocks (dueEvents P nodeSize s (some p) length) = [buffer, node] := by
  rw [hq.due]
  rfl

theorem Queued.calls (hq : Queued P nodeSize s s' p length node buffer) :
    macCalls (dueEvents P nodeSize s (some p) length)
      = macCalls (directEvents P nodeSize s (some p) length) := by
  rw [hq.due, macCalls_append]
  exact List.append_nil _

/-- The nodes in the list are in use. -/
theorem PathInv.mem_inUse (hi : PathInv s h xs) (ha : a ∈ xs) : a ∈ s.mem.inUse := by
  refine hi.inUse a (mem_freedBlocks.mpr (List.mem_append_right _ ?_))
  exact List.mem_flatMap.mpr ⟨a, ha, by simp [PhyPath.handle]⟩

/-- The list as an abstract memory. -/
theorem update_phyList (ys zs : List β) :
    Function.update (fun _ : PhyList => some ys) gRecvdPhyDataList (some zs)
      = fun _ => some zs := by
  funext i
  cases i
  exact Function.update_self ..

/-- **An arrival keeps the invariant**: its node is put behind those in the list. -/
theorem PathInv.arrival (hi : PathInv s h xs) (pBuffer : Option ρ) (length : UInt16)
    (hok : (phyUlDataInd P nodeSize s pBuffer length).mem.failures = s.mem.failures) :
    ∃ ys, PathInv (phyUlDataInd P nodeSize s pBuffer length)
      { h with
        direct := h.direct ++ macCalls (directEvents P nodeSize s pBuffer length)
        due := h.due ++ dueEvents P nodeSize s pBuffer length } ys := by
  cases pBuffer with
  | none =>
      have hdirect : directEvents P nodeSize s (none : Option ρ) length = [] := rfl
      have hdue : dueEvents P nodeSize s (none : Option ρ) length = [] := rfl
      have hnil : macCalls ([] : List (PhyEvent β)) = [] := rfl
      refine ⟨xs, ?_⟩
      rw [hdirect, hdue, List.append_nil, hnil, List.append_nil]
      exact hi
  | some p =>
      obtain ⟨node, buffer, hq⟩ := phyUlDataInd_queues P nodeSize hi.initialised hok
      refine ⟨xs ++ [node], ?_⟩
      constructor
      · have hpush := hi.repr.pushNode (i := gRecvdPhyDataList) rfl
          (fun _ zs hz => Option.some.inj hz ▸ fun ha => hq.freshNode (hi.mem_inUse ha))
        rw [update_phyList] at hpush
        rw [hq.lists]
        exact hpush.1
      · exact hq.initialised.trans hi.initialised
      · rw [hq.events, hq.todo P nodeSize hi, ← List.append_assoc, hi.due]
      · rw [macCalls_append, hi.direct, hq.calls]
      · rw [hq.todo P nodeSize hi, freedBlocks_append, hq.freed]
        refine List.nodup_append.mpr ⟨hi.nodup, by simpa using hq.ne, ?_⟩
        rintro b hb c hc rfl
        have hin := hi.inUse b hb
        simp only [List.mem_cons, List.not_mem_nil, or_false] at hc
        rcases hc with rfl | rfl
        · exact hq.freshBuffer hin
        · exact hq.freshNode hin
      · intro b hb
        rw [hq.todo P nodeSize hi, freedBlocks_append, hq.freed] at hb
        rw [hq.inUse, Multiset.mem_cons, Multiset.mem_cons]
        rcases List.mem_append.mp hb with hb | hb
        · exact Or.inr (Or.inr (hi.inUse b hb))
        · simp only [List.mem_cons, List.not_mem_nil, or_false] at hb
          rcases hb with rfl | rfl
          · exact Or.inl rfl
          · exact Or.inr (Or.inl rfl)
      · rw [hq.worker, hq.events]
        exact hi.seen

/-! ### Steps of the worker -/

/-- An event at the head of what is left to do takes place. The step may release the block
of the event, and leaves the others and the bytes as they are. -/
theorem PathInv.event {e : PhyEvent β} (hi : PathInv s h xs) (s' : PhyPath β ρ)
    (hl : s'.lists = s.lists) (hinit : s'.gUlpWorkerInitilized = s.gUlpWorkerInitilized)
    (hev : s'.events = s.events ++ [e]) (htodo : s.todo xs = e :: s'.todo xs)
    (huse : ∀ b, e.freed? ≠ some b → b ∈ s.mem.inUse → b ∈ s'.mem.inUse)
    (hw : s'.worker ≠ .returning) : PathInv s' h xs := by
  have hfreed : freedBlocks (s.todo xs) = e.freed?.toList ++ freedBlocks (s'.todo xs) := by
    rw [htodo, freedBlocks, List.filterMap_cons]
    cases e.freed? <;> rfl
  have hnd := hi.nodup
  rw [hfreed] at hnd
  constructor
  · rw [hl]
    exact hi.repr
  · exact hinit.trans hi.initialised
  · rw [hev, List.append_assoc, List.singleton_append, ← htodo, hi.due]
  · exact hi.direct
  · exact hnd.of_append_right
  · intro b hb
    refine huse b (fun he => ?_) (hi.inUse b (hfreed ▸ List.mem_append_right _ hb))
    rw [he] at hnd
    exact (List.nodup_append.mp hnd).2.2 b (by simp) b hb rfl
  · exact fun h' => absurd h' hw

/-- The worker goes on at `w`, with the list changed to `ys`; the same is left to do. -/
theorem PathInv.moved {ys : List β} (hi : PathInv s h xs) (s' : PhyPath β ρ)
    (hl : Repr s'.lists fun _ => some ys)
    (hinit : s'.gUlpWorkerInitilized = s.gUlpWorkerInitilized) (hev : s'.events = s.events)
    (hm : s'.mem = s.mem) (htodo : s'.todo ys = s.todo xs) {seen : List MacCall}
    (hseen : s'.worker = .returning → macCalls s.events = seen) :
    PathInv s' { h with seen := seen } ys := by
  constructor
  · exact hl
  · exact hinit.trans hi.initialised
  · rw [hev, htodo]
    exact hi.due
  · exact hi.direct
  · rw [htodo]
    exact hi.nodup
  · rw [htodo, hm]
    exact hi.inUse
  · rw [hev]
    exact hseen

/-- With nothing left to do, all calls of the direct path have been made. -/
theorem PathInv.calls_eq (hi : PathInv s h xs) (ht : s.todo xs = []) :
    macCalls s.events = h.direct := by
  rw [← hi.direct, ← hi.due, ht, List.append_nil]

theorem mem_release? {t : Store β} {o : Option β} (ho : o ≠ some b) (hb : b ∈ t.inUse) :
    b ∈ (t.release? o).inUse := by
  cases o with
  | none => exact hb
  | some c =>
      have hne : b ≠ c := fun he => ho (congrArg some he.symm)
      show b ∈ (t.release c).inUse
      unfold Store.release
      split
      · exact (Multiset.mem_erase_of_ne hne).mpr hb
      · exact hb

/-- **A step of the worker keeps the invariant.** -/
theorem PathInv.workerStep (hi : PathInv s h xs) :
    ∃ ys, PathInv (ulpRecvAndHandlePhyData s)
      { h with seen := if s.worker.looks then h.direct else h.seen } ys := by
  cases hw : s.worker with
  | outside =>
      have htodo : s.todo xs = xs.flatMap s.handle := by
        rw [PhyPath.todo, PhyPath.current, hw]
        rfl
      by_cases hc : 0 < listCount s.lists (some gRecvdPhyDataList)
      · have hs : ulpRecvAndHandlePhyData s = s.goto .popping := by
          rw [ulpRecvAndHandlePhyData, hw]
          exact if_pos hc
        rw [hs]
        exact ⟨xs, hi.moved (s.goto .popping) hi.repr rfl rfl rfl htodo.symm nofun⟩
      · have hs : ulpRecvAndHandlePhyData s = s.goto .returning := by
          rw [ulpRecvAndHandlePhyData, hw]
          exact if_neg hc
        have hnil : xs = [] := by
          have hcount : listCount s.lists (some gRecvdPhyDataList) = xs.length :=
            (hi.repr.linked gRecvdPhyDataList xs rfl).count
          exact List.eq_nil_of_length_eq_zero (by omega)
        subst hnil
        rw [hs]
        exact ⟨[], hi.moved (s.goto .returning) hi.repr rfl rfl rfl htodo.symm fun _ => hi.calls_eq htodo⟩
  | popping =>
      have htodo : s.todo xs = xs.flatMap s.handle := by
        rw [PhyPath.todo, PhyPath.current, hw]
        rfl
      cases xs with
      | nil =>
          have hpop := hi.repr.popNode_nil (i := gRecvdPhyDataList) rfl
          have hs : ulpRecvAndHandlePhyData s = s.goto .returning := by
            rw [ulpRecvAndHandlePhyData, hw]
            simp only [hpop]
            rfl
          rw [hs]
          exact ⟨[], hi.moved (s.goto .returning) hi.repr rfl rfl rfl htodo.symm fun _ => hi.calls_eq htodo⟩
      | cons a xs =>
          obtain ⟨hout, hrepr, -⟩ := hi.repr.popNode_cons (i := gRecvdPhyDataList) rfl
          rw [update_phyList] at hrepr
          cases hp : listPopNode s.lists (some gRecvdPhyDataList) with
          | mk l o =>
              rw [hp] at hout hrepr
              obtain rfl : o = some a := hout
              let s' : PhyPath β ρ := { s with lists := l, worker := .popped a }
              have hs : ulpRecvAndHandlePhyData s = s' := by
                rw [ulpRecvAndHandlePhyData, hw]
                simp only [hp]
                rfl
              rw [hs]
              exact ⟨xs, hi.moved s' hrepr rfl rfl rfl htodo.symm nofun⟩
  | popped a =>
      have hs : ulpRecvAndHandlePhyData s = (s.callMac ((s.phyDataIndNode a).pBuffer.map
          s.mem.bytes) (s.phyDataIndNode a).length.toUInt16).goto (.called a) := by
        rw [ulpRecvAndHandlePhyData, hw]
      rw [hs]
      refine ⟨xs, hi.event _ rfl rfl rfl ?_ (fun _ _ hb => hb) nofun⟩
      rw [PhyPath.todo, PhyPath.current, hw]
      rfl
  | called a =>
      have hs : ulpRecvAndHandlePhyData s
          = (s.memFree (s.phyDataIndNode a).pBuffer).goto (.freed a) := by
        rw [ulpRecvAndHandlePhyData, hw]
      rw [hs]
      refine ⟨xs, hi.event _ rfl rfl rfl ?_ (fun b hb => mem_release? hb) nofun⟩
      have hh : ((s.memFree (s.phyDataIndNode a).pBuffer).goto (.freed a)).handle = s.handle := by
        funext b
        exact handle_congr rfl fun _ _ => congrFun (release?_bytes _ _) _
      rw [PhyPath.todo, PhyPath.current, hw, PhyPath.todo, hh]
      rfl
  | freed a =>
      have hs : ulpRecvAndHandlePhyData s = (s.memFree (some a)).goto .popping := by
        rw [ulpRecvAndHandlePhyData, hw]
      rw [hs]
      refine ⟨xs, hi.event _ rfl rfl rfl ?_ (fun b hb => mem_release? hb) nofun⟩
      have hh : ((s.memFree (some a)).goto .popping).handle = s.handle := by
        funext b
        exact handle_congr rfl fun _ _ => congrFun (release?_bytes _ _) _
      rw [PhyPath.todo, PhyPath.current, hw, PhyPath.todo, hh]
      rfl
  | returning =>
      have hs : ulpRecvAndHandlePhyData s = s.goto .outside := by
        rw [ulpRecvAndHandlePhyData, hw]
      have htodo : s.todo xs = xs.flatMap s.handle := by
        rw [PhyPath.todo, PhyPath.current, hw]
        rfl
      rw [hs]
      exact ⟨xs, hi.moved (s.goto .outside) hi.repr rfl rfl rfl htodo.symm nofun⟩

theorem PathInv.other (hi : PathInv s h xs) (mem : Store β) (callerBuffer : ρ → Nat → UInt8)
    (hkeep : ∀ b ∈ h.held s, b ∈ mem.inUse ∧ mem.bytes b = s.mem.bytes b) :
    PathInv { s with mem := mem, callerBuffer := callerBuffer } h xs := by
  rw [hi.held] at hkeep
  have htodo : ({ s with mem := mem, callerBuffer := callerBuffer } : PhyPath β ρ).todo xs
      = s.todo xs := todo_congr rfl fun b hb => ⟨rfl, (hkeep b hb).2⟩
  constructor
  · exact hi.repr
  · exact hi.initialised
  · rw [htodo]
    exact hi.due
  · exact hi.direct
  · rw [htodo]
    exact hi.nodup
  · intro b hb
    rw [htodo] at hb
    exact (hkeep b hb).1
  · exact hi.seen

end Invariant

/-- The list of an initialised worker is empty. -/
theorem initUlpWorker_repr (s : PhyPath β ρ) :
    Repr (initUlpWorker s true).lists fun _ => some [] := by
  refine ⟨fun i xs hx => ?_, fun i j _ _ hij => ?_⟩
  · cases i
    obtain rfl : [] = xs := Option.some.inj hx
    exact listInit_linked s.lists gRecvdPhyDataList
  · cases i
    cases j
    exact absurd rfl hij

/-- **The invariant holds in every run.** -/
theorem PhyReached.inv {s : PhyPath β ρ} {h : PhyHistory β}
    (hr : PhyReached P nodeSize s h) : ∃ xs, PathInv s h xs := by
  induction hr with
  | init hw he =>
      rename_i s
      refine ⟨[], ?_⟩
      have htodo : (initUlpWorker s true).todo [] = [] := by
        show (initUlpWorker s true).current ++ [] = []
        have hw' : (initUlpWorker s true).worker = .outside := hw
        rw [PhyPath.current, hw']
        rfl
      constructor
      · exact initUlpWorker_repr s
      · rfl
      · rw [htodo]
        exact congrArg (· ++ []) he
      · rfl
      · rw [htodo]
        exact List.nodup_nil
      · rw [htodo]
        exact fun b hb => absurd hb List.not_mem_nil
      · exact fun h' => nomatch hw.symm.trans h'
  | arrival _ pBuffer length hok ih =>
      obtain ⟨xs, hi⟩ := ih
      exact hi.arrival P nodeSize pBuffer length hok
  | worker _ ih =>
      obtain ⟨xs, hi⟩ := ih
      exact hi.workerStep
  | other _ mem callerBuffer hkeep ih =>
      obtain ⟨xs, hi⟩ := ih
      exact ⟨xs, hi.other mem callerBuffer hkeep⟩

/-! ## The two paths -/

/-- What the worker releases in its next step. -/
def PhyPath.releases (s : PhyPath β ρ) : Option β :=
  match s.worker with
  | .called a => (s.phyDataIndNode a).pBuffer
  | .freed a => some a
  | _ => none

/-- **The queued path does what the direct path does.** The calls of `MacProcessPhyDataInd`
are the first ones of the direct path on the same inputs, and they are all of them when
`UlpRecvAndHandlePhyData` returns and no indication has come since it last looked at the
list. Each call is followed by the release of the buffer and of the node of its indication,
both in use until then. -/
theorem queued_path_calls_as_direct {s : PhyPath β ρ} {h : PhyHistory β}
    (hr : PhyReached P nodeSize s h) :
    macCalls s.events <+: h.direct ∧ s.events <+: h.due
      ∧ (s.worker = .returning → h.seen = h.direct →
          macCalls s.events = h.direct ∧ s.events = h.due)
      ∧ ∀ b, s.releases = some b → b ∈ s.mem.inUse := by
  obtain ⟨xs, hi⟩ := hr.inv
  have hcalls : h.direct = macCalls s.events ++ macCalls (s.todo xs) := by
    rw [← hi.direct, ← hi.due, macCalls_append]
  refine ⟨⟨_, hcalls.symm⟩, ⟨_, hi.due⟩, fun hw hseen => ?_, fun b hb => ?_⟩
  · have heq : macCalls s.events = h.direct := (hi.seen hw).trans hseen
    have hnone : macCalls (s.todo xs) = [] := by
      rw [heq] at hcalls
      exact List.self_eq_append_right.mp hcalls
    have htodo : s.todo xs = xs.flatMap s.handle := by
      rw [PhyPath.todo, PhyPath.current, hw]
      rfl
    cases xs with
    | nil =>
        refine ⟨heq, ?_⟩
        rw [← hi.due, htodo]
        exact (List.append_nil _).symm
    | cons a xs =>
        -- the call for the first node would be left to do
        rw [htodo] at hnone
        exact nomatch hnone
  · refine hi.inUse b (mem_freedBlocks.mpr (List.mem_append_left _ ?_))
    unfold PhyPath.releases at hb
    unfold PhyPath.current
    cases hw : s.worker with
    | outside => simp [hw] at hb
    | popping => simp [hw] at hb
    | popped a => simp [hw] at hb
    | returning => simp [hw] at hb
    | called a =>
        rw [hw] at hb
        obtain hb : (s.phyDataIndNode a).pBuffer = some b := hb
        simp [hb]
    | freed a =>
        rw [hw] at hb
        obtain rfl : a = b := Option.some.inj hb
        simp

/-- The path before `InitUlpWorker`, with one buffer of a caller. -/
def startPath : PhyPath Nat Unit where
  mem := default
  callerBuffer _ k := UInt8.ofNat (k + 1)
  gUlpWorkerInitilized := false
  lists := ⟨fun _ => ⟨none, none, 0⟩, fun _ => ⟨none, none⟩, 0⟩
  phyDataIndNode _ := ⟨0, none⟩
  badDerefs := 0
  events := []
  worker := .outside

/-- Two indications, the second one while the worker has the node of the first one. -/
theorem queued_path_calls_as_direct_two :
    ∃ (s : PhyPath Nat Unit) (h : PhyHistory Nat), PhyReached freshPolicy 32 s h
      ∧ h.direct.length = 2 ∧ macCalls s.events = h.direct ∧ s.events = h.due := by
  have h0 : PhyReached freshPolicy 32 (initUlpWorker startPath true) ⟨[], [], []⟩ :=
    .init rfl rfl
  have h1 := ((h0.arrival (some ()) 2 (by decide +kernel)).worker).worker
  have h2 := (h1.arrival (some ()) 3 (by decide +kernel)).worker.worker.worker
  have h3 := h2.worker.worker.worker.worker.worker
  refine ⟨_, _, h3, by decide +kernel, ?_⟩
  exact (queued_path_calls_as_direct _ _ h3).2.2.1 (by decide +kernel) (by decide +kernel)

/-- An indication that comes between the last look of the worker at the list and its return
waits for the next call. -/
theorem returns_with_indication_waiting :
    ¬ ∀ (s : PhyPath Nat Unit) (h : PhyHistory Nat), PhyReached freshPolicy 32 s h →
      s.worker = .returning → macCalls s.events = h.direct := by
  intro hall
  have h0 : PhyReached freshPolicy 32 (initUlpWorker startPath true) ⟨[], [], []⟩ :=
    .init rfl rfl
  have h1 := h0.worker.arrival (some ()) 1 (by decide +kernel)
  exact absurd (hall _ _ h1 (by decide +kernel)) (by decide +kernel)

end LteUlp.Worker
