import Mathlib.Data.List.Basic

set_option autoImplicit false

/-! # The intrusive list of `list.c`

A list is a header (`struct _List_`: first node, last node, count) and the `next`/`prev`
fields embedded in its nodes. All lists of the program live in one memory, the `Heap`:
a header for every list address `ι` and a node for every node address `α`. A null pointer
is `none`. The operations are the functions of `list.c`, with their null checks and with
every consistency branch of `DeleteNode`.

The lock of a list (`mtFlag`, `SemWait`, `SemPost`) has no effect on a caller that holds
it, so it does not appear. `count` is a `Nat`: a list has at most as many nodes as the
memory has room for.
-/

namespace LteUlp.Intrusive

/-- `struct _ListNode_`. -/
structure ListNode (α : Type) where
  next : Option α
  prev : Option α
  deriving DecidableEq

/-- `struct _List_`: `node.next` is the first node and `node.prev` the last one. -/
structure ListHead (α : Type) where
  next : Option α
  prev : Option α
  count : Nat
  deriving DecidableEq

/-- The memory the lists live in. `errors` counts the consistency-error branches of
`DeleteNode` that were taken (each of them logs an error and returns `1`). -/
structure Heap (ι α : Type) where
  list : ι → ListHead α
  node : α → ListNode α
  errors : Nat

variable {ι α : Type} [DecidableEq ι] [DecidableEq α]

namespace Heap

/-- Assign a list header. -/
def setList (h : Heap ι α) (i : ι) (v : ListHead α) : Heap ι α :=
  { h with list := Function.update h.list i v }

/-- `pNode->next = v`. -/
def setNext (h : Heap ι α) (a : α) (v : Option α) : Heap ι α :=
  { h with node := Function.update h.node a { h.node a with next := v } }

/-- `pNode->prev = v`. -/
def setPrev (h : Heap ι α) (a : α) (v : Option α) : Heap ι α :=
  { h with node := Function.update h.node a { h.node a with prev := v } }

/-- `pNode->next = 0; pNode->prev = 0`. -/
def clearNode (h : Heap ι α) (a : α) : Heap ι α := (h.setPrev a none).setNext a none

/-- A consistency-error branch: log and leave the list as it is. -/
def logError (h : Heap ι α) : Heap ι α := { h with errors := h.errors + 1 }

end Heap

/-! ## The operations -/

/-- `ListInit`. -/
def listInit (h : Heap ι α) (pList : Option ι) : Heap ι α :=
  match pList with
  | none => h
  | some i => h.setList i ⟨none, none, 0⟩

/-- `ListCount`. -/
def listCount (h : Heap ι α) (pList : Option ι) : Nat :=
  match pList with
  | none => 0
  | some i => (h.list i).count

/-- `PushTail`. -/
def pushTail (h : Heap ι α) (i : ι) (pNode : α) : Heap ι α :=
  let pList := h.list i
  match pList.next, pList.prev with
  | some _, some last =>
      if pList.count = 0 then
        (h.setList i ⟨some pNode, some pNode, 1⟩).clearNode pNode
      else
        ((((h.setNext pNode none).setPrev pNode (some last)).setNext last (some pNode)).setList i
          ⟨pList.next, some pNode, pList.count + 1⟩)
  | _, _ => (h.setList i ⟨some pNode, some pNode, 1⟩).clearNode pNode

/-- `PushHead`. -/
def pushHead (h : Heap ι α) (i : ι) (pNode : α) : Heap ι α :=
  let pList := h.list i
  match pList.next, pList.prev with
  | some first, some _ =>
      if pList.count = 0 then
        (h.setList i ⟨some pNode, some pNode, 1⟩).clearNode pNode
      else
        ((((h.setPrev pNode none).setNext pNode (some first)).setPrev first (some pNode)).setList i
          ⟨some pNode, pList.prev, pList.count + 1⟩)
  | _, _ => (h.setList i ⟨some pNode, some pNode, 1⟩).clearNode pNode

/-- `DeleteNode`; the returned value `1` is a consistency error. -/
def deleteNode (h : Heap ι α) (i : ι) (pNode : α) : Heap ι α × Nat :=
  let pList := h.list i
  let nd := h.node pNode
  if pList.count = 0 then
    ((h.setList i ⟨none, none, 0⟩).logError, 1)
  else if pList.count = 1 then
    if nd.prev ≠ none ∨ nd.next ≠ none ∨ pList.prev ≠ some pNode ∨ pList.next ≠ some pNode then
      (h.logError, 1)
    else
      ((h.setList i ⟨none, none, 0⟩).clearNode pNode, 0)
  else
    match nd.next, nd.prev with
    | none, some p =>
        -- last in the list; `pList->node.prev->prev` is read only where it is `pNode`'s
        if pList.prev ≠ some pNode then (h.logError, 1)
        else
          (((h.setList i { pList with prev := some p, count := pList.count - 1 }).setNext p
            none).clearNode pNode, 0)
    | some n, none =>
        -- first in the list
        if pList.next ≠ some pNode then (h.logError, 1)
        else
          (((h.setList i { pList with next := some n, count := pList.count - 1 }).setPrev n
            none).clearNode pNode, 0)
    | some n, some p =>
        -- in the middle of the list
        if (h.node n).prev ≠ some pNode ∨ (h.node p).next ≠ some pNode then (h.logError, 1)
        else
          ((((h.setPrev n (some p)).setNext p (some n)).setList i
            { pList with count := pList.count - 1 }).clearNode pNode, 0)
    | none, none => (h.logError, 1)

/-- `PopHead`. -/
def popHead (h : Heap ι α) (i : ι) : Heap ι α × Option α :=
  match (h.list i).next with
  | some pNode => ((deleteNode h i pNode).1, some pNode)
  | none => (h, none)

/-- `ListPushNode` (`ListInsertNodeToTail`). -/
def listPushNode (h : Heap ι α) (pList : Option ι) (pNode : Option α) : Heap ι α :=
  match pList, pNode with
  | some i, some a => pushTail h i a
  | _, _ => h

/-- `ListPushNodeHead` (`ListInsertNodeToHead`). -/
def listPushNodeHead (h : Heap ι α) (pList : Option ι) (pNode : Option α) : Heap ι α :=
  match pList, pNode with
  | some i, some a => pushHead h i a
  | _, _ => h

/-- `ListPopNode`. -/
def listPopNode (h : Heap ι α) (pList : Option ι) : Heap ι α × Option α :=
  match pList with
  | some i => popHead h i
  | none => (h, none)

/-- The search loop of `ListDeleteNode`: at most `fuel` nodes from `tmpNode` on. `none` is
the dereference of a null `tmpNode`. -/
def findNode (h : Heap ι α) (pNode : α) : Nat → Option α → Option Bool
  | 0, _ => some false
  | fuel + 1, tmpNode =>
      if tmpNode = some pNode then some true
      else
        match tmpNode with
        | none => none
        | some t => findNode h pNode fuel (h.node t).next

/-- `ListDeleteNode`; `none` when the search dereferences a null pointer. -/
def listDeleteNode (h : Heap ι α) (pList : Option ι) (pNode : Option α) : Option (Heap ι α) :=
  match pList, pNode with
  | some i, some a =>
      if (h.list i).count > 0 then
        match findNode h a (h.list i).count (h.list i).next with
        | none => none
        | some true => some (deleteNode h i a).1
        | some false => some h
      else some h
  | _, _ => some h

/-- `ListGetFirstNode`. -/
def listGetFirstNode (h : Heap ι α) (pList : Option ι) : Option α :=
  match pList with
  | some i => (h.list i).next
  | none => none

/-- `ListGetNextNode`. -/
def listGetNextNode (h : Heap ι α) (pNode : Option α) : Option α :=
  match pNode with
  | some a => (h.node a).next
  | none => none

end LteUlp.Intrusive
