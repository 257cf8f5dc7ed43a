import LteUlp.List.Model
import Mathlib.Tactic

set_option autoImplicit false
set_option linter.unusedSectionVars false

/-! # The intrusive list refines a sequence

`Linked h i xs` says that the header and the nodes of the list `i` spell the sequence `xs`:
the `next` fields from the head, the `prev` fields from the tail, and the count. The shape
is described by `DSeg`, a doubly linked segment between two outer pointers, which splits
over `++` (`dseg_append`); every operation changes at most the two nodes around the cut.

`Repr h abs` collects this for a whole memory: every initialised list is linked and the
lists share no node. `step_refines` is the simulation of one operation, `run_refines` that
of a run.
-/

namespace LteUlp.Intrusive

variable {ι α : Type} [DecidableEq ι] [DecidableEq α]

/-! ## Segments -/

/-- The nodes `xs` are doubly linked, the first one back to `p` and the last one on to `n`. -/
def DSeg (node : α → ListNode α) : Option α → List α → Option α → Prop
  | _, [], _ => True
  | p, x :: xs, n =>
      (node x).prev = p ∧ (node x).next = xs.head?.or n ∧ DSeg node (some x) xs n

theorem dseg_append (node : α → ListNode α) (p n : Option α) (l r : List α) :
    DSeg node p (l ++ r) n
      ↔ DSeg node p l (r.head?.or n) ∧ DSeg node (l.getLast?.or p) r n := by
  induction l generalizing p with
  | nil => simp [DSeg]
  | cons x l ih =>
      have hl : (x :: l).getLast?.or p = l.getLast?.or (some x) := by
        cases h : l.getLast? <;> simp [List.getLast?_cons, h]
      have hh : (l ++ r).head?.or n = l.head?.or (r.head?.or n) := by
        cases l <;> simp
      rw [List.cons_append, DSeg, DSeg, ih, hl, hh]
      tauto

/-- A segment only depends on its own nodes. -/
theorem DSeg.congr {node node' : α → ListNode α} {p n : Option α} {xs : List α}
    (h : DSeg node p xs n) (heq : ∀ x ∈ xs, node' x = node x) : DSeg node' p xs n := by
  induction xs generalizing p with
  | nil => trivial
  | cons x xs ih =>
      obtain ⟨h1, h2, h3⟩ := h
      have hx := heq x (by simp)
      exact ⟨by rw [hx, h1], by rw [hx, h2], ih h3 (fun y hy => heq y (by simp [hy]))⟩

/-! ## Lists and memories -/

/-- The list `i` spells the sequence `xs`. -/
structure Linked (h : Heap ι α) (i : ι) (xs : List α) : Prop where
  next : (h.list i).next = xs.head?
  prev : (h.list i).prev = xs.getLast?
  count : (h.list i).count = xs.length
  seg : DSeg h.node none xs none
  nodup : xs.Nodup

/-- A list only depends on its header and its own nodes. -/
theorem Linked.congr {h h' : Heap ι α} {i : ι} {xs : List α} (hl : Linked h i xs)
    (hi : h'.list i = h.list i) (hn : ∀ x ∈ xs, h'.node x = h.node x) : Linked h' i xs :=
  ⟨by rw [hi, hl.next], by rw [hi, hl.prev], by rw [hi, hl.count], hl.seg.congr hn, hl.nodup⟩

/-- The abstract memory: the sequence of every list that `ListInit` has set up. -/
abbrev Abs (ι α : Type) := ι → Option (List α)

/-- The node `a` is in no list. -/
def Abs.Unlinked (abs : Abs ι α) (a : α) : Prop := ∀ i xs, abs i = some xs → a ∉ xs

/-- The memory represents the abstract lists: each one is linked, and they are disjoint. -/
structure Repr (h : Heap ι α) (abs : Abs ι α) : Prop where
  linked : ∀ i xs, abs i = some xs → Linked h i xs
  disjoint : ∀ i j xs ys, i ≠ j → abs i = some xs → abs j = some ys → xs.Disjoint ys

/-- `h'` differs from `h` in the header of `i` and in the nodes `touched` at most. -/
structure Frame (h h' : Heap ι α) (i : ι) (touched : List α) : Prop where
  list : ∀ j, j ≠ i → h'.list j = h.list j
  node : ∀ a, a ∉ touched → h'.node a = h.node a
  errors : h'.errors = h.errors

/-! ## What the field updates do -/

section Fields

variable (h : Heap ι α) (i j : ι) (v : ListHead α) (a b : α) (o : Option α)

@[simp] theorem setList_node : (h.setList i v).node = h.node := rfl
@[simp] theorem setList_errors : (h.setList i v).errors = h.errors := rfl
@[simp] theorem setList_self : (h.setList i v).list i = v := by simp [Heap.setList]
theorem setList_ne (hj : j ≠ i) : (h.setList i v).list j = h.list j := by
  simp [Heap.setList, hj]

@[simp] theorem setNext_list : (h.setNext a o).list = h.list := rfl
@[simp] theorem setNext_errors : (h.setNext a o).errors = h.errors := rfl
theorem setNext_node : (h.setNext a o).node b
    = if b = a then { h.node a with next := o } else h.node b := by
  by_cases hb : b = a <;> simp [Heap.setNext, hb]

@[simp] theorem setPrev_list : (h.setPrev a o).list = h.list := rfl
@[simp] theorem setPrev_errors : (h.setPrev a o).errors = h.errors := rfl
theorem setPrev_node : (h.setPrev a o).node b
    = if b = a then { h.node a with prev := o } else h.node b := by
  by_cases hb : b = a <;> simp [Heap.setPrev, hb]

@[simp] theorem clearNode_list : (h.clearNode a).list = h.list := rfl
@[simp] theorem clearNode_errors : (h.clearNode a).errors = h.errors := rfl
theorem clearNode_node : (h.clearNode a).node b
    = if b = a then ⟨none, none⟩ else h.node b := by
  by_cases hb : b = a <;> simp [Heap.clearNode, setNext_node, setPrev_node, hb]

end Fields

/-! ## One operation on one list -/

theorem listInit_linked (h : Heap ι α) (i : ι) : Linked (listInit h (some i)) i [] :=
  ⟨by simp [listInit], by simp [listInit], by simp [listInit], trivial, List.nodup_nil⟩

theorem pushTail_linked {h : Heap ι α} {i : ι} {xs : List α} {a : α} (hl : Linked h i xs)
    (ha : a ∉ xs) :
    Linked (pushTail h i a) i (xs ++ [a]) ∧ Frame h (pushTail h i a) i (a :: xs) := by
  rcases List.eq_nil_or_concat xs with rfl | ⟨l, t, rfl⟩
  · have he : pushTail h i a = (h.setList i ⟨some a, some a, 1⟩).clearNode a := by
      simp [pushTail, hl.next]
    rw [he]
    refine ⟨⟨by simp, by simp, by simp, ?_, by simp⟩, ⟨?_, ?_, by simp⟩⟩
    · simp [DSeg, clearNode_node]
    · intro j hj
      simp [setList_ne _ _ _ _ hj]
    · intro b hb
      simp only [List.mem_singleton] at hb
      simp [clearNode_node, hb]
  · rw [List.concat_eq_append] at *
    obtain ⟨f, hf⟩ : ∃ f, (l ++ [t]).head? = some f := by cases l <;> simp
    have ht : a ≠ t := fun hc => ha (by simp [hc])
    have he : pushTail h i a
        = ((((h.setNext a none).setPrev a (some t)).setNext t (some a)).setList i
            ⟨some f, some a, (l ++ [t]).length + 1⟩) := by
      simp [pushTail, hl.next, hl.prev, hl.count, hf]
    have hseg := hl.seg
    have hnd := hl.nodup
    rw [dseg_append] at hseg
    obtain ⟨hs1, hs2, hs3, -⟩ := hseg
    have hnode : ∀ b, b ≠ a → b ≠ t → (pushTail h i a).node b = h.node b := by
      intro b hba hbt
      simp [he, setNext_node, setPrev_node, hba, hbt]
    have hta : (pushTail h i a).node t = { h.node t with next := some a } := by
      simp [he, setNext_node, setPrev_node, Ne.symm ht]
    have haa : (pushTail h i a).node a = ⟨none, some t⟩ := by
      simp [he, setNext_node, setPrev_node, ht]
    refine ⟨⟨?_, ?_, ?_, ?_, ?_⟩, ⟨?_, ?_, ?_⟩⟩
    · rw [he]; simp [← hf]
    · rw [he]; simp
    · rw [he]; simp
    · rw [dseg_append, dseg_append]
      refine ⟨⟨?_, ?_⟩, ?_⟩
      · refine hs1.congr fun x hx => hnode x ?_ ?_
        · rintro rfl; exact ha (by simp [hx])
        · rintro rfl
          exact (List.nodup_append.mp hnd).2.2 x hx x (by simp) rfl
      · simp only [DSeg, hta, and_true]
        exact ⟨hs2, by simp⟩
      · simp [DSeg, haa]
    · rw [List.nodup_append]
      exact ⟨hnd, by simp, fun x hx y hy => by
        rw [List.mem_singleton] at hy
        subst hy
        rintro rfl
        exact ha hx⟩
    · intro j hj
      rw [he, setList_ne _ _ _ _ hj]
      rfl
    · intro b hb
      simp only [List.mem_cons, List.mem_append, not_or] at hb
      exact hnode b hb.1 hb.2.2.1
    · rw [he]; simp

theorem pushHead_linked {h : Heap ι α} {i : ι} {xs : List α} {a : α} (hl : Linked h i xs)
    (ha : a ∉ xs) :
    Linked (pushHead h i a) i (a :: xs) ∧ Frame h (pushHead h i a) i (a :: xs) := by
  cases xs with
  | nil =>
      have he : pushHead h i a = (h.setList i ⟨some a, some a, 1⟩).clearNode a := by
        simp [pushHead, hl.next]
      rw [he]
      refine ⟨⟨by simp, by simp, by simp, ?_, by simp⟩, ⟨?_, ?_, by simp⟩⟩
      · simp [DSeg, clearNode_node]
      · intro j hj
        simp [setList_ne _ _ _ _ hj]
      · intro b hb
        simp only [List.mem_singleton] at hb
        simp [clearNode_node, hb]
  | cons f r =>
      obtain ⟨t, ht⟩ : ∃ t, (f :: r).getLast? = some t := by
        cases h' : (f :: r).getLast? with
        | none => simp at h'
        | some t => exact ⟨t, rfl⟩
      have hf : a ≠ f := fun hc => ha (by simp [hc])
      have he : pushHead h i a
          = ((((h.setPrev a none).setNext a (some f)).setPrev f (some a)).setList i
              ⟨some a, some t, (f :: r).length + 1⟩) := by
        simp [pushHead, hl.next, hl.prev, hl.count, ht]
      obtain ⟨-, hs2, hs3⟩ := hl.seg
      have hnd := List.nodup_cons.mp hl.nodup
      have hnode : ∀ b, b ≠ a → b ≠ f → (pushHead h i a).node b = h.node b := by
        intro b hba hbt
        simp [he, setNext_node, setPrev_node, hba, hbt]
      have hfa : (pushHead h i a).node f = { h.node f with prev := some a } := by
        simp [he, setNext_node, setPrev_node, Ne.symm hf]
      have haa : (pushHead h i a).node a = ⟨some f, none⟩ := by
        simp [he, setNext_node, setPrev_node, hf]
      refine ⟨⟨?_, ?_, ?_, ?_, List.nodup_cons.mpr ⟨ha, hl.nodup⟩⟩, ⟨?_, ?_, ?_⟩⟩
      · rw [he]; simp
      · rw [he]; simp [List.getLast?_cons, ← ht]
      · rw [he]; simp
      · refine ⟨by rw [haa], by rw [haa]; simp, by rw [hfa], by rw [hfa]; exact hs2, ?_⟩
        refine hs3.congr fun x hx => hnode x ?_ ?_
        · rintro rfl; exact ha (by simp [hx])
        · rintro rfl; exact hnd.1 hx
      · intro j hj
        rw [he, setList_ne _ _ _ _ hj]
        rfl
      · intro b hb
        simp only [List.mem_cons, not_or] at hb
        exact hnode b hb.1 hb.2.1
      · rw [he]; simp

/-- **`DeleteNode` of a member.** The node goes, the order of the others stays, and no
consistency branch is taken. -/
theorem deleteNode_linked {h : Heap ι α} {i : ι} {l r : List α} {a : α}
    (hl : Linked h i (l ++ a :: r)) :
    Linked (deleteNode h i a).1 i (l ++ r) ∧ Frame h (deleteNode h i a).1 i (l ++ a :: r)
      ∧ (deleteNode h i a).2 = 0 := by
  have hnd := hl.nodup
  have hseg := hl.seg
  rw [dseg_append] at hseg
  obtain ⟨hsl, hsp, hsn, hsr⟩ := hseg
  obtain ⟨hnl, hnar, hlr⟩ := List.nodup_append.mp hnd
  obtain ⟨har, hnr⟩ := List.nodup_cons.mp hnar
  have hal : a ∉ l := fun hc => hlr a hc a (by simp) rfl
  have hndlr : (l ++ r).Nodup :=
    List.nodup_append.mpr ⟨hnl, hnr, fun x hx y hy => hlr x hx y (by simp [hy])⟩
  rcases List.eq_nil_or_concat l with rfl | ⟨l, p, rfl⟩
  · cases r with
    | nil =>
        -- the only node
        have he : deleteNode h i a = ((h.setList i ⟨none, none, 0⟩).clearNode a, 0) := by
          simp_all [deleteNode, hl.next, hl.prev, hl.count]
        rw [he]
        refine ⟨⟨by simp, by simp, by simp, trivial, by simp⟩, ⟨?_, ?_, by simp⟩, rfl⟩
        · intro j hj
          simp [setList_ne _ _ _ _ hj]
        · intro b hb
          have hba : b ≠ a := by simpa using hb
          simp [clearNode_node, hba]
    | cons n r =>
        -- the first of several
        have hna : n ≠ a := fun hc => har (by simp [hc])
        obtain ⟨hp, hn, hs⟩ := hsr
        have he : deleteNode h i a
            = (((h.setList i { h.list i with next := some n, count := (h.list i).count - 1 }).setPrev n
              none).clearNode a, 0) := by
          have hc : (h.list i).count ≠ 1 := by simp [hl.count]
          have hc' : (h.list i).count ≠ 0 := by simp [hl.count]
          simp_all [deleteNode, hl.next]
        have hnode : ∀ b, b ≠ a → b ≠ n → (deleteNode h i a).1.node b = h.node b := by
          intro b hba hbn
          simp [he, clearNode_node, setPrev_node, hba, hbn]
        have hnn : (deleteNode h i a).1.node n = { h.node n with prev := none } := by
          simp [he, clearNode_node, setPrev_node, hna]
        refine ⟨⟨?_, ?_, ?_, ?_, hndlr⟩, ⟨?_, ?_, ?_⟩, by rw [he]⟩
        · rw [he]; simp
        · rw [he]; simp [hl.prev, List.getLast?_cons]
        · rw [he]; simp [hl.count]
        · refine ⟨by rw [hnn], by rw [hnn]; exact hn, hs.congr fun x hx => hnode x ?_ ?_⟩
          · rintro rfl; exact har (by simp [hx])
          · rintro rfl; exact (List.nodup_cons.mp hnr).1 hx
        · intro j hj
          rw [he]
          simp [setList_ne _ _ _ _ hj]
        · intro b hb
          simp only [List.nil_append, List.mem_cons, not_or] at hb
          exact hnode b hb.1 hb.2.1
        · rw [he]; simp
  · rw [List.concat_eq_append] at *
    have hpa : p ≠ a := fun hc => hal (by simp [hc])
    have hpl : p ∉ l := fun hc => (List.nodup_append.mp hnl).2.2 p hc p (by simp) rfl
    rw [dseg_append] at hsl
    obtain ⟨hsl, hpp, hpn, -⟩ := hsl
    have hc : (h.list i).count ≠ 1 := by simp [hl.count]; omega
    have hc' : (h.list i).count ≠ 0 := by simp [hl.count]
    cases r with
    | nil =>
        -- the last of several
        have he : deleteNode h i a
            = (((h.setList i { h.list i with prev := some p, count := (h.list i).count - 1 }).setNext p
              none).clearNode a, 0) := by
          simp_all [deleteNode, hl.prev]
        have hnode : ∀ b, b ≠ a → b ≠ p → (deleteNode h i a).1.node b = h.node b := by
          intro b hba hbn
          simp [he, clearNode_node, setNext_node, hba, hbn]
        have hnn : (deleteNode h i a).1.node p = { h.node p with next := none } := by
          simp [he, clearNode_node, setNext_node, hpa]
        refine ⟨⟨?_, ?_, ?_, ?_, hndlr⟩, ⟨?_, ?_, ?_⟩, by rw [he]⟩
        · rw [he]; simp [hl.next]
        · rw [he]; simp
        · rw [he]; simp [hl.count]
        · rw [List.append_nil, dseg_append]
          refine ⟨hsl.congr fun x hx => hnode x ?_ ?_, ?_⟩
          · rintro rfl; exact hal (by simp [hx])
          · rintro rfl; exact hpl hx
          · simp only [DSeg, hnn, and_true]
            exact ⟨hpp, by simp⟩
        · intro j hj
          rw [he]
          simp [setList_ne _ _ _ _ hj]
        · intro b hb
          simp only [List.mem_append, List.mem_cons, not_or] at hb
          exact hnode b hb.2.1 hb.1.2.1
        · rw [he]; simp
    | cons n r =>
        -- in the middle
        have hna : n ≠ a := fun hc => har (by simp [hc])
        have hnp : n ≠ p := fun hc => hlr p (by simp) n (by simp) hc.symm
        obtain ⟨hnprev, hnnext, hs⟩ := hsr
        have he : deleteNode h i a
            = ((((h.setPrev n (some p)).setNext p (some n)).setList i
              { h.list i with count := (h.list i).count - 1 }).clearNode a, 0) := by
          simp_all [deleteNode]
        have hnode : ∀ b, b ≠ a → b ≠ p → b ≠ n → (deleteNode h i a).1.node b = h.node b := by
          intro b hba hbp hbn
          simp [he, clearNode_node, setNext_node, setPrev_node, hba, hbn, hbp]
        have hnn : (deleteNode h i a).1.node n = { h.node n with prev := some p } := by
          simp [he, clearNode_node, setNext_node, setPrev_node, hna, hnp]
        have hpp' : (deleteNode h i a).1.node p = { h.node p with next := some n } := by
          simp [he, clearNode_node, setNext_node, setPrev_node, hpa, Ne.symm hnp]
        refine ⟨⟨?_, ?_, ?_, ?_, hndlr⟩, ⟨?_, ?_, ?_⟩, by rw [he]⟩
        · rw [he]; simp [hl.next]
        · rw [he]; simp [hl.prev, List.getLast?_cons]
        · rw [he]; simp [hl.count]
        · rw [dseg_append, dseg_append]
          refine ⟨⟨hsl.congr fun x hx => hnode x ?_ ?_ ?_, ?_⟩, ?_⟩
          · rintro rfl; exact hal (by simp [hx])
          · rintro rfl; exact hpl hx
          · rintro rfl; exact hlr x (by simp [hx]) x (by simp) rfl
          · simp only [DSeg, hpp', and_true]
            exact ⟨hpp, by simp⟩
          · refine ⟨by rw [hnn]; simp, by rw [hnn]; exact hnnext, hs.congr fun x hx => hnode x ?_ ?_ ?_⟩
            · rintro rfl; exact har (by simp [hx])
            · rintro rfl; exact hlr x (by simp) x (by simp [hx]) rfl
            · rintro rfl; exact (List.nodup_cons.mp hnr).1 hx
        · intro j hj
          rw [he]
          simp [setList_ne _ _ _ _ hj]
        · intro b hb
          simp only [List.mem_append, List.mem_cons, not_or] at hb
          exact hnode b hb.2.1 hb.1.2.1 hb.2.2.1
        · rw [he]; simp

/-- `PopHead` of a nonempty list is `DeleteNode` of its first node. -/
theorem popHead_linked {h : Heap ι α} {i : ι} {a : α} {xs : List α}
    (hl : Linked h i (a :: xs)) :
    popHead h i = ((deleteNode h i a).1, some a) := by
  simp [popHead, hl.next]

theorem popHead_nil {h : Heap ι α} {i : ι} (hl : Linked h i []) : popHead h i = (h, none) := by
  simp [popHead, hl.next]

/-! ## Following the pointers -/

/-- The nodes met by following `step` from `start`, at most `fuel` of them. -/
def follow (step : α → Option α) : Nat → Option α → List α
  | 0, _ => []
  | _ + 1, none => []
  | fuel + 1, some a => a :: follow step fuel (step a)

theorem follow_next {node : α → ListNode α} {p : Option α} {xs : List α}
    (h : DSeg node p xs none) {fuel : Nat} (hf : xs.length ≤ fuel) :
    follow (fun a => (node a).next) fuel xs.head? = xs := by
  induction xs generalizing p fuel with
  | nil => cases fuel <;> rfl
  | cons x xs ih =>
      obtain ⟨-, hn, hs⟩ := h
      obtain ⟨fuel, rfl⟩ : ∃ k, fuel = k + 1 := ⟨fuel - 1, by simp at hf; omega⟩
      simp only [List.head?_cons, follow, hn, Option.or_none]
      rw [ih hs (by simpa using hf)]

theorem follow_prev {node : α → ListNode α} {n : Option α} {xs : List α}
    (h : DSeg node none xs n) {fuel : Nat} (hf : xs.length ≤ fuel) :
    follow (fun a => (node a).prev) fuel xs.getLast? = xs.reverse := by
  induction xs using List.reverseRecOn generalizing n fuel with
  | nil => cases fuel <;> rfl
  | append_singleton l x ih =>
      rw [dseg_append] at h
      obtain ⟨hs, hp, -⟩ := h
      obtain ⟨fuel, rfl⟩ : ∃ k, fuel = k + 1 := ⟨fuel - 1, by simp at hf; omega⟩
      simp only [List.getLast?_append, List.getLast?_singleton, follow, hp, Option.or_none,
        Option.some_or]
      rw [ih hs (by simpa using hf)]
      simp

/-- The search of `ListDeleteNode` answers membership and dereferences no null pointer. -/
theorem findNode_eq {h : Heap ι α} {p : Option α} {xs : List α}
    (hs : DSeg h.node p xs none) (a : α) :
    findNode h a xs.length xs.head? = some (decide (a ∈ xs)) := by
  induction xs generalizing p with
  | nil => simp [findNode]
  | cons x xs ih =>
      obtain ⟨-, hn, hs⟩ := hs
      by_cases hx : x = a
      · simp [findNode, hx]
      · have hxa : a ≠ x := fun hc => hx hc.symm
        simp only [List.length_cons, findNode, List.head?_cons, Option.some.injEq, hx, if_false, hn,
          Option.or_none, ih hs]
        simp [hxa]

theorem listDeleteNode_not_mem {h : Heap ι α} {i : ι} {xs : List α} {a : α}
    (hl : Linked h i xs) (ha : a ∉ xs) : listDeleteNode h (some i) (some a) = some h := by
  simp [listDeleteNode, hl.count, hl.next, findNode_eq hl.seg, ha]

theorem listDeleteNode_mem {h : Heap ι α} {i : ι} {xs : List α} {a : α}
    (hl : Linked h i xs) (ha : a ∈ xs) :
    listDeleteNode h (some i) (some a) = some (deleteNode h i a).1 := by
  have hpos : 0 < xs.length := List.length_pos_of_mem ha
  simp [listDeleteNode, hl.count, hl.next, findNode_eq hl.seg, ha, hpos]

/-- The successor of a linked node. -/
theorem Linked.next_of_mem {h : Heap ι α} {i : ι} {l r : List α} {a : α}
    (hl : Linked h i (l ++ a :: r)) : (h.node a).next = r.head? := by
  have hs := hl.seg
  rw [dseg_append] at hs
  simpa using hs.2.2.1

/-! ## Runs of operations -/

/-- A call of one of the list functions. -/
inductive Op (ι α : Type)
  | init (pList : Option ι)
  | pushNode (pList : Option ι) (pNode : Option α)
  | pushNodeHead (pList : Option ι) (pNode : Option α)
  | popNode (pList : Option ι)
  | deleteNode (pList : Option ι) (pNode : Option α)
  | getFirstNode (pList : Option ι)
  | getNextNode (pNode : Option α)

/-- One call: the memory after it and the pointer it returns; `none` is a null pointer
dereference. -/
def step (h : Heap ι α) : Op ι α → Option (Heap ι α × Option α)
  | .init pList => some (listInit h pList, none)
  | .pushNode pList pNode => some (listPushNode h pList pNode, none)
  | .pushNodeHead pList pNode => some (listPushNodeHead h pList pNode, none)
  | .popNode pList => some (listPopNode h pList)
  | .deleteNode pList pNode => (listDeleteNode h pList pNode).map fun h' => (h', none)
  | .getFirstNode pList => some (h, listGetFirstNode h pList)
  | .getNextNode pNode => some (h, listGetNextNode h pNode)

/-- The list a call is made on. -/
def Op.target : Op ι α → Option ι
  | .init pList | .pushNode pList _ | .pushNodeHead pList _ | .popNode pList
  | .deleteNode pList _ | .getFirstNode pList => pList
  | .getNextNode _ => none

/-- What a call does to the sequences. -/
def absStep (abs : Abs ι α) : Op ι α → Abs ι α
  | .init (some i) => Function.update abs i (some [])
  | .pushNode (some i) (some a) => Function.update abs i ((abs i).map (· ++ [a]))
  | .pushNodeHead (some i) (some a) => Function.update abs i ((abs i).map (a :: ·))
  | .popNode (some i) => Function.update abs i ((abs i).map List.tail)
  | .deleteNode (some i) (some a) => Function.update abs i ((abs i).map (List.erase · a))
  | _ => abs

/-- What a call returns: the first element, or the element after a linked node. The
functions without a result return a null pointer here. -/
def Returns (abs : Abs ι α) : Op ι α → Option α → Prop
  | .popNode (some i), out | .getFirstNode (some i), out =>
      ∀ xs, abs i = some xs → out = xs.head?
  | .getNextNode (some a), out =>
      ∀ i l r, abs i = some (l ++ a :: r) → out = r.head?
  | _, out => out = none

/-- A call the contract allows: its list is initialised, and a pushed node is in no list. -/
def Legal (abs : Abs ι α) : Op ι α → Prop
  | .pushNode (some i) pNode | .pushNodeHead (some i) pNode =>
      (∃ xs, abs i = some xs) ∧ ∀ a, pNode = some a → abs.Unlinked a
  | .popNode (some i) | .deleteNode (some i) _ | .getFirstNode (some i) =>
      ∃ xs, abs i = some xs
  | _ => True

/-- A run of calls; `none` when one of them dereferences a null pointer. -/
def run (h : Heap ι α) : List (Op ι α) → Option (Heap ι α)
  | [] => some h
  | op :: ops => (step h op).bind fun r => run r.1 ops

/-- The sequences after a run of calls. -/
def absRun (abs : Abs ι α) (ops : List (Op ι α)) : Abs ι α := ops.foldl absStep abs

/-- Every call of the run is allowed where it is made. -/
def LegalRun (abs : Abs ι α) : List (Op ι α) → Prop
  | [] => True
  | op :: ops => Legal abs op ∧ LegalRun (absStep abs op) ops

/-- One list changed from `xs` to `ys`, the nodes touched were in no other list. -/
theorem Repr.update {h h' : Heap ι α} {abs : Abs ι α} {i : ι} {ys touched : List α}
    (hr : Repr h abs) (hl : Linked h' i ys) (hf : Frame h h' i touched)
    (hys : ∀ a ∈ ys, ∀ j zs, j ≠ i → abs j = some zs → a ∉ zs)
    (ht : ∀ a ∈ touched, ∀ j zs, j ≠ i → abs j = some zs → a ∉ zs) :
    Repr h' (Function.update abs i (some ys)) := by
  refine ⟨fun j zs hj => ?_, fun j k zs ws hjk hj hk => ?_⟩
  · by_cases hji : j = i
    · subst hji
      simp only [Function.update_self, Option.some.injEq] at hj
      exact hj ▸ hl
    · rw [Function.update_of_ne hji] at hj
      exact (hr.linked j zs hj).congr (hf.list j hji)
        fun x hx => hf.node x fun hc => ht x hc j zs hji hj hx
  · by_cases hji : j = i
    · subst hji
      rw [Function.update_of_ne (Ne.symm hjk)] at hk
      simp only [Function.update_self, Option.some.injEq] at hj
      subst hj
      exact fun a ha hb => hys a ha k ws (Ne.symm hjk) hk hb
    · rw [Function.update_of_ne hji] at hj
      by_cases hki : k = i
      · subst hki
        simp only [Function.update_self, Option.some.injEq] at hk
        subst hk
        exact fun a ha hb => hys a hb j zs hji hj ha
      · rw [Function.update_of_ne hki] at hk
        exact hr.disjoint j k zs ws hjk hj hk

theorem Repr.not_mem_of_ne {h : Heap ι α} {abs : Abs ι α} {i j : ι} {xs zs : List α} {a : α}
    (hr : Repr h abs) (hi : abs i = some xs) (ha : a ∈ xs) (hji : j ≠ i)
    (hj : abs j = some zs) : a ∉ zs :=
  fun hz => hr.disjoint j i zs xs hji hj hi hz ha

/-- The lists other than the target keep their headers and their nodes. -/
def OthersKept (h h' : Heap ι α) (abs : Abs ι α) (target : Option ι) : Prop :=
  ∀ j, target ≠ some j → h'.list j = h.list j ∧
    ∀ zs, abs j = some zs → ∀ a ∈ zs, h'.node a = h.node a

theorem Frame.othersKept {h h' : Heap ι α} {abs : Abs ι α} {i : ι} {touched : List α}
    (hf : Frame h h' i touched)
    (ht : ∀ a ∈ touched, ∀ j zs, j ≠ i → abs j = some zs → a ∉ zs) :
    OthersKept h h' abs (some i) := by
  intro j hj
  have hji : j ≠ i := fun hc => hj (by rw [hc])
  exact ⟨hf.list j hji, fun zs hzs a ha => hf.node a fun hc => ht a hc j zs hji hzs ha⟩

theorem OthersKept.refl (h : Heap ι α) (abs : Abs ι α) (target : Option ι) :
    OthersKept h h abs target := fun _ _ => ⟨rfl, fun _ _ _ _ => rfl⟩

/-- Deleting the element at a known position of a sequence without repetitions. -/
theorem erase_middle {l r : List α} {a : α} (hnd : (l ++ a :: r).Nodup) :
    (l ++ a :: r).erase a = l ++ r := by
  have hal : a ∉ l := fun hc => (List.nodup_append.mp hnd).2.2 a hc a (by simp) rfl
  rw [List.erase_append_right _ hal]
  simp

theorem update_same {abs : Abs ι α} {i : ι} {xs : List α} (hi : abs i = some xs) :
    Function.update abs i (some xs) = abs := by
  rw [← hi, Function.update_eq_self]

/-- What one call establishes. -/
structure Refines (h : Heap ι α) (abs : Abs ι α) (op : Op ι α) (h' : Heap ι α)
    (out : Option α) : Prop where
  repr : Repr h' (absStep abs op)
  returns : Returns abs op out
  others : OthersKept h h' abs op.target
  errors : h'.errors = h.errors

/-- **One call refines its meaning on sequences.** -/
theorem step_refines {h : Heap ι α} {abs : Abs ι α} (hr : Repr h abs) (op : Op ι α)
    (hop : Legal abs op) : ∃ h' out, step h op = some (h', out) ∧ Refines h abs op h' out := by
  have skip : ∀ {out}, absStep abs op = abs → Returns abs op out →
      Refines h abs op h out := fun he hret =>
    ⟨by rw [he]; exact hr, hret, OthersKept.refl h abs _, rfl⟩
  -- a node pushed on the list `i`: `xs` becomes a list `ys` of the same nodes and `a`
  have push : ∀ {i a xs ys h'}, abs i = some xs → abs.Unlinked a → Linked h' i ys →
      Frame h h' i (a :: xs) → (∀ x ∈ ys, x ∈ a :: xs) →
      Repr h' (Function.update abs i (some ys)) ∧ OthersKept h h' abs (some i) := by
    intro i a xs ys h' hi ha hl hf hys
    have ht : ∀ x ∈ a :: xs, ∀ j zs, j ≠ i → abs j = some zs → x ∉ zs := by
      intro x hx j zs hji hj
      rcases List.mem_cons.mp hx with rfl | hx
      · exact ha j zs hj
      · exact hr.not_mem_of_ne hi hx hji hj
    exact ⟨hr.update hl hf (fun x hx => ht x (hys x hx)) ht, hf.othersKept ht⟩
  cases op with
  | init pList =>
      cases pList with
      | none => exact ⟨h, none, rfl, skip rfl rfl⟩
      | some i =>
          have hf : Frame h (listInit h (some i)) i [] :=
            ⟨fun j hj => by simp [listInit, setList_ne _ _ _ _ hj], fun _ _ => rfl, rfl⟩
          exact ⟨_, _, rfl, hr.update (listInit_linked h i) hf (by simp) (by simp), rfl,
            hf.othersKept (by simp), rfl⟩
  | pushNode pList pNode =>
      cases pList with
      | none => exact ⟨h, none, rfl, skip rfl rfl⟩
      | some i =>
          cases pNode with
          | none => exact ⟨h, none, rfl, skip rfl rfl⟩
          | some a =>
              obtain ⟨⟨xs, hi⟩, ha⟩ := hop
              obtain ⟨hl, hf⟩ := pushTail_linked (hr.linked i xs hi) (ha a rfl i xs hi)
              obtain ⟨hrep, hoth⟩ := push hi (ha a rfl) hl hf (by simp [or_comm])
              refine ⟨pushTail h i a, none, rfl, ?_, rfl, hoth, hf.errors⟩
              simpa [absStep, hi] using hrep
  | pushNodeHead pList pNode =>
      cases pList with
      | none => exact ⟨h, none, rfl, skip rfl rfl⟩
      | some i =>
          cases pNode with
          | none => exact ⟨h, none, rfl, skip rfl rfl⟩
          | some a =>
              obtain ⟨⟨xs, hi⟩, ha⟩ := hop
              obtain ⟨hl, hf⟩ := pushHead_linked (hr.linked i xs hi) (ha a rfl i xs hi)
              obtain ⟨hrep, hoth⟩ := push hi (ha a rfl) hl hf (by simp)
              refine ⟨pushHead h i a, none, rfl, ?_, rfl, hoth, hf.errors⟩
              simpa [absStep, hi] using hrep
  | popNode pList =>
      cases pList with
      | none => exact ⟨h, none, rfl, skip rfl rfl⟩
      | some i =>
          obtain ⟨xs, hi⟩ := hop
          have hl := hr.linked i xs hi
          cases xs with
          | nil =>
              refine ⟨h, none, by simp [step, listPopNode, popHead_nil hl], skip ?_ ?_⟩
              · simp [absStep, hi, update_same hi]
              · intro xs hxs
                rw [hi] at hxs
                simp_all
          | cons a xs =>
              have ht : ∀ x ∈ a :: xs, ∀ j zs, j ≠ i → abs j = some zs → x ∉ zs :=
                fun x hx j zs hji hj => hr.not_mem_of_ne hi hx hji hj
              obtain ⟨hl', hf, -⟩ := deleteNode_linked (l := []) hl
              refine ⟨(deleteNode h i a).1, some a,
                by simp only [step, listPopNode, popHead_linked hl], ?_, ?_,
                hf.othersKept ht, hf.errors⟩
              · simpa [absStep, hi] using hr.update hl' hf (fun x hx => ht x (by simp_all)) ht
              · intro xs hxs
                rw [hi] at hxs
                simp_all [← Option.some.inj hxs]
  | deleteNode pList pNode =>
      cases pList with
      | none => exact ⟨h, none, rfl, skip rfl rfl⟩
      | some i =>
          cases pNode with
          | none => exact ⟨h, none, rfl, skip rfl rfl⟩
          | some a =>
              obtain ⟨xs, hi⟩ := hop
              have hl := hr.linked i xs hi
              by_cases ha : a ∈ xs
              · have hstep : step h (.deleteNode (some i) (some a))
                    = some ((deleteNode h i a).1, none) := by
                  simp [step, listDeleteNode_mem hl ha]
                have hmem := ha
                obtain ⟨l, r, rfl⟩ := List.append_of_mem ha
                have ht : ∀ x ∈ l ++ a :: r, ∀ j zs, j ≠ i → abs j = some zs → x ∉ zs :=
                  fun x hx j zs hji hj => hr.not_mem_of_ne hi hx hji hj
                obtain ⟨hl', hf, -⟩ := deleteNode_linked hl
                refine ⟨_, _, hstep, ?_, rfl, hf.othersKept ht, hf.errors⟩
                have hrep := hr.update hl' hf (fun x hx => ht x (by simp_all; tauto)) ht
                simpa [absStep, hi, erase_middle hl.nodup] using hrep
              · refine ⟨h, none, by simp [step, listDeleteNode_not_mem hl ha], skip ?_ rfl⟩
                simp [absStep, hi, List.erase_of_not_mem ha, update_same hi]
  | getFirstNode pList =>
      cases pList with
      | none => exact ⟨h, none, rfl, skip rfl rfl⟩
      | some i =>
          refine ⟨h, (h.list i).next, rfl, skip rfl ?_⟩
          exact fun xs hxs => (hr.linked i xs hxs).next
  | getNextNode pNode =>
      cases pNode with
      | none => exact ⟨h, none, rfl, skip rfl rfl⟩
      | some a =>
          refine ⟨h, (h.node a).next, rfl, skip rfl ?_⟩
          exact fun i l r hi => (hr.linked i _ hi).next_of_mem

/-- **A run of calls refines its meaning on sequences**, by induction on the run. -/
theorem run_refines (ops : List (Op ι α)) {h : Heap ι α} {abs : Abs ι α} (hr : Repr h abs)
    (hops : LegalRun abs ops) :
    ∃ h', run h ops = some h' ∧ Repr h' (absRun abs ops) ∧ h'.errors = h.errors := by
  induction ops generalizing h abs with
  | nil => exact ⟨h, rfl, hr, rfl⟩
  | cons op ops ih =>
      obtain ⟨h1, out, hs, href⟩ := step_refines hr op hops.1
      obtain ⟨h', hrun, hr', he⟩ := ih href.repr hops.2
      exact ⟨h', by simp [run, hs, hrun], hr', he.trans href.errors⟩

/-- Before the first `ListInit` nothing is known of the memory. -/
theorem repr_uninitialised (h : Heap ι α) : Repr h fun _ => none :=
  ⟨fun _ _ hi => by simp at hi, fun _ _ _ _ _ hi => by simp at hi⟩

/-- What the pointers of a list say: the sequence from the head, its reverse from the tail,
and its length as the count. -/
structure Spells (h : Heap ι α) (i : ι) (xs : List α) : Prop where
  forward : ∀ fuel, xs.length ≤ fuel →
    follow (fun a => (h.node a).next) fuel (h.list i).next = xs
  backward : ∀ fuel, xs.length ≤ fuel →
    follow (fun a => (h.node a).prev) fuel (h.list i).prev = xs.reverse
  count : listCount h (some i) = xs.length

theorem Linked.spells {h : Heap ι α} {i : ι} {xs : List α} (hl : Linked h i xs) :
    Spells h i xs :=
  ⟨fun _ hf => by rw [hl.next]; exact follow_next hl.seg hf,
    fun _ hf => by rw [hl.prev]; exact follow_prev hl.seg hf, hl.count⟩

/-- **The intrusive list refines a sequence.** After any allowed run from any memory, every
initialised list spells its abstract sequence, and the next allowed call dereferences no
null pointer, returns what it returns on sequences, changes the sequences as it does there,
leaves the other lists as they are and takes no consistency-error branch. -/
theorem intrusive_list_refines_sequence (h0 : Heap ι α) (ops : List (Op ι α)) (op : Op ι α)
    (hops : LegalRun (fun _ => none) (ops ++ [op])) :
    ∃ h h' out, run h0 ops = some h ∧ step h op = some (h', out) ∧
      (∀ i xs, absRun (fun _ => none) ops i = some xs → Spells h i xs) ∧
      (∀ i xs, absRun (fun _ => none) (ops ++ [op]) i = some xs → Spells h' i xs) ∧
      Returns (absRun (fun _ => none) ops) op out ∧
      OthersKept h h' (absRun (fun _ => none) ops) op.target ∧
      h.errors = h0.errors ∧ h'.errors = h0.errors := by
  have split : ∀ (abs : Abs ι α) (l : List (Op ι α)), LegalRun abs (l ++ [op]) →
      LegalRun abs l ∧ Legal (absRun abs l) op := by
    intro abs l
    induction l generalizing abs with
    | nil => exact fun hl => ⟨trivial, hl.1⟩
    | cons o l ih => exact fun hl => ⟨⟨hl.1, (ih _ hl.2).1⟩, (ih _ hl.2).2⟩
  obtain ⟨hl, hop⟩ := split _ ops hops
  obtain ⟨h, hrun, hr, he⟩ := run_refines ops (repr_uninitialised h0) hl
  obtain ⟨h', out, hs, href⟩ := step_refines hr op hop
  have happ : absRun (fun _ => none) (ops ++ [op])
      = absStep (absRun (fun _ => none) ops) op := by simp [absRun]
  refine ⟨h, h', out, hrun, hs, fun i xs hi => (hr.linked i xs hi).spells, fun i xs hi => ?_,
    href.returns, href.others, he, href.errors.trans he⟩
  rw [happ] at hi
  exact (href.repr.linked i xs hi).spells

/-- Two lists in a zeroed memory: pushes at both ends, a deletion in the middle, then a
pop; the popped node is the one pushed in front. -/
theorem intrusive_list_two_lists :
    ∃ h h' out, run (ι := Bool) (α := Nat) ⟨fun _ => ⟨none, none, 0⟩, fun _ => ⟨none, none⟩, 0⟩
        [.init (some false), .init (some true), .pushNode (some false) (some 1),
          .pushNode (some true) (some 7), .pushNode (some false) (some 2),
          .pushNodeHead (some false) (some 3), .deleteNode (some false) (some 1)] = some h ∧
      step h (.popNode (some false)) = some (h', out) ∧ out = some 3 := by
  obtain ⟨h, h', out, hrun, hs, -, -, hret, -⟩ := intrusive_list_refines_sequence
    (ι := Bool) (α := Nat) ⟨fun _ => ⟨none, none, 0⟩, fun _ => ⟨none, none⟩, 0⟩
    [.init (some false), .init (some true), .pushNode (some false) (some 1),
      .pushNode (some true) (some 7), .pushNode (some false) (some 2),
      .pushNodeHead (some false) (some 3), .deleteNode (some false) (some 1)]
    (.popNode (some false))
    (by simp [LegalRun, Legal, absStep, Abs.Unlinked, Function.update_apply])
  refine ⟨h, h', out, hrun, hs, hret [3, 2] ?_⟩
  simp [absRun, absStep]

/-! ## Pushing and popping, for the users of the lists -/

theorem Repr.pushNode {h : Heap ι α} {abs : Abs ι α} {i : ι} {xs : List α} {a : α}
    (hr : Repr h abs) (hi : abs i = some xs) (ha : abs.Unlinked a) :
    Repr (listPushNode h (some i) (some a)) (Function.update abs i (some (xs ++ [a])))
      ∧ (listPushNode h (some i) (some a)).errors = h.errors := by
  obtain ⟨h', out, hs, href⟩ := step_refines hr (.pushNode (some i) (some a))
    ⟨⟨xs, hi⟩, fun b hb => Option.some.inj hb ▸ ha⟩
  obtain ⟨rfl, rfl⟩ := Prod.mk.inj (Option.some.inj hs)
  exact ⟨by simpa [absStep, hi] using href.repr, href.errors⟩

theorem Repr.pushNodeHead {h : Heap ι α} {abs : Abs ι α} {i : ι} {xs : List α} {a : α}
    (hr : Repr h abs) (hi : abs i = some xs) (ha : abs.Unlinked a) :
    Repr (listPushNodeHead h (some i) (some a)) (Function.update abs i (some (a :: xs)))
      ∧ (listPushNodeHead h (some i) (some a)).errors = h.errors := by
  obtain ⟨h', out, hs, href⟩ := step_refines hr (.pushNodeHead (some i) (some a))
    ⟨⟨xs, hi⟩, fun b hb => Option.some.inj hb ▸ ha⟩
  obtain ⟨rfl, rfl⟩ := Prod.mk.inj (Option.some.inj hs)
  exact ⟨by simpa [absStep, hi] using href.repr, href.errors⟩

theorem Repr.popNode_cons {h : Heap ι α} {abs : Abs ι α} {i : ι} {xs : List α} {a : α}
    (hr : Repr h abs) (hi : abs i = some (a :: xs)) :
    (listPopNode h (some i)).2 = some a
      ∧ Repr (listPopNode h (some i)).1 (Function.update abs i (some xs))
      ∧ (listPopNode h (some i)).1.errors = h.errors := by
  obtain ⟨h', out, hs, href⟩ := step_refines hr (.popNode (some i)) ⟨_, hi⟩
  have he : listPopNode h (some i) = (h', out) := Option.some.inj hs
  rw [he]
  exact ⟨href.returns _ hi, by simpa [absStep, hi] using href.repr, href.errors⟩

theorem Repr.popNode_nil {h : Heap ι α} {abs : Abs ι α} {i : ι}
    (hr : Repr h abs) (hi : abs i = some []) : listPopNode h (some i) = (h, none) :=
  popHead_nil (hr.linked i [] hi)

end LteUlp.Intrusive
