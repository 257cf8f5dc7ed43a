import LteUlp.Logger.Queue
import LteUlp.Logger.Record
import LteUlp.List.Refinement

set_option autoImplicit false

/-! # The nodes of asynchronous log type 2

At every moment each node is in one place: in one of the two queues, or with the thread that
has taken it. A step moves at most one node, so it is enough to know from which place to
which. The records are copied in the order in which they were put into the busy queue: what
has been pushed is what has been copied, then the record that the logger task has taken,
then those in the queue.
-/

namespace LteUlp.Logger

open Intrusive LogQueue QueueLogger

/-! ## Things in places -/

section Places

variable {π α : Type} {C C' : π → List α} {a : α} {p q r : π}

/-- Every element is in exactly one of the places. -/
def Partitioned (C : π → List α) : Prop := ∃ place : α → π, ∀ p a, a ∈ C p ↔ place a = p

theorem Partitioned.existsUnique (h : Partitioned C) (a : α) : ∃! p, a ∈ C p := by
  obtain ⟨place, hp⟩ := h
  exact ⟨place a, (hp _ a).mpr rfl, fun q hq => ((hp q a).mp hq).symm⟩

theorem Partitioned.eq (h : Partitioned C) (hp : a ∈ C p) (hq : a ∈ C q) : p = q := by
  obtain ⟨place, hplace⟩ := h
  rw [← (hplace p a).mp hp, ← (hplace q a).mp hq]

/-- One element is moved from the place `q` to the place `r`. -/
theorem Partitioned.move [DecidableEq α] (h : Partitioned C)
    (hq : ∀ b, b ∈ C q ↔ b = a ∨ b ∈ C' q) (hnot : a ∉ C' q)
    (hr : ∀ b, b ∈ C' r ↔ b = a ∨ b ∈ C r) (hother : ∀ p, p ≠ q → p ≠ r → C' p = C p)
    (hqr : q ≠ r) : Partitioned C' := by
  obtain ⟨place, hp⟩ := h
  have ha : place a = q := (hp q a).mp ((hq a).mpr (Or.inl rfl))
  refine ⟨Function.update place a r, fun p b => ?_⟩
  by_cases hb : b = a
  · -- the element that is moved
    subst hb
    rw [Function.update_self]
    by_cases hpr : p = r
    · subst hpr
      exact iff_of_true ((hr b).mpr (Or.inl rfl)) rfl
    refine iff_of_false (fun hmem => ?_) (Ne.symm hpr)
    by_cases hpq : p = q
    · subst hpq
      exact hnot hmem
    · rw [hother p hpq hpr, hp, ha] at hmem
      exact hpq hmem.symm
  · rw [Function.update_of_ne hb]
    by_cases hpq : p = q
    · subst hpq
      rw [← hp, hq, or_iff_right hb]
    by_cases hpr : p = r
    · subst hpr
      rw [hr, or_iff_right hb, hp]
    · rw [hother p hpq hpr, hp]

end Places

/-! ## Where the nodes are -/

/-- A thread that logs, or the logger task. -/
inductive Thread (θ : Type) where
  | writer (t : θ)
  | task

/-- A queue, or the hands of a thread. -/
inductive Place (θ : Type) where
  | queue (q : LogQueue)
  | hand (x : Thread θ)

/-- The node that a writer has taken. -/
def Writer.nodes : Writer → List LogNode
  | .idle => []
  | .popped a _ | .filled a => [a]

/-- The node that the logger task has taken. -/
def Task.nodes : Task → List LogNode
  | .waiting | .entered | .looping .. => []
  | .popped a .. | .copied a .. => [a]

variable {θ : Type}

/-- The node that a thread has taken. -/
def QueueLogger.hand (s : QueueLogger θ) : Thread θ → List LogNode
  | .writer t => (s.writer t).nodes
  | .task => s.task.nodes

/-- The nodes in a place, when the queues hold `lists`. -/
def QueueLogger.contents (s : QueueLogger θ) (lists : LogQueue → List LogNode) :
    Place θ → List LogNode
  | .queue q => lists q
  | .hand x => s.hand x

/-! ## Runs -/

/-- A step of one of the threads. -/
inductive Act (θ : Type) where
  | call (t : θ) (x : LogCall)
  | fill (t : θ)
  | push (t : θ)
  | task (timestamp : CString)

section Steps

variable [DecidableEq θ] (config : LoggerConfig) (sprintf : Sprintf) (s : QueueLogger θ)

/-- The step. -/
def Act.run : Act θ → QueueLogger θ
  | .call t x => s.writerCall config t x
  | .fill t => s.writerFill config t
  | .push t => s.writerPush t
  | .task timestamp => s.taskStep config sprintf timestamp

/-- The record that the step puts into the busy queue. -/
def Act.pushed : Act θ → List (LogNode × LogInfo)
  | .push t =>
      match s.writer t with
      | .filled a => [(a, s.gLogInfoNodeArray a)]
      | _ => []
  | _ => []

/-- The record that the step copies to `logBuff`, with the time stamp that it gets. -/
def Act.copied : Act θ → List (LogNode × LogInfo × CString)
  | .task _ =>
      match s.task with
      | .popped a _ timestamp c =>
          match c.copyInfo config sprintf timestamp (s.gLogInfoNodeArray a) with
          | some _ => [(a, s.gLogInfoNodeArray a, timestamp)]
          | none => []
      | _ => []
  | _ => []

end Steps

/-- The text of a record in the output. -/
def LogInfo.text (config : LoggerConfig) (sprintf : Sprintf) (timestamp : CString)
    (node : LogInfo) : List UInt8 :=
  match node.contentType with
  | .logMsgType =>
      let info := node.logMsgInfo
      bracketed timestamp.1
        ++ headerText config info.logLevel info.moduleId info.threadId info.fileName info.funcName
        ++ if info.logContentFlag then info.logContent.1 else (sprintf info.fmt info.args).1
  | .logMemType => node.logMem.take (strlen node.logMem)

/-- The text of a message that is copied fits into what is left of `logBuff`. -/
def Act.Fits (config : LoggerConfig) (sprintf : Sprintf) (s : QueueLogger θ) :
    Act θ → Prop
  | .task _ =>
      match s.task with
      | .popped a _ timestamp c =>
          (s.gLogInfoNodeArray a).contentType = .logMsgType →
            c.offset + ((s.gLogInfoNodeArray a).text config sprintf timestamp).length
              < remainLogBuff
      | _ => True
  | _ => True

/-- What has happened in a run: the records pushed to the busy queue, those copied to
`logBuff`, and whether each message had the space it needs. -/
structure History where
  pushed : List (LogNode × LogInfo)
  copied : List (LogNode × LogInfo × CString)
  fits : Prop

/-- The states that the steps lead to from the initialised logger. -/
inductive QueueReached [DecidableEq θ] (config : LoggerConfig) (sprintf : Sprintf) :
    QueueLogger θ → History → Prop
  | init : QueueReached config sprintf (initQueueLogger θ) ⟨[], [], True⟩
  | step {s : QueueLogger θ} {h : History} (x : Act θ) (hr : QueueReached config sprintf s h) :
      QueueReached config sprintf (x.run config sprintf s)
        ⟨h.pushed ++ x.pushed s, h.copied ++ x.copied config sprintf s,
          h.fits ∧ x.Fits config sprintf s⟩

/-! ## The invariant -/

/-- The abstract queues. -/
def absOf (lists : LogQueue → List LogNode) : Abs LogQueue LogNode := fun q => some (lists q)

theorem update_absOf (lists : LogQueue → List LogNode) (q : LogQueue) (xs : List LogNode) :
    Function.update (absOf lists) q (some xs) = absOf (Function.update lists q xs) := by
  funext q'
  unfold absOf
  by_cases hq : q' = q
  · rw [hq, Function.update_self, Function.update_self]
  · rw [Function.update_of_ne hq, Function.update_of_ne hq]

/-- The record of the node that the task has taken and not copied yet. -/
def Task.pending : Task → List LogNode
  | .popped a .. => [a]
  | _ => []

/-- The queues hold `lists`, and every node is in one place. -/
structure Placed (s : QueueLogger θ) (lists : LogQueue → List LogNode) : Prop where
  repr : Repr s.queues (absOf lists)
  errors : s.queues.errors = 0
  places : Partitioned (s.contents lists)

/-- The nodes with their records. -/
def QueueLogger.records (s : QueueLogger θ) (xs : List LogNode) : List (LogNode × LogInfo) :=
  xs.map fun a => (a, s.gLogInfoNodeArray a)

/-- What has been pushed is what has been copied, what the task has taken, and the queue. -/
def InOrder (s : QueueLogger θ) (lists : LogQueue → List LogNode)
    (pushed : List (LogNode × LogInfo)) (copied : List (LogNode × LogInfo × CString)) : Prop :=
  pushed = copied.map (fun x => (x.1, x.2.1))
    ++ s.records (s.task.pending ++ lists gBusyLogInfoQueue)

/-! ## The queue operations -/

section Operations

variable {s t : QueueLogger θ} {lists : LogQueue → List LogNode} {h : History} {a : LogNode}
  {q : LogQueue} {x : Thread θ}

theorem Placed.linked (hp : Placed s lists) (q : LogQueue) : Linked s.queues q (lists q) :=
  hp.repr.linked q (lists q) rfl

/-- A node that a thread has taken is in no queue. -/
theorem Placed.unlinked (hp : Placed s lists) (ha : s.hand x = [a]) :
    (absOf lists).Unlinked a := by
  intro q xs hq hmem
  obtain rfl : lists q = xs := Option.some.inj hq
  have hx : a ∈ s.contents lists (.hand x) := by
    show a ∈ s.hand x
    rw [ha]
    exact List.mem_singleton_self a
  have hq' : a ∈ s.contents lists (.queue q) := hmem
  exact nomatch hp.places.eq hx hq'

/-- Thread `x` takes the first node of a queue. -/
theorem Placed.pop {xs : List LogNode} (hp : Placed s lists) (hq : lists q = a :: xs)
    (hempty : s.hand x = []) (hqueues : t.queues = (s.queuePopNode q).1.queues)
    (hhand : t.hand x = [a]) (hothers : ∀ y, y ≠ x → t.hand y = s.hand y) :
    Placed t (Function.update lists q xs) := by
  have habs : absOf lists q = some (a :: xs) := congrArg some hq
  obtain ⟨-, hrepr, herr⟩ := hp.repr.popNode_cons habs
  rw [update_absOf] at hrepr
  have hnodup : (a :: xs).Nodup := hq ▸ (hp.linked q).nodup
  refine ⟨by rw [hqueues]; exact hrepr, by rw [hqueues]; exact herr.trans hp.errors, ?_⟩
  refine hp.places.move (a := a) (q := .queue q) (r := .hand x) (fun b => ?_) ?_ (fun b => ?_)
    (fun p hpq hpx => ?_) nofun
  · show b ∈ lists q ↔ b = a ∨ b ∈ Function.update lists q xs q
    rw [hq, Function.update_self, List.mem_cons]
  · show a ∉ Function.update lists q xs q
    rw [Function.update_self]
    exact (List.nodup_cons.mp hnodup).1
  · show b ∈ t.hand x ↔ b = a ∨ b ∈ s.hand x
    rw [hhand, hempty, List.mem_singleton, or_iff_left List.not_mem_nil]
  · cases p with
    | queue q' => exact Function.update_of_ne (fun he => hpq (by rw [he])) _ _
    | hand y => exact hothers y fun he => hpx (by rw [he])

/-- Thread `x` gives its node to a queue, which holds `ys` then. -/
theorem Placed.give {ys : List LogNode} (hp : Placed s lists) (ha : s.hand x = [a])
    (hys : ∀ b, b ∈ ys ↔ b = a ∨ b ∈ lists q)
    (hrepr : Repr t.queues (Function.update (absOf lists) q (some ys)))
    (herr : t.queues.errors = s.queues.errors) (hempty : t.hand x = [])
    (hothers : ∀ y, y ≠ x → t.hand y = s.hand y) : Placed t (Function.update lists q ys) := by
  rw [update_absOf] at hrepr
  refine ⟨hrepr, herr.trans hp.errors, ?_⟩
  refine hp.places.move (a := a) (q := .hand x) (r := .queue q) (fun b => ?_) ?_ (fun b => ?_)
    (fun p hpx hpq => ?_) nofun
  · show b ∈ s.hand x ↔ b = a ∨ b ∈ t.hand x
    rw [ha, hempty, List.mem_singleton, or_iff_left List.not_mem_nil]
  · show a ∉ t.hand x
    rw [hempty]
    exact List.not_mem_nil
  · show b ∈ Function.update lists q ys q ↔ b = a ∨ b ∈ lists q
    rw [Function.update_self]
    exact hys b
  · cases p with
    | queue q' => exact Function.update_of_ne (fun he => hpq (by rw [he])) _ _
    | hand y => exact hothers y fun he => hpx (by rw [he])

/-- Thread `x` puts its node at the end of a queue. -/
theorem Placed.push (hp : Placed s lists) (ha : s.hand x = [a])
    (hqueues : t.queues = (s.queuePushNode q a).queues) (hempty : t.hand x = [])
    (hothers : ∀ y, y ≠ x → t.hand y = s.hand y) :
    Placed t (Function.update lists q (lists q ++ [a])) := by
  have hq : absOf lists q = some (lists q) := rfl
  obtain ⟨hrepr, herr⟩ := hp.repr.pushNode hq (hp.unlinked ha)
  refine hp.give ha (fun b => ?_) (hqueues ▸ hrepr) (hqueues ▸ herr) hempty hothers
  rw [List.mem_append, List.mem_singleton, or_comm]

/-- Thread `x` puts its node back to the head of a queue. -/
theorem Placed.pushHead (hp : Placed s lists) (ha : s.hand x = [a])
    (hqueues : t.queues = (s.queuePushNodeHead q a).queues) (hempty : t.hand x = [])
    (hothers : ∀ y, y ≠ x → t.hand y = s.hand y) :
    Placed t (Function.update lists q (a :: lists q)) := by
  have hq : absOf lists q = some (lists q) := rfl
  obtain ⟨hrepr, herr⟩ := hp.repr.pushNodeHead hq (hp.unlinked ha)
  exact hp.give ha (fun b => List.mem_cons) (hqueues ▸ hrepr) (hqueues ▸ herr) hempty hothers

/-- A step that takes no node and gives none. -/
theorem Placed.stay (hp : Placed s lists) (hqueues : t.queues = s.queues)
    (hhand : ∀ y, t.hand y = s.hand y) : Placed t lists := by
  have hcontents : t.contents lists = s.contents lists := by
    funext p
    cases p with
    | queue q => rfl
    | hand y => exact hhand y
  exact ⟨hqueues ▸ hp.repr, hqueues ▸ hp.errors, hcontents ▸ hp.places⟩

/-- What a pop returns. -/
theorem Placed.popped (hp : Placed s lists) (q : LogQueue) :
    (lists q = [] ∧ s.queuePopNode q = (s, none)) ∨
      ∃ a xs, lists q = a :: xs ∧ s.queuePopNode q = ((s.queuePopNode q).1, some a) := by
  rcases hxs : lists q with _ | ⟨a, xs⟩
  · refine Or.inl ⟨rfl, ?_⟩
    have hpop := hp.repr.popNode_nil (i := q) (by unfold absOf; rw [hxs])
    unfold queuePopNode
    rw [hpop]
  · refine Or.inr ⟨a, xs, rfl, ?_⟩
    have hpop := (hp.repr.popNode_cons (i := q) (by unfold absOf; rw [hxs])).1
    exact Prod.ext rfl hpop

end Operations

/-! ## The steps -/

section Threads

variable {s t : QueueLogger θ} {lists lists' : LogQueue → List LogNode} {a : LogNode}
  {pushed : List (LogNode × LogInfo)} {copied : List (LogNode × LogInfo × CString)}

/-- A step that neither pushes to the busy queue nor copies a record. -/
theorem InOrder.stay (ho : InOrder s lists pushed copied)
    (hlists : t.task.pending ++ lists' gBusyLogInfoQueue
      = s.task.pending ++ lists gBusyLogInfoQueue)
    (hnodes : ∀ b ∈ s.task.pending ++ lists gBusyLogInfoQueue,
      t.gLogInfoNodeArray b = s.gLogInfoNodeArray b) :
    InOrder t lists' (pushed ++ []) (copied ++ []) := by
  unfold InOrder QueueLogger.records at ho ⊢
  rw [List.append_nil, List.append_nil, ho, hlists]
  congr 1
  refine List.map_congr_left fun b hb => ?_
  rw [hnodes b hb]

/-- A step of the task leaves the hands of the writers alone. -/
theorem hand_of_ne_task (hwriter : t.writer = s.writer) (y : Thread θ) (hy : y ≠ .task) :
    t.hand y = s.hand y := by
  cases y with
  | task => exact absurd rfl hy
  | writer i =>
      show (t.writer i).nodes = (s.writer i).nodes
      rw [hwriter]

theorem hand_congr (hwriter : t.writer = s.writer) (hnodes : t.task.nodes = s.task.nodes)
    (y : Thread θ) : t.hand y = s.hand y := by
  cases y with
  | task => exact hnodes
  | writer i => exact hand_of_ne_task hwriter (.writer i) nofun

theorem pending_subset (x : Task) : ∀ b ∈ x.pending, b ∈ x.nodes := by
  intro b hb
  cases x with
  | popped a count timestamp c => exact hb
  | _ => exact absurd hb List.not_mem_nil

/-- The task goes on with the node that it has, and it copies nothing. -/
theorem task_stay (hp : Placed s lists) (ho : InOrder s lists pushed copied)
    (hqueues : t.queues = s.queues) (hwriter : t.writer = s.writer)
    (harray : t.gLogInfoNodeArray = s.gLogInfoNodeArray)
    (hnodes : t.task.nodes = s.task.nodes) (hpending : t.task.pending = s.task.pending) :
    ∃ lists', Placed t lists' ∧ InOrder t lists' (pushed ++ []) (copied ++ []) := by
  exact ⟨lists, hp.stay hqueues (hand_congr hwriter hnodes),
    ho.stay (by rw [hpending]) fun b _ => by rw [harray]⟩

variable {config : LoggerConfig} {sprintf : Sprintf}

theorem taskStep_kept (hp : Placed s lists) (ho : InOrder s lists pushed copied)
    (timestamp : CString) : ∃ lists', Placed (s.taskStep config sprintf timestamp) lists' ∧
      InOrder (s.taskStep config sprintf timestamp) lists' (pushed ++ [])
        (copied ++ (Act.task timestamp).copied config sprintf s) := by
  unfold taskStep
  simp only [Act.copied]
  cases htask : s.task with
  | waiting =>
      dsimp only
      split
      · exact task_stay hp ho rfl rfl rfl (by rw [htask]) (by rw [htask])
      · exact task_stay hp ho rfl rfl rfl (by rw [htask]; rfl) (by rw [htask]; rfl)
  | entered => exact task_stay hp ho rfl rfl rfl (by rw [htask]; rfl) (by rw [htask]; rfl)
  | looping count ts c =>
      have hflush := task_stay (t := s.flush c) hp ho rfl rfl rfl (by rw [htask]; rfl)
        (by rw [htask]; rfl)
      dsimp only
      split
      · rcases hp.popped gBusyLogInfoQueue with ⟨-, hpop⟩ | ⟨a, xs, hxs, hpop⟩
        · rw [hpop]
          exact hflush
        · rw [hpop]
          refine ⟨_, hp.pop (x := .task) hxs ?_ rfl rfl (hand_of_ne_task rfl),
            ho.stay ?_ fun _ _ => rfl⟩
          · show s.task.nodes = []
            rw [htask]
            rfl
          · rw [Function.update_self, htask, hxs]
            rfl
      · exact hflush
  | popped a count ts c =>
      have ha : s.hand .task = [a] := by
        show s.task.nodes = [a]
        rw [htask]
        rfl
      dsimp only
      cases hcopy : c.copyInfo config sprintf ts (s.gLogInfoNodeArray a) with
      | none =>
          -- the dump does not fit, and the node goes back to the head of the queue
          refine ⟨_, hp.pushHead (x := .task) ha rfl rfl (hand_of_ne_task rfl),
            ho.stay ?_ fun _ _ => rfl⟩
          rw [Function.update_self, htask]
          rfl
      | some c' =>
          refine ⟨lists, hp.stay rfl (hand_congr rfl ha.symm), ?_⟩
          · have horder : pushed = (copied ++ [(a, s.gLogInfoNodeArray a, ts)]).map
                (fun x => (x.1, x.2.1)) ++ s.records (lists gBusyLogInfoQueue) := by
              unfold InOrder QueueLogger.records at *
              rw [ho, htask]
              simp only [List.map_append, List.append_assoc]
              rfl
            unfold InOrder
            rw [List.append_nil]
            exact horder
  | copied a count ts c =>
      have ha : s.hand .task = [a] := by
        show s.task.nodes = [a]
        rw [htask]
        rfl
      -- whatever the task does next, it has given the node back
      have hgive : ∀ t : QueueLogger θ, t.queues = (s.queuePushNode gIdleLogInfoQueue a).queues →
          t.writer = s.writer → t.gLogInfoNodeArray = s.gLogInfoNodeArray → t.task.nodes = [] →
          t.task.pending = [] → ∃ lists', Placed t lists' ∧
            InOrder t lists' (pushed ++ []) (copied ++ []) := by
        intro t hqueues hwriter harray hnodes hpending
        refine ⟨_, hp.push (x := .task) ha hqueues hnodes (hand_of_ne_task hwriter),
          ho.stay ?_ fun b _ => by rw [harray]⟩
        rw [Function.update_of_ne (by decide), htask, hpending]
        rfl
      dsimp only
      split
      · exact hgive _ rfl rfl rfl rfl rfl
      · exact hgive _ rfl rfl rfl rfl rfl

variable [DecidableEq θ]

theorem hand_setWriter (s : QueueLogger θ) (i : θ) (w : Writer) :
    (s.setWriter i w).hand (.writer i) = w.nodes := by
  show (Function.update s.writer i w i).nodes = _
  rw [Function.update_self]

theorem hand_setWriter_ne (s : QueueLogger θ) (i : θ) (w : Writer) {x : Thread θ}
    (hx : x ≠ .writer i) : (s.setWriter i w).hand x = s.hand x := by
  cases x with
  | task => rfl
  | writer j =>
      have hj : j ≠ i := fun he => hx (by rw [he])
      show (Function.update s.writer i w j).nodes = _
      rw [Function.update_of_ne hj]
      rfl

theorem writerCall_kept (hp : Placed s lists) (ho : InOrder s lists pushed copied) (i : θ)
    (x : LogCall) : ∃ lists', Placed (s.writerCall config i x) lists' ∧
      InOrder (s.writerCall config i x) lists' (pushed ++ []) (copied ++ []) := by
  have hstay : ∃ lists', Placed s lists' ∧ InOrder s lists' (pushed ++ []) (copied ++ []) :=
    ⟨lists, hp, ho.stay rfl fun _ _ => rfl⟩
  unfold writerCall
  cases hw : s.writer i with
  | popped a x => exact hstay
  | filled a => exact hstay
  | idle =>
      by_cases hlog : x.logs config = true
      · rw [if_pos hlog]
        rcases hp.popped gIdleLogInfoQueue with ⟨-, hpop⟩ | ⟨a, xs, hxs, hpop⟩
        · rw [hpop]
          exact hstay
        · rw [hpop]
          refine ⟨_, hp.pop (x := .writer i) hxs ?_ rfl (hand_setWriter _ i (.popped a x))
            fun y hy => (hand_setWriter_ne _ i (.popped a x) hy).trans ?_, ?_⟩
          · show (s.writer i).nodes = []
            rw [hw]
            rfl
          · cases y <;> rfl
          · refine ho.stay ?_ fun _ _ => rfl
            rw [Function.update_of_ne (by decide)]
            rfl
      · rw [if_neg hlog]
        exact hstay

theorem writerFill_kept (hp : Placed s lists) (ho : InOrder s lists pushed copied) (i : θ) :
    ∃ lists', Placed (s.writerFill config i) lists' ∧
      InOrder (s.writerFill config i) lists' (pushed ++ []) (copied ++ []) := by
  have hstay : ∃ lists', Placed s lists' ∧ InOrder s lists' (pushed ++ []) (copied ++ []) :=
    ⟨lists, hp, ho.stay rfl fun _ _ => rfl⟩
  unfold writerFill
  cases hw : s.writer i with
  | idle => exact hstay
  | filled a => exact hstay
  | popped a x =>
      have ha : s.hand (.writer i) = [a] := by
        show (s.writer i).nodes = [a]
        rw [hw]
        rfl
      refine ⟨lists, hp.stay rfl fun y => ?_, ho.stay rfl fun b hb => ?_⟩
      · by_cases hy : y = .writer i
        · rw [hy, ha]
          exact hand_setWriter s i (.filled a)
        · exact hand_setWriter_ne s i (.filled a) hy
      · -- the node that is filled is with the writer
        apply Function.update_of_ne
        rintro rfl
        have hmem : b ∈ s.contents lists (.hand (.writer i)) := by
          show b ∈ s.hand (.writer i)
          rw [ha]
          exact List.mem_singleton_self b
        rcases List.mem_append.mp hb with hb | hb
        · have hb' : b ∈ s.contents lists (.hand .task) := pending_subset s.task b hb
          exact nomatch hp.places.eq hmem hb'
        · have hb' : b ∈ s.contents lists (.queue gBusyLogInfoQueue) := hb
          exact nomatch hp.places.eq hmem hb'

theorem writerPush_kept (hp : Placed s lists) (ho : InOrder s lists pushed copied) (i : θ) :
    ∃ lists', Placed (s.writerPush i) lists' ∧
      InOrder (s.writerPush i) lists' (pushed ++ (Act.push i).pushed s) (copied ++ []) := by
  have hstay : ∃ lists', Placed s lists' ∧ InOrder s lists' (pushed ++ []) (copied ++ []) :=
    ⟨lists, hp, ho.stay rfl fun _ _ => rfl⟩
  unfold writerPush
  simp only [Act.pushed]
  cases hw : s.writer i with
  | idle => exact hstay
  | popped a x => exact hstay
  | filled a =>
      refine ⟨_, hp.push (x := .writer i) ?_ rfl (hand_setWriter _ i .idle)
        fun y hy => (hand_setWriter_ne _ i .idle hy).trans ?_, ?_⟩
      · show (s.writer i).nodes = [a]
        rw [hw]
        rfl
      · cases y <;> rfl
      · have horder : pushed ++ [(a, s.gLogInfoNodeArray a)]
            = copied.map (fun x => (x.1, x.2.1))
              ++ s.records (s.task.pending ++ (lists gBusyLogInfoQueue ++ [a])) := by
          unfold InOrder QueueLogger.records at *
          rw [ho]
          simp only [List.map_append, List.append_assoc]
          rfl
        unfold InOrder
        rw [Function.update_self, List.append_nil]
        exact horder

/-! ## The steps of the logger task -/

/-- **One step** keeps the nodes in their places and the records in order. -/
theorem run_kept (hp : Placed s lists) (ho : InOrder s lists pushed copied) (x : Act θ) :
    ∃ lists', Placed (x.run config sprintf s) lists' ∧
      InOrder (x.run config sprintf s) lists' (pushed ++ x.pushed s)
        (copied ++ x.copied config sprintf s) := by
  cases x with
  | call i x => exact writerCall_kept hp ho i x
  | fill i => exact writerFill_kept hp ho i
  | push i => exact writerPush_kept hp ho i
  | task timestamp => exact taskStep_kept hp ho timestamp

/-- What a call leaves alone. -/
theorem writerCall_keeps (s : QueueLogger θ) (i : θ) (x : LogCall) :
    (s.writerCall config i x).gLogInfoNodeArray = s.gLogInfoNodeArray ∧
      (s.writerCall config i x).task = s.task ∧
      (s.writerCall config i x).toLogOutput = s.toLogOutput := by
  unfold writerCall queuePopNode
  dsimp only
  split
  · split
    · split
      · rename_i heq
        rw [← (Prod.mk.inj heq).1]
        exact ⟨rfl, rfl, rfl⟩
      · rename_i heq
        rw [← (Prod.mk.inj heq).1]
        exact ⟨rfl, rfl, rfl⟩
    · exact ⟨rfl, rfl, rfl⟩
  · exact ⟨rfl, rfl, rfl⟩

/-- The steps of the task and of a writer other than `fillNode` modify no node. -/
theorem run_array (x : Act θ) (hx : ∀ i, x ≠ .fill i) :
    (x.run config sprintf s).gLogInfoNodeArray = s.gLogInfoNodeArray := by
  cases x with
  | call i x => exact (writerCall_keeps s i x).1
  | fill i => exact absurd rfl (hx i)
  | push i =>
      show (writerPush s i).gLogInfoNodeArray = _
      unfold writerPush
      split <;> rfl
  | task timestamp =>
      show (taskStep config sprintf s timestamp).gLogInfoNodeArray = _
      unfold taskStep queuePopNode
      dsimp only
      split
      · split <;> rfl
      · rfl
      · split
        · split
          · rename_i heq
            rw [← (Prod.mk.inj heq).1]
            rfl
          · rename_i heq
            rw [← (Prod.mk.inj heq).1]
        · rfl
      · split <;> rfl
      · split <;> rfl

/-- **Only a node that a writer has taken is modified.** -/
theorem modified_not_queued (hp : Placed s lists) (x : Act θ) (a : LogNode)
    (hne : (x.run config sprintf s).gLogInfoNodeArray a ≠ s.gLogInfoNodeArray a)
    (q : LogQueue) : a ∉ lists q := by
  intro hmem
  cases x with
  | fill i =>
      apply hne
      show (writerFill config s i).gLogInfoNodeArray a = _
      unfold writerFill
      cases hw : s.writer i with
      | idle => rfl
      | filled b => rfl
      | popped b x =>
          apply Function.update_of_ne
          rintro rfl
          have hhand : a ∈ s.contents lists (.hand (.writer i)) := by
            show a ∈ (s.writer i).nodes
            rw [hw]
            exact List.mem_singleton_self a
          have hqueue : a ∈ s.contents lists (.queue q) := hmem
          exact nomatch hp.places.eq hhand hqueue
  | call i x => exact hne (by rw [run_array (.call i x) nofun])
  | push i => exact hne (by rw [run_array (.push i) nofun])
  | task timestamp => exact hne (by rw [run_array (.task timestamp) nofun])

end Threads

/-! ## The initialised queues -/

theorem pushAll_repr (xs : List LogNode) {h : Heap LogQueue LogNode}
    {lists : LogQueue → List LogNode} (hr : Repr h (absOf lists))
    (hnodup : (lists gIdleLogInfoQueue ++ xs).Nodup) (hbusy : lists gBusyLogInfoQueue = []) :
    Repr (xs.foldl (fun h a => listPushNode h (some gIdleLogInfoQueue) (some a)) h)
        (absOf (Function.update lists gIdleLogInfoQueue (lists gIdleLogInfoQueue ++ xs))) ∧
      (xs.foldl (fun h a => listPushNode h (some gIdleLogInfoQueue) (some a)) h).errors
        = h.errors := by
  induction xs generalizing h lists with
  | nil =>
      rw [List.append_nil, Function.update_eq_self]
      exact ⟨hr, rfl⟩
  | cons a xs ih =>
      have ha : (absOf lists).Unlinked a := by
        intro q ys hq hmem
        obtain rfl : lists q = ys := Option.some.inj hq
        cases q with
        | gIdleLogInfoQueue =>
            exact (List.nodup_append.mp hnodup).2.2 a hmem a List.mem_cons_self rfl
        | gBusyLogInfoQueue =>
            rw [hbusy] at hmem
            exact List.not_mem_nil hmem
      obtain ⟨hr', herr⟩ := hr.pushNode (i := gIdleLogInfoQueue) rfl ha
      rw [update_absOf] at hr'
      have h' := ih hr' (by rw [Function.update_self, List.append_assoc]; exact hnodup)
        (by rw [Function.update_of_ne (by decide)]; exact hbusy)
      rw [Function.update_self, Function.update_idem, List.append_assoc] at h'
      exact ⟨h'.1, h'.2.trans herr⟩

/-- The nodes `xs` are idle, and nothing is in the busy queue. -/
def idleLists (xs : List LogNode) : LogQueue → List LogNode
  | .gIdleLogInfoQueue => xs
  | .gBusyLogInfoQueue => []

theorem pushAll_init (xs : List LogNode) (hnodup : xs.Nodup) :
    Repr (xs.foldl (fun h a => listPushNode h (some gIdleLogInfoQueue) (some a))
        (listInit (listInit ⟨fun _ => ⟨none, none, 0⟩, fun _ => ⟨none, none⟩, 0⟩
          (some gIdleLogInfoQueue)) (some gBusyLogInfoQueue))) (absOf (idleLists xs)) ∧
      (xs.foldl (fun h a => listPushNode h (some gIdleLogInfoQueue) (some a))
        (listInit (listInit ⟨fun _ => ⟨none, none, 0⟩, fun _ => ⟨none, none⟩, 0⟩
          (some gIdleLogInfoQueue)) (some gBusyLogInfoQueue))).errors = 0 := by
  have hempty : Repr (listInit (listInit (⟨fun _ => ⟨none, none, 0⟩, fun _ => ⟨none, none⟩, 0⟩ :
      Heap LogQueue LogNode) (some gIdleLogInfoQueue)) (some gBusyLogInfoQueue))
      (absOf (idleLists [])) := by
    refine ⟨fun q ys hq => ?_, fun p q ys zs _ hy _ => ?_⟩
    · obtain rfl : idleLists [] q = ys := Option.some.inj hq
      cases q with
      | gIdleLogInfoQueue => exact ⟨rfl, rfl, rfl, trivial, List.nodup_nil⟩
      | gBusyLogInfoQueue => exact ⟨rfl, rfl, rfl, trivial, List.nodup_nil⟩
    · obtain rfl : idleLists [] p = ys := Option.some.inj hy
      cases p <;> exact List.disjoint_nil_left _
  obtain ⟨hrepr, herr⟩ := pushAll_repr xs hempty hnodup rfl
  have hlists : Function.update (idleLists []) gIdleLogInfoQueue
      (idleLists [] gIdleLogInfoQueue ++ xs) = idleLists xs := by
    funext q
    cases q <;> rfl
  rw [hlists] at hrepr
  exact ⟨hrepr, herr⟩

theorem initQueues_repr :
    Repr initQueues (absOf (idleLists (List.finRange maxNumLogInfoNode))) ∧
      initQueues.errors = 0 := by
  unfold initQueues
  exact pushAll_init _ (List.nodup_finRange _)

theorem placed_of_idle (θ : Type) {xs : List LogNode} (hall : ∀ a, a ∈ xs)
    (hrepr : Repr initQueues (absOf (idleLists xs))) (herr : initQueues.errors = 0) :
    Placed (initQueueLogger θ) (idleLists xs) := by
  have hqueues : (initQueueLogger θ).queues = initQueues := by rw [initQueueLogger]
  refine ⟨hqueues ▸ hrepr, hqueues ▸ herr, fun _ => .queue gIdleLogInfoQueue, fun p a => ?_⟩
  cases p with
  | queue q =>
      cases q with
      | gIdleLogInfoQueue => exact iff_of_true (hall a) rfl
      | gBusyLogInfoQueue => exact iff_of_false List.not_mem_nil nofun
  | hand x => cases x <;> exact iff_of_false List.not_mem_nil nofun

theorem placed_init (θ : Type) :
    Placed (initQueueLogger θ) (idleLists (List.finRange maxNumLogInfoNode)) :=
  placed_of_idle θ List.mem_finRange initQueues_repr.1 initQueues_repr.2

end LteUlp.Logger
