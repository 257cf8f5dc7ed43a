import LteUlp.Logger.Nodes

set_option autoImplicit false

/-! # What asynchronous log type 2 puts out

A round of `ProcessLogQueue` collects the texts of the records in `logBuff` and outputs them
at its end. As long as every message has the space that it needs, `logBuff` holds exactly the
texts of the records that have been copied in the round, so the output is the texts of all
records in the order in which they have been pushed.
-/

namespace LteUlp.Logger

open Intrusive LogQueue QueueLogger

/-- `logBuff` at the beginning of a round. -/
def emptyLogBuff : List UInt8 := List.replicate 4096 0

theorem length_emptyLogBuff : emptyLogBuff.length = 4096 := List.length_replicate

variable {config : LoggerConfig} {sprintf : Sprintf} {batch : List UInt8} {c c' : Cursor}

/-- **A message** that fits is copied behind what is in `logBuff`. -/
theorem copyMsg_wrote (h : c.Wrote emptyLogBuff 0 batch) (timestamp : CString)
    (info : LogMsgInfo) (node : LogInfo) (hinfo : node.logMsgInfo = info)
    (htype : node.contentType = .logMsgType)
    (hfit : batch.length + (node.text config sprintf timestamp).length < remainLogBuff) :
    (c.copyMsg config sprintf timestamp info).Wrote emptyLogBuff 0
      (batch ++ node.text config sprintf timestamp) := by
  have hmax : (remainLogBuff : Int) < 2 ^ 64 := by decide
  have hlen := length_emptyLogBuff
  subst hinfo
  unfold LogInfo.text at hfit ⊢
  simp only [htype, List.length_append] at hfit ⊢
  have hbuff : remainLogBuff = 4095 := rfl
  have h1 := h.put (t := bracketed timestamp.1) (by omega)
  have h2 := h1.writeHeader remainLogBuff config node.logMsgInfo.logLevel
    node.logMsgInfo.moduleId node.logMsgInfo.threadId node.logMsgInfo.fileName
    node.logMsgInfo.funcName (by simp only [List.length_append]; omega)
    (by simp only [List.length_append]; omega) hmax
  unfold Cursor.copyMsg
  dsimp only
  rw [← List.append_assoc, ← List.append_assoc]
  cases hflag : node.logMsgInfo.logContentFlag with
  | true =>
      simp only [hflag, if_true] at hfit ⊢
      exact h2.put (by simp only [List.length_append]; omega)
  | false =>
      simp only [hflag, Bool.false_eq_true, if_false] at hfit ⊢
      exact h2.print (sprintf node.logMsgInfo.fmt node.logMsgInfo.args).2
        (by simp only [List.length_append]; omega)
        (by simp only [List.length_append]; omega) hmax

theorem zero_notMem_infoText (timestamp : CString) (node : LogInfo) :
    (0 : UInt8) ∉ node.text config sprintf timestamp := by
  unfold LogInfo.text
  cases node.contentType with
  | logMemType => exact zero_notMem_take_strlen _
  | logMsgType =>
      refine zero_notMem_append (zero_notMem_append (zero_notMem_bracketed timestamp.2)
        (zero_notMem_headerText config _ _ _ _ _)) ?_
      split
      · exact node.logMsgInfo.logContent.2
      · exact (sprintf node.logMsgInfo.fmt node.logMsgInfo.args).2

/-- **A record** that is copied is behind what is in `logBuff`, which has room for the
terminator then. -/
theorem copyInfo_wrote (h : c.Wrote emptyLogBuff 0 batch) (timestamp : CString)
    (node : LogInfo) (hcopy : c.copyInfo config sprintf timestamp node = some c')
    (hfit : node.contentType = .logMsgType →
      c.offset + (node.text config sprintf timestamp).length < remainLogBuff) :
    c'.Wrote emptyLogBuff 0 (batch ++ node.text config sprintf timestamp) ∧
      (batch ++ node.text config sprintf timestamp).length < 4096 := by
  have hbuff : remainLogBuff = 4095 := rfl
  have hlen := length_emptyLogBuff
  unfold Cursor.copyInfo at hcopy
  cases htype : node.contentType with
  | logMsgType =>
      simp only [htype, Option.some.injEq] at hcopy
      subst hcopy
      have hfit' := hfit htype
      rw [h.offset] at hfit'
      refine ⟨copyMsg_wrote h timestamp _ node rfl htype hfit', ?_⟩
      rw [List.length_append]
      omega
  | logMemType =>
      simp only [htype] at hcopy
      have htext : node.text config sprintf timestamp = node.logMem.take (strlen node.logMem) := by
        unfold LogInfo.text
        rw [htype]
      rw [htext]
      split at hcopy
      · exact nomatch hcopy
      · rename_i hroom
        rw [h.offset] at hroom
        obtain rfl := Option.some.inj hcopy
        have hle := strlen_le node.logMem
        refine ⟨h.put ?_, ?_⟩
        · rw [List.length_take]
          omega
        · rw [List.length_append, List.length_take]
          omega

/-- **The end of a round** outputs what is in `logBuff`. -/
theorem flush_output {θ : Type} (s : QueueLogger θ) (h : c.Wrote emptyLogBuff 0 batch)
    (hclean : (0 : UInt8) ∉ batch) (hfit : batch.length < 4096) :
    (s.flush c).output = s.output ++ batch ∧ (s.flush c).console = s.console ++ batch := by
  have hlen := length_emptyLogBuff
  have hm : Stored emptyLogBuff (copyText c.logData c.logPtr [0]) 0 (batch ++ [0]) := by
    rw [h.logPtr]
    exact h.stored.append (by rw [List.length_singleton]; omega)
  have hstrlen : strlen (copyText c.logData c.logPtr [0]) = batch.length :=
    Stored.strlen (s := []) hm (Nat.zero_le _) hclean
  have htake : (copyText c.logData c.logPtr [0]).take batch.length = batch := by
    have := (hm.of_append (Nat.zero_le _)).take
    rwa [Nat.zero_add, List.take_zero, List.nil_append] at this
  unfold flush loggerOutputLog
  dsimp only
  rw [hstrlen, htake]
  rcases batch with _ | ⟨b, batch⟩
  · exact ⟨(List.append_nil _).symm, (List.append_nil _).symm⟩
  · exact ⟨rfl, rfl⟩

/-! ## Runs -/

/-- What is in `logBuff`. -/
def Task.Holds (batch : List UInt8) : Task → Prop
  | .waiting | .entered => batch = []
  | .looping _ _ c | .popped _ _ _ c | .copied _ _ _ c =>
      c.Wrote emptyLogBuff 0 batch ∧ (0 : UInt8) ∉ batch ∧ batch.length < 4096

/-- What has been output and what is in `logBuff` are together `text`. -/
def Shows {θ : Type} (s : QueueLogger θ) (text : List UInt8) : Prop :=
  ∃ batch, s.task.Holds batch ∧ s.output ++ batch = text ∧ s.console ++ batch = text

/-- The texts of records that have been copied. -/
def copiedText (config : LoggerConfig) (sprintf : Sprintf)
    (copied : List (LogNode × LogInfo × CString)) : List UInt8 :=
  copied.flatMap fun x => x.2.1.text config sprintf x.2.2

section Runs

variable {θ : Type} {s t : QueueLogger θ} {text : List UInt8}

/-- A step that leaves `logBuff` and the output alone. -/
theorem Shows.stay (h : Shows s text) (htask : ∀ batch, s.task.Holds batch → t.task.Holds batch)
    (hout : t.toLogOutput = s.toLogOutput) : Shows t (text ++ []) := by
  obtain ⟨batch, hb, ho, hc⟩ := h
  rw [List.append_nil]
  exact ⟨batch, htask batch hb, by rw [hout]; exact ho, by rw [hout]; exact hc⟩

theorem Shows.flush (ho : s.output ++ batch = text) (hc : s.console ++ batch = text)
    (hb : c.Wrote emptyLogBuff 0 batch ∧ (0 : UInt8) ∉ batch ∧ batch.length < 4096) :
    Shows (s.flush c) (text ++ []) := by
  obtain ⟨hout, hcons⟩ := flush_output s hb.1 hb.2.1 hb.2.2
  refine ⟨[], rfl, ?_, ?_⟩
  · rw [hout, ho]
  · rw [hcons, hc]

theorem taskStep_shows (h : Shows s text) (timestamp : CString)
    (hfit : (Act.task timestamp).Fits config sprintf s) :
    Shows (s.taskStep config sprintf timestamp)
      (text ++ copiedText config sprintf ((Act.task timestamp).copied config sprintf s)) := by
  obtain ⟨batch, hb, ho, hc⟩ := h
  unfold taskStep
  simp only [Act.copied, Act.Fits] at hfit ⊢
  cases htask : s.task with
  | waiting =>
      rw [htask] at hb
      dsimp only
      split
      · exact Shows.stay ⟨batch, by rw [htask]; exact hb, ho, hc⟩ (fun _ => id) rfl
      · exact Shows.stay ⟨batch, by rw [htask]; exact hb, ho, hc⟩
          (fun _ => by rw [htask]; exact id) rfl
  | entered =>
      rw [htask] at hb
      obtain rfl : batch = [] := hb
      refine ⟨[], ⟨⟨Stored.nil _ 0, rfl, rfl⟩, List.not_mem_nil, by decide⟩, ?_, ?_⟩
      · rw [ho]
        exact (List.append_nil text).symm
      · rw [hc]
        exact (List.append_nil text).symm
  | looping count ts c =>
      rw [htask] at hb
      dsimp only
      split
      · split
        · rename_i heq
          rw [← (Prod.mk.inj heq).1]
          exact Shows.flush ho hc hb
        · rename_i heq
          rw [← (Prod.mk.inj heq).1]
          exact ⟨batch, hb, ho.trans (List.append_nil text).symm,
            hc.trans (List.append_nil text).symm⟩
      · exact Shows.flush ho hc hb
  | popped a count ts c =>
      rw [htask] at hb hfit
      dsimp only
      cases hcopy : c.copyInfo config sprintf ts (s.gLogInfoNodeArray a) with
      | none => exact Shows.flush ho hc hb
      | some c' =>
          -- the text of the record is added to the batch
          obtain ⟨hwrote, hroom⟩ := copyInfo_wrote hb.1 ts _ hcopy hfit
          have htext : copiedText config sprintf [(a, s.gLogInfoNodeArray a, ts)]
              = (s.gLogInfoNodeArray a).text config sprintf ts := by
            unfold copiedText
            rw [List.flatMap_singleton]
          refine ⟨_, ⟨hwrote, zero_notMem_append hb.2.1 (zero_notMem_infoText ts _), hroom⟩,
            ?_, ?_⟩
          · rw [htext, ← List.append_assoc]
            exact congrArg (· ++ _) ho
          · rw [htext, ← List.append_assoc]
            exact congrArg (· ++ _) hc
  | copied a count ts c =>
      rw [htask] at hb
      dsimp only
      split
      · exact Shows.flush ho hc hb
      · exact ⟨batch, hb, ho.trans (List.append_nil text).symm,
          hc.trans (List.append_nil text).symm⟩

variable [DecidableEq θ]

/-- The writers leave the task and the output alone. -/
theorem writer_output (x : Act θ) (hx : ∀ timestamp, x ≠ .task timestamp) :
    (x.run config sprintf s).task = s.task ∧
      (x.run config sprintf s).toLogOutput = s.toLogOutput := by
  cases x with
  | call i x => exact (writerCall_keeps s i x).2
  | fill i =>
      show (writerFill config s i).task = _ ∧ (writerFill config s i).toLogOutput = _
      unfold writerFill
      split <;> exact ⟨rfl, rfl⟩
  | push i =>
      show (writerPush s i).task = _ ∧ (writerPush s i).toLogOutput = _
      unfold writerPush
      split <;> exact ⟨rfl, rfl⟩
  | task timestamp => exact absurd rfl (hx timestamp)

theorem run_shows (h : Shows s text) (x : Act θ) (hfit : x.Fits config sprintf s) :
    Shows (x.run config sprintf s)
      (text ++ copiedText config sprintf (x.copied config sprintf s)) := by
  have hwriter : ∀ x : Act θ, (∀ timestamp, x ≠ .task timestamp) →
      Shows (x.run config sprintf s) (text ++ []) := by
    intro x hx
    obtain ⟨htask, hout⟩ : (x.run config sprintf s).task = s.task ∧
        (x.run config sprintf s).toLogOutput = s.toLogOutput := writer_output x hx
    exact h.stay (fun _ => by rw [htask]; exact id) hout
  cases x with
  | call i x => exact hwriter (.call i x) nofun
  | fill i => exact hwriter (.fill i) nofun
  | push i => exact hwriter (.push i) nofun
  | task timestamp => exact taskStep_shows h timestamp hfit

/-- The invariant of all runs. -/
theorem QueueReached.kept {h : History} (hr : QueueReached config sprintf s h) :
    (∃ lists, Placed s lists ∧ InOrder s lists h.pushed h.copied) ∧
      (h.fits → Shows s (copiedText config sprintf h.copied)) := by
  induction hr with
  | init =>
      refine ⟨⟨_, placed_init θ, rfl⟩, fun _ => ⟨[], rfl, rfl, rfl⟩⟩
  | step x _ ih =>
      obtain ⟨⟨lists, hp, ho⟩, hshows⟩ := ih
      refine ⟨run_kept hp ho x, fun hfits => ?_⟩
      have := run_shows (hshows hfits.1) x hfits.2
      unfold copiedText at this ⊢
      rwa [List.flatMap_append]

/-- The text in `logBuff`. -/
def Task.logBuff : Task → List UInt8
  | .waiting | .entered => []
  | .looping _ _ c | .popped _ _ _ c | .copied _ _ _ c => c.logData.take c.offset

theorem Task.Holds.logBuff {x : Task} (h : x.Holds batch) : x.logBuff = batch := by
  have htake : ∀ c : Cursor, c.Wrote emptyLogBuff 0 batch → c.logData.take c.offset = batch := by
    intro c hc
    have := hc.stored.take
    rw [Nat.zero_add, List.take_zero, List.nil_append] at this
    rw [hc.offset, this]
  cases x with
  | waiting | entered => exact Eq.symm h
  | looping _ _ c => exact htake c h.1
  | popped _ _ _ c => exact htake c h.1
  | copied _ _ _ c => exact htake c h.1

/-- **The nodes are conserved and the records keep their order.** In every state that the
steps of the writers and of the logger task lead to: the pointers of the queues spell lists
without repetitions, and every node is in exactly one of the queues and the hands of one
thread. A step modifies no node that is in a queue. The records that have been pushed to the
busy queue are, in this order, those that have been copied, the one that the task has taken
and those in the queue. And as long as the messages fit into `logBuff`, the output and the
text in `logBuff` are the texts of the records that have been copied. -/
theorem async_queue_conserves {h : History} (hr : QueueReached config sprintf s h) :
    (∃ lists : LogQueue → List LogNode,
      (∀ q, Spells s.queues q (lists q) ∧ (lists q).Nodup) ∧
      (∀ a, ∃! p : Place θ, a ∈ s.contents lists p) ∧
      (∀ (x : Act θ) (a : LogNode),
        (x.run config sprintf s).gLogInfoNodeArray a ≠ s.gLogInfoNodeArray a →
          ∀ q, a ∉ lists q) ∧
      h.pushed = h.copied.map (fun x => (x.1, x.2.1))
        ++ s.records (s.task.pending ++ lists gBusyLogInfoQueue)) ∧
      s.queues.errors = 0 ∧
      (h.fits → s.output ++ s.task.logBuff = copiedText config sprintf h.copied) := by
  obtain ⟨⟨lists, hp, ho⟩, hshows⟩ := hr.kept
  refine ⟨⟨lists, fun q => ⟨(hp.linked q).spells, (hp.linked q).nodup⟩,
    hp.places.existsUnique, fun x a hne => modified_not_queued hp x a hne, ho⟩, hp.errors,
    fun hfits => ?_⟩
  obtain ⟨batch, hb, hout, -⟩ := hshows hfits
  rw [hb.logBuff]
  exact hout

/-! ### Two threads -/

instance decidableActFits {θ : Type} [DecidableEq θ] (config : LoggerConfig) (sprintf : Sprintf)
    (s : QueueLogger θ) (x : Act θ) : Decidable (x.Fits config sprintf s) := by
  unfold Act.Fits
  repeat' split
  all_goals infer_instance

/-- The state after some steps, and whether each message had the space it needs. -/
def afterActs {θ : Type} [DecidableEq θ] (config : LoggerConfig) (sprintf : Sprintf) :
    QueueLogger θ → List (Act θ) → QueueLogger θ × Bool
  | s, [] => (s, true)
  | s, x :: l =>
      let r := afterActs config sprintf (x.run config sprintf s) l
      (r.1, decide (x.Fits config sprintf s) && r.2)

theorem afterActs_reached {θ : Type} [DecidableEq θ] {config : LoggerConfig} {sprintf : Sprintf}
    {s : QueueLogger θ} {h : History} (hr : QueueReached config sprintf s h) (l : List (Act θ)) :
    ∃ h', QueueReached config sprintf (afterActs config sprintf s l).1 h' ∧
      (h.fits → (afterActs config sprintf s l).2 = true → h'.fits) := by
  induction l generalizing s h with
  | nil => exact ⟨h, hr, fun hfits _ => hfits⟩
  | cons x l ih =>
      obtain ⟨h', hr', hfits'⟩ := ih (.step x hr)
      refine ⟨h', hr', fun hfits hall => ?_⟩
      obtain ⟨hx, hl⟩ := Bool.and_eq_true_iff.mp hall
      exact hfits' ⟨hfits, of_decide_eq_true hx⟩ hl

/-- The configuration in which all levels are logged, with the function names. -/
def plainConfig : LoggerConfig := ⟨0, false, false, true, false, 4096⟩

/-- A message whose format asks for no argument. -/
def greeting : LogCall :=
  .loggerWriteMsg .empty 2 .empty .empty .empty ⟨ascii ['u', 'p'], by decide⟩ UInt32.ofNat
    ⟨ascii ['u', 'p'], by decide⟩

/-- A thread logs a dump of one byte while another one logs a message, which is pushed first,
and the task outputs both in one round. -/
def twoThreads : List (Act Nat) :=
  [.call 0 (.loggerWriteMem 2 [0xab]), .call 1 greeting, .fill 1, .push 1, .task .empty, .fill 0,
    .push 0] ++ List.replicate 8 (.task .empty)

set_option maxRecDepth 50000 in
theorem twoThreads_output :
    (fun r : QueueLogger Nat × Bool => (r.1.output, r.2))
        (afterActs plainConfig (fun fmt _ => fmt) (initQueueLogger Nat) twoThreads)
      = (ascii ['[', ']', ' ', '[', 'I', 'N', 'F', 'O', ' ', ']', ' ', '-', ' ', '[', ']', ',', ' ',
          'u', 'p', 'a', 'b', ' ', '\n'], true) := by
  decide +kernel

/-- The run of both threads and the task. -/
theorem async_queue_conserves_two_threads :
    ∃ (s : QueueLogger Nat) (h : History), QueueReached plainConfig (fun fmt _ => fmt) s h ∧
      h.fits ∧ (∃ lists : LogQueue → List LogNode,
        (∀ q, Spells s.queues q (lists q) ∧ (lists q).Nodup) ∧
        ∀ a, ∃! p : Place Nat, a ∈ s.contents lists p) ∧ s.queues.errors = 0 ∧
      s.output = ascii ['[', ']', ' ', '[', 'I', 'N', 'F', 'O', ' ', ']', ' ', '-', ' ', '[', ']',
        ',', ' ', 'u', 'p', 'a', 'b', ' ', '\n'] ∧
      s.output ++ s.task.logBuff = copiedText plainConfig (fun fmt _ => fmt) h.copied := by
  obtain ⟨houtput, hfit⟩ := Prod.mk.inj twoThreads_output
  have hinit : QueueReached plainConfig (fun fmt _ => fmt) (initQueueLogger Nat) _ := .init
  obtain ⟨h, hr, hfits⟩ := afterActs_reached hinit twoThreads
  obtain ⟨⟨lists, hlists, hplace, -⟩, herr, hcopied⟩ := async_queue_conserves hr
  have hall := hfits trivial hfit
  exact ⟨_, h, hr, hall, ⟨lists, hlists, hplace⟩, herr, houtput, hcopied hall⟩

end Runs

end LteUlp.Logger
