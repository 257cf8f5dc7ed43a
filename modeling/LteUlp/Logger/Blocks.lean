import LteUlp.Logger.Record
import Mathlib.Data.List.Basic

set_option autoImplicit false

/-! # The ring of log blocks

Every section of the writers and of the logger task that runs under the mutex keeps the
shape of the ring: from `gpReadBuffer` on there are `k` closed blocks, then the block that
is being filled, then empty ones. When all six blocks are closed the two pointers meet, and
the writers drop what they are called with until the task has output a block. In this shape
the unread texts are the texts of all six blocks, so a record that is accepted goes to the
end of them and the task takes from their beginning.
-/

namespace LteUlp.Logger

open AsyncLogger

namespace AsyncLogger

/-- The block `i` steps after `gpReadBuffer`. -/
def block (s : AsyncLogger) (i : Nat) : LogBufferCache :=
  ringAt s.gLogBufferQueue s.gpReadBuffer i

/-- The texts of the first `n` blocks from `gpReadBuffer` on. -/
def texts (s : AsyncLogger) (n : Nat) : List UInt8 :=
  (List.range n).flatMap fun i => (s.block i).text

/-- The contents of the blocks from `gpReadBuffer` to `gpWriteBuffer`: all the way round the
ring when `gpWriteBuffer` is full. -/
def unread (s : AsyncLogger) : List UInt8 :=
  s.texts (if s.writeBuffer.fullFlag then maxNumLogBufferBlock
    else stepsTo s.gpReadBuffer s.gpWriteBuffer + 1)

/-- The blocks from `gpReadBuffer` up to but excluding `gpWriteBuffer` are full and nonempty,
and the blocks after `gpWriteBuffer` are empty and not full; or else all six blocks are full
and the pointers are equal. -/
def Ordered (s : AsyncLogger) : Prop :=
  ((∀ b, stepsTo s.gpReadBuffer b < stepsTo s.gpReadBuffer s.gpWriteBuffer →
      (s.gLogBufferQueue b).fullFlag = true ∧ (s.gLogBufferQueue b).length ≠ 0) ∧
    (∀ b, stepsTo s.gpReadBuffer s.gpWriteBuffer ≤ stepsTo s.gpReadBuffer b →
      b ≠ s.gpWriteBuffer →
        (s.gLogBufferQueue b).fullFlag = false ∧ (s.gLogBufferQueue b).length = 0)) ∨
  ((∀ b, (s.gLogBufferQueue b).fullFlag = true) ∧ s.gpReadBuffer = s.gpWriteBuffer)

end AsyncLogger

/-! ## The sections under the mutex -/

/-- One section that runs under the mutex. -/
inductive Section where
  | asyncWriteMsg (r : LogRecord)
  | loggerWriteMem (logLevel : Nat) (pBuffer : List UInt8)
  | loggerEntryFunc

namespace Section

/-- What the section does. -/
def run (config : LoggerConfig) (s : AsyncLogger) : Section → AsyncLogger
  | asyncWriteMsg r => Logger.asyncWriteMsg config s r
  | loggerWriteMem logLevel pBuffer => Logger.loggerWriteMem config s logLevel pBuffer
  | loggerEntryFunc => Logger.loggerEntryFunc s

/-- The text of the record that the section is called with. -/
def text (config : LoggerConfig) : Section → List UInt8
  | asyncWriteMsg r => r.text config
  | loggerWriteMem _ pBuffer => hexText pBuffer
  | loggerEntryFunc => []

/-- The section comes to write its record: the state then, and whether it does. -/
def opened (config : LoggerConfig) (s : AsyncLogger) : Section → AsyncLogger × Bool
  | asyncWriteMsg r =>
      if config.logs r.logLevel then openBlock config s (msgTooLong config s) else (s, false)
  | loggerWriteMem logLevel pBuffer =>
      if pBuffer ≠ [] ∧ config.logs logLevel then
        openBlock config s (memTooLong config s pBuffer.length)
      else (s, false)
  | loggerEntryFunc => (s, false)

/-- The text that the section accepts. -/
def accepted (config : LoggerConfig) (s : AsyncLogger) (x : Section) : List UInt8 :=
  if (x.opened config s).2 then x.text config else []

/-- The text fits, with its terminator, in the space left in the block it is written to. -/
def Fits (config : LoggerConfig) (s : AsyncLogger) (x : Section) : Prop :=
  (x.opened config s).2 = true →
    (x.opened config s).1.writeBuffer.length + (x.text config).length < config.logBufferingSize

end Section

/-- The states that are reached from the initialised logger, and the texts accepted on the
way, in order. -/
inductive Reached (config : LoggerConfig) : AsyncLogger → List UInt8 → Prop
  | init : Reached config initAsyncLogger []
  | step {s : AsyncLogger} {text : List UInt8} (x : Section) (h : Reached config s text)
      (hfit : x.Fits config s) : Reached config (x.run config s) (text ++ x.accepted config s)

/-! ## The invariant -/

/-- A block: its text has no terminator in it, and the first one in the array ends it. -/
structure BlockOk (b : LogBufferCache) : Prop where
  size : b.logData.length = maxLogBlockSize
  clean : (0 : UInt8) ∉ b.text
  ended : b.length ≠ 0 → strlen b.logData = b.length

/-- `k` closed blocks, then the one that is being filled, then empty ones. -/
structure Shape (s : AsyncLogger) (k : Nat) : Prop where
  le : k ≤ maxNumLogBufferBlock
  next : ∀ b, (s.gLogBufferQueue b).next = b + 1
  ok : ∀ b, BlockOk (s.gLogBufferQueue b)
  write : s.gpWriteBuffer = s.gpReadBuffer + Fin.ofNat maxNumLogBufferBlock k
  closed : ∀ i < k, (s.block i).fullFlag = true ∧ (s.block i).length ≠ 0
  notFull : ∀ i, k ≤ i → i < maxNumLogBufferBlock → (s.block i).fullFlag = false
  empty : ∀ i, k < i → i < maxNumLogBufferBlock → (s.block i).length = 0

variable {config : LoggerConfig} {s : AsyncLogger} {k : Nat}

theorem text_of_empty {b : LogBufferCache} (h : b.length = 0) : b.text = [] := by
  unfold LogBufferCache.text
  rw [h, List.take_zero]

/-- Every block is some steps after `gpReadBuffer`. -/
theorem block_stepsTo (s : AsyncLogger) (b : Fin maxNumLogBufferBlock) :
    s.block (stepsTo s.gpReadBuffer b) = s.gLogBufferQueue b :=
  ringAt_stepsTo s.gLogBufferQueue s.gpReadBuffer b

theorem block_zero (s : AsyncLogger) : s.block 0 = s.readBuffer := ringAt_zero _ _

theorem writeBuffer_setBlock (s : AsyncLogger) (b : LogBufferCache) :
    (s.setBlock s.gpWriteBuffer b).writeBuffer = b := Function.update_self ..

/-- Behind empty blocks there is no text. -/
theorem texts_of_empty {n : Nat} (hn : n ≤ maxNumLogBufferBlock)
    (h : ∀ i, n ≤ i → i < maxNumLogBufferBlock → (s.block i).length = 0) :
    s.texts maxNumLogBufferBlock = s.texts n := by
  obtain ⟨m, hm⟩ := Nat.exists_eq_add_of_le hn
  unfold texts
  have hnil : (List.range m).flatMap (fun i => (s.block (n + i)).text) = [] := by
    rw [List.flatMap_eq_nil_iff]
    intro i hi
    have hi' := List.mem_range.mp hi
    exact text_of_empty (h (n + i) (Nat.le_add_right _ _) (by omega))
  rw [hm, List.range_add, List.flatMap_append, List.flatMap_map, hnil, List.append_nil]

theorem texts_succ (s : AsyncLogger) (n : Nat) :
    s.texts (n + 1) = s.texts n ++ (s.block n).text := by
  unfold texts
  rw [List.range_succ, List.flatMap_append, List.flatMap_singleton]

theorem texts_congr {s' : AsyncLogger} {n : Nat}
    (h : ∀ i < n, (s'.block i).text = (s.block i).text) : s'.texts n = s.texts n := by
  unfold texts
  exact List.flatMap_congr fun i hi => h i (List.mem_range.mp hi)

namespace Shape

theorem writeBuffer_eq (h : Shape s k) :
    s.writeBuffer = s.block k := by
  unfold writeBuffer block ringAt
  rw [h.write]

/-- All blocks are closed: the pointers are equal. -/
theorem writeBuffer_around (h : Shape s maxNumLogBufferBlock) :
    s.gpWriteBuffer = s.gpReadBuffer := by
  rw [h.write]
  exact Fin.ext (by simp)

theorem fullFlag (h : Shape s k) : s.writeBuffer.fullFlag = decide (k = maxNumLogBufferBlock) := by
  rcases Nat.lt_or_eq_of_le h.le with hk | rfl
  · rw [h.writeBuffer_eq, h.notFull k (Nat.le_refl k) hk]
    exact (decide_eq_false (Nat.ne_of_lt hk)).symm
  · unfold writeBuffer
    rw [h.writeBuffer_around, decide_eq_true rfl]
    have h0 := (h.closed 0 (by decide)).1
    rwa [block_zero] at h0

theorem unread_eq (h : Shape s k) : s.unread = s.texts maxNumLogBufferBlock := by
  unfold unread
  rw [h.fullFlag]
  rcases Nat.lt_or_eq_of_le h.le with hk | rfl
  · rw [decide_eq_false (Nat.ne_of_lt hk), if_neg Bool.false_ne_true, h.write, stepsTo_ring hk]
    exact (texts_of_empty hk fun i hi hi6 => h.empty i hi hi6).symm
  · rw [decide_eq_true rfl, if_pos rfl]

theorem ordered (h : Shape s k) : s.Ordered := by
  rcases Nat.lt_or_eq_of_le h.le with hk | rfl
  · left
    rw [h.write, stepsTo_ring hk]
    refine ⟨fun b hb => ?_, fun b hb hne => ?_⟩
    · rw [← block_stepsTo]
      exact h.closed _ hb
    · have hb6 := stepsTo_lt s.gpReadBuffer b
      have hlt : k < stepsTo s.gpReadBuffer b := by
        apply Nat.lt_of_le_of_ne hb
        rintro rfl
        apply hne
        unfold stepsTo
        rw [Fin.ofNat_val_eq_self, add_sub_cancel]
      rw [← block_stepsTo]
      exact ⟨h.notFull _ hb hb6, h.empty _ hlt hb6⟩
  · right
    refine ⟨fun b => ?_, h.writeBuffer_around.symm⟩
    rw [← block_stepsTo]
    exact (h.closed _ (stepsTo_lt _ b)).1

/-- When there is nothing in `gpReadBuffer` there is nothing in any block. -/
theorem texts_of_wait (h : Shape s k) (h0 : s.readBuffer.length = 0) :
    s.texts maxNumLogBufferBlock = [] := by
  have hk : k = 0 := by
    by_contra hne
    apply (h.closed 0 (Nat.pos_of_ne_zero hne)).2
    rw [block_zero]
    exact h0
  rw [texts_of_empty (Nat.zero_le _)]
  · rfl
  intro i _ hi6
  rcases Nat.eq_zero_or_pos i with rfl | hi
  · rw [block_zero]
    exact h0
  · exact h.empty i (by omega) hi6

/-- One block is replaced, at `gpWriteBuffer`. -/
theorem block_setBlock (h : Shape s k) (hk : k < maxNumLogBufferBlock) (b : LogBufferCache)
    {i : Nat} (hi : i < maxNumLogBufferBlock) :
    (s.setBlock s.gpWriteBuffer b).block i = if i = k then b else s.block i := by
  unfold block setBlock
  rw [h.write]
  exact ringAt_update s.gLogBufferQueue hi hk b

/-- What holds of all blocks and of the new one. -/
theorem forall_setBlock {q : Fin maxNumLogBufferBlock → LogBufferCache → Prop}
    {j : Fin maxNumLogBufferBlock} {b : LogBufferCache}
    (h : ∀ i, q i (s.gLogBufferQueue i)) (hb : q j b) (i : Fin maxNumLogBufferBlock) :
    q i ((s.setBlock j b).gLogBufferQueue i) := by
  show q i (Function.update s.gLogBufferQueue j b i)
  by_cases hi : i = j
  · rw [hi, Function.update_self]
    exact hb
  · rw [Function.update_of_ne hi]
    exact h i

/-- The block that is being filled is closed; the next one is then being filled, or all
blocks are closed. -/
theorem closeBlock (h : Shape s k) (hk : k < maxNumLogBufferBlock)
    (hne : s.writeBuffer.length ≠ 0) : Shape s.closeBlock (k + 1) := by
  have hblock : ∀ i < maxNumLogBufferBlock, s.closeBlock.block i
      = if i = k then { s.writeBuffer with fullFlag := true } else s.block i :=
    fun i hi => h.block_setBlock hk _ hi
  have hw : s.writeBuffer.next = s.gpWriteBuffer + 1 := h.next _
  refine ⟨hk, ?_, ?_, ?_, fun i hi => ?_, fun i hi hi6 => ?_, fun i hi hi6 => ?_⟩
  · exact forall_setBlock (q := fun i b => b.next = i + 1) h.next (h.next s.gpWriteBuffer)
  · have hb := h.ok s.gpWriteBuffer
    exact forall_setBlock (q := fun _ => BlockOk) h.ok ⟨hb.size, hb.clean, hb.ended⟩
  · show s.writeBuffer.next = _
    rw [hw, h.write, ofNat_succ, add_assoc, add_comm 1]
    rfl
  · rw [hblock i (by omega)]
    split
    · exact ⟨rfl, hne⟩
    · exact h.closed i (by omega)
  · rw [hblock i hi6, if_neg (by omega)]
    exact h.notFull i (by omega) hi6
  · rw [hblock i hi6, if_neg (by omega)]
    exact h.empty i (by omega) hi6

theorem texts_closeBlock (h : Shape s k) (hk : k < maxNumLogBufferBlock) :
    s.closeBlock.texts maxNumLogBufferBlock = s.texts maxNumLogBufferBlock := by
  apply texts_congr
  intro i hi
  have hblock : s.closeBlock.block i
      = if i = k then { s.writeBuffer with fullFlag := true } else s.block i :=
    h.block_setBlock hk _ hi
  rw [hblock]
  split
  · rename_i hik
    rw [hik, ← h.writeBuffer_eq]
    rfl
  · rfl

/-! ## A record is written -/

/-- The block after `text` has been put behind its text. -/
theorem blockOk_written {b : LogBufferCache} {m : List UInt8} {text : List UInt8}
    (hb : BlockOk b) (hm : Stored b.logData m b.length (text ++ [0]))
    (ht : (0 : UInt8) ∉ text) (hfit : b.length ≤ b.logData.length) :
    BlockOk { b with logData := m, length := b.length + text.length } ∧
      m.take (b.length + text.length) = b.text ++ text := by
  have htake := (hm.of_append hfit).take
  have hclean : (0 : UInt8) ∉ b.text ++ text := zero_notMem_append hb.clean ht
  have hlen : (b.text ++ text).length = b.length + text.length := by
    unfold LogBufferCache.text
    rw [List.length_append, List.length_take, Nat.min_eq_left hfit]
  have hwhole : m = (b.text ++ text) ++ 0 :: m.drop (b.length + (text ++ [0]).length) := by
    have hsplit := List.take_append_drop (b.length + (text ++ [0]).length) m
    rw [hm.take] at hsplit
    conv_lhs => rw [← hsplit]
    unfold LogBufferCache.text
    simp only [List.append_assoc, List.cons_append, List.nil_append]
  refine ⟨⟨hm.length.trans hb.size, ?_, fun _ => ?_⟩, htake⟩
  · show (0 : UInt8) ∉ m.take (b.length + text.length)
    rw [htake]
    exact hclean
  · show strlen m = b.length + text.length
    rw [hwhole, strlen_text hclean, hlen]

theorem commit (h : Shape s k) (hk : k < maxNumLogBufferBlock) {m text : List UInt8}
    (hm : Stored s.writeBuffer.logData m s.writeBuffer.length (text ++ [0]))
    (ht : (0 : UInt8) ∉ text) (hsize : config.logBufferingSize ≤ maxLogBlockSize)
    (hfit : s.writeBuffer.length + text.length < config.logBufferingSize) :
    Shape (AsyncLogger.commit config s m text.length) k ∧
      (AsyncLogger.commit config s m text.length).texts maxNumLogBufferBlock
        = s.texts maxNumLogBufferBlock ++ text := by
  obtain ⟨hok, htext⟩ := blockOk_written (h.ok s.gpWriteBuffer) hm ht (by
    rw [(h.ok _).size]
    show s.writeBuffer.length ≤ _
    omega)
  -- the text does not fill the block to its end, so the block stays open
  have hcommit : AsyncLogger.commit config s m text.length = s.setBlock s.gpWriteBuffer
      { s.writeBuffer with
        logData := m, length := s.writeBuffer.length + text.length } := by
    unfold AsyncLogger.commit
    simp only [writeBuffer_setBlock]
    rw [if_neg (by omega)]
  rw [hcommit]
  have hblock := fun i hi => h.block_setBlock hk { s.writeBuffer with
    logData := m, length := s.writeBuffer.length + text.length } (i := i) hi
  have hfull := h.notFull k (Nat.le_refl k) hk
  rw [← h.writeBuffer_eq] at hfull
  refine ⟨⟨h.le, ?_, ?_, h.write, fun i hi => ?_, fun i hi hi6 => ?_, fun i hi hi6 => ?_⟩, ?_⟩
  · exact forall_setBlock (q := fun i b => b.next = i + 1) h.next (h.next s.gpWriteBuffer)
  · exact forall_setBlock (q := fun _ => BlockOk) h.ok hok
  · rw [hblock i (by omega), if_neg (by omega)]
    exact h.closed i hi
  · rw [hblock i hi6]
    split
    · exact hfull
    · exact h.notFull i hi hi6
  · rw [hblock i hi6, if_neg (by omega)]
    exact h.empty i hi hi6
  · rw [texts_of_empty (n := k + 1) hk fun i hi hi6 => by
        rw [hblock i hi6, if_neg (by omega)]
        exact h.empty i hi hi6,
      texts_of_empty (s := s) (n := k + 1) hk fun i hi hi6 => h.empty i hi hi6,
      texts_succ, texts_succ, hblock k hk, if_pos rfl, ← h.writeBuffer_eq, List.append_assoc]
    refine congrArg₂ _ (texts_congr fun i hi => ?_) htext
    rw [hblock i (by omega), if_neg (by omega)]

end Shape

/-! ## One section -/

/-- A section has accepted `text`, and the output has lost nothing. -/
structure Next (s s' : AsyncLogger) (text : List UInt8) : Prop where
  shape : ∃ k, Shape s' k
  kept : s'.output ++ s'.texts maxNumLogBufferBlock
    = s.output ++ s.texts maxNumLogBufferBlock ++ text
  console : s.console = s.output → s'.console = s'.output

theorem Next.refl (h : Shape s k) : Next s s [] := ⟨⟨k, h⟩, (List.append_nil _).symm, id⟩

/-- The first part of a writer. When it goes on to write, not all blocks are closed. -/
theorem openBlock_next (config : LoggerConfig) (h : Shape s k) (tooLong : Bool) :
    Next s (openBlock config s tooLong).1 [] ∧
      ((openBlock config s tooLong).2 = true →
        ∃ k' < maxNumLogBufferBlock, Shape (openBlock config s tooLong).1 k') := by
  unfold openBlock
  by_cases hfull : s.writeBuffer.fullFlag = true
  · rw [if_pos hfull]
    exact ⟨Next.refl h, fun h => absurd h Bool.false_ne_true⟩
  have hk : k < maxNumLogBufferBlock := by
    apply Nat.lt_of_le_of_ne h.le
    intro hk
    rw [h.fullFlag] at hfull
    exact hfull (decide_eq_true hk)
  rw [if_neg hfull]
  by_cases hclose : config.logBufferingSize ≠ 0 ∧ s.writeBuffer.length ≠ 0 ∧ tooLong = true
  · rw [if_pos hclose]
    have hc := h.closeBlock hk hclose.2.1
    refine ⟨⟨⟨k + 1, hc⟩, ?_, id⟩, fun hopen => ⟨k + 1, ?_, hc⟩⟩
    · rw [h.texts_closeBlock hk, List.append_nil]
      rfl
    · apply Nat.lt_of_le_of_ne hc.le
      intro hk6
      have hflag := hc.fullFlag
      rw [decide_eq_true hk6] at hflag
      simp [hflag] at hopen
  · rw [if_neg hclose]
    exact ⟨Next.refl h, fun _ => ⟨k, hk, h⟩⟩

theorem commit_output (config : LoggerConfig) (s : AsyncLogger) (m : List UInt8) (n : Nat) :
    (AsyncLogger.commit config s m n).output = s.output ∧
      (AsyncLogger.commit config s m n).console = s.console := by
  unfold AsyncLogger.commit
  dsimp only
  split <;> exact ⟨rfl, rfl⟩

/-- The space behind the text of the block that a record is written to. -/
theorem room_of_fits (h : Shape s k) {text : List UInt8}
    (hsize : config.logBufferingSize ≤ maxLogBlockSize)
    (hfit : s.writeBuffer.length + text.length < config.logBufferingSize) :
    s.writeBuffer.length + text.length < s.writeBuffer.logData.length ∧
      (text.length : Int) < remainBufferSize config s ∧
      remainBufferSize config s < 2 ^ 64 := by
  have hlen : s.writeBuffer.logData.length = maxLogBlockSize := (h.ok _).size
  unfold remainBufferSize
  unfold maxLogBlockSize at hsize hlen
  refine ⟨by omega, by omega, by omega⟩

/-- **A writer**, given by its test for closing the block early and by what it writes to the
block: `write` puts `text` and its terminator behind the text of the block. -/
theorem writer_next (h : Shape s k) (tooLong : Bool) {text : List UInt8}
    (ht : (0 : UInt8) ∉ text) (hsize : config.logBufferingSize ≤ maxLogBlockSize)
    (hfit : (openBlock config s tooLong).2 = true →
      (openBlock config s tooLong).1.writeBuffer.length + text.length < config.logBufferingSize)
    (write : AsyncLogger → List UInt8 × Nat)
    (hwrite : ∀ t : AsyncLogger,
      t.writeBuffer.length + text.length < t.writeBuffer.logData.length →
      (text.length : Int) < remainBufferSize config t → remainBufferSize config t < 2 ^ 64 →
      (write t).2 = text.length ∧
        Stored t.writeBuffer.logData (write t).1 t.writeBuffer.length (text ++ [0])) :
    Next s
      (if (openBlock config s tooLong).2 then
        AsyncLogger.commit config (openBlock config s tooLong).1
          (write (openBlock config s tooLong).1).1 (write (openBlock config s tooLong).1).2
      else (openBlock config s tooLong).1)
      (if (openBlock config s tooLong).2 then text else []) := by
  obtain ⟨hnext, hk⟩ := openBlock_next config h tooLong
  by_cases hopen : (openBlock config s tooLong).2 = true
  · obtain ⟨k', hk', hs⟩ := hk hopen
    obtain ⟨hroom, hremain, hmax⟩ := room_of_fits hs hsize (hfit hopen)
    obtain ⟨hn, hm⟩ := hwrite _ hroom hremain hmax
    obtain ⟨hshape, htexts⟩ := hs.commit hk' hm ht hsize (hfit hopen)
    obtain ⟨ho, hc⟩ := commit_output config (openBlock config s tooLong).1
      (write (openBlock config s tooLong).1).1 text.length
    rw [if_pos hopen, if_pos hopen, hn]
    refine ⟨⟨k', hshape⟩, ?_, fun hcons => ?_⟩
    · rw [ho, htexts, ← List.append_assoc, hnext.kept, List.append_nil]
    · rw [hc, ho]
      exact hnext.console hcons
  · rw [if_neg hopen, if_neg hopen]
    exact hnext

theorem asyncWriteMsg_next (h : Shape s k) (r : LogRecord)
    (hsize : config.logBufferingSize ≤ maxLogBlockSize)
    (hfit : (Section.asyncWriteMsg r).Fits config s) :
    Next s (asyncWriteMsg config s r) ((Section.asyncWriteMsg r).accepted config s) := by
  unfold Section.Fits at hfit
  unfold asyncWriteMsg Section.accepted
  simp only [Section.opened, Section.text] at hfit ⊢
  by_cases hlog : config.logs r.logLevel
  · simp only [if_pos hlog] at hfit ⊢
    refine writer_next h _ (zero_notMem_text config r) hsize hfit
      (fun t => ((Cursor.writeRecord ⟨t.writeBuffer.logData, t.writeBuffer.length, 0⟩ config
        (remainBufferSize config t) r).logData, (Cursor.writeRecord ⟨t.writeBuffer.logData,
          t.writeBuffer.length, 0⟩ config (remainBufferSize config t) r).offset))
      fun t hroom hremain hmax => ?_
    obtain ⟨hwrote, hm⟩ := writeRecord_wrote config _ _ r hroom hremain hmax
    exact ⟨hwrote.offset, hm⟩
  · simp only [if_neg hlog]
    exact Next.refl h

theorem loggerWriteMem_next (h : Shape s k) (logLevel : Nat) (pBuffer : List UInt8)
    (hsize : config.logBufferingSize ≤ maxLogBlockSize)
    (hfit : (Section.loggerWriteMem logLevel pBuffer).Fits config s) :
    Next s (loggerWriteMem config s logLevel pBuffer)
      ((Section.loggerWriteMem logLevel pBuffer).accepted config s) := by
  unfold Section.Fits at hfit
  unfold loggerWriteMem Section.accepted
  simp only [Section.opened, Section.text] at hfit ⊢
  by_cases hlog : pBuffer ≠ [] ∧ config.logs logLevel
  · simp only [if_pos hlog] at hfit ⊢
    refine writer_next h _ (zero_notMem_hexText pBuffer) hsize hfit
      (fun t => writeHex t.writeBuffer.length (remainBufferSize config t) pBuffer
        t.writeBuffer.logData) fun t hroom hremain hmax => ?_
    obtain ⟨hprinted, hm⟩ := writeHex_printed pBuffer hroom hremain hmax
    exact ⟨hprinted.offset, hm⟩
  · simp only [if_neg hlog]
    exact Next.refl h

/-! ## The logger task -/

theorem blockOk_emptied {b : LogBufferCache} (h : BlockOk b) (fullFlag : Bool) :
    BlockOk { b with length := 0, fullFlag := fullFlag } :=
  ⟨h.size, by rw [text_of_empty rfl]; exact List.not_mem_nil, fun h0 => absurd rfl h0⟩

/-- The block that is being filled is output; the pointers stay where they are. -/
theorem Shape.takeOpen {t : AsyncLogger} (h : Shape s 0)
    (hq : t.gLogBufferQueue
      = (s.setBlock s.gpReadBuffer { s.readBuffer with length := 0 }).gLogBufferQueue)
    (hr : t.gpReadBuffer = s.gpReadBuffer) (hw : t.gpWriteBuffer = s.gpWriteBuffer) :
    Shape t 0 ∧ s.texts maxNumLogBufferBlock
      = s.readBuffer.text ++ t.texts maxNumLogBufferBlock := by
  have hblock : ∀ i < maxNumLogBufferBlock,
      t.block i = if i = 0 then { s.readBuffer with length := 0 } else s.block i := by
    intro i hi
    unfold block
    rw [hq, hr]
    have hpos : 0 < maxNumLogBufferBlock := by decide
    have := ringAt_update s.gLogBufferQueue (a := s.gpReadBuffer) hi hpos
      { s.readBuffer with length := 0 }
    rwa [show s.gpReadBuffer + Fin.ofNat maxNumLogBufferBlock 0 = s.gpReadBuffer from
      add_zero _] at this
  have hnf := h.notFull 0 (Nat.le_refl 0) (by decide)
  rw [block_zero] at hnf
  have hempty : ∀ i < maxNumLogBufferBlock, (t.block i).length = 0 := by
    intro i hi
    rw [hblock i hi]
    split
    · rfl
    · exact h.empty i (by omega) hi
  refine ⟨⟨h.le, ?_, ?_, ?_, fun i hi => absurd hi (Nat.not_lt_zero i), fun i hi hi6 => ?_,
    fun i hi hi6 => hempty i hi6⟩, ?_⟩
  · rw [hq]
    exact forall_setBlock (q := fun i b => b.next = i + 1) h.next (h.next s.gpReadBuffer)
  · rw [hq]
    exact forall_setBlock (q := fun _ => BlockOk) h.ok
      (blockOk_emptied (h.ok s.gpReadBuffer) s.readBuffer.fullFlag)
  · rw [hw, hr, h.write]
  · rw [hblock i hi6]
    split
    · exact hnf
    · exact h.notFull i hi hi6
  · rw [texts_of_empty (n := 1) (by decide) fun i hi hi6 => h.empty i hi hi6,
      texts_of_empty (n := 0) (by decide) fun i _ hi6 => hempty i hi6, texts_succ, block_zero]
    exact (List.append_nil _).symm

/-- A closed block is output, and the task goes on to the next one. -/
theorem Shape.takeClosed {t : AsyncLogger} {j : Nat} (h : Shape s (j + 1))
    (hq : t.gLogBufferQueue = (s.setBlock s.gpReadBuffer
      { s.readBuffer with length := 0, fullFlag := false }).gLogBufferQueue)
    (hr : t.gpReadBuffer = s.gpReadBuffer + 1) (hw : t.gpWriteBuffer = s.gpWriteBuffer) :
    Shape t j ∧ s.texts maxNumLogBufferBlock
      = s.readBuffer.text ++ t.texts maxNumLogBufferBlock := by
  have hsix : maxNumLogBufferBlock = 6 := rfl
  -- seen from the next block, the emptied one is the last of the ring
  have hshift : ∀ i < 5, t.block i = s.block (i + 1) := by
    intro i hi
    unfold block
    rw [hq, hr, ringAt_next]
    unfold ringAt setBlock
    apply Function.update_of_ne
    intro he
    have h0 : s.gpReadBuffer + Fin.ofNat maxNumLogBufferBlock (i + 1)
        = s.gpReadBuffer + Fin.ofNat maxNumLogBufferBlock 0 := he.trans (add_zero _).symm
    exact Nat.succ_ne_zero i ((ring_inj (by omega) (by omega)).mp h0)
  have hlast : t.block 5 = { s.readBuffer with length := 0, fullFlag := false } := by
    unfold block
    rw [hq, hr, ringAt_next]
    exact (ringAt_around _ _).trans (Function.update_self ..)
  have hle := h.le
  refine ⟨⟨by omega, ?_, ?_, ?_, fun i hi => ?_, fun i hi hi6 => ?_, fun i hi hi6 => ?_⟩, ?_⟩
  · rw [hq]
    exact forall_setBlock (q := fun i b => b.next = i + 1) h.next (h.next s.gpReadBuffer)
  · rw [hq]
    exact forall_setBlock (q := fun _ => BlockOk) h.ok
      (blockOk_emptied (h.ok s.gpReadBuffer) false)
  · rw [hw, hr, h.write, ofNat_succ, add_assoc]
  · rw [hshift i (by omega)]
    exact h.closed (i + 1) (by omega)
  · rcases Nat.lt_or_eq_of_le (Nat.le_of_lt_succ hi6) with hi5 | rfl
    · rw [hshift i hi5]
      exact h.notFull (i + 1) (by omega) (by omega)
    · rw [hlast]
  · rcases Nat.lt_or_eq_of_le (Nat.le_of_lt_succ hi6) with hi5 | rfl
    · rw [hshift i hi5]
      exact h.empty (i + 1) (by omega) (by omega)
    · rw [hlast]
  · have hnew : t.texts maxNumLogBufferBlock = t.texts 5 := by
      refine (texts_succ t 5).trans ?_
      rw [hlast, text_of_empty rfl, List.append_nil]
    rw [hnew, ← block_zero]
    unfold texts
    rw [show List.range maxNumLogBufferBlock = List.range (5 + 1) from rfl,
      List.range_succ_eq_map, List.flatMap_cons, List.flatMap_map]
    congr 1
    refine List.flatMap_congr fun i hi => ?_
    rw [hshift i (List.mem_range.mp hi)]

/-- **One round of the task** takes the text of `gpReadBuffer` from the beginning of the
unread texts. -/
theorem loggerEntryFunc_next (h : Shape s k) : Next s (loggerEntryFunc s) [] := by
  unfold loggerEntryFunc
  by_cases hwait : s.readBuffer.length = 0
  · rw [if_pos hwait]
    exact Next.refl h
  rw [if_neg hwait]
  have hconsole : s.readBuffer.logData.take (strlen s.readBuffer.logData)
      = s.readBuffer.logData.take s.readBuffer.length :=
    congrArg (s.readBuffer.logData.take ·) ((h.ok s.gpReadBuffer).ended hwait)
  -- in both cases the block is output and emptied
  have hnext : ∀ t : AsyncLogger, t.output = s.output ++ s.readBuffer.text →
      t.console = s.console ++ s.readBuffer.logData.take (strlen s.readBuffer.logData) →
      (∃ j, Shape t j ∧ s.texts maxNumLogBufferBlock
        = s.readBuffer.text ++ t.texts maxNumLogBufferBlock) → Next s t [] := by
    rintro t ho hc ⟨j, hshape, htexts⟩
    refine ⟨⟨j, hshape⟩, ?_, fun hcons => ?_⟩
    · rw [ho, htexts, List.append_nil, List.append_assoc]
    · rw [hc, ho, hcons, hconsole]
      rfl
  by_cases hfull : s.readBuffer.fullFlag = true
  · obtain ⟨j, rfl⟩ : ∃ j, k = j + 1 := by
      apply Nat.exists_eq_succ_of_ne_zero
      rintro rfl
      have := h.notFull 0 (Nat.le_refl 0) (by decide)
      rw [block_zero, hfull] at this
      exact Bool.false_ne_true this.symm
    simp only [if_pos hfull]
    exact hnext _ rfl rfl ⟨j, h.takeClosed rfl (h.next s.gpReadBuffer) rfl⟩
  · obtain rfl : k = 0 := by
      by_contra hne
      have := (h.closed 0 (Nat.pos_of_ne_zero hne)).1
      rw [block_zero] at this
      exact hfull this
    simp only [if_neg hfull]
    exact hnext _ rfl rfl ⟨0, h.takeOpen rfl rfl rfl⟩

/-! ## All sections -/

theorem run_next (h : Shape s k) (x : Section)
    (hsize : config.logBufferingSize ≤ maxLogBlockSize) (hfit : x.Fits config s) :
    Next s (x.run config s) (x.accepted config s) := by
  cases x with
  | asyncWriteMsg r => exact asyncWriteMsg_next h r hsize hfit
  | loggerWriteMem logLevel pBuffer => exact loggerWriteMem_next h logLevel pBuffer hsize hfit
  | loggerEntryFunc => exact loggerEntryFunc_next h

theorem shape_init : Shape initAsyncLogger 0 where
  le := Nat.zero_le _
  next _ := rfl
  ok _ := ⟨List.length_replicate, List.not_mem_nil, fun h => absurd rfl h⟩
  write := rfl
  closed i hi := absurd hi (Nat.not_lt_zero i)
  notFull _ _ _ := rfl
  empty _ _ _ := rfl

/-- The invariant of all runs. -/
theorem Reached.shape (hsize : config.logBufferingSize ≤ maxLogBlockSize) {text : List UInt8}
    (h : Reached config s text) :
    (∃ k, Shape s k) ∧ s.output ++ s.texts maxNumLogBufferBlock = text ∧
      s.console = s.output := by
  induction h with
  | init =>
      refine ⟨⟨0, shape_init⟩, ?_, rfl⟩
      rw [shape_init.texts_of_wait rfl]
      rfl
  | step x _ hfit ih =>
      obtain ⟨⟨k, hk⟩, htext, hcons⟩ := ih
      have hnext := run_next hk x hsize hfit
      exact ⟨hnext.shape, by rw [hnext.kept, htext], hnext.console hcons⟩

/-- **Nothing that is accepted is lost or reordered.** In every state that the sections of
the writers and of the logger task lead to, the blocks are in order, what has been output
and what is still in the blocks are together the accepted texts, and the task waits only
when nothing is unread. `InitAsyncLogger` bounds the size of a block by the size of its
array. -/
theorem async_log_keeps_accepted (hsize : config.logBufferingSize ≤ maxLogBlockSize)
    {text : List UInt8} (h : Reached config s text) :
    s.Ordered ∧ s.output ++ s.unread = text ∧ s.console = s.output ∧
      (s.readBuffer.length = 0 → s.unread = []) := by
  obtain ⟨⟨k, hk⟩, htext, hcons⟩ := h.shape hsize
  refine ⟨hk.ordered, by rw [hk.unread_eq, htext], hcons, fun hwait => ?_⟩
  rw [hk.unread_eq, hk.texts_of_wait hwait]

/-- The task writes no record. -/
theorem fits_loggerEntryFunc (config : LoggerConfig) (s : AsyncLogger) :
    Section.loggerEntryFunc.Fits config s := fun h => absurd h Bool.false_ne_true

/-- A message of two letters. -/
def shortMessage : LogRecord :=
  ⟨.empty, 2, .empty, .empty, ⟨ascii ['t'], by decide⟩, .empty, ⟨ascii ['h', 'i'], by decide⟩⟩

/-- A dump of one byte and a message, which the task outputs, and another dump. -/
theorem async_log_keeps_accepted_three :
    ∃ (s : AsyncLogger) (text : List UInt8), Reached ⟨0, false, false, true, false, 4096⟩ s text ∧
      text = ascii ['a', 'b', ' ', '\n'] ++ shortMessage.text ⟨0, false, false, true, false, 4096⟩
        ++ ascii ['0', '1', ' ', '0', '2', ' ', '\n'] ∧
      s.Ordered ∧ s.output ++ s.unread = text ∧ s.console = s.output ∧
      (s.readBuffer.length = 0 → s.unread = []) := by
  have hsize : 4096 ≤ maxLogBlockSize := by
    unfold maxLogBlockSize
    omega
  have h1 : Reached ⟨0, false, false, true, false, 4096⟩ _ _ :=
    .step (.loggerWriteMem 2 [0xab]) .init fun _ => by decide +kernel
  have h2 := h1.step (.asyncWriteMsg shortMessage) fun _ => by decide +kernel
  have h3 := h2.step .loggerEntryFunc (fits_loggerEntryFunc _ _)
  have h4 := h3.step (.loggerWriteMem 2 [1, 2]) fun _ => by decide +kernel
  exact ⟨_, _, h4, by decide +kernel, async_log_keeps_accepted hsize h4⟩

end LteUlp.Logger
