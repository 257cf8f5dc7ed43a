import LteUlp.Logger.Output
import LteUlp.Logger.Pieces

set_option autoImplicit false

/-! # The accesses of a batch to `logBuff`

`ProcessLogQueue` copies one record after the other to an array of 4096 bytes, and stops when
160 bytes or less are left. This margin is tested after a record only: the next message is
copied whatever its length is. Here every store to the array and every size that is given to
`snprintf` is recorded, and a batch keeps inside the array if and only if each message that it
comes to has the space that it needs.
-/

namespace LteUlp.Logger

open Intrusive LogQueue QueueLogger

/-! ## The pieces of a message -/

/-- The pieces up to the content. -/
def msgHeader (config : LoggerConfig) (timestamp : CString) (info : LogMsgInfo) : List Piece :=
  .put (bracketed timestamp.1) :: headerPieces config info.logLevel info.moduleId info.threadId
    info.fileName info.funcName

/-- The content: the stored text, or the format with its arguments. -/
def contentPiece (sprintf : Sprintf) (info : LogMsgInfo) : Piece :=
  if info.logContentFlag then .put info.logContent.1 else .print (sprintf info.fmt info.args)

/-- All pieces of a message. -/
def msgPieces (config : LoggerConfig) (sprintf : Sprintf) (timestamp : CString)
    (info : LogMsgInfo) : List Piece :=
  msgHeader config timestamp info ++ [contentPiece sprintf info]

/-- **The pieces are what `ProcessLogQueue` writes.** -/
theorem copyMsg_eq_pieces (config : LoggerConfig) (sprintf : Sprintf) (timestamp : CString)
    (info : LogMsgInfo) (c : Cursor) :
    c.copyMsg config sprintf timestamp info
      = (msgPieces config sprintf timestamp info).foldl (Piece.write remainLogBuff) c := by
  unfold Cursor.copyMsg msgPieces msgHeader contentPiece
  rw [List.foldl_append, List.foldl_cons, List.foldl_cons, List.foldl_nil,
    ← writeHeader_eq_pieces]
  cases info.logContentFlag <;> rfl

/-! ## Accesses -/

/-- Every byte is stored at an offset below 4096, and the size is positive. -/
def Access.Safe : Access → Prop
  | .store offset length => ∀ i < length, offset + i < 4096
  | .size n => 0 < n

/-- Nothing has gone wrong, and the cursor is at offset `o`. -/
structure Cursor.At (o : Nat) (c : Cursor) : Prop where
  size : c.logData.length = 4096
  logPtr : c.logPtr = o
  offset : c.offset = o
  le : o ≤ 4096

/-- The offset behind a piece: what is printed is cut off. -/
def Piece.next (o : Nat) : Piece → Nat
  | .put s => o + s.length
  | .print s => o + min s.1.length (4094 - o)

/-- A piece has the space that it needs. -/
def Piece.Fits (o : Nat) : Piece → Prop
  | .put s => o + s.length ≤ 4096
  | .print _ => o < 4095

variable {o : Nat} {c : Cursor}

theorem Cursor.At.write (h : c.At o) {piece : Piece} (hfit : piece.Fits o) :
    (piece.write remainLogBuff c).At (piece.next o) := by
  cases piece with
  | put s =>
      have hle : o + s.length ≤ 4096 := hfit
      refine ⟨?_, ?_, ?_, hle⟩
      · show (copyText c.logData c.logPtr s).length = 4096
        rw [length_copyText (by rw [h.logPtr, h.size]; exact hle), h.size]
      · show c.logPtr + s.length = o + s.length
        rw [h.logPtr]
      · show c.offset + s.length = o + s.length
        rw [h.offset]
  | print s =>
      have hlt : o < 4095 := hfit
      have hlog : c.logData.length = 4096 := h.size
      have hsize : sizeT ((remainLogBuff : Int) - c.offset) = 4095 - o := by
        rw [h.offset, remainLogBuff, sizeT_of_nonneg (by omega) (by omega)]
        omega
      have htext : (0 : UInt8) ∉ s.1.take (4095 - o - 1) := fun hmem =>
        s.2 (List.mem_of_mem_take hmem)
      have hlen : (s.1.take (4095 - o - 1)).length = min s.1.length (4094 - o) := by
        rw [List.length_take]
        omega
      have hm : Stored c.logData (snprintf c.logData o (4095 - o) s.1) o
          ([] ++ (s.1.take (4095 - o - 1) ++ [0])) := by
        unfold snprintf
        rw [if_neg (by omega)]
        refine (Stored.nil c.logData o).append ?_
        rw [List.length_append, hlen, List.length_nil, List.length_singleton]
        omega
      have hstrlen : strlen ((snprintf c.logData o (4095 - o) s.1).drop o)
          = min s.1.length (4094 - o) := by
        rw [← hlen]
        exact hm.strlen (by omega) htext
      have hdata : snprintf c.logData c.logPtr (sizeT ((remainLogBuff : Int) - c.offset)) s.1
          = snprintf c.logData o (4095 - o) s.1 := by rw [h.logPtr, hsize]
      have hnext : c.print remainLogBuff s.1 = ⟨snprintf c.logData o (4095 - o) s.1,
          o + min s.1.length (4094 - o), o + min s.1.length (4094 - o)⟩ := by
        unfold Cursor.print Cursor.skip
        rw [hdata, h.logPtr, h.offset, hstrlen]
      show (c.print remainLogBuff s.1).At (o + min s.1.length (4094 - o))
      rw [hnext]
      refine ⟨hm.length.trans hlog, rfl, rfl, ?_⟩
      omega

/-- **The accesses of a piece** are safe if and only if it has the space that it needs. -/
theorem Cursor.At.safe_iff (h : c.At o) (piece : Piece) :
    (∀ a ∈ piece.accesses remainLogBuff c, a.Safe) ↔ piece.Fits o := by
  have hle := h.le
  cases piece with
  | put s =>
      simp only [Piece.accesses, List.mem_singleton, forall_eq, Access.Safe, Piece.Fits,
        h.logPtr]
      constructor
      · intro hstore
        by_contra hfit
        have := hstore (s.length - 1) (by omega)
        omega
      · intro hfit i hi
        omega
  | print s =>
      simp only [Piece.accesses, List.mem_cons, List.not_mem_nil, or_false, forall_eq_or_imp,
        forall_eq, Access.Safe, Piece.Fits, h.logPtr, h.offset, remainLogBuff]
      constructor
      · intro hboth
        omega
      · intro hlt
        have hsize : sizeT ((4095 : Nat) - (o : Int)) = 4095 - o := by
          rw [sizeT_of_nonneg (by omega) (by omega)]
          omega
        refine ⟨by omega, fun i hi => ?_⟩
        rw [hsize] at hi
        omega

/-- All pieces have the space that they need, one behind the other. -/
def PiecesFit : Nat → List Piece → Prop
  | _, [] => True
  | o, piece :: pieces => piece.Fits o ∧ PiecesFit (piece.next o) pieces

/-- The offset behind all pieces. -/
def endOffset (o : Nat) (pieces : List Piece) : Nat := pieces.foldl Piece.next o

theorem Cursor.At.pieces (h : c.At o) {pieces : List Piece} (hfit : PiecesFit o pieces) :
    (pieces.foldl (Piece.write remainLogBuff) c).At (endOffset o pieces) := by
  induction pieces generalizing o c with
  | nil => exact h
  | cons piece pieces ih => exact ih (h.write hfit.1) hfit.2

theorem Cursor.At.pieces_safe_iff (h : c.At o) (pieces : List Piece) :
    (∀ a ∈ accesses remainLogBuff pieces c, a.Safe) ↔ PiecesFit o pieces := by
  induction pieces generalizing o c with
  | nil => simp [accesses, PiecesFit]
  | cons piece pieces ih =>
      have hcons : (∀ a ∈ accesses remainLogBuff (piece :: pieces) c, a.Safe) ↔
          (∀ a ∈ piece.accesses remainLogBuff c, a.Safe) ∧
            ∀ a ∈ accesses remainLogBuff pieces (piece.write remainLogBuff c), a.Safe := by
        simp only [accesses, List.mem_append, or_imp, forall_and]
      rw [hcons, h.safe_iff]
      exact and_congr_right fun hfit => ih (h.write hfit)

theorem piecesFit_append (o : Nat) (pieces pieces' : List Piece) :
    PiecesFit o (pieces ++ pieces') ↔
      PiecesFit o pieces ∧ PiecesFit (endOffset o pieces) pieces' := by
  induction pieces generalizing o with
  | nil => exact (iff_of_eq (true_and _)).symm
  | cons piece pieces ih =>
      show piece.Fits o ∧ PiecesFit (piece.next o) (pieces ++ pieces') ↔ _
      rw [ih, ← and_assoc]
      rfl

theorem endOffset_append (o : Nat) (pieces pieces' : List Piece) :
    endOffset o (pieces ++ pieces') = endOffset (endOffset o pieces) pieces' :=
  List.foldl_append

theorem piecesFit_single (o : Nat) (piece : Piece) : PiecesFit o [piece] ↔ piece.Fits o :=
  iff_of_eq (and_true _)

/-! ## A message -/

/-- The text up to the content. -/
def headLength (config : LoggerConfig) (timestamp : CString) (info : LogMsgInfo) : Nat :=
  (bracketed timestamp.1 ++ headerText config info.logLevel info.moduleId info.threadId
    info.fileName info.funcName).length

/-- A message has the space that it needs at offset `o`: a stored content with the terminator,
or at least one byte for a content that is printed. -/
def MsgFits (config : LoggerConfig) (timestamp : CString) (info : LogMsgInfo) (o : Nat) :
    Prop :=
  if info.logContentFlag then
    o + headLength config timestamp info + info.logContent.1.length < 4096
  else o + headLength config timestamp info < 4095

/-- The lengths of the parts of a header. -/
theorem headLength_eq (config : LoggerConfig) (timestamp : CString) (info : LogMsgInfo) :
    headLength config timestamp info
      = (bracketed timestamp.1).length + (bracketed (loggerLevelName info.logLevel)).length
        + (flagged config.logModuleNameFlag (bracketed info.moduleId.1)).length
        + (flagged config.logThreadIdFlag (bracketed info.threadId.1)).length
        + (flagged config.logFileNameFlag (bracketed info.fileName.1)).length + 2
        + (flagged config.logFuncNameFlag (callBracketed info.funcName.1)).length := by
  simp only [headLength, headerText, List.length_append, ascii, List.map, List.length_cons,
    List.length_nil]
  omega

/-- A thread id is the only part of a header that is printed. -/
theorem msgHeader_fit (config : LoggerConfig) (timestamp : CString) (info : LogMsgInfo)
    (h : o + headLength config timestamp info ≤ 4095) :
    PiecesFit o (msgHeader config timestamp info) ∧
      endOffset o (msgHeader config timestamp info)
        = o + headLength config timestamp info := by
  revert h
  rw [headLength_eq]
  unfold msgHeader headerPieces Piece.when flagged
  cases config.logModuleNameFlag <;> cases config.logThreadIdFlag <;>
    cases config.logFileNameFlag <;> cases config.logFuncNameFlag <;>
    simp only [PiecesFit, endOffset, List.foldl_cons, List.foldl_nil, Piece.next, Piece.Fits,
      if_true, if_false, List.append_nil, List.cons_append, List.nil_append, bracketedText,
      List.length_nil, ascii, List.map, List.length_cons, Bool.false_eq_true, and_true] <;>
    omega

/-- **A header** fits without being cut off if and only if there is space for it. What a
thread id loses at the end of `logBuff` is missed by the two bytes behind it. -/
theorem msgHeader_fit_iff (config : LoggerConfig) (timestamp : CString)
    (info : LogMsgInfo) :
    PiecesFit o (msgHeader config timestamp info) ∧
        endOffset o (msgHeader config timestamp info) ≤ 4095 ↔
      o + headLength config timestamp info ≤ 4095 := by
  constructor
  · rw [headLength_eq]
    unfold msgHeader headerPieces Piece.when flagged
    cases config.logModuleNameFlag <;> cases config.logThreadIdFlag <;>
      cases config.logFileNameFlag <;> cases config.logFuncNameFlag <;>
      simp only [PiecesFit, endOffset, List.foldl_cons, List.foldl_nil, Piece.next, Piece.Fits,
        if_true, if_false, List.append_nil, List.cons_append, List.nil_append, bracketedText,
        List.length_nil, ascii, List.map, List.length_cons, Bool.false_eq_true, and_true] <;>
      omega
  · intro h
    obtain ⟨hfit, hend⟩ := msgHeader_fit config timestamp info h
    exact ⟨hfit, hend.le.trans h⟩

variable {config : LoggerConfig} {sprintf : Sprintf} {timestamp : CString}

/-- The length of the text of a message. -/
theorem length_text_msg {node : LogInfo} (htype : node.contentType = .logMsgType) :
    (node.text config sprintf timestamp).length
      = headLength config timestamp node.logMsgInfo
        + (contentPiece sprintf node.logMsgInfo).text.length := by
  unfold LogInfo.text contentPiece
  rw [htype]
  dsimp only
  rw [List.length_append]
  cases node.logMsgInfo.logContentFlag <;> rfl

/-- **A message** that has the space that it needs ends below 4096, and behind its text or at
the last byte that `snprintf` stores. -/
theorem msgPieces_fit (sprintf : Sprintf) (info : LogMsgInfo) (hfit : MsgFits config timestamp info o) :
    PiecesFit o (msgPieces config sprintf timestamp info) ∧
      endOffset o (msgPieces config sprintf timestamp info) ≤ 4095 ∧
      (endOffset o (msgPieces config sprintf timestamp info)
          = o + (headLength config timestamp info + (contentPiece sprintf info).text.length) ∨
        endOffset o (msgPieces config sprintf timestamp info) = 4094 ∧
          4094 ≤ o + (headLength config timestamp info
            + (contentPiece sprintf info).text.length)) := by
  have hhead : o + headLength config timestamp info ≤ 4095 := by
    unfold MsgFits at hfit
    split at hfit <;> omega
  obtain ⟨hpieces, hend⟩ := msgHeader_fit config timestamp info hhead
  unfold msgPieces
  rw [piecesFit_append, piecesFit_single, endOffset_append, hend]
  refine ⟨⟨hpieces, ?_⟩, ?_⟩
  all_goals
    unfold MsgFits at hfit
    unfold contentPiece
    cases hflag : info.logContentFlag with
    | true =>
        simp only [hflag, if_true, endOffset, List.foldl_cons, List.foldl_nil, Piece.next,
          Piece.Fits, Piece.text] at hfit ⊢
        omega
    | false =>
        simp only [hflag, Bool.false_eq_true, if_false, endOffset, List.foldl_cons,
          List.foldl_nil, Piece.next, Piece.Fits, Piece.text] at hfit ⊢
        omega

/-- A message that does not have the space that it needs. -/
theorem MsgFits.of_piecesFit (info : LogMsgInfo)
    (hpieces : PiecesFit o (msgPieces config sprintf timestamp info))
    (hend : endOffset o (msgPieces config sprintf timestamp info) ≤ 4095) :
    MsgFits config timestamp info o := by
  unfold msgPieces at hpieces hend
  rw [piecesFit_append, piecesFit_single] at hpieces
  rw [endOffset_append] at hend
  obtain ⟨hheader, hcontent⟩ := hpieces
  have hhead : endOffset o (msgHeader config timestamp info) ≤ 4095 := by
    cases hpiece : contentPiece sprintf info with
    | put s =>
        rw [hpiece] at hend
        exact (Nat.le_add_right _ _).trans hend
    | print s =>
        rw [hpiece] at hcontent
        exact Nat.le_of_lt hcontent
  have hle := (msgHeader_fit_iff config timestamp info).mp ⟨hheader, hhead⟩
  have hoffset := (msgHeader_fit config timestamp info hle).2
  rw [hoffset] at hend hcontent
  unfold MsgFits
  unfold contentPiece at hend hcontent
  cases hflag : info.logContentFlag with
  | true =>
      rw [hflag] at hend
      rw [if_pos rfl]
      exact Nat.lt_succ_of_le hend
  | false =>
      rw [hflag] at hcontent
      rw [if_neg Bool.false_ne_true]
      exact hcontent

/-! ## A batch -/

/-- The accesses of the copying of a record. -/
def infoAccesses (config : LoggerConfig) (sprintf : Sprintf) (timestamp : CString)
    (node : LogInfo) (c : Cursor) : List Access :=
  match node.contentType with
  | .logMsgType => accesses remainLogBuff (msgPieces config sprintf timestamp node.logMsgInfo) c
  | .logMemType => [.store c.logPtr (strlen node.logMem)]

/-- The test behind a record that has been copied: the loop goes on with `rest`, or the text
is ended. -/
def afterRecord (rest : Cursor → List Access) (c : Cursor) : List Access :=
  if remainLogBuff ≤ c.offset + maxTimestampLength + 128 then [.store c.logPtr 1] else rest c

/-- The accesses of `ProcessLogQueue` when its loop takes `nodes` from the busy queue, from a
cursor on. The last one is that of the terminator. -/
def processLogQueue (config : LoggerConfig) (sprintf : Sprintf) (timestamp : CString) :
    List LogInfo → Cursor → List Access
  | [], c => [.store c.logPtr 1]
  | node :: nodes, c =>
      match c.copyInfo config sprintf timestamp node with
      | none => [.store c.logPtr 1]
      | some c' =>
          infoAccesses config sprintf timestamp node c
            ++ afterRecord (processLogQueue config sprintf timestamp nodes) c'

/-- A text may follow behind offset `o`. -/
def Continues (o : Nat) : Prop := o + maxTimestampLength + 128 < remainLogBuff

/-- Each message that the loop comes to has the space that it needs, when the texts of the
records before it end at `o`. -/
def BatchFits (config : LoggerConfig) (sprintf : Sprintf) (timestamp : CString) :
    Nat → List LogInfo → Prop
  | _, [] => True
  | o, node :: nodes =>
      (node.contentType = .logMsgType → MsgFits config timestamp node.logMsgInfo o) ∧
        (Continues (o + (node.text config sprintf timestamp).length) →
          BatchFits config sprintf timestamp
            (o + (node.text config sprintf timestamp).length) nodes)

/-- The terminator. -/
theorem terminator_safe_iff (h : c.logPtr = o) :
    (∀ a ∈ [Access.store c.logPtr 1], a.Safe) ↔ o ≤ 4095 := by
  simp only [List.mem_singleton, forall_eq, Access.Safe, h]
  constructor
  · intro hstore
    have := hstore 0 (by omega)
    omega
  · intro hle i hi
    omega

section Record

variable {node : LogInfo} {rest : Cursor → List Access} {Rest : Nat → Prop} {n : Nat}

/-- **What follows a record** that ends at `n`, or that has been cut off. -/
theorem Cursor.At.afterRecord (h : c.At o) (hle : o ≤ 4095)
    (hn : o = n ∨ o = 4094 ∧ 4094 ≤ n)
    (hrest : ∀ {o c}, o ≤ 4095 → Cursor.At o c → ((∀ a ∈ rest c, a.Safe) ↔ Rest o)) :
    (∀ a ∈ afterRecord rest c, a.Safe) ↔ (Continues n → Rest n) := by
  unfold Logger.afterRecord Continues
  rw [h.offset]
  have hmax : maxTimestampLength = 32 := rfl
  have hbuff : remainLogBuff = 4095 := rfl
  by_cases hmargin : remainLogBuff ≤ o + maxTimestampLength + 128
  · rw [if_pos hmargin]
    refine iff_of_true ((terminator_safe_iff h.logPtr).mpr hle) fun hlt => ?_
    omega
  · rw [if_neg hmargin, hrest hle h]
    obtain rfl : o = n := by omega
    exact (imp_iff_right (Nat.lt_of_not_le hmargin)).symm

/-- **A message and what follows it.** -/
theorem Cursor.At.message (h : c.At o) (htype : node.contentType = .logMsgType)
    (hrest : ∀ {o c}, o ≤ 4095 → Cursor.At o c → ((∀ a ∈ rest c, a.Safe) ↔ Rest o)) :
    (∀ a ∈ infoAccesses config sprintf timestamp node c ++ Logger.afterRecord rest
        (c.copyMsg config sprintf timestamp node.logMsgInfo), a.Safe) ↔
      MsgFits config timestamp node.logMsgInfo o ∧
        (Continues (o + (node.text config sprintf timestamp).length) →
          Rest (o + (node.text config sprintf timestamp).length)) := by
  rw [copyMsg_eq_pieces, length_text_msg htype, List.forall_mem_append]
  unfold infoAccesses
  rw [htype]
  dsimp only
  rw [h.pieces_safe_iff]
  constructor
  · intro hsafe
    obtain ⟨hpieces, htail⟩ := hsafe
    have hat := h.pieces hpieces
    -- the terminator, or the margin, leaves a byte
    have hend : endOffset o (msgPieces config sprintf timestamp node.logMsgInfo) ≤ 4095 := by
      have hbuff : remainLogBuff = 4095 := rfl
      unfold Logger.afterRecord at htail
      split at htail
      · exact (terminator_safe_iff hat.logPtr).mp htail
      · rename_i hmargin
        rw [hat.offset] at hmargin
        omega
    have hfit := MsgFits.of_piecesFit node.logMsgInfo hpieces hend
    obtain ⟨-, -, hoffset⟩ := msgPieces_fit sprintf node.logMsgInfo hfit
    exact ⟨hfit, (hat.afterRecord hend hoffset hrest).mp htail⟩
  · intro hfits
    obtain ⟨hfit, htail⟩ := hfits
    obtain ⟨hpieces, hend, hoffset⟩ := msgPieces_fit sprintf node.logMsgInfo hfit
    exact ⟨hpieces, ((h.pieces hpieces).afterRecord hend hoffset hrest).mpr htail⟩

/-- The length of a dump. -/
theorem length_text_mem (htype : node.contentType = .logMemType) :
    (node.text config sprintf timestamp).length = strlen node.logMem := by
  unfold LogInfo.text
  rw [htype]
  exact List.length_take_of_le (strlen_le _)

/-- **A memory dump and what follows it.** -/
theorem Cursor.At.dump (h : c.At o) (htype : node.contentType = .logMemType)
    (hroom : o + strlen node.logMem < 4096)
    (hrest : ∀ {o c}, o ≤ 4095 → Cursor.At o c → ((∀ a ∈ rest c, a.Safe) ↔ Rest o)) :
    (∀ a ∈ infoAccesses config sprintf timestamp node c ++ Logger.afterRecord rest
        (c.put (node.logMem.take (strlen node.logMem))), a.Safe) ↔
      (Continues (o + (node.text config sprintf timestamp).length) →
        Rest (o + (node.text config sprintf timestamp).length)) := by
  have htake : (node.logMem.take (strlen node.logMem)).length = strlen node.logMem :=
    List.length_take_of_le (strlen_le _)
  have hfit : (Piece.put (node.logMem.take (strlen node.logMem))).Fits o := by
    show o + (node.logMem.take (strlen node.logMem)).length ≤ 4096
    rw [htake]
    exact Nat.le_of_lt hroom
  have hat : (c.put (node.logMem.take (strlen node.logMem))).At (o + strlen node.logMem) := by
    have := h.write hfit
    rwa [Piece.next, htake] at this
  have hstore : ∀ a ∈ infoAccesses config sprintf timestamp node c, a.Safe := by
    have := (h.safe_iff _).mpr hfit
    unfold infoAccesses
    rw [htype]
    rwa [Piece.accesses, htake] at this
  rw [List.forall_mem_append, and_iff_right hstore, length_text_mem htype]
  exact hat.afterRecord (Nat.le_of_lt_succ hroom) (Or.inl rfl) hrest

end Record

theorem Cursor.At.batch_safe_iff (h : c.At o) (hle : o ≤ 4095) (nodes : List LogInfo) :
    (∀ a ∈ processLogQueue config sprintf timestamp nodes c, a.Safe) ↔
      BatchFits config sprintf timestamp o nodes := by
  induction nodes generalizing o c with
  | nil => exact iff_of_true ((terminator_safe_iff h.logPtr).mpr hle) trivial
  | cons node nodes ih =>
      have hrest : ∀ {o c}, o ≤ 4095 → Cursor.At o c →
          ((∀ a ∈ processLogQueue config sprintf timestamp nodes c, a.Safe) ↔
            BatchFits config sprintf timestamp o nodes) := fun hle' h' => ih h' hle'
      unfold BatchFits processLogQueue Cursor.copyInfo
      cases htype : node.contentType with
      | logMsgType =>
          rw [imp_iff_right rfl]
          exact h.message htype hrest
      | logMemType =>
          rw [and_iff_right nofun, h.offset]
          by_cases hroom : 4096 ≤ o + strlen node.logMem
          · -- the dump stays in the queue
            simp only [if_pos hroom]
            refine iff_of_true ((terminator_safe_iff h.logPtr).mpr hle) fun hmargin => ?_
            rw [length_text_mem htype, Continues] at hmargin
            have hbuff : remainLogBuff = 4095 := rfl
            omega
          · simp only [if_neg hroom]
            exact h.dump htype (Nat.lt_of_not_le hroom) hrest

/-! ## The logger task -/

section Rounds

variable {θ : Type}

/-- The accesses of a step of the logger task. -/
def taskAccesses (config : LoggerConfig) (sprintf : Sprintf) (s : QueueLogger θ) :
    List Access :=
  match s.task with
  | .waiting | .entered => []
  | .looping count _ c =>
      if 0 < count ∧ (s.queuePopNode gBusyLogInfoQueue).2 ≠ none then []
      else [.store c.logPtr 1]
  | .popped a _ timestamp c =>
      if c.copyInfo config sprintf timestamp (s.gLogInfoNodeArray a) = none then
        [.store c.logPtr 1]
      else infoAccesses config sprintf timestamp (s.gLogInfoNodeArray a) c
  | .copied _ _ _ c => afterRecord (fun _ => []) c

/-- The accesses of `k` steps. -/
def roundAccesses (config : LoggerConfig) (sprintf : Sprintf) (timestamp : CString) :
    Nat → QueueLogger θ → List Access
  | 0, _ => []
  | k + 1, s => taskAccesses config sprintf s
      ++ roundAccesses config sprintf timestamp k (s.taskStep config sprintf timestamp)

variable {s : QueueLogger θ} {lists : LogQueue → List LogNode} {ts : CString} {count : Nat}

theorem roundAccesses_succ (k : Nat) (s : QueueLogger θ) :
    roundAccesses config sprintf timestamp (k + 1) s = taskAccesses config sprintf s
      ++ roundAccesses config sprintf timestamp k (s.taskStep config sprintf timestamp) := rfl

/-- From a node that is taken on: it is copied and given back. -/
theorem popped_accesses {a : LogNode} {n : Nat} (nodes : List LogInfo) (hp : Placed s lists)
    (htask : s.task = .popped a (n + 1) ts c)
    (hrest : ∀ {t : QueueLogger θ} {lists' c'}, Placed t lists' → t.task = .looping n ts c' →
      lists' gBusyLogInfoQueue = lists gBusyLogInfoQueue →
      t.gLogInfoNodeArray = s.gLogInfoNodeArray →
      ∃ k, roundAccesses config sprintf timestamp k t
        = processLogQueue config sprintf ts nodes c') :
    ∃ k, roundAccesses config sprintf timestamp k s
      = processLogQueue config sprintf ts (s.gLogInfoNodeArray a :: nodes) c := by
  unfold processLogQueue
  cases hcopy : c.copyInfo config sprintf ts (s.gLogInfoNodeArray a) with
  | none =>
      refine ⟨1, ?_⟩
      rw [roundAccesses_succ, taskAccesses, htask]
      dsimp only
      rw [if_pos hcopy]
      rfl
  | some c' =>
      have hstep : s.taskStep config sprintf timestamp
          = { s with task := .copied a (n + 1) ts c' } := by
        unfold taskStep
        rw [htask]
        dsimp only
        rw [hcopy]
      have hcopied : Placed { s with task := .copied a (n + 1) ts c' } lists := by
        refine hp.stay rfl (hand_congr rfl ?_)
        rw [htask]
        rfl
      have hinfo : taskAccesses config sprintf s
          = infoAccesses config sprintf ts (s.gLogInfoNodeArray a) c := by
        rw [taskAccesses, htask]
        dsimp only
        rw [hcopy, if_neg (Option.some_ne_none c')]
      by_cases hmargin : remainLogBuff ≤ c'.offset + maxTimestampLength + 128
      · refine ⟨2, ?_⟩
        rw [roundAccesses_succ, roundAccesses_succ, hstep, hinfo]
        dsimp only
        rw [afterRecord, if_pos hmargin, taskAccesses]
        dsimp only
        rw [afterRecord, if_pos hmargin]
        rfl
      · have hnext : ({ s with task := .copied a (n + 1) ts c' } : QueueLogger θ).taskStep config
            sprintf timestamp = { s.queuePushNode gIdleLogInfoQueue a with
              task := .looping n ts c' } := by
          unfold taskStep
          dsimp only
          rw [if_neg hmargin]
          rfl
        have hgiven : Placed { s.queuePushNode gIdleLogInfoQueue a with
            task := .looping n ts c' } (Function.update lists gIdleLogInfoQueue
              (lists gIdleLogInfoQueue ++ [a])) := by
          exact hcopied.push (x := .task) rfl rfl rfl (hand_of_ne_task rfl)
        obtain ⟨k, hk⟩ := hrest hgiven rfl (Function.update_of_ne (by decide) _ _) rfl
        refine ⟨k + 2, ?_⟩
        rw [roundAccesses_succ, roundAccesses_succ, hstep, hinfo, hnext, hk, taskAccesses]
        dsimp only
        rw [afterRecord, if_neg hmargin, afterRecord, if_neg hmargin, List.nil_append]

/-- The steps of the task from the head of its loop to the end of the round access `logBuff`
as `processLogQueue` does. -/
theorem roundAccesses_eq (hp : Placed s lists) (xs : List LogNode) {ys : List LogNode}
    (htask : s.task = .looping xs.length ts c)
    (hlists : lists gBusyLogInfoQueue = xs ++ ys) :
    ∃ k, roundAccesses config sprintf timestamp k s
      = processLogQueue config sprintf ts (xs.map s.gLogInfoNodeArray) c := by
  induction xs generalizing s lists c with
  | nil =>
      refine ⟨1, ?_⟩
      unfold roundAccesses roundAccesses taskAccesses
      rw [htask]
      rfl
  | cons a xs ih =>
      have hxs : lists gBusyLogInfoQueue = a :: (xs ++ ys) := hlists
      -- the node is taken from the busy queue
      have hpop : s.queuePopNode gBusyLogInfoQueue
          = ((s.queuePopNode gBusyLogInfoQueue).1, some a) := by
        rcases hp.popped gBusyLogInfoQueue with ⟨hnil, -⟩ | ⟨b, zs, hb, hpop⟩
        · rw [hxs] at hnil
          exact absurd hnil (List.cons_ne_nil _ _)
        · rw [hxs] at hb
          rw [(List.cons.inj hb).1]
          exact hpop
      have htake : s.taskStep config sprintf timestamp
          = { (s.queuePopNode gBusyLogInfoQueue).1 with
              task := .popped a (xs.length + 1) ts c } := by
        unfold taskStep
        rw [htask]
        dsimp only
        rw [if_pos (List.length_pos_of_ne_nil (List.cons_ne_nil a xs)), hpop]
        rfl
      have hp' : Placed (s.taskStep config sprintf timestamp)
          (Function.update lists gBusyLogInfoQueue (xs ++ ys)) := by
        rw [htake]
        refine hp.pop (x := .task) hxs ?_ rfl rfl (hand_of_ne_task rfl)
        show s.task.nodes = []
        rw [htask]
        rfl
      have harray : (s.taskStep config sprintf timestamp).gLogInfoNodeArray
          = s.gLogInfoNodeArray := by rw [htake]; rfl
      have htask' : (s.taskStep config sprintf timestamp).task
          = .popped a (xs.length + 1) ts c := by rw [htake]
      obtain ⟨k, hk⟩ := popped_accesses (xs.map s.gLogInfoNodeArray) hp' htask'
        fun hgiven htask'' hbusy harray' => by
          rw [harray] at harray'
          rw [← harray']
          exact ih hgiven htask'' (by rw [hbusy, Function.update_self])
      refine ⟨k + 1, ?_⟩
      rw [roundAccesses_succ, hk, harray, taskAccesses, htask]
      dsimp only
      rw [hpop, if_pos ⟨Nat.succ_pos _, Option.some_ne_none a⟩, List.map_cons, List.nil_append]

end Rounds

/-! ## When a batch fits -/

/-- **A batch keeps inside `logBuff`** if and only if each message that the loop comes to has
the space that it needs. Then every byte is stored below 4096, every size is positive and the
terminator fits. -/
theorem processLogQueue_safe_iff (config : LoggerConfig) (sprintf : Sprintf)
    (timestamp : CString) (records : List LogInfo) :
    (∀ a ∈ processLogQueue config sprintf timestamp records ⟨emptyLogBuff, 0, 0⟩, a.Safe) ↔
      BatchFits config sprintf timestamp 0 records :=
  Cursor.At.batch_safe_iff ⟨length_emptyLogBuff, rfl, rfl, Nat.zero_le _⟩ (Nat.zero_le _)
    records

instance (o : Nat) : Decidable (Continues o) := inferInstanceAs (Decidable (_ < _))

instance (config : LoggerConfig) (timestamp : CString) (info : LogMsgInfo) (o : Nat) :
    Decidable (MsgFits config timestamp info o) :=
  inferInstanceAs (Decidable (ite _ _ _))

/-- The same message again and again: the loop goes on until there is no space for it. -/
theorem not_batchFits_replicate {node : LogInfo} (htype : node.contentType = .logMsgType)
    {n : Nat} (hlen : (node.text config sprintf timestamp).length = n) (k o : Nat)
    (hcont : Continues (o + k * n))
    (hfit : ¬ MsgFits config timestamp node.logMsgInfo (o + k * n)) :
    ¬ BatchFits config sprintf timestamp o (List.replicate (k + 1) node) := by
  induction k generalizing o with
  | zero =>
      intro h
      rw [Nat.zero_mul] at hfit
      exact hfit (h.1 htype)
  | succ k ih =>
      intro h
      have hnext : o + (k + 1) * n = o + n + k * n := by
        rw [Nat.succ_mul]
        omega
      rw [hnext] at hcont hfit
      have hgo : Continues (o + n) := by
        unfold Continues at hcont ⊢
        omega
      have htail := h.2
      rw [hlen] at htail
      exact ih (o + n) hcont hfit (htail hgo)

/-- A text of 300 letters. -/
def letters : CString :=
  ⟨List.replicate 300 97, fun h => absurd (List.eq_of_mem_replicate h) (by decide)⟩

/-- A message with a text of 300 bytes, as a writer stores it. -/
def longMessage : LogInfo :=
  fillNode ⟨2, true, true, true, false, 4096⟩ initLogInfo
    (.loggerWriteMsg ⟨ascii ['R', 'L', 'C'], by decide⟩ 2
      ⟨ascii ['l', 't', 'e', 'R', 'l', 'c', '.', 'c'], by decide⟩
      ⟨ascii ['R', 'l', 'c', 'P', 'r', 'o', 'c', 'e', 's', 's', 'R', 'x'], by decide⟩
      .empty ⟨ascii ['%', 's'], by decide⟩ (fun _ => 0) letters)

/-- **Thirteen long messages** run over the end of `logBuff`. -/
theorem longMessages_overrun :
    ¬ ∀ a ∈ processLogQueue ⟨2, true, true, true, false, 4096⟩ (fun fmt _ => fmt)
      ⟨List.replicate 23 50, by simp⟩ (List.replicate 13 longMessage) ⟨emptyLogBuff, 0, 0⟩,
        a.Safe := by
  rw [Cursor.At.batch_safe_iff ⟨length_emptyLogBuff, rfl, rfl, Nat.zero_le _⟩ (Nat.zero_le _)]
  refine not_batchFits_replicate rfl (n := 324) ?_ 12 0 ?_ ?_
  · decide +kernel
  · decide
  · decide +kernel

end LteUlp.Logger
