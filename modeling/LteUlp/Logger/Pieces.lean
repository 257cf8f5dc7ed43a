import LteUlp.Logger.Record

set_option autoImplicit false

/-! # The pieces of a message and the accesses of a writer

`AsyncWriteMsg` and `ProcessLogQueue` put a message together from pieces: bytes that are
copied whatever space there is, and texts that are printed with `snprintf`. Here the pieces
are a list, so that what is proved about one piece carries over to a message, and every store
to the array is recorded.
-/

namespace LteUlp.Logger

/-! ## Pieces -/

/-- A piece of a message: bytes that are copied, or a text that is printed. -/
inductive Piece where
  | put (s : List UInt8)
  | print (s : CString)

/-- The text of a piece. -/
def Piece.text : Piece → List UInt8
  | .put s => s
  | .print s => s.1

/-- Write a piece. -/
def Piece.write (remainBufferSize : Int) (c : Cursor) : Piece → Cursor
  | .put s => c.put s
  | .print s => c.print remainBufferSize s.1

/-- A piece that is only written when a flag of the configuration is set. -/
def Piece.when (flag : Bool) (piece : Piece) : List Piece := if flag then [piece] else []

/-- A text in square brackets, to be printed. -/
def bracketedText (s : CString) : CString := ⟨bracketed s.1, zero_notMem_bracketed s.2⟩

/-- The pieces of `writeHeader`. -/
def headerPieces (config : LoggerConfig) (logLevel : Nat)
    (moduleId threadId fileName funcName : CString) : List Piece :=
  [.put (bracketed (loggerLevelName logLevel))]
    ++ Piece.when config.logModuleNameFlag (.put (bracketed moduleId.1))
    ++ Piece.when config.logThreadIdFlag (.print (bracketedText threadId))
    ++ Piece.when config.logFileNameFlag (.put (bracketed fileName.1))
    ++ [.put (ascii ['-', ' '])]
    ++ Piece.when config.logFuncNameFlag (.put (callBracketed funcName.1))

/-- **The pieces are what `writeHeader` writes.** -/
theorem writeHeader_eq_pieces (c : Cursor) (config : LoggerConfig) (remainBufferSize : Int)
    (logLevel : Nat) (moduleId threadId fileName funcName : CString) :
    c.writeHeader config remainBufferSize logLevel moduleId threadId fileName funcName
      = (headerPieces config logLevel moduleId threadId fileName funcName).foldl
        (Piece.write remainBufferSize) c := by
  unfold Cursor.writeHeader headerPieces
  cases config.logModuleNameFlag <;> cases config.logThreadIdFlag <;>
    cases config.logFileNameFlag <;> cases config.logFuncNameFlag <;> rfl

theorem flatMap_when (flag : Bool) (piece : Piece) :
    (Piece.when flag piece).flatMap Piece.text = flagged flag piece.text := by
  cases flag with
  | true => exact List.flatMap_singleton _ _
  | false => rfl

/-- The texts of the pieces of a header. -/
theorem headerPieces_text (config : LoggerConfig) (logLevel : Nat)
    (moduleId threadId fileName funcName : CString) :
    (headerPieces config logLevel moduleId threadId fileName funcName).flatMap Piece.text
      = headerText config logLevel moduleId threadId fileName funcName := by
  unfold headerPieces headerText
  simp only [List.flatMap_append, flatMap_when, List.flatMap_singleton, Piece.text,
    bracketedText]

/-! ## Accesses -/

/-- An access to the array: a store of bytes, or a size passed to `snprintf`. -/
inductive Access where
  | store (offset length : Nat)
  | size (n : Int)

/-- Every byte is stored below `limit`. -/
def Access.Within (limit : Nat) : Access → Prop
  | .store offset length => ∀ i < length, offset + i < limit
  | .size _ => True

/-- The accesses of a piece. `snprintf` stores at most `size` bytes, with the terminator. -/
def Piece.accesses (remainBufferSize : Int) (c : Cursor) : Piece → List Access
  | .put s => [.store c.logPtr s.length]
  | .print s =>
      [.size (remainBufferSize - c.offset),
        .store c.logPtr (min (sizeT (remainBufferSize - c.offset)) (s.1.length + 1))]

/-- The accesses of one piece after the other. -/
def accesses (remainBufferSize : Int) : List Piece → Cursor → List Access
  | [], _ => []
  | piece :: pieces, c =>
      piece.accesses remainBufferSize c
        ++ accesses remainBufferSize pieces (piece.write remainBufferSize c)

theorem accesses_append (remainBufferSize : Int) (pieces pieces' : List Piece) (c : Cursor) :
    accesses remainBufferSize (pieces ++ pieces') c
      = accesses remainBufferSize pieces c ++ accesses remainBufferSize pieces'
        (pieces.foldl (Piece.write remainBufferSize) c) := by
  induction pieces generalizing c with
  | nil => rfl
  | cons piece pieces ih =>
      show _ ++ accesses remainBufferSize (pieces ++ pieces') _ = _
      rw [ih, ← List.append_assoc]
      rfl

end LteUlp.Logger
