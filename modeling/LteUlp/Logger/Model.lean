import LteUlp.Basic.CString
import LteUlp.Basic.Ring

set_option autoImplicit false

/-! # The logger of `logger.c`: texts and the six buffers of type 1

A record is put together in place, in the buffer it is logged to. With asynchronous log
type 1 this is one of the six blocks `gLogBufferQueue`, linked to a ring: the writers fill
the block `gpWriteBuffer`, the logger task outputs the block `gpReadBuffer`. Each writer and
each round of the task runs under `gLoggerMutex`, so each is one function on the state here.

The time and the thread are not part of the state: a record comes with the text of its time
stamp and of its thread id, and with the text that `vsnprintf` makes of its format and its
arguments. The signals to the task have no effect on the state and are left out.
-/

namespace LteUlp.Logger

/-! ## The configuration -/

/-- `LoggerConfig`, the fields that the functions below read. -/
structure LoggerConfig where
  logLevel : Nat
  logModuleNameFlag : Bool
  logFileNameFlag : Bool
  logFuncNameFlag : Bool
  logThreadIdFlag : Bool
  logBufferingSize : Nat

/-- `E_LOG_LVL_MAX`. -/
def logLvlMax : Nat := 5

/-- `MAX_LOG_BLOCK_SIZE`. -/
def maxLogBlockSize : Nat := 1024 * 16

/-- `MAX_TIMESTAMP_LENGTH`. -/
def maxTimestampLength : Nat := 32

/-- `MAX_NUM_LOG_BUFFER_BLOCK`. -/
abbrev maxNumLogBufferBlock : Nat := 6

instance : NeZero maxNumLogBufferBlock := ⟨by decide⟩

/-- `gLoggerLevelName_s`. -/
def loggerLevelName : Nat → List UInt8
  | 0 => ascii ['T', 'R', 'A', 'C', 'E']
  | 1 => ascii ['D', 'E', 'B', 'U', 'G']
  | 2 => ascii ['I', 'N', 'F', 'O', ' ']
  | 3 => ascii ['W', 'A', 'R', 'N', ' ']
  | 4 => ascii ['E', 'R', 'R', 'O', 'R']
  | _ => []

/-- The level test that both `LoggerWriteMsg` and `LoggerWriteMem` begin with. -/
def LoggerConfig.logs (config : LoggerConfig) (logLevel : Nat) : Prop :=
  config.logLevel ≤ logLevel ∧ logLevel < logLvlMax

instance (config : LoggerConfig) (logLevel : Nat) : Decidable (config.logs logLevel) :=
  inferInstanceAs (Decidable (_ ∧ _))

/-! ## A message -/

/-- What one call of `LoggerWriteMsg` logs. `content` is the text of `fmt` and `args`. -/
structure LogRecord where
  moduleId : CString
  logLevel : Nat
  fileName : CString
  funcName : CString
  timestamp : CString
  threadId : CString
  content : CString

/-- A text in square brackets, followed by a blank. -/
def bracketed (s : List UInt8) : List UInt8 := ascii ['['] ++ s ++ ascii [']', ' ']

/-- The function name as it is logged. -/
def callBracketed (s : List UInt8) : List UInt8 := ascii ['['] ++ s ++ ascii [']', ',', ' ']

/-- `text` when `flag` is set. -/
def flagged (flag : Bool) (text : List UInt8) : List UInt8 := if flag then text else []

/-- What comes between the time stamp of a record and its content. -/
def headerText (config : LoggerConfig) (logLevel : Nat)
    (moduleId threadId fileName funcName : CString) : List UInt8 :=
  bracketed (loggerLevelName logLevel)
    ++ flagged config.logModuleNameFlag (bracketed moduleId.1)
    ++ flagged config.logThreadIdFlag (bracketed threadId.1)
    ++ flagged config.logFileNameFlag (bracketed fileName.1)
    ++ ascii ['-', ' '] ++ flagged config.logFuncNameFlag (callBracketed funcName.1)

/-- The text of a record. -/
def LogRecord.text (config : LoggerConfig) (r : LogRecord) : List UInt8 :=
  bracketed r.timestamp.1
    ++ headerText config r.logLevel r.moduleId r.threadId r.fileName r.funcName ++ r.content.1

/-- The variables of a writer: the array it writes to, `logPtr` as an index of this array,
and `offset`, the number of bytes written. -/
structure Cursor where
  logData : List UInt8
  logPtr : Nat
  offset : Nat

namespace Cursor

/-- Bytes that are assigned or copied one after the other. -/
def put (c : Cursor) (s : List UInt8) : Cursor :=
  ⟨copyText c.logData c.logPtr s, c.logPtr + s.length, c.offset + s.length⟩

/-- Go behind the text at `logPtr`. -/
def skip (c : Cursor) (logData : List UInt8) : Cursor :=
  let length := strlen (logData.drop c.logPtr)
  ⟨logData, c.logPtr + length, c.offset + length⟩

/-- `LoggerGetTimestamp`, with the time stamp already in `gCachedTimeStamp`. -/
def loggerGetTimestamp (c : Cursor) (gCachedTimeStamp : List UInt8) : Cursor :=
  c.skip (copyText c.logData c.logPtr (bracketed gCachedTimeStamp ++ [0]))

/-- `snprintf(logPtr, remainBufferSize - offset, ...)`. -/
def print (c : Cursor) (remainBufferSize : Int) (s : List UInt8) : Cursor :=
  c.skip (snprintf c.logData c.logPtr (sizeT (remainBufferSize - c.offset)) s)

/-- What is only written when a flag of the configuration is set. -/
def when (c : Cursor) (flag : Bool) (f : Cursor → Cursor) : Cursor := if flag then f c else c

/-- What both `AsyncWriteMsg` and `ProcessLogQueue` write between the time stamp and the
content of a record. -/
def writeHeader (c : Cursor) (config : LoggerConfig) (remainBufferSize : Int) (logLevel : Nat)
    (moduleId threadId fileName funcName : CString) : Cursor :=
  (((((c.put (bracketed (loggerLevelName logLevel))).when
    config.logModuleNameFlag fun c => c.put (bracketed moduleId.1)).when
    config.logThreadIdFlag fun c => c.print remainBufferSize (bracketed threadId.1)).when
    config.logFileNameFlag fun c => c.put (bracketed fileName.1)).put
    (ascii ['-', ' '])).when
    config.logFuncNameFlag fun c => c.put (callBracketed funcName.1)

/-- The part of `AsyncWriteMsg` that writes the record. -/
def writeRecord (c : Cursor) (config : LoggerConfig) (remainBufferSize : Int)
    (r : LogRecord) : Cursor :=
  ((c.loggerGetTimestamp r.timestamp.1).writeHeader config remainBufferSize r.logLevel
    r.moduleId r.threadId r.fileName r.funcName).print remainBufferSize r.content.1

end Cursor

/-! ## A memory dump -/

/-- One digit of `%02x`. -/
def hexDigit (n : Nat) : UInt8 := UInt8.ofNat (if n < 10 then 48 + n else 87 + n)

/-- `"%02x "`. -/
def hexByte (b : UInt8) : List UInt8 :=
  [hexDigit (b.toNat / 16), hexDigit (b.toNat % 16)] ++ ascii [' ']

/-- `"\n"`. -/
def newline : List UInt8 := ascii ['\n']

/-- The text of the bytes from number `i` on: sixteen on a line. -/
def hexLines : Nat → List UInt8 → List UInt8
  | _, [] => []
  | i, b :: bs =>
      hexByte b ++ (if (i + 1) % 16 = 0 then newline else []) ++ hexLines (i + 1) bs

/-- The text of a memory dump. -/
def hexText (pBuffer : List UInt8) : List UInt8 := hexLines 0 pBuffer ++ newline

/-- `snprintf(logPtr + offset, remainBufferSize - offset, ...); offset = strlen(logPtr)`. -/
def printHex (logPtr : Nat) (remainBufferSize : Int) (s : List UInt8)
    (c : List UInt8 × Nat) : List UInt8 × Nat :=
  let logData := snprintf c.1 (logPtr + c.2) (sizeT (remainBufferSize - c.2)) s
  (logData, strlen (logData.drop logPtr))

/-- The loop over the bytes, from number `i` on. The state is the array and `offset`. -/
def hexLoop (logPtr : Nat) (remainBufferSize : Int) :
    Nat → List UInt8 → List UInt8 × Nat → List UInt8 × Nat
  | _, [], c => c
  | i, b :: bs, c =>
      let c := printHex logPtr remainBufferSize (hexByte b) c
      let c := if (i + 1) % 16 = 0 then printHex logPtr remainBufferSize newline c else c
      if remainBufferSize ≤ (c.2 : Int) then c
      else hexLoop logPtr remainBufferSize (i + 1) bs c

/-- The dump of `pBuffer` at `logPtr`: the array and `offset` at the end. -/
def writeHex (logPtr : Nat) (remainBufferSize : Int) (pBuffer logData : List UInt8) :
    List UInt8 × Nat :=
  printHex logPtr remainBufferSize newline
    (hexLoop logPtr remainBufferSize 0 pBuffer (logData, 0))

/-! ## The output -/

/-- What `LoggerOutputLog` has handed to the log file and to the log server, and what it has
printed. -/
structure LogOutput where
  output : List UInt8
  console : List UInt8

/-- `LoggerOutputLog`. The console gets the text up to its terminator. -/
def loggerOutputLog (s : LogOutput) (logBuff : List UInt8) (length : Nat) : LogOutput :=
  ⟨s.output ++ logBuff.take length, s.console ++ logBuff.take (strlen logBuff)⟩

/-! ## The blocks of type 1 -/

/-- `LogBufferCache`. -/
structure LogBufferCache where
  next : Fin maxNumLogBufferBlock
  fullFlag : Bool
  length : Nat
  logData : List UInt8

/-- The text in a block. -/
def LogBufferCache.text (b : LogBufferCache) : List UInt8 := b.logData.take b.length

/-- The state of asynchronous log type 1. -/
structure AsyncLogger extends LogOutput where
  gLogBufferQueue : Fin maxNumLogBufferBlock → LogBufferCache
  gpWriteBuffer : Fin maxNumLogBufferBlock
  gpReadBuffer : Fin maxNumLogBufferBlock

namespace AsyncLogger

/-- `*gpWriteBuffer`. -/
def writeBuffer (s : AsyncLogger) : LogBufferCache := s.gLogBufferQueue s.gpWriteBuffer

/-- `*gpReadBuffer`. -/
def readBuffer (s : AsyncLogger) : LogBufferCache := s.gLogBufferQueue s.gpReadBuffer

/-- Assign a block. -/
def setBlock (s : AsyncLogger) (i : Fin maxNumLogBufferBlock) (b : LogBufferCache) :
    AsyncLogger :=
  { s with gLogBufferQueue := Function.update s.gLogBufferQueue i b }

/-- `gpWriteBuffer->fullFlag = 1; gpWriteBuffer = gpWriteBuffer->next`. -/
def closeBlock (s : AsyncLogger) : AsyncLogger :=
  { s.setBlock s.gpWriteBuffer { s.writeBuffer with fullFlag := true } with
    gpWriteBuffer := s.writeBuffer.next }

/-- How both writers begin: the record is dropped (`false`) when `gpWriteBuffer` is full, and
when it has to be closed before the record and the next block is full. `tooLong` is the
writer's test for closing the block early. -/
def openBlock (config : LoggerConfig) (s : AsyncLogger) (tooLong : Bool) : AsyncLogger × Bool :=
  if s.writeBuffer.fullFlag then (s, false)
  else if config.logBufferingSize ≠ 0 ∧ s.writeBuffer.length ≠ 0 ∧ tooLong = true then
    (s.closeBlock, !s.closeBlock.writeBuffer.fullFlag)
  else (s, true)

/-- How both writers end: `offset` bytes have been written to the block. -/
def commit (config : LoggerConfig) (s : AsyncLogger) (logData : List UInt8) (offset : Nat) :
    AsyncLogger :=
  let s := s.setBlock s.gpWriteBuffer
    { s.writeBuffer with logData := logData, length := s.writeBuffer.length + offset }
  if config.logBufferingSize ≤ s.writeBuffer.length then s.closeBlock else s

/-- `logBufferingSize - gpWriteBuffer->length`. -/
def remainBufferSize (config : LoggerConfig) (s : AsyncLogger) : Int :=
  (config.logBufferingSize : Int) - s.writeBuffer.length

/-- The early-closing test of `AsyncWriteMsg`. -/
def msgTooLong (config : LoggerConfig) (s : AsyncLogger) : Bool :=
  decide (config.logBufferingSize ≤ maxTimestampLength + s.writeBuffer.length + 128)

/-- The early-closing test of `LoggerWriteMem`, in unsigned arithmetic. -/
def memTooLong (config : LoggerConfig) (s : AsyncLogger) (length : Nat) : Bool :=
  decide (config.logBufferingSize
    ≤ (3 * length + length / 16 + s.writeBuffer.length + 5) % 2 ^ 32)

end AsyncLogger

open AsyncLogger

/-- `AsyncWriteMsg`, called by `LoggerWriteMsg`. -/
def asyncWriteMsg (config : LoggerConfig) (s : AsyncLogger) (r : LogRecord) : AsyncLogger :=
  if config.logs r.logLevel then
    let (s, opened) := openBlock config s (msgTooLong config s)
    if opened then
      let c := Cursor.writeRecord ⟨s.writeBuffer.logData, s.writeBuffer.length, 0⟩ config
        (remainBufferSize config s) r
      commit config s c.logData c.offset
    else s
  else s

/-- The type 1 branch of `LoggerWriteMem`. A null `pBuffer` or a `length` of 0 is `[]`. -/
def loggerWriteMem (config : LoggerConfig) (s : AsyncLogger) (logLevel : Nat)
    (pBuffer : List UInt8) : AsyncLogger :=
  if pBuffer ≠ [] ∧ config.logs logLevel then
    let (s, opened) := openBlock config s (memTooLong config s pBuffer.length)
    if opened then
      let c := writeHex s.writeBuffer.length (remainBufferSize config s) pBuffer
        s.writeBuffer.logData
      commit config s c.1 c.2
    else s
  else s

/-- One round of `LoggerEntryFunc`. It waits while there is nothing in `gpReadBuffer`. -/
def loggerEntryFunc (s : AsyncLogger) : AsyncLogger :=
  if s.readBuffer.length = 0 then s
  else
    let b := s.readBuffer
    let s := { s with toLogOutput := loggerOutputLog s.toLogOutput b.logData b.length }
    if b.fullFlag then
      { s.setBlock s.gpReadBuffer { b with length := 0, fullFlag := false } with
        gpReadBuffer := b.next }
    else s.setBlock s.gpReadBuffer { b with length := 0 }

/-- `InitAsyncLogger`: the blocks are linked to a ring, all of them empty. The static array
starts with zero bytes. -/
def initAsyncLogger : AsyncLogger where
  gLogBufferQueue i := ⟨i + 1, false, 0, List.replicate maxLogBlockSize 0⟩
  gpWriteBuffer := 0
  gpReadBuffer := 0
  output := []
  console := []

end LteUlp.Logger
