import LteUlp.Logger.Model
import LteUlp.List.Model

set_option autoImplicit false

/-! # The queues of asynchronous log type 2

The records of type 2 are kept in the nodes `gLogInfoNodeArray`. A writer takes a node from
`gIdleLogInfoQueue`, fills it and puts it into `gBusyLogInfoQueue`; the logger task takes
the nodes from there, copies their records to a buffer of its own and gives the nodes back.

The queues of `queue.c` are the lists of `list.c`: `PushTail`, `PushHead`, `PopHead` and
`DeleteNode` are the same code in both files, apart from how an error is logged. An
operation of a queue locks the mutex of the queue, so it is one step here; between two
operations a thread works on the node that it has taken from a queue.
-/

namespace LteUlp.Logger

open Intrusive

/-- The two queues. -/
inductive LogQueue where
  | gIdleLogInfoQueue
  | gBusyLogInfoQueue
  deriving DecidableEq

/-- `MAX_NUM_LOG_INFO_NODE`. -/
abbrev maxNumLogInfoNode : Nat := 4096

/-- An index of `gLogInfoNodeArray`. -/
abbrev LogNode := Fin maxNumLogInfoNode

/-- `MAX_LOG_CONTENT_LENGTH`. -/
def maxLogContentLength : Nat := 256

/-- `MAX_LOG_MEMORY_LENGTH`. -/
def maxLogMemoryLength : Nat := 2048

/-- `MAX_LOG_ARGS_NUM`. -/
abbrev maxLogArgsNum : Nat := 6

/-! ## A node -/

/-- `E_LogContentType`. -/
inductive LogContentType where
  | logMsgType
  | logMemType
  deriving DecidableEq

/-- `LogMsgInfo`. -/
structure LogMsgInfo where
  moduleId : CString
  logLevel : Nat
  fileName : CString
  funcName : CString
  threadId : CString
  logContentFlag : Bool
  fmt : CString
  args : Fin maxLogArgsNum → UInt32
  logContent : CString

/-- `LogInfo`. The members of the union are kept apart: only the one that `contentType`
names is read. -/
structure LogInfo where
  contentType : LogContentType
  logMsgInfo : LogMsgInfo
  logMem : List UInt8

/-! ## The writers -/

/-- A call of a writer. `content` is the text that `vsnprintf` makes of `fmt` and the
arguments, `args` the arguments that `va_arg` yields as `unsigned int`. -/
inductive LogCall where
  | loggerWriteMsg (moduleId : CString) (logLevel : Nat) (fileName funcName threadId : CString)
      (fmt : CString) (args : Nat → UInt32) (content : CString)
  | loggerWriteMem (logLevel : Nat) (pBuffer : List UInt8)

/-- The tests that a writer begins with. -/
def LogCall.logs (config : LoggerConfig) : LogCall → Bool
  | .loggerWriteMsg _ logLevel _ _ _ _ _ _ => decide (config.logs logLevel)
  | .loggerWriteMem logLevel pBuffer => decide (pBuffer ≠ [] ∧ config.logs logLevel)

/-- The loop of `LoggerWriteMsg` over the format: the number `n` of arguments, and whether
it has found a text, a `long`, or too many arguments. The bytes behind a `%` are compared
one after the other, the first with `s` and the next one with `l`. -/
def scanFormat : List UInt8 → Nat → Nat × Bool
  | [], n => (n, false)
  | b :: fmt, n =>
      if b ≠ UInt8.ofNat '%'.toNat then scanFormat fmt n
      else if maxLogArgsNum < n + 1 then (n + 1, true)
      else
        match fmt with
        | [] => (n + 1, false)
        | c :: fmt =>
            if c = UInt8.ofNat 's'.toNat then (n + 1, true)
            else
              match fmt with
              | [] => (n + 1, false)
              | d :: fmt =>
                  if d = UInt8.ofNat 'l'.toNat then (n + 1, true) else scanFormat fmt (n + 1)

/-- What a writer does to its node. `logMem` is dumped as in `LoggerWriteMem` of type 1. -/
def fillNode (config : LoggerConfig) (node : LogInfo) : LogCall → LogInfo
  | .loggerWriteMsg moduleId logLevel fileName funcName threadId fmt args content =>
      let info : LogMsgInfo :=
        { node.logMsgInfo with
          logLevel := logLevel
          moduleId := if config.logModuleNameFlag then moduleId.cut 6
            else node.logMsgInfo.moduleId
          fileName := fileName
          funcName := funcName
          threadId := threadId }
      let (n, formatted) := scanFormat fmt.1 0
      { node with
        contentType := .logMsgType
        logMsgInfo :=
          if formatted then
            { info with
              logContent := content.cut (maxLogContentLength - 1), logContentFlag := true }
          else
            { info with
              args := fun i => if i.val < n then args i.val else info.args i
              logContentFlag := false
              fmt := fmt } }
  | .loggerWriteMem _ pBuffer =>
      { node with
        contentType := .logMemType
        logMem := (writeHex 0 maxLogMemoryLength pBuffer node.logMem).1 }

/-! ## The logger task -/

/-- `remainBufferSize` of `ProcessLogQueue`. -/
def remainLogBuff : Nat := 4095

/-- What `snprintf` makes of a format and six arguments. -/
abbrev Sprintf := CString → (Fin maxLogArgsNum → UInt32) → CString

/-- The part of `ProcessLogQueue` that copies a message. -/
def Cursor.copyMsg (c : Cursor) (config : LoggerConfig) (sprintf : Sprintf)
    (timestamp : CString) (info : LogMsgInfo) : Cursor :=
  let c := (c.put (bracketed timestamp.1)).writeHeader config remainLogBuff info.logLevel info.moduleId
    info.threadId info.fileName info.funcName
  if info.logContentFlag then c.put info.logContent.1
  else c.print remainLogBuff (sprintf info.fmt info.args).1

/-- A record is copied to `logBuff`; `none` when a memory dump does not fit any more. -/
def Cursor.copyInfo (c : Cursor) (config : LoggerConfig) (sprintf : Sprintf)
    (timestamp : CString) (node : LogInfo) : Option Cursor :=
  match node.contentType with
  | .logMsgType => some (c.copyMsg config sprintf timestamp node.logMsgInfo)
  | .logMemType =>
      let length := strlen node.logMem
      if 4096 ≤ c.offset + length then none else some (c.put (node.logMem.take length))

/-- Where a writer is: not logging, with the node it has taken, or with the node filled. -/
inductive Writer where
  | idle
  | popped (pLogInfoNode : LogNode) (call : LogCall)
  | filled (pLogInfoNode : LogNode)

/-- Where the logger task is: in the waiting loop of `LoggerEntryFunc`, at the beginning of
`ProcessLogQueue`, at the head of its loop, with a node taken from the busy queue, or with
this node copied. A list `logData` longer than `logBuff` is an overrun of this array. -/
inductive Task where
  | waiting
  | entered
  | looping (count : Nat) (timestamp : CString) (c : Cursor)
  | popped (pLogInfoNode : LogNode) (count : Nat) (timestamp : CString) (c : Cursor)
  | copied (pLogInfoNode : LogNode) (count : Nat) (timestamp : CString) (c : Cursor)

/-- The state of asynchronous log type 2, with the threads `θ` that log. -/
structure QueueLogger (θ : Type) extends LogOutput where
  queues : Heap LogQueue LogNode
  gLogInfoNodeArray : LogNode → LogInfo
  writer : θ → Writer
  task : Task

variable {θ : Type} [DecidableEq θ]

open LogQueue

namespace QueueLogger

/-- Thread `t` goes on at `w`. -/
def setWriter (s : QueueLogger θ) (t : θ) (w : Writer) : QueueLogger θ :=
  { s with writer := Function.update s.writer t w }

/-- `QueuePushNode`. -/
def queuePushNode (s : QueueLogger θ) (q : LogQueue) (a : LogNode) : QueueLogger θ :=
  { s with queues := listPushNode s.queues (some q) (some a) }

/-- `QueuePushNodeHead`. -/
def queuePushNodeHead (s : QueueLogger θ) (q : LogQueue) (a : LogNode) : QueueLogger θ :=
  { s with queues := listPushNodeHead s.queues (some q) (some a) }

/-- `QueuePopNode`. -/
def queuePopNode (s : QueueLogger θ) (q : LogQueue) : QueueLogger θ × Option LogNode :=
  let r := listPopNode s.queues (some q)
  ({ s with queues := r.1 }, r.2)

/-- `QueueCount`. -/
def queueCount (s : QueueLogger θ) (q : LogQueue) : Nat := listCount s.queues (some q)

/-- The end of `ProcessLogQueue`: the text is ended and output. -/
def flush (s : QueueLogger θ) (c : Cursor) : QueueLogger θ :=
  let logBuff := copyText c.logData c.logPtr [0]
  { s with
    toLogOutput :=
      if 0 < strlen logBuff then loggerOutputLog s.toLogOutput logBuff (strlen logBuff)
      else s.toLogOutput
    task := .waiting }

/-- Thread `t` calls a writer, which takes a node. Without an idle node the record is
dropped. -/
def writerCall (config : LoggerConfig) (s : QueueLogger θ) (t : θ) (call : LogCall) :
    QueueLogger θ :=
  match s.writer t with
  | .idle =>
      if call.logs config then
        match s.queuePopNode gIdleLogInfoQueue with
        | (s, none) => s
        | (s, some a) => s.setWriter t (.popped a call)
      else s
  | _ => s

/-- Thread `t` fills its node. -/
def writerFill (config : LoggerConfig) (s : QueueLogger θ) (t : θ) : QueueLogger θ :=
  match s.writer t with
  | .popped a call =>
      { s.setWriter t (.filled a) with
        gLogInfoNodeArray := Function.update s.gLogInfoNodeArray a
          (fillNode config (s.gLogInfoNodeArray a) call) }
  | _ => s

/-- Thread `t` puts its node into the busy queue. -/
def writerPush (s : QueueLogger θ) (t : θ) : QueueLogger θ :=
  match s.writer t with
  | .filled a => (s.queuePushNode gBusyLogInfoQueue a).setWriter t .idle
  | _ => s

/-- The next step of the logger task; `timestamp` is what `LoggerGetTimestamp` yields when
it is called. -/
def taskStep (config : LoggerConfig) (sprintf : Sprintf) (s : QueueLogger θ)
    (timestamp : CString) : QueueLogger θ :=
  match s.task with
  | .waiting => if s.queueCount gBusyLogInfoQueue = 0 then s else { s with task := .entered }
  | .entered =>
      { s with
        task := .looping (s.queueCount gBusyLogInfoQueue) timestamp
          ⟨List.replicate 4096 0, 0, 0⟩ }
  | .looping count timestamp c =>
      if 0 < count then
        match s.queuePopNode gBusyLogInfoQueue with
        | (s, none) => s.flush c
        | (s, some a) => { s with task := .popped a count timestamp c }
      else s.flush c
  | .popped a count timestamp c =>
      match c.copyInfo config sprintf timestamp (s.gLogInfoNodeArray a) with
      | none => (s.queuePushNodeHead gBusyLogInfoQueue a).flush c
      | some c => { s with task := .copied a count timestamp c }
  | .copied a count timestamp c =>
      let s := s.queuePushNode gIdleLogInfoQueue a
      if remainLogBuff ≤ c.offset + maxTimestampLength + 128 then s.flush c
      else { s with task := .looping (count - 1) timestamp c }

end QueueLogger

/-- `InitAsyncLogger` for type 2: all nodes are in the idle queue. -/
def initQueues : Heap LogQueue LogNode :=
  (List.finRange maxNumLogInfoNode).foldl
    (fun h a => listPushNode h (some gIdleLogInfoQueue) (some a))
    (listInit (listInit ⟨fun _ => ⟨none, none, 0⟩, fun _ => ⟨none, none⟩, 0⟩
      (some gIdleLogInfoQueue)) (some gBusyLogInfoQueue))

/-- The static array starts with zero bytes. -/
def initLogInfo : LogInfo :=
  ⟨.logMsgType, ⟨.empty, 0, .empty, .empty, .empty, false, .empty, fun _ => 0, .empty⟩,
    List.replicate maxLogMemoryLength 0⟩

/-- The logger after its initialisation. -/
def initQueueLogger (θ : Type) : QueueLogger θ where
  output := []
  console := []
  queues := initQueues
  gLogInfoNodeArray _ := initLogInfo
  writer _ := .idle
  task := .waiting

end LteUlp.Logger
