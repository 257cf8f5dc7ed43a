import LteUlp.Json.Document

set_option autoImplicit false

/-! # The configuration

`ParseConfig` (`lteConfig.c`) and `LoggerParseConfig` (`loggerConfig.c`) read the
configuration of the ULP from a JSON file, and `DpEngineConfig::parseJsonConfig` that of the
DPE. They go through the settings one after the other: the first member with the name of the
setting is taken if its value is allowed. A setting that is missing, or is not allowed, stays
as it is.

`none` stands for a run that ends with an access through a null pointer, or behind the buffer.
-/

namespace LteUlp.Config

open Json

variable {D σ : Type} (libc : Libc D)

/-! ## Members -/

/-- The text of a C string in memory. -/
def cString (s : List UInt8) : List UInt8 := s.takeWhile (· != 0)

/-- `cJSON_GetObjectItemCaseSensitive`. The names are compared by `strcmp`, and the items of
an array have none. -/
def getObjectItemCaseSensitive (object : Item D) (name : String) : Option (Option (Item D)) :=
  match object with
  | .object child => some ((child.find? fun m => cString m.1 == ascii name.toList).map Prod.snd)
  | .array (_ :: _) => none
  | _ => some none

/-- A setting: its name, and what becomes of the configuration when there is a member with
this name. -/
structure Setting (D σ : Type) where
  name : String
  assign : Item D → σ → Option σ

/-- One setting after the other. -/
def applySettings (root : Item D) : List (Setting D σ) → σ → Option σ
  | [], c => some c
  | s :: settings, c =>
      match getObjectItemCaseSensitive root s.name with
      | none => none
      | some none => applySettings root settings c
      | some (some item) =>
          match s.assign item c with
          | none => none
          | some c => applySettings root settings c

/-- A setting that takes an allowed value. -/
def setting {β : Type} (name : String) (read : Item D → Option β) (set : β → σ → σ) :
    Setting D σ where
  name := name
  assign item c :=
    match read item with
    | some v => some (set v c)
    | none => some c

/-! ## Values -/

/-- A number with a `valueint` that is allowed. -/
def number (allowed : Int → Bool) (item : Item D) : Option Int :=
  match item with
  | .number d => if allowed (valueint libc d) then some (valueint libc d) else none
  | _ => none

def positive (item : Item D) : Option Int := number libc (0 < ·) item

/-- `true` or `false`, by its `valueint`. -/
def flag (item : Item D) : Option UInt8 :=
  match item with
  | .true => some 1
  | .false => some 0
  | _ => none

/-- `valuestring`. -/
def text (item : Item D) : Option (List UInt8) :=
  match item with
  | .string s => some (cString s)
  | _ => none

/-- An array of `n` characters with a text in it. -/
abbrev CharArray (n : Nat) := {a : List UInt8 // a.length = n ∧ (0 : UInt8) ∈ a}

theorem copyText_charArray {n : Nat} (a : CharArray n) {s : List UInt8} (h : s.length < n) :
    (copyText a.1 0 (s ++ [0])).length = n ∧ (0 : UInt8) ∈ copyText a.1 0 (s ++ [0]) := by
  have hfits : 0 + (s ++ [0]).length ≤ a.1.length := by
    rw [a.2.1, List.length_append, List.length_singleton]
    omega
  rw [length_copyText hfits]
  exact ⟨a.2.1, by simp [copyText]⟩

/-- `strcpy` to the beginning of the array. -/
def CharArray.strcpy {n : Nat} (a : CharArray n) (s : List UInt8) (h : s.length < n) :
    CharArray n := ⟨copyText a.1 0 (s ++ [0]), copyText_charArray a h⟩

/-- The texts that fit are copied. -/
def CharArray.assign {n : Nat} (a : CharArray n) (s : List UInt8) : CharArray n :=
  if h : s.length < n then a.strcpy s h else a

theorem ascii_charArray {n : Nat} {s : List Char} (h : s.length < n) :
    (ascii s ++ List.replicate (n - s.length) 0).length = n ∧
      (0 : UInt8) ∈ ascii s ++ List.replicate (n - s.length) 0 := by
  constructor
  · rw [List.length_append, List.length_replicate, ascii, List.length_map]
    omega
  · exact List.mem_append_right _ (List.mem_replicate.mpr ⟨by omega, rfl⟩)

/-- The array of a literal. -/
def CharArray.ofLiteral (n : Nat) (s : List Char) (h : s.length < n) : CharArray n :=
  ⟨ascii s ++ List.replicate (n - s.length) 0, ascii_charArray h⟩

/-! ## The logger -/

/-- `LoggerConfig`. -/
structure LoggerConfig where
  logLevel : UInt32
  logType : UInt32
  logToConsoleFlag : UInt8
  logToFileFlag : UInt8
  maxLogFileSize : UInt32
  logFilePath : CharArray 128
  logToSocketFlag : UInt8
  logServerIp : CharArray 64
  logServerPort : UInt16
  logModuleNameFlag : UInt8
  logFileNameFlag : UInt8
  logFuncNameFlag : UInt8
  logThreadIdFlag : UInt8
  asyncWaitTime : UInt32
  logBufferingSize : UInt32

/-- `INFO`. -/
def infoLevel : UInt32 := 2

/-- The level of a name; `INFO` if there is none. -/
def logLevelOf (s : List UInt8) : UInt32 :=
  if s = ascii "TRACE".toList then 0
  else if s = ascii "DEBUG".toList then 1
  else if s = ascii "INFO".toList then infoLevel
  else if s = ascii "WARNING".toList then 3
  else if s = ascii "ERROR".toList then 4
  else infoLevel

/-- An `int` in a variable of 32 bits. -/
def uint32 (v : Int) : UInt32 := UInt32.ofInt v

/-- An `int` in a variable of 16 bits. -/
def uint16 (v : Int) : UInt16 := UInt16.ofInt v

/-- `INVALID_LOG_TYPE`. -/
def invalidLogType : Int := 3

/-- `MAX_LOG_BLOCK_SIZE`. -/
def maxLogBlockSize : Int := 1024 * 16

/-- The settings of `LoggerParseConfig`. -/
def loggerSettings : List (Setting D LoggerConfig) :=
  [ setting "LogLevel" text
      fun s c => { c with logLevel := logLevelOf s },
    setting "LogType"
      (number libc fun v => 0 ≤ v && v < invalidLogType)
      fun v c => { c with logType := uint32 v },
    setting "LogToConsole" flag
      fun b c => { c with logToConsoleFlag := b },
    setting "LogToFile" flag
      fun b c => { c with logToFileFlag := b },
    setting "MaxLogFileSize"
      (number libc fun _ => true) fun v c => { c with maxLogFileSize := uint32 v },
    setting "LogFilePath" text
      fun s c => { c with logFilePath := c.logFilePath.assign s },
    setting "LogToSocket" flag
      fun b c => { c with logToSocketFlag := b },
    setting "LogServerIp" text
      fun s c => { c with logServerIp := c.logServerIp.assign s },
    setting "LogServerPort"
      (number libc fun _ => true) fun v c => { c with logServerPort := uint16 v },
    setting "LogModuleName" flag
      fun b c => { c with logModuleNameFlag := b },
    setting "LogFileName" flag
      fun b c => { c with logFileNameFlag := b },
    setting "LogFuncName" flag
      fun b c => { c with logFuncNameFlag := b },
    setting "LogThreadId" flag
      fun b c => { c with logThreadIdFlag := b },
    setting "LogAsyncWaitTime"
      (number libc fun _ => true) fun v c => { c with asyncWaitTime := uint32 v },
    setting "LogBufferingSize"
      (number libc fun v => v ≤ maxLogBlockSize)
      fun v c => { c with logBufferingSize := uint32 v } ]

/-- `LoggerParseConfig`. -/
def loggerParseConfig (jsonConfig : Item D) (c : LoggerConfig) : Option LoggerConfig :=
  applySettings jsonConfig (loggerSettings libc) c

/-! ## The ULP -/

/-- `LteKpiConfig`. -/
structure LteKpiConfig where
  reportType : UInt32
  reportFilePeriod : UInt32
  kpiFileName : CharArray 128
  detailFilePath : CharArray 128
  udpPort : UInt16
  reportDebugInfoFlag : UInt8

/-- `LteConfig`, with the fields of the DPE. -/
structure LteConfig where
  pollingInterval : Int
  resCleanupTimer : Int
  ueIdentityWaitTime : Int
  oamIp : CharArray 64
  oamUdpPort : UInt16
  explicitInitQmssFlag : UInt8
  reportToDpeFlag : UInt8
  dpeIp : CharArray 64
  dpeUdpPort : UInt16
  logConfig : LoggerConfig
  kpiConfig : LteKpiConfig

def localhost : List Char := "127.0.0.1".toList

/-- What `gLteConfig` is initialised with. -/
def gLteConfig : LteConfig where
  pollingInterval := 5
  resCleanupTimer := 10000
  ueIdentityWaitTime := 1000
  oamIp := .ofLiteral 64 localhost (by decide)
  oamUdpPort := 55012
  explicitInitQmssFlag := 1
  reportToDpeFlag := 0
  dpeIp := .ofLiteral 64 localhost (by decide)
  dpeUdpPort := 3737
  logConfig :=
    { logLevel := 0
      logType := 0
      logToConsoleFlag := 1
      logToFileFlag := 0
      maxLogFileSize := 1024 * 1024 * 5
      logFilePath := .ofLiteral 128 [] (by decide)
      logToSocketFlag := 0
      logServerIp := .ofLiteral 64 localhost (by decide)
      logServerPort := 5997
      logModuleNameFlag := 0
      logFileNameFlag := 0
      logFuncNameFlag := 1
      logThreadIdFlag := 1
      asyncWaitTime := 5
      logBufferingSize := 1024 * 4 }
  kpiConfig :=
    { reportType := 0
      reportFilePeriod := 10000
      kpiFileName := .ofLiteral 128 [] (by decide)
      detailFilePath := .ofLiteral 128 [] (by decide)
      udpPort := 0
      reportDebugInfoFlag := 0 }

/-- `KPI_REPORT_UDP`. -/
def kpiReportUdp : Int := 3

/-- The settings in `KpiConfig`. -/
def kpiSettings : List (Setting D LteKpiConfig) :=
  [ setting "ReportType"
      (number libc fun v => v ≤ kpiReportUdp && 0 ≤ v)
      fun v c => { c with reportType := uint32 v },
    setting "ReportFilePeriod"
      (number libc fun _ => true) fun v c => { c with reportFilePeriod := uint32 v },
    setting "KpiFileName" text
      fun s c => { c with kpiFileName := c.kpiFileName.assign s },
    setting "KpiDetailFilePath"
      text fun s c => { c with detailFilePath := c.detailFilePath.assign s },
    setting "UdpPort" (number libc fun _ => true)
      fun v c => { c with udpPort := uint16 v },
    setting "ReportDebugInfo" flag
      fun b c => { c with reportDebugInfoFlag := b } ]

/-- The settings of `ParseConfig`. -/
def ulpSettings : List (Setting D LteConfig) :=
  [ setting "PollingInterval"
      (positive libc) fun v c => { c with pollingInterval := v },
    setting "ResCleanupTimer"
      (positive libc) fun v c => { c with resCleanupTimer := v },
    setting "UeIdentityWaitTime" (positive libc) fun v c => { c with ueIdentityWaitTime := v },
    setting "OamServerIp" text
      fun s c => { c with oamIp := c.oamIp.assign s },
    setting "OamServerUdpPort"
      (positive libc) fun v c => { c with oamUdpPort := uint16 v },
    setting "ExplicitInitQmss" flag
      fun b c => { c with explicitInitQmssFlag := b },
    setting "ReportToDpe" flag
      fun b c => { c with reportToDpeFlag := b },
    setting "DpeIp" text fun s c => { c with dpeIp := c.dpeIp.assign s },
    setting "DpeUdpPort" (positive libc)
      fun v c => { c with dpeUdpPort := uint16 v },
    { name := "LoggerConfig"
      assign := fun item c =>
        (loggerParseConfig libc item c.logConfig).map fun l => { c with logConfig := l } },
    { name := "KpiConfig"
      assign := fun item c =>
        (applySettings item (kpiSettings libc) c.kpiConfig).map
          fun k => { c with kpiConfig := k } } ]

/-- The size of `jsonBuffer`. -/
def bufferSize : Nat := 8192

/-- What the file leaves in `jsonBuffer`, where `stack` has been before. -/
def jsonBuffer (file stack : List UInt8) : List UInt8 :=
  file.take bufferSize ++ stack.drop (file.take bufferSize).length

/-- `ParseConfig` and `parseJsonConfig`: the settings of a file, if there is one that can be
read and is not too long. -/
def parseFile (settings : List (Setting D σ)) (file : Option (List UInt8)) (stack : List UInt8)
    (c : σ) : Option σ :=
  match file with
  | none => some c
  | some file =>
      let numBytesRead := (file.take bufferSize).length
      if numBytesRead = 0 ∨ numBytesRead = bufferSize then some c
      else
        match Json.parse libc (jsonBuffer file stack) with
        | .item root _ => applySettings root settings c
        | .error _ => some c
        | .overrun => none
        | .outOfFuel => none

/-- `ParseConfig`. -/
def parseConfig (file : Option (List UInt8)) (stack : List UInt8) (c : LteConfig) :
    Option LteConfig :=
  parseFile libc (ulpSettings libc) file stack c

/-! ## The DPE -/

/-- `DpEngineConfig`. The configuration of the logger is not part of it. -/
structure DpEngineConfig where
  mobileIdDbName : List UInt8
  userDbname : List UInt8
  ueDataServerIp : List UInt8
  ueDataServerPort : UInt16
  engineServerIp : List UInt8
  engineServerPort : UInt16
  oamServerIp : List UInt8
  oamServerPort : UInt16
  targetAccTimeInterval : UInt32
  targetAccTimeMargin : UInt32

/-- What the constructor sets. -/
def DpEngineConfig.default : DpEngineConfig where
  mobileIdDbName := ascii "/tmp/eq5_mobile_id.db".toList
  userDbname := ascii "/tmp/eq5_user.db".toList
  ueDataServerIp := ascii "0.0.0.0".toList
  ueDataServerPort := 55010
  engineServerIp := ascii localhost
  engineServerPort := 6070
  oamServerIp := ascii localhost
  oamServerPort := 55012
  targetAccTimeInterval := 20000
  targetAccTimeMargin := 1200

/-- The settings of `DpEngineConfig::parseJsonConfig`, and those of the logger: `loggerConfig`
is what stands on the stack for them. -/
def dpEngineSettings (loggerConfig : LoggerConfig) : List (Setting D DpEngineConfig) :=
  [ setting "MobileIdDBName" text
      fun s c => { c with mobileIdDbName := s },
    setting "UserDBName" text
      fun s c => { c with userDbname := s },
    setting "UeDataServerIp" text
      fun s c => { c with ueDataServerIp := s },
    setting "UeDataServerPort"
      (positive libc) fun v c => { c with ueDataServerPort := uint16 v },
    setting "EngineServerIp" text
      fun s c => { c with engineServerIp := s },
    setting "EngineServerPort"
      (positive libc) fun v c => { c with engineServerPort := uint16 v },
    setting "OamServerIp" text
      fun s c => { c with oamServerIp := s },
    setting "OamServerPort" (positive libc)
      fun v c => { c with oamServerPort := uint16 v },
    setting "TargetAccTimeInterval"
      (positive libc) fun v c => { c with targetAccTimeInterval := uint32 v },
    setting "TargetAccTimeMargin"
      (positive libc) fun v c => { c with targetAccTimeMargin := uint32 v },
    { name := "LoggerConfig"
      assign := fun item c => (loggerParseConfig libc item loggerConfig).map fun _ => c } ]

/-- `DpEngineConfig::parseJsonConfig`. -/
def parseJsonConfig (loggerConfig : LoggerConfig) (file : Option (List UInt8))
    (stack : List UInt8) (c : DpEngineConfig) : Option DpEngineConfig :=
  parseFile libc (dpEngineSettings libc loggerConfig) file stack c

/-! ## What is set up with it -/

/-- `gMaxRrcCtxIdleCount` in `InitUlpWorker`: a division by zero is none. -/
def maxRrcCtxIdleCount (c : LteConfig) : Option UInt32 :=
  if c.pollingInterval = 0 then none
  else
    let n := uint32 (c.ueIdentityWaitTime.tdiv c.pollingInterval)
    some (if n = 0 then 200 else n)

/-- `gMaxIdleCount` in `InitResCleaner`. -/
def maxIdleCount (c : LteConfig) (gMaxIdleCount : UInt32) : UInt32 :=
  if 0 < c.pollingInterval then
    let n := uint32 (c.resCleanupTimer.tdiv c.pollingInterval)
    if n = 0 then 1000 else n
  else gMaxIdleCount

/-- `gKpiNotifyCount` in `KpiInit`, if KPIs are written to a file. The division is one of
unsigned numbers. -/
def kpiNotifyCount (c : LteConfig) (gKpiNotifyCount : Int) : Option Int :=
  if c.kpiConfig.reportType = 1 ∨ c.kpiConfig.reportType = 2 then
    let interval := uint32 c.pollingInterval
    if interval = 0 then none
    else
      let n := (c.kpiConfig.reportFilePeriod / interval).toBitVec.toInt
      some (if n < 1 then 1 else n)
  else some gKpiNotifyCount

end LteUlp.Config
