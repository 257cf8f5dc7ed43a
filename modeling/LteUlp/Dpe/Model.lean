import LteUlp.Basic.Endian
import Mathlib.Data.List.Basic

set_option autoImplicit false

/-! # The target tracker of `UeLoginInfoReceiver.cpp`

The receiver keeps candidate sequences of establishments (`m_potentialTargetMap`) and, once
one of them has three entries at the configured distance, the tracked target
(`m_targetVect`). `checkTarget` and `processUeEstablishInfo` are its two entry points.

`int`, `short` and the unsigned types are integers with an explicit wrap (`i32`, `i16`,
`u32`, `u64`). The clock is the value of `gettimeofday` in milliseconds, a parameter of every
call. `end() - 1` of an empty vector is a fault, `none`.
-/

namespace LteUlp.Dpe

/-- `int`. -/
def i32 (x : Int) : Int := x.bmod (2 ^ 32)
/-- `short`. -/
def i16 (x : Int) : Int := x.bmod (2 ^ 16)
/-- `unsigned int`. -/
def u32 (x : Int) : Int := x % 2 ^ 32
/-- `unsigned long long`. -/
def u64 (x : Int) : Int := x % 2 ^ 64

/-! ## The byte order macros

`target.c` and `UeLoginInfoReceiver.cpp` define them alike; they are the identity in a build
without `ENDIAN_CONVERT`. -/

/-- `CONVERT_INT16_ENDIAN`, on the bits of a 16-bit field. -/
def convertInt16Endian (endianConvert : Bool) (value : Nat) : Nat :=
  if endianConvert then ((value &&& 0x00ff) <<< 8) ||| ((value &&& 0xff00) >>> 8) else value

/-- `CONVERT_INT32_ENDIAN`, on the bits of a 32-bit field. -/
def convertInt32Endian (endianConvert : Bool) (value : Nat) : Nat :=
  if endianConvert then
    ((value &&& 0xff000000) >>> 24) ||| ((value &&& 0x00ff0000) >>> 8) |||
      ((value &&& 0x0000ff00) <<< 8) ||| ((value &&& 0xff) <<< 24)
  else value

/-! ## Messages and state -/

/-- `UeEstablishInfo`. -/
structure UeEstablishInfo where
  timestamp : Int
  prbPower : Int
  rnti : Nat
  ta : Int
  deriving DecidableEq

/-- `UeEstablishIndMsg`. The array has 32 entries; behind them the loop finds whatever the
memory holds there. -/
structure UeEstablishIndMsg where
  count : Nat
  ueEstabInfoArray : Nat → UeEstablishInfo

/-- `m_targetAccTimeInterval` and `m_targetAccTimeMargin` of `DpEngineConfig`, and whether
the program was built with `ENDIAN_CONVERT`. -/
structure DpEngineConfig where
  m_targetAccTimeInterval : UInt32
  m_targetAccTimeMargin : UInt32
  endianConvert : Bool

namespace DpEngineConfig

variable (cfg : DpEngineConfig)

def interval : Int := cfg.m_targetAccTimeInterval.toNat
def margin : Int := cfg.m_targetAccTimeMargin.toNat

/-- `m_maxTargetAccTimeInterval`. -/
def maxInterval : Int := i32 (cfg.interval + cfg.margin)
/-- `m_minTargetAccTimeInterval`. -/
def minInterval : Int := i32 (cfg.interval - cfg.margin)

end DpEngineConfig

/-- An entry of a vector. `arrival` and `missed` are not in the program: the clock when the
entry's message arrived, and `m_missCount` when the entry was appended to `m_targetVect`
(`0` in a candidate: a promotion appends after it has cleared the count). -/
structure Recorded extends UeEstablishInfo where
  arrival : Int
  missed : Nat
  deriving DecidableEq

/-- The members of `UeLoginInfoReceiver`, with the datagrams `reportTargetUe` has sent
(power and IP) and the number of promotions so far. The map is in the order of its keys. -/
structure Receiver where
  m_currentTargetId : Nat
  m_missCount : Nat
  m_reportCount : Nat
  m_remoteIp : String
  m_potentialTargetMap : List (Nat × List Recorded)
  m_targetVect : List Recorded
  reports : List (Int × String)
  promotions : Nat

/-- The constructor. -/
def newReceiver : Receiver := ⟨0, 0, 0, "", [], [], [], 0⟩

/-- `reportTargetUe`, to the IP that is stored now. -/
def Receiver.reportTargetUe (s : Receiver) (prbPower : Int) : Receiver :=
  { s with reports := s.reports ++ [(i32 prbPower, s.m_remoteIp)] }

/-- The lost target: forget it and all candidates. -/
def Receiver.forget (s : Receiver) : Receiver :=
  { s with m_missCount := 0, m_targetVect := [], m_potentialTargetMap := [] }

/-- `map::insert`: an existing key keeps its value. -/
def mapInsert (k : Nat) (v : List Recorded) :
    List (Nat × List Recorded) → List (Nat × List Recorded)
  | [] => [(k, v)]
  | (k', v') :: rest =>
      if k < k' then (k, v) :: (k', v') :: rest
      else if k = k' then (k', v') :: rest
      else (k', v') :: mapInsert k v rest

section

variable (cfg : DpEngineConfig)

/-! ## `checkTarget` -/

/-- `checkTarget`. `rand` is `rand()` after `srand` with the given seed. -/
def checkTarget (rand : Int → Nat) (clock : Int) (s : Receiver) : Receiver :=
  match s.m_targetVect.getLast? with
  | none => s
  | some it =>
      let s := { s with m_reportCount := (s.m_reportCount + 1) % 2 ^ 32 }
      let maxTimeDiff :=
        i32 (cfg.maxInterval + s.m_missCount * (cfg.interval + cfg.margin / 2))
      let timeDiff := i32 (clock - it.timestamp)
      if timeDiff > maxTimeDiff then
        let s := { s with m_missCount := s.m_missCount + 1 }
        if s.m_missCount > s.m_targetVect.length / 2 ∨
            (timeDiff > maxTimeDiff ∧ s.m_missCount > 2) then
          (s.reportTargetUe 0xffffffff).forget
        else s.reportTargetUe (it.prbPower - 5 * s.m_missCount)
      else if s.m_reportCount % 200 = 0 then
        s.reportTargetUe (it.prbPower + (5 - (rand clock % 10 : Nat)))
      else s

/-! ## `processUeEstablishInfo` -/

/-- Where the body of the loop goes on after the part that follows the target: to the next
entry (`continue`), out of the loop (`break`), or on to the candidates. The local variable
`timeDiff` outlives the entry. -/
inductive Tracked
  | next (s : Receiver) (timeDiff : Int)
  | stop (s : Receiver) (timeDiff : Int)
  | search (s : Receiver) (timeDiff : Int)

/-- The body of the loop, as far as it follows the target. -/
def trackTarget (clock : Int) (remoteIp : String) (e : UeEstablishInfo) (s : Receiver)
    (timeDiff : Int) : Tracked :=
  match s.m_targetVect.getLast? with
  | none => .search s timeDiff
  | some last =>
      let maxTimeDiff :=
        i32 (cfg.maxInterval + s.m_missCount * (cfg.interval + cfg.margin / 4))
      let minTimeDiff :=
        i32 (cfg.minInterval + s.m_missCount * (cfg.interval - cfg.margin / 4))
      let timeDiff := i32 (e.timestamp - last.timestamp)
      if timeDiff ≥ minTimeDiff ∧ timeDiff ≤ maxTimeDiff then
        if e.prbPower ≠ 0 then
          let e := { e with
            timestamp := u64 (last.timestamp + u32 ((s.m_missCount + 1) * cfg.interval)) }
          let s := { s with m_missCount := 0, m_remoteIp := remoteIp,
                            m_targetVect := s.m_targetVect ++ [Recorded.mk e clock s.m_missCount] }
          .stop (s.reportTargetUe e.prbPower) timeDiff
        else .next s timeDiff
      else if timeDiff < minTimeDiff then .next s timeDiff
      else
        let s := { s with m_missCount := s.m_missCount + 1 }
        if s.m_missCount > s.m_targetVect.length / 2 ∨ s.m_missCount > 2 then
          .search (s.forget.reportTargetUe 0xffffffff) timeDiff
        else .next (s.reportTargetUe (last.prbPower - 5 * s.m_missCount)) timeDiff

/-- The comparison of an entry with the last one of a candidate. -/
def resembles (e : UeEstablishInfo) (last : Recorded) : Bool :=
  let taDiff := i16 (e.ta - last.ta)
  let prbPowerDiff := i32 (e.prbPower - last.prbPower)
  taDiff ≥ -1 ∧ taDiff ≤ 1 ∧ prbPowerDiff ≥ -20 ∧ prbPowerDiff ≤ 20

/-- The loop over the candidates: the map after it, `timeDiff`, and the entry that was
appended with the vector it was appended to. -/
def searchMap (clock : Int) (e : UeEstablishInfo) :
    List (Nat × List Recorded) → Int →
      Option (List (Nat × List Recorded) × Int × Option (UeEstablishInfo × List Recorded))
  | [], timeDiff => some ([], timeDiff, none)
  | (id, v) :: rest, _ =>
      match v.getLast? with
      | none => none
      | some last =>
          let timeDiff := i32 (e.timestamp - last.timestamp)
          if timeDiff ≥ cfg.minInterval ∧ timeDiff ≤ cfg.maxInterval ∧ resembles e last then
            let e := { e with timestamp := u64 (last.timestamp + cfg.interval) }
            let v := v ++ [Recorded.mk e clock 0]
            some ((id, v) :: rest, timeDiff, some (e, v))
          else
            (searchMap clock e rest timeDiff).map fun r => ((id, v) :: r.1, r.2)

/-- The end of the loop body for an entry that completes no target: it becomes a candidate
of its own, also when it was appended to another one. -/
def newCandidate (clock : Int) (e : UeEstablishInfo) (s : Receiver) (timeDiff : Int) : Receiver :=
  let s := { s with m_currentTargetId := (s.m_currentTargetId + 1) % 2 ^ 32 }
  let map := if timeDiff > cfg.maxInterval then [] else s.m_potentialTargetMap
  { s with m_potentialTargetMap := mapInsert s.m_currentTargetId [Recorded.mk e clock 0] map }

/-- The promotion of a candidate; `e` is its third entry. -/
def promote (remoteIp : String) (e : UeEstablishInfo) (v : List Recorded) (s : Receiver) :
    Receiver :=
  let s := { s with m_missCount := 0, m_remoteIp := remoteIp, m_targetVect := v,
                    promotions := s.promotions + 1 }
  { s.reportTargetUe e.prbPower with m_potentialTargetMap := [] }

/-- The body of the loop from the candidates on; `true` is `break`. -/
def searchTarget (clock : Int) (remoteIp : String) (e : UeEstablishInfo) (s : Receiver)
    (timeDiff : Int) : Option (Receiver × Int × Bool) :=
  match searchMap cfg clock e s.m_potentialTargetMap timeDiff with
  | none => none
  | some (map, timeDiff, none) =>
      some (newCandidate cfg clock e { s with m_potentialTargetMap := map } timeDiff,
        timeDiff, false)
  | some (map, timeDiff, some (e, v)) =>
      if v.length = 3 then some (promote remoteIp e v s, timeDiff, true)
      else
        some (newCandidate cfg clock e { s with m_potentialTargetMap := map } timeDiff,
          timeDiff, false)

/-- The assignments at the top of the loop body: the clock, and the fields in the byte order
of the host. -/
def receiveEntry (clock : Int) (e : UeEstablishInfo) : UeEstablishInfo where
  timestamp := clock
  prbPower := i32 (convertInt32Endian cfg.endianConvert (u32 e.prbPower).toNat)
  rnti := convertInt16Endian cfg.endianConvert e.rnti
  ta := i16 (convertInt16Endian cfg.endianConvert (e.ta % 2 ^ 16).toNat)

/-- The body of the loop; `true` is `break`. -/
def processEntry (clock : Int) (remoteIp : String) (e : UeEstablishInfo) (s : Receiver)
    (timeDiff : Int) : Option (Receiver × Int × Bool) :=
  let e := receiveEntry cfg clock e
  match trackTarget cfg clock remoteIp e s timeDiff with
  | .next s timeDiff => some (s, timeDiff, false)
  | .stop s timeDiff => some (s, timeDiff, true)
  | .search s timeDiff => searchTarget cfg clock remoteIp e s timeDiff

/-- The loop over the `n` entries from `i` on; the number is how many of them it has
accessed. -/
def processLoop (clock : Int) (remoteIp : String) (entries : Nat → UeEstablishInfo) :
    Nat → Nat → Receiver → Int → Option (Receiver × Nat)
  | 0, _, s, _ => some (s, 0)
  | n + 1, i, s, timeDiff =>
      match processEntry cfg clock remoteIp (entries i) s timeDiff with
      | none => none
      | some (s, _, true) => some (s, 1)
      | some (s, timeDiff, false) =>
          (processLoop clock remoteIp entries n (i + 1) s timeDiff).map fun r => (r.1, r.2 + 1)

/-- `processUeEstablishInfo`, with the number of entries it has accessed. -/
def processUeEstablishInfo (clock : Int) (pUeEstabInfoMsg : Option UeEstablishIndMsg)
    (remoteIp : String) (s : Receiver) : Option (Receiver × Nat) :=
  match pUeEstabInfoMsg with
  | none => some (s, 0)
  | some msg =>
      if msg.count = 0 then some (s, 0)
      else
        processLoop cfg clock remoteIp msg.ueEstabInfoArray
          (convertInt32Endian cfg.endianConvert msg.count) 0 s 0

end

end LteUlp.Dpe
