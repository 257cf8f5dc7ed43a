import LteUlp.Dpe.Tracker

set_option autoImplicit false

/-! # The datagrams of `UeLoginInfoReceiver::run`

A datagram is in the receive buffer, in the layout of `LteUlpDataInd` (`#pragma pack(4)`);
`mem` is the memory from the buffer's first byte on, also beyond what was received and beyond
the buffer. The handlers are modelled with the array entries they access. The only length
test is that of the 4-byte header, and the number of entries is taken from the message:
`inBounds_iff` says for which datagrams that is enough.
-/

namespace LteUlp.Dpe

open Endian

/-! ## The layout -/

def maxNumUeInfoReport : Nat := 32
def msgUlpHeartbeatReq : Nat := 0x80
def msgUlpUeIdentityInd : Nat := 0x82
def msgUlpUeEstablishInd : Nat := 0xa0

/-- `LTE_ULP_DATA_IND_HEAD_LEHGTH`. -/
def dataIndHeadLength : Nat := 4
/-- The offset of `u.ueIdentityInd.ueIdentityArray` and `u.ueEstablishInd.ueEstabInfoArray`. -/
def arrayOffset : Nat := 8
/-- `sizeof(UeIdentity)`. -/
def ueIdentitySize : Nat := 28
/-- `sizeof(UeEstablishInfo)`. -/
def ueEstablishInfoSize : Nat := 16

/-- `w` bytes of memory. -/
def bytesAt (mem : Nat → UInt8) (off w : Nat) : List UInt8 :=
  (List.range w).map fun k => mem (off + k)

/-- A field of `w` bytes, as a host of the given byte order reads it. -/
def fieldAt (order : ByteOrder) (mem : Nat → UInt8) (off w : Nat) : Nat :=
  load order (bytesAt mem off w)

/-- `msgType` as it stands in the buffer. -/
def msgTypeAt (order : ByteOrder) (mem : Nat → UInt8) : Nat := fieldAt order mem 0 2

/-- `count` of either message. -/
def countAt (order : ByteOrder) (mem : Nat → UInt8) : Nat := fieldAt order mem 4 4

/-- `ueEstabInfoArray[i]`. -/
def establishAt (order : ByteOrder) (mem : Nat → UInt8) (i : Nat) : UeEstablishInfo :=
  let off := arrayOffset + ueEstablishInfoSize * i
  { timestamp := fieldAt order mem off 8
    prbPower := i32 (fieldAt order mem (off + 8) 4)
    rnti := fieldAt order mem (off + 12) 2
    ta := i16 (fieldAt order mem (off + 14) 2) }

/-- `UeIdentity`. -/
structure UeIdentity where
  rnti : Nat
  imsiPresent : UInt8
  mTmsiPresent : UInt8
  msgType : UInt8
  mTmsi : Nat
  imsi : List UInt8
  deriving DecidableEq

/-- `ueIdentityArray[i]`. -/
def identityAt (order : ByteOrder) (mem : Nat → UInt8) (i : Nat) : UeIdentity :=
  let off := arrayOffset + ueIdentitySize * i
  { rnti := fieldAt order mem off 2
    imsiPresent := mem (off + 2)
    mTmsiPresent := mem (off + 3)
    msgType := mem (off + 4)
    mTmsi := fieldAt order mem (off + 8) 4
    imsi := bytesAt mem (off + 12) 16 }

/-! ## The handlers -/

/-- An access to an array entry: its index, where it begins in the buffer and its size. -/
structure Access where
  index : Nat
  offset : Nat
  size : Nat
  deriving DecidableEq

def accessAt (size i : Nat) : Access := ⟨i, arrayOffset + size * i, size⟩

/-- The loop of `saveUeIdentity` over the `n` entries from `i` on: the IMSIs it saves, each
with `imsi[15]` set to `0`, and its accesses. An entry is only written within itself. -/
def saveLoop (order : ByteOrder) (mem : Nat → UInt8) :
    Nat → Nat → List (List UInt8) × List Access
  | 0, _ => ([], [])
  | n + 1, i =>
      let ueIdentity := identityAt order mem i
      let rest := saveLoop order mem n (i + 1)
      if ueIdentity.imsiPresent ≠ 0 ∧ ueIdentity.mTmsiPresent = 0 then
        (ueIdentity.imsi.set 15 0 :: rest.1, accessAt ueIdentitySize i :: rest.2)
      else (rest.1, accessAt ueIdentitySize i :: rest.2)

/-- `saveUeIdentity`. Its `count` is not converted. -/
def saveUeIdentity (order : ByteOrder) (mem : Nat → UInt8) : List (List UInt8) × List Access :=
  saveLoop order mem (countAt order mem) 0

/-- What a datagram leads to. -/
structure Outcome where
  receiver : Receiver
  savedImsi : List (List UInt8)
  accesses : List Access
  heartbeatResp : Bool

/-- The outcome of `processUeEstablishInfo`, which accesses the first entries. -/
def established (r : Receiver × Nat) : Outcome :=
  ⟨r.1, [], (List.range r.2).map (accessAt ueEstablishInfoSize), false⟩

/-- The body of the loop of `run` after `checkTarget`: `byteRecvd` is the result of
`SocketUdpRecv`. -/
def onDatagram (cfg : DpEngineConfig) (order : ByteOrder) (clock : Int) (mem : Nat → UInt8)
    (byteRecvd : Int) (remoteIp : String) (s : Receiver) : Option Outcome :=
  if byteRecvd ≥ dataIndHeadLength then
    let msgType := convertInt16Endian cfg.endianConvert (msgTypeAt order mem)
    if msgType = msgUlpUeIdentityInd then
      let saved := saveUeIdentity order mem
      some ⟨s, saved.1, saved.2, false⟩
    else if msgType = msgUlpUeEstablishInd then
      (processUeEstablishInfo cfg clock (some ⟨countAt order mem, establishAt order mem⟩)
        remoteIp s).map established
    else some ⟨s, [], [], msgType = msgUlpHeartbeatReq⟩
  else some ⟨s, [], [], false⟩

/-! ## The accesses -/

variable {cfg : DpEngineConfig} {rand : Int → Nat} {clock : Int} {remoteIp : String}
  {order : ByteOrder} {mem : Nat → UInt8}

theorem saveLoop_accesses (order : ByteOrder) (mem : Nat → UInt8) (n i : Nat) :
    (saveLoop order mem n i).2 = (List.range' i n).map (accessAt ueIdentitySize) := by
  induction n generalizing i with
  | zero => rfl
  | succ n ih =>
      rw [saveLoop, List.range'_succ, List.map_cons, ← ih (i + 1)]
      split_ifs <;> rfl

/-- An entry that a message may let its handler access. -/
def Access.Good (a : Access) (byteRecvd : Int) : Prop :=
  a.index < maxNumUeInfoReport ∧ (a.offset + a.size : Nat) ≤ byteRecvd

/-- The first `n` entries of an array lie within what was received. -/
def EntriesFit (size n : Nat) (byteRecvd : Int) : Prop :=
  n = 0 ∨ (n ≤ maxNumUeInfoReport ∧ (arrayOffset + size * n : Nat) ≤ byteRecvd)

theorem entriesFit_iff (size n : Nat) (byteRecvd : Int) :
    EntriesFit size n byteRecvd ↔
      ∀ i < n, (accessAt size i).Good byteRecvd := by
  constructor
  · rintro (rfl | ⟨hn, hle⟩) i hi
    · omega
    · have hmul : size * i + size ≤ size * n := by
        rw [← Nat.mul_succ]
        exact Nat.mul_le_mul_left size hi
      refine ⟨hi.trans_le hn, ?_⟩
      simp only [accessAt]
      omega
  · intro h
    cases n with
    | zero => exact Or.inl rfl
    | succ n =>
        obtain ⟨hidx, hle⟩ := h n (Nat.lt_succ_self n)
        refine Or.inr ⟨hidx, ?_⟩
        rw [Nat.mul_succ, ← Nat.add_assoc]
        exact hle

/-- The loop of `processUeEstablishInfo` accesses at most as many entries as it is given. -/
theorem processLoop_le {entries : Nat → UeEstablishInfo} {n i : Nat} {s s' : Receiver}
    {timeDiff : Int} {k : Nat}
    (h : processLoop cfg clock remoteIp entries n i s timeDiff = some (s', k)) : k ≤ n := by
  induction n generalizing i s timeDiff k with
  | zero =>
      obtain ⟨-, rfl⟩ := Prod.mk.inj (Option.some.inj h)
      exact Nat.le_refl _
  | succ n ih =>
      rw [processLoop] at h
      rcases hentry : processEntry cfg clock remoteIp (entries i) s timeDiff with
        _ | ⟨s1, d, stop⟩
      · rw [hentry] at h
        cases h
      · rw [hentry] at h
        cases stop with
        | true =>
            obtain ⟨-, rfl⟩ := Prod.mk.inj (Option.some.inj h)
            omega
        | false =>
            obtain ⟨⟨s2, k2⟩, hrest, heq⟩ := Option.map_eq_some_iff.mp h
            obtain ⟨rfl, rfl⟩ := Prod.mk.inj heq
            exact Nat.succ_le_succ (ih hrest)

/-! ## A receiver that ends no loop early

With an interval above its margin, entries of one message never continue each other, so a
receiver that knows nothing else goes through all of them. -/

/-- No target, and candidates of this very message only. -/
structure Quiet (clock : Int) (s : Receiver) : Prop where
  target : s.m_targetVect = []
  candidate : ∀ p ∈ s.m_potentialTargetMap, ∃ last, p.2.getLast? = some last ∧
    last.timestamp = clock

theorem quiet_new (clock : Int) : Quiet clock newReceiver :=
  ⟨rfl, by simp [newReceiver]⟩

theorem Quiet.processEntry {s : Receiver} (h : Quiet clock s) (hcfg : 0 < cfg.minInterval)
    (remoteIp : String) (e : UeEstablishInfo) (timeDiff : Int) :
    ∃ s' timeDiff', processEntry cfg clock remoteIp e s timeDiff = some (s', timeDiff', false) ∧
      Quiet clock s' := by
  have he : (receiveEntry cfg clock e).timestamp = clock := rfl
  have hne : ∀ p ∈ s.m_potentialTargetMap, p.2 ≠ [] := by
    intro p hp hnil
    obtain ⟨last, hlast, -⟩ := h.candidate p hp
    rw [hnil] at hlast
    cases hlast
  have htrack : trackTarget cfg clock remoteIp (receiveEntry cfg clock e) s timeDiff
      = .search s timeDiff := by
    simp only [trackTarget, h.target, List.getLast?_nil]
  obtain ⟨d, hd | ⟨pre, id, v, post, r, hmap, hc, -⟩⟩ := searchMap_effect cfg he hne timeDiff
  · have hentry : Dpe.processEntry cfg clock remoteIp e s timeDiff
        = some (newCandidate cfg clock (receiveEntry cfg clock e) s d, d, false) := by
      simp only [Dpe.processEntry, htrack, searchTarget, hd]
    refine ⟨_, d, hentry, h.target, fun p hp => ?_⟩
    rcases mem_newCandidate hp with hp | hp
    · exact ⟨_, by rw [hp]; rfl, rfl⟩
    · exact h.candidate p hp
  · -- the time since an entry of the same message is `0`
    obtain ⟨last, hlast, hlo, -⟩ := hc.last
    obtain ⟨last', hlast', htime⟩ := h.candidate (id, v) (by simp [hmap])
    obtain rfl := Option.some.inj (hlast.symm.trans hlast')
    rw [htime, Int.sub_self] at hlo
    have hzero : i32 0 = 0 := by decide
    omega

/-- Such a receiver accesses all entries. -/
theorem Quiet.processLoop {s : Receiver} (h : Quiet clock s) (cfg : DpEngineConfig)
    (hcfg : 0 < cfg.minInterval) (remoteIp : String) (entries : Nat → UeEstablishInfo)
    (n i : Nat) (timeDiff : Int) :
    ∃ s', processLoop cfg clock remoteIp entries n i s timeDiff = some (s', n) := by
  induction n generalizing i s timeDiff with
  | zero => exact ⟨s, rfl⟩
  | succ n ih =>
      obtain ⟨s1, d, hentry, h1⟩ := h.processEntry hcfg remoteIp (entries i) timeDiff
      obtain ⟨s', hloop⟩ := ih h1 (i + 1) d
      refine ⟨s', ?_⟩
      rw [Dpe.processLoop, hentry]
      simp only [hloop, Option.map_some]

/-! ## When the entries lie inside -/

/-- Whatever the configuration and the state of the receiver, every array entry that the
handler of this datagram accesses is one of the 32 and lies within what was received. -/
def InBounds (order : ByteOrder) (endianConvert : Bool) (mem : Nat → UInt8) (byteRecvd : Int) :
    Prop :=
  ∀ (cfg : DpEngineConfig) (rand : Int → Nat) (s : Receiver) (clock : Int) (remoteIp : String),
    cfg.endianConvert = endianConvert → Reached cfg rand s →
    ∀ out, onDatagram cfg order clock mem byteRecvd remoteIp s = some out →
      ∀ a ∈ out.accesses, a.Good byteRecvd

/-- The datagram is too short for its header, or it announces no more entries than the array
has and than were received, counted as its handler counts them. -/
def CountFits (order : ByteOrder) (endianConvert : Bool) (mem : Nat → UInt8) (byteRecvd : Int) :
    Prop :=
  byteRecvd < dataIndHeadLength ∨
    (convertInt16Endian endianConvert (msgTypeAt order mem) = msgUlpUeIdentityInd →
      EntriesFit ueIdentitySize (countAt order mem) byteRecvd) ∧
    (convertInt16Endian endianConvert (msgTypeAt order mem) = msgUlpUeEstablishInd →
      EntriesFit ueEstablishInfoSize
        (convertInt32Endian endianConvert (countAt order mem)) byteRecvd)

theorem mem_saveUeIdentity {a : Access} :
    a ∈ (saveUeIdentity order mem).2 ↔
      ∃ i < countAt order mem, accessAt ueIdentitySize i = a := by
  rw [saveUeIdentity, saveLoop_accesses]
  simp [List.mem_range']

section

variable {s : Receiver} {byteRecvd : Int}

theorem onDatagram_identity (hlen : byteRecvd ≥ dataIndHeadLength)
    (htype : convertInt16Endian cfg.endianConvert (msgTypeAt order mem) = msgUlpUeIdentityInd) :
    onDatagram cfg order clock mem byteRecvd remoteIp s
      = some ⟨s, (saveUeIdentity order mem).1, (saveUeIdentity order mem).2, false⟩ := by
  rw [onDatagram, if_pos hlen]
  exact if_pos htype

theorem onDatagram_establish (hlen : byteRecvd ≥ dataIndHeadLength)
    (htype : convertInt16Endian cfg.endianConvert (msgTypeAt order mem)
      = msgUlpUeEstablishInd) :
    onDatagram cfg order clock mem byteRecvd remoteIp s
      = (processUeEstablishInfo cfg clock (some ⟨countAt order mem, establishAt order mem⟩)
          remoteIp s).map established := by
  have hne : ¬ convertInt16Endian cfg.endianConvert (msgTypeAt order mem)
      = msgUlpUeIdentityInd := by
    rw [htype]
    decide
  rw [onDatagram, if_pos hlen]
  exact (if_neg hne).trans (if_pos htype)

end

theorem convertInt32Endian_zero (endianConvert : Bool) :
    convertInt32Endian endianConvert 0 = 0 := by
  cases endianConvert <;> rfl

theorem InBounds.countFits {endianConvert : Bool} {byteRecvd : Int}
    (h : InBounds order endianConvert mem byteRecvd) :
    CountFits order endianConvert mem byteRecvd := by
  by_cases hlen : byteRecvd < dataIndHeadLength
  · exact Or.inl hlen
  have hlen' : byteRecvd ≥ dataIndHeadLength := by omega
  have hout := h ⟨20000, 1200, endianConvert⟩ (fun _ => 0) newReceiver 0 "" rfl .new
  refine Or.inr ⟨fun htype => ?_, fun htype => ?_⟩
  · rw [entriesFit_iff]
    intro i hi
    exact hout _ (onDatagram_identity hlen' htype) _ (mem_saveUeIdentity.mpr ⟨i, hi, rfl⟩)
  · rw [entriesFit_iff]
    intro i hi
    have hcount : countAt order mem ≠ 0 := by
      intro hzero
      rw [hzero, convertInt32Endian_zero] at hi
      cases hi
    obtain ⟨s', hloop⟩ := (quiet_new 0).processLoop ⟨20000, 1200, endianConvert⟩
      (by cases endianConvert <;> decide) "" (establishAt order mem)
      (convertInt32Endian endianConvert (countAt order mem)) 0 0
    have hprocess : processUeEstablishInfo ⟨20000, 1200, endianConvert⟩ 0
        (some ⟨countAt order mem, establishAt order mem⟩) "" newReceiver
        = some (s', convertInt32Endian endianConvert (countAt order mem)) := by
      rw [processUeEstablishInfo]
      exact (if_neg hcount).trans hloop
    have hon : onDatagram ⟨20000, 1200, endianConvert⟩ order 0 mem byteRecvd "" newReceiver
        = some (established (s', convertInt32Endian endianConvert (countAt order mem))) := by
      rw [onDatagram_establish hlen' htype, hprocess]
      rfl
    refine hout _ hon _ (List.mem_map_of_mem ?_)
    exact List.mem_range.mpr hi

/-- **When the handlers stay inside.** For every datagram and every build. -/
theorem inBounds_iff (order : ByteOrder) (endianConvert : Bool) (mem : Nat → UInt8)
    (byteRecvd : Int) :
    InBounds order endianConvert mem byteRecvd ↔
      CountFits order endianConvert mem byteRecvd := by
  constructor
  · exact InBounds.countFits
  · rintro hfits cfg rand s clock remoteIp rfl hs out hout a ha
    by_cases hlen : byteRecvd < dataIndHeadLength
    · have hout' : out = ⟨s, [], [], false⟩ := by
        rw [onDatagram, if_neg (by omega)] at hout
        exact (Option.some.inj hout).symm
      rw [hout'] at ha
      cases ha
    have hlen' : byteRecvd ≥ dataIndHeadLength := by omega
    obtain ⟨hidentity, hestablish⟩ := hfits.resolve_left hlen
    by_cases htype1 : convertInt16Endian cfg.endianConvert (msgTypeAt order mem)
        = msgUlpUeIdentityInd
    · rw [onDatagram_identity hlen' htype1] at hout
      obtain rfl := Option.some.inj hout
      obtain ⟨i, hi, rfl⟩ := mem_saveUeIdentity.mp ha
      exact (entriesFit_iff _ _ _).mp (hidentity htype1) i hi
    by_cases htype2 : convertInt16Endian cfg.endianConvert (msgTypeAt order mem)
        = msgUlpUeEstablishInd
    · rw [onDatagram_establish hlen' htype2] at hout
      obtain ⟨⟨s', k⟩, hprocess, rfl⟩ := Option.map_eq_some_iff.mp hout
      obtain ⟨i, hi, rfl⟩ := List.mem_map.mp ha
      rw [processUeEstablishInfo] at hprocess
      split_ifs at hprocess with hzero
      · obtain ⟨-, rfl⟩ := Prod.mk.inj (Option.some.inj hprocess)
        cases List.mem_range.mp hi
      · have hk := processLoop_le hprocess
        exact (entriesFit_iff _ _ _).mp (hestablish htype2) i
          ((List.mem_range.mp hi).trans_le hk)
    · rw [onDatagram, if_pos hlen'] at hout
      have hout' := (if_neg htype1).symm.trans hout
      obtain rfl := Option.some.inj ((if_neg htype2).symm.trans hout')
      cases ha

/-- The memory behind a received datagram: its bytes and zeros. -/
def received (bytes : List UInt8) : Nat → UInt8 := fun k => bytes.getD k 0

/-- Eight bytes announce one identity on a little-endian host: the entry is read from what
was not received. -/
theorem not_inBounds_announced_identity :
    ¬ InBounds .little false (received [0x82, 0, 8, 0, 1, 0, 0, 0]) 8 := by
  intro h
  rcases (h.countFits.resolve_left (by decide)).1 (by decide) with hzero | ⟨-, hle⟩
  · revert hzero
    decide
  · revert hle
    decide

end LteUlp.Dpe
