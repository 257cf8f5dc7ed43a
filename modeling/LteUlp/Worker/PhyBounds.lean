import LteUlp.Worker.Runs

set_option autoImplicit false
set_option linter.unusedSectionVars false

/-! # Where the PDUs of an indication lie

`MacProcessPhyDataInd` with a record of what it reads of the headers, of the PDUs it hands
over and of the additions to `tempLen`. The position of a PDU follows from the fields
`wordLen` before it, its size from `bitLen`, and only the header of a PDU is checked against
the length of the indication.
-/

namespace LteUlp.Worker

open BlockStore LteUlp.Rrc LteUlp.Rlc LteUlp.Mac

/-! ## The record -/

/-- `UlSchPdu`; `buffer` is the offset from `pBuffer`. -/
structure UlSchPdu where
  buffer : Nat
  length : Nat
  deriving DecidableEq

/-- What `MacProcessPhyDataInd` does with the indication. -/
inductive IndicationEvent
  | read (offset width : Nat)
  | handOver (pdu : UlSchPdu)
  | advance (tempLen increment : Nat)
  deriving DecidableEq

/-- `(pUlSchPduHead->bitLen + 7) >> 3`, as an `unsigned short`. -/
def pduSize (head : RxUlSchIndHeadPdu) : Nat := ((head.bitLen + 7) >>> 3).toUInt16.toNat

section Record

variable {β : Type} [DecidableEq β] (env : MacPlatform β)

/-- What is read of a header at `offset` until the PDU is handed over. The radio values are
read for a context only. -/
def headReads (s : UlState β) (offset : Nat) (head : RxUlSchIndHeadPdu) : List IndicationEvent :=
  if head.crcFlag = 1 then
    let s := s.countKpi fun kpi => { kpi with crcCorrect := kpi.crcCorrect + 1 }
    let radio : List IndicationEvent :=
      if (macFindOrCreate env s head.rnti).2.isSome then
        [.read (offset + 18) 1, .read (offset + 20) 4, .read (offset + 16) 2]
      else []
    .read (offset + 14) 1 :: .read (offset + 4) 2 :: (radio ++ [.read (offset + 8) 4])
  else [.read (offset + 14) 1]

/-- The call of `MacProcessUlSchPdu`. -/
def handsOver (head : RxUlSchIndHeadPdu) (tempLen : UInt16) : List IndicationEvent :=
  if head.crcFlag = 1 then [.handOver ⟨tempLen.toNat, pduSize head⟩] else []

/-- `macProcessPdus`, with its record. The test of `numPdu` reads `numOfPDUs`. -/
def recordPdus (fuel : Nat) (data : Nat → UInt8) (length : UInt16) :
    Nat → UInt16 → UlState β → List IndicationEvent × Option (UlState β)
  | 0, tempLen, s =>
      (if tempLen < length then [.read (phyHlMsgHeadSize + 3) 1] else [], some s)
  | left + 1, tempLen, s =>
      if tempLen < length then
        let offset := tempLen.toNat
        let head := rxUlSchIndHeadPdu data offset
        let tempLen := tempLen + UInt16.ofNat rxUlSchIndHeadPduSize
        let start : List IndicationEvent :=
          [.read (phyHlMsgHeadSize + 3) 1, .advance offset rxUlSchIndHeadPduSize]
        if tempLen > length then (start, some s)
        else
          let events := start ++ (headReads env s offset head ++ handsOver head tempLen)
          match macProcessPdu env fuel s data head tempLen with
          | none => (events, none)
          | some s =>
              let rest := recordPdus fuel data length left (tempLen + (head.wordLen <<< 2)) s
              (events ++ .read (offset + 12) 2 ::
                .advance tempLen.toNat (4 * head.wordLen.toNat) :: rest.1, rest.2)
      else ([], some s)

/-- `macProcessPhyDataInd`, with its record. -/
def recordPhyDataInd (fuel : Nat) (s : UlState β) (pBuffer : Option (Nat → UInt8))
    (length : UInt16) : List IndicationEvent × Option (UlState β) :=
  match pBuffer with
  | none => ([], some s)
  | some data =>
      if phyField data 14 2 = rxUlSchIndication then
        let r := recordPdus env fuel data length (data (phyHlMsgHeadSize + 3)).toNat
          (UInt16.ofNat (phyHlMsgHeadSize + ulIndHeadSize)) s
        (.advance 0 phyHlMsgHeadSize :: .read 14 2 ::
          .advance phyHlMsgHeadSize ulIndHeadSize :: r.1, r.2)
      else ([.advance 0 phyHlMsgHeadSize, .read 14 2], some s)

theorem recordPdus_snd {fuel : Nat} {data : Nat → UInt8} {length : UInt16} (left : Nat)
    (tempLen : UInt16) (s : UlState β) :
    (recordPdus env fuel data length left tempLen s).2
      = macProcessPdus env fuel data length left tempLen s := by
  induction left generalizing tempLen s with
  | zero => rfl
  | succ left ih =>
      unfold recordPdus macProcessPdus
      split
      · dsimp only
        split
        · rfl
        · cases macProcessPdu env fuel s data (rxUlSchIndHeadPdu data tempLen.toNat)
              (tempLen + UInt16.ofNat rxUlSchIndHeadPduSize) with
          | none => rfl
          | some t => exact ih _ t
      · rfl

/-- The record is one of `macProcessPhyDataInd`. -/
theorem recordPhyDataInd_snd (fuel : Nat) (s : UlState β) (pBuffer : Option (Nat → UInt8))
    (length : UInt16) :
    (recordPhyDataInd env fuel s pBuffer length).2
      = macProcessPhyDataInd env fuel s pBuffer length := by
  cases pBuffer with
  | none => rfl
  | some data =>
      unfold recordPhyDataInd macProcessPhyDataInd
      dsimp only
      split
      · exact recordPdus_snd env _ _ s
      · rfl

end Record

/-! ## Bounds -/

/-- The PDUs that are handed over, in order. -/
def handedOver (events : List IndicationEvent) : List UlSchPdu :=
  events.filterMap fun
    | .handOver pdu => some pdu
    | _ => none

/-- The second PDU lies behind the beginning of the first one and shares no byte with it. -/
def UlSchPdu.Follows (p q : UlSchPdu) : Prop :=
  p.buffer < q.buffer ∧
    ∀ i, ¬ ((p.buffer ≤ i ∧ i < p.buffer + p.length) ∧ (q.buffer ≤ i ∧ i < q.buffer + q.length))

/-- What the record of an indication of `length` bytes has to be. -/
structure InBounds (length : Nat) (events : List IndicationEvent) : Prop where
  fields : ∀ offset width, .read offset width ∈ events → offset + width ≤ length
  pdus : ∀ pdu, .handOver pdu ∈ events → pdu.buffer + pdu.length ≤ length
  successive : (handedOver events).IsChain UlSchPdu.Follows
  tempLen : ∀ tempLen increment, .advance tempLen increment ∈ events →
    tempLen + increment < 2 ^ 16

section InBounds

variable {length : Nat} {events : List IndicationEvent}

@[simp] theorem inBounds_nil : InBounds length [] :=
  ⟨by simp, by simp, .nil, by simp⟩

@[simp] theorem inBounds_read {offset width : Nat} :
    InBounds length (.read offset width :: events)
      ↔ offset + width ≤ length ∧ InBounds length events := by
  constructor
  · intro h
    exact ⟨h.fields _ _ List.mem_cons_self,
      fun o w hm => h.fields o w (List.mem_cons_of_mem _ hm),
      fun p hm => h.pdus p (List.mem_cons_of_mem _ hm), h.successive,
      fun t n hm => h.tempLen t n (List.mem_cons_of_mem _ hm)⟩
  · rintro ⟨hle, h⟩
    refine ⟨fun o w hm => ?_, fun p hm => ?_, h.successive, fun t n hm => ?_⟩
    · rcases List.mem_cons.mp hm with heq | hm
      · obtain ⟨rfl, rfl⟩ := IndicationEvent.read.inj heq
        exact hle
      · exact h.fields o w hm
    · exact h.pdus p (by simpa using hm)
    · exact h.tempLen t n (by simpa using hm)

@[simp] theorem inBounds_advance {t n : Nat} :
    InBounds length (.advance t n :: events) ↔ t + n < 2 ^ 16 ∧ InBounds length events := by
  constructor
  · intro h
    exact ⟨h.tempLen _ _ List.mem_cons_self,
      fun o w hm => h.fields o w (List.mem_cons_of_mem _ hm),
      fun p hm => h.pdus p (List.mem_cons_of_mem _ hm), h.successive,
      fun t n hm => h.tempLen t n (List.mem_cons_of_mem _ hm)⟩
  · rintro ⟨hlt, h⟩
    refine ⟨fun o w hm => ?_, fun p hm => ?_, h.successive, fun t' n' hm => ?_⟩
    · exact h.fields o w (by simpa using hm)
    · exact h.pdus p (by simpa using hm)
    · rcases List.mem_cons.mp hm with heq | hm
      · obtain ⟨rfl, rfl⟩ := IndicationEvent.advance.inj heq
        exact hlt
      · exact h.tempLen t' n' hm

@[simp] theorem inBounds_handOver {pdu : UlSchPdu} :
    InBounds length (.handOver pdu :: events) ↔ pdu.buffer + pdu.length ≤ length ∧
      (∀ q ∈ (handedOver events).head?, pdu.Follows q) ∧ InBounds length events := by
  have hcons : handedOver (.handOver pdu :: events) = pdu :: handedOver events := rfl
  constructor
  · intro h
    have hs := h.successive
    rw [hcons, List.isChain_cons] at hs
    exact ⟨h.pdus _ List.mem_cons_self, hs.1,
      fun o w hm => h.fields o w (List.mem_cons_of_mem _ hm),
      fun p hm => h.pdus p (List.mem_cons_of_mem _ hm), hs.2,
      fun t n hm => h.tempLen t n (List.mem_cons_of_mem _ hm)⟩
  · rintro ⟨hle, hnext, h⟩
    refine ⟨fun o w hm => ?_, fun p hm => ?_, ?_, fun t n hm => ?_⟩
    · exact h.fields o w (by simpa using hm)
    · rcases List.mem_cons.mp hm with heq | hm
      · obtain rfl := IndicationEvent.handOver.inj heq
        exact hle
      · exact h.pdus p hm
    · rw [hcons, List.isChain_cons]
      exact ⟨hnext, h.successive⟩
    · exact h.tempLen t n (by simpa using hm)

end InBounds

/-! ## The layout -/

section Layout

variable (data : Nat → UInt8)

/-- Where the header of the PDU `k` is, with no regard to the width of `tempLen`. -/
def headOffset : Nat → Nat
  | 0 => phyHlMsgHeadSize + ulIndHeadSize
  | k + 1 => headOffset k + rxUlSchIndHeadPduSize
      + 4 * (rxUlSchIndHeadPdu data (headOffset k)).wordLen.toNat

/-- The header of the PDU `k`. -/
def headAt (k : Nat) : RxUlSchIndHeadPdu := rxUlSchIndHeadPdu data (headOffset data k)

/-- The PDU `k`. -/
def pduAt (k : Nat) : UlSchPdu :=
  ⟨headOffset data k + rxUlSchIndHeadPduSize, pduSize (headAt data k)⟩

/-- The decoder of subheaders ends on the PDU `k`. -/
def Decodes (fuel k : Nat) : Prop :=
  (pduAt data k).length = 0 ∨
    (macLoop (fun i => data ((pduAt data k).buffer + i)) fuel
      (Decode.start (pduAt data k).length)).isSome

/-- The PDU is not handed to the decoder, or the decoder ends. -/
def Passes (fuel k : Nat) : Prop := (headAt data k).crcFlag = 1 → Decodes data fuel k

/-- The loop comes to the PDU `k`. -/
structure Reached (fuel length k : Nat) : Prop where
  announced : k < (data (phyHlMsgHeadSize + 3)).toNat
  begins : headOffset data k < length
  passes : ∀ i < k, Passes data fuel i

/-- The PDU `k` has a whole header and a correct CRC. -/
structure Handed (fuel length k : Nat) : Prop where
  reached : Reached data fuel length k
  whole : headOffset data k + rxUlSchIndHeadPduSize ≤ length
  crc : (headAt data k).crcFlag = 1

/-- The PDUs from `k` on are where `bitLen` and `wordLen` let them be. -/
structure FitsFrom (fuel length k : Nat) : Prop where
  headEnd : ∀ j, k ≤ j → Reached data fuel length j →
    headOffset data j + rxUlSchIndHeadPduSize < 2 ^ 16
  dataEnd : ∀ j, k ≤ j → Reached data fuel length j →
    headOffset data j + rxUlSchIndHeadPduSize ≤ length → Passes data fuel j →
      headOffset data (j + 1) < 2 ^ 16
  pduEnd : ∀ j, k ≤ j → Handed data fuel length j →
    headOffset data j + rxUlSchIndHeadPduSize + pduSize (headAt data j) ≤ length
  next : ∀ i j, k ≤ i → i < j → Handed data fuel length i → Handed data fuel length j →
    (∀ l, i < l → l < j → (headAt data l).crcFlag ≠ 1) → pduSize (headAt data j) ≠ 0 →
      headOffset data i + pduSize (headAt data i) ≤ headOffset data j

end Layout

/-- The operation code lies in the indication, and so do the PDUs of an uplink indication. -/
def PhyFits (fuel : Nat) (data : Nat → UInt8) (length : Nat) : Prop :=
  16 ≤ length ∧ (phyField data 14 2 = rxUlSchIndication → FitsFrom data fuel length 0)

section Layout

variable {data : Nat → UInt8} {fuel length k : Nat}

theorem headOffset_succ (data : Nat → UInt8) (k : Nat) :
    headOffset data (k + 1)
      = headOffset data k + rxUlSchIndHeadPduSize + 4 * (headAt data k).wordLen.toNat := rfl

theorem headOffset_lt (data : Nat → UInt8) {i j : Nat} (h : i < j) :
    headOffset data i + rxUlSchIndHeadPduSize ≤ headOffset data j := by
  induction j with
  | zero => exact absurd h (Nat.not_lt_zero i)
  | succ j ih =>
      rw [headOffset_succ]
      rcases Nat.lt_succ_iff_lt_or_eq.mp h with hlt | rfl
      · have := ih hlt
        omega
      · omega

/-- Where the loop comes, it has come to all PDUs before, whose headers are whole. -/
theorem Reached.before {i : Nat} (h : Reached data fuel length k) (hi : i < k) :
    Reached data fuel length i ∧ headOffset data i + rxUlSchIndHeadPduSize ≤ length := by
  have hle := headOffset_lt data hi
  have hbegins := h.begins
  exact ⟨⟨hi.trans h.announced, by omega, fun l hl => h.passes l (hl.trans hi)⟩, by omega⟩

theorem Handed.before {i : Nat} (h : Handed data fuel length k) (hi : i < k)
    (hcrc : (headAt data i).crcFlag = 1) : Handed data fuel length i :=
  ⟨(h.reached.before hi).1, (h.reached.before hi).2, hcrc⟩

/-- The PDU `j` is the first one from `k` on that is handed over. -/
def IsFirst (data : Nat → UInt8) (fuel length k j : Nat) : Prop :=
  k ≤ j ∧ Handed data fuel length j ∧ ∀ l, k ≤ l → l < j → (headAt data l).crcFlag ≠ 1

theorem fitsFrom_of_not_reached (h : ¬ Reached data fuel length k) :
    FitsFrom data fuel length k := by
  have hnone : ∀ j, k ≤ j → ¬ Reached data fuel length j := by
    intro j hj hr
    rcases hj.eq_or_lt with rfl | hlt
    · exact h hr
    · exact h (hr.before hlt).1
  exact ⟨fun j hj hr => absurd hr (hnone j hj), fun j hj hr => absurd hr (hnone j hj),
    fun j hj hh => absurd hh.reached (hnone j hj),
    fun i _ hi _ hh => absurd hh.reached (hnone i hi)⟩

/-- **One PDU**: what `FitsFrom` says of the PDU the loop has come to. -/
theorem fitsFrom_iff (h : Reached data fuel length k) :
    FitsFrom data fuel length k ↔
      headOffset data k + rxUlSchIndHeadPduSize < 2 ^ 16 ∧
      (headOffset data k + rxUlSchIndHeadPduSize ≤ length → Passes data fuel k →
        headOffset data (k + 1) < 2 ^ 16) ∧
      (Handed data fuel length k → (pduAt data k).buffer + (pduAt data k).length ≤ length ∧
        ∀ j, IsFirst data fuel length (k + 1) j → (pduAt data k).Follows (pduAt data j)) ∧
      FitsFrom data fuel length (k + 1) := by
  have hfollows : ∀ j, k < j → ((pduAt data k).Follows (pduAt data j) ↔
      (pduSize (headAt data j) ≠ 0 →
        headOffset data k + pduSize (headAt data k) ≤ headOffset data j)) := by
    intro j hj
    have hlt := headOffset_lt data hj
    have hsize : 0 < rxUlSchIndHeadPduSize := by decide
    unfold UlSchPdu.Follows pduAt
    dsimp only
    constructor
    · rintro ⟨-, hdis⟩ hne
      have := hdis (headOffset data j + rxUlSchIndHeadPduSize)
      omega
    · intro hle
      refine ⟨by omega, fun i hi => ?_⟩
      have := hle (by omega)
      omega
  constructor
  · intro hf
    refine ⟨hf.headEnd k le_rfl h, fun hle hp => hf.dataEnd k le_rfl h hle hp,
      fun hh => ⟨hf.pduEnd k le_rfl hh, fun j hj => ?_⟩, ?_⟩
    · obtain ⟨hlt, hj, hbetween⟩ := hj
      rw [hfollows j hlt]
      intro hne
      exact hf.next k j le_rfl hlt hh hj (fun l hl hl' => hbetween l hl hl') hne
    · exact ⟨fun j hj => hf.headEnd j (Nat.le_of_succ_le hj),
        fun j hj => hf.dataEnd j (Nat.le_of_succ_le hj),
        fun j hj => hf.pduEnd j (Nat.le_of_succ_le hj),
        fun i j hi => hf.next i j (Nat.le_of_succ_le hi)⟩
  · rintro ⟨hhead, hdata, hpdu, hf⟩
    refine ⟨fun j hj hr => ?_, fun j hj hr => ?_, fun j hj hh => ?_, fun i j hi hij hhi hhj => ?_⟩
    · rcases hj.eq_or_lt with rfl | hlt
      · exact hhead
      · exact hf.headEnd j hlt hr
    · rcases hj.eq_or_lt with rfl | hlt
      · exact hdata
      · exact hf.dataEnd j hlt hr
    · rcases hj.eq_or_lt with rfl | hlt
      · exact (hpdu hh).1
      · exact hf.pduEnd j hlt hh
    · rcases hi.eq_or_lt with rfl | hlt
      · intro hbetween
        exact (hfollows j hij).mp ((hpdu hhi).2 j ⟨hij, hhj, fun l hl hl' => hbetween l hl hl'⟩)
      · exact hf.next i j hlt hij hhi hhj

end Layout

/-! ## The walk -/

section Walk

variable {β : Type} [DecidableEq β] {env : MacPlatform β} {s : UlState β}
variable {data : Nat → UInt8} {fuel left k : Nat} {length tempLen : UInt16}

theorem handedOver_headReads (offset : Nat) (head : RxUlSchIndHeadPdu)
    (events : List IndicationEvent) :
    handedOver (headReads env s offset head ++ events) = handedOver events := by
  unfold headReads
  dsimp only
  split
  · split <;> rfl
  · rfl

/-- The fields of a whole header are in bounds. -/
theorem inBounds_headReads {n offset : Nat} {head : RxUlSchIndHeadPdu}
    (h : offset + rxUlSchIndHeadPduSize ≤ n) (events : List IndicationEvent) :
    InBounds n (headReads env s offset head ++ events) ↔ InBounds n events := by
  rw [rxUlSchIndHeadPduSize] at h
  have h14 : offset + 14 + 1 ≤ n := by omega
  have h4 : offset + 4 + 2 ≤ n := by omega
  have h8 : offset + 8 + 4 ≤ n := by omega
  have h18 : offset + 18 + 1 ≤ n := by omega
  have h20 : offset + 20 + 4 ≤ n := by omega
  have h16 : offset + 16 + 2 ≤ n := by omega
  unfold headReads
  dsimp only
  split
  · split <;> simp [h14, h4, h8, h18, h20, h16]
  · simp [h14]

/-- The loop is at the PDU `k`, and `tempLen` has not wrapped. -/
structure At (data : Nat → UInt8) (fuel k left : Nat) (tempLen : UInt16) : Prop where
  tempLen : tempLen.toNat = headOffset data k
  left : k + left = (data (phyHlMsgHeadSize + 3)).toNat
  passes : ∀ i < k, Passes data fuel i

theorem At.reached_iff (h : At data fuel k (left + 1) tempLen) :
    Reached data fuel length.toNat k ↔ tempLen < length := by
  have hleft := h.left
  rw [UInt16.lt_iff_toNat_lt, h.tempLen]
  exact ⟨fun hr => hr.begins, fun hlt => ⟨by omega, hlt, h.passes⟩⟩

theorem pduStart_toNat (h : tempLen.toNat = headOffset data k)
    (hw : headOffset data k + rxUlSchIndHeadPduSize < 2 ^ 16) :
    (tempLen + UInt16.ofNat rxUlSchIndHeadPduSize).toNat = (pduAt data k).buffer := by
  rw [UInt16.toNat_add, h]
  exact Nat.mod_eq_of_lt hw

theorem nextHead_toNat (h : tempLen.toNat = (pduAt data k).buffer)
    (hw : headOffset data (k + 1) < 2 ^ 16) :
    (tempLen + ((headAt data k).wordLen <<< 2)).toNat = headOffset data (k + 1) := by
  have hshift : ((headAt data k).wordLen <<< 2).toNat = 4 * (headAt data k).wordLen.toNat := by
    rw [UInt16.toNat_shiftLeft, Nat.shiftLeft_eq]
    rw [headOffset_succ] at hw
    have : (headAt data k).wordLen.toNat * 2 ^ ((2 : UInt16).toNat % 16)
        = 4 * (headAt data k).wordLen.toNat := by
      rw [show 2 ^ ((2 : UInt16).toNat % 16) = 4 from rfl, Nat.mul_comm]
    rw [this]
    exact Nat.mod_eq_of_lt (by omega)
  rw [UInt16.toNat_add, h, hshift]
  exact Nat.mod_eq_of_lt hw

/-- `MacProcessUlSchPdu` returns where the decoder ends. -/
theorem macProcessPdu_isSome (env : MacPlatform β) (s : UlState β) (fuel : Nat)
    (h : tempLen.toNat = (pduAt data k).buffer) :
    (macProcessPdu env fuel s data (headAt data k) tempLen).isSome ↔ Passes data fuel k := by
  unfold macProcessPdu Passes Decodes
  split
  · rename_i hcrc
    unfold macProcessUlSchPdu
    rw [h,
      show (((headAt data k).bitLen + 7) >>> 3).toUInt16.toNat = (pduAt data k).length from rfl]
    split
    · rename_i hzero
      simp [hzero]
    · rename_i hpos
      simp [hcrc, hpos]
  · rename_i hcrc
    simp [hcrc]

/-- The record begins with this at a PDU. -/
def pduStart (offset : Nat) : List IndicationEvent :=
  [.read (phyHlMsgHeadSize + 3) 1, .advance offset rxUlSchIndHeadPduSize]

/-- The PDU is handed over if its CRC is correct. -/
def pduHanded (data : Nat → UInt8) (k : Nat) : List IndicationEvent :=
  if (headAt data k).crcFlag = 1 then [.handOver (pduAt data k)] else []

/-- **One pass of the loop**, at a PDU that it comes to. -/
theorem recordPdus_step (env : MacPlatform β) (s : UlState β)
    (hat : At data fuel k (left + 1) tempLen) (hlt : tempLen < length)
    (hw : headOffset data k + rxUlSchIndHeadPduSize < 2 ^ 16) :
    (length.toNat < headOffset data k + rxUlSchIndHeadPduSize ∧
      (recordPdus env fuel data length (left + 1) tempLen s).1 = pduStart (headOffset data k)) ∨
    (headOffset data k + rxUlSchIndHeadPduSize ≤ length.toNat ∧
      ((¬ Passes data fuel k ∧
        (recordPdus env fuel data length (left + 1) tempLen s).1
          = pduStart (headOffset data k)
            ++ (headReads env s (headOffset data k) (headAt data k) ++ pduHanded data k)) ∨
      (Passes data fuel k ∧ ∃ (t : UlState β) (next : UInt16),
        (headOffset data (k + 1) < 2 ^ 16 → At data fuel (k + 1) left next) ∧
        (recordPdus env fuel data length (left + 1) tempLen s).1
          = pduStart (headOffset data k)
            ++ (headReads env s (headOffset data k) (headAt data k) ++ pduHanded data k)
            ++ .read (headOffset data k + 12) 2 ::
              .advance (pduAt data k).buffer (4 * (headAt data k).wordLen.toNat) ::
                (recordPdus env fuel data length left next t).1))) := by
  have hstart := pduStart_toNat hat.tempLen hw
  have hhead : rxUlSchIndHeadPdu data tempLen.toNat = headAt data k := by
    rw [hat.tempLen]
    rfl
  have hhands : handsOver (headAt data k) (tempLen + UInt16.ofNat rxUlSchIndHeadPduSize)
      = pduHanded data k := by
    unfold handsOver pduHanded
    rw [hstart]
    rfl
  have hpass := macProcessPdu_isSome env s fuel hstart
  simp only [recordPdus, hlt, if_true, hhead]
  simp only [hhands, gt_iff_lt, UInt16.lt_iff_toNat_lt, hstart, hat.tempLen]
  by_cases hend : length.toNat < (pduAt data k).buffer
  · left
    rw [if_pos hend]
    exact ⟨hend, rfl⟩
  · right
    refine ⟨Nat.le_of_not_lt hend, ?_⟩
    rw [if_neg hend]
    cases hm : macProcessPdu env fuel s data (headAt data k)
        (tempLen + UInt16.ofNat rxUlSchIndHeadPduSize) with
    | none =>
        left
        rw [hm] at hpass
        exact ⟨fun hp => by simpa using hpass.mpr hp, rfl⟩
    | some t =>
        right
        rw [hm] at hpass
        have hp := hpass.mp rfl
        refine ⟨hp, t, _, fun hnext => ⟨nextHead_toNat hstart hnext, ?_, fun i hi => ?_⟩, rfl⟩
        · have := hat.left
          omega
        · rcases Nat.lt_succ_iff_lt_or_eq.mp hi with hi | rfl
          · exact hat.passes i hi
          · exact hp

theorem recordPdus_start (env : MacPlatform β) (s : UlState β)
    (hat : At data fuel k (left + 1) tempLen) (hlt : tempLen < length) :
    ∃ events, (recordPdus env fuel data length (left + 1) tempLen s).1
      = pduStart (headOffset data k) ++ events := by
  simp only [recordPdus, hlt, if_true, hat.tempLen]
  split
  · exact ⟨[], rfl⟩
  · split
    · exact ⟨_, rfl⟩
    · exact ⟨_, (List.append_assoc ..).trans rfl⟩

theorem le_headOffset (data : Nat → UInt8) (k : Nat) :
    phyHlMsgHeadSize + ulIndHeadSize ≤ headOffset data k := by
  rcases k.eq_zero_or_pos with rfl | hpos
  · exact le_rfl
  · have := headOffset_lt data hpos
    rw [headOffset] at this
    omega

/-- The loop does not come further than the last PDU announced. -/
theorem At.not_reached {n : Nat} (h : At data fuel k 0 tempLen) : ¬ Reached data fuel n k := by
  intro hr
  have := hr.announced
  have := h.left
  omega

/-! ### The next PDU -/

theorem not_isFirst {n j : Nat} (h : ¬ Reached data fuel n k) : ¬ IsFirst data fuel n k j := by
  rintro ⟨hle, hj, -⟩
  rcases hle.eq_or_lt with rfl | hlt
  · exact h hj.reached
  · exact h (hj.reached.before hlt).1

theorem isFirst_iff_eq {n j : Nat} (h : Handed data fuel n k) :
    IsFirst data fuel n k j ↔ j = k := by
  constructor
  · rintro ⟨hle, -, hbetween⟩
    rcases hle.eq_or_lt with rfl | hlt
    · rfl
    · exact absurd h.crc (hbetween k le_rfl hlt)
  · rintro rfl
    exact ⟨le_rfl, h, fun l hl hl' => absurd hl (Nat.not_le_of_lt hl')⟩

theorem isFirst_succ {n j : Nat} (h : (headAt data k).crcFlag ≠ 1) :
    IsFirst data fuel n k j ↔ IsFirst data fuel n (k + 1) j := by
  constructor
  · rintro ⟨hle, hj, hbetween⟩
    have hne : k ≠ j := by
      rintro rfl
      exact h hj.crc
    exact ⟨by omega, hj, fun l hl hl' => hbetween l (by omega) hl'⟩
  · rintro ⟨hle, hj, hbetween⟩
    refine ⟨by omega, hj, fun l hl hl' => ?_⟩
    rcases hl.eq_or_lt with rfl | hlt
    · exact h
    · exact hbetween l hlt hl'

theorem handedOver_append (events events' : List IndicationEvent) :
    handedOver (events ++ events') = handedOver events ++ handedOver events' :=
  List.filterMap_append ..

theorem handedOver_pdu (env : MacPlatform β) (s : UlState β) (data : Nat → UInt8) (k : Nat)
    (events : List IndicationEvent) :
    handedOver (pduStart (headOffset data k)
        ++ (headReads env s (headOffset data k) (headAt data k) ++ pduHanded data k) ++ events)
      = (if (headAt data k).crcFlag = 1 then [pduAt data k] else []) ++ handedOver events := by
  rw [handedOver_append, handedOver_append, handedOver_headReads, pduHanded]
  split <;> rfl

/-- The first PDU that the rest of the loop hands over. -/
theorem head?_handedOver (env : MacPlatform β) (s : UlState β) (hat : At data fuel k left tempLen)
    (hf : FitsFrom data fuel length.toNat k) (q : UlSchPdu) :
    q ∈ (handedOver (recordPdus env fuel data length left tempLen s).1).head?
      ↔ ∃ j, IsFirst data fuel length.toNat k j ∧ q = pduAt data j := by
  induction left generalizing k tempLen s with
  | zero =>
      have hnone : handedOver (recordPdus env fuel data length 0 tempLen s).1 = [] := by
        unfold recordPdus
        split <;> rfl
      simp [hnone, not_isFirst hat.not_reached]
  | succ left ih =>
      by_cases hlt : tempLen < length
      swap
      · have hnone : (recordPdus env fuel data length (left + 1) tempLen s).1 = [] := by
          simp only [recordPdus, hlt, if_false]
        have hr : ¬ Reached data fuel length.toNat k := fun hr => hlt (hat.reached_iff.mp hr)
        simp [hnone, handedOver, not_isFirst hr]
      have hr := hat.reached_iff.mpr hlt
      rcases recordPdus_step env s hat hlt (hf.headEnd k le_rfl hr) with
        ⟨hend, hrec⟩ | ⟨hend, ⟨hpass, hrec⟩ | ⟨hpass, t, next, hnext, hrec⟩⟩
      · have hnone : ∀ j, ¬ IsFirst data fuel length.toNat k j := by
          rintro j ⟨hle, hj, -⟩
          rcases hle.eq_or_lt with rfl | hlt'
          · exact absurd hj.whole (by omega)
          · exact absurd (hj.reached.before hlt').2 (by omega)
        simp [hrec, hnone, handedOver, pduStart]
      · have hcrc : (headAt data k).crcFlag = 1 := by
          by_contra hne
          exact hpass fun h => absurd h hne
        have hpdu := handedOver_pdu env s data k []
        rw [List.append_nil, if_pos hcrc] at hpdu
        simp [hrec, hpdu, isFirst_iff_eq ⟨hr, hend, hcrc⟩, eq_comm]
      · rw [hrec, handedOver_pdu]
        by_cases hcrc : (headAt data k).crcFlag = 1
        · simp [hcrc, isFirst_iff_eq ⟨hr, hend, hcrc⟩, eq_comm]
        · have hf' : FitsFrom data fuel length.toNat (k + 1) := ((fitsFrom_iff hr).mp hf).2.2.2
          have hih := ih (s := t) (hnext (hf.dataEnd k le_rfl hr hend hpass)) hf'
          simp only [isFirst_succ hcrc, ← hih, if_neg hcrc, List.nil_append]
          rfl

/-! ### The loop -/

/-- The record of a PDU with a whole header is in bounds together with what follows. -/
theorem inBounds_pdu (env : MacPlatform β) (s : UlState β) (events : List IndicationEvent)
    (hend : headOffset data k + rxUlSchIndHeadPduSize ≤ length.toNat)
    (hw : headOffset data k + rxUlSchIndHeadPduSize < 2 ^ 16) :
    InBounds length.toNat (pduStart (headOffset data k)
        ++ (headReads env s (headOffset data k) (headAt data k) ++ pduHanded data k) ++ events)
      ↔ ((headAt data k).crcFlag = 1 →
          (pduAt data k).buffer + (pduAt data k).length ≤ length.toNat ∧
          ∀ q ∈ (handedOver events).head?, (pduAt data k).Follows q) ∧
        InBounds length.toNat events := by
  have hle := le_headOffset data k
  have hcount : phyHlMsgHeadSize + 3 + 1 ≤ length.toNat := by
    rw [phyHlMsgHeadSize, ulIndHeadSize] at hle
    rw [phyHlMsgHeadSize]
    omega
  rw [List.append_assoc, List.append_assoc, pduStart, List.cons_append, List.cons_append,
    List.nil_append, inBounds_read, inBounds_advance, inBounds_headReads hend, pduHanded]
  by_cases hcrc : (headAt data k).crcFlag = 1
  · simp only [hcount, hw, hcrc, if_true, List.cons_append, List.nil_append, inBounds_handOver,
      true_and, forall_const, and_assoc]
  · simp only [hcount, hw, hcrc, if_false, List.nil_append, true_and, false_imp_iff]

theorem inBounds_recordPdus (hat : At data fuel k left tempLen) :
    InBounds length.toNat (recordPdus env fuel data length left tempLen s).1
      ↔ FitsFrom data fuel length.toNat k := by
  induction left generalizing k tempLen s with
  | zero =>
      have hle := le_headOffset data k
      have hcount : tempLen < length → phyHlMsgHeadSize + 3 + 1 ≤ length.toNat := by
        intro hlt
        rw [UInt16.lt_iff_toNat_lt, hat.tempLen] at hlt
        rw [phyHlMsgHeadSize, ulIndHeadSize] at hle
        rw [phyHlMsgHeadSize]
        omega
      refine ⟨fun _ => fitsFrom_of_not_reached hat.not_reached, fun _ => ?_⟩
      unfold recordPdus
      split
      · rename_i hlt
        simp [hcount hlt]
      · simp
  | succ left ih =>
      by_cases hlt : tempLen < length
      swap
      · have hnone : (recordPdus env fuel data length (left + 1) tempLen s).1 = [] := by
          simp only [recordPdus, hlt, if_false]
        have hr : ¬ Reached data fuel length.toNat k := fun hr => hlt (hat.reached_iff.mp hr)
        simp [hnone, fitsFrom_of_not_reached hr]
      have hr := hat.reached_iff.mpr hlt
      by_cases hw : headOffset data k + rxUlSchIndHeadPduSize < 2 ^ 16
      swap
      · obtain ⟨events, hrec⟩ := recordPdus_start env s hat hlt
        rw [hrec, fitsFrom_iff hr, pduStart]
        simp only [List.cons_append, List.nil_append, inBounds_read, inBounds_advance, hw,
          false_and, and_false]
      rw [fitsFrom_iff hr]
      rcases recordPdus_step env s hat hlt hw with
        ⟨hend, hrec⟩ | ⟨hend, ⟨hpass, hrec⟩ | ⟨hpass, t, next, hnext, hrec⟩⟩
      · -- the header is cut off, and the loop ends
        have hnext : ¬ Reached data fuel length.toNat (k + 1) := fun hr' =>
          absurd (hr'.before (Nat.lt_succ_self k)).2 (by omega)
        have hcount : phyHlMsgHeadSize + 3 + 1 ≤ length.toNat := by
          have hle := le_headOffset data k
          have hbegins := hr.begins
          rw [phyHlMsgHeadSize, ulIndHeadSize] at hle
          rw [phyHlMsgHeadSize]
          omega
        have hle : ¬ headOffset data k + rxUlSchIndHeadPduSize ≤ length.toNat := by omega
        have hhanded : ¬ Handed data fuel length.toNat k := fun hh => hle hh.whole
        simp only [hrec, pduStart, inBounds_read, inBounds_advance, inBounds_nil, hcount, hw, hle,
          hhanded, fitsFrom_of_not_reached hnext, false_imp_iff, and_true]
      · -- the decoder does not end, and no PDU follows
        have hnext : ¬ Reached data fuel length.toNat (k + 1) := fun hr' =>
          hpass (hr'.passes k (Nat.lt_succ_self k))
        have hnone : ∀ j, ¬ IsFirst data fuel length.toNat (k + 1) j := fun j =>
          not_isFirst hnext
        have hcrc : Handed data fuel length.toNat k ↔ (headAt data k).crcFlag = 1 :=
          ⟨fun hh => hh.crc, fun hc => ⟨hr, hend, hc⟩⟩
        have hpdu := inBounds_pdu env s [] hend hw
        rw [List.append_nil] at hpdu
        rw [hrec, hpdu, hcrc]
        simp only [handedOver, List.filterMap_nil, List.head?_nil, Option.mem_def, reduceCtorEq,
          false_imp_iff, implies_true, and_true, inBounds_nil, hw, hpass, hnone,
          fitsFrom_of_not_reached hnext, true_and]
      · have hcrc : Handed data fuel length.toNat k ↔ (headAt data k).crcFlag = 1 :=
          ⟨fun hh => hh.crc, fun hc => ⟨hr, hend, hc⟩⟩
        have hword : headOffset data k + 12 + 2 ≤ length.toNat := by
          rw [rxUlSchIndHeadPduSize] at hend
          omega
        rw [hrec, inBounds_pdu env s _ hend hw, inBounds_read, inBounds_advance, hcrc]
        change _ ∧ _ ∧ headOffset data (k + 1) < 2 ^ 16 ∧ _ ↔ _
        by_cases hn : headOffset data (k + 1) < 2 ^ 16
        swap
        · simp only [hn, hend, hpass, false_and, and_false, true_imp_iff]
        rw [ih (hnext hn)]
        simp only [hn, hend, hpass, hw, hword, true_and, true_imp_iff]
        refine and_congr_left fun hf => imp_congr_right fun hc => and_congr_right fun _ => ?_
        have hhead := head?_handedOver env t (hnext hn) hf
        constructor
        · intro h j hj
          exact h _ ((hhead _).mpr ⟨j, hj, rfl⟩)
        · intro h q hq
          obtain ⟨j, hj, rfl⟩ := (hhead q).mp hq
          exact h j hj

/-- **Parsing an indication stays in bounds exactly where its layout does**: every field of a
header and every PDU lies within the `length` bytes, the PDUs are disjoint and in order, and
`tempLen` does not wrap. -/
theorem phyDataInd_inBounds_iff (env : MacPlatform β) (fuel : Nat) (s : UlState β)
    (pBuffer : Option (Nat → UInt8)) (length : UInt16) :
    InBounds length.toNat (recordPhyDataInd env fuel s pBuffer length).1
      ↔ ∀ data ∈ pBuffer, PhyFits fuel data length.toNat := by
  cases pBuffer with
  | none => simp [recordPhyDataInd]
  | some data =>
      have hat : At data fuel 0 (data (phyHlMsgHeadSize + 3)).toNat
          (UInt16.ofNat (phyHlMsgHeadSize + ulIndHeadSize)) :=
        ⟨rfl, Nat.zero_add _, fun i hi => absurd hi (Nat.not_lt_zero i)⟩
      have hmsg : 0 + phyHlMsgHeadSize < 2 ^ 16 := by decide
      have hind : phyHlMsgHeadSize + ulIndHeadSize < 2 ^ 16 := by decide
      unfold recordPhyDataInd PhyFits
      dsimp only
      split
      · rename_i hopc
        rw [inBounds_advance, inBounds_read, inBounds_advance, inBounds_recordPdus hat]
        simp only [hmsg, hind, hopc, Option.mem_some, forall_eq', true_and, true_imp_iff]
      · rename_i hopc
        rw [inBounds_advance, inBounds_read]
        simp only [hmsg, hopc, inBounds_nil, Option.mem_some, forall_eq', true_and, and_true,
          false_imp_iff]

end Walk

/-- The bytes of an indication that ends behind the header of its only PDU, of 80 bits. -/
def cutIndication (k : Nat) : UInt8 :=
  if k = 14 then 0x87
  else if k = 35 then 1
  else if k = 40 then 61
  else if k = 44 then 80
  else if k = 50 then 1
  else 0

/-- The ten bytes behind the end of the indication are handed over. -/
theorem phyDataInd_cutIndication :
    ¬ ∀ (fuel : Nat) (data : Nat → UInt8) (length : UInt16),
      InBounds length.toNat
        (recordPhyDataInd freshMacPlatform fuel freshUlState (some data) length).1 := by
  intro h
  have hcut := (h 1 cutIndication 64).pdus ⟨64, 10⟩ (by decide +kernel)
  exact absurd hcut (by decide)

end LteUlp.Worker
