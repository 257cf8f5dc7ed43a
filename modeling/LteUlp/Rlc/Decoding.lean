import LteUlp.Rlc.Ownership

set_option autoImplicit false
set_option linter.unusedSectionVars false

/-! # What an AMD PDU is decoded to

The elements of a PDU are determined by its bytes. `fieldSizes` is what the decoder makes of
the header and the length of the PDU, whatever these are; `fields` are the data fields of a
PDU whose length indicators fit. `rlcDecodeAmdPdu_sizes` and `rlcDecodeAmdPdu_fields` say
that the elements are these.
-/

namespace LteUlp.Rlc

open BlockStore LteUlp.Rrc LteUlp.Mac LteUlp.Pdcp RlcSduStatus

variable {β : Type} [DecidableEq β] {env : Platform β}

/-! ## Fields -/

/-- The status of the only field of a PDU. -/
def wholeStatus (fi : UInt8) : RlcSduStatus :=
  if fi = 0x01 then amPduMapSduStart
  else if fi = 0x03 then amPduMapSduMid
  else if fi = 0x02 then amPduMapSduEnd
  else amPduMapSduFull

/-- The status of the first field of several. -/
def firstStatus (fi : UInt8) : RlcSduStatus :=
  if fi &&& 0x02 ≠ 0 then amPduMapSduEnd else amPduMapSduFull

/-- The status of the last field of several. -/
def lastStatus (fi : UInt8) : RlcSduStatus :=
  if fi &&& 0x01 = 0 then amPduMapSduFull else amPduMapSduStart

theorem lastStatus_or (fi : UInt8) :
    lastStatus fi = amPduMapSduFull ∨ lastStatus fi = amPduMapSduStart := by
  unfold lastStatus
  split
  · exact Or.inl rfl
  · exact Or.inr rfl

theorem firstStatus_or (fi : UInt8) :
    firstStatus fi = amPduMapSduEnd ∨ firstStatus fi = amPduMapSduFull := by
  unfold firstStatus
  split
  · exact Or.inl rfl
  · exact Or.inr rfl

/-- Cut off fields of the given lengths. -/
def splitSizes (fi : UInt8) : List Nat → RlcSduStatus → UInt32 →
    Option (List (RlcSduStatus × UInt32))
  | [], _, size => some [(lastStatus fi, size)]
  | li :: rest, status, size =>
      if UInt32.ofNat li > size then none
      else (splitSizes fi rest amPduMapSduFull (size - UInt32.ofNat li)).map
        fun l => (status, UInt32.ofNat li) :: l

/-- The statuses and sizes of the elements of a PDU. -/
def fieldSizes (data : Nat → UInt8) (length : Nat) (h : AmdHeader) :
    Option (List (RlcSduStatus × UInt32)) :=
  if h.e = 0 then some [(wholeStatus h.fi, UInt32.ofNat length - 2)]
  else
    (rlcGetConcatenationHeaderInfo data).bind fun pduHeader =>
      splitSizes h.fi pduHeader.dfeLength (firstStatus h.fi)
        (UInt32.ofNat length - UInt32.ofNat pduHeader.hdrSize)

/-- Cut off fields of the given lengths, with their bytes. -/
def splitFields (fi : UInt8) : List Nat → RlcSduStatus → List UInt8 →
    List (RlcSduStatus × List UInt8)
  | [], _, data => [(lastStatus fi, data)]
  | li :: rest, status, data =>
      (status, data.take li) :: splitFields fi rest amPduMapSduFull (data.drop li)

/-- The data fields of a PDU. -/
def fields (data : Nat → UInt8) (length : Nat) (h : AmdHeader) :
    List (RlcSduStatus × List UInt8) :=
  let bytes := (List.range length).map data
  if h.e = 0 then [(wholeStatus h.fi, bytes.drop 2)]
  else
    (rlcGetConcatenationHeaderInfo data).elim [] fun pduHeader =>
      splitFields h.fi pduHeader.dfeLength (firstStatus h.fi) (bytes.drop pduHeader.hdrSize)

/-! ## Splitting -/

/-- The status and the size of an element. -/
def AmdDfe.sized (dfe : AmdDfe β) : RlcSduStatus × UInt32 := (dfe.status, dfe.buffer.size)

/-- The bytes of a buffer. -/
def RlcAmBuffer.bytes (b : RlcAmBuffer β) (m : Store β) : List UInt8 := b.data m b.size.toNat

/-- The status and the bytes of an element. -/
def AmdDfe.field (m : Store β) (dfe : AmdDfe β) : RlcSduStatus × List UInt8 :=
  (dfe.status, dfe.buffer.bytes m)

/-- The queue so far is only added to. -/
theorem rlcDecodeAndEnqueueAmSegment_acc (env : Platform β) (fi : UInt8) (lis : List Nat)
    (s : RlcState β) (dfeQ : List (AmdDfe β)) (dfe : AmdDfe β) :
    rlcDecodeAndEnqueueAmSegment env fi lis s dfeQ dfe
      = ((rlcDecodeAndEnqueueAmSegment env fi lis s [] dfe).1,
          dfeQ ++ (rlcDecodeAndEnqueueAmSegment env fi lis s [] dfe).2.1,
          (rlcDecodeAndEnqueueAmSegment env fi lis s [] dfe).2.2) := by
  induction lis generalizing s dfeQ dfe with
  | nil => rfl
  | cons li rest ih =>
      unfold rlcDecodeAndEnqueueAmSegment
      simp only
      by_cases hli : UInt32.ofNat li > dfe.buffer.size
      · simp only [if_pos hli, List.append_nil]
      simp only [if_neg hli]
      rcases s.alloc env (env.sizeof .amdDFE) with ⟨t, _ | next⟩
      · simp only [List.append_nil]
      simp only
      rcases t.alloc env (dfe.buffer.size - UInt32.ofNat li).toNat with ⟨u, _ | pData⟩
      · simp only [List.append_nil]
      simp only [List.nil_append]
      rw [ih, ih _ [_]]
      simp only [List.append_assoc, List.singleton_append]

/-- One step of the splitting, when there is memory. -/
theorem rlcDecodeAndEnqueueAmSegment_cons {fi : UInt8} {li : Nat} {rest : List Nat}
    {s t u : RlcState β} {dfe : AmdDfe β} {next pData : β}
    (hli : ¬UInt32.ofNat li > dfe.buffer.size)
    (ha : s.alloc env (env.sizeof .amdDFE) = (t, some next))
    (hb : t.alloc env (dfe.buffer.size - UInt32.ofNat li).toNat = (u, some pData)) :
    let r := rlcDecodeAndEnqueueAmSegment env fi rest
      (u.onMem fun m => m.write pData
        (fun k => dfe.buffer.pData.elim (fun _ => 0) u.mem.bytes ((UInt32.ofNat li).toNat + k))
        (dfe.buffer.size - UInt32.ofNat li).toNat)
      [] ⟨next, amPduMapSduFull, dfe.buffer.size - UInt32.ofNat li, some pData⟩
    rlcDecodeAndEnqueueAmSegment env fi (li :: rest) s [] dfe
      = (r.1, { dfe with buffer := { dfe.buffer with size := UInt32.ofNat li } } :: r.2.1,
          r.2.2) := by
  intro r
  rw [rlcDecodeAndEnqueueAmSegment]
  simp only [if_neg hli, ha, hb, List.nil_append]
  rw [rlcDecodeAndEnqueueAmSegment_acc]
  rfl

/-- The state after the memory for the rest of the data has been allocated and filled. -/
def splitState (s : RlcState β) (dfe : AmdDfe β) (li : UInt32) (pData : β) : RlcState β :=
  s.onMem fun m => m.write pData
    (fun k => dfe.buffer.pData.elim (fun _ => 0) s.mem.bytes (li.toNat + k))
    (dfe.buffer.size - li).toNat

/-- **One step of the splitting**, when there is memory: the length indicator does not fit,
or the rest of the data is copied to a new element. -/
theorem rlcDecodeAndEnqueueAmSegment_inv {fi : UInt8} {li : Nat} {rest : List Nat}
    {s t : RlcState β} {dfe : AmdDfe β} {q : List (AmdDfe β)} {ok : Bool}
    (hr : rlcDecodeAndEnqueueAmSegment env fi (li :: rest) s [] dfe = (t, q, ok))
    (hf : t.mem.failures = s.mem.failures) :
    UInt32.ofNat li > dfe.buffer.size ∧ ok = false ∧ q = [] ∨
    ¬UInt32.ofNat li > dfe.buffer.size ∧ ∃ u v next pData q',
      s.alloc env (env.sizeof .amdDFE) = (u, some next) ∧
      u.alloc env (dfe.buffer.size - UInt32.ofNat li).toNat = (v, some pData) ∧
      rlcDecodeAndEnqueueAmSegment env fi rest (splitState v dfe (UInt32.ofNat li) pData) []
        ⟨next, amPduMapSduFull, dfe.buffer.size - UInt32.ofNat li, some pData⟩ = (t, q', ok) ∧
      q = { dfe with buffer := { dfe.buffer with size := UInt32.ofNat li } } :: q' ∧
      u.mem.failures = s.mem.failures ∧ v.mem.failures = s.mem.failures := by
  by_cases hli : UInt32.ofNat li > dfe.buffer.size
  · left
    rw [rlcDecodeAndEnqueueAmSegment, if_pos hli] at hr
    obtain ⟨-, rfl, rfl⟩ : _ = t ∧ [] = q ∧ false = ok := by simpa using hr
    exact ⟨hli, rfl, rfl⟩
  right
  refine ⟨hli, ?_⟩
  cases ha : s.alloc env (env.sizeof .amdDFE) with
  | mk u o =>
      have hu := alloc_failures_le ha
      cases o with
      | none =>
          rw [rlcDecodeAndEnqueueAmSegment, if_neg hli] at hr
          simp only [ha] at hr
          obtain rfl : (u.free? dfe.buffer.pData).free dfe.addr = t := congrArg Prod.fst hr
          have hlt := (alloc_refused ha dfe.addr).2
          have hdel := (rlcDeleteAmdDfe_works u dfe.addr dfe).failures
          exact absurd hf (hlt.trans_le hdel).ne'
      | some next =>
          cases hb : u.alloc env (dfe.buffer.size - UInt32.ofNat li).toNat with
          | mk v o =>
              have hv := alloc_failures_le hb
              cases o with
              | none =>
                  rw [rlcDecodeAndEnqueueAmSegment, if_neg hli] at hr
                  simp only [ha, hb] at hr
                  obtain rfl : ((v.free? dfe.buffer.pData).free next).free dfe.addr = t :=
                    congrArg Prod.fst hr
                  have hlt := (alloc_refused hb dfe.addr).2
                  have h1 := (free?_works v dfe.addr dfe.buffer.pData).failures
                  have h2 := (free_works (v.free? dfe.buffer.pData) dfe.addr next).failures
                  have h3 := (free_works ((v.free? dfe.buffer.pData).free next) dfe.addr
                    dfe.addr).failures
                  omega
              | some pData =>
                  rw [rlcDecodeAndEnqueueAmSegment_cons hli ha hb] at hr
                  simp only [Prod.mk.injEq] at hr
                  obtain ⟨ht, rfl, hok⟩ := hr
                  have hw : v.mem.failures ≤ t.mem.failures := by
                    rw [← ht]
                    exact (rlcDecodeAndEnqueueAmSegment_works env fi dfe.addr rest
                      (splitState v dfe (UInt32.ofNat li) pData) []
                      ⟨next, amPduMapSduFull, dfe.buffer.size - UInt32.ofNat li,
                        some pData⟩).failures
                  refine ⟨u, v, next, pData, _, rfl, hb, Prod.ext ht (Prod.ext rfl hok), rfl,
                    ?_, ?_⟩
                  · omega
                  · omega

/-- The sizes of the elements, if there is memory. -/
theorem rlcDecodeAndEnqueueAmSegment_sizes {fi : UInt8} {lis : List Nat} {s t : RlcState β}
    {dfe : AmdDfe β} {q : List (AmdDfe β)} {ok : Bool}
    (hr : rlcDecodeAndEnqueueAmSegment env fi lis s [] dfe = (t, q, ok))
    (hf : t.mem.failures = s.mem.failures) :
    splitSizes fi lis dfe.status dfe.buffer.size
        = (if ok then some (q.map AmdDfe.sized) else none) ∧
      (dfe.buffer.pData.isSome → ∀ d ∈ q, d.buffer.pData.isSome) := by
  induction lis generalizing s dfe q with
  | nil =>
      obtain ⟨rfl, rfl, rfl⟩ : s = t ∧ _ = q ∧ true = ok := by
        simpa [rlcDecodeAndEnqueueAmSegment] using hr
      refine ⟨rfl, ?_⟩
      intro hd d hmem
      obtain rfl := List.mem_singleton.mp hmem
      exact hd
  | cons li rest ih =>
      rcases rlcDecodeAndEnqueueAmSegment_inv hr hf with
        ⟨hli, rfl, rfl⟩ | ⟨hli, u, v, next, pData, q', -, -, hrest, rfl, -, hv⟩
      · rw [splitSizes, if_pos hli]
        exact ⟨rfl, by simp⟩
      · obtain ⟨hs, hd⟩ := ih hrest (hf.trans hv.symm)
        constructor
        · rw [splitSizes, if_neg hli, hs]
          cases ok <;> rfl
        · intro hsome d hmem
          rcases List.mem_cons.mp hmem with rfl | hmem
          · exact hsome
          · exact hd rfl d hmem

/-! ### The bytes of the elements -/

@[simp] theorem bytes_some (size : UInt32) (b : β) (m : Store β) :
    (RlcAmBuffer.mk size (some b)).bytes m = (List.range size.toNat).map (m.bytes b) := rfl

theorem take_map_range {γ : Type} (f : Nat → γ) {k n : Nat} (h : k ≤ n) :
    ((List.range n).map f).take k = (List.range k).map f := by
  rw [← List.map_take, List.take_range, Nat.min_eq_left h]

theorem drop_map_range {γ : Type} (f : Nat → γ) (k n : Nat) :
    ((List.range n).map f).drop k = (List.range (n - k)).map fun i => f (k + i) := by
  apply List.ext_getElem
  · simp
  · intro i h1 h2
    simp

/-- An element whose block has exactly the recorded length of its data. -/
def AmdDfe.Exact (m : Store β) (dfe : AmdDfe β) : Prop :=
  ∀ b, dfe.buffer.pData = some b → m.length b = dfe.buffer.size.toNat

/-- An element with which the recorded lengths are right: a fragment that may become part of
the incomplete SDU has a block of exactly its length. -/
structure AmdDfe.Sound (m : Store β) (dfe : AmdDfe β) : Prop where
  isSome : dfe.buffer.pData.isSome
  size : dfe.buffer.size.toNat < 2 ^ 16
  fits : ∀ b, dfe.buffer.pData = some b → dfe.buffer.size.toNat ≤ m.length b
  exact : dfe.status = amPduMapSduStart ∨ dfe.status = amPduMapSduMid → dfe.Exact m

theorem bytes_splitState (s : RlcState β) (dfe : AmdDfe β) (li : UInt32) (pData c : β) :
    (splitState s dfe li pData).mem.bytes c
      = if c = pData then
          fun k => if k < (dfe.buffer.size - li).toNat then
            dfe.buffer.pData.elim (fun _ => 0) s.mem.bytes (li.toNat + k)
          else s.mem.bytes pData k
        else s.mem.bytes c := by
  show Function.update s.mem.bytes pData _ c = _
  by_cases hc : c = pData
  · rw [hc, Function.update_self, if_pos rfl]
  · rw [Function.update_of_ne hc, if_neg hc]

/-- **The bytes of the elements**, when the length indicators fit. -/
theorem rlcDecodeAndEnqueueAmSegment_fields {fi : UInt8} {lis : List Nat} {s t : RlcState β}
    {dfe : AmdDfe β} {q : List (AmdDfe β)} {ok : Bool} {b : β} {r : Multiset β}
    (hr : rlcDecodeAndEnqueueAmSegment env fi lis s [] dfe = (t, q, ok))
    (hf : t.mem.failures = s.mem.failures) (hn : s.mem.inUse.Nodup)
    (hu : s.mem.inUse = dfe.blocks + r) (hb : dfe.buffer.pData = some b)
    (hst : dfe.status = amPduMapSduEnd ∨ dfe.status = amPduMapSduFull)
    (hx : dfe.Exact s.mem) (hsum : lis.sum ≤ dfe.buffer.size.toNat)
    (hsize : dfe.buffer.size.toNat < 2 ^ 16) :
    ok = true ∧
      q.map (AmdDfe.field t.mem) = splitFields fi lis dfe.status (dfe.buffer.bytes s.mem) ∧
      ∀ d ∈ q, d.Sound t.mem := by
  induction lis generalizing s dfe q b r with
  | nil =>
      obtain ⟨rfl, rfl, rfl⟩ : s = t ∧ _ = q ∧ true = ok := by
        simpa [rlcDecodeAndEnqueueAmSegment] using hr
      refine ⟨rfl, rfl, fun d hd => ?_⟩
      obtain rfl := List.mem_singleton.mp hd
      exact ⟨by simp [hb], hsize, fun c hc => (hx c hc).ge, fun _ => hx⟩
  | cons li lis ih =>
      rw [List.sum_cons] at hsum
      have hli32 : (UInt32.ofNat li).toNat = li := by
        rw [UInt32.toNat_ofNat']
        omega
      rcases rlcDecodeAndEnqueueAmSegment_inv hr hf with
        ⟨hli, -⟩ | ⟨hli, u, v, next, pData, q', ha, hp, hrest, rfl, huf, hvf⟩
      · rw [gt_iff_lt, UInt32.lt_iff_toNat_lt, hli32] at hli
        omega
      have hsub : (dfe.buffer.size - UInt32.ofNat li).toNat = dfe.buffer.size.toNat - li := by
        rw [UInt32.toNat_sub_of_le _ _ (UInt32.not_lt.mp hli), hli32]
      obtain ⟨-, -, hbu, -⟩ := alloc_fresh ha
      obtain ⟨hfresh, hlen, hbv, -⟩ := alloc_fresh hp
      -- the blocks in use after the two allocations
      have hku := (alloc_memWorks ha).transfer.keeps (dfe.blocks + r) hn (by
        rw [hu, zero_add])
      have hkv := (alloc_memWorks hp).transfer.keeps ({next} + (dfe.blocks + r)) hku.nodup (by
        rw [hku.inUse, zero_add, blockOf_some])
      have hbmem : b ∈ dfe.blocks + r := by
        unfold AmdDfe.blocks
        rw [hb]
        simp
      have hbne : b ≠ pData := by
        rintro rfl
        apply hfresh
        rw [hku.inUse]
        exact Multiset.mem_add.mpr (Or.inr hbmem)
      have huw : (splitState v dfe (UInt32.ofNat li) pData).mem.inUse
          = {next} + blockOf (some pData) + (dfe.blocks + r) := by
        show v.mem.inUse = _
        rw [hkv.inUse]
        ac_rfl
      have hdata : (List.range (dfe.buffer.size - UInt32.ofNat li).toNat).map
          ((splitState v dfe (UInt32.ofNat li) pData).mem.bytes pData)
          = (dfe.buffer.bytes s.mem).drop li := by
        unfold RlcAmBuffer.bytes RlcAmBuffer.data
        rw [hb, Option.elim_some, drop_map_range, hsub]
        apply List.map_congr_left
        intro k hk
        rw [bytes_splitState, if_pos rfl, if_pos (by rw [hsub]; exact List.mem_range.mp hk), hb,
          Option.elim_some, hli32, hbv, hbu]
      have hw := rlcDecodeAndEnqueueAmSegment_memWorks env fi lis
        (splitState v dfe (UInt32.ofNat li) pData) []
        ⟨next, amPduMapSduFull, dfe.buffer.size - UInt32.ofNat li, some pData⟩
      rw [hrest] at hw
      have hkt := hw.transfer.keeps (dfe.blocks + r) hkv.nodup
        (by rw [queueBlocks_nil, zero_add]; exact huw)
      have hexact : AmdDfe.Exact (splitState v dfe (UInt32.ofNat li) pData).mem
          ⟨next, amPduMapSduFull, dfe.buffer.size - UInt32.ofNat li, some pData⟩ := by
        intro c hc
        obtain rfl : pData = c := Option.some.inj hc
        show v.mem.length pData = (dfe.buffer.size - UInt32.ofNat li).toNat
        rw [hlen]
        apply Nat.mod_eq_of_lt
        omega
      obtain ⟨hok, hmap, hsound⟩ := ih hrest (hf.trans hvf.symm) hkv.nodup huw rfl (Or.inr rfl)
        hexact (by rw [hsub]; omega) (by rw [hsub]; omega)
      have hbt : t.mem.bytes b = s.mem.bytes b := by
        rw [hkt.bytes b hbmem, bytes_splitState, if_neg hbne, hbv, hbu]
      have hlt : t.mem.length b = s.mem.length b := by
        rw [hkt.length b hbmem]
        show v.mem.length b = s.mem.length b
        rw [hkv.length b (Multiset.mem_add.mpr (Or.inr hbmem)), hku.length b hbmem]
      refine ⟨hok, ?_, fun d hd => ?_⟩
      · rw [List.map_cons, hmap, splitFields, bytes_some, hdata]
        congr 1
        unfold AmdDfe.field RlcAmBuffer.bytes RlcAmBuffer.data
        simp only [hb, Option.elim_some, hli32, hbt]
        rw [take_map_range _ (by omega)]
      · rcases List.mem_cons.mp hd with rfl | hd
        · refine ⟨by simp [hb], ?_, fun c hc => ?_, fun hfrag => ?_⟩
          · show (UInt32.ofNat li).toNat < 2 ^ 16
            omega
          · obtain rfl : b = c := Option.some.inj (hb.symm.trans hc)
            have hlen := hx b hb
            show (UInt32.ofNat li).toNat ≤ t.mem.length b
            omega
          · rcases hst with hst | hst <;> simp [hst] at hfrag
        · exact hsound d hd

/-! ## The whole PDU -/

theorem rlcSetAmdPduAndDfeStatus_eq (pdu : AmdPdu β) (h : AmdHeader) (a : β)
    (buffer : RlcAmBuffer β) :
    (rlcSetAmdPduAndDfeStatus pdu h ⟨a, amPduMapSduFull, buffer⟩).2
        = ⟨a, wholeStatus h.fi, buffer⟩ ∧
      (rlcSetAmdPduAndDfeStatus pdu h ⟨a, amPduMapSduFull, buffer⟩).1.segList = pdu.segList ∧
      (rlcSetAmdPduAndDfeStatus pdu h ⟨a, amPduMapSduFull, buffer⟩).1.addr = pdu.addr := by
  unfold rlcSetAmdPduAndDfeStatus wholeStatus
  simp only
  refine ⟨?_, ?_, ?_⟩ <;> split_ifs <;> rfl

/-- The state after the header has been removed from the data. -/
def removeHeader (s : RlcState β) (b : β) (n : Nat) : RlcState β :=
  s.onMem fun m => m.dropFront b n

/-- **What the decoder does**, when there is memory: one element, nothing, or as many as the
length indicators say. -/
theorem rlcDecodeAmdPdu_inv {s t : RlcState β} {pdu : AmdPdu β} {h : AmdHeader} {b : β}
    {lcId length : Nat} {r : Option (AmdPdu β)} (hpdu : pdu.segList = [])
    (hr : rlcDecodeAmdPdu env s pdu h ⟨lcId, length, some b⟩ = (t, r))
    (hf : t.mem.failures = s.mem.failures) :
    (h.e ≠ 0 ∧ rlcGetConcatenationHeaderInfo (s.mem.bytes b) = none ∧ r = none) ∨
    ∃ seg a u v, s.alloc env (env.sizeof .amdPduSegment) = (u, some seg) ∧
      u.alloc env (env.sizeof .amdDFE) = (v, some a) ∧
      u.mem.failures = s.mem.failures ∧ v.mem.failures = s.mem.failures ∧
      (h.e = 0 ∧ t = removeHeader v b 2 ∧
        (∃ p, r = some p ∧ p.addr = pdu.addr ∧ p.segList =
          [⟨seg, [⟨a, wholeStatus h.fi, ⟨UInt32.ofNat length - 2, some b⟩⟩]⟩]) ∨
      h.e ≠ 0 ∧ ∃ pduHeader w q ok,
        rlcGetConcatenationHeaderInfo (s.mem.bytes b) = some pduHeader ∧
        rlcDecodeAndEnqueueAmSegment env h.fi pduHeader.dfeLength
          (removeHeader v b pduHeader.hdrSize) []
          ⟨a, firstStatus h.fi,
            ⟨UInt32.ofNat length - UInt32.ofNat pduHeader.hdrSize, some b⟩⟩ = (w, q, ok) ∧
        w.mem.failures = s.mem.failures ∧
        (ok = false ∧ r = none ∨
          ok = true ∧ t = w ∧ ∃ p, r = some p ∧ p.addr = pdu.addr ∧ p.segList = [⟨seg, q⟩])) := by
  unfold rlcDecodeAmdPdu at hr
  simp only [hpdu, List.length_nil, ne_eq, not_true_eq_false, if_false, List.nil_append,
    Option.elim_some] at hr
  cases hseg : s.alloc env (env.sizeof .amdPduSegment) with
  | mk u o =>
      have hu := alloc_failures_le hseg
      rw [hseg] at hr
      cases o with
      | none =>
          obtain rfl : u.free? (some b) = t := congrArg Prod.fst hr
          have hlt := (alloc_refused hseg b).2
          have hdel := (free?_works u b (some b)).failures
          exact absurd hf (hlt.trans_le hdel).ne'
      | some seg =>
          -- the data and the segment are released
          have hdel : ∀ v : RlcState β, v.mem.failures
              ≤ (rlcDeleteAmdPduSegment (v.free? (some b)) ⟨seg, []⟩).mem.failures := by
            intro v
            have h1 := (free?_works v b (some b)).failures
            have h2 := (rlcDeleteAmdPduSegment_works (v.free? (some b)) b ⟨seg, []⟩).failures
            omega
          simp only at hr
          by_cases he : h.e = 0
          · rw [if_pos he] at hr
            cases ha : u.alloc env (env.sizeof .amdDFE) with
            | mk v o =>
                have hv := alloc_failures_le ha
                rw [ha] at hr
                cases o with
                | none =>
                    obtain rfl : rlcDeleteAmdPduSegment (v.free? (some b)) ⟨seg, []⟩ = t :=
                      congrArg Prod.fst hr
                    have hlt := (alloc_refused ha b).2
                    have h1 := hdel v
                    omega
                | some a =>
                    simp only [Prod.mk.injEq] at hr
                    obtain ⟨rfl, rfl⟩ := hr
                    have hvf : v.mem.failures = s.mem.failures := by
                      have h1 : (removeHeader v b 2).mem.failures = v.mem.failures :=
                        dropFront_failures v.mem b 2
                      have h2 : (removeHeader v b 2).mem.failures = s.mem.failures := hf
                      omega
                    obtain ⟨hd, hl, hp⟩ := rlcSetAmdPduAndDfeStatus_eq pdu h a
                      ⟨UInt32.ofNat length - 2, some b⟩
                    refine Or.inr ⟨seg, a, u, v, rfl, ha, by omega, hvf, Or.inl
                      ⟨he, rfl, _, rfl, hp, ?_⟩⟩
                    simp only [hd, hl, hpdu, List.nil_append]
          · rw [if_neg he] at hr
            cases hlis : rlcGetConcatenationHeaderInfo (s.mem.bytes b) with
            | none =>
                rw [hlis] at hr
                exact Or.inl ⟨he, rfl, (congrArg Prod.snd hr).symm⟩
            | some pduHeader =>
                rw [hlis] at hr
                simp only at hr
                cases ha : u.alloc env (env.sizeof .amdDFE) with
                | mk v o =>
                    have hv := alloc_failures_le ha
                    rw [ha] at hr
                    cases o with
                    | none =>
                        obtain rfl : rlcDeleteAmdPduSegment (v.free? (some b)) ⟨seg, []⟩ = t :=
                          congrArg Prod.fst hr
                        have hlt := (alloc_refused ha b).2
                        have h1 := hdel v
                        omega
                    | some a =>
                        simp only at hr
                        have hw := (rlcDecodeAndEnqueueAmSegment_works env h.fi b
                          pduHeader.dfeLength (removeHeader v b pduHeader.hdrSize) []
                          ⟨a, firstStatus h.fi, ⟨UInt32.ofNat length
                            - UInt32.ofNat pduHeader.hdrSize, some b⟩⟩).failures
                        have hv1 : (removeHeader v b pduHeader.hdrSize).mem.failures
                            = v.mem.failures := dropFront_failures v.mem b _
                        cases hq : rlcDecodeAndEnqueueAmSegment env h.fi pduHeader.dfeLength
                            (removeHeader v b pduHeader.hdrSize) []
                            ⟨a, firstStatus h.fi, ⟨UInt32.ofNat length
                              - UInt32.ofNat pduHeader.hdrSize, some b⟩⟩ with
                        | mk w qo =>
                            obtain ⟨q, ok⟩ := qo
                            rw [hq] at hw
                            have hw1 : (removeHeader v b pduHeader.hdrSize).mem.failures
                                ≤ w.mem.failures := hw
                            unfold removeHeader firstStatus at hq
                            rw [hq] at hr
                            have hle : w.mem.failures ≤ t.mem.failures := by
                              cases ok with
                              | false =>
                                  obtain rfl : rlcDeleteAmdPduSegment w ⟨seg, q⟩ = t :=
                                    congrArg Prod.fst hr
                                  exact (rlcDeleteAmdPduSegment_works w b ⟨seg, q⟩).failures
                              | true =>
                                  obtain rfl : w = t := congrArg Prod.fst hr
                                  exact le_rfl
                            refine Or.inr ⟨seg, a, u, v, rfl, ha, by omega, by omega, Or.inr
                              ⟨he, pduHeader, w, q, ok, rfl, hq, by omega, ?_⟩⟩
                            cases ok with
                            | false => exact Or.inl ⟨rfl, (congrArg Prod.snd hr).symm⟩
                            | true =>
                                simp only [Prod.mk.injEq] at hr
                                obtain ⟨rfl, rfl⟩ := hr
                                exact Or.inr ⟨rfl, rfl, _, rfl, rfl, rfl⟩

/-- The elements of a PDU have the sizes that its header says. -/
theorem rlcDecodeAmdPdu_sizes {s t : RlcState β} {pdu : AmdPdu β} {h : AmdHeader} {b : β}
    {lcId length : Nat} {r : Option (AmdPdu β)} (hpdu : pdu.segList = [])
    (hr : rlcDecodeAmdPdu env s pdu h ⟨lcId, length, some b⟩ = (t, r))
    (hf : t.mem.failures = s.mem.failures) :
    fieldSizes (s.mem.bytes b) length h = none ∧ r = none ∨
    ∃ p seg q, r = some p ∧ p.addr = pdu.addr ∧ p.segList = [⟨seg, q⟩] ∧
      fieldSizes (s.mem.bytes b) length h = some (q.map AmdDfe.sized) ∧
      ∀ d ∈ q, d.buffer.pData.isSome := by
  unfold fieldSizes
  rcases rlcDecodeAmdPdu_inv hpdu hr hf with
    ⟨he, hnone, hr⟩ | ⟨seg, a, u, v, -, -, -, hv, ⟨he, -, p, hr, hp, hq⟩ |
      ⟨he, pduHeader, w, q, ok, hsome, hq, hw, hend⟩⟩
  · left
    rw [if_neg he, hnone]
    exact ⟨rfl, hr⟩
  · right
    rw [if_pos he]
    exact ⟨p, seg, _, hr, hp, hq, rfl, by simp⟩
  · have hwv : w.mem.failures = (removeHeader v b pduHeader.hdrSize).mem.failures := by
      rw [hw, ← hv]
      exact (dropFront_failures v.mem b _).symm
    obtain ⟨hs, hd⟩ := rlcDecodeAndEnqueueAmSegment_sizes hq hwv
    rw [if_neg he, hsome, Option.bind_some, hs]
    rcases hend with ⟨rfl, hr⟩ | ⟨rfl, -, p, hr, hp, hseg⟩
    · exact Or.inl ⟨rfl, hr⟩
    · exact Or.inr ⟨p, seg, q, hr, hp, hseg, rfl, hd rfl⟩

theorem dropFront_length (m : Store β) (b : β) {n : Nat} (h : n ≤ m.length b) :
    (m.dropFront b n).length b = m.length b - n := by
  unfold Store.dropFront
  by_cases h0 : m.length b = 0
  · rw [if_pos h0]
    omega
  · rw [if_neg h0, if_neg (by omega)]
    exact Function.update_self ..

theorem dropFront_bytes (m : Store β) (b : β) {n k : Nat} (h : n ≤ m.length b)
    (hk : k < m.length b - n) : (m.dropFront b n).bytes b k = m.bytes b (n + k) := by
  unfold Store.dropFront
  rw [if_neg (by omega), if_neg (by omega)]
  show Function.update m.bytes b _ b k = _
  rw [Function.update_self, if_pos hk]

/-- The data after the header. -/
theorem bytes_removeHeader {s : RlcState β} {b : β} {n length : Nat}
    (hlen : s.mem.length b = length) (hn : n ≤ length) (hlt : length < 2 ^ 16) :
    (RlcAmBuffer.mk (UInt32.ofNat length - UInt32.ofNat n) (some b)).bytes
        (removeHeader s b n).mem = ((List.range length).map (s.mem.bytes b)).drop n ∧
      (removeHeader s b n).mem.length b = length - n ∧
      (UInt32.ofNat length - UInt32.ofNat n).toNat = length - n := by
  have hsub : (UInt32.ofNat length - UInt32.ofNat n).toNat = length - n := by
    rw [UInt32.toNat_sub_of_le]
    · rw [UInt32.toNat_ofNat', UInt32.toNat_ofNat']
      omega
    · rw [UInt32.le_iff_toNat_le, UInt32.toNat_ofNat', UInt32.toNat_ofNat']
      omega
  refine ⟨?_, ?_, hsub⟩
  · rw [bytes_some, hsub, drop_map_range]
    apply List.map_congr_left
    intro k hk
    apply dropFront_bytes
    · rw [hlen]
      exact hn
    · rw [hlen]
      exact List.mem_range.mp hk
  · rw [← hlen]
    apply dropFront_length
    rw [hlen]
    exact hn

/-- The PDU has room for its header, and its length indicators fit. -/
def Fits (data : Nat → UInt8) (length : Nat) (h : AmdHeader) : Prop :=
  h.e = 0 ∧ 2 ≤ length ∨
  h.e ≠ 0 ∧ ∃ pduHeader, rlcGetConcatenationHeaderInfo data = some pduHeader ∧
    pduHeader.hdrSize + pduHeader.dfeLength.sum ≤ length

/-- **The elements of a PDU are its data fields**, if they fit. -/
theorem rlcDecodeAmdPdu_fields {s t : RlcState β} {pdu : AmdPdu β} {h : AmdHeader} {b : β}
    {lcId length : Nat} {r : Option (AmdPdu β)} {rest : Multiset β} (hpdu : pdu.segList = [])
    (hr : rlcDecodeAmdPdu env s pdu h ⟨lcId, length, some b⟩ = (t, r))
    (hf : t.mem.failures = s.mem.failures) (hn : s.mem.inUse.Nodup)
    (hu : s.mem.inUse = {b} + rest) (hlen : s.mem.length b = length)
    (hlt : length < 2 ^ 16) (hfit : Fits (s.mem.bytes b) length h) :
    ∃ p seg q, r = some p ∧ p.addr = pdu.addr ∧ p.segList = [⟨seg, q⟩] ∧
      q.map (AmdDfe.field t.mem) = fields (s.mem.bytes b) length h ∧
      ∀ d ∈ q, d.Sound t.mem := by
  have hlast : ∀ {a : β} {status : RlcSduStatus} {v : RlcState β} {n : Nat},
      v.mem.length b = length → n ≤ length →
      AmdDfe.Exact (removeHeader v b n).mem
        ⟨a, status, ⟨UInt32.ofNat length - UInt32.ofNat n, some b⟩⟩ := by
    intro a status v n hv hle c hc
    obtain rfl : b = c := Option.some.inj hc
    obtain ⟨-, h1, h2⟩ := bytes_removeHeader hv hle hlt
    exact h1.trans h2.symm
  rcases rlcDecodeAmdPdu_inv hpdu hr hf with
    ⟨he, hnone, -⟩ | ⟨seg, a, u, v, hseg, ha, huf, hvf, hcase⟩
  · rcases hfit with ⟨he', -⟩ | ⟨-, pduHeader, hsome, -⟩
    · exact absurd he' he
    · rw [hnone] at hsome
      exact absurd hsome (by simp)
  -- the data is untouched by the allocations of the segment and of the element
  have hku := (alloc_memWorks hseg).transfer.keeps ({b} + rest) hn (by rw [hu, zero_add])
  have hkv := (alloc_memWorks ha).transfer.keeps ({seg} + ({b} + rest)) hku.nodup (by
    rw [hku.inUse, zero_add, blockOf_some])
  have hbmem : b ∈ {b} + rest := by simp
  have hbv : v.mem.bytes b = s.mem.bytes b := by
    rw [hkv.bytes b (Multiset.mem_add.mpr (Or.inr hbmem)), hku.bytes b hbmem]
  have hlv : v.mem.length b = length := by
    rw [hkv.length b (Multiset.mem_add.mpr (Or.inr hbmem)), hku.length b hbmem, hlen]
  unfold fields
  simp only
  rcases hcase with ⟨he, rfl, p, hr, hp, hq⟩ | ⟨he, pduHeader, w, q, ok, hsome, hq, hw, hend⟩
  · have hle : 2 ≤ length := by
      rcases hfit with ⟨-, h2⟩ | ⟨he', -⟩
      · exact h2
      · exact absurd he he'
    obtain ⟨hbytes, hl, hsub⟩ := bytes_removeHeader hlv hle hlt
    have hsize : (UInt32.ofNat length - 2).toNat = length - 2 := hsub
    refine ⟨p, seg, _, hr, hp, hq, ?_, fun d hd => ?_⟩
    · rw [if_pos he, ← hbv, ← hbytes]
      rfl
    · obtain rfl := List.mem_singleton.mp hd
      have hx : AmdDfe.Exact (removeHeader v b 2).mem
          ⟨a, wholeStatus h.fi, ⟨UInt32.ofNat length - UInt32.ofNat 2, some b⟩⟩ := hlast hlv hle
      refine ⟨rfl, ?_, fun c hc => (hx c hc).ge, fun _ => hx⟩
      show (UInt32.ofNat length - 2).toNat < 2 ^ 16
      omega
  · obtain ⟨ph, hph, hle⟩ : ∃ pduHeader, rlcGetConcatenationHeaderInfo (s.mem.bytes b)
        = some pduHeader ∧ pduHeader.hdrSize + pduHeader.dfeLength.sum ≤ length := by
      rcases hfit with ⟨he', -⟩ | ⟨-, hfit⟩
      · exact absurd he' he
      · exact hfit
    obtain rfl : ph = pduHeader := Option.some.inj (hph.symm.trans hsome)
    have hhdr : ph.hdrSize ≤ length := by omega
    obtain ⟨hbytes, hl, hsub⟩ := bytes_removeHeader hlv hhdr hlt
    have hwv : w.mem.failures = (removeHeader v b ph.hdrSize).mem.failures := by
      rw [hw, ← hvf]
      exact (dropFront_failures v.mem b _).symm
    -- the data is the element that is split
    have hrm := (dropFront_transfer v.mem b ph.hdrSize).keeps ({a} + ({seg} + rest)) hkv.nodup
      (by rw [hkv.inUse, blockOf_some]; ac_rfl)
    obtain ⟨hok, hmap, hsound⟩ := rlcDecodeAndEnqueueAmSegment_fields (r := {seg} + rest) hq
      hwv hrm.nodup
      (by
        show (v.mem.dropFront b ph.hdrSize).inUse = {a} + {b} + ({seg} + rest)
        rw [hrm.inUse]
        ac_rfl)
      rfl (firstStatus_or h.fi) (hlast hlv hhdr) (by rw [hsub]; omega) (by rw [hsub]; omega)
    rcases hend with ⟨hno, -⟩ | ⟨-, rfl, p, hr, hp, hpseg⟩
    · rw [hok] at hno
      exact absurd hno (by simp)
    · refine ⟨p, seg, q, hr, hp, hpseg, ?_, hsound⟩
      rw [if_neg he, hsome, Option.elim_some, hmap, hbytes, hbv]

end LteUlp.Rlc
