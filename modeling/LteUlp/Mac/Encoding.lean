import LteUlp.Basic.Endian
import LteUlp.Basic.Reads
import LteUlp.Mac.Bounds

set_option autoImplicit false

/-! # MAC PDUs as they are sent

A PDU consists of SDUs and control elements, each announced by a subheader, and of padding at
either end. `MacLayout` says what is in a PDU and how it ends, `MacLayout.bytes` is how it is
sent. The decoder finds in the bytes the subheaders that were written (`subheaders_chain`),
refuses none of them, and so fills its table with the elements (`macLoop_decodes`).
-/

namespace LteUlp.Mac

open ByteString

/-! ## Subheaders -/

/-- `R/R/E/LCID`, with the reserved bits clear. -/
def firstOctet (extn : Bool) (lcId : Nat) : UInt8 := UInt8.ofNat (32 * extn.toNat + lcId)

/-- `F/L`: seven bits of length, or fifteen. -/
def lengthField (n : Nat) : List UInt8 :=
  if n < 128 then [UInt8.ofNat n] else [UInt8.ofNat (128 + n / 256), UInt8.ofNat (n % 256)]

/-- A subheader as it is sent. Only an SDU has a length field, and not in the last one. -/
def Subheader.bytes (h : Subheader) : List UInt8 :=
  firstOctet h.extn h.lcId :: if h.lcId ≤ macLcid10 ∧ h.extn = true then lengthField h.length else []

/-- The fields have values that can be sent and that the decoder takes. -/
structure Subheader.Sendable (h : Subheader) : Prop where
  lcId : h.lcId < 32
  size : h.size = h.bytes.length
  sdu : h.IsSdu → 0 < h.length ∧ (h.lcId = macUlCcchLch → h.length ≤ 100) ∧
    (h.extn = true → h.length < 2 ^ 15)
  other : ¬ h.IsSdu → h.length = (ceLength h.lcId).getD 0 ∧ ¬ h.IsReserved

section Fields

theorem firstOctet_fields : ∀ (extn : Bool) (lcId : Nat), lcId < 32 →
    lcIdOf (firstOctet extn lcId) = lcId ∧ extnOf (firstOctet extn lcId) = extn := by
  decide

theorem shortLength_fields : ∀ n < 128,
    ¬ UInt8.ofNat n &&& 0x80 ≠ 0 ∧ (UInt8.ofNat n &&& 0x7f).toNat = n := by
  decide +kernel

theorem longLength_fields : ∀ n < 128,
    UInt8.ofNat (128 + n) &&& 0x80 ≠ 0 ∧ (UInt8.ofNat (128 + n) &&& 0x7f).toNat = n := by
  decide +kernel

/-- The two octets of a long length make up the length. -/
theorem longLength_value {n : Nat} (hn : n < 2 ^ 15) :
    ((UInt8.ofNat (128 + n / 256) &&& 0x7f).toNat <<< 8) ||| (UInt8.ofNat (n % 256)).toNat = n := by
  have hlow : n % 256 < 2 ^ 8 := Nat.mod_lt _ (by decide)
  have hbyte : (UInt8.ofNat (n % 256)).toNat = n % 256 := by
    rw [UInt8.toNat_ofNat']
    exact Nat.mod_eq_of_lt hlow
  rw [(longLength_fields (n / 256) (by omega)).2, hbyte, Endian.shiftLeft_or _ hlow]
  omega

end Fields

section Chain

variable {m : Nat → UInt8} {n : Nat} {hs chain : List Subheader} {h : Subheader}

theorem headerBytes_eq (hw : ∀ h ∈ hs, h.Sendable) :
    headerBytes hs = (hs.flatMap Subheader.bytes).length := by
  rw [List.length_flatMap, headerBytes]
  congr 1
  exact List.map_congr_left fun h hh => (hw h hh).size

theorem countedBytes_eq (hw : ∀ h ∈ hs, h.Sendable) : countedBytes hs = headerBytes hs := by
  unfold countedBytes headerBytes
  congr 1
  refine List.map_congr_left fun h hh => if_neg fun hres => ?_
  have hsdu : ¬ h.IsSdu := Nat.not_le.mpr hres.1
  exact ((hw h hh).other hsdu).2 hres

/-- **The subheader that was written is read.** The length of the last SDU is what is left of
the PDU. -/
theorem subheaderAfter_bytes (hw : h.Sendable)
    (hlast : h.IsSdu → h.extn = false → h.length = n - payloadBytes hs - (countedBytes hs + 1))
    (hr : Reads m (headerBytes hs) h.bytes) : subheaderAfter m n hs = h := by
  obtain ⟨lcId, extn, size, length⟩ := h
  obtain ⟨hlc, hx⟩ := firstOctet_fields extn lcId hw.lcId
  have hsize : size = _ := hw.size
  have hfirst : m (headerBytes hs) = firstOctet extn lcId := hr.head
  simp only [subheaderAfter]
  rw [hfirst, hlc, hx]
  by_cases hsdu : lcId ≤ macLcid10
  · obtain ⟨-, -, hshort⟩ := hw.sdu hsdu
    rw [if_pos hsdu]
    cases extn with
    | false =>
        obtain rfl : length = _ := hlast hsdu rfl
        obtain rfl : size = 1 := by simpa [Subheader.bytes] using hsize
        rw [if_pos rfl]
    | true =>
        have hbytes : Subheader.bytes ⟨lcId, true, size, length⟩
            = firstOctet true lcId :: lengthField length := by
          simp only [Subheader.bytes, if_pos (And.intro hsdu trivial)]
        rw [hbytes] at hr hsize
        have hl := hr.tail
        rw [if_neg (by decide)]
        unfold lengthField at hl hsize
        by_cases h7 : length < 128
        · -- a length of 7 bits
          rw [if_pos h7] at hl hsize
          obtain ⟨hf, hv⟩ := shortLength_fields length h7
          obtain rfl : size = 2 := by simpa using hsize
          rw [hl.head, if_neg hf, hv]
        · -- a length of 15 bits
          rw [if_neg h7] at hl hsize
          have hlt : length < 2 ^ 15 := hshort rfl
          have hf := (longLength_fields (length / 256) (by omega)).1
          have hsecond : m (headerBytes hs + 2) = UInt8.ofNat (length % 256) := hl.tail.head
          obtain rfl : size = 3 := by simpa using hsize
          rw [hl.head, hsecond, if_pos hf, longLength_value hlt]
  · obtain ⟨hlen, -⟩ := hw.other hsdu
    have hone : size = 1 := by simpa [Subheader.bytes, hsdu] using hsize
    have hlen' : length = (ceLength lcId).getD 0 := hlen
    rw [if_neg hsdu, hone, hlen']

/-- **The chain that was written is the chain that is read.** -/
theorem subheaders_chain (hw : ∀ h ∈ chain, h.Sendable)
    (hr : Reads m 0 (chain.flatMap Subheader.bytes))
    (hlast : ∀ hs h hs', chain = hs ++ h :: hs' → h.IsSdu → h.extn = false →
      h.length = n - payloadBytes hs - (countedBytes hs + 1))
    {k : Nat} (hk : k ≤ chain.length) : subheaders m n k = chain.take k := by
  induction k with
  | zero => rfl
  | succ k ih =>
      have hlt : k < chain.length := hk
      have hsplit : chain = chain.take k ++ chain[k] :: chain.drop (k + 1) := by
        rw [← List.drop_eq_getElem_cons hlt, List.take_append_drop]
      have hprefix : headerBytes (chain.take k)
          = ((chain.take k).flatMap Subheader.bytes).length :=
        headerBytes_eq fun h hh => hw h (List.mem_of_mem_take hh)
      have hread : Reads m (headerBytes (chain.take k)) chain[k].bytes := by
        rw [hsplit, List.flatMap_append, List.flatMap_cons] at hr
        have := hr.right.left
        rwa [zero_add, ← hprefix] at this
      rw [subheaders, ih (by omega), List.take_succ_eq_append_getElem hlt]
      congr 2
      exact subheaderAfter_bytes (hw _ (List.getElem_mem hlt)) (hlast _ _ _ hsplit) hread

/-- Nothing that can be sent is refused where there is room for the payload. -/
theorem not_refused (hw : h.Sendable) (hpay : payloadBytes hs + h.length ≤ n)
    (hpad : h.extn = false → countedBytes hs + 1 ≤ 2 * (n - payloadBytes hs)) :
    ¬ Refused n hs h := by
  unfold Refused
  by_cases hsdu : h.IsSdu
  · obtain ⟨hpos, hccch, -⟩ := hw.sdu hsdu
    rw [if_pos hsdu]
    rintro (hz | hlt | ⟨h0, hlong⟩)
    · omega
    · omega
    · exact absurd (hccch h0) (Nat.not_le.mpr hlong)
  · rw [if_neg hsdu]
    split
    · rintro ⟨hx, hlt⟩
      have := hpad hx
      omega
    · omega

end Chain

/-! ## PDUs -/

/-- An SDU or a control element, on its channel. -/
structure MacElement where
  lcId : Nat
  data : List UInt8
  valid : if lcId ≤ macLcid10 then 0 < data.length ∧ (lcId = macUlCcchLch → data.length ≤ 100)
    else ceLength lcId = some data.length

/-- What the last subheader is for. -/
inductive MacEnding where
  | element (x : MacElement)
  | padding (data : List UInt8)

namespace MacElement

/-- The subheader, for an element that is the last one or not. -/
def head (extn : Bool) (x : MacElement) : Subheader :=
  ⟨x.lcId, extn, (Subheader.bytes ⟨x.lcId, extn, 0, x.data.length⟩).length, x.data.length⟩

/-- The entry in the table of the decoder. -/
def entry (x : MacElement) : DemuxDataBase := ⟨x.lcId, x.data.length⟩

end MacElement

namespace MacEnding

def elements : MacEnding → List MacElement
  | element x => [x]
  | padding _ => []

def head : MacEnding → Subheader
  | element x => x.head false
  | padding _ => ⟨macPaddingLch, false, 1, 0⟩

/-- The bytes at the end of the PDU. -/
def data : MacEnding → List UInt8
  | element x => x.data
  | padding l => l

end MacEnding

/-- The contents of a PDU: the number of padding subheaders at the start, the elements that
are followed by another subheader, and what comes last. -/
structure MacLayout where
  lead : Nat
  body : List MacElement
  ending : MacEnding

namespace MacLayout

variable (p : MacLayout)

def elements : List MacElement := p.body ++ p.ending.elements

/-- The subheaders that announce another one. -/
def leadingHeads : List Subheader :=
  List.replicate p.lead ⟨macPaddingLch, true, 1, 0⟩ ++ p.body.map (MacElement.head true)

def heads : List Subheader := p.leadingHeads ++ [p.ending.head]

def header : List UInt8 := p.heads.flatMap Subheader.bytes

def payload : List UInt8 := p.body.flatMap MacElement.data ++ p.ending.data

/-- The PDU as it is sent. -/
def bytes : List UInt8 := p.header ++ p.payload

end MacLayout

/-- A MAC PDU with at most 17 elements, of at most 65535 bytes. An SDU with a length field
has less than 2 ^ 15 bytes. -/
structure MacPdu extends MacLayout where
  lead_le : lead ≤ 2
  elements_le : toMacLayout.elements.length ≤ maxNumChannels
  fields : ∀ x ∈ body, x.lcId ≤ macLcid10 → x.data.length < 2 ^ 15
  bytes_le : toMacLayout.bytes.length ≤ 65535

/-! ## What the decoder makes of a PDU -/

section Decoding

variable {m : Nat → UInt8} {x : MacElement} {extn : Bool}

/-- An element on no channel for SDUs is a control element. -/
theorem ceLength_data (hx : ¬ x.lcId ≤ macLcid10) : ceLength x.lcId = some x.data.length := by
  have hv := x.valid
  rwa [if_neg hx] at hv

theorem ceLength_bounds {lcId l : Nat} (h : ceLength lcId = some l) :
    macPowerHeadLch ≤ lcId ∧ lcId < macPaddingLch := by
  by_contra hout
  unfold ceLength at h
  unfold macPowerHeadLch macCrntiLch macTruncatedBsr macSBsrLch macLBsrLch at *
  unfold macPaddingLch at hout
  rw [if_neg (by omega), if_neg (by omega), if_neg (by omega), if_neg (by omega)] at h
  simp at h

theorem head_sendable (hf : extn = true → x.lcId ≤ macLcid10 → x.data.length < 2 ^ 15) :
    (x.head extn).Sendable := by
  have hv := x.valid
  by_cases hx : x.lcId ≤ macLcid10
  · rw [if_pos hx] at hv
    refine ⟨?_, rfl, fun _ => ⟨hv.1, hv.2, fun h => hf h hx⟩, fun hn => absurd hx hn⟩
    exact lt_of_le_of_lt hx (by decide)
  · have hce := ceLength_data hx
    obtain ⟨hlow, hhigh⟩ := ceLength_bounds hce
    refine ⟨lt_trans hhigh (by decide), rfl, fun hn => absurd hn hx, fun _ => ⟨?_, ?_⟩⟩
    · show x.data.length = (ceLength x.lcId).getD 0
      rw [hce, Option.getD_some]
    · exact fun hres => absurd hres.2 (Nat.not_lt.mpr hlow)

theorem padding_sendable (extn : Bool) :
    Subheader.Sendable ⟨macPaddingLch, extn, 1, 0⟩ := by
  constructor <;> cases extn <;> decide

/-- An element asks for its entry. -/
theorem entries_head : (x.head extn).entries = [x.entry] := by
  refine if_pos ?_
  by_cases hx : x.lcId ≤ macLcid10
  · exact Or.inl hx
  · refine Or.inr ?_
    show ceLength x.lcId ≠ none
    rw [ceLength_data hx]
    simp

theorem entries_padding (extn : Bool) :
    Subheader.entries ⟨macPaddingLch, extn, 1, 0⟩ = [] := by
  cases extn <;> decide

namespace MacPdu

variable (p : MacPdu)

theorem leadingHeads_sendable : ∀ h ∈ p.leadingHeads, h.Sendable := by
  intro h hh
  rcases List.mem_append.mp hh with hh | hh
  · obtain rfl := List.eq_of_mem_replicate hh
    exact padding_sendable true
  · obtain ⟨x, hx, rfl⟩ := List.mem_map.mp hh
    exact head_sendable fun _ hlc => p.fields x hx hlc

theorem leadingHeads_extn : ∀ h ∈ p.leadingHeads, h.extn = true := by
  intro h hh
  rcases List.mem_append.mp hh with hh | hh
  · rw [List.eq_of_mem_replicate hh]
  · obtain ⟨x, -, rfl⟩ := List.mem_map.mp hh
    rfl

theorem ending_sendable : p.ending.head.Sendable := by
  cases p.ending with
  | element x => exact head_sendable fun h => absurd h (by decide)
  | padding l => exact padding_sendable false

theorem ending_extn : p.ending.head.extn = false := by
  cases p.ending <;> rfl

theorem heads_sendable : ∀ h ∈ p.heads, h.Sendable := by
  intro h hh
  rcases List.mem_append.mp hh with hh | hh
  · exact p.leadingHeads_sendable h hh
  · obtain rfl := List.mem_singleton.mp hh
    exact p.ending_sendable

theorem payloadBytes_leadingHeads :
    payloadBytes p.leadingHeads = (p.body.flatMap MacElement.data).length := by
  have hbody : (p.body.map (MacElement.head true)).map Subheader.length
      = p.body.map fun x => x.data.length := by
    rw [List.map_map]
    rfl
  unfold payloadBytes MacLayout.leadingHeads
  rw [List.map_append, List.map_replicate, List.sum_append, hbody, List.length_flatMap]
  simp

/-- The table of the decoder has room for all elements. -/
theorem recorded_heads : recorded p.heads = p.elements.map MacElement.entry := by
  have hlead : (List.replicate p.lead (⟨macPaddingLch, true, 1, 0⟩ : Subheader)).flatMap
      Subheader.entries = [] := by
    rw [List.flatMap_eq_nil_iff]
    intro h hh
    rw [List.eq_of_mem_replicate hh]
    exact entries_padding true
  have hbody : (p.body.map (MacElement.head true)).flatMap Subheader.entries
      = p.body.map MacElement.entry := by
    rw [List.flatMap_map]
    simp only [entries_head]
    exact List.flatMap_pure_eq_map _ _
  have hend : p.ending.head.entries = p.ending.elements.map MacElement.entry := by
    cases p.ending with
    | element x => exact entries_head
    | padding l => exact entries_padding false
  have hall : p.heads.flatMap Subheader.entries = p.elements.map MacElement.entry := by
    unfold MacLayout.heads MacLayout.leadingHeads MacLayout.elements
    rw [List.flatMap_append, List.flatMap_append, hlead, hbody, List.flatMap_singleton, hend,
      List.nil_append, List.map_append]
  rw [recorded, hall]
  refine List.take_of_length_le ?_
  rw [List.length_map]
  exact p.elements_le

/-- The bytes of a PDU, with what comes last taken apart. -/
theorem length_bytes : p.bytes.length
    = headerBytes p.leadingHeads + p.ending.head.size + payloadBytes p.leadingHeads
      + p.ending.data.length := by
  have hheader : p.header.length = headerBytes p.heads :=
    (headerBytes_eq p.heads_sendable).symm
  unfold MacLayout.bytes
  rw [List.length_append, hheader, MacLayout.heads, headerBytes_concat, MacLayout.payload,
    List.length_append, payloadBytes_leadingHeads]
  ring

/-- The subheaders in front of one of the chain announce another one. -/
theorem split_heads {hs hs' : List Subheader} {h : Subheader} (he : p.heads = hs ++ h :: hs')
    (hx : h.extn = false) : hs = p.leadingHeads ∧ h = p.ending.head := by
  rcases List.eq_nil_or_concat hs' with rfl | ⟨l, b, rfl⟩
  · have := List.append_inj' he rfl
    exact ⟨this.1.symm, (List.singleton_inj.mp this.2).symm⟩
  · have he' : p.leadingHeads ++ [p.ending.head] = (hs ++ h :: l) ++ [b] := by
      rw [show p.leadingHeads ++ [p.ending.head] = p.heads from rfl, he]
      simp
    have hlead := (List.append_inj' he' rfl).1
    have := p.leadingHeads_extn h (by rw [hlead]; simp)
    rw [hx] at this
    simp at this

/-- The last SDU takes what is left. -/
theorem ending_length (hsdu : p.ending.head.IsSdu) : p.ending.head.length
    = p.bytes.length - payloadBytes p.leadingHeads - (countedBytes p.leadingHeads + 1) := by
  have hlen := p.length_bytes
  rw [countedBytes_eq p.leadingHeads_sendable]
  cases hend : p.ending with
  | element x =>
      rw [hend] at hlen
      have hsize : (x.head false).size = 1 := by simp [MacElement.head, Subheader.bytes]
      have hhead : MacEnding.head (.element x) = x.head false := rfl
      rw [hhead, hsize] at hlen
      show x.data.length = _
      rw [hlen]
      show x.data.length = _ + x.data.length - _ - _
      omega
  | padding l =>
      rw [hend] at hsdu
      have hle : macPaddingLch ≤ macLcid10 := hsdu
      exact absurd hle (by decide)

theorem ending_size : p.ending.head.size = 1 := by
  cases p.ending with
  | element x => simp [MacEnding.head, MacElement.head, Subheader.bytes]
  | padding l => rfl

/-- **The subheaders are found.** -/
theorem subheaders_eq (hm : Reads m 0 p.bytes) {k : Nat} (hk : k ≤ p.heads.length) :
    subheaders m p.bytes.length k = p.heads.take k := by
  refine subheaders_chain p.heads_sendable hm.left (fun hs h hs' he hsdu hx => ?_) hk
  obtain ⟨rfl, rfl⟩ := p.split_heads he hx
  exact p.ending_length hsdu

/-- There is room for the payload of each prefix. -/
theorem payload_le : payloadBytes p.leadingHeads ≤ p.bytes.length := by
  rw [p.length_bytes]
  omega

theorem ending_accepted :
    ¬ Refused p.bytes.length p.leadingHeads p.ending.head := by
  have hlen := p.length_bytes
  have hsize := p.ending_size
  have hcount := countedBytes_eq p.leadingHeads_sendable
  have hdata : p.ending.head.length ≤ p.ending.data.length := by
    cases p.ending with
    | element x => exact le_rfl
    | padding l => exact Nat.zero_le _
  refine not_refused p.ending_sendable (by omega) fun _ => ?_
  rw [hcount]
  omega

theorem length_heads : p.heads.length = p.leadingHeads.length + 1 := by simp [MacLayout.heads]

theorem subheaderAt_eq (hm : Reads m 0 p.bytes) {j : Nat} (hj : j < p.heads.length) :
    subheaderAt m p.bytes.length j = p.heads[j] := by
  have hnext := p.subheaders_eq hm (k := j + 1) hj
  rw [subheaders, p.subheaders_eq hm hj.le, List.take_succ_eq_append_getElem hj] at hnext
  rw [subheaderAt, p.subheaders_eq hm hj.le]
  exact List.singleton_inj.mp (List.append_cancel_left hnext)

theorem leadingHeads_read (hm : Reads m 0 p.bytes) {j : Nat} (hj : j < p.leadingHeads.length) :
    subheaderAt m p.bytes.length j = p.leadingHeads[j] ∧
      subheaders m p.bytes.length j = p.leadingHeads.take j := by
  have hlen := p.length_heads
  rw [p.subheaderAt_eq hm (by omega), p.subheaders_eq hm (by omega)]
  exact ⟨List.getElem_append_left hj, List.take_append_of_le_length hj.le⟩

theorem ending_read (hm : Reads m 0 p.bytes) :
    subheaderAt m p.bytes.length p.leadingHeads.length = p.ending.head ∧
      subheaders m p.bytes.length p.leadingHeads.length = p.leadingHeads := by
  have hlen := p.length_heads
  rw [p.subheaderAt_eq hm (by omega), p.subheaders_eq hm (by omega)]
  exact ⟨List.getElem_concat_length rfl _, List.take_left⟩

/-- The loop goes on over the subheaders that announce another one, and no further. -/
theorem stopsAt (hm : Reads m 0 p.bytes) :
    StopsAt m p.bytes.length p.leadingHeads.length := by
  constructor
  · intro j hj
    obtain ⟨hat, hbefore⟩ := p.leadingHeads_read hm hj
    have hmem : p.leadingHeads[j] ∈ p.leadingHeads := List.getElem_mem hj
    have hx := p.leadingHeads_extn _ hmem
    -- the payload up to here is part of the whole
    have hpay : payloadBytes (p.leadingHeads.take j) + p.leadingHeads[j].length
        ≤ payloadBytes p.leadingHeads := by
      rw [← payloadBytes_concat, ← List.take_succ_eq_append_getElem hj]
      exact List.Sublist.sum_le_sum ((List.take_sublist _ _).map _) fun _ _ => Nat.zero_le _
    rw [GoesOn, hat, hbefore]
    refine ⟨hx, not_refused (p.leadingHeads_sendable _ hmem) ?_ fun hn => ?_⟩
    · exact hpay.trans p.payload_le
    · rw [hx] at hn
      exact absurd hn (by decide)
  · rintro ⟨hx, -⟩
    rw [(p.ending_read hm).1, p.ending_extn] at hx
    exact absurd hx (by decide)

end MacPdu

/-- **The loop decodes every PDU**: it ends after the last subheader, and the table lists the
elements in their order. -/
theorem macLoop_decodes (p : MacPdu) (hm : Reads m 0 p.bytes) {fuel : Nat}
    (hf : p.heads.length ≤ fuel) :
    ∃ st, macLoop m fuel (Decode.start p.bytes.length) = some st ∧
      st.successDecodeFlag = true ∧ st.pData = p.header.length ∧
      st.demuxData = p.elements.map MacElement.entry := by
  have hlt : p.leadingHeads.length < fuel := by
    have := p.length_heads
    omega
  obtain ⟨st, hrun, ha⟩ := macLoop_start (p.stopsAt hm) hlt
  obtain ⟨hat, hbefore⟩ := p.ending_read hm
  rw [hat, hbefore] at ha
  have hr := p.ending_accepted
  refine ⟨st, hrun, ?_, ?_, ?_⟩
  · rw [ha.success]
    exact decide_eq_true hr
  · rw [ha.pData]
    exact headerBytes_eq p.heads_sendable
  · rw [ha.demuxData hr]
    exact p.recorded_heads

end Decoding

end LteUlp.Mac
