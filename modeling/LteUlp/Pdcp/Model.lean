import LteUlp.Rrc.Contexts

set_option autoImplicit false
set_option linter.unusedSectionVars false

/-! # The PDCP layer

It has no state of its own. An SDU of SRB 1 loses its header and goes to the RRC layer; what
is ciphered is released. An empty SDU is returned from early, and so is one of SRB 1 that
consists of the header alone: both blocks are lost, which `lostBlock` says and
`rlcUeDataInd_delivers` proves.
-/

namespace LteUlp.Pdcp

open BlockStore LteUlp.Rrc

variable {β : Type} [DecidableEq β] (env : Platform β)

/-- `PdcpProcessRxSrb`. -/
def pdcpProcessRxSrb (s : RrcState β) (rnti : UInt16) (lcId : Nat) (pData : β) (size : UInt16)
    (rpt : UlReportInfoList) : RrcState β :=
  if lcId < 2 then
    let s := { s with mem := s.mem.dropFront pData 1 }
    pdcpUeSrbDataInd env s rnti lcId pData (size - 1).toNat rpt
  else s.free pData

/-- `PdcpProcessRxDrb`. -/
def pdcpProcessRxDrb (s : RrcState β) (pData : β) : RrcState β := s.free pData

/-- `RlcUeDataInd`. -/
def rlcUeDataInd (s : RrcState β) (rnti : UInt16) (lcId : Nat) (pData : Option β)
    (size : UInt16) (rpt : UlReportInfoList) : RrcState β :=
  match pData with
  | none => s
  | some b =>
      if size = 0 then s
      else if lcId ≤ 2 then pdcpProcessRxSrb env s rnti lcId b size rpt
      else pdcpProcessRxDrb s b

/-! ## Lost blocks -/

/-- No layer releases an SDU of this size. -/
def neverReleased (lcId : Nat) (size : UInt16) : Bool :=
  decide (size = 0 ∨ lcId < 2 ∧ size = 1)

/-- The block of an SDU that is not released. -/
def lostBlock (lcId : Nat) (size : UInt16) (pData : Option β) : Multiset β :=
  if neverReleased lcId size then pData.elim 0 fun b => {b} else 0

/-- **What becomes of the block of an SDU**: it is released, or left behind. If no allocation
is refused, the size and the channel say which. -/
structure Delivers (s s' : RrcState β) (xs : Multiset β) (lostIf : Multiset β) : Prop where
  leaves : ∃ l, RrcTransfer s s' xs l ∧ (s'.mem.failures = s.mem.failures → l = lostIf)

theorem Delivers.of_transfer {s s' : RrcState β} {xs l : Multiset β}
    (h : RrcTransfer s s' xs l) : Delivers s s' xs l := ⟨l, h, fun _ => rfl⟩

theorem Delivers.after {s t s' : RrcState β} {xs ys l : Multiset β} (h : RrcTransfer s t xs ys)
    (hd : Delivers t s' ys l) : Delivers s s' xs l := by
  obtain ⟨l', ht, hl⟩ := hd.leaves
  refine ⟨l', h.seq ht, fun hf => hl ?_⟩
  have h1 := h.failures
  have h2 := ht.failures
  omega

theorem pdcpUeSrbDataInd_delivers (env : Platform β) (s : RrcState β) (rnti : UInt16)
    (lcId : Nat) (b : β) (size : Nat) (rpt : UlReportInfoList) :
    Delivers s (pdcpUeSrbDataInd env s rnti lcId b size rpt) {b}
      (if size = 0 then {b} else 0) := by
  unfold pdcpUeSrbDataInd
  by_cases hsize : size = 0
  · rw [if_pos hsize, if_pos hsize]
    exact .of_transfer (.refl s {b})
  · rw [if_neg hsize, if_neg hsize]
    split
    · exact .of_transfer (rrcParseUlDcchMsg_transfer s rnti b size rpt)
    · refine ⟨_, rrcParseUlCcchMsg_transfer env s rnti b size, fun hf => ?_⟩
      rw [if_neg]
      intro hkept
      exact (ccchMsgKept_refused hkept hsize).ne' hf

theorem sub_one_toNat_eq_zero {size : UInt16} (h : size ≠ 0) :
    (size - 1).toNat = 0 ↔ size = 1 := by
  constructor
  · intro h1
    have h2 : size - 1 = 0 := UInt16.toNat.inj h1
    calc size = size - 1 + 1 := (UInt16.sub_add_cancel size 1).symm
      _ = 1 := by rw [h2]; rfl
  · rintro rfl
    rfl

theorem rlcUeDataInd_delivers (env : Platform β) (s : RrcState β) (rnti : UInt16) (lcId : Nat)
    (pData : Option β) (size : UInt16) (rpt : UlReportInfoList) :
    Delivers s (rlcUeDataInd env s rnti lcId pData size rpt) (pData.elim 0 fun b => {b})
      (lostBlock lcId size pData) := by
  unfold rlcUeDataInd lostBlock neverReleased
  cases pData with
  | none => exact .of_transfer (by simpa using RrcTransfer.refl s 0)
  | some b =>
      simp only [Option.elim_some, decide_eq_true_eq]
      by_cases hsize : size = 0
      · rw [if_pos hsize, if_pos (Or.inl hsize)]
        exact .of_transfer (.refl s {b})
      · simp only [hsize, if_false, false_or]
        split
        · unfold pdcpProcessRxSrb
          split
          · rename_i hlt
            have hdrop : RrcTransfer s { s with mem := s.mem.dropFront b 1 } {b} {b} :=
              ((dropFront_transfer s.mem b 1).frame s.owned).congr (add_comm _ _)
                (add_comm _ _)
            have hmsg := pdcpUeSrbDataInd_delivers env { s with mem := s.mem.dropFront b 1 }
              rnti lcId b (size - 1).toNat rpt
            simp only [sub_one_toNat_eq_zero hsize] at hmsg
            simpa only [hlt, true_and] using Delivers.after hdrop hmsg
          · rename_i hge
            rw [if_neg fun h => hge h.1]
            exact .of_transfer (free_rrcTransfer s b)
        · rename_i hgt
          have hnot : ¬(lcId < 2 ∧ size = 1) := by omega
          rw [if_neg hnot]
          exact .of_transfer (free_rrcTransfer s b)

/-- The contexts of the RRC layer stay sound. -/
theorem rlcUeDataInd_sound {env : Platform β} {s : RrcState β} {xs : Multiset β}
    {pData : Option β} (h : RrcSound s (xs + pData.elim 0 fun b => {b})) (rnti : UInt16)
    (lcId : Nat) (size : UInt16) (rpt : UlReportInfoList) :
    RrcSound (rlcUeDataInd env s rnti lcId pData size rpt) xs := by
  unfold rlcUeDataInd
  cases pData with
  | none => exact h.drop
  | some b =>
      simp only
      split
      · exact h.drop
      · split
        · unfold pdcpProcessRxSrb
          split
          · apply pdcpUeSrbDataInd_sound
            rw [Option.elim_some, add_comm] at h
            have ht : RrcTransfer s { s with mem := s.mem.dropFront b 1 } {b} {b} :=
              ((dropFront_transfer s.mem b 1).frame s.owned).congr (add_comm _ _)
                (add_comm _ _)
            rw [add_comm]
            exact h.same ht rfl fun _ _ => ⟨rfl, rfl⟩
          · exact free_sound h
        · exact free_sound h

end LteUlp.Pdcp
