import LteUlp.Mac.Chain

set_option autoImplicit false

/-! # When MAC decoding stays inside the PDU

The loop reads the subheaders that `subheaders m n` describes, until the first one that has
its extension bit clear or is refused. Nothing compares the header cursor with the length of
the PDU, so the loop stays inside exactly where that chain does (`staysInside_iff`).
-/

namespace LteUlp.Mac

/-- The next subheader of the chain. -/
def subheaderAt (m : Nat → UInt8) (n k : Nat) : Subheader :=
  subheaderAfter m n (subheaders m n k)

/-- The subheader `k` announces another one and is not refused. -/
def GoesOn (m : Nat → UInt8) (n k : Nat) : Prop :=
  (subheaderAt m n k).extn = true ∧ ¬ Refused n (subheaders m n k) (subheaderAt m n k)

/-- The loop ends with the subheader `k`. -/
def StopsAt (m : Nat → UInt8) (n k : Nat) : Prop :=
  (∀ j < k, GoesOn m n j) ∧ ¬ GoesOn m n k

/-! ## The run of the loop -/

theorem Advanced.follows {m : Nat → UInt8} {n k : Nat} {st : Decode}
    (ha : Advanced n (subheaders m n k) (subheaderAt m n k) st) (hg : GoesOn m n k) :
    Follows n (subheaders m n (k + 1)) st := by
  obtain ⟨hx, hr⟩ := hg
  constructor
  · simpa [hr] using ha.success
  · exact ha.pData
  · exact ha.extent
  · exact ha.dataPtrPos hr
  · exact ha.remaining hr hx
  · exact ha.demuxData hr

/-- The test at the end of the loop body is `GoesOn`. -/
theorem Advanced.continues_iff {m : Nat → UInt8} {n k : Nat} {st : Decode}
    (ha : Advanced n (subheaders m n k) (subheaderAt m n k) st) :
    st.extnFlag = true ∧ st.successDecodeFlag = true ↔ GoesOn m n k := by
  rw [GoesOn, ha.extnFlag, ha.success, decide_eq_true_iff]

/-- **The run of the loop**: it ends after `k + 1` iterations where the chain stops at `k`,
and it does not end before that. -/
theorem macLoop_eq {m : Nat → UInt8} {n : Nat} (fuel j : Nat) {st : Decode}
    (hf : Follows n (subheaders m n j) st) (hj : ∀ i < j, GoesOn m n i) :
    (∃ k st', StopsAt m n k ∧ k < j + fuel ∧ macLoop m fuel st = some st' ∧
      Advanced n (subheaders m n k) (subheaderAt m n k) st') ∨
    ((∀ i < j + fuel, GoesOn m n i) ∧ macLoop m fuel st = none) := by
  induction fuel generalizing j st with
  | zero => exact Or.inr ⟨by simpa using hj, rfl⟩
  | succ fuel ih =>
      have ha := macSubheader_advanced m hf
      by_cases hg : GoesOn m n j
      · have hloop : macLoop m (fuel + 1) st = macLoop m fuel (macSubheader m st) :=
          if_pos (ha.continues_iff.mpr hg)
        have hj' : ∀ i < j + 1, GoesOn m n i := by
          intro i hi
          rcases Nat.lt_succ_iff_lt_or_eq.mp hi with hi | rfl
          · exact hj i hi
          · exact hg
        have hlt : j + 1 + fuel = j + (fuel + 1) := by omega
        have := ih (j + 1) (ha.follows hg) hj'
        rwa [hlt, ← hloop] at this
      · have hloop : macLoop m (fuel + 1) st = some (macSubheader m st) :=
          if_neg fun hc => hg (ha.continues_iff.mp hc)
        exact Or.inl ⟨j, _, ⟨hj, hg⟩, by omega, hloop, ha⟩

/-- More fuel changes nothing. -/
theorem macLoop_mono {m : Nat → UInt8} {st st' : Decode} {i k : Nat}
    (h : macLoop m i st = some st') (hik : i ≤ k) : macLoop m k st = some st' := by
  induction i generalizing k st with
  | zero => simp [macLoop] at h
  | succ i ih =>
      cases k with
      | zero => exact absurd hik (Nat.not_succ_le_zero i)
      | succ k =>
          rw [macLoop] at h ⊢
          split at h
          · rename_i hgo
            rw [if_pos hgo]
            exact ih h (Nat.le_of_succ_le_succ hik)
          · rename_i hstop
            rw [if_neg hstop]
            exact h

/-- The chain stops at one subheader at most. -/
theorem StopsAt.unique {m : Nat → UInt8} {n k k' : Nat} (h : StopsAt m n k)
    (h' : StopsAt m n k') : k = k' := by
  rcases Nat.lt_trichotomy k k' with hlt | heq | hlt
  · exact absurd (h'.1 k hlt) h.2
  · exact heq
  · exact absurd (h.1 k' hlt) h'.2

/-- The result of the loop of `MacProcessUlSchPdu`, with enough fuel for the chain. -/
theorem macLoop_start {m : Nat → UInt8} {n k : Nat} (hs : StopsAt m n k) {fuel : Nat}
    (hf : k < fuel) :
    ∃ st, macLoop m fuel (Decode.start n) = some st ∧
      Advanced n (subheaders m n k) (subheaderAt m n k) st := by
  rcases macLoop_eq fuel 0 (follows_start n) (fun i hi => absurd hi (Nat.not_lt_zero i)) with
    ⟨k', st, hs', -, hrun, ha⟩ | ⟨hall, -⟩
  · obtain rfl := hs.unique hs'
    exact ⟨st, hrun, ha⟩
  · exact absurd (hall k (by omega)) hs.2

/-! ## Staying inside -/

/-- The payload bytes that `MacDeMultiplexAndSend` walks over. -/
def recordedBytes (es : List DemuxDataBase) : Nat := (es.map DemuxDataBase.length).sum

/-- Decoding a PDU of `n` bytes ends within `n` iterations and reads inside the PDU only,
and where the PDU is accepted the bytes to demultiplex are inside it too. -/
def StaysInside (m : Nat → UInt8) (n : Nat) : Prop :=
  ∃ st, macLoop m n (Decode.start n) = some st ∧ st.extent ≤ n ∧
    (st.successDecodeFlag = true → st.pData + recordedBytes st.demuxData ≤ n)

/-- The chain ends inside the PDU and, unless its last subheader is refused, so do the
payloads of the first 17 subheaders that have one. -/
def ChainFits (m : Nat → UInt8) (n : Nat) : Prop :=
  ∃ k, StopsAt m n k ∧ headerBytes (subheaders m n (k + 1)) ≤ n ∧
    (¬ Refused n (subheaders m n k) (subheaderAt m n k) →
      headerBytes (subheaders m n (k + 1)) + recordedBytes (recorded (subheaders m n (k + 1)))
        ≤ n)

/-- **MAC decoding stays inside the PDU exactly where the chain of subheaders does.** -/
theorem staysInside_iff (m : Nat → UInt8) (n : Nat) : StaysInside m n ↔ ChainFits m n := by
  constructor
  · rintro ⟨st, hrun, hext, hacc⟩
    rcases macLoop_eq n 0 (follows_start n) (fun i hi => absurd hi (Nat.not_lt_zero i)) with
      ⟨k, st', hs, -, hrun', ha⟩ | ⟨-, hnone⟩
    · obtain rfl : st = st' := Option.some.inj (hrun.symm.trans hrun')
      refine ⟨k, hs, ?_, fun hr => ?_⟩
      · calc headerBytes (subheaders m n (k + 1)) = st.extent := ha.extent.symm
          _ ≤ n := hext
      · have hsucc : st.successDecodeFlag = true := by
          rw [ha.success]
          exact decide_eq_true hr
        have := hacc hsucc
        rwa [ha.pData, ha.demuxData hr] at this
    · rw [hrun] at hnone
      simp at hnone
  · rintro ⟨k, hs, hfit, hpay⟩
    have hk : k < n := by
      have := le_headerBytes_subheaders m n (k + 1)
      omega
    obtain ⟨st, hrun, ha⟩ := macLoop_start hs hk
    refine ⟨st, hrun, ?_, fun hsucc => ?_⟩
    · rw [ha.extent]
      exact hfit
    · have hr : ¬ Refused n (subheaders m n k) (subheaderAt m n k) := by
        rw [ha.success] at hsucc
        exact of_decide_eq_true hsucc
      rw [ha.pData, ha.demuxData hr]
      exact hpay hr

/-- The PDU `[0x21]`: an SDU subheader with a length field, and nothing after it. -/
theorem not_staysInside_sdu_without_length :
    ¬ ∀ (m : Nat → UInt8) (n : Nat), 1 ≤ n → n ≤ 65535 → StaysInside m n := by
  intro hall
  obtain ⟨st, hrun, hext, -⟩ :=
    hall (fun i => if i = 0 then 0x21 else 0) 1 le_rfl (by decide)
  have hst : macLoop (fun i => if i = 0 then 0x21 else 0) 1 (Decode.start 1)
      = some ⟨true, false, false, 2, 2, 0, 1, [], 2⟩ := by decide
  obtain rfl := Option.some.inj (hst.symm.trans hrun)
  exact absurd hext (by decide)

end LteUlp.Mac
