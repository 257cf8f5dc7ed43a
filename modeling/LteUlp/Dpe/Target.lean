import LteUlp.Dpe.Wire

set_option autoImplicit false

/-! # The establishment indications of `target.c`

`gUeEstablishDataInd` collects establishments and is sent as it lies in memory. Its entries and
its type are converted when they are written; the count and the length stay in host order
between the calls and are converted in place for the send, and reset after it.

`collected` says what is to be sent, on lists of establishments. `completes_iff` compares the
code with it: in a build without `ENDIAN_CONVERT` every datagram is complete; with it the number
of bytes to send is the converted length, and no datagram is.
-/

namespace LteUlp.Target

open Endian Dpe Wire
open LteUlp.Rrc (UlReportInfoList UlReportInfo)

/-! ## Calls -/

/-- A call of one of the two functions. -/
inductive Call
  | process (rnti : UInt16) (pUlRptInfoList : Option UlReportInfoList)
  | send (socketFd : Int) (hasAddr : Bool) (behind : Nat → UInt8)

def step (endianConvert : Bool) (order : ByteOrder) (t : TargetState) :
    Call → TargetState × Option Datagram
  | .process rnti list => (tgtProcessUeEstablishInfo endianConvert t rnti list, none)
  | .send socketFd hasAddr behind =>
      tgtSendUeEstablishInd endianConvert order t socketFd hasAddr behind

/-- The calls after `TgtInit`: the structure, and the datagrams so far. -/
def run (endianConvert : Bool) (order : ByteOrder) (calls : List Call) :
    TargetState × List Datagram :=
  calls.foldl (fun r call =>
    ((step endianConvert order r.1 call).1,
      r.2 ++ (step endianConvert order r.1 call).2.toList)) (tgtInit endianConvert, [])

/-- The build with `ENDIAN_CONVERT` is the one that `Dpe/Wire.lean` connects to DPE. -/
theorem tgtSendUeEstablishInd_true (order : ByteOrder) (t : TargetState) {socketFd : Int}
    (hfd : socketFd ≠ -1) (behind : Nat → UInt8) :
    tgtSendUeEstablishInd true order t socketFd true behind
      = Wire.tgtSendUeEstablishInd order t behind := by
  unfold Wire.tgtSendUeEstablishInd tgtSendUeEstablishInd
  rw [if_neg (show ¬(socketFd = -1 ∨ true = false) by simp [hfd]),
    if_neg (show ¬((0 : Int) = -1 ∨ true = false) by decide)]

/-! ## What is to be sent -/

/-- An accepted establishment: RNTI, power and timing advance. -/
abbrev Establishment := UInt16 × Int × Int

/-- The establishment for an RNTI, with the values of the last entry of its report list. -/
def establishment (rnti : UInt16) (list : UlReportInfoList) : Establishment :=
  (rnti, (list.ulRptInfo (list.count - 1)).prbPower, (list.ulRptInfo (list.count - 1)).ta)

/-- A call, on the establishments that are pending: the pending ones after it, and those that
are to be sent. An establishment is refused only when 32 are pending. -/
def collect (pending : List Establishment) :
    Call → List Establishment × Option (List Establishment)
  | .process _ none => (pending, none)
  | .process rnti (some list) =>
      if list.count ≠ 0 ∧ pending.length < maxNumUeInfoReport then
        (pending ++ [establishment rnti list], none)
      else (pending, none)
  | .send socketFd hasAddr _ =>
      if socketFd ≠ -1 ∧ hasAddr = true ∧ pending ≠ [] then ([], some pending)
      else (pending, none)

/-- The establishments that are pending after some calls, and those of each datagram. -/
def collected (calls : List Call) : List Establishment × List (List Establishment) :=
  calls.foldl (fun r call => ((collect r.1 call).1, r.2 ++ (collect r.1 call).2.toList)) ([], [])

/-- The byte order of the fields in a datagram. -/
def wireOrder (endianConvert : Bool) (order : ByteOrder) : ByteOrder :=
  if endianConvert then order.other else order

/-- A `UeEstablishInfo`. The timestamp is 0. -/
def establishmentBytes (o : ByteOrder) (w : Establishment) : List UInt8 :=
  store o 8 0 ++ store o 4 (bits 4 w.2.1) ++ store o 2 w.1.toNat ++ store o 2 (bits 2 w.2.2)

/-- The length of the indication for some establishments. -/
def indLength (ws : List Establishment) : Nat :=
  establishHeadLength + ueEstablishInfoSize * ws.length

/-- The bytes of this indication. -/
def indBytes (o : ByteOrder) (ws : List Establishment) : List UInt8 :=
  store o 2 msgUlpUeEstablishInd ++ store o 2 (indLength ws) ++ store o 4 ws.length ++
    ws.flatMap (establishmentBytes o)

/-- The datagram consists of the indication for `ws`. -/
structure Complete (o : ByteOrder) (d : Datagram) (ws : List Establishment) : Prop where
  length : d.length = indLength ws
  bytes : ∀ k < indLength ws, d.mem k = (indBytes o ws).getD k 0

/-- **The indications are complete**: what the structure holds after some calls, and what the
datagrams so far were. -/
structure Completes (endianConvert : Bool) (order : ByteOrder) (calls : List Call) :
    Prop where
  count : (run endianConvert order calls).1.count ≤ maxNumUeInfoReport
  pending : (run endianConvert order calls).1.count = (collected calls).1.length
  length : (run endianConvert order calls).1.length
    = establishHeadLength + ueEstablishInfoSize * (run endianConvert order calls).1.count
  sent : List.Forall₂ (Complete (wireOrder endianConvert order))
    (run endianConvert order calls).2 (collected calls).2

/-! ## The structure between the calls -/

section

variable {c : Bool} {order : ByteOrder} {t : TargetState} {ws : List Establishment}

theorem store_convertInt16Endian (c : Bool) (order : ByteOrder) (n : Nat) :
    store order 2 (convertInt16Endian c n) = store (wireOrder c order) 2 n := by
  cases c with
  | false => rfl
  | true => rw [convertInt16Endian_true, store_swapBytes]; rfl

theorem store_convertInt32Endian (c : Bool) (order : ByteOrder) (n : Nat) :
    store order 4 (convertInt32Endian c n) = store (wireOrder c order) 4 n := by
  cases c with
  | false => rfl
  | true => rw [convertInt32Endian_true, store_swapBytes]; rfl

theorem store_zero (o o' : ByteOrder) : store o 8 0 = store o' 8 0 := by
  cases o <;> cases o' <;> decide

/-- The structure holds the establishments `ws`. -/
structure Holds (c : Bool) (t : TargetState) (ws : List Establishment) : Prop where
  msgType : t.msgType = convertInt16Endian c msgUlpUeEstablishInd
  count : t.count = ws.length
  bound : ws.length ≤ maxNumUeInfoReport
  length : t.length = indLength ws
  entry : ∀ i w, ws[i]? = some w →
    t.rnti i = convertInt16Endian c w.1.toNat ∧
      t.prbPower i = convertInt32Endian c (bits 4 w.2.1) ∧
      t.ta i = convertInt16Endian c (bits 2 w.2.2)

theorem holds_init (c : Bool) : Holds c (tgtInit c) [] :=
  ⟨rfl, rfl, Nat.zero_le _, rfl, by simp⟩

theorem Holds.process (h : Holds c t ws) (rnti : UInt16) (list : Option UlReportInfoList) :
    Holds c (tgtProcessUeEstablishInfo c t rnti list) (collect ws (.process rnti list)).1 := by
  cases list with
  | none => exact h
  | some list =>
      have hcount := h.count
      simp only [tgtProcessUeEstablishInfo, collect]
      by_cases hempty : list.count = 0
      · rw [if_pos hempty, if_neg fun hne => hne.1 hempty]
        exact h
      by_cases hfull : t.count ≥ maxNumUeInfoReport
      · rw [if_neg hempty, if_pos hfull, if_neg fun hne => by omega]
        exact h
      rw [if_neg hempty, if_neg hfull, if_pos ⟨hempty, by omega⟩]
      have hlen := h.length
      have hmax : maxNumUeInfoReport = 32 := rfl
      simp only [indLength, establishHeadLength, ueEstablishInfoSize] at hlen
      refine ⟨h.msgType, by simp [hcount], ?_, ?_, fun i w hw => ?_⟩
      · simp only [List.length_append, List.length_singleton]
        omega
      · simp only [indLength, establishHeadLength, ueEstablishInfoSize, List.length_append,
          List.length_singleton]
        omega
      · rw [List.getElem?_append] at hw
        by_cases hi : i < ws.length
        · -- an entry that was there before
          rw [if_pos hi] at hw
          have hne : i ≠ t.count := by omega
          simp only [Function.update_of_ne hne]
          exact h.entry i w hw
        · rw [if_neg hi, List.getElem?_singleton] at hw
          split_ifs at hw with hz
          obtain rfl := Option.some.inj hw
          obtain rfl : i = t.count := by omega
          simp only [Function.update_self, establishment, and_self]

/-- What a datagram is: the indication, in memory, with the converted length. -/
structure Sends (c : Bool) (order : ByteOrder) (d : Datagram) (ws : List Establishment) :
    Prop where
  length : d.length = convertInt16Endian c (indLength ws)
  filled : ws ≠ [] ∧ ws.length ≤ maxNumUeInfoReport
  bytes : ∀ k < indLength ws, d.mem k = (indBytes (wireOrder c order) ws).getD k 0

/-! ## The bytes of a datagram -/

theorem getD_flatMap {α : Type} (f : α → List UInt8) {n : Nat} (ws : List α)
    (hf : ∀ w ∈ ws, (f w).length = n) {j : Nat} (hj : j < n * ws.length) :
    ∃ w, ws[j / n]? = some w ∧ (ws.flatMap f).getD j 0 = (f w).getD (j % n) 0 := by
  induction ws generalizing j with
  | nil => simp at hj
  | cons v ws ih =>
      have hv := hf v List.mem_cons_self
      have hn : 0 < n := by
        rcases Nat.eq_zero_or_pos n with rfl | hpos
        · simp at hj
        · exact hpos
      rw [List.length_cons, Nat.mul_succ] at hj
      rw [List.flatMap_cons]
      by_cases hlt : j < n
      · refine ⟨v, ?_, ?_⟩
        · rw [Nat.div_eq_of_lt hlt, List.getElem?_cons_zero]
        · rw [List.getD_append _ _ _ _ (by omega), Nat.mod_eq_of_lt hlt]
      · obtain ⟨w, hw, hget⟩ := ih (fun w hw => hf w (List.mem_cons_of_mem v hw))
          (j := j - n) (by omega)
        have hdiv : j / n = (j - n) / n + 1 := Nat.div_eq_sub_div hn (by omega)
        refine ⟨w, ?_, ?_⟩
        · rw [hdiv, List.getElem?_cons_succ]
          exact hw
        · rw [List.getD_append_right _ _ _ _ (by omega), hv, hget, ← Nat.mod_eq_sub_mod]
          omega

theorem length_establishmentBytes (o : ByteOrder) (w : Establishment) :
    (establishmentBytes o w).length = ueEstablishInfoSize := by
  simp [establishmentBytes, ueEstablishInfoSize]

/-- The entry of an establishment, in memory. -/
theorem Holds.entryBytes (h : Holds c t ws) (order : ByteOrder) {i : Nat} {w : Establishment}
    (hw : ws[i]? = some w) : t.entry order i = establishmentBytes (wireOrder c order) w := by
  obtain ⟨hrnti, hpower, hta⟩ := h.entry i w hw
  unfold TargetState.entry establishmentBytes
  rw [hrnti, hpower, hta, store_convertInt16Endian, store_convertInt32Endian,
    store_convertInt16Endian, store_zero order (wireOrder c order)]

/-- **What is sent** is the indication, but for the number of bytes. -/
theorem Holds.sends (h : Holds c t ws) (order : ByteOrder) (hne : ws ≠ [])
    (behind : Nat → UInt8) :
    Sends c order ⟨convertInt16Endian c t.length, layout order t.msgType
      (convertInt16Endian c t.length) (convertInt32Endian c t.count) ueEstablishInfoSize
      (t.entry order) behind⟩ ws := by
  refine ⟨by rw [h.length], ⟨hne, h.bound⟩, fun k hk => ?_⟩
  have hhead : store order 2 t.msgType ++ store order 2 (convertInt16Endian c t.length) ++
      store order 4 (convertInt32Endian c t.count)
        = store (wireOrder c order) 2 msgUlpUeEstablishInd ++
          store (wireOrder c order) 2 (indLength ws) ++
          store (wireOrder c order) 4 ws.length := by
    rw [h.msgType, h.length, h.count, store_convertInt16Endian, store_convertInt16Endian,
      store_convertInt32Endian]
  have hlen : (store (wireOrder c order) 2 msgUlpUeEstablishInd ++
      store (wireOrder c order) 2 (indLength ws) ++
      store (wireOrder c order) 4 ws.length).length = arrayOffset := by simp [arrayOffset]
  have hbound := h.bound
  simp only [indLength, establishHeadLength, ueEstablishInfoSize] at hk
  simp only [maxNumUeInfoReport] at hbound
  unfold indBytes
  show layout order t.msgType _ _ ueEstablishInfoSize (t.entry order) behind k = _
  by_cases hlt : k < arrayOffset
  · rw [layout, if_pos hlt, hhead]
    exact (List.getD_append _ _ _ _ (by rw [hlen]; exact hlt)).symm
  · have hoff : arrayOffset = 8 := rfl
    obtain ⟨w, hw, hget⟩ := getD_flatMap (establishmentBytes (wireOrder c order)) ws
      (fun w _ => length_establishmentBytes _ w) (j := k - arrayOffset)
      (by simp only [ueEstablishInfoSize]; omega)
    rw [layout, if_neg hlt, if_pos (by simp only [ueEstablishInfoSize, maxNumUeInfoReport]; omega),
      List.getD_append_right _ _ _ _ (by rw [hlen]; omega), hlen, hget, h.entryBytes order hw]

/-! ## The runs -/

theorem Holds.send (h : Holds c t ws) (order : ByteOrder) (socketFd : Int) (hasAddr : Bool)
    (behind : Nat → UInt8) :
    Holds c (tgtSendUeEstablishInd c order t socketFd hasAddr behind).1
        (collect ws (.send socketFd hasAddr behind)).1 ∧
      List.Forall₂ (Sends c order)
        (tgtSendUeEstablishInd c order t socketFd hasAddr behind).2.toList
        (collect ws (.send socketFd hasAddr behind)).2.toList := by
  have hcollect : collect ws (.send socketFd hasAddr behind) =
      if socketFd ≠ -1 ∧ hasAddr = true ∧ ws ≠ [] then ([], some ws) else (ws, none) := rfl
  rw [hcollect]
  unfold tgtSendUeEstablishInd
  have hcount := h.count
  by_cases hinvalid : socketFd = -1 ∨ hasAddr = false
  · have hno : ¬ (socketFd ≠ -1 ∧ hasAddr = true ∧ ws ≠ []) := by
      rintro ⟨hfd, haddr, -⟩
      rcases hinvalid with hbad | hbad
      · exact hfd hbad
      · exact absurd (hbad.symm.trans haddr) (by decide)
    rw [if_pos hinvalid, if_neg hno]
    exact ⟨h, .nil⟩
  rw [not_or] at hinvalid
  have hvalid : hasAddr = true := by simpa using hinvalid.2
  by_cases hne : ws = []
  · have hno : ¬ (socketFd ≠ -1 ∧ hasAddr = true ∧ ws ≠ []) := fun hv => hv.2.2 hne
    have hzero : ¬ t.count > 0 := by
      rw [hcount, hne]
      simp
    rw [if_neg (not_or.mpr hinvalid), if_neg hzero, if_neg hno]
    exact ⟨h, .nil⟩
  · have hpos : t.count > 0 := by
      rw [hcount]
      exact List.length_pos_iff.mpr hne
    rw [if_neg (not_or.mpr hinvalid), if_pos hpos, if_pos ⟨hinvalid.1, hvalid, hne⟩]
    exact ⟨⟨h.msgType, rfl, Nat.zero_le _, rfl, by simp⟩,
      .cons (h.sends order hne behind) .nil⟩

theorem Holds.step (h : Holds c t ws) (order : ByteOrder) (call : Call) :
    Holds c (Target.step c order t call).1 (collect ws call).1 ∧
      List.Forall₂ (Sends c order) (Target.step c order t call).2.toList
        (collect ws call).2.toList := by
  cases call with
  | process rnti list =>
      refine ⟨h.process rnti list, ?_⟩
      have hnone : (collect ws (.process rnti list)).2 = none := by
        cases list with
        | none => rfl
        | some list =>
            simp only [collect]
            split <;> rfl
      rw [hnone]
      exact .nil
  | send socketFd hasAddr behind => exact h.send order socketFd hasAddr behind

/-- **Every run** holds and sends what is collected, by induction on the calls. -/
theorem run_holds (c : Bool) (order : ByteOrder) (calls : List Call) :
    Holds c (run c order calls).1 (collected calls).1 ∧
      List.Forall₂ (Sends c order) (run c order calls).2 (collected calls).2 := by
  induction calls using List.reverseRecOn with
  | nil => exact ⟨holds_init c, .nil⟩
  | append_singleton calls call ih =>
      obtain ⟨hholds, hsent⟩ := ih
      obtain ⟨hstep, hout⟩ := hholds.step order call
      unfold run collected at hholds hsent hstep hout ⊢
      rw [List.foldl_append, List.foldl_append]
      exact ⟨hstep, List.rel_append hsent hout⟩

/-- The exchanged length is never that of the indication. -/
theorem convertInt16Endian_length {n : Nat} (hpos : 0 < n) (hn : n ≤ maxNumUeInfoReport) :
    convertInt16Endian true (establishHeadLength + ueEstablishInfoSize * n)
      ≠ establishHeadLength + ueEstablishInfoSize * n := by
  have hall : ∀ m < 33, 0 < m → convertInt16Endian true (establishHeadLength
      + ueEstablishInfoSize * m) ≠ establishHeadLength + ueEstablishInfoSize * m := by decide
  exact hall n (Nat.lt_succ_of_le hn) hpos

theorem Sends.complete_iff {d : Datagram} (h : Sends c order d ws) :
    Complete (wireOrder c order) d ws ↔ c = false := by
  constructor
  · intro hcomplete
    cases c with
    | false => rfl
    | true =>
        have hlen := h.length.symm.trans hcomplete.length
        exact absurd hlen
          (convertInt16Endian_length (List.length_pos_iff.mpr h.filled.1) h.filled.2)
  · rintro rfl
    exact ⟨h.length, h.bytes⟩

theorem sends_complete_iff {ds : List Datagram} {wss : List (List Establishment)}
    (h : List.Forall₂ (Sends c order) ds wss) :
    List.Forall₂ (Complete (wireOrder c order)) ds wss ↔ c = false ∨ wss = [] := by
  cases h with
  | nil => exact iff_of_true .nil (.inr rfl)
  | cons hd hrest =>
      constructor
      · intro hall
        cases hall with
        | cons hcomplete _ => exact .inl (hd.complete_iff.mp hcomplete)
      · rintro (rfl | hnil)
        · exact .cons (hd.complete_iff.mpr rfl) (hrest.imp fun _ _ hs => hs.complete_iff.mpr rfl)
        · cases hnil

end

/-- **When the establishment datagrams are complete**: in a build without `ENDIAN_CONVERT`, and
else as long as there is none. -/
theorem completes_iff (endianConvert : Bool) (order : ByteOrder) (calls : List Call) :
    Completes endianConvert order calls ↔ endianConvert = false ∨ (collected calls).2 = [] := by
  obtain ⟨hholds, hsent⟩ := run_holds endianConvert order calls
  rw [← sends_complete_iff hsent]
  refine ⟨fun h => h.sent, fun h => ⟨?_, hholds.count, ?_, h⟩⟩
  · rw [hholds.count]
    exact hholds.bound
  · rw [hholds.count]
    exact hholds.length

/-- One establishment, of which the datagram has 6144 bytes. -/
theorem not_completes_one :
    ¬ ∀ (endianConvert : Bool) (order : ByteOrder) (calls : List Call),
      Completes endianConvert order calls := by
  intro hall
  have hsent := (hall true .little [.process 0x3d (some ⟨1, fun _ => ⟨4, 12, -75⟩⟩),
    .send 3 true fun _ => 0]).sent
  have hlength := (List.forall₂_cons.mp hsent).1.length
  revert hlength
  decide

end LteUlp.Target
