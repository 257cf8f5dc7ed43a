import Mathlib.Data.List.GetD
import LteUlp.Basic.Fragments
import LteUlp.Rlc.Reassembly

set_option autoImplicit false

/-! # SDUs in AMD PDUs

The sender cuts SDUs to pieces and puts these, in order, into PDUs with consecutive numbers,
each as a data field (`Segmentation`). Only the last field of a PDU may leave its SDU
incomplete. The reassembler is followed on such PDUs with the fields themselves as data, so
that one can tell where the parts of an SDU come from (`Trace`):

* the PDUs in order are put together by their flags (`receive_inOrder`);
* PDUs in any order, as long as the field that the reassembler takes for the continuation of
  the incomplete SDU always is it (`Follows`), make up SDUs that were sent
  (`Segmentation.Kept`, `receive_traced`).
-/

namespace LteUlp.Rlc

open Fragments RlcSduStatus

/-! ## The receiver -/

section Receiver

variable {γ δ : Type} (join : γ → γ → γ)

/-- PDUs, one after the other, each with its number and the fields in it. -/
def receiveAll : Option (Partial γ) → List (Nat × List (RlcSduStatus × γ)) →
    Option (Partial γ) × List γ
  | raw, [] => (raw, [])
  | raw, pdu :: pdus =>
      let r := reassembleAll join pdu.1 raw pdu.2
      let rs := receiveAll r.1 pdus
      (rs.1, r.2 ++ rs.2)

variable {join}

theorem receiveAll_append (raw : Option (Partial γ))
    (l l' : List (Nat × List (RlcSduStatus × γ))) :
    receiveAll join raw (l ++ l')
      = ((receiveAll join (receiveAll join raw l).1 l').1,
          (receiveAll join raw l).2 ++ (receiveAll join (receiveAll join raw l).1 l').2) := by
  induction l generalizing raw with
  | nil => rfl
  | cons pdu l ih =>
      rw [List.cons_append, receiveAll, receiveAll]
      simp only [ih, List.append_assoc]

theorem receiveAll_snoc (raw : Option (Partial γ)) (l : List (Nat × List (RlcSduStatus × γ)))
    (pdu : Nat × List (RlcSduStatus × γ)) :
    receiveAll join raw (l ++ [pdu])
      = ((reassembleAll join pdu.1 (receiveAll join raw l).1 pdu.2).1,
          (receiveAll join raw l).2
            ++ (reassembleAll join pdu.1 (receiveAll join raw l).1 pdu.2).2) := by
  rw [receiveAll_append]
  simp only [receiveAll, List.append_nil]

/-- An incomplete SDU with other data. -/
def Partial.map (g : γ → δ) (p : Partial γ) : Partial δ := ⟨p.sn, g p.data⟩

/-- A field with other data. -/
def fieldMap (g : γ → δ) (f : RlcSduStatus × γ) : RlcSduStatus × δ := (f.1, g f.2)

variable {join' : δ → δ → δ} {g : γ → δ}

theorem reassemble_map (hg : ∀ x y, g (join x y) = join' (g x) (g y)) (sn : Nat)
    (raw : Option (Partial γ)) (status : RlcSduStatus) (data : γ) :
    reassemble join' sn (raw.map (Partial.map g)) status (g data)
      = ((reassemble join sn raw status data).1.map (Partial.map g),
          (reassemble join sn raw status data).2.map g) := by
  cases raw with
  | none => cases status <;> rfl
  | some p =>
      cases status with
      | amPduMapSduFull => rfl
      | amPduMapSduStart => rfl
      | amPduMapSduEnd =>
          simp only [reassemble, Option.map_some, Partial.map]
          split
          · simp [hg]
          · rfl
      | amPduMapSduMid =>
          simp only [reassemble, Option.map_some, Partial.map]
          split
          · simp [hg, Partial.map]
          · rfl

/-- **The receiver does not look at the data.** -/
theorem reassembleAll_map (hg : ∀ x y, g (join x y) = join' (g x) (g y)) (sn : Nat)
    (raw : Option (Partial γ)) (fs : List (RlcSduStatus × γ)) :
    reassembleAll join' sn (raw.map (Partial.map g)) (fs.map (fieldMap g))
      = ((reassembleAll join sn raw fs).1.map (Partial.map g),
          (reassembleAll join sn raw fs).2.map g) := by
  induction fs generalizing raw with
  | nil => rfl
  | cons f fs ih =>
      have h := reassemble_map hg sn raw f.1 f.2
      simp only [List.map_cons, reassembleAll, fieldMap, h, ih, List.map_append]
      cases (reassemble join sn raw f.1 f.2).2 <;> rfl

theorem receiveAll_map (hg : ∀ x y, g (join x y) = join' (g x) (g y))
    (raw : Option (Partial γ)) (pdus : List (Nat × List (RlcSduStatus × γ))) :
    receiveAll join' (raw.map (Partial.map g)) (pdus.map fun pdu => (pdu.1, pdu.2.map (fieldMap g)))
      = ((receiveAll join raw pdus).1.map (Partial.map g),
          (receiveAll join raw pdus).2.map g) := by
  induction pdus generalizing raw with
  | nil => rfl
  | cons pdu pdus ih =>
      have h := reassembleAll_map hg pdu.1 raw pdu.2
      simp only [List.map_cons, receiveAll, h, ih, List.map_append]

end Receiver

/-! ## The sender -/

/-- The status of the data field with a fragment. -/
def fieldStatus {α : Type} (f : Fragment α) : RlcSduStatus :=
  if f.first then if f.last then amPduMapSduFull else amPduMapSduStart
  else if f.last then amPduMapSduEnd else amPduMapSduMid

/-- SDUs cut to pieces, and the PDUs with these: the number of the first PDU and whether a
PDU asks for a status report. -/
structure Segmentation where
  pieces : List (List (List UInt8))
  pdus : List (List (Fragment UInt8))
  firstSn : Nat
  poll : Nat → Bool
  pieces_ne : ∀ sdu ∈ pieces, sdu ≠ [] ∧ ∀ d ∈ sdu, d ≠ []
  carried : pdus.flatten = stream pieces
  fields_ne : ∀ pdu ∈ pdus, pdu ≠ []
  completes : ∀ pdu ∈ pdus, ∀ f ∈ pdu.dropLast, f.last = true
  lengths : ∀ pdu ∈ pdus, ∀ f ∈ pdu.dropLast, f.data.length ≤ 2047
  count : ∀ pdu ∈ pdus, pdu.length ≤ 257

/-- Fields, and the PDU that had the last of them. -/
structure Trace where
  fields : List (Fragment UInt8)
  pdu : Nat

/-- One after the other. -/
def Trace.join (x y : Trace) : Trace := ⟨x.fields ++ y.fields, y.pdu⟩

/-- The bytes of the fields. -/
def Trace.bytes (x : Trace) : List UInt8 := symbols x.fields

namespace Segmentation

variable (g : Segmentation)

/-- The SDUs. -/
def sdus : List (List UInt8) := g.pieces.map List.flatten

/-- The number of a PDU. -/
def sn (i : Nat) : Nat := (g.firstSn + i) % 1024

/-- The fields of a PDU. -/
def pdu (i : Nat) : List (Fragment UInt8) := g.pdus.getD i []

/-- All fields of the PDUs before this one. -/
def before (i : Nat) : List (Fragment UInt8) := (g.pdus.take i).flatten

/-- Those of an SDU that the PDUs before this one do not complete. -/
def current (i : Nat) : List (Fragment UInt8) := (regroup [] (g.before i)).2

/-- The fields of a PDU as they are received. -/
def receivedFields (i : Nat) (pdu : List (Fragment UInt8)) : List (RlcSduStatus × Trace) :=
  pdu.map fun f => (fieldStatus f, ⟨[f], i⟩)

/-- A PDU as it is received. -/
def received (i : Nat) : Nat × List (RlcSduStatus × Trace) :=
  (g.sn i, receivedFields i (g.pdu i))

/-- What the receiver keeps if `cur` are the fields of an SDU up to those of the PDU `i`. -/
def keptOf (i : Nat) (cur : List (Fragment UInt8)) : Option (Partial Trace) :=
  if cur = [] then none else some ⟨g.sn i, ⟨cur, i⟩⟩

end Segmentation

section Pdu

variable {g : Segmentation} {i : Nat} {f : Fragment UInt8} {cur pdu : List (Fragment UInt8)}
  {raw : Option (Partial Trace)}

/-! ## A PDU -/

theorem keptOf_nil (g : Segmentation) (i : Nat) : g.keptOf i [] = none := rfl

theorem keptOf_ne (g : Segmentation) (i : Nat) (h : cur ≠ []) :
    g.keptOf i cur = some ⟨g.sn i, ⟨cur, i⟩⟩ := if_neg h

theorem dropLast_tail {α : Type} {P : α → Prop} {x : α} {l : List α}
    (h : ∀ y ∈ (x :: l).dropLast, P y) : ∀ y ∈ l.dropLast, P y := by
  intro y hy
  cases l with
  | nil => simp at hy
  | cons z l => exact h y (List.mem_cons_of_mem x hy)

/-- Only the last field may leave its SDU incomplete. -/
theorem open_last (hlast : ∀ x ∈ (f :: pdu).dropLast, x.last = true) (hf : f.last = false) :
    pdu = [] := by
  by_contra hne
  have hmem : f ∈ (f :: pdu).dropLast := by
    rw [List.dropLast_cons_of_ne_nil hne]
    exact List.mem_cons_self
  rw [hlast f hmem] at hf
  exact absurd hf (by decide)

/-- Fields of which each begins an SDU. What was there before does not matter, unless there
are no fields. -/
theorem fresh_fields (hal : Aligned true pdu) (hlast : ∀ f ∈ pdu.dropLast, f.last = true)
    (hraw : pdu = [] → raw = none) :
    reassembleAll Trace.join (g.sn i) raw (Segmentation.receivedFields i pdu)
      = (g.keptOf i (regroup [] pdu).2, (regroup [] pdu).1.map fun l => ⟨l, i⟩) := by
  induction pdu generalizing raw with
  | nil =>
      rw [hraw rfl]
      rfl
  | cons f pdu ih =>
      obtain ⟨hfirst, hal⟩ := hal
      cases hf : f.last with
      | true =>
          have hst : fieldStatus f = amPduMapSduFull := by simp [fieldStatus, hfirst, hf]
          rw [hf] at hal
          have hrest := @ih none hal (dropLast_tail hlast) fun _ => rfl
          unfold Segmentation.receivedFields at hrest ⊢
          rw [List.map_cons, reassembleAll, regroup, if_pos hf]
          simp only [hst, reassemble, hrest]
          rfl
      | false =>
          have hst : fieldStatus f = amPduMapSduStart := by simp [fieldStatus, hfirst, hf]
          rw [open_last hlast hf]
          unfold Segmentation.receivedFields
          rw [List.map_cons, reassembleAll, regroup, if_neg (by simp [hf])]
          simp only [hst, reassemble]
          rfl

/-- Fields of which the first one continues the SDU that the receiver keeps. -/
theorem continued_fields {j : Nat} (hcur : cur ≠ []) (hal : Aligned false (f :: pdu))
    (hlast : ∀ x ∈ (f :: pdu).dropLast, x.last = true)
    (hseq : continues (g.sn i) (fieldStatus f) (g.sn j) = true) :
    reassembleAll Trace.join (g.sn i) (g.keptOf j cur)
        (Segmentation.receivedFields i (f :: pdu))
      = (g.keptOf i (regroup cur (f :: pdu)).2,
          (regroup cur (f :: pdu)).1.map fun l => ⟨l, i⟩) := by
  obtain ⟨hfirst, hal⟩ := hal
  rw [keptOf_ne g j hcur, regroup]
  unfold Segmentation.receivedFields
  rw [List.map_cons, reassembleAll]
  cases hf : f.last with
  | true =>
      have hst : fieldStatus f = amPduMapSduEnd := by simp [fieldStatus, hfirst, hf]
      rw [hst] at hseq ⊢
      rw [hf] at hal
      have hrest : reassembleAll Trace.join (g.sn i) none (Segmentation.receivedFields i pdu)
          = (g.keptOf i (regroup [] pdu).2, (regroup [] pdu).1.map fun l => ⟨l, i⟩) :=
        fresh_fields hal (dropLast_tail hlast) fun _ => rfl
      unfold Segmentation.receivedFields at hrest
      simp only [reassemble, hseq, if_true, hrest]
      rfl
  | false =>
      have hst : fieldStatus f = amPduMapSduMid := by simp [fieldStatus, hfirst, hf]
      rw [hst] at hseq ⊢
      rw [open_last hlast hf]
      simp only [reassemble, hseq, if_true, List.map_nil, reassembleAll]
      rw [if_neg (by simp), regroup, keptOf_ne g i (by simp)]
      rfl

/-- A field that is dropped. -/
theorem dropped_field {sn : Nat} {data : Trace} (hfirst : f.first = false)
    (hno : ∀ p, raw = some p → continues sn (fieldStatus f) p.sn = false) :
    reassemble Trace.join sn raw (fieldStatus f) data = (raw, none) := by
  have hst : fieldStatus f = amPduMapSduEnd ∨ fieldStatus f = amPduMapSduMid := by
    cases hf : f.last <;> simp [fieldStatus, hfirst, hf]
  cases raw with
  | none => rcases hst with hst | hst <;> rw [hst] <;> rfl
  | some p =>
      have h := hno p rfl
      rcases hst with hst | hst <;> rw [hst] at h ⊢ <;> simp [reassemble, h]

end Pdu

/-! ## Positions -/

section Position

variable {g : Segmentation} {i j k : Nat}

theorem before_zero (g : Segmentation) : g.before 0 = [] := by simp [Segmentation.before]

theorem pdu_mem (hi : i < g.pdus.length) : g.pdu i ∈ g.pdus := by
  rw [Segmentation.pdu, List.getD_eq_getElem g.pdus [] hi]
  exact List.getElem_mem hi

theorem before_succ (hi : i < g.pdus.length) : g.before (i + 1) = g.before i ++ g.pdu i := by
  unfold Segmentation.before Segmentation.pdu
  rw [List.take_add_one, List.getElem?_eq_getElem hi, List.flatten_append,
    List.getD_eq_getElem g.pdus [] hi]
  simp

/-- The PDUs carry the fields of the SDUs, in order. -/
theorem before_isPrefix (g : Segmentation) (i : Nat) : g.before i <+: stream g.pieces := by
  refine ⟨(g.pdus.drop i).flatten, ?_⟩
  rw [Segmentation.before, ← List.flatten_append, List.take_append_drop, g.carried]

/-- An SDU begins with a PDU if, and only if, those before it leave none incomplete. -/
theorem pdu_aligned (hi : i < g.pdus.length) : Aligned (g.current i).isEmpty (g.pdu i) := by
  have hal := aligned_stream fun m hm => (g.pieces_ne m hm).1
  obtain ⟨r, hr⟩ := before_isPrefix g (i + 1)
  rw [← hr, before_succ hi, aligned_append, aligned_append] at hal
  have hempty : (g.current i).isEmpty = between true (g.before i) := by
    rw [Bool.eq_iff_iff, List.isEmpty_iff]
    exact regroup_between [] (g.before i)
  rw [hempty]
  exact hal.1.2

theorem current_succ (hi : i < g.pdus.length) :
    g.current (i + 1) = (regroup (g.current i) (g.pdu i)).2 := by
  unfold Segmentation.current
  rw [before_succ hi, regroup_append]

/-- What a PDU completes is an SDU. -/
theorem completed_mem (hi : i < g.pdus.length) {l : List (Fragment UInt8)}
    (hl : l ∈ (regroup (g.current i) (g.pdu i)).1) : l ∈ g.pieces.map (cut true) := by
  have hall := regroup_stream fun m hm => (g.pieces_ne m hm).1
  obtain ⟨r, hr⟩ := before_isPrefix g (i + 1)
  rw [← hr, before_succ hi, regroup_append, regroup_append] at hall
  rw [← (Prod.mk.inj hall).1, List.mem_append, List.mem_append]
  exact Or.inl (Or.inr hl)

theorem isSnEqual_iff (x y : Nat) : isSnEqual x y = true ↔ x % 1024 = y % 1024 := by
  have hand : ∀ n : Nat, n &&& 1023 = n % 1024 := fun n =>
    Nat.and_two_pow_sub_one_eq_mod n 10
  rw [isSnEqual, hand, hand, beq_iff_eq]

/-- The number of the next PDU. -/
theorem continues_next (g : Segmentation) (j : Nat) {status : RlcSduStatus}
    (h : status = amPduMapSduEnd ∨ status = amPduMapSduMid) :
    continues (g.sn (j + 1)) status (g.sn j) = true := by
  have hnext : isSnEqual (g.sn (j + 1)) (g.sn j + 1) = true := by
    rw [isSnEqual_iff]
    unfold Segmentation.sn
    omega
  have hother : isSnEqual (g.sn (j + 1)) (g.sn j) = false := by
    rw [← Bool.not_eq_true, isSnEqual_iff]
    unfold Segmentation.sn
    omega
  rcases h with rfl | rfl
  · rw [continues, hnext, Bool.true_or]
  · rw [continues, hnext, hother]
    rfl

theorem fieldStatus_of_not_first {f : Fragment UInt8} (h : f.first = false) :
    fieldStatus f = amPduMapSduEnd ∨ fieldStatus f = amPduMapSduMid := by
  cases hf : f.last <;> simp [fieldStatus, h, hf]

theorem fieldStatus_of_first {f : Fragment UInt8} (h : f.first = true) (sn sn' : Nat) :
    continues sn (fieldStatus f) sn' = false := by
  cases hf : f.last <;> simp [fieldStatus, h, hf, continues]

/-! ## In order -/

/-- The PDU after those whose fields make up what the receiver keeps. -/
theorem reassembleAll_next (hi : i < g.pdus.length) {j : Nat} (hj : g.current i ≠ [] → i = j + 1) :
    reassembleAll Trace.join (g.sn i) (g.keptOf j (g.current i))
        (Segmentation.receivedFields i (g.pdu i))
      = (g.keptOf i (g.current (i + 1)),
          (regroup (g.current i) (g.pdu i)).1.map fun l => ⟨l, i⟩) := by
  have hal := pdu_aligned hi
  have hlast := g.completes _ (pdu_mem hi)
  rw [current_succ hi]
  by_cases hcur : g.current i = []
  · rw [hcur] at hal ⊢
    exact fresh_fields hal hlast fun _ => rfl
  · obtain ⟨f, pdu, hpdu⟩ := List.exists_cons_of_ne_nil (g.fields_ne _ (pdu_mem hi))
    have hempty : (g.current i).isEmpty = false := by simp [hcur]
    rw [hempty, hpdu] at hal
    rw [hpdu] at hlast ⊢
    apply continued_fields hcur hal hlast
    rw [hj hcur]
    exact continues_next g j (fieldStatus_of_not_first hal.1)

/-- **PDUs in order** are put together by their flags. -/
theorem receive_inOrder (g : Segmentation) (hk : k ≤ g.pdus.length) :
    (receiveAll Trace.join none ((List.range k).map g.received)).1
        = g.keptOf (k - 1) (g.current k) ∧
      (receiveAll Trace.join none ((List.range k).map g.received)).2.map Trace.fields
        = (regroup [] (g.before k)).1 := by
  induction k with
  | zero => simp [receiveAll, Segmentation.keptOf, Segmentation.current, before_zero, regroup]
  | succ k ih =>
      obtain ⟨hraw, hdone⟩ := ih (by omega)
      have hk' : k < g.pdus.length := by omega
      have hpos : g.current k ≠ [] → k = k - 1 + 1 := by
        intro hne
        have : k ≠ 0 := by
          rintro rfl
          exact hne (by simp [Segmentation.current, before_zero, regroup])
        omega
      have hnext := reassembleAll_next hk' hpos
      rw [List.range_succ, List.map_append, List.map_singleton, receiveAll_snoc, hraw]
      simp only [Segmentation.received, hnext, List.map_append, hdone, List.map_map]
      refine ⟨rfl, ?_⟩
      rw [before_succ hk', regroup_append]
      simp only [Segmentation.current]
      congr 1
      exact List.map_id _

/-! ## In any order -/

/-- What the receiver keeps is the beginning of an SDU, up to its last field in a PDU. -/
def Segmentation.Kept (g : Segmentation) (raw : Option (Partial Trace)) : Prop :=
  raw = none ∨ ∃ j < g.pdus.length, raw = g.keptOf j (g.current (j + 1))

/-- The field of the PDU `i` that the receiver takes for the continuation of the SDU that it
keeps, if it does so, is the next one of this SDU, which is not longer than 65535 bytes. -/
structure Segmentation.Follows (g : Segmentation) (raw : Option (Partial Trace)) (i : Nat) :
    Prop where
  next : ∀ p ∈ raw, ∀ f ∈ (g.pdu i).head?,
    continues (g.sn i) (fieldStatus f) p.sn = true → i = p.data.pdu + 1
  short : ∀ p ∈ raw, ∀ f ∈ (g.pdu i).head?,
    continues (g.sn i) (fieldStatus f) p.sn = true →
      p.data.bytes.length + f.data.length < 2 ^ 16

/-- **A PDU in any order**: what it completes is an SDU that was sent. -/
theorem reassembleAll_kept {raw : Option (Partial Trace)} (hi : i < g.pdus.length)
    (hraw : g.Kept raw) (hnext : g.Follows raw i) :
    g.Kept (reassembleAll Trace.join (g.sn i) raw
        (Segmentation.receivedFields i (g.pdu i))).1 ∧
      ∀ d ∈ (reassembleAll Trace.join (g.sn i) raw
        (Segmentation.receivedFields i (g.pdu i))).2, d.fields ∈ g.pieces.map (cut true) := by
  have hal := pdu_aligned hi
  have hlast := g.completes _ (pdu_mem hi)
  have hmem := fun l => completed_mem (l := l) hi
  obtain ⟨f, pdu, hpdu⟩ := List.exists_cons_of_ne_nil (g.fields_ne _ (pdu_mem hi))
  by_cases hseq : ∃ p ∈ raw, continues (g.sn i) (fieldStatus f) p.sn = true
  · -- the first field continues what is kept
    obtain ⟨p, hp, hseq⟩ := hseq
    have hij := hnext.next p hp f (by rw [hpdu]; rfl) hseq
    rcases hraw with rfl | ⟨j, hj, rfl⟩
    · cases hp
    have hcur : g.current (j + 1) ≠ [] := by
      intro hnil
      rw [hnil, keptOf_nil] at hp
      cases hp
    rw [keptOf_ne g j hcur] at hp
    obtain rfl := Option.some.inj hp
    obtain rfl : i = j + 1 := hij
    rw [reassembleAll_next hi fun _ => rfl]
    refine ⟨Or.inr ⟨j + 1, hi, rfl⟩, fun d hd => ?_⟩
    obtain ⟨l, hl, rfl⟩ := List.mem_map.mp hd
    exact hmem l hl
  have hno : ∀ p, raw = some p → continues (g.sn i) (fieldStatus f) p.sn = false := by
    intro p hp
    by_contra h
    exact hseq ⟨p, hp, by simpa using h⟩
  -- the fields that begin an SDU, after those that are dropped
  have hfresh : ∀ l, Aligned true l → (∀ x ∈ l.dropLast, x.last = true) → l ≠ [] →
      g.current (i + 1) = (regroup [] l).2 →
      (∀ x ∈ (regroup [] l).1, x ∈ (regroup (g.current i) (g.pdu i)).1) →
      g.Kept (reassembleAll Trace.join (g.sn i) raw (Segmentation.receivedFields i l)).1 ∧
        ∀ d ∈ (reassembleAll Trace.join (g.sn i) raw (Segmentation.receivedFields i l)).2,
          d.fields ∈ g.pieces.map (cut true) := by
    intro l hl hl' hne hcur hsub
    rw [fresh_fields hl hl' fun h => absurd h hne, ← hcur]
    refine ⟨Or.inr ⟨i, hi, rfl⟩, fun d hd => ?_⟩
    obtain ⟨x, hx, rfl⟩ := List.mem_map.mp hd
    exact hmem x (hsub x hx)
  cases hfirst : f.first with
  | true =>
      have hcur : g.current i = [] := by
        rw [hpdu] at hal
        exact List.isEmpty_iff.mp (hal.1.symm.trans hfirst)
      have hsucc := current_succ hi
      rw [hcur] at hal hsucc
      refine hfresh _ hal hlast (g.fields_ne _ (pdu_mem hi)) hsucc fun x hx => ?_
      rwa [hcur]
  | false =>
      have hsucc := current_succ hi
      rw [hpdu] at hal hlast hsucc hfresh ⊢
      have hdrop : reassemble Trace.join (g.sn i) raw (fieldStatus f) ⟨[f], i⟩ = (raw, none) :=
        dropped_field hfirst hno
      unfold Segmentation.receivedFields at hfresh ⊢
      rw [List.map_cons, reassembleAll]
      simp only [hdrop, Option.toList_none, List.nil_append]
      by_cases hnil : pdu = []
      · rw [hnil]
        exact ⟨hraw, by simp [reassembleAll]⟩
      have hf : f.last = true := by
        by_contra h
        exact hnil (open_last hlast (by simpa using h))
      have hfl := hal.2
      rw [hf] at hfl
      rw [regroup, if_pos hf] at hsucc hfresh
      exact hfresh pdu hfl (dropLast_tail hlast) hnil hsucc fun x hx =>
        List.mem_cons_of_mem _ hx

/-- What the receiver keeps after PDUs. -/
def Segmentation.kept (g : Segmentation) (is : List Nat) : Option (Partial Trace) :=
  (receiveAll Trace.join none (is.map g.received)).1

/-- **PDUs in any order**: what is delivered are SDUs that were sent, each of all its fields
in order. -/
theorem receive_traced {is : List Nat} (hlt : ∀ i ∈ is, i < g.pdus.length)
    (hnext : ∀ l i, l ++ [i] <+: is → g.Follows (g.kept l) i) :
    g.Kept (g.kept is) ∧
      ∀ d ∈ (receiveAll Trace.join none (is.map g.received)).2,
        d.fields ∈ g.pieces.map (cut true) := by
  induction is using List.reverseRecOn with
  | nil => exact ⟨Or.inl rfl, by simp [receiveAll]⟩
  | append_singleton is i ih =>
      obtain ⟨hkept, hdone⟩ := ih (fun j hj => hlt j (by simp [hj])) fun l j hl =>
        hnext l j (hl.trans (List.prefix_append is [i]))
      obtain ⟨h1, h2⟩ := reassembleAll_kept (hlt i (by simp)) hkept
        (hnext is i (List.prefix_refl _))
      unfold Segmentation.kept at h1 h2 ⊢
      rw [List.map_append, List.map_singleton, receiveAll_snoc]
      refine ⟨h1, fun d hd => ?_⟩
      rcases List.mem_append.mp hd with hd | hd
      · exact hdone d hd
      · exact h2 d hd

end Position

end LteUlp.Rlc
