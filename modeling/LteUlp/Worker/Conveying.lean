import LteUlp.Rlc.Channels
import LteUlp.Worker.Gathering

set_option autoImplicit false
set_option linter.unusedSectionVars false

/-! # What RLC conveys to the contexts

The RLC layer reaches the contexts of RRC only by delivering SDUs. `Conveys env r x s t xs ys told`
adds to `Leaves` what happens to an identity `x` of the UE `r`: as long as no allocation is
refused, it is carried by at least as many contexts as before, and by one if `told` holds. For
a field of a PDU, `FieldTells` says that it completes an SDU which tells the identity. What was
not carried before was `Heard`, in an SDU of the UE that RLC delivered.
-/

namespace LteUlp.Worker

open BlockStore LteUlp.Rrc LteUlp.Pdcp LteUlp.Rlc RlcSduStatus

variable {β : Type} [DecidableEq β]

/-- An SDU of these bytes tells the identity, whichever block it is in and whatever else the
state holds. -/
def Tells (env : Platform β) (lcId : Nat) (data : List UInt8) (x : Collected) : Prop :=
  ∀ (s : RrcState β) (b : β), data.length ≤ s.mem.length b →
    (∀ k (h : k < data.length), s.mem.bytes b k = data[k]) →
      x ∈ sduTold env s lcId b (UInt16.ofNat data.length)

/-- The buffer, delivered for the entity, tells the identity of the UE: its block is as long as
it says. -/
structure Announced (env : Platform β) (s : RlcState β) (e : β) (buffer : RlcAmBuffer β)
    (r : UInt16) (x : Collected) : Prop where
  rnti : (s.rxAmEntity e).rnti = r
  size : buffer.size.toNat < 2 ^ 16
  fits : ∀ b, buffer.pData = some b → buffer.size.toNat ≤ s.mem.length b
  isSome : buffer.pData.isSome
  tells : Tells env (s.rxAmEntity e).lcId (buffer.bytes s.mem) x

/-- An SDU of these bytes tells the identity in some state of the memory. -/
def MayTell (env : Platform β) (lcId : Nat) (data : List UInt8) (x : Collected) : Prop :=
  ∃ (s : RrcState β) (b : β), (∀ k (h : k < data.length), s.mem.bytes b k = data[k]) ∧
    x ∈ sduTold env s lcId b (UInt16.ofNat data.length)

/-- One of the SDUs is of the UE, and tells the identity in some state of the memory. -/
def Heard (env : Platform β) (inds : List (SduInd β)) (r : UInt16) (x : Collected) : Prop :=
  ∃ ind ∈ inds, ind.rnti = r ∧ MayTell env ind.lcId ind.data x

/-- From `s` to `t` the identity stays carried, and is carried if `told` holds. What is new was
heard. Contexts that are ready hold an identity. -/
structure Carried (env : Platform β) (r : UInt16) (x : Collected) (s t : RlcState β)
    (told : Prop) : Prop where
  ready : ∀ a ∈ t.gReadyRrcUeContextList,
    ((t.rrcUeContext a).ueIdentity.imsiPresent || (t.rrcUeContext a).ueIdentity.mTmsiPresent)
      = true
  tally : tally r x s.toRrcState ≤ tally r x t.toRrcState
  told : told → 1 ≤ Worker.tally r x t.toRrcState
  log : s.rlcUeDataInds ⊆ t.rlcUeDataInds
  heard : 1 ≤ Worker.tally r x t.toRrcState → 1 ≤ Worker.tally r x s.toRrcState ∨
    Heard env t.rlcUeDataInds r x

/-- What a part of the reception does to an identity. -/
structure Conveys (env : Platform β) (r : UInt16) (x : Collected) (s t : RlcState β)
    (xs ys : Multiset β) (told : Prop) : Prop extends Leaves s t xs ys where
  carried : t.mem.failures = s.mem.failures → Gathered s.toRrcState xs →
    Carried env r x s t told

section Rules

variable {env : Platform β} {r : UInt16} {x : Collected} {s t u : RlcState β}
variable {xs ys zs : Multiset β} {told told' : Prop} {e a b : β}

theorem Heard.mono {inds inds' : List (SduInd β)} (h : Heard env inds r x)
    (hsub : inds ⊆ inds') : Heard env inds' r x := by
  obtain ⟨ind, hind, hrest⟩ := h
  exact ⟨ind, hsub hind, hrest⟩

theorem Carried.trans (h : Carried env r x s t told) (h' : Carried env r x t u told') :
    Carried env r x s u (told ∨ told') := by
  refine ⟨h'.ready, h.tally.trans h'.tally, fun ht => ?_, List.Subset.trans h.log h'.log,
    fun hu => ?_⟩
  · rcases ht with ht | ht
    · exact (h.told ht).trans h'.tally
    · exact h'.told ht
  · rcases h'.heard hu with ht | ht
    · exact (h.heard ht).imp id fun hs => hs.mono h'.log
    · exact Or.inr ht

theorem Carried.mono (h : Carried env r x s t told') (himp : told → told') :
    Carried env r x s t told := ⟨h.ready, h.tally, fun ht => h.told (himp ht), h.log, h.heard⟩

/-- The blocks are accounted for after a part of the reception that refuses nothing. -/
theorem Conveys.gathered (h : Conveys env r x s t xs ys told)
    (hf : t.mem.failures = s.mem.failures) (hs : Gathered s.toRrcState xs) :
    Gathered t.toRrcState ys :=
  ⟨(h.sound (h.joined hf) hs.toRrcSound).1, (h.carried hf hs).ready⟩

theorem Conveys.seq (h : Conveys env r x s t xs ys told) (h' : Conveys env r x t u ys zs told') :
    Conveys env r x s u xs zs (told ∨ told') := by
  have hle := h.failures
  have hle' := h'.failures
  refine ⟨h.toLeaves.seq h'.toLeaves, fun hf hs => ?_⟩
  have hft : t.mem.failures = s.mem.failures := by omega
  have hfu : u.mem.failures = t.mem.failures := by omega
  exact (h.carried hft hs).trans (h'.carried hfu (h.gathered hft hs))

theorem Conveys.mono (h : Conveys env r x s t xs ys told') (himp : told → told') :
    Conveys env r x s t xs ys told :=
  ⟨h.toLeaves, fun hf hs => (h.carried hf hs).mono himp⟩

theorem Conveys.frame (h : Conveys env r x s t xs ys told) (f : Multiset β) :
    Conveys env r x s t (xs + f) (ys + f) told :=
  ⟨h.toLeaves.frame f, fun hf hs => h.carried hf ⟨hs.toRrcSound.drop, hs.ready⟩⟩

theorem Conveys.congr {xs' ys' : Multiset β} (h : Conveys env r x s t xs ys told) (hx : xs = xs')
    (hy : ys = ys') : Conveys env r x s t xs' ys' told := hx ▸ hy ▸ h

/-- First a part that tells nothing. -/
theorem Conveys.after_quiet (h : Conveys env r x s t xs ys False)
    (h' : Conveys env r x t u ys zs told) : Conveys env r x s u xs zs told := (h.seq h').mono .inr

/-- Last a part that tells nothing. -/
theorem Conveys.then_quiet (h : Conveys env r x s t xs ys told)
    (h' : Conveys env r x t u ys zs False) : Conveys env r x s u xs zs told := (h.seq h').mono .inl

/-- The contexts of RRC and their lists are the same. -/
structure SameRrc (s t : RlcState β) : Prop where
  rrcUeContext : t.rrcUeContext = s.rrcUeContext
  gRrcUeContextList : t.gRrcUeContextList = s.gRrcUeContextList
  gReadyRrcUeContextList : t.gReadyRrcUeContextList = s.gReadyRrcUeContextList
  log : s.rlcUeDataInds ⊆ t.rlcUeDataInds

theorem SameRrc.tally (h : SameRrc s t) (r : UInt16) (x : Collected) :
    Worker.tally r x t.toRrcState = Worker.tally r x s.toRrcState := by
  unfold Worker.tally
  rw [h.gRrcUeContextList, h.gReadyRrcUeContextList, h.rrcUeContext]

theorem SameRrc.carried (h : SameRrc s t) (hs : Gathered s.toRrcState xs) :
    Carried env r x s t False := by
  refine ⟨?_, (h.tally r x).ge, False.elim, h.log, ?_⟩
  · rw [h.gReadyRrcUeContextList, h.rrcUeContext]
    exact hs.ready
  · rw [h.tally]
    exact Or.inl

theorem Conveys.quiet (hl : Leaves s t xs ys) (h : SameRrc s t) :
    Conveys env r x s t xs ys False := ⟨hl, fun _ hs => h.carried hs⟩

theorem Conveys.refl (env : Platform β) (r : UInt16) (x : Collected) (s : RlcState β)
    (xs : Multiset β) :
    Conveys env r x s s xs xs False := .quiet (.refl s xs) ⟨rfl, rfl, rfl, fun _ h => h⟩

theorem OnlyMem.sameRrc (h : OnlyMem s t) : SameRrc s t := by
  rw [h]
  exact ⟨rfl, rfl, rfl, fun _ h => h⟩

theorem MemWorks.conveys (env : Platform β) (h : MemWorks s t xs ys) (e : β) :
    Conveys env r x s t xs ys False :=
  .quiet (h.works e).leaves (OnlyMem.sameRrc h.only)

theorem free_conveys (env : Platform β) (s : RlcState β) (b : β) :
    Conveys env r x s (s.free b) {b} 0 False :=
  MemWorks.conveys env (free_memWorks s b) b

theorem free?_conveys (env : Platform β) (s : RlcState β) (e : β) (o : Option β) :
    Conveys env r x s (s.free? o) (blockOf o) 0 False := MemWorks.conveys env (free?_memWorks s o) e

theorem setRaw_conveys (s : RlcState β) (e : β) (raw : RlcAmRawSdu β) :
    Conveys env r x s (s.setRaw e raw) xs xs False :=
  .quiet (setRaw_works s e raw xs).leaves ⟨rfl, rfl, rfl, fun _ h => h⟩

theorem setRpt_conveys (s : RlcState β) (e : β) (rpt : UlReportInfoList) :
    Conveys env r x s (s.setRpt e rpt) xs xs False :=
  .quiet (setRpt_works s e rpt xs).leaves ⟨rfl, rfl, rfl, fun _ h => h⟩

theorem clearReports_conveys (s : RlcState β) (e : β) :
    Conveys env r x s (clearReports s e) xs xs False := setRpt_conveys s e _

theorem setRing_conveys (s : RlcState β) (e : β) (k : Nat) (node : RingNode β) :
    Conveys env r x s (s.setRing e k node) xs xs False :=
  .quiet (setRing_leaves s e k node xs) ⟨rfl, rfl, rfl, fun _ h => h⟩

/-! ## Delivery -/

/-- What is announced is in the list of what the SDU tells. -/
theorem Announced.mem {buffer : RlcAmBuffer β} (h : Announced env s e buffer r x)
    (hb : buffer.pData = some b) :
    x ∈ sduTold env s.toRrcState (s.rxAmEntity e).lcId b buffer.size.toUInt16 := by
  have hlen := bytes_length (m := s.mem) h.isSome
  have hsize : buffer.size.toUInt16 = UInt16.ofNat (buffer.bytes s.mem).length := by
    apply UInt16.toNat.inj
    rw [toUInt16_of_lt h.size, hlen, UInt16.toNat_ofNat', Nat.mod_eq_of_lt h.size]
  rw [hsize]
  apply h.tells
  · rw [hlen]
    exact h.fits b hb
  · intro k hk
    have hbytes : buffer.bytes s.mem = (List.range buffer.size.toNat).map (s.mem.bytes b) := by
      unfold RlcAmBuffer.bytes RlcAmBuffer.data
      rw [hb, Option.elim_some]
    simp only [hbytes, List.getElem_map, List.getElem_range]

/-- **An SDU is delivered.** -/
theorem rlcDeliverAmSduToPdcp_conveys (env : Platform β) (r : UInt16) (x : Collected)
    (s : RlcState β) (e : β) (buffer : RlcAmBuffer β) :
    Conveys env r x s (rlcDeliverAmSduToPdcp env s e buffer) (blockOf buffer.pData) 0
      (Announced env s e buffer r x) := by
  have hwork := (rlcDeliverAmSduToPdcp_works env s e buffer).leaves
  refine ⟨hwork, fun hf hs => ?_⟩
  cases hb : buffer.pData with
  | none =>
      have hsame : SameRrc s (rlcDeliverAmSduToPdcp env s e buffer) := by
        unfold rlcDeliverAmSduToPdcp
        rw [hb]
        exact ⟨rfl, rfl, rfl, List.subset_append_left _ _⟩
      refine (hsame.carried hs).mono fun h => ?_
      have hsome := h.isSome
      rw [hb] at hsome
      cases hsome
  | some b =>
      have hg : Gathers s.toRrcState (rlcDeliverAmSduToPdcp env s e buffer).toRrcState
          (0 + {b}) 0 (forUe (s.rxAmEntity e).rnti
            (sduTold env s.toRrcState (s.rxAmEntity e).lcId b buffer.size.toUInt16)) := by
        unfold rlcDeliverAmSduToPdcp
        rw [hb]
        exact rlcUeDataInd_gathers s.toRrcState _ _ b _ _
      rw [hb, blockOf_some, ← zero_add ({b} : Multiset β)] at hs
      obtain ⟨ht, htally, htold⟩ := hg.after hf hs
      have hlog : (rlcDeliverAmSduToPdcp env s e buffer).rlcUeDataInds
          = s.rlcUeDataInds ++ [⟨(s.rxAmEntity e).rnti, (s.rxAmEntity e).lcId, buffer.pData,
            buffer.size.toUInt16, buffer.data s.mem buffer.size.toUInt16.toNat,
            (s.rxAmEntity e).ulRptInfoList.entries⟩] := rfl
      refine ⟨ht.ready, htally r x, fun h => ?_, ?_, fun h => ?_⟩
      · exact (htold r x).mpr (Or.inr (List.mem_map.mpr ⟨x, h.mem hb, by rw [h.rnti]⟩))
      · rw [hlog]
        exact List.subset_append_left _ _
      · refine ((htold r x).mp h).imp id fun hmem => ?_
        obtain ⟨y, hy, hpair⟩ := List.mem_map.mp hmem
        obtain ⟨hr, rfl⟩ := Prod.mk.inj hpair
        rw [hlog]
        refine ⟨_, List.mem_append_right _ (List.mem_singleton_self _), hr, s.toRrcState, b, ?_, ?_⟩
        · intro k hk
          simp [RlcAmBuffer.data, hb]
        · rw [RlcAmBuffer.data, hb, Option.elim_some, List.length_map, List.length_range,
            UInt16.ofNat_toNat]
          exact hy

/-- Reports do not matter for what is announced. -/
theorem Announced.setRpt {buffer : RlcAmBuffer β} (h : Announced env s e buffer r x)
    (rpt : UlReportInfoList) : Announced env (s.setRpt e rpt) e buffer r x := by
  have hx : ∀ y : RxAmEntity β, (s.setRpt e rpt).rxAmEntity e = y →
      y.rnti = (s.rxAmEntity e).rnti ∧ y.lcId = (s.rxAmEntity e).lcId := by
    rintro y rfl
    simp [RlcState.setRpt, RlcState.setEntity]
  obtain ⟨h1, h2⟩ := hx _ rfl
  refine ⟨h1.trans h.rnti, h.size, h.fits, h.isSome, ?_⟩
  rw [h2]
  exact h.tells

/-- Nor does what the incomplete SDU is set to. -/
theorem Announced.setRaw {buffer : RlcAmBuffer β} (h : Announced env s e buffer r x)
    (raw : RlcAmRawSdu β) : Announced env (s.setRaw e raw) e buffer r x := by
  have hx : ∀ y : RxAmEntity β, (s.setRaw e raw).rxAmEntity e = y →
      y.rnti = (s.rxAmEntity e).rnti ∧ y.lcId = (s.rxAmEntity e).lcId := by
    rintro y rfl
    simp [RlcState.setRaw, RlcState.setEntity]
  obtain ⟨h1, h2⟩ := hx _ rfl
  refine ⟨h1.trans h.rnti, h.size, h.fits, h.isSome, ?_⟩
  rw [h2]
  exact h.tells

/-- A whole SDU is delivered, with the reports set before and cleared after. -/
theorem deliver_conveys (env : Platform β) (r : UInt16) (x : Collected) (s : RlcState β)
    (e : β) (buffer : RlcAmBuffer β) :
    Conveys env r x s (clearReports (rlcDeliverAmSduToPdcp env (reportFirst s e) e buffer) e)
      (blockOf buffer.pData) 0 (Announced env s e buffer r x) := by
  obtain ⟨rpt, hrpt⟩ := reportFirst_eq s e
  rw [hrpt]
  have hdeliver := (setRpt_conveys s e rpt).after_quiet
    (rlcDeliverAmSduToPdcp_conveys env r x (s.setRpt e rpt) e buffer)
  exact (hdeliver.then_quiet (clearReports_conveys _ e)).mono fun h => h.setRpt rpt

/-! ## Fields -/

/-- The field completes an SDU that tells the identity: it is a whole SDU, or the end of the
incomplete one. -/
def FieldTells (env : Platform β) (sn : Nat) (e : β) (s : RlcState β) (dfe : AmdDfe β)
    (r : UInt16) (x : Collected) : Prop :=
  (dfe.status = amPduMapSduFull ∧ Announced env s e dfe.buffer r x) ∨
  (dfe.status = amPduMapSduEnd ∧ continues sn amPduMapSduEnd (s.rxAmEntity e).rxRawSdu.sn = true ∧
    ∃ t buffer, joinRaw env s (s.rxAmEntity e).rxRawSdu dfe = (t, some buffer) ∧
      Announced env t e buffer r x)

theorem rlcReassembleFirstSduSegment_conveys (env : Platform β) (r : UInt16) (x : Collected)
    (s : RlcState β) (sn : Nat) (dfe : AmdDfe β)
    (hraw : (s.rxAmEntity e).rxRawSdu.rawSdu.pData = none) :
    Conveys env r x s (rlcReassembleFirstSduSegment env s sn e dfe) (blockOf dfe.buffer.pData)
      (rawBlock (rlcReassembleFirstSduSegment env s sn e dfe) e)
      (dfe.status = amPduMapSduFull ∧ Announced env s e dfe.buffer r x) := by
  have hleaves := (rlcReassembleFirstSduSegment_works env s sn dfe hraw).leaves
  refine ⟨hleaves, fun hf hs => ?_⟩
  revert hf hleaves
  unfold rlcReassembleFirstSduSegment
  cases dfe.status with
  | amPduMapSduFull =>
      intro _ hf
      exact ((deliver_conveys env r x s e dfe.buffer).carried hf hs).mono And.right
  | amPduMapSduStart =>
      intro _ hf
      obtain ⟨rpt, hrpt⟩ := reportFirst_eq (s.setRaw e ⟨sn, dfe.buffer⟩) e
      have hsame : SameRrc s (reportFirst (s.setRaw e ⟨sn, dfe.buffer⟩) e) := by
        rw [hrpt]
        exact ⟨rfl, rfl, rfl, fun _ h => h⟩
      exact (hsame.carried hs).mono fun h => absurd h.1 (by decide)
  | amPduMapSduEnd =>
      intro _ hf
      exact ((free?_conveys env s e dfe.buffer.pData).carried hf hs).mono
        fun h => absurd h.1 (by decide)
  | amPduMapSduMid =>
      intro _ hf
      exact ((free?_conveys env s e dfe.buffer.pData).carried hf hs).mono
        fun h => absurd h.1 (by decide)

/-- The incomplete SDU is dropped; what is announced in another block still is. -/
theorem Announced.dropRaw {buffer : RlcAmBuffer β} (h : Announced env s e buffer r x)
    {sn : Nat} (hne : ∀ c, (s.rxAmEntity e).rxRawSdu.rawSdu.pData = some c →
      buffer.pData ≠ some c) :
    Announced env ((s.free? (s.rxAmEntity e).rxRawSdu.rawSdu.pData).setRaw e
      ⟨sn, ⟨0, none⟩⟩) e buffer r x := by
  apply Announced.setRaw
  refine ⟨h.rnti, h.size, fun b hb => ?_, h.isSome, ?_⟩
  · show _ ≤ (s.mem.release? (s.rxAmEntity e).rxRawSdu.rawSdu.pData).length b
    rw [release?_length fun hc => hne b hc hb]
    exact h.fits b hb
  · have hbytes : buffer.bytes (s.mem.release? (s.rxAmEntity e).rxRawSdu.rawSdu.pData)
        = buffer.bytes s.mem := bytes_congr fun _ _ => by rw [release?_bytes]
    show Tells env (s.rxAmEntity e).lcId
      (buffer.bytes (s.mem.release? (s.rxAmEntity e).rxRawSdu.rawSdu.pData)) x
    rw [hbytes]
    exact h.tells

/-- Two fragments are joined. -/
theorem joinRaw_conveys {raw : RlcAmRawSdu β} {dfe : AmdDfe β} {buffer : RlcAmBuffer β}
    (ha : raw.rawSdu.pData = some a) (hb : dfe.buffer.pData = some b)
    (hj : joinRaw env s raw dfe = (t, some buffer)) :
    Conveys env r x s t ({a} + {b}) (blockOf buffer.pData) False := by
  obtain ⟨a', b', c, ha', hb', -, ht, -, hw⟩ := joinRaw_some hj b
  rw [ha, Option.some.injEq] at ha'
  rw [hb, Option.some.injEq] at hb'
  rw [ha', hb']
  refine .quiet hw.leaves ?_
  rw [ht]
  exact ⟨rfl, rfl, rfl, fun _ h => h⟩

/-- With the joined fragments the SDU is still incomplete. -/
theorem joinRaw_grown_conveys {raw : RlcAmRawSdu β} {dfe : AmdDfe β} {buffer : RlcAmBuffer β}
    (ha : raw.rawSdu.pData = some a) (hb : dfe.buffer.pData = some b)
    (hj : joinRaw env s raw dfe = (t, some buffer)) (e : β) (sn : Nat) :
    Conveys env r x s (reportNext (t.setRaw e ⟨sn, buffer⟩) e) ({a} + {b})
      (blockOf buffer.pData) False := by
  obtain ⟨rpt, hrpt⟩ := reportNext_eq (t.setRaw e ⟨sn, buffer⟩) e
  rw [hrpt]
  exact ((joinRaw_conveys ha hb hj).then_quiet (setRaw_conveys t e ⟨sn, buffer⟩)).then_quiet
    (setRpt_conveys _ e rpt)

/-- With the joined fragments the SDU is complete, and delivered. -/
theorem joinRaw_deliver_conveys {raw : RlcAmRawSdu β} {dfe : AmdDfe β} {buffer : RlcAmBuffer β}
    (ha : raw.rawSdu.pData = some a) (hb : dfe.buffer.pData = some b)
    (hj : joinRaw env s raw dfe = (t, some buffer)) (e : β) (sn : Nat) :
    Conveys env r x s ((clearReports (rlcDeliverAmSduToPdcp env
        (reportNext (t.setRaw e ⟨sn, buffer⟩) e) e buffer) e).setRaw e ⟨sn, ⟨0, none⟩⟩)
      ({a} + {b}) 0 (Announced env t e buffer r x) := by
  have hgrown := joinRaw_grown_conveys ha hb hj e sn (r := r) (x := x)
  have hdeliver := hgrown.after_quiet (rlcDeliverAmSduToPdcp_conveys env r x _ e buffer)
  refine ((hdeliver.then_quiet (clearReports_conveys _ e)).then_quiet
    (setRaw_conveys _ e ⟨sn, ⟨0, none⟩⟩)).mono fun h => ?_
  obtain ⟨rpt, hrpt⟩ := reportNext_eq (t.setRaw e ⟨sn, buffer⟩) e
  rw [hrpt]
  exact (h.setRaw _).setRpt rpt

/-- The incomplete SDU is dropped, and another buffer is put in its place. -/
theorem dropRaw_conveys (env : Platform β) (r : UInt16) (x : Collected) (s : RlcState β) (e : β)
    (raw : RlcAmRawSdu β) (f : Multiset β) :
    Conveys env r x s ((s.free? (s.rxAmEntity e).rxRawSdu.rawSdu.pData).setRaw e raw)
      (rawBlock s e + f) f False := by
  have hfree := (free?_conveys env s e (s.rxAmEntity e).rxRawSdu.rawSdu.pData).frame f
    (r := r) (x := x)
  rw [zero_add] at hfree
  exact hfree.then_quiet (setRaw_conveys _ e raw)

/-- The incomplete SDU is in another block than the buffer. -/
theorem rawSdu_apart {buffer : RlcAmBuffer β}
    (hs : Gathered s.toRrcState (rawBlock s e + blockOf buffer.pData)) :
    ∀ c, (s.rxAmEntity e).rxRawSdu.rawSdu.pData = some c → buffer.pData ≠ some c := by
  intro c hc hbc
  have hn := Multiset.nodup_of_le (inHand_le hs.toRrcSound) hs.nodup
  unfold rawBlock at hn
  rw [hc, hbc, blockOf_some] at hn
  have hapart := (Multiset.nodup_add.mp hn).2.2
  exact absurd (Multiset.disjoint_left.mp hapart (Multiset.mem_singleton_self c)) (by simp)

/-- Only a whole SDU or an end tells something. -/
theorem FieldTells.status {sn : Nat} {dfe : AmdDfe β} (h : FieldTells env sn e s dfe r x) :
    dfe.status = amPduMapSduFull ∨ dfe.status = amPduMapSduEnd := h.imp And.left And.left

/-- **A field that follows an incomplete SDU.** -/
theorem rlcReassembleInCmpAmSdu_conveys (env : Platform β) (r : UInt16) (x : Collected)
    (s : RlcState β) (sn : Nat) {dfe : AmdDfe β}
    (hraw : (s.rxAmEntity e).rxRawSdu.rawSdu.pData = some a)
    (hb : dfe.buffer.pData = some b) :
    Conveys env r x s (rlcReassembleInCmpAmSdu env s sn e dfe) (rawBlock s e + {b})
      (rawBlock (rlcReassembleInCmpAmSdu env s sn e dfe) e) (FieldTells env sn e s dfe r x) := by
  refine ⟨(rlcReassembleInCmpAmSdu_works s sn hraw hb).leaves, fun hf hs => ?_⟩
  have hblock : rawBlock s e = {a} := by
    unfold rawBlock
    rw [hraw, blockOf_some]
  have hfield : blockOf dfe.buffer.pData = {b} := by rw [hb, blockOf_some]
  have hne := rawSdu_apart (hfield ▸ hs)
  -- the element is dropped
  have hskip : Conveys env r x s (s.free? dfe.buffer.pData) (rawBlock s e + {b}) (rawBlock s e)
      False := by
    have h := (free?_conveys env s e dfe.buffer.pData).frame (rawBlock s e) (r := r) (x := x)
    rwa [hfield, zero_add, add_comm] at h
  have hnot : ∀ {st : RlcSduStatus}, st ≠ amPduMapSduFull → st ≠ amPduMapSduEnd →
      dfe.status = st → ¬FieldTells env sn e s dfe r x := by
    rintro st h1 h2 rfl h
    exact h.status.elim h1 h2
  revert hf
  unfold rlcReassembleInCmpAmSdu
  simp only
  -- the source splits on the sequence number first, and then on the status
  split
  · rename_i hseq
    cases hst : dfe.status with
    | amPduMapSduFull =>
        intro hf
        have hdrop := dropRaw_conveys env r x s e ⟨(s.rxAmEntity e).rxRawSdu.sn, ⟨0, none⟩⟩ {b}
        have hdeliver := deliver_conveys env r x
          ((s.free? (s.rxAmEntity e).rxRawSdu.rawSdu.pData).setRaw e
            ⟨(s.rxAmEntity e).rxRawSdu.sn, ⟨0, none⟩⟩) e dfe.buffer
        rw [hfield] at hdeliver
        refine ((hdrop.after_quiet hdeliver).carried hf hs).mono fun h => ?_
        rcases h with h | h
        · exact h.2.dropRaw hne
        · rw [hst] at h
          exact absurd h.1 (by decide)
    | amPduMapSduStart =>
        intro hf
        exact ((dropRaw_conveys env r x s e _ {b}).carried hf hs).mono
          (hnot (by decide) (by decide) hst)
    | amPduMapSduEnd =>
        simp only
        cases hj : joinRaw env s (s.rxAmEntity e).rxRawSdu dfe with
        | mk t o =>
            cases o with
            | none =>
                -- the fragments are not joined only where an allocation is refused
                intro hf
                exact absurd hf (joinRaw_none hraw hb hj e).2.1.ne'
            | some buffer =>
                intro hf
                have hdeliver := joinRaw_deliver_conveys hraw hb hj e
                  (s.rxAmEntity e).rxRawSdu.sn (r := r) (x := x)
                rw [← hblock] at hdeliver
                refine (hdeliver.carried hf hs).mono fun h => ?_
                rcases h with h | ⟨-, -, u, buffer', hj', hann⟩
                · rw [hst] at h
                  exact absurd h.1 (by decide)
                · rw [hj] at hj'
                  obtain ⟨rfl, hbuf⟩ := Prod.mk.inj hj'
                  obtain rfl := Option.some.inj hbuf
                  exact hann
    | amPduMapSduMid =>
        have hmid := hnot (by decide) (by decide) hst
        simp only
        split
        · cases hj : joinRaw env s (s.rxAmEntity e).rxRawSdu dfe with
          | mk t o =>
              cases o with
              | none =>
                  intro hf
                  exact absurd hf (joinRaw_none hraw hb hj e).2.1.ne'
              | some buffer =>
                  intro hf
                  have hgrown := joinRaw_grown_conveys hraw hb hj e sn (r := r) (x := x)
                  rw [← hblock] at hgrown
                  exact (hgrown.carried hf hs).mono hmid
        · intro hf
          exact (hskip.carried hf hs).mono hmid
  · rename_i hseq
    -- an end that is out of sequence completes nothing
    have hend : FieldTells env sn e s dfe r x → dfe.status = amPduMapSduFull ∧
        Announced env s e dfe.buffer r x := by
      rintro (h | ⟨-, hcont, -⟩)
      · exact h
      · exact absurd hcont hseq
    split
    · intro hf
      have hdrop := dropRaw_conveys env r x s e ⟨(s.rxAmEntity e).rxRawSdu.sn, ⟨0, none⟩⟩ {b}
      have hnone : (((s.free? (s.rxAmEntity e).rxRawSdu.rawSdu.pData).setRaw e
          ⟨(s.rxAmEntity e).rxRawSdu.sn, ⟨0, none⟩⟩).rxAmEntity e).rxRawSdu.rawSdu.pData
          = none := by
        rw [rxRawSdu_setRaw]
      have hfirst := rlcReassembleFirstSduSegment_conveys env r x _ sn dfe hnone
      rw [hfield] at hfirst
      refine ((hdrop.after_quiet hfirst).carried hf hs).mono fun h => ?_
      exact ⟨(hend h).1, (hend h).2.dropRaw hne⟩
    · rename_i hst
      intro hf
      refine (hskip.carried hf hs).mono fun h => ?_
      exact hst (Or.inl (hend h).1)

/-- **One field.** -/
theorem rlcReassembleAmdDfe_conveys (env : Platform β) (r : UInt16) (x : Collected) (sn : Nat)
    (e : β) (s : RlcState β) (dfe : AmdDfe β) :
    Conveys env r x s (rlcReassembleAmdDfe env sn e s dfe) (rawBlock s e + dfe.blocks)
      (rawBlock (rlcReassembleAmdDfe env sn e s dfe) e) (FieldTells env sn e s dfe r x) := by
  refine ⟨(rlcReassembleAmdDfe_works env sn e s dfe).leaves, fun hf hs => ?_⟩
  -- the element itself is released last
  have hlast : ∀ {t : RlcState β} {ys : Multiset β},
      Conveys env r x s t (rawBlock s e + blockOf dfe.buffer.pData) ys
        (FieldTells env sn e s dfe r x) →
      (t.free dfe.addr).mem.failures = s.mem.failures →
        Carried env r x s (t.free dfe.addr) (FieldTells env sn e s dfe r x) := by
    intro t ys h hft
    have hblocks : rawBlock s e + blockOf dfe.buffer.pData + {dfe.addr}
        = rawBlock s e + dfe.blocks := by
      rw [AmdDfe.blocks]
      ac_rfl
    have h1 := (h.frame {dfe.addr}).congr hblocks (add_comm _ _)
    have h2 := h1.then_quiet ((free_conveys env t dfe.addr).frame ys)
    exact h2.carried hft hs
  revert hf
  unfold rlcReassembleAmdDfe
  cases hb : dfe.buffer.pData with
  | none =>
      rw [if_neg (by simp)]
      refine hlast (((Conveys.refl env r x s _)).mono ?_)
      rintro (h | ⟨-, -, t, buffer, hj, -⟩)
      · have hsome := h.2.isSome
        rw [hb] at hsome
        cases hsome
      · obtain ⟨-, c, -, -, hc, -⟩ := joinRaw_some hj e
        rw [hb] at hc
        cases hc
  | some b =>
      rw [if_pos (by simp)]
      cases hraw : (s.rxAmEntity e).rxRawSdu.rawSdu.pData with
      | none =>
          rw [if_neg (by simp)]
          have hfirst := rlcReassembleFirstSduSegment_conveys env r x s sn dfe hraw
          refine hlast ((hfirst.congr ?_ rfl).mono ?_)
          · unfold rawBlock
            rw [hraw, blockOf_none, zero_add]
          · rintro (h | ⟨-, -, t, buffer, hj, -⟩)
            · exact h
            · obtain ⟨c, -, -, hc, -⟩ := joinRaw_some hj e
              rw [hraw] at hc
              cases hc
      | some a =>
          rw [if_pos (by simp)]
          have hnext := rlcReassembleInCmpAmSdu_conveys env r x s sn hraw hb
          rw [← blockOf_some b, ← hb] at hnext
          exact hlast hnext

/-! ## PDUs -/

/-- One of the fields tells the identity when its turn comes. -/
def QueueTells (env : Platform β) (sn : Nat) (e : β) (r : UInt16) (x : Collected) :
    RlcState β → List (AmdDfe β) → Prop
  | _, [] => False
  | s, dfe :: q =>
      FieldTells env sn e s dfe r x ∨
        QueueTells env sn e r x (rlcReassembleAmdDfe env sn e s dfe) q

/-- The same for the segments of a PDU. -/
def SegmentsTell (env : Platform β) (sn : Nat) (e : β) (r : UInt16) (x : Collected) :
    RlcState β → List (AmdPduSegment β) → Prop
  | _, [] => False
  | s, seg :: l =>
      QueueTells env sn e r x s seg.dfeQ ∨
        SegmentsTell env sn e r x ((rlcReassembleAmdDfeQ env s sn e seg).free seg.addr) l

/-- The PDU, put into the ring of the entity, tells the identity. -/
def PduTells (env : Platform β) (s : RlcState β) (e : β) (h : AmdHeader) (info : RlcUlDataInfo β)
    (r : UInt16) (x : Collected) : Prop :=
  ∃ t pdu, rlcNewAmdPdu env s h info = (t, some pdu) ∧
    SegmentsTell env h.sn e r x (t.setRing e (h.sn &&& 511) ⟨.ready, some pdu⟩) pdu.segList

/-- A packet of the UE with the RNTI tells the identity. -/
def PacketTells (env : Platform β) (s : RlcState β) (info : RlcUlDataInfo β) (rnti : UInt16)
    (r : UInt16) (x : Collected) : Prop :=
  ∃ t e h, rlcFindEntity env s info rnti = (t, some (e, h)) ∧ PduTells env t e h info r x

theorem rlcReassembleAmdDfeQ_conveys (env : Platform β) (r : UInt16) (x : Collected) (sn : Nat)
    (e : β) (q : List (AmdDfe β)) (s : RlcState β) :
    Conveys env r x s (q.foldl (rlcReassembleAmdDfe env sn e) s) (rawBlock s e + queueBlocks q)
      (rawBlock (q.foldl (rlcReassembleAmdDfe env sn e) s) e) (QueueTells env sn e r x s q) := by
  induction q generalizing s with
  | nil => exact (Conveys.refl env r x s (rawBlock s e)).congr (add_zero _).symm rfl
  | cons dfe q ih =>
      have h1 := (rlcReassembleAmdDfe_conveys env r x sn e s dfe).frame (queueBlocks q)
      have h2 := ih (rlcReassembleAmdDfe env sn e s dfe)
      rw [queueBlocks_cons, ← add_assoc, List.foldl_cons]
      exact h1.seq h2

theorem segments_conveys (env : Platform β) (r : UInt16) (x : Collected) (sn : Nat) (e : β)
    (l : List (AmdPduSegment β)) (s : RlcState β) :
    let t := l.foldl (fun s seg => (rlcReassembleAmdDfeQ env s sn e seg).free seg.addr) s
    Conveys env r x s t (rawBlock s e + segBlocks l) (rawBlock t e)
      (SegmentsTell env sn e r x s l) := by
  induction l generalizing s with
  | nil => exact (Conveys.refl env r x s (rawBlock s e)).congr (add_zero _).symm rfl
  | cons seg l ih =>
      intro t
      have h1 := (rlcReassembleAmdDfeQ_conveys env r x sn e seg.dfeQ s).frame
        ({seg.addr} : Multiset β)
      have h2 := (h1.congr rfl (add_comm _ _)).then_quiet ((free_conveys env _ seg.addr).frame _)
      rw [zero_add] at h2
      have h3 := (h2.frame (segBlocks l)).seq (ih _)
      refine h3.congr ?_ rfl
      rw [segBlocks_cons, AmdPduSegment.blocks]
      ac_rfl

/-- **A PDU for an empty slot of the ring.** -/
theorem rlcProcessNewAmdPdu_conveys (env : Platform β) (r : UInt16) (x : Collected)
    {h : AmdHeader} (info : RlcUlDataInfo β)
    (hring : (s.rxAmEntity e).amdPduRing (h.sn &&& 511) = ⟨.free, none⟩) :
    Conveys env r x s (rlcProcessNewAmdPdu env s e h info)
      (rawBlock s e + blockOf info.rlcdataBuffer)
      (rawBlock (rlcProcessNewAmdPdu env s e h info) e) (PduTells env s e h info r x) := by
  refine ⟨(rlcProcessNewAmdPdu_uses env h info hring).leaves, fun hf hs => ?_⟩
  revert hf
  rw [rlcProcessNewAmdPdu_eq env h info (by rw [hring])]
  cases hn : rlcNewAmdPdu env s h info with
  | mk t o =>
      obtain ⟨hw, hst⟩ := rlcNewAmdPdu_memWorks hn
      have hmem := hw.only
      have hnew := (MemWorks.conveys env hw e (r := r) (x := x)).frame (rawBlock s e)
      have hxs := hnew.congr (add_comm _ _) rfl
      cases o with
      | none =>
          intro hf
          refine (hxs.carried hf hs).mono ?_
          rintro ⟨u, pdu, hu, -⟩
          rw [hn] at hu
          cases hu
      | some pdu =>
          intro hf
          simp only at hf ⊢
          have hnode : ((t.setRing e (h.sn &&& 511) ⟨.inUse, some pdu⟩).rxAmEntity e).amdPduRing
              (h.sn &&& 511) = ⟨.inUse, some pdu⟩ := by
            simp [RlcState.setRing, RlcState.setEntity]
          rw [rlcReassembleRlcSdu_eq hnode (hst pdu rfl), setRing_setRing] at hf ⊢
          have hblocks : pdu.blocks + rawBlock s e
              = rawBlock (t.setRing e (h.sn &&& 511) ⟨.ready, some pdu⟩) e
                + segBlocks pdu.segList + {pdu.addr} := by
            rw [rawBlock_setRing, hmem.rawBlock e, AmdPdu.blocks]
            ac_rfl
          have h1 := hxs.then_quiet (setRing_conveys t e (h.sn &&& 511) ⟨.ready, some pdu⟩)
          rw [Option.elim_some, hblocks] at h1
          have h2 := h1.after_quiet ((segments_conveys env r x h.sn e pdu.segList
            (t.setRing e (h.sn &&& 511) ⟨.ready, some pdu⟩)).frame {pdu.addr})
          have h3 := (h2.congr rfl (add_comm _ _)).then_quiet
            ((free_conveys env _ pdu.addr).frame _)
          have h4 := h3.then_quiet (setRing_conveys _ e (h.sn &&& 511) ⟨.free, none⟩)
          refine (h4.carried hf hs).mono ?_
          rintro ⟨u, pdu', hu, htells⟩
          rw [hn] at hu
          obtain ⟨rfl, hpdu⟩ := Prod.mk.inj hu
          obtain rfl := Option.some.inj hpdu
          exact htells

end Rules

/-! ## Packets -/

/-- A step of the reception, from a sound state, and what it does to an identity. -/
structure Collects (env : Platform β) (r : UInt16) (x : Collected) (s t : RlcState β)
    (xs ys : Multiset β) (told : Prop) : Prop extends Receives s t xs ys where
  carried : t.mem.failures = s.mem.failures → ∀ f, RlcSound s →
    Gathered s.toRrcState (s.rlcOwned + (xs + f)) →
      Carried env r x s t told

section Packets

variable {env : Platform β} {r : UInt16} {x : Collected} {s t u : RlcState β}
variable {xs ys zs f : Multiset β} {told told' : Prop} {e a b : β} {rnti : UInt16}

/-- The state after a step that refuses nothing. -/
theorem Collects.gathered (h : Collects env r x s t xs ys told)
    (hf : t.mem.failures = s.mem.failures) (hs : RlcSound s)
    (hg : Gathered s.toRrcState (s.rlcOwned + (xs + f))) :
    RlcSound t ∧ Gathered t.toRrcState (t.rlcOwned + (ys + f)) := by
  obtain ⟨h1, h2⟩ := h.sound rfl (h.joined hf) hs hg.toRrcSound
  exact ⟨h1, h2, (h.carried hf f hs hg).ready⟩

theorem Collects.seq (h : Collects env r x s t xs ys told) (h' : Collects env r x t u ys zs told') :
    Collects env r x s u xs zs (told ∨ told') := by
  have hle := h.failures
  have hle' := h'.failures
  refine ⟨h.toReceives.seq h'.toReceives, fun hf f hs hg => ?_⟩
  have hft : t.mem.failures = s.mem.failures := by omega
  obtain ⟨ht, hgt⟩ := h.gathered hft hs hg
  exact (h.carried hft f hs hg).trans (h'.carried (by omega) f ht hgt)

theorem Collects.mono (h : Collects env r x s t xs ys told') (himp : told → told') :
    Collects env r x s t xs ys told :=
  ⟨h.toReceives, fun hf f hs hg => (h.carried hf f hs hg).mono himp⟩

theorem Collects.frame (h : Collects env r x s t xs ys told) (f : Multiset β) :
    Collects env r x s t (xs + f) (ys + f) told := by
  refine ⟨h.toReceives.frame f, fun hf f' hs hg => ?_⟩
  rw [add_assoc xs] at hg
  exact h.carried hf (f + f') hs hg

theorem Collects.congr {xs' ys' : Multiset β} (h : Collects env r x s t xs ys told) (hx : xs = xs')
    (hy : ys = ys') : Collects env r x s t xs' ys' told := hx ▸ hy ▸ h

theorem Collects.after_quiet (h : Collects env r x s t xs ys False)
    (h' : Collects env r x t u ys zs told) : Collects env r x s u xs zs told := (h.seq h').mono .inr

theorem Collects.then_quiet (h : Collects env r x s t xs ys told)
    (h' : Collects env r x t u ys zs False) : Collects env r x s u xs zs told :=
  (h.seq h').mono .inl

theorem Collects.quiet (hr : Receives s t xs ys) (h : SameRrc s t) :
    Collects env r x s t xs ys False := ⟨hr, fun _ _ _ hg => h.carried hg⟩

theorem Collects.refl (env : Platform β) (r : UInt16) (x : Collected) (s : RlcState β)
    (xs : Multiset β) :
    Collects env r x s s xs xs False := .quiet (.refl s xs) ⟨rfl, rfl, rfl, fun _ h => h⟩

theorem free?_collects (s : RlcState β) (o : Option β) :
    Collects env r x s (s.free? o) (blockOf o) 0 False :=
  .quiet (free?_receives s o) ⟨rfl, rfl, rfl, fun _ h => h⟩

theorem Gathered.le {t : RrcState β} (h : Gathered t ys) (hle : xs ≤ ys) : Gathered t xs :=
  ⟨⟨h.nodup, le_trans (add_le_add_right hle _) h.owned, h.live, h.unique⟩, h.ready⟩

theorem SameRrc.trans (h : SameRrc s t) (h' : SameRrc t u) : SameRrc s u :=
  ⟨h'.rrcUeContext.trans h.rrcUeContext, h'.gRrcUeContextList.trans h.gRrcUeContextList,
    h'.gReadyRrcUeContextList.trans h.gReadyRrcUeContextList, List.Subset.trans h.log h'.log⟩

theorem rlcContextFor_sameRrc {o : Option β} (h : rlcContextFor env s rnti = (t, o)) :
    SameRrc s t := by
  unfold rlcContextFor at h
  split at h
  · unfold rlcCreateUeContext at h
    split at h
    · rename_i v halloc
      obtain ⟨rfl, rfl⟩ := Prod.mk.inj h
      exact OnlyMem.sameRrc (alloc_onlyMem halloc)
    · rename_i v b halloc
      obtain ⟨rfl, rfl⟩ := Prod.mk.inj h
      exact (OnlyMem.sameRrc (alloc_onlyMem halloc)).trans ⟨rfl, rfl, rfl, fun _ h => h⟩
  · split at h
    · obtain ⟨rfl, rfl⟩ := Prod.mk.inj h
      exact ⟨rfl, rfl, rfl, fun _ h => h⟩
    · obtain ⟨rfl, rfl⟩ := Prod.mk.inj h
      exact ⟨rfl, rfl, rfl, fun _ h => h⟩

theorem rlcEntityFor_sameRrc {lcId : Nat} {o : Option β}
    (h : rlcEntityFor env s a lcId = (t, o)) : SameRrc s t := by
  unfold rlcEntityFor at h
  split at h
  · obtain ⟨rfl, rfl⟩ := Prod.mk.inj h
    exact ⟨rfl, rfl, rfl, fun _ h => h⟩
  · unfold rlcCreateRxAmEntity at h
    split at h
    · split at h
      · rename_i v halloc
        obtain ⟨rfl, rfl⟩ := Prod.mk.inj h
        exact OnlyMem.sameRrc (alloc_onlyMem halloc)
      · rename_i v e halloc
        obtain ⟨rfl, rfl⟩ := Prod.mk.inj h
        exact (OnlyMem.sameRrc (alloc_onlyMem halloc)).trans ⟨rfl, rfl, rfl, fun _ h => h⟩
    · obtain ⟨rfl, rfl⟩ := Prod.mk.inj h
      exact ⟨rfl, rfl, rfl, fun _ h => h⟩

/-- The lookup of the entity leaves the contexts of RRC alone. -/
theorem rlcFindEntity_collects {info : RlcUlDataInfo β} {o : Option (β × AmdHeader)}
    (h : rlcFindEntity env s info rnti = (t, o)) :
    Collects env r x s t 0 0 False ∧ ∀ e hd, o = some (e, hd) → e ∈ t.entities := by
  unfold rlcFindEntity at h
  split at h
  · obtain ⟨rfl, rfl⟩ := Prod.mk.inj h
    exact ⟨.refl env r x s 0, by simp⟩
  rename_i hlc
  have hlc' : info.lcId < maxLcId := by
    simp only [srb2LcId, maxLcId] at hlc ⊢
    omega
  split at h
  · obtain ⟨rfl, rfl⟩ := Prod.mk.inj h
    exact ⟨.refl env r x s 0, by simp⟩
  split at h
  · obtain ⟨rfl, rfl⟩ := Prod.mk.inj h
    exact ⟨.refl env r x s 0, by simp⟩
  cases hctx : rlcContextFor env s rnti with
  | mk v o =>
      obtain ⟨h1, hmem⟩ := rlcContextFor_receives hctx
      have hsame := rlcContextFor_sameRrc hctx
      rw [hctx] at h
      cases o with
      | none =>
          obtain ⟨rfl, rfl⟩ := Prod.mk.inj h
          exact ⟨.quiet h1 hsame, by simp⟩
      | some a =>
          simp only at h
          cases hent : rlcEntityFor env v a info.lcId with
          | mk w o =>
              obtain ⟨h2, hmem2⟩ := rlcEntityFor_receives (hmem a rfl) hlc' hent
              have hsame2 := hsame.trans (rlcEntityFor_sameRrc hent)
              rw [hent] at h
              cases o with
              | none =>
                  obtain ⟨rfl, rfl⟩ := Prod.mk.inj h
                  exact ⟨.quiet (h1.seq h2) hsame2, by simp⟩
              | some e =>
                  obtain ⟨rfl, rfl⟩ := Prod.mk.inj h
                  refine ⟨.quiet (h1.seq h2) hsame2, fun y hd hy => ?_⟩
                  obtain ⟨rfl, rfl⟩ := Prod.mk.inj (Option.some.inj hy)
                  exact hmem2 _ rfl

/-- The part of a packet that concerns its entity. -/
theorem rlcProcessAmdPdu_collects (env : Platform β) (r : UInt16) (x : Collected)
    (s : RlcState β) (h : AmdHeader) (info : RlcUlDataInfo β) (he : e ∈ s.entities) :
    Collects env r x s (rlcProcessAmdPdu env s e h info) (blockOf info.rlcdataBuffer) 0
      (PduTells env s e h info r x) := by
  refine ⟨rlcEntityPacket_receives env s h info he, fun hf f hs hg => ?_⟩
  have hring := hs.rings e he (h.sn &&& 511)
  unfold rlcProcessAmdPdu at hf ⊢
  rw [if_pos (by rw [hring])] at hf ⊢
  refine (rlcProcessNewAmdPdu_conveys env r x info hring).carried hf (hg.le ?_)
  -- the incomplete SDU of the entity is one of the blocks of the layer
  exact add_le_add (rawBlock_le_rlcOwned he) (Multiset.le_add_right _ _)

/-- **A packet of RLC**: what it tells is collected. -/
theorem rlcProcessAmRxPacket_collects (env : Platform β) (r : UInt16) (x : Collected)
    (s : RlcState β) (info : RlcUlDataInfo β) (rnti : UInt16) :
    Collects env r x s (rlcProcessAmRxPacket env s info rnti) (blockOf info.rlcdataBuffer) 0
      (PacketTells env s info rnti r x) := by
  rw [rlcProcessAmRxPacket_findEntity]
  cases hfind : rlcFindEntity env s info rnti with
  | mk t o =>
      obtain ⟨h1, hmem⟩ := rlcFindEntity_collects (r := r) (x := x) hfind
      have h1' := h1.frame (blockOf info.rlcdataBuffer)
      rw [zero_add] at h1'
      cases o with
      | none =>
          refine (h1'.after_quiet (free?_collects t _)).mono ?_
          rintro ⟨u, e, h, hu, -⟩
          rw [hfind] at hu
          cases hu
      | some p =>
          obtain ⟨e, h⟩ := p
          have h2 := rlcProcessAmdPdu_collects env r x t h info (hmem e h rfl)
          refine (h1'.after_quiet h2).mono ?_
          rintro ⟨u, e', h', hu, htells⟩
          rw [hfind] at hu
          obtain ⟨rfl, hp⟩ := Prod.mk.inj hu
          obtain ⟨rfl, rfl⟩ := Prod.mk.inj (Option.some.inj hp)
          exact htells

end Packets

end LteUlp.Worker
