import LteUlp.Mempool.Model
import LteUlp.Rlc.Cleanup
import LteUlp.Rlc.LengthIndicators
import LteUlp.Rlc.Reassembly
import LteUlp.Rlc.Reports

set_option autoImplicit false
set_option linter.unusedSectionVars false

/-! # The incomplete SDU of an entity

Its size is kept twice: 32 bits wide in the entity, and 16 bits wide in its block. The two
agree, and the block belongs to the entity alone, as long as

* `MemJoin` finds memory for every fragment that continues the SDU. Otherwise it releases
  both blocks, and the entity keeps the pointer.
* no middle fragment makes the SDU longer than 65535 bytes. Otherwise the length in the block
  wraps around.

Only the first field of a PDU can continue an SDU, so both are conditions on the packet and
the state in which its fields are about to be reassembled (`PacketJoins`). All the others are
harmless: a first fragment is never longer than its packet, because the size of a packet
whose header claims more than there is becomes so large that nothing can be allocated for it.
-/

namespace LteUlp.Rlc

open BlockStore LteUlp.Rrc LteUlp.Mac LteUlp.Pdcp RlcSduStatus

variable {β : Type} [DecidableEq β] {env : Platform β}

/-! ## What is to be shown -/

/-- The block of a buffer is as long as the buffer, and has room for it. -/
def RlcAmBuffer.Held {P : Policy β} (room : Capacity P) (m : Store β) (buffer : RlcAmBuffer β) :
    Prop :=
  ∀ b, buffer.pData = some b →
    m.length b = buffer.size.toNat ∧ buffer.size.toNat ≤ room.of b

/-- The incomplete SDU of an entity. -/
def rawBuffer (s : RlcState β) (e : β) : RlcAmBuffer β := (s.rxAmEntity e).rxRawSdu.rawSdu

/-- The blocks in the ring of an entity. -/
def ringBlocks (s : RlcState β) (e : β) : Multiset β :=
  ((List.range ringSize).map fun k =>
    ((s.rxAmEntity e).amdPduRing k).data.elim 0 AmdPdu.blocks).sum

/-- Everything that the structures of the layers refer to. -/
def RlcState.references (s : RlcState β) : Multiset β :=
  s.toRrcState.owned + (s.rlcOwned + s.entities.bind (ringBlocks s))

/-- **The raw SDU invariant.** Besides the structures, the blocks `xs` are referred to by
packets that are still to come. -/
structure RawSduOk (room : Capacity env.toPolicy) (s : RlcState β) (xs : Multiset β) (e p : β) :
    Prop where
  inUse : p ∈ s.mem.inUse
  unshared : (s.references + xs).count p = 1
  length : s.mem.length p = (rawBuffer s e).size.toNat
  capacity : (rawBuffer s e).size.toNat ≤ room.of p

/-- The invariant, of all entities. -/
def RawSdusOk (room : Capacity env.toPolicy) (s : RlcState β) (xs : Multiset β) : Prop :=
  ∀ e ∈ s.entities, ∀ p, (rawBuffer s e).pData = some p → RawSduOk room s xs e p

/-- The field, if it continues the incomplete SDU, can be joined to it, and the lengths add
up. -/
structure FieldJoins (env : Platform β) (s : RlcState β) (e : β) (sn : Nat) (dfe : AmdDfe β) :
    Prop where
  granted : (rawBuffer s e).pData.isSome →
    continues sn dfe.status (s.rxAmEntity e).rxRawSdu.sn = true →
    (joinRaw env s (s.rxAmEntity e).rxRawSdu dfe).2.isSome
  short : dfe.status = amPduMapSduMid → (rawBuffer s e).pData.isSome →
    continues sn amPduMapSduMid (s.rxAmEntity e).rxRawSdu.sn = true →
    (rawBuffer s e).size.toNat + dfe.buffer.size.toNat < 2 ^ 16

/-- The condition on a packet, when its entity has been found. -/
def PacketJoins (env : Platform β) (s : RlcState β) (e : β) (h : AmdHeader)
    (info : RlcUlDataInfo β) : Prop :=
  ∀ d ∈ (pduFields env s h info).head?, FieldJoins env (rlcNewAmdPdu env s h info).1 e h.sn d

/-! ## One field -/

section Field

variable {s t : RlcState β} {e : β} {sn : Nat} {dfe : AmdDfe β}

/-- No join is refused if the field that continues the SDU can be joined. -/
theorem rlcReassembleAmdDfe_refusedJoins (hb : dfe.buffer.pData.isSome)
    (h : (rawBuffer s e).pData.isSome →
      continues sn dfe.status (s.rxAmEntity e).rxRawSdu.sn = true →
      (joinRaw env s (s.rxAmEntity e).rxRawSdu dfe).2.isSome) :
    (rlcReassembleAmdDfe env sn e s dfe).refusedJoins = s.refusedJoins := by
  have hdeliver : ∀ u : RlcState β,
      (clearReports (rlcDeliverAmSduToPdcp env (reportFirst u e) e dfe.buffer) e).refusedJoins
        = u.refusedJoins := by
    intro u
    obtain ⟨rpt, hrpt⟩ := reportFirst_eq u e
    rw [hrpt]
    rfl
  have hfirst : ∀ u : RlcState β,
      (rlcReassembleFirstSduSegment env u sn e dfe).refusedJoins = u.refusedJoins := by
    intro u
    unfold rlcReassembleFirstSduSegment
    cases dfe.status with
    | amPduMapSduFull => exact hdeliver u
    | amPduMapSduStart =>
        obtain ⟨rpt, hrpt⟩ := reportFirst_eq (u.setRaw e ⟨sn, dfe.buffer⟩) e
        simp only
        rw [hrpt]
        rfl
    | amPduMapSduEnd => rfl
    | amPduMapSduMid => rfl
  unfold rlcReassembleAmdDfe
  rw [if_pos hb]
  by_cases hraw : (s.rxAmEntity e).rxRawSdu.rawSdu.pData.isSome = true
  swap
  · rw [if_neg hraw]
    exact hfirst s
  rw [if_pos hraw]
  have hjoin := h hraw
  show (rlcReassembleInCmpAmSdu env s sn e dfe).refusedJoins = _
  unfold rlcReassembleInCmpAmSdu
  simp only
  by_cases hseq : (isSnEqual sn ((s.rxAmEntity e).rxRawSdu.sn + 1)
      || isSnEqual sn (s.rxAmEntity e).rxRawSdu.sn) = true
  · rw [if_pos hseq]
    cases hst : dfe.status with
    | amPduMapSduFull => exact hdeliver _
    | amPduMapSduStart => rfl
    | amPduMapSduEnd =>
        rw [hst] at hjoin
        obtain ⟨u, buffer, hj, -, hu⟩ := joinRaw_isSome (hjoin hseq) e
        obtain ⟨rpt, hrpt⟩ :=
          reportNext_eq (u.setRaw e ⟨(s.rxAmEntity e).rxRawSdu.sn, buffer⟩) e
        simp only [hj]
        rw [hrpt]
        show u.refusedJoins = _
        rw [hu]
        rfl
    | amPduMapSduMid =>
        rw [hst] at hjoin
        cases hsame : isSnEqual sn (s.rxAmEntity e).rxRawSdu.sn with
        | true => rfl
        | false =>
            have hmid : continues sn amPduMapSduMid (s.rxAmEntity e).rxRawSdu.sn = true := by
              rw [hsame, Bool.or_false] at hseq
              rw [continues, hsame, hseq]
              rfl
            obtain ⟨u, buffer, hj, -, hu⟩ := joinRaw_isSome (hjoin hmid) e
            obtain ⟨rpt, hrpt⟩ := reportNext_eq (u.setRaw e ⟨sn, buffer⟩) e
            simp only [if_true, hj]
            rw [hrpt]
            show u.refusedJoins = _
            rw [hu]
            rfl
  · rw [if_neg hseq]
    split
    · exact hfirst _
    · rfl

/-- **What a field does to the incomplete SDU**: its block stays as long as it is. -/
theorem FieldEffect.held (room : Capacity env.toPolicy) (h : FieldEffect env sn e dfe s t)
    (ha : ∀ a b, (rawBuffer s e).pData = some a → dfe.buffer.pData = some b →
      a ∈ s.mem.inUse ∧ b ∈ s.mem.inUse ∧ a ≠ b)
    (hraw : (rawBuffer s e).Held room s.mem)
    (hdfe : dfe.status = amPduMapSduStart ∨ dfe.status = amPduMapSduMid →
      dfe.buffer.Held room s.mem)
    (hshort : dfe.status = amPduMapSduMid → (rawBuffer s e).pData.isSome →
      continues sn amPduMapSduMid (s.rxAmEntity e).rxRawSdu.sn = true →
      (rawBuffer s e).size.toNat + dfe.buffer.size.toNat < 2 ^ 16)
    (hb : dfe.buffer.pData.isSome) : (rawBuffer t e).Held room t.mem := by
  obtain ⟨b, hb⟩ := Option.isSome_iff_exists.mp hb
  intro p hp
  cases h with
  | dropped hst hno hsame hinds hmem =>
      have hsame' : rawBuffer t e = rawBuffer s e := congrArg RlcAmRawSdu.rawSdu hsame
      rw [hsame'] at hp ⊢
      obtain ⟨-, -, hne⟩ := ha p b hp hb
      rw [hmem, release?_length (by rw [hb]; exact fun h => hne (Option.some.inj h).symm)]
      exact hraw p hp
  | delivered hst hnone => rw [rawBuffer, hnone] at hp; cases hp
  | kept hst hnew hinds hmem =>
      have hnew' : rawBuffer t e = dfe.buffer := congrArg RlcAmRawSdu.rawSdu hnew
      rw [hnew'] at hp ⊢
      have hne : (s.rxAmEntity e).rxRawSdu.rawSdu.pData ≠ some p := fun h =>
        (ha p p h hp).2.2 rfl
      rw [hmem, release?_length hne]
      exact hdfe (Or.inl hst) p hp
  | @joined a b' c hst ha' hb' hseq hjoin hnew hinds =>
      have hnew' : rawBuffer t e = ⟨(rawBuffer s e).size + dfe.buffer.size, some c⟩ :=
        congrArg RlcAmRawSdu.rawSdu hnew
      rw [hnew'] at hp ⊢
      obtain rfl := Option.some.inj hp
      obtain ⟨hua, hub, hne⟩ := ha a b' ha' hb'
      obtain ⟨hla, -⟩ := hraw a ha'
      obtain ⟨hlb, -⟩ := hdfe (Or.inr hst) b' hb'
      have hlt := hshort hst (by rw [rawBuffer, ha']; rfl) hseq
      have hadd : ((rawBuffer s e).size + dfe.buffer.size).toNat
          = (rawBuffer s e).size.toNat + dfe.buffer.size.toNat := by
        rw [UInt32.toNat_add]
        apply Nat.mod_eq_of_lt
        omega
      have hroom := join_capacity room hjoin
      obtain ⟨-, hlen⟩ := join_contents hua hub hne hjoin
      rw [hla, hlb] at hlen hroom
      constructor
      · show t.mem.length c = ((rawBuffer s e).size + dfe.buffer.size).toNat
        rw [hlen, hadd, Nat.mod_eq_of_lt hlt]
      · show ((rawBuffer s e).size + dfe.buffer.size).toNat ≤ room.of c
        rw [hadd]
        exact hroom
  | completed hst ha' hb' hseq hjoin hnone => rw [rawBuffer, hnone] at hp; cases hp

/-- The blocks in use are those of the layers above, that of the incomplete SDU, and `xs`. -/
structure InHand (s : RlcState β) (e : β) (xs : Multiset β) : Prop where
  nodup : s.mem.inUse.Nodup
  inUse : s.mem.inUse = s.toRrcState.owned + rawBlock s e + xs

theorem mem_rawBlock {p : β} : p ∈ rawBlock s e ↔ (rawBuffer s e).pData = some p := by
  unfold rawBlock rawBuffer
  cases (s.rxAmEntity e).rxRawSdu.rawSdu.pData with
  | none => simp
  | some a => simp [eq_comm]

/-- The incomplete SDU is not among the blocks in hand. -/
theorem InHand.ne {xs : Multiset β} (h : InHand s e xs) {a b : β} (ha : a ∈ rawBlock s e)
    (hb : b ∈ xs) : a ≠ b := by
  have hn := h.nodup
  rw [h.inUse] at hn
  have hdisj := (Multiset.nodup_add.mp hn).2.2
  rintro rfl
  exact Multiset.disjoint_left.mp hdisj (Multiset.mem_add.mpr (Or.inr ha)) hb

theorem InHand.mem_raw {xs : Multiset β} (h : InHand s e xs) {a : β} (ha : a ∈ rawBlock s e) :
    a ∈ s.mem.inUse := by
  rw [h.inUse, Multiset.mem_add, Multiset.mem_add]
  exact Or.inl (Or.inr ha)

theorem InHand.mem {xs : Multiset β} (h : InHand s e xs) {b : β} (hb : b ∈ xs) :
    b ∈ s.mem.inUse := by
  rw [h.inUse, Multiset.mem_add]
  exact Or.inr hb

/-- A change of the memory only, with blocks in hand. -/
theorem InHand.memWorks {xs ys zs : Multiset β} (h : InHand s e (ys + xs))
    (hw : MemWorks s t ys zs) :
    InHand t e (zs + xs) ∧ ∀ c ∈ rawBlock s e + xs, t.mem.length c = s.mem.length c := by
  have hk := hw.transfer.keeps (s.toRrcState.owned + (rawBlock s e + xs)) h.nodup (by
    rw [h.inUse]
    ac_rfl)
  refine ⟨⟨hk.nodup, ?_⟩, fun c hc => hk.length c (Multiset.mem_add.mpr (Or.inr hc))⟩
  have howned : t.toRrcState.owned = s.toRrcState.owned := by
    rw [hw.only]
    rfl
  rw [hk.inUse, howned, hw.only.rawBlock e]
  ac_rfl

theorem held_memWorks {room : Capacity env.toPolicy} {xs ys zs : Multiset β}
    (h : InHand s e (ys + xs)) (hw : MemWorks s t ys zs)
    (hraw : (rawBuffer s e).Held room s.mem) : (rawBuffer t e).Held room t.mem := by
  have hsame : rawBuffer t e = rawBuffer s e := by
    rw [hw.only]
    rfl
  intro p hp
  rw [hsame] at hp ⊢
  rw [(h.memWorks hw).2 p (Multiset.mem_add.mpr (Or.inl (mem_rawBlock.mpr hp)))]
  exact hraw p hp

/-- A block in hand is released. -/
theorem InHand.free {xs : Multiset β} {b : β} (h : InHand s e ({b} + xs)) :
    InHand (s.free b) e xs ∧ ∀ c ∈ rawBlock s e + xs, (s.free b).mem.length c = s.mem.length c := by
  obtain ⟨h1, h2⟩ := h.memWorks (free_memWorks s b)
  rw [zero_add] at h1
  exact ⟨h1, h2⟩

/-- What the reassembly keeps, with the blocks `xs` in hand afterwards. Those keep their
lengths. -/
structure KeepsRaw (room : Capacity env.toPolicy) (s t : RlcState β) (e : β)
    (xs : Multiset β) : Prop where
  refusedJoins : t.refusedJoins = s.refusedJoins
  held : (rawBuffer t e).Held room t.mem
  inHand : ∃ l, InHand t e (l + xs)
  length : ∀ b ∈ xs, t.mem.length b = s.mem.length b

/-- **One field**, with the blocks `xs` besides its own. -/
theorem rlcReassembleAmdDfe_keepsRaw (room : Capacity env.toPolicy) {xs : Multiset β}
    (hu : InHand s e (dfe.blocks + xs)) (hb : dfe.buffer.pData.isSome)
    (hraw : (rawBuffer s e).Held room s.mem)
    (hdfe : dfe.status = amPduMapSduStart ∨ dfe.status = amPduMapSduMid →
      dfe.buffer.Held room s.mem)
    (hok : FieldJoins env s e sn dfe) :
    KeepsRaw room s (rlcReassembleAmdDfe env sn e s dfe) e xs := by
  have hj := rlcReassembleAmdDfe_refusedJoins hb hok.granted
  obtain ⟨u, ht, heffect, hw⟩ := rlcReassembleAmdDfe_effect hb hj
  rw [ht] at hj ⊢
  have hju : u.refusedJoins = s.refusedJoins := hj
  -- the data is used up, and the element itself is left
  obtain ⟨l, htransfer, -⟩ := hw.leaves.transfer hju
  have hk := htransfer.keeps ({dfe.addr} + xs) hu.nodup (by
    rw [hu.inUse, AmdDfe.blocks]
    ac_rfl)
  have huser : InHand u e ({dfe.addr} + (l + xs)) := by
    refine ⟨hk.nodup, ?_⟩
    rw [hk.inUse]
    ac_rfl
  have hdata : ∀ b, dfe.buffer.pData = some b → b ∈ dfe.blocks + xs := by
    intro b hb
    rw [AmdDfe.blocks, hb]
    simp
  have hheld : (rawBuffer u e).Held room u.mem := by
    refine heffect.held room (fun a b ha hb => ?_) hraw hdfe hok.short hb
    have ha' := mem_rawBlock.mpr ha
    exact ⟨hu.mem_raw ha', hu.mem (hdata b hb), hu.ne ha' (hdata b hb)⟩
  refine ⟨hj, held_memWorks huser (free_memWorks u _) hheld, ⟨l, huser.free.1⟩, fun b hbx => ?_⟩
  rw [huser.free.2 b (by simp [hbx]), hk.length b (Multiset.mem_add.mpr (Or.inr hbx))]

end Field

/-! ## The fields of a PDU -/

section Pdu

variable {s t u : RlcState β} {e b : β} {sn : Nat} {xs ys : Multiset β}
  {room : Capacity env.toPolicy}

theorem KeepsRaw.trans (h : KeepsRaw room s t e (ys + xs))
    (h' : ∀ l, InHand t e (ys + (l + xs)) → KeepsRaw room t u e (l + xs)) :
    KeepsRaw room s u e xs := by
  obtain ⟨l, hl⟩ := h.inHand
  have hl' : InHand t e (ys + (l + xs)) := ⟨hl.nodup, by rw [hl.inUse]; ac_rfl⟩
  have hk := h' l hl'
  obtain ⟨l', hu⟩ := hk.inHand
  refine ⟨hk.refusedJoins.trans h.refusedJoins, hk.held, ⟨l' + l, ?_⟩, fun c hc => ?_⟩
  · rwa [add_assoc]
  · rw [hk.length c (by simp [hc]), h.length c (by simp [hc])]

/-- The data of a fragment is held by its block. -/
def FragmentsHeld (room : Capacity env.toPolicy) (m : Store β) (q : List (AmdDfe β)) : Prop :=
  ∀ d ∈ q, d.status = amPduMapSduStart ∨ d.status = amPduMapSduMid → d.buffer.Held room m

theorem FragmentsHeld.length {q : List (AmdDfe β)} {m m' : Store β}
    (h : FragmentsHeld room m q) (hm : ∀ b ∈ queueBlocks q, m'.length b = m.length b) :
    FragmentsHeld room m' q := by
  intro d hd hst b hb
  have hmem : b ∈ queueBlocks q := by
    refine Multiset.mem_of_le (Multiset.single_le_sum (fun _ _ => zero_le) _
      (Multiset.mem_coe.mpr (List.mem_map_of_mem hd))) ?_
    rw [AmdDfe.blocks, hb]
    simp
  rw [hm b hmem]
  exact h d hd hst b hb

/-- Fields that deliver an SDU of their own or begin one are joined to nothing. -/
theorem fieldJoins_fresh (sn : Nat) {dfe : AmdDfe β}
    (hst : dfe.status = amPduMapSduFull ∨ dfe.status = amPduMapSduStart) :
    FieldJoins env s e sn dfe := by
  constructor
  · intro _ hc
    rcases hst with hst | hst <;> simp [hst, continues] at hc
  · intro hmid
    rcases hst with hst | hst <;> simp [hst] at hmid

/-- The fields after the first one. -/
theorem later_keepsRaw {q : List (AmdDfe β)}
    (hst : ∀ d ∈ q, d.status = amPduMapSduFull ∨ d.status = amPduMapSduStart)
    (hq : ∀ d ∈ q, d.buffer.pData.isSome) (hheld : FragmentsHeld room s.mem q)
    (hu : InHand s e (queueBlocks q + xs)) (hraw : (rawBuffer s e).Held room s.mem) :
    KeepsRaw room s (q.foldl (rlcReassembleAmdDfe env sn e) s) e xs := by
  induction q generalizing s xs with
  | nil =>
      rw [queueBlocks_nil, zero_add] at hu
      exact ⟨rfl, hraw, ⟨0, by rwa [zero_add]⟩, fun _ _ => rfl⟩
  | cons dfe q ih =>
      rw [queueBlocks_cons, add_assoc] at hu
      have h1 := rlcReassembleAmdDfe_keepsRaw room hu (hq dfe List.mem_cons_self) hraw
        (hheld dfe List.mem_cons_self)
        (fieldJoins_fresh sn (hst dfe List.mem_cons_self))
      refine h1.trans fun l hl => ?_
      refine ih (fun d hd => hst d (List.mem_cons_of_mem dfe hd))
        (fun d hd => hq d (List.mem_cons_of_mem dfe hd)) ?_ hl h1.held
      refine FragmentsHeld.length (fun d hd => hheld d (List.mem_cons_of_mem dfe hd)) ?_
      exact fun c hc => h1.length c (Multiset.mem_add.mpr (Or.inl hc))

theorem laterStatuses_or {fi : UInt8} {lis : List Nat} {st : RlcSduStatus}
    (h : st ∈ laterStatuses fi lis) : st = amPduMapSduFull ∨ st = amPduMapSduStart := by
  induction lis with
  | nil =>
      obtain rfl := List.mem_singleton.mp h
      exact lastStatus_or fi
  | cons li lis ih =>
      rcases List.mem_cons.mp h with rfl | h
      · exact Or.inl rfl
      · exact ih h

/-- **All fields of a PDU.** -/
theorem queue_keepsRaw {q : List (AmdDfe β)} (hst : StatusesOk (q.map AmdDfe.status))
    (hq : ∀ d ∈ q, d.buffer.pData.isSome) (hheld : FragmentsHeld room s.mem q)
    (hu : InHand s e (queueBlocks q + xs)) (hraw : (rawBuffer s e).Held room s.mem)
    (hok : ∀ d ∈ q.head?, FieldJoins env s e sn d) :
    KeepsRaw room s (q.foldl (rlcReassembleAmdDfe env sn e) s) e xs := by
  obtain ⟨dfe, rest, rfl, hrest⟩ : ∃ dfe rest, q = dfe :: rest ∧
      ∀ d ∈ rest, d.status = amPduMapSduFull ∨ d.status = amPduMapSduStart := by
    rcases hst with ⟨fi, hst⟩ | ⟨fi, lis, hst⟩
    · obtain ⟨dfe, rest, rfl, -, hrest⟩ := List.map_eq_cons_iff.mp hst
      obtain rfl := List.map_eq_nil_iff.mp hrest
      exact ⟨dfe, [], rfl, by simp⟩
    · obtain ⟨dfe, rest, rfl, -, hrest⟩ := List.map_eq_cons_iff.mp hst
      refine ⟨dfe, rest, rfl, fun d hd => ?_⟩
      have hmem : d.status ∈ laterStatuses fi lis := hrest ▸ List.mem_map_of_mem hd
      exact laterStatuses_or hmem
  rw [queueBlocks_cons, add_assoc] at hu
  have h1 := rlcReassembleAmdDfe_keepsRaw room hu (hq dfe List.mem_cons_self) hraw
    (hheld dfe List.mem_cons_self) (hok dfe rfl)
  refine h1.trans fun l hl => ?_
  refine later_keepsRaw hrest (fun d hd => hq d (List.mem_cons_of_mem dfe hd)) ?_ hl h1.held
  refine FragmentsHeld.length (fun d hd => hheld d (List.mem_cons_of_mem dfe hd)) ?_
  exact fun c hc => h1.length c (Multiset.mem_add.mpr (Or.inl hc))

end Pdu

/-! ## Decoding -/

section Decoding

variable {s t : RlcState β} {b : β} {room : Capacity env.toPolicy}

/-- What is in use keeps its length when a block is allocated. -/
theorem alloc_keepsLength {n : Nat} {o : Option β} (h : s.alloc env n = (t, o))
    (hb : b ∈ s.mem.inUse) : t.mem.length b = s.mem.length b ∧ b ∈ t.mem.inUse := by
  obtain rfl : (s.alloc env n).1 = t := congrArg Prod.fst h
  exact alloc_length hb

theorem alloc_hasRoom {n : Nat} (room : Capacity env.toPolicy)
    (h : s.alloc env n = (t, some b)) : n ≤ room.of b :=
  alloc_capacity room (show (s.mem.alloc env.toPolicy n).2 = some b from congrArg Prod.snd h)

/-- A length indicator has 11 bits, and there are at most as many as there is room for. -/
theorem lengthIndicators_bounds {data : Nat → UInt8} {n i : Nat} {lis : List Nat}
    (h : rlcLengthIndicators data n i = some lis) :
    (∀ li ∈ lis, li < 2048) ∧ lis.length ≤ n := by
  induction n generalizing i lis with
  | zero =>
      obtain rfl := Option.some.inj h
      simp
  | succ n ih =>
      rw [rlcLengthIndicators] at h
      split at h
      · cases h
      · split at h
        · obtain rfl := Option.some.inj h
          exact ⟨by simpa using getLi_lt _ _ _, by simp⟩
        · obtain ⟨rest, hrest, rfl⟩ := Option.map_eq_some_iff.mp h
          obtain ⟨hlt, hlen⟩ := ih hrest
          refine ⟨fun li hmem => ?_, by simpa using hlen⟩
          rcases List.mem_cons.mp hmem with rfl | hmem
          · exact getLi_lt _ _ _
          · exact hlt li hmem

theorem concatenationHeader_bounds {data : Nat → UInt8} {p : RlcConcatenatePduHeader}
    (h : rlcGetConcatenationHeaderInfo data = some p) :
    p.hdrSize ≤ 386 ∧ ∃ li lis, p.dfeLength = li :: lis ∧ li < 2048 := by
  have hne := rlcGetConcatenationHeaderInfo_ne_nil h
  obtain ⟨lis, hlis, rfl⟩ := Option.map_eq_some_iff.mp h
  obtain ⟨hlt, hlen⟩ := lengthIndicators_bounds hlis
  obtain ⟨li, rest, rfl⟩ := List.exists_cons_of_ne_nil hne
  refine ⟨?_, li, rest, rfl, hlt li List.mem_cons_self⟩
  simp only [getVarHeaderSize, rlcMaxDfeInUlPdu, List.length_cons, Nat.add_sub_cancel,
    Nat.shiftLeft_eq, Nat.shiftRight_eq_div_pow] at hlen ⊢
  omega

/-- No memory for as much as a size that has wrapped around says. -/
theorem split_refused (room : Capacity env.toPolicy) {fi : UInt8} {li : Nat} {lis : List Nat}
    {dfeQ q : List (AmdDfe β)} {dfe : AmdDfe β} {ok : Bool} (hli : li < 2048)
    (hsize : 2 ^ 31 + 2048 ≤ dfe.buffer.size.toNat)
    (hdec : rlcDecodeAndEnqueueAmSegment env fi (li :: lis) s dfeQ dfe = (t, q, ok)) :
    ok = false := by
  have hli32 : (UInt32.ofNat li).toNat = li := by
    rw [UInt32.toNat_ofNat']
    omega
  rw [rlcDecodeAndEnqueueAmSegment] at hdec
  simp only at hdec
  split at hdec
  · exact (congrArg (fun r => r.2.2) hdec).symm
  · rename_i hfits
    split at hdec
    · exact (congrArg (fun r => r.2.2) hdec).symm
    · rename_i u next _
      split at hdec
      · exact (congrArg (fun r => r.2.2) hdec).symm
      · rename_i v pData ha
        have hroom := alloc_hasRoom room ha
        have hbound := room.bound pData
        rw [UInt32.toNat_sub_of_le _ _ (UInt32.not_lt.mp hfits), hli32] at hroom
        omega

/-- **Splitting**: the last element is held by the block that was allocated for it, and the
others are no fragments that are kept. -/
theorem rlcDecodeAndEnqueueAmSegment_held (room : Capacity env.toPolicy) {fi : UInt8} {lis : List Nat}
    {dfeQ q : List (AmdDfe β)} {dfe : AmdDfe β}
    (hst : dfe.status = amPduMapSduEnd ∨ dfe.status = amPduMapSduFull)
    (hsize : dfe.buffer.size.toNat < 2 ^ 16) (hlast : lis = [] → dfe.buffer.Held room s.mem)
    (hdec : rlcDecodeAndEnqueueAmSegment env fi lis s dfeQ dfe = (t, q, true)) :
    ∃ q', q = dfeQ ++ q' ∧ FragmentsHeld room t.mem q' := by
  induction lis generalizing s dfeQ dfe with
  | nil =>
      rw [rlcDecodeAndEnqueueAmSegment] at hdec
      simp only [Prod.mk.injEq, and_true] at hdec
      obtain ⟨rfl, rfl⟩ := hdec
      refine ⟨_, rfl, fun d hd _ => ?_⟩
      obtain rfl := List.mem_singleton.mp hd
      exact hlast rfl
  | cons li lis ih =>
      rw [rlcDecodeAndEnqueueAmSegment] at hdec
      simp only at hdec
      split at hdec
      · simp at hdec
      · rename_i hfits
        split at hdec
        · simp at hdec
        · rename_i u next _
          split at hdec
          · simp at hdec
          · rename_i v pData ha
            have hle : (dfe.buffer.size - UInt32.ofNat li).toNat ≤ dfe.buffer.size.toNat := by
              rw [UInt32.toNat_sub_of_le _ _ (UInt32.not_lt.mp hfits)]
              exact Nat.sub_le _ _
            obtain ⟨-, hlen, -, -⟩ := alloc_fresh ha
            have hroom := alloc_hasRoom room ha
            obtain ⟨q', rfl, hq'⟩ := ih (Or.inr rfl) (hle.trans_lt hsize) (fun _ c hc => by
              obtain rfl := Option.some.inj hc
              refine ⟨?_, hroom⟩
              show v.mem.length pData = _
              rw [hlen, Nat.mod_eq_of_lt (hle.trans_lt hsize)]) hdec
            refine ⟨{ dfe with buffer := { dfe.buffer with size := UInt32.ofNat li } } :: q',
              by simp, fun d hd hfrag => ?_⟩
            rcases List.mem_cons.mp hd with rfl | hd
            · rcases hst with hst | hst <;> simp [hst] at hfrag
            · exact hq' d hd hfrag

/-- A packet in the block `b`: it has room for the packet, which is not too short to have a
header. -/
structure Packed (room : Capacity env.toPolicy) (m : Store β) (info : RlcUlDataInfo β)
    (b : β) : Prop where
  buffer : info.rlcdataBuffer = some b
  inUse : b ∈ m.inUse
  length : m.length b = info.length
  capacity : info.length ≤ room.of b
  short : info.length < 2 ^ 16

theorem Packed.alloc {info : RlcUlDataInfo β} {n : Nat} {o : Option β}
    (hp : Packed room s.mem info b) (h : s.alloc env n = (t, o)) : Packed room t.mem info b := by
  obtain ⟨hlen, hin⟩ := alloc_keepsLength h hp.inUse
  exact ⟨hp.buffer, hin, hlen.trans hp.length, hp.capacity, hp.short⟩

/-- **Decoding**: the data of a fragment is held by its block. -/
theorem rlcDecodeAmdPdu_held {pdu p : AmdPdu β} {h : AmdHeader} {info : RlcUlDataInfo β}
    (hpdu : pdu.segList = []) (hp : Packed room s.mem info b) (h2 : 2 ≤ info.length)
    (hdec : rlcDecodeAmdPdu env s pdu h info = (t, some p)) :
    ∀ seg ∈ p.segList, FragmentsHeld room t.mem seg.dfeQ := by
  have hlen32 : (UInt32.ofNat info.length).toNat = info.length := by
    have hshort := hp.short
    rw [UInt32.toNat_ofNat']
    omega
  unfold rlcDecodeAmdPdu at hdec
  simp only at hdec
  split at hdec
  · simp at hdec
  split at hdec
  · simp at hdec
  rename_i u seg hseg
  have hu := hp.alloc hseg
  split at hdec
  · -- a single field, in the block of the packet
    split at hdec
    · simp at hdec
    · rename_i v a ha
      have hv := hu.alloc ha
      obtain ⟨hdfe, hsegs, -⟩ := rlcSetAmdPduAndDfeStatus_eq pdu h a
        ⟨UInt32.ofNat info.length - 2, info.rlcdataBuffer⟩
      simp only [Prod.mk.injEq, Option.some.injEq] at hdec
      obtain ⟨rfl, rfl⟩ := hdec
      have hsize : (UInt32.ofNat info.length - 2).toNat = info.length - 2 := by
        rw [UInt32.toNat_sub_of_le]
        · rw [hlen32]
          rfl
        · rw [UInt32.le_iff_toNat_le, hlen32]
          exact h2
      intro sg hsg d hd hst c hc
      simp only [hsegs, hpdu, List.nil_append, List.mem_singleton] at hsg
      obtain rfl := hsg
      obtain rfl := List.mem_singleton.mp hd
      rw [hdfe] at hc ⊢
      obtain rfl : b = c := Option.some.inj (hp.buffer.symm.trans hc)
      have hroom := hp.capacity
      show (info.rlcdataBuffer.elim v.mem fun b => v.mem.dropFront b 2).length b
          = (UInt32.ofNat info.length - 2).toNat
        ∧ (UInt32.ofNat info.length - 2).toNat ≤ room.of b
      rw [hp.buffer, Option.elim_some, hsize, dropFront_length v.mem b (by rw [hv.length]; exact h2),
        hv.length]
      exact ⟨rfl, by omega⟩
  · split at hdec
    · simp at hdec
    rename_i pduHeader hhead
    split at hdec
    · simp at hdec
    rename_i v a ha
    split at hdec
    · simp at hdec
    rename_i w q hq
    simp only [Prod.mk.injEq, Option.some.injEq] at hdec
    obtain ⟨rfl, rfl⟩ := hdec
    obtain ⟨hhdr, li, lis, hlis, hli⟩ := concatenationHeader_bounds hhead
    have hhdr32 : (UInt32.ofNat pduHeader.hdrSize).toNat = pduHeader.hdrSize := by
      rw [UInt32.toNat_ofNat']
      omega
    intro sg hsg
    simp only [hpdu, List.nil_append, List.mem_singleton] at hsg
    subst hsg
    have hshort := hp.short
    by_cases hle : pduHeader.hdrSize ≤ info.length
    · have hsize : (UInt32.ofNat info.length - UInt32.ofNat pduHeader.hdrSize).toNat
          < 2 ^ 16 := by
        rw [UInt32.toNat_sub_of_le]
        · omega
        · rw [UInt32.le_iff_toNat_le, hlen32, hhdr32]
          exact hle
      obtain ⟨q', hq', hheld⟩ := rlcDecodeAndEnqueueAmSegment_held room
        (firstStatus_or h.fi) hsize (fun hnil => by rw [hlis] at hnil; cases hnil) hq
      rw [List.nil_append] at hq'
      exact hq' ▸ hheld
    · -- the header claims more than there is
      rw [hlis] at hq
      refine absurd (split_refused room hli ?_ hq) (by simp)
      show 2 ^ 31 + 2048
        ≤ (UInt32.ofNat info.length - UInt32.ofNat pduHeader.hdrSize).toNat
      rw [UInt32.toNat_sub, hlen32, hhdr32]
      omega

/-- The same, for the function before the reassembly. -/
theorem rlcNewAmdPdu_held {p : AmdPdu β} {h : AmdHeader} {info : RlcUlDataInfo β}
    (hp : Packed room s.mem info b) (h2 : 2 ≤ info.length)
    (hn : rlcNewAmdPdu env s h info = (t, some p)) :
    ∀ seg ∈ p.segList, FragmentsHeld room t.mem seg.dfeQ := by
  unfold rlcNewAmdPdu at hn
  split at hn
  · simp at hn
  · rename_i u pdu hc
    obtain ⟨halloc, hseg⟩ := rlcCreateAmdPdu_some hc
    split at hn
    · simp at hn
    · split at hn
      · simp at hn
      · rename_i v q hd
        simp only [Prod.mk.injEq, Option.some.injEq] at hn
        obtain ⟨rfl, rfl⟩ := hn
        exact rlcDecodeAmdPdu_held (p := q) hseg (hp.alloc halloc) h2 hd

end Decoding

/-! ## A packet of the entity -/

section Packet

variable {s t : RlcState β} {e b : β} {xs : Multiset β} {room : Capacity env.toPolicy}
  {h : AmdHeader} {info : RlcUlDataInfo β}

theorem rawBuffer_setRing (s : RlcState β) (e : β) (k : Nat) (node : RingNode β) :
    rawBuffer (s.setRing e k node) e = rawBuffer s e := by
  simp [rawBuffer, RlcState.setRing, RlcState.setEntity]

theorem InHand.setRing (hu : InHand s e xs) (k : Nat) (node : RingNode β) :
    InHand (s.setRing e k node) e xs :=
  ⟨hu.nodup, by rw [rawBlock_setRing]; exact hu.inUse⟩

theorem FieldJoins.setRing {sn : Nat} {dfe : AmdDfe β} (hok : FieldJoins env s e sn dfe)
    (k : Nat) (node : RingNode β) : FieldJoins env (s.setRing e k node) e sn dfe := by
  have hraw : ((s.setRing e k node).rxAmEntity e).rxRawSdu = (s.rxAmEntity e).rxRawSdu := by
    simp [RlcState.setRing, RlcState.setEntity]
  constructor
  · rw [rawBuffer_setRing, hraw, joinRaw_snd_congr (t := s.setRing e k node) (s := s) rfl]
    exact hok.granted
  · rw [rawBuffer_setRing, hraw]
    exact hok.short

/-- **A packet of the entity**, with the blocks `xs` besides its own. -/
theorem rlcProcessAmdPdu_keepsRaw (hring : RingFree s e) (hp : Packed room s.mem info b)
    (h2 : 2 ≤ info.length) (hu : InHand s e ({b} + xs)) (hraw : (rawBuffer s e).Held room s.mem)
    (hok : PacketJoins env s e h info) :
    KeepsRaw room s (rlcProcessAmdPdu env s e h info) e xs := by
  have hslot := hring (h.sn &&& 511)
  unfold rlcProcessAmdPdu PacketJoins pduFields at *
  rw [if_pos (by rw [hslot]), rlcProcessNewAmdPdu_eq env h info (by rw [hslot])]
  cases hn : rlcNewAmdPdu env s h info with
  | mk t o =>
      obtain ⟨hw, hcomplete⟩ := rlcNewAmdPdu_memWorks hn
      rw [hp.buffer, blockOf_some] at hw
      obtain ⟨ht, hlen⟩ := hu.memWorks hw
      have hheld := held_memWorks hu hw hraw
      have hjoins : t.refusedJoins = s.refusedJoins := by
        rw [hw.only]
        rfl
      have hlenx : ∀ c ∈ xs, t.mem.length c = s.mem.length c := fun c hc =>
        hlen c (Multiset.mem_add.mpr (Or.inr hc))
      cases o with
      | none => exact ⟨hjoins, hheld, ⟨0, ht⟩, hlenx⟩
      | some pdu =>
          obtain ⟨seg, q, hsegs, hsome, hst⟩ :=
            rlcNewAmdPdu_statuses (by rw [hp.buffer]; rfl) hn
          have hfrag := rlcNewAmdPdu_held hp h2 hn ⟨seg, q⟩ (by rw [hsegs]; simp)
          rw [hn] at hok
          simp only [Option.elim_some, hsegs, List.flatMap_cons, List.flatMap_nil,
            List.append_nil] at hok ⊢
          -- the state in which the fields are reassembled
          let v := (t.setRing e (h.sn &&& 511) ⟨.inUse, some pdu⟩).setRing e (h.sn &&& 511)
            ⟨.ready, some pdu⟩
          have hv : InHand v e (queueBlocks q + ({seg} + ({pdu.addr} + xs))) := by
            have hblocks : pdu.blocks + xs = queueBlocks q + ({seg} + ({pdu.addr} + xs)) := by
              rw [AmdPdu.blocks, hsegs, segBlocks_cons, segBlocks_nil]
              show {pdu.addr} + ({seg} + queueBlocks q + 0) + xs = _
              rw [add_zero]
              ac_rfl
            rw [Option.elim_some, hblocks] at ht
            exact (ht.setRing _ _).setRing _ _
          have hrawv : (rawBuffer v e).Held room v.mem := by
            rw [rawBuffer_setRing, rawBuffer_setRing]
            exact hheld
          have hqueue : KeepsRaw room v (q.foldl (rlcReassembleAmdDfe env h.sn e) v) e
              ({seg} + ({pdu.addr} + xs)) :=
            queue_keepsRaw hst hsome hfrag hv hrawv fun d hd =>
              ((hok d hd).setRing _ _).setRing _ _
          obtain ⟨l, hl⟩ := hqueue.inHand
          have hl1 : InHand (q.foldl (rlcReassembleAmdDfe env h.sn e) v) e
              ({seg} + ({pdu.addr} + (l + xs))) := ⟨hl.nodup, by rw [hl.inUse]; ac_rfl⟩
          obtain ⟨hl2, hlen2⟩ := hl1.free
          obtain ⟨hl3, hlen3⟩ := hl2.free
          have hheld3 := held_memWorks hl2 (free_memWorks _ pdu.addr)
            (held_memWorks hl1 (free_memWorks _ seg) hqueue.held)
          rw [rlcReassembleRlcSdu_eq (by simp [RlcState.setRing, RlcState.setEntity])
            (hcomplete pdu rfl), hsegs]
          refine ⟨hqueue.refusedJoins.trans hjoins, ?_, ⟨l, hl3.setRing _ _⟩, fun c hc => ?_⟩
          · rw [rawBuffer_setRing]
            exact hheld3
          · have h3 := hlen3 c (by simp [hc])
            have h4 := hlen2 c (by simp [hc])
            have h5 := hqueue.length c (by simp [hc])
            exact h3.trans (h4.trans (h5.trans (hlenx c hc)))

end Packet

/-! ## The other entities -/

section Others

variable {s t u : RlcState β} {a e : β} {o : Option β} {ys : Multiset β} {rnti : UInt16}

/-- Every incomplete SDU of `t` is one of `s`. -/
def OldRaws (s t : RlcState β) : Prop :=
  ∀ e ∈ t.entities, (rawBuffer t e).pData = none ∨
    e ∈ s.entities ∧ rawBuffer t e = rawBuffer s e

theorem OldRaws.trans (h : OldRaws s t) (h' : OldRaws t u) : OldRaws s u := by
  intro e he
  rcases h' e he with hnone | ⟨het, heq⟩
  · exact Or.inl hnone
  · rcases h e het with hnone | ⟨hes, heq'⟩
    · exact Or.inl (by rw [heq, hnone])
    · exact Or.inr ⟨hes, heq.trans heq'⟩

theorem OldRaws.of_eq (he : t.entities = s.entities) (hx : t.rxAmEntity = s.rxAmEntity) :
    OldRaws s t := by
  intro e hmem
  rw [he] at hmem
  exact Or.inr ⟨hmem, by rw [rawBuffer, hx, rawBuffer]⟩

/-! ### The lookup -/

/-- The lookup of an entity: no incomplete SDU is made, and all blocks in use stay as they
are. -/
structure Extends (s t : RlcState β) : Prop where
  joins : t.refusedJoins = s.refusedJoins
  raws : OldRaws s t
  mem : ∀ b ∈ s.mem.inUse, t.mem.length b = s.mem.length b ∧ b ∈ t.mem.inUse

theorem Extends.trans (h : Extends s t) (h' : Extends t u) : Extends s u := by
  refine ⟨h'.joins.trans h.joins, h.raws.trans h'.raws, fun b hb => ?_⟩
  obtain ⟨hl, hin⟩ := h.mem b hb
  obtain ⟨hl', hin'⟩ := h'.mem b hin
  exact ⟨hl'.trans hl, hin'⟩

theorem Extends.same (he : t.entities = s.entities) (hx : t.rxAmEntity = s.rxAmEntity)
    (hm : t.mem = s.mem) (hj : t.refusedJoins = s.refusedJoins) : Extends s t :=
  ⟨hj, .of_eq he hx, fun b hb => by rw [hm]; exact ⟨rfl, hb⟩⟩

theorem alloc_extends {n : Nat} (h : s.alloc env n = (t, o)) : Extends s t := by
  refine ⟨?_, ?_, fun b hb => alloc_keepsLength h hb⟩
  · rw [alloc_onMem h]
    rfl
  · rw [alloc_onMem h]
    exact .of_eq rfl rfl

theorem rlcUpdateUeContextTime_entities (s : RlcState β) (b : β) (value : UInt32) :
    (rlcUpdateUeContextTime s b value).entities = s.entities := by
  refine Multiset.bind_congr fun c _ => ?_
  unfold rlcUpdateUeContextTime RlcState.setUeContext RlcUeContext.entities
  by_cases hc : c = b
  · subst hc
    simp
  · simp [Function.update_of_ne hc]

theorem rlcContextFor_extends (hr : RrcSound s.toRrcState (s.rlcOwned + ys))
    (h : rlcContextFor env s rnti = (t, o)) : Extends s t := by
  unfold rlcContextFor at h
  split at h
  · unfold rlcCreateUeContext at h
    split at h
    · rename_i v halloc
      obtain ⟨rfl, rfl⟩ := Prod.mk.inj h
      exact alloc_extends halloc
    · rename_i v b halloc
      obtain ⟨rfl, rfl⟩ := Prod.mk.inj h
      refine (alloc_extends halloc).trans ?_
      have hb : b ∉ v.gRlcUeContextList := by
        rw [alloc_onMem halloc]
        exact fun hmem => (alloc_fresh halloc).1 (context_inUse hr hmem)
      exact .same (pushContext_entities v rnti hb) rfl rfl rfl
  · rename_i b _
    split at h
    · obtain ⟨rfl, rfl⟩ := Prod.mk.inj h
      exact .same rfl rfl rfl rfl
    · obtain ⟨rfl, rfl⟩ := Prod.mk.inj h
      exact .same (rlcUpdateUeContextTime_entities s b 0) rfl rfl rfl

theorem rlcEntityFor_extends {lcId : Nat} (hr : RrcSound s.toRrcState (s.rlcOwned + ys))
    (ha : a ∈ s.gRlcUeContextList) (h : rlcEntityFor env s a lcId = (t, o)) : Extends s t := by
  unfold rlcEntityFor at h
  split at h
  · obtain ⟨rfl, rfl⟩ := Prod.mk.inj h
    exact .same rfl rfl rfl rfl
  · rename_i hnone
    unfold rlcCreateRxAmEntity at h
    split at h
    · rename_i hlc
      rw [rlcGetRxAmEntity, if_pos hlc] at hnone
      split at h
      · rename_i v halloc
        obtain ⟨rfl, rfl⟩ := Prod.mk.inj h
        exact alloc_extends halloc
      · rename_i v x halloc
        obtain ⟨rfl, rfl⟩ := Prod.mk.inj h
        refine (alloc_extends halloc).trans ⟨rfl, ?_, fun b hb => ⟨rfl, hb⟩⟩
        have hv := alloc_onMem halloc
        have hnone' : (v.rlcUeContext a).rxAmEntityArray lcId = none := by
          rw [hv]
          exact hnone
        have ha' : a ∈ v.gRlcUeContextList := by
          rw [hv]
          exact ha
        have hn : v.gRlcUeContextList.Nodup := by
          rw [hv]
          exact (contexts_nodup hr : s.gRlcUeContextList.Nodup)
        have hx : x ∉ v.entities := by
          rw [hv]
          exact fun hmem => (alloc_fresh halloc).1 (entity_inUse hr hmem)
        intro e he
        have hent : (addEntity v a lcId x).entities = {x} + v.entities :=
          addEntity_entities hn ha' hlc hnone' x
        have he' : e ∈ ({x} : Multiset β) + v.entities := hent ▸ he
        show (rawBuffer (addEntity v a lcId x) e).pData = none ∨
          e ∈ v.entities ∧ rawBuffer (addEntity v a lcId x) e = rawBuffer v e
        rcases Multiset.mem_add.mp he' with hnew | hold
        · obtain rfl := Multiset.mem_singleton.mp hnew
          left
          rw [rawBuffer, addEntity_entity]
          rfl
        · right
          refine ⟨hold, ?_⟩
          rw [rawBuffer, addEntity_entity_ne v a lcId (ne_of_mem_of_not_mem hold hx), rawBuffer]
    · obtain ⟨rfl, rfl⟩ := Prod.mk.inj h
      exact .same rfl rfl rfl rfl

/-- **The lookup**: a step of the reception, which leaves all incomplete SDUs alone. -/
theorem rlcFindEntity_spec {info : RlcUlDataInfo β} {r : Option (β × AmdHeader)}
    (hs : RlcSound s) (hr : RrcSound s.toRrcState (s.rlcOwned + ys))
    (h : rlcFindEntity env s info rnti = (t, r)) :
    Receives s t 0 0 ∧ Extends s t ∧
      ∀ e hd, r = some (e, hd) → e ∈ t.entities ∧ 2 ≤ info.length := by
  have hsame : Extends s s := .same rfl rfl rfl rfl
  unfold rlcFindEntity at h
  split at h
  · obtain ⟨rfl, rfl⟩ := Prod.mk.inj h
    exact ⟨.refl s 0, hsame, by simp⟩
  rename_i hlc
  have hlc' : info.lcId < maxLcId := by
    simp only [srb2LcId, maxLcId] at hlc ⊢
    omega
  split at h
  · obtain ⟨rfl, rfl⟩ := Prod.mk.inj h
    exact ⟨.refl s 0, hsame, by simp⟩
  rename_i hdr hdecode
  have h2 : 2 ≤ info.length := by
    obtain ⟨b, -, hb⟩ := Option.bind_eq_some_iff.mp hdecode
    by_contra hlt
    unfold rlcDecodeAmdHeader at hb
    split at hb
    · cases hb
    · rw [if_pos (by omega)] at hb
      cases hb
  split at h
  · obtain ⟨rfl, rfl⟩ := Prod.mk.inj h
    exact ⟨.refl s 0, hsame, by simp⟩
  cases hctx : rlcContextFor env s rnti with
  | mk v o =>
      obtain ⟨h1, hmem⟩ := rlcContextFor_receives hctx
      have hx1 := rlcContextFor_extends hr hctx
      rw [hctx] at h
      cases o with
      | none =>
          obtain ⟨rfl, rfl⟩ := Prod.mk.inj h
          exact ⟨h1, hx1, by simp⟩
      | some a =>
          simp only at h
          have ha := hmem a rfl
          cases hent : rlcEntityFor env v a info.lcId with
          | mk w o =>
              obtain ⟨h3, hmem3⟩ := rlcEntityFor_receives ha hlc' hent
              have hrv := (h1.sound (zero_add _).symm hx1.joins hs hr).2
              have hx2 := hx1.trans (rlcEntityFor_extends hrv ha hent)
              rw [hent] at h
              cases o with
              | none =>
                  obtain ⟨rfl, rfl⟩ := Prod.mk.inj h
                  exact ⟨h1.seq h3, hx2, by simp⟩
              | some e =>
                  obtain ⟨rfl, rfl⟩ := Prod.mk.inj h
                  refine ⟨h1.seq h3, hx2, fun x hd hx => ?_⟩
                  obtain ⟨rfl, rfl⟩ := Prod.mk.inj (Option.some.inj hx)
                  exact ⟨hmem3 _ rfl, h2⟩

/-! ### The cleanup -/

theorem foldl_released {α : Type} {f : RlcState β → α → RlcState β}
    (h : ∀ s x, Released s.mem (f s x).mem) (l : List α) (s : RlcState β) :
    Released s.mem (l.foldl f s).mem := by
  apply List.foldlRecOn (motive := fun t => Released s.mem t.mem) l f (.refl s.mem)
  exact fun u hu x _ => hu.trans (h u x)

theorem rlcDeleteAmdPdu_released (s : RlcState β) (pdu : AmdPdu β) :
    Released s.mem (rlcDeleteAmdPdu s pdu).mem := by
  have hdfe : ∀ (u : RlcState β) (dfe : AmdDfe β), Released u.mem (rlcDeleteAmdDfe u dfe).mem :=
    fun u dfe => (release?_released u.mem _).trans (release_released _ dfe.addr)
  have hseg : ∀ (u : RlcState β) (seg : AmdPduSegment β),
      Released u.mem (rlcDeleteAmdPduSegment u seg).mem :=
    fun u seg => (foldl_released hdfe seg.dfeQ u).trans (release_released _ seg.addr)
  exact (foldl_released hseg pdu.segList s).trans (release_released _ pdu.addr)

theorem rlcDeleteRxAmEntity_released (s : RlcState β) (o : Option β) :
    Released s.mem (rlcDeleteRxAmEntity s o).mem := by
  cases o with
  | none => exact .refl s.mem
  | some e =>
      have hring : ∀ (u : RlcState β) (i : Nat), Released u.mem (rlcDeleteRingPdu e u i).mem := by
        intro u i
        unfold rlcDeleteRingPdu
        simp only
        split
        · split
          · exact .refl u.mem
          · exact rlcDeleteAmdPdu_released u _
        · exact .refl u.mem
      have hloop := foldl_released hring (List.range ringSize) s
      unfold rlcDeleteRxAmEntity
      simp only
      generalize (List.range ringSize).foldl (rlcDeleteRingPdu e) s = v at hloop ⊢
      exact (hloop.trans (release?_released v.mem _)).trans (release_released _ e)

/-- A part of the cleanup: contexts leave the list with what they hold, and the others keep
their entities. -/
structure Shrinks (s t : RlcState β) : Prop where
  joins : t.refusedJoins = s.refusedJoins
  list : t.gRlcUeContextList.Sublist s.gRlcUeContextList
  array : ∀ a ∈ t.gRlcUeContextList,
    (t.rlcUeContext a).rxAmEntityArray = (s.rlcUeContext a).rxAmEntityArray
  entity : t.rxAmEntity = s.rxAmEntity
  mem : Released s.mem t.mem

theorem Shrinks.refl (s : RlcState β) : Shrinks s s :=
  ⟨rfl, List.Sublist.refl _, fun _ _ => rfl, rfl, .refl s.mem⟩

theorem Shrinks.trans (h : Shrinks s t) (h' : Shrinks t u) : Shrinks s u where
  joins := h'.joins.trans h.joins
  list := h'.list.trans h.list
  array a ha := (h'.array a ha).trans (h.array a (h'.list.subset ha))
  entity := h'.entity.trans h.entity
  mem := h.mem.trans h'.mem

theorem Shrinks.of_onlyMem (h : OnlyMem s t) (hm : Released s.mem t.mem) : Shrinks s t := by
  rw [h]
  exact ⟨rfl, List.Sublist.refl _, fun _ _ => rfl, rfl, hm⟩

/-- Writing to a context that is not in the list, or without touching its entities. -/
theorem setUeContext_shrinks (s : RlcState β) (c : RlcUeContext β)
    (h : a ∈ s.gRlcUeContextList → c.rxAmEntityArray = (s.rlcUeContext a).rxAmEntityArray) :
    Shrinks s (s.setUeContext a c) := by
  refine ⟨rfl, List.Sublist.refl _, fun b hb => ?_, rfl, .refl s.mem⟩
  show (Function.update s.rlcUeContext a c b).rxAmEntityArray = _
  by_cases hba : b = a
  · subst hba
    rw [Function.update_self]
    exact h hb
  · rw [Function.update_of_ne hba]

theorem rlcDeleteUeContext_shrinks (hnot : a ∉ s.gRlcUeContextList.erase a) :
    Shrinks s (rlcDeleteUeContext s a) := by
  have hat : ∀ (l : List Nat) (v : RlcState β), a ∉ v.gRlcUeContextList →
      Shrinks v (l.foldl (rlcDeleteEntityAt a) v) := by
    intro l
    induction l with
    | nil => exact fun v _ => .refl v
    | cons i l ih =>
        intro v hv
        have h1 : Shrinks v (rlcDeleteRxAmEntity v ((v.rlcUeContext a).rxAmEntityArray i)) :=
          .of_onlyMem (rlcDeleteRxAmEntity_onlyMem v _) (rlcDeleteRxAmEntity_released v _)
        have h2 : Shrinks v (rlcDeleteEntityAt a v i) :=
          h1.trans (setUeContext_shrinks _ _ fun hmem => absurd (h1.list.subset hmem) hv)
        exact h2.trans (ih _ fun hmem => hv (h2.list.subset hmem))
  have hunlink : Shrinks s { s with gRlcUeContextList := s.gRlcUeContextList.erase a } :=
    ⟨rfl, List.erase_sublist, fun _ _ => rfl, rfl, .refl s.mem⟩
  refine (hunlink.trans (hat (List.range maxLcId) _ hnot)).trans ?_
  exact .of_onlyMem (free_memWorks _ a).only (release_released _ a)

theorem cleanupContext_shrinks (g : UInt32) (hn : s.gRlcUeContextList.Nodup) :
    Shrinks s (cleanupContext g s a) := by
  unfold cleanupContext
  simp only
  split
  · refine (setUeContext_shrinks (a := a) s
      { s.rlcUeContext a with deleteFlag := true } fun _ => rfl).trans ?_
    exact rlcDeleteUeContext_shrinks hn.not_mem_erase
  · exact setUeContext_shrinks s _ fun _ => rfl

/-- **The cleanup** leaves the incomplete SDUs alone that it does not delete. -/
theorem executeCleanup_shrinks (g : UInt32) (hn : s.gRlcUeContextList.Nodup) :
    Shrinks s (executeCleanup g s) := by
  have hloop : ∀ (l : List β) (v : RlcState β), v.gRlcUeContextList.Nodup →
      Shrinks v (l.foldl (cleanupContext g) v) := by
    intro l
    induction l with
    | nil => exact fun v _ => .refl v
    | cons a l ih =>
        intro v hv
        have h1 := cleanupContext_shrinks (a := a) g hv
        exact h1.trans (ih _ (hv.sublist h1.list))
  exact hloop _ s hn

theorem Shrinks.oldRaws (h : Shrinks s t) : OldRaws s t := by
  intro e he
  obtain ⟨a, ha, hea⟩ := mem_entities.mp he
  right
  constructor
  · refine mem_entities.mpr ⟨a, h.list.subset ha, ?_⟩
    rw [mem_contextEntities] at hea ⊢
    rwa [h.array a ha] at hea
  · rw [rawBuffer, h.entity, rawBuffer]

end Others

/-! ## Runs -/

/-- Any state in which the layers are sound and there is no RLC context. -/
structure FirstState (s : RlcState β) : Prop where
  rlc : RlcSound s
  rrc : RrcSound s.toRrcState s.rlcOwned
  empty : s.gRlcUeContextList = []

/-- The runs of the layer: MAC allocates buffers for packets and fills them, hands over
packets, and cleanup passes come in between, in any order. `pending` are the packets that
are still to be handed over, with their lengths. A packet that finds an entity meets the
condition `P`. -/
inductive RawRun (env : Platform β)
    (P : RlcState β → β → AmdHeader → RlcUlDataInfo β → Prop) :
    RlcState β → List (β × UInt16) → Prop
  | first {s : RlcState β} : FirstState s → RawRun env P s []
  | buffer {s t : RlcState β} {pending : List (β × UInt16)} {n : UInt16} {b : β} :
      RawRun env P s pending → s.alloc env n.toNat = (t, some b) → (data : Nat → UInt8) →
      RawRun env P (t.onMem fun m => m.write b data n.toNat) ((b, n) :: pending)
  | noBuffer {s t : RlcState β} {pending : List (β × UInt16)} {n : UInt16} :
      RawRun env P s pending → s.alloc env n.toNat = (t, none) → RawRun env P t pending
  | packet {s : RlcState β} {pending : List (β × UInt16)} {b : β} {n : UInt16} (lcId : Nat)
      (rnti : UInt16) : RawRun env P s pending → (b, n) ∈ pending →
      (∀ t e h, rlcFindEntity env s ⟨lcId, n.toNat, some b⟩ rnti = (t, some (e, h)) →
        P t e h ⟨lcId, n.toNat, some b⟩) →
      RawRun env P (rlcProcessAmRxPacket env s ⟨lcId, n.toNat, some b⟩ rnti)
        (pending.erase (b, n))
  | noPacket {s : RlcState β} {pending : List (β × UInt16)} (lcId : Nat) (n rnti : UInt16) :
      RawRun env P s pending →
      RawRun env P (rlcProcessAmRxPacket env s ⟨lcId, n.toNat, none⟩ rnti) pending
  | cleanup {s : RlcState β} {pending : List (β × UInt16)} (gMaxIdleCount : UInt32) :
      RawRun env P s pending → RawRun env P (executeCleanup gMaxIdleCount s) pending

/-- The blocks of the packets to come. -/
def pendingBlocks (pending : List (β × UInt16)) : Multiset β :=
  (pending : Multiset (β × UInt16)).map Prod.fst

/-- What holds in every state of a run. -/
structure RunOk (room : Capacity env.toPolicy) (s : RlcState β) (pending : List (β × UInt16)) :
    Prop where
  rlc : RlcSound s
  rrc : RrcSound s.toRrcState (s.rlcOwned + pendingBlocks pending)
  raws : ∀ e ∈ s.entities, (rawBuffer s e).Held room s.mem
  packets : ∀ p ∈ pending, s.mem.length p.1 = p.2.toNat ∧ p.2.toNat ≤ room.of p.1

section Runs

variable {s t : RlcState β} {e b p : β} {ys : Multiset β} {room : Capacity env.toPolicy}
  {pending : List (β × UInt16)}

theorem raw_inUse (hr : RrcSound s.toRrcState (s.rlcOwned + ys)) (he : e ∈ s.entities)
    (hp : (rawBuffer s e).pData = some p) : p ∈ s.mem.inUse := by
  refine Multiset.mem_of_le (rlcOwned_le hr) ?_
  have hmem : p ∈ s.entities.bind (rawBlock s) :=
    Multiset.mem_bind.mpr ⟨e, he, mem_rawBlock.mpr hp⟩
  simp [RlcState.rlcOwned, hmem]

theorem pending_inUse {x : β × UInt16}
    (hr : RrcSound s.toRrcState (s.rlcOwned + pendingBlocks pending)) (hx : x ∈ pending) :
    x.1 ∈ s.mem.inUse := by
  refine Multiset.mem_of_le (inHand_le hr) (Multiset.mem_add.mpr (Or.inr ?_))
  exact Multiset.mem_map_of_mem Prod.fst (Multiset.mem_coe.mpr hx)

/-- A step that makes no incomplete SDU and leaves the blocks as long as they are. -/
theorem RunOk.old (h : RunOk room s pending) (hs : RlcSound t)
    (hr : RrcSound t.toRrcState (t.rlcOwned + pendingBlocks pending)) (hraws : OldRaws s t)
    (hlen : ∀ b ∈ s.mem.inUse, b ∈ t.mem.inUse → t.mem.length b = s.mem.length b) :
    RunOk room t pending := by
  refine ⟨hs, hr, fun e he p hp => ?_, fun x hx => ?_⟩
  · rcases hraws e he with hnone | ⟨hes, heq⟩
    · rw [hnone] at hp
      cases hp
    · have hin := raw_inUse hr he hp
      rw [heq] at hp ⊢
      rw [hlen p (raw_inUse h.rrc hes hp) hin]
      exact h.raws e hes p hp
  · rw [hlen x.1 (pending_inUse h.rrc hx) (pending_inUse hr hx)]
    exact h.packets x hx

/-- **The invariant follows** from what holds in the states of a run. -/
theorem RunOk.rawSdusOk (h : RunOk room s pending) :
    RawSdusOk room s (pendingBlocks pending) := by
  have hrings : s.entities.bind (ringBlocks s) = 0 := by
    rw [Multiset.bind_congr (g := fun _ => (0 : Multiset β)) fun x hx => ?_]
    · simp
    · unfold ringBlocks
      simp [h.rlc.rings x hx]
  intro e he p hp
  obtain ⟨hlen, hcap⟩ := h.raws e he p hp
  refine ⟨raw_inUse h.rrc he hp, ?_, hlen, hcap⟩
  have hle : s.references + pendingBlocks pending ≤ s.mem.inUse := by
    have howned := h.rrc.owned
    rw [RlcState.references, hrings, add_zero, add_assoc]
    exact howned
  have hmem : p ∈ s.references + pendingBlocks pending := by
    have hraw : p ∈ s.entities.bind (rawBlock s) :=
      Multiset.mem_bind.mpr ⟨e, he, mem_rawBlock.mpr hp⟩
    simp [RlcState.references, RlcState.rlcOwned, hraw]
  exact Multiset.count_eq_one_of_mem (Multiset.nodup_of_le hle h.rrc.nodup) hmem

/-! ### The steps -/

theorem FirstState.runOk (h : FirstState s) : RunOk room s [] := by
  have hnone : s.entities = 0 := by
    unfold RlcState.entities
    rw [h.empty]
    rfl
  refine ⟨h.rlc, ?_, ?_, by simp⟩
  · show RrcSound s.toRrcState (s.rlcOwned + 0)
    rw [add_zero]
    exact h.rrc
  · rw [hnone]
    simp

/-- A buffer is allocated and filled. -/
theorem RunOk.buffer (h : RunOk room s pending) {n : UInt16} (data : Nat → UInt8)
    (ha : s.alloc env n.toNat = (t, some b)) :
    RunOk room (t.onMem fun m => m.write b data n.toNat) ((b, n) :: pending) := by
  have hw : MemWorks s (t.onMem fun m => m.write b data n.toNat) 0 {b} :=
    (alloc_memWorks ha).seq (.onMem (write_transfer t.mem b data n.toNat))
  obtain ⟨hfresh, hlen, -, -⟩ := alloc_fresh ha
  have hpending : pendingBlocks ((b, n) :: pending) = {b} + pendingBlocks pending := by
    simp [pendingBlocks]
  have hextends := alloc_extends ha
  obtain ⟨hs, hr⟩ := hw.receives.sound (zero_add _).symm hextends.joins h.rlc h.rrc
  rw [← hpending] at hr
  have hold : RunOk room t pending := by
    have ht := (alloc_memWorks ha).receives.sound (zero_add _).symm hextends.joins h.rlc h.rrc
    refine h.old ht.1 ?_ hextends.raws fun c hc _ => (hextends.mem c hc).1
    have hrt := ht.2
    rw [blockOf_some, add_comm ({b} : Multiset β), ← add_assoc] at hrt
    exact hrt.drop
  refine ⟨hs, hr, hold.raws, fun x hx => ?_⟩
  rcases List.mem_cons.mp hx with rfl | hx
  · refine ⟨?_, alloc_hasRoom room ha⟩
    show t.mem.length b = n.toNat
    rw [hlen, Nat.mod_eq_of_lt n.toNat_lt]
  · exact hold.packets x hx

theorem RunOk.noBuffer (h : RunOk room s pending) {n : Nat} (ha : s.alloc env n = (t, none)) :
    RunOk room t pending := by
  have hextends := alloc_extends ha
  obtain ⟨hs, hr⟩ :=
    (alloc_memWorks ha).receives.sound (zero_add _).symm hextends.joins h.rlc h.rrc
  rw [blockOf_none, zero_add] at hr
  exact h.old hs hr hextends.raws fun c hc _ => (hextends.mem c hc).1

/-- A cleanup pass. -/
theorem RunOk.cleanup (h : RunOk room s pending) (g : UInt32) :
    RunOk room (executeCleanup g s) pending := by
  have hshrinks := executeCleanup_shrinks g (contexts_nodup h.rrc)
  obtain ⟨hs, hr⟩ :=
    (executeCleanup_receives g s).sound (zero_add _).symm hshrinks.joins h.rlc h.rrc
  rw [zero_add] at hr
  exact h.old hs hr hshrinks.oldRaws fun c _ hc => (hshrinks.mem h.rrc.nodup).2 c hc |>.2

theorem pendingBlocks_erase {n : UInt16} (hx : (b, n) ∈ pending) :
    pendingBlocks pending = {b} + pendingBlocks (pending.erase (b, n)) := by
  have hperm : (pending : Multiset (β × UInt16)) = (b, n) ::ₘ (pending.erase (b, n) : List _) := by
    rw [Multiset.cons_coe]
    exact Multiset.coe_eq_coe.mpr (List.perm_cons_erase hx)
  rw [pendingBlocks, hperm, Multiset.map_cons, ← Multiset.singleton_add, pendingBlocks]

/-- A packet is released. -/
theorem RunOk.free (h : RunOk room s pending) {n : UInt16} (hx : (b, n) ∈ pending) :
    RunOk room (s.free b) (pending.erase (b, n)) := by
  have hpending := pendingBlocks_erase hx
  obtain ⟨hs, hr⟩ := (free_receives s b).sound hpending rfl h.rlc h.rrc
  rw [zero_add] at hr
  have hdrop : RunOk room s (pending.erase (b, n)) := by
    refine ⟨h.rlc, ?_, h.raws, fun x hmem => h.packets x (List.mem_of_mem_erase hmem)⟩
    have hrr := h.rrc
    rw [hpending, add_comm ({b} : Multiset β), ← add_assoc] at hrr
    exact hrr.drop
  exact hdrop.old hs hr (.of_eq rfl rfl) fun c _ hc =>
    ((release_released s.mem b) h.rrc.nodup).2 c hc |>.2

/-- Without data there is nothing to do. -/
theorem rlcProcessAmRxPacket_noData (env : Platform β) (s : RlcState β) (lcId length : Nat)
    (rnti : UInt16) : rlcProcessAmRxPacket env s ⟨lcId, length, none⟩ rnti = s := by
  unfold rlcProcessAmRxPacket
  split <;> rfl

/-- A packet that has found its entity. -/
theorem RunOk.amdPdu (h : RunOk room s pending) {n : UInt16} {lcId : Nat} {hd : AmdHeader}
    (hx : (b, n) ∈ pending) (he : e ∈ s.entities) (h2 : 2 ≤ n.toNat)
    (hok : PacketJoins env s e hd ⟨lcId, n.toNat, some b⟩) :
    RunOk room (rlcProcessAmdPdu env s e hd ⟨lcId, n.toNat, some b⟩)
      (pending.erase (b, n)) := by
  have hpending := pendingBlocks_erase hx
  have hring := h.rlc.rings e he
  -- all other blocks: contexts, entities, the other incomplete SDUs and the other packets
  obtain ⟨rest, hrest⟩ := Multiset.exists_cons_of_mem he
  obtain ⟨w, hw⟩ := Multiset.le_iff_exists_add.mp h.rrc.owned
  obtain ⟨xs, hxs⟩ : ∃ xs : Multiset β, xs = (s.gMacUeContext : Multiset β)
      + ((s.gRlcUeContextList : Multiset β) + s.entities) + rest.bind (rawBlock s)
      + pendingBlocks (pending.erase (b, n)) + w := ⟨_, rfl⟩
  have hraws : s.entities.bind (rawBlock s) = rawBlock s e + rest.bind (rawBlock s) := by
    rw [hrest, Multiset.cons_bind]
  have hu : InHand s e ({b} + xs) := by
    refine ⟨h.rrc.nodup, ?_⟩
    rw [hw, RlcState.rlcOwned, hraws, hpending, hxs]
    ac_rfl
  have hpacked : Packed room s.mem ⟨lcId, n.toNat, some b⟩ b :=
    ⟨rfl, pending_inUse h.rrc hx, (h.packets _ hx).1, (h.packets _ hx).2, n.toNat_lt⟩
  have hkeeps := rlcProcessAmdPdu_keepsRaw hring hpacked h2 hu (h.raws e he) hok
  have huses : Uses s (rlcProcessAmdPdu env s e hd ⟨lcId, n.toNat, some b⟩) e {b} := by
    rw [rlcProcessAmdPdu, if_pos (by rw [hring])]
    exact rlcProcessNewAmdPdu_uses env hd ⟨lcId, n.toNat, some b⟩ (hring _)
  obtain ⟨hs, hr⟩ := (rlcEntityPacket_receives env s hd ⟨lcId, n.toNat, some b⟩ he).sound
    hpending hkeeps.refusedJoins h.rlc h.rrc
  rw [zero_add] at hr
  refine ⟨hs, hr, fun x hmem => ?_, fun x hmem => ?_⟩
  · have hent : (rlcProcessAmdPdu env s e hd ⟨lcId, n.toNat, some b⟩).entities = s.entities := by
      unfold RlcState.entities
      rw [huses.only.rlcUeContext, huses.only.gRlcUeContextList]
    rw [hent] at hmem
    by_cases hxe : x = e
    · rw [hxe]
      exact hkeeps.held
    · have hold : x ∈ rest := by
        rw [hrest] at hmem
        exact (Multiset.mem_cons.mp hmem).resolve_left hxe
      intro p hp
      rw [rawBuffer, huses.only.entity x hxe] at hp ⊢
      have hpx : p ∈ xs := by
        have hraw : p ∈ rest.bind (rawBlock s) :=
          Multiset.mem_bind.mpr ⟨x, hold, mem_rawBlock.mpr hp⟩
        simp [hxs, hraw]
      rw [hkeeps.length p hpx]
      exact h.raws x hmem p hp
  · have hpx : x.1 ∈ xs := by
      have hblock : x.1 ∈ pendingBlocks (pending.erase (b, n)) :=
        Multiset.mem_map_of_mem Prod.fst (Multiset.mem_coe.mpr hmem)
      simp [hxs, hblock]
    rw [hkeeps.length x.1 hpx]
    exact h.packets x (List.mem_of_mem_erase hmem)

/-- **A packet is handed over.** -/
theorem RunOk.packet (h : RunOk room s pending) {n : UInt16} (lcId : Nat) (rnti : UInt16)
    (hx : (b, n) ∈ pending)
    (hok : ∀ t e hd, rlcFindEntity env s ⟨lcId, n.toNat, some b⟩ rnti = (t, some (e, hd)) →
      PacketJoins env t e hd ⟨lcId, n.toNat, some b⟩) :
    RunOk room (rlcProcessAmRxPacket env s ⟨lcId, n.toNat, some b⟩ rnti)
      (pending.erase (b, n)) := by
  rw [rlcProcessAmRxPacket_findEntity]
  cases hf : rlcFindEntity env s ⟨lcId, n.toNat, some b⟩ rnti with
  | mk t r =>
      obtain ⟨hreceives, hextends, hent⟩ := rlcFindEntity_spec h.rlc h.rrc hf
      obtain ⟨hs, hr⟩ := hreceives.sound (zero_add _).symm hextends.joins h.rlc h.rrc
      rw [zero_add] at hr
      have ht : RunOk room t pending :=
        h.old hs hr hextends.raws fun c hc _ => (hextends.mem c hc).1
      cases r with
      | none => exact ht.free hx
      | some found =>
          obtain ⟨e, hd⟩ := found
          obtain ⟨he, h2⟩ := hent e hd rfl
          exact ht.amdPdu hx he h2 (hok t e hd hf)

/-- **Runs.** -/
theorem run_ok (room : Capacity env.toPolicy)
    (hrun : RawRun env (PacketJoins env) s pending) : RunOk room s pending := by
  induction hrun with
  | first h => exact h.runOk
  | buffer _ ha data ih => exact ih.buffer data ha
  | noBuffer _ ha ih => exact ih.noBuffer ha
  | packet lcId rnti _ hx hok ih => exact ih.packet lcId rnti hx hok
  | noPacket lcId n rnti _ ih =>
      rw [rlcProcessAmRxPacket_noData]
      exact ih
  | cleanup g _ ih => exact ih.cleanup g

/-- **The raw SDU invariant**, in every run in which no fragment that continues an incomplete
SDU is refused its join, and no middle one makes it longer than 65535 bytes. -/
theorem run_keepsRawSdus (env : Platform β) (room : Capacity env.toPolicy) (s : RlcState β)
    (pending : List (β × UInt16)) (hrun : RawRun env (PacketJoins env) s pending) :
    RawSdusOk room s (pendingBlocks pending) :=
  (run_ok room hrun).rawSdusOk

end Runs

/-! ### Two runs -/

open Mempool in
/-- The pools of the 64-bit build, with blocks enough: the address of a block tells its size.
No memory is found at the times that `refuses`. -/
def poolPolicy (refuses : Nat → Bool) : Policy Nat where
  choose t us n :=
    if refuses t then none
    else (findMatchPool (gMemPoolConfig true) n).map fun i =>
      (us.sum + 1) * 2 ^ 20 + (gMemPoolConfig true i).size
  size b := b % 2 ^ 20 % 2 ^ 16
  fresh := by
    intro t us n b h hb
    have hle : b ≤ us.sum := Multiset.le_sum_of_mem hb
    split at h
    · cases h
    · obtain ⟨i, -, rfl⟩ := Option.map_eq_some_iff.mp h
      omega

def poolPlatform (refuses : Nat → Bool) : Platform Nat :=
  { poolPolicy refuses with
    sizeof := fun _ => 64
    leftover := fun _ => default }

open Mempool in
/-- The sizes of the blocks, of which the headers record 16 bits. -/
def poolCapacity (refuses : Nat → Bool) : Capacity (poolPlatform refuses).toPolicy where
  of b := b % 2 ^ 20
  alloc := by
    intro t us n b h
    simp only [poolPlatform, poolPolicy] at h
    split at h
    · cases h
    · obtain ⟨i, hi, rfl⟩ := Option.map_eq_some_iff.mp h
      have hle : n ≤ (gMemPoolConfig true i).size := by simpa using List.find?_some hi
      have hlt : i < maxNumPoolSize := List.mem_range.mp (List.mem_of_find?_eq_some hi)
      have hsize : ∀ j < maxNumPoolSize, (gMemPoolConfig true j).size < 2 ^ 20 := by decide
      have hmod := hsize i hlt
      omega
  size _ := Nat.mod_le _ _
  bound b := by omega

/-- No context, and nothing allocated. -/
def emptyState : RlcState Nat :=
  { entityState with
    toRrcState := freshState
    gMacUeContext := []
    gRlcUeContextList := [] }

theorem emptyState_first : FirstState emptyState where
  rlc := ⟨⟨by simp [emptyState], by simp [emptyState]⟩, by simp [emptyState],
    by simp [emptyState], by simp [emptyState], by simp [emptyState, RlcState.entities]⟩
  rrc := ⟨Multiset.nodup_zero, by decide, by simp [emptyState, freshState],
    by simp [emptyState, freshState]⟩
  empty := rfl

/-- A buffer for a packet, with the packet in it. -/
def packetBlock (env : Platform Nat) (s : RlcState Nat) (n : UInt16) : Nat :=
  (s.alloc env n.toNat).2.getD 0

def packetState (env : Platform Nat) (s : RlcState Nat) (n : UInt16) (data : Nat → UInt8) :
    RlcState Nat :=
  (s.alloc env n.toNat).1.onMem fun m => m.write (packetBlock env s n) data n.toNat

/-- The state after a packet for SRB 1 of the RNTI 61. -/
def afterSrb1 (env : Platform Nat) (s : RlcState Nat) (n : UInt16) (data : Nat → UInt8) :
    RlcState Nat :=
  rlcProcessAmRxPacket env (packetState env s n data)
    ⟨1, n.toNat, some (packetBlock env s n)⟩ 61

/-- The buffer of the packet, and the state with the packet in it. -/
theorem packet_of_alloc {env : Platform Nat} {s : RlcState Nat} {n : UInt16}
    (data : Nat → UInt8) (ha : (s.alloc env n.toNat).2.isSome) :
    ∃ b, packetBlock env s n = b ∧ s.alloc env n.toNat = ((s.alloc env n.toNat).1, some b) ∧
      packetState env s n data
        = (s.alloc env n.toNat).1.onMem fun m => m.write b data n.toNat := by
  obtain ⟨b, hb⟩ := Option.isSome_iff_exists.mp ha
  have hblock : packetBlock env s n = b := by rw [packetBlock, hb, Option.getD_some]
  exact ⟨b, hblock, Prod.ext rfl hb, by rw [packetState, hblock]⟩

/-- A packet, as two steps of a run. -/
theorem RawRun.srb1 {env : Platform Nat} {s : RlcState Nat}
    {P : RlcState Nat → Nat → AmdHeader → RlcUlDataInfo Nat → Prop} (hrun : RawRun env P s [])
    (n : UInt16) (data : Nat → UInt8) (ha : (s.alloc env n.toNat).2.isSome)
    (hP : ∀ t e hd, rlcFindEntity env (packetState env s n data)
      ⟨1, n.toNat, some (packetBlock env s n)⟩ 61 = (t, some (e, hd)) →
        P t e hd ⟨1, n.toNat, some (packetBlock env s n)⟩) :
    RawRun env P (afterSrb1 env s n data) [] := by
  obtain ⟨b, hblock, hb, hstate⟩ := packet_of_alloc data ha
  have h1 := hrun.buffer hb data
  rw [← hstate] at h1
  rw [hblock] at hP
  have h2 := h1.packet 1 61 List.mem_cons_self hP
  rw [List.erase_cons_head] at h2
  rw [afterSrb1, hblock]
  exact h2

/-- A first fragment of 120 bytes in the PDU 0 and a middle one in the PDU 1. -/
def startPdu (k : Nat) : UInt8 := if k = 0 then 0x88 else 0
def midPdu (k : Nat) : UInt8 := if k = 0 then 0x98 else if k = 1 then 1 else 0

instance (env : Platform Nat) (s : RlcState Nat) (e sn : Nat) (dfe : AmdDfe Nat) :
    Decidable (FieldJoins env s e sn dfe) :=
  decidable_of_iff
    (((rawBuffer s e).pData.isSome →
        continues sn dfe.status (s.rxAmEntity e).rxRawSdu.sn = true →
        (joinRaw env s (s.rxAmEntity e).rxRawSdu dfe).2.isSome) ∧
      (dfe.status = amPduMapSduMid → (rawBuffer s e).pData.isSome →
        continues sn amPduMapSduMid (s.rxAmEntity e).rxRawSdu.sn = true →
        (rawBuffer s e).size.toNat + dfe.buffer.size.toNat < 2 ^ 16))
    ⟨fun ⟨h1, h2⟩ => ⟨h1, h2⟩, fun h => ⟨h.granted, h.short⟩⟩

instance (env : Platform Nat) (s : RlcState Nat) (e : Nat) (h : AmdHeader)
    (info : RlcUlDataInfo Nat) : Decidable (PacketJoins env s e h info) :=
  inferInstanceAs (Decidable (∀ d ∈ (pduFields env s h info).head?, _))

/-- The condition, for the entity that the lookup finds. -/
theorem packetJoins_found {env : Platform Nat} {s : RlcState Nat} {info : RlcUlDataInfo Nat}
    {rnti : UInt16}
    (h : ∀ x ∈ (rlcFindEntity env s info rnti).2,
      PacketJoins env (rlcFindEntity env s info rnti).1 x.1 x.2 info) :
    ∀ t e hd, rlcFindEntity env s info rnti = (t, some (e, hd)) →
      PacketJoins env t e hd info := by
  intro t e hd hf
  rw [hf] at h
  exact h (e, hd) rfl

/-- The entity for SRB 1, if there is one. -/
def srb1Entity (s : RlcState Nat) : Nat :=
  ((s.rlcUeContext (s.gRlcUeContextList.headD 0)).rxAmEntityArray 1).getD 0

/-- An SDU of two fragments so far, in one block. -/
theorem run_keepsRawSdus_twoFragments :
    ∃ s, RawSdusOk (poolCapacity fun _ => false) s 0 ∧ srb1Entity s ∈ s.entities ∧
      (rawBuffer s (srb1Entity s)).pData.isSome ∧ (rawBuffer s (srb1Entity s)).size = 240 := by
  have h0 : RawRun (poolPlatform fun _ => false)
      (PacketJoins (poolPlatform fun _ => false)) emptyState [] := .first emptyState_first
  have h1 := h0.srb1 122 startPdu (by decide +kernel) (packetJoins_found (by decide +kernel))
  have h2 := h1.srb1 122 midPdu (by decide +kernel) (packetJoins_found (by decide +kernel))
  exact ⟨_, run_keepsRawSdus _ (poolCapacity fun _ => false) _ _ h2, by decide +kernel,
    by decide +kernel, by decide +kernel⟩

/-- There is no memory for the second fragment. -/
theorem rawSdu_dangling :
    ¬ ∀ (s : RlcState Nat) (pending : List (Nat × UInt16)),
      RawRun (poolPlatform (· == 10)) (fun _ _ _ _ => True) s pending →
        RawSdusOk (poolCapacity (· == 10)) s (pendingBlocks pending) := by
  intro hall
  have h0 : RawRun (poolPlatform (· == 10)) (fun _ _ _ _ => True) emptyState [] :=
    .first emptyState_first
  have h1 := h0.srb1 122 startPdu (by decide +kernel) fun _ _ _ _ => trivial
  have h2 := h1.srb1 122 midPdu (by decide +kernel) fun _ _ _ _ => trivial
  obtain ⟨s, hs⟩ : ∃ s, s = afterSrb1 (poolPlatform (· == 10))
      (afterSrb1 (poolPlatform (· == 10)) emptyState 122 startPdu) 122 midPdu := ⟨_, rfl⟩
  have hent : srb1Entity s ∈ s.entities := by
    rw [hs]
    decide +kernel
  have hsome : (rawBuffer s (srb1Entity s)).pData
      = some ((rawBuffer s (srb1Entity s)).pData.getD 0) := by
    rw [hs]
    decide +kernel
  have hreleased : (rawBuffer s (srb1Entity s)).pData.getD 0 ∉ s.mem.inUse := by
    rw [hs]
    decide +kernel
  rw [← hs] at h2
  exact hreleased (hall s [] h2 _ hent _ hsome).inUse

end LteUlp.Rlc
