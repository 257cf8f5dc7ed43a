import LteUlp.Rlc.Delivery

set_option autoImplicit false

/-! # From the sender to PDCP

The PDUs of a `Segmentation` reach the receiver, whose machine hands SDUs to PDCP.

* In order, none lost or repeated, they give the SDUs that are complete, and what there is of
  the next one is kept (`rlcProcessAmRxPacket_inOrder`).
* In any order, with losses and repetitions, SDUs are mixed up: the end of an SDU that is
  received again is taken for the continuation of the SDU that begins in the same PDU
  (`rlcProcessAmRxPacket_mixes`). As long as the number of a PDU is not mistaken so, only SDUs
  that were sent are delivered (`rlcProcessAmRxPacket_unmixed`).
-/

namespace LteUlp.Rlc

open BlockStore Fragments LteUlp.Rrc LteUlp.Mac LteUlp.Pdcp RlcSduStatus

/-! ## PDUs as the decoder finds them -/

/-- A PDU with the bytes of its fields. -/
def Segmentation.decoded (g : Segmentation) (i : Nat) : Nat × List (RlcSduStatus × List UInt8) :=
  (g.sn i, (g.pdu i).map fun f => (fieldStatus f, f.data))

section Decoded

variable {g : Segmentation} {i k sn : Nat} {f : Fragment UInt8} {b : Bool}
  {pdu l : List (Fragment UInt8)} {raw : Option (Partial (List UInt8))}

theorem Trace.bytes_join (x y : Trace) : (x.join y).bytes = x.bytes ++ y.bytes :=
  symbols_append x.fields y.fields

theorem decoded_received (g : Segmentation) (i : Nat) :
    ((g.received i).1, (g.received i).2.map (fieldMap Trace.bytes)) = g.decoded i := by
  refine Prod.ext rfl ?_
  show (Segmentation.receivedFields i (g.pdu i)).map (fieldMap Trace.bytes) = _
  rw [Segmentation.receivedFields, List.map_map]
  refine List.map_congr_left fun f _ => ?_
  simp [fieldMap, Trace.bytes]

/-- The bytes are those of the fields. -/
theorem receiveAll_decoded (g : Segmentation) (is : List Nat) :
    receiveAll (· ++ ·) none (is.map g.decoded)
      = ((receiveAll Trace.join none (is.map g.received)).1.map (Partial.map Trace.bytes),
          (receiveAll Trace.join none (is.map g.received)).2.map Trace.bytes) := by
  have h := receiveAll_map Trace.bytes_join none (is.map g.received)
  rw [List.map_map, Option.map_none] at h
  rw [← h]
  congr 2
  exact funext fun i => (decoded_received g i).symm

/-- All fields but the first one begin an SDU. -/
theorem tail_first (hal : Aligned b (f :: pdu))
    (hlast : ∀ x ∈ (f :: pdu).dropLast, x.last = true) : ∀ x ∈ pdu, x.first = true := by
  induction pdu generalizing f b with
  | nil => simp
  | cons y pdu ih =>
      obtain ⟨-, hal⟩ := hal
      have hf : f.last = true := hlast f (by simp)
      intro x hx
      rcases List.mem_cons.mp hx with rfl | hx
      · exact hal.1.trans hf
      · exact ih hal (dropLast_tail hlast) x hx

/-- Fields that begin SDUs make none longer. -/
theorem shortFields_of_first (h : ∀ x ∈ pdu, x.first = true) :
    ShortFields sn raw (pdu.map fun f => (fieldStatus f, f.data)) := by
  induction pdu generalizing raw with
  | nil => trivial
  | cons f pdu ih =>
      refine ⟨fun p _ hseq => ?_, ih fun x hx => h x (List.mem_cons_of_mem f hx)⟩
      rw [fieldStatus_of_first (h f List.mem_cons_self)] at hseq
      cases hseq

/-- It is enough to look at the first field of a PDU. -/
theorem shortFields_decoded (hi : i < g.pdus.length)
    (h : ∀ p ∈ raw, ∀ f ∈ (g.pdu i).head?, continues (g.sn i) (fieldStatus f) p.sn = true →
      p.data.length + f.data.length < 2 ^ 16) :
    ShortFields (g.decoded i).1 raw (g.decoded i).2 := by
  have hal := pdu_aligned hi
  have hlast := g.completes _ (pdu_mem hi)
  obtain ⟨f, pdu, hpdu⟩ := List.exists_cons_of_ne_nil (g.fields_ne _ (pdu_mem hi))
  show ShortFields (g.sn i) raw ((g.pdu i).map fun f => (fieldStatus f, f.data))
  rw [hpdu] at hal hlast h ⊢
  refine ⟨fun p hp hseq => ?_, shortFields_of_first (tail_first hal hlast)⟩
  exact h p hp f rfl hseq

/-- A field is not longer than its PDU. -/
theorem data_length_le (hf : f ∈ g.pdu i) : f.data.length ≤ (g.encode i).length := by
  have hmem : f.data.length ≤ (symbols (g.pdu i)).length :=
    (List.sublist_flatten_of_mem (List.mem_map_of_mem hf)).length_le
  have hlen : (symbols (g.pdu i)).length ≤ (g.encode i).length := by
    rw [Segmentation.encode, encodePdu, List.length_append]
    omega
  exact hmem.trans hlen

theorem range_isPrefix {l : List Nat} (h : l ++ [i] <+: List.range k) :
    i < k ∧ l = List.range i := by
  have hle := h.length_le
  rw [List.length_append, List.length_singleton, List.length_range] at hle
  rw [List.prefix_iff_eq_take, List.length_append, List.length_singleton, List.take_range,
    min_eq_left hle, List.range_succ] at h
  obtain ⟨hl, hi⟩ := List.append_inj' h rfl
  obtain rfl := List.singleton_inj.mp hi
  exact ⟨hle, hl⟩

/-- The PDUs before this one leave a part of an SDU. -/
theorem symbols_current (g : Segmentation) (i : Nat) :
    (regroup [] (g.before i)).1.map symbols
        = (arrived g.sdus (symbols (g.before i)).length).1 ∧
      symbols (g.current i) = (arrived g.sdus (symbols (g.before i)).length).2 :=
  regroup_arrived g.pieces_ne (before_isPrefix g i)

/-- Every field has data. -/
theorem current_eq_nil (g : Segmentation) (i : Nat) :
    symbols (g.current i) = [] ↔ g.current i = [] := by
  refine ⟨fun h => ?_, fun h => by rw [h, symbols_nil]⟩
  by_contra hne
  obtain ⟨f, l, hl⟩ := List.exists_cons_of_ne_nil hne
  have hmem : f ∈ g.before i := (regroup_suffix [] (g.before i)).subset (by
    show f ∈ g.current i
    rw [hl]
    exact List.mem_cons_self)
  obtain ⟨m, hm, hf⟩ := List.mem_flatMap.mp ((before_isPrefix g i).subset hmem)
  rw [hl, symbols_cons, List.append_eq_nil_iff] at h
  exact (g.pieces_ne m hm).2 _ (cut_data hf) h.1

/-- What the receiver keeps after PDUs in order. -/
theorem receiveAll_inOrder (hk : k ≤ g.pdus.length) :
    receiveAll (· ++ ·) none ((List.range k).map g.decoded)
      = ((g.keptOf (k - 1) (g.current k)).map (Partial.map Trace.bytes),
          (arrived g.sdus (symbols (g.before k)).length).1) := by
  obtain ⟨h1, h2⟩ := receive_inOrder g hk
  rw [receiveAll_decoded, h1, ← (symbols_current g k).1, ← h2, List.map_map]
  rfl

/-- There are PDUs if there are SDUs. -/
theorem pdus_ne_nil {sdu : List UInt8} (h : sdu ∈ g.sdus) : g.pdus ≠ [] := by
  intro hnil
  obtain ⟨m, hm, -⟩ := List.mem_map.mp h
  have hs := g.carried
  rw [hnil, List.flatten_nil, stream] at hs
  exact cut_ne_nil (g.pieces_ne m hm).1 (List.flatMap_eq_nil_iff.mp hs.symm m hm)

end Decoded

/-! ## In order -/

section InOrder

variable {β : Type} [DecidableEq β] {env : Platform β} {s₀ s : RlcState β} {ys : Multiset β}
  {rnti : UInt16} {lcId : Nat} {g : Segmentation}

/-- **PDUs in order.** Of `k` PDUs, with `n` bytes of data in them, PDCP gets the SDUs that
are complete, with their sizes, and the entity keeps what there is of the next one. -/
theorem rlcProcessAmRxPacket_inOrder (hlc : lcId = 1 ∨ lcId = 2)
    (h₀ : FreshChannel s₀ ys rnti lcId)
    (hsizes : ∀ sdu ∈ g.sdus, ∀ i < g.pdus.length, sdu.length + (g.encode i).length ≤ 65000)
    {k : Nat} (hk : k ≤ g.pdus.length)
    (hrun : ChannelRun env rnti lcId g.encode s₀ (List.range k) s)
    (hf : s.mem.failures = s₀.mem.failures) {n : Nat} (hn : n = (symbols (g.before k)).length) :
    s.rlcUeDataInds.map SduInd.delivery = s₀.rlcUeDataInds.map SduInd.delivery
        ++ (arrived g.sdus n).1.map (fun sdu => (rnti, lcId, UInt16.ofNat sdu.length, sdu)) ∧
      (∀ sdu ∈ g.sdus, (UInt16.ofNat sdu.length).toNat = sdu.length) ∧
      ChannelKeeps s rnti lcId
        (if (arrived g.sdus n).2 = [] then none
          else some ⟨g.sn (k - 1), (arrived g.sdus n).2⟩) := by
  have hle : lcId ≤ srb2LcId := by rcases hlc with rfl | rfl <;> decide
  have hdec : ∀ i ∈ List.range k, ∀ data : Nat → UInt8,
      (∀ j < (g.encode i).length, data j = (g.encode i).getD j 0) →
        Decodes data (g.encode i).length (g.decoded i).1 (g.decoded i).2 := by
    intro i hi data hdata
    exact g.encode_decodes ((List.mem_range.mp hi).trans_le hk) hdata
  have hshort : ∀ l i, l ++ [i] <+: List.range k →
      ShortFields (g.decoded i).1 (receiveAll (· ++ ·) none (l.map g.decoded)).1
        (g.decoded i).2 := by
    intro l i hl
    obtain ⟨hik, rfl⟩ := range_isPrefix hl
    have hi : i < g.pdus.length := hik.trans_le hk
    rw [receiveAll_inOrder hi.le]
    refine shortFields_decoded hi fun p hp f hfield _ => ?_
    have hfl := data_length_le (List.mem_of_mem_head? hfield)
    by_cases hcur : g.current i = []
    · rw [hcur, keptOf_nil] at hp
      cases hp
    -- what is kept is a part of an SDU
    have hne : (arrived g.sdus (symbols (g.before i)).length).2 ≠ [] := by
      rwa [← (symbols_current g i).2, Ne, current_eq_nil]
    obtain ⟨sdu, hsdu, hpre⟩ := arrived_short _ hne
    rw [keptOf_ne g _ hcur] at hp
    obtain rfl := Option.some.inj hp
    have hlen : (symbols (g.current i)).length ≤ sdu.length := by
      rw [(symbols_current g i).2]
      exact hpre.length_le
    calc (symbols (g.current i)).length + f.data.length
        ≤ sdu.length + (g.encode i).length := Nat.add_le_add hlen hfl
      _ ≤ 65000 := hsizes sdu hsdu i hi
      _ < 2 ^ 16 := by decide
  have hok := channelRun_receives hle h₀ hrun hf hdec hshort
  rw [receiveAll_inOrder hk, ← hn] at hok
  refine ⟨hok.calls, fun sdu hsdu => ?_, ?_⟩
  · have hpos := List.length_pos_iff.mpr (pdus_ne_nil hsdu)
    have hsize := hsizes sdu hsdu 0 hpos
    rw [UInt16.toNat_ofNat', Nat.mod_eq_of_lt]
    omega
  · have hkeeps := hok.keeps
    have hcur := (symbols_current g k).2
    rw [← hn] at hcur
    by_cases hnil : g.current k = []
    · rw [hnil, keptOf_nil] at hkeeps
      rwa [← hcur, if_pos ((current_eq_nil g k).mpr hnil)]
    · rw [keptOf_ne g _ hnil] at hkeeps
      rw [← hcur, if_neg (mt (current_eq_nil g k).mp hnil)]
      exact hkeeps

end InOrder

/-! ### Two SDUs in three PDUs -/

/-- Two SDUs of two bytes. The second PDU has the end of the first one and the beginning of
the second one. The numbers wrap around. -/
def twoSdus : Segmentation where
  pieces := [[[1], [2]], [[3], [4]]]
  pdus := [[⟨true, false, [1]⟩], [⟨false, true, [2]⟩, ⟨true, false, [3]⟩], [⟨false, true, [4]⟩]]
  firstSn := 1023
  poll _ := false
  pieces_ne := by decide
  carried := by decide
  fields_ne := by decide
  completes := by decide
  lengths := by decide
  count := by decide

theorem emptyState_fresh : FreshChannel emptyState 0 61 1 where
  rlc := emptyState_first.rlc
  rrc := by
    rw [add_zero]
    exact emptyState_first.rrc
  fresh := by simp [emptyState, RlcState.entities]

/-- The state after the PDU `i` for SRB 1 of the RNTI 61. -/
def afterTwoSdus (s : RlcState Nat) (i : Nat) : RlcState Nat :=
  afterSrb1 (poolPlatform fun _ => false) s (UInt16.ofNat (twoSdus.encode i).length)
    fun k => (twoSdus.encode i).getD k 0

theorem ChannelRun.next {is : List Nat} {s : RlcState Nat}
    (hrun : ChannelRun (poolPlatform fun _ => false) 61 1 twoSdus.encode emptyState is s)
    {i : Nat} (hi : i < 3)
    (ha : (s.alloc (poolPlatform fun _ => false) (twoSdus.encode i).length).2.isSome) :
    ChannelRun (poolPlatform fun _ => false) 61 1 twoSdus.encode emptyState (is ++ [i])
      (afterTwoSdus s i) := by
  have hlen : (twoSdus.encode i).length < 2 ^ 16 := by
    have hall : ∀ j < 3, (twoSdus.encode j).length < 2 ^ 16 := by decide
    exact hall i hi
  have hn : (UInt16.ofNat (twoSdus.encode i).length).toNat = (twoSdus.encode i).length := by
    rw [UInt16.toNat_ofNat', Nat.mod_eq_of_lt hlen]
  obtain ⟨b, hb⟩ := Option.isSome_iff_exists.mp ha
  have hblock : packetBlock (poolPlatform fun _ => false) s
      (UInt16.ofNat (twoSdus.encode i).length) = b := by
    rw [packetBlock, hn, hb, Option.getD_some]
  rw [afterTwoSdus, afterSrb1, packetState, hblock, hn]
  exact hrun.pdu i hlen (Prod.ext rfl hb)

/-- Both SDUs are delivered. -/
theorem rlcProcessAmRxPacket_inOrder_twoSdus :
    ∃ s : RlcState Nat,
      s.rlcUeDataInds.map SduInd.delivery = [(61, 1, 2, [1, 2]), (61, 1, 2, [3, 4])] ∧
      ChannelKeeps s 61 1 none := by
  have h1 := ChannelRun.start.next (i := 0) (by decide) (by decide +kernel)
  have h2 := h1.next (i := 1) (by decide) (by decide +kernel)
  have h3 := h2.next (i := 2) (by decide) (by decide +kernel)
  obtain ⟨hcalls, -, hkeeps⟩ := rlcProcessAmRxPacket_inOrder (Or.inl rfl) emptyState_fresh
    (by decide +kernel) (k := 3) (by decide) h3 (by decide +kernel) rfl
  exact ⟨_, hcalls, hkeeps⟩

/-! ## In any order -/

section AnyOrder

variable {β : Type} [DecidableEq β] {env : Platform β} {s₀ s : RlcState β} {ys : Multiset β}
  {rnti : UInt16} {lcId : Nat} {g : Segmentation} {is : List Nat}

/-- **PDUs in any order**, some of them lost, some of them more than once. What is delivered
are the fields of SDUs that were sent, all of them in order, if the PDU that is taken for the
next one of an incomplete SDU is the next one. -/
theorem rlcProcessAmRxPacket_unmixed (hlc : lcId ≤ srb2LcId) (h₀ : FreshChannel s₀ ys rnti lcId)
    (hlt : ∀ i ∈ is, i < g.pdus.length) (hrun : ChannelRun env rnti lcId g.encode s₀ is s)
    (hf : s.mem.failures = s₀.mem.failures)
    (hnext : ∀ l i, l ++ [i] <+: is → g.Follows (g.kept l) i) :
    ∃ ds : List (List (Fragment UInt8)), (∀ d ∈ ds, d ∈ g.pieces.map (cut true)) ∧
      s.rlcUeDataInds.map SduInd.delivery = s₀.rlcUeDataInds.map SduInd.delivery
        ++ bytesCalls (rnti, lcId) (ds.map symbols) := by
  have hdec : ∀ i ∈ is, ∀ data : Nat → UInt8,
      (∀ j < (g.encode i).length, data j = (g.encode i).getD j 0) →
        Decodes data (g.encode i).length (g.decoded i).1 (g.decoded i).2 :=
    fun i hi data hdata => g.encode_decodes (hlt i hi) hdata
  have hshort : ∀ l i, l ++ [i] <+: is →
      ShortFields (g.decoded i).1 (receiveAll (· ++ ·) none (l.map g.decoded)).1
        (g.decoded i).2 := by
    intro l i hl
    have hi : i ∈ is := hl.subset (by simp)
    rw [receiveAll_decoded]
    refine shortFields_decoded (hlt i hi) fun p hp f hfield hseq => ?_
    obtain ⟨x, hx, rfl⟩ := Option.mem_map.mp hp
    exact (hnext l i hl).short x hx f hfield hseq
  have hok := channelRun_receives hlc h₀ hrun hf hdec hshort
  rw [receiveAll_decoded] at hok
  refine ⟨(receiveAll Trace.join none (is.map g.received)).2.map Trace.fields, ?_, ?_⟩
  · intro d hd
    obtain ⟨x, hx, rfl⟩ := List.mem_map.mp hd
    exact (receive_traced hlt hnext).2 x hx
  · rw [hok.calls, List.map_map]
    rfl

end AnyOrder

instance (g : Segmentation) (raw : Option (Partial Trace)) (i : Nat) :
    Decidable (g.Follows raw i) :=
  decidable_of_iff
    ((∀ p ∈ raw, ∀ f ∈ (g.pdu i).head?, continues (g.sn i) (fieldStatus f) p.sn = true →
        i = p.data.pdu + 1) ∧
      ∀ p ∈ raw, ∀ f ∈ (g.pdu i).head?, continues (g.sn i) (fieldStatus f) p.sn = true →
        p.data.bytes.length + f.data.length < 2 ^ 16)
    ⟨fun ⟨h1, h2⟩ => ⟨h1, h2⟩, fun h => ⟨h.next, h.short⟩⟩

/-- A run, PDU by PDU. -/
theorem follows_all {g : Segmentation} {is : List Nat}
    (h : ∀ n < is.length, g.Follows (g.kept (is.take n)) (is.getD n 0)) :
    ∀ l i, l ++ [i] <+: is → g.Follows (g.kept l) i := by
  rintro l i ⟨r, rfl⟩
  have hl := h l.length (by simp)
  simpa using hl

/-- The last PDU comes too early, and the first one twice. -/
theorem rlcProcessAmRxPacket_unmixed_reordered :
    ∃ (s : RlcState Nat) (ds : List (List (Fragment UInt8))),
      (∀ d ∈ ds, d ∈ twoSdus.pieces.map (cut true)) ∧
      s.rlcUeDataInds.map SduInd.delivery = bytesCalls (61, 1) (ds.map symbols) ∧
      s.rlcUeDataInds.length = 2 := by
  have h1 := ChannelRun.start.next (i := 0) (by decide) (by decide +kernel)
  have h2 := h1.next (i := 2) (by decide) (by decide +kernel)
  have h3 := h2.next (i := 0) (by decide) (by decide +kernel)
  have h4 := h3.next (i := 1) (by decide) (by decide +kernel)
  have h5 := h4.next (i := 2) (by decide) (by decide +kernel)
  obtain ⟨ds, hds, hcalls⟩ := rlcProcessAmRxPacket_unmixed (by decide) emptyState_fresh
    (by decide) h5 (by decide +kernel) (follows_all (by decide +kernel))
  exact ⟨_, ds, hds, hcalls, by decide +kernel⟩

/-- The second PDU is received again: the end of the first SDU is put behind the beginning of
the second one. No PDU comes after one that is 512 numbers ahead of it. -/
theorem rlcProcessAmRxPacket_mixes :
    ¬ ∀ (g : Segmentation) (is : List Nat) (s : RlcState Nat), (∀ i ∈ is, i < g.pdus.length) →
      is.Pairwise (fun i j => i < j + 512) →
      ChannelRun (poolPlatform fun _ => false) 61 1 g.encode emptyState is s →
      s.mem.failures = emptyState.mem.failures →
      ∀ ind ∈ s.rlcUeDataInds, ind.data ∈ g.sdus := by
  intro hall
  have h1 := ChannelRun.start.next (i := 0) (by decide) (by decide +kernel)
  have h2 := h1.next (i := 1) (by decide) (by decide +kernel)
  have h3 := h2.next (i := 1) (by decide) (by decide +kernel)
  have hmixed : ∃ ind ∈ (afterTwoSdus (afterTwoSdus (afterTwoSdus emptyState 0) 1) 1).rlcUeDataInds,
      ind.data = [3, 2] := by decide +kernel
  obtain ⟨ind, hind, hdata⟩ := hmixed
  have hsdu := hall twoSdus _ _ (by decide) (by decide) h3 (by decide +kernel) ind hind
  rw [hdata] at hsdu
  revert hsdu
  decide

end LteUlp.Rlc
