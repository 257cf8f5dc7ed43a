import LteUlp.Dpe.Tracker
import Mathlib.Data.List.Chain
import Mathlib.Tactic.IntervalCases

set_option autoImplicit false

/-! # The timestamps of the target tracker

A recorded timestamp is the one predicted from the entry before it, not the arrival of the
message. The windows that accept an entry are relative to the prediction, so the distance
between the two does not add up over a run.
-/

namespace LteUlp.Dpe

variable {cfg : DpEngineConfig} {rand : Int → Nat} {clock : Int} {remoteIp : String}
  {e : UeEstablishInfo} {s s' : Receiver}

/-! ## Differences that fit into an `int` -/

def FitsInt (x : Int) : Prop := -2 ^ 31 ≤ x ∧ x < 2 ^ 31

instance (x : Int) : Decidable (FitsInt x) := inferInstanceAs (Decidable (_ ∧ _))

theorem i32_of_fits {x : Int} (h : FitsInt x) : i32 x = x := by
  obtain ⟨hl, hu⟩ := h
  rw [i32, Int.bmod_def]
  split_ifs <;> omega

theorem u32_of_lt {x : Int} (h0 : 0 ≤ x) (h : x < 2 ^ 32) : u32 x = x :=
  Int.emod_eq_of_lt h0 h

theorem u64_of_lt {x : Int} (h0 : 0 ≤ x) (h : x < 2 ^ 64) : u64 x = x :=
  Int.emod_eq_of_lt h0 h

/-- The interval and the margin are small enough for the widest window. -/
def DpEngineConfig.Small (cfg : DpEngineConfig) : Prop :=
  3 * cfg.interval + 2 * cfg.margin < 2 ^ 31

instance (cfg : DpEngineConfig) : Decidable cfg.Small := inferInstanceAs (Decidable (_ < _))

/-- The time differences that a call at `clock` takes fit into an `int`, and the clock is
not about to leave its 64 bits. -/
structure Small (clock : Int) (s : Receiver) : Prop where
  nonneg : 0 ≤ clock
  bound : clock + 2 ^ 31 ≤ 2 ^ 64
  target : ∀ last, s.m_targetVect.getLast? = some last → FitsInt (clock - last.timestamp)
  candidate : ∀ p ∈ s.m_potentialTargetMap, ∀ last, p.2.getLast? = some last →
    FitsInt (clock - last.timestamp)

theorem interval_nonneg (cfg : DpEngineConfig) : 0 ≤ cfg.interval := Int.natCast_nonneg _

theorem margin_nonneg (cfg : DpEngineConfig) : 0 ≤ cfg.margin := Int.natCast_nonneg _

theorem maxInterval_eq (hcfg : cfg.Small) : cfg.maxInterval = cfg.interval + cfg.margin := by
  have hi := interval_nonneg cfg
  have hm := margin_nonneg cfg
  rw [DpEngineConfig.Small] at hcfg
  exact i32_of_fits ⟨by omega, by omega⟩

theorem minInterval_eq (hcfg : cfg.Small) : cfg.minInterval = cfg.interval - cfg.margin := by
  have hi := interval_nonneg cfg
  have hm := margin_nonneg cfg
  rw [DpEngineConfig.Small] at hcfg
  exact i32_of_fits ⟨by omega, by omega⟩

/-- The upper end of a window after `k` misses. -/
theorem maxTimeDiff_eq (hcfg : cfg.Small) {k : Nat} (hk : k ≤ 2) {w : Int}
    (hw : 0 ≤ w ∧ 2 * w ≤ cfg.margin) :
    i32 (cfg.maxInterval + k * (cfg.interval + w))
      = cfg.interval + cfg.margin + k * (cfg.interval + w) := by
  have hi := interval_nonneg cfg
  have hm := margin_nonneg cfg
  rw [maxInterval_eq hcfg]
  rw [DpEngineConfig.Small] at hcfg
  refine i32_of_fits ⟨?_, ?_⟩ <;> interval_cases k <;> push_cast <;> omega

/-- The lower end of the window after `k` misses. -/
theorem minTimeDiff_eq (hcfg : cfg.Small) {k : Nat} (hk : k ≤ 2) :
    i32 (cfg.minInterval + k * (cfg.interval - cfg.margin / 4))
      = cfg.interval - cfg.margin + k * (cfg.interval - cfg.margin / 4) := by
  have hi := interval_nonneg cfg
  have hm := margin_nonneg cfg
  rw [minInterval_eq hcfg]
  rw [DpEngineConfig.Small] at hcfg
  refine i32_of_fits ⟨?_, ?_⟩ <;> interval_cases k <;> push_cast <;> omega

/-- **The window is around the prediction**: what it accepts is at most 1.5 margins away. -/
theorem window_near {k : Nat} (hk : k ≤ 2) {d : Int}
    (hlo : cfg.interval - cfg.margin + k * (cfg.interval - cfg.margin / 4) ≤ d)
    (hhi : d ≤ cfg.interval + cfg.margin + k * (cfg.interval + cfg.margin / 4)) :
    2 * |d - (k + 1) * cfg.interval| ≤ 3 * cfg.margin := by
  have hm := margin_nonneg cfg
  rcases abs_cases (d - (k + 1) * cfg.interval) with ⟨habs, -⟩ | ⟨habs, -⟩ <;>
    rw [habs] <;> interval_cases k <;> push_cast at * <;> omega

/-! ## The invariant -/

/-- A recorded timestamp is near the arrival of its message. -/
def Recorded.Near (cfg : DpEngineConfig) (r : Recorded) : Prop :=
  0 ≤ r.timestamp ∧ 2 * |r.arrival - r.timestamp| ≤ 3 * cfg.margin

/-- Consecutive timestamps of a candidate. -/
def OneApart (cfg : DpEngineConfig) (a b : Recorded) : Prop :=
  b.timestamp = a.timestamp + cfg.interval

/-- Consecutive timestamps of the target. -/
def MissesApart (cfg : DpEngineConfig) (a b : Recorded) : Prop :=
  b.missed ≤ 2 ∧ b.timestamp = a.timestamp + (b.missed + 1) * cfg.interval

/-- What holds of the timestamps between calls, the last of which was at `clock`. -/
structure Timed (cfg : DpEngineConfig) (clock : Int) (s : Receiver) : Prop where
  candidate : ∀ p ∈ s.m_potentialTargetMap, p.2.IsChain (OneApart cfg)
  fresh : ∀ p ∈ s.m_potentialTargetMap, ∀ r ∈ p.2, r.missed = 0
  target : s.m_targetVect.IsChain (MissesApart cfg)
  candidateNear : ∀ p ∈ s.m_potentialTargetMap, ∀ r ∈ p.2, r.Near cfg
  targetNear : ∀ r ∈ s.m_targetVect, r.Near cfg
  late : ∀ last, s.m_targetVect.getLast? = some last → 0 < s.m_missCount →
    s.m_missCount * cfg.interval < clock - last.timestamp

theorem timed_new (cfg : DpEngineConfig) (clock : Int) : Timed cfg clock newReceiver :=
  ⟨by simp [newReceiver], by simp [newReceiver], .nil, by simp [newReceiver],
    by simp [newReceiver], by simp [newReceiver]⟩

theorem Timed.later {clock' : Int} (h : Timed cfg clock s) (hle : clock ≤ clock') :
    Timed cfg clock' s :=
  ⟨h.candidate, h.fresh, h.target, h.candidateNear, h.targetNear,
    fun last hlast hmiss => (h.late last hlast hmiss).trans_le (by omega)⟩

/-- Appending to a chain: the new entry follows the last one. -/
theorem isChain_concat {R : Recorded → Recorded → Prop} {v : List Recorded} {last r : Recorded}
    (hv : v.IsChain R) (hlast : v.getLast? = some last) (hr : R last r) :
    (v ++ [r]).IsChain R := by
  rw [List.isChain_append]
  refine ⟨hv, .singleton r, fun a ha b hb => ?_⟩
  rw [hlast, Option.mem_some_iff] at ha
  rw [List.head?_cons, Option.mem_some_iff] at hb
  exact ha ▸ hb ▸ hr

/-- An accepted entry gets the predicted timestamp, and its message arrived near it. -/
theorem predicted (hcfg : cfg.Small) (hs : Small clock s) {k : Nat} (hk : k ≤ 2)
    {last : Recorded} (hlast : 0 ≤ last.timestamp)
    (hlo : cfg.interval - cfg.margin + k * (cfg.interval - cfg.margin / 4)
      ≤ clock - last.timestamp)
    (hhi : clock - last.timestamp
      ≤ cfg.interval + cfg.margin + k * (cfg.interval + cfg.margin / 4))
    (time : e.timestamp = u64 (last.timestamp + u32 ((k + 1) * cfg.interval))) :
    e.timestamp = last.timestamp + (k + 1) * cfg.interval ∧
      2 * |clock - e.timestamp| ≤ 3 * cfg.margin := by
  have hi := interval_nonneg cfg
  have hm := margin_nonneg cfg
  have hbound := hs.bound
  have hnear := window_near hk hlo hhi
  have hstep : 0 ≤ ((k : Int) + 1) * cfg.interval ∧
      ((k : Int) + 1) * cfg.interval ≤ 3 * cfg.interval := by
    constructor <;> interval_cases k <;> push_cast <;> omega
  have habs := abs_le.mp (by omega :
    |clock - last.timestamp - (k + 1) * cfg.interval| ≤ 2 * cfg.margin)
  rw [DpEngineConfig.Small] at hcfg
  have htime : e.timestamp = last.timestamp + (k + 1) * cfg.interval := by
    rw [time, u32_of_lt hstep.1 (by omega), u64_of_lt (by omega) (by omega)]
  refine ⟨htime, ?_⟩
  rw [htime, ← Int.sub_sub]
  exact hnear

/-- **Following the target keeps the timing.** -/
theorem Timed.targetEffect (h : Timed cfg clock s) (ht : Tracking s) (hcfg : cfg.Small)
    (hs : Small clock s) (heff : TargetEffect cfg clock s s') :
    Timed cfg clock s' ∧ Small clock s' := by
  have hi := interval_nonneg cfg
  have hm := margin_nonneg cfg
  cases heff with
  | same vect miss map =>
      constructor
      · exact ⟨map ▸ h.candidate, map ▸ h.fresh, vect ▸ h.target, map ▸ h.candidateNear,
          vect ▸ h.targetNear, by rw [vect, miss]; exact h.late⟩
      · exact ⟨hs.nonneg, hs.bound, vect ▸ hs.target, map ▸ hs.candidate⟩
  | missed last w hw hlast late bound vect miss map =>
      have hfit := hs.target last hlast
      rw [i32_of_fits hfit, maxTimeDiff_eq hcfg (by omega) hw] at late
      constructor
      · refine ⟨map ▸ h.candidate, map ▸ h.fresh, vect ▸ h.target, map ▸ h.candidateNear,
          vect ▸ h.targetNear, fun last' hlast' _ => ?_⟩
        rw [vect, hlast] at hlast'
        obtain rfl := Option.some.inj hlast'
        have hw0 : 0 ≤ s.m_missCount * w := Int.mul_nonneg (Int.natCast_nonneg _) hw.1
        rw [miss]
        push_cast
        have hexp : (s.m_missCount : Int) * (cfg.interval + w)
            = s.m_missCount * cfg.interval + s.m_missCount * w := Int.mul_add _ _ _
        have hexp' : ((s.m_missCount : Int) + 1) * cfg.interval
            = s.m_missCount * cfg.interval + cfg.interval := by
          rw [Int.add_mul, Int.one_mul]
        omega
      · exact ⟨hs.nonneg, hs.bound, vect ▸ hs.target, map ▸ hs.candidate⟩
  | lost vect miss map =>
      constructor
      · exact ⟨by simp [map], by simp [map], vect ▸ .nil, by simp [map], by simp [vect],
          by simp [vect]⟩
      · exact ⟨hs.nonneg, hs.bound, by simp [vect], by simp [map]⟩
  | tracked last e hlast window time vect miss map =>
      have hne : s.m_targetVect ≠ [] := by
        intro hnil
        rw [hnil] at hlast
        cases hlast
      have hk : s.m_missCount ≤ 2 := (ht.miss hne).trans (min_le_left _ _)
      have hfit := hs.target last hlast
      have hw : 0 ≤ cfg.margin / 4 ∧ 2 * (cfg.margin / 4) ≤ cfg.margin := by omega
      rw [i32_of_fits hfit, maxTimeDiff_eq hcfg hk hw, minTimeDiff_eq hcfg hk] at window
      have hlast0 := (h.targetNear last (List.mem_of_getLast? hlast)).1
      obtain ⟨htime, hnear⟩ := predicted hcfg hs hk hlast0 window.1 window.2 time
      have hfit' : FitsInt (clock - e.timestamp) := by
        have := abs_le.mp (by omega : |clock - e.timestamp| ≤ 2 * cfg.margin)
        rw [DpEngineConfig.Small] at hcfg
        exact ⟨by omega, by omega⟩
      have hnonneg : 0 ≤ e.timestamp := by
        rw [htime]
        have := Int.mul_nonneg (by omega : (0 : Int) ≤ s.m_missCount + 1) hi
        omega
      have hlast' : s'.m_targetVect.getLast? = some ⟨e, clock, s.m_missCount⟩ := by
        rw [vect, List.getLast?_concat]
      constructor
      · refine ⟨map ▸ h.candidate, map ▸ h.fresh, ?_, map ▸ h.candidateNear, fun r hr => ?_,
          fun _ _ hmiss => by omega⟩
        · rw [vect]
          exact isChain_concat h.target hlast ⟨hk, htime⟩
        · rw [vect] at hr
          rcases List.mem_append.mp hr with hr | hr
          · exact h.targetNear r hr
          · obtain rfl := List.mem_singleton.mp hr
            exact ⟨hnonneg, hnear⟩
      · refine ⟨hs.nonneg, hs.bound, fun l hl => ?_, map ▸ hs.candidate⟩
        rw [hlast'] at hl
        obtain rfl := Option.some.inj hl
        exact hfit'

/-- An entry that continues a candidate. -/
theorem Continues.timed (h : Timed cfg clock s) (hcfg : cfg.Small) (hs : Small clock s)
    {p : Nat × List Recorded} (hp : p ∈ s.m_potentialTargetMap)
    (hc : Continues cfg clock p.2 e) :
    (Recorded.mk e clock 0).Near cfg ∧ FitsInt (clock - e.timestamp) ∧
      (p.2 ++ [Recorded.mk e clock 0]).IsChain (OneApart cfg) := by
  have hi := interval_nonneg cfg
  obtain ⟨last, hlast, hlo, hhi, htime⟩ := hc.last
  rw [i32_of_fits (hs.candidate p hp last hlast)] at hlo hhi
  rw [minInterval_eq hcfg] at hlo
  rw [maxInterval_eq hcfg] at hhi
  have hlast0 := (h.candidateNear p hp last (List.mem_of_getLast? hlast)).1
  have hone : u32 (((0 : Nat) + 1) * cfg.interval) = cfg.interval := by
    rw [DpEngineConfig.Small] at hcfg
    rw [Nat.cast_zero, Int.zero_add, Int.one_mul, u32_of_lt hi (by omega)]
  obtain ⟨htime', hnear⟩ := predicted hcfg hs (Nat.zero_le 2) hlast0
    (by rw [Nat.cast_zero, Int.zero_mul, Int.add_zero]; exact hlo)
    (by rw [Nat.cast_zero, Int.zero_mul, Int.add_zero]; exact hhi) (by rw [hone]; exact htime)
  rw [Nat.cast_zero, Int.zero_add, Int.one_mul] at htime'
  have habs := abs_le.mp (by omega : |clock - e.timestamp| ≤ 2 * cfg.margin)
  rw [DpEngineConfig.Small] at hcfg
  have hnonneg : 0 ≤ e.timestamp := by omega
  exact ⟨⟨hnonneg, hnear⟩, ⟨by omega, by omega⟩, isChain_concat (h.candidate p hp) hlast htime'⟩

/-- **The search among the candidates keeps the timing.** -/
theorem Timed.candidateEffect (h : Timed cfg clock s) (hcfg : cfg.Small)
    (hs : Small clock s) (hnil : s.m_targetVect = []) (heff : CandidateEffect cfg clock s s') :
    Timed cfg clock s' ∧ Small clock s' := by
  cases heff with
  | candidate r time map vect miss promotions =>
      have hnil' := vect.trans hnil
      obtain ⟨hnear, hfit⟩ : (Recorded.mk r clock 0).Near cfg ∧ FitsInt (clock - r.timestamp) := by
        rcases time with hclock | ⟨p, hp, hc⟩
        · have hm := margin_nonneg cfg
          have hn := hs.nonneg
          rw [Recorded.Near, hclock, Int.sub_self, abs_zero]
          exact ⟨⟨hn, by omega⟩, ⟨by decide, by decide⟩⟩
        · obtain ⟨hnear, hfit, -⟩ := hc.timed h hcfg hs hp
          exact ⟨hnear, hfit⟩
      -- a vector after the call: the new one, an old one, or an old one continued
      have hvect : ∀ p ∈ s'.m_potentialTargetMap,
          (p.2.IsChain (OneApart cfg) ∧ (∀ r ∈ p.2, r.missed = 0) ∧ ∀ r ∈ p.2, r.Near cfg) ∧
            ∀ last, p.2.getLast? = some last → FitsInt (clock - last.timestamp) := by
        intro p hp
        rcases map p hp with hp | hp | ⟨q, hq, -, hc, hp⟩
        · rw [hp]
          refine ⟨⟨.singleton _, by simp, by simpa using hnear⟩, fun last hlast => ?_⟩
          obtain rfl := Option.some.inj hlast
          exact hfit
        · exact ⟨⟨h.candidate p hp, h.fresh p hp, h.candidateNear p hp⟩, hs.candidate p hp⟩
        · obtain ⟨-, -, hchain⟩ := hc.timed h hcfg hs hq
          rw [hp]
          refine ⟨⟨hchain, fun x hx => ?_, fun x hx => ?_⟩, fun last hlast => ?_⟩
          · rcases List.mem_append.mp hx with hx | hx
            · exact h.fresh q hq x hx
            · rw [List.mem_singleton.mp hx]
          · rcases List.mem_append.mp hx with hx | hx
            · exact h.candidateNear q hq x hx
            · rw [List.mem_singleton.mp hx]
              exact hnear
          · rw [List.getLast?_concat] at hlast
            obtain rfl := Option.some.inj hlast
            exact hfit
      constructor
      · exact ⟨fun p hp => (hvect p hp).1.1, fun p hp => (hvect p hp).1.2.1, hnil' ▸ .nil,
          fun p hp => (hvect p hp).1.2.2, by simp [hnil'], by simp [hnil']⟩
      · exact ⟨hs.nonneg, hs.bound, by simp [hnil'], fun p hp => (hvect p hp).2⟩
  | promoted r p hp hlen continues vect miss map promotions =>
      obtain ⟨hnear, hfit, hchain⟩ := continues.timed h hcfg hs hp
      have hfresh : ∀ x ∈ s'.m_targetVect, x.missed = 0 := by
        intro x hx
        rw [vect] at hx
        rcases List.mem_append.mp hx with hx | hx
        · exact h.fresh p hp x hx
        · rw [List.mem_singleton.mp hx]
      have htarget : s'.m_targetVect.IsChain (MissesApart cfg) := by
        rw [vect] at hfresh ⊢
        refine hchain.imp_of_mem_imp fun a b _ hb hab => ?_
        have hzero := hfresh b hb
        refine ⟨by omega, ?_⟩
        rw [hzero, Nat.cast_zero, Int.zero_add, Int.one_mul]
        exact hab
      constructor
      · refine ⟨by simp [map], by simp [map], htarget, by simp [map], fun x hx => ?_,
          fun _ _ hmiss => by omega⟩
        rw [vect] at hx
        rcases List.mem_append.mp hx with hx | hx
        · exact h.candidateNear p hp x hx
        · rw [List.mem_singleton.mp hx]
          exact hnear
      · refine ⟨hs.nonneg, hs.bound, fun last hlast => ?_, by simp [map]⟩
        rw [vect, List.getLast?_concat] at hlast
        obtain rfl := Option.some.inj hlast
        exact hfit

/-- All that is kept during a call at `clock`. -/
theorem timed_kept (hcfg : cfg.Small) (clock : Int) :
    Kept cfg clock fun s => Tracking s ∧ Timed cfg clock s ∧ Small clock s := by
  refine ⟨fun _ h => h.1, fun s s' h heff => ?_, fun s s' h hnil heff => ?_⟩
  · exact ⟨h.1.targetEffect heff, h.2.1.targetEffect h.1 hcfg h.2.2 heff⟩
  · exact ⟨h.1.candidateEffect hnil heff, h.2.1.candidateEffect hcfg h.2.2 hnil heff⟩

/-! ## Runs -/

/-- The states between calls under a clock that never goes back; the last call was at
`clock`. The time differences that the calls take are small. -/
inductive TimedRun (cfg : DpEngineConfig) (rand : Int → Nat) : Receiver → Int → Prop
  | new (clock : Int) : TimedRun cfg rand newReceiver clock
  | call {s s' : Receiver} {clock clock' : Int} (c : Call) :
      TimedRun cfg rand s clock → clock ≤ clock' → Small clock' s →
      call cfg rand clock' s c = some s' → TimedRun cfg rand s' clock'

theorem TimedRun.timed (hcfg : cfg.Small) (h : TimedRun cfg rand s clock) :
    Tracking s ∧ Timed cfg clock s := by
  induction h with
  | new clock => exact ⟨tracking_new, timed_new cfg clock⟩
  | call c _ hle hsmall hcall ih =>
      obtain ⟨s1, hs1, ⟨h1, h2, -⟩, -⟩ :=
        (timed_kept hcfg _).call rand ⟨ih.1, ih.2.later hle, hsmall⟩ c
      obtain rfl := Option.some.inj (hs1.symm.trans hcall)
      exact ⟨h1, h2⟩

/-- **The timing invariant of the target tracker**, in every state between calls. -/
theorem tracker_keeps_timing (cfg : DpEngineConfig) (rand : Int → Nat) (hcfg : cfg.Small)
    {s : Receiver} {clock : Int} (h : TimedRun cfg rand s clock) : Timed cfg clock s :=
  (h.timed hcfg).2

theorem Small.of_all (h : (0 ≤ clock ∧ clock + 2 ^ 31 ≤ 2 ^ 64) ∧
    (∀ r ∈ s.m_targetVect, FitsInt (clock - r.timestamp)) ∧
    ∀ p ∈ s.m_potentialTargetMap, ∀ r ∈ p.2, FitsInt (clock - r.timestamp)) : Small clock s :=
  ⟨h.1.1, h.1.2, fun last hlast => h.2.1 last (List.mem_of_getLast? hlast),
    fun p hp last hlast => h.2.2 p hp last (List.mem_of_getLast? hlast)⟩

/-- The run of `tracker_keeps_structure_promoted`, then a check that misses the target and a
fourth message, one interval late. -/
theorem tracker_keeps_timing_missed : ∃ s, TimedRun ⟨20000, 1200, false⟩ (fun _ => 0) s 81000 ∧
    (s.m_targetVect.map fun r => (r.timestamp, r.missed)) =
      [(1000, 0), (21000, 0), (41000, 0), (81000, 1)] ∧
    Timed ⟨20000, 1200, false⟩ 81000 s := by
  have h1 : TimedRun ⟨20000, 1200, false⟩ (fun _ => 0) _ 1000 :=
    .call (oneEntry 120 4) (.new 0) (by decide) (Small.of_all (by decide)) rfl
  have h2 : TimedRun ⟨20000, 1200, false⟩ (fun _ => 0) _ 21500 :=
    .call (oneEntry 118 4) h1 (by decide) (Small.of_all (by decide)) rfl
  have h3 : TimedRun ⟨20000, 1200, false⟩ (fun _ => 0) _ 40700 :=
    .call (oneEntry 121 5) h2 (by decide) (Small.of_all (by decide)) rfl
  have h4 : TimedRun ⟨20000, 1200, false⟩ (fun _ => 0) _ 62500 :=
    .call .checkTarget h3 (by decide) (Small.of_all (by decide)) rfl
  have h5 : TimedRun ⟨20000, 1200, false⟩ (fun _ => 0) _ 81000 :=
    .call (oneEntry 119 5) h4 (by decide) (Small.of_all (by decide)) rfl
  exact ⟨_, h5, by decide, tracker_keeps_timing _ _ (by decide) h5⟩

end LteUlp.Dpe
