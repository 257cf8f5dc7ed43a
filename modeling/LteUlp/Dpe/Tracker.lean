import LteUlp.Dpe.Model

set_option autoImplicit false

/-! # What holds of the target tracker between calls

First what one part of the loop body can do (`trackTarget_effect`, `searchTarget_effect`),
then the invariant `Tracking`, which every effect keeps, and from it the runs.
-/

namespace LteUlp.Dpe

variable {cfg : DpEngineConfig} {rand : Int → Nat} {clock : Int} {remoteIp : String}
  {e : UeEstablishInfo} {s s' : Receiver}

/-! ## The effects -/

/-- What following the target can do to the vectors and the count. `w` is the fraction of
the margin that widens the window with every miss. -/
inductive TargetEffect (cfg : DpEngineConfig) (clock : Int) (s s' : Receiver) : Prop
  | same (vect : s'.m_targetVect = s.m_targetVect) (miss : s'.m_missCount = s.m_missCount)
      (map : s'.m_potentialTargetMap = s.m_potentialTargetMap)
  | missed (last : Recorded) (w : Int) (hw : 0 ≤ w ∧ 2 * w ≤ cfg.margin)
      (hlast : s.m_targetVect.getLast? = some last)
      (late : i32 (clock - last.timestamp) >
        i32 (cfg.maxInterval + s.m_missCount * (cfg.interval + w)))
      (bound : s.m_missCount + 1 ≤ s.m_targetVect.length / 2 ∧ s.m_missCount + 1 ≤ 2)
      (vect : s'.m_targetVect = s.m_targetVect) (miss : s'.m_missCount = s.m_missCount + 1)
      (map : s'.m_potentialTargetMap = s.m_potentialTargetMap)
  | lost (vect : s'.m_targetVect = []) (miss : s'.m_missCount = 0)
      (map : s'.m_potentialTargetMap = [])
  | tracked (last : Recorded) (e : UeEstablishInfo)
      (hlast : s.m_targetVect.getLast? = some last)
      (window : i32 (cfg.minInterval + s.m_missCount * (cfg.interval - cfg.margin / 4))
          ≤ i32 (clock - last.timestamp) ∧ i32 (clock - last.timestamp)
          ≤ i32 (cfg.maxInterval + s.m_missCount * (cfg.interval + cfg.margin / 4)))
      (time : e.timestamp = u64 (last.timestamp + u32 ((s.m_missCount + 1) * cfg.interval)))
      (vect : s'.m_targetVect = s.m_targetVect ++ [⟨e, clock, s.m_missCount⟩])
      (miss : s'.m_missCount = 0) (map : s'.m_potentialTargetMap = s.m_potentialTargetMap)

/-- `r` continues the vector `v`, `clock` after its last entry. -/
structure Continues (cfg : DpEngineConfig) (clock : Int) (v : List Recorded)
    (r : UeEstablishInfo) : Prop where
  last : ∃ last, v.getLast? = some last ∧
    cfg.minInterval ≤ i32 (clock - last.timestamp) ∧
    i32 (clock - last.timestamp) ≤ cfg.maxInterval ∧
    r.timestamp = u64 (last.timestamp + cfg.interval)

/-- What the search among the candidates can do. -/
inductive CandidateEffect (cfg : DpEngineConfig) (clock : Int) (s s' : Receiver) : Prop
  | candidate (r : UeEstablishInfo)
      (time : r.timestamp = clock ∨ ∃ p ∈ s.m_potentialTargetMap, Continues cfg clock p.2 r)
      (map : ∀ p ∈ s'.m_potentialTargetMap, p.2 = [⟨r, clock, 0⟩] ∨
        p ∈ s.m_potentialTargetMap ∨ ∃ q ∈ s.m_potentialTargetMap, q.2.length ≠ 2 ∧
          Continues cfg clock q.2 r ∧ p.2 = q.2 ++ [⟨r, clock, 0⟩])
      (vect : s'.m_targetVect = s.m_targetVect) (miss : s'.m_missCount = s.m_missCount)
      (promotions : s'.promotions = s.promotions)
  | promoted (r : UeEstablishInfo) (p : Nat × List Recorded)
      (hp : p ∈ s.m_potentialTargetMap) (hlen : p.2.length = 2)
      (continues : Continues cfg clock p.2 r)
      (vect : s'.m_targetVect = p.2 ++ [⟨r, clock, 0⟩]) (miss : s'.m_missCount = 0)
      (map : s'.m_potentialTargetMap = []) (promotions : s'.promotions = s.promotions + 1)

@[simp] theorem reportTargetUe_vect (s : Receiver) (x : Int) :
    (s.reportTargetUe x).m_targetVect = s.m_targetVect := rfl

@[simp] theorem reportTargetUe_miss (s : Receiver) (x : Int) :
    (s.reportTargetUe x).m_missCount = s.m_missCount := rfl

@[simp] theorem reportTargetUe_map (s : Receiver) (x : Int) :
    (s.reportTargetUe x).m_potentialTargetMap = s.m_potentialTargetMap := rfl

@[simp] theorem reportTargetUe_promotions (s : Receiver) (x : Int) :
    (s.reportTargetUe x).promotions = s.promotions := rfl

theorem checkTarget_effect (cfg : DpEngineConfig) (rand : Int → Nat) (clock : Int) (s : Receiver) :
    TargetEffect cfg clock s (checkTarget cfg rand clock s) ∧
      (checkTarget cfg rand clock s).promotions = s.promotions := by
  cases hlast : s.m_targetVect.getLast? with
  | none =>
      have hs : checkTarget cfg rand clock s = s := by simp only [checkTarget, hlast]
      rw [hs]
      exact ⟨.same rfl rfl rfl, rfl⟩
  | some last =>
      simp only [checkTarget, hlast]
      split_ifs with hlate hlost hreport
      · exact ⟨.lost rfl rfl rfl, rfl⟩
      · refine ⟨.missed last (cfg.margin / 2) ?_ hlast hlate ?_ rfl rfl rfl, rfl⟩
        · have hm : 0 ≤ cfg.margin := Int.natCast_nonneg _
          omega
        · simp only [not_or, not_and] at hlost
          have h2 := hlost.2 hlate
          omega
      · exact ⟨.same rfl rfl rfl, rfl⟩
      · exact ⟨.same rfl rfl rfl, rfl⟩

/-- The receiver after the part that follows the target. -/
def Tracked.receiver : Tracked → Receiver
  | .next s _ | .stop s _ | .search s _ => s

/-- The search is entered without a target. -/
def Tracked.Ready : Tracked → Prop
  | .search s _ => s.m_targetVect = []
  | _ => True

theorem trackTarget_effect (cfg : DpEngineConfig) (remoteIp : String)
    (he : e.timestamp = clock) (s : Receiver) (timeDiff : Int) :
    TargetEffect cfg clock s (trackTarget cfg clock remoteIp e s timeDiff).receiver ∧
      (trackTarget cfg clock remoteIp e s timeDiff).Ready ∧
      (trackTarget cfg clock remoteIp e s timeDiff).receiver.promotions = s.promotions := by
  cases hlast : s.m_targetVect.getLast? with
  | none =>
      simp only [trackTarget, hlast]
      exact ⟨.same rfl rfl rfl, List.getLast?_eq_none_iff.mp hlast, rfl⟩
  | some last =>
      simp only [trackTarget, hlast]
      rw [he]
      split_ifs with hwindow hpower hearly hlost
      · exact ⟨.tracked last _ hlast hwindow rfl rfl rfl rfl, trivial, rfl⟩
      · exact ⟨.same rfl rfl rfl, trivial, rfl⟩
      · exact ⟨.same rfl rfl rfl, trivial, rfl⟩
      · exact ⟨.lost rfl rfl rfl, rfl, rfl⟩
      · refine ⟨.missed last (cfg.margin / 4) ?_ hlast ?_ ?_ rfl rfl rfl, trivial, rfl⟩
        · have hm : 0 ≤ cfg.margin := Int.natCast_nonneg _
          omega
        · omega
        · omega

/-- The loop over the candidates changes nothing or appends the entry to one of them. -/
theorem searchMap_effect (cfg : DpEngineConfig) (he : e.timestamp = clock)
    {map : List (Nat × List Recorded)}
    (hne : ∀ p ∈ map, p.2 ≠ []) (timeDiff : Int) :
    ∃ timeDiff', searchMap cfg clock e map timeDiff = some (map, timeDiff', none) ∨
      ∃ pre id v post r, map = pre ++ (id, v) :: post ∧ Continues cfg clock v r ∧
        searchMap cfg clock e map timeDiff
          = some (pre ++ (id, v ++ [⟨r, clock, 0⟩]) :: post, timeDiff',
              some (r, v ++ [⟨r, clock, 0⟩])) := by
  induction map generalizing timeDiff with
  | nil => exact ⟨timeDiff, Or.inl rfl⟩
  | cons p rest ih =>
      obtain ⟨id, v⟩ := p
      obtain ⟨last, hlast⟩ : ∃ last, v.getLast? = some last := by
        have hv : v ≠ [] := hne (id, v) (by simp)
        exact ⟨v.getLast hv, List.getLast?_eq_getLast_of_ne_nil hv⟩
      simp only [searchMap, hlast]
      rw [he]
      split_ifs with hfit
      · exact ⟨_, Or.inr ⟨[], id, v, rest, _, rfl, ⟨last, hlast, hfit.1, hfit.2.1, rfl⟩, rfl⟩⟩
      · obtain ⟨d, hd | ⟨pre, id', v', post, r, hmap, hc, hd⟩⟩ :=
          ih (fun p hp => hne p (by simp [hp])) (i32 (clock - last.timestamp))
        · exact ⟨d, Or.inl (by rw [hd]; rfl)⟩
        · refine ⟨d, Or.inr ⟨(id, v) :: pre, id', v', post, r, by rw [hmap]; rfl, hc, ?_⟩⟩
          rw [hd]
          rfl

theorem mem_mapInsert {k : Nat} {v : List Recorded} {map : List (Nat × List Recorded)}
    {p : Nat × List Recorded} (hp : p ∈ mapInsert k v map) : p = (k, v) ∨ p ∈ map := by
  induction map with
  | nil => exact Or.inl (List.mem_singleton.mp hp)
  | cons q rest ih =>
      obtain ⟨k', v'⟩ := q
      rw [mapInsert] at hp
      split_ifs at hp with hlt heq
      · exact List.mem_cons.mp hp
      · exact Or.inr hp
      · rcases List.mem_cons.mp hp with rfl | hp
        · exact Or.inr (by simp)
        · exact (ih hp).imp_right (List.mem_cons_of_mem _)

/-- A new candidate keeps the others or clears them. -/
theorem mem_newCandidate {timeDiff : Int} {p : Nat × List Recorded}
    (hp : p ∈ (newCandidate cfg clock e s timeDiff).m_potentialTargetMap) :
    p.2 = [⟨e, clock, 0⟩] ∨ p ∈ s.m_potentialTargetMap := by
  rcases mem_mapInsert hp with rfl | hp
  · exact Or.inl rfl
  · split_ifs at hp
    · cases hp
    · exact Or.inr hp

theorem searchTarget_effect (cfg : DpEngineConfig) (remoteIp : String)
    (he : e.timestamp = clock)
    (hne : ∀ p ∈ s.m_potentialTargetMap, p.2 ≠ []) (timeDiff : Int) :
    ∃ s' timeDiff' stop,
      searchTarget cfg clock remoteIp e s timeDiff = some (s', timeDiff', stop) ∧
      CandidateEffect cfg clock s s' ∧ (stop = false → s'.promotions = s.promotions) := by
  obtain ⟨d, hd | ⟨pre, id, v, post, r, hmap, hc, hd⟩⟩ := searchMap_effect cfg he hne timeDiff
  · have hsearch : searchTarget cfg clock remoteIp e s timeDiff
        = some (newCandidate cfg clock e s d, d, false) := by
      simp only [searchTarget, hd]
    refine ⟨_, d, false, hsearch, ?_, fun _ => rfl⟩
    refine .candidate e (Or.inl he) (fun p hp => ?_) rfl rfl rfl
    exact (mem_newCandidate hp).imp_right Or.inl
  · have hv : (id, v) ∈ s.m_potentialTargetMap := by simp [hmap]
    set v' : List Recorded := v ++ [⟨r, clock, 0⟩] with hv'
    by_cases hlen : v'.length = 3
    · have hsearch : searchTarget cfg clock remoteIp e s timeDiff
          = some (promote remoteIp r v' s, d, true) := by
        simp only [searchTarget, hd, if_pos hlen]
      refine ⟨_, d, true, hsearch, ?_, fun h => nomatch h⟩
      exact .promoted r (id, v) hv (by simpa [hv'] using hlen) hc rfl rfl rfl rfl
    · set s1 : Receiver := { s with m_potentialTargetMap := pre ++ (id, v') :: post } with hs1
      have hsearch : searchTarget cfg clock remoteIp e s timeDiff
          = some (newCandidate cfg clock r s1 d, d, false) := by
        simp only [searchTarget, hd, if_neg hlen, hs1]
      refine ⟨_, d, false, hsearch, ?_, fun _ => rfl⟩
      refine .candidate r (Or.inr ⟨(id, v), hv, hc⟩) (fun p hp => ?_) rfl rfl rfl
      rcases mem_newCandidate hp with hp | hp
      · exact Or.inl hp
      · refine Or.inr ?_
        simp only [hs1, List.mem_append, List.mem_cons] at hp
        rcases hp with hp | rfl | hp
        · exact Or.inl (by simp [hmap, hp])
        · exact Or.inr ⟨(id, v), hv, by simpa [hv'] using hlen, hc, rfl⟩
        · exact Or.inl (by simp [hmap, hp])

/-! ## The invariant -/

/-- Between calls: every candidate has one or two entries, the target none or at least
three; there are no candidates beside a target, and the misses of the target are few. -/
structure Tracking (s : Receiver) : Prop where
  candidate : ∀ p ∈ s.m_potentialTargetMap, p.2 ≠ [] ∧ p.2.length ≤ 2
  target : s.m_targetVect = [] ∨ 3 ≤ s.m_targetVect.length
  exclusive : s.m_targetVect ≠ [] → s.m_potentialTargetMap = []
  miss : s.m_targetVect ≠ [] → s.m_missCount ≤ min 2 (s.m_targetVect.length / 2)
  idle : s.m_targetVect = [] → s.m_missCount = 0

theorem tracking_new : Tracking newReceiver :=
  ⟨by simp [newReceiver], Or.inl rfl, fun h => absurd rfl h, fun h => absurd rfl h,
    fun _ => rfl⟩

theorem Tracking.targetEffect (h : Tracking s) (heff : TargetEffect cfg clock s s') :
    Tracking s' := by
  cases heff with
  | same vect miss map =>
      exact ⟨map ▸ h.candidate, vect ▸ h.target, by rw [vect, map]; exact h.exclusive,
        by rw [vect, miss]; exact h.miss, by rw [vect, miss]; exact h.idle⟩
  | missed last w hw hlast late bound vect miss map =>
      refine ⟨map ▸ h.candidate, vect ▸ h.target, by rw [vect, map]; exact h.exclusive,
        fun _ => ?_, fun hnil => ?_⟩
      · rw [miss, vect]
        omega
      · rw [vect] at hnil
        rw [hnil] at hlast
        cases hlast
  | lost vect miss map =>
      exact ⟨fun p hp => by simp [map] at hp, Or.inl vect, fun _ => map,
        fun hne => absurd vect hne, fun _ => miss⟩
  | tracked last e hlast window time vect miss map =>
      have hne : s.m_targetVect ≠ [] := by
        intro hnil
        rw [hnil] at hlast
        cases hlast
      have hlen := h.target.resolve_left hne
      refine ⟨map ▸ h.candidate, Or.inr ?_, fun _ => map.trans (h.exclusive hne), fun _ => ?_,
        fun _ => miss⟩
      · rw [vect, List.length_append]
        omega
      · rw [miss]
        exact Nat.zero_le _

theorem Tracking.candidateEffect (h : Tracking s) (hnil : s.m_targetVect = [])
    (heff : CandidateEffect cfg clock s s') : Tracking s' := by
  cases heff with
  | candidate r time map vect miss promotions =>
      have hnil' := vect.trans hnil
      refine ⟨fun p hp => ?_, Or.inl hnil', fun hne => absurd hnil' hne,
        fun hne => absurd hnil' hne, fun _ => miss.trans (h.idle hnil)⟩
      rcases map p hp with hp | hp | ⟨q, hq, hlen, -, hp⟩
      · rw [hp]
        simp
      · exact h.candidate p hp
      · have hle := (h.candidate q hq).2
        rw [hp]
        refine ⟨by simp, ?_⟩
        rw [List.length_append, List.length_singleton]
        omega
  | promoted r p hp hlen continues vect miss map promotions =>
      have hlen' : s'.m_targetVect.length = 3 := by
        rw [vect, List.length_append, hlen]
        rfl
      refine ⟨fun q hq => by simp [map] at hq, Or.inr (by omega), fun _ => map, fun _ => ?_,
        fun _ => miss⟩
      rw [miss]
      exact Nat.zero_le _

/-! ## The calls

What both effects keep, the calls keep. -/

/-- A property that implies `Tracking` and that both effects at `clock` keep. -/
structure Kept (cfg : DpEngineConfig) (clock : Int) (P : Receiver → Prop) : Prop where
  tracking : ∀ s, P s → Tracking s
  target : ∀ s s', P s → TargetEffect cfg clock s s' → P s'
  candidate : ∀ s s', P s → s.m_targetVect = [] → CandidateEffect cfg clock s s' → P s'

theorem tracking_kept (cfg : DpEngineConfig) (clock : Int) : Kept cfg clock Tracking :=
  ⟨fun _ h => h, fun _ _ h heff => h.targetEffect heff,
    fun _ _ h hnil heff => h.candidateEffect hnil heff⟩

/-- **The body of the loop.** It never takes `end() - 1` of an empty vector, and it promotes
a target only where it leaves the loop. -/
theorem Kept.processEntry {P : Receiver → Prop} (hP : Kept cfg clock P) (remoteIp : String)
    (h : P s) (e : UeEstablishInfo) (timeDiff : Int) :
    ∃ s' timeDiff' stop,
      processEntry cfg clock remoteIp e s timeDiff = some (s', timeDiff', stop) ∧ P s' ∧
      s'.promotions ≤ s.promotions + 1 ∧ (stop = false → s'.promotions = s.promotions) := by
  have he : (receiveEntry cfg clock e).timestamp = clock := rfl
  obtain ⟨heff, hready, hprom⟩ := trackTarget_effect cfg remoteIp he s timeDiff
  rw [Dpe.processEntry]
  rcases htrack : trackTarget cfg clock remoteIp (receiveEntry cfg clock e) s timeDiff with
    ⟨s1, d⟩ | ⟨s1, d⟩ | ⟨s1, d⟩
  · rw [htrack] at heff hprom
    exact ⟨s1, d, false, rfl, hP.target s s1 h heff, hprom.le.trans (Nat.le_succ _),
      fun _ => hprom⟩
  · rw [htrack] at heff hprom
    exact ⟨s1, d, true, rfl, hP.target s s1 h heff, hprom.le.trans (Nat.le_succ _),
      fun hs => nomatch hs⟩
  · rw [htrack] at heff hready hprom
    have h1 : P s1 := hP.target s s1 h heff
    have hprom1 : s1.promotions = s.promotions := hprom
    obtain ⟨s', d', stop, hsearch, hcand, hstop⟩ := searchTarget_effect cfg remoteIp he
      (fun p hp => ((hP.tracking s1 h1).candidate p hp).1) d
    refine ⟨s', d', stop, hsearch, hP.candidate s1 s' h1 hready hcand, ?_,
      fun hs => (hstop hs).trans hprom⟩
    cases hcand with
    | candidate r time map vect miss promotions => omega
    | promoted r p hp hlen continues vect miss map promotions => omega

/-- The loop, by induction on the entries left. -/
theorem Kept.processLoop {P : Receiver → Prop} (hP : Kept cfg clock P) (remoteIp : String)
    (h : P s) (entries : Nat → UeEstablishInfo) (n i : Nat) (timeDiff : Int) :
    ∃ s' k, processLoop cfg clock remoteIp entries n i s timeDiff = some (s', k) ∧
      P s' ∧ s'.promotions ≤ s.promotions + 1 := by
  induction n generalizing i s timeDiff with
  | zero => exact ⟨s, 0, rfl, h, Nat.le_succ _⟩
  | succ n ih =>
      obtain ⟨s1, d, stop, hentry, h1, hprom, hstop⟩ :=
        hP.processEntry remoteIp h (entries i) timeDiff
      cases stop with
      | true => exact ⟨s1, 1, by rw [Dpe.processLoop, hentry], h1, hprom⟩
      | false =>
          obtain ⟨s', k, hloop, h', hprom'⟩ := ih h1 (i + 1) d
          refine ⟨s', k + 1, ?_, h', hstop rfl ▸ hprom'⟩
          rw [Dpe.processLoop, hentry]
          simp only [hloop, Option.map_some]

/-- A call of one of the two entry points. -/
inductive Call
  | checkTarget
  | processUeEstablishInfo (pUeEstabInfoMsg : Option UeEstablishIndMsg) (remoteIp : String)

/-- One call at the given clock; `none` is a fault. -/
def call (cfg : DpEngineConfig) (rand : Int → Nat) (clock : Int) (s : Receiver) :
    Call → Option Receiver
  | .checkTarget => some (checkTarget cfg rand clock s)
  | .processUeEstablishInfo msg remoteIp =>
      (processUeEstablishInfo cfg clock msg remoteIp s).map Prod.fst

/-- **One call** returns, keeps what both effects keep, and promotes at most one target. -/
theorem Kept.call {P : Receiver → Prop} (hP : Kept cfg clock P) (rand : Int → Nat) (h : P s)
    (c : Call) :
    ∃ s', call cfg rand clock s c = some s' ∧ P s' ∧ s'.promotions ≤ s.promotions + 1 := by
  cases c with
  | checkTarget =>
      obtain ⟨heff, hprom⟩ := checkTarget_effect cfg rand clock s
      exact ⟨_, rfl, hP.target s _ h heff, hprom.le.trans (Nat.le_succ _)⟩
  | processUeEstablishInfo msg remoteIp =>
      cases msg with
      | none => exact ⟨s, rfl, h, Nat.le_succ _⟩
      | some msg =>
          simp only [Dpe.call, processUeEstablishInfo]
          split_ifs
          · exact ⟨s, rfl, h, Nat.le_succ _⟩
          · obtain ⟨s', k, hloop, h'⟩ := hP.processLoop remoteIp h msg.ueEstabInfoArray
              (convertInt32Endian cfg.endianConvert msg.count) 0 0
            exact ⟨s', by rw [hloop]; rfl, h'⟩

/-- The states between calls, whatever the messages and the values of the clock. -/
inductive Reached (cfg : DpEngineConfig) (rand : Int → Nat) : Receiver → Prop
  | new : Reached cfg rand newReceiver
  | call {s s' : Receiver} (clock : Int) (c : Call) :
      Reached cfg rand s → call cfg rand clock s c = some s' → Reached cfg rand s'

theorem Reached.tracking (h : Reached cfg rand s) : Tracking s := by
  induction h with
  | new => exact tracking_new
  | call clock c _ hcall ih =>
      obtain ⟨s1, hs1, h1, -⟩ := (tracking_kept cfg clock).call rand ih c
      obtain rfl := Option.some.inj (hs1.symm.trans hcall)
      exact h1

/-- **The structural invariant of the target tracker.** Between any calls `Tracking` holds,
and every further call returns and promotes at most one target. -/
theorem tracker_keeps_structure (cfg : DpEngineConfig) (rand : Int → Nat) {s : Receiver}
    (h : Reached cfg rand s) :
    Tracking s ∧ ∀ (clock : Int) (c : Call), ∃ s', call cfg rand clock s c = some s' ∧
      s'.promotions ≤ s.promotions + 1 := by
  refine ⟨h.tracking, fun clock c => ?_⟩
  obtain ⟨s', hs', -, hprom⟩ := (tracking_kept cfg clock).call rand h.tracking c
  exact ⟨s', hs', hprom⟩

/-- A message with one entry. -/
def oneEntry (prbPower ta : Int) : Call :=
  .processUeEstablishInfo (some ⟨1, fun _ => ⟨0, prbPower, 0x3d, ta⟩⟩) "10.0.0.1"

/-- Calls at the given values of the clock. -/
def calls (cfg : DpEngineConfig) (rand : Int → Nat) (s : Receiver) :
    List (Int × Call) → Option Receiver
  | [] => some s
  | (clock, c) :: rest => (call cfg rand clock s c).bind fun s => calls cfg rand s rest

theorem Reached.calls (h : Reached cfg rand s) (cs : List (Int × Call))
    (hcs : calls cfg rand s cs = some s') : Reached cfg rand s' := by
  induction cs generalizing s with
  | nil => exact Option.some.inj hcs ▸ h
  | cons c cs ih =>
      obtain ⟨s1, hcall, hrest⟩ := Option.bind_eq_some_iff.mp hcs
      exact ih (h.call c.1 c.2 hcall) hrest

/-- Three messages at the default interval of 20 s make a target. -/
theorem tracker_keeps_structure_promoted : ∃ s, Reached ⟨20000, 1200, false⟩ (fun _ => 0) s ∧
    s.m_targetVect.length = 3 ∧ (Tracking s ∧ ∀ (clock : Int) (c : Call),
      ∃ s', call ⟨20000, 1200, false⟩ (fun _ => 0) clock s c = some s' ∧
        s'.promotions ≤ s.promotions + 1) := by
  have hrun : Reached ⟨20000, 1200, false⟩ (fun _ => 0) _ :=
    Reached.new.calls [(1000, oneEntry 120 4), (21500, oneEntry 118 4), (40700, oneEntry 121 5)]
      rfl
  exact ⟨_, hrun, by decide, tracker_keeps_structure _ _ hrun⟩

end LteUlp.Dpe
