import LteUlp.Dpe.Tracker

set_option autoImplicit false

/-! # The removal of candidates

After the search among the candidates the map is cleared or left as it is. The decision is
made from one time difference, that of the candidate compared last. When all candidates have
timed out they are all removed; while the candidate at the end of the map is live, or the
info continues a candidate, none is. A single candidate is never removed.
-/

namespace LteUlp.Dpe

variable {cfg : DpEngineConfig} {rand : Int → Nat} {clock : Int} {remoteIp : String}
  {e : UeEstablishInfo} {s s' : Receiver} {map : List (Nat × List Recorded)}

/-- The time difference of a candidate, as the search takes it. -/
def timeDiffOf (clock : Int) (last : Recorded) : Int := i32 (clock - last.timestamp)

/-- The last timestamp of the candidate is more than the maximal interval before the
clock. -/
def TimedOut (cfg : DpEngineConfig) (clock : Int) (p : Nat × List Recorded) : Prop :=
  ∃ last, p.2.getLast? = some last ∧ cfg.maxInterval < timeDiffOf clock last

/-- The info continues the candidate. -/
def Accepts (cfg : DpEngineConfig) (clock : Int) (e : UeEstablishInfo)
    (p : Nat × List Recorded) : Prop :=
  ∃ last, p.2.getLast? = some last ∧ cfg.minInterval ≤ timeDiffOf clock last ∧
    timeDiffOf clock last ≤ cfg.maxInterval ∧ resembles e last = true

instance (cfg : DpEngineConfig) (clock : Int) (p : Nat × List Recorded) :
    Decidable (TimedOut cfg clock p) :=
  decidable_of_iff (p.2.getLast?.any fun last => decide (cfg.maxInterval < timeDiffOf clock last))
    (by simp [TimedOut, Option.any_eq_true])

theorem TimedOut.not_accepts {p : Nat × List Recorded} (h : TimedOut cfg clock p) :
    ¬ Accepts cfg clock e p := by
  rintro ⟨last, hlast, -, hle, -⟩
  obtain ⟨last', hlast', hlt⟩ := h
  rw [hlast] at hlast'
  obtain rfl := Option.some.inj hlast'
  omega

/-- The candidate is in the map, perhaps with more entries. -/
def Remains (p : Nat × List Recorded) (map : List (Nat × List Recorded)) : Prop :=
  ∃ q ∈ map, q.1 = p.1 ∧ p.2 <+: q.2

/-! ## The search -/

/-- The search has found no candidate that the info continues. The time difference is that
of the candidate at the end. -/
structure SearchMissed (cfg : DpEngineConfig) (clock : Int) (e : UeEstablishInfo)
    (map : List (Nat × List Recorded)) (timeDiff : Int) : Prop where
  none : ∀ p ∈ map, ¬ Accepts cfg clock e p
  timeDiff : ∀ p, map.getLast? = some p → ∃ last, p.2.getLast? = some last ∧
    timeDiff = timeDiffOf clock last

/-- The search has appended the info to a candidate. -/
structure SearchHit (cfg : DpEngineConfig) (clock : Int) (e : UeEstablishInfo)
    (map map' : List (Nat × List Recorded)) (timeDiff : Int) : Prop where
  accepts : ∃ p ∈ map, Accepts cfg clock e p
  kept : ∀ p ∈ map, Remains p map'
  length : map'.length = map.length
  timeDiff : timeDiff ≤ cfg.maxInterval

theorem Remains.of_mem {p : Nat × List Recorded} (h : p ∈ map) : Remains p map :=
  ⟨p, h, rfl, List.prefix_refl _⟩

theorem Remains.cons {p q : Nat × List Recorded} (h : Remains p map) : Remains p (q :: map) := by
  obtain ⟨r, hr, hkey, hvect⟩ := h
  exact ⟨r, List.mem_cons_of_mem _ hr, hkey, hvect⟩

/-- **The search**, by induction on the map. -/
theorem searchMap_result (he : e.timestamp = clock) (timeDiff : Int)
    {map' : List (Nat × List Recorded)} {timeDiff' : Int}
    {hit : Option (UeEstablishInfo × List Recorded)}
    (h : searchMap cfg clock e map timeDiff = some (map', timeDiff', hit)) :
    (hit = none ∧ map' = map ∧ SearchMissed cfg clock e map timeDiff') ∨
      (∃ x, hit = some x) ∧ SearchHit cfg clock e map map' timeDiff' := by
  induction map generalizing timeDiff map' timeDiff' hit with
  | nil =>
      obtain ⟨rfl, rfl, rfl⟩ : [] = map' ∧ timeDiff = timeDiff' ∧ none = hit := by
        simpa [searchMap] using h
      refine Or.inl ⟨rfl, rfl, fun p hp => absurd hp List.not_mem_nil, fun p hp => ?_⟩
      rw [List.getLast?_nil] at hp
      cases hp
  | cons p rest ih =>
      obtain ⟨id, v⟩ := p
      rw [searchMap] at h
      cases hlast : v.getLast? with
      | none =>
          rw [hlast] at h
          cases h
      | some last =>
          rw [hlast] at h
          simp only [he] at h
          have hdiff : i32 (clock - last.timestamp) = timeDiffOf clock last := rfl
          rw [hdiff] at h
          split at h
          · rename_i hfits
            obtain ⟨rfl, rfl, rfl⟩ := by simpa using h
            refine Or.inr ⟨⟨_, rfl⟩, ⟨(id, v), List.mem_cons_self, last, hlast, hfits⟩,
              fun q hq => ?_, rfl, hfits.2.1⟩
            rcases List.mem_cons.mp hq with rfl | hq
            · exact ⟨_, List.mem_cons_self, rfl, List.prefix_append v _⟩
            · exact .of_mem (List.mem_cons_of_mem _ hq)
          · rename_i hmiss
            obtain ⟨⟨restMap, restDiff, restHit⟩, hrest, hr⟩ := Option.map_eq_some_iff.mp h
            obtain ⟨rfl, rfl, rfl⟩ := by simpa using hr
            rcases ih _ hrest with ⟨rfl, rfl, hnone, hd⟩ | ⟨hx, ⟨q, hq, haccepts⟩, hkept, hlen, hd⟩
            · refine Or.inl ⟨rfl, rfl, fun q hq => ?_, fun q hq => ?_⟩
              · rcases List.mem_cons.mp hq with rfl | hq
                · rintro ⟨last', hlast', hfits⟩
                  rw [hlast] at hlast'
                  obtain rfl := Option.some.inj hlast'
                  exact hmiss hfits
                · exact hnone q hq
              · cases restMap with
                | nil =>
                    obtain rfl := Option.some.inj hq
                    have hrestDiff : timeDiffOf clock last = restDiff := by
                      simpa [searchMap] using hrest
                    exact ⟨last, hlast, hrestDiff.symm⟩
                | cons q' rest' => exact hd q hq
            · refine Or.inr ⟨hx, ⟨q, List.mem_cons_of_mem _ hq, haccepts⟩, fun q hq => ?_,
                congrArg Nat.succ hlen, hd⟩
              rcases List.mem_cons.mp hq with rfl | hq
              · exact .of_mem List.mem_cons_self
              · exact (hkept q hq).cons

/-! ## One info -/

theorem mem_mapInsert_of_mem {k : Nat} {v : List Recorded} {p : Nat × List Recorded}
    (h : p ∈ map) : p ∈ mapInsert k v map := by
  induction map with
  | nil => exact absurd h List.not_mem_nil
  | cons q rest ih =>
      obtain ⟨k', v'⟩ := q
      rw [mapInsert]
      split_ifs
      · exact List.mem_cons_of_mem _ h
      · exact h
      · rcases List.mem_cons.mp h with rfl | h
        · exact List.mem_cons_self
        · exact List.mem_cons_of_mem _ (ih h)

theorem mapInsert_length_le (k : Nat) (v : List Recorded) (map : List (Nat × List Recorded)) :
    (mapInsert k v map).length ≤ map.length + 1 := by
  induction map with
  | nil => exact le_refl _
  | cons q rest ih =>
      obtain ⟨k', v'⟩ := q
      rw [mapInsert]
      split_ifs
      · exact le_refl _
      · exact Nat.le_succ _
      · exact Nat.succ_le_succ ih

theorem Remains.mapInsert {p : Nat × List Recorded} {k : Nat} {v : List Recorded}
    (h : Remains p map) : Remains p (mapInsert k v map) := by
  obtain ⟨q, hq, hkey, hvect⟩ := h
  exact ⟨q, mem_mapInsert_of_mem hq, hkey, hvect⟩

/-- The info has gone through the search without completing a target, and has become a
candidate. -/
structure Added (cfg : DpEngineConfig) (clock : Int) (e : UeEstablishInfo) (s s' : Receiver)
    (timeDiff : Int) (map : List (Nat × List Recorded)) (r : UeEstablishInfo) : Prop where
  search : (SearchMissed cfg clock e s.m_potentialTargetMap timeDiff ∧
      map = s.m_potentialTargetMap ∧ r = e) ∨
    SearchHit cfg clock e s.m_potentialTargetMap map timeDiff
  target : s'.m_targetVect = s.m_targetVect
  map : s'.m_potentialTargetMap = mapInsert s'.m_currentTargetId [⟨r, clock, 0⟩]
    (if timeDiff > cfg.maxInterval then [] else map)

theorem searchTarget_added (he : e.timestamp = clock) {timeDiff timeDiff' : Int} {stop : Bool}
    (h : searchTarget cfg clock remoteIp e s timeDiff = some (s', timeDiff', stop)) :
    (stop = true ∧ s'.m_potentialTargetMap = []) ∨
      stop = false ∧ ∃ map r, Added cfg clock e s s' timeDiff' map r := by
  rw [searchTarget] at h
  cases hsearch : searchMap cfg clock e s.m_potentialTargetMap timeDiff with
  | none =>
      rw [hsearch] at h
      cases h
  | some found =>
      obtain ⟨map, d, hit⟩ := found
      have hresult := searchMap_result he timeDiff hsearch
      rw [hsearch] at h
      cases hit with
      | none =>
          obtain ⟨rfl, rfl, rfl⟩ := by simpa using h
          obtain ⟨-, rfl, hmissed⟩ | ⟨⟨x, hx⟩, -⟩ := hresult
          · exact Or.inr ⟨rfl, _, e, Or.inl ⟨hmissed, rfl, rfl⟩, rfl, rfl⟩
          · cases hx
      | some hit =>
          obtain ⟨r, v⟩ := hit
          simp only at h
          split_ifs at h
          · obtain ⟨rfl, rfl, rfl⟩ := by simpa using h
            exact Or.inl ⟨rfl, rfl⟩
          · obtain ⟨rfl, rfl, rfl⟩ := by simpa using h
            obtain ⟨hnone, -⟩ | ⟨-, hhit⟩ := hresult
            · cases hnone
            · exact Or.inr ⟨rfl, map, r, Or.inr hhit, rfl, rfl⟩

theorem trackTarget_search (hnil : s.m_targetVect = []) (timeDiff : Int) :
    trackTarget cfg clock remoteIp e s timeDiff = .search s timeDiff := by
  simp only [trackTarget, hnil, List.getLast?_nil]

/-- **An info that completes no target** becomes a candidate. -/
theorem processEntry_added (hnil : s.m_targetVect = []) {timeDiff timeDiff' : Int}
    (h : processEntry cfg clock remoteIp e s timeDiff = some (s', timeDiff', false)) :
    ∃ map r, Added cfg clock (receiveEntry cfg clock e) s s' timeDiff' map r := by
  rw [processEntry] at h
  simp only [trackTarget_search hnil] at h
  obtain ⟨hstop, -⟩ | ⟨-, hadded⟩ := searchTarget_added (e := receiveEntry cfg clock e) rfl h
  · cases hstop
  · exact hadded

/-- What the info does to the candidates when it completes no target. -/
structure PrunedTogether (cfg : DpEngineConfig) (clock : Int) (e : UeEstablishInfo)
    (s s' : Receiver) : Prop where
  cleared : (∀ p ∈ s.m_potentialTargetMap, TimedOut cfg clock p) →
    s'.m_potentialTargetMap = [(s'.m_currentTargetId, [⟨e, clock, 0⟩])]
  kept : (∀ last, s.m_potentialTargetMap.getLast? = some last → TimedOut cfg clock last →
      ∃ p ∈ s.m_potentialTargetMap, Accepts cfg clock e p) →
    ∀ p ∈ s.m_potentialTargetMap, Remains p s'.m_potentialTargetMap

/-- **When all candidates have timed out**, the info is the only one afterwards. -/
theorem Added.cleared {timeDiff : Int} {r : UeEstablishInfo}
    (h : Added cfg clock e s s' timeDiff map r)
    (hall : ∀ p ∈ s.m_potentialTargetMap, TimedOut cfg clock p) :
    s'.m_potentialTargetMap = [(s'.m_currentTargetId, [⟨e, clock, 0⟩])] := by
  rcases h.search with ⟨hmissed, rfl, rfl⟩ | hhit
  · have hempty : (if timeDiff > cfg.maxInterval then [] else s.m_potentialTargetMap) = [] := by
      cases hend : s.m_potentialTargetMap.getLast? with
      | none => rw [List.getLast?_eq_none_iff.mp hend, ite_self]
      | some p =>
          obtain ⟨last, hlast, hdiff⟩ := hmissed.timeDiff p hend
          obtain ⟨last', hlast', hlate⟩ := hall p (List.mem_of_getLast? hend)
          rw [hlast] at hlast'
          obtain rfl := Option.some.inj hlast'
          rw [if_pos (by omega)]
    rw [h.map, hempty]
    rfl
  · obtain ⟨p, hp, haccepts⟩ := hhit.accepts
    exact absurd haccepts (hall p hp).not_accepts

/-- **While the end of the map is live** or the info continues a candidate, all remain. -/
theorem Added.kept {timeDiff : Int} {r : UeEstablishInfo}
    (h : Added cfg clock e s s' timeDiff map r)
    (hlive : ∀ last, s.m_potentialTargetMap.getLast? = some last → TimedOut cfg clock last →
      ∃ p ∈ s.m_potentialTargetMap, Accepts cfg clock e p)
    (p : Nat × List Recorded) (hp : p ∈ s.m_potentialTargetMap) :
    Remains p s'.m_potentialTargetMap := by
  have hkept : ¬ timeDiff > cfg.maxInterval ∧ Remains p map := by
    rcases h.search with ⟨hmissed, rfl, -⟩ | hhit
    · refine ⟨fun hlate => ?_, .of_mem hp⟩
      cases hend : s.m_potentialTargetMap.getLast? with
      | none =>
          rw [List.getLast?_eq_none_iff.mp hend] at hp
          cases hp
      | some q =>
          obtain ⟨last, hlast, hdiff⟩ := hmissed.timeDiff q hend
          obtain ⟨x, hx, haccepts⟩ := hlive q hend ⟨last, hlast, hdiff ▸ hlate⟩
          exact hmissed.none x hx haccepts
    · exact ⟨Int.not_lt.mpr hhit.timeDiff, hhit.kept p hp⟩
  rw [h.map, if_neg hkept.1]
  exact hkept.2.mapInsert

theorem Added.length_le {timeDiff : Int} {r : UeEstablishInfo}
    (h : Added cfg clock e s s' timeDiff map r) :
    s'.m_potentialTargetMap.length ≤ s.m_potentialTargetMap.length + 1 := by
  have hlen : map.length = s.m_potentialTargetMap.length := by
    rcases h.search with ⟨-, rfl, -⟩ | hhit
    · rfl
    · exact hhit.length
  rw [h.map]
  refine (mapInsert_length_le _ _ _).trans (Nat.succ_le_succ ?_)
  split_ifs
  · exact Nat.zero_le _
  · exact hlen.le

/-! ## Messages and runs -/

/-- The loop over the infos of a message that arrives in `s`: after `i` infos it goes on, in
the given state. -/
inductive Searching (cfg : DpEngineConfig) (clock : Int) (remoteIp : String)
    (entries : Nat → UeEstablishInfo) (s : Receiver) : Nat → Receiver → Int → Prop
  | start : Searching cfg clock remoteIp entries s 0 s 0
  | info {i : Nat} {t t' : Receiver} {timeDiff timeDiff' : Int} :
      Searching cfg clock remoteIp entries s i t timeDiff →
      processEntry cfg clock remoteIp (entries i) t timeDiff = some (t', timeDiff', false) →
      Searching cfg clock remoteIp entries s (i + 1) t' timeDiff'

theorem Searching.targetVect {entries : Nat → UeEstablishInfo} {i : Nat} {t : Receiver}
    {timeDiff : Int} (h : Searching cfg clock remoteIp entries s i t timeDiff)
    (hnil : s.m_targetVect = []) : t.m_targetVect = [] := by
  induction h with
  | start => exact hnil
  | info _ hentry ih =>
      obtain ⟨_, _, hadded⟩ := processEntry_added ih hentry
      exact hadded.target.trans ih

/-- All candidates have timed out. -/
def AllTimedOut (cfg : DpEngineConfig) (clock : Int) (s : Receiver) : Prop :=
  ∀ p ∈ s.m_potentialTargetMap, TimedOut cfg clock p

instance (cfg : DpEngineConfig) (clock : Int) (s : Receiver) :
    Decidable (AllTimedOut cfg clock s) := inferInstanceAs (Decidable (∀ p ∈ _, _))

/-- How many infos have been received since all candidates had timed out, with one more. -/
def heardSince (cfg : DpEngineConfig) (clock : Int) (s : Receiver) (since : Nat) : Nat :=
  if AllTimedOut cfg clock s then 1 else since + 1

/-- The states of a run under a clock that never goes back, after every check of the target
and after every info. `since` is the number of infos received since all candidates had timed
out when one arrived. -/
inductive Heard (cfg : DpEngineConfig) (rand : Int → Nat) : Receiver → Int → Nat → Prop
  | new (clock : Int) : Heard cfg rand newReceiver clock 0
  | later {s : Receiver} {clock clock' : Int} {since : Nat} :
      Heard cfg rand s clock since → clock ≤ clock' → Heard cfg rand s clock' since
  | check {s : Receiver} {clock : Int} {since : Nat} :
      Heard cfg rand s clock since → Heard cfg rand (checkTarget cfg rand clock s) clock since
  | info {s s' : Receiver} {clock : Int} {since : Nat} {remoteIp : String}
      {e : UeEstablishInfo} {timeDiff timeDiff' : Int} {stop : Bool} :
      Heard cfg rand s clock since →
      processEntry cfg clock remoteIp e s timeDiff = some (s', timeDiff', stop) →
      Heard cfg rand s' clock (heardSince cfg clock s since)

theorem Heard.tracking {since : Nat} (h : Heard cfg rand s clock since) : Tracking s := by
  induction h with
  | new => exact tracking_new
  | later _ _ ih => exact ih
  | check _ ih => exact ih.targetEffect (checkTarget_effect cfg rand _ _).1
  | @info s s' clock since remoteIp e timeDiff timeDiff' stop _ hentry ih =>
      obtain ⟨t, d, b, hb, ht, -⟩ := (tracking_kept cfg clock).processEntry remoteIp ih e timeDiff
      obtain ⟨rfl, -⟩ := Prod.mk.inj (Option.some.inj (hb.symm.trans hentry))
      exact ht

/-- A target effect adds no candidate. -/
theorem TargetEffect.length_le (h : TargetEffect cfg clock s s') :
    s'.m_potentialTargetMap.length ≤ s.m_potentialTargetMap.length := by
  cases h with
  | same vect miss map => exact (congrArg List.length map).le
  | missed last w hw hlast late bound vect miss map => exact (congrArg List.length map).le
  | lost vect miss map =>
      rw [map]
      exact Nat.zero_le _
  | tracked last e hlast window time vect miss map => exact (congrArg List.length map).le

/-- **One info**: the candidates are at most those received since all had timed out. -/
theorem processEntry_length (ht : Tracking s) {timeDiff timeDiff' : Int} {stop : Bool}
    {since : Nat} (hle : s.m_potentialTargetMap.length ≤ since)
    (h : processEntry cfg clock remoteIp e s timeDiff = some (s', timeDiff', stop)) :
    s'.m_potentialTargetMap.length ≤ heardSince cfg clock s since := by
  have heff : TargetEffect cfg clock s
      (trackTarget cfg clock remoteIp (receiveEntry cfg clock e) s timeDiff).receiver :=
    (trackTarget_effect (e := receiveEntry cfg clock e) cfg remoteIp rfl s timeDiff).1
  have heff' := heff.length_le
  by_cases hnil : s.m_targetVect = []
  · rw [processEntry] at h
    simp only [trackTarget_search hnil] at h
    obtain ⟨-, hmap⟩ | ⟨-, _, _, hadded⟩ :=
      searchTarget_added (e := receiveEntry cfg clock e) rfl h
    · rw [hmap]
      exact Nat.zero_le _
    · unfold heardSince
      split_ifs with hall
      · exact (congrArg List.length (hadded.cleared hall)).le
      · exact hadded.length_le.trans (Nat.succ_le_succ hle)
  · -- beside a target there is no candidate, and the info makes at most one
    have hempty := ht.exclusive hnil
    have hall : AllTimedOut cfg clock s := by
      intro p hp
      rw [hempty] at hp
      cases hp
    rw [heardSince, if_pos hall]
    rw [hempty] at heff'
    rw [processEntry] at h
    cases htrack : trackTarget cfg clock remoteIp (receiveEntry cfg clock e) s timeDiff with
    | next t d =>
        simp only [htrack] at h heff'
        obtain ⟨rfl, -, -⟩ := by simpa using h
        exact heff'.trans (Nat.zero_le 1)
    | stop t d =>
        simp only [htrack] at h heff'
        obtain ⟨rfl, -, -⟩ := by simpa using h
        exact heff'.trans (Nat.zero_le 1)
    | search t d =>
        simp only [htrack] at h heff'
        obtain ⟨-, hmap⟩ | ⟨-, _, _, hadded⟩ :=
          searchTarget_added (e := receiveEntry cfg clock e) rfl h
        · rw [hmap]
          exact Nat.zero_le _
        · exact hadded.length_le.trans (Nat.succ_le_succ heff')

theorem Heard.length_le {since : Nat} (h : Heard cfg rand s clock since) :
    s.m_potentialTargetMap.length ≤ since := by
  induction h with
  | new => exact Nat.zero_le _
  | later _ _ ih => exact ih
  | check _ ih => exact (checkTarget_effect cfg rand _ _).1.length_le.trans ih
  | info hrun hentry ih => exact processEntry_length hrun.tracking ih hentry

theorem Heard.processLoop {since : Nat} (h : Heard cfg rand s clock since)
    {entries : Nat → UeEstablishInfo} {n i k : Nat} {timeDiff : Int}
    (hloop : processLoop cfg clock remoteIp entries n i s timeDiff = some (s', k)) :
    ∃ since', Heard cfg rand s' clock since' := by
  induction n generalizing s since i k timeDiff with
  | zero =>
      obtain ⟨rfl, -⟩ := by simpa [Dpe.processLoop] using hloop
      exact ⟨since, h⟩
  | succ n ih =>
      rw [Dpe.processLoop] at hloop
      cases hentry : processEntry cfg clock remoteIp (entries i) s timeDiff with
      | none =>
          rw [hentry] at hloop
          cases hloop
      | some r =>
          obtain ⟨t, d, stop⟩ := r
          have ht := h.info hentry
          rw [hentry] at hloop
          cases stop with
          | true =>
              obtain ⟨rfl, -⟩ := by simpa using hloop
              exact ⟨_, ht⟩
          | false =>
              obtain ⟨⟨t', k'⟩, hrest, hr⟩ := Option.map_eq_some_iff.mp hloop
              obtain ⟨rfl, -⟩ := by simpa using hr
              exact ih ht hrest

/-- The states between calls are among those of a run. -/
theorem Heard.call {since : Nat} (h : Heard cfg rand s clock since) (c : Call)
    (hcall : call cfg rand clock s c = some s') : ∃ since', Heard cfg rand s' clock since' := by
  cases c with
  | checkTarget =>
      obtain rfl := Option.some.inj hcall
      exact ⟨since, h.check⟩
  | processUeEstablishInfo msg remoteIp =>
      obtain ⟨⟨t, k⟩, hmsg, rfl⟩ := Option.map_eq_some_iff.mp hcall
      cases msg with
      | none =>
          obtain ⟨rfl, -⟩ := by simpa [processUeEstablishInfo] using hmsg
          exact ⟨since, h⟩
      | some msg =>
          rw [processUeEstablishInfo] at hmsg
          split_ifs at hmsg
          · obtain ⟨rfl, -⟩ := by simpa using hmsg
            exact ⟨since, h⟩
          · exact h.processLoop hmsg

/-- **The candidates are pruned together.** After an info of a message that completes no
target, all candidates that were there are removed if all had timed out; none is, unless the
candidate at the end of the map had timed out and the info continues no candidate. In every
run the candidates are at most as many as the infos received since all had timed out. -/
theorem candidates_pruned_together (cfg : DpEngineConfig) :
    (∀ (clock : Int) (remoteIp : String) (entries : Nat → UeEstablishInfo) (s : Receiver)
        (i : Nat) (t t' : Receiver) (timeDiff timeDiff' : Int), s.m_targetVect = [] →
        Searching cfg clock remoteIp entries s i t timeDiff →
        processEntry cfg clock remoteIp (entries i) t timeDiff = some (t', timeDiff', false) →
        PrunedTogether cfg clock (receiveEntry cfg clock (entries i)) t t') ∧
      ∀ (rand : Int → Nat) (s : Receiver) (clock : Int) (since : Nat),
        Heard cfg rand s clock since → s.m_potentialTargetMap.length ≤ since := by
  refine ⟨fun clock remoteIp entries s i t t' timeDiff timeDiff' hnil hrun h => ?_,
    fun rand s clock since h => h.length_le⟩
  obtain ⟨map, r, hadded⟩ := processEntry_added (hrun.targetVect hnil) h
  exact ⟨hadded.cleared, hadded.kept⟩

/-- A state with two candidates, from infos that arrived at 1000 and 2000. -/
def twoCandidates : Receiver :=
  { newReceiver with
    m_currentTargetId := 2
    m_potentialTargetMap := [(1, [⟨⟨1000, 120, 0x3d, 4⟩, 1000, 0⟩]),
      (2, [⟨⟨2000, 200, 0x3d, 4⟩, 2000, 0⟩])] }

/-- An info 28 s later replaces both candidates. -/
theorem candidates_pruned_together_late :
    calls ⟨20000, 1200, false⟩ (fun _ => 0) newReceiver
      [(1000, oneEntry 120 4), (2000, oneEntry 200 4)] = some twoCandidates ∧
    ∃ t' timeDiff,
      processEntry ⟨20000, 1200, false⟩ 30000 "10.0.0.1" ⟨0, 60, 0x3d, 4⟩ twoCandidates 0
        = some (t', timeDiff, false) ∧
      PrunedTogether ⟨20000, 1200, false⟩ 30000
        (receiveEntry ⟨20000, 1200, false⟩ 30000 ⟨0, 60, 0x3d, 4⟩) twoCandidates t' ∧
      AllTimedOut ⟨20000, 1200, false⟩ 30000 twoCandidates :=
  ⟨rfl, _, _, rfl, (candidates_pruned_together ⟨20000, 1200, false⟩).1 30000 "10.0.0.1"
    (fun _ => ⟨0, 60, 0x3d, 4⟩) twoCandidates 0 twoCandidates _ 0 _ rfl .start rfl, by decide⟩

/-- The candidates are pruned one by one: one that has timed out is removed, and one that has
not remains. -/
structure PrunedSingly (cfg : DpEngineConfig) (clock : Int) (s s' : Receiver) : Prop where
  removed : ∀ p ∈ s.m_potentialTargetMap, ∀ last, p.2.getLast? = some last →
    cfg.maxInterval < clock - last.timestamp → ∀ q ∈ s'.m_potentialTargetMap, q.1 ≠ p.1
  kept : ∀ p ∈ s.m_potentialTargetMap, ∀ last, p.2.getLast? = some last →
    clock - last.timestamp ≤ cfg.maxInterval → Remains p s'.m_potentialTargetMap

/-- Infos at 1000, 15000 and 30000 that resemble each other in nothing: the first candidate
stays, 29 s after its only info, because the second is live. -/
theorem timedOut_remains : ∃ s s',
    calls ⟨20000, 1200, false⟩ (fun _ => 0) newReceiver
      [(1000, oneEntry 120 4), (15000, oneEntry 200 4)] = some s ∧
    s.m_targetVect = [] ∧
    call ⟨20000, 1200, false⟩ (fun _ => 0) 30000 s (oneEntry 60 4) = some s' ∧
    s'.m_targetVect = [] ∧ ¬ PrunedSingly ⟨20000, 1200, false⟩ 30000 s s' := by
  refine ⟨_, _, rfl, rfl, rfl, rfl, fun h => ?_⟩
  exact h.removed (1, [⟨⟨1000, 120, 0x3d, 4⟩, 1000, 0⟩]) (by decide) _ rfl (by decide)
    (1, [⟨⟨1000, 120, 0x3d, 4⟩, 1000, 0⟩]) (by decide) rfl

end LteUlp.Dpe
