import LteUlp.Config.Model
import LteUlp.Json.Chars

set_option autoImplicit false

/-! # What a configuration file can do

Whatever is in the file, the values that `ParseConfig` leaves are those that the
initialisation can work with (`parseConfig_counts`). The result is the one of the document in
the file, although the buffer is not terminated behind it (`parseFile_document`). The program
does not get there if one of the objects that it looks for members in is an array with items
(`parseConfig_none_iff`).
-/

namespace LteUlp.Config

open Json

variable {D σ : Type} {libc : Libc D}

/-! ## What all settings keep -/

/-- The setting keeps `P`, whatever the item. -/
def Setting.Keeps (P : σ → Prop) (s : Setting D σ) : Prop :=
  ∀ item c c', P c → s.assign item c = some c' → P c'

theorem applySettings_keeps {P : σ → Prop} {root : Item D} {settings : List (Setting D σ)}
    (hkeeps : ∀ s ∈ settings, s.Keeps P) {c c' : σ} (hc : P c)
    (h : applySettings root settings c = some c') : P c' := by
  induction settings generalizing c with
  | nil =>
      cases h
      exact hc
  | cons s settings ih =>
      have hrest : ∀ t ∈ settings, t.Keeps P := fun t ht => hkeeps t (List.mem_cons_of_mem _ ht)
      unfold applySettings at h
      split at h
      · cases h
      · exact ih hrest hc h
      · split at h
        · cases h
        · rename_i hassign
          exact ih hrest (hkeeps s List.mem_cons_self _ _ _ hc hassign) h

theorem setting_keeps {P : σ → Prop} {β : Type} {name : String} {read : Item D → Option β}
    {set : β → σ → σ} (h : ∀ item v c, read item = some v → P c → P (set v c)) :
    (setting name read set).Keeps P := by
  intro item c c' hc hassign
  simp only [setting] at hassign
  split at hassign
  · rename_i v hv
    cases hassign
    exact h item v c hv hc
  · cases hassign
    exact hc

/-- A setting of something that `P` does not speak of. -/
theorem setting_keeps_other {P : σ → Prop} {β : Type} {name : String}
    {read : Item D → Option β} {set : β → σ → σ} (h : ∀ v c, P c → P (set v c)) :
    (setting name read set).Keeps P :=
  setting_keeps fun _ v c _ hc => h v c hc

theorem parseFile_keeps {P : σ → Prop} {settings : List (Setting D σ)}
    (hkeeps : ∀ s ∈ settings, s.Keeps P) {file : Option (List UInt8)} {stack : List UInt8}
    {c c' : σ} (hc : P c) (h : parseFile libc settings file stack c = some c') : P c' := by
  unfold parseFile at h
  split at h
  · cases h
    exact hc
  · simp only at h
    split at h
    · cases h
      exact hc
    · split at h
      · exact applySettings_keeps hkeeps hc h
      · cases h
        exact hc
      · cases h
      · cases h

/-! ## The values -/

theorem number_eq_some {allowed : Int → Bool} {item : Item D} {v : Int}
    (h : number libc allowed item = some v) : allowed v = true ∧ v ≤ 2147483647 := by
  unfold number at h
  split at h
  · split at h
    · rename_i hallowed
      cases h
      refine ⟨hallowed, ?_⟩
      unfold valueint
      omega
    · cases h
  · cases h

/-- An `int` that a timer can be set to. -/
def Interval (v : Int) : Prop := 0 < v ∧ v ≤ 2147483647

theorem positive_eq_some {item : Item D} {v : Int} (h : positive libc item = some v) :
    Interval v := by
  have := number_eq_some h
  exact ⟨by simpa using this.1, this.2⟩

theorem logLevelOf_le (s : List UInt8) : logLevelOf s ≤ 4 := by
  unfold logLevelOf infoLevel
  repeat' split
  all_goals decide

theorem uint32_toNat {v : Int} (hv : 0 ≤ v) (hv' : v ≤ 2147483647) :
    (uint32 v).toNat = v.toNat := by
  unfold uint32 UInt32.ofInt
  rw [UInt32.toNat_ofNat']
  omega

/-- A logger that can be set up: there is a name for the level, and a logger of the type. -/
structure LoggerConfig.Valid (c : LoggerConfig) : Prop where
  level : c.logLevel ≤ 4
  type : c.logType < 3

theorem loggerSettings_keep : ∀ s ∈ loggerSettings libc, s.Keeps LoggerConfig.Valid := by
  have hother : ∀ c c' : LoggerConfig, c'.logLevel = c.logLevel → c'.logType = c.logType →
      c.Valid → c'.Valid := fun c c' hl ht h => ⟨hl ▸ h.level, ht ▸ h.type⟩
  intro s hs
  simp only [loggerSettings, List.mem_cons, List.not_mem_nil, or_false] at hs
  rcases hs with rfl | rfl | hs
  · exact setting_keeps_other fun s c hc => ⟨logLevelOf_le s, hc.type⟩
  · refine setting_keeps fun item v c hv hc => ⟨hc.level, ?_⟩
    obtain ⟨hallowed, hle⟩ := number_eq_some hv
    simp only [Bool.and_eq_true, decide_eq_true_eq] at hallowed
    have hlt : v < 3 := hallowed.2
    rw [UInt32.lt_iff_toNat_lt, uint32_toNat hallowed.1 hle]
    show v.toNat < 3
    omega
  · rcases hs with rfl | rfl | rfl | rfl | rfl | rfl | rfl | rfl | rfl | rfl | rfl | rfl | rfl <;>
      exact setting_keeps_other fun v c hc => hother c _ rfl rfl hc

/-- A configuration that the ULP can be set up with. -/
structure LteConfig.Valid (c : LteConfig) : Prop where
  polling : Interval c.pollingInterval
  cleanup : Interval c.resCleanupTimer
  identity : Interval c.ueIdentityWaitTime
  logger : c.logConfig.Valid
  report : c.kpiConfig.reportType ≤ 3

theorem gLteConfig_valid : gLteConfig.Valid where
  polling := ⟨by decide, by decide⟩
  cleanup := ⟨by decide, by decide⟩
  identity := ⟨by decide, by decide⟩
  logger := ⟨by decide, by decide⟩
  report := by decide

theorem kpiSettings_keep :
    ∀ s ∈ kpiSettings libc, s.Keeps fun c => c.reportType ≤ 3 := by
  intro s hs
  simp only [kpiSettings, List.mem_cons, List.not_mem_nil, or_false] at hs
  rcases hs with rfl | hs
  · refine setting_keeps fun item v c hv hc => ?_
    obtain ⟨hallowed, hle⟩ := number_eq_some hv
    simp only [Bool.and_eq_true, decide_eq_true_eq] at hallowed
    have hle3 : v ≤ 3 := hallowed.1
    rw [UInt32.le_iff_toNat_le, uint32_toNat hallowed.2 hle]
    show v.toNat ≤ 3
    omega
  · rcases hs with rfl | rfl | rfl | rfl | rfl <;>
      exact setting_keeps_other fun v c hc => hc

theorem ulpSettings_keep : ∀ s ∈ ulpSettings libc, s.Keeps LteConfig.Valid := by
  intro s hs
  simp only [ulpSettings, List.mem_cons, List.not_mem_nil, or_false] at hs
  rcases hs with rfl | rfl | rfl | rfl | rfl | rfl | rfl | rfl | rfl | rfl | rfl
  · exact setting_keeps fun _ v c hv hc => { hc with polling := positive_eq_some hv }
  · exact setting_keeps fun _ v c hv hc => { hc with cleanup := positive_eq_some hv }
  · exact setting_keeps fun _ v c hv hc => { hc with identity := positive_eq_some hv }
  iterate 6
    exact setting_keeps_other fun v c hc =>
      ⟨hc.polling, hc.cleanup, hc.identity, hc.logger, hc.report⟩
  · intro item c c' hc h
    obtain ⟨l, hl, rfl⟩ := Option.map_eq_some_iff.mp h
    exact { hc with logger := applySettings_keeps loggerSettings_keep hc.logger hl }
  · intro item c c' hc h
    obtain ⟨k, hk, rfl⟩ := Option.map_eq_some_iff.mp h
    exact { hc with
      report := applySettings_keeps (P := fun c => c.reportType ≤ 3) kpiSettings_keep
        hc.report hk }

theorem parseConfig_valid {file : Option (List UInt8)} {stack : List UInt8} {c c' : LteConfig}
    (hc : c.Valid) (h : parseConfig libc file stack c = some c') : c'.Valid :=
  parseFile_keeps ulpSettings_keep hc h

/-! ## What is set up with the values -/

theorem uint32_tdiv {a b : Int} (ha : Interval a) (hb : Interval b) :
    (uint32 (a.tdiv b)).toNat = a.toNat / b.toNat := by
  obtain ⟨m, rfl⟩ := Int.eq_ofNat_of_zero_le (Int.le_of_lt ha.1)
  obtain ⟨n, rfl⟩ := Int.eq_ofNat_of_zero_le (Int.le_of_lt hb.1)
  have hle : ((m / n : Nat) : Int) ≤ 2147483647 :=
    Int.le_trans (Int.ofNat_le.mpr (Nat.div_le_self m n)) ha.2
  have hdiv : (m : Int).tdiv (n : Int) = ((m / n : Nat) : Int) := rfl
  rw [hdiv, uint32_toNat (Int.natCast_nonneg _) hle]
  rfl

theorem uint32_eq_zero_iff (a : UInt32) : a = 0 ↔ a.toNat = 0 := by
  rw [← UInt32.toNat_inj]
  rfl

theorem LteConfig.Valid.maxRrcCtxIdleCount_eq {c : LteConfig} (hc : c.Valid) :
    ∃ n, maxRrcCtxIdleCount c = some n ∧ 0 < n.toNat ∧
      (c.pollingInterval ≤ c.ueIdentityWaitTime →
        n.toNat = c.ueIdentityWaitTime.toNat / c.pollingInterval.toNat) := by
  have hdiv := uint32_tdiv hc.identity hc.polling
  have hpos := hc.polling.1
  unfold maxRrcCtxIdleCount
  rw [if_neg (by omega)]
  simp only [uint32_eq_zero_iff, hdiv]
  refine ⟨_, rfl, ?_, fun hle => ?_⟩
  · split
    · decide
    · omega
  · have hge : 0 < c.ueIdentityWaitTime.toNat / c.pollingInterval.toNat :=
      Nat.div_pos (by omega) (by omega)
    rw [if_neg (by omega), hdiv]

theorem LteConfig.Valid.maxIdleCount_eq {c : LteConfig} (hc : c.Valid) (g : UInt32) :
    0 < (maxIdleCount c g).toNat ∧ (c.pollingInterval ≤ c.resCleanupTimer →
      (maxIdleCount c g).toNat = c.resCleanupTimer.toNat / c.pollingInterval.toNat) := by
  have hdiv := uint32_tdiv hc.cleanup hc.polling
  have hpos := hc.polling.1
  unfold maxIdleCount
  rw [if_pos hpos]
  simp only [uint32_eq_zero_iff, hdiv]
  refine ⟨?_, fun hle => ?_⟩
  · split
    · decide
    · omega
  · have hge : 0 < c.resCleanupTimer.toNat / c.pollingInterval.toNat :=
      Nat.div_pos (by omega) (by omega)
    rw [if_neg (by omega), hdiv]

/-- KPIs are written to a file. -/
def LteKpiConfig.ToFile (c : LteKpiConfig) : Prop := c.reportType = 1 ∨ c.reportType = 2

/-- A period from 2^31 on is a negative number in the file. -/
theorem LteConfig.Valid.kpiNotifyCount_eq {c : LteConfig} (hc : c.Valid) {g : Int}
    (hg : 0 < g) : ∃ n, kpiNotifyCount c g = some n ∧ 0 < n ∧
      (c.kpiConfig.ToFile → c.kpiConfig.reportFilePeriod.toNat < 2 ^ 31 →
        c.pollingInterval.toNat ≤ c.kpiConfig.reportFilePeriod.toNat →
          n = c.kpiConfig.reportFilePeriod.toNat / c.pollingInterval.toNat) := by
  have hpos := hc.polling.1
  have hpolling := uint32_toNat (Int.le_of_lt hpos) hc.polling.2
  have hinterval : ¬ uint32 c.pollingInterval = 0 := by
    rw [uint32_eq_zero_iff, hpolling]
    omega
  unfold kpiNotifyCount
  simp only [hinterval, if_false]
  split
  · refine ⟨_, rfl, by split <;> omega, fun _ hperiod hle => ?_⟩
    have hge : 0 < c.kpiConfig.reportFilePeriod.toNat / c.pollingInterval.toNat :=
      Nat.div_pos hle (by omega)
    have hlt : c.kpiConfig.reportFilePeriod.toNat / c.pollingInterval.toNat < 2 ^ 31 :=
      Nat.lt_of_le_of_lt (Nat.div_le_self _ _) hperiod
    have hquotient : (c.kpiConfig.reportFilePeriod / uint32 c.pollingInterval).toBitVec.toInt
        = (c.kpiConfig.reportFilePeriod.toNat / c.pollingInterval.toNat : Nat) := by
      rw [BitVec.toInt_eq_toNat_of_lt, UInt32.toNat_toBitVec, UInt32.toNat_div, hpolling]
      rw [UInt32.toNat_toBitVec, UInt32.toNat_div, hpolling]
      omega
    rw [hquotient, if_neg (by omega), Int.natCast_ediv]
  · rename_i hno
    exact ⟨g, rfl, hg, fun hfile => absurd hfile hno⟩

/-! ## Which member a setting takes -/

/-- The first member with the name. -/
def FirstMember (object : Item D) (name : String) (item : Item D) : Prop :=
  ∃ before s after, object = .object (before ++ (s, item) :: after) ∧
    cString s = ascii name.toList ∧ ∀ m ∈ before, cString m.1 ≠ ascii name.toList

/-- An array that is not empty. -/
def FilledArray (item : Item D) : Prop := ∃ x xs, item = .array (x :: xs)

theorem getObjectItem_eq_none_iff {object : Item D} {name : String} :
    getObjectItemCaseSensitive object name = none ↔ FilledArray object := by
  unfold getObjectItemCaseSensitive FilledArray
  split
  · simp
  · rename_i x xs
    simp
  · rename_i hno
    simp only [reduceCtorEq, false_iff, not_exists]
    exact fun x xs h => hno x xs h

theorem getObjectItem_eq_some_iff {object item : Item D} {name : String} :
    getObjectItemCaseSensitive object name = some (some item) ↔
      FirstMember object name item := by
  unfold FirstMember
  cases object with
  | object child =>
      simp only [getObjectItemCaseSensitive, Option.some.injEq, Option.map_eq_some_iff,
        List.find?_eq_some_iff_append, Item.object.injEq]
      constructor
      · rintro ⟨⟨s, x⟩, ⟨hs, before, after, rfl, hbefore⟩, rfl⟩
        exact ⟨before, s, after, rfl, by simpa using hs, fun m hm => by simpa using hbefore m hm⟩
      · rintro ⟨before, s, after, rfl, hs, hbefore⟩
        exact ⟨(s, item), ⟨by simpa using hs, before, after, rfl,
          fun m hm => by simpa using hbefore m hm⟩, rfl⟩
  | array child =>
      cases child <;> simp [getObjectItemCaseSensitive]
  | _ => simp [getObjectItemCaseSensitive]

section Failures

variable {root item : Item D} {settings : List (Setting D σ)} {name : String}

theorem not_filledArray (h : (getObjectItemCaseSensitive root name).isSome) :
    ¬ FilledArray root := fun hroot => by
  rw [getObjectItem_eq_none_iff.mpr hroot] at h
  cases h

theorem not_firstMember (h : getObjectItemCaseSensitive root name = some none)
    (item : Item D) : ¬ FirstMember root name item := fun hfirst => by
  rw [getObjectItem_eq_some_iff.mpr hfirst] at h
  cases h

theorem firstMember_iff_eq (h : getObjectItemCaseSensitive root name = some (some item))
    (item' : Item D) : FirstMember root name item' ↔ item' = item := by
  rw [← getObjectItem_eq_some_iff, h]
  simp [eq_comm]

/-- A run over the settings does not get to the end if the object has no names, or if one of
the settings does not. -/
theorem applySettings_eq_none_iff (fails : Setting D σ → Item D → Prop)
    (hfails : ∀ s ∈ settings, ∀ item c, s.assign item c = none ↔ fails s item) (c : σ) :
    applySettings root settings c = none ↔ (settings ≠ [] ∧ FilledArray root) ∨
      ∃ s ∈ settings, ∃ item, FirstMember root s.name item ∧ fails s item := by
  induction settings generalizing c with
  | nil => simp [applySettings]
  | cons s settings ih =>
      have hrest := ih fun t ht => hfails t (List.mem_cons_of_mem _ ht)
      have hs := hfails s List.mem_cons_self
      simp only [ne_eq, reduceCtorEq, not_false_eq_true, true_and, List.mem_cons,
        exists_eq_or_imp]
      unfold applySettings
      cases hget : getObjectItemCaseSensitive root s.name with
      | none => simp [getObjectItem_eq_none_iff.mp hget]
      | some found =>
          have hroot : ¬ FilledArray root := not_filledArray (by rw [hget]; rfl)
          cases found with
          | none => simp [hrest c, hroot, not_firstMember hget]
          | some item =>
              simp only [firstMember_iff_eq hget, exists_eq_left, hroot, false_or]
              cases hassign : s.assign item c with
              | none => simp [(hs item c).mp hassign]
              | some c' =>
                  have hok : ¬ fails s item := fun h => by
                    rw [(hs item c).mpr h] at hassign
                    cases hassign
                  simp [hrest c', hroot, hok]

theorem setting_assign_ne_none {β : Type} {read : Item D → Option β} {set : β → σ → σ}
    (item : Item D) (c : σ) : (setting name read set).assign item c ≠ none := by
  unfold setting
  simp only
  split <;> simp

theorem applySettings_values (hne : settings ≠ [])
    (hvalues : ∀ s ∈ settings, ∀ item c, s.assign item c ≠ none) (c : σ) :
    applySettings root settings c = none ↔ FilledArray root := by
  rw [applySettings_eq_none_iff (fun _ _ => False)
    fun s hs item c => iff_of_false (hvalues s hs item c) not_false]
  simp [hne]

theorem loggerParseConfig_eq_none_iff (c : LoggerConfig) :
    loggerParseConfig libc item c = none ↔ FilledArray item := by
  refine applySettings_values (by simp [loggerSettings]) (fun s hs item c => ?_) c
  simp only [loggerSettings, List.mem_cons, List.not_mem_nil, or_false] at hs
  rcases hs with rfl | rfl | rfl | rfl | rfl | rfl | rfl | rfl | rfl | rfl | rfl | rfl | rfl |
    rfl | rfl <;> exact setting_assign_ne_none item c

theorem kpiSettings_eq_none_iff (c : LteKpiConfig) :
    applySettings item (kpiSettings libc) c = none ↔ FilledArray item := by
  refine applySettings_values (by simp [kpiSettings]) (fun s hs item c => ?_) c
  simp only [kpiSettings, List.mem_cons, List.not_mem_nil, or_false] at hs
  rcases hs with rfl | rfl | rfl | rfl | rfl | rfl <;> exact setting_assign_ne_none item c

/-- The names of the settings that are objects. -/
def objectSettings : List String := ["LoggerConfig", "KpiConfig"]

theorem ulpSettings_eq_none_iff (c : LteConfig) :
    applySettings root (ulpSettings libc) c = none ↔ FilledArray root ∨
      ∃ name ∈ objectSettings, ∃ item, FirstMember root name item ∧ FilledArray item := by
  rw [applySettings_eq_none_iff fun s item => s.name ∈ objectSettings ∧ FilledArray item]
  · simp [ulpSettings, setting, objectSettings]
  · intro s hs item c
    simp only [ulpSettings, List.mem_cons, List.not_mem_nil, or_false] at hs
    rcases hs with rfl | rfl | rfl | rfl | rfl | rfl | rfl | rfl | rfl | rfl | rfl
    iterate 9
      exact iff_of_false (setting_assign_ne_none item c) fun h => by
        simp [setting, objectSettings] at h
    · simp [objectSettings, loggerParseConfig_eq_none_iff]
    · simp [objectSettings, kpiSettings_eq_none_iff]

end Failures

/-! ## The file and the buffer -/

section File

variable {settings : List (Setting D σ)} {root : Item D} {r doc : List UInt8}

theorem jsonBuffer_of_length {text : List UInt8} (h : text.length < bufferSize)
    (stack : List UInt8) : jsonBuffer text stack = text ++ stack.drop text.length := by
  unfold jsonBuffer
  rw [List.take_of_length_le (Nat.le_of_lt h)]

/-- A file that is neither empty nor too long. -/
theorem parseFile_some {text : List UInt8} (hpos : 0 < text.length)
    (hlen : text.length < bufferSize) (stack : List UInt8) (c : σ) :
    parseFile libc settings (some text) stack c =
      match Json.parse libc (jsonBuffer text stack) with
      | .item root _ => applySettings root settings c
      | .error _ => some c
      | .overrun => none
      | .outOfFuel => none := by
  unfold parseFile
  simp only [List.take_of_length_le (Nat.le_of_lt hlen)]
  exact if_neg (by omega)

theorem parseFile_eq_some_of_length {text : List UInt8}
    (h : ¬ (0 < text.length ∧ text.length < bufferSize)) (stack : List UInt8) (c : σ) :
    parseFile libc settings (some text) stack c = some c := by
  unfold parseFile
  simp only [List.length_take]
  rw [if_pos (by omega)]

theorem parse_of_not_mem {value : List UInt8} (h : (0 : UInt8) ∉ value) :
    Json.parse libc value = .overrun := by
  unfold Json.parse parseWithOpts
  rw [if_neg h]

theorem parse_eq_item_iff {value : List UInt8} (h : (0 : UInt8) ∈ value) :
    (∃ parseEnd, Json.parse libc value = .item root parseEnd) ↔
      ∃ r, Value libc 0 (start value) root r := by
  unfold Json.parse
  simp only [(parseWithOpts_iff libc h false).1]
  simp

/-- A program that is started with a file gets past the settings, unless the text is not
terminated or what is read of it does not let it. -/
theorem parseFile_eq_none_iff {fails : Item D → Prop} {c : σ}
    (hfails : ∀ root, applySettings root settings c = none ↔ fails root)
    (file : Option (List UInt8)) (stack : List UInt8) :
    parseFile libc settings file stack c = none ↔
      ∃ text, file = some text ∧ 0 < text.length ∧ text.length < bufferSize ∧
        (0 ∉ jsonBuffer text stack ∨
          ∃ root r, Value libc 0 (start (jsonBuffer text stack)) root r ∧ fails root) := by
  cases file with
  | none => simp [parseFile]
  | some text =>
      simp only [Option.some.injEq, exists_eq_left']
      by_cases hlen : 0 < text.length ∧ text.length < bufferSize
      · rw [parseFile_some hlen.1 hlen.2]
        simp only [hlen, true_and]
        by_cases hterm : (0 : UInt8) ∈ jsonBuffer text stack
        · simp only [hterm, not_true_eq_false, false_or, exists_and_right,
            ← parse_eq_item_iff hterm]
          rcases (parseWithOpts_iff libc hterm false).2 with ⟨root, e, h⟩ | ⟨position, h, -⟩
          · change Json.parse libc _ = _ at h
            simp [h, hfails]
          · change Json.parse libc _ = _ at h
            simp [h]
        · simp [parse_of_not_mem hterm, hterm]
      · rw [parseFile_eq_some_of_length hlen]
        simp only [reduceCtorEq, false_iff]
        exact fun h => hlen ⟨h.1, h.2.1⟩

/-- **When the ULP does not start.** The buffer has no terminator, or the document, or the
first member for one of the settings that are objects, is an array with items. -/
theorem parseConfig_none_iff (libc : Libc D) (file : Option (List UInt8)) (stack : List UInt8)
    (c : LteConfig) :
    parseConfig libc file stack c = none ↔
      ∃ text, file = some text ∧ 0 < text.length ∧ text.length < bufferSize ∧
        (0 ∉ jsonBuffer text stack ∨
          ∃ root r, Value libc 0 (start (jsonBuffer text stack)) root r ∧
            (FilledArray root ∨
              ∃ name ∈ objectSettings, ∃ item, FirstMember root name item ∧
                FilledArray item)) :=
  parseFile_eq_none_iff (fun _ => ulpSettings_eq_none_iff c) file stack

/-- The settings are those of the document in the file. -/
theorem parseFile_document (hdoc : (0 : UInt8) ∉ doc) (hlen : doc.length < bufferSize)
    (hroot : Value libc 0 (start (doc ++ [0])) root r) (hnumber : ∀ n, root ≠ .number n)
    {stack : List UInt8} (hstack : 0 ∈ stack.drop doc.length) (c : σ) :
    parseFile libc settings (some doc) stack c = applySettings root settings c := by
  have hpos : 0 < doc.length := by
    cases doc with
    | nil =>
        have := hroot.length_lt
        simp [start, textOf, withoutBom, Json.skip] at this
    | cons a doc => simp
  obtain ⟨e, he⟩ := (parse_eq_item_iff (by simp)).mpr ⟨r, hroot⟩
  rw [parseFile_some hpos hlen, jsonBuffer_of_length hlen,
    parse_append hdoc he hnumber hstack]

/-- **The configuration is that of the document.** `jsonBuffer` is not terminated behind what
has been read, and what has been on the stack before stands there. It does not matter, for the
ULP and for the DPE, if the document is an object. -/
theorem parseConfig_document (libc : Libc D) (hdoc : (0 : UInt8) ∉ doc)
    (hlen : doc.length < bufferSize) {members : List (List UInt8 × Item D)}
    (hroot : Value libc 0 (start (doc ++ [0])) (.object members) r) {stack : List UInt8}
    (hstack : 0 ∈ stack.drop doc.length) (c : LteConfig) (loggerConfig : LoggerConfig)
    (e : DpEngineConfig) :
    parseConfig libc (some doc) stack c =
      applySettings (.object members) (ulpSettings libc) c ∧
    parseJsonConfig libc loggerConfig (some doc) stack e =
      applySettings (.object members) (dpEngineSettings libc loggerConfig) e :=
  ⟨parseFile_document hdoc hlen hroot (fun _ h => by cases h) hstack c,
    parseFile_document hdoc hlen hroot (fun _ h => by cases h) hstack e⟩

/-- The configuration of the sample. -/
theorem sample_settings : applySettings (.object sampleMembers) (ulpSettings decimal) gLteConfig
    = some { gLteConfig with pollingInterval := 9 } := rfl

/-- Behind the document, a `7` is left of what has been on the stack. -/
theorem parseConfig_document_sample :
    parseConfig decimal (some sample) (List.replicate 21 1 ++ [7, 0]) gLteConfig =
      some { gLteConfig with pollingInterval := 9 } := by
  have hstack : (0 : UInt8) ∈ (List.replicate 21 (1 : UInt8) ++ [7, 0]).drop sample.length := by
    decide
  have hparse := parseConfig_document decimal (by decide) (by decide) sample_value hstack
    gLteConfig gLteConfig.logConfig .default
  exact hparse.1.trans sample_settings

/-- **Every configuration can be worked with.** Whatever the file holds, the values are in the
ranges that their uses need, there is no division by zero in the initialisation, and the
counts of ticks that come of it are positive, and the quotients of the times where these are not
zero and the period of the reports is not negative. -/
theorem parseConfig_counts (libc : Libc D) (file : Option (List UInt8)) (stack : List UInt8)
    (g : UInt32) {c : LteConfig} (h : parseConfig libc file stack gLteConfig = some c) :
    c.Valid ∧
    (∃ n, maxRrcCtxIdleCount c = some n ∧ 0 < n.toNat ∧
      (c.pollingInterval ≤ c.ueIdentityWaitTime →
        n.toNat = c.ueIdentityWaitTime.toNat / c.pollingInterval.toNat)) ∧
    (0 < (maxIdleCount c g).toNat ∧ (c.pollingInterval ≤ c.resCleanupTimer →
      (maxIdleCount c g).toNat = c.resCleanupTimer.toNat / c.pollingInterval.toNat)) ∧
    ∃ n, kpiNotifyCount c 1 = some n ∧ 0 < n ∧
      (c.kpiConfig.ToFile → c.kpiConfig.reportFilePeriod.toNat < 2 ^ 31 →
        c.pollingInterval.toNat ≤ c.kpiConfig.reportFilePeriod.toNat →
          n = c.kpiConfig.reportFilePeriod.toNat / c.pollingInterval.toNat) := by
  have hc := parseConfig_valid gLteConfig_valid h
  exact ⟨hc, hc.maxRrcCtxIdleCount_eq, hc.maxIdleCount_eq g, hc.kpiNotifyCount_eq (by decide)⟩

/-- An interval, and that KPIs are written to a file. -/
def kpiSample : List UInt8 :=
  ascii "\x7b\"KpiConfig\": \x7b\"ReportType\": 1\x7d, \"PollingInterval\": 9\x7d".toList

theorem parseConfig_counts_sample :
    ∃ c n, parseConfig decimal (some kpiSample) (List.replicate 60 0) gLteConfig = some c ∧
      (maxRrcCtxIdleCount c = some n ∧ n.toNat = 111) ∧ kpiNotifyCount c 1 = some 1111 := by
  have hvalues : (parseConfig decimal (some kpiSample) (List.replicate 60 0) gLteConfig).map
      (fun c => (c.pollingInterval, c.ueIdentityWaitTime, c.kpiConfig.reportType,
        c.kpiConfig.reportFilePeriod)) = some (9, 1000, 1, 10000) := by decide +kernel
  obtain ⟨c, hc, hv⟩ := Option.map_eq_some_iff.mp hvalues
  simp only [Prod.mk.injEq] at hv
  obtain ⟨hpolling, hidentity, htype, hperiod⟩ := hv
  obtain ⟨-, ⟨n, hn, -, hdiv⟩, -, k, hk, -, hquotient⟩ := parseConfig_counts decimal _ _ 1000 hc
  rw [hpolling, hidentity] at hdiv
  rw [hpolling, hperiod] at hquotient
  obtain rfl : k = 1111 := hquotient (Or.inl htype) (by decide) (by decide)
  exact ⟨c, n, hc, ⟨hn, hdiv (by decide)⟩, hk⟩

end File

end LteUlp.Config
