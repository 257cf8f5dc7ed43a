import LteUlp.Dpe.Model
import Std.Data.TreeMap.Lemmas

set_option autoImplicit false

/-! # The analysis of logins of `DpEngine.cpp`

A request makes the database layer run a query, and its callback collects the rows in
`m_imsiLoginTimeMap`, by IMSI. The map lives across the requests. A request by IMSI first
removes the entry of that IMSI, a request by date removes all entries, so that what is
analysed is made of the rows of the request alone.

`numRecord` is the `int count` of the database layer, `i32` of the number of rows. SQLite is
the list of rows that the steps of a query give, `none` when the query cannot be prepared.
-/

namespace LteUlp.Dpe

/-- A C string, without the terminator. -/
abbrev Text := List UInt8

/-- A row of `login_info`, as it is handed to the callback: the null pointer is `none`. -/
structure LoginInfoRow where
  id : UInt32
  imsi : Option Text
  mTmsi : UInt32
  timestamp : Option Text

/-- `DpRequest`, with the request for the login info in place of the union. -/
structure DpRequest where
  msgType : UInt32
  imsi : Text
  mTmsi : UInt32
  beginDate : Text
  endDate : Text

def dpReqGetUeLoginInfoByImsiAndDate : UInt32 := 1
def dpReqGetUeLoginInfoByDate : UInt32 := 2

/-- `m_imsiLoginTimeMap`. -/
abbrev LoginTimeMap := Std.TreeMap Text (List Text)

/-- The arguments of `DbInsertUserLoginBehaviour`. -/
structure LoginBehaviour where
  imsi : Text
  firstTime : Text
  lastTime : Text
  loginCount : UInt32
  deriving DecidableEq

/-! ## The callback -/

/-- `preHandleQueryLoginInfo`. -/
def preHandleQueryLoginInfo (map : LoginTimeMap) (row : LoginInfoRow) : LoginTimeMap :=
  match row.imsi, row.timestamp with
  | some imsi, some timestamp =>
      match map[imsi]? with
      | some loginTimeVect => map.insert imsi (loginTimeVect ++ [timestamp])
      | none => map.insert imsi [timestamp]
  | _, _ => map

/-! ## The database layer -/

def maxImsiByteLength : Nat := 15
def maxDbTimestampLength : Nat := 21

/-- The steps of a query: the callback for every row, and the number of the rows. -/
def queryLoginInfo (map : LoginTimeMap) : Option (List LoginInfoRow) → LoginTimeMap × Int
  | none => (map, 0)
  | some rows => (rows.foldl preHandleQueryLoginInfo map, i32 rows.length)

/-- The checks of the two dates. -/
def validDates (req : DpRequest) : Bool :=
  req.beginDate.length ≤ maxDbTimestampLength && req.endDate.length ≤ maxDbTimestampLength

/-- The check of the IMSI. -/
def validImsi (req : DpRequest) : Bool :=
  req.imsi.length ≠ 0 && req.imsi.length ≤ maxImsiByteLength

/-- `DbQueryLoginInfoByImsiAndDate`: the map, and `*pResultSetCount`, 0 before the call. -/
def dbQueryLoginInfoByImsiAndDate (sqlite : Option (List LoginInfoRow)) (req : DpRequest)
    (map : LoginTimeMap) : LoginTimeMap × Int :=
  if validImsi req && validDates req then queryLoginInfo map sqlite else (map, 0)

/-- `DbQueryLoginInfoByDate`. -/
def dbQueryLoginInfoByDate (sqlite : Option (List LoginInfoRow)) (req : DpRequest)
    (map : LoginTimeMap) : LoginTimeMap × Int :=
  if validDates req then queryLoginInfo map sqlite else (map, 0)

/-! ## The engine -/

/-- `analysisLoginBehavior`. `begin()` and `end() - 1` of an empty vector are a fault. -/
def analysisLoginBehavior (imsi : Text) (loginTime : List Text) : Option LoginBehaviour :=
  match loginTime.head?, loginTime.getLast? with
  | some firstTime, some lastTime =>
      some ⟨imsi, firstTime, lastTime, UInt32.ofNat loginTime.length⟩
  | _, _ => none

/-- `handleUserRequest`: the map, and the calls of `DbInsertUserLoginBehaviour`. -/
def handleUserRequest (sqlite : Option (List LoginInfoRow)) (pRequest : Option DpRequest)
    (map : LoginTimeMap) : Option (LoginTimeMap × List LoginBehaviour) :=
  match pRequest with
  | none => some (map, [])
  | some req =>
      if req.msgType = dpReqGetUeLoginInfoByImsiAndDate then
        let map := map.erase req.imsi
        let (map, numRecord) := dbQueryLoginInfoByImsiAndDate sqlite req map
        if numRecord > 0 then
          match map[req.imsi]? with
          | some loginTime =>
              if (loginTime.length : Int) = numRecord then
                (analysisLoginBehavior req.imsi loginTime).map fun b => (map, [b])
              else some (map.erase req.imsi, [])
          | none => some (map, [])
        else some (map, [])
      else if req.msgType = dpReqGetUeLoginInfoByDate then
        let (map, numRecord) := dbQueryLoginInfoByDate sqlite req ∅
        if numRecord > 0 then
          (map.toList.mapM fun p => analysisLoginBehavior p.1 p.2).map fun bs => (map, bs)
        else some (map, [])
      else some (map, [])

/-- A request, and what SQLite answers to its query. -/
structure Query where
  pRequest : Option DpRequest
  sqlite : Option (List LoginInfoRow)

/-- Requests, one after the other: the calls that each makes. -/
def handleUserRequests : List Query → LoginTimeMap → Option (List (List LoginBehaviour))
  | [], _ => some []
  | q :: rest, map =>
      match handleUserRequest q.sqlite q.pRequest map with
      | none => none
      | some (map, calls) => (handleUserRequests rest map).map (calls :: ·)

/-! ## What a request should do -/

/-- The rows that the callback gets in the query. -/
def Query.rows (q : Query) : List LoginInfoRow :=
  match q.pRequest with
  | none => []
  | some req =>
      if req.msgType = dpReqGetUeLoginInfoByImsiAndDate then
        if validImsi req && validDates req then q.sqlite.getD [] else []
      else if req.msgType = dpReqGetUeLoginInfoByDate then
        if validDates req then q.sqlite.getD [] else []
      else []

/-- What SQLite is relied on for: no column is null, and a query by IMSI gives rows of that
IMSI. -/
structure Query.Delivered (q : Query) : Prop where
  present : ∀ row ∈ q.rows, row.imsi.isSome ∧ row.timestamp.isSome
  imsi : ∀ req, q.pRequest = some req → req.msgType = dpReqGetUeLoginInfoByImsiAndDate →
    ∀ row ∈ q.rows, row.imsi = some req.imsi

/-- The times of an IMSI, in the order of the rows. -/
def timesOf (imsi : Text) (rows : List LoginInfoRow) : List Text :=
  rows.filterMap fun row => if row.imsi = some imsi then row.timestamp else none

/-- One call for each IMSI among the rows, with the first and the last time and the number of
its rows. -/
structure OwnLogins (rows : List LoginInfoRow) (calls : List LoginBehaviour) : Prop where
  once : (calls.map (·.imsi)).Nodup
  each : ∀ imsi, imsi ∈ calls.map (·.imsi) ↔ ∃ row ∈ rows, row.imsi = some imsi
  first : ∀ c ∈ calls, (timesOf c.imsi rows).head? = some c.firstTime
  last : ∀ c ∈ calls, (timesOf c.imsi rows).getLast? = some c.lastTime
  count : ∀ c ∈ calls, c.loginCount.toNat = (timesOf c.imsi rows).length

/-- The rows can be counted: a request by IMSI compares the `int` count with the size of the
vector; a request by date only needs it to be positive, and passes the number of the rows of
an IMSI in an `unsigned int`. -/
def Query.Countable (q : Query) : Prop :=
  match q.pRequest with
  | none => True
  | some req =>
      if req.msgType = dpReqGetUeLoginInfoByImsiAndDate then q.rows.length < 2 ^ 31
      else q.rows = [] ∨
        0 < i32 q.rows.length ∧ ∀ imsi, (timesOf imsi q.rows).length < 2 ^ 32

/-! ## The map after a query -/

theorem timesOf_append (imsi : Text) (rows rows' : List LoginInfoRow) :
    timesOf imsi (rows ++ rows') = timesOf imsi rows ++ timesOf imsi rows' :=
  List.filterMap_append

/-- A row without a null pointer has a time for its IMSI only. -/
theorem timesOf_row {row : LoginInfoRow} {imsi timestamp : Text} (himsi : row.imsi = some imsi)
    (htime : row.timestamp = some timestamp) (imsi' : Text) :
    timesOf imsi' [row] = if imsi = imsi' then [timestamp] else [] := by
  by_cases h : imsi = imsi'
  · simp [timesOf, himsi, htime, h]
  · simp [timesOf, himsi, h]

theorem preHandleQueryLoginInfo_getElem (map : LoginTimeMap) (row : LoginInfoRow)
    (imsi : Text) : (preHandleQueryLoginInfo map row)[imsi]?
      = if timesOf imsi [row] = [] then map[imsi]?
        else some (map[imsi]?.getD [] ++ timesOf imsi [row]) := by
  cases himsi : row.imsi with
  | none => simp [preHandleQueryLoginInfo, timesOf, himsi]
  | some imsi' =>
      cases htime : row.timestamp with
      | none =>
          have hnil : timesOf imsi [row] = [] := by simp [timesOf, htime]
          rw [if_pos hnil]
          simp [preHandleQueryLoginInfo, himsi, htime]
      | some timestamp =>
          have hpush : preHandleQueryLoginInfo map row
              = map.insert imsi' (map[imsi']?.getD [] ++ [timestamp]) := by
            simp only [preHandleQueryLoginInfo, himsi, htime]
            cases map[imsi']? with
            | none => rfl
            | some v => rfl
          rw [hpush, Std.TreeMap.getElem?_insert, timesOf_row himsi htime]
          by_cases h : imsi' = imsi
          · subst h
            simp
          · simp [h]

/-- **The map after the rows of a query**: the times of an IMSI are behind those that the map
already had for it. -/
theorem foldl_preHandle (rows : List LoginInfoRow) (map : LoginTimeMap) (imsi : Text) :
    (rows.foldl preHandleQueryLoginInfo map)[imsi]?
      = if timesOf imsi rows = [] then map[imsi]?
        else some (map[imsi]?.getD [] ++ timesOf imsi rows) := by
  induction rows generalizing map with
  | nil => rfl
  | cons row rows ih =>
      have hcons : timesOf imsi (row :: rows) = timesOf imsi [row] ++ timesOf imsi rows :=
        timesOf_append imsi [row] rows
      rw [List.foldl_cons, ih, preHandleQueryLoginInfo_getElem, hcons]
      by_cases hrow : timesOf imsi [row] = []
      · rw [if_pos hrow, hrow, List.nil_append]
      · have happend : timesOf imsi [row] ++ timesOf imsi rows ≠ [] := fun h =>
          hrow (List.append_eq_nil_iff.mp h).1
        rw [if_neg hrow, if_neg happend, Option.getD_some, List.append_assoc, ite_eq_right_iff]
        intro hrows
        rw [hrows, List.append_nil]

/-- What an entry of the map is analysed to. -/
def summary (p : Text × List Text) : LoginBehaviour :=
  ⟨p.1, p.2.head?.getD [], p.2.getLast?.getD [], UInt32.ofNat p.2.length⟩

theorem analysisLoginBehavior_eq {imsi : Text} {loginTime : List Text} (h : loginTime ≠ []) :
    analysisLoginBehavior imsi loginTime = some (summary (imsi, loginTime)) := by
  unfold analysisLoginBehavior summary
  rw [List.head?_eq_some_head h, List.getLast?_eq_some_getLast h]
  rfl

theorem mapM_analysisLoginBehavior {l : List (Text × List Text)} (h : ∀ p ∈ l, p.2 ≠ []) :
    (l.mapM fun p => analysisLoginBehavior p.1 p.2) = some (l.map summary) := by
  induction l with
  | nil => rfl
  | cons p l ih =>
      have hp : analysisLoginBehavior p.1 p.2 = some (summary p) :=
        analysisLoginBehavior_eq (h p List.mem_cons_self)
      have hl := ih fun q hq => h q (List.mem_cons_of_mem p hq)
      rw [List.mapM_cons, hp, hl]
      rfl

/-! ## Requests -/

/-- No call is what an empty result asks for. -/
theorem ownLogins_nil {rows : List LoginInfoRow} (h : ∀ row ∈ rows, row.imsi.isSome) :
    OwnLogins rows [] ↔ rows = [] := by
  constructor
  · intro hown
    cases rows with
    | nil => rfl
    | cons row rows =>
        obtain ⟨imsi, himsi⟩ := Option.isSome_iff_exists.mp (h row List.mem_cons_self)
        have hmem := (hown.each imsi).mpr ⟨row, List.mem_cons_self, himsi⟩
        cases hmem
  · rintro rfl
    exact ⟨List.nodup_nil, by simp, by simp, by simp, by simp⟩

theorem timesOf_ne_nil {rows : List LoginInfoRow} (h : ∀ row ∈ rows, row.timestamp.isSome)
    (imsi : Text) : timesOf imsi rows ≠ [] ↔ ∃ row ∈ rows, row.imsi = some imsi := by
  constructor
  · intro hne
    obtain ⟨time, htime⟩ := List.exists_mem_of_ne_nil _ hne
    obtain ⟨row, hrow, hif⟩ := List.mem_filterMap.mp htime
    split_ifs at hif with himsi
    exact ⟨row, hrow, himsi⟩
  · rintro ⟨row, hrow, himsi⟩
    obtain ⟨time, htime⟩ := Option.isSome_iff_exists.mp (h row hrow)
    have hmem : time ∈ timesOf imsi rows :=
      List.mem_filterMap.mpr ⟨row, hrow, by rw [if_pos himsi, htime]⟩
    exact List.ne_nil_of_mem hmem

/-- **The summaries of the times of all IMSIs** are the calls asked for, if their numbers fit
into an `unsigned int`. -/
theorem ownLogins_summary {rows : List LoginInfoRow} {l : List (Text × List Text)}
    (htime : ∀ row ∈ rows, row.timestamp.isSome) (hkeys : (l.map Prod.fst).Nodup)
    (hmem : ∀ imsi times, (imsi, times) ∈ l ↔ times = timesOf imsi rows ∧ times ≠ []) :
    OwnLogins rows (l.map summary) ↔ ∀ p ∈ l, p.2.length < 2 ^ 32 := by
  have himsis : (l.map summary).map (·.imsi) = l.map Prod.fst := by
    rw [List.map_map]
    rfl
  have hcount : ∀ p ∈ l, (summary p).loginCount.toNat = p.2.length % 2 ^ 32 := fun p _ =>
    UInt32.toNat_ofNat'
  constructor
  · intro h p hp
    have hsame := (h.count (summary p) (List.mem_map_of_mem hp)).symm
    rw [hcount p hp] at hsame
    have htimes : timesOf (summary p).imsi rows = p.2 := ((hmem p.1 p.2).mp hp).1.symm
    rw [htimes] at hsame
    omega
  · intro hlt
    refine ⟨by rwa [himsis], fun imsi => ?_, ?_, ?_, ?_⟩
    · rw [himsis, ← timesOf_ne_nil htime]
      constructor
      · intro hin
        obtain ⟨⟨imsi', times⟩, hp, rfl⟩ := List.mem_map.mp hin
        obtain ⟨rfl, hne⟩ := (hmem imsi' times).mp hp
        exact hne
      · intro hne
        exact List.mem_map.mpr ⟨(imsi, timesOf imsi rows), (hmem _ _).mpr ⟨rfl, hne⟩, rfl⟩
    all_goals
      intro c hc
      obtain ⟨⟨imsi, times⟩, hp, rfl⟩ := List.mem_map.mp hc
      obtain ⟨rfl, hne⟩ := (hmem imsi times).mp hp
    · show (timesOf imsi rows).head? = some ((timesOf imsi rows).head?.getD [])
      rw [List.head?_eq_some_head hne]
      rfl
    · show (timesOf imsi rows).getLast? = some ((timesOf imsi rows).getLast?.getD [])
      rw [List.getLast?_eq_some_getLast hne]
      rfl
    · rw [hcount _ hp]
      exact Nat.mod_eq_of_lt (hlt _ hp)

theorem i32_natCast_eq {n : Nat} : i32 n = n ↔ n < 2 ^ 31 := by
  unfold i32
  rw [Int.bmod_def]
  split_ifs <;> omega

section Kinds

variable {q : Query} {req : DpRequest}

/-- The query of a request by IMSI, also when it is refused. -/
theorem dbQueryLoginInfoByImsiAndDate_eq (hreq : q.pRequest = some req)
    (htype : req.msgType = dpReqGetUeLoginInfoByImsiAndDate) (map : LoginTimeMap) :
    dbQueryLoginInfoByImsiAndDate q.sqlite req map
      = (q.rows.foldl preHandleQueryLoginInfo map, i32 q.rows.length) := by
  unfold dbQueryLoginInfoByImsiAndDate Query.rows
  simp only [hreq, if_pos htype]
  split_ifs
  · cases q.sqlite <;> rfl
  · rfl

/-- The query of a request by date. -/
theorem dbQueryLoginInfoByDate_eq (hreq : q.pRequest = some req)
    (hne : req.msgType ≠ dpReqGetUeLoginInfoByImsiAndDate)
    (htype : req.msgType = dpReqGetUeLoginInfoByDate) (map : LoginTimeMap) :
    dbQueryLoginInfoByDate q.sqlite req map
      = (q.rows.foldl preHandleQueryLoginInfo map, i32 q.rows.length) := by
  unfold dbQueryLoginInfoByDate Query.rows
  simp only [hreq, if_neg hne, if_pos htype]
  split_ifs
  · cases q.sqlite <;> rfl
  · rfl

/-- All rows are of one IMSI. -/
theorem timesOf_length {rows : List LoginInfoRow} {imsi : Text}
    (h : ∀ row ∈ rows, row.imsi = some imsi ∧ row.timestamp.isSome) :
    (timesOf imsi rows).length = rows.length := by
  induction rows with
  | nil => rfl
  | cons row rows ih =>
      obtain ⟨himsi, htime⟩ := h row List.mem_cons_self
      obtain ⟨time, htime⟩ := Option.isSome_iff_exists.mp htime
      have hrow : timesOf imsi [row] = [time] := by rw [timesOf_row himsi htime, if_pos rfl]
      have hrest := ih fun r hr => h r (List.mem_cons_of_mem row hr)
      calc (timesOf imsi (row :: rows)).length
          = (timesOf imsi [row] ++ timesOf imsi rows).length :=
            congrArg List.length (timesOf_append imsi [row] rows)
        _ = (row :: rows).length := by
            rw [hrow, List.length_append, hrest, List.length_singleton, List.length_cons,
              Nat.add_comm]

/-- **A request by IMSI**: whatever the map was, it makes the call for its rows if their number
fits into the `int` count. -/
theorem byImsi_calls (hq : q.Delivered) (hreq : q.pRequest = some req)
    (htype : req.msgType = dpReqGetUeLoginInfoByImsiAndDate) (map : LoginTimeMap) :
    ∃ map', handleUserRequest q.sqlite q.pRequest map = some (map',
      if q.rows ≠ [] ∧ q.rows.length < 2 ^ 31 then
        [summary (req.imsi, timesOf req.imsi q.rows)]
      else []) := by
  have hlen : (timesOf req.imsi q.rows).length = q.rows.length :=
    timesOf_length fun row hrow => ⟨hq.imsi req hreq htype row hrow, (hq.present row hrow).2⟩
  have hmap : (q.rows.foldl preHandleQueryLoginInfo (map.erase req.imsi))[req.imsi]?
      = if timesOf req.imsi q.rows = [] then none else some (timesOf req.imsi q.rows) := by
    rw [foldl_preHandle, Std.TreeMap.getElem?_erase_self, Option.getD_none, List.nil_append]
  unfold handleUserRequest
  simp only [hreq, if_pos htype, dbQueryLoginInfoByImsiAndDate_eq hreq htype, hmap]
  by_cases hnil : q.rows = []
  · rw [if_neg (by simp [hnil, i32]), if_neg (by simp [hnil])]
    exact ⟨_, rfl⟩
  · have hne : timesOf req.imsi q.rows ≠ [] := fun h =>
      hnil (List.length_eq_zero_iff.mp (hlen ▸ congrArg List.length h))
    rw [if_neg hne]
    by_cases hlt : q.rows.length < 2 ^ 31
    · have hpos : i32 q.rows.length > 0 := by
        have := List.length_pos_of_ne_nil hnil
        rw [i32_natCast_eq.mpr hlt]
        omega
      rw [if_pos hpos, if_pos ⟨hnil, hlt⟩]
      simp only
      rw [if_pos (by rw [hlen, i32_natCast_eq.mpr hlt]), analysisLoginBehavior_eq hne]
      exact ⟨_, rfl⟩
    · have hneq : ((timesOf req.imsi q.rows).length : Int) ≠ i32 q.rows.length := by
        rw [hlen]
        exact fun h => hlt (i32_natCast_eq.mp h.symm)
      have hnone : ¬ (q.rows ≠ [] ∧ q.rows.length < 2 ^ 31) := fun h => hlt h.2
      rw [if_neg hnone]
      simp only [if_neg hneq]
      split
      · exact ⟨_, rfl⟩
      · exact ⟨_, rfl⟩

/-- **A request by date** makes the calls for all IMSIs of its rows if the `int` count of the
rows is positive. -/
theorem byDate_calls (hq : q.Delivered) (hreq : q.pRequest = some req)
    (hne : req.msgType ≠ dpReqGetUeLoginInfoByImsiAndDate)
    (htype : req.msgType = dpReqGetUeLoginInfoByDate) :
    ∃ calls, (∀ map, ∃ map', handleUserRequest q.sqlite q.pRequest map = some (map', calls)) ∧
      (OwnLogins q.rows calls ↔ q.rows = [] ∨
        0 < i32 q.rows.length ∧ ∀ imsi, (timesOf imsi q.rows).length < 2 ^ 32) := by
  have hpresent := hq.present
  let map' : LoginTimeMap := q.rows.foldl preHandleQueryLoginInfo ∅
  have hmap : ∀ imsi times,
      (imsi, times) ∈ map'.toList ↔ times = timesOf imsi q.rows ∧ times ≠ [] := by
    intro imsi times
    rw [Std.TreeMap.mem_toList_iff_getElem?_eq_some, foldl_preHandle]
    simp only [Std.TreeMap.getElem?_emptyc, Option.getD_none, List.nil_append]
    constructor
    · intro h
      split_ifs at h with hnil
      obtain rfl := Option.some.inj h
      exact ⟨rfl, hnil⟩
    · rintro ⟨rfl, hne⟩
      rw [if_neg hne]
  unfold handleUserRequest
  simp only [hreq, if_neg hne, if_pos htype, dbQueryLoginInfoByDate_eq hreq hne htype]
  by_cases hpos : i32 q.rows.length > 0
  · refine ⟨map'.toList.map summary, fun map => ⟨map', ?_⟩, ?_⟩
    · rw [if_pos hpos, mapM_analysisLoginBehavior]
      · rfl
      · exact fun p hp => ((hmap p.1 p.2).mp hp).2
    · have hkeys : (map'.toList.map Prod.fst).Nodup := by
        rw [List.nodup_iff_pairwise_ne, List.pairwise_map]
        refine Std.TreeMap.distinct_keys_toList.imp fun {a b} hab heq => hab ?_
        rw [heq, Std.LawfulEqCmp.compare_eq_iff_eq]
      rw [ownLogins_summary (fun row hrow => (hpresent row hrow).2) hkeys hmap]
      have hall : (∀ p ∈ map'.toList, p.2.length < 2 ^ 32) ↔
          ∀ imsi, (timesOf imsi q.rows).length < 2 ^ 32 := by
        constructor
        · intro h imsi
          by_cases hnil : timesOf imsi q.rows = []
          · rw [hnil]
            decide
          · exact h (imsi, timesOf imsi q.rows) ((hmap imsi _).mpr ⟨rfl, hnil⟩)
        · intro h p hp
          rw [((hmap p.1 p.2).mp hp).1]
          exact h p.1
      rw [hall]
      constructor
      · exact fun h => Or.inr ⟨hpos, h⟩
      · rintro (hnil | h)
        · rw [hnil] at hpos
          exact absurd hpos (by decide)
        · exact h.2
  · refine ⟨[], fun map => ⟨map', by rw [if_neg hpos]⟩, ?_⟩
    rw [ownLogins_nil fun row hrow => (hpresent row hrow).1]
    constructor
    · exact Or.inl
    · rintro (h | h)
      · exact h
      · exact absurd h.1 hpos

/-- The call for the rows of one IMSI. -/
theorem ownLogins_single {rows : List LoginInfoRow} {imsi : Text}
    (h : ∀ row ∈ rows, row.imsi = some imsi ∧ row.timestamp.isSome) (hne : rows ≠ [])
    (hlt : rows.length < 2 ^ 32) : OwnLogins rows [summary (imsi, timesOf imsi rows)] := by
  have htime : ∀ row ∈ rows, row.timestamp.isSome := fun row hrow => (h row hrow).2
  have hmem : ∀ imsi' times, (imsi', times) ∈ [(imsi, timesOf imsi rows)] ↔
      times = timesOf imsi' rows ∧ times ≠ [] := by
    intro imsi' times
    rw [List.mem_singleton, Prod.mk.injEq]
    constructor
    · rintro ⟨rfl, rfl⟩
      obtain ⟨row, hrow⟩ := List.exists_mem_of_ne_nil rows hne
      exact ⟨rfl, (timesOf_ne_nil htime imsi').mpr ⟨row, hrow, (h row hrow).1⟩⟩
    · rintro ⟨rfl, hne'⟩
      obtain ⟨row, hrow, himsi'⟩ := (timesOf_ne_nil htime imsi').mp hne'
      have hsame : imsi' = imsi := Option.some.inj (himsi'.symm.trans (h row hrow).1)
      exact ⟨hsame, hsame ▸ rfl⟩
  refine (ownLogins_summary (l := [(imsi, timesOf imsi rows)]) htime (by simp) hmem).mpr ?_
  intro p hp
  obtain rfl := List.mem_singleton.mp hp
  exact (timesOf_length h).trans_lt hlt

/-- **One request**: its calls depend on its query alone, and they are the ones asked for if
and only if its rows can be counted. -/
theorem handleUserRequest_calls (hq : q.Delivered) :
    ∃ calls, (∀ map, ∃ map', handleUserRequest q.sqlite q.pRequest map = some (map', calls)) ∧
      (OwnLogins q.rows calls ↔ q.Countable) := by
  have hnone : q.rows = [] → (OwnLogins q.rows [] ↔ True) := by
    intro hnil
    rw [hnil]
    exact iff_true_intro ((ownLogins_nil (by simp)).mpr rfl)
  cases hreq : q.pRequest with
  | none =>
      have hrows : q.rows = [] := by simp only [Query.rows, hreq]
      refine ⟨[], fun map => ⟨map, rfl⟩, ?_⟩
      simp only [Query.Countable, hreq]
      exact hnone hrows
  | some req =>
      simp only [Query.Countable, hreq]
      by_cases himsi : req.msgType = dpReqGetUeLoginInfoByImsiAndDate
      · rw [if_pos himsi]
        have hcalls := byImsi_calls hq hreq himsi
        rw [hreq] at hcalls
        refine ⟨_, hcalls, ?_⟩
        have hrows : ∀ row ∈ q.rows, row.imsi = some req.imsi ∧ row.timestamp.isSome :=
          fun row hrow => ⟨hq.imsi req hreq himsi row hrow, (hq.present row hrow).2⟩
        by_cases hnil : q.rows = []
        · rw [if_neg fun h => h.1 hnil, hnone hnil, hnil]
          simp
        · by_cases hlt : q.rows.length < 2 ^ 31
          · rw [if_pos ⟨hnil, hlt⟩]
            exact iff_of_true (ownLogins_single hrows hnil (by omega)) hlt
          · rw [if_neg fun h => hlt h.2, ownLogins_nil fun row hrow => (hq.present row hrow).1]
            exact iff_of_false hnil hlt
      · rw [if_neg himsi]
        by_cases hdate : req.msgType = dpReqGetUeLoginInfoByDate
        · have hcalls := byDate_calls hq hreq himsi hdate
          rwa [hreq] at hcalls
        · have hrows : q.rows = [] := by
            simp only [Query.rows, hreq, if_neg himsi, if_neg hdate]
          refine ⟨[], fun map => ⟨map, ?_⟩, ?_⟩
          · simp only [handleUserRequest, if_neg himsi, if_neg hdate]
          · simp only [hrows, true_or]
            rw [← hrows]
            exact hnone hrows

end Kinds

/-- **The analysis depends on the request's own query.** In every sequence of requests, from
any map, a request makes the calls that it makes on its own; and they are one for each IMSI
of its rows, with the first time, the last time and the number, if and only if its rows can be
counted. -/
theorem loginAnalysis_own (qs : List Query) (map : LoginTimeMap)
    (hqs : ∀ q ∈ qs, q.Delivered) :
    ∃ outs, handleUserRequests qs map = some outs ∧
      List.Forall₂ (fun q calls =>
        (∃ map', handleUserRequest q.sqlite q.pRequest ∅ = some (map', calls)) ∧
          (OwnLogins q.rows calls ↔ q.Countable)) qs outs := by
  induction qs generalizing map with
  | nil => exact ⟨[], rfl, .nil⟩
  | cons q qs ih =>
      obtain ⟨calls, hcalls, hown⟩ := handleUserRequest_calls (hqs q List.mem_cons_self)
      obtain ⟨map', hmap'⟩ := hcalls map
      obtain ⟨outs, houts, hrest⟩ := ih map' fun p hp => hqs p (List.mem_cons_of_mem q hp)
      refine ⟨calls :: outs, ?_, .cons ⟨hcalls ∅, hown⟩ hrest⟩
      rw [handleUserRequests, hmap']
      simp only [houts, Option.map_some]

/-- A login at a time. -/
def loginRow (imsi timestamp : Text) : LoginInfoRow := ⟨0, some imsi, 0, some timestamp⟩

/-- A request by IMSI. -/
def imsiRequest (imsi : Text) : DpRequest := ⟨dpReqGetUeLoginInfoByImsiAndDate, imsi, 0, [], []⟩

/-- A request by date and then one by an IMSI that the first has left in the map. -/
def twoQueries : List Query :=
  [⟨some ⟨dpReqGetUeLoginInfoByDate, [], 0, [], []⟩,
      some [loginRow [0x34] [0x31], loginRow [0x35] [0x32], loginRow [0x34] [0x33]]⟩,
    ⟨some (imsiRequest [0x34]), some [loginRow [0x34] [0x37]]⟩]

theorem loginAnalysis_own_two : ∃ outs, handleUserRequests twoQueries ∅ = some outs ∧
    List.Forall₂ (fun q calls =>
      (∃ map', handleUserRequest q.sqlite q.pRequest ∅ = some (map', calls)) ∧
        (OwnLogins q.rows calls ↔ q.Countable)) twoQueries outs := by
  refine loginAnalysis_own twoQueries ∅ fun q hq => ?_
  simp only [twoQueries, List.mem_cons, List.not_mem_nil, or_false] at hq
  rcases hq with rfl | rfl
  · refine ⟨by decide, fun req hreq himsi => ?_⟩
    obtain rfl := Option.some.inj hreq
    exact absurd himsi (by decide)
  · refine ⟨by decide, fun req hreq _ => ?_⟩
    obtain rfl := Option.some.inj hreq
    decide

/-- A request by IMSI with one row more than an `int` can count. -/
def manyRows : Query :=
  ⟨some (imsiRequest [0x34]), some (List.replicate (2 ^ 31) (loginRow [0x34] [0x31]))⟩

theorem manyRows_rows : manyRows.rows = List.replicate (2 ^ 31) (loginRow [0x34] [0x31]) := rfl

theorem manyRows_delivered : manyRows.Delivered := by
  refine ⟨fun row hrow => ?_, fun req hreq _ row hrow => ?_⟩
  · rw [manyRows_rows] at hrow
    obtain rfl := List.eq_of_mem_replicate hrow
    exact ⟨rfl, rfl⟩
  · rw [manyRows_rows] at hrow
    obtain rfl := List.eq_of_mem_replicate hrow
    obtain rfl := Option.some.inj hreq
    rfl

/-- They make no call. -/
theorem manyRows_dropped : ∃ map',
    handleUserRequest manyRows.sqlite manyRows.pRequest ∅ = some (map', []) ∧
      ¬ OwnLogins manyRows.rows [] := by
  have hlen : manyRows.rows.length = 2 ^ 31 := by rw [manyRows_rows, List.length_replicate]
  have hpresent : ∀ row ∈ manyRows.rows, row.imsi.isSome := fun row hrow =>
    (manyRows_delivered.present row hrow).1
  obtain ⟨map', hcalls⟩ := byImsi_calls manyRows_delivered rfl rfl ∅
  have hnot : ¬ (manyRows.rows ≠ [] ∧ manyRows.rows.length < 2 ^ 31) := by
    rw [hlen]
    exact fun h => absurd h.2 (lt_irrefl _)
  rw [if_neg hnot] at hcalls
  refine ⟨map', hcalls, fun hown => ?_⟩
  have hnil := (ownLogins_nil hpresent).mp hown
  rw [hnil] at hlen
  exact absurd hlen (by decide)

end LteUlp.Dpe
