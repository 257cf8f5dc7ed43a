import Mathlib.Data.List.Induction
import LteUlp.Logger.Model

set_option autoImplicit false

/-! # The time stamp of a record

`LoggerGetTimestamp` keeps the text of the last time stamp and writes over the part of it that
has changed: nothing, the milliseconds, the seconds and milliseconds, or all of it. In any
sequence of readings of the clock each call writes what it would write from scratch
(`loggerGetTimestamp_fresh`). The local time is a parameter, with an offset to UTC of whole
minutes that changes only from one minute to the next.
-/

namespace LteUlp.Logger

/-! ## Local time -/

/-- A reading of the clock after 1970 and before 2038. -/
structure Timeval where
  sec : Nat
  usec : Nat
  sec_pos : 0 < sec
  sec_lt : sec < 2 ^ 31
  usec_lt : usec < 1000000

/-- The time zone: how many minutes to add to each minute of UTC, and the text of each day,
`%Y-%m-%d`. -/
structure Clock where
  zone : Int → Int
  date : Int → CString
  date_length : ∀ day, (date day).1.length = 10

/-- `%02d` and `%03d`, for a number that has no more digits. -/
def paddedDecimal : Nat → Nat → List UInt8
  | 0, _ => []
  | width + 1, n => paddedDecimal width (n / 10) ++ [48 + UInt8.ofNat (n % 10)]

/-- Seconds since 1970 in local time. -/
def Clock.localSeconds (clock : Clock) (sec : Nat) : Int :=
  sec + 60 * clock.zone (sec / 60 : Nat)

/-- `%Y-%m-%d %H:%M:%S` of `localtime`. -/
def Clock.text (clock : Clock) (sec : Nat) : List UInt8 :=
  let ofDay := (clock.localSeconds sec % 86400).toNat
  (clock.date (clock.localSeconds sec / 86400)).1 ++ ascii [' ']
    ++ paddedDecimal 2 (ofDay / 3600) ++ ascii [':'] ++ paddedDecimal 2 (ofDay / 60 % 60)
    ++ ascii [':'] ++ paddedDecimal 2 (ofDay % 60)

/-- The milliseconds of a reading. -/
def Timeval.milliSecond (tv : Timeval) : Nat := tv.usec / 1000

/-- The time stamp of a reading: date, time and milliseconds. -/
def Clock.timestamp (clock : Clock) (tv : Timeval) : List UInt8 :=
  clock.text tv.sec ++ (ascii ['.'] ++ paddedDecimal 3 tv.milliSecond)

/-! ## The function -/

/-- `TIMESTAMP_MILLI_SECOND_OFFSET` and `TIMESTAMP_SECOND_OFFSET`, counted from the end of
`TIMESTAMP_SAMPLE`. -/
def timestampMilliSecondOffset : Nat := 23 - 3
def timestampSecondOffset : Nat := 23 - 6

/-- The static variables. -/
structure TimestampCache where
  gCachedTimeStamp : List UInt8
  gPrevSysSecond : Nat
  gPrevSysMilliSecond : Nat

/-- Before the first call. -/
def TimestampCache.start : TimestampCache := ⟨List.replicate maxTimestampLength 0, 0, 0⟩

/-- The whole time stamp is written. -/
def writeTimestamp (clock : Clock) (gCachedTimeStamp : List UInt8) (tv : Timeval) : List UInt8 :=
  let m := snprintf gCachedTimeStamp 0 maxTimestampLength (clock.text tv.sec)
  snprintf m (strlen m) (maxTimestampLength - strlen m)
    (ascii ['.'] ++ paddedDecimal 3 tv.milliSecond)

/-- The part that has changed is written. -/
def TimestampCache.update (clock : Clock) (s : TimestampCache) (tv : Timeval) : List UInt8 :=
  if s.gPrevSysSecond = 0 then writeTimestamp clock s.gCachedTimeStamp tv
  else if s.gPrevSysSecond = tv.sec then
    snprintf s.gCachedTimeStamp timestampMilliSecondOffset
      (maxTimestampLength - timestampMilliSecondOffset) (paddedDecimal 3 tv.milliSecond)
  else if s.gPrevSysSecond / 60 = tv.sec / 60 then
    snprintf s.gCachedTimeStamp timestampSecondOffset (maxTimestampLength - timestampSecondOffset)
      (paddedDecimal 2 (tv.sec % 60) ++ (ascii ['.'] ++ paddedDecimal 3 tv.milliSecond))
  else writeTimestamp clock s.gCachedTimeStamp tv

/-- `LoggerGetTimestamp`: the variables after it, and the buffer `logBuff` with the time stamp
at `logPtr`. -/
def loggerGetTimestamp (clock : Clock) (s : TimestampCache) (tv : Timeval)
    (logBuff : List UInt8) (logPtr : Nat) : TimestampCache × List UInt8 :=
  let t :=
    if s.gPrevSysSecond = tv.sec ∧ s.gPrevSysMilliSecond = tv.milliSecond then s
    else ⟨s.update clock tv, tv.sec, tv.milliSecond⟩
  (t, copyText logBuff logPtr
    (bracketed (t.gCachedTimeStamp.take (strlen t.gCachedTimeStamp)) ++ [0]))

/-- The variables after calls. -/
def TimestampCache.after (clock : Clock) (s : TimestampCache) (tvs : List Timeval) :
    TimestampCache :=
  tvs.foldl (fun s tv => (loggerGetTimestamp clock s tv [] 0).1) s

/-! ## Minutes -/

section Minutes

variable {clock : Clock} {tv : Timeval} {sec sec' n width : Nat}

@[simp] theorem length_paddedDecimal (width n : Nat) : (paddedDecimal width n).length = width := by
  induction width generalizing n with
  | zero => rfl
  | succ width ih => rw [paddedDecimal, List.length_append, ih, List.length_singleton]

theorem zero_notMem_paddedDecimal (width n : Nat) : (0 : UInt8) ∉ paddedDecimal width n := by
  have hdigit : ∀ d < 10, (0 : UInt8) ≠ 48 + UInt8.ofNat d := by decide
  induction width generalizing n with
  | zero => exact List.not_mem_nil
  | succ width ih =>
      rw [paddedDecimal, List.mem_append, List.mem_singleton]
      rintro (h | h)
      · exact ih _ h
      · exact hdigit _ (Nat.mod_lt n (by decide)) h

/-- Everything before the seconds, in a minute of UTC. -/
def Clock.minuteText (clock : Clock) (minute : Nat) : List UInt8 :=
  let local_ := minute + clock.zone minute
  (clock.date (local_ / 1440)).1 ++ ascii [' ']
    ++ paddedDecimal 2 ((local_ % 1440).toNat / 60) ++ ascii [':']
    ++ paddedDecimal 2 ((local_ % 1440).toNat % 60) ++ ascii [':']

/-- **The seconds are those of UTC**, behind a text for the minute. -/
theorem text_eq (clock : Clock) (sec : Nat) :
    clock.text sec = clock.minuteText (sec / 60) ++ paddedDecimal 2 (sec % 60) := by
  have hday : clock.localSeconds sec / 86400
      = ((sec / 60 : Nat) + clock.zone (sec / 60 : Nat)) / 1440 := by
    unfold Clock.localSeconds
    omega
  have hhour : (clock.localSeconds sec % 86400).toNat / 3600
      = (((sec / 60 : Nat) + clock.zone (sec / 60 : Nat)) % 1440).toNat / 60 := by
    unfold Clock.localSeconds
    omega
  have hminute : (clock.localSeconds sec % 86400).toNat / 60 % 60
      = (((sec / 60 : Nat) + clock.zone (sec / 60 : Nat)) % 1440).toNat % 60 := by
    unfold Clock.localSeconds
    omega
  have hsecond : (clock.localSeconds sec % 86400).toNat % 60 = sec % 60 := by
    unfold Clock.localSeconds
    omega
  unfold Clock.text Clock.minuteText
  simp only [hday, hhour, hminute, hsecond]

theorem length_minuteText (clock : Clock) (minute : Nat) :
    (clock.minuteText minute).length = timestampSecondOffset := by
  simp [Clock.minuteText, clock.date_length, ascii, timestampSecondOffset]

theorem length_text (clock : Clock) (sec : Nat) : (clock.text sec).length = 19 := by
  rw [text_eq, List.length_append, length_minuteText, length_paddedDecimal]
  rfl

theorem zero_notMem_timestampText (clock : Clock) (sec : Nat) : (0 : UInt8) ∉ clock.text sec := by
  simp [Clock.text, (clock.date _).2, zero_notMem_paddedDecimal, ascii]

theorem zero_notMem_timestamp (clock : Clock) (tv : Timeval) :
    (0 : UInt8) ∉ clock.timestamp tv := by
  simp [Clock.timestamp, zero_notMem_timestampText, zero_notMem_paddedDecimal, ascii]

end Minutes

/-! ## The cache -/

/-- An array of 32 bytes with a text in it. -/
structure Texted (m text : List UInt8) : Prop where
  length : m.length = maxTimestampLength
  text : ∃ r, m = text ++ 0 :: r

section Cache

variable {clock : Clock} {s : TimestampCache} {tv tv' : Timeval} {m kept t : List UInt8}

/-- A text is written behind one that is kept. -/
theorem texted_snprintf (hm : m.length = maxTimestampLength) (hkept : m.take kept.length = kept)
    (hfit : kept.length + t.length < maxTimestampLength) :
    Texted (snprintf m kept.length (maxTimestampLength - kept.length) t) (kept ++ t) := by
  have hlen : (t ++ [0]).length = t.length + 1 := by simp
  rw [snprintf, if_neg (by omega), List.take_of_length_le (by omega)]
  refine ⟨?_, m.drop (kept.length + (t ++ [0]).length), ?_⟩
  · rw [length_copyText (by omega), hm]
  · rw [copyText, hkept]
    simp

theorem Texted.strlen (h : Texted m t) (ht : (0 : UInt8) ∉ t) : strlen m = t.length := by
  obtain ⟨r, hr⟩ := h.text
  rw [hr]
  exact strlen_text ht r

theorem Texted.take (h : Texted m (kept ++ t)) : m.take kept.length = kept := by
  obtain ⟨r, hr⟩ := h.text
  rw [hr, List.append_assoc, List.take_left]

theorem writeTimestamp_texted (hm : m.length = maxTimestampLength) :
    Texted (writeTimestamp clock m tv) (clock.timestamp tv) := by
  have hlen := length_text clock tv.sec
  have hfirst : Texted (snprintf m 0 maxTimestampLength (clock.text tv.sec))
      (clock.text tv.sec) :=
    @texted_snprintf m [] _ hm rfl (by
      rw [List.length_nil, hlen]
      decide)
  unfold writeTimestamp
  simp only [hfirst.strlen (zero_notMem_timestampText clock tv.sec)]
  refine texted_snprintf hfirst.length ?_ ?_
  · exact Texted.take (t := []) (by rwa [List.append_nil])
  · rw [hlen]
    simp [ascii, maxTimestampLength]

/-- What the cache holds: nothing yet, or the time stamp of the last reading. -/
def Cached (clock : Clock) (s : TimestampCache) : Prop :=
  (s.gPrevSysSecond = 0 ∧ s.gCachedTimeStamp.length = maxTimestampLength) ∨
    ∃ tv : Timeval, s.gPrevSysSecond = tv.sec ∧ s.gPrevSysMilliSecond = tv.milliSecond ∧
      Texted s.gCachedTimeStamp (clock.timestamp tv)

theorem cached_start (clock : Clock) : Cached clock .start :=
  Or.inl ⟨rfl, List.length_replicate⟩

/-- The time stamps of two readings with the same second and the same millisecond. -/
theorem timestamp_congr (hsec : tv'.sec = tv.sec) (hms : tv'.milliSecond = tv.milliSecond) :
    clock.timestamp tv' = clock.timestamp tv := by
  rw [Clock.timestamp, hsec, hms, Clock.timestamp]

/-- **The part that has changed is enough.** -/
theorem update_texted (h : Cached clock s) :
    Texted (s.update clock tv) (clock.timestamp tv) := by
  have hlength : s.gCachedTimeStamp.length = maxTimestampLength := by
    rcases h with ⟨-, h⟩ | ⟨tv', -, -, h⟩
    · exact h
    · exact h.length
  unfold TimestampCache.update
  split
  · exact writeTimestamp_texted hlength
  rename_i hne
  rcases h with ⟨h0, -⟩ | ⟨tv', hsec, -, htext⟩
  · exact absurd h0 hne
  rw [hsec]
  split
  · -- the milliseconds, behind the point
    rename_i hsame
    have hkept : (clock.text tv'.sec ++ ascii ['.']).length = timestampMilliSecondOffset := by
      rw [List.length_append, length_text]
      rfl
    have hstamp : clock.timestamp tv
        = (clock.text tv'.sec ++ ascii ['.']) ++ paddedDecimal 3 tv.milliSecond := by
      rw [Clock.timestamp, hsame, List.append_assoc]
    rw [hstamp, ← hkept]
    refine texted_snprintf hlength ?_ ?_
    · rw [Clock.timestamp, ← List.append_assoc] at htext
      exact htext.take
    · rw [hkept, length_paddedDecimal]
      decide
  split
  · -- the seconds, behind the minute
    rename_i hminute
    have hstamp : ∀ x : Timeval, clock.timestamp x = clock.minuteText (x.sec / 60)
        ++ (paddedDecimal 2 (x.sec % 60) ++ (ascii ['.'] ++ paddedDecimal 3 x.milliSecond)) := by
      intro x
      rw [Clock.timestamp, text_eq, List.append_assoc]
    rw [hstamp, ← length_minuteText clock (tv.sec / 60)]
    refine texted_snprintf hlength ?_ ?_
    · rw [hstamp, hminute] at htext
      exact htext.take
    · rw [length_minuteText]
      simp [ascii, timestampSecondOffset, maxTimestampLength]
  · exact writeTimestamp_texted hlength

/-- **What one call preserves, and what it writes.** -/
theorem loggerGetTimestamp_step (h : Cached clock s) (tv : Timeval) (logBuff : List UInt8)
    (logPtr : Nat) :
    Cached clock (loggerGetTimestamp clock s tv logBuff logPtr).1 ∧
      (loggerGetTimestamp clock s tv logBuff logPtr).2
        = copyText logBuff logPtr (bracketed (clock.timestamp tv) ++ [0]) := by
  have hafter : ∀ t : TimestampCache, t = (if s.gPrevSysSecond = tv.sec ∧
        s.gPrevSysMilliSecond = tv.milliSecond then s
      else ⟨s.update clock tv, tv.sec, tv.milliSecond⟩) →
      t.gPrevSysSecond = tv.sec ∧ t.gPrevSysMilliSecond = tv.milliSecond ∧
        Texted t.gCachedTimeStamp (clock.timestamp tv) := by
    rintro t rfl
    split
    · rename_i hsame
      rcases h with ⟨h0, -⟩ | ⟨tv', hsec, hms, htext⟩
      · have := tv.sec_pos
        omega
      · refine ⟨hsame.1, hsame.2, ?_⟩
        rwa [← timestamp_congr (hsec.symm.trans hsame.1) (hms.symm.trans hsame.2)]
    · exact ⟨rfl, rfl, update_texted h⟩
  obtain ⟨hsec, hms, htext⟩ := hafter _ rfl
  refine ⟨Or.inr ⟨tv, hsec, hms, htext⟩, ?_⟩
  have htake := Texted.take (t := []) (by rwa [List.append_nil])
  show copyText logBuff logPtr (bracketed _ ++ [0]) = _
  rw [htext.strlen (zero_notMem_timestamp clock tv), htake]

theorem after_cached (clock : Clock) (tvs : List Timeval) :
    Cached clock (TimestampCache.start.after clock tvs) := by
  unfold TimestampCache.after
  induction tvs using List.reverseRecOn with
  | nil => exact cached_start clock
  | append_singleton tvs tv ih =>
      rw [List.foldl_append, List.foldl_cons, List.foldl_nil]
      exact (loggerGetTimestamp_step ih tv [] 0).1

end Cache

/-- **Each time stamp is that of its own reading**: after any readings of the clock a call
writes the date, the time and the milliseconds in brackets, with a blank. -/
theorem loggerGetTimestamp_fresh (clock : Clock) (tvs : List Timeval) (tv : Timeval)
    (logBuff : List UInt8) (logPtr : Nat) :
    (loggerGetTimestamp clock (TimestampCache.start.after clock tvs) tv logBuff logPtr).2
      = copyText logBuff logPtr (bracketed (clock.timestamp tv) ++ [0]) :=
  (loggerGetTimestamp_step (after_cached clock tvs) tv logBuff logPtr).2

/-- The sample in the source, eight hours east of UTC. -/
example :
    let clock : Clock :=
      ⟨fun _ => 480, fun _ => ⟨ascii ['1', '9', '7', '0', '-', '0', '1', '-', '0', '1'],
        by decide⟩, fun _ => rfl⟩
    clock.timestamp ⟨1178, 554321, by decide, by decide, by decide⟩
      = ascii ['1', '9', '7', '0', '-', '0', '1', '-', '0', '1', ' ', '0', '8', ':', '1', '9', ':',
        '3', '8', '.', '5', '5', '4'] := by
  decide

end LteUlp.Logger
