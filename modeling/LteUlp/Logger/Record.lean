import LteUlp.Logger.Model
import Mathlib.Tactic.Linarith

set_option autoImplicit false

/-! # What the writers put into an array

`AsyncWriteMsg` puts a record together piece by piece, with `strlen` to find the end of each
formatted piece, and `LoggerWriteMem` prints one byte after the other. When the text and its
terminator fit into the space, the array holds exactly the text of the record, and `offset`
is its length.
-/

namespace LteUlp.Logger

/-! ## Texts hold no terminator -/

theorem zero_notMem_append {s t : List UInt8} (hs : (0 : UInt8) ∉ s) (ht : (0 : UInt8) ∉ t) :
    (0 : UInt8) ∉ s ++ t := by
  rw [List.mem_append, not_or]
  exact ⟨hs, ht⟩

theorem zero_notMem_bracketed {s : List UInt8} (hs : (0 : UInt8) ∉ s) :
    (0 : UInt8) ∉ bracketed s :=
  zero_notMem_append (zero_notMem_append (by decide) hs) (by decide)

theorem zero_notMem_flagged (flag : Bool) {s : List UInt8} (hs : (0 : UInt8) ∉ s) :
    (0 : UInt8) ∉ flagged flag s := by
  cases flag
  · exact List.not_mem_nil
  · exact hs

theorem zero_notMem_loggerLevelName : ∀ n, (0 : UInt8) ∉ loggerLevelName n
  | 0 | 1 | 2 | 3 | 4 => by decide
  | _ + 5 => List.not_mem_nil

theorem zero_notMem_headerText (config : LoggerConfig) (logLevel : Nat)
    (moduleId threadId fileName funcName : CString) :
    (0 : UInt8) ∉ headerText config logLevel moduleId threadId fileName funcName := by
  refine zero_notMem_append (zero_notMem_append (zero_notMem_append (zero_notMem_append
    (zero_notMem_append ?_ ?_) ?_) ?_) ?_) ?_
  · exact zero_notMem_bracketed (zero_notMem_loggerLevelName _)
  · exact zero_notMem_flagged _ (zero_notMem_bracketed moduleId.2)
  · exact zero_notMem_flagged _ (zero_notMem_bracketed threadId.2)
  · exact zero_notMem_flagged _ (zero_notMem_bracketed fileName.2)
  · decide
  · exact zero_notMem_flagged _
      (zero_notMem_append (zero_notMem_append (by decide) funcName.2) (by decide))

theorem zero_notMem_text (config : LoggerConfig) (r : LogRecord) :
    (0 : UInt8) ∉ r.text config :=
  zero_notMem_append (zero_notMem_append (zero_notMem_bracketed r.timestamp.2)
    (zero_notMem_headerText config _ _ _ _ _)) r.content.2

theorem hexDigit_ne_zero {n : Nat} (h : n < 16) : hexDigit n ≠ 0 := by
  revert n
  decide

theorem zero_notMem_hexByte (b : UInt8) : (0 : UInt8) ∉ hexByte b := by
  have hhi : b.toNat / 16 < 16 := by
    have := b.toNat_lt
    omega
  have hlo : b.toNat % 16 < 16 := Nat.mod_lt _ (by decide)
  refine zero_notMem_append ?_ (by decide)
  rw [List.mem_cons, List.mem_singleton, not_or]
  exact ⟨(hexDigit_ne_zero hhi).symm, (hexDigit_ne_zero hlo).symm⟩

theorem zero_notMem_hexLines (i : Nat) (bs : List UInt8) : (0 : UInt8) ∉ hexLines i bs := by
  induction bs generalizing i with
  | nil => exact List.not_mem_nil
  | cons b bs ih =>
      refine zero_notMem_append (zero_notMem_append (zero_notMem_hexByte b) ?_) (ih (i + 1))
      split
      · decide
      · exact List.not_mem_nil

theorem zero_notMem_hexText (bs : List UInt8) : (0 : UInt8) ∉ hexText bs :=
  zero_notMem_append (zero_notMem_hexLines 0 bs) (by decide)

/-! ## A message -/

/-- The text `s` has been put at `p` of the array `m`, and the cursor is behind it. -/
structure Cursor.Wrote (m : List UInt8) (p : Nat) (s : List UInt8) (c : Cursor) : Prop where
  stored : Stored m c.logData p s
  logPtr : c.logPtr = p + s.length
  offset : c.offset = s.length

variable {m : List UInt8} {p : Nat} {s t : List UInt8} {c : Cursor}

theorem Cursor.Wrote.put (h : c.Wrote m p s) (hfit : p + s.length + t.length ≤ m.length) :
    (c.put t).Wrote m p (s ++ t) := by
  refine ⟨?_, ?_, ?_⟩
  · have := h.stored.append hfit
    rwa [← h.logPtr] at this
  · show c.logPtr + t.length = _
    rw [h.logPtr, List.length_append, Nat.add_assoc]
  · show c.offset + t.length = _
    rw [h.offset, List.length_append]

theorem Cursor.Wrote.skip {m' : List UInt8} (h : c.Wrote m p s)
    (hm : Stored m m' p (s ++ (t ++ [0]))) (hp : p ≤ m.length) (ht : (0 : UInt8) ∉ t) :
    (c.skip m').Wrote m p (s ++ t) := by
  have hlen : strlen (m'.drop c.logPtr) = t.length := by
    rw [h.logPtr]
    exact hm.strlen hp ht
  rw [← List.append_assoc] at hm
  refine ⟨hm.of_append hp, ?_, ?_⟩
  · show c.logPtr + strlen (m'.drop c.logPtr) = _
    rw [hlen, h.logPtr, List.length_append, Nat.add_assoc]
  · show c.offset + strlen (m'.drop c.logPtr) = _
    rw [hlen, h.offset, List.length_append]

theorem Cursor.Wrote.loggerGetTimestamp (h : c.Wrote m p s) (ht : (0 : UInt8) ∉ t)
    (hfit : p + s.length + (bracketed t).length < m.length) :
    (c.loggerGetTimestamp t).Wrote m p (s ++ bracketed t) := by
  have hm : Stored m (copyText c.logData (p + s.length) (bracketed t ++ [0])) p
      (s ++ (bracketed t ++ [0])) := by
    apply h.stored.append
    rw [List.length_append, List.length_singleton]
    omega
  rw [← h.logPtr] at hm
  exact h.skip hm (by omega) (zero_notMem_bracketed ht)

/-- What `snprintf` leaves in the array: the text and its terminator. -/
theorem Cursor.Wrote.printed {remain : Int} (h : c.Wrote m p s)
    (hfit : p + s.length + t.length < m.length)
    (hroom : ((s ++ t).length : Int) < remain) (hmax : remain < 2 ^ 64) :
    Stored m (c.print remain t).logData p (s ++ (t ++ [0])) := by
  have hroom' : ((s.length + t.length : Nat) : Int) < remain := by
    rwa [List.length_append] at hroom
  have hsize : sizeT (remain - c.offset) = (remain - c.offset).toNat := by
    rw [h.offset]
    exact sizeT_of_nonneg (by omega) (by omega)
  have hm := h.stored.snprintf (t := t) (sizeT (remain - c.offset))
    (by rw [hsize, h.offset]; omega) hfit
  rwa [← h.logPtr] at hm

theorem Cursor.Wrote.print {remain : Int} (h : c.Wrote m p s) (ht : (0 : UInt8) ∉ t)
    (hfit : p + s.length + t.length < m.length)
    (hroom : ((s ++ t).length : Int) < remain) (hmax : remain < 2 ^ 64) :
    (c.print remain t).Wrote m p (s ++ t) :=
  h.skip (h.printed hfit hroom hmax) (by omega) ht

theorem Cursor.Wrote.when (h : c.Wrote m p s) (flag : Bool) (f : Cursor → Cursor)
    (hf : flag = true → (f c).Wrote m p (s ++ t)) :
    (c.when flag f).Wrote m p (s ++ flagged flag t) := by
  cases flag with
  | false =>
      show c.Wrote m p (s ++ [])
      rwa [List.append_nil]
  | true => exact hf rfl

theorem length_flagged {flag : Bool} (h : flag = true) (t : List UInt8) :
    (flagged flag t).length = t.length := by
  rw [h]
  rfl

theorem Cursor.Wrote.writeHeader (h : c.Wrote m p s) (remain : Int) (config : LoggerConfig)
    (logLevel : Nat) (moduleId threadId fileName funcName : CString)
    (hfit : p + (s ++ headerText config logLevel moduleId threadId fileName funcName).length
      < m.length)
    (hroom : ((s ++ headerText config logLevel moduleId threadId fileName funcName).length : Int)
      < remain) (hmax : remain < 2 ^ 64) :
    (c.writeHeader config remain logLevel moduleId threadId fileName funcName).Wrote m p
      (s ++ headerText config logLevel moduleId threadId fileName funcName) := by
  unfold headerText at hfit hroom ⊢
  simp only [← List.append_assoc] at hfit hroom ⊢
  simp only [List.length_append] at hfit hroom
  push_cast at hroom
  have h1 := h.put (t := bracketed (loggerLevelName logLevel)) (by omega)
  have h2 := h1.when config.logModuleNameFlag (fun c => c.put (bracketed moduleId.1)) fun hf =>
    h1.put (by
      have := length_flagged hf (bracketed moduleId.1)
      simp only [List.length_append]
      omega)
  have h3 := h2.when config.logThreadIdFlag
    (fun c => c.print remain (bracketed threadId.1)) fun hf => by
      have := length_flagged hf (bracketed threadId.1)
      refine h2.print (zero_notMem_bracketed threadId.2) ?_ ?_ hmax
      · simp only [List.length_append]
        omega
      · simp only [List.length_append]
        push_cast
        omega
  have h4 := h3.when config.logFileNameFlag (fun c => c.put (bracketed fileName.1)) fun hf =>
    h3.put (by
      have := length_flagged hf (bracketed fileName.1)
      simp only [List.length_append]
      omega)
  have h5 := h4.put (t := ascii ['-', ' ']) (by
    simp only [List.length_append]
    omega)
  exact h5.when config.logFuncNameFlag (fun c => c.put (callBracketed funcName.1)) fun hf =>
    h5.put (by
      have := length_flagged hf (callBracketed funcName.1)
      simp only [List.length_append]
      omega)

/-- **The text of a record** is what `AsyncWriteMsg` writes, followed by the terminator. -/
theorem writeRecord_wrote (config : LoggerConfig) (m : List UInt8) (p : Nat) {remain : Int}
    (r : LogRecord) (hfit : p + (r.text config).length < m.length)
    (hroom : ((r.text config).length : Int) < remain) (hmax : remain < 2 ^ 64) :
    (Cursor.writeRecord ⟨m, p, 0⟩ config remain r).Wrote m p (r.text config) ∧
      Stored m (Cursor.writeRecord ⟨m, p, 0⟩ config remain r).logData p
        (r.text config ++ [0]) := by
  have hlen := hfit
  have hlen' := hroom
  unfold LogRecord.text at hlen hlen'
  simp only [List.length_append] at hlen hlen'
  push_cast at hlen'
  have h0 : (⟨m, p, 0⟩ : Cursor).Wrote m p [] := ⟨Stored.nil m p, rfl, rfl⟩
  have h1 := h0.loggerGetTimestamp r.timestamp.2 (by rw [List.length_nil]; omega)
  rw [List.nil_append] at h1
  have h2 := h1.writeHeader remain config r.logLevel r.moduleId r.threadId
    r.fileName r.funcName (by rw [List.length_append]; omega)
    (by rw [List.length_append]; push_cast; omega) hmax
  have hfit2 : p + (bracketed r.timestamp.1 ++ headerText config r.logLevel r.moduleId
      r.threadId r.fileName r.funcName).length + r.content.1.length < m.length := by
    rw [List.length_append]
    omega
  have h3 := h2.printed hfit2 hroom hmax
  rw [← List.append_assoc] at h3
  exact ⟨h2.print r.content.2 hfit2 hroom hmax, h3⟩

/-! ## A memory dump -/

/-- The text `s` has been printed at `p` of the array `m`; the state of the loop is `c`. -/
structure Printed (m : List UInt8) (p : Nat) (s : List UInt8) (c : List UInt8 × Nat) : Prop where
  stored : Stored m c.1 p s
  offset : c.2 = s.length

theorem Printed.next (remain : Int) {c : List UInt8 × Nat} (h : Printed m p s c)
    (hs : (0 : UInt8) ∉ s) (ht : (0 : UInt8) ∉ t)
    (hfit : p + (s ++ t).length < m.length) (hroom : ((s ++ t).length : Int) < remain)
    (hmax : remain < 2 ^ 64) :
    Printed m p (s ++ t) (printHex p remain t c) ∧
      Stored m (printHex p remain t c).1 p (s ++ t ++ [0]) := by
  rw [List.length_append] at hfit hroom
  have hsize : sizeT (remain - c.2) = (remain - c.2).toNat := by
    rw [h.offset]
    exact sizeT_of_nonneg (by omega) (by omega)
  have hm := h.stored.snprintf (t := t) (sizeT (remain - c.2))
    (by rw [hsize, h.offset]; omega) (by omega)
  rw [← h.offset, ← List.append_assoc] at hm
  have hlen : strlen ((printHex p remain t c).1.drop p) = (s ++ t).length :=
    Stored.strlen (s := []) hm (by omega) (zero_notMem_append hs ht)
  exact ⟨⟨hm.of_append (by omega), hlen⟩, hm⟩

/-- What is only printed behind some of the bytes. -/
theorem Printed.next_if (remain : Int) {c : List UInt8 × Nat} (q : Prop) [Decidable q]
    (h : Printed m p s c) (hs : (0 : UInt8) ∉ s) (ht : (0 : UInt8) ∉ t)
    (hfit : p + (s ++ if q then t else []).length < m.length)
    (hroom : ((s ++ if q then t else []).length : Int) < remain) (hmax : remain < 2 ^ 64) :
    Printed m p (s ++ if q then t else [])
      (if q then printHex p remain t c else c) := by
  by_cases hq : q
  · rw [if_pos hq] at hfit hroom
    rw [if_pos hq, if_pos hq]
    exact (h.next remain hs ht hfit hroom hmax).1
  · rw [if_neg hq, if_neg hq, List.append_nil]
    exact h

theorem hexLoop_printed {remain : Int} (hmax : remain < 2 ^ 64) (bs : List UInt8) :
    ∀ {i : Nat} {s : List UInt8} {c : List UInt8 × Nat}, Printed m p s c → (0 : UInt8) ∉ s →
      p + (s ++ hexLines i bs).length < m.length →
      ((s ++ hexLines i bs).length : Int) < remain →
      Printed m p (s ++ hexLines i bs) (hexLoop p remain i bs c) := by
  induction bs with
  | nil =>
      intro i s c h _ _ _
      rw [hexLines, List.append_nil]
      exact h
  | cons b bs ih =>
      intro i s c h hs hfit hroom
      have hnl : (0 : UInt8) ∉ (if (i + 1) % 16 = 0 then newline else []) := by
        split
        · decide
        · exact List.not_mem_nil
      have hsb := zero_notMem_append hs (zero_notMem_hexByte b)
      rw [hexLines, ← List.append_assoc, ← List.append_assoc] at hfit hroom ⊢
      have hlen := hfit
      have hlen' := hroom
      simp only [List.length_append] at hlen hlen'
      -- the byte, and the end of a line behind every sixteenth one
      have hb := (h.next remain hs (zero_notMem_hexByte b)
        (by rw [List.length_append]; omega) (by rw [List.length_append]; omega) hmax).1
      have hline := hb.next_if remain (t := newline) ((i + 1) % 16 = 0) hsb
        (by decide) (by simp only [List.length_append]; omega)
        (by simp only [List.length_append]; omega) hmax
      have hgo : ¬ remain
          ≤ ((s ++ hexByte b ++ if (i + 1) % 16 = 0 then newline else []).length : Int) := by
        simp only [List.length_append]
        omega
      rw [hexLoop]
      simp only [hline.offset, if_neg hgo]
      exact ih hline (zero_notMem_append hsb hnl) hfit hroom

/-- **The text of a dump** is what `LoggerWriteMem` writes, followed by the terminator. -/
theorem writeHex_printed {remain : Int} (bs : List UInt8)
    (hfit : p + (hexText bs).length < m.length) (hroom : ((hexText bs).length : Int) < remain)
    (hmax : remain < 2 ^ 64) :
    Printed m p (hexText bs) (writeHex p remain bs m) ∧
      Stored m (writeHex p remain bs m).1 p (hexText bs ++ [0]) := by
  have hlen : (hexLines 0 bs).length ≤ (hexText bs).length := by
    unfold hexText
    rw [List.length_append]
    exact Nat.le_add_right _ _
  have h0 : Printed m p [] (m, 0) := ⟨Stored.nil m p, rfl⟩
  have h1 := hexLoop_printed hmax bs (i := 0) h0 List.not_mem_nil
    (by rw [List.nil_append]; omega) (by rw [List.nil_append]; omega)
  rw [List.nil_append] at h1
  exact h1.next remain (zero_notMem_hexLines 0 bs) (by decide) hfit hroom hmax

end LteUlp.Logger
