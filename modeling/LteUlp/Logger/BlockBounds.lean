import LteUlp.Logger.Blocks
import LteUlp.Logger.Pieces

set_option autoImplicit false

/-! # The bounds of a log block of type 1

A writer computes the space left in its block from the configured size of a block, and tests
it for formatted texts only: names are copied whatever space there is, and when they go
beyond the configured size, the space left is negative and `snprintf` gets a size without a
bound. When it is used up exactly, `snprintf` stores nothing, and `strlen` counts what the
block held before. In every run in which no record comes to one of these cases, every byte is
stored in the block, and a block holds what has been added to it and nothing else.
-/

namespace LteUlp.Logger

open AsyncLogger

/-! ## The configured size -/

/-- `LoggerParseConfig`: the value of `LogBufferingSize`, when it is a number, is assigned to
an `unsigned int` unless it is greater than a block. -/
def parseLogBufferingSize (valueint : Option Int) (logBufferingSize : Nat) : Nat :=
  match valueint with
  | none => logBufferingSize
  | some n => if n ≤ maxLogBlockSize then (n % 2 ^ 32).toNat else logBufferingSize

/-- `LoggerParseConfig` and then `InitAsyncLogger`, which limits the size to a block. -/
def LoggerConfig.init (config : LoggerConfig) (valueint : Option Int) : LoggerConfig :=
  { config with
    logBufferingSize :=
      if maxLogBlockSize < parseLogBufferingSize valueint config.logBufferingSize then
        maxLogBlockSize
      else parseLogBufferingSize valueint config.logBufferingSize }

theorem logBufferingSize_init_le (config : LoggerConfig) (valueint : Option Int) :
    (config.init valueint).logBufferingSize ≤ maxLogBlockSize := by
  unfold LoggerConfig.init
  dsimp only
  split
  · exact Nat.le_refl _
  · exact Nat.le_of_not_lt ‹_›

/-! ## One piece -/

/-- The text `s` has been put at `p` of the array `m`, and what is behind it is as it was or
is a terminator. -/
structure Cursor.Extends (m : List UInt8) (p : Nat) (s : List UInt8) (c : Cursor) : Prop
    extends c.Wrote m p s where
  behind : ∀ k, p + s.length ≤ k → c.logData[k]? = m[k]? ∨ c.logData[k]? = some 0

/-- What is stored of a piece at offset `o`: `snprintf` cuts off, or stores nothing, or knows
no bound. -/
def Piece.cut (remain : Int) (o : Nat) : Piece → List UInt8
  | .put s => s
  | .print s =>
      if (o : Int) < remain then s.1.take (remain - 1 - o).toNat
      else if (o : Int) = remain then [] else s.1

/-- A piece stays in the array, and `strlen` finds what has been stored of it. -/
def Piece.Keeps (m : List UInt8) (p : Nat) (remain : Int) (o : Nat) : Piece → Prop
  | .put s => p + o + s.length ≤ m.length
  | .print s =>
      (o : Int) < remain ∨ ((o : Int) = remain ∧ m[p + o]? = some 0) ∨
        (remain < o ∧ p + o + s.1.length < m.length)

instance decidablePieceKeeps (m : List UInt8) (p : Nat) (remain : Int) (o : Nat) (piece : Piece) :
    Decidable (piece.Keeps m p remain o) := by
  cases piece <;> unfold Piece.Keeps <;> infer_instance

/-- Bytes behind what is copied. -/
theorem getElem?_copyText {m s : List UInt8} {p k : Nat} (hfit : p + s.length ≤ m.length)
    (hk : p + s.length ≤ k) : (copyText m p s)[k]? = m[k]? := by
  have hlen : (m.take p ++ s).length = p + s.length := by
    rw [List.length_append, List.length_take, Nat.min_eq_left (by omega)]
  unfold copyText
  rw [List.getElem?_append_right (by rw [hlen]; exact hk), hlen, List.getElem?_drop,
    Nat.add_sub_cancel' hk]

/-- An array that begins with a terminator. -/
theorem strlen_drop_zero {m : List UInt8} {k : Nat} (h : m[k]? = some 0) :
    strlen (m.drop k) = 0 := by
  obtain ⟨hk, h0⟩ := List.getElem?_eq_some_iff.mp h
  rw [List.drop_eq_getElem_cons hk, h0]
  rfl

section Pieces

variable {m s : List UInt8} {p : Nat} {c : Cursor} {remain : Int}

theorem Cursor.Wrote.le (h : c.Wrote m p s) (hp : p ≤ m.length) :
    p + s.length ≤ m.length := by
  have htake := congrArg List.length h.stored.take
  rw [List.length_take, List.length_append, List.length_take, Nat.min_eq_left hp,
    h.stored.length] at htake
  omega

theorem Cursor.Extends.put (h : c.Extends m p s) {t : List UInt8}
    (hfit : p + s.length + t.length ≤ m.length) : (c.put t).Extends m p (s ++ t) := by
  refine ⟨h.toWrote.put hfit, fun k hk => ?_⟩
  rw [List.length_append] at hk
  have hlen := h.stored.length
  show (copyText c.logData c.logPtr t)[k]? = _ ∨ (copyText c.logData c.logPtr t)[k]? = _
  rw [h.logPtr, getElem?_copyText (by omega) (by omega)]
  exact h.behind k (by omega)

/-- A text with its terminator has been stored, and `strlen` finds its end. -/
theorem Cursor.Extends.skip (h : c.Extends m p s) {u : List UInt8} (hp : p ≤ m.length)
    (hu : (0 : UInt8) ∉ u) (hfit : p + s.length + u.length < m.length) :
    (c.skip (copyText c.logData c.logPtr (u ++ [0]))).Extends m p (s ++ u) := by
  have hlen := h.stored.length
  have hm : Stored m (copyText c.logData c.logPtr (u ++ [0])) p (s ++ (u ++ [0])) := by
    rw [h.logPtr]
    refine h.stored.append ?_
    rw [List.length_append, List.length_singleton]
    omega
  refine ⟨h.toWrote.skip hm hp hu, fun k hk => ?_⟩
  rw [List.length_append] at hk
  show (copyText c.logData c.logPtr (u ++ [0]))[k]? = _ ∨
    (copyText c.logData c.logPtr (u ++ [0]))[k]? = _
  rw [h.logPtr]
  rcases Nat.eq_or_lt_of_le hk with rfl | hlt
  · -- the terminator
    right
    have hu : (c.logData.take (p + s.length) ++ u).length = p + (s.length + u.length) := by
      rw [List.length_append, List.length_take, Nat.min_eq_left (by omega), Nat.add_assoc]
    unfold copyText
    rw [← List.append_assoc (c.logData.take _), List.append_assoc _ [0],
      List.getElem?_append_right (Nat.le_of_eq hu), hu, Nat.sub_self]
    rfl
  · rw [getElem?_copyText]
    · exact h.behind k (by omega)
    · rw [List.length_append, List.length_singleton]
      omega
    · rw [List.length_append, List.length_singleton]
      omega

/-- **A piece** that stays in the array. -/
theorem Cursor.Extends.piece (h : c.Extends m p s) (h0 : 0 ≤ remain)
    (hroom : p + remain ≤ m.length) (hmax : m.length < 2 ^ 32) {piece : Piece}
    (hkeep : piece.Keeps m p remain s.length) :
    (∀ a ∈ piece.accesses remain c, a.Within m.length) ∧
      (piece.write remain c).Extends m p (s ++ piece.cut remain s.length) := by
  cases piece with
  | put t =>
      have hfit : p + s.length + t.length ≤ m.length := hkeep
      refine ⟨?_, h.put hfit⟩
      simp only [Piece.accesses, List.mem_singleton, forall_eq, Access.Within, h.logPtr]
      intro i hi
      omega
  | print t =>
      simp only [Piece.accesses, List.mem_cons, List.not_mem_nil, or_false, forall_eq_or_imp,
        forall_eq, Access.Within, true_and, h.logPtr]
      show _ ∧ (c.print remain t.1).Extends m p _
      have hle := h.toWrote.le (by omega)
      simp only [Piece.Keeps] at hkeep
      simp only [Piece.cut]
      by_cases hlt : (s.length : Int) < remain
      · -- there is space, for a part of the text at least
        have hsize : sizeT (remain - c.offset) = (remain - 1 - s.length).toNat + 1 := by
          rw [h.offset, sizeT_of_nonneg (by omega) (by omega)]
          omega
        rw [if_pos hlt, hsize]
        refine ⟨fun i hi => by omega, ?_⟩
        rw [Cursor.print, hsize, snprintf, if_neg (Nat.succ_ne_zero _), Nat.add_sub_cancel]
        refine h.skip (by omega) (fun hmem => t.2 (List.mem_of_mem_take hmem)) ?_
        rw [List.length_take]
        omega
      rw [if_neg hlt]
      by_cases heq : (s.length : Int) = remain
      · -- no byte is stored, and the next one is a terminator
        have hbyte : m[p + s.length]? = some 0 := by
          rcases hkeep.resolve_left hlt with ⟨-, hbyte⟩ | ⟨hneg, -⟩
          · exact hbyte
          · omega
        have hsize : sizeT (remain - c.offset) = 0 := by
          rw [h.offset, sizeT_of_nonneg (by omega) (by omega)]
          omega
        rw [if_pos heq, hsize, List.append_nil]
        refine ⟨fun i hi => by omega, ?_⟩
        have hdata : snprintf c.logData c.logPtr 0 t.1 = c.logData := if_pos rfl
        have hstrlen : strlen (c.logData.drop c.logPtr) = 0 := by
          rw [h.logPtr]
          refine strlen_drop_zero ?_
          rcases h.behind (p + s.length) (Nat.le_refl _) with hsame | hzero
          · exact hsame.trans hbyte
          · exact hzero
        have hprint : c.print remain t.1 = c := by
          unfold Cursor.print Cursor.skip
          rw [hsize, hdata, hstrlen]
          rfl
        rw [hprint]
        exact h
      · -- the size has no bound
        obtain ⟨hneg, hfit⟩ := (hkeep.resolve_left hlt).resolve_left fun hkeep => heq hkeep.1
        have hsize : sizeT (remain - c.offset) = (2 ^ 64 + remain - s.length).toNat := by
          rw [h.offset, sizeT, Int.emod_eq_add_self_emod, Int.emod_eq_of_lt (by omega) (by omega)]
          omega
        rw [if_neg heq, hsize]
        refine ⟨fun i hi => by omega, ?_⟩
        rw [Cursor.print, hsize, snprintf, if_neg (by omega), List.take_of_length_le (by omega)]
        exact h.skip (by omega) t.2 hfit

/-- All pieces stay in the array, one behind the other. -/
def PiecesKeep (m : List UInt8) (p : Nat) (remain : Int) : Nat → List Piece → Prop
  | _, [] => True
  | o, piece :: pieces =>
      piece.Keeps m p remain o
        ∧ PiecesKeep m p remain (o + (piece.cut remain o).length) pieces

instance decidablePiecesKeep (m : List UInt8) (p : Nat) (remain : Int) :
    (o : Nat) → (pieces : List Piece) → Decidable (PiecesKeep m p remain o pieces)
  | _, [] => .isTrue trivial
  | o, piece :: pieces => by
      have := decidablePiecesKeep m p remain (o + (piece.cut remain o).length) pieces
      unfold PiecesKeep
      infer_instance

/-- What is stored of the pieces. -/
def cutText (remain : Int) : Nat → List Piece → List UInt8
  | _, [] => []
  | o, piece :: pieces =>
      piece.cut remain o ++ cutText remain (o + (piece.cut remain o).length) pieces

theorem Piece.cut_sublist (remain : Int) (o : Nat) (piece : Piece) :
    (piece.cut remain o).Sublist piece.text := by
  cases piece with
  | put t => exact List.Sublist.refl t
  | print t =>
      simp only [Piece.cut]
      split
      · exact List.take_sublist _ _
      · split
        · exact List.nil_sublist _
        · exact List.Sublist.refl _

theorem cutText_sublist (remain : Int) (o : Nat) (pieces : List Piece) :
    (cutText remain o pieces).Sublist (pieces.flatMap Piece.text) := by
  induction pieces generalizing o with
  | nil => exact List.Sublist.refl []
  | cons piece pieces ih =>
      rw [List.flatMap_cons]
      exact (piece.cut_sublist remain o).append (ih _)

theorem Cursor.Extends.pieces (h : c.Extends m p s) (h0 : 0 ≤ remain)
    (hroom : p + remain ≤ m.length) (hmax : m.length < 2 ^ 32) {pieces : List Piece}
    (hkeep : PiecesKeep m p remain s.length pieces) :
    (∀ a ∈ accesses remain pieces c, a.Within m.length) ∧
      (pieces.foldl (Piece.write remain) c).Extends m p (s ++ cutText remain s.length pieces) := by
  induction pieces generalizing s c with
  | nil =>
      refine ⟨fun a ha => absurd ha List.not_mem_nil, ?_⟩
      rw [cutText, List.append_nil]
      exact h
  | cons piece pieces ih =>
      obtain ⟨hwithin, hnext⟩ := h.piece h0 hroom hmax hkeep.1
      have hrest := hkeep.2
      rw [← List.length_append] at hrest
      obtain ⟨hwithin', hend⟩ := ih hnext hrest
      refine ⟨List.forall_mem_append.mpr ⟨hwithin, hwithin'⟩, ?_⟩
      rw [cutText, ← List.append_assoc, ← List.length_append]
      exact hend

end Pieces

/-! ## A message -/

/-- The pieces of a message behind the time stamp. -/
def recordPieces (config : LoggerConfig) (r : LogRecord) : List Piece :=
  headerPieces config r.logLevel r.moduleId r.threadId r.fileName r.funcName
    ++ [.print r.content]

/-- The accesses of `writeRecord`. -/
def recordAccesses (config : LoggerConfig) (remain : Int) (r : LogRecord) (c : Cursor) :
    List Access :=
  .store c.logPtr ((bracketed r.timestamp.1).length + 1)
    :: accesses remain (recordPieces config r) (c.loggerGetTimestamp r.timestamp.1)

theorem writeRecord_eq_pieces (config : LoggerConfig) (remain : Int) (r : LogRecord)
    (c : Cursor) : c.writeRecord config remain r
      = (recordPieces config r).foldl (Piece.write remain)
        (c.loggerGetTimestamp r.timestamp.1) := by
  unfold Cursor.writeRecord recordPieces
  rw [writeHeader_eq_pieces, List.foldl_append]
  rfl

/-- What is stored of a message. -/
def LogRecord.stored (config : LoggerConfig) (remain : Int) (r : LogRecord) : List UInt8 :=
  bracketed r.timestamp.1
    ++ cutText remain (bracketed r.timestamp.1).length (recordPieces config r)

/-- It is part of its text. -/
theorem LogRecord.stored_sublist (config : LoggerConfig) (remain : Int) (r : LogRecord) :
    (r.stored config remain).Sublist (r.text config) := by
  have hpieces : (recordPieces config r).flatMap Piece.text
      = headerText config r.logLevel r.moduleId r.threadId r.fileName r.funcName
        ++ r.content.1 := by
    unfold recordPieces
    rw [List.flatMap_append, headerPieces_text, List.flatMap_singleton]
    rfl
  have hcut := cutText_sublist remain (bracketed r.timestamp.1).length (recordPieces config r)
  rw [hpieces] at hcut
  unfold LogRecord.text LogRecord.stored
  rw [List.append_assoc]
  exact (List.Sublist.refl _).append hcut

/-- A message stays in the array. -/
def LogRecord.Keeps (config : LoggerConfig) (m : List UInt8) (p : Nat) (remain : Int)
    (r : LogRecord) : Prop :=
  p + (bracketed r.timestamp.1).length < m.length ∧
    PiecesKeep m p remain (bracketed r.timestamp.1).length (recordPieces config r)

section Writers

variable {m s : List UInt8} {p : Nat} {remain : Int} {config : LoggerConfig}

/-- The time stamp. -/
theorem loggerGetTimestamp_extends (m : List UInt8) (p : Nat) {t : List UInt8}
    (ht : (0 : UInt8) ∉ t) (hfit : p + (bracketed t).length < m.length) :
    (Cursor.loggerGetTimestamp ⟨m, p, 0⟩ t).Extends m p (bracketed t) := by
  have h0 : (⟨m, p, 0⟩ : Cursor).Extends m p [] :=
    ⟨⟨Stored.nil m p, rfl, rfl⟩, fun _ _ => Or.inl rfl⟩
  exact h0.skip (by omega) (zero_notMem_bracketed ht) (by rw [List.length_nil]; exact hfit)

/-- **A message** is stored in the array, and the cursor is behind what has been stored. -/
theorem writeRecord_extends (r : LogRecord) (h0 : 0 ≤ remain) (hroom : p + remain ≤ m.length)
    (hmax : m.length < 2 ^ 32) (hkeep : r.Keeps config m p remain) :
    (∀ a ∈ recordAccesses config remain r ⟨m, p, 0⟩, a.Within m.length) ∧
      (Cursor.writeRecord ⟨m, p, 0⟩ config remain r).Extends m p (r.stored config remain) := by
  have htime := loggerGetTimestamp_extends m p r.timestamp.2 hkeep.1
  obtain ⟨hwithin, hend⟩ := htime.pieces h0 hroom hmax hkeep.2
  refine ⟨List.forall_mem_cons.mpr ⟨fun i hi => ?_, hwithin⟩, ?_⟩
  · have := hkeep.1
    show p + i < m.length
    omega
  · rw [writeRecord_eq_pieces]
    exact hend

/-! ## A memory dump -/

/-- The access of `printHex`. -/
def printHexAccess (logPtr : Nat) (remain : Int) (s : List UInt8) (c : List UInt8 × Nat) :
    Access :=
  .store (logPtr + c.2) (min (sizeT (remain - c.2)) (s.length + 1))

/-- The accesses of `hexLoop`. -/
def hexLoopAccesses (logPtr : Nat) (remain : Int) :
    Nat → List UInt8 → List UInt8 × Nat → List Access
  | _, [], _ => []
  | i, b :: bs, c =>
      let c' := printHex logPtr remain (hexByte b) c
      let c'' := if (i + 1) % 16 = 0 then printHex logPtr remain newline c' else c'
      printHexAccess logPtr remain (hexByte b) c ::
        ((if (i + 1) % 16 = 0 then [printHexAccess logPtr remain newline c'] else [])
          ++ if remain ≤ (c''.2 : Int) then [] else hexLoopAccesses logPtr remain (i + 1) bs c'')

/-- The accesses of `writeHex`. -/
def hexAccesses (logPtr : Nat) (remain : Int) (pBuffer logData : List UInt8) : List Access :=
  hexLoopAccesses logPtr remain 0 pBuffer (logData, 0)
    ++ [printHexAccess logPtr remain newline
      (hexLoop logPtr remain 0 pBuffer (logData, 0))]

/-- A dump stays in the array: there is space left, or no text at its place. -/
def HexKeeps (m : List UInt8) (p : Nat) (remain : Int) : Prop :=
  0 < remain ∨ m[p]? = some 0

/-- A text is printed behind another one, and both are cut off together. -/
theorem Printed.cut {c : List UInt8 × Nat} {t : List UInt8}
    (h : Printed m p (s.take (remain - 1).toNat) c) (h0 : 0 < remain)
    (hroom : p + remain ≤ m.length) (hmax : m.length < 2 ^ 32) (hs : (0 : UInt8) ∉ s)
    (ht : (0 : UInt8) ∉ t) :
    (printHexAccess p remain t c).Within m.length ∧
      Printed m p ((s ++ t).take (remain - 1).toNat) (printHex p remain t c) := by
  have hlen : (s.take (remain - 1).toNat).length ≤ (remain - 1).toNat := List.length_take_le _ _
  have hsize : sizeT (remain - c.2)
      = (remain - 1).toNat - (s.take (remain - 1).toNat).length + 1 := by
    rw [h.offset, sizeT_of_nonneg (by omega) (by omega)]
    omega
  constructor
  · unfold printHexAccess Access.Within
    rw [hsize, h.offset]
    intro i hi
    omega
  · have htake : (s ++ t).take (remain - 1).toNat = s.take (remain - 1).toNat
        ++ t.take ((remain - 1).toNat - (s.take (remain - 1).toNat).length) := by
      rw [List.take_append, List.length_take]
      congr 2
      omega
    have hclean : (0 : UInt8) ∉ (s ++ t).take (remain - 1).toNat := fun hmem =>
      zero_notMem_append hs ht (List.mem_of_mem_take hmem)
    have hm : Stored m (printHex p remain t c).1 p
        ((s ++ t).take (remain - 1).toNat ++ [0]) := by
      rw [htake, List.append_assoc]
      unfold printHex snprintf
      dsimp only
      rw [hsize, if_neg (Nat.succ_ne_zero _), Nat.add_sub_cancel, h.offset]
      refine h.stored.append ?_
      rw [List.length_append, List.length_singleton]
      have := List.length_take_le
        ((remain - 1).toNat - (s.take (remain - 1).toNat).length) t
      omega
    exact ⟨hm.of_append (by omega), Stored.strlen (s := []) hm (by omega) hclean⟩

theorem hexLoop_cut (h0 : 0 < remain) (hroom : p + remain ≤ m.length)
    (hmax : m.length < 2 ^ 32) (bs : List UInt8) :
    ∀ {i : Nat} {s : List UInt8} {c : List UInt8 × Nat},
      Printed m p (s.take (remain - 1).toNat) c → (0 : UInt8) ∉ s →
      (∀ a ∈ hexLoopAccesses p remain i bs c, a.Within m.length) ∧
        Printed m p ((s ++ hexLines i bs).take (remain - 1).toNat)
          (hexLoop p remain i bs c) := by
  induction bs with
  | nil =>
      intro i s c h _
      rw [hexLines, List.append_nil]
      exact ⟨fun a ha => absurd ha List.not_mem_nil, h⟩
  | cons b bs ih =>
      intro i s c h hs
      -- the byte
      obtain ⟨hbyte, hb⟩ := h.cut h0 hroom hmax hs (zero_notMem_hexByte b)
      have hsb := zero_notMem_append hs (zero_notMem_hexByte b)
      -- the end of a line behind every sixteenth one
      have hline : (∀ a ∈ (if (i + 1) % 16 = 0 then
          [printHexAccess p remain newline (printHex p remain (hexByte b) c)] else []),
            a.Within m.length) ∧
          Printed m p ((s ++ hexByte b ++ if (i + 1) % 16 = 0 then newline else []).take
            (remain - 1).toNat) (if (i + 1) % 16 = 0 then
              printHex p remain newline (printHex p remain (hexByte b) c)
            else printHex p remain (hexByte b) c) := by
        split
        · obtain ⟨hnl, hp⟩ := hb.cut h0 hroom hmax hsb (t := newline) (by decide)
          exact ⟨List.forall_mem_singleton.mpr hnl, hp⟩
        · rw [List.append_nil]
          exact ⟨fun a ha => absurd ha List.not_mem_nil, hb⟩
      have hnl : (0 : UInt8) ∉ (if (i + 1) % 16 = 0 then newline else []) := by
        split
        · decide
        · exact List.not_mem_nil
      -- the text is always cut off below `remainBufferSize`
      have hgo : ¬ remain ≤ ((if (i + 1) % 16 = 0 then
          printHex p remain newline (printHex p remain (hexByte b) c)
        else printHex p remain (hexByte b) c).2 : Int) := by
        have hle := List.length_take_le (remain - 1).toNat
          (s ++ hexByte b ++ if (i + 1) % 16 = 0 then newline else [])
        rw [hline.2.offset]
        omega
      obtain ⟨hrest, hend⟩ := ih hline.2 (zero_notMem_append hsb hnl)
      unfold hexLoopAccesses hexLoop hexLines
      dsimp only
      rw [if_neg hgo, if_neg hgo]
      refine ⟨List.forall_mem_cons.mpr ⟨hbyte, List.forall_mem_append.mpr ⟨hline.1, hrest⟩⟩, ?_⟩
      rw [← List.append_assoc, ← List.append_assoc]
      exact hend

/-- Without space nothing is printed, and a terminator is taken for an empty text. -/
theorem printHex_zero (hbyte : m[p]? = some 0) (t : List UInt8) :
    (printHexAccess p 0 t (m, 0)).Within m.length ∧ printHex p 0 t (m, 0) = (m, 0) := by
  have hsize : sizeT ((0 : Int) - (0 : Nat)) = 0 := rfl
  constructor
  · unfold printHexAccess
    rw [hsize, Nat.zero_min]
    exact fun i hi => absurd hi (Nat.not_lt_zero i)
  · unfold printHex
    dsimp only
    rw [hsize, snprintf, if_pos rfl, strlen_drop_zero hbyte]

/-- **A dump** is stored in the array, cut off before the last byte of the space. -/
theorem writeHex_cut (bs : List UInt8) (h0 : 0 ≤ remain) (hroom : p + remain ≤ m.length)
    (hmax : m.length < 2 ^ 32) (hkeep : HexKeeps m p remain) :
    (∀ a ∈ hexAccesses p remain bs m, a.Within m.length) ∧
      Printed m p ((hexText bs).take (remain - 1).toNat) (writeHex p remain bs m) := by
  unfold hexAccesses writeHex
  by_cases hpos : 0 < remain
  · have hstart : Printed m p (([] : List UInt8).take (remain - 1).toNat) (m, 0) := by
      rw [List.take_nil]
      exact ⟨Stored.nil m p, rfl⟩
    obtain ⟨hloop, hc⟩ := hexLoop_cut hpos hroom hmax bs (i := 0) hstart List.not_mem_nil
    obtain ⟨hlast, hend⟩ := hc.cut hpos hroom hmax (zero_notMem_hexLines 0 bs) (t := newline)
      (by decide)
    exact ⟨List.forall_mem_append.mpr ⟨hloop, List.forall_mem_singleton.mpr hlast⟩, hend⟩
  · obtain rfl : remain = 0 := by omega
    have hbyte := hkeep.resolve_left hpos
    have hloop : (∀ a ∈ hexLoopAccesses p 0 0 bs (m, 0), a.Within m.length) ∧
        hexLoop p 0 0 bs (m, 0) = (m, 0) := by
      cases bs with
      | nil => exact ⟨fun a ha => absurd ha List.not_mem_nil, rfl⟩
      | cons b bs =>
          -- the loop ends behind the first byte
          obtain ⟨hwithin, hsame⟩ := printHex_zero hbyte (hexByte b)
          unfold hexLoopAccesses hexLoop
          rw [hsame]
          exact ⟨List.forall_mem_singleton.mpr hwithin, rfl⟩
    obtain ⟨hlast, hend⟩ := printHex_zero hbyte newline
    rw [hloop.2, hend]
    exact ⟨List.forall_mem_append.mpr ⟨hloop.1, List.forall_mem_singleton.mpr hlast⟩,
      Stored.nil m p, rfl⟩

end Writers

/-! ## The sections -/

namespace Section

/-- The accesses of a section that writes its record in the state `t`. -/
def writes (config : LoggerConfig) (t : AsyncLogger) : Section → List Access
  | asyncWriteMsg r => recordAccesses config (remainBufferSize config t) r
      ⟨t.writeBuffer.logData, t.writeBuffer.length, 0⟩
  | loggerWriteMem _ pBuffer => hexAccesses t.writeBuffer.length (remainBufferSize config t)
      pBuffer t.writeBuffer.logData
  | loggerEntryFunc => []

/-- What it stores of its record. -/
def stores (config : LoggerConfig) (t : AsyncLogger) : Section → List UInt8
  | asyncWriteMsg r => r.stored config (remainBufferSize config t)
  | loggerWriteMem _ pBuffer => (hexText pBuffer).take (remainBufferSize config t - 1).toNat
  | loggerEntryFunc => []

/-- The record stays in the block. -/
def Stays (config : LoggerConfig) (t : AsyncLogger) : Section → Prop
  | asyncWriteMsg r => r.Keeps config t.writeBuffer.logData t.writeBuffer.length
      (remainBufferSize config t)
  | loggerWriteMem _ _ => HexKeeps t.writeBuffer.logData t.writeBuffer.length
      (remainBufferSize config t)
  | loggerEntryFunc => True

/-- The accesses of a section to the `logData` of its block. -/
def accesses (config : LoggerConfig) (s : AsyncLogger) (x : Section) : List Access :=
  if (x.opened config s).2 then x.writes config (x.opened config s).1 else []

/-- The bytes that a section adds to its block. -/
def added (config : LoggerConfig) (s : AsyncLogger) (x : Section) : List UInt8 :=
  if (x.opened config s).2 then x.stores config (x.opened config s).1 else []

/-- The record of a section stays in its block, when it is written. -/
def Keeps (config : LoggerConfig) (s : AsyncLogger) (x : Section) : Prop :=
  (x.opened config s).2 = true → x.Stays config (x.opened config s).1

instance decidableKeeps (config : LoggerConfig) (s : AsyncLogger) (x : Section) :
    Decidable (x.Keeps config s) := by
  cases x <;> unfold Keeps Stays
  · unfold LogRecord.Keeps
    infer_instance
  · unfold HexKeeps
    infer_instance
  · infer_instance

/-- What has been stored in each block since it was output. -/
def store (config : LoggerConfig) (s : AsyncLogger)
    (stored : Fin maxNumLogBufferBlock → List UInt8) (x : Section) :
    Fin maxNumLogBufferBlock → List UInt8 :=
  match x with
  | loggerEntryFunc =>
      if s.readBuffer.length = 0 then stored else Function.update stored s.gpReadBuffer []
  | x => Function.update stored (x.opened config s).1.gpWriteBuffer
      (stored (x.opened config s).1.gpWriteBuffer ++ x.added config s)

end Section

/-- The runs in which every record stays in its block, with what has been stored. -/
inductive KeptRun (config : LoggerConfig) :
    AsyncLogger → (Fin maxNumLogBufferBlock → List UInt8) → Prop
  | init : KeptRun config initAsyncLogger fun _ => []
  | step {s : AsyncLogger} {stored : Fin maxNumLogBufferBlock → List UInt8} (x : Section)
      (h : KeptRun config s stored) (hkeep : x.Keeps config s) :
      KeptRun config (x.run config s) (x.store config s stored)

/-! ## The invariant -/

/-- A block holds `stored`, and has space left when it is open. -/
structure BlockKept (logBufferingSize : Nat) (b : LogBufferCache) (stored : List UInt8) :
    Prop where
  size : b.logData.length = maxLogBlockSize
  text : b.text = stored
  length : b.length = stored.length
  space : b.fullFlag = false → b.length = 0 ∨ b.length < logBufferingSize

/-- All blocks hold what has been stored. -/
def Kept (config : LoggerConfig) (s : AsyncLogger)
    (stored : Fin maxNumLogBufferBlock → List UInt8) : Prop :=
  ∀ i, BlockKept config.logBufferingSize (s.gLogBufferQueue i) (stored i)

section Sections

variable {config : LoggerConfig} {s : AsyncLogger}
  {stored : Fin maxNumLogBufferBlock → List UInt8}

theorem BlockKept.le {b : LogBufferCache} {n : Nat} {text : List UInt8}
    (h : BlockKept n b text) : b.length ≤ maxLogBlockSize := by
  have hlen := congrArg List.length h.text
  unfold LogBufferCache.text at hlen
  rw [List.length_take, ← h.length, h.size] at hlen
  omega

theorem Kept.setBlock (h : Kept config s stored) (j : Fin maxNumLogBufferBlock)
    {b : LogBufferCache} {text : List UInt8} (hb : BlockKept config.logBufferingSize b text) :
    Kept config (s.setBlock j b) (Function.update stored j text) := by
  intro i
  show BlockKept _ (Function.update s.gLogBufferQueue j b i) _
  by_cases hi : i = j
  · subst hi
    rw [Function.update_self, Function.update_self]
    exact hb
  · rw [Function.update_of_ne hi, Function.update_of_ne hi]
    exact h i

theorem Kept.closeBlock (h : Kept config s stored) : Kept config s.closeBlock stored := by
  have hb := h s.gpWriteBuffer
  have hclosed : BlockKept config.logBufferingSize { s.writeBuffer with fullFlag := true }
      (stored s.gpWriteBuffer) := ⟨hb.size, hb.text, hb.length, nofun⟩
  have hset := h.setBlock s.gpWriteBuffer hclosed
  rw [Function.update_eq_self] at hset
  exact hset

/-- The first part of a writer. -/
theorem Kept.openBlock (h : Kept config s stored) (tooLong : Bool) :
    Kept config (openBlock config s tooLong).1 stored ∧
      ((openBlock config s tooLong).2 = true →
        (openBlock config s tooLong).1.writeBuffer.fullFlag = false) := by
  unfold AsyncLogger.openBlock
  by_cases hfull : s.writeBuffer.fullFlag = true
  · rw [if_pos hfull]
    exact ⟨h, nofun⟩
  rw [if_neg hfull]
  split
  · refine ⟨h.closeBlock, fun hopen => ?_⟩
    exact Bool.not_eq_true' _ |>.mp hopen
  · exact ⟨h, fun _ => Bool.eq_false_iff.mpr hfull⟩

/-- The state in which a section writes its record. -/
theorem Kept.opened (h : Kept config s stored) (x : Section)
    (hopen : (x.opened config s).2 = true) :
    Kept config (x.opened config s).1 stored ∧
      (x.opened config s).1.writeBuffer.fullFlag = false := by
  unfold Section.opened at hopen ⊢
  cases x with
  | asyncWriteMsg r =>
      dsimp only at hopen ⊢
      split at hopen
      · rename_i hlogs
        rw [if_pos hlogs]
        exact ⟨(h.openBlock _).1, (h.openBlock _).2 hopen⟩
      · exact absurd hopen Bool.false_ne_true
  | loggerWriteMem logLevel pBuffer =>
      dsimp only at hopen ⊢
      split at hopen
      · rename_i hlogs
        rw [if_pos hlogs]
        exact ⟨(h.openBlock _).1, (h.openBlock _).2 hopen⟩
      · exact absurd hopen Bool.false_ne_true
  | loggerEntryFunc => exact absurd hopen Bool.false_ne_true

/-- The last part of a writer that has put `text` behind the text of its block. -/
theorem Kept.commit (h : Kept config s stored) {m text : List UInt8}
    (hm : Stored s.writeBuffer.logData m s.writeBuffer.length text) :
    Kept config (commit config s m text.length)
      (Function.update stored s.gpWriteBuffer (stored s.gpWriteBuffer ++ text)) := by
  have hb : BlockKept config.logBufferingSize s.writeBuffer (stored s.gpWriteBuffer) :=
    h s.gpWriteBuffer
  have hwritten : ∀ fullFlag : Bool,
      (fullFlag = false → ¬ config.logBufferingSize ≤ s.writeBuffer.length + text.length) →
      BlockKept config.logBufferingSize
        { s.writeBuffer with
          fullFlag := fullFlag, logData := m, length := s.writeBuffer.length + text.length }
        (stored s.gpWriteBuffer ++ text) := by
    intro fullFlag hopen
    refine ⟨hm.length.trans hb.size, ?_, ?_, fun hf => Or.inr (Nat.lt_of_not_le (hopen hf))⟩
    · show m.take (s.writeBuffer.length + text.length) = _
      rw [hm.take]
      exact congrArg (· ++ text) hb.text
    · show s.writeBuffer.length + text.length = _
      rw [List.length_append, hb.length]
  unfold AsyncLogger.commit
  dsimp only
  rw [writeBuffer_setBlock]
  split
  · -- the block is closed
    have hset := h.setBlock s.gpWriteBuffer (hwritten true nofun)
    intro i
    show BlockKept _ (Function.update (Function.update s.gLogBufferQueue s.gpWriteBuffer _)
      s.gpWriteBuffer _ i) _
    rw [Function.update_idem, writeBuffer_setBlock]
    exact hset i
  · rename_i hopen
    exact h.setBlock s.gpWriteBuffer (hwritten s.writeBuffer.fullFlag fun _ => hopen)

/-- The space that a writer computes is the rest of the configured size. -/
theorem Kept.remain (h : Kept config s stored) (hopen : s.writeBuffer.fullFlag = false)
    (hsize : config.logBufferingSize ≤ maxLogBlockSize) :
    0 ≤ remainBufferSize config s ∧
      s.writeBuffer.length + remainBufferSize config s ≤ s.writeBuffer.logData.length ∧
      s.writeBuffer.logData.length < 2 ^ 32 := by
  have hb : BlockKept config.logBufferingSize s.writeBuffer (stored s.gpWriteBuffer) :=
    h s.gpWriteBuffer
  have hspace := hb.space hopen
  have hlen := hb.size
  unfold remainBufferSize
  unfold maxLogBlockSize at hsize hlen
  omega

/-- **A section that writes its record** stores it in its block, behind the text there. -/
theorem Kept.writes (h : Kept config s stored) (hopen : s.writeBuffer.fullFlag = false)
    (hsize : config.logBufferingSize ≤ maxLogBlockSize) (x : Section) (hstay : x.Stays config s) :
    ∀ a ∈ x.writes config s, a.Within maxLogBlockSize := by
  obtain ⟨h0, hroom, hmax⟩ := h.remain hopen hsize
  have hlen : s.writeBuffer.logData.length = maxLogBlockSize := (h s.gpWriteBuffer).size
  rw [← hlen]
  cases x with
  | asyncWriteMsg r => exact (writeRecord_extends r h0 hroom hmax hstay).1
  | loggerWriteMem logLevel pBuffer => exact (writeHex_cut pBuffer h0 hroom hmax hstay).1
  | loggerEntryFunc => exact fun a ha => absurd ha List.not_mem_nil

/-- What is stored is part of the record. -/
theorem stores_sublist (config : LoggerConfig) (s : AsyncLogger) (x : Section) :
    (x.stores config s).Sublist (x.text config) := by
  cases x with
  | asyncWriteMsg r => exact r.stored_sublist config _
  | loggerWriteMem logLevel pBuffer => exact List.take_sublist _ _
  | loggerEntryFunc => exact List.Sublist.refl []

/-- The logger task empties the block that it outputs. -/
theorem Kept.loggerEntryFunc (h : Kept config s stored) :
    Kept config (loggerEntryFunc s) (Section.loggerEntryFunc.store config s stored) := by
  have hb : BlockKept config.logBufferingSize s.readBuffer (stored s.gpReadBuffer) :=
    h s.gpReadBuffer
  have hempty : ∀ fullFlag : Bool, BlockKept config.logBufferingSize
      { s.readBuffer with fullFlag := fullFlag, length := 0 } [] := fun fullFlag =>
    ⟨hb.size, List.take_zero, rfl, fun _ => Or.inl rfl⟩
  unfold Logger.loggerEntryFunc Section.store
  dsimp only
  split
  · exact h
  · split
    · exact h.setBlock s.gpReadBuffer (hempty false)
    · exact h.setBlock s.gpReadBuffer (hempty s.readBuffer.fullFlag)

/-- **A writer**, given by its early-closing test and by what it does to an open block. -/
theorem Kept.writer (h : Kept config s stored) (tooLong : Bool)
    (write : AsyncLogger → List UInt8 × Nat) (text : AsyncLogger → List UInt8)
    (hwrite : (AsyncLogger.openBlock config s tooLong).2 = true →
      (AsyncLogger.openBlock config s tooLong).1.writeBuffer.fullFlag = false →
      Kept config (AsyncLogger.openBlock config s tooLong).1 stored →
      let t := (AsyncLogger.openBlock config s tooLong).1
      Stored t.writeBuffer.logData (write t).1 t.writeBuffer.length (text t) ∧
        (write t).2 = (text t).length) :
    let t := (AsyncLogger.openBlock config s tooLong).1
    Kept config (if (AsyncLogger.openBlock config s tooLong).2 then
        AsyncLogger.commit config t (write t).1 (write t).2 else t)
      (Function.update stored t.gpWriteBuffer (stored t.gpWriteBuffer ++
        if (AsyncLogger.openBlock config s tooLong).2 then text t else [])) := by
  intro t
  obtain ⟨hkept, hfull⟩ := h.openBlock tooLong
  by_cases hopen : (AsyncLogger.openBlock config s tooLong).2 = true
  · obtain ⟨hm, hoffset⟩ := hwrite hopen (hfull hopen) hkept
    rw [if_pos hopen, if_pos hopen, hoffset]
    exact hkept.commit hm
  · rw [if_neg hopen, if_neg hopen, List.append_nil, Function.update_eq_self]
    exact hkept

/-- **One section.** -/
theorem Kept.run (h : Kept config s stored) (hsize : config.logBufferingSize ≤ maxLogBlockSize)
    (x : Section) (hkeep : x.Keeps config s) :
    Kept config (x.run config s) (x.store config s stored) := by
  unfold Section.Keeps Section.opened at hkeep
  cases x with
  | asyncWriteMsg r =>
      unfold Section.run Section.store Section.added Section.opened Logger.asyncWriteMsg
      by_cases hlogs : config.logs r.logLevel
      · simp only [if_pos hlogs] at hkeep ⊢
        refine h.writer (msgTooLong config s) (fun t =>
            let c := Cursor.writeRecord ⟨t.writeBuffer.logData, t.writeBuffer.length, 0⟩ config
              (remainBufferSize config t) r
            (c.logData, c.offset))
          (fun t => r.stored config (remainBufferSize config t)) fun hopen hfull hkept => ?_
        obtain ⟨h0, hroom, hmax⟩ := hkept.remain hfull hsize
        have hend := (writeRecord_extends r h0 hroom hmax (hkeep hopen)).2
        exact ⟨hend.stored, hend.offset⟩
      · simp only [if_neg hlogs]
        rw [if_neg Bool.false_ne_true, List.append_nil, Function.update_eq_self]
        exact h
  | loggerWriteMem logLevel pBuffer =>
      unfold Section.run Section.store Section.added Section.opened Logger.loggerWriteMem
      by_cases hlogs : pBuffer ≠ [] ∧ config.logs logLevel
      · simp only [if_pos hlogs] at hkeep ⊢
        refine h.writer (memTooLong config s pBuffer.length) (fun t =>
            writeHex t.writeBuffer.length (remainBufferSize config t) pBuffer
              t.writeBuffer.logData)
          (fun t => (hexText pBuffer).take (remainBufferSize config t - 1).toNat)
          fun hopen hfull hkept => ?_
        obtain ⟨h0, hroom, hmax⟩ := hkept.remain hfull hsize
        have hend := (writeHex_cut pBuffer h0 hroom hmax (hkeep hopen)).2
        exact ⟨hend.stored, hend.offset⟩
      · simp only [if_neg hlogs]
        rw [if_neg Bool.false_ne_true, List.append_nil, Function.update_eq_self]
        exact h
  | loggerEntryFunc => exact h.loggerEntryFunc

/-- The blocks start empty. -/
theorem Kept.init (config : LoggerConfig) : Kept config initAsyncLogger fun _ => [] := by
  intro i
  exact ⟨List.length_replicate, List.take_zero, rfl, fun _ => Or.inl rfl⟩

theorem KeptRun.kept (hr : KeptRun config s stored)
    (hsize : config.logBufferingSize ≤ maxLogBlockSize) : Kept config s stored := by
  induction hr with
  | init => exact Kept.init config
  | step x _ hkeep ih => exact ih.run hsize x hkeep

end Sections

/-- **The blocks of type 1.** In every run in which every record stays in its block, a block
holds what has been stored in it since it was output, its length is that of this text, and it
is not longer than the array. A record that stays in its block is stored inside the array, and
what is added is part of its text. -/
theorem blocks_hold_records (config : LoggerConfig) (valueint : Option Int) {s : AsyncLogger}
    {stored : Fin maxNumLogBufferBlock → List UInt8}
    (hr : KeptRun (config.init valueint) s stored) :
    (∀ i, (s.gLogBufferQueue i).text = stored i ∧
      (s.gLogBufferQueue i).length = (stored i).length ∧
      (s.gLogBufferQueue i).length ≤ maxLogBlockSize) ∧
    ∀ x : Section, x.Keeps (config.init valueint) s →
      (∀ a ∈ x.accesses (config.init valueint) s, a.Within maxLogBlockSize) ∧
      (x.added (config.init valueint) s).Sublist (x.text (config.init valueint)) := by
  have hsize := logBufferingSize_init_le config valueint
  have hkept := hr.kept hsize
  refine ⟨fun i => ⟨(hkept i).text, (hkept i).length, (hkept i).le⟩, fun x hkeep => ⟨?_, ?_⟩⟩
  · unfold Section.accesses
    split
    · rename_i hopen
      obtain ⟨hblocks, hfull⟩ := hkept.opened x hopen
      exact hblocks.writes hfull hsize x (hkeep hopen)
    · exact fun a ha => absurd ha List.not_mem_nil
  · unfold Section.added
    split
    · exact stores_sublist _ _ x
    · exact List.nil_sublist _

/-- A run with a negative size in the configuration, in which the task outputs a dump and a
message, and then another dump is logged. -/
theorem blocks_hold_records_three :
    ∃ (s : AsyncLogger) (stored : Fin maxNumLogBufferBlock → List UInt8),
      KeptRun (LoggerConfig.init ⟨0, false, false, true, false, 4096⟩ (some (-1))) s stored ∧
      s.output = ascii ['a', 'b', ' ', '\n']
        ++ shortMessage.text ⟨0, false, false, true, false, 4096⟩ ∧
      (∀ i, (s.gLogBufferQueue i).text = stored i ∧
        (s.gLogBufferQueue i).length ≤ maxLogBlockSize) ∧
      ∀ a ∈ (Section.asyncWriteMsg shortMessage).accesses
        (LoggerConfig.init ⟨0, false, false, true, false, 4096⟩ (some (-1))) s,
        a.Within maxLogBlockSize := by
  have hinit : KeptRun (LoggerConfig.init ⟨0, false, false, true, false, 4096⟩ (some (-1)))
      _ _ := .init
  have h1 := hinit.step (.loggerWriteMem 2 [0xab]) (by decide +kernel)
  have h2 := h1.step (.asyncWriteMsg shortMessage) (by decide +kernel)
  have h3 := h2.step .loggerEntryFunc fun h => absurd h Bool.false_ne_true
  have h4 := h3.step (.loggerWriteMem 2 [1, 2]) (by decide +kernel)
  obtain ⟨hblocks, hnext⟩ := blocks_hold_records _ _ h4
  exact ⟨_, _, h4, by decide +kernel, fun i => ⟨(hblocks i).1, (hblocks i).2.2⟩,
    (hnext (.asyncWriteMsg shortMessage) (by decide +kernel)).1⟩

/-- **A text that is printed without a bound** and is too long for the array. -/
theorem Cursor.Extends.overrun {m s : List UInt8} {p : Nat} {c : Cursor} {remain : Int}
    (h : c.Extends m p s) (h0 : 0 ≤ remain) (hneg : remain < s.length)
    (hs : s.length < 2 ^ 32) {t : CString} (ht : t.1.length < 2 ^ 32)
    (hlong : m.length ≤ p + s.length + t.1.length) :
    ¬ ∀ a ∈ (Piece.print t).accesses remain c, a.Within m.length := by
  intro hwithin
  have hsize : sizeT (remain - c.offset) = (2 ^ 64 + remain - s.length).toNat := by
    rw [h.offset, sizeT, Int.emod_eq_add_self_emod, Int.emod_eq_of_lt (by omega) (by omega)]
    omega
  have hstore := hwithin _ (List.mem_cons_of_mem _ (List.mem_singleton_self _))
  have hlast := hstore t.1.length (by rw [hsize]; omega)
  rw [h.logPtr] at hlast
  omega

/-- A text that fills a block. -/
def blockOfLetters : CString :=
  ⟨List.replicate 16384 97, fun h => absurd (List.eq_of_mem_replicate h) (by decide)⟩

/-- A message with this text. -/
def blockMessage : LogRecord :=
  ⟨.empty, 2, .empty, .empty, ⟨List.replicate 23 50, by decide⟩, .empty, blockOfLetters⟩

/-- **Without buffering a long text runs over its block**: the space left is negative behind
the time stamp, and `snprintf` gets a size without a bound. -/
theorem blockMessage_overruns :
    let config := LoggerConfig.init ⟨0, false, false, true, false, 4096⟩ (some 0)
    ¬ ∀ a ∈ (Section.asyncWriteMsg blockMessage).accesses config initAsyncLogger,
      a.Within maxLogBlockSize := by
  intro config hwithin
  have hlen : (List.replicate maxLogBlockSize (0 : UInt8)).length = 16384 := List.length_replicate
  have hts : (bracketed blockMessage.timestamp.1).length = 26 := rfl
  have htime := loggerGetTimestamp_extends (List.replicate maxLogBlockSize 0) 0
    blockMessage.timestamp.2 (by rw [hlen, hts]; decide)
  have hkeep : PiecesKeep (List.replicate maxLogBlockSize 0) 0 0
      (bracketed blockMessage.timestamp.1).length
      (headerPieces config 2 .empty .empty .empty .empty) := by
    rw [hts]
    refine ⟨?_, ?_, ?_, trivial⟩
    all_goals
      show _ ≤ (List.replicate maxLogBlockSize (0 : UInt8)).length
      rw [hlen]
      decide
  obtain ⟨-, hheader⟩ := htime.pieces (by decide) (by rw [hlen]; decide) (by rw [hlen]; decide)
    hkeep
  have haccesses : (Section.asyncWriteMsg blockMessage).accesses config initAsyncLogger
      = recordAccesses config 0 blockMessage ⟨List.replicate maxLogBlockSize 0, 0, 0⟩ := rfl
  rw [haccesses, recordAccesses, recordPieces, accesses_append] at hwithin
  have hcontent := (List.forall_mem_append.mp (List.forall_mem_cons.mp hwithin).2).2
  have hletters : blockOfLetters.1.length = 16384 := List.length_replicate
  refine hheader.overrun (t := blockOfLetters) (Int.le_refl 0) (by decide +kernel)
    (by decide +kernel) ?_ ?_ fun a ha => ?_
  · rw [hletters]
    decide
  · rw [hlen, hletters]
    exact Nat.le_add_left _ _
  · rw [hlen]
    exact hcontent a (List.mem_append_left _ ha)

end LteUlp.Logger
