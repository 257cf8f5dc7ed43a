import Mathlib.Logic.Function.Basic
import LteUlp.Basic.CString

set_option autoImplicit false

/-! # Formats of `printf`

A format is a list of directives: bytes that are copied, and conversions with their flags,
their width, their precision and their length modifier. A conversion takes one argument, and
one more for each `*`. What a conversion prints is defined here for those that take exactly
one `unsigned int` or `int`; the arguments are given as the sequence of their values.
-/

namespace LteUlp.Printf

/-! ## The grammar -/

/-- A character as a byte. -/
def byte (c : Char) : UInt8 := UInt8.ofNat c.toNat

/-- A width or a precision. -/
inductive Width where
  | absent
  | number (n : Nat)
  | star
  deriving DecidableEq

/-- A length modifier. -/
inductive Modifier where
  | none
  | hh
  | h
  | l
  | ll
  | j
  | z
  | t
  | L
  deriving DecidableEq

/-- A conversion specification. -/
structure Conversion where
  flags : List UInt8
  width : Width
  precision : Width
  modifier : Modifier
  specifier : UInt8
  deriving DecidableEq

/-- A part of a format. -/
inductive Directive where
  | literal (b : UInt8)
  | conversion (c : Conversion)
  deriving DecidableEq

/-- The flags. -/
def isFlag (b : UInt8) : Bool := (ascii ['-', '+', ' ', '#', '0']).contains b

def isDigit (b : UInt8) : Bool := decide (byte '0' ≤ b ∧ b ≤ byte '9')

/-- The number that some digits spell. -/
def number (digits : List UInt8) : Nat :=
  digits.foldl (fun n b => 10 * n + (b.toNat - 48)) 0

/-- The integer conversions. -/
def isInteger (b : UInt8) : Bool := (ascii ['d', 'i', 'o', 'u', 'x', 'X']).contains b

/-- The floating conversions. -/
def isFloating (b : UInt8) : Bool :=
  (ascii ['e', 'E', 'f', 'F', 'g', 'G', 'a', 'A']).contains b

/-- The specifiers that a length modifier may stand before. -/
def Modifier.allows (m : Modifier) (b : UInt8) : Bool :=
  match m with
  | .none => isInteger b || isFloating b || (ascii ['c', 's', 'p', 'n']).contains b
  | .l => isInteger b || isFloating b || (ascii ['c', 's', 'n']).contains b
  | .L => isFloating b
  | _ => isInteger b || decide (b = byte 'n')

/-- A width: `*`, digits or nothing. -/
def parseWidth (fmt : List UInt8) : Width × List UInt8 :=
  if fmt.head? = some (byte '*') then (.star, fmt.tail)
  else if fmt.takeWhile isDigit = [] then (.absent, fmt)
  else (.number (number (fmt.takeWhile isDigit)), fmt.dropWhile isDigit)

/-- A precision: a point with `*` or digits behind it, or nothing. A point alone is 0. -/
def parsePrecision (fmt : List UInt8) : Width × List UInt8 :=
  if fmt.head? = some (byte '.') then
    if fmt.tail.head? = some (byte '*') then (.star, fmt.tail.tail)
    else (.number (number (fmt.tail.takeWhile isDigit)), fmt.tail.dropWhile isDigit)
  else (.absent, fmt)

/-- A length modifier. -/
def parseModifier (fmt : List UInt8) : Modifier × List UInt8 :=
  if fmt.take 2 = ascii ['h', 'h'] then (.hh, fmt.drop 2)
  else if fmt.take 2 = ascii ['l', 'l'] then (.ll, fmt.drop 2)
  else if fmt.head? = some (byte 'h') then (.h, fmt.tail)
  else if fmt.head? = some (byte 'l') then (.l, fmt.tail)
  else if fmt.head? = some (byte 'j') then (.j, fmt.tail)
  else if fmt.head? = some (byte 'z') then (.z, fmt.tail)
  else if fmt.head? = some (byte 't') then (.t, fmt.tail)
  else if fmt.head? = some (byte 'L') then (.L, fmt.tail)
  else (.none, fmt)

/-- What comes behind a `%`, with the bytes behind it; `none` when it is no conversion. -/
def parseDirective (fmt : List UInt8) : Option (Directive × List UInt8) :=
  if fmt.head? = some (byte '%') then some (.literal (byte '%'), fmt.tail)
  else
    let flags := fmt.takeWhile isFlag
    let (width, fmt) := parseWidth (fmt.dropWhile isFlag)
    let (precision, fmt) := parsePrecision fmt
    let (modifier, fmt) := parseModifier fmt
    match fmt with
    | [] => none
    | b :: fmt =>
        if modifier.allows b then some (.conversion ⟨flags, width, precision, modifier, b⟩, fmt)
        else none

/-- The directives of a format behind the next `skip` bytes, which belong to a directive
already. -/
def parseFrom : Nat → List UInt8 → Option (List Directive)
  | _, [] => some []
  | skip + 1, _ :: fmt => parseFrom skip fmt
  | 0, b :: fmt =>
      if b = byte '%' then
        (parseDirective fmt).bind fun x =>
          (parseFrom (fmt.length - x.2.length) fmt).map (x.1 :: ·)
      else (parseFrom 0 fmt).map (.literal b :: ·)

/-- The directives of a format; `none` when the format is malformed. -/
def parseFormat (fmt : List UInt8) : Option (List Directive) := parseFrom 0 fmt

/-- The conversions of a format. -/
def conversions (directives : List Directive) : List Conversion :=
  directives.filterMap fun d =>
    match d with
    | .literal _ => none
    | .conversion c => some c

/-- The conversion takes exactly one argument, which is an `int` or an `unsigned int`. -/
def Conversion.takesUInt (c : Conversion) : Bool :=
  decide (c.width ≠ .star) && decide (c.precision ≠ .star) &&
    ((isInteger c.specifier && decide (c.modifier = .none ∨ c.modifier = .h ∨ c.modifier = .hh))
      || (decide (c.specifier = byte 'c') && decide (c.modifier = .none)))

/-! ## What a conversion prints -/

/-- The bits of an argument that a length modifier leaves. -/
def Modifier.bits : Modifier → Nat
  | .hh => 8
  | .h => 16
  | _ => 32

/-- What a text of length `n` lacks. -/
def Width.missing (w : Width) (n : Nat) : Nat :=
  match w with
  | .number k => k - n
  | _ => 0

namespace Conversion

/-- A flag is set. -/
def has (c : Conversion) (flag : Char) : Bool := c.flags.contains (byte flag)

/-- `%d` and `%i`. -/
def isSigned (c : Conversion) : Bool := (ascii ['d', 'i']).contains c.specifier

/-- The number that an argument stands for. -/
def value (c : Conversion) (v : UInt32) : Int :=
  if c.isSigned then Int.bmod v.toNat (2 ^ c.modifier.bits)
  else (v.toNat % 2 ^ c.modifier.bits : Nat)

/-- The digits of a number. -/
def digits (c : Conversion) (n : Nat) : List UInt8 :=
  if c.specifier = byte 'o' then (Nat.toDigits 8 n).map byte
  else if c.specifier = byte 'x' then (Nat.toDigits 16 n).map byte
  else if c.specifier = byte 'X' then (Nat.toDigits 16 n).map fun d => byte d.toUpper
  else (Nat.toDigits 10 n).map byte

/-- The sign and the mark of a hexadecimal number. -/
def lead (c : Conversion) (v : Int) : List UInt8 :=
  (if v < 0 then ascii ['-']
    else if c.isSigned && c.has '+' then ascii ['+']
    else if c.isSigned && c.has ' ' then ascii [' '] else [])
  ++ (if c.has '#' && decide (v ≠ 0) && decide (c.specifier = byte 'x') then ascii ['0', 'x']
    else if c.has '#' && decide (v ≠ 0) && decide (c.specifier = byte 'X') then
      ascii ['0', 'X']
    else [])

/-- How many zeros come before the digits. -/
def zeros (c : Conversion) (digits : List UInt8) : Nat :=
  let missing := c.precision.missing digits.length
  if c.has '#' && decide (c.specifier = byte 'o') && decide (missing = 0)
    && decide (digits.head? ≠ some (byte '0')) then 1 else missing

/-- Fill up to the width: with blanks on the left or on the right, or with zeros behind
`lead`. -/
def pad (c : Conversion) (zeroPad : Bool) (lead body : List UInt8) : List UInt8 :=
  let n := c.width.missing (lead.length + body.length)
  if c.has '-' then lead ++ (body ++ List.replicate n (byte ' '))
  else if zeroPad then lead ++ (List.replicate n (byte '0') ++ body)
  else List.replicate n (byte ' ') ++ (lead ++ body)

/-- The text of a conversion that takes one `int` or `unsigned int`. -/
def render (c : Conversion) (v : UInt32) : List UInt8 :=
  if c.specifier = byte 'c' then c.pad false [] [v.toUInt8]
  else
    let digits := if c.value v = 0 ∧ c.precision = .number 0 then []
      else c.digits (c.value v).natAbs
    c.pad (c.has '0' && decide (c.precision = .absent)) (c.lead (c.value v))
      (List.replicate (c.zeros digits) (byte '0') ++ digits)

end Conversion

/-- The text of a format, with one argument for each conversion. -/
def text : List Directive → (Nat → UInt32) → List UInt8
  | [], _ => []
  | .literal b :: ds, args => b :: text ds args
  | .conversion c :: ds, args => c.render (args 0) ++ text ds fun k => args (k + 1)

/-- What `printf` makes of a format whose conversions take one `unsigned int` each: the text up
to its first zero byte. -/
def vsprintf (fmt : CString) (args : Nat → UInt32) : CString :=
  match parseFormat fmt.1 with
  | none => .empty
  | some directives =>
      ⟨(text directives args).takeWhile (· != 0), fun h => by
        have := List.mem_takeWhile_imp h
        simp at this⟩

theorem vsprintf_eq {fmt : CString} {ds : List Directive} (h : parseFormat fmt.1 = some ds)
    (args : Nat → UInt32) : (vsprintf fmt args).1 = (text ds args).takeWhile (· != 0) := by
  unfold vsprintf
  split
  · rename_i hnone
    rw [h] at hnone
    exact absurd hnone (Option.some_ne_none ds)
  · rename_i ds' hsome
    rw [h] at hsome
    rw [Option.some.inj hsome]

theorem vsprintf_of_clean {fmt : CString} {ds : List Directive}
    (h : parseFormat fmt.1 = some ds) {args : Nat → UInt32} (hclean : (0 : UInt8) ∉ text ds args) :
    (vsprintf fmt args).1 = text ds args := by
  rw [vsprintf_eq h, List.takeWhile_eq_self_iff]
  intro b hb
  have hne : b ≠ 0 := fun h0 => hclean (h0 ▸ hb)
  simpa using hne

/-! ## The arguments that a text depends on -/

theorem text_congr (ds : List Directive) {args args' : Nat → UInt32}
    (h : ∀ k < (conversions ds).length, args k = args' k) : text ds args = text ds args' := by
  induction ds generalizing args args' with
  | nil => rfl
  | cons d ds ih =>
      cases d with
      | literal b => exact congrArg (b :: ·) (ih h)
      | conversion c =>
          have h' : ∀ k < (conversions ds).length + 1, args k = args' k := h
          unfold text
          rw [h' 0 (Nat.succ_pos _), ih fun k hk => h' (k + 1) (Nat.succ_lt_succ hk)]

/-- One byte in the middle of what is printed. -/
theorem Conversion.pad_around (c : Conversion) (zeroPad : Bool) {lead zs : List UInt8}
    (hlead : (0 : UInt8) ∉ lead) (hzs : (0 : UInt8) ∉ zs) :
    ∃ l r : List UInt8, (0 : UInt8) ∉ l ∧ (0 : UInt8) ∉ r ∧
      ∀ a, c.pad zeroPad lead (zs ++ [a]) = l ++ a :: r := by
  have hfill : ∀ (n : Nat) (b : UInt8), b ≠ 0 → (0 : UInt8) ∉ List.replicate n b :=
    fun n b hb hmem => hb (List.eq_of_mem_replicate hmem).symm
  have happend : ∀ {s t : List UInt8}, (0 : UInt8) ∉ s → (0 : UInt8) ∉ t → (0 : UInt8) ∉ s ++ t := by
    intro s t hs ht hmem
    exact (List.mem_append.mp hmem).elim hs ht
  unfold Conversion.pad
  simp only [List.length_append, List.length_singleton]
  generalize c.width.missing (lead.length + (zs.length + 1)) = n
  by_cases hleft : c.has '-' = true
  · refine ⟨lead ++ zs, List.replicate n (byte ' '), happend hlead hzs,
      hfill n (byte ' ') (by decide), fun a => ?_⟩
    rw [if_pos hleft, List.append_assoc, List.append_assoc]
    rfl
  · simp only [if_neg hleft]
    cases zeroPad with
    | true =>
        refine ⟨lead ++ (List.replicate n (byte '0') ++ zs), [],
          happend hlead (happend (hfill n (byte '0') (by decide)) hzs), List.not_mem_nil,
          fun a => ?_⟩
        rw [if_pos rfl, List.append_assoc, List.append_assoc]
    | false =>
        refine ⟨List.replicate n (byte ' ') ++ (lead ++ zs), [],
          happend (hfill n (byte ' ') (by decide)) (happend hlead hzs), List.not_mem_nil,
          fun a => ?_⟩
        rw [if_neg Bool.false_ne_true, List.append_assoc, List.append_assoc]

theorem Conversion.zero_notMem_lead (c : Conversion) (v : Int) : (0 : UInt8) ∉ c.lead v := by
  unfold Conversion.lead
  intro h
  rcases List.mem_append.mp h with h | h
  all_goals
    revert h
    split_ifs <;> decide

/-- The digits 1 and 2 are printed with the same sign and the same zeros. -/
theorem Conversion.render_digit (c : Conversion) (h : isInteger c.specifier = true)
    (hmod : c.modifier = .none ∨ c.modifier = .h ∨ c.modifier = .hh) :
    c.render 1 = c.pad (c.has '0' && decide (c.precision = .absent)) (c.lead 1)
        (List.replicate (c.zeros [49]) (byte '0') ++ [49]) ∧
      c.render 2 = c.pad (c.has '0' && decide (c.precision = .absent)) (c.lead 1)
        (List.replicate (c.zeros [49]) (byte '0') ++ [50]) := by
  have hchar : c.specifier ≠ byte 'c' := by
    intro hc
    rw [hc] at h
    exact absurd h (by decide)
  have hvalue : c.value 1 = 1 ∧ c.value 2 = 2 := by
    unfold Conversion.value
    rcases hmod with hmod | hmod | hmod <;> rw [hmod] <;> cases c.isSigned <;> decide
  have hdigits : c.digits 1 = [49] ∧ c.digits 2 = [50] := by
    unfold Conversion.digits
    split_ifs <;> decide
  have hlead : c.lead 2 = c.lead 1 := rfl
  have hzeros : c.zeros [50] = c.zeros [49] := rfl
  unfold Conversion.render
  rw [if_neg hchar, if_neg hchar, hvalue.1, hvalue.2]
  dsimp only
  rw [if_neg (by simp), if_neg (by simp), hlead]
  show c.pad _ _ (List.replicate (c.zeros (c.digits 1)) _ ++ c.digits 1) = _ ∧
    c.pad _ _ (List.replicate (c.zeros (c.digits 2)) _ ++ c.digits 2) = _
  rw [hdigits.1, hdigits.2, hzeros]
  exact ⟨rfl, rfl⟩

/-- **A conversion prints something that depends on its argument.** -/
theorem Conversion.render_distinct (c : Conversion) (h : c.takesUInt = true) :
    ∃ v w, (0 : UInt8) ∉ c.render v ∧ (0 : UInt8) ∉ c.render w ∧ c.render v ≠ c.render w := by
  -- it is enough that one byte is printed differently
  have hbyte : ∀ (v w : UInt32) (zeroPad : Bool) (lead zs : List UInt8) (a b : UInt8),
      (0 : UInt8) ∉ lead → (0 : UInt8) ∉ zs → a ≠ 0 → b ≠ 0 → a ≠ b →
      c.render v = c.pad zeroPad lead (zs ++ [a]) → c.render w = c.pad zeroPad lead (zs ++ [b]) →
      ∃ v w, (0 : UInt8) ∉ c.render v ∧ (0 : UInt8) ∉ c.render w ∧ c.render v ≠ c.render w := by
    intro v w zeroPad lead zs a b hlead hzs ha hb hne hv hw
    obtain ⟨l, r, hl, hr, haround⟩ := c.pad_around zeroPad hlead hzs
    rw [haround] at hv hw
    refine ⟨v, w, ?_, ?_, ?_⟩
    · rw [hv]
      simp [hl, hr, ha.symm]
    · rw [hw]
      simp [hl, hr, hb.symm]
    · rw [hv, hw]
      simp [hne]
  by_cases hchar : c.specifier = byte 'c'
  · refine hbyte 65 66 false [] [] 65 66 List.not_mem_nil List.not_mem_nil (by decide) (by decide)
      (by decide) ?_ ?_
    · unfold Conversion.render
      rw [if_pos hchar]
      rfl
    · unfold Conversion.render
      rw [if_pos hchar]
      rfl
  · have hint : isInteger c.specifier = true ∧
        (c.modifier = .none ∨ c.modifier = .h ∨ c.modifier = .hh) := by
      unfold Conversion.takesUInt at h
      simp only [Bool.and_eq_true, Bool.or_eq_true, decide_eq_true_eq] at h
      exact h.2.resolve_right fun hc => hchar hc.1
    obtain ⟨h1, h2⟩ := c.render_digit hint.1 hint.2
    refine hbyte 1 2 _ _ _ 49 50 (c.zero_notMem_lead 1) (fun hmem => ?_) (by decide) (by decide)
      (by decide) h1 h2
    exact absurd (List.eq_of_mem_replicate hmem) (by decide)

/-- Some arguments are printed without a zero byte. -/
theorem exists_clean (ds : List Directive) (hlit : ∀ b, .literal b ∈ ds → b ≠ 0)
    (hconv : ∀ c ∈ conversions ds, c.takesUInt = true) :
    ∃ args, (0 : UInt8) ∉ text ds args := by
  induction ds with
  | nil => exact ⟨fun _ => 0, List.not_mem_nil⟩
  | cons d ds ih =>
      have hlit' : ∀ b, .literal b ∈ ds → b ≠ 0 := fun b hb =>
        hlit b (List.mem_cons_of_mem _ hb)
      cases d with
      | literal b =>
          obtain ⟨args, hargs⟩ := ih hlit' hconv
          refine ⟨args, fun hmem => ?_⟩
          rcases List.mem_cons.mp hmem with h0 | hmem
          · exact hlit b List.mem_cons_self h0.symm
          · exact hargs hmem
      | conversion c =>
          have hconv' : ∀ c' ∈ c :: conversions ds, c'.takesUInt = true := hconv
          obtain ⟨args, hargs⟩ := ih hlit' fun c' hc' => hconv' c' (List.mem_cons_of_mem _ hc')
          obtain ⟨v, -, hv, -, -⟩ := c.render_distinct (hconv' c List.mem_cons_self)
          refine ⟨fun k => if k = 0 then v else args (k - 1), fun hmem => ?_⟩
          exact (List.mem_append.mp hmem).elim hv hargs

/-- **A text depends on each of the arguments that its conversions take.** -/
theorem text_distinct (ds : List Directive) (hlit : ∀ b, .literal b ∈ ds → b ≠ 0)
    (hconv : ∀ c ∈ conversions ds, c.takesUInt = true) {n : Nat}
    (hn : n < (conversions ds).length) :
    ∃ args args', (∀ k, k ≠ n → args' k = args k) ∧ (0 : UInt8) ∉ text ds args ∧
      (0 : UInt8) ∉ text ds args' ∧ text ds args ≠ text ds args' := by
  induction ds generalizing n with
  | nil => exact absurd hn (Nat.not_lt_zero n)
  | cons d ds ih =>
      have hlit' : ∀ b, .literal b ∈ ds → b ≠ 0 := fun b hb =>
        hlit b (List.mem_cons_of_mem _ hb)
      cases d with
      | literal b =>
          obtain ⟨args, args', hsame, h, h', hne⟩ := ih hlit' hconv hn
          have hb : (0 : UInt8) ≠ b := (hlit b List.mem_cons_self).symm
          refine ⟨args, args', hsame, ?_, ?_, fun heq => hne (List.cons.inj heq).2⟩
          · exact fun hmem => (List.mem_cons.mp hmem).elim hb h
          · exact fun hmem => (List.mem_cons.mp hmem).elim hb h'
      | conversion c =>
          have hconv' : ∀ c' ∈ c :: conversions ds, c'.takesUInt = true := hconv
          have htail : ∀ c' ∈ conversions ds, c'.takesUInt = true := fun c' hc' =>
            hconv' c' (List.mem_cons_of_mem _ hc')
          obtain ⟨v, w, hv, hw, hvw⟩ := c.render_distinct (hconv' c List.mem_cons_self)
          cases n with
          | zero =>
              -- the argument of this conversion is changed
              obtain ⟨args, hargs⟩ := exists_clean ds hlit' htail
              refine ⟨fun k => if k = 0 then v else args (k - 1),
                fun k => if k = 0 then w else args (k - 1), fun k hk => ?_, ?_, ?_, ?_⟩
              · dsimp only
                rw [if_neg hk, if_neg hk]
              · exact fun hmem => (List.mem_append.mp hmem).elim hv hargs
              · exact fun hmem => (List.mem_append.mp hmem).elim hw hargs
              · exact fun heq => hvw (List.append_cancel_right heq)
          | succ n =>
              obtain ⟨args, args', hsame, h, h', hne⟩ :=
                ih hlit' htail (Nat.lt_of_succ_lt_succ hn)
              refine ⟨fun k => if k = 0 then v else args (k - 1),
                fun k => if k = 0 then v else args' (k - 1), fun k hk => ?_, ?_, ?_, ?_⟩
              · cases k with
                | zero => rfl
                | succ k => exact hsame k fun hkn => hk (congrArg Nat.succ hkn)
              · exact fun hmem => (List.mem_append.mp hmem).elim hv h
              · exact fun hmem => (List.mem_append.mp hmem).elim hv h'
              · exact fun heq => hne (List.append_cancel_left heq)

/-- The literal that a directive can be. -/
theorem parseDirective_literal {fmt rest : List UInt8} {b : UInt8}
    (h : parseDirective fmt = some (.literal b, rest)) : b = byte '%' := by
  unfold parseDirective at h
  split_ifs at h with hpercent
  · simp only [Option.some.injEq, Prod.mk.injEq, Directive.literal.injEq] at h
    exact h.1.symm
  · dsimp only at h
    split at h
    · exact absurd h (by simp)
    · split_ifs at h
      simp at h

/-- A literal is a byte of the format. -/
theorem literal_of_parseFrom {fmt : List UInt8} {ds : List Directive} {skip : Nat}
    (h : parseFrom skip fmt = some ds) {b : UInt8} (hb : .literal b ∈ ds) :
    b ∈ fmt ∨ b = byte '%' := by
  induction fmt generalizing skip ds with
  | nil =>
      have : some [] = some ds := h
      obtain rfl := Option.some.inj this
      exact absurd hb List.not_mem_nil
  | cons b' fmt ih =>
      cases skip with
      | succ skip => exact (ih h hb).imp_left (List.mem_cons_of_mem b')
      | zero =>
          unfold parseFrom at h
          split_ifs at h
          · obtain ⟨⟨d, rest⟩, hd, hrest⟩ := Option.bind_eq_some_iff.mp h
            obtain ⟨ds', hds, rfl⟩ := Option.map_eq_some_iff.mp hrest
            rcases List.mem_cons.mp hb with rfl | hb
            · exact Or.inr (parseDirective_literal hd)
            · exact (ih hds hb).imp_left (List.mem_cons_of_mem b')
          · obtain ⟨ds', hds, rfl⟩ := Option.map_eq_some_iff.mp h
            rcases List.mem_cons.mp hb with hb | hb
            · exact Or.inl (List.mem_cons.mpr (Or.inl (Directive.literal.inj hb)))
            · exact (ih hds hb).imp_left (List.mem_cons_of_mem b')

/-- The literals of a format are no zero bytes. -/
theorem literal_ne_zero (fmt : CString) {ds : List Directive} (h : parseFormat fmt.1 = some ds)
    {b : UInt8} (hb : .literal b ∈ ds) : b ≠ 0 := by
  rcases literal_of_parseFrom h hb with hmem | rfl
  · rintro rfl
    exact fmt.2 hmem
  · decide

end LteUlp.Printf
