import LteUlp.Basic.CString

set_option autoImplicit false

/-! # Reading JSON

`cJSON_Parse` (`cJSON.c`). The text is the list of its bytes with the terminator behind it,
and the functions move an offset along it, as the C code does. Reading a byte that is not
there, and writing behind the end of the memory that has been allocated, end the run with
`overrun`. Memory is always there. The calls and the loops need fuel.

Numbers are read by `strtod`, which is a parameter.
-/

namespace LteUlp.Json

/-- What the C library knows of a `double`: `strtod` with the number of characters that it
has read, and the integer part. -/
structure Libc (D : Type) where
  strtod : List UInt8 → D × Nat
  strtod_le : ∀ s, (strtod s).2 ≤ s.length
  trunc : D → Int

/-- `cJSON`. The items of an array and of an object are its `child` and what follows it by
`next`; those of an object have a `string`. -/
inductive Item (D : Type) where
  | null
  | false
  | true
  | number (valuedouble : D)
  | string (valuestring : List UInt8)
  | array (child : List (Item D))
  | object (child : List (List UInt8 × Item D))

/-! ## Characters -/

def dquote : UInt8 := 0x22

def backslash : UInt8 := 0x5C

def comma : UInt8 := 0x2C

def colon : UInt8 := 0x3A

def openBracket : UInt8 := 0x5B

def closeBracket : UInt8 := 0x5D

def openBrace : UInt8 := 0x7B

def closeBrace : UInt8 := 0x7D

def minus : UInt8 := 0x2D

def isDigit (c : UInt8) : Bool := 0x30 ≤ c && c ≤ 0x39

/-- `0` to `9`, `+`, `-`, `e`, `E` and `.`. -/
def isNumberChar (c : UInt8) : Bool :=
  isDigit c || c == 0x2B || c == minus || c == 0x65 || c == 0x45 || c == 0x2E

/-! ## The buffer -/

/-- `parse_buffer`. -/
structure ParseBuffer where
  content : List UInt8
  offset : Nat
  depth : Nat

/-- How a function ends: with `true`, with `false`, by an access that is not allowed, or
without fuel. -/
inductive Outcome (α : Type) where
  | ok (value : α) (buffer : ParseBuffer)
  | fail (buffer : ParseBuffer)
  | overrun
  | outOfFuel

variable {α γ D : Type}

/-- Go on if the function has returned `true`. -/
def Outcome.andThen (o : Outcome α) (f : α → ParseBuffer → Outcome γ) : Outcome γ :=
  match o with
  | .ok a b => f a b
  | .fail b => .fail b
  | .overrun => .overrun
  | .outOfFuel => .outOfFuel

namespace ParseBuffer

/-- `length`. -/
def length (b : ParseBuffer) : Nat := b.content.length

/-- What is left to read. -/
def rest (b : ParseBuffer) : List UInt8 := b.content.drop b.offset

def advance (b : ParseBuffer) (n : Nat) : ParseBuffer := { b with offset := b.offset + n }

/-- `offset--`. -/
def back (b : ParseBuffer) : ParseBuffer := { b with offset := b.offset - 1 }

def enter (b : ParseBuffer) : ParseBuffer := { b with depth := b.depth + 1 }

def leave (b : ParseBuffer) : ParseBuffer := { b with depth := b.depth - 1 }

/-- `can_access_at_index(buffer, 0)`. -/
def canAccess (b : ParseBuffer) : Bool := b.offset < b.length

/-- `can_access_at_index(buffer, 0) && (buffer_at_offset(buffer)[0] == c)`. -/
def at? (b : ParseBuffer) (c : UInt8) : Bool := b.rest.head? == some c

/-- `can_read` of as many bytes as the literal has, and `strncmp` with it. -/
def startsWith (b : ParseBuffer) (s : List UInt8) : Bool := s.isPrefixOf b.rest

end ParseBuffer

/-- `buffer_skip_whitespace`. -/
def bufferSkipWhitespace (b : ParseBuffer) : ParseBuffer :=
  let b := b.advance (b.rest.takeWhile (· ≤ 32)).length
  if b.offset = b.length then b.back else b

/-- `skip_utf8_bom`. -/
def skipUtf8Bom (b : ParseBuffer) : ParseBuffer :=
  if b.offset + 4 < b.length && b.startsWith [0xEF, 0xBB, 0xBF] then b.advance 3 else b

/-! ## Numbers -/

/-- `valueint`: the number as an `int`, with saturation. -/
def valueint (libc : Libc D) (number : D) : Int :=
  max (-2147483648) (min 2147483647 (libc.trunc number))

/-- `parse_number`. The number is copied to a buffer of 64 bytes first. -/
def parseNumber (libc : Libc D) (b : ParseBuffer) : Outcome (Item D) :=
  let numberCString := (b.rest.takeWhile isNumberChar).take 63
  let number := libc.strtod numberCString
  if number.2 = 0 then .fail b else .ok (.number number.1) (b.advance number.2)

/-! ## Strings -/

/-- A digit of `parse_hex4`. -/
def hexDigit (c : UInt8) : Option Nat :=
  if 0x30 ≤ c && c ≤ 0x39 then some (c.toNat - 0x30)
  else if 0x41 ≤ c && c ≤ 0x46 then some (10 + c.toNat - 0x41)
  else if 0x61 ≤ c && c ≤ 0x66 then some (10 + c.toNat - 0x61)
  else none

/-- `parse_hex4`: `0` if one of the digits is none; `none` if there are not four bytes. -/
def parseHex4 (input : List UInt8) : Option Nat :=
  match input with
  | a :: b :: c :: d :: _ =>
      match hexDigit a, hexDigit b, hexDigit c, hexDigit d with
      | some a, some b, some c, some d => some (((a * 16 + b) * 16 + c) * 16 + d)
      | _, _, _, _ => some 0
  | _ => none

/-- The last `n` bytes of a character in UTF-8, each with six bits of `codepoint`. -/
def utf8Tail : Nat → Nat → List UInt8
  | 0, _ => []
  | n + 1, codepoint =>
      utf8Tail n (codepoint / 64) ++ [UInt8.ofNat ((codepoint ||| 0x80) &&& 0xBF)]

/-- A character in UTF-8. -/
def utf8 (codepoint : Nat) : Option (List UInt8) :=
  if codepoint < 0x80 then some [UInt8.ofNat (codepoint &&& 0x7F)]
  else if codepoint < 0x800 then
    some (UInt8.ofNat (((codepoint / 64) ||| 0xC0) &&& 0xFF) :: utf8Tail 1 codepoint)
  else if codepoint < 0x10000 then
    some (UInt8.ofNat (((codepoint / 4096) ||| 0xE0) &&& 0xFF) :: utf8Tail 2 codepoint)
  else if codepoint ≤ 0x10FFFF then
    some (UInt8.ofNat (((codepoint / 262144) ||| 0xF0) &&& 0xFF) :: utf8Tail 3 codepoint)
  else none

/-- What comes of an escape sequence. -/
inductive Escape where
  /-- The bytes to write, and the length of the sequence. -/
  | sequence (output : List UInt8) (length : Nat)
  | fail
  | overrun

/-- The end of `utf16_literal_to_utf8`. -/
def Escape.ofCodepoint (codepoint sequenceLength : Nat) : Escape :=
  match utf8 codepoint with
  | some output => .sequence output sequenceLength
  | none => .fail

/-- `utf16_literal_to_utf8` for the input `input`, of which `left` bytes come before
`input_end`. -/
def utf16LiteralToUtf8 (input : List UInt8) (left : Nat) : Escape :=
  if left < 6 then .fail
  else
    match parseHex4 (input.drop 2) with
    | none => .overrun
    | some firstCode =>
        if 0xDC00 ≤ firstCode ∧ firstCode ≤ 0xDFFF then .fail
        else if 0xD800 ≤ firstCode ∧ firstCode ≤ 0xDBFF then
          if left - 6 < 6 then .fail
          else
            match input.drop 6 with
            | c :: d :: secondSequence =>
                if c ≠ backslash ∨ d ≠ 0x75 then .fail
                else
                  match parseHex4 secondSequence with
                  | none => .overrun
                  | some secondCode =>
                      if secondCode < 0xDC00 ∨ 0xDFFF < secondCode then .fail
                      else
                        .ofCodepoint (0x10000 + (((firstCode &&& 0x3FF) * 1024)
                          ||| (secondCode &&& 0x3FF))) 12
            | _ => .overrun
        else .ofCodepoint firstCode 6

/-- The escape sequence that begins `input`. -/
def escape (input : List UInt8) (left : Nat) : Escape :=
  match input with
  | _ :: 0x62 :: _ => .sequence [0x08] 2
  | _ :: 0x66 :: _ => .sequence [0x0C] 2
  | _ :: 0x6E :: _ => .sequence [0x0A] 2
  | _ :: 0x72 :: _ => .sequence [0x0D] 2
  | _ :: 0x74 :: _ => .sequence [0x09] 2
  | _ :: 0x22 :: _ => .sequence [0x22] 2
  | _ :: 0x5C :: _ => .sequence [0x5C] 2
  | _ :: 0x2F :: _ => .sequence [0x2F] 2
  | _ :: 0x75 :: _ => utf16LiteralToUtf8 input left
  | _ :: _ :: _ => .fail
  | _ => .overrun

/-- The first loop of `parse_string`: how far it is to the closing quote, and how many
bytes of it are skipped. -/
def scanString : List UInt8 → Option (Nat × Nat)
  | [] => none
  | c :: s =>
      if c = dquote then some (0, 0)
      else if c = backslash then
        match s with
        | [] => none
        | _ :: s => (scanString s).map fun r => (r.1 + 2, r.2 + 1)
      else (scanString s).map fun r => (r.1 + 1, r.2)

/-- What the second loop comes to. -/
inductive Unescaped where
  | done (output : List UInt8)
  /-- The escape sequence that `left` bytes before the closing quote is not valid. -/
  | fail (left : Nat)
  | overrun
  | outOfFuel

/-- `*output_pointer++ = c` for some bytes, if there is room for them. -/
def store (allocated : Nat) (output bytes : List UInt8) : Option (List UInt8) :=
  if output.length + bytes.length ≤ allocated then some (output ++ bytes) else none

/-- The second loop of `parse_string`; `left` bytes of the input come before the closing
quote. The terminator is written at the end. -/
def unescape (allocated : Nat) (fuel : Nat) (input : List UInt8) (left : Nat)
    (output : List UInt8) : Unescaped :=
  if left = 0 then
    match store allocated output [0] with
    | some _ => .done output
    | none => .overrun
  else
    match fuel, input with
    | 0, _ => .outOfFuel
    | _, [] => .overrun
    | fuel + 1, c :: s =>
        if c ≠ backslash then
          match store allocated output [c] with
          | some output => unescape allocated fuel s (left - 1) output
          | none => .overrun
        else
          match escape input left with
          | .fail => .fail left
          | .overrun => .overrun
          | .sequence bytes n =>
              match store allocated output bytes with
              | some output => unescape allocated fuel (input.drop n) (left - n) output
              | none => .overrun

/-- `parse_string`. Less is allocated than the text is long by the bytes that have been
skipped. -/
def parseString (b : ParseBuffer) : Outcome (List UInt8) :=
  match b.rest with
  | [] => .overrun
  | c :: input =>
      if c ≠ dquote then .fail (b.advance 1)
      else
        match scanString input with
        | none => .fail (b.advance 1)
        | some (inputEnd, skippedBytes) =>
            let allocationLength := inputEnd + 1 - skippedBytes
            match unescape (allocationLength + 1) inputEnd input inputEnd [] with
            | .done output => .ok output (b.advance (inputEnd + 2))
            | .fail left => .fail (b.advance (1 + (inputEnd - left)))
            | .overrun => .overrun
            | .outOfFuel => .outOfFuel

/-! ## Values -/

/-- `CJSON_NESTING_LIMIT`. -/
def nestingLimit : Nat := 1000

/-- The loop of `parse_array`; `value` is `parse_value`. The offset is in front of the next
item. -/
def parseElements (value : ParseBuffer → Outcome (Item D)) :
    Nat → ParseBuffer → Outcome (List (Item D))
  | 0, _ => .outOfFuel
  | fuel + 1, b =>
      (value (bufferSkipWhitespace (b.advance 1))).andThen fun item b =>
        let b := bufferSkipWhitespace b
        if b.at? comma then
          (parseElements value fuel b).andThen fun items b => .ok (item :: items) b
        else if b.at? closeBracket then .ok [item] b
        else .fail b

/-- `parse_array`. -/
def parseArray (value : ParseBuffer → Outcome (Item D)) (fuel : Nat) (b : ParseBuffer) :
    Outcome (Item D) :=
  if nestingLimit ≤ b.depth then .fail b
  else
    let b := b.enter
    match b.rest with
    | [] => .overrun
    | c :: _ =>
        if c ≠ openBracket then .fail b
        else
          let b := bufferSkipWhitespace (b.advance 1)
          if b.at? closeBracket then .ok (.array []) (b.leave.advance 1)
          else if !b.canAccess then .fail b.back
          else
            (parseElements value fuel b.back).andThen fun items b =>
              .ok (.array items) (b.leave.advance 1)

/-- The loop of `parse_object`. -/
def parseMembers (value : ParseBuffer → Outcome (Item D)) :
    Nat → ParseBuffer → Outcome (List (List UInt8 × Item D))
  | 0, _ => .outOfFuel
  | fuel + 1, b =>
      (parseString (bufferSkipWhitespace (b.advance 1))).andThen fun string b =>
        let b := bufferSkipWhitespace b
        if !b.at? colon then .fail b
        else
          (value (bufferSkipWhitespace (b.advance 1))).andThen fun item b =>
            let b := bufferSkipWhitespace b
            if b.at? comma then
              (parseMembers value fuel b).andThen fun items b => .ok ((string, item) :: items) b
            else if b.at? closeBrace then .ok [(string, item)] b
            else .fail b

/-- `parse_object`. -/
def parseObject (value : ParseBuffer → Outcome (Item D)) (fuel : Nat) (b : ParseBuffer) :
    Outcome (Item D) :=
  if nestingLimit ≤ b.depth then .fail b
  else
    let b := b.enter
    if !b.at? openBrace then .fail b
    else
      let b := bufferSkipWhitespace (b.advance 1)
      if b.at? closeBrace then .ok (.object []) (b.leave.advance 1)
      else if !b.canAccess then .fail b.back
      else
        (parseMembers value fuel b.back).andThen fun items b =>
          .ok (.object items) (b.leave.advance 1)

/-- `parse_value`. -/
def parseValue (libc : Libc D) : Nat → ParseBuffer → Outcome (Item D)
  | 0, _ => .outOfFuel
  | fuel + 1, b =>
      if b.startsWith (ascii ['n', 'u', 'l', 'l']) then .ok .null (b.advance 4)
      else if b.startsWith (ascii ['f', 'a', 'l', 's', 'e']) then .ok .false (b.advance 5)
      else if b.startsWith (ascii ['t', 'r', 'u', 'e']) then .ok .true (b.advance 4)
      else if b.at? dquote then (parseString b).andThen fun s b => .ok (.string s) b
      else if b.at? minus || b.rest.head?.any isDigit then parseNumber libc b
      else if b.at? openBracket then parseArray (parseValue libc fuel) fuel b
      else if b.at? openBrace then parseObject (parseValue libc fuel) fuel b
      else .fail b

/-- What `cJSON_ParseWithOpts` returns: the item, if there is one, and the end of what has
been parsed, or the position of the error. -/
inductive Parsed (D : Type) where
  | item (item : Item D) (parseEnd : Nat)
  | error (position : Nat)
  | overrun
  | outOfFuel

/-- `cJSON_ParseWithOpts` at the label `fail`. -/
def failAt (b : ParseBuffer) : Parsed D :=
  if b.offset < b.length then .error b.offset
  else if 0 < b.length then .error (b.length - 1)
  else .error 0

/-- What `cJSON_ParseWithOpts` does after `parse_value`. -/
def Outcome.parsed (requireNullTerminated : Bool) : Outcome (Item D) → Parsed D
  | .overrun => .overrun
  | .outOfFuel => .outOfFuel
  | .fail b => failAt b
  | .ok item b =>
      if requireNullTerminated then
        let b := bufferSkipWhitespace b
        if !b.at? 0 then failAt b else .item item b.offset
      else .item item b.offset

/-- `cJSON_ParseWithOpts`, for the memory `value`. It has to hold a terminator for `strlen`
to come to an end in it. -/
def parseWithOpts (libc : Libc D) (value : List UInt8) (requireNullTerminated : Bool) :
    Parsed D :=
  if 0 ∈ value then
    let content := value.takeWhile (· != 0) ++ [0]
    let b := bufferSkipWhitespace (skipUtf8Bom ⟨content, 0, 0⟩)
    (parseValue libc content.length b).parsed requireNullTerminated
  else .overrun

/-- `cJSON_Parse`. -/
def parse (libc : Libc D) (value : List UInt8) : Parsed D := parseWithOpts libc value false

end LteUlp.Json
