import LteUlp.Json.Document

set_option autoImplicit false

/-! # What is quoted

The grammar has the two loops of `parse_string` for strings. On the strings of JSON they do
what they should (`isString_of_chars`): the first one finds the closing quote, and the second
one puts in, for each escape sequence, the character that is meant.

With this the grammar says what a document is, and `parse_grammar` that such a document is
read.
-/

namespace LteUlp.Json

variable {t s u : List UInt8}

/-- The character that an escape sequence of two stands for. -/
def shortEscape : UInt8 → Option UInt8
  | 0x62 => some 0x08
  | 0x66 => some 0x0C
  | 0x6E => some 0x0A
  | 0x72 => some 0x0D
  | 0x74 => some 0x09
  | 0x22 => some 0x22
  | 0x5C => some 0x5C
  | 0x2F => some 0x2F
  | _ => none

/-- The hexadecimal digits in the order of their values. -/
def lowerDigits : List UInt8 := ascii "0123456789abcdef".toList
def upperDigits : List UInt8 := ascii "0123456789ABCDEF".toList

/-- A digit with the value `i`. -/
def IsHexDigit (c : UInt8) (i : Nat) : Prop :=
  lowerDigits[i]? = some c ∨ upperDigits[i]? = some c

/-- Four hexadecimal digits, the highest one first. -/
inductive HexDigits : List UInt8 → Nat → Prop where
  | mk {a b c d : UInt8} {i j k l : Nat} : IsHexDigit a i → IsHexDigit b j → IsHexDigit c k →
      IsHexDigit d l → HexDigits [a, b, c, d] (i * 16 ^ 3 + j * 16 ^ 2 + k * 16 + l)

/-- What stands between the quotes, and the string that is meant, in UTF-8. -/
inductive Chars : List UInt8 → List UInt8 → Prop where
  | nil : Chars [] []
  | plain {c : UInt8} {t s : List UInt8} : c ≠ dquote → c ≠ backslash → Chars t s →
      Chars (c :: t) (c :: s)
  | short {c e : UInt8} {t s : List UInt8} : shortEscape c = some e → Chars t s →
      Chars (backslash :: c :: t) (e :: s)
  | code {h t s : List UInt8} {c : Char} : HexDigits h c.toNat → Chars t s →
      Chars (backslash :: 0x75 :: (h ++ t)) (String.utf8EncodeChar c ++ s)
  | pair {h l t s : List UInt8} {m n : Nat} {c : Char} : HexDigits h m → HexDigits l n →
      0xD800 ≤ m ∧ m ≤ 0xDBFF → 0xDC00 ≤ n ∧ n ≤ 0xDFFF →
      c.toNat = 0x10000 + (m - 0xD800) * 0x400 + (n - 0xDC00) → Chars t s →
      Chars (backslash :: 0x75 :: (h ++ backslash :: 0x75 :: (l ++ t)))
        (String.utf8EncodeChar c ++ s)

/-! ## The characters -/

/-- A byte behind the first one: its lower six bits, and two bits in front of them. -/
theorem continuation_byte (n : Nat) : (n ||| 0x80) &&& 0xBF = n % 64 + 0x80 := by
  have hsmall : ∀ m < 256, (m ||| 0x80) &&& 0xBF = m % 64 + 0x80 := by decide +kernel
  have hmask : ∀ m : Nat, (m ||| 0x80) &&& 0xBF = ((m &&& 255) ||| 0x80) &&& 0xBF := by
    intro m
    rw [Nat.and_or_distrib_right, Nat.and_or_distrib_right, Nat.and_assoc]
    rfl
  have hmod : n &&& 255 = n % 256 := Nat.and_two_pow_sub_one_eq_mod n 8
  rw [hmask, hmod, hsmall _ (Nat.mod_lt _ (by decide))]
  omega

/-- The first byte of two, three and four. -/
theorem first_byte :
    (∀ n < 32, (n ||| 0xC0) &&& 0xFF = n % 0x20 + 0xC0) ∧
      (∀ n < 16, (n ||| 0xE0) &&& 0xFF = n % 0x10 + 0xE0) ∧
      ∀ n < 8, (n ||| 0xF0) &&& 0xFF = n % 0x08 + 0xF0 := by decide

/-- **The bytes of a character** are those of its encoding in UTF-8. -/
theorem utf8_eq (c : Char) : utf8 c.toNat = some (String.utf8EncodeChar c) := by
  have hmax : c.val.toNat < 0x110000 := by
    rcases c.valid with h | h
    · exact Nat.lt_trans h (by decide)
    · exact h.2
  obtain ⟨htwo, hthree, hfour⟩ := first_byte
  show utf8 c.val.toNat = _
  unfold utf8 String.utf8EncodeChar
  generalize c.val.toNat = v at hmax
  simp only
  by_cases h1 : v < 0x80
  · have hlow : v &&& 0x7F = v := by
      rw [show (0x7F : Nat) = 2 ^ 7 - 1 from rfl, Nat.and_two_pow_sub_one_eq_mod]
      omega
    rw [if_pos h1, if_pos (show v ≤ 0x7F by omega), hlow]
  rw [if_neg h1, if_neg (show ¬ v ≤ 0x7F by omega)]
  by_cases h2 : v < 0x800
  · rw [if_pos h2, if_pos (show v ≤ 0x7FF by omega), htwo (v / 64) (by omega)]
    simp [utf8Tail, continuation_byte]
  rw [if_neg h2, if_neg (show ¬ v ≤ 0x7FF by omega)]
  by_cases h3 : v < 0x10000
  · rw [if_pos h3, if_pos (show v ≤ 0xFFFF by omega), hthree (v / 4096) (by omega)]
    simp [utf8Tail, continuation_byte]
  · rw [if_neg h3, if_neg (show ¬ v ≤ 0xFFFF by omega), if_pos (show v ≤ 0x10FFFF by omega),
      hfour (v / 262144) (by omega)]
    simp [utf8Tail, continuation_byte, Nat.div_div_eq_div_mul]

theorem IsHexDigit.hexDigit {c : UInt8} {i : Nat} (h : IsHexDigit c i) : hexDigit c = some i := by
  have hlower : ∀ k : Fin lowerDigits.length, Json.hexDigit lowerDigits[k] = some k.val := by decide
  have hupper : ∀ k : Fin upperDigits.length, Json.hexDigit upperDigits[k] = some k.val := by decide
  rcases h with h | h
  · obtain ⟨hlt, rfl⟩ := List.getElem?_eq_some_iff.mp h
    exact hlower ⟨i, hlt⟩
  · obtain ⟨hlt, rfl⟩ := List.getElem?_eq_some_iff.mp h
    exact hupper ⟨i, hlt⟩

/-- A character beyond the first plane, from the ten bits of each half of a pair. -/
theorem surrogate_pair {m n : Nat} (hm : 0xD800 ≤ m ∧ m ≤ 0xDBFF) (hn : 0xDC00 ≤ n ∧ n ≤ 0xDFFF) :
    0x10000 + (((m &&& 0x3FF) * 1024) ||| (n &&& 0x3FF))
      = 0x10000 + (m - 0xD800) * 0x400 + (n - 0xDC00) := by
  have hlow : ∀ k : Nat, k &&& 0x3FF = k % 1024 := fun k => Nat.and_two_pow_sub_one_eq_mod k 10
  have hor : m % 1024 * 1024 ||| n % 1024 = m % 1024 * 1024 + n % 1024 := by
    have h := Nat.two_pow_add_eq_or_of_lt (i := 10) (Nat.mod_lt n (by decide)) (m % 1024)
    rw [Nat.mul_comm (m % 1024)]
    exact h.symm
  rw [hlow, hlow, hor]
  omega

theorem hexDigit_plain {c : UInt8} {n : Nat} (h : hexDigit c = some n) :
    c ≠ dquote ∧ c ≠ backslash := by
  constructor
  · rintro rfl
    cases h
  · rintro rfl
    cases h

theorem HexDigits.length {h : List UInt8} {n : Nat} (hh : HexDigits h n) : h.length = 4 := by
  cases hh
  rfl

theorem HexDigits.parseHex4 {h : List UInt8} {n : Nat} (hh : HexDigits h n) (r : List UInt8) :
    parseHex4 (h ++ r) = some n := by
  cases hh with
  | mk hi hj hk hl =>
      simp only [Json.parseHex4, List.cons_append, List.nil_append, hi.hexDigit, hj.hexDigit,
        hk.hexDigit, hl.hexDigit]
      congr 1
      omega

section Scan

variable {m k : Nat}

theorem scanString_next {c : UInt8} (hq : c ≠ dquote) (hb : c ≠ backslash)
    (h : scanString u = some (m, k)) : scanString (c :: u) = some (m + 1, k) := by
  rw [scanString_plain u hq hb, h]
  rfl

theorem scanString_pair (c : UInt8) (h : scanString u = some (m, k)) :
    scanString (backslash :: c :: u) = some (m + 2, k + 1) := by
  rw [scanString_backslash, h]
  rfl

/-- The first loop goes over the digits. -/
theorem HexDigits.scanString {h : List UInt8} {n : Nat} (hh : HexDigits h n)
    (hu : scanString u = some (m, k)) : Json.scanString (h ++ u) = some (m + 4, k) := by
  have hstep : ∀ {c : UInt8} {i m : Nat} {v : List UInt8}, hexDigit c = some i →
      Json.scanString v = some (m, k) → Json.scanString (c :: v) = some (m + 1, k) :=
    fun hc hv => scanString_next (hexDigit_plain hc).1 (hexDigit_plain hc).2 hv
  cases hh with
  | mk hi hj hk hl =>
      exact hstep hi.hexDigit (hstep hj.hexDigit (hstep hk.hexDigit (hstep hl.hexDigit hu)))

/-- **The first loop finds the closing quote.** -/
theorem Chars.scanString (h : Chars t s) (r : List UInt8) :
    ∃ k, Json.scanString (t ++ dquote :: r) = some (t.length, k) := by
  induction h with
  | nil => exact ⟨0, scanString_dquote r⟩
  | plain hq hb _ ih =>
      obtain ⟨k, hk⟩ := ih
      exact ⟨k, scanString_next hq hb hk⟩
  | short _ _ ih =>
      obtain ⟨k, hk⟩ := ih
      exact ⟨k + 1, scanString_pair _ hk⟩
  | code hn _ ih =>
      obtain ⟨k, hk⟩ := ih
      have hscan := scanString_pair 0x75 (hn.scanString hk)
      refine ⟨k + 1, ?_⟩
      simp only [List.cons_append, List.append_assoc, List.length_cons, List.length_append,
        hn.length, hscan]
      congr 2
      omega
  | pair hm hn _ _ _ _ ih =>
      obtain ⟨k, hk⟩ := ih
      have hscan := scanString_pair 0x75 (hm.scanString (scanString_pair 0x75 (hn.scanString hk)))
      refine ⟨k + 1 + 1, ?_⟩
      simp only [List.cons_append, List.append_assoc, List.length_cons, List.length_append,
        hm.length, hn.length, hscan]
      congr 2
      omega

end Scan

/-! ## The second loop -/

theorem escape_short {c e : UInt8} (h : shortEscape c = some e) (r : List UInt8) (left : Nat) :
    escape (backslash :: c :: r) left = .sequence [e] 2 := by
  unfold shortEscape at h
  split at h <;> cases h <;> rfl

section Codes

variable {h l : List UInt8} {m n left : Nat} {c : Char}

theorem escape_code (hn : HexDigits h c.toNat) (r : List UInt8) (hleft : 6 ≤ left) :
    escape (backslash :: 0x75 :: (h ++ r)) left = .sequence (String.utf8EncodeChar c) 6 := by
  have hrange : c.toNat < 0xD800 ∨ 0xDFFF < c.toNat := by
    rcases c.valid with h | h
    · exact Or.inl h
    · exact Or.inr h.1
  show utf16LiteralToUtf8 (backslash :: 0x75 :: (h ++ r)) left = _
  unfold utf16LiteralToUtf8
  rw [if_neg (by omega)]
  simp only [List.drop_succ_cons, List.drop_zero, hn.parseHex4]
  rw [if_neg (by omega), if_neg (by omega), Escape.ofCodepoint, utf8_eq]

theorem escape_pair (hm : HexDigits h m) (hn : HexDigits l n)
    (hmrange : 0xD800 ≤ m ∧ m ≤ 0xDBFF) (hnrange : 0xDC00 ≤ n ∧ n ≤ 0xDFFF)
    (hc : c.toNat = 0x10000 + (m - 0xD800) * 0x400 + (n - 0xDC00)) (r : List UInt8)
    (hleft : 12 ≤ left) :
    escape (backslash :: 0x75 :: (h ++ backslash :: 0x75 :: (l ++ r))) left
      = .sequence (String.utf8EncodeChar c) 12 := by
  have hdrop : (backslash :: 0x75 :: (h ++ backslash :: 0x75 :: (l ++ r))).drop 6
      = backslash :: 0x75 :: (l ++ r) := by
    simp only [List.drop_succ_cons]
    exact List.drop_left' hm.length
  show utf16LiteralToUtf8 _ left = _
  unfold utf16LiteralToUtf8
  rw [if_neg (by omega), hdrop]
  simp only [List.drop_succ_cons, List.drop_zero, hm.parseHex4, hn.parseHex4]
  rw [if_neg (by omega), if_pos hmrange, if_neg (by omega), if_neg (by simp), if_neg (by omega),
    Escape.ofCodepoint, surrogate_pair hmrange hnrange, ← hc, utf8_eq]

end Codes

section Unescape

variable {allocated fuel left n : Nat} {output bytes : List UInt8}

/-- Without room for it nothing is written. -/
theorem store_cases (allocated : Nat) (output bytes : List UInt8) :
    store allocated output bytes = none ∨ store allocated output bytes = some (output ++ bytes) := by
  unfold store
  split
  · exact Or.inr rfl
  · exact Or.inl rfl

theorem unescape_next {c : UInt8} (hc : c ≠ backslash) :
    unescape allocated (fuel + 1) (c :: u) (left + 1) output = .overrun ∨
      unescape allocated (fuel + 1) (c :: u) (left + 1) output
        = unescape allocated fuel u left (output ++ [c]) := by
  rw [unescape.eq_def]
  simp only [Nat.add_eq_zero_iff, one_ne_zero, and_false, if_false, hc, ne_eq, not_false_eq_true,
    if_true, Nat.add_sub_cancel]
  rcases store_cases allocated output [c] with h | h <;> simp [h]

theorem unescape_sequence {v : List UInt8} {l : Nat}
    (he : escape (backslash :: u) left = .sequence bytes n) (hleft : 0 < left)
    (hv : (backslash :: u).drop n = v) (hl : left - n = l) :
    unescape allocated (fuel + 1) (backslash :: u) left output = .overrun ∨
      unescape allocated (fuel + 1) (backslash :: u) left output
        = unescape allocated fuel v l (output ++ bytes) := by
  rw [unescape.eq_def]
  simp only [Nat.ne_of_gt hleft, if_false, ne_eq, not_true_eq_false, he]
  rcases store_cases allocated output bytes with h | h <;> simp [h, hv, hl]

/-- The second loop does so if it does from the next character on. -/
theorem unescape_then {o o' : Unescaped} (h : o = .overrun ∨ o = o')
    (hrest : o' = .overrun ∨ o' = .done ((output ++ bytes) ++ s)) :
    o = .overrun ∨ o = .done (output ++ (bytes ++ s)) := by
  rw [← List.append_assoc]
  rcases h with rfl | rfl
  · exact Or.inl rfl
  · exact hrest

/-- **The second loop writes the string that is meant**, as long as there is room. -/
theorem Chars.unescape (h : Chars t s) (u : List UInt8) (hfuel : t.length ≤ fuel) :
    Json.unescape allocated fuel (t ++ u) t.length output = .overrun ∨
      Json.unescape allocated fuel (t ++ u) t.length output = .done (output ++ s) := by
  induction h generalizing fuel output with
  | nil =>
      rw [List.length_nil, unescape_zero, List.append_nil]
      split
      · exact Or.inr rfl
      · exact Or.inl rfl
  | @plain c t s _ hb _ ih =>
      obtain ⟨f, rfl⟩ : ∃ f, fuel = f + 1 := ⟨fuel - 1, by simp at hfuel; omega⟩
      exact unescape_then (unescape_next hb) (ih (by simpa using hfuel))
  | @short c e t s he _ ih =>
      obtain ⟨f, rfl⟩ : ∃ f, fuel = f + 1 := ⟨fuel - 1, by simp at hfuel; omega⟩
      simp only [List.length_cons, List.cons_append] at hfuel ⊢
      exact unescape_then (unescape_sequence (escape_short he _ _) (Nat.succ_pos _)
        (show _ = t ++ u from rfl) (show _ = t.length by omega)) (@ih f _ (by omega))
  | @code h t s c hn _ ih =>
      obtain ⟨f, rfl⟩ : ∃ f, fuel = f + 1 := ⟨fuel - 1, by simp at hfuel; omega⟩
      simp only [List.length_cons, List.length_append, hn.length, List.cons_append,
        List.append_assoc] at hfuel ⊢
      refine unescape_then (unescape_sequence (escape_code hn _ (by omega))
        (by omega) ?_ (show _ = t.length by omega)) (@ih f _ (by omega))
      simp only [List.drop_succ_cons]
      exact List.drop_left' hn.length
  | @pair h l t s m n c hm hn hmrange hnrange hc _ ih =>
      obtain ⟨f, rfl⟩ : ∃ f, fuel = f + 1 := ⟨fuel - 1, by simp at hfuel; omega⟩
      simp only [List.length_cons, List.length_append, hm.length, hn.length, List.cons_append,
        List.append_assoc] at hfuel ⊢
      refine unescape_then (unescape_sequence
        (escape_pair hm hn hmrange hnrange hc _ (by omega)) (by omega) ?_
        (show _ = t.length by omega)) (@ih f _ (by omega))
      have hlen : (h ++ backslash :: 0x75 :: l).length = 10 := by simp [hm.length, hn.length]
      have happ : h ++ backslash :: 0x75 :: (l ++ (t ++ u))
          = (h ++ backslash :: 0x75 :: l) ++ (t ++ u) := by simp
      simp only [List.drop_succ_cons]
      rw [happ]
      exact List.drop_left' hlen

end Unescape

/-- **The strings of JSON are read.** -/
theorem isString_of_chars (h : Chars t s) (r : List UInt8) :
    IsString (dquote :: (t ++ dquote :: r)) s r := by
  obtain ⟨k, hk⟩ := h.scanString []
  refine ⟨t, k, rfl, hk, ?_⟩
  rcases h.unescape [dquote] (le_refl t.length) with hover | hdone
  · rcases scanString_unescape hk with ⟨s', hs', -⟩ | ⟨l, hl, -⟩
    · rw [hover] at hs'
      cases hs'
    · rw [hover] at hl
      cases hl
  · exact hdone

/-- Nothing in it has to be escaped. -/
theorem chars_plain (h : t.all (fun c => c != dquote && c != backslash) = true) :
    Chars t t := by
  induction t with
  | nil => exact .nil
  | cons c t ih =>
      simp only [List.all_cons, Bool.and_eq_true, bne_iff_ne] at h
      exact .plain h.1.1 h.1.2 (ih h.2)

/-- **Strings are read as JSON has them.** From the opening quote on, `parse_string` returns
the string that is meant, and goes behind the closing quote. -/
theorem parseString_chars (h : Chars t s) (before r : List UInt8) (d : Nat) :
    parseString ⟨before ++ dquote :: (t ++ dquote :: r) ++ [0], before.length, d⟩ =
      .ok s ⟨before ++ dquote :: (t ++ dquote :: r) ++ [0], before.length + t.length + 2, d⟩ := by
  have hin : Within (before ++ dquote :: (t ++ dquote :: r) ++ [0])
      (dquote :: (t ++ dquote :: r)) := ⟨before, by simp⟩
  have hread := ((parseString_parses (d := d) hin).eq_ok_iff s r).mp (isString_of_chars h r)
  have hat : bufferAt (before ++ dquote :: (t ++ dquote :: r) ++ [0]) d
      (dquote :: (t ++ dquote :: r)) =
        ⟨before ++ dquote :: (t ++ dquote :: r) ++ [0], before.length, d⟩ := by
    simp only [bufferAt, List.length_append, List.length_cons, List.length_nil]
    congr 1
    omega
  have hend : bufferAt (before ++ dquote :: (t ++ dquote :: r) ++ [0]) d r =
      ⟨before ++ dquote :: (t ++ dquote :: r) ++ [0], before.length + t.length + 2, d⟩ := by
    simp only [bufferAt, List.length_append, List.length_cons, List.length_nil]
    congr 1
    omega
  rw [← hat, ← hend]
  exact hread.1

/-- A letter, a new line, an `é` and a character that is written as a pair. -/
def sampleChars : List UInt8 := ascii "a\\n\\u00e9\\uD83D\\ude00".toList

theorem sampleChars_chars : Chars sampleChars
    (0x61 :: 0x0A :: (String.utf8EncodeChar 'é' ++ (String.utf8EncodeChar '😀' ++ []))) := by
  have hcode : HexDigits (ascii "00e9".toList) ('é').toNat :=
    .mk (i := 0) (j := 0) (k := 14) (l := 9) (Or.inl rfl) (Or.inl rfl) (Or.inl rfl) (Or.inl rfl)
  have hhigh : HexDigits (ascii "D83D".toList) 0xD83D :=
    .mk (i := 13) (j := 8) (k := 3) (l := 13) (Or.inr rfl) (Or.inl rfl) (Or.inl rfl) (Or.inr rfl)
  have hlow : HexDigits (ascii "de00".toList) 0xDE00 :=
    .mk (i := 13) (j := 14) (k := 0) (l := 0) (Or.inl rfl) (Or.inl rfl) (Or.inl rfl) (Or.inl rfl)
  exact .plain (by decide) (by decide) (.short rfl
    (.code hcode (.pair hhigh hlow (by decide) (by decide) rfl .nil)))

theorem parseString_chars_newline :
    parseString ⟨[] ++ dquote :: (sampleChars ++ dquote :: []) ++ [0], 0, 0⟩ =
      .ok [0x61, 0x0A, 0xC3, 0xA9, 0xF0, 0x9F, 0x98, 0x80]
        ⟨[] ++ dquote :: (sampleChars ++ dquote :: []) ++ [0], 23, 0⟩ :=
  parseString_chars sampleChars_chars [] [] 0

/-! ## Documents -/

section Document

variable {D : Type}

/-- **What `cJSON_Parse` reads.** Memory with a terminator in it is read as an item if and
only if its text begins with one; there is one at most, and the end is where it ends. Else the
error is in the text. The parser comes to an end with each text, and stays in the memory. -/
theorem parse_grammar (libc : Libc D) {value : List UInt8} (hvalue : 0 ∈ value) :
    (∀ item parseEnd, parse libc value = .item item parseEnd ↔
      ∃ r, Value libc 0 (start value) item r ∧ parseEnd + r.length = (textOf value).length) ∧
    (∀ item item' r r', Value libc 0 (start value) item r → Value libc 0 (start value) item' r' →
      item = item' ∧ r = r') ∧
    ((∃ item parseEnd, parse libc value = .item item parseEnd) ∨
      ∃ position, parse libc value = .error position ∧ position ≤ (textOf value).length) := by
  obtain ⟨hitem, htotal⟩ := parseWithOpts_iff libc hvalue false
  have hle : (start value).length ≤ (textOf value).length :=
    Nat.le_trans (skip_length_le _) (withoutBom_suffix _).length_le
  refine ⟨fun item parseEnd => ?_, fun item item' r r' h h' => ?_, htotal⟩
  · rw [show parse libc value = parseWithOpts libc value false from rfl, hitem]
    refine exists_congr fun r => and_congr_right fun hr => ?_
    have hlt := hr.length_lt
    simp only [Bool.false_eq_true, if_false]
    omega
  · have hread : Parses (start value ++ [0]) 0 (start value).length
        (Value libc 0 (start value)) _ := parseValue_parses (Nat.lt_succ_self _) List.suffix_rfl
    exact hread.unique h h'

/-- `strtod` for numbers that are digits only. -/
def decimal : Libc Nat where
  strtod s := ((s.takeWhile isDigit).foldl (fun n c => 10 * n + (c.toNat - 0x30)) 0,
    (s.takeWhile isDigit).length)
  strtod_le _ := (List.takeWhile_prefix _).length_le
  trunc n := n

/-- An object with one member. -/
def sample : List UInt8 :=
  openBrace :: dquote :: (ascii "PollingInterval".toList ++ [dquote, colon, 0x39, closeBrace])

def sampleMembers : List (List UInt8 × Item Nat) :=
  [(ascii "PollingInterval".toList, .number 9)]

theorem sample_value : Value decimal 0 (start (sample ++ [0])) (.object sampleMembers) [] := by
  have hstart : start (sample ++ [0]) = openBrace ::
      dquote :: (ascii "PollingInterval".toList ++ dquote :: [colon, 0x39, closeBrace]) := by
    decide
  rw [hstart]
  have hname := isString_of_chars (t := ascii "PollingInterval".toList)
    (chars_plain (by decide)) [colon, 0x39, closeBrace]
  have hnine : IsNumber decimal [0x39, closeBrace] 9 [closeBrace] :=
    ⟨Or.inr rfl, rfl, by decide, rfl⟩
  exact .object (by decide) (Members.last hname (v := [0x39, closeBrace]) rfl (.number hnine) rfl)

theorem parse_grammar_sample :
    parse decimal (sample ++ [0]) = .item (.object sampleMembers) 21 :=
  ((parse_grammar decimal (show (0 : UInt8) ∈ sample ++ [0] by decide)).1 _ _).mpr
    ⟨[], sample_value, by decide⟩

end Document

end LteUlp.Json
