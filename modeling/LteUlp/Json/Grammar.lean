import LteUlp.Json.Strings

set_option autoImplicit false

/-! # The texts that are read

The grammar of the texts that `cJSON_Parse` reads, as a relation between a text, the item
that it begins with and what is left of the text behind it. It is JSON, and what else the
code takes: all bytes up to the blank between the items, and strings and numbers as
`parse_string` and `strtod` read them. Arrays and objects are nested up to a limit.

For the offsets and the fuel of the code there is one rule (`Parses.andThen`): a function
reads a text if the parts of it do.
-/

namespace LteUlp.Json

variable {α γ D : Type}

/-- A text without the blanks that it begins with. -/
def skip (t : List UInt8) : List UInt8 := t.dropWhile (· ≤ 32)

/-- A string, quoted. The two loops agree on where it ends. -/
structure StringText (t s r body : List UInt8) (k : Nat) : Prop where
  text : t = dquote :: (body ++ dquote :: r)
  closed : scanString (body ++ [dquote]) = some (body.length, k)
  unescaped : unescape (body.length + 1 - k + 1) body.length (body ++ [dquote]) body.length []
    = .done s

/-- `t` begins with the text of the string `s`, and `r` is left of it. -/
def IsString (t s r : List UInt8) : Prop := ∃ body k, StringText t s r body k

/-- `t` begins with the text of the number `x`. -/
structure IsNumber (libc : Libc D) (t : List UInt8) (x : D) (r : List UInt8) : Prop where
  first : t.head? = some minus ∨ t.head?.any isDigit = true
  read : (libc.strtod ((t.takeWhile isNumberChar).take 63)).1 = x
  length : 0 < (libc.strtod ((t.takeWhile isNumberChar).take 63)).2
  rest : r = t.drop (libc.strtod ((t.takeWhile isNumberChar).take 63)).2

mutual

/-- `t` begins with the text of an item, at the given depth. -/
inductive Value (libc : Libc D) : Nat → List UInt8 → Item D → List UInt8 → Prop where
  | null {d : Nat} {r : List UInt8} : Value libc d (ascii ['n', 'u', 'l', 'l'] ++ r) .null r
  | false {d : Nat} {r : List UInt8} :
      Value libc d (ascii ['f', 'a', 'l', 's', 'e'] ++ r) .false r
  | true {d : Nat} {r : List UInt8} : Value libc d (ascii ['t', 'r', 'u', 'e'] ++ r) .true r
  | string {d : Nat} {t s r : List UInt8} : IsString t s r → Value libc d t (.string s) r
  | number {d : Nat} {t r : List UInt8} {x : D} :
      IsNumber libc t x r → Value libc d t (.number x) r
  | emptyArray {d : Nat} {t r : List UInt8} : d < nestingLimit → skip t = closeBracket :: r →
      Value libc d (openBracket :: t) (.array []) r
  | array {d : Nat} {t r : List UInt8} {xs : List (Item D)} : d < nestingLimit →
      Elements libc (d + 1) t xs (closeBracket :: r) →
      Value libc d (openBracket :: t) (.array xs) r
  | emptyObject {d : Nat} {t r : List UInt8} : d < nestingLimit → skip t = closeBrace :: r →
      Value libc d (openBrace :: t) (.object []) r
  | object {d : Nat} {t r : List UInt8} {xs : List (List UInt8 × Item D)} :
      d < nestingLimit → Members libc (d + 1) t xs (closeBrace :: r) →
      Value libc d (openBrace :: t) (.object xs) r

/-- `t` begins with items, and with the bracket behind them. -/
inductive Elements (libc : Libc D) : Nat → List UInt8 → List (Item D) → List UInt8 → Prop where
  | last {d : Nat} {t u r : List UInt8} {x : Item D} : Value libc d (skip t) x u →
      skip u = closeBracket :: r → Elements libc d t [x] (closeBracket :: r)
  | more {d : Nat} {t u v r : List UInt8} {x : Item D} {xs : List (Item D)} :
      Value libc d (skip t) x u → skip u = comma :: v → Elements libc d v xs r →
      Elements libc d t (x :: xs) r

inductive Members (libc : Libc D) :
    Nat → List UInt8 → List (List UInt8 × Item D) → List UInt8 → Prop where
  | last {d : Nat} {t u v w r s : List UInt8} {x : Item D} : IsString (skip t) s u →
      skip u = colon :: v → Value libc d (skip v) x w → skip w = closeBrace :: r →
      Members libc d t [(s, x)] (closeBrace :: r)
  | more {d : Nat} {t u v w z r s : List UInt8} {x : Item D}
      {xs : List (List UInt8 × Item D)} : IsString (skip t) s u →
      skip u = colon :: v → Value libc d (skip v) x w → skip w = comma :: z →
      Members libc d z xs r → Members libc d t ((s, x) :: xs) r

end

/-! ## The buffer and the text -/

/-- The buffer when the text `t` is left to read. -/
def bufferAt (content : List UInt8) (d : Nat) (t : List UInt8) : ParseBuffer :=
  ⟨content, content.length - (t.length + 1), d⟩

/-- The terminated text is what the content ends with. -/
def Within (content t : List UInt8) : Prop := t ++ [0] <:+ content

section Buffer

variable {content t u r : List UInt8} {d : Nat} {c : UInt8}

theorem Within.of_suffix (h : Within content t) (hu : u <:+ t) : Within content u := by
  obtain ⟨p, rfl⟩ := hu
  obtain ⟨q, hq⟩ := h
  exact ⟨q ++ p, by simpa using hq⟩

theorem Within.length (h : Within content t) : t.length + 1 ≤ content.length := by
  have := h.length_le
  simpa using this

theorem rest_bufferAt (h : Within content t) : (bufferAt content d t).rest = t ++ [0] := by
  obtain ⟨p, rfl⟩ := h
  show List.drop _ _ = _
  have : (p ++ (t ++ [0])).length - (t.length + 1) = p.length := by
    simp
  rw [show (bufferAt (p ++ (t ++ [0])) d t).offset = p.length from this]
  exact List.drop_left

theorem advance_bufferAt (h : Within content (u ++ t)) :
    (bufferAt content d (u ++ t)).advance u.length = bufferAt content d t := by
  have := h.length
  simp only [bufferAt, ParseBuffer.advance, List.length_append] at this ⊢
  congr 1
  omega

theorem advance_one (h : Within content (c :: t)) :
    (bufferAt content d (c :: t)).advance 1 = bufferAt content d t :=
  advance_bufferAt (u := [c]) h

theorem at_bufferAt (h : Within content t) (hc : c ≠ 0) :
    (bufferAt content d t).at? c = true ↔ ∃ u, t = c :: u := by
  unfold ParseBuffer.at?
  rw [rest_bufferAt h]
  cases t with
  | nil => simp [Ne.symm hc]
  | cons a t =>
      constructor
      · intro h
        exact ⟨t, congrArg (· :: t) (by simpa using h)⟩
      · rintro ⟨u, hu⟩
        cases hu
        simp

theorem skip_suffix (t : List UInt8) : skip t <:+ t := List.dropWhile_suffix _

theorem Within.skip (h : Within content t) : Within content (skip t) :=
  h.of_suffix (skip_suffix t)

theorem skip_skip (t : List UInt8) : skip (skip t) = skip t := by
  induction t with
  | nil => rfl
  | cons a t ih =>
      by_cases ha : (a ≤ 32 : Bool) = true
      · rw [show skip (a :: t) = skip t from List.dropWhile_cons_of_pos ha]
        exact ih
      · rw [show skip (a :: t) = a :: t from List.dropWhile_cons_of_neg ha]
        exact List.dropWhile_cons_of_neg ha

theorem skip_length_le (t : List UInt8) : (skip t).length ≤ t.length :=
  (skip_suffix t).length_le

/-- The offset never gets behind the terminator. -/
theorem bufferSkipWhitespace_bufferAt (h : Within content t) :
    bufferSkipWhitespace (bufferAt content d t) = bufferAt content d (Json.skip t) := by
  have hlen := h.length
  have hsplit : (t.takeWhile (· ≤ 32)).length + (Json.skip t).length = t.length := by
    rw [← List.length_append]
    exact congrArg List.length List.takeWhile_append_dropWhile
  unfold bufferSkipWhitespace
  rw [rest_bufferAt h, List.takeWhile_append]
  by_cases hall : (t.takeWhile (· ≤ 32)).length = t.length
  · rw [if_pos hall]
    have hoffset : content.length - (t.length + 1) + (t.length + 1) = content.length := by omega
    have hend : (Json.skip t).length = 0 := by omega
    simp [ParseBuffer.advance, bufferAt, ParseBuffer.length, hoffset, ParseBuffer.back, hend]
  · rw [if_neg hall]
    have hoffset : content.length - (t.length + 1) + (t.takeWhile (· ≤ 32)).length
        = content.length - ((Json.skip t).length + 1) := by omega
    have hlt : content.length - ((Json.skip t).length + 1) ≠ content.length := by omega
    simp [ParseBuffer.advance, bufferAt, ParseBuffer.length, hoffset, hlt]

end Buffer

/-! ## What a function reads -/

/-- A function reads what `R` says: it returns the item and moves to what is left of the
text, which is shorter than `n`, or it fails because there is no such item. -/
inductive Parses (content : List UInt8) (d n : Nat) (R : α → List UInt8 → Prop) :
    Outcome α → Prop where
  | ok {a : α} {r : List UInt8} : Within content r → r.length < n → R a r →
      (∀ a' r', R a' r' → a' = a ∧ r' = r) → Parses content d n R (.ok a (bufferAt content d r))
  | fail {b : ParseBuffer} : (∀ a r, ¬ R a r) → b.content = content →
      Parses content d n R (.fail b)

section Parses

variable {content : List UInt8} {d d' n n' : Nat} {R R' : α → List UInt8 → Prop}
  {T : γ → List UInt8 → Prop} {S : α → List UInt8 → γ → List UInt8 → Prop} {o : Outcome α}
  {f : α → ParseBuffer → Outcome γ}

theorem Parses.congr (h : Parses content d n R o) (hR : ∀ a r, R' a r ↔ R a r) :
    Parses content d n R' o := by
  cases h with
  | ok hin hlt ha hu => exact .ok hin hlt ((hR _ _).mpr ha) fun a' r' h => hu a' r' ((hR _ _).mp h)
  | fail hnot hb => exact .fail (fun a r h => hnot a r ((hR a r).mp h)) hb

theorem Parses.mono (h : Parses content d n R o) (hn : n ≤ n') : Parses content d n' R o := by
  cases h with
  | ok hin hlt ha hu => exact .ok hin (by omega) ha hu
  | fail hnot hb => exact .fail hnot hb

/-- One part after the other. -/
theorem Parses.andThen (h : Parses content d n R o)
    (hf : ∀ a r, R a r → Within content r → r.length < n →
      Parses content d' n' (S a r) (f a (bufferAt content d r)))
    (hT : ∀ c r', T c r' ↔ ∃ a r, R a r ∧ S a r c r') :
    Parses content d' n' T (o.andThen f) := by
  cases h with
  | @ok a r hin hlt ha hu =>
      refine (hf a r ha hin hlt).congr fun c r' => ?_
      rw [hT]
      constructor
      · rintro ⟨a', r'', ha', hS⟩
        obtain ⟨rfl, rfl⟩ := hu a' r'' ha'
        exact hS
      · exact fun hS => ⟨a, r, ha, hS⟩
  | fail hnot hb =>
      refine .fail (fun c r' h => ?_) hb
      obtain ⟨a, r, ha, -⟩ := (hT c r').mp h
      exact hnot a r ha

/-- What is read is what `R` says. -/
theorem Parses.eq_ok_iff (h : Parses content d n R o) (a : α) (r : List UInt8) :
    R a r ↔ o = .ok a (bufferAt content d r) ∧ Within content r := by
  cases h with
  | @ok a' r' hin hlt ha hu =>
      constructor
      · intro h
        obtain ⟨rfl, rfl⟩ := hu a r h
        exact ⟨rfl, hin⟩
      · rintro ⟨heq, hr⟩
        injection heq with h1 h2
        have hoff := congrArg ParseBuffer.offset h2
        have hl := hin.length
        have hl' := hr.length
        have hrr : r' ++ [0] = r ++ [0] := by
          have h3 := rest_bufferAt (d := d) hin
          rw [h2, rest_bufferAt hr] at h3
          exact h3.symm
        obtain rfl := List.append_cancel_right hrr
        exact h1 ▸ ha
  | fail hnot hb =>
      constructor
      · exact fun h => absurd h (hnot a r)
      · rintro ⟨heq, -⟩
        cases heq

theorem Parses.unique (h : Parses content d n R o) {a a' : α} {r r' : List UInt8} (ha : R a r)
    (ha' : R a' r') : a = a' ∧ r = r' := by
  cases h with
  | ok _ _ _ hu =>
      obtain ⟨rfl, rfl⟩ := hu a r ha
      obtain ⟨rfl, rfl⟩ := hu a' r' ha'
      exact ⟨rfl, rfl⟩
  | fail hnot _ => exact absurd ha (hnot a r)

end Parses

/-! ## The leaves -/

section Leaves

variable {content t : List UInt8} {d : Nat}

/-- Where a string ends does not depend on what follows it. -/
theorem scanString_closed {body : List UInt8} {k : Nat}
    (h : scanString (body ++ [dquote]) = some (body.length, k)) (x : List UInt8) :
    scanString (body ++ dquote :: x) = some (body.length, k) := by
  obtain ⟨body', r, heq, hlen, -, hx⟩ := scanString_some h
  obtain rfl : body = body' := (List.append_inj heq hlen.symm).1
  exact hx x

/-- Once the closing quote has been found, there is one string at most. -/
theorem isString_iff {body r : List UInt8} {k : Nat}
    (h : scanString (body ++ [dquote]) = some (body.length, k)) (s r' : List UInt8) :
    IsString (dquote :: (body ++ dquote :: r)) s r' ↔
      r' = r ∧ unescape (body.length + 1 - k + 1) body.length (body ++ [dquote]) body.length []
        = .done s := by
  constructor
  · rintro ⟨body', k', hs⟩
    have htail : body ++ dquote :: r = body' ++ dquote :: r' := List.tail_eq_of_cons_eq hs.text
    have hscan := scanString_closed h r
    rw [htail, scanString_closed hs.closed] at hscan
    injection hscan with hscan
    injection hscan with hlen hk
    obtain ⟨rfl, hrest⟩ := List.append_inj htail hlen.symm
    subst hk
    injection hrest with _ hr
    exact ⟨hr.symm, hs.unescaped⟩
  · rintro ⟨rfl, hs⟩
    exact ⟨body, k, rfl, h, hs⟩

theorem parseString_parses (h : Within content t) :
    Parses content d t.length (IsString t) (parseString (bufferAt content d t)) := by
  unfold parseString
  rw [rest_bufferAt h]
  cases t with
  | nil =>
      refine .fail (fun s r hs => ?_) rfl
      obtain ⟨body, k, hs⟩ := hs
      cases hs.text
  | cons c t =>
      simp only [List.cons_append]
      by_cases hc : c = dquote
      · subst hc
        rw [if_neg (by simp)]
        cases hscan : scanString (t ++ [0]) with
        | none =>
            refine .fail (fun s r hs => ?_) rfl
            obtain ⟨body, k, hs⟩ := hs
            have htail : t = body ++ dquote :: r := List.tail_eq_of_cons_eq hs.text
            have hsome := scanString_closed hs.closed (r ++ [0])
            rw [← List.cons_append, ← List.append_assoc, ← htail, hscan] at hsome
            cases hsome
        | some nk =>
            obtain ⟨n, k⟩ := nk
            obtain ⟨body, r, rfl, rfl, -, hx⟩ := scanString_terminated hscan
            have hclosed := hx []
            have hread : unescape (body.length + 1 - k + 1) body.length
                (body ++ dquote :: r ++ [0]) body.length []
                  = unescape (body.length + 1 - k + 1) body.length (body ++ [dquote])
                    body.length [] := by
              have happ : body ++ dquote :: r ++ [0] = (body ++ [dquote]) ++ (r ++ [0]) := by simp
              rw [happ]
              exact unescape_append (by simp) (r ++ [0])
            simp only [hread]
            rcases scanString_unescape hclosed with ⟨s, hs, -⟩ | ⟨l, hl, -⟩
            · simp only [hs]
              have hsuffix : r <:+ dquote :: (body ++ dquote :: r) := ⟨dquote :: body ++ [dquote], by simp⟩
              have hquoted : Within content ((dquote :: body ++ [dquote]) ++ r) := by simpa using h
              have hadv := advance_bufferAt (d := d) hquoted
              simp only [List.cons_append, List.append_assoc, List.nil_append, List.length_cons,
                List.length_append, List.length_nil] at hadv
              rw [hadv]
              refine .ok (h.of_suffix hsuffix) (by simp; omega) ((isString_iff hclosed s r).mpr ⟨rfl, hs⟩) ?_
              intro s' r' hs'
              obtain ⟨hr, hs'⟩ := (isString_iff hclosed s' r').mp hs'
              rw [hs] at hs'
              injection hs' with hs'
              exact ⟨hs'.symm, hr⟩
            · simp only [hl]
              refine .fail (fun s' r' hs' => ?_) rfl
              obtain ⟨-, hs'⟩ := (isString_iff hclosed s' r').mp hs'
              rw [hl] at hs'
              cases hs'
      · rw [if_pos hc]
        refine .fail (fun s r hs => ?_) rfl
        obtain ⟨body, k, hs⟩ := hs
        have := hs.text
        simp [hc] at this

/-- The terminator ends a number. -/
theorem takeWhile_terminated (t : List UInt8) :
    (t ++ [0]).takeWhile isNumberChar = t.takeWhile isNumberChar := by
  rw [List.takeWhile_append]
  split
  · rename_i hall
    have hself : t.takeWhile isNumberChar = t := (List.takeWhile_prefix _).eq_of_length hall
    rw [hself, List.takeWhile_cons_of_neg (by decide), List.append_nil]
  · rfl

theorem parseNumber_parses (libc : Libc D) (h : Within content t)
    (hfirst : t.head? = some minus ∨ t.head?.any isDigit = true) :
    Parses content d t.length (fun x r => ∃ y, x = .number y ∧ IsNumber libc t y r)
      (parseNumber libc (bufferAt content d t)) := by
  unfold parseNumber
  rw [rest_bufferAt h, takeWhile_terminated]
  have hle := libc.strtod_le ((t.takeWhile isNumberChar).take 63)
  have htake : ((t.takeWhile isNumberChar).take 63).length ≤ t.length := by
    have := (List.takeWhile_prefix isNumberChar (l := t)).length_le
    rw [List.length_take]
    omega
  simp only
  generalize hn : libc.strtod ((t.takeWhile isNumberChar).take 63) = number at hle ⊢
  split
  · rename_i hz
    refine .fail ?_ rfl
    rintro x r ⟨y, -, hy⟩
    have := hy.length
    rw [hn] at this
    omega
  · rename_i hnz
    have hsplit : t = t.take number.2 ++ t.drop number.2 := (List.take_append_drop _ _).symm
    have hlen : (t.take number.2).length = number.2 := by
      rw [List.length_take]
      omega
    have hadv : (bufferAt content d t).advance number.2
        = bufferAt content d (t.drop number.2) := by
      have hwhole : Within content (t.take number.2 ++ t.drop number.2) := hsplit ▸ h
      have := advance_bufferAt (d := d) hwhole
      rwa [← hsplit, hlen] at this
    rw [hadv]
    refine .ok (h.of_suffix (List.drop_suffix _ _)) (by rw [List.length_drop]; omega)
      ⟨number.1, rfl, hfirst, by rw [hn], by rw [hn]; omega, by rw [hn]⟩ ?_
    rintro x r ⟨y, rfl, hy⟩
    have h1 := hy.read
    have h2 := hy.rest
    rw [hn] at h1 h2
    exact ⟨by rw [h1], h2⟩

end Leaves

end LteUlp.Json
