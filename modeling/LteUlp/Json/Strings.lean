import LteUlp.Json.Model

set_option autoImplicit false

/-! # Strings

`parse_string` goes through a string twice. The first time it looks for the closing quote, and
takes a backslash and the character behind it for a pair; the second time it takes the escape
sequences apart. The two do not always agree on where these begin: what should be the digits
of `\u` may have a backslash among them. All the same what is written fits
(`unescape_fits`), and nothing behind the closing quote is read (`unescape_append`).
-/

namespace LteUlp.Json

/-! ## The closing quote -/

theorem scanString_dquote (s : List UInt8) : scanString (dquote :: s) = some (0, 0) := by
  rw [scanString.eq_def]
  exact if_pos rfl

theorem scanString_backslash (c : UInt8) (s : List UInt8) :
    scanString (backslash :: c :: s) = (scanString s).map fun r => (r.1 + 2, r.2 + 1) := by
  rw [scanString.eq_def]
  exact (if_neg (by decide)).trans (if_pos rfl)

theorem scanString_plain {c : UInt8} (s : List UInt8) (hq : c ≠ dquote) (hb : c ≠ backslash) :
    scanString (c :: s) = (scanString s).map fun r => (r.1 + 1, r.2) := by
  rw [scanString.eq_def]
  simp only
  rw [if_neg hq, if_neg hb]

/-- The closing quote is the character that the scan has found. -/
theorem scanString_some {s : List UInt8} {n k : Nat} (h : scanString s = some (n, k)) :
    ∃ body r, s = body ++ dquote :: r ∧ body.length = n ∧ 2 * k ≤ n ∧
      ∀ x, scanString (body ++ dquote :: x) = some (n, k) := by
  induction s using scanString.induct generalizing n k with
  | case1 => cases h
  | case2 s =>
      rw [scanString_dquote] at h
      cases h
      exact ⟨[], s, rfl, rfl, by omega, fun x => scanString_dquote x⟩
  | case3 =>
      rw [scanString.eq_def] at h
      simp [dquote, backslash] at h
  | case4 c s _ ih =>
      rw [scanString_backslash] at h
      cases hs : scanString s with
      | none => simp [hs] at h
      | some r =>
          rw [hs] at h
          cases h
          obtain ⟨body, t, rfl, hlen, hk, hx⟩ := ih hs
          refine ⟨backslash :: c :: body, t, rfl, by simp [hlen], by omega, fun x => ?_⟩
          show scanString (backslash :: c :: (body ++ dquote :: x)) = _
          rw [scanString_backslash, hx]
          rfl
  | case5 c s hq hb ih =>
      rw [scanString_plain s hq hb] at h
      cases hs : scanString s with
      | none => simp [hs] at h
      | some r =>
          rw [hs] at h
          cases h
          obtain ⟨body, t, rfl, hlen, hk, hx⟩ := ih hs
          refine ⟨c :: body, t, rfl, by simp [hlen], by omega, fun x => ?_⟩
          show scanString (c :: (body ++ dquote :: x)) = _
          rw [scanString_plain _ hq hb, hx]
          rfl

/-- The terminator is not a closing quote. -/
theorem scanString_terminated {t : List UInt8} {n k : Nat}
    (h : scanString (t ++ [0]) = some (n, k)) :
    ∃ body r, t = body ++ dquote :: r ∧ body.length = n ∧ 2 * k ≤ n ∧
      ∀ x, scanString (body ++ dquote :: x) = some (n, k) := by
  obtain ⟨body, r, heq, hlen, hk, hx⟩ := scanString_some h
  rcases List.eq_nil_or_concat r with rfl | ⟨r, c, rfl⟩
  · have := congrArg List.getLast? heq
    simp [dquote] at this
  · refine ⟨body, r, ?_, hlen, hk, hx⟩
    have hlast : t ++ [0] = (body ++ dquote :: r) ++ [c] := by simpa using heq
    exact (List.append_inj' hlast rfl).1

/-! ## What fits -/

/-- Where the first loop is when the second one is at the beginning of `s`: at the same
place, or one character behind, in the middle of a pair. `left` characters come before the
closing quote, and `k` pairs begin among them. -/
inductive InStep : Bool → List UInt8 → Nat → Nat → Prop where
  | same {s : List UInt8} {left k : Nat} : scanString s = some (left, k) →
      InStep true s left k
  | behind {c : UInt8} {s : List UInt8} {left k : Nat} : scanString s = some (left, k) →
      InStep false (c :: s) (left + 1) k

section InStep

variable {b : Bool} {s : List UInt8} {c d : UInt8} {left k : Nat}

theorem InStep.le (h : InStep b s left k) : k ≤ left := by
  cases h with
  | same h | behind h =>
      obtain ⟨-, -, -, -, hk, -⟩ := scanString_some h
      omega

/-- The closing quote is there. -/
theorem InStep.length (h : InStep b s left k) : left < s.length := by
  cases h with
  | same h | behind h =>
      obtain ⟨body, r, rfl, hlen, -⟩ := scanString_some h
      simp
      omega

/-- The second loop goes over a character: the first one has been behind, or is behind from
there on, or has taken it for no more than a character. -/
theorem InStep.next (h : InStep b (c :: s) (left + 1) k) :
    InStep true s left k ∨
      (b = true ∧ c = backslash ∧ ∃ k', k = k' + 1 ∧ InStep false s left k') := by
  cases h with
  | behind h => exact Or.inl (.same h)
  | same h =>
      by_cases hq : c = dquote
      · subst hq
        rw [scanString_dquote] at h
        cases h
      · by_cases hb : c = backslash
        · subst hb
          cases s with
          | nil =>
              rw [scanString.eq_def] at h
              simp [dquote, backslash] at h
          | cons d s =>
              rw [scanString_backslash] at h
              cases hs : scanString s with
              | none => simp [hs] at h
              | some r =>
                  rw [hs] at h
                  cases h
                  exact Or.inr ⟨rfl, rfl, r.2, rfl, .behind hs⟩
        · rw [scanString_plain s hq hb] at h
          cases hs : scanString s with
          | none => simp [hs] at h
          | some r =>
              rw [hs] at h
              cases h
              exact Or.inl (.same hs)

/-- In two characters one pair begins at most. -/
theorem InStep.two (h : InStep b (c :: d :: s) (left + 2) k) :
    ∃ b' k', InStep b' s left k' ∧ k ≤ k' + 1 := by
  rcases h.next with h₁ | ⟨-, -, k', rfl, h₁⟩
  · rcases h₁.next with h₂ | ⟨-, -, k', rfl, h₂⟩
    · exact ⟨_, k, h₂, by omega⟩
    · exact ⟨_, k', h₂, by omega⟩
  · rcases h₁.next with h₂ | ⟨hb, -⟩
    · exact ⟨_, k', h₂, by omega⟩
    · cases hb

theorem InStep.drop (m : Nat) (h : InStep b s (left + 2 * m) k) :
    ∃ b' k', InStep b' (s.drop (2 * m)) left k' ∧ k ≤ k' + m := by
  induction m generalizing b s k with
  | zero => exact ⟨b, k, h, by omega⟩
  | succ m ih =>
      have hlen := h.length
      match s, hlen with
      | c :: d :: s, _ =>
          have htwo : InStep b (c :: d :: s) (left + 2 * m + 2) k := h
          obtain ⟨b', k', h', hk⟩ := htwo.two
          obtain ⟨b'', k'', h'', hk'⟩ := ih h'
          exact ⟨b'', k'', h'', by omega⟩

/-- One character before the closing quote there is no pair left, if it is a backslash. -/
theorem InStep.last (h : InStep b (backslash :: s) 1 k) : k = 0 := by
  cases h with
  | behind h =>
      obtain ⟨-, -, -, -, hk, -⟩ := scanString_some h
      omega
  | same h =>
      obtain ⟨body, r, heq, hlen, hk, -⟩ := scanString_some h
      omega

end InStep

/-! ## Escape sequences -/

theorem hexDigit_lt {c : UInt8} {n : Nat} (h : hexDigit c = some n) : n < 16 := by
  have hlt := c.toNat_lt
  unfold hexDigit at h
  simp only [UInt8.le_iff_toNat_le, Bool.and_eq_true, decide_eq_true_eq] at h
  split at h
  · cases h
    simp_all
    omega
  · split at h
    · cases h
      simp_all
      omega
    · split at h
      · cases h
        simp_all
        omega
      · cases h

theorem parseHex4_lt {s : List UInt8} {n : Nat} (h : parseHex4 s = some n) : n < 0x10000 := by
  unfold parseHex4 at h
  split at h
  · rename_i a b c d _
    cases ha : hexDigit a <;> cases hb : hexDigit b <;> cases hc : hexDigit c <;>
      cases hd : hexDigit d <;> simp only [ha, hb, hc, hd] at h <;> cases h <;> try decide
    have h1 := hexDigit_lt ha
    have h2 := hexDigit_lt hb
    have h3 := hexDigit_lt hc
    have h4 := hexDigit_lt hd
    omega
  · cases h

theorem parseHex4_isSome {s : List UInt8} (h : 4 ≤ s.length) : ∃ n, parseHex4 s = some n := by
  match s, h with
  | a :: b :: c :: d :: s, _ =>
      unfold parseHex4
      simp only
      split
      · exact ⟨_, rfl⟩
      · exact ⟨0, rfl⟩

theorem length_utf8Tail (n codepoint : Nat) : (utf8Tail n codepoint).length = n := by
  induction n generalizing codepoint with
  | zero => rfl
  | succ n ih => simp [utf8Tail, ih]

theorem utf8_length {codepoint : Nat} {s : List UInt8} (h : utf8 codepoint = some s) :
    s.length ≤ 4 ∧ (codepoint < 0x10000 → s.length ≤ 3) := by
  unfold utf8 at h
  split at h
  · cases h
    simp
  · split at h
    · cases h
      simp [length_utf8Tail]
    · split at h
      · cases h
        simp [length_utf8Tail]
      · split at h
        · cases h
          simp [length_utf8Tail]
          omega
        · cases h

/-- What an escape sequence writes is no longer than half of it. It ends before the closing
quote, or it is a backslash and the closing quote. -/
structure Escape.Valid (e : Escape) (left : Nat) : Prop where
  inside : e ≠ .overrun
  sequence : ∀ output n, e = .sequence output n →
    ∃ m, n = 2 * m ∧ 0 < m ∧ output.length ≤ m ∧ (n ≤ left ∨ m = 1)

theorem Escape.valid_fail (left : Nat) : Escape.Valid .fail left where
  inside := by simp
  sequence := by simp

theorem Escape.valid_two {left : Nat} (c : UInt8) : Escape.Valid (.sequence [c] 2) left where
  inside := by simp
  sequence output n h := by
    cases h
    exact ⟨1, rfl, by decide, by simp, Or.inr rfl⟩

theorem ofCodepoint_valid {codepoint m left : Nat} (hm : 3 ≤ m) (hleft : 2 * m ≤ left)
    (h : codepoint < 0x10000 ∨ 4 ≤ m) : (Escape.ofCodepoint codepoint (2 * m)).Valid left := by
  unfold Escape.ofCodepoint
  cases hs : utf8 codepoint with
  | none => exact Escape.valid_fail left
  | some s =>
      refine ⟨by simp, fun output n heq => ?_⟩
      cases heq
      obtain ⟨h4, h3⟩ := utf8_length hs
      refine ⟨m, rfl, by omega, ?_, Or.inl hleft⟩
      rcases h with h | h
      · have := h3 h
        omega
      · omega

theorem utf16LiteralToUtf8_valid {input : List UInt8} {left : Nat} (h : left < input.length) :
    (utf16LiteralToUtf8 input left).Valid left := by
  unfold utf16LiteralToUtf8
  split
  · exact Escape.valid_fail left
  · rename_i hleft
    obtain ⟨firstCode, hfirst⟩ := parseHex4_isSome (s := input.drop 2) (by
      rw [List.length_drop]
      omega)
    rw [hfirst]
    simp only
    split
    · exact Escape.valid_fail left
    · split
      · split
        · exact Escape.valid_fail left
        · rename_i hsecond
          have hlen : 6 < (input.drop 6).length := by
            rw [List.length_drop]
            omega
          match hs : input.drop 6, hlen with
          | c :: d :: secondSequence, hlen =>
              simp only
              split
              · exact Escape.valid_fail left
              · obtain ⟨secondCode, hcode⟩ := parseHex4_isSome (s := secondSequence) (by
                  simp only [List.length_cons] at hlen
                  omega)
                rw [hcode]
                simp only
                split
                · exact Escape.valid_fail left
                · exact ofCodepoint_valid (m := 6) (by decide) (by omega) (Or.inr (by decide))
      · exact ofCodepoint_valid (m := 3) (by decide) (by omega) (Or.inl (parseHex4_lt hfirst))

theorem escape_valid {input : List UInt8} {left : Nat} (hpos : 0 < left)
    (h : left < input.length) : (escape input left).Valid left := by
  unfold escape
  split
  all_goals first
    | exact Escape.valid_two _
    | exact utf16LiteralToUtf8_valid h
    | exact Escape.valid_fail left
    | skip
  rename_i hnot
  rcases input with _ | ⟨c, _ | ⟨d, s⟩⟩
  · simp at h
  · simp at h
    omega
  · exact absurd rfl (hnot c d s)

/-! ## What is written fits -/

theorem unescape_zero (allocated fuel : Nat) (s output : List UInt8) :
    unescape allocated fuel s 0 output
      = if output.length < allocated then .done output else .overrun := by
  unfold unescape
  rw [if_pos rfl, store, List.length_singleton]
  by_cases h : output.length < allocated
  · rw [if_pos h, if_pos (by omega)]
  · rw [if_neg h, if_neg (by omega)]

/-- **The second loop ends, and stays in the memory that has been allocated.** -/
theorem unescape_fits {b : Bool} {s output : List UInt8} {allocated fuel left k : Nat}
    (h : InStep b s left k) (hfuel : left ≤ fuel)
    (hroom : output.length + left < allocated + k) :
    (∃ r, unescape allocated fuel s left output = .done r ∧ r.length < allocated) ∨
      ∃ l, unescape allocated fuel s left output = .fail l ∧ l ≤ left := by
  induction fuel generalizing b s output left k with
  | zero =>
      obtain rfl : left = 0 := by omega
      have hk := h.le
      exact Or.inl ⟨output, (unescape_zero ..).trans (if_pos (by omega)), by omega⟩
  | succ fuel ih =>
      by_cases hz : left = 0
      · subst hz
        have hk := h.le
        exact Or.inl ⟨output, (unescape_zero ..).trans (if_pos (by omega)), by omega⟩
      · have hlen := h.length
        match s, hlen with
        | c :: s, hlen =>
            obtain ⟨n, rfl⟩ : ∃ n, left = n + 1 := ⟨left - 1, by omega⟩
            unfold unescape
            rw [if_neg hz]
            simp only
            have hk := h.le
            split
            · rename_i hc
              have hnext : InStep true s n k := by
                rcases h.next with h | ⟨-, hb, -⟩
                · exact h
                · exact absurd hb hc
              rw [store, if_pos (by simp; omega)]
              simp only [Nat.add_sub_cancel]
              have hout : (output ++ [c]).length + n < allocated + k := by
                simp
                omega
              rcases ih hnext (by omega) hout with
                ⟨r, hr, hlt⟩ | ⟨l, hl, hle⟩
              · exact Or.inl ⟨r, hr, hlt⟩
              · exact Or.inr ⟨l, hl, by omega⟩
            · rename_i hc
              obtain rfl : c = backslash := Decidable.not_not.mp hc
              have hvalid := escape_valid (Nat.succ_pos n) hlen
              cases he : escape (backslash :: s) (n + 1) with
              | overrun => exact absurd he hvalid.inside
              | fail => exact Or.inr ⟨n + 1, rfl, le_refl _⟩
              | sequence bytes size =>
                  obtain ⟨m, rfl, hm, hbytes, hend⟩ := hvalid.sequence bytes size he
                  simp only
                  by_cases hin : 2 * m ≤ n + 1
                  · have hsplit : InStep b (backslash :: s) (n + 1 - 2 * m + 2 * m) k := by
                      rwa [Nat.sub_add_cancel hin]
                    obtain ⟨b', k', h', hk'⟩ := hsplit.drop
                    have hle := h'.le
                    rw [store, if_pos (by omega)]
                    have hout : (output ++ bytes).length + (n + 1 - 2 * m) < allocated + k' := by
                      simp
                      omega
                    rcases ih h' (by omega) hout with
                      ⟨r, hr, hlt⟩ | ⟨l, hl, hle⟩
                    · exact Or.inl ⟨r, hr, hlt⟩
                    · exact Or.inr ⟨l, hl, by omega⟩
                  · -- the closing quote belongs to the sequence
                    obtain rfl : m = 1 := hend.resolve_left hin
                    obtain rfl : n = 0 := by omega
                    obtain rfl : k = 0 := h.last
                    rw [store, if_pos (by omega)]
                    have hlast : (output ++ bytes).length < allocated := by
                      rw [List.length_append]
                      omega
                    exact Or.inl ⟨_, (unescape_zero ..).trans (if_pos hlast), hlast⟩

/-- The string that has been found fits. -/
theorem scanString_unescape {input : List UInt8} {n k : Nat}
    (h : scanString input = some (n, k)) :
    (∃ r, unescape (n + 1 - k + 1) n input n [] = .done r ∧ r.length ≤ n + 1 - k) ∨
      ∃ l, unescape (n + 1 - k + 1) n input n [] = .fail l ∧ l ≤ n := by
  have hle := (InStep.same h).le
  have hroom : ([] : List UInt8).length + n < (n + 1 - k + 1) + k := by
    simp
    omega
  rcases unescape_fits (.same h) (le_refl n) hroom with ⟨r, hr, hlt⟩ | hfail
  · exact Or.inl ⟨r, hr, by omega⟩
  · exact Or.inr hfail

/-! ## What is read -/

theorem parseHex4_append {s : List UInt8} (h : 4 ≤ s.length) (x : List UInt8) :
    parseHex4 (s ++ x) = parseHex4 s := by
  match s, h with
  | a :: b :: c :: d :: s, _ => rfl

theorem utf16LiteralToUtf8_append {s : List UInt8} {left : Nat} (h : left < s.length)
    (x : List UInt8) : utf16LiteralToUtf8 (s ++ x) left = utf16LiteralToUtf8 s left := by
  unfold utf16LiteralToUtf8
  split
  · rfl
  · rename_i hleft
    rw [List.drop_append_of_le_length (by omega),
      parseHex4_append (by rw [List.length_drop]; omega)]
    by_cases hsecond : left - 6 < 6
    · simp only [if_pos hsecond]
    · rw [List.drop_append_of_le_length (by omega)]
      have hlen : 6 < (s.drop 6).length := by
        rw [List.length_drop]
        omega
      match s.drop 6, hlen with
      | c :: d :: second, hlen =>
          have hsix : 4 ≤ second.length := by
            simp only [List.length_cons] at hlen
            omega
          simp only [List.cons_append, parseHex4_append hsix]

theorem escape_append {s : List UInt8} {left : Nat} (hpos : 0 < left) (h : left < s.length)
    (x : List UInt8) : escape (s ++ x) left = escape s left := by
  rcases s with _ | ⟨c, _ | ⟨d, s⟩⟩
  · simp at h
  · simp at h
    omega
  · by_cases hu : d = 0x75
    · subst hu
      exact utf16LiteralToUtf8_append h x
    · show escape (c :: d :: (s ++ x)) left = escape (c :: d :: s) left
      unfold escape
      split <;> simp_all

/-- **The second loop does not read behind the closing quote.** -/
theorem unescape_append {s output : List UInt8} {allocated fuel left : Nat}
    (h : left < s.length) (x : List UInt8) :
    unescape allocated fuel (s ++ x) left output = unescape allocated fuel s left output := by
  induction fuel generalizing s left output with
  | zero =>
      unfold unescape
      rfl
  | succ fuel ih =>
      unfold unescape
      split
      · rfl
      · rename_i hz
        match s, h with
        | c :: s, h =>
            have hshort : left - 1 < s.length := by
              simp only [List.length_cons] at h
              omega
            have hesc := escape_append (Nat.pos_of_ne_zero hz) h x
            simp only [List.cons_append] at hesc ⊢
            rw [hesc]
            split
            · split
              · exact ih hshort
              · rfl
            · cases he : escape (c :: s) left with
              | fail | overrun => rfl
              | sequence bytes n =>
                  simp only
                  obtain ⟨m, rfl, -, -, hend⟩ :=
                    (escape_valid (Nat.pos_of_ne_zero hz) h).sequence bytes n he
                  split
                  · by_cases hin : 2 * m ≤ left
                    · rw [← List.cons_append, List.drop_append_of_le_length (by omega)]
                      exact ih (by rw [List.length_drop]; omega)
                    · rw [Nat.sub_eq_zero_of_le (by omega), unescape_zero, unescape_zero]
                  · rfl

end LteUlp.Json
