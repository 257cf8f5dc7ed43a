import LteUlp.Json.Grammar

set_option autoImplicit false

/-! # The parser reads the grammar

`parse_value` and the functions that it calls read exactly the texts of the grammar
(`parseValue_parses`): the induction is on the fuel, of which as much is enough as there are
characters. For `cJSON_Parse` this says which texts are read and what comes of them, that the
run ends, and that no byte behind the terminator is read (`parseWithOpts_iff`).
-/

namespace LteUlp.Json

variable {D : Type} {libc : Libc D} {content : List UInt8} {d m : Nat}

/-- `parse_value` reads items, as far as texts of the length `m` are concerned. -/
def ReadsValues (libc : Libc D) (content : List UInt8) (d m : Nat)
    (value : ParseBuffer → Outcome (Item D)) : Prop :=
  ∀ t, t.length ≤ m → Within content t →
    Parses content d t.length (Value libc d t) (value (bufferAt content d t))

/-! ## The loops -/

/-- What comes behind an item: a comma and more items, or the bracket. -/
def Tail {α : Type} (close : UInt8) (item : α) (R : List UInt8 → List α → List UInt8 → Prop)
    (u : List UInt8) (xs : List α) (r : List UInt8) : Prop :=
  (∃ r', skip u = close :: r' ∧ xs = [item] ∧ r = close :: r') ∨
    ∃ v xs', skip u = comma :: v ∧ R v xs' r ∧ xs = item :: xs'

theorem tail_parses {α : Type} {n : Nat} {close : UInt8} {item : α} {u : List UInt8}
    {R : List UInt8 → List α → List UInt8 → Prop} {loop : ParseBuffer → Outcome (List α)}
    (hclose : close ≠ 0) (hu : Within content u) (hn : u.length < n)
    (hloop : ∀ v, skip u = comma :: v →
      Parses content d n (R v) (loop (bufferAt content d (comma :: v))))
    (hne : close ≠ comma) :
    Parses content d n (Tail close item R u)
      (let b := bufferSkipWhitespace (bufferAt content d u)
       if b.at? comma then (loop b).andThen fun items b => .ok (item :: items) b
       else if b.at? close then .ok [item] b
       else .fail b) := by
  have hle := skip_length_le u
  simp only
  rw [bufferSkipWhitespace_bufferAt hu]
  by_cases hc : (bufferAt content d (skip u)).at? comma = true
  · obtain ⟨v, hv⟩ := (at_bufferAt hu.skip (by decide)).mp hc
    rw [if_pos hc, hv]
    refine Parses.andThen (hloop v hv) (fun xs r hxs hr hlt => ?_)
      (S := fun xs r ys r' => ys = item :: xs ∧ r' = r) fun ys r => ?_
    · exact .ok hr hlt ⟨rfl, rfl⟩ fun _ _ h => h
    · unfold Tail
      rw [hv]
      constructor
      · rintro (⟨r', h, -⟩ | ⟨v', xs', h, hxs, rfl⟩)
        · exact absurd (List.cons.inj h).1.symm hne
        · cases h
          exact ⟨xs', r, hxs, rfl, rfl⟩
      · rintro ⟨xs', r', hxs, rfl, rfl⟩
        exact Or.inr ⟨v, xs', rfl, hxs, rfl⟩
  · rw [if_neg hc]
    have hnc : ∀ v, skip u ≠ comma :: v := fun v hv =>
      hc ((at_bufferAt hu.skip (by decide)).mpr ⟨v, hv⟩)
    by_cases hc' : (bufferAt content d (skip u)).at? close = true
    · obtain ⟨v, hv⟩ := (at_bufferAt hu.skip hclose).mp hc'
      rw [if_pos hc']
      refine .ok hu.skip (by omega) (Or.inl ⟨v, hv, rfl, hv⟩) ?_
      rintro ys r (⟨r', h, rfl, rfl⟩ | ⟨v', xs', h, -⟩)
      · exact ⟨rfl, h.symm⟩
      · exact absurd h (hnc v')
    · rw [if_neg hc']
      refine .fail ?_ rfl
      rintro ys r (⟨r', h, -⟩ | ⟨v', xs', h, -⟩)
      · exact hc' ((at_bufferAt hu.skip hclose).mpr ⟨r', h⟩)
      · exact hnc v' h

theorem elements_iff {t r : List UInt8} {xs : List (Item D)} :
    Elements libc d t xs r ↔
      ∃ x u, Value libc d (skip t) x u ∧ Tail closeBracket x (Elements libc d) u xs r := by
  constructor
  · intro h
    cases h with
    | last hx hu => exact ⟨_, _, hx, Or.inl ⟨_, hu, rfl, rfl⟩⟩
    | more hx hu h => exact ⟨_, _, hx, Or.inr ⟨_, _, hu, h, rfl⟩⟩
  · rintro ⟨x, u, hx, ⟨r', hu, rfl, rfl⟩ | ⟨v, xs', hu, h, rfl⟩⟩
    · exact .last hx hu
    · exact .more hx hu h

theorem members_iff {t r : List UInt8} {xs : List (List UInt8 × Item D)} :
    Members libc d t xs r ↔ ∃ s u, IsString (skip t) s u ∧ ∃ v, skip u = colon :: v ∧
      ∃ x w, Value libc d (skip v) x w ∧ Tail closeBrace (s, x) (Members libc d) w xs r := by
  constructor
  · intro h
    cases h with
    | last hs hu hx hw => exact ⟨_, _, hs, _, hu, _, _, hx, Or.inl ⟨_, hw, rfl, rfl⟩⟩
    | more hs hu hx hw h => exact ⟨_, _, hs, _, hu, _, _, hx, Or.inr ⟨_, _, hw, h, rfl⟩⟩
  · rintro ⟨s, u, hs, v, hu, x, w, hx, ⟨r', hw, rfl, rfl⟩ | ⟨z, xs', hw, h, rfl⟩⟩
    · exact .last hs hu hx hw
    · exact .more hs hu hx hw h

/-- The text behind the first character of `skip u`. -/
theorem within_of_skip {u v : List UInt8} {c : UInt8} (hu : Within content u)
    (hv : skip u = c :: v) : Within content (c :: v) ∧ Within content v ∧ v.length < u.length := by
  have hin : Within content (c :: v) := hv ▸ hu.skip
  have hle := skip_length_le u
  rw [hv, List.length_cons] at hle
  exact ⟨hin, hin.of_suffix (List.suffix_cons _ _), by omega⟩

/-- **The loop of `parse_array`.** -/
theorem parseElements_parses {value : ParseBuffer → Outcome (Item D)} {fuel : Nat}
    {t : List UInt8} {b : ParseBuffer} (hvalue : ReadsValues libc content d m value)
    (hm : t.length ≤ m) (hfuel : t.length < fuel) (ht : Within content t)
    (hb : b.advance 1 = bufferAt content d t) :
    Parses content d t.length (Elements libc d t) (parseElements value fuel b) := by
  induction fuel generalizing t b with
  | zero => omega
  | succ fuel ih =>
      have hskip := skip_length_le t
      unfold parseElements
      rw [hb, bufferSkipWhitespace_bufferAt ht]
      refine Parses.andThen (hvalue (skip t) (by omega) ht.skip) (fun x u hx hu hlt => ?_)
        fun xs r => elements_iff
      refine tail_parses (by decide) hu (by omega) (fun v hv => ?_) (by decide)
      obtain ⟨hin, hv', hlen⟩ := within_of_skip hu hv
      exact (ih (by omega) (by omega) hv' (advance_one hin)).mono (by omega)

/-- **The loop of `parse_object`.** -/
theorem parseMembers_parses {value : ParseBuffer → Outcome (Item D)} {fuel : Nat}
    {t : List UInt8} {b : ParseBuffer} (hvalue : ReadsValues libc content d m value)
    (hm : t.length ≤ m) (hfuel : t.length < fuel) (ht : Within content t)
    (hb : b.advance 1 = bufferAt content d t) :
    Parses content d t.length (Members libc d t) (parseMembers value fuel b) := by
  induction fuel generalizing t b with
  | zero => omega
  | succ fuel ih =>
      have hskip := skip_length_le t
      unfold parseMembers
      rw [hb, bufferSkipWhitespace_bufferAt ht]
      refine Parses.andThen (parseString_parses ht.skip) (fun s u hs hu hlt => ?_)
        fun xs r => members_iff
      simp only
      rw [bufferSkipWhitespace_bufferAt hu]
      by_cases hc : (bufferAt content d (skip u)).at? colon = true
      · obtain ⟨v, hv⟩ := (at_bufferAt hu.skip (by decide)).mp hc
        obtain ⟨hin, hv', hlen⟩ := within_of_skip hu hv
        have hvskip := skip_length_le v
        rw [hc, if_neg (by simp), hv, advance_one hin, bufferSkipWhitespace_bufferAt hv']
        refine Parses.andThen (hvalue (skip v) (by omega) hv'.skip) (fun x w hx hw hlt' => ?_)
          (S := fun x w xs r => Tail closeBrace (s, x) (Members libc d) w xs r) fun xs r => ?_
        · refine tail_parses (by decide) hw (by omega) (fun z hz => ?_) (by decide)
          obtain ⟨hin', hz', hlen'⟩ := within_of_skip hw hz
          exact (ih (by omega) (by omega) hz' (advance_one hin')).mono (by omega)
        · constructor
          · rintro ⟨v', h, hrest⟩
            cases h
            exact hrest
          · exact fun hrest => ⟨v, rfl, hrest⟩
      · rw [if_pos (by simpa using hc)]
        refine .fail ?_ rfl
        rintro xs r ⟨v, hv, -⟩
        exact hc ((at_bufferAt hu.skip (by decide)).mpr ⟨v, hv⟩)

/-! ## Items -/

/-- The text behind a bracket. -/
theorem suffix_of_within {c : UInt8} {t : List UInt8} (h : Within content (c :: t)) :
    Within content t := h.of_suffix (List.suffix_cons _ _)

/-- Into an array or an object, and back. -/
theorem enter_bufferAt (t : List UInt8) :
    (bufferAt content d t).enter = bufferAt content (d + 1) t := rfl

theorem leave_bufferAt (t : List UInt8) :
    (bufferAt content (d + 1) t).leave = bufferAt content d t := rfl

/-- The step back to the character in front of the first item. -/
theorem back_advance {t : List UInt8} {c : UInt8} {u : List UInt8}
    (h : Within content (c :: t)) (hu : u <:+ t) :
    (bufferAt content d u).back.advance 1 = bufferAt content d u := by
  have h1 := h.length
  have h2 := hu.length_le
  rw [List.length_cons] at h1
  simp only [bufferAt, ParseBuffer.back, ParseBuffer.advance]
  congr 1
  omega

theorem canAccess_bufferAt {t : List UInt8} (h : Within content t) :
    (bufferAt content d t).canAccess = true := by
  have := h.length
  have hlt : content.length - (t.length + 1) < content.length := by omega
  exact decide_eq_true hlt

/-- What an opening bracket is followed by: the closing one, or items. -/
def Container {α : Type} (close : UInt8) (make : List α → Item D)
    (R : Nat → List UInt8 → List α → List UInt8 → Prop) (d : Nat) (t : List UInt8)
    (x : Item D) (r : List UInt8) : Prop :=
  (skip t = close :: r ∧ x = make []) ∨ ∃ xs, R (d + 1) t xs (close :: r) ∧ x = make xs

/-- The items are read behind blanks, and begin with no bracket that closes. -/
structure Items {α : Type} (close : UInt8)
    (R : Nat → List UInt8 → List α → List UInt8 → Prop) : Prop where
  blanks : ∀ d t xs r, R d (skip t) xs r ↔ R d t xs r
  closed : ∀ d t xs r, R d t xs r → ∃ r', r = close :: r'
  notEmpty : ∀ d t xs r r', skip t = close :: r' → ¬ R d t xs r

theorem container_parses {α : Type} {close c : UInt8} {make : List α → Item D}
    {R : Nat → List UInt8 → List α → List UInt8 → Prop}
    {loop : ParseBuffer → Outcome (List α)} {t : List UInt8} (hclose : close ≠ 0)
    (hitems : Items close R) (ht : Within content (c :: t))
    (hloop : ∀ b, b.advance 1 = bufferAt content (d + 1) (skip t) →
      Parses content (d + 1) (skip t).length (R (d + 1) (skip t)) (loop b)) :
    Parses content d (t.length + 1) (Container close make R d t)
      (let b := bufferSkipWhitespace ((bufferAt content d (c :: t)).enter.advance 1)
       if b.at? close then .ok (make []) (b.leave.advance 1)
       else if !b.canAccess then .fail b.back
       else (loop b.back).andThen fun items b => .ok (make items) (b.leave.advance 1)) := by
  have ht' := suffix_of_within ht
  have hle := skip_length_le t
  simp only
  rw [enter_bufferAt, advance_one ht, bufferSkipWhitespace_bufferAt ht']
  by_cases hc : (bufferAt content (d + 1) (skip t)).at? close = true
  · obtain ⟨r, hr⟩ := (at_bufferAt ht'.skip hclose).mp hc
    have hin : Within content (close :: r) := hr ▸ ht'.skip
    have hlen : r.length + 1 = (skip t).length := by rw [hr, List.length_cons]
    rw [if_pos hc, hr, leave_bufferAt, advance_one hin]
    refine .ok (suffix_of_within hin) (by omega) (Or.inl ⟨hr, rfl⟩) ?_
    rintro x r' (⟨h, rfl⟩ | ⟨xs, hxs, -⟩)
    · rw [hr] at h
      exact ⟨rfl, (List.tail_eq_of_cons_eq h).symm⟩
    · exact absurd hxs (hitems.notEmpty _ _ _ _ r hr)
  · rw [if_neg hc, canAccess_bufferAt ht'.skip, if_neg (by simp)]
    have hloop' := hloop _ (back_advance (d := d + 1) ht (skip_suffix t))
    refine Parses.andThen hloop' (fun xs r hxs hr hlt => ?_)
      (S := fun xs r x r' => r = close :: r' ∧ x = make xs) fun x r => ?_
    · obtain ⟨r', rfl⟩ := hitems.closed _ _ _ _ hxs
      rw [leave_bufferAt, advance_one hr]
      rw [List.length_cons] at hlt
      refine .ok (suffix_of_within hr) (by omega) ⟨rfl, rfl⟩ ?_
      rintro x r'' ⟨h, rfl⟩
      exact ⟨rfl, (List.tail_eq_of_cons_eq h).symm⟩
    · constructor
      · rintro (⟨h, -⟩ | ⟨xs, hxs, rfl⟩)
        · exact absurd ((at_bufferAt ht'.skip hclose).mpr ⟨r, h⟩) hc
        · exact ⟨xs, close :: r, (hitems.blanks _ _ _ _).mpr hxs, rfl, rfl⟩
      · rintro ⟨xs, r', hxs, rfl, rfl⟩
        exact Or.inr ⟨xs, (hitems.blanks _ _ _ _).mp hxs, rfl⟩

/-- No item begins with a bracket that closes, and none is empty. -/
theorem Value.first {t r : List UInt8} {x : Item D} (h : Value libc d t x r) :
    ∃ c u, t = c :: u ∧ c ≠ closeBracket := by
  cases h with
  | null | false | true => exact ⟨_, _, rfl, by decide⟩
  | string h =>
      obtain ⟨body, k, h⟩ := h
      exact ⟨_, _, h.text, by decide⟩
  | number h =>
      cases t with
      | nil =>
          have := h.first
          simp at this
      | cons c u =>
          refine ⟨c, u, rfl, ?_⟩
          rintro rfl
          have := h.first
          simp [closeBracket, minus, isDigit] at this
  | emptyArray | array | emptyObject | object => exact ⟨_, _, rfl, by decide⟩

theorem elements_items (libc : Libc D) : Items closeBracket (Elements libc) where
  blanks d t xs r := by
    rw [elements_iff, elements_iff, skip_skip]
  closed d t xs r h := by
    induction xs generalizing t with
    | nil =>
        obtain ⟨x, u, -, ⟨r', -, h, -⟩ | ⟨v, xs', -, -, h⟩⟩ := elements_iff.mp h <;> cases h
    | cons x xs ih =>
        obtain ⟨x, u, -, ⟨r', -, -, rfl⟩ | ⟨v, xs', -, hmore, hxs⟩⟩ := elements_iff.mp h
        · exact ⟨r', rfl⟩
        · cases hxs
          exact ih _ hmore
  notEmpty d t xs r r' ht h := by
    obtain ⟨x, u, hx, -⟩ := elements_iff.mp h
    obtain ⟨c, v, hc, hne⟩ := hx.first
    rw [ht] at hc
    exact hne (List.cons.inj hc).1.symm

theorem members_items (libc : Libc D) : Items closeBrace (Members libc) where
  blanks d t xs r := by
    rw [members_iff, members_iff, skip_skip]
  closed d t xs r h := by
    induction xs generalizing t with
    | nil =>
        obtain ⟨s, u, -, v, -, x, w, -, ⟨r', -, h, -⟩ | ⟨v, xs', -, -, h⟩⟩ := members_iff.mp h <;>
          cases h
    | cons x xs ih =>
        obtain ⟨s, u, -, v, -, x, w, -, ⟨r', -, -, rfl⟩ | ⟨v, xs', -, hmore, hxs⟩⟩ :=
          members_iff.mp h
        · exact ⟨r', rfl⟩
        · cases hxs
          exact ih _ hmore
  notEmpty d t xs r r' ht h := by
    obtain ⟨s, u, ⟨body, k, hs⟩, -⟩ := members_iff.mp h
    have htext := hs.text
    rw [ht] at htext
    exact absurd (List.cons.inj htext).1 (by decide)

theorem parseArray_parses {value : ParseBuffer → Outcome (Item D)} {fuel : Nat}
    {t : List UInt8} (hvalue : ReadsValues libc content (d + 1) m value) (hm : t.length ≤ m)
    (hfuel : t.length < fuel) (ht : Within content (openBracket :: t)) :
    Parses content d (t.length + 1)
      (fun x r => d < nestingLimit ∧ Container closeBracket .array (Elements libc) d t x r)
      (parseArray value fuel (bufferAt content d (openBracket :: t))) := by
  unfold parseArray
  rw [show (bufferAt content d (openBracket :: t)).depth = d from rfl]
  by_cases hd : d < nestingLimit
  · rw [if_neg (Nat.not_le.mpr hd)]
    simp only
    rw [enter_bufferAt, rest_bufferAt ht]
    simp only [List.cons_append]
    rw [if_neg (by simp)]
    have hle := skip_length_le t
    refine (container_parses (by decide) (elements_items libc) ht fun b hb => ?_).congr
      fun x r => and_iff_right hd
    exact parseElements_parses hvalue (by omega) (by omega) (suffix_of_within ht).skip hb
  · rw [if_pos (Nat.not_lt.mp hd)]
    exact .fail (fun x r h => hd h.1) rfl

theorem parseObject_parses {value : ParseBuffer → Outcome (Item D)} {fuel : Nat}
    {t : List UInt8} (hvalue : ReadsValues libc content (d + 1) m value) (hm : t.length ≤ m)
    (hfuel : t.length < fuel) (ht : Within content (openBrace :: t)) :
    Parses content d (t.length + 1)
      (fun x r => d < nestingLimit ∧ Container closeBrace .object (Members libc) d t x r)
      (parseObject value fuel (bufferAt content d (openBrace :: t))) := by
  unfold parseObject
  rw [show (bufferAt content d (openBrace :: t)).depth = d from rfl]
  by_cases hd : d < nestingLimit
  · rw [if_neg (Nat.not_le.mpr hd)]
    have hopen : (bufferAt content d (openBrace :: t)).enter.at? openBrace = true := by
      rw [enter_bufferAt]
      exact (at_bufferAt ht (by decide)).mpr ⟨t, rfl⟩
    simp only [hopen, Bool.not_true, Bool.false_eq_true, if_false]
    have hle := skip_length_le t
    refine (container_parses (by decide) (members_items libc) ht fun b hb => ?_).congr
      fun x r => and_iff_right hd
    exact parseMembers_parses hvalue (by omega) (by omega) (suffix_of_within ht).skip hb
  · rw [if_pos (Nat.not_lt.mp hd)]
    exact .fail (fun x r h => hd h.1) rfl

/-! ## `parse_value` -/

theorem startsWith_bufferAt {s t : List UInt8} (h : Within content t) (hs : (0 : UInt8) ∉ s) :
    (bufferAt content d t).startsWith s = true ↔ ∃ r, t = s ++ r := by
  unfold ParseBuffer.startsWith
  rw [rest_bufferAt h, List.isPrefixOf_iff_prefix]
  constructor
  · intro hp
    have hle : s.length ≤ t.length := by
      by_contra hlt
      have hall : s = t ++ [0] := hp.eq_of_length_le (by simp; omega)
      exact hs (by rw [hall]; simp)
    obtain ⟨r, hr⟩ := List.prefix_of_prefix_length_le hp (List.prefix_append t [0]) hle
    exact ⟨r, hr.symm⟩
  · rintro ⟨r, rfl⟩
    rw [List.append_assoc]
    exact List.prefix_append _ _

/-- The kinds of items. -/
inductive Kind where
  | null
  | false
  | true
  | string
  | number
  | array
  | object

/-- The kind of the items that begin with a character. -/
def kindOf (c : UInt8) : Option Kind :=
  if c = 0x6E then some .null
  else if c = 0x66 then some .false
  else if c = 0x74 then some .true
  else if c = dquote then some .string
  else if c = minus ∨ isDigit c then some .number
  else if c = openBracket then some .array
  else if c = openBrace then some .object
  else none

/-- `t` begins with an item of the given kind. -/
def OfKind (libc : Libc D) (d : Nat) (t : List UInt8) (x : Item D) (r : List UInt8) :
    Kind → Prop
  | .null => t = ascii ['n', 'u', 'l', 'l'] ++ r ∧ x = .null
  | .false => t = ascii ['f', 'a', 'l', 's', 'e'] ++ r ∧ x = .false
  | .true => t = ascii ['t', 'r', 'u', 'e'] ++ r ∧ x = .true
  | .string => ∃ s, x = .string s ∧ IsString t s r
  | .number => ∃ y, x = .number y ∧ IsNumber libc t y r
  | .array => d < nestingLimit ∧ Container closeBracket .array (Elements libc) d t.tail x r
  | .object => d < nestingLimit ∧ Container closeBrace .object (Members libc) d t.tail x r

theorem kindOf_digit {c : UInt8} (h : isDigit c = true) : kindOf c = some .number := by
  have h1 : 0x30 ≤ c.toNat ∧ c.toNat ≤ 0x39 := by
    simpa [isDigit, UInt8.le_iff_toNat_le] using h
  have hne : ∀ b : UInt8, (b.toNat < 0x30 ∨ 0x39 < b.toNat) → c ≠ b := by
    rintro b hb rfl
    omega
  unfold kindOf
  rw [if_neg (hne _ (by decide)), if_neg (hne _ (by decide)), if_neg (hne _ (by decide)),
    if_neg (hne _ (by decide)), if_pos (Or.inr h)]

theorem kindOf_array {c : UInt8} (h : kindOf c = some .array) : c = openBracket := by
  unfold kindOf at h
  split_ifs at h <;> first | assumption | cases h

theorem kindOf_object {c : UInt8} (h : kindOf c = some .object) : c = openBrace := by
  unfold kindOf at h
  split_ifs at h <;> first | assumption | cases h

/-- **The first character of an item tells its kind.** -/
theorem value_cons_iff {c : UInt8} {u r : List UInt8} {x : Item D} :
    Value libc d (c :: u) x r ↔ ∃ k, kindOf c = some k ∧ OfKind libc d (c :: u) x r k := by
  constructor
  · generalize ht : c :: u = t
    intro h
    have hhead : ∀ {b : UInt8} {v : List UInt8}, t = b :: v → c = b := by
      rintro b v rfl
      exact (List.cons.inj ht).1
    cases h with
    | null => exact ⟨.null, by rw [hhead rfl]; rfl, rfl, rfl⟩
    | false => exact ⟨.false, by rw [hhead rfl]; rfl, rfl, rfl⟩
    | true => exact ⟨.true, by rw [hhead rfl]; rfl, rfl, rfl⟩
    | string h =>
        obtain ⟨body, k, hs⟩ := h
        exact ⟨.string, by rw [hhead hs.text]; rfl, _, rfl, body, k, hs⟩
    | number h =>
        refine ⟨.number, ?_, _, rfl, h⟩
        have hfirst := h.first
        rw [← ht] at hfirst
        rcases hfirst with hm | hdigit
        · obtain rfl : c = minus := by simpa using hm
          rfl
        · exact kindOf_digit (by simpa using hdigit)
    | emptyArray hd h => exact ⟨.array, by rw [hhead rfl]; rfl, hd, Or.inl ⟨h, rfl⟩⟩
    | array hd h => exact ⟨.array, by rw [hhead rfl]; rfl, hd, Or.inr ⟨_, h, rfl⟩⟩
    | emptyObject hd h => exact ⟨.object, by rw [hhead rfl]; rfl, hd, Or.inl ⟨h, rfl⟩⟩
    | object hd h => exact ⟨.object, by rw [hhead rfl]; rfl, hd, Or.inr ⟨_, h, rfl⟩⟩
  · rintro ⟨k, hk, h⟩
    cases k with
    | null =>
        obtain ⟨ht, rfl⟩ := h
        exact ht ▸ .null
    | false =>
        obtain ⟨ht, rfl⟩ := h
        exact ht ▸ .false
    | true =>
        obtain ⟨ht, rfl⟩ := h
        exact ht ▸ .true
    | string =>
        obtain ⟨s, rfl, hs⟩ := h
        exact .string hs
    | number =>
        obtain ⟨y, rfl, hy⟩ := h
        exact .number hy
    | array =>
        obtain rfl : c = openBracket := kindOf_array hk
        obtain ⟨hd, ⟨h, rfl⟩ | ⟨xs, h, rfl⟩⟩ := h
        · exact .emptyArray hd h
        · exact .array hd h
    | object =>
        obtain rfl : c = openBrace := kindOf_object hk
        obtain ⟨hd, ⟨h, rfl⟩ | ⟨xs, h, rfl⟩⟩ := h
        · exact .emptyObject hd h
        · exact .object hd h

/-- The items of a text, if they are of one kind. -/
theorem value_iff_of_kind {c : UInt8} {k : Kind} (hk : kindOf c = some k) {u r : List UInt8}
    {x : Item D} : Value libc d (c :: u) x r ↔ OfKind libc d (c :: u) x r k := by
  rw [value_cons_iff]
  constructor
  · rintro ⟨k', hk', h⟩
    rw [hk] at hk'
    cases hk'
    exact h
  · exact fun h => ⟨k, hk, h⟩

/-- A literal is read. -/
theorem literal_parses {s r : List UInt8} {item : Item D} {n : Nat}
    (ht : Within content (s ++ r)) (hn : s.length = n) (hpos : 0 < n)
    (hvalue : ∀ x r', Value libc d (s ++ r) x r' ↔ s ++ r = s ++ r' ∧ x = item) :
    Parses content d (s ++ r).length (Value libc d (s ++ r))
      (.ok item ((bufferAt content d (s ++ r)).advance n)) := by
  subst hn
  rw [advance_bufferAt ht]
  refine .ok (ht.of_suffix (List.suffix_append _ _)) (by simp; omega)
    ((hvalue _ _).mpr ⟨rfl, rfl⟩) fun x r' h => ?_
  obtain ⟨hr, rfl⟩ := (hvalue _ _).mp h
  exact ⟨rfl, (List.append_cancel_left hr).symm⟩

theorem number_bufferAt {t : List UInt8} (h : Within content t) :
    ((bufferAt content d t).at? minus || (bufferAt content d t).rest.head?.any isDigit) = true ↔
      t.head? = some minus ∨ t.head?.any isDigit = true := by
  rw [Bool.or_eq_true, at_bufferAt h (by decide), rest_bufferAt h]
  cases t with
  | nil => simp [isDigit]
  | cons c u => simp

/-- **`parse_value` reads the grammar**, with as much fuel as there are characters. -/
theorem parseValue_parses {fuel : Nat} {t : List UInt8} (hfuel : t.length < fuel)
    (ht : Within content t) :
    Parses content d t.length (Value libc d t)
      (parseValue libc fuel (bufferAt content d t)) := by
  induction fuel generalizing d t with
  | zero => omega
  | succ fuel ih =>
      have hreads : ∀ d, ∀ u : List UInt8, u.length < fuel →
          ReadsValues libc content d u.length (parseValue libc fuel) :=
        fun d u hu v hv hin => ih (by omega) hin
      unfold parseValue
      split_ifs with h1 h2 h3 h4 h5 h6 h7
      · obtain ⟨r, rfl⟩ := (startsWith_bufferAt ht (by decide)).mp h1
        exact literal_parses ht rfl (by decide) fun x r' =>
          value_iff_of_kind (c := 0x6E) (k := .null) rfl
      · obtain ⟨r, rfl⟩ := (startsWith_bufferAt ht (by decide)).mp h2
        exact literal_parses ht rfl (by decide) fun x r' =>
          value_iff_of_kind (c := 0x66) (k := .false) rfl
      · obtain ⟨r, rfl⟩ := (startsWith_bufferAt ht (by decide)).mp h3
        exact literal_parses ht rfl (by decide) fun x r' =>
          value_iff_of_kind (c := 0x74) (k := .true) rfl
      · obtain ⟨u, rfl⟩ := (at_bufferAt ht (by decide)).mp h4
        refine Parses.andThen (parseString_parses ht) (fun s r hs hr hlt => ?_)
          (S := fun s r x r' => x = .string s ∧ r' = r) fun x r => ?_
        · exact .ok hr hlt ⟨rfl, rfl⟩ fun _ _ h => h
        · rw [value_iff_of_kind (k := .string) rfl]
          constructor
          · rintro ⟨s, rfl, hs⟩
            exact ⟨s, r, hs, rfl, rfl⟩
          · rintro ⟨s, r', hs, rfl, rfl⟩
            exact ⟨s, rfl, hs⟩
      · have hfirst := (number_bufferAt ht).mp h5
        cases t with
        | nil => simp at hfirst
        | cons c u =>
            refine (parseNumber_parses libc ht hfirst).congr fun x r => ?_
            refine value_iff_of_kind (k := .number) ?_
            rcases hfirst with hm | hdigit
            · obtain rfl : c = minus := by simpa using hm
              rfl
            · exact kindOf_digit (by simpa using hdigit)
      · obtain ⟨u, rfl⟩ := (at_bufferAt ht (by decide)).mp h6
        rw [List.length_cons] at hfuel
        refine (parseArray_parses (hreads (d + 1) u (by omega)) (le_refl _) (by omega) ht).congr
          fun x r => ?_
        exact value_iff_of_kind (k := .array) rfl
      · obtain ⟨u, rfl⟩ := (at_bufferAt ht (by decide)).mp h7
        rw [List.length_cons] at hfuel
        refine (parseObject_parses (hreads (d + 1) u (by omega)) (le_refl _) (by omega) ht).congr
          fun x r => ?_
        exact value_iff_of_kind (k := .object) rfl
      · refine .fail (fun x r h => ?_) rfl
        cases h with
        | null => exact h1 ((startsWith_bufferAt ht (by decide)).mpr ⟨r, rfl⟩)
        | false => exact h2 ((startsWith_bufferAt ht (by decide)).mpr ⟨r, rfl⟩)
        | true => exact h3 ((startsWith_bufferAt ht (by decide)).mpr ⟨r, rfl⟩)
        | string h =>
            obtain ⟨body, k, hs⟩ := h
            exact h4 ((at_bufferAt ht (by decide)).mpr ⟨_, hs.text⟩)
        | number h => exact h5 ((number_bufferAt ht).mpr h.first)
        | emptyArray | array => exact h6 ((at_bufferAt ht (by decide)).mpr ⟨_, rfl⟩)
        | emptyObject | object => exact h7 ((at_bufferAt ht (by decide)).mpr ⟨_, rfl⟩)

end LteUlp.Json
