import LteUlp.Json.Values

set_option autoImplicit false

/-! # Documents

What `cJSON_Parse` makes of the memory that it is given (`parseWithOpts_iff`). A caller that
has filled a buffer from a file does not put a terminator behind the text. What stands there
does not matter, if the document is an object or an array (`parse_append`).
-/

namespace LteUlp.Json

variable {D : Type} {libc : Libc D} {d : Nat}

/-! ## The whole text -/

/-- The text that the memory begins with. -/
def textOf (value : List UInt8) : List UInt8 := value.takeWhile (· != 0)

/-- A text without the byte order mark. -/
def withoutBom (t : List UInt8) : List UInt8 :=
  if 4 ≤ t.length ∧ [0xEF, 0xBB, 0xBF] <+: t then t.drop 3 else t

/-- Where the item begins. -/
def start (value : List UInt8) : List UInt8 := skip (withoutBom (textOf value))

section Parse

variable {content t : List UInt8}

theorem withoutBom_suffix (t : List UInt8) : withoutBom t <:+ t := by
  unfold withoutBom
  split
  · exact List.drop_suffix _ _
  · exact List.suffix_rfl

theorem skipUtf8Bom_bufferAt (t : List UInt8) :
    skipUtf8Bom ⟨t ++ [0], 0, d⟩ = bufferAt (t ++ [0]) d (withoutBom t) := by
  have hfirst : (⟨t ++ [0], 0, d⟩ : ParseBuffer) = bufferAt (t ++ [0]) d t := by
    simp [bufferAt]
  have hin : Within (t ++ [0]) t := List.suffix_rfl
  have hstarts : (bufferAt (t ++ [0]) d t).startsWith [0xEF, 0xBB, 0xBF] = true ↔
      [0xEF, 0xBB, 0xBF] <+: t := by
    rw [startsWith_bufferAt hin (by decide)]
    exact exists_congr fun r => eq_comm
  have hlen : (bufferAt (t ++ [0]) d t).offset + 4 < (bufferAt (t ++ [0]) d t).length ↔
      4 ≤ t.length := by
    rw [← hfirst]
    simp only [ParseBuffer.length, List.length_append, List.length_singleton]
    omega
  rw [hfirst]
  unfold skipUtf8Bom withoutBom
  by_cases hbom : 4 ≤ t.length ∧ [0xEF, 0xBB, 0xBF] <+: t
  · rw [if_pos hbom, if_pos (by simp [hlen.mpr hbom.1, hstarts.mpr hbom.2])]
    obtain ⟨r, rfl⟩ := hbom.2
    exact advance_bufferAt (u := [0xEF, 0xBB, 0xBF]) hin
  · rw [if_neg hbom, if_neg]
    intro h
    rw [Bool.and_eq_true, decide_eq_true_eq, hlen, hstarts] at h
    exact hbom h

theorem failAt_le {b : ParseBuffer} (h : b.content = t ++ [0]) :
    ∃ position, (failAt b : Parsed D) = .error position ∧ position ≤ t.length := by
  have hlen : b.length = t.length + 1 := by simp [ParseBuffer.length, h]
  unfold failAt
  rw [hlen]
  split
  · exact ⟨_, rfl, by omega⟩
  · split
    · exact ⟨_, rfl, by omega⟩
    · exact ⟨_, rfl, by omega⟩

/-- The terminator has been reached. -/
theorem atEnd_bufferAt (h : Within content (skip t)) :
    (bufferAt content d (skip t)).at? 0 = true ↔ skip t = [] := by
  unfold ParseBuffer.at?
  rw [rest_bufferAt h]
  cases hs : skip t with
  | nil => simp
  | cons c u =>
      have hc : ¬ (c ≤ 32 : Bool) = true := by
        intro hle
        have hfix := skip_skip t
        rw [hs, show skip (c :: u) = skip u from List.dropWhile_cons_of_pos hle] at hfix
        have := skip_length_le u
        rw [hfix, List.length_cons] at this
        omega
      have hne : c ≠ 0 := by
        rintro rfl
        exact hc (by decide)
      simp [hne]

/-- **What `cJSON_ParseWithOpts` reads.** It returns an item if and only if the text begins
with one, and then that item and where it ends. Otherwise it reports a position in the text.
No byte behind the terminator is read, and nothing is written behind the memory that has been
allocated. -/
theorem parseWithOpts_iff (libc : Libc D) {value : List UInt8} (hvalue : 0 ∈ value)
    (requireNullTerminated : Bool) :
    (∀ item parseEnd, parseWithOpts libc value requireNullTerminated = .item item parseEnd ↔
      ∃ r, Value libc 0 (start value) item r ∧
        if requireNullTerminated then skip r = [] ∧ parseEnd = (textOf value).length
        else parseEnd = (textOf value).length - r.length) ∧
    ((∃ item parseEnd, parseWithOpts libc value requireNullTerminated = .item item parseEnd) ∨
      ∃ position, parseWithOpts libc value requireNullTerminated = .error position ∧
        position ≤ (textOf value).length) := by
  have hin : Within (textOf value ++ [0]) (withoutBom (textOf value)) :=
    Within.of_suffix List.suffix_rfl (withoutBom_suffix _)
  have hstart : Within (textOf value ++ [0]) (start value) := hin.skip
  have hlen := hstart.length
  rw [List.length_append, List.length_singleton] at hlen
  have hparses : Parses (textOf value ++ [0]) 0 (start value).length (Value libc 0 (start value))
      (parseValue libc (textOf value ++ [0]).length
        (bufferAt (textOf value ++ [0]) 0 (start value))) :=
    parseValue_parses (by simp; omega) hstart
  have hrun : parseWithOpts libc value requireNullTerminated =
      (parseValue libc (textOf value ++ [0]).length
        (bufferAt (textOf value ++ [0]) 0 (start value))).parsed requireNullTerminated := by
    unfold parseWithOpts
    rw [if_pos hvalue]
    simp only
    rw [show value.takeWhile (· != 0) = textOf value from rfl, skipUtf8Bom_bufferAt,
      bufferSkipWhitespace_bufferAt hin]
    rfl
  rw [hrun]
  generalize parseValue libc (textOf value ++ [0]).length
    (bufferAt (textOf value ++ [0]) 0 (start value)) = o at hparses
  cases hparses with
  | @fail b hnot hb =>
      obtain ⟨position, herr, hle⟩ := failAt_le (D := D) hb
      simp only [Outcome.parsed, herr]
      refine ⟨fun item parseEnd => ⟨fun h => (by cases h), ?_⟩, Or.inr ⟨position, rfl, hle⟩⟩
      rintro ⟨r, hr, -⟩
      exact absurd hr (hnot item r)
  | @ok a r hr hlt ha hu =>
      have hoffset : ∀ u : List UInt8, (bufferAt (textOf value ++ [0]) 0 u).offset
          = (textOf value).length - u.length := by
        intro u
        simp [bufferAt]
      -- there is no other item
      have hitem : ∀ item (P : List UInt8 → Prop),
          (∃ r', Value libc 0 (start value) item r' ∧ P r') ↔ item = a ∧ P r := by
        intro item P
        constructor
        · rintro ⟨r', hr', hP⟩
          obtain ⟨rfl, rfl⟩ := hu item r' hr'
          exact ⟨rfl, hP⟩
        · rintro ⟨rfl, hP⟩
          exact ⟨r, ha, hP⟩
      simp only [Outcome.parsed, hitem, hoffset]
      cases requireNullTerminated with
      | false =>
          simp only [Bool.false_eq_true, if_false]
          refine ⟨fun item parseEnd => ?_, Or.inl ⟨a, _, rfl⟩⟩
          constructor
          · intro h
            cases h
            exact ⟨rfl, rfl⟩
          · rintro ⟨rfl, rfl⟩
            rfl
      | true =>
          simp only [if_true]
          rw [bufferSkipWhitespace_bufferAt hr]
          by_cases hend : skip r = []
          · have hat := (atEnd_bufferAt (d := 0) hr.skip).mpr hend
            rw [hat, hoffset, hend]
            simp only [Bool.not_true, Bool.false_eq_true, if_false]
            refine ⟨fun item parseEnd => ?_, Or.inl ⟨a, _, rfl⟩⟩
            constructor
            · intro h
              cases h
              exact ⟨rfl, trivial, by simp⟩
            · rintro ⟨rfl, -, rfl⟩
              simp
          · have hat : (bufferAt (textOf value ++ [0]) 0 (skip r)).at? 0 = false := by
              rw [← Bool.not_eq_true, atEnd_bufferAt hr.skip]
              exact hend
            obtain ⟨position, herr, hle⟩ := failAt_le (D := D)
              (b := bufferAt (textOf value ++ [0]) 0 (skip r)) rfl
            rw [hat]
            simp only [Bool.not_false, if_true, herr]
            refine ⟨fun item parseEnd => ⟨fun h => (by cases h), ?_⟩,
              Or.inr ⟨position, rfl, hle⟩⟩
            rintro ⟨-, h, -⟩
            exact absurd h hend

end Parse

/-! ## What follows a document -/

section Append

variable {t r u : List UInt8} {x : Item D}

/-- What is left behind an item is shorter. -/
theorem Value.length_lt (h : Value libc d t x r) : r.length < t.length := by
  have hparses : Parses (t ++ [0]) d t.length (Value libc d t)
      (parseValue libc (t.length + 1) (bufferAt (t ++ [0]) d t)) :=
    parseValue_parses (Nat.lt_succ_self _) List.suffix_rfl
  generalize parseValue libc (t.length + 1) (bufferAt (t ++ [0]) d t) = o at hparses
  cases hparses with
  | ok hr hlt ha hu =>
      obtain ⟨rfl, rfl⟩ := hu x r h
      exact hlt
  | fail hnot => exact absurd h (hnot x r)

theorem skip_append (h : skip t ≠ []) (y : List UInt8) : skip (t ++ y) = skip t ++ y := by
  unfold skip at h ⊢
  rw [List.dropWhile_append]
  cases hd : t.dropWhile (· ≤ 32) with
  | nil => exact absurd hd h
  | cons c v => rfl

theorem skip_append_cons {c : UInt8} (h : skip u = c :: r) (y : List UInt8) :
    skip (u ++ y) = c :: (r ++ y) := by
  rw [skip_append (by rw [h]; simp), h]
  rfl

/-- Something in the text ends a number. -/
def EndsNumber (t : List UInt8) : Prop := ∃ c ∈ t, isNumberChar c = false

theorem EndsNumber.of_suffix (h : EndsNumber r) (hr : r <:+ t) : EndsNumber t := by
  obtain ⟨c, hc, hnot⟩ := h
  exact ⟨c, hr.subset hc, hnot⟩

theorem endsNumber_of_skip {c : UInt8} (h : skip u = c :: r) (hc : isNumberChar c = false) :
    EndsNumber u :=
  EndsNumber.of_suffix ⟨c, List.mem_cons_self, hc⟩ (h ▸ skip_suffix u)

theorem EndsNumber.takeWhile_append (h : EndsNumber t) (y : List UInt8) :
    (t ++ y).takeWhile isNumberChar = t.takeWhile isNumberChar := by
  rw [List.takeWhile_append, if_neg]
  intro hlen
  have hall : t.takeWhile isNumberChar = t := (List.takeWhile_prefix _).eq_of_length hlen
  obtain ⟨c, hc, hnot⟩ := h
  rw [← hall] at hc
  rw [List.mem_takeWhile_imp hc] at hnot
  cases hnot

theorem IsString.append {s : List UInt8} (h : IsString t s r) (y : List UInt8) :
    IsString (t ++ y) s (r ++ y) := by
  obtain ⟨body, k, hs⟩ := h
  refine ⟨body, k, ?_, hs.closed, hs.unescaped⟩
  rw [hs.text]
  simp

theorem IsString.length_lt {s : List UInt8} (h : IsString t s r) : r.length < t.length := by
  obtain ⟨body, k, hs⟩ := h
  rw [hs.text]
  simp
  omega

theorem IsString.ne_nil {s : List UInt8} (h : IsString t s r) : t ≠ [] := by
  obtain ⟨body, k, hs⟩ := h
  rw [hs.text]
  simp

theorem IsNumber.append {n : D} (h : IsNumber libc t n r) (hr : EndsNumber r)
    (y : List UInt8) : IsNumber libc (t ++ y) n (r ++ y) := by
  have hsuffix : r <:+ t := h.rest ▸ List.drop_suffix _ _
  have hsame := (hr.of_suffix hsuffix).takeWhile_append y
  have hle := libc.strtod_le ((t.takeWhile isNumberChar).take 63)
  have htake := (List.takeWhile_prefix isNumberChar (l := t)).length_le
  rw [List.length_take] at hle
  constructor
  · cases t with
    | nil => simpa using h.first
    | cons c t => exact h.first
  · rw [hsame]
    exact h.read
  · rw [hsame]
    exact h.length
  · rw [hsame, List.drop_append_of_le_length (by omega), ← h.rest]

/-- The item is no number, or something behind it shows where it ends. -/
def Delimited (x : Item D) (r : List UInt8) : Prop :=
  match x with
  | .number _ => EndsNumber r
  | _ => True

theorem Value.skip_ne_nil (h : Value libc d (skip t) x r) : skip t ≠ [] := by
  obtain ⟨c, u, hc, -⟩ := h.first
  rw [hc]
  simp

/-- What is read in `t` is read in a longer text. -/
structure Appendable (libc : Libc D) (d : Nat) (t : List UInt8) : Prop where
  value : ∀ x r y, Value libc d t x r → Delimited x r → Value libc d (t ++ y) x (r ++ y)
  elements : ∀ xs r y, Elements libc d t xs r → Elements libc d (t ++ y) xs (r ++ y)
  members : ∀ xs r y, Members libc d t xs r → Members libc d (t ++ y) xs (r ++ y)

theorem Value.append_of_shorter (hshort : ∀ d u, u.length < t.length → Appendable libc d u)
    (h : Value libc d t x r) (hx : Delimited x r) (y : List UInt8) :
    Value libc d (t ++ y) x (r ++ y) := by
  cases h with
  | null | false | true =>
      rw [List.append_assoc]
      constructor
  | string h => exact .string (h.append y)
  | number h => exact .number (h.append hx y)
  | emptyArray hd h => exact .emptyArray hd (skip_append_cons h y)
  | array hd h => exact .array hd ((hshort _ _ (Nat.lt_succ_self _)).elements _ _ y h)
  | emptyObject hd h => exact .emptyObject hd (skip_append_cons h y)
  | object hd h => exact .object hd ((hshort _ _ (Nat.lt_succ_self _)).members _ _ y h)

/-- The same behind blanks, where a character follows that no number has. -/
theorem Value.append_of_skip (hshort : ∀ d u, u.length < t.length → Appendable libc d u)
    (h : Value libc d (skip t) x u) (hu : EndsNumber u) (y : List UInt8) :
    Value libc d (skip (t ++ y)) x (u ++ y) := by
  have hle := skip_length_le t
  rw [skip_append h.skip_ne_nil]
  refine Value.append_of_shorter (fun d v hv => hshort d v (by omega)) h ?_ y
  cases x <;> first | exact hu | trivial

theorem Tail.append {α : Type} {close : UInt8} {item : α} {xs : List α}
    {R : List UInt8 → List α → List UInt8 → Prop} (h : Tail close item R u xs r)
    (y : List UInt8)
    (hR : ∀ v xs, skip u = comma :: v → R v xs r → R (v ++ y) xs (r ++ y)) :
    Tail close item R (u ++ y) xs (r ++ y) := by
  rcases h with ⟨r', hu, rfl, rfl⟩ | ⟨v, xs', hu, hv, rfl⟩
  · exact Or.inl ⟨_, skip_append_cons hu y, rfl, rfl⟩
  · exact Or.inr ⟨_, xs', skip_append_cons hu y, hR v xs' hu hv, rfl⟩

/-- A comma or the closing bracket ends a number. -/
theorem Tail.endsNumber {α : Type} {close : UInt8} {item : α} {xs : List α}
    {R : List UInt8 → List α → List UInt8 → Prop} (h : Tail close item R u xs r)
    (hclose : isNumberChar close = false) : EndsNumber u := by
  rcases h with ⟨r', hu, -⟩ | ⟨v, xs', hu, -⟩
  · exact endsNumber_of_skip hu hclose
  · exact endsNumber_of_skip hu (by decide)

/-- **Items do not depend on what follows them.** The induction is on the length of the
text: an item is read behind blanks, the items of an array behind its bracket. -/
theorem appendable (libc : Libc D) (d : Nat) (t : List UInt8) : Appendable libc d t := by
  induction hn : t.length using Nat.strong_induction_on generalizing d t with
  | _ n ih =>
      subst hn
      have hshort : ∀ d u, u.length < t.length → Appendable libc d u :=
        fun d u hu => ih _ hu d u rfl
      have hskip := skip_length_le t
      refine ⟨fun x r y h hx => h.append_of_shorter hshort hx y, fun xs r y h => ?_,
        fun xs r y h => ?_⟩
      · obtain ⟨x, u, hx, htail⟩ := elements_iff.mp h
        have hlt := hx.length_lt
        have hx' := hx.append_of_skip hshort (htail.endsNumber (by decide)) y
        refine elements_iff.mpr ⟨x, u ++ y, hx', htail.append y fun v xs hv h => ?_⟩
        have hle := skip_length_le u
        rw [hv, List.length_cons] at hle
        exact (hshort d v (by omega)).elements xs r y h
      · obtain ⟨s, u, hs, v, hu, x, w, hx, htail⟩ := members_iff.mp h
        have hlt := hs.length_lt
        have hle := skip_length_le u
        rw [hu, List.length_cons] at hle
        have hvskip := skip_length_le v
        have hwlt := hx.length_lt
        have hs' : IsString (skip (t ++ y)) s (u ++ y) := by
          rw [skip_append hs.ne_nil]
          exact hs.append y
        have hx' := hx.append_of_skip (fun d z hz => hshort d z (by omega))
          (htail.endsNumber (by decide)) y
        refine members_iff.mpr ⟨s, u ++ y, hs', v ++ y, skip_append_cons hu y, x, w ++ y, hx',
          htail.append y fun z xs hz h => ?_⟩
        have hle' := skip_length_le w
        rw [hz, List.length_cons] at hle'
        exact (hshort d z (by omega)).members xs r y h

theorem textOf_append {doc : List UInt8} (hdoc : (0 : UInt8) ∉ doc) (z : List UInt8) :
    textOf (doc ++ z) = doc ++ textOf z := by
  unfold textOf
  exact List.takeWhile_append_of_pos fun c hc => by
    have : c ≠ 0 := fun h => hdoc (h ▸ hc)
    simpa using this

/-- Nothing that begins with the byte order mark but for the last bytes of it is an item. -/
theorem withoutBom_append {doc : List UInt8}
    (h : Value libc d (skip (withoutBom doc)) x r) (z : List UInt8) :
    withoutBom (doc ++ z) = withoutBom doc ++ z := by
  unfold withoutBom at h ⊢
  by_cases hlen : 4 ≤ doc.length
  · have hmark : [0xEF, 0xBB, 0xBF] <+: doc ++ z ↔ [0xEF, 0xBB, 0xBF] <+: doc := by
      constructor
      · exact fun hp => List.prefix_of_prefix_length_le hp (List.prefix_append _ _)
          (by simp; omega)
      · exact fun hp => hp.trans (List.prefix_append _ _)
    by_cases hp : [0xEF, 0xBB, 0xBF] <+: doc
    · rw [if_pos ⟨by simp; omega, hmark.mpr hp⟩, if_pos ⟨hlen, hp⟩,
        List.drop_append_of_le_length (by omega)]
    · rw [if_neg fun hb => hp (hmark.mp hb.2), if_neg fun hb => hp hb.2]
  · rw [if_neg fun hb => hlen hb.1] at h
    rw [if_neg fun hb : 4 ≤ doc.length ∧ _ => hlen hb.1, if_neg]
    rintro ⟨-, hp⟩
    cases doc with
    | nil => exact h.skip_ne_nil rfl
    | cons c doc =>
        obtain ⟨z', hz⟩ := hp
        obtain rfl : (0xEF : UInt8) = c := (List.cons.inj hz).1
        rw [show skip ((0xEF : UInt8) :: doc) = 0xEF :: doc from
          List.dropWhile_cons_of_neg (by decide), value_cons_iff] at h
        obtain ⟨k, hk, -⟩ := h
        cases hk

/-- **What stands behind a document does not matter**, a terminator apart. `ParseConfig` puts
none behind what it has read. -/
theorem parse_append {doc : List UInt8} (hdoc : (0 : UInt8) ∉ doc) {parseEnd : Nat}
    (h : parse libc (doc ++ [0]) = .item x parseEnd) (hx : ∀ n, x ≠ .number n)
    {z : List UInt8} (hz : 0 ∈ z) : parse libc (doc ++ z) = .item x parseEnd := by
  obtain ⟨r, hr, hend⟩ := ((parseWithOpts_iff libc (by simp) false).1 _ _).mp h
  refine ((parseWithOpts_iff libc (List.mem_append_right _ hz) false).1 _ _).mpr
    ⟨r ++ textOf z, ?_, ?_⟩
  · unfold start at hr ⊢
    rw [textOf_append hdoc, show textOf [0] = [] from rfl, List.append_nil] at hr
    rw [textOf_append hdoc, withoutBom_append hr, skip_append hr.skip_ne_nil]
    refine (appendable libc 0 _).value _ _ _ hr ?_
    cases x <;> first | exact absurd rfl (hx _) | trivial
  · simp only [Bool.false_eq_true, if_false] at hend ⊢
    rw [hend, textOf_append hdoc, textOf_append hdoc, show textOf [0] = [] from rfl]
    simp only [List.append_nil, List.length_append]
    omega

end Append

end LteUlp.Json
