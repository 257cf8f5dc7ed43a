import Mathlib.Tactic

set_option autoImplicit false

/-! # Words made of fields

A word has fields of bits. `word` puts the values of fields at their positions, by "or", and
`read` takes a field out again. Fields that are apart are read as they were written
(`read_word`), and a word with no bit set outside of its fields is made of what is read from
it (`word_read`). `row` lays fields out one behind the other, the most significant one first.
-/

namespace BitFields

/-- A field: the position of its lowest bit, its width, and its value. -/
structure Field where
  pos : Nat
  width : Nat
  value : Nat

/-- The bits of a field. -/
def Field.Covers (f : Field) (i : Nat) : Prop := f.pos ≤ i ∧ i < f.pos + f.width

/-- Two fields without a common bit. -/
def Apart (f g : Field) : Prop := g.pos + g.width ≤ f.pos ∨ f.pos + f.width ≤ g.pos

/-- A field is added to a word. -/
def add (n : Nat) (f : Field) : Nat := n ||| (f.value % 2 ^ f.width) <<< f.pos

/-- The word of fields. -/
def word (l : List Field) : Nat := l.foldl add 0

/-- The value of a field. -/
def read (n pos width : Nat) : Nat := n / 2 ^ pos % 2 ^ width

/-- Fields with these widths and values, one behind the other below the bit `top`. -/
def row : Nat → List (Nat × Nat) → List Field
  | _, [] => []
  | top, (w, v) :: l => ⟨top - w, w, v⟩ :: row (top - w) l

/-- The number of bits of a row. -/
def rowWidth (l : List (Nat × Nat)) : Nat := (l.map Prod.fst).sum

variable {f g : Field} {l : List Field} {n i top : Nat} {r : List (Nat × Nat)}

/-! ## Bits -/

theorem testBit_add : (add n f).testBit i = true ↔
    n.testBit i = true ∨ f.Covers i ∧ f.value.testBit (i - f.pos) = true := by
  unfold add Field.Covers
  rw [Nat.testBit_or, Nat.testBit_shiftLeft, Nat.testBit_mod_two_pow, Bool.or_eq_true,
    Bool.and_eq_true, Bool.and_eq_true, decide_eq_true_eq, decide_eq_true_eq]
  refine or_congr_right ⟨fun ⟨hle, hlt, hb⟩ => ⟨⟨hle, by omega⟩, hb⟩, ?_⟩
  rintro ⟨⟨hle, hlt⟩, hb⟩
  exact ⟨hle, by omega, hb⟩

theorem testBit_foldl_add (l : List Field) (n i : Nat) : (l.foldl add n).testBit i = true ↔
    n.testBit i = true ∨ ∃ f ∈ l, f.Covers i ∧ f.value.testBit (i - f.pos) = true := by
  induction l generalizing n with
  | nil => simp
  | cons f l ih =>
      rw [List.foldl_cons, ih, testBit_add, or_assoc]
      refine or_congr_right ?_
      simp only [List.mem_cons, exists_eq_or_imp]

theorem testBit_word : (word l).testBit i = true ↔
    ∃ f ∈ l, f.Covers i ∧ f.value.testBit (i - f.pos) = true := by
  unfold word
  rw [testBit_foldl_add, Nat.zero_testBit]
  simp

theorem testBit_read {pos width : Nat} :
    (read n pos width).testBit i = (decide (i < width) && n.testBit (pos + i)) := by
  rw [read, Nat.testBit_mod_two_pow, Nat.testBit_div_two_pow, Nat.add_comm]

/-! ## Reading -/

theorem Apart.not_covers (h : Apart f g) (hf : f.Covers i) : ¬g.Covers i := by
  unfold Apart Field.Covers at *
  omega

/-- **A field is read as it was written.** -/
theorem read_word (hl : l.Pairwise Apart) (hf : f ∈ l) :
    read (word l) f.pos f.width = f.value % 2 ^ f.width := by
  apply Nat.eq_of_testBit_eq
  intro i
  rw [testBit_read, Nat.testBit_mod_two_pow]
  by_cases hi : i < f.width
  · have hcov : f.Covers (f.pos + i) := ⟨Nat.le_add_right _ _, by omega⟩
    have hbit : (word l).testBit (f.pos + i) = true ↔ f.value.testBit i = true := by
      rw [testBit_word]
      constructor
      · rintro ⟨g, hg, hgcov, hgbit⟩
        have hgf : g = f := by
          by_contra hne
          have hsymm : Std.Symm Apart := ⟨fun a b h => h.symm⟩
          exact (hl.forall hg hf hne).not_covers hgcov hcov
        rw [hgf, Nat.add_sub_cancel_left] at hgbit
        exact hgbit
      · intro hv
        exact ⟨f, hf, hcov, by rwa [Nat.add_sub_cancel_left]⟩
    rw [Bool.eq_iff_iff.mpr hbit]
  · rw [decide_eq_false hi, Bool.false_and, Bool.false_and]

/-- **A word is made of what is read from it** if no other bit is set. -/
theorem word_read (hread : ∀ f ∈ l, read n f.pos f.width = f.value)
    (hout : ∀ i, n.testBit i = true → ∃ f ∈ l, f.Covers i) : word l = n := by
  have hbit : ∀ f ∈ l, ∀ i, f.Covers i → f.value.testBit (i - f.pos) = n.testBit i := by
    intro f hf i ⟨hle, hlt⟩
    have hi : i - f.pos < f.width := by omega
    rw [← hread f hf, testBit_read, decide_eq_true hi, Bool.true_and, Nat.add_sub_cancel' hle]
  apply Nat.eq_of_testBit_eq
  intro i
  rw [Bool.eq_iff_iff, testBit_word]
  constructor
  · rintro ⟨f, hf, hcov, hb⟩
    rwa [hbit f hf i hcov] at hb
  · intro hn
    obtain ⟨f, hf, hcov⟩ := hout i hn
    exact ⟨f, hf, hcov, by rwa [hbit f hf i hcov]⟩

/-! ## Rows -/

@[simp] theorem rowWidth_cons (w v : Nat) (r : List (Nat × Nat)) :
    rowWidth ((w, v) :: r) = w + rowWidth r := by
  rw [rowWidth, List.map_cons, List.sum_cons, rowWidth]

@[simp] theorem rowWidth_nil : rowWidth [] = 0 := rfl

theorem row_append (top : Nat) (r r' : List (Nat × Nat)) :
    row top (r ++ r') = row top r ++ row (top - rowWidth r) r' := by
  induction r generalizing top with
  | nil => rfl
  | cons x r ih =>
      obtain ⟨w, v⟩ := x
      rw [List.cons_append, row, row, ih, rowWidth_cons, Nat.sub_add_eq, List.cons_append]

theorem mem_row (hf : f ∈ row top r) : (f.width, f.value) ∈ r := by
  induction r generalizing top with
  | nil => cases hf
  | cons x r ih =>
      obtain ⟨w, v⟩ := x
      rcases List.mem_cons.mp hf with rfl | hf
      · exact List.mem_cons_self
      · exact List.mem_cons_of_mem _ (ih hf)

/-- What is read by the widths of a row is all there is to know about it. -/
theorem row_unique {r' : List (Nat × Nat)} (hw : r.map Prod.fst = r'.map Prod.fst)
    (h : ∀ f ∈ row top r, read n f.pos f.width = f.value)
    (h' : ∀ f ∈ row top r', read n f.pos f.width = f.value) : r = r' := by
  induction r generalizing top r' with
  | nil =>
      rw [List.map_nil, eq_comm, List.map_eq_nil_iff] at hw
      exact hw.symm
  | cons x r ih =>
      obtain ⟨w, v⟩ := x
      cases r' with
      | nil => cases hw
      | cons x' r' =>
          obtain ⟨w', v'⟩ := x'
          rw [List.map_cons, List.map_cons, List.cons.injEq] at hw
          obtain ⟨rfl, hw⟩ := hw
          have hv : read n (top - w) w = v := h ⟨top - w, w, v⟩ List.mem_cons_self
          have hv' : read n (top - w) w = v' := h' ⟨top - w, w, v'⟩ List.mem_cons_self
          rw [hv] at hv'
          rw [hv', ih hw (fun f hf => h f (List.mem_cons_of_mem _ hf))
            fun f hf => h' f (List.mem_cons_of_mem _ hf)]

theorem row_within (h : rowWidth r ≤ top) (hf : f ∈ row top r) :
    top - rowWidth r ≤ f.pos ∧ f.pos + f.width ≤ top := by
  induction r generalizing top with
  | nil => cases hf
  | cons x r ih =>
      obtain ⟨w, v⟩ := x
      rw [rowWidth_cons] at h ⊢
      rcases List.mem_cons.mp hf with rfl | hf
      · show top - (w + rowWidth r) ≤ top - w ∧ top - w + w ≤ top
        omega
      · obtain ⟨h1, h2⟩ := @ih (top - w) (by omega) hf
        omega

theorem row_apart (h : rowWidth r ≤ top) : (row top r).Pairwise Apart := by
  induction r generalizing top with
  | nil => exact List.Pairwise.nil
  | cons x r ih =>
      obtain ⟨w, v⟩ := x
      rw [rowWidth_cons] at h
      refine List.pairwise_cons.mpr ⟨fun g hg => Or.inl ?_, ih (by omega)⟩
      exact (row_within (by omega) hg).2

/-- A row has no gaps. -/
theorem row_covers (h : rowWidth r ≤ top) (hlo : top - rowWidth r ≤ i) (hhi : i < top) :
    ∃ f ∈ row top r, f.Covers i := by
  induction r generalizing top with
  | nil =>
      rw [rowWidth, List.map_nil, List.sum_nil] at hlo
      omega
  | cons x r ih =>
      obtain ⟨w, v⟩ := x
      rw [rowWidth_cons] at h hlo
      by_cases hi : top - w ≤ i
      · refine ⟨⟨top - w, w, v⟩, List.mem_cons_self, hi, ?_⟩
        show i < top - w + w
        omega
      · obtain ⟨f, hf, hcov⟩ := @ih (top - w) (by omega) (by omega) (by omega)
        exact ⟨f, List.mem_cons_of_mem _ hf, hcov⟩

/-! ## Words of rows -/

/-- In the number, the fields are apart and below the bit `top`, each has its value, and no
other bit is set. -/
structure Laid (top n : Nat) (l : List Field) : Prop where
  within : ∀ f ∈ l, f.pos + f.width ≤ top
  apart : l.Pairwise Apart
  holds : ∀ f ∈ l, read n f.pos f.width = f.value
  covered : ∀ i, n.testBit i = true → ∃ f ∈ l, f.Covers i

theorem Laid.lt (h : Laid top n l) : n < 2 ^ top := by
  apply Nat.lt_pow_two_of_testBit
  intro i hi
  by_contra hne
  obtain ⟨f, hf, -, hlt⟩ := h.covered i (by simpa using hne)
  have := h.within f hf
  omega

theorem word_row (hr : ∀ x ∈ r, x.2 < 2 ^ x.1) (h : rowWidth r ≤ top) :
    Laid top (word (row top r)) (row top r) where
  within f hf := (row_within h hf).2
  apart := row_apart h
  holds f hf := by
    rw [read_word (row_apart h) hf]
    exact Nat.mod_eq_of_lt (hr _ (mem_row hf))
  covered i hi := by
    obtain ⟨f, hf, hcov, -⟩ := testBit_word.mp hi
    exact ⟨f, hf, hcov⟩

end BitFields
