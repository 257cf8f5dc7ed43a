import LteUlp.Basic.Reads

set_option autoImplicit false

/-! # Optional elements with tags

A message ends with elements that may each be left out, in a fixed order, and each begins with
an octet that has its tag. A reader compares the tag of the octet under its cursor with the
element whose turn it is, and either takes the element there or leaves it out. `Recognised`
says that it is right about every element. If each element is read as it was written and the
tags are different, then this depends on the octet behind the message only
(`recognised_iff`).
-/

namespace ByteString

/-- An element: its tag, its octets if the message has it, where a reader goes on behind it
and whether what the reader takes from there is what was written. -/
structure Element (τ : Type) where
  tag : τ
  octets : Option (List UInt8)
  next : (Nat → UInt8) → Nat → Nat
  Right : (Nat → UInt8) → Nat → Prop

section Elements

variable {τ : Type}

/-- The octets of the elements that are there. -/
def encoding : List (Element τ) → List UInt8
  | [] => []
  | e :: es => e.octets.getD [] ++ encoding es

/-- None of the elements is there. -/
def AllAbsent : List (Element τ) → Prop
  | [] => True
  | e :: es => e.octets = none ∧ AllAbsent es

/-- The element begins with its tag. -/
def Element.Tagged (tagOf : UInt8 → τ) (e : Element τ) : Prop :=
  ∀ l, e.octets = some l → ∃ b rest, l = b :: rest ∧ tagOf b = e.tag

/-- The element begins with its tag and is read as it was written. -/
structure Element.Sound (tagOf : UInt8 → τ) (e : Element τ) : Prop where
  tagged : e.Tagged tagOf
  right : ∀ l, e.octets = some l → ∀ m p, Reads m p l → e.Right m p
  next : ∀ l, e.octets = some l → ∀ m p, Reads m p l → e.next m p = p + l.length

/-- The octet has not the tag of an element behind the last one that is there. -/
def Behind (tagOf : UInt8 → τ) (b : UInt8) : List (Element τ) → Prop
  | [] => True
  | e :: es => (AllAbsent (e :: es) → tagOf b ≠ e.tag) ∧ Behind tagOf b es

variable {tagOf : UInt8 → τ} {m : Nat → UInt8} {p : Nat} {e : Element τ}
  {es cs : List (Element τ)} {l : List UInt8}

/-! ## The octets -/

theorem encoding_cons_some (he : e.octets = some l) : encoding (e :: es) = l ++ encoding es := by
  rw [encoding, he, Option.getD_some]

theorem encoding_cons_none (he : e.octets = none) : encoding (e :: es) = encoding es := by
  rw [encoding, he, Option.getD_none, List.nil_append]

theorem encoding_append (es cs : List (Element τ)) :
    encoding (es ++ cs) = encoding es ++ encoding cs := by
  induction es with
  | nil => rfl
  | cons e es ih => rw [List.cons_append, encoding, encoding, ih, List.append_assoc]

theorem AllAbsent.encoding_eq (h : AllAbsent es) : encoding es = [] := by
  induction es with
  | nil => rfl
  | cons e es ih =>
      obtain ⟨he, hes⟩ := h
      rw [encoding_cons_none he, ih hes]

/-- An element that is left out is sound. -/
theorem Element.sound_of_absent (h : e.octets = none) : e.Sound tagOf := by
  refine ⟨?_, ?_, ?_⟩ <;>
  · intro l hl
    rw [h] at hl
    cases hl

/-- Where the elements begin, there is the tag of one of them, unless all are left out. -/
theorem exists_first_tag (hs : ∀ e ∈ es, e.Tagged tagOf) (hne : ¬AllAbsent es)
    (hr : Reads m p (encoding es)) : ∃ e ∈ es, tagOf (m p) = e.tag := by
  induction es with
  | nil => exact absurd trivial hne
  | cons e es ih =>
      obtain ⟨hse, hses⟩ := List.forall_mem_cons.mp hs
      cases he : e.octets with
      | some l =>
          obtain ⟨b, rest, rfl, hb⟩ := hse l he
          rw [encoding_cons_some he] at hr
          exact ⟨e, List.mem_cons_self, by rw [hr.left.head, hb]⟩
      | none =>
          rw [encoding_cons_none he] at hr
          obtain ⟨e', he', htag⟩ := ih hses (fun h => hne ⟨he, h⟩) hr
          exact ⟨e', List.mem_cons_of_mem e he', htag⟩

/-! ## The reader -/

variable [DecidableEq τ]

/-- Where the reader is after the turn of the element. -/
def Element.after (tagOf : UInt8 → τ) (e : Element τ) (m : Nat → UInt8) (p : Nat) : Nat :=
  if tagOf (m p) = e.tag then e.next m p else p

/-- The reader is right about the element: it takes it if it is there, with what was written,
and leaves it out otherwise. -/
def Element.RightAt (tagOf : UInt8 → τ) (e : Element τ) (m : Nat → UInt8) (p : Nat) : Prop :=
  if tagOf (m p) = e.tag then e.octets.isSome ∧ e.Right m p else e.octets = none

/-- **The reader is right about all elements.** -/
def Recognised (tagOf : UInt8 → τ) : List (Element τ) → (Nat → UInt8) → Nat → Prop
  | [], _, _ => True
  | e :: es, m, p => e.RightAt tagOf m p ∧ Recognised tagOf es m (e.after tagOf m p)

/-- An element whose tag is found must be there and be read right. -/
theorem recognised_cons_of_tag (h : tagOf (m p) = e.tag) :
    Recognised tagOf (e :: es) m p
      ↔ (e.octets.isSome ∧ e.Right m p) ∧ Recognised tagOf es m (e.next m p) := by
  rw [Recognised, Element.RightAt, Element.after, if_pos h, if_pos h]

/-- An element whose tag is not found must not be there. -/
theorem recognised_cons_of_ne (h : tagOf (m p) ≠ e.tag) :
    Recognised tagOf (e :: es) m p ↔ e.octets = none ∧ Recognised tagOf es m p := by
  rw [Recognised, Element.RightAt, Element.after, if_neg h, if_neg h]

/-- A sound element that is there is taken, and the reader goes on behind it. -/
theorem Element.Sound.recognised_cons (h : e.Sound tagOf) (he : e.octets = some l)
    (hr : Reads m p l) :
    Recognised tagOf (e :: es) m p ↔ Recognised tagOf es m (p + l.length) := by
  obtain ⟨b, rest, rfl, hb⟩ := h.tagged l he
  have htag : tagOf (m p) = e.tag := by rw [hr.head, hb]
  rw [recognised_cons_of_tag htag, h.next _ he m p hr, he]
  exact and_iff_right ⟨rfl, h.right _ he m p hr⟩

/-- If all elements are left out, the reader must not take the octet for any of their tags. -/
theorem AllAbsent.recognised_iff (h : AllAbsent es) :
    Recognised tagOf es m p ↔ ∀ e ∈ es, tagOf (m p) ≠ e.tag := by
  induction es with
  | nil => exact ⟨fun _ _ he => absurd he List.not_mem_nil, fun _ => trivial⟩
  | cons e es ih =>
      obtain ⟨he, hes⟩ := h
      rw [List.forall_mem_cons]
      by_cases htag : tagOf (m p) = e.tag
      · rw [recognised_cons_of_tag htag, he]
        exact ⟨fun hr => absurd hr.1.1 (by simp), fun hr => absurd htag hr.1⟩
      · rw [recognised_cons_of_ne htag, ih hes]
        exact ⟨fun hr => ⟨htag, hr.2⟩, fun hr => ⟨he, hr.2⟩⟩

/-- If the octet has none of their tags, all elements must be left out. -/
theorem recognised_of_ne (h : ∀ e ∈ es, tagOf (m p) ≠ e.tag) :
    Recognised tagOf es m p ↔ AllAbsent es := by
  induction es with
  | nil => rfl
  | cons e es ih =>
      obtain ⟨he, hes⟩ := List.forall_mem_cons.mp h
      rw [recognised_cons_of_ne he, ih hes]
      rfl

/-- **Sound elements in front of others.** If what follows begins with another tag, then the
reader is right about the elements, and gets to what follows. -/
theorem recognised_append (hs : ∀ e ∈ es, e.Sound tagOf) (hnd : (es.map Element.tag).Nodup)
    (hr : Reads m p (encoding es))
    (hend : ∀ e ∈ es, tagOf (m (p + (encoding es).length)) ≠ e.tag) :
    Recognised tagOf (es ++ cs) m p ↔ Recognised tagOf cs m (p + (encoding es).length) := by
  induction es generalizing p with
  | nil => rfl
  | cons e es ih =>
      obtain ⟨hse, hses⟩ := List.forall_mem_cons.mp hs
      obtain ⟨hnot, hnd⟩ := List.nodup_cons.mp hnd
      obtain ⟨hende, hendes⟩ := List.forall_mem_cons.mp hend
      rw [List.cons_append]
      cases he : e.octets with
      | some l =>
          rw [encoding_cons_some he] at hr hendes ⊢
          rw [List.length_append, ← Nat.add_assoc] at hendes ⊢
          rw [hse.recognised_cons he hr.left, ih hses hnd hr.right hendes]
      | none =>
          rw [encoding_cons_none he] at hr hende hendes ⊢
          have htag : tagOf (m p) ≠ e.tag := by
            by_cases habs : AllAbsent es
            · rwa [habs.encoding_eq] at hende
            · obtain ⟨e', he', htag⟩ := exists_first_tag (fun e he => (hses e he).tagged) habs hr
              exact fun heq => hnot (List.mem_map.mpr ⟨e', he', htag.symm.trans heq⟩)
          rw [recognised_cons_of_ne htag, ih hses hnd hr hendes]
          exact and_iff_right he

/-- **Sound elements are recognised** if and only if the octet behind them is not taken for
an element that is left out at the end. -/
theorem recognised_iff (hs : ∀ e ∈ es, e.Sound tagOf) (hnd : (es.map Element.tag).Nodup)
    (hr : Reads m p (encoding es)) :
    Recognised tagOf es m p ↔ Behind tagOf (m (p + (encoding es).length)) es := by
  induction es generalizing p with
  | nil => rfl
  | cons e es ih =>
      obtain ⟨hse, hses⟩ := List.forall_mem_cons.mp hs
      obtain ⟨hnot, hnd⟩ := List.nodup_cons.mp hnd
      rw [Behind]
      cases he : e.octets with
      | some l =>
          have hpresent : ¬AllAbsent (e :: es) := fun h => by
            have := h.1
            rw [he] at this
            cases this
          rw [encoding_cons_some he] at hr ⊢
          rw [List.length_append, ← Nat.add_assoc, hse.recognised_cons he hr.left,
            ih hses hnd hr.right]
          exact (and_iff_right fun habs => absurd habs hpresent).symm
      | none =>
          rw [encoding_cons_none he] at hr ⊢
          by_cases habs : AllAbsent es
          · -- nothing is left, and the octet itself is compared with the tags
            have hall : AllAbsent (e :: es) := ⟨he, habs⟩
            rw [← ih hses hnd hr, hall.recognised_iff, habs.recognised_iff, habs.encoding_eq,
              List.forall_mem_cons]
            exact and_congr_left fun _ => ⟨fun h _ => h, fun h => h hall⟩
          · -- an element follows, and its tag is another one
            obtain ⟨e', he', htag'⟩ := exists_first_tag (fun e he => (hses e he).tagged) habs hr
            have htag : tagOf (m p) ≠ e.tag :=
              fun heq => hnot (List.mem_map.mpr ⟨e', he', htag'.symm.trans heq⟩)
            rw [recognised_cons_of_ne htag, ih hses hnd hr]
            exact and_congr_left fun _ =>
              ⟨fun _ h => absurd h.2 habs, fun _ => he⟩

end Elements

end ByteString
