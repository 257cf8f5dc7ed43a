import LteUlp.Basic.Printf
import LteUlp.Logger.Batch

set_option autoImplicit false

/-! # Messages that are formatted later

With asynchronous log type 2 a writer looks through the format of a message. It formats the
message at once when it finds a text, a `long` or more than six arguments; otherwise it stores
the format with as many `unsigned int` arguments as it has counted, and `ProcessLogQueue`
formats the message with six of them. The loop reads three bytes at each `%`: it takes the
format in groups, not in conversions. Here the formats for which this is right are described
exactly.
-/

namespace LteUlp.Logger

open Printf

/-! ## The loop over the format -/

/-- The variables of the loop, and the indices of the format that it has read. -/
structure Scan where
  n : Nat
  s : Bool
  ld : Bool
  reads : List Nat

/-- What has been read before. -/
def Scan.after (x : Scan) (reads : List Nat) : Scan := { x with reads := reads ++ x.reads }

/-- The test behind the loop: the message is formatted at once. -/
def Scan.formatted (x : Scan) : Bool := decide (maxLogArgsNum < x.n) || x.s || x.ld

/-- The loop of `LoggerWriteMsg`, from index `i` on with `n` arguments. `fmt` is the memory
from the beginning of the format on. -/
def scanLoop (fmt : Nat → UInt8) (length i n : Nat) : Scan :=
  if i < length then
    if fmt i = byte '%' then
      if maxLogArgsNum < n + 1 then ⟨n + 1, false, false, [i]⟩
      else if fmt (i + 1) = byte 's' then ⟨n + 1, true, false, [i, i + 1]⟩
      else if fmt (i + 2) = byte 'l' then ⟨n + 1, false, true, [i, i + 1, i + 2]⟩
      else (scanLoop fmt length (i + 3) (n + 1)).after [i, i + 1, i + 2]
    else (scanLoop fmt length (i + 1) n).after [i]
  else ⟨n, false, false, []⟩
termination_by length - i

/-- The memory holds a text and its terminator from index `i` on. -/
def Holds (mem : Nat → UInt8) (i : Nat) (s : List UInt8) : Prop :=
  ∀ k ≤ s.length, mem (i + k) = s.getD k 0

theorem Holds.head {mem : Nat → UInt8} {i : Nat} {b : UInt8} {s : List UInt8}
    (h : Holds mem i (b :: s)) : mem i = b := h 0 (Nat.zero_le _)

theorem Holds.tail {mem : Nat → UInt8} {i : Nat} {b : UInt8} {s : List UInt8}
    (h : Holds mem i (b :: s)) : Holds mem (i + 1) s := by
  intro k hk
  have := h (k + 1) (Nat.succ_le_succ hk)
  rwa [← Nat.add_assoc, Nat.add_right_comm] at this

theorem Holds.nil {mem : Nat → UInt8} {i : Nat} (h : Holds mem i []) : mem i = 0 :=
  h 0 (Nat.zero_le _)

/-! ## The groups of a format -/

/-- The groups that the loop takes: from left to right each `%` that is in no group yet, with
the two bytes behind it. The `%` itself is left out. -/
def groups : List UInt8 → List (List UInt8)
  | [] => []
  | b :: fmt =>
      if b = byte '%' then
        match fmt with
        | [] => [[]]
        | [c] => [[c]]
        | c :: d :: fmt => [c, d] :: groups fmt
      else groups fmt

-- behind `%d` the second `%` of `%%` is in the group of the first, and the third one is alone
example : groups (ascii ['%', 'd', '%', '%']) = [[byte 'd', byte '%'], []] := by decide

/-- The loop stops at a group: an `s` behind the `%`, or an `l` behind the next byte. -/
def Stops (group : List UInt8) : Prop :=
  group[0]? = some (byte 's') ∨ group[1]? = some (byte 'l')

instance (group : List UInt8) : Decidable (Stops group) :=
  inferInstanceAs (Decidable (_ ∨ _))

/-- The loop over the groups: the number of arguments, and whether to format at once. -/
def scanGroups : List (List UInt8) → Nat → Nat × Bool
  | [], n => (n, false)
  | group :: gs, n =>
      if maxLogArgsNum < n + 1 ∨ Stops group then (n + 1, true) else scanGroups gs (n + 1)

/-- The loop does not come to a `%` with nothing behind it. -/
def InBounds : List (List UInt8) → Nat → Prop
  | [], _ => True
  | group :: gs, n =>
      maxLogArgsNum < n + 1 ∨ Stops group ∨ (group ≠ [] ∧ InBounds gs (n + 1))

@[simp] theorem stops_nil : ¬ Stops [] := by
  unfold Stops
  simp

@[simp] theorem stops_single (c : UInt8) : Stops [c] ↔ c = byte 's' := by
  unfold Stops
  simp

@[simp] theorem stops_pair (c d : UInt8) : Stops [c, d] ↔ c = byte 's' ∨ d = byte 'l' := by
  unfold Stops
  simp

/-- The loop of the writer's model takes the format in groups. -/
theorem scanFormat_eq_groups (fmt : List UInt8) (n : Nat) :
    scanFormat fmt n = scanGroups (groups fmt) n := by
  have hs : UInt8.ofNat 's'.toNat = byte 's' := rfl
  have hl : UInt8.ofNat 'l'.toNat = byte 'l' := rfl
  have hp : UInt8.ofNat '%'.toNat = byte '%' := rfl
  fun_induction groups fmt generalizing n with
  | case1 => rfl
  | case2 =>
      unfold scanFormat scanGroups scanGroups
      simp only [hp, ne_eq, not_true, if_false, stops_nil, or_false]
  | case3 c =>
      unfold scanFormat scanGroups scanGroups
      simp only [hp, hs, ne_eq, not_true, if_false, stops_single]
      split_ifs <;> first | rfl | tauto
  | case4 c d fmt ih =>
      unfold scanFormat scanGroups
      simp only [hp, hs, hl, ne_eq, not_true, if_false, stops_pair, ih]
      split_ifs <;> first | rfl | tauto
  | case5 b fmt hb ih =>
      unfold scanFormat
      simp only [hp, ne_eq, hb, not_false_eq_true, if_true, ih]

theorem scanGroups_formatted_iff (gs : List (List UInt8)) {n : Nat} (hn : n ≤ maxLogArgsNum) :
    (scanGroups gs n).2 = false ↔
      n + gs.length ≤ maxLogArgsNum ∧ ∀ group ∈ gs, ¬ Stops group := by
  induction gs generalizing n with
  | nil =>
      refine iff_of_true rfl ⟨hn, fun group hg => absurd hg List.not_mem_nil⟩
  | cons group gs ih =>
      unfold scanGroups
      rw [List.forall_mem_cons, List.length_cons]
      split
      · rename_i hstop
        refine iff_of_false (Bool.noConfusion) fun h => ?_
        rcases hstop with hmax | hstop
        · omega
        · exact h.2.1 hstop
      · rename_i hgo
        rw [not_or] at hgo
        rw [ih (Nat.le_of_not_lt hgo.1)]
        constructor
        · intro h
          exact ⟨by omega, hgo.2, h.2⟩
        · intro h
          exact ⟨by omega, h.2.2⟩

theorem scanGroups_count {gs : List (List UInt8)} {n : Nat} (h : (scanGroups gs n).2 = false) :
    (scanGroups gs n).1 = n + gs.length := by
  induction gs generalizing n with
  | nil => rfl
  | cons group gs ih =>
      unfold scanGroups at h ⊢
      split at h
      · exact absurd h Bool.noConfusion
      · rename_i hgo
        rw [if_neg hgo, ih h, List.length_cons]
        omega

/-- A group without a byte is the last one. -/
theorem groups_nil_last (fmt : List UInt8) {gs gs' : List (List UInt8)}
    (h : groups fmt = gs ++ [] :: gs') : gs' = [] := by
  fun_induction groups fmt generalizing gs with
  | case1 => exact absurd h.symm (by simp)
  | case2 =>
      cases gs with
      | nil => exact (List.cons.inj h).2.symm
      | cons group gs => exact absurd (List.cons.inj h).2.symm (by simp)
  | case3 c =>
      cases gs with
      | nil => exact absurd (List.cons.inj h).1 (by simp)
      | cons group gs => exact absurd (List.cons.inj h).2.symm (by simp)
  | case4 c d fmt ih =>
      cases gs with
      | nil => exact absurd (List.cons.inj h).1 (by simp)
      | cons group gs => exact ih (List.cons.inj h).2
  | case5 b fmt hb ih => exact ih h

theorem inBounds_groups_iff (gs : List (List UInt8)) {n : Nat}
    (hlast : ∀ gs₁ gs₂, gs = gs₁ ++ [] :: gs₂ → gs₂ = []) :
    InBounds gs n ↔
      maxLogArgsNum < n + gs.length ∨ (∃ group ∈ gs, Stops group) ∨ [] ∉ gs := by
  induction gs generalizing n with
  | nil => simp [InBounds]
  | cons group gs ih =>
      unfold InBounds
      rw [ih fun gs₁ gs₂ h => hlast (group :: gs₁) gs₂ (by rw [h]; rfl)]
      rcases group with _ | ⟨c, group⟩
      · obtain rfl := hlast [] gs rfl
        simp
      · simp only [List.length_cons, List.mem_cons, exists_eq_or_imp, ne_eq, reduceCtorEq,
          not_false_eq_true, true_and, not_or]
        constructor
        · rintro (h | h | h | h | h)
          · exact Or.inl (by omega)
          · exact Or.inr (Or.inl (Or.inl h))
          · exact Or.inl (by omega)
          · exact Or.inr (Or.inl (Or.inr h))
          · exact Or.inr (Or.inr h)
        · rintro (h | (h | h) | h)
          · exact Or.inr (Or.inr (Or.inl (by omega)))
          · exact Or.inr (Or.inl h)
          · exact Or.inr (Or.inr (Or.inr (Or.inl h)))
          · exact Or.inr (Or.inr (Or.inr (Or.inr h)))

/-! ## What the loop reads -/

section Loop

variable {mem : Nat → UInt8} {length i n : Nat}

theorem scanLoop_end (h : length ≤ i) : scanLoop mem length i n = ⟨n, false, false, []⟩ := by
  rw [scanLoop, if_neg (Nat.not_lt_of_le h)]

theorem scanLoop_other (hi : i < length) (h : mem i ≠ byte '%') :
    scanLoop mem length i n = (scanLoop mem length (i + 1) n).after [i] := by
  rw [scanLoop, if_pos hi, if_neg h]

/-- A group that the loop stops at, when the group has a byte. -/
theorem scanLoop_percent (hi : i < length) (h : mem i = byte '%') :
    scanLoop mem length i n =
      if maxLogArgsNum < n + 1 then ⟨n + 1, false, false, [i]⟩
      else if mem (i + 1) = byte 's' then ⟨n + 1, true, false, [i, i + 1]⟩
      else if mem (i + 2) = byte 'l' then ⟨n + 1, false, true, [i, i + 1, i + 2]⟩
      else (scanLoop mem length (i + 3) (n + 1)).after [i, i + 1, i + 2] := by
  rw [scanLoop, if_pos hi, if_pos h]

/-- The loop stays in the format, up to the index `last` of the terminator, if and only if the
groups say so, and then it finds what the groups say. -/
structure Scan.Agrees (x : Scan) (last : Nat) (gs : List (List UInt8)) (n : Nat) : Prop where
  reads : (∀ k ∈ x.reads, k ≤ last) ↔ InBounds gs n
  result : InBounds gs n → n ≤ maxLogArgsNum → (x.n, x.formatted) = scanGroups gs n

/-- The loop stops at a group. -/
theorem Scan.Agrees.stop {group : List UInt8} {gs : List (List UInt8)} {x : Scan} {last : Nat}
    (hstop : maxLogArgsNum < n + 1 ∨ Stops group) (hn : x.n = n + 1)
    (hformatted : x.formatted = true) (hreads : ∀ k ∈ x.reads, k ≤ last) :
    x.Agrees last (group :: gs) n := by
  refine ⟨iff_of_true hreads (hstop.imp_right Or.inl), fun _ _ => ?_⟩
  unfold scanGroups
  rw [if_pos hstop, hn, hformatted]

/-- The loop goes on behind a group. -/
theorem Scan.Agrees.next {group : List UInt8} {gs : List (List UInt8)} {x : Scan} {last : Nat}
    {reads : List Nat} (h : x.Agrees last gs (n + 1)) (hmax : ¬ maxLogArgsNum < n + 1)
    (hstop : ¬ Stops group) (hgroup : group ≠ []) (hreads : ∀ k ∈ reads, k ≤ last) :
    (x.after reads).Agrees last (group :: gs) n := by
  have hbounds : InBounds (group :: gs) n ↔ InBounds gs (n + 1) := by
    show _ ∨ _ ∨ _ ↔ _
    rw [or_iff_right hmax, or_iff_right hstop, and_iff_right hgroup]
  refine ⟨?_, fun hin _ => ?_⟩
  · rw [hbounds, ← h.reads]
    exact List.forall_mem_append.trans (and_iff_right hreads)
  · unfold scanGroups
    rw [if_neg (not_or.mpr ⟨hmax, hstop⟩)]
    exact h.result (hbounds.mp hin) (Nat.le_of_not_lt hmax)

/-- What stops at the number of arguments. -/
theorem formatted_of_max (h : maxLogArgsNum < n) (s ld : Bool) (reads : List Nat) :
    (⟨n, s, ld, reads⟩ : Scan).formatted = true := by
  unfold Scan.formatted
  rw [decide_eq_true h]
  rfl

theorem agrees_nil {last : Nat} : (⟨n, false, false, []⟩ : Scan).Agrees last [] n := by
  refine ⟨iff_of_true (fun k hk => absurd hk List.not_mem_nil) trivial, fun _ hn => ?_⟩
  unfold Scan.formatted scanGroups
  rw [decide_eq_false (Nat.not_lt_of_le hn)]
  rfl

/-- **The loop reads the format only** if and only if it does not come to a `%` with nothing
behind it. Then it finds what the groups say. -/
theorem scanLoop_agrees {fmt : List UInt8} (h : Holds mem i fmt) :
    (scanLoop mem (i + fmt.length) i n).Agrees (i + fmt.length) (groups fmt) n := by
  fun_induction groups fmt generalizing i n with
  | case1 =>
      have hend : i + ([] : List UInt8).length ≤ i := Nat.le_refl i
      rw [scanLoop_end hend]
      exact agrees_nil
  | case2 =>
      rw [scanLoop_percent (by simp) h.head, h.tail.nil]
      by_cases hmax : maxLogArgsNum < n + 1
      · rw [if_pos hmax]
        exact .stop (Or.inl hmax) rfl (formatted_of_max hmax _ _ _) (by simp)
      · -- the byte behind the terminator is read
        rw [if_neg hmax, if_neg (by decide)]
        have hbounds : ¬ InBounds [[]] n := by
          unfold InBounds
          simp [hmax]
        refine ⟨iff_of_false (fun hall => ?_) hbounds, fun hin => absurd hin hbounds⟩
        have hread := hall (i + 2) (by
          split
          · simp
          · exact List.mem_append_left _ (by simp))
        rw [List.length_singleton] at hread
        omega
  | case3 c =>
      rw [scanLoop_percent (by simp) h.head, h.tail.head, h.tail.tail.nil]
      by_cases hmax : maxLogArgsNum < n + 1
      · rw [if_pos hmax]
        exact .stop (Or.inl hmax) rfl (formatted_of_max hmax _ _ _) (by simp)
      rw [if_neg hmax]
      by_cases hs : c = byte 's'
      · rw [if_pos hs]
        exact .stop (Or.inr ((stops_single c).mpr hs)) rfl (by simp [Scan.formatted]) (by simp)
      · rw [if_neg hs, if_neg (by decide), scanLoop_end (by simp)]
        exact agrees_nil.next hmax (mt (stops_single c).mp hs) (by simp) (by simp)
  | case4 c d fmt ih =>
      have hlen : i + (byte '%' :: c :: d :: fmt).length = i + 3 + fmt.length := by
        simp only [List.length_cons]
        omega
      have hreads : ∀ k ∈ [i, i + 1, i + 2], k ≤ i + 3 + fmt.length := by
        intro k hk
        simp only [List.mem_cons, List.not_mem_nil, or_false] at hk
        omega
      rw [hlen, scanLoop_percent (by omega) h.head, h.tail.head, h.tail.tail.head]
      by_cases hmax : maxLogArgsNum < n + 1
      · rw [if_pos hmax]
        exact .stop (Or.inl hmax) rfl (formatted_of_max hmax _ _ _) fun k hk =>
          hreads k (List.mem_of_mem_take (i := 1) hk)
      rw [if_neg hmax]
      by_cases hs : c = byte 's'
      · rw [if_pos hs]
        exact .stop (Or.inr ((stops_pair c d).mpr (Or.inl hs))) rfl (by simp [Scan.formatted])
          fun k hk => hreads k (List.mem_of_mem_take (i := 2) hk)
      rw [if_neg hs]
      by_cases hl : d = byte 'l'
      · rw [if_pos hl]
        exact .stop (Or.inr ((stops_pair c d).mpr (Or.inr hl))) rfl (by simp [Scan.formatted])
          hreads
      · rw [if_neg hl]
        refine (ih h.tail.tail.tail).next hmax (fun hstop => ?_) (by simp) hreads
        exact ((stops_pair c d).mp hstop).elim hs hl
  | case5 b fmt hb ih =>
      have hlen : i + (b :: fmt).length = i + 1 + fmt.length := by
        rw [List.length_cons]
        omega
      rw [hlen, scanLoop_other (by omega) (by rw [h.head]; exact hb)]
      have hnext := ih (n := n) h.tail
      refine ⟨?_, hnext.result⟩
      rw [← hnext.reads]
      refine List.forall_mem_append.trans (and_iff_right fun k hk => ?_)
      rw [List.mem_singleton.mp hk]
      omega

end Loop

/-! ## Formatting later -/

/-- `snprintf` as `ProcessLogQueue` calls it, with the six stored arguments. -/
def sprintf : Sprintf := fun fmt args =>
  vsprintf fmt fun k => if h : k < maxLogArgsNum then args ⟨k, h⟩ else 0

/-- What a writer stores for a message. -/
def storedInfo (config : LoggerConfig) (node : LogInfo) (moduleId : CString) (logLevel : Nat)
    (fileName funcName threadId fmt : CString) (args : Nat → UInt32) (content : CString) :
    LogMsgInfo :=
  (fillNode config node
    (.loggerWriteMsg moduleId logLevel fileName funcName threadId fmt args content)).logMsgInfo

/-- Formatting later is safe: the loop reads the format and its terminator only, and whenever a
well-formed format is stored, it has at most six conversions, each takes one `unsigned int`,
and `ProcessLogQueue` prints what would have been printed at once. -/
structure DeferredSafe (fmt : CString) : Prop where
  reads : ∀ mem, Holds mem 0 fmt.1 →
    ∀ k ∈ (scanLoop mem fmt.1.length 0 0).reads, k ≤ fmt.1.length
  stored : ∀ (config : LoggerConfig) (node : LogInfo) (moduleId : CString) (logLevel : Nat)
    (fileName funcName threadId : CString) (args : Nat → UInt32) (content : CString)
    (ds : List Directive), parseFormat fmt.1 = some ds →
    let info := storedInfo config node moduleId logLevel fileName funcName threadId fmt args
      content
    info.logContentFlag = false →
      (conversions ds).length ≤ maxLogArgsNum ∧ (∀ c ∈ conversions ds, c.takesUInt = true) ∧
        contentPiece sprintf info = .print (vsprintf fmt args)

/-- The formats that may be stored, and those that never are: more than six groups, or one that
the loop stops at. Otherwise no `%` is left alone at the end, each conversion takes one
`unsigned int`, and there are not more conversions than groups. -/
def Deferrable (fmt : CString) : Prop :=
  maxLogArgsNum < (groups fmt.1).length ∨ (∃ group ∈ groups fmt.1, Stops group) ∨
    ([] ∉ groups fmt.1 ∧ ∀ ds, parseFormat fmt.1 = some ds →
      (∀ c ∈ conversions ds, c.takesUInt = true) ∧
        (conversions ds).length ≤ (groups fmt.1).length)

section Stored

variable {config : LoggerConfig} {node : LogInfo} {moduleId fileName funcName threadId : CString}
  {fmt content : CString} {logLevel : Nat} {args : Nat → UInt32}

theorem storedInfo_flag : (storedInfo config node moduleId logLevel fileName funcName threadId fmt
    args content).logContentFlag = (scanFormat fmt.1 0).2 := by
  unfold storedInfo fillNode
  dsimp only
  split <;> rename_i h
  · exact h.symm
  · exact (Bool.eq_false_iff.mpr h).symm

/-- A format that is stored: the arguments that have been counted are those of the call, the
others are left from before. -/
theorem storedInfo_content (h : (scanFormat fmt.1 0).2 = false) :
    contentPiece sprintf (storedInfo config node moduleId logLevel fileName funcName threadId fmt
      args content) = .print (vsprintf fmt fun k =>
        if h : k < maxLogArgsNum then
          if k < (scanFormat fmt.1 0).1 then args k else node.logMsgInfo.args ⟨k, h⟩
        else 0) := by
  unfold contentPiece
  rw [storedInfo_flag, h, if_neg Bool.false_ne_true]
  unfold storedInfo fillNode
  dsimp only
  rw [h, if_neg Bool.false_ne_true]
  rfl

theorem scanFormat_stored_iff : (scanFormat fmt.1 0).2 = false ↔
    (groups fmt.1).length ≤ maxLogArgsNum ∧ ∀ group ∈ groups fmt.1, ¬ Stops group := by
  rw [scanFormat_eq_groups, scanGroups_formatted_iff _ (Nat.zero_le _), Nat.zero_add]

theorem scanFormat_count (h : (scanFormat fmt.1 0).2 = false) :
    (scanFormat fmt.1 0).1 = (groups fmt.1).length := by
  rw [scanFormat_eq_groups] at h ⊢
  rw [scanGroups_count h, Nat.zero_add]

/-- The loop reads the format only. -/
theorem reads_iff {mem : Nat → UInt8} (h : Holds mem 0 fmt.1) :
    (∀ k ∈ (scanLoop mem fmt.1.length 0 0).reads, k ≤ fmt.1.length) ↔
      maxLogArgsNum < (groups fmt.1).length ∨ (∃ group ∈ groups fmt.1, Stops group) ∨
        [] ∉ groups fmt.1 := by
  have hagrees := (scanLoop_agrees (n := 0) h).reads
  rw [inBounds_groups_iff _ fun gs₁ gs₂ hgs => groups_nil_last fmt.1 hgs, Nat.zero_add, Nat.zero_add]
    at hagrees
  exact hagrees

/-- A format that may be stored is stored with the arguments that it needs. -/
theorem Deferrable.stored (h : Deferrable fmt) {ds : List Directive}
    (hparse : parseFormat fmt.1 = some ds) (hflag : (scanFormat fmt.1 0).2 = false) :
    (conversions ds).length ≤ maxLogArgsNum ∧ (∀ c ∈ conversions ds, c.takesUInt = true) ∧
      contentPiece sprintf (storedInfo config node moduleId logLevel fileName funcName threadId
        fmt args content) = .print (vsprintf fmt args) := by
  obtain ⟨hlen, hstops⟩ := scanFormat_stored_iff.mp hflag
  rcases h with hmax | ⟨group, hg, hstop⟩ | ⟨-, hall⟩
  · omega
  · exact absurd hstop (hstops group hg)
  obtain ⟨huint, hcount⟩ := hall ds hparse
  refine ⟨by omega, huint, ?_⟩
  rw [storedInfo_content hflag, scanFormat_count hflag]
  refine congrArg Piece.print (Subtype.ext ?_)
  rw [vsprintf_eq hparse, vsprintf_eq hparse]
  refine congrArg _ (text_congr ds fun k hk => ?_)
  rw [dif_pos (by omega), if_pos (by omega)]

end Stored

/-- **Formatting later is safe** for exactly these formats. -/
theorem deferredSafe_iff (fmt : CString) : DeferredSafe fmt ↔ Deferrable fmt := by
  constructor
  · intro h
    unfold Deferrable
    by_cases hmax : maxLogArgsNum < (groups fmt.1).length
    · exact Or.inl hmax
    by_cases hstop : ∃ group ∈ groups fmt.1, Stops group
    · exact Or.inr (Or.inl hstop)
    have hflag : (scanFormat fmt.1 0).2 = false := by
      refine scanFormat_stored_iff.mpr ⟨Nat.le_of_not_lt hmax, fun group hg hstops => ?_⟩
      exact hstop ⟨group, hg, hstops⟩
    have hholds : Holds (fun k => fmt.1.getD k 0) 0 fmt.1 := fun k _ => by
      rw [Nat.zero_add]
    have hin := (reads_iff hholds).mp (h.reads _ hholds)
    refine Or.inr (Or.inr ⟨(hin.resolve_left hmax).resolve_left hstop, fun ds hparse => ?_⟩)
    have hstored := fun node args => h.stored ⟨0, false, false, false, false, 0⟩ node .empty 0
      .empty .empty .empty args .empty ds hparse (storedInfo_flag.trans hflag)
    obtain ⟨hsix, huint, -⟩ := hstored initLogInfo fun _ => 0
    refine ⟨huint, Nat.le_of_not_lt fun hcount => ?_⟩
    -- the argument of the next conversion is left from an earlier message
    obtain ⟨args, args', hsame, hclean, hclean', hne⟩ := text_distinct ds
      (fun b hb => literal_ne_zero fmt hparse hb) huint hcount
    obtain ⟨-, -, hprint⟩ := hstored
      ⟨.logMsgType, { initLogInfo.logMsgInfo with args := fun i => args' i }, []⟩ args
    rw [storedInfo_content hflag, scanFormat_count hflag] at hprint
    have htext : text ds (fun k => if h : k < maxLogArgsNum then
        if k < (groups fmt.1).length then args k else args' k else 0) = text ds args' := by
      refine text_congr ds fun k hk => ?_
      rw [dif_pos (by omega)]
      split
      · exact (hsame k (by omega)).symm
      · rfl
    have hlater : (vsprintf fmt fun k => if h : k < maxLogArgsNum then
        if k < (groups fmt.1).length then args k else args' k else 0).1 = text ds args' := by
      rw [vsprintf_of_clean hparse (by rw [htext]; exact hclean'), htext]
    have heq := congrArg Subtype.val (Piece.print.inj hprint)
    exact hne ((vsprintf_of_clean hparse hclean).symm.trans (heq.symm.trans hlater))
  · intro h
    refine ⟨fun mem hmem => (reads_iff hmem).mpr ?_, ?_⟩
    · exact h.imp_right fun h => h.imp_right fun h => h.1
    · intro config node moduleId logLevel fileName funcName threadId args content ds hparse info
        hflag
      exact h.stored hparse (storedInfo_flag.symm.trans hflag)

/-- The format `pDbConn->sqlite = %p`. -/
def pointerFormat : CString :=
  ⟨ascii ['p', 'D', 'b', 'C', 'o', 'n', 'n', '-', '>', 's', 'q', 'l', 'i', 't', 'e', ' ', '=', ' ',
    '%', 'p', '\n'], by decide⟩

/-- **A pointer is stored as an `unsigned int`.** -/
theorem pointerFormat_stored : ¬ DeferredSafe pointerFormat := by
  intro h
  obtain ⟨-, huint, -⟩ := h.stored ⟨0, false, false, true, false, 4096⟩ initLogInfo .empty 1
    .empty .empty .empty (fun _ => 0) .empty
    ((ascii ['p', 'D', 'b', 'C', 'o', 'n', 'n', '-', '>', 's', 'q', 'l', 'i', 't', 'e', ' ', '=',
      ' ']).map Directive.literal ++ [.conversion ⟨[], .absent, .absent, .none, byte 'p'⟩,
        .literal (byte '\n')]) (by decide +kernel) (by decide +kernel)
  exact absurd (huint ⟨[], .absent, .absent, .none, byte 'p'⟩ (by decide +kernel)) (by decide)

end LteUlp.Logger
