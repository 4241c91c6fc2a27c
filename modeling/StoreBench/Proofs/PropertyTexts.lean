import Mathlib.Data.List.Forall2
import StoreBench.Properties
/-!
# Texts of properties

A text is read line by line. A line that is neither blank nor a comment has to set a key to a value;
the first one that does not is refused under its number. Of the lines that set a key the last one
counts, so a text that is read behind another one overrides what the other one sets.
-/

namespace StoreBench

namespace Text

/-! ## Lines -/

/-- Put a character in front of the first line. -/
def consLine (c : Char) : List (List Char) → List (List Char)
  | [] => [[c]]
  | line :: lines => (c :: line) :: lines

/-- The lines of a text. A line ends with a line feed, and a carriage return just before that
belongs to the end too; the last line need not end. -/
def lines : List Char → List (List Char)
  | [] => []
  | '\n' :: rest => [] :: lines rest
  | '\r' :: '\n' :: rest => [] :: lines rest
  | c :: rest => consLine c (lines rest)

example : lines ['a', '\r', '\n', '\n', 'b', '\r'] = [['a'], [], ['b', '\r']] := by
  decide

variable {separator c : Char} {s before after : List Char}

@[simp] theorem splitAll_nil : splitAll separator [] = [[]] := rfl

@[simp] theorem splitAll_cons_self : splitAll separator (separator :: s) =
    [] :: splitAll separator s := by
  simp [splitAll]

theorem splitAll_cons_of_ne (h : c ≠ separator) :
    splitAll separator (c :: s) = consLine c (splitAll separator s) := by
  simp only [splitAll, h, if_false]
  cases splitAll separator s <;> rfl

theorem splitAll_ne_nil (separator : Char) (s : List Char) : splitAll separator s ≠ [] := by
  cases s with
  | nil => simp
  | cons c s =>
    by_cases h : c = separator
    · subst h
      simp
    · rw [splitAll_cons_of_ne h]
      cases splitAll separator s <;> simp [consLine]

theorem consLine_append {pieces : List (List Char)} (h : pieces ≠ []) (c : Char)
    (more : List (List Char)) : consLine c (pieces ++ more) = consLine c pieces ++ more := by
  cases pieces with
  | nil => exact absurd rfl h
  | cons piece pieces => rfl

/-- A separator between two texts keeps their pieces apart. -/
theorem splitAll_append (separator : Char) (a b : List Char) :
    splitAll separator (a ++ separator :: b) = splitAll separator a ++ splitAll separator b := by
  induction a with
  | nil => simp
  | cons c a ih =>
    by_cases h : c = separator
    · subst h
      simp [ih]
    · rw [List.cons_append, splitAll_cons_of_ne h, splitAll_cons_of_ne h, ih]
      exact consLine_append (splitAll_ne_nil separator a) c _

/-- A line as it stands before its line feed. -/
def EndsLine (piece line : List Char) : Prop := piece = line ∨ piece = line ++ ['\r']

/-- Between the line feeds stand the lines of a text, and nothing behind a last line that ends. -/
theorem exists_splitAll_lines (s : List Char) :
    ∃ pieces rest, splitAll '\n' s = pieces ++ rest ∧ List.Forall₂ EndsLine pieces (lines s) ∧
      (rest = [] ∨ rest = [[]]) := by
  fun_induction lines s with
  | case1 => exact ⟨[], [[]], rfl, .nil, .inr rfl⟩
  | case2 s ih =>
    obtain ⟨pieces, rest, hsplit, hlines, hrest⟩ := ih
    refine ⟨[] :: pieces, rest, ?_, .cons (.inl rfl) hlines, hrest⟩
    rw [splitAll_cons_self, hsplit, List.cons_append]
  | case3 s ih =>
    obtain ⟨pieces, rest, hsplit, hlines, hrest⟩ := ih
    refine ⟨['\r'] :: pieces, rest, ?_, .cons (.inr rfl) hlines, hrest⟩
    rw [splitAll_cons_of_ne (by decide), splitAll_cons_self, hsplit]
    rfl
  | case4 c s hfeed _ ih =>
    obtain ⟨pieces, rest, hsplit, hlines, hrest⟩ := ih
    have hcons : splitAll '\n' (c :: s) = consLine c (pieces ++ rest) := by
      rw [splitAll_cons_of_ne hfeed, hsplit]
    generalize lines s = known at hlines
    cases hlines with
    | nil =>
      -- Nothing follows: the character is all there is of a last line that does not end.
      rcases hrest with rfl | rfl
      · exact absurd hsplit (splitAll_ne_nil '\n' s)
      · exact ⟨[[c]], [], hcons, .cons (.inl rfl) .nil, .inl rfl⟩
    | @cons piece line pieces lines hline hlines =>
      refine ⟨(c :: piece) :: pieces, rest, hcons, .cons ?_ hlines, hrest⟩
      rcases hline with rfl | rfl
      · exact .inl rfl
      · exact .inr rfl

/-- A carriage return at the end of a line is trimmed away. -/
theorem trim_eq_of_endsLine {piece line : List Char} (h : EndsLine piece line) :
    trim piece = trim line := by
  have hreturn : isBlank '\r' = true := by decide
  rcases h with rfl | rfl
  · rfl
  · rw [trim, trim, List.dropWhile_append]
    by_cases hempty : (line.dropWhile isBlank).isEmpty
    · rw [if_pos hempty, List.isEmpty_iff.1 hempty, List.dropWhile_cons_of_pos hreturn]
      rfl
    · rw [if_neg hempty, List.reverse_append, List.reverse_singleton, List.singleton_append,
        List.dropWhile_cons_of_pos hreturn]

/-! ## Halves -/

theorem splitFirst?_eq_none_iff : splitFirst? separator s = none ↔ separator ∉ s := by
  induction s with
  | nil => simp [splitFirst?]
  | cons c s ih =>
    by_cases h : c = separator
    · subst h
      simp [splitFirst?]
    · have hsame : splitFirst? separator (c :: s) = none ↔ splitFirst? separator s = none := by
        simp only [splitFirst?, h, ne_eq, not_false_eq_true, decide_true,
          List.dropWhile_cons_of_pos]
        cases s.dropWhile (fun c => decide ¬c = separator) <;> simp
      rw [hsame, ih]
      simp [Ne.symm h]

/-- A text is cut at the first separator. -/
theorem splitFirst?_eq_some_iff : splitFirst? separator s = some (before, after) ↔
    s = before ++ separator :: after ∧ separator ∉ before := by
  induction s generalizing before with
  | nil => simp [splitFirst?]
  | cons c s ih =>
    by_cases h : c = separator
    · subst h
      cases before with
      | nil => simp [splitFirst?]
      | cons c' before => simp [splitFirst?]; grind
    · have hsame : splitFirst? separator (c :: s) =
          (splitFirst? separator s).map fun halves => (c :: halves.1, halves.2) := by
        simp only [splitFirst?, h, ne_eq, not_false_eq_true, decide_true,
          List.dropWhile_cons_of_pos, List.takeWhile_cons_of_pos]
        cases s.dropWhile (fun c => decide ¬c = separator) <;> simp
      rw [hsame, Option.map_eq_some_iff]
      cases before with
      | nil => simp [h]
      | cons c' before => grind

end Text

namespace Properties

open Text

variable {line : List Char} {key value : String} {number : Nat} {p q base : Properties}
  {e : Misconfiguration}

/-! ## What a line says -/

/-- The line is neither blank nor a comment, and it sets nothing. -/
def IsMalformed (line : List Char) : Prop :=
  trim line ≠ [] ∧ (trim line).head? ≠ some '#' ∧ '=' ∉ trim line

/-- The line sets a key to a value: they stand before and behind its first `=`, blanks apart, and it
is no comment. -/
def Sets (line : List Char) (key value : String) : Prop :=
  (trim line).head? ≠ some '#' ∧ ∃ before after, trim line = before ++ '=' :: after ∧
    '=' ∉ before ∧ key.toList = trim before ∧ value.toList = trim after

theorem head?_ne_of_ne_cons {s : List Char} {c : Char} (h : ∀ rest, s ≠ c :: rest) :
    s.head? ≠ some c := by
  intro hhead
  obtain ⟨rest, hrest⟩ := List.head?_eq_some_iff.1 hhead
  exact h rest hrest

theorem parseLine_eq_error_iff : parseLine number line = .error e ↔
    IsMalformed line ∧ e = .propertyLine number (String.ofList (trim line)) := by
  unfold parseLine IsMalformed
  split
  · next hblank => simp [hblank]
  · next hcomment => simp [hcomment]
  · next hblank hcomment =>
    have hhead := head?_ne_of_ne_cons hcomment
    cases hsplit : splitFirst? '=' (trim line) with
    | none =>
      have hset := splitFirst?_eq_none_iff.1 hsplit
      simp only [Except.error.injEq]
      constructor
      · intro he
        exact ⟨⟨hblank, hhead, hset⟩, he.symm⟩
      · intro he
        exact he.2.symm
    | some halves =>
      obtain ⟨hline, -⟩ := splitFirst?_eq_some_iff.1 hsplit
      refine iff_of_false nofun ?_
      intro he
      exact he.1.2.2 (hline ▸ by simp)

theorem parseLine_eq_some_iff :
    parseLine number line = .ok (some (key, value)) ↔ Sets line key value := by
  unfold parseLine Sets
  split
  · next hblank => simp [hblank]
  · next hcomment => simp [hcomment]
  · next hblank hcomment =>
    have hhead := head?_ne_of_ne_cons hcomment
    cases hsplit : splitFirst? '=' (trim line) with
    | none =>
      have hset := splitFirst?_eq_none_iff.1 hsplit
      refine iff_of_false nofun ?_
      rintro ⟨-, before, after, hline, -⟩
      exact hset (hline ▸ by simp)
    | some halves =>
      obtain ⟨before, after⟩ := halves
      obtain ⟨hline, hfirst⟩ := splitFirst?_eq_some_iff.1 hsplit
      simp only [Except.ok.injEq, Option.some.injEq, Prod.mk.injEq]
      constructor
      · rintro ⟨rfl, rfl⟩
        exact ⟨hhead, before, after, hline, hfirst, String.toList_ofList, String.toList_ofList⟩
      · rintro ⟨-, before', after', hline', hfirst', hkey, hvalue⟩
        have hhalves := splitFirst?_eq_some_iff.2 ⟨hline', hfirst'⟩
        cases hsplit.symm.trans hhalves
        rw [← hkey, ← hvalue, String.ofList_toList, String.ofList_toList]
        exact ⟨rfl, rfl⟩

/-- A line sets one key to one value. -/
theorem Sets.unique {key' value' : String} (h : Sets line key value)
    (h' : Sets line key' value') : key' = key ∧ value' = value := by
  have hline : parseLine 0 line = .ok (some (key, value)) := parseLine_eq_some_iff.2 h
  rw [parseLine_eq_some_iff.2 h'] at hline
  cases hline
  exact ⟨rfl, rfl⟩

/-- A line that is skipped is well-formed and sets nothing. -/
theorem parseLine_eq_none_iff : parseLine number line = .ok none ↔
    ¬IsMalformed line ∧ ∀ key value, ¬Sets line key value := by
  cases hline : parseLine number line with
  | error e =>
    refine iff_of_false nofun ?_
    intro h
    exact h.1 (parseLine_eq_error_iff.1 hline).1
  | ok setting =>
    cases setting with
    | none =>
      refine iff_of_true rfl ⟨?_, ?_⟩
      · intro hmalformed
        cases hline.symm.trans (parseLine_eq_error_iff.2 ⟨hmalformed, rfl⟩)
      · intro key value hsets
        cases hline.symm.trans (parseLine_eq_some_iff.2 hsets)
    | some pair =>
      refine iff_of_false nofun ?_
      intro h
      exact h.2 pair.1 pair.2 (parseLine_eq_some_iff.1 hline)

/-- What a line sets does not depend on its number. -/
theorem parseLine_ok_of_ok {setting : Option (String × String)}
    (h : parseLine number line = .ok setting) (other : Nat) :
    parseLine other line = .ok setting := by
  cases setting with
  | none => exact parseLine_eq_none_iff.2 (parseLine_eq_none_iff.1 h)
  | some pair => exact parseLine_eq_some_iff.2 (parseLine_eq_some_iff.1 h)

/-! ## What a text says -/

variable {lines more : List (List Char)}

/-- The first malformed line, and where it stands. -/
def FirstMalformed (lines : List (List Char)) (index : Nat) (line : List Char) : Prop :=
  lines[index]? = some line ∧ IsMalformed line ∧
    ∀ i earlier, i < index → lines[i]? = some earlier → ¬IsMalformed earlier

/-- No line sets the key. -/
def SetsNowhere (lines : List (List Char)) (key : String) : Prop :=
  ∀ line ∈ lines, ∀ value, ¬Sets line key value

/-- The last line that sets the key sets it to the value. -/
def LastSets (lines : List (List Char)) (key value : String) : Prop :=
  ∃ before line after, lines = before ++ line :: after ∧ Sets line key value ∧
    SetsNowhere after key

theorem firstMalformed_cons_of_isMalformed {first : List Char} {index : Nat}
    (h : IsMalformed first) :
    FirstMalformed (first :: lines) index line ↔ index = 0 ∧ line = first := by
  constructor
  · intro hfirst
    cases index with
    | zero =>
      have hline := Option.some.inj hfirst.1
      exact ⟨rfl, hline.symm⟩
    | succ index => exact absurd h (hfirst.2.2 0 first (by omega) rfl)
  · rintro ⟨rfl, rfl⟩
    exact ⟨rfl, h, fun i _ hi => absurd hi (by omega)⟩

theorem firstMalformed_cons_of_not {first : List Char} {index : Nat} (h : ¬IsMalformed first) :
    FirstMalformed (first :: lines) index line ↔
      ∃ i, index = i + 1 ∧ FirstMalformed lines i line := by
  constructor
  · rintro ⟨hline, hmalformed, hearlier⟩
    cases index with
    | zero =>
      have hsame := Option.some.inj hline
      exact absurd (hsame ▸ hmalformed) h
    | succ i =>
      refine ⟨i, rfl, hline, hmalformed, ?_⟩
      intro j earlier hj
      exact hearlier (j + 1) earlier (by omega)
  · rintro ⟨i, rfl, hline, hmalformed, hearlier⟩
    refine ⟨hline, hmalformed, ?_⟩
    intro j earlier hj hj'
    cases j with
    | zero =>
      have hsame := Option.some.inj hj'
      exact hsame ▸ h
    | succ j => exact hearlier j earlier (by omega) hj'

/-- Where a line is malformed there is a first such line. -/
theorem exists_firstMalformed (h : line ∈ lines) (hmalformed : IsMalformed line) :
    ∃ index first, FirstMalformed lines index first := by
  induction lines with
  | nil => cases h
  | cons first lines ih =>
    by_cases hfirst : IsMalformed first
    · exact ⟨0, first, (firstMalformed_cons_of_isMalformed hfirst).2 ⟨rfl, rfl⟩⟩
    · cases h with
      | head => exact absurd hmalformed hfirst
      | tail _ h =>
        obtain ⟨index, found, hfound⟩ := ih h
        exact ⟨index + 1, found, (firstMalformed_cons_of_not hfirst).2 ⟨index, rfl, hfound⟩⟩

theorem setsNowhere_cons : SetsNowhere (line :: lines) key ↔
    (∀ value, ¬Sets line key value) ∧ SetsNowhere lines key :=
  List.forall_mem_cons

theorem lastSets_cons : LastSets (line :: lines) key value ↔
    LastSets lines key value ∨ SetsNowhere lines key ∧ Sets line key value := by
  constructor
  · rintro ⟨before, last, after, hlines, hsets, hafter⟩
    cases before with
    | nil =>
      cases hlines
      exact .inr ⟨hafter, hsets⟩
    | cons first before =>
      cases hlines
      exact .inl ⟨before, last, after, rfl, hsets, hafter⟩
  · rintro (⟨before, last, after, rfl, hsets, hafter⟩ | ⟨hafter, hsets⟩)
    · exact ⟨line :: before, last, after, rfl, hsets, hafter⟩
    · exact ⟨[], line, lines, rfl, hsets, hafter⟩

/-- Lines are refused exactly for the first malformed one of them. -/
theorem parseLines_eq_error_iff : parseLines number lines p = .error e ↔
    ∃ index line, FirstMalformed lines index line ∧
      e = .propertyLine (number + index) (String.ofList (trim line)) := by
  induction lines generalizing number p with
  | nil =>
    refine iff_of_false nofun ?_
    rintro ⟨index, line, ⟨hline, -⟩, -⟩
    simp at hline
  | cons first lines ih =>
    rw [parseLines]
    cases hfirst : parseLine number first with
    | error e' =>
      obtain ⟨hmalformed, rfl⟩ := parseLine_eq_error_iff.1 hfirst
      simp only [firstMalformed_cons_of_isMalformed hmalformed]
      constructor
      · rintro ⟨⟩
        exact ⟨0, first, ⟨rfl, rfl⟩, rfl⟩
      · rintro ⟨index, line, ⟨rfl, rfl⟩, rfl⟩
        rfl
    | ok setting =>
      have hwell : ¬IsMalformed first := by
        intro hmalformed
        cases hfirst.symm.trans (parseLine_eq_error_iff.2 ⟨hmalformed, rfl⟩)
      have hrest : (∃ index line, FirstMalformed (first :: lines) index line ∧
            e = .propertyLine (number + index) (String.ofList (trim line))) ↔
          ∃ index line, FirstMalformed lines index line ∧
            e = .propertyLine (number + 1 + index) (String.ofList (trim line)) := by
        simp only [firstMalformed_cons_of_not hwell]
        constructor
        · rintro ⟨-, line, ⟨i, rfl, hi⟩, rfl⟩
          exact ⟨i, line, hi, by rw [Nat.add_right_comm, Nat.add_assoc]⟩
        · rintro ⟨i, line, hi, rfl⟩
          exact ⟨i + 1, line, ⟨i, rfl, hi⟩, by rw [Nat.add_right_comm, Nat.add_assoc]⟩
      rw [hrest]
      cases setting with
      | none => exact ih
      | some pair => exact ih

/-- A key stands for what the last line that sets it sets it to, or else for what it stood for. -/
theorem get?_parseLines (h : parseLines number lines p = .ok q) : q.get? key = some value ↔
    LastSets lines key value ∨ SetsNowhere lines key ∧ p.get? key = some value := by
  induction lines generalizing number p with
  | nil =>
    cases h
    simp [LastSets, SetsNowhere]
  | cons first lines ih =>
    rw [parseLines] at h
    rw [lastSets_cons, setsNowhere_cons]
    cases hfirst : parseLine number first with
    | error e => simp [hfirst] at h
    | ok setting =>
      rw [hfirst] at h
      cases setting with
      | none =>
        have hnone := (parseLine_eq_none_iff.1 hfirst).2
        rw [ih h]
        simp [hnone]
      | some pair =>
        obtain ⟨key', value'⟩ := pair
        have hsets : Sets first key' value' := parseLine_eq_some_iff.1 hfirst
        rw [ih h, get?_set]
        by_cases hkey : key = key'
        · subst hkey
          have hvalue : Sets first key value ↔ value' = value := by
            constructor
            · intro hsets'
              exact (hsets'.unique hsets).2
            · rintro rfl
              exact hsets
          have hsome : ¬∀ value, ¬Sets first key value := by
            intro hnone
            exact hnone value' hsets
          simp [hvalue, hsome]
        · have hnone : ∀ value, ¬Sets first key value := by
            intro value hsets'
            exact hkey (hsets.unique hsets').1
          simp [hnone, hkey]

/-! ## Texts behind each other -/

theorem parseLine_congr {line' : List Char} (h : trim line = trim line') (number : Nat) :
    parseLine number line = parseLine number line' := by
  rw [parseLine, parseLine, h]

theorem parseLines_congr {lines' : List (List Char)}
    (h : List.Forall₂ (fun line line' => trim line = trim line') lines lines') (number : Nat)
    (p : Properties) : parseLines number lines p = parseLines number lines' p := by
  induction h generalizing number p with
  | nil => rfl
  | cons hline _ ih =>
    simp only [parseLines, parseLine_congr hline number, ih]

theorem parseLines_append : parseLines number (lines ++ more) p =
    (parseLines number lines p).bind (parseLines (number + lines.length) more) := by
  induction lines generalizing number p with
  | nil => rfl
  | cons first lines ih =>
    have hlength : number + 1 + lines.length = number + (first :: lines).length := by
      simp only [List.length_cons]
      omega
    rw [List.cons_append, parseLines, parseLines]
    cases parseLine number first with
    | error e => rfl
    | ok setting =>
      cases setting with
      | none => simp only [ih, hlength]
      | some pair => simp only [ih, hlength]

/-- Reading a text is reading its lines. -/
theorem parse?_eq (text : String) : parse? text = parseLines 1 (Text.lines text.toList) empty := by
  obtain ⟨pieces, rest, hsplit, hlines, hrest⟩ := exists_splitAll_lines text.toList
  rw [parse?, hsplit, parseLines_append,
    parseLines_congr (hlines.imp fun _ _ => trim_eq_of_endsLine)]
  cases parseLines 1 (Text.lines text.toList) empty with
  | error e => rfl
  | ok p =>
    -- What stands behind the last line is blank.
    rcases hrest with rfl | rfl
    · rfl
    · rfl

/-- Where lines are read on top of other properties, they override these. -/
theorem parseLines_over {q₀ : Properties} (h : parseLines number lines q₀ = .ok q)
    (hover : ∀ key, p.get? key = (q₀.get? key).or (base.get? key)) (other : Nat) :
    ∃ r, parseLines other lines p = .ok r ∧
      ∀ key, r.get? key = (q.get? key).or (base.get? key) := by
  induction lines generalizing number other p q₀ with
  | nil =>
    cases h
    exact ⟨p, rfl, hover⟩
  | cons first lines ih =>
    rw [parseLines] at h ⊢
    cases hfirst : parseLine number first with
    | error e => simp [hfirst] at h
    | ok setting =>
      rw [hfirst] at h
      rw [parseLine_ok_of_ok hfirst other]
      cases setting with
      | none => exact ih h hover (other + 1)
      | some pair =>
        refine ih h ?_ (other + 1)
        intro key
        rw [get?_set, get?_set, hover]
        split <;> rfl

theorem parse?_eq_error_iff (text : String) : parse? text = .error e ↔
    ∃ index line, FirstMalformed (Text.lines text.toList) index line ∧
      e = .propertyLine (index + 1) (String.ofList (trim line)) := by
  rw [parse?_eq, parseLines_eq_error_iff]
  simp only [Nat.add_comm 1]

theorem get?_parse? {text : String} (h : parse? text = .ok p) :
    p.get? key = some value ↔ LastSets (Text.lines text.toList) key value := by
  have hempty : empty.get? key = none := rfl
  rw [parse?_eq] at h
  rw [get?_parseLines h, hempty]
  simp

/-- A text behind a line feed is read on top of what stands before it. -/
theorem parse?_append {a b : String} (ha : parse? a = .ok p) (hb : parse? b = .ok q) :
    ∃ r, parse? (a ++ "\n" ++ b) = .ok r ∧ ∀ key, r.get? key = (q.get? key).or (p.get? key) := by
  have htext : (a ++ "\n" ++ b).toList = a.toList ++ '\n' :: b.toList := by
    simp [String.toList_append]
  rw [parse?] at ha
  rw [parse?, htext, splitAll_append, parseLines_append, ha]
  refine parseLines_over hb ?_ _
  intro key
  rfl

/-- A text is refused exactly when one of its lines is malformed, and then for the first such line
under its number, skipped lines counted. Otherwise a key stands for what the last line that sets it
sets it to, and there are no other keys; so where two texts stand behind each other, the second one
overrides the first. -/
theorem reading_exact (text : String) :
    ((∃ e, parse? text = .error e) ↔ ∃ line ∈ Text.lines text.toList, IsMalformed line) ∧
    (∀ e, parse? text = .error e ↔ ∃ index line,
      FirstMalformed (Text.lines text.toList) index line ∧
        e = .propertyLine (index + 1) (String.ofList (trim line))) ∧
    (∀ p, parse? text = .ok p → ∀ key value,
      p.get? key = some value ↔ LastSets (Text.lines text.toList) key value) ∧
    ∀ more p q, parse? text = .ok p → parse? more = .ok q →
      ∃ r, parse? (text ++ "\n" ++ more) = .ok r ∧
        ∀ key, r.get? key = (q.get? key).or (p.get? key) := by
  refine ⟨⟨?_, ?_⟩, fun e => parse?_eq_error_iff text, fun p h key value => get?_parse? h,
    fun more p q hp hq => parse?_append hp hq⟩
  · rintro ⟨e, he⟩
    obtain ⟨index, line, hfirst, -⟩ := (parse?_eq_error_iff text).1 he
    exact ⟨line, List.mem_of_getElem? hfirst.1, hfirst.2.1⟩
  · rintro ⟨line, hline, hmalformed⟩
    obtain ⟨index, first, hfirst⟩ := exists_firstMalformed hline hmalformed
    exact ⟨_, (parse?_eq_error_iff text).2 ⟨index, first, hfirst, rfl⟩⟩

end Properties

end StoreBench
