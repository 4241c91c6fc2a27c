import StoreBench.Adapter
import StoreBench.Proofs.EscapedText
/-!
# Log lines

The basic adapter logs each operation: its kind, then its arguments, with keys and values escaped
and field names as they stand. A line is read from its end. The values of a row show one by one,
each opened by the last quote that follows an equals sign, and what is left is the key. So
operations that name the same fields have different lines, and so have those whose names are plain,
which a line shows as well.
-/

namespace StoreBench

open Bytes

/-! ## Names -/

/-- A name that shows where it begins: there is something of it, but no space or opening bracket. -/
def IsPlain (name : String) : Prop := name ≠ "" ∧ ' ' ∉ name.toList ∧ '[' ∉ name.toList

def AllPlain (names : List String) : Prop := ∀ name ∈ names, IsPlain name

def SelectsPlain (fields : Selection) : Prop := ∀ names ∈ fields, AllPlain names

/-- Two things that need no telling apart, being one, or that a line shows, being plain. -/
def Legible {α : Type} (Plain : α → Prop) (x y : α) : Prop := x = y ∨ Plain x ∧ Plain y

theorem Legible.name_inj {p q : List Char} {name name' : String}
    (hname : Legible IsPlain name name')
    (h : p ++ ' ' :: name.toList = q ++ ' ' :: name'.toList) : p = q ∧ name = name' := by
  rcases hname with rfl | ⟨⟨-, hspace, -⟩, -, hspace', -⟩
  · exact ⟨List.append_cancel_right h, rfl⟩
  · obtain ⟨hpq, hnames⟩ := append_cons_inj_of_notMem_right hspace hspace' h
    exact ⟨hpq, String.toList_inj.1 hnames⟩

/-- Two lists of names are as legible in each of their parts. -/
theorem Legible.of_append_singleton {names names' : List String} {name name' : String}
    (h : Legible AllPlain (names ++ [name]) (names' ++ [name'])) :
    Legible AllPlain names names' ∧ Legible IsPlain name name' := by
  rcases h with h | ⟨h, h'⟩
  · obtain ⟨hnames, hname⟩ := List.append_inj' h rfl
    exact ⟨.inl hnames, .inl (List.cons.inj hname).1⟩
  · rw [AllPlain, List.forall_mem_append] at h h'
    exact ⟨.inr ⟨h.1, h'.1⟩, .inr ⟨h.2 name (by simp), h'.2 name' (by simp)⟩⟩

/-! ## Fields and rows -/

theorem Field.toList_display (f : Field) :
    f.display.toList =
      f.name.toList ++ '=' :: '"' :: f.value.flatMap escapeByte ++ ['"'] := by
  simp [Field.display]

/-- A displayed field tells its name and its value, whatever stands in the name. -/
theorem Field.display_injective : Function.Injective Field.display := by
  intro f g h
  have htext := congrArg String.toList h
  rw [toList_display, toList_display] at htext
  obtain ⟨hname, hvalue⟩ := opening_quote_inj (List.append_cancel_right htext)
  cases f
  cases g
  cases hvalue
  cases String.toList_inj.1 hname
  rfl

namespace BasicAdapter

/-- The fields of a row as they stand in a line, each after a space. -/
def fieldsText (row : Row) : List Char := row.flatMap fun f => ' ' :: f.display.toList

@[simp] theorem fieldsText_nil : fieldsText [] = [] := rfl

theorem fieldsText_append_singleton (row : Row) (f : Field) :
    fieldsText (row ++ [f]) =
      fieldsText row ++ ' ' :: f.name.toList ++
        '=' :: '"' :: f.value.flatMap escapeByte ++ ['"'] := by
  simp [fieldsText, Field.toList_display]

theorem getLast?_fieldsText {row : Row} (h : row ≠ []) : (fieldsText row).getLast? = some '"' := by
  rcases List.eq_nil_or_concat row with rfl | ⟨init, last, rfl⟩
  · exact absurd rfl h
  · rw [List.concat_eq_append, fieldsText_append_singleton, List.getLast?_concat]

/-- What ends in another character than a quote does not end in the fields of a row. -/
theorem append_ne_append_fieldsText {p q : List Char} {c : Char} {row : Row} (hc : c ≠ '"')
    (h : row ≠ []) : p ++ [c] ≠ q ++ fieldsText row := by
  intro heq
  have hlast := congrArg List.getLast? heq
  rw [List.getLast?_concat, List.getLast?_append, getLast?_fieldsText h] at hlast
  exact hc (Option.some_inj.1 hlast)

/-- Rows are read from the end of a text up to a bracket, the last field first. -/
theorem fieldsText_inj {p q : List Char} {row row' : Row}
    (hnames : Legible AllPlain row.names row'.names)
    (h : p ++ ['['] ++ fieldsText row = q ++ ['['] ++ fieldsText row') : p = q ∧ row = row' := by
  induction row using List.reverseRecOn generalizing row' with
  | nil =>
    rw [fieldsText_nil, List.append_nil] at h
    by_cases hrow' : row' = []
    · subst hrow'
      rw [fieldsText_nil, List.append_nil] at h
      exact ⟨List.append_cancel_right h, rfl⟩
    · exact absurd h (append_ne_append_fieldsText (by decide) hrow')
  | append_singleton row f ih =>
    rcases List.eq_nil_or_concat row' with rfl | ⟨init, last, rfl⟩
    · rw [fieldsText_nil, List.append_nil] at h
      exact absurd h.symm (append_ne_append_fieldsText (by decide) (by simp))
    · rw [List.concat_eq_append] at h hnames ⊢
      simp only [Row.names, List.map_append] at hnames
      obtain ⟨hinit, hname⟩ := Legible.of_append_singleton hnames
      rw [fieldsText_append_singleton, fieldsText_append_singleton] at h
      simp only [← List.append_assoc] at h
      obtain ⟨hbefore, hvalue⟩ := opening_quote_inj (List.append_cancel_right h)
      obtain ⟨hfields, hlast⟩ := hname.name_inj hbefore
      obtain ⟨rfl, rfl⟩ := ih hinit hfields
      cases f
      cases last
      cases hlast
      cases hvalue
      exact ⟨rfl, rfl⟩

theorem toList_showRow {row : Row} (h : row ≠ []) :
    (showRow row).toList = ['['] ++ fieldsText row ++ " ]".toList := by
  have hfields : ' ' :: [' '].intercalate (row.map fun f => f.display.toList) = fieldsText row := by
    rw [cons_intercalate_singleton ' ' (by simpa using h), List.flatMap_map, fieldsText]
  rw [← hfields]
  simp [showRow, Function.comp_def]

theorem append_showRow_nil_ne {p q : List Char} {row : Row} (h : row ≠ []) :
    p ++ (showRow []).toList ≠ q ++ (showRow row).toList := by
  intro heq
  have hempty : p ++ (showRow []).toList = p ++ ['['] ++ [' '] ++ " ]".toList := by simp [showRow]
  rw [hempty, toList_showRow h, ← List.append_assoc, ← List.append_assoc] at heq
  exact append_ne_append_fieldsText (by decide) h (List.append_cancel_right heq)

/-- A shown row is read from the end of a text. -/
theorem showRow_inj {p q : List Char} {row row' : Row}
    (hnames : Legible AllPlain row.names row'.names)
    (h : p ++ (showRow row).toList = q ++ (showRow row').toList) : p = q ∧ row = row' := by
  by_cases hrow : row = []
  · by_cases hrow' : row' = []
    · subst hrow hrow'
      exact ⟨List.append_cancel_right h, rfl⟩
    · subst hrow
      exact absurd h (append_showRow_nil_ne hrow')
  · by_cases hrow' : row' = []
    · subst hrow'
      exact absurd h.symm (append_showRow_nil_ne hrow)
    · rw [toList_showRow hrow, toList_showRow hrow', ← List.append_assoc, ← List.append_assoc,
        ← List.append_assoc, ← List.append_assoc] at h
      exact fieldsText_inj hnames (List.append_cancel_right h)

/-! ## Selections -/

theorem toList_showSelection_some (names : List String) :
    (showSelection (some names)).toList =
      '[' :: [' '].intercalate (names.map String.toList) ++ [']'] := by
  simp [showSelection]

theorem append_showSelection_none_ne {p q : List Char} {names : List String} :
    p ++ (showSelection none).toList ≠ q ++ (showSelection (some names)).toList := by
  intro heq
  have hlast := congrArg List.getLast? heq
  have hall : p ++ (showSelection none).toList = p ++ "<all fields".toList ++ ['>'] := by
    simp [showSelection]
  rw [hall, toList_showSelection_some, ← List.append_assoc, List.getLast?_concat,
    List.getLast?_concat] at hlast
  exact absurd (Option.some_inj.1 hlast) (by decide)

theorem AllPlain.bracket_notMem {names : List String} (h : AllPlain names) :
    '[' ∉ [' '].intercalate (names.map String.toList) := by
  intro hmem
  rcases mem_intercalate_singleton hmem with hspace | ⟨part, hpart, hbracket⟩
  · exact absurd hspace (by decide)
  · obtain ⟨name, hname, rfl⟩ := List.mem_map.1 hpart
    exact (h name hname).2.2 hbracket

theorem AllPlain.names_inj {names names' : List String} (hnames : AllPlain names)
    (hnames' : AllPlain names') (h : [' '].intercalate (names.map String.toList) =
      [' '].intercalate (names'.map String.toList)) : names = names' := by
  have hparts : ∀ {names : List String}, AllPlain names →
      ∀ part ∈ names.map String.toList, part ≠ [] ∧ ' ' ∉ part := by
    intro names hnames part hpart
    obtain ⟨name, hname, rfl⟩ := List.mem_map.1 hpart
    obtain ⟨hempty, hspace, -⟩ := hnames name hname
    exact ⟨fun h => hempty (String.toList_inj.1 h), hspace⟩
  exact (List.map_inj_right fun _ _ => String.toList_inj.1).1
    (intercalate_singleton_inj (hparts hnames) (hparts hnames') h)

/-- A shown selection is read from the end of a text. -/
theorem showSelection_inj {p q : List Char} {fields fields' : Selection}
    (hfields : Legible SelectsPlain fields fields')
    (h : p ++ (showSelection fields).toList = q ++ (showSelection fields').toList) :
    p = q ∧ fields = fields' := by
  rcases hfields with rfl | ⟨hplain, hplain'⟩
  · exact ⟨List.append_cancel_right h, rfl⟩
  cases fields with
  | none =>
    cases fields' with
    | none => exact ⟨List.append_cancel_right h, rfl⟩
    | some names' => exact absurd h append_showSelection_none_ne
  | some names =>
    cases fields' with
    | none => exact absurd h.symm append_showSelection_none_ne
    | some names' =>
      rw [toList_showSelection_some, toList_showSelection_some, ← List.append_assoc,
        ← List.append_assoc] at h
      obtain ⟨hpq, hnames⟩ := append_cons_inj_of_notMem_right
        (AllPlain.bracket_notMem (hplain names rfl)) (AllPlain.bracket_notMem (hplain' names' rfl))
        (List.append_cancel_right h)
      exact ⟨hpq, congrArg some (AllPlain.names_inj (hplain names rfl) (hplain' names' rfl) hnames)⟩

end BasicAdapter

/-! ## Operations -/

/-- The names of the fields an operation carries, by where they stand among its arguments. -/
def Operation.fieldNames : Operation → List String × List String × Selection
  | .read _ fields => ([], [], fields)
  | .scan _ _ fields => ([], [], fields)
  | .update _ fields => (fields.names, [], none)
  | .insert _ fields => (fields.names, [], none)
  | .delete _ => ([], [], none)
  | .filter low high fields => (low.names, high.names, fields)

def NamesPlain (names : List String × List String × Selection) : Prop :=
  AllPlain names.1 ∧ AllPlain names.2.1 ∧ SelectsPlain names.2.2

theorem Legible.parts {names names' : List String × List String × Selection}
    (h : Legible NamesPlain names names') : Legible AllPlain names.1 names'.1 ∧
      Legible AllPlain names.2.1 names'.2.1 ∧ Legible SelectsPlain names.2.2 names'.2.2 := by
  rcases h with rfl | ⟨h, h'⟩
  · exact ⟨.inl rfl, .inl rfl, .inl rfl⟩
  · exact ⟨.inr ⟨h.1, h'.1⟩, .inr ⟨h.2.1, h'.2.1⟩, .inr ⟨h.2.2, h'.2.2⟩⟩

theorem OperationKind.title_injective : Function.Injective title := by
  intro k k' h
  cases k <;> cases k' <;> first | rfl | exact absurd h (by decide)

theorem OperationKind.space_notMem_title (kind : OperationKind) : ' ' ∉ kind.title.toList := by
  cases kind <;> decide

namespace BasicAdapter

/-- The line that reports an operation. -/
def logLine (op : Operation) : String := op.kind.title ++ " " ++ showArguments op

theorem perform_journal (op : Operation) (r : Registry) :
    ((perform ⟨true⟩ op).run r).2.journal = .log .info (logLine op) :: r.journal := rfl

theorem keyed_row_inj {key key' : Bytes} {row row' : Row}
    (hnames : Legible AllPlain row.names row'.names)
    (h : escape key ++ " " ++ showRow row = escape key' ++ " " ++ showRow row') :
    key = key' ∧ row = row' := by
  have htext := congrArg String.toList h
  rw [String.toList_append, String.toList_append (s := escape key' ++ " ")] at htext
  obtain ⟨hkey, hrow⟩ := showRow_inj hnames htext
  exact ⟨escape_injective ((String.append_left_inj _).1 (String.toList_inj.1 hkey)), hrow⟩

theorem selecting_inj {text text' : String} {fields fields' : Selection}
    (hfields : Legible SelectsPlain fields fields')
    (h : text ++ " " ++ showSelection fields = text' ++ " " ++ showSelection fields') :
    text = text' ∧ fields = fields' := by
  have htext := congrArg String.toList h
  rw [String.toList_append, String.toList_append (s := text' ++ " ")] at htext
  obtain ⟨hbefore, hselection⟩ := showSelection_inj hfields htext
  exact ⟨(String.append_left_inj _).1 (String.toList_inj.1 hbefore), hselection⟩

/-- Of two operations of a kind with legible names, each has arguments of its own. -/
theorem showArguments_inj {a b : Operation} (hkind : a.kind = b.kind)
    (hnames : Legible NamesPlain a.fieldNames b.fieldNames)
    (h : showArguments a = showArguments b) : a = b := by
  obtain ⟨hlow, hhigh, hfields⟩ := hnames.parts
  cases a <;> cases b <;> cases hkind
  case read.read key fields key' fields' =>
    obtain ⟨hkey, rfl⟩ := selecting_inj hfields h
    obtain rfl := escape_injective hkey
    rfl
  case scan.scan start count fields start' count' fields' =>
    obtain ⟨hbounds, rfl⟩ := selecting_inj hfields h
    have htext : (escape start ++ " " ++ count.repr).toList =
        (escape start' ++ " " ++ count'.repr).toList := congrArg String.toList hbounds
    simp only [String.toList_append, Nat.toList_repr, List.append_assoc] at htext
    obtain ⟨hstart, rfl⟩ := trailing_number_inj htext
    obtain rfl := escape_injective (String.toList_inj.1 hstart)
    rfl
  case update.update key fields key' fields' =>
    obtain ⟨rfl, rfl⟩ := keyed_row_inj hlow h
    rfl
  case insert.insert key fields key' fields' =>
    obtain ⟨rfl, rfl⟩ := keyed_row_inj hlow h
    rfl
  case delete.delete key key' =>
    obtain rfl := escape_injective h
    rfl
  case filter.filter low high fields low' high' fields' =>
    obtain ⟨hbounds, rfl⟩ := selecting_inj hfields h
    have htext := congrArg String.toList hbounds
    rw [String.toList_append, String.toList_append (s := showRow low' ++ " ")] at htext
    obtain ⟨hbefore, rfl⟩ := showRow_inj hhigh htext
    have hrow := (String.append_left_inj _).1 (String.toList_inj.1 hbefore)
    obtain ⟨-, rfl⟩ := showRow_inj (p := []) (q := []) hlow (congrArg String.toList hrow)
    rfl

/-- Operations with legible names have different lines. -/
theorem logLine_inj {a b : Operation} (hnames : Legible NamesPlain a.fieldNames b.fieldNames)
    (h : logLine a = logLine b) : a = b := by
  have htext := congrArg String.toList h
  simp only [logLine, String.toList_append, List.append_assoc] at htext
  obtain ⟨htitle, harguments⟩ := append_cons_inj_of_notMem_left a.kind.space_notMem_title
    b.kind.space_notMem_title htext
  exact showArguments_inj (OperationKind.title_injective (String.toList_inj.1 htitle)) hnames
    (String.toList_inj.1 harguments)

/-- A name that opens a bracket of its own may be read as the end of the key before it. -/
example : logLine (.insert "key".toUTF8.toList [⟨"a [ b", []⟩]) =
    logLine (.insert "key [ a".toUTF8.toList [⟨"b", []⟩]) := by
  decide +kernel

example : logLine (.update [107, 34, 92] [⟨"a", [32, 10]⟩, ⟨"b", [255]⟩]) =
    "UPDATE k\\\"\\\\ [ a=\" \\n\" b=\"\\xff\" ]" := rfl

end BasicAdapter

end StoreBench
