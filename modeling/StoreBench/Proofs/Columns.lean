import StoreBench.Proofs.Encoding
import StoreBench.Proofs.Overlay
import StoreBench.Row.Columns
import StoreBench.Row.Predicate
/-!
# Schema names and their slots

The schema of a layout is the list of its field names. A name reaches a slot exactly when it is in
the schema, since a number has one canonical spelling. The slots of a row with the schema's names
hold the key and the row's values, and everything a layout does to slots it does to such rows.
-/

namespace StoreBench

namespace Text

theorem digitChar_of_isDigit {c : Char} (h : c.isDigit) :
    Nat.digitChar (c.toNat - '0'.toNat) = c ∧ c.toNat - '0'.toNat < 10 := by
  have hrange : 48 ≤ c.toNat ∧ c.toNat ≤ 57 := by
    simpa [Char.isDigit, UInt32.le_iff_toNat_le] using h
  have hlt : c.toNat - '0'.toNat < 10 := by
    have : '0'.toNat = 48 := rfl
    omega
  refine ⟨?_, hlt⟩
  apply Char.toNat_inj.1
  rw [Nat.toNat_digitChar_of_lt_ten hlt]
  have : '0'.toNat = 48 := rfl
  omega

/-- One more digit of a number, read from the front. -/
def nextDigit? (n : Nat) (c : Char) : Option Nat :=
  if c.isDigit then some (10 * n + (c.toNat - '0'.toNat)) else none

theorem foldlM_nextDigit?_of_isDigit {cs : List Char} (h : ∀ c ∈ cs, c.isDigit) (n : Nat) :
    cs.foldlM nextDigit? n = some (Nat.ofDigitChars 10 cs n) := by
  induction cs generalizing n with
  | nil => rfl
  | cons c cs ih =>
    obtain ⟨hc, hcs⟩ := List.forall_mem_cons.1 h
    rw [List.foldlM_cons, nextDigit?, if_pos hc, Nat.ofDigitChars_cons]
    exact ih hcs _

@[simp] theorem digitsValue?_toDigits (n : Nat) : digitsValue? (Nat.toDigits 10 n) = some n := by
  have hdigits : ∀ c ∈ Nat.toDigits 10 n, c.isDigit := by
    intro c hc
    exact Nat.isDigit_of_mem_toDigits (by decide) (by decide) hc
  refine (foldlM_nextDigit?_of_isDigit hdigits 0).trans ?_
  rw [Nat.ofDigitChars_ten_toDigits]

/-- Digits read after a positive number spell the result with it. -/
theorem toDigits_append_of_foldlM {cs : List Char} {m n : Nat} (hm : 0 < m)
    (h : cs.foldlM nextDigit? m = some n) : Nat.toDigits 10 m ++ cs = Nat.toDigits 10 n := by
  induction cs generalizing m with
  | nil =>
    cases h
    exact List.append_nil _
  | cons c cs ih =>
    by_cases hc : c.isDigit
    · rw [List.foldlM_cons, nextDigit?, if_pos hc] at h
      obtain ⟨hchar, hlt⟩ := digitChar_of_isDigit hc
      have hnext := ih (by omega) h
      have hlast := Nat.toDigits_append_toDigits (by decide : 1 < 10) hm hlt
      rw [Nat.toDigits_of_lt_base hlt, hchar] at hlast
      rw [← hnext, ← hlast, List.append_assoc]
      rfl
    · rw [List.foldlM_cons, nextDigit?, if_neg hc] at h
      cases h

/-- No positive number is spelled with a zero in front. -/
theorem head?_toDigits_ne_zero {n : Nat} (h : 0 < n) : (Nat.toDigits 10 n).head? ≠ some '0' := by
  induction n using Nat.strongRecOn with
  | ind n ih =>
    by_cases hn : n < 10
    · rw [Nat.toDigits_of_lt_base hn]
      simp only [List.head?_cons, ne_eq, Option.some.injEq, Nat.digitChar_eq_zero]
      omega
    · have hfront := ih (n / 10) (by omega) (by omega)
      rw [Nat.toDigits_of_base_le (by decide) (by omega), List.head?_append]
      cases hdigits : Nat.toDigits 10 (n / 10) with
      | nil => exact absurd hdigits Nat.toDigits_ne_nil
      | cons c cs => simpa [hdigits] using hfront

end Text

open Text

theorem canonicalIndex?_of_ne_zero {c : Char} (h : c ≠ '0') (cs : List Char) :
    canonicalIndex? (c :: cs) = digitsValue? (c :: cs) := by
  unfold canonicalIndex?
  split
  · next hnil => cases hnil
  · next hzero => cases hzero; exact absurd rfl h
  · rfl

/-- Digits are accepted as an index exactly when the index is printed so. -/
theorem canonicalIndex?_eq_some_iff {cs : List Char} {n : Nat} :
    canonicalIndex? cs = some n ↔ cs = Nat.toDigits 10 n := by
  constructor
  · intro h
    cases cs with
    | nil => cases h
    | cons c cs =>
      by_cases hzero : c = '0'
      · subst hzero
        cases cs with
        | nil => cases h; rfl
        | cons d cs => cases h
      · rw [canonicalIndex?_of_ne_zero hzero] at h
        replace h : (c :: cs).foldlM nextDigit? 0 = some n := h
        by_cases hc : c.isDigit
        · obtain ⟨hchar, hlt⟩ := digitChar_of_isDigit hc
          have hpos : 0 < 10 * 0 + (c.toNat - '0'.toNat) := by
            apply Nat.pos_of_ne_zero
            intro hnot
            apply hzero
            rw [← hchar, Nat.digitChar_eq_zero]
            omega
          rw [List.foldlM_cons, nextDigit?, if_pos hc] at h
          have hdigits := toDigits_append_of_foldlM hpos h
          rwa [Nat.mul_zero, Nat.zero_add, Nat.toDigits_of_lt_base hlt, hchar] at hdigits
        · rw [List.foldlM_cons, nextDigit?, if_neg hc] at h
          cases h
  · rintro rfl
    by_cases hn : n = 0
    · subst hn
      rfl
    · have hhead := head?_toDigits_ne_zero (Nat.pos_of_ne_zero hn)
      have hvalue := digitsValue?_toDigits n
      cases hdigits : Nat.toDigits 10 n with
      | nil => exact absurd hdigits Nat.toDigits_ne_nil
      | cons c cs =>
        rw [hdigits] at hhead hvalue
        rw [canonicalIndex?_of_ne_zero (by simpa using hhead), hvalue]

/-! ## Predicates -/

theorem Predicate.names_of_pair? {low high : Row} {predicate : Predicate}
    (hlength : low.length = high.length) (h : pair? low high = .ok predicate) :
    predicate.names = low.names := by
  induction low generalizing high predicate with
  | nil =>
    cases h
    rfl
  | cons lo low ih =>
    cases high with
    | nil => cases hlength
    | cons hi high =>
      simp only [pair?] at h
      split at h
      · cases hrest : pair? low high with
        | error cause => rw [hrest] at h; cases h
        | ok rest =>
          rw [hrest] at h
          cases h
          exact congrArg (lo.name :: ·) (ih (Nat.succ.inj hlength) hrest)
      · cases h

/-- A predicate names the fields its lower bounds name. -/
theorem Predicate.names_of_ofBounds? {low high : Row} {predicate : Predicate}
    (h : ofBounds? low high = .ok predicate) : predicate.names = low.names := by
  unfold ofBounds? at h
  split at h
  · next hlength => exact names_of_pair? hlength h
  · cases h

namespace ColumnLayout

variable (layout : ColumnLayout)

/-- The names of a layout's fields, in the order of their slots. -/
def schema : List String := (List.range layout.fieldCount).map layout.fieldName

variable {layout} {i : Nat} {name : String}

theorem toList_fieldName :
    (layout.fieldName i).toList = layout.stem.toList ++ Nat.toDigits 10 i := by
  simp [fieldName]

theorem fieldName_inj {j : Nat} : layout.fieldName i = layout.fieldName j ↔ i = j := by
  constructor
  · intro h
    have hlists := congrArg String.toList h
    rw [toList_fieldName, toList_fieldName, List.append_cancel_left_eq] at hlists
    rw [← Nat.ofDigitChars_ten_toDigits (n := i), hlists, Nat.ofDigitChars_ten_toDigits]
  · rintro rfl
    rfl

@[simp] theorem length_schema : layout.schema.length = layout.fieldCount := by simp [schema]

@[simp] theorem mem_schema :
    name ∈ layout.schema ↔ ∃ i < layout.fieldCount, layout.fieldName i = name := by
  simp [schema]

theorem nodup_schema : layout.schema.Nodup :=
  List.pairwise_map.2 (List.nodup_range.imp fun hij h => hij (fieldName_inj.1 h))

theorem getElem?_schema (h : i < layout.fieldCount) :
    layout.schema[i]? = some (layout.fieldName i) := by
  simp [schema, h]

/-- The slot of a name is one past the index it ends with. -/
theorem slotOf?_fieldName (h : i < layout.fieldCount) :
    layout.slotOf? (layout.fieldName i) = .ok (i + 1) := by
  have hprefix : layout.stem.toList.isPrefixOf (layout.fieldName i).toList = true := by
    rw [toList_fieldName, List.isPrefixOf_iff_prefix]
    exact List.prefix_append ..
  have hindex : canonicalIndex? ((layout.fieldName i).toList.drop layout.stem.toList.length) =
      some i := by
    rw [toList_fieldName, List.drop_left, canonicalIndex?_eq_some_iff]
  simp only [slotOf?, hprefix, hindex, h, if_true]

/-- A name outside the schema has no slot. -/
theorem slotOf?_of_not_mem (h : name ∉ layout.schema) :
    layout.slotOf? name = .error (.unknownField name) := by
  simp only [slotOf?]
  split
  · next hprefix =>
    obtain ⟨digits, hname⟩ := List.isPrefixOf_iff_prefix.1 hprefix
    rw [← hname, List.drop_left]
    cases hindex : canonicalIndex? digits with
    | none => rfl
    | some index =>
      by_cases hlt : index < layout.fieldCount
      · refine absurd (mem_schema.2 ⟨index, hlt, ?_⟩) h
        apply String.toList_injective
        rw [toList_fieldName, ← hname, canonicalIndex?_eq_some_iff.1 hindex]
      · simp only [hlt, if_false]
  · rfl

/-! ## Rows in slots -/

/-- The slots of a row behind its key. -/
def slots (key : Bytes) (row : Row) : Slots := key :: row.map Field.value

variable (layout) in
/-- The row with nothing in its fields. -/
def blank : Row := layout.schema.map fun name => ⟨name, []⟩

theorem names_blank : layout.blank.names = layout.schema := by
  simp [blank, Row.names, Function.comp_def]

theorem slots_blank (key : Bytes) :
    slots key layout.blank = (List.replicate (layout.fieldCount + 1) []).set 0 key := by
  simp [List.replicate_succ, slots, blank, Function.comp_def, List.map_const']

/-- Slots for as many fields as a layout has need not be reserved. -/
theorem emptySlots?_of_le [Machine] {given : Nat} (hfits : layout.fieldCount + 1 < UInt64.size)
    (hgiven : layout.fieldCount ≤ given) :
    layout.emptySlots? given = .ok (List.replicate (layout.fieldCount + 1) []) := by
  have hcount : layout.slotCount? = .ok (layout.fieldCount + 1) := if_pos hfits
  simp only [emptySlots?, hcount, Nat.not_lt.2 hgiven, if_false]
  rfl

/-- Slots for fewer fields are there if they can be reserved. -/
theorem emptySlots?_of_lt [Machine] {given : Nat} (hfits : layout.fieldCount + 1 < UInt64.size)
    (hgiven : given < layout.fieldCount) :
    layout.emptySlots? given = (reserve (layout.fieldCount + 1) slotSize).map fun _ =>
      List.replicate (layout.fieldCount + 1) [] := by
  have hcount : layout.slotCount? = .ok (layout.fieldCount + 1) := if_pos hfits
  simp only [emptySlots?, hcount, hgiven, if_true]
  rfl

variable {key : Bytes} {row : Row} (h : row.names = layout.schema)

include h

theorem length_of_names_eq : row.length = layout.fieldCount := by
  have hlength := congrArg List.length h
  rwa [Row.names, List.length_map, length_schema] at hlength

theorem length_slots_of_names_eq : (slots key row).length = layout.fieldCount + 1 := by
  rw [slots, List.length_cons, List.length_map, length_of_names_eq h]

theorem name_of_getElem? {f : Field} (hf : row[i]? = some f) :
    i < layout.fieldCount ∧ f.name = layout.fieldName i := by
  have hlt : i < layout.fieldCount := by
    rw [← length_of_names_eq h]
    exact (List.getElem?_eq_some_iff.1 hf).1
  have hname : row.names[i]? = some f.name := by
    rw [Row.names, List.getElem?_map, hf, Option.map_some]
  rw [h, getElem?_schema hlt] at hname
  exact ⟨hlt, (Option.some.inj hname).symm⟩

theorem findIdx_fieldName (hlt : i < layout.fieldCount) :
    row.findIdx (·.name == layout.fieldName i) = i := by
  have hi : i < row.length := by rwa [length_of_names_eq h]
  rw [List.findIdx_eq hi]
  constructor
  · have hname := (name_of_getElem? h (List.getElem?_eq_getElem hi)).2
    simp [hname]
  · intro j hj
    have hname := (name_of_getElem? h (List.getElem?_eq_getElem (Nat.lt_trans hj hi))).2
    simp [hname, fieldName_inj, Nat.ne_of_lt hj]

theorem value?_fieldName (hlt : i < layout.fieldCount) :
    row.value? (layout.fieldName i) = row[i]?.map Field.value := by
  rw [Row.value?, List.find?_eq_getElem?_findIdx, findIdx_fieldName h hlt]

omit h in
theorem map_value_modify (row : Row) (i : Nat) (value : Bytes) :
    (row.modify i fun f => ⟨f.name, value⟩).map Field.value =
      (row.map Field.value).set i value := by
  induction row generalizing i with
  | nil => simp
  | cons f row ih => cases i <;> simp [ih]

/-- Assigning a field of the schema is writing its slot. -/
theorem slots_assign {u : Field} (hlt : i < layout.fieldCount) (hu : layout.fieldName i = u.name) :
    slots key (row.assign u) = (slots key row).set (i + 1) u.value := by
  rw [Row.assign, ← hu, findIdx_fieldName h hlt, slots, map_value_modify, slots, List.set_cons_succ]

theorem write_slots_cons {u : Field} (hu : u.name ∈ row.names) (updates : Row) :
    layout.write (slots key row) (u :: updates) =
      layout.write (slots key (row.assign u)) updates := by
  rw [h, mem_schema] at hu
  obtain ⟨i, hlt, hname⟩ := hu
  rw [write_cons, ← hname, slotOf?_fieldName hlt, slots_assign h hlt hname]

/-- Writing updates of known names assigns them. -/
theorem write_slots {updates : Row} (hupdates : ∀ u ∈ updates, u.name ∈ row.names) :
    layout.write (slots key row) updates = (slots key (row.assignAll updates), none) := by
  induction updates generalizing row with
  | nil => rfl
  | cons u updates ih =>
    obtain ⟨hu, hrest⟩ := List.forall_mem_cons.1 hupdates
    rw [write_slots_cons h hu, Row.assignAll_cons]
    exact ih (by rw [Row.names_assign, h]) (by rwa [Row.names_assign])

/-- Writing stops at the first name the row lacks. -/
theorem write_slots_unknown (key : Bytes) {updates : Row} {u : Field}
    (hu : row.firstUnknown? updates = some u) :
    (layout.write (slots key row) updates).2 = some u.name := by
  induction updates generalizing row with
  | nil => cases hu
  | cons v updates ih =>
    by_cases hv : v.name ∈ row.names
    · rw [write_slots_cons h hv]
      refine ih (by rw [Row.names_assign, h]) ?_
      simpa [Row.firstUnknown?, hv] using hu
    · have hfirst : row.firstUnknown? (v :: updates) = some v := by simp [Row.firstUnknown?, hv]
      cases hfirst.symm.trans hu
      rw [h] at hv
      rw [write_cons, slotOf?_of_not_mem hv]

/-- The fields found in the slots of a row are the row's. -/
theorem row_slots : layout.row (slots key row) = row := by
  apply List.ext_getElem?
  intro i
  rw [ColumnLayout.row, slots, List.tail_cons, List.getElem?_mapIdx, List.getElem?_map]
  cases hf : row[i]? with
  | none => rfl
  | some f =>
    have hname := (name_of_getElem? h hf).2
    simp [← hname]

theorem slotValue?_of_mem {f : Field} (hf : f ∈ row) :
    layout.slotValue? (slots key row) f.name = .ok f.value := by
  obtain ⟨i, hi⟩ := List.getElem?_of_mem hf
  obtain ⟨hlt, hname⟩ := name_of_getElem? h hi
  have hslot : (slots key row)[i + 1]? = some f.value := by
    rw [slots, List.getElem?_cons_succ, List.getElem?_map, hi, Option.map_some]
  simp only [slotValue?, hname, slotOf?_fieldName hlt, hslot]

/-- Looking at the slots of the fields a predicate names is looking them up. -/
theorem matchesAt_slots {predicate : Predicate} {positions : List Nat}
    (hpositions : predicate.names.mapM layout.slotOf? = .ok positions) :
    predicate.matchesAt positions (slots key row) = predicate.matchesRow row := by
  induction predicate generalizing positions with
  | nil => rfl
  | cons range predicate ih =>
    rw [Predicate.names, List.map_cons, List.mapM_cons] at hpositions
    by_cases hname : range.name ∈ layout.schema
    · obtain ⟨i, hlt, hi⟩ := mem_schema.1 hname
      rw [← hi, slotOf?_fieldName hlt] at hpositions
      cases hrest : (Predicate.names predicate).mapM layout.slotOf? with
      | error cause => rw [← Predicate.names, hrest] at hpositions; cases hpositions
      | ok rest =>
        rw [← Predicate.names, hrest] at hpositions
        cases hpositions
        have hvalue := value?_fieldName h hlt
        simp only [Predicate.matchesAt, Predicate.matchesRow, List.zip_cons_cons, List.all_cons,
          ← hi, hvalue, slots, List.getElem?_cons_succ, List.getElem?_map]
        exact congrArg _ (ih hrest)
    · rw [slotOf?_of_not_mem hname] at hpositions
      cases hpositions

omit h in
/-- Schema names all have their slots. -/
theorem exists_mapM_slotOf? {names : List String} (hnames : ∀ name ∈ names, name ∈ layout.schema) :
    ∃ positions, names.mapM layout.slotOf? = .ok positions := by
  induction names with
  | nil => exact ⟨[], rfl⟩
  | cons name names ih =>
    obtain ⟨hname, hrest⟩ := List.forall_mem_cons.1 hnames
    obtain ⟨i, hlt, rfl⟩ := mem_schema.1 hname
    obtain ⟨positions, hpositions⟩ := ih hrest
    refine ⟨(i + 1) :: positions, ?_⟩
    rw [List.mapM_cons, slotOf?_fieldName hlt, hpositions]
    rfl

omit h in
/-- Fields whose values are in their slots are read from there. -/
theorem mapM_slotValue? {held : Slots} {fields : Row}
    (hfields : ∀ f ∈ fields, layout.slotValue? held f.name = .ok f.value) :
    (fields.names.mapM fun name => do return Field.mk name (← layout.slotValue? held name)) =
      .ok fields := by
  induction fields with
  | nil => rfl
  | cons f fields ih =>
    obtain ⟨hf, hrest⟩ := List.forall_mem_cons.1 hfields
    rw [Row.names, List.map_cons, List.mapM_cons, hf]
    show (do
      let rest ← (Row.names fields).mapM fun name => do
        return Field.mk name (← layout.slotValue? held name)
      return f :: rest) = _
    rw [ih hrest]
    rfl

/-! ## Layouts as programs -/

section Programs

variable {ι : Interface} {σ : Type}
  (answer : (request : ι.Request) → σ → ι.Answer request × σ) (s : σ)
  (hfits : layout.fieldCount + 1 < UInt64.size)

include hfits

theorem evaluate_check :
    Attempt.evaluate answer (layout.check (slots key row)) s = (.ok (), s) := by
  have hcount : layout.slotCount? = .ok (layout.fieldCount + 1) := if_pos hfits
  rw [check, hcount, Attempt.evaluate_bind_ok answer (Attempt.evaluate_ofExcept answer _ s),
    length_slots_of_names_eq h]
  simp

theorem evaluate_overlay (key : Bytes) (updates : Row) :
    Program.evaluate answer (layout.overlay (slots key row) updates) s =
      match layout.write (slots key row) updates with
      | (written, none) => ((.ok (), written), s)
      | (written, some name) => ((.error (.raised (.unknownField name)), written), s) := by
  have hcheck : Program.evaluate answer (layout.check (slots key row)).run s = (.ok (), s) :=
    evaluate_check h answer s hfits
  rw [overlay, Program.evaluate_bind, hcheck]
  rcases layout.write (slots key row) updates with ⟨written, _ | name⟩ <;> rfl

/-- Updates of a row are laid over its slots, unless one of them is unknown. -/
theorem evaluate_overlaid (key : Bytes) (updates : Row) :
    Attempt.evaluate answer (layout.overlaid (slots key row) updates) s =
      (match row.firstUnknown? updates with
        | some u => .error (.raised (.unknownField u.name))
        | none => .ok (slots key (row.assignAll updates)), s) := by
  rw [overlaid, Attempt.evaluate_bind, Attempt.evaluate_lift, evaluate_overlay h answer s hfits]
  cases hunknown : row.firstUnknown? updates with
  | none =>
    rw [write_slots h (Row.firstUnknown?_eq_none_iff.1 hunknown)]
    rfl
  | some u =>
    have hwrite := write_slots_unknown h key hunknown
    rcases hwritten : layout.write (slots key row) updates with ⟨written, _ | name⟩
    · rw [hwritten] at hwrite
      cases hwrite
    · rw [hwritten] at hwrite
      cases hwrite
      rfl

theorem evaluate_encode [Machine] (key : Bytes) :
    Attempt.evaluate answer (layout.encode key row) s = (.ok (slots key row), s) := by
  have hempty : layout.emptySlots? row.length = .ok (List.replicate (layout.fieldCount + 1) []) :=
    emptySlots?_of_le hfits (Nat.le_of_eq (length_of_names_eq h).symm)
  have hknown : layout.blank.firstUnknown? row = none := by
    rw [Row.firstUnknown?_eq_none_iff]
    intro f hf
    rw [names_blank, ← h]
    exact List.mem_map_of_mem hf
  -- Laying out a row is overlaying it on the blank one, and that leaves nothing of the blank row.
  have hassigned : layout.blank.assignAll row = row :=
    Row.assignAll_eq_self (h.trans names_blank.symm) (h ▸ nodup_schema)
  rw [encode, Attempt.evaluate_bind_ok answer (Attempt.evaluate_click answer _ s), hempty,
    Attempt.evaluate_bind_ok answer (Attempt.evaluate_ofExcept answer _ s), ← slots_blank,
    evaluate_overlaid names_blank answer s hfits, hknown]
  simp only [hassigned]

end Programs

end ColumnLayout

end StoreBench
