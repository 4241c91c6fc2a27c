import StoreBench.Proofs.TupleStores
/-!
# Laws of a layout

Names and slots are in bijection. Laying fields out keeps the last value given for each name and
leaves the other slots empty; laying more fields over the slots is laying out all of them together;
and slots are got back from their key and their fields. Fields are picked from slots by name as from
the row that the slots decode to. A name outside the schema is refused, the first one if there are
several, and so are slots that are not as many as the layout has.
-/

namespace StoreBench

namespace Row

/-- Assigning a field to a row whose names differ, given by the value of each name. -/
theorem assign_map {names : List String} (h : names.Nodup) (value : String → Bytes) (u : Field) :
    assign (names.map fun name => ⟨name, value name⟩) u =
      names.map fun name => ⟨name, if name = u.name then u.value else value name⟩ := by
  induction names with
  | nil => rfl
  | cons name names ih =>
    obtain ⟨hfresh, hrest⟩ := List.nodup_cons.1 h
    by_cases hname : name = u.name
    · have hothers : ∀ other ∈ names, other ≠ u.name := by
        rintro other hother rfl
        exact hfresh (hname ▸ hother)
      rw [List.map_cons, List.map_cons, assign_cons_eq hname, if_pos hname]
      refine congrArg _ (List.map_congr_left fun other hother => ?_)
      rw [if_neg (hothers other hother)]
    · rw [List.map_cons, List.map_cons, assign_cons_ne hname, ih hrest, if_neg hname]

/-- The value of the last field with the name. -/
def lastValue? (name : String) (row : Row) : Option Bytes := value? name row.reverse

@[simp] theorem lastValue?_nil (name : String) : lastValue? name [] = none := rfl

theorem lastValue?_append (name : String) (row more : Row) :
    lastValue? name (row ++ more) = (lastValue? name more).or (lastValue? name row) := by
  simp [lastValue?, value?, List.find?_append, Option.map_or]

/-- Of fields that are assigned one after another the last one with a name counts. -/
theorem assignAll_map {names : List String} (h : names.Nodup) (value : String → Bytes)
    (updates : Row) :
    assignAll (names.map fun name => ⟨name, value name⟩) updates =
      names.map fun name => ⟨name, (lastValue? name updates).getD (value name)⟩ := by
  induction updates generalizing value with
  | nil => rfl
  | cons u updates ih =>
    rw [assignAll_cons, assign_map h, ih]
    refine List.map_congr_left fun name _ => congrArg (Field.mk name) ?_
    rw [← List.singleton_append, lastValue?_append]
    cases lastValue? name updates with
    | some last => rfl
    | none =>
      by_cases hname : name = u.name
      · simp [lastValue?, value?, hname]
      · simp [lastValue?, value?, hname, Ne.symm hname]

/-- The value of the first field with the name, which has to be there. -/
def lookup (row : Row) (name : String) : Except Failure Bytes :=
  match row.value? name with
  | some value => .ok value
  | none => .error (.raised (.unknownField name))

end Row

namespace ColumnLayout

variable {layout : ColumnLayout} {name : String}

/-! ## Names and slots -/

theorem slotOf?_eq_ok_iff {slot : Nat} :
    layout.slotOf? name = .ok slot ↔
      1 ≤ slot ∧ slot ≤ layout.fieldCount ∧ name = layout.fieldName (slot - 1) := by
  constructor
  · intro h
    by_cases hname : name ∈ layout.schema
    · obtain ⟨i, hi, rfl⟩ := mem_schema.1 hname
      rw [slotOf?_fieldName hi] at h
      cases h
      exact ⟨Nat.le_add_left 1 i, hi, rfl⟩
    · rw [slotOf?_of_not_mem hname] at h
      cases h
  · rintro ⟨hpos, hle, rfl⟩
    rw [slotOf?_fieldName (by omega), Nat.sub_add_cancel hpos]

theorem slotOf?_eq_unknownField_iff :
    layout.slotOf? name = .error (.unknownField name) ↔ name ∉ layout.schema := by
  refine ⟨fun h hname => ?_, slotOf?_of_not_mem⟩
  obtain ⟨i, hi, rfl⟩ := mem_schema.1 hname
  rw [slotOf?_fieldName hi] at h
  cases h

/-- A name has a slot exactly if it is the name of the field in that slot, and every other name is
unknown. So no two names share a slot, and none has that of the key. -/
theorem slotOf?_biject (layout : ColumnLayout) :
    (∀ name slot, layout.slotOf? name = .ok slot ↔
      1 ≤ slot ∧ slot ≤ layout.fieldCount ∧ name = layout.fieldName (slot - 1)) ∧
    (∀ name, layout.slotOf? name = .error (.unknownField name) ↔
      ∀ i < layout.fieldCount, name ≠ layout.fieldName i) ∧
    (∀ name other slot, layout.slotOf? name = .ok slot → layout.slotOf? other = .ok slot →
      name = other) ∧
    ∀ name, layout.slotOf? name ≠ .ok 0 := by
  refine ⟨fun _ _ => slotOf?_eq_ok_iff, fun name => ?_, fun name other slot hname hother => ?_,
    fun name hname => ?_⟩
  · simp [slotOf?_eq_unknownField_iff, eq_comm]
  · rw [(slotOf?_eq_ok_iff.1 hname).2.2, (slotOf?_eq_ok_iff.1 hother).2.2]
  · exact absurd (slotOf?_eq_ok_iff.1 hname).1 (by decide)

/-! ## Rows laid out -/

/-- What fields come to when they are laid out: every field of the schema, with the last value given
for it. -/
def gather (layout : ColumnLayout) (fields : Row) : Row :=
  layout.schema.map fun name => ⟨name, (Row.lastValue? name fields).getD []⟩

/-- The first of the fields whose name is not in the schema. -/
def firstUnknown? (layout : ColumnLayout) (fields : Row) : Option Field :=
  fields.find? fun f => f.name ∉ layout.schema

/-- Whether memory holds the slots of a row of which so many fields are given. -/
def HasRoom [Machine] (layout : ColumnLayout) (given : Nat) : Prop :=
  given < layout.fieldCount → FitsMemory (layout.fieldCount + 1) slotSize

instance [Machine] (layout : ColumnLayout) : DecidablePred layout.HasRoom := fun given =>
  inferInstanceAs (Decidable (given < layout.fieldCount → _))

@[simp] theorem names_gather (fields : Row) : (layout.gather fields).names = layout.schema := by
  simp [gather, Row.names, Function.comp_def]

theorem assignAll_blank (fields : Row) : layout.blank.assignAll fields = layout.gather fields :=
  Row.assignAll_map nodup_schema _ fields

theorem assignAll_gather (fields more : Row) :
    (layout.gather fields).assignAll more = layout.gather (fields ++ more) := by
  rw [gather, Row.assignAll_map nodup_schema, gather]
  refine List.map_congr_left fun name _ => congrArg (Field.mk name) ?_
  rw [Row.lastValue?_append]
  cases Row.lastValue? name more <;> rfl

theorem firstUnknown?_eq {row : Row} (h : row.names = layout.schema) (fields : Row) :
    row.firstUnknown? fields = layout.firstUnknown? fields := by
  rw [Row.firstUnknown?, h, firstUnknown?]

theorem firstUnknown?_eq_none_iff {fields : Row} :
    layout.firstUnknown? fields = none ↔ ∀ f ∈ fields, f.name ∈ layout.schema := by
  simp [firstUnknown?]

/-- Writing fields leaves the key alone, also when it stops at an unknown name. -/
theorem head?_write (slots : Slots) (fields : Row) :
    (layout.write slots fields).1.head? = slots.head? := by
  induction fields generalizing slots with
  | nil => rfl
  | cons f fields ih =>
    rw [write_cons]
    cases hslot : layout.slotOf? f.name with
    | error => rfl
    | ok slot =>
      have hpos := (slotOf?_eq_ok_iff.1 hslot).1
      refine (ih _).trans ?_
      rw [List.head?_eq_getElem?, List.head?_eq_getElem?, List.getElem?_set_ne (by omega)]

theorem emptySlots?_of_hasRoom [Machine] {given : Nat} (hfits : layout.fieldCount + 1 < UInt64.size)
    (hroom : layout.HasRoom given) :
    layout.emptySlots? given = .ok (List.replicate (layout.fieldCount + 1) []) := by
  by_cases hgiven : given < layout.fieldCount
  · rw [emptySlots?_of_lt hfits hgiven, reserve_eq_ok_iff.2 (hroom hgiven)]
    rfl
  · exact emptySlots?_of_le hfits (Nat.not_lt.1 hgiven)

theorem exists_shapes {held : Slots} (h : held.length = layout.fieldCount + 1) :
    ∃ key, layout.Shapes key held := by
  cases held with
  | nil => cases h
  | cons key rest => exact ⟨key, h, rfl⟩

/-- A slot is looked at as the field is looked up in the row. -/
theorem slotValue?_eq_lookup {held : Slots} (h : held.length = layout.fieldCount + 1)
    (name : String) : layout.slotValue? held name = (layout.row held).lookup name := by
  have hnames := names_row h
  by_cases hname : name ∈ layout.schema
  · obtain ⟨i, hi, rfl⟩ := mem_schema.1 hname
    have hslot : i + 1 < held.length := by omega
    have hvalue : (layout.row held).value? (layout.fieldName i) = some held[i + 1] := by
      rw [value?_fieldName hnames hi]
      simp [row, hslot]
    simp only [slotValue?, slotOf?_fieldName hi, List.getElem?_eq_getElem hslot, Row.lookup, hvalue]
  · have hvalue : (layout.row held).value? name = none := by
      rw [Row.value?, Option.map_eq_none_iff, List.find?_eq_none]
      intro f hf hfound
      rw [beq_iff_eq] at hfound
      exact hname (hnames ▸ hfound ▸ List.mem_map_of_mem hf)
    simp only [slotValue?, slotOf?_of_not_mem hname, Row.lookup, hvalue]

/-! ## Laws -/

section Laws

variable {ι : Interface} {σ : Type}
  (answer : (request : ι.Request) → σ → ι.Answer request × σ) (s : σ)

/-- How laying out, overlaying, decoding and picking fields go together, whatever they are run
against. Slots other than as many as the layout has are refused by all of them but the first. -/
structure CodecLaws [Machine] (layout : ColumnLayout) : Prop where
  encode : ∀ key fields, layout.HasRoom fields.length → layout.firstUnknown? fields = none →
    ∃ laid, Attempt.evaluate answer (layout.encode key fields) s = (.ok laid, s) ∧
      laid.length = layout.fieldCount + 1 ∧ laid.head? = some key ∧
      Attempt.evaluate answer (layout.decode laid) s = (.ok (layout.gather fields), s)
  encode_unknown : ∀ key fields u, layout.HasRoom fields.length →
    layout.firstUnknown? fields = some u →
    Attempt.evaluate answer (layout.encode key fields) s =
      (.error (.raised (.unknownField u.name)), s)
  overlay_encode : ∀ key fields more laid, layout.HasRoom fields.length →
    layout.firstUnknown? more = none →
    Attempt.evaluate answer (layout.encode key fields) s = (.ok laid, s) →
    ∃ again, Program.evaluate answer (layout.overlay laid more) s = ((.ok (), again), s) ∧
      Attempt.evaluate answer (layout.encode key (fields ++ more)) s = (.ok again, s)
  overlay_unknown : ∀ held fields u, held.length = layout.fieldCount + 1 →
    layout.firstUnknown? fields = some u →
    ∃ written, Program.evaluate answer (layout.overlay held fields) s =
      ((.error (.raised (.unknownField u.name)), written), s)
  overlay_key : ∀ held fields,
    (Program.evaluate answer (layout.overlay held fields) s).1.2.head? = held.head?
  decode : ∀ held, held.length = layout.fieldCount + 1 →
    ∃ row, Attempt.evaluate answer (layout.decode held) s = (.ok row, s) ∧
      row.names = layout.schema ∧ row.map Field.value = held.tail ∧
      (∀ name, Attempt.evaluate answer (layout.value held name) s = (row.lookup name, s)) ∧
      (∀ wanted, Attempt.evaluate answer (layout.select wanted held) s =
        (wanted.mapM fun name => (row.lookup name).map (Field.mk name), s)) ∧
      ∀ key, held.head? = some key →
        Attempt.evaluate answer (layout.encode key row) s = (.ok held, s)
  other_length : ∀ held, held.length ≠ layout.fieldCount + 1 →
    let corrupt : Failure :=
      .raised (.corruptRow (.slotCount (layout.fieldCount + 1) held.length))
    Attempt.evaluate answer (layout.decode held) s = (.error corrupt, s) ∧
      (∀ wanted, Attempt.evaluate answer (layout.select wanted held) s = (.error corrupt, s)) ∧
      (∀ name, Attempt.evaluate answer (layout.value held name) s = (.error corrupt, s)) ∧
      ∀ fields, Program.evaluate answer (layout.overlay held fields) s =
        ((.error corrupt, held), s)

/-- Fields that there is no room for are not looked at. -/
theorem evaluate_encode_of_no_room [Machine] (key : Bytes) (fields : Row) {failure : Failure}
    (h : layout.emptySlots? fields.length = .error failure) :
    Attempt.evaluate answer (layout.encode key fields) s = (.error failure, s) := by
  rw [encode, Attempt.evaluate_bind_ok answer (Attempt.evaluate_click answer _ s), h,
    Attempt.evaluate_bind_error answer (Attempt.evaluate_ofExcept answer _ s)]

variable (hfits : layout.fieldCount + 1 < UInt64.size)

include hfits

/-- Laying out fields is overlaying them on the blank row. -/
theorem evaluate_encode_gather [Machine] {fields : Row} (hroom : layout.HasRoom fields.length)
    (key : Bytes) :
    Attempt.evaluate answer (layout.encode key fields) s =
      (match layout.firstUnknown? fields with
        | some u => .error (.raised (.unknownField u.name))
        | none => .ok (slots key (layout.gather fields)), s) := by
  have hoverlaid := evaluate_overlaid (ι := ι) names_blank answer s hfits key fields
  rw [firstUnknown?_eq names_blank, assignAll_blank, slots_blank] at hoverlaid
  rw [encode, Attempt.evaluate_bind_ok answer (Attempt.evaluate_click answer _ s),
    emptySlots?_of_hasRoom hfits hroom,
    Attempt.evaluate_bind_ok answer (Attempt.evaluate_ofExcept answer _ s)]
  exact hoverlaid

/-- Fields are laid out where all of them are known. -/
theorem evaluate_encode_eq_ok_iff [Machine] {fields : Row} (hroom : layout.HasRoom fields.length)
    {key : Bytes} {laid : Slots} :
    Attempt.evaluate answer (layout.encode key fields) s = (.ok laid, s) ↔
      layout.firstUnknown? fields = none ∧ slots key (layout.gather fields) = laid := by
  rw [evaluate_encode_gather answer s hfits hroom]
  cases layout.firstUnknown? fields <;> simp

/-- More fields are laid over a row by gathering them with the others. -/
theorem evaluate_overlay_gather {fields more : Row} (hmore : layout.firstUnknown? more = none)
    (key : Bytes) :
    Program.evaluate answer (layout.overlay (slots key (layout.gather fields)) more) s =
      ((.ok (), slots key (layout.gather (fields ++ more))), s) := by
  have hknown : ∀ f ∈ more, f.name ∈ (layout.gather fields).names := by
    rw [names_gather]
    exact firstUnknown?_eq_none_iff.1 hmore
  rw [evaluate_overlay (names_gather fields) answer s hfits,
    write_slots (names_gather fields) hknown, assignAll_gather]

variable {held : Slots}

theorem exists_written_of_unknown (h : held.length = layout.fieldCount + 1) {fields : Row}
    {u : Field} (hu : layout.firstUnknown? fields = some u) :
    ∃ written, Program.evaluate answer (layout.overlay held fields) s =
      ((.error (.raised (.unknownField u.name)), written), s) := by
  obtain ⟨key, hshapes⟩ := exists_shapes h
  have hnames := names_row h
  have hstops := write_slots_unknown hnames key ((firstUnknown?_eq hnames fields).trans hu)
  have hoverlay := evaluate_overlay hnames answer s hfits key fields
  rcases hwritten : layout.write (slots key (layout.row held)) fields with ⟨written, _ | name⟩
  · rw [hwritten] at hstops
    cases hstops
  · rw [hwritten] at hstops hoverlay
    cases hstops
    rw [hshapes.slots_row] at hoverlay
    exact ⟨written, hoverlay⟩

theorem evaluate_value (h : held.length = layout.fieldCount + 1) (name : String) :
    Attempt.evaluate answer (layout.value held name) s = ((layout.row held).lookup name, s) := by
  obtain ⟨key, hshapes⟩ := exists_shapes h
  rw [value, Attempt.evaluate_bind_ok answer (hshapes.evaluate_check answer s hfits),
    Attempt.evaluate_ofExcept, slotValue?_eq_lookup h]

theorem evaluate_select (h : held.length = layout.fieldCount + 1) (wanted : List String) :
    Attempt.evaluate answer (layout.select wanted held) s =
      (wanted.mapM fun name => ((layout.row held).lookup name).map (Field.mk name), s) := by
  obtain ⟨key, hshapes⟩ := exists_shapes h
  have hpick : ∀ name ∈ wanted,
      (do return Field.mk name (← layout.slotValue? held name) : Except Failure Field) =
        ((layout.row held).lookup name).map (Field.mk name) := by
    intro name _
    rw [slotValue?_eq_lookup h]
    cases (layout.row held).lookup name <;> rfl
  rw [select, Attempt.evaluate_bind_ok answer (Attempt.evaluate_click answer _ s),
    Attempt.evaluate_bind_ok answer (hshapes.evaluate_check answer s hfits),
    Attempt.evaluate_ofExcept, mapM_congr_of_mem hpick]

theorem evaluate_decode (h : held.length = layout.fieldCount + 1) :
    Attempt.evaluate answer (layout.decode held) s = (.ok (layout.row held), s) := by
  obtain ⟨key, hshapes⟩ := exists_shapes h
  rw [decode, Attempt.evaluate_bind_ok answer (Attempt.evaluate_click answer _ s),
    Attempt.evaluate_bind_ok answer (hshapes.evaluate_check answer s hfits),
    Attempt.evaluate_pure]

/-- Slots are got back from their key and their fields. -/
theorem evaluate_encode_row [Machine] {key : Bytes} (h : layout.Shapes key held) :
    Attempt.evaluate answer (layout.encode key (layout.row held)) s = (.ok held, s) := by
  have hencode := evaluate_encode (names_row h.1) answer s hfits key
  rwa [h.slots_row] at hencode

theorem evaluate_check_other (h : held.length ≠ layout.fieldCount + 1) :
    Attempt.evaluate answer (layout.check held) s =
      (.error (.raised (.corruptRow (.slotCount (layout.fieldCount + 1) held.length))), s) := by
  have hcount : layout.slotCount? = .ok (layout.fieldCount + 1) := if_pos hfits
  rw [check, hcount, Attempt.evaluate_bind_ok answer (Attempt.evaluate_ofExcept answer _ s),
    if_pos h, Attempt.evaluate_bind_ok answer (Attempt.evaluate_click answer _ s),
    Attempt.evaluate_raise]

omit hfits in
theorem head?_overlay (held : Slots) (fields : Row) :
    (Program.evaluate answer (layout.overlay held fields) s).1.2.head? = held.head? := by
  rw [overlay, Program.evaluate_bind]
  cases hcheck : (Program.evaluate answer (layout.check held).run s).1 with
  | error failure => rfl
  | ok _ =>
    have hkept := layout.head?_write held fields
    rcases hwritten : layout.write held fields with ⟨written, _ | name⟩ <;>
      (rw [hwritten] at hkept; exact hkept)

/-- The laws hold of every layout whose slots can be counted. -/
theorem codec_laws [Machine] : layout.CodecLaws answer s where
  encode key fields hroom hknown := by
    have hencode : Attempt.evaluate answer (layout.encode key fields) s =
        (.ok (slots key (layout.gather fields)), s) :=
      (evaluate_encode_eq_ok_iff answer s hfits hroom).2 ⟨hknown, rfl⟩
    have hlength : (slots key (layout.gather fields)).length = layout.fieldCount + 1 :=
      length_slots_of_names_eq (names_gather fields)
    refine ⟨_, hencode, hlength, rfl, ?_⟩
    rw [evaluate_decode answer s hfits hlength, row_slots (names_gather fields)]
  encode_unknown key fields u hroom hu := by
    rw [evaluate_encode_gather answer s hfits hroom, hu]
  overlay_encode key fields more laid hroom hmore hencode := by
    obtain ⟨hknown, rfl⟩ := (evaluate_encode_eq_ok_iff answer s hfits hroom).1 hencode
    have hboth : layout.firstUnknown? (fields ++ more) = none := by
      rw [firstUnknown?, List.find?_append]
      exact Option.or_eq_none_iff.2 ⟨hknown, hmore⟩
    have hroom' : layout.HasRoom (fields ++ more).length := by
      intro hgiven
      rw [List.length_append] at hgiven
      exact hroom (by omega)
    exact ⟨_, evaluate_overlay_gather answer s hfits hmore key,
      (evaluate_encode_eq_ok_iff answer s hfits hroom').2 ⟨hboth, rfl⟩⟩
  overlay_unknown held fields u h hu := exists_written_of_unknown answer s hfits h hu
  overlay_key held fields := head?_overlay answer s held fields
  decode held h := by
    obtain ⟨key, hshapes⟩ := exists_shapes h
    refine ⟨layout.row held, evaluate_decode answer s hfits h, names_row h, ?_,
      evaluate_value answer s hfits h, evaluate_select answer s hfits h, fun key hkey =>
        evaluate_encode_row answer s hfits ⟨h, hkey⟩⟩
    exact congrArg List.tail hshapes.slots_row
  other_length held h := by
    have hcheck := evaluate_check_other answer s hfits h
    refine ⟨?_, fun wanted => ?_, fun name => ?_, fun fields => ?_⟩
    · rw [decode, Attempt.evaluate_bind_ok answer (Attempt.evaluate_click answer _ s),
        Attempt.evaluate_bind_error answer hcheck]
    · rw [select, Attempt.evaluate_bind_ok answer (Attempt.evaluate_click answer _ s),
        Attempt.evaluate_bind_error answer hcheck]
    · rw [value, Attempt.evaluate_bind_error answer hcheck]
    · have hrun : Program.evaluate answer (layout.check held).run s = _ := hcheck
      rw [overlay, Program.evaluate_bind, hrun]
      rfl

end Laws

section

attribute [local instance] Machine.largest

/-- Two fields with a stem that ends in a digit: the second one is given twice and out of order, and
then the first one is overlaid. -/
theorem codec_laws_two :
    let layout : ColumnLayout := ⟨"f1", 2⟩
    let answer (request : Empty) (_ : Unit) := nomatch request
    let fields : Row := [⟨"f11", [1]⟩, ⟨"f10", [2]⟩, ⟨"f11", [3]⟩]
    layout.fieldCount + 1 < UInt64.size ∧ ∃ laid again,
      Attempt.evaluate (ι := .silent) answer (layout.encode [107] fields) () = (.ok laid, ()) ∧
      Attempt.evaluate (ι := .silent) answer (layout.decode laid) () =
        (.ok [⟨"f10", [2]⟩, ⟨"f11", [3]⟩], ()) ∧
      Program.evaluate (ι := .silent) answer (layout.overlay laid [⟨"f10", [4]⟩]) () =
        ((.ok (), again), ()) ∧
      again.head? = some [107] := by
  intro layout answer fields
  have hfits : layout.fieldCount + 1 < UInt64.size := by decide
  have laws := codec_laws (ι := .silent) answer () hfits
  have hroom : layout.HasRoom fields.length := by decide
  obtain ⟨laid, hencode, -, hkey, hdecode⟩ := laws.encode [107] fields hroom (by decide)
  obtain ⟨again, hoverlay, -⟩ :=
    laws.overlay_encode [107] fields [⟨"f10", [4]⟩] laid hroom (by decide) hencode
  have hgather : layout.gather fields = [⟨"f10", [2]⟩, ⟨"f11", [3]⟩] := by decide
  have hkept := laws.overlay_key laid [⟨"f10", [4]⟩]
  rw [hoverlay, hkey] at hkept
  exact ⟨hfits, laid, again, hencode, hgather ▸ hdecode, hoverlay, hkept⟩

end

section

attribute [local instance] Machine.largest

/-- The slots of so many fields have their numbers, but no memory holds them, whether or not the
fields to be laid out are known. -/
theorem encode_wide_faults :
    let layout : ColumnLayout := ⟨"f", 1 <<< 60⟩
    let answer (request : Empty) (_ : Unit) := nomatch request
    layout.fieldCount + 1 < UInt64.size ∧
      (layout.firstUnknown? [⟨"f0", [97]⟩] = none ∧
        Attempt.evaluate (ι := .silent) answer (layout.encode [107] [⟨"f0", [97]⟩]) () =
          (.error .fault, ())) ∧
      layout.firstUnknown? [⟨"g0", [97]⟩] = some ⟨"g0", [97]⟩ ∧
        Attempt.evaluate (ι := .silent) answer (layout.encode [107] [⟨"g0", [97]⟩]) () =
          (.error .fault, ()) := by
  intro layout answer
  have hknown : "f0" ∈ layout.schema := mem_schema.2 ⟨0, by decide, rfl⟩
  have hunknown : "g0" ∉ layout.schema := by
    rw [← slotOf?_eq_unknownField_iff]
    simp [slotOf?, layout]
  have hfault : layout.emptySlots? 1 = .error .fault := by
    rw [emptySlots?_of_lt (by decide) (by decide), reserve_eq_error_iff.2 (.inl ⟨rfl, by decide⟩)]
    rfl
  have hencode (f : Field) := evaluate_encode_of_no_room (ι := .silent) answer () [107] [f] hfault
  refine ⟨by decide, ⟨?_, hencode _⟩, ?_, hencode _⟩
  · simpa [firstUnknown?] using hknown
  · simpa [firstUnknown?] using hunknown

end

end ColumnLayout

end StoreBench
