import StoreBench.Proofs.Evaluation
import StoreBench.Row.Encoding
/-!
# Exactness of the schemaless encoding

Every row has at most one encoding, the concatenation of its framed names and values, and it has
one exactly when all of them are short enough. Decoding accepts these encodings and nothing else.
A selecting decode of an encoding takes the wanted names in one forward pass over the row itself.
-/

namespace StoreBench

namespace Bytes

theorem ofText_injective {s t : String} (h : ofText s = ofText t) : s = t := by
  rw [← String.toByteArray_inj, ByteArray.ext_iff, ← Array.toList_inj]
  exact h

@[simp] theorem ofText_inj {s t : String} : ofText s = ofText t ↔ s = t :=
  ⟨ofText_injective, congrArg ofText⟩

/-- Well-formed UTF-8 is the encoding of one text. -/
theorem toText?_eq_some_iff {b : Bytes} {s : String} : toText? b = some s ↔ ofText s = b := by
  constructor
  · intro h
    simp only [toText?, String.fromUTF8?] at h
    split at h
    · cases h
      simp [ofText, String.fromUTF8]
    · cases h
  · rintro rfl
    have hs : (⟨(ofText s).toArray⟩ : ByteArray) = s.toByteArray := by simp [ofText]
    simp only [toText?, String.fromUTF8?, hs, s.isValidUTF8, dif_pos]
    rfl

/-- A part preceded by its length. -/
def framed (part : Bytes) : Bytes := ofNatLE 4 part.length ++ part

@[simp] theorem length_framed (part : Bytes) : (framed part).length = 4 + part.length := by
  simp [framed]

end Bytes

namespace Field

/-- The encoding of a field, meant for parts that are short enough. -/
def bytes (f : Field) : Bytes := Bytes.framed (Bytes.ofText f.name) ++ Bytes.framed f.value

theorem bytes_ne_nil (f : Field) : f.bytes ≠ [] := by
  have h : 0 < f.bytes.length := by
    simp only [bytes, List.length_append, Bytes.length_framed]
    omega
  exact List.ne_nil_of_length_pos h

theorem encodePart?_of_not_lt {what : String} {part : Bytes} (h : ¬ part.length < UInt32.size) :
    encodePart? what part = .error (.longPart what part.length) := if_neg h

theorem encode?_eq_bytes {f : Field} (h : f.Encodable) : f.encode? = .ok f.bytes :=
  encode?_of_encodable h

instance : DecidablePred Encodable := fun f =>
  inferInstanceAs (Decidable ((Bytes.ofText f.name).length < UInt32.size ∧ _))

/-- A field that cannot be encoded is refused for the length of a part. -/
theorem exists_longPart_of_not_encodable {f : Field} (h : ¬ f.Encodable) :
    ∃ part length, f.encode? = .error (.longPart part length) := by
  by_cases hn : (Bytes.ofText f.name).length < UInt32.size
  · have hv : ¬ f.value.length < UInt32.size := fun hv => h ⟨hn, hv⟩
    refine ⟨"field value", f.value.length, ?_⟩
    rw [encode?, encodePart?_of_lt hn, encodePart?_of_not_lt hv]
    rfl
  · refine ⟨"field name", (Bytes.ofText f.name).length, ?_⟩
    rw [encode?, encodePart?_of_not_lt hn]
    rfl

end Field

namespace Cursor

variable {c c' : Cursor}

theorem readBytes_append {rest part tail : Bytes} {offset : Nat} (h : rest = part ++ tail) :
    (⟨offset, rest⟩ : Cursor).readBytes part.length = (.ok part, ⟨offset + part.length, tail⟩) := by
  subst h
  rw [readBytes_of_le (by simp [remaining])]
  simp

theorem readWord_append {n : Nat} (h : n < UInt32.size) (tail : Bytes) (offset : Nat) :
    (⟨offset, Bytes.ofNatLE 4 n ++ tail⟩ : Cursor).readWord = (.ok n, ⟨offset + 4, tail⟩) := by
  have hread : (⟨offset, Bytes.ofNatLE 4 n ++ tail⟩ : Cursor).readBytes 4 =
      (.ok (Bytes.ofNatLE 4 n), ⟨offset + 4, tail⟩) := by
    simpa using readBytes_append (rfl : Bytes.ofNatLE 4 n ++ tail = _)
  simp only [readWord, hread]
  rw [Bytes.toNatLE_ofNatLE (by simpa using h)]

theorem readPart_framed {part : Bytes} (h : part.length < UInt32.size) (tail : Bytes)
    (offset : Nat) : (⟨offset, Bytes.framed part ++ tail⟩ : Cursor).readPart =
      (.ok part, ⟨offset + 4 + part.length, tail⟩) := by
  simp only [readPart, Bytes.framed, List.append_assoc, readWord_append h]
  exact readBytes_append rfl

/-- Framed parts are read one after the other. -/
theorem readField_framed {name value : Bytes} (hname : name.length < UInt32.size)
    (hvalue : value.length < UInt32.size) (tail : Bytes) (offset : Nat) :
    (⟨offset, Bytes.framed name ++ Bytes.framed value ++ tail⟩ : Cursor).readField =
      (.ok (name, value),
        ⟨offset + (Bytes.framed name ++ Bytes.framed value).length, tail⟩) := by
  simp only [readField, List.append_assoc, readPart_framed hname, readPart_framed hvalue]
  simp only [List.length_append, Bytes.length_framed, Nat.add_assoc]

/-- A field is read back from its encoding. -/
theorem readField_bytes {f : Field} (h : f.Encodable) (tail : Bytes) (offset : Nat) :
    (⟨offset, f.bytes ++ tail⟩ : Cursor).readField =
      (.ok (Bytes.ofText f.name, f.value), ⟨offset + f.bytes.length, tail⟩) :=
  readField_framed h.1 h.2 tail offset

/-- A part that was read stood there with its frame. -/
theorem framed_of_readPart {part : Bytes} (h : c.readPart = (.ok part, c')) :
    part.length < UInt32.size ∧ c.rest = Bytes.framed part ++ c'.rest := by
  obtain ⟨count, hlen, hcount, hrest, -⟩ := readPart_ok h
  constructor
  · have hlt := Bytes.toNatLE_lt count
    rw [hlen, hcount] at hlt
    simpa using hlt
  · have hword : count = Bytes.ofNatLE 4 part.length := by
      rw [← hcount, ← hlen, Bytes.ofNatLE_toNatLE]
    rw [hrest, hword, Bytes.framed]

theorem framed_of_readField {name value : Bytes} (h : c.readField = (.ok (name, value), c')) :
    name.length < UInt32.size ∧ value.length < UInt32.size ∧
      c.rest = Bytes.framed name ++ Bytes.framed value ++ c'.rest := by
  unfold readField at h
  split at h
  · cases h
  · next n d hd =>
    split at h
    · cases h
    · next v d' hd' =>
      cases h
      obtain ⟨hn, hrest⟩ := framed_of_readPart hd
      obtain ⟨hv, hrest'⟩ := framed_of_readPart hd'
      exact ⟨hn, hv, by rw [hrest, hrest', List.append_assoc]⟩

end Cursor

section Except

variable {ε δ α β : Type} {f : ε → δ}

theorem mapError_ok (a : α) : (Except.ok a : Except ε α).mapError f = .ok a := rfl

theorem mapError_error (e : ε) : (Except.error e : Except ε α).mapError f = .error (f e) := rfl

theorem mapError_eq_ok_iff {x : Except ε α} {a : α} : x.mapError f = .ok a ↔ x = .ok a := by
  cases x <;> simp [mapError_ok, mapError_error]

theorem bind_eq_ok_iff {x : Except ε α} {g : α → Except ε β} {b : β} :
    (x >>= g) = .ok b ↔ ∃ a, x = .ok a ∧ g a = .ok b := by
  cases x with
  | error e => exact ⟨nofun, fun ⟨_, h, _⟩ => nomatch h⟩
  | ok a => exact ⟨fun h => ⟨a, rfl, h⟩, fun ⟨_, h, hb⟩ => by cases h; exact hb⟩

end Except

namespace Row

/-- A row of fields that can be encoded. -/
def Encodable (row : Row) : Prop := ∀ f ∈ row, f.Encodable

instance : DecidablePred Encodable := fun row =>
  inferInstanceAs (Decidable (∀ f ∈ row, f.Encodable))

/-- The encoding of a row, meant for rows that can be encoded. -/
def bytes (row : Row) : Bytes := row.flatMap Field.bytes

@[simp] theorem encodable_nil : Encodable [] := by simp [Encodable]

@[simp] theorem encodable_cons {f : Field} {row : Row} :
    Encodable (f :: row) ↔ f.Encodable ∧ Encodable row := List.forall_mem_cons

@[simp] theorem bytes_nil : bytes [] = [] := rfl

@[simp] theorem bytes_cons (f : Field) (row : Row) : bytes (f :: row) = f.bytes ++ bytes row := rfl

theorem encode?_eq_bytes {row : Row} (h : row.Encodable) : row.encode? = .ok row.bytes := by
  induction row with
  | nil => rfl
  | cons f row ih =>
    obtain ⟨hf, hrow⟩ := encodable_cons.1 h
    simp only [encode?, Field.encode?_eq_bytes hf, ih hrow]
    rfl

/-- A row that cannot be encoded is refused for the length of a part. -/
theorem exists_longPart_of_not_encodable {row : Row} (h : ¬ row.Encodable) :
    ∃ part length, row.encode? = .error (.longPart part length) := by
  induction row with
  | nil => exact absurd encodable_nil h
  | cons f row ih =>
    by_cases hf : f.Encodable
    · have hrow : ¬ Encodable row := fun hrow => h (encodable_cons.2 ⟨hf, hrow⟩)
      obtain ⟨part, length, htail⟩ := ih hrow
      refine ⟨part, length, ?_⟩
      simp only [encode?, Field.encode?_eq_bytes hf, htail]
      rfl
    · obtain ⟨part, length, hhead⟩ := Field.exists_longPart_of_not_encodable hf
      refine ⟨part, length, ?_⟩
      simp only [encode?, hhead]
      rfl

theorem encode?_eq_ok_iff {row : Row} {b : Bytes} :
    row.encode? = .ok b ↔ row.Encodable ∧ row.bytes = b := by
  by_cases h : row.Encodable
  · simp [encode?_eq_bytes h, h]
  · obtain ⟨part, length, he⟩ := exists_longPart_of_not_encodable h
    simp [he, h]

theorem parts_of_fieldOfParts {name value : Bytes} {c : Cursor} {f : Field}
    (h : fieldOfParts name value c = .ok f) : Bytes.ofText f.name = name ∧ f.value = value := by
  unfold fieldOfParts at h
  split at h
  · next s hs =>
    cases h
    exact ⟨Bytes.toText?_eq_some_iff.1 hs, rfl⟩
  · cases h

theorem decodeFrom_bytes {row : Row} (h : row.Encodable) (offset : Nat) :
    decodeFrom ⟨offset, row.bytes⟩ = .ok row := by
  induction row generalizing offset with
  | nil => simp [decodeFrom, Cursor.isEmpty]
  | cons f row ih =>
    obtain ⟨hf, hrow⟩ := encodable_cons.1 h
    have hread := Cursor.readField_bytes hf (bytes row) offset
    rw [decodeFrom]
    simp only [Cursor.isEmpty, bytes_cons, List.isEmpty_iff, List.append_eq_nil_iff,
      f.bytes_ne_nil, false_and, if_false]
    split
    · next he => rw [hread] at he; cases he
    · next name value c' he =>
      rw [hread] at he
      cases he
      have hname : fieldOfParts (Bytes.ofText f.name) f.value ⟨offset + f.bytes.length, bytes row⟩ =
          .ok f := by simp [fieldOfParts, Bytes.toText?_eq_some_iff.2 rfl]
      rw [hname]
      show (decodeFrom _ >>= fun rest => pure (f :: rest)) = _
      rw [ih hrow]
      rfl

/-- What decodes was the encoding of the row it decodes to. -/
theorem bytes_of_decodeFrom {c : Cursor} {row : Row} (h : decodeFrom c = .ok row) :
    row.Encodable ∧ row.bytes = c.rest := by
  fun_induction decodeFrom c generalizing row with
  | case1 c hempty =>
    cases h
    exact ⟨encodable_nil, (List.isEmpty_iff.1 hempty).symm⟩
  | case2 c hempty e c' hread => cases h
  | case3 c hempty name value c' hread ih =>
    obtain ⟨hn, hv, hrest⟩ := Cursor.framed_of_readField hread
    cases hfield : fieldOfParts name value c' with
    | error e => rw [hfield] at h; cases h
    | ok f =>
      cases htail : decodeFrom c' with
      | error e => rw [hfield, htail] at h; cases h
      | ok tail =>
        rw [hfield, htail] at h
        cases h
        obtain ⟨htail, hbytes⟩ := ih htail
        obtain ⟨rfl, rfl⟩ := parts_of_fieldOfParts hfield
        exact ⟨encodable_cons.2 ⟨⟨hn, hv⟩, htail⟩, by rw [bytes_cons, hbytes, hrest]; rfl⟩

theorem decode?_eq_ok_iff {buffer : Bytes} {row : Row} :
    decode? buffer = .ok row ↔ row.Encodable ∧ row.bytes = buffer := by
  constructor
  · exact bytes_of_decodeFrom
  · rintro ⟨h, rfl⟩
    exact decodeFrom_bytes h 0

/-! ## Selecting fields -/

/-- The wanted fields of a row, each looked for behind the one before. -/
def pick : List String → Row → Row
  | [], _ => []
  | _ :: _, [] => []
  | w :: others, f :: row => if f.name = w then f :: pick others row else pick (w :: others) row

@[simp] theorem pick_nil (row : Row) : pick [] row = [] := by cases row <;> rfl

theorem pick_sublist (wanted : List String) (row : Row) : List.Sublist (pick wanted row) row := by
  induction row generalizing wanted with
  | nil => cases wanted <;> exact .slnil
  | cons f row ih =>
    cases wanted with
    | nil => simp
    | cons w others =>
      simp only [pick]
      split
      · exact (ih others).cons_cons f
      · exact (ih (w :: others)).cons f

/-- Names wanted in the order of the row are all found. -/
theorem names_pick {wanted : List String} {row : Row} (h : wanted.Sublist row.names) :
    names (pick wanted row) = wanted := by
  induction row generalizing wanted with
  | nil =>
    cases h
    rfl
  | cons f row ih =>
    cases wanted with
    | nil => rw [pick_nil]; rfl
    | cons w others =>
      by_cases hw : f.name = w
      · subst hw
        have hothers : others.Sublist (names row) := List.cons_sublist_cons.1 h
        simp only [pick, if_true]
        exact congrArg (f.name :: ·) (ih hothers)
      · simp only [pick, hw, if_false]
        rcases List.sublist_cons_iff.1 h with hrest | ⟨others, hwanted, -⟩
        · exact ih hrest
        · exact absurd (List.cons.inj hwanted).1.symm hw

/-- What a selecting decode does at a field. -/
theorem selectFrom_framed {name value : Bytes} (hname : name.length < UInt32.size)
    (hvalue : value.length < UInt32.size) (w : String) (others : List String) (tail : Bytes)
    (offset : Nat) :
    selectFrom (w :: others) ⟨offset, Bytes.framed name ++ Bytes.framed value ++ tail⟩ =
      let next : Cursor := ⟨offset + (Bytes.framed name ++ Bytes.framed value).length, tail⟩
      if name = Bytes.ofText w then return ⟨w, value⟩ :: (← selectFrom others next)
      else selectFrom (w :: others) next := by
  have hread := Cursor.readField_framed hname hvalue tail offset
  have hlength : Bytes.framed name ++ Bytes.framed value ++ tail ≠ [] := by
    apply List.ne_nil_of_length_pos
    simp only [List.length_append, Bytes.length_framed]
    omega
  rw [selectFrom]
  simp only [Cursor.isEmpty, List.isEmpty_iff, hlength, if_false]
  split
  · next he => rw [hread] at he; cases he
  · next he => rw [hread] at he; cases he; rfl

theorem selectFrom_bytes {row : Row} (h : row.Encodable) (wanted : List String) (offset : Nat) :
    selectFrom wanted ⟨offset, row.bytes⟩ = .ok (pick wanted row) := by
  induction row generalizing wanted offset with
  | nil => cases wanted <;> simp [selectFrom, pick, Cursor.isEmpty]
  | cons f row ih =>
    obtain ⟨hf, hrow⟩ := encodable_cons.1 h
    cases wanted with
    | nil => simp [selectFrom]
    | cons w others =>
      rw [bytes_cons, Field.bytes, selectFrom_framed hf.1 hf.2]
      by_cases hw : f.name = w
      · subst hw
        simp only [pick, if_true, ih hrow]
        rfl
      · have hbytes : Bytes.ofText f.name ≠ Bytes.ofText w := by simpa using hw
        simp only [pick, hbytes, hw, if_false]
        exact ih hrow (w :: others) _

theorem select?_bytes {row : Row} (h : row.Encodable) (wanted : List String) :
    select? wanted row.bytes = .ok (pick wanted row) := selectFrom_bytes h wanted 0

/-! ## Encoding and decoding as programs -/

section Programs

variable {ι : Interface} {σ : Type}
  (answer : (request : ι.Request) → σ → ι.Answer request × σ) (s : σ)

@[simp] theorem evaluate_encode (row : Row) :
    Program.evaluate answer row.encode s = (row.encode?.mapError .invalidArgument, s) := rfl

theorem evaluate_reportCorruption {α : Type} (result : Except Corruption α) :
    Program.evaluate answer (reportCorruption result) s = (result.mapError .corruptRow, s) := by
  cases result <;> rfl

@[simp] theorem evaluate_decode (buffer : Bytes) :
    Program.evaluate answer (decode buffer) s = ((decode? buffer).mapError .corruptRow, s) :=
  evaluate_reportCorruption answer s (decode? buffer)

@[simp] theorem evaluate_select (wanted : List String) (buffer : Bytes) :
    Program.evaluate answer (select wanted buffer) s =
      ((select? wanted buffer).mapError .corruptRow, s) :=
  evaluate_reportCorruption answer s (select? wanted buffer)

end Programs

@[simp] theorem value_encode (row : Row) :
    Program.value row.encode = row.encode?.mapError .invalidArgument := rfl

@[simp] theorem value_decode (buffer : Bytes) :
    Program.value (decode buffer) = (decode? buffer).mapError .corruptRow := by
  simp only [decode, Program.click, Program.emit, Program.note_bind, Program.done_bind,
    Program.value_note]
  cases decode? buffer <;> rfl

@[simp] theorem value_select (wanted : List String) (buffer : Bytes) :
    Program.value (select wanted buffer) = (select? wanted buffer).mapError .corruptRow := by
  simp only [select, Program.click, Program.emit, Program.note_bind, Program.done_bind,
    Program.value_note]
  cases select? wanted buffer <;> rfl

/-- An encoded operand is merged into an encoded row. -/
theorem value_mergeEncoded {row updates : Row} (hrow : row.Encodable)
    (hupdates : updates.Encodable) :
    (mergeEncoded (some row.bytes) updates.bytes).value =
      (row.merge updates).encode?.mapError .invalidArgument := by
  have hoperand : (decode updates.bytes).value = .ok updates := by
    rw [value_decode, decode?_eq_ok_iff.2 ⟨hupdates, rfl⟩]
    rfl
  have hcurrent : (decode row.bytes).value = .ok row := by
    rw [value_decode, decode?_eq_ok_iff.2 ⟨hrow, rfl⟩]
    rfl
  simp only [mergeEncoded, Program.click, Program.emit, Program.note_bind, Program.done_bind,
    Program.value_note, Program.value_bind, hoperand, Option.elim_some, hcurrent, value_encode]

/-- Decoding a buffer gives a row exactly when encoding the row gives the buffer. A buffer that is
no encoding is a corrupt row. -/
theorem decode_eq_ok_iff_encode_eq_ok :
    (∀ (buffer : Bytes) (row : Row),
      (decode buffer).value = .ok row ↔ row.encode.value = .ok buffer) ∧
    ∀ buffer : Bytes, (∀ row : Row, row.encode.value ≠ .ok buffer) →
      ∃ cause, (decode buffer).value = .error (.corruptRow cause) := by
  have hiff (buffer : Bytes) (row : Row) :
      (decode buffer).value = .ok row ↔ row.encode.value = .ok buffer := by
    rw [value_decode, value_encode, mapError_eq_ok_iff, mapError_eq_ok_iff, decode?_eq_ok_iff,
      encode?_eq_ok_iff]
  refine ⟨hiff, ?_⟩
  intro buffer hnone
  cases hdecode : decode? buffer with
  | error cause => exact ⟨cause, by rw [value_decode, hdecode]; rfl⟩
  | ok row => exact absurd ((hiff buffer row).1 (by rw [value_decode, hdecode]; rfl)) (hnone row)

/-- A lone byte is too short to be a row. -/
theorem decode_lone_byte :
    (∀ row : Row, row.encode.value ≠ .ok [255]) ∧
      ∃ cause, (decode [255]).value = .error (.corruptRow cause) := by
  have hnone : ∀ row : Row, row.encode.value ≠ .ok [255] := by
    intro row h
    rw [value_encode, mapError_eq_ok_iff, encode?_eq_ok_iff] at h
    have hlength := congrArg List.length h.2
    cases row with
    | nil => cases hlength
    | cons f row =>
      simp only [bytes_cons, Field.bytes, List.length_append, Bytes.length_framed,
        List.length_singleton] at hlength
      omega
  exact ⟨hnone, decode_eq_ok_iff_encode_eq_ok.2 [255] hnone⟩

end Row

end StoreBench
