import StoreBench.Proofs.Encoding
/-!
# Reads at a cursor

Every read takes bytes off the front of what is left, and no others, so a cursor always stands at a
cut through its buffer. A read that succeeds returns the bytes it took. One that fails has met a
part longer than what is left: a number or a run of bytes is then not begun, and of a field the
parts before that one are taken.
-/

namespace StoreBench

/-- What may be read at a cursor. -/
inductive Read where
  | word
  | bytes (count : Nat)
  | field

namespace Cursor

/-- The cursor after a read, whatever came of it. -/
def step (c : Cursor) : Read → Cursor
  | .word => c.readWord.2
  | .bytes count => (c.readBytes count).2
  | .field => c.readField.2

/-- The cursor after reads one after the other. -/
def after (c : Cursor) (reads : List Read) : Cursor := reads.foldl step c

/-- From one cursor to another lie the bytes `taken`. -/
structure Takes (c : Cursor) (taken : Bytes) (c' : Cursor) : Prop where
  rest_eq : c.rest = taken ++ c'.rest
  offset_eq : c'.offset = c.offset + taken.length

/-- The bytes `taken` are whole parts of something framed, and `due` is the length of the next. -/
inductive FrameBegun : (taken : Bytes) → (due : Nat) → Prop where
  | length : FrameBegun [] 4
  | content {word : Bytes} (h : word.length = 4) : FrameBegun word (Bytes.toNatLE word)

/-- The bytes `taken` are whole parts of a field, and `due` is the length of the next. -/
inductive FieldBegun : (taken : Bytes) → (due : Nat) → Prop where
  | name {taken : Bytes} {due : Nat} (h : FrameBegun taken due) : FieldBegun taken due
  | value {name taken : Bytes} {due : Nat} (hname : name.length < UInt32.size)
      (h : FrameBegun taken due) : FieldBegun (Bytes.framed name ++ taken) due

/-- What a read fails with that misses `due` bytes at a cursor. -/
def shortage (c : Cursor) (due : Nat) : Corruption :=
  .bufferTooShort due c.remaining c.offset c.length

variable {c c' c'' : Cursor} {buffer passed taken more word part : Bytes}

/-! ## Bytes between cursors -/

theorem Takes.refl (c : Cursor) : c.Takes [] c := ⟨rfl, rfl⟩

theorem Takes.trans (h : c.Takes taken c') (h' : c'.Takes more c'') :
    c.Takes (taken ++ more) c'' where
  rest_eq := by rw [h.rest_eq, h'.rest_eq, List.append_assoc]
  offset_eq := by rw [h'.offset_eq, h.offset_eq, List.length_append, Nat.add_assoc]

theorem Takes.offset_le (h : c.Takes taken c') : c.offset ≤ c'.offset :=
  h.offset_eq ▸ Nat.le_add_right _ _

/-- No way changes the length of the buffer. -/
theorem Takes.length_eq (h : c.Takes taken c') : c'.length = c.length := by
  simp only [length, remaining, h.rest_eq, h.offset_eq, List.length_append, Nat.add_assoc]

/-- What was taken is what the buffer holds between the two offsets. -/
theorem Takes.extract_eq (h : (start buffer).Takes passed c) (h' : c.Takes taken c') :
    buffer.extract c.offset c'.offset = taken := by
  have hbuffer : buffer = passed ++ (taken ++ c'.rest) := by rw [← h'.rest_eq]; exact h.rest_eq
  have hoffset : c.offset = passed.length := h.offset_eq.trans (Nat.zero_add _)
  rw [h'.offset_eq, hoffset, hbuffer, List.extract_eq_take_drop, Nat.add_sub_cancel_left,
    List.drop_left, List.take_left]

/-! ## One read -/

/-- A word and as many bytes as it says are the framed bytes. -/
theorem framed_eq (hword : word.length = 4) (hpart : part.length = Bytes.toNatLE word) :
    part.length < UInt32.size ∧ Bytes.framed part = word ++ part := by
  have hlt := Bytes.toNatLE_lt word
  rw [hword, ← hpart] at hlt
  refine ⟨by simpa using hlt, ?_⟩
  rw [Bytes.framed, hpart, ← hword, Bytes.ofNatLE_toNatLE]

theorem readBytes_cases (c : Cursor) (count : Nat) :
    (∃ part d, part.length = count ∧ c.Takes part d ∧ c.readBytes count = (.ok part, d)) ∨
    (c.remaining < count ∧ c.readBytes count = (.error (c.shortage count), c)) := by
  rcases Nat.lt_or_ge c.remaining count with hlt | hle
  · exact .inr ⟨hlt, readBytes_of_lt hlt⟩
  · have hread := readBytes_of_le hle
    obtain ⟨hrest, hlength, hoffset⟩ := readBytes_ok hread
    exact .inl ⟨_, _, hlength, ⟨hrest, by rw [hoffset, hlength]⟩, hread⟩

theorem readWord_cases (c : Cursor) :
    (∃ word d, word.length = 4 ∧ c.Takes word d ∧ c.readWord = (.ok (Bytes.toNatLE word), d)) ∨
    (c.remaining < 4 ∧ c.readWord = (.error (c.shortage 4), c)) := by
  rcases c.readBytes_cases 4 with ⟨word, d, hlength, htakes, hread⟩ | ⟨hlt, hread⟩
  · exact .inl ⟨word, d, hlength, htakes, by rw [readWord, hread]⟩
  · exact .inr ⟨hlt, by rw [readWord, hread]⟩

theorem readPart_cases (c : Cursor) :
    (∃ part d, part.length < UInt32.size ∧ c.Takes (Bytes.framed part) d ∧
      c.readPart = (.ok part, d)) ∨
    (∃ taken due d, FrameBegun taken due ∧ c.Takes taken d ∧ d.remaining < due ∧
      c.readPart = (.error (d.shortage due), d)) := by
  rcases c.readWord_cases with ⟨word, d, hword, htakes, hread⟩ | ⟨hlt, hread⟩
  · rcases d.readBytes_cases (Bytes.toNatLE word) with ⟨part, d', hpart, htakes', hread'⟩ |
      ⟨hlt, hread'⟩
    · obtain ⟨hshort, hframed⟩ := framed_eq hword hpart
      exact .inl ⟨part, d', hshort, hframed ▸ htakes.trans htakes',
        by rw [readPart, hread, ← hread']⟩
    · exact .inr ⟨word, _, d, .content hword, htakes, hlt, by rw [readPart, hread, ← hread']⟩
  · exact .inr ⟨[], 4, c, .length, .refl c, hlt, by rw [readPart, hread]⟩

theorem readField_cases (c : Cursor) :
    (∃ name value d, name.length < UInt32.size ∧ value.length < UInt32.size ∧
      c.Takes (Bytes.framed name ++ Bytes.framed value) d ∧
      c.readField = (.ok (name, value), d)) ∨
    (∃ taken due d, FieldBegun taken due ∧ c.Takes taken d ∧ d.remaining < due ∧
      c.readField = (.error (d.shortage due), d)) := by
  rcases c.readPart_cases with ⟨name, d, hname, htakes, hread⟩ |
    ⟨taken, due, d, hbegun, htakes, hlt, hread⟩
  · rcases d.readPart_cases with ⟨value, d', hvalue, htakes', hread'⟩ |
      ⟨taken, due, d', hbegun, htakes', hlt, hread'⟩
    · exact .inl ⟨name, value, d', hname, hvalue, htakes.trans htakes', by
        rw [readField, hread]
        simp only [hread']⟩
    · exact .inr ⟨_, due, d', .value hname hbegun, htakes.trans htakes', hlt, by
        rw [readField, hread]
        simp only [hread']⟩
  · exact .inr ⟨taken, due, d, .name hbegun, htakes, hlt, by rw [readField, hread]⟩

/-! ## Reads one after the other -/

/-- Whatever comes of a read, the cursor moved over some bytes. -/
theorem exists_takes_step (c : Cursor) (read : Read) : ∃ taken, c.Takes taken (c.step read) := by
  cases read with
  | word =>
    rcases c.readWord_cases with ⟨word, d, -, htakes, hread⟩ | ⟨-, hread⟩
    · exact ⟨word, by rwa [step, hread]⟩
    · exact ⟨[], by rw [step, hread]; exact .refl c⟩
  | bytes count =>
    rcases c.readBytes_cases count with ⟨part, d, -, htakes, hread⟩ | ⟨-, hread⟩
    · exact ⟨part, by rwa [step, hread]⟩
    · exact ⟨[], by rw [step, hread]; exact .refl c⟩
  | field =>
    rcases c.readField_cases with ⟨name, value, d, -, -, htakes, hread⟩ |
      ⟨taken, due, d, -, htakes, -, hread⟩
    · exact ⟨_, by rwa [step, hread]⟩
    · exact ⟨taken, by rwa [step, hread]⟩

theorem exists_takes_after (c : Cursor) (reads : List Read) :
    ∃ taken, c.Takes taken (c.after reads) := by
  induction reads generalizing c with
  | nil => exact ⟨[], .refl c⟩
  | cons read reads ih =>
    obtain ⟨taken, htakes⟩ := c.exists_takes_step read
    obtain ⟨more, htakes'⟩ := ih (c.step read)
    exact ⟨taken ++ more, htakes.trans htakes'⟩

/-- A cursor neither loses nor invents bytes, whatever was read before. Offset and remaining bytes
add up to the length of the buffer, and no read moves the offset back. What a read returns is what
the buffer holds between the offsets before and after it: a word as a number, a field as two framed
parts. A number or a run of bytes fails where it is longer than what is left, and leaves the cursor
alone; a field fails at its first part that is, and leaves the cursor behind the part before. -/
theorem reads_exact (buffer : Bytes) (reads : List Read) :
    let c := (start buffer).after reads
    c.offset + c.remaining = buffer.length ∧
    (∀ read, c.offset ≤ (c.step read).offset) ∧
    (match c.readWord with
      | (.ok n, c') => c'.offset = c.offset + 4 ∧
        n = Bytes.toNatLE (buffer.extract c.offset c'.offset)
      | (.error e, c') => c' = c ∧ c.remaining < 4 ∧ e = c.shortage 4) ∧
    (∀ count, match c.readBytes count with
      | (.ok part, c') => c'.offset = c.offset + count ∧
        part = buffer.extract c.offset c'.offset
      | (.error e, c') => c' = c ∧ c.remaining < count ∧ e = c.shortage count) ∧
    match c.readField with
      | (.ok (name, value), c') => name.length < UInt32.size ∧ value.length < UInt32.size ∧
        Bytes.framed name ++ Bytes.framed value = buffer.extract c.offset c'.offset
      | (.error e, c') => ∃ due, FieldBegun (buffer.extract c.offset c'.offset) due ∧
        c'.remaining < due ∧ e = c'.shortage due := by
  intro c
  obtain ⟨passed, hpassed⟩ := (start buffer).exists_takes_after reads
  refine ⟨hpassed.length_eq.trans (length_start buffer), fun read => ?_, ?_, fun count => ?_, ?_⟩
  · obtain ⟨taken, htakes⟩ := c.exists_takes_step read
    exact htakes.offset_le
  · rcases c.readWord_cases with ⟨word, d, hlength, htakes, hread⟩ | ⟨hlt, hread⟩
    · rw [hread]
      exact ⟨htakes.offset_eq.trans (by rw [hlength]), by rw [hpassed.extract_eq htakes]⟩
    · rw [hread]
      exact ⟨rfl, hlt, rfl⟩
  · rcases c.readBytes_cases count with ⟨part, d, hlength, htakes, hread⟩ | ⟨hlt, hread⟩
    · rw [hread]
      exact ⟨htakes.offset_eq.trans (by rw [hlength]), (hpassed.extract_eq htakes).symm⟩
    · rw [hread]
      exact ⟨rfl, hlt, rfl⟩
  · rcases c.readField_cases with ⟨name, value, d, hname, hvalue, htakes, hread⟩ |
      ⟨taken, due, d, hbegun, htakes, hlt, hread⟩
    · rw [hread]
      exact ⟨hname, hvalue, (hpassed.extract_eq htakes).symm⟩
    · rw [hread]
      exact ⟨due, (hpassed.extract_eq htakes).symm ▸ hbegun, hlt, rfl⟩

/-- The name is whole and the value is not: the cursor stands behind the length of the value. -/
example : ((start [1, 0, 0, 0, 97, 2, 0, 0, 0, 7]).after [.field, .bytes 2]).offset = 9 := by
  decide

end Cursor

end StoreBench
