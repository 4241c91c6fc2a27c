import StoreBench.Row.Basic
/-!
# Cursors over encoded rows

A cursor walks a buffer from start to finish. A read returns its result with the cursor after it;
one that would run past the end fails and leaves the cursor where it was. Offset and remaining
bytes always add up to the length of the buffer.
-/

namespace StoreBench

/-- A position in a buffer: the number of bytes before it and the bytes after it. -/
structure Cursor where
  offset : Nat
  rest : Bytes
  deriving DecidableEq

namespace Cursor

/-- The start of a buffer. -/
def start (buffer : Bytes) : Cursor := ⟨0, buffer⟩

variable (c : Cursor)

def remaining : Nat := c.rest.length

/-- The length of the buffer walked over. -/
def length : Nat := c.offset + c.remaining

def isEmpty : Bool := c.rest.isEmpty

@[simp] theorem remaining_start (buffer : Bytes) : (start buffer).remaining = buffer.length := rfl

@[simp] theorem length_start (buffer : Bytes) : (start buffer).length = buffer.length := by
  simp [length, start, remaining]

/-- The next `count` bytes. -/
def readBytes (count : Nat) : Except Corruption Bytes × Cursor :=
  if (c.rest.take count).length = count then
    (.ok (c.rest.take count), ⟨c.offset + count, c.rest.drop count⟩)
  else (.error (.bufferTooShort count c.remaining c.offset c.length), c)

/-- The next four bytes as a little-endian number. -/
def readWord : Except Corruption Nat × Cursor :=
  match c.readBytes 4 with
  | (.ok bytes, c) => (.ok (Bytes.toNatLE bytes), c)
  | (.error e, c) => (.error e, c)

/-- Bytes preceded by their number. -/
def readPart : Except Corruption Bytes × Cursor :=
  match c.readWord with
  | (.ok count, c) => c.readBytes count
  | (.error e, c) => (.error e, c)

/-- A name and a value, each preceded by its length. -/
def readField : Except Corruption (Bytes × Bytes) × Cursor :=
  match c.readPart with
  | (.error e, c) => (.error e, c)
  | (.ok name, c) =>
    match c.readPart with
    | (.error e, c) => (.error e, c)
    | (.ok value, c) => (.ok (name, value), c)

/-- The form that shows where the cursor stands. -/
def inspect : String :=
  Text.record "RowReader" [("offset", toString c.offset), ("remaining", toString c.remaining)]

variable {c}

theorem readBytes_of_le {count : Nat} (h : count ≤ c.remaining) :
    c.readBytes count = (.ok (c.rest.take count), ⟨c.offset + count, c.rest.drop count⟩) := by
  have : min count c.rest.length = count := Nat.min_eq_left h
  simp [readBytes, this]

theorem readBytes_of_lt {count : Nat} (h : c.remaining < count) :
    c.readBytes count = (.error (.bufferTooShort count c.remaining c.offset c.length), c) := by
  have : min count c.rest.length ≠ count := by unfold remaining at h; omega
  simp [readBytes, this]

/-- A successful read takes exactly its bytes off the rest. -/
theorem readBytes_ok {count : Nat} {bytes : Bytes} {c' : Cursor}
    (h : c.readBytes count = (.ok bytes, c')) :
    c.rest = bytes ++ c'.rest ∧ bytes.length = count ∧ c'.offset = c.offset + count := by
  by_cases hc : count ≤ c.remaining
  · rw [readBytes_of_le hc] at h
    cases h
    exact ⟨(List.take_append_drop ..).symm, List.length_take_of_le hc, rfl⟩
  · rw [readBytes_of_lt (by omega)] at h
    cases h

theorem readWord_ok {n : Nat} {c' : Cursor} (h : c.readWord = (.ok n, c')) :
    ∃ bytes, c.readBytes 4 = (.ok bytes, c') ∧ n = Bytes.toNatLE bytes := by
  unfold readWord at h
  split at h
  · next bytes d hd => cases h; exact ⟨bytes, hd, rfl⟩
  · cases h

/-- A part is four bytes of length and as many bytes as they say. -/
theorem readPart_ok {part : Bytes} {c' : Cursor} (h : c.readPart = (.ok part, c')) :
    ∃ count : Bytes, count.length = 4 ∧ Bytes.toNatLE count = part.length ∧
      c.rest = count ++ part ++ c'.rest ∧ c'.offset = c.offset + 4 + part.length := by
  unfold readPart at h
  split at h
  · next n d hd =>
    obtain ⟨count, hcount, rfl⟩ := readWord_ok hd
    obtain ⟨hrest, hlen, hoff⟩ := readBytes_ok hcount
    obtain ⟨hrest', hlen', hoff'⟩ := readBytes_ok h
    exact ⟨count, hlen, hlen'.symm, by simp [hrest, hrest'], by omega⟩
  · cases h

/-- A field takes at least the eight bytes of its two lengths. -/
theorem remaining_lt_of_readField {field : Bytes × Bytes} {c' : Cursor}
    (h : c.readField = (.ok field, c')) : c'.remaining < c.remaining := by
  unfold readField at h
  split at h
  · cases h
  · next name d hd =>
    split at h
    · cases h
    · next value d' hd' =>
      cases h
      obtain ⟨_, hlen, _, hrest, _⟩ := readPart_ok hd
      obtain ⟨_, _, _, hrest', _⟩ := readPart_ok hd'
      simp only [remaining, hrest, hrest', List.length_append, hlen]
      omega

end Cursor

end StoreBench
