import StoreBench.Proofs.Encoding
/-!
# Encodings side by side and cut short

No encoded field is the beginning of another, so a buffer that starts with an encoded row decodes to
that row and whatever the rest decodes to. A buffer that is cut short decodes only where the cut
falls between two fields, and then to the fields before it: neither a length, nor a part of a field,
nor a value that looks like the start of a field is ever taken for a whole one.
-/

namespace StoreBench

/-- Where two encoded fields start alike, they are the same field. -/
theorem Field.bytes_append_inj {f g : Field} {s t : Bytes} (hf : f.Encodable) (hg : g.Encodable)
    (h : f.bytes ++ s = g.bytes ++ t) : f = g ∧ s = t := by
  have hread := Cursor.readField_bytes hf s 0
  rw [h, Cursor.readField_bytes hg t 0] at hread
  obtain ⟨hparts, hcursor⟩ := Prod.mk.inj hread
  obtain ⟨hname, hvalue⟩ := Prod.mk.inj (Except.ok.inj hparts)
  cases f
  cases g
  cases Bytes.ofText_injective hname
  cases hvalue
  exact ⟨rfl, (Cursor.mk.inj hcursor).2.symm⟩

namespace Row

theorem encodable_append {row rest : Row} :
    Encodable (row ++ rest) ↔ row.Encodable ∧ rest.Encodable := List.forall_mem_append

@[simp] theorem bytes_append (row rest : Row) : bytes (row ++ rest) = row.bytes ++ rest.bytes :=
  List.flatMap_append

theorem Encodable.take {row : Row} (h : row.Encodable) (k : Nat) : Encodable (row.take k) :=
  fun f hf => h f (List.mem_of_mem_take hf)

theorem bytes_eq_take_append_drop (row : Row) (k : Nat) :
    row.bytes = bytes (row.take k) ++ bytes (row.drop k) := by
  rw [← bytes_append, List.take_append_drop]

/-- An encoded row that starts with another is the longer one of two rows. -/
theorem exists_append_of_bytes_eq {row whole : Row} (hrow : row.Encodable)
    (hwhole : whole.Encodable) {tail : Bytes} (h : whole.bytes = row.bytes ++ tail) :
    ∃ rest, whole = row ++ rest ∧ rest.bytes = tail := by
  -- Field by field: both rows start with the same one, since no field begins another.
  induction row generalizing whole with
  | nil => exact ⟨whole, rfl, h⟩
  | cons f row ih =>
    obtain ⟨hf, hfields⟩ := encodable_cons.1 hrow
    cases whole with
    | nil =>
      have hnil : f.bytes ++ (bytes row ++ tail) = [] := by simpa using h.symm
      exact absurd (List.append_eq_nil_iff.1 hnil).1 f.bytes_ne_nil
    | cons g whole =>
      obtain ⟨hg, hothers⟩ := encodable_cons.1 hwhole
      rw [bytes_cons, bytes_cons, List.append_assoc] at h
      obtain ⟨rfl, htail⟩ := Field.bytes_append_inj hg hf h
      obtain ⟨rest, rfl, hrest⟩ := ih hfields hothers htail
      exact ⟨rest, rfl, hrest⟩

/-- What follows an encoded row is decoded behind it. -/
theorem decode?_bytes_append {row : Row} (h : row.Encodable) (tail : Bytes) (whole : Row) :
    decode? (row.bytes ++ tail) = .ok whole ↔
      ∃ rest, decode? tail = .ok rest ∧ whole = row ++ rest := by
  simp only [decode?_eq_ok_iff]
  constructor
  · rintro ⟨hwhole, hbytes⟩
    obtain ⟨rest, rfl, hrest⟩ := exists_append_of_bytes_eq h hwhole hbytes
    exact ⟨rest, ⟨(encodable_append.1 hwhole).2, hrest⟩, rfl⟩
  · rintro ⟨rest, ⟨hrest, rfl⟩, rfl⟩
    exact ⟨encodable_append.2 ⟨h, hrest⟩, bytes_append row rest⟩

/-- A truncated encoding that decodes was cut behind the fields it decodes to. -/
theorem exists_take_of_decode?_take {row part : Row} (h : row.Encodable) {cut : Nat}
    (hcut : cut ≤ row.bytes.length) (hpart : decode? (row.bytes.take cut) = .ok part) :
    ∃ k, part = row.take k ∧ (bytes (row.take k)).length = cut := by
  obtain ⟨hencodable, hbytes⟩ := decode?_eq_ok_iff.1 hpart
  have hsplit : row.bytes = part.bytes ++ row.bytes.drop cut := by
    rw [hbytes, List.take_append_drop]
  obtain ⟨rest, hrow, -⟩ := exists_append_of_bytes_eq hencodable h hsplit
  have htake : row.take part.length = part := by rw [hrow, List.take_left]
  refine ⟨part.length, htake.symm, ?_⟩
  rw [htake, hbytes, List.length_take_of_le hcut]

theorem decode?_take_bytes {row : Row} (h : row.Encodable) (k : Nat) :
    decode? (row.bytes.take (bytes (row.take k)).length) = .ok (row.take k) := by
  rw [bytes_eq_take_append_drop row k, List.take_left]
  exact decode?_eq_ok_iff.2 ⟨h.take k, rfl⟩

theorem value_encode_eq_ok_iff {row : Row} {buffer : Bytes} :
    row.encode.value = .ok buffer ↔ row.Encodable ∧ row.bytes = buffer := by
  rw [value_encode, mapError_eq_ok_iff, encode?_eq_ok_iff]

theorem value_decode_eq_ok_iff {row : Row} {buffer : Bytes} :
    (decode buffer).value = .ok row ↔ decode? buffer = .ok row := by
  rw [value_decode, mapError_eq_ok_iff]

/-- The encodings of two rows, one behind the other, are the encoding of both. A buffer that starts
with the encoding of a row decodes exactly if the rest of it does, to the row and the fields of the
rest. The encoding of a row cut short decodes to its first `k` fields where it is cut at their
encoded length, and is a corrupt row at every other cut. -/
theorem decode_append_and_take {row : Row} {buffer : Bytes} (hrow : row.encode.value = .ok buffer) :
    (∀ (rest : Row) (tail : Bytes), rest.encode.value = .ok tail →
      Program.value (encode (row ++ rest)) = .ok (buffer ++ tail)) ∧
    (∀ (tail : Bytes) (whole : Row), (decode (buffer ++ tail)).value = .ok whole ↔
      ∃ rest, (decode tail).value = .ok rest ∧ whole = row ++ rest) ∧
    ∀ cut ≤ buffer.length,
      (∀ k, (Program.value (encode (row.take k))).map List.length = .ok cut →
        (decode (buffer.take cut)).value = .ok (row.take k)) ∧
      ((∀ k, (Program.value (encode (row.take k))).map List.length ≠ .ok cut) →
        ∃ cause, (decode (buffer.take cut)).value = .error (.corruptRow cause)) := by
  obtain ⟨hencodable, rfl⟩ := value_encode_eq_ok_iff.1 hrow
  have hlength : ∀ k, (Program.value (encode (row.take k))).map List.length =
      .ok (bytes (row.take k)).length := by
    intro k
    rw [value_encode_eq_ok_iff.2 ⟨hencodable.take k, rfl⟩]
    rfl
  refine ⟨fun rest tail hrest => ?_, fun tail whole => ?_, fun cut hcut => ⟨fun k hk => ?_, ?_⟩⟩
  · obtain ⟨hrestable, rfl⟩ := value_encode_eq_ok_iff.1 hrest
    have hboth := encodable_append.2 ⟨hencodable, hrestable⟩
    exact value_encode_eq_ok_iff.2 ⟨hboth, bytes_append row rest⟩
  · simp only [value_decode_eq_ok_iff]
    exact decode?_bytes_append hencodable tail whole
  · cases (hlength k).symm.trans hk
    exact value_decode_eq_ok_iff.2 (decode?_take_bytes hencodable k)
  · intro hnone
    cases hdecode : decode? (row.bytes.take cut) with
    | error cause => exact ⟨cause, by rw [value_decode, hdecode]; rfl⟩
    | ok part =>
      obtain ⟨k, -, hk⟩ := exists_take_of_decode?_take hencodable hcut hdecode
      exact absurd ((hlength k).trans (congrArg _ hk)) (hnone k)

/-- A row of two fields, cut behind the first of them and one byte later. -/
theorem decode_two_fields_cut :
    let row : Row := [⟨"a", [7]⟩, ⟨"b", []⟩]
    let buffer : Bytes := [1, 0, 0, 0, 97, 1, 0, 0, 0, 7, 1, 0, 0, 0, 98, 0, 0, 0, 0]
    row.encode.value = .ok buffer ∧ (decode (buffer.take 10)).value = .ok (row.take 1) ∧
      ∃ cause, (decode (buffer.take 11)).value = .error (.corruptRow cause) := by
  intro row buffer
  have hrow : row.encode.value = .ok buffer := by rfl
  obtain ⟨-, -, hcut⟩ := decode_append_and_take hrow
  refine ⟨hrow, (hcut 10 (by decide)).1 1 (by rfl), (hcut 11 (by decide)).2 ?_⟩
  rintro (_ | _ | k) h
  · cases h
  · cases h
  · have hall : row.take (k + 2) = row := by simp [row]
    rw [hall, hrow] at h
    cases h

end Row

end StoreBench
