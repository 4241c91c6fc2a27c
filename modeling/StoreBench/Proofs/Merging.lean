import StoreBench.Proofs.Overlay
import StoreBench.Proofs.Truncation
/-!
# Merging as an associative operation

Operands may be merged into one another before the row they are meant for is known: an operand
without repeated names that takes in another one has the same effect as both of them in turn. The
names of the row and of the later operand may repeat. An operand that is merged once more changes
nothing, even if its names repeat.
-/

namespace StoreBench.Row

variable {row a : Row} {f u v : Field}

/-! ## A single update -/

@[simp] theorem upsert_nil (u : Field) : upsert [] u = [u] := rfl

theorem upsert_cons_eq (h : f.name = u.name) : upsert (f :: row) u = ⟨f.name, u.value⟩ :: row := by
  simp [upsert, set?, h]

theorem upsert_cons_ne (h : f.name ≠ u.name) : upsert (f :: row) u = f :: upsert row u := by
  simp only [upsert, set?, h, if_false]
  cases set? u.name u.value row <;> rfl

/-- A name that is there stays in its place, a new one comes last. -/
theorem names_upsert (row : Row) (u : Field) :
    (row.upsert u).names = if u.name ∈ row.names then row.names else row.names ++ [u.name] := by
  split
  · next h => rw [upsert_eq_assign h, names_assign]
  · next h =>
    rw [upsert, set?_eq_none_iff.2 h, Option.getD_none]
    exact List.map_append

theorem name_mem_names_upsert (row : Row) (u : Field) : u.name ∈ (row.upsert u).names := by
  rw [names_upsert]
  split
  · assumption
  · exact List.mem_append_right row.names List.mem_cons_self

theorem mem_names_upsert {name : String} (h : name ∈ row.names) (u : Field) :
    name ∈ (row.upsert u).names := by
  rw [names_upsert]
  split
  · exact h
  · exact List.mem_append_left [u.name] h

theorem nodup_names_nil : (names []).Nodup := List.nodup_nil

theorem nodup_names_upsert (h : row.names.Nodup) (u : Field) : (row.upsert u).names.Nodup := by
  rw [names_upsert]
  split
  · exact h
  · next hfresh =>
    refine List.nodup_append.2 ⟨h, List.pairwise_singleton _ u.name, ?_⟩
    rintro name hname _ hlast rfl
    exact hfresh (List.mem_singleton.1 hlast ▸ hname)

/-- The later of two updates of one field decides. -/
theorem upsert_upsert (row : Row) (h : u.name = v.name) :
    (row.upsert u).upsert v = row.upsert v := by
  induction row with
  | nil =>
    cases v
    simp [upsert_cons_eq h, h]
  | cons f row ih =>
    by_cases hf : f.name = u.name
    · have hv : f.name = v.name := hf.trans h
      rw [upsert_cons_eq hf, upsert_cons_eq hv]
      exact upsert_cons_eq hv
    · have hv : f.name ≠ v.name := h ▸ hf
      rw [upsert_cons_ne hf, upsert_cons_ne hv, upsert_cons_ne hv, ih]

/-- Updates of two fields may change places if the first field does not have to be appended. -/
theorem upsert_comm (hne : u.name ≠ v.name) (hmem : u.name ∈ row.names) :
    (row.upsert u).upsert v = (row.upsert v).upsert u := by
  induction row with
  | nil => cases hmem
  | cons f row ih =>
    by_cases hu : f.name = u.name
    · have hv : f.name ≠ v.name := hu ▸ hne
      rw [upsert_cons_eq hu, upsert_cons_ne hv, upsert_cons_eq hu]
      exact upsert_cons_ne hv
    · by_cases hv : f.name = v.name
      · rw [upsert_cons_ne hu, upsert_cons_eq hv, upsert_cons_eq hv]
        exact (upsert_cons_ne (f := ⟨f.name, v.value⟩) hu).symm
      · have hrest : u.name ∈ names row := (List.mem_cons.1 hmem).resolve_left (Ne.symm hu)
        rw [upsert_cons_ne hu, upsert_cons_ne hv, upsert_cons_ne hv, upsert_cons_ne hu, ih hrest]

/-! ## Several updates -/

theorem nodup_names_merge (h : row.names.Nodup) (updates : Row) :
    (row.merge updates).names.Nodup := by
  induction updates generalizing row with
  | nil => exact h
  | cons u updates ih => exact ih (nodup_names_upsert h u)

/-- An update of a field that is there may be made before the updates of other fields. -/
theorem upsert_merge (hmem : u.name ∈ row.names) (hfresh : u.name ∉ a.names) :
    (row.merge a).upsert u = (row.upsert u).merge a := by
  induction a generalizing row with
  | nil => rfl
  | cons f a ih =>
    obtain ⟨hf, hrest⟩ := not_or.1 (mt List.mem_cons.2 hfresh)
    rw [merge_cons, merge_cons, ih (mem_names_upsert hmem f) hrest, upsert_comm hf hmem]

/-- A further update may be made to the updates instead of the row. -/
theorem merge_upsert (row : Row) (ha : a.names.Nodup) (u : Field) :
    (row.merge a).upsert u = row.merge (a.upsert u) := by
  induction a generalizing row with
  | nil => rfl
  | cons f a ih =>
    obtain ⟨hfresh, hnodup⟩ := List.nodup_cons.1 ha
    by_cases hf : f.name = u.name
    · rw [upsert_cons_eq hf, hf, merge_cons, merge_cons,
        upsert_merge (hf ▸ name_mem_names_upsert row f) (hf ▸ hfresh), upsert_upsert row hf]
    · rw [upsert_cons_ne hf, merge_cons, merge_cons, ih (row.upsert f) hnodup]

/-- Merging is associative where the middle operand repeats no name. -/
theorem merge_merge (row : Row) (ha : a.names.Nodup) (b : Row) :
    (row.merge a).merge b = row.merge (a.merge b) := by
  induction b generalizing a with
  | nil => rfl
  | cons u b ih =>
    rw [merge_cons, merge_cons, merge_upsert row ha, ih (nodup_names_upsert ha u)]

/-- A repeated name of the middle operand takes in only one update. -/
example :
    let row : Row := [⟨"a", [1]⟩, ⟨"a", [2]⟩]
    Row.merge (Row.merge [] row) [⟨"a", [3]⟩] ≠ Row.merge [] (Row.merge row [⟨"a", [3]⟩]) := by
  decide

/-- Merging into an empty row first makes no difference. -/
theorem merge_nil_merge (row a : Row) : row.merge (merge [] a) = row.merge a :=
  (merge_merge row nodup_names_nil a).symm

theorem merge_self (ha : a.names.Nodup) : a.merge a = a := by
  have hmem : ∀ u ∈ a, u.name ∈ a.names := fun u => List.mem_map_of_mem
  rw [merge_eq_assignAll hmem, assignAll_eq_self rfl ha]

/-- Merging is idempotent. -/
theorem merge_merge_self (row a : Row) : (row.merge a).merge a = row.merge a := by
  -- An operand with repeated names acts as what an empty row makes of it, and that repeats none.
  have hnodup : (merge [] a).names.Nodup := nodup_names_merge nodup_names_nil a
  calc (row.merge a).merge a
      = (row.merge (merge [] a)).merge (merge [] a) := by simp only [merge_nil_merge]
    _ = row.merge ((merge [] a).merge (merge [] a)) := merge_merge row hnodup _
    _ = row.merge a := by rw [merge_self hnodup, merge_nil_merge]

/-! ## Encoded operands -/

variable {existing : Option Bytes} {first second operand merged : Bytes}

/-- The row that an operand is merged into, an absent row counting as empty. -/
def stored? (existing : Option Bytes) : Except Corruption Row := existing.elim (.ok []) decode?

theorem encodable_of_stored? {current : Row} (h : stored? existing = .ok current) :
    current.Encodable := by
  cases existing with
  | none =>
    cases h
    exact encodable_nil
  | some buffer => exact (decode?_eq_ok_iff.1 h).1

theorem value_stored (existing : Option Bytes) :
    (existing.elim (pure (.ok [])) decode).value = (stored? existing).mapError .corruptRow := by
  cases existing with
  | none => rfl
  | some buffer => exact value_decode buffer

/-- A merge succeeds if the operand and the stored row, if there is one, are encoded rows. -/
theorem value_mergeEncoded_eq_ok_iff :
    (mergeEncoded existing operand).value = .ok merged ↔
      ∃ updates current, decode? operand = .ok updates ∧ stored? existing = .ok current ∧
        bytes (current.merge updates) = merged := by
  simp only [mergeEncoded, Program.click, Program.emit, Program.note_bind, Program.done_bind,
    Program.value_note, Program.value_bind, value_decode]
  cases hupdates : decode? operand with
  | error cause => simp [mapError_error, Program.value_done]
  | ok updates =>
    simp only [mapError_ok, Program.value_bind, value_stored]
    cases hcurrent : stored? existing with
    | error cause => simp [mapError_error]
    | ok current =>
      have hmerged := (encodable_of_stored? hcurrent).merge (decode?_eq_ok_iff.1 hupdates).1
      simp [mapError_ok, encode?_eq_bytes hmerged]

/-- What a merge leaves is an encoded row again. -/
theorem stored?_merged {updates current : Row} (hupdates : decode? operand = .ok updates)
    (hcurrent : stored? existing = .ok current) :
    stored? (some (bytes (current.merge updates))) = .ok (current.merge updates) :=
  decode?_eq_ok_iff.2
    ⟨(encodable_of_stored? hcurrent).merge (decode?_eq_ok_iff.1 hupdates).1, rfl⟩

/-- Two operands are merged one after the other. -/
theorem value_mergeEncoded_then_eq_ok_iff :
    (do
      let buffer ← (mergeEncoded existing first).value
      (mergeEncoded (some buffer) second).value) = .ok merged ↔
      ∃ a b current, decode? first = .ok a ∧ decode? second = .ok b ∧
        stored? existing = .ok current ∧ bytes ((current.merge a).merge b) = merged := by
  simp only [bind_eq_ok_iff, value_mergeEncoded_eq_ok_iff]
  constructor
  · rintro ⟨_, ⟨a, current, ha, hcurrent, rfl⟩, b, row, hb, hrow, rfl⟩
    cases (stored?_merged ha hcurrent).symm.trans hrow
    exact ⟨a, b, current, ha, hb, hcurrent, rfl⟩
  · rintro ⟨a, b, current, ha, hb, hcurrent, rfl⟩
    exact ⟨_, ⟨a, current, ha, hcurrent, rfl⟩, b, _, hb, stored?_merged ha hcurrent, rfl⟩

/-- Two operands are merged into one another before they are merged. -/
theorem value_mergeEncoded_of_merged_eq_ok_iff :
    (do
      let operand ← (mergeEncoded (some first) second).value
      (mergeEncoded existing operand).value) = .ok merged ↔
      ∃ a b current, decode? first = .ok a ∧ decode? second = .ok b ∧
        stored? existing = .ok current ∧ bytes (current.merge (a.merge b)) = merged := by
  simp only [bind_eq_ok_iff, value_mergeEncoded_eq_ok_iff]
  constructor
  · rintro ⟨_, ⟨b, a, hb, ha, rfl⟩, updates, current, hupdates, hcurrent, rfl⟩
    cases (stored?_merged hb ha).symm.trans hupdates
    exact ⟨a, b, current, ha, hb, hcurrent, rfl⟩
  · rintro ⟨a, b, current, ha, hb, hcurrent, rfl⟩
    have hfirst : stored? (some first) = .ok a := ha
    exact ⟨_, ⟨b, a, hb, hfirst, rfl⟩, _, current, stored?_merged hb hfirst, hcurrent, rfl⟩

/-- Merging two operands one after the other succeeds exactly if merging them into one another first
does, and with the same bytes, provided the first operand repeats no name. Merging an operand once
more changes nothing. -/
theorem mergeEncoded_assoc_and_idem (existing : Option Bytes) (first : Bytes) :
    ((∀ row, (decode first).value = .ok row → row.names.Nodup) →
      ∀ second merged : Bytes,
        (do
          let buffer ← (mergeEncoded existing first).value
          (mergeEncoded (some buffer) second).value) = .ok merged ↔
        (do
          let operand ← (mergeEncoded (some first) second).value
          (mergeEncoded existing operand).value) = .ok merged) ∧
    (do
      let buffer ← (mergeEncoded existing first).value
      (mergeEncoded (some buffer) first).value) = (mergeEncoded existing first).value := by
  refine ⟨fun hnodup second merged => ?_, ?_⟩
  · rw [value_mergeEncoded_then_eq_ok_iff, value_mergeEncoded_of_merged_eq_ok_iff]
    refine exists_congr fun a => exists_congr fun b => exists_congr fun current =>
      and_congr_right fun ha => ?_
    rw [merge_merge current (hnodup a (value_decode_eq_ok_iff.2 ha)) b]
  · cases hfirst : (mergeEncoded existing first).value with
    | error e => rfl
    | ok merged =>
      obtain ⟨a, current, ha, hcurrent, rfl⟩ := value_mergeEncoded_eq_ok_iff.1 hfirst
      exact value_mergeEncoded_eq_ok_iff.2
        ⟨a, _, ha, stored?_merged ha hcurrent, by rw [merge_merge_self]⟩

/-- An operand of one field, and a later one that names it twice and another field once. -/
theorem mergeEncoded_repeated_later_name :
    let existing : Option Bytes := some [1, 0, 0, 0, 98, 0, 0, 0, 0]
    let first : Bytes := [1, 0, 0, 0, 97, 0, 0, 0, 0]
    let second : Bytes := first ++ [1, 0, 0, 0, 97, 1, 0, 0, 0, 7] ++ [1, 0, 0, 0, 98, 0, 0, 0, 0]
    (∀ row, (decode first).value = .ok row → row.names.Nodup) ∧
      (∀ merged,
        (do
          let buffer ← (mergeEncoded existing first).value
          (mergeEncoded (some buffer) second).value) = .ok merged ↔
        (do
          let operand ← (mergeEncoded (some first) second).value
          (mergeEncoded existing operand).value) = .ok merged) ∧
      (do
        let buffer ← (mergeEncoded existing second).value
        (mergeEncoded (some buffer) second).value) = (mergeEncoded existing second).value := by
  intro existing first second
  have hfirst : (decode first).value = .ok [⟨"a", []⟩] :=
    value_decode_eq_ok_iff.2 (decode?_eq_ok_iff.2 ⟨by decide, by decide⟩)
  have hnodup : ∀ row, (decode first).value = .ok row → row.names.Nodup := by
    intro row hrow
    cases hfirst.symm.trans hrow
    decide
  exact ⟨hnodup, (mergeEncoded_assoc_and_idem existing first).1 hnodup second,
    (mergeEncoded_assoc_and_idem existing second).2⟩

end StoreBench.Row
