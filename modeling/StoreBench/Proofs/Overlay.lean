import StoreBench.Proofs.Encoding
/-!
# Overlaying and merging as assignments

To assign a field to a row is to overwrite the value of the first field with that name. Overlaying
assigns the updates one after another unless one of them names a field that the row lacks, and then
the first such name is the error. Merging does the same to rows that have every name.
-/

namespace StoreBench.Row

/-- Overwrite the value of the first field with the update's name. -/
def assign (row : Row) (u : Field) : Row :=
  row.modify (row.findIdx (·.name == u.name)) fun f => ⟨f.name, u.value⟩

theorem assign_cons_eq {f u : Field} {row : Row} (h : f.name = u.name) :
    assign (f :: row) u = ⟨f.name, u.value⟩ :: row := by
  simp [assign, List.findIdx_cons, h]

theorem assign_cons_ne {f u : Field} {row : Row} (h : f.name ≠ u.name) :
    assign (f :: row) u = f :: assign row u := by
  have hne : (f.name == u.name) = false := by simpa using h
  simp [assign, List.findIdx_cons, hne]

theorem set?_eq_some_assign {row : Row} {u : Field} (h : u.name ∈ row.names) :
    row.set? u.name u.value = some (row.assign u) := by
  induction row with
  | nil => simp [names] at h
  | cons f row ih =>
    by_cases hf : f.name = u.name
    · simp [set?, hf, assign_cons_eq]
    · have hrow : u.name ∈ names row := by
        simpa [names, Ne.symm hf] using h
      simp [set?, hf, assign_cons_ne, ih hrow]

@[simp] theorem names_assign (row : Row) (u : Field) : (row.assign u).names = row.names := by
  induction row with
  | nil => rfl
  | cons f row ih =>
    by_cases hf : f.name = u.name
    · rw [assign_cons_eq hf]; rfl
    · rw [assign_cons_ne hf]; exact congrArg (f.name :: ·) ih

theorem mem_assign {row : Row} {u f : Field} (h : f ∈ row.assign u) :
    f ∈ row ∨ f.name ∈ row.names ∧ f.value = u.value := by
  induction row with
  | nil => cases h
  | cons g row ih =>
    by_cases hg : g.name = u.name
    · rw [assign_cons_eq hg, List.mem_cons] at h
      rcases h with rfl | h
      · exact .inr ⟨by simp [names], rfl⟩
      · exact .inl (List.mem_cons_of_mem g h)
    · rw [assign_cons_ne hg, List.mem_cons] at h
      rcases h with rfl | h
      · exact .inl List.mem_cons_self
      · rcases ih h with hrow | ⟨hname, hvalue⟩
        · exact .inl (List.mem_cons_of_mem g hrow)
        · exact .inr ⟨List.mem_cons_of_mem g.name hname, hvalue⟩

theorem Encodable.name_lt {row : Row} (h : row.Encodable) {name : String}
    (hname : name ∈ row.names) :
    (Bytes.ofText name).length < UInt32.size := by
  obtain ⟨f, hf, rfl⟩ := List.mem_map.1 hname
  exact (h f hf).1

theorem Encodable.assign {row : Row} (h : row.Encodable) {u : Field}
    (hu : u.value.length < UInt32.size) : (row.assign u).Encodable := by
  intro f hf
  rcases mem_assign hf with hrow | ⟨hname, hvalue⟩
  · exact h f hrow
  · exact ⟨h.name_lt hname, hvalue ▸ hu⟩

/-- Assign fields one after another. -/
def assignAll (row updates : Row) : Row := updates.foldl assign row

@[simp] theorem assignAll_nil (row : Row) : row.assignAll [] = row := rfl

@[simp] theorem assignAll_cons (row : Row) (u : Field) (updates : Row) :
    row.assignAll (u :: updates) = (row.assign u).assignAll updates := rfl

@[simp] theorem names_assignAll (row updates : Row) :
    (row.assignAll updates).names = row.names := by
  induction updates generalizing row with
  | nil => rfl
  | cons u updates ih => rw [assignAll_cons, ih, names_assign]

theorem Encodable.assignAll {row updates : Row} (h : row.Encodable) (hu : updates.Encodable) :
    (row.assignAll updates).Encodable := by
  induction updates generalizing row with
  | nil => exact h
  | cons u updates ih =>
    obtain ⟨hhead, htail⟩ := encodable_cons.1 hu
    exact ih (h.assign hhead.2) htail

theorem assignAll_cons_of_ne {f : Field} {row updates : Row}
    (h : ∀ u ∈ updates, f.name ≠ u.name) :
    assignAll (f :: row) updates = f :: assignAll row updates := by
  induction updates generalizing row with
  | nil => rfl
  | cons u updates ih =>
    obtain ⟨hu, hrest⟩ := List.forall_mem_cons.1 h
    rw [assignAll_cons, assignAll_cons, assign_cons_ne hu]
    exact ih hrest

/-- Assigning every field of a row, in its own order, leaves nothing of the row. -/
theorem assignAll_eq_self {row updates : Row} (hnames : updates.names = row.names)
    (hnodup : updates.names.Nodup) : row.assignAll updates = updates := by
  induction updates generalizing row with
  | nil =>
    cases row with
    | nil => rfl
    | cons f row => cases hnames
  | cons u updates ih =>
    cases row with
    | nil => cases hnames
    | cons f row =>
      obtain ⟨hhead, htail⟩ := List.cons.inj hnames
      obtain ⟨hfresh, hnodup⟩ := List.nodup_cons.1 hnodup
      have hne : ∀ v ∈ updates, u.name ≠ v.name := by
        intro v hv hname
        exact hfresh (hname ▸ List.mem_map_of_mem hv)
      rw [assignAll_cons, assign_cons_eq hhead.symm, ← hhead, assignAll_cons_of_ne hne]
      exact congrArg (u :: ·) (ih htail hnodup)

/-- The first of the updates whose name the row lacks. -/
def firstUnknown? (row updates : Row) : Option Field := updates.find? fun u => u.name ∉ row.names

theorem firstUnknown?_eq_none_iff {row updates : Row} :
    row.firstUnknown? updates = none ↔ ∀ u ∈ updates, u.name ∈ row.names := by
  simp [firstUnknown?]

/-- Overlaying assigns every update, or it refuses the first unknown name. -/
theorem overlay?_eq (row updates : Row) :
    row.overlay? updates = match row.firstUnknown? updates with
      | some u => .error (.unknownField u.name)
      | none => .ok (row.assignAll updates) := by
  induction updates generalizing row with
  | nil => rfl
  | cons u updates ih =>
    by_cases hu : u.name ∈ row.names
    · have hstep : row.overlay? (u :: updates) = (row.assign u).overlay? updates := by
        simp [overlay?, overlay, set?_eq_some_assign hu]
      have hfind : row.firstUnknown? (u :: updates) = (row.assign u).firstUnknown? updates := by
        simp [firstUnknown?, hu]
      rw [hstep, hfind, ih, assignAll_cons]
    · have hnone : row.set? u.name u.value = none := set?_eq_none_iff.2 hu
      have hfind : row.firstUnknown? (u :: updates) = some u := by simp [firstUnknown?, hu]
      simp [overlay?, overlay, hnone, hfind]

theorem upsert_eq_assign {row : Row} {u : Field} (h : u.name ∈ row.names) :
    row.upsert u = row.assign u := by
  rw [upsert, set?_eq_some_assign h, Option.getD_some]

theorem Encodable.upsert {row : Row} (h : row.Encodable) {u : Field} (hu : u.Encodable) :
    (row.upsert u).Encodable := by
  by_cases hname : u.name ∈ row.names
  · rw [upsert_eq_assign hname]
    exact h.assign hu.2
  · rw [Row.upsert, set?_eq_none_iff.2 hname, Option.getD_none]
    intro f hf
    rcases List.mem_append.1 hf with hrow | hlast
    · exact h f hrow
    · rw [List.mem_singleton.1 hlast]
      exact hu

/-- A merged row has no longer parts than the row and the updates. -/
theorem Encodable.merge {row updates : Row} (h : row.Encodable) (hu : updates.Encodable) :
    (row.merge updates).Encodable := by
  induction updates generalizing row with
  | nil => exact h
  | cons u updates ih =>
    obtain ⟨hhead, htail⟩ := encodable_cons.1 hu
    exact ih (h.upsert hhead) htail

/-- Merging fields a row has is assigning them. -/
theorem merge_eq_assignAll {row updates : Row} (h : ∀ u ∈ updates, u.name ∈ row.names) :
    row.merge updates = row.assignAll updates := by
  induction updates generalizing row with
  | nil => rfl
  | cons u updates ih =>
    obtain ⟨hu, hrest⟩ := List.forall_mem_cons.1 h
    rw [merge_cons, assignAll_cons, upsert_eq_assign hu]
    exact ih fun v hv => (names_assign row u).symm ▸ hrest v hv

end StoreBench.Row
