import StoreBench.Operation
import StoreBench.Proofs.Overlay
import StoreBench.Row.Predicate
import StoreBench.SortedMap
/-!
# Tables of rows

A table is what a store of rows means: a map from keys to rows, without bytes, slots or engines.
Its operations say in terms of rows what a client may expect. Adapters are measured against it:
two of them that both act like the table act alike.
-/

namespace StoreBench

namespace SortedMap

variable {α β : Type}

theorem map_insert (m : SortedMap α) (f : Bytes → α → β) (key : Bytes) (a : α) :
    (m.insert key a).map f = (m.map f).insert key (f key a) := by
  apply Std.ExtTreeMap.ext_getElem?
  intro k
  simp only [Std.ExtTreeMap.getElem?_map, Std.ExtTreeMap.getElem?_insert]
  by_cases hk : Bytes.order key k = .eq
  · simp [Bytes.order_eq_eq_iff.1 hk]
  · simp [hk]

theorem map_erase (m : SortedMap α) (f : Bytes → α → β) (key : Bytes) :
    (m.erase key).map f = (m.map f).erase key := by
  apply Std.ExtTreeMap.ext_getElem?
  intro k
  simp only [Std.ExtTreeMap.getElem?_map, Std.ExtTreeMap.getElem?_erase]
  by_cases hk : Bytes.order key k = .eq <;> simp [hk]

theorem entriesFrom_map (m : SortedMap α) (f : Bytes → α → β) (start : Bytes) :
    entriesFrom (m.map f) start = (m.entriesFrom start).map fun e => (e.1, f e.1 e.2) := by
  rw [entriesFrom, entriesFrom, Std.ExtTreeMap.toList_map, List.dropWhile_map]
  rfl

/-- Among ascending keys those before the start come first. -/
theorem entriesFrom_eq_filter (m : SortedMap α) (start : Bytes) :
    m.entriesFrom start = m.toList.filter fun e => start ≤ e.1 := by
  have h := m.toList_ascending
  simp only [entriesFrom, Bytes.order_eq_lt_iff]
  generalize m.toList = entries at h
  induction entries with
  | nil => rfl
  | cons e entries ih =>
    obtain ⟨hhead, htail⟩ := List.pairwise_cons.1 h
    by_cases he : e.1 < start
    · have hle : ¬ start ≤ e.1 := fun hle => List.not_lt.2 hle he
      simp [he, hle, ih htail]
    · -- Everything behind the first entry that is not dropped is at least as large.
      have hall : ∀ x ∈ entries, start ≤ x.1 := by
        intro x hx
        exact List.le_trans (List.not_lt.1 he) (List.le_of_lt (hhead x hx))
      have hle : start ≤ e.1 := List.not_lt.1 he
      have hrest : entries.filter (fun x => start ≤ x.1) = entries :=
        List.filter_eq_self.2 fun x hx => decide_eq_true (hall x hx)
      simp [he, hle, hrest]

theorem entriesFrom_nil (m : SortedMap α) : m.entriesFrom [] = m.toList := by
  rw [entriesFrom_eq_filter, List.filter_eq_self]
  simp

end SortedMap

theorem filterMapM_map {α β γ : Type} {m : Type → Type} [Monad m] [LawfulMonad m] (g : α → β)
    (f : β → m (Option γ)) (xs : List α) :
    (xs.map g).filterMapM f = xs.filterMapM fun x => f (g x) := by
  induction xs with
  | nil => rfl
  | cons x xs ih => rw [List.map_cons, List.filterMapM_cons, List.filterMapM_cons, ih]

/-- Filtering what was shown of each item is showing all of them first. -/
theorem filterMapM_map_ite {α β γ ε : Type} (show? : α → Except ε β) (keep : β → Bool) (g : β → γ)
    (xs : List α) :
    (xs.filterMapM fun x => (show? x).map fun b => if keep b then some (g b) else none) =
      (xs.mapM show?).map fun bs => (bs.filter keep).map g := by
  induction xs with
  | nil => rfl
  | cons x xs ih =>
    rw [List.filterMapM_cons, List.mapM_cons, ih]
    cases show? x with
    | error e => rfl
    | ok b =>
      cases hb : keep b <;> cases xs.mapM show? <;>
        simp [Except.map, hb, bind, Except.bind, pure, Except.pure]

theorem Predicate.pair?_ne_longPart {low high : Row} {part : String} {length : Nat} :
    pair? low high ≠ .error (.longPart part length) := by
  intro h
  induction low generalizing high with
  | nil => cases h
  | cons lo low ih =>
    cases high with
    | nil => cases h
    | cons hi high =>
      simp only [pair?] at h
      split at h
      · cases hrest : pair? low high with
        | ok rest => rw [hrest] at h; cases h
        | error cause =>
          rw [hrest] at h
          cases h
          exact ih hrest
      · cases h

/-- Bounds are never refused for their length. -/
theorem Predicate.ofBounds?_ne_longPart {low high : Row} {part : String} {length : Nat} :
    ofBounds? low high ≠ .error (.longPart part length) := by
  intro h
  unfold ofBounds? at h
  split at h
  · exact pair?_ne_longPart h
  · cases h

/-- The wanted fields of a row, or all of them. -/
def Row.project : Selection → Row → Row
  | some wanted, row => pick wanted row
  | none, row => row

/-- Rows by key, without a representation. -/
abbrev Table := SortedMap Row

namespace Table

/-- What is shown of a row: the wanted fields, or the whole of it. A row shown as a whole has to
have all its fields. -/
def view (fieldCount : Nat) (key : Bytes) (row : Row) : Selection → Except Failure Row
  | some wanted => .ok (Row.pick wanted row)
  | none =>
    if row.length = fieldCount then .ok row
    else .error (.raised (.corruptRow (.fieldCount key row.length fieldCount)))

theorem eq_of_view_none {fieldCount : Nat} {key : Bytes} {row shown : Row}
    (h : view fieldCount key row none = .ok shown) : row = shown := by
  simp only [view] at h
  split at h
  · cases h; rfl
  · cases h

/-- A row that is shown as a whole is shown in part. -/
theorem view_eq_project {fieldCount : Nat} {key : Bytes} {row shown : Row}
    (h : view fieldCount key row none = .ok shown) (fields : Selection) :
    view fieldCount key row fields = .ok (shown.project fields) := by
  cases fields with
  | none => exact h
  | some wanted => rw [eq_of_view_none h]; rfl

theorem corruptRow_of_view {fieldCount : Nat} {key : Bytes} {row : Row} {fields : Selection}
    {failure : Failure} (h : view fieldCount key row fields = .error failure) :
    ∃ cause, failure = .raised (.corruptRow cause) := by
  cases fields with
  | some wanted => cases h
  | none =>
    simp only [view] at h
    split at h
    · cases h
    · cases h
      exact ⟨_, rfl⟩

theorem corruptRow_of_mapM_view {fieldCount : Nat} {entries : List (Bytes × Row)}
    {fields : Selection} {failure : Failure}
    (h : (entries.mapM fun x => view fieldCount x.1 x.2 fields) = .error failure) :
    ∃ cause, failure = .raised (.corruptRow cause) := by
  induction entries with
  | nil => cases h
  | cons x entries ih =>
    rw [List.mapM_cons] at h
    cases hview : view fieldCount x.1 x.2 fields with
    | error failure' =>
      rw [hview] at h
      cases h
      exact corruptRow_of_view hview
    | ok row =>
      cases hrest : entries.mapM fun x => view fieldCount x.1 x.2 fields with
      | error failure' =>
        rw [hview, hrest] at h
        cases h
        exact ih hrest
      | ok rows =>
        rw [hview, hrest] at h
        cases h

variable (fieldCount : Nat) (t : Table)

def read (key : Bytes) (fields : Selection) : Except Failure (Option Row) :=
  match t[key]? with
  | none => .ok none
  | some row => (view fieldCount key row fields).map some

/-- The rows of the first `count` keys from `start` on, in order of keys. -/
def scan (start : Bytes) (count : Nat) (fields : Selection) : Except Failure (List Row) :=
  ((t.toList.filter fun e => start ≤ e.1).take count).mapM fun e => view fieldCount e.1 e.2 fields

/-- Assign the updates to the row under a key, if it has all of their names. -/
def update (key : Bytes) (updates : Row) : Except Failure Status × Table :=
  match t[key]? with
  | none => (.ok .notFound, t)
  | some row =>
    match row.firstUnknown? updates with
    | some u => (.error (.raised (.unknownField u.name)), t)
    | none => (.ok .ok, t.insert key (row.assignAll updates))

/-- The matching rows, in order of keys. Every row has to have all its fields. -/
def filter (low high : Row) (fields : Selection) : Except Failure (List Row) := do
  let predicate ← (Predicate.ofBounds? low high).mapError (.raised ∘ .invalidArgument)
  let rows ← t.toList.mapM fun e => view fieldCount e.1 e.2 none
  return (rows.filter predicate.matchesRow).map (Row.project fields)

/-- The answer to an operation and the table after it. -/
def perform : (op : Operation) → Except Failure op.Result × Table
  | .read key fields => (t.read fieldCount key fields, t)
  | .scan start count fields => (t.scan fieldCount start count fields, t)
  | .update key fields => t.update key fields
  | .insert key fields => (.ok .ok, t.insert key fields)
  | .delete key => (.ok .ok, t.erase key)
  | .filter low high fields => (t.filter fieldCount low high fields, t)

variable {t}

/-- A table fails over a row that has not all its fields, over a name that a row lacks and over
bounds that do not pair. -/
theorem error_of_perform {op : Operation} {failure : Failure}
    (h : (t.perform fieldCount op).1 = .error failure) :
    (∃ cause, failure = .raised (.corruptRow cause)) ∨
      (∃ name, failure = .raised (.unknownField name)) ∨
      ∃ low high cause, Predicate.ofBounds? low high = .error cause ∧
        failure = .raised (.invalidArgument cause) := by
  cases op with
  | read key fields =>
    simp only [perform, read] at h
    cases hrow : t[key]? with
    | none => rw [hrow] at h; cases h
    | some row =>
      simp only [hrow] at h
      cases hview : view fieldCount key row fields with
      | ok shown => rw [hview] at h; cases h
      | error failure' =>
        rw [hview] at h
        cases h
        exact .inl (corruptRow_of_view hview)
  | scan start count fields => exact .inl (corruptRow_of_mapM_view h)
  | update key updates =>
    simp only [perform, update] at h
    cases hrow : t[key]? with
    | none => rw [hrow] at h; cases h
    | some row =>
      simp only [hrow] at h
      cases hunknown : row.firstUnknown? updates with
      | none => rw [hunknown] at h; cases h
      | some u => rw [hunknown] at h; cases h; exact .inr (.inl ⟨u.name, rfl⟩)
  | insert key row => cases h
  | delete key => cases h
  | filter low high fields =>
    simp only [perform, filter] at h
    cases hpredicate : Predicate.ofBounds? low high with
    | error cause =>
      rw [hpredicate] at h
      cases h
      exact .inr (.inr ⟨low, high, cause, hpredicate, rfl⟩)
    | ok predicate =>
      cases hrows : t.toList.mapM fun x => view fieldCount x.1 x.2 none with
      | ok rows => rw [hpredicate, hrows] at h; cases h
      | error failure' =>
        rw [hpredicate, hrows] at h
        cases h
        exact .inl (corruptRow_of_mapM_view hrows)

/-- Updating a field that no row of the table has changes nothing. -/
theorem perform_update_unknown {names : List String} {key : Bytes} {updates : Row} {u : Field}
    (hnames : ∀ row : Row, t[key]? = some row → row.names = names)
    (hu : updates.find? (fun u => u.name ∉ names) = some u) :
    t.perform fieldCount (.update key updates) =
      (if t[key]?.isSome then .error (.raised (.unknownField u.name)) else .ok .notFound, t) := by
  simp only [perform, update]
  cases hrow : t[key]? with
  | none => rfl
  | some row =>
    have hunknown : row.firstUnknown? updates = some u := by
      rw [Row.firstUnknown?, hnames row hrow]
      exact hu
    simp [hunknown]

end Table

end StoreBench
