import Mathlib.Data.List.Forall2
import StoreBench.Proofs.Table
/-!
# What reads, scans and filters have to do with each other

A scan shows the first entries from its start on and fails if one of them cannot be shown. A filter
shows what a scan of everything shows, as far as it lies within the bounds, and fails as that scan
does; asked for some of the fields, it fails no more often and shows of the same entries what a read
shows. That holds of every store that shows its entries one by one.
-/

namespace StoreBench

/-! ## Bounds -/

/-- Whether every field that is bounded is present and lies within its bounds. -/
def Row.LiesWithin (row low high : Row) : Prop :=
  ∀ b ∈ low.zip high, ∃ value ∈ row.value? b.1.name, b.1.value ≤ value ∧ value ≤ b.2.value

instance (row low high : Row) : Decidable (row.LiesWithin low high) :=
  inferInstanceAs (Decidable (∀ b ∈ low.zip high, ∃ value ∈ row.value? b.1.name, _))

theorem FieldRange.admits_iff {range : FieldRange} {value? : Option Bytes} :
    range.admits value? = true ↔ ∃ value ∈ value?, range.low ≤ value ∧ value ≤ range.high := by
  cases value? <;> simp [admits]

theorem Predicate.matchesRow_iff_of_pair? {low high row : Row} {predicate : Predicate}
    (h : pair? low high = .ok predicate) :
    predicate.matchesRow row = true ↔ row.LiesWithin low high := by
  induction low generalizing high predicate with
  | nil =>
    cases h
    simp [matchesRow, Row.LiesWithin]
  | cons lo low ih =>
    cases high with
    | nil =>
      cases h
      simp [matchesRow, Row.LiesWithin]
    | cons hi high =>
      simp only [pair?] at h
      split at h
      · cases hrest : pair? low high with
        | error cause => rw [hrest] at h; cases h
        | ok rest =>
          rw [hrest] at h
          cases h
          rw [matchesRow, List.all_cons, Bool.and_eq_true, FieldRange.admits_iff, Row.LiesWithin,
            List.zip_cons_cons, List.forall_mem_cons]
          exact and_congr_right fun _ => ih hrest
      · cases h

/-- To match a predicate is to lie within the bounds it was made of. -/
theorem Predicate.matchesRow_iff {low high row : Row} {predicate : Predicate}
    (h : ofBounds? low high = .ok predicate) :
    predicate.matchesRow row = true ↔ row.LiesWithin low high := by
  unfold ofBounds? at h
  split at h
  · exact matchesRow_iff_of_pair? h
  · cases h

/-! ## Items one by one -/

section Items

variable {α β ε : Type} {f : α → Except ε β} {xs : List α} {ys : List β}

/-- Items succeed together exactly if each of them does. -/
theorem mapM_eq_ok_iff_forall₂ :
    xs.mapM f = .ok ys ↔ List.Forall₂ (fun x y => f x = .ok y) xs ys := by
  induction xs generalizing ys with
  | nil => cases ys <;> simp [pure, Except.pure]
  | cons x xs ih =>
    rw [List.mapM_cons, bind_eq_ok_iff]
    constructor
    · rintro ⟨y, hy, hys⟩
      obtain ⟨rest, hrest, hys⟩ := bind_eq_ok_iff.1 hys
      cases hys
      exact .cons hy (ih.1 hrest)
    · rintro (_ | ⟨hy, hrest⟩)
      exact ⟨_, hy, bind_eq_ok_iff.2 ⟨_, ih.2 hrest, rfl⟩⟩

theorem exists_mem_of_mapM_eq_ok (h : xs.mapM f = .ok ys) {y : β} (hy : y ∈ ys) :
    ∃ x ∈ xs, f x = .ok y := by
  rw [mapM_eq_ok_iff_forall₂] at h
  induction h with
  | nil => cases hy
  | @cons x _ xs _ hx hrest ih =>
    rcases List.mem_cons.1 hy with rfl | hy
    · exact ⟨x, List.mem_cons_self, hx⟩
    · obtain ⟨z, hz, hfz⟩ := ih hy
      exact ⟨z, List.mem_cons_of_mem x hz, hfz⟩

/-- Items fail together exactly if one of them cannot succeed. -/
theorem exists_mapM_eq_error_iff :
    (∃ e, xs.mapM f = .error e) ↔ ∃ x ∈ xs, ∀ y, f x ≠ .ok y := by
  induction xs with
  | nil => simp [pure, Except.pure]
  | cons x xs ih =>
    rw [List.mapM_cons, List.exists_mem_cons_iff, ← ih]
    cases f x with
    | error e => simp [bind, Except.bind]
    | ok y => cases xs.mapM f <;> simp [bind, Except.bind, pure, Except.pure]

theorem forall₂_congr_of_mem {R S : α → β → Prop} (h : ∀ x ∈ xs, ∀ y, R x y ↔ S x y) :
    List.Forall₂ R xs ys ↔ List.Forall₂ S xs ys := by
  constructor
  · exact fun hR => ((List.forall₂_and_left xs ys).2 ⟨h, hR⟩).imp fun _ y hxy => (hxy.1 y).1 hxy.2
  · exact fun hS => ((List.forall₂_and_left xs ys).2 ⟨h, hS⟩).imp fun _ y hxy => (hxy.1 y).2 hxy.2

theorem mapM_congr_of_mem {g : α → Except ε β} (h : ∀ x ∈ xs, f x = g x) :
    xs.mapM f = xs.mapM g := by
  induction xs with
  | nil => rfl
  | cons x xs ih =>
    obtain ⟨hx, hrest⟩ := List.forall_mem_cons.1 h
    rw [List.mapM_cons, List.mapM_cons, hx, ih hrest]

theorem filterMapM_congr_of_mem {f g : α → Except ε (Option β)} (h : ∀ x ∈ xs, f x = g x) :
    xs.filterMapM f = xs.filterMapM g := by
  induction xs with
  | nil => rfl
  | cons x xs ih =>
    obtain ⟨hx, hrest⟩ := List.forall_mem_cons.1 h
    rw [List.filterMapM_cons, List.filterMapM_cons, hx, ih hrest]

end Items

/-! ## Searches -/

/-- How the answers of a store to reads, scans and filters agree. What is stored are `entries`;
`Shows` tells as which rows they are shown, and `Known` which fields may be asked for. -/
structure SearchesAgree {α : Type} (entries : List (Bytes × α)) (Shows : Bytes × α → Row → Prop)
    (Known : String → Prop) (answer : (op : Operation) → Except Failure op.Result) : Prop where
  ascending : entries.Pairwise (·.1 < ·.1)
  read_shows : ∀ key row, answer (.read key none) = .ok (some row) ↔
    ∃ x ∈ entries, x.1 = key ∧ Shows x row
  scan_shows : ∀ start count rows, answer (.scan start count none) = .ok rows ↔
    List.Forall₂ Shows ((entries.filter (start ≤ ·.1)).take count) rows
  scan_fails : ∀ start count, (∃ failure, answer (.scan start count none) = .error failure) ↔
    ∃ x ∈ (entries.filter (start ≤ ·.1)).take count, ∀ row, ¬ Shows x row
  filter_whole : ∀ low high predicate, Predicate.ofBounds? low high = .ok predicate →
    (∀ name ∈ low.names, Known name) → ∀ count ≥ entries.length,
      answer (.filter low high none) =
        (answer (.scan [] count none)).map (List.filter fun row => row.LiesWithin low high)
  filter_part : ∀ low high predicate wanted, Predicate.ofBounds? low high = .ok predicate →
    (∀ name ∈ low.names, Known name) → (∀ name ∈ wanted, Known name) →
      (∀ failure, answer (.filter low high (some wanted)) = .error failure ↔
        answer (.filter low high none) = .error failure) ∧
      ∀ whole part, answer (.filter low high none) = .ok whole →
        answer (.filter low high (some wanted)) = .ok part →
        ∃ keys : List Bytes, keys.Sublist (entries.map Prod.fst) ∧
          List.Forall₂ (fun key row => answer (.read key none) = .ok (some row)) keys whole ∧
          List.Forall₂ (fun key row => answer (.read key (some wanted)) = .ok (some row)) keys part

/-- What a filter shows of an entry: nothing if its row does not match. Whether it does is seen by
the whole row. -/
def showMatching {α : Type} (view : Selection → Bytes × α → Except Failure Row)
    (predicate : Predicate) (fields : Selection) (x : Bytes × α) : Except Failure (Option Row) := do
  let row ← view none x
  if predicate.matchesRow row then return some (← view fields x) else return none

theorem showMatching_of_ok {α : Type} {view : Selection → Bytes × α → Except Failure Row}
    {predicate : Predicate} {fields : Selection} {x : Bytes × α} {row : Row}
    (hrow : view none x = .ok row) :
    showMatching view predicate fields x =
      if predicate.matchesRow row then (view fields x).map some else .ok none := by
  simp only [showMatching, hrow, bind, Except.bind, pure, Except.pure]
  split
  · cases view fields x <;> rfl
  · rfl

theorem showMatching_of_error {α : Type} {view : Selection → Bytes × α → Except Failure Row}
    {predicate : Predicate} {fields : Selection} {x : Bytes × α} {failure : Failure}
    (h : view none x = .error failure) :
    showMatching view predicate fields x = .error failure := by
  rw [showMatching, h]
  rfl

/-- Where every whole row has its part, a filter shows the parts of the rows that match. -/
theorem showMatching_eq_map {α : Type} {view : Selection → Bytes × α → Except Failure Row}
    {fields : Selection} {x : Bytes × α} {part : Row → Row}
    (hpart : ∀ row, view none x = .ok row → view fields x = .ok (part row))
    (predicate : Predicate) :
    showMatching view predicate fields x =
      (view none x).map fun row => if predicate.matchesRow row then some (part row) else none := by
  cases hview : view none x with
  | error failure => exact showMatching_of_error hview
  | ok row =>
    rw [showMatching_of_ok hview, hpart row hview]
    cases hmatch : predicate.matchesRow row <;> simp [hmatch, Except.map]

/-- Of an entry that is shown as a table shows a row, a filter shows what the table's filter
does. -/
theorem showMatching_of_row {α : Type} {view : Selection → Bytes × α → Except Failure Row}
    {fields : Selection} {x : Bytes × α} {fieldCount : Nat} {row : Row}
    (hwhole : view none x = Table.view fieldCount x.1 row none)
    (hview : view fields x = Table.view fieldCount x.1 row fields) (predicate : Predicate) :
    showMatching view predicate fields x =
      (Table.view fieldCount x.1 row none).map fun row =>
        if predicate.matchesRow row then some (row.project fields) else none := by
  rw [← hwhole]
  refine showMatching_eq_map (fun _ hshown => ?_) predicate
  exact hview.trans (Table.view_eq_project (hwhole.symm.trans hshown) fields)

/-- Answers that show the entries of a map one by one. An entry that can be shown as a whole can be
shown in parts. -/
structure ShowsEntries {α : Type} (m : SortedMap α)
    (view : Selection → Bytes × α → Except Failure Row) (Known : String → Prop)
    (answer : (op : Operation) → Except Failure op.Result) : Prop where
  read_eq : ∀ key fields, answer (.read key fields) =
    m[key]?.elim (.ok none) fun a => (view fields (key, a)).map some
  scan_eq : ∀ start count, answer (.scan start count none) =
    ((m.entriesFrom start).take count).mapM (view none)
  filter_eq : ∀ low high predicate fields, Predicate.ofBounds? low high = .ok predicate →
    (∀ name ∈ low.names, Known name) →
      answer (.filter low high fields) = m.toList.filterMapM (showMatching view predicate fields)
  exists_part : ∀ x ∈ m.toList, ∀ row wanted, view none x = .ok row →
    (∀ name ∈ wanted, Known name) → ∃ part, view (some wanted) x = .ok part

/-- The entries of a map that match a predicate, with their rows. -/
def matching {α : Type} (m : SortedMap α) (view : Selection → Bytes × α → Except Failure Row)
    (predicate : Predicate) : Except Failure (List ((Bytes × α) × Row)) :=
  (m.toList.mapM fun x => (view none x).map (x, ·)).map
    (List.filter fun y => predicate.matchesRow y.2)

theorem of_matching {α : Type} {m : SortedMap α}
    {view : Selection → Bytes × α → Except Failure Row} {predicate : Predicate}
    {ys : List ((Bytes × α) × Row)} (h : matching m view predicate = .ok ys) :
    (ys.map Prod.fst).Sublist m.toList ∧ ∀ y ∈ ys, view none y.1 = .ok y.2 := by
  rw [matching] at h
  cases hall : m.toList.mapM fun x => (view none x).map (x, ·) with
  | error failure => rw [hall] at h; cases h
  | ok zs =>
    rw [hall] at h
    cases h
    have hshown : ∀ x (z : (Bytes × α) × Row), (view none x).map (x, ·) = .ok z →
        x = z.1 ∧ view none z.1 = .ok z.2 := by
      intro x z hz
      cases hview : view none x with
      | error failure => rw [hview] at hz; cases hz
      | ok row => rw [hview] at hz; cases hz; exact ⟨rfl, hview⟩
    have hentries : zs.map Prod.fst = m.toList := by
      have hpairs := (mapM_eq_ok_iff_forall₂.1 hall).imp fun x z hz => (hshown x z hz).1
      rw [← List.forall₂_map_right_iff, List.forall₂_eq_eq_eq] at hpairs
      exact hpairs.symm
    refine ⟨hentries ▸ List.filter_sublist.map Prod.fst, fun y hy => ?_⟩
    obtain ⟨x, -, hx⟩ := exists_mem_of_mapM_eq_ok hall (List.mem_of_mem_filter hy)
    exact (hshown x y hx).2

namespace ShowsEntries

variable {α : Type} {m : SortedMap α} {view : Selection → Bytes × α → Except Failure Row}
  {Known : String → Prop} {answer : (op : Operation) → Except Failure op.Result}
  (h : ShowsEntries m view Known answer)

include h

theorem read_of_mem {x : Bytes × α} (hx : x ∈ m.toList) (fields : Selection) :
    answer (.read x.1 fields) = (view fields x).map some := by
  rw [h.read_eq, Std.ExtTreeMap.mem_toList_iff_getElem?_eq_some.1 hx, Option.elim_some]

theorem read_found_iff {key : Bytes} {row : Row} :
    answer (.read key none) = .ok (some row) ↔
      ∃ x ∈ m.toList, x.1 = key ∧ view none x = .ok row := by
  constructor
  · intro hread
    rw [h.read_eq] at hread
    cases hkey : m[key]? with
    | none => rw [hkey] at hread; cases hread
    | some a =>
      simp only [hkey, Option.elim_some] at hread
      cases hview : view none (key, a) with
      | error failure => rw [hview] at hread; cases hread
      | ok shown =>
        rw [hview] at hread
        cases hread
        exact ⟨(key, a), Std.ExtTreeMap.mem_toList_iff_getElem?_eq_some.2 hkey, rfl, hview⟩
  · rintro ⟨x, hx, rfl, hview⟩
    rw [h.read_of_mem hx, hview]
    rfl

theorem filter_whole {low high : Row} {predicate : Predicate}
    (hpredicate : Predicate.ofBounds? low high = .ok predicate)
    (hknown : ∀ name ∈ low.names, Known name) {count : Nat} (hcount : m.toList.length ≤ count) :
    answer (.filter low high none) =
      (answer (.scan [] count none)).map (List.filter fun row => row.LiesWithin low high) := by
  have hshow : ∀ x, showMatching view predicate none x =
      (view none x).map fun row => if predicate.matchesRow row then some (id row) else none :=
    fun x => showMatching_eq_map (fun _ hview => hview) predicate
  have hmatches : ∀ row : Row, predicate.matchesRow row = decide (row.LiesWithin low high) := by
    intro row
    rw [Bool.eq_iff_iff, Predicate.matchesRow_iff hpredicate, decide_eq_true_iff]
  rw [h.filter_eq low high predicate none hpredicate hknown, h.scan_eq,
    SortedMap.entriesFrom_nil, List.take_of_length_le hcount,
    filterMapM_congr_of_mem fun x _ => hshow x, filterMapM_map_ite, funext hmatches]
  simp only [List.map_id_fun, id]

/-- What a filter shows is made of the entries that match and their rows. -/
theorem filter_eq_matching {low high : Row} {predicate : Predicate} {fields : Selection}
    (part : Bytes × α → Row → Row) (hpredicate : Predicate.ofBounds? low high = .ok predicate)
    (hknown : ∀ name ∈ low.names, Known name)
    (hpart : ∀ x ∈ m.toList, ∀ row, view none x = .ok row → view fields x = .ok (part x row)) :
    answer (.filter low high fields) =
      (matching m view predicate).map (List.map fun y => part y.1 y.2) := by
  have hshow : ∀ x ∈ m.toList, showMatching view predicate fields x =
      ((view none x).map (x, ·)).map fun y =>
        if predicate.matchesRow y.2 then some (part y.1 y.2) else none := by
    intro x hx
    rw [showMatching_eq_map (hpart x hx)]
    cases view none x <;> rfl
  rw [h.filter_eq low high predicate fields hpredicate hknown, filterMapM_congr_of_mem hshow,
    filterMapM_map_ite _ fun y : (Bytes × α) × Row => predicate.matchesRow y.2, matching]
  cases m.toList.mapM fun x => (view none x).map (x, ·) <;> rfl

/-- A filter for some of the fields fails as one for all of them does, and shows the same
entries. -/
theorem filter_part {low high : Row} {predicate : Predicate} {wanted : List String}
    (hpredicate : Predicate.ofBounds? low high = .ok predicate)
    (hknown : ∀ name ∈ low.names, Known name) (hwanted : ∀ name ∈ wanted, Known name) :
    (∀ failure, answer (.filter low high (some wanted)) = .error failure ↔
      answer (.filter low high none) = .error failure) ∧
    ∀ whole part, answer (.filter low high none) = .ok whole →
      answer (.filter low high (some wanted)) = .ok part →
      ∃ keys : List Bytes, keys.Sublist (m.toList.map Prod.fst) ∧
        List.Forall₂ (fun key row => answer (.read key none) = .ok (some row)) keys whole ∧
        List.Forall₂ (fun key row => answer (.read key (some wanted)) = .ok (some row)) keys
          part := by
  let partOf (x : Bytes × α) : Row := (view (some wanted) x).toOption.getD []
  have hpart : ∀ x ∈ m.toList, ∀ row, view none x = .ok row →
      view (some wanted) x = .ok (partOf x) := by
    intro x hx row hview
    obtain ⟨part, hpart⟩ := h.exists_part x hx row wanted hview hwanted
    simp only [partOf, hpart]
    rfl
  rw [h.filter_eq_matching (fun x _ => partOf x) hpredicate hknown hpart,
    h.filter_eq_matching (fun _ row => row) hpredicate hknown fun _ _ _ => id]
  cases hmatching : matching m view predicate with
  | error failure => exact ⟨fun _ => Iff.rfl, nofun⟩
  | ok ys =>
    refine ⟨fun failure => ⟨nofun, nofun⟩, ?_⟩
    rintro _ _ ⟨⟩ ⟨⟩
    obtain ⟨hsublist, hrows⟩ := of_matching hmatching
    refine ⟨ys.map fun y => y.1.1, ?_, ?_, ?_⟩
    · simpa [Function.comp_def] using hsublist.map Prod.fst
    · rw [List.forall₂_map_left_iff, List.forall₂_map_right_iff, List.forall₂_same]
      intro y hy
      rw [h.read_of_mem (hsublist.subset (List.mem_map_of_mem hy)), hrows y hy]
      rfl
    · rw [List.forall₂_map_left_iff, List.forall₂_map_right_iff, List.forall₂_same]
      intro y hy
      have hmem := hsublist.subset (List.mem_map_of_mem hy)
      rw [h.read_of_mem hmem, hpart y.1 hmem y.2 (hrows y hy)]
      rfl

/-- Searches that show the entries of a map one by one agree. -/
theorem searchesAgree {Shows : Bytes × α → Row → Prop}
    (hshows : ∀ x ∈ m.toList, ∀ row, view none x = .ok row ↔ Shows x row) :
    SearchesAgree m.toList Shows Known answer := by
  have hscanned : ∀ start count,
      ∀ x ∈ (m.toList.filter (start ≤ ·.1)).take count, x ∈ m.toList :=
    fun _ _ _ hx => List.mem_of_mem_filter (List.mem_of_mem_take hx)
  refine ⟨m.toList_ascending, fun key row => ?_, fun start count rows => ?_, fun start count => ?_,
    fun _ _ _ hpredicate hknown _ hcount => h.filter_whole hpredicate hknown hcount,
    fun _ _ _ _ hpredicate hknown hwanted => h.filter_part hpredicate hknown hwanted⟩
  · rw [h.read_found_iff]
    exact exists_congr fun x => and_congr_right fun hx => and_congr_right fun _ => hshows x hx row
  · rw [h.scan_eq, SortedMap.entriesFrom_eq_filter, mapM_eq_ok_iff_forall₂]
    exact forall₂_congr_of_mem fun x hx => hshows x (hscanned start count x hx)
  · rw [h.scan_eq, SortedMap.entriesFrom_eq_filter, exists_mapM_eq_error_iff]
    exact exists_congr fun x => and_congr_right fun hx => forall_congr' fun row =>
      not_congr (hshows x (hscanned start count x hx) row)

end ShowsEntries

end StoreBench
