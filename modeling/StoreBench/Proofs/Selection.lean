import Mathlib.Data.List.Forall2
import Mathlib.Data.Nat.Find
import StoreBench.Proofs.Truncation
/-!
# Selecting decodes as greedy matching

A selecting decode walks a row once and takes each wanted name at its first place behind the one
before. What it finds is the longest beginning of the wanted names that the row carries in this
order, at the leftmost places where it carries them. It looks no further than the last name it
wants, so it may succeed on a buffer that is no encoded row, and never fails on one that is.
-/

namespace StoreBench

namespace Row

/-! ## Greedy matching -/

/-- Ascending places at which a row carries names, one behind the other. -/
structure Embeds (places : List Nat) (names : List String) (row : Row) : Prop where
  ascending : places.Pairwise (· < ·)
  names_eq : places.map (row.names[·]?) = names.map some

namespace Embeds

variable {place : Nat} {places : List Nat} {name : String} {rest : List String} {f : Field}
  {row : Row}

theorem eq_nil (h : Embeds places [] row) : places = [] := List.map_eq_nil_iff.1 h.names_eq

theorem exists_cons (h : Embeds places (name :: rest) row) :
    ∃ place others, places = place :: others ∧ row.names[place]? = some name ∧
      (∀ other ∈ others, place < other) ∧ Embeds others rest row := by
  obtain ⟨hascending, hnames⟩ := h
  cases places with
  | nil => cases hnames
  | cons place others =>
    obtain ⟨hplace, hothers⟩ := List.cons.inj hnames
    obtain ⟨hbehind, hascending⟩ := List.pairwise_cons.1 hascending
    exact ⟨place, others, rfl, hplace, hbehind, hascending, hothers⟩

/-- Places behind the first field are places in the rest of the row. -/
theorem exists_of_pos (h : Embeds places rest (f :: row)) (hpos : ∀ place ∈ places, 0 < place) :
    ∃ others, places = others.map (· + 1) ∧ Embeds others rest row := by
  have hshift : places = (places.map (· - 1)).map (· + 1) := by
    rw [List.map_map]
    exact ((List.map_congr_left fun place hplace => Nat.sub_add_cancel (hpos place hplace)).trans
      (List.map_id places)).symm
  obtain ⟨hascending, hnames⟩ := h
  rw [hshift, List.map_map] at hnames
  rw [hshift, List.pairwise_map] at hascending
  exact ⟨_, hshift, hascending.imp Nat.lt_of_succ_lt_succ, hnames⟩

end Embeds

/-- The places of the wanted fields that are picked. -/
def places : List String → Row → List Nat
  | [], _ => []
  | _ :: _, [] => []
  | w :: others, f :: row =>
    if f.name = w then 0 :: (places others row).map (· + 1)
    else (places (w :: others) row).map (· + 1)

@[simp] theorem places_nil (row : Row) : places [] row = [] := by cases row <;> rfl

/-- The fields picked are those at their places. -/
theorem map_places (wanted : List String) (row : Row) :
    (places wanted row).map (row[·]?) = (pick wanted row).map some := by
  induction row generalizing wanted with
  | nil => cases wanted <;> rfl
  | cons f row ih =>
    cases wanted with
    | nil => simp
    | cons w others =>
      by_cases hw : f.name = w
      · simpa [places, pick, hw, Function.comp_def] using ih others
      · simpa [places, pick, hw, Function.comp_def] using ih (w :: others)

theorem embeds_places (wanted : List String) (row : Row) :
    Embeds (places wanted row) (names (pick wanted row)) row where
  ascending := by
    induction row generalizing wanted with
    | nil => cases wanted <;> exact .nil
    | cons f row ih =>
      have hshifted (wanted : List String) :
          ((places wanted row).map (· + 1)).Pairwise (· < ·) :=
        List.pairwise_map.2 ((ih wanted).imp Nat.succ_lt_succ)
      cases wanted with
      | nil => simp
      | cons w others =>
        simp only [places]
        split
        · exact List.pairwise_cons.2 ⟨by simp, hshifted others⟩
        · exact hshifted (w :: others)
  names_eq := by
    have hfields := congrArg (List.map (Option.map Field.name)) (map_places wanted row)
    simpa [names, Function.comp_def] using hfields

theorem names_pick_isPrefix (wanted : List String) (row : Row) :
    names (pick wanted row) <+: wanted := by
  induction row generalizing wanted with
  | nil => cases wanted <;> simp [pick, names]
  | cons f row ih =>
    cases wanted with
    | nil => simp [names]
    | cons w others =>
      simp only [pick]
      split
      · next hw => exact hw ▸ List.cons_prefix_cons.2 ⟨rfl, ih others⟩
      · exact ih (w :: others)

/-- No longer beginning of the wanted names is found anywhere in the row. -/
theorem length_le_of_isPrefix {wanted found : List String} {row : Row} (hbegins : found <+: wanted)
    (hfound : found.Sublist row.names) : found.length ≤ (pick wanted row).length := by
  induction row generalizing wanted found with
  | nil =>
    cases hfound
    exact Nat.zero_le _
  | cons f row ih =>
    cases found with
    | nil => exact Nat.zero_le _
    | cons w found =>
      obtain ⟨others, rfl⟩ := hbegins
      by_cases hw : f.name = w
      · subst hw
        have hrest : found.Sublist (names row) := List.cons_sublist_cons.1 hfound
        simpa [pick] using ih (List.prefix_append found others) hrest
      · simp only [List.cons_append, pick, hw, if_false]
        rcases List.sublist_cons_iff.1 hfound with hrest | ⟨_, hhead, -⟩
        · exact ih (List.prefix_append (w :: found) others) hrest
        · exact absurd (List.cons.inj hhead).1.symm hw

/-- No wanted name is found before the place where it is picked. -/
theorem places_le {wanted : List String} {row : Row} {others : List Nat}
    (h : Embeds others (names (pick wanted row)) row) :
    List.Forall₂ (· ≤ ·) (places wanted row) others := by
  induction row generalizing wanted others with
  | nil =>
    have hnone : pick wanted [] = [] := by cases wanted <;> rfl
    rw [hnone] at h
    rw [h.eq_nil]
    cases wanted <;> exact .nil
  | cons f row ih =>
    have hshifted {wanted : List String} {others : List Nat}
        (h : Embeds others (names (pick wanted row)) (f :: row))
        (hpos : ∀ place ∈ others, 0 < place) :
        List.Forall₂ (· ≤ ·) ((places wanted row).map (· + 1)) others := by
      obtain ⟨rest, rfl, hrest⟩ := h.exists_of_pos hpos
      rw [List.forall₂_map_left_iff, List.forall₂_map_right_iff]
      exact (ih hrest).imp fun _ _ => Nat.succ_le_succ
    cases wanted with
    | nil =>
      rw [pick_nil] at h
      rw [h.eq_nil, places_nil]
      exact .nil
    | cons w wanted =>
      by_cases hw : f.name = w
      · subst hw
        simp only [pick, places, if_true] at h ⊢
        obtain ⟨place, rest, rfl, -, hbehind, hrest⟩ := h.exists_cons
        exact .cons (Nat.zero_le place) (hshifted hrest fun other hother =>
          Nat.zero_lt_of_lt (hbehind other hother))
      · simp only [pick, places, hw, if_false] at h ⊢
        refine hshifted h fun place hplace => ?_
        -- The first name found is wanted first, and the first field has another.
        cases hnames : names (pick (w :: wanted) row) with
        | nil =>
          rw [hnames] at h
          rw [h.eq_nil] at hplace
          cases hplace
        | cons name names =>
          have hname : name = w :=
            (List.cons_prefix_cons.1 (hnames ▸ names_pick_isPrefix (w :: wanted) row)).1
          rw [hnames] at h
          obtain ⟨first, rest, rfl, hfirst, hbehind, -⟩ := h.exists_cons
          have hpos : 0 < first := by
            apply Nat.pos_of_ne_zero
            rintro rfl
            exact hw (Option.some.inj (hfirst.trans (congrArg some hname)))
          rcases List.mem_cons.1 hplace with rfl | hplace
          · exact hpos
          · exact Nat.lt_trans hpos (hbehind place hplace)

/-! ## Buffers -/

variable {wanted : List String} {buffer : Bytes} {found : Row}

/-- Once all wanted names are found, what follows is not read. -/
theorem selectFrom_append {c : Cursor} (h : selectFrom wanted c = .ok found)
    (hall : found.names = wanted) (tail : Bytes) (offset : Nat) :
    selectFrom wanted ⟨offset, c.rest ++ tail⟩ = .ok found := by
  fun_induction selectFrom wanted c generalizing found offset with
  | case1 c => simpa [selectFrom] using h
  | case2 c w others hempty =>
    cases h
    cases hall
  | case3 c w others hempty e c' hread => cases h
  | case4 c w others hempty value c' hread ih =>
    obtain ⟨hname, hvalue, hrest⟩ := Cursor.framed_of_readField hread
    cases hfound : selectFrom others c' with
    | error e => rw [hfound] at h; cases h
    | ok rest =>
      rw [hfound] at h
      cases h
      rw [hrest, List.append_assoc, selectFrom_framed hname hvalue]
      simp only [if_true, ih hfound (List.cons.inj hall).2]
      rfl
  | case5 c w others hempty name value c' hread hname' ih =>
    obtain ⟨hname, hvalue, hrest⟩ := Cursor.framed_of_readField hread
    rw [hrest, List.append_assoc, selectFrom_framed hname hvalue, if_neg hname']
    exact ih h hall _

theorem select?_append (h : select? wanted buffer = .ok found) (hall : found.names = wanted)
    (tail : Bytes) : select? wanted (buffer ++ tail) = .ok found :=
  selectFrom_append h hall tail 0

/-- A selecting decode fails only on a buffer that is no encoded row. -/
theorem exists_error_of_select? {cause : Corruption} (h : select? wanted buffer = .error cause) :
    ∃ cause, decode? buffer = .error cause := by
  cases hdecode : decode? buffer with
  | error cause => exact ⟨cause, rfl⟩
  | ok row =>
    obtain ⟨hrow, rfl⟩ := decode?_eq_ok_iff.1 hdecode
    cases h.symm.trans (select?_bytes hrow wanted)

theorem value_select_eq_ok_iff :
    (select wanted buffer).value = .ok found ↔ select? wanted buffer = .ok found := by
  rw [value_select, mapError_eq_ok_iff]

/-- A buffer from which all wanted names are selected has a shortest beginning from which they are,
and the bytes behind it do not matter. -/
theorem exists_shortest_take (h : (select wanted buffer).value = .ok found)
    (hall : found.names = wanted) :
    ∃ n ≤ buffer.length, (∀ cut < n, (select wanted (buffer.take cut)).value ≠ .ok found) ∧
      ∀ tail, (select wanted (buffer.take n ++ tail)).value = .ok found := by
  classical
  have hsome : ∃ n, (select wanted (buffer.take n)).value = .ok found :=
    ⟨buffer.length, by rwa [List.take_length]⟩
  refine ⟨Nat.find hsome, Nat.find_min' hsome (by rwa [List.take_length]), ?_, ?_⟩
  · exact fun cut hcut => Nat.find_min hsome hcut
  · intro tail
    have hfound := value_select_eq_ok_iff.1 (Nat.find_spec hsome)
    exact value_select_eq_ok_iff.2 (select?_append hfound hall tail)

/-- From an encoded row, a selecting decode takes the longest beginning of the wanted names that the
row carries in this order, at the leftmost places where it carries them. It fails only with a
corrupt row, and only where decoding the whole row fails. Once all wanted names are found, the rest
of the buffer does not matter. -/
theorem select_greedy (wanted : List String) (buffer : Bytes) :
    (∀ row, (decode buffer).value = .ok row →
      ∃ found places, (select wanted buffer).value = .ok found ∧
        found.names <+: wanted ∧ found.names.Sublist row.names ∧
        (∀ names, names <+: wanted → names.Sublist row.names → names.length ≤ found.length) ∧
        places.map (row[·]?) = found.map some ∧ Embeds places found.names row ∧
        (∀ others, Embeds others found.names row → List.Forall₂ (· ≤ ·) places others) ∧
        (wanted.Sublist row.names → found.names = wanted)) ∧
    (∀ error, (select wanted buffer).value = .error error →
      (∃ cause, error = .corruptRow cause) ∧
        ∃ cause, (decode buffer).value = .error (.corruptRow cause)) ∧
    ∀ found, (select wanted buffer).value = .ok found → found.names = wanted →
      ∃ n ≤ buffer.length, (∀ cut < n, (select wanted (buffer.take cut)).value ≠ .ok found) ∧
        ∀ tail, (select wanted (buffer.take n ++ tail)).value = .ok found := by
  refine ⟨fun row hrow => ?_, fun error herror => ?_, fun found => exists_shortest_take⟩
  · obtain ⟨hencodable, rfl⟩ := decode?_eq_ok_iff.1 (value_decode_eq_ok_iff.1 hrow)
    exact ⟨pick wanted row, places wanted row,
      value_select_eq_ok_iff.2 (select?_bytes hencodable wanted), names_pick_isPrefix wanted row,
      (pick_sublist wanted row).map Field.name, fun names => length_le_of_isPrefix,
      map_places wanted row, embeds_places wanted row, fun others => places_le, names_pick⟩
  · rw [value_select] at herror
    cases hselect : select? wanted buffer with
    | ok found => rw [hselect] at herror; cases herror
    | error cause =>
      rw [hselect] at herror
      cases herror
      obtain ⟨cause', hdecode⟩ := exists_error_of_select? hselect
      exact ⟨⟨cause, rfl⟩, cause', by rw [value_decode, hdecode]; rfl⟩

/-- Names wanted in another order than that of the row, and a buffer that is broken behind its first
field. -/
theorem select_out_of_order_and_early :
    let row : Row := [⟨"a", [7]⟩, ⟨"b", []⟩]
    let buffer : Bytes := [1, 0, 0, 0, 97, 1, 0, 0, 0, 7, 1, 0, 0, 0, 98, 0, 0, 0, 0]
    let broken : Bytes := [1, 0, 0, 0, 97, 1, 0, 0, 0, 7, 255]
    ((decode buffer).value = .ok row ∧
      ∃ found places, (select ["b", "a"] buffer).value = .ok found ∧
        Embeds places found.names row ∧ found.names <+: ["b", "a"]) ∧
    ((select ["b"] broken).value = .error (.corruptRow (.bufferTooShort 4 1 10 11)) ∧
      ∃ cause, (decode broken).value = .error (.corruptRow cause)) ∧
    (select ["a"] broken).value = .ok [⟨"a", [7]⟩] ∧
      ∃ n ≤ broken.length, ∀ tail,
        (select ["a"] (broken.take n ++ tail)).value = .ok [⟨"a", [7]⟩] := by
  intro row buffer broken
  have hrow : (decode buffer).value = .ok row :=
    value_decode_eq_ok_iff.2 (decode?_eq_ok_iff.2 ⟨by decide, by decide⟩)
  have hmissing : (select ["b"] broken).value =
      .error (.corruptRow (.bufferTooShort 4 1 10 11)) := by
    have hfirst : select? ["b"] broken = selectFrom ["b"] ⟨10, [255]⟩ :=
      @selectFrom_framed [97] [7] (by decide) (by decide) "b" [] [255] 0
    have hsecond : selectFrom ["b"] ⟨10, [255]⟩ = .error (.bufferTooShort 4 1 10 11) := by
      rw [selectFrom]
      rfl
    rw [value_select, hfirst, hsecond]
    rfl
  have hfound : (select ["a"] broken).value = .ok [⟨"a", [7]⟩] := by
    rw [value_select_eq_ok_iff]
    have hwhole : Row.Encodable [⟨"a", [7]⟩] := by decide
    exact select?_append (select?_bytes hwhole ["a"]) rfl [255]
  obtain ⟨found, places, hselect, hbegins, -, -, -, hplaces, -⟩ :=
    (select_greedy ["b", "a"] buffer).1 row hrow
  obtain ⟨n, hn, -, htail⟩ := (select_greedy ["a"] broken).2.2 _ hfound rfl
  exact ⟨⟨hrow, found, places, hselect, hplaces, hbegins⟩,
    ⟨hmissing, ((select_greedy ["b"] broken).2.1 _ hmissing).2⟩, hfound, n, hn, htail⟩

end Row

end StoreBench
