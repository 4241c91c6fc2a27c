import StoreBench.Proofs.Protocol
import StoreBench.Proofs.Columns
import StoreBench.Workload.Basic
/-!
# What workloads ask for

A call of a workload draws from its worker and then issues one operation. The operation is of a kind
that the task allows, its key names a record, and the fields it writes or selects are those that the
options ask for, with values of the right sort. Only writes can fail while they are planned, where
memory does not hold the filler, and then nothing is issued. All this is said of the call as a
program, whatever answers it gets.

What is known of the bytes in the pool of a worker is a parameter: they are good, whatever that
means. Filler is made of good bytes then.
-/

namespace StoreBench

open Skew

variable {ι : Interface} {κ α β : Type} {good : UInt8 → Prop}

/-! ## Byte pools -/

namespace Skew.BytePool

variable {pool : BytePool}

/-- Every byte of the pool is good. -/
def AllBytes (good : UInt8 → Prop) (pool : BytePool) : Prop :=
  ∀ block ∈ pool.blocks, ∀ b ∈ block.toList, good b

theorem allBytes_true : pool.AllBytes fun _ => True := fun _ _ _ _ => trivial

theorem AllBytes.fill (h : pool.AllBytes good) (count : Nat) :
    (∀ b ∈ (pool.fill count).1, good b) ∧ (pool.fill count).2.AllBytes good := by
  refine ⟨fun b hb => ?_, h⟩
  obtain ⟨i, -, rfl⟩ := List.mem_map.1 hb
  exact h pool.current (Array.getElem_mem pool.slot_lt) _
    (Vector.mem_toList_iff.2 (Vector.getElem_mem (Nat.mod_lt i (by decide))))

theorem AllBytes.advance (h : pool.AllBytes good) : pool.advance.AllBytes good := h

end Skew.BytePool

/-! ## Drawing -/

namespace Drawing

/-- With any worker whose pool is made of good bytes, the drawing follows a protocol, leaves such a
worker, fails as told at most, and otherwise ends as told. -/
structure Follows (good : UInt8 → Prop) (P : Protocol ι κ) (fails : κ → Failure → Prop)
    (ends : κ → α → Prop) (k : κ) (d : Drawing ι α) : Prop where
  program : ∀ worker : Worker, worker.pool.AllBytes good →
    (d.run.run worker).Follows P (fun k result => result.2.pool.AllBytes good ∧
      match result.1 with
      | .ok a => ends k a
      | .error failure => fails k failure) k

variable {P : Protocol ι κ} {fails : κ → Failure → Prop} {ends middle : κ → α → Prop} {k : κ}

theorem follows_pure {a : α} (h : ends k a) : (pure a : Drawing ι α).Follows good P fails ends k :=
  ⟨fun _ hworker => ⟨hworker, h⟩⟩

theorem Follows.bind {d : Drawing ι α} {f : α → Drawing ι β} {ends : κ → β → Prop}
    (hd : d.Follows good P fails middle k)
    (hf : ∀ k a, middle k a → (f a).Follows good P fails ends k) :
    (d >>= f).Follows good P fails ends k := by
  refine ⟨fun worker hworker => Program.follows_bind.2
    ((hd.program worker hworker).imp fun k result hresult => ?_)⟩
  obtain ⟨_ | a, worker⟩ := result
  · exact hresult
  · exact (hf k a hresult.2).program worker hresult.1

theorem Follows.imp {d : Drawing ι α} {ends : κ → α → Prop} (h : d.Follows good P fails middle k)
    (himp : ∀ k a, middle k a → ends k a) : d.Follows good P fails ends k :=
  ⟨fun worker hworker => (h.program worker hworker).imp fun k result => match result with
    | (.ok a, _) => And.imp_right (himp k a)
    | (.error _, _) => id⟩

theorem Follows.imp_fails {d : Drawing ι α} {fails' : κ → Failure → Prop}
    (h : d.Follows good P fails ends k) (himp : ∀ k failure, fails k failure → fails' k failure) :
    d.Follows good P fails' ends k :=
  ⟨fun worker hworker => (h.program worker hworker).imp fun k result => match result with
    | (.ok _, _) => id
    | (.error failure, _) => And.imp_right (himp k failure)⟩

theorem follows_lift {p : Program ι α} (h : p.Follows P ends k) :
    (lift p).Follows good P fails ends k := by
  refine ⟨fun worker hworker => ?_⟩
  exact Program.follows_bind.2 (Program.follows_bind.2 (h.imp fun k a ha => ⟨hworker, ha⟩))

theorem follows_click {sensor : Sensor} {ends : κ → Unit → Prop} (h : ends k ()) :
    (click sensor : Drawing ι Unit).Follows good P fails ends k := follows_lift h

theorem follows_ofExcept {result : Except Failure α} (hok : ∀ a, result = .ok a → ends k a)
    (hfails : ∀ failure, result = .error failure → fails k failure) :
    (ofExcept result : Drawing ι α).Follows good P fails ends k := by
  refine ⟨fun worker hworker => ⟨hworker, ?_⟩⟩
  cases result with
  | ok a => exact hok a rfl
  | error failure => exact hfails failure rfl

/-- What follows a step from which nothing more is known. -/
theorem Follows.bind_same {d : Drawing ι α} {f : α → Drawing ι β} {middle : α → Prop}
    {ends : κ → β → Prop} (hd : d.Follows good P fails (fun k' a => k' = k ∧ middle a) k)
    (hf : ∀ a, middle a → (f a).Follows good P fails ends k) :
    (d >>= f).Follows good P fails ends k := by
  refine hd.bind ?_
  rintro _ a ⟨rfl, ha⟩
  exact hf a ha

theorem follows_get : (get : Drawing ι Worker).Follows good P fails
    (fun k' worker => k' = k ∧ worker.pool.AllBytes good) k :=
  ⟨fun _ hworker => ⟨hworker, rfl, hworker⟩⟩

theorem follows_modify {change : Worker → Worker}
    (h : ∀ worker : Worker, worker.pool.AllBytes good → (change worker).pool.AllBytes good) :
    (modify change : Drawing ι PUnit).Follows good P fails (fun k' _ => k' = k ∧ True) k :=
  ⟨fun worker hworker => ⟨h worker hworker, rfl, trivial⟩⟩

theorem follows_reported {draw : Random.Stream → Program ι (α × Random.Stream)}
    (h : ∀ s, (draw s).Follows P (fun k result => ends k result.1) k) :
    (reported draw).Follows good P fails ends k := by
  refine follows_get.bind_same fun worker _ => ?_
  refine (follows_lift (h worker.stream)).bind fun k result hresult => ?_
  refine Follows.bind_same (follows_modify ?_) fun _ _ => follows_pure hresult
  exact fun _ hworker => hworker

/-- Filler has the length asked for and is made of good bytes. There is none that memory does not
hold. -/
theorem follows_filler [Machine] {length : Nat} {ends : κ → Bytes → Prop}
    (h : FitsMemory length 1 → ∀ bytes : Bytes, bytes.length = length → (∀ b ∈ bytes, good b) →
      ends k bytes)
    (hfails : ∀ failure, (reserve length 1 : Except Failure Unit) = .error failure →
      fails k failure) :
    (filler length : Drawing ι Bytes).Follows good P fails ends k := by
  refine follows_get.bind_same fun worker hworker => ?_
  have hfill : (ofExcept (worker.pool.fill? length) : Drawing ι _).Follows good P fails
      (fun k' filled => k' = k ∧ FitsMemory length 1 ∧ filled = worker.pool.fill length) k := by
    unfold BytePool.fill?
    cases hreserve : (reserve length 1 : Except Failure Unit) with
    | error failure =>
      refine follows_ofExcept (fun _ => nofun) ?_
      rintro _ ⟨⟩
      exact hfails failure hreserve
    | ok _ =>
      refine follows_ofExcept ?_ fun _ => nofun
      rintro _ ⟨⟩
      exact ⟨rfl, reserve_eq_ok_iff.1 hreserve, rfl⟩
  refine hfill.bind_same ?_
  rintro _ ⟨hfits, rfl⟩
  obtain ⟨hbytes, hpool⟩ := hworker.fill length
  have hreset : (lift (worker.pool.fill length).2.reset : Drawing ι BytePool).Follows good P fails
      (fun k' pool => k' = k ∧ pool.AllBytes good) k := follows_lift ⟨rfl, hpool.advance⟩
  refine hreset.bind_same fun pool hpool => ?_
  refine (follows_modify fun _ _ => hpool).bind_same fun _ _ => ?_
  exact follows_pure (h hfits _ (worker.pool.length_fill length) hbytes)

/-- The drawing makes no requests, does not fail, and ends as told. -/
abbrev Yields (good : UInt8 → Prop) (ok : α → Prop) (d : Drawing ι α) : Prop :=
  d.Follows good .silent (fun _ _ => False) (fun k a => k = () ∧ ok a) ()

theorem Yields.follows {ok : α → Prop} {d : Drawing ι α} (h : d.Yields good ok) (k : κ) :
    d.Follows good P fails (fun k' a => k' = k ∧ ok a) k := by
  refine ⟨fun worker hworker => ((h.program worker hworker).of_silent k).imp ?_⟩
  rintro _ ⟨failure | a, worker⟩ ⟨rfl, hpool, hresult⟩
  · exact hresult.elim
  · exact ⟨hpool, rfl, hresult.2⟩

theorem yields_fromStream {draw : Random.Stream → α × Random.Stream} {ok : α → Prop}
    (h : ∀ s, ok (draw s).1) : (fromStream draw : Drawing ι α).Yields good ok :=
  follows_reported fun s => ⟨rfl, h s⟩

theorem yields_below {n : Nat} (hn : 0 < n) : (below n : Drawing ι Nat).Yields good (· < n) :=
  yields_fromStream fun s => s.nextBelow_lt hn

theorem yields_click {sensor : Sensor} :
    (click sensor : Drawing ι Unit).Yields good fun _ => True := follows_click ⟨rfl, trivial⟩

/-- Drawing one after another, each item by its place. -/
theorem follows_mapM {f : β → Drawing ι α} {ok : β → α → Prop} {xs : List β}
    (h : ∀ x ∈ xs, (f x).Follows good P fails (fun k' a => k' = k ∧ ok x a) k) :
    (xs.mapM f).Follows good P fails (fun k' as => k' = k ∧ as.length = xs.length ∧
      ∀ (i : Nat) x a, xs[i]? = some x → as[i]? = some a → ok x a) k := by
  induction xs with
  | nil => exact follows_pure ⟨rfl, rfl, nofun⟩
  | cons x xs ih =>
    rw [List.mapM_cons]
    refine (h x List.mem_cons_self).bind_same fun a ha => ?_
    refine (ih fun y hy => h y (List.mem_cons_of_mem x hy)).bind_same fun as has => ?_
    refine follows_pure ⟨rfl, congrArg (· + 1) has.1, fun i y b hy hb => ?_⟩
    cases i with
    | zero =>
      cases hy
      cases hb
      exact ha
    | succ i => exact has.2 i y b hy hb

end Drawing

namespace Skew.DistinctPool

variable (pool : DistinctPool)

theorem pick_mem (s : Random.Stream) : (pool.pick s).1 ∈ pool.values := Array.getElem_mem _

theorem valueAt_mem {i : Nat} (h : i < pool.size) : pool.valueAt i h ∈ pool.values :=
  Array.getElem_mem _

end Skew.DistinctPool

/-- What a mix picks is in it. -/
theorem Mix.choose_mem (m : Mix) (u : Float) : ∃ bound, (bound, m.choose u) ∈ m.parts := by
  unfold choose
  split
  · next part hpart => exact ⟨_, List.mem_of_find?_eq_some hpart⟩
  · exact ⟨_, List.getLast_mem m.nonempty⟩

/-! ## Rows and operations of a workload -/

namespace Workload

variable (w : Workload)

/-- The layout of the workload's rows. -/
def layout : ColumnLayout := ⟨w.options.fieldStem, w.options.fieldCount⟩

/-- Whether a value is one for the field with an index: the first field has a value of the pool, and
every other one has filler. -/
def HasValue (i : Nat) (value : Bytes) : Prop :=
  if i = 0 then value ∈ w.values.values else value.length = w.options.fieldLength

/-- Whether a field is the one with an index, with a value for it. -/
def HasField (i : Nat) (f : Field) : Prop :=
  f.name = w.layout.fieldName i ∧ w.HasValue i f.value

/-- Every field of the workload in order, with a value for it. -/
def IsRow (row : Row) : Prop :=
  row.length = w.options.fieldCount ∧ ∀ i f, row[i]? = some f → w.HasField i f

/-- Every field, or a single one. -/
def IsUpdate (updates : Row) : Prop :=
  w.IsRow updates ∨ ∃ i f, i < w.options.fieldCount ∧ w.HasField i f ∧ updates = [f]

/-- All fields are asked for, or a single one. -/
def IsSelection (fields : Selection) : Prop :=
  fields = none ∨ ∃ i, i < w.options.fieldCount ∧ fields = some [w.layout.fieldName i]

/-- Whether a key is that of a record the workload draws from. -/
def IsKey (key : Bytes) : Prop := ∃ n, n < w.options.recordCount ∧ key = recordKey n

/-- The kinds of operation that a task issues. -/
def Chooses : Task → OperationKind → Prop
  | .insert, kind => kind = .insert
  | .transaction, kind => ∃ bound, (bound, kind) ∈ w.mix.parts
  | .analytic, kind => kind = .filter

/-- Whether memory holds the filler of a row, if rows have any. -/
def FillerFits [Machine] : Prop := 1 < w.options.fieldCount → FitsMemory w.options.fieldLength 1

/-- Whether an operation is one the workload issues, given the record number it took, if any. -/
def Issues [Machine] (number : Option UInt64) : Operation → Prop
  | .read key fields => w.IsKey key ∧ w.IsSelection fields
  | .update key updates => w.IsKey key ∧ w.IsUpdate updates
  | .insert key row =>
    (∃ taken, number = some taken ∧ key = recordKey taken.toNat) ∧ w.IsRow row ∧ w.FillerFits
  | .scan key count fields =>
    w.IsKey key ∧ 0 < count ∧ count ≤ w.options.maxScanLength ∧ w.IsSelection fields
  | .delete key => w.IsKey key
  | .filter low high fields => w.IsSelection fields ∧ ∃ lowest highest,
      lowest ∈ w.values.values ∧ highest ∈ w.values.values ∧
        low = [⟨w.layout.fieldName 0, lowest⟩] ∧ high = [⟨w.layout.fieldName 0, highest⟩]

/-- The filter from the value at one index to the value at another. -/
abbrev rangeFilter (range : Nat × Nat) (h : range.1 < w.values.size ∧ range.2 < w.values.size)
    (fields : Selection) : Operation :=
  .filter [⟨w.layout.fieldName 0, w.values.valueAt range.1 h.1⟩]
    [⟨w.layout.fieldName 0, w.values.valueAt range.2 h.2⟩] fields

/-- Whether an operation is the filter over a range that the pool draws. -/
def IsRangeFilter (op : Operation) : Prop :=
  ∃ s h fields, w.IsSelection fields ∧ op = w.rangeFilter (w.values.pickIndices s).1 h fields

/-- How far a call of the workload is. -/
inductive Stage where
  /-- Nothing is issued; a record number may have been taken. -/
  | planning (number : Option UInt64)
  /-- The one operation is issued and answered. -/
  | issued (operation : Issued)

/-- A call takes one record number at most and issues one operation. -/
def calls [Machine] (task : Task) : Protocol workloadCalls Stage where
  allows
    | .planning number, .takeNumber => number = none
    | .planning number, .perform op => w.Chooses task op.kind ∧ w.Issues number op
    | .issued _, _ => False
  expects _ _ _ := True
  next
    | .planning _, .takeNumber, taken => .planning (some taken)
    | .planning _, .perform op, outcome => .issued ⟨op, outcome⟩
    | .issued operation, _, _ => .issued operation

/-- Planning fails when rows have filler and memory does not hold it. Nothing is issued then. -/
def FillerFails [Machine] : Stage → Failure → Prop
  | .planning _, failure => 1 < w.options.fieldCount ∧
      (reserve w.options.fieldLength 1 : Except Failure Unit) = .error failure
  | .issued _, _ => False

/-! ### What the options ask for -/

section Requests

variable (good : UInt8 → Prop)

/-- Whether a value is drawn for the field with an index: from the pool for the first field, and as
filler made of good bytes for every other one. -/
def DrawsValue (i : Nat) (value : Bytes) : Prop :=
  if i = 0 then value ∈ w.values.values
  else value.length = w.options.fieldLength ∧ ∀ b ∈ value, good b

/-- Whether a field is the one with an index, with a value drawn for it. -/
def DrawsField (i : Nat) (f : Field) : Prop :=
  f.name = w.layout.fieldName i ∧ w.DrawsValue good i f.value

/-- Every field of the workload in order, with a value drawn for it. -/
def DrawsRow (row : Row) : Prop :=
  row.length = w.options.fieldCount ∧ ∀ i f, row[i]? = some f → w.DrawsField good i f

/-- Every field if the options say so, and otherwise a single one. -/
def DrawsUpdate (updates : Row) : Prop :=
  if w.options.writeAllFields then w.DrawsRow good updates
  else ∃ i f, i < w.options.fieldCount ∧ w.DrawsField good i f ∧ updates = [f]

/-- All fields are asked for if the options say so, and otherwise a single one. -/
def DrawsSelection (fields : Selection) : Prop :=
  if w.options.readAllFields then fields = none
  else ∃ i, i < w.options.fieldCount ∧ fields = some [w.layout.fieldName i]

/-- Whether an operation is one the options ask for, given the record number the call took, if
any. -/
def Requests [Machine] (number : Option UInt64) : Operation → Prop
  | .read key fields => w.IsKey key ∧ w.DrawsSelection fields
  | .update key updates => w.IsKey key ∧ w.DrawsUpdate good updates
  | .insert key row => (∃ taken, number = some taken ∧ key = recordKey taken.toNat) ∧
    w.DrawsRow good row ∧ w.FillerFits
  | .scan key count fields =>
    w.IsKey key ∧ 0 < count ∧ count ≤ w.options.maxScanLength ∧ w.DrawsSelection fields
  | .delete key => w.IsKey key
  | .filter low high fields => w.DrawsSelection fields ∧ ∃ lowest highest,
      lowest ∈ w.values.values ∧ highest ∈ w.values.values ∧
        low = [⟨w.layout.fieldName 0, lowest⟩] ∧ high = [⟨w.layout.fieldName 0, highest⟩]

/-- A call takes one record number at most and requests one operation that the options ask for. -/
def requests [Machine] (task : Task) : Protocol workloadCalls Stage :=
  { w.calls task with
    allows
      | .planning number, .takeNumber => number = none
      | .planning number, .perform op => w.Chooses task op.kind ∧ w.Requests good number op
      | .issued _, _ => False }

end Requests

section Plans

variable {w : Workload} {task : Task} {number : Option UInt64}

/-! ### Requests are issued -/

theorem DrawsField.hasField {i : Nat} {f : Field} (h : w.DrawsField good i f) : w.HasField i f := by
  obtain ⟨hname, hvalue⟩ := h
  refine ⟨hname, ?_⟩
  rw [DrawsValue] at hvalue
  rw [HasValue]
  split at hvalue
  · next hi => rwa [if_pos hi]
  · next hi => exact (if_neg hi).symm ▸ hvalue.1

theorem DrawsRow.isRow {row : Row} (h : w.DrawsRow good row) : w.IsRow row :=
  ⟨h.1, fun i f hf => (h.2 i f hf).hasField⟩

theorem DrawsUpdate.isUpdate {updates : Row} (h : w.DrawsUpdate good updates) :
    w.IsUpdate updates := by
  rw [DrawsUpdate] at h
  split at h
  · exact .inl h.isRow
  · obtain ⟨i, f, hi, hf, rfl⟩ := h
    exact .inr ⟨i, f, hi, hf.hasField, rfl⟩

theorem DrawsSelection.isSelection {fields : Selection} (h : w.DrawsSelection fields) :
    w.IsSelection fields := by
  rw [DrawsSelection] at h
  split at h
  · exact .inl h
  · exact .inr h

/-- What the options ask for is issued. -/
theorem Requests.issues [Machine] {op : Operation} (h : w.Requests good number op) :
    w.Issues number op := by
  cases op with
  | read key fields => exact ⟨h.1, h.2.isSelection⟩
  | update key updates => exact ⟨h.1, h.2.isUpdate⟩
  | insert key row => exact ⟨h.1, h.2.1.isRow, h.2.2⟩
  | scan key count fields => exact ⟨h.1, h.2.1, h.2.2.1, h.2.2.2.isSelection⟩
  | delete key => exact h
  | filter low high fields => exact ⟨h.1.isSelection, h.2⟩

theorem follows_calls [Machine] {p : Program workloadCalls α} {ends : Stage → α → Prop} {k : Stage}
    (h : p.Follows (w.requests good task) ends k) : p.Follows (w.calls task) ends k := by
  refine h.weaken (Q := w.calls task) (fun k call hallows => ?_) rfl rfl
  cases k with
  | issued issued => exact hallows
  | planning number =>
    cases call with
    | takeNumber => exact hallows
    | perform op => exact ⟨hallows.1, hallows.2.issues⟩

/-! ### Drawing rows and selections -/

theorem yields_drawKey : w.drawKey.Yields good w.IsKey := by
  have hdraw : (Drawing.fromStream w.keys.draw : Drawing workloadCalls Nat).Yields good
      (· < w.options.recordCount) :=
    Drawing.yields_fromStream fun s => w.keys_cardinality ▸ w.keys.draw_lt_cardinality s
  exact hdraw.bind_same fun n hn => Drawing.follows_pure ⟨rfl, n, hn, rfl⟩

theorem yields_drawSelection : w.drawSelection.Yields good w.DrawsSelection := by
  rw [drawSelection]
  split
  · next hall => exact Drawing.follows_pure ⟨rfl, (if_pos hall).mpr rfl⟩
  · next hall =>
    refine (Drawing.yields_below w.fieldCount_pos).bind_same fun i hi => ?_
    exact Drawing.follows_pure ⟨rfl, (if_neg hall).mpr ⟨i, hi, rfl⟩⟩

variable [Machine]

theorem follows_drawValue {i : Nat} (hcount : i < w.options.fieldCount) :
    (w.drawValue i).Follows good (w.requests good task) w.FillerFails
      (fun k value => k = .planning number ∧ w.DrawsValue good i value ∧
        (i ≠ 0 → FitsMemory w.options.fieldLength 1)) (.planning number) := by
  rw [drawValue]
  split
  · next hi =>
    refine Drawing.follows_reported fun s => ⟨rfl, ?_, fun hne => absurd hi hne⟩
    rw [DrawsValue, if_pos hi]
    exact w.values.pick_mem s
  · next hi =>
    refine Drawing.follows_filler (fun hfits bytes hlength hbytes => ⟨rfl, ?_, fun _ => hfits⟩)
      fun _ hfails => ⟨?_, hfails⟩
    · rw [DrawsValue, if_neg hi]
      exact ⟨hlength, hbytes⟩
    · omega

theorem follows_drawField {i : Nat} (hcount : i < w.options.fieldCount) :
    (w.drawField i).Follows good (w.requests good task) w.FillerFails
      (fun k f => k = .planning number ∧ w.DrawsField good i f ∧
        (i ≠ 0 → FitsMemory w.options.fieldLength 1)) (.planning number) :=
  (follows_drawValue hcount).bind_same fun _ hvalue =>
    Drawing.follows_pure ⟨rfl, ⟨rfl, hvalue.1⟩, hvalue.2⟩

theorem follows_drawRow :
    w.drawRow.Follows good (w.requests good task) w.FillerFails
      (fun k row => k = .planning number ∧ w.DrawsRow good row ∧ w.FillerFits)
      (.planning number) := by
  have hfield : ∀ i ∈ List.range w.options.fieldCount,
      (w.drawField i).Follows good (w.requests good task) w.FillerFails
        (fun k f => k = .planning number ∧ w.DrawsField good i f ∧
          (i ≠ 0 → FitsMemory w.options.fieldLength 1)) (.planning number) :=
    fun i hi => follows_drawField (List.mem_range.1 hi)
  have hdraw := Drawing.follows_mapM hfield
  refine hdraw.imp fun k row ⟨hk, hlength, hfields⟩ => ?_
  rw [List.length_range] at hlength
  refine ⟨hk, ⟨hlength, fun i f hf => ?_⟩, fun hcount => ?_⟩
  · have hi : i < w.options.fieldCount := hlength ▸ (List.getElem?_eq_some_iff.1 hf).1
    exact (hfields i i f (List.getElem?_range hi) hf).1
  · -- The second field has filler.
    have hsecond := List.getElem?_eq_getElem (l := row) (hlength ▸ hcount)
    exact (hfields 1 1 _ (List.getElem?_range hcount) hsecond).2 Nat.one_ne_zero

theorem follows_drawUpdate :
    w.drawUpdate.Follows good (w.requests good task) w.FillerFails
      (fun k updates => k = .planning number ∧ w.DrawsUpdate good updates) (.planning number) := by
  rw [drawUpdate]
  split
  · next hall =>
    exact follows_drawRow.imp fun k row hrow => ⟨hrow.1, (if_pos hall).mpr hrow.2.1⟩
  · next hall =>
    refine ((Drawing.yields_below w.fieldCount_pos).follows _).bind_same fun i hi => ?_
    refine (follows_drawField hi).bind_same fun f hf => ?_
    exact Drawing.follows_pure ⟨rfl, (if_neg hall).mpr ⟨i, f, hi, hf.1, rfl⟩⟩

/-! ### Plans -/

/-- The operation is of a kind and, whatever number was taken, one the options ask for. -/
abbrev Queries (w : Workload) (good : UInt8 → Prop) (kind : OperationKind) (op : Operation) :
    Prop :=
  op.kind = kind ∧ ∀ number, w.Requests good number op

/-- What a plan of an operation of some kind comes to. -/
abbrev Planned (w : Workload) (good : UInt8 → Prop) (kind : OperationKind) (k : Stage)
    (op : Operation) : Prop :=
  ∃ number, k = .planning number ∧ op.kind = kind ∧ w.Requests good number op

theorem Queries.planned {kind : OperationKind} {op : Operation} (h : w.Queries good kind op) :
    w.Planned good kind (.planning number) op := ⟨number, rfl, h.1, h.2 number⟩

theorem yields_planRead : w.planRead.Yields good (w.Queries good .read) :=
  Drawing.yields_click.bind_same fun _ _ => yields_drawKey.bind_same fun _ hkey =>
    yields_drawSelection.bind_same fun _ hfields =>
      Drawing.follows_pure ⟨rfl, rfl, fun _ => ⟨hkey, hfields⟩⟩

theorem yields_planScan : w.planScan.Yields good (w.Queries good .scan) := by
  refine Drawing.yields_click.bind_same fun _ _ => yields_drawKey.bind_same fun _ hkey => ?_
  refine (Drawing.yields_below w.maxScanLength_pos).bind_same fun n hn => ?_
  refine yields_drawSelection.bind_same fun fields hfields => ?_
  exact Drawing.follows_pure ⟨rfl, rfl, fun _ => ⟨hkey, by omega, by omega, hfields⟩⟩

theorem yields_planDelete : w.planDelete.Yields good (w.Queries good .delete) :=
  Drawing.yields_click.bind_same fun _ _ => yields_drawKey.bind_same fun _ hkey =>
    Drawing.follows_pure ⟨rfl, rfl, fun _ => hkey⟩

theorem yields_planFilter :
    w.planFilter.Yields good fun op => w.Queries good .filter op ∧ w.IsRangeFilter op := by
  have hrange : (Drawing.reported w.values.nextRange : Drawing workloadCalls _).Yields good
      fun range => ∃ s, range =
        (w.values.valueAt (w.values.pickIndices s).1.1 (w.values.pickIndices_lt s).1,
          w.values.valueAt (w.values.pickIndices s).1.2 (w.values.pickIndices_lt s).2) :=
    Drawing.follows_reported fun s => ⟨rfl, s, rfl⟩
  refine Drawing.yields_click.bind_same fun _ _ =>
    yields_drawSelection.bind_same fun fields hfields => hrange.bind_same ?_
  rintro _ ⟨s, rfl⟩
  refine Drawing.follows_pure ⟨rfl, ⟨rfl, fun _ => ⟨hfields, _, _, ?_, ?_, rfl, rfl⟩⟩,
    s, w.values.pickIndices_lt s, fields, hfields.isSelection, rfl⟩ <;>
  exact w.values.valueAt_mem _

theorem follows_planUpdate :
    w.planUpdate.Follows good (w.requests good task) w.FillerFails (w.Planned good .update)
      (.planning number) := by
  refine (Drawing.yields_click.follows _).bind_same fun _ _ => ?_
  refine (yields_drawKey.follows _).bind_same fun _ hkey => ?_
  exact follows_drawUpdate.bind_same fun _ hupdates =>
    Drawing.follows_pure ⟨_, rfl, rfl, hkey, hupdates⟩

/-- An insert is planned with the next record number, which is taken before its row is drawn. -/
theorem follows_planInsert :
    w.planInsert.Follows good (w.requests good task) w.FillerFails (w.Planned good .insert)
      (.planning none) := by
  refine (Drawing.yields_click.follows _).bind_same fun _ _ => ?_
  have htake : (Drawing.lift (.call (ι := workloadCalls) .takeNumber) :
      Drawing workloadCalls UInt64).Follows good (w.requests good task) w.FillerFails
        (fun k taken => k = .planning (some taken)) (.planning none) :=
    Drawing.follows_lift ⟨rfl, fun _ _ => rfl⟩
  refine htake.bind ?_
  rintro _ taken rfl
  exact follows_drawRow.bind_same fun row hrow =>
    Drawing.follows_pure ⟨_, rfl, rfl, ⟨taken, rfl, rfl⟩, hrow⟩

/-- Planning an operation fails over its filler, if it is a write. -/
def WriteFails (w : Workload) (kind : OperationKind) (k : Stage) (failure : Failure) : Prop :=
  (kind = .update ∨ kind = .insert) ∧ w.FillerFails k failure

/-- Whatever kind of operation is planned, a filter is one over a range of the pool. -/
theorem follows_planOf (kind : OperationKind) :
    (w.planOf kind).Follows good (w.requests good task) (w.WriteFails kind)
      (fun k op => w.Planned good kind k op ∧ (kind = .filter → w.IsRangeFilter op))
      (.planning none) := by
  cases kind with
  | read =>
    refine (yields_planRead.follows _).imp ?_
    rintro _ op ⟨rfl, hop⟩
    exact ⟨hop.planned, nofun⟩
  | scan =>
    refine (yields_planScan.follows _).imp ?_
    rintro _ op ⟨rfl, hop⟩
    exact ⟨hop.planned, nofun⟩
  | delete =>
    refine (yields_planDelete.follows _).imp ?_
    rintro _ op ⟨rfl, hop⟩
    exact ⟨hop.planned, nofun⟩
  | filter =>
    refine (yields_planFilter.follows _).imp ?_
    rintro _ op ⟨rfl, hop, hrange⟩
    exact ⟨hop.planned, fun _ => hrange⟩
  | update =>
    exact (follows_planUpdate.imp fun _ _ hop => ⟨hop, nofun⟩).imp_fails
      fun _ _ hfails => ⟨.inl rfl, hfails⟩
  | insert =>
    exact (follows_planInsert.imp fun _ _ hop => ⟨hop, nofun⟩).imp_fails
      fun _ _ hfails => ⟨.inr rfl, hfails⟩

/-- Planning the operation of a task fails as planning a write does that the task allows. -/
def PlanFails (w : Workload) (task : Task) (k : Stage) (failure : Failure) : Prop :=
  ∃ kind, w.Chooses task kind ∧ w.WriteFails kind k failure

/-- What a task comes to when its operation is planned. -/
abbrev PlannedFor (w : Workload) (good : UInt8 → Prop) (task : Task) (k : Stage) (op : Operation) :
    Prop :=
  ∃ number, k = .planning number ∧ w.Chooses task op.kind ∧ w.Requests good number op

theorem follows_planOf_chosen (kind : OperationKind) (hchooses : w.Chooses task kind) :
    (w.planOf kind).Follows good (w.requests good task) (w.PlanFails task)
      (fun k op => w.PlannedFor good task k op ∧ (op.kind = .filter → w.IsRangeFilter op))
      (.planning none) := by
  refine ((follows_planOf kind).imp ?_).imp_fails fun k failure hfails => ⟨kind, hchooses, hfails⟩
  rintro _ op ⟨⟨number, rfl, rfl, hop⟩, hrange⟩
  exact ⟨⟨number, rfl, hchooses, hop⟩, hrange⟩

/-- The operation planned is of a kind that the task allows. -/
theorem follows_plan :
    (w.plan task).Follows good (w.requests good task) (w.PlanFails task)
      (fun k op => w.PlannedFor good task k op ∧ (op.kind = .filter → w.IsRangeFilter op))
      (.planning none) := by
  cases task with
  | insert => exact follows_planOf_chosen .insert rfl
  | analytic => exact follows_planOf_chosen .filter rfl
  | transaction =>
    have hdraw : (Drawing.fromStream Random.Stream.nextUnit : Drawing workloadCalls Float).Yields
        good fun _ => True := Drawing.yields_fromStream fun _ => trivial
    exact (hdraw.follows _).bind_same fun u _ => follows_planOf_chosen _ (w.mix.choose_mem u)

/-- An analytic task plans a filter, whatever happens. -/
theorem follows_plan_analytic :
    (w.plan .analytic).Follows good (w.requests good .analytic) (fun _ _ => False)
      (fun k op => w.PlannedFor good .analytic k op ∧ w.IsRangeFilter op) (.planning none) := by
  refine (yields_planFilter.follows _).imp ?_
  rintro _ op ⟨rfl, ⟨hkind, hop⟩, hrange⟩
  exact ⟨⟨none, rfl, hkind, hop none⟩, hrange⟩

/-! ### Calls -/

section Calls

variable {worker : Worker} (hworker : worker.pool.AllBytes good)

include hworker

/-- What is planned is requested. -/
theorem follows_issue_requests {fails : Stage → Failure → Prop} {also : Operation → Prop}
    (h : (w.plan task).Follows good (w.requests good task) fails
      (fun k op => w.PlannedFor good task k op ∧ also op) (.planning none)) :
    (w.issue task worker).Follows (w.requests good task) (fun k result => match result.1 with
      | .ok issued => k = .issued issued ∧ also issued.op
      | .error failure => fails k failure) (.planning none) := by
  refine Program.follows_bind.2 ((h.program worker hworker).imp fun k planned hplanned => ?_)
  obtain ⟨failure | op, worker⟩ := planned
  · exact hplanned.2
  · obtain ⟨-, ⟨number, rfl, hchosen, hop⟩, halso⟩ := hplanned
    exact ⟨⟨hchosen, hop⟩, fun outcome _ => ⟨rfl, halso⟩⟩

/-- What is requested is answered, and its answer is the one of the call. -/
theorem follows_run_requests :
    (w.run task worker).Follows (w.requests good task) (fun k result =>
      (∃ failure, result.1 = .error failure ∧ w.PlanFails task k failure) ∨
        ∃ issued, k = .issued issued ∧ result.1 = issued.success) (.planning none) := by
  refine Program.follows_bind.2
    ((follows_issue_requests hworker follows_plan).imp fun k result hresult => ?_)
  obtain ⟨failure | issued, worker⟩ := result
  · exact .inl ⟨failure, rfl, hresult⟩
  · exact .inr ⟨issued, hresult.1, rfl⟩

end Calls

/-- What is planned is issued. -/
theorem follows_issue {fails : Stage → Failure → Prop} {also : Operation → Prop}
    (h : (w.plan task).Follows (fun _ => True) (w.requests (fun _ => True) task) fails
      (fun k op => w.PlannedFor (fun _ => True) task k op ∧ also op) (.planning none))
    (worker : Worker) :
    (w.issue task worker).Follows (w.calls task) (fun k result => match result.1 with
      | .ok issued => k = .issued issued ∧ also issued.op
      | .error failure => fails k failure) (.planning none) :=
  follows_calls (follows_issue_requests BytePool.allBytes_true h)

/-- What is issued is answered, and its answer is the one of the call. -/
theorem follows_run (worker : Worker) :
    (w.run task worker).Follows (w.calls task) (fun k result =>
      (∃ failure, result.1 = .error failure ∧ w.FillerFails k failure) ∨
        ∃ issued, k = .issued issued ∧ result.1 = issued.success) (.planning none) := by
  refine (follows_calls (follows_run_requests BytePool.allBytes_true)).imp fun k result => ?_
  refine Or.imp_left ?_
  rintro ⟨failure, hfailure, kind, -, -, hfails⟩
  exact ⟨failure, hfailure, hfails⟩

end Plans

end Workload

end StoreBench
