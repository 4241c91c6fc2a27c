import Mathlib.Tactic.Choose
import StoreBench.Proofs.MergingWrites
/-!
# Linearization of merging writes

Adapters that merge their updates insert and update rows of one key-value engine, and their calls
interleave in any order. The outcome is that of the whole operations one after another: an operation
takes its place when it makes its decisive call. No write that was acknowledged is lost, because no
key that an update found goes away before the merge.
-/

namespace StoreBench

variable {n : Nat}

/-! ## Orders of operations -/

/-- What a member has done, in order. -/
def doneBy (i : Fin n) (order : List (Fin n × Exchange)) : List Exchange :=
  (order.filter (·.1 = i)).map Prod.snd

theorem doneBy_append (i : Fin n) (order new : List (Fin n × Exchange)) :
    doneBy i (order ++ new) = doneBy i order ++ doneBy i new := by
  simp [doneBy]

theorem doneBy_own (i : Fin n) (new : List Exchange) : doneBy i (new.map (Prod.mk i)) = new := by
  simp [doneBy, List.filter_map, Function.comp_def]

theorem doneBy_other {i j : Fin n} (h : i ≠ j) (new : List Exchange) :
    doneBy j (new.map (Prod.mk i)) = [] := by
  simp [doneBy, h]

/-- What the others did, each for itself. -/
theorem doneBy_flatMap_of_notMem (first : Fin n → List Exchange) {i : Fin n}
    {members : List (Fin n)} (h : i ∉ members) :
    doneBy i (members.flatMap fun j => (first j).map (Prod.mk j)) = [] := by
  induction members with
  | nil => rfl
  | cons j members ih =>
    obtain ⟨hij, hi⟩ := not_or.1 (mt List.mem_cons.2 h)
    rw [List.flatMap_cons, doneBy_append, doneBy_other (Ne.symm hij), ih hi, List.append_nil]

/-- What members did first, each for itself. -/
theorem doneBy_flatMap (first : Fin n → List Exchange) {i : Fin n} {members : List (Fin n)}
    (h : members.Nodup) (hi : i ∈ members) :
    doneBy i (members.flatMap fun j => (first j).map (Prod.mk j)) = first i := by
  induction members with
  | nil => cases hi
  | cons j members ih =>
    obtain ⟨hj, hmembers⟩ := List.nodup_cons.1 h
    rw [List.flatMap_cons, doneBy_append]
    rcases List.mem_cons.1 hi with rfl | hi
    · rw [doneBy_own, doneBy_flatMap_of_notMem first hj, List.append_nil]
    · rw [doneBy_other (ne_of_mem_of_not_mem hi hj).symm, ih hmembers hi, List.nil_append]

/-- The operations one after another lead from a first engine and table to the engine and the table
as they are, and each has taken its place at its decisive call. -/
structure Linearizes (f : SchemalessFormat) (e₀ : KeyValueEngine) (t₀ : Table)
    (order : List (Fin n × Exchange)) (log : List (Served keyValueCalls n)) (e : KeyValueEngine)
    (t : Table) : Prop where
  sequential : ((order.map fun x => x.2.op).mapM f.exchange).run e₀ = (order.map Prod.snd, e)
  decisive : order.filterMap (fun x => x.2.decisive? x.1) = log.filter Served.isDecisive
  merges : e.mergeOperator = some Row.mergeEncoded
  holds : e.Holds t
  rows : ∀ key : Bytes, t[key]? = (order.map Prod.snd).foldl (Exchange.onRow key) t₀[key]?

namespace Linearizes

variable {f : SchemalessFormat} {e₀ e e' : KeyValueEngine} {t₀ t t' : Table} {i : Fin n}
  {order : List (Fin n × Exchange)} {log served : List (Served keyValueCalls n)}

theorem nil (he : e₀.Holds t₀) (hmerges : e₀.mergeOperator = some Row.mergeEncoded) :
    Linearizes (n := n) f e₀ t₀ [] [] e₀ t₀ :=
  ⟨rfl, rfl, hmerges, he, fun _ => rfl⟩

variable (h : Linearizes f e₀ t₀ order log e t)

include h

/-- A call that decides nothing and changes nothing. -/
theorem look (hserved : served.filter Served.isDecisive = []) :
    Linearizes f e₀ t₀ order (log ++ served) e t where
  sequential := h.sequential
  decisive := by rw [List.filter_append, hserved, List.append_nil, h.decisive]
  merges := h.merges
  holds := h.holds
  rows := h.rows

/-- An operation that does as a whole what was just done takes its place. -/
theorem append {x : Exchange} (hexchange : (f.exchange x.op).run e = (x, e'))
    (hserved : served.filter Served.isDecisive = (x.decisive? i).toList) (hholds : e'.Holds t')
    (hrows : ∀ key : Bytes, t'[key]? = x.onRow key t[key]?) :
    Linearizes f e₀ t₀ (order ++ [(i, x)]) (log ++ served) e' t' where
  sequential := by
    rw [List.map_append, run_mapM_append, h.sequential, List.map_append, List.map_singleton,
      run_mapM_cons, hexchange]
    rfl
  decisive := by
    rw [List.filterMap_append, List.filter_append, h.decisive, hserved]
    cases hdecisive : x.decisive? i <;> simp [hdecisive]
  merges := by
    have hengine : e' = (e.run (f.perform x.op)).2 := (congrArg Prod.snd hexchange).symm
    rw [hengine, KeyValueEngine.mergeOperator_run, h.merges]
  holds := hholds
  rows key := by
    rw [hrows, h.rows, List.map_append, List.foldl_append]
    rfl

/-- Inserts that were refused take their place anywhere. -/
theorem append_refused {refused : List Exchange} (hrefused : ∀ x ∈ refused, x.Refused) :
    Linearizes f e₀ t₀ (order ++ refused.map (Prod.mk i)) log e t := by
  induction refused generalizing order with
  | nil => simpa using h
  | cons x refused ih =>
    obtain ⟨⟨key, row, cause, hrow, rfl⟩, hrest⟩ := List.forall_mem_cons.1 hrefused
    have hone : Linearizes f e₀ t₀ (order ++ [(i, ⟨.insert key row, _⟩)]) (log ++ []) e t :=
      h.append (f.run_exchange_insert_refused hrow) rfl h.holds fun _ => rfl
    rw [List.append_nil] at hone
    simpa using ih hone hrest

/-- What members had refused first takes its place first. -/
theorem append_refused_flatMap {first : Fin n → List Exchange}
    (hfirst : ∀ i, ∀ x ∈ first i, x.Refused) (members : List (Fin n)) :
    Linearizes f e₀ t₀ (order ++ members.flatMap fun i => (first i).map (Prod.mk i)) log e t := by
  induction members generalizing order with
  | nil => simpa using h
  | cons i members ih =>
    rw [List.flatMap_cons, ← List.append_assoc]
    exact ih (h.append_refused (hfirst i))

end Linearizes

/-! ## One call -/

/-- What a call of a member does: it is answered as expected, some operations of the member take
their place, and no key goes. -/
structure Advances (f : SchemalessFormat) (e₀ : KeyValueEngine) (t₀ : Table)
    (order : List (Fin n × Exchange)) (log : List (Served keyValueCalls n)) (i : Fin n)
    (k : WriteProgress) (call : KeyValueCall) (answer : Except Failure call.Result)
    (e e' : KeyValueEngine) : Prop where
  expected : writing.expects k call answer
  linearizes : ∃ new, (k.next call answer).done = k.done ++ new ∧
    ∃ t, Linearizes f e₀ t₀ (order ++ new.map (Prod.mk i)) (log ++ [⟨i, call, answer⟩]) e' t
  history_next : (k.next call answer).history = k.history
  found_mem : ∀ key, (k.next call answer).found = some key → key ∈ e'.entries
  mem_of_mem : ∀ key ∈ e.entries, key ∈ e'.entries

/-- A key is there to stay when a row is stored. -/
theorem KeyValueEngine.mem_store {e : KeyValueEngine} {key key' value : Bytes}
    (hkey : key ∈ e.entries) : key ∈ (e.store key' value).entries :=
  Std.ExtTreeMap.mem_insert.2 (.inr hkey)

namespace Linearizes

variable {f : SchemalessFormat} {e₀ e e' : KeyValueEngine} {t₀ t t' : Table} {i : Fin n}
  {order : List (Fin n × Exchange)} {log : List (Served keyValueCalls n)} {k : WriteProgress}
  {call : KeyValueCall}

/-- A call with which an operation is done. -/
theorem advances_of_done (h : Linearizes f e₀ t₀ order log e t)
    {answer : Except Failure call.Result} {x : Exchange} {rest : List Operation}
    (hexpected : writing.expects k call answer) (hk : k.rest = x.op :: rest)
    (hnext : k.next call answer = .settle (k.done ++ [x]) rest)
    (hexchange : (f.exchange x.op).run e = (x, e'))
    (hserved : [⟨i, call, answer⟩].filter Served.isDecisive = (x.decisive? i).toList)
    (hholds : e'.Holds t') (hrows : ∀ key : Bytes, t'[key]? = x.onRow key t[key]?)
    (hkeys : ∀ key ∈ e.entries, key ∈ e'.entries) :
    Advances f e₀ t₀ order log i k call answer e e' := by
  obtain ⟨refused, hrefused, hdone, hfound, hhistory⟩ :=
    WriteProgress.exists_settle (k.done ++ [x]) rest
  refine ⟨hexpected, ⟨x :: refused, ?_, t', ?_⟩, ?_, ?_, hkeys⟩
  · rw [hnext, hdone, List.append_assoc, List.singleton_append]
  · simpa using (h.append hexchange hserved hholds hrows).append_refused hrefused
  · rw [hnext, hhistory, WriteProgress.history, hk]
    simp
  · intro key hkey
    simp [hnext, hfound] at hkey

/-- A put of a row, or a merge into one. -/
theorem advances_of_store (h : Linearizes f e₀ t₀ order log e t)
    {answer : Except Failure call.Result} {x : Exchange} {rest : List Operation} {key : Bytes}
    {row : Row} (hexpected : writing.expects k call answer) (hk : k.rest = x.op :: rest)
    (hnext : k.next call answer = .settle (k.done ++ [x]) rest)
    (hexchange : (f.exchange x.op).run e = (x, e.store key row.bytes))
    (hserved : [⟨i, call, answer⟩].filter Served.isDecisive = (x.decisive? i).toList)
    (hrow : row.Encodable)
    (hrows : ∀ key' : Bytes, x.onRow key' t[key']? = if key = key' then some row else t[key']?) :
    Advances f e₀ t₀ order log i k call answer e (e.store key row.bytes) := by
  refine h.advances_of_done hexpected hk hnext hexchange hserved (h.holds.store hrow key) ?_
    fun _ => KeyValueEngine.mem_store
  intro key'
  rw [hrows, Std.ExtTreeMap.getElem?_insert]
  by_cases hkey : key = key'
  · subst hkey
    simp
  · simp [hkey]

/-- A look of an update that finds its row and is going to merge. -/
theorem advances_of_found (h : Linearizes f e₀ t₀ order log e t) {done : List Exchange}
    {rest : List Operation} {key operand : Bytes} {updates row : Row} (hkey : t[key]? = some row)
    (hencode : updates.encode? = .ok operand) :
    Advances f e₀ t₀ order log i ⟨done, none, .update key updates :: rest⟩ (.get key)
      (.ok (some row.bytes)) e e := by
  have hnext : WriteProgress.next ⟨done, none, .update key updates :: rest⟩ (.get key)
      (.ok (some row.bytes)) = ⟨done, some key, .update key updates :: rest⟩ := by
    simp only [WriteProgress.next, hencode]
  refine ⟨⟨_, rfl⟩, ⟨[], ?_, t, ?_⟩, ?_, ?_, fun _ => id⟩
  · rw [hnext, List.append_nil]
  · simpa using h.look rfl
  · rw [hnext]
    rfl
  · intro key' hkey'
    rw [hnext] at hkey'
    cases hkey'
    rw [Std.ExtTreeMap.mem_iff_isSome_getElem?, h.holds.getElem?_entries, hkey]
    rfl

/-- Any call of a member, as long as the key that its update found is there. -/
theorem advances (h : Linearizes f e₀ t₀ order log e t) (hmerges : f.mergesUpdates = true)
    (hcall : k.Calls call) (hfound : ∀ key, k.found = some key → key ∈ e.entries) :
    Advances f e₀ t₀ order log i k call (e.serve call).1 e (e.serve call).2 := by
  cases hcall with
  | @put done found key row rest hrow =>
    rw [h.holds.serve_put]
    exact h.advances_of_store rfl rfl rfl (f.run_exchange_insert h.holds hrow) rfl hrow
      fun _ => rfl
  | @get done key updates rest =>
    rw [h.holds.serve_get]
    cases hkey : t[key]? with
    | none =>
      exact h.advances_of_done ⟨none, rfl⟩ rfl rfl
        (f.run_exchange_update_absent h.holds hkey updates) rfl h.holds (fun _ => rfl) fun _ => id
    | some row =>
      rw [Option.map_some]
      cases hencode : updates.encode? with
      | error cause =>
        have hnext : WriteProgress.next ⟨done, none, .update key updates :: rest⟩ (.get key)
            (.ok (some row.bytes)) =
              .settle (done ++ [⟨.update key updates, .error (.raised (.invalidArgument cause))⟩])
                rest := by
          simp only [WriteProgress.next, hencode]
        exact h.advances_of_done ⟨_, rfl⟩ rfl hnext
          (SchemalessFormat.run_exchange_update_refused h.holds hkey hmerges hencode) rfl h.holds
          (fun _ => rfl) fun _ => id
      | ok operand => exact h.advances_of_found hkey hencode
  | @merge done key updates rest hupdates =>
    have hmem := hfound key rfl
    rw [Std.ExtTreeMap.mem_iff_isSome_getElem?, h.holds.getElem?_entries] at hmem
    cases hkey : t[key]? with
    | none => simp [hkey] at hmem
    | some row =>
      rw [h.holds.serve_merge hkey h.merges hupdates]
      refine h.advances_of_store rfl rfl rfl
        (SchemalessFormat.run_exchange_update_merged h.holds hkey hmerges h.merges hupdates) rfl
        ((h.holds.encodable key row hkey).merge hupdates) ?_
      intro key'
      by_cases hsame : key = key'
      · subst hsame
        simp [Exchange.onRow, hkey]
      · simp [Exchange.onRow, hsame]

end Linearizes

/-! ## Every schedule -/

namespace Crew

variable {f : SchemalessFormat} {e₀ : KeyValueEngine} {t₀ : Table}
  {histories : Fin n → List Operation} {c : Crew keyValueCalls (List Exchange) KeyValueEngine n}
  {i : Fin n}

/-- What the members have done is in an order, they keep to their histories, and the keys that their
updates found are there. -/
structure InStep (f : SchemalessFormat) (e₀ : KeyValueEngine) (t₀ : Table)
    (histories : Fin n → List Operation) (known : Fin n → WriteProgress)
    (c : Crew keyValueCalls (List Exchange) KeyValueEngine n) : Prop where
  ordered : ∃ order t, Linearizes f e₀ t₀ order c.log c.shared t ∧
    ∀ i, doneBy i order = (known i).done
  history_eq : ∀ i, (known i).history = histories i
  found_mem : ∀ i key, (known i).found = some key → key ∈ c.shared.entries

/-- What a member knows at the end of its history: everything is done. -/
abbrev finished (_ : Fin n) (k : WriteProgress) (exchanges : List Exchange) : Prop :=
  k.rest = [] ∧ k.done = exchanges

/-- One call of any member. -/
theorem Conforms.turn_writing (hmerges : f.mergesUpdates = true)
    (h : c.Conforms writing finished (InStep f e₀ t₀ histories)) :
    (c.turn ofEngine i).Conforms writing finished (InStep f e₀ t₀ histories) := by
  refine h.turn fun known call rest _ hI hpending hcall => ?_
  obtain ⟨⟨order, t, hlinearizes, hdone⟩, hhistory, hfound⟩ := hI
  have hadvances := hlinearizes.advances (i := i) hmerges hcall (hfound i)
  obtain ⟨new, hnew, t', hlinearizes'⟩ := hadvances.linearizes
  refine ⟨hadvances.expected, ?_⟩
  rw [turn_of_pending_inr hpending]
  refine ⟨⟨_, t', hlinearizes', fun j => ?_⟩, fun j => ?_, fun j key hkey => ?_⟩
  all_goals by_cases hj : j = i
  · subst hj
    rw [doneBy_append, doneBy_own, hdone, Function.update_self]
    exact hnew.symm
  · rw [doneBy_append, doneBy_other (Ne.symm hj), hdone, Function.update_of_ne hj, List.append_nil]
  · subst hj
    rw [Function.update_self]
    exact hadvances.history_next.trans (hhistory j)
  · rw [Function.update_of_ne hj]
    exact hhistory j
  · subst hj
    rw [Function.update_self] at hkey
    exact hadvances.found_mem key hkey
  · rw [Function.update_of_ne hj] at hkey
    exact hadvances.mem_of_mem key (hfound j key hkey)

/-- Before the first call some inserts may be refused already. -/
theorem conforms_start_writing {members : Fin n → Program keyValueCalls (List Exchange)}
    (hmembers : ∀ i, (members i).Follows writing (finished i) (.settle [] (histories i)))
    (he : e₀.Holds t₀) (hmerge : e₀.mergeOperator = some Row.mergeEncoded) :
    (start members e₀).Conforms writing finished (InStep f e₀ t₀ histories) := by
  choose refused hrefused hdone hfound hhistory using
    fun i => WriteProgress.exists_settle [] (histories i)
  refine ⟨fun i => .settle [] (histories i), hmembers, ?_, hhistory, ?_⟩
  · have hlinearizes := (Linearizes.nil (f := f) he hmerge).append_refused_flatMap hrefused
      (List.finRange n)
    refine ⟨_, t₀, hlinearizes, fun i => ?_⟩
    rw [List.nil_append, doneBy_flatMap refused (List.nodup_finRange n) (List.mem_finRange i),
      hdone, List.nil_append]
  · intro i key hkey
    simp [hfound] at hkey

end Crew

namespace Adapter

variable {p : Properties} {r r₀ : Registry} {e : KeyValueEngine}

/-- Adapters of one format on one engine perform operations as the format does. -/
theorem performAll_keyValue [Machine] {id : Nat} {f : SchemalessFormat}
    {steps : List (Adapter × Operation)}
    (hsteps : ∀ step ∈ steps, ∃ ea, step.1 = engine ea ∧ ea.binding = some (.keyValue id f))
    (h : r.Keeps id (.keyValue e)) :
    ((performAll steps).run r).1 = (((steps.map Prod.snd).mapM f.exchange).run e).1 ∧
      ((performAll steps).run r).2.Keeps id
        (.keyValue (((steps.map Prod.snd).mapM f.exchange).run e).2) := by
  rw [List.mapM_map]
  refine run_mapM_simulates (I := fun (r : Registry) e => r.Keeps id (.keyValue e))
    (P := fun _ step => ∃ ea, step.1 = engine ea ∧ ea.binding = some (.keyValue id f)) ?_ h
    fun done step rest hstep => hsteps step (by simp [hstep])
  rintro ⟨_, op⟩ r e hkeeps ⟨ea, rfl, hbinding⟩
  obtain ⟨hanswer, hkeeps'⟩ := EngineAdapter.perform_keyValue hbinding hkeeps op
  exact ⟨congrArg (Exchange.mk op) hanswer, hkeeps'⟩

/-- Adapters that merge their updates insert and update rows at the same time, on an engine that
holds a table. However their calls interleave, the outcome is that of whole operations one after
another, in an order that respects the histories: the adapters are answered the same, and the engine
is the same. The puts, the merges and the gets that found nothing are those of the inserts, the
updates and the updates without a row in the order, one for each, so that the operations take place
in the order of these calls. In the end the row under every key is what the inserts and updates of
it made one after another. -/
theorem crew_merging_linearizable [Machine] {fieldCount count : Nat} {clients : List Adapter}
    (hcount : p.fieldCount = .ok fieldCount)
    (hmerges : p.bool "memory.mergeupdate" false = .ok true)
    (hclients : (connectAll "memory" count).run (.standard p) = (.ok clients, r₀))
    (hengine : r.engines[0]? = some (.keyValue e)) {t : Table} (hholds : e.Holds t)
    (hmerge : e.mergeOperator = some Row.mergeEncoded)
    {histories : Fin clients.length → List Operation}
    (hwrites : ∀ i, ∀ op ∈ histories i, op.Writes) (schedule : List (Fin clients.length)) :
    let c := (crew clients histories e).run Crew.ofEngine schedule
    ∃ order : List (Fin clients.length × Exchange),
      (let sequential := (performAll (order.map fun x => (clients[x.1], x.2.op))).run r
       sequential.1 = order.map Prod.snd ∧ sequential.2.engines[0]? = some (.keyValue c.shared)) ∧
      (∀ i, (doneBy i order).map Exchange.op <+: histories i ∧
        ∀ exchanges, (c.members i).result? = some exchanges →
          doneBy i order = exchanges ∧ exchanges.map Exchange.op = histories i) ∧
      order.filterMap (fun x => x.2.decisive? x.1) = c.log.filter Served.isDecisive ∧
      ∃ t' : Table, c.shared.Holds t' ∧ ∀ key : Bytes,
        t'[key]? = (order.map Prod.snd).foldl (Exchange.onRow key) t[key]? := by
  intro c
  have hbound : ∀ a ∈ clients, ∃ ea, a = engine ea ∧
      ea.binding = some (.keyValue 0 ⟨fieldCount, true⟩) :=
    fun a ha => (connectAll_memory hcount hmerges hclients a ha).2
  have hmembers : ∀ i, ((histories i).mapM clients[i].calls).Follows writing (Crew.finished i)
      (.settle [] (histories i)) := by
    intro i
    obtain ⟨⟨_, _, _, _⟩, ha, hbinding⟩ := hbound clients[i] (List.getElem_mem i.isLt)
    cases hbinding
    rw [ha]
    exact SchemalessFormat.follows_mapM_writing (f := ⟨fieldCount, true⟩) rfl (hwrites i) []
  have hconforms := Crew.run_preserves
    (fun _ _ h => Crew.Conforms.turn_writing (f := ⟨fieldCount, true⟩) rfl h)
    (Crew.conforms_start_writing hmembers hholds hmerge) schedule
  obtain ⟨known, hfollows, ⟨order, t', hlinearizes, hdone⟩, hhistory, -⟩ := hconforms
  refine ⟨order, ?_, fun i => ⟨?_, fun exchanges hresult => ?_⟩, hlinearizes.decisive, t',
    hlinearizes.holds, hlinearizes.rows⟩
  · have hsteps : ∀ step ∈ order.map fun x => (clients[x.1], x.2.op), ∃ ea, step.1 = engine ea ∧
        ea.binding = some (.keyValue 0 ⟨fieldCount, true⟩) := by
      intro step hstep
      obtain ⟨x, -, rfl⟩ := List.mem_map.1 hstep
      exact hbound _ (List.getElem_mem x.1.isLt)
    have hperform := performAll_keyValue hsteps hengine
    rw [List.map_map] at hperform
    have hsequential := hlinearizes.sequential
    exact ⟨hperform.1.trans (congrArg Prod.fst hsequential),
      hperform.2.trans (congrArg (some ∘ Engine.keyValue ∘ Prod.snd) hsequential)⟩
  · rw [hdone, ← hhistory i]
    exact List.prefix_append _ _
  · obtain ⟨hover, hall⟩ := (hfollows i).of_pending_inl (Program.pending_eq_inl_iff.2 hresult)
    have hops := hhistory i
    rw [WriteProgress.history, hover, hall, List.append_nil] at hops
    exact ⟨(hdone i).trans hall, hops⟩

/-! ## Two updates of one row

One adapter stores a row and updates one of its fields, another updates the other field. Each finds
the row before the other merges. -/

def updatesOfOneRow : Crew keyValueCalls (List Exchange) KeyValueEngine 2 :=
  crew [engine (twoFieldRows true), engine (twoFieldRows true)]
    (fun i => if i.val = 0 then [.insert [0] twoFieldRow, .update [0] [⟨"field0", [9]⟩]]
      else [.update [0] [⟨"field1", [7]⟩]])
    (.fresh "memory" (some Row.mergeEncoded))

section

attribute [local instance] Machine.largest

/-- Both updates are in the order and in the row. -/
theorem crew_merging_both_updates :
    let clients := [engine (twoFieldRows true), engine (twoFieldRows true)]
    let r := ((connectAll "memory" 2).run (.standard (twoFields "yes"))).2
    let c := updatesOfOneRow.run Crew.ofEngine [0, 0, 1, 1, 0]
    c.shared.entries[([0] : Bytes)]? = some (Row.bytes [⟨"field0", [9]⟩, ⟨"field1", [7]⟩]) ∧
    ∃ order : List (Fin 2 × Exchange),
      (let sequential := (performAll (order.map fun x => (clients[x.1], x.2.op))).run r
       sequential.1 = order.map Prod.snd ∧ sequential.2.engines[0]? = some (.keyValue c.shared)) ∧
      doneBy 0 order =
        [⟨.insert [0] twoFieldRow, .ok .ok⟩, ⟨.update [0] [⟨"field0", [9]⟩], .ok .ok⟩] ∧
      doneBy 1 order = [⟨.update [0] [⟨"field1", [7]⟩], .ok .ok⟩] := by
  intro clients r c
  have hwrites : ∀ i : Fin 2, ∀ op ∈ if i.val = 0 then
      [Operation.insert [0] twoFieldRow, .update [0] [⟨"field0", [9]⟩]]
      else [.update [0] [⟨"field1", [7]⟩]], op.Writes := by
    intro i op hop
    split at hop <;> simp at hop
    · rcases hop with rfl | rfl <;> trivial
    · rw [hop]
      trivial
  obtain ⟨order, hsequential, hdone, -, -⟩ := crew_merging_linearizable (r := r) rfl rfl
    connectAll_twoFields_merging rfl (.fresh "memory" (some Row.mergeEncoded)) rfl hwrites
    [0, 0, 1, 1, 0]
  refine ⟨by with_unfolding_all rfl, order, hsequential, ?_, ?_⟩
  · exact ((hdone 0).2 _ (by with_unfolding_all rfl)).1
  · exact ((hdone 1).2 _ (by with_unfolding_all rfl)).1

end

end Adapter

end StoreBench
