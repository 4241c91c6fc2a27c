import StoreBench.Adapter
/-!
# Connecting adapters

To connect an adapter is to create it and to initialize it. The first connection opens the engine,
the following ones share it; each gives an adapter that is bound to the open engine with the format
the properties configure.
-/

namespace StoreBench

namespace Adapter

/-- Create an adapter and initialize it. -/
def connect (name : String) : RegistryM (Except Failure Adapter) := do
  match ← create name with
  | .error failure => return .error failure
  | .ok a =>
    let (result, a) ← a.init
    return result.map fun () => a

/-- Connect some number of adapters to the same engine. -/
def connectAll (name : String) : (count : Nat) → RegistryM (Except Failure (List Adapter))
  | 0 => return .ok []
  | count + 1 => do
    match ← connect name with
    | .error failure => return .error failure
    | .ok a => return (← connectAll name count).map (a :: ·)

end Adapter

namespace Registry

/-- No engine was opened, or one was and the handle registered under a name refers to it. -/
def Shares (r : Registry) (name : String) (opener : Opener) : Prop :=
  ∃ x, r.find? name = some x ∧ x.opener = opener ∧
    (x.handle.engine = none ∧ r.engines = [] ∨
      x.handle.engine = some 0 ∧
        ∃ engine, opener.run r.properties = .ok engine ∧ r.engines = [engine])

variable {r r' : Registry} {name : String} {id : Nat}

theorem find?_map_handle (xs : List Registration) (handle : SharedHandle Nat) :
    (xs.map fun x => if x.name = name then { x with handle } else x).find? (·.name == name) =
      (xs.find? (·.name == name)).map fun x => { x with handle } := by
  induction xs with
  | nil => rfl
  | cons x xs ih =>
    by_cases hx : x.name = name
    · simp [hx]
    · simp [hx, ih]

theorem openEngine_eq (x : Registration) (r : Registry) :
    (openEngine x).run r =
      match x.opener.run r.properties with
      | .error failure => (.error failure, r)
      | .ok engine => (.ok r.engines.length, { r with engines := r.engines ++ [engine] }) := by
  simp only [openEngine, StateT.run_bind, StateT.run_get, pure_bind]
  cases x.opener.run r.properties <;> rfl

/-- Whoever acquires the handle refers to the one engine. -/
theorem Shares.acquire {opener : Opener} (hshares : r.Shares name opener)
    (h : (acquire name).run r = (.ok id, r')) :
    id = 0 ∧ r'.properties = r.properties ∧ r'.Shares name opener ∧
      ∃ engine, opener.run r.properties = .ok engine ∧ r'.engines = [engine] := by
  obtain ⟨x, hfind, rfl, hengine⟩ := hshares
  simp only [Registry.acquire, onHandle, StateT.run_bind, StateT.run_get, pure_bind] at h
  rw [hfind] at h
  rcases hengine with ⟨hnone, hengines⟩ | ⟨hopen, engine, hrun, hengines⟩
  · simp only [SharedHandle.acquire, hnone, Program.call, Program.ask_bind, Program.done_bind] at h
    simp only [Program.interpret, answerLifecycle, StateT.run_bind, openEngine_eq] at h
    cases hrun : x.opener.run r.properties with
    | error failure =>
      rw [hrun] at h
      rcases failure with (_ | _ | _) | _ <;> cases h
    | ok engine =>
      rw [hrun] at h
      cases h
      have hid : r.engines.length = 0 := congrArg List.length hengines
      have happend : r.engines ++ [engine] = [engine] := by rw [hengines, List.nil_append]
      refine ⟨hid, rfl, ?_, engine, rfl, happend⟩
      refine ⟨_, (find?_map_handle r.registrations _).trans (congrArg _ hfind), rfl, .inr ?_⟩
      exact ⟨congrArg some hid, engine, hrun, happend⟩
  · simp only [SharedHandle.acquire, hopen] at h
    cases h
    refine ⟨rfl, rfl, ?_, engine, hrun, hengines⟩
    refine ⟨_, (find?_map_handle r.registrations _).trans (congrArg _ hfind), rfl, .inr ?_⟩
    exact ⟨rfl, engine, hrun, hengines⟩

end Registry

namespace EngineAdapter

variable {a : EngineAdapter} {r r' : Registry}

theorem init_of_binding {binding : Binding} (h : a.binding = some binding) (r : Registry) :
    a.init.run r = ((.error (.raised (.configuration (.initializedTwice a.name))), a),
      { r with journal := .click .adapterError :: r.journal }) := by
  simp only [init, h]
  rfl

/-- Without a format the engine is not asked for. -/
theorem init_of_format_error (h : a.binding = none) {cause : Misconfiguration}
    (hformat : a.configuredFormat? r.properties = .error cause) :
    a.init.run r = ((.error (.raised (.configuration cause)), a),
      { r with journal := .click .adapterError :: r.journal }) := by
  simp only [init, h, Option.isSome_none, Bool.false_eq_true, if_false, StateT.run_bind,
    StateT.run_get, pure_bind]
  rw [hformat]
  rfl

theorem init_of_acquire_error (h : a.binding = none) {format : Format}
    (hformat : a.configuredFormat? r.properties = .ok format) {failure : Failure}
    (hacquire : (Registry.acquire a.handle).run r = (.error failure, r')) :
    ∃ journal, a.init.run r = ((.error failure, a), { r' with journal }) := by
  simp only [init, h, Option.isSome_none, Bool.false_eq_true, if_false, StateT.run_bind,
    StateT.run_get, pure_bind]
  rw [hformat]
  simp only [StateT.run_bind, hacquire]
  rcases failure with (_ | _ | _) | _ <;> exact ⟨_, rfl⟩

theorem init_of_acquire (h : a.binding = none) {format : Format}
    (hformat : a.configuredFormat? r.properties = .ok format) {id : Nat}
    (hacquire : (Registry.acquire a.handle).run r = (.ok id, r')) :
    ∃ journal, a.init.run r =
      ((.ok (), { a with binding := some (format.bind id) }), { r' with journal }) := by
  simp only [init, h, Option.isSome_none, Bool.false_eq_true, if_false, StateT.run_bind,
    StateT.run_get, pure_bind]
  rw [hformat]
  simp only [StateT.run_bind, hacquire]
  exact ⟨_, rfl⟩

/-- The ways an initialization goes: it is refused, the engine is not to be had, or the adapter is
bound to the engine. -/
inductive Initialization (a : EngineAdapter) (r : Registry) :
    (Except Failure Unit × EngineAdapter) × Registry → Prop
  | refused (cause : Misconfiguration) (journal : List Event)
      (hcause : a.binding = none → a.configuredFormat? r.properties = .error cause) :
      Initialization a r ((.error (.raised (.configuration cause)), a), { r with journal })
  | unavailable {format : Format} {failure : Failure} {acquired : Registry} (journal : List Event)
      (hbinding : a.binding = none) (hformat : a.configuredFormat? r.properties = .ok format)
      (hacquire : (Registry.acquire a.handle).run r = (.error failure, acquired)) :
      Initialization a r ((.error failure, a), { acquired with journal })
  | bound {format : Format} {id : Nat} {acquired : Registry} (journal : List Event)
      (hbinding : a.binding = none) (hformat : a.configuredFormat? r.properties = .ok format)
      (hacquire : (Registry.acquire a.handle).run r = (.ok id, acquired)) :
      Initialization a r
        ((.ok (), { a with binding := some (format.bind id) }), { acquired with journal })

theorem initialization (a : EngineAdapter) (r : Registry) : a.Initialization r (a.init.run r) := by
  cases hbinding : a.binding with
  | some binding =>
    rw [init_of_binding hbinding]
    exact .refused _ _ fun hnone => absurd (hbinding.symm.trans hnone) (Option.some_ne_none _)
  | none =>
    cases hformat : a.configuredFormat? r.properties with
    | error cause =>
      rw [init_of_format_error hbinding hformat]
      exact .refused cause _ fun _ => hformat
    | ok format =>
      rcases hacquire : (Registry.acquire a.handle).run r with ⟨failure | id, acquired⟩
      · obtain ⟨journal, heq⟩ := init_of_acquire_error hbinding hformat hacquire
        rw [heq]
        exact .unavailable journal hbinding hformat hacquire
      · obtain ⟨journal, heq⟩ := init_of_acquire hbinding hformat hacquire
        rw [heq]
        exact .bound journal hbinding hformat hacquire

/-- An initialization either leaves the adapter as it is or binds it by the configured format. -/
theorem init_adapter (a : EngineAdapter) (r : Registry) :
    (a.init.run r).1.2 = a ∨ ∃ format id, a.configuredFormat? r.properties = .ok format ∧
      (a.init.run r).1.2 = { a with binding := some (format.bind id) } := by
  have hinit := a.initialization r
  generalize a.init.run r = outcome at hinit
  cases hinit with
  | refused => exact .inl rfl
  | unavailable => exact .inl rfl
  | bound _ _ hformat _ => exact .inr ⟨_, _, hformat, rfl⟩

end EngineAdapter

namespace Adapter

/-- Whether an adapter is bound to the first engine, with the format configured under a name. -/
def IsBound (a : Adapter) (p : Properties) (name : String) (kind : EngineKind) : Prop :=
  ∃ ea format, a = engine ea ∧ ea.binding = some (format.bind 0) ∧
    Format.select? kind (p.getOr (name ++ ".format") (Format.defaultName kind)) p name = .ok format

variable {r r' : Registry} {name : String} {opener : Opener}

theorem create_eq {x : Registration} (hname : name ≠ "basic") (hfind : r.find? name = some x) :
    ∃ journal, (create name).run r =
      (.ok (.engine ⟨name, name, x.opener.kind, none⟩), { r with journal }) := by
  simp only [create, hname, if_false, StateT.run_bind, StateT.run_get, pure_bind]
  rw [hfind]
  exact ⟨_, rfl⟩

/-- What a successful initialization did. -/
theorem init_ok {a a' : EngineAdapter} (h : a.init.run r = ((.ok (), a'), r')) :
    ∃ format id acquired, a.configuredFormat? r.properties = .ok format ∧
      (Registry.acquire a.handle).run r = (.ok id, acquired) ∧
      a' = { a with binding := some (format.bind id) } ∧
      ∃ journal, r' = { acquired with journal } := by
  have hinit := a.initialization r
  rw [h] at hinit
  cases hinit with
  | bound journal _ hformat hacquire =>
    exact ⟨_, _, _, hformat, hacquire, rfl, journal, rfl⟩

/-- A connected adapter is a fresh one that was initialized. -/
theorem init_of_connect {a : Adapter} {x : Registration} (hname : name ≠ "basic")
    (hfind : r.find? name = some x) (h : (connect name).run r = (.ok a, r')) :
    ∃ journal ea, a = .engine ea ∧
      (EngineAdapter.init ⟨name, name, x.opener.kind, none⟩).run { r with journal } =
        ((.ok (), ea), r') := by
  obtain ⟨journal, hcreate⟩ := create_eq hname hfind
  let fresh : EngineAdapter := ⟨name, name, x.opener.kind, none⟩
  let created : Registry := { r with journal }
  have hconnect : (connect name).run r =
      ((fresh.init.run created).1.1.map fun () => .engine (fresh.init.run created).1.2,
        (fresh.init.run created).2) := by
    simp only [connect, StateT.run_bind, hcreate]
    rfl
  rw [hconnect] at h
  refine ⟨journal, ?_⟩
  rcases hinit : fresh.init.run created with ⟨⟨failure | ⟨⟩, ea⟩, initialized⟩
  · rw [hinit] at h
    cases h
  · rw [hinit] at h
    cases h
    exact ⟨ea, rfl, rfl⟩

/-- A connected adapter is bound to the one engine with the configured format. -/
theorem connect_ok {a : Adapter} (hname : name ≠ "basic") (hshares : r.Shares name opener)
    (h : (connect name).run r = (.ok a, r')) :
    r'.properties = r.properties ∧ r'.Shares name opener ∧
      (∃ engine, opener.run r.properties = .ok engine ∧ r'.engines = [engine]) ∧
      a.IsBound r.properties name opener.kind := by
  obtain ⟨x, hfind, rfl, -⟩ := id hshares
  obtain ⟨journal, ea, rfl, hinit⟩ := init_of_connect hname hfind h
  have hshares' : Registry.Shares { r with journal } name x.opener := hshares
  obtain ⟨format, id, acquired, hformat, hacquire, rfl, journal', rfl⟩ := init_ok hinit
  obtain ⟨rfl, hproperties, hacquired, hopened⟩ := hshares'.acquire hacquire
  exact ⟨hproperties, hacquired, hopened, _, format, rfl, rfl, hformat⟩

/-- Any number of adapters are connected like the first one. -/
theorem connectAll_ok {count : Nat} {clients : List Adapter} (hname : name ≠ "basic")
    (hshares : r.Shares name opener) (h : (connectAll name count).run r = (.ok clients, r')) :
    (clients = [] ∧ r'.engines = r.engines ∨
      ∃ engine, opener.run r.properties = .ok engine ∧ r'.engines = [engine]) ∧
      ∀ a ∈ clients, a.IsBound r.properties name opener.kind := by
  induction count generalizing r clients with
  | zero =>
    cases h
    exact ⟨.inl ⟨rfl, rfl⟩, by simp⟩
  | succ count ih =>
    rcases hconnect : (connect name).run r with ⟨failure | a, connected⟩
    · simp only [connectAll, StateT.run_bind, hconnect] at h
      cases h
    · have hall : (connectAll name (count + 1)).run r =
          (((connectAll name count).run connected).1.map (a :: ·),
            ((connectAll name count).run connected).2) := by
        simp only [connectAll, StateT.run_bind, hconnect]
        rfl
      rw [hall] at h
      obtain ⟨hproperties, hshares', ⟨engine, hrun, hengines⟩, hadapter⟩ :=
        connect_ok hname hshares hconnect
      rcases hrest : (connectAll name count).run connected with ⟨failure | rest, finished⟩
      · rw [hrest] at h
        cases h
      · rw [hrest] at h
        cases h
        obtain ⟨hopened, hrest⟩ := ih hshares' hrest
        rw [hproperties] at hopened hrest
        refine ⟨.inr ?_, List.forall_mem_cons.2 ⟨hadapter, hrest⟩⟩
        rcases hopened with ⟨-, hsame⟩ | hopened
        · exact ⟨engine, hrun, hsame.trans hengines⟩
        · exact hopened

end Adapter

/-! ## The engines in memory -/

theorem Opener.memory_ok {p : Properties} {engine : Engine} (h : Opener.memory.run p = .ok engine) :
    engine = .keyValue (.fresh "memory" (some Row.mergeEncoded)) := by
  simp only [Opener.run, memory] at h
  cases hoptions : EngineOptions.ofProperties? p "memory" with
  | error cause => rw [hoptions] at h; cases h
  | ok options => rw [hoptions] at h; cases h; rfl

theorem Opener.memoryTuples_ok {p : Properties} {engine : Engine} {fieldCount : Nat}
    (hcount : p.fieldCount = .ok fieldCount) (h : Opener.memoryTuples.run p = .ok engine) :
    engine = .tuple (.fresh "tuple" (fieldCount + 1)) ∧ fieldCount + 1 < UInt64.size := by
  simp only [Opener.run, memoryTuples] at h
  cases hoptions : EngineOptions.ofProperties? p "tuple" with
  | error cause => rw [hoptions] at h; cases h
  | ok options =>
    rw [hoptions, hcount] at h
    replace h : (if fieldCount + 1 < UInt64.size then
        (.ok (.fresh "tuple" (fieldCount + 1)) : Except Failure TupleEngine)
      else .error .fault).map Engine.tuple = .ok engine := h
    split at h
    · next hfits => cases h; exact ⟨rfl, hfits⟩
    · cases h

theorem Format.select?_keyValue {p : Properties} {name engine : String} {format : Format}
    {fieldCount : Nat} {mergesUpdates : Bool} (hcount : p.fieldCount = .ok fieldCount)
    (hmerges : p.bool (engine ++ ".mergeupdate") false = .ok mergesUpdates)
    (h : Format.select? .keyValue name p engine = .ok format) :
    format = .schemaless ⟨fieldCount, mergesUpdates⟩ := by
  by_cases hname : name = SchemalessFormat.name
  · simp only [Format.select?, SchemalessFormat.select?, ne_eq, hname, not_true, if_false, hcount,
      hmerges] at h
    cases h
    rfl
  · simp only [Format.select?, SchemalessFormat.select?, ne_eq, hname, not_false_eq_true,
      if_true] at h
    cases h

theorem Format.select?_tuple {p : Properties} {name engine : String} {format : Format}
    {fieldCount : Nat} (hcount : p.fieldCount = .ok fieldCount)
    (h : Format.select? .tuple name p engine = .ok format) :
    format = .columnar ⟨⟨p.fieldStem, fieldCount⟩⟩ := by
  by_cases hname : name = ColumnarFormat.name
  · simp only [Format.select?, ColumnarFormat.select?, ne_eq, hname, not_true, if_false,
      hcount] at h
    cases h
    rfl
  · simp only [Format.select?, ColumnarFormat.select?, ne_eq, hname, not_false_eq_true,
      if_true] at h
    cases h

namespace Adapter

variable {p : Properties} {r : Registry} {fieldCount : Nat}

/-- Adapters connected to the key-value engine in memory share it, empty. -/
theorem connectAll_memory {mergesUpdates : Bool} {count : Nat} {clients : List Adapter}
    (hcount : p.fieldCount = .ok fieldCount)
    (hmerges : p.bool "memory.mergeupdate" false = .ok mergesUpdates)
    (h : (connectAll "memory" count).run (.standard p) = (.ok clients, r)) :
    ∀ a ∈ clients,
      r.engines = [.keyValue (.fresh "memory" (some Row.mergeEncoded))] ∧
      ∃ ea, a = .engine ea ∧ ea.binding = some (.keyValue 0 ⟨fieldCount, mergesUpdates⟩) := by
  have hshares : (Registry.standard p).Shares "memory" .memory := ⟨_, rfl, rfl, .inl ⟨rfl, rfl⟩⟩
  obtain ⟨hopened, hclients⟩ := connectAll_ok (by decide) hshares h
  intro a ha
  constructor
  · rcases hopened with ⟨rfl, -⟩ | ⟨engine, hrun, hengines⟩
    · cases ha
    · rw [hengines, Opener.memory_ok hrun]
  · obtain ⟨ea, format, rfl, hbinding, hformat⟩ := hclients a ha
    have hmerges' : p.bool ("memory" ++ ".mergeupdate") false = .ok mergesUpdates := hmerges
    obtain rfl := Format.select?_keyValue hcount hmerges' hformat
    exact ⟨ea, rfl, hbinding⟩

/-- An adapter connected to the key-value engine in memory finds it empty. -/
theorem connect_memory {mergesUpdates : Bool} {a : Adapter} (hcount : p.fieldCount = .ok fieldCount)
    (hmerges : p.bool "memory.mergeupdate" false = .ok mergesUpdates)
    (h : (connect "memory").run (.standard p) = (.ok a, r)) :
    r.engines = [.keyValue (.fresh "memory" (some Row.mergeEncoded))] ∧
      ∃ ea, a = .engine ea ∧ ea.binding = some (.keyValue 0 ⟨fieldCount, mergesUpdates⟩) := by
  have hone : (connectAll "memory" 1).run (.standard p) = (.ok [a], r) := by
    simp only [connectAll, StateT.run_bind, h]
    rfl
  exact connectAll_memory hcount hmerges hone a (List.mem_singleton.2 rfl)

/-- Adapters connected to the tuple engine in memory share it, empty. -/
theorem connectAll_tuple {count : Nat} {clients : List Adapter}
    (hcount : p.fieldCount = .ok fieldCount)
    (h : (connectAll "tuple" count).run (.standard p) = (.ok clients, r)) :
    ∀ a ∈ clients,
      r.engines = [.tuple (.fresh "tuple" (fieldCount + 1))] ∧ fieldCount + 1 < UInt64.size ∧
      ∃ ea, a = .engine ea ∧ ea.binding = some (.tuple 0 ⟨⟨p.fieldStem, fieldCount⟩⟩) := by
  have hshares : (Registry.standard p).Shares "tuple" .memoryTuples :=
    ⟨_, rfl, rfl, .inl ⟨rfl, rfl⟩⟩
  obtain ⟨hopened, hclients⟩ := connectAll_ok (by decide) hshares h
  intro a ha
  obtain ⟨ea, format, rfl, hbinding, hformat⟩ := hclients a ha
  obtain rfl := Format.select?_tuple hcount hformat
  rcases hopened with ⟨rfl, -⟩ | ⟨engine, hrun, hengines⟩
  · cases ha
  · obtain ⟨rfl, hfits⟩ := Opener.memoryTuples_ok hcount hrun
    exact ⟨hengines, hfits, ea, rfl, hbinding⟩

/-- An adapter connected to the tuple engine in memory finds it empty. -/
theorem connect_tuple {a : Adapter} (hcount : p.fieldCount = .ok fieldCount)
    (h : (connect "tuple").run (.standard p) = (.ok a, r)) :
    r.engines = [.tuple (.fresh "tuple" (fieldCount + 1))] ∧ fieldCount + 1 < UInt64.size ∧
      ∃ ea, a = .engine ea ∧ ea.binding = some (.tuple 0 ⟨⟨p.fieldStem, fieldCount⟩⟩) := by
  have hone : (connectAll "tuple" 1).run (.standard p) = (.ok [a], r) := by
    simp only [connectAll, StateT.run_bind, h]
    rfl
  exact connectAll_tuple hcount hone a (List.mem_singleton.2 rfl)

end Adapter

end StoreBench
