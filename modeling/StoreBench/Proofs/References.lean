import StoreBench.Proofs.Connection
import StoreBench.Proofs.Serving
/-!
# References to engines

A registry counts the holders of each engine when every handle has as many references as its engine
has holders, an engine is open exactly while it has holders, and it serves while it is open. Taking
a reference adds a holder and dropping one removes a holder. Neither touches the engine of another
name, and an engine that keeps a holder keeps its contents.
-/

namespace StoreBench

/-- A handle with as many references as its engine has holders, open while it has any. -/
structure SharedHandle.Counts {ε : Type} (h : SharedHandle ε) (holders : Nat) : Prop where
  refs_eq : h.refs = holders
  isOpen_iff : h.isOpen = true ↔ 0 < holders
  opens_eq : h.opens = h.closes + if h.isOpen then 1 else 0

theorem Opener.kind_of_run (opener : Opener) {p : Properties} {engine : Engine}
    (h : opener.run p = .ok engine) : engine.kind = opener.kind := by
  cases opener with
  | keyValue openEngine =>
    cases hopen : openEngine p with
    | error failure => rw [run, hopen] at h; cases h
    | ok e => rw [run, hopen] at h; cases h; rfl
  | tuple openEngine =>
    cases hopen : openEngine p with
    | error failure => rw [run, hopen] at h; cases h
    | ok e => rw [run, hopen] at h; cases h; rfl

namespace Registry

variable {r r' : Registry} {name : String} {x : Registration} {holders holders' : String → Nat}
  {id : Nat}

/-- The registry with another handle under a name. -/
def withHandle (r : Registry) (name : String) (handle : SharedHandle Nat) : Registry :=
  { r with registrations :=
      r.registrations.map fun x => if x.name = name then { x with handle } else x }

theorem find?_withHandle_self (handle : SharedHandle Nat) (h : r.find? name = some x) :
    (r.withHandle name handle).find? name = some { x with handle } := by
  rw [find?, withHandle, find?_map_handle]
  exact congrArg _ h

theorem find?_withHandle_of_ne {other : String} (handle : SharedHandle Nat) (h : other ≠ name) :
    (r.withHandle name handle).find? other = r.find? other := by
  simp only [find?, withHandle]
  induction r.registrations with
  | nil => rfl
  | cons x xs ih =>
    by_cases hx : x.name = name
    · simp [hx, Ne.symm h, ih]
    · simp [hx, List.find?_cons, ih]

theorem withHandle_self (hnodup : (r.registrations.map Registration.name).Nodup)
    (h : r.find? name = some x) : r.withHandle name x.handle = r := by
  have hsame : r.registrations.map
      (fun y => if y.name = name then { y with handle := x.handle } else y) = r.registrations := by
    rw [find?] at h
    generalize r.registrations = xs at h hnodup
    induction xs with
    | nil => rfl
    | cons y ys ih =>
      obtain ⟨hy, hys⟩ := List.nodup_cons.1 hnodup
      by_cases hname : y.name = name
      · obtain rfl : y = x := by simpa [hname] using h
        have hrest : ∀ z ∈ ys, z.name ≠ name := by
          rintro z hz rfl
          exact hy (hname ▸ List.mem_map_of_mem hz)
        rw [List.map_cons, if_pos hname]
        congr 1
        exact (List.map_congr_left fun z hz => if_neg (hrest z hz)).trans (List.map_id ys)
      · have hfind : ys.find? (·.name == name) = some x := by simpa [hname] using h
        rw [List.map_cons, if_neg hname, ih hfind hys]
  rw [withHandle, hsame]

/-! ## One reference more or less -/

theorem acquire_open (hfind : r.find? name = some x) (hengine : x.handle.engine = some id) :
    (acquire name).run r =
      (.ok id, r.withHandle name { x.handle with refs := x.handle.refs + 1 }) := by
  simp only [acquire, onHandle, StateT.run_bind, StateT.run_get, pure_bind]
  rw [hfind]
  simp only [SharedHandle.acquire, hengine]
  rfl

theorem acquire_first (hfind : r.find? name = some x) (hnone : x.handle.engine = none)
    {engine : Engine} (hrun : x.opener.run r.properties = .ok engine) :
    ∃ journal, (acquire name).run r =
      (.ok r.engines.length,
        { r.withHandle name { x.handle with
            engine := some r.engines.length, refs := 1, opens := x.handle.opens + 1 } with
          engines := r.engines ++ [engine], journal }) := by
  simp only [acquire, onHandle, StateT.run_bind, StateT.run_get, pure_bind]
  rw [hfind]
  simp only [SharedHandle.acquire, hnone, Program.call, Program.ask_bind, Program.done_bind,
    Program.interpret, answerLifecycle, StateT.run_bind, openEngine_eq, hrun]
  exact ⟨_, rfl⟩

theorem acquire_refused (hfind : r.find? name = some x) (hnone : x.handle.engine = none)
    {failure : Failure} (hrun : x.opener.run r.properties = .error failure) :
    ∃ journal, (acquire name).run r =
      (.error failure, { r.withHandle name x.handle with journal }) := by
  simp only [acquire, onHandle, StateT.run_bind, StateT.run_get, pure_bind]
  rw [hfind]
  simp only [SharedHandle.acquire, hnone, Program.call, Program.ask_bind, Program.done_bind,
    Program.interpret, answerLifecycle, StateT.run_bind, openEngine_eq, hrun]
  rcases failure with (_ | _ | _) | _ <;> exact ⟨_, rfl⟩

theorem release_shared (hfind : r.find? name = some x) {refs : Nat}
    (hrefs : x.handle.refs = refs + 2) :
    (release name).run r = (.ok (), r.withHandle name { x.handle with refs := refs + 1 }) := by
  simp only [release, onHandle, StateT.run_bind, StateT.run_get, pure_bind]
  rw [hfind]
  simp only [SharedHandle.release, hrefs]
  rfl

theorem closeEngine_serves {kind : EngineKind} (h : r.Serves id kind) :
    ∃ engine, (closeEngine id).run r = (.ok (), { r with engines := r.engines.set id engine }) := by
  obtain ⟨engine, hkeeps, -, hserves⟩ := h
  simp only [closeEngine, StateT.run_bind, StateT.run_get, pure_bind]
  rw [hkeeps]
  cases engine with
  | keyValue e =>
    have hopen : e.closed = false := hserves.1
    refine ⟨.keyValue e.close.2, ?_⟩
    simp only [KeyValueEngine.close, hopen]
    rfl
  | tuple e =>
    have hopen : e.closed = false := hserves
    refine ⟨.tuple e.close.2, ?_⟩
    simp only [TupleEngine.close, hopen]
    rfl

theorem release_last (hfind : r.find? name = some x) (hrefs : x.handle.refs = 1)
    (hengine : x.handle.engine = some id) {kind : EngineKind} (hserves : r.Serves id kind) :
    ∃ engine journal, (release name).run r =
      (.ok (), { r.withHandle name { x.handle with
            engine := none, refs := 0, closes := x.handle.closes + 1 } with
          engines := r.engines.set id engine, journal }) := by
  obtain ⟨engine, hclose⟩ := closeEngine_serves hserves
  refine ⟨engine, ?_⟩
  simp only [release, onHandle, StateT.run_bind, StateT.run_get, pure_bind]
  rw [hfind]
  simp only [SharedHandle.release, hrefs, hengine, Program.call, Program.ask_bind,
    Program.done_bind, Program.interpret, answerLifecycle, StateT.run_bind, hclose]
  exact ⟨_, rfl⟩

/-! ## Counting holders -/

/-- The registry of the engines in memory, every handle having the references that the holders of
its engine took. Open engines serve. -/
structure Counts (r : Registry) (holders : String → Nat) : Prop where
  names_eq : r.registrations.map Registration.name = ["memory", "tuple"]
  opens : ∀ name x, r.find? name = some x → ∀ engine, x.opener.run r.properties = .ok engine →
    engine.Serves
  counts : ∀ name x, r.find? name = some x → x.handle.Counts (holders name)
  serves : ∀ name x, r.find? name = some x → ∀ id, x.handle.engine = some id →
    r.Serves id x.opener.kind
  apart : ∀ name x, r.find? name = some x → ∀ other y, r.find? other = some y →
    ∀ id, x.handle.engine = some id → y.handle.engine = some id → name = other

/-- Between two registries nothing has changed for the engines of other names. -/
structure AgreesOff (name : String) (r r' : Registry) : Prop where
  properties_eq : r'.properties = r.properties
  find?_eq : ∀ other, other ≠ name → r'.find? other = r.find? other
  engines_eq : ∀ other, other ≠ name → ∀ y, r.find? other = some y →
    ∀ id, y.handle.engine = some id → r'.engines[id]? = r.engines[id]?

theorem AgreesOff.serves {other : String} {y : Registration} {kind : EngineKind}
    (h : AgreesOff name r r') (hother : other ≠ name) (hy : r.find? other = some y)
    (hid : y.handle.engine = some id) (hserves : r.Serves id kind) : r'.Serves id kind := by
  obtain ⟨engine, hkeeps, hengine⟩ := hserves
  exact ⟨engine, (h.engines_eq other hother y hy id hid).trans hkeeps, hengine⟩

/-- Between two registries neither the properties nor the ways to open engines have changed. -/
structure SameSetup (r r' : Registry) : Prop where
  properties_eq : r'.properties = r.properties
  openers_eq : ∀ name, (r'.find? name).map Registration.opener =
    (r.find? name).map Registration.opener

theorem SameSetup.trans {r'' : Registry} (h : SameSetup r r') (h' : SameSetup r' r'') :
    SameSetup r r'' where
  properties_eq := h'.properties_eq.trans h.properties_eq
  openers_eq name := (h'.openers_eq name).trans (h.openers_eq name)

theorem AgreesBeside.sameSetup (h : AgreesBeside id r r') : r.SameSetup r' where
  properties_eq := h.properties_eq
  openers_eq name := by rw [find?, find?, h.registrations_eq]

/-- Another handle is no other setup. -/
theorem AgreesOff.sameSetup {handle : SharedHandle Nat} (h : AgreesOff name r r')
    (hx : r.find? name = some x) (hx' : r'.find? name = some { x with handle }) :
    r.SameSetup r' where
  properties_eq := h.properties_eq
  openers_eq other := by
    by_cases hother : other = name
    · rw [hother, hx, hx']
      rfl
    · rw [h.find?_eq other hother]

/-- One handle is replaced by another that counts and whose engine is no other's. -/
theorem Counts.replace {handle : SharedHandle Nat} (h : r.Counts holders)
    (hx : r.find? name = some x) (hnames : r'.registrations.map Registration.name =
      r.registrations.map Registration.name)
    (hx' : r'.find? name = some { x with handle }) (hagrees : AgreesOff name r r')
    (hcounts : handle.Counts (holders' name))
    (hholders : ∀ other, other ≠ name → holders' other = holders other)
    (hserves : ∀ id, handle.engine = some id → r'.Serves id x.opener.kind)
    (hapart : ∀ other, other ≠ name → ∀ y, r.find? other = some y → ∀ id,
      handle.engine = some id → y.handle.engine ≠ some id) : r'.Counts holders' where
  names_eq := hnames.trans h.names_eq
  opens := by
    intro other y hy engine hrun
    rw [hagrees.properties_eq] at hrun
    by_cases hother : other = name
    · subst hother
      cases hx'.symm.trans hy
      exact h.opens other x hx engine hrun
    · rw [hagrees.find?_eq other hother] at hy
      exact h.opens other y hy engine hrun
  counts := by
    intro other y hy
    by_cases hother : other = name
    · subst hother
      cases hx'.symm.trans hy
      exact hcounts
    · rw [hagrees.find?_eq other hother] at hy
      rw [hholders other hother]
      exact h.counts other y hy
  serves := by
    intro other y hy id hid
    by_cases hother : other = name
    · subst hother
      cases hx'.symm.trans hy
      exact hserves id hid
    · rw [hagrees.find?_eq other hother] at hy
      exact hagrees.serves hother hy hid (h.serves other y hy id hid)
  apart := by
    intro one y hy other z hz id hidy hidz
    by_cases hone : one = name <;> by_cases hother : other = name
    · exact hone.trans hother.symm
    · subst hone
      cases hx'.symm.trans hy
      rw [hagrees.find?_eq other hother] at hz
      exact absurd hidz (hapart other hother z hz id hidy)
    · subst hother
      cases hx'.symm.trans hz
      rw [hagrees.find?_eq one hone] at hy
      exact absurd hidy (hapart one hone y hy id hidz)
    · rw [hagrees.find?_eq one hone] at hy
      rw [hagrees.find?_eq other hother] at hz
      exact h.apart one y hy other z hz id hidy hidz

theorem Serves.kind_unique {kind kind' : EngineKind} (h : r.Serves id kind)
    (h' : r.Serves id kind') : kind = kind' := by
  obtain ⟨engine, hkeeps, rfl, -⟩ := h
  obtain ⟨engine', hkeeps', rfl, -⟩ := h'
  cases hkeeps.symm.trans hkeeps'
  rfl

/-- An engine may change as long as it serves. -/
theorem Counts.of_agreesBeside (h : r.Counts holders) (hagrees : r.AgreesBeside id r')
    (hserves : ∀ kind, r.Serves id kind → r'.Serves id kind) : r'.Counts holders := by
  have hfind : ∀ name, r'.find? name = r.find? name := by
    intro name
    rw [find?, find?, hagrees.registrations_eq]
  refine ⟨hagrees.registrations_eq ▸ h.names_eq, fun name x hx engine hrun => ?_,
    fun name x hx => h.counts name x (hfind name ▸ hx), fun name x hx id' hid' => ?_,
    fun name x hx other y hy => h.apart name x (hfind name ▸ hx) other y (hfind other ▸ hy)⟩
  · rw [hagrees.properties_eq] at hrun
    exact h.opens name x (hfind name ▸ hx) engine hrun
  · have hold := h.serves name x (hfind name ▸ hx) id' hid'
    by_cases hid : id' = id
    · subst hid
      exact hserves _ hold
    · obtain ⟨engine, hkeeps, hengine⟩ := hold
      exact ⟨engine, (hagrees.engines_eq id' hid).trans hkeeps, hengine⟩

theorem names_withHandle (handle : SharedHandle Nat) :
    (r.withHandle name handle).registrations.map Registration.name =
      r.registrations.map Registration.name := by
  rw [withHandle, List.map_map]
  refine List.map_congr_left fun y _ => ?_
  by_cases hy : y.name = name <;> simp [hy]

theorem agreesOff_withHandle (handle : SharedHandle Nat) :
    AgreesOff name r (r.withHandle name handle) where
  properties_eq := rfl
  find?_eq _ hother := find?_withHandle_of_ne handle hother
  engines_eq _ _ _ _ _ _ := rfl

theorem Serves.lt_length {kind : EngineKind} (h : r.Serves id kind) : id < r.engines.length := by
  obtain ⟨engine, hkeeps, -⟩ := h
  exact (List.getElem?_eq_some_iff.1 hkeeps).1

theorem Serves.ne_length {kind : EngineKind} (h : r.Serves id kind) : id ≠ r.engines.length :=
  Nat.ne_of_lt h.lt_length

theorem keeps_append {engine : Engine} (h : r.Keeps id engine) (rest : List Engine) :
    (r.engines ++ rest)[id]? = some engine := by
  rw [List.getElem?_append_left (List.getElem?_eq_some_iff.1 h).1]
  exact h

/-- What an acquired reference means: there is one holder more, of the engine referred to. -/
structure Acquired (r : Registry) (name : String) (x : Registration) (holders : String → Nat)
    (id : Nat) (r' : Registry) : Prop where
  counts : r'.Counts holders
  agrees : r.AgreesOff name r'
  refers : ∃ handle, r'.find? name = some { x with handle } ∧ handle.engine = some id
  same : ∀ held, x.handle.engine = some held → held = id
  keeps : ∀ other engine, r.Keeps other engine → r'.Keeps other engine

variable (h : r.Counts holders) (hfind : r.find? name = some x)
  (hholders : ∀ other, other ≠ name → holders' other = holders other)

include h hfind hholders

theorem Counts.acquired_open (hname : holders' name = holders name + 1)
    (hengine : x.handle.engine = some id) :
    r.Acquired name x holders' id
      (r.withHandle name { x.handle with refs := x.handle.refs + 1 }) := by
  have hhandle := h.counts name x hfind
  have hopen : x.handle.isOpen = true := by simp [SharedHandle.isOpen, hengine]
  have hfind' := find?_withHandle_self { x.handle with refs := x.handle.refs + 1 } hfind
  have hcounts : SharedHandle.Counts { x.handle with refs := x.handle.refs + 1 }
      (holders' name) := by
    refine ⟨by rw [hname, ← hhandle.refs_eq], ?_, hhandle.opens_eq⟩
    rw [hname]
    exact iff_of_true hopen (Nat.succ_pos _)
  refine ⟨h.replace hfind (names_withHandle _) hfind' (agreesOff_withHandle _) hcounts hholders
    (h.serves name x hfind) ?_, agreesOff_withHandle _, ⟨_, hfind', hengine⟩, ?_, fun _ _ hkeeps =>
    hkeeps⟩
  · intro other hother y hy id hid hidy
    exact hother (h.apart other y hy name x hfind id hidy hid)
  · intro held hheld
    exact Option.some.inj (hheld.symm.trans hengine)

theorem Counts.acquired_first (hname : holders' name = holders name + 1)
    (hnone : x.handle.engine = none) {engine : Engine}
    (hrun : x.opener.run r.properties = .ok engine) (journal : List Event) :
    r.Acquired name x holders' r.engines.length
      { r.withHandle name { x.handle with
          engine := some r.engines.length, refs := 1, opens := x.handle.opens + 1 } with
        engines := r.engines ++ [engine], journal } := by
  have hhandle := h.counts name x hfind
  let handle : SharedHandle Nat := { x.handle with
    engine := some r.engines.length, refs := 1, opens := x.handle.opens + 1 }
  have hfind' := find?_withHandle_self handle hfind
  have hzero : holders name = 0 := by
    have hiff := hhandle.isOpen_iff
    simp only [SharedHandle.isOpen, hnone] at hiff
    simpa using hiff
  have hcounts : handle.Counts (holders' name) := by
    refine ⟨by rw [hname, hzero], ?_, ?_⟩
    · rw [hname]
      exact iff_of_true rfl (Nat.succ_pos _)
    · have hopens := hhandle.opens_eq
      simp only [SharedHandle.isOpen, hnone] at hopens
      simpa [handle, SharedHandle.isOpen] using hopens
  have hkeeps : ∀ other engine', r.Keeps other engine' →
      (r.engines ++ [engine])[other]? = some engine' := fun _ _ hold => keeps_append hold [engine]
  have hagrees : AgreesOff name r
      { r.withHandle name handle with engines := r.engines ++ [engine], journal } := by
    refine ⟨rfl, fun other hother => find?_withHandle_of_ne handle hother, ?_⟩
    intro other _ y hy id hid
    obtain ⟨engine', hold, -⟩ := h.serves other y hy id hid
    exact (hkeeps id engine' hold).trans hold.symm
  refine ⟨h.replace hfind (names_withHandle _) hfind' hagrees hcounts hholders ?_ ?_, hagrees,
    ⟨_, hfind', rfl⟩, ?_, hkeeps⟩
  · rintro _ ⟨⟩
    exact ⟨engine, List.getElem?_concat_length, x.opener.kind_of_run hrun,
      h.opens name x hfind engine hrun⟩
  · intro other _ y hy id hid hidy
    exact (h.serves other y hy id hidy).ne_length (Option.some.inj hid).symm
  · intro held hheld
    rw [hnone] at hheld
    cases hheld

/-- What taking a reference did. -/
theorem Counts.acquire (hname : holders' name = holders name + 1)
    (hrun : (acquire name).run r = (.ok id, r')) : r.Acquired name x holders' id r' := by
  cases hengine : x.handle.engine with
  | some held =>
    rw [acquire_open hfind hengine] at hrun
    cases hrun
    exact h.acquired_open hfind hholders hname hengine
  | none =>
    cases hopener : x.opener.run r.properties with
    | error failure =>
      obtain ⟨journal, heq⟩ := acquire_refused hfind hengine hopener
      rw [heq] at hrun
      cases hrun
    | ok engine =>
      obtain ⟨journal, heq⟩ := acquire_first hfind hengine hopener
      rw [heq] at hrun
      cases hrun
      exact h.acquired_first hfind hholders hname hengine hopener journal

omit hholders in
/-- A reference that could not be taken leaves everything as it was. -/
theorem Counts.acquire_error {failure : Failure}
    (hrun : (Registry.acquire name).run r = (.error failure, r')) : r.AgreesButJournal r' := by
  cases hengine : x.handle.engine with
  | some held =>
    rw [acquire_open hfind hengine] at hrun
    cases hrun
  | none =>
    cases hopener : x.opener.run r.properties with
    | error failure' =>
      obtain ⟨journal, heq⟩ := acquire_refused hfind hengine hopener
      rw [heq] at hrun
      cases hrun
      rw [withHandle_self (h.names_eq ▸ by decide) hfind]
      exact ⟨journal, rfl⟩
    | ok engine =>
      obtain ⟨journal, heq⟩ := acquire_first hfind hengine hopener
      rw [heq] at hrun
      cases hrun

/-- What a released reference means: there is one holder less, and while there are others the engine
stays as it is. -/
structure Released (r : Registry) (name : String) (x : Registration) (holders : String → Nat)
    (after : Except Failure Unit × Registry) : Prop where
  ok : after.1 = .ok ()
  counts : after.2.Counts holders
  agrees : r.AgreesOff name after.2
  refers : ∃ handle, after.2.find? name = some { x with handle } ∧
    (0 < holders name → handle.engine = x.handle.engine ∧ after.2.engines = r.engines)

/-- What dropping a reference does. -/
theorem Counts.release (hname : holders name = holders' name + 1) :
    r.Released name x holders' ((release name).run r) := by
  have hhandle := h.counts name x hfind
  have hopen : x.handle.isOpen = true := hhandle.isOpen_iff.2 (by omega)
  obtain ⟨id, hengine⟩ := Option.isSome_iff_exists.1 hopen
  have hapart : ∀ other, other ≠ name → ∀ y, r.find? other = some y →
      y.handle.engine ≠ some id := by
    intro other hother y hy hidy
    exact hother (h.apart other y hy name x hfind id hidy hengine)
  cases hrest : holders' name with
  | succ rest =>
    have hrefs : x.handle.refs = rest + 2 := by rw [hhandle.refs_eq, hname, hrest]
    rw [release_shared hfind hrefs]
    have hfind' := find?_withHandle_self { x.handle with refs := rest + 1 } hfind
    have hcounts : SharedHandle.Counts { x.handle with refs := rest + 1 } (holders' name) := by
      refine ⟨hrest.symm, ?_, hhandle.opens_eq⟩
      rw [hrest]
      exact iff_of_true hopen (Nat.succ_pos _)
    refine ⟨rfl, h.replace hfind (names_withHandle _) hfind' (agreesOff_withHandle _) hcounts
      hholders (h.serves name x hfind) ?_, agreesOff_withHandle _, _, hfind', fun _ => ⟨rfl, rfl⟩⟩
    intro other hother y hy id' hid hidy
    exact hother (h.apart other y hy name x hfind id' hidy hid)
  | zero =>
    have hrefs : x.handle.refs = 1 := by rw [hhandle.refs_eq, hname, hrest]
    obtain ⟨engine, journal, heq⟩ :=
      release_last hfind hrefs hengine (h.serves name x hfind id hengine)
    rw [heq]
    let handle : SharedHandle Nat := { x.handle with
      engine := none, refs := 0, closes := x.handle.closes + 1 }
    have hfind' := find?_withHandle_self handle hfind
    have hcounts : handle.Counts (holders' name) := by
      refine ⟨hrest.symm, ?_, ?_⟩
      · rw [hrest]
        exact iff_of_false nofun (Nat.lt_irrefl 0)
      · have hopens := hhandle.opens_eq
        rw [hopen] at hopens
        simpa [handle, SharedHandle.isOpen] using hopens
    have hagrees : AgreesOff name r
        { r.withHandle name handle with engines := r.engines.set id engine, journal } := by
      refine ⟨rfl, fun other hother => find?_withHandle_of_ne handle hother, ?_⟩
      intro other hother y hy id' hid'
      refine List.getElem?_set_ne ?_
      rintro rfl
      exact hapart other hother y hy hid'
    refine ⟨rfl, h.replace hfind (names_withHandle _) hfind' hagrees hcounts hholders nofun
      (fun _ _ _ _ _ => nofun), hagrees, _, hfind', ?_⟩
    intro hpos
    omega

end Registry

end StoreBench
