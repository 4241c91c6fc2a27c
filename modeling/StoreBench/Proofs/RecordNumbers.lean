import StoreBench.Proofs.LoadPhase
/-!
# Every record has a number of its own

Record numbers are handed out once, in ascending order, as long as machine words last. A load phase
in which no client fails inserts every record and nothing else, whoever of its clients gets how far
when, and what is inserted after it is numbered from the number of records on.
-/

namespace StoreBench

/-- However the steps of callers are interleaved, record numbers are handed out once each and
ascending until the last machine word was handed out, and without a gap until somebody goes on after
loaded records;
a load phase of any number of clients, if none of them fails, performs as many tasks as there are
records, leaves as the next number that of the records, and fills an empty store in memory with
their keys;
and after a load phase, as after going on after loaded records, the first number handed out is the
number of records. -/
theorem records_numbered_once [Machine] (w : Workload) :
    (∀ {n : Nat} {α : Type} (callers : Fin n → Program callerCalls α) (phase : Phase n)
      (schedule : List (Fin n)), NumberedOnce w.options.recordCount phase.numbers.next
        (Caller.run w callers phase schedule).log) ∧
    (∀ {n : Nat} (b : BenchmarkOptions) (p : Properties) (name : String) (keeper : Adapter)
      (r : Registry) (adapters : Fin n → Adapter) (limiters : Fin n → Option RateLimiter)
      (latch : Latch) (schedule : List (Fin n)) (counts : Fin n → Nat)
      (c : Crew stepCalls (Except Failure Nat) (Phase n) n),
      (Workload.build (ι := .silent) b.workload).run.value = .ok w →
      b.workload.recordCount < UInt64.size →
      name = "memory" ∨ name = "tuple" →
      (Adapter.connect name).run (.standard (Benchmark.propertiesWith b p)) = (.ok keeper, r) →
      0 < n → (∀ i, ((Adapter.create name).run r).1 = .ok (adapters i)) →
      Caller.run w (fun i => Client.asCaller (Benchmark.loader b limiters i).runDetached)
        ⟨r, .start, latch, adapters, limiters⟩ schedule = c →
      (∀ i, (c.members i).result? = some (.ok (counts i))) →
        Benchmark.Loaded b keeper counts c.shared) ∧
    ∀ {n : Nat} {α : Type} (callers : Fin n → Program callerCalls α) (phase : Phase n)
      (schedule : List (Fin n)) (number : UInt64), w.options.recordCount < UInt64.size →
      (phase.numbers.next.toNat = w.options.recordCount ∨
        phase.numbers = Numbering.start.assumeLoaded w.options.recordCount) →
      (taken (Caller.run w callers phase schedule).log).head? = some number →
        number.toNat = w.options.recordCount := by
  refine ⟨fun callers phase schedule => numbers_ascend w callers phase schedule, ?_, ?_⟩
  · intro n b p name keeper r adapters limiters latch schedule counts c hbuild hcount hname hkeeper
      hn hadapters hc hdone
    obtain ⟨kind, rfl⟩ := EngineKind.exists_memoryName hname
    exact Benchmark.loaded_of_run hbuild hcount hkeeper hn hadapters hc hdone
  · intro n α callers phase schedule number hcount hnumbers hfirst
    have hnext : phase.numbers.next.toNat = w.options.recordCount := by
      rcases hnumbers with hnext | hassumed
      · exact hnext
      · rw [hassumed, Numbering.toNat_next_assumeLoaded_start hcount]
    have hle : UInt64.ofNat w.options.recordCount ≤ phase.numbers.next := by
      rw [← hnext, UInt64.ofNat_toNat]
      exact UInt64.le_refl _
    rw [(numbers_ascend w callers phase schedule).first hle number hfirst, hnext]

/-! ### Three records -/

/-- Records of one field, which has one value. -/
def oneField (recordCount : Nat) : BenchmarkOptions where
  workload := { recordCount, fieldCount := 1,
                filter := { numDistinct := 1, valueLength := 1, selectionRate := 1.0 } }

def onlyMemory : Properties := .ofList [("memory.storage_dir", "/memory")]

/-- Enough turns for each of two clients. -/
def inTurns : List (Fin 2) := (List.replicate 7 [0, 1]).flatten

section

attribute [local instance] Machine.largest

/-- Two clients that load three records between them. -/
def loadThree (w : Workload) (r : Registry) (a : Adapter) :
    Crew stepCalls (Except Failure Nat) (Phase 2) 2 :=
  Caller.run w
    (fun i => Client.asCaller (Benchmark.loader (oneField 3) (fun _ => none) i).runDetached)
    ⟨r, .start, ⟨2⟩, fun _ => a, fun _ => none⟩ inTurns

theorem exists_loadThree : ∃ w keeper r a,
    (Workload.build (ι := .silent) (oneField 3).workload).run.value = .ok w ∧
      (Adapter.connect "memory").run
        (.standard (Benchmark.propertiesWith (oneField 3) onlyMemory)) = (.ok keeper, r) ∧
      ((Adapter.create "memory").run r).1 = .ok a ∧
      ∀ i, ((loadThree w r a).members i).result? = some (.ok (![2, 1] i)) := by
  have hloads : ((Workload.build (ι := .silent) (oneField 3).workload).run.value.toOption.any
      fun w => match (Adapter.connect "memory").run
          (.standard (Benchmark.propertiesWith (oneField 3) onlyMemory)) with
        | (keeper, r) => keeper.toOption.any fun _ =>
          ((Adapter.create "memory").run r).1.toOption.any fun a =>
            decide (∀ i, ((loadThree w r a).members i).result?.bind Except.toOption =
              some (![2, 1] i))) = true := by decide +kernel
  obtain ⟨w, hbuild, hloads⟩ := exists_ok_of_any hloads
  split at hloads
  next connected r hconnect =>
  obtain ⟨keeper, rfl, hcreates⟩ := exists_ok_of_any hloads
  obtain ⟨a, ha, hcounts⟩ := exists_ok_of_any hcreates
  refine ⟨w, keeper, r, a, hbuild, hconnect, ha, fun i => ?_⟩
  obtain ⟨result, hresult, hcount⟩ := Option.bind_eq_some_iff.1 (of_decide_eq_true hcounts i)
  cases result with
  | error failure => cases hcount
  | ok count => exact hresult.trans (congrArg _ (congrArg _ (Option.some.inj hcount)))

theorem records_numbered_once_three : ∃ w keeper r a,
    (Workload.build (ι := .silent) (oneField 3).workload).run.value = .ok w ∧
      (Adapter.connect "memory").run
        (.standard (Benchmark.propertiesWith (oneField 3) onlyMemory)) = (.ok keeper, r) ∧
      ((Adapter.create "memory").run r).1 = .ok a ∧
      Benchmark.Loaded (n := 2) (oneField 3) keeper ![2, 1] (loadThree w r a).shared ∧
      ∀ (callers : Fin 2 → Program callerCalls Unit) schedule number,
        (taken (Caller.run w callers (loadThree w r a).shared schedule).log).head? = some number →
          number.toNat = 3 := by
  obtain ⟨w, keeper, r, a, hbuild, hkeeper, ha, hdone⟩ := exists_loadThree
  have hloaded : Benchmark.Loaded (n := 2) (oneField 3) keeper ![2, 1] (loadThree w r a).shared :=
    (records_numbered_once w).2.1 (oneField 3) onlyMemory "memory" keeper r (fun _ => a)
      (fun _ => none) ⟨2⟩ inTurns ![2, 1] _ hbuild (by decide) (.inl rfl) hkeeper (by decide)
      (fun _ => ha) rfl hdone
  have hcount : w.options.recordCount = (oneField 3).workload.recordCount := by
    rw [(Workload.of_build hbuild).1]
  refine ⟨w, keeper, r, a, hbuild, hkeeper, ha, hloaded, fun callers schedule number hfirst => ?_⟩
  have hnumber := (records_numbered_once w).2.2 callers (loadThree w r a).shared schedule number
    (by rw [hcount]; decide) (.inl (hloaded.numbered.trans hcount.symm)) hfirst
  exact hnumber.trans hcount

end

/-! ### Numbers that run out -/

/-- Insert, go on after loaded records, and insert twice more. -/
def insertsAround (worker : Worker) : Program callerCalls Unit := do
  let (_, worker) ← Program.call (ι := callerCalls) (.client (.perform .insert worker))
  Program.call (ι := callerCalls) .assumeLoaded
  let (_, worker) ← Program.call (ι := callerCalls) (.client (.perform .insert worker))
  discard (Program.call (ι := callerCalls) (.client (.perform .insert worker)))

section

attribute [local instance] Machine.largest

/-- What is served of one caller on an adapter that stores nothing. -/
def logAround (w : Workload) (worker : Worker) : List (Served stepCalls 1) :=
  (Caller.run w (fun _ => insertsAround worker)
    ⟨.standard onlyMemory, .start, ⟨1⟩, fun _ => .basic ⟨true⟩, fun _ => none⟩
    (List.replicate 7 0)).log

theorem exists_logAround {count : Nat} (h : count ∈ [2 ^ 64 - 1, 10 ^ 10 - 1]) :
    ∃ w worker, (Workload.build (ι := .silent) (oneField count).workload).run.value = .ok w ∧
      Worker.ofSeed? 0 1 = .ok worker ∧
      (taken (logAround w worker)).map UInt64.toNat = [0, count, (count + 1) % 2 ^ 64] ∧
      issued (logAround w worker) = [0, count, (count + 1) % 2 ^ 64].map recordKey := by
  have hlogs : ∀ count ∈ [2 ^ 64 - 1, 10 ^ 10 - 1],
      ((Workload.build (ι := .silent) (oneField count).workload).run.value.toOption.any fun w =>
        (Worker.ofSeed? 0 1).toOption.any fun worker =>
          (taken (logAround w worker)).map UInt64.toNat = [0, count, (count + 1) % 2 ^ 64] ∧
            issued (logAround w worker) = [0, count, (count + 1) % 2 ^ 64].map recordKey) =
        true := by decide +kernel
  obtain ⟨w, hbuild, hlog⟩ := exists_ok_of_any (hlogs count h)
  obtain ⟨worker, hworker, hlog⟩ := exists_ok_of_any hlog
  exact ⟨w, worker, hbuild, hworker, of_decide_eq_true hlog⟩

/-- After the last machine word the numbers start again, and with them the keys; and from the number
with eleven digits on keys no longer ascend. -/
theorem numbers_start_again :
    (∃ w worker,
      (Workload.build (ι := .silent) (oneField (2 ^ 64 - 1)).workload).run.value = .ok w ∧
      Worker.ofSeed? 0 1 = .ok worker ∧ ¬ (taken (logAround w worker)).Pairwise (· < ·) ∧
      ¬ (issued (logAround w worker)).Nodup) ∧
    ∃ w worker,
      (Workload.build (ι := .silent) (oneField (10 ^ 10 - 1)).workload).run.value = .ok w ∧
      Worker.ofSeed? 0 1 = .ok worker ∧ ¬ (issued (logAround w worker)).Pairwise (· < ·) := by
  constructor
  · obtain ⟨w, worker, hbuild, hworker, htaken, hissued⟩ :=
      exists_logAround (by decide : 2 ^ 64 - 1 ∈ [2 ^ 64 - 1, 10 ^ 10 - 1])
    refine ⟨w, worker, hbuild, hworker, fun hascending => ?_, fun hnodup => ?_⟩
    · have hnumbers : ((taken (logAround w worker)).map UInt64.toNat).Pairwise (· < ·) :=
        List.pairwise_map.2 (hascending.imp UInt64.lt_iff_toNat_lt.1)
      rw [htaken] at hnumbers
      exact absurd hnumbers (by decide)
    · rw [hissued] at hnodup
      exact absurd (hnodup.of_map recordKey) (by decide)
  · obtain ⟨w, worker, hbuild, hworker, -, hissued⟩ :=
      exists_logAround (by decide : 10 ^ 10 - 1 ∈ [2 ^ 64 - 1, 10 ^ 10 - 1])
    refine ⟨w, worker, hbuild, hworker, fun hascending => ?_⟩
    rw [hissued] at hascending
    exact absurd hascending (by decide +kernel)

end

end StoreBench
