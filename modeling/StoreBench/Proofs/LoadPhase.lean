import StoreBench.Proofs.Hosting
import StoreBench.Proofs.Shares
/-!
# Load phases

The clients of a load phase divide the records among themselves and insert them into one store, each
at its own pace. The numbers they took, with those of the records they have left, are all of the
records; the keys in the store, with those of the numbers they hold, are the keys of the numbers
taken. So when all of them are done the store has the key of every record and no other key, and the
next number is the number of records.
-/

namespace StoreBench

variable {n : Nat}

/-! ## What is left and what is held -/

namespace Backlog

/-- The key of the number held. -/
def key? (backlog : Backlog) : Option Bytes := backlog.number.map keyOf

/-- The records left are those of one client and the rest, whatever that one has left. -/
theorem exists_sum_left (known : Fin n → Backlog) (i : Fin n) :
    ∃ rest, ∑ j, (known j).left = (known i).left + rest ∧ ∀ backlog : Backlog,
      ∑ j, (Function.update known i backlog j).left = backlog.left + rest := by
  refine ⟨∑ j ∈ Finset.univ.erase i, (known j).left,
    (Finset.add_sum_erase _ _ (Finset.mem_univ i)).symm, fun backlog => ?_⟩
  rw [← Finset.add_sum_erase _ _ (Finset.mem_univ i), Function.update_self]
  congr 1
  refine Finset.sum_congr rfl fun j hj => ?_
  rw [Function.update_of_ne (Finset.ne_of_mem_erase hj)]

end Backlog

/-- The keys of a table. -/
def Table.HasKeys (t : Table) (keys : List Bytes) : Prop :=
  ∀ key : Bytes, t[key]?.isSome ↔ key ∈ keys

theorem Table.HasKeys.insert {t : Table} {keys : List Bytes} (h : t.HasKeys keys) (key : Bytes)
    (row : Row) : Table.HasKeys (Std.ExtTreeMap.insert t key row) (key :: keys) := by
  intro other
  rw [Std.ExtTreeMap.getElem?_insert, List.mem_cons]
  split
  · next heq => simp [Bytes.order_eq_eq_iff.1 heq]
  · next hne =>
    have hother : other ≠ key := by
      rintro rfl
      exact hne (Bytes.order_eq_eq_iff.2 rfl)
    rw [h other, iff_comm, or_iff_right hother]

/-! ## The invariant -/

/-- How the numbers taken, the backlogs and the keys in the store of a load phase agree. -/
structure Phase.Accounts (layout : ColumnLayout) (kind : EngineKind) (name : String)
    (keeper : EngineAdapter) (total : Nat) (known : Fin n → Backlog) (phase : Phase n) (t : Table)
    (keys : List Bytes) : Prop where
  hosts : phase.Hosts layout kind name keeper t
  numbered : phase.numbers.next.toNat + ∑ i, (known i).left = total
  stored : t.HasKeys keys
  keys_perm : (keys ++ held Backlog.key? known).Perm
    ((List.range phase.numbers.next.toNat).map recordKey)

namespace Phase.Accounts

variable {layout : ColumnLayout} {kind : EngineKind} {name : String} {keeper : EngineAdapter}
  {total : Nat} {known : Fin n → Backlog} {phase : Phase n} {t : Table} {keys : List Bytes}
  {w : Workload} (h : phase.Accounts layout kind name keeper total known t keys) {i : Fin n}

include h

/-- A client takes a number for one of the records it has left. -/
theorem take [Machine] (htotal : total < UInt64.size) (hnone : (known i).number = none)
    (hleft : 0 < (known i).left) :
    Accounts layout kind name keeper total
      (Function.update known i ⟨(known i).left - 1, some phase.numbers.next⟩)
      (phase.answer w i (.workload .takeNumber)).2 t keys := by
  obtain ⟨rest, hsum, hrest⟩ := Backlog.exists_sum_left known i
  obtain ⟨others, hheld, hothers⟩ := exists_held_perm Backlog.key? known i
  rw [Backlog.key?, hnone] at hheld
  have hnumbered := h.numbered
  have hnext : phase.numbers.take.2.next.toNat = phase.numbers.next.toNat + 1 :=
    Numbering.toNat_next_take (by omega)
  rw [Phase.answer_takeNumber]
  refine ⟨h.hosts.of_agreesButJournal (.refl _) _ _ _, ?_, h.stored, ?_⟩
  · rw [hrest, hnext]
    show phase.numbers.next.toNat + 1 + ((known i).left - 1 + rest) = total
    omega
  · rw [hnext, List.range_succ, List.map_append]
    have hbefore := ((hheld.symm.append_left keys).trans h.keys_perm).append_right
      [recordKey phase.numbers.next.toNat]
    refine List.Perm.trans ?_ hbefore
    refine ((hothers _).append_left keys).trans ?_
    exact List.perm_middle.trans (List.perm_append_singleton _ _).symm

/-- A client inserts the record whose number it holds. -/
theorem insert [Machine] (hfits : layout.fieldCount + 1 < UInt64.size) {number : UInt64}
    (hnumber : (known i).number = some number) {row : Row} (hnames : row.names = layout.schema) :
    let call : StepCall := .workload (.perform (.insert (keyOf number) row))
    ∃ t keys, Accounts layout kind name keeper total
      (Function.update known i ((Backlog.loading w).next (known i) call (phase.answer w i call).1))
      (phase.answer w i call).2 t keys := by
  intro call
  obtain ⟨t', hinserts, hhosts⟩ := h.hosts.insert (w := w) i hfits hnames (keyOf number)
  obtain ⟨registry, -, hanswer⟩ := Phase.answer_perform w i phase (.insert (keyOf number) row)
  have hnumbers : (phase.answer w i call).2.numbers = phase.numbers := by rw [hanswer]
  cases houtcome : (phase.answer w i call).1 with
  | error failure =>
    rw [houtcome] at hinserts
    obtain rfl : t' = t := hinserts
    have hsame : Function.update known i (known i) = known := Function.update_eq_self i known
    exact ⟨t', keys, hsame.symm ▸ ⟨hhosts, hnumbers ▸ h.numbered, h.stored, hnumbers ▸ h.keys_perm⟩⟩
  | ok status =>
    rw [houtcome] at hinserts
    obtain rfl : t' = t.insert (keyOf number) row := hinserts
    obtain ⟨rest, hsum, hrest⟩ := Backlog.exists_sum_left known i
    obtain ⟨others, hheld, hothers⟩ := exists_held_perm Backlog.key? known i
    rw [Backlog.key?, hnumber] at hheld
    refine ⟨_, keyOf number :: keys, hhosts, ?_, h.stored.insert _ _, ?_⟩
    · rw [hnumbers, hrest]
      exact hsum ▸ h.numbered
    · rw [hnumbers]
      refine List.Perm.trans ?_ h.keys_perm
      refine ((hothers _).append_left _).trans ?_
      exact List.perm_middle.symm.trans (hheld.symm.append_left keys)

/-- Whatever a client asks for beside its tasks. -/
theorem client [Machine] {call : ClientCall} (hcall : ∀ task worker, call ≠ .perform task worker) :
    Accounts layout kind name keeper total known (phase.answer w i (.client call)).2 t keys := by
  have hnumbers : (phase.answer w i (.client call)).2.numbers = phase.numbers :=
    Phase.numbers_answer_client hcall
  exact ⟨h.hosts.client i hcall, hnumbers ▸ h.numbered, h.stored, hnumbers ▸ h.keys_perm⟩

omit h in
/-- Every step of a client that loads. -/
theorem answer [Machine] (h : phase.Accounts w.layout kind name keeper total known t keys)
    (htotal : total < UInt64.size) (hfits : w.layout.fieldCount + 1 < UInt64.size) {call : StepCall}
    (hallows : (Backlog.loading w).allows (known i) call) :
    ∃ t keys, Accounts w.layout kind name keeper total
      (Function.update known i ((Backlog.loading w).next (known i) call (phase.answer w i call).1))
      (phase.answer w i call).2 t keys := by
  cases call with
  | assumeLoaded => exact hallows.elim
  | client call =>
    have hcall : ∀ task worker, call ≠ .perform task worker := by
      rintro task worker rfl
      exact hallows
    have hsame : Function.update known i (known i) = known := Function.update_eq_self i known
    exact ⟨t, keys, hsame.symm ▸ h.client hcall⟩
  | workload call =>
    cases call with
    | takeNumber => exact ⟨t, keys, h.take htotal hallows.1 hallows.2⟩
    | perform op =>
      obtain ⟨number, row, hnumber, rfl, hrow⟩ := hallows
      exact h.insert hfits hnumber hrow.names_eq

/-- All numbers are taken and all records inserted when nothing is left. -/
theorem finished (hdone : ∀ i, known i = ⟨0, none⟩) :
    phase.numbers.next.toNat = total ∧
      ∀ key : Bytes, t[key]?.isSome ↔ ∃ k < total, key = recordKey k := by
  have hnumbered := h.numbered
  simp only [hdone, Finset.sum_const_zero, Nat.add_zero] at hnumbered
  have hperm := h.keys_perm
  have hheld : held Backlog.key? known = [] := by simp [held, hdone, Backlog.key?]
  rw [hheld, List.append_nil, hnumbered] at hperm
  refine ⟨hnumbered, fun key => ?_⟩
  rw [h.stored key, hperm.mem_iff, List.mem_map]
  simp only [List.mem_range, eq_comm]

end Phase.Accounts

/-! ## Benchmarks -/

/-- Whether something is stored under a key. -/
def Contents.HasKey (key : Bytes) : Contents → Prop
  | keyValue entries => entries[key]?.isSome
  | tuple tuples => tuples[key]?.isSome

/-- An engine has the keys of the table it holds. -/
theorem Registry.HoldsTable.exists_stored {layout : ColumnLayout} {kind : EngineKind} {r : Registry}
    {t : Table} (h : r.HoldsTable layout kind t) {a : Adapter} (ha : a.IsBoundTo layout kind) :
    ∃ contents, a.stored r = some contents ∧ ∀ key, contents.HasKey key ↔ t[key]?.isSome := by
  obtain ⟨ea, rfl, hbinding⟩ := ha
  cases kind with
  | keyValue =>
    obtain ⟨mergesUpdates, hbinding⟩ := hbinding
    refine ⟨_, Adapter.stored_of_holdsRows hbinding h, fun key => ?_⟩
    rw [Contents.HasKey, Std.ExtTreeMap.getElem?_map, Option.isSome_map]
  | tuple =>
    refine ⟨_, Adapter.stored_of_holdsTuples hbinding h, fun key => ?_⟩
    rw [Contents.HasKey, Std.ExtTreeMap.getElem?_map, Option.isSome_map]

namespace Benchmark

variable {b : BenchmarkOptions} {w : Workload} {p : Properties} {kind : EngineKind}
  {keeper : Adapter} {r : Registry}

/-- The clients of a load phase. -/
def loader (b : BenchmarkOptions) (limiters : Fin n → Option RateLimiter) (i : Fin n) : Client :=
  client b .load (share b.workload.recordCount i n) i n (limiters i)

/-- What a load phase comes to: how many records were inserted, the number of the next one, and the
keys in the store. -/
structure Loaded (b : BenchmarkOptions) (keeper : Adapter) (counts : Fin n → Nat)
    (phase : Phase n) : Prop where
  counted : ∑ i, counts i = b.workload.recordCount
  numbered : phase.numbers.next.toNat = b.workload.recordCount
  stored : ∃ contents, keeper.stored phase.registry = some contents ∧
    ∀ key, contents.HasKey key ↔ ∃ k < b.workload.recordCount, key = recordKey k

/-- The start of a load phase, on a store that holds nothing. -/
theorem accounts_start {layout : ColumnLayout} {name : String} {ea : EngineAdapter}
    {phase : Phase n} (h : phase.Hosts layout kind name ea ∅) (hnumbers : phase.numbers = .start)
    (hn : 0 < n) (total : Nat) :
    phase.Accounts layout kind name ea total (fun i => ⟨share total i n, none⟩) ∅ [] where
  hosts := h
  numbered := by
    rw [hnumbers, sum_share total hn]
    exact Nat.zero_add total
  stored key := by simp
  keys_perm := by
    have hnone : held Backlog.key? (fun i : Fin n => ⟨share total i n, none⟩) = [] := by
      simp [held, Backlog.key?]
    rw [hnone, hnumbers]
    exact .refl _

/-- A load phase in which no client fails. -/
theorem loaded_of_run [Machine]
    (hbuild : (Workload.build (ι := .silent) b.workload).run.value = .ok w)
    (hcount : b.workload.recordCount < UInt64.size)
    (hkeeper : (Adapter.connect kind.memoryName).run (.standard (propertiesWith b p)) =
      (.ok keeper, r)) (hn : 0 < n) {adapters : Fin n → Adapter}
    (hadapters : ∀ i, ((Adapter.create kind.memoryName).run r).1 = .ok (adapters i))
    {limiters : Fin n → Option RateLimiter} {latch : Latch} {schedule : List (Fin n)}
    {counts : Fin n → Nat} {c : Crew stepCalls (Except Failure Nat) (Phase n) n}
    (hc : Caller.run w (fun i => Client.asCaller (loader b limiters i).runDetached)
      ⟨r, .start, latch, adapters, limiters⟩ schedule = c)
    (hdone : ∀ i, (c.members i).result? = some (.ok (counts i))) :
    Loaded b keeper counts c.shared := by
  obtain ⟨ea, rfl, hhosts⟩ := Phase.hosts_of_connect (Workload.describe_of_build hbuild p) hkeeper
    hadapters .start latch limiters
  have hfits : w.layout.fieldCount + 1 < UInt64.size := by
    rw [Workload.layout, (Workload.of_build hbuild).1]
    exact Workload.fieldCount_lt_of_build hbuild
  let Keeps (c : Crew stepCalls (Except Failure Nat) (Phase n) n) : Prop :=
    c.Conforms (Backlog.loading w)
      (fun i backlog result => ∀ count, result = .ok count →
        backlog = ⟨0, none⟩ ∧ count = share b.workload.recordCount i n)
      fun known c => ∃ t keys, c.shared.Accounts w.layout kind kind.memoryName ea
        b.workload.recordCount known t keys
  have hstart : Keeps (Crew.start
      (fun i => Caller.steps w (Client.asCaller (loader b limiters i).runDetached))
      ⟨r, .start, latch, adapters, limiters⟩) :=
    ⟨_, fun i => Backlog.follows_runDetached (c := loader b limiters i) rfl, ∅, [],
      accounts_start hhosts rfl hn _⟩
  have hrun : Keeps c := hc ▸ Crew.run_preserves
    (fun c i hc => hc.turn fun known call rest _ haccounts hpending hallows => by
      obtain ⟨t, keys, haccounts⟩ := haccounts
      rw [Crew.turn_of_pending_inr hpending]
      exact ⟨trivial, haccounts.answer hcount hfits hallows⟩) hstart schedule
  obtain ⟨known, hfollows, t, keys, haccounts⟩ := hrun
  have hends : ∀ i, known i = ⟨0, none⟩ ∧ counts i = share b.workload.recordCount i n := fun i =>
    (hfollows i).of_pending_inl (Program.pending_eq_inl_iff.2 (hdone i)) _ rfl
  obtain ⟨hnumbered, hkeys⟩ := haccounts.finished fun i => (hends i).1
  refine ⟨?_, hnumbered, ?_⟩
  · rw [← sum_share b.workload.recordCount hn]
    exact Finset.sum_congr rfl fun i _ => (hends i).2
  · have hhosts := haccounts.hosts
    obtain ⟨binding, hbinding⟩ := Option.isSome_iff_exists.1 hhosts.keeper_open
    obtain ⟨contents, hstored, hhas⟩ :=
      hhosts.held.exists_stored (hhosts.keeper_joins.bound binding hbinding)
    exact ⟨contents, hstored, fun key => (hhas key).trans (hkeys key)⟩

end Benchmark

end StoreBench
