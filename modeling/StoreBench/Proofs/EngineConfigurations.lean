import StoreBench.EngineOptions
import StoreBench.Proofs.Literals
import StoreBench.Proofs.UniqueReadings
/-!
# Configurations of an engine

The options of an engine are resolved exactly when its storage directory is named and every other
option that is set spells a value of its type within its range. Each option then has the value it
spells, or its default. Nothing but the engine's own keys is looked at.
-/

namespace StoreBench

open Text

/-- Refuse with an error where something is wrong. -/
theorem refuse_bind {ε α : Type} {wrong : Prop} [Decidable wrong] (e : ε) (rest : Except ε α) :
    (if wrong then (throw e : Except ε PUnit) >>= fun _ => rest else rest) =
      ((if wrong then .error e else .ok ()) >>= fun (_ : Unit) => rest) := by
  split <;> rfl

theorem refuse_eq_ok_iff {ε : Type} {wrong : Prop} [Decidable wrong] {e : ε} {u : Unit} :
    (if wrong then Except.error e else .ok ()) = .ok u ↔ ¬wrong := by
  by_cases h : wrong <;> simp [h]

/-- Whatever error comes out has a property. -/
def FailsWith {ε α : Type} (x : Except ε α) (P : ε → Prop) : Prop := ∀ e, x = .error e → P e

theorem FailsWith.bind {ε α β : Type} {x : Except ε α} {g : α → Except ε β} {P : ε → Prop}
    (hx : FailsWith x P) (hg : ∀ a, x = .ok a → FailsWith (g a) P) : FailsWith (x >>= g) P := by
  intro e h
  cases hcase : x with
  | error e' =>
    rw [hcase] at h
    cases h
    exact hx e hcase
  | ok a =>
    rw [hcase] at h
    exact hg a hcase e h

theorem failsWith_refuse {ε : Type} {wrong : Prop} [Decidable wrong] {e : ε} {P : ε → Prop}
    (h : wrong → P e) : FailsWith (if wrong then .error e else .ok ()) P := by
  intro e' he
  by_cases hwrong : wrong
  · rw [if_pos hwrong] at he
    cases he
    exact h hwrong
  · rw [if_neg hwrong] at he
    cases he

namespace MergingStrategy

/-- The name of a strategy, in any case. -/
def Spells (text : String) (strategy : MergingStrategy) : Prop := lower text = strategy.name

theorem parse?_eq_ok_iff {text : String} {strategy : MergingStrategy} :
    parse? text = .ok strategy ↔ Spells text strategy := by
  unfold parse? Spells lower
  split <;> cases strategy <;> simp_all [name]

theorem not_spells_of_eq_error {text : String} {e : Misconfiguration}
    (h : parse? text = .error e) :
    (∀ strategy, ¬Spells text strategy) ∧ e = .unknownMergingStrategy text := by
  constructor
  · intro strategy hstrategy
    rw [parse?_eq_ok_iff.2 hstrategy] at h
    cases h
  · unfold parse? at h
    split at h <;> cases h
    rfl

end MergingStrategy

namespace Compression

/-- The lower-case name of a compression type. -/
def Spells (text : String) (compression : Compression) : Prop := text = lower compression.title

theorem parse?_eq_ok_iff {text : String} {compression : Compression} :
    parse? text = .ok compression ↔ Spells text compression := by
  constructor
  · intro h
    unfold parse? at h
    split at h <;> cases h <;> rfl
  · rintro rfl
    cases compression <;> rfl

theorem not_spells_of_eq_error {text : String} {e : Misconfiguration}
    (h : parse? text = .error e) :
    (∀ compression, ¬Spells text compression) ∧ e = .unknownCompression text := by
  constructor
  · intro compression hcompression
    rw [parse?_eq_ok_iff.2 hcompression] at h
    cases h
  · unfold parse? at h
    split at h <;> cases h
    rfl

end Compression

/-! ## Single options -/

namespace Properties

variable {α : Type} {p q : Properties} {key : String}

/-- The value under a key is spelled there, or it is the default where the key is not set. -/
def Takes (p : Properties) (key : String) (spells : String → α → Prop) (default a : α) : Prop :=
  match p.get? key with
  | none => a = default
  | some text => spells text a

/-- Whatever is set under the key spells an admissible value. -/
def Admits (p : Properties) (key : String) (accepts : String → Prop) : Prop :=
  ∀ text, p.get? key = some text → accepts text

/-- The text spells a value of a range. -/
def SpelledIn (spells : String → α → Prop) (range : α → Prop) (text : String) : Prop :=
  ∃ a, spells text a ∧ range a

/-- The text spells a value. -/
def Spelled (spells : String → α → Prop) : String → Prop := SpelledIn spells fun _ => True

/-- What is set under the key spells no value. -/
def Misspells (p : Properties) (key text : String) (spells : String → α → Prop) : Prop :=
  p.get? key = some text ∧ ∀ a, ¬spells text a

variable {spells : String → α → Prop} {parser : String → Option α} {type : NumberType}
  {default a : α} {e : Misconfiguration}

theorem parsed_eq_ok_iff (h : ∀ text a, parser text = some a ↔ spells text a) :
    p.parsed type parser key default = .ok a ↔ Takes p key spells default a := by
  unfold parsed Takes
  cases p.get? key with
  | none => simp [eq_comm]
  | some text =>
    simp only [← h]
    cases parser text <;> simp

theorem failsWith_parsed {P : Misconfiguration → Prop}
    (h : ∀ text a, parser text = some a ↔ spells text a)
    (hP : ∀ text, Misspells p key text spells → P (.badValue key text type.name)) :
    FailsWith (p.parsed type parser key default) P := by
  intro e he
  unfold parsed at he
  cases hkey : p.get? key with
  | none => simp [hkey] at he
  | some text =>
    cases hparse : parser text with
    | some a => simp [hkey, hparse] at he
    | none =>
      simp only [hkey, hparse] at he
      cases he
      refine hP text ⟨hkey, ?_⟩
      intro a ha
      rw [← h, hparse] at ha
      cases ha

/-- A value that is taken makes what is set under the key admissible. -/
theorem Takes.admits {range : α → Prop} (h : Takes p key spells default a) (ha : range a) :
    Admits p key (SpelledIn spells range) := by
  intro text htext
  rw [Takes, htext] at h
  exact ⟨a, h, ha⟩

/-- Where what is set under a key is admissible, and the default is, a value is taken. -/
theorem Admits.exists_takes {range : α → Prop} (h : Admits p key (SpelledIn spells range))
    (default : α) (hdefault : range default) : ∃ a, Takes p key spells default a ∧ range a := by
  unfold Takes
  cases hkey : p.get? key with
  | none => exact ⟨default, rfl, hdefault⟩
  | some text => exact h text hkey

theorem Misspells.not_spelledIn {text : String} (h : Misspells p key text spells)
    (range : α → Prop) : ¬SpelledIn spells range text := by
  rintro ⟨a, ha, -⟩
  exact h.2 a ha

theorem parsed_congr (h : p.get? key = q.get? key) :
    p.parsed type parser key default = q.parsed type parser key default := by
  rw [parsed, parsed, h]

theorem bool_congr {default : Bool} (h : p.get? key = q.get? key) :
    p.bool key default = q.bool key default := by
  rw [bool, bool, h]

theorem unsigned_eq_ok_iff {bits default n : Nat} : p.unsigned bits key default = .ok n ↔
    Takes p key (SpellsUnsigned bits) default n :=
  parsed_eq_ok_iff fun _ _ => parseUnsigned?_eq_some_iff

theorem signed_eq_ok_iff {bits : Nat} {default n : Int} : p.signed bits key default = .ok n ↔
    Takes p key (SpellsSigned bits) default n :=
  parsed_eq_ok_iff fun _ _ => parseSigned?_eq_some_iff

theorem float_eq_ok_iff {default x : Float} : p.float key default = .ok x ↔
    Takes p key SpellsFloat default x :=
  parsed_eq_ok_iff fun _ _ => parseFloat?_eq_some_iff

theorem bool_eq_ok_iff {default b : Bool} : p.bool key default = .ok b ↔
    Takes p key SpellsBool default b := by
  unfold bool Takes
  cases p.get? key with
  | none => simp [eq_comm]
  | some text =>
    simp only [← parseBool?_eq_some_iff]
    cases parseBool? text <;> simp

theorem failsWith_bool {default : Bool} {P : Misconfiguration → Prop}
    (hP : ∀ text, Misspells p key text SpellsBool → P (.notBoolean key text)) :
    FailsWith (p.bool key default) P := by
  intro e he
  unfold bool at he
  cases hkey : p.get? key with
  | none => simp [hkey] at he
  | some text =>
    cases hparse : parseBool? text with
    | some b => simp [hkey, hparse] at he
    | none =>
      simp only [hkey, hparse] at he
      cases he
      refine hP text ⟨hkey, ?_⟩
      intro b hb
      rw [← parseBool?_eq_some_iff, hparse] at hb
      cases hb

end Properties

namespace EngineOptions

open Properties

variable {p q : Properties} {engine : String} {o : EngineOptions} {e : Misconfiguration}

section Optional

variable {α : Type} {key : String} {spells : String → α → Prop}
  {parser : String → Except Misconfiguration α} {default a : α}

theorem optional_eq_ok_iff (h : ∀ text a, parser text = .ok a ↔ spells text a) :
    optional p key parser default = .ok a ↔ Takes p key spells default a := by
  unfold optional Takes
  cases p.get? key with
  | none => simp [eq_comm]
  | some text => exact h text a

theorem failsWith_optional {P : Misconfiguration → Prop}
    (hP : ∀ text e, p.get? key = some text → parser text = .error e → P e) :
    FailsWith (optional p key parser default) P := by
  intro e he
  unfold optional at he
  cases hkey : p.get? key with
  | none => simp [hkey] at he
  | some text =>
    rw [hkey] at he
    exact hP text e hkey he

theorem optional_congr (h : p.get? key = q.get? key) :
    optional p key parser default = optional q key parser default := by
  rw [optional, optional, h]

end Optional

/-! ## All options -/

/-- The options of an engine are resolved from its properties. -/
structure Resolves (p : Properties) (engine : String) (o : EngineOptions) : Prop where
  storageDir :
    (p.get? (engine ++ ".storage_dir")).or (p.get? (engine ++ ".dbname")) = some o.storageDir
  storageDir_ne : o.storageDir ≠ ""
  mergingStrategy : Takes p (engine ++ "." ++ "merging_strategy") MergingStrategy.Spells .elastic
    o.mergingStrategy
  compression : Takes p (engine ++ "." ++ "compression") Compression.Spells .no o.compression
  falsePositive : Takes p (engine ++ "." ++ "false_positive") SpellsFloat 0.01 o.falsePositive
  falsePositive_range : 0.0 < o.falsePositive ∧ o.falsePositive < 1.0
  memtableMaxSize : Takes p (engine ++ "." ++ "memtable_max_size") (SpellsUnsigned 64) 1048576
    o.memtableMaxSize
  level0MaxSize : Takes p (engine ++ "." ++ "level_0_max_size") (SpellsUnsigned 64) 536870912
    o.level0MaxSize
  readBufferSize : Takes p (engine ++ "." ++ "read_buffer_size") (SpellsUnsigned 64) 1048576
    o.readBufferSize
  writeBufferSize : Takes p (engine ++ "." ++ "write_buffer_size") (SpellsUnsigned 64) 1048576
    o.writeBufferSize
  compactionThreads : Takes p (engine ++ "." ++ "num_of_compaction_thread") (SpellsUnsigned 32) 16
    o.compactionThreads
  maxWorkerThreads : Takes p (engine ++ "." ++ "max_worker_thread") (SpellsUnsigned 32) 16
    o.maxWorkerThreads
  maxLevel : Takes p (engine ++ "." ++ "max_level") (SpellsUnsigned 32) 5 o.maxLevel
  levelSizeRatio : Takes p (engine ++ "." ++ "level_size_ratio") (SpellsUnsigned 32) 10
    o.levelSizeRatio
  blockSize : Takes p (engine ++ "." ++ "block_size") (SpellsUnsigned 64) 4096 o.blockSize
  destroy : Takes p (engine ++ "." ++ "destroy") SpellsBool false o.destroy
  maxBackgroundJobs : Takes p (engine ++ "." ++ "max_background_jobs") (SpellsSigned 32) 0
    o.maxBackgroundJobs
  maxOpenFiles : Takes p (engine ++ "." ++ "max_open_files") (SpellsSigned 32) (-1) o.maxOpenFiles
  targetFileSizeBase : Takes p (engine ++ "." ++ "target_file_size_base") (SpellsUnsigned 64) 0
    o.targetFileSizeBase
  useDirectReads : Takes p (engine ++ "." ++ "use_direct_reads") SpellsBool false o.useDirectReads
  useDirectIo : Takes p (engine ++ "." ++ "use_direct_io_for_flush_compaction") SpellsBool false
    o.useDirectIoForFlushCompaction
  increaseParallelism : Takes p (engine ++ "." ++ "increase_parallelism") SpellsBool false
    o.increaseParallelism
  maxLevel_pos : 1 ≤ o.maxLevel
  levelSizeRatio_ge : 2 ≤ o.levelSizeRatio
  blockSize_pos : 1 ≤ o.blockSize

theorem storageDirOf_eq_iff {dir : String} (hdir : dir ≠ "") : storageDirOf p engine = dir ↔
    (p.get? (engine ++ ".storage_dir")).or (p.get? (engine ++ ".dbname")) = some dir := by
  unfold storageDirOf
  cases (p.get? (engine ++ ".storage_dir")).or (p.get? (engine ++ ".dbname")) with
  | none => simpa using hdir.symm
  | some dir' => simp

theorem ofProperties?_eq_ok_iff : ofProperties? p engine = .ok o ↔ Resolves p engine o := by
  unfold ofProperties?
  simp only [refuse_bind, refuse_eq_ok_iff, bind_eq_ok_iff, unsigned_eq_ok_iff, signed_eq_ok_iff,
    float_eq_ok_iff, bool_eq_ok_iff, optional_eq_ok_iff fun _ _ => MergingStrategy.parse?_eq_ok_iff,
    optional_eq_ok_iff fun _ _ => Compression.parse?_eq_ok_iff, exists_const]
  constructor
  · rintro ⟨hdir, strategy, hstrategy, compression, hcompression, fp, hfp, hrange,
      memtable, hmemtable, level0, hlevel0, readBuffer, hreadBuffer, writeBuffer, hwriteBuffer,
      threads, hthreads, workers, hworkers, maxLevel, hmaxLevel, ratio, hratio, block, hblock,
      destroy, hdestroy, jobs, hjobs, files, hfiles, target, htarget, reads, hreads, io, hio,
      parallel, hparallel, hlevels, hzero, ho⟩
    have hmaxLevel_pos : 1 ≤ maxLevel := by omega
    have hratio_ge : 2 ≤ ratio := by omega
    have hblock_pos : 1 ≤ block := by omega
    cases ho
    exact {
      storageDir := (storageDirOf_eq_iff hdir).1 rfl
      storageDir_ne := hdir
      mergingStrategy := hstrategy
      compression := hcompression
      falsePositive := hfp
      falsePositive_range := by simpa using hrange
      memtableMaxSize := hmemtable
      level0MaxSize := hlevel0
      readBufferSize := hreadBuffer
      writeBufferSize := hwriteBuffer
      compactionThreads := hthreads
      maxWorkerThreads := hworkers
      maxLevel := hmaxLevel
      levelSizeRatio := hratio
      blockSize := hblock
      destroy := hdestroy
      maxBackgroundJobs := hjobs
      maxOpenFiles := hfiles
      targetFileSizeBase := htarget
      useDirectReads := hreads
      useDirectIo := hio
      increaseParallelism := hparallel
      maxLevel_pos := hmaxLevel_pos
      levelSizeRatio_ge := hratio_ge
      blockSize_pos := hblock_pos }
  · intro h
    have hdir : storageDirOf p engine = o.storageDir :=
      (storageDirOf_eq_iff h.storageDir_ne).2 h.storageDir
    have hrange :
        ¬(!(decide (0.0 < o.falsePositive) && decide (o.falsePositive < 1.0))) = true := by
      simpa using h.falsePositive_range
    have hlevels : ¬(o.maxLevel = 0 ∨ o.levelSizeRatio < 2) := by
      have hlevel := h.maxLevel_pos
      have hratio := h.levelSizeRatio_ge
      omega
    have hzero : ¬o.blockSize = 0 := by
      have hblock := h.blockSize_pos
      omega
    rw [hdir]
    exact ⟨h.storageDir_ne, _, h.mergingStrategy, _, h.compression, _, h.falsePositive, hrange,
      _, h.memtableMaxSize, _, h.level0MaxSize, _, h.readBufferSize, _, h.writeBufferSize,
      _, h.compactionThreads, _, h.maxWorkerThreads, _, h.maxLevel, _, h.levelSizeRatio,
      _, h.blockSize, _, h.destroy, _, h.maxBackgroundJobs, _, h.maxOpenFiles,
      _, h.targetFileSizeBase, _, h.useDirectReads, _, h.useDirectIo, _, h.increaseParallelism,
      hlevels, hzero, rfl⟩

/-! ## Acceptance -/

/-- The options beside the storage directory, each with the texts it accepts. -/
def settings : List (String × (String → Prop)) :=
  [("merging_strategy", Spelled MergingStrategy.Spells),
    ("compression", Spelled Compression.Spells),
    ("false_positive", SpelledIn SpellsFloat fun x => 0.0 < x ∧ x < 1.0),
    ("memtable_max_size", Spelled (SpellsUnsigned 64)),
    ("level_0_max_size", Spelled (SpellsUnsigned 64)),
    ("read_buffer_size", Spelled (SpellsUnsigned 64)),
    ("write_buffer_size", Spelled (SpellsUnsigned 64)),
    ("num_of_compaction_thread", Spelled (SpellsUnsigned 32)),
    ("max_worker_thread", Spelled (SpellsUnsigned 32)),
    ("max_level", SpelledIn (SpellsUnsigned 32) fun n => 1 ≤ n),
    ("level_size_ratio", SpelledIn (SpellsUnsigned 32) fun n => 2 ≤ n),
    ("block_size", SpelledIn (SpellsUnsigned 64) fun n => 1 ≤ n),
    ("destroy", Spelled SpellsBool),
    ("max_background_jobs", Spelled (SpellsSigned 32)),
    ("max_open_files", Spelled (SpellsSigned 32)),
    ("target_file_size_base", Spelled (SpellsUnsigned 64)),
    ("use_direct_reads", Spelled SpellsBool),
    ("use_direct_io_for_flush_compaction", Spelled SpellsBool),
    ("increase_parallelism", Spelled SpellsBool)]

/-- Under its newer or its older key the storage directory is named. -/
def NamesStorage (p : Properties) (engine : String) : Prop :=
  ∃ dir, (p.get? (engine ++ ".storage_dir")).or (p.get? (engine ++ ".dbname")) = some dir ∧
    dir ≠ ""

theorem Resolves.admits (h : Resolves p engine o) :
    ∀ option ∈ settings, Admits p (engine ++ "." ++ option.1) option.2 := by
  simp only [settings, List.forall_mem_cons]
  exact ⟨h.mergingStrategy.admits trivial, h.compression.admits trivial,
    h.falsePositive.admits h.falsePositive_range, h.memtableMaxSize.admits trivial,
    h.level0MaxSize.admits trivial, h.readBufferSize.admits trivial,
    h.writeBufferSize.admits trivial, h.compactionThreads.admits trivial,
    h.maxWorkerThreads.admits trivial, h.maxLevel.admits h.maxLevel_pos,
    h.levelSizeRatio.admits h.levelSizeRatio_ge, h.blockSize.admits h.blockSize_pos,
    h.destroy.admits trivial, h.maxBackgroundJobs.admits trivial, h.maxOpenFiles.admits trivial,
    h.targetFileSizeBase.admits trivial, h.useDirectReads.admits trivial,
    h.useDirectIo.admits trivial, h.increaseParallelism.admits trivial, by simp⟩

theorem exists_resolves (hstorage : NamesStorage p engine)
    (h : ∀ option ∈ settings, Admits p (engine ++ "." ++ option.1) option.2) :
    ∃ o, Resolves p engine o := by
  obtain ⟨dir, hdir, hne⟩ := hstorage
  simp only [settings, List.forall_mem_cons] at h
  obtain ⟨hstrategy, hcompression, hfp, hmemtable, hlevel0, hreadBuffer, hwriteBuffer, hthreads,
    hworkers, hmaxLevel, hratio, hblock, hdestroy, hjobs, hfiles, htarget, hreads, hio, hparallel,
    -⟩ := h
  have hrange : 0.0 < (0.01 : Float) ∧ (0.01 : Float) < 1.0 := by decide
  obtain ⟨strategy, hstrategy, -⟩ := hstrategy.exists_takes .elastic trivial
  obtain ⟨compression, hcompression, -⟩ := hcompression.exists_takes .no trivial
  obtain ⟨fp, hfp, hrange⟩ := hfp.exists_takes 0.01 hrange
  obtain ⟨memtable, hmemtable, -⟩ := hmemtable.exists_takes 1048576 trivial
  obtain ⟨level0, hlevel0, -⟩ := hlevel0.exists_takes 536870912 trivial
  obtain ⟨readBuffer, hreadBuffer, -⟩ := hreadBuffer.exists_takes 1048576 trivial
  obtain ⟨writeBuffer, hwriteBuffer, -⟩ := hwriteBuffer.exists_takes 1048576 trivial
  obtain ⟨threads, hthreads, -⟩ := hthreads.exists_takes 16 trivial
  obtain ⟨workers, hworkers, -⟩ := hworkers.exists_takes 16 trivial
  obtain ⟨maxLevel, hmaxLevel, hlevel⟩ := hmaxLevel.exists_takes 5 (by decide)
  obtain ⟨ratio, hratio, htwo⟩ := hratio.exists_takes 10 (by decide)
  obtain ⟨block, hblock, hpos⟩ := hblock.exists_takes 4096 (by decide)
  obtain ⟨destroy, hdestroy, -⟩ := hdestroy.exists_takes false trivial
  obtain ⟨jobs, hjobs, -⟩ := hjobs.exists_takes 0 trivial
  obtain ⟨files, hfiles, -⟩ := hfiles.exists_takes (-1) trivial
  obtain ⟨target, htarget, -⟩ := htarget.exists_takes 0 trivial
  obtain ⟨reads, hreads, -⟩ := hreads.exists_takes false trivial
  obtain ⟨io, hio, -⟩ := hio.exists_takes false trivial
  obtain ⟨parallel, hparallel, -⟩ := hparallel.exists_takes false trivial
  exact ⟨⟨dir, strategy, memtable, level0, readBuffer, writeBuffer, threads, workers, fp, maxLevel,
    ratio, block, compression, destroy, jobs, files, target, reads, io, parallel⟩,
    { storageDir := hdir
      storageDir_ne := hne
      mergingStrategy := hstrategy
      compression := hcompression
      falsePositive := hfp
      falsePositive_range := hrange
      memtableMaxSize := hmemtable
      level0MaxSize := hlevel0
      readBufferSize := hreadBuffer
      writeBufferSize := hwriteBuffer
      compactionThreads := hthreads
      maxWorkerThreads := hworkers
      maxLevel := hmaxLevel
      levelSizeRatio := hratio
      blockSize := hblock
      destroy := hdestroy
      maxBackgroundJobs := hjobs
      maxOpenFiles := hfiles
      targetFileSizeBase := htarget
      useDirectReads := hreads
      useDirectIo := hio
      increaseParallelism := hparallel
      maxLevel_pos := hlevel
      levelSizeRatio_ge := htwo
      blockSize_pos := hpos }⟩

/-! ## Rejection -/

/-- What is set for an option is not accepted. -/
def Rejects (p : Properties) (engine name text : String) : Prop :=
  ∃ option ∈ settings, option.1 = name ∧ p.get? (engine ++ "." ++ name) = some text ∧
    ¬option.2 text

/-- The error is about an option of the engine that is not accepted. -/
inductive Blames (p : Properties) (engine : String) : Misconfiguration → Prop
  | storageDir : ¬NamesStorage p engine →
      Blames p engine (.noStorageDirectory (engine ++ "." ++ "storage_dir"))
  | mergingStrategy {text : String} : Rejects p engine "merging_strategy" text →
      Blames p engine (.unknownMergingStrategy text)
  | compression {text : String} : Rejects p engine "compression" text →
      Blames p engine (.unknownCompression text)
  | literal {name text type : String} : Rejects p engine name text →
      Blames p engine (.badValue (engine ++ "." ++ name) text type)
  | boolean {name text : String} : Rejects p engine name text →
      Blames p engine (.notBoolean (engine ++ "." ++ name) text)
  | falsePositive {x : Float} : Takes p (engine ++ "." ++ "false_positive") SpellsFloat 0.01 x →
      ¬(0.0 < x ∧ x < 1.0) →
      Blames p engine (.falsePositiveRange (engine ++ "." ++ "false_positive") x)
  | levelShape {maxLevel ratio : Nat} :
      Takes p (engine ++ "." ++ "max_level") (SpellsUnsigned 32) 5 maxLevel →
      Takes p (engine ++ "." ++ "level_size_ratio") (SpellsUnsigned 32) 10 ratio →
      ¬(1 ≤ maxLevel ∧ 2 ≤ ratio) →
      Blames p engine
        (.levelShape (engine ++ "." ++ "max_level") (engine ++ "." ++ "level_size_ratio"))
  | blockSize : Takes p (engine ++ "." ++ "block_size") (SpellsUnsigned 64) 4096 0 →
      Blames p engine (.zeroBlockSize (engine ++ "." ++ "block_size"))

section Readers

variable {name : String}

theorem rejects_of_misspells {α : Type} {spells : String → α → Prop} {text : String}
    (range : α → Prop) (hname : (name, SpelledIn spells range) ∈ settings)
    (h : Misspells p (engine ++ "." ++ name) text spells) : Rejects p engine name text :=
  ⟨_, hname, rfl, h.1, h.not_spelledIn range⟩

theorem failsWith_unsigned {bits default : Nat} (range : Nat → Prop)
    (hname : (name, SpelledIn (SpellsUnsigned bits) range) ∈ settings) :
    FailsWith (p.unsigned bits (engine ++ "." ++ name) default) (Blames p engine) := by
  refine failsWith_parsed (fun _ _ => parseUnsigned?_eq_some_iff) ?_
  intro text h
  exact .literal (rejects_of_misspells range hname h)

theorem failsWith_signed {bits : Nat} {default : Int}
    (hname : (name, Spelled (SpellsSigned bits)) ∈ settings) :
    FailsWith (p.signed bits (engine ++ "." ++ name) default) (Blames p engine) := by
  refine failsWith_parsed (fun _ _ => parseSigned?_eq_some_iff) ?_
  intro text h
  exact .literal (rejects_of_misspells (fun _ => True) hname h)

theorem failsWith_flag {default : Bool} (hname : (name, Spelled SpellsBool) ∈ settings) :
    FailsWith (p.bool (engine ++ "." ++ name) default) (Blames p engine) := by
  refine failsWith_bool ?_
  intro text h
  exact .boolean (rejects_of_misspells (fun _ => True) hname h)

end Readers

/-- Whatever error refuses the options is about one that is not accepted. -/
theorem failsWith_ofProperties? (p : Properties) (engine : String) :
    FailsWith (ofProperties? p engine) (Blames p engine) := by
  unfold ofProperties?
  simp only [refuse_bind]
  refine (failsWith_refuse ?_).bind ?_
  · intro hdir
    refine .storageDir ?_
    rintro ⟨dir, hnamed, hne⟩
    exact hne (((storageDirOf_eq_iff hne).2 hnamed).symm.trans hdir)
  intro _ _
  refine (failsWith_optional ?_).bind ?_
  · intro text e htext he
    obtain ⟨hbad, rfl⟩ := MergingStrategy.not_spells_of_eq_error he
    exact .mergingStrategy (rejects_of_misspells (fun _ => True) (by simp [settings, Spelled])
      ⟨htext, hbad⟩)
  intro strategy _
  refine (failsWith_optional ?_).bind ?_
  · intro text e htext he
    obtain ⟨hbad, rfl⟩ := Compression.not_spells_of_eq_error he
    exact .compression (rejects_of_misspells (fun _ => True) (by simp [settings, Spelled])
      ⟨htext, hbad⟩)
  intro compression _
  refine (failsWith_parsed (fun _ _ => parseFloat?_eq_some_iff) ?_).bind ?_
  · intro text hbad
    exact .literal (rejects_of_misspells (fun x => 0.0 < x ∧ x < 1.0) (by simp [settings]) hbad)
  intro fp hfp
  refine (failsWith_refuse ?_).bind ?_
  · intro hrange
    refine .falsePositive (float_eq_ok_iff.1 hfp) ?_
    rintro ⟨hpos, hlt⟩
    simp [hpos, hlt] at hrange
  intro _ _
  refine (failsWith_unsigned (fun _ => True) (by simp [settings, Spelled])).bind ?_
  intro memtable _
  refine (failsWith_unsigned (fun _ => True) (by simp [settings, Spelled])).bind ?_
  intro level0 _
  refine (failsWith_unsigned (fun _ => True) (by simp [settings, Spelled])).bind ?_
  intro readBuffer _
  refine (failsWith_unsigned (fun _ => True) (by simp [settings, Spelled])).bind ?_
  intro writeBuffer _
  refine (failsWith_unsigned (fun _ => True) (by simp [settings, Spelled])).bind ?_
  intro threads _
  refine (failsWith_unsigned (fun _ => True) (by simp [settings, Spelled])).bind ?_
  intro workers _
  refine (failsWith_unsigned (fun n => 1 ≤ n) (by simp [settings])).bind ?_
  intro maxLevel hmaxLevel
  refine (failsWith_unsigned (fun n => 2 ≤ n) (by simp [settings])).bind ?_
  intro ratio hratio
  refine (failsWith_unsigned (fun n => 1 ≤ n) (by simp [settings])).bind ?_
  intro block hblock
  refine (failsWith_flag (by simp [settings])).bind ?_
  intro destroy _
  refine (failsWith_signed (by simp [settings])).bind ?_
  intro jobs _
  refine (failsWith_signed (by simp [settings])).bind ?_
  intro files _
  refine (failsWith_unsigned (fun _ => True) (by simp [settings, Spelled])).bind ?_
  intro target _
  refine (failsWith_flag (by simp [settings])).bind ?_
  intro reads _
  refine (failsWith_flag (by simp [settings])).bind ?_
  intro io _
  refine (failsWith_flag (by simp [settings])).bind ?_
  intro parallel _
  refine (failsWith_refuse ?_).bind ?_
  · intro hlevels
    exact .levelShape (unsigned_eq_ok_iff.1 hmaxLevel) (unsigned_eq_ok_iff.1 hratio) (by omega)
  intro _ _
  refine (failsWith_refuse ?_).bind ?_
  · intro hzero
    exact .blockSize (hzero ▸ unsigned_eq_ok_iff.1 hblock)
  intro _ _ e he
  cases he

/-! ## Independence -/

/-- The names of an engine's options. -/
def optionNames : List String := "storage_dir" :: "dbname" :: settings.map (·.1)

/-- Nothing but the engine's own options is looked at. -/
theorem ofProperties?_congr
    (h : ∀ name ∈ optionNames, p.get? (engine ++ "." ++ name) = q.get? (engine ++ "." ++ name)) :
    ofProperties? p engine = ofProperties? q engine := by
  simp only [optionNames, settings, List.map_cons, List.map_nil, List.forall_mem_cons] at h
  obtain ⟨hstorage, hdbname, hstrategy, hcompression, hfp, hmemtable, hlevel0, hreadBuffer,
    hwriteBuffer, hthreads, hworkers, hmaxLevel, hratio, hblock, hdestroy, hjobs, hfiles, htarget,
    hreads, hio, hparallel, -⟩ := h
  have hdir : storageDirOf p engine = storageDirOf q engine := by
    rw [String.append_assoc] at hstorage hdbname
    have hstorage' : p.get? (engine ++ ".storage_dir") = q.get? (engine ++ ".storage_dir") :=
      hstorage
    have hdbname' : p.get? (engine ++ ".dbname") = q.get? (engine ++ ".dbname") := hdbname
    rw [storageDirOf, storageDirOf, hstorage', hdbname']
  unfold ofProperties? unsigned signed float
  simp only [hdir, optional_congr hstrategy, optional_congr hcompression, parsed_congr hfp,
    parsed_congr hmemtable, parsed_congr hlevel0, parsed_congr hreadBuffer,
    parsed_congr hwriteBuffer, parsed_congr hthreads, parsed_congr hworkers,
    parsed_congr hmaxLevel, parsed_congr hratio, parsed_congr hblock, bool_congr hdestroy,
    parsed_congr hjobs, parsed_congr hfiles, parsed_congr htarget, bool_congr hreads,
    bool_congr hio, bool_congr hparallel]

/-- Two names without a point make one key only where the engines are the same. -/
theorem engine_eq_of_key_eq {other name name' : String} (hname : '.' ∉ name.toList)
    (hname' : '.' ∉ name'.toList) (h : other ++ "." ++ name = engine ++ "." ++ name') :
    other = engine := by
  have hlists : other.toList ++ '.' :: name.toList = engine.toList ++ '.' :: name'.toList := by
    simpa [String.toList_append] using congrArg String.toList h
  exact String.toList_injective (append_cons_inj_of_notMem_right hname hname' hlists).1

theorem no_point_of_mem_optionNames : ∀ name ∈ optionNames, '.' ∉ name.toList := by
  decide

/-- A configuration is accepted exactly when the storage directory is named and every other option
that is set spells a value of its type within its range; the options then have these values, and
their defaults where nothing is set. An error is about one of the options that is not accepted.
The answer depends on the engine's own options only, whatever is set for other engines. -/
theorem resolution_exact (p : Properties) (engine : String) :
    ((∃ o, ofProperties? p engine = .ok o) ↔ NamesStorage p engine ∧
      ∀ option ∈ settings, Admits p (engine ++ "." ++ option.1) option.2) ∧
    (∀ o, ofProperties? p engine = .ok o ↔ Resolves p engine o) ∧
    (∀ e, ofProperties? p engine = .error e → Blames p engine e) ∧
    (∀ q : Properties,
      (∀ name ∈ optionNames, p.get? (engine ++ "." ++ name) = q.get? (engine ++ "." ++ name)) →
        ofProperties? p engine = ofProperties? q engine) ∧
    ∀ other name value, other ≠ engine → name ∈ optionNames →
      ofProperties? (p.set (other ++ "." ++ name) value) engine = ofProperties? p engine := by
  refine ⟨⟨?_, ?_⟩, fun o => ofProperties?_eq_ok_iff, failsWith_ofProperties? p engine,
    fun q => ofProperties?_congr, ?_⟩
  · rintro ⟨o, ho⟩
    have h := ofProperties?_eq_ok_iff.1 ho
    exact ⟨⟨o.storageDir, h.storageDir, h.storageDir_ne⟩, h.admits⟩
  · rintro ⟨hstorage, hadmits⟩
    obtain ⟨o, ho⟩ := exists_resolves hstorage hadmits
    exact ⟨o, ofProperties?_eq_ok_iff.2 ho⟩
  · intro other name value hother hname
    apply ofProperties?_congr
    intro name' hname'
    rw [get?_set, if_neg]
    intro hkey
    exact hother (engine_eq_of_key_eq (no_point_of_mem_optionNames name hname)
      (no_point_of_mem_optionNames name' hname') hkey.symm)

end EngineOptions

end StoreBench
