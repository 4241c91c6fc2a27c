import StoreBench.Proofs.Ranges
import StoreBench.Proofs.Setup
/-!
# Draws stay in their domains

A rank is below the number of ranks whatever the formula of a skewed law comes to, since the result
is cut off and hashes are reduced. A length is between its bounds, and computing it in machine words
wraps nowhere, not even over the full range of lengths. So what ranks are drawn for is there: the
value of a pool, and the record of a workload.
-/

namespace StoreBench

open StoreBench.Random

namespace Skew

/-! ## Ranks -/

theorem Zipf.exists_ofTheta?_iff {n : Nat} {theta : Float} :
    (∃ law, ofTheta? n theta = .ok law) ↔ 0 < n ∧ 0.0 < theta ∧ theta < 1.0 := by
  unfold ofTheta?
  split
  · next hn => split <;> simp_all
  · next hn => simp [hn]

theorem exists_map_ok_iff {ε α β : Type} {f : α → β} {result : Except ε α} :
    (∃ b, f <$> result = .ok b) ↔ ∃ a, result = .ok a := by
  cases result <;> simp [Functor.map, Except.map]

/-- A mode names a chooser for every positive number of items, if it is a skewed one for every skew
between zero and one. -/
theorem RankChooser.exists_ofMode?_iff {mode : String} {n : Nat} {theta : Float} :
    (∃ ranks, ofMode? mode n theta = .ok ranks) ↔
      0 < n ∧ (mode = "uniform" ∨
        (mode = "zipfian" ∨ mode = "scrambled") ∧ 0.0 < theta ∧ theta < 1.0) := by
  generalize hresult : ofMode? mode n theta = result
  unfold ofMode? at hresult
  split at hresult <;> subst hresult
  · have huniform : (∃ ranks, uniform? n = .ok ranks) ↔ 0 < n := by
      unfold uniform?
      split <;> simp_all
    simp [huniform]
  · simp [exists_map_ok_iff, Zipf.exists_ofTheta?_iff]
  · simp [exists_map_ok_iff, Zipf.exists_ofTheta?_iff]
  · next huniform hzipfian hscrambled =>
    constructor
    · rintro ⟨ranks, hranks⟩
      cases hranks
    · rintro ⟨-, hmode | ⟨hmode | hmode, -⟩⟩
      · exact absurd hmode huniform
      · exact absurd hmode hzipfian
      · exact absurd hmode hscrambled

/-! ## Lengths -/

/-- A length computed from a drawn word in machine words of 32 and 64 bits, every step of which
comes to what it comes to with numbers of any size. -/
structure LengthChooser.InWords (min max : UInt32) (word : UInt64) (length : Nat) : Prop where
  width : (max - min).toUInt64.toNat = max.toNat - min.toNat
  range : ((max - min).toUInt64 + 1).toNat = max.toNat - min.toNat + 1
  offset : (word % ((max - min).toUInt64 + 1)).toUInt32.toNat =
    word.toNat % (max.toNat - min.toNat + 1)
  sum : (min + (word % ((max - min).toUInt64 + 1)).toUInt32).toNat =
    min.toNat + word.toNat % (max.toNat - min.toNat + 1)
  length_eq : length = (min + (word % ((max - min).toUInt64 + 1)).toUInt32).toNat

theorem LengthChooser.inWords {min max : UInt32} (h : min ≤ max) (word : UInt64) :
    InWords min max word (min.toNat + word.toNat % (max.toNat - min.toNat + 1)) := by
  have hle : min.toNat ≤ max.toNat := UInt32.le_iff_toNat_le.1 h
  have hmax : max.toNat < 2 ^ 32 := max.toNat_lt
  have hlt : word.toNat % (max.toNat - min.toNat + 1) < max.toNat - min.toNat + 1 :=
    Nat.mod_lt _ (Nat.succ_pos _)
  have hwidth : (max - min).toUInt64.toNat = max.toNat - min.toNat := by
    rw [UInt32.toNat_toUInt64, UInt32.toNat_sub_of_le _ _ h]
  have hrange : ((max - min).toUInt64 + 1).toNat = max.toNat - min.toNat + 1 := by
    rw [UInt64.toNat_add, hwidth, UInt64.toNat_one]
    omega
  have hoffset : (word % ((max - min).toUInt64 + 1)).toUInt32.toNat =
      word.toNat % (max.toNat - min.toNat + 1) := by
    rw [UInt64.toNat_toUInt32, UInt64.toNat_mod, hrange]
    omega
  have hsum : (min + (word % ((max - min).toUInt64 + 1)).toUInt32).toNat =
      min.toNat + word.toNat % (max.toNat - min.toNat + 1) := by
    rw [UInt32.toNat_add, hoffset]
    omega
  exact ⟨hwidth, hrange, hoffset, hsum, hsum.symm⟩

end Skew

open Skew

/-- Draws stay in their domains.

A chooser is there for every positive number of ranks and, if it is skewed, every skew between zero
and one, and it draws ranks below that number; the rank at a quantile is below the number of items
whatever the constants of the law are. Lengths between two bounds of 32 bits stay between them, and
no step of drawing one wraps. A pool that was constructed picks the value at a rank that it has, and
a workload that was built picks the key of a record below its number of records. -/
theorem draws_in_domain [Machine] :
    (∀ mode n theta, (∃ ranks, RankChooser.ofMode? mode n theta = .ok ranks) ↔
      0 < n ∧ (mode = "uniform" ∨
        (mode = "zipfian" ∨ mode = "scrambled") ∧ 0.0 < theta ∧ theta < 1.0)) ∧
    (∀ mode n theta ranks, RankChooser.ofMode? mode n theta = .ok ranks →
      ∀ s : Stream, (ranks.draw s).1 < n) ∧
    (∀ (law : Zipf) (u : Float), law.rankAt u < law.items) ∧
    (∀ min max : UInt32, min ≤ max →
      ∃ lengths, LengthChooser.uniform? min.toNat max.toNat = .ok lengths ∧ ∀ s : Stream,
        min.toNat ≤ (lengths.draw s).1 ∧ (lengths.draw s).1 ≤ max.toNat ∧
          LengthChooser.InWords min max (.ofNat s.nextWord.1) (lengths.draw s).1) ∧
    (∀ (σ : Type) [ChoosesLengths σ] n (length : σ) rate chooser zipfian s pool rest,
      (DistinctPool.construct n length rate chooser zipfian s).result = .ok (pool, rest) →
      ∀ (ι : Interface) (drawn : Stream), ∃ ranks value, chooser = some ranks ∧
        pool.values[(ranks.draw drawn).1]? = some value ∧
        pool.next (ι := ι) drawn =
          .note (.click .valueChosen) (.done (value, (ranks.draw drawn).2))) ∧
    ∀ (o : WorkloadOptions) (w : Workload),
      (Workload.build (ι := .silent) o).run.value = .ok w → ∀ worker : Worker,
        ∃ n < o.recordCount, w.drawKey.run.run worker =
          .done (.ok (recordKey n), { worker with stream := (w.keys.draw worker.stream).2 }) := by
  refine ⟨fun mode n theta => RankChooser.exists_ofMode?_iff, ?_, Zipf.rankAt_lt, ?_, ?_, ?_⟩
  · intro mode n theta ranks h s
    rw [← RankChooser.cardinality_ofMode? h]
    exact ranks.draw_lt_cardinality s
  · intro min max h
    have hle : min.toNat ≤ max.toNat := UInt32.le_iff_toNat_le.1 h
    refine ⟨.uniform min.toNat max.toNat hle, dif_pos hle, fun s => ?_⟩
    obtain ⟨hlow, hhigh⟩ := LengthChooser.draw_uniform_mem hle s
    refine ⟨hlow, hhigh, ?_⟩
    have hword : (UInt64.ofNat s.nextWord.1).toNat = s.nextWord.1 :=
      UInt64.toNat_ofNat_of_lt' s.nextWord_lt
    have hdrawn := LengthChooser.inWords h (.ofNat s.nextWord.1)
    rwa [hword] at hdrawn
  · intro σ _ n length rate chooser zipfian s pool rest h ι drawn
    obtain ⟨-, hchooser, -⟩ := DistinctPool.isMadeOf_of_construct h
    have hrank : (pool.chooser.draw drawn).1 < pool.values.size :=
      (pool.chooser.draw_lt_cardinality drawn).trans_le pool.domain
    exact ⟨pool.chooser, _, hchooser, Array.getElem?_eq_getElem hrank, rfl⟩
  · intro o w h worker
    refine ⟨(w.keys.draw worker.stream).1, ?_, rfl⟩
    rw [← (Workload.of_build h).1, ← w.keys_cardinality]
    exact w.keys.draw_lt_cardinality worker.stream

section

attribute [local instance] Machine.largest

/-- A skewed chooser of two ranks for a pool of three values, the full range of lengths, and a
workload of two records. -/
theorem draws_in_domain_small :
    ∃ ranks, RankChooser.ofMode? "zipfian" 2 0.5 = .ok ranks ∧
      (∀ s : Stream, (ranks.draw s).1 < 2) ∧
      (∃ pool rest, (DistinctPool.construct 3 (LengthChooser.constant 2) 0.5 (some ranks) false
          (.ofSeed 0)).result = .ok (pool, rest) ∧
        ∀ drawn, ∃ value, pool.values[(ranks.draw drawn).1]? = some value) ∧
      (∃ lengths, LengthChooser.uniform? 0 4294967295 = .ok lengths ∧ ∀ s : Stream,
        LengthChooser.InWords 0 4294967295 (.ofNat s.nextWord.1) (lengths.draw s).1) ∧
      ∃ w, (Workload.build (ι := .silent) { recordCount := 2, fieldCount := 1, filter :=
          { numDistinct := 1, valueLength := 1, selectionRate := 1.0 } }).run.value = .ok w ∧
        ∀ worker, ∃ n < 2, (w.drawKey.run.run worker) =
          .done (.ok (recordKey n), { worker with stream := (w.keys.draw worker.stream).2 }) := by
  obtain ⟨hmodes, hranks, -, hlengths, hpools, hkeys⟩ := draws_in_domain
  obtain ⟨ranks, hmode⟩ := (hmodes "zipfian" 2 0.5).2
    ⟨by decide, .inr ⟨.inl rfl, by decide +kernel, by decide +kernel⟩⟩
  have hconstructed : ((RankChooser.ofMode? "zipfian" 2 0.5).toOption.all fun ranks =>
      (DistinctPool.construct 3 (LengthChooser.constant 2) 0.5 (some ranks) false
        (.ofSeed 0)).result.toOption.any fun _ => true) = true := by decide +kernel
  rw [hmode] at hconstructed
  obtain ⟨⟨pool, rest⟩, hpool, -⟩ := exists_ok_of_any hconstructed
  have hbuilt : ((Workload.build (ι := .silent) { recordCount := 2, fieldCount := 1, filter :=
      { numDistinct := 1, valueLength := 1, selectionRate := 1.0 } }).run.value.toOption.any
        fun _ => true) = true := by decide +kernel
  obtain ⟨w, hbuild, -⟩ := exists_ok_of_any hbuilt
  refine ⟨ranks, hmode, hranks _ _ _ ranks hmode, ⟨pool, rest, hpool, fun drawn => ?_⟩, ?_,
    w, hbuild, hkeys _ w hbuild⟩
  · obtain ⟨_, value, hsame, hvalue, -⟩ := hpools _ _ _ _ _ _ _ pool rest hpool .silent drawn
    cases hsame
    exact ⟨value, hvalue⟩
  · obtain ⟨lengths, hlengths, hdraws⟩ := hlengths 0 4294967295 (by decide)
    exact ⟨lengths, hlengths, fun s => (hdraws s).2.2⟩

end

end StoreBench
