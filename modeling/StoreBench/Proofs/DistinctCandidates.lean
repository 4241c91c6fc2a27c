import Mathlib.Data.Finset.Card
import Mathlib.Data.Finset.Image
import StoreBench.Skew.DistinctPool
/-!
# The first distinct candidates

The candidates for the values of a pool form one endless sequence: each is cut, at a length of its
own, from the run of printable blocks that goes on where the candidate before it ended. Collecting
keeps exactly the first candidates that differ from all before, as many as are wanted, unless the
patience runs out first on repetitions; it ends in either case. What a pool is asked to select
afterwards has no part in it, and a larger pool has the values of a smaller one.
-/

namespace StoreBench.Skew

open StoreBench.Random

/-! ## Printable bytes -/

/-- Between the space and 127, byte by byte. -/
def Printable (bytes : Bytes) : Prop := ∀ b ∈ bytes, 32 ≤ b ∧ b ≤ 127

theorem mask_le_of_mem_windows : ∀ window ∈ windows.toList, window.2 ≤ 95 := by
  simp [windows]

theorem printable_printableBlock (bits : UInt32) : Printable (printableBlock bits).toList := by
  intro b hb
  rw [printableBlock, Vector.toList_map, List.mem_map] at hb
  obtain ⟨window, hwindow, rfl⟩ := hb
  have hmask : window.2.toNat ≤ 95 := UInt32.le_iff_toNat_le.1 (mask_le_of_mem_windows _ hwindow)
  have hkept : ((bits >>> window.1) &&& window.2).toNat ≤ 95 := by
    rw [UInt32.toNat_and]
    exact Nat.and_le_right.trans hmask
  have hvalue : (((bits >>> window.1) &&& window.2).toUInt8 + 32).toNat =
      ((bits >>> window.1) &&& window.2).toNat + 32 := by
    rw [UInt8.toNat_add, UInt32.toNat_toUInt8]
    simp only [UInt8.reduceToNat]
    omega
  rw [UInt8.le_iff_toNat_le, UInt8.le_iff_toNat_le, hvalue]
  simp only [UInt8.reduceToNat]
  omega

theorem printable_drawBlocks (count : Nat) (s : Stream) :
    Printable ((drawBlocks count s).1.flatMap Vector.toList) := by
  induction count generalizing s with
  | zero => simp [drawBlocks, Printable]
  | succ count ih =>
    intro b hb
    simp only [drawBlocks, List.flatMap_cons, List.mem_append] at hb
    exact hb.elim (printable_printableBlock _ b) (ih _ b)

theorem head_cons_tail (block : Block) : block.head :: block.toList.tail = block.toList := by
  obtain ⟨⟨bytes⟩, hlength⟩ := block
  cases bytes with
  | nil => cases hlength
  | cons => rfl

theorem Ascending.nodup {values : List Bytes} (h : Ascending values) : values.Nodup := by
  refine h.imp fun hlt => ?_
  rintro rfl
  exact List.lt_irrefl _ hlt

namespace Candidates

variable {σ : Type}

/-! ## The sequence of candidates -/

/-- Cut `count` bytes off what is left followed by as many whole blocks as it takes. -/
def cut (count : Nat) (c : Candidates σ) : Bytes × Candidates σ :=
  let drawn := drawBlocks ((count - c.left.length + 5) / 6) c.stream
  let run := c.left ++ drawn.1.flatMap Vector.toList
  (run.take count, ⟨c.length, run.drop count, drawn.2⟩)

/-- Taking byte after byte cuts them off in one piece. -/
theorem take_eq_cut (count : Nat) (c : Candidates σ) : c.take count = c.cut count := by
  induction count generalizing c with
  | zero => simp [cut, drawBlocks]
  | succ count ih =>
    obtain ⟨length, left, stream⟩ := c
    rw [take_succ, ih]
    cases left with
    | nil =>
      have hblocks : (count + 1 + 5) / 6 = (count - 5 + 5) / 6 + 1 := by omega
      have hlength : (drawBlock stream).1.toList.tail.length = 5 := by simp
      simp only [cut, takeByte, List.length_nil, Nat.sub_zero, hlength, hblocks, drawBlocks,
        List.nil_append, List.flatMap_cons]
      rw [← head_cons_tail (drawBlock stream).1]
      simp
    | cons b left => simp [cut, takeByte]

theorem printable_cut {c : Candidates σ} (h : Printable c.left) (count : Nat) :
    Printable (c.cut count).1 ∧ Printable (c.cut count).2.left := by
  have hrun : Printable (c.left ++
      (drawBlocks ((count - c.left.length + 5) / 6) c.stream).1.flatMap Vector.toList) := by
    intro b hb
    exact (List.mem_append.1 hb).elim (h b) (printable_drawBlocks _ _ b)
  exact ⟨fun b hb => hrun b (List.mem_of_mem_take hb), fun b hb => hrun b (List.mem_of_mem_drop hb)⟩

/-- The candidates of a stream, no block of which has been drawn. -/
abbrev ofStream (length : σ) (s : Stream) : Candidates σ := ⟨length, [], s⟩

variable [ChoosesLengths σ]

/-- Draw a length and cut so many bytes. -/
def draw (c : Candidates σ) : Bytes × Candidates σ :=
  let drawn := ChoosesLengths.choose c.length c.stream
  cut drawn.1 { c with length := drawn.2.1, stream := drawn.2.2 }

theorem next_eq_draw (c : Candidates σ) : c.next = c.draw := take_eq_cut _ _

/-- The sequence without its first `i` candidates. -/
def after (c : Candidates σ) (i : Nat) : Candidates σ := (fun c => c.draw.2)^[i] c

/-- The candidate behind the first `i`. -/
def nth (c : Candidates σ) (i : Nat) : Bytes := (c.after i).draw.1

variable (c : Candidates σ)

@[simp] theorem after_zero : c.after 0 = c := rfl

theorem after_add (i j : Nat) : c.after (i + j) = (c.after i).after j := by
  rw [after, Nat.add_comm, Function.iterate_add_apply]
  rfl

theorem nth_after (i j : Nat) : (c.after i).nth j = c.nth (i + j) := by
  rw [nth, nth, after_add]

variable {c}

theorem printable_draw (h : Printable c.left) :
    Printable c.draw.1 ∧ Printable c.draw.2.left := by
  let drawn := ChoosesLengths.choose c.length c.stream
  exact printable_cut (c := ⟨drawn.2.1, c.left, drawn.2.2⟩) h drawn.1

theorem printable_nth (h : Printable c.left) (i : Nat) : Printable (c.nth i) := by
  induction i generalizing c with
  | zero => exact (printable_draw h).1
  | succ i ih => exact ih (printable_draw h).2

/-! ## Repetitions -/

variable (c)

/-- The first `m` candidates. -/
def seen (m : Nat) : Finset Bytes := (Finset.range m).image c.nth

/-- Candidate `i` differs from all before. -/
def Fresh (i : Nat) : Prop := c.nth i ∉ c.seen i

/-- From `start` on, the candidates are repetitions for as long as patience lasts. -/
def Stalls (start : Nat) : Prop := ∀ i < patience, ¬ c.Fresh (start + i)

/-- Patience does not run out on the first `m` candidates. -/
def Patient (m : Nat) : Prop := ∀ start, start + patience ≤ m → ¬ c.Stalls start

/-- The first `m` candidates have `n` distinct ones among them, and the patience lasts that far. -/
structure Reaches (n m : Nat) : Prop where
  card_seen : (c.seen m).card = n
  patient : c.Patient m

variable {c} {m n : Nat}

theorem mem_seen {v : Bytes} : v ∈ c.seen m ↔ ∃ i < m, c.nth i = v := by simp [seen]

theorem seen_mono {m' : Nat} (h : m ≤ m') : c.seen m ⊆ c.seen m' :=
  Finset.image_mono _ (Finset.range_mono h)

theorem seen_succ (m : Nat) : c.seen (m + 1) = insert (c.nth m) (c.seen m) := by
  rw [seen, Finset.range_add_one, Finset.image_insert, seen]

theorem card_seen_succ (h : c.Fresh m) : (c.seen (m + 1)).card = (c.seen m).card + 1 := by
  rw [seen_succ, Finset.card_insert_of_notMem h]

theorem lt_of_card_seen_lt {m' : Nat} (h : (c.seen m).card < (c.seen m').card) : m < m' := by
  by_contra hle
  exact absurd h (Nat.not_lt.2 (Finset.card_le_card (seen_mono (Nat.not_lt.1 hle))))

/-- Candidates that are known already do not show in what was seen. -/
theorem seen_add {k : Nat} (h : ∀ i < k, c.nth (m + i) ∈ c.seen m) : c.seen (m + k) = c.seen m := by
  induction k with
  | zero => rfl
  | succ k ih =>
    have hseen := ih fun i hi => h i (Nat.lt_succ_of_lt hi)
    rw [← Nat.add_assoc, seen_succ, hseen, Finset.insert_eq_self.2 (h k (Nat.lt_succ_self k))]

theorem not_fresh_of_mem_seen {i : Nat} (h : c.nth (m + i) ∈ c.seen m) : ¬ c.Fresh (m + i) :=
  fun hfresh => hfresh (seen_mono (Nat.le_add_right m i) h)

/-- A number of distinct candidates is reached on one set of them only. -/
theorem Reaches.seen_eq {m' : Nat} (h : c.Reaches n m) (h' : c.Reaches n m') :
    c.seen m = c.seen m' := by
  have hcard := h.card_seen.trans h'.card_seen.symm
  rcases Nat.le_total m m' with hle | hle
  · exact Finset.eq_of_subset_of_card_le (seen_mono hle) hcard.ge
  · exact (Finset.eq_of_subset_of_card_le (seen_mono hle) hcard.le).symm

/-- The patience runs out among the first `m` candidates, before `n` distinct ones are seen. -/
structure GivesUp (c : Candidates σ) (n m : Nat) : Prop where
  card_seen_lt : (c.seen m).card < n
  stalls : ∃ start, start + patience ≤ m ∧ c.Stalls start

theorem GivesUp.not_reaches {m' : Nat} (h : c.GivesUp n m) : ¬ c.Reaches n m' := by
  intro h'
  obtain ⟨start, hle, hstalls⟩ := h.stalls
  -- More distinct candidates take more candidates, the stalling ones among them.
  have hlater : m < m' := by
    apply lt_of_card_seen_lt (c := c)
    rw [h'.card_seen]
    exact h.card_seen_lt
  exact h'.patient start (by omega) hstalls

theorem Reaches.subset {m' : Nat} (h : c.Reaches n m) (h' : c.Reaches (n + 1) m') :
    c.seen m ⊆ c.seen m' := by
  have hlater : m < m' := by
    apply lt_of_card_seen_lt (c := c)
    rw [h.card_seen, h'.card_seen]
    exact Nat.lt_succ_self n
  exact seen_mono hlater.le

/-! ## Collecting -/

theorem nextFresh_succ (known : SortedSet) (limit : Nat) (c : Candidates σ) :
    nextFresh known (limit + 1) c =
      if c.nth 0 ∈ known then
        let search := nextFresh known limit (c.after 1)
        { search with repeats := search.repeats + 1 }
      else ⟨some (c.nth 0), 0, c.after 1⟩ := by
  rw [nextFresh, next_eq_draw]
  rfl

/-- Looking for a candidate that is not known ends at the first one, if patience lasts until
then. -/
theorem nextFresh_spec (known : SortedSet) (limit : Nat) (c : Candidates σ) :
    (∃ k < limit, nextFresh known limit c = ⟨some (c.nth k), k, c.after (k + 1)⟩ ∧
      c.nth k ∉ known ∧ ∀ i < k, c.nth i ∈ known) ∨
    (nextFresh known limit c = ⟨none, limit, c.after limit⟩ ∧ ∀ i < limit, c.nth i ∈ known) := by
  induction limit generalizing c with
  | zero => exact .inr ⟨rfl, fun i hi => absurd hi (Nat.not_lt_zero i)⟩
  | succ limit ih =>
    rw [nextFresh_succ]
    by_cases hmem : c.nth 0 ∈ known
    · have hall {k : Nat} (h : ∀ i < k, (c.after 1).nth i ∈ known) :
          ∀ i < k + 1, c.nth i ∈ known := by
        rintro (_ | i) hi
        · exact hmem
        · exact h i (Nat.lt_of_succ_lt_succ hi)
      rw [if_pos hmem]
      rcases ih (c.after 1) with ⟨k, hk, hsearch, hnew, hold⟩ | ⟨hsearch, hold⟩
      · refine .inl ⟨k + 1, Nat.succ_lt_succ hk, ?_, hnew, hall hold⟩
        rw [hsearch]
        rfl
      · refine .inr ⟨?_, hall hold⟩
        rw [hsearch]
        rfl
    · rw [if_neg hmem]
      exact .inl ⟨0, Nat.succ_pos limit, rfl, hmem, fun i hi => absurd hi (Nat.not_lt_zero i)⟩

/-- The patience lasts up to a fresh candidate that comes in time. -/
theorem Patient.extend {k : Nat} (h : c.Patient m) (hlast : ∀ i, m = i + 1 → c.Fresh i)
    (hk : k < patience) (hfresh : c.Fresh (m + k)) : c.Patient (m + k + 1) := by
  intro start hle hstalls
  by_cases hend : start + patience ≤ m
  · exact h start hend hstalls
  · by_cases hstart : start < m
    · -- It would stall over the fresh candidate just before `m`.
      have hbefore := hstalls (m - 1 - start) (by omega)
      rw [show start + (m - 1 - start) = m - 1 by omega] at hbefore
      exact hbefore (hlast (m - 1) (by omega))
    · have hat := hstalls (m + k - start) (by omega)
      rw [show start + (m + k - start) = m + k by omega] at hat
      exact hat hfresh

/-- The known values are the first `m` candidates. -/
def Covers (c : Candidates σ) (known : SortedSet) (m : Nat) : Prop :=
  ∀ v, v ∈ known ↔ v ∈ c.seen m

section Covers

variable {known : SortedSet}

theorem covers_empty : c.Covers ∅ 0 := by
  intro v
  simp [seen]

theorem Covers.size (h : c.Covers known m) : known.size = (c.seen m).card := by
  have hnodup : known.toList.Nodup := Ascending.nodup known.toList_ascending
  have hset : known.toList.toFinset = c.seen m := by
    ext v
    rw [List.mem_toFinset, Std.ExtTreeSet.mem_toList, h v]
  rw [← hset, List.toFinset_card_of_nodup hnodup, known.length_toList]

theorem Covers.insert (h : c.Covers known m) : c.Covers (known.insert (c.nth m)) (m + 1) := by
  intro v
  rw [Std.ExtTreeSet.mem_insert, seen_succ, Finset.mem_insert, h v, Bytes.order_eq_eq_iff, eq_comm]

theorem Covers.congr {m' : Nat} (h : c.Covers known m) (hseen : c.seen m' = c.seen m) :
    c.Covers known m' := by
  intro v
  rw [hseen, h v]

/-- From the known values on, the next fresh candidate is found unless the sequence stalls. -/
theorem Covers.nextFresh_after (h : c.Covers known m) :
    (∃ k < patience, nextFresh known patience (c.after m) =
        ⟨some (c.nth (m + k)), k, c.after (m + k + 1)⟩ ∧
      c.Fresh (m + k) ∧ c.seen (m + k) = c.seen m) ∨
    (nextFresh known patience (c.after m) = ⟨none, patience, c.after (m + patience)⟩ ∧
      c.Stalls m ∧ c.seen (m + patience) = c.seen m) := by
  have hiff (i : Nat) : (c.after m).nth i ∈ known ↔ c.nth (m + i) ∈ c.seen m := by
    rw [nth_after, h]
  rcases nextFresh_spec known patience (c.after m) with
    ⟨k, hk, hsearch, hnew, hold⟩ | ⟨hsearch, hold⟩
  · have hseen : c.seen (m + k) = c.seen m := seen_add fun i hi => (hiff i).1 (hold i hi)
    rw [nth_after, ← after_add, ← Nat.add_assoc] at hsearch
    refine .inl ⟨k, hk, hsearch, ?_, hseen⟩
    rw [Fresh, hseen]
    exact mt (hiff k).2 hnew
  · rw [← after_add] at hsearch
    exact .inr ⟨hsearch, fun i hi => not_fresh_of_mem_seen ((hiff i).1 (hold i hi)),
      seen_add fun i hi => (hiff i).1 (hold i hi)⟩

end Covers

end Candidates

open Candidates

variable {σ : Type} [ChoosesLengths σ]

/-- Collecting goes on from the first `m` candidates to as many distinct ones more as are wanted,
or it gives up. -/
theorem collect_spec (c : Candidates σ) {wanted n m : Nat} {known : SortedSet}
    (hwanted : (c.seen m).card + wanted = n) (hknown : c.Covers known m) (hpatient : c.Patient m)
    (hlast : ∀ i, m = i + 1 → c.Fresh i) :
    ∃ m' ≤ m + wanted * patience, (collect wanted known (c.after m)).rest = c.after m' ∧
      match (collect wanted known (c.after m)).result with
      | .ok values => c.Reaches n m' ∧ ∀ v, v ∈ values ↔ v ∈ c.seen m'
      | .error found => c.GivesUp n m' ∧ found = (c.seen m').card := by
  induction wanted generalizing known m with
  | zero =>
    refine ⟨m, by omega, rfl, ⟨hwanted, hpatient⟩, fun v => ?_⟩
    rw [Std.ExtTreeSet.mem_toList, hknown v]
  | succ wanted ih =>
    rcases hknown.nextFresh_after with
      ⟨k, hk, hsearch, hfresh, hseen⟩ | ⟨hsearch, hstalls, hseen⟩
    · have hcard : (c.seen (m + k + 1)).card + wanted = n := by
        rw [card_seen_succ hfresh, hseen]
        omega
      obtain ⟨m', hle, hrest, hresult⟩ := ih hcard (hknown.congr hseen).insert
        (hpatient.extend hlast hk hfresh) (by rintro i hi; cases hi; exact hfresh)
      simp only [collect, hsearch]
      refine ⟨m', ?_, hrest, hresult⟩
      rw [Nat.succ_mul]
      omega
    · simp only [collect, hsearch]
      refine ⟨m + patience, ?_, rfl, ⟨?_, m, le_rfl, hstalls⟩, ?_⟩
      · rw [Nat.succ_mul]
        omega
      · rw [hseen]
        omega
      · rw [hknown.size, hseen]

/-- Collecting from nothing. -/
theorem collect_empty (c : Candidates σ) (n : Nat) :
    ∃ m ≤ n * patience, (collect n ∅ c).rest = c.after m ∧
      match (collect n ∅ c).result with
      | .ok values => c.Reaches n m ∧ ∀ v, v ∈ values ↔ v ∈ c.seen m
      | .error found => c.GivesUp n m ∧ found = (c.seen m).card := by
  have hpatient : c.Patient 0 := by
    intro start hle
    simp [patience] at hle
  simpa using collect_spec c (Nat.zero_add n) covers_empty hpatient (by simp)

/-! ## Pools -/

/-- The values of a pool, or how many of the `n` there are. -/
def generate (n : Nat) (length : σ) (s : Stream) : Except Error (List Bytes) :=
  (collect n ∅ (ofStream length s)).result.mapError fun found => .invalid (.tooFewValues n found)

/-- A pool of `n` values can select by the rate, the chooser and the kind of ranges. -/
def Accepts (n : Nat) (rate : Float) (chooser : Option RankChooser) (zipfian : Bool) : Prop :=
  0 < n ∧ (selectionRate? rate).isSome ∧ ∃ ranks, chooser = some ranks ∧ ranks.cardinality ≤ n ∧
    ∃ tail, DistinctPool.tail? n rate ranks zipfian = .ok tail

example : Accepts 1 1.0 (some (.uniform 1 (by decide))) false :=
  ⟨by decide, by decide +kernel, _, rfl, by decide, _, rfl⟩

/-- The pool is one that is constructed of `n` values, however it is to select. -/
def Constructs (n : Nat) (length : σ) (s : Stream) (pool : DistinctPool) : Prop :=
  ∃ rate chooser zipfian rest,
    (DistinctPool.construct n length rate chooser zipfian s).result = .ok (pool, rest)

variable {n : Nat} {length : σ} {s : Stream}

theorem construct_of_accepts {rate : Float} {chooser : Option RankChooser} {zipfian : Bool}
    (h : Accepts n rate chooser zipfian) :
    (DistinctPool.construct n length rate chooser zipfian s).result.map
      (fun constructed => constructed.1.values.toList) = generate n length s := by
  obtain ⟨hn, hrate, ranks, rfl, hranks, tail, htail⟩ := h
  obtain ⟨exact, hexact⟩ := Option.isSome_iff_exists.1 hrate
  unfold DistinctPool.construct generate
  rw [dif_pos hn]
  split
  case h_1 hnone => simp [hexact] at hnone
  case h_2 hnone => cases hnone
  case h_3 hsome =>
    cases hsome
    rw [dif_pos hranks]
    split
    case h_1 herror => rw [htail] at herror; cases herror
    case h_2 =>
      dsimp only
      split
      case h_1 hfound => rw [hfound]; rfl
      case h_2 hvalues => exact (congrArg (Except.mapError _) hvalues).symm

theorem accepts_of_construct {rate : Float} {chooser : Option RankChooser} {zipfian : Bool}
    {constructed : DistinctPool × Stream}
    (h : (DistinctPool.construct n length rate chooser zipfian s).result = .ok constructed) :
    Accepts n rate chooser zipfian := by
  unfold DistinctPool.construct at h
  split at h
  case isFalse => cases h
  case isTrue hn =>
    split at h
    case h_1 => cases h
    case h_2 => cases h
    case h_3 ranks hexact =>
      split at h
      case isFalse => cases h
      case isTrue hranks =>
        split at h
        case h_1 => cases h
        case h_2 tail htail =>
          exact ⟨hn, Option.isSome_iff_exists.2 ⟨_, hexact⟩, ranks, rfl, hranks, tail, htail⟩

theorem Constructs.generate_eq {pool : DistinctPool} (h : Constructs n length s pool) :
    generate n length s = .ok pool.values.toList := by
  obtain ⟨rate, chooser, zipfian, rest, h⟩ := h
  rw [← construct_of_accepts (accepts_of_construct h), h]
  rfl

theorem generate_of_ok {values : List Bytes} (h : generate n length s = .ok values) :
    ∃ m, (ofStream length s).Reaches n m ∧ Ascending values ∧
      ∀ v, v ∈ values ↔ v ∈ (ofStream length s).seen m := by
  obtain ⟨m, -, -, hresult⟩ := collect_empty (ofStream length s) n
  rw [generate] at h
  cases hcollect : (collect n ∅ (ofStream length s)).result with
  | error found => rw [hcollect] at h; cases h
  | ok collected =>
    rw [hcollect] at h hresult
    cases h
    exact ⟨m, hresult.1, (collect_ascending hcollect).1, hresult.2⟩

theorem generate_of_error {e : Error} (h : generate n length s = .error e) :
    ∃ found < n, e = .invalid (.tooFewValues n found) ∧
      ∀ m, ¬ (ofStream length s).Reaches n m := by
  obtain ⟨m, -, -, hresult⟩ := collect_empty (ofStream length s) n
  rw [generate] at h
  cases hcollect : (collect n ∅ (ofStream length s)).result with
  | ok collected => rw [hcollect] at h; cases h
  | error found =>
    rw [hcollect] at h hresult
    cases h
    obtain ⟨hgives, rfl⟩ := hresult
    exact ⟨_, hgives.card_seen_lt, rfl, fun _ => hgives.not_reaches⟩

/-- How the values of a pool of `n` come from the candidates: collecting ends, and it gives the
first `n` distinct ones in ascending order, or an error if patience does not last. A pool is
constructed of just these values, however it is to select, so they are among those of a larger
pool. -/
structure GeneratesFirst (n : Nat) (length : σ) (s : Stream) : Prop where
  ends : ∃ drawn ≤ n * patience,
    (collect n ∅ (ofStream length s)).rest = (ofStream length s).after drawn
  ok_iff : (∃ values, generate n length s = .ok values) ↔
    ∃ m, (ofStream length s).Reaches n m
  values : ∀ values m, generate n length s = .ok values → (ofStream length s).Reaches n m →
    (∀ v, v ∈ values ↔ v ∈ (ofStream length s).seen m) ∧
      Ascending values ∧ ∀ v ∈ values, Printable v
  otherwise : (¬∃ m, (ofStream length s).Reaches n m) →
    ∃ found < n, generate n length s = .error (.invalid (.tooFewValues n found))
  pool : ∀ rate chooser zipfian, Accepts n rate chooser zipfian →
    (DistinctPool.construct n length rate chooser zipfian s).result.map
      (fun constructed => constructed.1.values.toList) = generate n length s
  same : ∀ pool other, Constructs n length s pool → Constructs n length s other →
    pool.values = other.values
  larger : ∀ pool other, Constructs n length s pool → Constructs (n + 1) length s other →
    ∀ v ∈ pool.values, v ∈ other.values

/-- The values of a pool are exactly the first distinct candidates, unless patience runs out,
however their lengths are chosen. -/
theorem generates_first (n : Nat) (length : σ) (s : Stream) :
    GeneratesFirst n length s where
  ends := by
    obtain ⟨m, hle, hrest, -⟩ := collect_empty (ofStream length s) n
    exact ⟨m, hle, hrest⟩
  ok_iff := by
    refine ⟨fun ⟨values, h⟩ => ?_, fun ⟨m, hreaches⟩ => ?_⟩
    · obtain ⟨m, hreaches, -⟩ := generate_of_ok h
      exact ⟨m, hreaches⟩
    · cases h : generate n length s with
      | ok values => exact ⟨values, rfl⟩
      | error e =>
        obtain ⟨found, -, -, hnever⟩ := generate_of_error h
        exact absurd hreaches (hnever m)
  values values m h hreaches := by
    obtain ⟨m', hreaches', hascending, hmem⟩ := generate_of_ok h
    rw [hreaches'.seen_eq hreaches] at hmem
    refine ⟨hmem, hascending, fun v hv => ?_⟩
    obtain ⟨i, -, rfl⟩ := mem_seen.1 ((hmem v).1 hv)
    exact printable_nth (fun b hb => absurd hb List.not_mem_nil) i
  otherwise hnever := by
    cases h : generate n length s with
    | ok values =>
      obtain ⟨m, hreaches, -⟩ := generate_of_ok h
      exact absurd ⟨m, hreaches⟩ hnever
    | error e =>
      obtain ⟨found, hfound, rfl, -⟩ := generate_of_error h
      exact ⟨found, hfound, rfl⟩
  pool rate chooser zipfian h := construct_of_accepts h
  same pool other h h' := by
    have hvalues : pool.values.toList = other.values.toList :=
      Except.ok.inj (h.generate_eq.symm.trans h'.generate_eq)
    exact Array.toList_inj.1 hvalues
  larger pool other h h' v hv := by
    obtain ⟨m, hreaches, -, hmem⟩ := generate_of_ok h.generate_eq
    obtain ⟨m', hreaches', -, hmem'⟩ := generate_of_ok h'.generate_eq
    rw [← Array.mem_toList_iff] at hv ⊢
    exact (hmem' v).2 (hreaches.subset hreaches' ((hmem v).1 hv))

/-- Three values of a byte at most, met among six candidates. -/
example : (generate 3 (LengthChooser.uniform 0 1 (by decide)) (.ofSeed 0)).toOption =
    some [[], [35], [56]] := by
  decide +kernel

end StoreBench.Skew
