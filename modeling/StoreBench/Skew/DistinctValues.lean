import StoreBench.Skew.Length
import StoreBench.Skew.PrintableBlock
import StoreBench.SortedMap
/-!
# Distinct values

Candidate values are cut from a run of printable blocks: each has a drawn length, and the unused
rest of a block carries over to the next candidate, also when a candidate is discarded. Collecting
keeps the first candidates that differ from all before, in ascending order, and gives up after
`patience` repetitions in a row.
-/

namespace StoreBench.Skew

open StoreBench.Random

/-- Where candidates come from. -/
structure Candidates (σ : Type) where
  /-- Who chooses their lengths. -/
  length : σ
  /-- The bytes left of the current block. -/
  left : Bytes
  stream : Stream

namespace Candidates

variable {σ : Type}

/-- The next byte, a block being drawn only when the one before is used up. -/
def takeByte (c : Candidates σ) : UInt8 × Candidates σ :=
  match c.left with
  | b :: left => (b, { c with left })
  | [] =>
    let (block, stream) := drawBlock c.stream
    (block.head, { c with left := block.toList.tail, stream })

/-- The bytes taken before, the last of them first, and `count` more behind them. -/
def takeAfter (taken : Bytes) : (count : Nat) → Candidates σ → Bytes × Candidates σ
  | 0, c => (taken.reverse, c)
  | count + 1, c => takeAfter (c.takeByte.1 :: taken) count c.takeByte.2

/-- The next `count` bytes. -/
def take (count : Nat) (c : Candidates σ) : Bytes × Candidates σ := takeAfter [] count c

theorem takeAfter_eq (taken : Bytes) (count : Nat) (c : Candidates σ) :
    takeAfter taken count c = (taken.reverse ++ (c.take count).1, (c.take count).2) := by
  induction count generalizing taken c with
  | zero => simp [take, takeAfter]
  | succ count ih =>
    rw [take, takeAfter, takeAfter, ih, ih [_]]
    simp

@[simp] theorem take_zero (c : Candidates σ) : c.take 0 = ([], c) := rfl

/-- Taking bytes takes one after another. -/
theorem take_succ (count : Nat) (c : Candidates σ) :
    c.take (count + 1) =
      (c.takeByte.1 :: (c.takeByte.2.take count).1, (c.takeByte.2.take count).2) := by
  rw [take, takeAfter, takeAfter_eq]
  rfl

@[simp] theorem length_take (count : Nat) (c : Candidates σ) :
    (c.take count).1.length = count := by
  induction count generalizing c with
  | zero => rfl
  | succ count ih => simp [take_succ, ih]

def next [ChoosesLengths σ] (c : Candidates σ) : Bytes × Candidates σ :=
  let (count, length, stream) := ChoosesLengths.choose c.length c.stream
  take count { c with length, stream }

/-- How many repetitions in a row are tolerated before the lengths are declared too narrow. -/
def patience : Nat := 65536

/-- The outcome of looking for a candidate that is not known yet. -/
structure Search (σ : Type) where
  found : Option Bytes
  repeats : Nat
  rest : Candidates σ

variable [ChoosesLengths σ]

def nextFresh (known : SortedSet) : (patience : Nat) → Candidates σ → Search σ
  | 0, c => ⟨none, 0, c⟩
  | patience + 1, c =>
    let (value, c) := c.next
    if value ∈ known then
      let search := nextFresh known patience c
      { search with repeats := search.repeats + 1 }
    else ⟨some value, 0, c⟩

theorem not_mem_of_nextFresh {known : SortedSet} {patience : Nat} {c : Candidates σ}
    {v : Bytes} (h : (nextFresh known patience c).found = some v) : v ∉ known := by
  induction patience generalizing c with
  | zero => simp [nextFresh] at h
  | succ patience ih =>
    simp only [nextFresh] at h
    split at h
    · exact ih h
    · next hv => simp only [Option.some.injEq] at h; exact h ▸ hv

end Candidates

/-- Strictly ascending in bytewise order. -/
def Ascending (vs : List Bytes) : Prop := vs.Pairwise (· < ·)

/-- The values collected so far, or the number found when the patience ran out, with the number of
repetitions discarded on the way. -/
structure Collection (σ : Type) where
  result : Except Nat (List Bytes)
  repeats : Nat
  rest : Candidates σ

variable {σ : Type} [ChoosesLengths σ]

/-- Add `wanted` more values to the known ones. -/
def collect : (wanted : Nat) → (known : SortedSet) → Candidates σ → Collection σ
  | 0, known, c => ⟨.ok known.toList, 0, c⟩
  | wanted + 1, known, c =>
    let search := c.nextFresh known Candidates.patience
    match search.found with
    | none => ⟨.error known.size, search.repeats, search.rest⟩
    | some value =>
      let more := collect wanted (known.insert value) search.rest
      { more with repeats := search.repeats + more.repeats }

theorem collect_ascending {wanted : Nat} {known : SortedSet} {vs : List Bytes}
    {c : Candidates σ} (h : (collect wanted known c).result = .ok vs) :
    Ascending vs ∧ vs.length = known.size + wanted := by
  induction wanted generalizing known c with
  | zero =>
    simp only [collect, Except.ok.injEq] at h
    exact h ▸ ⟨known.toList_ascending, known.length_toList⟩
  | succ wanted ih =>
    simp only [collect] at h
    split at h
    · cases h
    · next v hv =>
      have := ih h
      have hfresh := Candidates.not_mem_of_nextFresh hv
      rw [Std.ExtTreeSet.size_insert, if_neg (mt Std.ExtTreeSet.contains_iff_mem.1 hfresh)] at this
      exact ⟨this.1, by omega⟩

end StoreBench.Skew
