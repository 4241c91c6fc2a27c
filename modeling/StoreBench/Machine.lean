import StoreBench.Failure
/-!
# Machines

How much a program can hold is up to the machine it runs on. Room for more than its memory ends the
process. Room for more than a block of memory can be is a fault on every machine.
-/

namespace StoreBench

/-- What no block of memory holds, in bytes: half the addresses of a machine word. -/
def blockLimit : Nat := 1 <<< 63

/-- What a machine has for a process. -/
class Machine where
  /-- The most bytes its memory holds side by side. -/
  memory : Nat
  /-- The most threads at a time. -/
  threads : Nat
  memory_lt : memory < blockLimit := by decide

/-- A machine with room for every block of memory. -/
@[reducible]
def Machine.largest : Machine where
  memory := blockLimit - 1
  threads := 18446744073709551615

/-- Whether `count` items of `size` bytes each fit into memory side by side. -/
abbrev FitsMemory [Machine] (count size : Nat) : Prop := count * size ≤ Machine.memory

/-- Make room for `count` items of `size` bytes each. -/
def reserve [Machine] {ε : Type} (count size : Nat) : Except (FailureOf ε) Unit :=
  if FitsMemory count size then .ok ()
  else if count * size < blockLimit then .error .exhausted
  else .error .fault

variable [Machine] {ε : Type} {count size : Nat}

theorem reserve_eq_ok_iff :
    (reserve count size : Except (FailureOf ε) Unit) = .ok () ↔ FitsMemory count size := by
  by_cases h : FitsMemory count size
  · simp [reserve, h]
  · simp only [reserve, if_neg h]
    split <;> simp [h]

/-- Room that no machine has is a fault, and other room that is not there ends the process. -/
theorem reserve_eq_error_iff {failure : FailureOf ε} :
    reserve count size = .error failure ↔
      failure = .fault ∧ blockLimit ≤ count * size ∨
        failure = .exhausted ∧ count * size < blockLimit ∧ ¬FitsMemory count size := by
  have hmemory := Machine.memory_lt
  unfold reserve
  by_cases h : FitsMemory count size
  · simp only [if_pos h, reduceCtorEq, false_iff]
    omega
  · by_cases hblock : count * size < blockLimit
    · simp [h, hblock, Nat.not_le.2 hblock, eq_comm]
    · simp [h, hblock, Nat.not_lt.1 hblock, eq_comm]

end StoreBench
