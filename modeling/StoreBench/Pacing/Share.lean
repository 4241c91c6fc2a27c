import StoreBench.Error
import StoreBench.Machine
/-!
# Shares

A total is split into parts that differ by at most one, the larger ones first. Work is split share
by share, by the index of the part; a rate is split all at once, and refused if a part would get
nothing, or if memory cannot hold the shares.
-/

namespace StoreBench

/-- The share of the part with an index. -/
def share (total index parts : Nat) : Nat :=
  total / parts + if index < total % parts then 1 else 0

/-- Why a rate cannot be split across threads, if it cannot. -/
def checkSplit [Machine] (total threads : Nat) : Except (FailureOf Misconfiguration) Unit :=
  if threads = 0 then .error (.raised .noThreads)
  else if total < threads then .error (.raised (.rateBelowThreads total threads))
  else reserve threads 8

/-- Split a rate across threads, each of which gets at least one operation per second. -/
def splitRate? [Machine] (total threads : Nat) :
    Except (FailureOf Misconfiguration) (List Nat) := do
  checkSplit total threads
  let extra := total % threads
  return List.replicate extra (total / threads + 1) ++
    List.replicate (threads - extra) (total / threads)

end StoreBench
