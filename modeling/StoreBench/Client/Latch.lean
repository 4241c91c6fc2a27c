/-!
# Latches

A latch holds back those who wait on it until it has been counted down as often as it says.
-/

namespace StoreBench

structure Latch where
  count : Nat
  deriving DecidableEq, Repr

namespace Latch

/-- Count down by one; an open latch stays as it is. -/
def countDown (l : Latch) : Latch := ⟨l.count - 1⟩

/-- Whether those who wait may go on. -/
def isOpen (l : Latch) : Bool := l.count == 0

@[simp] theorem isOpen_iff (l : Latch) : l.isOpen = true ↔ l.count = 0 := by simp [isOpen]

end Latch

end StoreBench
