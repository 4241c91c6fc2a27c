import StoreBench.Bytes
/-!
# Record numbers and keys

Records are numbered from zero in the order of their insertion. The key of a record spells its
number with at least ten digits, so that keys of up to ten digits sort like their numbers.
-/

namespace StoreBench

/-- The decimal digits of a number, filled up with zeros in front to a width. -/
def paddedDigits (width n : Nat) : List Char :=
  let digits := Nat.toDigits 10 n
  List.replicate (width - digits.length) '0' ++ digits

/-- The key of record `n`. -/
def recordKey (n : Nat) : Bytes := Bytes.ofText (String.ofList ("user".toList ++ paddedDigits 10 n))

/-- The source of record numbers that all workers share. Numbers are machine words. -/
structure Numbering where
  next : UInt64
  deriving DecidableEq, Repr

namespace Numbering

def start : Numbering := ⟨0⟩

/-- Hand out the next number. -/
def take (n : Numbering) : UInt64 × Numbering := (n.next, ⟨n.next + 1⟩)

/-- Go on after `count` records, as though they had been inserted. -/
def assumeLoaded (n : Numbering) (count : Nat) : Numbering := ⟨max n.next (UInt64.ofNat count)⟩

end Numbering

end StoreBench
