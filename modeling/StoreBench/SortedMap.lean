import StoreBench.Bytes
import Std.Data.ExtTreeMap
import Std.Data.ExtTreeSet
/-!
# Sorted maps and sets

Maps from byte strings and sets of byte strings, whose elements are listed in strictly ascending
order. Two maps with the same value under every key are equal, and so are two sets with the same
members.
-/

namespace StoreBench

/-- A map from byte strings, in order of keys. -/
abbrev SortedMap (α : Type) := Std.ExtTreeMap Bytes α Bytes.order

/-- A set of byte strings, in ascending order. -/
abbrev SortedSet := Std.ExtTreeSet Bytes Bytes.order

namespace SortedMap

variable {α : Type} (m : SortedMap α)

theorem toList_ascending : m.toList.Pairwise fun a b => a.1 < b.1 :=
  m.ordered_keys_toList.imp Bytes.order_eq_lt_iff.1

/-- The entries with keys from `start` on. -/
def entriesFrom (start : Bytes) : List (Bytes × α) :=
  m.toList.dropWhile fun e => Bytes.order e.1 start = .lt

end SortedMap

theorem SortedSet.toList_ascending (s : SortedSet) : s.toList.Pairwise (· < ·) :=
  s.ordered_toList.imp Bytes.order_eq_lt_iff.1

end StoreBench
