import StoreBench.Random.Stream
import StoreBench.Skew.Error
/-!
# Value lengths

Whoever chooses the lengths of values may draw from the stream for each of them, and may remember
what it likes from one to the next. The length of the next value is fixed, or uniform between two
bounds, for which nothing is to be remembered. Uniform lengths stay between their bounds.
-/

namespace StoreBench.Skew

open StoreBench.Random

/-- Choosing the length of the next value with what is remembered in a `σ`. -/
class ChoosesLengths (σ : Type) where
  choose : σ → Stream → Nat × σ × Stream

inductive LengthChooser where
  | constant (length : Nat)
  | uniform (min max : Nat) (min_le_max : min ≤ max)

namespace LengthChooser

def uniform? (min max : Nat) : Except Error LengthChooser :=
  if h : min ≤ max then .ok (.uniform min max h) else .error (.invalid (.lengthBounds min max))

/-- Draw the next length. A constant length draws nothing from the stream. -/
def draw (chooser : LengthChooser) (s : Stream) : Nat × Stream :=
  match chooser with
  | constant length => (length, s)
  | uniform min max _ =>
    let (offset, s) := s.nextBelow (max - min + 1)
    (min + offset, s)

instance : ChoosesLengths LengthChooser where
  choose chooser s :=
    let (length, s) := chooser.draw s
    (length, chooser, s)

theorem draw_uniform_mem {min max : Nat} (h : min ≤ max) (s : Stream) :
    min ≤ ((uniform min max h).draw s).1 ∧ ((uniform min max h).draw s).1 ≤ max := by
  have : (s.nextBelow (max - min + 1)).1 < max - min + 1 := s.nextBelow_lt (by omega)
  simp only [draw]
  omega

end LengthChooser

end StoreBench.Skew
