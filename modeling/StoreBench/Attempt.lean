import StoreBench.Error
import StoreBench.Program
/-!
# Attempts

An attempt is a program that ends with a value or with the reason why there is none. Sequencing
stops at the first failure; the events up to there have happened.
-/

namespace StoreBench

abbrev Attempt (ι : Interface) (α : Type) : Type := ExceptT Failure (Program ι) α

namespace Attempt

variable {ι : Interface} {α : Type}

/-- Run a program that cannot fail. -/
def lift (p : Program ι α) : Attempt ι α := ExceptT.lift p

def click (sensor : Sensor) : Attempt ι Unit := lift (Program.click sensor)

def raise (e : Error) : Attempt ι α := throw (.raised e)

def ofExcept (result : Except Failure α) : Attempt ι α := ExceptT.mk (.done result)

/-- Run a program that fails with an error at most. -/
def ofProgram (p : Program ι (Except Error α)) : Attempt ι α :=
  ExceptT.mk do return (← p).mapError .raised

end Attempt

end StoreBench
