import StoreBench.Attempt
/-!
# Shared handles

A shared handle is a reference-counted engine. The first reference opens the engine and the last
one released closes it; opening and closing are requests, free to succeed or fail. A failed open
takes no reference, and a failed close still leaves the handle closed.
-/

namespace StoreBench

/-- Opening an engine, or closing one that was opened. -/
inductive LifecycleCall (ε : Type) where
  | openEngine
  | closeEngine (engine : ε)

abbrev LifecycleCall.Result {ε : Type} : LifecycleCall ε → Type
  | openEngine => ε
  | closeEngine _ => Unit

/-- What a shared handle asks of those who know the engine. -/
abbrev lifecycle (ε : Type) : Interface :=
  ⟨LifecycleCall ε, fun call => Except Failure call.Result⟩

structure SharedHandle (ε : Type) where
  name : String
  engine : Option ε
  refs : Nat
  opens : Nat
  closes : Nat
  deriving DecidableEq

namespace SharedHandle

variable {ε : Type}

/-- A handle whose engine nobody has opened yet. -/
def fresh (name : String) : SharedHandle ε := ⟨name, none, 0, 0, 0⟩

variable (h : SharedHandle ε)

def isOpen : Bool := h.engine.isSome

/-- Take a reference, opening the engine if nobody holds one. -/
def acquire : Program (lifecycle ε) (Except Failure ε × SharedHandle ε) :=
  match h.engine with
  | some engine => return (.ok engine, { h with refs := h.refs + 1 })
  | none => do
    match ← Program.call (ι := lifecycle ε) LifecycleCall.openEngine with
    | .ok engine =>
      Program.click .engineOpen
      Program.log .info ("opened " ++ h.name)
      return (.ok engine, { h with engine := some engine, refs := 1, opens := h.opens + 1 })
    | .error (.raised error) =>
      Program.click .engineOpenFailed
      Program.log .error ("could not open " ++ h.name ++ ": " ++ error.message)
      return (.error (.raised error), h)
    | .error failure => return (.error failure, h)

/-- Drop a reference, closing the engine if it was the last. -/
def release : Program (lifecycle ε) (Except Failure Unit × SharedHandle ε) :=
  match h.refs, h.engine with
  | 0, _ => return (.error (.raised (.configuration (.surplusRelease h.name))), h)
  | 1, some engine => do
    let closed := { h with engine := none, refs := 0, closes := h.closes + 1 }
    match ← Program.call (ι := lifecycle ε) (LifecycleCall.closeEngine engine) with
    | .ok () =>
      Program.click .engineClose
      Program.log .info ("closed " ++ h.name)
      return (.ok (), closed)
    | .error (.raised error) =>
      Program.click .engineCloseFailed
      Program.log .error ("could not close " ++ h.name ++ ": " ++ error.message)
      return (.error (.raised error), closed)
    | .error failure => return (.error failure, closed)
  | refs + 1, _ => return (.ok (), { h with refs })

/-- The form that shows the counts. -/
def inspect : String :=
  Text.record "SharedHandle" [
    ("name", Text.quote h.name), ("open", Text.ofBool h.isOpen), ("refs", toString h.refs),
    ("opens", toString h.opens), ("closes", toString h.closes)]

end SharedHandle

end StoreBench
