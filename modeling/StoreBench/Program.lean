import StoreBench.Telemetry
/-!
# Programs over an interface

A component that uses another is written as a program: a tree whose nodes are the requests it
makes of an interface and the events it reports, each request followed by one continuation per
answer. The same program runs against a concrete state, inside another program, or one request at
a time between the requests of other programs. Programs form a lawful monad, and interpreting one
in a lawful monad respects sequencing.
-/

namespace StoreBench

/-- The requests a component may make and the type of the answer to each. -/
structure Interface where
  Request : Type
  Answer : Request → Type

/-- The interface without requests. -/
abbrev Interface.silent : Interface := ⟨Empty, fun request => nomatch request⟩

/-- A computation of an `α` that makes requests of `ι`. -/
inductive Program (ι : Interface) (α : Type) : Type where
  | done (value : α)
  | note (event : Event) (rest : Program ι α)
  | ask (request : ι.Request) (rest : ι.Answer request → Program ι α)

namespace Program

variable {ι : Interface} {α β γ : Type}

def bind (p : Program ι α) (f : α → Program ι β) : Program ι β :=
  match p with
  | done value => f value
  | note event rest => note event (rest.bind f)
  | ask request rest => ask request fun answer => (rest answer).bind f

instance : Monad (Program ι) where
  pure := done
  bind := bind

@[simp] theorem pure_eq (a : α) : (pure a : Program ι α) = done a := rfl

@[simp] theorem done_bind (a : α) (f : α → Program ι β) : done a >>= f = f a := rfl

@[simp] theorem note_bind (e : Event) (p : Program ι α) (f : α → Program ι β) :
    note e p >>= f = note e (p >>= f) := rfl

@[simp] theorem ask_bind (r : ι.Request) (k : ι.Answer r → Program ι α) (f : α → Program ι β) :
    ask r k >>= f = ask r fun answer => k answer >>= f := rfl

theorem bind_done (p : Program ι α) : p >>= done = p := by
  induction p with
  | done => rfl
  | note e rest ih => exact congrArg (note e) ih
  | ask r k ih => exact congrArg (ask r) (funext ih)

theorem bind_assoc (p : Program ι α) (f : α → Program ι β) (g : β → Program ι γ) :
    p >>= f >>= g = p >>= fun a => f a >>= g := by
  induction p with
  | done => rfl
  | note e rest ih => exact congrArg (note e) ih
  | ask r k ih => exact congrArg (ask r) (funext ih)

instance : LawfulMonad (Program ι) :=
  LawfulMonad.mk' (Program ι) bind_done (fun _ _ => rfl) bind_assoc

/-- Report an event. -/
def emit (event : Event) : Program ι Unit := note event (done ())

def click (sensor : Sensor) : Program ι Unit := emit (.click sensor)

def log (level : LogLevel) (message : String) : Program ι Unit := emit (.log level message)

/-- Make a request and return its answer. -/
def call (request : ι.Request) : Program ι (ι.Answer request) := ask request done

/-- Run a program in a monad that records events and answers requests. -/
def interpret {m : Type → Type} [Monad m] (record : Event → m Unit)
    (answer : (request : ι.Request) → m (ι.Answer request)) : Program ι α → m α
  | done value => pure value
  | note event rest => do
    record event
    interpret record answer rest
  | ask request rest => do
    let a ← answer request
    interpret record answer (rest a)

@[simp] theorem interpret_done {m : Type → Type} [Monad m] (record : Event → m Unit)
    (answer : (request : ι.Request) → m (ι.Answer request)) (a : α) :
    interpret record answer (done a : Program ι α) = pure a := rfl

/-- Run a program without requests: its value and its events. -/
def observe : Program .silent α → α × List Event
  | done value => (value, [])
  | note event rest =>
    let (value, events) := rest.observe
    (value, event :: events)

end Program

end StoreBench
