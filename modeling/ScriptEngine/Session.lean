import ScriptEngine.Eval.Evaluator

/-!
Sessions: any number of interpreters over one store of frames. An interpreter works on a universe of
types, the session's or one of its own; several interpreters may share one. What an interpreter runs
sees the shared frames and its universe, and nothing of other interpreters.
-/

namespace ScriptEngine

/-- The part of a machine that belongs to one interpreter. -/
structure Interpreter where
  env : Environment
  functions : Assoc FuncId Function
  calls : CallStack
  iota : Option Int64
  /-- The position of its universe among those of the session. -/
  universeIndex : Nat
  deriving Inhabited

/-- A session; its own universe comes first. -/
structure Session where
  frames : Frames
  universes : Array GuardedUniverse
  interpreters : Assoc String Interpreter
  deriving Inhabited

namespace Session

/-- The key of the interpreter that every session has. -/
def mainKey : String := "main"

/-- Binds constants of the package; names that cannot be bound are left out. -/
def defineGlobals (env : Environment) : Frames → List (String × Value) → Frames
  | fs, [] => fs
  | fs, (name, v) :: rest =>
    match env.defineGlobal fs name v with
    | .ok fs => defineGlobals env fs rest
    | .error _ => defineGlobals env fs rest

/-- Adds an interpreter on the universe at a position, with a limit on its calls and constants of
its package. -/
def addInterpreter (s : Session) (key : String) (universeIndex : Nat) (limit : Option Nat)
    (globals : List (String × Value)) : Session :=
  let (env, frames) := Environment.create s.frames
  { s with
    frames := defineGlobals env frames globals
    interpreters := s.interpreters.set key ⟨env, .empty, .empty limit, none, universeIndex⟩ }

/-- Adds an empty universe and returns its position. -/
def addUniverse (s : Session) (threadSafe : Bool) : Nat × Session :=
  (s.universes.size, { s with universes := s.universes.push ⟨threadSafe, .empty⟩ })

/-- A session with its main interpreter. -/
def start (threadSafe : Bool) : Session :=
  let s : Session := ⟨.empty, #[⟨threadSafe, .empty⟩], .empty⟩
  s.addInterpreter mainKey 0 none []

/-- The universe at a position, with its guard. -/
def guardedUniverse (s : Session) (index : Nat) : GuardedUniverse :=
  s.universes[index]?.getD default

/-- The session's own universe. -/
def types (s : Session) : Universe :=
  (s.guardedUniverse 0).types

/-- Replaces the universe at a position. -/
def setUniverse (s : Session) (index : Nat) (u : Universe) : Session :=
  { s with universes := s.universes.modify index fun g => { g with types := u } }

/-- Runs an operation on the session's own universe. -/
def onTypes {α : Type} (s : Session) (f : UniverseM α) : Except TypeError α × Session :=
  let (result, u) := f.run.run s.types
  (result, s.setUniverse 0 u)

/-- The machine that an interpreter runs on. -/
def machine (s : Session) (i : Interpreter) : Machine :=
  ⟨s.frames, (s.guardedUniverse i.universeIndex).types, i.env, i.functions, i.calls, i.iota⟩

/-- The session after an interpreter has run. -/
def absorb (s : Session) (key : String) (i : Interpreter) (m : Machine) : Session :=
  let s := s.setUniverse i.universeIndex m.types
  { s with
    frames := m.frames
    interpreters := s.interpreters.set key { i with
      env := m.env, functions := m.functions, calls := m.calls, iota := m.iota } }

/-- Runs a computation on an interpreter. There is no answer if there is no such interpreter or if
the computation did not end within its budget; then nothing changes. -/
def run {ε α : Type} (s : Session) (key : String) (x : Eval ε α) : Option (Except ε α) × Session :=
  match s.interpreters.find? key with
  | none => (none, s)
  | some i =>
    match x (s.machine i) with
    | .value a m => (some (.ok a), s.absorb key i m)
    | .exit e m => (some (.error e), s.absorb key i m)
    | .exhausted => (none, s)

end Session

end ScriptEngine
