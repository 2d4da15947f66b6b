import ScriptEngine.Environment.Frames
import ScriptEngine.Fault

/-!
Environments: the frames that are current while a statement is evaluated. Entering a block puts a
new frame on top; a call runs in an environment of its own, whose only frame lies below the one that
the closure captured, so the caller's frames are out of sight.
-/

namespace ScriptEngine

/-- The identifiers that are resolved before any frame and can never be bound. -/
def isReserved (name : String) : Bool :=
  name == "true" || name == "false" || name == "iota"

/-- The current frames, innermost first, and the frame of the package. There is always a current
frame. -/
structure Environment where
  current : FrameId
  outer : List FrameId
  global : FrameId
  deriving DecidableEq, Repr, Inhabited

namespace Environment

/-- An environment on a new package frame. -/
def create (fs : Frames) : Environment × Frames :=
  let (frame, fs) := fs.openFrame none
  (⟨frame, [], frame⟩, fs)

/-- The number of current frames. -/
def depth (env : Environment) : Nat :=
  env.outer.length + 1

/-- The environment with `frame` on top. -/
def enter (env : Environment) (frame : FrameId) : Environment :=
  { env with current := frame, outer := env.current :: env.outer }

/-- Enters a new frame below the current one. -/
@[inline]
def push (env : Environment) (fs : Frames) : Environment × Frames :=
  let (frame, fs) := fs.openFrame (some env.current)
  (env.enter frame, fs)

/-- Leaves the current frame. The last frame is never left. -/
def pop (env : Environment) : Environment :=
  match env.outer with
  | [] => env
  | frame :: rest => { env with current := frame, outer := rest }

/-- The environment of a call that runs in `frame`. -/
def forCall (env : Environment) (frame : FrameId) : Environment :=
  { env with current := frame, outer := [] }

/-- The value of a name. -/
def lookup (env : Environment) (fs : Frames) (name : String) : Option Value :=
  fs.lookup env.current name

/-- Binds a name in the current frame. -/
@[inline]
def define (env : Environment) (fs : Frames) (name : String) (b : Binding) :
    Except BindError Frames :=
  if isReserved name then .error .reserved else .ok (fs.define env.current name b)

/-- Assigns to a name. -/
@[inline]
def assign (env : Environment) (fs : Frames) (name : String) (value : Value) :
    Except BindError Frames :=
  if isReserved name then .error .reserved else fs.assign env.current name value

/-- Binds a constant of the package. -/
def defineGlobal (env : Environment) (fs : Frames) (name : String) (value : Value) :
    Except BindError Frames :=
  if isReserved name then .error .reserved else .ok (fs.define env.global name ⟨value, .immutable⟩)

/-- The value of an identifier: the truth values are constants, `iota` is the given ordinal if there
is one, and every other name is looked up in the frames. -/
def identifier (env : Environment) (fs : Frames) (iota : Option Int64) (name : String) :
    Except Cause Value :=
  let found :=
    if name = "true" then some (.bool true)
    else if name = "false" then some (.bool false)
    else if name = "iota" then iota.map .int
    else env.lookup fs name
  match found with
  | some v => .ok v
  | none => .error (.undefinedIdentifier name)

end Environment

/-- The cause that a failed binding of `name` reports. -/
def BindError.cause (name : String) : BindError → Cause
  | .reserved => .reservedIdentifier name
  | .immutable => .immutableBinding name
  | .undefined => .undefinedIdentifier name

end ScriptEngine
