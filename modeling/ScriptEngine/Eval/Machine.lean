import ScriptEngine.Universe.Resolve
import ScriptEngine.Environment.Basic
import ScriptEngine.Control
import ScriptEngine.CallStack
import ScriptEngine.Operator

/-!
The machine that programs run on, and computations over it.

A computation takes a machine and ends with a value, or with an exit, each together with the machine
it leaves behind; or it does not end within its budget, which is neither. Expressions exit by errors
only, statements by errors and jumps: the type of exits tells them apart.
-/

namespace ScriptEngine

/-- The state of an interpreter while it evaluates. -/
structure Machine where
  frames : Frames
  types : Universe
  env : Environment
  /-- The code of the callables that this interpreter bound. -/
  functions : Assoc FuncId Function
  calls : CallStack
  /-- The ordinal of the constant line that is being evaluated. -/
  iota : Option Int64
  deriving Inhabited

/-- How a computation ends. -/
inductive Run (ε α : Type) where
  | value (a : α) (m : Machine)
  | exit (e : ε) (m : Machine)
  /-- The budget did not suffice, or no budget does. -/
  | exhausted

/-- Computations over a machine. -/
def Eval (ε α : Type) : Type :=
  Machine → Run ε α

namespace Eval

variable {ε ε' α β : Type}

/-- Ends with a value. -/
@[always_inline, inline]
protected def pure (a : α) : Eval ε α :=
  fun m => .value a m

/-- Goes on with `f` if `x` ends with a value. -/
@[always_inline, inline]
protected def bind (x : Eval ε α) (f : α → Eval ε β) : Eval ε β :=
  fun m => match x m with
    | .value a m => f a m
    | .exit e m => .exit e m
    | .exhausted => .exhausted

instance : Monad (Eval ε) where
  pure := Eval.pure
  bind := Eval.bind

/-- Ends with an exit. -/
@[always_inline, inline]
def raise (e : ε) : Eval ε α :=
  fun m => .exit e m

/-- Runs out of budget. -/
def exhausted : Eval ε α :=
  fun _ => .exhausted

/-- Goes on with `h` if `x` ends with an exit. -/
@[always_inline, inline]
def handle (x : Eval ε α) (h : ε → Eval ε' α) : Eval ε' α :=
  fun m => match x m with
    | .value a m => .value a m
    | .exit e m => h e m
    | .exhausted => .exhausted

/-- Renames the exit of `x`. -/
@[always_inline, inline]
def mapExit (f : ε → ε') (x : Eval ε α) : Eval ε' α :=
  x.handle fun e => raise (f e)

/-- Changes the machine that `x` leaves behind, however it ends. -/
@[always_inline, inline]
def leaving (x : Eval ε α) (f : Machine → Machine) : Eval ε α :=
  fun m => match x m with
    | .value a m => .value a (f m)
    | .exit e m => .exit e (f m)
    | .exhausted => .exhausted

/-- Reads the machine. -/
@[always_inline, inline]
def asks (f : Machine → α) : Eval ε α :=
  fun m => .value (f m) m

/-- Changes the machine. -/
@[always_inline, inline]
def update (f : Machine → Machine) : Eval ε Unit :=
  fun m => .value () (f m)

/-- Ends with an error of which only the cause is known. -/
@[always_inline, inline]
def fail (cause : Cause) : Eval EvalError α :=
  raise (.of cause)

/-- A result that may be a cause of failure. -/
@[always_inline, inline]
def ofExcept : Except Cause α → Eval EvalError α
  | .ok a => Eval.pure a
  | .error cause => fail cause

/-- An expression's computation where a statement's is expected. -/
@[always_inline, inline]
def asStmt (x : Eval EvalError α) : Eval Exit α :=
  x.mapExit .failed

/-- Runs an operation on the universe of types. One that never answers does not end within any
budget. -/
def onTypes (f : UniverseM α) : Eval EvalError α :=
  fun m =>
    let (result, types) := f.run.run m.types
    let m := { m with types }
    match result with
    | .ok a => .value a m
    | .error e => if e = .endless then .exhausted else .exit (.of (.typeSystem e)) m

/-- Runs `x` in a new frame, which is left however `x` ends. -/
@[inline]
def inFrame (x : Eval ε α) : Eval ε α :=
  fun m =>
    let (env, frames) := m.env.push m.frames
    (x.leaving fun m => { m with env := m.env.pop }) { m with env, frames }

/-- The value of an identifier. -/
def identifier (name : String) : Eval EvalError Value :=
  fun m => match m.env.identifier m.frames m.iota name with
    | .ok v => .value v m
    | .error cause => .exit (.of cause) m

/-- Binds a name in the current frame. -/
def bindName (name : String) (b : Binding) : Eval EvalError Unit :=
  fun m => match m.env.define m.frames name b with
    | .ok frames => .value () { m with frames }
    | .error e => .exit (.of (e.cause name)) m

/-- Assigns to a name. -/
def assignName (name : String) (value : Value) : Eval EvalError Unit :=
  fun m => match m.env.assign m.frames name value with
    | .ok frames => .value () { m with frames }
    | .error e => .exit (.of (e.cause name)) m

/-- Repeats `round` as long as it answers true, at most as often as the budget says. -/
@[specialize]
def repeatWhile (round : Eval ε Bool) : Nat → Eval ε Unit
  | 0, _ => .exhausted
  | budget + 1, m => match round m with
    | .value true m => repeatWhile round budget m
    | .value false m => .value () m
    | .exit e m => .exit e m
    | .exhausted => .exhausted

end Eval

/-- How the parts of a program are evaluated. A statement is told the label that stands directly
before it. -/
structure Evaluator where
  stmt : Option String → Stmt → Eval Exit Value
  expr : Expr → Eval EvalError Value

namespace Evaluator

/-- The evaluator without any budget. -/
def exhausted : Evaluator :=
  ⟨fun _ _ => Eval.exhausted, fun _ => Eval.exhausted⟩

/-- The values of expressions, from left to right. -/
def exprs (ev : Evaluator) : List Expr → Eval EvalError (List Value)
  | [] => pure []
  | e :: rest => do
    let v ← ev.expr e
    let vs ← ev.exprs rest
    return v :: vs

/-- The values of expressions; a single expression that has several results passes on all. -/
def spreadExprs (ev : Evaluator) : List Expr → Eval EvalError (List Value)
  | [e] => do
    let v ← ev.expr e
    return v.spread
  | es => ev.exprs es

/-- Evaluates statements in turn; the first exit ends the list. -/
def stmts (ev : Evaluator) : List Stmt → Eval Exit Unit
  | [] => pure ()
  | s :: rest => do
    let _ ← ev.stmt none s
    ev.stmts rest

/-- Evaluates a statement that may be missing. -/
def optional (ev : Evaluator) : Option Stmt → Eval Exit Unit
  | none => pure ()
  | some s => do
    let _ ← ev.stmt none s

/-- Evaluates a condition. It must be a truth value; the error is placed at the condition. -/
def condition (ev : Evaluator) (e : Expr) : Eval EvalError Bool := do
  match ← ev.expr e with
  | .bool b => return b
  | v => Eval.raise ((EvalError.of (.invalidConditionType v.kindName)).locate e.span)

end Evaluator

end ScriptEngine
