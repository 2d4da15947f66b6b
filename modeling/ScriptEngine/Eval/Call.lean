import ScriptEngine.Eval.Assignment

/-!
Calls. The body of a function runs in an environment of its own, without the caller's frames and
without an ordinal of constants. A call takes a `return` of its body; any other exit becomes an
error that carries the live calls.
-/

namespace ScriptEngine.Evaluator

/-- Binds parameters to arguments. -/
def bindParams (params : List String) (args : List Value) : Eval EvalError Unit :=
  eachPair (bindUnlessBlank .mutable) params args

/-- The body of a function on its arguments, in the environment of the call. -/
def body (ev : Evaluator) (f : Function) (args : List Value) : Eval Exit Value := do
  (bindParams f.params args).asStmt
  ev.stmt none f.body

/-- The machine at the start of a call. -/
def enterCall (f : Function) (frame : CallFrame) (m : Machine) : Machine :=
  let (scope, frames) := m.frames.openFrame (some f.scope)
  { m with frames, env := m.env.forCall scope, calls := m.calls.enter frame, iota := none }

/-- The machine after a call: the caller's environment and ordinal are back. -/
def leaveCall (env : Environment) (iota : Option Int64) (m : Machine) : Machine :=
  { m with env, iota, calls := m.calls.pop }

/-- What a call makes of the end of its body. -/
def callResult (env : Environment) (iota : Option Int64) : Run Exit Value → Run EvalError Value
  | .value _ m => .value .void (leaveCall env iota m)
  | .exit (.result vs) m => .value (.ofResults vs) (leaveCall env iota m)
  | .exit x m => .exit (x.toError.trace m.calls.capture) (leaveCall env iota m)
  | .exhausted => .exhausted

/-- Calls a function. The number of arguments is checked first, then the limit on live calls. -/
def callFunction (ev : Evaluator) (f : Function) (args : List Value) (frame : CallFrame) :
    Eval EvalError Value :=
  fun m =>
    if args.length = f.params.length then
      match m.calls.full? with
      | some max => .exit (.of (.stackOverflow max)) m
      | none =>
        let env := m.env
        let iota := m.iota
        callResult env iota (ev.body f args (enterCall f frame m))
    else
      .exit (.of (.arityMismatch frame.name f.params.length args.length)) m

/-- Calls a value. A method passes its receiver before the arguments; its code is known only to the
interpreter that bound it. -/
def callValue (ev : Evaluator) (callee : Value) (args : List Value) (name : String)
    (span : Option Span) : Eval EvalError Value :=
  match callee with
  | .func f => ev.callFunction f args ⟨name, span⟩
  | .method recv func method => do
    match ← Eval.asks (·.functions.find? func) with
    | some f => ev.callFunction f (recv :: args) ⟨method, span⟩
    | none => Eval.fail (.undefinedMethod method recv.kindName)
  | v => Eval.fail (.notCallable v.kindName)

/-- A call expression: first the callee, then the arguments, then the call. -/
def call (ev : Evaluator) (callee : Expr) (args : List Expr) (span : Span) :
    Eval EvalError Value := do
  let f ← ev.expr callee
  let vs ← ev.spreadExprs args
  ev.callValue f vs callee.calleeName (some span)

end ScriptEngine.Evaluator
