import ScriptEngine.Eval.Machine

/-!
Definitions, assignments and constants. All right sides are evaluated before the first name is
written; then names are written from left to right, and the blank name `_` takes its value nowhere.
-/

namespace ScriptEngine.Evaluator

/-- The name that discards what is bound or assigned to it. -/
def blank : String := "_"

/-- The values for `count` names. One expression may yield all of them. -/
def rightSides (ev : Evaluator) (count : Nat) (es : List Expr) : Eval EvalError (List Value) := do
  let vs ← match es with
    | [e] => do
      let v ← ev.expr e
      pure v.results
    | es => ev.exprs es
  if vs.length = count then
    return vs
  else
    Eval.fail (.assignmentMismatch count vs.length)

/-- Binds a name, unless it is blank. -/
def bindUnlessBlank (mutability : Mutability) (name : String) (v : Value) : Eval EvalError Unit :=
  if name = blank then pure () else Eval.bindName name ⟨v, mutability⟩

/-- Assigns to a name, unless it is blank. -/
def assignUnlessBlank (name : String) (v : Value) : Eval EvalError Unit :=
  if name = blank then pure () else Eval.assignName name v

/-- Does `write` with each name and its value in turn. -/
def eachPair (write : String → Value → Eval EvalError Unit) :
    List String → List Value → Eval EvalError Unit
  | name :: names, v :: vs => do
    write name v
    eachPair write names vs
  | _, _ => pure ()

/-- `names := values`. -/
def define (ev : Evaluator) (names : List String) (values : List Expr) :
    Eval EvalError Unit := do
  let vs ← ev.rightSides names.length values
  eachPair (bindUnlessBlank .mutable) names vs

/-- `targets = values`. -/
def assign (ev : Evaluator) (targets : List String) (values : List Expr) :
    Eval EvalError Unit := do
  let vs ← ev.rightSides targets.length values
  eachPair assignUnlessBlank targets vs

/-- `target op= value`, with exactly one of each. The target is read before the value is
evaluated. -/
def assignOp (ev : Evaluator) (targets : List String) (op : BinaryOp) (values : List Expr) :
    Eval EvalError Unit := do
  match targets, values with
  | [target], [value] => do
    let current ← Eval.identifier target
    let v ← ev.expr value
    let updated ← Eval.ofExcept (op.apply current v)
    Eval.assignName target updated
  | _, _ => Eval.fail (.assignmentMismatch targets.length values.length)

/-- `target++` or `target--`. -/
def incDec (target : String) (increment : Bool) : Eval EvalError Unit := do
  let current ← Eval.identifier target
  let updated ← Eval.ofExcept (current.step increment)
  Eval.assignName target updated

/-! ### Constants -/

/-- Binds each name of a line to its value before the next is evaluated. -/
def constantLine (ev : Evaluator) : List String → List Expr → Eval EvalError Unit
  | name :: names, e :: es => do
    let v ← ev.expr e
    bindUnlessBlank .immutable name v
    ev.constantLine names es
  | _, _ => pure ()

/-- The lines of a constant block from number `ordinal` on. A line without values repeats the
expressions of the nearest line before it that has some, with its own ordinal as `iota`. -/
def constantLines (ev : Evaluator) (ordinal : Nat) (previous : List Expr) :
    List (ConstSpec Expr) → Eval EvalError Unit
  | [] => pure ()
  | spec :: rest => do
    let values := if spec.values.isEmpty then previous else spec.values
    if values.length = spec.names.length then
      Eval.update fun m => { m with iota := some (Int64.ofNat ordinal) }
      ev.constantLine spec.names values
      ev.constantLines (ordinal + 1) values rest
    else
      Eval.fail (.assignmentMismatch spec.names.length values.length)

/-- A constant block. The ordinal of an enclosing block is out of sight inside it and back after
it. -/
def constants (ev : Evaluator) (specs : List (ConstSpec Expr)) : Eval EvalError Unit := do
  let outer ← Eval.asks (·.iota)
  Eval.update fun m => { m with iota := none }
  (ev.constantLines 0 [] specs).leaving fun m => { m with iota := outer }

end ScriptEngine.Evaluator
