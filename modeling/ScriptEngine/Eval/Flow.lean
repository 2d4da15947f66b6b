import ScriptEngine.Eval.Machine

/-!
Blocks, conditions, loops, switches and labels. Each of the first four evaluates in a frame of its
own, and the chosen arm of a switch in one more.
-/

namespace ScriptEngine.Evaluator

/-- A block. -/
def block (ev : Evaluator) (body : List Stmt) : Eval Exit Unit :=
  Eval.inFrame (ev.stmts body)

/-- `if first; cond body else otherwise`. -/
def branch (ev : Evaluator) (first : Option Stmt) (cond : Expr) (body : Stmt)
    (otherwise : Option Stmt) : Eval Exit Unit :=
  Eval.inFrame do
    ev.optional first
    if ← (ev.condition cond).asStmt then
      ev.optional (some body)
    else
      ev.optional otherwise

/-! ### Loops -/

/-- Whether a loop goes on: a missing condition always holds. -/
def goesOn (ev : Evaluator) : Option Expr → Eval Exit Bool
  | none => pure true
  | some cond => (ev.condition cond).asStmt

/-- The body of a loop; the answer says whether the loop goes on. -/
def loopBody (ev : Evaluator) (label : Option String) (body : Stmt) : Eval Exit Bool :=
  Eval.handle (do let _ ← ev.stmt none body; return true) fun x =>
    match x.inLoop label with
    | .again => pure true
    | .done => pure false
    | .exit x => Eval.raise x

/-- One round: the condition, the body and the post statement. The answer says whether another
round follows. -/
def round (ev : Evaluator) (label : Option String) (cond : Option Expr) (post : Option Stmt)
    (body : Stmt) : Eval Exit Bool := do
  if ← ev.goesOn cond then
    if ← ev.loopBody label body then do
      ev.optional post
      return true
    else
      return false
  else
    return false

/-- `for first; cond; post body`, with at most `budget` rounds. -/
def loop (ev : Evaluator) (budget : Nat) (label : Option String) (first : Option Stmt)
    (cond : Option Expr) (post : Option Stmt) (body : Stmt) : Eval Exit Unit :=
  Eval.inFrame do
    ev.optional first
    Eval.repeatWhile (ev.round label cond post body) budget

/-! ### Switches and labels -/

/-- The value of a case; without a tag it must be a truth value, and the error is placed at the
case. -/
def caseValue (ev : Evaluator) (tagged : Bool) (e : Expr) : Eval EvalError Value := do
  if tagged then
    ev.expr e
  else do
    let b ← ev.condition e
    return .bool b

/-- Whether one of the cases equals the tag; the cases after it are not evaluated. -/
def anyCase (ev : Evaluator) (tagged : Bool) (tag : Value) : List Expr → Eval EvalError Bool
  | [] => pure false
  | e :: rest => do
    let v ← ev.caseValue tagged e
    if tag.equal v then
      return true
    else
      ev.anyCase tagged tag rest

/-- The first clause with a case that equals the tag. -/
def chosenClause (ev : Evaluator) (tagged : Bool) (tag : Value) :
    List (Clause Expr Stmt) → Eval EvalError (Option (Clause Expr Stmt))
  | [] => pure none
  | c :: rest => do
    if ← ev.anyCase tagged tag (c.values.getD []) then
      return some c
    else
      ev.chosenClause tagged tag rest

/-- The value that cases are compared with; without a tag it is true. -/
def tagValue (ev : Evaluator) : Option Expr → Eval EvalError Value
  | none => pure (.bool true)
  | some e => ev.expr e

/-- The body of a switch: the chosen clause or else the first default clause. -/
def switchBody (ev : Evaluator) (first : Option Stmt) (tag : Option Expr)
    (clauses : List (Clause Expr Stmt)) : Eval Exit Unit := do
  ev.optional first
  let value ← (ev.tagValue tag).asStmt
  let chosen ← (ev.chosenClause tag.isSome value clauses).asStmt
  match chosen.or (clauses.find? (·.values.isNone)) with
  | some c => Eval.inFrame (ev.stmts c.body)
  | none => pure ()

/-- `switch first; tag clauses`. What its own label or no label is meant for ends here. -/
def switch (ev : Evaluator) (label : Option String) (first : Option Stmt) (tag : Option Expr)
    (clauses : List (Clause Expr Stmt)) : Eval Exit Unit :=
  (Eval.inFrame (ev.switchBody first tag clauses)).handle fun x =>
    match x.inSwitch label with
    | none => pure ()
    | some x => Eval.raise x

/-- A labeled statement, which is told its label. -/
def labeled (ev : Evaluator) (label : String) (body : Stmt) : Eval Exit Value :=
  (ev.stmt (some label) body).handle fun x =>
    match x.inLabeled label with
    | none => pure .void
    | some x => Eval.raise x

/-- A jump. -/
def jump (kind : Jump) (label : Option String) : Eval Exit Value :=
  match kind with
  | .leaveLoop => Eval.raise (.leaveLoop label)
  | .nextRound => Eval.raise (.nextRound label)
  | .goto | .fallthrough => Eval.raise (.failed (.of (.unimplemented kind.keyword)))

end ScriptEngine.Evaluator
