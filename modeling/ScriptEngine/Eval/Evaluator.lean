import ScriptEngine.Eval.Selection
import ScriptEngine.Eval.Flow

/-!
The evaluator. `exprForm` and `stmtForm` say how each form is evaluated, given how its parts are;
`evaluator n` ties the knot: its parts, bodies of called functions included, get the budget `n - 1`,
so the budget bounds the depth of evaluation, and in a loop the number of rounds. An error is placed
at the first node it leaves.
-/

namespace ScriptEngine

namespace Evaluator

/-- `left op right`. The right side of `&&` and `||` is evaluated only if it decides. -/
def binary (ev : Evaluator) (op : BinaryOp) (left right : Expr) : Eval EvalError Value := do
  let l ← ev.expr left
  if op.shortCircuits then
    match l with
    | .bool b =>
      if b = (op == .or) then
        return .bool b
      else
        match ← ev.expr right with
        | .bool r => return .bool r
        | r => Eval.fail (.typeMismatch "bool" r.kindName)
    | _ => Eval.fail (.typeMismatch "bool" l.kindName)
  else do
    let r ← ev.expr right
    Eval.ofExcept (op.apply l r)

/-- A function, which captures the current frame. -/
def closure (params : List String) (body : Stmt) : Eval EvalError Value :=
  Eval.asks fun m => .func ⟨params, body, m.env.current⟩

/-- How an expression is evaluated, its place in errors apart. -/
def exprForm (ev : Evaluator) : Expr → Eval EvalError Value
  | .int _ n => pure (.int n)
  | .float _ x => pure (.float x)
  | .str _ s => pure (.str s)
  | .ident _ name => Eval.identifier name
  | .binary _ op left right => ev.binary op left right
  | .unary _ op operand => do
    let v ← ev.expr operand
    Eval.ofExcept (op.apply v)
  | .call span callee args => ev.call callee args span
  | .func _ params body => closure params body
  | .select _ base name => ev.select base name
  | .composite _ typeName fields => ev.composite typeName fields

/-- The value of a statement that is evaluated for its effect. -/
@[always_inline, inline]
def effect {ε : Type} (x : Eval ε Unit) : Eval ε Value := do
  x
  return .void

/-- How a statement is evaluated, its place in errors apart. `label` stands directly before it;
`budget` bounds the rounds of a loop. -/
def stmtForm (ev : Evaluator) (budget : Nat) (label : Option String) : Stmt → Eval Exit Value
  | .empty _ => pure .void
  | .expr _ e => (ev.expr e).asStmt
  | .define _ names values => effect (ev.define names values).asStmt
  | .assign _ targets none values => effect (ev.assign targets values).asStmt
  | .assign _ targets (some op) values => effect (ev.assignOp targets op values).asStmt
  | .incDec _ target increment => effect (incDec target increment).asStmt
  | .block _ body => effect (ev.block body)
  | .branch _ first cond body otherwise => effect (ev.branch first cond body otherwise)
  | .loop _ first cond post body => effect (ev.loop budget label first cond post body)
  | .jump _ kind label => jump kind label
  | .result _ values => do
    let vs ← (ev.spreadExprs values).asStmt
    Eval.raise (.result vs)
  | .labeled _ label body => ev.labeled label body
  | .switch _ first tag clauses => effect (ev.switch label first tag clauses)
  | .constants _ specs => effect (ev.constants specs).asStmt

end Evaluator

/-- Every how many levels evaluation moves to a stack of its own. -/
def levelsPerStack : Nat := 2048

/-- Runs `f` on a fresh stack at every level that is a multiple of `levelsPerStack`, so that depth
is bounded by memory and not by one stack. The value is that of `f`. -/
def onOwnStack {α : Type} (level : Nat) (f : Unit → α) : α :=
  if level % levelsPerStack = 0 then (Task.spawn f .dedicated).get else f ()

@[simp]
theorem onOwnStack_eq {α : Type} (level : Nat) (f : Unit → α) : onOwnStack level f = f () := by
  unfold onOwnStack
  split <;> rfl

/-- The evaluator with a budget for the depth of evaluation and the rounds of each loop. -/
def evaluator : Nat → Evaluator
  | 0 => .exhausted
  | n + 1 => {
      stmt := fun label s m => onOwnStack n fun _ =>
        (((evaluator n).stmtForm n label s).mapExit (·.locate s.span)) m
      expr := fun e m => onOwnStack n fun _ =>
        (((evaluator n).exprForm e).mapExit (·.locate e.span)) m }

/-! ### Running programs -/

/-- Evaluates a statement. -/
def evalStmt (budget : Nat) (s : Stmt) : Eval Exit Value :=
  (evaluator budget).stmt none s

/-- Evaluates an expression. -/
def evalExpr (budget : Nat) (e : Expr) : Eval EvalError Value :=
  (evaluator budget).expr e

/-- Calls a value on arguments. -/
def callValue (budget : Nat) (callee : Value) (args : List Value) (name : String)
    (span : Option Span) : Eval EvalError Value :=
  (evaluator budget).callValue callee args name span

/-- Runs a statement to its end: a jump that nothing took is an error. -/
def runStmt (budget : Nat) (s : Stmt) : Eval EvalError Value :=
  (evalStmt budget s).mapExit Exit.toError

/-- Runs statements in turn, with the value of the last one; the first error ends the run. -/
def runProgramFrom (budget : Nat) (last : Value) : List Stmt → Eval EvalError Value
  | [] => pure last
  | s :: rest => do
    let v ← runStmt budget s
    runProgramFrom budget v rest

/-- Runs a program in the current frame. -/
def runProgram (budget : Nat) (program : List Stmt) : Eval EvalError Value :=
  runProgramFrom budget .void program

end ScriptEngine
