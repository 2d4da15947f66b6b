import ScriptEngine.Proofs.Eval.Evolution
import ScriptEngine.Proofs.Universe.Operation
import ScriptEngine.Session

/-!
The histories of a session: what a host can do with it, as data, and the sessions that sequences of
such actions lead to, failed ones included.
-/

namespace ScriptEngine

/-- What an interpreter can be asked to do. -/
inductive Request where
  -- to run code
  | program (stmts : List Stmt)
  /-- A program in a frame of its own. -/
  | nested (stmts : List Stmt)
  /-- A statement whose jumps are handed to the host. -/
  | stmt (s : Stmt)
  | expr (e : Expr)
  | call (callee : Expr) (args : List Expr) (name : String) (span : Option Span)
  -- to declare
  | method (ty : TypeId) (decl : MethodDecl) (f : Function) (pointerReceiver : Bool)
  | define (name : String) (b : Binding)
  | assign (name : String) (v : Value)
  -- to move between frames
  | enterFrame
  | leaveFrame

namespace Request

/-- What a request does, with a budget for the evaluation; its value is left out. -/
def run (budget : Nat) : Request → Eval Exit Unit
  | program stmts => discard (runProgram budget stmts).asStmt
  | nested stmts => discard (Eval.inFrame (runProgram budget stmts)).asStmt
  | stmt s => discard (evalStmt budget s)
  | expr e => discard (evalExpr budget e).asStmt
  | call callee args name span => do
    let f ← (evalExpr budget callee).asStmt
    let vs ← ((evaluator budget).exprs args).asStmt
    discard (callValue budget f vs name span).asStmt
  | method ty decl f pointerReceiver =>
    discard (Evaluator.declareMethod ty decl f pointerReceiver).asStmt
  | define name b => (Eval.bindName name b).asStmt
  | assign name v => (Eval.assignName name v).asStmt
  | enterFrame => Eval.update Machine.opened
  | leaveFrame => Eval.update Machine.closed

end Request

/-- What can be done with a session. -/
inductive Action where
  | addUniverse (threadSafe : Bool)
  | addInterpreter (key : String) (universeIndex : Nat) (limit : Option Nat)
    (globals : List (String × Value))
  /-- An operation on the session's own universe. -/
  | types (op : Operation)
  | request (key : String) (budget : Nat) (r : Request)

namespace Session

/-- The session after an action. -/
def perform (s : Session) : Action → Session
  | .addUniverse threadSafe => (s.addUniverse threadSafe).2
  | .addInterpreter key universeIndex limit globals =>
    s.addInterpreter key universeIndex limit globals
  | .types op => (s.onTypes op.run).2
  | .request key budget r => (s.run key (r.run budget)).2

/-- The sessions that actions lead to of which each was allowed in the session it met. -/
inductive ReachableBy (allowed : Session → Action → Prop) : Session → Prop where
  | start (threadSafe : Bool) : ReachableBy allowed (.start threadSafe)
  | step {s : Session} (a : Action) : ReachableBy allowed s → allowed s a →
      ReachableBy allowed (s.perform a)

end Session

end ScriptEngine
