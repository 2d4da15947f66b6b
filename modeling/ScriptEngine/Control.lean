import ScriptEngine.Fault
import ScriptEngine.Value

/-!
Exits: the ways to leave a statement before its end. An exit is an error or a jump; loops, switches
and calls take the jumps that are meant for them and pass on everything else.

- A loop takes unlabeled jumps and those that carry its own label.
- A switch takes an unlabeled `break` and one that carries its own label.
- A call takes a `return`, and turns the other jumps into errors.
-/

namespace ScriptEngine

/-- How a statement is left before its end. -/
inductive Exit where
  | failed (e : EvalError)
  /-- `break`, with its label if it has one. -/
  | leaveLoop (label : Option String)
  /-- `continue`, with its label if it has one. -/
  | nextRound (label : Option String)
  /-- `return`, with its results in order. -/
  | result (values : List Value)
  deriving Inhabited

namespace Exit

/-- Whether the exit is an error. -/
def isError : Exit → Bool
  | .failed _ => true
  | _ => false

/-- The error that remains when nothing takes the exit. -/
def toError : Exit → EvalError
  | .failed e => e
  | .leaveLoop _ => .of .breakOutsideLoop
  | .nextRound _ => .of .continueOutsideLoop
  | .result _ => .of .returnOutsideFunction

/-- Records a place in an error that has none; jumps stay as they are. -/
def locate (x : Exit) (span : Span) : Exit :=
  match x with
  | .failed e => .failed (e.locate span)
  | x => x

/-- Whether a jump with label `target` is meant for a construct labeled `own`. -/
def addressedTo (target own : Option String) : Bool :=
  match target with
  | none => true
  | some label => own == some label

end Exit

/-- What a loop does when its body was left early. -/
inductive LoopStep where
  /-- Go on with the post statement and the next round. -/
  | again
  /-- End the loop normally. -/
  | done
  /-- Leave the loop by this exit. -/
  | exit (x : Exit)
  deriving Inhabited

namespace Exit

/-- What a loop labeled `own` does with an exit of its body. -/
def inLoop (x : Exit) (own : Option String) : LoopStep :=
  match x with
  | .leaveLoop target => if addressedTo target own then .done else .exit x
  | .nextRound target => if addressedTo target own then .again else .exit x
  | _ => .exit x

/-- What is left of an exit once a switch labeled `own` has seen it. -/
def inSwitch (x : Exit) (own : Option String) : Option Exit :=
  match x with
  | .leaveLoop target => if addressedTo target own then none else some x
  | _ => some x

/-- What is left of an exit once a statement labeled `own` has seen it. -/
def inLabeled (x : Exit) (own : String) : Option Exit :=
  match x with
  | .leaveLoop (some target) => if target = own then none else some x
  | _ => some x

end Exit

end ScriptEngine
