import ScriptEngine.Types.Error
import ScriptEngine.Program

/-!
Errors of evaluation: a cause, which alone decides the message, and what is known of where it arose:
the span of the node it left first, the calls that were live, and notes.
-/

namespace ScriptEngine

/-- Why an evaluation failed. -/
inductive Cause where
  -- names
  | undefinedIdentifier (name : String)
  | reservedIdentifier (name : String)
  | immutableBinding (name : String)
  | undefinedType (name : String)
  -- kinds of values and operators
  | invalidConditionType (got : String)
  | typeMismatch (expected got : String)
  | invalidBinaryOp (typeName : String) (op : BinaryOp)
  | binaryTypeMismatch (left right : String)
  | divisionByZero
  -- assignments and calls
  | assignmentMismatch (names values : Nat)
  | arityMismatch (name : String) (expected got : Nat)
  | notCallable (typeName : String)
  | undefinedField (field typeName : String)
  | undefinedMethod (method typeName : String)
  | stackOverflow (depth : Nat)
  -- jumps that nothing took
  | breakOutsideLoop
  | continueOutsideLoop
  | returnOutsideFunction
  | unimplemented (construct : String)
  /-- The universe of types is inconsistent. -/
  | typeSystem (e : TypeError)
  | custom (message : String)
  deriving DecidableEq, Repr, Inhabited

/-- The text shown to a user. -/
def Cause.message : Cause → String
  | undefinedIdentifier name => s!"undefined identifier: {name}"
  | reservedIdentifier name => s!"cannot declare {name}: reserved identifier"
  | immutableBinding name => s!"cannot assign to constant {name}"
  | undefinedType name => s!"undefined type: {name}"
  | invalidConditionType got => s!"invalid condition type: expected bool, got {got}"
  | typeMismatch expected got => s!"type mismatch: expected {expected}, got {got}"
  | invalidBinaryOp typeName op => s!"operator `{op.symbol}` cannot be applied to {typeName}"
  | binaryTypeMismatch left right => s!"mismatched types {left} and {right}"
  | divisionByZero => "division by zero"
  | assignmentMismatch names values =>
    s!"assignment mismatch: {names} variables but {values} values"
  | arityMismatch name expected got =>
    let noun := if expected = 1 then "argument" else "arguments"
    s!"{name} expects {expected} {noun}, got {got}"
  | notCallable typeName => s!"{typeName} is not callable"
  | undefinedField field typeName => s!"{typeName} has no field or method {field}"
  | undefinedMethod method typeName => s!"method {method} of {typeName} has no implementation"
  | stackOverflow depth => s!"maximum call depth exceeded (limit: {depth})"
  | breakOutsideLoop => "break outside for or switch"
  | continueOutsideLoop => "continue outside for"
  | returnOutsideFunction => "return outside function"
  | unimplemented construct => s!"unimplemented: {construct}"
  | typeSystem e => e.message
  | custom message => message

/-- The code by which tools know the cause. -/
def Cause.code : Cause → String
  | .undefinedIdentifier .. => "UndefinedIdentifier"
  | .reservedIdentifier .. => "ReservedIdentifier"
  | .immutableBinding .. => "ImmutableBinding"
  | .undefinedType .. => "UndefinedType"
  | .invalidConditionType .. => "InvalidConditionType"
  | .typeMismatch .. => "TypeMismatch"
  | .invalidBinaryOp .. => "InvalidBinaryOp"
  | .binaryTypeMismatch .. => "BinaryTypeMismatch"
  | .divisionByZero => "DivisionByZero"
  | .assignmentMismatch .. => "AssignmentMismatch"
  | .arityMismatch .. => "ArityMismatch"
  | .notCallable .. => "NotCallable"
  | .undefinedField .. => "UndefinedField"
  | .undefinedMethod .. => "UndefinedMethod"
  | .stackOverflow .. => "StackOverflow"
  | .breakOutsideLoop => "BreakOutsideLoop"
  | .continueOutsideLoop => "ContinueOutsideLoop"
  | .returnOutsideFunction => "ReturnOutsideFunction"
  | .unimplemented .. => "Unimplemented"
  | .typeSystem .. => "TypeSystem"
  | .custom .. => "Custom"

/-- A call: the name of the callee and where it was called. -/
structure CallFrame where
  name : String
  span : Option Span
  deriving DecidableEq, Repr, Inhabited

/-- Calls that were live when an error arose, outermost first. -/
abbrev Backtrace := List CallFrame

namespace Backtrace

/-- Where a node is, as a message ends with it. -/
def placeText : Option Span → String
  | some span => s!" at {span.text}"
  | none => ""

/-- One line for each call, numbered from `i`. -/
def lines (i : Nat) : Backtrace → String
  | [] => ""
  | frame :: rest => s!"  {i}: {frame.name}{placeText frame.span}\n" ++ lines (i + 1) rest

/-- The text of a backtrace; without calls there is none. -/
def text : Backtrace → String
  | [] => ""
  | frames => "stack backtrace:\n" ++ lines 0 frames

end Backtrace

/-- Something said beside an error. -/
structure Note where
  message : String
  span : Option Span
  deriving DecidableEq, Repr, Inhabited

/-- An error of evaluation. -/
structure EvalError where
  cause : Cause
  span : Option Span
  /-- Recorded when the error leaves the innermost call. -/
  backtrace : Option Backtrace
  notes : List Note
  deriving DecidableEq, Repr, Inhabited

namespace EvalError

/-- An error of which nothing but its cause is known. -/
def of (cause : Cause) : EvalError := ⟨cause, none, none, []⟩

/-- The message of the cause. -/
def message (e : EvalError) : String :=
  e.cause.message

/-- The message with the place, if it is known. -/
def text (e : EvalError) : String :=
  e.message ++ Backtrace.placeText e.span

/-- Records a place, unless one is known. -/
def locate (e : EvalError) (span : Span) : EvalError :=
  match e.span with
  | some _ => e
  | none => { e with span := some span }

/-- Records the live calls, unless they are known. -/
@[inline]
def trace (e : EvalError) (calls : Backtrace) : EvalError :=
  match e.backtrace with
  | some _ => e
  | none => { e with backtrace := some calls }

/-- An error is fatal when it reports an inconsistent universe and no mistake of the program. -/
def isFatal (e : EvalError) : Bool :=
  match e.cause with
  | .typeSystem _ => true
  | _ => false

end EvalError

end ScriptEngine
