import ScriptEngine.Program
import ScriptEngine.Handle
import ScriptEngine.Decimal.Positional

/-!
Runtime values: their kinds, their text, and the one equality that `==`, `!=` and switches use.
Floats compare as numbers, so a value that holds a NaN differs from itself; functions compare by
the body they run and the frame they captured; all else compares part by part.
-/

namespace ScriptEngine

/-- A function: its parameters, its body and the frame it was made in. The frame is shared, so the
body sees later assignments. -/
structure Function where
  params : List String
  body : Stmt
  scope : FrameId
  deriving Inhabited

/-- Two functions are the same when they run the same body in the same frame. The body is told by
its span, so this is meant for functions of a program that is `Identified`. -/
def Function.same (f g : Function) : Bool :=
  f.body.span == g.body.span && f.scope == g.scope

/-- Runtime values. -/
inductive Value where
  /-- The value of a statement and of a call without results. -/
  | void
  | bool (b : Bool)
  | int (n : Int64)
  | float (x : Float)
  | str (s : String)
  /-- The results of a call that has several. -/
  | tuple (values : List Value)
  | func (f : Function)
  /-- A value of a named struct type, with its fields by position. -/
  | struct (ty : TypeId) (fields : List Value)
  /-- A method selected on a receiver. -/
  | method (recv : Value) (func : FuncId) (name : String)
  deriving Inhabited

namespace Value

/-- The short name of a value's kind. -/
def kindName : Value → String
  | .void => "void"
  | .bool _ => "bool"
  | .int _ => "int"
  | .float _ => "float64"
  | .str _ => "string"
  | .tuple _ => "tuple"
  | .func _ => "func"
  | .struct .. => "struct"
  | .method .. => "method"

/-! ### Results of calls -/

/-- A list of results as one value: nothing, the only one, or all of them together. -/
def ofResults : List Value → Value
  | [] => .void
  | [v] => v
  | vs => .tuple vs

/-- The results that a value stands for. -/
def results : Value → List Value
  | .void => []
  | .tuple vs => vs
  | v => [v]

/-- What a single value adds to a list of arguments: several results spread, and anything else,
nothing included, counts as one. -/
def spread : Value → List Value
  | .tuple vs => vs
  | v => [v]

/-! ### Equality -/

mutual

/-- The equality of values. -/
def equal : Value → Value → Bool
  | .void, .void => true
  | .bool a, .bool b => a == b
  | .int a, .int b => a == b
  | .float a, .float b => a == b
  | .str a, .str b => a == b
  | .tuple vs, .tuple ws => equalAll vs ws
  | .func f, .func g => f.same g
  | .struct ty vs, .struct ty' ws => ty == ty' && equalAll vs ws
  | .method r f n, .method r' f' n' => equal r r' && f == f' && n == n'
  | _, _ => false

/-- Lists are equal when they are equally long and equal at every position. -/
def equalAll : List Value → List Value → Bool
  | [], [] => true
  | v :: vs, w :: ws => equal v w && equalAll vs ws
  | _, _ => false

end

/-! ### Text -/

mutual

/-- The text of a value. Functions and methods show no more than what they are. -/
def text : Value → String
  | .void => ""
  | .bool b => if b then "true" else "false"
  | .int n => toString n.toInt
  | .float x => Decimal.floatText x
  | .str s => s
  | .tuple vs => "(" ++ String.intercalate ", " (texts vs) ++ ")"
  | .func _ => "<func>"
  | .struct _ vs => "\x7b" ++ String.intercalate " " (texts vs) ++ "\x7d"
  | .method .. => "<method>"

/-- The texts of values in turn. -/
def texts : List Value → List String
  | [] => []
  | v :: vs => text v :: texts vs

end

end Value

end ScriptEngine
