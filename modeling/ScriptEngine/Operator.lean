import ScriptEngine.Value
import ScriptEngine.Fault

/-!
Operators on values. Operands must be of one kind; nothing is converted. Integers are words of 64
bits and wrap; division truncates toward zero and fails on zero. `&&` and `||` are decided by
evaluation before they come here unless both operands are known.
-/

namespace ScriptEngine

namespace BinaryOp

/-- An operator on integers. -/
def onInts (op : BinaryOp) (a b : Int64) : Except Cause Value :=
  match op with
  | .add => .ok (.int (a + b))
  | .sub => .ok (.int (a - b))
  | .mul => .ok (.int (a * b))
  | .div => if b = 0 then .error .divisionByZero else .ok (.int (a / b))
  | .rem => if b = 0 then .error .divisionByZero else .ok (.int (a % b))
  | .eq => .ok (.bool (a == b))
  | .notEq => .ok (.bool (a != b))
  | .lt => .ok (.bool (a < b))
  | .ltEq => .ok (.bool (a ≤ b))
  | .gt => .ok (.bool (b < a))
  | .gtEq => .ok (.bool (b ≤ a))
  | .and | .or => .error (.invalidBinaryOp "int" op)

/-- An operator on floats. -/
def onFloats (op : BinaryOp) (a b : Float) : Except Cause Value :=
  match op with
  | .add => .ok (.float (a + b))
  | .sub => .ok (.float (a - b))
  | .mul => .ok (.float (a * b))
  | .div => .ok (.float (a / b))
  | .eq => .ok (.bool (a == b))
  | .notEq => .ok (.bool (a != b))
  | .lt => .ok (.bool (a < b))
  | .ltEq => .ok (.bool (a ≤ b))
  | .gt => .ok (.bool (b < a))
  | .gtEq => .ok (.bool (b ≤ a))
  | .rem | .and | .or => .error (.invalidBinaryOp "float64" op)

/-- An operator on truth values. -/
def onBools (op : BinaryOp) (a b : Bool) : Except Cause Value :=
  match op with
  | .eq => .ok (.bool (a == b))
  | .notEq => .ok (.bool (a != b))
  | .and => .ok (.bool (a && b))
  | .or => .ok (.bool (a || b))
  | _ => .error (.invalidBinaryOp "bool" op)

/-- An operator on texts, which are ordered by code points. -/
def onStrings (op : BinaryOp) (a b : String) : Except Cause Value :=
  match op with
  | .add => .ok (.str (a ++ b))
  | .eq => .ok (.bool (a == b))
  | .notEq => .ok (.bool (a != b))
  | .lt => .ok (.bool (a < b))
  | .ltEq => .ok (.bool (!decide (b < a)))
  | .gt => .ok (.bool (b < a))
  | .gtEq => .ok (.bool (!decide (a < b)))
  | _ => .error (.invalidBinaryOp "string" op)

/-- An operator on values of one other kind, which can only be compared for equality. -/
def onOthers (op : BinaryOp) (left right : Value) : Except Cause Value :=
  match op with
  | .eq => .ok (.bool (left.equal right))
  | .notEq => .ok (.bool (!left.equal right))
  | _ => .error (.invalidBinaryOp left.kindName op)

/-- The value of `left op right`. -/
def apply (op : BinaryOp) (left right : Value) : Except Cause Value :=
  match left, right with
  | .int a, .int b => op.onInts a b
  | .float a, .float b => op.onFloats a b
  | .bool a, .bool b => op.onBools a b
  | .str a, .str b => op.onStrings a b
  | _, _ =>
    if left.kindName = right.kindName then op.onOthers left right
    else .error (.binaryTypeMismatch left.kindName right.kindName)

end BinaryOp

/-- The value of `op operand`. -/
def UnaryOp.apply (op : UnaryOp) (operand : Value) : Except Cause Value :=
  match op, operand with
  | .neg, .int n => .ok (.int (-n))
  | .neg, .float x => .ok (.float (-x))
  | .not, .bool b => .ok (.bool (!b))
  | .neg, _ => .error (.typeMismatch "number" operand.kindName)
  | .not, _ => .error (.typeMismatch "bool" operand.kindName)

/-- The value after `++` or `--`. -/
def Value.step (increment : Bool) : Value → Except Cause Value
  | .int n => .ok (.int (if increment then n + 1 else n - 1))
  | .float x => .ok (.float (if increment then x + 1 else x + -1))
  | v => .error (.typeMismatch "number" v.kindName)

end ScriptEngine
