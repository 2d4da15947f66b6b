import ScriptEngine.Span

/-!
Programs as trees. Every expression and statement carries the span it was read from. Trees have no
node numbers; where a program tells one function literal from another, the spans of their bodies
stand for these. That is right for programs in which no two bodies have the same span, which is what
`Identified` says of a program.
-/

namespace ScriptEngine

/-! ### Operators -/

/-- Binary operators. -/
inductive BinaryOp where
  | add | sub | mul | div | rem
  | eq | notEq | lt | ltEq | gt | gtEq
  | and | or
  deriving DecidableEq, Repr, Inhabited

namespace BinaryOp

/-- Every operator, in order of declaration. -/
def all : List BinaryOp :=
  [.add, .sub, .mul, .div, .rem, .eq, .notEq, .lt, .ltEq, .gt, .gtEq, .and, .or]

/-- The spelling of an operator. -/
def symbol : BinaryOp → String
  | .add => "+"
  | .sub => "-"
  | .mul => "*"
  | .div => "/"
  | .rem => "%"
  | .eq => "=="
  | .notEq => "!="
  | .lt => "<"
  | .ltEq => "<="
  | .gt => ">"
  | .gtEq => ">="
  | .and => "&&"
  | .or => "||"

/-- The operator spelled `s`. -/
def ofSymbol? (s : String) : Option BinaryOp :=
  all.find? fun op => op.symbol == s

/-- The operators that may leave their right operand unevaluated. -/
def shortCircuits : BinaryOp → Bool
  | .and | .or => true
  | _ => false

/-- Reading undoes spelling. -/
theorem ofSymbol?_symbol (op : BinaryOp) : ofSymbol? op.symbol = some op := by
  cases op <;> decide +kernel

end BinaryOp

/-- Unary operators. -/
inductive UnaryOp where
  | neg | not
  deriving DecidableEq, Repr, Inhabited

/-- The jumps a program can ask for. -/
inductive Jump where
  | leaveLoop | nextRound | goto | fallthrough
  deriving DecidableEq, Repr, Inhabited

/-- The keyword of a jump. -/
def Jump.keyword : Jump → String
  | .leaveLoop => "break"
  | .nextRound => "continue"
  | .goto => "goto"
  | .fallthrough => "fallthrough"

/-- Every jump. -/
def Jump.all : List Jump := [.leaveLoop, .nextRound, .goto, .fallthrough]

/-- The jump with this keyword. -/
def Jump.ofKeyword? (s : String) : Option Jump :=
  all.find? fun j => j.keyword == s

/-! ### Trees -/

/-- One arm of a switch; `values` is missing for the default arm. -/
structure Clause (ε σ : Type) where
  values : Option (List ε)
  body : List σ

/-- One line of a constant block. Without `values` it repeats the values of the line before. -/
structure ConstSpec (ε : Type) where
  names : List String
  values : List ε

mutual

/-- Expressions. -/
inductive Expr where
  | int (span : Span) (value : Int64)
  | float (span : Span) (value : Float)
  | str (span : Span) (value : String)
  | ident (span : Span) (name : String)
  | binary (span : Span) (op : BinaryOp) (left right : Expr)
  | unary (span : Span) (op : UnaryOp) (operand : Expr)
  | call (span : Span) (callee : Expr) (args : List Expr)
  | func (span : Span) (params : List String) (body : Stmt)
  | select (span : Span) (base : Expr) (name : String)
  | composite (span : Span) (typeName : String) (fields : List Expr)

/-- Statements. -/
inductive Stmt where
  | empty (span : Span)
  | expr (span : Span) (value : Expr)
  | define (span : Span) (names : List String) (values : List Expr)
  | assign (span : Span) (targets : List String) (op : Option BinaryOp) (values : List Expr)
  | incDec (span : Span) (target : String) (increment : Bool)
  | block (span : Span) (body : List Stmt)
  | branch (span : Span) (first : Option Stmt) (cond : Expr) (body : Stmt) (otherwise : Option Stmt)
  | loop (span : Span) (first : Option Stmt) (cond : Option Expr) (post : Option Stmt) (body : Stmt)
  | jump (span : Span) (kind : Jump) (label : Option String)
  | result (span : Span) (values : List Expr)
  | labeled (span : Span) (label : String) (body : Stmt)
  | switch (span : Span) (first : Option Stmt) (tag : Option Expr) (clauses : List (Clause Expr Stmt))
  | constants (span : Span) (specs : List (ConstSpec Expr))

end

/-- The span an expression was read from. -/
def Expr.span : Expr → Span
  | .int s .. | .float s .. | .str s .. | .ident s .. | .binary s .. | .unary s .. | .call s ..
  | .func s .. | .select s .. | .composite s .. => s

/-- The span a statement was read from. -/
def Stmt.span : Stmt → Span
  | .empty s .. | .expr s .. | .define s .. | .assign s .. | .incDec s .. | .block s ..
  | .branch s .. | .loop s .. | .jump s .. | .result s .. | .labeled s .. | .switch s ..
  | .constants s .. => s

instance : Inhabited Expr := ⟨.int default 0⟩

instance : Inhabited Stmt := ⟨.empty default⟩

/-- The name a call to this expression goes by in a backtrace: the identifier or the selected name,
and a fixed word for every other callee. -/
def Expr.calleeName : Expr → String
  | .ident _ name => name
  | .select _ _ name => name
  | _ => "func"

/-! ### Function literals -/

mutual

/-- The bodies of the function literals in an expression, one for each literal: the body itself, and
then those of the literals inside it. -/
def Expr.bodies : Expr → List Stmt
  | .int .. | .float .. | .str .. | .ident .. => []
  | .binary _ _ left right => left.bodies ++ right.bodies
  | .unary _ _ operand => operand.bodies
  | .call _ callee args => callee.bodies ++ Expr.bodiesOf args
  | .func _ _ body => body :: body.bodies
  | .select _ base _ => base.bodies
  | .composite _ _ fields => Expr.bodiesOf fields

/-- The bodies of the function literals in a statement. -/
def Stmt.bodies : Stmt → List Stmt
  | .empty _ | .incDec .. | .jump .. => []
  | .expr _ value => value.bodies
  | .define _ _ values | .assign _ _ _ values | .result _ values => Expr.bodiesOf values
  | .block _ body => Stmt.bodiesOf body
  | .branch _ first cond body otherwise =>
    Stmt.bodiesOf? first ++ cond.bodies ++ body.bodies ++ Stmt.bodiesOf? otherwise
  | .loop _ first cond post body =>
    Stmt.bodiesOf? first ++ Expr.bodiesOf? cond ++ Stmt.bodiesOf? post ++ body.bodies
  | .labeled _ _ body => body.bodies
  | .switch _ first tag clauses =>
    Stmt.bodiesOf? first ++ Expr.bodiesOf? tag ++ Clause.bodiesOf clauses
  | .constants _ specs => ConstSpec.bodiesOf specs

def Expr.bodiesOf : List Expr → List Stmt
  | [] => []
  | e :: rest => e.bodies ++ Expr.bodiesOf rest

def Expr.bodiesOf? : Option Expr → List Stmt
  | none => []
  | some e => e.bodies

/-- The bodies of the function literals in several statements, as of a whole program. -/
def Stmt.bodiesOf : List Stmt → List Stmt
  | [] => []
  | s :: rest => s.bodies ++ Stmt.bodiesOf rest

def Stmt.bodiesOf? : Option Stmt → List Stmt
  | none => []
  | some s => s.bodies

def Clause.valueBodies : Option (List Expr) → List Stmt
  | none => []
  | some values => Expr.bodiesOf values

def Clause.bodiesOf : List (Clause Expr Stmt) → List Stmt
  | [] => []
  | ⟨values, body⟩ :: rest =>
    Clause.valueBodies values ++ Stmt.bodiesOf body ++ Clause.bodiesOf rest

def ConstSpec.bodiesOf : List (ConstSpec Expr) → List Stmt
  | [] => []
  | ⟨_, values⟩ :: rest => Expr.bodiesOf values ++ ConstSpec.bodiesOf rest

end

/-- No two function literals of a program have bodies with the same span. -/
def Identified (program : List Stmt) : Prop :=
  ((Stmt.bodiesOf program).map Stmt.span).Nodup

instance (program : List Stmt) : Decidable (Identified program) :=
  inferInstanceAs (Decidable (List.Nodup _))

end ScriptEngine
