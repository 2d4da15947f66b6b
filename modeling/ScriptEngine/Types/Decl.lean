import ScriptEngine.Handle

/-!
Declarations of types: what the program text says of a type. How its values are represented when
the program runs is the business of `ScriptEngine.Repr`.
-/

namespace ScriptEngine

/-- Predeclared scalar types. -/
inductive BasicKind where
  | bool | int | float64 | string
  deriving DecidableEq, Repr, Inhabited

namespace BasicKind

/-- Every scalar type. -/
def all : List BasicKind := [.bool, .int, .float64, .string]

/-- The name a program uses. -/
def name : BasicKind → String
  | .bool => "bool"
  | .int => "int"
  | .float64 => "float64"
  | .string => "string"

/-- The scalar type called `s`. -/
def ofName? (s : String) : Option BasicKind :=
  all.find? fun k => k.name == s

end BasicKind

/-- The coarse class of a type once its name is unwrapped. `invalid` stands for a named type whose
underlying type is not known yet. -/
inductive Kind where
  | invalid | bool | int | float64 | string | ptr | slice | func | struct | interface
  deriving DecidableEq, Repr, Inhabited

namespace Kind

/-- Every class. -/
def all : List Kind :=
  [.invalid, .bool, .int, .float64, .string, .ptr, .slice, .func, .struct, .interface]

/-- The name of a class in messages. -/
def name : Kind → String
  | .invalid => "invalid"
  | .bool => "bool"
  | .int => "int"
  | .float64 => "float64"
  | .string => "string"
  | .ptr => "ptr"
  | .slice => "slice"
  | .func => "func"
  | .struct => "struct"
  | .interface => "interface"

/-- The class called `s`. -/
def ofName? (s : String) : Option Kind :=
  all.find? fun k => k.name == s

/-- The class of a scalar type. -/
def ofBasic : BasicKind → Kind
  | .bool => .bool
  | .int => .int
  | .float64 => .float64
  | .string => .string

end Kind

/-- The declared signature of a function or method. The receiver stands apart from the parameters;
the runtime view of the same method puts it first among them. -/
structure Signature where
  recv : Option TypeId
  params : List TypeId
  results : List TypeId
  variadic : Bool
  deriving DecidableEq, Repr, Inhabited

/-- How many parameters the runtime view has. -/
def Signature.runtimeArity (sig : Signature) : Nat :=
  sig.params.length + (if sig.recv.isSome then 1 else 0)

/-- A field of a struct. The methods of an embedded field are promoted to the struct. -/
structure FieldDecl where
  name : String
  ty : TypeId
  embedded : Bool
  deriving DecidableEq, Repr, Inhabited

/-- A declared method, of an interface or of a named type. `pkg` is missing for the main package. -/
structure MethodDecl where
  name : String
  pkg : Option String
  sig : Signature
  deriving DecidableEq, Repr, Inhabited

/-- An interface with the method sets computed when it is declared. -/
structure InterfaceDecl where
  /-- The methods written in the body, by name. -/
  explicit : List MethodDecl
  /-- The embedded interfaces in order of declaration. -/
  embedded : List TypeId
  /-- The methods of the body and of what is embedded, each name once, by name. -/
  complete : List MethodDecl
  deriving DecidableEq, Repr, Inhabited

/-- A named type. -/
structure NamedDecl where
  name : String
  pkg : Option String
  /-- Never itself a named type; missing until it is set. -/
  underlying : Option TypeId
  /-- The methods in order of declaration; positions here are method indices. -/
  methods : List MethodDecl
  deriving DecidableEq, Repr, Inhabited

/-- The declaration of a type. -/
inductive TypeDecl where
  | basic (kind : BasicKind)
  | pointer (elem : TypeId)
  | slice (elem : TypeId)
  | func (sig : Signature)
  | struct (fields : List FieldDecl)
  | interface (decl : InterfaceDecl)
  | named (decl : NamedDecl)
  deriving DecidableEq, Repr, Inhabited

/-- The position of the method called `name`. -/
def methodPosition? (methods : List MethodDecl) (name : String) : Option Nat :=
  methods.findIdx? fun m => m.name == name

/-- Methods by name, in the order of their code points; methods of one name keep their order. -/
def sortByName (methods : List MethodDecl) : List MethodDecl :=
  methods.mergeSort fun a b => !decide (b.name < a.name)

end ScriptEngine
