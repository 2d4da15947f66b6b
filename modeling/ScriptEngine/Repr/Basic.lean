import ScriptEngine.Types.Decl
import ScriptEngine.Assoc

/-!
Runtime representations. Unnamed representations are interned by their structure, so equal kinds
share one handle; a named type always gets a representation of its own, which starts as a
placeholder while its parts are built.

An interface declared by a program is represented by a pointer to a struct: a header, an empty array
that marks what is embedded, and one function field for each method of the complete set.
-/

namespace ScriptEngine

/-- The runtime view of a function type; a receiver is its first parameter. -/
structure FuncRepr where
  params : List ReprId
  results : List ReprId
  variadic : Bool
  deriving DecidableEq, Repr, Inhabited

namespace FuncRepr

/-- Puts a receiver before the parameters. -/
def addReceiver (recv : ReprId) (f : FuncRepr) : FuncRepr :=
  { f with params := recv :: f.params }

/-- Takes the first parameter away, if there is one. -/
def removeReceiver (f : FuncRepr) : FuncRepr :=
  { f with params := f.params.tail }

@[simp]
theorem removeReceiver_addReceiver (recv : ReprId) (f : FuncRepr) :
    (f.addReceiver recv).removeReceiver = f := rfl

end FuncRepr

/-- A field of a struct representation. -/
structure ReprField where
  name : String
  repr : ReprId
  embedded : Bool
  deriving DecidableEq, Repr, Inhabited

/-- A method of a native interface, without receiver. -/
structure NativeMethod where
  name : String
  ty : FuncRepr
  deriving DecidableEq, Repr, Inhabited

/-- The structure of a representation. -/
inductive ReprKind where
  /-- The placeholder of a named representation that is being built. -/
  | invalid
  | basic (kind : BasicKind)
  /-- The first field of an emulated interface. -/
  | header
  | pointer (elem : ReprId)
  | slice (elem : ReprId)
  | array (len : Nat) (elem : ReprId)
  | func (ty : FuncRepr)
  | struct (fields : List ReprField)
  /-- A native interface: its methods by name. -/
  | interface (methods : List NativeMethod)
  deriving DecidableEq, Repr, Inhabited

/-- The field of an emulated interface that holds its first method. -/
def interfaceSlotOffset : Nat := 2

/-- A callable of a representation's method set; its type has the receiver first. -/
structure Callable where
  ty : FuncRepr
  func : FuncId
  deriving DecidableEq, Repr, Inhabited

/-- A representation with the callables bound to it. -/
structure ReprData where
  /-- The display name of a named representation. -/
  name : Option String
  kind : ReprKind
  /-- The bound callables by method name, in order of first binding. -/
  methods : Assoc String Callable
  deriving Inhabited

/-- The callable bound under `name`. -/
def ReprData.methodByName? (d : ReprData) (name : String) : Option Callable :=
  d.methods.find? name

/-- The position and type of the method `name` of a native interface. -/
def ReprKind.nativeMethod? (kind : ReprKind) (name : String) : Option (Nat × FuncRepr) :=
  match kind with
  | .interface methods =>
    match methods.findIdx? (fun m => m.name == name) with
    | some i => methods[i]?.map fun m => (i, m.ty)
    | none => none
  | _ => none

/-- The representations of a function type. -/
def FuncRepr.parts (f : FuncRepr) : List ReprId :=
  f.params ++ f.results

/-- The representations that a kind is built from. -/
def ReprKind.parts : ReprKind → List ReprId
  | .invalid | .basic _ | .header => []
  | .pointer elem | .slice elem | .array _ elem => [elem]
  | .func f => f.parts
  | .struct fields => fields.map (·.repr)
  | .interface methods => methods.flatMap (·.ty.parts)

/-- All representations, with the one of each type that is finished. -/
structure ReprTable where
  reprs : Array ReprData
  built : Assoc TypeId ReprId
  deriving Inhabited

namespace ReprTable

/-- The table without representations. -/
def empty : ReprTable := ⟨#[], .empty⟩

/-- The number of representations ever made. -/
def size (t : ReprTable) : Nat :=
  t.reprs.size

/-- A representation. -/
def get? (t : ReprTable) (r : ReprId) : Option ReprData :=
  t.reprs[r.index]?

/-- The structure of a representation; one that does not exist is invalid. -/
def kind (t : ReprTable) (r : ReprId) : ReprKind :=
  match t.get? r with
  | some d => d.kind
  | none => .invalid

/-- Adds a representation. -/
def push (t : ReprTable) (d : ReprData) : ReprId × ReprTable :=
  (⟨t.reprs.size⟩, { t with reprs := t.reprs.push d })

/-- The unnamed representation of a kind, made if there is none yet. -/
def intern (t : ReprTable) (kind : ReprKind) : ReprId × ReprTable :=
  match t.reprs.findIdx? (fun d => d.name.isNone && d.kind == kind) with
  | some i => (⟨i⟩, t)
  | none => t.push ⟨none, kind, .empty⟩

/-- The representation of pointers to `elem`. -/
def pointerTo (t : ReprTable) (elem : ReprId) : ReprId × ReprTable :=
  t.intern (.pointer elem)

/-- The callable bound to a representation under `name`. -/
def callable? (t : ReprTable) (r : ReprId) (name : String) : Option Callable :=
  (t.get? r).bind (·.methodByName? name)

/-- Binds a callable, in place of what was bound under that name. -/
def bind (t : ReprTable) (r : ReprId) (name : String) (callable : Callable) : ReprTable :=
  { t with reprs := t.reprs.modify r.index fun d =>
      { d with methods := d.methods.set name callable } }

/-- Fills a placeholder with the structure of another representation. -/
def complete (t : ReprTable) (r source : ReprId) : ReprTable :=
  let kind := t.kind source
  { t with reprs := t.reprs.modify r.index fun d => { d with kind } }

/-- Records the finished representation of a type. -/
def record (t : ReprTable) (ty : TypeId) (r : ReprId) : ReprTable :=
  { t with built := t.built.set ty r }

/-- The fields of the struct behind an emulated interface: a pointer to a struct that starts with a
header. -/
def emulatedFields? (t : ReprTable) (r : ReprId) : Option (List ReprField) :=
  match t.kind r with
  | .pointer body => match t.kind body with
    | .struct fields => match fields with
      | first :: _ => if t.kind first.repr = .header then some fields else none
      | [] => none
    | _ => none
  | _ => none

/-! ### What a representation reaches -/

/-- Adds to `seen` every representation reached from `todo`; `fuel` bounds how many are new. -/
def reachFrom (t : ReprTable) : Nat → List ReprId → List ReprId → List ReprId
  | 0, seen, _ => seen
  | fuel + 1, seen, todo =>
    let fresh := todo.eraseDups.filter fun r => !seen.contains r
    if fresh.isEmpty then seen
    else t.reachFrom fuel (seen ++ fresh) (fresh.flatMap fun r => (t.kind r).parts)

/-- The representations reached from one through its parts, itself included, in order of handles. -/
def reachable (t : ReprTable) (r : ReprId) : List ReprId :=
  (t.reachFrom (t.size + 1) [] [r]).mergeSort fun a b => a.index ≤ b.index

end ReprTable

end ScriptEngine
