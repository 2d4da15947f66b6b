import ScriptEngine.Eval.Call

/-!
Struct values, their fields and their methods.

A selector names a field of the value or of what it embeds, and otherwise a method. A method is found
among the declarations of the value's type; its receiver is the embedded value that the path leads
to, and its callable is whatever the universe resolves the declared method to.
-/

namespace ScriptEngine.Evaluator

mutual

/-- The field `name` of a struct value, or else of the first embedded struct value that has it, in
order of declaration. -/
def field? (c : Catalog) (name : String) : Value → Option Value
  | .struct ty fields =>
    match c.structFields? ty with
    | none => none
    | some decls =>
      match decls.findIdx? (fun d => d.name == name) with
      | some i => fields[i]?
      | none => embeddedField? c name decls fields
  | _ => none

/-- The field `name` of the first embedded value that has it. -/
def embeddedField? (c : Catalog) (name : String) : List FieldDecl → List Value → Option Value
  | d :: decls, v :: vs =>
    match if d.embedded then field? c name v else none with
    | some found => some found
    | none => embeddedField? c name decls vs
  | _, _ => none

end

/-- Follows embedded fields to the receiver of a promoted method. A step fails on a value that has
no such field. -/
def follow (name : String) : List Nat → Value → Except Cause Value
  | [], v => .ok v
  | i :: path, .struct ty fields =>
    match fields[i]? with
    | some v => follow name path v
    | none => .error (.undefinedField name (Value.struct ty fields).kindName)
  | _ :: _, v => .error (.undefinedField name v.kindName)

/-- The method `name` of a struct value of type `ty`, bound to its receiver. -/
def selectMethod (recv : Value) (ty : TypeId) (name : String) : Eval EvalError Value := do
  let c ← Eval.asks (·.types.catalog)
  match c.findMethod ty name with
  | none => Eval.fail (.undefinedField name (c.typeName ty))
  | some path => do
    let target ← Eval.ofExcept (follow name path.fields recv)
    let method ← Eval.onTypes (Universe.method path.owner path.index)
    match method.func with
    | some func => return .method target func name
    | none => Eval.fail (.undefinedMethod name (c.typeName path.owner))

/-- `base.name` for the value of `base`: a field or else a method. Only struct values have either. -/
def selectFrom (recv : Value) (name : String) : Eval EvalError Value :=
  match recv with
  | .struct ty _ => do
    match ← Eval.asks fun m => field? m.types.catalog name recv with
    | some v => return v
    | none => selectMethod recv ty name
  | v => Eval.fail (.undefinedField name v.kindName)

/-- `base.name`. -/
def select (ev : Evaluator) (base : Expr) (name : String) : Eval EvalError Value := do
  let recv ← ev.expr base
  selectFrom recv name

/-- A value of a named struct type. The type and the number of fields are checked before any field
is evaluated. -/
def composite (ev : Evaluator) (typeName : String) (fields : List Expr) :
    Eval EvalError Value := do
  let c ← Eval.asks (·.types.catalog)
  match c.lookupNamed typeName with
  | none => Eval.fail (.undefinedType typeName)
  | some ty =>
    match c.structFields? ty with
    | none => Eval.fail (.typeMismatch Kind.struct.name (c.kindOf ty).name)
    | some decls =>
      if decls.length = fields.length then do
        let vs ← ev.exprs fields
        return .struct ty vs
      else
        Eval.fail (.assignmentMismatch decls.length fields.length)

/-! ### Declaring methods -/

/-- Declares a method in the universe and binds a fresh callable to it: the steps in order, of which
the last may fail after the others are done. -/
def declareBound (ty : TypeId) (m : MethodDecl) (pointerReceiver : Bool) :
    UniverseM (Nat × FuncId) := do
  let recv ← if pointerReceiver then some <$> Universe.pointerTo ty else pure m.sig.recv
  let index ← Universe.addMethod ty { m with sig := { m.sig with recv } }
  let func ← Universe.allocFunc
  let _ ← Universe.bindMethod ty m.name func
  return (index, func)

/-- Declares a method of a named type with the function that implements it, whose first parameter is
the receiver. Returns the method's index. -/
def declareMethod (ty : TypeId) (m : MethodDecl) (f : Function) (pointerReceiver : Bool) :
    Eval EvalError Nat := do
  let expected := m.sig.params.length + 1
  if f.params.length = expected then do
    let (index, func) ← Eval.onTypes (declareBound ty m pointerReceiver)
    Eval.update fun m => { m with functions := m.functions.set func f }
    return index
  else
    Eval.fail (.arityMismatch m.name expected f.params.length)

end ScriptEngine.Evaluator
