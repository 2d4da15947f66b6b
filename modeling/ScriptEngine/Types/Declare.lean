import ScriptEngine.Types.Display
import ScriptEngine.Types.Error

/-!
The declarations that can fail: interfaces, named types, their underlying types and their methods.
Each returns the extended catalog or the error alone, so a failed declaration changes nothing.
-/

namespace ScriptEngine.Catalog

/-- The methods of `acc` followed by those of `more` that have a new name. -/
def inherit (acc more : List MethodDecl) : List MethodDecl :=
  more.foldl (fun acc m => if acc.any (·.name == m.name) then acc else acc ++ [m]) acc

/-- Adds the complete sets of the embedded interfaces to `acc`, in order. -/
def inheritAll (c : Catalog) (explicit : List MethodDecl) :
    List MethodDecl → List TypeId → Except TypeError (List MethodDecl)
  | acc, [] => .ok acc
  | acc, e :: rest =>
    match c.interface? e with
    | some inner => c.inheritAll explicit (inherit acc inner.complete) rest
    | none => .error (.embeddedNotInterface (interfaceSummary explicit) (c.typeName e))

/-- A new interface. Its own methods get it as their receiver; the complete set is computed here,
once, from embedded interfaces that are complete already. -/
def interfaceOf (c : Catalog) (methods : List MethodDecl) (embedded : List TypeId) :
    Except TypeError (TypeId × Catalog) :=
  let explicit := sortByName (methods.map fun m => { m with sig := { m.sig with recv := c.next } })
  match c.inheritAll explicit explicit embedded with
  | .ok complete => .ok (c.push (.interface ⟨explicit, embedded, sortByName complete⟩))
  | .error e => .error e

/-- A new named type. What it stands for is set later, so that a declaration can mention itself. -/
def declareNamed (c : Catalog) (name : String) (pkg : Option String) :
    Except TypeError (TypeId × Catalog) :=
  match c.lookupNamed name with
  | some _ => .error (.duplicateType name)
  | none => .ok (c.push (.named ⟨name, pkg, none, []⟩))

/-- Replaces the declaration of a named type. -/
def setNamed (c : Catalog) (ty : TypeId) (d : NamedDecl) : Catalog :=
  ⟨c.decls.setIfInBounds ty.index (.named d)⟩

/-- What a type stands for when it is set as underlying type: a name passes on what it stands for. -/
def resolveUnderlying (c : Catalog) (ty : TypeId) : Except TypeError TypeId :=
  match c.named? ty with
  | none => .ok ty
  | some d => match d.underlying with
    | some u => .ok u
    | none => .error (.incompleteType (c.typeName ty))

/-- Sets what a named type stands for. -/
def setUnderlying (c : Catalog) (ty underlying : TypeId) : Except TypeError Catalog :=
  if ty = underlying then
    .error (.selfUnderlying (c.typeName ty))
  else
    match c.resolveUnderlying underlying with
    | .error e => .error e
    | .ok resolved => match c.named? ty with
      | none => .error (.notNamed (c.typeName ty))
      | some d =>
        if d.underlying.isSome then
          .error (.underlyingAlreadySet (c.typeName ty))
        else
          .ok (c.setNamed ty { d with underlying := some resolved })

/-- The kinds of types whose names cannot have methods of their own. -/
def refusesMethods : Kind → Bool
  | .interface | .ptr => true
  | _ => false

/-- A receiver of a method of `ty`: the type itself or a pointer to it. -/
def isReceiverOf (c : Catalog) (recv ty : TypeId) : Bool :=
  recv == ty || c.decl? recv == some (.pointer ty)

/-- Adds a method to a named type and returns its index. A method without a receiver gets the type
itself. -/
def addMethod (c : Catalog) (ty : TypeId) (m : MethodDecl) : Except TypeError (Nat × Catalog) :=
  match c.named? ty with
  | none => .error (.notNamed (c.typeName ty))
  | some d =>
    let recv := m.sig.recv.getD ty
    if refusesMethods (c.kindOf ty) then
      .error (.invalidMethodOwner (c.typeName ty) (c.kindOf ty))
    else if d.methods.any (·.name == m.name) then
      .error (.duplicateMethod (c.typeName ty) m.name)
    else if c.isReceiverOf recv ty then
      let m := { m with sig := { m.sig with recv := some recv } }
      .ok (d.methods.length, c.setNamed ty { d with methods := d.methods ++ [m] })
    else
      .error (.invalidReceiver (c.typeName ty) m.name (c.typeName recv))

end ScriptEngine.Catalog
