import ScriptEngine.Universe.Basic

/-!
Attaching code to types: callables bound to the representations of receivers, and native
representations for interfaces.
-/

namespace ScriptEngine.Universe

/-- Empties every method slot that was resolved to `func`. -/
def forgetSlots (u : Universe) (func : FuncId) : Universe :=
  { u with descriptors := u.descriptors.mapValues (Descriptor.forget func) }

/-- Binds a callable to a representation. A callable it replaces is forgotten in all method tables,
so that its methods are resolved again. -/
def bindCallable (u : Universe) (repr : ReprId) (name : String) (callable : Callable) : Universe :=
  let replaced := u.reprs.callable? repr name
  let u := { u with reprs := u.reprs.bind repr name callable }
  match replaced with
  | some old => u.forgetSlots old.func
  | none => u

/-- Binds the implementation of a declared method to the representation of its receiver: the type's
own for a value receiver, its pointer's for a pointer receiver. -/
def bindMethod (ty : TypeId) (name : String) (func : FuncId) : UniverseM Callable := do
  let c := (← get).catalog
  match c.named? ty with
  | none => throw (.notNamed (c.typeName ty))
  | some d =>
    match d.methods.find? (·.name == name) with
    | none => throw (.undeclaredMethod (c.typeName ty) name)
    | some m => do
      let recv ← reprOf (m.sig.recv.getD ty)
      let f ← funcReprOf m.sig
      let callable : Callable := ⟨f.addReceiver recv, func⟩
      modify (·.bindCallable recv name callable)
      return callable

/-- The methods of a native interface by name; methods of one name keep their order. -/
def sortNative (methods : List NativeMethod) : List NativeMethod :=
  methods.mergeSort fun a b => !decide (b.name < a.name)

/-- Gives an interface a native representation with exactly the listed methods. -/
def registerNativeWith (ty : TypeId) (methods : List NativeMethod) : UniverseM ReprId := do
  let u ← get
  let c := u.catalog
  if (c.interface? ty).isNone then
    throw (.notInterface (c.typeName ty))
  if u.reprs.built.contains ty then
    throw (.reprAlreadyBuilt (c.typeName ty))
  let name := if c.isNamed ty then some (c.typeName ty) else none
  let (r, reprs) := u.reprs.push ⟨name, .interface (sortNative methods), .empty⟩
  set { u with reprs := reprs.record ty r }
  return r

/-- Gives an interface a native representation made from its declaration: the exported methods of
its complete set. -/
def registerNative (ty : TypeId) : UniverseM ReprId := do
  let c := (← get).catalog
  match c.interface? ty with
  | none => throw (.notInterface (c.typeName ty))
  | some d => do
    let exported := d.complete.filter fun m => Text.isExported m.name
    let methods ← exported.mapM fun m => do
      let f ← funcReprOf m.sig
      return (⟨m.name, f⟩ : NativeMethod)
    registerNativeWith ty methods

end ScriptEngine.Universe
