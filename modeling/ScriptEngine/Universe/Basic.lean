import ScriptEngine.Repr.Build
import ScriptEngine.Repr.Display
import ScriptEngine.Text.Uppercase

/-!
The universe of types: the catalog of declarations, the representations made for them, and one
descriptor for each type that was asked for methods. Declarations act on the catalog alone; this
module lifts them, and building representations, to the universe.
-/

namespace ScriptEngine

/-- The cached runtime half of a resolved method. -/
structure MethodSlot where
  /-- Missing for an unexported method of a native interface. -/
  ty : Option FuncRepr
  /-- Missing for interface methods, which are found through the value at run time. -/
  func : Option FuncId
  deriving DecidableEq, Repr, Inhabited

/-- The slot of a method that has no runtime half. -/
def MethodSlot.blank : MethodSlot := ⟨none, none⟩

/-- The runtime descriptor of a type, with its table of method slots. -/
structure Descriptor where
  kind : Kind
  named : Bool
  repr : ReprId
  slots : List (Option MethodSlot)
  deriving DecidableEq, Repr, Inhabited

namespace Descriptor

/-- The slot of a method, if it is filled. -/
def slot? (d : Descriptor) (index : Nat) : Option MethodSlot :=
  (d.slots[index]?).join

/-- The number of filled slots. -/
def cachedCount (d : Descriptor) : Nat :=
  d.slots.countP Option.isSome

/-- The table with `count` places; filled slots below `count` stay. -/
def resize (d : Descriptor) (count : Nat) : Descriptor :=
  { d with slots := d.slots.take count ++ List.replicate (count - d.slots.length) none }

/-- Fills a slot. -/
def fill (d : Descriptor) (index : Nat) (slot : MethodSlot) : Descriptor :=
  { d with slots := d.slots.set index (some slot) }

/-- Empties every slot that holds the callable `func`. -/
def forget (func : FuncId) (d : Descriptor) : Descriptor :=
  { d with slots := d.slots.map fun s => s.filter fun slot => slot.func != some func }

end Descriptor

/-- All types known to a session. -/
structure Universe where
  catalog : Catalog
  reprs : ReprTable
  descriptors : Assoc TypeId Descriptor
  /-- The number of callables handed out. -/
  funcs : Nat
  /-- The number of descriptors made so far. -/
  described : Nat
  /-- The number of method slots filled so far. -/
  synthesized : Nat
  deriving Inhabited

/-- Operations on a universe: they may fail, and keep what they did before they failed. -/
abbrev UniverseM := ExceptT TypeError (StateM Universe)

namespace Universe

/-- The universe without types. -/
def empty : Universe := ⟨.empty, .empty, .empty, 0, 0, 0⟩

/-- The counters as a short text. -/
def summary (u : Universe) : String :=
  "TypeUniverse \x7b " ++
    s!"types: {u.catalog.size}, reprs: {u.reprs.size}, descriptors: {u.descriptors.size}, .. " ++
    "\x7d"

/-- An answer that changes nothing. -/
def ofExcept {α : Type} : Except TypeError α → UniverseM α
  | .ok a => return a
  | .error e => throw e

/-! ### Declarations -/

/-- Runs a declaration that always succeeds. -/
def declare {α : Type} (f : Catalog → α × Catalog) : UniverseM α :=
  modifyGet fun u => let (a, catalog) := f u.catalog; (a, { u with catalog })

/-- Runs a declaration that can fail; a failure changes nothing. -/
def tryDeclare {α : Type} (f : Catalog → Except TypeError (α × Catalog)) : UniverseM α := do
  match f (← get).catalog with
  | .ok (a, catalog) =>
    modify fun u => { u with catalog }
    return a
  | .error e => throw e

/-- The scalar type of a kind. -/
def basic (kind : BasicKind) : UniverseM TypeId :=
  declare (·.basic kind)

/-- The type of pointers to `elem`. -/
def pointerTo (elem : TypeId) : UniverseM TypeId :=
  declare (·.pointerTo elem)

/-- The type of slices of `elem`. -/
def sliceOf (elem : TypeId) : UniverseM TypeId :=
  declare (·.sliceOf elem)

/-- A new function type. -/
def funcOf (sig : Signature) : UniverseM TypeId :=
  declare (·.funcOf sig)

/-- A new struct type. -/
def structOf (fields : List FieldDecl) : UniverseM TypeId :=
  declare (·.structOf fields)

/-- A new interface type. -/
def interfaceOf (methods : List MethodDecl) (embedded : List TypeId) : UniverseM TypeId :=
  tryDeclare (·.interfaceOf methods embedded)

/-- A new named type. -/
def declareNamed (name : String) (pkg : Option String) : UniverseM TypeId :=
  tryDeclare (·.declareNamed name pkg)

/-- Sets what a named type stands for. -/
def setUnderlying (ty underlying : TypeId) : UniverseM Unit :=
  tryDeclare fun c => (c.setUnderlying ty underlying).map (((), ·))

/-- Adds a method to a named type and returns its index. -/
def addMethod (ty : TypeId) (m : MethodDecl) : UniverseM Nat :=
  tryDeclare (·.addMethod ty m)

/-! ### Representations and callables -/

/-- Runs an operation on representations. -/
def onReprs {α : Type} (f : Catalog → ReprM α) : UniverseM α := do
  let u ← get
  let (result, reprs) := (f u.catalog).run.run u.reprs
  set { u with reprs }
  ofExcept result

/-- The representation of a type, built on the first request. -/
def reprOf (ty : TypeId) : UniverseM ReprId :=
  onReprs fun c => ReprM.reprOf c ty

/-- The runtime view of a declared signature, without its receiver. -/
def funcReprOf (sig : Signature) : UniverseM FuncRepr :=
  onReprs fun c => ReprM.funcReprOf c sig

/-- The representation of pointers to `repr`. -/
def pointerToRepr (repr : ReprId) : UniverseM ReprId :=
  modifyGet fun u => let (r, reprs) := u.reprs.pointerTo repr; (r, { u with reprs })

/-- A fresh callable. -/
def allocFunc : UniverseM FuncId :=
  modifyGet fun u => (⟨u.funcs⟩, { u with funcs := u.funcs + 1 })

end Universe

end ScriptEngine
