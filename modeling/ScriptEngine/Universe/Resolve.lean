import ScriptEngine.Universe.Binding

/-!
Resolving methods. `resolve ty i` maps the `i`-th method of a named type or an interface to its
runtime half and keeps that in the type's descriptor, so the work is done at most once; `cached?`
answers from the descriptor alone. Promoted methods have no index: they are found by
`Catalog.findMethod`.

Some errors quote the display name of a representation. Where that has no end, the request is not
answered: it stands as `TypeError.endless`.
-/

namespace ScriptEngine

/-- Both views of a method's type. -/
structure MethodType where
  signature : Signature
  runtime : FuncRepr
  deriving DecidableEq, Repr

/-- A resolved method. -/
structure Method where
  /-- The type whose method table holds the slot. -/
  owner : TypeId
  index : Nat
  decl : MethodDecl
  ty : Option MethodType
  /-- The bound implementation; interface methods have none. -/
  func : Option FuncId
  deriving DecidableEq, Repr

/-- Where the slot of a method lives, as in `TypeId#2[0]`. -/
def Method.slotText (m : Method) : String :=
  s!"{m.owner.text}[{m.index}]"

/-- A slot made for a method. What is not cacheable is handed out but not kept, so that a later
binding is seen. -/
structure Synthesized where
  slot : MethodSlot
  cacheable : Bool
  deriving DecidableEq, Repr

namespace Universe

/-- The name and runtime type of a method. -/
def methodText (u : Universe) (m : Method) : Option String :=
  match m.ty with
  | some ty => (m.decl.name ++ " " ++ ·) <$> u.reprs.funcName ty.runtime
  | none => some (m.decl.name ++ " <unresolved>")

/-- The method at an index; methods are asked of named types and interfaces only, never of
pointers. -/
def methodAt (c : Catalog) (ty : TypeId) (index : Nat) : Except TypeError MethodDecl :=
  let kind := c.kindOf ty
  if kind = .ptr then
    .error (.methodOnPointer (c.typeName ty) kind index)
  else if !c.isNamed ty && kind != .interface then
    .error (.cannotHaveMethods (c.typeName ty) kind index)
  else match (c.methods ty)[index]? with
    | some m => .ok m
    | none => .error (.methodIndexOutOfRange (c.typeName ty) index (c.numMethod ty))

/-- The descriptor of a type, created and counted on the first request. -/
def descriptor (ty : TypeId) : UniverseM Descriptor := do
  let u ← get
  match u.descriptors.find? ty with
  | some d => return d
  | none => do
    let kind := u.catalog.kindOf ty
    if kind = .invalid then
      throw (.incompleteType (u.catalog.typeName ty))
    let repr ← reprOf ty
    let d : Descriptor := ⟨kind, u.catalog.isNamed ty, repr, []⟩
    modify fun u => { u with
      descriptors := u.descriptors.set ty d
      described := u.described + 1 }
    return d

/-- The slot of an interface method: read from the emulated struct, or from the list of a native
interface, which must agree on the index. Native interfaces do not show unexported methods. -/
def interfaceSlot (u : Universe) (ty : TypeId) (index : Nat) (name : String) (repr : ReprId) :
    Except TypeError Synthesized :=
  let found (f : FuncRepr) : Synthesized := ⟨⟨some (f.addReceiver repr), none⟩, true⟩
  let inconsistent := TypeError.quoting (.inconsistentInterface (u.catalog.typeName ty))
    (u.reprs.reprName repr)
  match u.reprs.emulatedFields? repr with
  | some fields =>
    match (fields[index + interfaceSlotOffset]?).map fun f => u.reprs.kind f.repr with
    | some (.func f) => .ok (found f)
    | _ => .error inconsistent
  | none =>
    match u.reprs.kind repr with
    | .interface methods =>
      if Text.isExported name then
        match (ReprKind.interface methods).nativeMethod? name with
        | none => .error (.interfaceMethodNotFound (u.catalog.typeName ty) name)
        | some (runtime, f) =>
          if runtime = index then .ok (found f)
          else .error (.interfaceIndexMismatch (u.catalog.typeName ty) name index runtime)
      else
        .ok ⟨.blank, true⟩
    | _ => .error inconsistent

/-- The callable bound for a method of a named type: on its representation or, failing that, on the
representation of pointers to it, unless it is a pointer already. -/
def boundCallable (repr : ReprId) (name : String) : UniverseM (Option Callable) := do
  let t := (← get).reprs
  match t.callable? repr name with
  | some callable => return some callable
  | none =>
    match t.kind repr with
    | .pointer _ => return none
    | _ => do
      let ptr ← pointerToRepr repr
      return (← get).reprs.callable? ptr name

/-- The slot of a method of a type represented by `repr`. An unexported method without a binding is
answered without a runtime half. -/
def synthesize (ty : TypeId) (index : Nat) (m : MethodDecl) (repr : ReprId) :
    UniverseM Synthesized := do
  let u ← get
  if (u.catalog.interface? ty).isSome then
    ofExcept (u.interfaceSlot ty index m.name repr)
  else
    match ← boundCallable repr m.name with
    | some callable => return ⟨⟨some callable.ty, some callable.func⟩, true⟩
    | none =>
      if Text.isExported m.name then
        throw (.methodNotFound (u.catalog.typeName ty) m.name)
      else
        return ⟨.blank, false⟩

/-- How a message speaks of a receiver. -/
def receiverText (c : Catalog) : Option TypeId → String
  | some recv => s!"receiver <{c.typeName recv}>"
  | none => "no receiver"

/-- Pairs a declaration with its slot. A runtime type must have the declared parameters and, if
there is one, the receiver. -/
def makeMethod (u : Universe) (ty : TypeId) (index : Nat) (m : MethodDecl) (slot : MethodSlot) :
    Except TypeError Method :=
  let paired : Method := ⟨ty, index, m, slot.ty.map fun f => ⟨m.sig, f⟩, slot.func⟩
  match slot.ty with
  | none => .ok paired
  | some f =>
    if f.params.length = m.sig.runtimeArity then .ok paired
    else .error (.quoting (.signatureArityMismatch (u.catalog.typeName ty) index
      (receiverText u.catalog m.sig.recv) m.sig.params.length (u.catalog.signatureName m.sig)
      f.params.length) (u.reprs.funcName f))

/-- The method at an index as it stands in the cache; missing if its slot is empty. -/
def cached? (u : Universe) (ty : TypeId) (index : Nat) : Option (Except TypeError Method) :=
  match (u.descriptors.find? ty).bind (·.slot? index) with
  | none => none
  | some slot =>
    match (u.catalog.methods ty)[index]? with
    | none => some (.error
        (.methodIndexOutOfRange (u.catalog.typeName ty) index (u.catalog.numMethod ty)))
    | some m => some (u.makeMethod ty index m slot)

/-- Writes back the descriptor of a type. -/
def setDescriptor (ty : TypeId) (d : Descriptor) : UniverseM Unit :=
  modify fun u => { u with descriptors := u.descriptors.set ty d }

/-- Fills a slot of a type's method table and counts it. -/
def fillSlot (ty : TypeId) (index : Nat) (slot : MethodSlot) : UniverseM Unit :=
  modify fun u => match u.descriptors.find? ty with
    | some d => { u with
        descriptors := u.descriptors.set ty (d.fill index slot)
        synthesized := u.synthesized + 1 }
    | none => u

/-- The method at an index, resolved and kept on the first request. -/
def resolve (ty : TypeId) (index : Nat) : UniverseM Method := do
  let c := (← get).catalog
  let m ← ofExcept (methodAt c ty index)
  let d := (← descriptor ty).resize (c.numMethod ty)
  setDescriptor ty d
  match d.slot? index with
  | some slot => ofExcept ((← get).makeMethod ty index m slot)
  | none => do
    let made ← synthesize ty index m d.repr
    let method ← ofExcept ((← get).makeMethod ty index m made.slot)
    if made.cacheable then
      fillSlot ty index made.slot
    return method

end Universe

/-! ### Shared universes -/

/-- A universe together with how it is guarded. Either kind of guard gives the same answers. -/
structure GuardedUniverse where
  threadSafe : Bool
  types : Universe
  deriving Inhabited

namespace GuardedUniverse

/-- The text of the guard around the universe's counters. -/
def summary (g : GuardedUniverse) : String :=
  if g.threadSafe then s!"Shared(SharedUniverse({g.types.summary}))"
  else s!"Local(LocalUniverse({g.types.summary}))"

end GuardedUniverse

namespace Universe

/-- The method at an index as a client of a shared universe asks for it: first a look at the cache,
which excludes nobody, and only on a miss a resolution, which looks again. -/
def method (ty : TypeId) (index : Nat) : UniverseM Method := do
  match (← get).cached? ty index with
  | some found => ofExcept found
  | none => resolve ty index

end Universe

end ScriptEngine
