import ScriptEngine.Repr.Basic
import ScriptEngine.Types.Embedding

/-!
Building the representation of a type.

A name is entered by making a placeholder; while its parts are built, the name stands for the
placeholder, so a type that refers to itself is built once. What is finished is recorded and never
built again. A failure leaves everything made so far in the table, but records none of the names
that were being built.

The recursion ends because a path enters a name at most once and steps down in the catalog between
two names.
-/

namespace ScriptEngine

/-- Operations on representations: they may fail, and keep what they made when they do. -/
abbrev ReprM := ExceptT TypeError (StateM ReprTable)

/-- The names that are being built, with their placeholders, innermost first. -/
abbrev Building := List (TypeId × ReprId)

namespace ReprM

/-- The unnamed representation of a kind. -/
def intern (kind : ReprKind) : ReprM ReprId :=
  modifyGet fun t => t.intern kind

/-- A new representation. -/
def push (d : ReprData) : ReprM ReprId :=
  modifyGet fun t => t.push d

/-- The runtime view of a signature without its receiver; `part` represents a type. -/
def funcReprWith (part : TypeId → ReprM ReprId) (sig : Signature) : ReprM FuncRepr := do
  let params ← sig.params.mapM part
  let results ← sig.results.mapM part
  return ⟨params, results, sig.variadic⟩

/-- The fields of a struct. -/
def structFieldsWith (part : TypeId → ReprM ReprId) (fields : List FieldDecl) :
    ReprM (List ReprField) :=
  fields.mapM fun f => do
    let repr ← part f.ty
    return ⟨f.name, repr, f.embedded⟩

/-- The marker fields of what an interface embeds: the names of named interfaces and no name for the
others. -/
def markersWith (c : Catalog) (part : TypeId → ReprM ReprId) (embedded : List TypeId) :
    ReprM (List ReprField) :=
  embedded.mapM fun e => do
    let repr ← part e
    return ⟨((c.named? e).map (·.name)).getD "", repr, true⟩

/-- The function fields of an emulated interface. -/
def methodFieldsWith (part : TypeId → ReprM ReprId) (methods : List MethodDecl) :
    ReprM (List ReprField) :=
  methods.mapM fun m => do
    let f ← funcReprWith part m.sig
    let repr ← intern (.func f)
    return ⟨m.name, repr, false⟩

/-- The emulation of an interface: a pointer to a struct of header, markers and method fields. -/
def emulateWith (c : Catalog) (part : TypeId → ReprM ReprId) (d : InterfaceDecl) :
    ReprM ReprId := do
  let header ← intern .header
  let markers ← markersWith c part d.embedded
  let markers ← intern (.struct markers)
  let embeddeds ← intern (.array 0 markers)
  let methods ← methodFieldsWith part d.complete
  let body ← intern (.struct
    (⟨"Interface", header, false⟩ :: ⟨"Embeddeds", embeddeds, false⟩ :: methods))
  intern (.pointer body)

/-- The representation of an unnamed declaration; `part` represents the types it is built from. A
name has no structure of its own. -/
def assemble (c : Catalog) (part : TypeId → ReprM ReprId) : TypeDecl → ReprM ReprId
  | .basic kind => intern (.basic kind)
  | .pointer elem => do intern (.pointer (← part elem))
  | .slice elem => do intern (.slice (← part elem))
  | .func sig => do intern (.func (← funcReprWith part sig))
  | .struct fields => do intern (.struct (← structFieldsWith part fields))
  | .interface d => emulateWith c part d
  | .named d => throw (.incompleteType d.displayName)

/-- Fills the placeholder of a name with the structure of what it stands for, and records it. -/
def finishNamed (ty : TypeId) (placeholder source : ReprId) : ReprM ReprId := do
  modify fun t => (t.complete placeholder source).record ty placeholder
  return placeholder

/-- Records the representation of an unnamed type. -/
def finish (ty : TypeId) (r : ReprId) : ReprM ReprId := do
  modify fun t => t.record ty r
  return r

/-- A name without a placeholder is not on the trail of names being built. -/
theorem not_mem_trail {building : Building} {ty : TypeId} (h : building.lookup ty = none) :
    ty ∉ building.map (·.1) := by
  intro hm
  obtain ⟨e, he, rfl⟩ := List.mem_map.1 hm
  have := List.lookup_eq_none_iff.1 h e he
  simp at this

/-- The representation of a type while the names of `building` are being built. -/
def build (c : Catalog) (building : Building) (ty : TypeId) : ReprM ReprId := do
  match _open : building.lookup ty with
  | some placeholder => return placeholder
  | none =>
    match (← get).built.find? ty with
    | some r => return r
    | none =>
      match _declared : c.decl? ty with
      | none => throw (.incompleteType (c.typeName ty))
      | some (.named d) =>
        match d.underlying with
        | none => throw (.incompleteType (c.typeName ty))
        | some u => do
          let placeholder ← push ⟨some (c.typeName ty), .invalid, .empty⟩
          let source ← build c ((ty, placeholder) :: building) u
          finishNamed ty placeholder source
      | some d => do
        let r ← assemble c (fun p =>
          if _older : p.index < ty.index then build c building p
          else throw (.incompleteType (c.typeName p))) d
        finish ty r
termination_by (c.unvisited (building.map (·.1)), ty.index)
decreasing_by
  · exact .left _ _ (Catalog.unvisited_cons_lt (Catalog.lt_size_of_decl? _declared)
      (not_mem_trail _open))
  · exact .right _ _older

/-- The representation of a type, built on the first request. -/
def reprOf (c : Catalog) (ty : TypeId) : ReprM ReprId :=
  build c [] ty

/-- The runtime view of a declared signature, without its receiver. -/
def funcReprOf (c : Catalog) (sig : Signature) : ReprM FuncRepr :=
  funcReprWith (reprOf c) sig

end ReprM

end ScriptEngine
