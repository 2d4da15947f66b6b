import ScriptEngine.Types.Decl
import ScriptEngine.Trail

/-!
The catalog of declared types. A handle is a position in it, so a type that is declared keeps its
handle. Scalar, pointer and slice types are declared once each; function, struct and interface types
are new with every declaration; a named type is known by its name.

`WellFormed` is what every sequence of declarations keeps: the parts of an unnamed type are declared
before it, and a name stands directly for an unnamed type. Traversals that do not pass through a
name therefore step down in the catalog, and `unvisited` counts what is left to those that do.
-/

namespace ScriptEngine

/-- The declared types in order of declaration. -/
structure Catalog where
  decls : Array TypeDecl
  deriving Repr, Inhabited

namespace Catalog

/-- The catalog without types. -/
def empty : Catalog := ⟨#[]⟩

/-- The number of declared types. -/
def size (c : Catalog) : Nat :=
  c.decls.size

/-- The handle that the next declaration gets. -/
def next (c : Catalog) : TypeId :=
  ⟨c.size⟩

/-- The declaration of a type. -/
def decl? (c : Catalog) (ty : TypeId) : Option TypeDecl :=
  c.decls[ty.index]?

/-- Declares a new type. -/
def push (c : Catalog) (d : TypeDecl) : TypeId × Catalog :=
  (c.next, ⟨c.decls.push d⟩)

/-- The type with this declaration, declared if there is none yet. -/
def intern (c : Catalog) (d : TypeDecl) : TypeId × Catalog :=
  match c.decls.findIdx? (· == d) with
  | some i => (⟨i⟩, c)
  | none => c.push d

/-- The scalar type of a kind. -/
def basic (c : Catalog) (kind : BasicKind) : TypeId × Catalog :=
  c.intern (.basic kind)

/-- The type of pointers to `elem`. -/
def pointerTo (c : Catalog) (elem : TypeId) : TypeId × Catalog :=
  c.intern (.pointer elem)

/-- The type of slices of `elem`. -/
def sliceOf (c : Catalog) (elem : TypeId) : TypeId × Catalog :=
  c.intern (.slice elem)

/-- A new function type. -/
def funcOf (c : Catalog) (sig : Signature) : TypeId × Catalog :=
  c.push (.func sig)

/-- A new struct type. -/
def structOf (c : Catalog) (fields : List FieldDecl) : TypeId × Catalog :=
  c.push (.struct fields)

/-! ### Reading a declaration -/

/-- The declaration of a named type. -/
def named? (c : Catalog) (ty : TypeId) : Option NamedDecl :=
  match c.decl? ty with
  | some (.named d) => some d
  | _ => none

/-- Whether a type is named. -/
def isNamed (c : Catalog) (ty : TypeId) : Bool :=
  (c.named? ty).isSome

/-- The type declared under a name, whatever its package. -/
def lookupNamed (c : Catalog) (name : String) : Option TypeId :=
  (c.decls.findIdx? fun d => match d with
    | .named n => n.name == name
    | _ => false).map TypeId.mk

/-- The underlying type: an unnamed type is its own, and so is a name that stands for nothing yet. -/
def underlying (c : Catalog) (ty : TypeId) : TypeId :=
  match c.decl? ty with
  | some (.named d) => d.underlying.getD ty
  | _ => ty

/-- The class of a type. -/
def kindOf (c : Catalog) (ty : TypeId) : Kind :=
  match c.decl? (c.underlying ty) with
  | some (.basic k) => Kind.ofBasic k
  | some (.pointer _) => .ptr
  | some (.slice _) => .slice
  | some (.func _) => .func
  | some (.struct _) => .struct
  | some (.interface _) => .interface
  | some (.named _) | none => .invalid

/-- The interface that a type is or stands for. -/
def interface? (c : Catalog) (ty : TypeId) : Option InterfaceDecl :=
  match c.decl? (c.underlying ty) with
  | some (.interface d) => some d
  | _ => none

/-- The fields of the struct that a type is or stands for. -/
def structFields? (c : Catalog) (ty : TypeId) : Option (List FieldDecl) :=
  match c.decl? (c.underlying ty) with
  | some (.struct fields) => some fields
  | _ => none

/-- Whether a type is a pointer type itself, without looking through a name. -/
def isPointer (c : Catalog) (ty : TypeId) : Bool :=
  match c.decl? ty with
  | some (.pointer _) => true
  | _ => false

/-- What a pointer type points to; any other type stays as it is. -/
def stripPointer (c : Catalog) (ty : TypeId) : TypeId :=
  match c.decl? ty with
  | some (.pointer elem) => elem
  | _ => ty

/-- What a slice type holds; any other type stays as it is. -/
def stripSlice (c : Catalog) (ty : TypeId) : TypeId :=
  match c.decl? ty with
  | some (.slice elem) => elem
  | _ => ty

/-- The methods that indices count: the complete set of an interface by name, and the declared
methods of any other named type in order of declaration. -/
def methods (c : Catalog) (ty : TypeId) : List MethodDecl :=
  match c.interface? ty with
  | some i => i.complete
  | none => match c.named? ty with
    | some d => d.methods
    | none => []

/-- The index of the method called `name`. -/
def methodIndex? (c : Catalog) (ty : TypeId) (name : String) : Option Nat :=
  methodPosition? (c.methods ty) name

/-- The number of indexed methods. -/
def numMethod (c : Catalog) (ty : TypeId) : Nat :=
  (c.methods ty).length

/-- The number of methods written in the type's own declaration. -/
def numExplicitMethod (c : Catalog) (ty : TypeId) : Nat :=
  match c.interface? ty with
  | some i => i.explicit.length
  | none => match c.named? ty with
    | some d => d.methods.length
    | none => 0

/-! ### Well-formed catalogs -/

/-- The types a declaration is built from. The receivers of an interface's own methods are the
interface itself and are not among its parts; nor are the parts of a name. -/
def parts : TypeDecl → List TypeId
  | .basic _ => []
  | .pointer elem => [elem]
  | .slice elem => [elem]
  | .func sig => sig.params ++ sig.results
  | .struct fields => fields.map (·.ty)
  | .interface d => d.embedded ++ d.complete.flatMap fun m => m.sig.params ++ m.sig.results
  | .named _ => []

/-- Parts are declared before the type they are parts of, and a name stands for a declared type
that is not itself a name. -/
structure WellFormed (c : Catalog) : Prop where
  parts_lt : ∀ ty d, c.decl? ty = some d → ∀ p ∈ parts d, p.index < ty.index
  underlying_unnamed : ∀ ty d, c.decl? ty = some (.named d) → ∀ u, d.underlying = some u →
    u.index < c.size ∧ c.isNamed u = false

/-! ### Traversals through names -/

/-- The number of declared types that are not on `trail`. -/
def unvisited (c : Catalog) (trail : List TypeId) : Nat :=
  ScriptEngine.unvisited c.size (trail.map (·.index))

theorem lt_size_of_decl? {c : Catalog} {ty : TypeId} {d : TypeDecl} (h : c.decl? ty = some d) :
    ty.index < c.size := by
  unfold decl? at h
  exact (Array.getElem?_eq_some_iff.1 h).1

/-- A step onto a type that was not on the trail leaves less to visit. -/
theorem unvisited_cons_lt {c : Catalog} {trail : List TypeId} {ty : TypeId}
    (hs : ty.index < c.size) (ht : ty ∉ trail) : c.unvisited (ty :: trail) < c.unvisited trail := by
  refine ScriptEngine.unvisited_cons_lt hs fun hm => ht ?_
  obtain ⟨t, hmem, heq⟩ := List.mem_map.1 hm
  cases t
  cases ty
  cases heq
  exact hmem

end Catalog

end ScriptEngine
