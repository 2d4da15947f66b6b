import ScriptEngine.Types.Declare

/-!
Methods reached through embedded fields.

`findMethod` searches the embedded fields of a type level by level: the shallowest match wins, two
matches on one level are ambiguous, and so is one type that a level reaches twice. `implements`
compares what it finds with the complete set of an interface. `numAllMethod` counts along every
embedding path.
-/

namespace ScriptEngine

/-- How to reach a method from the type it was selected on. -/
structure MethodPath where
  /-- The embedded fields to follow, outermost first. -/
  fields : List Nat
  /-- The type that declares the method. -/
  owner : TypeId
  /-- The index of the method in `owner`. -/
  index : Nat
  /-- The owner was reached through a pointer. -/
  viaPointer : Bool
  deriving DecidableEq, Repr

/-- A promoted method belongs to an embedded field. -/
def MethodPath.isPromoted (p : MethodPath) : Bool :=
  !p.fields.isEmpty

/-- A type that the search has reached. -/
structure Candidate where
  ty : TypeId
  fields : List Nat
  viaPointer : Bool
  /-- More than one path of this length reaches the type, so what is found on or below it is
  ambiguous. -/
  multiple : Bool
  deriving DecidableEq, Repr

namespace Catalog

/-! ### Counting along embedding paths -/

/-- The methods of `ty` and of what it embeds, those of interfaces included. A path that comes back
to a name adds nothing. -/
def countMethods (c : Catalog) (trail : List TypeId) (ty : TypeId) : Nat :=
  match _declared : c.decl? ty with
  | some (.named d) =>
    if _seen : ty ∈ trail then 0
    else d.methods.length + match d.underlying with
      | some u => c.countMethods (ty :: trail) u
      | none => 0
  | some (.interface d) => d.complete.length
  | some (.struct fields) => (fields.map fun f =>
      if _older : f.embedded = true ∧ (c.stripPointer f.ty).index < ty.index then
        c.countMethods trail (c.stripPointer f.ty)
      else 0).foldr (· + ·) 0
  | _ => 0
termination_by (c.unvisited trail, ty.index)
decreasing_by
  · exact .left _ _ (unvisited_cons_lt (lt_size_of_decl? _declared) _seen)
  · exact .right _ _older.2

/-- The number of methods reachable from a type along embedding paths. -/
def numAllMethod (c : Catalog) (ty : TypeId) : Nat :=
  c.countMethods [] ty

/-! ### The search -/

/-- The embedded fields of a list, with their positions counted from `i`. -/
def embeddedFrom (i : Nat) : List FieldDecl → List (Nat × FieldDecl)
  | [] => []
  | f :: rest =>
    if f.embedded then (i, f) :: embeddedFrom (i + 1) rest else embeddedFrom (i + 1) rest

/-- The embedded fields of the struct that a type is or stands for, with their positions. -/
def embeddedFields (c : Catalog) (ty : TypeId) : List (Nat × FieldDecl) :=
  match c.structFields? ty with
  | some fields => embeddedFrom 0 fields
  | none => []

/-- The candidates one embedded field below `k`. -/
def below (c : Catalog) (k : Candidate) : List Candidate :=
  (c.embeddedFields k.ty).map fun e =>
    let base := c.stripPointer e.2.ty
    ⟨base, k.fields ++ [e.1], base != e.2.ty, k.multiple⟩

/-- Adds a candidate to a level. A named type that the level has already is marked there. -/
def addToLevel (c : Catalog) (level : List Candidate) (k : Candidate) : List Candidate :=
  if c.isNamed k.ty && level.any (·.ty == k.ty) then
    level.map fun k' => if k'.ty == k.ty then { k' with multiple := true } else k'
  else
    level ++ [k]

/-- The level with each named type once. -/
def mergeRepeats (c : Catalog) (level : List Candidate) : List Candidate :=
  level.foldl c.addToLevel []

/-- The method `name` of a candidate, with its index. -/
def hit? (c : Catalog) (name : String) (k : Candidate) : Option (Candidate × Nat) :=
  (c.methodIndex? k.ty name).map fun i => (k, i)

/-- Searches a level and those below it, at most `depth` of them. `seen` holds the names searched on
shallower levels, which hide what lies behind them. -/
def searchLevels (c : Catalog) (name : String) :
    Nat → List TypeId → List Candidate → Option MethodPath
  | 0, _, _ => none
  | depth + 1, seen, level =>
    let fresh := (c.mergeRepeats level).filter fun k => !seen.contains k.ty
    match fresh.filterMap (c.hit? name) with
    | [(k, i)] => if k.multiple then none else some ⟨k.fields, k.ty, i, k.viaPointer⟩
    | _ :: _ :: _ => none
    | [] => match fresh.flatMap c.below with
      | [] => none
      | next =>
        let names := (fresh.map (·.ty)).filter c.isNamed
        c.searchLevels name depth (names ++ seen) next

/-- A bound on the depth of the search: a path that is not hidden repeats no name, and between two
names it steps down in the catalog. -/
def searchDepth (c : Catalog) : Nat :=
  (c.size + 1) * (c.size + 1) + 1

/-- The method called `name` of a type or, failing that, of what it embeds. -/
def findMethod (c : Catalog) (ty : TypeId) (name : String) : Option MethodPath :=
  let start := c.stripPointer ty
  c.searchLevels name c.searchDepth [] [⟨start, [], start != ty, false⟩]

/-! ### Satisfaction -/

/-- Whether a found method can stand for the wanted one: as many parameters and results, the same
variadic flag, and a pointer receiver only behind a pointer. -/
def fits (c : Catalog) (viaPointer : Bool) (found wanted : MethodDecl) : Bool :=
  (viaPointer || !(found.sig.recv.any c.isPointer)) &&
    found.sig.params.length == wanted.sig.params.length &&
    found.sig.results.length == wanted.sig.results.length &&
    found.sig.variadic == wanted.sig.variadic

/-- Whether `ty` has a method that fits `wanted`. A search ends at a declared method, so the path it
finds always has one (`WellFormed.exists_of_findMethod`). -/
def covers (c : Catalog) (ty : TypeId) (wanted : MethodDecl) : Bool :=
  match c.findMethod ty wanted.name with
  | none => false
  | some path => match (c.methods path.owner)[path.index]? with
    | none => false
    | some found => c.fits path.viaPointer found wanted

/-- Whether the methods of `ty` cover those of an interface. -/
def implements (c : Catalog) (ty iface : TypeId) : Except TypeError Bool :=
  match c.interface? iface with
  | none => .error (.notInterface (c.typeName iface))
  | some d => .ok (d.complete.all (c.covers ty))

end Catalog

end ScriptEngine
