import ScriptEngine.Proofs.Eval.Policy
import ScriptEngine.Proofs.Types.EmbeddingPath
import ScriptEngine.Proofs.Universe.Resolution

/-!
The shapes of struct values.

A struct value is made by a composite literal, which takes a name that stands for a struct and one
value for each field. So every struct value has the shape of its type (`Value.Shaped`), and what
evaluation makes of shaped values is shaped (`Policy.shaped`); a shape is never taken back
(`Catalog.Shapes.grows`).

In a shaped value a field is where its name is found (`Value.Shaped.exists_field?`). What a field
holds is looked at when it is used and not before, so an embedding path need not lead through the
value. It breaks off only at a field that does not hold a struct value of its type
(`Value.Shaped.breaksOff_of_follow`).
-/

namespace ScriptEngine

namespace Catalog

variable {c c' : Catalog} {ty : TypeId} {n : Nat}

/-- The type is a name that stands for a struct with `n` fields. -/
def Shapes (c : Catalog) (ty : TypeId) (n : Nat) : Prop :=
  c.isNamed ty = true ∧ ∃ decls, c.structFields? ty = some decls ∧ decls.length = n

theorem kindOf_of_structFields? {decls : List FieldDecl} (h : c.structFields? ty = some decls) :
    c.kindOf ty = .struct := by
  unfold structFields? at h
  unfold kindOf
  split at h
  · next fields hd => rw [hd]
  · cases h

/-- The fields of a struct are declared once and for all. -/
theorem Grows.structFields? (g : Grows c c') {decls : List FieldDecl}
    (h : c.structFields? ty = some decls) : c'.structFields? ty = some decls := by
  have hkind : c.kindOf ty ≠ .invalid := by
    rw [kindOf_of_structFields? h]
    nofun
  obtain ⟨hunder, hdecl⟩ := g.underlying hkind
  rw [← h, Catalog.structFields?, Catalog.structFields?, hunder, hdecl]

/-- **A shape is never taken back.** -/
theorem Shapes.grows (h : c.Shapes ty n) (g : Grows c c') : c'.Shapes ty n := by
  obtain ⟨hnamed, decls, hdecls, hlen⟩ := h
  obtain ⟨d, hd⟩ := isNamed_iff.mp hnamed
  obtain ⟨d', hd', -⟩ := g.named ty d hd
  exact ⟨isNamed_iff.mpr ⟨d', hd'⟩, decls, g.structFields? hdecls, hlen⟩

theorem isNamed_of_lookupNamed {name : String} (h : c.lookupNamed name = some ty) :
    c.isNamed ty = true := by
  obtain ⟨i, hi, rfl⟩ := Option.map_eq_some_iff.mp h
  obtain ⟨hlt, hmatch, -⟩ := Array.findIdx?_eq_some_iff_getElem.mp hi
  split at hmatch
  · next d hd =>
    exact isNamed_iff.mpr ⟨d, (Array.getElem?_eq_getElem hlt).trans (congrArg some hd)⟩
  · cases hmatch

theorem decl?_of_size_eq_zero (h : c.size = 0) (ty : TypeId) : c.decl? ty = none := by
  cases hd : c.decl? ty with
  | none => rfl
  | some d => exact absurd (h ▸ lt_size_of_decl? hd) (Nat.not_lt_zero _)

/-- Where no type is declared, no method is found. -/
theorem WellFormed.findMethod_of_size_eq_zero (wf : c.WellFormed) (h : c.size = 0) {name : String} :
    c.findMethod ty name = none := by
  cases hfound : c.findMethod ty name with
  | none => rfl
  | some p =>
    obtain ⟨⟨last, -, -, hindex, -⟩, -⟩ := (wf.findMethod_finds ty name p).mp hfound
    rw [methodIndex?, methods, interface?, named?, decl?_of_size_eq_zero h,
      decl?_of_size_eq_zero h] at hindex
    cases hindex

end Catalog

/-! ### Shaped values -/

/-- Every struct value in a value has a type and a number of fields that `shape` allows. -/
inductive Value.Shaped (shape : TypeId → Nat → Prop) : Value → Prop where
  | plain {v} : v.isPlain = true → Shaped shape v
  | tuple {vs} : (∀ v ∈ vs, Shaped shape v) → Shaped shape (.tuple vs)
  | func {f} : Shaped shape (.func f)
  | struct {ty vs} : shape ty vs.length → (∀ v ∈ vs, Shaped shape v) → Shaped shape (.struct ty vs)
  | method {recv func name} : Shaped shape recv → Shaped shape (.method recv func name)

namespace Value.Shaped

variable {shape shape' : TypeId → Nat → Prop} {v : Value} {ty : TypeId} {vs : List Value}

theorem mono (h : v.Shaped shape) (hshape : ∀ ty n, shape ty n → shape' ty n) :
    v.Shaped shape' := by
  induction h with
  | plain hp => exact .plain hp
  | tuple _ ih => exact .tuple ih
  | func => exact .func
  | struct hs _ ih => exact .struct (hshape _ _ hs) ih
  | method _ ih => exact .method ih

theorem tuple_iff : (Value.tuple vs).Shaped shape ↔ ∀ v ∈ vs, v.Shaped shape := by
  constructor
  · intro h
    cases h with
    | plain hp => cases hp
    | tuple h => exact h
  · exact .tuple

theorem struct_iff :
    (Value.struct ty vs).Shaped shape ↔ shape ty vs.length ∧ ∀ v ∈ vs, v.Shaped shape := by
  constructor
  · intro h
    cases h with
    | plain hp => cases hp
    | struct hs h => exact ⟨hs, h⟩
  · exact fun ⟨hs, h⟩ => .struct hs h

theorem receiver {recv : Value} {func : FuncId} {name : String}
    (h : (Value.method recv func name).Shaped shape) : recv.Shaped shape := by
  cases h with
  | plain hp => cases hp
  | method h => exact h

end Value.Shaped

/-- Values are shaped, and the universe declares what `c` holds: resolving methods declares
nothing. -/
def Policy.shaped (shape : TypeId → Nat → Prop) (c : Catalog)
    (hc : ∀ ty n, c.Shapes ty n → shape ty n) : Policy where
  value := Value.Shaped shape
  body _ := True
  cause _ := True
  types u := Universe.Sound u ∧ u.catalog = c
  plain := .plain
  tuple := Value.Shaped.tuple_iff
  func := iff_of_true .func ⟨fun _ _ => trivial, trivial⟩
  fields h := (Value.Shaped.struct_iff.mp h).2
  receiver := Value.Shaped.receiver
  struct := by
    rintro u name ty decls vs ⟨-, rfl⟩ hname hdecls hlen hvs
    exact .struct (hc _ _ ⟨Catalog.isNamed_of_lookupNamed hname, decls, hdecls, hlen⟩) hvs
  bound _ _ htarget _ _ _ _ := .method htarget
  resolved := by
    rintro u ty index ⟨hsound, rfl⟩
    have s := (Universe.resolves_method hsound ty index).1
    exact ⟨s.sound hsound, Universe.Steps.catalog_eq (by simp [Universe.Act.quiet]) s hsound⟩
  ordinary _ := trivial
  escaped _ _ _ := trivial

/-! ### Fields -/

/-- The value holds no field that an embedding path could follow where a struct value of the type
`t` should be: it is no struct value, or one of another type without a field at `i`. -/
def Value.Blocks (t : TypeId) (i : Nat) : Value → Prop
  | .struct ty fields => ty ≠ t ∧ fields.length ≤ i
  | _ => True

/-- Following `path` from a value of the type `ty` fails with `cause` at a field: the path leads to a
field whose type is `t`, behind at most one pointer, and what the field holds is in the way. -/
def Evaluator.BreaksOff (c : Catalog) (ty : TypeId) (recv : Value) (name : String) (path : List Nat)
    (cause : Cause) : Prop :=
  ∃ front i rest t held, path = front ++ i :: rest ∧ front ≠ [] ∧ c.target? ty front = some t ∧
    Evaluator.follow name front recv = .ok held ∧ held.Blocks t i ∧
    cause = .undefinedField name held.kindName

namespace Value.Shaped

variable {c : Catalog} {ty : TypeId} {vs : List Value} {name : String}

/-- **A field that is found by name is there.** -/
theorem exists_field? {decls : List FieldDecl} {i : Nat} (h : (Value.struct ty vs).Shaped c.Shapes)
    (hdecls : c.structFields? ty = some decls)
    (hi : decls.findIdx? (fun d => d.name == name) = some i) :
    ∃ v, vs[i]? = some v ∧ Evaluator.field? c name (.struct ty vs) = some v := by
  obtain ⟨⟨-, decls', hdecls', hlen⟩, -⟩ := struct_iff.mp h
  obtain rfl := Option.some.inj (hdecls.symm.trans hdecls')
  have hlt : i < vs.length := hlen ▸ (List.findIdx?_eq_some_iff_getElem.mp hi).1
  refine ⟨vs[i], List.getElem?_eq_getElem hlt, ?_⟩
  simp only [Evaluator.field?, hdecls, hi]
  exact List.getElem?_eq_getElem hlt

/-- A struct value of the type that a path leads through has the field that the path follows. -/
theorem lt_length_of_embedded? {i : Nat} {field : TypeId}
    (h : (Value.struct ty vs).Shaped c.Shapes) (hfield : c.embedded? ty i = some field) :
    i < vs.length := by
  obtain ⟨⟨-, decls, hdecls, hlen⟩, -⟩ := struct_iff.mp h
  rw [Catalog.embedded?, hdecls, Option.bind_some] at hfield
  obtain ⟨d, hd, -⟩ := Option.map_eq_some_iff.mp hfield
  rw [← hlen]
  exact (List.getElem?_eq_some_iff.mp (Option.filter_eq_some_iff.mp hd).1).1

/-- An embedding path fails in a shaped value where the value on the way is no struct value of the
type of the path. The induction is on the path; a struct value of another type is passed through if
it has a field at the position. -/
theorem blocks_of_follow {last : TypeId} {path : List Nat} {recv : Value} {cause : Cause}
    (h : recv.Shaped c.Shapes) (hpath : c.pathEnd? ty path = some last)
    (hfollow : Evaluator.follow name path recv = .error cause) :
    ∃ front i rest t held, path = front ++ i :: rest ∧ c.target? ty front = some t ∧
      Evaluator.follow name front recv = .ok held ∧ held.Blocks t i ∧
      cause = .undefinedField name held.kindName := by
  induction path generalizing ty recv with
  | nil => cases hfollow
  | cons i rest ih =>
    obtain ⟨field, hfield, hrest⟩ := Option.bind_eq_some_iff.mp hpath
    cases recv with
    | struct ty' vs =>
      cases hv : vs[i]? with
      | some v =>
        rw [Evaluator.follow, hv] at hfollow
        have hshaped := (struct_iff.mp h).2 v (List.mem_of_getElem? hv)
        obtain ⟨front, j, rest', t, held, rfl, ht, hfront, hrest⟩ := ih hshaped hrest hfollow
        refine ⟨i :: front, j, rest', t, held, rfl, ?_, ?_, hrest⟩
        · rw [← ht, Catalog.target?, Catalog.target?, Catalog.pathEnd?, hfield, Option.bind_some]
        · rw [Evaluator.follow, hv]
          exact hfront
      | none =>
        rw [Evaluator.follow, hv] at hfollow
        cases hfollow
        have hle : vs.length ≤ i := List.getElem?_eq_none_iff.mp hv
        refine ⟨[], i, rest, _, _, rfl, rfl, rfl, ⟨?_, hle⟩, rfl⟩
        rintro rfl
        exact Nat.not_lt.mpr hle (h.lt_length_of_embedded? hfield)
    | void | bool | int | float | str | tuple | func | method =>
      simp only [Evaluator.follow] at hfollow
      cases hfollow
      exact ⟨[], i, rest, _, _, rfl, rfl, rfl, trivial, rfl⟩

/-- **A path to a method breaks off only at a field that does not hold a struct value of its
type.** -/
theorem breaksOff_of_follow {p : MethodPath} {cause : Cause} (wf : c.WellFormed)
    (h : (Value.struct ty vs).Shaped c.Shapes) (hfound : c.findMethod ty name = some p)
    (hfollow : Evaluator.follow name p.fields (.struct ty vs) = .error cause) :
    Evaluator.BreaksOff c ty (.struct ty vs) name p.fields cause := by
  obtain ⟨⟨last, hlast, -⟩, -⟩ := (wf.findMethod_finds ty name p).mp hfound
  obtain ⟨front, i, rest, t, held, hfields, ht, hfront, hblocks, hcause⟩ :=
    h.blocks_of_follow hlast hfollow
  refine ⟨front, i, rest, t, held, hfields, ?_, ht, hfront, hblocks, hcause⟩
  -- The value itself is of its type, so it has the first field of the path.
  rintro rfl
  have hnamed := (struct_iff.mp h).1.1
  rw [Catalog.target?, Catalog.pathEnd?, Option.map_some, Catalog.stripPointer_of_isNamed hnamed]
    at ht
  cases ht
  cases hfront
  exact hblocks.1 rfl

end Value.Shaped

end ScriptEngine
