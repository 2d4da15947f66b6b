import ScriptEngine.Repr.Basic
import ScriptEngine.Text.FunctionType
import ScriptEngine.Trail

/-!
Display names of representations, in the form of the types they represent. A named representation is
shown by its name, except that a named struct asked for directly is shown by its fields.

Names stop the expansion of representations that refer to themselves, with one exception: the last
parameter of a variadic function shows what its slice holds, and so looks through the name of a
named slice. Where that leads back to a representation that is being written, as in
`type S []func(...S)`, writing never ends and there is no text. A display name is therefore an
`Option`, and `innerName` keeps the representations that are being written on a trail to tell.
-/

namespace ScriptEngine.ReprTable

open Text

/-- What a slice holds, also that of a named slice; all else is left as it is. -/
def stripSlice (t : ReprTable) (r : ReprId) : ReprId :=
  match t.kind r with
  | .slice elem => elem
  | _ => r

/-- A function type without its keyword; `part` writes a representation, and `rest` what the last
parameter of a variadic function holds. -/
def signatureWith (part rest : ReprId → Option String) (f : FuncRepr) : Option String := do
  let params ← (paramTexts f.variadic part (fun p => restText <$> rest p) f.params).mapM id
  let results ← (f.results.map part).mapM id
  return signatureText params results

/-- A field of a struct. -/
def fieldWith (part : ReprId → Option String) (f : ReprField) : Option String :=
  if f.embedded then part f.repr else (f.name ++ " " ++ ·) <$> part f.repr

/-- A kind; `part` writes the representations it is built from, and `rest` what the last parameter
of a variadic function holds. -/
def kindWith (part rest : ReprId → Option String) : ReprKind → Option String
  | .invalid => some "<invalid>"
  | .basic k => some k.name
  | .header => some "InterfaceHeader"
  | .pointer elem => ("*" ++ ·) <$> part elem
  | .slice elem => ("[]" ++ ·) <$> part elem
  | .array len elem => (s!"[{len}]" ++ ·) <$> part elem
  | .func f => ("func" ++ ·) <$> signatureWith part rest f
  | .struct fields => bodyText "struct" <$> (fields.map (fieldWith part)).mapM id
  | .interface methods => bodyText "interface" <$>
      (methods.map fun m => (m.name ++ ·) <$> signatureWith part rest m.ty).mapM id

/-- One round of writing a representation inside another: its name, or else its kind. `part` writes
the representations that the kind is built from. -/
def nameStep (t : ReprTable) (part : ReprId → Option String) (r : ReprId) : Option String := do
  let d ← t.get? r
  match d.name with
  | some name => some name
  | none => kindWith part (fun p => part (t.stripSlice p)) d.kind

/-- The display name of a representation inside another, while those of `trail` are being written.
There is none if writing comes back to one of them. -/
def innerName (t : ReprTable) (trail : List Nat) (r : ReprId) : Option String :=
  if _entered : r.index < t.size ∧ r.index ∉ trail then
    t.nameStep (t.innerName (r.index :: trail)) r
  else
    none
termination_by unvisited t.size trail
decreasing_by exact unvisited_cons_lt _entered.1 _entered.2

/-- The display name of a part. -/
def partName (t : ReprTable) (r : ReprId) : Option String :=
  t.innerName [] r

/-- A kind on its own, with the display names of its parts. -/
def kindName (t : ReprTable) (kind : ReprKind) : Option String :=
  kindWith t.partName (fun p => t.partName (t.stripSlice p)) kind

/-- The display name of a representation. -/
def reprName (t : ReprTable) (r : ReprId) : Option String := do
  let d ← t.get? r
  match d.name, d.kind with
  | some _, .struct fields => t.kindName (.struct fields)
  | some name, _ => some name
  | none, kind => t.kindName kind

/-- The display form of a runtime function type. -/
def funcName (t : ReprTable) (f : FuncRepr) : Option String :=
  t.kindName (.func f)

end ScriptEngine.ReprTable
