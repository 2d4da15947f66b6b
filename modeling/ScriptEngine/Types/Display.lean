import ScriptEngine.Types.Catalog
import ScriptEngine.Text.FunctionType

/-!
Display names of types, in the form a program writes them: `geo.Point`, `*T`, `[]T`,
`func(A, B) C`, `struct{X int; E}`. A name is not expanded, so a name is never needed to write
itself; below names the parts of a type are declared before it, which ends the recursion.
-/

namespace ScriptEngine

open Text

/-- The name with its package before it. -/
def NamedDecl.displayName (d : NamedDecl) : String :=
  match d.pkg with
  | some pkg => pkg ++ "." ++ d.name
  | none => d.name

namespace Catalog

/-- A signature without its keyword and its receiver; `part` writes a type. -/
def signatureWith (c : Catalog) (part : TypeId → String) (sig : Signature) : String :=
  signatureText
    (paramTexts sig.variadic part (fun p => restText (part (c.stripSlice p))) sig.params)
    (sig.results.map part)

/-- A declaration; `part` writes the types it is built from. -/
def declWith (c : Catalog) (part : TypeId → String) : TypeDecl → String
  | .basic k => k.name
  | .named d => d.displayName
  | .pointer elem => "*" ++ part elem
  | .slice elem => "[]" ++ part elem
  | .func sig => "func" ++ c.signatureWith part sig
  | .struct fields => bodyText "struct" (fields.map fun f =>
      if f.embedded then part f.ty else f.name ++ " " ++ part f.ty)
  | .interface d => bodyText "interface" (d.embedded.map part ++
      d.explicit.map fun m => m.name ++ c.signatureWith part m.sig)

/-- The display name of a type. -/
def typeName (c : Catalog) (ty : TypeId) : String :=
  match c.decl? ty with
  | none => ""
  | some d => c.declWith (fun p => if _older : p.index < ty.index then c.typeName p else "") d
termination_by ty.index

/-- The display form of a signature, its receiver left out. -/
def signatureName (c : Catalog) (sig : Signature) : String :=
  "func" ++ c.signatureWith c.typeName sig

/-- How an interface that has no handle yet is referred to: by the names of its own methods. -/
def interfaceSummary (explicit : List MethodDecl) : String :=
  bodyText "interface" (explicit.map (·.name))

end Catalog

end ScriptEngine
