/-!
Handles: positions in the tables that a session keeps. Each table has a handle type of its own, so
that a type cannot be taken for a representation or a frame.
-/

namespace ScriptEngine

/-- A declared type. -/
structure TypeId where
  index : Nat
  deriving DecidableEq, Repr, Inhabited

/-- A runtime representation. -/
structure ReprId where
  index : Nat
  deriving DecidableEq, Repr, Inhabited

/-- A callable. Universes hand these out; only whoever bound the callable knows its code. -/
structure FuncId where
  index : Nat
  deriving DecidableEq, Repr, Inhabited

/-- A frame of bindings. -/
structure FrameId where
  index : Nat
  deriving DecidableEq, Repr, Inhabited

/-- The written form of a type handle, as in `TypeId#4`. -/
def TypeId.text (ty : TypeId) : String :=
  s!"TypeId#{ty.index}"

end ScriptEngine
