import ScriptEngine.Proofs.Types.WellFormed
import ScriptEngine.Universe.Resolve

/-!
The operations of a universe as data, and the universes that sequences of them lead to, failed ones
included. Handles come from the universe they are used in, so an operation is given handles that are
in range.

An operation that is never answered, since its message would be a display that never ends, counts as
a failed one: nothing follows it in a run of the program, so the universes here are all those that a
run can lead to, and some that none does.
-/

namespace ScriptEngine

/-- An error that speaks of an incomplete type. -/
def TypeError.isIncomplete : TypeError → Bool
  | .incompleteType _ => true
  | _ => false

/-- The operations of a universe that can change it, with their arguments. -/
inductive Operation where
  -- declarations
  | basic (kind : BasicKind)
  | pointerTo (elem : TypeId)
  | sliceOf (elem : TypeId)
  | funcOf (sig : Signature)
  | structOf (fields : List FieldDecl)
  | interfaceOf (methods : List MethodDecl) (embedded : List TypeId)
  | declareNamed (name : String) (pkg : Option String)
  | setUnderlying (ty underlying : TypeId)
  | addMethod (ty : TypeId) (m : MethodDecl)
  -- representations and callables
  | reprOf (ty : TypeId)
  | funcReprOf (sig : Signature)
  | pointerToRepr (repr : ReprId)
  | allocFunc
  | bindCallable (repr : ReprId) (name : String) (callable : Callable)
  | bindMethod (ty : TypeId) (name : String) (func : FuncId)
  | registerNative (ty : TypeId)
  | registerNativeWith (ty : TypeId) (methods : List NativeMethod)
  -- descriptors and methods
  | descriptor (ty : TypeId)
  | resolve (ty : TypeId) (index : Nat)
  | method (ty : TypeId) (index : Nat)

namespace Operation

/-- What an operation does; its answer is left out. -/
def run : Operation → UniverseM Unit
  | basic kind => discard (Universe.basic kind)
  | pointerTo elem => discard (Universe.pointerTo elem)
  | sliceOf elem => discard (Universe.sliceOf elem)
  | funcOf sig => discard (Universe.funcOf sig)
  | structOf fields => discard (Universe.structOf fields)
  | interfaceOf methods embedded => discard (Universe.interfaceOf methods embedded)
  | declareNamed name pkg => discard (Universe.declareNamed name pkg)
  | setUnderlying ty underlying => Universe.setUnderlying ty underlying
  | addMethod ty m => discard (Universe.addMethod ty m)
  | reprOf ty => discard (Universe.reprOf ty)
  | funcReprOf sig => discard (Universe.funcReprOf sig)
  | pointerToRepr repr => discard (Universe.pointerToRepr repr)
  | allocFunc => discard Universe.allocFunc
  | bindCallable repr name callable => modify (·.bindCallable repr name callable)
  | bindMethod ty name func => discard (Universe.bindMethod ty name func)
  | registerNative ty => discard (Universe.registerNative ty)
  | registerNativeWith ty methods => discard (Universe.registerNativeWith ty methods)
  | descriptor ty => discard (Universe.descriptor ty)
  | resolve ty index => discard (Universe.resolve ty index)
  | method ty index => discard (Universe.method ty index)

/-- The types that an operation is given. -/
def types : Operation → List TypeId
  | pointerTo ty | sliceOf ty | reprOf ty | bindMethod ty _ _ | registerNative ty
  | registerNativeWith ty _ | descriptor ty | resolve ty _ | method ty _ => [ty]
  | funcOf sig | funcReprOf sig => sig.types
  | structOf fields => fields.map (·.ty)
  | interfaceOf methods embedded => methods.flatMap (·.sig.types) ++ embedded
  | setUnderlying ty underlying => [ty, underlying]
  | addMethod ty m => ty :: m.sig.types
  | basic _ | declareNamed .. | pointerToRepr _ | allocFunc | bindCallable .. => []

/-- The representations that an operation is given. -/
def reprs : Operation → List ReprId
  | pointerToRepr repr => [repr]
  | bindCallable repr _ callable => repr :: callable.ty.parts
  | registerNativeWith _ methods => methods.flatMap (·.ty.parts)
  | _ => []

/-- The callables that an operation is given. -/
def funcs : Operation → List FuncId
  | bindCallable _ _ callable => [callable.func]
  | bindMethod _ _ func => [func]
  | _ => []

/-- Every handle that the operation is given is one of `u`. -/
structure InRange (u : Universe) (op : Operation) : Prop where
  types : ∀ ty ∈ op.types, ty.index < u.catalog.size
  reprs : ∀ r ∈ op.reprs, r.index < u.reprs.size
  funcs : ∀ f ∈ op.funcs, f.index < u.funcs

end Operation

namespace Universe

/-- How an operation ends in a universe, and the universe it leaves. -/
def perform (u : Universe) (op : Operation) : Except TypeError Unit × Universe :=
  op.run.run.run u

/-- The universes that operations lead to of which each was allowed in the universe it met. -/
inductive ReachableBy (allowed : Universe → Operation → Prop) : Universe → Prop where
  | empty : ReachableBy allowed .empty
  | step {u : Universe} (op : Operation) : ReachableBy allowed u → op.InRange u → allowed u op →
      ReachableBy allowed (u.perform op).2

/-- The universes that operations lead to. -/
abbrev Reachable : Universe → Prop :=
  ReachableBy fun _ _ => True

theorem ReachableBy.reachable {allowed : Universe → Operation → Prop} {u : Universe}
    (h : ReachableBy allowed u) : u.Reachable := by
  induction h with
  | empty => exact .empty
  | step op _ inRange _ ih => exact .step op ih inRange trivial

theorem ReachableBy.mono {allowed allowed' : Universe → Operation → Prop}
    (hallowed : ∀ u op, allowed u op → allowed' u op) {u : Universe} (h : ReachableBy allowed u) :
    ReachableBy allowed' u := by
  induction h with
  | empty => exact .empty
  | step op _ inRange ha ih => exact .step op ih inRange (hallowed _ op ha)

/-- The universe that a list of operations leads to. -/
def after (ops : List Operation) : Universe :=
  ops.foldl (fun u op => (u.perform op).2) .empty

instance (u : Universe) (op : Operation) : Decidable (op.InRange u) :=
  decidable_of_iff ((∀ ty ∈ op.types, ty.index < u.catalog.size) ∧
      (∀ r ∈ op.reprs, r.index < u.reprs.size) ∧ ∀ f ∈ op.funcs, f.index < u.funcs)
    ⟨fun ⟨ht, hr, hf⟩ => ⟨ht, hr, hf⟩, fun h => ⟨h.types, h.reprs, h.funcs⟩⟩

/-- Each operation of the list is given handles of the universe it meets, and allowed there. -/
def Permits (allowed : Universe → Operation → Bool) (u : Universe) : List Operation → Bool
  | [] => true
  | op :: ops => decide (op.InRange u) && allowed u op && Permits allowed (u.perform op).2 ops

theorem reachableBy_after {allowed : Universe → Operation → Bool} {ops : List Operation}
    (h : Permits allowed .empty ops = true) :
    ReachableBy (fun u op => allowed u op = true) (after ops) := by
  have hfold : ∀ ops u, ReachableBy (fun u op => allowed u op = true) u →
      Permits allowed u ops = true →
      ReachableBy (fun u op => allowed u op = true)
        (ops.foldl (fun u op => (u.perform op).2) u) := by
    intro ops
    induction ops with
    | nil => exact fun u hu _ => hu
    | cons op ops ih =>
      intro u hu h
      rw [Permits, Bool.and_eq_true, Bool.and_eq_true, decide_eq_true_iff] at h
      exact ih _ (.step op hu h.1.1 h.1.2) h.2
  exact hfold ops .empty .empty h

theorem reachable_after {ops : List Operation} (h : Permits (fun _ _ => true) .empty ops = true) :
    (after ops).Reachable :=
  (reachableBy_after h).reachable

/-- An operation did not fail for want of an underlying type. -/
def isComplete (u : Universe) (op : Operation) : Bool :=
  match (u.perform op).1 with
  | .ok _ => true
  | .error e => !e.isIncomplete

/-- The universes that operations lead to of which none failed for want of an underlying type. -/
abbrev Unbroken : Universe → Prop :=
  ReachableBy fun u op => u.isComplete op = true

end Universe

end ScriptEngine
