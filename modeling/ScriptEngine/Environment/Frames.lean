import ScriptEngine.Value
import ScriptEngine.Assoc

/-!
The frames of a session. A frame binds names and may have a parent, in which names that it does not
bind are looked up. Frames are never removed: whoever holds the handle of a frame, such as a closure,
sees every later write to it.

A parent is older than its children, which is a field of the store: chains of parents end, and
`resolve` recurses along them. It finds the innermost frame that binds a name; reading and assigning
both go through it.
-/

namespace ScriptEngine

/-- Whether a binding can be assigned to. -/
inductive Mutability where
  | mutable | immutable
  deriving DecidableEq, Repr, Inhabited

/-- Why a name could not be bound or assigned. -/
inductive BindError where
  /-- The reserved identifiers are never bound. -/
  | reserved
  /-- The binding is a constant. -/
  | immutable
  /-- No frame binds the name. -/
  | undefined
  deriving DecidableEq, Repr, Inhabited

/-- A value under a name. -/
structure Binding where
  value : Value
  mutability : Mutability
  deriving Inhabited

/-- The names bound in one place, and the place around it. -/
structure Frame where
  bindings : Assoc String Binding
  parent : Option FrameId
  deriving Inhabited

/-- All frames of a session, oldest first. -/
structure Frames where
  frames : Array Frame
  parent_older : ∀ (i : Nat) (f : Frame) (p : FrameId), frames[i]? = some f → f.parent = some p →
    p.index < i

namespace Frames

/-- The store without frames. -/
def empty : Frames := ⟨#[], by simp⟩

instance : Inhabited Frames := ⟨empty⟩

/-- The number of frames. -/
def size (fs : Frames) : Nat :=
  fs.frames.size

/-- A frame. -/
def get? (fs : Frames) (id : FrameId) : Option Frame :=
  fs.frames[id.index]?

/-- The handle that the next frame gets. -/
def next (fs : Frames) : FrameId :=
  ⟨fs.size⟩

/-- Adds a frame without bindings below `parent`; a parent that does not exist is left out. -/
def grow (fs : Frames) (parent : Option FrameId) : Frames where
  frames := fs.frames.push ⟨.empty, parent.filter fun p => p.index < fs.frames.size⟩
  parent_older := by
    intro i f p hf hp
    rw [Array.getElem?_push] at hf
    split at hf
    · cases hf
      obtain ⟨_, hlt⟩ := Option.filter_eq_some_iff.1 hp
      subst i
      simpa using hlt
    · exact fs.parent_older i f p hf hp

/-- Adds a frame and returns its handle with the store. -/
@[inline]
def openFrame (fs : Frames) (parent : Option FrameId) : FrameId × Frames :=
  (fs.next, fs.grow parent)

/-- Binds `name` in a frame, in place of what it bound there. -/
def define (fs : Frames) (id : FrameId) (name : String) (b : Binding) : Frames where
  frames := fs.frames.modify id.index fun f => { f with bindings := f.bindings.set name b }
  parent_older := by
    intro i f p hf hp
    rw [Array.getElem?_modify] at hf
    split at hf
    · obtain ⟨g, hg, rfl⟩ := Option.map_eq_some_iff.1 hf
      exact fs.parent_older i g p hg hp
    · exact fs.parent_older i f p hf hp

/-- Whether a frame itself binds `name`. -/
def binds (fs : Frames) (id : FrameId) (name : String) : Bool :=
  match fs.get? id with
  | some f => f.bindings.contains name
  | none => false

/-- The innermost frame on the chain of `id` that binds `name`, with the binding. -/
def resolve (fs : Frames) (id : FrameId) (name : String) : Option (FrameId × Binding) :=
  match _frame : fs.get? id with
  | none => none
  | some f =>
    match f.bindings.find? name with
    | some b => some (id, b)
    | none =>
      match _parent : f.parent with
      | none => none
      | some p => fs.resolve p name
termination_by id.index
decreasing_by exact fs.parent_older _ _ _ _frame _parent

/-- The value of a name as seen from a frame. -/
def lookup (fs : Frames) (id : FrameId) (name : String) : Option Value :=
  (fs.resolve id name).map (·.2.value)

/-- Assigns to the innermost binding of `name`, which must not be a constant. -/
@[inline]
def assign (fs : Frames) (id : FrameId) (name : String) (value : Value) :
    Except BindError Frames :=
  match fs.resolve id name with
  | none => .error .undefined
  | some (owner, b) =>
    match b.mutability with
    | .immutable => .error .immutable
    | .mutable => .ok (fs.define owner name ⟨value, .mutable⟩)

end Frames

end ScriptEngine
