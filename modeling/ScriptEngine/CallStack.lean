import ScriptEngine.Fault

/-!
The stack of live calls, with an optional limit. A call that would pass the limit is not entered.
-/

namespace ScriptEngine

/-- The live calls, outermost first. -/
structure CallStack where
  frames : Array CallFrame
  /-- The largest number of live calls; unlimited if missing. -/
  limit : Option Nat
  deriving Repr, Inhabited

namespace CallStack

/-- The stack without calls. -/
def empty (limit : Option Nat) : CallStack := ⟨#[], limit⟩

/-- The number of live calls. -/
def depth (s : CallStack) : Nat :=
  s.frames.size

/-- Whether there is no live call. -/
def isEmpty (s : CallStack) : Bool :=
  s.frames.isEmpty

/-- The limit that one more call would pass. -/
def full? (s : CallStack) : Option Nat :=
  s.limit.filter fun max => max ≤ s.depth

/-- The stack with one more call. -/
def enter (s : CallStack) (frame : CallFrame) : CallStack :=
  { s with frames := s.frames.push frame }

/-- Enters a call, unless the limit is reached. -/
def push (s : CallStack) (frame : CallFrame) : Except EvalError CallStack :=
  match s.full? with
  | some max => .error (.of (.stackOverflow max))
  | none => .ok (s.enter frame)

/-- Leaves the innermost call. -/
def pop (s : CallStack) : CallStack :=
  { s with frames := s.frames.pop }

/-- The live calls as a backtrace. -/
def capture (s : CallStack) : Backtrace :=
  s.frames.toList

@[simp]
theorem pop_enter (s : CallStack) (frame : CallFrame) : (s.enter frame).pop = s := by
  simp [enter, pop]

end CallStack

end ScriptEngine
