import ScriptEngine.Eval.Evaluator

/-!
What evaluation can do to a machine.

`Evolves P binds m m'` says that `m'` comes from `m` by the few things that evaluation does: it
binds and assigns names to values that `P` holds of, runs parts in a frame or a call or under an
ordinal of their own and leaves these again, and resolves methods. Only where `binds` is true may it
bind names in the frame that is current in `m`.

Since every frame, call and ordinal that is entered is also left, a machine evolves in one context:
`Evolves.context_eq`.
-/

namespace ScriptEngine

namespace Machine

/-- The machine in a new frame below the current one. -/
def opened (m : Machine) : Machine :=
  { m with env := (m.env.push m.frames).1, frames := (m.env.push m.frames).2 }

/-- The machine after its current frame was left. -/
def closed (m : Machine) : Machine :=
  { m with env := m.env.pop }

/-- The machine after a method was resolved, or could not be. -/
def resolved (m : Machine) (ty : TypeId) (index : Nat) : Machine :=
  { m with types := ((Universe.method ty index).run.run m.types).2 }

/-- Where a machine stands: the current frames, the live calls and the ordinal of constants. -/
structure Context where
  env : Environment
  calls : CallStack
  iota : Option Int64

/-- The context of a machine. -/
def context (m : Machine) : Context :=
  ⟨m.env, m.calls, m.iota⟩

end Machine

/-- The machine `m'` comes from `m` by evaluation. -/
inductive Evolves (P : Value → Prop) : Bool → Machine → Machine → Prop where
  | refl {binds m} : Evolves P binds m m
  | trans {binds m₁ m₂ m₃} : Evolves P binds m₁ m₂ → Evolves P binds m₂ m₃ →
      Evolves P binds m₁ m₃
  | define {m name b frames} : m.env.define m.frames name b = .ok frames → P b.value →
      Evolves P true m { m with frames }
  | assign {binds m name v frames} : m.env.assign m.frames name v = .ok frames → P v →
      Evolves P binds m { m with frames }
  | inFrame {binds m m'} : Evolves P true m.opened m' → Evolves P binds m m'.closed
  | underOrdinal {binds m m' iota} : Evolves P binds { m with iota } m' →
      Evolves P binds m { m' with iota := m.iota }
  | called {binds m m' f frame} : m.calls.full? = none →
      Evolves P true (Evaluator.enterCall f frame m) m' →
      Evolves P binds m (Evaluator.leaveCall m.env m.iota m')
  | resolve {binds m ty index} : Evolves P binds m (m.resolved ty index)

namespace Evolves

variable {P : Value → Prop} {binds : Bool} {m m' : Machine}

/-- What may not bind names in the current frame is within what may. -/
theorem weaken (h : Evolves P false m m') : Evolves P binds m m' := by
  cases binds with
  | false => exact h
  | true =>
    generalize hb : false = b at h
    induction h with
    | refl => exact .refl
    | trans _ _ ih₁ ih₂ => exact .trans (ih₁ hb) (ih₂ hb)
    | define => contradiction
    | assign ha hv => exact .assign ha hv
    | inFrame h _ => exact .inFrame h
    | underOrdinal _ ih => exact .underOrdinal (ih hb)
    | called hc h _ => exact .called hc h
    | resolve => exact .resolve

/-- **Evaluation leaves the context as it was.** Frames, calls and ordinals that it enters on the
way are left again. -/
theorem context_eq (h : Evolves P binds m m') : m'.context = m.context := by
  induction h with
  | refl | define | assign | resolve => rfl
  | trans _ _ ih₁ ih₂ => exact ih₂.trans ih₁
  | @inFrame binds m m' _ ih =>
    have henv : m'.env = m.opened.env := congrArg (·.env) ih
    have hcalls : m'.calls = m.opened.calls := congrArg (·.calls) ih
    have hiota : m'.iota = m.opened.iota := congrArg (·.iota) ih
    simp only [Machine.context, Machine.closed, henv, hcalls, hiota]
    rfl
  | @underOrdinal binds m m' iota _ ih =>
    have henv : m'.env = m.env := congrArg (·.env) ih
    have hcalls : m'.calls = m.calls := congrArg (·.calls) ih
    simp only [Machine.context, henv, hcalls]
  | @called binds m m' f frame _ _ ih =>
    have hcalls : m'.calls = m.calls.enter frame := congrArg (·.calls) ih
    simp only [Machine.context, Evaluator.leaveCall, hcalls, CallStack.pop_enter]

/-- Evaluation leaves the code of the callables as it was. -/
theorem functions_eq (h : Evolves P binds m m') : m'.functions = m.functions := by
  induction h with
  | refl | define | assign | resolve => rfl
  | trans _ _ ih₁ ih₂ => exact ih₂.trans ih₁
  | inFrame _ ih | underOrdinal _ ih | called _ _ ih => exact ih

end Evolves

end ScriptEngine
