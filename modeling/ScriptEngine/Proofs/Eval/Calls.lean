import ScriptEngine.Proofs.Eval.TrackedForms

/-!
The call of a function, which is the form that evaluates a part among other live calls.

`Enters` says that the evaluation of a node enters a call: callee and arguments are evaluated, and
the frame of the call is pushed. Up to there a call can be traced like every other form
(`call_needs`, `call_source`); an entered call ends as its body makes it end (`Enters.error?`).
-/

namespace ScriptEngine

open Evaluator

@[simp]
theorem CallStack.capture_enter (s : CallStack) (frame : CallFrame) :
    (s.enter frame).capture = s.capture ++ [frame] := by
  simp [enter, capture]

/-- A call: the code, all its arguments, and its frame among the live calls. -/
structure Activation where
  code : Function
  args : List Value
  frame : CallFrame

/-- The call that calling a value makes, if there is one. A bound method goes by its own name and is
passed its receiver first; its code must be known. -/
def Machine.activation? (m : Machine) (args : List Value) (name : String) (span : Option Span) :
    Value → Option Activation
  | .func f => some ⟨f, args, ⟨name, span⟩⟩
  | .method recv func method =>
    (m.functions.find? func).map fun f => ⟨f, recv :: args, ⟨method, span⟩⟩
  | _ => none

/-- The evaluation of a call from `m` enters the call `a`: its callee and its arguments have values,
as many as there are parameters, and the limit on calls is not reached. The last machine is the one
that the call starts from. -/
inductive Enters (ev : Evaluator) : Node → Machine → Activation → Machine → Prop where
  | call {span callee args m m₁ m₂ f vs a} : ev.expr callee m = .value f m₁ →
      ev.spreadExprs args m₁ = .value vs m₂ →
      m₂.activation? vs callee.calleeName (some span) f = some a →
      a.args.length = a.code.params.length → m₂.calls.full? = none →
      Enters ev (.expr (.call span callee args)) m a (enterCall a.code a.frame m₂)

/-- The error that a call makes of the end of its body. -/
def callError? : Run Exit Value → Option EvalError
  | .exit (.result _) _ => none
  | .exit x m => some (x.toError.trace m.calls.capture)
  | _ => none

section Calls

variable {ev : Evaluator} {t : Node} {m m₁ m₂ q : Machine} {a : Activation} {e : EvalError}

theorem error?_callResult {env : Environment} {iota : Option Int64} {r : Run Exit Value} :
    (callResult env iota r).error? = callError? r := by
  cases r with
  | value | exhausted => rfl
  | exit x m => cases x <;> rfl

theorem Evaluator.callValue_of_activation {f : Value} {args : List Value} {name : String}
    {span : Option Span} (h : m.activation? args name span f = some a) :
    ev.callValue f args name span m = ev.callFunction a.code a.args a.frame m := by
  cases f with
  | func f =>
    cases h
    rfl
  | method recv func method =>
    obtain ⟨f, hf, rfl⟩ := Option.map_eq_some_iff.mp h
    simp only [Evaluator.callValue, bind, Eval.bind, Eval.asks, hf]
  | void | bool | int | float | str | tuple | struct => cases h

theorem Evaluator.callValue_of_none {f : Value} {args : List Value} {name : String} {span : Option Span}
    (h : m.activation? args name span f = none) :
    ∃ c, ∀ ev : Evaluator, ev.callValue f args name span m = .exit (.of c) m := by
  cases f with
  | func f => cases h
  | method recv func method =>
    refine ⟨.undefinedMethod method recv.kindName, fun ev => ?_⟩
    simp only [Evaluator.callValue, bind, Eval.bind, Eval.asks, Option.map_eq_none_iff.mp h]
    rfl
  | void | bool | int | float | str | tuple | struct => exact ⟨_, fun _ => rfl⟩

/-- A call is evaluated in its callee and its arguments first. -/
def Evaluator.calleeAndArgs (ev : Evaluator) (callee : Expr) (args : List Expr) :
    Eval EvalError (Value × List Value) := do
  let f ← ev.expr callee
  let vs ← ev.spreadExprs args
  return (f, vs)

theorem Evaluator.call_eq {callee : Expr} {args : List Expr} {span : Span} :
    ev.call callee args span = calleeAndArgs ev callee args >>= fun p =>
      ev.callValue p.1 p.2 callee.calleeName (some span) := by
  funext m
  simp only [Evaluator.call, calleeAndArgs, bind, Eval.bind]
  cases ev.expr callee m with
  | value f m₁ =>
    dsimp only
    cases ev.spreadExprs args m₁ <;> rfl
  | exit | exhausted => rfl

theorem Evaluator.calleeAndArgs_eq_value {callee : Expr} {args : List Expr} {f : Value} {vs : List Value}
    {m₂ : Machine} : calleeAndArgs ev callee args m = .value (f, vs) m₂ ↔
      ∃ m₁, ev.expr callee m = .value f m₁ ∧ ev.spreadExprs args m₁ = .value vs m₂ := by
  simp only [calleeAndArgs, Eval.bind_eq_value]
  constructor
  · rintro ⟨f', m₁, hcallee, vs', m₂', hargs, hpure⟩
    cases hpure
    exact ⟨m₁, hcallee, hargs⟩
  · rintro ⟨m₁, hcallee, hargs⟩
    exact ⟨f, m₁, hcallee, vs, m₂, hargs, rfl⟩

theorem tracks_calleeAndArgs (hev : ev.KeepsCalls) (callee : Expr) (args : List Expr) :
    Tracks ev [] fun ev => calleeAndArgs ev callee args := by
  apply (Tracks.expr hev List.not_mem_nil).bind
  intro f
  apply (Tracks.spreadExprs hev fun _ _ => List.not_mem_nil).bind
  exact fun vs => tracks_pure (f, vs)

/-- What a call evaluates in its body has one more live call than the caller. -/
theorem Evaluator.body_withholding {f : Function} {args : List Value} (hq : q.calls ≠ m.calls) :
    (ev.withholding t q).body f args m = ev.body f args m := by
  have htracks : Tracks ev [] fun _ => (bindParams f.params args).asStmt :=
    (tracks_bindParams f.params args).asStmt
  simp only [Evaluator.body, bind, Eval.bind]
  cases hrun : (bindParams f.params args).asStmt m with
  | value u m' =>
    refine withholding_stmt_of_ne fun h => hq ?_
    rw [h.2]
    exact (htracks.calls m).value hrun
  | exit | exhausted => rfl

theorem Evaluator.callFunction_withholding (hq : q.calls = m.calls) :
    (ev.withholding t q).callFunction a.code a.args a.frame m =
      ev.callFunction a.code a.args a.frame m := by
  have hne : q.calls ≠ (enterCall a.code a.frame m).calls := by
    intro h
    have hsize := congrArg (fun s : CallStack => s.frames.size) (hq.symm.trans h)
    simp [enterCall, CallStack.enter] at hsize
  simp only [Evaluator.callFunction, body_withholding hne]

theorem Evaluator.callValue_withholding {f : Value} {args : List Value} {name : String}
    {span : Option Span} (hq : q.calls = m.calls) :
    (ev.withholding t q).callValue f args name span m = ev.callValue f args name span m := by
  cases ha : m.activation? args name span f with
  | some a =>
    rw [callValue_of_activation ha, callValue_of_activation ha, callFunction_withholding hq]
  | none =>
    obtain ⟨c, hc⟩ := callValue_of_none ha
    rw [hc, hc]

/-- A call does without a part in its own call, or ends with the part's error if there is one. -/
theorem Evaluator.call_needs (hev : ev.KeepsCalls) {callee : Expr} {args : List Expr} {span : Span}
    (hq : q.calls = m.calls) :
    (ev.withholding t q).call callee args span m = ev.call callee args span m ∨
      ∀ e, Blames ev [] t q e → (ev.call callee args span m).error? = some e := by
  have htracks := tracks_calleeAndArgs hev callee args
  simp only [call_eq, bind, Eval.bind]
  rcases htracks.needs m t q with hsame | ⟨-, hblame⟩
  · left
    rw [hsame]
    cases hrun : calleeAndArgs ev callee args m with
    | value p m₁ => exact callValue_withholding (hq.trans ((htracks.calls m).value hrun).symm)
    | exit | exhausted => rfl
  · right
    intro e he
    obtain ⟨x, m₁, hrun, hx⟩ := Run.exists_of_error? (hblame e he)
    rw [hrun]
    exact hx

/-- An error of a call of which more than the cause is known comes from a part in its own call, or
from the call that it enters. -/
theorem Evaluator.call_source (hev : ev.KeepsCalls) {callee : Expr} {args : List Expr} {span : Span}
    (he : (ev.call callee args span m).error? = some e) : e.IsBare ∨
      (∃ t q, q.calls = m.calls ∧ (ev.withholding t q).call callee args span m = .exhausted ∧
        Blames ev [] t q e) ∨
      ∃ a m₁, Enters ev (.expr (.call span callee args)) m a m₁ := by
  have htracks := tracks_calleeAndArgs hev callee args
  simp only [call_eq, bind, Eval.bind] at he ⊢
  cases hrun : calleeAndArgs ev callee args m with
  | exhausted =>
    rw [hrun] at he
    cases he
  | exit x m₁ =>
    rw [hrun] at he
    rcases htracks.source m e (by rw [hrun]; exact he) with hbare | ⟨t, q, hq, hneeds, hblame⟩
    · exact .inl hbare
    · exact .inr (.inl ⟨t, q, hq, by rw [hneeds], hblame⟩)
  | value p m₂ =>
    rw [hrun] at he
    obtain ⟨m₁, hcallee, hargs⟩ := calleeAndArgs_eq_value.mp hrun
    cases ha : m₂.activation? p.2 callee.calleeName (some span) p.1 with
    | none =>
      obtain ⟨c, hc⟩ := callValue_of_none ha
      simp only [hc] at he
      cases he
      exact .inl ⟨rfl, rfl⟩
    | some a =>
      simp only [callValue_of_activation ha, Evaluator.callFunction] at he
      split at he
      · next hlen =>
        cases hfull : m₂.calls.full? with
        | some max =>
          simp only [hfull] at he
          cases he
          exact .inl ⟨rfl, rfl⟩
        | none => exact .inr (.inr ⟨a, _, .call hcallee hargs ha hlen hfull⟩)
      · cases he
        exact .inl ⟨rfl, rfl⟩

/-- An entered call ends as its body makes it end. -/
theorem Enters.error? (h : Enters ev t m a m₁) (budget : Nat) :
    (t.form ev budget m).error? = callError? (ev.body a.code a.args m₁) := by
  obtain ⟨hcallee, hargs, ha, hlen, hfull⟩ := h
  simp only [Node.form, Evaluator.exprForm, Run.error?_asStmt, Evaluator.call, bind, Eval.bind,
    hcallee, hargs, callValue_of_activation ha, Evaluator.callFunction, if_pos hlen, hfull,
    error?_callResult]

/-- A call starts with one more live call than its caller has. -/
theorem Enters.calls (hev : ev.KeepsCalls) (h : Enters ev t m a m₁) :
    m₁.calls = m.calls.enter a.frame := by
  cases h with
  | @call span callee args _ m₂ m₃ f vs _ hcallee hargs =>
    have hrun : calleeAndArgs ev callee args m = .value (f, vs) m₃ :=
      calleeAndArgs_eq_value.mpr ⟨m₂, hcallee, hargs⟩
    have hkeeps := ((tracks_calleeAndArgs hev callee args).calls m).value hrun
    rw [enterCall, ← hkeeps]

/-- The body of a call whose parameters are bound. -/
theorem Evaluator.body_of_bound {f : Function} {args : List Value}
    (h : bindParams f.params args m₁ = .value () m₂) :
    ev.body f args m₁ = ev.stmt none f.body m₂ := by
  simp only [Evaluator.body, bind, Eval.bind, Eval.asStmt, Eval.mapExit, Eval.handle, h]

theorem Evaluator.body_of_unbound {f : Function} {args : List Value}
    (h : bindParams f.params args m₁ = .exit e m₂) :
    ev.body f args m₁ = .exit (.failed e) m₂ := by
  simp only [Evaluator.body, bind, Eval.bind, Eval.asStmt, Eval.mapExit, Eval.handle, h]
  rfl

/-- Binding parameters keeps the live calls, and fails with a bare error. -/
theorem isLocal_bindParams (params : List String) (args : List Value) :
    (bindParams params args).IsLocal := by
  have htracks : Tracks .exhausted [] fun _ => bindParams params args := tracks_bindParams params args
  exact htracks.isLocal

/-- The calls that are live when an exit leaves the body of a call. -/
theorem Enters.calls_of_exit (hev : ev.KeepsCalls) (h : Enters ev t m a m₁)
    (hbound : bindParams a.code.params a.args m₁ = .value () m₂) {x : Exit} {m₃ : Machine}
    (hbody : ev.stmt none a.code.body m₂ = .exit x m₃) :
    m₂.calls = m.calls.enter a.frame ∧ m₃.calls = m.calls.enter a.frame := by
  have hcalls : m₂.calls = m.calls.enter a.frame :=
    (((isLocal_bindParams _ _).calls m₁).value hbound).trans (h.calls hev)
  exact ⟨hcalls, ((hev.stmt none a.code.body m₂).exit hbody).trans hcalls⟩

end Calls

end ScriptEngine
