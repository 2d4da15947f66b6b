import Mathlib
import ScriptEngine.Proofs.Eval.Calls

/-!
What an error of evaluation tells about its origin.

`Arises n t m o` follows the error of the evaluation of the node `t` from the machine `m` inwards:
to the part that `t` evaluates and that fails, to the body of the call that `t` enters, or to a
condition of `t`, and else it arises at `t` itself. The origin `o` is the place it ends at, and the
calls that were entered on the way. An error has an origin (`exists_arises`) and tells it
(`Arises.describes`). Main statement: `errors_keep_diagnostics`.
-/

namespace ScriptEngine

open Evaluator

/-! ### Parts -/

/-- The evaluation of `t` from `m` evaluates its part `t'` from `q`, in the same call: without it,
it comes to no end. -/
structure Evaluates (n : Nat) (t : Node) (m : Machine) (t' : Node) (q : Machine) : Prop where
  calls : q.calls = m.calls
  ends : t.form (evaluator n) n m ≠ .exhausted
  needs : t.form ((evaluator n).withholding t' q) n m = .exhausted

section Parts

variable {n : Nat} {t t' : Node} {m q : Machine} {e : EvalError}

/-- A node is a call, or can be traced. -/
theorem call_or_tracks (n : Nat) (t : Node) :
    (∃ span callee args, t = .expr (.call span callee args)) ∨
      Tracks (evaluator n) t.conditions fun ev => t.form ev n := by
  by_cases hcall : ∃ span callee args, t = .expr (.call span callee args)
  · exact .inl hcall
  · exact .inr (tracks_form (keepsCalls_evaluator n) n
      fun span callee args h => hcall ⟨span, callee, args, h⟩)

/-- A part that is to blame ends the evaluation with its error. -/
theorem Evaluates.error? (h : Evaluates n t m t' q)
    (hblame : Blames (evaluator n) t.conditions t' q e) :
    (t.form (evaluator n) n m).error? = some e := by
  obtain ⟨hcalls, hends, hneeds⟩ := h
  rcases call_or_tracks n t with ⟨span, callee, args, rfl⟩ | htracks
  · simp only [Node.form, Evaluator.exprForm, Eval.asStmt_eq_exhausted, ne_eq, Run.error?_asStmt]
      at hends hneeds ⊢
    rcases call_needs (keepsCalls_evaluator n) hcalls with hsame | herror
    · exact absurd (hsame.symm.trans hneeds) hends
    · exact herror e hblame
  · rcases htracks.needs m t' q with hsame | ⟨-, herror⟩
    · exact absurd (hsame.symm.trans hneeds) hends
    · exact herror e hblame

/-- An error of which more than the cause is known comes from a part, or from a call. -/
theorem exists_blames (he : (t.form (evaluator n) n m).error? = some e)
    (hcall : ∀ a m₁, ¬ Enters (evaluator n) t m a m₁) : e.IsBare ∨
      ∃ t' q, Evaluates n t m t' q ∧ Blames (evaluator n) t.conditions t' q e := by
  have hends : t.form (evaluator n) n m ≠ .exhausted := by
    intro h
    rw [h] at he
    cases he
  rcases call_or_tracks n t with ⟨span, callee, args, rfl⟩ | htracks
  · simp only [Node.form, Evaluator.exprForm, Run.error?_asStmt] at he
    rcases call_source (keepsCalls_evaluator n) he with hbare | ⟨t', q, hq, hneeds, hblame⟩ | h
    · exact .inl hbare
    · exact .inr ⟨t', q, ⟨hq, hends, Eval.asStmt_eq_exhausted.mpr hneeds⟩, hblame⟩
    · obtain ⟨a, m₁, henters⟩ := h
      exact absurd henters (hcall a m₁)
  · rcases htracks.source m e he with hbare | ⟨t', q, hq, hneeds, hblame⟩
    · exact .inl hbare
    · exact .inr ⟨t', q, ⟨hq, hends, hneeds⟩, hblame⟩

end Parts

/-! ### Origins -/

/-- Where an error comes from. -/
structure Origin where
  /-- The node whose evaluation it left first. -/
  place : Span
  /-- The calls that it left, outermost first. -/
  left : List CallFrame
  /-- The calls that were live as it left the innermost of these. -/
  live : Option Backtrace

/-- The evaluation of `t` from `m` fails. -/
def Fails (n : Nat) (t : Node) (m : Machine) : Prop :=
  ∃ e m', t.run (evaluator n) m = .exit (.failed e) m'

/-- The evaluation of `t` from `m` finds another value than a truth value for its condition `c`. -/
def Misjudges (n : Nat) (t : Node) (m : Machine) (c : Expr) : Prop :=
  c ∈ t.conditions ∧ ∃ q v q', Evaluates n t m (.expr c) q ∧
    (evaluator n).expr c q = .value v q' ∧ ∀ b, v ≠ .bool b

/-- The error of the evaluation of `t` from `m` has the origin `o`. -/
inductive Arises : Nat → Node → Machine → Origin → Prop where
  /-- The node fails, and neither a part nor a condition nor a call makes it fail. -/
  | node {n t m} : Fails (n + 1) t m → (∀ t' q, Evaluates n t m t' q → ¬ Fails n t' q) →
      (∀ c, ¬ Misjudges n t m c) → (∀ a m₁, ¬ Enters (evaluator n) t m a m₁) →
      Arises (n + 1) t m ⟨t.span, [], none⟩
  /-- The error is placed at the condition. -/
  | condition {n t m c} : Misjudges n t m c → Arises (n + 1) t m ⟨c.span, [], none⟩
  /-- A part fails, in the same call. -/
  | part {n t m t' q o} : Evaluates n t m t' q → Arises n t' q o → Arises (n + 1) t m o
  /-- A parameter of the call cannot be bound. -/
  | parameter {n t m a m₁ e m₂} : Enters (evaluator n) t m a m₁ →
      bindParams a.code.params a.args m₁ = .exit e m₂ →
      Arises (n + 1) t m ⟨t.span, [a.frame], some m₂.calls.capture⟩
  /-- A jump other than a `return` leaves the body of the call. -/
  | jump {n t m a m₁ m₂ x j m₃} : Enters (evaluator n) t m a m₁ →
      bindParams a.code.params a.args m₁ = .value () m₂ →
      (evaluator n).stmt none a.code.body m₂ = .exit x m₃ → x.signal? = some j → j ≠ .result →
      Arises (n + 1) t m ⟨t.span, [a.frame], some m₃.calls.capture⟩
  /-- An error leaves the body of the call. -/
  | call {n t m a m₁ m₂ e m₃ o} : Enters (evaluator n) t m a m₁ →
      bindParams a.code.params a.args m₁ = .value () m₂ →
      (evaluator n).stmt none a.code.body m₂ = .exit (.failed e) m₃ →
      Arises n (.stmt none a.code.body) m₂ o →
      Arises (n + 1) t m ⟨o.place, a.frame :: o.left, o.live.or (some m₃.calls.capture)⟩

/-- The error tells its origin, in an evaluation that started under `calls`. -/
structure Origin.Describes (o : Origin) (calls : CallStack) (e : EvalError) : Prop where
  span : e.span = some o.place
  backtrace : e.backtrace = o.live
  live : o.live = if o.left.isEmpty then none else some (calls.capture ++ o.left)

section Origins

variable {n : Nat} {t : Node} {m m' m₁ m₂ : Machine} {a : Activation} {e : EvalError} {o : Origin}

theorem exists_run_of_form (h : (t.form (evaluator n) n m).error? = some e) :
    ∃ m', t.run (evaluator (n + 1)) m = .exit (.failed (e.locate t.span)) m' := by
  obtain ⟨m', hrun⟩ := Run.eq_failed h
  rw [Node.run_evaluator]
  simp only [Eval.mapExit, Eval.handle, hrun]
  exact ⟨m', rfl⟩

theorem exists_form_of_run (h : t.run (evaluator (n + 1)) m = .exit (.failed e) m') :
    ∃ e', (t.form (evaluator n) n m).error? = some e' := by
  rw [Node.run_evaluator] at h
  simp only [Eval.mapExit, Eval.handle] at h
  cases hrun : t.form (evaluator n) n m with
  | exit x m₁ =>
    rw [hrun] at h
    cases x with
    | failed e' => exact ⟨e', rfl⟩
    | leaveLoop | nextRound | result => cases h
  | value | exhausted =>
    rw [hrun] at h
    cases h

/-- A jump other than a `return` that leaves the body of a call becomes an error there. -/
theorem Enters.exists_run_of_jump {x : Exit} {j : Signal} {m₃ : Machine}
    (h : Enters (evaluator n) t m a m₁)
    (hbound : bindParams a.code.params a.args m₁ = .value () m₂)
    (hbody : (evaluator n).stmt none a.code.body m₂ = .exit x m₃) (hsignal : x.signal? = some j)
    (hj : j ≠ .result) :
    ∃ m', t.run (evaluator (n + 1)) m =
      .exit (.failed ⟨j.cause, some t.span, some (m.calls.capture ++ [a.frame]), []⟩) m' := by
  have herror : callError? (.exit x m₃) =
      some ⟨j.cause, none, some (m.calls.capture ++ [a.frame]), []⟩ := by
    rw [← CallStack.capture_enter, ← (h.calls_of_exit (keepsCalls_evaluator n) hbound hbody).2]
    cases x with
    | failed e => cases hsignal
    | leaveLoop | nextRound =>
      cases hsignal
      rfl
    | result vs =>
      cases hsignal
      exact absurd rfl hj
  have hform : (t.form (evaluator n) n m).error? =
      some ⟨j.cause, none, some (m.calls.capture ++ [a.frame]), []⟩ := by
    rw [h.error?, body_of_bound hbound, hbody, herror]
  exact exists_run_of_form hform

/-- **An error tells its origin.** -/
theorem Arises.describes (h : Arises n t m o) :
    ∃ e m', t.run (evaluator n) m = .exit (.failed e) m' ∧ o.Describes m.calls e := by
  induction h with
  | @node n t m hfails hparts hconditions hcall =>
    obtain ⟨e, m', hrun⟩ := hfails
    obtain ⟨e', hform⟩ := exists_form_of_run hrun
    obtain ⟨m'', hrun'⟩ := exists_run_of_form hform
    refine ⟨_, m'', hrun', ?_⟩
    rcases exists_blames hform hcall with ⟨hspan, hbacktrace⟩ | ⟨t', q, hpart, hblame⟩
    · exact ⟨by simp [hspan], by simp [hbacktrace], rfl⟩
    · cases hblame with
      | failure herror =>
        obtain ⟨q', hq'⟩ := Run.eq_failed herror
        exact absurd ⟨e', q', hq'⟩ (hparts t' q hpart)
      | @condition c _ v q' hc hvalue hv =>
        exact absurd ⟨hc, q, v, q', hpart, hvalue, hv⟩ (hconditions c)
  | @condition n t m c h =>
    obtain ⟨hc, q, v, q', hpart, hvalue, hv⟩ := h
    obtain ⟨m', hrun⟩ := exists_run_of_form (hpart.error? (.condition hc hvalue hv))
    exact ⟨_, m', hrun, rfl, rfl, rfl⟩
  | @part n t m t' q o hpart _ ih =>
    obtain ⟨e, q', hrun, hspan, hbacktrace, hlive⟩ := ih
    obtain ⟨m', hrun'⟩ := exists_run_of_form (hpart.error? (.failure (by rw [hrun]; rfl)))
    rw [hpart.calls] at hlive
    exact ⟨_, m', hrun', by simp [hspan], by simp [hbacktrace], hlive⟩
  | @parameter n t m a m₁ e m₂ henters hunbound =>
    have hbare : e.IsBare := (isLocal_bindParams _ _).bare m₁ e (by rw [hunbound]; rfl)
    have hcalls : m₂.calls = m.calls.enter a.frame :=
      (((isLocal_bindParams _ _).calls m₁).exit hunbound).trans
        (henters.calls (keepsCalls_evaluator n))
    have hform : (t.form (evaluator n) n m).error? = some (e.trace m₂.calls.capture) := by
      rw [henters.error?, body_of_unbound hunbound]
      rfl
    obtain ⟨m', hrun⟩ := exists_run_of_form hform
    exact ⟨_, m', hrun, by simp [hbare.1], by simp [hbare.2], by simp [hcalls]⟩
  | @jump n t m a m₁ m₂ x j m₃ henters hbound hbody hsignal hj =>
    obtain ⟨m', hrun⟩ := henters.exists_run_of_jump hbound hbody hsignal hj
    have hcalls := (henters.calls_of_exit (keepsCalls_evaluator n) hbound hbody).2
    exact ⟨_, m', hrun, rfl, by simp [hcalls], by simp [hcalls]⟩
  | @call n t m a m₁ m₂ e m₃ o henters hbound hbody _ ih =>
    obtain ⟨e', m₃', hrun, hspan, hbacktrace, hlive⟩ := ih
    obtain ⟨hstart, hend⟩ := henters.calls_of_exit (keepsCalls_evaluator n) hbound hbody
    cases hrun.symm.trans hbody
    have hform : (t.form (evaluator n) n m).error? = some (e.trace m₃.calls.capture) := by
      rw [henters.error?, body_of_bound hbound, hbody]
      rfl
    obtain ⟨m', hrun'⟩ := exists_run_of_form hform
    refine ⟨_, m', hrun', by simp [hspan], by simp [hbacktrace], ?_⟩
    rw [hstart] at hlive
    cases hleft : o.left with
    | nil => simp [hlive, hleft, hend]
    | cons frame rest => simp [hlive, hleft]

/-- A call that was entered and fails does so in its parameters or by its body. -/
theorem Enters.exists_arises (h : Enters (evaluator n) t m a m₁)
    (he : (t.form (evaluator n) n m).error? = some e)
    (hbody : ∀ m₂, Fails n (.stmt none a.code.body) m₂ →
      ∃ o, Arises n (.stmt none a.code.body) m₂ o) : ∃ o, Arises (n + 1) t m o := by
  rw [h.error?] at he
  cases hbind : bindParams a.code.params a.args m₁ with
  | exit e m₂ => exact ⟨_, .parameter h hbind⟩
  | exhausted =>
    simp only [Evaluator.body, bind, Eval.bind, Eval.asStmt, Eval.mapExit, Eval.handle, hbind] at he
    cases he
  | value u m₂ =>
    rw [body_of_bound hbind] at he
    cases hrun : (evaluator n).stmt none a.code.body m₂ with
    | value | exhausted =>
      rw [hrun] at he
      cases he
    | exit x m₃ =>
      cases x with
      | failed e =>
        obtain ⟨o, ho⟩ := hbody m₂ ⟨e, m₃, hrun⟩
        exact ⟨_, .call h hbind hrun ho⟩
      | leaveLoop | nextRound => exact ⟨_, .jump h hbind hrun rfl (by simp)⟩
      | result vs =>
        rw [hrun] at he
        cases he

/-- **Every error has an origin.** The induction is on the budget, which is smaller for the parts of
a node and for the bodies that it calls. -/
theorem exists_arises (h : Fails n t m) : ∃ o, Arises n t m o := by
  induction n generalizing t m with
  | zero =>
    obtain ⟨e, m', hrun⟩ := h
    cases t <;> cases hrun
  | succ n ih =>
    by_cases hcall : ∃ a m₁, Enters (evaluator n) t m a m₁
    · obtain ⟨e, m', hrun⟩ := h
      obtain ⟨e', hform⟩ := exists_form_of_run hrun
      obtain ⟨a, m₁, henters⟩ := hcall
      exact henters.exists_arises hform fun m₂ hbody => ih hbody
    by_cases hpart : ∃ t' q, Evaluates n t m t' q ∧ Fails n t' q
    · obtain ⟨t', q, hpart, hfails⟩ := hpart
      obtain ⟨o, ho⟩ := ih hfails
      exact ⟨o, .part hpart ho⟩
    by_cases hcondition : ∃ c, Misjudges n t m c
    · obtain ⟨c, hc⟩ := hcondition
      exact ⟨_, .condition hc⟩
    refine ⟨_, .node h ?_ ?_ ?_⟩
    · exact fun t' q h hfails => hpart ⟨t', q, h, hfails⟩
    · exact fun c hc => hcondition ⟨c, hc⟩
    · exact fun a m₁ henters => hcall ⟨a, m₁, henters⟩

/-- An error tells one origin only. -/
theorem Origin.Describes.unique {calls : CallStack} {o' : Origin} (h : o.Describes calls e)
    (h' : o'.Describes calls e) : o = o' := by
  obtain ⟨place, left, live⟩ := o
  obtain ⟨place', left', live'⟩ := o'
  obtain rfl : place = place' := Option.some.inj (h.span.symm.trans h'.span)
  obtain rfl : live = live' := h.backtrace.symm.trans h'.backtrace
  have hlive : (if left.isEmpty then none else some (calls.capture ++ left)) =
      if left'.isEmpty then none else some (calls.capture ++ left') := h.live.symm.trans h'.live
  have hleft : left = left' := by
    cases left with
    | nil =>
      cases left' with
      | nil => rfl
      | cons => cases hlive
    | cons =>
      cases left' with
      | nil => cases hlive
      | cons => simpa using hlive
  rw [hleft]

end Origins

/-- **Errors keep exact diagnostics.** An evaluation that fails has one origin, and its error tells
it: its place is that of the node it left first, and its backtrace, if it left a call, are the calls
that were live as it left the innermost one: those that were live at first and those that were
entered since. A `break` or `continue` that leaves the body of a call becomes such an error there. -/
theorem errors_keep_diagnostics (budget : Nat) (m : Machine) :
    (∀ s e m', evalStmt budget s m = .exit (.failed e) m' →
      ∃ o, Arises budget (.stmt none s) m o ∧ o.Describes m.calls e ∧
        ∀ o', Arises budget (.stmt none s) m o' → o' = o) ∧
    (∀ x e m', evalExpr budget x m = .exit e m' →
      ∃ o, Arises budget (.expr x) m o ∧ o.Describes m.calls e ∧
        ∀ o', Arises budget (.expr x) m o' → o' = o) ∧
    ∀ t a m₁ m₂ x j m₃, Enters (evaluator budget) t m a m₁ →
      bindParams a.code.params a.args m₁ = .value () m₂ →
      (evaluator budget).stmt none a.code.body m₂ = .exit x m₃ → x.signal? = some j →
      j ≠ .result → ∃ m', t.run (evaluator (budget + 1)) m =
        .exit (.failed ⟨j.cause, some t.span, some (m.calls.capture ++ [a.frame]), []⟩) m' := by
  have hnode : ∀ t e m', t.run (evaluator budget) m = .exit (.failed e) m' →
      ∃ o, Arises budget t m o ∧ o.Describes m.calls e ∧ ∀ o', Arises budget t m o' → o' = o := by
    intro t e m' hrun
    have hdescribes : ∀ o, Arises budget t m o → o.Describes m.calls e := by
      intro o ho
      obtain ⟨e', m'', hrun', h⟩ := ho.describes
      cases hrun.symm.trans hrun'
      exact h
    obtain ⟨o, ho⟩ := exists_arises ⟨e, m', hrun⟩
    exact ⟨o, ho, hdescribes o ho, fun o' ho' => (hdescribes o' ho').unique (hdescribes o ho)⟩
  refine ⟨fun s => hnode (.stmt none s), fun x e m' hrun => ?_, ?_⟩
  · apply hnode (.expr x) e m'
    change (Eval.asStmt (evalExpr budget x)) m = _
    simp only [Eval.asStmt, Eval.mapExit, Eval.handle, hrun]
    rfl
  · exact fun t a m₁ m₂ x j m₃ henters => henters.exists_run_of_jump

/-- `f := func() { x }` and `f()` in one block. -/
def failingCall : Stmt :=
  .block ⟨0, 30⟩ [
    .define ⟨2, 19⟩ ["f"] [.func ⟨7, 19⟩ []
      (.block ⟨14, 19⟩ [.expr ⟨16, 17⟩ (.ident ⟨16, 17⟩ "x")])],
    .expr ⟨21, 24⟩ (.call ⟨21, 24⟩ (.ident ⟨21, 22⟩ "f") [])]

/-- `func() { if 1 {} }()`, whose condition is no truth value. -/
def misjudgingCall : Expr :=
  .call ⟨0, 20⟩ (.func ⟨0, 18⟩ []
    (.branch ⟨9, 16⟩ none (.int ⟨12, 13⟩ 1) (.block ⟨14, 16⟩ []) none)) []

/-- The function of `func() { break }`, made in the first frame. -/
def breaking : Function :=
  ⟨[], .jump ⟨9, 14⟩ .leaveLoop none, ⟨0⟩⟩

/-- `func() { break }()`. -/
def breakingCall : Expr :=
  .call ⟨0, 18⟩ (.func ⟨0, 16⟩ breaking.params breaking.body) []

/-- A machine with one frame, in a call of `main`. -/
def inMain : Machine :=
  ⟨Frames.empty.grow none, .empty, ⟨⟨0⟩, [], ⟨0⟩⟩, .empty, ⟨#[⟨"main", none⟩], none⟩, none⟩

/-- The undefined name is placed at the name and has left `f`; the condition is placed at itself and
has left a function without a name; the `break` is placed at the call. -/
theorem errors_keep_diagnostics_calls :
    (∃ e m' o, evalStmt 9 failingCall inMain = .exit (.failed e) m' ∧
      Arises 9 (.stmt none failingCall) inMain o ∧ o.place = ⟨16, 17⟩ ∧
      o.live = some [⟨"main", none⟩, ⟨"f", some ⟨21, 24⟩⟩]) ∧
    (∃ e m' o, evalExpr 9 misjudgingCall inMain = .exit e m' ∧
      Arises 9 (.expr misjudgingCall) inMain o ∧ o.place = ⟨12, 13⟩ ∧
      o.live = some [⟨"main", none⟩, ⟨"func", some ⟨0, 20⟩⟩]) ∧
    ∃ m', (Node.expr breakingCall).run (evaluator 9) inMain = .exit (.failed
      ⟨.breakOutsideLoop, some ⟨0, 18⟩,
        some [⟨"main", none⟩, ⟨"func", some ⟨0, 18⟩⟩], []⟩) m' := by
  refine ⟨?_, ?_, ?_⟩
  · have hrun : ∃ m', evalStmt 9 failingCall inMain = .exit (.failed ⟨.undefinedIdentifier "x",
        some ⟨16, 17⟩, some [⟨"main", none⟩, ⟨"f", some ⟨21, 24⟩⟩], []⟩) m' := ⟨_, by cbv⟩
    obtain ⟨m', hrun⟩ := hrun
    obtain ⟨o, ho, hdescribes, -⟩ := (errors_keep_diagnostics 9 inMain).1 _ _ _ hrun
    exact ⟨_, m', o, hrun, ho, (Option.some.inj hdescribes.span).symm, hdescribes.backtrace.symm⟩
  · have hrun : ∃ m', evalExpr 9 misjudgingCall inMain = .exit ⟨.invalidConditionType "int",
        some ⟨12, 13⟩, some [⟨"main", none⟩, ⟨"func", some ⟨0, 20⟩⟩], []⟩ m' := ⟨_, by cbv⟩
    obtain ⟨m', hrun⟩ := hrun
    obtain ⟨o, ho, hdescribes, -⟩ := (errors_keep_diagnostics 9 inMain).2.1 _ _ _ hrun
    exact ⟨_, m', o, hrun, ho, (Option.some.inj hdescribes.span).symm, hdescribes.backtrace.symm⟩
  · have henters : Enters (evaluator 8) (.expr breakingCall) inMain
        ⟨breaking, [], ⟨"func", some ⟨0, 18⟩⟩⟩
        (enterCall breaking ⟨"func", some ⟨0, 18⟩⟩ inMain) := .call rfl rfl rfl rfl rfl
    exact (errors_keep_diagnostics 8 inMain).2.2 _ _ _ _ _ _ _ henters rfl rfl rfl (by simp)

end ScriptEngine
