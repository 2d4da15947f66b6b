import ScriptEngine.Proofs.Eval.Context

/-!
Which part of an evaluation an error comes from.

The forms of statements and expressions are computations over an evaluator of their parts. What such
a computation evaluates is seen from what it cannot do without: `Evaluator.withholding` is the
evaluator that has no answer for one node from one machine. `Tracks` is the contract of a
computation under which its errors can be traced: a part that it cannot do without is to blame for
its error (`Blames`), and an error of which more than the cause is known has such a part. Every form
but the call of a function keeps the contract (`tracks_form`).
-/

namespace ScriptEngine

open Evaluator

/-! ### Errors -/

/-- The exits of a computation, of which some are errors. -/
class Failing (ε : Type) where
  error? : ε → Option EvalError

instance : Failing EvalError := ⟨some⟩

/-- The error of an exit that is one. -/
def Exit.error? : Exit → Option EvalError
  | .failed e => some e
  | _ => none

instance : Failing Exit := ⟨Exit.error?⟩

/-- The error that a computation ended with. -/
def Run.error? {ε α : Type} [Failing ε] : Run ε α → Option EvalError
  | .exit x _ => Failing.error? x
  | _ => none

theorem Run.exists_of_error? {ε α : Type} [Failing ε] {r : Run ε α} {e : EvalError}
    (h : r.error? = some e) : ∃ x m, r = .exit x m ∧ Failing.error? x = some e := by
  cases r with
  | exit x m => exact ⟨x, m, rfl, h⟩
  | value | exhausted => cases h

theorem Run.eq_failed {α : Type} {r : Run Exit α} {e : EvalError} (h : r.error? = some e) :
    ∃ m, r = .exit (.failed e) m := by
  obtain ⟨x, m, rfl, hx⟩ := exists_of_error? h
  cases x with
  | failed e' =>
    cases hx
    exact ⟨m, rfl⟩
  | leaveLoop | nextRound | result => cases hx

@[simp]
theorem Run.error?_asStmt {α : Type} {x : Eval EvalError α} {m : Machine} :
    (x.asStmt m).error? = (x m).error? := by
  simp only [Eval.asStmt, Eval.mapExit, Eval.handle]
  cases x m <;> rfl

theorem Eval.asStmt_eq_exhausted {α : Type} {x : Eval EvalError α} {m : Machine} :
    x.asStmt m = .exhausted ↔ x m = .exhausted := by
  simp only [asStmt, mapExit, handle]
  cases x m <;> simp [raise]

namespace EvalError

variable {e : EvalError} {span : Span} {calls : Backtrace}

@[simp]
theorem span_locate : (e.locate span).span = some (e.span.getD span) := by
  unfold locate
  split
  · next s hs => simp [hs]
  · next hs => simp [hs]

@[simp]
theorem cause_locate : (e.locate span).cause = e.cause := by
  unfold locate
  split <;> rfl

@[simp]
theorem backtrace_locate : (e.locate span).backtrace = e.backtrace := by
  unfold locate
  split <;> rfl

@[simp]
theorem span_trace : (e.trace calls).span = e.span := by
  unfold trace
  split <;> rfl

@[simp]
theorem cause_trace : (e.trace calls).cause = e.cause := by
  unfold trace
  split <;> rfl

@[simp]
theorem backtrace_trace : (e.trace calls).backtrace = e.backtrace.or (some calls) := by
  unfold trace
  split
  · next b hb => simp [hb]
  · next hb => simp [hb]

end EvalError

/-- Nothing is known of the error but its cause. -/
def EvalError.IsBare (e : EvalError) : Prop :=
  e.span = none ∧ e.backtrace = none

/-- The error of a condition with a value that is not a truth value. -/
def conditionError (c : Expr) (v : Value) : EvalError :=
  (EvalError.of (.invalidConditionType v.kindName)).locate c.span

/-! ### Nodes -/

/-- A node of a program. A statement is told the label that stands directly before it. -/
inductive Node where
  | stmt (label : Option String) (s : Stmt)
  | expr (e : Expr)

namespace Node

/-- The span a node was read from. -/
def span : Node → Span
  | stmt _ s => s.span
  | expr e => e.span

/-- How a node is evaluated by an evaluator. -/
def run (ev : Evaluator) : Node → Eval Exit Value
  | stmt label s => ev.stmt label s
  | expr e => (ev.expr e).asStmt

/-- How a node is evaluated given how its parts are, its place in errors apart. -/
def form (ev : Evaluator) (budget : Nat) : Node → Eval Exit Value
  | stmt label s => ev.stmtForm budget label s
  | expr e => (ev.exprForm e).asStmt

/-- The expressions that a node evaluates as conditions. -/
def conditions : Node → List Expr
  | stmt _ (.branch _ _ cond _ _) => [cond]
  | stmt _ (.loop _ _ cond _ _) => cond.toList
  | stmt _ (.switch _ _ none clauses) => clauses.flatMap (·.values.getD [])
  | _ => []

/-- An error is placed at the first node it leaves. -/
theorem run_evaluator (t : Node) (budget : Nat) :
    t.run (evaluator (budget + 1)) =
      (t.form (evaluator budget) budget).mapExit (·.locate t.span) := by
  funext m
  cases t with
  | stmt label s =>
    simp only [run, evaluator, onOwnStack_eq]
    rfl
  | expr e =>
    simp only [run, evaluator, onOwnStack_eq, Eval.asStmt, Eval.mapExit, Eval.handle]
    simp only [form, Eval.asStmt, Eval.mapExit, Eval.handle]
    cases (evaluator budget).exprForm e m <;> rfl

end Node

open Classical in
/-- The evaluator that has no answer for the node `t` from the machine `q`. -/
noncomputable def Evaluator.withholding (ev : Evaluator) (t : Node) (q : Machine) : Evaluator where
  stmt label s m := if t = .stmt label s ∧ q = m then .exhausted else ev.stmt label s m
  expr e m := if t = .expr e ∧ q = m then .exhausted else ev.expr e m

section Withholding

variable {ev : Evaluator} {t : Node} {q m : Machine} {label : Option String} {s : Stmt} {e : Expr}

@[simp]
theorem Evaluator.withholding_stmt_self :
    (ev.withholding (.stmt label s) m).stmt label s m = .exhausted :=
  if_pos ⟨rfl, rfl⟩

@[simp]
theorem Evaluator.withholding_expr_self :
    (ev.withholding (.expr e) m).expr e m = .exhausted :=
  if_pos ⟨rfl, rfl⟩

theorem Evaluator.withholding_stmt_of_ne (h : ¬ (t = .stmt label s ∧ q = m)) :
    (ev.withholding t q).stmt label s m = ev.stmt label s m :=
  if_neg h

theorem Evaluator.withholding_expr_of_ne (h : ¬ (t = .expr e ∧ q = m)) :
    (ev.withholding t q).expr e m = ev.expr e m :=
  if_neg h

end Withholding

/-! ### Blame -/

/-- A computation that evaluates `t` from `m` ends with the error `e`: either `t` fails with it, or
`t` is one of the conditions `C` and yields something else than a truth value. -/
inductive Blames (ev : Evaluator) (C : List Expr) : Node → Machine → EvalError → Prop where
  | failure {t m e} : (t.run ev m).error? = some e → Blames ev C t m e
  | condition {c m v m'} : c ∈ C → ev.expr c m = .value v m' → (∀ b, v ≠ .bool b) →
      Blames ev C (.expr c) m (conditionError c v)

variable {ε ε' α β : Type} [Failing ε] {ev : Evaluator} {C : List Expr}

/-- However `x` ends from `m`, the live calls are those of `m`. -/
def Eval.KeepsCalls {ε α : Type} (x : Eval ε α) (m : Machine) : Prop :=
  x.Ends m (fun _ m' => m'.calls = m.calls) fun _ m' => m'.calls = m.calls

theorem Eval.KeepsCalls.value {ε α : Type} {x : Eval ε α} {m m' : Machine} {a : α}
    (h : x.KeepsCalls m) (hrun : x m = .value a m') : m'.calls = m.calls := by
  rwa [KeepsCalls, Ends, hrun] at h

theorem Eval.KeepsCalls.exit {ε α : Type} {x : Eval ε α} {m m' : Machine} {e : ε}
    (h : x.KeepsCalls m) (hrun : x m = .exit e m') : m'.calls = m.calls := by
  rwa [KeepsCalls, Ends, hrun] at h

/-- The errors of a computation that evaluates its parts by `ev`, and the expressions `C` among them
as conditions, can be traced. -/
structure Tracks (ev : Evaluator) (C : List Expr) (X : Evaluator → Eval ε α) : Prop where
  /-- It does without the part, or cannot and then ends with the part's error if there is one. -/
  needs : ∀ m t q, X (ev.withholding t q) m = X ev m ∨
    X (ev.withholding t q) m = .exhausted ∧ ∀ e, Blames ev C t q e → (X ev m).error? = some e
  /-- An error of which more than the cause is known is the error of a part. -/
  source : ∀ m e, (X ev m).error? = some e → e.IsBare ∨
    ∃ t q, q.calls = m.calls ∧ X (ev.withholding t q) m = .exhausted ∧ Blames ev C t q e
  calls : ∀ m, (X ev).KeepsCalls m

/-- A computation that evaluates no part, keeps the live calls and fails with bare errors only. -/
structure Eval.IsLocal (x : Eval ε α) : Prop where
  bare : ∀ m e, (x m).error? = some e → e.IsBare
  calls : ∀ m, x.KeepsCalls m

/-! ### Rules -/

theorem tracks_local {x : Eval ε α} (h : x.IsLocal) : Tracks ev C fun _ => x where
  needs _ _ _ := .inl rfl
  source m e he := .inl (h.bare m e he)
  calls := h.calls

/-- What does not depend on the evaluator of parts needs none. -/
theorem Tracks.isLocal {x : Eval ε α} (h : Tracks ev C fun _ => x) : x.IsLocal where
  bare m e he := by
    rcases h.source m e he with hbare | ⟨t, q, -, hneeds, -⟩
    · exact hbare
    · rw [hneeds] at he
      cases he
  calls := h.calls

theorem Eval.isLocal_pure (a : α) : IsLocal (pure a : Eval ε α) :=
  ⟨fun _ _ he => (by cases he), fun _ => rfl⟩

/-- A jump is no error. -/
theorem Eval.isLocal_raise {x : ε} (hx : Failing.error? x = none) : (raise x : Eval ε α).IsLocal :=
  ⟨fun _ _ he => (by cases hx.symm.trans he), fun _ => rfl⟩

theorem tracks_pure (a : α) : Tracks (ε := ε) ev C fun _ => pure a :=
  tracks_local (Eval.isLocal_pure a)

theorem tracks_jump {x : ε} (hx : Failing.error? x = none) :
    Tracks (α := α) ev C fun _ => Eval.raise x :=
  tracks_local (Eval.isLocal_raise hx)

theorem tracks_fail (c : Cause) : Tracks (α := α) ev C fun _ => Eval.fail c :=
  tracks_local ⟨fun _ _ he => (by cases he; exact ⟨rfl, rfl⟩), fun _ => rfl⟩

theorem tracks_ofExcept (r : Except Cause α) : Tracks ev C fun _ => Eval.ofExcept r := by
  cases r with
  | ok a => exact tracks_pure a
  | error c => exact tracks_fail c

theorem tracks_asks (f : Machine → α) : Tracks (ε := ε) ev C fun _ => Eval.asks f :=
  tracks_local ⟨fun _ _ he => (by cases he), fun _ => rfl⟩

theorem tracks_update {f : Machine → Machine} (hf : ∀ m, (f m).calls = m.calls) :
    Tracks (ε := ε) ev C fun _ => Eval.update f :=
  tracks_local ⟨fun _ _ he => (by cases he), hf⟩

theorem tracks_onTypes (f : UniverseM α) : Tracks ev C fun _ => Eval.onTypes f := by
  apply tracks_local
  constructor
  · intro m e he
    unfold Eval.onTypes at he
    rcases hrun : f.run.run m.types with ⟨_ | a, types⟩
    · simp only [hrun] at he
      split at he
      · cases he
      · cases he
        exact ⟨rfl, rfl⟩
    · simp only [hrun] at he
      cases he
  · exact fun m => Eval.ends_onTypes (fun _ _ => rfl) fun _ _ => rfl

/-- Reading and writing names. -/
theorem tracks_identifier (name : String) : Tracks ev C fun _ => Eval.identifier name := by
  apply tracks_local
  constructor
  · intro m e he
    unfold Eval.identifier at he
    split at he <;> cases he
    exact ⟨rfl, rfl⟩
  · intro m
    unfold Eval.KeepsCalls Eval.Ends Eval.identifier
    cases m.env.identifier m.frames m.iota name <;> rfl

theorem tracks_bindName (name : String) (b : Binding) :
    Tracks ev C fun _ => Eval.bindName name b := by
  apply tracks_local
  constructor
  · intro m e he
    unfold Eval.bindName at he
    split at he <;> cases he
    exact ⟨rfl, rfl⟩
  · intro m
    unfold Eval.KeepsCalls Eval.Ends Eval.bindName
    cases m.env.define m.frames name b <;> rfl

theorem tracks_assignName (name : String) (v : Value) :
    Tracks ev C fun _ => Eval.assignName name v := by
  apply tracks_local
  constructor
  · intro m e he
    unfold Eval.assignName at he
    split at he <;> cases he
    exact ⟨rfl, rfl⟩
  · intro m
    unfold Eval.KeepsCalls Eval.Ends Eval.assignName
    cases m.env.assign m.frames name v <;> rfl

/-- The first part of a sequence that is to blame ends it. -/
theorem Tracks.bind {x : Evaluator → Eval ε α} (hx : Tracks ev C x)
    {f : α → Evaluator → Eval ε β} (hf : ∀ a, Tracks ev C (f a)) :
    Tracks ev C fun ev => x ev >>= fun a => f a ev := by
  constructor
  · intro m t q
    change (x _).bind (f · _) m = (x _).bind (f · _) m ∨
      (x _).bind (f · _) m = .exhausted ∧ ∀ e, _ → ((x _).bind (f · _) m).error? = some e
    simp only [Eval.bind]
    rcases hx.needs m t q with h | ⟨h, hblame⟩
    · rw [h]
      cases hrun : x ev m with
      | value a m₁ => exact (hf a).needs m₁ t q
      | exit | exhausted => exact .inl rfl
    · refine .inr ⟨by rw [h], fun e he => ?_⟩
      obtain ⟨y, m₁, hrun, hy⟩ := Run.exists_of_error? (hblame e he)
      rw [hrun]
      exact hy
  · intro m e he
    change ((x ev).bind (f · ev) m).error? = some e at he
    have hneeds : ∀ t q, x (ev.withholding t q) m = .exhausted →
        (x (ev.withholding t q)).bind (f · (ev.withholding t q)) m = .exhausted :=
      fun t q h => by rw [Eval.bind, h]
    rw [Eval.bind] at he
    cases hrun : x ev m with
    | value a m₁ =>
      rw [hrun] at he
      have hcalls := (hx.calls m).value hrun
      rcases (hf a).source m₁ e he with hbare | ⟨t, q, hq, hneeded, hblame⟩
      · exact .inl hbare
      · refine .inr ⟨t, q, hq.trans hcalls, ?_, hblame⟩
        rcases hx.needs m t q with h | ⟨h, -⟩
        · change Eval.bind _ _ m = _
          rw [Eval.bind, h, hrun]
          exact hneeded
        · exact hneeds t q h
    | exit y m₁ =>
      rw [hrun] at he
      rcases hx.source m e (by rw [hrun]; exact he) with hbare | ⟨t, q, hq, hneeded, hblame⟩
      · exact .inl hbare
      · exact .inr ⟨t, q, hq, hneeds t q hneeded, hblame⟩
    | exhausted =>
      rw [hrun] at he
      cases he
  · intro m
    apply Eval.ends_bind.mpr
    apply (hx.calls m).mono
    · intro a m₁ hm₁
      apply ((hf a).calls m₁).mono
      · exact fun _ _ h => h.trans hm₁
      · exact fun _ _ h => h.trans hm₁
    · exact fun _ _ h => h

theorem Tracks.ite {c : Prop} [Decidable c] {x y : Evaluator → Eval ε α}
    (hx : c → Tracks ev C x) (hy : ¬ c → Tracks ev C y) :
    Tracks ev C fun ev => if c then x ev else y ev := by
  by_cases h : c
  · simpa only [if_pos h] using hx h
  · simpa only [if_neg h] using hy h

/-- The handler passes on errors. -/
def PassesErrors [Failing ε'] (h : ε' → Eval ε α) : Prop :=
  ∀ y e, Failing.error? y = some e → ∃ z, h y = Eval.raise z ∧ Failing.error? z = some e

theorem passesErrors_of_failed {h : Exit → Eval Exit α}
    (hfailed : ∀ e, h (.failed e) = Eval.raise (.failed e)) : PassesErrors h := by
  intro y e hy
  cases y with
  | failed e' => exact ⟨.failed e', hfailed e', hy⟩
  | leaveLoop | nextRound | result => cases hy

theorem Tracks.handle [Failing ε'] {x : Evaluator → Eval ε' α} (hx : Tracks ev C x)
    {h : ε' → Eval ε α} (herror : PassesErrors h)
    (hlocal : ∀ y, Failing.error? y = none → (h y).IsLocal) :
    Tracks ev C fun ev => (x ev).handle h := by
  constructor
  · intro m t q
    simp only [Eval.handle]
    rcases hx.needs m t q with hsame | ⟨hneeds, hblame⟩
    · exact .inl (by rw [hsame])
    · refine .inr ⟨by rw [hneeds], fun e he => ?_⟩
      obtain ⟨y, m₁, hrun, hy⟩ := Run.exists_of_error? (hblame e he)
      obtain ⟨z, hz, hze⟩ := herror y e hy
      rw [hrun]
      dsimp only
      rw [hz]
      exact hze
  · intro m e he
    simp only [Eval.handle] at he ⊢
    cases hrun : x ev m with
    | value | exhausted =>
      rw [hrun] at he
      cases he
    | exit y m₁ =>
      rw [hrun] at he
      cases hy : Failing.error? y with
      | none => exact .inl ((hlocal y hy).bare m₁ e he)
      | some e' =>
        obtain ⟨z, hz, hze⟩ := herror y e' hy
        simp only [hz] at he
        obtain rfl : e' = e := Option.some.inj (hze.symm.trans he)
        rcases hx.source m e' (by rw [hrun]; exact hy) with hbare | ⟨t, q, hq, hneeds, hblame⟩
        · exact .inl hbare
        · exact .inr ⟨t, q, hq, by rw [hneeds], hblame⟩
  · intro m
    apply Eval.ends_handle.mpr
    apply (hx.calls m).mono
    · exact fun _ _ h => h
    · intro y m₁ hm₁
      cases hy : Failing.error? y with
      | none =>
        apply ((hlocal y hy).calls m₁).mono
        · exact fun _ _ h => h.trans hm₁
        · exact fun _ _ h => h.trans hm₁
      | some e =>
        obtain ⟨z, hz, -⟩ := herror y e hy
        rw [hz]
        exact hm₁

theorem Tracks.asStmt {x : Evaluator → Eval EvalError α} (hx : Tracks ev C x) :
    Tracks ev C fun ev => (x ev).asStmt :=
  hx.handle (fun y e he => ⟨.failed y, rfl, he⟩) fun y hy => by cases hy

/-- Around a part the machine may change, the live calls apart. -/
theorem Tracks.within {x : Evaluator → Eval ε α} (hx : Tracks ev C x) {f g : Machine → Machine}
    (hf : ∀ m, (f m).calls = m.calls) (hg : ∀ m, (g m).calls = m.calls) :
    Tracks ev C fun ev m => (x ev).leaving g (f m) := by
  have herror : ∀ m, ((x ev).leaving g (f m)).error? = (x ev (f m)).error? := by
    intro m
    simp only [Eval.leaving]
    cases x ev (f m) <;> rfl
  have hneeds : ∀ m t q, x (ev.withholding t q) (f m) = .exhausted →
      (x (ev.withholding t q)).leaving g (f m) = .exhausted :=
    fun m t q h => by simp only [Eval.leaving, h]
  constructor
  · intro m t q
    rcases hx.needs (f m) t q with h | ⟨h, hblame⟩
    · exact .inl (by simp only [Eval.leaving, h])
    · exact .inr ⟨hneeds m t q h, fun e he => (herror m).trans (hblame e he)⟩
  · intro m e he
    rcases hx.source (f m) e ((herror m).symm.trans he) with hbare | ⟨t, q, hq, hneeded, hblame⟩
    · exact .inl hbare
    · exact .inr ⟨t, q, hq.trans (hf m), hneeds m t q hneeded, hblame⟩
  · intro m
    change Eval.Ends ((x ev).leaving g) (f m) _ _
    apply Eval.ends_leaving.mpr
    apply (hx.calls (f m)).mono
    · exact fun _ m' h => (hg m').trans (h.trans (hf m))
    · exact fun _ m' h => (hg m').trans (h.trans (hf m))

theorem Tracks.leaving {x : Evaluator → Eval ε α} (hx : Tracks ev C x) {f : Machine → Machine}
    (hf : ∀ m, (f m).calls = m.calls) : Tracks ev C fun ev => (x ev).leaving f :=
  hx.within (f := fun m => m) (fun _ => rfl) hf

theorem Tracks.inFrame {x : Evaluator → Eval ε α} (hx : Tracks ev C x) :
    Tracks ev C fun ev => Eval.inFrame (x ev) :=
  hx.within (f := Machine.opened) (g := Machine.closed) (fun _ => rfl) fun _ => rfl

theorem Tracks.repeatWhile {round : Evaluator → Eval ε Bool} (h : Tracks ev C round)
    (budget : Nat) : Tracks ev C fun ev => Eval.repeatWhile (round ev) budget := by
  induction budget with
  | zero => exact tracks_local ⟨fun _ _ he => (by cases he), fun _ => trivial⟩
  | succ budget ih =>
    have hstep : (fun ev => Eval.repeatWhile (round ev) (budget + 1)) = fun ev =>
        round ev >>= fun again =>
          (if again then Eval.repeatWhile (round ev) budget else pure () : Eval ε Unit) := by
      funext ev m
      change _ = Eval.bind _ _ m
      rw [Eval.repeatWhile, Eval.bind]
      cases round ev m with
      | value again m₁ => cases again <;> rfl
      | exit | exhausted => rfl
    rw [hstep]
    exact h.bind fun _ => .ite (fun _ => ih) fun _ => tracks_pure ()

/-! ### Parts -/

/-- Whatever the evaluator evaluates, the live calls are what they were. -/
structure Evaluator.KeepsCalls (ev : Evaluator) : Prop where
  stmt : ∀ label s m, (ev.stmt label s).KeepsCalls m
  expr : ∀ e m, (ev.expr e).KeepsCalls m

theorem Eval.Restores.keepsCalls {ε α : Type} {x : Eval ε α} {m : Machine} (h : x.Restores m) :
    x.KeepsCalls m :=
  h.mono (fun _ _ hm' => congrArg (·.calls) hm') fun _ _ hm' => congrArg (·.calls) hm'

theorem keepsCalls_evaluator (budget : Nat) : (evaluator budget).KeepsCalls where
  stmt label _ m := (((Policy.any.governs budget).stmt label fun _ _ => trivial).restores
    (Policy.holds_any m)).keepsCalls
  expr _ m := (((Policy.any.governs budget).expr fun _ _ => trivial).restores
    (Policy.holds_any m)).keepsCalls

/-- A condition is an expression with a check of its value. -/
theorem Evaluator.condition_apply (ev : Evaluator) (c : Expr) (m : Machine) : ev.condition c m =
    match ev.expr c m with
    | .value (.bool b) m' => .value b m'
    | .value v m' => .exit (conditionError c v) m'
    | .exit x m' => .exit x m'
    | .exhausted => .exhausted := by
  change Eval.bind _ _ m = _
  rw [Eval.bind]
  cases ev.expr c m with
  | value v m' => cases v <;> rfl
  | exit | exhausted => rfl

/-- The errors of a condition are those that it is to blame for. -/
theorem error?_condition {c : Expr} (hc : c ∈ C) {m : Machine} {e : EvalError} :
    (ev.condition c m).error? = some e ↔ Blames ev C (.expr c) m e := by
  rw [condition_apply]
  constructor
  · intro h
    cases hrun : ev.expr c m with
    | value v m' =>
      rw [hrun] at h
      have hblame : (∀ b, v ≠ .bool b) → Blames ev C (.expr c) m (conditionError c v) :=
        .condition hc hrun
      cases v with
      | bool b => cases h
      | void | int | float | str | tuple | func | struct | method =>
        cases h
        exact hblame (by simp)
    | exit x m' =>
      rw [hrun] at h
      refine .failure (Run.error?_asStmt.trans ?_)
      rw [hrun]
      exact h
    | exhausted =>
      rw [hrun] at h
      cases h
  · intro hblame
    cases hblame with
    | failure h =>
      obtain ⟨x, m', hrun, hx⟩ := Run.exists_of_error? (Run.error?_asStmt.symm.trans h)
      rw [hrun]
      exact hx
    | @condition _ _ v m' _ hrun hv =>
      rw [hrun]
      cases v with
      | bool b => exact absurd rfl (hv b)
      | void | int | float | str | tuple | func | struct | method => rfl

namespace Tracks

variable (hev : ev.KeepsCalls)

include hev

theorem stmt (label : Option String) (s : Stmt) : Tracks ev C fun ev => ev.stmt label s := by
  constructor
  · intro m t q
    by_cases h : t = .stmt label s ∧ q = m
    · obtain ⟨rfl, rfl⟩ := h
      refine .inr ⟨withholding_stmt_self, fun e he => ?_⟩
      cases he with
      | failure he => exact he
    · exact .inl (withholding_stmt_of_ne h)
  · exact fun m e he =>
      .inr ⟨.stmt label s, m, rfl, withholding_stmt_self, .failure he⟩
  · exact hev.stmt label s

/-- An expression that is no condition. -/
theorem expr {e : Expr} (he : e ∉ C) : Tracks ev C fun ev => ev.expr e := by
  constructor
  · intro m t q
    by_cases h : t = .expr e ∧ q = m
    · obtain ⟨rfl, rfl⟩ := h
      refine .inr ⟨withholding_expr_self, fun e' hblame => ?_⟩
      cases hblame with
      | failure h => exact Run.error?_asStmt.symm.trans h
      | condition hc => exact absurd hc he
    · exact .inl (withholding_expr_of_ne h)
  · intro m e' h
    exact .inr ⟨.expr e, m, rfl, withholding_expr_self,
      .failure (Run.error?_asStmt.trans h)⟩
  · exact hev.expr e

/-- A condition is to blame for another value than a truth value. -/
theorem condition {e : Expr} (he : e ∈ C) : Tracks ev C fun ev => ev.condition e := by
  have hneeds : ∀ m, (ev.withholding (.expr e) m).condition e m = .exhausted := fun m => by
    rw [condition_apply, withholding_expr_self]
  constructor
  · intro m t q
    by_cases h : t = .expr e ∧ q = m
    · obtain ⟨rfl, rfl⟩ := h
      exact .inr ⟨hneeds q, fun e' hblame => (error?_condition he).mpr hblame⟩
    · left
      rw [condition_apply, condition_apply, withholding_expr_of_ne h]
  · exact fun m e' h => .inr ⟨.expr e, m, rfl, hneeds m, (error?_condition he).mp h⟩
  · intro m
    apply Eval.ends_bind.mpr
    apply (hev.expr e m).mono
    · intro v m₁ h
      cases v <;> exact h
    · exact fun _ _ h => h

/-! ### Lists of parts -/

theorem exprs {es : List Expr} (hes : ∀ e ∈ es, e ∉ C) : Tracks ev C fun ev => ev.exprs es := by
  induction es with
  | nil => exact tracks_pure []
  | cons e rest ih =>
    apply (expr hev (hes e (List.mem_cons_self ..))).bind
    intro v
    apply (ih fun e' he' => hes e' (List.mem_cons_of_mem _ he')).bind
    exact fun vs => tracks_pure (v :: vs)

theorem spreadExprs {es : List Expr} (hes : ∀ e ∈ es, e ∉ C) :
    Tracks ev C fun ev => ev.spreadExprs es := by
  unfold Evaluator.spreadExprs
  split
  · next e =>
    apply (expr hev (hes e (List.mem_singleton_self e))).bind
    exact fun v => tracks_pure v.spread
  · exact exprs hev hes

theorem stmts (body : List Stmt) : Tracks ev C fun ev => ev.stmts body := by
  induction body with
  | nil => exact tracks_pure ()
  | cons s rest ih => exact (stmt hev none s).bind fun _ => ih

theorem optional (s? : Option Stmt) : Tracks ev C fun ev => ev.optional s? := by
  cases s? with
  | none => exact tracks_pure ()
  | some s => exact (stmt hev none s).bind fun _ => tracks_pure ()

end Tracks

end ScriptEngine
