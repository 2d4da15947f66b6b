import ScriptEngine.Eval.Evaluator
import ScriptEngine.Proofs.Eval.Outcome

/-!
Evaluators that answer no more than others.

The forms of statements and expressions are computations over an evaluator of their parts. Two such
evaluators are compared from the machines whose ordinal of constants a condition `I` allows:
`x.Approximates gaps I y` says that from these machines `x` ends as `y` does, or, if there may be
`gaps`, runs out of budget; and that `y` leaves such machines again. There is one rule for each way
to put a computation together, so a form over one evaluator approximates the same form over the
other if their parts do (`Evaluator.Approximates.stmtForm`, `Evaluator.Approximates.exprForm`).
Calls and constant blocks set the ordinal themselves, and are compared only if `I` allows what they
set.
-/

namespace ScriptEngine

open Evaluator

namespace Eval

/-- From every machine whose ordinal `I` allows, `x` ends as `y` does, or runs out of budget if
there may be `gaps`; `y` leaves an ordinal that `I` allows. -/
structure Approximates {ε α : Type} (gaps : Prop) (I : Option Int64 → Prop) (x y : Eval ε α) :
    Prop where
  run : ∀ m, I m.iota → x m = y m ∨ gaps ∧ x m = .exhausted
  keeps : ∀ m, I m.iota → y.Ends m (fun _ m' => I m'.iota) fun _ m' => I m'.iota

/-- However `x` ends, the ordinal is what it was. -/
def KeepsOrdinal {ε α : Type} (x : Eval ε α) : Prop :=
  ∀ m, x.Ends m (fun _ m' => m'.iota = m.iota) fun _ m' => m'.iota = m.iota

section Rules

variable {ε ε' α β : Type} {gaps : Prop} {I : Option Int64 → Prop}

/-! ### Rules -/

theorem KeepsOrdinal.approximates {x : Eval ε α} (h : x.KeepsOrdinal) :
    x.Approximates gaps I x where
  run _ _ := .inl rfl
  keeps m hm := by
    apply (h m).mono
    · exact fun _ _ heq => heq.symm ▸ hm
    · exact fun _ _ heq => heq.symm ▸ hm

theorem approximates_pure (a : α) : (pure a : Eval ε α).Approximates gaps I (pure a) :=
  KeepsOrdinal.approximates fun _ => rfl

theorem approximates_raise (e : ε) : (raise e : Eval ε α).Approximates gaps I (raise e) :=
  KeepsOrdinal.approximates fun _ => rfl

theorem approximates_fail (c : Cause) : (fail c : Eval _ α).Approximates gaps I (fail c) :=
  approximates_raise _

theorem approximates_ofExcept (r : Except Cause α) :
    (ofExcept r).Approximates gaps I (ofExcept r) := by
  cases r with
  | ok a => exact approximates_pure a
  | error c => exact approximates_fail c

theorem approximates_asks (f : Machine → α) : (asks f : Eval ε α).Approximates gaps I (asks f) :=
  KeepsOrdinal.approximates fun _ => rfl

theorem approximates_identifier (name : String) :
    (identifier name).Approximates gaps I (identifier name) := by
  apply KeepsOrdinal.approximates
  intro m
  unfold Ends identifier
  cases m.env.identifier m.frames m.iota name <;> rfl

theorem approximates_bindName (name : String) (b : Binding) :
    (bindName name b).Approximates gaps I (bindName name b) := by
  apply KeepsOrdinal.approximates
  intro m
  unfold Ends bindName
  cases m.env.define m.frames name b <;> rfl

theorem approximates_assignName (name : String) (v : Value) :
    (assignName name v).Approximates gaps I (assignName name v) := by
  apply KeepsOrdinal.approximates
  intro m
  unfold Ends assignName
  cases m.env.assign m.frames name v <;> rfl

theorem approximates_onTypes (f : UniverseM α) : (onTypes f).Approximates gaps I (onTypes f) :=
  KeepsOrdinal.approximates fun _ => ends_onTypes (fun _ _ => rfl) fun _ _ => rfl

theorem Approximates.bind {x y : Eval ε β} (hx : x.Approximates gaps I y) {f g : β → Eval ε α}
    (hf : ∀ b, (f b).Approximates gaps I (g b)) : (x >>= f).Approximates gaps I (y >>= g) where
  run m hm := by
    change x.bind f m = y.bind g m ∨ gaps ∧ x.bind f m = .exhausted
    unfold Eval.bind
    have hkeeps := hx.keeps m hm
    rcases hx.run m hm with h | ⟨hgaps, h⟩
    · rw [h]
      unfold Ends at hkeeps
      cases hrun : y m with
      | value b m₁ =>
        rw [hrun] at hkeeps
        exact (hf b).run m₁ hkeeps
      | exit | exhausted => exact .inl rfl
    · exact .inr ⟨hgaps, by rw [h]⟩
  keeps m hm := by
    apply ends_bind.mpr
    apply (hx.keeps m hm).mono
    · exact fun b m₁ hm₁ => (hf b).keeps m₁ hm₁
    · exact fun _ _ h => h

theorem Approximates.handle {x y : Eval ε' α} (hx : x.Approximates gaps I y)
    {h : ε' → Eval ε α} (hh : ∀ e, (h e).Approximates gaps I (h e)) :
    (x.handle h).Approximates gaps I (y.handle h) where
  run m hm := by
    unfold Eval.handle
    rcases hx.run m hm with h | ⟨hgaps, h⟩
    · exact .inl (by rw [h])
    · exact .inr ⟨hgaps, by rw [h]⟩
  keeps m hm := by
    apply ends_handle.mpr
    apply (hx.keeps m hm).mono
    · exact fun _ _ h => h
    · exact fun e m₁ hm₁ => (hh e).keeps m₁ hm₁

theorem Approximates.mapExit {x y : Eval ε' α} (hx : x.Approximates gaps I y) (f : ε' → ε) :
    (x.mapExit f).Approximates gaps I (y.mapExit f) :=
  hx.handle fun e => approximates_raise (f e)

theorem Approximates.asStmt {x y : Eval EvalError α} (hx : x.Approximates gaps I y) :
    x.asStmt.Approximates gaps I y.asStmt :=
  hx.mapExit _

theorem Approximates.ite {c : Prop} [Decidable c] {x x' y y' : Eval ε α}
    (hx : x.Approximates gaps I y) (hx' : x'.Approximates gaps I y') :
    (if c then x else x').Approximates gaps I (if c then y else y') := by
  split
  · exact hx
  · exact hx'

theorem Approximates.leaving {x y : Eval ε α} (hx : x.Approximates gaps I y) {f : Machine → Machine}
    (hf : ∀ m, I m.iota → I (f m).iota) : (x.leaving f).Approximates gaps I (y.leaving f) where
  run m hm := by
    unfold Eval.leaving
    rcases hx.run m hm with h | ⟨hgaps, h⟩
    · exact .inl (by rw [h])
    · exact .inr ⟨hgaps, by rw [h]⟩
  keeps m hm := by
    apply ends_leaving.mpr
    apply (hx.keeps m hm).mono
    · exact fun _ m₁ hm₁ => hf m₁ hm₁
    · exact fun _ m₁ hm₁ => hf m₁ hm₁

theorem Approximates.inFrame {x y : Eval ε α} (hx : x.Approximates gaps I y) :
    (Eval.inFrame x).Approximates gaps I (Eval.inFrame y) :=
  have hleaving := hx.leaving (f := fun m => { m with env := m.env.pop }) fun _ hm => hm
  ⟨fun _ hm => hleaving.run _ hm, fun _ hm => hleaving.keeps _ hm⟩

/-- A loop whose rounds are approximated; with gaps, it may also be allowed fewer rounds. -/
theorem Approximates.repeatWhile {x y : Eval ε Bool} (hx : x.Approximates gaps I y) {n k : Nat}
    (hn : n = k ∨ gaps ∧ n ≤ k) :
    (Eval.repeatWhile x n).Approximates gaps I (Eval.repeatWhile y k) where
  run := by
    induction n generalizing k with
    | zero =>
      intro m _
      rcases hn with rfl | ⟨hgaps, -⟩
      · exact .inl rfl
      · exact .inr ⟨hgaps, rfl⟩
    | succ n ih =>
      obtain ⟨k, rfl⟩ : ∃ k', k = k' + 1 := ⟨k - 1, by rcases hn with h | ⟨-, h⟩ <;> omega⟩
      have hn : n = k ∨ gaps ∧ n ≤ k :=
        hn.imp Nat.succ.inj fun h => ⟨h.1, Nat.le_of_succ_le_succ h.2⟩
      intro m hm
      rw [Eval.repeatWhile, Eval.repeatWhile]
      have hkeeps := hx.keeps m hm
      rcases hx.run m hm with h | ⟨hgaps, h⟩
      · rw [h]
        unfold Ends at hkeeps
        cases hrun : y m with
        | value again m₁ =>
          rw [hrun] at hkeeps
          cases again with
          | true => exact ih hn m₁ hkeeps
          | false => exact .inl rfl
        | exit | exhausted => exact .inl rfl
      · exact .inr ⟨hgaps, by rw [h]⟩
  keeps _ hm := ends_repeatWhile hx.keeps k hm

end Rules

end Eval

/-- Each part evaluated by `ev` approximates the part evaluated by `ev'`. -/
structure Evaluator.Approximates (gaps : Prop) (I : Option Int64 → Prop) (ev ev' : Evaluator) :
    Prop where
  expr : ∀ e, (ev.expr e).Approximates gaps I (ev'.expr e)
  stmt : ∀ label s, (ev.stmt label s).Approximates gaps I (ev'.stmt label s)

section Forms

open Eval

variable {ε α : Type} {gaps : Prop} {I : Option Int64 → Prop}

/-! ### What evaluates no part -/

theorem approximates_bindUnlessBlank (mutability : Mutability) (name : String) (v : Value) :
    (bindUnlessBlank mutability name v).Approximates gaps I (bindUnlessBlank mutability name v) :=
  .ite (approximates_pure ()) (approximates_bindName name _)

theorem approximates_assignUnlessBlank (name : String) (v : Value) :
    (assignUnlessBlank name v).Approximates gaps I (assignUnlessBlank name v) :=
  .ite (approximates_pure ()) (approximates_assignName name v)

theorem approximates_eachPair {write : String → Value → Eval EvalError Unit}
    (hwrite : ∀ name v, (write name v).Approximates gaps I (write name v)) (names : List String)
    (vs : List Value) :
    (eachPair write names vs).Approximates gaps I (eachPair write names vs) := by
  induction names generalizing vs with
  | nil => exact approximates_pure ()
  | cons name names ih =>
    cases vs with
    | nil => exact approximates_pure ()
    | cons v vs => exact (hwrite name v).bind fun _ => ih vs

theorem approximates_bindParams (params : List String) (args : List Value) :
    (bindParams params args).Approximates gaps I (bindParams params args) :=
  approximates_eachPair (approximates_bindUnlessBlank .mutable) params args

theorem approximates_incDec (target : String) (increment : Bool) :
    (incDec target increment).Approximates gaps I (incDec target increment) := by
  apply (approximates_identifier target).bind
  intro current
  apply (approximates_ofExcept (current.step increment)).bind
  exact fun updated => approximates_assignName target updated

theorem approximates_selectMethod (recv : Value) (ty : TypeId) (name : String) :
    (selectMethod recv ty name).Approximates gaps I (selectMethod recv ty name) := by
  apply (approximates_asks _).bind
  intro c
  cases c.findMethod ty name with
  | none => exact approximates_fail _
  | some path =>
    apply (approximates_ofExcept (follow name path.fields recv)).bind
    intro target
    apply (approximates_onTypes _).bind
    intro method
    cases method.func with
    | none => exact approximates_fail _
    | some func => exact approximates_pure _

theorem approximates_selectFrom (recv : Value) (name : String) :
    (selectFrom recv name).Approximates gaps I (selectFrom recv name) := by
  cases recv with
  | struct ty vs =>
    apply (approximates_asks _).bind
    intro found
    cases found with
    | some v => exact approximates_pure v
    | none => exact approximates_selectMethod _ ty name
  | void | bool | int | float | str | tuple | func | method => exact approximates_fail _

theorem approximates_jump (kind : Jump) (label : Option String) :
    (jump kind label).Approximates gaps I (jump kind label) := by
  cases kind <;> exact approximates_raise _

namespace Evaluator.Approximates

variable {ev ev' : Evaluator} (h : ev.Approximates gaps I ev')

include h

/-! ### Lists of parts -/

theorem exprs (es : List Expr) : (ev.exprs es).Approximates gaps I (ev'.exprs es) := by
  induction es with
  | nil => exact approximates_pure []
  | cons e rest ih =>
    apply (h.expr e).bind
    intro v
    exact ih.bind fun vs => approximates_pure (v :: vs)

theorem spreadExprs (es : List Expr) :
    (ev.spreadExprs es).Approximates gaps I (ev'.spreadExprs es) := by
  unfold Evaluator.spreadExprs
  split
  · next e => exact (h.expr e).bind fun v => approximates_pure v.spread
  · exact h.exprs es

theorem stmts (body : List Stmt) : (ev.stmts body).Approximates gaps I (ev'.stmts body) := by
  induction body with
  | nil => exact approximates_pure ()
  | cons s rest ih => exact (h.stmt none s).bind fun _ => ih

theorem optional (s? : Option Stmt) : (ev.optional s?).Approximates gaps I (ev'.optional s?) := by
  cases s? with
  | none => exact approximates_pure ()
  | some s => exact (h.stmt none s).bind fun _ => approximates_pure ()

theorem condition (e : Expr) : (ev.condition e).Approximates gaps I (ev'.condition e) := by
  apply (h.expr e).bind
  intro v
  cases v with
  | bool b => exact approximates_pure b
  | void | int | float | str | tuple | func | struct | method => exact approximates_raise _

/-! ### Definitions, assignments and constants -/

theorem rightSides (count : Nat) (es : List Expr) :
    (ev.rightSides count es).Approximates gaps I (ev'.rightSides count es) := by
  have hcount : ∀ vs : List Value, Eval.Approximates gaps I
      (if vs.length = count then pure vs
        else Eval.fail (.assignmentMismatch count vs.length) : Eval EvalError (List Value))
      (if vs.length = count then pure vs else Eval.fail (.assignmentMismatch count vs.length)) :=
    fun vs => .ite (approximates_pure vs) (approximates_fail _)
  unfold Evaluator.rightSides
  dsimp only
  split
  · next e => exact (h.expr e).bind fun v => hcount v.results
  · exact (h.exprs es).bind hcount

theorem define (names : List String) (values : List Expr) :
    (ev.define names values).Approximates gaps I (ev'.define names values) :=
  (h.rightSides names.length values).bind fun vs =>
    approximates_eachPair (approximates_bindUnlessBlank .mutable) names vs

theorem assign (targets : List String) (values : List Expr) :
    (ev.assign targets values).Approximates gaps I (ev'.assign targets values) :=
  (h.rightSides targets.length values).bind fun vs =>
    approximates_eachPair approximates_assignUnlessBlank targets vs

theorem assignOp (targets : List String) (op : BinaryOp) (values : List Expr) :
    (ev.assignOp targets op values).Approximates gaps I (ev'.assignOp targets op values) := by
  unfold Evaluator.assignOp
  split
  · next target value =>
    apply (approximates_identifier target).bind
    intro current
    apply (h.expr value).bind
    intro v
    apply (approximates_ofExcept (op.apply current v)).bind
    exact fun updated => approximates_assignName target updated
  · exact approximates_fail _

theorem constantLine (names : List String) (es : List Expr) :
    (ev.constantLine names es).Approximates gaps I (ev'.constantLine names es) := by
  induction names generalizing es with
  | nil => exact approximates_pure ()
  | cons name names ih =>
    cases es with
    | nil => exact approximates_pure ()
    | cons e es =>
      apply (h.expr e).bind
      intro v
      exact (approximates_bindUnlessBlank .immutable name v).bind fun _ => ih es

/-! ### Operators and struct values -/

theorem binary (op : BinaryOp) (left right : Expr) :
    (ev.binary op left right).Approximates gaps I (ev'.binary op left right) := by
  apply (h.expr left).bind
  intro l
  refine .ite ?_ ?_
  · cases l with
    | bool b =>
      refine .ite (approximates_pure _) ?_
      apply (h.expr right).bind
      intro r
      cases r with
      | bool r => exact approximates_pure _
      | void | int | float | str | tuple | func | struct | method => exact approximates_fail _
    | void | int | float | str | tuple | func | struct | method => exact approximates_fail _
  · exact (h.expr right).bind fun r => approximates_ofExcept _

theorem select (base : Expr) (name : String) :
    (ev.select base name).Approximates gaps I (ev'.select base name) :=
  (h.expr base).bind fun recv => approximates_selectFrom recv name

theorem composite (typeName : String) (fields : List Expr) :
    (ev.composite typeName fields).Approximates gaps I (ev'.composite typeName fields) := by
  apply (approximates_asks _).bind
  intro c
  cases c.lookupNamed typeName with
  | none => exact approximates_fail _
  | some ty =>
    dsimp only
    cases c.structFields? ty with
    | none => exact approximates_fail _
    | some decls =>
      exact .ite ((h.exprs fields).bind fun vs => approximates_pure _) (approximates_fail _)

/-! ### Blocks, conditions, loops, switches and labels -/

theorem block (body : List Stmt) : (ev.block body).Approximates gaps I (ev'.block body) :=
  (h.stmts body).inFrame

theorem branch (first : Option Stmt) (cond : Expr) (body : Stmt) (otherwise : Option Stmt) :
    (ev.branch first cond body otherwise).Approximates gaps I
      (ev'.branch first cond body otherwise) := by
  apply Eval.Approximates.inFrame
  apply (h.optional first).bind
  intro _
  apply (h.condition cond).asStmt.bind
  exact fun holds => .ite (h.optional (some body)) (h.optional otherwise)

theorem goesOn (cond : Option Expr) : (ev.goesOn cond).Approximates gaps I (ev'.goesOn cond) := by
  cases cond with
  | none => exact approximates_pure true
  | some e => exact (h.condition e).asStmt

theorem loopBody (label : Option String) (body : Stmt) :
    (ev.loopBody label body).Approximates gaps I (ev'.loopBody label body) := by
  have hround : Eval.Approximates gaps I (do let _ ← ev.stmt none body; return true)
      (do let _ ← ev'.stmt none body; return true) :=
    (h.stmt none body).bind fun _ => approximates_pure true
  apply hround.handle
  intro x
  split
  · exact approximates_pure true
  · exact approximates_pure false
  · exact approximates_raise _

theorem round (label : Option String) (cond : Option Expr) (post : Option Stmt) (body : Stmt) :
    (ev.round label cond post body).Approximates gaps I (ev'.round label cond post body) := by
  apply (h.goesOn cond).bind
  refine fun goes => .ite ?_ (approximates_pure false)
  apply (h.loopBody label body).bind
  refine fun again => .ite ?_ (approximates_pure false)
  exact (h.optional post).bind fun _ => approximates_pure true

theorem loop {n k : Nat} (hn : n = k ∨ gaps ∧ n ≤ k) (label : Option String) (first : Option Stmt)
    (cond : Option Expr) (post : Option Stmt) (body : Stmt) :
    (ev.loop n label first cond post body).Approximates gaps I
      (ev'.loop k label first cond post body) := by
  apply Eval.Approximates.inFrame
  exact (h.optional first).bind fun _ => (h.round label cond post body).repeatWhile hn

theorem anyCase (tagged : Bool) (tag : Value) (es : List Expr) :
    (ev.anyCase tagged tag es).Approximates gaps I (ev'.anyCase tagged tag es) := by
  induction es with
  | nil => exact approximates_pure false
  | cons e rest ih =>
    have hcase : (ev.caseValue tagged e).Approximates gaps I (ev'.caseValue tagged e) :=
      .ite (h.expr e) ((h.condition e).bind fun b => approximates_pure (Value.bool b))
    apply hcase.bind
    exact fun v => .ite (approximates_pure true) ih

theorem chosenClause (tagged : Bool) (tag : Value) (clauses : List (Clause Expr Stmt)) :
    (ev.chosenClause tagged tag clauses).Approximates gaps I
      (ev'.chosenClause tagged tag clauses) := by
  induction clauses with
  | nil => exact approximates_pure none
  | cons c rest ih =>
    apply (h.anyCase tagged tag (c.values.getD [])).bind
    exact fun matched => .ite (approximates_pure (some c)) ih

theorem tagValue (tag : Option Expr) :
    (ev.tagValue tag).Approximates gaps I (ev'.tagValue tag) := by
  cases tag with
  | none => exact approximates_pure _
  | some e => exact h.expr e

theorem switchBody (first : Option Stmt) (tag : Option Expr)
    (clauses : List (Clause Expr Stmt)) :
    (ev.switchBody first tag clauses).Approximates gaps I
      (ev'.switchBody first tag clauses) := by
  apply (h.optional first).bind
  intro _
  apply (h.tagValue tag).asStmt.bind
  intro value
  apply (h.chosenClause tag.isSome value clauses).asStmt.bind
  intro chosen
  cases chosen.or (clauses.find? (·.values.isNone)) with
  | none => exact approximates_pure ()
  | some c => exact (h.stmts c.body).inFrame

theorem switch (label : Option String) (first : Option Stmt) (tag : Option Expr)
    (clauses : List (Clause Expr Stmt)) :
    (ev.switch label first tag clauses).Approximates gaps I
      (ev'.switch label first tag clauses) := by
  apply (h.switchBody first tag clauses).inFrame.handle
  intro x
  split
  · exact approximates_pure ()
  · exact approximates_raise _

theorem labeled (label : String) (body : Stmt) :
    (ev.labeled label body).Approximates gaps I (ev'.labeled label body) := by
  apply (h.stmt (some label) body).handle
  intro x
  split
  · exact approximates_pure Value.void
  · exact approximates_raise _

omit h in
theorem effect {x y : Eval ε Unit} (hx : x.Approximates gaps I y) :
    (effect x).Approximates gaps I (effect y) :=
  hx.bind fun _ => approximates_pure Value.void

/-! ### What sets the ordinal -/

theorem constantLines (hI : ∀ i, I i) (ordinal : Nat) (previous : List Expr)
    (specs : List (ConstSpec Expr)) :
    (ev.constantLines ordinal previous specs).Approximates gaps I
      (ev'.constantLines ordinal previous specs) := by
  induction specs generalizing ordinal previous with
  | nil => exact approximates_pure ()
  | cons spec rest ih =>
    refine .ite ?_ (approximates_fail _)
    have hupdate : Eval.Approximates gaps I
        (Eval.update fun m => { m with iota := some (Int64.ofNat ordinal) } : Eval EvalError Unit)
        (Eval.update fun m => { m with iota := some (Int64.ofNat ordinal) }) :=
      ⟨fun _ _ => .inl rfl, fun _ _ => hI _⟩
    apply hupdate.bind
    intro _
    exact (h.constantLine spec.names _).bind fun _ => ih _ _

theorem constants (hI : ∀ i, I i) (specs : List (ConstSpec Expr)) :
    (ev.constants specs).Approximates gaps I (ev'.constants specs) := by
  apply (approximates_asks _).bind
  intro outer
  have hupdate : Eval.Approximates gaps I
      (Eval.update fun m => { m with iota := none } : Eval EvalError Unit)
      (Eval.update fun m => { m with iota := none }) :=
    ⟨fun _ _ => .inl rfl, fun _ _ => hI _⟩
  apply hupdate.bind
  exact fun _ => (h.constantLines hI 0 [] specs).leaving fun _ _ => hI _

theorem body (f : Function) (args : List Value) :
    (ev.body f args).Approximates gaps I (ev'.body f args) :=
  (approximates_bindParams f.params args).asStmt.bind fun _ => h.stmt none f.body

/-- The body of a function is evaluated without an ordinal; outside, any condition holds after the
call as before it. -/
theorem callFunction (hI : I none) {I' : Option Int64 → Prop} (f : Function) (args : List Value)
    (frame : CallFrame) :
    (ev.callFunction f args frame).Approximates gaps I' (ev'.callFunction f args frame) where
  run m _ := by
    unfold Evaluator.callFunction
    split
    · cases m.calls.full? with
      | some max => exact .inl rfl
      | none =>
        dsimp only
        rcases (h.body f args).run (enterCall f frame m) hI with heq | ⟨hgaps, hrun⟩
        · exact .inl (by rw [heq])
        · exact .inr ⟨hgaps, by rw [hrun]; rfl⟩
    · exact .inl rfl
  keeps m hm := by
    unfold Eval.Ends Evaluator.callFunction
    by_cases hlen : args.length = f.params.length
    · rw [if_pos hlen]
      cases m.calls.full? with
      | some max => exact hm
      | none =>
        dsimp only
        cases ev'.body f args (enterCall f frame m) with
        | value | exhausted => first | exact hm | trivial
        | exit x m' => cases x <;> exact hm
    · rw [if_neg hlen]
      exact hm

theorem callValue (hI : I none) {I' : Option Int64 → Prop} (callee : Value) (args : List Value)
    (name : String) (span : Option Span) :
    (ev.callValue callee args name span).Approximates gaps I'
      (ev'.callValue callee args name span) := by
  cases callee with
  | func f => exact h.callFunction hI f args _
  | method recv func method =>
    apply (approximates_asks _).bind
    intro found
    cases found with
    | some f => exact h.callFunction hI f (recv :: args) _
    | none => exact approximates_fail _
  | void | bool | int | float | str | tuple | struct => exact approximates_fail _

theorem call (hI : I none) (callee : Expr) (args : List Expr) (span : Span) :
    (ev.call callee args span).Approximates gaps I (ev'.call callee args span) := by
  apply (h.expr callee).bind
  intro f
  apply (h.spreadExprs args).bind
  exact fun vs => h.callValue hI f vs _ _

/-! ### Forms -/

/-- Every form of expression but a call, and a call too if evaluation without an ordinal is
allowed. -/
theorem exprForm {e : Expr} (he : (∀ span callee args, e ≠ .call span callee args) ∨ I none) :
    (ev.exprForm e).Approximates gaps I (ev'.exprForm e) := by
  cases e with
  | int | float | str => exact approximates_pure _
  | ident span name => exact approximates_identifier name
  | binary span op left right => exact h.binary op left right
  | unary span op operand => exact (h.expr operand).bind fun v => approximates_ofExcept _
  | call span callee args =>
    rcases he with hne | hI
    · exact absurd rfl (hne span callee args)
    · exact h.call hI callee args span
  | func span params body => exact approximates_asks _
  | select span base name => exact h.select base name
  | composite span typeName fields => exact h.composite typeName fields

/-- Every form of statement but a constant block, and a constant block too if every ordinal is
allowed. -/
theorem stmtForm {n k : Nat} (hn : n = k ∨ gaps ∧ n ≤ k) (label : Option String) {s : Stmt}
    (hs : (∀ span specs, s ≠ .constants span specs) ∨ ∀ i, I i) :
    (ev.stmtForm n label s).Approximates gaps I (ev'.stmtForm k label s) := by
  cases s with
  | empty => exact approximates_pure _
  | expr span e => exact (h.expr e).asStmt
  | define span names values => exact effect (h.define names values).asStmt
  | assign span targets op values =>
    cases op with
    | none => exact effect (h.assign targets values).asStmt
    | some op => exact effect (h.assignOp targets op values).asStmt
  | incDec span target increment => exact effect (approximates_incDec target increment).asStmt
  | block span body => exact effect (h.block body)
  | branch span first cond body otherwise => exact effect (h.branch first cond body otherwise)
  | loop span first cond post body => exact effect (h.loop hn label first cond post body)
  | jump span kind target => exact approximates_jump kind target
  | result span values =>
    exact (h.spreadExprs values).asStmt.bind fun vs => approximates_raise _
  | labeled span label body => exact h.labeled label body
  | switch span first tag clauses => exact effect (h.switch label first tag clauses)
  | constants span specs =>
    rcases hs with hne | hI
    · exact absurd rfl (hne span specs)
    · exact effect (h.constants hI specs).asStmt

end Evaluator.Approximates

end Forms

end ScriptEngine
