import ScriptEngine.Proofs.Eval.Tracking

/-!
Every form of statement and expression can be traced, given an evaluator of its parts that keeps the
live calls; the call of a function is the exception (`tracks_form`). The conditions of a form are
those that `Node.conditions` lists.
-/

namespace ScriptEngine

open Evaluator

variable {ε α : Type} {ev : Evaluator} {C : List Expr}

/-! ### Names -/

theorem tracks_bindUnlessBlank (mutability : Mutability) (name : String) (v : Value) :
    Tracks ev C fun _ => bindUnlessBlank mutability name v := by
  unfold bindUnlessBlank
  split
  · exact tracks_pure ()
  · exact tracks_bindName name _

theorem tracks_assignUnlessBlank (name : String) (v : Value) :
    Tracks ev C fun _ => assignUnlessBlank name v := by
  unfold assignUnlessBlank
  split
  · exact tracks_pure ()
  · exact tracks_assignName name v

theorem tracks_eachPair {write : String → Value → Eval EvalError Unit}
    (hwrite : ∀ name v, Tracks ev C fun _ => write name v) (names : List String)
    (vs : List Value) : Tracks ev C fun _ => eachPair write names vs := by
  fun_induction eachPair write names vs with
  | case1 name names v vs ih => exact (hwrite name v).bind fun _ => ih
  | case2 => exact tracks_pure ()

theorem tracks_incDec (target : String) (increment : Bool) :
    Tracks ev C fun _ => incDec target increment := by
  apply (tracks_identifier target).bind
  intro current
  apply (tracks_ofExcept (current.step increment)).bind
  exact fun updated => tracks_assignName target updated

theorem tracks_bindParams (params : List String) (args : List Value) :
    Tracks ev C fun _ => bindParams params args :=
  tracks_eachPair (tracks_bindUnlessBlank .mutable) params args

/-! ### Struct values -/

theorem tracks_selectMethod (recv : Value) (ty : TypeId) (name : String) :
    Tracks ev C fun _ => selectMethod recv ty name := by
  apply (tracks_asks _).bind
  intro c
  cases c.findMethod ty name with
  | none => exact tracks_fail _
  | some path =>
    apply (tracks_ofExcept (follow name path.fields recv)).bind
    intro target
    apply (tracks_onTypes _).bind
    intro method
    cases method.func with
    | none => exact tracks_fail _
    | some func => exact tracks_pure _

theorem tracks_selectFrom (recv : Value) (name : String) :
    Tracks ev C fun _ => selectFrom recv name := by
  cases recv with
  | struct ty vs =>
    apply (tracks_asks _).bind
    intro found
    cases found with
    | some v => exact tracks_pure v
    | none => exact tracks_selectMethod _ ty name
  | void | bool | int | float | str | tuple | func | method => exact tracks_fail _

namespace Tracks

variable (hev : ev.KeepsCalls)

include hev

theorem select (base : Expr) (name : String) : Tracks ev [] fun ev => ev.select base name :=
  (expr hev List.not_mem_nil).bind fun recv => tracks_selectFrom recv name

theorem composite (typeName : String) (fields : List Expr) :
    Tracks ev [] fun ev => ev.composite typeName fields := by
  apply (tracks_asks _).bind
  intro c
  cases c.lookupNamed typeName with
  | none => exact tracks_fail _
  | some ty =>
    dsimp only
    cases c.structFields? ty with
    | none => exact tracks_fail _
    | some decls =>
      refine .ite (fun _ => ?_) fun _ => tracks_fail _
      apply (exprs hev fun _ _ => List.not_mem_nil).bind
      exact fun vs => tracks_pure _

/-! ### Definitions, assignments and constants -/

theorem rightSides (count : Nat) (es : List Expr) :
    Tracks ev [] fun ev => ev.rightSides count es := by
  have hcount : ∀ vs : List Value, Tracks ev [] fun _ =>
      (if vs.length = count then pure vs
        else Eval.fail (.assignmentMismatch count vs.length) : Eval EvalError (List Value)) :=
    fun vs => .ite (fun _ => tracks_pure vs) fun _ => tracks_fail _
  unfold Evaluator.rightSides
  dsimp only
  split
  · apply (expr hev List.not_mem_nil).bind
    exact fun v => hcount v.results
  · apply (exprs hev fun _ _ => List.not_mem_nil).bind
    exact hcount

theorem define (names : List String) (values : List Expr) :
    Tracks ev [] fun ev => ev.define names values :=
  (rightSides hev _ values).bind fun vs => tracks_eachPair (tracks_bindUnlessBlank .mutable) names vs

theorem assign (targets : List String) (values : List Expr) :
    Tracks ev [] fun ev => ev.assign targets values :=
  (rightSides hev _ values).bind fun vs => tracks_eachPair tracks_assignUnlessBlank targets vs

theorem assignOp (targets : List String) (op : BinaryOp) (values : List Expr) :
    Tracks ev [] fun ev => ev.assignOp targets op values := by
  unfold Evaluator.assignOp
  split
  · next target value =>
    apply (tracks_identifier target).bind
    intro current
    apply (expr hev List.not_mem_nil).bind
    intro v
    apply (tracks_ofExcept (op.apply current v)).bind
    exact fun updated => tracks_assignName target updated
  · exact tracks_fail _

theorem constantLine (names : List String) (es : List Expr) :
    Tracks ev [] fun ev => ev.constantLine names es := by
  induction names generalizing es with
  | nil => exact tracks_pure ()
  | cons name names ih =>
    cases es with
    | nil => exact tracks_pure ()
    | cons e es =>
      apply (expr hev List.not_mem_nil).bind
      intro v
      exact (tracks_bindUnlessBlank .immutable name v).bind fun _ => ih es

theorem constantLines (ordinal : Nat) (previous : List Expr) (specs : List (ConstSpec Expr)) :
    Tracks ev [] fun ev => ev.constantLines ordinal previous specs := by
  induction specs generalizing ordinal previous with
  | nil => exact tracks_pure ()
  | cons spec rest ih =>
    refine .ite (fun _ => ?_) fun _ => tracks_fail _
    have hupdate : Tracks ev [] fun _ => (Eval.update fun m =>
        { m with iota := some (Int64.ofNat ordinal) } : Eval EvalError Unit) :=
      tracks_update fun _ => rfl
    apply hupdate.bind
    intro _
    exact (constantLine hev spec.names _).bind fun _ => ih _ _

theorem constants (specs : List (ConstSpec Expr)) :
    Tracks ev [] fun ev => ev.constants specs := by
  apply (tracks_asks _).bind
  intro outer
  have hupdate : Tracks ev [] fun _ =>
      (Eval.update fun m => { m with iota := none } : Eval EvalError Unit) :=
    tracks_update fun _ => rfl
  apply hupdate.bind
  exact fun _ => (constantLines hev 0 [] specs).leaving fun _ => rfl

/-! ### Operators -/

theorem binary (op : BinaryOp) (left right : Expr) :
    Tracks ev [] fun ev => ev.binary op left right := by
  apply (expr hev List.not_mem_nil).bind
  intro l
  refine .ite (fun _ => ?_) fun _ => ?_
  · cases l with
    | bool b =>
      refine .ite (fun _ => tracks_pure _) fun _ => ?_
      apply (expr hev List.not_mem_nil).bind
      intro r
      cases r with
      | bool r => exact tracks_pure _
      | void | int | float | str | tuple | func | struct | method => exact tracks_fail _
    | void | int | float | str | tuple | func | struct | method => exact tracks_fail _
  · apply (expr hev List.not_mem_nil).bind
    exact fun r => tracks_ofExcept _

/-! ### Blocks, conditions, loops, switches and labels -/

theorem block (body : List Stmt) : Tracks ev C fun ev => ev.block body :=
  (stmts hev body).inFrame

theorem branch (first : Option Stmt) {cond : Expr} (hcond : cond ∈ C) (body : Stmt)
    (otherwise : Option Stmt) : Tracks ev C fun ev => ev.branch first cond body otherwise := by
  apply Tracks.inFrame
  apply (optional hev first).bind
  intro _
  apply (condition hev hcond).asStmt.bind
  exact fun holds => .ite (fun _ => optional hev (some body)) fun _ => optional hev otherwise

theorem goesOn {cond : Option Expr} (hcond : ∀ e ∈ cond.toList, e ∈ C) :
    Tracks ev C fun ev => ev.goesOn cond := by
  cases cond with
  | none => exact tracks_pure true
  | some e => exact (condition hev (hcond e (by simp))).asStmt

theorem loopBody (label : Option String) (body : Stmt) :
    Tracks ev C fun ev => ev.loopBody label body := by
  have hround : Tracks ev C fun ev => (do let _ ← ev.stmt none body; return true) :=
    (stmt hev none body).bind fun _ => tracks_pure true
  apply hround.handle
  · exact passesErrors_of_failed fun _ => rfl
  · intro x hx
    split
    · exact Eval.isLocal_pure true
    · exact Eval.isLocal_pure false
    · next y hy =>
      obtain ⟨rfl, -⟩ := Exit.of_inLoop hy
      exact Eval.isLocal_raise hx

theorem round (label : Option String) {cond : Option Expr} (hcond : ∀ e ∈ cond.toList, e ∈ C)
    (post : Option Stmt) (body : Stmt) : Tracks ev C fun ev => ev.round label cond post body := by
  apply (goesOn hev hcond).bind
  refine fun goes => .ite (fun _ => ?_) fun _ => tracks_pure false
  apply (loopBody hev label body).bind
  refine fun again => .ite (fun _ => ?_) fun _ => tracks_pure false
  exact (optional hev post).bind fun _ => tracks_pure true

theorem loop (budget : Nat) (label : Option String) (first : Option Stmt) {cond : Option Expr}
    (hcond : ∀ e ∈ cond.toList, e ∈ C) (post : Option Stmt) (body : Stmt) :
    Tracks ev C fun ev => ev.loop budget label first cond post body := by
  apply Tracks.inFrame
  exact (optional hev first).bind fun _ => (round hev label hcond post body).repeatWhile budget

/-- The cases of a switch are conditions unless it has a tag. -/
theorem anyCase {tagged : Bool} (tag : Value) {es : List Expr}
    (hes : ∀ e ∈ es, if tagged then e ∉ C else e ∈ C) :
    Tracks ev C fun ev => ev.anyCase tagged tag es := by
  induction es with
  | nil => exact tracks_pure false
  | cons e rest ih =>
    have he := hes e (List.mem_cons_self ..)
    have hcase : Tracks ev C fun ev => ev.caseValue tagged e := by
      cases tagged with
      | true => exact expr hev he
      | false => exact (condition hev he).bind fun b => tracks_pure (Value.bool b)
    apply hcase.bind
    refine fun v => .ite (fun _ => tracks_pure true) fun _ => ?_
    exact ih fun e' he' => hes e' (List.mem_cons_of_mem _ he')

theorem chosenClause {tagged : Bool} (tag : Value) {clauses : List (Clause Expr Stmt)}
    (hclauses : ∀ e ∈ clauses.flatMap (·.values.getD []), if tagged then e ∉ C else e ∈ C) :
    Tracks ev C fun ev => ev.chosenClause tagged tag clauses := by
  induction clauses with
  | nil => exact tracks_pure none
  | cons c rest ih =>
    rw [List.flatMap_cons] at hclauses
    apply (anyCase hev tag fun e he => hclauses e (List.mem_append_left _ he)).bind
    refine fun matched => .ite (fun _ => tracks_pure _) fun _ => ?_
    exact ih fun e he => hclauses e (List.mem_append_right _ he)

theorem switch (label : Option String) (first : Option Stmt) {tag : Option Expr}
    {clauses : List (Clause Expr Stmt)} (htag : ∀ e ∈ tag.toList, e ∉ C)
    (hclauses : ∀ e ∈ clauses.flatMap (·.values.getD []), if tag.isSome then e ∉ C else e ∈ C) :
    Tracks ev C fun ev => ev.switch label first tag clauses := by
  have htagValue : Tracks ev C fun ev => ev.tagValue tag := by
    cases tag with
    | none => exact tracks_pure _
    | some e => exact expr hev (htag e (by simp))
  have hbody : Tracks ev C fun ev => ev.switchBody first tag clauses := by
    apply (optional hev first).bind
    intro _
    apply htagValue.asStmt.bind
    intro value
    apply (chosenClause hev value hclauses).asStmt.bind
    intro chosen
    cases chosen.or (clauses.find? (·.values.isNone)) with
    | none => exact tracks_pure ()
    | some c => exact (stmts hev c.body).inFrame
  apply hbody.inFrame.handle
  · exact passesErrors_of_failed fun _ => rfl
  · intro x hx
    split
    · exact Eval.isLocal_pure ()
    · next y hy =>
      obtain ⟨rfl, -⟩ := Exit.of_inSwitch hy
      exact Eval.isLocal_raise hx

theorem labeled (label : String) (body : Stmt) : Tracks ev C fun ev => ev.labeled label body := by
  apply (stmt hev (some label) body).handle
  · exact passesErrors_of_failed fun _ => rfl
  · intro x hx
    split
    · exact Eval.isLocal_pure Value.void
    · next y hy =>
      obtain ⟨rfl, -⟩ := Exit.of_inLabeled hy
      exact Eval.isLocal_raise hx

/-! ### Forms -/

omit hev in
theorem effect {x : Evaluator → Eval Exit Unit} (hx : Tracks ev C x) :
    Tracks ev C fun ev => effect (x ev) :=
  hx.bind fun _ => tracks_pure Value.void

theorem exprForm {e : Expr} (hcall : ∀ span callee args, e ≠ .call span callee args) :
    Tracks ev [] fun ev => ev.exprForm e := by
  cases e with
  | int | float | str => exact tracks_pure _
  | ident span name => exact tracks_identifier name
  | binary span op left right => exact binary hev op left right
  | unary span op operand =>
    apply (expr hev List.not_mem_nil).bind
    exact fun v => tracks_ofExcept _
  | call span callee args => exact absurd rfl (hcall span callee args)
  | func span params body => exact tracks_asks _
  | select span base name => exact select hev base name
  | composite span typeName fields => exact composite hev typeName fields

theorem stmtForm (budget : Nat) (label : Option String) (s : Stmt) :
    Tracks ev (Node.stmt label s).conditions fun ev => ev.stmtForm budget label s := by
  cases s with
  | empty => exact tracks_pure _
  | expr span e => exact (expr hev List.not_mem_nil).asStmt
  | define span names values => exact effect (define hev names values).asStmt
  | assign span targets op values =>
    cases op with
    | none => exact effect (assign hev targets values).asStmt
    | some op => exact effect (assignOp hev targets op values).asStmt
  | incDec span target increment => exact effect (tracks_incDec target increment).asStmt
  | block span body => exact effect (block hev body)
  | branch span first cond body otherwise =>
    exact effect (branch hev first (List.mem_singleton_self cond) body otherwise)
  | loop span first cond post body =>
    exact effect (loop hev budget label first (fun _ he => he) post body)
  | jump span kind target =>
    cases kind with
    | leaveLoop | nextRound => exact tracks_jump rfl
    | goto | fallthrough => exact (tracks_fail _).asStmt
  | result span values =>
    apply (spreadExprs hev fun _ _ => List.not_mem_nil).asStmt.bind
    exact fun vs => tracks_jump rfl
  | labeled span label body => exact labeled hev label body
  | switch span first tag clauses =>
    cases tag with
    | none => exact effect (switch hev label first (by simp) fun _ he => he)
    | some tag =>
      exact effect (switch hev label first (fun _ _ => List.not_mem_nil)
        fun _ _ => List.not_mem_nil)
  | constants span specs => exact effect (constants hev specs).asStmt

end Tracks

/-- **Every form but a call can be traced.** -/
theorem tracks_form (hev : ev.KeepsCalls) (budget : Nat) {t : Node}
    (hcall : ∀ span callee args, t ≠ .expr (.call span callee args)) :
    Tracks ev t.conditions fun ev => t.form ev budget := by
  cases t with
  | stmt label s => exact Tracks.stmtForm hev budget label s
  | expr e =>
    exact (Tracks.exprForm hev fun span callee args he => hcall span callee args (he ▸ rfl)).asStmt

end ScriptEngine
