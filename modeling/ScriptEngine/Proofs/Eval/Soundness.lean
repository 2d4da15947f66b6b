import ScriptEngine.Proofs.Eval.Contract

/-!
Evaluation keeps to every policy.

`Policy.Governs` is the contract of an evaluator: under the policy, expressions end in values and
errors of the policy, and statements make only jumps that escape them. Each form keeps the contract
if the evaluator of its parts does, so `evaluator` keeps it at every budget (`Policy.governs`).
-/

namespace ScriptEngine

open Evaluator

namespace Policy

/-- Under the policy, the evaluator evolves machines within it and ends within it, and the jumps
that a statement makes escape it. -/
structure Governs (π : Policy) (ev : Evaluator) : Prop where
  expr : ∀ {e}, e.Obeys π.body → π.Keeps false (ev.expr e) π.value π.error
  stmt : ∀ label {s}, s.Obeys π.body →
    π.Keeps s.binds (ev.stmt label s) π.value (π.exit (s.Escapes label))

namespace Governs

variable {π : Policy} {ev : Evaluator} {binds : Bool}

/-! ### Lists of parts -/

theorem exprs (h : π.Governs ev) {es : List Expr} (hes : ∀ e ∈ es, e.Obeys π.body) :
    π.Keeps false (ev.exprs es) (fun vs => (∀ v ∈ vs, π.value v) ∧ vs.length = es.length)
      π.error := by
  induction es with
  | nil => exact keeps_pure ⟨by simp, rfl⟩
  | cons e rest ih =>
    apply (h.expr (hes e (List.mem_cons_self ..))).bind
    intro v hv
    apply (ih fun e' he' => hes e' (List.mem_cons_of_mem _ he')).bind
    intro vs ⟨hvs, hlen⟩
    apply keeps_pure
    constructor
    · intro w hw
      rcases List.mem_cons.mp hw with rfl | hw
      · exact hv
      · exact hvs w hw
    · simp [hlen]

theorem spreadExprs (h : π.Governs ev) {es : List Expr} (hes : ∀ e ∈ es, e.Obeys π.body) :
    π.Keeps false (ev.spreadExprs es) (fun vs => ∀ v ∈ vs, π.value v) π.error := by
  unfold Evaluator.spreadExprs
  split
  · next e =>
    apply (h.expr (hes e (List.mem_singleton_self e))).bind
    exact fun v hv => keeps_pure (value_spread hv)
  · exact (h.exprs hes).mono (fun _ hvs => hvs.1) fun _ he => he

theorem stmts (h : π.Governs ev) {body : List Stmt} (hbody : ∀ s ∈ body, s.Obeys π.body) :
    π.Keeps true (ev.stmts body) (fun _ => True) (π.exit (Stmt.AnyEscapes body)) := by
  induction body with
  | nil => exact keeps_pure trivial
  | cons s rest ih =>
    have hs := h.stmt none (hbody s (List.mem_cons_self ..))
    have hrest := ih fun s' hs' => hbody s' (List.mem_cons_of_mem _ hs')
    apply (hs.lift.wider fun j hj => ⟨s, List.mem_cons_self .., hj⟩).bind
    intro _ _
    exact hrest.wider fun j ⟨s', hs', hj⟩ => ⟨s', List.mem_cons_of_mem _ hs', hj⟩

theorem optional (h : π.Governs ev) {s? : Option Stmt} (hs : ∀ s ∈ s?.toList, s.Obeys π.body) :
    π.Keeps true (ev.optional s?) (fun _ => True) (π.exit (Stmt.AnyEscapes s?.toList)) := by
  cases s? with
  | none => exact keeps_pure trivial
  | some s =>
    have hmem : s ∈ (some s).toList := by simp
    apply ((h.stmt none (hs s hmem)).lift.wider fun j hj => ⟨s, hmem, hj⟩).bind
    exact fun _ _ => keeps_pure trivial

theorem condition (h : π.Governs ev) {e : Expr} (he : e.Obeys π.body) :
    π.Keeps false (ev.condition e) (fun _ => True) π.error := by
  apply (h.expr he).bind
  intro v _
  split
  · exact keeps_pure trivial
  · exact keeps_raise (error_locate.mpr (error_of rfl))

/-! ### Definitions, assignments and constants -/

theorem rightSides (h : π.Governs ev) {count : Nat} {es : List Expr}
    (hes : ∀ e ∈ es, e.Obeys π.body) :
    π.Keeps false (ev.rightSides count es) (fun vs => ∀ v ∈ vs, π.value v) π.error := by
  have hcount : ∀ vs : List Value, (∀ v ∈ vs, π.value v) →
      π.Keeps false (if vs.length = count then pure vs
        else Eval.fail (.assignmentMismatch count vs.length)) (fun vs => ∀ v ∈ vs, π.value v)
        π.error := by
    intro vs hvs
    split
    · exact keeps_pure hvs
    · exact keeps_fail rfl
  unfold Evaluator.rightSides
  dsimp only
  split
  · next e =>
    apply (h.expr (hes e (List.mem_singleton_self e))).bind
    exact fun v hv => hcount v.results (value_results hv)
  · apply (h.exprs hes).bind
    exact fun vs hvs => hcount vs hvs.1

end Governs

theorem keeps_bindUnlessBlank {π : Policy} {mutability : Mutability} {name : String} {v : Value}
    (hv : π.value v) :
    π.Keeps true (bindUnlessBlank mutability name v) (fun _ => True) π.error := by
  unfold bindUnlessBlank
  split
  · exact keeps_pure trivial
  · exact keeps_bindName hv

theorem keeps_assignUnlessBlank {π : Policy} {name : String} {v : Value} (hv : π.value v) :
    π.Keeps false (assignUnlessBlank name v) (fun _ => True) π.error := by
  unfold assignUnlessBlank
  split
  · exact keeps_pure trivial
  · exact keeps_assignName hv

theorem keeps_eachPair {π : Policy} {binds : Bool} {write : String → Value → Eval EvalError Unit}
    (hwrite : ∀ name v, π.value v → π.Keeps binds (write name v) (fun _ => True) π.error)
    {names : List String} {vs : List Value} (hvs : ∀ v ∈ vs, π.value v) :
    π.Keeps binds (eachPair write names vs) (fun _ => True) π.error := by
  fun_induction eachPair write names vs with
  | case1 name names v vs ih =>
    apply (hwrite name v (hvs v (List.mem_cons_self ..))).bind
    exact fun _ _ => ih fun w hw => hvs w (List.mem_cons_of_mem _ hw)
  | case2 => exact keeps_pure trivial

namespace Governs

variable {π : Policy} {ev : Evaluator}

theorem define (h : π.Governs ev) {names : List String} {values : List Expr}
    (hvalues : ∀ e ∈ values, e.Obeys π.body) :
    π.Keeps true (ev.define names values) (fun _ => True) π.error := by
  apply (h.rightSides hvalues).weaken.bind
  exact fun vs hvs => keeps_eachPair (fun _ _ hv => keeps_bindUnlessBlank hv) hvs

theorem assign (h : π.Governs ev) {targets : List String} {values : List Expr}
    (hvalues : ∀ e ∈ values, e.Obeys π.body) :
    π.Keeps false (ev.assign targets values) (fun _ => True) π.error := by
  apply (h.rightSides hvalues).bind
  exact fun vs hvs => keeps_eachPair (fun _ _ hv => keeps_assignUnlessBlank hv) hvs

theorem assignOp (h : π.Governs ev) {targets : List String} {op : BinaryOp} {values : List Expr}
    (hvalues : ∀ e ∈ values, e.Obeys π.body) :
    π.Keeps false (ev.assignOp targets op values) (fun _ => True) π.error := by
  unfold Evaluator.assignOp
  split
  · next target value =>
    apply (keeps_identifier target).bind
    intro current _
    apply (h.expr (hvalues value (List.mem_singleton_self value))).bind
    intro v _
    apply (keeps_ofExcept (fun _ hok => π.plain (BinaryOp.isPlain_of_apply hok))
      fun _ => BinaryOp.isLocal_of_apply).bind
    exact fun updated hupdated => keeps_assignName hupdated
  · exact keeps_fail rfl

theorem constantLine (h : π.Governs ev) (names : List String) {es : List Expr}
    (hes : ∀ e ∈ es, e.Obeys π.body) :
    π.Keeps true (ev.constantLine names es) (fun _ => True) π.error := by
  fun_induction Evaluator.constantLine ev names es with
  | case1 name names e es ih =>
    apply (h.expr (hes e (List.mem_cons_self ..))).weaken.bind
    intro v hv
    apply (keeps_bindUnlessBlank hv).bind
    exact fun _ _ => ih fun e' he' => hes e' (List.mem_cons_of_mem _ he')
  | case2 => exact keeps_pure trivial

end Governs

theorem keeps_incDec {π : Policy} {target : String} {increment : Bool} :
    π.Keeps false (incDec target increment) (fun _ => True) π.error := by
  apply (keeps_identifier target).bind
  intro current _
  apply (keeps_ofExcept (fun _ hok => π.plain (Value.isPlain_of_step hok))
    fun _ => Value.isLocal_of_step).bind
  exact fun updated hupdated => keeps_assignName hupdated

namespace Governs

variable {π : Policy} {ev : Evaluator}

/-- The lines of a block, seen under one ordinal: each line has its own, which is gone after it. -/
theorem constantLines (h : π.Governs ev) {specs : List (ConstSpec Expr)}
    (hspecs : ∀ spec ∈ specs, ∀ e ∈ spec.values, e.Obeys π.body) (ordinal : Nat)
    {previous : List Expr} (hprevious : ∀ e ∈ previous, e.Obeys π.body) (iota : Option Int64)
    {m : Machine} (hm : π.Holds m) :
    (ev.constantLines ordinal previous specs).Ends m
      (fun _ m' => Evolves π.value true { m with iota } { m' with iota })
      fun e m' => Evolves π.value true { m with iota } { m' with iota } ∧ π.error e := by
  induction specs generalizing ordinal previous m with
  | nil => exact .refl
  | cons spec rest ih =>
    unfold Evaluator.constantLines
    dsimp only
    generalize hvalues : (if spec.values.isEmpty then previous else spec.values) = values
    have hobey : ∀ e ∈ values, e.Obeys π.body := by
      rw [← hvalues]
      split
      · exact hprevious
      · exact hspecs spec (List.mem_cons_self ..)
    split
    · apply Eval.ends_bind.mpr
      apply Eval.ends_update.mpr
      apply Eval.ends_bind.mpr
      have hline := h.constantLine spec.names hobey _ (hm.under (some (Int64.ofNat ordinal)))
      apply hline.mono
      · intro _ m₁ ⟨hm₁, _⟩
        have hfirst : Evolves π.value true { m with iota } { m₁ with iota } :=
          .underOrdinal (m := { m with iota }) hm₁
        have hrest := ih (fun spec' hs => hspecs spec' (List.mem_cons_of_mem _ hs)) (ordinal + 1)
          hobey ((hm.under _).evolves hm₁)
        apply hrest.mono
        · exact fun _ _ hm₂ => .trans hfirst hm₂
        · exact fun _ _ ⟨hm₂, he⟩ => ⟨.trans hfirst hm₂, he⟩
      · exact fun e m₁ ⟨hm₁, he⟩ => ⟨.underOrdinal (m := { m with iota }) hm₁, he⟩
    · exact ⟨.refl, error_of rfl⟩

theorem constants (h : π.Governs ev) {specs : List (ConstSpec Expr)}
    (hspecs : ∀ spec ∈ specs, ∀ e ∈ spec.values, e.Obeys π.body) :
    π.Keeps true (ev.constants specs) (fun _ => True) π.error := by
  intro m hm
  apply Eval.ends_bind.mpr
  apply Eval.ends_asks.mpr
  apply Eval.ends_bind.mpr
  apply Eval.ends_update.mpr
  apply Eval.ends_leaving.mpr
  have hnone : ∀ e ∈ ([] : List Expr), e.Obeys π.body := by simp
  apply (h.constantLines hspecs 0 hnone m.iota (hm.under none)).mono
  · exact fun _ _ hm' => ⟨hm', trivial⟩
  · exact fun _ _ h => h

/-! ### Calls -/

theorem body (h : π.Governs ev) {f : Function} (hf : π.function f) {args : List Value}
    (hargs : ∀ v ∈ args, π.value v) :
    π.Keeps true (ev.body f args) π.value (π.exit (f.body.Escapes none)) := by
  have hbind : π.Keeps true (bindParams f.params args) (fun _ => True) π.error :=
    keeps_eachPair (fun _ _ hv => keeps_bindUnlessBlank hv) hargs
  apply hbind.asStmt.bind
  exact fun _ _ => (h.stmt none hf.1).lift

/-- A call ends its body's jumps: a `return` is its value, and every other jump an error. -/
theorem callFunction (h : π.Governs ev) {f : Function} (hf : π.function f) {args : List Value}
    (hargs : ∀ v ∈ args, π.value v) {frame : CallFrame} :
    π.Keeps false (ev.callFunction f args frame) π.value π.error := by
  intro m hm
  unfold Eval.Ends Evaluator.callFunction
  by_cases hlen : args.length = f.params.length
  · rw [if_pos hlen]
    cases hfull : m.calls.full? with
    | some max => exact ⟨.refl, error_of rfl⟩
    | none =>
      have hbody := h.body hf hargs (enterCall f frame m)
        ⟨hm.frames.grow _, hm.functions, hm.types⟩
      unfold Eval.Ends at hbody
      dsimp only
      cases hrun : ev.body f args (enterCall f frame m) with
      | exhausted => trivial
      | value v m' =>
        rw [hrun] at hbody
        exact ⟨.called hfull hbody.1, π.plain rfl⟩
      | exit x m' =>
        rw [hrun] at hbody
        have hcalled : Evolves π.value false m (leaveCall m.env m.iota m') := .called hfull hbody.1
        cases x with
        | failed e => exact ⟨hcalled, error_trace.mpr hbody.2⟩
        | leaveLoop | nextRound =>
          exact ⟨hcalled, error_trace.mpr (π.escaped hf.2 hbody.2 (by simp))⟩
        | result vs => exact ⟨hcalled, value_ofResults hbody.2.2⟩
  · rw [if_neg hlen]
    exact ⟨.refl, error_of rfl⟩

theorem callValue (h : π.Governs ev) {callee : Value} (hcallee : π.value callee)
    {args : List Value} (hargs : ∀ v ∈ args, π.value v) {name : String} {span : Option Span} :
    π.Keeps false (ev.callValue callee args name span) π.value π.error := by
  cases callee with
  | func f => exact h.callFunction (π.func.mp hcallee) hargs
  | method recv func method =>
    intro m hm
    apply Eval.ends_bind.mpr
    apply Eval.ends_asks.mpr
    cases hf : m.functions.find? func with
    | none => exact ⟨.refl, error_of rfl⟩
    | some f =>
      have hall : ∀ v ∈ recv :: args, π.value v := by
        intro v hv
        rcases List.mem_cons.mp hv with rfl | hv
        · exact π.receiver hcallee
        · exact hargs v hv
      exact h.callFunction (hm.functions hf) hall m hm
  | void | bool | int | float | str | tuple | struct => exact keeps_fail rfl

theorem call (h : π.Governs ev) {callee : Expr} (hcallee : callee.Obeys π.body)
    {args : List Expr} (hargs : ∀ e ∈ args, e.Obeys π.body) {span : Span} :
    π.Keeps false (ev.call callee args span) π.value π.error := by
  apply (h.expr hcallee).bind
  intro f hf
  apply (h.spreadExprs hargs).bind
  exact fun vs hvs => h.callValue hf hvs

/-! ### Struct values -/

theorem selectMethod {recv : Value} (hrecv : π.value recv) (ty : TypeId) (name : String) :
    π.Keeps false (selectMethod recv ty name) π.value π.error := by
  intro m hm
  apply Eval.ends_bind.mpr
  apply Eval.ends_asks.mpr
  cases hpath : m.types.catalog.findMethod ty name with
  | none => exact ⟨.refl, error_of rfl⟩
  | some path =>
    dsimp only
    cases htarget : follow name path.fields recv with
    | error c => exact ⟨.refl, error_of (Cause.isJump_of_isLocal (isLocal_of_follow htarget))⟩
    | ok target =>
      apply Eval.ends_bind.mpr
      apply Eval.ends_pure.mpr
      apply Eval.ends_bind.mpr
      have hresolve : Evolves π.value false m (m.resolved path.owner path.index) := .resolve
      unfold Machine.resolved at hresolve
      refine Eval.ends_onTypes_iff.mpr ⟨fun method u hmethod => ?_, fun e u hmethod _ => ?_⟩
      · rw [hmethod] at hresolve
        cases hfunc : method.func with
        | none => exact ⟨hresolve, error_of rfl⟩
        | some func =>
          exact ⟨hresolve, π.bound hm.types hrecv (of_follow π.fields hrecv htarget) hpath htarget
            hmethod hfunc⟩
      · rw [hmethod] at hresolve
        exact ⟨hresolve, error_of rfl⟩

theorem select (h : π.Governs ev) {base : Expr} (hbase : base.Obeys π.body) {name : String} :
    π.Keeps false (ev.select base name) π.value π.error := by
  apply (h.expr hbase).bind
  intro recv hrecv
  cases recv with
  | struct ty vs =>
    intro m hm
    apply Eval.ends_bind.mpr
    apply Eval.ends_asks.mpr
    cases hfield : field? m.types.catalog name (.struct ty vs) with
    | some v => exact ⟨.refl, of_field? π.fields hrecv v hfield⟩
    | none => exact selectMethod hrecv ty name m hm
  | void | bool | int | float | str | tuple | func | method => exact keeps_fail rfl

theorem composite (h : π.Governs ev) {typeName : String} {fields : List Expr}
    (hfields : ∀ e ∈ fields, e.Obeys π.body) :
    π.Keeps false (ev.composite typeName fields) π.value π.error := by
  intro m hm
  apply Eval.ends_bind.mpr
  apply Eval.ends_asks.mpr
  cases hty : m.types.catalog.lookupNamed typeName with
  | none => exact ⟨.refl, error_of rfl⟩
  | some ty =>
    cases hdecls : m.types.catalog.structFields? ty with
    | none =>
      simp only [hdecls]
      exact ⟨.refl, error_of rfl⟩
    | some decls =>
      simp only [hdecls]
      split
      · next hlen =>
        have hstruct : ∀ vs : List Value, (∀ v ∈ vs, π.value v) ∧ vs.length = fields.length →
            π.Keeps false (pure (.struct ty vs)) π.value π.error :=
          fun vs hvs => keeps_pure (π.struct hm.types hty hdecls (hlen.trans hvs.2.symm) hvs.1)
        exact (h.exprs hfields).bind hstruct m hm
      · exact ⟨.refl, error_of rfl⟩

/-! ### Blocks, conditions, loops, switches and labels -/

theorem block (h : π.Governs ev) {body : List Stmt} (hbody : ∀ s ∈ body, s.Obeys π.body) :
    π.Keeps false (ev.block body) (fun _ => True) (π.exit (Stmt.AnyEscapes body)) :=
  (h.stmts hbody).inFrame

theorem branch (h : π.Governs ev) {first otherwise : Option Stmt} {cond : Expr} {body : Stmt}
    (hfirst : ∀ s ∈ first.toList, s.Obeys π.body) (hcond : cond.Obeys π.body)
    (hbody : body.Obeys π.body) (hotherwise : ∀ s ∈ otherwise.toList, s.Obeys π.body) :
    π.Keeps false (ev.branch first cond body otherwise) (fun _ => True)
      (π.exit fun j => Stmt.AnyEscapes first.toList j ∨ Stmt.AnyEscapes [body] j ∨
        Stmt.AnyEscapes otherwise.toList j) := by
  apply Keeps.inFrame
  apply ((h.optional hfirst).wider fun _ => .inl).bind
  intro _ _
  apply (h.condition hcond).weaken.asStmt.bind
  intro holds _
  cases holds with
  | true =>
    have hsome : ∀ s ∈ (some body).toList, s.Obeys π.body := by simpa using hbody
    exact (h.optional hsome).wider fun _ hj => .inr (.inl hj)
  | false => exact (h.optional hotherwise).wider fun _ hj => .inr (.inr hj)

theorem loopBody (h : π.Governs ev) {label : Option String} {body : Stmt}
    (hbody : body.Obeys π.body) :
    π.Keeps true (ev.loopBody label body) (fun _ => True)
      (π.exit fun j => body.Escapes none j ∧ ¬ j.TakenByLoop label) := by
  have hround : π.Keeps true (do let _ ← ev.stmt none body; return true) (fun _ => True)
      (π.exit (body.Escapes none)) :=
    (h.stmt none hbody).lift.bind fun _ _ => keeps_pure trivial
  apply hround.handle
  intro x hx
  split
  · exact keeps_pure trivial
  · exact keeps_pure trivial
  · next y hy =>
    obtain ⟨rfl, hpassed⟩ := Exit.of_inLoop hy
    exact keeps_raise (exit_and hx hpassed)

theorem round (h : π.Governs ev) (label : Option String) {cond : Option Expr}
    {post : Option Stmt} {body : Stmt} (hcond : ∀ e ∈ cond.toList, e.Obeys π.body)
    (hpost : ∀ s ∈ post.toList, s.Obeys π.body) (hbody : body.Obeys π.body) :
    π.Keeps true (ev.round label cond post body) (fun _ => True)
      (π.exit fun j => Stmt.AnyEscapes post.toList j ∨
        body.Escapes none j ∧ ¬ j.TakenByLoop label) := by
  have hgoesOn : π.Keeps true (ev.goesOn cond) (fun _ => True)
      (π.exit fun j => Stmt.AnyEscapes post.toList j ∨
        body.Escapes none j ∧ ¬ j.TakenByLoop label) := by
    cases cond with
    | none => exact keeps_pure trivial
    | some e => exact (h.condition (hcond e (by simp))).weaken.asStmt
  apply hgoesOn.bind
  intro goes _
  cases goes with
  | false => exact keeps_pure trivial
  | true =>
    apply ((h.loopBody hbody).wider fun _ => .inr).bind
    intro again _
    cases again with
    | false => exact keeps_pure trivial
    | true =>
      apply ((h.optional hpost).wider fun _ => .inl).bind
      exact fun _ _ => keeps_pure trivial

/-- The jumps that leave a loop: those of its first and post statements, and those of its body that
it does not consume. -/
theorem loop (h : π.Governs ev) (budget : Nat) (label : Option String) {first post : Option Stmt}
    {cond : Option Expr} {body : Stmt} (hfirst : ∀ s ∈ first.toList, s.Obeys π.body)
    (hcond : ∀ e ∈ cond.toList, e.Obeys π.body) (hpost : ∀ s ∈ post.toList, s.Obeys π.body)
    (hbody : body.Obeys π.body) :
    π.Keeps false (ev.loop budget label first cond post body) (fun _ => True)
      (π.exit fun j => Stmt.AnyEscapes first.toList j ∨ Stmt.AnyEscapes post.toList j ∨
        body.Escapes none j ∧ ¬ j.TakenByLoop label) := by
  apply Keeps.inFrame
  apply ((h.optional hfirst).wider fun _ => .inl).bind
  intro _ _
  apply Keeps.repeatWhile
  exact (h.round label hcond hpost hbody).wider fun _ => .inr

theorem anyCase (h : π.Governs ev) {tagged : Bool} {tag : Value} {es : List Expr}
    (hes : ∀ e ∈ es, e.Obeys π.body) :
    π.Keeps false (ev.anyCase tagged tag es) (fun _ => True) π.error := by
  induction es with
  | nil => exact keeps_pure trivial
  | cons e rest ih =>
    have he := hes e (List.mem_cons_self ..)
    have hcase : π.Keeps false (ev.caseValue tagged e) (fun _ => True) π.error := by
      cases tagged with
      | true => exact (h.expr he).mono (fun _ _ => trivial) fun _ h => h
      | false => exact (h.condition he).bind fun _ _ => keeps_pure trivial
    apply hcase.bind
    intro v _
    split
    · exact keeps_pure trivial
    · exact ih fun e' he' => hes e' (List.mem_cons_of_mem _ he')

theorem chosenClause (h : π.Governs ev) {tagged : Bool} {tag : Value}
    {clauses : List (Clause Expr Stmt)}
    (hclauses : ∀ c ∈ clauses, ∀ e ∈ c.values.getD [], e.Obeys π.body) :
    π.Keeps false (ev.chosenClause tagged tag clauses) (fun chosen => ∀ c ∈ chosen, c ∈ clauses)
      π.error := by
  induction clauses with
  | nil => exact keeps_pure (by simp)
  | cons c rest ih =>
    apply (h.anyCase (hclauses c (List.mem_cons_self ..))).bind
    intro matched _
    cases matched with
    | true => exact keeps_pure (by simp)
    | false =>
      apply (ih fun c' hc' => hclauses c' (List.mem_cons_of_mem _ hc')).mono
      · exact fun chosen hchosen c' hc' => List.mem_cons_of_mem _ (hchosen c' hc')
      · exact fun _ h => h

theorem switchBody (h : π.Governs ev) {first : Option Stmt} {tag : Option Expr}
    {clauses : List (Clause Expr Stmt)} (hfirst : ∀ s ∈ first.toList, s.Obeys π.body)
    (htag : ∀ e ∈ tag.toList, e.Obeys π.body)
    (hvalues : ∀ c ∈ clauses, ∀ e ∈ c.values.getD [], e.Obeys π.body)
    (hbodies : ∀ c ∈ clauses, ∀ s ∈ c.body, s.Obeys π.body) :
    π.Keeps true (ev.switchBody first tag clauses) (fun _ => True)
      (π.exit fun j => Stmt.AnyEscapes first.toList j ∨
        ∃ c ∈ clauses, Stmt.AnyEscapes c.body j) := by
  have htagValue : π.Keeps false (ev.tagValue tag) π.value π.error := by
    cases tag with
    | none => exact keeps_pure (π.plain rfl)
    | some e => exact h.expr (htag e (by simp))
  apply ((h.optional hfirst).wider fun _ => .inl).bind
  intro _ _
  apply htagValue.weaken.asStmt.bind
  intro value _
  apply (h.chosenClause hvalues).weaken.asStmt.bind
  intro chosen hchosen
  split
  · next c hc =>
    have hmem : c ∈ clauses := by
      rcases Option.or_eq_some_iff.mp hc with hc | ⟨_, hc⟩
      · exact hchosen c hc
      · exact List.mem_of_find?_eq_some hc
    exact (h.stmts (hbodies c hmem)).inFrame.wider fun j hj => .inr ⟨c, hmem, hj⟩
  · exact keeps_pure trivial

/-- The jumps that leave a switch: those of its first statement and of its clauses that it does not
consume. -/
theorem switch (h : π.Governs ev) (label : Option String) {first : Option Stmt} {tag : Option Expr}
    {clauses : List (Clause Expr Stmt)} (hfirst : ∀ s ∈ first.toList, s.Obeys π.body)
    (htag : ∀ e ∈ tag.toList, e.Obeys π.body)
    (hvalues : ∀ c ∈ clauses, ∀ e ∈ c.values.getD [], e.Obeys π.body)
    (hbodies : ∀ c ∈ clauses, ∀ s ∈ c.body, s.Obeys π.body) :
    π.Keeps false (ev.switch label first tag clauses) (fun _ => True)
      (π.exit fun j => (Stmt.AnyEscapes first.toList j ∨
        ∃ c ∈ clauses, Stmt.AnyEscapes c.body j) ∧ ¬ j.TakenBySwitch label) := by
  apply (h.switchBody hfirst htag hvalues hbodies).inFrame.handle
  intro x hx
  split
  · exact keeps_pure trivial
  · next y hy =>
    obtain ⟨rfl, hpassed⟩ := Exit.of_inSwitch hy
    exact keeps_raise (exit_and hx hpassed)

theorem labeled (h : π.Governs ev) {label : String} {body : Stmt} (hbody : body.Obeys π.body) :
    π.Keeps body.binds (ev.labeled label body) π.value
      (π.exit fun j => body.Escapes (some label) j ∧ j ≠ .leaveLoop (some label)) := by
  apply (h.stmt (some label) hbody).handle
  intro x hx
  split
  · exact keeps_pure (π.plain rfl)
  · next y hy =>
    obtain ⟨rfl, hpassed⟩ := Exit.of_inLabeled hy
    exact keeps_raise (exit_and hx hpassed)

/-! ### Forms -/

theorem binary (h : π.Governs ev) {op : BinaryOp} {left right : Expr}
    (hleft : left.Obeys π.body) (hright : right.Obeys π.body) :
    π.Keeps false (ev.binary op left right) π.value π.error := by
  apply (h.expr hleft).bind
  intro l _
  split
  · cases l with
    | bool b =>
      dsimp only
      split
      · exact keeps_pure (π.plain rfl)
      · apply (h.expr hright).bind
        intro r _
        cases r with
        | bool r => exact keeps_pure (π.plain rfl)
        | void | int | float | str | tuple | func | struct | method => exact keeps_fail rfl
    | void | int | float | str | tuple | func | struct | method => exact keeps_fail rfl
  · apply (h.expr hright).bind
    intro r _
    exact keeps_ofExcept (fun _ hok => π.plain (BinaryOp.isPlain_of_apply hok))
      fun _ => BinaryOp.isLocal_of_apply

/-- Every form of expression keeps the contract if the evaluator of its parts does. -/
theorem exprForm (h : π.Governs ev) {e : Expr} (he : e.Obeys π.body) :
    π.Keeps false (ev.exprForm e) π.value π.error := by
  have hparts : ∀ p ∈ e.parts, p.Obeys π.body := fun p hp => he.part hp
  cases e with
  | int | float | str => exact keeps_pure (π.plain rfl)
  | ident span name => exact keeps_identifier name
  | binary span op left right =>
    exact h.binary (hparts left (by simp [Expr.parts])) (hparts right (by simp [Expr.parts]))
  | unary span op operand =>
    apply (h.expr (hparts operand (by simp [Expr.parts]))).bind
    intro v _
    exact keeps_ofExcept (fun _ hok => π.plain (UnaryOp.isPlain_of_apply hok))
      fun _ => UnaryOp.isLocal_of_apply
  | call span callee args =>
    exact h.call (hparts callee (by simp [Expr.parts]))
      fun arg harg => hparts arg (by simp [Expr.parts, harg])
  | func span params body => exact fun m _ => ⟨.refl, π.func.mpr he.literal⟩
  | select span base name => exact h.select (hparts base (by simp [Expr.parts]))
  | composite span typeName fields => exact h.composite hparts

theorem effect {ε : Type} {X : ε → Prop} {binds : Bool} {x : Eval ε Unit}
    (hx : π.Keeps binds x (fun _ => True) X) :
    π.Keeps binds (effect x) π.value X :=
  hx.bind fun _ _ => keeps_pure (π.plain rfl)

/-- Every form of statement keeps the contract if the evaluator of its parts does. -/
theorem stmtForm (h : π.Governs ev) {budget : Nat} (label : Option String) {s : Stmt}
    (hs : s.Obeys π.body) :
    π.Keeps s.binds (ev.stmtForm budget label s) π.value (π.exit (s.Escapes label)) := by
  have hexprs : ∀ e ∈ s.exprs, e.Obeys π.body := fun e he => hs.expr he
  have hparts : ∀ t ∈ s.parts, t.Obeys π.body := fun t ht => hs.part ht
  cases s with
  | empty => exact keeps_pure (π.plain rfl)
  | expr span e => exact (h.expr (hexprs e (by simp [Stmt.exprs]))).asStmt
  | define span names values => exact effect (h.define hexprs).asStmt
  | assign span targets op values =>
    cases op with
    | none => exact effect (h.assign hexprs).asStmt
    | some op => exact effect (h.assignOp hexprs).asStmt
  | incDec span target increment => exact effect keeps_incDec.asStmt
  | block span body =>
    exact (effect (h.block hparts)).wider fun j ⟨t, ht, hj⟩ => .block ht hj
  | branch span first cond body otherwise =>
    have hfirst : ∀ t ∈ first.toList, t.Obeys π.body :=
      fun t ht => hparts t (List.mem_append_left _ ht)
    have hotherwise : ∀ t ∈ otherwise.toList, t.Obeys π.body :=
      fun t ht => hparts t (List.mem_append_right _ (List.mem_cons_of_mem _ ht))
    have hcond : cond.Obeys π.body := hexprs cond (by simp [Stmt.exprs])
    have hbody : body.Obeys π.body := hparts body (by simp [Stmt.parts])
    apply (effect (h.branch hfirst hcond hbody hotherwise)).wider
    rintro j (⟨t, ht, hj⟩ | ⟨t, ht, hj⟩ | ⟨t, ht, hj⟩)
    · obtain rfl := Option.mem_toList.mp ht
      exact .branchFirst hj
    · obtain rfl := List.mem_singleton.mp ht
      exact .branchBody hj
    · obtain rfl := Option.mem_toList.mp ht
      exact .branchOtherwise hj
  | loop span first cond post body =>
    have hfirst : ∀ t ∈ first.toList, t.Obeys π.body :=
      fun t ht => hparts t (List.mem_append_left _ ht)
    have hpost : ∀ t ∈ post.toList, t.Obeys π.body :=
      fun t ht => hparts t (List.mem_append_right _ (List.mem_cons_of_mem _ ht))
    have hbody : body.Obeys π.body := hparts body (by simp [Stmt.parts])
    apply (effect (h.loop budget label hfirst hexprs hpost hbody)).wider
    rintro j (⟨t, ht, hj⟩ | ⟨t, ht, hj⟩ | ⟨hj, htaken⟩)
    · obtain rfl := Option.mem_toList.mp ht
      exact .loopFirst hj
    · obtain rfl := Option.mem_toList.mp ht
      exact .loopPost hj
    · exact .loopBody hj htaken
  | jump span kind target =>
    cases kind with
    | leaveLoop => exact keeps_raise (X := π.exit _) .leaveLoop
    | nextRound => exact keeps_raise (X := π.exit _) .nextRound
    | goto | fallthrough => exact keeps_raise (X := π.exit _) (error_of rfl)
  | result span values =>
    apply (h.spreadExprs hexprs).asStmt.bind
    exact fun vs hvs => keeps_raise (X := π.exit _) ⟨.result, hvs⟩
  | labeled span label body =>
    have hbody : body.Obeys π.body := hparts body (by simp [Stmt.parts])
    exact (h.labeled hbody).wider fun j ⟨hj, hne⟩ => .labeled hj hne
  | switch span first tag clauses =>
    have hfirst : ∀ t ∈ first.toList, t.Obeys π.body :=
      fun t ht => hparts t (List.mem_append_left _ ht)
    have htag : ∀ e ∈ tag.toList, e.Obeys π.body :=
      fun e he => hexprs e (List.mem_append_left _ he)
    have hvalues : ∀ c ∈ clauses, ∀ e ∈ c.values.getD [], e.Obeys π.body :=
      fun c hc e he => hexprs e (List.mem_append_right _ (List.mem_flatMap.mpr ⟨c, hc, he⟩))
    have hbodies : ∀ c ∈ clauses, ∀ t ∈ c.body, t.Obeys π.body :=
      fun c hc t ht => hparts t (List.mem_append_right _ (List.mem_flatMap.mpr ⟨c, hc, ht⟩))
    apply (effect (h.switch label hfirst htag hvalues hbodies)).wider
    rintro j ⟨⟨t, ht, hj⟩ | ⟨c, hc, t, ht, hj⟩, htaken⟩
    · obtain rfl := Option.mem_toList.mp ht
      exact .switchFirst hj htaken
    · exact .switchClause hc ht hj htaken
  | constants span specs =>
    exact effect (h.constants fun spec hspec e he =>
      hexprs e (List.mem_flatMap.mpr ⟨spec, hspec, he⟩)).asStmt

end Governs

/-- **Evaluation keeps to every policy.** The induction is on the budget: the parts of a form,
bodies of called functions included, are evaluated with a smaller one. -/
theorem governs (π : Policy) (budget : Nat) : π.Governs (evaluator budget) := by
  induction budget with
  | zero =>
    constructor
    · exact fun _ => keeps_exhausted
    · exact fun _ _ _ => keeps_exhausted
  | succ budget ih =>
    constructor
    · intro e he
      have hform : π.Keeps false (((evaluator budget).exprForm e).mapExit (·.locate e.span))
          π.value π.error :=
        ((ih.exprForm he).exits fun _ => error_locate.mpr).mapExit
      intro m hm
      unfold Eval.Ends
      simp only [evaluator, onOwnStack_eq]
      exact hform m hm
    · intro label s hs
      have hform : π.Keeps s.binds
          (((evaluator budget).stmtForm budget label s).mapExit (·.locate s.span))
          π.value (π.exit (s.Escapes label)) :=
        ((ih.stmtForm label hs).exits fun _ => exit_locate.mpr).mapExit
      intro m hm
      unfold Eval.Ends
      simp only [evaluator, onOwnStack_eq]
      exact hform m hm

/-! ### Running programs -/

/-- A statement that is run to its end turns the jumps that escape it into errors. -/
theorem keeps_runStmt (π : Policy) (budget : Nat) {s : Stmt} (hs : s.Obeys π.body) :
    π.Keeps s.binds (runStmt budget s) π.value
      fun e => (∀ j, s.Escapes none j → π.cause j.cause) → π.error e := by
  have hstmt : π.Keeps s.binds (evalStmt budget s) π.value (π.exit (s.Escapes none)) :=
    (π.governs budget).stmt none hs
  apply Keeps.mapExit
  apply hstmt.exits
  intro x hx hcause
  cases x with
  | failed e => exact hx
  | leaveLoop | nextRound => exact hcause _ hx
  | result vs => exact hcause _ hx.1

theorem keeps_runProgramFrom (π : Policy) (budget : Nat) {program : List Stmt}
    (hobeys : ∀ s ∈ program, s.Obeys π.body) {last : Value} (hlast : π.value last) :
    π.Keeps true (runProgramFrom budget last program) π.value
      fun e => (∀ j, Stmt.AnyEscapes program j → π.cause j.cause) → π.error e := by
  induction program generalizing last with
  | nil => exact keeps_pure hlast
  | cons s rest ih =>
    have hfirst : π.Keeps true (runStmt budget s) π.value
        fun e => (∀ j, Stmt.AnyEscapes (s :: rest) j → π.cause j.cause) → π.error e := by
      apply (keeps_runStmt π budget (hobeys s (List.mem_cons_self ..))).lift.exits
      exact fun e he hcause => he fun j hj => hcause j ⟨s, List.mem_cons_self .., hj⟩
    apply hfirst.bind
    intro v hv
    apply (ih (fun s' hs' => hobeys s' (List.mem_cons_of_mem _ hs')) hv).exits
    intro e he hcause
    exact he fun j ⟨s', hs', hj⟩ => hcause j ⟨s', List.mem_cons_of_mem _ hs', hj⟩

theorem keeps_runProgram (π : Policy) (budget : Nat) {program : List Stmt}
    (hobeys : ∀ s ∈ program, s.Obeys π.body) :
    π.Keeps true (runProgram budget program) π.value
      fun e => (∀ j, Stmt.AnyEscapes program j → π.cause j.cause) → π.error e :=
  keeps_runProgramFrom π budget hobeys (π.plain rfl)

end Policy

end ScriptEngine
