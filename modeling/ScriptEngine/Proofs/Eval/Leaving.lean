import ScriptEngine.Proofs.Eval.Budget
import ScriptEngine.Proofs.Eval.Results

/-!
Leaving a function from any depth of its statements.

`Inside` says how the evaluation of a statement comes to a statement directly inside it: to a
statement of a block, to an arm of a condition, to the body of a loop in any round, and so on. A
`return` or an error at that place ends the enclosing statement too (`Inside.run_eq`), whatever that
is, and so every statement around it and the call.

That nothing else is evaluated on the way out is said with `confined K`, which evaluates only what
`K` allows: if that is enough to come to the place and to evaluate what stands there, it is enough
for the whole call. Main statement: `leaving_ends_call`.
-/

namespace ScriptEngine

open Evaluator

/-! ### Confined evaluation -/

open Classical in
/-- The evaluator that evaluates a node from a machine only if `K` holds of them, at every depth. -/
noncomputable def confined (K : Node → Machine → Prop) : Nat → Evaluator
  | 0 => .exhausted
  | n + 1 => {
      stmt := fun label s m =>
        if K (.stmt label s) m then
          (((confined K n).stmtForm n label s).mapExit (·.locate s.span)) m
        else .exhausted
      expr := fun e m =>
        if K (.expr e) m then
          (((confined K n).exprForm e).mapExit (·.locate e.span)) m
        else .exhausted }

section Confined

variable {K : Node → Machine → Prop} {n : Nat} {label : Option String} {s : Stmt} {e : Expr}
  {m : Machine}

theorem confined_stmt (h : K (.stmt label s) m) : (confined K (n + 1)).stmt label s m =
    (((confined K n).stmtForm n label s).mapExit (·.locate s.span)) m :=
  if_pos h

theorem confined_expr (h : K (.expr e) m) : (confined K (n + 1)).expr e m =
    (((confined K n).exprForm e).mapExit (·.locate e.span)) m :=
  if_pos h

/-- If everything is allowed, evaluation is not confined. -/
theorem confined_univ (n : Nat) : confined (fun _ _ => True) n = evaluator n := by
  induction n with
  | zero => rfl
  | succ n ih =>
    have hstmt : (confined (fun _ _ => True) (n + 1)).stmt = (evaluator (n + 1)).stmt := by
      funext label s m
      rw [confined_stmt trivial, ih, evaluator_stmt]
    have hexpr : (confined (fun _ _ => True) (n + 1)).expr = (evaluator (n + 1)).expr := by
      funext e m
      rw [confined_expr trivial, ih, evaluator_expr]
    calc confined (fun _ _ => True) (n + 1)
        = ⟨(confined (fun _ _ => True) (n + 1)).stmt,
            (confined (fun _ _ => True) (n + 1)).expr⟩ := rfl
      _ = ⟨(evaluator (n + 1)).stmt, (evaluator (n + 1)).expr⟩ := by rw [hstmt, hexpr]

open Classical in
/-- A computation that answers only from some machines. -/
theorem approximates_ite {ε α : Type} {P : Machine → Prop} {x y : Eval ε α}
    (h : x.Approximates True (fun _ => True) y) :
    Eval.Approximates True (fun _ => True) (fun m => if P m then x m else .exhausted) y where
  run m hm := by
    by_cases hP : P m
    · simp only [if_pos hP]
      exact h.run m hm
    · exact .inr ⟨trivial, if_neg hP⟩
  keeps := h.keeps

/-- Where confined evaluation has an answer, it is that of evaluation. -/
theorem confined_approximates (K : Node → Machine → Prop) (n : Nat) :
    (confined K n).Approximates True (fun _ => True) (evaluator n) := by
  induction n with
  | zero => exact ⟨fun _ => approximates_exhausted _, fun _ _ => approximates_exhausted _⟩
  | succ n ih =>
    constructor
    · intro e
      rw [evaluator_expr]
      exact approximates_ite ((ih.exprForm (.inr trivial)).mapExit _)
    · intro label s
      rw [evaluator_stmt]
      exact approximates_ite ((ih.stmtForm (.inl rfl) label (.inr fun _ => trivial)).mapExit _)

end Confined

/-! ### Statements inside statements -/

/-- The evaluation of a statement. -/
structure Visit where
  budget : Nat
  label : Option String
  stmt : Stmt
  machine : Machine

/-- How an evaluation ends that is confined to `K`. -/
noncomputable def Visit.run (K : Node → Machine → Prop) (v : Visit) : Run Exit Value :=
  (confined K v.budget).stmt v.label v.stmt v.machine

/-- A number of complete rounds, one after the other. -/
inductive Rounds {ε : Type} (round : Eval ε Bool) : Nat → Machine → Machine → Prop where
  | none {m} : Rounds round 0 m m
  | again {j m m₁ m'} : round m = .value true m₁ → Rounds round j m₁ m' →
      Rounds round (j + 1) m m'

/-- The evaluation of a statement comes to that of a statement directly inside it. Everything that
is evaluated before is allowed by `K`. -/
inductive Inside (K : Node → Machine → Prop) : Visit → Visit → Prop where
  | block {n label span before s after m m₁} :
      K (.stmt label (.block span (before ++ s :: after))) m →
      (confined K n).stmts before m.opened = .value () m₁ →
      Inside K ⟨n + 1, label, .block span (before ++ s :: after), m⟩ ⟨n, none, s, m₁⟩
  | branchFirst {n label span first cond body otherwise m} :
      K (.stmt label (.branch span (some first) cond body otherwise)) m →
      Inside K ⟨n + 1, label, .branch span (some first) cond body otherwise, m⟩
        ⟨n, none, first, m.opened⟩
  | branchArm {n label span first cond body otherwise m m₁ b m₂ s} :
      K (.stmt label (.branch span first cond body otherwise)) m →
      (confined K n).optional first m.opened = .value () m₁ →
      (confined K n).condition cond m₁ = .value b m₂ →
      (if b then some body else otherwise) = some s →
      Inside K ⟨n + 1, label, .branch span first cond body otherwise, m⟩ ⟨n, none, s, m₂⟩
  | loopFirst {n label span first cond post body m} :
      K (.stmt label (.loop span (some first) cond post body)) m →
      Inside K ⟨n + 1, label, .loop span (some first) cond post body, m⟩
        ⟨n, none, first, m.opened⟩
  | loopBody {n label span first cond post body m m₁ j m₂ m₃} :
      K (.stmt label (.loop span first cond post body)) m →
      (confined K n).optional first m.opened = .value () m₁ →
      Rounds ((confined K n).round label cond post body) j m₁ m₂ → j < n →
      (confined K n).goesOn cond m₂ = .value true m₃ →
      Inside K ⟨n + 1, label, .loop span first cond post body, m⟩ ⟨n, none, body, m₃⟩
  | loopPost {n label span first cond post body m m₁ j m₂ m₃ m₄} :
      K (.stmt label (.loop span first cond (some post) body)) m →
      (confined K n).optional first m.opened = .value () m₁ →
      Rounds ((confined K n).round label cond (some post) body) j m₁ m₂ → j < n →
      (confined K n).goesOn cond m₂ = .value true m₃ →
      (confined K n).loopBody label body m₃ = .value true m₄ →
      Inside K ⟨n + 1, label, .loop span first cond (some post) body, m⟩ ⟨n, none, post, m₄⟩
  | labeled {n label span own body m} :
      K (.stmt label (.labeled span own body)) m →
      Inside K ⟨n + 1, label, .labeled span own body, m⟩ ⟨n, some own, body, m⟩
  | switchFirst {n label span first tag clauses m} :
      K (.stmt label (.switch span (some first) tag clauses)) m →
      Inside K ⟨n + 1, label, .switch span (some first) tag clauses, m⟩
        ⟨n, none, first, m.opened⟩
  | switchClause {n label span first tag clauses m m₁ value m₂ chosen m₃ c before s after m₄} :
      K (.stmt label (.switch span first tag clauses)) m →
      (confined K n).optional first m.opened = .value () m₁ →
      (confined K n).tagValue tag m₁ = .value value m₂ →
      (confined K n).chosenClause tag.isSome value clauses m₂ = .value chosen m₃ →
      chosen.or (clauses.find? (·.values.isNone)) = some c → c.body = before ++ s :: after →
      (confined K n).stmts before m₃.opened = .value () m₄ →
      Inside K ⟨n + 1, label, .switch span first tag clauses, m⟩ ⟨n, none, s, m₄⟩

/-- The evaluation of a statement comes to that of a statement at any depth inside it. -/
def Comes (K : Node → Machine → Prop) : Visit → Visit → Prop :=
  Relation.ReflTransGen (Inside K)

/-! ### Exits that nothing takes -/

/-- A `return`, or an error whose place is known. -/
def Exit.IsFinal : Exit → Prop
  | .result _ => True
  | .failed e => e.span ≠ none
  | _ => False

section IsFinal

variable {x : Exit} (h : x.IsFinal)

include h

theorem Exit.locate_of_isFinal (span : Span) : x.locate span = x := by
  cases x with
  | failed e =>
    obtain ⟨s, hs⟩ := Option.ne_none_iff_exists'.mp h
    simp only [locate, EvalError.locate, hs]
  | result => rfl
  | leaveLoop | nextRound => exact h.elim

theorem Exit.inLoop_of_isFinal (own : Option String) : x.inLoop own = .exit x := by
  cases x with
  | failed | result => rfl
  | leaveLoop | nextRound => exact h.elim

theorem Exit.inSwitch_of_isFinal (own : Option String) : x.inSwitch own = some x := by
  cases x with
  | failed | result => rfl
  | leaveLoop | nextRound => exact h.elim

theorem Exit.inLabeled_of_isFinal (own : String) : x.inLabeled own = some x := by
  cases x with
  | failed | result => rfl
  | leaveLoop | nextRound => exact h.elim

end IsFinal

section Inside

variable {K : Node → Machine → Prop} {n j : Nat} {ev : Evaluator} {label : Option String}
  {s : Stmt} {m m₁ m' q : Machine} {x : Exit} {v w : Visit}

theorem stmts_append {before rest : List Stmt} (h : ev.stmts before m = .value () m₁) :
    ev.stmts (before ++ rest) m = ev.stmts rest m₁ := by
  induction before generalizing m with
  | nil =>
    cases h
    rfl
  | cons s before ih =>
    obtain ⟨u, m₂, hs, hbefore⟩ := Eval.bind_eq_value.mp h
    simp only [List.cons_append, stmts, bind, Eval.bind, hs]
    exact ih hbefore

theorem stmts_cons_exit {after : List Stmt} (h : ev.stmt none s m = .exit x q) :
    ev.stmts (s :: after) m = .exit x q :=
  Eval.bind_of_exit h

theorem optional_exit (h : ev.stmt none s m = .exit x q) :
    ev.optional (some s) m = .exit x q :=
  Eval.bind_of_exit h

theorem inFrame_exit {ε α : Type} {y : Eval ε α} {e : ε} (h : y m.opened = .exit e q) :
    Eval.inFrame y m = .exit e q.closed := by
  change y.leaving Machine.closed m.opened = _
  simp only [Eval.leaving, h]

theorem Rounds.repeatWhile_eq {ε : Type} {round : Eval ε Bool} (h : Rounds round j m m') (k : Nat) :
    Eval.repeatWhile round (j + k) m = Eval.repeatWhile round k m' := by
  induction h with
  | none => rw [Nat.zero_add]
  | again hround _ ih =>
    rw [Nat.succ_add, Eval.repeatWhile, hround]
    exact ih

/-- What leaves the form of a statement leaves the statement. -/
theorem confined_stmt_exit (hK : K (.stmt label s) m)
    (h : (confined K n).stmtForm n label s m = .exit x q) (hx : x.IsFinal) :
    (confined K (n + 1)).stmt label s m = .exit x q := by
  rw [confined_stmt hK]
  simp only [Eval.mapExit, Eval.handle, h, Exit.locate_of_isFinal hx]
  rfl

theorem effect_exit {ε : Type} {y : Eval ε Unit} {e : ε} (h : y m = .exit e q) :
    effect y m = .exit e q :=
  Eval.bind_of_exit h

/-! ### Each place inside a statement -/

section Places

variable {first post otherwise : Option Stmt} {cond : Option Expr} {body : Stmt}
  {m₂ m₃ m₄ : Machine}

theorem block_exit {before after : List Stmt} (hbefore : ev.stmts before m.opened = .value () m₁)
    (h : ev.stmt none s m₁ = .exit x q) : ev.block (before ++ s :: after) m = .exit x q.closed :=
  inFrame_exit ((stmts_append hbefore).trans (stmts_cons_exit h))

theorem branch_first_exit {e : Expr} (h : ev.stmt none s m.opened = .exit x q) :
    ev.branch (some s) e body otherwise m = .exit x q.closed :=
  inFrame_exit (Eval.bind_of_exit (optional_exit h))

theorem branch_arm_exit {e : Expr} {b : Bool} (hfirst : ev.optional first m.opened = .value () m₁)
    (hcond : ev.condition e m₁ = .value b m₂)
    (harm : (if b then some body else otherwise) = some s) (h : ev.stmt none s m₂ = .exit x q) :
    ev.branch first e body otherwise m = .exit x q.closed := by
  have hrun : ev.optional (if b then some body else otherwise) m₂ = .exit x q :=
    harm ▸ optional_exit h
  apply inFrame_exit
  simp only [bind, Eval.bind, hfirst, Eval.asStmt, Eval.mapExit, Eval.handle, hcond]
  cases b <;> exact hrun

theorem loop_first_exit (h : ev.stmt none s m.opened = .exit x q) :
    ev.loop n label (some s) cond post body m = .exit x q.closed :=
  inFrame_exit (Eval.bind_of_exit (optional_exit h))

/-- A loop that ends in the exit of a round. -/
theorem loop_round_exit (hfirst : ev.optional first m.opened = .value () m₁)
    (hrounds : Rounds (ev.round label cond post body) j m₁ m₂) (hj : j < n)
    (h : ev.round label cond post body m₂ = .exit x q) :
    ev.loop n label first cond post body m = .exit x q.closed := by
  apply inFrame_exit
  simp only [bind, Eval.bind, hfirst]
  obtain ⟨i, rfl⟩ : ∃ i, n = j + (i + 1) := ⟨n - j - 1, by omega⟩
  rw [hrounds.repeatWhile_eq, Eval.repeatWhile, h]

theorem round_body_exit (hgoes : ev.goesOn cond m = .value true m₁)
    (h : ev.stmt none body m₁ = .exit x q) (hx : x.IsFinal) :
    ev.round label cond post body m = .exit x q := by
  simp only [Evaluator.round, loopBody, bind, Eval.bind, hgoes, if_true, Eval.handle, h,
    Exit.inLoop_of_isFinal hx]
  rfl

theorem round_post_exit (hgoes : ev.goesOn cond m = .value true m₁)
    (hbody : ev.loopBody label body m₁ = .value true m₂) (h : ev.stmt none s m₂ = .exit x q) :
    ev.round label cond (some s) body m = .exit x q := by
  simp only [Evaluator.round, bind, Eval.bind, hgoes, if_true, hbody, optional_exit h]

theorem labeled_exit {own : String} (h : ev.stmt (some own) body m = .exit x q) (hx : x.IsFinal) :
    ev.labeled own body m = .exit x q := by
  simp only [labeled, Eval.handle, h, Exit.inLabeled_of_isFinal hx]
  rfl

theorem switch_exit {tag : Option Expr} {clauses : List (Clause Expr Stmt)}
    (h : ev.switchBody first tag clauses m.opened = .exit x q) (hx : x.IsFinal) :
    ev.switch label first tag clauses m = .exit x q.closed := by
  simp only [switch, Eval.handle, inFrame_exit h, Exit.inSwitch_of_isFinal hx]
  rfl

theorem switch_first_exit {tag : Option Expr} {clauses : List (Clause Expr Stmt)}
    (h : ev.stmt none s m.opened = .exit x q) (hx : x.IsFinal) :
    ev.switch label (some s) tag clauses m = .exit x q.closed :=
  switch_exit (Eval.bind_of_exit (optional_exit h)) hx

theorem switch_clause_exit {tag : Option Expr} {clauses : List (Clause Expr Stmt)} {value : Value}
    {chosen : Option (Clause Expr Stmt)} {c : Clause Expr Stmt} {before after : List Stmt}
    (hfirst : ev.optional first m.opened = .value () m₁)
    (htag : ev.tagValue tag m₁ = .value value m₂)
    (hchosen : ev.chosenClause tag.isSome value clauses m₂ = .value chosen m₃)
    (hclause : chosen.or (clauses.find? (·.values.isNone)) = some c)
    (hbody : c.body = before ++ s :: after) (hbefore : ev.stmts before m₃.opened = .value () m₄)
    (h : ev.stmt none s m₄ = .exit x q) (hx : x.IsFinal) :
    ev.switch label first tag clauses m = .exit x q.closed.closed := by
  refine switch_exit ?_ hx
  have hrun : Eval.inFrame (ev.stmts c.body) m₃ = .exit x q.closed := by
    rw [hbody]
    exact block_exit hbefore h
  simp only [switchBody, bind, Eval.bind, hfirst, Eval.asStmt, Eval.mapExit, Eval.handle, htag,
    hchosen, hclause]
  exact hrun

end Places

/-- **No statement takes a `return` or an error from inside.** It ends in the same exit and does
nothing more than to leave its frames; there is one case for each place inside a statement. -/
theorem Inside.run_eq (h : Inside K v w) (hw : w.run K = .exit x q) (hx : x.IsFinal) :
    ∃ env, v.run K = .exit x { q with env } := by
  cases h with
  | block hK hbefore =>
    refine ⟨q.env.pop, confined_stmt_exit (q := q.closed) hK ?_ hx⟩
    exact effect_exit (block_exit hbefore hw)
  | branchFirst hK =>
    refine ⟨q.env.pop, confined_stmt_exit (q := q.closed) hK ?_ hx⟩
    exact effect_exit (branch_first_exit hw)
  | branchArm hK hfirst hcond harm =>
    refine ⟨q.env.pop, confined_stmt_exit (q := q.closed) hK ?_ hx⟩
    exact effect_exit (branch_arm_exit hfirst hcond harm hw)
  | loopFirst hK =>
    refine ⟨q.env.pop, confined_stmt_exit (q := q.closed) hK ?_ hx⟩
    exact effect_exit (loop_first_exit hw)
  | loopBody hK hfirst hrounds hj hgoes =>
    refine ⟨q.env.pop, confined_stmt_exit (q := q.closed) hK ?_ hx⟩
    exact effect_exit (loop_round_exit hfirst hrounds hj (round_body_exit hgoes hw hx))
  | loopPost hK hfirst hrounds hj hgoes hbody =>
    refine ⟨q.env.pop, confined_stmt_exit (q := q.closed) hK ?_ hx⟩
    exact effect_exit (loop_round_exit hfirst hrounds hj (round_post_exit hgoes hbody hw))
  | labeled hK => exact ⟨q.env, confined_stmt_exit hK (labeled_exit hw hx) hx⟩
  | switchFirst hK =>
    refine ⟨q.env.pop, confined_stmt_exit (q := q.closed) hK ?_ hx⟩
    exact effect_exit (switch_first_exit hw hx)
  | switchClause hK hfirst htag hchosen hclause hbody hbefore =>
    refine ⟨q.env.pop.pop, confined_stmt_exit (q := q.closed.closed) hK ?_ hx⟩
    exact effect_exit (switch_clause_exit hfirst htag hchosen hclause hbody hbefore hw hx)

/-- From any depth. -/
theorem Comes.run_eq (h : Comes K v w) (hw : w.run K = .exit x q) (hx : x.IsFinal) :
    ∃ env, v.run K = .exit x { q with env } := by
  induction h using Relation.ReflTransGen.head_induction_on with
  | refl => exact ⟨q.env, hw⟩
  | head hinside _ ih =>
    obtain ⟨env, hrun⟩ := ih
    obtain ⟨env', hrun'⟩ := hinside.run_eq hrun hx
    exact ⟨env', hrun'⟩

end Inside

/-! ### Leaving a call -/

section Calls

variable {K : Node → Machine → Prop} {n : Nat} {callee : Value} {args : List Value} {name : String}
  {span : Option Span} {m m₀ q : Machine} {a : Activation} {x : Exit} {w : Visit}

/-- The call comes to the evaluation `w`: its arguments are bound, and its body comes to `w`. -/
structure CallComes (K : Node → Machine → Prop) (n : Nat) (m : Machine) (a : Activation)
    (w : Visit) : Prop where
  arity : a.args.length = a.code.params.length
  room : m.calls.full? = none
  body : ∃ m₀, bindParams a.code.params a.args (enterCall a.code a.frame m) = .value () m₀ ∧
    Comes K ⟨n, none, a.code.body, m₀⟩ w

/-- What leaves the body from any depth leaves the call. -/
theorem CallComes.callValue (h : CallComes K n m a w)
    (ha : m.activation? args name span callee = some a) (hw : w.run K = .exit x q)
    (hx : x.IsFinal) :
    ∃ env, (confined K n).callValue callee args name span m =
      callResult m.env m.iota (.exit x { q with env }) := by
  obtain ⟨hlen, hfull, m₀, hbound, hcomes⟩ := h
  obtain ⟨env, hrun⟩ := hcomes.run_eq hw hx
  refine ⟨env, ?_⟩
  have hbody : (confined K n).body a.code a.args (enterCall a.code a.frame m) =
      .exit x { q with env } := by
    simp only [Evaluator.body, bind, Eval.bind, Eval.asStmt, Eval.mapExit, Eval.handle, hbound]
    exact hrun
  rw [callValue_of_activation ha, callFunction_of_enters hlen hfull, hbody]

/-- Where confined evaluation calls to an end, evaluation does. -/
theorem callValue_of_confined {r : Run EvalError Value} (hr : r ≠ .exhausted)
    (h : (confined K n).callValue callee args name span m = r) :
    callValue n callee args name span m = r := by
  have happrox : ((confined K n).callValue callee args name span).Approximates True (fun _ => True)
      (callValue n callee args name span) :=
    (confined_approximates K n).callValue trivial callee args name span
  rcases happrox.run m trivial with heq | ⟨-, hexhausted⟩
  · exact heq.symm.trans h
  · exact absurd (h.symm.trans hexhausted) hr

/-- A `return` whose operands have values. -/
theorem confined_result {k : Nat} {label : Option String} {s : Span} {values : List Expr}
    {vs : List Value} (hK : K (.stmt label (.result s values)) m)
    (h : (confined K k).spreadExprs values m = .value vs q) :
    (confined K (k + 1)).stmt label (.result s values) m = .exit (.result vs) q := by
  refine confined_stmt_exit hK ?_ trivial
  simp only [stmtForm, bind, Eval.bind, Eval.asStmt, Eval.mapExit, Eval.handle, h]
  rfl

/-- The place of an error is known where it leaves a statement. -/
theorem Visit.isFinal_of_failed {e : EvalError} (h : w.run K = .exit (.failed e) q) :
    (Exit.failed e).IsFinal := by
  obtain ⟨budget, label, s, p⟩ := w
  cases budget with
  | zero => cases h
  | succ k =>
    by_cases hK : K (.stmt label s) p
    · rw [Visit.run, confined_stmt hK] at h
      simp only [Eval.mapExit, Eval.handle] at h
      cases hform : (confined K k).stmtForm k label s p with
      | value | exhausted =>
        rw [hform] at h
        cases h
      | exit x p' =>
        rw [hform] at h
        cases x with
        | failed e₀ =>
          cases h
          simp [Exit.IsFinal]
        | leaveLoop | nextRound | result => cases h
    · have hrun : (Visit.mk (k + 1) label s p).run K = .exhausted := if_neg hK
      rw [hrun] at h
      cases h

end Calls

/-- **A `return` ends its function, and nothing takes it.** Let a call come to a statement in its
body, inside any statements to any depth and in any round of the loops among these, with no more
than what `K` allows.

- If the statement is a `return` whose operands have the values `vs`, the call has the value made of
  these, for the caller, whose frames are current again.
- If the statement fails, the call fails with the same cause, and so the same message, at the same
  place.

In both cases what the call leaves is what the statement left, and the call needs no evaluation that
`K` does not allow: nothing else of the body is evaluated. -/
theorem leaving_ends_call {K : Node → Machine → Prop} {n : Nat} {callee : Value} {args : List Value}
    {name : String} {span : Option Span} {m : Machine} {a : Activation} {w : Visit}
    (ha : m.activation? args name span callee = some a) (h : CallComes K n m a w) :
    (∀ k label s values p vs q, w = ⟨k + 1, label, .result s values, p⟩ →
      K (.stmt label (.result s values)) p →
      (confined K k).spreadExprs values p = .value vs q →
      (confined K n).callValue callee args name span m =
          .value (.ofResults vs) (leaveCall m.env m.iota q) ∧
        callValue n callee args name span m =
          .value (.ofResults vs) (leaveCall m.env m.iota q)) ∧
    ∀ e q, w.run K = .exit (.failed e) q →
      ∃ e', (confined K n).callValue callee args name span m =
          .exit e' (leaveCall m.env m.iota q) ∧
        callValue n callee args name span m = .exit e' (leaveCall m.env m.iota q) ∧
        e'.cause = e.cause ∧ e'.message = e.message ∧ e'.span = e.span := by
  constructor
  · rintro k label s values p vs q rfl hK hvalues
    obtain ⟨env, hcall⟩ := h.callValue ha (confined_result hK hvalues) trivial
    exact ⟨hcall, callValue_of_confined (by simp) hcall⟩
  · intro e q hw
    obtain ⟨env, hcall⟩ := h.callValue ha hw (Visit.isFinal_of_failed hw)
    have hcause : (e.trace q.calls.capture).cause = e.cause := EvalError.cause_trace
    exact ⟨e.trace q.calls.capture, hcall, callValue_of_confined (by simp) hcall, hcause,
      congrArg Cause.message hcause, EvalError.span_trace⟩

/-- `y++`. -/
def unreached : Stmt :=
  .incDec default "y" true

/-- `func() { outer: for ; ; y++ { switch { default: return 1, 2 }; y++ } }`. -/
def returningPair : Function :=
  ⟨[], .labeled default "outer" (.loop default none none (some unreached) (.block default
    [.switch default none none [⟨none, [.result default [.int default 1, .int default 2]]⟩],
      unreached])), ⟨0⟩⟩

/-- Everything may be evaluated but `y++`. -/
def SkipsUnreached (t : Node) (_ : Machine) : Prop :=
  t ≠ .stmt none unreached

theorem skipsUnreached_stmt {label : Option String} {s : Stmt} {m : Machine}
    (h : ∀ span name up, s ≠ .incDec span name up) : SkipsUnreached (.stmt label s) m := by
  simp [SkipsUnreached, unreached, h]

/-- A `return` from a switch in a labeled loop ends the call, even where neither the statement after
the switch nor the post statement may be evaluated. -/
theorem leaving_ends_call_unreached :
    inPackage.activation? [] "f" none (.func returningPair) =
      some ⟨returningPair, [], ⟨"f", none⟩⟩ ∧
    ∃ q, (confined SkipsUnreached 6).callValue (.func returningPair) [] "f" none inPackage =
        .value (.tuple [.int 1, .int 2]) q ∧
      callValue 6 (.func returningPair) [] "f" none inPackage =
        .value (.tuple [.int 1, .int 2]) q := by
  have ha : inPackage.activation? [] "f" none (.func returningPair) =
      some ⟨returningPair, [], ⟨"f", none⟩⟩ := rfl
  obtain ⟨p, h⟩ : ∃ p, CallComes SkipsUnreached 6 inPackage ⟨returningPair, [], ⟨"f", none⟩⟩
      ⟨2, none, .result default [.int default 1, .int default 2], p⟩ := by
    refine ⟨(enterCall returningPair ⟨"f", none⟩ inPackage).opened.opened.opened.opened, rfl, rfl,
      _, rfl, ?_⟩
    refine .head (.labeled (skipsUnreached_stmt (by simp))) ?_
    refine .head (.loopBody (skipsUnreached_stmt (by simp)) rfl .none (by decide) rfl) ?_
    refine .head (@Inside.block _ _ _ _ [] _ _ _ _ (skipsUnreached_stmt (by simp)) rfl) ?_
    exact .single (@Inside.switchClause _ _ _ _ _ _ _ _ _ _ _ _ _ _ [] _ _ _
      (skipsUnreached_stmt (by simp)) rfl rfl rfl rfl rfl rfl)
  have hint : ∀ i, (confined SkipsUnreached 1).expr (.int default i) p = .value (.int i) p := by
    intro i
    rw [confined_expr (by simp [SkipsUnreached])]
    rfl
  have hvalues : (confined SkipsUnreached 1).spreadExprs [.int default 1, .int default 2] p =
      .value [.int 1, .int 2] p := by
    simp only [spreadExprs, exprs, bind, Eval.bind, hint]
    rfl
  obtain ⟨hreturn, -⟩ := leaving_ends_call ha h
  obtain ⟨hconfined, hcall⟩ := hreturn 1 none default _ p _ p rfl
    (skipsUnreached_stmt (by simp)) hvalues
  exact ⟨ha, _, hconfined, hcall⟩

end ScriptEngine
