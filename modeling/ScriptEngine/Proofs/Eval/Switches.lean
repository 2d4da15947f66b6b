import ScriptEngine.Proofs.Eval.Budget
import ScriptEngine.Proofs.Eval.Results
import ScriptEngine.Proofs.Value.Equality

/-!
Switches with a tag.

The cases of all clauses are one list, in order (`casesOf`). They are evaluated in turn, up to the
first whose value `w` makes `t == w` true for the value `t` of the tag (`Chooses`); a value of
another kind, for which `t == w` fails, is passed over like one that differs. The switch then comes
to what the chosen arm comes to (`RunsChosen`, `settles_switch_iff`, `settles_switchBody_iff`).

Main statement: `one_equality`.
-/

namespace ScriptEngine

open Evaluator

/-! ### The choice of a clause -/

/-- The cases of clauses in order, each with the clause that it belongs to. -/
def casesOf (clauses : List (Clause Expr Stmt)) : List (Clause Expr Stmt × Expr) :=
  clauses.flatMap fun c => (c.values.getD []).map (c, ·)

/-- What the choice among cases comes to from a machine, for the tag `t`: the cases are evaluated in
turn, up to the first with a value `w` for which `t == w` is true. -/
inductive Chooses (t : Value) : List (Clause Expr Stmt × Expr) → Machine →
    Run EvalError (Option (Clause Expr Stmt)) → Prop where
  /-- No case is left. -/
  | none {m} : Chooses t [] m (.value none m)
  /-- The first case is chosen. -/
  | found {c e rest m w m'} : Settles (evalExpr · e) m (.value w m') →
      BinaryOp.eq.apply t w = .ok (.bool true) →
      Chooses t ((c, e) :: rest) m (.value (some c) m')
  /-- The first case is passed over: `t == w` is false or fails. -/
  | next {c e rest m w m₁ r} : Settles (evalExpr · e) m (.value w m₁) →
      BinaryOp.eq.apply t w ≠ .ok (.bool true) → Chooses t rest m₁ r →
      Chooses t ((c, e) :: rest) m r
  /-- The first case itself fails. -/
  | failed {c e rest m err m'} : Settles (evalExpr · e) m (.exit err m') →
      Chooses t ((c, e) :: rest) m (.exit err m')

/-- The choice among the cases `es` of the clause `c`, and `others` where none of them is chosen. -/
def Evaluator.chooseAmong (ev : Evaluator) (t : Value) (c : Clause Expr Stmt) (es : List Expr)
    (others : Eval EvalError (Option (Clause Expr Stmt))) :
    Eval EvalError (Option (Clause Expr Stmt)) := do
  if ← ev.anyCase true t es then return some c else others

section Choice

variable {t : Value} {c : Clause Expr Stmt} {e : Expr} {es : List Expr}
  {rest : List (Clause Expr Stmt × Expr)} {clauses : List (Clause Expr Stmt)} {m : Machine}
  {r : Run EvalError (Option (Clause Expr Stmt))}
  {others : Nat → Eval EvalError (Option (Clause Expr Stmt))}

theorem chooseAmong_cons (ev : Evaluator) (others : Eval EvalError (Option (Clause Expr Stmt))) :
    ev.chooseAmong t c (e :: es) others = (do
      let w ← ev.expr e
      if t.equal w then return some c else ev.chooseAmong t c es others) := by
  funext m
  simp only [chooseAmong, anyCase, caseValue, if_true, bind, Eval.bind]
  cases ev.expr e m with
  | value w m₁ => cases hw : t.equal w <;> simp only [hw] <;> rfl
  | exit | exhausted => rfl

/-- A case is chosen if its value is equal to the tag: of the same kind or not, that is what
`t == w` answers. -/
theorem chooses_cons_iff : Chooses t ((c, e) :: rest) m r ↔
    (∃ w m₁, Settles (evalExpr · e) m (.value w m₁) ∧
      if t.equal w = true then r = .value (some c) m₁ else Chooses t rest m₁ r) ∨
    ∃ err m₁, Settles (evalExpr · e) m (.exit err m₁) ∧ r = .exit err m₁ := by
  constructor
  · intro h
    cases h with
    | found hcase ht =>
      refine .inl ⟨_, _, hcase, ?_⟩
      rw [if_pos (BinaryOp.eq_apply_eq_true_iff.mp ht)]
    | next hcase ht hrest =>
      refine .inl ⟨_, _, hcase, ?_⟩
      rwa [if_neg fun heq => ht (BinaryOp.eq_apply_eq_true_iff.mpr heq)]
    | failed hcase => exact .inr ⟨_, _, hcase, rfl⟩
  · rintro (⟨w, m₁, hcase, h⟩ | ⟨err, m₁, hcase, rfl⟩)
    · split at h
      case isTrue ht =>
        subst h
        exact .found hcase (BinaryOp.eq_apply_eq_true_iff.mpr ht)
      case isFalse ht =>
        exact .next hcase (fun heq => ht (BinaryOp.eq_apply_eq_true_iff.mp heq)) h
    · exact .failed hcase

theorem settles_chooseAmong_iff (hothers : ∀ {m r}, Settles others m r ↔ Chooses t rest m r) :
    Settles (fun n => (evaluator n).chooseAmong t c es (others n)) m r ↔
      Chooses t (es.map (c, ·) ++ rest) m r := by
  induction es generalizing m with
  | nil => exact hothers
  | cons e es ih =>
    have hnext : ∀ w m₁, Settles (fun n => if t.equal w = true then pure (some c)
        else (evaluator n).chooseAmong t c es (others n)) m₁ r ↔
        if t.equal w = true then r = .value (some c) m₁
        else Chooses t (es.map (c, ·) ++ rest) m₁ r := by
      intro w m₁
      split
      · exact settles_pure_iff
      · exact ih
    simp only [chooseAmong_cons]
    refine (settles_bind_iff (steady_evalExpr e)).trans ?_
    simp only [hnext, List.map_cons, List.cons_append, chooses_cons_iff]

/-- The choice comes to what `Chooses` says. The induction is on the clauses, and within each on its
cases. -/
theorem settles_chosenClause_iff :
    Settles (fun n => (evaluator n).chosenClause true t clauses) m r ↔
      Chooses t (casesOf clauses) m r := by
  induction clauses generalizing m r with
  | nil =>
    constructor
    · intro h
      obtain rfl := settles_pure_iff.mp h
      exact .none
    · rintro ⟨⟩
      exact settles_pure_iff.mpr rfl
  | cons c rest ih => exact settles_chooseAmong_iff ih

end Choice

/-! ### The chosen arm -/

/-- The arm of a switch that was chosen, if there is one. -/
def Evaluator.arm (ev : Evaluator) : Option (Clause Expr Stmt) → Eval Exit Unit
  | some c => Eval.inFrame (ev.stmts c.body)
  | none => pure ()

/-- From `m`, a switch with the tag `t` comes to what the chosen arm comes to, or the default arm if
no case is chosen; or a case fails. -/
inductive RunsChosen (t : Value) (clauses : List (Clause Expr Stmt)) (m : Machine) :
    Run Exit Unit → Prop where
  | arm {chosen m₁ r} : Chooses t (casesOf clauses) m (.value chosen m₁) →
      Settles (fun n => (evaluator n).arm (chosen.or (clauses.find? (·.values.isNone)))) m₁ r →
      RunsChosen t clauses m r
  | failed {e m₁} : Chooses t (casesOf clauses) m (.exit e m₁) →
      RunsChosen t clauses m (.exit (.failed e) m₁)

/-- The end of a switch whose body comes to the given end: its frame is left, and the jumps that are
meant for it end here. -/
def Run.leaveSwitch (label : Option String) (s : Span) : Run Exit Unit → Run Exit Value
  | .value _ m => .value .void m.closed
  | .exit x m =>
    match x.inSwitch label with
    | none => .value .void m.closed
    | some x => .exit (x.locate s) m.closed
  | .exhausted => .exhausted

section Switch

variable {label : Option String} {s : Span} {first : Option Stmt} {t : Value}
  {clauses : List (Clause Expr Stmt)} {m m₁ m₂ : Machine}

theorem steady_chosenClause (tagged : Bool) (t : Value) (clauses : List (Clause Expr Stmt)) :
    Steady fun n => (evaluator n).chosenClause tagged t clauses :=
  fun _ _ h => (evaluator_approximates h).chosenClause tagged t clauses

theorem steady_switchBody (first : Option Stmt) (tag : Option Expr)
    (clauses : List (Clause Expr Stmt)) :
    Steady fun n => (evaluator n).switchBody first tag clauses :=
  fun _ _ h => (evaluator_approximates h).switchBody first tag clauses

theorem Run.leaveSwitch_eq_exhausted_iff (r : Run Exit Unit) :
    r.leaveSwitch label s = .exhausted ↔ r = .exhausted := by
  cases r with
  | value | exhausted => simp [Run.leaveSwitch]
  | exit x m =>
    simp only [Run.leaveSwitch]
    split <;> simp

theorem evaluator_switch (n : Nat) (tag : Option Expr) :
    (evaluator (n + 1)).stmt label (.switch s first tag clauses) m =
      ((evaluator n).switchBody first tag clauses m.opened).leaveSwitch label s := by
  have hframe : Eval.inFrame ((evaluator n).switchBody first tag clauses) m =
      ((evaluator n).switchBody first tag clauses).leaving Machine.closed m.opened := rfl
  rw [evaluator_stmt, stmtForm]
  simp only [Eval.mapExit, Eval.handle, effect, switch, bind, Eval.bind, hframe, Eval.leaving]
  cases (evaluator n).switchBody first tag clauses m.opened with
  | value | exhausted => rfl
  | exit x m' =>
    simp only [Run.leaveSwitch]
    cases x.inSwitch label <;> rfl

/-- A switch comes to what its body comes to, in a frame of its own. -/
theorem settles_switch_iff {tag : Option Expr} {r : Run Exit Value} :
    Settles (fun n => (evaluator n).stmt label (.switch s first tag clauses)) m r ↔
      ∃ r₀, Settles (fun n => (evaluator n).switchBody first tag clauses) m.opened r₀ ∧
        r = r₀.leaveSwitch label s :=
  settles_map_iff (steady_switchBody first tag clauses) Run.leaveSwitch_eq_exhausted_iff 1
    fun n => evaluator_switch n tag

/-- Once the tag has the value `t`, the body of a switch comes to what the choice for `t` says. -/
theorem settles_switchBody_iff {tag : Expr} {r : Run Exit Unit}
    (hfirst : Settles (fun n => (evaluator n).optional first) m (.value () m₁))
    (htag : Settles (evalExpr · tag) m₁ (.value t m₂)) :
    Settles (fun n => (evaluator n).switchBody first (some tag) clauses) m r ↔
      RunsChosen t clauses m₂ r := by
  have htagValue : Settles (fun n => ((evaluator n).tagValue (some tag)).asStmt) m₁
      (.value t m₂) :=
    (settles_asStmt_iff (steady_evalExpr tag)).mpr ⟨_, htag, rfl⟩
  have hchoice : ∀ r', Settles (fun n => ((evaluator n).chosenClause true t clauses).asStmt) m₂ r' ↔
      ∃ r₀, Chooses t (casesOf clauses) m₂ r₀ ∧ r' = r₀.asStmt := by
    intro r'
    simp only [settles_asStmt_iff (steady_chosenClause true t clauses), settles_chosenClause_iff]
  refine (hfirst.bind_iff.trans htagValue.bind_iff).trans
    ((settles_bind_iff (steady_chosenClause true t clauses).asStmt).trans ?_)
  simp only [hchoice]
  constructor
  · rintro (⟨chosen, m₃, ⟨r₀, hchosen, hr₀⟩, harm⟩ | ⟨x, m₃, ⟨r₀, hchosen, hr₀⟩, rfl⟩)
    · cases r₀ <;> cases hr₀
      exact .arm hchosen harm
    · cases r₀ <;> cases hr₀
      exact .failed hchosen
  · intro h
    cases h with
    | arm hchosen harm => exact .inl ⟨_, _, ⟨_, hchosen, rfl⟩, harm⟩
    | failed hchosen => exact .inr ⟨_, _, ⟨_, hchosen, rfl⟩, rfl⟩

end Switch

/-! ### One equality -/

/-- **There is one equality of values.** Whether structs are taken apart first or values are
compared as a whole, the answer is the same. It is symmetric and transitive, and a value equals
itself exactly if no NaN occurs in it. On values of one kind `==` answers by it and `!=` by its
negation; on values of different kinds both fail, and these are never equal. And whatever the value
`t` of its tag, a switch chooses its first case with a value `w` for which `t == w` is true. -/
theorem one_equality :
    (∀ v w : Value, v.equalByFields w = v.equal w) ∧
    (∀ v w : Value, v.equal w = w.equal v) ∧
    (∀ v w u : Value, v.equal w = true → w.equal u = true → v.equal u = true) ∧
    (∀ v : Value, v.equal v = true ↔ ¬ v.HoldsNaN) ∧
    (∀ v w : Value,
      if v.kindName = w.kindName then
        BinaryOp.eq.apply v w = .ok (.bool (v.equal w)) ∧
          BinaryOp.notEq.apply v w = .ok (.bool (!v.equal w))
      else
        BinaryOp.eq.apply v w = .error (.binaryTypeMismatch v.kindName w.kindName) ∧
          BinaryOp.notEq.apply v w = .error (.binaryTypeMismatch v.kindName w.kindName) ∧
          v.equal w = false) ∧
    ∀ (label : Option String) (s : Span) (first : Option Stmt) (tag : Expr)
      (clauses : List (Clause Expr Stmt)) (m m₁ : Machine) (t : Value) (m₂ : Machine),
      Settles (fun n => (evaluator n).optional first) m.opened (.value () m₁) →
      Settles (evalExpr · tag) m₁ (.value t m₂) →
      ∀ r, Settles (fun n => (evaluator n).stmt label (.switch s first (some tag) clauses)) m r ↔
        ∃ r₀, RunsChosen t clauses m₂ r₀ ∧ r = r₀.leaveSwitch label s := by
  refine ⟨Value.equalByFields_eq, fun v w => ?symm, fun v w u => Value.equal_trans,
    Value.equal_self_iff, fun v w => ?operators, ?switches⟩
  case symm => exact Bool.eq_iff_iff.mpr ⟨Value.equal_symm, Value.equal_symm⟩
  case operators =>
    split
    case isTrue h => exact BinaryOp.apply_of_kindName_eq h
    case isFalse h =>
      refine ⟨BinaryOp.apply_of_kindName_ne _ h, BinaryOp.apply_of_kindName_ne _ h, ?_⟩
      exact Bool.eq_false_iff.mpr fun heq => h (Value.kindName_eq_of_equal heq)
  case switches =>
    intro label s first tag clauses m m₁ t m₂ hfirst htag r
    simp only [settles_switch_iff, settles_switchBody_iff hfirst htag]

/-- `x` in a field of a struct and in the receiver of a method, side by side in a tuple. -/
def Value.nesting (x : Float) : Value :=
  .tuple [.struct ⟨0⟩ [.float x], .method (.float x) ⟨0⟩ "M"]

/-- The clauses `case "0": return`, `case -0.0:` and `default: return`. -/
def zeroClauses : List (Clause Expr Stmt) :=
  [⟨some [.str default "0"], [.result default []]⟩, ⟨some [.float default (-0.0)], []⟩,
    ⟨none, [.result default []]⟩]

/-- An expression without parts needs no budget for them. -/
theorem settles_evalExpr_of_form {e : Expr} {m m' : Machine} {v : Value}
    (h : (evaluator 0).exprForm e m = .value v m') : Settles (evalExpr · e) m (.value v m') := by
  refine (steady_evalExpr e).settles (n := 1) ?_ nofun
  rw [evalExpr, evaluator_expr]
  simp only [Eval.mapExit, Eval.handle, h]

/-- The two zeros are equal inside other values, and a switch on one of them chooses the other: not
the text before it, which `==` fails on, and not the default. -/
theorem one_equality_zeros :
    (Value.nesting 0.0).equal (Value.nesting (-0.0)) = true ∧
    (Value.nesting (-0.0)).equal (Value.nesting 0.0) = true ∧
    (Value.nesting 0.0).equal (Value.nesting 0.0) = true ∧
    Settles (fun n => (evaluator n).optional none) inPackage.opened
      (.value () inPackage.opened) ∧
    Settles (evalExpr · (.float default 0.0)) inPackage.opened
      (.value (.float 0.0) inPackage.opened) ∧
    Settles (evalStmt · (.switch default none (some (.float default 0.0)) zeroClauses)) inPackage
      (.value .void inPackage.opened.opened.closed.closed) := by
  have hequal : (Value.nesting 0.0).equal (Value.nesting (-0.0)) = true := by decide
  have hequal' : (Value.nesting (-0.0)).equal (Value.nesting 0.0) = true := by decide
  have hfirst : Settles (fun n => (evaluator n).optional none) inPackage.opened
      (.value () inPackage.opened) :=
    settles_pure_iff.mpr rfl
  have htag : Settles (evalExpr · (.float default 0.0)) inPackage.opened
      (.value (.float 0.0) inPackage.opened) :=
    settles_evalExpr_of_form rfl
  obtain ⟨-, -, htrans, -, -, hswitch⟩ := one_equality
  refine ⟨hequal, hequal', htrans _ _ _ hequal hequal', hfirst, htag,
    (hswitch none default none _ _ inPackage _ _ _ hfirst htag _).mpr
      ⟨.value () inPackage.opened.opened.closed, ?_, rfl⟩⟩
  have hchosen : Chooses (.float 0.0) (casesOf zeroClauses) inPackage.opened
      (.value (some ⟨some [.float default (-0.0)], []⟩) inPackage.opened) := by
    apply Chooses.next (settles_evalExpr_of_form rfl)
    · rw [BinaryOp.apply_of_kindName_ne _ (by decide)]
      nofun
    · exact .found (settles_evalExpr_of_form rfl) (BinaryOp.eq_apply_eq_true_iff.mpr (by decide))
  exact .arm hchosen ⟨nofun, 0, fun _ _ => rfl⟩

end ScriptEngine
