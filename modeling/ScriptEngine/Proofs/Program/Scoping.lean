import ScriptEngine.Control

/-!
What the text of a program says about jumps and function literals.

`Stmt.Escapes own s j` is the scoping judgement: the jump `j` stands in `s`, outside every function
literal, and no construct inside `s` consumes it, where `own` is the label directly before `s`.
`Stmt.Obeys B s` says that the body of every function literal in `s`, nested ones included, is one
that `B` holds of.
-/

namespace ScriptEngine

/-! ### Jumps -/

/-- A jump by its kind and label. -/
inductive Signal where
  | leaveLoop (label : Option String)
  | nextRound (label : Option String)
  | result
  deriving DecidableEq, Repr, Inhabited

namespace Signal

/-- A loop labeled `own` consumes the jump from its body. -/
def TakenByLoop (own : Option String) : Signal → Prop
  | .leaveLoop label | .nextRound label => label = none ∨ label = own
  | .result => False

/-- A switch labeled `own` consumes the jump. -/
def TakenBySwitch (own : Option String) : Signal → Prop
  | .leaveLoop label => label = none ∨ label = own
  | _ => False

/-- The cause of the error that remains when nothing consumes the jump. -/
def cause : Signal → Cause
  | .leaveLoop _ => .breakOutsideLoop
  | .nextRound _ => .continueOutsideLoop
  | .result => .returnOutsideFunction

end Signal

namespace Exit

/-- The jump that an exit makes, unless it is an error. -/
def signal? : Exit → Option Signal
  | .failed _ => none
  | .leaveLoop label => some (.leaveLoop label)
  | .nextRound label => some (.nextRound label)
  | .result _ => some .result

variable {x y : Exit} {own : Option String}

/-- A jump is meant for a construct if it has no label or the construct's own. -/
theorem addressedTo_iff {target : Option String} :
    addressedTo target own = true ↔ target = none ∨ target = own := by
  cases target with
  | none => simp [addressedTo]
  | some label =>
    simp only [addressedTo, beq_iff_eq, reduceCtorEq, false_or]
    exact eq_comm

/-- What a loop passes on is what it does not consume. -/
theorem of_inLoop (h : x.inLoop own = .exit y) :
    y = x ∧ ∀ j, x.signal? = some j → ¬ j.TakenByLoop own := by
  cases x with
  | failed e =>
    cases h
    exact ⟨rfl, fun j hj => by cases hj⟩
  | result vs =>
    cases h
    exact ⟨rfl, fun j hj => by cases hj; exact id⟩
  | leaveLoop target | nextRound target =>
    simp only [inLoop] at h
    split at h
    · cases h
    · next htaken =>
      cases h
      exact ⟨rfl, fun j hj => by cases hj; exact fun h => htaken (addressedTo_iff.mpr h)⟩

/-- What a switch passes on is what it does not consume. -/
theorem of_inSwitch (h : x.inSwitch own = some y) :
    y = x ∧ ∀ j, x.signal? = some j → ¬ j.TakenBySwitch own := by
  cases x with
  | failed e =>
    cases h
    exact ⟨rfl, fun j hj => by cases hj⟩
  | result | nextRound =>
    cases h
    exact ⟨rfl, fun j hj => by cases hj; exact id⟩
  | leaveLoop target =>
    simp only [inSwitch] at h
    split at h
    · cases h
    · next htaken =>
      cases h
      exact ⟨rfl, fun j hj => by cases hj; exact fun h => htaken (addressedTo_iff.mpr h)⟩

/-- What a labeled statement passes on is not a `break` with its label. -/
theorem of_inLabeled {label : String} (h : x.inLabeled label = some y) :
    y = x ∧ ∀ j, x.signal? = some j → j ≠ .leaveLoop (some label) := by
  cases x with
  | failed e =>
    cases h
    exact ⟨rfl, fun j hj => by cases hj⟩
  | result | nextRound =>
    cases h
    exact ⟨rfl, fun j hj => by cases hj; simp⟩
  | leaveLoop target =>
    cases target with
    | none =>
      cases h
      exact ⟨rfl, fun j hj => by cases hj; simp⟩
    | some target =>
      simp only [inLabeled] at h
      split at h
      · cases h
      · next htarget =>
        cases h
        exact ⟨rfl, fun j hj => by cases hj; simpa using htarget⟩

end Exit

/-- The jump `j` stands in a statement labeled `own` where no construct inside consumes it. -/
inductive Stmt.Escapes : Option String → Stmt → Signal → Prop where
  | leaveLoop {own span label} : Escapes own (.jump span .leaveLoop label) (.leaveLoop label)
  | nextRound {own span label} : Escapes own (.jump span .nextRound label) (.nextRound label)
  | result {own span values} : Escapes own (.result span values) .result
  | block {own span body s j} : s ∈ body → Escapes none s j → Escapes own (.block span body) j
  | branchFirst {own span first cond body otherwise j} : Escapes none first j →
      Escapes own (.branch span (some first) cond body otherwise) j
  | branchBody {own span first cond body otherwise j} : Escapes none body j →
      Escapes own (.branch span first cond body otherwise) j
  | branchOtherwise {own span first cond body otherwise j} : Escapes none otherwise j →
      Escapes own (.branch span first cond body (some otherwise)) j
  | loopFirst {own span first cond post body j} : Escapes none first j →
      Escapes own (.loop span (some first) cond post body) j
  | loopPost {own span first cond post body j} : Escapes none post j →
      Escapes own (.loop span first cond (some post) body) j
  | loopBody {own span first cond post body j} : Escapes none body j → ¬ j.TakenByLoop own →
      Escapes own (.loop span first cond post body) j
  | labeled {own span label body j} : Escapes (some label) body j →
      j ≠ .leaveLoop (some label) → Escapes own (.labeled span label body) j
  | switchFirst {own span first tag clauses j} : Escapes none first j → ¬ j.TakenBySwitch own →
      Escapes own (.switch span (some first) tag clauses) j
  | switchClause {own span first tag clauses c s j} : c ∈ clauses → s ∈ c.body →
      Escapes none s j → ¬ j.TakenBySwitch own →
      Escapes own (.switch span first tag clauses) j

/-- The jump `j` escapes one of several statements. -/
def Stmt.AnyEscapes (body : List Stmt) (j : Signal) : Prop :=
  ∃ s ∈ body, s.Escapes none j

/-- A statement that may bind names in the current frame. -/
def Stmt.binds : Stmt → Bool
  | .define .. | .constants .. => true
  | .labeled _ _ body => body.binds
  | .empty _ | .expr .. | .assign .. | .incDec .. | .block .. | .branch .. | .loop .. | .jump ..
  | .result .. | .switch .. => false

/-! ### Function literals -/

/-- The expressions directly in an expression. A function literal has none. -/
def Expr.parts : Expr → List Expr
  | .int .. | .float .. | .str .. | .ident .. | .func .. => []
  | .binary _ _ left right => [left, right]
  | .unary _ _ operand => [operand]
  | .call _ callee args => callee :: args
  | .select _ base _ => [base]
  | .composite _ _ fields => fields

namespace Stmt

/-- The expressions directly in a statement. -/
def exprs : Stmt → List Expr
  | .empty _ | .incDec .. | .block .. | .jump .. | .labeled .. => []
  | .expr _ e => [e]
  | .define _ _ values | .assign _ _ _ values | .result _ values => values
  | .branch _ _ cond _ _ => [cond]
  | .loop _ _ cond _ _ => cond.toList
  | .switch _ _ tag clauses => tag.toList ++ clauses.flatMap fun c => c.values.getD []
  | .constants _ specs => specs.flatMap (·.values)

/-- The statements directly in a statement. -/
def parts : Stmt → List Stmt
  | .block _ body => body
  | .branch _ first _ body otherwise => first.toList ++ body :: otherwise.toList
  | .loop _ first _ post body => first.toList ++ body :: post.toList
  | .labeled _ _ body => [body]
  | .switch _ first _ clauses => first.toList ++ clauses.flatMap (·.body)
  | .empty _ | .expr .. | .define .. | .assign .. | .incDec .. | .jump .. | .result ..
  | .constants .. => []

end Stmt

mutual

/-- `body` is the body of a function literal in an expression. -/
inductive Expr.Mentions : Expr → Stmt → Prop where
  | literal {span params body} : Expr.Mentions (.func span params body) body
  | inLiteral {span params outer body} : Stmt.Mentions outer body →
      Expr.Mentions (.func span params outer) body
  | part {e p body} : p ∈ e.parts → Expr.Mentions p body → Expr.Mentions e body

/-- `body` is the body of a function literal in a statement. -/
inductive Stmt.Mentions : Stmt → Stmt → Prop where
  | expr {s e body} : e ∈ s.exprs → Expr.Mentions e body → Stmt.Mentions s body
  | part {s t body} : t ∈ s.parts → Stmt.Mentions t body → Stmt.Mentions s body

end

/-- `B` holds of the body of every function literal in an expression. -/
def Expr.Obeys (B : Stmt → Prop) (e : Expr) : Prop :=
  ∀ body, e.Mentions body → B body

/-- `B` holds of the body of every function literal in a statement. -/
def Stmt.Obeys (B : Stmt → Prop) (s : Stmt) : Prop :=
  ∀ body, s.Mentions body → B body

section Obeys

variable {B : Stmt → Prop} {e p : Expr} {s t : Stmt}

theorem Expr.Obeys.part (h : e.Obeys B) (hp : p ∈ e.parts) : p.Obeys B :=
  fun body hb => h body (.part hp hb)

/-- A function literal puts its own body under `B` as well as those inside it. -/
theorem Expr.Obeys.literal {span : Span} {params : List String}
    (h : (Expr.func span params s).Obeys B) : s.Obeys B ∧ B s :=
  ⟨fun body hb => h body (.inLiteral hb), h s .literal⟩

theorem Stmt.Obeys.expr (h : s.Obeys B) (he : e ∈ s.exprs) : e.Obeys B :=
  fun body hb => h body (.expr he hb)

theorem Stmt.Obeys.part (h : s.Obeys B) (ht : t ∈ s.parts) : t.Obeys B :=
  fun body hb => h body (.part ht hb)

end Obeys

end ScriptEngine
