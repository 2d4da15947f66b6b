import ScriptEngine.Proofs.Eval.Budget
import ScriptEngine.Proofs.Eval.Results

/-!
Compound assignment and its expansion.

`x op= e` reads `x`, evaluates `e`, applies the operator and assigns. `x = x op e` does the same in
that order, unless the operator may leave its right side unevaluated: then the expansion evaluates
`e` only if it decides, and the compound assignment evaluates it always. `Stmt.SameEnds` compares
what is seen of two statements, the places of errors apart. Main statement:
`compound_same_as_expanded`, which says for every operator when the two cannot be told apart.
-/

namespace ScriptEngine

open Evaluator

/-- `x op= e`. -/
def Stmt.compound (s : Span) (x : String) (op : BinaryOp) (e : Expr) : Stmt :=
  .assign s [x] (some op) [e]

/-- `x = x op e`. -/
def Stmt.expanded (s s₁ s₂ : Span) (x : String) (op : BinaryOp) (e : Expr) : Stmt :=
  .assign s [x] none [.binary s₁ op (.ident s₂ x) e]

/-- What is seen of a statement that ends normally or fails. -/
abbrev Seen := Except Cause Value × Frames

/-- What is seen of an end: the value or the cause of the failure, and the frames that are left. -/
def Run.seen? : Run Exit Value → Option Seen
  | .value v m => some (.ok v, m.frames)
  | .exit (.failed e) m => some (.error e.cause, m.frames)
  | _ => none

/-- The same is seen of both statements from `m`: both succeed, or both fail for the same cause, and
they leave the same frames; or none of them comes to such an end. -/
def Stmt.SameEnds (s s' : Stmt) (m : Machine) : Prop :=
  ∀ o, (∃ n, (evalStmt n s m).seen? = some o) ↔ ∃ n, (evalStmt n s' m).seen? = some o

/-! ### Operators -/

section Operators

variable {op : BinaryOp} {u v w : Value} {b r : Bool}

theorem BinaryOp.isSingle_of_apply (h : op.apply u v = .ok w) : w.isSingle = true := by
  unfold apply at h
  split at h
  · cases op <;> simp only [onInts] at h <;> (try split at h) <;> cases h <;> rfl
  · cases op <;> cases h <;> rfl
  · cases op <;> cases h <;> rfl
  · cases op <;> cases h <;> rfl
  · split at h
    · cases op <;> cases h <;> rfl
    · cases h

/-- The value of the left side decides. -/
theorem BinaryOp.apply_of_decided (hop : op.shortCircuits = true) (hb : b = (op == .or)) :
    op.apply (.bool b) (.bool r) = .ok (.bool b) := by
  cases op <;> cases hop <;> subst hb <;> rfl

/-- The value of the right side decides. -/
theorem BinaryOp.apply_of_open (hop : op.shortCircuits = true) (hb : b ≠ (op == .or)) :
    op.apply (.bool b) (.bool r) = .ok (.bool r) := by
  cases op <;> cases hop <;> cases b
  · exact absurd rfl hb
  · rfl
  · rfl
  · exact absurd rfl hb

theorem BinaryOp.apply_bool_of_ne (hv : ∀ r, v ≠ .bool r) :
    op.apply (.bool b) v = .error (.binaryTypeMismatch "bool" v.kindName) := by
  cases v with
  | bool r => exact absurd rfl (hv r)
  | void | int | float | str | tuple | func | struct | method => rfl

/-- No other values than truth values have a conjunction or disjunction; an evaluation that would
decide on the left side finds another cause. -/
theorem BinaryOp.apply_of_ne_bool (hop : op.shortCircuits = true) (hu : ∀ b, u ≠ .bool b) :
    ∃ c, op.apply u v = .error c ∧ ∀ expected got, c ≠ .typeMismatch expected got := by
  unfold apply
  split
  · cases op <;> cases hop <;> exact ⟨_, rfl, by simp⟩
  · cases op <;> cases hop <;> exact ⟨_, rfl, by simp⟩
  · next b _ => exact absurd rfl (hu b)
  · cases op <;> cases hop <;> exact ⟨_, rfl, by simp⟩
  · split
    · cases op <;> cases hop <;> exact ⟨_, rfl, by simp⟩
    · exact ⟨_, rfl, by simp⟩

end Operators

/-! ### What is seen of an assignment -/

/-- What is seen of the assignment of `v` to `x`. -/
def Machine.seenAssigning (x : String) (v : Value) (m : Machine) : Seen :=
  match m.env.assign m.frames x v with
  | .ok frames => (.ok .void, frames)
  | .error e => (.error (e.cause x), m.frames)

/-- What is seen of a statement that goes on as `k` shows when its expression has a value. -/
def Run.seenThen (k : Value → Machine → Seen) : Run EvalError Value → Option Seen
  | .value v m => some (k v m)
  | .exit e m => some (.error e.cause, m.frames)
  | .exhausted => none

/-- What is seen when the operator is applied to the value that was read and to that of the right
side. -/
def seenApplying (op : BinaryOp) (x : String) (current v : Value) (m : Machine) : Seen :=
  match op.apply current v with
  | .ok u => m.seenAssigning x u
  | .error c => (.error c, m.frames)

/-- What is seen when the right side decides and must be a truth value. -/
def seenDeciding (x : String) : Value → Machine → Seen
  | .bool r, m => m.seenAssigning x (.bool r)
  | v, m => (.error (.typeMismatch "bool" v.kindName), m.frames)

theorem seenDeciding_of_ne {x : String} {v : Value} (hv : ∀ r, v ≠ .bool r) (m : Machine) :
    seenDeciding x v m = (.error (.typeMismatch "bool" v.kindName), m.frames) := by
  cases v with
  | bool r => exact absurd rfl (hv r)
  | void | int | float | str | tuple | func | struct | method => rfl

/-- An assignment finds no fault with the operands of an operation. -/
theorem seenAssigning_ne_binaryTypeMismatch (m m' : Machine) (x : String) (v : Value)
    (left right : String) :
    m.seenAssigning x v ≠ (.error (.binaryTypeMismatch left right), m'.frames) := by
  unfold Machine.seenAssigning
  split
  · simp
  · next e _ => cases e <;> simp [BindError.cause]

section SeenRuns

variable {n : Nat} {x : String} {op : BinaryOp} {e : Expr} {m : Machine} {current v : Value}
  {b : Bool} {s s₁ s₂ : Span}

/-- The place of an error is not seen. -/
theorem Run.seen?_located (y : Eval Exit Value) (span : Span) (m : Machine) :
    ((y.mapExit (·.locate span)) m).seen? = (y m).seen? := by
  simp only [Eval.mapExit, Eval.handle]
  cases y m with
  | value | exhausted => rfl
  | exit z m' =>
    cases z with
    | failed err =>
      change some (Except.error (err.locate span).cause, m'.frames) = _
      rw [EvalError.cause_locate]
      rfl
    | leaveLoop | nextRound | result => rfl

theorem Run.seenThen_located (k : Value → Machine → Seen) (y : Eval EvalError Value) (span : Span)
    (m : Machine) : ((y.mapExit (·.locate span)) m).seenThen k = (y m).seenThen k := by
  simp only [Eval.mapExit, Eval.handle]
  cases y m with
  | value | exhausted => rfl
  | exit err m' => exact congrArg (fun c => some (Except.error c, m'.frames)) EvalError.cause_locate

theorem seen?_assignName :
    (effect (Eval.assignName x v).asStmt m).seen? = some (m.seenAssigning x v) := by
  simp only [effect, Eval.asStmt, Eval.mapExit, Eval.handle, bind, Eval.bind, Eval.assignName,
    Machine.seenAssigning]
  cases m.env.assign m.frames x v <;> rfl

/-- What is seen of an expression and a statement after it. -/
theorem seen?_bind {y : Eval EvalError Value} {f : Value → Eval EvalError Unit}
    {k : Value → Machine → Seen}
    (hf : ∀ v m, (effect (f v).asStmt m).seen? = some (k v m)) :
    (effect (y >>= f).asStmt m).seen? = (y m).seenThen k := by
  simp only [effect, Eval.asStmt, Eval.mapExit, Eval.handle, bind, Eval.bind] at hf ⊢
  cases y m with
  | value v m' => exact hf v m'
  | exit | exhausted => rfl

theorem seen?_applying (current v : Value) :
    (effect (do let u ← Eval.ofExcept (op.apply current v); Eval.assignName x u).asStmt m).seen? =
      some (seenApplying op x current v m) := by
  unfold seenApplying
  cases op.apply current v with
  | ok u => exact seen?_assignName
  | error c => rfl

/-- The compound assignment evaluates its right side, whatever the operator. -/
theorem seen?_compound (h : Eval.identifier x m = .value current m) :
    (evalStmt (n + 2) (.compound s x op e) m).seen? =
      (evalExpr (n + 1) e m).seenThen (seenApplying op x current) := by
  rw [evalStmt, evaluator_stmt, Run.seen?_located]
  have hrest : (evaluator (n + 1)).assignOp [x] op [e] m =
      (((evaluator (n + 1)).expr e >>= fun v => do
        let u ← Eval.ofExcept (op.apply current v)
        Eval.assignName x u) : Eval EvalError Unit) m := by
    simp only [assignOp, bind, Eval.bind, h]
  have hrun : (effect ((evaluator (n + 1)).assignOp [x] op [e]).asStmt m).seen? =
      (effect (((evaluator (n + 1)).expr e >>= fun v => do
        let u ← Eval.ofExcept (op.apply current v)
        Eval.assignName x u) : Eval EvalError Unit).asStmt m).seen? := by
    simp only [effect, Eval.asStmt, Eval.mapExit, Eval.handle, bind, Eval.bind] at hrest ⊢
    rw [hrest]
  exact hrun.trans (seen?_bind fun v m => seen?_applying current v)

/-- The assignment of an expression with one value. -/
theorem seen?_assign (hx : x ≠ blank)
    (hsingle : ∀ v m', evalExpr n e m = .value v m' → v.isSingle = true) :
    (evalStmt (n + 1) (.assign s [x] none [e]) m).seen? =
      (evalExpr n e m).seenThen fun v m => m.seenAssigning x v := by
  rw [evalStmt, evaluator_stmt, Run.seen?_located]
  cases hrun : evalExpr n e m with
  | value v m' =>
    have hresults := Value.results_of_isSingle (hsingle v m' hrun)
    have hsides : (evaluator n).rightSides [x].length [e] m = .value [v] m' := by
      rw [rightSides_eq, Eval.bind_eq_value]
      exact ⟨_, _, sides_singleton hrun, by rw [hresults]; rfl⟩
    refine Eq.trans ?_ (seen?_assignName (x := x) (v := v) (m := m'))
    simp only [stmtForm, effect, assign, Eval.asStmt, Eval.mapExit, Eval.handle, bind, Eval.bind,
      hsides, eachPair, assignUnlessBlank, if_neg hx, pure, Eval.pure]
    cases Eval.assignName x v m' <;> rfl
  | exit err m' | exhausted =>
    rw [evalExpr] at hrun
    simp only [stmtForm, effect, assign, rightSides, Eval.asStmt, Eval.mapExit, Eval.handle, bind,
      Eval.bind, hrun]
    rfl

/-- The expansion assigns what the operation yields. -/
theorem seen?_expanded (hx : x ≠ blank)
    (hsingle : ∀ v m', (evaluator n).binary op (.ident s₂ x) e m = .value v m' →
      v.isSingle = true) :
    (evalStmt (n + 2) (.expanded s s₁ s₂ x op e) m).seen? =
      ((evaluator n).binary op (.ident s₂ x) e m).seenThen fun v m => m.seenAssigning x v := by
  have hbinary : evalExpr (n + 1) (.binary s₁ op (.ident s₂ x) e) =
      ((evaluator n).binary op (.ident s₂ x) e).mapExit (·.locate s₁) :=
    evaluator_expr n _
  rw [Stmt.expanded, seen?_assign hx, hbinary, Run.seenThen_located]
  intro v m' hrun
  simp only [hbinary, Eval.mapExit, Eval.handle] at hrun
  cases hb : (evaluator n).binary op (.ident s₂ x) e m with
  | value w m₁ =>
    rw [hb] at hrun
    cases hrun
    exact hsingle v m' hb
  | exit | exhausted =>
    rw [hb] at hrun
    cases hrun

theorem evalExpr_ident (h : Eval.identifier x m = .value current m) :
    evalExpr (n + 1) (.ident s x) m = .value current m := by
  rw [evalExpr, evaluator_expr]
  simp only [exprForm, Eval.mapExit, Eval.handle, h]

/-- An operator that needs both sides. -/
theorem seen?_expanded_of_strict (hx : x ≠ blank) (h : Eval.identifier x m = .value current m)
    (hop : op.shortCircuits = false) :
    (evalStmt (n + 3) (.expanded s s₁ s₂ x op e) m).seen? =
      (evalExpr (n + 1) e m).seenThen (seenApplying op x current) := by
  have hbinary : (evaluator (n + 1)).binary op (.ident s₂ x) e m =
      ((evaluator (n + 1)).expr e >>= fun v => Eval.ofExcept (op.apply current v)) m := by
    simp only [binary, bind, Eval.bind, hop, Bool.false_eq_true, if_false,
      show (evaluator (n + 1)).expr (.ident s₂ x) m = _ from evalExpr_ident h]
  rw [seen?_expanded hx, hbinary]
  · simp only [bind, Eval.bind, evalExpr]
    cases (evaluator (n + 1)).expr e m with
    | value v m' =>
      simp only [Run.seenThen, seenApplying]
      cases op.apply current v <;> rfl
    | exit | exhausted => rfl
  · intro v m' hrun
    rw [hbinary, Eval.bind_eq_value] at hrun
    obtain ⟨w, m₁, -, hw⟩ := hrun
    cases ha : op.apply current w with
    | ok u =>
      rw [ha] at hw
      cases hw
      exact BinaryOp.isSingle_of_apply ha
    | error c =>
      rw [ha] at hw
      cases hw

/-- An operator that the value read decides. -/
theorem seen?_expanded_of_decided (hx : x ≠ blank) (h : Eval.identifier x m = .value (.bool b) m)
    (hop : op.shortCircuits = true) (hb : b = (op == .or)) :
    (evalStmt (n + 3) (.expanded s s₁ s₂ x op e) m).seen? = some (m.seenAssigning x (.bool b)) := by
  have hbinary : (evaluator (n + 1)).binary op (.ident s₂ x) e m = .value (.bool b) m := by
    simp only [binary, bind, Eval.bind, hop, if_true, if_pos hb,
      show (evaluator (n + 1)).expr (.ident s₂ x) m = _ from evalExpr_ident h]
    rfl
  rw [seen?_expanded hx, hbinary]
  · rfl
  · intro v m' hrun
    rw [hbinary] at hrun
    cases hrun
    rfl

/-- A right side that decides must be a truth value. -/
def Value.deciding : Value → Eval EvalError Value
  | .bool r => pure (.bool r)
  | v => Eval.fail (.typeMismatch "bool" v.kindName)

/-- An operator that the value read leaves open. -/
theorem seen?_expanded_of_open (hx : x ≠ blank) (h : Eval.identifier x m = .value (.bool b) m)
    (hop : op.shortCircuits = true) (hb : b ≠ (op == .or)) :
    (evalStmt (n + 3) (.expanded s s₁ s₂ x op e) m).seen? =
      (evalExpr (n + 1) e m).seenThen (seenDeciding x) := by
  have hbinary : (evaluator (n + 1)).binary op (.ident s₂ x) e m =
      ((evaluator (n + 1)).expr e >>= Value.deciding) m := by
    simp only [binary, bind, Eval.bind, hop, if_true, if_neg hb,
      show (evaluator (n + 1)).expr (.ident s₂ x) m = _ from evalExpr_ident h]
    rfl
  rw [seen?_expanded hx, hbinary]
  · simp only [bind, Eval.bind, evalExpr]
    cases (evaluator (n + 1)).expr e m with
    | value v m' => cases v <;> rfl
    | exit | exhausted => rfl
  · intro v m' hrun
    rw [hbinary, Eval.bind_eq_value] at hrun
    obtain ⟨w, m₁, -, hw⟩ := hrun
    cases w <;> cases hw
    rfl

/-- An operator on another value than a truth value. -/
theorem seen?_expanded_of_ne_bool (hx : x ≠ blank) (h : Eval.identifier x m = .value current m)
    (hop : op.shortCircuits = true) (hcurrent : ∀ b, current ≠ .bool b) :
    (evalStmt (n + 3) (.expanded s s₁ s₂ x op e) m).seen? =
      some (.error (.typeMismatch "bool" current.kindName), m.frames) := by
  have hbinary : (evaluator (n + 1)).binary op (.ident s₂ x) e m =
      .exit (.of (.typeMismatch "bool" current.kindName)) m := by
    simp only [binary, bind, Eval.bind, hop, if_true,
      show (evaluator (n + 1)).expr (.ident s₂ x) m = _ from evalExpr_ident h]
    cases current with
    | bool b => exact absurd rfl (hcurrent b)
    | void | int | float | str | tuple | func | struct | method => rfl
  rw [seen?_expanded hx, hbinary]
  · rfl
  · intro v m' hrun
    rw [hbinary] at hrun
    cases hrun

/-- Reading a name changes nothing. -/
theorem identifier_run (x : String) (m : Machine) :
    (∃ v, Eval.identifier x m = .value v m) ∨ ∃ err, Eval.identifier x m = .exit err m := by
  unfold Eval.identifier
  split
  · exact .inl ⟨_, rfl⟩
  · exact .inr ⟨_, rfl⟩

/-- A name that cannot be read: neither form comes to its right side. -/
theorem seen?_compound_of_unreadable {err : EvalError} (h : Eval.identifier x m = .exit err m) :
    (evalStmt (n + 2) (.compound s x op e) m).seen? = some (.error err.cause, m.frames) := by
  rw [evalStmt, evaluator_stmt, Run.seen?_located]
  simp only [Stmt.compound, stmtForm, effect, assignOp, Eval.asStmt, Eval.mapExit, Eval.handle,
    bind, Eval.bind, h]
  rfl

theorem seen?_expanded_of_unreadable (hx : x ≠ blank) {err : EvalError}
    (h : Eval.identifier x m = .exit err m) :
    (evalStmt (n + 3) (.expanded s s₁ s₂ x op e) m).seen? = some (.error err.cause, m.frames) := by
  have hident : (evaluator (n + 1)).expr (.ident s₂ x) m = .exit (err.locate s₂) m := by
    rw [evaluator_expr]
    simp only [exprForm, Eval.mapExit, Eval.handle, h]
    rfl
  have hbinary : (evaluator (n + 1)).binary op (.ident s₂ x) e m = .exit (err.locate s₂) m := by
    simp only [binary, bind, Eval.bind, hident]
  rw [seen?_expanded hx, hbinary]
  · rw [Run.seenThen, EvalError.cause_locate]
  · intro v m' hrun
    rw [hbinary] at hrun
    cases hrun

end SeenRuns

/-! ### What is seen with enough budget -/

section SeenEnds

variable {x : String} {op : BinaryOp} {e : Expr} {m : Machine} {current : Value} {b : Bool}
  {s s₁ s₂ : Span} {o : Seen}

/-- Levels that every evaluation of a statement needs do not count. -/
theorem exists_seen?_iff (t : Stmt) (k : Nat) :
    (∃ n, (evalStmt n t m).seen? = some o) ↔ ∃ n, (evalStmt (n + k) t m).seen? = some o := by
  constructor
  · rintro ⟨n, hn⟩
    refine ⟨n, ?_⟩
    rcases (steady_evalStmt t n (n + k) (Nat.le_add_right ..)).run m trivial with heq | ⟨-, h⟩
    · exact (congrArg Run.seen? heq).symm.trans hn
    · rw [show evalStmt n t m = .exhausted from h] at hn
      cases hn
  · exact fun ⟨n, hn⟩ => ⟨n + k, hn⟩

/-- A statement that is seen through the end of an expression. -/
theorem exists_seenThen_iff {k : Value → Machine → Seen} :
    (∃ n, (evalExpr (n + 1) e m).seenThen k = some o) ↔
      ∃ r, Settles (evalExpr · e) m r ∧ r.seenThen k = some o := by
  constructor
  · rintro ⟨n, hn⟩
    refine ⟨evalExpr (n + 1) e m, (steady_evalExpr e).settles (n := n + 1) rfl ?_, hn⟩
    intro h
    rw [h] at hn
    cases hn
  · rintro ⟨r, ⟨-, n, hn⟩, hr⟩
    have hrun : evalExpr (n + 1) e m = r := hn (n + 1) (Nat.le_succ n)
    exact ⟨n, by rw [hrun, hr]⟩

theorem exists_seen_compound (h : Eval.identifier x m = .value current m) :
    (∃ n, (evalStmt n (.compound s x op e) m).seen? = some o) ↔
      ∃ r, Settles (evalExpr · e) m r ∧ r.seenThen (seenApplying op x current) = some o := by
  rw [exists_seen?_iff _ 2, ← exists_seenThen_iff]
  simp only [seen?_compound h]

/-- If the expansion is seen through its right side too, the two forms cannot be told apart exactly
if every end of the right side shows the same through both. -/
theorem sameEnds_iff_of_seen {k : Value → Machine → Seen}
    (h : Eval.identifier x m = .value current m)
    (hexpanded : ∀ n, (evalStmt (n + 3) (.expanded s s₁ s₂ x op e) m).seen? =
      (evalExpr (n + 1) e m).seenThen k) :
    Stmt.SameEnds (.compound s x op e) (.expanded s s₁ s₂ x op e) m ↔
      ∀ r, Settles (evalExpr · e) m r →
        r.seenThen (seenApplying op x current) = r.seenThen k := by
  have hseen : ∀ o, (∃ n, (evalStmt n (.expanded s s₁ s₂ x op e) m).seen? = some o) ↔
      ∃ r, Settles (evalExpr · e) m r ∧ r.seenThen k = some o := by
    intro o
    rw [exists_seen?_iff _ 3, ← exists_seenThen_iff]
    simp only [hexpanded]
  constructor
  · intro hsame r hr
    obtain ⟨o, ho⟩ : ∃ o, r.seenThen (seenApplying op x current) = some o := by
      cases r with
      | value | exit => exact ⟨_, rfl⟩
      | exhausted => exact absurd rfl hr.1
    obtain ⟨r', hr', ho'⟩ := (hseen o).mp ((hsame o).mp ((exists_seen_compound h).mpr ⟨r, hr, ho⟩))
    obtain rfl := hr.unique hr'
    rw [ho, ho']
  · intro hk o
    rw [exists_seen_compound h, hseen]
    constructor
    · exact fun ⟨r, hr, ho⟩ => ⟨r, hr, hk r hr ▸ ho⟩
    · exact fun ⟨r, hr, ho⟩ => ⟨r, hr, (hk r hr).trans ho⟩

/-- If the expansion does without its right side, the two forms cannot be told apart exactly if the
compound assignment comes to the same end all the same. -/
theorem sameEnds_iff_of_const {o : Seen} (h : Eval.identifier x m = .value current m)
    (hexpanded : ∀ n, (evalStmt (n + 3) (.expanded s s₁ s₂ x op e) m).seen? = some o) :
    Stmt.SameEnds (.compound s x op e) (.expanded s s₁ s₂ x op e) m ↔
      ∃ r, Settles (evalExpr · e) m r ∧ r.seenThen (seenApplying op x current) = some o := by
  have hseen : ∀ o', (∃ n, (evalStmt n (.expanded s s₁ s₂ x op e) m).seen? = some o') ↔ o = o' := by
    intro o'
    rw [exists_seen?_iff _ 3]
    simp only [hexpanded, Option.some.injEq, exists_const]
  constructor
  · intro hsame
    exact (exists_seen_compound h).mp ((hsame o).mpr ((hseen o).mpr rfl))
  · rintro ⟨r, hr, ho⟩ o'
    rw [exists_seen_compound h, hseen]
    constructor
    · rintro ⟨r', hr', ho'⟩
      obtain rfl := hr.unique hr'
      exact Option.some.inj (ho.symm.trans ho')
    · rintro rfl
      exact ⟨r, hr, ho⟩

end SeenEnds

/-- **A compound assignment is its expansion**, but for `&&` and `||`. For every name other than the
blank one, every state, operator and right side, the same is seen of `x op= e` and of `x = x op e`
if the operator needs both sides. Of `&&` and `||` the expansion evaluates the right side only if it
decides, and the compound assignment always. So the same is seen

- if `x` cannot be read;
- if `x` leaves the operation open: exactly unless the right side yields another value than a truth
  value, which the two report differently;
- if `x` decides: exactly if the right side yields a truth value and the assignment ends after it as
  it would without it, or fails as the assignment would;
- if `x` is no truth value: exactly if the right side fails as the expansion does without it. -/
theorem compound_same_as_expanded {x : String} (hx : x ≠ blank) (m : Machine) (op : BinaryOp)
    (e : Expr) (s s₁ s₂ : Span) :
    (op.shortCircuits = false →
      Stmt.SameEnds (.compound s x op e) (.expanded s s₁ s₂ x op e) m) ∧
    ((∀ v m', Eval.identifier x m ≠ .value v m') →
      Stmt.SameEnds (.compound s x op e) (.expanded s s₁ s₂ x op e) m) ∧
    (op.shortCircuits = true →
      (∀ b, Eval.identifier x m = .value (.bool b) m → b ≠ (op == .or) →
        (Stmt.SameEnds (.compound s x op e) (.expanded s s₁ s₂ x op e) m ↔
          ∀ v m', Settles (evalExpr · e) m (.value v m') → ∃ r, v = .bool r)) ∧
      (∀ b, Eval.identifier x m = .value (.bool b) m → b = (op == .or) →
        (Stmt.SameEnds (.compound s x op e) (.expanded s s₁ s₂ x op e) m ↔
          (∃ r m', Settles (evalExpr · e) m (.value (.bool r) m') ∧
            m'.seenAssigning x (.bool b) = m.seenAssigning x (.bool b)) ∨
          ∃ err m', Settles (evalExpr · e) m (.exit err m') ∧
            (.error err.cause, m'.frames) = m.seenAssigning x (.bool b))) ∧
      ∀ v, Eval.identifier x m = .value v m → (∀ b, v ≠ .bool b) →
        (Stmt.SameEnds (.compound s x op e) (.expanded s s₁ s₂ x op e) m ↔
          ∃ err m', Settles (evalExpr · e) m (.exit err m') ∧
            err.cause = .typeMismatch "bool" v.kindName ∧ m'.frames = m.frames)) := by
  have hunreadable : (∀ v m', Eval.identifier x m ≠ .value v m') →
      Stmt.SameEnds (.compound s x op e) (.expanded s s₁ s₂ x op e) m := by
    intro hnone o
    obtain ⟨err, herr⟩ : ∃ err, Eval.identifier x m = .exit err m := by
      rcases identifier_run x m with ⟨v, hv⟩ | herr
      · exact absurd hv (hnone v m)
      · exact herr
    rw [exists_seen?_iff _ 2, exists_seen?_iff (.expanded s s₁ s₂ x op e) 3]
    simp only [seen?_compound_of_unreadable herr, seen?_expanded_of_unreadable hx herr]
  refine ⟨fun hop => ?strict, hunreadable, fun hop =>
    ⟨fun b h hb => ?opened, fun b h hb => ?decided, fun v h hv => ?mistyped⟩⟩
  case strict =>
    rcases identifier_run x m with ⟨v, hv⟩ | ⟨err, herr⟩
    · exact (sameEnds_iff_of_seen hv fun n => seen?_expanded_of_strict hx hv hop).mpr fun _ _ => rfl
    · exact hunreadable fun v m' h => by rw [herr] at h; cases h
  case opened =>
    rw [sameEnds_iff_of_seen h fun n => seen?_expanded_of_open hx h hop hb]
    constructor
    · intro hk v m' hv
      refine Classical.byContradiction fun hbool => ?_
      have hne : ∀ r, v ≠ .bool r := not_exists.mp hbool
      have hseen := hk _ hv
      simp only [Run.seenThen, seenApplying, BinaryOp.apply_bool_of_ne hne,
        seenDeciding_of_ne hne] at hseen
      cases hseen
    · intro hbool r hr
      cases r with
      | value v m' =>
        obtain ⟨r, rfl⟩ := hbool v m' hr
        simp only [Run.seenThen, seenApplying, BinaryOp.apply_of_open hop hb, seenDeciding]
      | exit | exhausted => rfl
  case decided =>
    rw [sameEnds_iff_of_const h fun n => seen?_expanded_of_decided hx h hop hb]
    constructor
    · rintro ⟨r, hr, ho⟩
      cases r with
      | value v m' =>
        by_cases hbool : ∃ r, v = .bool r
        · obtain ⟨r, rfl⟩ := hbool
          simp only [Run.seenThen, seenApplying, BinaryOp.apply_of_decided hop hb] at ho
          exact .inl ⟨r, m', hr, Option.some.inj ho⟩
        · have hv : ∀ r, v ≠ .bool r := not_exists.mp hbool
          simp only [Run.seenThen, seenApplying, BinaryOp.apply_bool_of_ne hv] at ho
          exact absurd (Option.some.inj ho).symm (seenAssigning_ne_binaryTypeMismatch _ _ _ _ _ _)
      | exit err m' => exact .inr ⟨err, m', hr, Option.some.inj ho⟩
      | exhausted => cases ho
    · rintro (⟨r, m', hr, ho⟩ | ⟨err, m', hr, ho⟩)
      · refine ⟨_, hr, ?_⟩
        simp only [Run.seenThen, seenApplying, BinaryOp.apply_of_decided hop hb, ho]
      · exact ⟨_, hr, congrArg some ho⟩
  case mistyped =>
    rw [sameEnds_iff_of_const h fun n => seen?_expanded_of_ne_bool hx h hop hv]
    constructor
    · rintro ⟨r, hr, ho⟩
      cases r with
      | value w m' =>
        obtain ⟨c, hc, hne⟩ := BinaryOp.apply_of_ne_bool (v := w) hop hv
        simp only [Run.seenThen, seenApplying, hc, Option.some.injEq, Prod.mk.injEq,
          Except.error.injEq] at ho
        exact absurd ho.1 (hne _ _)
      | exit err m' =>
        simp only [Run.seenThen, Option.some.injEq, Prod.mk.injEq, Except.error.injEq] at ho
        exact ⟨err, m', hr, ho⟩
      | exhausted => cases ho
    · rintro ⟨err, m', hr, hcause, hframes⟩
      exact ⟨_, hr, by simp only [Run.seenThen, hcause, hframes]⟩

/-- A machine whose package binds `x`. -/
def holding (v : Value) : Machine :=
  { inPackage with frames := inPackage.frames.define ⟨0⟩ "x" ⟨v, .mutable⟩ }

theorem resolve_holding (v : Value) (name : String) :
    (holding v).frames.resolve (holding v).env.current name =
      if "x" = name then some (⟨0⟩, ⟨v, .mutable⟩) else none := by
  rw [Frames.resolve_of_get? (f := ⟨⟨[("x", ⟨v, .mutable⟩)]⟩, none⟩) rfl]
  by_cases hname : "x" = name
  · simp only [Assoc.find?, Assoc.findIn, hname, if_true]
    rfl
  · simp only [Assoc.find?, Assoc.findIn, hname, if_false]
    rfl

/-- `func() { x = 1; return 2 }()`. -/
def meddlingCall : Expr :=
  .call default (.func default [] (.block default
    [.assign default ["x"] none [.int default 1], .result default [.int default 2]])) []

/-- An addition may change `x` on the way. A conjunction that `x` decides is not the same, if its
right side fails: the expansion never finds out. -/
theorem compound_same_as_expanded_conjunction :
    "x" ≠ blank ∧
    Stmt.SameEnds (.compound default "x" .add meddlingCall)
      (.expanded default default default "x" .add meddlingCall) (holding (.int 5)) ∧
    ¬ Stmt.SameEnds (.compound default "x" .and (.ident default "y"))
      (.expanded default default default "x" .and (.ident default "y"))
      (holding (.bool false)) := by
  have hx : "x" ≠ blank := by decide
  refine ⟨hx, (compound_same_as_expanded hx _ .add meddlingCall default default default).1 rfl, ?_⟩
  obtain ⟨-, -, hand⟩ := compound_same_as_expanded hx (holding (.bool false)) .and
    (.ident default "y") default default default
  have hread : Eval.identifier "x" (holding (.bool false)) =
      .value (.bool false) (holding (.bool false)) :=
    identifier_of_binding? (b := ⟨.bool false, .mutable⟩) rfl rfl
  have hright : Settles (evalExpr · (.ident default "y")) (holding (.bool false))
      (.exit ⟨.undefinedIdentifier "y", some default, none, []⟩ (holding (.bool false))) := by
    refine (steady_evalExpr _).settles (n := 1) ?_ (by simp)
    rw [evalExpr, evaluator_expr]
    simp [exprForm, Eval.mapExit, Eval.handle, Eval.identifier, Environment.identifier,
      Environment.lookup, Frames.lookup, resolve_holding]
    rfl
  have hassigned : ∃ frames, (holding (.bool false)).seenAssigning "x" (.bool false) =
      (.ok .void, frames) := by
    simp [Machine.seenAssigning, Environment.assign, Frames.assign, isReserved, resolve_holding]
  rw [(hand rfl).2.1 false hread rfl]
  rintro (⟨r, m', hr, -⟩ | ⟨err, m', hr, hseen⟩)
  · cases hright.unique hr
  · obtain ⟨frames, hframes⟩ := hassigned
    rw [hframes] at hseen
    cases hseen

end ScriptEngine
