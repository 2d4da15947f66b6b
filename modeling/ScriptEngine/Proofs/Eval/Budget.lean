import ScriptEngine.Proofs.Eval.Approximation

/-!
What an evaluation comes to, whatever its budget.

More budget changes no answer: an evaluation that comes to an end with some budget comes to the same
end with every larger one (`evaluator_approximates`). So the budget can be left out of what is said
of an evaluation: `Settles x m r` says that from `m`, with enough budget, `x` comes to the end `r`,
and there is one such end at most. What a sequence comes to follows from what its parts come to
(`settles_bind_iff`).
-/

namespace ScriptEngine

open Evaluator

/-- With enough budget, the evaluation `x` from `m` comes to the end `r`. -/
def Settles {ε α : Type} (x : Nat → Eval ε α) (m : Machine) (r : Run ε α) : Prop :=
  r ≠ .exhausted ∧ ∃ n, ∀ k, n ≤ k → x k m = r

/-- More budget changes no answer of `x`. -/
def Steady {ε α : Type} (x : Nat → Eval ε α) : Prop :=
  ∀ n k, n ≤ k → (x n).Approximates True (fun _ => True) (x k)

section Settles

variable {ε α : Type} {x : Nat → Eval ε α} {m : Machine} {r r' : Run ε α}

/-- An evaluation comes to one end at most. -/
theorem Settles.unique (h : Settles x m r) (h' : Settles x m r') : r = r' := by
  obtain ⟨-, n, hn⟩ := h
  obtain ⟨-, n', hn'⟩ := h'
  rw [← hn (max n n') (Nat.le_max_left ..), hn' (max n n') (Nat.le_max_right ..)]

/-- An end that is reached with some budget is reached with more. -/
theorem Steady.settles (hx : Steady x) {n : Nat} (h : x n m = r) (hr : r ≠ .exhausted) :
    Settles x m r := by
  refine ⟨hr, n, fun k hk => ?_⟩
  rcases (hx n k hk).run m trivial with heq | ⟨-, hexhausted⟩
  · rw [← heq, h]
  · exact absurd (h.symm.trans hexhausted) hr

/-- Computations that are the same with enough budget come to the same ends. -/
theorem Settles.congr (h : Settles x m r) {y : Nat → Eval ε α} {m' : Machine} {n : Nat}
    (heq : ∀ k, n ≤ k → x k m = y k m') : Settles y m' r := by
  obtain ⟨hr, n', hn'⟩ := h
  refine ⟨hr, max n n', fun k hk => ?_⟩
  rw [← heq k (by omega), hn' k (by omega)]

theorem settles_pure_iff {a : α} : Settles (fun _ => pure a) m r ↔ r = .value a m := by
  constructor
  · rintro ⟨-, n, hn⟩
    exact (hn n (Nat.le_refl n)).symm
  · rintro rfl
    exact ⟨nofun, 0, fun _ _ => rfl⟩

/-- What is read off the ends of a computation settles as the computation does, even if it takes
some more budget. -/
theorem settles_map_iff {ε' β : Type} {y : Nat → Eval ε' β} {g : Run ε α → Run ε' β}
    {m' : Machine} {r' : Run ε' β} (hx : Steady x) (hg : ∀ r, g r = .exhausted ↔ r = .exhausted)
    (j : Nat) (h : ∀ n, y (n + j) m' = g (x n m)) :
    Settles y m' r' ↔ ∃ r, Settles x m r ∧ r' = g r := by
  constructor
  · rintro ⟨hr', n, hn⟩
    have hrun : g (x n m) = r' := by rw [← h n, hn _ (Nat.le_add_right n j)]
    refine ⟨x n m, hx.settles rfl fun hexhausted => hr' ?_, hrun.symm⟩
    rw [← hrun, (hg _).mpr hexhausted]
  · rintro ⟨r, ⟨hr, n, hn⟩, rfl⟩
    refine ⟨fun hexhausted => hr ((hg r).mp hexhausted), n + j, fun k hk => ?_⟩
    obtain ⟨k, rfl⟩ : ∃ k', k = k' + j := ⟨k - j, by omega⟩
    rw [h, hn k (by omega)]

end Settles

/-! ### Sequences -/

section Sequences

variable {ε α β : Type} {x : Nat → Eval ε α} {f : Nat → α → Eval ε β} {m m₁ : Machine}
  {r : Run ε β}

/-- After a first part that has a value, a sequence comes to what its second part comes to. -/
theorem Settles.bind_iff {a : α} (h : Settles x m (.value a m₁)) :
    Settles (fun n => x n >>= f n) m r ↔ Settles (fun n => f n a) m₁ r := by
  obtain ⟨-, n, hn⟩ := h
  constructor
  · exact fun h => h.congr fun k hk => Eval.bind_of_value (hn k hk)
  · exact fun h => h.congr fun k hk => (Eval.bind_of_value (hn k hk)).symm

/-- A sequence comes to what its second part comes to, or to the exit of its first part. -/
theorem settles_bind_iff (hx : Steady x) : Settles (fun n => x n >>= f n) m r ↔
    (∃ a m₁, Settles x m (.value a m₁) ∧ Settles (fun n => f n a) m₁ r) ∨
      ∃ e m₁, Settles x m (.exit e m₁) ∧ r = .exit e m₁ := by
  constructor
  · intro h
    obtain ⟨hr, n, hn⟩ := id h
    have hrun : (x n >>= f n) m = r := hn n (Nat.le_refl n)
    cases hfirst : x n m with
    | value a m₁ =>
      have hvalue := hx.settles hfirst nofun
      exact .inl ⟨a, m₁, hvalue, hvalue.bind_iff.mp h⟩
    | exit e m₁ =>
      exact .inr ⟨e, m₁, hx.settles hfirst nofun, hrun.symm.trans (Eval.bind_of_exit hfirst)⟩
    | exhausted =>
      change (x n).bind (f n) m = r at hrun
      rw [Eval.bind, hfirst] at hrun
      exact absurd hrun.symm hr
  · rintro (⟨a, m₁, hvalue, h⟩ | ⟨e, m₁, ⟨-, n, hn⟩, rfl⟩)
    · exact hvalue.bind_iff.mpr h
    · exact ⟨nofun, n, fun k hk => Eval.bind_of_exit (hn k hk)⟩

end Sequences

/-! ### Expressions where statements are expected -/

section AsStmt

variable {α : Type} {x : Nat → Eval EvalError α} {m : Machine} {r : Run Exit α}

/-- The end of an expression's computation where a statement's is expected. -/
def Run.asStmt : Run EvalError α → Run Exit α
  | .value a m => .value a m
  | .exit e m => .exit (.failed e) m
  | .exhausted => .exhausted

theorem Run.asStmt_eq_exhausted_iff (r : Run EvalError α) :
    r.asStmt = .exhausted ↔ r = .exhausted := by
  cases r <;> simp [Run.asStmt]

theorem Steady.asStmt (hx : Steady x) : Steady fun n => (x n).asStmt :=
  fun n k h => (hx n k h).asStmt

theorem settles_asStmt_iff (hx : Steady x) :
    Settles (fun n => (x n).asStmt) m r ↔ ∃ r₀, Settles x m r₀ ∧ r = r₀.asStmt := by
  refine settles_map_iff hx Run.asStmt_eq_exhausted_iff 0 fun n => ?_
  simp only [Nat.add_zero, Eval.asStmt, Eval.mapExit, Eval.handle]
  cases x n m <;> rfl

end AsStmt

/-! ### Evaluation -/

theorem evaluator_expr (n : Nat) (e : Expr) :
    (evaluator (n + 1)).expr e = ((evaluator n).exprForm e).mapExit (·.locate e.span) := by
  funext m
  simp only [evaluator, onOwnStack_eq]

theorem evaluator_stmt (n : Nat) (label : Option String) (s : Stmt) :
    (evaluator (n + 1)).stmt label s =
      ((evaluator n).stmtForm n label s).mapExit (·.locate s.span) := by
  funext m
  simp only [evaluator, onOwnStack_eq]

/-- What answers nothing approximates everything. -/
theorem approximates_exhausted {ε α : Type} (y : Eval ε α) :
    (Eval.exhausted : Eval ε α).Approximates True (fun _ => True) y where
  run _ _ := .inr ⟨trivial, rfl⟩
  keeps m _ := by
    unfold Eval.Ends
    split <;> trivial

/-- **More budget changes no answer.** The induction is on the smaller budget, which is the first to
run out. -/
theorem evaluator_approximates {n k : Nat} (h : n ≤ k) :
    (evaluator n).Approximates True (fun _ => True) (evaluator k) := by
  induction n generalizing k with
  | zero => exact ⟨fun _ => approximates_exhausted _, fun _ _ => approximates_exhausted _⟩
  | succ n ih =>
    obtain ⟨k, rfl⟩ : ∃ k', k = k' + 1 := ⟨k - 1, by omega⟩
    have hle : n ≤ k := Nat.le_of_succ_le_succ h
    constructor
    · intro e
      rw [evaluator_expr, evaluator_expr]
      exact ((ih hle).exprForm (.inr trivial)).mapExit _
    · intro label s
      rw [evaluator_stmt, evaluator_stmt]
      exact ((ih hle).stmtForm (.inr ⟨trivial, hle⟩) label (.inr fun _ => trivial)).mapExit _

theorem steady_stmt (label : Option String) (s : Stmt) :
    Steady fun n => (evaluator n).stmt label s :=
  fun _ _ h => (evaluator_approximates h).stmt label s

theorem steady_evalStmt (s : Stmt) : Steady fun n => evalStmt n s :=
  steady_stmt none s

theorem steady_evalExpr (e : Expr) : Steady fun n => evalExpr n e :=
  fun _ _ h => (evaluator_approximates h).expr e

end ScriptEngine
