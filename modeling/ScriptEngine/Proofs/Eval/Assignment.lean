import Mathlib.Data.Fin.VecNotation
import Mathlib.Data.List.FinRange
import ScriptEngine.Proofs.Eval.Compound

/-!
Statements with several targets.

All right sides are evaluated before the first target is written. So an assignment of variables to
variables moves all values at once, whatever the frames that the variables live in
(`assignment_is_simultaneous`). The targets are written one after the other, and none is taken back
when a later one is refused: a statement that fails there has written exactly the targets before it
(`failing_writes_before_refused`).
-/

namespace ScriptEngine

open Evaluator

/-! ### Assigning variables to variables -/

/-- In `m` the name is a variable: it is resolved in the frame `owner`, and its value is `v`. -/
structure Machine.Variable (m : Machine) (x : String) (owner : FrameId) (v : Value) : Prop where
  unreserved : isReserved x = false
  ne_blank : x ≠ blank
  resolved : m.frames.resolve m.env.current x = some (owner, ⟨v, .mutable⟩)

section Variable

variable {m m' : Machine} {x : String} {owner : FrameId} {u v : Value}

theorem Machine.Variable.identifier (h : m.Variable x owner v) :
    Eval.identifier x m = .value v m :=
  identifier_of_resolve h.unreserved h.resolved

theorem Machine.Variable.place (h : m.Variable x owner v) :
    Writing.assign.place m x = .ok owner :=
  Writing.place_assign_eq_ok_iff.mpr ⟨h.unreserved, v, h.resolved⟩

/-- A variable that has been written is still a variable, in the same frame. -/
theorem Writing.Written.variable {pairs : List (String × Value)}
    (h : assign.Written pairs m m') (hx : m.Variable x owner u)
    (hlast : lastValue? x pairs = some v) : m'.Variable x owner v := by
  have hplace : assign.place m' x = .ok owner := (h.places x).trans hx.place
  obtain ⟨-, w, hresolve⟩ := Writing.place_assign_eq_ok_iff.mp hplace
  have hlt := Frames.lt_size_of_binding? (Frames.binding?_of_resolve hx.resolved)
  have hentered := h.entered x v owner hlast hx.ne_blank hx.place hlt
  rw [Frames.binding?_of_resolve hresolve] at hentered
  cases hentered
  exact ⟨hx.unreserved, hx.ne_blank, hresolve⟩

end Variable

section Simultaneous

variable {ev : Evaluator} {m : Machine}

theorem sides_of_length_ne_one {es : List Expr} (h : es.length ≠ 1) : ev.sides es = ev.exprs es := by
  match es with
  | [] | _ :: _ :: _ => rfl
  | [_] => exact absurd rfl h

/-- Expressions that have values and change nothing. -/
theorem exprs_map {ι : Type} {e : ι → Expr} {v : ι → Value}
    (h : ∀ i, ev.expr (e i) m = .value (v i) m) (is : List ι) :
    ev.exprs (is.map e) m = .value (is.map v) m := by
  induction is with
  | nil => rfl
  | cons i is ih =>
    simp only [List.map_cons, exprs, bind, Eval.bind, h i, ih]
    rfl

end Simultaneous

/-- **An assignment of variables to variables is simultaneous.** Let the names be different
variables, at least two, in any frames. Then `x 0, x 1, … = x (source 0), x (source 1), …` ends
normally, and after it each of them is the variable that it was, with the value that its source had
before; no other entry of any frame has changed, and nothing else of the machine. -/
theorem assignment_is_simultaneous {k : Nat} (hk : 2 ≤ k) {m : Machine} {x : Fin k → String}
    (hdistinct : Function.Injective x) {owner : Fin k → FrameId} {v : Fin k → Value}
    (hvariable : ∀ i, m.Variable (x i) (owner i) (v i)) (source : Fin k → Fin k) (n : Nat)
    (label : Option String) (s : Span) (place : Fin k → Span) :
    ∃ m', (evaluator (n + 2)).stmt label (.assign s (List.ofFn x) none
        (List.ofFn fun i => .ident (place i) (x (source i)))) m = .value .void m' ∧
      (∀ i, m'.Variable (x i) (owner i) (v (source i)) ∧
        Eval.identifier (x i) m' = .value (v (source i)) m') ∧
      (∀ id y, (∀ i, owner i = id → x i ≠ y) →
        m'.frames.binding? id y = m.frames.binding? id y) ∧
      (∀ id, m'.frames.parent? id = m.frames.parent? id) ∧
      m' = { m with frames := m'.frames } := by
  -- Each right side is read in the machine before the assignment.
  have hsides : (evaluator (n + 1)).sides
      (List.ofFn fun i => .ident (place i) (x (source i))) m =
        .value (List.ofFn fun i => v (source i)) m := by
    rw [sides_of_length_ne_one (by rw [List.length_ofFn]; omega), List.ofFn_eq_map,
      List.ofFn_eq_map]
    exact exprs_map (fun i => evalExpr_ident (hvariable (source i)).identifier) _
  have hlen : (List.ofFn x).length = (List.ofFn fun i => v (source i)).length := by
    rw [List.length_ofFn, List.length_ofFn]
  have hlast : ∀ i, lastValue? (x i) ((List.ofFn x).zip (List.ofFn fun i => v (source i))) =
      some (v (source i)) := by
    intro i
    refine lastValue?_of_nodup (List.nodup_ofFn.mpr hdistinct) ?_
    rw [List.ofFn_eq_map, List.ofFn_eq_map, List.zip_map', List.mem_map]
    exact ⟨i, List.mem_finRange i, rfl⟩
  obtain ⟨m', hrun, h⟩ := Writing.exists_written hlen
    (List.forall_mem_ofFn_iff.mpr fun i => Writing.refusal?_of_place (hvariable i).place)
  refine ⟨m', ?_, fun i => ?_, fun id y hy => h.kept id y fun hne _ hplace => ?_, h.parents,
    h.rest⟩
  · refine (Writing.stmt_of_values (w := .assign) hsides label s _).trans ?_
    rw [if_pos hlen.symm]
    exact Writing.effect_of_value hrun s
  · have hnew := h.variable (hvariable i) (hlast i)
    exact ⟨hnew, hnew.identifier⟩
  · obtain ⟨i, rfl⟩ : ∃ i, x i = y := List.mem_ofFn.mp (mem_of_lastValue? hne)
    cases (hvariable i).place.symm.trans hplace
    exact hy i rfl rfl

/-- A block whose `a` hides that of the package; `b` and the constant `c` belong to the package. -/
def inBlock : Machine :=
  let package := (inPackage.writing ⟨0⟩ "a" (.int 1)).writing ⟨0⟩ "b" (.int 2)
  let block := { package with
    frames := package.frames.define ⟨0⟩ "c" ⟨.int 3, .immutable⟩ }.opened
  block.writing block.env.current "a" (.int 4)

theorem below_inBlock : inBlock.frames.Below inBlock.env.current ⟨0⟩ := rfl

/-- `a, b = b, a` in the block exchanges the values of its own `a` and of the `b` around it. -/
theorem assignment_is_simultaneous_swap :
    ∃ m', (evaluator 2).stmt none (.assign default ["a", "b"] none
        [.ident default "b", .ident default "a"]) inBlock = .value .void m' ∧
      Eval.identifier "a" m' = .value (.int 2) m' ∧ Eval.identifier "b" m' = .value (.int 4) m' ∧
      m'.frames.binding? ⟨0⟩ "a" = some ⟨.int 1, .mutable⟩ := by
  have hvariable : ∀ i, inBlock.Variable (!["a", "b"] i) (![⟨1⟩, ⟨0⟩] i) (![.int 4, .int 2] i) := by
    refine Fin.forall_fin_two.mpr ⟨⟨by decide, by decide, ?_⟩, ⟨by decide, by decide, ?_⟩⟩
    · exact Frames.resolve_of_binding? rfl
    · exact (Frames.Below.resolve below_inBlock rfl).trans (Frames.resolve_of_binding? rfl)
  have hdistinct : Function.Injective !["a", "b"] := by
    unfold Function.Injective
    decide
  obtain ⟨m', hrun, hnew, hkept, -, -⟩ := assignment_is_simultaneous (Nat.le_refl 2) hdistinct
    hvariable ![1, 0] 0 none default fun _ => default
  refine ⟨m', hrun, (hnew 0).2, (hnew 1).2, (hkept ⟨0⟩ "a" ?_).trans rfl⟩
  decide

/-! ### Failures -/

/-- How a statement with targets fails, with the exit and the machine that it leaves. -/
inductive Writing.Fails (w : Writing) (ev : Evaluator) (s : Span) (names : List String)
    (es : List Expr) (m : Machine) : Exit → Machine → Prop where
  /-- A right side fails, and nothing is written. -/
  | side {e m₁} (hside : ev.sides es m = .exit e m₁) :
      Fails w ev s names es m (.failed (e.locate s)) m₁
  /-- There are not as many values as targets, and nothing is written. -/
  | count {vs m₁} (hsides : ev.sides es m = .value vs m₁) (hlen : vs.length ≠ names.length) :
      Fails w ev s names es m
        (.failed ⟨.assignmentMismatch names.length vs.length, some s, none, []⟩) m₁
  /-- `x` is the first target that is refused. Those before it have been written. -/
  | target {vs m₁ before x after e m'} (hsides : ev.sides es m = .value vs m₁)
      (hlen : vs.length = names.length) (hnames : names = before ++ x :: after)
      (hbefore : ∀ y ∈ before, w.refusal? m₁ y = none) (hrefused : w.refusal? m₁ x = some e)
      (hwritten : w.Written (before.zip vs) m₁ m')
      (hkept : ∀ y, y ∉ before → ∀ id, m'.frames.binding? id y = m₁.frames.binding? id y) :
      Fails w ev s names es m (.failed ⟨e.cause x, some s, none, []⟩) m'

/-- **A statement that fails has written the targets before the first that is refused**, from left
to right, and nothing else; there are none if a right side fails or if there are not as many values
as targets. -/
theorem failing_writes_before_refused {w : Writing} {n : Nat} {label : Option String} {s : Span}
    {names : List String} {es : List Expr} {m m' : Machine} {x : Exit}
    (h : (evaluator (n + 1)).stmt label (w.stmt s names es) m = .exit x m') :
    w.Fails (evaluator n) s names es m x m' := by
  cases hsides : (evaluator n).sides es m with
  | exhausted =>
    rw [Writing.stmt_of_exhausted hsides] at h
    cases h
  | exit e m₁ =>
    rw [Writing.stmt_of_exit hsides] at h
    cases h
    exact .side hsides
  | value vs m₁ =>
    rw [Writing.stmt_of_values hsides] at h
    by_cases hlen : vs.length = names.length
    · rw [if_pos hlen] at h
      rcases w.eachPair_cases hlen.symm m₁ with ⟨m₂, hrun, -, -⟩ |
        ⟨before, y, after, e, m₂, hnames, hbefore, hrefused, hrun, hwritten⟩
      · cases (Writing.effect_of_value hrun s).symm.trans h
      · cases (Writing.effect_of_exit hrun s).symm.trans h
        exact .target hsides hlen hnames hbefore hrefused hwritten
          fun y hy id => hwritten.kept_of_not_mem hy id
    · rw [if_neg hlen] at h
      cases h
      exact .count hsides hlen

/-- `a, c, b = 5, 6, 7` in the block fails at the constant, and leaves the new `a` and the old
`b`. -/
theorem failing_writes_before_refused_constant :
    ∃ x m', (evaluator 2).stmt none (.assign default ["a", "c", "b"] none
        [.int default 5, .int default 6, .int default 7]) inBlock = .exit x m' ∧
      Writing.assign.Fails (evaluator 1) default ["a", "c", "b"]
        [.int default 5, .int default 6, .int default 7] inBlock x m' ∧
      m'.frames.binding? ⟨1⟩ "a" = some ⟨.int 5, .mutable⟩ ∧
      m'.frames.binding? ⟨0⟩ "b" = some ⟨.int 2, .mutable⟩ := by
  have ha : Writing.assign.place inBlock "a" = .ok ⟨1⟩ := by
    rw [Writing.place, Frames.resolve_of_binding? rfl]
    rfl
  have hc : Writing.assign.place inBlock "c" = .error .immutable := by
    rw [Writing.place, Frames.Below.resolve below_inBlock rfl, Frames.resolve_of_binding? rfl]
    rfl
  have hrun : (evaluator 2).stmt none (Writing.assign.stmt default ["a", "c", "b"]
      [.int default 5, .int default 6, .int default 7]) inBlock =
        .exit (.failed ⟨.immutableBinding "c", some default, none, []⟩)
          (inBlock.writing ⟨1⟩ "a" (.int 5)) := by
    refine ((Writing.stmt_of_values rfl none default _).trans (if_pos rfl)).trans ?_
    refine Writing.effect_of_exit ?_ default
    simp only [eachPair, bind, Eval.bind, Writing.write_eq (by decide : "a" ≠ blank), ha,
      Writing.write_eq (by decide : "c" ≠ blank), Writing.place_writing ha, hc]
    rfl
  exact ⟨_, _, hrun, failing_writes_before_refused hrun, rfl, rfl⟩

/-- `a, true := 1, 2` in a package fails at `true`, and leaves an `a` that was not there after the
right sides. -/
theorem writes_before_reserved :
    ¬ ∀ (w : Writing) (n : Nat) (label : Option String) (s : Span) (names : List String)
      (es : List Expr) (m m₁ m' : Machine) (vs : List Value) (x : Exit), 2 ≤ names.length →
      (evaluator n).sides es m = .value vs m₁ →
      (evaluator (n + 1)).stmt label (w.stmt s names es) m = .exit x m' →
      ∀ y ∈ names, ∀ id, m'.frames.binding? id y = m₁.frames.binding? id y := by
  intro h
  have hkept := h .define 1 none default ["a", "true"] [.int default 1, .int default 2] inPackage
    inPackage _ [.int 1, .int 2] _ (by decide) rfl rfl "a" (by decide) ⟨0⟩
  cases hkept

end ScriptEngine
