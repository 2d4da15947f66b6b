import ScriptEngine.Proofs.Eval.Budget
import ScriptEngine.Proofs.Eval.Results
import ScriptEngine.Proofs.Session.Requests

/-!
Constant blocks and their ordinals.

A line of a constant block without values repeats those of the last line before it that has some:
the block means what it means with these written out (`expanded`). The ordinal `iota` is a part of
the state that blocks set and that calls and blocks put back. Its meaning needs no state:
`numbered n c` is the evaluator in which `iota` stands for the ordinal `c`, which is handed down
from a node to its parts, is exchanged for the number of the line in the values of a constant line,
and is lost in the body of a function. Main statement: `ordinals_are_local`.
-/

namespace ScriptEngine

open Evaluator

/-! ### Implicit repetition -/

/-- The values of the last line that has some. -/
def lastValues (before : List (ConstSpec Expr)) : List Expr :=
  ((before.reverse.find? fun spec => !spec.values.isEmpty).map (·.values)).getD []

/-- A line after others, with the values that it repeats if it has none. -/
def ConstSpec.filled (before : List (ConstSpec Expr)) (spec : ConstSpec Expr) : ConstSpec Expr :=
  if spec.values.isEmpty then { spec with values := lastValues before } else spec

/-- Lines after others, with the values that they repeat. -/
def expandedAfter (before specs : List (ConstSpec Expr)) : List (ConstSpec Expr) :=
  specs.mapIdx fun i spec => spec.filled (before ++ specs.take i)

/-- The lines of a block, with the values that they repeat. -/
def expanded (specs : List (ConstSpec Expr)) : List (ConstSpec Expr) :=
  specs.mapIdx fun i spec => spec.filled (specs.take i)

section Repetition

variable {ev : Evaluator} {before rest : List (ConstSpec Expr)} {spec : ConstSpec Expr}

theorem expandedAfter_cons : expandedAfter before (spec :: rest) =
    spec.filled before :: expandedAfter (before ++ [spec]) rest := by
  simp [expandedAfter, List.mapIdx_cons]

theorem lastValues_concat : lastValues (before ++ [spec]) =
    if spec.values.isEmpty then lastValues before else spec.values := by
  unfold lastValues
  cases h : spec.values.isEmpty <;> simp [h]

/-- What a line repeats is what the next line would repeat. -/
theorem ConstSpec.values_filled : (spec.filled before).values = lastValues (before ++ [spec]) := by
  rw [lastValues_concat, filled]
  split <;> rfl

theorem ConstSpec.names_filled : (spec.filled before).names = spec.names := by
  rw [filled]
  split <;> rfl

/-- The line that comes after `before`, and the lines after it. -/
theorem constantLines_cons (k : Nat) : ev.constantLines k (lastValues before) (spec :: rest) =
    if (spec.filled before).values.length = (spec.filled before).names.length then do
      Eval.update fun m => { m with iota := some (Int64.ofNat k) }
      ev.constantLine (spec.filled before).names (spec.filled before).values
      ev.constantLines (k + 1) (lastValues (before ++ [spec])) rest
    else
      Eval.fail (.assignmentMismatch (spec.filled before).names.length
        (spec.filled before).values.length) := by
  rw [constantLines, ConstSpec.values_filled, ConstSpec.names_filled, lastValues_concat]

/-- Writing out what lines repeat changes nothing. -/
theorem constantLines_expanded (k : Nat) (before specs : List (ConstSpec Expr)) :
    ev.constantLines k (lastValues before) specs =
      ev.constantLines k (lastValues before) (expandedAfter before specs) := by
  induction specs generalizing k before with
  | nil => rfl
  | cons spec rest ih =>
    have hvalues : (if (spec.filled before).values.isEmpty then lastValues before
        else (spec.filled before).values) = lastValues (before ++ [spec]) := by
      rw [ConstSpec.values_filled, lastValues_concat]
      cases h : spec.values.isEmpty <;> simp [h]
    rw [constantLines_cons, expandedAfter_cons, constantLines, hvalues, ConstSpec.values_filled, ih]

end Repetition

/-! ### Ordinals as a parameter -/

/-- The ordinal that a machine records. -/
def ordinal (c : Option Nat) : Option Int64 :=
  c.map Int64.ofNat

/-- Runs `x` while the machine records the ordinal `i`. -/
def Eval.under {ε α : Type} (i : Option Int64) (x : Eval ε α) : Eval ε α :=
  fun m => (x.leaving fun m' => { m' with iota := m.iota }) { m with iota := i }

/-- What `iota` stands for. -/
def numberedIota : Option Nat → Eval EvalError Value
  | some k => pure (.int (Int64.ofNat k))
  | none => Eval.fail (.undefinedIdentifier "iota")

/-- The lines of a constant block from number `k` on, each with its values written out. The values
are evaluated under the number of the line. -/
def numberedLines (ev : Option Nat → Evaluator) : Nat → List (ConstSpec Expr) → Eval EvalError Unit
  | _, [] => pure ()
  | k, spec :: rest =>
    if spec.values.length = spec.names.length then do
      Eval.under (ordinal (some k)) ((ev (some k)).constantLine spec.names spec.values)
      numberedLines ev (k + 1) rest
    else
      Eval.fail (.assignmentMismatch spec.names.length spec.values.length)

/-- How an expression is evaluated under the ordinal `c`: `iota` stands for `c`, and the body of a
function that is called is evaluated under none. -/
def numberedExpr (ev : Option Nat → Evaluator) (c : Option Nat) : Expr → Eval EvalError Value
  | .ident _ name => if name = "iota" then numberedIota c else Eval.identifier name
  | .call span callee args => do
    let p ← calleeAndArgs (ev c) callee args
    (ev none).callValue p.1 p.2 callee.calleeName (some span)
  | e => (ev c).exprForm e

/-- How a statement is evaluated under the ordinal `c`: a constant block evaluates its lines under
their numbers. -/
def numberedStmt (ev : Option Nat → Evaluator) (budget : Nat) (c : Option Nat)
    (label : Option String) : Stmt → Eval Exit Value
  | .constants _ specs => effect (numberedLines ev 0 (expanded specs)).asStmt
  | s => (ev c).stmtForm budget label s

/-- The evaluator in which the ordinal is a parameter. The machine records it as `evaluator` does,
and nothing reads the record. -/
def numbered : Nat → Option Nat → Evaluator
  | 0, _ => .exhausted
  | n + 1, c => {
      stmt := fun label s => (numberedStmt (numbered n) n c label s).mapExit (·.locate s.span)
      expr := fun e => (numberedExpr (numbered n) c e).mapExit (·.locate e.span) }

section Numbered

variable {n : Nat} {c : Option Nat} {m : Machine} {i : Option Int64}

theorem approximates_iota : (Eval.identifier "iota").Approximates False (· = ordinal c)
    (numberedIota c) where
  run m hm := by
    left
    simp only [Eval.identifier, Environment.identifier, hm]
    cases c <;> rfl
  keeps m hm := by cases c <;> exact hm

/-- The lines of a block, however its ordinal was recorded before. -/
theorem constantLines_numbered {ev : Evaluator} {ev' : Option Nat → Evaluator}
    (hev : ∀ c, ev.Approximates False (· = ordinal c) (ev' c)) (i j : Option Int64) (k : Nat)
    (before specs : List (ConstSpec Expr)) (m : Machine) :
    ((ev.constantLines k (lastValues before) specs).leaving fun m' => { m' with iota := i })
        { m with iota := j } =
      numberedLines ev' k (expandedAfter before specs) { m with iota := i } := by
  induction specs generalizing k before m j with
  | nil => rfl
  | cons spec rest ih =>
    rw [constantLines_cons, expandedAfter_cons, numberedLines]
    by_cases hlen : (spec.filled before).values.length = (spec.filled before).names.length
    · have hline := (((hev (some k)).constantLine (spec.filled before).names
        (spec.filled before).values).run { m with iota := ordinal (some k) } rfl).resolve_right
        fun h => h.1
      rw [if_pos hlen, if_pos hlen]
      have hnumber : some (Int64.ofNat k) = ordinal (some k) := rfl
      simp only [bind, Eval.bind, Eval.leaving, Eval.update, Eval.under, hnumber, hline]
      cases (ev' (some k)).constantLine (spec.filled before).names (spec.filled before).values
          { m with iota := ordinal (some k) } with
      | value u m₁ => exact ih m₁.iota (k + 1) (before ++ [spec]) m₁
      | exit | exhausted => rfl
    · rw [if_neg hlen, if_neg hlen]
      rfl

/-- A constant block, whatever ordinal the machine records. -/
theorem approximates_constants {ev : Evaluator} {ev' : Option Nat → Evaluator}
    (hev : ∀ c, ev.Approximates False (· = ordinal c) (ev' c)) (specs : List (ConstSpec Expr)) :
    (ev.constants specs).Approximates False (· = i) (numberedLines ev' 0 (expanded specs)) := by
  have hrun : ∀ m : Machine, m.iota = i →
      ((ev.constantLines 0 [] specs).leaving fun m' => { m' with iota := i })
          { m with iota := none } =
        numberedLines ev' 0 (expanded specs) m := by
    rintro m rfl
    exact constantLines_numbered hev m.iota none 0 [] specs m
  constructor
  · intro m hm
    left
    rw [← hrun m hm, ← hm]
    rfl
  · intro m hm
    rw [Eval.Ends, ← hrun m hm]
    apply Eval.ends_leaving.mpr
    unfold Eval.Ends
    split <;> trivial

theorem Evaluator.Approximates.calleeAndArgs {gaps : Prop} {I : Option Int64 → Prop}
    {ev ev' : Evaluator} (h : ev.Approximates gaps I ev') (callee : Expr) (args : List Expr) :
    (Evaluator.calleeAndArgs ev callee args).Approximates gaps I
      (Evaluator.calleeAndArgs ev' callee args) := by
  apply (h.expr callee).bind
  intro f
  exact (h.spreadExprs args).bind fun vs => Eval.approximates_pure (f, vs)

/-- **The ordinal of the machine is the one that is handed down.** The induction is on the budget;
all forms but three hand the ordinal on to their parts. -/
theorem evaluator_numbered (n : Nat) (c : Option Nat) :
    (evaluator n).Approximates False (· = ordinal c) (numbered n c) := by
  induction n generalizing c with
  | zero =>
    have hexhausted : ∀ {ε : Type}, (Eval.exhausted : Eval ε Value).Approximates False
        (· = ordinal c) Eval.exhausted := fun {ε} => ⟨fun _ _ => .inl rfl, fun _ _ => trivial⟩
    exact ⟨fun _ => hexhausted, fun _ _ => hexhausted⟩
  | succ n ih =>
    constructor
    · intro e
      rw [evaluator_expr]
      refine Eval.Approximates.mapExit ?_ _
      cases e with
      | ident span name =>
        rw [numberedExpr, exprForm]
        by_cases hname : name = "iota"
        · rw [if_pos hname, hname]
          exact approximates_iota
        · rw [if_neg hname]
          exact Eval.approximates_identifier name
      | call span callee args =>
        rw [numberedExpr, exprForm, call_eq]
        apply ((ih c).calleeAndArgs callee args).bind
        exact fun p => (ih none).callValue rfl p.1 p.2 _ _
      | int | float | str | binary | unary | func | select | composite =>
        exact (ih c).exprForm (.inl (by simp))
    · intro label s
      rw [evaluator_stmt]
      refine Eval.Approximates.mapExit ?_ _
      cases s with
      | constants span specs =>
        exact Evaluator.Approximates.effect (approximates_constants ih specs).asStmt
      | empty | expr | define | assign | incDec | block | branch | loop | jump | result | labeled
      | switch => exact (ih c).stmtForm (.inl rfl) label (.inl (by simp))

end Numbered

/-! ### What is recorded between evaluations -/

/-- The context after an evaluation is the context before it, and the ordinal is a part of it. -/
theorem Policy.Keeps.keepsOrdinal {ε α : Type} {binds : Bool} {x : Eval ε α} {V : α → Prop}
    {X : ε → Prop} (h : Policy.any.Keeps binds x V X) : x.KeepsOrdinal := by
  intro m
  apply (h m (Policy.holds_any m)).mono
  · exact fun _ _ ⟨hm', _⟩ => congrArg (·.iota) hm'.context_eq
  · exact fun _ _ ⟨hm', _⟩ => congrArg (·.iota) hm'.context_eq

theorem Request.keepsOrdinal (r : Request) (budget : Nat) : (r.run budget).KeepsOrdinal := by
  have hobeys : r.Obeys Policy.any := by
    cases r <;> simp [Obeys, Policy.any, Policy.function, Stmt.Obeys, Expr.Obeys]
  have hkeeps : r.Evaluates → (r.run budget).KeepsOrdinal := fun evaluates =>
    (Policy.any.keeps_request hobeys evaluates budget).keepsOrdinal
  cases r with
  | method ty decl f pointerReceiver =>
    intro m
    unfold Eval.Ends
    rw [Request.run_method]
    by_cases harity : f.params.length = decl.sig.params.length + 1
    · rw [if_pos harity]
      rcases (Evaluator.declareBound ty decl pointerReceiver).run.run m.types with
        ⟨e | ⟨index, func⟩, types⟩
      · by_cases hendless : e = .endless <;> simp only [hendless, reduceIte]
      · rfl
    · rw [if_neg harity]
  | enterFrame | leaveFrame => exact fun _ => rfl
  | program | nested | stmt | expr | call | define | assign => exact hkeeps trivial

/-- Between requests, no interpreter of a session records an ordinal. -/
theorem Session.iota_of_reachable {allowed : Session → Action → Prop} {s : Session}
    (h : s.ReachableBy allowed) {key : String} {i : Interpreter}
    (hi : s.interpreters.find? key = some i) : (s.machine i).iota = none := by
  change i.iota = none
  induction h generalizing key i with
  | start threadSafe =>
    rcases Assoc.eq_or_find?_of_set hi with rfl | hold
    · rfl
    · cases hold
  | @step s a _ _ ih =>
    cases a with
    | addUniverse | types => exact ih hi
    | addInterpreter key' index limit globals =>
      rcases Assoc.eq_or_find?_of_set hi with rfl | hold
      · rfl
      · exact ih hold
    | request key' budget r =>
      have hall : ∀ key i, (s.perform (.request key' budget r)).interpreters.find? key = some i →
          i.iota = none := by
        refine Session.perform_request
          (P := fun s => ∀ key i, s.interpreters.find? key = some i → i.iota = none)
          (fun _ _ => ih) fun j hj => ?_
        have habsorb : ∀ m : Machine, m.iota = (s.machine j).iota → ∀ key i,
            (s.absorb key' j m).interpreters.find? key = some i → i.iota = none := by
          intro m hm key i hi
          rcases Assoc.eq_or_find?_of_set hi with rfl | hold
          · exact hm.trans (ih hj)
          · exact ih hold
        apply (r.keepsOrdinal budget (s.machine j)).mono
        · exact fun _ m hm => habsorb m hm
        · exact fun _ m hm => habsorb m hm
      exact hall key i hi

/-- **A constant block writes its values out, and its ordinals are local.**

- A constant block and the block with the repeated values written out are the same computation.
- From a machine that records the ordinal `c`, statements, expressions and calls are evaluated as by
  `numbered n c`, so that `iota` stands for what is handed down to it: for the number of the line in
  the values of a constant line, for no ordinal in the body of a function, and for what it stands
  for around them in all other parts of a node.
- Under the ordinal `k`, `iota` has the value `k`, and under none it is undefined.
- However an evaluation ends, the machine records the ordinal that it did before, and between
  requests the interpreters of a session record none. -/
theorem ordinals_are_local :
    (∀ n label span specs, (evaluator n).stmt label (.constants span specs) =
      (evaluator n).stmt label (.constants span (expanded specs))) ∧
    (∀ n c m, m.iota = ordinal c →
      (∀ label s, (evaluator n).stmt label s m = (numbered n c).stmt label s m) ∧
      (∀ e, (evaluator n).expr e m = (numbered n c).expr e m) ∧
      ∀ callee args name span, callValue n callee args name span m =
        (numbered n none).callValue callee args name span m) ∧
    (∀ n s m, (∀ k, (numbered (n + 1) (some k)).expr (.ident s "iota") m =
        .value (.int (Int64.ofNat k)) m) ∧
      (numbered (n + 1) none).expr (.ident s "iota") m =
        .exit ⟨.undefinedIdentifier "iota", some s, none, []⟩ m) ∧
    (∀ n, (∀ label s, ((evaluator n).stmt label s).KeepsOrdinal) ∧
      (∀ e, ((evaluator n).expr e).KeepsOrdinal) ∧
      ∀ callee args name span, (callValue n callee args name span).KeepsOrdinal) ∧
    ∀ allowed s, Session.ReachableBy allowed s → ∀ key i,
      s.interpreters.find? key = some i → (s.machine i).iota = none := by
  refine ⟨fun n label span specs => ?expansion, fun n c m hm => ?handedDown,
    fun n s m => ⟨fun k => rfl, rfl⟩, fun n => ?restored,
    fun allowed s hs key i hi => Session.iota_of_reachable hs hi⟩
  case expansion =>
    cases n with
    | zero => rfl
    | succ n =>
      have hlines : (evaluator n).constantLines 0 [] specs =
          (evaluator n).constantLines 0 [] (expanded specs) :=
        constantLines_expanded 0 [] specs
      rw [evaluator_stmt, evaluator_stmt, stmtForm, stmtForm, constants, constants, hlines]
      rfl
  case handedDown =>
    have h := evaluator_numbered n c
    have hnone := evaluator_numbered n none
    refine ⟨fun label s => ?_, fun e => ?_, fun callee args name span => ?_⟩
    · exact ((h.stmt label s).run m hm).resolve_right fun hfalse => hfalse.1
    · exact ((h.expr e).run m hm).resolve_right fun hfalse => hfalse.1
    · have hcall : (callValue n callee args name span).Approximates False (fun _ => True)
          ((numbered n none).callValue callee args name span) :=
        hnone.callValue rfl callee args name span
      exact (hcall.run m trivial).resolve_right fun hfalse => hfalse.1
  case restored =>
    have h := Policy.any.governs n
    refine ⟨fun label s => ?_, fun e => ?_, fun callee args name span => ?_⟩
    · exact (h.stmt label fun _ _ => trivial).keepsOrdinal
    · exact (h.expr fun _ _ => trivial).keepsOrdinal
    · exact (h.callValue trivial fun _ _ => trivial).keepsOrdinal

/-- `const (a = iota; b)`. -/
def numberedPair : Stmt :=
  .constants default [⟨["a"], [.ident default "iota"]⟩, ⟨["b"], []⟩]

/-- `const c = func() { return iota }()`. -/
def numberedCall : Stmt :=
  .constants default [⟨["c"], [.call default
    (.func default [] (.result default [.ident default "iota"])) []]⟩]

/-- The second line is numbered by itself, and after the block `iota` is undefined, as it is in the
body of a function that a line calls. -/
theorem ordinals_are_local_pair :
    inPackage.iota = ordinal none ∧
    (∃ m', evalStmt 9 numberedPair inPackage = .value .void m' ∧
      (numbered 9 none).stmt none numberedPair inPackage = .value .void m' ∧
      m'.frames.binding? ⟨0⟩ "b" = some ⟨.int 1, .immutable⟩ ∧
      evalExpr 9 (.ident default "iota") m' =
        .exit ⟨.undefinedIdentifier "iota", some default, none, []⟩ m') ∧
    (∃ e m', evalStmt 9 numberedCall inPackage = .exit (.failed e) m' ∧
      e.cause = .undefinedIdentifier "iota") ∧
    ∀ key i, (Session.start false).interpreters.find? key = some i →
      ((Session.start false).machine i).iota = none := by
  obtain ⟨-, hscoped, hrules, hkeeps, hsession⟩ := ordinals_are_local
  have hpackage : inPackage.iota = ordinal none := rfl
  refine ⟨hpackage, ?_, ?_, hsession (fun _ _ => True) _ (.start false)⟩
  · obtain ⟨m', hrun, hb, hiota⟩ : ∃ m', evalStmt 9 numberedPair inPackage = .value .void m' ∧
        m'.frames.binding? ⟨0⟩ "b" = some ⟨.int 1, .immutable⟩ ∧ m'.iota = ordinal none :=
      ⟨_, rfl, rfl, rfl⟩
    have hstmt := (hscoped 9 none inPackage hpackage).1 none numberedPair
    have hexpr := (hscoped 9 none m' hiota).2.1 (.ident default "iota")
    exact ⟨m', hrun, hstmt.symm.trans hrun, hb, hexpr.trans (hrules 8 default m').2⟩
  · exact ⟨_, _, rfl, rfl⟩

end ScriptEngine
