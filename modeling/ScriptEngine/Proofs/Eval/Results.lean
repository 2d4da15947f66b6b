import ScriptEngine.Proofs.Eval.Calls
import ScriptEngine.Proofs.Eval.Context
import ScriptEngine.Proofs.Eval.Targets

/-!
The results of a call, and what takes them.

At the end of a call, its results become one value (`Value.ofResults`). A definition takes that
value apart again, and so do `return` and the arguments of a call if it stands alone there. Two of
the three undo what the call did, for any number of results. The third takes apart several results
only: a call without results, alone among the arguments of another call, is passed on as one
argument (`Value.spread_ofResults`). Main statement: apart from that, every consumer gets exactly
the results that were returned (`results_passed_on`).
-/

namespace ScriptEngine

open Evaluator

/-! ### Several results as one value -/

namespace Value

/-- The value is one result: neither nothing nor several. -/
def isSingle : Value → Bool
  | .void | .tuple _ => false
  | _ => true

section OfResults

variable {v : Value} {vs : List Value}

theorem results_of_isSingle (h : v.isSingle = true) : v.results = [v] := by
  cases v with
  | void | tuple => cases h
  | _ => rfl

theorem spread_of_isSingle (h : v.isSingle = true) : v.spread = [v] := by
  cases v with
  | tuple => cases h
  | _ => rfl

/-- A definition gets the results back. -/
theorem results_ofResults (h : ∀ v ∈ vs, v.isSingle = true) : (ofResults vs).results = vs := by
  match vs with
  | [] => rfl
  | [v] => exact results_of_isSingle (h v (List.mem_singleton_self v))
  | _ :: _ :: _ => rfl

/-- Arguments get the results back, if there are any. -/
theorem spread_ofResults (h : ∀ v ∈ vs, v.isSingle = true) :
    (ofResults vs).spread = if vs = [] then [.void] else vs := by
  match vs with
  | [] => rfl
  | [v] => exact spread_of_isSingle (h v (List.mem_singleton_self v))
  | _ :: _ :: _ => rfl

/-- A `return` makes the same value of them. -/
theorem ofResults_spread (h : ∀ v ∈ vs, v.isSingle = true) :
    ofResults (ofResults vs).spread = ofResults vs := by
  rw [spread_ofResults h]
  split
  · next hnil =>
    rw [hnil]
    rfl
  · rfl

end OfResults

end Value

/-! ### Calls that return -/

/-- The results of a function whose body ends so: those of its `return`, and none where the body
ends without one. -/
def bodyResults? : Run Exit Value → Option (List Value × Machine)
  | .value _ m => some ([], m)
  | .exit (.result vs) m => some (vs, m)
  | _ => none

/-- The call expression, evaluated from the first machine, enters a call that returns `vs`; the last
machine is what it leaves. -/
inductive Returns (ev : Evaluator) : Expr → Machine → List Value → Machine → Prop where
  | call {span callee args m m₁ m₂ m₃ f xs a vs} : ev.expr callee m = .value f m₁ →
      ev.spreadExprs args m₁ = .value xs m₂ →
      m₂.activation? xs callee.calleeName (some span) f = some a →
      a.args.length = a.code.params.length → m₂.calls.full? = none →
      bodyResults? (ev.body a.code a.args (enterCall a.code a.frame m₂)) = some (vs, m₃) →
      Returns ev (.call span callee args) m vs (leaveCall m₂.env m₂.iota m₃)

theorem callResult_of_bodyResults? {env : Environment} {iota : Option Int64} {r : Run Exit Value}
    {vs : List Value} {m : Machine} (h : bodyResults? r = some (vs, m)) :
    callResult env iota r = .value (.ofResults vs) (leaveCall env iota m) := by
  cases r with
  | value v m' =>
    cases h
    rfl
  | exit x m' =>
    cases x with
    | result => cases h; rfl
    | failed | leaveLoop | nextRound => cases h
  | exhausted => cases h

section Returns

variable {ev : Evaluator} {e : Expr} {m m' : Machine} {v : Value} {vs : List Value} {n : Nat}

/-- A function value that is called on as many arguments as it has parameters, below the limit on
calls, runs its body on them. -/
theorem callFunction_of_enters {f : Function} {args : List Value} {frame : CallFrame}
    (hlen : args.length = f.params.length) (hfull : m.calls.full? = none) :
    ev.callFunction f args frame m =
      callResult m.env m.iota (ev.body f args (enterCall f frame m)) := by
  simp only [callFunction, if_pos hlen, hfull]

/-- What a call that returns evaluates to. -/
theorem Returns.exprForm (h : Returns ev e m vs m') :
    ev.exprForm e m = .value (.ofResults vs) m' := by
  obtain ⟨hcallee, hargs, ha, hlen, hfull, hbody⟩ := h
  simp only [Evaluator.exprForm, Evaluator.call, bind, Eval.bind, hcallee, hargs,
    callValue_of_activation ha, callFunction_of_enters hlen hfull]
  exact callResult_of_bodyResults? hbody

theorem Returns.evalExpr (h : Returns (evaluator n) e m vs m') :
    evalExpr (n + 1) e m = .value (.ofResults vs) m' := by
  simp only [ScriptEngine.evalExpr, evaluator, onOwnStack_eq, Eval.mapExit, Eval.handle, h.exprForm]

/-- What is alone in a `return` or among arguments spreads. -/
theorem spreadExprs_singleton (h : ev.expr e m = .value v m') :
    ev.spreadExprs [e] m = .value v.spread m' := by
  simp only [spreadExprs, bind, Eval.bind, pure, Eval.pure, h]

end Returns

/-! ### Binding names -/

/-- The names are bound to the values in the current frame, in order, and nothing else changes; the
blank name is not bound. -/
structure BindsEach (names : List String) (vs : List Value) (m m' : Machine) : Prop where
  bound : ∀ x v, (x, v) ∈ names.zip vs → x ≠ blank →
    m'.frames.binding? m.env.current x = some ⟨v, .mutable⟩
  kept : ∀ id y, (id = m.env.current → y ∉ names) →
    m'.frames.binding? id y = m.frames.binding? id y
  parents : ∀ id, m'.frames.parent? id = m.frames.parent? id
  rest : m' = { m with frames := m'.frames }

section BindsEach

variable {m m' : Machine} {name : String} {v : Value} {names : List String} {vs : List Value}

/-- A name has the value of the binding that it is resolved to. -/
theorem identifier_of_resolve {owner : FrameId} {b : Binding} (hname : isReserved name = false)
    (h : m.frames.resolve m.env.current name = some (owner, b)) :
    Eval.identifier name m = .value b.value m := by
  have hlookup : m.env.lookup m.frames name = some b.value := by
    rw [Environment.lookup, Frames.lookup, h]
    rfl
  have hne : name ≠ "true" ∧ name ≠ "false" ∧ name ≠ "iota" := by
    simpa [isReserved, and_assoc] using hname
  simp only [Eval.identifier, Environment.identifier, if_neg hne.1, if_neg hne.2.1, if_neg hne.2.2,
    hlookup]

/-- A name that is bound in the current frame has that value. -/
theorem identifier_of_binding? {b : Binding} (hname : isReserved name = false)
    (h : m.frames.binding? m.env.current name = some b) :
    Eval.identifier name m = .value b.value m :=
  identifier_of_resolve hname (Frames.resolve_of_binding? h)

theorem bindName_of_unreserved (hname : isReserved name = false) (b : Binding) :
    Eval.bindName name b m =
      .value () { m with frames := m.frames.define m.env.current name b } := by
  simp only [Eval.bindName, Environment.define, hname, Bool.false_eq_true, if_false]

/-- Different names are bound one after the other. -/
theorem exists_eachPair (hlen : names.length = vs.length) (hnodup : names.Nodup)
    (hnames : ∀ x ∈ names, isReserved x = false)
    (hframe : m.env.current.index < m.frames.size) :
    ∃ m', eachPair (bindUnlessBlank .mutable) names vs m = .value () m' ∧
      BindsEach names vs m m' := by
  have hplace : ∀ x ∈ names, Writing.define.place m x = .ok m.env.current :=
    fun x hx => Writing.place_define_of_unreserved (hnames x hx)
  obtain ⟨m', hrun, h⟩ := Writing.exists_written (w := .define) hlen fun x hx =>
    Writing.refusal?_of_place (hplace x hx)
  refine ⟨m', hrun, fun x v hmem hx => ?_, fun id y hy => ?_, h.parents, h.rest⟩
  · have hlast := lastValue?_of_nodup hnodup hmem
    exact h.entered x v _ hlast hx (hplace x (List.of_mem_zip hmem).1) hframe
  · refine h.kept id y fun hlast _ hid => ?_
    have hmem : y ∈ names := mem_of_lastValue? hlast
    cases (hplace y hmem).symm.trans hid
    exact hy rfl hmem

end BindsEach

/-! ### Consumers -/

/-- Evaluation removes no frame. -/
theorem Evolves.size_le {P : Value → Prop} {binds : Bool} {m m' : Machine}
    (h : Evolves P binds m m') : m.frames.size ≤ m'.frames.size := by
  have hgrown : ∀ {fs : Frames} {parent : Option FrameId} {k : Nat},
      (fs.grow parent).size ≤ k → fs.size ≤ k := by
    intro fs parent k h
    rw [Frames.size_grow] at h
    exact Nat.le_of_succ_le h
  induction h with
  | refl | resolve => exact Nat.le_refl _
  | trans _ _ ih₁ ih₂ => exact Nat.le_trans ih₁ ih₂
  | @define m name b frames hd =>
    unfold Environment.define at hd
    split at hd
    · cases hd
    · cases hd
      exact Nat.le_of_eq (Frames.size_define ..).symm
  | @assign _ m name v frames ha =>
    unfold Environment.assign at ha
    split at ha
    · cases ha
    · obtain ⟨owner, b, -, -, rfl⟩ := Frames.exists_of_assign ha
      exact Nat.le_of_eq (Frames.size_define ..).symm
  | inFrame _ ih => exact hgrown ih
  | underOrdinal _ ih => exact ih
  | called _ _ ih => exact hgrown ih

section Consumers

variable {n : Nat} {e : Expr} {m m' : Machine} {v : Value} {vs : List Value}

/-- The frame that is current before an expression is current and exists after it. -/
theorem current_of_evalExpr (h : evalExpr n e m = .value v m')
    (hframe : m.env.current.index < m.frames.size) :
    m'.env = m.env ∧ m'.env.current.index < m'.frames.size := by
  have hkeeps := (Policy.any.governs n).expr (e := e) (fun _ _ => trivial) m (Policy.holds_any m)
  rw [Eval.Ends, show (evaluator n).expr e m = _ from h] at hkeeps
  have henv : m'.env = m.env := congrArg (·.env) hkeeps.1.context_eq
  exact ⟨henv, henv ▸ Nat.lt_of_lt_of_le hframe hkeeps.1.size_le⟩

/-- A definition whose right side is one expression. -/
theorem evalStmt_define (h : evalExpr n e m = .value v m') (s : Span) (names : List String) :
    evalStmt (n + 1) (.define s names [e]) m =
      if v.results.length = names.length then
        ((effect (eachPair (bindUnlessBlank .mutable) names v.results).asStmt).mapExit
          (·.locate s)) m'
      else .exit
        (.failed ⟨.assignmentMismatch names.length v.results.length, some s, none, []⟩) m' :=
  Writing.stmt_of_values (w := .define) (sides_singleton h) none s names

/-- A `return` of one expression. -/
theorem evalStmt_result (h : evalExpr n e m = .value v m') (s : Span) :
    evalStmt (n + 1) (.result s [e]) m = .exit (.result v.spread) m' := by
  simp only [evalStmt, evaluator, onOwnStack_eq, stmtForm, Eval.mapExit, Eval.handle, Eval.asStmt,
    bind, Eval.bind, spreadExprs_singleton h]
  rfl

/-- A block of it. -/
theorem evalStmt_block_result (h : evalExpr n e m.opened = .value v m') (s s' : Span) :
    evalStmt (n + 2) (.block s [.result s' [e]]) m = .exit (.result v.spread) m'.closed := by
  have hresult := evalStmt_result h s'
  simp only [evalStmt, Machine.opened] at hresult
  rw [evalStmt, evaluator]
  simp only [onOwnStack_eq, stmtForm, effect, block, Eval.inFrame, stmts, Eval.leaving,
    Eval.mapExit, Eval.handle, bind, Eval.bind, hresult]
  rfl

/-- A call whose body ends with a `return`. -/
theorem callFunction_of_result {f : Function} {args : List Value} {frame : CallFrame}
    {m₀ : Machine} (hlen : args.length = f.params.length) (hfull : m.calls.full? = none)
    (hbound : bindParams f.params args (enterCall f frame m) = .value () m₀)
    (hbody : evalStmt n f.body m₀ = .exit (.result vs) m') :
    (evaluator n).callFunction f args frame m =
      .value (.ofResults vs) (leaveCall m.env m.iota m') := by
  rw [callFunction_of_enters hlen hfull, body_of_bound hbound]
  exact callResult_of_bodyResults? (congrArg bodyResults? hbody)

/-- A call of a function whose only argument is an expression. -/
theorem evalExpr_call_singleton {q : Machine} {callee : Expr} {f : Function}
    (hcallee : evalExpr n callee q = .value (.func f) m) (h : evalExpr n e m = .value v m')
    (s : Span) : evalExpr (n + 1) (.call s callee [e]) q =
      (((evaluator n).callFunction f v.spread ⟨callee.calleeName, some s⟩).mapExit
        (·.locate s)) m' := by
  simp only [evalExpr] at hcallee
  simp only [evalExpr, evaluator, onOwnStack_eq, exprForm, Evaluator.call, Evaluator.callValue,
    Eval.mapExit, Eval.handle, bind, Eval.bind, hcallee, spreadExprs_singleton h, Expr.span]

/-- An error that leaves the body of a call has a backtrace. -/
theorem backtrace_of_callResult {env : Environment} {iota : Option Int64} {r : Run Exit Value}
    {x : EvalError} (h : callResult env iota r = .exit x m) : x.backtrace ≠ none := by
  have htrace : ∀ (y : EvalError) calls, (y.trace calls).backtrace ≠ none := by
    intro y calls
    unfold EvalError.trace
    split
    · next b hb => rw [hb]; nofun
    · nofun
  cases r with
  | value | exhausted => cases h
  | exit y m₁ =>
    cases y with
    | result => cases h
    | failed | leaveLoop | nextRound =>
      cases h
      exact htrace _ _

/-- A call is refused for its number of arguments exactly if that is not the number of parameters;
an error of the body is not such a refusal. -/
theorem callFunction_refused_iff {ev : Evaluator} {f : Function} {args : List Value}
    {frame : CallFrame} {s : Span} :
    ((ev.callFunction f args frame).mapExit (·.locate s)) m =
        .exit ⟨.arityMismatch frame.name f.params.length args.length, some s, none, []⟩ m ↔
      f.params.length ≠ args.length := by
  simp only [callFunction, Eval.mapExit, Eval.handle]
  by_cases hlen : args.length = f.params.length
  · refine iff_of_false ?_ fun hne => hne hlen.symm
    rw [if_pos hlen]
    intro h
    cases hfull : m.calls.full? with
    | some max =>
      simp only [hfull] at h
      cases h
    | none =>
      simp only [hfull] at h
      split at h
      · cases h
      · next x m₁ hx =>
        have hback := backtrace_of_callResult hx
        simp only [Eval.raise, Run.exit.injEq] at h
        have hlocated := congrArg EvalError.backtrace h.1
        unfold EvalError.locate at hlocated
        split at hlocated <;> exact hback hlocated
      · cases h
  · rw [if_neg hlen]
    exact iff_of_true rfl fun heq => hlen heq.symm

end Consumers

/-- **The results of a call are passed on as they are**, but for one case. Let a call expression
return `vs`. A definition of different names succeeds exactly if there are as many, and then binds
each to its result and changes nothing else. A function whose body returns the call has the same
value. A call whose only argument it is gets exactly `vs`, and is refused exactly if the function
does not have that many parameters, provided that there is a result: without one, it gets one
argument all the same. -/
theorem results_passed_on {n : Nat} {e : Expr} {m m' : Machine} {vs : List Value}
    (h : Returns (evaluator n) e m vs m') (hvs : ∀ v ∈ vs, v.isSingle = true)
    (hframe : m.env.current.index < m.frames.size) :
    evalExpr (n + 1) e m = .value (.ofResults vs) m' ∧
    (∀ s names, names.Nodup → (∀ x ∈ names, isReserved x = false) →
      (names.length = vs.length →
        ∃ m'', evalStmt (n + 2) (.define s names [e]) m = .value .void m'' ∧
          BindsEach names vs m' m'' ∧
          ∀ x v, (x, v) ∈ names.zip vs → x ≠ blank → Eval.identifier x m'' = .value v m'') ∧
      (names.length ≠ vs.length →
        evalStmt (n + 2) (.define s names [e]) m = .exit (.failed
          ⟨.assignmentMismatch names.length vs.length, some s, none, []⟩) m')) ∧
    (∀ f args frame q m₀, args.length = f.params.length → q.calls.full? = none →
      bindParams f.params args (enterCall f frame q) = .value () m₀ →
      (∀ s, f.body = .result s [e] → m₀ = m →
        (evaluator (n + 2)).callFunction f args frame q =
          .value (.ofResults vs) (leaveCall q.env q.iota m')) ∧
      (∀ s s', f.body = .block s [.result s' [e]] → m₀.opened = m →
        (evaluator (n + 3)).callFunction f args frame q =
          .value (.ofResults vs) (leaveCall q.env q.iota m'))) ∧
    ∀ q s callee f, evalExpr (n + 1) callee q = .value (.func f) m →
      ∃ passed, (passed = vs ↔ vs ≠ []) ∧ (vs = [] → passed = [.void]) ∧
        evalExpr (n + 2) (.call s callee [e]) q =
          (((evaluator (n + 1)).callFunction f passed ⟨callee.calleeName, some s⟩).mapExit
            (·.locate s)) m' ∧
        (evalExpr (n + 2) (.call s callee [e]) q = .exit
            ⟨.arityMismatch callee.calleeName f.params.length passed.length, some s, none, []⟩ m' ↔
          f.params.length ≠ passed.length) := by
  have hvalue := h.evalExpr
  have hresults := Value.results_ofResults hvs
  obtain ⟨henv, hcurrent⟩ := current_of_evalExpr hvalue hframe
  refine ⟨hvalue, fun s names hnodup hnames => ⟨fun hlen => ?_, fun hlen => ?_⟩,
    fun f args frame q m₀ hlen hfull hbound => ⟨fun s hbody hm => ?_, fun s s' hbody hm => ?_⟩,
    fun q s callee f hcallee => ?_⟩
  · obtain ⟨m'', hrun, hbinds⟩ := exists_eachPair hlen hnodup hnames hcurrent
    refine ⟨m'', ?_, hbinds, fun x v hmem hx => ?_⟩
    · rw [evalStmt_define hvalue, hresults, if_pos hlen.symm]
      simp only [effect, Eval.mapExit, Eval.handle, Eval.asStmt, bind, Eval.bind, hrun, pure,
        Eval.pure]
    · have hsame : m''.env = m'.env := congrArg (·.env) hbinds.rest
      have hbound := hbinds.bound x v hmem hx
      rw [← hsame] at hbound
      exact identifier_of_binding? (hnames x (List.of_mem_zip hmem).1) hbound
  · rw [evalStmt_define hvalue, hresults, if_neg (Ne.symm hlen)]
  · subst hm
    have hrun := evalStmt_result hvalue s
    rw [← hbody] at hrun
    rw [callFunction_of_result hlen hfull hbound hrun, Value.ofResults_spread hvs]
  · subst hm
    have hrun := evalStmt_block_result hvalue s s'
    rw [← hbody] at hrun
    rw [callFunction_of_result hlen hfull hbound hrun, Value.ofResults_spread hvs]
    rfl
  · have hcall := evalExpr_call_singleton hcallee hvalue s
    refine ⟨(Value.ofResults vs).spread, ?_, fun hnil => ?_, hcall, ?_⟩
    · rw [Value.spread_ofResults hvs]
      by_cases hnil : vs = [] <;> simp [hnil]
    · rw [hnil]
      rfl
    · rw [hcall]
      exact callFunction_refused_iff

/-- A machine with one frame, on which nothing has run. -/
def inPackage : Machine :=
  ⟨Frames.empty.grow none, .empty, ⟨⟨0⟩, [], ⟨0⟩⟩, .empty, .empty none, none⟩

/-- `func() { return 1, 2 }()`. -/
def pairCall : Expr :=
  .call default (.func default [] (.result default [.int default 1, .int default 2])) []

/-- `func() {}()`. -/
def emptyCall : Expr :=
  .call default (.func default [] (.block default [])) []

/-- `func(params) {}`. -/
def taking (params : List String) : Expr :=
  .func default params (.block ⟨1, 2⟩ [])

/-- Two results are bound to two names, returned as they are, and taken by two parameters. No
result is one argument: it is refused by a function without parameters. -/
theorem results_passed_on_pair :
    (∃ m'', evalStmt 9 (.define default ["a", "b"] [pairCall]) inPackage = .value .void m'' ∧
      Eval.identifier "a" m'' = .value (.int 1) m'' ∧
      Eval.identifier "b" m'' = .value (.int 2) m'') ∧
    (∃ m', evalStmt 9 (.define default ["a"] [pairCall]) inPackage =
      .exit (.failed ⟨.assignmentMismatch 1 2, some default, none, []⟩) m') ∧
    (∃ q', (evaluator 9).callFunction ⟨[], .result default [pairCall], ⟨0⟩⟩ [] default inPackage =
      .value (.tuple [.int 1, .int 2]) q') ∧
    (∃ m', evalExpr 9 (.call default (taking ["x"]) [pairCall]) inPackage =
      .exit ⟨.arityMismatch "func" 1 2, some default, none, []⟩ m') ∧
    ∃ m', evalExpr 9 (.call default (taking []) [emptyCall]) inPackage =
      .exit ⟨.arityMismatch "func" 0 1, some default, none, []⟩ m' := by
  have hpair : ∀ m, m.calls.full? = none →
      ∃ m', Returns (evaluator 7) pairCall m [.int 1, .int 2] m' :=
    fun m hm => ⟨_, .call rfl rfl rfl rfl hm rfl⟩
  have hempty : ∃ m', Returns (evaluator 7) emptyCall inPackage [] m' :=
    ⟨_, .call rfl rfl rfl rfl rfl rfl⟩
  have htaking : ∀ params, evalExpr 8 (taking params) inPackage =
    .value (.func ⟨params, .block ⟨1, 2⟩ [], ⟨0⟩⟩) inPackage := fun params => rfl
  obtain ⟨m', h⟩ := hpair inPackage rfl
  obtain ⟨-, hdefine, -, hcall⟩ := results_passed_on h (by decide) (by decide)
  refine ⟨?_, ⟨m', (hdefine default ["a"] (by decide) (by decide)).2 (by decide)⟩, ?_, ?_, ?_⟩
  · obtain ⟨m'', hrun, -, hvalues⟩ :=
      (hdefine default ["a", "b"] (by decide) (by decide)).1 rfl
    exact ⟨m'', hrun, hvalues "a" _ (by simp) (by decide), hvalues "b" _ (by simp) (by decide)⟩
  · obtain ⟨m₁, h₁⟩ := hpair (enterCall ⟨[], .result default [pairCall], ⟨0⟩⟩ default inPackage) rfl
    obtain ⟨-, -, hreturn, -⟩ := results_passed_on h₁ (by decide) (by decide)
    exact ⟨_, (hreturn _ [] default inPackage _ rfl rfl rfl).1 default rfl rfl⟩
  · obtain ⟨passed, hpassed, -, -, hrefused⟩ := hcall inPackage default _ _ (htaking ["x"])
    rw [hpassed.mpr (by simp)] at hrefused
    exact ⟨m', hrefused.mpr (by decide)⟩
  · obtain ⟨m₀, h₀⟩ := hempty
    obtain ⟨-, -, -, hcall⟩ := results_passed_on h₀ (by decide) (by decide)
    obtain ⟨passed, -, hpassed, -, hrefused⟩ := hcall inPackage default _ _ (htaking [])
    rw [hpassed rfl] at hrefused
    exact ⟨m₀, hrefused.mpr (by decide)⟩

end ScriptEngine
