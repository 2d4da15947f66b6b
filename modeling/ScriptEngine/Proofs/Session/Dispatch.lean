import Mathlib
import ScriptEngine.Proofs.Session.Declarations
import ScriptEngine.Proofs.Types.EmbeddingPath
import ScriptEngine.Proofs.Universe.LatestBinding

/-!
Which code a selected method runs.

A selector that names no field binds the method at the end of the path that the search finds to the
callable that the universe answers (`Universe.Selects`). Where methods are declared through
interpreters only, that callable belongs to the one declaration of the method
(`Universe.Selects.declaration`), and only the interpreter that made the declaration knows its code,
which is the function declared (`Session.Ledger.find?_func`). Main statement:
`Session.selected_runs_declared`.
-/

namespace ScriptEngine

/-- What stands at the index of a method has its name. -/
theorem Catalog.name_of_methodIndex? {c : Catalog} {ty : TypeId} {name : String} {index : Nat}
    {m : MethodDecl} (h : c.methodIndex? ty name = some index)
    (hm : (c.methods ty)[index]? = some m) : m.name = name := by
  obtain ⟨hlt, hname, -⟩ := List.findIdx?_eq_some_iff_getElem.mp h
  obtain rfl := Option.some.inj ((List.getElem?_eq_getElem hlt).symm.trans hm)
  exact beq_iff_eq.mp hname

/-! ### What is selected -/

/-- The method `name` of a value of type `ty` is found on `path`, which leads from the value `recv`
to `target`, and is answered with the callable `func`. -/
structure Universe.Selects (u : Universe) (recv : Value) (ty : TypeId) (name : String)
    (path : MethodPath) (target : Value) (func : FuncId) : Prop where
  found : u.catalog.findMethod ty name = some path
  followed : Evaluator.follow name path.fields recv = .ok target
  answered : ∃ method, u.answer path.owner path.index = .ok method ∧ method.func = some func

section Select

variable {m m₁ m₂ : Machine} {ty : TypeId} {name : String} {recv v : Value}

theorem ends_selectMethod (hsound : Universe.Sound m.types) (recv : Value) (ty : TypeId)
    (name : String) : (Evaluator.selectMethod recv ty name).Ends m
      (fun v _ => ∃ path target func, v = .method target func name ∧
        m.types.Selects recv ty name path target func)
      fun _ _ => True := by
  apply Eval.ends_bind.mpr
  apply Eval.ends_asks.mpr
  cases hpath : m.types.catalog.findMethod ty name with
  | none => trivial
  | some path =>
    dsimp only
    cases htarget : Evaluator.follow name path.fields recv with
    | error c => trivial
    | ok target =>
      apply Eval.ends_bind.mpr
      apply Eval.ends_pure.mpr
      apply Eval.ends_bind.mpr
      have hanswer := Universe.run_method_fst hsound path.owner path.index
      refine Eval.ends_onTypes_iff.mpr ⟨fun method u hrun => ?_, fun _ _ _ _ => trivial⟩
      rw [hrun] at hanswer
      cases hfunc : method.func with
      | none => trivial
      | some func => exact ⟨path, target, func, rfl, hpath, htarget, method, hanswer.symm, hfunc⟩

/-- A selector selects from the value of its base. -/
theorem selectFrom_of_evalExpr {budget : Nat} {span : Span} {base : Expr}
    (hbase : evalExpr budget base m = .value recv m₁)
    (h : evalExpr (budget + 1) (.select span base name) m = .value v m₂) :
    Evaluator.selectFrom recv name m₁ = .value v m₂ := by
  unfold evalExpr at h hbase
  simp only [evaluator, onOwnStack_eq, Evaluator.exprForm, Evaluator.select] at h
  change Eval.handle (Eval.bind ((evaluator budget).expr base) fun recv =>
    Evaluator.selectFrom recv name) _ m = _ at h
  simp only [Eval.handle, Eval.bind, hbase] at h
  split at h
  · next hrun =>
    cases h
    exact hrun
  · cases h
  · cases h

/-- Selecting from a struct value that has no such field selects a method. -/
theorem selectFrom_of_field?_eq_none {fields : List Value}
    (h : Evaluator.field? m.types.catalog name (.struct ty fields) = none) :
    Evaluator.selectFrom (.struct ty fields) name m =
      Evaluator.selectMethod (.struct ty fields) ty name m := by
  unfold Evaluator.selectFrom
  change Eval.bind (Eval.asks _) _ m = _
  simp only [Eval.bind, Eval.asks, h]

end Select

/-- **What is selected was bound by the declaration of the method that was found.** -/
theorem Universe.Selects.declaration {D : Set Declaration} {u : Universe} {recv : Value}
    {ty : TypeId} {name : String} {path : MethodPath} {target : Value} {func : FuncId}
    (h : u.Selects recv ty name path target func) (hlogged : u.LoggedIn D) :
    ∃ d ∈ D, d.ty = path.owner ∧ d.name = name ∧ d.func = func := by
  obtain ⟨method, hanswer, hfunc⟩ := h.answered
  obtain ⟨B, hB, hbound⟩ := hlogged.attributed
  obtain ⟨m, hm, hfuncB⟩ := hB.func_of_answer hlogged.sound hanswer hfunc
  obtain ⟨⟨last, -, -, hindex, -⟩, -⟩ :=
    (hlogged.sound.catalog.findMethod_finds ty name path).mp h.found
  have hname := Catalog.name_of_methodIndex? hindex (Universe.methodAt_eq_ok.mp hm).2.2
  exact hbound path.owner name func (hname ▸ hfuncB)

namespace Session

/-- **The code of a declared method is known to the interpreter that declared it and to no other one
on its universe.** -/
theorem Ledger.find?_func {log : List Declaration} {s : Session} (h : Ledger log s)
    {d : Declaration} (hd : d ∈ log) {key : String} {i : Interpreter}
    (hi : s.interpreters.find? key = some i) (hindex : i.universeIndex = d.universeIndex) :
    i.functions.find? d.func = if key = d.key then some d.function else none := by
  split
  · next hkey => exact (h.code key i hi d.func d.function).mpr ⟨d, hd, hkey.symm, rfl, rfl⟩
  · next hkey =>
    rw [Option.eq_none_iff_forall_ne_some]
    intro f hf
    obtain ⟨e, he, rfl, hfunc, -⟩ := (h.code key i hi d.func f).mp hf
    obtain ⟨i', hi', hplace⟩ := h.makers e he
    obtain rfl := Option.some.inj (hi.symm.trans hi')
    have hshared := hplace.symm.trans hindex
    have hsame : e = d :=
      (h.universes d.universeIndex).distinct e ⟨he, hshared⟩ d ⟨hd, rfl⟩ (.inl hfunc)
    exact hkey (congrArg (·.key) hsame)

/-- **A selected method runs the function that it was declared with.** A selector that names no
field of a struct value binds the method that the search finds to the value at the end of its path.
The callable is that of the one declaration of the method, and from then on a call of the bound
method runs the declared function in the interpreter that declared it, and no function in any other
interpreter on the universe. -/
theorem selected_runs_declared {threadSafe : Bool} {log : List Declaration} {s : Session}
    {i : Interpreter} {budget : Nat} {span : Span} {base : Expr} {name method : String}
    {m m₁ m₂ : Machine} {ty : TypeId} {fields : List Value} {target : Value} {func : FuncId}
    (h : Leads ([], .start threadSafe) (log, s)) (hm : (s.machine i).Meets m)
    (hbase : evalExpr budget base m = .value (.struct ty fields) m₁)
    (hfield : Evaluator.field? m₁.types.catalog name (.struct ty fields) = none)
    (hselect : evalExpr (budget + 1) (.select span base name) m =
      .value (.method target func method) m₂) :
    ∃ path d, m₁.types.catalog.findMethod ty name = some path ∧
      Evaluator.follow name path.fields (.struct ty fields) = .ok target ∧ method = name ∧
      d ∈ log ∧ d.universeIndex = i.universeIndex ∧ d.ty = path.owner ∧ d.name = name ∧
      (∀ d' ∈ log, d'.universeIndex = i.universeIndex → d'.ty = path.owner → d'.name = name →
        d' = d) ∧
      d.func = func ∧
      ∀ log' s', Leads (log, s) (log', s') →
        (∃ i', s'.interpreters.find? d.key = some i' ∧ i'.universeIndex = i.universeIndex) ∧
        ∀ key' i' m', s'.interpreters.find? key' = some i' → i'.universeIndex = i.universeIndex →
          (s'.machine i').Meets m' → ∀ budget' args called span',
            callValue budget' (.method target func method) args called span' m' =
              if key' = d.key then
                (evaluator budget').callFunction d.function (target :: args) ⟨name, span'⟩ m'
              else
                .exit (.of (.undefinedMethod name target.kindName)) m' := by
  have hledger : Ledger log s := h.ledger (.start threadSafe)
  have hlogged := hledger.universes i.universeIndex
  -- What the base evaluates to is met in a universe that agrees with the log as well.
  have hmeets : (s.machine i).Meets m₁ := by
    have hkeeps := (Policy.any.governs budget).expr (e := base) (fun _ _ => trivial) m
      (Policy.holds_any m)
    unfold Eval.Ends at hkeeps
    rw [show (evaluator budget).expr base m = _ from hbase] at hkeeps
    exact hm.trans (hkeeps.1.meets (hm.types.sound hlogged.sound))
  have hlogged₁ := hlogged.steps (by simp [Universe.Act.quiet]) hmeets.types
  have hends := ends_selectMethod hlogged₁.sound (.struct ty fields) ty name
  unfold Eval.Ends at hends
  rw [← selectFrom_of_field?_eq_none hfield, selectFrom_of_evalExpr hbase hselect] at hends
  obtain ⟨path, _, _, ⟨⟩, hselects⟩ := hends
  obtain ⟨d, ⟨hd, hindex⟩, hty, hname, rfl⟩ := hselects.declaration hlogged₁
  refine ⟨path, d, hselects.found, hselects.followed, rfl, hd, hindex, hty, hname, ?_, rfl, ?_⟩
  · intro d' hd' hindex' hty' hname'
    exact hlogged.distinct d' ⟨hd', hindex'⟩ d ⟨hd, hindex⟩
      (.inr ⟨hty'.trans hty.symm, hname'.trans hname.symm⟩)
  · intro log' s' later
    have hledger' : Ledger log' s' := later.ledger hledger
    have hd' : d ∈ log' := later.subset hd
    refine ⟨hindex ▸ hledger'.makers d hd', ?_⟩
    intro key' i' m' hi' hindex' hm' budget' args called span'
    have hcode := hledger'.find?_func hd' hi' (hindex'.trans hindex.symm)
    unfold callValue Evaluator.callValue
    change Eval.bind (Eval.asks fun m => m.functions.find? d.func) _ m' = _
    simp only [Eval.bind, Eval.asks, hm'.functions]
    rw [show (s'.machine i').functions.find? d.func = _ from hcode]
    split <;> rfl

/-- `type E struct{}` with `func (e E) Get() { return 1 }` and `func (e E) Put() { return 2 }`,
declared by the main interpreter, and `type T struct { Get func(); E }`, next to an interpreter that
declared nothing. -/
def promoting : List Action := [
  .types (.structOf []),
  .types (.declareNamed "E" none),
  .types (.setUnderlying ⟨1⟩ ⟨0⟩),
  .types (.funcOf ⟨none, [], [], false⟩),
  .types (.structOf [⟨"Get", ⟨2⟩, false⟩, ⟨"E", ⟨1⟩, true⟩]),
  .types (.declareNamed "T" none),
  .types (.setUnderlying ⟨4⟩ ⟨3⟩),
  .addInterpreter "other" 0 none [],
  .request "main" 0 (.method ⟨1⟩ ⟨"Get", none, ⟨none, [], [], false⟩⟩
    ⟨["e"], .result default [.int default 1], default⟩ false),
  .request "main" 0 (.method ⟨1⟩ ⟨"Put", none, ⟨none, [], [], false⟩⟩
    ⟨["e"], .result default [.int default 2], default⟩ false)]

/-- `T{E{}.Put, E{}}`. -/
def promotingValue : Expr :=
  .composite default "T" [.select default (.composite default "E" []) "Put",
    .composite default "E" []]

/-- The log and the session that these actions lead to. -/
def promoted : List Declaration × Session :=
  along ([], .start false) promoting

/-- An interpreter of that session. -/
def promotedInterpreter (key : String) : Interpreter :=
  (promoted.2.interpreters.find? key).getD default

theorem leads_promoted : Leads ([], .start false) (promoted.1, promoted.2) :=
  leads_along (by cbv)

theorem log_promoted : promoted.1.map (fun d => (d.key, d.universeIndex, d.ty, d.name, d.func)) =
    [("main", 0, ⟨1⟩, "Get", ⟨0⟩), ("main", 0, ⟨1⟩, "Put", ⟨1⟩)] := by cbv

/-- The other interpreter selects the promoted method `Put`, which only the main one can call. -/
theorem selected_runs_declared_promoted :
    (∃ m, evalExpr 4 (.select default promotingValue "Put")
        (promoted.2.machine (promotedInterpreter "other")) =
      .value (.method (.struct ⟨1⟩ []) ⟨1⟩ "Put") m) ∧
    ∃ d ∈ promoted.1, d.key = "main" ∧ d.ty = ⟨1⟩ ∧ d.name = "Put" ∧ ∀ budget,
      callValue budget (.method (.struct ⟨1⟩ []) ⟨1⟩ "Put") [] "put" none
          (promoted.2.machine (promotedInterpreter "main")) =
        (evaluator budget).callFunction d.function [.struct ⟨1⟩ []] ⟨"Put", none⟩
          (promoted.2.machine (promotedInterpreter "main")) ∧
      callValue budget (.method (.struct ⟨1⟩ []) ⟨1⟩ "Put") [] "put" none
          (promoted.2.machine (promotedInterpreter "other")) =
        .exit (.of (.undefinedMethod "Put" "struct"))
          (promoted.2.machine (promotedInterpreter "other")) := by
  have hmain : promoted.2.interpreters.find? "main" = some (promotedInterpreter "main") := by cbv
  have hother : promoted.2.interpreters.find? "other" = some (promotedInterpreter "other") := by cbv
  have hplaces : (promotedInterpreter "main").universeIndex = 0 ∧
      (promotedInterpreter "other").universeIndex = 0 := by cbv
  have hbase : evalExpr 3 promotingValue (promoted.2.machine (promotedInterpreter "other")) =
      .value (.struct ⟨4⟩ [.method (.struct ⟨1⟩ []) ⟨1⟩ "Put", .struct ⟨1⟩ []])
        ((promoted.2.machine (promotedInterpreter "other")).resolved ⟨1⟩ 1) := by cbv
  have hfield : Evaluator.field?
      ((promoted.2.machine (promotedInterpreter "other")).resolved ⟨1⟩ 1).types.catalog "Put"
      (.struct ⟨4⟩ [.method (.struct ⟨1⟩ []) ⟨1⟩ "Put", .struct ⟨1⟩ []]) = none := by cbv
  have hselect : evalExpr 4 (.select default promotingValue "Put")
      (promoted.2.machine (promotedInterpreter "other")) =
      .value (.method (.struct ⟨1⟩ []) ⟨1⟩ "Put")
        ((promoted.2.machine (promotedInterpreter "other")).resolved ⟨1⟩ 1) := by cbv
  obtain ⟨path, d, -, -, -, hd, hindex, hty, hname, -, hfunc, hcalls⟩ :=
    selected_runs_declared leads_promoted (.refl _) hbase hfield hselect
  have hlogged := List.mem_map_of_mem (f := fun d : Declaration =>
    (d.key, d.universeIndex, d.ty, d.name, d.func)) hd
  rw [log_promoted, hname, hfunc] at hlogged
  have hmade : d.key = "main" ∧ d.universeIndex = 0 ∧ d.ty = ⟨1⟩ := by simpa using hlogged
  obtain ⟨-, hcalls⟩ := hcalls promoted.1 promoted.2 .refl
  refine ⟨⟨_, hselect⟩, d, hd, hmade.1, hmade.2.2, hname, fun budget => ⟨?_, ?_⟩⟩
  · rw [hcalls "main" _ _ hmain (hplaces.1.trans hplaces.2.symm) (.refl _), if_pos hmade.1.symm]
  · rw [hcalls "other" _ _ hother rfl (.refl _), hmade.1, if_neg (by decide)]
    rfl

/-- A field comes before any method: `T{E{}.Put, E{}}.Get` is the field `Get`, although the search
finds the method that `E` declares. -/
theorem selector_reads_field :
    ¬ ∀ (log : List Declaration) (s : Session) (key : String) (i : Interpreter) (budget : Nat)
      (base : Expr) (name method : String) (m m₁ m₂ : Machine) (ty : TypeId) (fields : List Value)
      (target : Value) (func : FuncId), Leads ([], .start false) (log, s) →
      s.interpreters.find? key = some i → (s.machine i).Meets m →
      evalExpr budget base m = .value (.struct ty fields) m₁ →
      evalExpr (budget + 1) (.select default base name) m =
        .value (.method target func method) m₂ →
      ∃ path, m₁.types.catalog.findMethod ty name = some path ∧
        ∃ d ∈ log, d.ty = path.owner ∧ d.name = name ∧ d.func = func := by
  intro hdeclared
  have hmain : promoted.2.interpreters.find? "main" = some (promotedInterpreter "main") := by cbv
  have hbase : evalExpr 3 promotingValue (promoted.2.machine (promotedInterpreter "main")) =
      .value (.struct ⟨4⟩ [.method (.struct ⟨1⟩ []) ⟨1⟩ "Put", .struct ⟨1⟩ []])
        ((promoted.2.machine (promotedInterpreter "main")).resolved ⟨1⟩ 1) := by cbv
  have hselect : evalExpr 4 (.select default promotingValue "Get")
      (promoted.2.machine (promotedInterpreter "main")) =
      .value (.method (.struct ⟨1⟩ []) ⟨1⟩ "Put")
        ((promoted.2.machine (promotedInterpreter "main")).resolved ⟨1⟩ 1) := by cbv
  obtain ⟨path, -, d, hd, -, hname, hfunc⟩ :=
    hdeclared promoted.1 promoted.2 "main" _ 3 promotingValue "Get" _ _ _ _ _ _ _ _ leads_promoted
      hmain (.refl _) hbase hselect
  have hlogged := List.mem_map_of_mem (f := fun d : Declaration =>
    (d.key, d.universeIndex, d.ty, d.name, d.func)) hd
  rw [log_promoted, hname, hfunc] at hlogged
  simp at hlogged

end Session

end ScriptEngine
