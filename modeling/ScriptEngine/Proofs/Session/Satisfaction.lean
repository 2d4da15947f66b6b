import Mathlib
import ScriptEngine.Proofs.Session.Bindings
import ScriptEngine.Proofs.Session.Dispatch
import ScriptEngine.Proofs.Universe.Coverage

/-!
What implementing an interface promises of selectors.

Whether a type implements an interface is decided on declarations, and what a selector gives on
values: a method is found, its path is followed through the embedded fields of the value, and the
universe is asked for its callable. In a value whose embedded fields hold what their types say
(`Catalog.Holds`), every embedding path can be followed (`Catalog.Holds.exists_follow`), so a method
of an implemented interface is found and its receiver reached. Whether it is then selected depends
on where it was found: a method that an embedded interface promises has no callable, and neither has
one whose receiver is stranded. Main statement: `Session.implemented_selects_iff`.
-/

namespace ScriptEngine

namespace Catalog

/-- A struct value of the type whose embedded fields hold such values of their types, behind at most
one pointer. For an interface, any struct value of a type that implements it. -/
inductive Holds (c : Catalog) : TypeId → Value → Prop where
  | struct {ty : TypeId} {decls : List FieldDecl} {fields : List Value} :
      c.structFields? ty = some decls →
      (∀ i field, c.embedded? ty i = some field → i < fields.length) →
      (∀ i field v, c.embedded? ty i = some field → fields[i]? = some v →
        Holds c (c.stripPointer field) v) →
      Holds c ty (.struct ty fields)
  | interface {iface ty : TypeId} {fields : List Value} : c.implements ty iface = .ok true →
      Holds c iface (.struct ty fields)

variable {c : Catalog} {ty last : TypeId} {name : String} {v : Value} {path : List Nat}

/-- What is held is a value of a struct type or of an interface. -/
theorem Holds.kindOf_ne_ptr (h : c.Holds ty v) : c.kindOf ty ≠ .ptr := by
  cases h with
  | struct hfields =>
    unfold structFields? at hfields
    unfold kindOf
    split at hfields
    · next fields hd =>
      rw [hd]
      nofun
    · cases hfields
  | interface himplements =>
    obtain ⟨d, hd⟩ := interface?_of_implements himplements
    rw [isSome_interface?.mp (Option.isSome_of_eq_some hd)]
    nofun

theorem Holds.stripPointer (h : c.Holds ty v) : c.stripPointer ty = ty :=
  stripPointer_of_kindOf h.kindOf_ne_ptr

/-- **Every embedding path can be followed in a value whose embedded fields hold what their types
say.** -/
theorem Holds.exists_follow (h : c.Holds (c.stripPointer ty) v)
    (hpath : c.pathEnd? ty path = some last) :
    ∃ target, Evaluator.follow name path v = .ok target ∧ c.Holds (c.stripPointer last) target := by
  induction path generalizing ty v with
  | nil =>
    cases hpath
    exact ⟨v, rfl, h⟩
  | cons i rest ih =>
    obtain ⟨field, hfield, hrest⟩ := Option.bind_eq_some_iff.mp hpath
    generalize c.stripPointer ty = base at h hfield
    cases h with
    | @struct _ _ fields _ hlen hheld =>
      obtain ⟨w, hw⟩ : ∃ w, fields[i]? = some w :=
        ⟨_, List.getElem?_eq_getElem (hlen i field hfield)⟩
      rw [Evaluator.follow, hw]
      exact ih (hheld i field w hfield hw) hrest
    | interface himplements =>
      obtain ⟨d, hd⟩ := interface?_of_implements himplements
      rw [embedded?, structFields?_of_interface? hd] at hfield
      cases hfield

/-- Apart from interfaces, only names have methods. -/
theorem methodAt_of_getElem? {i : Nat} {m : MethodDecl} (hptr : c.kindOf ty ≠ .ptr)
    (hm : (c.methods ty)[i]? = some m) (hnone : c.interface? ty = none) :
    Universe.methodAt c ty i = .ok m := by
  refine Universe.methodAt_eq_ok.mpr ⟨hptr, .inl ?_, hm⟩
  unfold methods at hm
  rw [hnone] at hm
  unfold isNamed
  cases hd : c.named? ty with
  | none =>
    rw [hd] at hm
    cases hm
  | some d => rfl

/-- The methods of an implemented interface are found. -/
theorem exists_findMethod_of_implements {iface : TypeId} {d : InterfaceDecl} {wanted : MethodDecl}
    (h : c.implements ty iface = .ok true) (hd : c.interface? iface = some d)
    (hwanted : wanted ∈ d.complete) :
    ∃ path m, c.findMethod ty wanted.name = some path ∧
      (c.methods path.owner)[path.index]? = some m := by
  unfold implements at h
  rw [hd] at h
  have hcovers := List.all_eq_true.mp (Except.ok.inj h) wanted hwanted
  unfold covers at hcovers
  split at hcovers
  · cases hcovers
  · next path hpath =>
    split at hcovers
    · cases hcovers
    · next m hm => exact ⟨path, m, hpath, hm⟩

/-- What is found for a value whose embedded fields hold what their types say is reached in it, at a
value that holds what is said by the type that the method was found in. -/
theorem Holds.exists_reached (h : c.Holds ty v) (wf : c.WellFormed) {p : MethodPath}
    (hfound : c.findMethod ty name = some p) :
    ∃ target, Evaluator.follow name p.fields v = .ok target ∧ c.Holds p.owner target := by
  obtain ⟨⟨last, hlast, howner, -⟩, -⟩ := (wf.findMethod_finds ty name p).mp hfound
  rw [howner]
  exact exists_follow (h.stripPointer.symm ▸ h) hlast

end Catalog

section Select

variable {m m₁ m₂ : Machine} {ty : TypeId} {name : String} {recv v : Value}

/-- Where no field has the name, a selector gives what the selection of a method gives. -/
theorem evalExpr_select_iff {budget : Nat} {span : Span} {base : Expr} {fields : List Value}
    (hbase : evalExpr budget base m = .value (.struct ty fields) m₁)
    (hfield : Evaluator.field? m₁.types.catalog name (.struct ty fields) = none) :
    evalExpr (budget + 1) (.select span base name) m = .value v m₂ ↔
      Evaluator.selectMethod (.struct ty fields) ty name m₁ = .value v m₂ := by
  rw [← selectFrom_of_field?_eq_none hfield]
  refine ⟨selectFrom_of_evalExpr hbase, fun h => ?_⟩
  unfold evalExpr at hbase ⊢
  simp only [evaluator, onOwnStack_eq, Evaluator.exprForm, Evaluator.select]
  change Eval.handle (Eval.bind ((evaluator budget).expr base) fun recv =>
    Evaluator.selectFrom recv name) _ m = _
  simp only [Eval.handle, Eval.bind, hbase, h]

/-- A method that is found, reached and answered with a callable is selected. -/
theorem Universe.Selects.exists_run {path : MethodPath} {target : Value} {func : FuncId}
    (h : m.types.Selects recv ty name path target func) (hsound : Universe.Sound m.types) :
    ∃ m₂, Evaluator.selectMethod recv ty name m = .value (.method target func name) m₂ ∧
      m₂.functions = m.functions := by
  obtain ⟨method, hanswer, hfunc⟩ := h.answered
  have hrun := Universe.run_method_fst hsound path.owner path.index
  rw [hanswer] at hrun
  rcases hmethod : (Universe.method path.owner path.index).run.run m.types with ⟨a, u⟩
  rw [hmethod] at hrun
  cases hrun
  refine ⟨{ m with types := u }, ?_, rfl⟩
  unfold Evaluator.selectMethod
  change Eval.bind (Eval.asks (·.types.catalog)) _ m = _
  simp only [Eval.bind, Eval.asks, h.found]
  change Eval.bind (Eval.ofExcept _) _ m = _
  rw [h.followed]
  change Eval.bind (Eval.onTypes _) _ m = _
  simp only [Eval.bind, Eval.onTypes, hmethod, hfunc]
  rfl

section Found

variable {path : MethodPath} {target : Value} (hsound : Universe.Sound m.types)
  (hfound : m.types.catalog.findMethod ty name = some path)
  (hfollow : Evaluator.follow name path.fields recv = .ok target)
include hsound hfound hfollow

/-- Whatever is selected is the method that was found, bound to the value at the end of its path. -/
theorem eq_method_of_selectMethod (h : Evaluator.selectMethod recv ty name m = .value v m₂) :
    ∃ answer func, v = .method target func name ∧ m₂.functions = m.functions ∧
      m.types.answer path.owner path.index = .ok answer ∧ answer.func = some func := by
  have hends := ends_selectMethod hsound recv ty name
  unfold Eval.Ends at hends
  rw [h] at hends
  obtain ⟨path', target', func, rfl, hselects⟩ := hends
  obtain rfl := Option.some.inj (hfound.symm.trans hselects.found)
  obtain rfl := Except.ok.inj (hfollow.symm.trans hselects.followed)
  obtain ⟨m₃, hrun, hfunctions⟩ := hselects.exists_run hsound
  cases h.symm.trans hrun
  obtain ⟨answer, hanswer, hfunc⟩ := hselects.answered
  exact ⟨answer, func, rfl, hfunctions, hanswer, hfunc⟩

/-- It is selected exactly if it is answered with a callable. -/
theorem exists_selectMethod_iff :
    (∃ v m₂, Evaluator.selectMethod recv ty name m = .value v m₂) ↔
      ∃ answer func, m.types.answer path.owner path.index = .ok answer ∧
        answer.func = some func := by
  constructor
  · rintro ⟨v, m₂, hv⟩
    obtain ⟨answer, func, -, -, hanswered⟩ := eq_method_of_selectMethod hsound hfound hfollow hv
    exact ⟨answer, func, hanswered⟩
  · rintro ⟨answer, func, hanswered⟩
    obtain ⟨m₂, hrun, -⟩ :=
      Universe.Selects.exists_run ⟨hfound, hfollow, answer, hanswered⟩ hsound
    exact ⟨_, m₂, hrun⟩

end Found

end Select

/-- Evaluation meets what it leaves. -/
theorem Machine.Meets.evalExpr {m₀ m m₁ : Machine} {budget : Nat} {e : Expr} {v : Value}
    (hm : m₀.Meets m) (hsound : Universe.Sound m₀.types)
    (h : evalExpr budget e m = .value v m₁) : m₀.Meets m₁ := by
  have hkeeps := (Policy.any.governs budget).expr (e := e) (fun _ _ => trivial) m
    (Policy.holds_any m)
  unfold Eval.Ends at hkeeps
  rw [show (evaluator budget).expr e m = _ from h] at hkeeps
  exact hm.trans (hkeeps.1.meets (hm.types.sound hsound))

namespace Session

variable {threadSafe : Bool} {log : List Declaration} {s : Session} {key : String}
  {i : Interpreter} {m m₁ : Machine} {ty : TypeId} {method : MethodDecl}

/-- Every method of a name that is no interface was declared by the interpreter `key`. -/
def DeclaredBy (log : List Declaration) (key : String) (u : Universe) : Prop :=
  ∀ ty d m, u.catalog.decl? ty = some (.named d) → u.catalog.interface? ty = none →
    m ∈ d.methods → ∃ e ∈ log, e.key = key ∧ e.ty = ty ∧ e.name = m.name

/-- What evaluation meets agrees with the log as well. -/
theorem Ledger.loggedIn (h : Ledger log s) (hm : (s.machine i).Meets m) :
    m.types.LoggedIn {d ∈ log | d.universeIndex = i.universeIndex} :=
  (h.universes i.universeIndex).steps (by simp [Universe.Act.quiet]) hm.types

section Declared

variable (h : Leads ([], .start threadSafe) (log, s)) (hi : s.interpreters.find? key = some i)
  (hm : (s.machine i).Meets m) (hdeclared : DeclaredBy log key (s.machine i).types)
  (hnone : m.types.catalog.interface? ty = none) {index : Nat}
  (hmethod : Universe.methodAt m.types.catalog ty index = .ok method)
include h hi hm hdeclared hnone hmethod

/-- A method that the interpreter declared is in the log of its universe, and is bound. -/
theorem exists_declaration :
    (∃ e ∈ log, e.key = key ∧ e.universeIndex = i.universeIndex ∧ e.ty = ty ∧
      e.name = method.name) ∧ m.types.Attaches ty method.name := by
  have hledger := h.ledger (.start threadSafe)
  have hsound := (hledger.universes i.universeIndex).sound
  obtain ⟨d, hd, hmem⟩ := Universe.mem_methods_of_methodAt hnone hmethod
  rw [Universe.Steps.catalog_eq (by simp [Universe.Act.quiet]) hm.types hsound] at hd hnone
  obtain ⟨e, he, rfl, rfl, hname⟩ := hdeclared ty d method hd hnone hmem
  obtain ⟨i', hi', hindex⟩ := hledger.makers e he
  obtain rfl := Option.some.inj (hi.symm.trans hi')
  have hattaches := h.attaches e he
  rw [← hindex, hname] at hattaches
  exact ⟨⟨e, he, rfl, hindex.symm, rfl, hname⟩, hm.types.attaches hsound hattaches⟩

/-- It is answered with a callable unless its receiver is stranded. -/
theorem exists_answer_iff :
    (∃ answer func, m.types.answer ty index = .ok answer ∧ answer.func = some func) ↔
      ∀ recv, method.sig.recv = some recv → ¬ m.types.Stranded recv := by
  have hlogged := (h.ledger (.start threadSafe)).loggedIn hm
  obtain ⟨-, hattaches⟩ := exists_declaration h hi hm hdeclared hnone hmethod
  obtain ⟨B, hB, -⟩ := hlogged.attributed
  exact Universe.exists_answer_iff hlogged.sound hB hattaches hnone hmethod

/-- The interpreter knows the code of what the method is answered with. -/
theorem isSome_function_of_answer {answer : Method} {func : FuncId}
    (hanswer : m.types.answer ty index = .ok answer) (hfunc : answer.func = some func) :
    (m.functions.find? func).isSome = true := by
  have hledger := h.ledger (.start threadSafe)
  have hlogged := hledger.loggedIn hm
  obtain ⟨⟨e, he, hkey, hindex, rfl, hname⟩, -⟩ :=
    exists_declaration h hi hm hdeclared hnone hmethod
  obtain ⟨B, hB, hbound⟩ := hlogged.attributed
  obtain ⟨m', hm', hfunc'⟩ := hB.func_of_answer hlogged.sound hanswer hfunc
  obtain rfl := Except.ok.inj (hmethod.symm.trans hm')
  -- The callable was bound by the declaration of the method, of which there is one.
  obtain ⟨e', he', hty, hname', rfl⟩ := hbound _ _ _ hfunc'
  obtain rfl := hlogged.distinct e ⟨he, hindex⟩ e' he' (.inr ⟨hty.symm, hname.trans hname'.symm⟩)
  have hcode := (hledger.code key i hi e.func e.function).mpr ⟨e, he, hkey, rfl, rfl⟩
  rw [hm.functions, show (s.machine i).functions.find? e.func = _ from hcode]
  rfl

end Declared

/-- **A method of an implemented interface is found and its receiver reached.** It is selected
exactly if it was found in no interface and its receiver is not stranded, which it never is in a
settled universe. Then the interpreter knows the code of its callable. -/
theorem implemented_selects_iff {budget : Nat} {span : Span} {base : Expr} {iface : TypeId}
    {fields : List Value} {d : InterfaceDecl} {wanted : MethodDecl}
    (h : Leads ([], .start threadSafe) (log, s)) (hi : s.interpreters.find? key = some i)
    (hm : (s.machine i).Meets m) (hdeclared : DeclaredBy log key (s.machine i).types)
    (hbase : evalExpr budget base m = .value (.struct ty fields) m₁)
    (hholds : m₁.types.catalog.Holds ty (.struct ty fields))
    (himplements : m₁.types.catalog.implements ty iface = .ok true)
    (hiface : m₁.types.catalog.interface? iface = some d) (hwanted : wanted ∈ d.complete)
    (hfield : Evaluator.field? m₁.types.catalog wanted.name (.struct ty fields) = none) :
    ∃ path method target, m₁.types.catalog.findMethod ty wanted.name = some path ∧
      (m₁.types.catalog.methods path.owner)[path.index]? = some method ∧
      Evaluator.follow wanted.name path.fields (.struct ty fields) = .ok target ∧
      ((∃ v m₂, evalExpr (budget + 1) (.select span base wanted.name) m = .value v m₂) ↔
        m₁.types.catalog.interface? path.owner = none ∧
          ∀ recv, method.sig.recv = some recv → ¬ m₁.types.Stranded recv) ∧
      (m₁.types.Settled → ∀ recv, ¬ m₁.types.Stranded recv) ∧
      ∀ v m₂, evalExpr (budget + 1) (.select span base wanted.name) m = .value v m₂ →
        ∃ func, v = .method target func wanted.name ∧ (m₂.functions.find? func).isSome = true := by
  have hledger : Ledger log s := h.ledger (.start threadSafe)
  have hmeets := hm.evalExpr (hledger.universes i.universeIndex).sound hbase
  have hsound := (hledger.loggedIn hmeets).sound
  obtain ⟨path, method, hfound, hmethod⟩ :=
    Catalog.exists_findMethod_of_implements himplements hiface hwanted
  obtain ⟨target, hfollow, htarget⟩ := hholds.exists_reached hsound.catalog hfound
  have hat := Catalog.methodAt_of_getElem? htarget.kindOf_ne_ptr hmethod
  simp only [evalExpr_select_iff hbase hfield]
  refine ⟨path, method, target, hfound, hmethod, hfollow, ?_, fun hsettled _ =>
    hsettled.not_stranded, fun v m₂ hv => ?_⟩
  · rw [exists_selectMethod_iff hsound hfound hfollow]
    constructor
    · rintro ⟨answer, func, hanswer, hfunc⟩
      have hnone := Universe.interface?_eq_none_of_answer hsound hanswer hfunc
      have hiff := exists_answer_iff h hi hmeets hdeclared hnone (hat hnone)
      exact ⟨hnone, hiff.mp ⟨answer, func, hanswer, hfunc⟩⟩
    · rintro ⟨hnone, hstranded⟩
      exact (exists_answer_iff h hi hmeets hdeclared hnone (hat hnone)).mpr hstranded
  · obtain ⟨answer, func, rfl, hfunctions, hanswer, hfunc⟩ :=
      eq_method_of_selectMethod hsound hfound hfollow hv
    have hnone := Universe.interface?_eq_none_of_answer hsound hanswer hfunc
    refine ⟨func, rfl, ?_⟩
    rw [hfunctions]
    exact isSome_function_of_answer h hi hmeets hdeclared hnone (hat hnone) hanswer hfunc

/-- `type S struct{}` with `func (s S) M()`, `type I interface { M() }`, `type T struct { S }` and
`type W struct { I }`. -/
def satisfying : List Action := [
  .types (.structOf []),
  .types (.declareNamed "S" none),
  .types (.setUnderlying ⟨1⟩ ⟨0⟩),
  .types (.interfaceOf [⟨"M", none, ⟨none, [], [], false⟩⟩] []),
  .types (.declareNamed "I" none),
  .types (.setUnderlying ⟨3⟩ ⟨2⟩),
  .types (.structOf [⟨"S", ⟨1⟩, true⟩]),
  .types (.declareNamed "T" none),
  .types (.setUnderlying ⟨5⟩ ⟨4⟩),
  .types (.structOf [⟨"I", ⟨3⟩, true⟩]),
  .types (.declareNamed "W" none),
  .types (.setUnderlying ⟨7⟩ ⟨6⟩),
  .request "main" 0 (.method ⟨1⟩ ⟨"M", none, ⟨none, [], [], false⟩⟩
    ⟨["s"], .result default [], default⟩ false)]

/-- The log and the session that these actions lead to. -/
def satisfied : List Declaration × Session :=
  along ([], .start false) satisfying

/-- The machine of the interpreter of that session. -/
def satisfiedMachine : Machine :=
  satisfied.2.machine ((satisfied.2.interpreters.find? "main").getD default)

set_option maxRecDepth 4000 in
theorem leads_satisfied : Leads ([], .start false) (satisfied.1, satisfied.2) :=
  leads_along (by cbv)

/-- The types of that session. -/
def satisfiedCatalog : Catalog := ⟨#[
  .struct [],
  .named ⟨"S", none, some ⟨0⟩, [⟨"M", none, ⟨some ⟨1⟩, [], [], false⟩⟩]⟩,
  .interface ⟨[⟨"M", none, ⟨some ⟨2⟩, [], [], false⟩⟩], [],
    [⟨"M", none, ⟨some ⟨2⟩, [], [], false⟩⟩]⟩,
  .named ⟨"I", none, some ⟨2⟩, []⟩,
  .struct [⟨"S", ⟨1⟩, true⟩],
  .named ⟨"T", none, some ⟨4⟩, []⟩,
  .struct [⟨"I", ⟨3⟩, true⟩],
  .named ⟨"W", none, some ⟨6⟩, []⟩]⟩

theorem catalog_satisfied : satisfiedMachine.types.catalog = satisfiedCatalog := by cbv

/-- Its one method was declared. -/
theorem declaredBy_satisfied : DeclaredBy satisfied.1 "main" satisfiedMachine.types := by
  have hlog : satisfied.1.map (fun e => (e.key, e.ty, e.name)) = [("main", ⟨1⟩, "M")] := by cbv
  have hall : ∀ index < satisfiedCatalog.size, ∀ d ∈ satisfiedCatalog.named? ⟨index⟩,
      satisfiedCatalog.interface? ⟨index⟩ = none →
        ∀ m ∈ d.methods, TypeId.mk index = ⟨1⟩ ∧ m.name = "M" := by decide
  intro ty d m hd hnone hm
  rw [catalog_satisfied] at hd hnone
  obtain ⟨hty, hname⟩ := hall ty.index (Catalog.lt_size_of_decl? hd) d
    (Catalog.named?_eq_some.mpr hd) hnone m hm
  have hmade := List.mem_singleton_self ("main", TypeId.mk 1, "M")
  rw [← hlog] at hmade
  obtain ⟨e, he, hsame⟩ := List.mem_map.mp hmade
  obtain ⟨hkey, hty', hname'⟩ : e.key = "main" ∧ e.ty = ⟨1⟩ ∧ e.name = "M" := by simpa using hsame
  exact ⟨e, he, hkey, hty'.trans hty.symm, hname'.trans hname.symm⟩

/-- Values of `T` and `W` that hold a value of `S`. -/
theorem holds_satisfied : satisfiedCatalog.Holds ⟨5⟩ (.struct ⟨5⟩ [.struct ⟨1⟩ []]) ∧
    satisfiedCatalog.Holds ⟨7⟩ (.struct ⟨7⟩ [.struct ⟨1⟩ []]) := by
  have hembeds : ∀ i field, (satisfiedCatalog.embedded? ⟨5⟩ i = some field → i = 0 ∧ field = ⟨1⟩) ∧
      (satisfiedCatalog.embedded? ⟨7⟩ i = some field → i = 0 ∧ field = ⟨3⟩) := by
    rintro (_ | i) field
    · exact ⟨fun h => ⟨rfl, (Option.some.inj h).symm⟩, fun h => ⟨rfl, (Option.some.inj h).symm⟩⟩
    · exact ⟨nofun, nofun⟩
  constructor
  · refine .struct rfl (fun i field hfield => ?_)
      fun i field v hfield hv => ?_
    · obtain ⟨rfl, rfl⟩ := (hembeds i field).1 hfield
      exact Nat.zero_lt_one
    · obtain ⟨rfl, rfl⟩ := (hembeds i field).1 hfield
      cases hv
      exact .struct rfl nofun nofun
  · refine .struct rfl (fun i field hfield => ?_)
      fun i field v hfield hv => ?_
    · obtain ⟨rfl, rfl⟩ := (hembeds i field).2 hfield
      exact Nat.zero_lt_one
    · obtain ⟨rfl, rfl⟩ := (hembeds i field).2 hfield
      cases hv
      exact .interface (by decide)

/-- `T{S{}}.M` is selected. `W{S{}}.M` is not, although `W` implements `I` as well: its method is
the one that the embedded interface promises. -/
theorem implemented_selects_iff_embedded :
    (∃ func m₂, evalExpr 4 (.select default (.composite default "T"
        [.composite default "S" []]) "M") satisfiedMachine =
      .value (.method (.struct ⟨1⟩ []) func "M") m₂ ∧ (m₂.functions.find? func).isSome = true) ∧
    satisfiedMachine.types.catalog.implements ⟨7⟩ ⟨3⟩ = .ok true ∧
    ¬ ∃ v m₂, evalExpr 4 (.select default (.composite default "W"
        [.composite default "S" []]) "M") satisfiedMachine = .value v m₂ := by
  have himplements : satisfiedCatalog.implements ⟨5⟩ ⟨3⟩ = .ok true ∧
      satisfiedCatalog.implements ⟨7⟩ ⟨3⟩ = .ok true := by decide
  have hbase : evalExpr 3 (.composite default "T" [.composite default "S" []]) satisfiedMachine =
      .value (.struct ⟨5⟩ [.struct ⟨1⟩ []]) satisfiedMachine := by cbv
  have hbase' : evalExpr 3 (.composite default "W" [.composite default "S" []]) satisfiedMachine =
      .value (.struct ⟨7⟩ [.struct ⟨1⟩ []]) satisfiedMachine := by cbv
  have hfields : Evaluator.field? satisfiedCatalog "M" (.struct ⟨5⟩ [.struct ⟨1⟩ []]) = none ∧
      Evaluator.field? satisfiedCatalog "M" (.struct ⟨7⟩ [.struct ⟨1⟩ []]) = none := by cbv
  have hfound : satisfiedCatalog.findMethod ⟨5⟩ "M" = some ⟨[0], ⟨1⟩, 0, false⟩ ∧
      satisfiedCatalog.findMethod ⟨7⟩ "M" = some ⟨[0], ⟨3⟩, 0, false⟩ := by cbv
  have hi : satisfied.2.interpreters.find? "main" =
    some ((satisfied.2.interpreters.find? "main").getD default) := by cbv
  have hS : satisfiedMachine.types.reprs.built.find? ⟨1⟩ = some ⟨0⟩ ∧
      satisfiedMachine.types.reprs.kind ⟨0⟩ = .struct [] := by cbv
  have hifaces : satisfiedCatalog.interface? ⟨3⟩ = some ⟨[⟨"M", none, ⟨some ⟨2⟩, [], [], false⟩⟩],
      [], [⟨"M", none, ⟨some ⟨2⟩, [], [], false⟩⟩]⟩ ∧ satisfiedCatalog.interface? ⟨1⟩ = none :=
    ⟨rfl, rfl⟩
  obtain ⟨hT, hW⟩ := holds_satisfied
  rw [← catalog_satisfied] at himplements hfields hfound hifaces hT hW
  refine ⟨?_, himplements.2, fun hselected => ?_⟩
  · obtain ⟨path, method, target, hpath, hmethod, hfollow, hiff, -, hknown⟩ :=
      @implemented_selects_iff _ _ _ _ _ _ _ _ _ default _ _ _ _ _ leads_satisfied hi (.refl _)
        declaredBy_satisfied hbase hT himplements.1 hifaces.1 (List.mem_singleton_self _) hfields.1
    obtain rfl := Option.some.inj (hfound.1.symm.trans hpath)
    rw [catalog_satisfied] at hmethod
    cases hmethod
    cases hfollow
    obtain ⟨v, m₂, hv⟩ := hiff.mpr ⟨hifaces.2, by
      rintro recv ⟨⟩ ⟨r, x, hr, hkind, -⟩
      cases hS.1.symm.trans hr
      cases hS.2.symm.trans hkind⟩
    obtain ⟨func, rfl, hsome⟩ := hknown v m₂ hv
    exact ⟨func, m₂, hv, hsome⟩
  · obtain ⟨path, _, _, hpath, -, -, hiff, -, -⟩ :=
      @implemented_selects_iff _ _ _ _ _ _ _ _ _ default _ _ _ _ _ leads_satisfied hi (.refl _)
        declaredBy_satisfied hbase' hW himplements.2 hifaces.1 (List.mem_singleton_self _) hfields.2
    obtain rfl := Option.some.inj (hfound.2.symm.trans hpath)
    cases hifaces.1.symm.trans (hiff.mp hselected).1

end Session

end ScriptEngine
