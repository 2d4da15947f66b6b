import Mathlib
import ScriptEngine.Proofs.Session.Satisfaction
import ScriptEngine.Proofs.Session.Shapes

/-!
The receivers of bound methods.

The type that a method was declared on is found on declarations, its receiver in a value, by the
same positions. Composite literals take any values for their fields, so the two agree where the
fields on the way hold struct values of the types that they are declared with (`Value.Fits`): then
the receiver is a value of the type that declares the method (`Value.Fits.follow`). They need not
agree for a method that is read from a field, or one whose path leads through a field that holds a
value of another type (`receiver_of_another_type`). Main statement: `Session.receiver_of_owner`.
-/

namespace ScriptEngine

/-- The fields that a path follows in a struct value hold struct values of the types that they are
declared with, behind at most one pointer. -/
inductive Value.Fits (c : Catalog) : List Nat → Value → Prop where
  | stop {v : Value} : Fits c [] v
  | step {i : Nat} {rest : List Nat} {ty field : TypeId} {fields vs : List Value} :
      c.embedded? ty i = some field → fields[i]? = some (.struct (c.stripPointer field) vs) →
      Fits c rest (.struct (c.stripPointer field) vs) → Fits c (i :: rest) (.struct ty fields)

/-- **A path through fields that hold what they are declared with leads to a value of the type at
its end.** -/
theorem Value.Fits.follow {c : Catalog} {ty last : TypeId} {name : String} {path : List Nat}
    {vs : List Value} {target : Value} (h : (Value.struct (c.stripPointer ty) vs).Fits c path)
    (hlast : c.pathEnd? ty path = some last)
    (hfollow : Evaluator.follow name path (.struct (c.stripPointer ty) vs) = .ok target) :
    ∃ ws, target = .struct (c.stripPointer last) ws := by
  induction path generalizing ty vs with
  | nil =>
    cases hlast
    cases hfollow
    exact ⟨vs, rfl⟩
  | cons i rest ih =>
    obtain ⟨field, hfield, hrest⟩ := Option.bind_eq_some_iff.mp hlast
    cases h with
    | step hfield' hheld hfits =>
      cases hfield.symm.trans hfield'
      rw [Evaluator.follow, hheld] at hfollow
      exact ih hfits hrest hfollow

/-- A selector that names no field gives the method that is found, bound to the value at the end of
its path. -/
theorem selects_of_evalExpr {budget : Nat} {span : Span} {base : Expr} {name method : String}
    {m m₁ m₂ : Machine} {ty : TypeId} {fields : List Value} {target : Value} {func : FuncId}
    (hsound : Universe.Sound m₁.types)
    (hbase : evalExpr budget base m = .value (.struct ty fields) m₁)
    (hfield : Evaluator.field? m₁.types.catalog name (.struct ty fields) = none)
    (hselect : evalExpr (budget + 1) (.select span base name) m =
      .value (.method target func method) m₂) :
    method = name ∧ ∃ path, m₁.types.Selects (.struct ty fields) ty name path target func := by
  have hends := ends_selectMethod hsound (.struct ty fields) ty name
  unfold Eval.Ends at hends
  rw [← selectFrom_of_field?_eq_none hfield, selectFrom_of_evalExpr hbase hselect] at hends
  obtain ⟨path, _, _, ⟨⟩, hselects⟩ := hends
  exact ⟨rfl, path, hselects⟩

namespace Session

variable {threadSafe : Bool} {log : List Declaration} {s : Session} {key : String}
  {i : Interpreter} {m m₁ m₂ : Machine} {ty : TypeId} {fields : List Value}

/-- The types of struct values that evaluation meets are names, where methods can be found. -/
theorem isNamed_of_evalExpr {budget : Nat} {base : Expr} {name : String} {path : MethodPath}
    (h : s.ReachableBy Action.BringsShaped) (hm : (s.machine i).Meets m)
    (hframes : m.frames.Binds (Value.Shaped s.types.catalog.Shapes))
    (hbase : evalExpr budget base m = .value (.struct ty fields) m₁)
    (hfound : m₁.types.catalog.findMethod ty name = some path) :
    m₁.types.catalog.isNamed ty = true := by
  have hshaped : s.Shaped := h.shaped
  have hmeets := hm.evalExpr (hshaped.sound i.universeIndex) hbase
  have hsound := hmeets.types.sound (hshaped.sound i.universeIndex)
  have hcatalog : m₁.types.catalog = (s.typesAt i.universeIndex).catalog :=
    Universe.Steps.catalog_eq (by simp [Universe.Act.quiet]) hmeets.types (hshaped.sound _)
  have hexpr := (hshaped.holds hm hframes).handlesOnly.expr budget base
  unfold Machine.Handles Eval.Ends at hexpr
  rw [hbase] at hexpr
  by_cases hown : i.universeIndex = 0
  · rw [hcatalog, hown]
    exact (Value.Shaped.struct_iff.mp hexpr.2).1.1
  · -- Where no type is declared, there is nothing to find.
    have hsize : m₁.types.catalog.size = 0 := by rw [hcatalog, hshaped.others _ hown]
    rw [hsound.catalog.findMethod_of_size_eq_zero hsize] at hfound
    cases hfound

/-- **A bound method belongs to the value that its path leads to.** Where values are built by
programs and methods declared through interpreters, a selector that names no field of a struct value
binds the method that the search finds, with the callable of the one declaration that it was bound
by, which is on the type that declares the method. The receiver is the value that the path leads
to: the value itself for a method of its own type, and a struct value of the type that declares the
method wherever the fields on the path hold struct values of the types they are declared with. -/
theorem receiver_of_owner {budget : Nat} {span : Span} {base : Expr} {name method : String}
    {target : Value} {func : FuncId} (h : Leads ([], .start threadSafe) (log, s))
    (hbrings : s.ReachableBy Action.BringsShaped) (hm : (s.machine i).Meets m)
    (hframes : m.frames.Binds (Value.Shaped s.types.catalog.Shapes))
    (hbase : evalExpr budget base m = .value (.struct ty fields) m₁)
    (hfield : Evaluator.field? m₁.types.catalog name (.struct ty fields) = none)
    (hselect : evalExpr (budget + 1) (.select span base name) m =
      .value (.method target func method) m₂) :
    ∃ path d, m₁.types.catalog.findMethod ty name = some path ∧
      Evaluator.follow name path.fields (.struct ty fields) = .ok target ∧
      (d ∈ log ∧ d.universeIndex = i.universeIndex ∧ d.ty = path.owner ∧ d.name = name ∧
        d.func = func) ∧
      (∀ d' ∈ log, d'.universeIndex = i.universeIndex → d'.func = func → d' = d) ∧
      (path.fields = [] → path.owner = ty ∧ target = .struct ty fields) ∧
      ((Value.struct ty fields).Fits m₁.types.catalog path.fields →
        ∃ ws, target = .struct path.owner ws) := by
  have hledger : Ledger log s := h.ledger (.start threadSafe)
  have hmeets := hm.evalExpr (hledger.universes i.universeIndex).sound hbase
  have hlogged := hledger.loggedIn hmeets
  obtain ⟨rfl, path, hselects⟩ := selects_of_evalExpr hlogged.sound hbase hfield hselect
  obtain ⟨d, ⟨hd, hindex⟩, hty, hname, rfl⟩ := hselects.declaration hlogged
  have hfollowed := hselects.followed
  have hstrip := Catalog.stripPointer_of_isNamed
    (isNamed_of_evalExpr hbrings hm hframes hbase hselects.found)
  obtain ⟨⟨last, hlast, howner, -⟩, -⟩ :=
    (hlogged.sound.catalog.findMethod_finds ty method path).mp hselects.found
  refine ⟨path, d, hselects.found, hselects.followed, ⟨hd, hindex, hty, hname, rfl⟩,
    fun d' hd' hindex' hfunc => ?_, fun hnil => ?_, fun hfits => ?_⟩
  · exact hlogged.distinct d' ⟨hd', hindex'⟩ d ⟨hd, hindex⟩ (.inl hfunc)
  · rw [hnil] at hlast hfollowed
    cases hlast
    exact ⟨howner.trans hstrip, (Except.ok.inj hfollowed).symm⟩
  · rw [← hstrip] at hfits hfollowed
    rw [howner]
    exact hfits.follow hlast hfollowed

/-- `type E struct{}` with `func (e E) Get() {}` and `func (e E) Put() {}`, `type F struct{}` with
`func (f F) Run() {}`, and `type T struct { Get func(); E }`. -/
def receiving : List Action := [
  .types (.structOf []),
  .types (.declareNamed "E" none),
  .types (.setUnderlying ⟨1⟩ ⟨0⟩),
  .types (.declareNamed "F" none),
  .types (.setUnderlying ⟨2⟩ ⟨0⟩),
  .types (.funcOf ⟨none, [], [], false⟩),
  .types (.structOf [⟨"Get", ⟨3⟩, false⟩, ⟨"E", ⟨1⟩, true⟩]),
  .types (.declareNamed "T" none),
  .types (.setUnderlying ⟨5⟩ ⟨4⟩),
  .request "main" 0 (.method ⟨1⟩ ⟨"Get", none, ⟨none, [], [], false⟩⟩
    ⟨["e"], .empty default, default⟩ false),
  .request "main" 0 (.method ⟨1⟩ ⟨"Put", none, ⟨none, [], [], false⟩⟩
    ⟨["e"], .empty default, default⟩ false),
  .request "main" 0 (.method ⟨2⟩ ⟨"Run", none, ⟨none, [], [], false⟩⟩
    ⟨["f"], .empty default, default⟩ false)]

/-- The log and the session that these actions lead to. -/
def received : List Declaration × Session :=
  along ([], .start false) receiving

/-- Its interpreter. -/
def receivedInterpreter : Interpreter :=
  (received.2.interpreters.find? "main").getD default

/-- `T{F{}.Run, held{}}`. -/
def receiver (held : String) : Expr :=
  .composite default "T" [.select default (.composite default "F" []) "Run",
    .composite default held []]

/-- The machine that has resolved `Run`. -/
def receivedMachine : Machine :=
  (received.2.machine receivedInterpreter).resolved ⟨2⟩ 0

theorem leads_received : Leads ([], .start false) (received.1, received.2) :=
  leads_along (by cbv)

theorem reachableBy_received : received.2.ReachableBy Action.BringsShaped :=
  .along (p := ([], .start false)) (.start false) (by cbv) (by decide)

theorem evalExpr_receiver :
    evalExpr 3 (receiver "E") (received.2.machine receivedInterpreter) =
      .value (.struct ⟨5⟩ [.method (.struct ⟨2⟩ []) ⟨2⟩ "Run", .struct ⟨1⟩ []]) receivedMachine ∧
    evalExpr 3 (receiver "F") (received.2.machine receivedInterpreter) =
      .value (.struct ⟨5⟩ [.method (.struct ⟨2⟩ []) ⟨2⟩ "Run", .struct ⟨2⟩ []])
        receivedMachine := by
  constructor <;> cbv

theorem findMethod_received :
    receivedMachine.types.catalog.findMethod ⟨5⟩ "Put" = some ⟨[1], ⟨1⟩, 1, false⟩ ∧
    receivedMachine.types.catalog.findMethod ⟨5⟩ "Get" = some ⟨[1], ⟨1⟩, 0, false⟩ := by
  constructor <;> cbv

theorem find?_received : received.2.interpreters.find? "main" = some receivedInterpreter := by cbv

/-- A value of `T` with an `E` where an `E` should be. -/
theorem fits_receiver : (Value.struct ⟨5⟩ [.method (.struct ⟨2⟩ []) ⟨2⟩ "Run", .struct ⟨1⟩ []]).Fits
    receivedMachine.types.catalog [1] := by
  have hfield : receivedMachine.types.catalog.embedded? ⟨5⟩ 1 = some ⟨1⟩ := by cbv
  have hstrip : receivedMachine.types.catalog.stripPointer ⟨1⟩ = ⟨1⟩ := by cbv
  have hheld : [Value.method (.struct ⟨2⟩ []) ⟨2⟩ "Run", .struct ⟨1⟩ []][1]? =
      some (.struct (receivedMachine.types.catalog.stripPointer ⟨1⟩) []) := by
    rw [hstrip]
    rfl
  exact .step hfield hheld .stop

/-- `T{F{}.Run, E{}}.Put` is bound to the `E` in it, and declared on `E`. -/
theorem receiver_of_owner_promoted :
    ∃ m, evalExpr 4 (.select default (receiver "E") "Put")
        (received.2.machine receivedInterpreter) =
      .value (.method (.struct ⟨1⟩ []) ⟨1⟩ "Put") m ∧
    ∃ d ∈ received.1, d.ty = ⟨1⟩ ∧ d.name = "Put" ∧ d.func = ⟨1⟩ ∧
      ∃ ws, Value.struct ⟨1⟩ [] = .struct d.ty ws := by
  obtain ⟨m, hselect⟩ : ∃ m, evalExpr 4 (.select default (receiver "E") "Put")
      (received.2.machine receivedInterpreter) =
    .value (.method (.struct ⟨1⟩ []) ⟨1⟩ "Put") m := ⟨_, by cbv⟩
  have hfield : Evaluator.field? receivedMachine.types.catalog "Put"
      (.struct ⟨5⟩ [.method (.struct ⟨2⟩ []) ⟨2⟩ "Run", .struct ⟨1⟩ []]) = none := by cbv
  obtain ⟨path, d, hfound, -, ⟨hd, -, hty, hname, hfunc⟩, -, -, hfits⟩ :=
    receiver_of_owner leads_received reachableBy_received (.refl _)
      reachableBy_received.shaped.frames evalExpr_receiver.1 hfield hselect
  obtain rfl := Option.some.inj (findMethod_received.1.symm.trans hfound)
  exact ⟨m, hselect, d, hd, hty, hname, hfunc, hty ▸ hfits fits_receiver⟩

/-- Whatever method a selector gives for a value and a name under the condition, its receiver is a
struct value of the type that declares the method that is found. -/
def ReceiversBelong (condition : Catalog → Value → String → Prop) : Prop :=
  ∀ (log : List Declaration) (s : Session) (key : String) (i : Interpreter) (budget : Nat)
    (base : Expr) (name method : String) (m₁ m₂ : Machine) (ty : TypeId) (fields : List Value)
    (target : Value) (func : FuncId), Leads ([], .start false) (log, s) →
    s.ReachableBy Action.BringsShaped → s.interpreters.find? key = some i →
    evalExpr budget base (s.machine i) = .value (.struct ty fields) m₁ →
    condition m₁.types.catalog (.struct ty fields) name →
    evalExpr (budget + 1) (.select default base name) (s.machine i) =
      .value (.method target func method) m₂ →
    ∃ path ws, m₁.types.catalog.findMethod ty name = some path ∧ target = .struct path.owner ws

theorem ReceiversBelong.mono {p q : Catalog → Value → String → Prop} (h : ReceiversBelong p)
    (hpq : ∀ c v name, q c v name → p c v name) : ReceiversBelong q := by
  intro log s key i budget base name method m₁ m₂ ty fields target func hleads hbrings hi hbase hq
  exact h log s key i budget base name method m₁ m₂ ty fields target func hleads hbrings hi hbase
    (hpq _ _ _ hq)

/-- The receiver of a bound method can be of another type than the one that declares the method:
`T{F{}.Run, F{}}.Put` is bound to the `F` where an `E` should be, and `T{F{}.Run, E{}}.Get` is what
the field holds, a method of `F`. So it is not enough that no field has the name, nor that the
fields on the path hold what they are declared with. -/
theorem receiver_of_another_type :
    ¬ ReceiversBelong (fun _ _ _ => True) ∧
    ¬ ReceiversBelong (fun c v name => Evaluator.field? c name v = none) ∧
    ¬ ReceiversBelong (fun c v name => ∀ ty fields path, v = .struct ty fields →
      c.findMethod ty name = some path → v.Fits c path.fields) := by
  have hfield : ¬ ReceiversBelong (fun c v name => Evaluator.field? c name v = none) := by
    intro hbelong
    obtain ⟨m, hselect⟩ : ∃ m, evalExpr 4 (.select default (receiver "F") "Put")
        (received.2.machine receivedInterpreter) =
      .value (.method (.struct ⟨2⟩ []) ⟨1⟩ "Put") m := ⟨_, by cbv⟩
    obtain ⟨path, ws, hfound, htarget⟩ := hbelong _ _ "main" _ 3 _ "Put" _ _ _ _ _ _ _
      leads_received reachableBy_received find?_received evalExpr_receiver.2 (by cbv) hselect
    obtain rfl := Option.some.inj (findMethod_received.1.symm.trans hfound)
    cases htarget
  refine ⟨fun hbelong => hfield (hbelong.mono fun _ _ _ _ => trivial), hfield, fun hbelong => ?_⟩
  obtain ⟨m, hselect⟩ : ∃ m, evalExpr 4 (.select default (receiver "E") "Get")
      (received.2.machine receivedInterpreter) =
    .value (.method (.struct ⟨2⟩ []) ⟨2⟩ "Run") m := ⟨_, by cbv⟩
  have hfits : ∀ ty fields path,
      Value.struct ⟨5⟩ [.method (.struct ⟨2⟩ []) ⟨2⟩ "Run", .struct ⟨1⟩ []] = .struct ty fields →
      receivedMachine.types.catalog.findMethod ty "Get" = some path →
      (Value.struct ⟨5⟩ [.method (.struct ⟨2⟩ []) ⟨2⟩ "Run", .struct ⟨1⟩ []]).Fits
        receivedMachine.types.catalog path.fields := by
    rintro ty fields path ⟨⟩ hfound
    obtain rfl := Option.some.inj (findMethod_received.2.symm.trans hfound)
    exact fits_receiver
  obtain ⟨path, ws, hfound, htarget⟩ := hbelong _ _ "main" _ 3 _ "Get" _ _ _ _ _ _ _
    leads_received reachableBy_received find?_received evalExpr_receiver.1 hfits hselect
  obtain rfl := Option.some.inj (findMethod_received.2.symm.trans hfound)
  cases htarget

end Session

end ScriptEngine
