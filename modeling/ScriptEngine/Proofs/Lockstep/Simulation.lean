import ScriptEngine.Proofs.Lockstep.Contract

/-!
Evaluation in lockstep.

`L.Mirrors ev₁ ev₂` is the contract of a pair of evaluators: from machines that are in step, the
parts of a program end together. Every form keeps the contract if the evaluators of its parts do, so
evaluation at every budget mirrors itself (`Lockstep.mirrors`), also where one side evaluates each
part through something that makes no difference in machines that are in step.

A call needs less than machines in step: it runs in an environment of its own, so the callers may
stand anywhere (`Mirrors.callFunction`, `Mirrors.callValue`).
-/

namespace ScriptEngine

open Evaluator

namespace Lockstep

variable {L : Lockstep} {ε : Type}

/-- From machines that are in step, both evaluators end together. -/
structure Mirrors (L : Lockstep) (ev₁ ev₂ : Evaluator) : Prop where
  expr : ∀ e, L.Syncs (ev₁.expr e) (ev₂.expr e) L.Same L.errors
  stmt : ∀ label s, L.Syncs (ev₁.stmt label s) (ev₂.stmt label s) L.Same L.exits

namespace Mirrors

variable {ev₁ ev₂ : Evaluator}

/-! ### Lists of parts -/

theorem exprs (h : L.Mirrors ev₁ ev₂) (es : List Expr) :
    L.Syncs (ev₁.exprs es) (ev₂.exprs es) L.SameAll L.errors := by
  induction es with
  | nil => exact syncs_pure sameAll_nil
  | cons e rest ih =>
    apply (h.expr e).bind
    intro v₁ v₂ hv
    apply ih.bind
    exact fun vs₁ vs₂ hvs => syncs_pure (hvs.cons hv)

theorem spreadExprs (h : L.Mirrors ev₁ ev₂) (es : List Expr) :
    L.Syncs (ev₁.spreadExprs es) (ev₂.spreadExprs es) L.SameAll L.errors := by
  unfold Evaluator.spreadExprs
  split
  · apply (h.expr _).bind
    exact fun v₁ v₂ hv => syncs_pure hv.spread
  · exact h.exprs es

theorem stmts (h : L.Mirrors ev₁ ev₂) (body : List Stmt) :
    L.Syncs (ev₁.stmts body) (ev₂.stmts body) (fun _ _ => True) L.exits := by
  induction body with
  | nil => exact syncs_pure trivial
  | cons s rest ih =>
    apply (h.stmt none s).bind
    exact fun _ _ _ => ih

theorem optional (h : L.Mirrors ev₁ ev₂) (s? : Option Stmt) :
    L.Syncs (ev₁.optional s?) (ev₂.optional s?) (fun _ _ => True) L.exits := by
  cases s? with
  | none => exact syncs_pure trivial
  | some s => exact (h.stmt none s).bind fun _ _ _ => syncs_pure trivial

theorem condition (h : L.Mirrors ev₁ ev₂) (e : Expr) :
    L.Syncs (ev₁.condition e) (ev₂.condition e) Eq L.errors := by
  apply (h.expr e).bind
  intro v₁ v₂ hv
  obtain rfl := hv.2
  cases v₁ with
  | bool b => exact syncs_pure rfl
  | void | int | float | str | tuple | func | struct | method =>
    exact syncs_raise fun _ => ⟨rfl, L.locate _ (L.ordinary rfl)⟩

end Mirrors

/-! ### Definitions, assignments and constants -/

theorem syncs_bindUnlessBlank (mutability : Mutability) (name : String) {v₁ v₂ : Value}
    (hv : L.Same v₁ v₂) :
    L.Syncs (bindUnlessBlank mutability name v₁) (bindUnlessBlank mutability name v₂)
      (fun _ _ => True) L.errors := by
  unfold bindUnlessBlank
  split
  · exact syncs_pure trivial
  · exact syncs_bindName name hv mutability

theorem syncs_assignUnlessBlank (name : String) {v₁ v₂ : Value} (hv : L.Same v₁ v₂) :
    L.Syncs (assignUnlessBlank name v₁) (assignUnlessBlank name v₂) (fun _ _ => True)
      L.errors := by
  unfold assignUnlessBlank
  split
  · exact syncs_pure trivial
  · exact syncs_assignName name hv

theorem syncs_eachPair {write : String → Value → Eval EvalError Unit}
    (hwrite : ∀ name {v₁ v₂}, L.Same v₁ v₂ →
      L.Syncs (write name v₁) (write name v₂) (fun _ _ => True) L.errors)
    (names : List String) {vs₁ vs₂ : List Value} (hvs : L.SameAll vs₁ vs₂) :
    L.Syncs (eachPair write names vs₁) (eachPair write names vs₂) (fun _ _ => True)
      L.errors := by
  obtain ⟨hwithin, rfl⟩ := hvs
  induction names generalizing vs₁ with
  | nil => exact syncs_pure trivial
  | cons name names ih =>
    cases vs₁ with
    | nil => exact syncs_pure trivial
    | cons v vs =>
      apply (hwrite name ⟨hwithin v (List.mem_cons_self ..), rfl⟩).bind
      exact fun _ _ _ => ih fun w hw => hwithin w (List.mem_cons_of_mem _ hw)

theorem syncs_incDec (target : String) (increment : Bool) :
    L.Syncs (incDec target increment) (incDec target increment) (fun _ _ => True) L.errors := by
  apply (syncs_identifier target).bind
  intro v₁ v₂ hv
  rw [hv.2, Value.step_relocate]
  apply Syncs.bind (U := L.Same)
  · apply syncs_ofExcept
    · exact fun v hok => ⟨v, hok, same_of_isPlain (Value.isPlain_of_step hok)⟩
    · exact fun c herror => ⟨herror, Value.isLocal_of_step herror⟩
  · exact fun u₁ u₂ hu => syncs_assignName target hu

namespace Mirrors

variable {ev₁ ev₂ : Evaluator}

theorem rightSides (h : L.Mirrors ev₁ ev₂) (count : Nat) (es : List Expr) :
    L.Syncs (ev₁.rightSides count es) (ev₂.rightSides count es) L.SameAll L.errors := by
  have hcount : ∀ vs₁ vs₂, L.SameAll vs₁ vs₂ →
      L.Syncs (if vs₁.length = count then pure vs₁
          else Eval.fail (.assignmentMismatch count vs₁.length))
        (if vs₂.length = count then pure vs₂
          else Eval.fail (.assignmentMismatch count vs₂.length)) L.SameAll L.errors := by
    intro vs₁ vs₂ hvs
    rw [hvs.length_eq]
    split
    · exact syncs_pure hvs
    · exact syncs_fail rfl
  unfold Evaluator.rightSides
  dsimp only
  split
  · apply (h.expr _).bind
    exact fun v₁ v₂ hv => hcount v₁.results v₂.results hv.results
  · exact (h.exprs _).bind hcount

theorem define (h : L.Mirrors ev₁ ev₂) (names : List String) (values : List Expr) :
    L.Syncs (ev₁.define names values) (ev₂.define names values) (fun _ _ => True) L.errors := by
  apply (h.rightSides names.length values).bind
  exact fun vs₁ vs₂ hvs => syncs_eachPair (syncs_bindUnlessBlank .mutable) names hvs

theorem assign (h : L.Mirrors ev₁ ev₂) (targets : List String) (values : List Expr) :
    L.Syncs (ev₁.assign targets values) (ev₂.assign targets values) (fun _ _ => True)
      L.errors := by
  apply (h.rightSides targets.length values).bind
  exact fun vs₁ vs₂ hvs => syncs_eachPair syncs_assignUnlessBlank targets hvs

/-- Operators see no frames, so operands that correspond have one result. -/
theorem apply (op : BinaryOp) {l₁ l₂ r₁ r₂ : Value} (hl : L.Same l₁ l₂) (hr : L.Same r₁ r₂) :
    L.Syncs (Eval.ofExcept (op.apply l₁ r₁)) (Eval.ofExcept (op.apply l₂ r₂)) L.Same
      L.errors := by
  rw [hl.2, hr.2, BinaryOp.apply_relocate (fun a b => Correspondence.handle_inj) hl.1 hr.1]
  apply syncs_ofExcept
  · exact fun v hok => ⟨v, hok, same_of_isPlain (BinaryOp.isPlain_of_apply hok)⟩
  · exact fun c herror => ⟨herror, BinaryOp.isLocal_of_apply herror⟩

theorem assignOp (h : L.Mirrors ev₁ ev₂) (targets : List String) (op : BinaryOp)
    (values : List Expr) :
    L.Syncs (ev₁.assignOp targets op values) (ev₂.assignOp targets op values)
      (fun _ _ => True) L.errors := by
  unfold Evaluator.assignOp
  split
  · next target value =>
    apply (syncs_identifier target).bind
    intro current₁ current₂ hcurrent
    apply (h.expr value).bind
    intro v₁ v₂ hv
    apply (apply op hcurrent hv).bind
    exact fun updated₁ updated₂ hupdated => syncs_assignName target hupdated
  · exact syncs_fail rfl

theorem constantLine (h : L.Mirrors ev₁ ev₂) (names : List String) (es : List Expr) :
    L.Syncs (ev₁.constantLine names es) (ev₂.constantLine names es) (fun _ _ => True)
      L.errors := by
  induction names generalizing es with
  | nil => exact syncs_pure trivial
  | cons name names ih =>
    cases es with
    | nil => exact syncs_pure trivial
    | cons e es =>
      apply (h.expr e).bind
      intro v₁ v₂ hv
      apply (syncs_bindUnlessBlank .immutable name hv).bind
      exact fun _ _ _ => ih es

theorem constantLines (h : L.Mirrors ev₁ ev₂) (ordinal : Nat) (previous : List Expr)
    (specs : List (ConstSpec Expr)) :
    L.Syncs (ev₁.constantLines ordinal previous specs) (ev₂.constantLines ordinal previous specs)
      (fun _ _ => True) L.errors := by
  induction specs generalizing ordinal previous with
  | nil => exact syncs_pure trivial
  | cons spec rest ih =>
    unfold Evaluator.constantLines
    dsimp only
    generalize (if spec.values.isEmpty then previous else spec.values) = values
    split
    · apply (syncs_update fun hm => hm.withIota _).bind
      intro _ _ _
      apply (h.constantLine spec.names values).bind
      exact fun _ _ _ => ih (ordinal + 1) values
    · exact syncs_fail rfl

theorem constants (h : L.Mirrors ev₁ ev₂) (specs : List (ConstSpec Expr)) :
    L.Syncs (ev₁.constants specs) (ev₂.constants specs) (fun _ _ => True) L.errors := by
  apply Syncs.bind (U := Eq) (syncs_asks fun hm => hm.iota.symm)
  rintro outer _ rfl
  apply (syncs_update fun hm => hm.withIota none).bind
  intro _ _ _ m₁ m₂ hm
  exact Syncs.leaving (h.constantLines 0 [] specs hm) (fun _ => rfl) fun hm => hm.withIota outer

end Mirrors

/-! ### Calls -/

/-- The machines agree again, each in the context it stood in before. -/
structure Returns (L : Lockstep) (m₁ m₂ m₁' m₂' : Machine) : Prop extends L.Alike m₁' m₂' where
  env₁ : m₁'.env = m₁.env
  env₂ : m₂'.env = m₂.env
  iota₁ : m₁'.iota = m₁.iota
  iota₂ : m₂'.iota = m₂.iota

theorem Alike.returns {m₁ m₂ : Machine} (h : L.Alike m₁ m₂) : L.Returns m₁ m₂ m₁ m₂ :=
  ⟨h, rfl, rfl, rfl, rfl⟩

/-- Machines that were in step are in step again. -/
theorem Returns.inStep {m₁ m₂ m₁' m₂' : Machine} (h : L.Returns m₁ m₂ m₁' m₂')
    (hm : L.InStep m₁ m₂) : L.InStep m₁' m₂' where
  toAlike := h.toAlike
  current := h.env₁ ▸ hm.current
  current_eq := by rw [h.env₁, h.env₂, hm.current_eq]
  outer := h.env₁ ▸ hm.outer
  outer_eq := by rw [h.env₁, h.env₂, hm.outer_eq]
  iota := by rw [h.iota₁, h.iota₂, hm.iota]

theorem Alike.enterCall {m₁ m₂ : Machine} (hm : L.Alike m₁ m₂) {f : Function}
    (hf : L.Seen f.scope) (frame : CallFrame) (hfull : m₁.calls.full? = none) :
    L.InStep (enterCall f frame m₁) (enterCall { f with scope := L.handle f.scope } frame m₂) where
  frames := hm.frames.grow hf
  types := hm.types
  functions := hm.functions
  code := hm.code
  globals := hm.globals
  calls := L.enter frame hm.calls hfull
  current := hm.frames.seen_next
  current_eq := hm.frames.handle_next.symm
  outer := fun id hid => nomatch (show id ∈ ([] : List FrameId) from hid)
  outer_eq := rfl
  iota := rfl

theorem Alike.leaveCall {m₁ m₂ m₁' m₂' : Machine} (hm : L.Alike m₁ m₂) (hm' : L.Alike m₁' m₂') :
    L.Returns m₁ m₂ (leaveCall m₁.env m₁.iota m₁') (leaveCall m₂.env m₂.iota m₂') where
  toAlike := { hm' with globals := hm.globals, calls := L.pop hm'.calls }
  env₁ := rfl
  env₂ := rfl
  iota₁ := rfl
  iota₂ := rfl

theorem isOverflow_trace {e : EvalError} {calls : Backtrace} :
    (e.trace calls).isOverflow = e.isOverflow := by
  unfold EvalError.trace
  split <;> rfl

/-- What is known of an exit is known of the error that remains of it, unless it is a `return`. -/
theorem error_of_sound {c : CallStack} {x : Exit} (h : L.Sound c x) : L.error x.toError c := by
  cases x with
  | failed e => exact h
  | leaveLoop | nextRound | result => exact L.ordinary rfl

/-- Calls end together if their bodies do. -/
theorem Alike.callResult {m₁ m₂ : Machine} (hm : L.Alike m₁ m₂) {r₁ r₂ : Run Exit Value}
    (h : r₁.Together L.InStep L.Same L.exits r₂) :
    (callResult m₁.env m₁.iota r₁).Together (L.Returns m₁ m₂) L.Same L.errors
      (callResult m₂.env m₂.iota r₂) := by
  cases h with
  | value _ hm' => exact .value (same_of_isPlain rfl) (hm.leaveCall hm'.toAlike)
  | @exit x₁ _ m₁' m₂' hx hm' =>
    obtain ⟨rfl, hsound⟩ := hx
    have hcapture : m₂'.calls.capture = m₁'.calls.capture :=
      congrArg Array.toList (L.frames_eq hm'.calls)
    have herror := L.trace hm'.calls (error_of_sound hsound)
    cases x₁ with
    | result vs =>
      exact .value (SameAll.ofResults ⟨hsound, rfl⟩) (hm.leaveCall hm'.toAlike)
    | failed | leaveLoop | nextRound =>
      exact .exit ⟨congrArg (EvalError.trace _) hcapture, herror⟩ (hm.leaveCall hm'.toAlike)
  | exhausted => exact .exhausted
  | cut hcut =>
    obtain ⟨e, rfl, hcuts, hoverflow, herror, c', hc'⟩ := hcut
    exact .cut ⟨hcuts, isOverflow_trace.trans hoverflow, L.trace hc' herror, _, L.pop hc'⟩

namespace Mirrors

variable {ev₁ ev₂ : Evaluator} {m₁ m₂ : Machine}

theorem body (h : L.Mirrors ev₁ ev₂) (f : Function) {args₁ args₂ : List Value}
    (hargs : L.SameAll args₁ args₂) :
    L.Syncs (ev₁.body f args₁) (ev₂.body { f with scope := L.handle f.scope } args₂) L.Same
      L.exits := by
  apply (syncs_eachPair (syncs_bindUnlessBlank .mutable) f.params hargs).asStmt.bind
  exact fun _ _ _ => h.stmt none f.body

/-- A call does not depend on where the callers stand. -/
theorem callFunction (h : L.Mirrors ev₁ ev₂) (hm : L.Alike m₁ m₂) {f : Function}
    (hf : L.Seen f.scope) {args₁ args₂ : List Value} (hargs : L.SameAll args₁ args₂)
    (frame : CallFrame) :
    (ev₁.callFunction f args₁ frame m₁).Together (L.Returns m₁ m₂) L.Same L.errors
      (ev₂.callFunction { f with scope := L.handle f.scope } args₂ frame m₂) := by
  unfold Evaluator.callFunction
  rw [hargs.length_eq]
  split
  · have hgo : m₁.calls.full? = none →
        (callResult m₁.env m₁.iota (ev₁.body f args₁ (enterCall f frame m₁))).Together
          (L.Returns m₁ m₂) L.Same L.errors (callResult m₂.env m₂.iota
            (ev₂.body { f with scope := L.handle f.scope } args₂
              (enterCall { f with scope := L.handle f.scope } frame m₂))) :=
      fun hfull => hm.callResult (h.body f hargs (hm.enterCall hf frame hfull))
    rcases L.full hm.calls with hfull | ⟨hcuts, hfull⟩
    · rw [hfull]
      cases hmax : m₁.calls.full? with
      | none => exact hgo hmax
      | some max => exact .exit ⟨rfl, L.overflow hm.calls hmax⟩ hm.returns
    · obtain ⟨max, hmax⟩ := Option.ne_none_iff_exists'.mp hfull
      rw [hmax]
      exact .cut ⟨hcuts, rfl, L.overflow hm.calls hmax, _, hm.calls⟩
  · exact .exit ⟨rfl, L.ordinary rfl⟩ hm.returns

theorem callValue_alike (h : L.Mirrors ev₁ ev₂) (hm : L.Alike m₁ m₂) {callee₁ callee₂ : Value}
    (hcallee : L.Same callee₁ callee₂) {args₁ args₂ : List Value} (hargs : L.SameAll args₁ args₂)
    (name : String) (span : Option Span) :
    (ev₁.callValue callee₁ args₁ name span m₁).Together (L.Returns m₁ m₂) L.Same L.errors
      (ev₂.callValue callee₂ args₂ name span m₂) := by
  obtain ⟨hwithin, rfl⟩ := hcallee
  cases callee₁ with
  | func f => exact h.callFunction hm (Value.within_func.mp hwithin) hargs ⟨name, span⟩
  | method recv func method =>
    rw [Value.relocate]
    unfold Evaluator.callValue
    change Run.Together _ _ _ (Eval.bind (Eval.asks fun m => m.functions.find? func) _ m₁)
      (Eval.bind (Eval.asks fun m => m.functions.find? func) _ m₂)
    simp only [Eval.bind, Eval.asks, hm.functions, Value.kindName_relocate]
    cases hcode : m₁.functions.find? func with
    | none => exact .exit ⟨rfl, L.ordinary rfl⟩ hm.returns
    | some f =>
      obtain ⟨hseen, hfixed⟩ := hm.code hcode
      have hrecv : L.Same recv (recv.relocate L.handle) := ⟨Value.within_method.mp hwithin, rfl⟩
      have hcall := h.callFunction hm hseen (hargs.cons hrecv) ⟨method, span⟩
      rw [hfixed] at hcall
      exact hcall
  | void | bool | int | float | str | tuple | struct =>
    exact .exit ⟨rfl, L.ordinary rfl⟩ hm.returns

theorem callValue (h : L.Mirrors ev₁ ev₂) {callee₁ callee₂ : Value}
    (hcallee : L.Same callee₁ callee₂) {args₁ args₂ : List Value} (hargs : L.SameAll args₁ args₂)
    (name : String) (span : Option Span) :
    L.Syncs (ev₁.callValue callee₁ args₁ name span) (ev₂.callValue callee₂ args₂ name span) L.Same
      L.errors :=
  fun _ _ hm => (h.callValue_alike hm.toAlike hcallee hargs name span).mono fun hr => hr.inStep hm

theorem call (h : L.Mirrors ev₁ ev₂) (callee : Expr) (args : List Expr) (span : Span) :
    L.Syncs (ev₁.call callee args span) (ev₂.call callee args span) L.Same L.errors := by
  apply (h.expr callee).bind
  intro f₁ f₂ hf
  apply (h.spreadExprs args).bind
  exact fun vs₁ vs₂ hvs => h.callValue hf hvs callee.calleeName (some span)

end Mirrors

/-! ### Struct values -/

theorem syncs_catalog : L.Syncs (Eval.asks (·.types.catalog)) (Eval.asks (·.types.catalog)) Eq
    L.errors :=
  syncs_asks fun hm => congrArg Universe.catalog hm.types.symm

theorem syncs_selectMethod {recv₁ recv₂ : Value} (hrecv : L.Same recv₁ recv₂) (ty : TypeId)
    (name : String) :
    L.Syncs (selectMethod recv₁ ty name) (selectMethod recv₂ ty name) L.Same L.errors := by
  obtain ⟨hwithin, rfl⟩ := hrecv
  apply syncs_catalog.bind
  rintro c _ rfl
  cases c.findMethod ty name with
  | none => exact syncs_fail rfl
  | some path =>
    dsimp only
    rw [follow_relocate]
    apply Syncs.bind (U := L.Same)
    · apply syncs_ofExcept
      · intro target hok
        have htarget : target.Within L.Seen := of_follow Value.within_struct.mp hwithin hok
        exact ⟨_, by rw [hok, Except.map], htarget, rfl⟩
      · exact fun c herror => ⟨by rw [herror, Except.map], isLocal_of_follow herror⟩
    intro target₁ target₂ htarget
    apply (syncs_onTypes _).bind
    rintro method _ rfl
    cases method.func with
    | none => exact syncs_fail rfl
    | some func =>
      obtain ⟨htarget, rfl⟩ := htarget
      exact syncs_pure ⟨Value.within_method.mpr htarget, rfl⟩

theorem syncs_selectFrom {recv₁ recv₂ : Value} (hrecv : L.Same recv₁ recv₂) (name : String) :
    L.Syncs (selectFrom recv₁ name) (selectFrom recv₂ name) L.Same L.errors := by
  obtain ⟨hwithin, rfl⟩ := hrecv
  cases recv₁ with
  | struct ty vs =>
    have hfield : L.Syncs (Eval.asks fun m => field? m.types.catalog name (.struct ty vs))
        (Eval.asks fun m => field? m.types.catalog name ((Value.struct ty vs).relocate L.handle))
        (fun v₁ v₂ => (∀ v, v₁ = some v → v.Within L.Seen) ∧
          v₂ = v₁.map (Value.relocate L.handle)) L.errors := by
      apply syncs_asks
      intro m₁ m₂ hm
      rw [hm.types, field?_relocate]
      exact ⟨of_field? Value.within_struct.mp hwithin, rfl⟩
    apply hfield.bind
    rintro v₁ _ ⟨hv, rfl⟩
    cases v₁ with
    | none => exact syncs_selectMethod ⟨hwithin, rfl⟩ ty name
    | some v => exact syncs_pure ⟨hv v rfl, rfl⟩
  | void | bool | int | float | str | tuple | func | method => exact syncs_fail rfl

namespace Mirrors

variable {ev₁ ev₂ : Evaluator}

theorem composite (h : L.Mirrors ev₁ ev₂) (typeName : String) (fields : List Expr) :
    L.Syncs (ev₁.composite typeName fields) (ev₂.composite typeName fields) L.Same L.errors := by
  apply syncs_catalog.bind
  rintro c _ rfl
  cases c.lookupNamed typeName with
  | none => exact syncs_fail rfl
  | some ty =>
    dsimp only
    cases c.structFields? ty with
    | none => exact syncs_fail rfl
    | some decls =>
      dsimp only
      split
      · apply (h.exprs fields).bind
        rintro vs₁ _ ⟨hvs, rfl⟩
        exact syncs_pure ⟨Value.within_struct.mpr hvs, by
          rw [Value.relocate, Value.relocateAll_eq_map]⟩
      · exact syncs_fail rfl

/-! ### Blocks, conditions, loops, switches and labels -/

theorem block (h : L.Mirrors ev₁ ev₂) (body : List Stmt) :
    L.Syncs (ev₁.block body) (ev₂.block body) (fun _ _ => True) L.exits :=
  (h.stmts body).inFrame

theorem branch (h : L.Mirrors ev₁ ev₂) (first : Option Stmt) (cond : Expr) (body : Stmt)
    (otherwise : Option Stmt) :
    L.Syncs (ev₁.branch first cond body otherwise) (ev₂.branch first cond body otherwise)
      (fun _ _ => True) L.exits := by
  apply Syncs.inFrame
  apply (h.optional first).bind
  intro _ _ _
  apply (h.condition cond).asStmt.bind
  rintro holds _ rfl
  cases holds with
  | true => exact h.optional (some body)
  | false => exact h.optional otherwise

theorem loopBody (h : L.Mirrors ev₁ ev₂) (label : Option String) (body : Stmt) :
    L.Syncs (ev₁.loopBody label body) (ev₂.loopBody label body) Eq L.exits := by
  have hround : L.Syncs (do let _ ← ev₁.stmt none body; return true)
      (do let _ ← ev₂.stmt none body; return true) Eq L.exits :=
    (h.stmt none body).bind fun _ _ _ => syncs_pure rfl
  apply hround.jumps
  · exact fun _ => rfl
  · exact fun _ => rfl
  · intro x
    cases hx : x.inLoop label with
    | again => exact .inl ⟨true, rfl, rfl⟩
    | done => exact .inl ⟨false, rfl, rfl⟩
    | exit y =>
      obtain ⟨rfl, _⟩ := Exit.of_inLoop hx
      exact .inr rfl

theorem goesOn (h : L.Mirrors ev₁ ev₂) (cond : Option Expr) :
    L.Syncs (ev₁.goesOn cond) (ev₂.goesOn cond) Eq L.exits := by
  cases cond with
  | none => exact syncs_pure rfl
  | some e => exact (h.condition e).asStmt

theorem round (h : L.Mirrors ev₁ ev₂) (label : Option String) (cond : Option Expr)
    (post : Option Stmt) (body : Stmt) :
    L.Syncs (ev₁.round label cond post body) (ev₂.round label cond post body) Eq L.exits := by
  apply (h.goesOn cond).bind
  rintro goes _ rfl
  cases goes with
  | false => exact syncs_pure rfl
  | true =>
    apply (h.loopBody label body).bind
    rintro again _ rfl
    cases again with
    | false => exact syncs_pure rfl
    | true => exact (h.optional post).bind fun _ _ _ => syncs_pure rfl

theorem loop (h : L.Mirrors ev₁ ev₂) (budget : Nat) (label : Option String) (first : Option Stmt)
    (cond : Option Expr) (post : Option Stmt) (body : Stmt) :
    L.Syncs (ev₁.loop budget label first cond post body)
      (ev₂.loop budget label first cond post body) (fun _ _ => True) L.exits := by
  apply Syncs.inFrame
  apply (h.optional first).bind
  exact fun _ _ _ => (h.round label cond post body).repeatWhile budget

theorem caseValue (h : L.Mirrors ev₁ ev₂) (tagged : Bool) (e : Expr) :
    L.Syncs (ev₁.caseValue tagged e) (ev₂.caseValue tagged e) L.Same L.errors := by
  cases tagged with
  | true => exact h.expr e
  | false =>
    apply (h.condition e).bind
    rintro b _ rfl
    exact syncs_pure (same_of_isPlain rfl)

theorem anyCase (h : L.Mirrors ev₁ ev₂) (tagged : Bool) {tag₁ tag₂ : Value}
    (htag : L.Same tag₁ tag₂) (es : List Expr) :
    L.Syncs (ev₁.anyCase tagged tag₁ es) (ev₂.anyCase tagged tag₂ es) Eq L.errors := by
  induction es with
  | nil => exact syncs_pure rfl
  | cons e rest ih =>
    apply (h.caseValue tagged e).bind
    intro v₁ v₂ hv
    rw [htag.2, hv.2, Value.equal_relocate (fun a b => Correspondence.handle_inj) htag.1 hv.1]
    split
    · exact syncs_pure rfl
    · rw [← htag.2]
      exact ih

theorem chosenClause (h : L.Mirrors ev₁ ev₂) (tagged : Bool) {tag₁ tag₂ : Value}
    (htag : L.Same tag₁ tag₂) (clauses : List (Clause Expr Stmt)) :
    L.Syncs (ev₁.chosenClause tagged tag₁ clauses) (ev₂.chosenClause tagged tag₂ clauses) Eq
      L.errors := by
  induction clauses with
  | nil => exact syncs_pure rfl
  | cons c rest ih =>
    apply (h.anyCase tagged htag (c.values.getD [])).bind
    rintro matched _ rfl
    cases matched with
    | true => exact syncs_pure rfl
    | false => exact ih

theorem tagValue (h : L.Mirrors ev₁ ev₂) (tag : Option Expr) :
    L.Syncs (ev₁.tagValue tag) (ev₂.tagValue tag) L.Same L.errors := by
  cases tag with
  | none => exact syncs_pure (same_of_isPlain rfl)
  | some e => exact h.expr e

theorem switchBody (h : L.Mirrors ev₁ ev₂) (first : Option Stmt) (tag : Option Expr)
    (clauses : List (Clause Expr Stmt)) :
    L.Syncs (ev₁.switchBody first tag clauses) (ev₂.switchBody first tag clauses)
      (fun _ _ => True) L.exits := by
  apply (h.optional first).bind
  intro _ _ _
  apply (h.tagValue tag).asStmt.bind
  intro v₁ v₂ hv
  apply (h.chosenClause tag.isSome hv clauses).asStmt.bind
  rintro chosen _ rfl
  split
  · exact (h.stmts _).inFrame
  · exact syncs_pure trivial

theorem switch (h : L.Mirrors ev₁ ev₂) (label : Option String) (first : Option Stmt)
    (tag : Option Expr) (clauses : List (Clause Expr Stmt)) :
    L.Syncs (ev₁.switch label first tag clauses) (ev₂.switch label first tag clauses)
      (fun _ _ => True) L.exits := by
  apply (h.switchBody first tag clauses).inFrame.jumps
  · exact fun _ => rfl
  · exact fun _ => rfl
  · intro x
    cases hx : x.inSwitch label with
    | none => exact .inl ⟨(), trivial, rfl⟩
    | some y =>
      obtain ⟨rfl, _⟩ := Exit.of_inSwitch hx
      exact .inr rfl

theorem labeled (h : L.Mirrors ev₁ ev₂) (label : String) (body : Stmt) :
    L.Syncs (ev₁.labeled label body) (ev₂.labeled label body) L.Same L.exits := by
  apply (h.stmt (some label) body).jumps
  · exact fun _ => rfl
  · exact fun _ => rfl
  · intro x
    cases hx : x.inLabeled label with
    | none => exact .inl ⟨.void, same_of_isPlain rfl, rfl⟩
    | some y =>
      obtain ⟨rfl, _⟩ := Exit.of_inLabeled hx
      exact .inr rfl

/-! ### Forms -/

theorem binary (h : L.Mirrors ev₁ ev₂) (op : BinaryOp) (left right : Expr) :
    L.Syncs (ev₁.binary op left right) (ev₂.binary op left right) L.Same L.errors := by
  apply (h.expr left).bind
  intro l₁ l₂ hl
  split
  · obtain rfl := hl.2
    cases l₁ with
    | bool b =>
      dsimp only [Value.relocate]
      split
      · exact syncs_pure (same_of_isPlain rfl)
      · apply (h.expr right).bind
        intro r₁ r₂ hr
        obtain rfl := hr.2
        cases r₁ with
        | bool r => exact syncs_pure (same_of_isPlain rfl)
        | void | int | float | str | tuple | func | struct | method => exact syncs_fail rfl
    | void | int | float | str | tuple | func | struct | method => exact syncs_fail rfl
  · apply (h.expr right).bind
    exact fun r₁ r₂ hr => apply op hl hr

/-- Every form of expression keeps the contract if the evaluators of its parts do. -/
theorem exprForm (h : L.Mirrors ev₁ ev₂) (e : Expr) :
    L.Syncs (ev₁.exprForm e) (ev₂.exprForm e) L.Same L.errors := by
  cases e with
  | int | float | str => exact syncs_pure (same_of_isPlain rfl)
  | ident span name => exact syncs_identifier name
  | binary span op left right => exact h.binary op left right
  | unary span op operand =>
    apply (h.expr operand).bind
    intro v₁ v₂ hv
    rw [hv.2, UnaryOp.apply_relocate]
    apply syncs_ofExcept
    · exact fun v hok => ⟨v, hok, same_of_isPlain (UnaryOp.isPlain_of_apply hok)⟩
    · exact fun c herror => ⟨herror, UnaryOp.isLocal_of_apply herror⟩
  | call span callee args => exact h.call callee args span
  | func span params body =>
    apply syncs_asks
    intro m₁ m₂ hm
    rw [hm.current_eq]
    exact ⟨Value.within_func.mpr hm.current, rfl⟩
  | select span base name =>
    apply (h.expr base).bind
    exact fun recv₁ recv₂ hrecv => syncs_selectFrom hrecv name
  | composite span typeName fields => exact h.composite typeName fields

theorem effect {ε : Type} {E : ExitPairs ε} {x₁ x₂ : Eval ε Unit}
    (hx : L.Syncs x₁ x₂ (fun _ _ => True) E) : L.Syncs (effect x₁) (effect x₂) L.Same E :=
  hx.bind fun _ _ _ => syncs_pure (same_of_isPlain rfl)

/-- Every form of statement keeps the contract if the evaluators of its parts do. -/
theorem stmtForm (h : L.Mirrors ev₁ ev₂) (budget : Nat) (label : Option String) (s : Stmt) :
    L.Syncs (ev₁.stmtForm budget label s) (ev₂.stmtForm budget label s) L.Same L.exits := by
  cases s with
  | empty => exact syncs_pure (same_of_isPlain rfl)
  | expr span e => exact (h.expr e).asStmt
  | define span names values => exact effect (h.define names values).asStmt
  | assign span targets op values =>
    cases op with
    | none => exact effect (h.assign targets values).asStmt
    | some op => exact effect (h.assignOp targets op values).asStmt
  | incDec span target increment => exact effect (syncs_incDec target increment).asStmt
  | block span body => exact effect (h.block body)
  | branch span first cond body otherwise => exact effect (h.branch first cond body otherwise)
  | loop span first cond post body => exact effect (h.loop budget label first cond post body)
  | jump span kind target =>
    cases kind with
    | leaveLoop | nextRound => exact syncs_raise fun _ => ⟨rfl, trivial⟩
    | goto | fallthrough => exact syncs_raise fun _ => ⟨rfl, L.ordinary rfl⟩
  | result span values =>
    apply (h.spreadExprs values).asStmt.bind
    rintro vs₁ _ ⟨hvs, rfl⟩
    exact syncs_raise fun _ => ⟨rfl, hvs⟩
  | labeled span label body => exact h.labeled label body
  | switch span first tag clauses => exact effect (h.switch label first tag clauses)
  | constants span specs => exact effect (h.constants specs).asStmt

end Mirrors

end Lockstep

/-! ### Evaluators -/

/-- The evaluator in which every part is evaluated through `via`. -/
def evaluatorVia (via : Evaluator → Evaluator) : Nat → Evaluator
  | 0 => via .exhausted
  | n + 1 => via {
      stmt := fun label s =>
        ((evaluatorVia via n).stmtForm n label s).mapExit (·.locate s.span)
      expr := fun e => ((evaluatorVia via n).exprForm e).mapExit (·.locate e.span) }

/-- To evaluate each part as it is makes no difference. -/
theorem evaluatorVia_id (budget : Nat) : evaluatorVia id budget = evaluator budget := by
  induction budget with
  | zero => rfl
  | succ budget ih => simp only [evaluatorVia, evaluator, onOwnStack_eq, ih, id]

/-- Runs statements in turn, with the value of the last one; the first error ends the run. -/
def Evaluator.runFrom (ev : Evaluator) (last : Value) : List Stmt → Eval EvalError Value
  | [] => pure last
  | s :: rest => do
    let v ← (ev.stmt none s).mapExit Exit.toError
    ev.runFrom v rest

/-- To run a program is to run it on the evaluator. -/
theorem runProgramFrom_eq (budget : Nat) (last : Value) (program : List Stmt) :
    runProgramFrom budget last program = (evaluator budget).runFrom last program := by
  induction program generalizing last with
  | nil => rfl
  | cons s rest ih =>
    rw [runProgramFrom, Evaluator.runFrom]
    simp only [ih]
    rfl

namespace Lockstep

/-- **Evaluation mirrors itself**, also where the second run evaluates every part through `via`, as
long as that keeps the mirror. The induction is on the budget: the parts of a form, bodies of called
functions included, are evaluated with a smaller one. -/
theorem mirrors (L : Lockstep) {via : Evaluator → Evaluator}
    (hvia : ∀ {ev₁ ev₂}, L.Mirrors ev₁ ev₂ → L.Mirrors ev₁ (via ev₂)) (budget : Nat) :
    L.Mirrors (evaluator budget) (evaluatorVia via budget) := by
  induction budget with
  | zero => exact hvia ⟨fun _ => syncs_exhausted, fun _ _ => syncs_exhausted⟩
  | succ budget ih =>
    apply hvia
    constructor
    · intro e m₁ m₂ hm
      simp only [evaluator, onOwnStack_eq]
      exact (ih.exprForm e).mapExit (errors_locate_alike e.span) (errors_locate_cut e.span) hm
    · intro label s m₁ m₂ hm
      simp only [evaluator, onOwnStack_eq]
      exact (ih.stmtForm budget label s).mapExit (exits_locate_alike s.span)
        (exits_locate_cut s.span) hm

theorem mirrors_self (L : Lockstep) (budget : Nat) :
    L.Mirrors (evaluator budget) (evaluator budget) := by
  have h : L.Mirrors (evaluator budget) (evaluatorVia id budget) := L.mirrors id budget
  rwa [evaluatorVia_id] at h

theorem Mirrors.runFrom {L : Lockstep} {ev₁ ev₂ : Evaluator} (h : L.Mirrors ev₁ ev₂)
    {last₁ last₂ : Value} (hlast : L.Same last₁ last₂) (program : List Stmt) :
    L.Syncs (ev₁.runFrom last₁ program) (ev₂.runFrom last₂ program) L.Same L.errors := by
  induction program generalizing last₁ last₂ with
  | nil => exact syncs_pure hlast
  | cons s rest ih =>
    apply Syncs.bind (U := L.Same)
    · apply (h.stmt none s).mapExit
      · rintro x _ c ⟨rfl, hsound⟩
        refine ⟨?_, error_of_sound hsound⟩
        cases x <;> rfl
      · rintro _ c ⟨e, rfl, hcut⟩
        exact hcut
    · exact fun v₁ v₂ hv => ih hv

end Lockstep

end ScriptEngine
