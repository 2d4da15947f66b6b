import ScriptEngine.Proofs.Eval.Soundness
import ScriptEngine.Proofs.Session.History

/-!
What requests do to the machine of an interpreter.

A request that evaluates keeps to every policy that what it brings along obeys
(`Policy.keeps_request`). The others move between frames or declare a method, which `run_method`
writes out. What a request leaves in a session is what its interpreter left
(`Session.perform_request`), and a new interpreter binds the constants that it is given
(`Session.binds_defineGlobals`).
-/

namespace ScriptEngine

namespace Request

/-- What a request brings along is within the policy. -/
def Obeys (π : Policy) : Request → Prop
  | program stmts | nested stmts => ∀ s ∈ stmts, s.Obeys π.body
  | stmt s => s.Obeys π.body
  | expr e => e.Obeys π.body
  | call callee args _ _ => callee.Obeys π.body ∧ ∀ e ∈ args, e.Obeys π.body
  | method _ _ f _ => π.function f
  | define _ b => π.value b.value
  | assign _ v => π.value v
  | enterFrame | leaveFrame => True

/-- The request evaluates code or binds a name. -/
def Evaluates : Request → Prop
  | method .. | enterFrame | leaveFrame => False
  | _ => True

/-- The jumps that leave the statements of a program, which are errors there. -/
def Escapes : Request → Signal → Prop
  | program stmts | nested stmts => Stmt.AnyEscapes stmts
  | _ => fun _ => False

end Request

/-- **A request that evaluates keeps to every policy that it obeys.** -/
theorem Policy.keeps_request (π : Policy) {r : Request} (hr : r.Obeys π) (evaluates : r.Evaluates)
    (budget : Nat) : π.Keeps true (r.run budget) (fun _ => True)
      fun x => ∀ e, x = .failed e → (∀ j, r.Escapes j → π.cause j.cause) → π.error e := by
  have hgoverns := π.governs budget
  have hfailed : ∀ e, π.error e → ∀ e', Exit.failed e = .failed e' →
      (∀ j, r.Escapes j → π.cause j.cause) → π.error e' := by
    rintro e he _ ⟨⟩ _
    exact he
  cases r with
  | method | enterFrame | leaveFrame => exact evaluates.elim
  | program stmts =>
    apply Keeps.discard
    apply Keeps.mapExit
    apply (π.keeps_runProgram budget hr).exits
    rintro e he _ ⟨⟩ hcause
    exact he hcause
  | nested stmts =>
    apply Keeps.discard
    apply Keeps.mapExit
    apply Keeps.inFrame
    apply (π.keeps_runProgram budget hr).exits
    rintro e he _ ⟨⟩ hcause
    exact he hcause
  | stmt s =>
    apply Keeps.discard
    apply (hgoverns.stmt none hr).lift.exits
    rintro x hx e rfl _
    exact hx
  | expr e =>
    apply Keeps.discard
    apply Keeps.mapExit
    exact (hgoverns.expr hr).weaken.exits hfailed
  | call callee args name span =>
    apply (Keeps.mapExit ((hgoverns.expr hr.1).weaken.exits hfailed)).bind
    intro f hf
    apply (Keeps.mapExit ((hgoverns.exprs hr.2).weaken.exits hfailed)).bind
    intro vs hvs
    apply Keeps.discard
    apply Keeps.mapExit
    exact (hgoverns.callValue hf hvs.1).weaken.exits hfailed
  | define name b =>
    apply Keeps.mapExit
    exact (Policy.keeps_bindName hr).exits hfailed
  | assign name v =>
    apply Keeps.mapExit
    exact (Policy.keeps_assignName hr).exits hfailed

/-- Declaring a method checks the function first. Then the method is declared in the universe, and
if that goes well, the interpreter knows the code of its callable. -/
theorem Evaluator.declareMethod_eq (ty : TypeId) (decl : MethodDecl) (f : Function)
    (pointerReceiver : Bool) (m : Machine) : declareMethod ty decl f pointerReceiver m =
      if f.params.length = decl.sig.params.length + 1 then
        match (declareBound ty decl pointerReceiver).run.run m.types with
        | (.ok (index, func), types) =>
          .value index { m with types, functions := m.functions.set func f }
        | (.error e, types) =>
          if e = .endless then .exhausted else .exit (.of (.typeSystem e)) { m with types }
      else
        .exit (.of (.arityMismatch decl.name (decl.sig.params.length + 1) f.params.length)) m := by
  unfold declareMethod
  dsimp only
  by_cases harity : f.params.length = decl.sig.params.length + 1
  · rw [if_pos harity, if_pos harity]
    change Eval.bind (Eval.onTypes _) _ m = _
    simp only [Eval.bind, Eval.onTypes]
    rcases (declareBound ty decl pointerReceiver).run.run m.types with
      ⟨e | ⟨index, func⟩, types⟩
    · by_cases hendless : e = .endless <;> simp only [hendless, reduceIte]
    · rfl
  · rw [if_neg harity, if_neg harity]
    rfl

theorem Request.run_method (budget : Nat) (ty : TypeId) (decl : MethodDecl) (f : Function)
    (pointerReceiver : Bool) (m : Machine) :
    (Request.method ty decl f pointerReceiver).run budget m =
      if f.params.length = decl.sig.params.length + 1 then
        match (Evaluator.declareBound ty decl pointerReceiver).run.run m.types with
        | (.ok (_, func), types) =>
          .value () { m with types, functions := m.functions.set func f }
        | (.error e, types) =>
          if e = .endless then .exhausted
          else .exit (.failed (.of (.typeSystem e))) { m with types }
      else
        .exit (.failed (.of (.arityMismatch decl.name (decl.sig.params.length + 1)
          f.params.length))) m := by
  change Eval.bind (Eval.handle (Evaluator.declareMethod ty decl f pointerReceiver) _) _ m = _
  simp only [Eval.bind, Eval.handle, Evaluator.declareMethod_eq]
  by_cases harity : f.params.length = decl.sig.params.length + 1
  · simp only [if_pos harity]
    rcases (Evaluator.declareBound ty decl pointerReceiver).run.run m.types with
      ⟨e | ⟨index, func⟩, types⟩
    · by_cases hendless : e = .endless <;> simp only [hendless, reduceIte]
      rfl
    · rfl
  · simp only [if_neg harity]
    rfl

/-- **What a request does to a session**: nothing, or the interpreter that ran is put back. What
holds of the session in either case holds after the request. -/
theorem Session.perform_request {P : Session → Prop} {s : Session} {key : String} {budget : Nat}
    {r : Request} (hs : P s)
    (hrun : ∀ i, s.interpreters.find? key = some i →
      (r.run budget).Ends (s.machine i) (fun _ m => P (s.absorb key i m))
        fun _ m => P (s.absorb key i m)) :
    P (s.perform (.request key budget r)) := by
  unfold Session.perform Session.run
  dsimp only
  cases hi : s.interpreters.find? key with
  | none => exact hs
  | some i =>
    have hends := hrun i hi
    unfold Eval.Ends at hends
    dsimp only
    cases hx : r.run budget (s.machine i) with
    | exhausted => exact hs
    | value a m | exit x m =>
      rw [hx] at hends
      exact hends

/-- What holds of the constants that an interpreter is given holds of all that is bound after. -/
theorem Session.binds_defineGlobals {P : Value → Prop} {env : Environment} {fs : Frames}
    {globals : List (String × Value)} (hglobals : ∀ g ∈ globals, P g.2) (h : fs.Binds P) :
    (Session.defineGlobals env fs globals).Binds P := by
  induction globals generalizing fs with
  | nil => exact h
  | cons g rest ih =>
    have hrest : ∀ g' ∈ rest, P g'.2 :=
      fun g' hg' => hglobals g' (List.mem_cons_of_mem _ hg')
    rw [Session.defineGlobals]
    split
    · next fs' hfs' =>
      apply ih hrest
      unfold Environment.defineGlobal at hfs'
      split at hfs'
      · cases hfs'
      · cases hfs'
        exact h.define (hglobals g (List.mem_cons_self ..))
    · exact ih hrest h

end ScriptEngine
