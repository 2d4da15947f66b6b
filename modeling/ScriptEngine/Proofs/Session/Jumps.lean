import Mathlib
import ScriptEngine.Proofs.Session.Requests

/-!
Jumps stay where the text of a program puts them.

A function is contained if every `break` and `continue` of its body, and of the bodies of the
function literals in it, is consumed inside its own function. Where a session only ever got
contained functions, it holds only contained ones (`Session.Contained.perform`). Then no call turns
a jump into an error, and no program does that consumes its own jumps.

Main statement: `jumps_follow_scopes`.
-/

namespace ScriptEngine

/-! ### Contained code -/

/-- The only jump that leaves the body of a function is `return`. -/
def Stmt.Contained (body : Stmt) : Prop :=
  ∀ j, body.Escapes none j → j = .result

/-- The body of a function and those of the function literals in it are contained. -/
def Function.Contained (f : Function) : Prop :=
  f.body.Obeys Stmt.Contained ∧ f.body.Contained

/-- Every function in a value is contained. -/
inductive Value.Contained : Value → Prop where
  | plain {v} : v.isPlain = true → Contained v
  | tuple {vs} : (∀ v ∈ vs, Contained v) → Contained (.tuple vs)
  | func {f} : f.Contained → Contained (.func f)
  | struct {ty vs} : (∀ v ∈ vs, Contained v) → Contained (.struct ty vs)
  | method {recv func name} : Contained recv → Contained (.method recv func name)

namespace Policy

/-- Functions are contained, and no error is a jump out of its place. -/
def contained : Policy where
  value := Value.Contained
  body := Stmt.Contained
  cause c := c.isJump = false
  types _ := True
  plain := .plain
  tuple := by
    intro vs
    constructor
    · intro h
      cases h with
      | plain hp => cases hp
      | tuple h => exact h
    · exact .tuple
  func := by
    intro f
    constructor
    · intro h
      cases h with
      | plain hp => cases hp
      | func h => exact h
    · exact .func
  fields := by
    intro ty vs h
    cases h with
    | plain hp => cases hp
    | struct h => exact h
  receiver := by
    intro recv func name h
    cases h with
    | plain hp => cases hp
    | method h => exact h
  struct _ _ _ _ hvs := .struct hvs
  bound _ _ htarget _ _ _ _ := .method htarget
  resolved _ := trivial
  ordinary hc := hc
  escaped hb hj hne := absurd (hb _ hj) hne

end Policy

/-! ### Requests -/

namespace Request

/-- The functions that a request brings along are contained. -/
def Contained : Request → Prop
  | program stmts | nested stmts => ∀ s ∈ stmts, s.Obeys Stmt.Contained
  | stmt s => s.Obeys Stmt.Contained
  | expr e => e.Obeys Stmt.Contained
  | call callee args _ _ => callee.Obeys Stmt.Contained ∧ ∀ e ∈ args, e.Obeys Stmt.Contained
  | method _ _ f _ => f.Contained
  | define _ b => b.value.Contained
  | assign _ v => v.Contained
  | enterFrame | leaveFrame => True

/-- No jump leaves a statement of a program; a single statement may hand its jumps to the host. -/
def Closed : Request → Prop
  | program stmts | nested stmts => ∀ s ∈ stmts, ∀ j, ¬ s.Escapes none j
  | _ => True

/-- An exit that is no error with a jump for its cause. -/
def Faultless (x : Exit) : Prop :=
  ∀ e, x = .failed e → e.cause.isJump = false

theorem faultless_failed {e : EvalError} (he : Policy.contained.error e) :
    Faultless (.failed e) := by
  rintro _ ⟨⟩
  exact he

/-- The machine after declaring a method is contained if the method is. -/
theorem ends_declareMethod {ty : TypeId} {decl : MethodDecl} {f : Function} {pointer : Bool}
    (hf : f.Contained) {m : Machine} (hm : Policy.contained.Holds m) :
    (Evaluator.declareMethod ty decl f pointer).Ends m (fun _ => Policy.contained.Holds)
      fun e m' => Policy.contained.Holds m' ∧ Policy.contained.error e := by
  unfold Evaluator.declareMethod
  dsimp only
  split
  · apply Eval.ends_bind.mpr
    apply Eval.ends_onTypes
    · intro ⟨index, func⟩ types
      apply Eval.ends_bind.mpr
      apply Eval.ends_update.mpr
      apply Eval.ends_pure.mpr
      constructor
      · exact hm.frames
      · intro id g hg
        rcases Assoc.eq_or_find?_of_set hg with rfl | hold
        · exact hf
        · exact hm.functions hold
      · trivial
    · exact fun e types => ⟨⟨hm.frames, hm.functions, trivial⟩, rfl⟩
  · exact ⟨hm, rfl⟩

theorem Contained.obeys {r : Request} (hr : r.Contained) : r.Obeys Policy.contained := by
  cases r <;> exact hr

theorem Closed.not_escapes {r : Request} (hr : r.Closed) (j : Signal) : ¬ r.Escapes j := by
  cases r with
  | program stmts | nested stmts => exact fun ⟨s, hs, hj⟩ => hr s hs j hj
  | _ => exact id

/-- A request keeps contained machines so, and if it is closed, it fails with no jump. -/
theorem ends_run {r : Request} (hr : r.Contained) (budget : Nat) {m : Machine}
    (hm : Policy.contained.Holds m) :
    (r.run budget).Ends m (fun _ => Policy.contained.Holds)
      fun x m' => Policy.contained.Holds m' ∧ (r.Closed → Faultless x) := by
  have hkeeps : r.Evaluates → (r.run budget).Ends m (fun _ => Policy.contained.Holds)
      fun x m' => Policy.contained.Holds m' ∧ (r.Closed → Faultless x) := by
    intro evaluates
    apply ((Policy.contained.keeps_request hr.obeys evaluates budget).holds hm).mono
    · exact fun _ _ h => h.1
    · intro x m' ⟨hm', hx⟩
      exact ⟨hm', fun hclosed e he => hx e he fun j hj => absurd hj (hclosed.not_escapes j)⟩
  cases r with
  | method ty decl f pointerReceiver =>
    apply Eval.ends_discard.mpr
    apply Eval.ends_asStmt.mpr
    apply (ends_declareMethod hr hm).mono
    · exact fun _ _ h => h
    · exact fun e _ ⟨hm', he⟩ => ⟨hm', fun _ => faultless_failed he⟩
  | enterFrame => exact ⟨hm.frames.grow _, hm.functions, hm.types⟩
  | leaveFrame => exact ⟨hm.frames, hm.functions, hm.types⟩
  | program | nested | stmt | expr | call | define | assign => exact hkeeps trivial

end Request

/-- The functions that an action brings along are contained. -/
def Action.Contained : Action → Prop
  | .addInterpreter _ _ _ globals => ∀ g ∈ globals, g.2.Contained
  | .request _ _ r => r.Contained
  | .addUniverse _ | .types _ => True

/-! ### Sessions -/

namespace Session

/-- Every function in a session is contained. -/
structure Contained (s : Session) : Prop where
  frames : s.frames.Binds Value.Contained
  functions : ∀ {key i}, s.interpreters.find? key = some i →
    ∀ {id f}, i.functions.find? id = some f → f.Contained

namespace Contained

variable {s : Session}

theorem machine (h : s.Contained) {key : String} {i : Interpreter}
    (hi : s.interpreters.find? key = some i) : Policy.contained.Holds (s.machine i) :=
  ⟨h.frames, h.functions hi, trivial⟩

theorem addInterpreter (h : s.Contained) {key : String} {index : Nat} {limit : Option Nat}
    {globals : List (String × Value)} (hglobals : ∀ g ∈ globals, g.2.Contained) :
    (s.addInterpreter key index limit globals).Contained := by
  constructor
  · exact binds_defineGlobals hglobals (h.frames.grow none)
  · intro key' i hi id f hf
    rcases Assoc.eq_or_find?_of_set hi with rfl | hold
    · cases hf
    · exact h.functions hold hf

theorem absorb (h : s.Contained) {key : String} {i : Interpreter} {m : Machine}
    (hm : Policy.contained.Holds m) : (s.absorb key i m).Contained := by
  constructor
  · exact hm.frames
  · intro key' i' hi id f hf
    rcases Assoc.eq_or_find?_of_set hi with rfl | hold
    · exact hm.functions hf
    · exact h.functions hold hf

/-- **An action that brings along contained functions leaves only contained functions.** -/
theorem perform (h : s.Contained) {a : Action} (ha : a.Contained) : (s.perform a).Contained := by
  cases a with
  | addUniverse | types => exact ⟨h.frames, h.functions⟩
  | addInterpreter key index limit globals => exact h.addInterpreter ha
  | request key budget r =>
    refine perform_request h fun i hi => ?_
    apply (Request.ends_run ha budget (h.machine hi)).mono
    · exact fun _ _ hm => h.absorb hm
    · exact fun _ _ hm => h.absorb hm.1

end Contained

/-- The sessions that came by contained functions only hold contained functions. -/
theorem ReachableBy.contained {s : Session} (h : s.ReachableBy fun _ a => a.Contained) :
    s.Contained := by
  induction h with
  | start threadSafe =>
    have hempty : Contained ⟨.empty, #[⟨threadSafe, .empty⟩], .empty⟩ := by
      constructor
      · exact Frames.binds_empty
      · intro key i hi
        cases hi
    exact hempty.addInterpreter (by simp)
  | step a _ ha ih => exact ih.perform ha

end Session

/-- A closed request in a contained session fails with no jump. -/
theorem Session.Contained.faultless {s : Session} (h : s.Contained) {key : String} {budget : Nat}
    {r : Request} (hr : r.Contained) (hclosed : r.Closed) {x : Exit}
    (hx : (s.run key (r.run budget)).1 = some (.error x)) : Request.Faultless x := by
  unfold Session.run at hx
  cases hi : s.interpreters.find? key with
  | none => simp [hi] at hx
  | some i =>
    have hends := Request.ends_run hr budget (h.machine hi)
    simp only [hi] at hx
    unfold Eval.Ends at hends
    cases hrun : r.run budget (s.machine i) with
    | exhausted => simp [hrun] at hx
    | value a m => simp [hrun] at hx
    | exit y m =>
      simp only [hrun, Option.some.injEq, Except.error.injEq] at hx
      rw [hrun] at hends
      subst hx
      exact hends.2 hclosed

/-- A jump that ends a statement escapes it. -/
theorem escapes_of_exit {budget : Nat} {label : Option String} {s : Stmt} {m m' : Machine}
    {x : Exit} {j : Signal} (hx : (evaluator budget).stmt label s m = .exit x m')
    (hj : x.signal? = some j) : s.Escapes label j := by
  have hstmt := (Policy.any.governs budget).stmt label (s := s) (fun _ _ => trivial) m
    (Policy.holds_any m)
  exact Policy.exit_signal (hstmt.of_exit hx).2 hj

/-! ### The main result -/

/-- **Jumps follow the scopes of the text.** A jump that ends a statement stands in it where nothing
consumes it; an expression ends with no jump; and in a session that came by contained functions
only, a request that consumes its own jumps never fails with a jump out of its place. -/
theorem jumps_follow_scopes :
    (∀ (budget : Nat) (label : Option String) (s : Stmt) (m m' : Machine) (x : Exit) (j : Signal),
      (evaluator budget).stmt label s m = .exit x m' → x.signal? = some j → s.Escapes label j) ∧
    (∀ (budget : Nat) (label : Option String) (span : Span) (e : Expr) (m m' : Machine) (x : Exit),
      (evaluator budget).stmt label (.expr span e) m = .exit x m' → x.signal? = none) ∧
    ∀ (s : Session), s.ReachableBy (fun _ a => a.Contained) →
      ∀ (key : String) (budget : Nat) (r : Request), r.Contained → r.Closed →
        ∀ e, (s.run key (r.run budget)).1 = some (.error (.failed e)) →
          e.cause ≠ .breakOutsideLoop ∧ e.cause ≠ .continueOutsideLoop ∧
            e.cause ≠ .returnOutsideFunction := by
  refine ⟨?_, ?_, ?_⟩
  · exact fun _ _ _ _ _ _ _ hx hj => escapes_of_exit hx hj
  · intro budget label span e m m' x hx
    cases hj : x.signal? with
    | none => rfl
    | some j => cases escapes_of_exit hx hj
  · intro s hs key budget r hr hclosed e he
    have hcause : e.cause.isJump = false := hs.contained.faultless hr hclosed he e rfl
    refine ⟨?_, ?_, ?_⟩ <;> intro h <;> rw [h] at hcause <;> cases hcause

/-- A loop that a `break` leaves at once. -/
def brokenLoop : Stmt :=
  .loop default none none none (.jump default .leaveLoop none)

/-- A loop that passes on a `continue` of another one. -/
def passingLoop : Stmt :=
  .loop default none none none (.jump default .nextRound (some "outer"))

/-- A program that binds a function with a loop in it. -/
def bindingProgram : List Stmt :=
  [.define default ["f"] [.func default [] brokenLoop]]

/-- A program that calls the function and then fails. -/
def callingProgram : List Stmt :=
  [.expr default (.call default (.ident default "f") []), .expr default (.ident default "x")]

theorem contained_brokenLoop : brokenLoop.Contained := by
  intro j hj
  cases hj with
  | loopBody hbody htaken =>
    cases hbody
    exact absurd (.inl rfl) htaken

theorem not_mentions_brokenLoop (body : Stmt) : ¬ brokenLoop.Mentions body := by
  intro h
  cases h with
  | expr he _ => cases he
  | part ht hm =>
    obtain rfl := List.mem_singleton.mp ht
    cases hm with
    | expr he _ => cases he
    | part ht _ => cases ht

theorem contained_bindingProgram : (Request.program bindingProgram).Contained := by
  intro s hs body hb
  obtain rfl := List.mem_singleton.mp hs
  cases hb with
  | part ht _ => cases ht
  | expr he hm =>
    obtain rfl := List.mem_singleton.mp he
    cases hm with
    | literal => exact contained_brokenLoop
    | inLiteral h => exact absurd h (not_mentions_brokenLoop body)
    | part hp _ => cases hp

theorem contained_callingProgram : (Request.program callingProgram).Contained := by
  intro s hs body hb
  simp only [callingProgram, List.mem_cons, List.not_mem_nil, or_false] at hs
  rcases hs with rfl | rfl
  · cases hb with
    | part ht _ => cases ht
    | expr he hm =>
      obtain rfl := List.mem_singleton.mp he
      cases hm with
      | part hp hm =>
        obtain rfl := List.mem_singleton.mp hp
        cases hm with
        | part hp _ => cases hp
  · cases hb with
    | part ht _ => cases ht
    | expr he hm =>
      obtain rfl := List.mem_singleton.mp he
      cases hm with
      | part hp _ => cases hp

theorem closed_callingProgram : (Request.program callingProgram).Closed := by
  intro s hs j hj
  simp only [callingProgram, List.mem_cons, List.not_mem_nil, or_false] at hs
  rcases hs with rfl | rfl <;> cases hj

theorem jumps_follow_scopes_loops :
    ((∃ m', (evaluator 3).stmt (some "inner") passingLoop default =
        .exit (.nextRound (some "outer")) m') ∧
      passingLoop.Escapes (some "inner") (.nextRound (some "outer"))) ∧
    (∃ x m', (evaluator 3).stmt none (.expr default (.call default (.int default 1) [])) default =
      .exit x m' ∧ x.signal? = none) ∧
    ∃ e, (((Session.start false).perform (.request "main" 9 (.program bindingProgram))).run "main"
        ((Request.program callingProgram).run 9)).1 = some (.error (.failed e)) ∧
      e.cause ≠ .breakOutsideLoop ∧ e.cause ≠ .continueOutsideLoop ∧
        e.cause ≠ .returnOutsideFunction := by
  refine ⟨?_, ?_, ?_⟩
  · have hexit : ∃ m', (evaluator 3).stmt (some "inner") passingLoop default =
        .exit (.nextRound (some "outer")) m' := ⟨_, rfl⟩
    obtain ⟨m', hm'⟩ := hexit
    exact ⟨⟨m', hm'⟩, jumps_follow_scopes.1 _ _ _ _ _ _ _ hm' rfl⟩
  · have hexit : ∃ x m', (evaluator 3).stmt none
        (.expr default (.call default (.int default 1) [])) default = .exit x m' := ⟨_, _, rfl⟩
    obtain ⟨x, m', hx⟩ := hexit
    exact ⟨x, m', hx, jumps_follow_scopes.2.1 _ _ _ _ _ _ _ hx⟩
  · have hfails : (((Session.start false).perform
        (.request "main" 9 (.program bindingProgram))).run "main"
        ((Request.program callingProgram).run 9)).1 =
        some (.error (.failed ⟨.undefinedIdentifier "x", some default, none, []⟩)) := by
      cbv
    have hreached : ((Session.start false).perform
        (.request "main" 9 (.program bindingProgram))).ReachableBy fun _ a => a.Contained :=
      .step (.request "main" 9 (.program bindingProgram)) (.start false) contained_bindingProgram
    exact ⟨_, hfails, jumps_follow_scopes.2.2 _ hreached _ _ _ contained_callingProgram
      closed_callingProgram _ hfails⟩

end ScriptEngine
