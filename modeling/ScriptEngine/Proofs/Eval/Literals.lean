import Mathlib
import ScriptEngine.Proofs.Eval.Soundness
import ScriptEngine.Proofs.Value.Equality

/-!
Functions come from the function literals of the program.

A value is written in a program if every function in it has the body of one of the program's
literals (`Value.Written`). Running the program makes no others (`keeps_runProgram_written`). So in
a program that is `Identified`, where the spans of the bodies differ, to compare functions by the
spans of their bodies is to compare the bodies (`Value.Written.equal_func_iff`).

Main statement: `runProgram_tellsApart`.
-/

namespace ScriptEngine

/-! ### Bodies in a program -/

section Bodies

variable {body : Stmt} {e : Expr} {s : Stmt}

theorem Expr.mem_bodiesOf {es : List Expr} :
    body ∈ Expr.bodiesOf es ↔ ∃ e ∈ es, body ∈ e.bodies := by
  induction es with
  | nil => simp [Expr.bodiesOf]
  | cons e rest ih => simp [Expr.bodiesOf, ih]

theorem Expr.mem_bodiesOf? {e? : Option Expr} :
    body ∈ Expr.bodiesOf? e? ↔ ∃ e ∈ e?, body ∈ e.bodies := by
  cases e? <;> simp [Expr.bodiesOf?]

theorem Stmt.mem_bodiesOf {program : List Stmt} :
    body ∈ Stmt.bodiesOf program ↔ ∃ s ∈ program, body ∈ s.bodies := by
  induction program with
  | nil => simp [Stmt.bodiesOf]
  | cons s rest ih => simp [Stmt.bodiesOf, ih]

theorem Stmt.mem_bodiesOf? {s? : Option Stmt} :
    body ∈ Stmt.bodiesOf? s? ↔ ∃ s ∈ s?, body ∈ s.bodies := by
  cases s? <;> simp [Stmt.bodiesOf?]

theorem Clause.mem_bodiesOf {clauses : List (Clause Expr Stmt)} :
    body ∈ Clause.bodiesOf clauses ↔ ∃ c ∈ clauses,
      (∃ e ∈ c.values.getD [], body ∈ e.bodies) ∨ ∃ s ∈ c.body, body ∈ s.bodies := by
  induction clauses with
  | nil => simp [Clause.bodiesOf]
  | cons c rest ih =>
    obtain ⟨values, stmts⟩ := c
    cases values <;>
      simp [Clause.bodiesOf, Clause.valueBodies, Expr.mem_bodiesOf, Stmt.mem_bodiesOf, ih, or_assoc]

theorem ConstSpec.mem_bodiesOf {specs : List (ConstSpec Expr)} :
    body ∈ ConstSpec.bodiesOf specs ↔ ∃ spec ∈ specs, ∃ e ∈ spec.values, body ∈ e.bodies := by
  induction specs with
  | nil => simp [ConstSpec.bodiesOf]
  | cons spec rest ih => simp [ConstSpec.bodiesOf, Expr.mem_bodiesOf, ih]

/-- The bodies in the parts of an expression are in the expression. -/
theorem Expr.mem_bodies_of_part {p : Expr} (hp : p ∈ e.parts) (h : body ∈ p.bodies) :
    body ∈ e.bodies := by
  cases e with
  | int | float | str | ident | func => cases hp
  | binary span op left right =>
    rw [Expr.bodies, List.mem_append]
    rcases List.mem_pair.mp hp with rfl | rfl
    · exact .inl h
    · exact .inr h
  | unary | select =>
    obtain rfl := List.mem_singleton.mp hp
    exact h
  | call span callee args =>
    rw [Expr.bodies, List.mem_append]
    rcases List.mem_cons.mp hp with rfl | hp
    · exact .inl h
    · exact .inr (Expr.mem_bodiesOf.mpr ⟨p, hp, h⟩)
  | composite => exact Expr.mem_bodiesOf.mpr ⟨p, hp, h⟩

/-- The bodies in a statement are those in its expressions and in its parts. -/
theorem Stmt.mem_bodies_iff :
    body ∈ s.bodies ↔ (∃ e ∈ s.exprs, body ∈ e.bodies) ∨ ∃ t ∈ s.parts, body ∈ t.bodies := by
  cases s with
  | empty | expr | incDec | jump | labeled => simp [Stmt.bodies, Stmt.exprs, Stmt.parts]
  | define | assign | result => simp [Stmt.bodies, Stmt.exprs, Stmt.parts, Expr.mem_bodiesOf]
  | block => simp [Stmt.bodies, Stmt.exprs, Stmt.parts, Stmt.mem_bodiesOf]
  | branch | loop =>
    simp only [Stmt.bodies, Stmt.exprs, Stmt.parts, Stmt.mem_bodiesOf?, Expr.mem_bodiesOf?,
      Option.mem_def, Option.mem_toList, List.mem_append, List.mem_cons]
    grind
  | switch =>
    simp only [Stmt.bodies, Stmt.exprs, Stmt.parts, Stmt.mem_bodiesOf?, Expr.mem_bodiesOf?,
      Clause.mem_bodiesOf, Option.mem_def, Option.mem_toList, List.mem_append, List.mem_flatMap]
    grind
  | constants =>
    simp only [Stmt.bodies, Stmt.exprs, Stmt.parts, ConstSpec.mem_bodiesOf, List.mem_flatMap]
    grind

mutual

theorem Expr.Mentions.mem_bodies {body : Stmt} {e : Expr} (h : e.Mentions body) :
    body ∈ e.bodies := by
  match h with
  | .literal => exact List.mem_cons_self ..
  | .inLiteral h => exact List.mem_cons_of_mem _ h.mem_bodies
  | .part hp h => exact Expr.mem_bodies_of_part hp h.mem_bodies

/-- The body of every function literal in a statement is listed. -/
theorem Stmt.Mentions.mem_bodies {body s : Stmt} (h : s.Mentions body) : body ∈ s.bodies := by
  match h with
  | .expr he h => exact Stmt.mem_bodies_iff.mpr (.inl ⟨_, he, h.mem_bodies⟩)
  | .part ht h => exact Stmt.mem_bodies_iff.mpr (.inr ⟨_, ht, h.mem_bodies⟩)

end

mutual

theorem Expr.Mentions.trans {e : Expr} {body inner : Stmt} (h : e.Mentions body)
    (h' : body.Mentions inner) : e.Mentions inner := by
  match h with
  | .literal => exact .inLiteral h'
  | .inLiteral h => exact .inLiteral (h.trans h')
  | .part hp h => exact .part hp (h.trans h')

/-- A literal inside the body of a literal is one in the statement. -/
theorem Stmt.Mentions.trans {s body inner : Stmt} (h : s.Mentions body)
    (h' : body.Mentions inner) : s.Mentions inner := by
  match h with
  | .expr he h => exact .expr he (h.trans h')
  | .part ht h => exact .part ht (h.trans h')

end

end Bodies

/-- `body` is the body of a function literal in the program. -/
def IsLiteral (program : List Stmt) (body : Stmt) : Prop :=
  ∃ s ∈ program, s.Mentions body

section Programs

variable {program : List Stmt} {body : Stmt}

theorem IsLiteral.mem_bodiesOf (h : IsLiteral program body) : body ∈ Stmt.bodiesOf program := by
  obtain ⟨s, hs, h⟩ := h
  exact Stmt.mem_bodiesOf.mpr ⟨s, hs, h.mem_bodies⟩

/-- What the body of a literal contains are literals of the program. -/
theorem IsLiteral.obeys (h : IsLiteral program body) : body.Obeys (IsLiteral program) := by
  obtain ⟨s, hs, h⟩ := h
  exact fun inner h' => ⟨s, hs, h.trans h'⟩

theorem obeys_isLiteral {s : Stmt} (hs : s ∈ program) : s.Obeys (IsLiteral program) :=
  fun _ h => ⟨s, hs, h⟩

/-- **In a program whose bodies have spans of their own, these tell its functions apart.** -/
theorem Function.same_iff_of_identified (hid : Identified program) {f g : Function}
    (hf : IsLiteral program f.body) (hg : IsLiteral program g.body) :
    f.same g = true ↔ f.body = g.body ∧ f.scope = g.scope := by
  rw [Function.same_iff]
  apply and_congr_left'
  constructor
  · exact List.inj_on_of_nodup_map hid hf.mem_bodiesOf hg.mem_bodiesOf
  · exact congrArg Stmt.span

-- Without spans of their own, two bodies are taken for one.
example : ¬ Identified [.expr default (.func default [] (.empty default)),
    .expr default (.func default [] (.block default []))] := by
  decide

example : Function.same ⟨[], .empty default, ⟨0⟩⟩ ⟨[], .block default [], ⟨0⟩⟩ = true := by
  decide

end Programs

/-! ### Values written in a program -/

/-- Every function in a value has the body of a literal of the program. -/
inductive Value.Written (program : List Stmt) : Value → Prop where
  | plain {v} : v.isPlain = true → Written program v
  | tuple {vs} : (∀ v ∈ vs, Written program v) → Written program (.tuple vs)
  | func {f} : IsLiteral program f.body → Written program (.func f)
  | struct {ty vs} : (∀ v ∈ vs, Written program v) → Written program (.struct ty vs)
  | method {recv func name} : Written program recv → Written program (.method recv func name)

/-- Functions have the bodies of a program's literals. -/
def Policy.written (program : List Stmt) : Policy where
  value := Value.Written program
  body := IsLiteral program
  cause _ := True
  types _ := True
  plain := .plain
  tuple := by
    intro vs
    constructor
    · intro h
      cases h with
      | plain hp => cases hp
      | tuple h => exact h
    · exact .tuple
  func := by
    intro f
    constructor
    · intro h
      cases h with
      | plain hp => cases hp
      | func h => exact ⟨h.obeys, h⟩
    · exact fun h => .func h.2
  fields := by
    intro ty vs h
    cases h with
    | plain hp => cases hp
    | struct h => exact h
  receiver := by
    intro recv func name h
    cases h with
    | plain hp => cases hp
    | method h => exact h
  struct _ _ _ _ hvs := .struct hvs
  bound _ _ htarget _ _ _ _ := .method htarget
  resolved _ := trivial
  ordinary _ := trivial
  escaped _ _ _ := trivial

/-- **Running a program makes no functions but those of its literals.** -/
theorem keeps_runProgram_written (program : List Stmt) (budget : Nat) :
    (Policy.written program).Keeps true (runProgram budget program) (Value.Written program)
      fun _ => True :=
  ((Policy.written program).keeps_runProgram budget fun _ hs => obeys_isLiteral hs).exits
    fun _ _ => trivial

/-- Functions of an identified program are equal if and only if they run the same body in the same
frame. -/
theorem Value.Written.equal_func_iff {program : List Stmt} (hid : Identified program)
    {f g : Function} (hf : (Value.func f).Written program) (hg : (Value.func g).Written program) :
    (Value.func f).equal (.func g) = true ↔ f.body = g.body ∧ f.scope = g.scope := by
  cases hf with
  | plain hp => cases hp
  | func hf =>
    cases hg with
    | plain hp => cases hp
    | func hg => exact Function.same_iff_of_identified hid hf hg

/-- Of the functions that a store binds, those are equal that run one body in one frame. -/
def Frames.TellsApart (fs : Frames) : Prop :=
  fs.Binds fun v => fs.Binds fun w => ∀ f g, v = .func f → w = .func g →
    (v.equal w = true ↔ f.body = g.body ∧ f.scope = g.scope)

theorem Frames.Binds.tellsApart {program : List Stmt} {fs : Frames} (hid : Identified program)
    (h : fs.Binds (Value.Written program)) : fs.TellsApart := by
  intro id f name b hf hb id' f' name' b' hf' hb' left right hleft hright
  have hwritten := h id f name b hf hb
  have hwritten' := h id' f' name' b' hf' hb'
  rw [hleft] at hwritten ⊢
  rw [hright] at hwritten' ⊢
  exact hwritten.equal_func_iff hid hwritten'

/-- **Equality tells the functions of an identified program apart**, however the program ends, where
it starts with no functions but its own. -/
theorem runProgram_tellsApart {program : List Stmt} (hid : Identified program) (budget : Nat)
    {m : Machine} (hm : (Policy.written program).Holds m) :
    (runProgram budget program).Ends m (fun _ m' => m'.frames.TellsApart)
      fun _ m' => m'.frames.TellsApart :=
  ((keeps_runProgram_written program budget).holds hm).mono
    (fun _ _ h => h.1.frames.tellsApart hid) fun _ _ h => h.1.frames.tellsApart hid

end ScriptEngine
