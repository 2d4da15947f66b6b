import ScriptEngine.Proofs.Environment.Values
import ScriptEngine.Proofs.Eval.Evolution
import ScriptEngine.Proofs.Program.Scoping

/-!
Policies: what a program may handle, contain and fail with.

A `Policy` names the values that may occur, the bodies that functions may have, the causes that
errors may have and the universes that may be met, and is closed under what evaluation does with
them. `Policy.Holds` asks this of everything in a machine, and evaluation keeps it
(`Policy.Holds.evolves`).
-/

namespace ScriptEngine

/-! ### Plain values -/

/-- A value without parts and without code. -/
def Value.isPlain : Value → Bool
  | .void | .bool _ | .int _ | .float _ | .str _ => true
  | .tuple _ | .func _ | .struct .. | .method .. => false

/-- Operators yield plain values. -/
theorem BinaryOp.isPlain_of_apply {op : BinaryOp} {left right v : Value}
    (h : op.apply left right = .ok v) : v.isPlain = true := by
  unfold apply at h
  split at h
  · cases op <;> simp only [onInts] at h <;> (try split at h) <;> cases h <;> rfl
  · cases op <;> cases h <;> rfl
  · cases op <;> cases h <;> rfl
  · cases op <;> cases h <;> rfl
  · split at h
    · cases op <;> cases h <;> rfl
    · cases h

theorem UnaryOp.isPlain_of_apply {op : UnaryOp} {operand v : Value}
    (h : op.apply operand = .ok v) : v.isPlain = true := by
  unfold apply at h
  split at h <;> cases h <;> rfl

theorem Value.isPlain_of_step {increment : Bool} {operand v : Value}
    (h : operand.step increment = .ok v) : v.isPlain = true := by
  unfold step at h
  split at h <;> cases h <;> rfl

/-! ### Parts of struct values -/

namespace Evaluator

variable {P : Value → Prop} (fields : ∀ {ty vs}, P (.struct ty vs) → ∀ v ∈ vs, P v)

include fields

/-- What passes from a struct value to its fields passes to the end of a path. -/
theorem of_follow {name : String} {path : List Nat} {recv target : Value} (h : P recv)
    (hf : follow name path recv = .ok target) : P target := by
  induction path generalizing recv with
  | nil =>
    rw [follow] at hf
    cases hf
    exact h
  | cons i path ih =>
    cases recv with
    | struct ty vs =>
      rw [follow] at hf
      split at hf
      · next v hv => exact ih (fields h v (List.mem_of_getElem? hv)) hf
      · cases hf
    | void | bool | int | float | str | tuple | func | method =>
      simp only [follow] at hf
      cases hf

/-- What passes from a struct value to its fields passes to the field of a name, an embedded one
included. -/
theorem of_field? {c : Catalog} {name : String} {recv : Value} (h : P recv) :
    ∀ v, field? c name recv = some v → P v := by
  revert h
  apply field?.induct c name
    (fun recv => P recv → ∀ v, field? c name recv = some v → P v)
    (fun decls vs => (∀ w ∈ vs, P w) → ∀ v, embeddedField? c name decls vs = some v → P v)
  case case1 =>
    intro ty fields hdecls _ v hv
    simp [field?, hdecls] at hv
  case case2 =>
    intro ty vs decls hdecls i hi h v hv
    simp only [field?, hdecls, hi] at hv
    exact fields h v (List.mem_of_getElem? hv)
  case case3 =>
    intro ty vs decls hdecls hnone ih h v hv
    simp only [field?, hdecls, hnone] at hv
    exact ih (fields h) v hv
  case case4 =>
    intro t ht _ v hv
    rw [field?] at hv
    · cases hv
    · exact ht
  case case5 =>
    intro d decls w vs found hfound ih h v hv
    simp only [embeddedField?, hfound] at hv
    split at hfound
    · exact ih (h w (List.mem_cons_self ..)) v (hfound.trans hv)
    · cases hfound
  case case6 =>
    intro d decls w vs hnone _ ih h v hv
    simp only [embeddedField?, hnone] at hv
    exact ih (fun w hw => h w (List.mem_cons_of_mem _ hw)) v hv
  case case7 =>
    intro vs decls hne _ v hv
    rw [embeddedField?] at hv
    · cases hv
    · exact hne

end Evaluator

/-! ### Policies -/

/-- A cause that is a jump out of its place. -/
def Cause.isJump : Cause → Bool
  | .breakOutsideLoop | .continueOutsideLoop | .returnOutsideFunction => true
  | _ => false

/-- What a program may handle, contain and fail with. -/
structure Policy where
  /-- The values that may occur. -/
  value : Value → Prop
  /-- The bodies that functions may have. -/
  body : Stmt → Prop
  /-- The causes that errors may have. -/
  cause : Cause → Prop
  /-- The universes that may be met. -/
  types : Universe → Prop
  plain : ∀ {v}, v.isPlain = true → value v
  tuple : ∀ {vs}, value (.tuple vs) ↔ ∀ v ∈ vs, value v
  func : ∀ {f}, value (.func f) ↔ f.body.Obeys body ∧ body f.body
  fields : ∀ {ty vs}, value (.struct ty vs) → ∀ v ∈ vs, value v
  receiver : ∀ {recv func name}, value (.method recv func name) → value recv
  struct : ∀ {u name ty decls vs}, types u → u.catalog.lookupNamed name = some ty →
    u.catalog.structFields? ty = some decls → decls.length = vs.length → (∀ v ∈ vs, value v) →
    value (.struct ty vs)
  bound : ∀ {u u' ty name path recv target method func}, types u → value recv → value target →
    u.catalog.findMethod ty name = some path → Evaluator.follow name path.fields recv = .ok target →
    (Universe.method path.owner path.index).run.run u = (.ok method, u') →
    method.func = some func → value (.method target func name)
  resolved : ∀ {u ty index}, types u → types ((Universe.method ty index).run.run u).2
  ordinary : ∀ {c}, c.isJump = false → cause c
  escaped : ∀ {b j}, body b → b.Escapes none j → j ≠ .result → cause j.cause

namespace Policy

variable {π : Policy}

/-- A function within the policy. -/
def function (π : Policy) (f : Function) : Prop :=
  f.body.Obeys π.body ∧ π.body f.body

/-- An error within the policy. -/
def error (π : Policy) (e : EvalError) : Prop :=
  π.cause e.cause

/-- An exit within the policy, of which a jump is one that `J` holds of. -/
def exit (π : Policy) (J : Signal → Prop) : Exit → Prop
  | .failed e => π.error e
  | .leaveLoop label => J (.leaveLoop label)
  | .nextRound label => J (.nextRound label)
  | .result vs => J .result ∧ ∀ v ∈ vs, π.value v

theorem exit_mono {J J' : Signal → Prop} (h : ∀ j, J j → J' j) {x : Exit} (hx : π.exit J x) :
    π.exit J' x := by
  cases x with
  | failed e => exact hx
  | leaveLoop label => exact h _ hx
  | nextRound label => exact h _ hx
  | result vs => exact ⟨h _ hx.1, hx.2⟩

theorem exit_signal {J : Signal → Prop} {x : Exit} (hx : π.exit J x) {j : Signal}
    (hj : x.signal? = some j) : J j := by
  cases x with
  | failed e => cases hj
  | leaveLoop label =>
    cases hj
    exact hx
  | nextRound label =>
    cases hj
    exact hx
  | result vs =>
    cases hj
    exact hx.1

theorem exit_and {J K : Signal → Prop} {x : Exit} (hx : π.exit J x)
    (hK : ∀ j, x.signal? = some j → K j) : π.exit (fun j => J j ∧ K j) x := by
  cases x with
  | failed e => exact hx
  | leaveLoop | nextRound => exact ⟨hx, hK _ rfl⟩
  | result vs => exact ⟨⟨hx.1, hK _ rfl⟩, hx.2⟩

theorem error_of {c : Cause} (h : c.isJump = false) : π.error (.of c) :=
  π.ordinary h

@[simp]
theorem error_locate {e : EvalError} {span : Span} : π.error (e.locate span) ↔ π.error e := by
  unfold error EvalError.locate
  split <;> rfl

@[simp]
theorem error_trace {e : EvalError} {calls : Backtrace} : π.error (e.trace calls) ↔ π.error e := by
  unfold error EvalError.trace
  split <;> rfl

@[simp]
theorem exit_locate {J : Signal → Prop} {x : Exit} {span : Span} :
    π.exit J (x.locate span) ↔ π.exit J x := by
  cases x with
  | failed e => exact error_locate
  | leaveLoop | nextRound | result => rfl

/-! ### Results and fields -/

theorem value_ofResults {vs : List Value} (h : ∀ v ∈ vs, π.value v) :
    π.value (.ofResults vs) := by
  match vs with
  | [] => exact π.plain rfl
  | [v] => exact h v (List.mem_singleton_self v)
  | v :: w :: rest => exact π.tuple.mpr h

theorem value_results {v : Value} (h : π.value v) : ∀ w ∈ v.results, π.value w := by
  cases v with
  | void => simp [Value.results]
  | tuple vs => exact π.tuple.mp h
  | bool | int | float | str | func | struct | method => simpa [Value.results] using h

theorem value_spread {v : Value} (h : π.value v) : ∀ w ∈ v.spread, π.value w := by
  cases v with
  | tuple vs => exact π.tuple.mp h
  | void | bool | int | float | str | func | struct | method => simpa [Value.spread] using h

/-! ### Machines under a policy -/

/-- Everything in a machine is within the policy. -/
structure Holds (π : Policy) (m : Machine) : Prop where
  frames : m.frames.Binds π.value
  functions : ∀ {id f}, m.functions.find? id = some f → π.function f
  types : π.types m.types

theorem Holds.under {m : Machine} (h : π.Holds m) (iota : Option Int64) :
    π.Holds { m with iota } :=
  ⟨h.frames, h.functions, h.types⟩

/-- **Evaluation within a policy keeps the machine under it.** -/
theorem Holds.evolves {binds : Bool} {m m' : Machine} (h : π.Holds m)
    (hm : Evolves π.value binds m m') : π.Holds m' := by
  induction hm with
  | refl => exact h
  | trans _ _ ih₁ ih₂ => exact ih₂ (ih₁ h)
  | define hd hv => exact ⟨Environment.binds_define h.frames hv hd, h.functions, h.types⟩
  | assign ha hv => exact ⟨Environment.binds_assign h.frames hv ha, h.functions, h.types⟩
  | @inFrame binds m m' _ ih =>
    have hm' := ih ⟨h.frames.grow _, h.functions, h.types⟩
    exact ⟨hm'.frames, hm'.functions, hm'.types⟩
  | @underOrdinal binds m m' iota _ ih =>
    have hm' := ih ⟨h.frames, h.functions, h.types⟩
    exact ⟨hm'.frames, hm'.functions, hm'.types⟩
  | @called binds m m' f frame _ _ ih =>
    have hm' := ih ⟨h.frames.grow _, h.functions, h.types⟩
    exact ⟨hm'.frames, hm'.functions, hm'.types⟩
  | resolve => exact ⟨h.frames, h.functions, π.resolved h.types⟩

/-! ### The policy without conditions -/

/-- The policy that allows everything. -/
def any : Policy where
  value _ := True
  body _ := True
  cause _ := True
  types _ := True
  plain _ := trivial
  tuple := ⟨fun _ _ _ => trivial, fun _ => trivial⟩
  func := ⟨fun _ => ⟨fun _ _ => trivial, trivial⟩, fun _ => trivial⟩
  fields _ _ _ := trivial
  receiver _ := trivial
  struct _ _ _ _ _ := trivial
  bound _ _ _ _ _ _ _ := trivial
  resolved _ := trivial
  ordinary _ := trivial
  escaped _ _ _ := trivial

theorem holds_any (m : Machine) : any.Holds m :=
  ⟨fun _ _ _ _ _ _ => trivial, fun _ => ⟨fun _ _ => trivial, trivial⟩, trivial⟩

end Policy

end ScriptEngine
