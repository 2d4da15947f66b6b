import Mathlib
import ScriptEngine.Operator

/-!
Equality of values.

Floats compare as numbers, by a relation that is symmetric and transitive and that only a NaN does
not have to itself; the rest of values is compared part by part. `equal_iff_alike` says what a
single comparison looks at, and by induction on values all of equality is like that of floats: it is
symmetric and transitive (`equal_symm`, `equal_trans`), and a value equals itself unless a NaN
occurs in it (`equal_self_iff`).

To compare structs field by field first, and only what is no struct as a whole, comes to the same
(`equalByFields_eq`). The operators `==` and `!=` answer by equality on values of one kind, and fail
on others, which are never equal (`BinaryOp.apply_of_kindName_eq`, `BinaryOp.apply_of_kindName_ne`).
-/

namespace ScriptEngine

theorem Function.same_iff {f g : Function} :
    f.same g = true ↔ f.body.span = g.body.span ∧ f.scope = g.scope := by
  simp [Function.same]

namespace Value

/-! ### One comparison -/

/-- Values of one kind that agree in what they are made of; the parts of both are equal. -/
inductive Alike : Value → Value → Prop where
  | void : Alike .void .void
  | bool {b} : Alike (.bool b) (.bool b)
  | int {n} : Alike (.int n) (.int n)
  | float {x y} : (x == y) = true → Alike (.float x) (.float y)
  | str {s} : Alike (.str s) (.str s)
  | tuple {vs ws} : equalAll vs ws = true → Alike (.tuple vs) (.tuple ws)
  | func {f g} : f.same g = true → Alike (.func f) (.func g)
  | struct {ty vs ws} : equalAll vs ws = true → Alike (.struct ty vs) (.struct ty ws)
  | method {r r' f n} : r.equal r' = true → Alike (.method r f n) (.method r' f n)

theorem equal_iff_alike {v w : Value} : v.equal w = true ↔ Alike v w := by
  constructor
  · intro h
    match v, w, h with
    | .void, .void, _ => exact .void
    | .bool a, .bool b, h =>
      obtain rfl : a = b := eq_of_beq h
      exact .bool
    | .int a, .int b, h =>
      obtain rfl : a = b := eq_of_beq h
      exact .int
    | .float x, .float y, h => exact .float h
    | .str a, .str b, h =>
      obtain rfl : a = b := eq_of_beq h
      exact .str
    | .tuple vs, .tuple ws, h => exact .tuple h
    | .func f, .func g, h => exact .func h
    | .struct ty vs, .struct ty' ws, h =>
      obtain ⟨hty, hparts⟩ := Bool.and_eq_true_iff.mp h
      obtain rfl : ty = ty' := eq_of_beq hty
      exact .struct hparts
    | .method r f n, .method r' f' n', h =>
      simp only [equal, Bool.and_eq_true, beq_iff_eq] at h
      obtain ⟨⟨hrecv, rfl⟩, rfl⟩ := h
      exact .method hrecv
  · intro h
    cases h with
    | void => rfl
    | bool | int | str => exact beq_self_eq_true _
    | float h | tuple h | func h => exact h
    | struct h | method h => simp [equal, h]

/-- Values that are equal are of one kind. -/
theorem kindName_eq_of_equal {v w : Value} (h : v.equal w = true) : v.kindName = w.kindName := by
  cases equal_iff_alike.mp h <;> rfl

/-! ### A partial equivalence -/

mutual

/-- Equality is symmetric. The induction is on the value, with its list of parts beside it. -/
theorem equal_symm {v w : Value} (h : v.equal w = true) : w.equal v = true := by
  apply equal_iff_alike.mpr
  match v, w, equal_iff_alike.mp h with
  | _, _, .void => exact .void
  | _, _, .bool => exact .bool
  | _, _, .int => exact .int
  | _, _, .float h => exact .float (BEq.symm h)
  | _, _, .str => exact .str
  | .tuple vs, .tuple ws, .tuple h => exact .tuple (equalAll_symm h)
  | _, _, .func h => exact .func (Function.same_iff.mpr ((Function.same_iff.mp h).imp .symm .symm))
  | .struct ty vs, _, .struct h => exact .struct (equalAll_symm h)
  | .method r f n, _, .method h => exact .method (equal_symm h)

theorem equalAll_symm {vs ws : List Value} (h : equalAll vs ws = true) :
    equalAll ws vs = true := by
  match vs, ws with
  | [], [] => rfl
  | v :: vs, w :: ws =>
    obtain ⟨hhead, htail⟩ := Bool.and_eq_true_iff.mp h
    exact Bool.and_eq_true_iff.mpr ⟨equal_symm hhead, equalAll_symm htail⟩

end

mutual

/-- Equality is transitive, by the same induction: a comparison with a value of another kind is
never true, so all three values are of one form. -/
theorem equal_trans {v w u : Value} (h : v.equal w = true) (h' : w.equal u = true) :
    v.equal u = true := by
  apply equal_iff_alike.mpr
  match v, w, u, equal_iff_alike.mp h, equal_iff_alike.mp h' with
  | _, _, _, .void, .void => exact .void
  | _, _, _, .bool, .bool => exact .bool
  | _, _, _, .int, .int => exact .int
  | _, _, _, .float h, .float h' => exact .float (PartialEquivBEq.trans h h')
  | _, _, _, .str, .str => exact .str
  | .tuple vs, _, _, .tuple h, .tuple h' => exact .tuple (equalAll_trans h h')
  | _, _, _, .func h, .func h' =>
    obtain ⟨hbody, hscope⟩ := Function.same_iff.mp h
    obtain ⟨hbody', hscope'⟩ := Function.same_iff.mp h'
    exact .func (Function.same_iff.mpr ⟨hbody.trans hbody', hscope.trans hscope'⟩)
  | .struct ty vs, _, _, .struct h, .struct h' => exact .struct (equalAll_trans h h')
  | .method r f n, _, _, .method h, .method h' => exact .method (equal_trans h h')

theorem equalAll_trans {vs ws us : List Value} (h : equalAll vs ws = true)
    (h' : equalAll ws us = true) : equalAll vs us = true := by
  match vs, ws, us with
  | [], [], [] => rfl
  | v :: vs, w :: ws, u :: us =>
    obtain ⟨hhead, htail⟩ := Bool.and_eq_true_iff.mp h
    obtain ⟨hhead', htail'⟩ := Bool.and_eq_true_iff.mp h'
    exact Bool.and_eq_true_iff.mpr ⟨equal_trans hhead hhead', equalAll_trans htail htail'⟩

end

/-! ### Values that differ from themselves -/

/-- A NaN occurs in the value, through results, fields and receivers. -/
inductive HoldsNaN : Value → Prop where
  | float {x} : x.isNaN = true → HoldsNaN (.float x)
  | tuple {vs v} : v ∈ vs → HoldsNaN v → HoldsNaN (.tuple vs)
  | field {ty vs v} : v ∈ vs → HoldsNaN v → HoldsNaN (.struct ty vs)
  | receiver {recv func name} : HoldsNaN recv → HoldsNaN (.method recv func name)

section HoldsNaN

variable {vs : List Value}

@[simp]
theorem holdsNaN_float_iff {x : Float} : (Value.float x).HoldsNaN ↔ x.isNaN = true := by
  constructor
  · rintro (⟨hx⟩)
    exact hx
  · exact .float

@[simp]
theorem holdsNaN_tuple_iff : (Value.tuple vs).HoldsNaN ↔ ∃ v ∈ vs, v.HoldsNaN := by
  constructor
  · intro h
    cases h with
    | tuple hv h => exact ⟨_, hv, h⟩
  · rintro ⟨v, hv, h⟩
    exact .tuple hv h

@[simp]
theorem holdsNaN_struct_iff {ty : TypeId} :
    (Value.struct ty vs).HoldsNaN ↔ ∃ v ∈ vs, v.HoldsNaN := by
  constructor
  · intro h
    cases h with
    | field hv h => exact ⟨_, hv, h⟩
  · rintro ⟨v, hv, h⟩
    exact .field hv h

@[simp]
theorem holdsNaN_method_iff {recv : Value} {func : FuncId} {name : String} :
    (Value.method recv func name).HoldsNaN ↔ recv.HoldsNaN := by
  constructor
  · intro h
    cases h with
    | receiver h => exact h
  · exact .receiver

end HoldsNaN

mutual

/-- A value equals itself unless a NaN occurs in it. -/
theorem equal_self_iff (v : Value) : v.equal v = true ↔ ¬ v.HoldsNaN := by
  match v with
  | .void | .bool _ | .int _ | .str _ | .func _ =>
    refine ⟨fun _ => nofun, fun _ => ?_⟩
    simp [equal, Function.same]
  | .float x => simp [equal, Float.beq_self_iff]
  | .tuple vs => simp [equal, equalAll_self_iff]
  | .struct ty vs => simp [equal, equalAll_self_iff]
  | .method r f n => simp [equal, equal_self_iff r]

theorem equalAll_self_iff (vs : List Value) :
    equalAll vs vs = true ↔ ∀ v ∈ vs, ¬ v.HoldsNaN := by
  match vs with
  | [] => simp [equalAll]
  | v :: vs =>
    rw [equalAll, Bool.and_eq_true_iff, equal_self_iff, equalAll_self_iff, List.forall_mem_cons]

end

/-! ### Structs field by field -/

mutual

/-- The equality that takes structs apart field by field, structs in structs included, and compares
only what is no struct as a whole. -/
def equalByFields : Value → Value → Bool
  | .struct ty vs, .struct ty' ws =>
    ty == ty' && vs.length == ws.length && equalPairs vs ws
  | v, w => v.equal w

/-- The values at each position that both lists have are equal. -/
def equalPairs : List Value → List Value → Bool
  | v :: vs, w :: ws => equalByFields v w && equalPairs vs ws
  | _, _ => true

end

mutual

/-- It makes no difference whether structs are taken apart first. -/
theorem equalByFields_eq (v w : Value) : v.equalByFields w = v.equal w := by
  match v with
  | .struct ty vs =>
    match w with
    | .struct ty' ws =>
      rw [equalByFields, equal, Bool.and_assoc, length_and_equalPairs_eq]
    | .void | .bool _ | .int _ | .float _ | .str _ | .tuple _ | .func _ | .method .. => rfl
  | .void | .bool _ | .int _ | .float _ | .str _ | .tuple _ | .func _ | .method .. => rfl

/-- Once their lengths agree, lists are equal if they are at each position. -/
theorem length_and_equalPairs_eq (vs ws : List Value) :
    (vs.length == ws.length && equalPairs vs ws) = equalAll vs ws := by
  match vs, ws with
  | [], [] | [], _ :: _ | _ :: _, [] => rfl
  | v :: vs, w :: ws =>
    have hlength : ((v :: vs).length == (w :: ws).length) = (vs.length == ws.length) := by simp
    rw [hlength, equalPairs, equalAll, equalByFields_eq, Bool.and_left_comm,
      length_and_equalPairs_eq]

end

end Value

/-! ### Operators -/

namespace BinaryOp

variable {v w : Value}

/-- No operator applies to values of different kinds. -/
theorem apply_of_kindName_ne (op : BinaryOp) (h : v.kindName ≠ w.kindName) :
    op.apply v w = .error (.binaryTypeMismatch v.kindName w.kindName) := by
  unfold apply
  split
  case h_5 => exact if_neg h
  all_goals exact absurd rfl h

/-- On values of one kind, `==` answers whether they are equal, and `!=` whether they are not. -/
theorem apply_of_kindName_eq (h : v.kindName = w.kindName) :
    BinaryOp.eq.apply v w = .ok (.bool (v.equal w)) ∧
      BinaryOp.notEq.apply v w = .ok (.bool (!v.equal w)) := by
  unfold apply
  split
  case h_5 =>
    rw [if_pos h, if_pos h]
    exact ⟨rfl, rfl⟩
  all_goals exact ⟨rfl, rfl⟩

/-- `v == w` is true exactly if the values are equal, whatever their kinds. -/
theorem eq_apply_eq_true_iff : BinaryOp.eq.apply v w = .ok (.bool true) ↔ v.equal w = true := by
  by_cases h : v.kindName = w.kindName
  · rw [(apply_of_kindName_eq h).1]
    simp
  · rw [apply_of_kindName_ne _ h]
    exact ⟨nofun, fun heq => absurd (Value.kindName_eq_of_equal heq) h⟩

end BinaryOp

end ScriptEngine
