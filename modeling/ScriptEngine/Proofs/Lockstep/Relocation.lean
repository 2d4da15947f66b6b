import ScriptEngine.Proofs.Eval.Policy

/-!
Values whose frames are moved.

A value captures the frames of the functions in it, at any depth (`Value.Captures`). Relocation
replaces each captured frame by another (`Value.relocate`); all else about the value stays, so every
operation on values commutes with it. Only equality looks at the handles of frames, to tell
functions apart: it commutes with relocations that keep the captured frames distinct
(`Value.equal_relocate`).
-/

namespace ScriptEngine

namespace Value

/-! ### Captured frames -/

/-- A function somewhere in the value was made in the frame. -/
inductive Captures : Value → FrameId → Prop where
  | func {f} : Captures (.func f) f.scope
  | tuple {vs v id} : v ∈ vs → Captures v id → Captures (.tuple vs) id
  | field {ty vs v id} : v ∈ vs → Captures v id → Captures (.struct ty vs) id
  | receiver {recv func name id} : Captures recv id → Captures (.method recv func name) id

/-- Every frame that the value captures is one that `K` holds of. -/
def Within (K : FrameId → Prop) (v : Value) : Prop :=
  ∀ id, v.Captures id → K id

section Within

variable {K : FrameId → Prop} {v : Value} {vs : List Value}

@[simp]
theorem within_func {f : Function} : (Value.func f).Within K ↔ K f.scope := by
  constructor
  · exact fun h => h _ .func
  · intro h id hid
    cases hid
    exact h

@[simp]
theorem within_tuple : (Value.tuple vs).Within K ↔ ∀ v ∈ vs, v.Within K := by
  constructor
  · exact fun h v hv id hid => h id (.tuple hv hid)
  · intro h id hid
    cases hid with
    | tuple hv hid => exact h _ hv id hid

@[simp]
theorem within_struct {ty : TypeId} :
    (Value.struct ty vs).Within K ↔ ∀ v ∈ vs, v.Within K := by
  constructor
  · exact fun h v hv id hid => h id (.field hv hid)
  · intro h id hid
    cases hid with
    | field hv hid => exact h _ hv id hid

@[simp]
theorem within_method {recv : Value} {func : FuncId} {name : String} :
    (Value.method recv func name).Within K ↔ recv.Within K := by
  constructor
  · exact fun h id hid => h id (.receiver hid)
  · intro h id hid
    cases hid with
    | receiver hid => exact h id hid

/-- A value without parts and without code captures nothing. -/
theorem within_of_isPlain (h : v.isPlain = true) : v.Within K := by
  intro id hid
  cases hid <;> cases h

theorem within_ofResults (h : ∀ v ∈ vs, v.Within K) : (ofResults vs).Within K := by
  match vs with
  | [] => exact within_of_isPlain rfl
  | [v] => exact h v (List.mem_singleton_self v)
  | v :: w :: rest => exact within_tuple.mpr h

theorem within_results (h : v.Within K) : ∀ w ∈ v.results, w.Within K := by
  cases v with
  | void => simp [results]
  | tuple vs => exact within_tuple.mp h
  | bool | int | float | str | func | struct | method => simpa only [results, List.mem_singleton,
      forall_eq] using h

theorem within_spread (h : v.Within K) : ∀ w ∈ v.spread, w.Within K := by
  cases v with
  | tuple vs => exact within_tuple.mp h
  | void | bool | int | float | str | func | struct | method => simpa only [spread,
      List.mem_singleton, forall_eq] using h

end Within

/-! ### Relocation -/

mutual

/-- The value with every captured frame `id` replaced by `ρ id`. -/
def relocate (ρ : FrameId → FrameId) : Value → Value
  | .void => .void
  | .bool b => .bool b
  | .int n => .int n
  | .float x => .float x
  | .str s => .str s
  | .tuple vs => .tuple (relocateAll ρ vs)
  | .func f => .func { f with scope := ρ f.scope }
  | .struct ty vs => .struct ty (relocateAll ρ vs)
  | .method recv f name => .method (relocate ρ recv) f name

/-- The values with every captured frame `id` replaced by `ρ id`. -/
def relocateAll (ρ : FrameId → FrameId) : List Value → List Value
  | [] => []
  | v :: vs => relocate ρ v :: relocateAll ρ vs

end

section Relocate

variable {ρ : FrameId → FrameId}

@[simp]
theorem relocateAll_eq_map (vs : List Value) : relocateAll ρ vs = vs.map (relocate ρ) := by
  induction vs with
  | nil => rfl
  | cons v vs ih => rw [relocateAll, ih, List.map_cons]

/-- Without captured frames there is nothing to replace. -/
theorem relocate_of_isPlain {v : Value} (h : v.isPlain = true) : v.relocate ρ = v := by
  cases v <;> first | rfl | cases h

mutual

/-- A relocation that keeps every captured frame keeps the value. -/
theorem relocate_eq_self {v : Value} (h : v.Within fun id => ρ id = id) : v.relocate ρ = v := by
  match v with
  | .void | .bool _ | .int _ | .float _ | .str _ => rfl
  | .func f => rw [relocate, within_func.mp h]
  | .tuple vs => rw [relocate, relocateAll_eq_self (within_tuple.mp h)]
  | .struct ty vs => rw [relocate, relocateAll_eq_self (within_struct.mp h)]
  | .method recv f name => rw [relocate, relocate_eq_self (within_method.mp h)]

theorem relocateAll_eq_self {vs : List Value} (h : ∀ v ∈ vs, v.Within fun id => ρ id = id) :
    relocateAll ρ vs = vs := by
  match vs with
  | [] => rfl
  | v :: vs =>
    rw [relocateAll, relocate_eq_self (h v (List.mem_cons_self ..)),
      relocateAll_eq_self fun w hw => h w (List.mem_cons_of_mem _ hw)]

end

@[simp]
theorem kindName_relocate (v : Value) : (v.relocate ρ).kindName = v.kindName := by
  cases v <;> rfl

theorem relocate_ofResults (vs : List Value) :
    (ofResults vs).relocate ρ = ofResults (vs.map (relocate ρ)) := by
  match vs with
  | [] | [v] => rfl
  | v :: w :: rest => simp [ofResults, relocate]

theorem results_relocate (v : Value) : (v.relocate ρ).results = v.results.map (relocate ρ) := by
  cases v <;> simp [relocate, results]

theorem spread_relocate (v : Value) : (v.relocate ρ).spread = v.spread.map (relocate ρ) := by
  cases v <;> simp [relocate, spread]

end Relocate

/-! ### Equality -/

section Equality

variable {ρ : FrameId → FrameId} {K : FrameId → Prop}

mutual

/-- Relocation that keeps the frames of `K` distinct tells the same values apart. -/
theorem equal_relocate (hρ : ∀ a b, K a → K b → ρ a = ρ b → a = b) {v w : Value}
    (hv : v.Within K) (hw : w.Within K) : (v.relocate ρ).equal (w.relocate ρ) = v.equal w := by
  match v with
  | .void | .bool _ | .int _ | .float _ | .str _ => cases w <;> rfl
  | .func f =>
    match w with
    | .func g =>
      have hscope : (ρ f.scope == ρ g.scope) = (f.scope == g.scope) := by
        rw [Bool.eq_iff_iff, beq_iff_eq, beq_iff_eq]
        exact ⟨hρ _ _ (within_func.mp hv) (within_func.mp hw), congrArg ρ⟩
      simp only [relocate, equal, Function.same, hscope]
    | .void | .bool _ | .int _ | .float _ | .str _ | .tuple _ | .struct .. | .method .. => rfl
  | .tuple vs =>
    match w with
    | .tuple ws =>
      simp only [relocate, equal]
      exact equalAll_relocate hρ (within_tuple.mp hv) (within_tuple.mp hw)
    | .void | .bool _ | .int _ | .float _ | .str _ | .func _ | .struct .. | .method .. => rfl
  | .struct ty vs =>
    match w with
    | .struct ty' ws =>
      simp only [relocate, equal]
      rw [equalAll_relocate hρ (within_struct.mp hv) (within_struct.mp hw)]
    | .void | .bool _ | .int _ | .float _ | .str _ | .tuple _ | .func _ | .method .. => rfl
  | .method r f n =>
    match w with
    | .method r' f' n' =>
      simp only [relocate, equal]
      rw [equal_relocate hρ (within_method.mp hv) (within_method.mp hw)]
    | .void | .bool _ | .int _ | .float _ | .str _ | .tuple _ | .func _ | .struct .. => rfl

theorem equalAll_relocate (hρ : ∀ a b, K a → K b → ρ a = ρ b → a = b) {vs ws : List Value}
    (hvs : ∀ v ∈ vs, v.Within K) (hws : ∀ w ∈ ws, w.Within K) :
    equalAll (relocateAll ρ vs) (relocateAll ρ ws) = equalAll vs ws := by
  match vs, ws with
  | [], [] | [], _ :: _ | _ :: _, [] => rfl
  | v :: vs, w :: ws =>
    simp only [relocateAll, equalAll]
    rw [equal_relocate hρ (hvs v (List.mem_cons_self ..)) (hws w (List.mem_cons_self ..)),
      equalAll_relocate hρ (fun v' h => hvs v' (List.mem_cons_of_mem _ h))
        fun w' h => hws w' (List.mem_cons_of_mem _ h)]

end

end Equality

end Value

/-! ### Operators -/

section Operators

variable {ρ : FrameId → FrameId} {K : FrameId → Prop}

@[simp]
theorem Value.isPlain_relocate (v : Value) : (v.relocate ρ).isPlain = v.isPlain := by
  cases v <;> rfl

/-- Operands that are not both plain can only be compared for equality. -/
theorem BinaryOp.apply_of_not_plain {op : BinaryOp} {left right : Value}
    (h : (left.isPlain && right.isPlain) = false) :
    op.apply left right = if left.kindName = right.kindName then op.onOthers left right
      else .error (.binaryTypeMismatch left.kindName right.kindName) := by
  unfold apply
  split
  case h_5 => rfl
  all_goals cases h

theorem BinaryOp.apply_relocate (hρ : ∀ a b, K a → K b → ρ a = ρ b → a = b) {op : BinaryOp}
    {left right : Value} (hleft : left.Within K) (hright : right.Within K) :
    op.apply (left.relocate ρ) (right.relocate ρ) = op.apply left right := by
  cases hplain : left.isPlain && right.isPlain with
  | true =>
    obtain ⟨hl, hr⟩ := Bool.and_eq_true_iff.mp hplain
    rw [Value.relocate_of_isPlain hl, Value.relocate_of_isPlain hr]
  | false =>
    have hothers : op.onOthers (left.relocate ρ) (right.relocate ρ) = op.onOthers left right := by
      cases op <;> simp only [onOthers, Value.equal_relocate hρ hleft hright,
        Value.kindName_relocate]
    rw [apply_of_not_plain hplain, apply_of_not_plain (by simpa using hplain), hothers,
      Value.kindName_relocate, Value.kindName_relocate]

theorem UnaryOp.apply_relocate (op : UnaryOp) (operand : Value) :
    op.apply (operand.relocate ρ) = op.apply operand := by
  cases op <;> cases operand <;> rfl

theorem Value.step_relocate (increment : Bool) (operand : Value) :
    (operand.relocate ρ).step increment = operand.step increment := by
  cases operand <;> rfl

end Operators

/-! ### Fields -/

namespace Evaluator

variable {ρ : FrameId → FrameId}

theorem follow_relocate (name : String) (path : List Nat) (recv : Value) :
    follow name path (recv.relocate ρ) = (follow name path recv).map (Value.relocate ρ) := by
  induction path generalizing recv with
  | nil => rfl
  | cons i path ih =>
    cases recv with
    | struct ty vs =>
      simp only [Value.relocate, Value.relocateAll_eq_map, follow, List.getElem?_map]
      cases vs[i]? with
      | none => rfl
      | some v => exact ih v
    | void | bool | int | float | str | tuple | func | method => rfl

theorem field?_relocate (c : Catalog) (name : String) (recv : Value) :
    field? c name (recv.relocate ρ) = (field? c name recv).map (Value.relocate ρ) := by
  apply field?.induct c name
    (fun recv => field? c name (recv.relocate ρ) = (field? c name recv).map (Value.relocate ρ))
    (fun decls vs => embeddedField? c name decls (vs.map (Value.relocate ρ)) =
      (embeddedField? c name decls vs).map (Value.relocate ρ))
  case case1 =>
    intro ty vs hdecls
    simp [Value.relocate, field?, hdecls]
  case case2 =>
    intro ty vs decls hdecls i hi
    simp [Value.relocate, field?, hdecls, hi]
  case case3 =>
    intro ty vs decls hdecls hnone ih
    simpa [Value.relocate, field?, hdecls, hnone] using ih
  case case4 =>
    intro v hv
    cases v with
    | struct ty vs => exact absurd rfl (hv ty vs)
    | void | bool | int | float | str | tuple | func | method => simp [Value.relocate, field?]
  case case5 =>
    intro d decls w vs found hfound ih
    simp only [List.map_cons, embeddedField?, hfound]
    split at hfound
    · next hembedded => rw [if_pos hembedded, ih, hfound, Option.map_some]
    · cases hfound
  case case6 =>
    intro d decls w vs hnone ih ih'
    simp only [List.map_cons, embeddedField?, hnone]
    split at hnone
    · next hembedded => rw [if_pos hembedded, ih, hnone, Option.map_none, ih']
    · next hembedded => rw [if_neg hembedded, ih']
  case case7 =>
    intro vs decls hne
    cases decls with
    | nil => simp [embeddedField?]
    | cons d decls =>
      cases vs with
      | nil => simp [embeddedField?]
      | cons v vs => exact absurd rfl (hne d decls v vs rfl)

end Evaluator

/-! ### Bindings and frames -/

/-- The binding with its value relocated. -/
def Binding.relocate (ρ : FrameId → FrameId) (b : Binding) : Binding :=
  { b with value := b.value.relocate ρ }

namespace Frame

/-- The frame with its parent and the values it binds relocated. -/
def relocate (ρ : FrameId → FrameId) (f : Frame) : Frame where
  bindings := f.bindings.mapValues (Binding.relocate ρ)
  parent := f.parent.map ρ

/-- The frame leads to another: it is below that frame, or it binds a value that captures it. -/
inductive LeadsTo (f : Frame) : FrameId → Prop where
  | parent {id} : f.parent = some id → LeadsTo f id
  | captured {e id} : e ∈ f.bindings.entries → e.2.value.Captures id → LeadsTo f id

/-- Every frame that the frame leads to is one that `K` holds of. -/
def Within (K : FrameId → Prop) (f : Frame) : Prop :=
  ∀ id, f.LeadsTo id → K id

variable {K : FrameId → Prop} {ρ : FrameId → FrameId} {f : Frame}

theorem Within.binding (h : f.Within K) {name : String} {b : Binding}
    (hb : f.bindings.find? name = some b) : b.value.Within K :=
  fun id hid => h id (.captured (Assoc.mem_entries_of_find? hb) hid)

theorem Within.set (h : f.Within K) {name : String} {b : Binding} (hb : b.value.Within K) :
    Within K { f with bindings := f.bindings.set name b } := by
  intro id hid
  cases hid with
  | parent hp => exact h id (.parent hp)
  | captured he hid =>
    rcases Assoc.mem_entries_set he with heq | hold
    · rw [heq] at hid
      exact hb id hid
    · exact h id (.captured hold hid)

/-- A relocation that keeps all that a frame leads to keeps the frame. -/
theorem relocate_eq_self (h : f.Within fun id => ρ id = id) : f.relocate ρ = f := by
  obtain ⟨⟨entries⟩, parent⟩ := f
  have hentry : ∀ e ∈ entries, (e.1, e.2.relocate ρ) = e := by
    intro e he
    have hvalue : e.2.value.relocate ρ = e.2.value :=
      Value.relocate_eq_self fun id hid => h id (.captured he hid)
    rw [Binding.relocate, hvalue]
  have hentries : entries.map (fun e => (e.1, e.2.relocate ρ)) = entries :=
    (List.map_congr_left hentry).trans (List.map_id' entries)
  have hparent : parent.map ρ = parent := by
    cases parent with
    | none => rfl
    | some p => exact congrArg some (h p (.parent rfl))
  simp only [relocate, Assoc.mapValues, hentries, hparent]

theorem find?_relocate (name : String) :
    (f.relocate ρ).bindings.find? name = (f.bindings.find? name).map (Binding.relocate ρ) :=
  Assoc.find?_mapValues f.bindings (Binding.relocate ρ) name

theorem relocate_set (name : String) (b : Binding) :
    relocate ρ { f with bindings := f.bindings.set name b } =
      { f.relocate ρ with bindings := (f.relocate ρ).bindings.set name (b.relocate ρ) } := by
  simp only [relocate, Assoc.mapValues_set]

end Frame

end ScriptEngine
