import ScriptEngine.Proofs.Eval.Causes
import ScriptEngine.Proofs.Eval.Outcome

/-!
The contract of a computation under a policy.

`π.Keeps binds x V X` says that from every machine under the policy `π`, however `x` ends, the
machine has evolved within the policy, `V` holds of the value and `X` of the exit. There is one rule
for each way to put a computation together, and the first are the rules of the elementary
computations.
-/

namespace ScriptEngine

namespace Policy

variable {π : Policy} {ε ε' α β : Type} {binds : Bool} {V : α → Prop} {X : ε → Prop}

/-- From every machine under the policy, `x` evolves the machine within it and ends as `V` and `X`
say. -/
def Keeps (π : Policy) (binds : Bool) (x : Eval ε α) (V : α → Prop) (X : ε → Prop) : Prop :=
  ∀ m, π.Holds m → x.Ends m (fun a m' => Evolves π.value binds m m' ∧ V a)
    fun e m' => Evolves π.value binds m m' ∧ X e

theorem Keeps.mono {x : Eval ε α} (h : π.Keeps binds x V X) {V' : α → Prop} {X' : ε → Prop}
    (hV : ∀ a, V a → V' a) (hX : ∀ e, X e → X' e) : π.Keeps binds x V' X' :=
  fun m hm => (h m hm).mono (fun _ _ ⟨hm', ha⟩ => ⟨hm', hV _ ha⟩)
    fun _ _ ⟨hm', he⟩ => ⟨hm', hX _ he⟩

theorem Keeps.exits {x : Eval ε α} (h : π.Keeps binds x V X) {X' : ε → Prop}
    (hX : ∀ e, X e → X' e) : π.Keeps binds x V X' :=
  h.mono (fun _ ha => ha) hX

/-- A statement within the policy makes no other jumps where more are allowed. -/
theorem Keeps.wider {J J' : Signal → Prop} {x : Eval Exit α} (h : π.Keeps binds x V (π.exit J))
    (hJ : ∀ j, J j → J' j) : π.Keeps binds x V (π.exit J') :=
  h.exits fun _ => exit_mono hJ

/-- However the computation ends, the machine is under the policy. -/
theorem Keeps.holds {x : Eval ε α} (h : π.Keeps binds x V X) {m : Machine} (hm : π.Holds m) :
    x.Ends m (fun a m' => π.Holds m' ∧ V a) fun e m' => π.Holds m' ∧ X e :=
  (h m hm).mono (fun _ _ ⟨hm', ha⟩ => ⟨hm.evolves hm', ha⟩)
    fun _ _ ⟨hm', he⟩ => ⟨hm.evolves hm', he⟩

/-- What may not bind names in the current frame is within what may. -/
theorem Keeps.weaken {x : Eval ε α} (h : π.Keeps false x V X) : π.Keeps binds x V X :=
  fun m hm => (h m hm).mono (fun _ _ ⟨hm', ha⟩ => ⟨hm'.weaken, ha⟩)
    fun _ _ ⟨hm', he⟩ => ⟨hm'.weaken, he⟩

theorem Keeps.lift {x : Eval ε α} (h : π.Keeps binds x V X) : π.Keeps true x V X := by
  cases binds with
  | true => exact h
  | false => exact h.weaken

/-! ### Rules -/

theorem keeps_pure {a : α} (ha : V a) : π.Keeps binds (pure a) V X :=
  fun _ _ => ⟨.refl, ha⟩

theorem keeps_raise {e : ε} (he : X e) : π.Keeps binds (Eval.raise e) V X :=
  fun _ _ => ⟨.refl, he⟩

theorem keeps_exhausted : π.Keeps binds (Eval.exhausted : Eval ε α) V X :=
  fun _ _ => trivial

theorem keeps_fail {c : Cause} (hc : c.isJump = false) :
    π.Keeps binds (Eval.fail c) V π.error :=
  keeps_raise (error_of hc)

theorem keeps_ofExcept {r : Except Cause α} (hV : ∀ a, r = .ok a → V a)
    (hc : ∀ c, r = .error c → c.isLocal = true) :
    π.Keeps binds (Eval.ofExcept r) V π.error := by
  cases r with
  | ok a => exact keeps_pure (hV a rfl)
  | error c => exact keeps_fail (Cause.isJump_of_isLocal (hc c rfl))

/-- The rest of a sequence starts from what the first part kept. -/
theorem Keeps.bind {x : Eval ε β} {U : β → Prop} (hx : π.Keeps binds x U X) {f : β → Eval ε α}
    (hf : ∀ b, U b → π.Keeps binds (f b) V X) : π.Keeps binds (x >>= f) V X := by
  intro m hm
  apply Eval.ends_bind.mpr
  apply (hx m hm).mono
  · intro b m₁ ⟨hm₁, hb⟩
    apply (hf b hb m₁ (hm.evolves hm₁)).mono
    · exact fun a m₂ ⟨hm₂, ha⟩ => ⟨.trans hm₁ hm₂, ha⟩
    · exact fun e m₂ ⟨hm₂, he⟩ => ⟨.trans hm₁ hm₂, he⟩
  · exact fun _ _ h => h

theorem Keeps.handle {x : Eval ε' α} {Y : ε' → Prop} (hx : π.Keeps binds x V Y)
    {h : ε' → Eval ε α} (hh : ∀ e, Y e → π.Keeps binds (h e) V X) :
    π.Keeps binds (x.handle h) V X := by
  intro m hm
  apply Eval.ends_handle.mpr
  apply (hx m hm).mono
  · exact fun _ _ h => h
  · intro e m₁ ⟨hm₁, he⟩
    apply (hh e he m₁ (hm.evolves hm₁)).mono
    · exact fun a m₂ ⟨hm₂, ha⟩ => ⟨.trans hm₁ hm₂, ha⟩
    · exact fun e m₂ ⟨hm₂, he⟩ => ⟨.trans hm₁ hm₂, he⟩

theorem Keeps.mapExit {x : Eval ε' α} {f : ε' → ε} (hx : π.Keeps binds x V fun e => X (f e)) :
    π.Keeps binds (x.mapExit f) V X :=
  hx.handle fun _ he => keeps_raise he

/-- An expression makes no jump. -/
theorem Keeps.asStmt {x : Eval EvalError α} (hx : π.Keeps binds x V π.error) {J : Signal → Prop} :
    π.Keeps binds x.asStmt V (π.exit J) :=
  Keeps.mapExit (X := π.exit J) (f := Exit.failed) hx

theorem Keeps.discard {x : Eval ε α} (hx : π.Keeps binds x V X) :
    π.Keeps binds (discard x) (fun _ => True) X :=
  hx.bind fun _ _ => keeps_pure trivial

/-- In a frame of its own, a computation may bind names. -/
theorem Keeps.inFrame {x : Eval ε α} (hx : π.Keeps true x V X) :
    π.Keeps binds (Eval.inFrame x) V X := by
  intro m hm
  have hopened : π.Holds m.opened := ⟨hm.frames.grow _, hm.functions, hm.types⟩
  change Eval.Ends (x.leaving Machine.closed) m.opened _ _
  apply Eval.ends_leaving.mpr
  apply (hx m.opened hopened).mono
  · exact fun a m' ⟨hm', ha⟩ => ⟨.inFrame hm', ha⟩
  · exact fun e m' ⟨hm', he⟩ => ⟨.inFrame hm', he⟩

theorem Keeps.repeatWhile {round : Eval ε Bool} (h : π.Keeps binds round (fun _ => True) X)
    (budget : Nat) : π.Keeps binds (Eval.repeatWhile round budget) (fun _ => True) X := by
  intro m hm
  have hround : ∀ m₁, Evolves π.value binds m m₁ →
      round.Ends m₁ (fun _ m₂ => Evolves π.value binds m m₂)
        fun e m₂ => Evolves π.value binds m m₂ ∧ X e := by
    intro m₁ hm₁
    apply (h m₁ (hm.evolves hm₁)).mono
    · exact fun _ m₂ ⟨hm₂, _⟩ => .trans hm₁ hm₂
    · exact fun e m₂ ⟨hm₂, he⟩ => ⟨.trans hm₁ hm₂, he⟩
  apply (Eval.ends_repeatWhile hround budget .refl).mono
  · exact fun _ _ hm' => ⟨hm', trivial⟩
  · exact fun _ _ h => h

/-! ### Names -/

theorem keeps_identifier (name : String) :
    π.Keeps binds (Eval.identifier name) π.value π.error := by
  intro m hm
  unfold Eval.Ends Eval.identifier
  cases hi : m.env.identifier m.frames m.iota name with
  | ok v =>
    exact ⟨.refl, Environment.identifier_binds hm.frames (fun _ => π.plain rfl)
      (fun _ => π.plain rfl) hi⟩
  | error c =>
    exact ⟨.refl, error_of (Cause.isJump_of_isLocal (Environment.isLocal_of_identifier hi))⟩

theorem keeps_bindName {name : String} {b : Binding} (hb : π.value b.value) :
    π.Keeps true (Eval.bindName name b) (fun _ => True) π.error := by
  intro m hm
  unfold Eval.Ends Eval.bindName
  cases hd : m.env.define m.frames name b with
  | ok frames => exact ⟨.define hd hb, trivial⟩
  | error e => exact ⟨.refl, error_of (Cause.isJump_of_isLocal (e.isLocal_cause name))⟩

theorem keeps_assignName {name : String} {v : Value} (hv : π.value v) :
    π.Keeps binds (Eval.assignName name v) (fun _ => True) π.error := by
  intro m hm
  unfold Eval.Ends Eval.assignName
  cases ha : m.env.assign m.frames name v with
  | ok frames => exact ⟨.assign ha hv, trivial⟩
  | error e => exact ⟨.refl, error_of (Cause.isJump_of_isLocal (e.isLocal_cause name))⟩

end Policy

end ScriptEngine
