import ScriptEngine.Eval.Machine

/-!
How computations over a machine end.

`Ends x m V X` asks `V` of the value that `x` ends with from `m` and of the machine it leaves, and
`X` of its exit and of the machine it leaves. A computation that runs out of its budget is asked
nothing. There is one equation for each way to put a computation together.
-/

namespace ScriptEngine.Eval

variable {ε ε' α β : Type} {m : Machine} {V : α → Machine → Prop} {X : ε → Machine → Prop}

/-- `V` holds where `x` ends with a value from `m`, and `X` where it ends with an exit. -/
def Ends (x : Eval ε α) (m : Machine) (V : α → Machine → Prop) (X : ε → Machine → Prop) : Prop :=
  match x m with
  | .value a m' => V a m'
  | .exit e m' => X e m'
  | .exhausted => True

theorem Ends.of_exit {x : Eval ε α} (h : x.Ends m V X) {e : ε} {m' : Machine}
    (hx : x m = .exit e m') : X e m' := by
  rw [Ends, hx] at h
  exact h

/-- A weaker question has the same answer. -/
theorem Ends.mono {x : Eval ε α} {V' : α → Machine → Prop} {X' : ε → Machine → Prop}
    (h : x.Ends m V X) (hV : ∀ a m', V a m' → V' a m') (hX : ∀ e m', X e m' → X' e m') :
    x.Ends m V' X' := by
  unfold Ends at h ⊢
  split at h
  · exact hV _ _ h
  · exact hX _ _ h
  · trivial

/-- A sequence has a value if both parts have. -/
theorem bind_eq_value {x : Eval ε α} {f : α → Eval ε β} {b : β} {m₂ : Machine} :
    (x >>= f) m = .value b m₂ ↔ ∃ a m₁, x m = .value a m₁ ∧ f a m₁ = .value b m₂ := by
  change x.bind f m = _ ↔ _
  rw [Eval.bind]
  cases x m with
  | value a m₁ =>
    constructor
    · exact fun h => ⟨a, m₁, rfl, h⟩
    · rintro ⟨_, _, heq, h⟩
      cases heq
      exact h
  | exit | exhausted => simp

/-- After a value, a sequence runs as its second part. -/
theorem bind_of_value {x : Eval ε α} {f : α → Eval ε β} {a : α} {m₁ : Machine}
    (h : x m = .value a m₁) : (x >>= f) m = f a m₁ := by
  change x.bind f m = _
  rw [Eval.bind, h]

/-- An exit of its first part ends a sequence. -/
theorem bind_of_exit {x : Eval ε α} {f : α → Eval ε β} {e : ε} {m₁ : Machine}
    (h : x m = .exit e m₁) : (x >>= f) m = .exit e m₁ := by
  change x.bind f m = _
  rw [Eval.bind, h]

/-! ### Equations -/

@[simp]
theorem ends_pure {a : α} : Ends (pure a) m V X ↔ V a m := Iff.rfl

@[simp]
theorem ends_asks {f : Machine → α} : Ends (asks f) m V X ↔ V (f m) m := Iff.rfl

@[simp]
theorem ends_update {V : Unit → Machine → Prop} {f : Machine → Machine} :
    Ends (update f) m V X ↔ V () (f m) := Iff.rfl

/-- A sequence ends where its first part exits or where the rest ends. -/
theorem ends_bind {x : Eval ε α} {f : α → Eval ε β} {V : β → Machine → Prop} :
    Ends (x >>= f) m V X ↔ x.Ends m (fun a m' => (f a).Ends m' V X) X := by
  change Ends (x.bind f) m V X ↔ _
  unfold Ends Eval.bind
  cases x m <;> rfl

@[simp]
theorem ends_discard {x : Eval ε α} {V : Unit → Machine → Prop} :
    Ends (discard x) m V X ↔ x.Ends m (fun _ => V ()) X :=
  ends_bind

theorem ends_handle {x : Eval ε' α} {h : ε' → Eval ε α} :
    Ends (x.handle h) m V X ↔ x.Ends m V fun e m' => (h e).Ends m' V X := by
  unfold Ends handle
  cases x m <;> rfl

@[simp]
theorem ends_asStmt {x : Eval EvalError α} {X : Exit → Machine → Prop} :
    Ends x.asStmt m V X ↔ x.Ends m V fun e m' => X (.failed e) m' :=
  ends_handle

@[simp]
theorem ends_leaving {x : Eval ε α} {f : Machine → Machine} :
    Ends (x.leaving f) m V X ↔ x.Ends m (fun a m' => V a (f m')) fun e m' => X e (f m') := by
  unfold Ends leaving
  cases x m <;> rfl

/-- An operation on the universe ends where it answers. -/
theorem ends_onTypes_iff {f : UniverseM α} {X : EvalError → Machine → Prop} :
    Ends (onTypes f) m V X ↔
      (∀ a types, f.run.run m.types = (.ok a, types) → V a { m with types }) ∧
      ∀ e types, f.run.run m.types = (.error e, types) → e ≠ .endless →
        X (.of (.typeSystem e)) { m with types } := by
  unfold Ends onTypes
  rcases f.run.run m.types with ⟨e | a, types⟩
  · by_cases hendless : e = .endless
    · simp only [hendless, reduceIte, true_iff]
      refine ⟨fun _ _ heq => (by cases heq), fun e' _ heq hne => ?_⟩
      cases heq
      exact absurd rfl hne
    · simp only [hendless, reduceIte]
      refine ⟨fun h => ⟨fun _ _ heq => (by cases heq), fun _ _ heq _ => ?_⟩,
        fun h => h.2 e types rfl hendless⟩
      cases heq
      exact h
  · refine ⟨fun h => ⟨fun _ _ heq => ?_, fun _ _ heq => (by cases heq)⟩, fun h => h.1 a types rfl⟩
    cases heq
    exact h

/-- An operation on the universe changes nothing else. -/
theorem ends_onTypes {f : UniverseM α} {X : EvalError → Machine → Prop}
    (hV : ∀ a types, V a { m with types })
    (hX : ∀ e types, X (.of (.typeSystem e)) { m with types }) : Ends (onTypes f) m V X :=
  ends_onTypes_iff.mpr ⟨fun a types _ => hV a types, fun e types _ _ => hX e types⟩

/-- A loop ends in what every round keeps. -/
theorem ends_repeatWhile {round : Eval ε Bool} {I : Machine → Prop}
    (hround : ∀ m, I m → round.Ends m (fun _ => I) X) (budget : Nat) (hm : I m) :
    Ends (repeatWhile round budget) m (fun _ => I) X := by
  induction budget generalizing m with
  | zero => trivial
  | succ budget ih =>
    have h := hround m hm
    unfold Ends at h ⊢
    rw [repeatWhile]
    cases hr : round m with
    | exhausted => trivial
    | exit e m' =>
      rw [hr] at h
      exact h
    | value again m' =>
      rw [hr] at h
      cases again with
      | false => exact h
      | true => exact ih h

end ScriptEngine.Eval
