import Mathlib.Data.List.Forall2

/-!
Computations that may fail and keep what they did before they failed: operations on universes and on
representations.

`Ends x s V X` asks `V` of the answer of `x` from state `s` and the state it leaves, and `X` of its
error and the state it leaves. There is one equation for each way to put a computation together, so
a question about a composite becomes questions about its parts. An `Effect` bounds what computations
do to the state; sequences and traversals stay within the bounds of their parts.
-/

namespace ScriptEngine

section Fallible

variable {ε σ α β : Type}

/-- `V` holds where `x` answers from `s`, and `X` where it fails. -/
def Ends (x : ExceptT ε (StateM σ) α) (s : σ) (V : α → σ → Prop) (X : ε → σ → Prop) : Prop :=
  match x.run.run s with
  | (.ok a, s') => V a s'
  | (.error e, s') => X e s'

variable {s : σ} {V : α → σ → Prop} {X : ε → σ → Prop}

theorem ends_of_ok {x : ExceptT ε (StateM σ) α} {a : α} {s' : σ} (h : x.run.run s = (.ok a, s')) :
    Ends x s V X ↔ V a s' := by
  rw [Ends, h]

theorem ends_of_error {x : ExceptT ε (StateM σ) α} {e : ε} {s' : σ}
    (h : x.run.run s = (.error e, s')) : Ends x s V X ↔ X e s' := by
  rw [Ends, h]

/-- What holds where `x` ends holds of the answer it gave. -/
theorem Ends.ok {x : ExceptT ε (StateM σ) α} (h : Ends x s V X) {a : α} {s' : σ}
    (hx : x.run.run s = (.ok a, s')) : V a s' :=
  (ends_of_ok hx).mp h

/-- What holds of the state however a computation ends. -/
theorem Ends.state {x : ExceptT ε (StateM σ) α} {P : σ → Prop}
    (h : Ends x s (fun _ => P) fun _ => P) : P (x.run.run s).2 := by
  unfold Ends at h
  rcases hx : x.run.run s with ⟨_ | _, _⟩ <;> rw [hx] at h <;> exact h

theorem ends_self (x : ExceptT ε (StateM σ) α) (s : σ) :
    Ends x s (fun a s' => x.run.run s = (.ok a, s')) fun e s' => x.run.run s = (.error e, s') := by
  unfold Ends
  rcases x.run.run s with ⟨_ | _, _⟩ <;> rfl

/-- What cannot fail answers. -/
theorem Ends.exists_ok {x : ExceptT ε (StateM σ) α} (h : Ends x s V fun _ _ => False) :
    ∃ a s', x.run.run s = (.ok a, s') ∧ V a s' := by
  unfold Ends at h
  rcases hx : x.run.run s with ⟨e | a, s'⟩
  · rw [hx] at h
    exact h.elim
  · rw [hx] at h
    exact ⟨a, s', rfl, h⟩

/-- What cannot answer fails. -/
theorem Ends.exists_error {x : ExceptT ε (StateM σ) α} (h : Ends x s (fun _ _ => False) X) :
    ∃ e s', x.run.run s = (.error e, s') ∧ X e s' := by
  unfold Ends at h
  rcases hx : x.run.run s with ⟨e | a, s'⟩
  · rw [hx] at h
    exact ⟨e, s', rfl, h⟩
  · rw [hx] at h
    exact h.elim

/-- How `x` runs, if it is known how it ends. -/
theorem Ends.run_eq {x : ExceptT ε (StateM σ) α} {left : Except ε α × σ}
    (h : Ends x s (fun a s' => left = (.ok a, s')) fun e s' => left = (.error e, s')) :
    x.run.run s = left := by
  unfold Ends at h
  rcases hx : x.run.run s with ⟨_ | _, _⟩ <;> rw [hx] at h <;> exact h.symm

/-- A weaker question has the same answer. -/
theorem Ends.mono {x : ExceptT ε (StateM σ) α} {V' : α → σ → Prop} {X' : ε → σ → Prop}
    (h : Ends x s V X) (hV : ∀ a s', V a s' → V' a s') (hX : ∀ e s', X e s' → X' e s') :
    Ends x s V' X' := by
  unfold Ends at h ⊢
  split at h
  · exact hV _ _ h
  · exact hX _ _ h

@[simp]
theorem ends_pure (a : α) : Ends (pure a : ExceptT ε (StateM σ) α) s V X ↔ V a s := Iff.rfl

@[simp]
theorem ends_throw (e : ε) : Ends (throw e : ExceptT ε (StateM σ) α) s V X ↔ X e s := Iff.rfl

/-- A sequence ends where its first part fails or where the rest ends. -/
theorem ends_bind {x : ExceptT ε (StateM σ) β} {f : β → ExceptT ε (StateM σ) α} :
    Ends (x >>= f) s V X ↔ Ends x s (fun b s' => Ends (f b) s' V X) X := by
  have hrun : (x >>= f).run.run s = match x.run.run s with
      | (.ok b, s') => (f b).run.run s'
      | (.error e, s') => (.error e, s') := by
    rw [ExceptT.run_bind, StateT.run_bind]
    rcases hx : x.run.run s with ⟨_ | _, _⟩ <;> rfl
  unfold Ends
  rw [hrun]
  rcases x.run.run s with ⟨_ | _, _⟩ <;> rfl

@[simp]
theorem ends_map {x : ExceptT ε (StateM σ) β} {f : β → α} :
    Ends (f <$> x) s V X ↔ Ends x s (fun b s' => V (f b) s') X := by
  rw [← bind_pure_comp, ends_bind]
  rfl

@[simp]
theorem ends_get {V : σ → σ → Prop} : Ends (get : ExceptT ε (StateM σ) σ) s V X ↔ V s s := Iff.rfl

@[simp]
theorem ends_set {V : PUnit → σ → Prop} (s' : σ) :
    Ends (set s' : ExceptT ε (StateM σ) PUnit) s V X ↔ V ⟨⟩ s' := Iff.rfl

@[simp]
theorem ends_modifyGet (f : σ → α × σ) :
    Ends (modifyGet f : ExceptT ε (StateM σ) α) s V X ↔ V (f s).1 (f s).2 := Iff.rfl

@[simp]
theorem ends_modify {V : PUnit → σ → Prop} (f : σ → σ) :
    Ends (modify f : ExceptT ε (StateM σ) PUnit) s V X ↔ V ⟨⟩ (f s) := Iff.rfl

end Fallible

/-! ### Effects -/

/-- A bound on what computations do to states in which `inv` holds: `ok` relates the states before
and after an answer, `fail` those before and after an error. A sequence of bounded computations is
bounded. -/
structure Effect (ε σ : Type) where
  inv : σ → Prop
  ok : σ → σ → Prop
  fail : ε → σ → σ → Prop
  refl : ∀ {s}, inv s → ok s s
  keep : ∀ {s s'}, ok s s' → inv s → inv s'
  trans : ∀ {s₁ s₂ s₃}, ok s₁ s₂ → ok s₂ s₃ → ok s₁ s₃
  trans_fail : ∀ {e s₁ s₂ s₃}, ok s₁ s₂ → fail e s₂ s₃ → fail e s₁ s₃

namespace Effect

variable {ε σ α β : Type} {F : Effect ε σ} {s : σ} {Q : α → σ → Prop}

/-- What `x` leaves from `s` is within the effect, and `Q` holds of what it answers. -/
def Gives (F : Effect ε σ) (s : σ) (x : ExceptT ε (StateM σ) α) (Q : α → σ → Prop) : Prop :=
  Ends x s (fun a s' => F.ok s s' ∧ Q a s') (fun e s' => F.fail e s s')

theorem Gives.mono {x : ExceptT ε (StateM σ) α} (hx : F.Gives s x Q) {Q' : α → σ → Prop}
    (hQ : ∀ a s', F.ok s s' → Q a s' → Q' a s') : F.Gives s x Q' :=
  Ends.mono hx (fun a s' ⟨hs', ha⟩ => ⟨hs', hQ a s' hs' ha⟩) fun _ _ h => h

theorem Gives.bind {x : ExceptT ε (StateM σ) α} (hx : F.Gives s x Q)
    {f : α → ExceptT ε (StateM σ) β} {Q' : β → σ → Prop}
    (hf : ∀ a s', F.ok s s' → Q a s' → F.Gives s' (f a) Q') : F.Gives s (x >>= f) Q' := by
  refine ends_bind.mpr (Ends.mono hx (fun a s' ⟨hs', ha⟩ => ?_) fun _ _ h => h)
  exact Ends.mono (hf a s' hs' ha) (fun b s'' ⟨hs'', hb⟩ => ⟨F.trans hs' hs'', hb⟩)
    fun _ _ h => F.trans_fail hs' h

theorem gives_pure (h : F.inv s) {a : α} (hQ : Q a s) : F.Gives s (pure a) Q :=
  ⟨F.refl h, hQ⟩

theorem gives_throw {e : ε} (h : F.fail e s s) : F.Gives s (throw e) Q :=
  h

/-- Along a list, later steps keep what the earlier ones gave. -/
theorem gives_mapM {f : α → ExceptT ε (StateM σ) β} {R : α → β → σ → Prop} {l : List α}
    (h : F.inv s) (hf : ∀ a ∈ l, ∀ s', F.inv s' → F.Gives s' (f a) (R a))
    (hR : ∀ a b s₁ s₂, R a b s₁ → F.inv s₁ → F.ok s₁ s₂ → R a b s₂) :
    F.Gives s (l.mapM f) fun bs s' => List.Forall₂ (fun a b => R a b s') l bs := by
  induction l generalizing s with
  | nil =>
    rw [List.mapM_nil]
    exact gives_pure h .nil
  | cons a rest ih =>
    rw [List.mapM_cons]
    refine (hf a (List.mem_cons_self ..) s h).bind fun b s₁ hs₁ hab => ?_
    have hinv := F.keep hs₁ h
    refine (ih hinv fun a' ha' => hf a' (List.mem_cons_of_mem _ ha')).bind fun bs s₂ hs₂ hbs => ?_
    exact gives_pure (F.keep hs₂ hinv) (.cons (hR a b s₁ s₂ hab hinv hs₂) hbs)

/-! ### Bounds -/

/-- What `x` leaves is within the effect. -/
def Bounds (F : Effect ε σ) (x : ExceptT ε (StateM σ) α) : Prop :=
  ∀ s, F.inv s → F.Gives s x fun _ _ => True

theorem Bounds.bind {x : ExceptT ε (StateM σ) β} {f : β → ExceptT ε (StateM σ) α}
    (hx : F.Bounds x) (hf : ∀ b, F.Bounds (f b)) : F.Bounds (x >>= f) :=
  fun s h => (hx s h).bind fun b s' hs' _ => hf b s' (F.keep hs' h)

theorem Gives.bounds {x : ExceptT ε (StateM σ) α} (hx : ∀ s, F.inv s → F.Gives s x Q) :
    F.Bounds x :=
  fun s h => (hx s h).mono fun _ _ _ _ => trivial

theorem bounds_pure (a : α) : F.Bounds (pure a : ExceptT ε (StateM σ) α) :=
  fun _ h => gives_pure h trivial

/-- Reading the state and going on from it. -/
theorem gives_get_bind {f : σ → ExceptT ε (StateM σ) α} (h : F.Gives s (f s) Q) :
    F.Gives s (get >>= f) Q :=
  ends_bind.mpr h

end Effect

end ScriptEngine
