import Mathlib.Data.Set.Insert
import ScriptEngine.Proofs.Types.Layers
import ScriptEngine.Proofs.Universe.Resolution

/-!
Histories of a universe. Every operation in a sound universe is a sequence of steps with the acts
that it may take (`perform_steps`), so what each step keeps, every reachable universe has
(`ReachableBy.sound`, `Unbroken.finished`).
-/

namespace ScriptEngine

/-- What an operation may do to a universe. -/
def Operation.acts : Operation → Set Universe.Act
  | basic _ | pointerTo _ | sliceOf _ | funcOf _ | structOf _ | interfaceOf .. | declareNamed ..
  | setUnderlying .. | addMethod .. => {.declare}
  | reprOf _ | funcReprOf _ => Universe.Act.building
  | pointerToRepr _ => {.intern}
  | allocFunc => {.allocate}
  | bindCallable .. => {.bind}
  | bindMethod .. => {.build, .breakOff, .bind}
  | registerNative _ | registerNativeWith .. => {.build, .breakOff, .native}
  | descriptor ty => {.build, .breakOff, .describe ty}
  | resolve ty index | method ty index => Universe.Act.resolving ty index

namespace Universe

variable {A : Set Act}

/-! ### What no step takes back -/

theorem Step.grows {u u' : Universe} {a : Act} (s : Step u a u') :
    Catalog.Grows u.catalog u'.catalog := by
  cases s with
  | declare catalog change => exact change.grows
  | bind r name callable =>
    rw [bindCallable_eq]
    exact .refl _
  | _ => exact .refl _

theorem Steps.grows {u u' : Universe} (s : Steps A u u') :
    Catalog.Grows u.catalog u'.catalog := by
  induction s with
  | refl => exact .refl _
  | tail _ last ih =>
    obtain ⟨a, -, step⟩ := last
    exact ih.trans step.grows

/-! ### Operations -/

theorem ends_tryDeclare {α : Type} {f : Catalog → Except TypeError (α × Catalog)}
    {V : α → Universe → Prop} {X : TypeError → Universe → Prop} {u : Universe} :
    Ends (tryDeclare f) u V X ↔ (∀ a c, f u.catalog = .ok (a, c) → V a { u with catalog := c }) ∧
      ∀ e, f u.catalog = .error e → X e u := by
  unfold tryDeclare
  rw [ends_bind, ends_get]
  rcases hf : f u.catalog with e | ⟨a, c⟩
  · simp
  · simp only [ends_bind, ends_modify, ends_pure]
    simp

theorem gives_declare {α : Type} (hA : .declare ∈ A) {f : Catalog → α × Catalog} {u : Universe}
    (h : Catalog.Change u.catalog (f u.catalog).2) :
    (stepping A).Gives u (declare f) fun _ _ => True :=
  gives_of_step rfl hA nofun (.declare _ h) trivial

theorem gives_tryDeclare {α : Type} (hA : .declare ∈ A)
    {f : Catalog → Except TypeError (α × Catalog)} {u : Universe}
    (h : ∀ a c', f u.catalog = .ok (a, c') → Catalog.Change u.catalog c') :
    (stepping A).Gives u (tryDeclare f) fun _ _ => True := by
  refine Effect.gives_get_bind ?_
  split
  · next a c' hf => exact gives_of_step rfl hA nofun (.declare c' (h a c' hf)) trivial
  · exact .refl

theorem gives_discard {α : Type} {x : UniverseM α} {u : Universe}
    (h : (stepping A).Gives u x fun _ _ => True) :
    (stepping A).Gives u (discard x) fun _ _ => True :=
  ends_map.mpr h

/-- What an operation does is a sequence of steps with its acts. -/
theorem gives_run {u : Universe} (h : Sound u) {op : Operation} (inRange : op.InRange u) :
    (stepping op.acts).Gives u op.run fun _ _ => True := by
  have htypes := inRange.types
  have hreprs := inRange.reprs
  have hbuilding : ∀ {a : Act}, Act.building ⊆ {.build, .breakOff, a} := fun hb => by
    rcases hb with rfl | rfl <;> simp
  cases op with
  | basic kind =>
    exact gives_discard (gives_declare (Set.mem_singleton _) (Catalog.change_basic kind))
  | pointerTo elem =>
    have helem := htypes elem (List.mem_singleton_self _)
    exact gives_discard (gives_declare (Set.mem_singleton _) (Catalog.change_pointerTo helem))
  | sliceOf elem =>
    have helem := htypes elem (List.mem_singleton_self _)
    exact gives_discard (gives_declare (Set.mem_singleton _) (Catalog.change_sliceOf helem))
  | funcOf sig =>
    exact gives_discard (gives_declare (Set.mem_singleton _) (Catalog.change_funcOf htypes))
  | structOf fields =>
    refine gives_discard (gives_declare (Set.mem_singleton _)
      (Catalog.change_structOf fun f hf => ?_))
    exact htypes f.ty (List.mem_map_of_mem hf)
  | interfaceOf methods embedded =>
    refine gives_discard (gives_tryDeclare (Set.mem_singleton _) fun ty c' hc => ?_)
    refine Catalog.change_interfaceOf h.catalog (fun m hm p hp => ?_) (fun e he => ?_) hc
    · exact htypes p (List.mem_append_left _ (List.mem_flatMap.mpr ⟨m, hm, hp⟩))
    · exact htypes e (List.mem_append_right _ he)
  | declareNamed name pkg =>
    exact gives_discard (gives_tryDeclare (Set.mem_singleton _)
      fun ty c' hc => Catalog.change_declareNamed hc)
  | setUnderlying ty underlying =>
    have hunder := htypes underlying (List.mem_cons_of_mem _ (List.mem_singleton_self _))
    unfold Operation.run Universe.setUnderlying
    refine gives_tryDeclare (Set.mem_singleton _) fun _ c' hc => ?_
    rcases hset : u.catalog.setUnderlying ty underlying with e | c''
    · rw [hset] at hc
      cases hc
    · rw [hset] at hc
      cases hc
      exact Catalog.change_setUnderlying h.catalog hunder hset
  | addMethod ty m =>
    refine gives_discard (gives_tryDeclare (Set.mem_singleton _) fun i c' hc => ?_)
    exact Catalog.change_addMethod (fun p hp => htypes p (List.mem_cons_of_mem _ hp)) hc
  | reprOf ty => exact gives_discard (bounds_reprOf subset_rfl ty u h)
  | funcReprOf sig => exact gives_discard (bounds_funcReprOf subset_rfl sig u h)
  | pointerToRepr repr =>
    have hrepr := hreprs repr (List.mem_singleton_self _)
    exact gives_discard (gives_pointerToRepr (Set.mem_singleton _) hrepr)
  | allocFunc => exact gives_discard (bounds_allocFunc (Set.mem_singleton _) u h)
  | bindCallable repr name callable =>
    have hparts : ∀ p ∈ callable.ty.parts, p.index < u.reprs.size := fun p hp =>
      hreprs p (List.mem_cons_of_mem _ hp)
    exact gives_of_step rfl (Set.mem_singleton _) nofun (.bind repr name callable hparts) trivial
  | bindMethod ty name func =>
    exact gives_discard (bounds_bindMethod hbuilding (by simp) ty name func u h)
  | registerNative ty =>
    exact gives_discard (bounds_registerNative hbuilding (by simp) ty u h)
  | registerNativeWith ty methods =>
    refine gives_discard (gives_registerNativeWith (by simp [Operation.acts])
      fun m hm p hp => hreprs p ?_)
    exact List.mem_flatMap.mpr ⟨m, hm, hp⟩
  | descriptor ty =>
    exact gives_discard (Ends.mono (ends_descriptor subset_rfl h) (fun _ _ hd => ⟨hd.1, trivial⟩)
      fun _ _ hfail => hfail.1)
  | resolve ty index =>
    exact gives_discard (Ends.mono (ends_resolve subset_rfl h) (fun _ _ hm => ⟨hm.1, trivial⟩)
      fun _ _ hfail => hfail.1)
  | method ty index =>
    exact gives_discard (Ends.mono (ends_method subset_rfl h) (fun _ _ hm => ⟨hm.1, trivial⟩)
      fun _ _ hfail => hfail.1)

/-- **Every operation is a sequence of steps with its acts.** Building breaks off only in an
operation that fails for want of an underlying type. -/
theorem perform_steps {u : Universe} (h : Sound u) {op : Operation} (inRange : op.InRange u) :
    Steps {a ∈ op.acts | a = .breakOff → u.isComplete op = false} u (u.perform op).2 := by
  have hrun := gives_run h inRange
  unfold Effect.Gives Ends at hrun
  unfold isComplete perform
  rcases hop : op.run.run.run u with ⟨e | _, u'⟩
  · rw [hop] at hrun
    refine Steps.mono (fun a ha => Set.mem_sep ha.1 fun hbroken => ?_) hrun
    simp [ha.2 hbroken]
  · rw [hop] at hrun
    exact Steps.mono (fun a ha => Set.mem_sep ha.1 fun hbroken => absurd hbroken ha.2) hrun.1

/-! ### Reachable universes -/

/-- **What steps keep, every reachable universe has.** -/
theorem ReachableBy.sound {allowed : Universe → Operation → Prop} {u : Universe}
    (h : ReachableBy allowed u) : Sound u := by
  induction h with
  | empty => exact sound_empty
  | step op _ inRange _ ih => exact Steps.sound (perform_steps ih inRange) ih

/-- What every step of a sound universe keeps, every reachable universe has. -/
theorem ReachableBy.keeps {P : Universe → Prop} (hempty : P .empty)
    (hstep : ∀ {a u u'}, Step u a u' → Sound u → P u → P u')
    {allowed : Universe → Operation → Prop} {u : Universe} (h : ReachableBy allowed u) : P u := by
  induction h with
  | empty => exact hempty
  | step op before inRange _ ih =>
    have s := perform_steps before.sound inRange
    exact (Steps.keeps (P := P) (fun _ step hv hP => hstep step hv hP) s before.sound ih).2

/-- What every change of a catalog keeps, the catalog of every reachable universe has. -/
theorem ReachableBy.keeps_catalog {P : Catalog → Prop} (hempty : P .empty)
    (hchange : ∀ {c c'}, Catalog.Change c c' → P c → P c')
    {allowed : Universe → Operation → Prop} {u : Universe} (h : ReachableBy allowed u) :
    P u.catalog := by
  refine h.keeps (P := fun v => P v.catalog) hempty fun {a u u'} step _ hP => ?_
  cases step with
  | declare catalog change => exact hchange change hP
  | bind r name callable =>
    rw [bindCallable_eq]
    exact hP
  | _ => exact hP

theorem ReachableBy.wellFormed {allowed : Universe → Operation → Prop} {u : Universe}
    (h : ReachableBy allowed u) : u.catalog.WellFormed :=
  h.sound.catalog

theorem ReachableBy.layered {allowed : Universe → Operation → Prop} {u : Universe}
    (h : ReachableBy allowed u) : u.catalog.Layered :=
  h.keeps_catalog Catalog.layered_empty Catalog.Change.layered

/-- **If no operation failed for want of an underlying type, no placeholder was left behind.** -/
theorem Unbroken.finished {u : Universe} (h : Unbroken u) : Finished u := by
  induction h with
  | empty => exact fun _ hr => absurd hr (Nat.not_lt_zero _)
  | step op before inRange complete ih =>
    refine (perform_steps before.sound inRange).finished (fun hbroken => ?_) before.sound ih
    rw [hbroken.2 rfl] at complete
    cases complete

/-! ### Later universes -/

/-- The universes that operations lead to from a given one. -/
abbrev Later : Universe → Universe → Prop :=
  Relation.ReflTransGen fun u u' => ∃ op : Operation, op.InRange u ∧ u' = (u.perform op).2

section Later

variable {u u' : Universe}

/-- Leaving out the answer leaves the same universe. -/
theorem run_discard_snd {α : Type} (x : UniverseM α) (u : Universe) :
    ((discard x).run.run u).2 = (x.run.run u).2 := by
  have hends : Ends (discard x) u (fun _ v => v = (x.run.run u).2) fun _ v =>
      v = (x.run.run u).2 := by
    refine ends_map.mpr (Ends.mono (ends_self x u) (fun a v hx => ?_) fun e v hx => ?_) <;> rw [hx]
  exact hends.state

theorem Later.steps (later : Later u u') (h : Sound u) : Steps Set.univ u u' := by
  induction later with
  | refl => exact .refl
  | tail _ hop ih =>
    obtain ⟨op, inRange, rfl⟩ := hop
    exact ih.trans (Steps.mono (Set.subset_univ _) (perform_steps (Steps.sound ih h) inRange))

theorem Later.sound (later : Later u u') (h : Sound u) : Sound u' :=
  Steps.sound (later.steps h) h

end Later

/-- The universe that a list of operations leads to from `u`. -/
def onward (u : Universe) (ops : List Operation) : Universe :=
  ops.foldl (fun u op => (u.perform op).2) u

theorem later_onward {u : Universe} {ops : List Operation}
    (h : Permits (fun _ _ => true) u ops = true) : Later u (u.onward ops) := by
  induction ops generalizing u with
  | nil => exact .refl
  | cons op ops ih =>
    rw [Permits, Bool.and_eq_true, Bool.and_eq_true, decide_eq_true_iff] at h
    exact .head ⟨op, h.1.1, rfl⟩ (ih h.2)

end Universe

end ScriptEngine
