import Mathlib
import ScriptEngine.Proofs.Session.Declarations
import ScriptEngine.Proofs.Types.Agreement

/-!
Declarations of methods that fail.

Declaring a method makes the pointer type of its receiver, adds the method to its type and binds a
fresh callable to it. The catalog refuses a method for what no declaration takes back
(`Catalog.Refuses.grows`), and a refused declaration leaves every older type its methods. Binding
fails where a receiver or a parameter is not finished, and then the method is declared already.
Main statement: `failed_declareMethod_iff`.
-/

namespace ScriptEngine

namespace Catalog

variable {c c' : Catalog} {ty recv : TypeId} {name : String} {m : MethodDecl}

/-! ### What a type refuses -/

/-- `ty` takes no method called `name`, whatever its receiver: it is not a name, or stands for
something that has no methods of its own, or has a method of that name. -/
inductive Refuses (c : Catalog) (ty : TypeId) (name : String) : Prop where
  | unnamed : c.isNamed ty = false → Refuses c ty name
  | owner : refusesMethods (c.kindOf ty) = true → Refuses c ty name
  | taken (d : NamedDecl) : c.decl? ty = some (.named d) → (∃ m ∈ d.methods, m.name = name) →
      Refuses c ty name

/-- **What a type refuses, it refuses for good.** -/
theorem Refuses.grows (h : c.Refuses ty name) (g : Grows c c') (hlt : ty.index < c.size) :
    c'.Refuses ty name := by
  cases h with
  | unnamed hn => exact .unnamed ((g.isNamed hlt).trans hn)
  | owner howner =>
    have hkind : c.kindOf ty ≠ .invalid := fun heq => by simp [heq, refusesMethods] at howner
    exact .owner (by rw [g.kindOf hkind, howner])
  | taken d hd htaken =>
    obtain ⟨d', hd', -, -, -, hprefix⟩ := g.named ty d hd
    obtain ⟨m, hm, hname⟩ := htaken
    exact .taken d' hd' ⟨m, hprefix.subset hm, hname⟩

/-- What is no receiver never becomes one. -/
theorem Grows.isReceiverOf_eq_false (g : Grows c c') (hlt : recv.index < c.size)
    (h : c.isReceiverOf recv ty = false) : c'.isReceiverOf recv ty = false := by
  unfold isReceiverOf at h ⊢
  rw [Bool.or_eq_false_iff] at h ⊢
  refine ⟨h.1, beq_eq_false_iff_ne.mpr fun hpointer => ?_⟩
  obtain ⟨d, hd⟩ := exists_decl? hlt
  have hunnamed : c.isNamed recv = false := by
    rw [← g.isNamed hlt]
    exact isNamed_eq_false hpointer (by simp)
  rw [g.unnamed recv d hd hunnamed] at hpointer
  rw [hd, hpointer] at h
  simp at h

/-- A method is not added exactly if the type refuses it or its receiver is not the type's. -/
theorem addMethod_fails_iff : (∃ e, c.addMethod ty m = .error e) ↔
    c.Refuses ty m.name ∨ c.isReceiverOf (m.sig.recv.getD ty) ty = false := by
  unfold addMethod
  cases hn : c.named? ty with
  | none =>
    exact iff_of_true ⟨_, rfl⟩ (.inl (.unnamed (by rw [isNamed, hn]; rfl)))
  | some d =>
    have hd := named?_eq_some.mp hn
    dsimp only
    split
    · next howner => exact iff_of_true ⟨_, rfl⟩ (.inl (.owner howner))
    next howner =>
    split
    · next htaken =>
      obtain ⟨m', hm', heq⟩ := List.any_eq_true.mp htaken
      exact iff_of_true ⟨_, rfl⟩ (.inl (.taken d hd ⟨m', hm', beq_iff_eq.mp heq⟩))
    next hfresh =>
    split
    · next hrecv =>
      refine iff_of_false (by rintro ⟨_, ⟨⟩⟩) ?_
      rintro ((hunnamed | hrefuses | ⟨d', hd', m', hm', hname⟩) | hnot)
      · rw [isNamed_iff.mpr ⟨d, hd⟩] at hunnamed
        cases hunnamed
      · exact howner hrefuses
      · obtain rfl := TypeDecl.named.inj (Option.some.inj (hd.symm.trans hd'))
        exact hfresh (List.any_eq_true.mpr ⟨m', hm', beq_iff_eq.mpr hname⟩)
      · rw [hrecv] at hnot
        cases hnot
    · next hrecv => exact iff_of_true ⟨_, rfl⟩ (.inr (Bool.eq_false_iff.mpr hrecv))

/-- No method is refused for want of an underlying type, and a refusal is always answered. -/
theorem refusal_of_addMethod {e : TypeError} (h : c.addMethod ty m = .error e) :
    e.isIncomplete = false ∧ e ≠ .endless := by
  unfold addMethod at h
  split at h
  · cases h
    exact ⟨rfl, nofun⟩
  dsimp only at h
  split at h
  · cases h
    exact ⟨rfl, nofun⟩
  split at h
  · cases h
    exact ⟨rfl, nofun⟩
  split at h
  · cases h
  · cases h
    exact ⟨rfl, nofun⟩

/-- A name stands for what it stood for when its methods change. -/
theorem WellFormed.interface?_setNamed (wf : c.WellFormed) {d : NamedDecl}
    (hd : c.decl? ty = some (.named d)) (d' : NamedDecl) (hunder : d'.underlying = d.underlying) :
    (c.setNamed ty d').interface? ty = c.interface? ty := by
  have hself := decl?_setNamed_self (lt_size_of_decl? hd) d'
  cases hu : d.underlying with
  | none =>
    have hunder' : (c.setNamed ty d').underlying ty = ty := by
      simp [Catalog.underlying, hself, hunder, hu]
    have hunder'' : c.underlying ty = ty := by simp [Catalog.underlying, hd, hu]
    rw [interface?, interface?, hunder', hunder'', hself, hd]
  | some u =>
    have hne : u ≠ ty := by
      rintro rfl
      have hunnamed := (wf.underlying_unnamed u d hd u hu).2
      rw [isNamed_iff.mpr ⟨d, hd⟩] at hunnamed
      cases hunnamed
    rw [interface?, interface?, underlying_of_named hd hu,
      underlying_of_named hself (hunder.trans hu), decl?_setNamed_of_ne hne]

theorem methods_of_name {d : NamedDecl} (hd : c.decl? ty = some (.named d))
    (hiface : c.interface? ty = none) : c.methods ty = d.methods := by
  rw [methods, hiface, named?_eq_some.mpr hd]

/-- A method that is added comes after those that the type has. -/
theorem WellFormed.methods_of_addMethod (wf : c.WellFormed) {i : Nat}
    (h : c.addMethod ty m = .ok (i, c')) :
    ∃ m', m'.name = m.name ∧ c'.methods ty = c.methods ty ++ [m'] := by
  unfold addMethod at h
  split at h
  · cases h
  next d hd =>
  rw [named?_eq_some] at hd
  dsimp only at h
  split at h
  · cases h
  next howner =>
  have hiface : c.interface? ty = none :=
    interface?_eq_none fun heq => howner (by rw [heq]; rfl)
  split at h
  · cases h
  split at h
  · cases h
    refine ⟨{ m with sig := { m.sig with recv := some (m.sig.recv.getD ty) } }, rfl, ?_⟩
    rw [methods_of_name hd hiface]
    refine methods_of_name (decl?_setNamed_self (lt_size_of_decl? hd) _) (Eq.trans ?_ hiface)
    exact wf.interface?_setNamed hd _ rfl
  · cases h

/-! ### Preparing a declaration -/

/-- What is added, and to which catalog: for a pointer receiver the pointer type is made first. -/
def prepare (c : Catalog) (ty : TypeId) (m : MethodDecl) : Bool → MethodDecl × Catalog
  | false => (m, c)
  | true => ({ m with sig := { m.sig with recv := some (c.pointerTo ty).1 } }, (c.pointerTo ty).2)

variable {pointerReceiver : Bool}

theorem name_prepare : (c.prepare ty m pointerReceiver).1.name = m.name := by
  cases pointerReceiver <;> rfl

theorem agrees_prepare : c.Agrees (c.prepare ty m pointerReceiver).2 := by
  cases pointerReceiver with
  | false => exact c.agrees_refl
  | true => exact c.agrees_intern _

theorem change_prepare (hty : ty.index < c.size) : Change c (c.prepare ty m pointerReceiver).2 := by
  cases pointerReceiver with
  | false => exact .none
  | true => exact change_pointerTo hty

theorem types_prepare_lt (hty : ty.index < c.size) (hm : ∀ p ∈ m.sig.types, p.index < c.size) :
    ∀ p ∈ (c.prepare ty m pointerReceiver).1.sig.types,
      p.index < (c.prepare ty m pointerReceiver).2.size := by
  cases pointerReceiver with
  | false => exact hm
  | true =>
    have hsize := (change_pointerTo hty).grows.size_le
    have hrecv := lt_size_of_decl? (decl?_intern c (.pointer ty))
    intro p hp
    rcases List.mem_append.mp hp with hp | hp
    · rcases List.mem_cons.mp hp with rfl | hp
      · exact hrecv
      · exact Nat.lt_of_lt_of_le (hm p (Signature.mem_types (List.mem_append_left _ hp))) hsize
    · exact Nat.lt_of_lt_of_le (hm p (Signature.mem_types (List.mem_append_right _ hp))) hsize

/-- The receiver of a prepared method can only be wrong if it was given. -/
theorem isReceiverOf_prepare : (c.prepare ty m true).2.isReceiverOf
    ((c.prepare ty m true).1.sig.recv.getD ty) ty = true := by
  have hdecl := decl?_intern c (.pointer ty)
  simp only [prepare, Option.getD_some, isReceiverOf, pointerTo, hdecl, beq_self_eq_true,
    Bool.or_true]

/-- What is refused in a catalog is refused when it is prepared in a later one. -/
theorem Refuses.prepare (h : c.Refuses ty m.name) (hty : ty.index < c.size) :
    ∃ e, (c.prepare ty m pointerReceiver).2.addMethod ty (c.prepare ty m pointerReceiver).1 =
      .error e := by
  refine addMethod_fails_iff.mpr (.inl ?_)
  rw [name_prepare]
  exact h.grows (change_prepare hty).grows hty

/-- **A method that cannot be added now can never be added.** -/
theorem addMethod_fails_forever (hty : ty.index < c.size)
    (hm : ∀ p ∈ m.sig.types, p.index < c.size)
    (hfails : ∃ e, (c.prepare ty m pointerReceiver).2.addMethod ty
      (c.prepare ty m pointerReceiver).1 = .error e)
    (g : Grows (c.prepare ty m pointerReceiver).2 c') :
    ∃ e, (c'.prepare ty m pointerReceiver).2.addMethod ty (c'.prepare ty m pointerReceiver).1 =
      .error e := by
  have hty' : ty.index < (c.prepare ty m pointerReceiver).2.size :=
    Nat.lt_of_lt_of_le hty (change_prepare hty).grows.size_le
  rcases addMethod_fails_iff.mp hfails with hrefuses | hrecv
  · rw [name_prepare] at hrefuses
    exact (hrefuses.grows g hty').prepare (Nat.lt_of_lt_of_le hty' g.size_le)
  · cases pointerReceiver with
    | true =>
      rw [isReceiverOf_prepare] at hrecv
      cases hrecv
    | false =>
      have hlt : (m.sig.recv.getD ty).index < c.size := by
        cases hr : m.sig.recv with
        | none => exact hty
        | some r => exact hm r (by simp [Signature.types, hr])
      exact addMethod_fails_iff.mpr (.inr (g.isReceiverOf_eq_false hlt hrecv))

end Catalog

/-! ### Declaring a method in a universe -/

namespace Universe

variable {u u' : Universe} {ty : TypeId} {m : MethodDecl} {pointerReceiver : Bool} {e : TypeError}

/-- How the declaration of a method fails, and what it leaves. -/
inductive FailsToDeclare (u : Universe) (ty : TypeId) (m : MethodDecl) (pointerReceiver : Bool) :
    TypeError → Universe → Prop where
  /-- The method is not added. -/
  | refused (e : TypeError) : (u.catalog.prepare ty m pointerReceiver).2.addMethod ty
        (u.catalog.prepare ty m pointerReceiver).1 = .error e →
      FailsToDeclare u ty m pointerReceiver e
        { u with catalog := (u.catalog.prepare ty m pointerReceiver).2 }
  /-- The method is added, and what its callable takes is not finished. -/
  | unfinished (name : String) (i : Nat) (u' : Universe) :
      (u.catalog.prepare ty m pointerReceiver).2.addMethod ty
        (u.catalog.prepare ty m pointerReceiver).1 = .ok (i, u'.catalog) →
      FailsToDeclare u ty m pointerReceiver (.incompleteType name) u'

/-- Building a representation breaks off for want of an underlying type only, and leaves the
declarations alone. -/
theorem ends_reprOf_incomplete (h : Sound u) :
    Ends (reprOf ty) u (fun _ u' => Sound u' ∧ u'.catalog = u.catalog)
      fun e u' => (∃ name, e = .incompleteType name) ∧ u'.catalog = u.catalog := by
  refine ends_onReprs.mpr (Ends.mono (h.gives_reprOf ty) (fun r t hr => ?_) fun e t he => ?_)
  · exact ⟨h.builds hr.1, rfl⟩
  · exact ⟨he.1, rfl⟩

theorem ends_funcReprOf_incomplete (h : Sound u) (sig : Signature) :
    Ends (funcReprOf sig) u (fun _ u' => u'.catalog = u.catalog)
      fun e u' => (∃ name, e = .incompleteType name) ∧ u'.catalog = u.catalog := by
  have hparts : (buildEffect h.catalog []).Gives u.reprs (ReprM.funcReprOf u.catalog sig) _ :=
    Effect.gives_funcReprWith (R := fun _ _ _ => True) h.reprs
      (fun p _ t ht => (gives_build h.catalog [] p ht).mono fun _ _ _ _ => trivial)
      fun _ _ _ _ _ _ _ => trivial
  exact ends_onReprs.mpr (Ends.mono hparts (fun _ _ _ => rfl) fun _ _ he => ⟨he.1, rfl⟩)

/-- A method that is declared is bound, unless its receiver or its signature is not finished. -/
theorem ends_bindMethod_declared (h : Sound u) {name : String} (declared : u.Declares ty name)
    (func : FuncId) : Ends (bindMethod ty name func) u (fun _ _ => True)
      fun e u' => (∃ name, e = .incompleteType name) ∧ u'.catalog = u.catalog := by
  obtain ⟨d, hd, m, hm, hname⟩ := declared
  unfold bindMethod
  refine ends_bind.mpr ?_
  rw [ends_get]
  dsimp only
  rw [Catalog.named?_eq_some.mpr hd]
  dsimp only
  split
  · next hnone =>
    have hmiss := List.find?_eq_none.mp hnone m hm
    exact absurd (beq_iff_eq.mpr hname) hmiss
  next m' _ =>
  refine ends_bind.mpr (Ends.mono (ends_reprOf_incomplete h) (fun r u₁ ⟨h₁, hcatalog⟩ => ?_)
    fun _ _ he => he)
  refine ends_bind.mpr (Ends.mono (ends_funcReprOf_incomplete h₁ m'.sig) (fun _ _ _ => trivial)
    fun _ _ he => ⟨he.1, he.2.trans hcatalog⟩)

theorem ends_declareBound_iff {V : Nat × FuncId → Universe → Prop}
    {X : TypeError → Universe → Prop} :
    Ends (Evaluator.declareBound ty m pointerReceiver) u V X ↔
      Ends (do
        let index ← addMethod ty (u.catalog.prepare ty m pointerReceiver).1
        let func ← allocFunc
        let _ ← bindMethod ty m.name func
        return (index, func))
      { u with catalog := (u.catalog.prepare ty m pointerReceiver).2 } V X := by
  cases pointerReceiver with
  | false => exact ends_bind
  | true => exact ends_bind.trans (ends_map.trans (ends_modifyGet _))

/-- **What fails in the declaration of a method**: the catalog refuses it, or it is added and not
bound. -/
theorem ends_declareBound_fails (h : Sound u) (hty : ty.index < u.catalog.size)
    (hm : ∀ p ∈ m.sig.types, p.index < u.catalog.size) :
    Ends (Evaluator.declareBound ty m pointerReceiver) u (fun _ _ => True)
      (FailsToDeclare u ty m pointerReceiver) := by
  refine ends_declareBound_iff.mpr (ends_bind.mpr (ends_tryDeclare.mpr ⟨fun i c hc => ?_,
    fun e he => .refused e he⟩))
  have hprepared : Step u .declare
      { u with catalog := (u.catalog.prepare ty m pointerReceiver).2 } :=
    .declare _ (Catalog.change_prepare hty)
  have hadded : Step { u with catalog := (u.catalog.prepare ty m pointerReceiver).2 } .declare
      { u with catalog := c } :=
    .declare c (Catalog.change_addMethod (Catalog.types_prepare_lt hty hm) hc)
  have hallocated : Step { u with catalog := c } .allocate
      { u with catalog := c, funcs := u.funcs + 1 } := .allocate
  have hsound := hallocated.sound (hadded.sound (hprepared.sound h))
  have hdeclares : Declares { u with catalog := c, funcs := u.funcs + 1 } ty m.name := by
    have hdeclares := (declares_of_addMethod
      (u := { u with catalog := (u.catalog.prepare ty m pointerReceiver).2 }) hc).2
    rwa [Catalog.name_prepare] at hdeclares
  refine ends_bind.mpr ((ends_modifyGet _).mpr (ends_bind.mpr ?_))
  refine Ends.mono (ends_bindMethod_declared hsound hdeclares ⟨u.funcs⟩) (fun _ _ _ => trivial)
    fun e u' he => ?_
  obtain ⟨⟨name, rfl⟩, hcatalog⟩ := he
  exact .unfinished name i u' (hcatalog ▸ hc)

/-- **A declaration that fails takes no method away and adds none**, unless it fails for want of an
underlying type: then the method has been added. -/
theorem FailsToDeclare.sameMethods_iff (hfails : FailsToDeclare u ty m pointerReceiver e u')
    (h : Sound u) (hty : ty.index < u.catalog.size) :
    ((∀ name, e ≠ .incompleteType name) ↔ u.catalog.SameMethods u'.catalog) ∧
      ((∃ name, e = .incompleteType name) → ∃ method, method.name = m.name ∧
        u'.catalog.methods ty = u.catalog.methods ty ++ [method]) := by
  have hchange : Catalog.Change u.catalog (u.catalog.prepare ty m pointerReceiver).2 :=
    Catalog.change_prepare hty
  have hagree : u.catalog.Agrees (u.catalog.prepare ty m pointerReceiver).2 :=
    Catalog.agrees_prepare
  have hwf := hchange.wellFormed h.catalog
  cases hfails with
  | refused e he =>
    have hcomplete : ∀ name, e ≠ .incompleteType name := by
      rintro name rfl
      exact absurd (Catalog.refusal_of_addMethod he).1 (by simp [TypeError.isIncomplete])
    exact ⟨iff_of_true hcomplete (hagree.sameMethods h.catalog hwf),
      fun ⟨name, heq⟩ => absurd heq (hcomplete name)⟩
  | unfinished name i u' hadded =>
    obtain ⟨method, hname, hmethods⟩ := hwf.methods_of_addMethod hadded
    rw [hagree.methods h.catalog hty] at hmethods
    rw [Catalog.name_prepare] at hname
    refine ⟨iff_of_false (fun hne => hne name rfl) fun hsame => ?_,
      fun _ => ⟨method, hname, hmethods⟩⟩
    have hlength := congrArg List.length ((hsame ty hty).1.symm.trans hmethods)
    simp at hlength

/-- **A declaration that failed fails ever after**, whatever is declared in between. -/
theorem FailsToDeclare.forever (hfails : FailsToDeclare u ty m pointerReceiver e u')
    (hty : ty.index < u.catalog.size) (hm : ∀ p ∈ m.sig.types, p.index < u.catalog.size)
    {v : Universe} (g : Catalog.Grows u'.catalog v.catalog) :
    ∃ e' v', (Evaluator.declareBound ty m pointerReceiver).run.run v = (.error e', v') ∧
      e' ≠ .endless := by
  have hagain : ∃ e', (v.catalog.prepare ty m pointerReceiver).2.addMethod ty
      (v.catalog.prepare ty m pointerReceiver).1 = .error e' := by
    cases hfails with
    | refused e he => exact Catalog.addMethod_fails_forever hty hm ⟨e, he⟩ g
    | unfinished name i u' hadded =>
      have hchange : Catalog.Change u.catalog (u.catalog.prepare ty m pointerReceiver).2 :=
        Catalog.change_prepare hty
      have hgrows := (Catalog.change_addMethod (Catalog.types_prepare_lt hty hm) hadded).grows
      have hlt := Nat.lt_of_lt_of_le hty (hchange.grows.trans hgrows).size_le
      obtain ⟨-, d, hd, htaken⟩ := declares_of_addMethod
        (u := { u with catalog := (u.catalog.prepare ty m pointerReceiver).2 }) hadded
      rw [Catalog.name_prepare] at htaken
      have hrefuses : u'.catalog.Refuses ty m.name := .taken d hd htaken
      exact (hrefuses.grows g hlt).prepare (Nat.lt_of_lt_of_le hlt g.size_le)
  obtain ⟨e', he'⟩ := hagain
  have hends : Ends (Evaluator.declareBound ty m pointerReceiver) v (fun _ _ => False)
      fun e'' _ => e'' = e' := by
    refine ends_declareBound_iff.mpr (ends_bind.mpr (ends_tryDeclare.mpr ⟨fun i c hc => ?_,
      fun e'' he'' => ?_⟩))
    · rw [he'] at hc
      cases hc
    · exact Except.error.inj (he''.symm.trans he')
  unfold Ends at hends
  rcases hrun : (Evaluator.declareBound ty m pointerReceiver).run.run v with ⟨e'' | a, v'⟩
  · rw [hrun] at hends
    obtain rfl : e'' = e' := hends
    exact ⟨e'', v', rfl, (Catalog.refusal_of_addMethod he').2⟩
  · rw [hrun] at hends
    exact hends.elim

end Universe

/-! ### Declaring a method in an interpreter -/

namespace Evaluator

open Universe

variable {m m' : Machine} {ty : TypeId} {decl : MethodDecl} {f : Function} {pointerReceiver : Bool}
  {e : EvalError}

/-- **What a failed declaration of a method leaves.** Nothing but the universe changes. There every
type that was declared before keeps its methods, unless the receiver or a parameter of the method
was not finished: then the method has been declared all the same. In every later universe the same
declaration fails again. -/
theorem failed_declareMethod_iff (h : m.types.Reachable) (hty : ty.index < m.types.catalog.size)
    (hsig : ∀ p ∈ decl.sig.types, p.index < m.types.catalog.size)
    (hfail : declareMethod ty decl f pointerReceiver m = .exit e m') :
    m' = { m with types := m'.types } ∧
    ((∀ name, e.cause ≠ .typeSystem (.incompleteType name)) ↔
      m.types.catalog.SameMethods m'.types.catalog) ∧
    ((∃ name, e.cause = .typeSystem (.incompleteType name)) → ∃ method, method.name = decl.name ∧
      m'.types.catalog.methods ty = m.types.catalog.methods ty ++ [method]) ∧
    ∀ later : Machine, Later m'.types later.types →
      ∃ e' m'', declareMethod ty decl f pointerReceiver later = .exit e' m'' := by
  have hsound := h.sound
  rw [declareMethod_eq] at hfail
  by_cases harity : f.params.length = decl.sig.params.length + 1
  · rw [if_pos harity] at hfail
    rcases hrun : (declareBound ty decl pointerReceiver).run.run m.types with ⟨x | ⟨i, func⟩, u'⟩
    · have hanswered : x ≠ .endless := fun heq => by
        rw [hrun, heq] at hfail
        cases hfail
      rw [hrun] at hfail
      simp only [hanswered, reduceIte] at hfail
      cases hfail
      have hfails : FailsToDeclare m.types ty decl pointerReceiver x u' :=
        (ends_of_error hrun).mp (ends_declareBound_fails hsound hty hsig)
      have hsteps := (ends_of_error hrun).mp (ends_declareBound hsound hty hsig pointerReceiver)
      obtain ⟨hiff, hadded⟩ := hfails.sameMethods_iff hsound hty
      refine ⟨rfl, ?_, ?_, fun later hlater => ?_⟩
      · rw [← hiff]
        exact forall_congr' fun name => by simp [EvalError.of]
      · rintro ⟨name, heq⟩
        exact hadded ⟨name, by simpa [EvalError.of] using heq⟩
      · have hgrows := (hlater.steps (hsteps.sound hsound)).grows
        obtain ⟨e', u'', hagain, hne⟩ := hfails.forever hty hsig hgrows
        rw [declareMethod_eq, if_pos harity, hagain]
        simp only [hne, reduceIte]
        exact ⟨_, _, rfl⟩
    · rw [hrun] at hfail
      cases hfail
  · rw [if_neg harity] at hfail
    cases hfail
    refine ⟨rfl, iff_of_true (fun name => nofun) ?_, fun ⟨name, heq⟩ => (by cases heq), ?_⟩
    · exact (Catalog.agrees_refl _).sameMethods hsound.catalog hsound.catalog
    · intro later _
      rw [declareMethod_eq, if_neg harity]
      exact ⟨_, _, rfl⟩

/-- An interpreter that knows `type T` and nothing more of it. -/
def unfinishedName : Machine :=
  { (default : Machine) with types := after [.declareNamed "T" none] }

/-- `func (T) M()`, implemented by a function that does nothing. -/
def idleMethod : MethodDecl × Function :=
  (⟨"M", none, ⟨none, [], [], false⟩⟩, ⟨["t"], .empty ⟨0, 1⟩, ⟨0⟩⟩)

/-- `type T struct{}`, once the name `T` is known. -/
def finishingStruct : List Operation :=
  [.structOf [], .setUnderlying ⟨0⟩ ⟨1⟩]

/-- The declaration of `M` fails, as `T` is not finished, and leaves `M` declared. When `T` has
become a struct, the same declaration fails again. -/
theorem failed_declareMethod_iff_unfinishedName : ∃ e m',
    declareMethod ⟨0⟩ idleMethod.1 idleMethod.2 false unfinishedName = .exit e m' ∧
    e.cause = .typeSystem (.incompleteType "T") ∧
    m'.functions = unfinishedName.functions ∧
    unfinishedName.types.catalog.numMethod ⟨0⟩ = 0 ∧ m'.types.catalog.numMethod ⟨0⟩ = 1 ∧
    ¬ unfinishedName.types.catalog.SameMethods m'.types.catalog ∧
    (m'.types.onward finishingStruct).catalog.kindOf ⟨0⟩ = .struct ∧
    ∃ e' m'', declareMethod ⟨0⟩ idleMethod.1 idleMethod.2 false
      { m' with types := m'.types.onward finishingStruct } = .exit e' m'' := by
  have hreach : unfinishedName.types.Reachable := reachable_after (by decide +kernel)
  have hnone : unfinishedName.types.catalog.methods ⟨0⟩ = [] := by decide +kernel
  obtain ⟨e, m', hfail, hcause, hpermits, hkind⟩ : ∃ e m',
      declareMethod ⟨0⟩ idleMethod.1 idleMethod.2 false unfinishedName = .exit e m' ∧
        e.cause = .typeSystem (.incompleteType "T") ∧
        Permits (fun _ _ => true) m'.types finishingStruct = true ∧
        (m'.types.onward finishingStruct).catalog.kindOf ⟨0⟩ = .struct :=
    ⟨_, _, by cbv, rfl, by cbv, by cbv⟩
  obtain ⟨hrest, hiff, hadded, hagain⟩ :=
    failed_declareMethod_iff hreach (by decide +kernel) (by decide) hfail
  obtain ⟨method, -, hmethods⟩ := hadded ⟨"T", hcause⟩
  rw [hnone] at hmethods
  refine ⟨e, m', hfail, hcause, by rw [hrest], ?_, ?_, fun hsame => ?_, hkind, ?_⟩
  · rw [Catalog.numMethod, hnone]
    rfl
  · rw [Catalog.numMethod, hmethods]
    rfl
  · exact hiff.mpr hsame "T" hcause
  · exact hagain _ (later_onward hpermits)

end Evaluator

end ScriptEngine
