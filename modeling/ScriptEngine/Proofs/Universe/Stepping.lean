import Mathlib.Data.Set.Insert
import ScriptEngine.Proofs.Universe.Step

/-!
The steps that operations take.

`stepping A` bounds a computation by steps with acts of `A`, of which building breaks off only where
the computation fails for want of an underlying type. This module bounds the operations on
representations and on callables; `ends_bindMethod` says exactly how a method is bound, and
`ends_registerNative_iff` and `ends_registerNativeWith_iff` how an interface is registered.
-/

namespace ScriptEngine

namespace Universe

/-- Building representations. -/
def Act.building : Set Act :=
  {.build, .breakOff}

/-- An operation takes steps with acts of `A`; building breaks off only where the operation says
so. -/
def stepping (A : Set Act) : Effect TypeError Universe where
  inv := Sound
  ok := Steps (A \ {.breakOff})
  fail e := Steps {a ∈ A | a = .breakOff → e.isIncomplete = true}
  refl _ := .refl
  keep := Steps.sound
  trans h h' := h.trans h'
  trans_fail h h' := Relation.ReflTransGen.trans
    (Steps.mono (fun _ ha => Set.mem_sep ha.1 fun hb => absurd hb ha.2) h) h'

section Stepping

variable {A A' : Set Act}

theorem stepping_ok_mono (hA : A ⊆ A') {u u' : Universe} (s : (stepping A).ok u u') :
    (stepping A').ok u u' :=
  Steps.mono (fun _ ha => Set.mem_sdiff_of_mem (hA ha.1) ha.2) s

theorem stepping_fail_mono (hA : A ⊆ A') {e : TypeError} {u u' : Universe}
    (s : (stepping A).fail e u u') : (stepping A').fail e u u' :=
  Steps.mono (fun _ ha => Set.mem_sep (hA ha.1) ha.2) s

/-- A computation that takes one step and answers. -/
theorem gives_of_step {α : Type} {x : UniverseM α} {u : Universe} {a : α} {u' : Universe}
    {Q : α → Universe → Prop} {act : Act} (hx : x.run.run u = (.ok a, u')) (hact : act ∈ A)
    (hwhole : act ≠ .breakOff) (s : Step u act u') (hQ : Q a u') :
    (stepping A).Gives u x Q :=
  (ends_of_ok hx).mpr ⟨.single ⟨act, ⟨hact, hwhole⟩, s⟩, hQ⟩

/-- What is recorded stays recorded. -/
theorem find?_mono {u u' : Universe} (h : Sound u) (s : Steps A u u') {ty : TypeId} {r : ReprId}
    (hr : u.reprs.built.find? ty = some r) : u'.reprs.built.find? ty = some r :=
  (Steps.extended s h).built ty r hr

/-! ### Operations on representations -/

/-- The steps that change the representations of `u`. -/
def beside (A : Set Act) (u : Universe) : Effect TypeError ReprTable where
  inv t := Sound { u with reprs := t }
  ok t t' := (stepping A).ok { u with reprs := t } { u with reprs := t' }
  fail e t t' := (stepping A).fail e { u with reprs := t } { u with reprs := t' }
  refl h := (stepping A).refl h
  keep h := (stepping A).keep h
  trans h h' := (stepping A).trans h h'
  trans_fail h h' := (stepping A).trans_fail h h'

/-- An operation on representations ends as it does beside the rest of the universe. -/
theorem ends_onReprs {α : Type} {f : Catalog → ReprM α} {u : Universe} {V : α → Universe → Prop}
    {X : TypeError → Universe → Prop} : Ends (onReprs f) u V X ↔ Ends (f u.catalog) u.reprs
      (fun a t => V a { u with reprs := t }) (fun e t => X e { u with reprs := t }) := by
  have hrun : ∀ a t, (f u.catalog).run.run u.reprs = (a, t) →
      (Ends (onReprs f) u V X ↔ Ends (ofExcept a) { u with reprs := t } V X) := by
    intro a t h
    unfold onReprs
    rw [ends_bind, ends_get, h, ends_bind, ends_set]
  rcases h : (f u.catalog).run.run u.reprs with ⟨e | a, t⟩
  · rw [hrun _ _ h, ends_of_error h]
    exact Iff.rfl
  · rw [hrun _ _ h, ends_of_ok h]
    exact Iff.rfl

/-- What is recorded is not built again. -/
theorem run_reprOf_recorded {u : Universe} {ty : TypeId} {r : ReprId}
    (h : u.reprs.built.find? ty = some r) : (reprOf ty).run.run u = (.ok r, u) :=
  (ReprM.ends_build_recorded h).mp (ends_onReprs.mp (ends_self (reprOf ty) u))

theorem run_funcReprOf_recorded {u : Universe} {sig : Signature} {f : FuncRepr}
    (h : FuncShape (fun p r => u.reprs.built.find? p = some r) sig f) :
    (funcReprOf sig).run.run u = (.ok f, u) :=
  (ReprM.ends_funcReprOf_recorded h).mp (ends_onReprs.mp (ends_self (funcReprOf sig) u))

theorem gives_onReprs {α : Type} {f : Catalog → ReprM α} {u : Universe}
    {Q : α → ReprTable → Prop} (hf : (beside A u).Gives u.reprs (f u.catalog) Q) :
    (stepping A).Gives u (onReprs f) fun a u' => Q a u'.reprs ∧ u' = { u with reprs := u'.reprs } :=
  ends_onReprs.mpr (hf.mono fun _ _ _ hQ => ⟨hQ, rfl⟩)

section Building

variable (hA : Act.building ⊆ A)
include hA

/-- Building is one step. -/
theorem gives_build_beside (u : Universe) (ty : TypeId) {t : ReprTable}
    (h : Sound { u with reprs := t }) :
    (beside A u).Gives t (ReprM.reprOf u.catalog ty) fun r t' => t'.built.find? ty = some r := by
  have hgives := h.gives_reprOf ty
  unfold Effect.Gives Ends at hgives ⊢
  rcases hrun : (ReprM.reprOf u.catalog ty).run.run t with ⟨e | r, t'⟩
  · rw [hrun] at hgives
    obtain ⟨⟨name, rfl⟩, -⟩ := hgives
    exact .single ⟨.breakOff, ⟨hA (by simp [Act.building]), fun _ => rfl⟩, .breakOff ty _ t' hrun⟩
  · rw [hrun] at hgives
    exact ⟨.single ⟨.build, ⟨hA (by simp [Act.building]), nofun⟩, .build ty r t' hrun⟩, hgives.2⟩

theorem gives_reprOf {u : Universe} (h : Sound u) (ty : TypeId) :
    (stepping A).Gives u (reprOf ty) fun r u' => u'.reprs.built.find? ty = some r ∧
      u' = { u with reprs := u'.reprs } :=
  gives_onReprs (Q := fun r t => t.built.find? ty = some r) (gives_build_beside hA u ty h)

theorem gives_funcReprOf {u : Universe} (h : Sound u) (sig : Signature) :
    (stepping A).Gives u (funcReprOf sig) fun f u' =>
      FuncShape (fun p r => u'.reprs.built.find? p = some r) sig f := by
  refine (gives_onReprs (Q := fun f t => FuncShape (fun p r => t.built.find? p = some r) sig f)
    ?_).mono fun _ _ _ hf => hf.1
  exact Effect.gives_funcReprWith (F := beside A u) (R := fun p r t => t.built.find? p = some r) h
    (fun p _ t ht => gives_build_beside hA u p ht) fun p r t₁ t₂ hr h₁ s => find?_mono h₁ s hr

theorem bounds_reprOf (ty : TypeId) : (stepping A).Bounds (reprOf ty) :=
  fun _ h => (gives_reprOf hA h ty).mono fun _ _ _ _ => trivial

theorem bounds_funcReprOf (sig : Signature) : (stepping A).Bounds (funcReprOf sig) :=
  Effect.Gives.bounds fun _ h => gives_funcReprOf hA h sig

end Building

theorem gives_pointerToRepr (hA : .intern ∈ A) {u : Universe} {repr : ReprId}
    (hr : repr.index < u.reprs.size) :
    (stepping A).Gives u (pointerToRepr repr) fun _ _ => True :=
  gives_of_step rfl hA nofun (.intern repr hr) trivial

theorem bounds_allocFunc (hA : .allocate ∈ A) : (stepping A).Bounds allocFunc :=
  fun _ _ => gives_of_step rfl hA nofun .allocate trivial

/-- The runtime views of signatures mention recorded representations only. -/
theorem lt_size_of_funcShape {u : Universe} (h : Sound u) {sig : Signature} {f : FuncRepr}
    (hf : FuncShape (fun p r => u.reprs.built.find? p = some r) sig f) :
    ∀ p ∈ f.parts, p.index < u.reprs.size := by
  intro p hp
  have hrecorded : ∃ ty, u.reprs.built.find? ty = some p := by
    rcases List.mem_append.mp hp with hp | hp
    · obtain ⟨ty, -, hty⟩ := exists_of_mem_forall₂ hf.params hp
      exact ⟨ty, hty⟩
    · obtain ⟨ty, -, hty⟩ := exists_of_mem_forall₂ hf.results hp
      exact ⟨ty, hty⟩
  obtain ⟨ty, hty⟩ := hrecorded
  exact h.lt_size hty

/-- How the method `name` of `ty` is bound to `func`: what its receiver and its signature mention is
represented, and the callable is bound to the representation of the receiver. -/
inductive BindsMethod (u : Universe) (ty : TypeId) (name : String) (func : FuncId) :
    Universe → Prop where
  | bound (d : NamedDecl) (m : MethodDecl) (recv : TypeId) (u₁ : Universe) (r : ReprId)
      (f : FuncRepr) : u.catalog.decl? ty = some (.named d) → m ∈ d.methods → m.name = name →
      m.sig.recv = some recv → Steps (Act.building \ {.breakOff}) u u₁ →
      u₁.reprs.built.find? recv = some r →
      FuncShape (fun p r => u₁.reprs.built.find? p = some r) m.sig f →
      BindsMethod u ty name func (u₁.bindCallable r name ⟨f.addReceiver r, func⟩)

/-- Binding a method binds it, to the representation that its callable takes first, or only builds
representations. -/
theorem ends_bindMethod_callable {u : Universe} (h : Sound u) (ty : TypeId) (name : String)
    (func : FuncId) : Ends (bindMethod ty name func) u
      (fun callable u' => BindsMethod u ty name func u' ∧ ∃ r u₁,
        Steps (Act.building \ {.breakOff}) u u₁ ∧ callable.ty.params.head? = some r ∧
        u' = u₁.bindCallable r name callable)
      ((stepping Act.building).fail · u) := by
  unfold bindMethod
  rw [ends_bind, ends_get]
  dsimp only
  split
  · exact .refl
  next d hd =>
  rw [Catalog.named?_eq_some] at hd
  split
  · exact .refl
  next m hm =>
  obtain ⟨recv, hrecv, -⟩ := h.methods.receiver ty d hd m (List.mem_of_find?_eq_some hm)
  rw [hrecv, Option.getD_some]
  refine ends_bind.mpr (Ends.mono (gives_reprOf subset_rfl h recv) (fun r u₁ ⟨s₁, hr, _⟩ => ?_)
    fun _ _ hfail => hfail)
  have h₁ := Steps.sound s₁ h
  refine ends_bind.mpr (Ends.mono (gives_funcReprOf subset_rfl h₁ m.sig) (fun f u₂ ⟨s₂, hf⟩ => ?_)
    fun _ _ hfail => (stepping Act.building).trans_fail s₁ hfail)
  have hname : m.name = name := by simpa using List.find?_some hm
  refine ⟨?_, r, u₂, s₁.trans s₂, rfl, rfl⟩
  exact .bound d m recv u₂ r f hd (List.mem_of_find?_eq_some hm) hname hrecv (s₁.trans s₂)
    (find?_mono h₁ s₂ hr) hf

theorem ends_bindMethod {u : Universe} (h : Sound u) (ty : TypeId) (name : String)
    (func : FuncId) : Ends (bindMethod ty name func) u
      (fun _ u' => BindsMethod u ty name func u')
      ((stepping Act.building).fail · u) :=
  Ends.mono (ends_bindMethod_callable h ty name func) (fun _ _ hb => hb.1) fun _ _ hfail => hfail

/-- A bound method is callable with what is represented. -/
theorem BindsMethod.steps {u u' : Universe} (h : Sound u) {ty : TypeId} {name : String}
    {func : FuncId} (hb : BindsMethod u ty name func u') (hA : Act.building ⊆ A)
    (hbind : .bind ∈ A) : Steps (A \ {.breakOff}) u u' := by
  obtain ⟨d, m, recv, u₁, r, f, -, -, -, -, s, hr, hf⟩ := hb
  have h₁ := Steps.sound s h
  refine .tail (stepping_ok_mono hA s) ⟨.bind, ⟨hbind, nofun⟩, .bind r name _ fun p hp => ?_⟩
  rcases List.mem_cons.mp hp with rfl | hp
  · exact h₁.lt_size hr
  · exact lt_size_of_funcShape h₁ hf p hp

theorem bounds_bindMethod (hA : Act.building ⊆ A) (hbind : .bind ∈ A) (ty : TypeId)
    (name : String) (func : FuncId) : (stepping A).Bounds (bindMethod ty name func) :=
  fun _ h => Ends.mono (ends_bindMethod h ty name func)
    (fun _ _ hb => ⟨hb.steps h hA hbind, trivial⟩)
    fun _ _ hfail => stepping_fail_mono hA hfail

/-! ### Native interfaces -/

section Native

variable {u : Universe} {ty : TypeId} {methods : List NativeMethod}

/-- The universe in which `ty` has a new native representation. -/
def withNative (u : Universe) (ty : TypeId) (methods : List NativeMethod) : Universe :=
  let name := if u.catalog.isNamed ty then some (u.catalog.typeName ty) else none
  let made := u.reprs.push ⟨name, .interface (sortNative methods), .empty⟩
  { u with reprs := made.2.record ty made.1 }

theorem prolongs_withNative (fresh : u.reprs.built.find? ty = none) :
    ReprTable.Prolongs u.reprs (u.withNative ty methods).reprs :=
  prolongs_native fresh _ _

theorem find?_withNative_self :
    (u.withNative ty methods).reprs.built.find? ty = some ⟨u.reprs.size⟩ :=
  Assoc.find?_set_self ..

theorem find?_withNative_of_ne {n : TypeId} (h : n ≠ ty) :
    (u.withNative ty methods).reprs.built.find? n = u.reprs.built.find? n :=
  Assoc.find?_set_of_ne _ h _

theorem kind_withNative :
    (u.withNative ty methods).reprs.kind ⟨u.reprs.size⟩ = .interface (sortNative methods) :=
  ReprTable.kind_of_get? (ReprTable.get?_push_next u.reprs _)

theorem step_withNative (iface : (u.catalog.interface? ty).isSome)
    (fresh : u.reprs.built.find? ty = none)
    (inRange : ∀ m ∈ methods, ∀ p ∈ m.ty.parts, p.index < u.reprs.size) :
    Step u .native (u.withNative ty methods) :=
  .native ty _ _ iface fresh fun m hm => inRange m (List.mem_mergeSort.mp hm)

/-- **Registering listed methods** gives an interface that is not recorded a new native
representation, and otherwise fails and does nothing. -/
theorem ends_registerNativeWith_iff {V : ReprId → Universe → Prop}
    {X : TypeError → Universe → Prop} : Ends (registerNativeWith ty methods) u V X ↔
      (u.catalog.interface? ty = none → X (.notInterface (u.catalog.typeName ty)) u) ∧
      ∀ d, u.catalog.interface? ty = some d →
        (∀ r, u.reprs.built.find? ty = some r →
          X (.reprAlreadyBuilt (u.catalog.typeName ty)) u) ∧
        (u.reprs.built.find? ty = none → V ⟨u.reprs.size⟩ (u.withNative ty methods)) := by
  unfold registerNativeWith
  rw [ends_bind, ends_get]
  cases hd : u.catalog.interface? ty with
  | none => simp [hd]
  | some d =>
    cases hr : u.reprs.built.find? ty with
    | some r => simp [hd, hr, Assoc.contains]
    | none =>
      simp only [hd, hr, Assoc.contains, Option.isNone_some, Option.isSome_none,
        Bool.false_eq_true, if_false, ends_bind, ends_set, ends_pure]
      simp [withNative, ReprTable.push, ReprTable.size]

theorem gives_registerNativeWith (hA : .native ∈ A)
    (inRange : ∀ m ∈ methods, ∀ p ∈ m.ty.parts, p.index < u.reprs.size) :
    (stepping A).Gives u (registerNativeWith ty methods) fun _ _ => True := by
  refine ends_registerNativeWith_iff.mpr ⟨fun _ => .refl, fun d hd => ⟨fun _ _ => .refl, ?_⟩⟩
  intro fresh
  have step := step_withNative (by rw [hd]; rfl) fresh inRange
  exact ⟨.single ⟨.native, ⟨hA, nofun⟩, step⟩, trivial⟩

end Native

end Stepping

end Universe

/-- The methods of an interface that a native representation made from its declaration shows. -/
def InterfaceDecl.exported (d : InterfaceDecl) : List MethodDecl :=
  d.complete.filter fun m => Text.isExported m.name

namespace Universe

section NativeMethods

variable {A : Set Act} {u : Universe} {ty : TypeId} {d : InterfaceDecl}

/-- The methods of a declaration as a native interface lists them. -/
def nativeMethods (d : InterfaceDecl) : UniverseM (List NativeMethod) :=
  d.exported.mapM fun m => do
    let f ← funcReprOf m.sig
    return ⟨m.name, f⟩

/-- **Registering an interface** makes its methods first, and then registers them. -/
theorem ends_registerNative_iff {V : ReprId → Universe → Prop}
    {X : TypeError → Universe → Prop} : Ends (registerNative ty) u V X ↔
      (u.catalog.interface? ty = none → X (.notInterface (u.catalog.typeName ty)) u) ∧
      ∀ d, u.catalog.interface? ty = some d →
        Ends (nativeMethods d) u
          (fun methods u₁ => Ends (registerNativeWith ty methods) u₁ V X) X := by
  unfold registerNative
  rw [ends_bind, ends_get]
  cases hd : u.catalog.interface? ty with
  | none => simp [hd]
  | some d =>
    simp only [hd]
    rw [ends_bind]
    simp [nativeMethods, InterfaceDecl.exported]

/-- A native interface gets the names of declared methods, and views that mention what is
recorded. -/
theorem gives_nativeMethods (hA : Act.building ⊆ A) (h : Sound u) (d : InterfaceDecl) :
    (stepping A).Gives u (nativeMethods d) fun methods u' =>
      List.Forall₂ (fun m n => n.name = m.name ∧
        FuncShape (fun p r => u'.reprs.built.find? p = some r) m.sig n.ty) d.exported methods := by
  refine Effect.gives_mapM (F := stepping A) (R := fun (m : MethodDecl) (n : NativeMethod) u' =>
      n.name = m.name ∧ FuncShape (fun p r => u'.reprs.built.find? p = some r) m.sig n.ty) h
    (fun m _ u₁ h₁ => ?_) fun m n u₁ u₂ hf h₁ s =>
      ⟨hf.1, hf.2.mono fun p _ r => find?_mono h₁ s⟩
  refine (gives_funcReprOf hA h₁ m.sig).bind fun f u₂ s hf => ?_
  exact Effect.gives_pure (Steps.sound s h₁) ⟨rfl, hf⟩

/-- The methods mention representations that exist. -/
theorem parts_lt_of_nativeMethods (h : Sound u) {d : InterfaceDecl} {methods : List NativeMethod}
    (hall : List.Forall₂ (fun m n => n.name = m.name ∧
      FuncShape (fun p r => u.reprs.built.find? p = some r) m.sig n.ty) d.exported methods) :
    ∀ n ∈ methods, ∀ p ∈ n.ty.parts, p.index < u.reprs.size := by
  intro n hn
  obtain ⟨m, -, -, hf⟩ := exists_of_mem_forall₂ hall hn
  exact lt_size_of_funcShape h hf

theorem bounds_registerNative (hA : Act.building ⊆ A) (hnative : .native ∈ A) (ty : TypeId) :
    (stepping A).Bounds (registerNative ty) := by
  intro u h
  refine ends_registerNative_iff.mpr ⟨fun _ => .refl, fun d _ => ?_⟩
  refine Ends.mono (gives_nativeMethods hA h d) (fun methods u' ⟨s, hall⟩ => ?_) fun _ _ hf => hf
  have h' := Steps.sound s h
  refine Ends.mono (gives_registerNativeWith hnative (parts_lt_of_nativeMethods h' hall))
    (fun _ _ ⟨s', _⟩ => ⟨s.trans s', trivial⟩) fun _ _ hf => (stepping A).trans_fail s hf

end NativeMethods

end Universe

end ScriptEngine
