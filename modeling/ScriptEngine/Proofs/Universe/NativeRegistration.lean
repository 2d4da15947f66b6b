import ScriptEngine.Proofs.Repr.Needed
import ScriptEngine.Proofs.Universe.NativeLayouts

/-!
When an interface can be registered natively.

The methods that a native representation lists are made from the declaration before it is known
whether the interface is represented already. Their signatures are represented first, which records
all that they need, and if that includes the interface, it has a representation by the time
of the question: that of its emulation. Main statement: an interface that is not recorded is refused
as represented exactly if the signatures of its exported methods need it (`registerNative_answers`).
-/

namespace ScriptEngine

/-- The types in the signatures that a native representation shows. -/
def InterfaceDecl.shownTypes (d : InterfaceDecl) : List TypeId :=
  d.exported.flatMap fun m => m.sig.params ++ m.sig.results

theorem InterfaceDecl.mem_shownTypes {d : InterfaceDecl} {p : TypeId} :
    p ∈ d.shownTypes ↔ ∃ m ∈ d.exported, p ∈ m.sig.params ++ m.sig.results :=
  List.mem_flatMap

namespace Universe

/-! ### Changes of the representations only -/

/-- Representations change within an effect, and the catalog stays. -/
def onlyReprs (c : Catalog) (F : Effect TypeError ReprTable) : Effect TypeError Universe where
  inv u := u.catalog = c ∧ F.inv u.reprs
  ok u u' := u'.catalog = u.catalog ∧ F.ok u.reprs u'.reprs
  fail e u u' := F.fail e u.reprs u'.reprs
  refl h := ⟨rfl, F.refl h.2⟩
  keep h hinv := ⟨h.1.trans hinv.1, F.keep h.2 hinv.2⟩
  trans h h' := ⟨h'.1.trans h.1, F.trans h.2 h'.2⟩
  trans_fail h h' := F.trans_fail h.2 h'

section OnlyReprs

variable {c : Catalog} {F : Effect TypeError ReprTable} {d : InterfaceDecl}

theorem bounds_onReprs {α : Type} {f : Catalog → ReprM α} (hf : F.Bounds (f c)) :
    (onlyReprs c F).Bounds (onReprs f) := by
  rintro u ⟨rfl, h⟩
  exact ends_onReprs.mpr (Ends.mono (hf u.reprs h) (fun _ _ hok => ⟨⟨rfl, hok.1⟩, trivial⟩)
    fun _ _ hfail => hfail)

/-- Methods are made within the bounds of building what they show. -/
theorem bounds_nativeMethods (hpart : ∀ p ∈ d.shownTypes, F.Bounds (ReprM.reprOf c p)) :
    (onlyReprs c F).Bounds (nativeMethods d) := by
  refine Effect.bounds_mapM fun m hm => ?_
  have hfunc : (onlyReprs c F).Bounds (funcReprOf m.sig) :=
    bounds_onReprs (Effect.bounds_funcReprWith fun p hp =>
      hpart p (InterfaceDecl.mem_shownTypes.mpr ⟨m, hm, hp⟩))
  exact hfunc.bind fun _ => Effect.bounds_pure _

/-- Making methods relates the representations as building does. -/
theorem bounds_nativeMethods_building (wf : c.WellFormed) :
    (onlyReprs c (buildEffect wf [])).Bounds (nativeMethods d) :=
  bounds_nativeMethods fun p _ => Effect.Gives.bounds fun _ h => gives_build wf [] p h

end OnlyReprs

/-! ### What is recorded before registering -/

section Registration

variable {u u' : Universe} {ty : TypeId} {d : InterfaceDecl} {natives : List NativeMethod}

/-- Where the methods are made, all that they need is recorded. -/
theorem recorded_of_nativeMethods (h : Sound u)
    (hrun : (nativeMethods d).run.run u = (.ok natives, u')) :
    Sound u' ∧ u'.catalog = u.catalog ∧ Builds True u.catalog [] u.reprs u'.reprs ∧
      ∀ n, Needs u.catalog u.reprs d.shownTypes n → ∃ r, u'.reprs.built.find? n = some r := by
  obtain ⟨⟨hcatalog, hb⟩, -⟩ := (bounds_nativeMethods_building h.catalog u ⟨rfl, h.reprs⟩).ok hrun
  obtain ⟨s, hshapes⟩ := (gives_nativeMethods subset_rfl h d).ok hrun
  refine ⟨Steps.sound s h, hcatalog, hb, fun n => hb.recorded_of_needs fun p hp => ?_⟩
  obtain ⟨m, hm, hp⟩ := InterfaceDecl.mem_shownTypes.mp hp
  obtain ⟨n, -, -, hf⟩ := exists_of_mem_forall₂ hshapes.flip hm
  exact hf.exists_part hp

/-- **What is recorded once the methods are made** is what was recorded and what they need, if all
needed names stand for types. -/
theorem recorded_iff_of_nativeMethods (h : Sound u) (hd : u.catalog.interface? ty = some d)
    (hready : Ready u.catalog u.reprs d.shownTypes) :
    ∃ natives u₁, (nativeMethods d).run.run u = (.ok natives, u₁) ∧
      ∀ n, (∃ r, u₁.reprs.built.find? n = some r) ↔
        (∃ r, u.reprs.built.find? n = some r) ∨ Needs u.catalog u.reprs d.shownTypes n := by
  have hstart : ∀ p ∈ d.shownTypes, p.index < u.catalog.size := by
    intro p hp
    obtain ⟨m, hm, hp⟩ := InterfaceDecl.mem_shownTypes.mp hp
    exact h.catalog.complete_lt hd (List.mem_filter.mp hm).1 hp
  have hbounds : (onlyReprs u.catalog (recording u.catalog
      (Needs u.catalog u.reprs d.shownTypes))).Bounds (nativeMethods d) :=
    bounds_nativeMethods fun p hp => bounds_build_recording h.catalog [] p (.start hp)
  obtain ⟨natives, u₁, hrun, ⟨-, -, honly⟩, -⟩ :=
    (hbounds u ⟨rfl, closed_needs h.catalog hstart hready⟩).exists_ok
  obtain ⟨-, -, hb, hneeded⟩ := recorded_of_nativeMethods h hrun
  refine ⟨natives, u₁, hrun, fun n => ⟨fun ⟨r, hr⟩ => ?_, ?_⟩⟩
  · by_cases hneeds : Needs u.catalog u.reprs d.shownTypes n
    · exact .inr hneeds
    · exact .inl ⟨r, (honly n hneeds).symm.trans hr⟩
  · rintro (⟨r, hr⟩ | hneeds)
    · exact ⟨r, hb.extended.built n r hr⟩
    · exact hneeded n hneeds

/-- A name that is recorded stands for a type. -/
theorem Sound.underlying_ne_none (h : Sound u) {n : NamedDecl} {r : ReprId}
    (hr : u.reprs.built.find? ty = some r) (hn : u.catalog.decl? ty = some (.named n)) :
    n.underlying ≠ none := by
  intro hnone
  exact h.kindOf_ne_invalid hr (by simp [Catalog.kindOf, Catalog.underlying, hn, hnone])

/-- If a needed name stands for nothing yet, making the methods fails for that reason. -/
theorem ends_nativeMethods_of_not_ready (h : Sound u)
    (hready : ¬ Ready u.catalog u.reprs d.shownTypes) :
    Ends (nativeMethods d) u (fun _ _ => False) fun e _ => ∃ name, e = .incompleteType name := by
  have hbuilding := bounds_nativeMethods_building (d := d) h.catalog u ⟨rfl, h.reprs⟩
  rcases hrun : (nativeMethods d).run.run u with ⟨e | natives, u'⟩
  · exact (ends_of_error hrun).mpr ((ends_of_error hrun).mp hbuilding).1
  refine absurd (fun n e hneeds hn hnone => ?_) hready
  obtain ⟨h', hcatalog, -, hneeded⟩ := recorded_of_nativeMethods h hrun
  obtain ⟨r, hr⟩ := hneeded n hneeds
  exact h'.underlying_ne_none hr (by rwa [hcatalog]) hnone

/-- An interface is registered with the methods that were made. -/
theorem ends_registerNative_made (hd : u.catalog.interface? ty = some d)
    (hmade : (nativeMethods d).run.run u = (.ok natives, u')) {V : ReprId → Universe → Prop}
    {X : TypeError → Universe → Prop} (hends : Ends (registerNativeWith ty natives) u' V X) :
    Ends (registerNative ty) u V X := by
  refine ends_registerNative_iff.mpr ⟨fun hnone => ?_, fun d' hd' => ?_⟩
  · cases hd.symm.trans hnone
  · obtain rfl := Option.some.inj (hd.symm.trans hd')
    exact (ends_of_ok hmade).mpr hends

/-- An interface that has a representation is not registered. -/
theorem ends_registerNativeWith_recorded (hd : u.catalog.interface? ty = some d) {r : ReprId}
    (hr : u.reprs.built.find? ty = some r) (natives : List NativeMethod) :
    Ends (registerNativeWith ty natives) u (fun _ _ => False) fun e u' =>
      e = .reprAlreadyBuilt (u.catalog.typeName ty) ∧ u' = u := by
  refine ends_registerNativeWith_iff.mpr ⟨fun hnone => ?_, fun _ _ => ⟨fun _ _ => ⟨rfl, rfl⟩,
    fun fresh => ?_⟩⟩
  · cases hd.symm.trans hnone
  · cases hr.symm.trans fresh

end Registration

/-- **What registering an interface natively answers.** If a needed name does not stand for a type
yet, that is the error. Otherwise the interface is refused if it is recorded already or if the
signatures of its own exported methods need it, and then it is recorded in the end; in all other
cases it is registered, and from then on represented by an interface that lists its exported methods
with the representations of what they show. -/
theorem registerNative_answers {u : Universe} {ty : TypeId} {d : InterfaceDecl} (h : u.Reachable)
    (hd : u.catalog.interface? ty = some d) :
    (¬ Ready u.catalog u.reprs d.shownTypes →
      ∃ name u', (registerNative ty).run.run u = (.error (.incompleteType name), u')) ∧
    (Ready u.catalog u.reprs d.shownTypes →
      (∃ r, u.reprs.built.find? ty = some r) ∨ Needs u.catalog u.reprs d.shownTypes ty →
        ∃ r u', (registerNative ty).run.run u =
            (.error (.reprAlreadyBuilt (u.catalog.typeName ty)), u') ∧
          (reprOf ty).run.run u' = (.ok r, u')) ∧
    (Ready u.catalog u.reprs d.shownTypes →
      u.reprs.built.find? ty = none → ¬ Needs u.catalog u.reprs d.shownTypes ty →
        ∃ r u' listed, (registerNative ty).run.run u = (.ok r, u') ∧
          (reprOf ty).run.run u' = (.ok r, u') ∧ u'.Native ty d r listed) := by
  refine ⟨fun hready => ?_, fun hready hrefused => ?_, fun hready hfresh hneedless => ?_⟩
  · have hends : Ends (registerNative ty) u (fun _ _ => False)
        fun e _ => ∃ name, e = .incompleteType name := by
      refine ends_registerNative_iff.mpr ⟨fun hnone => ?_, fun d' hd' => ?_⟩
      · cases hd.symm.trans hnone
      · obtain rfl := Option.some.inj (hd.symm.trans hd')
        exact Ends.mono (ends_nativeMethods_of_not_ready h.sound hready) (fun _ _ => False.elim)
          fun _ _ he => he
    obtain ⟨_, u', hrun, name, rfl⟩ := hends.exists_error
    exact ⟨name, u', hrun⟩
  · obtain ⟨natives, u₁, hmade, hrecorded⟩ := recorded_iff_of_nativeMethods h.sound hd hready
    obtain ⟨-, hcatalog, -, -⟩ := recorded_of_nativeMethods h.sound hmade
    obtain ⟨r, hr⟩ := (hrecorded ty).mpr hrefused
    obtain ⟨_, _, hrun, rfl, rfl⟩ := (ends_registerNative_made hd hmade
      (ends_registerNativeWith_recorded (by rw [hcatalog, hd]) hr natives)).exists_error
    rw [hcatalog] at hrun
    exact ⟨r, _, hrun, run_reprOf_recorded hr⟩
  · obtain ⟨natives, u₁, hmade, hrecorded⟩ := recorded_iff_of_nativeMethods h.sound hd hready
    obtain ⟨h₁, hcatalog, -, -⟩ := recorded_of_nativeMethods h.sound hmade
    have hfresh₁ : u₁.reprs.built.find? ty = none := by
      refine Option.eq_none_iff_forall_ne_some.mpr fun r hr => ?_
      rcases (hrecorded ty).mp ⟨r, hr⟩ with ⟨x, hx⟩ | hneeds
      · cases hfresh.symm.trans hx
      · exact hneedless hneeds
    have inRange := parts_lt_of_nativeMethods h₁
      ((gives_nativeMethods subset_rfl h.sound d).ok hmade).2
    obtain ⟨r, u', hrun, -, -⟩ := (ends_registerNative_made hd hmade
      (ends_registerNativeWith_fresh (by rw [hcatalog, hd]) hfresh₁ inRange)).exists_ok
    obtain ⟨listed, hnative⟩ := (ends_registerNative_listed h.sound h.ordered hd).ok hrun
    exact ⟨r, u', listed, hrun, run_reprOf_recorded hnative.built, hnative⟩

/-- `type I interface { M(*N) }` with `type N struct { next I }`, and `interface { Count(int) }`. -/
def circular : Universe := after [
  .basic .int,
  .declareNamed "I" none,
  .declareNamed "N" none,
  .pointerTo ⟨2⟩,
  .structOf [⟨"next", ⟨1⟩, false⟩],
  .setUnderlying ⟨2⟩ ⟨4⟩,
  .interfaceOf [⟨"M", none, ⟨none, [⟨3⟩], [], false⟩⟩] [],
  .setUnderlying ⟨1⟩ ⟨5⟩,
  .interfaceOf [⟨"Count", none, ⟨none, [⟨0⟩], [], false⟩⟩] []]

/-- `I` is refused although nothing is recorded, since `M` needs `N`, and `N` needs `I`. What
`Count` needs is `int`. -/
theorem registerNative_answers_circular : circular.Reachable ∧
    (∀ ty, circular.reprs.built.find? ty = none) ∧
    (∃ r u', (registerNative ⟨1⟩).run.run circular = (.error (.reprAlreadyBuilt "I"), u') ∧
      (reprOf ⟨1⟩).run.run u' = (.ok r, u')) ∧
    ∃ r u' f, (registerNative ⟨6⟩).run.run circular = (.ok r, u') ∧
      (reprOf ⟨6⟩).run.run u' = (.ok r, u') ∧ u'.reprs.kind r = .interface [⟨"Count", f⟩] := by
  have hreach : circular.Reachable := reachable_after (by cbv)
  have hnone : ∀ ty, circular.reprs.built.find? ty = none := by
    intro ty
    rw [show circular.reprs.built = .empty by cbv]
    rfl
  have hready : ∀ start, Ready circular.catalog circular.reprs start :=
    ready_of_finished (by cbv)
  let m : MethodDecl := ⟨"M", none, ⟨some ⟨5⟩, [⟨3⟩], [], false⟩⟩
  let count : MethodDecl := ⟨"Count", none, ⟨some ⟨6⟩, [⟨0⟩], [], false⟩⟩
  have hI : circular.catalog.interface? ⟨1⟩ = some ⟨[m], [], [m]⟩ := by cbv
  have hCount : circular.catalog.interface? ⟨6⟩ = some ⟨[count], [], [count]⟩ := by cbv
  refine ⟨hreach, hnone, ?_, ?_⟩
  · obtain ⟨-, hrefused, -⟩ := registerNative_answers hreach hI
    have hpointer : Needs circular.catalog circular.reprs
        (InterfaceDecl.shownTypes ⟨[m], [], [m]⟩) ⟨3⟩ := .start (by decide +kernel)
    have hN := hpointer.part (hnone _) (d := .pointer ⟨2⟩) (by cbv) (List.mem_singleton_self _)
    have hstruct := hN.underlying (hnone _) (d := ⟨"N", none, some ⟨4⟩, []⟩) (v := ⟨4⟩) (by cbv) rfl
    have hI := hstruct.part (hnone _) (d := .struct [⟨"next", ⟨1⟩, false⟩]) (by cbv)
      (List.mem_singleton_self _)
    rw [← show circular.catalog.typeName ⟨1⟩ = "I" by cbv]
    exact hrefused (hready _) (.inr hI)
  · obtain ⟨-, -, hregistered⟩ := registerNative_answers hreach hCount
    have hint : ∀ n, Needs circular.catalog circular.reprs
        (InterfaceDecl.shownTypes ⟨[count], [], [count]⟩) n → n = ⟨0⟩ := by
      have hshown : InterfaceDecl.shownTypes ⟨[count], [], [count]⟩ = [⟨0⟩] := by
        decide +kernel
      have hdecl : circular.catalog.decl? ⟨0⟩ = some (.basic .int) := by cbv
      intro n hneeds
      induction hneeds with
      | start hmem =>
        rw [hshown] at hmem
        exact List.mem_singleton.mp hmem
      | part _ _ hd hp ih =>
        subst ih
        cases hdecl.symm.trans hd
        cases hp
      | underlying _ _ hd _ ih =>
        subst ih
        cases hdecl.symm.trans hd
    obtain ⟨r, u', listed, hrun, hrepr, hnative⟩ := hregistered (hready _) (hnone _)
      fun hneeds => by cases hint _ hneeds
    have hmethods := hnative.methods
    rw [show InterfaceDecl.exported ⟨[count], [], [count]⟩ = [count] by decide +kernel] at hmethods
    obtain ⟨⟨name, f⟩, _, ⟨rfl, -⟩, hrest, rfl⟩ := List.forall₂_cons_left_iff.mp hmethods
    cases hrest
    exact ⟨r, u', f, hrun, hrepr, hnative.kind⟩

end Universe

end ScriptEngine
