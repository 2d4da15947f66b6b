import Mathlib
import ScriptEngine.Proofs.Universe.Consistency

/-!
When two types have one representation.

In a `Plain` universe no operation failed for want of an underlying type and no interface got a
native representation. Then everything that is recorded was made from what is recorded (`Whole`),
and two types have one representation exactly if they are identical (`Whole.eq_iff_identical`).
From the declarations to the representations, this is by uniqueness of what represents a
declaration. The way back goes down the catalog and reads each declaration off its representation;
it needs that no type is represented by a struct with a header, which is how an emulated interface
is told from a pointer to a struct.
-/

namespace ScriptEngine

/-- Every interface is represented by its emulation. -/
def ReprTable.Emulated (t : ReprTable) : Prop :=
  ∀ ty r methods, t.built.find? ty = some r → t.kind r ≠ .interface methods

/-- Everything that is recorded was made from what is recorded. -/
structure Whole (c : Catalog) (t : ReprTable) : Prop where
  catalog : c.WellFormed
  intact : Intact c [] t
  made : ∀ ty r, t.built.find? ty = some r → Made c t (fun p x => t.built.find? p = some x) ty r

namespace Whole

variable {c : Catalog} {t : ReprTable} {a b ty : TypeId} {r ra rb : ReprId}

/-- What is recorded has the structure of something that represents an unnamed declaration. -/
theorem exists_represents (h : Whole c t) (hr : t.built.find? ty = some r) :
    ∃ d x, Represents (fun p x => t.built.find? p = some x) c t d x ∧ t.kind r = t.kind x := by
  cases h.made ty r hr with
  | unnamed d _ _ hrep => exact ⟨d, r, hrep, rfl⟩
  | named d u source hd hu hsource hkind _ =>
    cases h.made u source hsource with
    | unnamed e _ _ hrep => exact ⟨e, source, hrep, hkind⟩
    | named n _ _ hn =>
      have hunnamed := (h.catalog.underlying_unnamed ty d hd u hu).2
      rw [Catalog.isNamed_iff.mpr ⟨n, hn⟩] at hunnamed
      cases hunnamed

/-- The header of an emulated interface represents no type. -/
theorem kind_ne_header (h : Whole c t) (hr : t.built.find? ty = some r) : t.kind r ≠ .header := by
  obtain ⟨d, x, hrep, hkind⟩ := h.exists_represents hr
  rw [hkind]
  cases hrep with
  | basic hx | pointer _ hx | slice _ hx | func _ hx | struct _ hx | interface _ _ _ _ _ _ hx =>
    rw [hx.kind_eq]
    nofun

/-- Nor does a struct with such a header. -/
theorem header_notMem (h : Whole c t) (hr : t.built.find? ty = some r) {fields : List ReprField}
    (hkind : t.kind r = .struct fields) : ∀ f ∈ fields, t.kind f.repr ≠ .header := by
  intro f hf
  obtain ⟨d, x, hrep, hx⟩ := h.exists_represents hr
  rw [hkind] at hx
  cases hrep with
  | struct hfields hinterned =>
    rw [hinterned.kind_eq] at hx
    cases hx
    obtain ⟨g, -, hshape⟩ := exists_of_mem_forall₂ hfields hf
    exact h.kind_ne_header hshape.repr
  | basic hi | pointer _ hi | slice _ hi | func _ hi | interface _ _ _ _ _ _ hi =>
    rw [hi.kind_eq] at hx
    cases hx

theorem eq_of_identical (h : Whole c t) (hab : Identical c a b)
    (ha : t.built.find? a = some ra) (hb : t.built.find? b = some rb) : ra = rb := by
  induction hab generalizing ra rb with
  | named hn => exact Option.some.inj (ha.symm.trans hb)
  | unnamed hR hd he halike ih =>
    have hrep : ∀ {ty d r}, c.decl? ty = some d → (∀ n, d ≠ .named n) →
        t.built.find? ty = some r →
          Represents (fun p x => t.built.find? p = some x) c t d r := by
      intro ty d r hd hn hr
      cases h.made ty r hr with
      | unnamed e he _ hrep =>
        cases hd.symm.trans he
        exact hrep
      | named n _ _ he =>
        cases hd.symm.trans he
        exact absurd rfl (hn n)
    exact Represents.eq_of_alike halike (fun p q _ _ hpq hp hq => ih p q hpq hp hq)
      (fun p q hpq => (hR p q hpq).named?_eq) (hrep hd (fun n => (halike.not_named n).1) ha)
      (hrep he (fun n => (halike.not_named n).2) hb)

/-- By induction on the place of the first type in the catalog. -/
theorem identical_of_eq (h : Whole c t) (ha : t.built.find? a = some r)
    (hb : t.built.find? b = some r) : Identical c a b := by
  induction hi : a.index using Nat.strong_induction_on generalizing a b r with
  | _ n ih =>
    subst hi
    cases h.made a r ha with
    | named d _ _ hd _ _ _ hname =>
      obtain ⟨e, he, hsome⟩ := hname
      have hab := h.intact.owner a b r e (current?_eq_some_iff.mpr (.inr ⟨rfl, ha⟩))
        (current?_eq_some_iff.mpr (.inr ⟨rfl, hb⟩)) he hsome
      subst hab
      exact .named (Catalog.isNamed_iff.mpr ⟨d, hd⟩)
    | unnamed d hd _ hrep =>
      cases h.made b r hb with
      | named _ _ _ _ _ _ _ hname =>
        obtain ⟨e, he, hsome⟩ := hname
        rw [hrep.unnamed he] at hsome
        cases hsome
      | unnamed e he _ hrep' =>
        refine identical_iff.mpr (.inr ⟨d, e, hd, he, ?_⟩)
        refine hrep.alike (fun p hp q x hpx hqx => ?_)
          (fun p x fields hx hkind => h.header_notMem hx hkind) hrep'
        exact ih p.index (h.catalog.parts_lt a d hd p hp) hpx hqx rfl

/-- **Types that are recorded have one representation exactly if they are identical.** -/
theorem eq_iff_identical (h : Whole c t) (ha : t.built.find? a = some ra)
    (hb : t.built.find? b = some rb) : ra = rb ↔ Identical c a b :=
  ⟨fun heq => h.identical_of_eq ha (heq ▸ hb), fun hab => h.eq_of_identical hab ha hb⟩

end Whole

/-! ### Universes -/

/-- The operations that give interfaces native representations. -/
def Operation.isNative : Operation → Bool
  | registerNative _ | registerNativeWith .. => true
  | _ => false

namespace Universe

/-- An operation that did not fail for want of an underlying type and did not register a native
interface. -/
def isPlain (u : Universe) (op : Operation) : Bool :=
  u.isComplete op && !(op.isNative && (u.perform op).1.isOk)

/-- The universes that such operations lead to. -/
abbrev Plain : Universe → Prop :=
  ReachableBy fun u op => u.isPlain op = true

theorem Plain.unbroken {u : Universe} (h : Plain u) : Unbroken u :=
  ReachableBy.mono (fun _ _ hop => (Bool.and_eq_true_iff.mp hop).1) h

/-! A registration that fails registers nothing. -/

theorem ends_registerNativeWith (u : Universe) (ty : TypeId) (methods : List NativeMethod) :
    Ends (registerNativeWith ty methods) u (fun _ _ => True) fun _ u' => u' = u :=
  ends_registerNativeWith_iff.mpr ⟨fun _ => rfl, fun _ _ => ⟨fun _ _ => rfl, fun _ => trivial⟩⟩

theorem ends_registerNative {u : Universe} (h : Sound u) (ty : TypeId) :
    Ends (registerNative ty) u (fun _ _ => True) fun _ u' => Steps Act.building u u' := by
  refine ends_registerNative_iff.mpr ⟨fun _ => .refl, fun d _ => ?_⟩
  refine Ends.mono (gives_nativeMethods subset_rfl h d) (fun methods u' hs => ?_)
    fun _ _ hs => Steps.mono (fun a ha => ha.1) hs
  refine Ends.mono (ends_registerNativeWith u' ty methods) (fun _ _ h => h) fun _ u'' heq => ?_
  rw [heq]
  exact Steps.mono (fun a ha => ha.1) hs.1

/-- What a plain operation does is a sequence of steps that register nothing. -/
theorem perform_steps_plain {u : Universe} (h : Sound u) {op : Operation}
    (inRange : op.InRange u) (hplain : u.isPlain op = true) :
    Steps {a | a ≠ .native} u (u.perform op).2 := by
  have hbuilding : Act.building ⊆ {a | a ≠ .native} := by
    rintro a (rfl | rfl) <;> nofun
  cases hnative : op.isNative with
  | false =>
    refine Steps.mono (fun a ha => ?_) (perform_steps h inRange)
    rintro rfl
    cases op with
    | registerNative | registerNativeWith => cases hnative
    | _ => simp [Operation.acts, Act.building, Act.resolving] at ha
  | true =>
    have hfail : ∃ e, (u.perform op).1 = .error e := by
      cases hanswer : (u.perform op).1 with
      | error e => exact ⟨e, rfl⟩
      | ok _ => simp [isPlain, hnative, hanswer, Except.isOk, Except.toBool] at hplain
    obtain ⟨e, hfail⟩ := hfail
    have hrun : op.run.run.run u = (.error e, (u.perform op).2) := Prod.ext hfail rfl
    cases op with
    | registerNative ty =>
      have hends : Ends (Operation.registerNative ty).run u (fun _ _ => True)
          fun _ u' => Steps Act.building u u' := ends_map.mpr (ends_registerNative h ty)
      exact Steps.mono hbuilding ((ends_of_error hrun).mp hends)
    | registerNativeWith ty methods =>
      have hends : Ends (Operation.registerNativeWith ty methods).run u (fun _ _ => True)
          fun _ u' => u' = u := ends_map.mpr (ends_registerNativeWith u ty methods)
      rw [(ends_of_error hrun).mp hends]
    | _ => cases hnative

/-- What is made is not a native interface. -/
theorem Sound.emulated_of_builds {whole : Prop} {u : Universe} (h : Sound u) {t : ReprTable}
    (hb : Builds whole u.catalog [] u.reprs t) (hold : u.reprs.Emulated) : t.Emulated := by
  have hunnamed : ∀ ty r, u.catalog.isNamed ty = false → t.built.find? ty = some r →
      ∀ methods, t.kind r ≠ .interface methods := by
    intro ty r hn hr methods
    rcases hb.made ty r hr with hr | hmade
    · rw [hb.extended.kind_eq (h.lt_size hr)]
      exact hold ty r methods hr
    · cases hmade with
      | unnamed d _ _ hrep =>
        obtain ⟨kind, hkind, hinterned⟩ := hrep.interned
        rw [hinterned.kind_eq]
        rintro rfl
        cases hkind
      | named d _ _ hd =>
        rw [Catalog.isNamed_iff.mpr ⟨d, hd⟩] at hn
        cases hn
  intro ty r methods hr
  rcases hb.made ty r hr with hr' | hmade
  · rw [hb.extended.kind_eq (h.lt_size hr')]
    exact hold ty r methods hr'
  · cases hmade with
    | unnamed d hd hn _ => exact hunnamed ty r hn hr methods
    | named d v source hd hv hsource hkind _ =>
      rw [hkind]
      exact hunnamed v source (h.catalog.underlying_unnamed ty d hd v hv).2 hsource methods

/-- Only registering makes a native interface. -/
theorem Step.emulated {u u' : Universe} {a : Act} (s : Step u a u') (ha : a ≠ .native)
    (h : Sound u) (hold : u.reprs.Emulated) : u'.reprs.Emulated := by
  cases s with
  | build ty r reprs run => exact h.emulated_of_builds (h.builds_of_ok run).1 hold
  | breakOff ty e reprs run => exact h.emulated_of_builds (h.builds_of_error run).2 hold
  | intern r inRange => exact h.emulated_of_builds (builds_pointerTo True h.reprs inRange) hold
  | native => exact absurd rfl ha
  | bind r name callable =>
    rw [bindCallable_eq]
    intro ty x methods hx
    show (u.reprs.bind r name callable).kind x ≠ _
    rw [ReprTable.kind_bind]
    exact hold ty x methods hx
  | declare | allocate | describe | resize | fill => exact hold

theorem Plain.emulated {u : Universe} (h : Plain u) : u.reprs.Emulated := by
  induction h with
  | empty => exact fun _ _ _ hr => by cases hr
  | step op before inRange hplain ih =>
    exact ((perform_steps_plain before.sound inRange hplain).keeps
      (P := fun v => v.reprs.Emulated) (fun ha s hv hold => s.emulated ha hv hold)
      before.sound ih).2

/-- Without placeholders, what was made was made from what is recorded. -/
theorem Sound.made_recorded {u : Universe} (h : Sound u) (hfinished : Finished u) {ty : TypeId}
    {r : ReprId} (hmade : Made u.catalog u.reprs (StandsFor False [] u.reprs) ty r) :
    Made u.catalog u.reprs (fun p x => u.reprs.built.find? p = some x) ty r := by
  refine hmade.mono rfl h.catalog (.refl _) (h.reprs.carries (.refl _)) fun p x hx => ?_
  rcases hx with hx | ⟨-, d, hd, hkind⟩
  · exact hx
  · refine absurd ?_ (hfinished x (ReprTable.lt_size_of_get? hd))
    rw [ReprTable.kind_of_get? hd, hkind]

/-- In a universe without placeholders and native interfaces, everything recorded was made from
what is recorded. -/
theorem Sound.whole {u : Universe} (h : Sound u) (hfinished : Finished u)
    (hemulated : u.reprs.Emulated) : Whole u.catalog u.reprs where
  catalog := h.catalog
  intact := h.reprs
  made ty r hr := by
    rcases h.recorded ty r hr with hmade | ⟨-, methods, hkind⟩
    · exact h.made_recorded hfinished hmade
    · exact absurd hkind (hemulated ty r methods hr)

/-- **Representations decide identity.** Where no operation failed for want of an underlying type
and no native interface was registered, types that can be represented have one representation
exactly if they are identical. -/
theorem reprOf_eq_iff_identical {u u₁ u₂ : Universe} (h : Plain u) {a b : TypeId} {ra rb : ReprId}
    (ha : (reprOf a).run.run u = (.ok ra, u₁)) (hb : (reprOf b).run.run u₁ = (.ok rb, u₂)) :
    ra = rb ↔ Identical u.catalog a b := by
  obtain ⟨t₁, hrun, rfl⟩ := exists_run_of_reprOf ha
  obtain ⟨hb₁, hra⟩ := h.sound.builds_of_ok hrun
  have h₁ := h.sound.builds hb₁
  obtain ⟨t₂, hrun', rfl⟩ := exists_run_of_reprOf hb
  obtain ⟨hb₂, hrb⟩ := h₁.builds_of_ok hrun'
  have hwhole := (h₁.builds hb₂).whole ((h.unbroken.finished.builds hb₁).builds hb₂)
    (h₁.emulated_of_builds hb₂ (h.sound.emulated_of_builds hb₁ h.emulated))
  exact hwhole.eq_iff_identical (hb₂.extended.built a ra hra) hrb

/-- `type N struct{ next *N }`, the same struct without the name, and the interface
`interface{ Next() *N }` written twice. -/
def linked : Universe := after [
  .declareNamed "N" none,
  .pointerTo ⟨0⟩,
  .structOf [⟨"next", ⟨1⟩, false⟩],
  .setUnderlying ⟨0⟩ ⟨2⟩,
  .interfaceOf [⟨"Next", none, ⟨none, [], [⟨1⟩], false⟩⟩] [],
  .interfaceOf [⟨"Next", none, ⟨none, [], [⟨1⟩], false⟩⟩] []]

/-- The two interfaces are identical; the name and the struct that it stands for are not. -/
theorem reprOf_eq_iff_identical_linked : linked.Plain ∧
    Identical linked.catalog ⟨3⟩ ⟨4⟩ ∧ ¬ Identical linked.catalog ⟨0⟩ ⟨2⟩ := by
  have hplain : linked.Plain := reachableBy_after (by cbv)
  have hsame : ((reprOf ⟨3⟩).run.run linked).1 = .ok ⟨8⟩ ∧
      ((reprOf ⟨4⟩).run.run ((reprOf ⟨3⟩).run.run linked).2).1 = .ok ⟨8⟩ := by cbv
  have hdistinct : ((reprOf ⟨0⟩).run.run linked).1 = .ok ⟨0⟩ ∧
      ((reprOf ⟨2⟩).run.run ((reprOf ⟨0⟩).run.run linked).2).1 = .ok ⟨2⟩ := by cbv
  refine ⟨hplain, ?_, fun hidentical => ?_⟩
  · exact (reprOf_eq_iff_identical hplain (Prod.ext hsame.1 rfl) (Prod.ext hsame.2 rfl)).mp rfl
  · have heq := (reprOf_eq_iff_identical hplain (Prod.ext hdistinct.1 rfl)
      (Prod.ext hdistinct.2 rfl)).mpr hidentical
    cases heq

end Universe

end ScriptEngine
