import Mathlib.Data.Set.Basic
import ScriptEngine.Proofs.Repr.Faithful
import ScriptEngine.Proofs.Universe.Operation
import ScriptEngine.Proofs.Universe.Synthesis

/-!
Steps of a universe: what operations do to it, one thing at a time.

A step takes one act (`Act`), and `Steps A` is any number of steps with acts of `A` only. `Sound` is
what every step keeps (`Step.sound`): the catalog is well formed and the methods of a name are its
own, the representations are intact with no name being built, every recorded representation was
made for its type or is a native interface, and every filled slot holds what its method table may
hold. A step extends the representations (`Step.extended`), and if no building breaks off, every
representation stays finished (`Step.finished`).
-/

namespace ScriptEngine

namespace Assoc

variable {κ ν : Type} [DecidableEq κ]

theorem find?_set {m : Assoc κ ν} {k n : κ} {v x : ν} (h : (m.set k v).find? n = some x) :
    n = k ∧ x = v ∨ m.find? n = some x := by
  by_cases heq : n = k
  · subst heq
    rw [find?_set_self] at h
    exact .inl ⟨rfl, (Option.some.inj h).symm⟩
  · rw [find?_set_of_ne _ heq] at h
    exact .inr h

end Assoc

/-! ### Slots of a descriptor -/

namespace Descriptor

variable {d : Descriptor} {index i : Nat} {slot : MethodSlot}

theorem slot?_eq_some : d.slot? index = some slot ↔ d.slots[index]? = some (some slot) := by
  rw [slot?, Option.join_eq_some_iff]

theorem lt_length_of_slot? (h : d.slot? index = some slot) : index < d.slots.length :=
  (List.getElem?_eq_some_iff.mp (slot?_eq_some.mp h)).1

theorem slot?_forget (d : Descriptor) (func : FuncId) (index : Nat) :
    (d.forget func).slot? index = (d.slot? index).filter fun slot => slot.func != some func := by
  unfold slot? forget
  rw [List.getElem?_map]
  cases d.slots[index]? <;> rfl

/-- Places below the new number of methods keep their slots. -/
theorem slot?_resize (d : Descriptor) (count index : Nat) :
    (d.resize count).slot? index = if index < count then d.slot? index else none := by
  unfold slot? resize
  rw [List.getElem?_append, List.getElem?_take, List.length_take, List.getElem?_replicate]
  grind

theorem length_resize (d : Descriptor) (count : Nat) : (d.resize count).slots.length = count := by
  unfold resize
  rw [List.length_append, List.length_take, List.length_replicate]
  omega

theorem slot?_fill_self (h : index < d.slots.length) (slot : MethodSlot) :
    (d.fill index slot).slot? index = some slot := by
  simp [slot?, fill, h]

theorem slot?_fill_of_ne (h : i ≠ index) (slot : MethodSlot) :
    (d.fill index slot).slot? i = d.slot? i := by
  simp [slot?, fill, List.getElem?_set_ne h.symm]

end Descriptor

/-- With no name being built, what is intact does not depend on the catalog. -/
theorem Intact.of_nil {c c' : Catalog} {t : ReprTable} (h : Intact c [] t) : Intact c' [] t :=
  ⟨h.bounds, h.finished, (fun _ _ hp => by cases hp), h.owner⟩

namespace Universe

section BindCallable

variable {u : Universe} {r : ReprId} {name : String} {callable : Callable}

theorem bindCallable_eq : u.bindCallable r name callable =
    { u with
      reprs := u.reprs.bind r name callable
      descriptors := (u.bindCallable r name callable).descriptors } := by
  unfold bindCallable
  dsimp only
  split <;> rfl

@[simp]
theorem catalog_bindCallable : (u.bindCallable r name callable).catalog = u.catalog := by
  rw [bindCallable_eq]

@[simp]
theorem described_bindCallable : (u.bindCallable r name callable).described = u.described := by
  rw [bindCallable_eq]

@[simp]
theorem synthesized_bindCallable :
    (u.bindCallable r name callable).synthesized = u.synthesized := by
  rw [bindCallable_eq]

/-- Binding a callable empties the slots of the one it replaces and does no more to descriptors. -/
theorem descriptors_bindCallable : (u.bindCallable r name callable).descriptors =
    match u.reprs.callable? r name with
      | some old => u.descriptors.mapValues (Descriptor.forget old.func)
      | none => u.descriptors := by
  unfold bindCallable
  cases u.reprs.callable? r name <;> rfl

/-- A descriptor keeps its representation when a callable is bound, and its slots but for those of
the callable that is replaced. -/
theorem find?_bindCallable {ty : TypeId} {d' : Descriptor}
    (h : (u.bindCallable r name callable).descriptors.find? ty = some d') :
    ∃ d, u.descriptors.find? ty = some d ∧ d'.repr = d.repr ∧ ∀ i slot, d'.slot? i = some slot →
      d.slot? i = some slot ∧ ∀ old, u.reprs.callable? r name = some old →
        slot.func ≠ some old.func := by
  rw [descriptors_bindCallable] at h
  split at h
  · next old hold =>
    rw [Assoc.find?_mapValues, Option.map_eq_some_iff] at h
    obtain ⟨d, hd, rfl⟩ := h
    refine ⟨d, hd, rfl, fun i slot hslot => ?_⟩
    rw [Descriptor.slot?_forget, Option.filter_eq_some_iff] at hslot
    refine ⟨hslot.1, fun old' hold' => ?_⟩
    obtain rfl := Option.some.inj (hold.symm.trans hold')
    simpa using hslot.2
  · next hnone => exact ⟨d', h, rfl, fun i slot hslot => ⟨hslot, fun old hold => by simp_all⟩⟩

end BindCallable

/-! ### Steps -/

/-- What a step does to a universe. -/
inductive Act where
  | declare
  /-- The representation of a type was built, or was there already. -/
  | build
  /-- Building broke off. -/
  | breakOff
  /-- The pointers to a representation were made. -/
  | intern
  /-- An interface got a native representation. -/
  | native
  | allocate
  | bind
  /-- A type got a descriptor. -/
  | describe (ty : TypeId)
  /-- The table of a type got a place for each of its methods. -/
  | resize (ty : TypeId)
  | fill (ty : TypeId) (index : Nat)

/-- One step of a universe. -/
inductive Step (u : Universe) : Act → Universe → Prop where
  | declare (catalog : Catalog) : Catalog.Change u.catalog catalog →
      Step u .declare { u with catalog }
  | build (ty : TypeId) (r : ReprId) (reprs : ReprTable) :
      (ReprM.reprOf u.catalog ty).run.run u.reprs = (.ok r, reprs) →
      Step u .build { u with reprs }
  | breakOff (ty : TypeId) (e : TypeError) (reprs : ReprTable) :
      (ReprM.reprOf u.catalog ty).run.run u.reprs = (.error e, reprs) →
      Step u .breakOff { u with reprs }
  | intern (r : ReprId) : r.index < u.reprs.size →
      Step u .intern { u with reprs := (u.reprs.pointerTo r).2 }
  | native (ty : TypeId) (name : Option String) (methods : List NativeMethod) :
      (u.catalog.interface? ty).isSome → u.reprs.built.find? ty = none →
      (∀ m ∈ methods, ∀ p ∈ m.ty.parts, p.index < u.reprs.size) →
      Step u .native { u with
        reprs := (u.reprs.push ⟨name, .interface methods, .empty⟩).2.record ty
          (u.reprs.push ⟨name, .interface methods, .empty⟩).1 }
  | allocate : Step u .allocate { u with funcs := u.funcs + 1 }
  | bind (r : ReprId) (name : String) (callable : Callable) :
      (∀ p ∈ callable.ty.parts, p.index < u.reprs.size) →
      Step u .bind (u.bindCallable r name callable)
  | describe (ty : TypeId) (r : ReprId) : u.descriptors.find? ty = none →
      u.reprs.built.find? ty = some r →
      Step u (.describe ty) { u with
        descriptors := u.descriptors.set ty ⟨u.catalog.kindOf ty, u.catalog.isNamed ty, r, []⟩
        described := u.described + 1 }
  | resize (ty : TypeId) (d : Descriptor) : u.descriptors.find? ty = some d →
      Step u (.resize ty) { u with
        descriptors := u.descriptors.set ty (d.resize (u.catalog.numMethod ty)) }
  /-- An empty slot got what is made for its method. -/
  | fill (ty : TypeId) (index : Nat) (m : MethodDecl) (d : Descriptor) (slot : MethodSlot) :
      u.descriptors.find? ty = some d → d.slot? index = none → index < d.slots.length →
      methodAt u.catalog ty index = .ok m → slot.Fits m →
      u.slotFor ty index m d.repr = .ok ⟨slot, true⟩ →
      Step u (.fill ty index) { u with
        descriptors := u.descriptors.set ty (d.fill index slot)
        synthesized := u.synthesized + 1 }

/-- Any number of steps with acts of `A`. -/
abbrev Steps (A : Set Act) : Universe → Universe → Prop :=
  Relation.ReflTransGen fun u u' => ∃ a ∈ A, Step u a u'

theorem Steps.mono {A A' : Set Act} (h : A ⊆ A') {u u' : Universe} (s : Steps A u u') :
    Steps A' u u' :=
  Relation.ReflTransGen.mono (fun _ _ ⟨a, ha, step⟩ => ⟨a, h ha, step⟩) u u' s

/-! ### What steps keep -/

/-- What every step of a universe keeps. -/
structure Sound (u : Universe) : Prop where
  catalog : u.catalog.WellFormed
  methods : u.catalog.MethodsOwned
  reprs : Intact u.catalog [] u.reprs
  /-- What is recorded for a type was made for it or is a native interface. -/
  recorded : ∀ ty r, u.reprs.built.find? ty = some r →
    Made u.catalog u.reprs (StandsFor False [] u.reprs) ty r ∨
      (u.catalog.interface? ty).isSome ∧ ∃ methods, u.reprs.kind r = .interface methods
  callables : ∀ r name callable, u.reprs.callable? r name = some callable →
    ∀ p ∈ callable.ty.parts, p.index < u.reprs.size
  descriptors : ∀ ty d, u.descriptors.find? ty = some d → u.reprs.built.find? ty = some d.repr
  slots : ∀ ty d index slot, u.descriptors.find? ty = some d → d.slot? index = some slot →
    ∃ m, u.Provides ty index m d.repr slot

theorem sound_empty : Sound .empty where
  catalog := Catalog.wellFormed_empty
  methods := Catalog.methodsOwned_empty
  reprs := by
    refine ⟨fun r p hp => ?_, fun _ _ => nofun, nofun, fun n n' r d hr => ?_⟩
    · rw [ReprTable.kind, ReprTable.get?_eq_none (Nat.zero_le _)] at hp
      cases hp
    · cases hr
  recorded _ _ hr := by cases hr
  callables r name callable hc := absurd (ReprTable.lt_size_of_callable? hc) (Nat.not_lt_zero _)
  descriptors _ _ hd := by cases hd
  slots _ _ _ _ hd := by cases hd

section Sound

variable {u u' : Universe} {ty : TypeId} {r : ReprId} {a : Act} {A : Set Act}

theorem Sound.lt_size (h : Sound u) (hr : u.reprs.built.find? ty = some r) :
    r.index < u.reprs.size :=
  ReprTable.lt_size_of_kind (h.reprs.finished ty r hr)

/-- What is represented has a class. -/
theorem Sound.kindOf_ne_invalid (h : Sound u) (hr : u.reprs.built.find? ty = some r) :
    u.catalog.kindOf ty ≠ .invalid := by
  rcases h.recorded ty r hr with hmade | ⟨hiface, -⟩
  · rw [Catalog.kindOf_ne_invalid]
    cases hmade with
    | unnamed d hd hn hrep =>
      have hunnamed : ∀ n, d ≠ .named n := by
        rintro n rfl
        rw [Catalog.isNamed_iff.mpr ⟨n, hd⟩] at hn
        cases hn
      exact ⟨d, by rw [Catalog.underlying_of_unnamed hd hunnamed, hd], hunnamed⟩
    | named d v source hd hv hsource hkind =>
      obtain ⟨hlt, hn⟩ := h.catalog.underlying_unnamed ty d hd v hv
      obtain ⟨e, he⟩ := Catalog.exists_decl? hlt
      refine ⟨e, by rw [Catalog.underlying_of_named hd hv, he], ?_⟩
      rintro n rfl
      rw [Catalog.isNamed_iff.mpr ⟨n, he⟩] at hn
      cases hn
  · rw [Catalog.isSome_interface?.mp hiface]
    nofun

/-- Building a type from scratch. -/
theorem Sound.gives_reprOf (h : Sound u) (ty : TypeId) :
    (buildEffect h.catalog []).Gives u.reprs (ReprM.reprOf u.catalog ty) fun r t' =>
      t'.built.find? ty = some r :=
  (gives_build h.catalog [] ty h.reprs).mono fun _ _ _ hr => hr.current

/-- What is recorded in representations that extend sound ones and are made or native. -/
theorem Sound.recorded_of_extends (h : Sound u) {reprs : ReprTable}
    (hext : ReprTable.Extends u.reprs reprs)
    (hnew : ∀ ty r, reprs.built.find? ty = some r → u.reprs.built.find? ty = some r ∨
      Made u.catalog reprs (StandsFor False [] reprs) ty r ∨
        (u.catalog.interface? ty).isSome ∧ ∃ methods, reprs.kind r = .interface methods) :
    ∀ ty r, reprs.built.find? ty = some r → Made u.catalog reprs (StandsFor False [] reprs) ty r ∨
      (u.catalog.interface? ty).isSome ∧ ∃ methods, reprs.kind r = .interface methods := by
  intro ty r hr
  rcases hnew ty r hr with hr | hr
  · have hcarries := h.reprs.carries hext
    refine (h.recorded ty r hr).imp (fun hmade => ?_) fun ⟨hiface, methods, hkind⟩ => ?_
    · exact hmade.mono (hcarries.built ty r hr).2 h.catalog (.refl _) hcarries fun _ _ hx =>
        hx.mono id hext
    · exact ⟨hiface, methods, (hcarries.built ty r hr).2.trans hkind⟩
  · exact hr

/-- Representations that prolong sound ones and are made or native keep the universe sound. -/
theorem Sound.withReprs (h : Sound u) {reprs : ReprTable}
    (hprolongs : ReprTable.Prolongs u.reprs reprs) (hintact : Intact u.catalog [] reprs)
    (hnew : ∀ ty r, reprs.built.find? ty = some r → u.reprs.built.find? ty = some r ∨
      Made u.catalog reprs (StandsFor False [] reprs) ty r ∨
        (u.catalog.interface? ty).isSome ∧ ∃ methods, reprs.kind r = .interface methods) :
    Sound { u with reprs } where
  catalog := h.catalog
  methods := h.methods
  reprs := hintact
  recorded := h.recorded_of_extends hprolongs.extended hnew
  callables r name callable hc p hp := by
    rw [hprolongs.callables] at hc
    exact hprolongs.extended.lt_size (h.callables r name callable hc p hp)
  descriptors ty d hd := hprolongs.extended.built ty d.repr (h.descriptors ty d hd)
  slots ty d index slot hd hslot := by
    obtain ⟨m, hm⟩ := h.slots ty d index slot hd hslot
    exact ⟨m, hm.prolongs hprolongs h.reprs.bounds (h.lt_size (h.descriptors ty d hd))⟩

theorem Sound.builds {whole : Prop} (h : Sound u) {reprs : ReprTable}
    (hb : Builds whole u.catalog [] u.reprs reprs) : Sound { u with reprs } := by
  refine h.withReprs hb.prolongs hb.intact fun ty r hr => ?_
  refine (hb.made ty r hr).imp_right fun hmade => ?_
  refine .inl (hmade.mono rfl h.catalog (.refl _) (hb.intact.carries (.refl _)) fun _ _ hx => ?_)
  exact hx.mono False.elim (.refl _)

/-- What building leaves. -/
theorem Sound.builds_of_ok (h : Sound u) {reprs : ReprTable}
    (run : (ReprM.reprOf u.catalog ty).run.run u.reprs = (.ok r, reprs)) :
    Builds True u.catalog [] u.reprs reprs ∧ reprs.built.find? ty = some r :=
  (h.gives_reprOf ty).ok run

theorem Sound.builds_of_error (h : Sound u) {e : TypeError} {reprs : ReprTable}
    (run : (ReprM.reprOf u.catalog ty).run.run u.reprs = (.error e, reprs)) :
    (∃ name, e = .incompleteType name) ∧ Builds False u.catalog [] u.reprs reprs :=
  (ends_of_error run).mp (h.gives_reprOf ty)

theorem builds_pointerTo (whole : Prop) {c : Catalog} {building : Building} {t : ReprTable}
    (h : Intact c building t) (hr : r.index < t.size) :
    Builds whole c building t (t.pointerTo r).2 := by
  refine builds_intern h (fun p hp => ?_) nofun
  rw [List.mem_singleton.mp hp]
  exact hr

/-- A native representation is not yet that of any type. -/
theorem Sound.builds_native (h : Sound u) (name : Option String) {methods : List NativeMethod}
    (inRange : ∀ m ∈ methods, ∀ p ∈ m.ty.parts, p.index < u.reprs.size) :
    Builds True u.catalog [] u.reprs (u.reprs.push ⟨name, .interface methods, .empty⟩).2 := by
  refine builds_push h.reprs (fun p hp => ?_) nofun rfl
  obtain ⟨m, hm, hp⟩ := List.mem_flatMap.mp hp
  exact inRange m hm p hp

theorem prolongs_native {t : ReprTable} (fresh : t.built.find? ty = none) (name : Option String)
    (methods : List NativeMethod) :
    ReprTable.Prolongs t ((t.push ⟨name, .interface methods, .empty⟩).2.record ty
      (t.push ⟨name, .interface methods, .empty⟩).1) := by
  refine (ReprTable.prolongs_push _ rfl).trans (ReprTable.prolongs_record fun r hr => ?_)
  rw [show (ReprTable.push _ _).2.built = t.built from rfl, fresh] at hr
  cases hr

theorem Sound.bindCallable (h : Sound u) {name : String} {callable : Callable}
    (inRange : ∀ p ∈ callable.ty.parts, p.index < u.reprs.size) :
    Sound (u.bindCallable r name callable) := by
  have hext := ReprTable.extends_bind u.reprs r name callable
  have hintact : Intact u.catalog [] (u.reprs.bind r name callable) := by
    refine ⟨fun x p hp => ?_, fun ty x hx => ?_, nofun, fun n n' x d hx hx' hd hname => ?_⟩
    · rw [ReprTable.kind_bind] at hp
      exact hext.lt_size (h.reprs.bounds x p hp)
    · rw [ReprTable.kind_bind]
      exact h.reprs.finished ty x hx
    · obtain ⟨e, he⟩ := ReprTable.exists_get? (h.reprs.lt_size hx)
      obtain ⟨e', he', hename, -⟩ := hext.kept x e he
      obtain rfl := Option.some.inj (hd.symm.trans he')
      exact h.reprs.owner n n' x e hx hx' he (hename ▸ hname)
  rw [bindCallable_eq]
  refine ⟨h.catalog, h.methods, hintact, h.recorded_of_extends hext fun _ _ => .inl,
    fun x n c hc p hp => ?_, fun ty d' hd' => ?_, fun ty d' index slot hd' hslot => ?_⟩
  · show p.index < (u.reprs.bind r name callable).size
    rw [ReprTable.size_bind]
    rcases ReprTable.callable?_bind hc with ⟨-, -, rfl⟩ | ⟨-, hc⟩
    · exact inRange p hp
    · exact h.callables x n c hc p hp
  · obtain ⟨d, hd, hrepr, -⟩ := find?_bindCallable hd'
    rw [hrepr]
    exact h.descriptors ty d hd
  · obtain ⟨d, hd, hrepr, hslots⟩ := find?_bindCallable hd'
    obtain ⟨hold, hkept⟩ := hslots index slot hslot
    obtain ⟨m, hm⟩ := h.slots ty d index slot hd hold
    have hlt := h.lt_size (h.descriptors ty d hd)
    rw [hrepr]
    refine ⟨m, hm.decl, hm.fits, fun hi => ?_, fun hi => ?_⟩
    · exact (interfaceSlot_eq h.reprs.bounds hext hlt m.name).trans (hm.interface hi)
    · -- The callable of a slot that is left is not the one that was replaced.
      obtain ⟨c, hattached, rfl⟩ := hm.bound hi
      have hbound : ∀ x, u.reprs.callable? x m.name = some c →
          (u.reprs.bind r name callable).callable? x m.name = some c := by
        intro x hx
        rw [ReprTable.callable?_bind_of_ne, hx]
        by_contra hne
        simp only [not_or, not_not] at hne
        obtain ⟨rfl, hname⟩ := hne
        exact hkept c (hname ▸ hx) rfl
      refine ⟨c, hattached.imp (hbound d.repr) fun ⟨hkind, p, hp, hc⟩ => ?_, rfl⟩
      refine ⟨fun elem => by rw [ReprTable.kind_bind]; exact hkind elem, p, ?_, hbound p hc⟩
      exact (hext.interned_iff (ReprTable.lt_size_of_callable? hc)).mpr hp

/-- Writing the descriptor of a type. -/
theorem Sound.setDescriptor (h : Sound u) {d : Descriptor} (described synthesized : Nat)
    (hd : u.reprs.built.find? ty = some d.repr)
    (hslots : ∀ index slot, d.slot? index = some slot → ∃ m, u.Provides ty index m d.repr slot) :
    Sound { u with descriptors := u.descriptors.set ty d, described, synthesized } := by
  refine ⟨h.catalog, h.methods, h.reprs, h.recorded, h.callables, fun n d' hd' => ?_,
    fun n d' index slot hd' hslot => ?_⟩
  · rcases Assoc.find?_set hd' with ⟨rfl, rfl⟩ | hd'
    · exact hd
    · exact h.descriptors n d' hd'
  · have hprovides : ∃ m, u.Provides n index m d'.repr slot := by
      rcases Assoc.find?_set hd' with ⟨rfl, rfl⟩ | hd'
      · exact hslots index slot hslot
      · exact h.slots n d' index slot hd' hslot
    obtain ⟨m, hm⟩ := hprovides
    exact ⟨m, hm.decl, hm.fits, hm.interface, hm.bound⟩

theorem Step.extended (s : Step u a u') (h : Sound u) :
    ReprTable.Extends u.reprs u'.reprs := by
  cases s with
  | declare catalog change => exact .refl _
  | build ty r reprs run => exact (h.builds_of_ok run).1.extended
  | breakOff ty e reprs run => exact (h.builds_of_error run).2.extended
  | intern r inRange => exact ReprTable.extends_intern _ _
  | native ty name methods iface fresh inRange =>
    exact (prolongs_native fresh name methods).extended
  | bind r name callable =>
    rw [bindCallable_eq]
    exact ReprTable.extends_bind _ r name callable
  | allocate | describe | resize | fill => exact .refl _

/-- **Every step keeps a universe sound.** -/
theorem Step.sound (s : Step u a u') (h : Sound u) : Sound u' := by
  cases s with
  | declare catalog change =>
    refine ⟨change.wellFormed h.catalog, change.methodsOwned h.methods, h.reprs.of_nil,
      fun ty r hr => ?_, h.callables, h.descriptors, fun ty d index slot hd hslot => ?_⟩
    · refine (h.recorded ty r hr).imp (fun hmade => ?_) fun ⟨hiface, hkind⟩ => ?_
      · exact hmade.mono rfl h.catalog change.grows (h.reprs.carries (.refl _)) fun _ _ hx => hx
      · exact ⟨by rwa [change.grows.interface? (h.kindOf_ne_invalid hr)], hkind⟩
    · obtain ⟨m, hm⟩ := h.slots ty d index slot hd hslot
      exact ⟨m, hm.grows change.grows (h.kindOf_ne_invalid (h.descriptors ty d hd))⟩
  | build ty r reprs run => exact h.builds (h.builds_of_ok run).1
  | breakOff ty e reprs run => exact h.builds (h.builds_of_error run).2
  | intern r inRange => exact h.builds (builds_pointerTo True h.reprs inRange)
  | native ty name methods iface fresh inRange =>
    have hpush := h.builds_native name inRange
    have hkind := ReprTable.kind_of_get? (u.reprs.get?_push_next ⟨name, .interface methods, .empty⟩)
    refine h.withReprs (prolongs_native fresh name methods)
      (hpush.intact.record rfl ?_ fun n d hn => ?_) fun n r hr => ?_
    · rw [hkind]
      nofun
    · exact absurd (h.reprs.lt_size hn) (Nat.lt_irrefl _)
    · rcases ReprTable.find?_record hr with ⟨rfl, rfl⟩ | hr
      · exact .inr (.inr ⟨iface, methods, hkind⟩)
      · exact .inl hr
  | allocate => exact ⟨h.catalog, h.methods, h.reprs, h.recorded, h.callables, h.descriptors,
      fun ty d index slot hd hslot => (h.slots ty d index slot hd hslot).imp fun m hm =>
        ⟨hm.decl, hm.fits, hm.interface, hm.bound⟩⟩
  | bind r name callable inRange => exact h.bindCallable inRange
  | describe ty r fresh built =>
    refine h.setDescriptor _ u.synthesized built fun index slot hslot => ?_
    exact absurd (Descriptor.lt_length_of_slot? hslot) (Nat.not_lt_zero _)
  | resize ty d hd =>
    refine h.setDescriptor u.described u.synthesized (h.descriptors ty d hd)
      fun index slot hslot => ?_
    rw [Descriptor.slot?_resize] at hslot
    split at hslot
    · exact h.slots ty d index slot hd hslot
    · cases hslot
  | fill ty index m d slot hd hempty hlt hm hfits hmade =>
    refine h.setDescriptor u.described _ (h.descriptors ty d hd) fun i slot' hslot => ?_
    by_cases heq : i = index
    · subst heq
      rw [Descriptor.slot?_fill_self hlt] at hslot
      obtain rfl := Option.some.inj hslot
      exact ⟨m, provides_of_slotFor hm hfits hmade⟩
    · rw [Descriptor.slot?_fill_of_ne heq] at hslot
      exact h.slots ty d i slot' hd hslot

/-- No representation is a placeholder. -/
def Finished (u : Universe) : Prop :=
  ∀ r, r.index < u.reprs.size → u.reprs.kind r ≠ .invalid

theorem Finished.builds (h : Finished u) {reprs : ReprTable}
    (hb : Builds True u.catalog [] u.reprs reprs) : Finished { u with reprs } := by
  intro r hr
  by_cases hold : r.index < u.reprs.size
  · rw [hb.extended.kind_eq hold]
    exact h r hold
  · exact hb.fresh trivial r (Nat.le_of_not_lt hold) hr

/-- If building does not break off, no placeholder is left behind. -/
theorem Step.finished (s : Step u a u') (hwhole : a ≠ .breakOff) (h : Sound u)
    (hfinished : Finished u) : Finished u' := by
  cases s with
  | build ty r reprs run => exact hfinished.builds (h.builds_of_ok run).1
  | breakOff ty e reprs run => exact absurd rfl hwhole
  | intern r inRange => exact hfinished.builds (builds_pointerTo True h.reprs inRange)
  | bind r name callable =>
    rw [bindCallable_eq]
    intro x hx
    show (u.reprs.bind r name callable).kind x ≠ .invalid
    rw [ReprTable.kind_bind]
    exact hfinished x (by rwa [← ReprTable.size_bind u.reprs r name callable])
  | native ty name methods iface fresh inRange =>
    exact fun r hr => hfinished.builds (h.builds_native name inRange) r hr
  | declare | allocate | describe | resize | fill => exact hfinished

/-- What every step of a sound universe keeps, any number of steps keeps. -/
theorem Steps.keeps {P : Universe → Prop}
    (hstep : ∀ {a u u'}, a ∈ A → Step u a u' → Sound u → P u → P u') (s : Steps A u u')
    (h : Sound u) (hP : P u) : Sound u' ∧ P u' := by
  induction s with
  | refl => exact ⟨h, hP⟩
  | tail _ last ih =>
    obtain ⟨a, ha, step⟩ := last
    exact ⟨step.sound ih.1, hstep ha step ih.1 ih.2⟩

theorem Steps.sound (s : Steps A u u') (h : Sound u) : Sound u' :=
  (s.keeps (P := fun _ => True) (fun _ _ _ _ => trivial) h trivial).1

theorem Steps.extended (s : Steps A u u') (h : Sound u) :
    ReprTable.Extends u.reprs u'.reprs :=
  (s.keeps (P := fun v => ReprTable.Extends u.reprs v.reprs)
    (fun _ step hv hext => hext.trans (step.extended hv)) h (.refl _)).2

theorem Steps.finished (s : Steps A u u') (hwhole : .breakOff ∉ A) (h : Sound u)
    (hfinished : Finished u) : Finished u' := by
  refine (s.keeps (P := Finished) (fun ha step hv hf => step.finished ?_ hv hf) h hfinished).2
  rintro rfl
  exact hwhole ha

end Sound

end Universe

end ScriptEngine
