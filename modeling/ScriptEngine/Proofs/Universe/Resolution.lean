import ScriptEngine.Proofs.Universe.Stepping

/-!
Resolving a method, as a function of the universe.

`Universe.answer` is what `resolve` answers, without what it does to the universe; `ends_resolve`
says so, and which steps it takes. A method is `Decided` once its type is represented, or if it
cannot be asked for at all. From then on nothing but declarations and bindings changes its answer
(`Step.answer_eq`), and what the cache tells is that answer (`cached?_eq_answer`).
-/

namespace ScriptEngine.Universe

/-! ### Answers -/

/-- The slot of the method at an index, if it is filled. -/
def slot? (u : Universe) (ty : TypeId) (index : Nat) : Option MethodSlot :=
  (u.descriptors.find? ty).bind (·.slot? index)

/-- What is answered for the method `m` at an index of a type represented by `repr`: its slot or, if
that is empty, what is made for it. -/
def answerAt (u : Universe) (ty : TypeId) (index : Nat) (m : MethodDecl) (repr : ReprId) :
    Except TypeError Method :=
  match u.slot? ty index with
  | some slot => u.makeMethod ty index m slot
  | none => match u.slotFor ty index m repr with
    | .ok made => u.makeMethod ty index m made.slot
    | .error e => .error e

/-- The representation that `descriptor` finds for a type or builds, with the table it leaves. -/
def represented (u : Universe) (ty : TypeId) : Except TypeError ReprId × ReprTable :=
  match u.descriptors.find? ty with
  | some d => (.ok d.repr, u.reprs)
  | none =>
    if u.catalog.kindOf ty = .invalid then
      (.error (.incompleteType (u.catalog.typeName ty)), u.reprs)
    else (ReprM.reprOf u.catalog ty).run.run u.reprs

/-- What `resolve` answers. -/
def answer (u : Universe) (ty : TypeId) (index : Nat) : Except TypeError Method :=
  match methodAt u.catalog ty index with
  | .error e => .error e
  | .ok m => match u.represented ty with
    | (.ok repr, reprs) => answerAt { u with reprs } ty index m repr
    | (.error e, _) => .error e

/-- The type is represented, or has no method to ask for at the index. -/
def Decided (u : Universe) (ty : TypeId) (index : Nat) : Prop :=
  (∃ e, methodAt u.catalog ty index = .error e) ∨ ∃ r, u.reprs.built.find? ty = some r

/-- All that can happen to a universe without declarations and bindings. -/
def Act.quiet : Set Act :=
  {a | a ≠ .declare ∧ a ≠ .bind}

section Answer

variable {u u' : Universe} {ty : TypeId} {index : Nat} {m : MethodDecl} {repr : ReprId} {a : Act}

theorem represented_of_built (h : Sound u) (hr : u.reprs.built.find? ty = some repr) :
    u.represented ty = (.ok repr, u.reprs) := by
  unfold represented
  split
  · next d hd =>
    have hd := h.descriptors ty d hd
    rw [hr] at hd
    rw [Option.some.inj hd]
  · rw [if_neg (h.kindOf_ne_invalid hr), ReprM.run_reprOf_recorded hr]

/-- What is answered for a type that is represented. -/
theorem answer_of_built (h : Sound u) (hr : u.reprs.built.find? ty = some repr)
    (hm : methodAt u.catalog ty index = .ok m) :
    u.answer ty index = u.answerAt ty index m repr := by
  rw [answer, hm]
  simp only [represented_of_built h hr]

/-! ### The parts of slots -/

theorem Sound.parts_lt_of_interfaceSlot (h : Sound u) (hrepr : repr.index < u.reprs.size)
    {name : String} {made : Synthesized}
    (hslot : u.interfaceSlot ty index name repr = .ok made) :
    ∀ p ∈ made.slot.parts, p.index < u.reprs.size := by
  -- The runtime type of an interface method is the receiver before what the field or the list has.
  have hfound : ∀ f : FuncRepr, (∀ p ∈ f.parts, p.index < u.reprs.size) →
      ∀ p ∈ (MethodSlot.mk (some (f.addReceiver repr)) none).parts, p.index < u.reprs.size := by
    intro f hf p hp
    rcases List.mem_cons.mp hp with rfl | hp
    · exact hrepr
    · exact hf p hp
  unfold interfaceSlot at hslot
  dsimp only at hslot
  split at hslot
  · next fields hfields =>
    split at hslot
    · next f hf =>
      obtain ⟨field, -, hkind⟩ := Option.map_eq_some_iff.mp hf
      cases hslot
      exact hfound f fun p hp => h.reprs.bounds field.repr p (by rw [hkind]; exact hp)
    · cases hslot
  · split at hslot
    · next methods hkind =>
      split at hslot
      · split at hslot
        · cases hslot
        next runtime f hnative =>
        split at hslot
        · cases hslot
          refine hfound f fun p hp => h.reprs.bounds repr p ?_
          rw [hkind]
          unfold ReprKind.nativeMethod? at hnative
          dsimp only at hnative
          split at hnative
          · next i _ =>
            obtain ⟨m, hm, hpair⟩ := Option.map_eq_some_iff.mp hnative
            cases hpair
            exact List.mem_flatMap.mpr ⟨m, List.mem_of_getElem? hm, hp⟩
          · cases hnative
        · cases hslot
      · cases hslot
        nofun
    · cases hslot

theorem Sound.parts_lt_of_attached (h : Sound u) {name : String} {callable : Callable}
    (hattached : u.reprs.Attached repr name callable) :
    ∀ p ∈ (MethodSlot.ofCallable callable).parts, p.index < u.reprs.size := by
  rcases hattached with hown | ⟨-, ptr, -, hptr⟩
  · exact h.callables repr name callable hown
  · exact h.callables ptr name callable hptr

theorem Sound.parts_lt_of_slotFor (h : Sound u) (hrepr : repr.index < u.reprs.size)
    {made : Synthesized} (hslot : u.slotFor ty index m repr = .ok made) :
    ∀ p ∈ made.slot.parts, p.index < u.reprs.size := by
  unfold slotFor at hslot
  split at hslot
  · exact h.parts_lt_of_interfaceSlot hrepr hslot
  split at hslot
  · next callable hfound =>
    cases hslot
    exact h.parts_lt_of_attached (ReprTable.attached_of_search hfound)
  · split at hslot
    · cases hslot
    · cases hslot
      nofun

/-- A filled slot belongs to a method of a represented type. -/
theorem Sound.slot_provided (h : Sound u) {slot : MethodSlot}
    (hslot : u.slot? ty index = some slot) :
    ∃ m r, u.reprs.built.find? ty = some r ∧ u.Provides ty index m r slot := by
  obtain ⟨d, hd, hslot⟩ := Option.bind_eq_some_iff.mp hslot
  obtain ⟨m, hm⟩ := h.slots ty d index slot hd hslot
  exact ⟨m, d.repr, h.descriptors ty d hd, hm⟩

theorem Sound.parts_lt_of_slot (h : Sound u) {slot : MethodSlot}
    (hslot : u.slot? ty index = some slot) : ∀ p ∈ slot.parts, p.index < u.reprs.size := by
  obtain ⟨m, r, hr, hprovides⟩ := h.slot_provided hslot
  cases hiface : (u.catalog.interface? ty).isSome with
  | true => exact h.parts_lt_of_interfaceSlot (h.lt_size hr) (hprovides.interface hiface)
  | false =>
    obtain ⟨callable, hattached, rfl⟩ := hprovides.bound hiface
    exact h.parts_lt_of_attached hattached

/-! ### What does not change an answer -/

theorem answerAt_prolongs (h : Sound u) {t : ReprTable} (ht : ReprTable.Prolongs u.reprs t)
    (hrepr : repr.index < u.reprs.size) :
    answerAt { u with reprs := t } ty index m repr = u.answerAt ty index m repr := by
  unfold answerAt
  rw [show slot? { u with reprs := t } ty index = u.slot? ty index from rfl]
  cases hslot : u.slot? ty index with
  | some slot => exact makeMethod_eq h.reprs.bounds ht.extended (h.parts_lt_of_slot hslot)
  | none =>
    simp only [slotFor_eq h.reprs.bounds ht hrepr]
    cases hmade : u.slotFor ty index m repr with
    | ok made =>
      exact makeMethod_eq h.reprs.bounds ht.extended (h.parts_lt_of_slotFor hrepr hmade)
    | error e => rfl

/-- Besides the catalog and the representations, an answer depends on the slot alone. -/
theorem answerAt_congr (hcatalog : u'.catalog = u.catalog) (hreprs : u'.reprs = u.reprs)
    (hslot : u'.slot? ty index = u.slot? ty index) :
    u'.answerAt ty index m repr = u.answerAt ty index m repr := by
  unfold answerAt slotFor interfaceSlot makeMethod
  rw [hcatalog, hreprs, hslot]

theorem slot?_set_self {d : Descriptor} {described synthesized : Nat} :
    slot? { u with descriptors := u.descriptors.set ty d, described, synthesized } ty index =
      d.slot? index := by
  rw [slot?, Assoc.find?_set_self, Option.bind_some]

theorem slot?_set_of_ne {n : TypeId} (hne : n ≠ ty) {d : Descriptor} {described synthesized : Nat} :
    slot? { u with descriptors := u.descriptors.set ty d, described, synthesized } n index =
      u.slot? n index := by
  rw [slot?, slot?, Assoc.find?_set_of_ne _ hne]

theorem Step.catalog_eq (s : Step u a u') (ha : a ≠ .declare) : u'.catalog = u.catalog := by
  cases s with
  | declare => exact absurd rfl ha
  | bind r name callable =>
    rw [bindCallable_eq]
  | _ => rfl

theorem Step.prolongs (s : Step u a u') (ha : a ≠ .bind) (h : Sound u) :
    ReprTable.Prolongs u.reprs u'.reprs := by
  cases s with
  | build ty r reprs run => exact (h.builds_of_ok run).1.prolongs
  | breakOff ty e reprs run => exact (h.builds_of_error run).2.prolongs
  | intern r inRange => exact ReprTable.prolongs_intern _ _
  | native ty name methods iface fresh inRange => exact prolongs_native fresh name methods
  | bind => exact absurd rfl ha
  | _ => exact .refl _

/-- Only filling a slot and binding change what slots hold. -/
theorem Step.slot?_eq (s : Step u a u') (ha : a ≠ .bind) (hfill : a ≠ .fill ty index)
    (h : Sound u) : u'.slot? ty index = u.slot? ty index := by
  cases s with
  | bind => exact absurd rfl ha
  | describe n r fresh built =>
    by_cases heq : ty = n
    · subst heq
      rw [slot?_set_self, slot?, fresh]
      rfl
    · exact slot?_set_of_ne heq
  | resize n d hd =>
    by_cases heq : ty = n
    · subst heq
      rw [slot?_set_self, slot?, hd, Descriptor.slot?_resize, Option.bind_some]
      -- A slot beyond the number of methods is empty.
      split
      · rfl
      · next hge =>
        cases hslot : d.slot? index with
        | none => rfl
        | some slot =>
          obtain ⟨m, hm⟩ := h.slots ty d index slot hd hslot
          exact absurd (lt_numMethod_of_methodAt hm.decl) hge
    · exact slot?_set_of_ne heq
  | fill n i m d slot hd hempty =>
    by_cases heq : ty = n
    · subst heq
      have hne : index ≠ i := by
        rintro rfl
        exact hfill rfl
      rw [slot?_set_self, slot?, hd, Descriptor.slot?_fill_of_ne hne, Option.bind_some]
    · exact slot?_set_of_ne heq
  | _ => rfl

theorem Step.decided (s : Step u a u') (ha : a ≠ .declare) (h : Sound u)
    (hdecided : u.Decided ty index) : u'.Decided ty index := by
  rcases hdecided with ⟨e, he⟩ | ⟨r, hr⟩
  · exact .inl ⟨e, by rw [s.catalog_eq ha, he]⟩
  · exact .inr ⟨r, (s.extended h).built ty r hr⟩

/-- **What is decided is answered alike until something is declared or bound.** -/
theorem Step.answer_eq (s : Step u a u') (ha : a ∈ Act.quiet) (h : Sound u)
    (hdecided : u.Decided ty index) : u'.answer ty index = u.answer ty index := by
  have hcatalog := s.catalog_eq ha.1
  rcases hdecided with ⟨e, he⟩ | ⟨r, hr⟩
  · simp only [answer, hcatalog, he]
  cases hm : methodAt u.catalog ty index with
  | error e => simp only [answer, hcatalog, hm]
  | ok m =>
    have hr' := (s.extended h).built ty r hr
    rw [answer_of_built h hr hm, answer_of_built (s.sound h) hr' (by rw [hcatalog, hm])]
    have hlt := h.lt_size hr
    have hprolongs := s.prolongs ha.2 h
    have hslot : a ≠ .fill ty index → u'.slot? ty index = u.slot? ty index := fun hne =>
      s.slot?_eq ha.2 hne h
    cases s with
    | declare => exact absurd rfl ha.1
    | bind => exact absurd rfl ha.2
    | build | breakOff | intern | native => exact answerAt_prolongs h hprolongs hlt
    | allocate => rfl
    | describe | resize => exact answerAt_congr rfl rfl (hslot nofun)
    | fill n i m' d slot hd hempty hlt' hm' hfits hmade =>
      by_cases heq : Act.fill n i = .fill ty index
      · -- What was made for the method is now in its slot.
        cases heq
        cases hm.symm.trans hm'
        rw [h.descriptors ty d hd] at hr
        obtain rfl := Option.some.inj hr
        have hnone : u.slot? ty index = none := by rw [slot?, hd, Option.bind_some, hempty]
        have hsome : slot? { u with
            descriptors := u.descriptors.set ty (d.fill index slot)
            synthesized := u.synthesized + 1 } ty index = some slot := by
          rw [slot?_set_self, Descriptor.slot?_fill_self hlt']
        rw [answerAt, answerAt, hnone, hsome]
        simp only [hmade]
        rfl
      · exact answerAt_congr rfl rfl (hslot heq)

/-- What the cache tells is what is answered. -/
theorem cached?_eq_answer (h : Sound u) {answered : Except TypeError Method}
    (hcached : u.cached? ty index = some answered) :
    u.Decided ty index ∧ u.answer ty index = answered := by
  unfold cached? at hcached
  cases hslot : u.slot? ty index with
  | none =>
    rw [show (u.descriptors.find? ty).bind (·.slot? index) = none from hslot] at hcached
    cases hcached
  | some slot =>
    obtain ⟨m, r, hr, hprovides⟩ := h.slot_provided hslot
    have hm := (methodAt_eq_ok.mp hprovides.decl).2.2
    rw [show (u.descriptors.find? ty).bind (·.slot? index) = some slot from hslot] at hcached
    simp only [hm, Option.some.injEq] at hcached
    refine ⟨.inr ⟨r, hr⟩, ?_⟩
    rw [answer_of_built h hr hprovides.decl, answerAt, hslot]
    exact hcached

theorem Steps.slot?_eq {A : Set Act} (hA : ∀ a ∈ A, a ≠ .bind ∧ a ≠ .fill ty index)
    (s : Steps A u u') (h : Sound u) : u'.slot? ty index = u.slot? ty index :=
  (s.keeps (P := fun v => v.slot? ty index = u.slot? ty index)
    (fun ha step hv heq => (step.slot?_eq (hA _ ha).1 (hA _ ha).2 hv).trans heq) h rfl).2

theorem Steps.catalog_eq {A : Set Act} (hA : .declare ∉ A) (s : Steps A u u') (h : Sound u) :
    u'.catalog = u.catalog := by
  refine (s.keeps (P := fun v => v.catalog = u.catalog) (fun ha step _ heq => ?_) h rfl).2
  refine (step.catalog_eq ?_).trans heq
  rintro rfl
  exact hA ha

theorem Steps.answer_eq {A : Set Act} (hA : A ⊆ Act.quiet) (s : Steps A u u') (h : Sound u)
    (hdecided : u.Decided ty index) :
    u'.Decided ty index ∧ u'.answer ty index = u.answer ty index :=
  (s.keeps (P := fun v => v.Decided ty index ∧ v.answer ty index = u.answer ty index)
    (fun ha step hv ⟨hd, heq⟩ =>
      ⟨step.decided (hA ha).1 hv hd, (step.answer_eq (hA ha) hv hd).trans heq⟩)
    h ⟨hdecided, rfl⟩).2

end Answer

/-! ### What resolving does -/

/-- Resolving the method at an index. -/
def Act.resolving (ty : TypeId) (index : Nat) : Set Act :=
  {.build, .breakOff, .intern, .describe ty, .resize ty, .fill ty index}

theorem Act.resolving_subset_quiet (ty : TypeId) (index : Nat) :
    Act.resolving ty index ⊆ Act.quiet := by
  rintro a (rfl | rfl | rfl | rfl | rfl | rfl) <;> exact ⟨nofun, nofun⟩

/-- What is answered can be kept: it is a method of an interface, or one with a callable. -/
def Cacheable (c : Catalog) (method : Method) : Prop :=
  (c.interface? method.owner).isSome = true ∨ method.func.isSome = true

/-- A resolution in `u` was answered by `answered` and left `u'`, where the method is decided unless
the answer was that its type is incomplete, and kept if it can be. -/
structure Resolves (u : Universe) (ty : TypeId) (index : Nat) (answered : Except TypeError Method)
    (u' : Universe) : Prop where
  answer : u.answer ty index = answered
  decided : (∀ e, answered = .error e → e.isIncomplete = false) →
    u'.Decided ty index ∧ u'.answer ty index = answered
  kept : ∀ method, answered = .ok method → Cacheable u.catalog method →
    (u'.slot? ty index).isSome = true

section Resolve

variable {u : Universe} {ty : TypeId} {index : Nat} {m : MethodDecl} {repr : ReprId} {A : Set Act}

/-- What an interface answers can be kept, and has no callable. -/
theorem cacheable_of_interfaceSlot {name : String} {made : Synthesized}
    (h : u.interfaceSlot ty index name repr = .ok made) :
    made.cacheable = true ∧ made.slot.func = none := by
  unfold interfaceSlot at h
  dsimp only at h
  split at h
  · split at h
    · cases h
      exact ⟨rfl, rfl⟩
    · cases h
  split at h
  · split at h
    · split at h
      · cases h
      · split at h
        · cases h
          exact ⟨rfl, rfl⟩
        · cases h
    · cases h
      exact ⟨rfl, rfl⟩
  · cases h

/-- What is made for a method is cacheable exactly if its answer is. -/
theorem cacheable_iff_of_slotFor {made : Synthesized}
    (h : u.slotFor ty index m repr = .ok made) :
    made.cacheable = true ↔ Cacheable u.catalog (made.slot.paired ty index m) := by
  unfold slotFor at h
  split at h
  · next hiface => exact iff_of_true (cacheable_of_interfaceSlot h).1 (.inl hiface)
  next hiface =>
  split at h
  · cases h
    exact iff_of_true rfl (.inr rfl)
  · split at h
    · cases h
    · cases h
      simp [Cacheable, MethodSlot.paired, MethodSlot.blank, hiface]

theorem searched_eq (u : Universe) (ty : TypeId) (name : String) (repr : ReprId) :
    u.searched ty name repr = { u with reprs := (u.searched ty name repr).reprs } := by
  unfold searched
  split <;> rfl

theorem prolongs_searched (u : Universe) (ty : TypeId) (name : String) (repr : ReprId) :
    ReprTable.Prolongs u.reprs (u.searched ty name repr).reprs := by
  unfold searched
  split
  · exact .refl _
  · exact ReprTable.prolongs_search ..

theorem steps_searched (hA : .intern ∈ A) (ty : TypeId) (name : String)
    (hrepr : repr.index < u.reprs.size) :
    (stepping A).ok u (u.searched ty name repr) := by
  unfold searched ReprTable.search
  split
  · exact .refl
  split
  · exact .refl
  split
  · exact .refl
  · exact .single ⟨.intern, ⟨hA, nofun⟩, .intern repr hrepr⟩

/-- The descriptor of a type is in its table afterwards. -/
theorem ends_descriptor (hA : {.build, .breakOff, .describe ty} ⊆ A) (h : Sound u) :
    Ends (descriptor ty) u
      (fun d u' => (stepping A).ok u u' ∧ u'.descriptors.find? ty = some d ∧
        u.represented ty = (.ok d.repr, u'.reprs))
      (fun e u' => (stepping A).fail e u u' ∧ e.isIncomplete = true ∧
        ∃ t, u.represented ty = (.error e, t)) := by
  unfold descriptor
  rw [ends_bind, ends_get]
  split
  · next d hd => exact ⟨.refl, hd, by simp only [represented, hd]⟩
  next hnone =>
  dsimp only
  split
  · next hkind => exact ⟨.refl, rfl, u.reprs, by simp only [represented, hnone, if_pos hkind]⟩
  next hkind =>
  have hrepresented : u.represented ty = (ReprM.reprOf u.catalog ty).run.run u.reprs := by
    simp only [represented, hnone, if_neg hkind]
  rw [hrepresented]
  refine ends_bind.mpr (ends_onReprs.mpr ?_)
  rcases hrun : (ReprM.reprOf u.catalog ty).run.run u.reprs with ⟨e | r, t⟩
  · obtain ⟨name, rfl⟩ := (h.builds_of_error hrun).1
    refine (ends_of_error hrun).mpr ⟨.single ⟨.breakOff, ⟨hA ?_, fun _ => rfl⟩, ?_⟩, rfl, t, rfl⟩
    · simp
    · exact .breakOff ty _ t hrun
  · refine (ends_of_ok hrun).mpr (ends_bind.mpr ((ends_modify _).mpr ⟨?_, ?_, rfl⟩))
    · refine .tail (.single ⟨.build, ⟨hA ?_, nofun⟩, .build ty r t hrun⟩)
        ⟨.describe ty, ⟨hA ?_, nofun⟩, .describe ty r hnone (h.builds_of_ok hrun).2⟩ <;> simp
    · exact Assoc.find?_set_self ..

/-- What `resolve` does where a slot is empty: it makes the slot and keeps it if it can be kept. -/
def synthesizeKept (ty : TypeId) (index : Nat) (m : MethodDecl) (repr : ReprId) :
    UniverseM Method := do
  let made ← synthesize ty index m repr
  let method ← ofExcept ((← get).makeMethod ty index m made.slot)
  if made.cacheable then
    fillSlot ty index made.slot
  return method

theorem ends_synthesizeKept (hA : Act.resolving ty index ⊆ A) (h : Sound u) {d : Descriptor}
    (hd : u.descriptors.find? ty = some d) (hempty : d.slot? index = none)
    (hlt : index < d.slots.length) (hm : methodAt u.catalog ty index = .ok m) :
    Ends (synthesizeKept ty index m d.repr) u
      (fun method u' => (stepping A).ok u u' ∧ u.answerAt ty index m d.repr = .ok method ∧
        (Cacheable u.catalog method → (u'.slot? ty index).isSome = true))
      (fun e u' => (stepping A).fail e u u' ∧ u.answerAt ty index m d.repr = .error e) := by
  have hrepr := h.lt_size (h.descriptors ty d hd)
  have hnone : u.slot? ty index = none := by rw [slot?, hd, Option.bind_some, hempty]
  have hprolongs := prolongs_searched u ty m.name d.repr
  have hsearched := searched_eq u ty m.name d.repr
  have s : (stepping A).ok u (u.searched ty m.name d.repr) :=
    steps_searched (hA (by simp [Act.resolving])) ty m.name hrepr
  refine ends_bind.mpr (ends_synthesize.mpr ⟨fun made hmade => ?_, fun e he => ?_⟩)
  · have hmethod : (u.searched ty m.name d.repr).makeMethod ty index m made.slot =
        u.answerAt ty index m d.repr := by
      rw [hsearched, makeMethod_eq h.reprs.bounds hprolongs.extended
        (h.parts_lt_of_slotFor hrepr hmade), answerAt, hnone]
      simp only [hmade]
    rw [ends_bind, ends_get, hmethod]
    refine ends_bind.mpr (ends_ofExcept.mpr ⟨fun method hanswer => ?_, fun e hanswer => ?_⟩)
    · obtain ⟨hfits, rfl⟩ := fits_of_makeMethod (hmethod.trans hanswer)
      dsimp only
      split
      · next hkept =>
        have hslot : made = ⟨made.slot, true⟩ := by rw [← hkept]
        refine ends_bind.mpr ((ends_modify _).mpr ?_)
        rw [hsearched]
        simp only [hd]
        refine ⟨?_, hanswer, fun _ => ?_⟩
        · refine .tail (hsearched ▸ s) ⟨.fill ty index, ⟨hA (by simp [Act.resolving]), nofun⟩, ?_⟩
          refine .fill ty index m d made.slot hd hempty hlt hm hfits ?_
          rw [slotFor_eq h.reprs.bounds hprolongs hrepr, hmade, ← hslot]
        · rw [slot?, Assoc.find?_set_self, Option.bind_some, Descriptor.slot?_fill_self hlt]
          rfl
      · next hkept =>
        exact ⟨s, hanswer, fun hc => absurd ((cacheable_iff_of_slotFor hmade).mpr hc) hkept⟩
    · exact ⟨(stepping A).trans_fail s .refl, hanswer⟩
  · refine ⟨(stepping A).trans_fail s .refl, ?_⟩
    rw [answerAt, hnone]
    simp only [he]

/-- What `resolve` does once a type has the descriptor `d`. -/
def resolveWith (ty : TypeId) (index : Nat) (m : MethodDecl) (d : Descriptor) :
    UniverseM Method := do
  setDescriptor ty d
  match d.slot? index with
  | some slot => ofExcept ((← get).makeMethod ty index m slot)
  | none => synthesizeKept ty index m d.repr

theorem ends_resolveWith (hA : Act.resolving ty index ⊆ A) (h : Sound u) {d : Descriptor}
    (hd : u.descriptors.find? ty = some d) (hm : methodAt u.catalog ty index = .ok m) :
    Ends (resolveWith ty index m (d.resize (u.catalog.numMethod ty))) u
      (fun method u' => (stepping A).ok u u' ∧ u.answerAt ty index m d.repr = .ok method ∧
        (Cacheable u.catalog method → (u'.slot? ty index).isSome = true))
      (fun e u' => (stepping A).fail e u u' ∧ u.answerAt ty index m d.repr = .error e) := by
  have hresize := Step.resize ty d hd
  have s : (stepping A).ok u _ :=
    .single ⟨.resize ty, ⟨hA (by simp [Act.resolving]), nofun⟩, hresize⟩
  have hsame : answerAt { u with
      descriptors := u.descriptors.set ty (d.resize (u.catalog.numMethod ty)) } ty index m d.repr =
        u.answerAt ty index m d.repr :=
    answerAt_congr rfl rfl (hresize.slot?_eq nofun nofun h)
  unfold resolveWith setDescriptor
  refine ends_bind.mpr ((ends_modify _).mpr ?_)
  cases hfilled : (d.resize (u.catalog.numMethod ty)).slot? index with
  | some slot =>
    have hanswer : u.answerAt ty index m d.repr = u.makeMethod ty index m slot := by
      rw [← hsame, answerAt, slot?_set_self, hfilled]
      rfl
    refine ends_bind.mpr (ends_get.mpr (ends_ofExcept.mpr ?_))
    refine ⟨fun method hmethod => ⟨s, hanswer.trans hmethod, fun _ => ?_⟩, fun e he =>
      ⟨(stepping A).trans_fail s .refl, hanswer.trans he⟩⟩
    rw [slot?_set_self, hfilled]
    rfl
  | none =>
    refine Ends.mono (ends_synthesizeKept hA (hresize.sound h) (Assoc.find?_set_self ..) hfilled
      ?_ hm) (fun method u' ⟨s', hanswer, hkept⟩ => ?_) fun e u' ⟨s', hanswer⟩ => ?_
    · rw [Descriptor.length_resize]
      exact lt_numMethod_of_methodAt hm
    · exact ⟨s.trans s', hsame.symm.trans hanswer, hkept⟩
    · exact ⟨(stepping A).trans_fail s s', hsame.symm.trans hanswer⟩

/-- **Resolving answers as `answer` says.** -/
theorem ends_resolve (hA : Act.resolving ty index ⊆ A) (h : Sound u) :
    Ends (resolve ty index) u
      (fun method u' => (stepping A).ok u u' ∧ Resolves u ty index (.ok method) u')
      (fun e u' => (stepping A).fail e u u' ∧ Resolves u ty index (.error e) u') := by
  unfold resolve
  rw [ends_bind, ends_get]
  dsimp only
  rw [ends_bind]
  cases hm : methodAt u.catalog ty index with
  | error e =>
    have hanswer : u.answer ty index = .error e := by simp only [answer, hm]
    exact ⟨.refl, hanswer, fun _ => ⟨.inl ⟨e, hm⟩, hanswer⟩, fun _ hok => by cases hok⟩
  | ok m =>
  rw [ofExcept, ends_pure, ends_bind]
  have hdescribe : {.build, .breakOff, .describe ty} ⊆ A := fun a ha => hA (by
    rcases ha with rfl | rfl | rfl <;> simp [Act.resolving])
  refine Ends.mono (ends_descriptor subset_rfl h) ?described ?incomplete
  case incomplete =>
    rintro e u' ⟨s, hincomplete, t, hrepresented⟩
    refine ⟨stepping_fail_mono hdescribe s, by simp only [answer, hm, hrepresented],
      fun hcomplete => ?_, fun _ hok => by cases hok⟩
    rw [hcomplete e rfl] at hincomplete
    cases hincomplete
  rintro d u₁ ⟨s₁, hd, hrepresented⟩
  -- The type is represented now, and nothing that is left to do changes the answer.
  have h₁ := Steps.sound s₁ h
  have hcatalog : u₁.catalog = u.catalog := Steps.catalog_eq (by simp) s₁ h
  have hslot : u₁.slot? ty index = u.slot? ty index := Steps.slot?_eq (by simp) s₁ h
  have hbuilt := h₁.descriptors ty d hd
  have hm₁ : methodAt u₁.catalog ty index = .ok m := by rw [hcatalog, hm]
  have hanswer : u.answer ty index = u₁.answerAt ty index m d.repr := by
    have hsame : u₁.answerAt ty index m d.repr =
        answerAt { u with reprs := u₁.reprs } ty index m d.repr :=
      answerAt_congr hcatalog rfl hslot
    simp only [answer, hm, hrepresented, hsame]
  have hdone : ∀ {answered u'}, Steps (Act.resolving ty index) u₁ u' →
      u₁.answerAt ty index m d.repr = answered →
      (∀ method, answered = .ok method → Cacheable u.catalog method →
        (u'.slot? ty index).isSome = true) → Resolves u ty index answered u' := by
    intro answered u' s hanswered hkept
    obtain ⟨hdecided, hsame⟩ := Steps.answer_eq (Act.resolving_subset_quiet ty index) s h₁
      (.inr ⟨d.repr, hbuilt⟩)
    refine ⟨hanswer.trans hanswered, fun _ => ⟨hdecided, ?_⟩, hkept⟩
    rw [hsame, answer_of_built h₁ hbuilt hm₁, hanswered]
  rw [← hcatalog] at hdone ⊢
  refine Ends.mono (ends_resolveWith subset_rfl h₁ hd hm₁) ?_ ?_
  · rintro method u' ⟨s₂, hanswered, hkept⟩
    refine ⟨(stepping_ok_mono hdescribe s₁).trans (stepping_ok_mono hA s₂), ?_⟩
    refine hdone (Steps.mono (fun _ ha => ha.1) s₂) hanswered fun method' hmethod => ?_
    rwa [← Except.ok.inj hmethod]
  · rintro e u' ⟨s₂, hanswered⟩
    refine ⟨(stepping A).trans_fail (stepping_ok_mono hdescribe s₁) (stepping_fail_mono hA s₂), ?_⟩
    exact hdone (Steps.mono (fun _ ha => ha.1) s₂) hanswered fun _ hok => by cases hok

/-- What the cache tells resolves the method, and leaves the universe as it is. -/
theorem resolves_of_cached? (h : Sound u) {answered : Except TypeError Method}
    (hcached : u.cached? ty index = some answered) : Resolves u ty index answered u := by
  obtain ⟨hdecided, hanswer⟩ := cached?_eq_answer h hcached
  refine ⟨hanswer, fun _ => ⟨hdecided, hanswer⟩, fun _ _ _ => ?_⟩
  cases hslot : u.slot? ty index with
  | some slot => rfl
  | none =>
    have hnone : u.cached? ty index = none := by
      unfold cached?
      rw [show (u.descriptors.find? ty).bind (·.slot? index) = none from hslot]
    cases hnone.symm.trans hcached

/-- **A look at the cache first makes no difference to the answer.** -/
theorem ends_method (hA : Act.resolving ty index ⊆ A) (h : Sound u) :
    Ends (method ty index) u
      (fun method u' => (stepping A).ok u u' ∧ Resolves u ty index (.ok method) u')
      (fun e u' => (stepping A).fail e u u' ∧ Resolves u ty index (.error e) u') := by
  unfold method
  rw [ends_bind, ends_get]
  split
  · next answered hcached =>
    have hresolves := resolves_of_cached? h hcached
    refine ends_ofExcept.mpr ⟨fun method hmethod => ?_, fun e he => ?_⟩
    · exact ⟨.refl, hmethod ▸ hresolves⟩
    · exact ⟨.refl, he ▸ hresolves⟩
  · exact ends_resolve hA h

/-- What `ends_resolve` and `ends_method` say of a run. -/
theorem resolves_of_ends {x : UniverseM Method}
    (h : Ends x u (fun method u' => (stepping A).ok u u' ∧ Resolves u ty index (.ok method) u')
      fun e u' => (stepping A).fail e u u' ∧ Resolves u ty index (.error e) u') :
    Steps A u (x.run.run u).2 ∧ Resolves u ty index (x.run.run u).1 (x.run.run u).2 := by
  unfold Ends at h
  rcases hrun : x.run.run u with ⟨_ | _, _⟩ <;> rw [hrun] at h
  · exact ⟨Steps.mono (fun _ ha => ha.1) h.1, h.2⟩
  · exact ⟨Steps.mono (fun _ ha => ha.1) h.1, h.2⟩

/-- Resolving is steps without declarations and bindings, whatever the answer. -/
theorem resolves_resolve (h : Sound u) (ty : TypeId) (index : Nat) :
    Steps Act.quiet u ((resolve ty index).run.run u).2 ∧
      Resolves u ty index ((resolve ty index).run.run u).1 ((resolve ty index).run.run u).2 :=
  resolves_of_ends (ends_resolve (Act.resolving_subset_quiet ty index) h)

theorem resolves_method (h : Sound u) (ty : TypeId) (index : Nat) :
    Steps Act.quiet u ((method ty index).run.run u).2 ∧
      Resolves u ty index ((method ty index).run.run u).1 ((method ty index).run.run u).2 :=
  resolves_of_ends (ends_method (Act.resolving_subset_quiet ty index) h)

theorem run_resolve_fst (h : Sound u) (ty : TypeId) (index : Nat) :
    ((resolve ty index).run.run u).1 = u.answer ty index :=
  (resolves_resolve h ty index).2.answer.symm

theorem run_method_fst (h : Sound u) (ty : TypeId) (index : Nat) :
    ((method ty index).run.run u).1 = u.answer ty index :=
  (resolves_method h ty index).2.answer.symm

end Resolve

end ScriptEngine.Universe
