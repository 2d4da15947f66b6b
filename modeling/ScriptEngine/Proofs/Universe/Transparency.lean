import Mathlib
import ScriptEngine.Proofs.Universe.Attribution

/-!
When resolved methods are answered as if nothing had been kept.

`Universe.emptied` forgets every slot, and a method is `Transparent` if resolving it answers the
same there. The slot of a method can hold a callable that was found on the pointers to a type. Nothing
forgets that slot when another callable is bound to the type itself, which would be found first
(`Shadowed`). Main statement: the cache always tells what is resolved, and a method is transparent
exactly if its slot is not shadowed, as is always so where callables are attached only by binding
methods (`transparent_iff_not_shadowed`).
-/

namespace ScriptEngine

/-- The descriptor with every slot empty. -/
def Descriptor.emptied (d : Descriptor) : Descriptor :=
  { d with slots := d.slots.map fun _ => none }

namespace Universe

/-- The universe with every method slot empty. -/
def emptied (u : Universe) : Universe :=
  { u with descriptors := u.descriptors.mapValues Descriptor.emptied }

/-- Resolving a method answers the same as if no slot were filled. -/
def Transparent (u : Universe) (ty : TypeId) (index : Nat) : Prop :=
  ((resolve ty index).run.run u).1 = ((resolve ty index).run.run u.emptied).1

/-- The slot of the method holds another callable than the one that is bound, under the method's
name, to the representation of the type itself. -/
def Shadowed (u : Universe) (ty : TypeId) (index : Nat) : Prop :=
  u.catalog.interface? ty = none ∧ ∃ slot m r own, u.slot? ty index = some slot ∧
    methodAt u.catalog ty index = .ok m ∧ u.reprs.built.find? ty = some r ∧
    u.reprs.callable? r m.name = some own ∧ slot ≠ .ofCallable own

section Transparency

variable {u : Universe} {ty : TypeId} {index : Nat} {m : MethodDecl} {r : ReprId}
  {slot slot' : MethodSlot}

theorem slot?_emptied (u : Universe) (ty : TypeId) (index : Nat) :
    u.emptied.slot? ty index = none := by
  rw [slot?, emptied, Assoc.find?_mapValues]
  cases u.descriptors.find? ty with
  | none => rfl
  | some d =>
    rw [Option.map_some, Option.bind_some, Descriptor.slot?, Descriptor.emptied, List.getElem?_map]
    cases d.slots[index]? <;> rfl

theorem Sound.emptied (h : Sound u) : Sound u.emptied := by
  have hfind : ∀ {ty d'}, u.emptied.descriptors.find? ty = some d' →
      ∃ d, u.descriptors.find? ty = some d ∧ d' = d.emptied := by
    intro ty d' hd'
    rw [Universe.emptied, Assoc.find?_mapValues, Option.map_eq_some_iff] at hd'
    obtain ⟨d, hd, rfl⟩ := hd'
    exact ⟨d, hd, rfl⟩
  refine ⟨h.catalog, h.methods, h.reprs, h.recorded, h.callables, fun ty d' hd' => ?_,
    fun ty d' index slot hd' hslot => ?_⟩
  · obtain ⟨d, hd, rfl⟩ := hfind hd'
    exact h.descriptors ty d hd
  · have hsome : u.emptied.slot? ty index = some slot := by
      rw [slot?, hd', Option.bind_some, hslot]
    rw [slot?_emptied] at hsome
    cases hsome

theorem represented_emptied (u : Universe) (ty : TypeId) :
    u.emptied.represented ty = u.represented ty := by
  rw [represented, represented, emptied, Assoc.find?_mapValues]
  cases u.descriptors.find? ty <;> rfl

theorem paired_injective (h : slot.paired ty index m = slot'.paired ty index m) : slot = slot' := by
  have hty : slot.ty = slot'.ty :=
    Option.map_injective (fun f g hfg => (MethodType.mk.inj hfg).2) (congrArg Method.ty h)
  have hfunc : slot.func = slot'.func := congrArg Method.func h
  cases slot
  cases slot'
  cases hty
  cases hfunc
  rfl

/-- A filled slot is answered as it stands. -/
theorem answer_of_slot (h : Sound u) (hslot : u.slot? ty index = some slot) :
    ∃ m r, u.reprs.built.find? ty = some r ∧ u.Provides ty index m r slot ∧
      u.answer ty index = .ok (slot.paired ty index m) := by
  obtain ⟨m, r, hr, hprovides⟩ := h.slot_provided hslot
  refine ⟨m, r, hr, hprovides, ?_⟩
  rw [answer_of_built h hr hprovides.decl, answerAt, hslot]
  exact makeMethod_of_fits hprovides.fits

/-- Without slots, a represented type is answered by what is made for its method. -/
theorem answer_emptied (h : Sound u) (hr : u.reprs.built.find? ty = some r)
    (hm : methodAt u.catalog ty index = .ok m) :
    u.emptied.answer ty index = match u.slotFor ty index m r with
      | .ok made => u.makeMethod ty index m made.slot
      | .error e => .error e := by
  rw [answer_of_built h.emptied hr hm, answerAt, slot?_emptied]
  rfl

/-- An empty slot is as good as no slots. -/
theorem answer_eq_of_slot_none (hslot : u.slot? ty index = none) :
    u.answer ty index = u.emptied.answer ty index := by
  unfold answer
  rw [represented_emptied]
  cases hm : methodAt u.catalog ty index with
  | error e => simp only [emptied, hm]
  | ok m =>
    simp only [emptied, hm]
    rcases u.represented ty with ⟨e | r, t⟩
    · rfl
    · exact answerAt_congr rfl rfl (hslot.trans (slot?_emptied u ty index).symm)

/-- What a filled slot holds would be made again, unless it is shadowed. -/
theorem slotFor_of_slot (hprovides : u.Provides ty index m r slot)
    (hunshadowed : ∀ own, u.catalog.interface? ty = none →
      u.reprs.callable? r m.name = some own → slot = .ofCallable own) :
    u.slotFor ty index m r = .ok ⟨slot, true⟩ := by
  cases hiface : u.catalog.interface? ty with
  | some d =>
    have hi : (u.catalog.interface? ty).isSome = true := by rw [hiface]; rfl
    rw [slotFor, if_pos hi]
    exact hprovides.interface hi
  | none =>
    have hi : (u.catalog.interface? ty).isSome = false := by rw [hiface]; rfl
    obtain ⟨callable, hattached, rfl⟩ := hprovides.bound hi
    have hsearch : ∃ found, (u.reprs.search r m.name).1 = some found ∧
        MethodSlot.ofCallable callable = .ofCallable found := by
      cases hown : u.reprs.callable? r m.name with
      | some own =>
        exact ⟨own, ReprTable.search_eq_some.mpr (.inl hown), hunshadowed own hiface hown⟩
      | none =>
        refine ⟨callable, ReprTable.search_eq_some.mpr (.inr ⟨hown, ?_⟩), rfl⟩
        exact hattached.resolve_left fun hsome => by cases hown.symm.trans hsome
    obtain ⟨found, hfound, hsame⟩ := hsearch
    rw [slotFor, hi, if_neg (by decide), hfound, hsame]

theorem transparent_of_not_shadowed (h : Sound u) (hshadowed : ¬ u.Shadowed ty index) :
    u.Transparent ty index := by
  rw [Transparent, run_resolve_fst h, run_resolve_fst h.emptied]
  cases hslot : u.slot? ty index with
  | none => exact answer_eq_of_slot_none hslot
  | some slot =>
    obtain ⟨m, r, hr, hprovides, hanswer⟩ := answer_of_slot h hslot
    have hmade := slotFor_of_slot hprovides fun own hiface hown => by
      by_contra hne
      exact hshadowed ⟨hiface, slot, m, r, own, hslot, hprovides.decl, hr, hown, hne⟩
    rw [hanswer, answer_emptied h hr hprovides.decl, hmade]
    exact (makeMethod_of_fits hprovides.fits).symm

theorem not_shadowed_of_transparent (h : Sound u) (htransparent : u.Transparent ty index) :
    ¬ u.Shadowed ty index := by
  rintro ⟨hiface, slot, m, r, own, hslot, hm, hr, hown, hne⟩
  rw [Transparent, run_resolve_fst h, run_resolve_fst h.emptied] at htransparent
  obtain ⟨m', r', hr', hprovides, hanswer⟩ := answer_of_slot h hslot
  obtain rfl := Except.ok.inj (hm.symm.trans hprovides.decl)
  have hmade : u.slotFor ty index m r = .ok ⟨.ofCallable own, true⟩ := by
    rw [slotFor, hiface, Option.isSome_none, if_neg (by decide),
      ReprTable.search_eq_some.mpr (.inl hown)]
  -- Without slots the own callable is answered, which is not what the slot holds.
  rw [hanswer, answer_emptied h hr hm, hmade] at htransparent
  exact hne (paired_injective (fits_of_makeMethod htransparent.symm).2)

/-- Where callables are attached only by binding methods, no slot is shadowed. -/
theorem Attributed.not_shadowed {B : Bindings} (hattributed : Attributed B u) (h : Sound u) :
    ¬ u.Shadowed ty index := by
  rintro ⟨hiface, slot, m, r, own, hslot, hm, hr, hown, hne⟩
  obtain ⟨m', r', hr', hprovides⟩ := h.slot_provided hslot
  obtain rfl := Except.ok.inj (hm.symm.trans hprovides.decl)
  obtain rfl := Option.some.inj (hr.symm.trans hr')
  obtain ⟨callable, hattached, rfl⟩ := hprovides.bound (by rw [hiface]; rfl)
  have hn : u.catalog.isNamed ty = true := by
    refine (methodAt_eq_ok.mp hm).2.1.resolve_right fun hkind => ?_
    rw [← Catalog.isSome_interface?, hiface] at hkind
    cases hkind
  exact hne (congrArg _ (hattributed.unique h hn hiface hr hattached (.inl hown)))

/-- **The cache tells what is resolved, and a method is transparent exactly if its slot is not
shadowed.** So it always is where callables are attached only by binding methods. -/
theorem transparent_iff_not_shadowed (h : u.Reachable) (ty : TypeId) (index : Nat) :
    (∀ answered, u.cached? ty index = some answered →
        ((resolve ty index).run.run u).1 = answered) ∧
      ((method ty index).run.run u).1 = ((resolve ty index).run.run u).1 ∧
      (u.Transparent ty index ↔ ¬ u.Shadowed ty index) ∧
      (ReachableBy (fun _ op => ∀ r name callable, op ≠ .bindCallable r name callable) u →
        u.Transparent ty index) := by
  refine ⟨fun answered hcached => ?_, ?_, ⟨not_shadowed_of_transparent h.sound,
    transparent_of_not_shadowed h.sound⟩, fun hmethods => ?_⟩
  · rw [run_resolve_fst h.sound]
    exact (cached?_eq_answer h.sound hcached).2
  · rw [run_resolve_fst h.sound, run_method_fst h.sound]
  · have hbound : ∃ B, BoundBy (fun _ _ => True) B u :=
      exists_boundBy (hmethods.mono fun _ _ hop => ⟨trivial, hop⟩)
    obtain ⟨B, hB⟩ := hbound
    exact transparent_of_not_shadowed h.sound (hB.attributed.not_shadowed h.sound)

end Transparency

/-- A method of pointers to a name that is resolved before a callable of that name is bound to the
name itself: `type T struct{}`, `func (t *T) M()`. -/
def shadowing : Universe := after [
  .structOf [],
  .declareNamed "T" none,
  .setUnderlying ⟨1⟩ ⟨0⟩,
  .pointerTo ⟨1⟩,
  .addMethod ⟨1⟩ ⟨"M", none, ⟨some ⟨2⟩, [], [], false⟩⟩,
  .allocFunc,
  .allocFunc,
  .reprOf ⟨2⟩,
  .bindCallable ⟨2⟩ "M" ⟨⟨[⟨2⟩], [], false⟩, ⟨0⟩⟩,
  .resolve ⟨1⟩ 0,
  .bindCallable ⟨0⟩ "M" ⟨⟨[⟨0⟩], [], false⟩, ⟨1⟩⟩]

/-- The slot of the method is answered still, although the name's own callable would be found. -/
theorem not_transparent_shadowing : shadowing.Reachable ∧ shadowing.Shadowed ⟨1⟩ 0 ∧
    ¬ shadowing.Transparent ⟨1⟩ 0 ∧
    shadowing.slot? ⟨1⟩ 0 = some ⟨some ⟨[⟨2⟩], [], false⟩, some ⟨0⟩⟩ ∧
    (shadowing.reprs.search ⟨0⟩ "M").1 = some ⟨⟨[⟨0⟩], [], false⟩, ⟨1⟩⟩ := by
  have hreach : shadowing.Reachable := reachable_after (by cbv)
  have hslot : shadowing.slot? ⟨1⟩ 0 = some ⟨some ⟨[⟨2⟩], [], false⟩, some ⟨0⟩⟩ := by cbv
  have hown : shadowing.reprs.callable? ⟨0⟩ "M" = some ⟨⟨[⟨0⟩], [], false⟩, ⟨1⟩⟩ := by cbv
  have hshadowed : shadowing.Shadowed ⟨1⟩ 0 :=
    ⟨by cbv, _, ⟨"M", none, ⟨some ⟨2⟩, [], [], false⟩⟩, ⟨0⟩, _, hslot, by cbv, by cbv, hown,
      by simp [MethodSlot.ofCallable]⟩
  refine ⟨hreach, hshadowed, fun htransparent => ?_, hslot,
    ReprTable.search_eq_some.mpr (.inl hown)⟩
  exact (transparent_iff_not_shadowed hreach ⟨1⟩ 0).2.2.1.mp htransparent hshadowed

end Universe

end ScriptEngine
