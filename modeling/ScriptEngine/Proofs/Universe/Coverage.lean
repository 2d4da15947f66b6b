import Mathlib
import ScriptEngine.Proofs.Types.EmbeddingPath
import ScriptEngine.Proofs.Universe.History

/-!
Interface satisfaction.

A type satisfies an interface if each wanted method is covered: one shallowest embedding path leads
to a declaration with as many parameters and results and the same variadic flag, and a declaration
with a pointer receiver is reached through a pointer. That can mean that some type on the path is a
pointer (`MeetsPointer`), or that its last one is (`EndsAtPointer`). The search remembers the last
one only, so `implements` decides the second (`covers_iff`), and the two differ exactly for pointer
receivers at the end of paths with pointers before the last field.
-/

namespace ScriptEngine

/-- As many parameters and results, and the same variadic flag. -/
def MethodDecl.SameShape (found wanted : MethodDecl) : Prop :=
  found.sig.params.length = wanted.sig.params.length ∧
    found.sig.results.length = wanted.sig.results.length ∧
    found.sig.variadic = wanted.sig.variadic

namespace Catalog

/-- The receiver of a declaration is a pointer. -/
def NeedsPointer (c : Catalog) (found : MethodDecl) : Prop :=
  ∃ recv, found.sig.recv = some recv ∧ c.isPointer recv = true

/-- The last field on a path from `ty`, which for the empty path is `ty` itself, is a pointer. -/
def EndsAtPointer (c : Catalog) (ty : TypeId) (path : List Nat) : Prop :=
  ∃ last, c.pathEnd? ty path = some last ∧ c.isPointer last = true

/-- The type itself or some field on a path from it is a pointer. -/
def MeetsPointer (c : Catalog) (ty : TypeId) (path : List Nat) : Prop :=
  ∃ front, front <+: path ∧ c.EndsAtPointer ty front

/-- The only shallowest path for a name, and what the type at its end declares under it. -/
structure Selects (c : Catalog) (ty : TypeId) (name : String) (path : List Nat)
    (found : MethodDecl) : Prop where
  shallowest : c.IsShallowest ty name path
  only : ∀ path', c.IsShallowest ty name path' → path' = path
  declared : ∃ t, c.target? ty path = some t ∧
    (c.methods t).find? (·.name == name) = some found

/-- What `ty` has under the name of `wanted` can stand for it, where a pointer receiver asks for an
`addressable` path. -/
def Covered (c : Catalog) (addressable : List Nat → Prop) (ty : TypeId) (wanted : MethodDecl) :
    Prop :=
  ∃ path found, c.Selects ty wanted.name path found ∧ found.SameShape wanted ∧
    (c.NeedsPointer found → addressable path)

variable {c : Catalog} {ty : TypeId} {name : String} {wanted : MethodDecl}

theorem EndsAtPointer.meetsPointer {path : List Nat} (h : c.EndsAtPointer ty path) :
    c.MeetsPointer ty path :=
  ⟨path, List.prefix_refl path, h⟩

theorem Covered.mono {p q : List Nat → Prop} (hpq : ∀ path, p path → q path)
    (h : c.Covered p ty wanted) : c.Covered q ty wanted := by
  obtain ⟨path, found, hselects, hshape, hpointer⟩ := h
  exact ⟨path, found, hselects, hshape, fun hneeds => hpq path (hpointer hneeds)⟩

/-- A search finds what the name selects. -/
theorem WellFormed.selects_of_findMethod (wf : c.WellFormed) {p : MethodPath} {found : MethodDecl}
    (hp : c.findMethod ty name = some p) (hfound : (c.methods p.owner)[p.index]? = some found) :
    c.Selects ty name p.fields found := by
  obtain ⟨⟨last, hlast, howner, hindex, -⟩, hshallow, honly⟩ :=
    (wf.findMethod_finds ty name p).mp hp
  refine ⟨hshallow, honly, p.owner, by rw [target?, hlast, Option.map_some, ← howner], ?_⟩
  rw [methodIndex?, methodPosition?] at hindex
  rw [List.find?_eq_bind_findIdx?_getElem?, hindex, Option.bind_some, hfound]

/-- The method that a search finds is declared: no search for a wanted method ends at a path without
one. -/
theorem WellFormed.exists_of_findMethod (wf : c.WellFormed) {p : MethodPath}
    (hp : c.findMethod ty name = some p) : ∃ found, (c.methods p.owner)[p.index]? = some found := by
  obtain ⟨⟨last, -, -, hindex, -⟩, -⟩ := (wf.findMethod_finds ty name p).mp hp
  exact ⟨_, List.getElem?_eq_getElem (List.findIdx?_eq_some_iff_getElem.mp hindex).1⟩

/-- What a name selects is found, with the last type on the path as the witness of its pointer. -/
theorem Selects.findMethod {path : List Nat} {found : MethodDecl}
    (h : c.Selects ty name path found) (wf : c.WellFormed) :
    ∃ last i, c.pathEnd? ty path = some last ∧
      c.findMethod ty name = some ⟨path, c.stripPointer last, i, c.isPointer last⟩ ∧
      (c.methods (c.stripPointer last))[i]? = some found := by
  obtain ⟨t, ht, hfound⟩ := h.declared
  obtain ⟨last, hlast, rfl⟩ := Option.map_eq_some_iff.mp ht
  rw [List.find?_eq_bind_findIdx?_getElem?, Option.bind_eq_some_iff] at hfound
  obtain ⟨i, hindex, hfound⟩ := hfound
  exact ⟨last, i, hlast, (wf.findMethod_finds ty name _).mpr
    ⟨⟨last, hlast, rfl, hindex, rfl⟩, h.shallowest, h.only⟩, hfound⟩

theorem fits_iff {viaPointer : Bool} {found : MethodDecl} :
    c.fits viaPointer found wanted = true ↔
      found.SameShape wanted ∧ (c.NeedsPointer found → viaPointer = true) := by
  have hneeds : (found.sig.recv.any c.isPointer = true) ↔ c.NeedsPointer found := by
    rw [Option.any_eq_true, NeedsPointer]
  unfold fits MethodDecl.SameShape
  rw [← hneeds]
  simp only [Bool.and_eq_true, Bool.or_eq_true, Bool.not_eq_true', beq_iff_eq]
  cases viaPointer <;> cases found.sig.recv.any c.isPointer <;> simp [and_assoc]

/-- A type covers a wanted method if what it selects fits, a pointer receiver at the end of a path
whose last type is a pointer. -/
theorem WellFormed.covers_iff (wf : c.WellFormed) :
    c.covers ty wanted = true ↔ c.Covered (c.EndsAtPointer ty) ty wanted := by
  constructor
  · intro h
    unfold covers at h
    split at h
    · cases h
    next p hp =>
    split at h
    · cases h
    next found hfound =>
    obtain ⟨hshape, hpointer⟩ := fits_iff.mp h
    obtain ⟨⟨last, hlast, -, -, hvia⟩, -⟩ := (wf.findMethod_finds ty wanted.name p).mp hp
    exact ⟨p.fields, found, wf.selects_of_findMethod hp hfound, hshape, fun hneeds =>
      ⟨last, hlast, hvia ▸ hpointer hneeds⟩⟩
  · rintro ⟨path, found, hselects, hshape, hpointer⟩
    obtain ⟨last, i, hlast, hp, hfound⟩ := hselects.findMethod wf
    have hfits : c.fits (c.isPointer last) found wanted = true := by
      refine fits_iff.mpr ⟨hshape, fun hneeds => ?_⟩
      obtain ⟨last', hlast', hisPointer⟩ := hpointer hneeds
      rw [hlast] at hlast'
      cases hlast'
      exact hisPointer
    simp only [covers, hp, hfound, hfits]

theorem interface?_of_implements {iface : TypeId} {answer : Bool}
    (h : c.implements ty iface = .ok answer) : ∃ d, c.interface? iface = some d := by
  unfold implements at h
  split at h
  · cases h
  · next d hd => exact ⟨d, hd⟩

/-- An interface has no fields. -/
theorem structFields?_of_interface? {d : InterfaceDecl} (h : c.interface? ty = some d) :
    c.structFields? ty = none := by
  rw [structFields?, decl?_of_interface? h]

theorem stripPointer_of_kindOf (h : c.kindOf ty ≠ .ptr) : c.stripPointer ty = ty := by
  unfold stripPointer
  split
  · next elem hd => exact absurd (by simp [kindOf, underlying, hd]) h
  · rfl

end Catalog

namespace Universe

/-- **Which types satisfy an interface.** The question has an answer exactly for interfaces. A type
satisfies one exactly if it covers each method of the complete set, a method with a pointer receiver
at the end of a path whose last type is a pointer. So it covers each method with a pointer anywhere
on the path; and conversely that is enough, unless a wanted name selects a pointer receiver at the
end of a path that meets a pointer before its last field only. -/
theorem implements_iff_covered {u : Universe} (h : u.Reachable) (ty iface : TypeId) :
    (∀ e, u.catalog.implements ty iface = .error e ↔
      u.catalog.interface? iface = none ∧ e = .notInterface (u.catalog.typeName iface)) ∧
    ∀ d, u.catalog.interface? iface = some d → ∃ answer,
      u.catalog.implements ty iface = .ok answer ∧
      (answer = true ↔
        ∀ wanted ∈ d.complete, u.catalog.Covered (u.catalog.EndsAtPointer ty) ty wanted) ∧
      (answer = true →
        ∀ wanted ∈ d.complete, u.catalog.Covered (u.catalog.MeetsPointer ty) ty wanted) ∧
      ((∀ wanted ∈ d.complete, ∀ path found, u.catalog.Selects ty wanted.name path found →
          u.catalog.NeedsPointer found → u.catalog.MeetsPointer ty path →
          u.catalog.EndsAtPointer ty path) →
        (answer = true ↔
          ∀ wanted ∈ d.complete, u.catalog.Covered (u.catalog.MeetsPointer ty) ty wanted)) := by
  constructor
  · intro e
    unfold Catalog.implements
    cases u.catalog.interface? iface <;> simp [eq_comm]
  · intro d hd
    have hanswer : d.complete.all (u.catalog.covers ty) = true ↔
        ∀ wanted ∈ d.complete, u.catalog.Covered (u.catalog.EndsAtPointer ty) ty wanted := by
      rw [List.all_eq_true]
      exact forall₂_congr fun wanted _ => h.wellFormed.covers_iff
    have hmeets : d.complete.all (u.catalog.covers ty) = true →
        ∀ wanted ∈ d.complete, u.catalog.Covered (u.catalog.MeetsPointer ty) ty wanted :=
      fun hall wanted hwanted => (hanswer.mp hall wanted hwanted).mono fun _ h => h.meetsPointer
    refine ⟨_, by rw [Catalog.implements, hd], hanswer, hmeets, fun hlast => ⟨hmeets, ?_⟩⟩
    refine fun hall => hanswer.mpr fun wanted hwanted => ?_
    obtain ⟨path, found, hselects, hshape, hpointer⟩ := hall wanted hwanted
    exact ⟨path, found, hselects, hshape, fun hneeds =>
      hlast wanted hwanted path found hselects hneeds (hpointer hneeds)⟩

/-- `type Base`, `func (b *Base) Close()`, `interface { Close() }`, `type Held struct { Base }`,
`*Held` and `type Linked struct { *Base }`. -/
def embeddings : Universe := after [
  .declareNamed "Base" none,
  .pointerTo ⟨0⟩,
  .addMethod ⟨0⟩ ⟨"Close", none, ⟨some ⟨1⟩, [], [], false⟩⟩,
  .interfaceOf [⟨"Close", none, ⟨none, [], [], false⟩⟩] [],
  .structOf [⟨"Base", ⟨0⟩, true⟩],
  .declareNamed "Held" none,
  .setUnderlying ⟨4⟩ ⟨3⟩,
  .pointerTo ⟨4⟩,
  .structOf [⟨"Base", ⟨1⟩, true⟩],
  .declareNamed "Linked" none,
  .setUnderlying ⟨7⟩ ⟨6⟩]

/-- `Linked` reaches `Close` through a pointer as its last field. `*Held` reaches it through a
pointer too, but not as the last field, and does not satisfy the interface. -/
theorem implements_iff_covered_embeddings :
    embeddings.Reachable ∧ ∃ d, embeddings.catalog.interface? ⟨2⟩ = some d ∧
      embeddings.catalog.implements ⟨7⟩ ⟨2⟩ = .ok true ∧
      (∀ wanted ∈ d.complete,
        embeddings.catalog.Covered (embeddings.catalog.MeetsPointer ⟨7⟩) ⟨7⟩ wanted) ∧
      embeddings.catalog.MeetsPointer ⟨5⟩ [0] ∧
      embeddings.catalog.findMethod ⟨5⟩ "Close" = some ⟨[0], ⟨0⟩, 0, false⟩ ∧
      embeddings.catalog.implements ⟨5⟩ ⟨2⟩ = .ok false ∧
      ¬ ∀ wanted ∈ d.complete,
        embeddings.catalog.Covered (embeddings.catalog.EndsAtPointer ⟨5⟩) ⟨5⟩ wanted := by
  have hreach : embeddings.Reachable := reachable_after (by decide +kernel)
  have hlinked : embeddings.catalog.implements ⟨7⟩ ⟨2⟩ = .ok true := by cbv
  have hheld : embeddings.catalog.implements ⟨5⟩ ⟨2⟩ = .ok false := by cbv
  have hmeets : embeddings.catalog.MeetsPointer ⟨5⟩ [0] :=
    ⟨[], List.nil_prefix, ⟨5⟩, rfl, by decide +kernel⟩
  obtain ⟨d, hd⟩ : ∃ d, embeddings.catalog.interface? ⟨2⟩ = some d := ⟨_, by cbv⟩
  obtain ⟨answer, heq, -, hlinked', -⟩ := (implements_iff_covered hreach ⟨7⟩ ⟨2⟩).2 d hd
  obtain ⟨answer', heq', hheld', -⟩ := (implements_iff_covered hreach ⟨5⟩ ⟨2⟩).2 d hd
  rw [hlinked] at heq
  rw [hheld] at heq'
  cases heq
  cases heq'
  exact ⟨hreach, d, hd, hlinked, hlinked' rfl, hmeets, by decide +kernel, hheld,
    fun hall => Bool.false_ne_true (hheld'.mpr hall)⟩

end Universe

end ScriptEngine
