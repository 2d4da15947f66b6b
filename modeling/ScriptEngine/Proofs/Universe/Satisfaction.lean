import Mathlib
import ScriptEngine.Proofs.Universe.Coverage
import ScriptEngine.Proofs.Universe.Gathering

/-!
Laws of interface satisfaction.

An interface has no fields, so what it selects under a name is what its complete set says first
(`selects_iff_of_interface?`), and its methods need no pointer. So it satisfies another interface if
what it says of the wanted names has the wanted shapes. Whoever satisfies it satisfies that other
one too, and pointers satisfy what the types they point to do (`satisfaction_composes`). But the
names of an embedded interface need not keep their shapes: an own method of another shape, or one
that an earlier embedded interface has, comes first (`embedded_satisfied_iff`).
-/

namespace ScriptEngine

theorem MethodDecl.SameShape.trans {m m' m'' : MethodDecl} (h : m.SameShape m')
    (h' : m'.SameShape m'') : m.SameShape m'' :=
  ⟨h.1.trans h'.1, h.2.1.trans h'.2.1, h.2.2.trans h'.2.2⟩

namespace Catalog

variable {c c' : Catalog} {ty p t iface : TypeId} {d : InterfaceDecl} {name : String}
  {path : List Nat} {found wanted : MethodDecl}

/-! ### What interfaces satisfy -/

theorem methods_of_interface? (hd : c.interface? ty = some d) : c.methods ty = d.complete := by
  rw [methods, hd]

/-- An interface is no pointer. -/
theorem stripPointer_of_interface? (hd : c.interface? ty = some d) : c.stripPointer ty = ty := by
  refine stripPointer_of_kindOf ?_
  rw [isSome_interface?.mp (Option.isSome_of_eq_some hd)]
  nofun

/-- From an interface leads the empty path only. -/
theorem target?_of_interface? (hd : c.interface? ty = some d) :
    c.target? ty path = some t ↔ path = [] ∧ t = ty := by
  have hstrip := stripPointer_of_interface? hd
  cases path with
  | nil => simp [target?, pathEnd?, hstrip, eq_comm]
  | cons i rest =>
    simp [target?, pathEnd?, hstrip, embedded?, structFields?_of_interface? hd]

/-- **What an interface selects under a name is what its complete set says first of it.** -/
theorem selects_iff_of_interface? (hd : c.interface? ty = some d) :
    c.Selects ty name path found ↔
      path = [] ∧ d.complete.find? (·.isCalled name) = some found := by
  constructor
  · rintro ⟨-, -, t, ht, hfound⟩
    obtain ⟨rfl, rfl⟩ := (target?_of_interface? hd).mp ht
    rw [methods_of_interface? hd] at hfound
    exact ⟨rfl, hfound⟩
  · rintro ⟨rfl, hfound⟩
    have hself := (target?_of_interface? hd (t := ty)).mpr ⟨rfl, rfl⟩
    have hdeclared : (c.methods ty).find? (·.name == name) = some found := by
      rw [methods_of_interface? hd]
      exact hfound
    have honly : ∀ path', c.Declares ty name path' → path' = [] := fun path' ⟨t, ht, _⟩ =>
      ((target?_of_interface? hd).mp ht).1
    refine ⟨⟨⟨ty, hself, isSome_methodIndex?.mpr ?_⟩, fun path' _ => Nat.zero_le _⟩,
      fun path' h => honly path' h.1, ty, hself, hdeclared⟩
    exact ⟨found, List.mem_of_find?_eq_some hdeclared,
      MethodDecl.isCalled_iff.mp (List.find?_some hfound)⟩

/-- The methods of interfaces have interfaces as their receivers. -/
theorem Layered.not_needsPointer (hl : c.Layered) (hd : c.interface? ty = some d)
    (hm : found ∈ d.complete) : ¬ c.NeedsPointer found := by
  rintro ⟨recv, hrecv, hpointer⟩
  obtain ⟨recv', i, -, hrecv', hi, -⟩ := hl.complete _ d (decl?_of_interface? hd) found hm
  cases hrecv.symm.trans hrecv'
  rw [isPointer, hi] at hpointer
  cases hpointer

/-- **What an interface covers.** -/
theorem WellFormed.covers_iff_of_interface? (wf : c.WellFormed) (hl : c.Layered)
    (hd : c.interface? ty = some d) : c.covers ty wanted = true ↔
      ∃ found, d.complete.find? (·.isCalled wanted.name) = some found ∧
        found.SameShape wanted := by
  rw [wf.covers_iff]
  constructor
  · rintro ⟨path, found, hselects, hshape, -⟩
    exact ⟨found, ((selects_iff_of_interface? hd).mp hselects).2, hshape⟩
  · rintro ⟨found, hfound, hshape⟩
    exact ⟨[], found, (selects_iff_of_interface? hd).mpr ⟨rfl, hfound⟩, hshape, fun hneeds =>
      absurd hneeds (hl.not_needsPointer hd (List.mem_of_find?_eq_some hfound))⟩

theorem implements_eq_ok (hd : c.interface? iface = some d) {answer : Bool} :
    c.implements ty iface = .ok answer ↔ d.complete.all (c.covers ty) = answer := by
  rw [implements, hd]
  exact ⟨Except.ok.inj, congrArg _⟩

/-! ### Composition -/

/-- What covers a method covers every method of that name and shape. -/
theorem Covered.of_sameShape {addressable : List Nat → Prop}
    (h : c.Covered addressable ty found) (hname : found.name = wanted.name)
    (hshape : found.SameShape wanted) : c.Covered addressable ty wanted := by
  obtain ⟨path, m, hselects, hm, hpointer⟩ := h
  exact ⟨path, m, hname ▸ hselects, hm.trans hshape, hpointer⟩

/-- What an interface covers, everything that satisfies the interface covers. -/
theorem WellFormed.covers_trans (wf : c.WellFormed) (hl : c.Layered)
    (hd : c.interface? iface = some d) (hall : ∀ m ∈ d.complete, c.covers ty m = true)
    (hcovers : c.covers iface wanted = true) : c.covers ty wanted = true := by
  obtain ⟨found, hfound, hshape⟩ := (wf.covers_iff_of_interface? hl hd).mp hcovers
  have hname : found.name = wanted.name := MethodDecl.isCalled_iff.mp (List.find?_some hfound)
  rw [wf.covers_iff]
  exact (wf.covers_iff.mp (hall found (List.mem_of_find?_eq_some hfound))).of_sameShape hname hshape

/-! ### Pointers -/

/-- What is selected depends on the type behind the pointer only. -/
theorem Selects.of_stripPointer (h : c.stripPointer p = c.stripPointer ty)
    (hselects : c.Selects ty name path found) : c.Selects p name path found := by
  have hshallowest : ∀ path, c.IsShallowest p name path ↔ c.IsShallowest ty name path :=
    fun path => by simp only [IsShallowest, declares_congr h]
  refine ⟨(hshallowest path).mpr hselects.shallowest,
    fun path' h' => hselects.only path' ((hshallowest path').mp h'), ?_⟩
  rw [target?_congr h]
  exact hselects.declared

section Pointer

variable (hp : c.decl? p = some (.pointer ty)) (hty : c.stripPointer ty = ty)
include hp hty

theorem stripPointer_of_pointer : c.stripPointer p = c.stripPointer ty := by
  rw [hty, stripPointer, hp]

/-- A path from a pointer ends at a pointer if the same path from what it points to does. -/
theorem EndsAtPointer.of_pointer (h : c.EndsAtPointer ty path) : c.EndsAtPointer p path := by
  cases path with
  | nil => exact ⟨p, rfl, by rw [isPointer, hp]⟩
  | cons i rest => rwa [EndsAtPointer, pathEnd?, stripPointer_of_pointer hp hty]

/-- A pointer covers what the type it points to covers. -/
theorem WellFormed.covers_of_pointer (wf : c.WellFormed) (h : c.covers ty wanted = true) :
    c.covers p wanted = true := by
  obtain ⟨path, found, hselects, hshape, hpointer⟩ := wf.covers_iff.mp h
  exact wf.covers_iff.mpr ⟨path, found, hselects.of_stripPointer (stripPointer_of_pointer hp hty),
    hshape, fun hneeds => (hpointer hneeds).of_pointer hp hty⟩

end Pointer

/-- What the methods of a type mention is declared. -/
theorem Layered.lt_size_of_mem_methods (hl : c.Layered) (hm : found ∈ c.methods ty)
    (ht : t ∈ found.sig.types) : t.index < c.size := by
  unfold Catalog.methods at hm
  split at hm
  · next i hi => exact hl.lt_size_of_complete (decl?_of_interface? hi) hm ht
  · split at hm
    · next n hn => exact hl.methods ty n (named?_eq_some.mp hn) found hm t ht
    · cases hm

section Agrees

variable (agree : c.Agrees c') (wf : c.WellFormed)
include agree

theorem Agrees.fits {viaPointer : Bool}
    (h : ∀ recv, found.sig.recv = some recv → recv.index < c.size) :
    c'.fits viaPointer found wanted = c.fits viaPointer found wanted := by
  unfold Catalog.fits
  cases hrecv : found.sig.recv with
  | none => rfl
  | some recv => rw [Option.any_some, Option.any_some, agree.isPointer (h recv hrecv)]

include wf

theorem Agrees.interface? (h : ty.index < c.size) : c'.interface? ty = c.interface? ty := by
  obtain ⟨hunder, hdecl⟩ := agree.underlying wf h
  rw [Catalog.interface?, Catalog.interface?, hunder, hdecl]

/-- A declared type covers what it covered. -/
theorem Agrees.covers (wf' : c'.WellFormed) (hl : c.Layered) (h : ty.index < c.size) :
    c'.covers ty wanted = c.covers ty wanted := by
  unfold Catalog.covers
  rw [agree.findMethod wf h wf']
  cases hpath : c.findMethod ty wanted.name with
  | none => rfl
  | some path =>
    obtain ⟨⟨last, hlast, howner, -⟩, -⟩ := (wf.findMethod_finds ty wanted.name path).mp hpath
    have howned : path.owner.index < c.size := by
      rw [howner]
      exact Nat.lt_of_le_of_lt (wf.stripPointer_le last) (wf.pathEnd?_lt_size h hlast)
    dsimp only
    rw [agree.methods wf howned]
    cases hfound : (c.methods path.owner)[path.index]? with
    | none => rfl
    | some found =>
      refine agree.fits fun recv hrecv => ?_
      have hmem : recv ∈ found.sig.types := by simp [Signature.types, hrecv]
      exact hl.lt_size_of_mem_methods (List.mem_of_getElem? hfound) hmem

end Agrees

end Catalog

namespace Universe

/-- **Satisfaction composes.** What satisfies an interface satisfies every interface that this one
satisfies, and so do pointers to it, unless it is declared as a pointer itself. -/
theorem satisfaction_composes {u : Universe} (h : u.Reachable) {ty iface : TypeId}
    (himplements : u.catalog.implements ty iface = .ok true) :
    (∀ iface', u.catalog.implements iface iface' = .ok true →
      u.catalog.implements ty iface' = .ok true) ∧
    (ty.index < u.catalog.size → u.catalog.isPointer ty = false →
      ∃ p u', (pointerTo ty).run.run u = (.ok p, u') ∧
        u'.catalog.decl? p = some (.pointer ty) ∧ u'.catalog.implements p iface = .ok true) := by
  obtain ⟨d, hd⟩ := Catalog.interface?_of_implements himplements
  have hall := List.all_eq_true.mp ((Catalog.implements_eq_ok hd).mp himplements)
  constructor
  · intro iface' himplements'
    obtain ⟨d', hd'⟩ := Catalog.interface?_of_implements himplements'
    have hall' := List.all_eq_true.mp ((Catalog.implements_eq_ok hd').mp himplements')
    refine (Catalog.implements_eq_ok hd').mpr (List.all_eq_true.mpr fun wanted hwanted => ?_)
    exact h.wellFormed.covers_trans h.layered hd hall (hall' wanted hwanted)
  · intro hlt hpointer
    have wf' : (u.catalog.pointerTo ty).2.WellFormed :=
      (Catalog.change_pointerTo hlt).wellFormed h.wellFormed
    have hagree : u.catalog.Agrees (u.catalog.pointerTo ty).2 := Catalog.agrees_intern _ _
    have hp : (u.catalog.pointerTo ty).2.decl? (u.catalog.pointerTo ty).1 = some (.pointer ty) :=
      Catalog.decl?_intern ..
    have hty : (u.catalog.pointerTo ty).2.stripPointer ty = ty := by
      rw [hagree.stripPointer hlt, ← bne_eq_false_iff_eq, h.wellFormed.stripPointer_bne, hpointer]
    have hiface : iface.index < u.catalog.size := Catalog.lt_size_of_kindOf (by
      rw [Catalog.isSome_interface?.mp (Option.isSome_of_eq_some hd)]
      nofun)
    have hd' : (u.catalog.pointerTo ty).2.interface? iface = some d :=
      (hagree.interface? h.wellFormed hiface).trans hd
    refine ⟨_, _, rfl, hp, (Catalog.implements_eq_ok hd').mpr ?_⟩
    refine List.all_eq_true.mpr fun wanted hwanted => wf'.covers_of_pointer hp hty ?_
    rw [hagree.covers h.wellFormed wf' h.layered hlt]
    exact hall wanted hwanted

/-- `type S`, `func (s *S) Close()`, `struct { *S }`, `interface { Close(); Close() }` and
`interface { Close() }`. -/
def closing : Universe := after [
  .declareNamed "S" none,
  .pointerTo ⟨0⟩,
  .addMethod ⟨0⟩ ⟨"Close", none, ⟨some ⟨1⟩, [], [], false⟩⟩,
  .structOf [⟨"S", ⟨1⟩, true⟩],
  .interfaceOf [⟨"Close", none, ⟨none, [], [], false⟩⟩, ⟨"Close", none, ⟨none, [], [], false⟩⟩] [],
  .interfaceOf [⟨"Close", none, ⟨none, [], [], false⟩⟩] []]

/-- The struct satisfies the interface that writes `Close` twice, so it satisfies the one that
writes it once, and a pointer to it satisfies both. -/
theorem satisfaction_composes_closing :
    closing.Reachable ∧ closing.catalog.implements ⟨2⟩ ⟨3⟩ = .ok true ∧
      closing.catalog.implements ⟨3⟩ ⟨4⟩ = .ok true ∧
      closing.catalog.implements ⟨2⟩ ⟨4⟩ = .ok true ∧
      ∃ p u, (pointerTo ⟨2⟩).run.run closing = (.ok p, u) ∧
        u.catalog.decl? p = some (.pointer ⟨2⟩) ∧ u.catalog.implements p ⟨3⟩ = .ok true := by
  have hreach : closing.Reachable := reachable_after (by decide +kernel)
  have hstruct : closing.catalog.implements ⟨2⟩ ⟨3⟩ = .ok true := by cbv
  have hinterface : closing.catalog.implements ⟨3⟩ ⟨4⟩ = .ok true := by cbv
  obtain ⟨hcomposes, hpointer⟩ := satisfaction_composes hreach hstruct
  exact ⟨hreach, hstruct, hinterface, hcomposes ⟨4⟩ hinterface,
    hpointer (by decide +kernel) (by decide +kernel)⟩

/-- **What an interface is to those it embeds**, directly or through others. It has all their names,
and satisfies an embedded interface exactly if what its complete set says first of each of those
names has the shape that is wanted; so it does if no name is written in different shapes in it and
below it. -/
theorem embedded_satisfied_iff {u : Universe} (h : u.Reachable) {ty e : TypeId}
    (hembeds : Relation.TransGen u.catalog.Embeds ty e) :
    ∃ d i answer, u.catalog.interface? ty = some d ∧ u.catalog.interface? e = some i ∧
      (∀ wanted ∈ i.complete, ∃ found ∈ d.complete, found.name = wanted.name) ∧
      u.catalog.implements ty e = .ok answer ∧
      (answer = true ↔ ∀ wanted ∈ i.complete, ∀ found,
        d.complete.find? (·.isCalled wanted.name) = some found → found.SameShape wanted) ∧
      ((∀ m m', u.catalog.Writes ty m → u.catalog.Writes ty m' → m.name = m'.name →
        m.SameShape m') → answer = true) := by
  obtain ⟨d, hd⟩ : ∃ d, u.catalog.interface? ty = some d := by
    obtain ⟨_, ⟨d, hd, -⟩, -⟩ := Relation.TransGen.head'_iff.mp hembeds
    exact ⟨d, hd⟩
  obtain ⟨i, hi⟩ : ∃ i, u.catalog.interface? e = some i := by
    obtain ⟨_, -, he⟩ := Relation.TransGen.tail'_iff.mp hembeds
    exact h.gathered.exists_interface? he
  have hnames : ∀ wanted ∈ i.complete, ∃ found,
      d.complete.find? (·.isCalled wanted.name) = some found := fun wanted hwanted => by
    obtain ⟨found, hfound, hname⟩ := List.mem_map.mp
      (h.gathered.mem_names hembeds hd hi (List.mem_map_of_mem hwanted))
    rw [← Option.isSome_iff_exists, List.find?_isSome]
    exact ⟨found, hfound, MethodDecl.isCalled_iff.mpr hname⟩
  have hanswer : i.complete.all (u.catalog.covers ty) = true ↔ ∀ wanted ∈ i.complete, ∀ found,
      d.complete.find? (·.isCalled wanted.name) = some found → found.SameShape wanted := by
    rw [List.all_eq_true]
    refine forall₂_congr fun wanted hwanted => ?_
    rw [h.wellFormed.covers_iff_of_interface? h.layered hd]
    obtain ⟨found, hfound⟩ := hnames wanted hwanted
    constructor
    · rintro ⟨found', hfound', hshape⟩ m hm
      cases hfound'.symm.trans hm
      exact hshape
    · exact fun hshape => ⟨found, hfound, hshape found hfound⟩
  refine ⟨d, i, _, hd, hi, fun wanted hwanted => ?_, (Catalog.implements_eq_ok hi).mpr rfl, hanswer,
    fun hwritten => hanswer.mpr fun wanted hwanted found hfound => ?_⟩
  · obtain ⟨found, hfound⟩ := hnames wanted hwanted
    exact ⟨found, List.mem_of_find?_eq_some hfound,
      MethodDecl.isCalled_iff.mp (List.find?_some hfound)⟩
  · exact hwritten found wanted (h.gathered.written hd (List.mem_of_find?_eq_some hfound))
      ((h.gathered.written hi hwanted).of_embeds hembeds)
      (MethodDecl.isCalled_iff.mp (List.find?_some hfound))

/-- `interface { M() }`, one that embeds it beside `N()`, and two that embed the latter beside an
`M` of their own, which takes nothing in the first and an `int` in the second. -/
def overlapping : Universe := after [
  .interfaceOf [⟨"M", none, ⟨none, [], [], false⟩⟩] [],
  .interfaceOf [⟨"N", none, ⟨none, [], [], false⟩⟩] [⟨0⟩],
  .basic .int,
  .interfaceOf [⟨"M", none, ⟨none, [], [], false⟩⟩] [⟨1⟩],
  .interfaceOf [⟨"M", none, ⟨none, [⟨2⟩], [], false⟩⟩] [⟨1⟩]]

/-- Two interfaces have an own `M` and embed one that embeds `interface { M() }`: the one whose `M`
takes nothing satisfies it, the other does not. -/
theorem embedded_satisfied_iff_overlapping :
    overlapping.Reachable ∧ Relation.TransGen overlapping.catalog.Embeds ⟨3⟩ ⟨0⟩ ∧
      overlapping.catalog.implements ⟨3⟩ ⟨0⟩ = .ok true ∧
      Relation.TransGen overlapping.catalog.Embeds ⟨4⟩ ⟨0⟩ ∧
      overlapping.catalog.implements ⟨4⟩ ⟨0⟩ = .ok false := by
  have hreach : overlapping.Reachable := reachable_after (by decide +kernel)
  have hinner : overlapping.catalog.interface? ⟨0⟩ =
      some ⟨[⟨"M", none, ⟨some ⟨0⟩, [], [], false⟩⟩], [],
        [⟨"M", none, ⟨some ⟨0⟩, [], [], false⟩⟩]⟩ := by cbv
  have hmiddle : overlapping.catalog.interface? ⟨1⟩ =
      some ⟨[⟨"N", none, ⟨some ⟨1⟩, [], [], false⟩⟩], [⟨0⟩],
        [⟨"M", none, ⟨some ⟨0⟩, [], [], false⟩⟩, ⟨"N", none, ⟨some ⟨1⟩, [], [], false⟩⟩]⟩ := by cbv
  have hsame : overlapping.catalog.interface? ⟨3⟩ =
      some ⟨[⟨"M", none, ⟨some ⟨3⟩, [], [], false⟩⟩], [⟨1⟩],
        [⟨"M", none, ⟨some ⟨3⟩, [], [], false⟩⟩, ⟨"N", none, ⟨some ⟨1⟩, [], [], false⟩⟩]⟩ := by cbv
  have hother : overlapping.catalog.interface? ⟨4⟩ =
      some ⟨[⟨"M", none, ⟨some ⟨4⟩, [⟨2⟩], [], false⟩⟩], [⟨1⟩],
        [⟨"M", none, ⟨some ⟨4⟩, [⟨2⟩], [], false⟩⟩, ⟨"N", none, ⟨some ⟨1⟩, [], [], false⟩⟩]⟩ := by
    cbv
  have hembeds : overlapping.catalog.Embeds ⟨1⟩ ⟨0⟩ := ⟨_, hmiddle, List.mem_singleton_self _⟩
  have hembeds₃ : Relation.TransGen overlapping.catalog.Embeds ⟨3⟩ ⟨0⟩ :=
    .head ⟨_, hsame, List.mem_singleton_self _⟩ (.single hembeds)
  have hembeds₄ : Relation.TransGen overlapping.catalog.Embeds ⟨4⟩ ⟨0⟩ :=
    .head ⟨_, hother, List.mem_singleton_self _⟩ (.single hembeds)
  refine ⟨hreach, hembeds₃, ?_, hembeds₄, ?_⟩
  · obtain ⟨d, i, answer, hd, hi, -, hanswer, hiff, -⟩ := embedded_satisfied_iff hreach hembeds₃
    cases hsame.symm.trans hd
    cases hinner.symm.trans hi
    rw [hanswer, hiff.mpr]
    intro wanted hwanted found hfound
    obtain rfl := List.mem_singleton.mp hwanted
    cases hfound
    exact ⟨rfl, rfl, rfl⟩
  · obtain ⟨d, i, answer, hd, hi, -, hanswer, hiff, -⟩ := embedded_satisfied_iff hreach hembeds₄
    cases hother.symm.trans hd
    cases hinner.symm.trans hi
    cases answer with
    | false => exact hanswer
    | true =>
      have hshape := hiff.mp rfl _ (List.mem_singleton_self _) _ rfl
      exact absurd hshape.1 (by decide)

end Universe

end ScriptEngine
