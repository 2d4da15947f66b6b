import Mathlib.Data.List.Nodup
import ScriptEngine.Types.Declare

/-!
What declarations do to a catalog.

`Change` lists the ways in which one declaration changes a catalog: not at all, by a new type at the
end, by what a name stands for, or by a method at the end of a name's methods. Every declaration is
one of them (`change_intern`, …, `change_addMethod`) if the handles it is given are in range, so
whatever a change keeps, every sequence of declarations keeps. Main statements: a change keeps
catalogs well formed (`Change.wellFormed`), lets them only grow (`Change.grows`) and keeps the
methods of every name its own (`Change.methodsOwned`).
-/

namespace ScriptEngine

/-- The types a signature mentions, its receiver included. -/
def Signature.types (sig : Signature) : List TypeId :=
  sig.recv.toList ++ sig.params ++ sig.results

theorem Signature.mem_types {sig : Signature} {p : TypeId} (h : p ∈ sig.params ++ sig.results) :
    p ∈ sig.types := by
  rw [Signature.types, List.append_assoc]
  exact List.mem_append_right _ h

namespace Catalog

/-! ### Reading a changed catalog -/

theorem named?_eq_some {c : Catalog} {ty : TypeId} {d : NamedDecl} :
    c.named? ty = some d ↔ c.decl? ty = some (.named d) := by
  unfold named?
  constructor
  · intro h
    split at h
    · next d' hd => rw [hd, Option.some.inj h]
    · cases h
  · intro h
    rw [h]

theorem isNamed_iff {c : Catalog} {ty : TypeId} :
    c.isNamed ty = true ↔ ∃ d, c.decl? ty = some (.named d) := by
  rw [isNamed, Option.isSome_iff_exists]
  exact exists_congr fun _ => named?_eq_some

/-- A type that is declared otherwise is not named. -/
theorem isNamed_eq_false {c : Catalog} {ty : TypeId} {d : TypeDecl} (h : c.decl? ty = some d)
    (hd : ∀ n, d ≠ .named n) : c.isNamed ty = false := by
  refine Bool.eq_false_iff.mpr fun hn => ?_
  obtain ⟨n, hn⟩ := isNamed_iff.mp hn
  exact hd n (Option.some.inj (h.symm.trans hn))

theorem exists_decl? {c : Catalog} {ty : TypeId} (h : ty.index < c.size) :
    ∃ d, c.decl? ty = some d :=
  ⟨_, Array.getElem?_eq_getElem h⟩

theorem decl?_push_next (c : Catalog) (d : TypeDecl) : (c.push d).2.decl? c.next = some d := by
  simp [push, decl?, next, size]

theorem decl?_push_of_lt {c : Catalog} (d : TypeDecl) {ty : TypeId} (h : ty.index < c.size) :
    (c.push d).2.decl? ty = c.decl? ty := by
  have hne : ty.index ≠ c.decls.size := Nat.ne_of_lt h
  simp [push, decl?, Array.getElem?_push, hne]

/-- A type of an extended catalog is the new one or an old one. -/
theorem decl?_push {c : Catalog} {d d' : TypeDecl} {ty : TypeId}
    (h : (c.push d).2.decl? ty = some d') : ty = c.next ∧ d' = d ∨ c.decl? ty = some d' := by
  unfold push decl? at h
  rw [Array.getElem?_push] at h
  split at h
  · next hi => exact .inl ⟨by cases ty; cases hi; rfl, (Option.some.inj h).symm⟩
  · exact .inr h

/-- What a declaration is interned as is declared so. -/
theorem decl?_intern (c : Catalog) (d : TypeDecl) :
    (c.intern d).2.decl? (c.intern d).1 = some d := by
  unfold intern
  split
  · next i hi =>
    obtain ⟨hlt, heq, -⟩ := Array.findIdx?_eq_some_iff_getElem.mp hi
    rw [decl?, Array.getElem?_eq_getElem hlt, beq_iff_eq.mp heq]
  · exact decl?_push_next c d

theorem size_setNamed (c : Catalog) (ty : TypeId) (d : NamedDecl) :
    (c.setNamed ty d).size = c.size := by
  simp [setNamed, size]

theorem decl?_setNamed_self {c : Catalog} {ty : TypeId} (h : ty.index < c.size) (d : NamedDecl) :
    (c.setNamed ty d).decl? ty = some (.named d) := by
  have h' : ty.index < c.decls.size := h
  simp [setNamed, decl?, h']

theorem decl?_setNamed_of_ne {c : Catalog} {ty t : TypeId} (h : t ≠ ty) (d : NamedDecl) :
    (c.setNamed ty d).decl? t = c.decl? t := by
  have hi : ty.index ≠ t.index := fun he => h (by cases t; cases ty; cases he; rfl)
  simp [setNamed, decl?, hi]

/-- A type of a catalog with a replaced name is that name or as it was. -/
theorem decl?_setNamed {c : Catalog} {ty t : TypeId} {n : NamedDecl} {d : TypeDecl}
    (hty : ty.index < c.size) (h : (c.setNamed ty n).decl? t = some d) :
    t = ty ∧ d = .named n ∨ t ≠ ty ∧ c.decl? t = some d := by
  by_cases ht : t = ty
  · subst ht
    rw [decl?_setNamed_self hty] at h
    exact .inl ⟨rfl, (Option.some.inj h).symm⟩
  · rw [decl?_setNamed_of_ne ht] at h
    exact .inr ⟨ht, h⟩

/-! ### Changes -/

/-- How an interface collects its methods when it is declared: its own have it as their receiver
and mention declared types, and the others of its complete set are those of interfaces that it
embeds. -/
structure Collects (c : Catalog) (d : InterfaceDecl) : Prop where
  own : ∀ m ∈ d.explicit, m.sig.recv = some c.next ∧
    ∀ p ∈ m.sig.params ++ m.sig.results, p.index < c.size
  complete : ∀ m ∈ d.complete, m ∈ d.explicit ∨
    ∃ e ∈ d.embedded, ∃ i, c.interface? e = some i ∧ m ∈ i.complete

/-- What a new type mentions besides its parts. -/
def Admits (c : Catalog) : TypeDecl → Prop
  | .func sig => ∀ p ∈ sig.types, p.index < c.size
  | .interface d => c.Collects d
  | _ => True

/-- The ways in which one declaration changes a catalog. -/
inductive Change (c : Catalog) : Catalog → Prop where
  /-- The type was there already, or the declaration failed. -/
  | none : Change c c
  /-- A new type. A new name stands for nothing and has no methods. -/
  | declare (d : TypeDecl) :
      (∀ p ∈ parts d, p.index < c.size) →
      (∀ n, d = .named n → n.underlying = Option.none ∧ n.methods = []) → c.Admits d →
      Change c (c.push d).2
  /-- What a name stands for, which is not a name itself. -/
  | underlying (ty u : TypeId) (d : NamedDecl) :
      c.decl? ty = some (.named d) → d.underlying = Option.none → u.index < c.size →
      c.isNamed u = false → Change c (c.setNamed ty { d with underlying := some u })
  /-- A method of a new name, whose receiver is the type or a pointer to it. -/
  | method (ty recv : TypeId) (d : NamedDecl) (m : MethodDecl) :
      c.decl? ty = some (.named d) → m.sig.recv = some recv → c.isReceiverOf recv ty = true →
      (∀ m' ∈ d.methods, m'.name ≠ m.name) → (∀ p ∈ m.sig.types, p.index < c.size) →
      Change c (c.setNamed ty { d with methods := d.methods ++ [m] })

/-- What no declaration takes back: a type keeps its declaration, and a name keeps its name, what it
stands for and the methods it has. -/
structure Grows (c c' : Catalog) : Prop where
  unnamed : ∀ ty d, c.decl? ty = some d → c.isNamed ty = false → c'.decl? ty = some d
  named : ∀ ty d, c.decl? ty = some (.named d) → ∃ d', c'.decl? ty = some (.named d') ∧
    d'.name = d.name ∧ d'.pkg = d.pkg ∧ (∀ u, d.underlying = some u → d'.underlying = some u) ∧
    d.methods <+: d'.methods

theorem Grows.refl (c : Catalog) : Grows c c where
  unnamed _ _ h _ := h
  named _ d h := ⟨d, h, rfl, rfl, fun _ hu => hu, List.prefix_rfl⟩

/-- Types stay declared. -/
theorem Grows.decl? {c c' : Catalog} (g : Grows c c') {ty : TypeId} {d : TypeDecl}
    (h : c.decl? ty = some d) : ∃ d', c'.decl? ty = some d' := by
  cases hn : c.isNamed ty with
  | false => exact ⟨d, g.unnamed ty d h hn⟩
  | true =>
    obtain ⟨n, hn⟩ := isNamed_iff.mp hn
    obtain ⟨n', hn', -⟩ := g.named ty n hn
    exact ⟨_, hn'⟩

theorem Grows.size_le {c c' : Catalog} (g : Grows c c') : c.size ≤ c'.size := by
  rcases Nat.eq_zero_or_pos c.size with h | h
  · omega
  · have hlast : (TypeId.mk (c.size - 1)).index < c.size := Nat.sub_one_lt_of_lt h
    obtain ⟨d, hd⟩ := exists_decl? hlast
    obtain ⟨d', hd'⟩ := g.decl? hd
    have := lt_size_of_decl? hd'
    simp only at this
    omega

/-- Whether a type is named does not change. -/
theorem Grows.isNamed {c c' : Catalog} (g : Grows c c') {ty : TypeId} (h : ty.index < c.size) :
    c'.isNamed ty = c.isNamed ty := by
  obtain ⟨d, hd⟩ := exists_decl? h
  cases hn : c.isNamed ty with
  | true =>
    obtain ⟨n, hn⟩ := isNamed_iff.mp hn
    obtain ⟨n', hn', -⟩ := g.named ty n hn
    exact isNamed_iff.mpr ⟨n', hn'⟩
  | false =>
    have hd' := g.unnamed ty _ hd hn
    refine Bool.eq_false_iff.mpr fun h' => ?_
    obtain ⟨n, hn'⟩ := isNamed_iff.mp h'
    rw [hd'] at hn'
    rw [Bool.eq_false_iff] at hn
    exact hn (isNamed_iff.mpr ⟨n, by rw [hd, hn']⟩)

theorem Grows.trans {c c' c'' : Catalog} (g : Grows c c') (g' : Grows c' c'') : Grows c c'' where
  unnamed ty d h hn := g'.unnamed ty d (g.unnamed ty d h hn) (by
    rw [g.isNamed (lt_size_of_decl? h), hn])
  named ty d h := by
    obtain ⟨d', h', name', pkg', under', methods'⟩ := g.named ty d h
    obtain ⟨d'', h'', name'', pkg'', under'', methods''⟩ := g'.named ty d' h'
    exact ⟨d'', h'', name''.trans name', pkg''.trans pkg', fun u hu => under'' u (under' u hu),
      methods'.trans methods''⟩

theorem grows_push (c : Catalog) (d : TypeDecl) : Grows c (c.push d).2 where
  unnamed ty _ h _ := by rw [decl?_push_of_lt d (lt_size_of_decl? h), h]
  named ty n h :=
    ⟨n, by rw [decl?_push_of_lt d (lt_size_of_decl? h), h], rfl, rfl, fun _ hu => hu,
      List.prefix_rfl⟩

theorem grows_setNamed {c : Catalog} {ty : TypeId} {d d' : NamedDecl}
    (h : c.decl? ty = some (.named d)) (name : d'.name = d.name) (pkg : d'.pkg = d.pkg)
    (under : ∀ u, d.underlying = some u → d'.underlying = some u)
    (methods : d.methods <+: d'.methods) : Grows c (c.setNamed ty d') where
  unnamed t e he hn := by
    have hne : t ≠ ty := by
      rintro rfl
      rw [isNamed_iff.mpr ⟨d, h⟩] at hn
      cases hn
    rw [decl?_setNamed_of_ne hne, he]
  named t n hn := by
    by_cases hne : t = ty
    · subst hne
      cases h.symm.trans hn
      exact ⟨d', decl?_setNamed_self (lt_size_of_decl? h) d', name, pkg, under, methods⟩
    · exact ⟨n, by rw [decl?_setNamed_of_ne hne, hn], rfl, rfl, fun _ hu => hu, List.prefix_rfl⟩

/-- **A catalog only grows.** -/
theorem Change.grows {c c' : Catalog} (h : Change c c') : Grows c c' := by
  cases h with
  | none => exact .refl c
  | declare d => exact grows_push c d
  | underlying ty u d hd hnone =>
    exact grows_setNamed hd rfl rfl (fun v hv => by rw [hnone] at hv; cases hv) List.prefix_rfl
  | method ty recv d m hd =>
    exact grows_setNamed hd rfl rfl (fun _ hv => hv) (List.prefix_append ..)

section Inversion

variable {c c' : Catalog} {ty : TypeId}

/-- An unnamed type of a changed catalog was there before, or is the new one. -/
theorem Change.of_unnamed (h : Change c c') {d : TypeDecl} (hd : c'.decl? ty = some d)
    (hn : ∀ n, d ≠ .named n) :
    c.decl? ty = some d ∨ ty = c.next ∧ (∀ p ∈ parts d, p.index < c.size) ∧ c.Admits d := by
  cases h with
  | none => exact .inl hd
  | declare e hparts _ hadmits =>
    rcases decl?_push hd with ⟨hnext, rfl⟩ | hold
    · exact .inr ⟨hnext, hparts, hadmits⟩
    · exact .inl hold
  | underlying t u n ht =>
    rcases decl?_setNamed (lt_size_of_decl? ht) hd with ⟨-, heq⟩ | ⟨-, hold⟩
    · exact absurd heq (hn _)
    · exact .inl hold
  | method t recv n m ht =>
    rcases decl?_setNamed (lt_size_of_decl? ht) hd with ⟨-, heq⟩ | ⟨-, hold⟩
    · exact absurd heq (hn _)
    · exact .inl hold

/-- The declaration of the name `ty` in a changed catalog: it is new, or it is as it was but for
what it stands for or for a method. -/
inductive NameChange (c : Catalog) (ty : TypeId) : NamedDecl → Prop where
  | new (n : NamedDecl) : n.underlying = none → n.methods = [] → NameChange c ty n
  | kept (n : NamedDecl) : c.decl? ty = some (.named n) → NameChange c ty n
  | underlying (n : NamedDecl) (u : TypeId) : c.decl? ty = some (.named n) → u.index < c.size →
      c.isNamed u = false → NameChange c ty { n with underlying := some u }
  | method (n : NamedDecl) (m : MethodDecl) (recv : TypeId) : c.decl? ty = some (.named n) →
      m.sig.recv = some recv → c.isReceiverOf recv ty = true →
      (∀ m' ∈ n.methods, m'.name ≠ m.name) → (∀ p ∈ m.sig.types, p.index < c.size) →
      NameChange c ty { n with methods := n.methods ++ [m] }

theorem Change.of_named (h : Change c c') {n : NamedDecl} (hd : c'.decl? ty = some (.named n)) :
    NameChange c ty n := by
  cases h with
  | none => exact .kept n hd
  | declare e _ hblank =>
    rcases decl?_push hd with ⟨-, heq⟩ | hold
    · exact .new n (hblank n heq.symm).1 (hblank n heq.symm).2
    · exact .kept n hold
  | underlying t u n₀ ht _ hlt hu =>
    rcases decl?_setNamed (lt_size_of_decl? ht) hd with ⟨rfl, heq⟩ | ⟨-, hold⟩
    · cases heq
      exact .underlying n₀ u ht hlt hu
    · exact .kept n hold
  | method t recv n₀ m ht hrecv howned hnew htypes =>
    rcases decl?_setNamed (lt_size_of_decl? ht) hd with ⟨rfl, heq⟩ | ⟨-, hold⟩
    · cases heq
      exact .method n₀ m recv ht hrecv howned hnew htypes
    · exact .kept n hold

end Inversion

theorem wellFormed_empty : WellFormed empty where
  parts_lt _ _ h := by simp [empty, decl?] at h
  underlying_unnamed _ _ h := by simp [empty, decl?] at h

/-- **A change keeps a catalog well formed.** -/
theorem Change.wellFormed {c c' : Catalog} (h : Change c c') (wf : WellFormed c) :
    WellFormed c' := by
  constructor
  · intro ty d hd p hp
    by_cases hn : ∃ n, d = .named n
    · obtain ⟨n, rfl⟩ := hn
      cases hp
    · rcases h.of_unnamed hd (fun n heq => hn ⟨n, heq⟩) with hold | ⟨rfl, hparts, -⟩
      · exact wf.parts_lt ty d hold p hp
      · exact hparts p hp
  · intro ty n hn u hu
    have hold : u.index < c.size ∧ c.isNamed u = false := by
      cases h.of_named hn with
      | new _ hnone =>
        rw [hnone] at hu
        cases hu
      | kept _ hd => exact wf.underlying_unnamed ty n hd u hu
      | underlying _ _ _ hlt hunnamed =>
        cases hu
        exact ⟨hlt, hunnamed⟩
      | method n₀ _ _ hd => exact wf.underlying_unnamed ty n₀ hd u hu
    exact ⟨Nat.lt_of_lt_of_le hold.1 h.grows.size_le, (h.grows.isNamed hold.1).trans hold.2⟩

/-- What a pointer type points to is declared before it. -/
theorem WellFormed.stripPointer_le {c : Catalog} (wf : c.WellFormed) (ty : TypeId) :
    (c.stripPointer ty).index ≤ ty.index := by
  unfold stripPointer
  split
  · next elem hd => exact Nat.le_of_lt (wf.parts_lt ty _ hd elem (List.mem_singleton_self elem))
  · exact Nat.le_refl _

theorem WellFormed.stripSlice_le {c : Catalog} (wf : c.WellFormed) (ty : TypeId) :
    (c.stripSlice ty).index ≤ ty.index := by
  unfold stripSlice
  split
  · next elem hd => exact Nat.le_of_lt (wf.parts_lt ty _ hd elem (List.mem_singleton_self elem))
  · exact Nat.le_refl _

/-! ### What a type stands for -/

/-- A type has a class exactly if it stands for something declared. -/
theorem kindOf_ne_invalid {c : Catalog} {ty : TypeId} : c.kindOf ty ≠ .invalid ↔
    ∃ d, c.decl? (c.underlying ty) = some d ∧ ∀ n, d ≠ .named n := by
  unfold kindOf
  constructor
  · intro h
    split at h
    all_goals first
      | exact absurd rfl h
      | next hd => exact ⟨_, hd, nofun⟩
  · rintro ⟨d, hd, hn⟩
    rw [hd]
    cases d with
    | basic kind => cases kind <;> nofun
    | named n => exact absurd rfl (hn n)
    | _ => nofun

theorem underlying_of_unnamed {c : Catalog} {ty : TypeId} {d : TypeDecl} (h : c.decl? ty = some d)
    (hd : ∀ n, d ≠ .named n) : c.underlying ty = ty := by
  unfold underlying
  split
  · next n hn => exact absurd (Option.some.inj (h.symm.trans hn)) (hd n)
  · rfl

theorem underlying_of_named {c : Catalog} {ty u : TypeId} {d : NamedDecl}
    (h : c.decl? ty = some (.named d)) (hu : d.underlying = some u) : c.underlying ty = u := by
  rw [underlying, h]
  simp only [hu, Option.getD_some]

theorem lt_size_of_kindOf {c : Catalog} {ty : TypeId} (h : c.kindOf ty ≠ .invalid) :
    ty.index < c.size := by
  obtain ⟨d, hd, -⟩ := kindOf_ne_invalid.mp h
  cases hty : c.decl? ty with
  | none => rw [underlying, hty, hty] at hd; cases hd
  | some e => exact lt_size_of_decl? hty

section Stands

variable {c c' : Catalog} (g : Grows c c') {ty : TypeId} (h : c.kindOf ty ≠ .invalid)
include g h

/-- What a type stands for is not taken back. -/
theorem Grows.underlying : c'.underlying ty = c.underlying ty ∧
    c'.decl? (c.underlying ty) = c.decl? (c.underlying ty) := by
  obtain ⟨d, hd, hunnamed⟩ := kindOf_ne_invalid.mp h
  have hkept := g.unnamed _ d hd (isNamed_eq_false hd hunnamed)
  refine ⟨?_, hkept.trans hd.symm⟩
  cases hty : c.decl? ty with
  | none => rw [Catalog.underlying, hty, hty] at hd; cases hd
  | some e =>
    cases hn : c.isNamed ty with
    | false => rw [Catalog.underlying, Catalog.underlying, hty, g.unnamed ty e hty hn]
    | true =>
      obtain ⟨n, hn⟩ := isNamed_iff.mp hn
      obtain ⟨n', hn', -, -, hunder, -⟩ := g.named ty n hn
      cases hu : n.underlying with
      | none =>
        -- A name that stands for nothing is its own underlying type.
        have hself : c.underlying ty = ty := by simp [Catalog.underlying, hn, hu]
        rw [hself, hn] at hd
        exact absurd (Option.some.inj hd).symm (hunnamed n)
      | some u => rw [underlying_of_named hn hu, underlying_of_named hn' (hunder u hu)]

theorem Grows.kindOf : c'.kindOf ty = c.kindOf ty := by
  obtain ⟨hunder, hdecl⟩ := g.underlying h
  rw [Catalog.kindOf, Catalog.kindOf, hunder, hdecl]

theorem Grows.interface? : c'.interface? ty = c.interface? ty := by
  obtain ⟨hunder, hdecl⟩ := g.underlying h
  rw [Catalog.interface?, Catalog.interface?, hunder, hdecl]

/-- Methods are only added, after those that a type has. -/
theorem Grows.methods_prefix : c.methods ty <+: c'.methods ty := by
  rw [Catalog.methods, Catalog.methods, g.interface? h]
  split
  · exact List.prefix_rfl
  · cases hn : c.named? ty with
    | none => exact List.nil_prefix
    | some n =>
      obtain ⟨n', hn', -, -, -, hmethods⟩ := g.named ty n (named?_eq_some.mp hn)
      rw [named?_eq_some.mpr hn']
      exact hmethods

/-- Methods keep their indices. -/
theorem Grows.methods {i : Nat} {m : MethodDecl} (hm : (c.methods ty)[i]? = some m) :
    (c'.methods ty)[i]? = some m := by
  obtain ⟨hlt, rfl⟩ := List.getElem?_eq_some_iff.mp hm
  exact List.prefix_iff_getElem?.mp (g.methods_prefix h) i hlt

theorem Grows.numMethod_le : c.numMethod ty ≤ c'.numMethod ty :=
  (g.methods_prefix h).length_le

end Stands

/-- The interface that a type is or stands for is declared. -/
theorem decl?_of_interface? {c : Catalog} {ty : TypeId} {d : InterfaceDecl}
    (h : c.interface? ty = some d) : c.decl? (c.underlying ty) = some (.interface d) := by
  unfold interface? at h
  split at h
  · next heq => rw [heq, Option.some.inj h]
  · cases h

theorem isSome_interface? {c : Catalog} {ty : TypeId} :
    (c.interface? ty).isSome = true ↔ c.kindOf ty = .interface := by
  unfold interface? kindOf
  cases hd : c.decl? (c.underlying ty) with
  | none => simp
  | some d =>
    cases d with
    | basic kind => cases kind <;> simp [Kind.ofBasic]
    | _ => simp

theorem interface?_eq_none {c : Catalog} {ty : TypeId} (h : c.kindOf ty ≠ .interface) :
    c.interface? ty = none := by
  cases hi : c.interface? ty with
  | none => rfl
  | some d => exact absurd (isSome_interface?.mp (by rw [hi]; rfl)) h

theorem kindOf_ne_interface {c : Catalog} {ty : TypeId} (h : c.interface? ty = none) :
    c.kindOf ty ≠ .interface := by
  rw [Ne, ← isSome_interface?, h]
  nofun

/-! ### The methods of a name -/

/-- The methods of a name have different names, and each is received by the name itself or by a
pointer to it. -/
structure MethodsOwned (c : Catalog) : Prop where
  nodup : ∀ ty d, c.decl? ty = some (.named d) → (d.methods.map (·.name)).Nodup
  receiver : ∀ ty d, c.decl? ty = some (.named d) → ∀ m ∈ d.methods,
    ∃ recv, m.sig.recv = some recv ∧ (recv = ty ∨ c.decl? recv = some (.pointer ty))

theorem methodsOwned_empty : MethodsOwned empty where
  nodup _ _ h := by simp [empty, decl?] at h
  receiver _ _ h := by simp [empty, decl?] at h

/-- Methods of one name and one type are the same. -/
theorem MethodsOwned.eq_of_name {c : Catalog} (h : MethodsOwned c) {ty : TypeId} {d : NamedDecl}
    (hd : c.decl? ty = some (.named d)) {m m' : MethodDecl} (hm : m ∈ d.methods)
    (hm' : m' ∈ d.methods) (heq : m.name = m'.name) : m = m' :=
  List.inj_on_of_nodup_map (h.nodup ty d hd) hm hm' heq

/-- **A change keeps the methods of every name its own.** -/
theorem Change.methodsOwned {c c' : Catalog} (h : Change c c') (ho : MethodsOwned c) :
    MethodsOwned c' := by
  have hreceiver : ∀ {recv ty : TypeId}, recv = ty ∨ c.decl? recv = some (.pointer ty) →
      recv = ty ∨ c'.decl? recv = some (.pointer ty) := fun hr =>
    hr.imp_right fun hd => h.grows.unnamed _ _ hd (isNamed_eq_false hd (by simp))
  have hold : ∀ {ty : TypeId} {n : NamedDecl}, c.decl? ty = some (.named n) → ∀ m ∈ n.methods,
      ∃ recv, m.sig.recv = some recv ∧ (recv = ty ∨ c'.decl? recv = some (.pointer ty)) := by
    intro ty n hd m hm
    obtain ⟨recv, hrecv, hr⟩ := ho.receiver ty n hd m hm
    exact ⟨recv, hrecv, hreceiver hr⟩
  constructor
  · intro ty n hn
    cases h.of_named hn with
    | new _ _ hnil =>
      rw [hnil]
      exact List.nodup_nil
    | kept _ hd => exact ho.nodup ty n hd
    | underlying n₀ _ hd => exact ho.nodup ty n₀ hd
    | method n₀ m _ hd _ _ hnew =>
      rw [List.map_append, List.nodup_append]
      refine ⟨ho.nodup ty n₀ hd, List.nodup_singleton _, fun a ha b hb => ?_⟩
      obtain ⟨m', hm', rfl⟩ := List.mem_map.mp ha
      rw [List.mem_singleton.mp hb]
      exact hnew m' hm'
  · intro ty n hn m hm
    cases h.of_named hn with
    | new _ _ hnil =>
      rw [hnil] at hm
      cases hm
    | kept _ hd => exact hold hd m hm
    | underlying _ _ hd => exact hold hd m hm
    | method n₀ m₀ recv hd hrecv howned =>
      rcases List.mem_append.mp hm with hm | hm
      · exact hold hd m hm
      · rw [List.mem_singleton.mp hm]
        exact ⟨recv, hrecv, hreceiver (by simpa [isReceiverOf] using howned)⟩

/-! ### Every declaration is a change -/

section Declarations

variable {c : Catalog}

theorem change_intern {d : TypeDecl} (hparts : ∀ p ∈ parts d, p.index < c.size)
    (hunnamed : ∀ n, d ≠ .named n) (hadmits : c.Admits d) : Change c (c.intern d).2 := by
  unfold intern
  split
  · exact .none
  · exact .declare d hparts (fun n hn => absurd hn (hunnamed n)) hadmits

theorem change_basic (kind : BasicKind) : Change c (c.basic kind).2 :=
  change_intern (by simp [parts]) (by simp) trivial

theorem change_pointerTo {elem : TypeId} (h : elem.index < c.size) :
    Change c (c.pointerTo elem).2 :=
  change_intern (by simpa [parts] using h) (by simp) trivial

theorem change_sliceOf {elem : TypeId} (h : elem.index < c.size) : Change c (c.sliceOf elem).2 :=
  change_intern (by simpa [parts] using h) (by simp) trivial

theorem change_funcOf {sig : Signature} (h : ∀ p ∈ sig.types, p.index < c.size) :
    Change c (c.funcOf sig).2 :=
  .declare _ (fun p hp => h p (Signature.mem_types hp)) (by simp) h

theorem change_structOf {fields : List FieldDecl} (h : ∀ f ∈ fields, f.ty.index < c.size) :
    Change c (c.structOf fields).2 :=
  .declare _ (by simpa [parts] using h) (by simp) trivial

theorem change_declareNamed {name : String} {pkg : Option String} {ty : TypeId} {c' : Catalog}
    (h : c.declareNamed name pkg = .ok (ty, c')) : Change c c' := by
  unfold declareNamed at h
  split at h
  · cases h
  · cases h
    exact .declare _ (by simp [parts]) (by rintro n ⟨⟩; exact ⟨rfl, rfl⟩) trivial

/-- What an interface inherits is among what it had and what it embeds. -/
theorem mem_inherit {acc more : List MethodDecl} {m : MethodDecl} (h : m ∈ inherit acc more) :
    m ∈ acc ∨ m ∈ more := by
  unfold inherit at h
  induction more generalizing acc with
  | nil => exact .inl h
  | cons m' rest ih =>
    rw [List.foldl_cons] at h
    rcases ih h with hacc | hrest
    · split at hacc
      · exact .inl hacc
      · rcases List.mem_append.mp hacc with hacc | hm
        · exact .inl hacc
        · exact .inr (List.mem_cons.mpr (.inl (List.mem_singleton.mp hm)))
    · exact .inr (List.mem_cons_of_mem _ hrest)

/-- A method of a complete set is one of the interface's own or one of an embedded interface. -/
theorem mem_inheritAll {explicit acc complete : List MethodDecl} {embedded : List TypeId}
    (h : c.inheritAll explicit acc embedded = .ok complete) {m : MethodDecl} (hm : m ∈ complete) :
    m ∈ acc ∨ ∃ e ∈ embedded, ∃ d, c.interface? e = some d ∧ m ∈ d.complete := by
  induction embedded generalizing acc with
  | nil =>
    cases h
    exact .inl hm
  | cons e rest ih =>
    rw [inheritAll] at h
    split at h
    · next d hd =>
      rcases ih h with hacc | ⟨e', he', d', hd', hm'⟩
      · rcases mem_inherit hacc with hacc | hmem
        · exact .inl hacc
        · exact .inr ⟨e, List.mem_cons_self, d, hd, hmem⟩
      · exact .inr ⟨e', List.mem_cons_of_mem _ he', d', hd', hm'⟩
    · cases h

theorem mem_sortByName {methods : List MethodDecl} {m : MethodDecl} :
    m ∈ sortByName methods ↔ m ∈ methods :=
  (List.mergeSort_perm methods _).mem_iff

theorem collects_of_inheritAll {explicit complete : List MethodDecl} {embedded : List TypeId}
    (own : ∀ m ∈ explicit, m.sig.recv = some c.next ∧
      ∀ p ∈ m.sig.params ++ m.sig.results, p.index < c.size)
    (h : c.inheritAll explicit explicit embedded = .ok complete) :
    c.Collects ⟨explicit, embedded, sortByName complete⟩ :=
  ⟨own, fun _ hm => mem_inheritAll h (mem_sortByName.mp hm)⟩

/-- The signatures of an interface's complete set mention declared types only. -/
theorem WellFormed.complete_lt (wf : WellFormed c) {ty : TypeId} {d : InterfaceDecl}
    (h : c.interface? ty = some d) {m : MethodDecl} (hm : m ∈ d.complete) {p : TypeId}
    (hp : p ∈ m.sig.params ++ m.sig.results) : p.index < c.size := by
  have hd := decl?_of_interface? h
  have hpart : p ∈ parts (.interface d) :=
    List.mem_append_right _ (List.mem_flatMap.mpr ⟨m, hm, hp⟩)
  exact Nat.lt_trans (wf.parts_lt _ _ hd p hpart) (lt_size_of_decl? hd)

theorem change_interfaceOf (wf : WellFormed c) {methods : List MethodDecl} {embedded : List TypeId}
    {ty : TypeId} {c' : Catalog} (hm : ∀ m ∈ methods, ∀ p ∈ m.sig.types, p.index < c.size)
    (he : ∀ e ∈ embedded, e.index < c.size) (h : c.interfaceOf methods embedded = .ok (ty, c')) :
    Change c c' := by
  unfold interfaceOf at h
  dsimp only at h
  split at h
  · next complete hcomplete =>
    cases h
    have hcollects := collects_of_inheritAll (fun m hmem => by
      obtain ⟨m', hm', rfl⟩ := List.mem_map.mp (mem_sortByName.mp hmem)
      exact ⟨rfl, fun p hp => hm m' hm' p (Signature.mem_types hp)⟩) hcomplete
    refine .declare _ (fun p hp => ?_) (by simp) hcollects
    rcases List.mem_append.mp hp with hp | hp
    · exact he p hp
    · obtain ⟨m, hmem, hp⟩ := List.mem_flatMap.mp hp
      rcases hcollects.complete m hmem with hown | ⟨e, -, d, hd, hin⟩
      · exact (hcollects.own m hown).2 p hp
      · exact wf.complete_lt hd hin hp
  · cases h

theorem change_setUnderlying (wf : WellFormed c) {ty underlying : TypeId} {c' : Catalog}
    (hu : underlying.index < c.size) (h : c.setUnderlying ty underlying = .ok c') :
    Change c c' := by
  unfold setUnderlying resolveUnderlying at h
  split at h
  · cases h
  split at h
  · cases h
  next u hres =>
  split at h
  · cases h
  next d hd =>
  split at h
  · cases h
  next hnone =>
  cases h
  have hnone : d.underlying = none := by simpa using hnone
  rw [named?_eq_some] at hd
  split at hres
  · next hun =>
    cases hres
    exact .underlying ty _ d hd hnone hu (by rw [isNamed, hun]; rfl)
  · next n hn =>
    split at hres
    · next v hv =>
      cases hres
      obtain ⟨hlt, hun⟩ := wf.underlying_unnamed _ n (named?_eq_some.mp hn) _ hv
      exact .underlying ty _ d hd hnone hlt hun
    · cases hres

theorem change_addMethod {ty : TypeId} {m : MethodDecl} {i : Nat} {c' : Catalog}
    (hm : ∀ p ∈ m.sig.types, p.index < c.size) (h : c.addMethod ty m = .ok (i, c')) :
    Change c c' := by
  unfold addMethod at h
  split at h
  · cases h
  next d hd =>
  rw [named?_eq_some] at hd
  split at h
  · cases h
  split at h
  · cases h
  next hnew =>
  dsimp only at h
  split at h
  · next hrecv =>
    cases h
    refine .method ty _ d _ hd rfl hrecv (fun m' hm' heq => hnew ?_) fun p hp => ?_
    · exact List.any_eq_true.mpr ⟨m', hm', beq_iff_eq.mpr heq⟩
    rw [Signature.types, List.append_assoc, List.mem_append] at hp
    rcases hp with hrecv | hp
    · cases Option.mem_toList.mp hrecv
      cases hr : m.sig.recv with
      | none => exact lt_size_of_decl? hd
      | some r => exact hm r (by simp [Signature.types, hr])
    · exact hm p (Signature.mem_types hp)
  · cases h

end Declarations

end Catalog

end ScriptEngine
