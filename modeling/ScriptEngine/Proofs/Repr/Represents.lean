import Mathlib.Data.List.Forall2
import Mathlib.Logic.Relation
import ScriptEngine.Proofs.Types.Identity
import ScriptEngine.Repr.Build

/-!
When a representation represents a declared type.

`Interned` says that a representation is the unnamed one of a kind, and `Represents` builds the
representation of an unnamed declaration from those of its parts, without saying in which order they
were made. A table that carries another one (`Carries`) still represents what that one did
(`Represents.mono`), what represents a declaration tells how it is built from what represents its
parts (`Represents.eq_of_alike`, `Represents.alike`), and what is reached from it is reached from a
part or structural (`Represents.grounded`).
-/

namespace ScriptEngine

/-- The kinds that building interns: all but the placeholder and native interfaces. -/
def ReprKind.isStructural : ReprKind → Bool
  | .invalid | .interface _ => false
  | _ => true

namespace ReprTable

/-! ### Reading a changed table -/

theorem get?_eq_none {t : ReprTable} {r : ReprId} (h : t.size ≤ r.index) : t.get? r = none :=
  Array.getElem?_eq_none h

theorem exists_get? {t : ReprTable} {r : ReprId} (h : r.index < t.size) :
    ∃ d, t.get? r = some d :=
  ⟨_, Array.getElem?_eq_getElem h⟩

theorem lt_size_of_get? {t : ReprTable} {r : ReprId} {d : ReprData} (h : t.get? r = some d) :
    r.index < t.size :=
  (Array.getElem?_eq_some_iff.mp h).1

theorem kind_of_get? {t : ReprTable} {r : ReprId} {d : ReprData} (h : t.get? r = some d) :
    t.kind r = d.kind := by
  rw [kind, h]

/-- A representation with a structure exists. -/
theorem lt_size_of_kind {t : ReprTable} {r : ReprId} (h : t.kind r ≠ .invalid) :
    r.index < t.size := by
  by_contra hge
  rw [kind, get?_eq_none (Nat.le_of_not_lt hge)] at h
  exact h rfl

theorem size_push (t : ReprTable) (d : ReprData) : (t.push d).2.size = t.size + 1 := by
  simp [push, size]

theorem get?_push_next (t : ReprTable) (d : ReprData) :
    (t.push d).2.get? (t.push d).1 = some d := by
  simp [push, get?]

theorem get?_push_of_lt {t : ReprTable} (d : ReprData) {r : ReprId} (h : r.index < t.size) :
    (t.push d).2.get? r = t.get? r := by
  have hne : r.index ≠ t.reprs.size := Nat.ne_of_lt h
  simp [push, get?, Array.getElem?_push, hne]

/-- A representation of an extended table is the new one or an old one. -/
theorem get?_push {t : ReprTable} {d e : ReprData} {r : ReprId}
    (h : (t.push d).2.get? r = some e) : r = (t.push d).1 ∧ e = d ∨ t.get? r = some e := by
  unfold push get? at h
  rw [Array.getElem?_push] at h
  split at h
  · next hi => exact .inl ⟨by cases r; cases hi; rfl, (Option.some.inj h).symm⟩
  · exact .inr h

theorem get?_complete_of_ne {t : ReprTable} {p r : ReprId} (h : r ≠ p) (source : ReprId) :
    (t.complete p source).get? r = t.get? r := by
  have hi : p.index ≠ r.index := fun he => h (by cases p; cases r; cases he; rfl)
  simp [complete, get?, Array.getElem?_modify, hi]

theorem get?_complete_self {t : ReprTable} {p : ReprId} {d : ReprData} (h : t.get? p = some d)
    (source : ReprId) :
    (t.complete p source).get? p = some { d with kind := t.kind source } := by
  unfold get? at h
  simp [complete, get?, Array.getElem?_modify, h]

theorem size_complete (t : ReprTable) (p source : ReprId) :
    (t.complete p source).size = t.size := by
  simp [complete, size]

/-! ### Callables -/

/-- A new representation without callables binds nothing. -/
theorem callable?_push {t : ReprTable} {d : ReprData} (h : d.methods = .empty) (r : ReprId)
    (name : String) : (t.push d).2.callable? r name = t.callable? r name := by
  by_cases hr : r.index < t.size
  · rw [callable?, callable?, get?_push_of_lt d hr]
  · rw [callable?, callable?, get?_eq_none (Nat.le_of_not_lt hr)]
    cases he : (t.push d).2.get? r with
    | none => rfl
    | some e =>
      rcases get?_push he with ⟨-, rfl⟩ | he
      · exact congrArg (·.find? name) h
      · exact absurd (lt_size_of_get? he) hr

theorem callable?_complete (t : ReprTable) (p source r : ReprId) (name : String) :
    (t.complete p source).callable? r name = t.callable? r name := by
  by_cases h : r = p
  · subst h
    cases hd : t.get? r with
    | none =>
      have hlt : ¬ r.index < t.size := fun hlt => by
        obtain ⟨d, hd'⟩ := exists_get? hlt
        rw [hd] at hd'
        cases hd'
      rw [callable?, callable?, hd,
        get?_eq_none (by rw [size_complete]; exact Nat.le_of_not_lt hlt)]
    | some d => rw [callable?, callable?, hd, get?_complete_self hd]; rfl
  · rw [callable?, callable?, get?_complete_of_ne h]

theorem size_bind (t : ReprTable) (r : ReprId) (name : String) (callable : Callable) :
    (t.bind r name callable).size = t.size := by
  simp [bind, size]

theorem get?_bind_of_ne {t : ReprTable} {r x : ReprId} (h : x ≠ r) (name : String)
    (callable : Callable) : (t.bind r name callable).get? x = t.get? x := by
  have hi : r.index ≠ x.index := fun he => h (by cases r; cases x; cases he; rfl)
  simp [bind, get?, Array.getElem?_modify, hi]

theorem get?_bind_self {t : ReprTable} {r : ReprId} {d : ReprData} (h : t.get? r = some d)
    (name : String) (callable : Callable) : (t.bind r name callable).get? r =
      some { d with methods := d.methods.set name callable } := by
  unfold get? at h
  simp [bind, get?, Array.getElem?_modify, h]

theorem callable?_bind_self {t : ReprTable} {r : ReprId} (h : r.index < t.size) (name : String)
    (callable : Callable) : (t.bind r name callable).callable? r name = some callable := by
  obtain ⟨d, hd⟩ := exists_get? h
  rw [callable?, get?_bind_self hd]
  exact Assoc.find?_set_self ..

theorem callable?_bind_of_ne {t : ReprTable} {r x : ReprId} {name n : String}
    (h : x ≠ r ∨ n ≠ name) (callable : Callable) :
    (t.bind r name callable).callable? x n = t.callable? x n := by
  by_cases hx : x = r
  · have hn : n ≠ name := h.resolve_left (absurd hx)
    subst hx
    cases hd : t.get? x with
    | some d =>
      rw [callable?, callable?, get?_bind_self hd, hd]
      exact Assoc.find?_set_of_ne _ hn _
    | none =>
      have hsize : t.size ≤ x.index := Nat.le_of_not_lt fun hlt => by
        obtain ⟨d, hd'⟩ := exists_get? hlt
        rw [hd] at hd'
        cases hd'
      rw [callable?, callable?, hd, get?_eq_none (by rwa [size_bind])]
  · rw [callable?, callable?, get?_bind_of_ne hx]

/-- A callable of a table in which one was bound is that one or was there before. -/
theorem callable?_bind {t : ReprTable} {r x : ReprId} {name n : String} {callable c : Callable}
    (h : (t.bind r name callable).callable? x n = some c) :
    x = r ∧ n = name ∧ c = callable ∨ (x ≠ r ∨ n ≠ name) ∧ t.callable? x n = some c := by
  by_cases hne : x ≠ r ∨ n ≠ name
  · rw [callable?_bind_of_ne hne] at h
    exact .inr ⟨hne, h⟩
  · simp only [not_or, not_not] at hne
    obtain ⟨rfl, rfl⟩ := hne
    have hlt : x.index < t.size := by
      obtain ⟨d, hd, -⟩ := Option.bind_eq_some_iff.mp h
      rw [← size_bind t x n callable]
      exact lt_size_of_get? hd
    rw [callable?_bind_self hlt] at h
    exact .inl ⟨rfl, rfl, (Option.some.inj h).symm⟩

/-! ### Unnamed representations -/

/-- `r` is the unnamed representation of `kind`. -/
structure Interned (t : ReprTable) (kind : ReprKind) (r : ReprId) : Prop where
  entry : ∃ d, t.get? r = some d ∧ d.name = none ∧ d.kind = kind
  first : ∀ r' d, r'.index < r.index → t.get? r' = some d → d.name = none → d.kind ≠ kind

theorem Interned.kind_eq {t : ReprTable} {kind : ReprKind} {r : ReprId} (h : t.Interned kind r) :
    t.kind r = kind := by
  obtain ⟨d, hd, -, hkind⟩ := h.entry
  rw [kind_of_get? hd, hkind]

theorem Interned.lt_size {t : ReprTable} {kind : ReprKind} {r : ReprId} (h : t.Interned kind r) :
    r.index < t.size := by
  obtain ⟨d, hd, -⟩ := h.entry
  exact lt_size_of_get? hd

theorem Interned.unique {t : ReprTable} {kind : ReprKind} {r r' : ReprId}
    (h : t.Interned kind r) (h' : t.Interned kind r') : r = r' := by
  obtain ⟨d, hd, hname, hkind⟩ := h.entry
  obtain ⟨d', hd', hname', hkind'⟩ := h'.entry
  rcases Nat.lt_trichotomy r.index r'.index with hlt | heq | hlt
  · exact absurd hkind (h'.first r d hlt hd hname)
  · cases r
    cases r'
    cases heq
    rfl
  · exact absurd hkind' (h.first r' d' hlt hd' hname')

/-- Asking for an interned kind finds it. -/
theorem Interned.intern {t : ReprTable} {kind : ReprKind} {r : ReprId} (h : t.Interned kind r) :
    t.intern kind = (r, t) := by
  have hfind : t.reprs.findIdx? (fun d => d.name.isNone && d.kind == kind) = some r.index := by
    obtain ⟨d, hd, hname, hkind⟩ := h.entry
    obtain ⟨hlt, hget⟩ := Array.getElem?_eq_some_iff.mp hd
    rw [Array.findIdx?_eq_some_iff_getElem]
    refine ⟨hlt, by simp [hget, hname, hkind], fun j hj => ?_⟩
    have hne := h.first ⟨j⟩ t.reprs[j] hj (Array.getElem?_eq_getElem _)
    simp only [Bool.and_eq_true, Option.isNone_iff_eq_none, beq_iff_eq]
    exact fun ⟨hname, hkind⟩ => hne hname hkind
  rw [ReprTable.intern, hfind]

/-- A kind that is asked for is interned: it was, or a new representation is made for it. -/
theorem interned_intern (t : ReprTable) (kind : ReprKind) :
    (t.intern kind).2.Interned kind (t.intern kind).1 := by
  unfold ReprTable.intern
  split
  · next i hfind =>
    obtain ⟨hlt, hi, hbefore⟩ := Array.findIdx?_eq_some_iff_getElem.mp hfind
    simp only [Bool.and_eq_true, Option.isNone_iff_eq_none, beq_iff_eq] at hi hbefore
    refine ⟨⟨_, Array.getElem?_eq_getElem hlt, hi⟩, fun r d hr hd hname hkind => ?_⟩
    obtain ⟨hlt', rfl⟩ := Array.getElem?_eq_some_iff.mp hd
    exact hbefore r.index hr ⟨hname, hkind⟩
  · next hfind =>
    refine ⟨⟨_, get?_push_next t _, rfl, rfl⟩, fun r d hr hd hname hkind => ?_⟩
    rw [get?_push_of_lt _ hr] at hd
    have hnone := Array.findIdx?_eq_none_iff.mp hfind d (Array.mem_of_getElem? hd)
    simp [hname, hkind] at hnone

/-- Asking for a kind changes nothing, or the table has not got it and gets it. -/
theorem intern_cases (t : ReprTable) (kind : ReprKind) :
    (t.intern kind).2 = t ∨ (t.intern kind).2 = (t.push ⟨none, kind, .empty⟩).2 := by
  unfold ReprTable.intern
  split
  · exact .inl rfl
  · exact .inr rfl

/-! ### What a later table still knows -/

/-- Everything that `t` has stays as it is in `t'`, callables apart. -/
structure Extends (t t' : ReprTable) : Prop where
  kept : ∀ r d, t.get? r = some d → ∃ d', t'.get? r = some d' ∧ d'.name = d.name ∧ d'.kind = d.kind
  built : ∀ ty r, t.built.find? ty = some r → t'.built.find? ty = some r

theorem Extends.refl (t : ReprTable) : Extends t t :=
  ⟨fun _ d h => ⟨d, h, rfl, rfl⟩, fun _ _ h => h⟩

theorem Extends.trans {t₁ t₂ t₃ : ReprTable} (h : Extends t₁ t₂) (h' : Extends t₂ t₃) :
    Extends t₁ t₃ where
  kept r d hd := by
    obtain ⟨d', hd', hname, hkind⟩ := h.kept r d hd
    obtain ⟨d'', hd'', hname', hkind'⟩ := h'.kept r d' hd'
    exact ⟨d'', hd'', hname'.trans hname, hkind'.trans hkind⟩
  built ty r hr := h'.built ty r (h.built ty r hr)

theorem Extends.kind_eq {t t' : ReprTable} (h : Extends t t') {r : ReprId}
    (hr : r.index < t.size) : t'.kind r = t.kind r := by
  obtain ⟨d, hd⟩ := exists_get? hr
  obtain ⟨d', hd', -, hkind⟩ := h.kept r d hd
  rw [kind_of_get? hd, kind_of_get? hd', hkind]

theorem Extends.lt_size {t t' : ReprTable} (h : Extends t t') {r : ReprId}
    (hr : r.index < t.size) : r.index < t'.size := by
  obtain ⟨d, hd⟩ := exists_get? hr
  obtain ⟨d', hd', -⟩ := h.kept r d hd
  exact lt_size_of_get? hd'

theorem extends_push (t : ReprTable) (d : ReprData) : Extends t (t.push d).2 :=
  ⟨fun _ e he => ⟨e, by rw [get?_push_of_lt d (lt_size_of_get? he), he], rfl, rfl⟩, fun _ _ h => h⟩

theorem extends_intern (t : ReprTable) (kind : ReprKind) : Extends t (t.intern kind).2 := by
  rcases t.intern_cases kind with h | h
  · rw [h]
    exact .refl t
  · rw [h]
    exact extends_push t _

theorem find?_record {t : ReprTable} {ty n : TypeId} {r x : ReprId}
    (h : (t.record ty r).built.find? n = some x) : n = ty ∧ x = r ∨ t.built.find? n = some x := by
  by_cases heq : n = ty
  · subst heq
    rw [record, Assoc.find?_set_self] at h
    exact .inl ⟨rfl, (Option.some.inj h).symm⟩
  · rw [record, Assoc.find?_set_of_ne _ heq] at h
    exact .inr h

/-- Recording anew, or what is recorded already, keeps the table. -/
theorem extends_record {t : ReprTable} {ty : TypeId} {r : ReprId}
    (h : ∀ r', t.built.find? ty = some r' → r' = r) : Extends t (t.record ty r) := by
  refine ⟨fun _ d hd => ⟨d, hd, rfl, rfl⟩, fun n x hx => ?_⟩
  by_cases heq : n = ty
  · subst heq
    rw [record, Assoc.find?_set_self, h x hx]
  · rw [record, Assoc.find?_set_of_ne _ heq]
    exact hx

theorem extends_bind (t : ReprTable) (r : ReprId) (name : String) (callable : Callable) :
    Extends t (t.bind r name callable) := by
  refine ⟨fun x d hd => ?_, fun _ _ h => h⟩
  by_cases heq : x = r
  · subst heq
    exact ⟨_, get?_bind_self hd name callable, rfl, rfl⟩
  · exact ⟨d, by rw [get?_bind_of_ne heq, hd], rfl, rfl⟩

theorem kind_bind (t : ReprTable) (r x : ReprId) (name : String) (callable : Callable) :
    (t.bind r name callable).kind x = t.kind x := by
  by_cases hx : x.index < t.size
  · exact (extends_bind t r name callable).kind_eq hx
  · have hx := Nat.le_of_not_lt hx
    rw [kind, kind, get?_eq_none hx, get?_eq_none (by rwa [size_bind])]

/-- What was interned in an extended table is interned there still, and what is interned there and
older was interned before. -/
theorem Extends.interned_iff {t t' : ReprTable} (h : Extends t t') {kind : ReprKind} {r : ReprId}
    (hr : r.index < t.size) : t'.Interned kind r ↔ t.Interned kind r := by
  have hkept : ∀ {x e'}, x.index < t.size → t'.get? x = some e' →
      ∃ e, t.get? x = some e ∧ e'.name = e.name ∧ e'.kind = e.kind := by
    intro x e' hx he'
    obtain ⟨e, he⟩ := exists_get? hx
    obtain ⟨e'', he'', hname, hkind⟩ := h.kept x e he
    obtain rfl := Option.some.inj (he'.symm.trans he'')
    exact ⟨e, he, hname, hkind⟩
  constructor
  · rintro ⟨⟨d', hd', hname', hkind'⟩, hfirst⟩
    obtain ⟨d, hd, hname, hkind⟩ := hkept hr hd'
    refine ⟨⟨d, hd, hname ▸ hname', hkind ▸ hkind'⟩, fun x e hlt he hnone => ?_⟩
    obtain ⟨e', he', hname, hkind⟩ := h.kept x e he
    exact hkind ▸ hfirst x e' hlt he' (hname.trans hnone)
  · rintro ⟨⟨d, hd, hnone, hk⟩, hfirst⟩
    obtain ⟨d', hd', hname, hkind⟩ := h.kept r d hd
    refine ⟨⟨d', hd', hname.trans hnone, hkind.trans hk⟩, fun x e' hlt he' hnone' => ?_⟩
    obtain ⟨e, he, hname, hkind⟩ := hkept (Nat.lt_trans hlt hr) he'
    exact hkind ▸ hfirst x e hlt he (hname ▸ hnone')

/-- A table is prolonged if it is extended and no callable is bound in it. -/
structure Prolongs (t t' : ReprTable) : Prop where
  extended : Extends t t'
  callables : ∀ r name, t'.callable? r name = t.callable? r name

theorem Prolongs.refl (t : ReprTable) : Prolongs t t :=
  ⟨.refl t, fun _ _ => rfl⟩

theorem Prolongs.trans {t₁ t₂ t₃ : ReprTable} (h : Prolongs t₁ t₂) (h' : Prolongs t₂ t₃) :
    Prolongs t₁ t₃ :=
  ⟨h.extended.trans h'.extended, fun r name => (h'.callables r name).trans (h.callables r name)⟩

theorem prolongs_intern (t : ReprTable) (kind : ReprKind) : Prolongs t (t.intern kind).2 := by
  refine ⟨extends_intern t kind, ?_⟩
  rcases t.intern_cases kind with h | h
  · rw [h]
    exact fun _ _ => rfl
  · rw [h]
    exact callable?_push rfl

theorem prolongs_push (t : ReprTable) {d : ReprData} (h : d.methods = .empty) :
    Prolongs t (t.push d).2 :=
  ⟨extends_push t d, callable?_push h⟩

theorem prolongs_record {t : ReprTable} {ty : TypeId} {r : ReprId}
    (h : ∀ r', t.built.find? ty = some r' → r' = r) : Prolongs t (t.record ty r) :=
  ⟨extends_record h, fun _ _ => rfl⟩

theorem lt_size_of_callable? {t : ReprTable} {r : ReprId} {name : String} {callable : Callable}
    (h : t.callable? r name = some callable) : r.index < t.size := by
  obtain ⟨d, hd, -⟩ := Option.bind_eq_some_iff.mp h
  exact lt_size_of_get? hd

/-- What is finished in `t` is the same in `t'`: unnamed representations and recorded ones. -/
structure Carries (t t' : ReprTable) : Prop where
  names : ∀ r d, t.get? r = some d →
    ∃ d', t'.get? r = some d' ∧ d'.name = d.name ∧ (d.name = none → d'.kind = d.kind)
  built : ∀ ty r, t.built.find? ty = some r → t'.built.find? ty = some r ∧ t'.kind r = t.kind r

theorem Extends.carries {t t' : ReprTable} (h : Extends t t')
    (hbuilt : ∀ ty r, t.built.find? ty = some r → t.kind r ≠ .invalid) : Carries t t' where
  names r d hd := by
    obtain ⟨d', hd', hname, hkind⟩ := h.kept r d hd
    exact ⟨d', hd', hname, fun _ => hkind⟩
  built ty r hr := ⟨h.built ty r hr, h.kind_eq (lt_size_of_kind (hbuilt ty r hr))⟩

theorem Interned.mono {t t' : ReprTable} (h : Carries t t') {kind : ReprKind} {r : ReprId}
    (hr : t.Interned kind r) : t'.Interned kind r := by
  obtain ⟨d, hd, hname, hkind⟩ := hr.entry
  obtain ⟨d', hd', hname', hkind'⟩ := h.names r d hd
  refine ⟨⟨d', hd', hname'.trans hname, (hkind' hname).trans hkind⟩, fun r' e hlt he hename => ?_⟩
  obtain ⟨e₀, he₀⟩ := exists_get? (Nat.lt_trans hlt (lt_size_of_get? hd))
  obtain ⟨e', he', hename', hekind⟩ := h.names r' e₀ he₀
  rw [he] at he'
  obtain rfl := Option.some.inj he'
  have hnone : e₀.name = none := hename'.symm.trans hename
  rw [hekind hnone]
  exact hr.first r' e₀ hlt he₀ hnone

/-! ### What is reached -/

/-- `r'` is reached from `r` through elements, fields, parameters and results. -/
abbrev Reaches (t : ReprTable) : ReprId → ReprId → Prop :=
  Relation.ReflTransGen fun r r' => r' ∈ (t.kind r).parts

/-- `r` is reached down to `G` through structures only. -/
inductive Grounded (t : ReprTable) (G : ReprId → Prop) : ReprId → Prop where
  | ground {r : ReprId} : G r → Grounded t G r
  | node {r : ReprId} : t.kind r ≠ .invalid → (∀ p ∈ (t.kind r).parts, Grounded t G p) →
      Grounded t G r

/-- If the ground is structural down to the ground, then all that is reached from it is. -/
theorem Grounded.kind_ne {t : ReprTable} {G : ReprId → Prop}
    (hG : ∀ r, G r → t.kind r ≠ .invalid ∧ ∀ p ∈ (t.kind r).parts, Grounded t G p) {r r' : ReprId}
    (h : Grounded t G r) (hreach : t.Reaches r r') : t.kind r' ≠ .invalid := by
  have hstep : ∀ r, Grounded t G r →
      t.kind r ≠ .invalid ∧ ∀ p ∈ (t.kind r).parts, Grounded t G p := by
    rintro r (hr | ⟨hkind, hparts⟩)
    · exact hG r hr
    · exact ⟨hkind, hparts⟩
  have hlast : Grounded t G r' := by
    induction hreach with
    | refl => exact h
    | tail _ hpart ih => exact (hstep _ ih).2 _ hpart
  exact (hstep r' hlast).1

end ReprTable

/-! ### Representing a declaration -/

section Represents

variable (cur : TypeId → ReprId → Prop)

/-- The runtime view of a signature; `cur` represents its types. -/
structure FuncShape (sig : Signature) (f : FuncRepr) : Prop where
  params : List.Forall₂ cur sig.params f.params
  results : List.Forall₂ cur sig.results f.results
  variadic : f.variadic = sig.variadic

/-- A field of a struct. -/
structure FieldShape (f : FieldDecl) (rf : ReprField) : Prop where
  name : rf.name = f.name
  repr : cur f.ty rf.repr
  embedded : rf.embedded = f.embedded

/-- The marker of an embedded interface. -/
structure MarkerShape (c : Catalog) (e : TypeId) (rf : ReprField) : Prop where
  name : rf.name = ((c.named? e).map (·.name)).getD ""
  repr : cur e rf.repr
  embedded : rf.embedded = true

/-- The field of an interface method. -/
structure MethodShape (t : ReprTable) (m : MethodDecl) (rf : ReprField) : Prop where
  name : rf.name = m.name
  repr : ∃ f, FuncShape cur m.sig f ∧ t.Interned (.func f) rf.repr
  embedded : rf.embedded = false

/-- `r` represents an unnamed declaration in a table; `cur` represents its parts. -/
inductive Represents (c : Catalog) (t : ReprTable) : TypeDecl → ReprId → Prop where
  | basic {kind : BasicKind} {r : ReprId} : t.Interned (.basic kind) r →
      Represents c t (.basic kind) r
  | pointer {elem : TypeId} {p r : ReprId} : cur elem p → t.Interned (.pointer p) r →
      Represents c t (.pointer elem) r
  | slice {elem : TypeId} {p r : ReprId} : cur elem p → t.Interned (.slice p) r →
      Represents c t (.slice elem) r
  | func {sig : Signature} {f : FuncRepr} {r : ReprId} : FuncShape cur sig f →
      t.Interned (.func f) r → Represents c t (.func sig) r
  | struct {fields : List FieldDecl} {fs : List ReprField} {r : ReprId} :
      List.Forall₂ (FieldShape cur) fields fs → t.Interned (.struct fs) r →
      Represents c t (.struct fields) r
  | interface {d : InterfaceDecl} {header marker embeddeds body r : ReprId}
      {markers methods : List ReprField} :
      t.Interned .header header →
      List.Forall₂ (MarkerShape cur c) d.embedded markers →
      t.Interned (.struct markers) marker →
      t.Interned (.array 0 marker) embeddeds →
      List.Forall₂ (MethodShape cur t) d.complete methods →
      t.Interned (.struct
        (⟨"Interface", header, false⟩ :: ⟨"Embeddeds", embeddeds, false⟩ :: methods)) body →
      t.Interned (.pointer body) r →
      Represents c t (.interface d) r

end Represents

/-! ### Lists of parts -/

section Lists

variable {α β : Type} {R S : α → β → Prop} {l : List α} {u : List β}

theorem forall₂_imp_mem (h : List.Forall₂ R l u) (hRS : ∀ a ∈ l, ∀ b, R a b → S a b) :
    List.Forall₂ S l u := by
  have hmem : List.Forall₂ (fun a b => a ∈ l ∧ R a b) l u :=
    (List.forall₂_and_left l u).mpr ⟨fun a ha => ha, h⟩
  exact hmem.imp fun a b ⟨ha, hab⟩ => hRS a ha b hab

theorem exists_of_mem_forall₂ (h : List.Forall₂ R l u) {b : β} (hb : b ∈ u) : ∃ a ∈ l, R a b := by
  induction h with
  | nil => cases hb
  | cons hab _ ih =>
    rcases List.mem_cons.mp hb with rfl | hb
    · exact ⟨_, List.mem_cons_self .., hab⟩
    · obtain ⟨a, ha, hab⟩ := ih hb
      exact ⟨a, List.mem_cons_of_mem _ ha, hab⟩

end Lists

/-! ### Facts about representing -/

section Facts

variable {cur cur' : TypeId → ReprId → Prop} {c c' : Catalog} {t t' : ReprTable} {d : TypeDecl}
  {r r' : ReprId}

theorem FuncShape.mono {sig : Signature} {f : FuncRepr} (h : FuncShape cur sig f)
    (hcur : ∀ p ∈ sig.params ++ sig.results, ∀ x, cur p x → cur' p x) : FuncShape cur' sig f where
  params := forall₂_imp_mem h.params fun p hp => hcur p (List.mem_append_left _ hp)
  results := forall₂_imp_mem h.results fun p hp => hcur p (List.mem_append_right _ hp)
  variadic := h.variadic

/-- A later table still represents what an earlier one did, if its parts are still represented. -/
theorem Represents.mono (h : Represents cur c t d r) (ht : ReprTable.Carries t t')
    (hcur : ∀ p ∈ Catalog.parts d, ∀ x, cur p x → cur' p x)
    (hnames : ∀ p ∈ Catalog.parts d, (c'.named? p).map (·.name) = (c.named? p).map (·.name)) :
    Represents cur' c' t' d r := by
  cases h with
  | basic hr => exact .basic (hr.mono ht)
  | pointer hp hr => exact .pointer (hcur _ (List.mem_singleton_self _) _ hp) (hr.mono ht)
  | slice hp hr => exact .slice (hcur _ (List.mem_singleton_self _) _ hp) (hr.mono ht)
  | func hf hr => exact .func (hf.mono hcur) (hr.mono ht)
  | struct hfields hr =>
    refine .struct (forall₂_imp_mem hfields fun f hf rf h => ?_) (hr.mono ht)
    exact ⟨h.name, hcur _ (List.mem_map_of_mem hf) _ h.repr, h.embedded⟩
  | interface hheader hmarkers hmarker hembeddeds hmethods hbody hr =>
    refine .interface (hheader.mono ht) (forall₂_imp_mem hmarkers fun e he rf h => ?_)
      (hmarker.mono ht) (hembeddeds.mono ht) (forall₂_imp_mem hmethods fun m hm rf h => ?_)
      (hbody.mono ht) (hr.mono ht)
    · have hpart : e ∈ Catalog.parts (.interface _) := List.mem_append_left _ he
      exact ⟨by rw [h.name, hnames e hpart], hcur e hpart _ h.repr, h.embedded⟩
    · obtain ⟨f, hf, hrepr⟩ := h.repr
      refine ⟨h.name, ⟨f, hf.mono fun p hp => hcur p ?_, hrepr.mono ht⟩, h.embedded⟩
      exact List.mem_append_right _ (List.mem_flatMap.mpr ⟨m, hm, hp⟩)

theorem Represents.not_named (h : Represents cur c t d r) (n : NamedDecl) : d ≠ .named n := by
  cases h <;> nofun

section Alike

variable {R : TypeId → TypeId → Prop} {e : TypeDecl}

/-- If what represents related types is the same, what represents declarations that are built alike
from them is the same. -/
theorem Represents.eq_of_alike (hd : Alike R d e)
    (hcur : ∀ p q x y, R p q → cur p x → cur q y → x = y)
    (hnames : ∀ p q, R p q → c.named? p = c.named? q) (h : Represents cur c t d r)
    (h' : Represents cur c t e r') : r = r' := by
  have hfunc : ∀ {s s' f f'}, AlikeSignature R s s' → FuncShape cur s f → FuncShape cur s' f' →
      f = f' := by
    rintro s s' ⟨params, results, variadic⟩ ⟨params', results', variadic'⟩ hs hf hf'
    obtain rfl := eq_of_forall₂ hs.params hf.params hf'.params hcur
    obtain rfl := eq_of_forall₂ hs.results hf.results hf'.results hcur
    obtain rfl : variadic = variadic' :=
      hf.variadic.trans (hs.variadic.trans hf'.variadic.symm)
    rfl
  cases hd with
  | basic kind =>
    cases h with
    | basic hr =>
      cases h' with
      | basic hr' => exact hr.unique hr'
  | pointer hx =>
    cases h with
    | pointer hp hr =>
      cases h' with
      | pointer hp' hr' =>
        obtain rfl := hcur _ _ _ _ hx hp hp'
        exact hr.unique hr'
  | slice hx =>
    cases h with
    | slice hp hr =>
      cases h' with
      | slice hp' hr' =>
        obtain rfl := hcur _ _ _ _ hx hp hp'
        exact hr.unique hr'
  | func hs =>
    cases h with
    | func hf hr =>
      cases h' with
      | func hf' hr' =>
        obtain rfl := hfunc hs hf hf'
        exact hr.unique hr'
  | struct hfields =>
    cases h with
    | struct hf hr =>
      cases h' with
      | struct hf' hr' =>
        obtain rfl := eq_of_forall₂ hfields hf hf' fun f g rf rg hfg h h' => by
          obtain ⟨name, repr, emb⟩ := rf
          obtain ⟨name', repr', emb'⟩ := rg
          obtain rfl : name = name' := h.name.trans (hfg.name.trans h'.name.symm)
          obtain rfl := hcur _ _ _ _ hfg.ty h.repr h'.repr
          obtain rfl : emb = emb' := h.embedded.trans (hfg.embedded.trans h'.embedded.symm)
          rfl
        exact hr.unique hr'
  | interface hembedded hcomplete =>
    cases h with
    | interface hheader hmarkers hmarker hembeddeds hmethods hbody hr =>
      cases h' with
      | interface hheader' hmarkers' hmarker' hembeddeds' hmethods' hbody' hr' =>
        obtain rfl := hheader.unique hheader'
        obtain rfl := eq_of_forall₂ hembedded hmarkers hmarkers' fun x y rx ry hxy h h' => by
          obtain ⟨name, repr, emb⟩ := rx
          obtain ⟨name', repr', emb'⟩ := ry
          obtain rfl : name = name' := h.name.trans ((hnames x y hxy) ▸ h'.name.symm)
          obtain rfl := hcur _ _ _ _ hxy h.repr h'.repr
          obtain rfl : emb = emb' := h.embedded.trans h'.embedded.symm
          rfl
        obtain rfl := hmarker.unique hmarker'
        obtain rfl := hembeddeds.unique hembeddeds'
        obtain rfl := eq_of_forall₂ hcomplete hmethods hmethods' fun m n rm rn hmn h h' => by
          obtain ⟨name, repr, emb⟩ := rm
          obtain ⟨name', repr', emb'⟩ := rn
          obtain rfl : name = name' := h.name.trans (hmn.name.trans h'.name.symm)
          obtain ⟨f, hf, hfr⟩ := h.repr
          obtain ⟨f', hf', hfr'⟩ := h'.repr
          obtain rfl := hfunc hmn.sig hf hf'
          obtain rfl := hfr.unique hfr'
          obtain rfl : emb = emb' := h.embedded.trans h'.embedded.symm
          rfl
        obtain rfl := hbody.unique hbody'
        exact hr.unique hr'

/-- Declarations that are represented by the same are built alike, if types that are represented by
the same are related, and no type is represented by a struct with the header of an interface. -/
theorem Represents.alike (hR : ∀ p ∈ Catalog.parts d, ∀ q x, cur p x → cur q x → R p q)
    (hplain : ∀ p x fields, cur p x → t.kind x = .struct fields →
      ∀ f ∈ fields, t.kind f.repr ≠ .header)
    (h : Represents cur c t d r) (h' : Represents cur c t e r) : Alike R d e := by
  have hfunc : ∀ {s s' f}, s.params ++ s.results ⊆ Catalog.parts d → FuncShape cur s f →
      FuncShape cur s' f → AlikeSignature R s s' := by
    intro s s' f hsub hf hf'
    obtain ⟨hparams, hresults⟩ := List.append_subset.mp hsub
    exact ⟨forall₂_of_common hf.params hf'.params fun p hp => hR p (hparams hp),
      forall₂_of_common hf.results hf'.results fun p hp => hR p (hresults hp),
      hf.variadic.symm.trans hf'.variadic⟩
  -- The struct behind an emulated interface represents no type.
  have hbody : ∀ {p x header rest}, cur p x → t.Interned .header header →
      ¬ t.Interned (.struct (⟨"Interface", header, false⟩ :: rest)) x := by
    intro p x header rest hx hheader hstruct
    exact hplain p x _ hx hstruct.kind_eq _ (List.mem_cons_self ..) hheader.kind_eq
  cases h with
  | basic hr =>
    cases h' with
    | basic hr' =>
      cases hr.kind_eq.symm.trans hr'.kind_eq
      exact .basic _
    | pointer _ hr' | slice _ hr' | func _ hr' | struct _ hr' | interface _ _ _ _ _ _ hr' =>
      cases hr.kind_eq.symm.trans hr'.kind_eq
  | pointer hp hr =>
    cases h' with
    | pointer hp' hr' =>
      cases hr.kind_eq.symm.trans hr'.kind_eq
      exact .pointer (hR _ (List.mem_singleton_self _) _ _ hp hp')
    | interface hheader _ _ _ _ hstruct hr' =>
      cases hr.kind_eq.symm.trans hr'.kind_eq
      exact absurd hstruct (hbody hp hheader)
    | basic hr' | slice _ hr' | func _ hr' | struct _ hr' =>
      cases hr.kind_eq.symm.trans hr'.kind_eq
  | slice hp hr =>
    cases h' with
    | slice hp' hr' =>
      cases hr.kind_eq.symm.trans hr'.kind_eq
      exact .slice (hR _ (List.mem_singleton_self _) _ _ hp hp')
    | basic hr' | pointer _ hr' | func _ hr' | struct _ hr' | interface _ _ _ _ _ _ hr' =>
      cases hr.kind_eq.symm.trans hr'.kind_eq
  | func hf hr =>
    cases h' with
    | func hf' hr' =>
      cases hr.kind_eq.symm.trans hr'.kind_eq
      exact .func (hfunc (List.Subset.refl _) hf hf')
    | basic hr' | pointer _ hr' | slice _ hr' | struct _ hr' | interface _ _ _ _ _ _ hr' =>
      cases hr.kind_eq.symm.trans hr'.kind_eq
  | struct hfields hr =>
    cases h' with
    | struct hfields' hr' =>
      cases hr.kind_eq.symm.trans hr'.kind_eq
      refine .struct (forall₂_of_common hfields hfields' fun f hf g rf h h' => ?_)
      exact ⟨h.name.symm.trans h'.name, h.embedded.symm.trans h'.embedded,
        hR _ (List.mem_map_of_mem hf) _ _ h.repr h'.repr⟩
    | basic hr' | pointer _ hr' | slice _ hr' | func _ hr' | interface _ _ _ _ _ _ hr' =>
      cases hr.kind_eq.symm.trans hr'.kind_eq
  | interface hheader hmarkers hmarker hembeddeds hmethods hstruct hr =>
    cases h' with
    | pointer hp' hr' =>
      cases hr.kind_eq.symm.trans hr'.kind_eq
      exact absurd hstruct (hbody hp' hheader)
    | interface hheader' hmarkers' hmarker' hembeddeds' hmethods' hstruct' hr' =>
      -- Down the layers: the pointer, the struct, the array and the markers.
      cases hr.kind_eq.symm.trans hr'.kind_eq
      cases hstruct.kind_eq.symm.trans hstruct'.kind_eq
      cases hembeddeds.kind_eq.symm.trans hembeddeds'.kind_eq
      cases hmarker.kind_eq.symm.trans hmarker'.kind_eq
      refine .interface (forall₂_of_common hmarkers hmarkers' fun x hx y rx h h' => ?_)
        (forall₂_of_common hmethods hmethods' fun m hm n rm h h' => ?_)
      · exact hR x (List.mem_append_left _ hx) y _ h.repr h'.repr
      · obtain ⟨f, hf, hfr⟩ := h.repr
        obtain ⟨f', hf', hfr'⟩ := h'.repr
        cases hfr.kind_eq.symm.trans hfr'.kind_eq
        refine ⟨h.name.symm.trans h'.name, hfunc (fun p hp => ?_) hf hf'⟩
        exact List.mem_append_right _ (List.mem_flatMap.mpr ⟨m, hm, hp⟩)
    | basic hr' | slice _ hr' | func _ hr' | struct _ hr' =>
      cases hr.kind_eq.symm.trans hr'.kind_eq

end Alike

/-- Parts with one representation each leave one representation for the whole. -/
theorem Represents.unique (hcur : Relator.RightUnique cur) (h : Represents cur c t d r)
    (h' : Represents cur c t d r') : r = r' := by
  refine Represents.eq_of_alike (.refl (R := Eq) (fun _ => rfl) h.not_named)
    (fun p q x y hpq hx hy => ?_) (fun p q hpq => by rw [hpq]) h h'
  subst hpq
  exact hcur hx hy

/-- What represents an unnamed declaration is unnamed. -/
theorem Represents.interned (h : Represents cur c t d r) :
    ∃ kind, kind.isStructural = true ∧ t.Interned kind r := by
  cases h with
  | basic hr => exact ⟨_, rfl, hr⟩
  | pointer _ hr => exact ⟨_, rfl, hr⟩
  | slice _ hr => exact ⟨_, rfl, hr⟩
  | func _ hr => exact ⟨_, rfl, hr⟩
  | struct _ hr => exact ⟨_, rfl, hr⟩
  | interface _ _ _ _ _ _ hr => exact ⟨_, rfl, hr⟩

theorem Represents.unnamed (h : Represents cur c t d r) {e : ReprData} (he : t.get? r = some e) :
    e.name = none := by
  obtain ⟨kind, -, hr⟩ := h.interned
  obtain ⟨e', he', hname, -⟩ := hr.entry
  rw [he] at he'
  obtain rfl := Option.some.inj he'
  exact hname

theorem Represents.kind_ne (h : Represents cur c t d r) : t.kind r ≠ .invalid := by
  obtain ⟨kind, hkind, hr⟩ := h.interned
  rw [hr.kind_eq]
  rintro rfl
  cases hkind

/-- An interned kind is structural down to what its parts are grounded in. -/
theorem ReprTable.Interned.grounded {kind : ReprKind} {G : ReprId → Prop} (h : t.Interned kind r)
    (hkind : kind.isStructural = true) (hparts : ∀ p ∈ kind.parts, t.Grounded G p) :
    t.Grounded G r := by
  refine .node ?_ ?_
  · rw [h.kind_eq]
    rintro rfl
    cases hkind
  · rw [h.kind_eq]
    exact hparts

/-- What represents a declaration is structural down to the representations of its parts. -/
theorem Represents.grounded (h : Represents cur c t d r) :
    ∀ p ∈ (t.kind r).parts, t.Grounded (fun x => ∃ p ∈ Catalog.parts d, cur p x) p := by
  have hlist : ∀ {types reprs}, List.Forall₂ cur types reprs → types ⊆ Catalog.parts d →
      ∀ x ∈ reprs, t.Grounded (fun x => ∃ p ∈ Catalog.parts d, cur p x) x := by
    intro types reprs hall hsub x hx
    obtain ⟨p, hp, hpx⟩ := exists_of_mem_forall₂ hall hx
    exact .ground ⟨p, hsub hp, hpx⟩
  have hfunc : ∀ {sig f}, FuncShape cur sig f → sig.params ++ sig.results ⊆ Catalog.parts d →
      ∀ x ∈ f.parts, t.Grounded (fun x => ∃ p ∈ Catalog.parts d, cur p x) x := by
    intro sig f hf hsub x hx
    obtain ⟨hparams, hresults⟩ := List.append_subset.mp hsub
    rcases List.mem_append.mp hx with hx | hx
    · exact hlist hf.params hparams x hx
    · exact hlist hf.results hresults x hx
  cases h with
  | basic hr =>
    rw [hr.kind_eq]
    exact fun p hp => by cases hp
  | pointer hp hr =>
    rw [hr.kind_eq]
    intro x hx
    rw [List.mem_singleton.mp hx]
    exact .ground ⟨_, List.mem_singleton_self _, hp⟩
  | slice hp hr =>
    rw [hr.kind_eq]
    intro x hx
    rw [List.mem_singleton.mp hx]
    exact .ground ⟨_, List.mem_singleton_self _, hp⟩
  | func hf hr =>
    rw [hr.kind_eq]
    exact hfunc hf (List.Subset.refl _)
  | struct hfields hr =>
    rw [hr.kind_eq]
    intro x hx
    obtain ⟨rf, hrf, rfl⟩ := List.mem_map.mp hx
    obtain ⟨f, hf, hshape⟩ := exists_of_mem_forall₂ hfields hrf
    exact .ground ⟨f.ty, List.mem_map_of_mem hf, hshape.repr⟩
  | interface hheader hmarkers hmarker hembeddeds hmethods hbody hr =>
    rw [hr.kind_eq]
    intro x hx
    rw [List.mem_singleton.mp hx]
    refine hbody.grounded rfl fun y hy => ?_
    obtain ⟨rf, hrf, rfl⟩ := List.mem_map.mp hy
    rcases List.mem_cons.mp hrf with rfl | hrf
    · exact hheader.grounded rfl fun z hz => by cases hz
    rcases List.mem_cons.mp hrf with rfl | hrf
    · refine hembeddeds.grounded rfl fun z hz => ?_
      rw [List.mem_singleton.mp hz]
      refine hmarker.grounded rfl fun w hw => ?_
      obtain ⟨mf, hmf, rfl⟩ := List.mem_map.mp hw
      obtain ⟨e, he, hshape⟩ := exists_of_mem_forall₂ hmarkers hmf
      exact .ground ⟨e, List.mem_append_left _ he, hshape.repr⟩
    · obtain ⟨m, hm, hshape⟩ := exists_of_mem_forall₂ hmethods hrf
      obtain ⟨f, hf, hrepr⟩ := hshape.repr
      refine hrepr.grounded rfl (hfunc hf fun p hp => ?_)
      exact List.mem_append_right _ (List.mem_flatMap.mpr ⟨m, hm, hp⟩)

end Facts

end ScriptEngine
