import Mathlib.Data.List.Forall2
import ScriptEngine.Proofs.Types.WellFormed

/-!
Identity of types, as declarations have it: a named type is identical to itself only, and unnamed
types are identical if the same constructor builds them from identical types. `Alike` compares two
declarations up to a relation of their parts, and `Identical` is the least relation that is closed
under it (`identical_iff`).
-/

namespace ScriptEngine

/-! ### Identical types -/

section Alike

variable (R : TypeId → TypeId → Prop)

/-- The same parameters, results and variadic flag; receivers are left out. -/
structure AlikeSignature (s s' : Signature) : Prop where
  params : List.Forall₂ R s.params s'.params
  results : List.Forall₂ R s.results s'.results
  variadic : s.variadic = s'.variadic

/-- The same name and embedded flag, and the same type. -/
structure AlikeField (f g : FieldDecl) : Prop where
  name : f.name = g.name
  embedded : f.embedded = g.embedded
  ty : R f.ty g.ty

/-- The same name and signature. -/
structure AlikeMethod (m n : MethodDecl) : Prop where
  name : m.name = n.name
  sig : AlikeSignature R m.sig n.sig

/-- Two declarations of unnamed types are built by the same constructor, and `R` relates their
parts. -/
inductive Alike : TypeDecl → TypeDecl → Prop where
  | basic (kind : BasicKind) : Alike (.basic kind) (.basic kind)
  | pointer {x y : TypeId} : R x y → Alike (.pointer x) (.pointer y)
  | slice {x y : TypeId} : R x y → Alike (.slice x) (.slice y)
  | func {s s' : Signature} : AlikeSignature R s s' → Alike (.func s) (.func s')
  | struct {fs gs : List FieldDecl} : List.Forall₂ (AlikeField R) fs gs →
      Alike (.struct fs) (.struct gs)
  | interface {d e : InterfaceDecl} : List.Forall₂ R d.embedded e.embedded →
      List.Forall₂ (AlikeMethod R) d.complete e.complete → Alike (.interface d) (.interface e)

end Alike

/-- Two types are identical. -/
inductive Identical (c : Catalog) : TypeId → TypeId → Prop where
  | named {a : TypeId} : c.isNamed a = true → Identical c a a
  /-- `R` holds of types that were found to be identical. -/
  | unnamed {a b : TypeId} {d e : TypeDecl} {R : TypeId → TypeId → Prop} :
      (∀ x y, R x y → Identical c x y) → c.decl? a = some d → c.decl? b = some e → Alike R d e →
      Identical c a b

section Lists

variable {α β γ δ : Type} {R : α → β → Prop} {P : α → γ → Prop} {Q : β → γ → Prop}
  {xs : List α} {ys : List β} {us : List γ}

/-- Lists that are related to one list are related to each other. -/
theorem forall₂_of_common (hx : List.Forall₂ P xs us) (hy : List.Forall₂ Q ys us)
    (h : ∀ x ∈ xs, ∀ y u, P x u → Q y u → R x y) : List.Forall₂ R xs ys := by
  induction hx generalizing ys with
  | nil =>
    cases hy
    exact .nil
  | cons hxu _ ih =>
    cases hy with
    | cons hyu hy =>
      refine .cons (h _ (List.mem_cons_self ..) _ _ hxu hyu) (ih hy fun x hx => ?_)
      exact h x (List.mem_cons_of_mem _ hx)

/-- Related lists are related to one list only. -/
theorem eq_of_forall₂ {vs : List γ} (hxy : List.Forall₂ R xs ys) (hx : List.Forall₂ P xs us)
    (hy : List.Forall₂ Q ys vs) (h : ∀ x y u v, R x y → P x u → Q y v → u = v) : us = vs := by
  induction hxy generalizing us vs with
  | nil =>
    cases hx
    cases hy
    rfl
  | cons hxy _ ih =>
    cases hx with
    | cons hxu hx =>
      cases hy with
      | cons hyv hy => rw [h _ _ _ _ hxy hxu hyv, ih hx hy]

end Lists

section Alike

variable {R R' : TypeId → TypeId → Prop} {d e : TypeDecl}

theorem AlikeSignature.mono {s s' : Signature} (h : AlikeSignature R s s')
    (hR : ∀ x y, R x y → R' x y) : AlikeSignature R' s s' :=
  ⟨h.params.imp hR, h.results.imp hR, h.variadic⟩

theorem Alike.mono (h : Alike R d e) (hR : ∀ x y, R x y → R' x y) : Alike R' d e := by
  cases h with
  | basic kind => exact .basic kind
  | pointer hx => exact .pointer (hR _ _ hx)
  | slice hx => exact .slice (hR _ _ hx)
  | func hs => exact .func (hs.mono hR)
  | struct hfields =>
    exact .struct (hfields.imp fun _ _ hf => ⟨hf.name, hf.embedded, hR _ _ hf.ty⟩)
  | interface hembedded hmethods =>
    exact .interface (hembedded.imp hR) (hmethods.imp fun _ _ hm => ⟨hm.name, hm.sig.mono hR⟩)

theorem AlikeSignature.refl (hR : ∀ x, R x x) (s : Signature) : AlikeSignature R s s :=
  ⟨List.forall₂_same.mpr fun x _ => hR x, List.forall₂_same.mpr fun x _ => hR x, rfl⟩

/-- What is unnamed is built like itself. -/
theorem Alike.refl (hR : ∀ x, R x x) (hd : ∀ n, d ≠ .named n) : Alike R d d := by
  cases d with
  | basic kind => exact .basic kind
  | pointer elem => exact .pointer (hR elem)
  | slice elem => exact .slice (hR elem)
  | func sig => exact .func (.refl hR sig)
  | struct fields => exact .struct (List.forall₂_same.mpr fun f _ => ⟨rfl, rfl, hR f.ty⟩)
  | interface d =>
    exact .interface (List.forall₂_same.mpr fun x _ => hR x)
      (List.forall₂_same.mpr fun m _ => ⟨rfl, .refl hR m.sig⟩)
  | named n => exact absurd rfl (hd n)

theorem Alike.not_named (h : Alike R d e) (n : NamedDecl) : d ≠ .named n ∧ e ≠ .named n := by
  cases h <;> exact ⟨nofun, nofun⟩

/-- **What identity of types means.** A type is identical to itself if it is named, and to the types
that are built like it from identical types if it is not. -/
theorem identical_iff {c : Catalog} {a b : TypeId} : Identical c a b ↔
    c.isNamed a = true ∧ a = b ∨
      ∃ d e, c.decl? a = some d ∧ c.decl? b = some e ∧ Alike (Identical c) d e := by
  constructor
  · rintro (hn | ⟨hR, hd, he, halike⟩)
    · exact .inl ⟨hn, rfl⟩
    · exact .inr ⟨_, _, hd, he, halike.mono hR⟩
  · rintro (⟨hn, rfl⟩ | ⟨d, e, hd, he, halike⟩)
    · exact .named hn
    · exact .unnamed (fun _ _ h => h) hd he halike

/-- Identical types have one name, if they have a name. -/
theorem Identical.named?_eq {c : Catalog} {a b : TypeId} (h : Identical c a b) :
    c.named? a = c.named? b := by
  rcases identical_iff.mp h with ⟨-, rfl⟩ | ⟨d, e, hd, he, halike⟩
  · rfl
  · have hnone : ∀ {ty d}, c.decl? ty = some d → (∀ n, d ≠ .named n) → c.named? ty = none := by
      intro ty d hd hn
      cases hname : c.named? ty with
      | none => rfl
      | some n =>
        exact absurd (Option.some.inj (hd.symm.trans (Catalog.named?_eq_some.mp hname))) (hn n)
    rw [hnone hd fun n => (halike.not_named n).1, hnone he fun n => (halike.not_named n).2]

end Alike

end ScriptEngine
