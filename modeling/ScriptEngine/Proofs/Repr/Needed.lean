import ScriptEngine.Proofs.Repr.Faithful

/-!
Which types building records.

Building the representation of a type that is not recorded asks for the types that it is made of:
the parts of an unnamed type, and what a name stands for. `Needs` follows these requests through the
declarations, up to what is recorded already. Building records nothing else, and it succeeds if
every name on the way stands for a type (`bounds_build_recording`); and where it succeeded,
everything that was needed is recorded (`Builds.recorded_of_needs`).
-/

namespace ScriptEngine

/-! ### Bounds on assembling -/

namespace Effect

theorem bounds_mapM {ε σ α β : Type} {F : Effect ε σ} {f : α → ExceptT ε (StateM σ) β} {l : List α}
    (hf : ∀ a ∈ l, F.Bounds (f a)) : F.Bounds (l.mapM f) :=
  fun _ h => (gives_mapM (R := fun _ _ _ => True) h hf fun _ _ _ _ _ _ _ => trivial).mono
    fun _ _ _ _ => trivial

section Assemble

variable {F : Effect TypeError ReprTable} {part : TypeId → ReprM ReprId}

theorem bounds_funcReprWith {sig : Signature}
    (hpart : ∀ p ∈ sig.params ++ sig.results, F.Bounds (part p)) :
    F.Bounds (ReprM.funcReprWith part sig) := by
  refine (bounds_mapM fun p hp => hpart p (List.mem_append_left _ hp)).bind fun params => ?_
  refine (bounds_mapM fun p hp => hpart p (List.mem_append_right _ hp)).bind fun results => ?_
  exact bounds_pure _

variable (hintern : ∀ kind, F.Bounds (ReprM.intern kind))
include hintern

theorem bounds_emulateWith {c : Catalog} {d : InterfaceDecl}
    (hpart : ∀ p ∈ Catalog.parts (.interface d), F.Bounds (part p)) :
    F.Bounds (ReprM.emulateWith c part d) := by
  refine (hintern _).bind fun header => ?_
  have hmarkers : F.Bounds (ReprM.markersWith c part d.embedded) :=
    bounds_mapM fun e he => (hpart e (List.mem_append_left _ he)).bind fun _ => bounds_pure _
  refine hmarkers.bind fun markers => (hintern _).bind fun marker => (hintern _).bind fun _ => ?_
  have hmethods : F.Bounds (ReprM.methodFieldsWith part d.complete) := by
    refine bounds_mapM fun m hm => (bounds_funcReprWith fun p hp => ?_).bind fun f =>
      (hintern _).bind fun _ => bounds_pure _
    exact hpart p (List.mem_append_right _ (List.mem_flatMap.mpr ⟨m, hm, hp⟩))
  exact hmethods.bind fun methods => (hintern _).bind fun body => hintern _

/-- Assembling a declaration stays within the bounds of interning and of its parts. -/
theorem bounds_assemble {c : Catalog} {d : TypeDecl} (hd : ∀ n, d ≠ .named n)
    (hpart : ∀ p ∈ Catalog.parts d, F.Bounds (part p)) : F.Bounds (ReprM.assemble c part d) := by
  cases d with
  | basic kind => exact hintern _
  | pointer elem | slice elem =>
    exact (hpart elem (List.mem_singleton_self _)).bind fun _ => hintern _
  | func sig => exact (bounds_funcReprWith hpart).bind fun _ => hintern _
  | struct fields =>
    have hfields : F.Bounds (ReprM.structFieldsWith part fields) := bounds_mapM fun f hf =>
      (hpart f.ty (List.mem_map_of_mem hf)).bind fun _ => bounds_pure _
    exact hfields.bind fun _ => hintern _
  | interface d => exact bounds_emulateWith hintern hpart
  | named d => exact absurd rfl (hd d)

end Assemble

end Effect

/-! ### What is needed -/

/-- Representing the types of `start` asks for the type, as far as `t` has not recorded it or what
leads there. -/
inductive Needs (c : Catalog) (t : ReprTable) (start : List TypeId) : TypeId → Prop where
  | start {ty : TypeId} : ty ∈ start → Needs c t start ty
  | part {ty p : TypeId} {d : TypeDecl} : Needs c t start ty → t.built.find? ty = none →
      c.decl? ty = some d → p ∈ Catalog.parts d → Needs c t start p
  | underlying {ty v : TypeId} {d : NamedDecl} : Needs c t start ty → t.built.find? ty = none →
      c.decl? ty = some (.named d) → d.underlying = some v → Needs c t start v

/-- The declaration is not that of a name that stands for nothing yet. -/
def TypeDecl.isFinished : TypeDecl → Bool
  | .named d => d.underlying.isSome
  | _ => true

/-- All names that are needed stand for types. -/
def Ready (c : Catalog) (t : ReprTable) (start : List TypeId) : Prop :=
  ∀ ty d, Needs c t start ty → c.decl? ty = some (.named d) → d.underlying ≠ none

section Needs

variable {c : Catalog} {t t' : ReprTable} {start : List TypeId} {ty : TypeId}

/-- Where all names stand for types, those that are needed do. -/
theorem ready_of_finished (h : c.decls.all TypeDecl.isFinished = true) (start : List TypeId) :
    Ready c t start := by
  intro ty d _ hd
  obtain ⟨hlt, heq⟩ := Array.getElem?_eq_some_iff.mp hd
  have hfinished := Array.all_eq_true.mp h ty.index hlt
  rw [heq] at hfinished
  exact Option.isSome_iff_ne_none.mp hfinished

/-- What declared types need is declared. -/
theorem Needs.lt_size (wf : c.WellFormed) (hstart : ∀ p ∈ start, p.index < c.size)
    (h : Needs c t start ty) : ty.index < c.size := by
  cases h with
  | start hmem => exact hstart ty hmem
  | part _ _ hd hp => exact Nat.lt_trans (wf.parts_lt _ _ hd ty hp) (Catalog.lt_size_of_decl? hd)
  | underlying _ _ hd hv => exact (wf.underlying_unnamed _ _ hd ty hv).1

/-- What building a type of `S` that is not recorded asks for is there, and in `S` again. -/
def Closed (c : Catalog) (S : TypeId → Prop) (t : ReprTable) : Prop :=
  ∀ ty, S ty → t.built.find? ty = none → ∃ d, c.decl? ty = some d ∧
    (∀ p ∈ Catalog.parts d, S p) ∧ ∀ n, d = .named n → ∃ v, n.underlying = some v ∧ S v

theorem closed_needs (wf : c.WellFormed) (hstart : ∀ p ∈ start, p.index < c.size)
    (hready : Ready c t start) : Closed c (Needs c t start) t := by
  intro ty hneeds hnone
  obtain ⟨d, hd⟩ := Catalog.exists_decl? (hneeds.lt_size wf hstart)
  refine ⟨d, hd, fun p hp => hneeds.part hnone hd hp, ?_⟩
  rintro n rfl
  obtain ⟨v, hv⟩ := Option.ne_none_iff_exists'.mp (hready ty n hneeds hd)
  exact ⟨v, hv, hneeds.underlying hnone hd hv⟩

/-- Nothing but types of `S` is recorded, and nothing fails. -/
def recording (c : Catalog) (S : TypeId → Prop) : Effect TypeError ReprTable where
  inv := Closed c S
  ok t t' := (∀ ty, t'.built.find? ty = none → t.built.find? ty = none) ∧
    ∀ ty, ¬ S ty → t'.built.find? ty = t.built.find? ty
  fail _ _ _ := False
  refl _ := ⟨fun _ h => h, fun _ _ => rfl⟩
  keep h hinv ty hty hnone := hinv ty hty (h.1 ty hnone)
  trans h h' := ⟨fun ty hnone => h.1 ty (h'.1 ty hnone), fun ty hty =>
    (h'.2 ty hty).trans (h.2 ty hty)⟩
  trans_fail _ h := h

variable {S : TypeId → Prop}

theorem bounds_of_built_eq {f : ReprTable → ReprId × ReprTable}
    (hbuilt : ∀ t, (f t).2.built = t.built) :
    (recording c S).Bounds (modifyGet f : ReprM ReprId) := by
  refine fun t _ => (ends_modifyGet f).mpr ⟨⟨fun ty hnone => ?_, fun ty _ => ?_⟩, trivial⟩
  · rwa [hbuilt] at hnone
  · rw [hbuilt]

theorem bounds_intern_recording (kind : ReprKind) :
    (recording c S).Bounds (ReprM.intern kind) := by
  refine bounds_of_built_eq fun t => ?_
  rcases t.intern_cases kind with heq | heq <;> rw [heq]
  rfl

/-- Recording a type of `S`, whatever else is done to the representations. -/
theorem ok_record {r : ReprId} (hty : S ty) (hbuilt : t'.built = t.built) :
    (recording c S).ok t (t'.record ty r) := by
  refine ⟨fun n hnone => ?_, fun n hn => ?_⟩
  · by_cases heq : n = ty
    · subst heq
      rw [ReprTable.record, Assoc.find?_set_self] at hnone
      cases hnone
    · rwa [ReprTable.record, Assoc.find?_set_of_ne _ heq, hbuilt] at hnone
  · have hne : n ≠ ty := by
      rintro rfl
      exact hn hty
    rw [ReprTable.record, Assoc.find?_set_of_ne _ hne, hbuilt]

/-- **Building a type of a closed set succeeds and records types of the set only**, whatever names
are being built. -/
theorem bounds_build_recording (wf : c.WellFormed) (building : Building) (ty : TypeId)
    (hty : S ty) : (recording c S).Bounds (ReprM.build c building ty) := by
  induction building, ty using ReprM.build.induct c with
  | case1 building ty placeholder hopen =>
    rw [ReprM.build]
    split
    · exact Effect.bounds_pure _
    · next hnone => cases hopen.symm.trans hnone
  | case2 building ty hopen ihNamed ihPart =>
    intro t h
    rw [ReprM.build]
    split
    · exact Effect.bounds_pure _ t h
    refine Effect.gives_get_bind ?_
    split
    · exact Effect.bounds_pure _ t h
    next hnone =>
    obtain ⟨d, hd, hparts, hunder⟩ := h ty hty hnone
    split
    · next hmissing => cases hd.symm.trans hmissing
    · next n hn =>
      obtain ⟨v, hv, hSv⟩ := hunder n (Option.some.inj (hd.symm.trans hn))
      split
      · next hmissing => cases hv.symm.trans hmissing
      next v' hv' =>
      obtain rfl := Option.some.inj (hv.symm.trans hv')
      refine ((bounds_of_built_eq (S := S) fun t => rfl) t h).bind fun placeholder t₁ s₁ _ => ?_
      have h₁ := (recording c S).keep s₁ h
      refine (ihNamed n hn v placeholder hSv t₁ h₁).bind fun source t₂ s₂ _ => ?_
      exact ⟨ok_record hty rfl, trivial⟩
    · next d' hunnamed hd' =>
      obtain rfl := Option.some.inj (hd.symm.trans hd')
      have hbounds : (recording c S).Bounds (ReprM.assemble c (fun p =>
          if _older : p.index < ty.index then ReprM.build c building p
          else throw (.incompleteType (c.typeName p))) d) := by
        refine Effect.bounds_assemble bounds_intern_recording hunnamed fun p hp => ?_
        have holder := wf.parts_lt ty d hd p hp
        rw [dif_pos holder]
        exact ihPart p holder (hparts p hp)
      refine (hbounds t h).bind fun r t₁ s₁ _ => ?_
      exact ⟨ok_record hty rfl, trivial⟩

/-! ### What was needed is recorded -/

theorem FuncShape.exists_part {cur : TypeId → ReprId → Prop} {sig : Signature} {f : FuncRepr}
    (h : FuncShape cur sig f) {p : TypeId} (hp : p ∈ sig.params ++ sig.results) :
    ∃ x, cur p x := by
  rcases List.mem_append.mp hp with hp | hp
  · obtain ⟨x, -, hx⟩ := exists_of_mem_forall₂ h.params.flip hp
    exact ⟨x, hx⟩
  · obtain ⟨x, -, hx⟩ := exists_of_mem_forall₂ h.results.flip hp
    exact ⟨x, hx⟩

/-- Where a declaration is represented, its parts are. -/
theorem Represents.exists_part {cur : TypeId → ReprId → Prop} {d : TypeDecl} {r : ReprId}
    (h : Represents cur c t d r) {p : TypeId} (hp : p ∈ Catalog.parts d) : ∃ x, cur p x := by
  cases h with
  | basic => cases hp
  | pointer helem | slice helem =>
    rw [List.mem_singleton.mp hp]
    exact ⟨_, helem⟩
  | func hf => exact hf.exists_part hp
  | struct hfields =>
    obtain ⟨f, hf, rfl⟩ := List.mem_map.mp hp
    obtain ⟨rf, -, hrf⟩ := exists_of_mem_forall₂ hfields.flip hf
    exact ⟨_, hrf.repr⟩
  | interface _ hmarkers _ _ hmethods =>
    rcases List.mem_append.mp hp with hp | hp
    · obtain ⟨rf, -, hrf⟩ := exists_of_mem_forall₂ hmarkers.flip hp
      exact ⟨_, hrf.repr⟩
    · obtain ⟨m, hm, hp⟩ := List.mem_flatMap.mp hp
      obtain ⟨rf, -, hrf⟩ := exists_of_mem_forall₂ hmethods.flip hm
      obtain ⟨f, hf, -⟩ := hrf.repr
      exact hf.exists_part hp

/-- **Where the types of `start` are recorded, everything that they needed is**: what is recorded
anew was made from what is recorded. -/
theorem Builds.recorded_of_needs (hb : Builds True c [] t t')
    (hstart : ∀ p ∈ start, ∃ r, t'.built.find? p = some r) (h : Needs c t start ty) :
    ∃ r, t'.built.find? ty = some r := by
  -- A type on the way was not recorded before, so it was made.
  have hmade : ∀ {n r}, t.built.find? n = none → t'.built.find? n = some r →
      Made c t' (StandsFor True [] t') n r := fun hnone hr =>
    (hb.made _ _ hr).resolve_left fun hold => by cases hnone.symm.trans hold
  induction h with
  | start hmem => exact hstart _ hmem
  | @part n p d _ hnone hd hp ih =>
    obtain ⟨r, hr⟩ := ih
    cases hmade hnone hr with
    | unnamed e he _ hrep =>
      obtain rfl := Option.some.inj (hd.symm.trans he)
      obtain ⟨x, hx⟩ := hrep.exists_part hp
      exact ⟨x, hx.current⟩
    | named e _ _ he =>
      obtain rfl := Option.some.inj (hd.symm.trans he)
      cases hp
  | @underlying n v d _ hnone hd hv ih =>
    obtain ⟨r, hr⟩ := ih
    cases hmade hnone hr with
    | unnamed e _ hn _ =>
      rw [Catalog.isNamed_iff.mpr ⟨d, hd⟩] at hn
      cases hn
    | named e w source he hw hsource =>
      cases hd.symm.trans he
      obtain rfl := Option.some.inj (hv.symm.trans hw)
      exact ⟨source, hsource⟩

end Needs

end ScriptEngine
