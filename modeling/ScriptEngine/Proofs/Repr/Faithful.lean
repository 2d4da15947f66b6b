import ScriptEngine.Proofs.Fallible
import ScriptEngine.Proofs.Repr.Represents

/-!
What building a representation leaves in the table.

While names are being built, `Intact` holds of the table: their placeholders are open, and what is
recorded is finished. `Builds` relates the tables before and after building: nothing that was there
changes, what is newly recorded represents its type (`Made`), and if nothing broke off, no new
placeholder is left open. Main statement: building relates its tables so, whether it answers or
breaks off, and its answer is what stands for the type from then on (`gives_build`).
-/

namespace ScriptEngine

/-- What stands for a type while the names of `building` are being built: the placeholder of such a
name, and what is recorded for any other type. -/
def ReprTable.current? (t : ReprTable) (building : Building) (ty : TypeId) : Option ReprId :=
  (building.lookup ty).or (t.built.find? ty)

/-- A placeholder, open or left behind. -/
def ReprTable.Unfinished (t : ReprTable) (r : ReprId) : Prop :=
  ∃ d, t.get? r = some d ∧ d.kind = .invalid

/-- `r` stands for a type now or, unless the table is `whole`, is a placeholder that was left
behind. -/
def StandsFor (whole : Prop) (building : Building) (t : ReprTable) (ty : TypeId) (r : ReprId) :
    Prop :=
  t.current? building ty = some r ∨ ¬ whole ∧ t.Unfinished r

/-- The recorded representation `r` of a type was built. -/
inductive Made (c : Catalog) (t : ReprTable) (cur : TypeId → ReprId → Prop) (ty : TypeId)
    (r : ReprId) : Prop where
  | unnamed (d : TypeDecl) : c.decl? ty = some d → c.isNamed ty = false → Represents cur c t d r →
      Made c t cur ty r
  | named (d : NamedDecl) (u : TypeId) (source : ReprId) : c.decl? ty = some (.named d) →
      d.underlying = some u → t.built.find? u = some source → t.kind r = t.kind source →
      (∃ e, t.get? r = some e ∧ e.name.isSome) → Made c t cur ty r

/-- The table while the names of `building` are being built. -/
structure Intact (c : Catalog) (building : Building) (t : ReprTable) : Prop where
  /-- The parts of what exists exist. -/
  bounds : ∀ r, ∀ p ∈ (t.kind r).parts, p.index < t.size
  /-- What is recorded is finished. -/
  finished : ∀ ty r, t.built.find? ty = some r → t.kind r ≠ .invalid
  /-- A name that is being built has an open placeholder and is not recorded. -/
  placeholder : ∀ n p, building.lookup n = some p → c.isNamed n = true ∧
    t.built.find? n = none ∧ ∃ d, t.get? p = some d ∧ d.name.isSome ∧ d.kind = .invalid
  /-- A named representation stands for one type only. -/
  owner : ∀ n n' r d, t.current? building n = some r → t.current? building n' = some r →
    t.get? r = some d → d.name.isSome → n = n'

/-- The tables before and after building while the names of `building` are being built. Unless
`whole`, building broke off. -/
structure Builds (whole : Prop) (c : Catalog) (building : Building) (t t' : ReprTable) : Prop where
  extended : ReprTable.Extends t t'
  intact : Intact c building t'
  made : ∀ ty r, t'.built.find? ty = some r → t.built.find? ty = some r ∨
    Made c t' (StandsFor whole building t') ty r
  fresh : whole → ∀ r, t.size ≤ r.index → r.index < t'.size → t'.kind r ≠ .invalid
  /-- What is new has no callables. -/
  callables : ∀ r name, t'.callable? r name = t.callable? r name

/-- The runtime view of a signature, in any effect that represents its types. -/
theorem Effect.gives_funcReprWith {F : Effect TypeError ReprTable}
    {part : TypeId → ReprM ReprId} {R : TypeId → ReprId → ReprTable → Prop} {t : ReprTable}
    (h : F.inv t) {sig : Signature}
    (hpart : ∀ p ∈ sig.params ++ sig.results, ∀ t, F.inv t → F.Gives t (part p) (R p))
    (hR : ∀ p r t₁ t₂, R p r t₁ → F.inv t₁ → F.ok t₁ t₂ → R p r t₂) :
    F.Gives t (ReprM.funcReprWith part sig) fun f t' => FuncShape (fun p r => R p r t') sig f := by
  have hparams := gives_mapM h (fun p hp => hpart p (List.mem_append_left _ hp)) hR
  refine hparams.bind fun ps t₁ h₁ hps => ?_
  have hresults := gives_mapM (F.keep h₁ h) (fun p hp => hpart p (List.mem_append_right _ hp)) hR
  refine hresults.bind fun rs t₂ h₂ hrs => ?_
  refine gives_pure (F.keep h₂ (F.keep h₁ h)) ⟨hps.imp fun p r hr => ?_, hrs, rfl⟩
  exact hR p r t₁ t₂ hr (F.keep h₁ h) h₂

section Builds

variable {whole : Prop} {c : Catalog} {building : Building} {t t' t'' : ReprTable} {ty : TypeId}
  {r : ReprId}

theorem current?_eq_some_iff : t.current? building ty = some r ↔
    building.lookup ty = some r ∨ building.lookup ty = none ∧ t.built.find? ty = some r := by
  unfold ReprTable.current?
  cases building.lookup ty <;> simp

theorem current?_mono (h : ReprTable.Extends t t') (hr : t.current? building ty = some r) :
    t'.current? building ty = some r := by
  rw [current?_eq_some_iff] at hr ⊢
  exact hr.imp_right fun ⟨hnone, hr⟩ => ⟨hnone, h.built ty r hr⟩

theorem Intact.lt_size (h : Intact c building t) (hr : t.current? building ty = some r) :
    r.index < t.size := by
  rcases current?_eq_some_iff.mp hr with hr | ⟨-, hr⟩
  · obtain ⟨-, -, d, hd, -⟩ := h.placeholder ty r hr
    exact ReprTable.lt_size_of_get? hd
  · exact ReprTable.lt_size_of_kind (h.finished ty r hr)

theorem StandsFor.mono {whole' : Prop} (hwhole : whole' → whole) (h : ReprTable.Extends t t')
    (hr : StandsFor whole building t ty r) : StandsFor whole' building t' ty r := by
  rcases hr with hr | ⟨hbroken, d, hd, hkind⟩
  · exact .inl (current?_mono h hr)
  · obtain ⟨d', hd', -, hkind'⟩ := h.kept r d hd
    exact .inr ⟨fun w => hbroken (hwhole w), d', hd', hkind'.trans hkind⟩

/-- What was made stays made in a table that carries it. -/
theorem Made.mono {cur cur' : TypeId → ReprId → Prop} {c' : Catalog} (h : Made c t cur ty r)
    (hr : t'.kind r = t.kind r) (wf : c.WellFormed) (hc : Catalog.Grows c c')
    (ht : ReprTable.Carries t t') (hcur : ∀ p x, cur p x → cur' p x) : Made c' t' cur' ty r := by
  cases h with
  | unnamed d hd hunnamed hrep =>
    refine .unnamed d (hc.unnamed ty d hd hunnamed) ?_ (hrep.mono ht (fun p _ => hcur p) ?_)
    · rw [hc.isNamed (Catalog.lt_size_of_decl? hd), hunnamed]
    · intro p hp
      have hlt := Nat.lt_trans (wf.parts_lt ty d hd p hp) (Catalog.lt_size_of_decl? hd)
      cases hn : c.named? p with
      | some n =>
        obtain ⟨n', hn', hname, -⟩ := hc.named p n (Catalog.named?_eq_some.mp hn)
        rw [Catalog.named?_eq_some.mpr hn']
        exact congrArg some hname
      | none =>
        have hp' : c'.isNamed p = false := by rw [hc.isNamed hlt, Catalog.isNamed, hn]; rfl
        rw [Catalog.isNamed, Option.isSome_eq_false_iff, Option.isNone_iff_eq_none] at hp'
        rw [hp']
  | named d u source hd hu hsource hkind hname =>
    obtain ⟨d', hd', -, -, hunder, -⟩ := hc.named ty d hd
    obtain ⟨hsource', hkeep⟩ := ht.built u source hsource
    obtain ⟨e, he, hename⟩ := hname
    obtain ⟨e', he', hename', -⟩ := ht.names r e he
    refine .named d' u source hd' (hunder u hu) hsource' ?_ ⟨e', he', by rw [hename']; exact hename⟩
    rw [hr, hkind, hkeep]

theorem Intact.carries (h : Intact c building t) (ht : ReprTable.Extends t t') :
    ReprTable.Carries t t' :=
  ht.carries h.finished

theorem Builds.refl (h : Intact c building t) : Builds whole c building t t :=
  ⟨.refl t, h, fun _ _ hr => .inl hr, fun _ _ hle hlt => absurd hlt (Nat.not_lt_of_le hle),
    fun _ _ => rfl⟩

theorem Builds.prolongs (h : Builds whole c building t t') : ReprTable.Prolongs t t' :=
  ⟨h.extended, h.callables⟩

theorem Builds.trans (wf : c.WellFormed) (h : Builds True c building t t')
    (h' : Builds whole c building t' t'') : Builds whole c building t t'' where
  extended := h.extended.trans h'.extended
  intact := h'.intact
  made ty r hr := by
    rcases h'.made ty r hr with hr | hmade
    · refine (h.made ty r hr).imp_right fun hmade => ?_
      have hcarries := h.intact.carries h'.extended
      exact hmade.mono (hcarries.built ty r hr).2 wf (.refl c) hcarries fun p x =>
        StandsFor.mono (fun _ => trivial) h'.extended
    · exact .inr hmade
  fresh hwhole r hle hlt := by
    by_cases hmid : r.index < t'.size
    · rw [h'.extended.kind_eq hmid]
      exact h.fresh trivial r hle hmid
    · exact h'.fresh hwhole r (Nat.le_of_not_lt hmid) hlt
  callables r name := (h'.callables r name).trans (h.callables r name)

theorem StandsFor.current (h : StandsFor True building t ty r) :
    t.current? building ty = some r :=
  h.resolve_right fun ⟨broken, _⟩ => broken trivial

theorem rightUnique_standsFor : Relator.RightUnique (StandsFor True building t) :=
  fun _ _ _ hx hy => Option.some.inj (hx.current.symm.trans hy.current)

/-! ### Making a representation -/

theorem Intact.push (h : Intact c building t) {d : ReprData}
    (hparts : ∀ p ∈ d.kind.parts, p.index < t.size) : Intact c building (t.push d).2 where
  bounds r p hp := by
    rw [ReprTable.size_push]
    refine Nat.lt_succ_of_lt ?_
    cases hr : (t.push d).2.get? r with
    | none =>
      rw [ReprTable.kind, hr] at hp
      cases hp
    | some e =>
      rw [ReprTable.kind_of_get? hr] at hp
      rcases ReprTable.get?_push hr with ⟨-, rfl⟩ | hr
      · exact hparts p hp
      · exact h.bounds r p (by rwa [ReprTable.kind_of_get? hr])
  finished ty r hr := by
    have hkind := h.finished ty r hr
    rwa [(t.extends_push d).kind_eq (ReprTable.lt_size_of_kind hkind)]
  placeholder n p hp := by
    obtain ⟨hnamed, hnone, e, he, hname, hkind⟩ := h.placeholder n p hp
    refine ⟨hnamed, hnone, e, ?_, hname, hkind⟩
    rwa [ReprTable.get?_push_of_lt d (ReprTable.lt_size_of_get? he)]
  owner n n' r e hr hr' he hname := by
    rw [ReprTable.get?_push_of_lt d (h.lt_size hr)] at he
    exact h.owner n n' r e hr hr' he hname

theorem builds_push (h : Intact c building t) {d : ReprData}
    (hparts : ∀ p ∈ d.kind.parts, p.index < t.size) (hkind : d.kind ≠ .invalid)
    (hmethods : d.methods = .empty) :
    Builds whole c building t (t.push d).2 where
  extended := t.extends_push d
  intact := h.push hparts
  made _ _ hr := .inl hr
  fresh _ r hle hlt := by
    obtain ⟨e, he⟩ := ReprTable.exists_get? hlt
    rw [ReprTable.kind_of_get? he]
    rcases ReprTable.get?_push he with ⟨-, rfl⟩ | he
    · exact hkind
    · exact absurd (ReprTable.lt_size_of_get? he) (Nat.not_lt_of_le hle)
  callables := ReprTable.callable?_push hmethods

theorem builds_intern (h : Intact c building t) {kind : ReprKind}
    (hparts : ∀ p ∈ kind.parts, p.index < t.size) (hkind : kind ≠ .invalid) :
    Builds whole c building t (t.intern kind).2 := by
  rcases t.intern_cases kind with heq | heq
  · rw [heq]
    exact .refl h
  · rw [heq]
    exact builds_push h hparts hkind rfl

theorem Intact.record (h : Intact c building t) (hopen : building.lookup ty = none)
    (hkind : t.kind r ≠ .invalid)
    (howner : ∀ n d, t.current? building n = some r → t.get? r = some d → d.name.isSome → n = ty) :
    Intact c building (t.record ty r) where
  bounds := h.bounds
  finished n x hx := by
    rcases ReprTable.find?_record hx with ⟨-, rfl⟩ | hx
    · exact hkind
    · exact h.finished n x hx
  placeholder n p hp := by
    have hne : n ≠ ty := by
      rintro rfl
      rw [hopen] at hp
      cases hp
    rw [ReprTable.record, Assoc.find?_set_of_ne _ hne]
    exact h.placeholder n p hp
  owner n n' x d hx hx' hd hname := by
    have hold : ∀ {n : TypeId}, (t.record ty r).current? building n = some x →
        n = ty ∧ x = r ∨ t.current? building n = some x := by
      intro n hx
      rcases current?_eq_some_iff.mp hx with hx | ⟨hnone, hx⟩
      · exact .inr (current?_eq_some_iff.mpr (.inl hx))
      · exact (ReprTable.find?_record hx).imp_right fun hx =>
          current?_eq_some_iff.mpr (.inr ⟨hnone, hx⟩)
    rcases hold hx with ⟨hn, hr⟩ | hx
    · rcases hold hx' with ⟨hn', -⟩ | hx'
      · exact hn.trans hn'.symm
      · exact hn.trans (howner n' d (hr ▸ hx') (hr ▸ hd) hname).symm
    · rcases hold hx' with ⟨hn', hr⟩ | hx'
      · exact (howner n d (hr ▸ hx) (hr ▸ hd) hname).trans hn'.symm
      · exact h.owner n n' x d hx hx' hd hname

/-- Recording what a type stands for already, or a new finished representation of a type that is not
being built. -/
theorem builds_record (wf : c.WellFormed) (h : Intact c building t)
    (hopen : building.lookup ty = none) (hbuilt : ∀ r', t.built.find? ty = some r' → r' = r)
    (hkind : t.kind r ≠ .invalid)
    (howner : ∀ n d, t.current? building n = some r → t.get? r = some d → d.name.isSome → n = ty)
    (hmade : Made c t (StandsFor whole building t) ty r) :
    Builds whole c building t (t.record ty r) := by
  have hext := ReprTable.extends_record hbuilt
  refine ⟨hext, h.record hopen hkind howner, fun n x hx => ?_, fun _ r hle hlt => ?_,
    fun _ _ => rfl⟩
  · rcases ReprTable.find?_record hx with ⟨rfl, rfl⟩ | hx
    · exact .inr (hmade.mono rfl wf (.refl c) (h.carries hext) fun p x => StandsFor.mono id hext)
    · exact .inl hx
  · exact absurd hlt (Nat.not_lt_of_le hle)

/-! ### The effect of building -/

/-- Building relates its tables by `Builds`, and fails for want of an underlying type only. -/
def buildEffect (wf : c.WellFormed) (building : Building) : Effect TypeError ReprTable where
  inv := Intact c building
  ok := Builds True c building
  fail e t t' := (∃ name, e = .incompleteType name) ∧ Builds False c building t t'
  refl h := .refl h
  keep h _ := h.intact
  trans h h' := h.trans wf h'
  trans_fail h h' := ⟨h'.1, h.trans wf h'.2⟩

variable (wf : c.WellFormed)

theorem gives_incomplete {α : Type} {Q : α → ReprTable → Prop} (h : Intact c building t)
    (name : String) :
    (buildEffect wf building).Gives t (throw (.incompleteType name) : ReprM α) Q :=
  Effect.gives_throw ⟨⟨name, rfl⟩, .refl h⟩

theorem gives_intern (h : Intact c building t) (kind : ReprKind)
    (hparts : ∀ p ∈ kind.parts, p.index < t.size) (hkind : kind.isStructural = true) :
    (buildEffect wf building).Gives t (ReprM.intern kind) fun r t' => t'.Interned kind r := by
  refine ⟨builds_intern h hparts ?_, t.interned_intern kind⟩
  rintro rfl
  cases hkind

/-! ### Assembling -/

section Assemble

variable {part : TypeId → ReprM ReprId}

/-- In intact tables, `part` makes what stands for each of `types`. -/
def Parts (wf : c.WellFormed) (building : Building) (part : TypeId → ReprM ReprId)
    (types : List TypeId) : Prop :=
  ∀ p ∈ types, ∀ t, Intact c building t →
    (buildEffect wf building).Gives t (part p) fun r t' => StandsFor True building t' p r

theorem Parts.subset {types types' : List TypeId} (h : Parts wf building part types)
    (hsub : types' ⊆ types) : Parts wf building part types' :=
  fun p hp => h p (hsub hp)

theorem Intact.lt_size_of_forall₂ (h : Intact c building t) {types : List TypeId}
    {rs : List ReprId} (hrs : List.Forall₂ (StandsFor True building t) types rs) :
    ∀ r ∈ rs, r.index < t.size := by
  intro r hr
  obtain ⟨p, -, hp⟩ := exists_of_mem_forall₂ hrs hr
  exact h.lt_size hp.current

theorem gives_funcReprWith (h : Intact c building t) {sig : Signature}
    (hpart : Parts wf building part (sig.params ++ sig.results)) :
    (buildEffect wf building).Gives t (ReprM.funcReprWith part sig) fun f t' =>
      FuncShape (StandsFor True building t') sig f ∧ ∀ p ∈ f.parts, p.index < t'.size := by
  have hfunc := Effect.gives_funcReprWith (F := buildEffect wf building)
    (R := fun p r t => StandsFor True building t p r) h hpart
    fun _ _ _ _ hr _ hb => hr.mono id hb.extended
  refine hfunc.mono fun f t' hb hf => ⟨hf, fun p hp => ?_⟩
  rcases List.mem_append.mp hp with hp | hp
  · exact hb.intact.lt_size_of_forall₂ hf.params p hp
  · exact hb.intact.lt_size_of_forall₂ hf.results p hp

theorem gives_structFieldsWith (h : Intact c building t) {fields : List FieldDecl}
    (hpart : Parts wf building part (fields.map (·.ty))) :
    (buildEffect wf building).Gives t (ReprM.structFieldsWith part fields) fun fs t' =>
      List.Forall₂ (FieldShape (StandsFor True building t')) fields fs := by
  refine Effect.gives_mapM h (fun f hf t₁ h₁ => ?_) fun f rf t₁ t₂ hrf _ hb =>
    ⟨hrf.name, hrf.repr.mono id hb.extended, hrf.embedded⟩
  refine (hpart f.ty (List.mem_map_of_mem hf) t₁ h₁).bind fun x t₂ hb hx => ?_
  exact Effect.gives_pure hb.intact ⟨rfl, hx, rfl⟩

theorem gives_markersWith (h : Intact c building t) {embedded : List TypeId}
    (hpart : Parts wf building part embedded) :
    (buildEffect wf building).Gives t (ReprM.markersWith c part embedded) fun fs t' =>
      List.Forall₂ (MarkerShape (StandsFor True building t') c) embedded fs := by
  refine Effect.gives_mapM h (fun e he t₁ h₁ => ?_) fun e rf t₁ t₂ hrf _ hb =>
    ⟨hrf.name, hrf.repr.mono id hb.extended, hrf.embedded⟩
  refine (hpart e he t₁ h₁).bind fun x t₂ hb hx => ?_
  exact Effect.gives_pure hb.intact ⟨rfl, hx, rfl⟩

/-- What a method field was made for, it still is in a later table. -/
theorem MethodShape.later {m : MethodDecl} {rf : ReprField}
    (hm : MethodShape (StandsFor True building t) t m rf) (h : Intact c building t)
    (hb : ReprTable.Extends t t') : MethodShape (StandsFor True building t') t' m rf := by
  obtain ⟨f, hf, hrepr⟩ := hm.repr
  refine ⟨hm.name, ⟨f, hf.mono fun p _ x hx => hx.mono id hb, ?_⟩, hm.embedded⟩
  exact hrepr.mono (h.carries hb)

theorem gives_methodFieldsWith (h : Intact c building t) {methods : List MethodDecl}
    (hpart : Parts wf building part (methods.flatMap fun m => m.sig.params ++ m.sig.results)) :
    (buildEffect wf building).Gives t (ReprM.methodFieldsWith part methods) fun fs t' =>
      List.Forall₂ (MethodShape (StandsFor True building t') t') methods fs := by
  refine Effect.gives_mapM h (fun m hm t₁ h₁ => ?_) fun m rf t₁ t₂ hrf h₁ hb =>
    hrf.later h₁ hb.extended
  have hsig : Parts wf building part (m.sig.params ++ m.sig.results) :=
    hpart.subset wf fun p hp => List.mem_flatMap.mpr ⟨m, hm, hp⟩
  refine (gives_funcReprWith wf h₁ hsig).bind fun f t₂ hb ⟨hf, hbounds⟩ => ?_
  refine (gives_intern wf hb.intact (.func f) hbounds rfl).bind fun r t₃ hb' hr => ?_
  refine Effect.gives_pure hb'.intact ⟨rfl, ⟨f, ?_, hr⟩, rfl⟩
  exact hf.mono fun p _ x hx => hx.mono id hb'.extended

/-- The emulation of an interface, given its parts. -/
theorem gives_emulateWith (h : Intact c building t) {d : InterfaceDecl}
    (hpart : Parts wf building part (Catalog.parts (.interface d))) :
    (buildEffect wf building).Gives t (ReprM.emulateWith c part d) fun r t' =>
      Represents (StandsFor True building t') c t' (.interface d) r := by
  have hembedded := hpart.subset wf (List.subset_append_left d.embedded _)
  have hcomplete := hpart.subset wf (List.subset_append_right d.embedded _)
  refine (gives_intern wf h .header (fun p hp => by cases hp) rfl).bind
    fun header t₁ hb₁ hheader => ?_
  refine (gives_markersWith wf hb₁.intact hembedded).bind fun markers t₂ hb₂ hmarkers => ?_
  refine (gives_intern wf hb₂.intact (.struct markers) (fun p hp => ?_) rfl).bind
    fun marker t₃ hb₃ hmarker => ?_
  · obtain ⟨rf, hrf, rfl⟩ := List.mem_map.mp hp
    obtain ⟨e, -, he⟩ := exists_of_mem_forall₂ hmarkers hrf
    exact hb₂.intact.lt_size he.repr.current
  refine (gives_intern wf hb₃.intact (.array 0 marker) (fun p hp => ?_) rfl).bind
    fun embeddeds t₄ hb₄ hembeddeds => ?_
  · rw [List.mem_singleton.mp hp]
    exact hmarker.lt_size
  refine (gives_methodFieldsWith wf hb₄.intact hcomplete).bind fun methods t₅ hb₅ hmethods => ?_
  -- What was made before the methods is still there when they are done.
  have late₄ := hb₅.extended
  have late₃ := hb₄.extended.trans late₄
  have late₂ := hb₃.extended.trans late₃
  have late₁ := hb₂.extended.trans late₂
  have hheader₅ := hheader.mono (hb₁.intact.carries late₁)
  have hmarker₅ := hmarker.mono (hb₃.intact.carries late₃)
  have hembeddeds₅ := hembeddeds.mono (hb₄.intact.carries late₄)
  refine (gives_intern wf hb₅.intact _ (fun p hp => ?_) rfl).bind fun body t₆ hb₆ hbody => ?_
  · obtain ⟨rf, hrf, rfl⟩ := List.mem_map.mp hp
    rcases List.mem_cons.mp hrf with rfl | hrf
    · exact hheader₅.lt_size
    rcases List.mem_cons.mp hrf with rfl | hrf
    · exact hembeddeds₅.lt_size
    · obtain ⟨m, -, hm⟩ := exists_of_mem_forall₂ hmethods hrf
      obtain ⟨f, -, hr⟩ := hm.repr
      exact hr.lt_size
  refine (gives_intern wf hb₆.intact (.pointer body) (fun p hp => ?_) rfl).mono
    fun r t₇ hb₇ hr => ?_
  · rw [List.mem_singleton.mp hp]
    exact hbody.lt_size
  have hlast := hb₆.extended.trans hb₇.extended
  have last := hb₅.intact.carries hlast
  refine .interface (hheader₅.mono last) (hmarkers.imp fun e rf hrf => ?_) (hmarker₅.mono last)
    (hembeddeds₅.mono last) (hmethods.imp fun m rf hrf => hrf.later hb₅.intact hlast)
    (hbody.mono (hb₆.intact.carries hb₇.extended)) hr
  exact ⟨hrf.name, hrf.repr.mono id (late₂.trans hlast), hrf.embedded⟩

/-- Assembling makes what represents a declaration, given its parts. -/
theorem gives_assemble (h : Intact c building t) {d : TypeDecl} (hd : ∀ n, d ≠ .named n)
    (hpart : Parts wf building part (Catalog.parts d)) :
    (buildEffect wf building).Gives t (ReprM.assemble c part d) fun r t' =>
      Represents (StandsFor True building t') c t' d r := by
  cases d with
  | basic kind =>
    exact (gives_intern wf h (.basic kind) (fun p hp => by cases hp) rfl).mono fun _ _ _ hr =>
      .basic hr
  | pointer elem =>
    refine (hpart elem (List.mem_singleton_self _) t h).bind fun x t₁ hb hx => ?_
    refine (gives_intern wf hb.intact (.pointer x) (fun p hp => ?_) rfl).mono
      fun r t₂ hb' hr => ?_
    · rw [List.mem_singleton.mp hp]
      exact hb.intact.lt_size hx.current
    · exact .pointer (hx.mono id hb'.extended) hr
  | slice elem =>
    refine (hpart elem (List.mem_singleton_self _) t h).bind fun x t₁ hb hx => ?_
    refine (gives_intern wf hb.intact (.slice x) (fun p hp => ?_) rfl).mono
      fun r t₂ hb' hr => ?_
    · rw [List.mem_singleton.mp hp]
      exact hb.intact.lt_size hx.current
    · exact .slice (hx.mono id hb'.extended) hr
  | func sig =>
    refine (gives_funcReprWith wf h hpart).bind fun f t₁ hb ⟨hf, hbounds⟩ => ?_
    refine (gives_intern wf hb.intact (.func f) hbounds rfl).mono fun r t₂ hb' hr => .func ?_ hr
    exact hf.mono fun p _ x hx => hx.mono id hb'.extended
  | struct fields =>
    refine (gives_structFieldsWith wf h hpart).bind fun fs t₁ hb hfs => ?_
    refine (gives_intern wf hb.intact (.struct fs) (fun p hp => ?_) rfl).mono
      fun r t₂ hb' hr => .struct (hfs.imp fun f rf hrf => ?_) hr
    · obtain ⟨rf, hrf, rfl⟩ := List.mem_map.mp hp
      obtain ⟨f, -, hf⟩ := exists_of_mem_forall₂ hfs hrf
      exact hb.intact.lt_size hf.repr.current
    · exact ⟨hrf.name, hrf.repr.mono id hb'.extended, hrf.embedded⟩
  | interface d => exact gives_emulateWith wf h hpart
  | named d => exact absurd rfl (hd d)

end Assemble

/-! ### Names -/

section Names

variable {p source : ReprId} {u : TypeId}

theorem lookup_cons_of_ne {n : TypeId} (h : n ≠ ty) :
    List.lookup n ((ty, p) :: building) = building.lookup n := by
  rw [List.lookup_cons, beq_false_of_ne h]

theorem lookup_cons_self : List.lookup ty ((ty, p) :: building) = some p := by
  rw [List.lookup_cons, beq_self_eq_true]

theorem current?_cons_of_ne {n : TypeId} (h : n ≠ ty) :
    t.current? ((ty, p) :: building) n = t.current? building n := by
  rw [ReprTable.current?, ReprTable.current?, lookup_cons_of_ne h]

theorem current?_cons_self : t.current? ((ty, p) :: building) ty = some p := by
  rw [ReprTable.current?, lookup_cons_self, Option.some_or]

/-- Entering a name opens a placeholder for it. -/
theorem Intact.enter (h : Intact c building t) (hnamed : c.isNamed ty = true)
    (hbuilt : t.built.find? ty = none) (name : String) :
    Intact c ((ty, (t.push ⟨some name, .invalid, .empty⟩).1) :: building)
      (t.push ⟨some name, .invalid, .empty⟩).2 := by
  have hpush := h.push (d := ⟨some name, .invalid, .empty⟩) fun p hp => by cases hp
  refine ⟨hpush.bounds, hpush.finished, fun n p hp => ?_, fun n n' r d hr hr' hd hname => ?_⟩
  · by_cases heq : n = ty
    · subst heq
      rw [lookup_cons_self] at hp
      obtain rfl := Option.some.inj hp
      exact ⟨hnamed, hbuilt, _, ReprTable.get?_push_next t _, rfl, rfl⟩
    · rw [lookup_cons_of_ne heq] at hp
      exact hpush.placeholder n p hp
  · -- What stood for a type before is older than the placeholder.
    have hold : ∀ {n : TypeId}, n ≠ ty →
        (t.push ⟨some name, .invalid, .empty⟩).2.current?
          ((ty, (t.push ⟨some name, .invalid, .empty⟩).1) :: building) n = some r →
        t.current? building n = some r := fun hne hr => by rwa [current?_cons_of_ne hne] at hr
    have hnew : ∀ {n : TypeId}, t.current? building n = some r →
        r ≠ (t.push ⟨some name, .invalid, .empty⟩).1 := by
      rintro n hr rfl
      exact absurd (h.lt_size hr) (Nat.lt_irrefl _)
    by_cases heq : n = ty
    · subst heq
      rw [current?_cons_self] at hr
      by_contra hne
      exact hnew (hold (fun h => hne h.symm) hr') (Option.some.inj hr).symm
    · by_cases heq' : n' = ty
      · subst heq'
        rw [current?_cons_self] at hr'
        exact absurd (Option.some.inj hr').symm (hnew (hold heq hr))
      · exact hpush.owner n n' r d (hold heq hr) (hold heq' hr') hd hname

/-- A name that could not be finished leaves its placeholder behind. -/
theorem Builds.leave (wf : c.WellFormed) (hopen : building.lookup ty = none)
    (hext : ReprTable.Extends t t') (hbuilt : t'.built = t.built)
    (hcallables : ∀ r name, t'.callable? r name = t.callable? r name)
    (hb : Builds False c ((ty, p) :: building) t' t'') : Builds False c building t t'' where
  extended := hext.trans hb.extended
  callables r name := (hb.callables r name).trans (hcallables r name)
  intact := by
    -- The name itself does not stand for anything any more.
    have hinner : ∀ {n : TypeId} {x : ReprId}, t''.current? building n = some x →
        t''.current? ((ty, p) :: building) n = some x := by
      intro n x hx
      by_cases heq : n = ty
      · subst heq
        rw [current?_eq_some_iff, hopen, (hb.intact.placeholder n p lookup_cons_self).2.1] at hx
        simp at hx
      · rwa [current?_cons_of_ne heq]
    refine ⟨hb.intact.bounds, hb.intact.finished, fun n x hx => hb.intact.placeholder n x ?_,
      fun n n' r d hr hr' => hb.intact.owner n n' r d (hinner hr) (hinner hr')⟩
    rwa [lookup_cons_of_ne]
    rintro rfl
    rw [hopen] at hx
    cases hx
  made n r hr := by
    rw [← hbuilt]
    refine (hb.made n r hr).imp_right fun hmade => ?_
    refine hmade.mono rfl wf (.refl c) (hb.intact.carries (.refl t'')) fun q x hx => ?_
    refine hx.elim (fun hx => ?_) .inr
    by_cases heq : q = ty
    · subst heq
      rw [ReprTable.current?, lookup_cons_self] at hx
      obtain rfl := Option.some.inj hx
      obtain ⟨-, -, d, hd, -, hkind⟩ := hb.intact.placeholder q p lookup_cons_self
      exact .inr ⟨id, d, hd, hkind⟩
    · rw [ReprTable.current?, lookup_cons_of_ne heq] at hx
      exact .inl hx
  fresh hwhole := hwhole.elim

/-- The table with the name `ty` finished: its placeholder `p` has the structure of `source`. -/
def ReprTable.finishName (t : ReprTable) (ty : TypeId) (p source : ReprId) : ReprTable :=
  (t.complete p source).record ty p

theorem find?_finishName_self :
    (t.finishName ty p source).built.find? ty = some p :=
  Assoc.find?_set_self ..

theorem find?_finishName_of_ne {n : TypeId} (h : n ≠ ty) :
    (t.finishName ty p source).built.find? n = t.built.find? n :=
  Assoc.find?_set_of_ne _ h p

theorem get?_finishName_of_ne (h : r ≠ p) : (t.finishName ty p source).get? r = t.get? r :=
  ReprTable.get?_complete_of_ne h source

theorem kind_finishName_of_ne (h : r ≠ p) : (t.finishName ty p source).kind r = t.kind r := by
  rw [ReprTable.kind, ReprTable.kind, get?_finishName_of_ne h]

/-- Inside, the placeholder stood for the name; outside, the record does. -/
theorem current?_finishName (hopen : building.lookup ty = none) (n : TypeId) :
    (t.finishName ty p source).current? building n = t.current? ((ty, p) :: building) n := by
  by_cases heq : n = ty
  · subst heq
    rw [current?_cons_self, ReprTable.current?, hopen, find?_finishName_self, Option.none_or]
  · rw [current?_cons_of_ne heq, ReprTable.current?, ReprTable.current?, find?_finishName_of_ne heq]

theorem StandsFor.finishName (hopen : building.lookup ty = none) {n : TypeId}
    (hr : StandsFor True ((ty, p) :: building) t n r) :
    StandsFor True building (t.finishName ty p source) n r :=
  .inl ((current?_finishName hopen n).trans hr.current)

section Finish

variable (h : Intact c ((ty, p) :: building) t)
include h

theorem kind_finishName_self (source : ReprId) :
    (t.finishName ty p source).kind p = t.kind source := by
  obtain ⟨-, -, d, hd, -⟩ := h.placeholder ty p lookup_cons_self
  exact ReprTable.kind_of_get? (ReprTable.get?_complete_self hd source)

/-- An open placeholder is not recorded. -/
theorem ne_placeholder {n : TypeId} (hr : t.built.find? n = some r) : r ≠ p := by
  rintro rfl
  obtain ⟨-, -, d, hd, -, hkind⟩ := h.placeholder ty r lookup_cons_self
  exact h.finished n r hr (by rw [ReprTable.kind_of_get? hd, hkind])

theorem carries_finishName (source : ReprId) :
    ReprTable.Carries t (t.finishName ty p source) := by
  obtain ⟨-, hnone, e, he, hname, -⟩ := h.placeholder ty p lookup_cons_self
  refine ⟨fun r d hd => ?_, fun n r hr => ⟨?_, kind_finishName_of_ne (ne_placeholder h hr)⟩⟩
  · by_cases heq : r = p
    · subst heq
      rw [he] at hd
      obtain rfl := Option.some.inj hd
      refine ⟨_, ReprTable.get?_complete_self he source, rfl, fun hunnamed => ?_⟩
      rw [hunnamed] at hname
      cases hname
    · exact ⟨d, by rw [get?_finishName_of_ne heq, hd], rfl, fun _ => rfl⟩
  · rw [find?_finishName_of_ne, hr]
    rintro rfl
    rw [hnone] at hr
    cases hr

theorem Intact.finishName (hopen : building.lookup ty = none)
    (hold : ∀ n x, building.lookup n = some x → x ≠ p) (hsource : t.kind source ≠ .invalid) :
    Intact c building (t.finishName ty p source) := by
  have hself := kind_finishName_self h source
  refine ⟨fun r q hq => ?_, fun n r hr => ?_, fun n x hx => ?_,
    fun n n' r d hr hr' hd hname => ?_⟩
  · show q.index < (t.complete p source).size
    rw [ReprTable.size_complete]
    by_cases heq : r = p
    · rw [heq, hself] at hq
      exact h.bounds source q hq
    · rw [kind_finishName_of_ne heq] at hq
      exact h.bounds r q hq
  · by_cases heq : n = ty
    · subst heq
      rw [find?_finishName_self] at hr
      obtain rfl := Option.some.inj hr
      rw [hself]
      exact hsource
    · rw [find?_finishName_of_ne heq] at hr
      rw [kind_finishName_of_ne (ne_placeholder h hr)]
      exact h.finished n r hr
  · have heq : n ≠ ty := by
      rintro rfl
      rw [hopen] at hx
      cases hx
    rw [find?_finishName_of_ne heq, get?_finishName_of_ne (hold n x hx)]
    exact h.placeholder n x (by rwa [lookup_cons_of_ne heq])
  · rw [current?_finishName hopen] at hr hr'
    obtain ⟨e, he⟩ := ReprTable.exists_get? (h.lt_size hr)
    obtain ⟨e', he', hename, -⟩ := (carries_finishName h source).names r e he
    rw [hd] at he'
    obtain rfl := Option.some.inj he'
    exact h.owner n n' r e hr hr' he (hename ▸ hname)

end Finish

/-- Finishing a name completes its placeholder and records it. -/
theorem Builds.finishName (wf : c.WellFormed) (h : Intact c building t)
    (hopen : building.lookup ty = none) (hnone : t.built.find? ty = none) {d : NamedDecl}
    (hd : c.decl? ty = some (.named d)) (hu : d.underlying = some u) {name : String}
    (hb : Builds True c ((ty, ⟨t.size⟩) :: building) (t.push ⟨some name, .invalid, .empty⟩).2 t')
    (hsource : StandsFor True ((ty, ⟨t.size⟩) :: building) t' u source) :
    Builds True c building t (t'.finishName ty ⟨t.size⟩ source) := by
  -- What the name stands for is unnamed, so it is recorded and finished.
  have hrecorded : t'.built.find? u = some source := by
    refine ((current?_eq_some_iff.mp hsource.current).resolve_left fun hlookup => ?_).2
    have hnamed := (hb.intact.placeholder u source hlookup).1
    rw [(wf.underlying_unnamed ty d hd u hu).2] at hnamed
    cases hnamed
  have hfinished := hb.intact.finished u source hrecorded
  have hself := kind_finishName_self hb.intact source
  have hcarries := carries_finishName hb.intact source
  have hext := (t.extends_push ⟨some name, .invalid, .empty⟩).trans hb.extended
  have hold : ∀ {r : ReprId}, r.index < t.size → r ≠ ⟨t.size⟩ := by
    rintro r hr rfl
    exact Nat.lt_irrefl _ hr
  refine ⟨⟨fun r d hd => ?_, fun n r hr => (hcarries.built n r (hext.built n r hr)).1⟩,
    hb.intact.finishName hopen (fun n x hx => ?_) hfinished, fun n r hr => ?_,
    fun _ r hle hlt => ?_, fun r method => ?_⟩
  · rw [get?_finishName_of_ne (hold (ReprTable.lt_size_of_get? hd))]
    exact hext.kept r d hd
  · obtain ⟨-, -, e, he, -⟩ := h.placeholder n x hx
    exact hold (ReprTable.lt_size_of_get? he)
  · by_cases heq : n = ty
    · subst heq
      rw [find?_finishName_self] at hr
      obtain rfl := Option.some.inj hr
      obtain ⟨-, -, e, he, hname, -⟩ := hb.intact.placeholder n _ lookup_cons_self
      refine .inr (.named d u source hd hu (hcarries.built u source hrecorded).1 ?_
        ⟨_, ReprTable.get?_complete_self he source, hname⟩)
      rw [hself, kind_finishName_of_ne (ne_placeholder hb.intact hrecorded)]
    · rw [find?_finishName_of_ne heq] at hr
      refine (hb.made n r hr).imp_right fun hmade => ?_
      exact hmade.mono (hcarries.built n r hr).2 wf (.refl c) hcarries fun q x hx =>
        hx.finishName hopen
  · by_cases heq : r = ⟨t.size⟩
    · rw [heq, hself]
      exact hfinished
    · rw [kind_finishName_of_ne heq]
      refine hb.fresh trivial r ?_ (by rwa [← ReprTable.size_complete t' ⟨t.size⟩ source])
      rw [ReprTable.size_push]
      refine Nat.lt_of_le_of_ne hle fun hr => heq ?_
      cases r
      cases hr
      rfl
  · calc (t'.finishName ty ⟨t.size⟩ source).callable? r method
        = t'.callable? r method := ReprTable.callable?_complete ..
      _ = (t.push ⟨some name, .invalid, .empty⟩).2.callable? r method := hb.callables r method
      _ = t.callable? r method := ReprTable.callable?_push rfl r method

end Names

/-! ### Building -/

/-- **Building makes what represents a type.** Nothing that was there changes; what is recorded anew
represents its type; the answer stands for the type from then on, and no placeholder is left open.
If building breaks off, the placeholders of names that were being built are left behind. -/
theorem gives_build (building : Building) (ty : TypeId) {t : ReprTable}
    (h : Intact c building t) :
    (buildEffect wf building).Gives t (ReprM.build c building ty) fun r t' =>
      StandsFor True building t' ty r := by
  induction building, ty using ReprM.build.induct c generalizing t with
  | case1 building ty placeholder hopen =>
    rw [ReprM.build]
    split
    · next p hp => exact Effect.gives_pure h (.inl (current?_eq_some_iff.mpr (.inl hp)))
    · next hnone =>
      rw [hopen] at hnone
      cases hnone
  | case2 building ty hopen ihNamed ihPart =>
    rw [ReprM.build]
    split
    · next p hp =>
      rw [hopen] at hp
      cases hp
    refine Effect.gives_get_bind ?_
    split
    · next r hr =>
      exact Effect.gives_pure h (.inl (current?_eq_some_iff.mpr (.inr ⟨hopen, hr⟩)))
    next hbuilt =>
    split
    · exact gives_incomplete wf h _
    · next d hd =>
      split
      · exact gives_incomplete wf h _
      · next u hu =>
        have henter := h.enter (Catalog.isNamed_iff.mpr ⟨d, hd⟩) hbuilt (c.typeName ty)
        refine ends_bind.mpr ((ends_modifyGet _).mpr (ends_bind.mpr ?_))
        apply Ends.mono (ihNamed d hd u _ henter)
        · intro source t' hsource
          constructor
          · exact hsource.1.finishName wf h hopen hbuilt hd hu hsource.2
          · exact .inl (current?_eq_some_iff.mpr (.inr ⟨hopen, find?_finishName_self⟩))
        · intro _ t' hfail
          exact ⟨hfail.1, hfail.2.leave wf hopen (t.extends_push _) rfl
            (ReprTable.callable?_push rfl)⟩
    · next d hunnamed hd =>
      have hparts : Parts wf building (fun p => if _older : p.index < ty.index then
          ReprM.build c building p else throw (.incompleteType (c.typeName p)))
          (Catalog.parts d) := by
        intro p hp t' h'
        dsimp only
        rw [dif_pos (wf.parts_lt ty d hd p hp)]
        exact ihPart p (wf.parts_lt ty d hd p hp) h'
      have hname : c.isNamed ty = false := by
        rw [Bool.eq_false_iff]
        intro hnamed
        obtain ⟨n, hn⟩ := Catalog.isNamed_iff.mp hnamed
        rw [hd] at hn
        exact hunnamed n (Option.some.inj hn)
      refine (gives_assemble wf h hunnamed hparts).bind fun r t' hb hrep => ?_
      have hrecord : Builds True c building t' (t'.record ty r) := by
        refine builds_record wf hb.intact hopen (fun r' hr' => ?_) hrep.kind_ne
          (fun n e _ he hnamed => ?_) (.unnamed d hd hname hrep)
        case refine_2 =>
          rw [hrep.unnamed he] at hnamed
          cases hnamed
        -- A name in between can have recorded the type already, and then for the same parts.
        rcases hb.made ty r' hr' with hr' | hmade
        · rw [hbuilt] at hr'
          cases hr'
        · cases hmade with
          | unnamed d' hd' _ hrep' =>
            rw [hd] at hd'
            obtain rfl := Option.some.inj hd'
            exact hrep'.unique rightUnique_standsFor hrep
          | named d' _ _ hd' =>
            rw [hd] at hd'
            exact absurd (Option.some.inj hd') (hunnamed d')
      refine ⟨hrecord, .inl (current?_eq_some_iff.mpr (.inr ⟨hopen, ?_⟩))⟩
      exact Assoc.find?_set_self ..

end Builds

/-! ### What is recorded -/

namespace ReprM

variable {c : Catalog} {t : ReprTable}

/-- What is recorded is not built again. -/
theorem ends_build_recorded {ty : TypeId} {r : ReprId} {V : ReprId → ReprTable → Prop}
    {X : TypeError → ReprTable → Prop} (h : t.built.find? ty = some r) :
    Ends (build c [] ty) t V X ↔ V r t := by
  rw [build]
  split
  · next hopen => cases hopen
  rw [ends_bind, ends_get]
  split
  · next r' hr' =>
    rw [h] at hr'
    obtain rfl := Option.some.inj hr'
    exact Iff.rfl
  · next hnone =>
    rw [h] at hnone
    cases hnone

theorem run_reprOf_recorded {ty : TypeId} {r : ReprId} (h : t.built.find? ty = some r) :
    (reprOf c ty).run.run t = (.ok r, t) :=
  (ends_build_recorded h).mp (ends_self ..)

theorem ends_mapM_recorded {types : List TypeId} {rs : List ReprId}
    {V : List ReprId → ReprTable → Prop} {X : TypeError → ReprTable → Prop}
    (h : List.Forall₂ (fun p r => t.built.find? p = some r) types rs) :
    Ends (types.mapM (reprOf c)) t V X ↔ V rs t := by
  induction h generalizing V with
  | nil =>
    rw [List.mapM_nil]
    exact Iff.rfl
  | cons hr _ ih =>
    rw [List.mapM_cons, ends_bind, reprOf, ends_build_recorded hr, ends_bind, ih]
    exact Iff.rfl

/-- A signature of recorded types is viewed as they are. -/
theorem ends_funcReprOf_recorded {sig : Signature} {f : FuncRepr}
    {V : FuncRepr → ReprTable → Prop} {X : TypeError → ReprTable → Prop}
    (h : FuncShape (fun p r => t.built.find? p = some r) sig f) :
    Ends (funcReprOf c sig) t V X ↔ V f t := by
  rw [funcReprOf, funcReprWith, ends_bind, ends_mapM_recorded h.params, ends_bind,
    ends_mapM_recorded h.results, ends_pure, ← h.variadic]

end ReprM

end ScriptEngine
