import ScriptEngine.Proofs.Universe.History

/-!
Whose callables are bound where.

Where callables are attached only by binding methods, each of them belongs to a method of a name
(`BoundFor`): it is bound to the representation of the method's receiver, which is the name or a
pointer to it. `Attributed B` says so of a universe whose methods were last bound to what `B` says.
Since a named representation stands for one type only, what is found for a method of a name was
bound for that name (`Attributed.owner`), and there is at most one such callable
(`Attributed.unique`).
-/

namespace ScriptEngine.Universe

/-- The callables that the methods of names were last bound to. -/
abbrev Bindings := TypeId → String → Option FuncId

/-- The bindings after another one. -/
def Bindings.bind (B : Bindings) (ty : TypeId) (name : String) (func : FuncId) : Bindings :=
  fun n method => if n = ty ∧ method = name then some func else B n method

theorem Bindings.bind_self (B : Bindings) (ty : TypeId) (name : String) (func : FuncId) :
    B.bind ty name func ty name = some func :=
  if_pos ⟨rfl, rfl⟩

theorem Bindings.bind_of_ne (B : Bindings) {ty n : TypeId} {name method : String}
    (h : ¬ (n = ty ∧ method = name)) (func : FuncId) :
    B.bind ty name func n method = B n method :=
  if_neg h

/-- `callable` has the runtime type of the method `m` of the name `ty`, and `r` represents the
receiver `recv` of that method. -/
structure BoundFor (u : Universe) (ty : TypeId) (m : MethodDecl) (recv : TypeId) (r : ReprId)
    (callable : Callable) : Prop where
  method : ∃ d, u.catalog.decl? ty = some (.named d) ∧ m ∈ d.methods
  declared : m.sig.recv = some recv
  built : u.reprs.built.find? recv = some r
  type : ∃ f, FuncShape (fun p x => u.reprs.built.find? p = some x) m.sig f ∧
    callable.ty = f.addReceiver r

/-- Every callable was bound for a method, the last one for it that `B` knows of. -/
def Attributed (B : Bindings) (u : Universe) : Prop :=
  ∀ r name callable, u.reprs.callable? r name = some callable →
    ∃ ty m recv, m.name = name ∧ u.BoundFor ty m recv r callable ∧ B ty name = some callable.func

section Receivers

variable {u : Universe} {ty n recv : TypeId} {m : MethodDecl} {r p : ReprId} {callable : Callable}

theorem BoundFor.receiver (h : Sound u) (hb : u.BoundFor ty m recv r callable) :
    recv = ty ∨ u.catalog.decl? recv = some (.pointer ty) := by
  obtain ⟨d, hd, hm⟩ := hb.method
  obtain ⟨recv', hrecv', hr⟩ := h.methods.receiver ty d hd m hm
  obtain rfl := Option.some.inj (hb.declared.symm.trans hrecv')
  exact hr

/-- A name that is no interface is represented by a named representation. -/
theorem Sound.isSome_name (h : Sound u) (hn : u.catalog.isNamed ty = true)
    (hiface : u.catalog.interface? ty = none) (hr : u.reprs.built.find? ty = some r) :
    ∃ d, u.reprs.get? r = some d ∧ d.name.isSome = true := by
  rcases h.recorded ty r hr with hmade | ⟨hi, -⟩
  · cases hmade with
    | unnamed d hd hunnamed => cases hn.symm.trans hunnamed
    | named d v source hd hv hsource hkind hname => exact hname
  · rw [hiface] at hi
    cases hi

/-- What a pointer type is represented by is unnamed: it is the pointer to what represents the
element or to a placeholder that was left behind. -/
theorem Sound.interned_of_pointer (h : Sound u) (hptr : u.catalog.decl? recv = some (.pointer ty))
    (hr : u.reprs.built.find? recv = some r) :
    ∃ x, u.reprs.Interned (.pointer x) r ∧
      (u.reprs.built.find? ty = some x ∨ u.reprs.Unfinished x) := by
  rcases h.recorded recv r hr with hmade | ⟨hi, -⟩
  · cases hmade with
    | unnamed d hd hunnamed hrep =>
      obtain rfl := Option.some.inj (hptr.symm.trans hd)
      cases hrep with
      | pointer hx hr => exact ⟨_, hr, hx.imp id And.right⟩
    | named d v source hd => cases hptr.symm.trans hd
  · simp [Catalog.interface?, Catalog.underlying, hptr] at hi

/-- **A named representation belongs to one name.** -/
theorem BoundFor.owner_own (h : Sound u) (hn : u.catalog.isNamed n = true)
    (hiface : u.catalog.interface? n = none) (hbuilt : u.reprs.built.find? n = some r)
    (hb : u.BoundFor ty m recv r callable) : ty = n ∧ recv = n := by
  obtain ⟨d, hd, hname⟩ := h.isSome_name hn hiface hbuilt
  rcases hb.receiver h with rfl | hptr
  · have howner := h.reprs.owner recv n r d hb.built hbuilt hd hname
    exact ⟨howner, howner⟩
  · -- The receiver is no pointer, since those have unnamed representations.
    obtain ⟨x, hinterned, -⟩ := h.interned_of_pointer hptr hb.built
    obtain ⟨e, he, hnone, -⟩ := hinterned.entry
    obtain rfl := Option.some.inj (hd.symm.trans he)
    rw [hnone] at hname
    cases hname

/-- **So do the pointers to it.** -/
theorem BoundFor.owner_pointer (h : Sound u) (hn : u.catalog.isNamed n = true)
    (hiface : u.catalog.interface? n = none) (hbuilt : u.reprs.built.find? n = some r)
    (hp : u.reprs.Interned (.pointer r) p) (hb : u.BoundFor ty m recv p callable) :
    ty = n ∧ u.catalog.decl? recv = some (.pointer n) := by
  obtain ⟨d, hd, hname⟩ := h.isSome_name hn hiface hbuilt
  rcases hb.receiver h with rfl | hptr
  · -- The receiver is a pointer, since nothing else is represented by one but an interface.
    obtain ⟨e, he, hnone, hkind⟩ := hp.entry
    obtain ⟨d', hd', -⟩ := hb.method
    rcases h.recorded recv p hb.built with hmade | ⟨-, methods, hmethods⟩
    · cases hmade with
      | unnamed d hd hunnamed => cases (Catalog.isNamed_iff.mpr ⟨d', hd'⟩).symm.trans hunnamed
      | named d v source hd hv hsource _ hname' =>
        obtain ⟨e', he', hename⟩ := hname'
        obtain rfl := Option.some.inj (he.symm.trans he')
        rw [hnone] at hename
        cases hename
    · cases hp.kind_eq.symm.trans hmethods
  · obtain ⟨x, hinterned, hx⟩ := h.interned_of_pointer hptr hb.built
    have hsame : ReprKind.pointer x = .pointer r := hinterned.kind_eq.symm.trans hp.kind_eq
    obtain rfl := ReprKind.pointer.inj hsame
    rcases hx with hx | ⟨e, he, hkind⟩
    · obtain rfl := h.reprs.owner ty n x d hx hbuilt hd hname
      exact ⟨rfl, hptr⟩
    · exact absurd ((ReprTable.kind_of_get? he).trans hkind) (h.reprs.finished n x hbuilt)

/-- A name that is neither an interface nor a pointer is not represented by a pointer. -/
theorem Sound.kind_ne_pointer (h : Sound u) (hn : u.catalog.isNamed ty = true)
    (hiface : u.catalog.kindOf ty ≠ .interface) (hptr : u.catalog.kindOf ty ≠ .ptr)
    (hr : u.reprs.built.find? ty = some r) (elem : ReprId) :
    u.reprs.kind r ≠ .pointer elem := by
  intro hkind
  rcases h.recorded ty r hr with hmade | ⟨hi, -⟩
  · cases hmade with
    | unnamed d hd hunnamed => cases hn.symm.trans hunnamed
    | named d v source hd hv hsource hsame _ =>
      -- The structure is that of what the name stands for, which is made for its declaration.
      have hunder := Catalog.underlying_of_named hd hv
      have hv' := (h.catalog.underlying_unnamed ty d hd v hv).2
      rcases h.recorded v source hsource with hmade' | ⟨hi, -⟩
      · cases hmade' with
        | unnamed e he hunnamed hrep =>
          rw [Catalog.kindOf, hunder, he] at hiface hptr
          rw [hsame] at hkind
          cases hrep with
          | basic hr => cases hr.kind_eq.symm.trans hkind
          | pointer => exact hptr rfl
          | slice _ hr => cases hr.kind_eq.symm.trans hkind
          | func _ hr => cases hr.kind_eq.symm.trans hkind
          | struct _ hr => cases hr.kind_eq.symm.trans hkind
          | interface => exact hiface rfl
        | named e _ _ he => cases (Catalog.isNamed_iff.mpr ⟨e, he⟩).symm.trans hv'
      · obtain ⟨i, hi⟩ := Option.isSome_iff_exists.mp hi
        refine hiface (Catalog.isSome_interface?.mp ?_)
        have hself : u.catalog.underlying v = v := by
          unfold Catalog.underlying
          split
          · next e he => cases (Catalog.isNamed_iff.mpr ⟨e, he⟩).symm.trans hv'
          · rfl
        rw [Catalog.interface?, hself] at hi
        rw [Catalog.interface?, hunder, hi]
        rfl
  · exact hiface (Catalog.isSome_interface?.mp hi)

end Receivers

/-! ### What steps do to bound callables -/

section Steps

variable {B : Bindings} {u u' : Universe} {ty : TypeId} {name : String} {func : FuncId}
  {m : MethodDecl} {recv : TypeId} {r : ReprId} {callable : Callable} {a : Act} {A : Set Act}

theorem BoundFor.mono (hb : u.BoundFor ty m recv r callable)
    (hcatalog : Catalog.Grows u.catalog u'.catalog)
    (hbuilt : ∀ n x, u.reprs.built.find? n = some x → u'.reprs.built.find? n = some x) :
    u'.BoundFor ty m recv r callable := by
  obtain ⟨d, hd, hm⟩ := hb.method
  obtain ⟨d', hd', -, -, -, hmethods⟩ := hcatalog.named ty d hd
  obtain ⟨f, hf, htype⟩ := hb.type
  exact ⟨⟨d', hd', hmethods.subset hm⟩, hb.declared, hbuilt recv r hb.built, f,
    hf.mono fun p _ x => hbuilt p x, htype⟩

theorem Step.attributed (s : Step u a u') (ha : a ≠ .bind) (h : Sound u)
    (hattributed : Attributed B u) : Attributed B u' := by
  intro r name callable hc
  rw [(s.prolongs ha h).callables] at hc
  obtain ⟨ty, m, recv, hname, hb, hB⟩ := hattributed r name callable hc
  exact ⟨ty, m, recv, hname, hb.mono s.grows (s.extended h).built, hB⟩

theorem Steps.attributed (hA : .bind ∉ A) (s : Steps A u u') (h : Sound u)
    (hattributed : Attributed B u) : Attributed B u' :=
  (s.keeps (fun ha step hv hB => step.attributed (fun hbind => hA (hbind ▸ ha)) hv hB) h
    hattributed).2

/-- A name and the receiver of its method are known by where a callable of the method is bound and
how the method is called. -/
theorem BoundFor.eq_of_name (h : Sound u) {m' : MethodDecl} {recv' : TypeId} {x : ReprId}
    {callable' : Callable} (hb : u.BoundFor ty m recv r callable)
    (hb' : u.BoundFor ty m' recv' x callable') (hname : m.name = m'.name) :
    m = m' ∧ recv = recv' ∧ r = x := by
  obtain ⟨d, hd, hm⟩ := hb.method
  obtain ⟨d', hd', hm'⟩ := hb'.method
  obtain rfl := TypeDecl.named.inj (Option.some.inj (hd.symm.trans hd'))
  obtain rfl := h.methods.eq_of_name hd hm hm' hname
  obtain rfl := Option.some.inj (hb.declared.symm.trans hb'.declared)
  exact ⟨rfl, rfl, Option.some.inj (hb.built.symm.trans hb'.built)⟩

theorem BoundFor.bindCallable (hb : u.BoundFor ty m recv r callable) (x : ReprId) (name : String)
    (other : Callable) : (u.bindCallable x name other).BoundFor ty m recv r callable := by
  rw [bindCallable_eq]
  exact hb.mono (.refl _) fun _ _ hx => hx

/-- Binding a method builds what it mentions and attaches a callable for it. -/
theorem BindsMethod.boundFor (hb : BindsMethod u ty name func u') (h : Sound u) :
    ∃ u₁ m recv r callable, m.name = name ∧ Steps (Act.building \ {.breakOff}) u u₁ ∧
      u₁.BoundFor ty m recv r callable ∧ callable.func = func ∧
      u' = u₁.bindCallable r name callable := by
  obtain ⟨d, m, recv, u₁, r, f, hd, hm, rfl, hrecv, s, hr, hf⟩ := hb
  have hcatalog := Steps.catalog_eq (by simp [Act.building]) s h
  have hnew : u₁.BoundFor ty m recv r ⟨f.addReceiver r, func⟩ :=
    ⟨⟨d, by rw [hcatalog, hd], hm⟩, hrecv, hr, f, hf, rfl⟩
  exact ⟨u₁, m, recv, r, _, rfl, s, hnew, rfl, rfl⟩

/-- **Binding a method attributes its callable to it**, and no other callable to anything else. -/
theorem BindsMethod.attributed (hb : BindsMethod u ty name func u') (h : Sound u)
    (hattributed : Attributed B u) : Attributed (B.bind ty name func) u' := by
  obtain ⟨u₁, m, recv, r, callable, rfl, s, hnew, rfl, rfl⟩ := hb.boundFor h
  have h₁ := Steps.sound s h
  have hattributed₁ := Steps.attributed (by simp [Act.building]) s h hattributed
  intro x method c hc
  rw [bindCallable_eq] at hc
  rcases ReprTable.callable?_bind hc with ⟨rfl, rfl, rfl⟩ | ⟨hne, hc⟩
  · exact ⟨ty, m, recv, rfl, hnew.bindCallable .., B.bind_self ty m.name _⟩
  · obtain ⟨n, m', recv', rfl, hold, hB⟩ := hattributed₁ x method c hc
    refine ⟨n, m', recv', rfl, hold.bindCallable .., ?_⟩
    rw [B.bind_of_ne, hB]
    rintro ⟨rfl, hname⟩
    obtain ⟨-, -, rfl⟩ := hold.eq_of_name h₁ hnew hname
    exact hne.elim (fun hne => hne rfl) fun hne => hne hname

/-! ### What is found for a method -/

/-- **What is found for a method of a name was bound for that name.** -/
theorem Attributed.owner (hattributed : Attributed B u) (h : Sound u)
    (hn : u.catalog.isNamed ty = true) (hiface : u.catalog.interface? ty = none)
    (hbuilt : u.reprs.built.find? ty = some r) (hc : u.reprs.Attached r name callable) :
    ∃ m recv x, m.name = name ∧ u.BoundFor ty m recv x callable ∧
      u.reprs.callable? x name = some callable ∧ B ty name = some callable.func := by
  rcases hc with hown | ⟨-, p, hp, hptr⟩
  · obtain ⟨n, m, recv, hname, hb, hB⟩ := hattributed r name callable hown
    obtain ⟨rfl, -⟩ := hb.owner_own h hn hiface hbuilt
    exact ⟨m, recv, r, hname, hb, hown, hB⟩
  · obtain ⟨n, m, recv, hname, hb, hB⟩ := hattributed p name callable hptr
    obtain ⟨rfl, -⟩ := hb.owner_pointer h hn hiface hbuilt hp
    exact ⟨m, recv, p, hname, hb, hptr, hB⟩

/-- **There is at most one callable to find for a method of a name.** -/
theorem Attributed.unique (hattributed : Attributed B u) (h : Sound u)
    (hn : u.catalog.isNamed ty = true) (hiface : u.catalog.interface? ty = none)
    (hbuilt : u.reprs.built.find? ty = some r) {callable' : Callable}
    (hc : u.reprs.Attached r name callable) (hc' : u.reprs.Attached r name callable') :
    callable = callable' := by
  obtain ⟨m, recv, x, hname, hb, hx, -⟩ := hattributed.owner h hn hiface hbuilt hc
  obtain ⟨m', recv', x', hname', hb', hx', -⟩ := hattributed.owner h hn hiface hbuilt hc'
  obtain ⟨-, -, rfl⟩ := hb.eq_of_name h hb' (hname.trans hname'.symm)
  exact Option.some.inj (hx.symm.trans hx')

/-- So that is what a search finds. -/
theorem Attributed.search (hattributed : Attributed B u) (h : Sound u)
    (hn : u.catalog.isNamed ty = true) (hiface : u.catalog.interface? ty = none)
    (hbuilt : u.reprs.built.find? ty = some r) (hc : u.reprs.Attached r name callable) :
    (u.reprs.search r name).1 = some callable := by
  rw [ReprTable.search_eq_some]
  cases hown : u.reprs.callable? r name with
  | some own => exact .inl (congrArg some (hattributed.unique h hn hiface hbuilt (.inl hown) hc))
  | none =>
    refine .inr ⟨rfl, hc.resolve_left fun hsome => ?_⟩
    cases hown.symm.trans hsome

end Steps

/-! ### Histories of bindings -/

/-- The bindings after an operation: those before it, and what it bound if it did not fail. -/
def Bindings.after (B : Bindings) (u : Universe) : Operation → Bindings
  | .bindMethod ty name func =>
    match (u.perform (.bindMethod ty name func)).1 with
    | .ok _ => B.bind ty name func
    | .error _ => B
  | _ => B

/-- The universes that operations lead to of which none attaches a callable but as that of a method,
with what the methods were last bound to. -/
inductive BoundBy (allowed : Universe → Operation → Prop) : Bindings → Universe → Prop where
  | empty : BoundBy allowed (fun _ _ => none) .empty
  | step {B : Bindings} {u : Universe} (op : Operation) : BoundBy allowed B u → op.InRange u →
      allowed u op → (∀ r name callable, op ≠ .bindCallable r name callable) →
      BoundBy allowed (B.after u op) (u.perform op).2

variable {allowed : Universe → Operation → Prop} {B : Bindings} {u : Universe}

theorem BoundBy.reachableBy (h : BoundBy allowed B u) : ReachableBy allowed u := by
  induction h with
  | empty => exact .empty
  | step op _ inRange hallowed _ ih => exact .step op ih inRange hallowed

theorem BoundBy.sound (h : BoundBy allowed B u) : Sound u :=
  h.reachableBy.sound

theorem exists_boundBy (h : ReachableBy (fun u op => allowed u op ∧
    ∀ r name callable, op ≠ .bindCallable r name callable) u) : ∃ B, BoundBy allowed B u := by
  induction h with
  | empty => exact ⟨_, .empty⟩
  | step op _ inRange hallowed ih =>
    obtain ⟨B, hB⟩ := ih
    exact ⟨_, .step op hB inRange hallowed.1 hallowed.2⟩

/-- How binding a method ends, as an operation. -/
theorem perform_bindMethod (h : Sound u) (ty : TypeId) (name : String) (func : FuncId) :
    ((u.perform (.bindMethod ty name func)).1 = .ok () ∧
        BindsMethod u ty name func (u.perform (.bindMethod ty name func)).2) ∨
      ((∃ e, (u.perform (.bindMethod ty name func)).1 = .error e) ∧
        Steps Act.building u (u.perform (.bindMethod ty name func)).2) := by
  have hends : Ends (Operation.bindMethod ty name func).run u
      (fun _ u' => BindsMethod u ty name func u') ((stepping Act.building).fail · u) :=
    ends_map.mpr (ends_bindMethod h ty name func)
  unfold perform
  unfold Ends at hends
  split at hends
  · next a u' hrun =>
    rw [hrun]
    exact .inl ⟨rfl, hends⟩
  · next e u' hrun =>
    rw [hrun]
    exact .inr ⟨⟨e, rfl⟩, Steps.mono (fun _ ha => ha.1) hends⟩

/-- **What steps that bind nothing keep, and what binding a method keeps, holds along every such
history.** -/
theorem BoundBy.keeps {P : Bindings → Universe → Prop} (h : BoundBy allowed B u)
    (hempty : P (fun _ _ => none) .empty)
    (hsteps : ∀ {B u u' A}, .bind ∉ A → Steps A u u' → Sound u → P B u → P B u')
    (hbinds : ∀ {B u u' ty name func}, BoundBy allowed B u → BindsMethod u ty name func u' → P B u →
      P (B.bind ty name func) u') : P B u := by
  induction h with
  | empty => exact hempty
  | @step B u op before inRange _ hop ih =>
    have s := perform_steps before.sound inRange
    have hquiet : .bind ∉ op.acts → Bindings.after B u op = B →
        P (B.after u op) (u.perform op).2 := fun hbind hafter => by
      rw [hafter]
      exact hsteps (fun ha => hbind ha.1) s before.sound ih
    cases op with
    | bindCallable r name callable => exact absurd rfl (hop r name callable)
    | bindMethod ty name func =>
      rcases perform_bindMethod before.sound ty name func with ⟨hok, hbound⟩ | ⟨⟨e, he⟩, s⟩
      · simp only [Bindings.after, hok]
        exact hbinds before hbound ih
      · simp only [Bindings.after, he]
        exact hsteps (by simp [Act.building]) s before.sound ih
    | _ => exact hquiet (by simp [Operation.acts, Act.building, Act.resolving]) rfl

/-- **Where callables are attached only by binding methods, each belongs to the method that it was
last bound for.** -/
theorem BoundBy.attributed (h : BoundBy allowed B u) : Attributed B u := by
  refine h.keeps (P := Attributed) ?_ Steps.attributed ?_
  · exact fun r name callable hc =>
      absurd (ReprTable.lt_size_of_callable? hc) (Nat.not_lt_zero _)
  · exact fun before hbound hB => hbound.attributed before.sound hB

end ScriptEngine.Universe
