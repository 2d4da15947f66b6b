import ScriptEngine.Proofs.Fallible
import ScriptEngine.Proofs.Repr.Display
import ScriptEngine.Universe.Resolve

/-!
Making the slot of a method, as a function of the universe.

`ReprTable.search` looks for the callable of a method on the representation of a type and on that of
pointers to it; `Universe.slotFor` is what a slot is made of, and `run_synthesize` says that
`synthesize` answers exactly that. Neither changes while representations are only built
(`ReprTable.Prolongs.search`, `slotFor_eq`). `Provides` says what the filled slots of a method table
hold; a table that held it holds it still when types are declared or representations are built
(`Provides.grows`, `Provides.prolongs`).
-/

namespace ScriptEngine

/-! ### Searching for a callable -/

namespace ReprTable

/-- What `Universe.boundCallable` finds, with the table it leaves. -/
def search (t : ReprTable) (repr : ReprId) (name : String) : Option Callable × ReprTable :=
  match t.callable? repr name with
  | some callable => (some callable, t)
  | none => match t.kind repr with
    | .pointer _ => (none, t)
    | _ => ((t.pointerTo repr).2.callable? (t.pointerTo repr).1 name, (t.pointerTo repr).2)

/-- The callable is bound to the representation of pointers to `repr`, where it is looked for unless
`repr` is a pointer itself. -/
def OnPointer (t : ReprTable) (repr : ReprId) (name : String) (callable : Callable) : Prop :=
  (∀ elem, t.kind repr ≠ .pointer elem) ∧
    ∃ p, t.Interned (.pointer repr) p ∧ t.callable? p name = some callable

/-- The callable is bound to a representation or to that of pointers to it. -/
def Attached (t : ReprTable) (repr : ReprId) (name : String) (callable : Callable) : Prop :=
  t.callable? repr name = some callable ∨ t.OnPointer repr name callable

variable {t t' : ReprTable} {repr : ReprId} {name : String} {callable : Callable}

theorem prolongs_search (t : ReprTable) (repr : ReprId) (name : String) :
    Prolongs t (t.search repr name).2 := by
  unfold search
  split
  · exact .refl t
  split
  · exact .refl t
  · exact prolongs_intern t _

/-- A callable on the pointers that were just asked for was there before. -/
theorem callable?_pointerTo :
    (t.pointerTo repr).2.callable? (t.pointerTo repr).1 name = some callable ↔
      ∃ p, t.Interned (.pointer repr) p ∧ t.callable? p name = some callable := by
  have hprolongs := prolongs_intern t (.pointer repr)
  have hinterned := t.interned_intern (.pointer repr)
  rw [pointerTo, hprolongs.callables]
  constructor
  · intro h
    exact ⟨_, (hprolongs.extended.interned_iff (lt_size_of_callable? h)).mp hinterned, h⟩
  · rintro ⟨p, hp, h⟩
    rwa [hp.intern]

/-- **The representation itself comes first, and then its pointers.** -/
theorem search_eq_some : (t.search repr name).1 = some callable ↔
    t.callable? repr name = some callable ∨
      t.callable? repr name = none ∧ t.OnPointer repr name callable := by
  unfold search OnPointer
  cases hown : t.callable? repr name with
  | some own => simp
  | none =>
    cases hkind : t.kind repr with
    | pointer elem => simp
    | _ => simp [callable?_pointerTo]

theorem attached_of_search (h : (t.search repr name).1 = some callable) :
    t.Attached repr name callable :=
  (search_eq_some.mp h).imp_right And.right

section Prolongs

variable (h : Prolongs t t') (hrepr : repr.index < t.size)
include h hrepr

theorem Prolongs.onPointer : t'.OnPointer repr name callable ↔ t.OnPointer repr name callable := by
  unfold OnPointer
  rw [h.extended.kind_eq hrepr]
  refine and_congr_right fun _ => exists_congr fun p => ?_
  rw [h.callables]
  exact and_congr_left fun hp => h.extended.interned_iff (lt_size_of_callable? hp)

theorem Prolongs.attached : t'.Attached repr name callable ↔ t.Attached repr name callable := by
  rw [Attached, Attached, h.callables, h.onPointer hrepr]

/-- Building representations changes nothing that a search finds. -/
theorem Prolongs.search : (t'.search repr name).1 = (t.search repr name).1 := by
  refine Option.ext fun callable => ?_
  rw [search_eq_some, search_eq_some, h.callables, h.onPointer hrepr]

end Prolongs

end ReprTable

/-! ### The slot of a method -/

namespace MethodSlot

/-- A runtime type has the declared parameters and, if there is one, the receiver. -/
def Fits (slot : MethodSlot) (m : MethodDecl) : Prop :=
  ∀ f, slot.ty = some f → f.params.length = m.sig.runtimeArity

/-- A declaration with its slot. -/
def paired (slot : MethodSlot) (ty : TypeId) (index : Nat) (m : MethodDecl) : Method :=
  ⟨ty, index, m, slot.ty.map fun f => ⟨m.sig, f⟩, slot.func⟩

/-- The slot of a bound method. -/
def ofCallable (callable : Callable) : MethodSlot :=
  ⟨some callable.ty, some callable.func⟩

/-- The representations of a slot's type. -/
def parts (slot : MethodSlot) : List ReprId :=
  (slot.ty.map FuncRepr.parts).getD []

end MethodSlot

namespace Universe

variable {u : Universe} {ty : TypeId} {index : Nat} {m : MethodDecl} {repr : ReprId}
  {slot : MethodSlot}

/-- What `synthesize` answers. -/
def slotFor (u : Universe) (ty : TypeId) (index : Nat) (m : MethodDecl) (repr : ReprId) :
    Except TypeError Synthesized :=
  if (u.catalog.interface? ty).isSome then
    u.interfaceSlot ty index m.name repr
  else match (u.reprs.search repr m.name).1 with
    | some callable => .ok ⟨.ofCallable callable, true⟩
    | none =>
      if Text.isExported m.name then .error (.methodNotFound (u.catalog.typeName ty) m.name)
      else .ok ⟨.blank, false⟩

/-- The universe that `synthesize` leaves. -/
def searched (u : Universe) (ty : TypeId) (name : String) (repr : ReprId) : Universe :=
  if (u.catalog.interface? ty).isSome then u
  else { u with reprs := (u.reprs.search repr name).2 }

theorem run_boundCallable (u : Universe) (repr : ReprId) (name : String) :
    (boundCallable repr name).run.run u =
      (.ok (u.reprs.search repr name).1, { u with reprs := (u.reprs.search repr name).2 }) := by
  have hends : Ends (boundCallable repr name) u (fun a u' => a = (u.reprs.search repr name).1 ∧
      u' = { u with reprs := (u.reprs.search repr name).2 }) fun _ _ => False := by
    unfold boundCallable ReprTable.search
    rw [ends_bind, ends_get]
    dsimp only
    cases u.reprs.callable? repr name with
    | some callable => exact ⟨rfl, rfl⟩
    | none => cases u.reprs.kind repr <;> exact ⟨rfl, rfl⟩
  obtain ⟨a, u', hrun, rfl, rfl⟩ := hends.exists_ok
  exact hrun

theorem ends_ofExcept {α : Type} {r : Except TypeError α} {V : α → Universe → Prop}
    {X : TypeError → Universe → Prop} :
    Ends (ofExcept r) u V X ↔ (∀ a, r = .ok a → V a u) ∧ ∀ e, r = .error e → X e u := by
  cases r with
  | ok a => simp [ofExcept]
  | error e => simp [ofExcept]

/-- **A slot is made as `slotFor` says**; on the way, the pointers to a representation may be
made. -/
theorem ends_synthesize {V : Synthesized → Universe → Prop} {X : TypeError → Universe → Prop} :
    Ends (synthesize ty index m repr) u V X ↔
      (∀ made, u.slotFor ty index m repr = .ok made → V made (u.searched ty m.name repr)) ∧
        ∀ e, u.slotFor ty index m repr = .error e → X e (u.searched ty m.name repr) := by
  unfold synthesize slotFor searched
  rw [ends_bind, ends_get]
  by_cases hiface : (u.catalog.interface? ty).isSome = true
  · simp only [if_pos hiface]
    exact ends_ofExcept
  · simp only [if_neg hiface]
    rw [ends_bind, ends_of_ok (run_boundCallable u repr m.name)]
    cases (u.reprs.search repr m.name).1 with
    | some callable => simp [MethodSlot.ofCallable]
    | none => by_cases hexported : Text.isExported m.name = true <;> simp [hexported]

/-- A method is answered exactly if its slot fits its declaration. -/
theorem makeMethod_of_fits (h : slot.Fits m) :
    u.makeMethod ty index m slot = .ok (slot.paired ty index m) := by
  unfold makeMethod
  cases hty : slot.ty with
  | none => simp [MethodSlot.paired, hty]
  | some f => simp [MethodSlot.paired, hty, h f hty]

theorem fits_of_makeMethod {method : Method} (h : u.makeMethod ty index m slot = .ok method) :
    slot.Fits m ∧ method = slot.paired ty index m := by
  have hfits : slot.Fits m := by
    intro f hf
    unfold makeMethod at h
    simp only [hf] at h
    split at h
    · assumption
    · cases h
  rw [makeMethod_of_fits hfits] at h
  exact ⟨hfits, (Except.ok.inj h).symm⟩

/-! ### While representations are built -/

theorem exists_body_of_emulatedFields? {t : ReprTable} {fields : List ReprField}
    (h : t.emulatedFields? repr = some fields) :
    ∃ body, t.kind repr = .pointer body ∧ t.kind body = .struct fields := by
  unfold ReprTable.emulatedFields? at h
  split at h
  · next body hbody =>
    split at h
    · next fields' hfields =>
      split at h
      · next first rest =>
        split at h
        · cases h
          exact ⟨body, hbody, hfields⟩
        · cases h
      · cases h
    · cases h
  · cases h

section Prolongs

variable {t : ReprTable}
  (bounds : ∀ r, ∀ p ∈ (u.reprs.kind r).parts, p.index < u.reprs.size)
include bounds

theorem emulatedFields?_eq (h : ReprTable.Extends u.reprs t) (hrepr : repr.index < u.reprs.size) :
    t.emulatedFields? repr = u.reprs.emulatedFields? repr := by
  have hkind : ∀ {r : ReprId}, r.index < u.reprs.size → t.kind r = u.reprs.kind r := h.kind_eq
  unfold ReprTable.emulatedFields?
  rw [hkind hrepr]
  split
  · next body hbody =>
    have hlt := bounds repr body (by rw [hbody]; exact List.mem_singleton_self _)
    rw [hkind hlt]
    split
    · next fields hfields =>
      split
      · next first rest =>
        rw [hkind (bounds body first.repr (by rw [hfields]; exact List.mem_cons_self ..))]
      · rfl
    · rfl
  · rfl

theorem interfaceSlot_eq (h : ReprTable.Extends u.reprs t) (hrepr : repr.index < u.reprs.size)
    (name : String) : interfaceSlot { u with reprs := t } ty index name repr =
      u.interfaceSlot ty index name repr := by
  unfold interfaceSlot
  simp only [emulatedFields?_eq bounds h hrepr, h.kind_eq hrepr, h.reprName bounds hrepr]
  split
  · next fields hfields =>
    obtain ⟨body, -, hbody⟩ := exists_body_of_emulatedFields? hfields
    have hfield : ∀ f, fields[index + interfaceSlotOffset]? = some f →
        t.kind f.repr = u.reprs.kind f.repr := fun f hf => by
      refine h.kind_eq (bounds body f.repr ?_)
      rw [hbody]
      exact List.mem_map_of_mem (List.mem_of_getElem? hf)
    cases hf : fields[index + interfaceSlotOffset]? with
    | none => rfl
    | some f => simp only [Option.map_some, hfield f hf]
  · rfl

/-- **Building representations does not change what a slot is made of.** -/
theorem slotFor_eq (h : ReprTable.Prolongs u.reprs t) (hrepr : repr.index < u.reprs.size) :
    slotFor { u with reprs := t } ty index m repr = u.slotFor ty index m repr := by
  unfold slotFor
  simp only [interfaceSlot_eq bounds h.extended hrepr, h.search hrepr]

/-- **Building representations does not change how a method is answered.** -/
theorem makeMethod_eq (h : ReprTable.Extends u.reprs t)
    (hparts : ∀ p ∈ slot.parts, p.index < u.reprs.size) :
    makeMethod { u with reprs := t } ty index m slot = u.makeMethod ty index m slot := by
  unfold makeMethod
  cases hty : slot.ty with
  | none => rfl
  | some f =>
    have hname : t.funcName f = u.reprs.funcName f := by
      refine h.funcName bounds fun p hp => hparts p ?_
      rwa [MethodSlot.parts, hty]
    simp only [hname]

end Prolongs

/-- What an interface answers does not depend on the names of types. -/
theorem interfaceSlot_of_catalog {name : String} {made : Synthesized}
    (h : u.interfaceSlot ty index name repr = .ok made) (catalog : Catalog) :
    interfaceSlot { u with catalog } ty index name repr = .ok made := by
  revert h
  unfold interfaceSlot
  dsimp only
  cases u.reprs.emulatedFields? repr with
  | some fields =>
    dsimp only
    cases (fields[index + interfaceSlotOffset]?).map fun f => u.reprs.kind f.repr with
    | none => nofun
    | some kind =>
      cases kind with
      | func f => exact id
      | _ => nofun
  | none =>
    cases u.reprs.kind repr with
    | interface methods =>
      dsimp only
      split
      · cases (ReprKind.interface methods).nativeMethod? name with
        | none => nofun
        | some found =>
          dsimp only
          split
          · exact id
          · nofun
      · exact id
    | _ => nofun

/-! ### Filled slots -/

/-- A method table may hold `slot` for the method at an index of a type represented by `repr`: the
type has that method, the slot fits it, and it is the one of an interface or that of a callable
bound for the method. -/
structure Provides (u : Universe) (ty : TypeId) (index : Nat) (m : MethodDecl) (repr : ReprId)
    (slot : MethodSlot) : Prop where
  decl : methodAt u.catalog ty index = .ok m
  fits : slot.Fits m
  interface : (u.catalog.interface? ty).isSome = true →
    u.interfaceSlot ty index m.name repr = .ok ⟨slot, true⟩
  bound : (u.catalog.interface? ty).isSome = false →
    ∃ callable, u.reprs.Attached repr m.name callable ∧ slot = .ofCallable callable

/-- What can be kept may be held. -/
theorem provides_of_slotFor (hm : methodAt u.catalog ty index = .ok m) (hfits : slot.Fits m)
    (h : u.slotFor ty index m repr = .ok ⟨slot, true⟩) : u.Provides ty index m repr slot := by
  refine ⟨hm, hfits, fun hiface => ?_, fun hiface => ?_⟩
  · rwa [slotFor, if_pos hiface] at h
  · rw [slotFor, hiface, if_neg (by decide)] at h
    split at h
    · next callable hfound =>
      exact ⟨callable, ReprTable.attached_of_search hfound, by cases h; rfl⟩
    · split at h <;> cases h

theorem methodAt_eq_ok {c : Catalog} : methodAt c ty index = .ok m ↔
    c.kindOf ty ≠ .ptr ∧ (c.isNamed ty = true ∨ c.kindOf ty = .interface) ∧
      (c.methods ty)[index]? = some m := by
  unfold methodAt
  dsimp only
  by_cases hptr : c.kindOf ty = .ptr
  · simp [hptr]
  by_cases hcannot : (!c.isNamed ty && c.kindOf ty != .interface) = true
  · rw [if_neg hptr, if_pos hcannot]
    simp only [Bool.and_eq_true, Bool.not_eq_true', bne_iff_ne] at hcannot
    simp [hcannot]
  · have howner : c.isNamed ty = true ∨ c.kindOf ty = .interface := by
      simpa [or_iff_not_imp_left] using hcannot
    rw [if_neg hptr, if_neg hcannot]
    cases hm : (c.methods ty)[index]? with
    | some m' => simp [hptr, howner]
    | none => simp

/-- A method that can be asked for has an index below the number of methods. -/
theorem lt_numMethod_of_methodAt {c : Catalog} (h : methodAt c ty index = .ok m) :
    index < c.numMethod ty :=
  (List.getElem?_eq_some_iff.mp (methodAt_eq_ok.mp h).2.2).1

theorem Provides.grows {c : Catalog} (h : u.Provides ty index m repr slot)
    (g : Catalog.Grows u.catalog c) (hkind : u.catalog.kindOf ty ≠ .invalid) :
    Provides { u with catalog := c } ty index m repr slot := by
  have hiface : c.interface? ty = u.catalog.interface? ty := g.interface? hkind
  refine ⟨methodAt_eq_ok.mpr ?_, h.fits, fun hi => ?_, fun hi => ?_⟩
  · obtain ⟨hptr, howner, hm⟩ := methodAt_eq_ok.mp h.decl
    rw [g.kindOf hkind, g.isNamed (Catalog.lt_size_of_kindOf hkind)]
    exact ⟨hptr, howner, g.methods hkind hm⟩
  · exact interfaceSlot_of_catalog (h.interface (hiface ▸ hi)) c
  · exact h.bound (hiface ▸ hi)

theorem Provides.prolongs {t : ReprTable} (h : u.Provides ty index m repr slot)
    (ht : ReprTable.Prolongs u.reprs t)
    (bounds : ∀ r, ∀ p ∈ (u.reprs.kind r).parts, p.index < u.reprs.size)
    (hrepr : repr.index < u.reprs.size) :
    Provides { u with reprs := t } ty index m repr slot := by
  refine ⟨h.decl, h.fits, fun hi => ?_, fun hi => ?_⟩
  · rw [interfaceSlot_eq bounds ht.extended hrepr]
    exact h.interface hi
  · obtain ⟨callable, hattached, hslot⟩ := h.bound hi
    exact ⟨callable, (ht.attached hrepr).mpr hattached, hslot⟩

end Universe

end ScriptEngine
