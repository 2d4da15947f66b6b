import Mathlib
import ScriptEngine.Proofs.Universe.History

/-!
Descriptors agree with the types they describe, and the counters with the descriptors.

A descriptor is made once, while its type keeps gaining methods; its slots are filled from
interfaces and from callables, and emptied when a callable is replaced. `Tabulated` is what every
step keeps (`Step.tabulated`): the class of a descriptor is that of its type, its table has no more
places than the type has methods, each descriptor was counted, and so was every slot that is filled.
Main statement: `descriptors_agree`.
-/

namespace ScriptEngine

/-! ### Sums over a map -/

namespace Assoc

variable {κ ν : Type}

/-- The sum of `f` over the values. -/
def total (m : Assoc κ ν) (f : ν → Nat) : Nat :=
  (m.entries.map fun e => f e.2).sum

theorem total_mapValues_le (m : Assoc κ ν) {f : ν → Nat} {g : ν → ν} (h : ∀ v, f (g v) ≤ f v) :
    (m.mapValues g).total f ≤ m.total f := by
  unfold total mapValues
  rw [List.map_map]
  exact List.sum_le_sum fun e _ => h e.2

theorem keys_mapValues {μ : Type} (m : Assoc κ ν) (f : ν → μ) : (m.mapValues f).keys = m.keys := by
  simp [keys, mapValues]

theorem size_mapValues {μ : Type} (m : Assoc κ ν) (f : ν → μ) : (m.mapValues f).size = m.size := by
  simp [size, mapValues]

variable [DecidableEq κ]

/-- A write adds what the new value counts for and takes away what the old one did. -/
theorem total_set (m : Assoc κ ν) (f : ν → Nat) (k : κ) (v : ν) :
    (m.set k v).total f + ((m.find? k).map f).getD 0 = m.total f + f v := by
  obtain ⟨entries⟩ := m
  unfold total set find?
  induction entries with
  | nil => simp [setIn, findIn]
  | cons e rest ih =>
    rw [setIn, findIn]
    split
    · simp only [List.map_cons, List.sum_cons, Option.map_some, Option.getD_some]
      omega
    · simp only [List.map_cons, List.sum_cons] at ih ⊢
      omega

theorem nodup_keys_set {m : Assoc κ ν} (h : m.keys.Nodup) (k : κ) (v : ν) :
    (m.set k v).keys.Nodup := by
  rw [keys_set]
  split
  · exact h
  · next hk =>
    refine List.nodup_append.mpr ⟨h, List.nodup_singleton k, fun a ha b hb => ?_⟩
    rw [List.mem_singleton.mp hb]
    exact ne_of_mem_of_not_mem ha hk

end Assoc

/-! ### Filled slots -/

namespace Descriptor

variable {d : Descriptor}

theorem cachedCount_resize {count : Nat} (h : d.slots.length ≤ count) :
    (d.resize count).cachedCount = d.cachedCount := by
  simp [cachedCount, resize, List.take_of_length_le h, List.countP_append, List.countP_replicate]

theorem cachedCount_fill {index : Nat} (hlt : index < d.slots.length)
    (hempty : d.slot? index = none) (slot : MethodSlot) :
    (d.fill index slot).cachedCount = d.cachedCount + 1 := by
  have hnone : d.slots[index] = none := by
    simpa [slot?, List.getElem?_eq_getElem hlt] using hempty
  simp [cachedCount, fill, List.countP_set hlt, hnone]

theorem cachedCount_forget_le (func : FuncId) (d : Descriptor) :
    (d.forget func).cachedCount ≤ d.cachedCount := by
  unfold cachedCount forget
  rw [List.countP_map]
  refine List.countP_mono_left fun s _ hs => ?_
  cases s with
  | none => exact hs
  | some slot => rfl

end Descriptor

/-- The descriptor has the class of the type and knows whether it is named, and its table has no
more places than the type has methods. -/
structure Descriptor.Agrees (d : Descriptor) (c : Catalog) (ty : TypeId) : Prop where
  kind : d.kind = c.kindOf ty
  named : d.named = c.isNamed ty
  length : d.slots.length ≤ c.numMethod ty

/-- Types keep the class that their descriptors were made for, and only gain methods. -/
theorem Descriptor.Agrees.grows {d : Descriptor} {c c' : Catalog} {ty : TypeId}
    (h : d.Agrees c ty) (g : Catalog.Grows c c') (hkind : c.kindOf ty ≠ .invalid) :
    d.Agrees c' ty where
  kind := h.kind.trans (g.kindOf hkind).symm
  named := h.named.trans (g.isNamed (Catalog.lt_size_of_kindOf hkind)).symm
  length := Nat.le_trans h.length (g.numMethod_le hkind)

theorem Descriptor.Agrees.forget {d : Descriptor} {c : Catalog} {ty : TypeId} (h : d.Agrees c ty)
    (func : FuncId) : (d.forget func).Agrees c ty :=
  ⟨h.kind, h.named, by rw [Descriptor.forget, List.length_map]; exact h.length⟩

namespace Universe

/-- The number of method slots that are filled. -/
def filledSlots (u : Universe) : Nat :=
  u.descriptors.total Descriptor.cachedCount

/-! ### What every step keeps -/

/-- Descriptors agree with their types, and the counters with the descriptors. -/
structure Tabulated (u : Universe) : Prop where
  agrees : ∀ ty d, u.descriptors.find? ty = some d → d.Agrees u.catalog ty
  once : u.descriptors.keys.Nodup
  described : u.described = u.descriptors.size
  filled : u.filledSlots ≤ u.synthesized

theorem tabulated_empty : Tabulated .empty where
  agrees _ _ h := by cases h
  once := List.nodup_nil
  described := rfl
  filled := Nat.le_refl 0

section Steps

variable {u u' : Universe} {ty : TypeId} {a : Act}

/-- But for binding, the counter of slots rises with the slots that are filled. -/
theorem Step.filledSlots_eq (s : Step u a u') (ha : a ≠ .bind) (ht : Tabulated u) :
    u'.filledSlots + u.synthesized = u.filledSlots + u'.synthesized := by
  cases s with
  | bind => exact absurd rfl ha
  | describe ty r fresh =>
    have htotal := u.descriptors.total_set Descriptor.cachedCount ty
      ⟨u.catalog.kindOf ty, u.catalog.isNamed ty, r, []⟩
    rw [fresh] at htotal
    exact congrArg (· + u.synthesized) htotal
  | resize ty d hd =>
    have htotal := u.descriptors.total_set Descriptor.cachedCount ty
      (d.resize (u.catalog.numMethod ty))
    rw [hd, Descriptor.cachedCount_resize (ht.agrees ty d hd).length] at htotal
    exact congrArg (· + u.synthesized) (Nat.add_right_cancel htotal)
  | fill ty index m d slot hd hempty hlt =>
    have htotal := u.descriptors.total_set Descriptor.cachedCount ty (d.fill index slot)
    rw [hd, Descriptor.cachedCount_fill hlt hempty, Option.map_some, Option.getD_some] at htotal
    show (u.descriptors.set ty (d.fill index slot)).total Descriptor.cachedCount + u.synthesized =
      u.descriptors.total Descriptor.cachedCount + (u.synthesized + 1)
    omega
  | _ => rfl

/-- Binding a callable only empties slots. -/
theorem Tabulated.bindCallable (ht : Tabulated u) (r : ReprId) (name : String)
    (callable : Callable) : Tabulated (u.bindCallable r name callable) := by
  have hle : (u.bindCallable r name callable).filledSlots ≤ u.filledSlots := by
    unfold filledSlots
    rw [descriptors_bindCallable]
    split
    · exact Assoc.total_mapValues_le _ (Descriptor.cachedCount_forget_le _)
    · exact Nat.le_refl _
  refine ⟨fun ty d' hd' => ?_, ?_, ?_, ?_⟩
  · rw [descriptors_bindCallable] at hd'
    rw [catalog_bindCallable]
    split at hd'
    · rw [Assoc.find?_mapValues, Option.map_eq_some_iff] at hd'
      obtain ⟨d, hd, rfl⟩ := hd'
      exact (ht.agrees ty d hd).forget _
    · exact ht.agrees ty d' hd'
  · rw [descriptors_bindCallable]
    split
    · rw [Assoc.keys_mapValues]
      exact ht.once
    · exact ht.once
  · rw [described_bindCallable, ht.described, descriptors_bindCallable]
    split
    · rw [Assoc.size_mapValues]
    · rfl
  · rw [synthesized_bindCallable]
    exact Nat.le_trans hle ht.filled

/-- Writing a descriptor that agrees with its type, and is counted if it is new. -/
theorem Tabulated.setDescriptor (ht : Tabulated u) {d : Descriptor} {described synthesized : Nat}
    (hd : d.Agrees u.catalog ty)
    (hdescribed : described = if (u.descriptors.find? ty).isSome then u.described
      else u.described + 1)
    (hfilled :
      filledSlots { u with descriptors := u.descriptors.set ty d, described, synthesized } +
        u.synthesized = u.filledSlots + synthesized) :
    Tabulated { u with descriptors := u.descriptors.set ty d, described, synthesized } := by
  refine ⟨fun n e he => ?_, Assoc.nodup_keys_set ht.once ty d, ?_, ?_⟩
  · rcases Assoc.find?_set he with ⟨rfl, rfl⟩ | he
    · exact hd
    · exact ht.agrees n e he
  · show described = (u.descriptors.set ty d).size
    rw [Assoc.size_set, hdescribed, ht.described]
  · have hle := ht.filled
    show filledSlots _ ≤ synthesized
    omega

/-- **Every step keeps descriptors in agreement with their types and with the counters.** -/
theorem Step.tabulated (s : Step u a u') (h : Sound u) (ht : Tabulated u) : Tabulated u' := by
  have hfilled : a ≠ .bind → _ := fun ha => s.filledSlots_eq ha ht
  cases s with
  | declare catalog change =>
    refine ⟨fun ty d hd => ?_, ht.once, ht.described, ht.filled⟩
    exact (ht.agrees ty d hd).grows change.grows (h.kindOf_ne_invalid (h.descriptors ty d hd))
  | bind r name callable => exact ht.bindCallable r name callable
  | describe ty r fresh =>
    refine ht.setDescriptor ⟨rfl, rfl, Nat.zero_le _⟩ ?_ (hfilled nofun)
    rw [fresh]
    rfl
  | resize ty d hd =>
    have hold := ht.agrees ty d hd
    refine ht.setDescriptor ⟨hold.kind, hold.named, ?_⟩ ?_ (hfilled nofun)
    · rw [Descriptor.length_resize]
    · rw [hd]
      rfl
  | fill ty index m d slot hd =>
    have hold := ht.agrees ty d hd
    refine ht.setDescriptor ⟨hold.kind, hold.named, ?_⟩ ?_ (hfilled nofun)
    · rw [Descriptor.fill, List.length_set]
      exact hold.length
    · rw [hd]
      rfl
  | _ => exact ⟨ht.agrees, ht.once, ht.described, ht.filled⟩

end Steps

/-! ### After a resolution -/

/-- The type has a descriptor with a place for each of its methods. -/
def Tabled (u : Universe) (ty : TypeId) : Prop :=
  ∃ d, u.descriptors.find? ty = some d ∧ d.slots.length = u.catalog.numMethod ty

section Resolve

variable {u u' : Universe} {ty : TypeId} {index : Nat} {m : MethodDecl} {a : Act} {A : Set Act}

/-- Without declarations, a table keeps a place for each method. -/
theorem Step.tabled (s : Step u a u') (ha : a ≠ .declare) (h : u.Tabled ty) : u'.Tabled ty := by
  obtain ⟨d, hd, hlength⟩ := h
  have hwrite : ∀ {n : TypeId} {e : Descriptor},
      (n = ty → e.slots.length = u.catalog.numMethod ty) →
      ∃ d', (u.descriptors.set n e).find? ty = some d' ∧
        d'.slots.length = u.catalog.numMethod ty := by
    intro n e he
    by_cases hn : ty = n
    · subst hn
      exact ⟨e, Assoc.find?_set_self .., he rfl⟩
    · exact ⟨d, by rw [Assoc.find?_set_of_ne _ hn, hd], hlength⟩
  cases s with
  | declare => exact absurd rfl ha
  | bind r name callable =>
    rw [Tabled, descriptors_bindCallable, catalog_bindCallable]
    split
    · refine ⟨d.forget _, by rw [Assoc.find?_mapValues, hd]; rfl, ?_⟩
      rw [Descriptor.forget, List.length_map]
      exact hlength
    · exact ⟨d, hd, hlength⟩
  | describe n r fresh =>
    refine ⟨d, ?_, hlength⟩
    rw [Assoc.find?_set_of_ne _ ?_, hd]
    rintro rfl
    cases fresh.symm.trans hd
  | resize n e he =>
    refine hwrite ?_
    rintro rfl
    exact Descriptor.length_resize ..
  | fill n index m e slot he =>
    refine hwrite ?_
    rintro rfl
    cases he.symm.trans hd
    rw [Descriptor.fill, List.length_set]
    exact hlength
  | _ => exact ⟨d, hd, hlength⟩

theorem Steps.tabled (hA : .declare ∉ A) (s : Steps A u u') (h : Sound u) (ht : u.Tabled ty) :
    u'.Tabled ty :=
  (s.keeps (P := fun v => v.Tabled ty)
    (fun ha step _ hv => step.tabled (fun heq => hA (heq ▸ ha)) hv) h ht).2

/-- Resolving with a descriptor leaves a place for each method, whether it fails or not. -/
theorem ends_resolveWith_tabled (h : Sound u) {d : Descriptor}
    (hd : u.descriptors.find? ty = some d) (hm : methodAt u.catalog ty index = .ok m) :
    Ends (resolveWith ty index m (d.resize (u.catalog.numMethod ty))) u
      (fun _ u' => u'.Tabled ty) (fun _ u' => u'.Tabled ty) := by
  have hresize := Step.resize ty d hd
  have htabled : Tabled { u with
      descriptors := u.descriptors.set ty (d.resize (u.catalog.numMethod ty)) } ty :=
    ⟨_, Assoc.find?_set_self .., Descriptor.length_resize ..⟩
  unfold resolveWith setDescriptor
  refine ends_bind.mpr ((ends_modify _).mpr ?_)
  cases hfilled : (d.resize (u.catalog.numMethod ty)).slot? index with
  | some slot =>
    exact ends_bind.mpr (ends_get.mpr (ends_ofExcept.mpr
      ⟨fun _ _ => htabled, fun _ _ => htabled⟩))
  | none =>
    have hquiet := Act.resolving_subset_quiet ty index
    refine Ends.mono (ends_synthesizeKept hquiet (hresize.sound h) (Assoc.find?_set_self ..)
      hfilled ?_ hm) (fun _ _ ⟨s, _⟩ => ?_) fun _ _ ⟨s, _⟩ => ?_
    · rw [Descriptor.length_resize]
      exact lt_numMethod_of_methodAt hm
    · exact Steps.tabled (fun hA => hA.1.1 rfl) s (hresize.sound h) htabled
    · exact Steps.tabled (fun hA => hA.1.1 rfl) s (hresize.sound h) htabled

/-- **A resolution that gets as far as the descriptor leaves a place for each method**, whatever it
answers. -/
theorem tabled_resolve (h : Sound u) (hm : methodAt u.catalog ty index = .ok m) {d : Descriptor}
    {u₁ : Universe} (hdescriptor : (descriptor ty).run.run u = (.ok d, u₁)) :
    ((resolve ty index).run.run u).2.Tabled ty := by
  obtain ⟨s, hd, -⟩ := (ends_descriptor subset_rfl h).ok hdescriptor
  have hcatalog : u₁.catalog = u.catalog := Steps.catalog_eq (by simp) s h
  have hends := ends_resolveWith_tabled (Steps.sound s h) hd (hcatalog ▸ hm)
  rw [hcatalog] at hends
  have hresolve : Ends (resolve ty index) u (fun _ u' => u'.Tabled ty)
      (fun _ u' => u'.Tabled ty) := by
    unfold resolve
    rw [ends_bind, ends_get]
    dsimp only
    rw [hm, ofExcept, ends_bind, ends_pure, ends_bind, ends_of_ok hdescriptor]
    exact hends
  exact hresolve.state

end Resolve

end Universe

/-! ### Answers -/

/-- A slot that fits a method with a receiver takes one parameter more than is declared. -/
theorem MethodSlot.Fits.length_params {slot : MethodSlot} {m : MethodDecl} (h : slot.Fits m)
    (hrecv : m.sig.recv.isSome = true) {f : FuncRepr} (hf : slot.ty = some f) :
    f.params.length = m.sig.params.length + 1 := by
  rw [h f hf, Signature.runtimeArity, if_pos hrecv]

/-- A resolved method has a receiver, and its runtime type takes that before what is declared. -/
structure Method.Received (method : Method) : Prop where
  receiver : method.decl.sig.recv.isSome = true
  runtime : ∀ t, method.ty = some t → t.signature = method.decl.sig ∧
    t.runtime.params.length = method.decl.sig.params.length + 1

namespace Universe

section Answers

variable {u : Universe} {ty : TypeId} {index : Nat} {m : MethodDecl} {slot : MethodSlot}
  {method : Method}

theorem received_of_makeMethod (hrecv : m.sig.recv.isSome = true)
    (h : u.makeMethod ty index m slot = .ok method) : method.Received := by
  obtain ⟨hfits, rfl⟩ := fits_of_makeMethod h
  refine ⟨hrecv, fun t ht => ?_⟩
  obtain ⟨f, hf, rfl⟩ := Option.map_eq_some_iff.mp ht
  exact ⟨rfl, hfits.length_params hrecv hf⟩

theorem received_of_answer (hrecv : ∀ m ∈ u.catalog.methods ty, m.sig.recv.isSome = true)
    (h : u.answer ty index = .ok method) : method.Received := by
  unfold answer at h
  split at h
  · cases h
  next m hm =>
  have hrecv := hrecv m (List.mem_of_getElem? (methodAt_eq_ok.mp hm).2.2)
  split at h
  · next repr reprs _ =>
    unfold answerAt at h
    split at h
    · exact received_of_makeMethod hrecv h
    · split at h
      · exact received_of_makeMethod hrecv h
      · cases h
  · cases h

/-- The cache never tells of an error: what it holds fits. -/
theorem exists_ok_of_cached? (h : Sound u) {answered : Except TypeError Method}
    (hcached : u.cached? ty index = some answered) : ∃ method, answered = .ok method := by
  unfold cached? at hcached
  split at hcached
  · cases hcached
  next slot hslot =>
  obtain ⟨m, r, -, hprovides⟩ := h.slot_provided hslot
  rw [(methodAt_eq_ok.mp hprovides.decl).2.2] at hcached
  simp only [makeMethod_of_fits hprovides.fits, Option.some.injEq] at hcached
  exact ⟨_, hcached.symm⟩

/-- The slots of an interface have no callable. -/
theorem Provides.func_eq_none {repr : ReprId} (h : u.Provides ty index m repr slot)
    (hiface : (u.catalog.interface? ty).isSome = true) : slot.func = none :=
  (cacheable_of_interfaceSlot (h.interface hiface)).2

end Answers

/-! ### Replaced callables -/

/-- The representation and the name that an operation binds a callable under, if it does. A method
is bound to the representation of its receiver, which its callable takes first. -/
def binds? (u : Universe) : Operation → Option (ReprId × String)
  | .bindCallable r name _ => some (r, name)
  | .bindMethod ty name func => match ((bindMethod ty name func).run.run u).1 with
    | .ok callable => callable.ty.params.head?.map fun r => (r, name)
    | .error _ => none
  | _ => none

/-- An operation replaces a callable that was bound before. -/
def rebinds (u : Universe) (op : Operation) : Bool :=
  match u.binds? op with
  | some (r, name) => (u.reprs.callable? r name).isSome
  | none => false

/-- The universes that operations lead to of which none replaced a callable. -/
abbrev NeverRebound : Universe → Prop :=
  ReachableBy fun u op => u.rebinds op = false

section Rebinding

variable {u u' : Universe} {A : Set Act}

theorem callable?_of_binds? {op : Operation} (hnew : u.rebinds op = false) {r : ReprId}
    {name : String} (h : u.binds? op = some (r, name)) : u.reprs.callable? r name = none := by
  rw [rebinds, h] at hnew
  simpa using hnew

/-- All slots that were counted are filled. -/
def AllFilled (u : Universe) : Prop :=
  u.filledSlots = u.synthesized

theorem Steps.allFilled (hA : .bind ∉ A) (s : Steps A u u') (h : Sound u) (ht : Tabulated u)
    (hfilled : u.AllFilled) : u'.AllFilled := by
  refine (s.keeps (P := fun v => Tabulated v ∧ v.AllFilled) (fun {a v v'} ha step hv hP => ?_) h
    ⟨ht, hfilled⟩).2.2
  have heq := step.filledSlots_eq (fun hbind => hA (hbind ▸ ha)) hP.1
  refine ⟨step.tabulated hv hP.1, ?_⟩
  have hprev : v.filledSlots = v.synthesized := hP.2
  show v'.filledSlots = v'.synthesized
  omega

/-- Only binding changes what is bound. -/
theorem Steps.callable?_eq (hA : .bind ∉ A) (s : Steps A u u') (h : Sound u) (r : ReprId)
    (name : String) : u'.reprs.callable? r name = u.reprs.callable? r name :=
  (s.keeps (P := fun v => v.reprs.callable? r name = u.reprs.callable? r name)
    (fun ha step hv heq => by
      rw [(step.prolongs (fun hbind => hA (hbind ▸ ha)) hv).callables, heq]) h rfl).2

/-- Binding a new callable empties no slot. -/
theorem AllFilled.bindCallable (hfilled : u.AllFilled) {r : ReprId} {name : String}
    (callable : Callable) (hnew : u.reprs.callable? r name = none) :
    (u.bindCallable r name callable).AllFilled := by
  unfold AllFilled filledSlots
  rw [descriptors_bindCallable, hnew, synthesized_bindCallable]
  exact hfilled

theorem AllFilled.perform_bindMethod (h : Sound u) (ht : Tabulated u) (hfilled : u.AllFilled)
    {ty : TypeId} {name : String} {func : FuncId}
    (hnew : u.rebinds (.bindMethod ty name func) = false) :
    (u.perform (.bindMethod ty name func)).2.AllFilled := by
  have hends := ends_bindMethod_callable h ty name func
  refine Ends.state (P := AllFilled) (ends_map.mpr ?_)
  rcases hrun : (bindMethod ty name func).run.run u with ⟨e | callable, u'⟩
  · rw [ends_of_error hrun] at hends ⊢
    exact Steps.allFilled (by simp [Act.building]) hends h ht hfilled
  · rw [ends_of_ok hrun] at hends ⊢
    obtain ⟨-, r, u₁, s, hr, rfl⟩ := hends
    have hbind : .bind ∉ Act.building \ {.breakOff} := by simp [Act.building]
    refine (Steps.allFilled hbind s h ht hfilled).bindCallable callable ?_
    rw [Steps.callable?_eq hbind s h]
    refine callable?_of_binds? hnew ?_
    simp only [binds?, hrun, hr]
    rfl

/-- **An operation that replaces no callable fills every slot that it counts.** -/
theorem AllFilled.perform (h : Sound u) (ht : Tabulated u) (hfilled : u.AllFilled) {op : Operation}
    (inRange : op.InRange u) (hnew : u.rebinds op = false) : (u.perform op).2.AllFilled := by
  have hquiet : .bind ∉ op.acts → (u.perform op).2.AllFilled := fun hbind =>
    Steps.allFilled (fun hmem => hbind hmem.1) (perform_steps h inRange) h ht hfilled
  cases op with
  | bindCallable r name callable =>
    exact hfilled.bindCallable callable (callable?_of_binds? hnew rfl)
  | bindMethod ty name func => exact hfilled.perform_bindMethod h ht hnew
  | _ => exact hquiet (by simp [Operation.acts, Act.building, Act.resolving])

end Rebinding

end Universe

/-! ### Reachable universes -/

/-- The descriptor is that of the type as the universe has it: it agrees with the type and has its
representation, and each filled slot takes the parameters of its method behind a receiver, and holds
a callable only where the type is no interface. -/
structure Descriptor.IsOf (d : Descriptor) (u : Universe) (ty : TypeId) : Prop
    extends d.Agrees u.catalog ty where
  valid : d.kind ≠ .invalid
  repr : (Universe.reprOf ty).run.run u = (.ok d.repr, u)
  slot : ∀ index slot, d.slot? index = some slot → ∃ m, (u.catalog.methods ty)[index]? = some m ∧
    (∀ f, slot.ty = some f → f.params.length = m.sig.params.length + 1) ∧
    ((u.catalog.interface? ty).isSome = true → slot.func = none)

namespace Universe

variable {u : Universe}

theorem ReachableBy.tabulated {allowed : Universe → Operation → Prop} (h : ReachableBy allowed u) :
    Tabulated u :=
  h.keeps tabulated_empty Step.tabulated

theorem ReachableBy.receivers {allowed : Universe → Operation → Prop} (h : ReachableBy allowed u)
    (ty : TypeId) : ∀ m ∈ u.catalog.methods ty, m.sig.recv.isSome = true :=
  fun _ hm => h.layered.isSome_recv_of_mem_methods h.sound.methods hm

theorem NeverRebound.allFilled (h : NeverRebound u) : u.AllFilled := by
  induction h with
  | empty => rfl
  | step op before inRange hnew ih => exact ih.perform before.sound before.tabulated inRange hnew

theorem ReachableBy.isOf {allowed : Universe → Operation → Prop} (h : ReachableBy allowed u)
    {ty : TypeId} {d : Descriptor} (hd : u.descriptors.find? ty = some d) : d.IsOf u ty := by
  have hagrees := h.tabulated.agrees ty d hd
  have hbuilt := h.sound.descriptors ty d hd
  refine ⟨hagrees, ?_, run_reprOf_recorded hbuilt, fun index slot hslot => ?_⟩
  · rw [hagrees.kind]
    exact h.sound.kindOf_ne_invalid hbuilt
  · obtain ⟨m, hprovides⟩ := h.sound.slots ty d index slot hd hslot
    have hm := (methodAt_eq_ok.mp hprovides.decl).2.2
    have hrecv := h.receivers ty m (List.mem_of_getElem? hm)
    exact ⟨m, hm, fun f => hprovides.fits.length_params hrecv, hprovides.func_eq_none⟩

/-- **Descriptors agree with the types they describe, and the counters with the descriptors.** Each
descriptor is that of its type; methods that have an index have a receiver, so what is answered for
them takes one parameter more than is declared, and the cache tells of no error; a resolution that
gets past the index and the descriptor leaves a place for each method. Each descriptor was counted
once and each filled slot at least once, and only once unless a callable was replaced. -/
theorem descriptors_agree (h : u.Reachable) :
    (∀ ty d, u.descriptors.find? ty = some d → d.IsOf u ty) ∧
    (∀ ty, ∀ m ∈ u.catalog.methods ty, m.sig.recv.isSome = true) ∧
    (∀ ty index m d u₁, methodAt u.catalog ty index = .ok m →
      (descriptor ty).run.run u = (.ok d, u₁) →
      ((resolve ty index).run.run u).2.Tabled ty) ∧
    (∀ ty index method, ((resolve ty index).run.run u).1 = .ok method → method.Received) ∧
    (∀ ty index method, ((Universe.method ty index).run.run u).1 = .ok method →
      method.Received) ∧
    (∀ ty index answer, u.cached? ty index = some answer →
      ∃ method, answer = .ok method ∧ method.Received) ∧
    u.descriptors.keys.Nodup ∧ u.described = u.descriptors.size ∧
    u.filledSlots ≤ u.synthesized ∧ (u.NeverRebound → u.filledSlots = u.synthesized) := by
  have hsound := h.sound
  have ht := h.tabulated
  refine ⟨fun ty d => h.isOf, h.receivers, fun _ _ _ _ _ hm => tabled_resolve hsound hm,
    fun ty index method hmethod => ?_, fun ty index method hmethod => ?_,
    fun ty index answer hcached => ?_, ht.once, ht.described, ht.filled, NeverRebound.allFilled⟩
  · rw [run_resolve_fst hsound] at hmethod
    exact received_of_answer (h.receivers ty) hmethod
  · rw [run_method_fst hsound] at hmethod
    exact received_of_answer (h.receivers ty) hmethod
  · obtain ⟨method, rfl⟩ := exists_ok_of_cached? hsound hcached
    exact ⟨method, rfl, received_of_answer (h.receivers ty) (cached?_eq_answer hsound hcached).2⟩

/-- `type T struct{}` with a method `Get` that was bound and resolved before `Put` was declared. -/
def partlyResolved : Universe := after [
  .structOf [],
  .declareNamed "T" none,
  .setUnderlying ⟨1⟩ ⟨0⟩,
  .addMethod ⟨1⟩ ⟨"Get", none, ⟨none, [⟨0⟩], [], false⟩⟩,
  .allocFunc,
  .bindMethod ⟨1⟩ "Get" ⟨0⟩,
  .resolve ⟨1⟩ 0,
  .addMethod ⟨1⟩ ⟨"Put", none, ⟨none, [], [], false⟩⟩]

/-- The table has one place for two methods until `Put` is asked for; that fails, and leaves a
place for both. -/
theorem descriptors_agree_partlyResolved : partlyResolved.Reachable ∧
    (∃ d, partlyResolved.descriptors.find? ⟨1⟩ = some d ∧ d.IsOf partlyResolved ⟨1⟩ ∧
      d.slots.length = 1 ∧ partlyResolved.catalog.numMethod ⟨1⟩ = 2) ∧
    ((resolve ⟨1⟩ 1).run.run partlyResolved).1 = .error (.methodNotFound "T" "Put") ∧
    ((resolve ⟨1⟩ 1).run.run partlyResolved).2.Tabled ⟨1⟩ ∧
    (∃ method, partlyResolved.cached? ⟨1⟩ 0 = some (.ok method) ∧ method.Received) ∧
    partlyResolved.described = partlyResolved.descriptors.size ∧
    partlyResolved.filledSlots = partlyResolved.synthesized := by
  have hreach : partlyResolved.Reachable := reachable_after (by cbv)
  have hnew : ReachableBy (fun u op => (!u.rebinds op) = true) partlyResolved :=
    reachableBy_after (by cbv)
  obtain ⟨hof, -, htabled, -, -, hcached, -, hdescribed, -, hfilled⟩ := descriptors_agree hreach
  let d : Descriptor := ⟨.struct, true, ⟨0⟩, [some ⟨some ⟨[⟨0⟩, ⟨1⟩], [], false⟩, some ⟨0⟩⟩]⟩
  have hd : partlyResolved.descriptors.find? ⟨1⟩ = some d := by cbv
  have hdescriptor : (descriptor ⟨1⟩).run.run partlyResolved = (.ok d, partlyResolved) :=
    Prod.ext (by cbv) (by cbv)
  refine ⟨hreach, ⟨d, hd, hof ⟨1⟩ d hd, rfl, by cbv⟩, by cbv,
    htabled ⟨1⟩ 1 ⟨"Put", none, ⟨some ⟨1⟩, [], [], false⟩⟩ d _ (by cbv) hdescriptor, ?_, hdescribed,
    hfilled (hnew.mono (by simp))⟩
  obtain ⟨answer, hanswer⟩ : ∃ answer, partlyResolved.cached? ⟨1⟩ 0 = some answer := ⟨_, by cbv⟩
  obtain ⟨method, rfl, hreceived⟩ := hcached ⟨1⟩ 0 answer hanswer
  exact ⟨method, hanswer, hreceived⟩

end Universe

end ScriptEngine
