import ScriptEngine.Proofs.Universe.Descriptors
import ScriptEngine.Proofs.Universe.MethodOrder

/-!
Interfaces with a native representation made from their declaration.

A native representation lists the exported methods of the complete set (`Native`), and what it lists
stays (`Native.steps`). A method is found in it by name and must stand there at its declared index,
so an exported method is answered exactly if all methods listed before it are exported and have other
names (`native_methods_answer`). Names are listed in the order of their bytes, in which an exported
name may follow one that is not: `É` comes after `a`.
-/

namespace ScriptEngine

/-! ### Positions in a filtered list -/

section Filter

variable {α : Type} {p q : α → Bool} {l : List α} {i : Nat} {a : α}

/-- The first element with `q` among those with `p` stands at most where an element with both stands
in the whole list, and just there if all before it have `p` and not `q`. -/
theorem findIdx?_filter (h : l[i]? = some a) (hp : p a = true) (hq : q a = true) :
    ∃ k ≤ i, (l.filter p).findIdx? q = some k ∧
      (k = i ↔ ∀ j < i, ∀ b, l[j]? = some b → p b = true ∧ q b = false) := by
  induction l generalizing i with
  | nil => cases h
  | cons b l ih =>
    cases i with
    | zero =>
      cases h
      refine ⟨0, Nat.le_refl _, ?_, iff_of_true rfl fun j hj => absurd hj (Nat.not_lt_zero j)⟩
      rw [List.filter_cons_of_pos hp, List.findIdx?_cons, if_pos hq]
    | succ i =>
      obtain ⟨k, hk, hfind, hiff⟩ := ih h
      -- The head is before the element, so it must have `p` and not `q`.
      have hhead : (∀ j < i + 1, ∀ c, (b :: l)[j]? = some c → p c = true ∧ q c = false) ↔
          (p b = true ∧ q b = false) ∧ k = i := by
        rw [hiff]
        constructor
        · intro hall
          exact ⟨hall 0 (Nat.succ_pos i) b rfl, fun j hj c hc =>
            hall (j + 1) (Nat.succ_lt_succ hj) c hc⟩
        · rintro ⟨hb, hall⟩ j hj c hc
          cases j with
          | zero =>
            cases hc
            exact hb
          | succ j => exact hall j (Nat.lt_of_succ_lt_succ hj) c hc
      rw [hhead]
      cases hpb : p b with
      | false =>
        refine ⟨k, Nat.le_succ_of_le hk, ?_, ?_⟩
        · rw [List.filter_cons_of_neg (by simp [hpb]), hfind]
        · simp
          omega
      | true =>
        rw [List.filter_cons_of_pos hpb, List.findIdx?_cons, hfind]
        cases hqb : q b with
        | true => exact ⟨0, Nat.zero_le _, rfl, by simp⟩
        | false => exact ⟨k + 1, Nat.succ_le_succ hk, rfl, by simp⟩

/-- Filtering keeps the place of an element that is preceded by elements with `p` only. -/
theorem getElem?_filter (h : l[i]? = some a) (hp : p a = true)
    (hall : ∀ j < i, ∀ b, l[j]? = some b → p b = true) : (l.filter p)[i]? = some a := by
  induction l generalizing i with
  | nil => cases h
  | cons b l ih =>
    cases i with
    | zero =>
      cases h
      rw [List.filter_cons_of_pos hp]
      rfl
    | succ i =>
      rw [List.filter_cons_of_pos (hall 0 (Nat.succ_pos i) b rfl)]
      exact ih h fun j hj c hc => hall (j + 1) (Nat.succ_lt_succ hj) c hc

end Filter

/-- All methods listed before `i` are exported and have other names than `m`. -/
def InterfaceDecl.Aligned (d : InterfaceDecl) (i : Nat) (m : MethodDecl) : Prop :=
  ∀ j < i, ∀ m', d.complete[j]? = some m' → Text.isExported m'.name = true ∧ m'.name ≠ m.name

namespace Universe

/-! ### What is listed -/

/-- `ty` is represented by a native interface that lists `listed`. -/
structure Lists (u : Universe) (ty : TypeId) (d : InterfaceDecl) (repr : ReprId)
    (listed : List NativeMethod) : Prop where
  declared : u.catalog.interface? ty = some d
  built : u.reprs.built.find? ty = some repr
  kind : u.reprs.kind repr = .interface listed

/-- What is listed stays so. -/
theorem Lists.steps {u u' : Universe} {ty : TypeId} {d : InterfaceDecl} {repr : ReprId}
    {listed : List NativeMethod} {A : Set Act} (hl : u.Lists ty d repr listed) (s : Steps A u u')
    (h : Sound u) : u'.Lists ty d repr listed where
  declared := by
    rw [s.grows.interface? (h.kindOf_ne_invalid hl.built)]
    exact hl.declared
  built := (Steps.extended s h).built ty repr hl.built
  kind := by
    rw [(Steps.extended s h).kind_eq (h.lt_size hl.built)]
    exact hl.kind

/-- `ty` is represented by a native interface that lists its exported methods. -/
structure Native (u : Universe) (ty : TypeId) (d : InterfaceDecl) (repr : ReprId)
    (listed : List NativeMethod) : Prop where
  declared : u.catalog.interface? ty = some d
  built : u.reprs.built.find? ty = some repr
  kind : u.reprs.kind repr = .interface listed
  methods : List.Forall₂ (fun m n => n.name = m.name ∧
    FuncShape (fun p r => u.reprs.built.find? p = some r) m.sig n.ty) d.exported listed

section Native

variable {u u' : Universe} {ty : TypeId} {d : InterfaceDecl} {repr : ReprId}
  {listed : List NativeMethod} {i : Nat} {m : MethodDecl} {A : Set Act}

theorem map_name_of_forall₂ {methods : List MethodDecl}
    (h : List.Forall₂ (fun m n => n.name = m.name) methods listed) :
    listed.map (·.name) = methods.map (·.name) := by
  induction h with
  | nil => rfl
  | cons heq _ ih => rw [List.map_cons, List.map_cons, heq, ih]

/-- What lists methods in order is in order. -/
theorem sortNative_of_ordered {methods : List MethodDecl} (h : Ordered methods)
    (hnames : List.Forall₂ (fun m n => n.name = m.name) methods listed) :
    sortNative listed = listed := by
  have hlisted : (listed.map (·.name)).Pairwise (· ≤ ·) := by
    rw [map_name_of_forall₂ hnames]
    exact List.pairwise_map.mpr h
  exact List.mergeSort_of_pairwise ((List.pairwise_map.mp hlisted).imp not_decide_lt.mpr)

/-- **Registering an interface lists its exported methods.** -/
theorem ends_registerNative_listed (h : Sound u) (hordered : u.catalog.Ordered)
    (hd : u.catalog.interface? ty = some d) :
    Ends (registerNative ty) u (fun repr u' => ∃ listed, u'.Native ty d repr listed)
      fun _ _ => True := by
  refine ends_registerNative_iff.mpr ⟨fun _ => trivial, fun d' hd' => ?_⟩
  obtain rfl := Option.some.inj (hd.symm.trans hd')
  refine Ends.mono (gives_nativeMethods subset_rfl h d) (fun natives u₁ ⟨s, hall⟩ => ?_)
    fun _ _ _ => trivial
  have hcatalog : u₁.catalog = u.catalog := Steps.catalog_eq (by simp [Act.building]) s h
  have hsorted : sortNative natives = natives :=
    sortNative_of_ordered ((hordered.interface? hd).filter _) (hall.imp fun _ _ hmn => hmn.1)
  refine ends_registerNativeWith_iff.mpr ⟨fun _ => trivial, fun _ _ => ⟨fun _ _ => trivial,
    fun fresh => ⟨natives, ?_, find?_withNative_self, ?_, hall.imp fun _ _ hmn => ⟨hmn.1, ?_⟩⟩⟩⟩
  · rw [← hd, ← hcatalog]
    rfl
  · rw [kind_withNative, hsorted]
  · exact hmn.2.mono fun p _ r hr => (prolongs_withNative fresh).extended.built p r hr

theorem Native.lists (hn : u.Native ty d repr listed) : u.Lists ty d repr listed :=
  ⟨hn.declared, hn.built, hn.kind⟩

/-- What is listed stays as the declaration has it. -/
theorem Native.steps (hn : u.Native ty d repr listed) (s : Steps A u u') (h : Sound u) :
    u'.Native ty d repr listed :=
  have hl := hn.lists.steps s h
  ⟨hl.declared, hl.built, hl.kind, hn.methods.imp fun _ _ hmn =>
    ⟨hmn.1, hmn.2.mono fun p _ r hr => (Steps.extended s h).built p r hr⟩⟩

/-- An exported method is found by name, and stands at its declared index if it is aligned. -/
theorem Native.nativeMethod? (hn : u.Native ty d repr listed) (hm : d.complete[i]? = some m)
    (hexported : Text.isExported m.name = true) :
    ∃ k f, (ReprKind.interface listed).nativeMethod? m.name = some (k, f) ∧ k ≤ i ∧
      (k = i ↔ d.Aligned i m) ∧
      (k = i → FuncShape (fun p r => u.reprs.built.find? p = some r) m.sig f) := by
  obtain ⟨k, hk, hfind, hiff⟩ := findIdx?_filter (p := fun m => Text.isExported m.name)
    (q := fun n => n.name == m.name) hm hexported (beq_self_eq_true _)
  have hfind' : listed.findIdx? (fun n => n.name == m.name) = some k := by
    have hnames := map_name_of_forall₂ (hn.methods.imp fun _ _ hmn => hmn.1)
    have hmap := congrArg (List.findIdx? (· == m.name)) hnames
    rw [List.findIdx?_map, List.findIdx?_map] at hmap
    exact hmap.trans hfind
  have hlt : k < listed.length := (List.findIdx?_eq_some_iff_getElem.mp hfind').1
  have haligned : k = i ↔ d.Aligned i m := by
    simpa [InterfaceDecl.Aligned, beq_eq_false_iff_ne] using hiff
  refine ⟨k, listed[k].ty, ?_, hk, haligned, fun heq => ?_⟩
  · rw [ReprKind.nativeMethod?]
    simp only [hfind', List.getElem?_eq_getElem hlt, Option.map_some]
  · subst heq
    have hin : d.exported[k]? = some m :=
      getElem?_filter hm hexported fun j hj b hb => (haligned.mp rfl j hj b hb).1
    obtain ⟨hlt', rfl⟩ := List.getElem?_eq_some_iff.mp hin
    exact (hn.methods.get hlt' hlt).2

end Native

/-! ### Answers -/

section Answer

variable {u u' : Universe} {ty : TypeId} {d : InterfaceDecl} {repr : ReprId}
  {listed : List NativeMethod} {i : Nat} {m : MethodDecl}

/-- A method of an interface is answered as its representation has it. -/
theorem answer_interface (h : Sound u) (hd : u.catalog.interface? ty = some d)
    (hr : u.reprs.built.find? ty = some repr) (hm : d.complete[i]? = some m) :
    u.answer ty i = (u.interfaceSlot ty i m.name repr).bind fun made =>
      u.makeMethod ty i m made.slot := by
  have hiface : (u.catalog.interface? ty).isSome = true := by rw [hd]; rfl
  have hkind := Catalog.isSome_interface?.mp hiface
  have hdecl : methodAt u.catalog ty i = .ok m := by
    refine methodAt_eq_ok.mpr ⟨by rw [hkind]; nofun, .inr hkind, ?_⟩
    rw [Catalog.methods, hd]
    exact hm
  rw [answer_of_built h hr hdecl, answerAt]
  cases hslot : u.slot? ty i with
  | some slot =>
    obtain ⟨m', r', hr', hprovides⟩ := h.slot_provided hslot
    obtain rfl := Except.ok.inj (hdecl.symm.trans hprovides.decl)
    obtain rfl := Option.some.inj (hr.symm.trans hr')
    rw [hprovides.interface hiface]
    rfl
  | none =>
    rw [slotFor, if_pos hiface]
    cases u.interfaceSlot ty i m.name repr <;> rfl

/-- A method that is not exported has no runtime half. -/
theorem Lists.answer_unexported (hl : u.Lists ty d repr listed) (h : Sound u)
    (hm : d.complete[i]? = some m) (hexported : Text.isExported m.name = false) :
    u.answer ty i = .ok ⟨ty, i, m, none, none⟩ := by
  have hslot : u.interfaceSlot ty i m.name repr = .ok ⟨.blank, true⟩ := by
    simp [interfaceSlot, ReprTable.emulatedFields?, hl.kind, hexported]
  rw [answer_interface h hl.declared hl.built hm, hslot]
  rfl

/-- An exported method that is listed must have its declared place, and then its slot is what the
list says. -/
theorem Lists.answer_found (hl : u.Lists ty d repr listed) (h : Sound u)
    (hm : d.complete[i]? = some m) (hexported : Text.isExported m.name = true) {k : Nat}
    {f : FuncRepr} (hfound : (ReprKind.interface listed).nativeMethod? m.name = some (k, f)) :
    u.answer ty i =
      if k = i then u.makeMethod ty i m ⟨some (f.addReceiver repr), none⟩
      else .error (.interfaceIndexMismatch (u.catalog.typeName ty) m.name i k) := by
  rw [answer_interface h hl.declared hl.built hm]
  unfold interfaceSlot
  simp only [ReprTable.emulatedFields?, hl.kind, hexported, hfound, if_true]
  split <;> rfl

/-- What a native interface has for a method that it shows. -/
theorem Native.answer_exported (hn : u.Native ty d repr listed) (h : Sound u)
    (hm : d.complete[i]? = some m) (hrecv : m.sig.recv.isSome = true)
    (hexported : Text.isExported m.name = true) :
    (d.Aligned i m → ∃ f, (funcReprOf m.sig).run.run u = (.ok f, u) ∧
      u.answer ty i = .ok ⟨ty, i, m, some ⟨m.sig, f.addReceiver repr⟩, none⟩) ∧
    (¬ d.Aligned i m → ∃ k < i, u.answer ty i =
      .error (.interfaceIndexMismatch (u.catalog.typeName ty) m.name i k)) := by
  obtain ⟨k, f, hfound, hk, haligned, hshape⟩ := hn.nativeMethod? hm hexported
  rw [hn.lists.answer_found h hm hexported hfound, ← haligned]
  refine ⟨fun heq => ?_, fun hne => ?_⟩
  · have hshape := hshape heq
    have hfits : MethodSlot.Fits ⟨some (f.addReceiver repr), none⟩ m := by
      intro f' hf'
      cases hf'
      rw [Signature.runtimeArity, if_pos hrecv, hshape.params.length_eq]
      rfl
    refine ⟨f, run_funcReprOf_recorded hshape, ?_⟩
    rw [if_pos heq]
    exact makeMethod_of_fits hfits
  · exact ⟨k, Nat.lt_of_le_of_ne hk hne, if_neg hne⟩

end Answer

/-- **What is answered for the methods of an interface that was registered natively**, then and in
every later universe. Methods that are not exported have no runtime type. An exported method has the
declared signature and its runtime view with the interface's representation before the parameters,
provided that all methods listed before it are exported and have other names; otherwise its place
among the exported methods is another one, which is an error. -/
theorem native_methods_answer {u u₁ u' : Universe} {ty : TypeId} {d : InterfaceDecl} {repr : ReprId}
    (h : u.Reachable) (hd : u.catalog.interface? ty = some d)
    (registered : (registerNative ty).run.run u = (.ok repr, u₁)) (later : Later u₁ u') :
    u'.catalog.numMethod ty = d.complete.length ∧ Ordered d.complete ∧
    (reprOf ty).run.run u' = (.ok repr, u') ∧
    ∀ i m, d.complete[i]? = some m →
      (Text.isExported m.name = false →
        ((method ty i).run.run u').1 = .ok ⟨ty, i, m, none, none⟩) ∧
      (Text.isExported m.name = true → d.Aligned i m →
        ∃ f, (funcReprOf m.sig).run.run u' = (.ok f, u') ∧
          ((method ty i).run.run u').1 =
            .ok ⟨ty, i, m, some ⟨m.sig, f.addReceiver repr⟩, none⟩) ∧
      (Text.isExported m.name = true → ¬ d.Aligned i m →
        ∃ k < i, ((method ty i).run.run u').1 =
          .error (.interfaceIndexMismatch (u'.catalog.typeName ty) m.name i k)) := by
  have hgives := bounds_registerNative (Set.subset_insert _ _) (Set.mem_insert _ _) ty u h.sound
  have hsound₁ := Steps.sound (hgives.ok registered).1 h.sound
  have hsound := later.sound hsound₁
  obtain ⟨listed, hn₁⟩ := (ends_registerNative_listed h.sound h.ordered hd).ok registered
  have hn := hn₁.steps (later.steps hsound₁) hsound₁
  have hmethods : u.catalog.methods ty = d.complete := by rw [Catalog.methods, hd]
  refine ⟨?_, h.ordered.interface? hd, run_reprOf_recorded hn.built, fun i m hm => ?_⟩
  · rw [Catalog.numMethod, Catalog.methods, hn.declared]
  have hrecv := h.receivers ty m (by rw [hmethods]; exact List.mem_of_getElem? hm)
  rw [run_method_fst hsound]
  exact ⟨hn.lists.answer_unexported hsound hm, fun hexported =>
    (hn.answer_exported hsound hm hrecv hexported).1, fun hexported =>
    (hn.answer_exported hsound hm hrecv hexported).2⟩

/-- `interface { a(); É(); B() }`, which lists `B`, `a`, `É`. -/
def mixedInterface : Universe := after [.interfaceOf [
  ⟨"a", none, ⟨none, [], [], false⟩⟩,
  ⟨"É", none, ⟨none, [], [], false⟩⟩,
  ⟨"B", none, ⟨none, [], [], false⟩⟩] []]

/-- A method of it. -/
def mixedMethod (name : String) : MethodDecl :=
  ⟨name, none, ⟨some ⟨0⟩, [], [], false⟩⟩

/-- `B` and `a` are answered; `É` is listed after `a`, so its indices disagree. -/
theorem native_methods_answer_mixedInterface : mixedInterface.Reachable ∧
    ∃ f u', (registerNative ⟨0⟩).run.run mixedInterface = (.ok ⟨0⟩, u') ∧
      ((method ⟨0⟩ 0).run.run u').1 = .ok ⟨⟨0⟩, 0, mixedMethod "B",
        some ⟨(mixedMethod "B").sig, FuncRepr.addReceiver ⟨0⟩ f⟩, none⟩ ∧
      ((method ⟨0⟩ 1).run.run u').1 = .ok ⟨⟨0⟩, 1, mixedMethod "a", none, none⟩ ∧
      ∃ k < 2, ((method ⟨0⟩ 2).run.run u').1 =
        .error (.interfaceIndexMismatch (u'.catalog.typeName ⟨0⟩) "É" 2 k) := by
  have hreach : mixedInterface.Reachable := reachable_after (by cbv)
  let listed := [mixedMethod "B", mixedMethod "a", mixedMethod "É"]
  have hd : mixedInterface.catalog.interface? ⟨0⟩ = some ⟨listed, [], listed⟩ := by cbv
  have registered : (registerNative ⟨0⟩).run.run mixedInterface =
    (.ok ⟨0⟩, ((registerNative ⟨0⟩).run.run mixedInterface).2) := Prod.ext (by cbv) rfl
  have hB : Text.isExported "B" = true := by decide +kernel
  have ha : Text.isExported "a" = false := by decide +kernel
  have hE : Text.isExported "É" = true := by decide +kernel
  obtain ⟨-, -, -, hanswers⟩ := native_methods_answer hreach hd registered .refl
  obtain ⟨f, -, hanswer⟩ := (hanswers 0 (mixedMethod "B") rfl).2.1 hB fun j hj =>
    absurd hj (Nat.not_lt_zero j)
  refine ⟨hreach, f, _, registered, hanswer, (hanswers 1 (mixedMethod "a") rfl).1 ha, ?_⟩
  refine (hanswers 2 (mixedMethod "É") rfl).2.2 hE fun haligned => ?_
  have hexported := (haligned 1 (by decide) (mixedMethod "a") rfl).1
  exact Bool.false_ne_true (ha.symm.trans hexported)

end Universe

end ScriptEngine
