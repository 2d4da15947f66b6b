import ScriptEngine.Proofs.Universe.Identity
import ScriptEngine.Proofs.Universe.NativeInterfaces

/-!
Interfaces that are emulated.

Unless an interface is registered natively, its representation is made from its declaration: a
pointer to a struct with two fields of its own and one function field for each method of the
complete set. A named interface copies that of the interface it stands for, possibly while the
signatures in it still mention the name. Neither is read where it is made: a method is looked up by
adding the offset to its index. Main statement: what is looked up is what was made for that method,
for every interface of which neither the name nor what it stands for was registered
(`emulated_interface_resolves`).
-/

namespace ScriptEngine

/-! ### The fields of an emulation -/

/-- The structure of an emulated interface, seen through its methods. -/
structure Emulation (t : ReprTable) (r : ReprId) (cur : TypeId → ReprId → Prop)
    (complete : List MethodDecl) (fields : List ReprField) : Prop where
  read : t.emulatedFields? r = some fields
  length : fields.length = complete.length + interfaceSlotOffset
  method : ∀ i m, complete[i]? = some m → ∃ field f, fields[i + interfaceSlotOffset]? = some field ∧
    field.name = m.name ∧ t.kind field.repr = .func f ∧ FuncShape cur m.sig f

/-- What has the structure of an interface's representation is an emulation of it. -/
theorem Represents.emulation {c : Catalog} {t : ReprTable} {cur : TypeId → ReprId → Prop}
    {d : InterfaceDecl} {r x : ReprId} (h : Represents cur c t (.interface d) x)
    (hkind : t.kind r = t.kind x) : ∃ fields, Emulation t r cur d.complete fields := by
  cases h with
  | @interface _ header _ embeddeds body _ _ methods hheader _ _ _ hmethods hbody hpointer =>
    refine ⟨⟨"Interface", header, false⟩ :: ⟨"Embeddeds", embeddeds, false⟩ :: methods,
      ?_, ?_, fun i m hm => ?_⟩
    · simp [ReprTable.emulatedFields?, hkind, hpointer.kind_eq, hbody.kind_eq, hheader.kind_eq]
    · simp [hmethods.length_eq, interfaceSlotOffset]
    · obtain ⟨hlt, rfl⟩ := List.getElem?_eq_some_iff.mp hm
      have hlt' : i < methods.length := hmethods.length_eq ▸ hlt
      have hshape := hmethods.get hlt hlt'
      obtain ⟨f, hf, hinterned⟩ := hshape.repr
      exact ⟨methods[i], f, List.getElem?_eq_getElem hlt', hshape.name, hinterned.kind_eq, hf⟩

namespace Universe

/-! ### What is not registered is made -/

/-- The operation gives `ty` a native representation. -/
def registers (u : Universe) (op : Operation) (ty : TypeId) : Bool :=
  match op with
  | .registerNative n | .registerNativeWith n _ => n == ty && (u.perform op).1.isOk
  | _ => false

/-- What is recorded for `ty`, if anything, was made for it. -/
def WasMade (u : Universe) (ty : TypeId) : Prop :=
  ∀ r, u.reprs.built.find? ty = some r →
    Made u.catalog u.reprs (StandsFor False [] u.reprs) ty r

section WasMade

variable {u u' : Universe} {ty n : TypeId} {a : Act}

/-- What was made stays so where the type is not recorded anew. -/
theorem WasMade.extends (h : WasMade u ty) (hsound : Sound u)
    (hgrows : Catalog.Grows u.catalog u'.catalog) (hext : ReprTable.Extends u.reprs u'.reprs)
    (hbuilt : u'.reprs.built.find? ty = u.reprs.built.find? ty) : WasMade u' ty := by
  intro r hr
  rw [hbuilt] at hr
  have hcarries := hsound.reprs.carries hext
  exact (h r hr).mono (hcarries.built ty r hr).2 hsound.catalog hgrows hcarries fun _ _ hx =>
    hx.mono id hext

/-- What building records was made. -/
theorem WasMade.builds {whole : Prop} {t : ReprTable} (h : WasMade u ty) (hsound : Sound u)
    (hb : Builds whole u.catalog [] u.reprs t) : WasMade { u with reprs := t } ty := by
  intro r hr
  rcases hb.made ty r hr with hold | hmade
  · have hcarries := hsound.reprs.carries hb.extended
    exact (h r hold).mono (hcarries.built ty r hold).2 hsound.catalog (.refl _) hcarries
      fun _ _ hx => hx.mono id hb.extended
  · exact hmade.mono rfl hsound.catalog (.refl _) (hb.intact.carries (.refl _)) fun _ _ hx =>
      hx.mono False.elim (.refl _)

/-- Only registering gives a type what was not made for it. -/
theorem Step.wasMade (s : Step u a u') (ha : a ≠ .native) (hsound : Sound u) (h : WasMade u ty) :
    WasMade u' ty := by
  cases s with
  | build n r reprs run => exact h.builds hsound (hsound.builds_of_ok run).1
  | breakOff n e reprs run => exact h.builds hsound (hsound.builds_of_error run).2
  | intern r inRange => exact h.builds hsound (builds_pointerTo True hsound.reprs inRange)
  | native => exact absurd rfl ha
  | declare catalog change => exact h.extends hsound change.grows (.refl _) rfl
  | bind r name callable =>
    rw [bindCallable_eq]
    exact h.extends hsound (.refl _) (ReprTable.extends_bind _ r name callable) rfl
  | allocate | describe | resize | fill => exact h.extends hsound (.refl _) (.refl _) rfl

/-- Registering an interface records nothing for another type. -/
theorem ends_registerNativeWith_wasMade (hsound : Sound u) (h : WasMade u ty) (hne : n ≠ ty)
    (methods : List NativeMethod) :
    Ends (registerNativeWith n methods) u (fun _ u' => WasMade u' ty) fun _ _ => True := by
  refine ends_registerNativeWith_iff.mpr ⟨fun _ => trivial, fun _ _ => ⟨fun _ _ => trivial, ?_⟩⟩
  intro fresh
  exact h.extends hsound (.refl _) (prolongs_withNative fresh).extended
    (find?_withNative_of_ne hne.symm)

theorem ends_registerNative_wasMade (hsound : Sound u) (h : WasMade u ty) (hne : n ≠ ty) :
    Ends (registerNative n) u (fun _ u' => WasMade u' ty) fun _ _ => True := by
  refine ends_registerNative_iff.mpr ⟨fun _ => trivial, fun d _ => ?_⟩
  refine Ends.mono (gives_nativeMethods subset_rfl hsound d) (fun methods u₁ ⟨s, _⟩ => ?_)
    fun _ _ _ => trivial
  have hbuilding : ∀ {a}, a ∈ Act.building \ {.breakOff} → a ≠ .native := by
    rintro a ⟨rfl | rfl, -⟩ <;> nofun
  obtain ⟨hsound₁, h₁⟩ := Steps.keeps (P := (WasMade · ty))
    (fun ha step hv => step.wasMade (hbuilding ha) hv) s hsound h
  exact ends_registerNativeWith_wasMade hsound₁ h₁ hne methods

/-- An operation that does not register the type records for it only what was made for it. -/
theorem WasMade.perform {op : Operation} (h : WasMade u ty) (hsound : Sound u)
    (inRange : op.InRange u) (hcomplete : u.isComplete op = true)
    (hother : u.registers op ty = false) : WasMade (u.perform op).2 ty := by
  cases hplain : u.isPlain op with
  | true =>
    exact (Steps.keeps (P := (WasMade · ty)) (fun ha step hv => step.wasMade ha hv)
      (perform_steps_plain hsound inRange hplain) hsound h).2
  | false =>
    -- A native interface was registered, so it is that of another type.
    obtain ⟨hnative, a, hok⟩ : op.isNative = true ∧ ∃ a, (u.perform op).1 = .ok a := by
      rw [isPlain, hcomplete] at hplain
      cases hanswer : (u.perform op).1 <;> simp_all [Except.isOk, Except.toBool]
    have hrun : op.run.run.run u = (.ok a, (u.perform op).2) := Prod.ext hok rfl
    cases op with
    | registerNative n =>
      have hne : n ≠ ty := by simpa [registers, hok, Except.isOk, Except.toBool] using hother
      have hends : Ends (Operation.registerNative n).run u (fun _ u' => WasMade u' ty)
        fun _ _ => True := ends_map.mpr (ends_registerNative_wasMade hsound h hne)
      exact hends.ok hrun
    | registerNativeWith n methods =>
      have hne : n ≠ ty := by simpa [registers, hok, Except.isOk, Except.toBool] using hother
      have hends : Ends (Operation.registerNativeWith n methods).run u (fun _ u' => WasMade u' ty)
        fun _ _ => True := ends_map.mpr (ends_registerNativeWith_wasMade hsound h hne methods)
      exact hends.ok hrun
    | _ => cases hnative

/-- **What was never registered natively was made**, if it is recorded. -/
theorem wasMade_of_unregistered
    (h : ReachableBy (fun v op => v.isComplete op = true ∧ v.registers op ty = false) u) :
    WasMade u ty := by
  induction h with
  | empty => exact fun _ hr => by cases hr
  | step op before inRange hop ih => exact ih.perform before.sound inRange hop.1 hop.2

end WasMade

/-! ### Resolving -/

section Emulated

variable {u u₁ : Universe} {ty : TypeId} {d : InterfaceDecl} {r : ReprId} {i : Nat} {m : MethodDecl}

/-- The representation of an interface that was made, and whose underlying one was made, is an
emulation of it. -/
theorem Sound.emulation (h : Sound u) (hfinished : Finished u)
    (hd : u.catalog.interface? ty = some d) (hmade : WasMade u ty)
    (hunder : WasMade u (u.catalog.underlying ty)) (hr : u.reprs.built.find? ty = some r) :
    ∃ fields,
      Emulation u.reprs r (fun p x => u.reprs.built.find? p = some x) d.complete fields := by
  have hdecl := Catalog.decl?_of_interface? hd
  -- What is made for an unnamed interface represents it.
  have hunnamed : ∀ {n x}, u.catalog.decl? n = some (.interface d) → WasMade u n →
      u.reprs.built.find? n = some x →
      Represents (fun p x => u.reprs.built.find? p = some x) u.catalog u.reprs
        (.interface d) x := by
    intro n x hn hwas hx
    cases h.made_recorded hfinished (hwas x hx) with
    | unnamed e he _ hrep =>
      obtain rfl := Option.some.inj (hn.symm.trans he)
      exact hrep
    | named e _ _ he => cases hn.symm.trans he
  cases h.made_recorded hfinished (hmade r hr) with
  | unnamed e he hn hrep =>
    rw [Catalog.underlying_of_unnamed he fun n heq => hrep.not_named n heq] at hdecl
    exact (hunnamed hdecl hmade hr).emulation rfl
  | named e v source he hv hsource hkind _ =>
    rw [Catalog.underlying_of_named he hv] at hdecl hunder
    exact (hunnamed hdecl hunder hsource).emulation hkind

/-- What an emulation answers for a method. -/
theorem answer_of_emulation (h : Sound u) (hd : u.catalog.interface? ty = some d)
    (hr : u.reprs.built.find? ty = some r) {cur : TypeId → ReprId → Prop} {fields : List ReprField}
    (he : Emulation u.reprs r cur d.complete fields) (hm : d.complete[i]? = some m)
    (hrecv : m.sig.recv.isSome = true) :
    ∃ f, FuncShape cur m.sig f ∧
      u.answer ty i = .ok ⟨ty, i, m, some ⟨m.sig, f.addReceiver r⟩, none⟩ := by
  obtain ⟨field, f, hfield, -, hkind, hshape⟩ := he.method i m hm
  have hslot : u.interfaceSlot ty i m.name r = .ok ⟨⟨some (f.addReceiver r), none⟩, true⟩ := by
    simp [interfaceSlot, he.read, hfield, hkind]
  have hfits : MethodSlot.Fits ⟨some (f.addReceiver r), none⟩ m := by
    intro f' hf'
    cases hf'
    rw [Signature.runtimeArity, if_pos hrecv, hshape.params.length_eq]
    rfl
  refine ⟨f, hshape, ?_⟩
  rw [answer_interface h hd hr hm, hslot]
  exact makeMethod_of_fits hfits

/-- A method is answered alike before and after its type is represented. -/
theorem answer_of_reprOf (h : Sound u) (run : (reprOf ty).run.run u = (.ok r, u₁)) (i : Nat) :
    u.answer ty i = u₁.answer ty i := by
  obtain ⟨t, hrun, rfl⟩ := exists_run_of_reprOf run
  obtain ⟨hb, hr⟩ := h.builds_of_ok hrun
  have h₁ := h.builds hb
  have hrepresented : u.represented ty = (.ok r, t) := by
    unfold represented
    split
    · next e he =>
      have hrecorded := h.descriptors ty e he
      have hsame := (ReprM.run_reprOf_recorded hrecorded).symm.trans hrun
      cases hsame
      rfl
    · rw [if_neg (h₁.kindOf_ne_invalid hr), hrun]
  cases hm : methodAt u.catalog ty i with
  | error e => simp only [answer, hm]
  | ok m =>
    rw [answer_of_built h₁ hr hm]
    simp only [answer, hm, hrepresented]

end Emulated

/-- **Emulated interfaces resolve completely.** Where no operation failed for want of an underlying
type, let an interface be representable that was never registered natively, nor the one it stands
for. It is represented by a pointer to a struct with two fields more than it has methods, and each
method of the complete set is answered, before and after, from the field that bears its name:
without a callable, and with a runtime type that takes the interface's representation and those of
the declared parameters, and gives those of the declared results. -/
theorem emulated_interface_resolves {u u₁ : Universe} {ty : TypeId} {d : InterfaceDecl} {r : ReprId}
    (h : ReachableBy (fun v op => v.isComplete op = true ∧ v.registers op ty = false ∧
      v.registers op (u.catalog.underlying ty) = false) u)
    (hd : u.catalog.interface? ty = some d) (run : (reprOf ty).run.run u = (.ok r, u₁)) :
    u.catalog.numMethod ty = d.complete.length ∧
    ∃ body fields, u₁.reprs.kind r = .pointer body ∧ u₁.reprs.kind body = .struct fields ∧
      fields.length = d.complete.length + 2 ∧
      ∀ i m, d.complete[i]? = some m →
        fields[i + 2]?.map (·.name) = some m.name ∧
        ∃ f, FuncShape (fun p x => (reprOf p).run.run u₁ = (.ok x, u₁)) m.sig f ∧
          ∃ answer, answer = .ok ⟨ty, i, m, some ⟨m.sig, f.addReceiver r⟩, none⟩ ∧
            ((resolve ty i).run.run u).1 = answer ∧ ((method ty i).run.run u).1 = answer ∧
            ((resolve ty i).run.run u₁).1 = answer ∧ ((method ty i).run.run u₁).1 = answer := by
  have hmade : WasMade u ty := wasMade_of_unregistered (h.mono fun _ _ ho => ⟨ho.1, ho.2.1⟩)
  have hunder : WasMade u (u.catalog.underlying ty) :=
    wasMade_of_unregistered (h.mono fun _ _ ho => ⟨ho.1, ho.2.2⟩)
  have hmethods : u.catalog.methods ty = d.complete := by rw [Catalog.methods, hd]
  have hanswer := answer_of_reprOf h.sound run
  obtain ⟨t, hrun, rfl⟩ := exists_run_of_reprOf run
  obtain ⟨hb, hr⟩ := h.sound.builds_of_ok hrun
  have h₁ := h.sound.builds hb
  have hfinished : Finished { u with reprs := t } :=
    (Unbroken.finished (h.mono fun _ _ ho => ho.1)).builds hb
  obtain ⟨fields, he⟩ := h₁.emulation hfinished hd (hmade.builds h.sound hb)
    (hunder.builds h.sound hb) hr
  obtain ⟨body, hbody, hfields⟩ := exists_body_of_emulatedFields? he.read
  refine ⟨by rw [Catalog.numMethod, hmethods], body, fields, hbody, hfields, he.length,
    fun i m hm => ?_⟩
  obtain ⟨field, -, hfield, hname, -⟩ := he.method i m hm
  have hrecv := h.receivers ty m (by rw [hmethods]; exact List.mem_of_getElem? hm)
  obtain ⟨f, hshape, hok⟩ := answer_of_emulation h₁ hd hr he hm hrecv
  refine ⟨by rw [show i + 2 = i + interfaceSlotOffset from rfl, hfield, ← hname]; rfl, f,
    hshape.mono fun p _ x hx => run_reprOf_recorded hx, _, rfl, ?_, ?_, ?_, ?_⟩
  · rw [run_resolve_fst h.sound, hanswer, hok]
  · rw [run_method_fst h.sound, hanswer, hok]
  · rw [run_resolve_fst h₁, hok]
  · rw [run_method_fst h₁, hok]

/-- `type Node interface { Next() Node; label(int) }`. -/
def nodes : Universe := after [
  .basic .int,
  .declareNamed "Node" none,
  .interfaceOf [
    ⟨"Next", none, ⟨none, [], [⟨1⟩], false⟩⟩,
    ⟨"label", none, ⟨none, [⟨0⟩], [], false⟩⟩] [],
  .setUnderlying ⟨1⟩ ⟨2⟩]

/-- `Next` as the interface has it. -/
def nextNode : MethodDecl :=
  ⟨"Next", none, ⟨some ⟨2⟩, [], [⟨1⟩], false⟩⟩

/-- `label` as the interface has it. -/
def labelNode : MethodDecl :=
  ⟨"label", none, ⟨some ⟨2⟩, [⟨0⟩], [], false⟩⟩

/-- `Next` gives what represents the name, which is a placeholder while `Next` is represented.
`label` is answered although it is not exported. -/
theorem emulated_interface_resolves_nodes :
    ∃ u₁, (reprOf ⟨1⟩).run.run nodes = (.ok ⟨0⟩, u₁) ∧
      ((resolve ⟨1⟩ 0).run.run nodes).1 =
        .ok ⟨⟨1⟩, 0, nextNode, some ⟨nextNode.sig, ⟨[⟨0⟩], [⟨0⟩], false⟩⟩, none⟩ ∧
      ((resolve ⟨1⟩ 1).run.run nodes).1 =
        .ok ⟨⟨1⟩, 1, labelNode, some ⟨labelNode.sig, ⟨[⟨0⟩, ⟨5⟩], [], false⟩⟩, none⟩ := by
  have h : ReachableBy (fun u op => (u.isComplete op && !u.registers op ⟨1⟩ &&
      !u.registers op ⟨2⟩) = true) nodes := reachableBy_after (by cbv)
  have hunder : nodes.catalog.underlying ⟨1⟩ = ⟨2⟩ := by cbv
  have hd : nodes.catalog.interface? ⟨1⟩ =
      some ⟨[nextNode, labelNode], [], [nextNode, labelNode]⟩ := by cbv
  obtain ⟨u₁, run, hint, hnode⟩ : ∃ u₁, (reprOf ⟨1⟩).run.run nodes = (.ok ⟨0⟩, u₁) ∧
    ((reprOf ⟨0⟩).run.run u₁).1 = .ok ⟨5⟩ ∧ ((reprOf ⟨1⟩).run.run u₁).1 = .ok ⟨0⟩ :=
    ⟨_, Prod.ext (by cbv) rfl, by cbv, by cbv⟩
  have hhistory := h.mono fun u op ho => by
    rw [Bool.and_eq_true, Bool.and_eq_true, Bool.not_eq_true', Bool.not_eq_true', and_assoc] at ho
    rwa [← hunder] at ho
  obtain ⟨-, _, _, -, -, -, hmethods⟩ := emulated_interface_resolves hhistory hd run
  have hpart : ∀ {p x y}, ((reprOf p).run.run u₁).1 = .ok x →
      (reprOf p).run.run u₁ = (.ok y, u₁) → y = x := fun hx hy =>
    Except.ok.inj ((congrArg Prod.fst hy).symm.trans hx)
  refine ⟨u₁, run, ?_, ?_⟩
  · obtain ⟨-, ⟨_, _, _⟩, ⟨hparams, hresults, hvariadic⟩, _, rfl, hanswer, -⟩ :=
      hmethods 0 nextNode rfl
    cases hparams
    cases hvariadic
    obtain ⟨x, _, hx, hrest, rfl⟩ := List.forall₂_cons_left_iff.mp hresults
    cases hrest
    rw [hpart hnode hx] at hanswer
    exact hanswer
  · obtain ⟨-, ⟨_, _, _⟩, ⟨hparams, hresults, hvariadic⟩, _, rfl, hanswer, -⟩ :=
      hmethods 1 labelNode rfl
    cases hresults
    cases hvariadic
    obtain ⟨x, _, hx, hrest, rfl⟩ := List.forall₂_cons_left_iff.mp hparams
    cases hrest
    rw [hpart hint hx] at hanswer
    exact hanswer

end Universe

end ScriptEngine
