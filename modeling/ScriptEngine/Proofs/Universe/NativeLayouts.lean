import ScriptEngine.Proofs.Universe.MethodSets
import ScriptEngine.Proofs.Universe.NativeInterfaces

/-!
Interfaces with a native representation that lists any methods.

Such a layout need not agree with the declaration: names can be missing, repeated or in other
places, and signatures can have any number of parameters. The list is sorted by name when the
interface is registered, and a method is looked up by name, where the first one counts
(`FirstNamed`). Main statement: no disagreement with the declaration is ever accepted, and nothing
else is refused; every disagreement is an error when the method is resolved, but for a signature of
the wrong arity that cannot be written, where the request is never answered
(`native_layout_answers`). A resolution that fails fills no slot (`ends_resolve_failed`).
-/

namespace ScriptEngine

/-! ### Looking up by name -/

/-- `n` stands at position `k`, and is the first of the list called `name`. -/
structure FirstNamed (listed : List NativeMethod) (name : String) (k : Nat) (n : NativeMethod) :
    Prop where
  entry : listed[k]? = some n
  named : n.name = name
  first : ∀ j < k, ∀ n', listed[j]? = some n' → n'.name ≠ name

section FirstNamed

variable {listed : List NativeMethod} {name : String}

/-- A name is either not listed or has a first place. -/
theorem firstNamed_or_absent (listed : List NativeMethod) (name : String) :
    (∃ k n, FirstNamed listed name k n) ∨ ∀ n ∈ listed, n.name ≠ name := by
  cases hfind : listed.findIdx? (·.name == name) with
  | none =>
    right
    simpa using List.findIdx?_eq_none_iff.mp hfind
  | some k =>
    obtain ⟨hlt, hname, hfirst⟩ := List.findIdx?_eq_some_iff_getElem.mp hfind
    refine .inl ⟨k, listed[k], List.getElem?_eq_getElem hlt, by simpa using hname, ?_⟩
    intro j hj n' hn'
    obtain ⟨hlt', rfl⟩ := List.getElem?_eq_some_iff.mp hn'
    simpa using hfirst j hj

theorem FirstNamed.nativeMethod? {k : Nat} {n : NativeMethod} (h : FirstNamed listed name k n) :
    (ReprKind.interface listed).nativeMethod? name = some (k, n.ty) := by
  have hfind : listed.findIdx? (·.name == name) = some k := by
    obtain ⟨hlt, hn⟩ := List.getElem?_eq_some_iff.mp h.entry
    refine List.findIdx?_eq_some_iff_getElem.mpr ⟨hlt, ?_, fun j hj => ?_⟩
    · rw [hn, h.named, beq_self_eq_true]
    · simpa using h.first j hj _ (List.getElem?_eq_getElem (Nat.lt_trans hj hlt))
  simp only [ReprKind.nativeMethod?, hfind, h.entry, Option.map_some]

theorem nativeMethod?_eq_none (h : ∀ n ∈ listed, n.name ≠ name) :
    (ReprKind.interface listed).nativeMethod? name = none := by
  have hfind : listed.findIdx? (·.name == name) = none :=
    List.findIdx?_eq_none_iff.mpr (by simpa using h)
  simp only [ReprKind.nativeMethod?, hfind]

end FirstNamed

namespace Universe

/-! ### Resolutions that fail -/

section Failed

variable {u u' : Universe} {ty : TypeId} {index : Nat} {A : Set Act}

theorem Step.synthesized_eq {a : Act} (s : Step u a u') (ha : ∀ ty i, a ≠ .fill ty i) :
    u'.synthesized = u.synthesized := by
  cases s with
  | bind r name callable => exact synthesized_bindCallable
  | fill ty i => exact absurd rfl (ha ty i)
  | _ => rfl

theorem Steps.synthesized_eq (hA : ∀ a ∈ A, ∀ ty i, a ≠ .fill ty i) (s : Steps A u u') :
    u'.synthesized = u.synthesized := by
  induction s with
  | refl => rfl
  | tail _ last ih =>
    obtain ⟨a, ha, step⟩ := last
    exact (step.synthesized_eq (hA a ha)).trans ih

/-- What resolving does before it fills a slot. -/
def Act.preparing (ty : TypeId) : Set Act :=
  {.build, .breakOff, .intern, .describe ty, .resize ty}

/-- **A resolution that fails fills no slot**: filling is the last thing that is done. -/
theorem ends_resolve_failed (h : Sound u) (ty : TypeId) (index : Nat) :
    Ends (resolve ty index) u (fun _ _ => True) fun _ u' => Steps (Act.preparing ty) u u' := by
  have hfail : ∀ {e : TypeError} {v v' : Universe} {A : Set Act}, A ⊆ Act.preparing ty →
      (stepping A).fail e v v' → Steps (Act.preparing ty) v v' := fun hA s =>
    Steps.mono (fun _ ha => hA ha.1) s
  unfold resolve
  rw [ends_bind, ends_get]
  dsimp only
  refine ends_bind.mpr (ends_ofExcept.mpr ⟨fun m hm => ?_, fun e _ => .refl⟩)
  have hdescribe : {.build, .breakOff, .describe ty} ⊆ Act.preparing ty := fun a ha => by
    rcases ha with rfl | rfl | rfl <;> simp [Act.preparing]
  refine ends_bind.mpr (Ends.mono (ends_descriptor subset_rfl h)
    (fun d u₁ ⟨s₁, hd, _⟩ => ?_) fun e u' ⟨s, _⟩ => hfail hdescribe s)
  have h₁ := Steps.sound s₁ h
  have hcatalog : u₁.catalog = u.catalog := Steps.catalog_eq (by simp) s₁ h
  have hresize : Step u₁ (.resize ty) _ := .resize ty d hd
  have s₂ : Steps (Act.preparing ty) u { u₁ with
      descriptors := u₁.descriptors.set ty (d.resize (u₁.catalog.numMethod ty)) } :=
    .tail (Steps.mono (fun _ ha => hdescribe ha.1) s₁)
      ⟨.resize ty, by simp [Act.preparing], hresize⟩
  unfold setDescriptor
  rw [← hcatalog]
  refine ends_bind.mpr ((ends_modify _).mpr ?_)
  split
  · exact ends_bind.mpr (ends_get.mpr (ends_ofExcept.mpr ⟨fun _ _ => trivial, fun _ _ => s₂⟩))
  -- The search for a callable may intern a pointer, and only an answer is kept.
  have s₃ : Steps (Act.preparing ty) u (searched _ ty m.name d.repr) :=
    s₂.trans (Steps.mono (fun _ ha => by
      obtain rfl : _ = Act.intern := ha.1
      simp [Act.preparing]) (steps_searched (A := {.intern}) rfl ty m.name
        (h₁.lt_size (h₁.descriptors ty d hd))))
  refine ends_bind.mpr (ends_synthesize.mpr ⟨fun made _ => ?_, fun _ _ => s₃⟩)
  refine ends_bind.mpr (ends_get.mpr (ends_bind.mpr (ends_ofExcept.mpr ⟨fun method _ => ?_,
    fun _ _ => s₃⟩)))
  split <;> exact trivial

end Failed

/-! ### Answers -/

section Lists

variable {u u' : Universe} {ty : TypeId} {d : InterfaceDecl} {repr : ReprId}
  {listed : List NativeMethod} {i k : Nat} {m : MethodDecl} {n : NativeMethod} {A : Set Act}

/-- An exported method must be listed. -/
theorem Lists.answer_absent (hl : u.Lists ty d repr listed) (h : Sound u)
    (hm : d.complete[i]? = some m) (hexported : Text.isExported m.name = true)
    (habsent : ∀ n ∈ listed, n.name ≠ m.name) :
    u.answer ty i = .error (.interfaceMethodNotFound (u.catalog.typeName ty) m.name) := by
  rw [answer_interface h hl.declared hl.built hm]
  simp [interfaceSlot, ReprTable.emulatedFields?, hl.kind, hexported, nativeMethod?_eq_none habsent,
    Except.bind]

/-- The error for a listed method whose parameters are not as many as declared; its type is written
as `text`. -/
def arityMismatch (u : Universe) (ty : TypeId) (i : Nat) (m : MethodDecl) (f : FuncRepr)
    (text : String) : TypeError :=
  .signatureArityMismatch (u.catalog.typeName ty) i (receiverText u.catalog m.sig.recv)
    m.sig.params.length (u.catalog.signatureName m.sig) f.params.length text

theorem makeMethod_interface (hrecv : m.sig.recv.isSome = true) (f : FuncRepr) :
    u.makeMethod ty i m ⟨some (f.addReceiver repr), none⟩ =
      if f.params.length = m.sig.params.length then
        .ok ⟨ty, i, m, some ⟨m.sig, f.addReceiver repr⟩, none⟩
      else .error (.quoting (u.arityMismatch ty i m (f.addReceiver repr))
        (u.reprs.funcName (f.addReceiver repr))) := by
  have hlength : (f.addReceiver repr).params.length = m.sig.runtimeArity ↔
      f.params.length = m.sig.params.length := by
    rw [Signature.runtimeArity, if_pos hrecv]
    simp [FuncRepr.addReceiver]
  simp only [makeMethod, hlength]
  rfl

end Lists

/-- The same slots are filled, and as many were counted. -/
structure SameSlots (u u' : Universe) : Prop where
  slots : ∀ ty i, u'.slot? ty i = u.slot? ty i
  counted : u'.synthesized = u.synthesized

theorem sameSlots_resolve {u : Universe} (h : Sound u) {ty : TypeId} {i : Nat} {e : TypeError}
    (failed : ((resolve ty i).run.run u).1 = .error e) :
    u.SameSlots ((resolve ty i).run.run u).2 := by
  have s := (ends_of_error (Prod.ext failed rfl)).mp (ends_resolve_failed h ty i)
  exact ⟨fun n j => Steps.slot?_eq (by simp [Act.preparing]) s h,
    Steps.synthesized_eq (by simp [Act.preparing]) s⟩

/-- A look at the cache fills no slot either. -/
theorem sameSlots_method {u : Universe} (h : Sound u) {ty : TypeId} {i : Nat} {e : TypeError}
    (failed : ((method ty i).run.run u).1 = .error e) :
    u.SameSlots ((method ty i).run.run u).2 := by
  have hends : Ends (method ty i) u (fun _ _ => True) fun _ u' => u.SameSlots u' := by
    unfold method
    rw [ends_bind, ends_get]
    split
    · exact ends_ofExcept.mpr ⟨fun _ _ => trivial, fun _ _ => ⟨fun _ _ => rfl, rfl⟩⟩
    · refine Ends.mono (ends_self _ u) (fun _ _ _ => trivial) fun e u' hrun => ?_
      have hsame := sameSlots_resolve h (congrArg Prod.fst hrun)
      rwa [hrun] at hsame
  exact (ends_of_error (Prod.ext failed rfl)).mp hends

/-- An interface without a representation gets the one that is registered for it. -/
theorem ends_registerNativeWith_fresh {u : Universe} {ty : TypeId} {d : InterfaceDecl}
    {natives : List NativeMethod} (hd : u.catalog.interface? ty = some d)
    (hfresh : u.reprs.built.find? ty = none)
    (inRange : ∀ n ∈ natives, ∀ p ∈ n.ty.parts, p.index < u.reprs.size) :
    Ends (registerNativeWith ty natives) u
      (fun r u₁ => Steps {.native} u u₁ ∧ u₁.Lists ty d r (sortNative natives))
      fun _ _ => False := by
  refine ends_registerNativeWith_iff.mpr ⟨fun hnone => ?_, fun _ _ => ⟨fun _ hr => ?_, fun _ => ?_⟩⟩
  · cases hd.symm.trans hnone
  · cases hfresh.symm.trans hr
  · have step := step_withNative (by rw [hd]; rfl) hfresh inRange
    exact ⟨.single ⟨.native, rfl, step⟩, hd, find?_withNative_self, kind_withNative⟩

/-- **What a native layout of any methods answers**, then and in every later universe. The list is
sorted by the bytes of the names, and methods of one name keep their order. A declared method that
is not exported has no runtime type. An exported one is missing exactly if its name is not listed,
is misplaced exactly if the first of its name stands at another index, and if that one takes as many
parameters as declared, the answer is the listed type with the interface's representation before the
parameters. If it takes another number, the answer is that the arity is wrong exactly if the listed
type can be written; otherwise there is never an answer. A failing resolution fills no slot. -/
theorem native_layout_answers {u : Universe} {ty : TypeId} {d : InterfaceDecl}
    {natives : List NativeMethod} (h : u.Reachable) (hd : u.catalog.interface? ty = some d)
    (hfresh : u.reprs.built.find? ty = none)
    (inRange : ∀ n ∈ natives, ∀ p ∈ n.ty.parts, p.index < u.reprs.size) :
    ∃ r u₁, (registerNativeWith ty natives).run.run u = (.ok r, u₁) ∧
      (sortNative natives).Perm natives ∧
      ((sortNative natives).Pairwise fun a b => utf8 a.name ≤ utf8 b.name) ∧
      (∀ name, (sortNative natives).filter (·.name == name) = natives.filter (·.name == name)) ∧
      ∀ u', Later u₁ u' →
        u'.catalog.numMethod ty = d.complete.length ∧ (reprOf ty).run.run u' = (.ok r, u') ∧
        ∀ i m, d.complete[i]? = some m → ∃ answer,
          ((resolve ty i).run.run u').1 = answer ∧ ((method ty i).run.run u').1 = answer ∧
          (∀ e, answer = .error e → u'.SameSlots ((resolve ty i).run.run u').2 ∧
            u'.SameSlots ((method ty i).run.run u').2) ∧
          (Text.isExported m.name = false → answer = .ok ⟨ty, i, m, none, none⟩) ∧
          (Text.isExported m.name = true →
            (answer = .error (.interfaceMethodNotFound (u'.catalog.typeName ty) m.name) ↔
              ∀ n ∈ sortNative natives, n.name ≠ m.name) ∧
            ∀ k n, FirstNamed (sortNative natives) m.name k n →
              (answer = .error (.interfaceIndexMismatch (u'.catalog.typeName ty) m.name i k) ↔
                k ≠ i) ∧
              (∀ text, answer = .error (u'.arityMismatch ty i m (n.ty.addReceiver r) text) ↔
                k = i ∧ n.ty.params.length ≠ m.sig.params.length ∧
                  u'.reprs.Writes (.func (n.ty.addReceiver r)) text) ∧
              (answer = .error .endless ↔ k = i ∧ n.ty.params.length ≠ m.sig.params.length ∧
                ∀ text, ¬ u'.reprs.Writes (.func (n.ty.addReceiver r)) text) ∧
              (answer = .ok ⟨ty, i, m, some ⟨m.sig, n.ty.addReceiver r⟩, none⟩ ↔
                k = i ∧ n.ty.params.length = m.sig.params.length)) := by
  obtain ⟨r, u₁, registered, s, hlists₁⟩ :=
    (ends_registerNativeWith_fresh hd hfresh inRange).exists_ok
  have hsound₁ := Steps.sound s h.sound
  refine ⟨r, u₁, registered, List.mergeSort_perm _ _, ?_, filter_mergeSort_key NativeMethod.name _,
    fun u' later => ?_⟩
  · refine (pairwise_mergeSort_key NativeMethod.name natives).imp fun hle => ?_
    rw [← String.not_lt, lt_iff_utf8_lt] at hle
    exact List.not_lt.mp hle
  have hsound := later.sound hsound₁
  have hlists := hlists₁.steps (later.steps hsound₁) hsound₁
  have hmethods : u.catalog.methods ty = d.complete := by rw [Catalog.methods, hd]
  refine ⟨?_, run_reprOf_recorded hlists.built, fun i m hm => ⟨u'.answer ty i,
    run_resolve_fst hsound ty i, run_method_fst hsound ty i, fun e failed => ?_,
    hlists.answer_unexported hsound hm, fun hexported => ?_⟩⟩
  · rw [Catalog.numMethod, Catalog.methods, hlists.declared]
  · exact ⟨sameSlots_resolve hsound ((run_resolve_fst hsound ty i).trans failed),
      sameSlots_method hsound ((run_method_fst hsound ty i).trans failed)⟩
  have hrecv := h.receivers ty m (by rw [hmethods]; exact List.mem_of_getElem? hm)
  have hfound : ∀ {k n}, FirstNamed (sortNative natives) m.name k n → u'.answer ty i = _ :=
    fun hfirst => hlists.answer_found hsound hm hexported hfirst.nativeMethod?
  simp only [makeMethod_interface hrecv] at hfound
  constructor
  · refine ⟨fun hmissing => ?_, hlists.answer_absent hsound hm hexported⟩
    rcases firstNamed_or_absent (sortNative natives) m.name with ⟨k, n, hfirst⟩ | habsent
    · rw [hfound hfirst] at hmissing
      split at hmissing
      · split at hmissing
        · simp at hmissing
        · cases hname : u'.reprs.funcName (n.ty.addReceiver r) <;>
            simp [hname, TypeError.quoting, arityMismatch] at hmissing
      · simp at hmissing
    · exact habsent
  · intro k n hfirst
    simp only [← ReprTable.funcName_eq_some_iff, ← Option.eq_none_iff_forall_ne_some]
    rw [hfound hfirst]
    by_cases hk : k = i
    · by_cases hlength : n.ty.params.length = m.sig.params.length
      · simp [hk, hlength, arityMismatch]
      · cases hname : u'.reprs.funcName (n.ty.addReceiver r) <;>
          simp [hk, hlength, TypeError.quoting, arityMismatch]
    · simp [hk, arityMismatch]

/-- `type S []func(...S)`, with a representation, and
`type I interface { A(); B(); C(int); D(); E(); f() }`, where `int` is the first type. -/
def circularRest : Universe := after [
  .basic .int,
  .declareNamed "S" none,
  .funcOf ⟨none, [⟨1⟩], [], true⟩,
  .sliceOf ⟨2⟩,
  .setUnderlying ⟨1⟩ ⟨3⟩,
  .reprOf ⟨1⟩,
  .declareNamed "I" none,
  .interfaceOf [
    ⟨"A", none, ⟨none, [], [], false⟩⟩,
    ⟨"B", none, ⟨none, [], [], false⟩⟩,
    ⟨"C", none, ⟨none, [⟨0⟩], [], false⟩⟩,
    ⟨"D", none, ⟨none, [], [], false⟩⟩,
    ⟨"E", none, ⟨none, [], [], false⟩⟩,
    ⟨"f", none, ⟨none, [], [], false⟩⟩] [],
  .setUnderlying ⟨4⟩ ⟨5⟩]

/-- A method of its interface. -/
def circularMethod (name : String) (params : List TypeId) : MethodDecl :=
  ⟨name, none, ⟨some ⟨5⟩, params, [], false⟩⟩

/-- A layout that does not fit: `A` and `D` are repeated, `B` is missing, and the first `D` is
`func(...S)`. -/
def misfit : List NativeMethod :=
  [⟨"E", ⟨[], [], false⟩⟩, ⟨"A", ⟨[], [], false⟩⟩, ⟨"D", ⟨[⟨0⟩], [], true⟩⟩,
    ⟨"C", ⟨[], [], false⟩⟩, ⟨"A", ⟨[], [], true⟩⟩, ⟨"D", ⟨[], [], false⟩⟩]

/-- The first `A` is taken. `B` is missing, `C` has too few parameters, and `E` comes after five
others; `f` is not looked for. The first `D` has too many parameters, and writing them never ends. -/
theorem native_layout_answers_misfit : circularRest.Reachable ∧
    ∃ r u', (registerNativeWith ⟨4⟩ misfit).run.run circularRest = (.ok r, u') ∧
      ((resolve ⟨4⟩ 0).run.run u').1 = .ok ⟨⟨4⟩, 0, circularMethod "A" [],
        some ⟨(circularMethod "A" []).sig, ⟨[r], [], false⟩⟩, none⟩ ∧
      ((resolve ⟨4⟩ 1).run.run u').1 =
        .error (.interfaceMethodNotFound (u'.catalog.typeName ⟨4⟩) "B") ∧
      ((resolve ⟨4⟩ 2).run.run u').1 =
        .error (u'.arityMismatch ⟨4⟩ 2 (circularMethod "C" [⟨0⟩]) ⟨[r], [], false⟩ "func(I)") ∧
      ((resolve ⟨4⟩ 3).run.run u').1 = .error .endless ∧
      ((resolve ⟨4⟩ 4).run.run u').1 =
        .error (.interfaceIndexMismatch (u'.catalog.typeName ⟨4⟩) "E" 4 5) ∧
      ((resolve ⟨4⟩ 5).run.run u').1 =
        .ok ⟨⟨4⟩, 5, circularMethod "f" [], none, none⟩ := by
  have hreach : circularRest.Reachable := reachable_after (by cbv)
  let declared := [circularMethod "A" [], circularMethod "B" [], circularMethod "C" [⟨0⟩],
    circularMethod "D" [], circularMethod "E" [], circularMethod "f" []]
  have hd : circularRest.catalog.interface? ⟨4⟩ = some ⟨declared, [], declared⟩ := by cbv
  have hsize : circularRest.reprs.size = 3 := by cbv
  have hsorted : sortNative misfit = [⟨"A", ⟨[], [], false⟩⟩, ⟨"A", ⟨[], [], true⟩⟩,
    ⟨"C", ⟨[], [], false⟩⟩, ⟨"D", ⟨[⟨0⟩], [], true⟩⟩, ⟨"D", ⟨[], [], false⟩⟩,
    ⟨"E", ⟨[], [], false⟩⟩] := by cbv
  have hfirst : ∀ k n, (sortNative misfit)[k]? = some n →
      (∀ j < k, ∀ n' ∈ (sortNative misfit)[j]?, n'.name ≠ n.name) →
      FirstNamed (sortNative misfit) n.name k n :=
    fun k n hn hbefore => ⟨hn, rfl, fun j hj n' hn' => hbefore j hj n' hn'⟩
  obtain ⟨r, u', registered, -, -, -, hlater⟩ :=
    @native_layout_answers _ _ _ misfit hreach hd (by cbv) (by rw [hsize]; decide)
  -- The names of the interface and of `S` are read off the universe that is left.
  have hwritten : r = ⟨3⟩ ∧ u'.reprs.funcName ⟨[⟨3⟩], [], false⟩ = some "func(I)" ∧
      u'.reprs.funcName ⟨[⟨3⟩, ⟨0⟩], [], true⟩ = none := by
    have hrun : (registerNativeWith ⟨4⟩ misfit).run.run circularRest =
        (.ok ⟨3⟩, ((registerNativeWith ⟨4⟩ misfit).run.run circularRest).2) :=
      Prod.ext (by cbv) rfl
    obtain ⟨hr, rfl⟩ := Prod.ext_iff.mp (registered.symm.trans hrun)
    exact ⟨Except.ok.inj hr, by cbv, by cbv⟩
  obtain ⟨rfl, htext, hendless⟩ := hwritten
  obtain ⟨-, -, hanswers⟩ := hlater u' .refl
  rw [hsorted] at hfirst hanswers
  refine ⟨hreach, ⟨3⟩, u', registered, ?_, ?_, ?_, ?_, ?_, ?_⟩
  · obtain ⟨_, hrun, -, -, -, hanswer⟩ := hanswers 0 (circularMethod "A" []) rfl
    have hA := hfirst 0 ⟨"A", ⟨[], [], false⟩⟩ rfl (by decide)
    exact hrun.trans (((hanswer (by decide +kernel)).2 0 _ hA).2.2.2.mpr ⟨rfl, rfl⟩)
  · obtain ⟨_, hrun, -, -, -, hanswer⟩ := hanswers 1 (circularMethod "B" []) rfl
    exact hrun.trans ((hanswer (by decide +kernel)).1.mpr (by decide))
  · obtain ⟨_, hrun, -, -, -, hanswer⟩ := hanswers 2 (circularMethod "C" [⟨0⟩]) rfl
    have hC := hfirst 2 ⟨"C", ⟨[], [], false⟩⟩ rfl (by decide)
    exact hrun.trans ((((hanswer (by decide +kernel)).2 2 _ hC).2.1 _).mpr
      ⟨rfl, by decide, ReprTable.funcName_eq_some_iff.mp htext⟩)
  · obtain ⟨_, hrun, -, -, -, hanswer⟩ := hanswers 3 (circularMethod "D" []) rfl
    have hD := hfirst 3 ⟨"D", ⟨[⟨0⟩], [], true⟩⟩ rfl (by decide)
    exact hrun.trans (((hanswer (by decide +kernel)).2 3 _ hD).2.2.1.mpr
      ⟨rfl, by decide, ReprTable.funcName_eq_none_iff.mp hendless⟩)
  · obtain ⟨_, hrun, -, -, -, hanswer⟩ := hanswers 4 (circularMethod "E" []) rfl
    have hE := hfirst 5 ⟨"E", ⟨[], [], false⟩⟩ rfl (by decide)
    exact hrun.trans (((hanswer (by decide +kernel)).2 5 _ hE).1.mpr (by decide))
  · obtain ⟨_, hrun, -, -, hanswer, -⟩ := hanswers 5 (circularMethod "f" []) rfl
    exact hrun.trans (hanswer (by decide +kernel))

end Universe

end ScriptEngine
