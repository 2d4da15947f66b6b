import Mathlib
import ScriptEngine.Proofs.Universe.Attribution

/-!
The methods of names resolve to what they were bound to last.

Where callables are attached only by binding methods, the answer for a method of a name that is no
interface is decided by the one callable that can be found for it (`answer_of_attached`,
`answer_of_not_attached`), so no answer has another callable than the one the method was bound to
last (`Attributed.func_of_answer`). If, moreover, no operation failed for want of an underlying
type, every binding is still in place (`Carried`): no pointer stands for a placeholder that was left
behind, so bindings of different names never meet. Main statement: `resolve_latest`.
-/

namespace ScriptEngine.Universe

section Answers

variable {B : Bindings} {u : Universe} {ty : TypeId} {index : Nat} {m : MethodDecl} {r : ReprId}
  {callable : Callable}

/-- A method is answered as it is once its type is represented, unless its type is incomplete. -/
theorem answer_eq_of_methodAt (h : Sound u) (hm : methodAt u.catalog ty index = .ok m) :
    (∃ e, u.answer ty index = .error e ∧ e.isIncomplete = true) ∨
      ∃ u' r, Steps {.build} u u' ∧ u'.reprs.built.find? ty = some r ∧
        u'.answer ty index = u.answer ty index := by
  unfold answer
  simp only [hm]
  unfold represented
  cases hd : u.descriptors.find? ty with
  | some d => exact .inr ⟨u, d.repr, .refl, h.descriptors ty d hd, by simp only [hm, hd]⟩
  | none =>
    by_cases hkind : u.catalog.kindOf ty = .invalid
    · simp only [if_pos hkind]
      exact .inl ⟨_, rfl, rfl⟩
    simp only [if_neg hkind]
    rcases hrun : (ReprM.reprOf u.catalog ty).run.run u.reprs with ⟨e | r, t⟩
    · obtain ⟨name, rfl⟩ := (h.builds_of_error hrun).1
      exact .inl ⟨_, rfl, rfl⟩
    · have step : Step u .build { u with reprs := t } := .build ty r t hrun
      have hr : t.built.find? ty = some r := (h.builds_of_ok hrun).2
      refine .inr ⟨_, r, .single ⟨.build, rfl, step⟩, hr, ?_⟩
      exact answer_of_built (step.sound h) hr hm

/-- A name that is no interface has the methods of its declaration. -/
theorem mem_methods_of_methodAt (hiface : u.catalog.interface? ty = none)
    (hm : methodAt u.catalog ty index = .ok m) :
    ∃ d, u.catalog.decl? ty = some (.named d) ∧ m ∈ d.methods := by
  have hmem := List.mem_of_getElem? (methodAt_eq_ok.mp hm).2.2
  rw [Catalog.methods, hiface] at hmem
  cases hd : u.catalog.named? ty with
  | none =>
    rw [hd] at hmem
    cases hmem
  | some d =>
    rw [hd] at hmem
    exact ⟨d, Catalog.named?_eq_some.mp hd, hmem⟩

/-- What is bound for a method has its declared parameters. -/
theorem BoundFor.fits {recv : TypeId} (hb : u.BoundFor ty m recv r callable) :
    (MethodSlot.ofCallable callable).Fits m := by
  intro f hf
  obtain ⟨shape, hshape, htype⟩ := hb.type
  obtain rfl : callable.ty = f := Option.some.inj hf
  rw [htype, FuncRepr.addReceiver, List.length_cons, ← hshape.params.length_eq,
    Signature.runtimeArity, hb.declared]
  simp

variable (hiface : u.catalog.interface? ty = none) (hr : u.reprs.built.find? ty = some r)
  (hm : methodAt u.catalog ty index = .ok m)
include hiface hr hm

/-- **What is found for a method is what is answered**, kept or not. -/
theorem answer_of_attached (h : Sound u) (hattributed : Attributed B u)
    (hc : u.reprs.Attached r m.name callable) :
    u.answer ty index = .ok ((MethodSlot.ofCallable callable).paired ty index m) ∧
      ∃ recv x, u.BoundFor ty m recv x callable ∧ B ty m.name = some callable.func := by
  obtain ⟨d, hd, hmem⟩ := mem_methods_of_methodAt hiface hm
  have hn := Catalog.isNamed_iff.mpr ⟨d, hd⟩
  obtain ⟨m', recv, x, hname, hb, -, hB⟩ := hattributed.owner h hn hiface hr hc
  obtain ⟨d', hd', hmem'⟩ := hb.method
  obtain rfl := TypeDecl.named.inj (Option.some.inj (hd.symm.trans hd'))
  obtain rfl := h.methods.eq_of_name hd hmem hmem' hname.symm
  refine ⟨?_, recv, x, hb, hB⟩
  have hi : (u.catalog.interface? ty).isSome = false := by rw [hiface]; rfl
  rw [answer_of_built h hr hm, answerAt]
  cases hslot : u.slot? ty index with
  | some slot =>
    -- A filled slot holds a callable that could be found, and there is only one.
    obtain ⟨m', r', hr', hprovides⟩ := h.slot_provided hslot
    obtain rfl := Except.ok.inj (hm.symm.trans hprovides.decl)
    obtain rfl := Option.some.inj (hr.symm.trans hr')
    obtain ⟨callable', hc', rfl⟩ := hprovides.bound hi
    obtain rfl := hattributed.unique h hn hiface hr hc hc'
    exact makeMethod_of_fits hb.fits
  | none =>
    rw [slotFor, hi, if_neg (by decide), hattributed.search h hn hiface hr hc]
    exact makeMethod_of_fits hb.fits

/-- A method for which nothing can be found is answered only if it is unexported, and then without a
runtime half. -/
theorem answer_of_not_attached (h : Sound u)
    (hnone : ∀ callable, ¬ u.reprs.Attached r m.name callable) :
    u.answer ty index =
      if Text.isExported m.name then .error (.methodNotFound (u.catalog.typeName ty) m.name)
      else .ok (MethodSlot.blank.paired ty index m) := by
  have hi : (u.catalog.interface? ty).isSome = false := by rw [hiface]; rfl
  rw [answer_of_built h hr hm, answerAt]
  cases hslot : u.slot? ty index with
  | some slot =>
    obtain ⟨m', r', hr', hprovides⟩ := h.slot_provided hslot
    obtain rfl := Except.ok.inj (hm.symm.trans hprovides.decl)
    obtain rfl := Option.some.inj (hr.symm.trans hr')
    obtain ⟨callable, hc, -⟩ := hprovides.bound hi
    exact absurd hc (hnone callable)
  | none =>
    have hsearch : (u.reprs.search r m.name).1 = none := by
      refine Option.eq_none_iff_forall_ne_some.mpr fun callable hfound => ?_
      exact hnone callable (ReprTable.attached_of_search hfound)
    rw [slotFor, hi, if_neg (by decide), hsearch]
    by_cases hexported : Text.isExported m.name = true
    · simp only [if_pos hexported]
    · simp only [if_neg hexported]
      exact makeMethod_of_fits fun f hf => by cases hf

end Answers

/-- Methods of interfaces are answered without a callable. -/
theorem func_of_answer_interface {u : Universe} {ty : TypeId} {index : Nat} {m : MethodDecl}
    {r : ReprId} {method : Method} (h : Sound u) (hr : u.reprs.built.find? ty = some r)
    (hm : methodAt u.catalog ty index = .ok m) (hiface : (u.catalog.interface? ty).isSome = true)
    (hanswer : u.answer ty index = .ok method) : method.func = none := by
  rw [answer_of_built h hr hm, answerAt] at hanswer
  cases hslot : u.slot? ty index with
  | some slot =>
    obtain ⟨m', r', -, hprovides⟩ := h.slot_provided hslot
    rw [hslot] at hanswer
    rw [(fits_of_makeMethod hanswer).2]
    exact (cacheable_of_interfaceSlot (hprovides.interface hiface)).2
  | none =>
    rw [hslot, slotFor, if_pos hiface] at hanswer
    dsimp only at hanswer
    split at hanswer
    · next made hmade =>
      rw [(fits_of_makeMethod hanswer).2]
      exact (cacheable_of_interfaceSlot hmade).2
    · cases hanswer

/-- **A method is answered with no other callable than the one it was bound to last.** -/
theorem Attributed.func_of_answer {B : Bindings} {u : Universe} {ty : TypeId} {index : Nat}
    {method : Method} {func : FuncId} (hattributed : Attributed B u) (h : Sound u)
    (hanswer : u.answer ty index = .ok method) (hfunc : method.func = some func) :
    ∃ m, methodAt u.catalog ty index = .ok m ∧ B ty m.name = some func := by
  cases hm : methodAt u.catalog ty index with
  | error e =>
    simp only [answer, hm] at hanswer
    cases hanswer
  | ok m =>
  refine ⟨m, rfl, ?_⟩
  rcases answer_eq_of_methodAt h hm with ⟨e, he, -⟩ | ⟨u', r, s, hr, hsame⟩
  · cases he.symm.trans hanswer
  have h' := Steps.sound s h
  have hattributed' := Steps.attributed (by simp) s h hattributed
  rw [← Steps.catalog_eq (by simp) s h] at hm
  rw [← hsame] at hanswer
  cases hiface : u'.catalog.interface? ty with
  | some d =>
    rw [func_of_answer_interface h' hr hm (by rw [hiface]; rfl) hanswer] at hfunc
    cases hfunc
  | none =>
  by_cases hfound : ∃ callable, u'.reprs.Attached r m.name callable
  · obtain ⟨callable, hc⟩ := hfound
    obtain ⟨hpaired, recv, x, -, hB⟩ := answer_of_attached hiface hr hm h' hattributed' hc
    obtain rfl := Except.ok.inj (hpaired.symm.trans hanswer)
    obtain rfl := Option.some.inj hfunc
    exact hB
  · -- Nothing was bound, so what is answered has no callable.
    rw [answer_of_not_attached hiface hr hm h' (not_exists.mp hfound)] at hanswer
    split at hanswer
    · cases hanswer
    · cases hanswer
      cases hfunc

/-! ### Bindings that are in place -/

/-- Every method of a name that is no interface is bound to what `B` knows of. -/
def Carried (B : Bindings) (u : Universe) : Prop :=
  ∀ ty name func, u.catalog.interface? ty = none → B ty name = some func →
    ∃ m recv r callable, m.name = name ∧ u.BoundFor ty m recv r callable ∧
      u.reprs.callable? r name = some callable ∧ callable.func = func

section Carried

variable {B : Bindings} {u u' : Universe} {ty n : TypeId} {name : String} {func : FuncId}
  {m m' : MethodDecl} {recv recv' : TypeId} {r : ReprId} {callable callable' : Callable} {a : Act}
  {A : Set Act}

/-- What has a bound method is represented, and the method is bound to it or to the pointers to
it. -/
theorem BoundFor.represented (h : Sound u) (hfinished : Finished u)
    (hb : u.BoundFor ty m recv r callable) :
    ∃ x, u.reprs.built.find? ty = some x ∧ (r = x ∨ u.reprs.Interned (.pointer x) r) := by
  rcases hb.receiver h with rfl | hptr
  · exact ⟨r, hb.built, .inl rfl⟩
  · obtain ⟨x, hinterned, hx⟩ := h.interned_of_pointer hptr hb.built
    refine ⟨x, hx.resolve_right fun hunfinished => ?_, .inr hinterned⟩
    obtain ⟨d, hd, hkind⟩ := hunfinished
    exact hfinished x (ReprTable.lt_size_of_get? hd) ((ReprTable.kind_of_get? hd).trans hkind)

/-- **Methods of different names are bound to different representations**, unless the names are
interfaces. -/
theorem BoundFor.eq_of_repr (h : Sound u) (hfinished : Finished u)
    (hiface : u.catalog.interface? ty = none) (hb : u.BoundFor ty m recv r callable)
    (hb' : u.BoundFor n m' recv' r callable') : n = ty := by
  obtain ⟨d, hd, -⟩ := hb.method
  have hn := Catalog.isNamed_iff.mpr ⟨d, hd⟩
  obtain ⟨x, hx, rfl | hinterned⟩ := hb.represented h hfinished
  · exact (hb'.owner_own h hn hiface hx).1
  · exact (hb'.owner_pointer h hn hiface hx hinterned).1

theorem Step.carried (s : Step u a u') (ha : a ≠ .bind) (h : Sound u) (hcarried : Carried B u) :
    Carried B u' := by
  intro ty name func hiface hB
  have hiface' : u.catalog.interface? ty = none := by
    refine Catalog.interface?_eq_none fun hkind => ?_
    have hsame : u'.catalog.interface? ty = u.catalog.interface? ty :=
      s.grows.interface? (by rw [hkind]; decide)
    rw [← Catalog.isSome_interface?, ← hsame, hiface] at hkind
    cases hkind
  obtain ⟨m, recv, r, callable, hname, hb, hc, hfunc⟩ := hcarried ty name func hiface' hB
  refine ⟨m, recv, r, callable, hname, hb.mono s.grows (s.extended h).built, ?_, hfunc⟩
  rw [(s.prolongs ha h).callables, hc]

theorem Steps.carried (hA : .bind ∉ A) (s : Steps A u u') (h : Sound u)
    (hcarried : Carried B u) : Carried B u' :=
  (s.keeps (fun ha step hv hB => step.carried (fun hbind => hA (hbind ▸ ha)) hv hB) h hcarried).2

/-- **Binding a method leaves all other bindings in place.** -/
theorem BindsMethod.carried (hb : BindsMethod u ty name func u') (h : Sound u)
    (hfinished : Finished u) (hcarried : Carried B u) : Carried (B.bind ty name func) u' := by
  obtain ⟨u₁, m, recv, r, callable, rfl, s, hnew, rfl, rfl⟩ := hb.boundFor h
  have h₁ := Steps.sound s h
  have hfinished₁ := Steps.finished s (by simp) h hfinished
  have hcarried₁ := Steps.carried (by simp [Act.building]) s h hcarried
  intro n method g hiface hB
  by_cases heq : n = ty ∧ method = m.name
  · obtain ⟨rfl, rfl⟩ := heq
    rw [B.bind_self] at hB
    refine ⟨m, recv, r, _, rfl, hnew.bindCallable .., ?_, Option.some.inj hB⟩
    rw [bindCallable_eq]
    exact ReprTable.callable?_bind_self (h₁.lt_size hnew.built) ..
  · rw [B.bind_of_ne heq] at hB
    rw [bindCallable_eq] at hiface
    obtain ⟨m', recv', x, c, rfl, hold, hc, hfunc⟩ := hcarried₁ n method g hiface hB
    refine ⟨m', recv', x, c, rfl, hold.bindCallable .., ?_, hfunc⟩
    rw [bindCallable_eq]
    have hne : x ≠ r ∨ m'.name ≠ m.name := by
      by_contra hsame
      simp only [not_or, not_not] at hsame
      obtain ⟨rfl, hname⟩ := hsame
      exact heq ⟨(hold.eq_of_repr h₁ hfinished₁ hiface hnew).symm, hname⟩
    exact (ReprTable.callable?_bind_of_ne hne _).trans hc

/-- **Where callables are attached only by binding methods and no operation fails for want of an
underlying type, every binding is in place.** -/
theorem BoundBy.carried (h : BoundBy (fun u op => u.isComplete op = true) B u) : Carried B u := by
  refine h.keeps (P := Carried) ?_ Steps.carried ?_
  · exact fun _ _ _ _ hB => by cases hB
  · exact fun before hbound hB =>
      hbound.carried before.sound (Unbroken.finished before.reachableBy) hB

end Carried

/-- A resolution that does not fail for want of an underlying type is not answered so. -/
theorem isIncomplete_of_isComplete {u : Universe} {ty : TypeId} {index : Nat} {e : TypeError}
    (h : Sound u) (hcomplete : u.isComplete (.resolve ty index) = true)
    (he : u.answer ty index = .error e) : e.isIncomplete = false := by
  have hends : Ends (Operation.resolve ty index).run u (fun _ _ => u.answer ty index ≠ .error e)
      fun e' _ => e' = e := by
    refine ends_map.mpr (Ends.mono (ends_resolve subset_rfl h) (fun method _ hr => ?_)
      fun e' _ hr => ?_)
    · rw [hr.2.answer]
      nofun
    · exact Except.error.inj (hr.2.answer.symm.trans he)
  unfold isComplete perform at hcomplete
  unfold Ends at hends
  rcases hrun : (Operation.resolve ty index).run.run.run u with ⟨e' | _, u'⟩
  · rw [hrun] at hcomplete hends
    simpa [hends] using hcomplete
  · rw [hrun] at hends
    exact absurd he hends

/-- **A method of a name resolves to what it was bound to last**, with its declared signature; one
that was never bound is not found, or, if it is unexported, has no runtime half. -/
theorem resolve_latest {B : Bindings} {u : Universe} {ty : TypeId} {d : NamedDecl} {index : Nat}
    {m : MethodDecl} (h : BoundBy (fun u op => u.isComplete op = true) B u)
    (hd : u.catalog.decl? ty = some (.named d)) (hiface : u.catalog.kindOf ty ≠ .interface)
    (hptr : u.catalog.kindOf ty ≠ .ptr) (hm : d.methods[index]? = some m) :
    ((method ty index).run.run u).1 = ((resolve ty index).run.run u).1 ∧
      (∀ func, B ty m.name = some func → ∃ recv r f, m.sig.recv = some recv ∧
        (reprOf recv).run.run u = (.ok r, u) ∧ (funcReprOf m.sig).run.run u = (.ok f, u) ∧
        ((resolve ty index).run.run u).1 =
          .ok ⟨ty, index, m, some ⟨m.sig, f.addReceiver r⟩, some func⟩) ∧
      (B ty m.name = none → u.isComplete (.resolve ty index) = true →
        ((resolve ty index).run.run u).1 =
          if Text.isExported m.name then .error (.methodNotFound (u.catalog.typeName ty) m.name)
          else .ok ⟨ty, index, m, none, none⟩) := by
  have hsound := h.sound
  have hattributed := h.attributed
  have hnone := Catalog.interface?_eq_none hiface
  have hn := Catalog.isNamed_iff.mpr ⟨d, hd⟩
  have hmethod : methodAt u.catalog ty index = .ok m := by
    refine methodAt_eq_ok.mpr ⟨hptr, .inl hn, ?_⟩
    rw [Catalog.methods, hnone, Catalog.named?_eq_some.mpr hd, hm]
  rw [run_method_fst hsound, run_resolve_fst hsound]
  refine ⟨rfl, fun func hB => ?_, fun hB hcomplete => ?_⟩
  · -- The binding is in place, so it is what is found.
    obtain ⟨m', recv, r, callable, hname, hb, hc, rfl⟩ := h.carried ty m.name func hnone hB
    obtain ⟨d', hd', hm'⟩ := hb.method
    obtain rfl := TypeDecl.named.inj (Option.some.inj (hd.symm.trans hd'))
    obtain rfl := hsound.methods.eq_of_name hd hm' (List.mem_of_getElem? hm) hname
    obtain ⟨x, hx, hr⟩ := hb.represented hsound (Unbroken.finished h.reachableBy)
    have hattached : u.reprs.Attached x m'.name callable := by
      rcases hr with rfl | hinterned
      · exact .inl hc
      · exact .inr ⟨hsound.kind_ne_pointer hn hiface hptr hx, r, hinterned, hc⟩
    obtain ⟨f, hf, htype⟩ := hb.type
    refine ⟨recv, r, f, hb.declared, run_reprOf_recorded hb.built, run_funcReprOf_recorded hf, ?_⟩
    rw [(answer_of_attached hnone hx hmethod hsound hattributed hattached).1, ← htype]
    rfl
  · rcases answer_eq_of_methodAt hsound hmethod with ⟨e, he, hincomplete⟩ | ⟨u', x, s, hx, hsame⟩
    · cases (isIncomplete_of_isComplete hsound hcomplete he).symm.trans hincomplete
    have hsound' := Steps.sound s hsound
    have hattributed' := Steps.attributed (by simp) s hsound hattributed
    have hcatalog := Steps.catalog_eq (by simp) s hsound
    rw [← hcatalog] at hn hnone hmethod ⊢
    -- Whatever could be found would be a binding of the method.
    have hunbound : ∀ callable, ¬ u'.reprs.Attached x m.name callable := fun callable hc => by
      obtain ⟨-, -, -, -, -, -, hsome⟩ := hattributed'.owner hsound' hn hnone hx hc
      cases hB.symm.trans hsome
    rw [← hsame, answer_of_not_attached hnone hx hmethod hsound' hunbound]
    rfl

/-- The bindings that a list of operations leads to. -/
def Bindings.along (B : Bindings) (u : Universe) : List Operation → Bindings
  | [] => B
  | op :: ops => (B.after u op).along (u.perform op).2 ops

theorem boundBy_after {allowed : Universe → Operation → Bool} {ops : List Operation}
    (h : Permits allowed .empty ops = true)
    (hops : ∀ op ∈ ops, ∀ r name callable, op ≠ .bindCallable r name callable) :
    BoundBy (fun u op => allowed u op = true) (Bindings.along (fun _ _ => none) .empty ops)
      (after ops) := by
  have hfold : ∀ ops B u, BoundBy (fun u op => allowed u op = true) B u →
      Permits allowed u ops = true →
      (∀ op ∈ ops, ∀ r name callable, op ≠ .bindCallable r name callable) →
      BoundBy (fun u op => allowed u op = true) (B.along u ops)
        (ops.foldl (fun u op => (u.perform op).2) u) := by
    intro ops
    induction ops with
    | nil => exact fun B u hu _ _ => hu
    | cons op ops ih =>
      intro B u hu h hops
      rw [Permits, Bool.and_eq_true, Bool.and_eq_true, decide_eq_true_iff] at h
      exact ih _ _ (.step op hu h.1.1 h.1.2 (hops op (List.mem_cons_self ..))) h.2
        fun op' hop' => hops op' (List.mem_cons_of_mem _ hop')
  exact hfold ops _ .empty .empty h hops

/-- `type T struct{}` with `func (t T) Get()`, `func (t *T) Put()` and `func (t T) Len()`, of which
the first two are resolved in between, `Put` is bound twice and `Len` never. -/
def rebinding : List Operation := [
  .structOf [],
  .declareNamed "T" none,
  .setUnderlying ⟨1⟩ ⟨0⟩,
  .pointerTo ⟨1⟩,
  .addMethod ⟨1⟩ ⟨"Get", none, ⟨none, [], [], false⟩⟩,
  .addMethod ⟨1⟩ ⟨"Put", none, ⟨some ⟨2⟩, [], [], false⟩⟩,
  .allocFunc,
  .allocFunc,
  .allocFunc,
  .bindMethod ⟨1⟩ "Put" ⟨0⟩,
  .resolve ⟨1⟩ 1,
  .bindMethod ⟨1⟩ "Get" ⟨1⟩,
  .resolve ⟨1⟩ 0,
  .addMethod ⟨1⟩ ⟨"Len", none, ⟨none, [], [], false⟩⟩,
  .bindMethod ⟨1⟩ "Put" ⟨2⟩]

set_option maxRecDepth 4000 in
/-- `Put` resolves to its second binding, and `Len` is not found. -/
theorem resolve_latest_rebinding : ∃ B, BoundBy (fun u op => u.isComplete op = true) B
      (after rebinding) ∧ B ⟨1⟩ "Put" = some ⟨2⟩ ∧ B ⟨1⟩ "Len" = none ∧
    (∃ r f, (reprOf ⟨2⟩).run.run (after rebinding) = (.ok r, after rebinding) ∧
      ((resolve ⟨1⟩ 1).run.run (after rebinding)).1 = .ok ⟨⟨1⟩, 1,
        ⟨"Put", none, ⟨some ⟨2⟩, [], [], false⟩⟩,
        some ⟨⟨some ⟨2⟩, [], [], false⟩, FuncRepr.addReceiver r f⟩, some ⟨2⟩⟩) ∧
    ((resolve ⟨1⟩ 2).run.run (after rebinding)).1 = .error (.methodNotFound "T" "Len") := by
  have hbound : BoundBy (fun u op => u.isComplete op = true)
      (Bindings.along (fun _ _ => none) .empty rebinding) (after rebinding) :=
    boundBy_after (by cbv) (by simp [rebinding])
  have hrun : (after rebinding).catalog.decl? ⟨1⟩ = some (.named ⟨"T", none, some ⟨0⟩, [
        ⟨"Get", none, ⟨some ⟨1⟩, [], [], false⟩⟩, ⟨"Put", none, ⟨some ⟨2⟩, [], [], false⟩⟩,
        ⟨"Len", none, ⟨some ⟨1⟩, [], [], false⟩⟩]⟩) ∧
      (after rebinding).catalog.kindOf ⟨1⟩ = .struct ∧
      (after rebinding).isComplete (.resolve ⟨1⟩ 2) = true := by cbv
  have hbindings : Bindings.along (fun _ _ => none) .empty rebinding ⟨1⟩ "Put" = some ⟨2⟩ ∧
      Bindings.along (fun _ _ => none) .empty rebinding ⟨1⟩ "Len" = none := by cbv
  obtain ⟨hd, hkind, hcomplete⟩ := hrun
  have hiface : (after rebinding).catalog.kindOf ⟨1⟩ ≠ .interface := by rw [hkind]; decide
  have hptr : (after rebinding).catalog.kindOf ⟨1⟩ ≠ .ptr := by rw [hkind]; decide
  obtain ⟨recv, r, f, hrecv, hr, -, hput⟩ :=
    (@resolve_latest _ _ _ _ 1 _ hbound hd hiface hptr rfl).2.1 ⟨2⟩ hbindings.1
  obtain rfl := Option.some.inj hrecv
  refine ⟨_, hbound, hbindings.1, hbindings.2, ⟨r, f, hr, hput⟩, ?_⟩
  rw [(@resolve_latest _ _ _ _ 2 _ hbound hd hiface hptr rfl).2.2 hbindings.2 hcomplete]
  cbv

end ScriptEngine.Universe
