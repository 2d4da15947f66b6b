import Mathlib
import ScriptEngine.Proofs.Universe.History

/-!
The indices of methods.

`addMethod` answers with the place of the new method in the methods of a name (`Issued`), which
later declarations only extend. As long as the name is not made to stand for an interface, its
indices count these methods, so an index that was issued keeps its method
(`issued_index_keeps_method`). A name that stands for something when it gets the method cannot be
made to stand for anything else; a name that stands for nothing yet can still be made to stand for
an interface, whose methods are counted from then on (`issued_index_unfinishedName`).
-/

namespace ScriptEngine

/-- A method as a type of its own has it: without a receiver it is received by the type itself. -/
def MethodDecl.receivedBy (m : MethodDecl) (ty : TypeId) : MethodDecl :=
  { m with sig := { m.sig with recv := some (m.sig.recv.getD ty) } }

namespace Catalog

/-- The method `m` stands at `i` in the methods of the name `ty`. -/
def Issued (c : Catalog) (ty : TypeId) (i : Nat) (m : MethodDecl) : Prop :=
  ∃ d, c.decl? ty = some (.named d) ∧ d.methods[i]? = some m

section Issued

variable {c c' : Catalog} {ty : TypeId} {i : Nat} {m : MethodDecl}

/-- The index that `addMethod` answers is issued, and the type may have methods. -/
theorem issued_of_addMethod (h : c.addMethod ty m = .ok (i, c')) :
    c'.Issued ty i (m.receivedBy ty) ∧ refusesMethods (c.kindOf ty) = false := by
  unfold addMethod at h
  split at h
  · cases h
  next d hd =>
  dsimp only at h
  split at h
  · cases h
  next hrefuses =>
  split at h
  · cases h
  split at h
  · cases h
    have hlt := lt_size_of_decl? (named?_eq_some.mp hd)
    exact ⟨⟨_, decl?_setNamed_self hlt _, List.getElem?_concat_length⟩,
      Bool.eq_false_iff.mpr hrefuses⟩
  · cases h

/-- What is issued stays so. -/
theorem Issued.grows (h : c.Issued ty i m) (g : Grows c c') : c'.Issued ty i m := by
  obtain ⟨d, hd, hi⟩ := h
  obtain ⟨hlt, rfl⟩ := List.getElem?_eq_some_iff.mp hi
  obtain ⟨d', hd', -, -, -, hprefix⟩ := g.named ty d hd
  exact ⟨d', hd', List.prefix_iff_getElem?.mp hprefix i hlt⟩

/-- A name that stands for no interface counts the methods that were issued. -/
theorem Issued.getElem?_methods (h : c.Issued ty i m) (hiface : c.interface? ty = none) :
    (c.methods ty)[i]? = some m := by
  obtain ⟨d, hd, hi⟩ := h
  rw [methods, hiface, named?_eq_some.mpr hd]
  exact hi

/-- The name of an issued method leads back to its index. -/
theorem Issued.methodIndex? (h : c.Issued ty i m) (hiface : c.interface? ty = none)
    (howned : c.MethodsOwned) : c.methodIndex? ty m.name = some i := by
  obtain ⟨d, hd, hi⟩ := h
  obtain ⟨hlt, rfl⟩ := List.getElem?_eq_some_iff.mp hi
  rw [Catalog.methodIndex?, methods, hiface, named?_eq_some.mpr hd, methodPosition?,
    List.findIdx?_eq_some_iff_getElem]
  refine ⟨hlt, beq_self_eq_true _, fun j hj heq => ?_⟩
  have hnames := howned.nodup ty d hd
  have hi' : i < (d.methods.map (·.name)).length := by rwa [List.length_map]
  have hj' := Nat.lt_trans hj hi'
  have hsame : (d.methods.map (·.name))[j] = (d.methods.map (·.name))[i] := by
    simpa using heq
  exact Nat.ne_of_lt hj (hnames.getElem_inj_iff.mp hsame)

end Issued

end Catalog

namespace Universe

variable {u u₁ u' : Universe} {ty : TypeId} {i : Nat} {m : MethodDecl}

/-- What is answered describes the method at the index. -/
theorem decl_of_answer {method : Method} (h : u.answer ty i = .ok method) :
    (u.catalog.methods ty)[i]? = some method.decl := by
  unfold answer at h
  split at h
  · cases h
  next m hm =>
  have hmade : ∀ {v : Universe} {slot : MethodSlot}, v.makeMethod ty i m slot = .ok method →
      method.decl = m := fun hv => by
    obtain ⟨-, rfl⟩ := fits_of_makeMethod hv
    rfl
  rw [(methodAt_eq_ok.mp hm).2.2]
  split at h
  · unfold answerAt at h
    split at h
    · rw [hmade h]
    · split at h
      · rw [hmade h]
      · cases h
  · cases h

/-- A declaration that succeeds does so in the catalog. -/
theorem exists_of_run_addMethod (h : (addMethod ty m).run.run u = (.ok i, u')) :
    u.catalog.addMethod ty m = .ok (i, u'.catalog) := by
  have hends : Ends (addMethod ty m) u
      (fun i v => u.catalog.addMethod ty m = .ok (i, v.catalog)) fun _ _ => True :=
    ends_tryDeclare.mpr ⟨fun _ _ hc => hc, fun _ _ => trivial⟩
  exact hends.ok h

/-- **An index that was issued keeps its method** through all operations that follow, unless the
type is made to stand for an interface; a type that stood for something when it got the method
never is. -/
theorem issued_index_keeps_method (h : u.Reachable) (inRange : (Operation.addMethod ty m).InRange u)
    (added : (addMethod ty m).run.run u = (.ok i, u₁)) (later : Later u₁ u') :
    (u.catalog.kindOf ty ≠ .invalid → u'.catalog.interface? ty = none) ∧
    (u'.catalog.interface? ty = none →
      i < u'.catalog.numMethod ty ∧ u'.catalog.methodIndex? ty m.name = some i ∧
      (∀ found, ((method ty i).run.run u').1 = .ok found → found.decl = m.receivedBy ty) ∧
      ∀ found, ((resolve ty i).run.run u').1 = .ok found → found.decl = m.receivedBy ty) := by
  have hfirst : Later u u₁ := by
    refine .single ⟨.addMethod ty m, inRange, ?_⟩
    rw [perform, Operation.run, run_discard_snd, added]
  have hlater : Later u u' := hfirst.trans later
  have hsound := hlater.sound h.sound
  obtain ⟨hissued, hmay⟩ := Catalog.issued_of_addMethod (exists_of_run_addMethod added)
  have hissued' := hissued.grows ((later.steps (hfirst.sound h.sound)).grows)
  refine ⟨fun hcomplete => ?_, fun hiface => ?_⟩
  · rw [(hlater.steps h.sound).grows.interface? hcomplete]
    refine Catalog.interface?_eq_none fun hkind => ?_
    rw [hkind] at hmay
    cases hmay
  · have hi := hissued'.getElem?_methods hiface
    obtain ⟨hlt, -⟩ := List.getElem?_eq_some_iff.mp hi
    have hdecl : ∀ found, u'.answer ty i = .ok found → found.decl = m.receivedBy ty :=
      fun found hfound => Option.some.inj ((decl_of_answer hfound).symm.trans hi)
    refine ⟨hlt, hissued'.methodIndex? hiface hsound.methods, ?_, ?_⟩
    · rwa [run_method_fst hsound]
    · rwa [run_resolve_fst hsound]

/-- A name `T` that stands for nothing yet, with `struct{}` and `interface{}` beside it. -/
def unfinishedName : Universe := after [
  .declareNamed "T" none,
  .structOf [],
  .interfaceOf [] []]

/-- The same with `func (T) M()`. -/
def unfinishedWithMethod : Universe :=
  unfinishedName.onward [.addMethod ⟨0⟩ ⟨"M", none, ⟨none, [], [], false⟩⟩]

/-- The same with `T` made to stand for `struct{}` and `M` bound. -/
def finishedWithMethod : Universe :=
  unfinishedWithMethod.onward [.setUnderlying ⟨0⟩ ⟨1⟩, .allocFunc, .bindMethod ⟨0⟩ "M" ⟨0⟩]

/-- `M` has the index 0, and keeps it if `T` is made to stand for `struct{}`. If `T` is made to
stand for `interface{}`, it has no methods any more. -/
theorem issued_index_keeps_method_unfinishedName : unfinishedName.Reachable ∧
    (addMethod ⟨0⟩ ⟨"M", none, ⟨none, [], [], false⟩⟩).run.run unfinishedName =
      (.ok 0, unfinishedWithMethod) ∧
    (∃ u' found, Later unfinishedWithMethod u' ∧ u'.catalog.interface? ⟨0⟩ = none ∧
      0 < u'.catalog.numMethod ⟨0⟩ ∧ u'.catalog.methodIndex? ⟨0⟩ "M" = some 0 ∧
      ((method ⟨0⟩ 0).run.run u').1 = .ok found ∧
      found.decl = ⟨"M", none, ⟨some ⟨0⟩, [], [], false⟩⟩) ∧
    ∃ u', Later unfinishedWithMethod u' ∧ u'.catalog.numMethod ⟨0⟩ = 0 ∧
      u'.catalog.methodIndex? ⟨0⟩ "M" = none := by
  have hreach : unfinishedName.Reachable := reachable_after (by cbv)
  have inRange : (Operation.addMethod ⟨0⟩ ⟨"M", none, ⟨none, [], [], false⟩⟩).InRange
      unfinishedName := of_decide_eq_true (by cbv)
  have added : (addMethod ⟨0⟩ ⟨"M", none, ⟨none, [], [], false⟩⟩).run.run unfinishedName =
      (.ok 0, unfinishedWithMethod) := Prod.ext (by cbv) (run_discard_snd ..).symm
  have later : Later unfinishedWithMethod finishedWithMethod := later_onward (by cbv)
  have hiface : finishedWithMethod.catalog.interface? ⟨0⟩ = none := by cbv
  obtain ⟨found, hfound⟩ :
    ∃ found, ((method ⟨0⟩ 0).run.run finishedWithMethod).1 = .ok found := ⟨_, by cbv⟩
  have hkept := (issued_index_keeps_method hreach inRange added later).2
  obtain ⟨hlt, hindex, hdecl, -⟩ := hkept hiface
  refine ⟨hreach, added, ⟨finishedWithMethod, found, later, hiface, hlt, hindex, hfound,
    hdecl found hfound⟩, ?_⟩
  exact ⟨unfinishedWithMethod.onward [.setUnderlying ⟨0⟩ ⟨2⟩], later_onward (by cbv), by cbv,
    by cbv⟩

end Universe

end ScriptEngine
